import IsmsPortal.Foundation.Base64
import IsmsPortal.Foundation.JsString
import IsmsPortal.Foundation.Locking
import Mathlib.Data.List.Nodup

/-! # Articles of the portal

The list of articles is one setting, which a request reads, changes and writes again in a
transaction. The transaction first takes the advisory lock of the setting, so no request overwrites
the change of another: the list holds the articles that were created and not removed.
-/

namespace Publication.Articles

open Foundation Concurrent

/-! ## Validation -/

/-- What the parser of addresses finds. -/
structure Url where
  protocol : String
  username : String
  password : String
  href : String

inductive Refusal
  | invalidLink
  | linkProtocol
  | linkCredentials
  | logoFormat
  | logoSize
  | logoContent
  | titleTooShort
  | tooManyArticles
  | articleNotFound
deriving DecidableEq, Repr

def validateArticleUrl (parseUrl : String → Option Url) (value : String) :
    Except Refusal String :=
  match parseUrl (JsString.trim value) with
  | none => .error .invalidLink
  | some parsed =>
      if parsed.protocol ≠ "https:" ∧ parsed.protocol ≠ "http:" then .error .linkProtocol
      else if parsed.username ≠ "" ∨ parsed.password ≠ "" then .error .linkCredentials
      else .ok parsed.href

def allowedLogoTypes : List String := ["image/png", "image/jpeg", "image/webp"]

/-- `/^data:(image\/(?:png|jpeg|webp));base64,([A-Za-z0-9+/]+={0,2})$/u.exec(dataUrl)` -/
def matchDataUrl (dataUrl : List Char) : Option (String × List Char) :=
  allowedLogoTypes.findSome? fun type =>
    let start := "data:".toList ++ type.toList ++ ";base64,".toList
    let data := dataUrl.drop start.length
    let digits := data.rdropWhile (· = '=')
    if start <+: dataUrl ∧ digits ≠ [] ∧ digits.all (· ∈ Base64.alphabet) ∧
        data.length - digits.length ≤ 2 then
      some (type, data)
    else none

/-- `toString("ascii")` clears the high bit of every byte. -/
def ascii (bytes : List UInt8) : List Char := bytes.map fun byte => Char.ofNat (byte.toNat % 128)

/-- The first and last bytes of an image of the type. -/
def validContent (type : String) (buffer : List UInt8) : Bool :=
  (type = "image/png" ∧ buffer.take 8 = [0x89, 0x50, 0x4e, 0x47, 0x0d, 0x0a, 0x1a, 0x0a]) ∨
  (type = "image/jpeg" ∧ buffer[0]? = some 0xff ∧ buffer[1]? = some 0xd8 ∧
    buffer.reverse[1]? = some 0xff ∧ buffer.reverse[0]? = some 0xd9) ∨
  (type = "image/webp" ∧ ascii (buffer.take 4) = "RIFF".toList ∧
    ascii ((buffer.drop 8).take 4) = "WEBP".toList)

def validateBrandingLogo (dataUrl : Option (List Char)) : Except Refusal (Option (List Char)) :=
  match dataUrl with
  | none | some [] => .ok none
  | some dataUrl =>
      match matchDataUrl dataUrl with
      | none => .error .logoFormat
      | some (type, data) =>
          let buffer := Base64.decode data
          if buffer.length = 0 ∨ 256 * 1024 < buffer.length then .error .logoSize
          else if validContent type buffer then .ok (some dataUrl) else .error .logoContent

/-! ## Requests -/

structure Article where
  id : Nat
  title : String
  url : String
  imageDataUrl : Option (List Char)
  createdAt : Int
deriving DecidableEq

structure ArticleDto where
  title : String
  url : String
  imageDataUrl : Option (List Char)

def maxArticles : Nat := 30

/-- What `update` is given to do with the list. -/
inductive Change
  | create (article : Article)
  | remove (id : Nat)
deriving DecidableEq

def Change.apply (articles : List Article) : Change → Except Refusal (List Article)
  | .create article =>
      if maxArticles ≤ articles.length then .error .tooManyArticles
      else .ok (article :: articles)
  | .remove id =>
      if articles.any fun item => item.id = id then .ok (articles.filter fun item => item.id ≠ id)
      else .error .articleNotFound

/-- The setting, with the identifiers that requests have drawn, and the changes that were
committed. -/
structure Store where
  clock : Int
  articles : List Article
  issued : List (Nat × Nat)
  created : List Article
  removed : List Nat

def Store.empty (clock : Int) : Store := ⟨clock, [], [], [], []⟩

/-- The commit of a change, which writes the list. -/
def Store.commit (store : Store) (change : Change) (articles : List Article) : Store :=
  match change with
  | .create article => { store with articles, created := article :: store.created }
  | .remove id => { store with articles, removed := id :: store.removed }

inductive Request
  | create (body : ArticleDto)
  | remove (id : Nat)
  /-- `SELECT pg_advisory_xact_lock(…)` -/
  | locking (change : Change)
  | reading (change : Change)
  /-- The upsert and the commit. -/
  | committing (change : Change) (articles : List Article)

/-- A fresh identifier, or how a statement of the database ends. -/
inductive Choice
  | drawn (id : Nat)
  | done
  | failed

section Program

variable (parseUrl : String → Option Url)

/-- The article of a request that is valid. -/
def newArticle (body : ArticleDto) (id : Nat) (clock : Int) : Except Refusal Article := do
  let title := JsString.trim body.title
  if JsString.length title < 3 then .error .titleTooShort
  let url ← validateArticleUrl parseUrl body.url
  let imageDataUrl ← validateBrandingLogo body.imageDataUrl
  return ⟨id, title, url, imageDataUrl, clock⟩

def advance (name : Nat) (choice : Choice) (store : Store) : Request → Option (Option Request × Store)
  | .create body =>
      match choice with
      | .drawn id =>
          if id ∈ store.issued.map Prod.fst then none
          else match newArticle parseUrl body id store.clock with
            | .ok article =>
                some (some (.locking (.create article)),
                  { store with issued := (id, name) :: store.issued })
            | .error _ => some (none, store)
      | _ => none
  | .remove id => some (some (.locking (.remove id)), store)
  | .locking change =>
      match choice with
      | .done => some (some (.reading change), store)
      | .failed => some (none, store)
      | _ => none
  | .reading change =>
      match choice with
      | .done =>
          match change.apply store.articles with
          | .ok articles => some (some (.committing change articles), store)
          | .error _ => some (none, store)
      | .failed => some (none, store)
      | _ => none
  | .committing change articles =>
      match choice with
      | .done => some (none, store.commit change articles)
      | .failed => some (none, store)
      | _ => none

def isStart : Request → Bool
  | .create _ | .remove _ => true
  | _ => false

def program : Concurrent Store Request Choice where
  drift time store := if store.clock ≤ time then some { store with clock := time } else none
  start := isStart
  advance := advance parseUrl

/-- The advisory lock, held to the end of the transaction. -/
def locks : Locks Store Request Unit where
  holds
    | .reading _ | .committing _ _ => [()]
    | _ => []
  wants _
    | .locking _ => [()]
    | _ => []

end Program

/-! ## The list -/

section Invariant

variable (parseUrl : String → Option Url)

/-- What requests have checked of an article. -/
structure Article.Valid (article : Article) : Prop where
  title : 3 ≤ JsString.length article.title ∧ JsString.trim article.title = article.title
  url : ∃ value parsed, parseUrl value = some parsed ∧ parsed.href = article.url ∧
    (parsed.protocol = "https:" ∨ parsed.protocol = "http:") ∧
    parsed.username = "" ∧ parsed.password = ""
  image : ∀ image, article.imageDataUrl = some image → ∃ type data,
    matchDataUrl image = some (type, data) ∧ (Base64.decode data).length ≤ 256 * 1024 ∧
    validContent type (Base64.decode data) = true

theorem validateArticleUrl_eq_ok {parseUrl : String → Option Url} {value url : String}
    (h : validateArticleUrl parseUrl value = .ok url) :
    ∃ value parsed, parseUrl value = some parsed ∧ parsed.href = url ∧
      (parsed.protocol = "https:" ∨ parsed.protocol = "http:") ∧
      parsed.username = "" ∧ parsed.password = "" := by
  rw [validateArticleUrl] at h
  split at h
  next => cases h
  next parsed hparsed =>
    split at h
    next => cases h
    next hprotocol =>
      split at h
      next => cases h
      next hcredentials =>
        cases h
        exact ⟨_, parsed, hparsed, rfl, by tauto, by tauto, by tauto⟩

theorem validateBrandingLogo_eq_ok {dataUrl : Option (List Char)} {image : List Char}
    (h : validateBrandingLogo dataUrl = .ok (some image)) :
    ∃ type data, matchDataUrl image = some (type, data) ∧
      (Base64.decode data).length ≤ 256 * 1024 ∧
      validContent type (Base64.decode data) = true := by
  unfold validateBrandingLogo at h
  split at h
  next => cases h
  next => cases h
  next text _ =>
    split at h
    next => cases h
    next type data hmatch =>
      dsimp only at h
      split at h
      next => cases h
      next hsize =>
        split at h
        next hcontent =>
          cases h
          exact ⟨type, data, hmatch, by omega, hcontent⟩
        next => cases h

theorem newArticle_eq_ok {parseUrl : String → Option Url} {body : ArticleDto} {id : Nat}
    {clock : Int} {article : Article} (h : newArticle parseUrl body id clock = .ok article) :
    article.id = id ∧ article.Valid parseUrl := by
  rw [newArticle] at h
  simp only [bind, Except.bind, pure, Except.pure] at h
  by_cases hshort : JsString.length (JsString.trim body.title) < 3
  · rw [if_pos hshort] at h
    cases h
  rw [if_neg hshort] at h
  cases hurl : validateArticleUrl parseUrl body.url with
  | error refusal => rw [hurl] at h; cases h
  | ok url =>
      rw [hurl] at h
      cases himage : validateBrandingLogo body.imageDataUrl with
      | error refusal => rw [himage] at h; cases h
      | ok image =>
          rw [himage] at h
          cases h
          refine ⟨rfl, ⟨Nat.le_of_not_lt hshort, JsString.trim_trim _⟩,
            validateArticleUrl_eq_ok hurl, fun found hfound => ?_⟩
          subst hfound
          exact validateBrandingLogo_eq_ok himage

/-- The list holds what was created and not removed, the newest first. -/
structure Store.Consistent (store : Store) : Prop where
  articles : store.articles = store.created.filter fun article => article.id ∉ store.removed
  bounded : store.articles.length ≤ maxArticles
  created : (store.created.map Article.id).Nodup
  removed : store.removed.Nodup
  known : ∀ id ∈ store.removed, id ∈ store.created.map Article.id
  valid : ∀ article ∈ store.created, article.Valid parseUrl
  drawn : (store.issued.map Prod.fst).Nodup
  issued : ∀ article ∈ store.created, article.id ∈ store.issued.map Prod.fst

/-- A change that was not committed yet. -/
def Change.Pending (name : Nat) (store : Store) : Change → Prop
  | .create article => (article.id, name) ∈ store.issued ∧
      article.id ∉ store.created.map Article.id ∧ article.Valid parseUrl
  | .remove _ => True

/-- In its transaction a request writes the change of the list as it is. -/
def Request.Holds (name : Nat) (store : Store) : Request → Prop
  | .locking change | .reading change => change.Pending parseUrl name store
  | .committing change articles =>
      change.Pending parseUrl name store ∧ change.apply store.articles = .ok articles
  | _ => True

def outline : Outline Store Request := ⟨Store.Consistent parseUrl, Request.Holds parseUrl⟩

variable {parseUrl}

theorem consistent_empty (clock : Int) : (Store.empty clock).Consistent parseUrl := by
  refine ⟨rfl, Nat.zero_le _, ?_, ?_, ?_, ?_, ?_, ?_⟩
  all_goals simp [Store.empty]

/-- The commit of a change of the list as it is. -/
theorem Store.Consistent.commit {store : Store} (h : store.Consistent parseUrl) {name : Nat}
    {change : Change} (hpending : change.Pending parseUrl name store) {articles : List Article}
    (happly : change.apply store.articles = .ok articles) :
    (store.commit change articles).Consistent parseUrl := by
  cases change with
  | create article =>
      obtain ⟨hissued, hnew, hvalid⟩ := hpending
      have hlive : article.id ∉ store.removed := fun hmem => hnew (h.known _ hmem)
      have hroom : store.articles.length < maxArticles := by
        rw [Change.apply] at happly
        split at happly
        next => cases happly
        next hroom => exact Nat.lt_of_not_le hroom
      obtain rfl : article :: store.articles = articles := by
        rw [Change.apply, if_neg (Nat.not_le_of_lt hroom)] at happly
        exact Except.ok.inj happly
      refine ⟨?_, hroom, List.nodup_cons.mpr ⟨hnew, h.created⟩, h.removed, ?_,
        List.forall_mem_cons.mpr ⟨hvalid, h.valid⟩, h.drawn,
        List.forall_mem_cons.mpr ⟨List.mem_map_of_mem hissued, h.issued⟩⟩
      · have hfilter : (article :: store.created).filter (fun article => article.id ∉ store.removed) =
            article :: store.articles := by
          rw [List.filter_cons, if_pos (decide_eq_true hlive), h.articles]
        exact hfilter.symm
      · exact fun id hid => List.mem_cons_of_mem _ (h.known id hid)
  | remove id =>
      have hpresent : store.articles.any fun item => item.id = id := by
        rw [Change.apply] at happly
        split at happly
        next hany => exact hany
        next => cases happly
      obtain rfl : store.articles.filter (fun item => item.id ≠ id) = articles := by
        rw [Change.apply, if_pos hpresent] at happly
        exact Except.ok.inj happly
      obtain ⟨item, hitem, hid⟩ := List.any_eq_true.mp hpresent
      obtain rfl : item.id = id := of_decide_eq_true hid
      obtain ⟨hcreated, hlive⟩ := List.mem_filter.mp (h.articles ▸ hitem)
      refine ⟨?_, (List.length_filter_le _ _).trans h.bounded, h.created,
        List.nodup_cons.mpr ⟨of_decide_eq_true hlive, h.removed⟩, ?_, h.valid, h.drawn, h.issued⟩
      · have hfilter : store.articles.filter (fun other => other.id ≠ item.id) =
            store.created.filter fun article => article.id ∉ item.id :: store.removed := by
          rw [h.articles, List.filter_filter]
          refine List.filter_congr fun article _ => ?_
          simp [List.mem_cons, not_or]
        exact hfilter
      · exact List.forall_mem_cons.mpr ⟨List.mem_map_of_mem hcreated, h.known⟩

/-- A change of another request does not commit the article of this one. -/
theorem Change.Pending.commit {store : Store} (h : store.Consistent parseUrl) {name other : Nat}
    (hother : other ≠ name) {change change' : Change}
    (hpending : change.Pending parseUrl name store)
    (hpending' : change'.Pending parseUrl other store) (articles : List Article) :
    change'.Pending parseUrl other (store.commit change articles) := by
  cases change' with
  | remove id => trivial
  | create article' =>
      cases change with
      | remove id => exact hpending'
      | create article =>
          obtain ⟨hissued', hnew', hvalid'⟩ := hpending'
          refine ⟨hissued', ?_, hvalid'⟩
          intro hmem
          rcases List.mem_cons.mp hmem with hsame | hold
          · have hpair := List.inj_on_of_nodup_map h.drawn hissued' hpending.1 hsame
            exact hother (congrArg Prod.snd hpair)
          · exact hnew' hold

/-- Identifiers that are drawn leave what is pending. -/
theorem Change.Pending.issue {store : Store} {name : Nat} {change : Change}
    (h : change.Pending parseUrl name store) (entry : Nat × Nat) :
    change.Pending parseUrl name { store with issued := entry :: store.issued } := by
  cases change with
  | remove id => trivial
  | create article => exact ⟨List.mem_cons_of_mem _ h.1, h.2⟩

/-! ## Steps -/

/-- All that a statement does to the setting. -/
theorem store_of_advance {name : Nat} {choice : Choice} {store after : Store} {request : Request}
    {remaining : Option Request}
    (hadvance : advance parseUrl name choice store request = some (remaining, after)) :
    after = store ∨
      (∃ id, id ∉ store.issued.map Prod.fst ∧
        after = { store with issued := (id, name) :: store.issued }) ∨
      ∃ change articles, request = .committing change articles ∧
        after = store.commit change articles := by
  cases request with
  | create body =>
      cases choice with
      | drawn id =>
          simp only [advance] at hadvance
          split at hadvance
          next => cases hadvance
          next hfresh =>
            split at hadvance
            next => cases hadvance; exact .inr (.inl ⟨id, hfresh, rfl⟩)
            next => cases hadvance; exact .inl rfl
      | done | failed => cases hadvance
  | remove id => cases hadvance; exact .inl rfl
  | locking change =>
      cases choice with
      | done | failed => cases hadvance; exact .inl rfl
      | drawn => cases hadvance
  | reading change =>
      cases choice with
      | done =>
          simp only [advance] at hadvance
          split at hadvance
          next => cases hadvance; exact .inl rfl
          next => cases hadvance; exact .inl rfl
      | failed => cases hadvance; exact .inl rfl
      | drawn => cases hadvance
  | committing change articles =>
      cases choice with
      | done => cases hadvance; exact .inr (.inr ⟨change, articles, rfl, rfl⟩)
      | failed => cases hadvance; exact .inl rfl
      | drawn => cases hadvance

/-- What the request knows after its statement. -/
theorem holds_of_advance {name : Nat} {choice : Choice} {store after : Store} {request next : Request}
    (h : store.Consistent parseUrl) (hholds : request.Holds parseUrl name store)
    (hadvance : advance parseUrl name choice store request = some (some next, after)) :
    next.Holds parseUrl name after := by
  cases request with
  | create body =>
      cases choice with
      | drawn id =>
          simp only [advance] at hadvance
          split at hadvance
          next => cases hadvance
          next hfresh =>
            split at hadvance
            next article harticle =>
              cases hadvance
              obtain ⟨rfl, hvalid⟩ := newArticle_eq_ok harticle
              refine ⟨List.mem_cons_self, fun hmem => hfresh ?_, hvalid⟩
              obtain ⟨old, hold, hsame⟩ := List.mem_map.mp hmem
              exact hsame ▸ h.issued old hold
            next => cases hadvance
      | done | failed => cases hadvance
  | remove id => cases hadvance; trivial
  | locking change =>
      cases choice with
      | done => cases hadvance; exact hholds
      | failed | drawn => cases hadvance
  | reading change =>
      cases choice with
      | done =>
          simp only [advance] at hadvance
          split at hadvance
          next articles happly => cases hadvance; exact ⟨hholds, happly⟩
          next => cases hadvance
      | failed | drawn => cases hadvance
  | committing change articles =>
      cases choice with
      | done | failed | drawn => cases hadvance

theorem Store.Consistent.advance {name : Nat} {choice : Choice} {store after : Store}
    {request : Request} {remaining : Option Request} (h : store.Consistent parseUrl)
    (hholds : request.Holds parseUrl name store)
    (hadvance : Articles.advance parseUrl name choice store request = some (remaining, after)) :
    after.Consistent parseUrl := by
  rcases store_of_advance hadvance with rfl | ⟨id, hfresh, rfl⟩ | ⟨change, articles, rfl, rfl⟩
  · exact h
  · exact ⟨h.articles, h.bounded, h.created, h.removed, h.known, h.valid,
      List.nodup_cons.mpr ⟨hfresh, h.drawn⟩, fun article harticle =>
        List.mem_cons_of_mem _ (h.issued article harticle)⟩
  · exact h.commit hholds.1 hholds.2

/-- Where two requests have a transaction open, only one of them holds the lock. -/
theorem Request.Holds.others {name other : Nat} {choice : Choice} {store after : Store}
    {request request' : Request} {remaining : Option Request} (h : store.Consistent parseUrl)
    (hother : other ≠ name) (hholds : request.Holds parseUrl name store)
    (hholds' : request'.Holds parseUrl other store)
    (hlock : ∀ row ∈ locks.holds request, row ∉ locks.holds request')
    (hadvance : Articles.advance parseUrl name choice store request = some (remaining, after)) :
    request'.Holds parseUrl other after := by
  rcases store_of_advance hadvance with rfl | ⟨id, -, rfl⟩ | ⟨change, articles, rfl, rfl⟩
  · exact hholds'
  · cases request' with
    | create | remove => trivial
    | locking change => exact Change.Pending.issue hholds' (id, name)
    | reading change => exact Change.Pending.issue hholds' (id, name)
    | committing change articles => exact ⟨hholds'.1.issue (id, name), hholds'.2⟩
  · cases request' with
    | create | remove => trivial
    | locking change' => exact hholds.1.commit h hother hholds' articles
    | reading | committing => exact absurd List.mem_cons_self (hlock () List.mem_cons_self)

theorem locks_sound (parseUrl : String → Option Url) : locks.Sound (program parseUrl) where
  start request hstart := by
    cases request with
    | create | remove => rfl
    | locking | reading | committing => cases hstart
  advance name choice store request next after hadvance row hrow := by
    cases request with
    | locking change => exact .inr (List.mem_cons_self (a := row))
    | reading change => exact .inl List.mem_cons_self
    | create body =>
        cases choice with
        | drawn id =>
            simp only [program, Articles.advance] at hadvance
            split at hadvance
            next => cases hadvance
            next =>
              split at hadvance
              next => cases hadvance; cases hrow
              next => cases hadvance
        | done | failed => cases hadvance
    | remove id => cases hadvance; cases hrow
    | committing change articles =>
        cases choice with
        | done | failed | drawn => cases hadvance

theorem outline_valid (parseUrl : String → Option Url) (clock : Int) :
    (outline parseUrl).Valid (program parseUrl) (· = Store.empty clock) fun config move =>
      locks.Exclusive config ∧ locks.Free config move where
  init _ hempty := hempty ▸ consistent_empty clock
  drift _ store _ hdrift h := by
    obtain ⟨-, rfl⟩ := drift_eq hdrift
    refine ⟨⟨h.articles, h.bounded, h.created, h.removed, h.known, h.valid, h.drawn, h.issued⟩, ?_⟩
    intro name request hholds
    cases request with
    | create | remove => trivial
    | locking change | reading change => cases change <;> exact hholds
    | committing change articles => cases change <;> exact hholds
  start _ _ request hstart _ := by
    cases request with
    | create | remove => trivial
    | locking | reading | committing => cases hstart
  own _ name _ request _ _ hholds hrequest _ hadvance := by
    have hrequestHolds := hholds.2 name request hrequest
    refine ⟨hholds.1.advance hrequestHolds hadvance, fun next hnext => ?_⟩
    subst hnext
    exact holds_of_advance hholds.1 hrequestHolds hadvance
  others _ name _ request _ _ hholds hrequest hallowed hadvance other request' hother hrequest' :=
    (hholds.2 name request hrequest).others hholds.1 hother (hholds.2 other request' hrequest')
      (hallowed.1 name other request request' (Ne.symm hother) hrequest hrequest') hadvance

/-- In every run of requests that wait for the lock, the list holds exactly the articles whose
creation was committed and whose removal was not, the newest first, and at most thirty of them. Every
article is created once and removed once at most, and what it shows was checked. -/
theorem articles_follow_commits (parseUrl : String → Option Url) (clock : Int)
    {config : Config Store Request}
    (hreach : ((program parseUrl).system (· = Store.empty clock)).ReachableWhile locks.Free config) :
    config.store.articles =
        config.store.created.filter (fun article => article.id ∉ config.store.removed) ∧
      config.store.articles.length ≤ 30 ∧
      (config.store.created.map Article.id).Nodup ∧ config.store.removed.Nodup ∧
      ∀ article ∈ config.store.articles, article.Valid parseUrl := by
  have hholds := Locks.outline_holds_of_free (locks_sound parseUrl) (fun _ _ hfree => hfree)
    (outline_valid parseUrl clock) hreach
  have h := hholds.1
  refine ⟨h.articles, h.bounded, h.created, h.removed, fun article harticle => ?_⟩
  exact h.valid article (List.mem_of_mem_filter (h.articles ▸ harticle))

end Invariant

/-! ## A run -/

/-- A parser that takes every text for an address. -/
def plainUrl (value : String) : Option Url := some ⟨"https:", "", "", value⟩

/-- Two articles are created, the requests overlapping, and the first is removed. -/
def overlappingRequests : List (Move Request Choice) :=
  [.start 0 (.create ⟨"First", "https://a.example", none⟩), .advance 0 (.drawn 5),
    .start 1 (.create ⟨"Second", "https://b.example", none⟩), .advance 1 (.drawn 6),
    .advance 0 .done, .advance 0 .done, .advance 0 .done, .advance 1 .done, .advance 1 .done,
    .advance 1 .done, .start 2 (.remove 5), .advance 2 .done, .advance 2 .done, .advance 2 .done,
    .advance 2 .done]

def oneLeft : Store where
  clock := 0
  articles := [⟨6, "Second", "https://b.example", none, 0⟩]
  issued := [(6, 1), (5, 0)]
  created := [⟨6, "Second", "https://b.example", none, 0⟩, ⟨5, "First", "https://a.example", none, 0⟩]
  removed := [5]

theorem articles_follow_overlapping :
    ((program plainUrl).system (· = Store.empty 0)).ReachableWhile locks.Free (idle oneLeft) ∧
      oneLeft.articles = oneLeft.created.filter (fun article => article.id ∉ oneLeft.removed) := by
  have hrun : (executeNamed (program plainUrl) [0, 1, 2] (locks.isFree [0, 1, 2])
      (idle (Store.empty 0)) overlappingRequests).bind (settled [0, 1, 2]) = some oneLeft := rfl
  have hreach : ((program plainUrl).system (· = Store.empty 0)).ReachableWhile locks.Free
      (idle oneLeft) :=
    reachable_settled (fun _ _ => Locks.free_of_isFree) overlappingRequests
      (.init ⟨rfl, fun _ => rfl⟩) hrun
  exact ⟨hreach, (articles_follow_commits plainUrl 0 hreach).1⟩

end Publication.Articles
