import IsmsPortal.Foundation.Runs
import IsmsPortal.Storage.Receipts
import Mathlib.Data.List.Chain
import Mathlib.Logic.Function.Basic

/-! # Upload attempts

The browser sends an upload with a request id and keeps the id while the form stays as it is. The
signature of a form has its entries sorted by key, and for a file an identity that the file object
was given when it was first sent. On the server the fingerprint of the receipt tells whether two
uploads have the same content.
-/

namespace Storage.UploadAttempts

open IsmsPortal Foundation

/-! ## Forms -/

/-- What a file object says of itself. -/
structure FileAttributes where
  name : String
  size : JsonNumber
  type : String
  lastModified : JsonNumber

/-- A text or a file object. -/
inductive FormValue (File : Type)
  | text (value : String)
  | file (file : File)
deriving DecidableEq

abbrev FormData (File : Type) := List (String × FormValue File)

namespace FormData

variable {File : Type} (data : FormData File)

def getAll (key : String) : List (FormValue File) :=
  (data.filter fun entry => entry.1 = key).map Prod.snd

def get (key : String) : Option (FormValue File) := (data.getAll key).head?

/-- The first entry of the key is replaced and the others go, or an entry is added. -/
def set (key : String) (value : FormValue File) : FormData File → FormData File
  | [] => [(key, value)]
  | entry :: rest =>
      if entry.1 = key then (key, value) :: rest.filter fun other => other.1 ≠ key
      else entry :: set key value rest

theorem get_set (key : String) (value : FormValue File) : (set key value data).get key = value := by
  induction data with
  | nil => simp [set, get, getAll]
  | cons entry rest ih =>
      unfold set
      split
      next => simp [get, getAll]
      next hdifferent => simpa [get, getAll, hdifferent] using ih

/-- The entries that the user has made. -/
def fields : FormData File := data.filter fun entry => entry.1 ≠ "uploadRequestId"

/-- The same values under each key, in the same order. Files are the same objects. -/
def SameEntries (other : FormData File) : Prop :=
  ∀ key, key ≠ "uploadRequestId" → data.getAll key = other.getAll key

end FormData

/-! ## The page -/

structure UploadAttempt where
  signature : String
  id : String

/-- A call with the state of its form, the data it was given and the data it returned. -/
structure Call (File : Type) where
  state : Nat
  data : FormData File
  returned : FormData File

/-- The value under which the request is repeated. -/
def Call.requestId {File : Type} (call : Call File) : Option (FormValue File) :=
  call.returned.get "uploadRequestId"

/-- The page has the identities of the files and a state for each form. -/
structure Page (File : Type) where
  fileIdentities : File → Option String
  current : Nat → Option UploadAttempt
  draws : Nat
  calls : List (Call File)

def Page.callsOf {File : Type} (page : Page File) (state : Nat) : List (Call File) :=
  page.calls.filter fun call => call.state = state

/-- `left < right ? -1 : left > right ? 1 : 0`. -/
def compareKeys (left right : String) : Ordering :=
  if utf16 left < utf16 right then .lt else if utf16 right < utf16 left then .gt else .eq

theorem isLE_compareKeys {left right : String} :
    (compareKeys left right).isLE = true ↔ utf16 left ≤ utf16 right := by
  unfold compareKeys
  split_ifs with hlt hgt
  · simpa using hlt.le
  · simpa using hgt
  · simpa using not_lt.mp hgt

instance : Std.TransCmp compareKeys where
  eq_swap {left right} := by
    unfold compareKeys
    obtain hlt | heq | hgt := lt_trichotomy (utf16 left) (utf16 right)
    · simp [hlt, hlt.not_gt]
    · simp [heq]
    · simp [hgt, hgt.not_gt]
  isLE_trans hleft hright := by
    rw [isLE_compareKeys] at hleft hright ⊢
    exact hleft.trans hright

instance : Std.LawfulEqCmp compareKeys where
  compare_self {text} := by simp [compareKeys]
  eq_of_compare {left right} hsame := by
    unfold compareKeys at hsame
    split_ifs at hsame with hlt hgt
    exact utf16_injective (le_antisymm (not_lt.mp hgt) (not_lt.mp hlt))

section Steps

variable {File : Type} [DecidableEq File] (attributes : File → FileAttributes)
  (randomUUID : Nat → String)

/-- `crypto.randomUUID()` gives the next value. -/
def fileIdentity (file : File) (page : Page File) : String × Page File :=
  match (page.fileIdentities file).filter (· ≠ "") with
  | some id => (id, page)
  | none =>
      (randomUUID page.draws,
        { page with
          fileIdentities := Function.update page.fileIdentities file (some (randomUUID page.draws))
          draws := page.draws + 1 })

/-- A text is described by itself, a file by what it says and by its identity. -/
def describeValue (identity : File → String) : FormValue File → Json
  | .text value => .str value
  | .file file =>
      .arr [.str (attributes file).name, .num (attributes file).size, .str (attributes file).type,
        .num (attributes file).lastModified, .str (identity file)]

/-- The descriptions of the entries. The files are given identities one after the other. -/
def describe : FormData File → Page File → List (String × Json) × Page File
  | [], page => ([], page)
  | (key, .text value) :: rest, page =>
      let described := describe rest page
      ((key, .str value) :: described.1, described.2)
  | (key, .file file) :: rest, page =>
      let identified := fileIdentity randomUUID file page
      let described := describe rest identified.2
      ((key, describeValue attributes (fun _ => identified.1) (.file file)) :: described.1,
        described.2)

/-- `JSON.stringify` of the sorted fields. -/
def signatureOf (fields : List (String × Json)) : String :=
  stable (.arr ((fields.insertionSort (StableSort.NotAfter Prod.fst compareKeys)).map
    fun field => .arr [.str field.1, field.2]))

/-- The attempt of the state, renewed if its signature is another one. -/
def currentAttempt (signature : String) (state : Nat) (page : Page File) :
    UploadAttempt × Page File :=
  match (page.current state).filter fun attempt => attempt.signature = signature with
  | some attempt => (attempt, page)
  | none =>
      (⟨signature, randomUUID page.draws⟩,
        { page with
          current := Function.update page.current state (some ⟨signature, randomUUID page.draws⟩)
          draws := page.draws + 1 })

def uploadAttempt (data : FormData File) (state : Nat) (page : Page File) : Page File :=
  let described := describe attributes randomUUID data.fields page
  let attempt := currentAttempt randomUUID (signatureOf described.1) state described.2
  { attempt.2 with
    calls := attempt.2.calls ++
      [⟨state, data, FormData.set "uploadRequestId" (.text attempt.1.id) data⟩] }

/-- A new page. -/
def Page.Initial (page : Page File) : Prop :=
  (∀ file, page.fileIdentities file = none) ∧ (∀ state, page.current state = none) ∧
    page.draws = 0 ∧ page.calls = []

def system : System (Page File) (FormData File × Nat) where
  init := Page.Initial
  step page form after := uploadAttempt attributes randomUUID form.1 form.2 page = after

end Steps

/-! ## Signatures -/

section Signatures

variable {File : Type} {attributes : File → FileAttributes} {identity : File → String}

/-- The descriptions of the entries under identities that are known. -/
def describeWith (attributes : File → FileAttributes) (identity : File → String)
    (data : FormData File) : List (String × Json) :=
  data.map fun entry => (entry.1, describeValue attributes identity entry.2)

/-- The entries in the order of the signature. -/
def sortEntries (data : FormData File) : FormData File :=
  data.insertionSort (StableSort.NotAfter Prod.fst compareKeys)

theorem ofKey_fields (data : FormData File) (key : String) :
    StableSort.ofKey Prod.fst key data.fields =
      if key = "uploadRequestId" then [] else (data.getAll key).map fun value => (key, value) := by
  unfold StableSort.ofKey FormData.fields FormData.getAll
  rw [List.filter_filter, List.map_map]
  split
  next hkey =>
    subst hkey
    simp
  next hkey =>
    have hsame : data.filter (fun entry => decide (entry.1 = key) &&
        decide (entry.1 ≠ "uploadRequestId")) = data.filter fun entry => entry.1 = key := by
      apply List.filter_congr
      intro entry _
      by_cases hentry : entry.1 = key
      · simp [hentry, hkey]
      · simp [hentry]
    rw [hsame]
    conv_lhs => rw [← List.map_id (data.filter fun entry => entry.1 = key)]
    apply List.map_congr_left
    intro entry hentry
    rw [List.mem_filter, decide_eq_true_iff] at hentry
    simp [← hentry.2]

/-- Forms with the same entries are sorted to the same list. -/
theorem sameEntries_iff {data other : FormData File} :
    data.SameEntries other ↔ sortEntries data.fields = sortEntries other.fields := by
  have hkey := StableSort.ordersBy_notAfter
    (Prod.fst : String × FormValue File → String) compareKeys
  rw [sortEntries, sortEntries, StableSort.insertionSort_eq_iff hkey]
  constructor
  · intro hsame entry
    rw [ofKey_fields, ofKey_fields]
    split
    next => rfl
    next hentry => rw [hsame entry.1 hentry]
  · intro hsame key hnot
    have hentries := hsame (key, .text "")
    rw [ofKey_fields, ofKey_fields, if_neg hnot, if_neg hnot] at hentries
    exact List.map_injective_iff.mpr (fun _ _ heq => (Prod.mk.inj heq).2) hentries

/-- Values with one description are equal, if the identities of the files of one are theirs only. -/
theorem eq_of_agrees_describeValue {value other : FormValue File}
    (hfile : ∀ file, value = .file file → ∀ file', identity file = identity file' → file = file')
    (hagrees : (describeValue attributes identity value).Agrees
      (describeValue attributes identity other)) : value = other := by
  cases value with
  | text value =>
      cases other with
      | text other => rw [Json.agrees_str_iff.mp hagrees]
      | file file => cases hagrees
  | file file =>
      cases other with
      | text other => cases hagrees
      | file file' =>
          cases hagrees with
          | arr hitems =>
              simp only [List.forall₂_cons] at hitems
              obtain ⟨-, -, -, -, hidentity, -⟩ := hitems
              rw [hfile file rfl file' (Json.agrees_str_iff.mp hidentity)]

theorem signatureOf_describeWith (data : FormData File) :
    signatureOf (describeWith attributes identity data) =
      stable (.arr ((sortEntries data).map fun entry =>
        .arr [.str entry.1, describeValue attributes identity entry.2])) := by
  have hsorted := List.map_insertionSort (StableSort.NotAfter Prod.fst compareKeys)
    (StableSort.NotAfter Prod.fst compareKeys)
    (fun entry : String × FormValue File => (entry.1, describeValue attributes identity entry.2))
    data fun _ _ _ _ => Iff.rfl
  rw [signatureOf, describeWith, ← hsorted, List.map_map]
  rfl

theorem signatureOf_eq_iff {data other : FormData File}
    (hfile : ∀ entry ∈ data, ∀ file, entry.2 = .file file →
      ∀ file', identity file = identity file' → file = file') :
    signatureOf (describeWith attributes identity data) =
        signatureOf (describeWith attributes identity other) ↔
      sortEntries data = sortEntries other := by
  rw [signatureOf_describeWith, signatureOf_describeWith]
  constructor
  · intro hsignature
    cases agrees_of_stable_eq hsignature with
    | arr hitems =>
        rw [List.forall₂_map_left_iff, List.forall₂_map_right_iff] at hitems
        rw [← List.forall₂_eq_eq_eq]
        refine Canonical.forall₂_imp_of_mem hitems fun entry hentry entry' hagrees => ?_
        have hmem : entry ∈ data := (List.mem_insertionSort _).mp hentry
        cases hagrees with
        | arr hpair =>
            simp only [List.forall₂_cons] at hpair
            exact Prod.ext (Json.agrees_str_iff.mp hpair.1)
              (eq_of_agrees_describeValue (hfile entry hmem) hpair.2.1)
  · intro hsorted
    rw [hsorted]

end Signatures

/-! ## Identities -/

/-- The values drawn so far are UUIDs, and no two of them are the same. -/
structure Unrepeated (randomUUID : Nat → String) (draws : Nat) : Prop where
  valid : ∀ n < draws, isUuid (randomUUID n) = true
  distinct : ∀ n < draws, ∀ other < draws, randomUUID n = randomUUID other → n = other

section Identities

variable {File : Type} {attributes : File → FileAttributes} {randomUUID : Nat → String}

theorem Unrepeated.mono {draws later : Nat} (hrandom : Unrepeated randomUUID later)
    (hle : draws ≤ later) : Unrepeated randomUUID draws where
  valid n hn := hrandom.valid n (by omega)
  distinct n hn other hother := hrandom.distinct n (by omega) other (by omega)

theorem Unrepeated.ne_empty {draws n : Nat} (hrandom : Unrepeated randomUUID draws)
    (hn : n < draws) : randomUUID n ≠ "" := by
  intro hempty
  have hvalid := hrandom.valid n hn
  rw [hempty] at hvalid
  cases hvalid

/-- The identities were drawn, each for one file. -/
structure Identified (randomUUID : Nat → String) (page : Page File) : Prop where
  drawn : ∀ file id, page.fileIdentities file = some id → ∃ n < page.draws, id = randomUUID n
  apart : ∀ file other id, page.fileIdentities file = some id →
    page.fileIdentities other = some id → file = other

/-- Later in a call: identities are kept, and nothing else changes but the number of draws. -/
structure Later (page after : Page File) : Prop where
  kept : ∀ file id, page.fileIdentities file = some id → after.fileIdentities file = some id
  draws : page.draws ≤ after.draws
  current : after.current = page.current
  calls : after.calls = page.calls

theorem Later.refl (page : Page File) : Later page page :=
  ⟨fun _ _ hidentity => hidentity, le_rfl, rfl, rfl⟩

theorem Later.trans {page middle after : Page File} (hfirst : Later page middle)
    (hsecond : Later middle after) : Later page after where
  kept file id hidentity := hsecond.kept file id (hfirst.kept file id hidentity)
  draws := hfirst.draws.trans hsecond.draws
  current := hsecond.current.trans hfirst.current
  calls := hsecond.calls.trans hfirst.calls

/-- Every file of the form has an identity. -/
def Known (page : Page File) (data : FormData File) : Prop :=
  ∀ entry ∈ data, ∀ file, entry.2 = .file file → ∃ id, page.fileIdentities file = some id

def Page.identityOf (page : Page File) (file : File) : String :=
  (page.fileIdentities file).getD ""

theorem identityOf_eq {page : Page File} {file : File} {id : String}
    (hid : page.fileIdentities file = some id) : page.identityOf file = id := by
  rw [Page.identityOf, hid, Option.getD_some]

theorem Known.later {page after : Page File} {data : FormData File} (hknown : Known page data)
    (hlater : Later page after) : Known after data := by
  intro entry hentry file hfile
  obtain ⟨id, hid⟩ := hknown entry hentry file hfile
  exact ⟨id, hlater.kept file id hid⟩

theorem Known.describeWith_eq {page after : Page File} {data : FormData File}
    (hknown : Known page data) (hlater : Later page after) :
    describeWith attributes after.identityOf data =
      describeWith attributes page.identityOf data := by
  apply List.map_congr_left
  rintro ⟨key, value⟩ hentry
  cases value with
  | text value => rfl
  | file file =>
      obtain ⟨id, hid⟩ := hknown _ hentry file rfl
      simp only [describeValue, identityOf_eq hid, identityOf_eq (hlater.kept file id hid)]

/-- No other file has the identity of a known one. -/
theorem Identified.eq_of_identityOf {page : Page File} (hidentified : Identified randomUUID page)
    (hrandom : Unrepeated randomUUID page.draws) {file other : File} {id : String}
    (hid : page.fileIdentities file = some id)
    (hsame : page.identityOf file = page.identityOf other) : file = other := by
  obtain ⟨n, hn, hdrawn⟩ := hidentified.drawn file id hid
  have hother : page.identityOf other = id := hsame.symm.trans (identityOf_eq hid)
  cases hfound : page.fileIdentities other with
  | none =>
      rw [Page.identityOf, hfound] at hother
      exact absurd (hdrawn.symm.trans hother.symm) (hrandom.ne_empty hn)
  | some id' =>
      rw [identityOf_eq hfound] at hother
      exact hidentified.apart file other id hid (hfound.trans (congrArg some hother))

variable [DecidableEq File]

theorem draws_le_fileIdentity (file : File) (page : Page File) :
    page.draws ≤ (fileIdentity randomUUID file page).2.draws := by
  unfold fileIdentity
  split
  next => exact le_rfl
  next => exact Nat.le_succ page.draws

theorem draws_le_describe (data : FormData File) (page : Page File) :
    page.draws ≤ (describe attributes randomUUID data page).2.draws := by
  induction data generalizing page with
  | nil => exact le_rfl
  | cons entry rest ih =>
      obtain ⟨key, value⟩ := entry
      cases value with
      | text value => exact ih page
      | file file => exact (draws_le_fileIdentity file page).trans (ih _)

theorem fileIdentity_of_known {page : Page File} {file : File} {id : String}
    (hfound : page.fileIdentities file = some id) (hid : id ≠ "") :
    fileIdentity randomUUID file page = (id, page) := by
  rw [fileIdentity, hfound, Option.filter_some_pos (by simpa using hid)]

theorem fileIdentity_of_unknown {page : Page File} {file : File}
    (hfound : page.fileIdentities file = none) :
    fileIdentity randomUUID file page = (randomUUID page.draws,
      { page with
        fileIdentities := Function.update page.fileIdentities file (some (randomUUID page.draws))
        draws := page.draws + 1 }) := by
  rw [fileIdentity, hfound, Option.filter_none]

/-- A new identity differs from those that were given before. -/
theorem Identified.identify {page : Page File} (hidentified : Identified randomUUID page)
    (file : File) (hrandom : Unrepeated randomUUID (page.draws + 1)) :
    Identified randomUUID { page with
      fileIdentities := Function.update page.fileIdentities file (some (randomUUID page.draws))
      draws := page.draws + 1 } := by
  have hfresh (other : File) : page.fileIdentities other ≠ some (randomUUID page.draws) := by
    intro hother
    obtain ⟨n, hn, hdrawn⟩ := hidentified.drawn other _ hother
    have heq := hrandom.distinct page.draws (Nat.lt_succ_self _) n (Nat.lt_succ_of_lt hn) hdrawn
    omega
  constructor
  · intro other id hother
    simp only [Function.update_apply] at hother
    split_ifs at hother
    · exact ⟨page.draws, Nat.lt_succ_self _, (Option.some.inj hother).symm⟩
    · obtain ⟨n, hn, hdrawn⟩ := hidentified.drawn other id hother
      exact ⟨n, Nat.lt_succ_of_lt hn, hdrawn⟩
  · intro first second id hfirst hsecond
    simp only [Function.update_apply] at hfirst hsecond
    split_ifs at hfirst hsecond with hisFirst hisSecond hisSecond
    · rw [hisFirst, hisSecond]
    · exact absurd (hsecond.trans hfirst.symm) (hfresh second)
    · exact absurd (hfirst.trans hsecond.symm) (hfresh first)
    · exact hidentified.apart first second id hfirst hsecond

theorem Identified.of_fileIdentity {page : Page File} (hidentified : Identified randomUUID page)
    (file : File) (hrandom : Unrepeated randomUUID (fileIdentity randomUUID file page).2.draws) :
    Identified randomUUID (fileIdentity randomUUID file page).2 ∧
      Later page (fileIdentity randomUUID file page).2 ∧
      (fileIdentity randomUUID file page).2.fileIdentities file =
        some (fileIdentity randomUUID file page).1 := by
  cases hfound : page.fileIdentities file with
  | some id =>
      obtain ⟨n, hn, rfl⟩ := hidentified.drawn file id hfound
      have hid := (hrandom.mono (draws_le_fileIdentity file page)).ne_empty hn
      rw [fileIdentity_of_known hfound hid]
      exact ⟨hidentified, .refl page, hfound⟩
  | none =>
      rw [fileIdentity_of_unknown hfound] at hrandom ⊢
      refine ⟨hidentified.identify file hrandom, ⟨?_, Nat.le_succ _, rfl, rfl⟩,
        Function.update_self ..⟩
      intro other id hother
      have hdifferent : other ≠ file := by
        rintro rfl
        rw [hfound] at hother
        cases hother
      exact (Function.update_of_ne hdifferent _ _).trans hother

/-- The entries are described with the identities that the page has in the end. -/
theorem Identified.of_describe {page : Page File} (hidentified : Identified randomUUID page)
    (data : FormData File)
    (hrandom : Unrepeated randomUUID (describe attributes randomUUID data page).2.draws) :
    Identified randomUUID (describe attributes randomUUID data page).2 ∧
      Later page (describe attributes randomUUID data page).2 ∧
      Known (describe attributes randomUUID data page).2 data ∧
      (describe attributes randomUUID data page).1 =
        describeWith attributes (describe attributes randomUUID data page).2.identityOf data := by
  induction data generalizing page with
  | nil => exact ⟨hidentified, .refl page, fun entry hentry => absurd hentry List.not_mem_nil, rfl⟩
  | cons entry rest ih =>
      obtain ⟨key, value⟩ := entry
      cases value with
      | text value =>
          obtain ⟨hafter, hlater, hknown, hfields⟩ := ih hidentified hrandom
          refine ⟨hafter, hlater, List.forall_mem_cons.mpr ⟨?_, hknown⟩, ?_⟩
          · intro file hfile
            cases hfile
          · exact congrArg ((key, Json.str value) :: ·) hfields
      | file file =>
          obtain ⟨hmiddle, hfirst, hid⟩ := hidentified.of_fileIdentity file
            (hrandom.mono (draws_le_describe rest _))
          obtain ⟨hafter, hlast, hknown, hfields⟩ := ih hmiddle hrandom
          have hkept := hlast.kept file _ hid
          refine ⟨hafter, hfirst.trans hlast, List.forall_mem_cons.mpr ⟨?_, hknown⟩, ?_⟩
          · intro file' hfile
            cases hfile
            exact ⟨_, hkept⟩
          · rw [describe, describeWith, List.map_cons, describeValue, describeValue,
              identityOf_eq hkept]
            exact congrArg _ hfields

end Identities

/-! ## Runs -/

section Runs

variable {File : Type} {attributes : File → FileAttributes} {randomUUID : Nat → String}

/-- The request id is kept exactly if the entries are the same. -/
def Agree (first second : Call File) : Prop :=
  first.requestId = second.requestId ↔ first.data.SameEntries second.data

/-- Each state has the signature and the id of its last call. -/
structure Sound (attributes : File → FileAttributes) (randomUUID : Nat → String)
    (page : Page File) : Prop where
  identified : Identified randomUUID page
  unused : ∀ state, page.callsOf state = [] → page.current state = none
  last : ∀ state, ∀ call ∈ (page.callsOf state).getLast?, Known page call.data.fields ∧
    ∃ n < page.draws, call.requestId = some (.text (randomUUID n)) ∧
      page.current state = some
        ⟨signatureOf (describeWith attributes page.identityOf call.data.fields), randomUUID n⟩
  consecutive : ∀ state, (page.callsOf state).IsChain Agree

theorem Sound.init {page : Page File} (hinit : page.Initial) :
    Sound attributes randomUUID page := by
  obtain ⟨hidentities, hcurrent, -, hcalls⟩ := hinit
  have hnone (state : Nat) : page.callsOf state = [] := by simp [Page.callsOf, hcalls]
  refine ⟨⟨?_, ?_⟩, fun state _ => hcurrent state, ?_, ?_⟩
  · intro file id hid
    rw [hidentities] at hid
    cases hid
  · intro file other id hid
    rw [hidentities] at hid
    cases hid
  · intro state call hcall
    rw [hnone] at hcall
    cases hcall
  · intro state
    rw [hnone]
    exact .nil

theorem Later.callsOf_eq {page after : Page File} (hlater : Later page after) (state : Nat) :
    after.callsOf state = page.callsOf state := by
  rw [Page.callsOf, Page.callsOf, hlater.calls]

theorem Sound.later {page after : Page File} (hsound : Sound attributes randomUUID page)
    (hlater : Later page after) (hidentified : Identified randomUUID after) :
    Sound attributes randomUUID after where
  identified := hidentified
  unused state hnone := by
    rw [hlater.current]
    exact hsound.unused state ((hlater.callsOf_eq state).symm.trans hnone)
  last state call hcall := by
    rw [hlater.callsOf_eq] at hcall
    obtain ⟨hknown, n, hn, hid, hcurrent⟩ := hsound.last state call hcall
    refine ⟨hknown.later hlater, n, hn.trans_le hlater.draws, hid, ?_⟩
    rw [hlater.current, hknown.describeWith_eq hlater, hcurrent]
  consecutive state := by
    rw [hlater.callsOf_eq]
    exact hsound.consecutive state

/-- The signatures of two forms whose files are known. -/
theorem Identified.signatureOf_eq_iff {page : Page File}
    (hidentified : Identified randomUUID page) (hrandom : Unrepeated randomUUID page.draws)
    {data other : FormData File} (hknown : Known page data.fields) :
    signatureOf (describeWith attributes page.identityOf data.fields) =
        signatureOf (describeWith attributes page.identityOf other.fields) ↔
      data.SameEntries other := by
  rw [sameEntries_iff]
  apply UploadAttempts.signatureOf_eq_iff
  intro entry hentry file hfile file' hsame
  obtain ⟨id, hid⟩ := hknown entry hentry file hfile
  exact hidentified.eq_of_identityOf hrandom hid hsame

theorem callsOf_concat (page : Page File) (call : Call File) (current : Nat → Option UploadAttempt)
    (draws : Nat) (state : Nat) :
    Page.callsOf { page with current, draws, calls := page.calls ++ [call] } state =
      if call.state = state then page.callsOf state ++ [call] else page.callsOf state := by
  unfold Page.callsOf
  rw [List.filter_append]
  split
  next hstate => simp [hstate]
  next hstate => simp [hstate]

/-- A call is recorded with the signature and the id that its state has now. -/
theorem Sound.record {page : Page File} (hsound : Sound attributes randomUUID page)
    {call : Call File} (hknown : Known page call.data.fields)
    {current : Nat → Option UploadAttempt} {draws n : Nat} (hdraws : page.draws ≤ draws)
    (hn : n < draws) (hid : call.requestId = some (.text (randomUUID n)))
    (hcurrent : current call.state = some
      ⟨signatureOf (describeWith attributes page.identityOf call.data.fields), randomUUID n⟩)
    (hothers : ∀ state, call.state ≠ state → current state = page.current state)
    (hagree : ∀ before ∈ (page.callsOf call.state).getLast?, Agree before call) :
    Sound attributes randomUUID
      { page with current, draws, calls := page.calls ++ [call] } where
  identified := by
    refine ⟨?_, hsound.identified.apart⟩
    intro file id hfound
    obtain ⟨place, hplace, hdrawn⟩ := hsound.identified.drawn file id hfound
    exact ⟨place, hplace.trans_le hdraws, hdrawn⟩
  unused state hnone := by
    rw [callsOf_concat] at hnone
    split at hnone
    next => simp at hnone
    next hstate => exact (hothers state hstate).trans (hsound.unused state hnone)
  last state before hbefore := by
    rw [callsOf_concat] at hbefore
    split at hbefore
    next hstate =>
      rw [List.getLast?_concat] at hbefore
      obtain rfl := Option.some.inj hbefore
      subst hstate
      exact ⟨hknown, n, hn, hid, hcurrent⟩
    next hstate =>
      obtain ⟨hbeforeKnown, place, hplace, hplaceId, hbeforeCurrent⟩ :=
        hsound.last state before hbefore
      exact ⟨hbeforeKnown, place, hplace.trans_le hdraws, hplaceId,
        (hothers state hstate).trans hbeforeCurrent⟩
  consecutive state := by
    rw [callsOf_concat]
    split
    next hstate =>
      subst hstate
      refine List.isChain_append.mpr ⟨hsound.consecutive _, .singleton call, ?_⟩
      intro before hbefore after hafter
      obtain rfl := Option.some.inj hafter
      exact hagree before hbefore
    next => exact hsound.consecutive state

theorem draws_le_currentAttempt (signature : String) (state : Nat) (page : Page File) :
    page.draws ≤ (currentAttempt randomUUID signature state page).2.draws := by
  unfold currentAttempt
  split
  next => exact le_rfl
  next => exact Nat.le_succ page.draws

theorem currentAttempt_of_same {page : Page File} {signature : String} {state : Nat}
    {attempt : UploadAttempt} (hcurrent : page.current state = some attempt)
    (hsignature : attempt.signature = signature) :
    currentAttempt randomUUID signature state page = (attempt, page) := by
  rw [currentAttempt, hcurrent, Option.filter_some_pos (by simpa using hsignature)]

theorem currentAttempt_of_different {page : Page File} {signature : String} {state : Nat}
    (hdifferent : ∀ attempt, page.current state = some attempt → attempt.signature ≠ signature) :
    currentAttempt randomUUID signature state page = (⟨signature, randomUUID page.draws⟩,
      { page with
        current := Function.update page.current state (some ⟨signature, randomUUID page.draws⟩)
        draws := page.draws + 1 }) := by
  unfold currentAttempt
  cases hcurrent : page.current state with
  | none => rfl
  | some attempt =>
      rw [Option.filter_some_neg (by simpa using hdifferent attempt hcurrent)]

/-- A signature that the state has is that of the call before. -/
theorem Sound.attempt_of_same {page : Page File} (hsound : Sound attributes randomUUID page)
    (hrandom : Unrepeated randomUUID page.draws) (call : Call File)
    (hknown : Known page call.data.fields) {attempt : UploadAttempt}
    (hcurrent : page.current call.state = some attempt)
    (hsignature : attempt.signature =
      signatureOf (describeWith attributes page.identityOf call.data.fields))
    (hid : call.requestId = some (.text attempt.id)) :
    Sound attributes randomUUID { page with calls := page.calls ++ [call] } := by
  cases hcalls : (page.callsOf call.state).getLast? with
  | none =>
      have hnone := hsound.unused call.state (List.getLast?_eq_none_iff.mp hcalls)
      rw [hcurrent] at hnone
      cases hnone
  | some before =>
      obtain ⟨hbeforeKnown, n, hn, hbeforeId, hbeforeCurrent⟩ :=
        hsound.last call.state before hcalls
      obtain rfl := Option.some.inj (hcurrent.symm.trans hbeforeCurrent)
      refine hsound.record hknown le_rfl hn hid ?_ (fun _ _ => rfl) ?_
      · exact hbeforeCurrent.trans
          (congrArg (fun text => some (UploadAttempt.mk text (randomUUID n))) hsignature)
      · intro other hother
        obtain rfl := Option.some.inj (hcalls.symm.trans hother)
        apply iff_of_true
        · exact hbeforeId.trans hid.symm
        · exact (hsound.identified.signatureOf_eq_iff hrandom hbeforeKnown).mp hsignature

/-- Another signature comes with an id that no call has had. -/
theorem Sound.attempt_of_different {page : Page File} (hsound : Sound attributes randomUUID page)
    (hrandom : Unrepeated randomUUID (page.draws + 1)) (call : Call File)
    (hknown : Known page call.data.fields) {signature : String}
    (hsignature : signature =
      signatureOf (describeWith attributes page.identityOf call.data.fields))
    (hdifferent : ∀ attempt, page.current call.state = some attempt →
      attempt.signature ≠ signature)
    (hid : call.requestId = some (.text (randomUUID page.draws))) :
    Sound attributes randomUUID
      { page with
        current := Function.update page.current call.state
          (some ⟨signature, randomUUID page.draws⟩)
        draws := page.draws + 1
        calls := page.calls ++ [call] } := by
  subst hsignature
  refine hsound.record hknown (Nat.le_succ _) (Nat.lt_succ_self _) hid (Function.update_self ..)
    (fun _ hother => Function.update_of_ne (Ne.symm hother) ..) ?_
  intro before hmem
  obtain ⟨hbeforeKnown, n, hn, hbeforeId, hbeforeCurrent⟩ := hsound.last call.state before hmem
  apply iff_of_false
  · intro hids
    have hvalues := Option.some.inj (hbeforeId.symm.trans (hids.trans hid))
    have hplace := hrandom.distinct n (Nat.lt_succ_of_lt hn) page.draws (Nat.lt_succ_self _)
      (FormValue.text.inj hvalues)
    omega
  · intro hentries
    apply hdifferent _ hbeforeCurrent
    exact (hsound.identified.signatureOf_eq_iff (hrandom.mono (Nat.le_succ _)) hbeforeKnown).mpr
      hentries

theorem Sound.attempt {page : Page File} (hsound : Sound attributes randomUUID page)
    {data : FormData File} (hknown : Known page data.fields) (state : Nat) {signature : String}
    (hsignature : signature =
      signatureOf (describeWith attributes page.identityOf data.fields))
    (hrandom : Unrepeated randomUUID (currentAttempt randomUUID signature state page).2.draws) :
    Sound attributes randomUUID
      { (currentAttempt randomUUID signature state page).2 with
        calls := (currentAttempt randomUUID signature state page).2.calls ++
          [⟨state, data, FormData.set "uploadRequestId"
            (.text (currentAttempt randomUUID signature state page).1.id) data⟩] } := by
  by_cases hsame : ∃ attempt, page.current state = some attempt ∧ attempt.signature = signature
  · obtain ⟨attempt, hcurrent, hattempt⟩ := hsame
    rw [currentAttempt_of_same hcurrent hattempt] at hrandom ⊢
    exact hsound.attempt_of_same hrandom ⟨state, data, _⟩ hknown hcurrent
      (hattempt.trans hsignature) (FormData.get_set ..)
  · have hdifferent (attempt : UploadAttempt) (hcurrent : page.current state = some attempt) :
        attempt.signature ≠ signature :=
      fun hattempt => hsame ⟨attempt, hcurrent, hattempt⟩
    rw [currentAttempt_of_different hdifferent] at hrandom ⊢
    exact hsound.attempt_of_different hrandom ⟨state, data, _⟩ hknown hsignature hdifferent
      (FormData.get_set ..)

variable [DecidableEq File]

theorem draws_le_uploadAttempt (data : FormData File) (state : Nat) (page : Page File) :
    page.draws ≤ (uploadAttempt attributes randomUUID data state page).draws :=
  (draws_le_describe data.fields page).trans (draws_le_currentAttempt _ state _)

theorem Sound.step {page : Page File} (hsound : Sound attributes randomUUID page)
    (data : FormData File) (state : Nat)
    (hrandom : Unrepeated randomUUID (uploadAttempt attributes randomUUID data state page).draws) :
    Sound attributes randomUUID (uploadAttempt attributes randomUUID data state page) := by
  have hdescribed := hrandom.mono (draws_le_currentAttempt _ state _)
  obtain ⟨hidentified, hlater, hknown, hfields⟩ :=
    hsound.identified.of_describe data.fields hdescribed
  exact (hsound.later hlater hidentified).attempt hknown state (congrArg signatureOf hfields)
    hrandom

theorem Sound.reachable {page : Page File}
    (hreach : (system attributes randomUUID).Reachable page)
    (hrandom : Unrepeated randomUUID page.draws) : Sound attributes randomUUID page := by
  induction hreach with
  | init hinit => exact .init hinit
  | step _ _ hstep ih =>
      subst hstep
      exact (ih (hrandom.mono (draws_le_uploadAttempt ..))).step _ _ hrandom

/-- Forms that are sent one after the other with one state. -/
theorem reachable_foldl (forms : List (FormData File)) (state : Nat) {page : Page File}
    (hreach : (system attributes randomUUID).Reachable page) :
    (system attributes randomUUID).Reachable (forms.foldl
      (fun page data => uploadAttempt attributes randomUUID data state page) page) := by
  induction forms generalizing page with
  | nil => exact hreach
  | cons data rest ih => exact ih (hreach.next (data, state) _ trivial rfl)

end Runs

/-! ## Content -/

/-- **Uploads are told apart by their content.** Receipts have one fingerprint exactly if the
fields, up to their order, and the file are the same. Of two consecutive attempts of a form the
second one keeps the request id exactly if the entries of each key and the file objects are the
same. -/
theorem uploads_identified (platform : Platform) [Std.TransCmp platform.localeCompare]
    [Std.LawfulEqCmp platform.localeCompare] :
    (∀ (upload other : Upload) (id id' : String), upload.uploadRequestId = some id →
      isUuid id = true → other.uploadRequestId = some id' → isUuid id' = true →
      Set.InjOn platform.sha256
        {fingerprintSource platform upload, fingerprintSource platform other} →
      ∃ receipt receipt', uploadReceipt platform upload = .ok (some receipt) ∧
        uploadReceipt platform other = .ok (some receipt') ∧
        (receipt.fingerprint = receipt'.fingerprint ↔ upload.SameContent other)) ∧
    ∀ {File : Type} [DecidableEq File] (attributes : File → FileAttributes)
      (randomUUID : Nat → String) (page : Page File),
      (system attributes randomUUID).Reachable page → Unrepeated randomUUID page.draws →
      ∀ state, (page.callsOf state).IsChain fun first second =>
        (first.requestId = second.requestId ↔ first.data.SameEntries second.data) := by
  constructor
  · intro upload other id id' hid hvalid hid' hvalid' hsha
    refine ⟨_, _, uploadReceipt_of_valid hid hvalid, uploadReceipt_of_valid hid' hvalid', ?_⟩
    rw [hsha.eq_iff (Set.mem_insert _ _) (Set.mem_insert_of_mem _ rfl)]
    exact fingerprintSource_eq_iff
  · intro File _ attributes randomUUID page hreach hrandom
    exact (Sound.reachable hreach hrandom).consecutive

/-! ### Sample -/

/-- The content has changed, and the request id has not. -/
def changedUpload : Upload :=
  { sampleUpload with
    file := ⟨"report.txt", "text/plain", [0x48, 0x65, 0x6c, 0x6c, 0x6f]⟩ }

/-- A field has changed. -/
def retitledUpload : Upload :=
  { sampleUpload with
    body := [("locale", "fr"), ("spaceId", "space"), ("title", "Summary"),
      ("uploadRequestId", "11111111-1111-4111-8111-111111111111")]
    keys := by decide }

/-- The fields come in another order. -/
def reorderedUpload : Upload :=
  { sampleUpload with
    body := [("uploadRequestId", "11111111-1111-4111-8111-111111111111"), ("title", "Report"),
      ("locale", "fr"), ("spaceId", "space")]
    keys := by decide }

def changedFingerprint : HexDigest :=
  ⟨"a64de6d9e98072bf3123900945ee8226576243bae1925f1b5f3a7374bf6ed57b", by decide⟩

def retitledFingerprint : HexDigest :=
  ⟨"e32d3d505a9d8da8e6acfdb27406675b27433b4d128bd5a0aef3d10827a22ed0", by decide⟩

def changedPlatform : Platform :=
  { samplePlatform with
    sha256 := fun bytes =>
      if bytes = fingerprintSource samplePlatform changedUpload then changedFingerprint
      else if bytes = fingerprintSource samplePlatform retitledUpload then retitledFingerprint
      else samplePlatform.sha256 bytes }

instance : Std.TransCmp changedPlatform.localeCompare :=
  inferInstanceAs (Std.TransCmp (compare : String → String → Ordering))

instance : Std.LawfulEqCmp changedPlatform.localeCompare :=
  inferInstanceAs (Std.LawfulEqCmp (compare : String → String → Ordering))

/-- Two file objects that say the same of themselves. -/
def guideAttributes (_ : Bool) : FileAttributes := ⟨"guide.pdf", .zero, "application/pdf", .zero⟩

def guideUuid : Nat → String
  | 0 => "6f1c2d9e-3b7a-4c58-9d21-0e5f8a7b6c43"
  | 1 => "a3e7b9d4-5c12-4f86-8e03-7b9d1c2f4a65"
  | 2 => "0d8f6b27-91c4-4ea3-b5d0-3c6a2e9f1874"
  | _ => "e29a4c71-08b6-4d3f-a7c5-5f1e8d0b2936"

/-- The form is sent, sent again in another order, and sent with the other file. -/
def guideForms : List (FormData Bool) :=
  [[("title", .text "Guide"), ("file", .file true)],
    [("file", .file true), ("title", .text "Guide")],
    [("title", .text "Guide"), ("file", .file false)]]

def emptyPage : Page Bool := ⟨fun _ => none, fun _ => none, 0, []⟩

def guidePage : Page Bool :=
  guideForms.foldl (fun page data => uploadAttempt guideAttributes guideUuid data 0 page) emptyPage

theorem uploads_identified_guide :
    (∀ other ∈ [changedUpload, retitledUpload, reorderedUpload], ∃ receipt receipt',
      uploadReceipt changedPlatform sampleUpload = .ok (some receipt) ∧
      uploadReceipt changedPlatform other = .ok (some receipt') ∧
      (receipt.fingerprint = receipt'.fingerprint ↔ sampleUpload.SameContent other)) ∧
    (guidePage.callsOf 0).IsChain fun first second =>
      (first.requestId = second.requestId ↔ first.data.SameEntries second.data) := by
  have hsha : ∀ other ∈ [changedUpload, retitledUpload, reorderedUpload],
      Set.InjOn changedPlatform.sha256 {fingerprintSource changedPlatform sampleUpload,
        fingerprintSource changedPlatform other} := by
    intro other hother
    rw [Set.injOn_pair]
    revert hother other
    decide
  have hvalid : ∀ other ∈ [changedUpload, retitledUpload, reorderedUpload],
      other.uploadRequestId = some "11111111-1111-4111-8111-111111111111" := by
    decide
  have hdraws : guidePage.draws = 4 := by decide
  have hrandom : Unrepeated guideUuid guidePage.draws := by
    rw [hdraws]
    exact ⟨by decide, by decide⟩
  have hreach : (system guideAttributes guideUuid).Reachable guidePage :=
    reachable_foldl guideForms 0 (.init ⟨fun _ => rfl, fun _ => rfl, rfl, rfl⟩)
  have huploads := uploads_identified changedPlatform
  refine ⟨fun other hother => ?_, huploads.2 guideAttributes guideUuid guidePage hreach hrandom 0⟩
  exact huploads.1 sampleUpload other _ _ rfl (by decide) (hvalid other hother) (by decide)
    (hsha other hother)

end Storage.UploadAttempts
