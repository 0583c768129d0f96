import IsmsPortal.Storage.Consistency

/-! # Files without object

Rows and objects live in two systems. A version of a document that is not being
destroyed must find the objects of its files. Destruction breaks this for the
document it works on, and only there. What else can break it is a compensation
that takes a committed statement for a failed one, and a statement that takes a
policy out of destruction too early.
-/

namespace IsmsPortal

open Foundation

/-- The destruction of the document has begun or has ended. -/
def RetentionPolicy.Closed (policy : RetentionPolicy) : Prop :=
  policy.destructionStatus = .destroying ∨ policy.destructionStatus = .destroyed

instance (policy : RetentionPolicy) : Decidable policy.Closed :=
  inferInstanceAs (Decidable (_ ∨ _))

namespace Database

variable (db : Database) (documentId : String)

def Closed : Prop := ∃ policy ∈ db.policies, policy.documentId = documentId ∧ policy.Closed

instance : Decidable (db.Closed documentId) :=
  inferInstanceAs (Decidable (∃ policy ∈ db.policies, _))

/-- Every file of the document that is not purged has its object. -/
def Retrievable : Prop :=
  ∀ file ∈ db.storedFiles, file.purgedAt = none → ∀ version ∈ db.versions,
    version.documentId = documentId → version.Refers file.objectKey → file.objectKey ∈ db.objects

/-- No file is dangling. -/
def NoDangling : Prop := ∀ documentId, ¬db.Closed documentId → db.Retrievable documentId

end Database

/-! ## The condition -/

/-- The policies whose status the next statement overwrites with an open one. -/
def Request.reopens (db : Database) : Request → RetentionPolicy → Prop
  | .saveRetentionUpsert body, policy =>
      policy.documentId = body.documentId ∧ body.legalHold = true
  | .retentionDecisionUpdate decision read, policy =>
      policy.id = decision.policyId ∧ retentionDecisionError decision read db.clock = none
  | .flagDueUpdate due, policy => policy.id ∈ due.map RetentionPolicy.id
  | .retryInterrupted, policy => policy.destructionStatus = .destroying ∧
      policy.updatedAt < db.clock - 30 * 60000
  | _, _ => False

/-- The document a destruction is at work on. -/
def ArchiveRequest.worksOn : ArchiveRequest → Option String
  | .request (.findShared item _) | .request (.removeObjects item _ _ _) => some item.document.id
  | _ => none

/-- The compensation of the statement does not look before it removes the object. -/
def ArchiveRequest.blind : ArchiveRequest → Bool
  | .uploading _ none (.uploadTransaction _ _ _) | .request (.watermarkAttach _ _ _ _) => true
  | _ => false

/-- The acknowledgement of no upload without request id and of no watermark is
lost, and no policy leaves its destruction while objects of the document are being
removed or are missing. -/
def Steady (config : ArchiveConfig) : ArchiveMove → Prop
  | .advance name choice => ∀ request, config.processes name = some request →
      (request.blind = true → choice.outcome ≠ .lost) ∧
      ∀ place, request = .request place → ∀ policy ∈ config.store.db.policies, policy.Closed →
        place.reopens config.store.db policy →
        (∀ other working, config.processes other = some working →
          working.worksOn ≠ some policy.documentId) ∧
        config.store.db.Retrievable policy.documentId
  | _ => True

/-! ## Policies -/

section Policies

variable {process : Nat} {choice : Choice} {db after : Database} {place : Request}

/-- A closed policy stays closed, unless the statement reopens it or the document
is deleted. -/
theorem closed_write (hwrite : Write process choice db place after) {policy : RetentionPolicy}
    (hpolicy : policy ∈ db.policies) (hclosed : policy.Closed) :
    policy.documentId ∈ after.retiredIds ∨ after.Closed policy.documentId ∨
      place.reopens db policy := by
  -- Updates of policies that keep the documents and close what they select.
  have hupdate : ∀ (selects : RetentionPolicy → Bool) (data : RetentionPolicy → RetentionPolicy),
      (selects policy = true → (data policy).documentId = policy.documentId ∧
        (data policy).Closed) →
      (db.updatePolicies selects data).Closed policy.documentId := by
    intro selects data hdata
    refine ⟨_, List.mem_map_of_mem hpolicy, ?_⟩
    split
    next hselects => exact hdata hselects
    next => exact ⟨rfl, hclosed⟩
  cases hwrite
  case save body =>
    by_cases hreopens : policy.documentId = body.documentId ∧ body.legalHold = true
    · exact .inr (.inr hreopens)
    · refine .inr (.inl (hupdate _ _ fun hselects => ⟨savedPolicy_documentId body policy, ?_⟩))
      have hhold : ¬body.legalHold = true :=
        fun hhold => hreopens ⟨by simpa using hselects, hhold⟩
      unfold savedPolicy
      rw [if_neg hhold]
      exact hclosed
  case decide decision read haccepted =>
    by_cases hid : policy.id = decision.policyId
    · exact .inr (.inr ⟨hid, haccepted⟩)
    · exact .inr (.inl (hupdate _ _ fun hselects => absurd (by simpa using hselects) hid))
  case flag due =>
    by_cases hid : policy.id ∈ due.map RetentionPolicy.id
    · exact .inr (.inr hid)
    · exact .inr (.inl (hupdate _ _ fun hselects => absurd (by simpa using hselects) (by simpa using hid)))
  case retry =>
    by_cases hold : policy.destructionStatus = .destroying ∧
        policy.updatedAt < db.clock - 30 * 60000
    · exact .inr (.inr hold)
    · exact .inr (.inl (hupdate _ _ fun hselects => absurd (by simpa using hselects) hold))
  case claim item queue =>
    exact .inr (.inl (hupdate _ _ fun _ => ⟨rfl, .inl rfl⟩))
  case destroy item keep queue =>
    exact .inr (.inl (hupdate _ _ fun _ => ⟨rfl, .inr rfl⟩))
  case create body hnone hfound hfresh =>
    exact .inr (.inl ⟨policy, List.mem_append_left _ hpolicy, rfl, hclosed⟩)
  case delete document read files hchecked hfound =>
    by_cases hdocument : policy.documentId = document.id
    · left
      simp [deleteDocument, hdocument]
    · refine .inr (.inl ⟨policy, ?_, rfl, hclosed⟩)
      simp [deleteDocument, hpolicy, hdocument]
  case upload target previousId key hfound hfresh =>
    refine .inr (.inl ⟨policy, ?_, rfl, hclosed⟩)
    simpa [Database.issueId] using hpolicy
  all_goals exact .inr (.inl ⟨policy, hpolicy, rfl, hclosed⟩)

end Policies

/-! ## What requests know -/

/-- The key that a request without receipt is about to remove. -/
def ArchiveRequest.drops : ArchiveRequest → Option ObjectKey
  | .request (.watermarkFailed key) | .uploadRecover _ none key
  | .uploadDiscard _ none key _ => some key
  | _ => none

/-- A destruction works on a closed document, and a compensation on a released key. -/
structure ArchiveRequest.Careful (archive : Archive) (request : ArchiveRequest) : Prop where
  works : ∀ documentId, request.worksOn = some documentId →
    documentId ∈ archive.db.retiredIds ∨ archive.db.Closed documentId
  drops : ∀ key, request.drops = some key → archive.Released key

section Careful

variable {platform : Platform} {process : Nat} {choice : Choice} {archive after : Archive}
variable {request : ArchiveRequest}

theorem ArchiveRequest.Careful.of_drops (hworks : request.worksOn = none)
    (hdrops : ∀ key, request.drops = some key → archive.Released key) :
    request.Careful archive := by
  refine ⟨fun documentId heq => ?_, hdrops⟩
  rw [hworks] at heq
  cases heq

theorem ArchiveRequest.Careful.of_works (hdrops : request.drops = none)
    (hworks : ∀ documentId, request.worksOn = some documentId →
      documentId ∈ archive.db.retiredIds ∨ archive.db.Closed documentId) :
    request.Careful archive := by
  refine ⟨hworks, fun key heq => ?_⟩
  rw [hdrops] at heq
  cases heq

theorem ArchiveRequest.Careful.of_none (hworks : request.worksOn = none)
    (hdrops : request.drops = none) : request.Careful archive := by
  refine .of_drops hworks fun key heq => ?_
  rw [hdrops] at heq
  cases heq

/-- No version has a pending key. -/
theorem Archive.Pending.released (hconsistent : archive.Consistent platform) {key : ObjectKey}
    (hpending : archive.Pending process key) : archive.Released key :=
  fun version hversion hrefers =>
    hpending.2.1 (hconsistent.references version hversion key hrefers)

theorem closed_archiveWrite (hknown : request.Known process archive platform)
    (hwrite : ArchiveWrite process choice archive request after) {policy : RetentionPolicy}
    (hpolicy : policy ∈ archive.db.policies) (hclosed : policy.Closed) :
    policy.documentId ∈ after.db.retiredIds ∨ after.db.Closed policy.documentId ∨
      ∃ place, request = .request place ∧ place.reopens archive.db policy := by
  cases hwrite
  case statement place db hwrite =>
    rcases closed_write hwrite hpolicy hclosed with hretired | hkept | hreopens
    · exact .inl hretired
    · exact .inr (.inl hkept)
    · exact .inr (.inr ⟨place, rfl, hreopens⟩)
  case prepare sent receipt place db hplace hwrite =>
    rcases closed_write hwrite hpolicy hclosed with hretired | hkept | hreopens
    · exact .inl hretired
    · exact .inr (.inl hkept)
    · have hpreparing := hknown.2
      cases place
      case saveRetentionUpsert | retentionDecisionUpdate | flagDueUpdate | retryInterrupted =>
        exact hpreparing.elim
      all_goals exact hreopens.elim
  case commit =>
    refine .inr (.inl ⟨policy, ?_, rfl, hclosed⟩)
    simpa [Archive.commitUpload] using hpolicy
  all_goals exact .inr (.inl ⟨policy, hpolicy, rfl, hclosed⟩)

/-- An object is removed by a destruction at work on the only document that uses
it, or when no version has its key. -/
theorem removed_archiveWrite (hknown : request.Known process archive platform)
    (hcareful : request.Careful archive)
    (hwrite : ArchiveWrite process choice archive request after) {key : ObjectKey}
    (hkey : key ∈ archive.db.objects) (hremoved : key ∉ after.db.objects) :
    archive.Released key ∨
      ∃ documentId, request.worksOn = some documentId ∧ archive.Confined key documentId := by
  cases hwrite
  case statement place db hwrite =>
    have hremoves := (objects_write hwrite hkey).resolve_left hremoved
    cases place
    case removeObjects item keep remaining queue =>
      cases remaining with
      | nil => cases hremoves
      | cons file remaining =>
          cases hremoves
          have hfile := hknown.2 List.mem_cons_self
          exact .inr ⟨item.document.id, rfl, (hknown.1 item List.mem_cons_self).files file hfile⟩
    case removeCleanup keys =>
      cases keys with
      | nil => cases hremoves
      | cons first keys =>
          cases hremoves
          exact .inl (hknown key List.mem_cons_self).2
    case watermarkFailed failed =>
      cases hremoves
      exact .inl (hcareful.drops key rfl)
    case uploadFailed => exact hknown.elim
    all_goals cases hremoves
  case prepare sent receipt place db hplace hwrite =>
    exact absurd ((hknown.2.frame hplace hwrite).2.2 hkey) hremoved
  case commit => exact absurd (by simpa [Archive.commitUpload] using hkey) hremoved
  case discard sent receipt discarded answer =>
    have heq : key = discarded := by
      by_contra hne
      exact hremoved (by simp [Database.removeObject, hkey, hne])
    rw [heq]
    cases receipt with
    | none => exact .inl (hcareful.drops discarded rfl)
    | some receipt => exact .inl (hknown.2.2 rfl)
  all_goals exact absurd hkey hremoved

/-- One statement leaves no dangling file. -/
theorem noDangling_archiveWrite (hconsistent : archive.Consistent platform)
    (hknown : request.Known process archive platform) (hcareful : request.Careful archive)
    (hsteady : ∀ place, request = .request place → ∀ policy ∈ archive.db.policies,
      policy.Closed → place.reopens archive.db policy →
        archive.db.Retrievable policy.documentId)
    (hwrite : ArchiveWrite process choice archive request after)
    (hintact : archive.db.NoDangling) : after.db.NoDangling := by
  intro documentId hopen file hfile hpurged version hversion hdocument hrefers
  have hinterferes := archiveWrite_interferes hconsistent hknown hwrite
  have hsound := sound_archiveWrite hconsistent hknown hwrite
  have hlive : documentId ∉ after.db.retiredIds :=
    hdocument ▸ hsound.versionLive version hversion
  rcases hinterferes.references version hversion _ hrefers with ⟨row, hrow, hsame, hold⟩ |
    ⟨-, -, -, hobject⟩
  · have hrowDocument : row.documentId = documentId := hsame.trans hdocument
    -- The file was there before, and had its object.
    obtain ⟨before, hbefore, hkey, hunpurged⟩ :
        ∃ before ∈ archive.db.storedFiles, before.objectKey = file.objectKey ∧
          before.purgedAt = none := by
      rcases hinterferes.files file hfile with ⟨before, hbefore, hkey, hpurge⟩ | ⟨-, hfresh⟩
      · exact ⟨before, hbefore, hkey, hpurge hpurged⟩
      · exact absurd (hconsistent.references row hrow _ hold) hfresh
    -- If its policy was closed before, it has been reopened, which needs every object.
    have hretrievable : archive.db.Retrievable documentId := by
      by_cases hclosed : archive.db.Closed documentId
      · obtain ⟨policy, hpolicy, rfl, hstatus⟩ := hclosed
        rcases closed_archiveWrite hknown hwrite hpolicy hstatus with hretired | hstill |
          ⟨place, hplace, hreopens⟩
        · exact absurd hretired hlive
        · exact absurd hstill hopen
        · exact hsteady place hplace policy hpolicy hstatus hreopens
      · exact hintact documentId hclosed
    have hpresent : file.objectKey ∈ archive.db.objects := by
      rw [← hkey]
      exact hretrievable before hbefore hunpurged row hrow hrowDocument (hkey ▸ hold)
    -- What removes it is a destruction at work, so the policy is closed after all.
    by_contra hremoved
    rcases removed_archiveWrite hknown hcareful hwrite hpresent hremoved with hreleased |
      ⟨working, hworks, hconfined⟩
    · exact hreleased row hrow hold
    · have hworking : working = documentId := (hconfined.2 row hrow hold).symm.trans hrowDocument
      rw [hworking] at hworks
      rcases hcareful.works documentId hworks with hretired | ⟨policy, hpolicy, rfl, hstatus⟩
      · exact hlive (hinterferes.evolves.retired hretired)
      · rcases closed_archiveWrite hknown hwrite hpolicy hstatus with hretired | hstill |
          ⟨place, rfl, hreopens⟩
        · exact hlive hretired
        · exact hopen hstill
        -- A destruction does not reopen policies.
        · cases place
          case saveRetentionUpsert | retentionDecisionUpdate | flagDueUpdate | retryInterrupted =>
            cases hworks
          all_goals exact hreopens.elim
  · exact hobject

/-- The assertion of a request survives the statements of the others. -/
theorem ArchiveRequest.Careful.stable (hconsistent : archive.Consistent platform)
    (hknown : request.Known process archive platform)
    (hwrite : ArchiveWrite process choice archive request after) {other : Nat}
    (hother : other ≠ process) {pending : ArchiveRequest}
    (hpending : pending.Known other archive platform) (hcareful : pending.Careful archive)
    (hsteady : ∀ place, request = .request place → ∀ policy ∈ archive.db.policies,
      policy.Closed → place.reopens archive.db policy →
        pending.worksOn ≠ some policy.documentId) : pending.Careful after := by
  have hinterferes := archiveWrite_interferes hconsistent hknown hwrite
  constructor
  · intro documentId hworks
    rcases hcareful.works documentId hworks with hretired | ⟨policy, hpolicy, rfl, hstatus⟩
    · exact .inl (hinterferes.evolves.retired hretired)
    · rcases closed_archiveWrite hknown hwrite hpolicy hstatus with hretired | hstill |
        ⟨place, hplace, hreopens⟩
      · exact .inl hretired
      · exact .inr hstill
      · exact absurd hworks (hsteady place hplace policy hpolicy hstatus hreopens)
  · intro key hdrops
    -- The key is the request's own, so no other statement attaches it.
    have hissued : (key, other) ∈ archive.db.issuedKeys := by
      unfold ArchiveRequest.drops at hdrops
      split at hdrops <;> cases hdrops
      · exact hpending
      · exact hpending.2.1
      · exact hpending.2.1
    exact (hcareful.drops key hdrops).stable hinterferes hother hconsistent.sound hissued

/-- A claimed policy is closed. -/
theorem closed_claim {item : WorkItem} {queue : List WorkItem}
    (hitem : archive.Workable item)
    (hclaimed : archive.db.policies.countP (fun policy : RetentionPolicy =>
      decide (policy.id = item.policy.id) && isApproved policy) = 1) :
    (archive.follow (.claimNext (item :: queue)) (archive.db.updatePolicies
      (fun policy => decide (policy.id = item.policy.id) && isApproved policy)
      fun policy => { policy with destructionStatus := .destroying })).db.Closed
        item.document.id := by
  have hpositive : 0 < archive.db.policies.countP (fun policy : RetentionPolicy =>
      decide (policy.id = item.policy.id) && isApproved policy) := by omega
  obtain ⟨policy, hpolicy, hclaims⟩ := List.countP_pos_iff.mp hpositive
  have hid : policy.id = item.policy.id := by
    rw [Bool.and_eq_true] at hclaims
    simpa using hclaims.1
  refine ⟨_, List.mem_map_of_mem hpolicy, ?_⟩
  rw [if_pos hclaims]
  exact ⟨hitem.policy policy hpolicy hid, .inl rfl⟩

/-- A statement of the portal establishes the assertion of its own request. -/
theorem advance_careful (hconsistent : archive.Consistent platform) {place following : Request}
    {db : Database} (hknown : place.Known process archive)
    (hcareful : (ArchiveRequest.request place).Careful archive)
    (hadvance : advance process choice archive.db place = some (some following, db)) :
    (ArchiveRequest.request following).Careful (archive.follow place db) := by
  have hstep := advance_step hadvance
  generalize hremaining : some following = remaining at hstep
  cases hstep <;> cases hremaining
  case claim item queue hclaimed =>
    refine .of_works rfl fun documentId hworks => ?_
    cases hworks
    exact .inr (closed_claim (hknown item List.mem_cons_self) hclaimed)
  case findShared item queue =>
    refine .of_works rfl fun documentId hworks => ?_
    exact hcareful.works documentId hworks
  case removeFile item keep file remaining queue | skipFile item keep file remaining queue _ =>
    refine .of_works rfl fun documentId hworks => ?_
    exact hcareful.works documentId hworks
  case failMarked documentId version key queue | failAttach documentId version key queue =>
    refine .of_drops rfl fun other hdrops => ?_
    cases hdrops
    exact hknown.released hconsistent
  case oldDocument | newDocument | compare | put | refuseUpload => exact hknown.elim
  all_goals exact .of_none rfl rfl

theorem archiveStatement_careful (hconsistent : archive.Consistent platform)
    {following : ArchiveRequest} (hknown : request.Known process archive platform)
    (hcareful : request.Careful archive)
    (hstatement : archiveStatement platform process choice archive request =
      some (some following, after)) : following.Careful after := by
  have hstep := archiveStatement_step hstatement
  generalize hremaining : some following = remaining at hstep
  cases hstep with
  | portal place left db hadvance =>
      obtain ⟨next, rfl, rfl⟩ := Option.map_eq_some_iff.mp hremaining.symm
      exact advance_careful hconsistent hknown hcareful hadvance
  | prepare sent receipt place left db hplace hadvance =>
      obtain ⟨next, -, rfl⟩ := Option.map_eq_some_iff.mp hremaining.symm
      exact .of_none rfl rfl
  | abort sent receipt target previousId key =>
      cases hremaining
      refine .of_drops rfl fun other hdrops => ?_
      cases receipt with
      | none =>
          cases hdrops
          exact hknown.2.2.1.released hconsistent
      | some receipt => cases hdrops
  | compensate sent receipt key found hlookup hdifferent =>
      cases hremaining
      cases receipt with
      | none => exact .of_drops rfl fun other hdrops => hcareful.drops other hdrops
      | some receipt => exact .of_none rfl rfl
  | discard sent receipt key answer | keep sent receipt key answer =>
      obtain ⟨documentId, -, rfl⟩ := Option.map_eq_some_iff.mp hremaining.symm
      exact .of_none rfl rfl
  | stop | reject => cases hremaining
  | _ =>
      cases hremaining
      exact .of_none rfl rfl

/-- An error leads to a compensation of a key that no version has, unless a
statement took effect whose compensation does not look. -/
theorem recovery_careful (hconsistent : archive.Consistent platform) {following : ArchiveRequest}
    (hknown : request.Known process archive platform)
    (hwrite : ArchiveWrite process choice archive request after)
    (hblind : request.blind = true → after = archive)
    (hrecovery : request.recovery = some following) : following.Careful after := by
  unfold ArchiveRequest.recovery at hrecovery
  split at hrecovery
  next documentId version key queue =>
    cases hrecovery
    refine .of_drops rfl fun other hdrops => ?_
    cases hdrops
    have hreleased : archive.Released key := hknown.released hconsistent
    cases hwrite
    case none => exact hreleased
    case statement db hwrite => cases hwrite <;> exact hreleased
  next documentId version key queue =>
    cases hrecovery
    refine .of_drops rfl fun other hdrops => ?_
    cases hdrops
    rw [hblind rfl]
    exact hknown.released hconsistent
  next sent receipt target previousId key =>
    cases hrecovery
    refine .of_drops rfl fun other hdrops => ?_
    cases receipt with
    | none =>
        cases hdrops
        rw [hblind rfl]
        exact hknown.2.2.1.released hconsistent
    | some receipt => cases hdrops
  next sent receipt key answer =>
    obtain ⟨documentId, -, rfl⟩ := Option.map_eq_some_iff.mp hrecovery
    exact .of_none rfl rfl
  next => cases hrecovery

end Careful

/-! ## The outline -/

def objectOutline : Concurrent.Outline Archive ArchiveRequest where
  invariant archive := archive.db.NoDangling
  assertion _ archive request := request.Careful archive

theorem objectOutline_valid (platform : Platform) :
    objectOutline.Valid (archiveProgram platform)
      (fun archive => archive = Archive.empty archive.db.clock)
      (fun config move => (consistency platform).Holds config ∧ Steady config move) where
  init := by
    intro archive hempty documentId _ file hfile
    rw [hempty] at hfile
    cases hfile
  drift := by
    intro time archive after hdrift hintact
    simp only [archiveProgram, portal, Option.map_eq_some_iff] at hdrift
    obtain ⟨db, hdb, rfl⟩ := hdrift
    split at hdb <;> cases hdb
    exact ⟨hintact, fun name request hcareful => ⟨hcareful.works, hcareful.drops⟩⟩
  start := by
    intro name archive request hstart _
    cases request with
    | request place =>
        cases place <;> first | exact .of_none rfl rfl | cases hstart
    | upload sent => exact .of_none rfl rfl
    | _ => cases hstart
  own := by
    intro config name choice request remaining after hholds hrequest hallowed hadvance
    have hconsistent : config.store.Consistent platform := hallowed.1.1
    have hknown := hallowed.1.2 name request hrequest
    have hcareful := hholds.2 name request hrequest
    obtain ⟨hblind, hreopens⟩ := hallowed.2 request hrequest
    refine ⟨noDangling_archiveWrite hconsistent hknown hcareful ?_
      (archiveAdvance_write hadvance) hholds.1, ?_⟩
    · exact fun place hplace policy hpolicy hclosed hreopen =>
        (hreopens place hplace policy hpolicy hclosed hreopen).2
    · rintro following rfl
      rcases archiveAdvance_following hadvance with hstatement | ⟨hrecovery, hwrite, hkept⟩
      · exact archiveStatement_careful hconsistent hknown hcareful hstatement
      · exact recovery_careful hconsistent hknown hwrite (fun hunsafe => hkept (hblind hunsafe))
          hrecovery
  others := by
    intro config name choice request remaining after hholds hrequest hallowed hadvance other pending
      hother hpending
    obtain ⟨-, hreopens⟩ := hallowed.2 request hrequest
    refine ArchiveRequest.Careful.stable hallowed.1.1 (hallowed.1.2 name request hrequest)
      (archiveAdvance_write hadvance) hother (hallowed.1.2 other pending hpending)
      (hholds.2 other pending hpending) ?_
    exact fun place hplace policy hpolicy hclosed hreopen =>
      (hreopens place hplace policy hpolicy hclosed hreopen).1 other pending hpending

/-- **No dangling files.** Whatever requests interleave and however their statements
fail, as long as the run is steady: every file that is not purged and that a version
refers to has its object, unless the document is being destroyed. -/
theorem no_dangling_files {platform : Platform} {config : ArchiveConfig}
    (hreach : (archiveSystem platform).ReachableWhile Steady config) :
    ∀ file ∈ config.store.db.storedFiles, file.purgedAt = none →
      ∀ version ∈ config.store.db.versions, version.Refers file.objectKey →
        (∀ policy ∈ config.store.db.policies, policy.documentId = version.documentId →
          policy.destructionStatus ≠ .destroying ∧ policy.destructionStatus ≠ .destroyed) →
        file.objectKey ∈ config.store.db.objects := by
  have hintact := ((objectOutline_valid platform).holds
    (hreach.assuming fun _ hbefore => consistency_holds hbefore)).1
  intro file hfile hpurged version hversion hrefers hpolicies
  refine hintact version.documentId ?_ file hfile hpurged version hversion rfl hrefers
  rintro ⟨policy, hpolicy, hdocument, hclosed⟩
  obtain ⟨hdestroying, hdestroyed⟩ := hpolicies policy hpolicy hdocument
  exact hclosed.elim hdestroying hdestroyed

/-! ## Sample -/

/-- An upload without request id. -/
def plainUpload : Upload where
  identity := "alice"
  body := [("locale", "fr"), ("spaceId", "space"), ("title", "Report")]
  keys := by decide
  file := ⟨"report.txt", "text/plain", [0x68, 0x65, 0x6c, 0x6c, 0x6f]⟩

/-- The archive after the upload, with the given objects. -/
def plainArchive (objects : List ObjectKey) : Archive where
  db :=
    { clock := 0, policies := [], documents := [⟨"report", .draft, false, none, none, 0⟩]
      versions := [⟨"version", "report", "fr", 1, ⟨"report", "file"⟩, none⟩]
      storedFiles := [⟨⟨"report", "file"⟩, none⟩], objects := objects
      issuedKeys := [(⟨"report", "file"⟩, 0)], issuedIds := [("report", 0), ("version", 0)]
      retiredIds := [] }
  records := []
  received := [plainUpload]
  attached := [⟨"report", "file"⟩]

/-- The choices of the statements, with the outcome of the transaction. -/
def plainChoices (outcome : Outcome) : List ArchiveChoice :=
  ["", "", "report", "", "file"].map (fun name => ⟨⟨name, [], false⟩, .done⟩) ++
    [⟨⟨"version", [], false⟩, outcome⟩]

theorem reachable_emptyArchive {platform : Platform}
    {allowed : ArchiveConfig → ArchiveMove → Prop} :
    (archiveSystem platform).ReachableWhile allowed (Concurrent.idle (Archive.empty 0)) :=
  .init ⟨rfl, fun _ => rfl⟩

/-- There are no policies, and the statement takes effect. -/
def isPlain (config : ArchiveConfig) : ArchiveMove → Bool
  | .advance _ choice => config.store.db.policies = [] ∧ choice.outcome = .done
  | _ => true

theorem steady_of_isPlain {config : ArchiveConfig} {move : ArchiveMove}
    (hplain : isPlain config move = true) : Steady config move := by
  cases move with
  | advance name choice =>
      simp only [isPlain, decide_eq_true_eq] at hplain
      intro request _
      refine ⟨fun _ hlost => ?_, fun _ _ policy hpolicy => ?_⟩
      · rw [hplain.2] at hlost
        cases hlost
      · rw [hplain.1] at hpolicy
        cases hpolicy
  | _ => trivial

/-- An acknowledged upload keeps its object. -/
theorem no_dangling_files_plain :
    (archiveSystem samplePlatform).ReachableWhile Steady
      (Concurrent.idle (plainArchive [⟨"report", "file"⟩])) ∧
    ⟨"report", "file"⟩ ∈ (plainArchive [⟨"report", "file"⟩]).db.objects := by
  have hrun : (Concurrent.executeNamed (archiveProgram samplePlatform) [0] isPlain
      (Concurrent.idle (Archive.empty 0))
      (.start 0 (.upload plainUpload) :: (plainChoices .done).map (.advance 0) ++
        [.advance 0 ⟨⟨"", [], false⟩, .done⟩])).bind (Concurrent.settled [0]) =
        some (plainArchive [⟨"report", "file"⟩]) := by
    decide
  have hreach := Concurrent.reachable_settled (fun _ _ _ hplain => steady_of_isPlain hplain) _
    reachable_emptyArchive hrun
  refine ⟨hreach, ?_⟩
  exact no_dangling_files hreach ⟨⟨"report", "file"⟩, none⟩ (List.mem_singleton.mpr rfl) rfl
    ⟨"version", "report", "fr", 1, ⟨"report", "file"⟩, none⟩ (List.mem_singleton.mpr rfl)
    (.inl rfl) (fun policy hpolicy => absurd hpolicy List.not_mem_nil)

/-- The transaction commits, its acknowledgement is lost, and the compensation
removes the object of the new version. -/
theorem lost_acknowledgement_dangling :
    (archiveSystem samplePlatform).Reachable (Concurrent.idle (plainArchive [])) ∧
    ∃ file ∈ (plainArchive []).db.storedFiles, file.purgedAt = none ∧
      ∃ version ∈ (plainArchive []).db.versions, version.Refers file.objectKey ∧
        (∀ policy ∈ (plainArchive []).db.policies, policy.documentId = version.documentId →
          policy.destructionStatus ≠ .destroying ∧ policy.destructionStatus ≠ .destroyed) ∧
        file.objectKey ∉ (plainArchive []).db.objects := by
  refine ⟨?_, by decide⟩
  exact Concurrent.reachable_script
    [(.upload plainUpload, plainChoices .lost ++ List.replicate 2 ⟨⟨"", [], false⟩, .done⟩)]
    reachable_emptyArchive (by decide)

end IsmsPortal
