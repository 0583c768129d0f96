import IsmsPortal.Destruction.Integrity

/-! # Retention safety

A protected document, one under legal hold or before the end of its period,
should lose no file and not be destroyed or deleted. The portal checks the
protection when a destruction is requested and when a permanent delete reads
the document, but the worker claims an approved policy without looking at the
date, and nothing stops a hold or a longer period from being saved while the
removal is under way. Those two are the only gaps: in runs without them no
protected document is harmed.
-/

namespace IsmsPortal

open Foundation

/-! ## The property -/

/-- From `before` to `after` an object of the document is removed, or the
document is destroyed or deleted. -/
def Destroys (before after : Database) (documentId : String) : Prop :=
  (∃ version ∈ before.versions, version.documentId = documentId ∧
    ∃ key, version.Refers key ∧ key ∈ before.objects ∧ key ∉ after.objects) ∨
  ∃ document ∈ before.documents, document.id = documentId ∧ ∀ row ∈ after.documents,
    ¬(row.id = documentId ∧ row.destroyedAt = document.destroyedAt)

/-- The current policy of the document forbids its destruction. -/
def Database.Protected (db : Database) (documentId : String) : Prop :=
  ∃ policy ∈ db.policies, policy.documentId = documentId ∧ policy.Protects db.clock

/-! ## The condition -/

/-- A change that places a hold or a period that has not ended. -/
def RetentionPolicyDto.Protects (body : RetentionPolicyDto) (now : Int) : Prop :=
  body.legalHold = true ∨ ∃ limit, body.retentionUntil = some limit ∧ now < limit

/-- The item of a worker between its claim and its commit. -/
def Request.working : Request → Option WorkItem
  | .findShared item _ | .removeObjects item _ _ _ => some item
  | _ => none

/-- The request is about to remove the document: a worker that has claimed it,
or a permanent delete that has read it. -/
def Request.Removing (request : Request) (documentId : String) : Prop :=
  (∃ item, request.working = some item ∧ item.document.id = documentId) ∨
    ∃ document policy files, request = .removeTransaction document policy files ∧
      document.id = documentId

/-- A claim takes a policy whose period has ended, and a protecting change
meets no removal under way. -/
def Request.RespectsRetention (config : PortalConfig) : Request → Prop
  | .claimNext (item :: _) => ∀ row ∈ config.store.policies, row.id = item.policy.id →
      isApproved row = true → ¬row.Protects config.store.clock
  | .saveRetentionUpsert body => body.Protects config.store.clock →
      ∀ name request, config.processes name = some request → ¬request.Removing body.documentId
  | _ => True

abbrev RetentionRespected : PortalConfig → PortalMove → Prop :=
  Concurrent.Guarded Request.RespectsRetention

/-! ## What a statement removes -/

section Writes

variable {process : Nat} {choice : Choice} {db after : Database} {request : Request}

theorem clock_write (hwrite : Write process choice db request after) :
    after.clock = db.clock := by
  cases hwrite
  case upload => simp [Database.issueId]
  all_goals rfl

/-- Objects are removed by the worker, by the cleanup of a delete, and by
uploads and watermarks that failed. -/
theorem removed_write (hwrite : Write process choice db request after) {key : ObjectKey}
    (hkey : key ∈ db.objects) (habsent : key ∉ after.objects) :
    (∃ item keep file remaining queue,
        request = .removeObjects item keep (file :: remaining) queue ∧ file.objectKey = key) ∨
      (∃ keys, request = .removeCleanup (key :: keys)) ∨
      request = .uploadFailed key ∨ request = .watermarkFailed key := by
  have hremoves := (objects_write hwrite hkey).resolve_left habsent
  unfold Request.removes at hremoves
  split at hremoves <;> cases hremoves
  · exact .inl ⟨_, _, _, _, _, rfl, rfl⟩
  · exact .inr (.inl ⟨_, rfl⟩)
  · exact .inr (.inr (.inl rfl))
  · exact .inr (.inr (.inr rfl))

/-- Documents are destroyed by the worker's commit and deleted by a permanent
delete that passed its check; all other statements keep `destroyedAt`. -/
theorem destroyedAt_write (hwrite : Write process choice db request after) {document : Document}
    (hdocument : document ∈ db.documents) :
    (∃ row ∈ after.documents, row.id = document.id ∧ row.destroyedAt = document.destroyedAt) ∨
      (∃ item keep queue, request = .removeObjects item keep [] queue ∧
        item.document.id = document.id) ∨
      ∃ deleted policy files, request = .removeTransaction deleted policy files ∧
        deleted.id = document.id ∧ ∀ read, policy = some read → ¬read.Protects db.clock := by
  cases hwrite
  case destroy item keep queue =>
    by_cases hid : document.id = item.document.id
    · exact .inr (.inl ⟨item, keep, queue, rfl, hid.symm⟩)
    · refine .inl ⟨document, List.mem_map.mpr ⟨document, hdocument, ?_⟩, rfl, rfl⟩
      simp [hid]
  case delete deleted policy files hchecked hfound =>
    by_cases hid : document.id = deleted.id
    · exact .inr (.inr ⟨deleted, policy, files, rfl, hid.symm, hchecked⟩)
    · refine .inl ⟨document, ?_, rfl, rfl⟩
      simp [deleteDocument, hdocument, hid]
  case upload target previousId key hfound hfresh =>
    obtain ⟨row, hrow, hid, -, hdestroyed⟩ :=
      uploadVersion_keepsDocuments db target key choice hdocument
    exact .inl ⟨row, hrow, hid, hdestroyed⟩
  case restoreVersion | status | trash | untrash | metadata =>
    refine .inl ⟨_, List.mem_map_of_mem hdocument, ?_⟩
    split <;> exact ⟨rfl, rfl⟩
  all_goals exact .inl ⟨document, hdocument, rfl, rfl⟩

/-- Holds and periods change by `saveRetention` only. -/
theorem protection_write (hwrite : Write process choice db request after)
    {policy : RetentionPolicy} (hpolicy : policy ∈ after.policies) :
    (∃ row ∈ db.policies, row.documentId = policy.documentId ∧
        row.legalHold = policy.legalHold ∧ row.retentionUntil = policy.retentionUntil) ∨
      ∃ body, request = .saveRetentionUpsert body ∧ body.documentId = policy.documentId ∧
        body.legalHold = policy.legalHold ∧ body.retentionUntil = policy.retentionUntil := by
  cases hwrite
  case save body =>
    obtain ⟨row, hrow, rfl | ⟨hdocument, rfl⟩⟩ := Database.mem_updatePolicies hpolicy
    · exact .inl ⟨policy, hrow, rfl, rfl, rfl⟩
    · refine .inr ⟨body, rfl, ?_⟩
      simp only [savedPolicy, of_decide_eq_true hdocument]
      cases body.legalHold <;> simp
  case create body hnone hfound hfresh =>
    simp only [List.mem_append, List.mem_singleton] at hpolicy
    rcases hpolicy with hold | rfl
    · exact .inl ⟨policy, hold, rfl, rfl, rfl⟩
    · exact .inr ⟨body, rfl, rfl, rfl, rfl⟩
  case decide decision read haccepted =>
    obtain ⟨row, hrow, rfl | ⟨-, rfl⟩⟩ := Database.mem_updatePolicies hpolicy
    · exact .inl ⟨policy, hrow, rfl, rfl, rfl⟩
    · refine .inl ⟨row, hrow, ?_⟩
      cases haction : decision.action <;> simp [decidedPolicy, haction]
  case flag | retry | claim | destroy =>
    obtain ⟨row, hrow, rfl | ⟨-, rfl⟩⟩ := Database.mem_updatePolicies hpolicy
    · exact .inl ⟨policy, hrow, rfl, rfl, rfl⟩
    · exact .inl ⟨row, hrow, rfl, rfl, rfl⟩
  case delete =>
    exact .inl ⟨policy, List.mem_of_mem_filter hpolicy, rfl, rfl, rfl⟩
  case upload =>
    exact .inl ⟨policy, by simpa [Database.issueId] using hpolicy, rfl, rfl, rfl⟩
  all_goals exact .inl ⟨policy, hpolicy, rfl, rfl, rfl⟩

end Writes

theorem RetentionPolicy.protects_congr {first second : RetentionPolicy} {now : Int}
    (hhold : first.legalHold = second.legalHold)
    (huntil : first.retentionUntil = second.retentionUntil) :
    first.Protects now ↔ second.Protects now := by
  unfold RetentionPolicy.Protects
  rw [hhold, huntil]

/-- A period that has ended does not begin again. -/
theorem RetentionPolicy.Protects.earlier {policy : RetentionPolicy} {now later : Int}
    (hle : now ≤ later) (hprotects : policy.Protects later) : policy.Protects now := by
  rcases hprotects with hhold | ⟨limit, huntil, hlater⟩
  · exact .inl hhold
  · exact .inr ⟨limit, huntil, by omega⟩

/-! ## The outline -/

/-- A worker that has claimed a document removes an unprotected one. A permanent
delete knows the protection it will check. -/
def Request.Harmless (db : Database) : Request → Prop
  | .findShared item _ | .removeObjects item _ _ _ => ¬db.Protected item.document.id
  | .removeTransaction document policy _ => ∀ row ∈ db.policies, row.documentId = document.id →
      row.Protects db.clock → ∃ read, policy = some read ∧ read.legalHold = row.legalHold ∧
        read.retentionUntil = row.retentionUntil
  | _ => True

section Outline

variable {process : Nat} {choice : Choice} {db after : Database} {request : Request}

/-- A protected document was protected before, or the change protects it. -/
theorem protected_write (hwrite : Write process choice db request after) {documentId : String}
    (hprotected : after.Protected documentId) :
    db.Protected documentId ∨
      ∃ body, request = .saveRetentionUpsert body ∧ body.documentId = documentId ∧
        body.Protects db.clock := by
  obtain ⟨policy, hpolicy, rfl, hprotects⟩ := hprotected
  rw [clock_write hwrite] at hprotects
  obtain ⟨row, hrow, hdocument, hhold, huntil⟩ | ⟨body, hrequest, hdocument, hhold, huntil⟩ :=
    protection_write hwrite hpolicy
  · exact .inl ⟨row, hrow, hdocument,
      (RetentionPolicy.protects_congr hhold huntil).mpr hprotects⟩
  · refine .inr ⟨body, hrequest, hdocument, ?_⟩
    unfold RetentionPolicyDto.Protects
    rwa [hhold, huntil]

/-- Statements of others keep a request harmless, unless they protect the
document it removes. -/
theorem Request.Harmless.stable (hwrite : Write process choice db request after)
    {pending : Request} (hpending : pending.Harmless db)
    (hrespects : ∀ body, request = .saveRetentionUpsert body → body.Protects db.clock →
      ¬pending.Removing body.documentId) : pending.Harmless after := by
  have hkept : ∀ documentId, pending.Removing documentId → after.Protected documentId →
      db.Protected documentId := by
    intro documentId hremoving hprotected
    obtain hold | ⟨body, hrequest, rfl, hprotects⟩ := protected_write hwrite hprotected
    · exact hold
    · exact absurd hremoving (hrespects body hrequest hprotects)
  cases pending
  case findShared item queue =>
    exact fun hprotected => hpending (hkept _ (.inl ⟨item, rfl, rfl⟩) hprotected)
  case removeObjects item keep remaining queue =>
    exact fun hprotected => hpending (hkept _ (.inl ⟨item, rfl, rfl⟩) hprotected)
  case removeTransaction document policy files =>
    intro policyAfter hpolicy hdocument hprotects
    rw [clock_write hwrite] at hprotects
    obtain ⟨row, hrow, hrowDocument, hhold, huntil⟩ | ⟨body, hrequest, hbody, hhold, huntil⟩ :=
      protection_write hwrite hpolicy
    · obtain ⟨read, hread, hreadHold, hreadUntil⟩ := hpending row hrow
        (hrowDocument.trans hdocument) ((RetentionPolicy.protects_congr hhold huntil).mpr hprotects)
      exact ⟨read, hread, hreadHold.trans hhold, hreadUntil.trans huntil⟩
    · refine absurd ?_ (hrespects body hrequest ?_)
      · exact .inr ⟨document, policy, files, rfl, (hbody.trans hdocument).symm⟩
      · unfold RetentionPolicyDto.Protects
        rwa [hhold, huntil]
  all_goals trivial

/-- A claim that succeeds leaves its document unprotected. -/
theorem claim_unprotected (hwell : db.WellFormed) {item : WorkItem} (hitem : item.Valid db)
    (hclaimed : db.policies.countP
      (fun policy => decide (policy.id = item.policy.id) && isApproved policy) = 1)
    (hended : ∀ row ∈ db.policies, row.id = item.policy.id → isApproved row = true →
      ¬row.Protects db.clock) : ¬db.Protected item.document.id := by
  have hpositive : 0 < db.policies.countP
      (fun policy => decide (policy.id = item.policy.id) && isApproved policy) := by omega
  obtain ⟨row, hrow, hclaims⟩ := List.countP_pos_iff.mp hpositive
  rw [Bool.and_eq_true, decide_eq_true_eq] at hclaims
  rintro ⟨policy, hpolicy, hdocument, hprotects⟩
  have heq : policy = row := hwell.policy_unique hpolicy hrow
    (hdocument.trans (hitem.policy row hrow hclaims.1).symm)
  exact hended row hrow hclaims.1 hclaims.2 (heq ▸ hprotects)

theorem advance_harmless (hwell : db.WellFormed) (hvalid : request.Valid process db)
    (hharmless : request.Harmless db) {following : Request}
    (hended : ∀ item queue, request = .claimNext (item :: queue) → ∀ row ∈ db.policies,
      row.id = item.policy.id → isApproved row = true → ¬row.Protects db.clock)
    (hadvance : advance process choice db request = some (some following, after)) :
    following.Harmless after := by
  have hwrite := advance_write hadvance
  have hkept : ∀ documentId, (∀ body, request ≠ .saveRetentionUpsert body) →
      ¬db.Protected documentId → ¬after.Protected documentId := by
    intro documentId hother hnot hprotected
    obtain hold | ⟨body, hrequest, -⟩ := protected_write hwrite hprotected
    · exact hnot hold
    · exact hother body hrequest
  have hstep := advance_step hadvance
  generalize hremaining : some following = remaining at hstep
  cases hstep <;> cases hremaining
  case claim item queue hclaimed =>
    exact hkept _ (by simp) (claim_unprotected hwell (hvalid item List.mem_cons_self) hclaimed
      (hended item queue rfl))
  case findShared item queue => exact hharmless
  case removeFile item keep file remaining queue | skipFile item keep file remaining queue _ =>
    exact hkept _ (by simp) hharmless
  case readDocument documentId document hfound =>
    have hid : document.id = documentId := by simpa using List.find?_some hfound
    intro row hrow hdocument _
    cases hread : db.policyOf documentId with
    | none =>
      simp only [Database.policyOf, List.find?_eq_none, decide_eq_true_eq] at hread
      exact absurd (hdocument.trans hid) (hread row hrow)
    | some read =>
      have hreadDocument : read.documentId = documentId := by simpa using List.find?_some hread
      have heq : read = row := hwell.policy_unique (List.mem_of_find?_eq_some hread) hrow
        (hreadDocument.trans (hdocument.trans hid).symm)
      exact ⟨read, rfl, by rw [heq], by rw [heq]⟩
  all_goals trivial

def protection : Concurrent.Outline Database Request where
  invariant _ := True
  assertion _ db request := request.Harmless db

theorem harmless_of_initial (hinitial : request.initial = true) : request.Harmless db := by
  cases request <;> trivial

theorem Request.Harmless.drift {time : Int} (hle : db.clock ≤ time)
    (hharmless : request.Harmless db) : request.Harmless { db with clock := time } := by
  have hearlier : ∀ documentId, Database.Protected { db with clock := time } documentId →
      db.Protected documentId := by
    rintro documentId ⟨policy, hpolicy, hdocument, hprotects⟩
    exact ⟨policy, hpolicy, hdocument, hprotects.earlier hle⟩
  cases request
  case findShared | removeObjects => exact fun hprotected => hharmless (hearlier _ hprotected)
  case removeTransaction document policy files =>
    intro row hrow hdocument hprotects
    exact hharmless row hrow hdocument (hprotects.earlier hle)
  all_goals trivial

theorem protection_valid :
    protection.Valid portal (fun db => db = Database.empty db.clock)
      fun config move => integrity.Holds config ∧ RetentionRespected config move where
  init := fun _ _ => trivial
  drift := by
    intro time store after hdrift _
    obtain ⟨hle, rfl⟩ := Concurrent.drift_eq hdrift
    exact ⟨trivial, fun _ _ hharmless => hharmless.drift hle⟩
  start := fun _ _ _ hstart _ => harmless_of_initial hstart
  own := by
    rintro config name choice request remaining after hholds hrequest ⟨hintegrity, hguard⟩ hadvance
    refine ⟨trivial, ?_⟩
    rintro following rfl
    refine advance_harmless hintegrity.1 (hintegrity.2 name request hrequest)
      (hholds.2 name request hrequest) ?_ hadvance
    rintro item queue rfl
    exact hguard _ hrequest
  others := by
    rintro config name choice request remaining after hholds hrequest ⟨-, hguard⟩ hadvance
      other pending - hpending
    refine (hholds.2 other pending hpending).stable (advance_write hadvance) ?_
    rintro body rfl hprotects
    exact hguard _ hrequest hprotects other pending hpending

/-- A statement that destroys a document is the worker's, on its claimed item,
or a permanent delete that passed its check. -/
theorem destroys_write (hwell : db.WellFormed) (hvalid : request.Valid process db)
    (hwrite : Write process choice db request after) {documentId : String}
    (hdestroys : Destroys db after documentId) :
    (∃ item, request.working = some item ∧ item.document.id = documentId) ∨
      ∃ document policy files, request = .removeTransaction document policy files ∧
        document.id = documentId ∧ ∀ read, policy = some read → ¬read.Protects db.clock := by
  rcases hdestroys with ⟨version, hversion, rfl, key, hrefers, hkey, habsent⟩ |
    ⟨document, hdocument, rfl, hgone⟩
  · obtain ⟨item, keep, file, remaining, queue, rfl, rfl⟩ | ⟨keys, rfl⟩ | rfl | rfl :=
      removed_write hwrite hkey habsent
    · have hfile := hvalid.2.2 (List.mem_cons_self (a := file))
      have hdocument := ((hvalid.1 item List.mem_cons_self).files file hfile).1
      rw [hwell.versionFiles version hversion _ hrefers] at hdocument
      exact .inl ⟨item, rfl, hdocument.symm⟩
    · have hretired := hvalid key List.mem_cons_self
      rw [hwell.versionFiles version hversion _ hrefers] at hretired
      exact absurd hretired (hwell.versionLive version hversion)
    · exact absurd hrefers (hvalid.2 version hversion)
    · exact absurd hrefers (hvalid.2 version hversion)
  · obtain ⟨row, hrow, hkept⟩ | ⟨item, keep, queue, rfl, hid⟩ | hdeleted :=
      destroyedAt_write hwrite hdocument
    · exact absurd hkept (hgone row hrow)
    · exact .inl ⟨item, rfl, hid⟩
    · exact .inr hdeleted

end Outline

theorem not_destroys_drift {db : Database} (time : Int) {documentId : String} :
    ¬Destroys db { db with clock := time } documentId := by
  rintro (⟨version, -, -, key, -, hkey, habsent⟩ | ⟨document, hdocument, hid, hgone⟩)
  · exact habsent hkey
  · exact hgone document hdocument ⟨hid, rfl⟩

/-- **Retention safety.** In every run in which claims take policies whose
period has ended and protecting changes meet no removal under way, no move
removes an object of a protected document, destroys it or deletes it. -/
theorem protected_not_destroyed {config after : PortalConfig} (move : PortalMove)
    (hreach : portalSystem.ReachableWhile RetentionRespected config)
    (hnext : portal.next config move = some after) (documentId : String)
    (hprotected : config.store.Protected documentId) :
    ¬Destroys config.store after.store documentId := by
  have hintegrity := integrity_holds hreach
  have hholds := protection_valid.holds (hreach.assuming fun _ hstate => integrity_holds hstate)
  intro hdestroys
  obtain ⟨time, -, hdrift⟩ | ⟨name, choice, request, remaining, -, hrequest, hadvance⟩ | hsame :=
    Concurrent.next_store hnext
  · have hafter := (Concurrent.drift_eq hdrift).2
    exact not_destroys_drift time (hafter.symm ▸ hdestroys)
  · have hvalid := hintegrity.2 name request hrequest
    have hharmless : request.Harmless config.store := hholds.2 name request hrequest
    obtain ⟨item, hworking, rfl⟩ | ⟨document, policy, files, rfl, rfl, hchecked⟩ :=
      destroys_write hintegrity.1 hvalid (advance_write hadvance) hdestroys
    · cases request <;> cases hworking <;> exact hharmless hprotected
    · obtain ⟨row, hrow, hdocument, hprotects⟩ := hprotected
      obtain ⟨read, hread, hhold, huntil⟩ := hharmless row hrow hdocument hprotects
      exact hchecked read hread ((RetentionPolicy.protects_congr hhold huntil).mpr hprotects)
  · exact not_destroys_drift config.store.clock (hsame ▸ hdestroys)

/-! ## Sample runs -/

/-- A choice that supplies a random name. -/
def choose (name : String) : Choice := ⟨name, [], false⟩

/-- A file is uploaded as the first version of `report`. -/
def uploadReport : Request × List Choice :=
  (.upload none false "fr",
    [choose "report", choose "", choose "file", choose "version"])

/-- Retention of `report` until the given time. -/
def retainReport (limit : Int) : Request × List Choice :=
  (.saveRetention ⟨"report", some limit, false⟩, [choose "", choose "policy"])

def decideReport (username : String) (action : DecisionAction) : Request × List Choice :=
  (.retentionDecision ⟨"policy", username, action⟩, [choose "", choose ""])

/-- The part of the condition that can fail for a request that runs alone. -/
def claimsEnded (db : Database) : Request → Bool
  | .claimNext (item :: _) => db.policies.all fun row =>
      decide (row.id = item.policy.id → isApproved row = true → ¬row.Protects db.clock)
  | _ => true

theorem respectsRetention_solo (db : Database) (request : Request)
    (hended : claimsEnded db request = true) :
    request.RespectsRetention (Concurrent.solo (some request, db)) := by
  cases request
  case saveRetentionUpsert body =>
    intro _ name running hrunning hremoving
    have heq : running = .saveRetentionUpsert body := by
      by_cases hname : name = 0
      · simp only [Concurrent.solo, hname, Function.update_self, Option.some.injEq] at hrunning
        exact hrunning.symm
      · simp [Concurrent.solo, Function.update_of_ne hname] at hrunning
    subst heq
    rcases hremoving with ⟨item, hworking, -⟩ | ⟨document, policy, files, hdeleting, -⟩
    · cases hworking
    · cases hdeleting
  case claimNext queue =>
    cases queue with
    | nil => trivial
    | cons item queue =>
      intro row hrow
      simp only [claimsEnded, List.all_eq_true, decide_eq_true_eq] at hended
      exact hended row hrow
  all_goals trivial

theorem reachable_empty {allowed : PortalConfig → PortalMove → Prop} :
    portalSystem.ReachableWhile allowed (Concurrent.idle (Database.empty 0)) :=
  .init ⟨rfl, fun _ => rfl⟩

def reportFile : StoredFile := ⟨⟨"report", "file"⟩, none⟩

def reportDocument : Document := ⟨"report", .draft, false, none, none, 0⟩

/-- The database with the uploaded report under the given policy. -/
def reportStore (policy : RetentionPolicy) : Database where
  clock := 0
  policies := [policy]
  documents := [reportDocument]
  versions := [⟨"version", "report", "fr", 1, reportFile.objectKey, none⟩]
  storedFiles := [reportFile]
  objects := [reportFile.objectKey]
  issuedKeys := [(reportFile.objectKey, 0)]
  issuedIds := [("report", 0), ("version", 0), ("policy", 0)]
  retiredIds := []

/-- The report is kept until 1000. -/
def retainedPolicy : RetentionPolicy := createdPolicy ⟨"report", some 1000, false⟩ "policy" 0

/-- The report's policy after a request and its approval. -/
def approvedPolicy (requester approver : String) : RetentionPolicy :=
  { createdPolicy ⟨"report", some 0, false⟩ "policy" 0 with
    destructionStatus := .approved, requestedBy := some requester, requestedAt := some 0
    approvedBy := some approver, approvedAt := some 0, approvedFor := some (some requester, some 0) }

/-- Its destruction was approved, then the period was extended to 1000. -/
def extendedPolicy : RetentionPolicy :=
  { approvedPolicy "alice" "bob" with retentionUntil := some 1000 }

theorem retained_protected : (reportStore retainedPolicy).Protected "report" :=
  ⟨retainedPolicy, List.mem_singleton.mpr rfl, rfl, .inr ⟨1000, rfl, by decide⟩⟩

/-- A permanent delete of a retained report changes nothing. -/
theorem protected_not_destroyed_report : ∃ after,
    portal.next (Concurrent.solo (some (.removeTransaction reportDocument (some retainedPolicy)
      [reportFile]), reportStore retainedPolicy)) (.advance 0 (choose "")) = some after ∧
    ¬Destroys (reportStore retainedPolicy) after.store "report" := by
  have hstored : portalSystem.ReachableWhile RetentionRespected
      (Concurrent.idle (reportStore retainedPolicy)) :=
    Concurrent.reachable_runScript respectsRetention_solo [uploadReport, retainReport 1000] _
      reachable_empty (by decide)
  have hread := Concurrent.reachable_runAlone respectsRetention_solo [choose ""]
    (some (.removeTransaction reportDocument (some retainedPolicy) [reportFile]),
      reportStore retainedPolicy)
    (Concurrent.reachable_start (.remove "report") hstored rfl) rfl
  refine ⟨_, rfl, ?_⟩
  exact protected_not_destroyed (.advance 0 (choose "")) hread rfl "report" retained_protected

/-- The worker claims an approved policy whatever its date: the file of a
report with 1000 ms left is removed. -/
theorem extended_report_destroyed : ∃ config after documentId, ∃ move : PortalMove,
    portalSystem.Reachable config ∧ portal.next config move = some after ∧
      config.store.Protected documentId ∧ Destroys config.store after.store documentId := by
  have hextended : portalSystem.Reachable (Concurrent.idle (reportStore extendedPolicy)) :=
    Concurrent.reachable_script [uploadReport, retainReport 0, decideReport "alice" .request,
      decideReport "bob" .approve, retainReport 1000] reachable_empty (by decide)
  have hclaimed := Concurrent.reachable_call .retryInterrupted
    [choose "", ⟨"", [extendedPolicy], false⟩, choose "", choose ""]
    (some (.removeObjects ⟨extendedPolicy, reportDocument, [reportFile]⟩ [] [reportFile] []),
      reportStore { extendedPolicy with destructionStatus := .destroying }) hextended rfl rfl
  refine ⟨_, _, "report", .advance 0 (choose ""), hclaimed, rfl, ?_, ?_⟩
  · exact ⟨_, List.mem_singleton.mpr rfl, rfl, .inr ⟨1000, rfl, by decide⟩⟩
  · exact .inl ⟨_, List.mem_singleton.mpr rfl, rfl, reportFile.objectKey, .inl rfl,
      List.mem_singleton.mpr rfl, by decide⟩

end IsmsPortal
