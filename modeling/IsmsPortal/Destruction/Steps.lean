import IsmsPortal.Destruction.Requests

/-! # What a statement of the portal does

The statements of all requests, one by one: where the request goes on, what it
has read, and what it leaves in the tables. The program is taken apart here only;
what a statement keeps and what a request knows are read off these cases.
-/

namespace IsmsPortal

open Foundation

/-- `Step process choice db request remaining after`: the statement at which `request`
stands may leave `after` and go on at `remaining`. -/
inductive Step (process : Nat) (choice : Choice) (db : Database) :
    Request → Option Request → Database → Prop
  /-- Refusals, and requests that have nothing left to do. -/
  | stop {request : Request} : Step process choice db request none db
  /- retention -/
  | saveRetention (body : RetentionPolicyDto) :
      Step process choice db (.saveRetention body) (some (.saveRetentionUpsert body)) db
  | save (body : RetentionPolicyDto) :
      Step process choice db (.saveRetentionUpsert body) none
        (db.updatePolicies (fun policy => policy.documentId = body.documentId) (savedPolicy body))
  | create (body : RetentionPolicyDto) (hnone : db.policyOf body.documentId = none)
      (hfound : ∃ row ∈ db.documents, row.id = body.documentId)
      (hfresh : db.FreshId choice.name) :
      Step process choice db (.saveRetentionUpsert body) none
        { db.issueId process choice.name with
          policies := db.policies ++ [createdPolicy body choice.name db.clock] }
  | readPolicy (decision : RetentionDecision) (policy : RetentionPolicy)
      (hfound : db.policies.find? (fun policy => policy.id = decision.policyId) = some policy) :
      Step process choice db (.retentionDecision decision)
        (some (.retentionDecisionUpdate decision policy)) db
  | decide (decision : RetentionDecision) (policy : RetentionPolicy)
      (haccepted : retentionDecisionError decision policy db.clock = none) :
      Step process choice db (.retentionDecisionUpdate decision policy) none
        (db.updatePolicies (fun row => row.id = decision.policyId)
          (decidedPolicy decision policy db.clock))
  | findDue (hselection : Query.IsSelection (isDue db) 100 db.policies choice.policies) :
      Step process choice db .flagDueRetentions (some (.flagDueUpdate choice.policies)) db
  | flag (due : List RetentionPolicy) :
      Step process choice db (.flagDueUpdate due) none
        (db.updatePolicies (fun row => row.id ∈ due.map RetentionPolicy.id)
          fun row => { row with destructionStatus := .due })
  /- destruction -/
  | retry :
      Step process choice db .retryInterrupted (some .findApproved)
        (db.updatePolicies
          (fun policy => policy.destructionStatus = .destroying ∧
            policy.updatedAt < db.clock - 30 * 60000)
          fun policy => { policy with destructionStatus := .approved })
  | findApproved (hselection : Query.IsSelection isApproved 10 db.policies choice.policies) :
      Step process choice db .findApproved
        (some (.claimNext (choice.policies.filterMap (workItem db)))) db
  | claim (item : WorkItem) (queue : List WorkItem)
      (hclaimed : db.policies.countP (fun policy =>
        Decidable.decide (policy.id = item.policy.id) && isApproved policy) = 1) :
      Step process choice db (.claimNext (item :: queue)) (some (.findShared item queue))
        (db.updatePolicies
          (fun policy => Decidable.decide (policy.id = item.policy.id) && isApproved policy)
          fun policy => { policy with destructionStatus := .destroying })
  | missClaim (item : WorkItem) (queue : List WorkItem) :
      Step process choice db (.claimNext (item :: queue)) (some (.claimNext queue))
        (db.updatePolicies
          (fun policy => Decidable.decide (policy.id = item.policy.id) && isApproved policy)
          fun policy => { policy with destructionStatus := .destroying })
  | findShared (item : WorkItem) (queue : List WorkItem) :
      Step process choice db (.findShared item queue)
        (some (.removeObjects item (sharedKeys db item) item.files queue)) db
  | removeFile (item : WorkItem) (keep : List ObjectKey) (file : StoredFile)
      (remaining : List StoredFile) (queue : List WorkItem) :
      Step process choice db (.removeObjects item keep (file :: remaining) queue)
        (some (.removeObjects item keep remaining queue)) (db.removeObject file.objectKey)
  | skipFile (item : WorkItem) (keep : List ObjectKey) (file : StoredFile)
      (remaining : List StoredFile) (queue : List WorkItem)
      (hskipped : ¬(file.objectKey ∉ keep ∧ file.purgedAt = none)) :
      Step process choice db (.removeObjects item keep (file :: remaining) queue)
        (some (.removeObjects item keep remaining queue)) db
  | destroy (item : WorkItem) (keep : List ObjectKey) (queue : List WorkItem) :
      Step process choice db (.removeObjects item keep [] queue) (some (.claimNext queue))
        (destroyDocument db item keep)
  /- permanent delete -/
  | readDocument (documentId : String) (document : Document)
      (hfound : db.findDocument documentId = some document) :
      Step process choice db (.remove documentId)
        (some (.removeTransaction document (db.policyOf documentId) (db.filesOf documentId))) db
  | delete (document : Document) (policy : Option RetentionPolicy) (files : List StoredFile)
      (hchecked : ∀ read, policy = some read → ¬read.Protects db.clock)
      (hfound : ∃ row ∈ db.documents, row.id = document.id) :
      Step process choice db (.removeTransaction document policy files)
        (some (.removeCleanup (files.map StoredFile.objectKey)))
        (deleteDocument db document.id files)
  | cleanup (key : ObjectKey) (keys : List ObjectKey) :
      Step process choice db (.removeCleanup (key :: keys)) (some (.removeCleanup keys))
        (db.removeObject key)
  | skipCleanup (key : ObjectKey) (keys : List ObjectKey) :
      Step process choice db (.removeCleanup (key :: keys)) (some (.removeCleanup keys)) db
  /- uploads -/
  | oldDocument (documentId : String) (sensitive : Bool) (locale : String) :
      Step process choice db (.upload (some documentId) sensitive locale)
        (some (.uploadCompare ⟨documentId, false, sensitive, locale⟩)) db
  | newDocument (sensitive : Bool) (locale : String) (hfresh : db.FreshId choice.name) :
      Step process choice db (.upload none sensitive locale)
        (some (.uploadCompare ⟨choice.name, true, sensitive, locale⟩))
        (db.issueId process choice.name)
  | compare (target : UploadTarget) :
      Step process choice db (.uploadCompare target)
        (some (.uploadPut target
          ((db.latestVersion target.documentId target.locale).map DocumentVersion.id))) db
  | put (target : UploadTarget) (previousId : Option String)
      (hfresh : db.FreshKey ⟨target.documentId, choice.name⟩) :
      Step process choice db (.uploadPut target previousId)
        (some (.uploadTransaction target previousId ⟨target.documentId, choice.name⟩))
        (db.putObject process ⟨target.documentId, choice.name⟩)
  | refuseUpload (target : UploadTarget) (previousId : Option String) (key : ObjectKey) :
      Step process choice db (.uploadTransaction target previousId key)
        (some (.uploadFailed key)) db
  | upload (target : UploadTarget) (previousId : Option String) (key : ObjectKey)
      (hfound : target.isNew = true ∨ ∃ row ∈ db.documents, row.id = target.documentId)
      (hfresh : db.FreshId choice.name) :
      Step process choice db (.uploadTransaction target previousId key) none
        ((uploadVersion db target key choice).issueId process choice.name)
  | dropUpload (key : ObjectKey) :
      Step process choice db (.uploadFailed key) none (db.removeObject key)
  /- restored versions -/
  | restoreVersion (documentId versionId : String) :
      Step process choice db (.restoreVersion documentId versionId)
        (some (.restoreVersionRead documentId versionId)) db
  | readSource (documentId versionId : String) (source : DocumentVersion)
      (hfound : db.versions.find? (fun version =>
        version.id = versionId ∧ version.documentId = documentId) = some source) :
      Step process choice db (.restoreVersionRead documentId versionId)
        (some (.restoreVersionTransaction source)) db
  | restoreSource (source : DocumentVersion)
      (hfound : ∃ row ∈ db.documents, row.id = source.documentId)
      (hfresh : db.FreshId choice.name) :
      Step process choice db (.restoreVersionTransaction source) none
        (((db.updateDocuments (fun document => document.id = source.documentId)
          fun document => { document with status := .draft }).createVersion
            (restoredVersion db source choice.name)).issueId process choice.name)
  /- publication -/
  | publish (documentId : String) :
      Step process choice db (.publish documentId) (some (.prepareForPublication documentId)) db
  | findUnmarked (documentId : String) :
      Step process choice db (.prepareForPublication documentId)
        (some (.watermarkRead documentId (unmarkedVersions db documentId))) db
  | notSensitive (documentId : String) :
      Step process choice db (.prepareForPublication documentId)
        (some (.publishTransaction documentId)) db
  | allMarked (documentId : String) :
      Step process choice db (.watermarkRead documentId [])
        (some (.publishTransaction documentId)) db
  | readMarked (documentId : String) (version : DocumentVersion) (queue : List DocumentVersion) :
      Step process choice db (.watermarkRead documentId (version :: queue))
        (some (.watermarkPut documentId version queue)) db
  | putMarked (documentId : String) (version : DocumentVersion) (queue : List DocumentVersion)
      (hfresh : db.FreshKey ⟨documentId, choice.name⟩) :
      Step process choice db (.watermarkPut documentId version queue)
        (some (.watermarkCreate documentId version ⟨documentId, choice.name⟩ queue))
        (db.putObject process ⟨documentId, choice.name⟩)
  | failMarked (documentId : String) (version : DocumentVersion) (key : ObjectKey)
      (queue : List DocumentVersion) :
      Step process choice db (.watermarkCreate documentId version key queue)
        (some (.watermarkFailed key)) db
  | createMarked (documentId : String) (version : DocumentVersion) (key : ObjectKey)
      (queue : List DocumentVersion) :
      Step process choice db (.watermarkCreate documentId version key queue)
        (some (.watermarkAttach documentId version key queue)) (db.createStoredFile key)
  | attach (documentId : String) (version : DocumentVersion) (key : ObjectKey)
      (queue : List DocumentVersion) :
      Step process choice db (.watermarkAttach documentId version key queue)
        (some (.watermarkRead documentId queue))
        (db.updateVersions (fun row => row.id = version.id)
          fun row => { row with distributedStoredFile := some key })
  | failAttach (documentId : String) (version : DocumentVersion) (key : ObjectKey)
      (queue : List DocumentVersion) :
      Step process choice db (.watermarkAttach documentId version key queue)
        (some (.watermarkFailed key)) db
  | dropMarked (key : ObjectKey) :
      Step process choice db (.watermarkFailed key) none (db.removeObject key)
  | publishTransaction (documentId : String) :
      Step process choice db (.publishTransaction documentId) none
        (db.updateDocuments
          (fun document => document.id = documentId ∧ document.deletedAt = none ∧
            document.status ≠ .published)
          fun document => { document with status := .published })
  /- documents -/
  | archive (documentId : String) :
      Step process choice db (.archive documentId) none
        (db.updateDocuments (fun document => document.id = documentId)
          fun document => { document with status := .archived })
  | restore (documentId : String) :
      Step process choice db (.restore documentId) none
        (db.updateDocuments
          (fun document => document.id = documentId ∧ document.deletedAt = none ∧
            document.status = .archived)
          fun document => { document with status := .draft })
  | trash (documentId : String) :
      Step process choice db (.trash documentId) (some (.trashUpdate documentId)) db
  | trashUpdate (documentId : String) :
      Step process choice db (.trashUpdate documentId) none
        (db.updateDocuments (fun document => document.id = documentId)
          fun document => { document with deletedAt := some db.clock, status := .archived })
  | untrash (documentId : String) :
      Step process choice db (.restoreFromTrash documentId) none
        (db.updateDocuments
          (fun document => document.id = documentId ∧ document.deletedAt ≠ none ∧
            document.destroyedAt = none)
          fun document => { document with deletedAt := none, status := .archived })
  | readMetadata (body : MetadataUpdate) (document : Document) :
      Step process choice db (.updateMetadata body)
        (some (.updateMetadataTransaction body document)) db
  | metadata (body : MetadataUpdate) (document : Document) :
      Step process choice db (.updateMetadataTransaction body document) none
        (writeMetadata db body document)

theorem Database.isSome_findDocument {db : Database} {id : String} :
    (db.findDocument id).isSome = true ↔ ∃ row ∈ db.documents, row.id = id := by
  simp [Database.findDocument]

section Inversion

variable {process : Nat} {choice : Choice} {db after : Database} {request : Request}
variable {remaining : Option Request}

/-- Every statement of every request is one of the steps. -/
theorem advance_step (hadvance : advance process choice db request = some (remaining, after)) :
    Step process choice db request remaining after := by
  have hfound : ∀ {id : String}, ¬(db.findDocument id).isNone = true →
      ∃ row ∈ db.documents, row.id = id := by
    intro id hsome
    rwa [← Option.isSome_eq_false_iff, Bool.not_eq_false, Database.isSome_findDocument] at hsome
  cases request
  case saveRetention body =>
    simp only [advance] at hadvance
    split at hadvance <;> cases hadvance
    · exact .saveRetention body
    · exact .stop
  case saveRetentionUpsert body =>
    simp only [advance] at hadvance
    split at hadvance
    · cases hadvance
      exact .save body
    next hnone =>
      repeat' split at hadvance
      all_goals cases hadvance
      · exact .stop
      next hsome hfresh => exact .create body (by simpa using hnone) (hfound hsome) hfresh
  case retentionDecision decision =>
    simp only [advance] at hadvance
    split at hadvance <;> cases hadvance
    next policy hread => exact .readPolicy decision policy hread
    next => exact .stop
  case retentionDecisionUpdate decision policy =>
    simp only [advance] at hadvance
    split at hadvance <;> cases hadvance
    · exact .stop
    next haccepted => exact .decide decision policy (by simpa using haccepted)
  case flagDueRetentions =>
    simp only [advance] at hadvance
    split at hadvance <;> cases hadvance
    next hselection => exact .findDue hselection
  case flagDueUpdate due =>
    simp only [advance] at hadvance
    split at hadvance <;> cases hadvance
    · exact .flag due
    · exact .stop
  case retryInterrupted =>
    cases hadvance
    exact .retry
  case findApproved =>
    simp only [advance] at hadvance
    split at hadvance <;> cases hadvance
    next hselection => exact .findApproved hselection
  case claimNext queue =>
    cases queue with
    | nil =>
        cases hadvance
        exact .stop
    | cons item queue =>
        simp only [advance, Option.some.injEq, Prod.mk.injEq] at hadvance
        obtain ⟨hremaining, rfl⟩ := hadvance
        split at hremaining <;> subst hremaining
        next hclaimed => exact .claim item queue hclaimed
        next => exact .missClaim item queue
  case findShared item queue =>
    cases hadvance
    exact .findShared item queue
  case removeObjects item keep files queue =>
    cases files with
    | nil =>
        simp only [advance] at hadvance
        split at hadvance <;> cases hadvance
        · exact .destroy item keep queue
        · exact .stop
    | cons file files =>
        simp only [advance] at hadvance
        cases hadvance
        split
        · exact .removeFile item keep file files queue
        next hskipped => exact .skipFile item keep file files queue hskipped
  case remove documentId =>
    simp only [advance] at hadvance
    split at hadvance <;> cases hadvance
    next document hread => exact .readDocument documentId document hread
    next => exact .stop
  case removeTransaction document policy files =>
    simp only [advance] at hadvance
    split at hadvance <;> cases hadvance
    · exact .stop
    next hchecked =>
      rw [not_or] at hchecked
      exact .delete document policy files
        (fun read hread hprotects => hchecked.1 ⟨read, hread, hprotects⟩) (hfound hchecked.2)
  case removeCleanup keys =>
    cases keys with
    | nil =>
        cases hadvance
        exact .stop
    | cons key keys =>
        cases hadvance
        split
        · exact .skipCleanup key keys
        · exact .cleanup key keys
  case upload documentId sensitive locale =>
    cases documentId with
    | none =>
        simp only [advance] at hadvance
        split at hadvance <;> cases hadvance
        next hfresh => exact .newDocument sensitive locale hfresh
    | some documentId =>
        simp only [advance] at hadvance
        split at hadvance <;> cases hadvance
        · exact .oldDocument documentId sensitive locale
        · exact .stop
  case uploadCompare target =>
    cases hadvance
    exact .compare target
  case uploadPut target previousId =>
    simp only [advance] at hadvance
    split at hadvance <;> cases hadvance
    next hfresh => exact .put target previousId hfresh
  case uploadTransaction target previousId key =>
    simp only [advance] at hadvance
    repeat' split at hadvance
    all_goals cases hadvance
    · exact .refuseUpload target previousId key
    next hchecked hfresh =>
      rw [not_or, not_and_or, Bool.not_eq_false] at hchecked
      exact .upload target previousId key (hchecked.1.imp_right hfound) hfresh
  case uploadFailed key =>
    cases hadvance
    split
    · exact .stop
    · exact .dropUpload key
  case restoreVersion documentId versionId =>
    simp only [advance] at hadvance
    split at hadvance <;> cases hadvance
    · exact .restoreVersion documentId versionId
    · exact .stop
  case restoreVersionRead documentId versionId =>
    simp only [advance] at hadvance
    split at hadvance
    next source hread =>
      split at hadvance <;> cases hadvance
      · exact .stop
      · exact .readSource documentId versionId source hread
    next =>
      cases hadvance
      exact .stop
  case restoreVersionTransaction source =>
    simp only [advance] at hadvance
    repeat' split at hadvance
    all_goals cases hadvance
    · exact .stop
    next hchecked hfresh =>
      rw [not_or] at hchecked
      exact .restoreSource source (hfound hchecked.1) hfresh
  case publish documentId =>
    simp only [advance] at hadvance
    split at hadvance <;> cases hadvance
    · exact .publish documentId
    · exact .stop
  case prepareForPublication documentId =>
    simp only [advance] at hadvance
    split at hadvance <;> cases hadvance
    · exact .findUnmarked documentId
    · exact .notSensitive documentId
  case watermarkRead documentId queue =>
    cases queue with
    | nil =>
        cases hadvance
        exact .allMarked documentId
    | cons version queue =>
        simp only [advance] at hadvance
        split at hadvance <;> cases hadvance
        · exact .readMarked documentId version queue
        · exact .stop
  case watermarkPut documentId version queue =>
    simp only [advance] at hadvance
    split at hadvance <;> cases hadvance
    next hfresh => exact .putMarked documentId version queue hfresh
  case watermarkCreate documentId version key queue =>
    simp only [advance] at hadvance
    split at hadvance <;> cases hadvance
    · exact .failMarked documentId version key queue
    · exact .createMarked documentId version key queue
  case watermarkAttach documentId version key queue =>
    simp only [advance] at hadvance
    split at hadvance <;> cases hadvance
    · exact .attach documentId version key queue
    · exact .failAttach documentId version key queue
  case watermarkFailed key =>
    cases hadvance
    split
    · exact .stop
    · exact .dropMarked key
  case publishTransaction documentId =>
    cases hadvance
    exact .publishTransaction documentId
  case archive documentId =>
    cases hadvance
    exact .archive documentId
  case restore documentId =>
    cases hadvance
    exact .restore documentId
  case trash documentId =>
    simp only [advance] at hadvance
    split at hadvance <;> cases hadvance
    · exact .trash documentId
    · exact .stop
  case trashUpdate documentId =>
    cases hadvance
    exact .trashUpdate documentId
  case restoreFromTrash documentId =>
    cases hadvance
    exact .untrash documentId
  case updateMetadata body =>
    simp only [advance] at hadvance
    split at hadvance
    next document hread =>
      split at hadvance <;> cases hadvance
      · exact .readMetadata body document
      · exact .stop
    next =>
      cases hadvance
      exact .stop
  case updateMetadataTransaction body document =>
    simp only [advance] at hadvance
    split at hadvance <;> cases hadvance
    · exact .metadata body document
    · exact .stop

end Inversion

end IsmsPortal
