import IsmsPortal.Destruction.Database
import IsmsPortal.Foundation.Interleaving

/-! # Requests and the destruction worker

Every endpoint and the worker as a process: a constructor of `Request` is a
place between two statements with the values read so far, and `advance` runs
the next statement. A transaction takes effect at its commit. Authorization,
document locks, antivirus results and the approval gate of sensitive operations
can only refuse a request; a refused request is one that stops.
-/

namespace IsmsPortal

open Foundation

/-- Body of a retention change. -/
structure RetentionPolicyDto where
  documentId : String
  retentionUntil : Option Int
  legalHold : Bool
deriving DecidableEq

inductive DecisionAction
  | request
  | approve
  | reject
deriving DecidableEq

/-- A destruction decision: the policy, the administrator and the action. -/
structure RetentionDecision where
  policyId : String
  username : String
  action : DecisionAction
deriving DecidableEq

/-- A policy read by the worker, with its document and the files of its versions. -/
structure WorkItem where
  policy : RetentionPolicy
  document : Document
  files : List StoredFile
deriving DecidableEq

/-- An upload: the document (existing or new) and the language. -/
structure UploadTarget where
  documentId : String
  isNew : Bool
  sensitive : Bool
  locale : String
deriving DecidableEq

/-- A change of metadata: the document, a version whose language changes, and
the time of the last change the editor has seen. -/
structure MetadataUpdate where
  documentId : String
  versionId : Option String
  locale : String
  expectedUpdatedAt : Option Int
deriving DecidableEq

/-- Where a request is, and what it has read. -/
inductive Request
  | saveRetention (body : RetentionPolicyDto)
  | saveRetentionUpsert (body : RetentionPolicyDto)
  | retentionDecision (decision : RetentionDecision)
  | retentionDecisionUpdate (decision : RetentionDecision) (policy : RetentionPolicy)
  | flagDueRetentions
  | flagDueUpdate (due : List RetentionPolicy)
  | retryInterrupted
  | findApproved
  | claimNext (queue : List WorkItem)
  | findShared (item : WorkItem) (queue : List WorkItem)
  | removeObjects (item : WorkItem) (keep : List ObjectKey) (remaining : List StoredFile)
      (queue : List WorkItem)
  | remove (documentId : String)
  | removeTransaction (document : Document) (policy : Option RetentionPolicy)
      (files : List StoredFile)
  | removeCleanup (keys : List ObjectKey)
  | upload (documentId : Option String) (sensitive : Bool) (locale : String)
  | uploadCompare (target : UploadTarget)
  | uploadPut (target : UploadTarget) (previousId : Option String)
  | uploadTransaction (target : UploadTarget) (previousId : Option String) (key : ObjectKey)
  | uploadFailed (key : ObjectKey)
  | restoreVersion (documentId versionId : String)
  | restoreVersionRead (documentId versionId : String)
  | restoreVersionTransaction (source : DocumentVersion)
  | publish (documentId : String)
  | prepareForPublication (documentId : String)
  | watermarkRead (documentId : String) (queue : List DocumentVersion)
  | watermarkPut (documentId : String) (version : DocumentVersion) (queue : List DocumentVersion)
  | watermarkCreate (documentId : String) (version : DocumentVersion) (key : ObjectKey)
      (queue : List DocumentVersion)
  | watermarkAttach (documentId : String) (version : DocumentVersion) (key : ObjectKey)
      (queue : List DocumentVersion)
  | watermarkFailed (key : ObjectKey)
  | publishTransaction (documentId : String)
  | archive (documentId : String)
  | restore (documentId : String)
  | trash (documentId : String)
  | trashUpdate (documentId : String)
  | restoreFromTrash (documentId : String)
  | updateMetadata (body : MetadataUpdate)
  | updateMetadataTransaction (body : MetadataUpdate) (document : Document)

/-- What the environment decides: a random name, the rows of an unordered
query, and whether an external call failed. -/
structure Choice where
  name : String
  policies : List RetentionPolicy
  fails : Bool

/-- The requests a client or the scheduler may issue. -/
def Request.initial : Request → Bool
  | .saveRetention _ | .retentionDecision _ | .flagDueRetentions | .retryInterrupted | .remove _
  | .upload _ _ _ | .restoreVersion _ _ | .publish _ | .archive _ | .restore _ | .trash _
  | .restoreFromTrash _ | .updateMetadata _ => true
  | _ => false

/-! ## Retention policies -/

/-- A legal hold, or a retention period that has not ended. -/
def RetentionPolicy.Protects (policy : RetentionPolicy) (now : Int) : Prop :=
  policy.legalHold = true ∨ ∃ limit, policy.retentionUntil = some limit ∧ now < limit

instance (policy : RetentionPolicy) (now : Int) : Decidable (policy.Protects now) :=
  decidable_of_iff (policy.legalHold = true ∨ policy.retentionUntil.any (now < ·) = true) <| by
    unfold RetentionPolicy.Protects
    cases policy.retentionUntil <;> simp

/-- `saveRetention`, the written columns. A hold withdraws any destruction. -/
def savedPolicy (body : RetentionPolicyDto) (policy : RetentionPolicy) : RetentionPolicy :=
  if body.legalHold then
    { policy with
      retentionUntil := body.retentionUntil, legalHold := true, destructionStatus := .none
      requestedBy := none, requestedAt := none, approvedBy := none, approvedAt := none }
  else { policy with retentionUntil := body.retentionUntil, legalHold := false }

def createdPolicy (body : RetentionPolicyDto) (id : String) (now : Int) : RetentionPolicy where
  id := id
  documentId := body.documentId
  retentionUntil := body.retentionUntil
  legalHold := body.legalHold
  destructionStatus := .none
  requestedBy := none
  requestedAt := none
  approvedBy := none
  approvedAt := none
  destroyedAt := none
  updatedAt := now
  approvedFor := none

/-- The refusal of a decision, from the policy as it was read. -/
def retentionDecisionError (decision : RetentionDecision) (policy : RetentionPolicy) (now : Int) :
    Option String :=
  if policy.legalHold then some "Legal hold blocks every destruction request"
  else match decision.action with
    | .request =>
        if policy.destructionStatus ∈ [.approved, .destroying, .destroyed] then
          some "Destruction already approved or executed"
        else if policy.retentionUntil.any (now < ·) then some "Retention period has not ended"
        else none
    | .approve =>
        if policy.destructionStatus ≠ .requested then some "No destruction request is pending"
        else if policy.requestedBy = some decision.username then
          some "A second administrator must approve destruction"
        else none
    | .reject =>
        if policy.destructionStatus ≠ .requested then some "No destruction request is pending"
        else none

/-- The columns a decision writes, whatever the row holds by then. -/
def decidedPolicy (decision : RetentionDecision) (read : RetentionPolicy) (now : Int)
    (policy : RetentionPolicy) : RetentionPolicy :=
  match decision.action with
  | .request =>
      { policy with
        destructionStatus := .requested, requestedBy := some decision.username
        requestedAt := some now, approvedBy := none, approvedAt := none }
  | .approve =>
      { policy with
        destructionStatus := .approved, approvedBy := some decision.username
        approvedAt := some now, approvedFor := some (read.requestedBy, read.requestedAt) }
  | .reject =>
      { policy with
        destructionStatus := .rejected, approvedBy := some decision.username
        approvedAt := some now }

/-- A policy whose period ended and whose document is not destroyed. -/
def isDue (db : Database) (policy : RetentionPolicy) : Bool :=
  !policy.legalHold && policy.destructionStatus = .none &&
    policy.retentionUntil.any (· ≤ db.clock) &&
    db.documents.any fun document =>
      document.id = policy.documentId ∧ document.destroyedAt = none

/-- An approved destruction without hold. -/
def isApproved (policy : RetentionPolicy) : Bool :=
  policy.destructionStatus = .approved && !policy.legalHold

/-! ## The worker -/

/-- The worker's read of one policy, with its document and files. -/
def workItem (db : Database) (policy : RetentionPolicy) : Option WorkItem :=
  (db.findDocument policy.documentId).map fun document =>
    ⟨policy, document, db.filesOf document.id⟩

/-- Files of the item that versions of other documents refer to. -/
def sharedKeys (db : Database) (item : WorkItem) : List ObjectKey :=
  (item.files.map StoredFile.objectKey).filter fun key =>
    db.versions.any fun version => version.documentId ≠ item.document.id ∧ version.Refers key

/-- The transaction that records the destruction. -/
def destroyDocument (db : Database) (item : WorkItem) (keep : List ObjectKey) : Database where
  __ := db
  storedFiles := db.storedFiles.map fun file =>
    if file.objectKey ∈ item.files.map StoredFile.objectKey ∧ file.objectKey ∉ keep then
      { file with purgedAt := some db.clock }
    else file
  documents := (db.updateDocuments (fun document => document.id = item.document.id) fun document =>
    { document with
      status := .archived, deletedAt := some (item.document.deletedAt.getD db.clock)
      destroyedAt := some db.clock }).documents
  policies := (db.updatePolicies (fun policy => policy.id = item.policy.id) fun policy =>
    { policy with destructionStatus := .destroyed, destroyedAt := some db.clock }).policies

/-- The transaction of a permanent delete. The policy goes with its document. -/
def deleteDocument (db : Database) (documentId : String) (files : List StoredFile) :
    Database where
  __ := db
  documents := db.documents.filter fun document => document.id ≠ documentId
  policies := db.policies.filter fun policy => policy.documentId ≠ documentId
  versions := db.versions.filter fun version => version.documentId ≠ documentId
  storedFiles := db.storedFiles.filter fun file =>
    ¬(file.objectKey ∈ files.map StoredFile.objectKey ∧
      ∀ version ∈ db.versions, version.documentId ≠ documentId → ¬version.Refers file.objectKey)
  retiredIds := db.retiredIds ++ [documentId]

/-! ## Versions -/

/-- The transaction of an upload. -/
def uploadVersion (db : Database) (target : UploadTarget) (key : ObjectKey) (choice : Choice) :
    Database :=
  let status := if choice.fails then DocumentStatus.quarantined else .draft
  let latest := db.latestVersion target.documentId target.locale
  let withDocument : Database :=
    if target.isNew then
      { db with documents := db.documents ++
          [⟨target.documentId, status, target.sensitive, none, none, db.clock⟩] }
    else db.updateDocuments (fun document => document.id = target.documentId)
      fun document => { document with status := status }
  (withDocument.createStoredFile key).createVersion
    { id := choice.name, documentId := target.documentId, locale := target.locale
      version := (latest.map DocumentVersion.version).getD 0 + 1
      storedFile := key, distributedStoredFile := none }

/-- The versions a publication still has to watermark: the latest of each
language without a distributed file. -/
def unmarkedVersions (db : Database) (documentId : String) : List DocumentVersion :=
  (db.versionsOf documentId).filter fun version =>
    version.distributedStoredFile = none ∧
      (db.versionsOf documentId).all fun candidate =>
        ¬(candidate.locale = version.locale ∧ version.version < candidate.version)

/-- A restored version: the next number of its language, with the files of the source. -/
def restoredVersion (db : Database) (source : DocumentVersion) (id : String) : DocumentVersion :=
  let latest := db.latestVersion source.documentId source.locale
  { id := id, documentId := source.documentId, locale := source.locale
    version := (latest.map DocumentVersion.version).getD 0 + 1
    storedFile := source.storedFile, distributedStoredFile := none }

/-- The transaction of a metadata change. -/
def writeMetadata (db : Database) (body : MetadataUpdate) (read : Document) : Database where
  __ := db.updateVersions (fun version => some version.id = body.versionId)
    fun version => { version with locale := body.locale }
  documents := db.documents.map fun document =>
    if document.id = body.documentId then
      { document with updatedAt := max db.clock (read.updatedAt + 1) }
    else document

/-! ## One statement -/

/-- Run the next statement of a request: the request afterwards, or none when it
has ended, and the database. No result means that the environment's choice was
not a possible one. -/
def advance (process : Nat) (choice : Choice) (db : Database) :
    Request → Option (Option Request × Database)
  | .saveRetention body =>
      if (db.findActiveDocument body.documentId).isSome ∧
          (body.legalHold = true ∨ body.retentionUntil.isSome) then
        some (some (.saveRetentionUpsert body), db)
      else some (none, db)
  | .saveRetentionUpsert body =>
      if (db.policyOf body.documentId).isSome then
        some (none, db.updatePolicies (fun policy => policy.documentId = body.documentId)
          (savedPolicy body))
      else if (db.findDocument body.documentId).isNone then some (none, db)
      else if db.FreshId choice.name then
        some (none, { db.issueId process choice.name with
          policies := db.policies ++ [createdPolicy body choice.name db.clock] })
      else none
  | .retentionDecision decision =>
      match db.policies.find? fun policy => policy.id = decision.policyId with
      | some policy => some (some (.retentionDecisionUpdate decision policy), db)
      | none => some (none, db)
  | .retentionDecisionUpdate decision policy =>
      if (retentionDecisionError decision policy db.clock).isSome then some (none, db)
      else some (none, db.updatePolicies (fun row => row.id = decision.policyId)
        (decidedPolicy decision policy db.clock))
  | .flagDueRetentions =>
      if Query.IsSelection (isDue db) 100 db.policies choice.policies then
        some (some (.flagDueUpdate choice.policies), db)
      else none
  | .flagDueUpdate due =>
      -- An update of a missing row aborts the transaction.
      if ∀ policy ∈ due, ∃ row ∈ db.policies, row.id = policy.id then
        some (none, db.updatePolicies (fun row => row.id ∈ due.map RetentionPolicy.id)
          fun row => { row with destructionStatus := .due })
      else some (none, db)
  | .retryInterrupted =>
      some (some .findApproved, db.updatePolicies
        (fun policy => policy.destructionStatus = .destroying ∧
          policy.updatedAt < db.clock - 30 * 60000)
        fun policy => { policy with destructionStatus := .approved })
  | .findApproved =>
      if Query.IsSelection isApproved 10 db.policies choice.policies then
        some (some (.claimNext (choice.policies.filterMap (workItem db))), db)
      else none
  | .claimNext [] => some (none, db)
  | .claimNext (item :: queue) =>
      let claims := fun policy : RetentionPolicy =>
        decide (policy.id = item.policy.id) && isApproved policy
      some (some (if db.policies.countP claims = 1 then .findShared item queue
          else .claimNext queue),
        db.updatePolicies claims fun policy => { policy with destructionStatus := .destroying })
  | .findShared item queue =>
      some (some (.removeObjects item (sharedKeys db item) item.files queue), db)
  | .removeObjects item keep (file :: remaining) queue =>
      some (some (.removeObjects item keep remaining queue),
        if file.objectKey ∉ keep ∧ file.purgedAt = none then db.removeObject file.objectKey
        else db)
  | .removeObjects item keep [] queue =>
      if (db.findDocument item.document.id).isSome ∧
          (∃ policy ∈ db.policies, policy.id = item.policy.id) then
        some (some (.claimNext queue), destroyDocument db item keep)
      else some (none, db)
  | .remove documentId =>
      match db.findDocument documentId with
      | some document => some (some (.removeTransaction document (db.policyOf documentId)
          (db.filesOf documentId)), db)
      | none => some (none, db)
  | .removeTransaction document policy files =>
      -- "Legal hold or retention period: use the retention destruction workflow"
      if (∃ read, policy = some read ∧ read.Protects db.clock) ∨
          (db.findDocument document.id).isNone then
        some (none, db)
      else some (some (.removeCleanup (files.map StoredFile.objectKey)),
        deleteDocument db document.id files)
  | .removeCleanup [] => some (none, db)
  | .removeCleanup (key :: keys) =>
      some (some (.removeCleanup keys), if choice.fails then db else db.removeObject key)
  | .upload (some documentId) sensitive locale =>
      if (db.findActiveDocument documentId).isSome then
        some (some (.uploadCompare ⟨documentId, false, sensitive, locale⟩), db)
      else some (none, db)
  | .upload none sensitive locale =>
      if db.FreshId choice.name then
        some (some (.uploadCompare ⟨choice.name, true, sensitive, locale⟩),
          db.issueId process choice.name)
      else none
  | .uploadCompare target =>
      some (some (.uploadPut target
        ((db.latestVersion target.documentId target.locale).map DocumentVersion.id)), db)
  | .uploadPut target previousId =>
      let key : ObjectKey := ⟨target.documentId, choice.name⟩
      if db.FreshKey key then
        some (some (.uploadTransaction target previousId key), db.putObject process key)
      else none
  | .uploadTransaction target previousId key =>
      if (target.isNew = false ∧ (db.findDocument target.documentId).isNone) ∨
          (db.latestVersion target.documentId target.locale).map DocumentVersion.id ≠
            previousId then
        some (some (.uploadFailed key), db)
      else if db.FreshId choice.name then
        some (none, (uploadVersion db target key choice).issueId process choice.name)
      else none
  | .uploadFailed key => some (none, if choice.fails then db else db.removeObject key)
  | .restoreVersion documentId versionId =>
      if (db.findActiveDocument documentId).isSome then
        some (some (.restoreVersionRead documentId versionId), db)
      else some (none, db)
  | .restoreVersionRead documentId versionId =>
      match db.versions.find? fun version =>
          version.id = versionId ∧ version.documentId = documentId with
      | some source =>
          if ∃ file ∈ db.storedFiles, file.objectKey = source.storedFile ∧
              file.purgedAt.isSome then some (none, db)
          else some (some (.restoreVersionTransaction source), db)
      | none => some (none, db)
  | .restoreVersionTransaction source =>
      if (db.findDocument source.documentId).isNone ∨
          (db.latestVersion source.documentId source.locale).map DocumentVersion.version =
            some source.version then
        some (none, db)
      else if db.FreshId choice.name then
        some (none, ((db.updateDocuments (fun document => document.id = source.documentId)
          fun document => { document with status := .draft }).createVersion
            (restoredVersion db source choice.name)).issueId process choice.name)
      else none
  | .publish documentId =>
      if (db.findActiveDocument documentId).isSome then
        some (some (.prepareForPublication documentId), db)
      else some (none, db)
  | .prepareForPublication documentId =>
      if (db.findDocument documentId).any Document.sensitive then
        some (some (.watermarkRead documentId (unmarkedVersions db documentId)), db)
      else some (some (.publishTransaction documentId), db)
  | .watermarkRead documentId [] => some (some (.publishTransaction documentId), db)
  | .watermarkRead documentId (version :: queue) =>
      if version.storedFile ∈ db.objects then
        some (some (.watermarkPut documentId version queue), db)
      else some (none, db)
  | .watermarkPut documentId version queue =>
      let key : ObjectKey := ⟨documentId, choice.name⟩
      if db.FreshKey key then
        some (some (.watermarkCreate documentId version key queue), db.putObject process key)
      else none
  | .watermarkCreate documentId version key queue =>
      if choice.fails then some (some (.watermarkFailed key), db)
      else some (some (.watermarkAttach documentId version key queue), db.createStoredFile key)
  | .watermarkAttach documentId version key queue =>
      if ∃ row ∈ db.versions, row.id = version.id then
        some (some (.watermarkRead documentId queue),
          db.updateVersions (fun row => row.id = version.id)
            fun row => { row with distributedStoredFile := some key })
      else some (some (.watermarkFailed key), db)
  | .watermarkFailed key => some (none, if choice.fails then db else db.removeObject key)
  | .publishTransaction documentId =>
      some (none, db.updateDocuments
        (fun document => document.id = documentId ∧ document.deletedAt = none ∧
          document.status ≠ .published)
        fun document => { document with status := .published })
  | .archive documentId =>
      some (none, db.updateDocuments (fun document => document.id = documentId)
        fun document => { document with status := .archived })
  | .restore documentId =>
      some (none, db.updateDocuments
        (fun document => document.id = documentId ∧ document.deletedAt = none ∧
          document.status = .archived)
        fun document => { document with status := .draft })
  | .trash documentId =>
      if (db.findActiveDocument documentId).isSome then
        some (some (.trashUpdate documentId), db)
      else some (none, db)
  | .trashUpdate documentId =>
      some (none, db.updateDocuments (fun document => document.id = documentId)
        fun document => { document with deletedAt := some db.clock, status := .archived })
  | .restoreFromTrash documentId =>
      -- Destroyed documents keep a tombstone but can never come back.
      some (none, db.updateDocuments
        (fun document => document.id = documentId ∧ document.deletedAt ≠ none ∧
          document.destroyedAt = none)
        fun document => { document with deletedAt := none, status := .archived })
  | .updateMetadata body =>
      match db.findActiveDocument body.documentId with
      | some document =>
          if body.versionId.all fun id => db.versions.any fun version =>
              version.id = id ∧ version.documentId = body.documentId then
            some (some (.updateMetadataTransaction body document), db)
          else some (none, db)
      | none => some (none, db)
  | .updateMetadataTransaction body document =>
      if ∃ row ∈ db.documents, row.id = body.documentId ∧ row.deletedAt = none ∧
          row.updatedAt = body.expectedUpdatedAt.getD document.updatedAt then
        some (none, writeMetadata db body document)
      else some (none, db)

/-- The portal: time passes, requests arrive, statements interleave. -/
def portal : Concurrent Database Request Choice where
  drift time db := if db.clock ≤ time then some { db with clock := time } else none
  start := Request.initial
  advance := advance

abbrev PortalConfig : Type := Concurrent.Config Database Request

abbrev PortalMove : Type := Concurrent.Move Request Choice

/-- Runs of the portal from an empty database. -/
abbrev portalSystem : System PortalConfig PortalMove :=
  portal.system fun db => db = Database.empty db.clock

end IsmsPortal
