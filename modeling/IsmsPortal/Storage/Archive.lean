import IsmsPortal.Destruction.Writes
import IsmsPortal.Storage.Receipts

/-! # Uploads with receipts and failing statements

The requests of the portal in a world where statements fail. A statement may be
refused without effect, or take effect and lose its acknowledgement; either way
the request goes on with its error path: it ends, or it compensates. An upload
that carries a request id looks its receipt up before it writes, and again before
it compensates. User and admin uploads run the same statements.
-/

namespace IsmsPortal

open Foundation

/-- The fingerprint kept in `changeDetails` of a version. The last field is no
column: it is the upload that created the version. -/
structure UploadRecord where
  versionId : String
  fingerprint : HexDigest
  sent : Upload
deriving DecidableEq

/-- The tables with the records of uploads. The last two fields are no columns:
the uploads that have arrived, and the keys written into a version. -/
structure Archive where
  db : Database
  records : List UploadRecord
  received : List Upload
  attached : List ObjectKey
deriving DecidableEq

def Archive.empty (clock : Int) : Archive := ⟨Database.empty clock, [], [], []⟩

deriving instance DecidableEq for Request

/-- How a statement ends. -/
inductive Outcome
  | done
  | failed
  | lost
deriving DecidableEq

structure ArchiveChoice where
  choice : Choice
  outcome : Outcome

/-- Where a request is, and what it has read. -/
inductive ArchiveRequest
  | request (place : Request)
  | upload (sent : Upload)
  | uploadLookup (sent : Upload) (receipt : Option UploadReceipt)
  /-- The statements of an upload up to its transaction. -/
  | uploading (sent : Upload) (receipt : Option UploadReceipt) (place : Request)
  | uploadRecover (sent : Upload) (receipt : Option UploadReceipt) (key : ObjectKey)
  | uploadDiscard (sent : Upload) (receipt : Option UploadReceipt) (key : ObjectKey)
      (answer : Option String)
  /-- The upload was answered with this document. -/
  | answered (sent : Upload) (receipt : Option UploadReceipt) (documentId : String)
deriving DecidableEq

namespace ArchiveRequest

def initial : ArchiveRequest → Bool
  | .request (.upload _ _ _) => false
  | .request place => place.initial
  | .upload _ => true
  | _ => false

/-- Where an error leads. -/
def recovery : ArchiveRequest → Option ArchiveRequest
  | .request (.watermarkCreate _ _ key _) | .request (.watermarkAttach _ _ key _) =>
      some (.request (.watermarkFailed key))
  | .uploading sent receipt (.uploadTransaction _ _ key) => some (.uploadRecover sent receipt key)
  | .uploadDiscard sent receipt _ answer => answer.map (.answered sent receipt)
  | _ => none

end ArchiveRequest

/-! ## Receipts -/

/-- The document of the version under the receipt, with the key of its file. -/
def findUploadReceipt (archive : Archive) :
    Option UploadReceipt → Except String (Option (String × ObjectKey))
  | none => .ok none
  | some receipt =>
      match archive.db.versions.find? fun version => version.id = receipt.id with
      | none => .ok none
      | some version =>
          if (∃ record ∈ archive.records, record.versionId = receipt.id ∧
                record.fingerprint = receipt.fingerprint) ∧
              ∃ document ∈ archive.db.documents,
                document.id = version.documentId ∧ document.deletedAt = none then
            .ok (some (version.documentId, version.storedFile))
          else .error "Upload request changed or document deleted; check the document list"

/-! ## Uploads -/

/-- The first statement after the lookup: a new document draws its id. -/
def Upload.firstPlace (sent : Upload) : Request :=
  let sensitive : Bool := sent.field "sensitive" = some "true"
  let locale := (sent.field "locale").getD ""
  match sent.field "documentId" with
  | some documentId => .uploadCompare ⟨documentId, false, sensitive, locale⟩
  | none => .upload none sensitive locale

/-- The transaction of an upload aborts: the document is gone, another version
was uploaded, or the id of the version is taken. -/
def UploadRefused (db : Database) (receipt : Option UploadReceipt) (target : UploadTarget)
    (previousId : Option String) : Prop :=
  (target.isNew = false ∧ (db.findDocument target.documentId).isNone) ∨
    (db.latestVersion target.documentId target.locale).map DocumentVersion.id ≠ previousId ∨
    ∃ version ∈ db.versions, some version.id = receipt.map UploadReceipt.id

instance (db : Database) (receipt : Option UploadReceipt) (target : UploadTarget)
    (previousId : Option String) : Decidable (UploadRefused db receipt target previousId) :=
  inferInstanceAs (Decidable (_ ∨ _ ∨ _))

/-- An id that is in use from now on. -/
def Database.useId (db : Database) (process : Nat) (id : String) : Database :=
  if db.FreshId id then db.issueId process id else db

/-- The transaction of an upload, with the id of the new version. -/
def Archive.commitUpload (archive : Archive) (process : Nat) (choice : Choice) (sent : Upload)
    (receipt : Option UploadReceipt) (target : UploadTarget) (key : ObjectKey) (id : String) :
    Archive where
  db := (uploadVersion archive.db target key { choice with name := id }).useId process id
  records := archive.records ++ (receipt.map fun receipt =>
    (⟨receipt.id, receipt.fingerprint, sent⟩ : UploadRecord)).toList
  received := archive.received
  attached := archive.attached ++ [key]

/-- The tables after a statement of another request. The record of a version
goes with it. -/
def Archive.follow (archive : Archive) (place : Request) (db : Database) : Archive where
  db := db
  records := archive.records.filter fun record =>
    db.versions.any fun version => version.id = record.versionId
  received := archive.received
  attached := match place with
    | .watermarkAttach _ _ key _ => archive.attached ++ [key]
    | _ => archive.attached

/-! ## One statement -/

section Statements

variable (platform : Platform) (process : Nat) (choice : Choice) (archive : Archive)

/-- A statement that takes effect. -/
def archiveStatement : ArchiveRequest → Option (Option ArchiveRequest × Archive)
  | .request place => (advance process choice archive.db place).map fun result =>
      (result.1.map .request, archive.follow place result.2)
  | .upload sent =>
      let arrived := { archive with received := archive.received ++ [sent] }
      if (sent.field "documentId").all fun id => (archive.db.findActiveDocument id).isSome then
        match uploadReceipt platform sent with
        | .error _ => some (none, arrived)
        | .ok receipt => some (some (.uploadLookup sent receipt), arrived)
      else some (none, arrived)
  | .uploadLookup sent receipt =>
      match findUploadReceipt archive receipt with
      | .error _ => some (none, archive)
      | .ok (some (documentId, _)) => some (some (.answered sent receipt documentId), archive)
      | .ok none => some (some (.uploading sent receipt sent.firstPlace), archive)
  | .uploading sent receipt (.uploadTransaction target previousId key) =>
      if UploadRefused archive.db receipt target previousId then
        some (some (.uploadRecover sent receipt key), archive)
      else
        let id := (receipt.map UploadReceipt.id).getD choice.name
        if receipt.isSome ∨ archive.db.FreshId id then
          some (some (.answered sent receipt target.documentId),
            archive.commitUpload process choice sent receipt target key id)
        else none
  | .uploading sent receipt place => (advance process choice archive.db place).map fun result =>
      (result.1.map (.uploading sent receipt), { archive with db := result.2 })
  | .uploadRecover sent receipt key =>
      match findUploadReceipt archive receipt with
      | .error _ => some (none, archive)
      | .ok (some (documentId, objectKey)) =>
          if objectKey = key then some (some (.answered sent receipt documentId), archive)
          else some (some (.uploadDiscard sent receipt key (some documentId)), archive)
      | .ok none => some (some (.uploadDiscard sent receipt key none), archive)
  | .uploadDiscard sent receipt key answer =>
      some (answer.map (.answered sent receipt),
        if choice.fails then archive else { archive with db := archive.db.removeObject key })
  | .answered _ _ _ => some (none, archive)

end Statements

/-- Up to its transaction an upload runs the statements of the portal. -/
theorem archiveStatement_uploading {platform : Platform} {process : Nat} {choice : Choice}
    {archive : Archive} {sent : Upload} {receipt : Option UploadReceipt} {place : Request}
    (hplace : ∀ target previousId key, place ≠ .uploadTransaction target previousId key) :
    archiveStatement platform process choice archive (.uploading sent receipt place) =
      (advance process choice archive.db place).map fun result =>
        (result.1.map (.uploading sent receipt), { archive with db := result.2 }) := by
  cases place
  case uploadTransaction target previousId key => exact absurd rfl (hplace target previousId key)
  all_goals rfl

/-- A statement with its outcome. -/
def archiveAdvance (platform : Platform) (process : Nat) (choice : ArchiveChoice)
    (archive : Archive) (request : ArchiveRequest) : Option (Option ArchiveRequest × Archive) :=
  match choice.outcome with
  | .done => archiveStatement platform process choice.choice archive request
  | .failed => some (request.recovery, archive)
  | .lost => (archiveStatement platform process choice.choice archive request).map fun result =>
      (request.recovery, result.2)

def archiveProgram (platform : Platform) : Concurrent Archive ArchiveRequest ArchiveChoice where
  drift time archive := (portal.drift time archive.db).map fun db => { archive with db := db }
  start := ArchiveRequest.initial
  advance := archiveAdvance platform

abbrev ArchiveConfig : Type := Concurrent.Config Archive ArchiveRequest

abbrev ArchiveMove : Type := Concurrent.Move ArchiveRequest ArchiveChoice

/-- Runs from an empty archive. -/
abbrev archiveSystem (platform : Platform) : System ArchiveConfig ArchiveMove :=
  (archiveProgram platform).system fun archive => archive = Archive.empty archive.db.clock

end IsmsPortal
