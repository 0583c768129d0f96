import IsmsPortal.Destruction.Database
import IsmsPortal.Editing.Requests
import IsmsPortal.Foundation.Checks
import IsmsPortal.Publication.Watermark
import Mathlib.Data.List.Induction
import Mathlib.Logic.Function.Basic

/-! # Readers and the timestamp of a document

A client opens the editor of documents, which gives it their timestamps, and
submits `updateMetadata` or `apply` with them. Requests of others write in
between. A view and a download count on the row of the document, and every
update of the row moves its timestamp, so they make the request of the client
fail although nothing was edited. A failure tells of a change in every run in
which no request writes to the document what is already there.
-/

namespace IsmsPortal

open Foundation

/-! ## Documents -/

/-- What editors change of a document, with its translations and versions. -/
structure DocumentContent where
  categoryId : Option String
  metadata : Option Metadata
  translations : List Translation
  versions : List EditedVersion
  status : DocumentStatus
  externalUrl : Option String
  thumbnail : Option String
  sensitive : Bool
  watermarkPosition : WatermarkPosition
  lockedBy : Option String
  lockedAt : Option Int
  lockExpiresAt : Option Int
deriving DecidableEq

/-- A row of `Document`. -/
structure OpenDocument where
  spaceId : String
  content : DocumentContent
  viewCount : Nat
  downloadCount : Nat
  updatedAt : Int
  deletedAt : Option Int
  destroyedAt : Option Int
deriving DecidableEq

/-- The documents by their id. -/
abbrev OpenStore : Type := String → Option OpenDocument

/-- The columns that the requests of editors read. -/
def OpenDocument.edited (id : String) (row : OpenDocument) : EditedDocument :=
  ⟨id, row.spaceId, row.content.categoryId, row.content.metadata, row.updatedAt, row.deletedAt⟩

/-! ## Updates of a row -/

/-- The statements that update one row and do not set its timestamp, by the request they are
the end of: `draft` is `changeStatus`, `reject` the decision of a review, `newVersion` an
upload or `restoreVersion`, `destroy` the worker. -/
inductive RowUpdate
  | one
  | download
  | updateCategory (spaceId : String) (previous categoryId : Option String)
  | publish
  | archive
  | restore
  | draft (previous : DocumentStatus)
  | reject
  | setExternalLink (url thumbnail : Option String)
  | setSensitivity (sensitive : Bool) (position : Option WatermarkPosition)
  | lock (user : String)
  | unlock
  | newVersion (version : EditedVersion) (status : DocumentStatus)
  | trash
  | restoreFromTrash
  | destroy
deriving DecidableEq

namespace RowUpdate

/-- The condition of the statement, beside the id. -/
def selects (now : Int) (row : OpenDocument) : RowUpdate → Bool
  | .updateCategory spaceId previous _ => row.deletedAt.isNone && row.spaceId = spaceId &&
      row.content.categoryId = previous
  | .publish => row.deletedAt.isNone && row.content.status ≠ .published
  | .restore => row.deletedAt.isNone && row.content.status = .archived
  | .draft previous => row.deletedAt.isNone && row.content.status = previous
  | .reject => row.deletedAt.isNone && row.content.status ≠ .archived
  | .lock user => row.deletedAt.isNone && (row.content.lockedBy.isNone ||
      row.content.lockExpiresAt.any (· ≤ now) || row.content.lockedBy = some user)
  | .restoreFromTrash => row.deletedAt.isSome && row.destroyedAt.isNone
  | _ => true

/-- `LOCK_HOURS`, in milliseconds. -/
def lockTime : Int := 8 * 3600000

/-- The content after the statement. -/
def content (now : Int) (content : DocumentContent) : RowUpdate → DocumentContent
  | .one | .download => content
  | .updateCategory _ _ categoryId => { content with categoryId := categoryId }
  | .publish => { content with status := .published }
  | .archive | .reject | .trash | .restoreFromTrash => { content with status := .archived }
  | .restore | .draft _ => { content with status := .draft }
  | .setExternalLink url thumbnail => { content with externalUrl := url, thumbnail := thumbnail }
  | .setSensitivity sensitive position => { content with
      sensitive := sensitive
      watermarkPosition := position.getD content.watermarkPosition }
  | .lock user => { content with
      lockedBy := some user, lockedAt := some now, lockExpiresAt := some (now + lockTime) }
  | .unlock => { content with lockedBy := none, lockedAt := none, lockExpiresAt := none }
  | .newVersion version state => { content with
      versions := content.versions ++ [version], status := state }
  | .destroy => { content with
      status := .archived, lockedBy := none, lockedAt := none, lockExpiresAt := none }

def deletedAt (now : Int) (previous : Option Int) : RowUpdate → Option Int
  | .trash => some now
  | .restoreFromTrash => none
  | .destroy => some (previous.getD now)
  | _ => previous

/-- The row after the statement. The column `updatedAt` follows an update that does not
set it. -/
def apply (now : Int) (row : OpenDocument) (update : RowUpdate) : OpenDocument where
  spaceId := row.spaceId
  content := update.content now row.content
  viewCount := if update = .one then row.viewCount + 1 else row.viewCount
  downloadCount := if update = .download then row.downloadCount + 1 else row.downloadCount
  updatedAt := now
  deletedAt := update.deletedAt now row.deletedAt
  destroyedAt := if update = .destroy then some now else row.destroyedAt

end RowUpdate

/-! ## Requests -/

/-- The answers of a request that fails; `internal` is an error of the database. -/
inductive Refusal
  | internal
  | notFound
  | badRequest (message : String)
  | conflict (message : String)
  | documentChanged
deriving DecidableEq

/-- The content with the columns that a transaction writes. -/
def DocumentContent.write (data : DocumentData) (content : DocumentContent) : DocumentContent :=
  { content with
    categoryId := data.categoryId.getD content.categoryId
    metadata := data.metadata.or content.metadata }

/-- The content after `updateMetadata`. -/
def metadataContent (id : String) (body : MetadataBody) (data : DocumentData)
    (content : DocumentContent) : DocumentContent :=
  { content.write data with
    translations := EditStore.upsertTranslation content.translations (bodyTranslation body id)
    versions := content.versions.map fun version =>
      if some version.id = body.versionId then { version with locale := body.locale } else version }

/-- The version that the body names may be in its language. -/
def checkVersion (body : MetadataBody) (content : DocumentContent) : Except Refusal Unit :=
  match body.versionId with
  | none => .ok ()
  | some versionId =>
      match content.versions.find? fun version => version.id = versionId with
      | none => .error (.badRequest "Invalid document version")
      | some version =>
          if version.locale ≠ body.locale ∧ content.versions.any fun other =>
              other.locale = body.locale && other.version = version.version &&
                other.id ≠ version.id then
            .error (.conflict "This document version already exists in the selected language")
          else .ok ()

/-- An error of `applyDocumentType`. -/
def orBadRequest {α : Type} : Except String α → Except Refusal α
  | .ok value => .ok value
  | .error message => .error (.badRequest message)

namespace OpenStore

/-- A document that is not in the trash. -/
def find (store : OpenStore) (id : String) : Except Refusal OpenDocument :=
  match (store id).filter fun row => row.deletedAt.isNone with
  | some row => .ok row
  | none => .error .notFound

/-- The row that a transaction updates, by the timestamp. -/
def select (store : OpenStore) (id : String) (updatedAt : Int) : Except Refusal OpenDocument :=
  match (store id).filter fun row => row.deletedAt.isNone && row.updatedAt = updatedAt with
  | some row => .ok row
  | none => .error .documentChanged

def put (store : OpenStore) (id : String) (row : OpenDocument) : OpenStore :=
  Function.update store id (some row)

/-- `updateMetadata`: its queries in the tables `read`, its transaction in the tables
`store`. -/
def updateMetadata (read store : OpenStore) (choice : EditChoice) (now : Int) (user id : String)
    (body : MetadataBody) : Except Refusal OpenStore := do
  let old ← read.find id
  unless choice.permits user old.spaceId old.content.categoryId do throw .notFound
  unless inSpace choice old.spaceId body.categoryId.join do
    throw (.badRequest "Invalid category for this document space")
  unless body.categoryId.all fun target =>
      target = old.content.categoryId || choice.permits user old.spaceId target do
    throw .notFound
  checkVersion body old.content
  let data ← orBadRequest (metadataData choice now body (old.edited id))
  let row ← store.select id (body.expectedUpdatedAt.getD old.updatedAt)
  return store.put id { row with
    content := metadataContent id body data row.content
    updatedAt := data.updatedAt }

/-- The checks of `bulkPreview` on one document. -/
def checkBulk (read : OpenStore) (choice : EditChoice) (user : String) (body : BulkBody)
    (entry : String × Option Int) : Except Refusal Unit := do
  let old ← read.find entry.1
  unless bulkAllowed choice user body (old.edited entry.1) do throw .notFound

/-- The timestamp that `apply` asks for one document. -/
def checkStamp (read : OpenStore) (entry : String × Option Int) : Except Refusal Unit := do
  let old ← read.find entry.1
  unless entry.2 = some old.updatedAt do throw .documentChanged

/-- One document of the transaction of `apply`. -/
def writeBulk (read : OpenStore) (choice : EditChoice) (now : Int) (body : BulkBody)
    (store : OpenStore) (id : String) : Except Refusal OpenStore := do
  let old ← read.find id
  let data ← orBadRequest (bulkData choice now body (old.edited id))
  let row ← store.select id old.updatedAt
  return store.put id { row with
    content := row.content.write data
    updatedAt := data.updatedAt }

/-- `apply`: its queries in the tables `read`, its transaction in the tables `store`. -/
def bulkApply (read store : OpenStore) (choice : EditChoice) (now : Int) (user : String)
    (body : BulkBody) : Except Refusal OpenStore := do
  unless (body.documents.map Prod.fst).Nodup do throw (.badRequest "Duplicate document selection")
  if body.categoryId.isNone ∧ (body.metadata.getD []).isEmpty then
    throw (.badRequest "Select a metadata or category change")
  body.documents.forM fun entry => (read.find entry.1).map fun _ => ()
  unless body.categoryId.join.all fun category => (choice.categorySpace category).isSome do
    throw (.badRequest "Invalid category")
  body.documents.forM (read.checkBulk choice user body)
  body.documents.forM read.checkStamp
  (body.documents.map Prod.fst).foldlM (writeBulk read choice now body) store

end OpenStore

/-- What a request writes: `create` is the upload or `createExternal` of a new document. The
tables that `updateMetadata` and `apply` have read before are a part of it. -/
inductive OpenOperation
  | preview (id : String)
  | create (id : String) (row : OpenDocument)
  | update (id : String) (update : RowUpdate)
  | deleteCategory (categoryId : String)
  | remove (id : String)
  | updateMetadata (read : OpenStore) (choice : EditChoice) (user id : String) (body : MetadataBody)
  | bulkApply (read : OpenStore) (choice : EditChoice) (user : String) (body : BulkBody)

namespace OpenOperation

/-- The tables after a request, or its refusal. -/
def answer (store : OpenStore) (now : Int) : OpenOperation → Except Refusal OpenStore
  | .preview _ => .ok store
  | .create id row => if (store id).isSome then .error .internal else .ok (store.put id row)
  | .update id change =>
      match (store id).filter fun row => change.selects now row with
      | some row => .ok (store.put id (change.apply now row))
      | none => .error .notFound
  | .deleteCategory category => .ok fun id => (store id).map fun row =>
      if row.content.categoryId = some category then
        { row with content := { row.content with categoryId := none }, updatedAt := now }
      else row
  | .remove id => .ok (Function.update store id none)
  | .updateMetadata read choice user id body => read.updateMetadata store choice now user id body
  | .bulkApply read choice user body => read.bulkApply store choice now user body

end OpenOperation

/-- A request at a time. It may be refused by checks that came before, such as access. -/
structure OpenRequest where
  operation : OpenOperation
  now : Int
  refused : Bool

/-- A request that fails changes nothing. -/
def OpenRequest.performed (store : OpenStore) (request : OpenRequest) : OpenStore :=
  Checks.performed request.refused (request.operation.answer store request.now) store

/-- The tables after the writes of requests, one after the other. -/
def afterRequests (store : OpenStore) (requests : List OpenRequest) : OpenStore :=
  requests.foldl OpenRequest.performed store

/-- What a client submits, with the timestamps it expects. -/
inductive Submission
  | metadata (choice : EditChoice) (user id : String) (body : MetadataBody)
  | bulk (choice : EditChoice) (user : String) (body : BulkBody)

def Submission.expected : Submission → List (String × Option Int)
  | .metadata _ _ id body => [(id, body.expectedUpdatedAt)]
  | .bulk _ _ body => body.documents

def Submission.operation (read : OpenStore) : Submission → OpenOperation
  | .metadata choice user id body => .updateMetadata read choice user id body
  | .bulk choice user body => .bulkApply read choice user body

/-! ## Changes and timestamps -/

/-- What the conditions on a document look at: its timestamp and whether it is in the trash. -/
def OpenDocument.stamp (row : OpenDocument) : Int × Option Int :=
  (row.updatedAt, row.deletedAt)

def SameStamp (store after : OpenStore) (id : String) : Prop :=
  (after id).map OpenDocument.stamp = (store id).map OpenDocument.stamp

/-- The document has another content, or is removed. -/
def Changes (store after : OpenStore) (id : String) : Prop :=
  (after id).map OpenDocument.content ≠ (store id).map OpenDocument.content

/-- One of the requests changed the document. -/
def ChangedDuring (store : OpenStore) (requests : List OpenRequest) (id : String) : Prop :=
  ∃ front request rest, requests = front ++ request :: rest ∧
    Changes (afterRequests store front) (request.performed (afterRequests store front)) id

def OpenRequest.Succeeds (store : OpenStore) (request : OpenRequest) : Prop :=
  request.refused = false ∧ (request.operation.answer store request.now).toOption.isSome = true

/-- The request updates the document and writes the content that is already there: the
timestamp is another one, or the document goes to the trash or comes back. -/
def OpenRequest.Unnoticed (store : OpenStore) (request : OpenRequest) (id : String) : Prop :=
  request.Succeeds store ∧ ∃ row, store id = some row ∧
    match request.operation with
    | .update target change => target = id ∧
        change.content request.now row.content = row.content ∧
        (request.now ≠ row.updatedAt ∨ change.deletedAt request.now row.deletedAt ≠ row.deletedAt)
    | .updateMetadata read choice _ target body => target = id ∧ ∃ old data,
        read id = some old ∧ metadataData choice request.now body (old.edited id) = .ok data ∧
        metadataContent id body data row.content = row.content ∧ data.updatedAt ≠ row.updatedAt
    | .bulkApply read choice _ body => id ∈ body.documents.map Prod.fst ∧ ∃ old data,
        read id = some old ∧ bulkData choice request.now body (old.edited id) = .ok data ∧
        row.content.write data = row.content ∧ data.updatedAt ≠ row.updatedAt
    | _ => False

section Requests

variable {read store after : OpenStore} {choice : EditChoice} {now updatedAt : Int}
  {user id : String} {row old : OpenDocument}

theorem SameStamp.of_eq (hsame : after id = store id) : SameStamp store after id := by
  rw [SameStamp, hsame]

theorem SameStamp.trans {next : OpenStore} (hfirst : SameStamp store after id)
    (hnext : SameStamp after next id) : SameStamp store next id :=
  Eq.trans hnext hfirst

/-- A row with the timestamp is there still. -/
theorem SameStamp.exists_row (hsame : SameStamp store after id) (hrow : store id = some row) :
    ∃ other, after id = some other ∧ other.updatedAt = row.updatedAt ∧
      other.deletedAt = row.deletedAt := by
  rw [SameStamp, hrow, Option.map_some, Option.map_eq_some_iff] at hsame
  obtain ⟨other, hother, hstamp⟩ := hsame
  exact ⟨other, hother, congrArg Prod.fst hstamp, congrArg Prod.snd hstamp⟩

theorem sameStamp_or_changes_of_row {other : OpenDocument} (hrow : store id = some row)
    (hother : after id = some other)
    (hstamp : other.content = row.content → other.stamp = row.stamp) :
    SameStamp store after id ∨ Changes store after id := by
  by_cases hcontent : other.content = row.content
  · left
    rw [SameStamp, hrow, hother, Option.map_some, Option.map_some, hstamp hcontent]
  · right
    rw [Changes, hrow, hother, Option.map_some, Option.map_some]
    simpa using hcontent

namespace OpenStore

theorem put_self : store.put id row id = some row := by
  rw [put, Function.update_self]

theorem put_of_ne {other : String} (hne : other ≠ id) : store.put id row other = store other := by
  rw [put, Function.update_of_ne hne]

/-- A read that refuses where there is no row gives the row that there is. -/
theorem read_eq_ok {found : Option OpenDocument} {refusal : Refusal} :
    (match found with
      | some row => .ok row
      | none => .error refusal : Except Refusal OpenDocument) = .ok row ↔ found = some row := by
  cases found with
  | none => simp
  | some found => simp

theorem find_eq_ok : store.find id = .ok row ↔ store id = some row ∧ row.deletedAt = none := by
  refine read_eq_ok.trans ?_
  rw [Option.filter_eq_some_iff, Option.isNone_iff_eq_none]

theorem find_ne_documentChanged : store.find id ≠ .error .documentChanged := by
  unfold find
  split <;> simp

theorem select_eq_ok : store.select id updatedAt = .ok row ↔
    store id = some row ∧ row.deletedAt = none ∧ row.updatedAt = updatedAt := by
  refine read_eq_ok.trans ?_
  rw [Option.filter_eq_some_iff, Bool.and_eq_true, Option.isNone_iff_eq_none, decide_eq_true_iff]

theorem select_ne_error {refusal : Refusal} (hrow : store id = some row)
    (hlive : row.deletedAt = none) (hstamp : row.updatedAt = updatedAt) :
    store.select id updatedAt ≠ .error refusal := by
  rw [select_eq_ok.mpr ⟨hrow, hlive, hstamp⟩]
  simp

end OpenStore

theorem checkVersion_ne_documentChanged {body : MetadataBody} {content : DocumentContent} :
    checkVersion body content ≠ .error .documentChanged := by
  unfold checkVersion
  split
  · simp
  · split
    · simp
    · split <;> simp

theorem orBadRequest_ne_documentChanged {α : Type} {result : Except String α} :
    orBadRequest result ≠ .error .documentChanged := by
  cases result <;> simp [orBadRequest]

theorem orBadRequest_eq_ok {α : Type} {result : Except String α} {value : α} :
    orBadRequest result = .ok value ↔ result = .ok value := by
  cases result <;> simp [orBadRequest]

namespace OpenStore

/-- What `updateMetadata` writes. -/
theorem updateMetadata_eq_ok {body : MetadataBody}
    (hok : read.updateMetadata store choice now user id body = .ok after) :
    ∃ old data row, read id = some old ∧
      metadataData choice now body (old.edited id) = .ok data ∧ store id = some row ∧
      after = store.put id { row with
        content := metadataContent id body data row.content
        updatedAt := data.updatedAt } := by
  simp only [updateMetadata, Checks.accepts_bind, Checks.accepts_unless, Checks.accepts_pure,
    find_eq_ok, select_eq_ok, orBadRequest_eq_ok] at hok
  obtain ⟨old, ⟨hold, -⟩, -, -, -, _, -, data, hdata, row, ⟨hrow, -⟩, hafter⟩ := hok
  exact ⟨old, data, row, hold, hdata, hrow, hafter.symm⟩

/-- `updateMetadata` refuses a change when its transaction finds no row. -/
theorem updateMetadata_eq_documentChanged {body : MetadataBody}
    (hrefused : read.updateMetadata store choice now user id body = .error .documentChanged) :
    ∃ old, read id = some old ∧
      store.select id (body.expectedUpdatedAt.getD old.updatedAt) = .error .documentChanged := by
  simp only [updateMetadata, Checks.refuses_bind, Checks.refuses_unless, find_eq_ok,
    find_ne_documentChanged, checkVersion_ne_documentChanged, orBadRequest_ne_documentChanged,
    reduceCtorEq, false_or, or_false, and_false] at hrefused
  obtain ⟨old, ⟨hold, -⟩, -, -, -, _, -, data, -, hselect⟩ := hrefused
  obtain hselect | ⟨_, _, hput⟩ := hselect
  · exact ⟨old, hold, hselect⟩
  · cases hput

/-- What one document of `apply` writes. -/
theorem writeBulk_eq_ok {body : BulkBody}
    (hok : read.writeBulk choice now body store id = .ok after) :
    ∃ old data row, read id = some old ∧ bulkData choice now body (old.edited id) = .ok data ∧
      store id = some row ∧
      after = store.put id
        { row with content := row.content.write data, updatedAt := data.updatedAt } := by
  simp only [writeBulk, Checks.accepts_bind, Checks.accepts_pure, find_eq_ok, select_eq_ok,
    orBadRequest_eq_ok] at hok
  obtain ⟨old, ⟨hold, -⟩, data, hdata, row, ⟨hrow, -⟩, hafter⟩ := hok
  exact ⟨old, data, row, hold, hdata, hrow, hafter.symm⟩

theorem writeBulk_eq_documentChanged {body : BulkBody}
    (hrefused : read.writeBulk choice now body store id = .error .documentChanged) :
    ∃ old, read id = some old ∧ store.select id old.updatedAt = .error .documentChanged := by
  simp only [writeBulk, Checks.refuses_bind, find_eq_ok, find_ne_documentChanged,
    orBadRequest_ne_documentChanged, false_or] at hrefused
  obtain ⟨old, ⟨hold, -⟩, data, -, hselect⟩ := hrefused
  obtain hselect | ⟨_, _, hput⟩ := hselect
  · exact ⟨old, hold, hselect⟩
  · cases hput

/-- The other documents stay as they are. -/
theorem writeBulk_other {body : BulkBody} {other : String}
    (hok : read.writeBulk choice now body store id = .ok after) (hne : other ≠ id) :
    after other = store other := by
  obtain ⟨old, data, row, -, -, -, rfl⟩ := writeBulk_eq_ok hok
  exact put_of_ne hne

/-- What the transaction of `apply` writes, document by document. -/
theorem foldlM_writeBulk {body : BulkBody} {ids : List String} (hnodup : ids.Nodup)
    (hok : ids.foldlM (read.writeBulk choice now body) store = .ok after) :
    (id ∉ ids → after id = store id) ∧
    (id ∈ ids → ∃ old data row, read id = some old ∧
      bulkData choice now body (old.edited id) = .ok data ∧ store id = some row ∧
      after id = some
        { row with content := row.content.write data, updatedAt := data.updatedAt }) := by
  induction ids generalizing store with
  | nil =>
      rw [List.foldlM_nil, Checks.accepts_pure] at hok
      simp [hok]
  | cons first rest ih =>
      obtain ⟨hfirst, hrest⟩ := List.nodup_cons.mp hnodup
      rw [List.foldlM_cons, Checks.accepts_bind] at hok
      obtain ⟨next, hnext, hok⟩ := hok
      obtain ⟨hkept, hwritten⟩ := ih hrest hok
      by_cases hid : id = first
      · subst hid
        obtain ⟨old, data, row, hold, hdata, hrow, rfl⟩ := writeBulk_eq_ok hnext
        have hafter := (hkept hfirst).trans put_self
        exact ⟨fun hmem => absurd List.mem_cons_self hmem,
          fun _ => ⟨old, data, row, hold, hdata, hrow, hafter⟩⟩
      · have hsame := writeBulk_other hnext hid
        rw [hsame] at hkept hwritten
        simpa [hid] using And.intro hkept hwritten

/-- The transaction of `apply` refuses a change when it finds no row for a document. -/
theorem foldlM_writeBulk_documentChanged {body : BulkBody} {ids : List String}
    (hnodup : ids.Nodup)
    (hrefused : ids.foldlM (read.writeBulk choice now body) store = .error .documentChanged) :
    ∃ id ∈ ids, ∃ old, read id = some old ∧
      store.select id old.updatedAt = .error .documentChanged := by
  induction ids generalizing store with
  | nil => cases hrefused
  | cons first rest ih =>
      obtain ⟨hfirst, hrest⟩ := List.nodup_cons.mp hnodup
      rw [List.foldlM_cons, Checks.refuses_bind] at hrefused
      obtain hrefused | ⟨next, hnext, hrefused⟩ := hrefused
      · exact ⟨first, List.mem_cons_self, writeBulk_eq_documentChanged hrefused⟩
      · obtain ⟨id, hid, old, hold, hselect⟩ := ih hrest hrefused
        have hne : id ≠ first := fun heq => hfirst (heq ▸ hid)
        have hsame := writeBulk_other hnext hne
        refine ⟨id, List.mem_cons_of_mem first hid, old, hold, ?_⟩
        rwa [select, hsame] at hselect

theorem bulkApply_eq_ok {body : BulkBody}
    (hok : read.bulkApply store choice now user body = .ok after) :
    (body.documents.map Prod.fst).Nodup ∧
      (body.documents.map Prod.fst).foldlM (read.writeBulk choice now body) store = .ok after := by
  simp only [bulkApply, Checks.accepts_bind, Checks.accepts_unless, Checks.accepts_if] at hok
  obtain ⟨hnodup, -, _, -, -, _, -, _, -, hfold⟩ := hok
  exact ⟨hnodup, hfold⟩

theorem exists_ne_documentChanged :
    ((read.find id).map fun _ => ()) ≠ .error .documentChanged := by
  intro hrefused
  cases hfind : read.find id with
  | error refusal =>
      rw [hfind] at hrefused
      injection hrefused with hrefusal
      exact find_ne_documentChanged (hrefusal ▸ hfind)
  | ok row =>
      rw [hfind] at hrefused
      cases hrefused

theorem checkBulk_ne_documentChanged {body : BulkBody} {entry : String × Option Int} :
    read.checkBulk choice user body entry ≠ .error .documentChanged := by
  intro hrefused
  simp only [checkBulk, Checks.refuses_bind, find_ne_documentChanged, false_or] at hrefused
  obtain ⟨old, -, hrefused⟩ := hrefused
  split at hrefused
  · cases hrefused
  · cases hrefused

theorem checkStamp_eq_documentChanged {entry : String × Option Int}
    (hrefused : read.checkStamp entry = .error .documentChanged) :
    ∃ old, read entry.1 = some old ∧ entry.2 ≠ some old.updatedAt := by
  simp only [checkStamp, Checks.refuses_bind, find_eq_ok, find_ne_documentChanged,
    false_or] at hrefused
  obtain ⟨old, ⟨hold, -⟩, hrefused⟩ := hrefused
  split at hrefused
  · cases hrefused
  · next hne => exact ⟨old, hold, hne⟩

/-- `apply` refuses a change when a timestamp is not the one it has read, or when its
transaction finds no row. -/
theorem bulkApply_eq_documentChanged {body : BulkBody}
    (hrefused : read.bulkApply store choice now user body = .error .documentChanged) :
    ∃ entry ∈ body.documents, ∃ old, read entry.1 = some old ∧
      (entry.2 ≠ some old.updatedAt ∨
        store.select entry.1 old.updatedAt = .error .documentChanged) := by
  simp only [bulkApply, Checks.refuses_bind, Checks.refuses_unless, Checks.refuses_if,
    reduceCtorEq, and_false, or_false, false_or] at hrefused
  obtain ⟨hnodup, -, hrefused⟩ := hrefused
  obtain hfound | ⟨_, -, -, hrefused⟩ := hrefused
  · obtain ⟨entry, -, hfind⟩ := Checks.exists_refuses_of_forM hfound
    exact absurd hfind exists_ne_documentChanged
  obtain hchecks | ⟨_, -, hrefused⟩ := hrefused
  · obtain ⟨entry, -, hcheck⟩ := Checks.exists_refuses_of_forM hchecks
    exact absurd hcheck checkBulk_ne_documentChanged
  obtain hstamps | ⟨_, -, hfold⟩ := hrefused
  · obtain ⟨entry, hentry, hstamp⟩ := Checks.exists_refuses_of_forM hstamps
    obtain ⟨old, hold, hne⟩ := checkStamp_eq_documentChanged hstamp
    exact ⟨entry, hentry, old, hold, .inl hne⟩
  · obtain ⟨id, hid, old, hold, hselect⟩ := foldlM_writeBulk_documentChanged hnodup hfold
    obtain ⟨entry, hentry, rfl⟩ := List.mem_map.mp hid
    exact ⟨entry, hentry, old, hold, .inr hselect⟩

end OpenStore

end Requests

/-! ## Runs -/

theorem OpenRequest.performed_cases (store : OpenStore) (request : OpenRequest) :
    request.performed store = store ∨
      request.Succeeds store ∧
        request.operation.answer store request.now = .ok (request.performed store) := by
  obtain hsame | ⟨hrefused, hanswer⟩ := Checks.performed_cases request.refused
    (request.operation.answer store request.now) store
  · exact .inl hsame
  · exact .inr ⟨⟨hrefused, by rw [hanswer]; rfl⟩, hanswer⟩

theorem OpenOperation.answer_update {store after : OpenStore} {now : Int} {id : String}
    {change : RowUpdate}
    (hanswer : (OpenOperation.update id change).answer store now = .ok after) :
    ∃ row, store id = some row ∧ after = store.put id (change.apply now row) := by
  simp only [OpenOperation.answer] at hanswer
  split at hanswer
  next row hrow =>
    cases hanswer
    exact ⟨row, (Option.filter_eq_some_iff.mp hrow).1, rfl⟩
  next => cases hanswer

section Moves

variable {store : OpenStore} {id : String}

/-- A document is written: it stays as it was when its content does. -/
theorem sameStamp_or_changes_put {target : String} {row other : OpenDocument}
    (hrow : store target = some row)
    (hstamp : target = id → other.content = row.content → other.stamp = row.stamp) :
    SameStamp store (store.put target other) id ∨ Changes store (store.put target other) id := by
  by_cases hid : id = target
  · subst hid
    exact sameStamp_or_changes_of_row hrow OpenStore.put_self (hstamp rfl)
  · exact .inl (.of_eq (OpenStore.put_of_ne hid))

/-- The documents of a category that is deleted change; the others stay. -/
theorem sameStamp_or_changes_deleteCategory {after : OpenStore} {category : String} {now : Int}
    (hanswer : (OpenOperation.deleteCategory category).answer store now = .ok after) :
    SameStamp store after id ∨ Changes store after id := by
  cases hanswer
  cases hrow : store id with
  | none => exact .inl (.of_eq (by rw [hrow]; rfl))
  | some row =>
      by_cases hcategory : row.content.categoryId = some category
      · right
        intro hcontent
        have hsame := congrArg (Option.map DocumentContent.categoryId) hcontent
        simp [hrow, hcategory] at hsame
      · exact .inl (.of_eq (by simp [hrow, hcategory]))

/-- A new document has no content before. -/
theorem sameStamp_or_changes_create {after : OpenStore} {target : String} {row : OpenDocument}
    {now : Int} (hanswer : (OpenOperation.create target row).answer store now = .ok after) :
    SameStamp store after id ∨ Changes store after id := by
  simp only [OpenOperation.answer] at hanswer
  split at hanswer
  next => cases hanswer
  next hnew =>
    cases hanswer
    rw [Option.not_isSome_iff_eq_none] at hnew
    by_cases hid : id = target
    · subst hid
      exact .inr (by simp [Changes, hnew, OpenStore.put_self])
    · exact .inl (.of_eq (OpenStore.put_of_ne hid))

theorem sameStamp_or_changes_remove {after : OpenStore} {target : String} {now : Int}
    (hanswer : (OpenOperation.remove target).answer store now = .ok after) :
    SameStamp store after id ∨ Changes store after id := by
  cases hanswer
  by_cases hid : id = target
  · subst hid
    cases hrow : store id with
    | none => exact .inl (.of_eq (by rw [Function.update_self, hrow]))
    | some row => exact .inr (by simp [Changes, hrow])
  · exact .inl (.of_eq (Function.update_of_ne hid none store))

/-- A request moves the timestamp of a document only when it changes the document, or
writes what is already there. -/
theorem sameStamp_or_changes {request : OpenRequest} (hnoticed : ¬request.Unnoticed store id) :
    SameStamp store (request.performed store) id ∨ Changes store (request.performed store) id := by
  obtain hsame | ⟨hsucceeds, hanswer⟩ := request.performed_cases store
  · exact .inl (.of_eq (congrFun hsame id))
  generalize request.performed store = after at hanswer
  obtain ⟨operation, now, refused⟩ := request
  unfold OpenRequest.Unnoticed at hnoticed
  cases operation with
  | preview target =>
      cases hanswer
      exact .inl (.of_eq rfl)
  | update target change =>
      obtain ⟨row, hrow, rfl⟩ := OpenOperation.answer_update hanswer
      apply sameStamp_or_changes_put hrow
      intro hid hcontent
      by_contra hstamp
      refine hnoticed ⟨hsucceeds, row, hid ▸ hrow, hid, hcontent, ?_⟩
      simpa [OpenDocument.stamp, RowUpdate.apply, imp_iff_not_or] using hstamp
  | create target row => exact sameStamp_or_changes_create hanswer
  | deleteCategory category => exact sameStamp_or_changes_deleteCategory hanswer
  | remove target => exact sameStamp_or_changes_remove hanswer
  | updateMetadata read choice user target body =>
      obtain ⟨old, data, row, hold, hdata, hrow, rfl⟩ := OpenStore.updateMetadata_eq_ok hanswer
      apply sameStamp_or_changes_put hrow
      intro hid hcontent
      subst hid
      have hstamp : data.updatedAt = row.updatedAt := by
        by_contra hne
        exact hnoticed ⟨hsucceeds, row, hrow, rfl, old, data, hold, hdata, hcontent, hne⟩
      simp [OpenDocument.stamp, hstamp]
  | bulkApply read choice user body =>
      obtain ⟨hnodup, hfold⟩ := OpenStore.bulkApply_eq_ok hanswer
      by_cases hid : id ∈ body.documents.map Prod.fst
      · obtain ⟨old, data, row, hold, hdata, hrow, hafter⟩ :=
          (OpenStore.foldlM_writeBulk hnodup hfold).2 hid
        apply sameStamp_or_changes_of_row hrow hafter
        intro hcontent
        have hstamp : data.updatedAt = row.updatedAt := by
          by_contra hne
          exact hnoticed ⟨hsucceeds, row, hrow, hid, old, data, hold, hdata, hcontent, hne⟩
        simp [OpenDocument.stamp, hstamp]
      · exact .inl (.of_eq ((OpenStore.foldlM_writeBulk hnodup hfold).1 hid))

end Moves

theorem afterRequests_concat (store : OpenStore) (requests : List OpenRequest)
    (request : OpenRequest) :
    afterRequests store (requests ++ [request]) =
      request.performed (afterRequests store requests) := by
  rw [afterRequests, List.foldl_append]
  rfl

theorem ChangedDuring.append {store : OpenStore} {requests : List OpenRequest} {id : String}
    (hchanged : ChangedDuring store requests id) (later : List OpenRequest) :
    ChangedDuring store (requests ++ later) id := by
  obtain ⟨front, request, rest, rfl, hchanges⟩ := hchanged
  exact ⟨front, request, rest ++ later, by simp, hchanges⟩

/-- No request of the run writes to the document what is already there. -/
def AllNoticed (store : OpenStore) (requests : List OpenRequest) (id : String) : Prop :=
  ∀ front request rest, requests = front ++ request :: rest →
    ¬request.Unnoticed (afterRequests store front) id

theorem AllNoticed.of_append {store : OpenStore} {requests later : List OpenRequest}
    {id : String} (hnoticed : AllNoticed store (requests ++ later) id) :
    AllNoticed store requests id := by
  intro front request rest hrequests
  apply hnoticed front request (rest ++ later)
  rw [hrequests]
  simp

/-- Over a run the timestamp of a document stays, or a request changes the document. -/
theorem sameStamp_or_changedDuring {store : OpenStore} {requests : List OpenRequest}
    {id : String} (hnoticed : AllNoticed store requests id) :
    SameStamp store (afterRequests store requests) id ∨ ChangedDuring store requests id := by
  induction requests using List.reverseRecOn with
  | nil => exact .inl (.of_eq rfl)
  | append_singleton requests request ih =>
      obtain hsame | hchanged := ih hnoticed.of_append
      · obtain hstep | hstep := sameStamp_or_changes (hnoticed requests request [] rfl)
        · left
          rw [afterRequests_concat]
          exact hsame.trans hstep
        · exact .inr ⟨requests, request, [], rfl, hstep⟩
      · exact .inr (hchanged.append [request])

theorem allNoticed_singleton {store : OpenStore} {request : OpenRequest} {id : String}
    (hnoticed : ¬request.Unnoticed store id) : AllNoticed store [request] id := by
  intro front other rest hrequests
  cases front with
  | nil =>
      rw [List.nil_append, List.cons.injEq] at hrequests
      rw [← hrequests.1]
      exact hnoticed
  | cons first others => simp at hrequests

/-- The timestamps that the client submits are those of the documents when it opened them. -/
def Submission.OpenedIn (store : OpenStore) (submission : Submission) : Prop :=
  ∀ entry ∈ submission.expected, ∃ row, store entry.1 = some row ∧ row.deletedAt = none ∧
    entry.2 = some row.updatedAt

/-- A submission is refused as changed only when one of its documents has another timestamp
in the tables that it reads or in those that it writes. -/
theorem exists_not_sameStamp_of_conflict {store read write : OpenStore} {submission : Submission}
    {now : Int} (hopened : submission.OpenedIn store)
    (hconflict : (submission.operation read).answer write now = .error .documentChanged) :
    ∃ entry ∈ submission.expected,
      ¬(SameStamp store read entry.1 ∧ SameStamp store write entry.1) := by
  by_contra hall
  push Not at hall
  cases submission with
  | metadata choice user id body =>
      obtain ⟨old, hold, hselect⟩ := OpenStore.updateMetadata_eq_documentChanged hconflict
      obtain ⟨row, hrow, hlive, hexpected⟩ := hopened _ List.mem_cons_self
      obtain ⟨-, hwrite⟩ := hall _ List.mem_cons_self
      obtain ⟨other, hother, hstamp, htrash⟩ := hwrite.exists_row hrow
      apply OpenStore.select_ne_error hother (htrash.trans hlive) _ hselect
      have hgetD : body.expectedUpdatedAt.getD old.updatedAt = row.updatedAt :=
        congrArg (Option.getD · old.updatedAt) hexpected
      rw [hstamp, hgetD]
  | bulk choice user body =>
      obtain ⟨entry, hentry, old, hold, hcase⟩ := OpenStore.bulkApply_eq_documentChanged hconflict
      obtain ⟨row, hrow, hlive, hexpected⟩ := hopened entry hentry
      obtain ⟨hread, hwrite⟩ := hall entry hentry
      obtain ⟨found, hfound, hfoundStamp, -⟩ := hread.exists_row hrow
      obtain ⟨other, hother, hstamp, htrash⟩ := hwrite.exists_row hrow
      have hsame : old.updatedAt = row.updatedAt := by
        rw [hold, Option.some.injEq] at hfound
        rw [hfound, hfoundStamp]
      obtain hne | hselect := hcase
      · rw [hexpected, hsame] at hne
        exact hne rfl
      · exact OpenStore.select_ne_error hother (htrash.trans hlive) (hstamp.trans hsame.symm)
          hselect

/-- A client opens documents and submits an edit with their timestamps, which reads after the
requests `before` and writes after the requests `during`. When no request of others writes to
one of the documents what is already there, the edit is refused as changed only after a
request that changed one of them. -/
theorem conflict_only_after_change (store : OpenStore) (before during : List OpenRequest)
    (submission : Submission) (now : Int) (hopened : submission.OpenedIn store)
    (hnoticed : ∀ entry ∈ submission.expected, AllNoticed store (before ++ during) entry.1)
    (hconflict : (submission.operation (afterRequests store before)).answer
      (afterRequests store (before ++ during)) now = .error .documentChanged) :
    ∃ entry ∈ submission.expected, ChangedDuring store (before ++ during) entry.1 := by
  obtain ⟨entry, hentry, hstamps⟩ := exists_not_sameStamp_of_conflict hopened hconflict
  refine ⟨entry, hentry, ?_⟩
  obtain hread | hchanged := sameStamp_or_changedDuring (hnoticed entry hentry).of_append
  · obtain hwrite | hchanged := sameStamp_or_changedDuring (hnoticed entry hentry)
    · exact absurd ⟨hread, hwrite⟩ hstamps
    · exact hchanged
  · exact hchanged.append during

/-! ## Requests that read -/

def RowUpdate.reads : RowUpdate → Bool
  | .one | .download => true
  | _ => false

/-- `one`, `preview` and `download`. -/
def OpenOperation.reads : OpenOperation → Bool
  | .preview _ => true
  | .update _ change => change.reads
  | _ => false

theorem RowUpdate.content_of_reads {change : RowUpdate} (hreads : change.reads = true) (now : Int)
    (content : DocumentContent) : change.content now content = content := by
  cases change <;> first | rfl | cases hreads

/-- A request that reads changes no document. -/
theorem not_changes_of_reads {store : OpenStore} {request : OpenRequest} {id : String}
    (hreads : request.operation.reads = true) : ¬Changes store (request.performed store) id := by
  rw [Changes, not_not]
  obtain hsame | ⟨-, hanswer⟩ := request.performed_cases store
  · rw [hsame]
  generalize request.performed store = after at hanswer
  obtain ⟨operation, now, refused⟩ := request
  cases operation with
  | preview target =>
      cases hanswer
      rfl
  | update target change =>
      obtain ⟨row, hrow, rfl⟩ := OpenOperation.answer_update hanswer
      by_cases hid : id = target
      · rw [hid, OpenStore.put_self, hrow, Option.map_some, Option.map_some]
        exact congrArg some (RowUpdate.content_of_reads hreads now row.content)
      · rw [OpenStore.put_of_ne hid]
  | create | deleteCategory | remove | updateMetadata | bulkApply => cases hreads

theorem not_changedDuring_of_reads {store : OpenStore} {requests : List OpenRequest} {id : String}
    (hreads : ∀ request ∈ requests, request.operation.reads = true) :
    ¬ChangedDuring store requests id := by
  intro hchanged
  obtain ⟨front, request, rest, rfl, hchanges⟩ := hchanged
  exact not_changes_of_reads (hreads request (by simp)) hchanges

/-! ## A view of the document -/

/-- A published document, as the client opened it. -/
def openGuide : OpenDocument where
  spaceId := "it"
  content := ⟨none, none, [⟨"guide", "en", "Guide", none⟩], [⟨"v1", "guide", "en", 1⟩], .published,
    none, none, false, .center, none, none, none⟩
  viewCount := 0
  downloadCount := 0
  updatedAt := 1
  deletedAt := none
  destroyedAt := none

def openStore : OpenStore := fun id => if id = "guide" then some openGuide else none

/-- A client who may edit everywhere gives the document another title. -/
def titleSubmission : Submission :=
  .metadata ⟨fun _ _ _ => true, fun _ => none, fun _ => none, 0, []⟩ "ada" "guide"
    ⟨"en", "Handbook", none, none, none, none, some 1⟩

theorem titleSubmission_openedIn : titleSubmission.OpenedIn openStore := by
  intro entry hentry
  rw [List.mem_singleton.mp hentry]
  exact ⟨openGuide, rfl, rfl, rfl⟩

/-- Another user takes the lock of the document. -/
def bobLocks : OpenRequest := ⟨.update "guide" (.lock "bob"), 2, false⟩

/-- Another user opens the document. -/
def bobViews : OpenRequest := ⟨.update "guide" .one, 2, false⟩

/-- The edit is refused after the other user has taken the lock. -/
theorem conflict_only_after_change_lock :
    (titleSubmission.operation (afterRequests openStore [bobLocks])).answer
        (afterRequests openStore ([bobLocks] ++ [])) 3 = .error .documentChanged ∧
      ∃ entry ∈ titleSubmission.expected, ChangedDuring openStore ([bobLocks] ++ []) entry.1 := by
  refine ⟨rfl, ?_⟩
  apply conflict_only_after_change openStore [bobLocks] [] titleSubmission 3
    titleSubmission_openedIn
  · intro entry _
    apply allNoticed_singleton
    intro hunnoticed
    obtain ⟨-, row, hrow, hid, hcontent, -⟩ := hunnoticed
    rw [← hid] at hrow
    cases hrow
    exact absurd hcontent (by decide)
  · rfl

/-- The edit is refused after the other user has only opened the document. -/
theorem view_causes_conflict :
    titleSubmission.OpenedIn openStore ∧
      (titleSubmission.operation (afterRequests openStore [bobViews])).answer
        (afterRequests openStore ([bobViews] ++ [])) 3 = .error .documentChanged ∧
      ¬∃ entry ∈ titleSubmission.expected, ChangedDuring openStore ([bobViews] ++ []) entry.1 := by
  refine ⟨titleSubmission_openedIn, rfl, ?_⟩
  intro hchanged
  obtain ⟨entry, -, hchanged⟩ := hchanged
  apply not_changedDuring_of_reads _ hchanged
  intro request hrequest
  rw [List.mem_singleton.mp hrequest]
  rfl

end IsmsPortal
