import IsmsPortal.Foundation.JsString
import IsmsPortal.Foundation.Locking
import IsmsPortal.Foundation.Table

/-! # Requests that edit documents

`updateMetadata`, the bulk `apply` and `updateCategory` of documents, one
statement after the other. A request reads the documents and checks the rights
of its user, and writes in a transaction afterwards. Its `updateMany` selects a
document by the timestamp or the category it had, takes the row if it finds it
and gives up otherwise. What a transaction has written is seen by others from
its commit on; until then the rows are locked.
-/

namespace IsmsPortal

open Foundation

/-! ## Metadata -/

/-- The text fields of a document. -/
abbrev Metadata : Type := List (String × String)

def getField (metadata : Metadata) (name : String) : Option String :=
  (metadata.find? fun field => field.1 = name).map Prod.snd

/-- A field takes the place of the field with its name. -/
def setField (metadata : Metadata) (field : String × String) : Metadata :=
  if metadata.any fun other => other.1 = field.1 then
    metadata.map fun other => if other.1 = field.1 then field else other
  else metadata ++ [field]

/-- `mergeMetadata`, without the validation of its result. -/
def mergeMetadata (previous patch : Option Metadata) : Metadata :=
  (patch.getD []).foldl setField (previous.getD [])

/-- A row of `DocumentType`. -/
structure DocumentType where
  nameFr : String
  requiredFields : List String
  referencePrefix : Option String

/-- The field is missing or blank. -/
def isBlank (metadata : Metadata) (name : String) : Bool :=
  (getField metadata name).all fun text => JsString.trim text = ""

/-- `padStart` of a number to three digits. -/
def padNumber (number : Nat) : String :=
  String.ofList (List.replicate (3 - (toString number).length) '0') ++ toString number

def missingFields (type : DocumentType) (metadata : Metadata) : List String :=
  type.requiredFields.filter (isBlank metadata)

/-- `applyDocumentType`, with the table of types and the number that the type gives out. -/
def applyDocumentType (types : String → Option DocumentType) (number : Nat) (metadata : Metadata) :
    Except String Metadata :=
  let slug := JsString.trim ((getField metadata "ged.documentType").getD "")
  match if slug = "" then none else types slug with
  | none => .ok metadata
  | some type =>
      let result := match type.referencePrefix.filter (· ≠ "") with
        | some text =>
            if isBlank metadata "ged.reference" then
              setField metadata ("ged.reference", text ++ "-" ++ padNumber number)
            else metadata
        | none => metadata
      if (missingFields type result).isEmpty then .ok result
      else .error ("Required fields for type " ++ type.nameFr ++ ": " ++
        ", ".intercalate (missingFields type result))

/-! ## Tables -/

/-- A row of `Document`. -/
structure EditedDocument where
  id : String
  spaceId : String
  categoryId : Option String
  metadata : Option Metadata
  updatedAt : Int
  deletedAt : Option Int
deriving DecidableEq

/-- A row of `DocumentTranslation`. -/
structure Translation where
  documentId : String
  locale : String
  title : String
  description : Option String
deriving DecidableEq

/-- A row of `DocumentVersion`. -/
structure EditedVersion where
  id : String
  documentId : String
  locale : String
  version : Nat
deriving DecidableEq

structure EditStore where
  clock : Int
  documents : List EditedDocument
  translations : List Translation
  versions : List EditedVersion
  /-- Every value that the column `updatedAt` of a document has had. -/
  stamps : List (String × Int)
  documentIds : (documents.map EditedDocument.id).Nodup
deriving DecidableEq

/-- The columns of a document that a statement writes. -/
structure DocumentData where
  categoryId : Option (Option String)
  metadata : Option Metadata
  updatedAt : Int
deriving DecidableEq

/-- The row after the statement. -/
def DocumentData.write (data : DocumentData) (row : EditedDocument) : EditedDocument where
  __ := row
  categoryId := data.categoryId.getD row.categoryId
  metadata := data.metadata.or row.metadata
  updatedAt := data.updatedAt

/-- What a transaction has written: documents, as they were read and with the new values,
the language of a version, and a translation. -/
structure Transaction where
  writes : List (EditedDocument × DocumentData)
  locale : Option (String × String)
  translation : Option Translation
deriving DecidableEq

/-- The row after the writes of a transaction. -/
def written (writes : List (EditedDocument × DocumentData)) (row : EditedDocument) :
    EditedDocument :=
  match writes.find? fun entry => entry.1.id = row.id with
  | some entry => entry.2.write row
  | none => row

theorem written_id (writes : List (EditedDocument × DocumentData)) (row : EditedDocument) :
    (written writes row).id = row.id := by
  unfold written
  split <;> rfl

namespace EditStore

/-- `documentTranslation.upsert`. -/
def upsertTranslation (translations : List Translation) (row : Translation) : List Translation :=
  if translations.any fun other =>
      other.documentId = row.documentId && other.locale = row.locale then
    translations.map fun other =>
      if other.documentId = row.documentId && other.locale = row.locale then row else other
  else translations ++ [row]

/-- The end of a transaction. -/
def commit (store : EditStore) (transaction : Transaction) : EditStore where
  clock := store.clock
  documents := store.documents.map (written transaction.writes)
  translations := transaction.translation.elim store.translations
    (upsertTranslation store.translations)
  versions := transaction.locale.elim store.versions fun move =>
    store.versions.map fun version =>
      if version.id = move.1 then { version with locale := move.2 } else version
  stamps := store.stamps ++ (store.documents.map (written transaction.writes)).map fun row =>
    (row.id, row.updatedAt)
  documentIds := by
    rw [List.map_map, show EditedDocument.id ∘ written transaction.writes = EditedDocument.id from
      funext (written_id transaction.writes)]
    exact store.documentIds

/-- A document that is not in the trash. -/
def findDocument (store : EditStore) (id : String) : Option EditedDocument :=
  store.documents.find? fun row => row.id = id && row.deletedAt.isNone

/-- A version of the document with the number is in the language already. -/
def versionTaken (store : EditStore) (version : EditedVersion) (locale : String) : Bool :=
  store.versions.any fun other => other.documentId = version.documentId &&
    other.locale = locale && other.version = version.version && other.id ≠ version.id

end EditStore

/-! ## Bodies -/

/-- The body of `updateMetadata`. -/
structure MetadataBody where
  locale : String
  title : String
  description : Option String
  metadata : Option Metadata
  versionId : Option String
  categoryId : Option (Option String)
  expectedUpdatedAt : Option Int
deriving DecidableEq

/-- The body of `apply`. A text that is no timestamp equals none. -/
structure BulkBody where
  documents : List (String × Option Int)
  metadata : Option Metadata
  categoryId : Option (Option String)
deriving DecidableEq

/-- What the environment decides in a statement: who may edit in a space and category, the
spaces of the live categories, the document types, and the order of an answer. -/
structure EditChoice where
  permits : String → String → Option String → Bool
  categorySpace : String → Option String
  types : String → Option DocumentType
  number : Nat
  order : List EditedDocument

/-- The fields of a body with its document type, if it has fields. -/
def typedMetadata (choice : EditChoice) : Option Metadata → Except String (Option Metadata)
  | none => .ok none
  | some metadata => (applyDocumentType choice.types choice.number metadata).map some

/-- The columns that `updateMetadata` writes. -/
def metadataData (choice : EditChoice) (now : Int) (body : MetadataBody) (read : EditedDocument) :
    Except String DocumentData := do
  let metadata ← typedMetadata choice body.metadata
  return ⟨body.categoryId.filter (· ≠ read.categoryId), metadata, max now (read.updatedAt + 1)⟩

/-- The columns that `apply` writes. -/
def bulkData (choice : EditChoice) (now : Int) (body : BulkBody) (read : EditedDocument) :
    Except String DocumentData := do
  let metadata ← applyDocumentType choice.types choice.number
    (mergeMetadata read.metadata body.metadata)
  return ⟨some (body.categoryId.getD read.categoryId), some metadata, max now (read.updatedAt + 1)⟩

/-! ## Statements -/

/-- The user of a request, with the places where the user was found to have edit. -/
structure Editor where
  user : String
  checked : List (String × Option String)
deriving DecidableEq

/-- Where a request is, with what it has read. -/
inductive EditRequest
  | metadata (user id : String) (body : MetadataBody)
  | metadataVersion (editor : Editor) (body : MetadataBody) (read : EditedDocument)
  | metadataDuplicate (editor : Editor) (body : MetadataBody) (read : EditedDocument)
      (version : EditedVersion)
  | metadataWrite (editor : Editor) (body : MetadataBody) (read : EditedDocument)
      (version : Option EditedVersion)
  | metadataLocale (editor : Editor) (body : MetadataBody) (read : EditedDocument)
      (version : Option EditedVersion) (data : DocumentData)
  | bulk (user : String) (body : BulkBody)
  | bulkChecks (user : String) (body : BulkBody) (read : List EditedDocument)
  | bulkWrite (editor : Editor) (body : BulkBody) (done : List (EditedDocument × DocumentData))
      (remaining : List EditedDocument)
  | category (user id : String) (categoryId : Option String)
  | categoryWrite (editor : Editor) (read : EditedDocument) (categoryId : Option String)
  | commit (editor : Editor) (transaction : Transaction)
deriving DecidableEq

namespace EditRequest

/-- The condition of the `updateMany` that comes next. -/
def selects : EditRequest → EditedDocument → Bool
  | .metadataWrite _ body read _, row => row.id = read.id && row.deletedAt.isNone &&
      row.updatedAt = body.expectedUpdatedAt.getD read.updatedAt
  | .bulkWrite _ _ _ (read :: _), row =>
      row.id = read.id && row.deletedAt.isNone && row.updatedAt = read.updatedAt
  | .categoryWrite _ read _, row => row.id = read.id && row.deletedAt.isNone &&
      row.spaceId = read.spaceId && row.categoryId = read.categoryId
  | _, _ => false

/-- What the open transaction of the request has written to documents. -/
def writes : EditRequest → List (EditedDocument × DocumentData)
  | .metadataLocale _ _ read _ data => [(read, data)]
  | .bulkWrite _ _ done _ => done
  | .commit _ transaction => transaction.writes
  | _ => []

def initial : EditRequest → Bool
  | .metadata .. | .bulk .. | .category .. => true
  | _ => false

end EditRequest

/-- The category is in the space. -/
def inSpace (choice : EditChoice) (spaceId : String) (categoryId : Option String) : Bool :=
  categoryId.all fun category => choice.categorySpace category = some spaceId

/-- The checks of `updateMetadata` on the document it has read. -/
def metadataPermitted (choice : EditChoice) (user : String) (body : MetadataBody)
    (read : EditedDocument) : Bool :=
  choice.permits user read.spaceId read.categoryId &&
    inSpace choice read.spaceId body.categoryId.join &&
    body.categoryId.all fun target =>
      target = read.categoryId || choice.permits user read.spaceId target

/-- The places that `updateMetadata` has checked. -/
def metadataPlaces (body : MetadataBody) (read : EditedDocument) : List (String × Option String) :=
  (read.spaceId, read.categoryId) ::
    (body.categoryId.filter (· ≠ read.categoryId)).toList.map fun target => (read.spaceId, target)

/-- The checks of `bulkPreview` on one document. -/
def bulkAllowed (choice : EditChoice) (user : String) (body : BulkBody) (read : EditedDocument) :
    Bool :=
  choice.permits user read.spaceId read.categoryId &&
    (body.categoryId.all fun target => choice.permits user read.spaceId target) &&
    inSpace choice read.spaceId body.categoryId.join

/-- The checks on one document, and the timestamp that `apply` asks for. -/
def bulkPermitted (choice : EditChoice) (user : String) (body : BulkBody) (read : EditedDocument) :
    Bool :=
  bulkAllowed choice user body read &&
    (body.documents.find? fun entry => entry.1 = read.id).any fun entry =>
      entry.2 = some read.updatedAt

/-- The places that `bulkPreview` has checked for one document. -/
def bulkPlaces (body : BulkBody) (read : EditedDocument) : List (String × Option String) :=
  (read.spaceId, read.categoryId) :: body.categoryId.toList.map fun target => (read.spaceId, target)

/-- The translation that `updateMetadata` writes. -/
def bodyTranslation (body : MetadataBody) (documentId : String) : Translation where
  documentId := documentId
  locale := body.locale
  title := JsString.trim body.title
  description := (body.description.map JsString.trim).filter (· ≠ "")

/-- The `updateMany` of the request: it goes on with the row, or the request ends. -/
def attempt (store : EditStore) (process : EditRequest) (data : Except String DocumentData)
    (next : DocumentData → EditRequest) : Option EditRequest × EditStore :=
  match data with
  | .error _ => (none, store)
  | .ok data => if store.documents.any process.selects then (some (next data), store)
      else (none, store)

def editAdvance (choice : EditChoice) (store : EditStore) :
    EditRequest → Option (Option EditRequest × EditStore)
  | .metadata user id body =>
      match store.findDocument id with
      | none => some (none, store)
      | some read =>
          if metadataPermitted choice user body read then
            some (some (.metadataVersion ⟨user, metadataPlaces body read⟩ body read), store)
          else some (none, store)
  | .metadataVersion editor body read =>
      match body.versionId with
      | none => some (some (.metadataWrite editor body read none), store)
      | some versionId =>
          match store.versions.find? fun version =>
              version.id = versionId && version.documentId = read.id with
          | none => some (none, store)
          | some version =>
              if version.locale = body.locale then
                some (some (.metadataWrite editor body read (some version)), store)
              else some (some (.metadataDuplicate editor body read version), store)
  | .metadataDuplicate editor body read version =>
      if store.versionTaken version body.locale then some (none, store)
      else some (some (.metadataWrite editor body read (some version)), store)
  | .metadataWrite editor body read version =>
      some (attempt store (.metadataWrite editor body read version)
        (metadataData choice store.clock body read) (.metadataLocale editor body read version))
  | .metadataLocale editor body read version data =>
      match version.filter fun version => version.locale ≠ body.locale with
      | none => some (some (.commit editor
          ⟨[(read, data)], none, some (bodyTranslation body read.id)⟩), store)
      | some version =>
          if store.versionTaken version body.locale then some (none, store)
          else some (some (.commit editor ⟨[(read, data)], some (version.id, body.locale),
            some (bodyTranslation body read.id)⟩), store)
  | .bulk user body =>
      let found := store.documents.filter fun row =>
        row.id ∈ body.documents.map Prod.fst && row.deletedAt.isNone
      if ¬(body.documents.map Prod.fst).Nodup ∨
          (body.categoryId.isNone ∧ (body.metadata.getD []).isEmpty) then some (none, store)
      -- The query has no order.
      else if choice.order.Perm found then
        if found.length = body.documents.length then
          some (some (.bulkChecks user body choice.order), store)
        else some (none, store)
      else none
  | .bulkChecks user body read =>
      if read.all (bulkPermitted choice user body) then
        some (some (.bulkWrite ⟨user, read.flatMap (bulkPlaces body)⟩ body [] read), store)
      else some (none, store)
  | .bulkWrite editor _ done [] => some (some (.commit editor ⟨done, none, none⟩), store)
  | .bulkWrite editor body done (read :: rest) =>
      some (attempt store (.bulkWrite editor body done (read :: rest))
        (bulkData choice store.clock body read)
        fun data => .bulkWrite editor body (done ++ [(read, data)]) rest)
  | .category user id categoryId =>
      match store.findDocument id with
      | none => some (none, store)
      | some read =>
          if choice.permits user read.spaceId read.categoryId &&
              inSpace choice read.spaceId categoryId &&
              choice.permits user read.spaceId categoryId then
            some (some (.categoryWrite
              ⟨user, [(read.spaceId, read.categoryId), (read.spaceId, categoryId)]⟩
              read categoryId), store)
          else some (none, store)
  -- The column `updatedAt` follows an update that does not set it.
  | .categoryWrite editor read categoryId =>
      some (attempt store (.categoryWrite editor read categoryId)
        (.ok ⟨some categoryId, none, store.clock⟩)
        fun data => .commit editor ⟨[(read, data)], none, none⟩)
  | .commit _ transaction => some (none, store.commit transaction)

def editProgram : Concurrent EditStore EditRequest EditChoice where
  drift time store := if store.clock ≤ time then some { store with clock := time } else none
  start := EditRequest.initial
  advance _ := editAdvance

abbrev EditConfig : Type := Concurrent.Config EditStore EditRequest

abbrev EditMove : Type := Concurrent.Move EditRequest EditChoice

/-- The stamps are those of the documents, and no later than the last one. -/
def EditStore.Stamped (store : EditStore) : Prop :=
  ∀ row ∈ store.documents, (row.id, row.updatedAt) ∈ store.stamps ∧
    ∀ stamp, (row.id, stamp) ∈ store.stamps → stamp ≤ row.updatedAt

abbrev editSystem : System EditConfig EditMove := editProgram.system EditStore.Stamped

/-- A transaction holds the rows it has written; the next statement writes the row it
selects. -/
def editLocks : Concurrent.Locks EditStore EditRequest String where
  holds process := process.writes.map fun entry => entry.1.id
  wants store process := (store.documents.filter process.selects).map EditedDocument.id

end IsmsPortal
