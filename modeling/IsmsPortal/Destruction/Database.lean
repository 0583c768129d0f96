import IsmsPortal.Foundation.Query
import IsmsPortal.Foundation.Table

/-! # Documents, files and retention policies

The tables that retention and destruction work on, the objects in storage, and
the clock. Times are milliseconds. An object key names the document it was
created for, as the upload path does; it is also the identity of the stored
file row, since both are unique and created together. Keys and row ids
are random: one that was given out is never given out again, so the database
remembers them, with the process that created them. The last three fields of
the store are this record; no statement of the program reads them.
-/

namespace IsmsPortal

open Foundation

/-- Path of an object: the document it belongs to and a random name. -/
structure ObjectKey where
  document : String
  name : String
deriving DecidableEq

inductive DestructionStatus
  | none
  | due
  | requested
  | approved
  | rejected
  | destroying
  | destroyed
deriving DecidableEq

/-- A row of `RetentionPolicy`. The last field is not in the table: it records
the request the approver had read. -/
structure RetentionPolicy where
  id : String
  documentId : String
  retentionUntil : Option Int
  legalHold : Bool
  destructionStatus : DestructionStatus
  requestedBy : Option String
  requestedAt : Option Int
  approvedBy : Option String
  approvedAt : Option Int
  destroyedAt : Option Int
  updatedAt : Int
  approvedFor : Option (Option String × Option Int)
deriving DecidableEq

inductive DocumentStatus
  | draft
  | published
  | archived
  | quarantined
deriving DecidableEq

/-- A row of `Document`. -/
structure Document where
  id : String
  status : DocumentStatus
  sensitive : Bool
  deletedAt : Option Int
  destroyedAt : Option Int
  updatedAt : Int
deriving DecidableEq

/-- A row of `DocumentVersion`. -/
structure DocumentVersion where
  id : String
  documentId : String
  locale : String
  version : Nat
  storedFile : ObjectKey
  distributedStoredFile : Option ObjectKey
deriving DecidableEq

/-- A row of `StoredFile`. -/
structure StoredFile where
  objectKey : ObjectKey
  purgedAt : Option Int
deriving DecidableEq

/-- The files a version refers to. -/
def DocumentVersion.Refers (version : DocumentVersion) (key : ObjectKey) : Prop :=
  version.storedFile = key ∨ version.distributedStoredFile = some key

instance (version : DocumentVersion) (key : ObjectKey) : Decidable (version.Refers key) :=
  inferInstanceAs (Decidable (_ ∨ _))

/-- The shared store. -/
structure Database where
  clock : Int
  policies : List RetentionPolicy
  documents : List Document
  versions : List DocumentVersion
  storedFiles : List StoredFile
  /-- Objects present in storage. -/
  objects : List ObjectKey
  /-- Object keys ever used, with the process that used them. -/
  issuedKeys : List (ObjectKey × Nat)
  /-- Row ids ever used, with the process that used them. -/
  issuedIds : List (String × Nat)
  /-- Ids of deleted documents. -/
  retiredIds : List String
deriving DecidableEq

namespace Database

/-- The database before anything was uploaded. -/
def empty (clock : Int) : Database := ⟨clock, [], [], [], [], [], [], [], []⟩

/-! ## Statements on one table -/

/-- `retentionPolicy.update`. The column `updatedAt` follows every update. -/
def updatePolicies (db : Database) (selects : RetentionPolicy → Bool)
    (data : RetentionPolicy → RetentionPolicy) : Database where
  __ := db
  policies := db.policies.map fun policy =>
    if selects policy then { data policy with updatedAt := db.clock } else policy

/-- `document.update`. -/
def updateDocuments (db : Database) (selects : Document → Bool) (data : Document → Document) :
    Database where
  __ := db
  documents := db.documents.map fun document =>
    if selects document then { data document with updatedAt := db.clock } else document

def updateVersions (db : Database) (selects : DocumentVersion → Bool)
    (data : DocumentVersion → DocumentVersion) : Database where
  __ := db
  versions := db.versions.map fun version => if selects version then data version else version

def createVersion (db : Database) (version : DocumentVersion) : Database where
  __ := db
  versions := db.versions ++ [version]

def createStoredFile (db : Database) (key : ObjectKey) : Database where
  __ := db
  storedFiles := db.storedFiles ++ [⟨key, none⟩]

/-- `storage.putObject` with a key no object had before. -/
def putObject (db : Database) (process : Nat) (key : ObjectKey) : Database where
  __ := db
  objects := db.objects ++ [key]
  issuedKeys := db.issuedKeys ++ [(key, process)]

/-- `storage.removeObject`. -/
def removeObject (db : Database) (key : ObjectKey) : Database where
  __ := db
  objects := db.objects.filter (· ≠ key)

/-- A random id for a new row. -/
def issueId (db : Database) (process : Nat) (id : String) : Database where
  __ := db
  issuedIds := db.issuedIds ++ [(id, process)]

/-! ## Reads -/

def findDocument (db : Database) (id : String) : Option Document :=
  db.documents.find? fun document => document.id = id

/-- A document that is not in the trash. -/
def findActiveDocument (db : Database) (id : String) : Option Document :=
  db.documents.find? fun document => document.id = id ∧ document.deletedAt = none

def versionsOf (db : Database) (documentId : String) : List DocumentVersion :=
  db.versions.filter fun version => version.documentId = documentId

/-- The stored files of a document, source and distributed. -/
def filesOf (db : Database) (documentId : String) : List StoredFile :=
  db.storedFiles.filter fun file =>
    (db.versionsOf documentId).any fun version => version.Refers file.objectKey

/-- The newest version of a document in one language. -/
def latestVersion (db : Database) (documentId locale : String) : Option DocumentVersion :=
  Query.findFirst (fun version => version.documentId = documentId ∧ version.locale = locale)
    (fun left right => right.version ≤ left.version) db.versions

def policyOf (db : Database) (documentId : String) : Option RetentionPolicy :=
  db.policies.find? fun policy => policy.documentId = documentId

/-- A name that does not occur in a list of names and creators. -/
def Fresh {κ : Type} (issued : List (κ × Nat)) (name : κ) : Prop :=
  ∀ entry ∈ issued, entry.1 ≠ name

instance {κ : Type} [DecidableEq κ] (issued : List (κ × Nat)) (name : κ) :
    Decidable (Fresh issued name) :=
  inferInstanceAs (Decidable (∀ entry ∈ issued, _))

abbrev FreshKey (db : Database) (key : ObjectKey) : Prop := Fresh db.issuedKeys key

abbrev FreshId (db : Database) (id : String) : Prop := Fresh db.issuedIds id

end Database

end IsmsPortal
