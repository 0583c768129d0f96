import IsmsPortal.Publication.Export
import IsmsPortal.Publication.Watermark
import IsmsPortal.Storage.Routing

/-! # A sensitivity change that fails

The switch to sensitive is committed before the copies are prepared, and each copy is an object, a
row and a reference that are written one after the other. When a step fails, the object of that copy
is removed and the switch is taken back, but not the position of the watermark that was written with
it.
-/

namespace IsmsPortal.Sensitivity

open Foundation

/-! ## Rows -/

/-- A row of `StoredFile`. -/
structure FileRow where
  id : String
  objectKey : String
  originalName : String
  mimeType : String
  size : Nat
  sha256 : String
  scan : ScanStatus
deriving DecidableEq

/-- A row of `DocumentVersion` with its source. -/
structure VersionRow where
  id : String
  documentId : String
  locale : String
  version : Nat
  storedFile : FileRow
  distributedStoredFileId : Option String
deriving DecidableEq

/-- A row of `Document`. -/
structure DocumentRow where
  id : String
  spaceId : String
  categoryId : Option String
  status : DocumentStatus
  sensitive : Bool
  watermarkPosition : WatermarkPosition
  deletedAt : Option Int
deriving DecidableEq

/-- A row of `SensitiveShare`. -/
structure ShareRow where
  documentId : String
  revokedAt : Option Int
deriving DecidableEq

/-- An event of the journal. -/
structure JournalRow where
  action : String
  resource : String
  result : String
  sensitive : Bool
deriving DecidableEq

/-- The tables and the objects of the storage. -/
structure Store where
  documents : List DocumentRow
  versions : List VersionRow
  storedFiles : List FileRow
  shares : List ShareRow
  journal : List JournalRow
  objects : List (String × List UInt8)
  documentIds : (documents.map DocumentRow.id).Nodup
  versionIds : (versions.map VersionRow.id).Nodup
  /-- A version refers to files that exist. -/
  references : ∀ version ∈ versions, ∀ id, version.distributedStoredFileId = some id →
    id ∈ storedFiles.map FileRow.id

/-- The statements and calls that may fail, of a version where there is one for each. -/
inductive Effect
  | update
  | read
  | getBuffer (version : String)
  | scan (version : String)
  | putObject (version : String)
  | createFile (version : String)
  | updateVersion (version : String)
  | removeObject (version : String)
  | rollback
  | revoke
  | record
deriving DecidableEq

/-- What the other services answer. -/
structure Environment where
  /-- The message with which an effect fails. -/
  failure : Effect → Option String
  tools : WatermarkTools
  scan : List UInt8 → ScanStatus
  sha256 : List UInt8 → String
  toLowerCase : List Char → List Char
  /-- The identifiers that are drawn for a copy and for its row. -/
  randomUUID : String → String
  fileId : String → String
  clock : Int

def Environment.attempt (env : Environment) (effect : Effect) : Except String Unit :=
  match env.failure effect with
  | none => .ok ()
  | some message => .error message

namespace Store

variable (store : Store)

def keys : List String := store.objects.map Prod.fst

def putObject (key : String) (content : List UInt8) : Store :=
  { store with objects := store.objects.filter (·.1 ≠ key) ++ [(key, content)] }

def removeObject (key : String) : Store :=
  { store with objects := store.objects.filter (·.1 ≠ key) }

def createFile (row : FileRow) : Except String Store :=
  if row.id ∈ store.storedFiles.map FileRow.id ∨
      row.objectKey ∈ store.storedFiles.map FileRow.objectKey then
    .error "Unique constraint failed"
  else .ok { store with
    storedFiles := store.storedFiles ++ [row]
    references := by
      intro version hversion id hid
      rw [List.map_append, List.mem_append]
      exact .inl (store.references version hversion id hid) }

/-- `documentVersion.update` of the copy. -/
def distribute (versionId fileId : String) : Except String Store :=
  if hfile : fileId ∈ store.storedFiles.map FileRow.id then
    .ok { store with
      versions := Table.update VersionRow.id versionId
        (fun row => { row with distributedStoredFileId := some fileId }) store.versions
      versionIds := by
        rw [Table.map_update]
        · exact store.versionIds
        · intro row
          rfl
      references := by
        intro version hversion id hid
        obtain ⟨row, hrow, rfl⟩ := List.mem_map.mp hversion
        split at hid
        · rwa [← Option.some.inj hid]
        · exact store.references row hrow id hid }
  else .error "Foreign key constraint failed"

/-- `document.update` of columns other than the id. -/
def updateDocument (id : String) (f : DocumentRow → DocumentRow) (hf : ∀ row, (f row).id = row.id) :
    Store :=
  { store with
    documents := Table.update DocumentRow.id id f store.documents
    documentIds := by
      rw [Table.map_update hf]
      exact store.documentIds }

def revokeShares (documentId : String) (revokedAt : Int) : Store :=
  { store with
    shares := store.shares.map fun row =>
      if row.documentId = documentId ∧ row.revokedAt = none then
        { row with revokedAt := some revokedAt }
      else row }

def record (row : JournalRow) : Store := { store with journal := store.journal ++ [row] }

end Store

/-! ## Preparation -/

section Preparation

variable (env : Environment)

def latestVersions (versions : List VersionRow) : List VersionRow :=
  versions.filter fun version => !versions.any fun candidate =>
    candidate.locale = version.locale && candidate.version > version.version

/-- The lower-case extension of a file. -/
def extension (originalName : String) : String :=
  String.ofList (env.toLowerCase (extname originalName.toList))

def objectKey (documentId : String) (version : VersionRow) : Except String String :=
  derivedKey version.storedFile.objectKey ("documents/" ++ documentId ++ "/" ++ version.locale ++
    "/distributed/" ++ env.randomUUID version.id ++ extension env version.storedFile.originalName)

/-- The copy of a version and its key, before anything is written. -/
def copyOf (document : DocumentRow) (version : VersionRow) (store : Store) :
    Except String (String × List UInt8) := do
  env.attempt (.getBuffer version.id)
  match store.objects.find? fun object => object.1 = version.storedFile.objectKey with
  | none => throw "Object not found"
  | some source =>
      let watermarked ← applyPermanentWatermark env.tools source.2 version.storedFile.mimeType
        document.watermarkPosition
      env.attempt (.scan version.id)
      if env.scan watermarked ≠ .clean then
        throw "Watermarked distribution file failed antivirus scanning"
      let key ← objectKey env document.id version
      return (key, watermarked)

def distributedRow (version : VersionRow) (key : String) (watermarked : List UInt8) : FileRow where
  id := env.fileId version.id
  objectKey := key
  originalName := version.storedFile.originalName
  mimeType := version.storedFile.mimeType
  size := watermarked.length
  sha256 := env.sha256 watermarked
  scan := .clean

/-- `removeObject(objectKey).catch(() => undefined)`. -/
def discard (version : VersionRow) (key : String) (store : Store) : Store :=
  match env.failure (.removeObject version.id) with
  | none => store.removeObject key
  | some _ => store

/-- The two statements on a copy that is stored; what they have written is kept. -/
def register (version : VersionRow) (key : String) (watermarked : List UInt8) (store : Store) :
    Store × Except String Unit :=
  match (env.attempt (.createFile version.id)).bind fun _ =>
      store.createFile (distributedRow env version key watermarked) with
  | .error message => (store, .error message)
  | .ok created =>
      match (env.attempt (.updateVersion version.id)).bind fun _ =>
          created.distribute version.id (env.fileId version.id) with
      | .error message => (created, .error message)
      | .ok distributed => (distributed, .ok ())

structure Generated where
  locale : String
  version : Nat
  sha256 : String
deriving DecidableEq

def prepareVersion (document : DocumentRow) (version : VersionRow) (store : Store) :
    Store × Except String Generated :=
  match copyOf env document version store with
  | .error message => (store, .error message)
  | .ok (key, watermarked) =>
      match env.failure (.putObject version.id) with
      | some message => (store, .error message)
      | none =>
          match register env version key watermarked (store.putObject key watermarked) with
          | (written, .error message) => (discard env version key written, .error message)
          | (written, .ok ()) =>
              (written, .ok ⟨version.locale, version.version, env.sha256 watermarked⟩)

def prepareLoop (document : DocumentRow) : List VersionRow → Store →
    Store × Except String (List Generated)
  | [], store => (store, .ok [])
  | version :: rest, store =>
      if version.distributedStoredFileId.isSome then prepareLoop document rest store
      else match prepareVersion env document version store with
        | (prepared, .error message) => (prepared, .error message)
        | (prepared, .ok generated) =>
            match prepareLoop document rest prepared with
            | (finished, .error message) => (finished, .error message)
            | (finished, .ok others) => (finished, .ok (generated :: others))

def prepareForPublication (documentId : String) (store : Store) :
    Store × Except String (List Generated) :=
  match env.failure .read with
  | some message => (store, .error message)
  | none =>
      match store.documents.find? fun row => row.id = documentId with
      | none => (store, .ok [])
      | some document =>
          if document.sensitive then
            prepareLoop env document
              (latestVersions (store.versions.filter (·.documentId = documentId))) store
          else (store, .ok [])

end Preparation

/-! ## The request -/

structure Request where
  id : String
  sensitive : Bool
  watermarkPosition : Option String
  /-- `assertCanMarkSensitive`. -/
  mayMark : Except String Unit
  /-- `authorization.can` of the user in the space and the category, to edit. -/
  canEdit : String → Option String → Bool

/-- A text that is missing or empty stands for the centre. -/
def parseWatermarkPosition (value : Option String) : Except String WatermarkPosition :=
  let position := if value = none ∨ value = some "" then "CENTER" else value.getD ""
  if position = "HEADER" then .ok .header
  else if position = "CENTER" then .ok .center
  else if position = "FOOTER" then .ok .footer
  else .error "Invalid watermark position"

def assertSensitiveFormat (sensitive : Bool) (extension : String) : Except String Unit :=
  if sensitive = true ∧ extension ∉ [".pdf", ".docx", ".xlsx"] then
    .error "Sensitive documents must be PDF, DOCX or XLSX (watermarking)"
  else .ok ()

section Change

variable (env : Environment) (request : Request)

/-- The checks before the first write; nothing is left to do when the flag is already set so. -/
def checkRequest (store : Store) : Except String (Option (DocumentRow × WatermarkPosition)) := do
  request.mayMark
  match store.documents.find? fun row => row.id = request.id ∧ row.deletedAt = none with
  | none => throw "Not Found"
  | some document =>
      if request.canEdit document.spaceId document.categoryId = false then throw "Not Found"
      let position ← parseWatermarkPosition request.watermarkPosition
      if request.sensitive = document.sensitive then return none
      if request.sensitive = true then
        (store.versions.filter (·.documentId = document.id)).forM fun version =>
          assertSensitiveFormat true (extension env version.storedFile.originalName)
      return some (document, position)

/-- The data of the first write. -/
def mark (sensitive : Bool) (position : WatermarkPosition) (row : DocumentRow) : DocumentRow :=
  { row with
    sensitive := sensitive
    watermarkPosition := if sensitive then position else row.watermarkPosition }

/-- The data of the rollback. -/
def restore (sensitive : Bool) (row : DocumentRow) : DocumentRow := { row with sensitive := sensitive }

/-- What follows the preparation. -/
def finish (store : Store) : Store × Except String Bool :=
  match if request.sensitive then none else env.failure .revoke with
  | some message => (store, .error message)
  | none =>
      let revoked := if request.sensitive then store else store.revokeShares request.id env.clock
      match env.failure .record with
      | some message => (revoked, .error message)
      | none =>
          (revoked.record ⟨"document.sensitivity.update", "document:" ++ request.id, "success",
            request.sensitive⟩, .ok request.sensitive)

/-- After the first write. -/
def prepareChange (document : DocumentRow) (store : Store) : Store × Except String Bool :=
  if request.sensitive = true ∧ document.status = .published then
    match prepareForPublication env request.id store with
    | (prepared, .ok _) => finish env request prepared
    | (prepared, .error message) =>
        match env.failure .rollback with
        | some other => (prepared, .error other)
        | none => (prepared.updateDocument request.id (restore document.sensitive) fun _ => rfl,
            .error message)
  else finish env request store

def setSensitivity (store : Store) : Store × Except String Bool :=
  match checkRequest env request store with
  | .error message => (store, .error message)
  | .ok none => (store, .ok request.sensitive)
  | .ok (some (document, position)) =>
      match env.failure .update with
      | some message => (store, .error message)
      | none => prepareChange env request document
          (store.updateDocument request.id (mark request.sensitive position) fun _ => rfl)

end Change

/-! ## What should be undone -/

/-- The columns that a change of the sensitivity writes, with the id. -/
def flags (row : DocumentRow) : String × Bool × WatermarkPosition :=
  (row.id, row.sensitive, row.watermarkPosition)

/-- The object of a distributed file that a version refers to was not removed. -/
def NoneRemoved (before after : Store) : Prop :=
  ∀ version ∈ after.versions, ∀ file ∈ after.storedFiles,
    version.distributedStoredFileId = some file.id →
    file.objectKey ∈ before.keys ∨ file ∉ before.storedFiles → file.objectKey ∈ after.keys

/-- Identifiers that are drawn do not occur, and differ from each other. -/
structure Fresh (env : Environment) (store : Store) : Prop where
  key_new : ∀ documentId, ∀ version ∈ store.versions, ∀ key,
    objectKey env documentId version = .ok key → key ∉ store.keys ∧
      key ∉ store.storedFiles.map FileRow.objectKey ∧
      ∀ other ∈ store.versions, other.storedFile.objectKey ≠ key
  key_inj : ∀ documentId, ∀ version ∈ store.versions, ∀ other ∈ store.versions, ∀ key,
    objectKey env documentId version = .ok key → objectKey env documentId other = .ok key →
      version.id = other.id
  id_new : ∀ version ∈ store.versions, env.fileId version.id ∉ store.storedFiles.map FileRow.id
  id_inj : ∀ version ∈ store.versions, ∀ other ∈ store.versions,
    env.fileId version.id = env.fileId other.id → version.id = other.id

/-- A step of the copy of a version fails. -/
def VersionFails (env : Environment) (document : DocumentRow) (store : Store)
    (version : VersionRow) : Prop :=
  (∃ message, copyOf env document version store = .error message) ∨
    env.failure (.putObject version.id) ≠ none ∨ env.failure (.createFile version.id) ≠ none ∨
    env.failure (.updateVersion version.id) ≠ none

/-- The document is not read again, or the copy of a latest version without one fails. -/
def PreparationFails (env : Environment) (request : Request) (store : Store)
    (document : DocumentRow) (position : WatermarkPosition) : Prop :=
  env.failure .read ≠ none ∨
    ∃ version ∈ latestVersions (store.versions.filter (·.documentId = request.id)),
      version.distributedStoredFileId = none ∧
        VersionFails env (mark true position document) store version

/-- Where the preparation fails, the position is the old one and the switch is taken back.
Elsewhere nothing fails after the switch. -/
def Undone (env : Environment) (request : Request) (store : Store) (document : DocumentRow)
    (position : WatermarkPosition) : Prop :=
  (request.sensitive = true ∧ document.status = .published ∧
      PreparationFails env request store document position →
    env.failure .rollback = none ∧ position = document.watermarkPosition) ∧
  (¬ (request.sensitive = true ∧ document.status = .published ∧
      PreparationFails env request store document position) →
    (request.sensitive = false → env.failure .revoke = none) ∧ env.failure .record = none)

/-! ## Objects and rows -/

section Copies

variable {env : Environment} {document : DocumentRow} {before store : Store}

theorem mem_keys_putObject {key other : String} {content : List UInt8} :
    other ∈ (store.putObject key content).keys ↔ other ∈ store.keys ∨ other = key := by
  simp only [Store.keys, Store.putObject, List.map_append, List.map_singleton, List.mem_append,
    List.mem_singleton, List.mem_map, List.mem_filter, decide_eq_true_eq]
  constructor
  · rintro (⟨object, ⟨hobject, -⟩, rfl⟩ | rfl)
    · exact .inl ⟨object, hobject, rfl⟩
    · exact .inr rfl
  · rintro (⟨object, hobject, rfl⟩ | rfl)
    · by_cases hkey : object.1 = key
      · exact .inr hkey
      · exact .inl ⟨object, ⟨hobject, hkey⟩, rfl⟩
    · exact .inr rfl

theorem mem_keys_removeObject {key other : String} :
    other ∈ (store.removeObject key).keys ↔ other ∈ store.keys ∧ other ≠ key := by
  simp only [Store.keys, Store.removeObject, List.mem_map, List.mem_filter, decide_eq_true_eq]
  constructor
  · rintro ⟨object, ⟨hobject, hkey⟩, rfl⟩
    exact ⟨⟨object, hobject, rfl⟩, hkey⟩
  · rintro ⟨⟨object, hobject, rfl⟩, hkey⟩
    exact ⟨object, ⟨hobject, hkey⟩, rfl⟩

theorem find?_putObject {key wanted : String} {content : List UInt8} (hkey : wanted ≠ key) :
    (store.putObject key content).objects.find? (fun object => object.1 = wanted) =
      store.objects.find? fun object => object.1 = wanted := by
  have hlast : ([(key, content)] : List (String × List UInt8)).find?
      (fun object => object.1 = wanted) = none := by
    simp [Ne.symm hkey]
  rw [Store.putObject, List.find?_append, hlast, Option.or_none, List.find?_filter]
  refine congrArg (List.find? · store.objects) (funext fun object => ?_)
  by_cases hobject : object.1 = wanted
  · simp [hobject, hkey]
  · simp [hobject]

theorem createFile_ok (row : FileRow) (hid : row.id ∉ store.storedFiles.map FileRow.id)
    (hkey : row.objectKey ∉ store.storedFiles.map FileRow.objectKey) :
    ∃ created, store.createFile row = .ok created ∧
      created.storedFiles = store.storedFiles ++ [row] ∧ created.versions = store.versions ∧
      created.objects = store.objects ∧ created.documents = store.documents := by
  rw [Store.createFile, if_neg (by simp only [hid, hkey, or_self, not_false_eq_true])]
  exact ⟨_, rfl, rfl, rfl, rfl, rfl⟩

theorem distribute_ok (versionId : String) {fileId : String}
    (hid : fileId ∈ store.storedFiles.map FileRow.id) :
    ∃ distributed, store.distribute versionId fileId = .ok distributed ∧
      distributed.storedFiles = store.storedFiles ∧ distributed.objects = store.objects ∧
      distributed.documents = store.documents := by
  rw [Store.distribute, dif_pos hid]
  exact ⟨_, rfl, rfl, rfl, rfl⟩

/-- What the two statements on a copy have written: all, or nothing a version refers to. -/
inductive Registered (env : Environment) (version : VersionRow) (row : FileRow) (store : Store) :
    Store × Except String Unit → Prop
  | failed {written : Store} {message : String}
      (hfails : env.failure (.createFile version.id) ≠ none ∨
        env.failure (.updateVersion version.id) ≠ none)
      (hversions : written.versions = store.versions) (hobjects : written.objects = store.objects)
      (hdocuments : written.documents = store.documents)
      (hfiles : written.storedFiles = store.storedFiles ∨
        written.storedFiles = store.storedFiles ++ [row]) :
      Registered env version row store (written, .error message)
  | done {written : Store} (hcreate : env.failure (.createFile version.id) = none)
      (hupdate : env.failure (.updateVersion version.id) = none)
      (hobjects : written.objects = store.objects)
      (hdocuments : written.documents = store.documents)
      (hfiles : written.storedFiles = store.storedFiles ++ [row]) :
      Registered env version row store (written, .ok ())

theorem registered_register (env : Environment) (store : Store) (version : VersionRow)
    (key : String) (watermarked : List UInt8)
    (hid : env.fileId version.id ∉ store.storedFiles.map FileRow.id)
    (hkey : key ∉ store.storedFiles.map FileRow.objectKey) :
    Registered env version (distributedRow env version key watermarked) store
      (register env version key watermarked store) := by
  obtain ⟨created, hcreated, hfiles, hversions, hobjects, hdocuments⟩ :=
    createFile_ok (distributedRow env version key watermarked) hid hkey
  have hfile : env.fileId version.id ∈ created.storedFiles.map FileRow.id := by
    rw [hfiles, List.map_append, List.mem_append]
    exact .inr (List.mem_singleton_self _)
  obtain ⟨distributed, hdistributed, hfiles', hobjects', hdocuments'⟩ :=
    distribute_ok version.id hfile
  unfold register Environment.attempt
  cases hcreate : env.failure (.createFile version.id) with
  | some message => exact .failed (.inl (by simp [hcreate])) rfl rfl rfl (.inl rfl)
  | none =>
      simp only [Except.bind, hcreated]
      cases hupdate : env.failure (.updateVersion version.id) with
      | some message =>
          exact .failed (.inr (by simp [hupdate])) hversions hobjects hdocuments (.inr hfiles)
      | none =>
          simp only [hdistributed]
          exact .done hcreate hupdate (hobjects'.trans hobjects) (hdocuments'.trans hdocuments)
            (hfiles'.trans hfiles)

/-! ## The loop -/

/-- The store after the copies of some versions. -/
structure Progress (env : Environment) (document : DocumentRow) (before : Store)
    (done : List VersionRow) (store : Store) : Prop where
  documents : store.documents = before.documents
  sources : ∀ version ∈ before.versions,
    store.objects.find? (fun object => object.1 = version.storedFile.objectKey) =
      before.objects.find? fun object => object.1 = version.storedFile.objectKey
  kept : ∀ key ∈ before.keys, key ∈ store.keys
  stored : ∀ file ∈ store.storedFiles, file ∉ before.storedFiles → file.objectKey ∈ store.keys
  drawn : ∀ file ∈ store.storedFiles, file ∈ before.storedFiles ∨ ∃ version ∈ done,
    file.id = env.fileId version.id ∧
      objectKey env document.id version = .ok file.objectKey

theorem Progress.refl (env : Environment) (document : DocumentRow) (before : Store) :
    Progress env document before [] before where
  documents := rfl
  sources _ _ := rfl
  kept _ hkey := hkey
  stored _ hfile hnew := absurd hfile hnew
  drawn _ hfile := .inl hfile

theorem Progress.noneRemoved {done : List VersionRow}
    (hprogress : Progress env document before done store) : NoneRemoved before store := by
  rintro version - file hfile - (hkey | hnew)
  · exact hprogress.kept _ hkey
  · exact hprogress.stored file hfile hnew

/-- What is drawn for the next version does not occur yet. -/
theorem Progress.fresh {done : List VersionRow}
    (hprogress : Progress env document before done store) (hfresh : Fresh env before)
    (hdone : done ⊆ before.versions) {version : VersionRow} (hversion : version ∈ before.versions)
    (hnext : ∀ other ∈ done, other.id ≠ version.id) {key : String}
    (hkey : objectKey env document.id version = .ok key) :
    env.fileId version.id ∉ store.storedFiles.map FileRow.id ∧
      key ∉ store.storedFiles.map FileRow.objectKey := by
  constructor
  · intro hmem
    obtain ⟨file, hfile, hid⟩ := List.mem_map.mp hmem
    rcases hprogress.drawn file hfile with hold | ⟨other, hother, hotherId, -⟩
    · exact hfresh.id_new version hversion (hid ▸ List.mem_map_of_mem hold)
    · exact hnext other hother
        (hfresh.id_inj other (hdone hother) version hversion (hotherId.symm.trans hid))
  · intro hmem
    obtain ⟨file, hfile, rfl⟩ := List.mem_map.mp hmem
    rcases hprogress.drawn file hfile with hold | ⟨other, hother, -, hotherKey⟩
    · exact (hfresh.key_new _ version hversion _ hkey).2.1 (List.mem_map_of_mem hold)
    · exact hnext other hother
        (hfresh.key_inj _ other (hdone hother) version hversion _ hotherKey hkey)

theorem Progress.copyOf_eq {done : List VersionRow}
    (hprogress : Progress env document before done store) {version : VersionRow}
    (hversion : version ∈ before.versions) :
    copyOf env document version store = copyOf env document version before := by
  unfold copyOf
  rw [hprogress.sources version hversion]

theorem copyOf_key {version : VersionRow} {key : String} {watermarked : List UInt8}
    (hcopy : copyOf env document version store = .ok (key, watermarked)) :
    objectKey env document.id version = .ok key := by
  unfold copyOf at hcopy
  obtain ⟨-, -, hcopy⟩ := Checks.accepts_bind.mp hcopy
  split at hcopy
  · cases hcopy
  · obtain ⟨_, -, hcopy⟩ := Checks.accepts_bind.mp hcopy
    obtain ⟨_, -, hcopy⟩ := Checks.accepts_bind.mp hcopy
    split at hcopy
    · cases hcopy
    · obtain ⟨drawn, hdrawn, hcopy⟩ := Checks.accepts_bind.mp hcopy
      have hpair := Checks.accepts_pure.mp hcopy
      rw [hdrawn, ← (Prod.mk.inj hpair).1]

theorem discard_same (env : Environment) (store : Store) (version : VersionRow) (key : String) :
    (discard env version key store).documents = store.documents ∧
      (discard env version key store).versions = store.versions ∧
      (discard env version key store).storedFiles = store.storedFiles := by
  unfold discard
  split <;> exact ⟨rfl, rfl, rfl⟩

theorem mem_keys_discard (version : VersionRow) {key other : String} (hother : other ≠ key)
    (hmem : other ∈ store.keys) : other ∈ (discard env version key store).keys := by
  unfold discard
  split
  · exact mem_keys_removeObject.mpr ⟨hmem, hother⟩
  · exact hmem

/-- The object of a copy that is not registered may be removed. -/
theorem Progress.noneRemoved_discard {done : List VersionRow}
    (hprogress : Progress env document before done store) {version : VersionRow} (row : FileRow)
    {watermarked : List UInt8} {written : Store}
    (hid : row.id ∉ store.storedFiles.map FileRow.id)
    (hkey : row.objectKey ∉ store.storedFiles.map FileRow.objectKey)
    (hversions : written.versions = store.versions)
    (hobjects : written.objects = (store.putObject row.objectKey watermarked).objects)
    (hfiles : written.storedFiles = store.storedFiles ∨
      written.storedFiles = store.storedFiles ++ [row]) :
    NoneRemoved before (discard env version row.objectKey written) := by
  intro pointing hpointing file hfile hrefers hcondition
  obtain ⟨-, hsameVersions, hsameFiles⟩ :=
    discard_same env written version row.objectKey
  rw [hsameVersions, hversions] at hpointing
  have hmem : file ∈ store.storedFiles ∨ file = row := by
    rw [hsameFiles] at hfile
    rcases hfiles with h | h
    · exact .inl (h ▸ hfile)
    · rw [h, List.mem_append, List.mem_singleton] at hfile
      exact hfile
  rcases hmem with hold | rfl
  · have hkept := hprogress.noneRemoved pointing hpointing file hold hrefers hcondition
    have hother : file.objectKey ≠ row.objectKey := fun heq =>
      hkey (heq ▸ List.mem_map_of_mem hold)
    refine mem_keys_discard version hother ?_
    rw [Store.keys, hobjects]
    exact mem_keys_putObject.mpr (.inl hkept)
  · exact absurd (store.references pointing hpointing _ hrefers) hid

/-- A copy that is registered. -/
theorem Progress.step {done : List VersionRow}
    (hprogress : Progress env document before done store) {version : VersionRow} {row : FileRow}
    {watermarked : List UInt8} {written : Store}
    (hnew : ∀ other ∈ before.versions, other.storedFile.objectKey ≠ row.objectKey)
    (hid : row.id = env.fileId version.id)
    (hkey : objectKey env document.id version = .ok row.objectKey)
    (hdocuments : written.documents = store.documents)
    (hobjects : written.objects = (store.putObject row.objectKey watermarked).objects)
    (hfiles : written.storedFiles = store.storedFiles ++ [row]) :
    Progress env document before (version :: done) written where
  documents := hdocuments.trans hprogress.documents
  sources other hother := by
    rw [hobjects, find?_putObject (hnew other hother)]
    exact hprogress.sources other hother
  kept key hmem := by
    rw [Store.keys, hobjects]
    exact mem_keys_putObject.mpr (.inl (hprogress.kept key hmem))
  stored file hfile hfresh := by
    rw [Store.keys, hobjects]
    rw [hfiles, List.mem_append, List.mem_singleton] at hfile
    rcases hfile with hold | rfl
    · exact mem_keys_putObject.mpr (.inl (hprogress.stored file hold hfresh))
    · exact mem_keys_putObject.mpr (.inr rfl)
  drawn file hfile := by
    rw [hfiles, List.mem_append, List.mem_singleton] at hfile
    rcases hfile with hold | rfl
    · rcases hprogress.drawn file hold with h | ⟨other, hother, hdrawn⟩
      · exact .inl h
      · exact .inr ⟨other, List.mem_cons_of_mem _ hother, hdrawn⟩
    · exact .inr ⟨version, List.mem_cons_self, hid, hkey⟩

/-- One version: the error of a step removes nothing that is referred to. -/
theorem prepareVersion_cases {done : List VersionRow}
    (hprogress : Progress env document before done store) (hfresh : Fresh env before)
    (hdone : done ⊆ before.versions) {version : VersionRow} (hversion : version ∈ before.versions)
    (hnext : ∀ other ∈ done, other.id ≠ version.id) :
    (∃ written message, prepareVersion env document version store = (written, .error message) ∧
      VersionFails env document before version ∧ written.documents = before.documents ∧
      NoneRemoved before written) ∨
    ∃ written generated, prepareVersion env document version store = (written, .ok generated) ∧
      ¬ VersionFails env document before version ∧
      Progress env document before (version :: done) written := by
  unfold prepareVersion
  rw [hprogress.copyOf_eq hversion]
  cases hcopy : copyOf env document version before with
  | error message =>
      exact .inl ⟨store, message, rfl, .inl ⟨message, hcopy⟩, hprogress.documents,
        hprogress.noneRemoved⟩
  | ok copy =>
      obtain ⟨key, watermarked⟩ := copy
      have hkey := copyOf_key hcopy
      obtain ⟨hid, hkeyFresh⟩ := hprogress.fresh hfresh hdone hversion hnext hkey
      dsimp only
      cases hput : env.failure (.putObject version.id) with
      | some message =>
          exact .inl ⟨store, message, rfl, .inr (.inl (by simp [hput])), hprogress.documents,
            hprogress.noneRemoved⟩
      | none =>
          have hregistered := registered_register env (store.putObject key watermarked) version key
            watermarked hid hkeyFresh
          dsimp only
          generalize register env version key watermarked (store.putObject key watermarked) = result
            at hregistered ⊢
          cases hregistered with
          | @failed written message hfails hversions hobjects hdocuments hfiles =>
              refine .inl ⟨_, message, rfl, .inr (.inr hfails), ?_, ?_⟩
              · rw [(discard_same env written version key).1, hdocuments]
                exact hprogress.documents
              · exact hprogress.noneRemoved_discard (distributedRow env version key watermarked)
                  hid hkeyFresh hversions hobjects hfiles
          | @done written hcreate hupdate hobjects hdocuments hfiles =>
              refine .inr ⟨written, _, rfl, ?_, ?_⟩
              · rintro (⟨message, hmessage⟩ | h | h | h)
                · rw [hcopy] at hmessage
                  cases hmessage
                · exact h hput
                · exact h hcreate
                · exact h hupdate
              · exact hprogress.step (hfresh.key_new _ version hversion _ hkey).2.2 rfl hkey
                  hdocuments hobjects hfiles

theorem prepareLoop_cases {done remaining : List VersionRow}
    (hprogress : Progress env document before done store) (hfresh : Fresh env before)
    (hdone : done ⊆ before.versions) (hremaining : remaining ⊆ before.versions)
    (hids : (remaining.map VersionRow.id).Nodup)
    (hnext : ∀ version ∈ remaining, ∀ other ∈ done, other.id ≠ version.id) :
    (∃ written message, prepareLoop env document remaining store = (written, .error message) ∧
      (∃ version ∈ remaining, version.distributedStoredFileId = none ∧
        VersionFails env document before version) ∧
      written.documents = before.documents ∧ NoneRemoved before written) ∨
    ∃ written generated, prepareLoop env document remaining store = (written, .ok generated) ∧
      (∀ version ∈ remaining, version.distributedStoredFileId = none →
        ¬ VersionFails env document before version) ∧
      written.documents = before.documents := by
  induction remaining generalizing done store with
  | nil => exact .inr ⟨store, [], rfl, by simp, hprogress.documents⟩
  | cons version rest ih =>
      have hversion : version ∈ before.versions := hremaining List.mem_cons_self
      have hrest : rest ⊆ before.versions := fun row hrow => hremaining (List.mem_cons_of_mem _ hrow)
      obtain ⟨hnotMem, hrestIds⟩ := List.nodup_cons.mp hids
      cases hcopy : version.distributedStoredFileId with
      | some id =>
          -- A copy that exists is not made again.
          rw [prepareLoop, hcopy, if_pos (by rfl)]
          rcases ih hprogress hdone hrest hrestIds
              (fun other hother => hnext other (List.mem_cons_of_mem _ hother)) with
            ⟨written, message, hloop, ⟨failing, hmem, hfails⟩, hwritten⟩ |
            ⟨written, generated, hloop, hnone, hdocuments⟩
          · exact .inl ⟨written, message, hloop,
              ⟨failing, List.mem_cons_of_mem _ hmem, hfails⟩, hwritten⟩
          · refine .inr ⟨written, generated, hloop, List.forall_mem_cons.mpr ⟨?_, hnone⟩, hdocuments⟩
            intro hpending
            rw [hcopy] at hpending
            cases hpending
      | none =>
          rw [prepareLoop, hcopy, if_neg (by decide)]
          rcases prepareVersion_cases hprogress hfresh hdone hversion
              (hnext version List.mem_cons_self) with
            ⟨written, message, hprepare, hfails, hdocuments, hremoved⟩ |
            ⟨written, generated, hprepare, hsucceeds, hstep⟩
          · rw [hprepare]
            exact .inl ⟨written, message, rfl, ⟨version, List.mem_cons_self, hcopy, hfails⟩,
              hdocuments, hremoved⟩
          · have hdone' : version :: done ⊆ before.versions := List.cons_subset.mpr ⟨hversion, hdone⟩
            have hnext' : ∀ row ∈ rest, ∀ other ∈ version :: done, other.id ≠ row.id := by
              intro row hrow other hother
              rcases List.mem_cons.mp hother with rfl | hother
              · exact fun heq => hnotMem (heq ▸ List.mem_map_of_mem hrow)
              · exact hnext row (List.mem_cons_of_mem _ hrow) other hother
            rw [hprepare]
            rcases ih hstep hdone' hrest hrestIds hnext' with
              ⟨finished, message, hloop, ⟨failing, hmem, hfails⟩, hwritten⟩ |
              ⟨finished, others, hloop, hnone, hdocuments⟩
            · exact .inl ⟨finished, message, by simp only [hloop],
                ⟨failing, List.mem_cons_of_mem _ hmem, hfails⟩, hwritten⟩
            · exact .inr ⟨finished, generated :: others, by simp only [hloop],
                List.forall_mem_cons.mpr ⟨fun _ => hsucceeds, hnone⟩, hdocuments⟩

end Copies

/-! ## Requests that fail -/

section Requests

variable {env : Environment} {request : Request} {store : Store} {document : DocumentRow}
  {position : WatermarkPosition}

/-- The store after the first write. -/
def changed (request : Request) (position : WatermarkPosition) (store : Store) : Store :=
  store.updateDocument request.id (mark request.sensitive position) fun _ => rfl

theorem checkRequest_eq (hcheck : checkRequest env request store = .ok (some (document, position))) :
    document ∈ store.documents ∧ document.id = request.id ∧
      request.sensitive ≠ document.sensitive := by
  unfold checkRequest at hcheck
  obtain ⟨-, -, hcheck⟩ := Checks.accepts_bind.mp hcheck
  split at hcheck
  · cases hcheck
  next found hfound =>
    have hmem := List.mem_of_find?_eq_some hfound
    have hfields : found.id = request.id ∧ found.deletedAt = none := by
      simpa using List.find?_some hfound
    have hfinal : ∀ {checks : Except String Unit} {parsed : WatermarkPosition},
        (checks >>= fun _ => pure (some (found, parsed))) = .ok (some (document, position)) →
        found = document := by
      intro checks parsed haccepted
      obtain ⟨-, -, haccepted⟩ := Checks.accepts_bind.mp haccepted
      exact (Prod.mk.inj (Option.some.inj (Checks.accepts_pure.mp haccepted))).1
    obtain ⟨-, hcheck⟩ := Checks.accepts_if.mp hcheck
    obtain ⟨parsed, -, hcheck⟩ := Checks.accepts_bind.mp hcheck
    split at hcheck
    · cases hcheck
    next hdiffers =>
      have hsame : found = document := by
        split at hcheck
        · exact hfinal hcheck
        · exact (Prod.mk.inj (Option.some.inj (Checks.accepts_pure.mp hcheck))).1
      subst hsame
      exact ⟨hmem, hfields.1, hdiffers⟩

theorem find?_changed (position : WatermarkPosition) (hmem : document ∈ store.documents)
    (hid : document.id = request.id) :
    (changed request position store).documents.find? (fun row => row.id = request.id) =
      some (mark request.sensitive position document) := by
  have hfound : store.documents.find? (fun row => row.id = request.id) = some document :=
    (Table.find?_key_eq_some_iff store.documentIds).mpr ⟨hmem, hid⟩
  have hupdated := Table.find?_update_self (f := mark request.sensitive position)
    store.documentIds hfound (decide_eq_true hid)
  rw [hid] at hupdated
  exact hupdated

/-- The preparation fails where a copy does, and removes nothing that is referred to. -/
theorem prepareForPublication_cases (position : WatermarkPosition) (hfresh : Fresh env store)
    (hsensitive : request.sensitive = true) (hmem : document ∈ store.documents)
    (hid : document.id = request.id) :
    (∃ written message, prepareForPublication env request.id (changed request position store) =
        (written, .error message) ∧ PreparationFails env request store document position ∧
      written.documents = (changed request position store).documents ∧
      NoneRemoved store written) ∨
    ∃ written generated, prepareForPublication env request.id (changed request position store) =
        (written, .ok generated) ∧ ¬ PreparationFails env request store document position ∧
      written.documents = (changed request position store).documents := by
  unfold prepareForPublication
  cases hread : env.failure .read with
  | some message =>
      exact .inl ⟨_, message, rfl, .inl (by simp [hread]), rfl,
        (Progress.refl env document store).noneRemoved⟩
  | none =>
      have hfound := find?_changed position hmem hid
      rw [hsensitive] at hfound
      have hmarked : (mark true position document).sensitive = true := rfl
      simp only [hfound, hmarked, if_true]
      have hprogress : Progress env (mark true position document) (changed request position store) []
          (changed request position store) := Progress.refl _ _ _
      have hchanged : Fresh env (changed request position store) :=
        ⟨hfresh.key_new, hfresh.key_inj, hfresh.id_new, hfresh.id_inj⟩
      have hsublist : (latestVersions
          (store.versions.filter (·.documentId = request.id))).Sublist store.versions :=
        List.filter_sublist.trans List.filter_sublist
      rcases prepareLoop_cases hprogress hchanged (List.nil_subset _) hsublist.subset
          (store.versionIds.sublist (hsublist.map _)) (by simp) with
        ⟨written, message, hloop, hfails, hdocuments, hremoved⟩ |
        ⟨written, generated, hloop, hnone, hdocuments⟩
      · exact .inl ⟨written, message, hloop, .inr hfails, hdocuments, hremoved⟩
      · refine .inr ⟨written, generated, hloop, ?_, hdocuments⟩
        rintro (h | ⟨version, hversion, hpending, hfails⟩)
        · exact h hread
        · exact hnone version hversion hpending hfails

/-- The columns of a document after the switch. -/
theorem flags_update_iff (hmem : document ∈ store.documents) (hid : document.id = request.id)
    (f : DocumentRow → DocumentRow) :
    (Table.update DocumentRow.id request.id f store.documents).map flags =
        store.documents.map flags ↔ flags (f document) = flags document := by
  rw [Table.update, List.map_map, List.map_inj_left]
  constructor
  · intro hall
    have hdocument := hall document hmem
    rwa [Function.comp_apply, if_pos hid] at hdocument
  · intro hsame row hrow
    rw [Function.comp_apply]
    split
    next hrowId =>
      obtain rfl := List.inj_on_of_nodup_map store.documentIds hrow hmem (hrowId.trans hid.symm)
      exact hsame
    next => rfl

/-- The switch changes the flag of its document. -/
theorem flags_changed_ne (hmem : document ∈ store.documents) (hid : document.id = request.id)
    (hdiffers : request.sensitive ≠ document.sensitive) :
    (changed request position store).documents.map flags ≠ store.documents.map flags := by
  intro hsame
  have hflags := (flags_update_iff hmem hid (mark request.sensitive position)).mp hsame
  exact hdiffers (congrArg (fun columns => columns.2.1) hflags)

/-- The columns after the switch and its rollback. -/
theorem flags_restored_iff (position : WatermarkPosition) (hmem : document ∈ store.documents)
    (hid : document.id = request.id) (hsensitive : request.sensitive = true) :
    (Table.update DocumentRow.id request.id (restore document.sensitive)
        (changed request position store).documents).map flags = store.documents.map flags ↔
      position = document.watermarkPosition := by
  have htwice : Table.update DocumentRow.id request.id (restore document.sensitive)
      (changed request position store).documents =
      Table.update DocumentRow.id request.id
        (fun row => restore document.sensitive (mark request.sensitive position row))
        store.documents := by
    change List.map _ (List.map _ store.documents) = List.map _ store.documents
    rw [List.map_map]
    refine List.map_congr_left fun row _ => ?_
    by_cases hrow : row.id = request.id
    · simp [hrow, mark]
    · simp [hrow]
  rw [htwice, flags_update_iff hmem hid, hsensitive]
  simp [flags, mark, restore]

/-- What follows the preparation may fail after the switch. -/
theorem finish_undone_iff (hmem : document ∈ store.documents) (hid : document.id = request.id)
    (hdiffers : request.sensitive ≠ document.sensitive) {prepared : Store}
    (hdocuments : prepared.documents = (changed request position store).documents) :
    (∀ message, (finish env request prepared).2 = .error message →
      (finish env request prepared).1.documents.map flags = store.documents.map flags ∧
        NoneRemoved store (finish env request prepared).1) ↔
    (request.sensitive = false → env.failure .revoke = none) ∧ env.failure .record = none := by
  have hchanged : prepared.documents.map flags ≠ store.documents.map flags := by
    rw [hdocuments]
    exact flags_changed_ne hmem hid hdiffers
  unfold finish
  cases hrevoke : (if request.sensitive then none else env.failure .revoke) with
  | some message =>
      refine iff_of_false (fun hundone => hchanged (hundone message rfl).1) ?_
      rintro ⟨hnone, -⟩
      cases hsensitive : request.sensitive with
      | true => simp [hsensitive] at hrevoke
      | false => simp [hsensitive, hnone hsensitive] at hrevoke
  | none =>
      have hnone : request.sensitive = false → env.failure .revoke = none := by
        intro hsensitive
        simpa [hsensitive] using hrevoke
      cases hrecord : env.failure .record with
      | some message =>
          refine iff_of_false (fun hundone => hchanged ?_) (by simp)
          have hsame := (hundone message rfl).1
          dsimp only at hsame
          split at hsame
          · exact hsame
          · exact hsame
      | none => exact iff_of_true (fun message hmessage => by cases hmessage) ⟨hnone, rfl⟩

theorem prepareChange_undone_iff (hfresh : Fresh env store) (hmem : document ∈ store.documents)
    (hid : document.id = request.id) (hdiffers : request.sensitive ≠ document.sensitive) :
    (∀ message,
      (prepareChange env request document (changed request position store)).2 = .error message →
      (prepareChange env request document (changed request position store)).1.documents.map flags =
          store.documents.map flags ∧
        NoneRemoved store
          (prepareChange env request document (changed request position store)).1) ↔
    Undone env request store document position := by
  by_cases hruns : request.sensitive = true ∧ document.status = .published
  · rw [prepareChange, if_pos hruns]
    rcases prepareForPublication_cases position hfresh hruns.1 hmem hid with
      ⟨prepared, message, hprepare, hfails, hdocuments, hremoved⟩ |
      ⟨prepared, generated, hprepare, hnone, hdocuments⟩
    · have hboth : request.sensitive = true ∧ document.status = .published ∧
          PreparationFails env request store document position := ⟨hruns.1, hruns.2, hfails⟩
      rw [hprepare, Undone]
      simp only [hboth, not_true_eq_false, false_imp_iff, and_true, true_imp_iff]
      cases hrollback : env.failure .rollback with
      | some other =>
          refine iff_of_false (fun hundone => ?_) (by simp)
          have hsame := (hundone other rfl).1
          rw [hdocuments] at hsame
          exact flags_changed_ne hmem hid hdiffers hsame
      | none =>
          have hiff := flags_restored_iff position hmem hid hruns.1
          rw [← hdocuments] at hiff
          constructor
          · intro hundone
            exact ⟨rfl, hiff.mp (hundone message rfl).1⟩
          · rintro ⟨-, hposition⟩ - -
            exact ⟨hiff.mpr hposition, hremoved⟩
    · rw [hprepare]
      refine (finish_undone_iff hmem hid hdiffers hdocuments).trans ?_
      rw [Undone]
      simp [hnone]
  · rw [prepareChange, if_neg hruns]
    refine (finish_undone_iff hmem hid hdiffers rfl).trans ?_
    have hskipped : ¬ (request.sensitive = true ∧ document.status = .published ∧
        PreparationFails env request store document position) := fun h => hruns ⟨h.1, h.2.1⟩
    rw [Undone]
    simp only [hskipped, false_imp_iff, true_and, not_false_eq_true, true_imp_iff]

end Requests

/-- A change that fails is undone exactly if, where it switches and the preparation fails, the
position is the old one and the rollback does not fail, and elsewhere nothing fails after the
switch. -/
theorem setSensitivity_undone_iff {env : Environment} {store : Store} (hfresh : Fresh env store)
    (request : Request) :
    (∀ message, (setSensitivity env request store).2 = .error message →
      (setSensitivity env request store).1.documents.map flags = store.documents.map flags ∧
        NoneRemoved store (setSensitivity env request store).1) ↔
    ∀ document position, checkRequest env request store = .ok (some (document, position)) →
      env.failure .update = none → Undone env request store document position := by
  have hsame : NoneRemoved store store :=
    (Progress.refl env (DocumentRow.mk "" "" none .draft false .center none) store).noneRemoved
  unfold setSensitivity
  cases hcheck : checkRequest env request store with
  | error message =>
      exact iff_of_true (fun _ _ => ⟨rfl, hsame⟩) (by rintro document position ⟨⟩)
  | ok todo =>
      cases todo with
      | none => exact iff_of_true (by rintro message ⟨⟩) (by rintro document position ⟨⟩)
      | some change =>
          obtain ⟨document, position⟩ := change
          obtain ⟨hmem, hid, hdiffers⟩ := checkRequest_eq hcheck
          cases hupdate : env.failure .update with
          | some message =>
              exact iff_of_true (fun _ _ => ⟨rfl, hsame⟩) (by rintro _ _ - ⟨⟩)
          | none =>
              refine (prepareChange_undone_iff hfresh hmem hid hdiffers).trans ?_
              constructor
              · intro hundone other otherPosition hother _
                cases hother
                exact hundone
              · intro hall
                exact hall document position rfl rfl

/-! ## A failed switch -/

def policyFile : FileRow where
  id := "f1"
  objectKey := "documents/d1/fr/source.pdf"
  originalName := "policy.pdf"
  mimeType := "application/pdf"
  size := 3
  sha256 := ""
  scan := .clean

def policy : DocumentRow where
  id := "d1"
  spaceId := "s1"
  categoryId := none
  status := .published
  sensitive := false
  watermarkPosition := .center
  deletedAt := none

/-- A published document with one version. -/
def policyStore : Store where
  documents := [policy]
  versions := [⟨"v1", "d1", "fr", 1, policyFile, none⟩]
  storedFiles := [policyFile]
  shares := []
  journal := []
  objects := [("documents/d1/fr/source.pdf", [1, 2, 3])]
  documentIds := by decide
  versionIds := by decide
  references := by
    intro version hversion id hid
    rw [List.mem_singleton.mp hversion] at hid
    cases hid

/-- The source cannot be read from the storage. -/
def outage : Environment where
  failure effect := if effect = .getBuffer "v1" then some "Storage unavailable" else none
  tools := ⟨fun content _ => .ok content, fun content _ => .ok content, fun content _ => .ok content⟩
  scan _ := .clean
  sha256 _ := ""
  toLowerCase text := text
  randomUUID _ := "u1"
  fileId _ := "f2"
  clock := 0

/-- The switch to sensitive with another position. -/
def headerRequest : Request where
  id := "d1"
  sensitive := true
  watermarkPosition := some "HEADER"
  mayMark := .ok ()
  canEdit _ _ := true

theorem objectKey_outage {documentId key : String} {version : VersionRow}
    (hversion : version ∈ policyStore.versions)
    (hkey : objectKey outage documentId version = .ok key) :
    key ≠ "documents/d1/fr/source.pdf" := by
  obtain rfl := List.mem_singleton.mp hversion
  unfold objectKey derivedKey at hkey
  obtain ⟨-, -, hkey⟩ := Checks.accepts_bind.mp hkey
  have hprimary : startsWithTargets policyFile.objectKey = false := rfl
  simp only [hprimary, Bool.false_eq_true, if_false] at hkey
  rw [← Checks.accepts_pure.mp hkey]
  intro hsame
  have hextension : extension outage policyFile.originalName = ".pdf" := rfl
  have hdrawn : outage.randomUUID "v1" = "u1" := rfl
  rw [hextension, hdrawn] at hsame
  have hend := congrArg (fun text => text.toList.reverse.take 8) hsame
  simp at hend

theorem fresh_outage : Fresh outage policyStore where
  key_new documentId version hversion key hkey := by
    have hother := objectKey_outage hversion hkey
    have hsource : ∀ other ∈ policyStore.versions,
        other.storedFile.objectKey = "documents/d1/fr/source.pdf" := by
      intro row hrow
      rw [List.mem_singleton.mp hrow]
      rfl
    refine ⟨fun hmem => hother (List.mem_singleton.mp hmem),
      fun hmem => hother (List.mem_singleton.mp hmem), fun row hrow heq => hother ?_⟩
    rw [← heq, hsource row hrow]
  key_inj _ version hversion other hother _ _ _ := by
    rw [List.mem_singleton.mp hversion, List.mem_singleton.mp hother]
  id_new _ _ := by
    change "f2" ∉ policyStore.storedFiles.map FileRow.id
    decide
  id_inj version hversion other hother _ := by
    rw [List.mem_singleton.mp hversion, List.mem_singleton.mp hother]

theorem headerRequest_undone_iff :
    (∀ message, (setSensitivity outage headerRequest policyStore).2 = .error message →
      (setSensitivity outage headerRequest policyStore).1.documents.map flags =
          policyStore.documents.map flags ∧
        NoneRemoved policyStore (setSensitivity outage headerRequest policyStore).1) ↔
    ∀ document position,
      checkRequest outage headerRequest policyStore = .ok (some (document, position)) →
      outage.failure .update = none →
      Undone outage headerRequest policyStore document position :=
  setSensitivity_undone_iff fresh_outage headerRequest

/-- The flag is taken back, the position is not. -/
theorem headerRequest_not_undone :
    ¬ ∀ message, (setSensitivity outage headerRequest policyStore).2 = .error message →
      (setSensitivity outage headerRequest policyStore).1.documents.map flags =
          policyStore.documents.map flags ∧
        NoneRemoved policyStore (setSensitivity outage headerRequest policyStore).1 := by
  intro hundone
  have hfails : PreparationFails outage headerRequest policyStore policy .header :=
    .inr ⟨⟨"v1", "d1", "fr", 1, policyFile, none⟩, by decide, rfl,
      .inl ⟨"Storage unavailable", rfl⟩⟩
  have hchange : Undone outage headerRequest policyStore policy .header :=
    (prepareChange_undone_iff fresh_outage (List.mem_singleton_self _) rfl (by decide)).mp hundone
  obtain ⟨-, hposition⟩ := hchange.1 ⟨rfl, rfl, hfails⟩
  cases hposition

end IsmsPortal.Sensitivity
