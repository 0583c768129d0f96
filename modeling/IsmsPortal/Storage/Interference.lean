import IsmsPortal.Storage.Writes

/-! # What requests know about the archive

The invariant of the tables and the assertions of the requests in flight, and
what the statements of the others can do to them. A key that was written into a
version is used by one document only. An object that no version ever had belongs
to the request that put it.
-/

namespace IsmsPortal

open Foundation

/-! ## The tables -/

namespace Archive

variable (archive : Archive)

/-- What is true of the tables in every run. -/
structure Consistent (platform : Platform) : Prop where
  sound : archive.db.Sound
  references : ∀ version ∈ archive.db.versions, ∀ key, version.Refers key →
    key ∈ archive.attached
  /-- A file belongs to versions of one document. -/
  oneDocument : ∀ version ∈ archive.db.versions, ∀ other ∈ archive.db.versions, ∀ key,
    version.Refers key → other.Refers key → version.documentId = other.documentId
  attachedIssued : ∀ key ∈ archive.attached, ¬archive.db.FreshKey key
  recordIds : (archive.records.map UploadRecord.versionId).Nodup
  recordVersions : ∀ record ∈ archive.records, ∃ version ∈ archive.db.versions,
    version.id = record.versionId
  recordReceipts : ∀ record ∈ archive.records,
    uploadReceipt platform record.sent = .ok (some ⟨record.versionId, record.fingerprint⟩) ∧
      record.sent ∈ archive.received

theorem consistent_empty (platform : Platform) (clock : Int) :
    (Archive.empty clock).Consistent platform := by
  refine ⟨(Database.wellFormed_empty clock).sound, ?_, ?_, ?_, ?_, ?_, ?_⟩
  all_goals simp [Archive.empty, Database.empty]

/-! ## What requests know -/

variable (process : Nat)

/-- An object of the request that no version ever had. -/
def Pending (key : ObjectKey) : Prop :=
  (key, process) ∈ archive.db.issuedKeys ∧ key ∉ archive.attached ∧ key ∈ archive.db.objects

def NotStored (key : ObjectKey) : Prop :=
  ∀ file ∈ archive.db.storedFiles, file.objectKey ≠ key

/-- Only versions of one document refer to the key. -/
def Confined (key : ObjectKey) (documentId : String) : Prop :=
  key ∈ archive.attached ∧
    ∀ version ∈ archive.db.versions, version.Refers key → version.documentId = documentId

/-- No version refers to the key. -/
def Released (key : ObjectKey) : Prop := ∀ version ∈ archive.db.versions, ¬version.Refers key

/-- A version to be restored: its file is still referred to, or its document is gone. -/
def Available (source : DocumentVersion) : Prop :=
  source.documentId ∈ archive.db.retiredIds ∨ ∃ row ∈ archive.db.versions,
    row.documentId = source.documentId ∧ row.storedFile = source.storedFile

/-- A policy read by the worker, with files of its document. -/
structure Workable (item : WorkItem) : Prop where
  issued : ¬archive.db.FreshId item.policy.id
  policy : ∀ row ∈ archive.db.policies, row.id = item.policy.id →
    row.documentId = item.document.id
  files : ∀ file ∈ item.files, archive.Confined file.objectKey item.document.id

/-- The upload has arrived, and this is its receipt. -/
def Received (platform : Platform) (sent : Upload) (receipt : Option UploadReceipt) : Prop :=
  uploadReceipt platform sent = .ok receipt ∧ sent ∈ archive.received

/-- If a version has the key, then the version under the receipt has it. -/
def Recoverable (receipt : Option UploadReceipt) (key : ObjectKey) : Prop :=
  ∀ expected, receipt = some expected → ∀ version ∈ archive.db.versions, version.Refers key →
    ∃ row ∈ archive.db.versions, row.id = expected.id ∧ row.storedFile = key

end Archive

section Assertions

variable (process : Nat) (archive : Archive)

/-- What is true of a request other than an upload. -/
def Request.Known : Request → Prop
  | .claimNext queue => ∀ item ∈ queue, archive.Workable item
  | .findShared item queue => ∀ entry ∈ item :: queue, archive.Workable entry
  | .removeObjects item _ remaining queue =>
      (∀ entry ∈ item :: queue, archive.Workable entry) ∧ remaining ⊆ item.files
  | .removeTransaction document _ files =>
      ∀ file ∈ files, archive.Confined file.objectKey document.id
  | .removeCleanup keys => ∀ key ∈ keys, key ∈ archive.attached ∧ archive.Released key
  | .restoreVersionTransaction source => archive.Available source
  | .watermarkCreate _ _ key _ | .watermarkAttach _ _ key _ => archive.Pending process key
  | .watermarkFailed key => (key, process) ∈ archive.db.issuedKeys
  | .upload _ _ _ | .uploadCompare _ | .uploadPut _ _ | .uploadTransaction _ _ _
  | .uploadFailed _ => False
  | _ => True

/-- What is true of an upload up to its transaction. -/
def Request.Preparing : Request → Prop
  | .upload none _ _ => True
  | .uploadCompare target | .uploadPut target _ => target.Reserved process archive.db
  | .uploadTransaction target _ key =>
      target.Reserved process archive.db ∧ archive.Pending process key ∧ archive.NotStored key
  | _ => False

def ArchiveRequest.Known (platform : Platform) : ArchiveRequest → Prop
  | .request place => place.Known process archive
  | .upload _ => True
  | .uploadLookup sent receipt | .answered sent receipt _ =>
      archive.Received platform sent receipt
  | .uploading sent receipt place =>
      archive.Received platform sent receipt ∧ place.Preparing process archive
  | .uploadRecover sent receipt key =>
      archive.Received platform sent receipt ∧ (key, process) ∈ archive.db.issuedKeys ∧
        archive.Recoverable receipt key
  | .uploadDiscard sent receipt key _ =>
      archive.Received platform sent receipt ∧ (key, process) ∈ archive.db.issuedKeys ∧
        (receipt.isSome = true → archive.Released key)

/-- What the statement of a place writes into versions and storage. -/
structure Request.Tame (place : Request) : Prop where
  transaction : ∀ target previousId key, place ≠ .uploadTransaction target previousId key
  attach : ∀ documentId version key queue,
    place = .watermarkAttach documentId version key queue → archive.Pending process key
  restore : ∀ source, place = .restoreVersionTransaction source → archive.Available source
  stores : ∀ key, place.stores = some key → archive.Pending process key
  removes : ∀ key, place.removes = some key →
    key ∈ archive.attached ∨ (key, process) ∈ archive.db.issuedKeys

variable {process archive} {place : Request}

theorem Request.Known.tame (hknown : place.Known process archive) :
    place.Tame process archive := by
  constructor
  · rintro target previousId key rfl
    exact hknown
  · rintro documentId version key queue rfl
    exact hknown
  · rintro source rfl
    exact hknown
  · intro key hstores
    cases place
    case watermarkCreate =>
      cases hstores
      exact hknown
    case uploadTransaction => exact hknown.elim
    all_goals cases hstores
  · intro key hremoves
    cases place
    case removeObjects item keep remaining queue =>
      cases remaining with
      | nil => cases hremoves
      | cons file remaining =>
          cases hremoves
          have hfile := hknown.2 List.mem_cons_self
          exact .inl ((hknown.1 item List.mem_cons_self).files file hfile).1
    case removeCleanup keys =>
      cases keys with
      | nil => cases hremoves
      | cons first keys =>
          cases hremoves
          exact .inl (hknown key List.mem_cons_self).1
    case watermarkFailed =>
      cases hremoves
      exact .inr hknown
    case uploadFailed => exact hknown.elim
    all_goals cases hremoves

theorem Request.Preparing.tame (hpreparing : place.Preparing process archive)
    (hplace : ∀ target previousId key, place ≠ .uploadTransaction target previousId key) :
    place.Tame process archive := by
  cases place
  case uploadTransaction target previousId key => exact absurd rfl (hplace target previousId key)
  case upload | uploadCompare | uploadPut => constructor <;> simp [stores, removes]
  all_goals exact hpreparing.elim

theorem Request.Tame.backed (htame : place.Tame process archive) :
    place.Backed process archive.db := by
  cases place
  case uploadTransaction target previousId key =>
    exact absurd rfl (htame.transaction target previousId key)
  case watermarkCreate => exact (htame.stores _ rfl).1
  all_goals trivial

end Assertions

/-! ## What the others can do -/

/-- What a statement of `process` may change, as the other requests see it. -/
structure Interferes (process : Nat) (archive after : Archive) : Prop where
  evolves : Evolves process archive.db after.db
  received : archive.received ⊆ after.received
  attached : archive.attached ⊆ after.attached
  attaching : ∀ key ∈ after.attached,
    key ∈ archive.attached ∨ (key, process) ∈ archive.db.issuedKeys
  /-- A new reference to a key in use is one more in its document. -/
  references : ∀ version ∈ after.db.versions, ∀ key, version.Refers key →
    (∃ row ∈ archive.db.versions, row.documentId = version.documentId ∧ row.Refers key) ∨
      (key, process) ∈ archive.db.issuedKeys ∧ key ∉ archive.attached ∧ key ∈ after.attached ∧
        key ∈ after.db.objects
  fresh : ∀ key, key ∉ archive.attached → ∀ version ∈ after.db.versions,
    ∀ other ∈ after.db.versions, version.Refers key → other.Refers key →
    version.documentId = other.documentId
  rows : ∀ row ∈ archive.db.versions, row.documentId ∈ after.db.retiredIds ∨
    ∃ version ∈ after.db.versions, version.id = row.id ∧
      version.documentId = row.documentId ∧ version.storedFile = row.storedFile
  objects : ∀ key ∈ archive.db.objects, key ∈ after.db.objects ∨ key ∈ archive.attached ∨
    (key, process) ∈ archive.db.issuedKeys
  files : ∀ file ∈ after.db.storedFiles,
    (∃ row ∈ archive.db.storedFiles, row.objectKey = file.objectKey ∧
        (file.purgedAt = none → row.purgedAt = none)) ∨
      (file.objectKey, process) ∈ archive.db.issuedKeys ∧ file.objectKey ∉ archive.attached

section Interferes

variable {platform : Platform} {process : Nat} {choice : Choice} {archive after : Archive}
variable {place : Request} {request : ArchiveRequest}

/-- The source of a version that can still be restored has a row. -/
theorem Archive.Available.exists_row {source : DocumentVersion} (hsound : archive.db.Sound)
    (hsource : archive.Available source)
    (hfound : ∃ row ∈ archive.db.documents, row.id = source.documentId) :
    ∃ row ∈ archive.db.versions, row.documentId = source.documentId ∧
      row.storedFile = source.storedFile := by
  obtain ⟨document, hdocument, hid⟩ := hfound
  rcases hsource with hretired | hrow
  · exact absurd (hid ▸ hretired) (hsound.documentLive document hdocument)
  · exact hrow

/-- References after a statement of the portal: one more in a document that has
the file, or a new key on one version. -/
theorem Request.Tame.references (hconsistent : archive.Consistent platform)
    (htame : place.Tame process archive) {db : Database}
    (hwrite : Write process choice archive.db place db) {version : DocumentVersion}
    (hversion : version ∈ db.versions) {key : ObjectKey} (hrefers : version.Refers key) :
    (∃ row ∈ archive.db.versions, row.documentId = version.documentId ∧ row.Refers key) ∨
      ∃ documentId marked queue, place = .watermarkAttach documentId marked key queue ∧
        ∃ row ∈ archive.db.versions, row.id = marked.id ∧
          row.documentId = version.documentId := by
  obtain hold | ⟨target, previousId, hplace, -⟩ | hattach | ⟨source, rfl, rfl, hdocument, hfound⟩ :=
    refers_write hwrite hversion hrefers
  · exact .inl hold
  · exact absurd hplace (htame.transaction target previousId key)
  · exact .inr hattach
  · obtain ⟨row, hrow, hrowDocument, hfile⟩ :=
      (htame.restore source rfl).exists_row hconsistent.sound hfound
    exact .inl ⟨row, hrow, hrowDocument.trans hdocument.symm, .inl hfile⟩

/-- Statements of the portal. -/
theorem write_interferes (hconsistent : archive.Consistent platform)
    (htame : place.Tame process archive) {db : Database}
    (hwrite : Write process choice archive.db place db) :
    Interferes process archive (archive.follow place db) where
  evolves := write_evolves htame.backed hwrite
  received := List.Subset.refl _
  attached := by
    simp only [Archive.follow]
    split
    · exact List.subset_append_left _ _
    · exact List.Subset.refl _
  attaching := by
    intro key hkey
    simp only [Archive.follow] at hkey
    split at hkey
    next documentId version marked queue =>
      rw [List.mem_append, List.mem_singleton] at hkey
      rcases hkey with hold | rfl
      · exact .inl hold
      · exact .inr (htame.attach documentId version key queue rfl).1
    next => exact .inl hkey
  references := by
    intro version hversion key hrefers
    -- Only a watermark gives a version a key that was not in use.
    rcases htame.references hconsistent hwrite hversion hrefers with hold |
      ⟨documentId, marked, queue, rfl, -⟩
    · exact .inl hold
    · have hpending := htame.attach documentId marked key queue rfl
      refine .inr ⟨hpending.1, hpending.2.1,
        List.mem_append_right _ (List.mem_singleton.mpr rfl), ?_⟩
      exact (objects_write hwrite hpending.2.2).resolve_right fun hremoved => by cases hremoved
  fresh := by
    intro key hkey version hversion other hother hrefers hrefers'
    -- A key that was not in use is now on the version it was attached to.
    have hattach : ∀ row ∈ archive.db.versions, ¬row.Refers key :=
      fun row hrow hold => hkey (hconsistent.references row hrow key hold)
    rcases htame.references hconsistent hwrite hversion hrefers with ⟨row, hrow, -, hold⟩ |
      ⟨documentId, marked, queue, rfl, row, hrow, hid, hdocument⟩
    · exact absurd hold (hattach row hrow)
    · rcases htame.references hconsistent hwrite hother hrefers' with ⟨row', hrow', -, hold⟩ |
        ⟨documentId', marked', queue', heq, row', hrow', hid', hdocument'⟩
      · exact absurd hold (hattach row' hrow')
      · cases heq
        rw [← hdocument, ← hdocument',
          hconsistent.sound.version_eq_of_id hrow hrow' (hid.trans hid'.symm)]
  rows := fun row hrow => rows_write hwrite hrow
  objects := by
    intro key hkey
    rcases objects_write hwrite hkey with hstays | hremoved
    · exact .inl hstays
    · exact .inr (htame.removes key hremoved)
  files := by
    intro file hfile
    rcases storedFiles_write hwrite hfile with ⟨row, hrow, hkey, hpurged, -⟩ | ⟨-, hstores⟩
    · refine .inl ⟨row, hrow, hkey, fun hnone => ?_⟩
      by_contra hrowPurged
      rw [hnone] at hpurged
      exact absurd (hpurged (Option.isSome_iff_ne_none.mpr hrowPurged)) Bool.false_ne_true
    · exact .inr ⟨(htame.stores _ hstores).1, (htame.stores _ hstores).2.1⟩

/-- Requests do not notice the records of others. -/
theorem Interferes.of_follow {db : Database}
    (hinterferes : Interferes process archive (archive.follow place db))
    (hattach : ∀ documentId version key queue,
      place ≠ .watermarkAttach documentId version key queue) :
    Interferes process archive { archive with db := db } := by
  have hattached : (archive.follow place db).attached = archive.attached := by
    cases place
    case watermarkAttach documentId version key queue =>
      exact absurd rfl (hattach documentId version key queue)
    all_goals rfl
  have hreferences := hinterferes.references
  rw [hattached] at hreferences
  exact ⟨hinterferes.evolves, List.Subset.refl _, List.Subset.refl _, fun _ hkey => .inl hkey,
    hreferences, hinterferes.fresh, hinterferes.rows, hinterferes.objects, hinterferes.files⟩

/-- A statement that changes no row, and no object but the own ones. -/
theorem Interferes.of_objects (hconsistent : archive.Consistent platform) (clock : Int)
    {objects : List ObjectKey} {received : List Upload}
    (hobjects : ∀ key ∈ archive.db.objects,
      key ∈ objects ∨ (key, process) ∈ archive.db.issuedKeys)
    (hreceived : archive.received ⊆ received) :
    Interferes process archive { archive with
      db := { archive.db with clock := clock, objects := objects }, received := received } where
  evolves := ⟨List.Subset.refl _, List.Subset.refl _, List.Subset.refl _, fun _ hid => .inl hid,
    fun _ hentry => .inr hentry, fun document hmem => .inl ⟨document, hmem, rfl⟩⟩
  received := hreceived
  attached := List.Subset.refl _
  attaching := fun _ hattached => .inl hattached
  references := fun version hversion _ hrefers => .inl ⟨version, hversion, rfl, hrefers⟩
  fresh := fun key hkey version hversion _ _ hrefers _ =>
    absurd (hconsistent.references version hversion key hrefers) hkey
  rows := fun row hrow => .inr ⟨row, hrow, rfl, rfl, rfl⟩
  objects := by
    intro key hkey
    rcases hobjects key hkey with hstays | hown
    · exact .inl hstays
    · exact .inr (.inr hown)
  files := fun file hfile => .inl ⟨file, hfile, rfl, id⟩

theorem discard_interferes (hconsistent : archive.Consistent platform) {key : ObjectKey}
    (hkey : (key, process) ∈ archive.db.issuedKeys) :
    Interferes process archive { archive with db := archive.db.removeObject key } := by
  apply Interferes.of_objects hconsistent archive.db.clock ?_ (List.Subset.refl _)
  intro other hother
  by_cases heq : other = key
  · exact .inr (heq ▸ hkey)
  · left
    simp [hother, heq]

theorem commitUpload_interferes (hconsistent : archive.Consistent platform) {sent : Upload}
    {receipt : Option UploadReceipt} {target : UploadTarget} {key : ObjectKey} {id : String}
    (htarget : target.Reserved process archive.db) (hpending : archive.Pending process key) :
    Interferes process archive
      (archive.commitUpload process choice sent receipt target key id) := by
  obtain ⟨version, hversions, -, hdocument, hfile, hmarked⟩ :=
    commitUpload_versions process choice archive sent receipt target key id
  -- The only new reference is that of the new version to its own key.
  have hnew : ∀ row ∈ (archive.commitUpload process choice sent receipt target key id).db.versions,
      ∀ other, row.Refers other → row ∈ archive.db.versions ∨
        other = key ∧ row.documentId = target.documentId := by
    intro row hrow other hrefers
    rw [hversions, List.mem_append, List.mem_singleton] at hrow
    rcases hrow with hold | rfl
    · exact .inl hold
    · simp only [DocumentVersion.Refers, hfile, hmarked, reduceCtorEq, or_false] at hrefers
      exact .inr ⟨hrefers.symm, hdocument⟩
  constructor
  case evolves => exact commitUpload_evolves htarget
  case received => exact List.Subset.refl _
  case attached => exact List.subset_append_left _ _
  case attaching =>
    intro other hother
    simp only [Archive.commitUpload, List.mem_append, List.mem_singleton] at hother
    rcases hother with hold | rfl
    · exact .inl hold
    · exact .inr hpending.1
  case references =>
    intro row hrow other hrefers
    rcases hnew row hrow other hrefers with hold | ⟨rfl, -⟩
    · exact .inl ⟨row, hold, rfl, hrefers⟩
    · refine .inr ⟨hpending.1, hpending.2.1,
        List.mem_append_right _ (List.mem_singleton.mpr rfl), ?_⟩
      simpa [Archive.commitUpload] using hpending.2.2
  case fresh =>
    intro other hother row hrow row' hrow' hrefers hrefers'
    rcases hnew row hrow other hrefers with hold | ⟨-, hrowDocument⟩
    · -- A key in use before is excluded; the new version is the only other one.
      exact absurd (hconsistent.references row hold other hrefers) hother
    · rcases hnew row' hrow' other hrefers' with hold | ⟨-, hrowDocument'⟩
      · exact absurd (hconsistent.references row' hold other hrefers') hother
      · exact hrowDocument.trans hrowDocument'.symm
  case rows =>
    intro row hrow
    refine .inr ⟨row, ?_, rfl, rfl, rfl⟩
    rw [hversions]
    exact List.mem_append_left _ hrow
  case objects =>
    intro other hother
    left
    simpa [Archive.commitUpload] using hother
  case files =>
    intro file hmem
    simp only [Archive.commitUpload, useId_storedFiles, uploadVersion_storedFiles, List.mem_append,
      List.mem_singleton] at hmem
    rcases hmem with hold | rfl
    · exact .inl ⟨file, hold, rfl, fun hpurged => hpurged⟩
    · exact .inr ⟨hpending.1, hpending.2.1⟩

/-- Before its transaction an upload attaches nothing. -/
theorem Request.Preparing.not_attach (hpreparing : place.Preparing process archive) :
    ∀ documentId version key queue, place ≠ .watermarkAttach documentId version key queue := by
  rintro documentId version key queue rfl
  exact hpreparing

/-- Every statement interferes in the same way. -/
theorem archiveWrite_interferes (hconsistent : archive.Consistent platform)
    (hknown : request.Known process archive platform)
    (hwrite : ArchiveWrite process choice archive request after) :
    Interferes process archive after := by
  cases hwrite
  case none =>
    exact .of_objects hconsistent archive.db.clock (fun _ => .inl) (List.Subset.refl _)
  case receive =>
    exact .of_objects hconsistent archive.db.clock (fun _ => .inl) (List.subset_append_left _ _)
  case statement place db hwrite => exact write_interferes hconsistent hknown.tame hwrite
  case prepare sent receipt place db hplace hwrite =>
    exact (write_interferes hconsistent (hknown.2.tame hplace) hwrite).of_follow hknown.2.not_attach
  case commit sent receipt target previousId key id haccepted hid =>
    exact commitUpload_interferes hconsistent hknown.2.1 hknown.2.2.1
  case discard sent receipt key answer => exact discard_interferes hconsistent hknown.2.1

end Interferes

/-! ## Stability -/

section Stability

variable {process other : Nat} {archive after : Archive}
variable (hinterferes : Interferes process archive after)

include hinterferes

theorem Archive.Confined.stable {key : ObjectKey} {documentId : String}
    (hkey : archive.Confined key documentId) : after.Confined key documentId := by
  refine ⟨hinterferes.attached hkey.1, fun version hversion hrefers => ?_⟩
  rcases hinterferes.references version hversion key hrefers with ⟨row, hrow, hdocument, hold⟩ |
    ⟨-, hfresh, -⟩
  · rw [← hdocument]
    exact hkey.2 row hrow hold
  · exact absurd hkey.1 hfresh

theorem Archive.Workable.stable {item : WorkItem} (hitem : archive.Workable item) :
    after.Workable item where
  issued := Database.not_fresh_mono hinterferes.evolves.ids hitem.issued
  policy := hinterferes.evolves.policyDocument hitem.issued hitem.policy
  files := fun file hfile => (hitem.files file hfile).stable hinterferes

theorem Archive.Available.stable {source : DocumentVersion} (hsource : archive.Available source) :
    after.Available source := by
  rcases hsource with hretired | ⟨row, hrow, hdocument, hfile⟩
  · exact .inl (hinterferes.evolves.retired hretired)
  · rcases hinterferes.rows row hrow with hretired | ⟨version, hversion, -, hsame, hsameFile⟩
    · exact .inl (hdocument ▸ hretired)
    · exact .inr ⟨version, hversion, hsame.trans hdocument, hsameFile.trans hfile⟩

theorem Archive.Received.stable {platform : Platform} {sent : Upload}
    {receipt : Option UploadReceipt} (hreceived : archive.Received platform sent receipt) :
    after.Received platform sent receipt :=
  ⟨hreceived.1, hinterferes.received hreceived.2⟩

/-- A released key that was in use is not used again. -/
theorem Archive.Released.stable_of_attached {key : ObjectKey} (hattached : key ∈ archive.attached)
    (hkey : archive.Released key) : after.Released key := by
  intro version hversion hrefers
  rcases hinterferes.references version hversion key hrefers with ⟨row, hrow, -, hold⟩ |
    ⟨-, hfresh, -⟩
  · exact hkey row hrow hold
  · exact hfresh hattached

variable (hother : other ≠ process) (hsound : archive.db.Sound)

include hother hsound

theorem Archive.Pending.stable {key : ObjectKey} (hkey : archive.Pending other key) :
    after.Pending other key := by
  have hforeign : (key, process) ∉ archive.db.issuedKeys :=
    fun hissued => hother (Database.creator_unique hsound.keysOnce hkey.1 hissued)
  refine ⟨hinterferes.evolves.keys hkey.1, fun hattached => ?_, ?_⟩
  · rcases hinterferes.attaching key hattached with hold | hissued
    · exact hkey.2.1 hold
    · exact hforeign hissued
  · rcases hinterferes.objects key hkey.2.2 with hstays | hattached | hissued
    · exact hstays
    · exact absurd hattached hkey.2.1
    · exact absurd hissued hforeign

theorem Archive.NotStored.stable {key : ObjectKey} (hissued : (key, other) ∈ archive.db.issuedKeys)
    (hkey : archive.NotStored key) : after.NotStored key := by
  intro file hfile heq
  rcases hinterferes.files file hfile with ⟨row, hrow, hrowKey, -⟩ | ⟨hcreated, -⟩
  · exact hkey row hrow (hrowKey.trans heq)
  · exact hother (Database.creator_unique hsound.keysOnce hissued (heq ▸ hcreated))

theorem Archive.Released.stable {key : ObjectKey} (hissued : (key, other) ∈ archive.db.issuedKeys)
    (hkey : archive.Released key) : after.Released key := by
  intro version hversion hrefers
  rcases hinterferes.references version hversion key hrefers with ⟨row, hrow, -, hold⟩ |
    ⟨hcreated, -⟩
  · exact hkey row hrow hold
  · exact hother (Database.creator_unique hsound.keysOnce hissued hcreated)

/-- The version under the receipt keeps its file; if it goes, all references go. -/
theorem Archive.Recoverable.stable {platform : Platform} (hconsistent : archive.Consistent platform)
    (hafter : after.db.Sound) {receipt : Option UploadReceipt} {key : ObjectKey}
    (hissued : (key, other) ∈ archive.db.issuedKeys) (hkey : archive.Recoverable receipt key) :
    after.Recoverable receipt key := by
  intro expected hexpected version hversion hrefers
  rcases hinterferes.references version hversion key hrefers with ⟨before, hbefore, hsame, hold⟩ |
    ⟨hcreated, -⟩
  · obtain ⟨row, hrow, hrowId, hfile⟩ := hkey expected hexpected before hbefore hold
    rcases hinterferes.rows row hrow with hretired | ⟨kept, hkept, hkeptId, -, hkeptFile⟩
    · have hdocument :=
        hconsistent.oneDocument row hrow before hbefore key (.inl hfile) hold
      rw [hdocument, hsame] at hretired
      exact absurd hretired (hafter.versionLive version hversion)
    · exact ⟨kept, hkept, hkeptId.trans hrowId, hkeptFile.trans hfile⟩
  · exact absurd (Database.creator_unique hsound.keysOnce hissued hcreated) hother

theorem Request.Known.stable {place : Request} (hknown : place.Known other archive) :
    place.Known other after := by
  cases place
  case claimNext queue =>
    exact fun item hitem => (hknown item hitem).stable hinterferes
  case findShared item queue =>
    exact fun entry hentry => (hknown entry hentry).stable hinterferes
  case removeObjects item keep remaining queue =>
    exact ⟨fun entry hentry => (hknown.1 entry hentry).stable hinterferes, hknown.2⟩
  case removeTransaction document policy files =>
    exact fun file hfile => (hknown file hfile).stable hinterferes
  case removeCleanup keys =>
    intro key hkey
    obtain ⟨hattached, hreleased⟩ := hknown key hkey
    exact ⟨hinterferes.attached hattached, hreleased.stable_of_attached hinterferes hattached⟩
  case restoreVersionTransaction => exact Archive.Available.stable hinterferes hknown
  case watermarkCreate | watermarkAttach =>
    exact Archive.Pending.stable hinterferes hother hsound hknown
  case watermarkFailed => exact hinterferes.evolves.keys hknown
  case upload | uploadCompare | uploadPut | uploadTransaction | uploadFailed => exact hknown.elim
  all_goals trivial

theorem Request.Preparing.stable {place : Request} (hpreparing : place.Preparing other archive) :
    place.Preparing other after := by
  cases place
  case upload documentId sensitive locale =>
    cases documentId with
    | none => trivial
    | some documentId => exact hpreparing.elim
  case uploadCompare | uploadPut =>
    exact UploadTarget.Reserved.stable hinterferes.evolves hother hsound hpreparing
  case uploadTransaction target previousId key =>
    obtain ⟨htarget, hpending, hstored⟩ := hpreparing
    exact ⟨htarget.stable hinterferes.evolves hother hsound,
      hpending.stable hinterferes hother hsound,
      hstored.stable hinterferes hother hsound hpending.1⟩
  all_goals exact hpreparing.elim

/-- The assertion of a request survives the statements of the others. -/
theorem ArchiveRequest.Known.stable {platform : Platform}
    (hconsistent : archive.Consistent platform) (hafter : after.db.Sound)
    {request : ArchiveRequest} (hknown : request.Known other archive platform) :
    request.Known other after platform := by
  cases request with
  | request place => exact Request.Known.stable hinterferes hother hsound hknown
  | upload sent => trivial
  | uploadLookup sent receipt => exact Archive.Received.stable hinterferes hknown
  | answered sent receipt documentId => exact Archive.Received.stable hinterferes hknown
  | uploading sent receipt place =>
      exact ⟨hknown.1.stable hinterferes, hknown.2.stable hinterferes hother hsound⟩
  | uploadRecover sent receipt key =>
      exact ⟨hknown.1.stable hinterferes, hinterferes.evolves.keys hknown.2.1,
        hknown.2.2.stable hinterferes hother hsound hconsistent hafter hknown.2.1⟩
  | uploadDiscard sent receipt key answer =>
      exact ⟨hknown.1.stable hinterferes, hinterferes.evolves.keys hknown.2.1,
        fun hreceipt => (hknown.2.2 hreceipt).stable hinterferes hother hsound hknown.2.1⟩

end Stability

end IsmsPortal
