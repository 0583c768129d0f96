import IsmsPortal.Destruction.Writes

/-! # Integrity of the tables

What holds of the tables in every run: ids are unique and never reused, the
files of a version lie under its own document, nothing refers to a deleted
document. Requests in flight carry what they have read; the assertion of a
request says which part of it stays true whatever the others do. What others
can do is `Interference`, and each part of an assertion is stable under it.
-/

namespace IsmsPortal

open Foundation

namespace Database

/-! ## Names -/

theorem not_fresh_iff {κ : Type} {issued : List (κ × Nat)} {name : κ} :
    ¬Fresh issued name ↔ ∃ process, (name, process) ∈ issued := by
  constructor
  · intro hused
    unfold Fresh at hused
    push Not at hused
    obtain ⟨⟨name', process⟩, hmem, rfl⟩ := hused
    exact ⟨process, hmem⟩
  · rintro ⟨process, hmem⟩ hfresh
    exact hfresh _ hmem rfl

theorem not_fresh_mono {κ : Type} {issued wider : List (κ × Nat)} {name : κ}
    (hsubset : issued ⊆ wider) (hused : ¬Fresh issued name) : ¬Fresh wider name :=
  fun hfresh => hused fun entry hentry => hfresh entry (hsubset hentry)

/-- A name that was given out once has one creator. -/
theorem creator_unique {κ : Type} {issued : List (κ × Nat)} (honce : (issued.map Prod.fst).Nodup)
    {name : κ} {first second : Nat} (hfirst : (name, first) ∈ issued)
    (hsecond : (name, second) ∈ issued) : first = second :=
  congrArg Prod.snd (List.inj_on_of_nodup_map honce hfirst hsecond rfl)

/-- Ids are unique, and nothing refers to a deleted document. -/
structure Sound (db : Database) : Prop where
  policyIds : (db.policyKeys.map Prod.fst).Nodup
  policyDocuments : (db.policyKeys.map Prod.snd).Nodup
  policyIssued : ∀ key ∈ db.policyKeys, ¬db.FreshId key.1
  versionIds : (db.versionKeys.map Prod.fst).Nodup
  versionIssued : ∀ key ∈ db.versionKeys, ¬db.FreshId key.1
  versionLive : ∀ version ∈ db.versions, version.documentId ∉ db.retiredIds
  documentLive : ∀ document ∈ db.documents, document.id ∉ db.retiredIds
  documentIssued : ∀ document ∈ db.documents, ¬db.FreshId document.id
  retiredIssued : ∀ id ∈ db.retiredIds, ¬db.FreshId id
  fileIssued : ∀ file ∈ db.storedFiles, ¬db.FreshKey file.objectKey
  keysOnce : (db.issuedKeys.map Prod.fst).Nodup
  idsOnce : (db.issuedIds.map Prod.fst).Nodup

/-- The invariant of the tables. -/
structure WellFormed (db : Database) : Prop where
  policyIds : (db.policyKeys.map Prod.fst).Nodup
  policyDocuments : (db.policyKeys.map Prod.snd).Nodup
  policyIssued : ∀ key ∈ db.policyKeys, ¬db.FreshId key.1
  versionIds : (db.versionKeys.map Prod.fst).Nodup
  versionIssued : ∀ key ∈ db.versionKeys, ¬db.FreshId key.1
  /-- Files lie under the document of their version. -/
  versionFiles : ∀ version ∈ db.versions, ∀ key, version.Refers key →
    key.document = version.documentId
  referenceIssued : ∀ version ∈ db.versions, ∀ key, version.Refers key → ¬db.FreshKey key
  versionLive : ∀ version ∈ db.versions, version.documentId ∉ db.retiredIds
  documentLive : ∀ document ∈ db.documents, document.id ∉ db.retiredIds
  documentIssued : ∀ document ∈ db.documents, ¬db.FreshId document.id
  retiredIssued : ∀ id ∈ db.retiredIds, ¬db.FreshId id
  fileIssued : ∀ file ∈ db.storedFiles, ¬db.FreshKey file.objectKey
  keysOnce : (db.issuedKeys.map Prod.fst).Nodup
  idsOnce : (db.issuedIds.map Prod.fst).Nodup

theorem wellFormed_empty (clock : Int) : (empty clock).WellFormed := by
  constructor <;> simp [empty, policyKeys, versionKeys]

variable {db : Database}

theorem WellFormed.sound (hwell : db.WellFormed) : db.Sound where
  policyIds := hwell.policyIds
  policyDocuments := hwell.policyDocuments
  policyIssued := hwell.policyIssued
  versionIds := hwell.versionIds
  versionIssued := hwell.versionIssued
  versionLive := hwell.versionLive
  documentLive := hwell.documentLive
  documentIssued := hwell.documentIssued
  retiredIssued := hwell.retiredIssued
  fileIssued := hwell.fileIssued
  keysOnce := hwell.keysOnce
  idsOnce := hwell.idsOnce

/-- A document has one policy. -/
theorem Sound.policy_unique (hsound : db.Sound) {first second : RetentionPolicy}
    (hfirst : first ∈ db.policies) (hsecond : second ∈ db.policies)
    (hdocument : first.documentId = second.documentId) : first = second := by
  have hnodup := hsound.policyDocuments
  rw [policyKeys, List.map_map] at hnodup
  exact List.inj_on_of_nodup_map hnodup hfirst hsecond hdocument

theorem Sound.policy_eq_of_id (hsound : db.Sound) {first second : RetentionPolicy}
    (hfirst : first ∈ db.policies) (hsecond : second ∈ db.policies)
    (hid : first.id = second.id) : first = second := by
  have hnodup := hsound.policyIds
  rw [policyKeys, List.map_map] at hnodup
  exact List.inj_on_of_nodup_map hnodup hfirst hsecond hid

theorem Sound.version_eq_of_id (hsound : db.Sound) {first second : DocumentVersion}
    (hfirst : first ∈ db.versions) (hsecond : second ∈ db.versions)
    (hid : first.id = second.id) : first = second := by
  have hnodup := hsound.versionIds
  rw [versionKeys, List.map_map] at hnodup
  exact List.inj_on_of_nodup_map hnodup hfirst hsecond hid

/-- Neither the clock nor the storage matters. -/
theorem Sound.withObjects (hsound : db.Sound) (clock : Int) (objects : List ObjectKey) :
    { db with clock := clock, objects := objects }.Sound :=
  ⟨hsound.policyIds, hsound.policyDocuments, hsound.policyIssued, hsound.versionIds,
    hsound.versionIssued, hsound.versionLive, hsound.documentLive, hsound.documentIssued,
    hsound.retiredIssued, hsound.fileIssued, hsound.keysOnce, hsound.idsOnce⟩

theorem WellFormed.policy_unique (hwell : db.WellFormed) {first second : RetentionPolicy}
    (hfirst : first ∈ db.policies) (hsecond : second ∈ db.policies)
    (hdocument : first.documentId = second.documentId) : first = second :=
  hwell.sound.policy_unique hfirst hsecond hdocument

theorem WellFormed.policy_eq_of_id (hwell : db.WellFormed) {first second : RetentionPolicy}
    (hfirst : first ∈ db.policies) (hsecond : second ∈ db.policies)
    (hid : first.id = second.id) : first = second :=
  hwell.sound.policy_eq_of_id hfirst hsecond hid

theorem WellFormed.version_eq_of_id (hwell : db.WellFormed) {first second : DocumentVersion}
    (hfirst : first ∈ db.versions) (hsecond : second ∈ db.versions)
    (hid : first.id = second.id) : first = second :=
  hwell.sound.version_eq_of_id hfirst hsecond hid

/-- The files of a document lie under it. -/
theorem WellFormed.filesOf_document (hwell : db.WellFormed) {documentId : String}
    {file : StoredFile} (hfile : file ∈ db.filesOf documentId) :
    file.objectKey.document = documentId := by
  simp only [filesOf, versionsOf, List.mem_filter, List.any_eq_true, decide_eq_true_eq] at hfile
  obtain ⟨-, version, ⟨hversion, hdocument⟩, hrefers⟩ := hfile
  rw [hwell.versionFiles version hversion _ hrefers, hdocument]

end Database

/-! ## What requests know -/

section Assertions

variable (process : Nat) (db : Database)

/-- A policy read by the worker: its id stays tied to the document. -/
structure WorkItem.Valid (item : WorkItem) : Prop where
  issued : ¬db.FreshId item.policy.id
  policy : ∀ row ∈ db.policies, row.id = item.policy.id → row.documentId = item.document.id
  files : ∀ file ∈ item.files, file.objectKey.document = item.document.id ∧
    ¬db.FreshKey file.objectKey

/-- A new key, which no version refers to yet. -/
def Unattached (key : ObjectKey) : Prop :=
  (key, process) ∈ db.issuedKeys ∧ ∀ version ∈ db.versions, ¬version.Refers key

/-- The id of a new document belongs to the upload that drew it. -/
def UploadTarget.Reserved (target : UploadTarget) : Prop :=
  target.isNew = true → (target.documentId, process) ∈ db.issuedIds ∧
    target.documentId ∉ db.retiredIds ∧
    ∀ document ∈ db.documents, document.id ≠ target.documentId

/-- New rows get keys and ids of their own request. -/
def Request.Backed : Request → Prop
  | .uploadTransaction target _ key =>
      target.Reserved process db ∧ (key, process) ∈ db.issuedKeys
  | .watermarkCreate _ _ key _ => (key, process) ∈ db.issuedKeys
  | _ => True

/-- A version read by a publication of the document. -/
def DocumentVersion.BelongsTo (version : DocumentVersion) (documentId : String) : Prop :=
  ¬db.FreshId version.id ∧
    ∀ row ∈ db.versions, row.id = version.id → row.documentId = documentId

/-- A version to be restored: its source file is still referred to, or its
document is gone. -/
def DocumentVersion.Restorable (source : DocumentVersion) : Prop :=
  source.storedFile.document = source.documentId ∧
    (source.documentId ∈ db.retiredIds ∨ ∃ row ∈ db.versions,
      row.documentId = source.documentId ∧ row.storedFile = source.storedFile)

/-- What is true of a request in flight. -/
def Request.Valid : Request → Prop
  | .claimNext queue => ∀ item ∈ queue, item.Valid db
  | .findShared item queue => ∀ entry ∈ item :: queue, entry.Valid db
  | .removeObjects item keep remaining queue =>
      (∀ entry ∈ item :: queue, entry.Valid db) ∧ keep = [] ∧ remaining ⊆ item.files
  | .removeTransaction document _ files =>
      ∀ file ∈ files, file.objectKey.document = document.id
  | .removeCleanup keys => ∀ key ∈ keys, key.document ∈ db.retiredIds
  | .uploadCompare target | .uploadPut target _ => target.Reserved process db
  | .uploadTransaction target _ key =>
      target.Reserved process db ∧ Unattached process db key ∧ key.document = target.documentId
  | .uploadFailed key | .watermarkFailed key => Unattached process db key
  | .restoreVersionTransaction source => source.Restorable db
  | .watermarkRead documentId queue => ∀ version ∈ queue, version.BelongsTo db documentId
  | .watermarkPut documentId version queue =>
      ∀ entry ∈ version :: queue, entry.BelongsTo db documentId
  | .watermarkCreate documentId version key queue
  | .watermarkAttach documentId version key queue =>
      (∀ entry ∈ version :: queue, entry.BelongsTo db documentId) ∧
        Unattached process db key ∧ key.document = documentId
  | _ => True

variable {process db} in
theorem Request.Valid.backed {request : Request} (hvalid : request.Valid process db) :
    request.Backed process db := by
  cases request
  case uploadTransaction => exact ⟨hvalid.1, hvalid.2.1.1⟩
  case watermarkCreate => exact hvalid.2.1.1
  all_goals trivial

end Assertions

/-! ## What the others can do -/

/-- How ids and documents change by a statement of `process`. -/
structure Evolves (process : Nat) (db after : Database) : Prop where
  keys : db.issuedKeys ⊆ after.issuedKeys
  ids : db.issuedIds ⊆ after.issuedIds
  retired : db.retiredIds ⊆ after.retiredIds
  retiring : ∀ id ∈ after.retiredIds,
    id ∈ db.retiredIds ∨ ∃ document ∈ db.documents, document.id = id
  policies : ∀ key ∈ after.policyKeys, db.FreshId key.1 ∨ key ∈ db.policyKeys
  documents : ∀ document ∈ after.documents,
    (∃ row ∈ db.documents, row.id = document.id) ∨ (document.id, process) ∈ db.issuedIds

/-- What a statement of `process` may change, as the other requests see it. -/
structure Interference (process : Nat) (db after : Database) : Prop where
  keys : db.issuedKeys ⊆ after.issuedKeys
  ids : db.issuedIds ⊆ after.issuedIds
  retired : db.retiredIds ⊆ after.retiredIds
  retiring : ∀ id ∈ after.retiredIds,
    id ∈ db.retiredIds ∨ ∃ document ∈ db.documents, document.id = id
  policies : ∀ key ∈ after.policyKeys, db.FreshId key.1 ∨ key ∈ db.policyKeys
  versions : ∀ key ∈ after.versionKeys, db.FreshId key.1 ∨ key ∈ db.versionKeys
  documents : ∀ document ∈ after.documents,
    (∃ row ∈ db.documents, row.id = document.id) ∨ (document.id, process) ∈ db.issuedIds
  references : ∀ version ∈ after.versions, ∀ key, version.Refers key →
    (∃ row ∈ db.versions, row.Refers key) ∨ (key, process) ∈ db.issuedKeys
  sources : ∀ row ∈ db.versions, row.documentId ∈ after.retiredIds ∨
    ∃ version ∈ after.versions,
      version.documentId = row.documentId ∧ version.storedFile = row.storedFile

section Interference

variable {process : Nat} {choice : Choice} {db after : Database} {request : Request}

theorem issuedKeys_subset (hwrite : Write process choice db request after) :
    db.issuedKeys ⊆ after.issuedKeys := by
  obtain hkeys | ⟨key, -, hkeys⟩ := issuedKeys_write hwrite
  · rw [hkeys]
    exact List.Subset.refl _
  · rw [hkeys]
    exact List.subset_append_left _ _

theorem issuedIds_subset (hwrite : Write process choice db request after) :
    db.issuedIds ⊆ after.issuedIds := by
  obtain hids | ⟨-, hids⟩ := issuedIds_write hwrite
  · rw [hids]
    exact List.Subset.refl _
  · rw [hids]
    exact List.subset_append_left _ _

theorem retiredIds_subset (hwrite : Write process choice db request after) :
    db.retiredIds ⊆ after.retiredIds := by
  obtain hretired | ⟨row, -, hretired, -⟩ := retiredIds_write hwrite
  · rw [hretired]
    exact List.Subset.refl _
  · rw [hretired]
    exact List.subset_append_left _ _

/-- The source of a version that can still be restored has a row. -/
theorem DocumentVersion.Restorable.exists_row {source : DocumentVersion}
    (hwell : db.WellFormed) (hsource : source.Restorable db)
    (hfound : ∃ row ∈ db.documents, row.id = source.documentId) :
    ∃ row ∈ db.versions, row.documentId = source.documentId ∧
      row.storedFile = source.storedFile := by
  obtain ⟨document, hdocument, hid⟩ := hfound
  rcases hsource.2 with hretired | hrow
  · exact absurd (hid ▸ hretired) (hwell.documentLive document hdocument)
  · exact hrow

theorem write_evolves (hbacked : request.Backed process db)
    (hwrite : Write process choice db request after) : Evolves process db after where
  keys := issuedKeys_subset hwrite
  ids := issuedIds_subset hwrite
  retired := retiredIds_subset hwrite
  retiring := by
    intro id hid
    obtain hretired | ⟨row, hrow, hretired, -⟩ := retiredIds_write hwrite
    · exact .inl (hretired ▸ hid)
    · rw [hretired, List.mem_append, List.mem_singleton] at hid
      exact hid.imp_right fun heq => ⟨row, hrow, heq.symm⟩
  policies := by
    intro key hkey
    obtain hkeys | ⟨body, -, hfresh, hkeys, -⟩ := policyKeys_write hwrite
    · exact .inr (hkeys.subset hkey)
    · rw [hkeys, List.mem_append, List.mem_singleton] at hkey
      rcases hkey with hold | rfl
      · exact .inr hold
      · exact .inl hfresh
  documents := by
    intro document hmem
    obtain hold | ⟨target, previousId, key, rfl, hnew, hid⟩ := documents_write hwrite document hmem
    · exact .inl hold
    · exact .inr (hid ▸ (hbacked.1 hnew).1)

theorem write_interference (hwell : db.WellFormed) (hvalid : request.Valid process db)
    (hwrite : Write process choice db request after) : Interference process db after where
  keys := issuedKeys_subset hwrite
  ids := issuedIds_subset hwrite
  retired := retiredIds_subset hwrite
  retiring := (write_evolves hvalid.backed hwrite).retiring
  policies := (write_evolves hvalid.backed hwrite).policies
  versions := by
    intro key hkey
    obtain hkeys | ⟨documentId, hfresh, hkeys, -⟩ := versionKeys_write hwrite
    · exact .inr (hkeys.subset hkey)
    · rw [hkeys, List.mem_append, List.mem_singleton] at hkey
      rcases hkey with hold | rfl
      · exact .inr hold
      · exact .inl hfresh
  documents := (write_evolves hvalid.backed hwrite).documents
  references := by
    intro version hversion key hrefers
    obtain ⟨row, hrow, -, hold⟩ | ⟨target, previousId, rfl, -⟩ |
      ⟨documentId, marked, queue, rfl, -⟩ | ⟨source, rfl, rfl, -, hfound⟩ :=
      refers_write hwrite hversion hrefers
    · exact .inl ⟨row, hrow, hold⟩
    · exact .inr hvalid.2.1.1
    · exact .inr hvalid.2.1.1
    · obtain ⟨row, hrow, -, hfile⟩ := hvalid.exists_row hwell hfound
      exact .inl ⟨row, hrow, .inl hfile⟩
  sources := fun row hrow => sources_write hwrite hrow

theorem Interference.drift (process : Nat) (db : Database) (time : Int) :
    Interference process db { db with clock := time } where
  keys := List.Subset.refl _
  ids := List.Subset.refl _
  retired := List.Subset.refl _
  retiring := fun _ hid => .inl hid
  policies := fun _ hkey => .inr hkey
  versions := fun _ hkey => .inr hkey
  documents := fun document hdocument => .inl ⟨document, hdocument, rfl⟩
  references := fun version hversion _ hrefers => .inl ⟨version, hversion, hrefers⟩
  sources := fun row hrow => .inr ⟨row, hrow, rfl, rfl⟩

theorem Interference.evolves (hinterference : Interference process db after) :
    Evolves process db after where
  keys := hinterference.keys
  ids := hinterference.ids
  retired := hinterference.retired
  retiring := hinterference.retiring
  policies := hinterference.policies
  documents := hinterference.documents

/-- The id of a policy stays tied to its document. -/
theorem Evolves.policyDocument (hevolves : Evolves process db after) {id documentId : String}
    (hissued : ¬db.FreshId id)
    (hpolicy : ∀ row ∈ db.policies, row.id = id → row.documentId = documentId) :
    ∀ row ∈ after.policies, row.id = id → row.documentId = documentId := by
  intro row hrow hid
  rcases hevolves.policies _ (Database.mem_policyKeys hrow) with hfresh | hold
  · exact absurd (hid ▸ hfresh) hissued
  · obtain ⟨before, hbefore, heq⟩ := List.mem_map.mp hold
    rw [Prod.mk.injEq] at heq
    rw [← heq.2]
    exact hpolicy before hbefore (heq.1.trans hid)

theorem UploadTarget.Reserved.stable (hevolves : Evolves process db after) {other : Nat}
    (hother : other ≠ process) (hsound : db.Sound) {target : UploadTarget}
    (htarget : target.Reserved other db) : target.Reserved other after := by
  intro hnew
  obtain ⟨hissued, hlive, habsent⟩ := htarget hnew
  refine ⟨hevolves.ids hissued, fun hretired => ?_, fun document hdocument hid => ?_⟩
  · rcases hevolves.retiring _ hretired with hold | ⟨document, hdocument, hid⟩
    · exact hlive hold
    · exact habsent document hdocument hid
  · rcases hevolves.documents document hdocument with ⟨row, hrow, hrowId⟩ | hcreated
    · exact habsent row hrow (hrowId.trans hid)
    · exact hother (Database.creator_unique hsound.idsOnce hissued (hid ▸ hcreated))

variable (hinterference : Interference process db after)

include hinterference

theorem WorkItem.Valid.stable {item : WorkItem} (hitem : item.Valid db) : item.Valid after where
  issued := Database.not_fresh_mono hinterference.ids hitem.issued
  policy := hinterference.evolves.policyDocument hitem.issued hitem.policy
  files := by
    intro file hfile
    obtain ⟨hdocument, hissued⟩ := hitem.files file hfile
    exact ⟨hdocument, Database.not_fresh_mono hinterference.keys hissued⟩

theorem DocumentVersion.BelongsTo.stable {version : DocumentVersion} {documentId : String}
    (hversion : version.BelongsTo db documentId) : version.BelongsTo after documentId := by
  refine ⟨Database.not_fresh_mono hinterference.ids hversion.1, fun row hrow hid => ?_⟩
  rcases hinterference.versions _ (Database.mem_versionKeys hrow) with hfresh | hold
  · exact absurd (hid ▸ hfresh) hversion.1
  · obtain ⟨before, hbefore, heq⟩ := List.mem_map.mp hold
    rw [Prod.mk.injEq] at heq
    rw [← heq.2]
    exact hversion.2 before hbefore (heq.1.trans hid)

theorem DocumentVersion.Restorable.stable {source : DocumentVersion}
    (hsource : source.Restorable db) : source.Restorable after := by
  refine ⟨hsource.1, ?_⟩
  rcases hsource.2 with hretired | ⟨row, hrow, hdocument, hfile⟩
  · exact .inl (hinterference.retired hretired)
  · rw [← hdocument, ← hfile]
    exact hinterference.sources row hrow

variable {other : Nat} (hother : other ≠ process)

include hother

theorem Unattached.stable (hwell : db.WellFormed) {key : ObjectKey}
    (hkey : Unattached other db key) : Unattached other after key := by
  refine ⟨hinterference.keys hkey.1, fun version hversion hrefers => ?_⟩
  rcases hinterference.references version hversion key hrefers with ⟨row, hrow, hold⟩ | hissued
  · exact hkey.2 row hrow hold
  · exact hother (Database.creator_unique hwell.keysOnce hkey.1 hissued)

/-- The assertion of a request survives the statements of the others. -/
theorem Request.Valid.stable (hwell : db.WellFormed) {pending : Request}
    (hpending : pending.Valid other db) : pending.Valid other after := by
  cases pending
  case claimNext queue =>
    exact fun item hitem => (hpending item hitem).stable hinterference
  case findShared item queue =>
    exact fun entry hentry => (hpending entry hentry).stable hinterference
  case removeObjects item keep remaining queue =>
    exact ⟨fun entry hentry => (hpending.1 entry hentry).stable hinterference, hpending.2⟩
  case removeTransaction => exact hpending
  case removeCleanup keys =>
    exact fun key hkey => hinterference.retired (hpending key hkey)
  case uploadCompare | uploadPut =>
    exact UploadTarget.Reserved.stable hinterference.evolves hother hwell.sound hpending
  case uploadTransaction target previousId key =>
    exact ⟨hpending.1.stable hinterference.evolves hother hwell.sound,
      hpending.2.1.stable hinterference hother hwell, hpending.2.2⟩
  case uploadFailed | watermarkFailed =>
    exact Unattached.stable hinterference hother hwell hpending
  case restoreVersionTransaction =>
    exact DocumentVersion.Restorable.stable hinterference hpending
  case watermarkRead documentId queue =>
    exact fun version hversion => (hpending version hversion).stable hinterference
  case watermarkPut documentId version queue =>
    exact fun entry hentry => (hpending entry hentry).stable hinterference
  case watermarkCreate | watermarkAttach =>
    exact ⟨fun entry hentry => (hpending.1 entry hentry).stable hinterference,
      hpending.2.1.stable hinterference hother hwell, hpending.2.2⟩
  all_goals trivial

end Interference

/-! ## The outline -/

section Outline

variable {process : Nat} {choice : Choice} {db after : Database} {request : Request}

theorem versionFiles_write (hwell : db.WellFormed) (hvalid : request.Valid process db)
    (hwrite : Write process choice db request after) :
    ∀ version ∈ after.versions, ∀ key, version.Refers key →
      key.document = version.documentId := by
  intro version hversion key hrefers
  obtain ⟨row, hrow, hdocument, hold⟩ | ⟨target, previousId, rfl, hdocument⟩ |
    ⟨documentId, marked, queue, rfl, row, hrow, hid, hdocument⟩ |
    ⟨source, rfl, rfl, hdocument, -⟩ := refers_write hwrite hversion hrefers
  · exact hdocument ▸ hwell.versionFiles row hrow key hold
  · exact hvalid.2.2.trans hdocument.symm
  · have hrowDocument := (hvalid.1 marked List.mem_cons_self).2 row hrow hid
    exact hvalid.2.2.trans (hrowDocument.symm.trans hdocument)
  · exact hvalid.1.trans hdocument.symm

theorem referenceIssued_write (hwell : db.WellFormed) (hvalid : request.Valid process db)
    (hwrite : Write process choice db request after) :
    ∀ version ∈ after.versions, ∀ key, version.Refers key → ¬db.FreshKey key := by
  intro version hversion key hrefers
  have hinterference := write_interference hwell hvalid hwrite
  rcases hinterference.references version hversion key hrefers with ⟨row, hrow, hold⟩ | hissued
  · exact hwell.referenceIssued row hrow key hold
  · exact Database.not_fresh_iff.mpr ⟨process, hissued⟩

theorem fileIssued_write (hsound : db.Sound) (hbacked : request.Backed process db)
    (hwrite : Write process choice db request after) :
    ∀ file ∈ after.storedFiles, ¬db.FreshKey file.objectKey := by
  intro file hfile
  rcases storedFiles_write hwrite hfile with ⟨row, hrow, hkey, -⟩ | ⟨-, hstores⟩
  · exact hkey ▸ hsound.fileIssued row hrow
  · refine Database.not_fresh_iff.mpr ⟨process, ?_⟩
    obtain ⟨target, previousId, rfl⟩ | ⟨documentId, marked, queue, rfl⟩ :=
      Request.stores_eq_some hstores
    · exact hbacked.2
    · exact hbacked

theorem versionLive_write (hsound : db.Sound) (hbacked : request.Backed process db)
    (hwrite : Write process choice db request after) :
    ∀ version ∈ after.versions, version.documentId ∉ db.retiredIds := by
  intro version hversion
  cases hwrite
  case upload target previousId key hfound hfresh =>
    obtain ⟨row, hversions, -, hdocument, -⟩ := uploadVersion_versions db target key choice
    simp only [Database.issueId, hversions, List.mem_append, List.mem_singleton] at hversion
    rcases hversion with hold | rfl
    · exact hsound.versionLive version hold
    · rw [hdocument]
      rcases hfound with hnew | ⟨document, hmem, hid⟩
      · exact (hbacked.1 hnew).2.1
      · exact hid ▸ hsound.documentLive document hmem
  case restoreVersion source hfound hfresh =>
    obtain ⟨document, hmem, hid⟩ := hfound
    simp only [Database.issueId, Database.createVersion, Database.updateDocuments,
      List.mem_append, List.mem_singleton] at hversion
    rcases hversion with hold | rfl
    · exact hsound.versionLive version hold
    · exact hid ▸ hsound.documentLive document hmem
  case attach | metadata =>
    obtain ⟨row, hrow, rfl⟩ := List.mem_map.mp hversion
    split <;> exact hsound.versionLive row hrow
  case delete =>
    exact hsound.versionLive version (List.mem_of_mem_filter hversion)
  all_goals exact hsound.versionLive version hversion

theorem documentLive_write (hsound : db.Sound) (hbacked : request.Backed process db)
    (hwrite : Write process choice db request after) :
    ∀ document ∈ after.documents, document.id ∉ db.retiredIds := by
  intro document hmem
  obtain ⟨row, hrow, hid⟩ | ⟨target, previousId, key, rfl, hnew, hid⟩ :=
    documents_write hwrite document hmem
  · exact hid ▸ hsound.documentLive row hrow
  · exact hid ▸ (hbacked.1 hnew).2.1

/-- Every statement keeps the tables sound. -/
theorem write_sound (hsound : db.Sound) (hbacked : request.Backed process db)
    (hwrite : Write process choice db request after) : after.Sound where
  policyIds := by
    obtain hkeys | ⟨body, -, hfresh, hkeys, -⟩ := policyKeys_write hwrite
    · exact hsound.policyIds.sublist (hkeys.map _)
    · rw [hkeys]
      apply Table.nodup_insert hsound.policyIds
      intro key hkey hid
      exact hsound.policyIssued key hkey (hid ▸ hfresh)
  policyDocuments := by
    obtain hkeys | ⟨body, hnone, -, hkeys, -⟩ := policyKeys_write hwrite
    · exact hsound.policyDocuments.sublist (hkeys.map _)
    · rw [hkeys]
      apply Table.nodup_insert hsound.policyDocuments
      intro key hkey hdocument
      obtain ⟨policy, hpolicy, rfl⟩ := List.mem_map.mp hkey
      simp only [Database.policyOf, List.find?_eq_none, decide_eq_true_eq] at hnone
      exact hnone policy hpolicy hdocument
  policyIssued := by
    intro key hkey
    obtain hkeys | ⟨body, -, -, hkeys, hids, -⟩ := policyKeys_write hwrite
    · exact Database.not_fresh_mono (issuedIds_subset hwrite)
        (hsound.policyIssued key (hkeys.subset hkey))
    · rw [hkeys, List.mem_append, List.mem_singleton] at hkey
      rcases hkey with hold | rfl
      · exact Database.not_fresh_mono (issuedIds_subset hwrite) (hsound.policyIssued key hold)
      · exact Database.not_fresh_iff.mpr ⟨process, by simp [hids]⟩
  versionIds := by
    obtain hkeys | ⟨documentId, hfresh, hkeys, -⟩ := versionKeys_write hwrite
    · exact hsound.versionIds.sublist (hkeys.map _)
    · rw [hkeys]
      apply Table.nodup_insert hsound.versionIds
      intro key hkey hid
      exact hsound.versionIssued key hkey (hid ▸ hfresh)
  versionIssued := by
    intro key hkey
    obtain hkeys | ⟨documentId, -, hkeys, hids⟩ := versionKeys_write hwrite
    · exact Database.not_fresh_mono (issuedIds_subset hwrite)
        (hsound.versionIssued key (hkeys.subset hkey))
    · rw [hkeys, List.mem_append, List.mem_singleton] at hkey
      rcases hkey with hold | rfl
      · exact Database.not_fresh_mono (issuedIds_subset hwrite) (hsound.versionIssued key hold)
      · exact Database.not_fresh_iff.mpr ⟨process, by simp [hids]⟩
  versionLive := by
    intro version hversion
    have hlive := versionLive_write hsound hbacked hwrite version hversion
    obtain hretired | ⟨row, -, hretired, -, -, hversions⟩ := retiredIds_write hwrite
    · exact hretired ▸ hlive
    · rw [hretired, List.mem_append, List.mem_singleton, not_or]
      exact ⟨hlive, hversions version hversion⟩
  documentLive := by
    intro document hdocument
    have hlive := documentLive_write hsound hbacked hwrite document hdocument
    obtain hretired | ⟨row, -, hretired, hdocuments, -⟩ := retiredIds_write hwrite
    · exact hretired ▸ hlive
    · rw [hretired, List.mem_append, List.mem_singleton, not_or]
      exact ⟨hlive, hdocuments document hdocument⟩
  documentIssued := by
    intro document hdocument
    refine Database.not_fresh_mono (issuedIds_subset hwrite) ?_
    obtain ⟨row, hrow, hid⟩ | ⟨target, previousId, key, rfl, hnew, hid⟩ :=
      documents_write hwrite document hdocument
    · exact hid ▸ hsound.documentIssued row hrow
    · exact Database.not_fresh_iff.mpr ⟨process, hid ▸ (hbacked.1 hnew).1⟩
  retiredIssued := by
    intro id hid
    refine Database.not_fresh_mono (issuedIds_subset hwrite) ?_
    rcases (write_evolves hbacked hwrite).retiring id hid with hold | ⟨row, hrow, rfl⟩
    · exact hsound.retiredIssued id hold
    · exact hsound.documentIssued row hrow
  fileIssued := fun file hfile =>
    Database.not_fresh_mono (issuedKeys_subset hwrite) (fileIssued_write hsound hbacked hwrite file hfile)
  keysOnce := by
    obtain hkeys | ⟨key, hfresh, hkeys⟩ := issuedKeys_write hwrite
    · exact hkeys ▸ hsound.keysOnce
    · exact hkeys ▸ Table.nodup_insert hsound.keysOnce hfresh
  idsOnce := by
    obtain hids | ⟨hfresh, hids⟩ := issuedIds_write hwrite
    · exact hids ▸ hsound.idsOnce
    · exact hids ▸ Table.nodup_insert hsound.idsOnce hfresh

/-- Every statement keeps the tables well formed. -/
theorem write_wellFormed (hwell : db.WellFormed) (hvalid : request.Valid process db)
    (hwrite : Write process choice db request after) : after.WellFormed :=
  have hsound := write_sound hwell.sound hvalid.backed hwrite
  { policyIds := hsound.policyIds
    policyDocuments := hsound.policyDocuments
    policyIssued := hsound.policyIssued
    versionIds := hsound.versionIds
    versionIssued := hsound.versionIssued
    versionFiles := versionFiles_write hwell hvalid hwrite
    referenceIssued := fun version hversion key hrefers =>
      Database.not_fresh_mono (issuedKeys_subset hwrite)
        (referenceIssued_write hwell hvalid hwrite version hversion key hrefers)
    versionLive := hsound.versionLive
    documentLive := hsound.documentLive
    documentIssued := hsound.documentIssued
    retiredIssued := hsound.retiredIssued
    fileIssued := hsound.fileIssued
    keysOnce := hsound.keysOnce
    idsOnce := hsound.idsOnce }

theorem workItem_valid (hwell : db.WellFormed) {policy : RetentionPolicy} {item : WorkItem}
    (hpolicy : policy ∈ db.policies) (hitem : workItem db policy = some item) :
    item.Valid db ∧ item.policy = policy := by
  simp only [workItem, Option.map_eq_some_iff] at hitem
  obtain ⟨document, hdocument, rfl⟩ := hitem
  have hid : document.id = policy.documentId := by simpa using List.find?_some hdocument
  refine ⟨⟨hwell.policyIssued _ (Database.mem_policyKeys hpolicy), ?_, ?_⟩, rfl⟩
  · intro row hrow hrowId
    rw [hwell.policy_eq_of_id hrow hpolicy hrowId, hid]
  · intro file hfile
    exact ⟨hwell.filesOf_document hfile, hwell.fileIssued file (List.mem_of_mem_filter hfile)⟩

/-- No other document shares a file. -/
theorem sharedKeys_eq_nil (hwell : db.WellFormed) {item : WorkItem} (hitem : item.Valid db) :
    sharedKeys db item = [] := by
  simp only [sharedKeys, List.filter_eq_nil_iff, List.mem_map, List.any_eq_true,
    decide_eq_true_eq, not_exists, not_and]
  rintro key ⟨file, hfile, rfl⟩ version hversion hdocument hrefers
  have hkey := (hitem.files file hfile).1
  rw [hwell.versionFiles version hversion _ hrefers] at hkey
  exact hdocument hkey

/-- A key just drawn is not attached to any version. -/
theorem unattached_putObject (hwell : db.WellFormed) {key : ObjectKey}
    (hfresh : db.FreshKey key) : Unattached process (db.putObject process key) key := by
  refine ⟨List.mem_append_right _ (List.mem_singleton.mpr rfl), ?_⟩
  intro version hversion hrefers
  exact hwell.referenceIssued version hversion key hrefers hfresh

theorem reserved_issueId (hwell : db.WellFormed) {target : UploadTarget}
    (hfresh : db.FreshId target.documentId) :
    target.Reserved process (db.issueId process target.documentId) := by
  intro _
  refine ⟨List.mem_append_right _ (List.mem_singleton.mpr rfl), ?_, ?_⟩
  · exact fun hretired => hwell.retiredIssued _ hretired hfresh
  · exact fun document hdocument hid => hwell.documentIssued document hdocument (hid ▸ hfresh)

theorem unmarkedVersions_belong (hwell : db.WellFormed) {documentId : String}
    {version : DocumentVersion} (hversion : version ∈ unmarkedVersions db documentId) :
    version.BelongsTo db documentId := by
  have hof := List.mem_of_mem_filter hversion
  simp only [Database.versionsOf, List.mem_filter, decide_eq_true_eq] at hof
  refine ⟨hwell.versionIssued _ (Database.mem_versionKeys hof.1), fun row hrow hid => ?_⟩
  rw [hwell.version_eq_of_id hrow hof.1 hid, hof.2]

/-- A statement establishes the assertion of its own request. -/
theorem advance_valid (hwell : db.WellFormed) (hvalid : request.Valid process db)
    {following : Request}
    (hadvance : advance process choice db request = some (some following, after)) :
    following.Valid process after := by
  have hinterference := write_interference hwell hvalid (advance_write hadvance)
  have hstep := advance_step hadvance
  generalize hremaining : some following = remaining at hstep
  cases hstep <;> cases hremaining
  case findApproved hselection =>
    intro item hitem
    obtain ⟨policy, hpolicy, hread⟩ := List.mem_filterMap.mp hitem
    exact (workItem_valid hwell (hselection.2.1 policy hpolicy).1 hread).1
  case claim item queue hclaimed =>
    exact fun entry hentry => (hvalid entry hentry).stable hinterference
  case missClaim item queue =>
    exact fun entry hentry => (hvalid entry (List.mem_cons_of_mem _ hentry)).stable hinterference
  case findShared item queue =>
    exact ⟨hvalid, sharedKeys_eq_nil hwell (hvalid item List.mem_cons_self),
      List.Subset.refl _⟩
  case removeFile item keep file remaining queue | skipFile item keep file remaining queue _ =>
    exact ⟨fun entry hentry => (hvalid.1 entry hentry).stable hinterference, hvalid.2.1,
      fun entry hentry => hvalid.2.2 (List.mem_cons_of_mem _ hentry)⟩
  case destroy item keep queue =>
    exact fun entry hentry => (hvalid.1 entry (List.mem_cons_of_mem _ hentry)).stable hinterference
  case readDocument documentId document hfound =>
    have hid : document.id = documentId := by simpa using List.find?_some hfound
    exact fun file hfile => hid ▸ hwell.filesOf_document hfile
  case delete document policy files hchecked hfound =>
    intro key hkey
    obtain ⟨file, hfile, rfl⟩ := List.mem_map.mp hkey
    simp [deleteDocument, hvalid file hfile]
  case cleanup key keys | skipCleanup key keys =>
    exact fun entry hentry => hinterference.retired (hvalid entry (List.mem_cons_of_mem _ hentry))
  case oldDocument documentId sensitive locale =>
    exact fun hnew => absurd hnew Bool.false_ne_true
  case newDocument sensitive locale hfresh => exact reserved_issueId hwell hfresh
  case compare target => exact hvalid
  case put target previousId hfresh => exact ⟨hvalid, unattached_putObject hwell hfresh, rfl⟩
  case refuseUpload target previousId key => exact hvalid.2.1
  case readSource documentId versionId source hfound =>
    have hsource : source ∈ db.versions := List.mem_of_find?_eq_some hfound
    exact ⟨hwell.versionFiles source hsource _ (.inl rfl), .inr ⟨source, hsource, rfl, rfl⟩⟩
  case findUnmarked documentId =>
    exact fun version hversion => unmarkedVersions_belong hwell hversion
  case readMarked documentId version queue => exact hvalid
  case putMarked documentId version queue hfresh =>
    exact ⟨hvalid, unattached_putObject hwell hfresh, rfl⟩
  case failMarked documentId version key queue => exact hvalid.2.1
  case createMarked documentId version key queue => exact hvalid
  case attach documentId version key queue =>
    exact fun entry hentry =>
      (hvalid.1 entry (List.mem_cons_of_mem _ hentry)).stable hinterference
  case failAttach documentId version key queue => exact hvalid.2.1
  -- The remaining requests go on with a request about which nothing is asserted.
  all_goals trivial

/-- The tables are well formed and every request in flight is valid. -/
def integrity : Concurrent.Outline Database Request where
  invariant := Database.WellFormed
  assertion process db request := request.Valid process db

theorem valid_of_initial {process : Nat} {db : Database} {request : Request}
    (hinitial : request.initial = true) : request.Valid process db := by
  cases request <;> trivial

theorem integrity_valid :
    integrity.Valid portal (fun db => db = Database.empty db.clock) fun _ _ => True where
  init := by
    intro store hempty
    rw [hempty]
    exact Database.wellFormed_empty _
  drift := by
    intro time store after hdrift hwell
    obtain ⟨-, rfl⟩ := Concurrent.drift_eq hdrift
    refine ⟨⟨hwell.policyIds, hwell.policyDocuments, hwell.policyIssued, hwell.versionIds,
      hwell.versionIssued, hwell.versionFiles, hwell.referenceIssued, hwell.versionLive,
      hwell.documentLive, hwell.documentIssued, hwell.retiredIssued, hwell.fileIssued,
      hwell.keysOnce, hwell.idsOnce⟩, ?_⟩
    intro name request hvalid
    exact hvalid.stable (Interference.drift (name + 1) store time) (Nat.ne_add_one name) hwell
  start := fun name store request hstart _ => valid_of_initial hstart
  own := by
    intro config name choice request remaining after hholds hrequest _ hadvance
    have hvalid := hholds.2 name request hrequest
    refine ⟨write_wellFormed hholds.1 hvalid (advance_write hadvance), ?_⟩
    rintro following rfl
    exact advance_valid hholds.1 hvalid hadvance
  others := by
    intro config name choice request remaining after hholds hrequest _ hadvance other pending
      hother hpending
    have hinterference := write_interference hholds.1 (hholds.2 name request hrequest)
      (advance_write hadvance)
    exact (hholds.2 other pending hpending).stable hinterference hother hholds.1

/-- In every run the tables are well formed and the requests valid. -/
theorem integrity_holds {allowed : PortalConfig → PortalMove → Prop} {config : PortalConfig}
    (hreach : portalSystem.ReachableWhile allowed config) : integrity.Holds config :=
  integrity_valid.holds (hreach.mono fun _ _ _ => trivial)

end Outline

end IsmsPortal
