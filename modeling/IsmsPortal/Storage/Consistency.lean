import IsmsPortal.Storage.Interference

/-! # Consistency of the archive

In every run, with any failures, the invariant of the tables holds and every
request knows what its next statement needs. In particular an upload with a
receipt releases its object only when no version has it.
-/

namespace IsmsPortal

open Foundation

/-! ## The invariant -/

section Consistent

variable {platform : Platform} {process : Nat} {choice : Choice} {archive after : Archive}
variable {request : ArchiveRequest}

theorem sound_archiveWrite (hconsistent : archive.Consistent platform)
    (hknown : request.Known process archive platform)
    (hwrite : ArchiveWrite process choice archive request after) : after.db.Sound := by
  have hsound := hconsistent.sound
  cases hwrite
  case none => exact hsound
  case receive => exact hsound
  case statement place db hwrite => exact write_sound hsound hknown.tame.backed hwrite
  case prepare sent receipt place db hplace hwrite =>
    exact write_sound hsound (hknown.2.tame hplace).backed hwrite
  case commit sent receipt target previousId key id haccepted hid =>
    exact commitUpload_sound hsound hknown.2.1 haccepted hid hknown.2.2.1.1
  case discard => exact hsound.withObjects _ _

/-- Before its transaction an upload only adds an object. -/
theorem Request.Preparing.frame {place : Request} (hpreparing : place.Preparing process archive)
    (hplace : ∀ target previousId key, place ≠ .uploadTransaction target previousId key)
    {db : Database} (hwrite : Write process choice archive.db place db) :
    db.versions = archive.db.versions ∧ db.retiredIds = archive.db.retiredIds ∧
      archive.db.objects ⊆ db.objects := by
  cases place
  case uploadTransaction target previousId key => exact absurd rfl (hplace target previousId key)
  case upload | uploadCompare =>
    cases hwrite <;> exact ⟨rfl, rfl, List.Subset.refl _⟩
  case uploadPut =>
    cases hwrite
    case put => exact ⟨rfl, rfl, List.subset_append_left _ _⟩
    all_goals exact ⟨rfl, rfl, List.Subset.refl _⟩
  all_goals exact hpreparing.elim

/-- The records of uploads stay with their versions. -/
theorem records_archiveWrite (hconsistent : archive.Consistent platform)
    (hknown : request.Known process archive platform)
    (hwrite : ArchiveWrite process choice archive request after) :
    (after.records.map UploadRecord.versionId).Nodup ∧
      ∀ record ∈ after.records,
        (∃ version ∈ after.db.versions, version.id = record.versionId) ∧
        uploadReceipt platform record.sent = .ok (some ⟨record.versionId, record.fingerprint⟩) ∧
        record.sent ∈ after.received := by
  have hold : ∀ record ∈ archive.records,
      (∃ version ∈ archive.db.versions, version.id = record.versionId) ∧
      uploadReceipt platform record.sent = .ok (some ⟨record.versionId, record.fingerprint⟩) ∧
      record.sent ∈ archive.received :=
    fun record hrecord => ⟨hconsistent.recordVersions record hrecord,
      hconsistent.recordReceipts record hrecord⟩
  cases hwrite
  case none => exact ⟨hconsistent.recordIds, hold⟩
  case discard => exact ⟨hconsistent.recordIds, hold⟩
  case receive sent =>
    refine ⟨hconsistent.recordIds, fun record hrecord => ?_⟩
    obtain ⟨hversion, hreceipt, hreceived⟩ := hold record hrecord
    exact ⟨hversion, hreceipt, List.mem_append_left _ hreceived⟩
  case statement place db hwrite =>
    refine ⟨hconsistent.recordIds.sublist (List.filter_sublist.map _), fun record hrecord => ?_⟩
    obtain ⟨hmem, hversion⟩ := List.mem_filter.mp hrecord
    simp only [List.any_eq_true, decide_eq_true_eq] at hversion
    exact ⟨hversion, (hold record hmem).2⟩
  case prepare sent receipt place db hplace hwrite =>
    refine ⟨hconsistent.recordIds, fun record hrecord => ?_⟩
    dsimp only
    rw [(hknown.2.frame hplace hwrite).1]
    exact hold record hrecord
  case commit sent receipt target previousId key id haccepted hid =>
    obtain ⟨version, hversions, hversionId, -⟩ :=
      commitUpload_versions process choice archive sent receipt target key id
    rw [hversions]
    have hkeep : ∀ record ∈ archive.records,
        (∃ row ∈ archive.db.versions ++ [version], row.id = record.versionId) ∧
        uploadReceipt platform record.sent = .ok (some ⟨record.versionId, record.fingerprint⟩) ∧
        record.sent ∈ archive.received := by
      intro record hrecord
      obtain ⟨⟨row, hrow, hrowId⟩, hreceived⟩ := hold record hrecord
      exact ⟨⟨row, List.mem_append_left _ hrow, hrowId⟩, hreceived⟩
    cases receipt with
    | none =>
        simp only [Archive.commitUpload, Option.map_none, Option.toList_none, List.append_nil]
        exact ⟨hconsistent.recordIds, hkeep⟩
    | some receipt =>
        have hreceiptId : receipt.id = id := by simpa using hid
        simp only [Archive.commitUpload, Option.map_some, Option.toList_some]
        constructor
        · apply Table.nodup_insert hconsistent.recordIds
          intro record hrecord heq
          obtain ⟨row, hrow, hrowId⟩ := hconsistent.recordVersions record hrecord
          exact commitUpload_id_free hconsistent.sound haccepted hid row hrow
            ((hrowId.trans heq).trans hreceiptId)
        · intro record hrecord
          rw [List.mem_append, List.mem_singleton] at hrecord
          rcases hrecord with hmem | rfl
          · exact hkeep record hmem
          · refine ⟨⟨version, List.mem_append_right _ (List.mem_singleton.mpr rfl), ?_⟩, hknown.1⟩
            exact hversionId.trans hreceiptId.symm

/-- Every statement keeps the archive consistent. -/
theorem consistent_archiveWrite (hconsistent : archive.Consistent platform)
    (hknown : request.Known process archive platform)
    (hwrite : ArchiveWrite process choice archive request after) : after.Consistent platform := by
  have hinterferes := archiveWrite_interferes hconsistent hknown hwrite
  have hrecords := records_archiveWrite hconsistent hknown hwrite
  constructor
  case sound => exact sound_archiveWrite hconsistent hknown hwrite
  case references =>
    intro version hversion key hrefers
    rcases hinterferes.references version hversion key hrefers with ⟨row, hrow, -, hold⟩ |
      ⟨-, -, hattached, -⟩
    · exact hinterferes.attached (hconsistent.references row hrow key hold)
    · exact hattached
  case oneDocument =>
    intro version hversion other hother key hrefers hrefers'
    by_cases hattached : key ∈ archive.attached
    · rcases hinterferes.references version hversion key hrefers with
        ⟨row, hrow, hdocument, hold⟩ | ⟨-, hfresh, -⟩
      · rcases hinterferes.references other hother key hrefers' with
          ⟨row', hrow', hdocument', hold'⟩ | ⟨-, hfresh, -⟩
        · rw [← hdocument, ← hdocument']
          exact hconsistent.oneDocument row hrow row' hrow' key hold hold'
        · exact absurd hattached hfresh
      · exact absurd hattached hfresh
    · exact hinterferes.fresh key hattached version hversion other hother hrefers hrefers'
  case attachedIssued =>
    intro key hkey
    refine Database.not_fresh_mono hinterferes.evolves.keys ?_
    rcases hinterferes.attaching key hkey with hold | hissued
    · exact hconsistent.attachedIssued key hold
    · exact Database.not_fresh_iff.mpr ⟨process, hissued⟩
  case recordIds => exact hrecords.1
  case recordVersions => exact fun record hrecord => (hrecords.2 record hrecord).1
  case recordReceipts => exact fun record hrecord => (hrecords.2 record hrecord).2

end Consistent

/-! ## The outline -/

section Outline

variable {platform : Platform} {process : Nat} {archive after : Archive}

/-- The files of a document are its own. -/
theorem Archive.Consistent.confined_filesOf (hconsistent : archive.Consistent platform)
    {documentId : String} {file : StoredFile} (hfile : file ∈ archive.db.filesOf documentId) :
    archive.Confined file.objectKey documentId := by
  simp only [Database.filesOf, Database.versionsOf, List.mem_filter, List.any_eq_true,
    decide_eq_true_eq] at hfile
  obtain ⟨-, version, ⟨hversion, hdocument⟩, hrefers⟩ := hfile
  refine ⟨hconsistent.references version hversion _ hrefers, fun other hother hrefers' => ?_⟩
  rw [← hdocument]
  exact hconsistent.oneDocument other hother version hversion _ hrefers' hrefers

theorem Archive.Consistent.workable (hconsistent : archive.Consistent platform)
    {policy : RetentionPolicy} {item : WorkItem} (hpolicy : policy ∈ archive.db.policies)
    (hitem : workItem archive.db policy = some item) : archive.Workable item := by
  simp only [workItem, Option.map_eq_some_iff] at hitem
  obtain ⟨document, hdocument, rfl⟩ := hitem
  have hid : document.id = policy.documentId := by simpa using List.find?_some hdocument
  refine ⟨hconsistent.sound.policyIssued _ (Database.mem_policyKeys hpolicy), ?_, ?_⟩
  · intro row hrow hrowId
    rw [hconsistent.sound.policy_eq_of_id hrow hpolicy hrowId, hid]
  · exact fun file hfile => hconsistent.confined_filesOf hfile

/-- A key just drawn is pending. -/
theorem Archive.Consistent.pending_put (hconsistent : archive.Consistent platform)
    {key : ObjectKey} (hfresh : archive.db.FreshKey key) :
    { archive with db := archive.db.putObject process key }.Pending process key :=
  ⟨List.mem_append_right _ (List.mem_singleton.mpr rfl),
    fun hattached => hconsistent.attachedIssued key hattached hfresh,
    List.mem_append_right _ (List.mem_singleton.mpr rfl)⟩

theorem Archive.Consistent.notStored_put (hconsistent : archive.Consistent platform)
    {key : ObjectKey} (hfresh : archive.db.FreshKey key) :
    { archive with db := archive.db.putObject process key }.NotStored key :=
  fun file hfile heq => hconsistent.sound.fileIssued file hfile (heq ▸ hfresh)

/-- A statement of the portal establishes the assertion of its own request. -/
theorem advance_known (hconsistent : archive.Consistent platform) {choice : Choice}
    {place following : Request} {db : Database} (hknown : place.Known process archive)
    (hadvance : advance process choice archive.db place = some (some following, db)) :
    following.Known process (archive.follow place db) := by
  have hinterferes := write_interferes hconsistent hknown.tame (advance_write hadvance)
  have hstep := advance_step hadvance
  generalize hremaining : some following = remaining at hstep
  cases hstep <;> cases hremaining
  case findApproved hselection =>
    intro item hitem
    obtain ⟨policy, hpolicy, hread⟩ := List.mem_filterMap.mp hitem
    exact (hconsistent.workable (hselection.2.1 policy hpolicy).1 hread).stable hinterferes
  case claim item queue hclaimed =>
    exact fun entry hentry => (hknown entry hentry).stable hinterferes
  case missClaim item queue =>
    exact fun entry hentry => (hknown entry (List.mem_cons_of_mem _ hentry)).stable hinterferes
  case findShared item queue =>
    exact ⟨fun entry hentry => (hknown entry hentry).stable hinterferes, List.Subset.refl _⟩
  case removeFile item keep file remaining queue | skipFile item keep file remaining queue _ =>
    exact ⟨fun entry hentry => (hknown.1 entry hentry).stable hinterferes,
      fun entry hentry => hknown.2 (List.mem_cons_of_mem _ hentry)⟩
  case destroy item keep queue =>
    exact fun entry hentry => (hknown.1 entry (List.mem_cons_of_mem _ hentry)).stable hinterferes
  case readDocument documentId document hfound =>
    have hid : document.id = documentId := by simpa using List.find?_some hfound
    rw [← hid] at hinterferes ⊢
    exact fun file hfile => (hconsistent.confined_filesOf hfile).stable hinterferes
  case delete document policy files hchecked hfound =>
    intro key hkey
    obtain ⟨file, hfile, rfl⟩ := List.mem_map.mp hkey
    have hconfined := (hknown file hfile).stable hinterferes
    refine ⟨hconfined.1, fun version hversion hrefers => ?_⟩
    have hnot : version.documentId ≠ document.id := by simpa using List.of_mem_filter hversion
    exact hnot (hconfined.2 version hversion hrefers)
  case cleanup key keys | skipCleanup key keys =>
    intro entry hentry
    obtain ⟨hattached, hreleased⟩ := hknown entry (List.mem_cons_of_mem _ hentry)
    exact ⟨hinterferes.attached hattached, hreleased.stable_of_attached hinterferes hattached⟩
  case readSource documentId versionId source hfound =>
    exact .inr ⟨source, List.mem_of_find?_eq_some hfound, rfl, rfl⟩
  case putMarked documentId version queue hfresh => exact hconsistent.pending_put hfresh
  case failMarked documentId version key queue => exact hknown.1
  case createMarked documentId version key queue => exact hknown
  case failAttach documentId version key queue => exact hknown.1
  case oldDocument | newDocument | compare | put | refuseUpload => exact hknown.elim
  -- The remaining requests go on with a request about which nothing is asserted.
  all_goals trivial

/-- The statements of an upload up to its transaction. -/
theorem advance_preparing (hconsistent : archive.Consistent platform) {choice : Choice}
    {place following : Request} {db : Database} (hpreparing : place.Preparing process archive)
    (hplace : ∀ target previousId key, place ≠ .uploadTransaction target previousId key)
    (hadvance : advance process choice archive.db place = some (some following, db)) :
    following.Preparing process { archive with db := db } := by
  have hstep := advance_step hadvance
  generalize hremaining : some following = remaining at hstep
  cases hstep <;> cases hremaining
  case newDocument sensitive locale hfresh =>
    intro _
    refine ⟨List.mem_append_right _ (List.mem_singleton.mpr rfl), ?_, ?_⟩
    · exact fun hretired => hconsistent.sound.retiredIssued _ hretired hfresh
    · exact fun document hdocument hid =>
        hconsistent.sound.documentIssued document hdocument (hid ▸ hfresh)
  case compare target => exact hpreparing
  case put target previousId hfresh =>
    exact ⟨hpreparing, hconsistent.pending_put hfresh, hconsistent.notStored_put hfresh⟩
  case refuseUpload target previousId key => exact absurd rfl (hplace target previousId key)
  all_goals exact hpreparing.elim

/-- A receipt is found with a version, its document and its file. -/
theorem findUploadReceipt_found {receipt : Option UploadReceipt} {documentId : String}
    {key : ObjectKey} (hfound : findUploadReceipt archive receipt = .ok (some (documentId, key))) :
    ∃ expected, receipt = some expected ∧ ∃ version ∈ archive.db.versions,
      version.id = expected.id ∧ version.documentId = documentId ∧ version.storedFile = key ∧
      ∃ record ∈ archive.records, record.versionId = expected.id ∧
        record.fingerprint = expected.fingerprint := by
  unfold findUploadReceipt at hfound
  split at hfound
  · cases hfound
  next expected =>
    split at hfound
    · cases hfound
    next version hversion =>
      split at hfound
      next hrecord =>
        cases hfound
        exact ⟨expected, rfl, version, List.mem_of_find?_eq_some hversion,
          by simpa using List.find?_some hversion, rfl, rfl, hrecord.1⟩
      next => cases hfound

theorem findUploadReceipt_missing {expected : UploadReceipt}
    (hmissing : findUploadReceipt archive (some expected) = .ok none) :
    ∀ version ∈ archive.db.versions, version.id ≠ expected.id := by
  unfold findUploadReceipt at hmissing
  dsimp only at hmissing
  split at hmissing
  next hnone => simpa using hnone
  next =>
    split at hmissing <;> cases hmissing

/-- The lookup before a compensation tells whether the own transaction took effect:
unless it answers with the own key, the version under the receipt has another one. -/
theorem findUploadReceipt_other (hsound : archive.db.Sound) {expected : UploadReceipt}
    {key : ObjectKey} {found : Option (String × ObjectKey)}
    (hlookup : findUploadReceipt archive (some expected) = .ok found)
    (hdifferent : ∀ documentId, found ≠ some (documentId, key)) {row : DocumentVersion}
    (hrow : row ∈ archive.db.versions) (hid : row.id = expected.id) : row.storedFile ≠ key := by
  rintro rfl
  cases found with
  | none => exact findUploadReceipt_missing hlookup row hrow hid
  | some found =>
      obtain ⟨documentId, objectKey⟩ := found
      obtain ⟨expected', heq, other, hother, hotherId, -, hfile, -⟩ :=
        findUploadReceipt_found hlookup
      cases heq
      rw [hsound.version_eq_of_id hrow hother (hid.trans hotherId.symm), hfile] at hdifferent
      exact hdifferent documentId rfl

/-- A statement that takes effect establishes the assertion of its own request. -/
theorem archiveStatement_known (hconsistent : archive.Consistent platform)
    {request following : ArchiveRequest} {choice : Choice}
    (hknown : request.Known process archive platform)
    (hstatement : archiveStatement platform process choice archive request =
      some (some following, after)) : following.Known process after platform := by
  have hinterferes :=
    archiveWrite_interferes hconsistent hknown (archiveStatement_write hstatement)
  have hstep := archiveStatement_step hstatement
  generalize hremaining : some following = remaining at hstep
  cases hstep with
  | portal place left db hadvance =>
      obtain ⟨next, rfl, rfl⟩ := Option.map_eq_some_iff.mp hremaining.symm
      exact advance_known hconsistent hknown hadvance
  | receive sent receipt hreceipt =>
      cases hremaining
      exact ⟨hreceipt, List.mem_append_right _ (List.mem_singleton.mpr rfl)⟩
  | repeated sent receipt documentId key hlookup =>
      cases hremaining
      exact hknown
  | begin sent receipt =>
      cases hremaining
      refine ⟨hknown, ?_⟩
      unfold Upload.firstPlace
      dsimp only
      split
      · exact fun hnew => absurd hnew Bool.false_ne_true
      · trivial
  | prepare sent receipt place left db hplace hadvance =>
      obtain ⟨next, rfl, rfl⟩ := Option.map_eq_some_iff.mp hremaining.symm
      exact ⟨hknown.1.stable hinterferes, advance_preparing hconsistent hknown.2 hplace hadvance⟩
  | abort sent receipt target previousId key =>
      cases hremaining
      have hpending := hknown.2.2.1
      refine ⟨hknown.1, hpending.1, ?_⟩
      exact fun _ _ version hversion hrefers =>
        absurd (hconsistent.references version hversion key hrefers) hpending.2.1
  | commit sent receipt target previousId key id haccepted hid =>
      cases hremaining
      exact hknown.1.stable hinterferes
  | confirm sent receipt key documentId hlookup =>
      cases hremaining
      exact hknown.1
  | compensate sent receipt key found hlookup hdifferent =>
      cases hremaining
      obtain ⟨hreceived, hissued, hrecoverable⟩ := hknown
      refine ⟨hreceived, hissued, fun hreceipt version hversion hrefers => ?_⟩
      obtain ⟨expected, rfl⟩ := Option.isSome_iff_exists.mp hreceipt
      obtain ⟨row, hrow, hid, hfile⟩ := hrecoverable expected rfl version hversion hrefers
      exact findUploadReceipt_other hconsistent.sound hlookup hdifferent hrow hid hfile
  | discard sent receipt key answer | keep sent receipt key answer =>
      obtain ⟨documentId, -, rfl⟩ := Option.map_eq_some_iff.mp hremaining.symm
      exact hknown.1.stable hinterferes
  | stop | reject => cases hremaining

/-- An error leads to a request that knows what its compensation needs. -/
theorem recovery_known (hconsistent : archive.Consistent platform)
    {request following : ArchiveRequest} {choice : Choice}
    (hknown : request.Known process archive platform)
    (hwrite : ArchiveWrite process choice archive request after)
    (hrecovery : request.recovery = some following) : following.Known process after platform := by
  have hinterferes := archiveWrite_interferes hconsistent hknown hwrite
  unfold ArchiveRequest.recovery at hrecovery
  split at hrecovery
  · cases hrecovery
    exact hinterferes.evolves.keys hknown.1
  · cases hrecovery
    exact hinterferes.evolves.keys hknown.1
  next sent receipt target previousId key =>
    cases hrecovery
    have hpending := hknown.2.2.1
    refine ⟨hknown.1.stable hinterferes, hinterferes.evolves.keys hpending.1, ?_⟩
    intro expected hexpected version hversion hrefers
    cases hwrite
    case none =>
      exact absurd (hconsistent.references version hversion key hrefers) hpending.2.1
    case prepare hplace _ => exact absurd rfl (hplace target previousId key)
    case commit id hid haccepted =>
      obtain ⟨row, hversions, hrowId, -, hfile, -⟩ :=
        commitUpload_versions process choice archive sent receipt target key id
      refine ⟨row, ?_, ?_, hfile⟩
      · rw [hversions]
        exact List.mem_append_right _ (List.mem_singleton.mpr rfl)
      · rw [hexpected] at hid
        rw [hrowId]
        exact (Option.some.inj (hid.resolve_right fun hnone => by cases hnone.1)).symm
  next sent receipt key answer =>
    obtain ⟨documentId, -, rfl⟩ := Option.map_eq_some_iff.mp hrecovery
    exact hknown.1.stable hinterferes
  next => cases hrecovery

/-- The archive is consistent, and every request in flight knows what it needs. -/
def consistency (platform : Platform) : Concurrent.Outline Archive ArchiveRequest where
  invariant archive := archive.Consistent platform
  assertion process archive request := request.Known process archive platform

theorem consistency_valid (platform : Platform) :
    (consistency platform).Valid (archiveProgram platform)
      (fun archive => archive = Archive.empty archive.db.clock) fun _ _ => True where
  init := by
    intro archive hempty
    rw [hempty]
    exact Archive.consistent_empty platform _
  drift := by
    intro time archive after hdrift hconsistent
    simp only [archiveProgram, portal, Option.map_eq_some_iff] at hdrift
    obtain ⟨db, hdb, rfl⟩ := hdrift
    split at hdb <;> cases hdb
    have hsound := hconsistent.sound.withObjects time archive.db.objects
    refine ⟨⟨hsound, hconsistent.references, hconsistent.oneDocument, hconsistent.attachedIssued,
      hconsistent.recordIds, hconsistent.recordVersions, hconsistent.recordReceipts⟩, ?_⟩
    intro name request hknown
    -- Time passes like a statement of some other request.
    have hinterferes : Interferes (name + 1) archive
        { archive with db := { archive.db with clock := time } } :=
      .of_objects hconsistent time (fun _ => .inl) (List.Subset.refl _)
    exact hknown.stable hinterferes (Nat.ne_add_one name) hconsistent.sound hconsistent hsound
  start := by
    intro name archive request hstart _
    cases request with
    | request place =>
        cases place
        case upload => cases hstart
        all_goals trivial
    | upload sent => trivial
    | _ => cases hstart
  own := by
    intro config name choice request remaining after hholds hrequest _ hadvance
    have hknown := hholds.2 name request hrequest
    refine ⟨consistent_archiveWrite hholds.1 hknown (archiveAdvance_write hadvance), ?_⟩
    rintro following rfl
    rcases archiveAdvance_following hadvance with hstatement | ⟨hrecovery, hwrite, -⟩
    · exact archiveStatement_known hholds.1 hknown hstatement
    · exact recovery_known hholds.1 hknown hwrite hrecovery
  others := by
    intro config name choice request remaining after hholds hrequest _ hadvance other pending
      hother hpending
    have hknown := hholds.2 name request hrequest
    have hwrite := archiveAdvance_write hadvance
    exact (hholds.2 other pending hpending).stable (archiveWrite_interferes hholds.1 hknown hwrite)
      hother hholds.1.sound hholds.1 (sound_archiveWrite hholds.1 hknown hwrite)

theorem consistency_holds {allowed : ArchiveConfig → ArchiveMove → Prop} {config : ArchiveConfig}
    (hreach : (archiveSystem platform).ReachableWhile allowed config) :
    (consistency platform).Holds config :=
  (consistency_valid platform).holds (hreach.mono fun _ _ _ => trivial)

end Outline

end IsmsPortal
