import IsmsPortal.Storage.Consistency

/-! # Repeated uploads

An upload that carries a request id may be sent again, concurrently or after a
failure. While no document is deleted permanently, an answered upload names the
document of the version under its receipt, and the object of an upload is removed
only when it has no row.
-/

namespace IsmsPortal

open Foundation

/-- The upload of a request. -/
def ArchiveRequest.sent : ArchiveRequest → Option Upload
  | .request _ => none
  | .upload sent | .uploadLookup sent _ | .uploading sent _ _ | .uploadRecover sent _ _
  | .uploadDiscard sent _ _ _ | .answered sent _ _ => some sent

/-- The next statement looks a receipt up. -/
def ArchiveRequest.looksUp : ArchiveRequest → Bool
  | .uploadLookup _ _ | .uploadRecover _ _ _ => true
  | _ => false

/-- The transaction of a permanent delete. -/
def ArchiveRequest.deletes : ArchiveRequest → Bool
  | .request (.removeTransaction _ _ _) => true
  | _ => false

/-- No document is deleted permanently. -/
abbrev DocumentsKept : ArchiveConfig → ArchiveMove → Prop :=
  Concurrent.Guarded fun _ request => request.deletes = false

namespace Archive

variable (archive : Archive) (receipt : Option UploadReceipt)

/-- The version under the receipt belongs to the document and has its fingerprint. -/
def Answers (documentId : String) : Prop :=
  ∀ expected, receipt = some expected → ∃ version ∈ archive.db.versions,
    version.id = expected.id ∧ version.documentId = documentId ∧
    ∃ record ∈ archive.records, record.versionId = expected.id ∧
      record.fingerprint = expected.fingerprint

/-- The file has no row, or it is the file of the version under the receipt. -/
def Traceable (key : ObjectKey) : Prop :=
  ∀ expected, receipt = some expected → archive.NotStored key ∨
    ∃ version ∈ archive.db.versions, version.id = expected.id ∧ version.storedFile = key

end Archive

/-- What an upload knows while no document is deleted. -/
def ArchiveRequest.Traced (archive : Archive) : ArchiveRequest → Prop
  | .uploadRecover _ receipt key => archive.Traceable receipt key
  | .uploadDiscard _ receipt key answer => (receipt.isSome = true → archive.NotStored key) ∧
      ∀ documentId, answer = some documentId → archive.Answers receipt documentId
  | .answered _ receipt documentId => archive.Answers receipt documentId
  | _ => True

/-! ## Nothing is lost -/

section Kept

variable {platform : Platform} {process : Nat} {choice : Choice} {archive after : Archive}
variable {request : ArchiveRequest}

variable (hconsistent : archive.Consistent platform)
variable (hknown : request.Known process archive platform) (hdeletes : request.deletes = false)
variable (hwrite : ArchiveWrite process choice archive request after)

include hknown hdeletes hwrite in
theorem retiredIds_archiveWrite : after.db.retiredIds = archive.db.retiredIds := by
  cases hwrite
  case statement place db hwrite =>
    cases hwrite
    case delete => cases hdeletes
    case upload => simp [Archive.follow, Database.issueId]
    all_goals rfl
  case prepare sent receipt place db hplace hwrite => exact (hknown.2.frame hplace hwrite).2.1
  case commit => simp [Archive.commitUpload]
  all_goals rfl

include hconsistent hknown hdeletes hwrite

/-- Versions keep their document and their file. -/
theorem version_kept {row : DocumentVersion} (hrow : row ∈ archive.db.versions) :
    ∃ version ∈ after.db.versions, version.id = row.id ∧
      version.documentId = row.documentId ∧ version.storedFile = row.storedFile := by
  rcases (archiveWrite_interferes hconsistent hknown hwrite).rows row hrow with hretired | hkept
  · rw [retiredIds_archiveWrite hknown hdeletes hwrite] at hretired
    exact absurd hretired (hconsistent.sound.versionLive row hrow)
  · exact hkept

theorem record_kept {record : UploadRecord} (hrecord : record ∈ archive.records) :
    record ∈ after.records := by
  obtain ⟨row, hrow, hid⟩ := hconsistent.recordVersions record hrecord
  obtain ⟨version, hversion, hversionId, -⟩ :=
    version_kept hconsistent hknown hdeletes hwrite hrow
  cases hwrite
  case statement place db hwrite =>
    refine List.mem_filter.mpr ⟨hrecord, ?_⟩
    simp only [List.any_eq_true, decide_eq_true_eq]
    exact ⟨version, hversion, hversionId.trans hid⟩
  case commit => exact List.mem_append_left _ hrecord
  all_goals exact hrecord

theorem Archive.Answers.kept {receipt : Option UploadReceipt} {documentId : String}
    (hanswers : archive.Answers receipt documentId) : after.Answers receipt documentId := by
  intro expected hexpected
  obtain ⟨row, hrow, hid, hdocument, record, hrecord, hprint⟩ := hanswers expected hexpected
  obtain ⟨version, hversion, hversionId, hversionDocument, -⟩ :=
    version_kept hconsistent hknown hdeletes hwrite hrow
  exact ⟨version, hversion, hversionId.trans hid, hversionDocument.trans hdocument, record,
    record_kept hconsistent hknown hdeletes hwrite hrecord, hprint⟩

/-- The assertion of an upload survives the statements of the others. -/
theorem ArchiveRequest.Traced.stable {other : Nat} (hother : other ≠ process)
    {pending : ArchiveRequest} (hpending : pending.Known other archive platform)
    (htraced : pending.Traced archive) : pending.Traced after := by
  have hinterferes := archiveWrite_interferes hconsistent hknown hwrite
  cases pending with
  | uploadRecover sent receipt key =>
      intro expected hexpected
      rcases htraced expected hexpected with hstored | ⟨row, hrow, hid, hfile⟩
      · exact .inl (hstored.stable hinterferes hother hconsistent.sound hpending.2.1)
      · obtain ⟨version, hversion, hversionId, -, hversionFile⟩ :=
          version_kept hconsistent hknown hdeletes hwrite hrow
        exact .inr ⟨version, hversion, hversionId.trans hid, hversionFile.trans hfile⟩
  | uploadDiscard sent receipt key answer =>
      refine ⟨fun hreceipt => ?_, fun documentId hanswer => ?_⟩
      · exact (htraced.1 hreceipt).stable hinterferes hother hconsistent.sound hpending.2.1
      · exact (htraced.2 documentId hanswer).kept hconsistent hknown hdeletes hwrite
  | answered sent receipt documentId =>
      exact Archive.Answers.kept hconsistent hknown hdeletes hwrite htraced
  | _ => trivial

end Kept

/-! ## What an upload establishes -/

section Own

variable {platform : Platform} {process : Nat} {archive after : Archive}
variable {receipt : Option UploadReceipt} {key : ObjectKey}

theorem answers_of_found {documentId : String}
    (hfound : findUploadReceipt archive receipt = .ok (some (documentId, key))) :
    archive.Answers receipt documentId := by
  intro expected hexpected
  obtain ⟨expected', heq, version, hversion, hid, hdocument, -, hrecord⟩ :=
    findUploadReceipt_found hfound
  rw [hexpected, Option.some.injEq] at heq
  rw [← heq] at hid hrecord
  exact ⟨version, hversion, hid, hdocument, hrecord⟩

/-- A committed upload is found under its receipt. -/
theorem answers_commitUpload {choice : Choice} {sent : Upload} {target : UploadTarget}
    {id : String} (hid : receipt.map UploadReceipt.id = some id ∨
      receipt = none ∧ archive.db.FreshId id) :
    (archive.commitUpload process choice sent receipt target key id).Answers receipt
      target.documentId ∧
    (archive.commitUpload process choice sent receipt target key id).Traceable receipt key := by
  obtain ⟨version, hversions, hversionId, hdocument, hfile, -⟩ :=
    commitUpload_versions process choice archive sent receipt target key id
  have hmem : version ∈
      (archive.commitUpload process choice sent receipt target key id).db.versions := by
    rw [hversions]
    exact List.mem_append_right _ (List.mem_singleton.mpr rfl)
  have hexpectedId : ∀ expected, receipt = some expected → version.id = expected.id := by
    rintro expected rfl
    have hexpected : expected.id = id := by simpa using hid
    exact hversionId.trans hexpected.symm
  refine ⟨fun expected hexpected => ?_, fun expected hexpected => ?_⟩
  · refine ⟨version, hmem, hexpectedId expected hexpected, hdocument,
      ⟨expected.id, expected.fingerprint, sent⟩, ?_, rfl, rfl⟩
    simp [Archive.commitUpload, hexpected]
  · exact .inr ⟨version, hmem, hexpectedId expected hexpected, hfile⟩

theorem archiveStatement_traced (hconsistent : archive.Consistent platform)
    {request following : ArchiveRequest} {choice : Choice}
    (hknown : request.Known process archive platform) (htraced : request.Traced archive)
    (hstatement : archiveStatement platform process choice archive request =
      some (some following, after)) : following.Traced after := by
  have hstep := archiveStatement_step hstatement
  generalize hremaining : some following = remaining at hstep
  cases hstep with
  | portal place left db hadvance | prepare sent receipt place left db hplace hadvance =>
      obtain ⟨next, -, rfl⟩ := Option.map_eq_some_iff.mp hremaining.symm
      trivial
  | receive sent receipt hreceipt | begin sent receipt =>
      cases hremaining
      trivial
  | repeated sent receipt documentId key hlookup | confirm sent receipt key documentId hlookup =>
      cases hremaining
      exact answers_of_found hlookup
  | abort sent receipt target previousId key =>
      cases hremaining
      exact fun _ _ => .inl hknown.2.2.2
  | commit sent receipt target previousId key id haccepted hid =>
      cases hremaining
      exact (answers_commitUpload hid).1
  | compensate sent receipt key found hlookup hdifferent =>
      cases hremaining
      refine ⟨fun hreceipt => ?_, fun documentId hanswer => ?_⟩
      · obtain ⟨expected, rfl⟩ := Option.isSome_iff_exists.mp hreceipt
        rcases htraced expected rfl with hstored | ⟨row, hrow, hid, hfile⟩
        · exact hstored
        · exact absurd hfile
            (findUploadReceipt_other hconsistent.sound hlookup hdifferent hrow hid)
      · obtain ⟨⟨documentId, objectKey⟩, rfl, rfl⟩ := Option.map_eq_some_iff.mp hanswer
        exact answers_of_found hlookup
  | discard sent receipt key answer | keep sent receipt key answer =>
      obtain ⟨documentId, hanswer, rfl⟩ := Option.map_eq_some_iff.mp hremaining.symm
      exact htraced.2 documentId hanswer
  | stop | reject => cases hremaining

/-- An error leads to a request that can tell whether its row exists. -/
theorem recovery_traced {request following : ArchiveRequest} {choice : Choice}
    (hknown : request.Known process archive platform) (htraced : request.Traced archive)
    (hwrite : ArchiveWrite process choice archive request after)
    (hrecovery : request.recovery = some following) : following.Traced after := by
  unfold ArchiveRequest.recovery at hrecovery
  split at hrecovery
  · cases hrecovery
    trivial
  · cases hrecovery
    trivial
  next sent receipt target previousId key =>
    cases hrecovery
    cases hwrite
    case none => exact fun _ _ => .inl hknown.2.2.2
    case prepare hplace _ => exact absurd rfl (hplace target previousId key)
    case commit id hid haccepted => exact (answers_commitUpload hid).2
  next sent receipt key answer =>
    obtain ⟨documentId, hanswer, rfl⟩ := Option.map_eq_some_iff.mp hrecovery
    have hanswers := htraced.2 documentId hanswer
    cases hwrite <;> exact hanswers
  next => cases hrecovery

end Own

def uploadOutline : Concurrent.Outline Archive ArchiveRequest where
  invariant _ := True
  assertion _ archive request := request.Traced archive

theorem uploadOutline_valid (platform : Platform) :
    uploadOutline.Valid (archiveProgram platform)
      (fun archive => archive = Archive.empty archive.db.clock)
      (fun config move => (consistency platform).Holds config ∧ DocumentsKept config move) where
  init := fun _ _ => trivial
  drift := by
    intro time archive after hdrift _
    simp only [archiveProgram, portal, Option.map_eq_some_iff] at hdrift
    obtain ⟨db, hdb, rfl⟩ := hdrift
    split at hdb <;> cases hdb
    refine ⟨trivial, fun name request htraced => ?_⟩
    cases request <;> exact htraced
  start := by
    intro name archive request hstart _
    cases request <;> trivial
  own := by
    intro config name choice request remaining after hholds hrequest hallowed hadvance
    refine ⟨trivial, ?_⟩
    rintro following rfl
    have hknown := hallowed.1.2 name request hrequest
    have htraced := hholds.2 name request hrequest
    rcases archiveAdvance_following hadvance with hstatement | ⟨hrecovery, hwrite, -⟩
    · exact archiveStatement_traced hallowed.1.1 hknown htraced hstatement
    · exact recovery_traced hknown htraced hwrite hrecovery
  others := by
    intro config name choice request remaining after hholds hrequest hallowed hadvance other pending
      hother hpending
    exact (hholds.2 other pending hpending).stable hallowed.1.1 (hallowed.1.2 name request hrequest)
      (hallowed.2 request hrequest) (archiveAdvance_write hadvance) hother
      (hallowed.1.2 other pending hpending)

/-! ## Idempotency -/

section Idempotency

variable {platform : Platform} {config : ArchiveConfig}

/-- An upload with a request id has a receipt under its user and id. -/
theorem receipt_of_received {archive : Archive} {sent : Upload} {receipt : Option UploadReceipt}
    {id : String} (hreceived : archive.Received platform sent receipt)
    (hid : sent.uploadRequestId = some id) :
    ∃ expected, receipt = some expected ∧ expected.id = receiptId platform sent.identity id := by
  have hreceipt := hreceived.1
  unfold uploadReceipt at hreceipt
  rw [hid] at hreceipt
  dsimp only at hreceipt
  split at hreceipt <;> cases hreceipt
  exact ⟨_, rfl, rfl⟩

/-- The record under a receipt was sent with the content of the receipt. -/
theorem repeats_of_record {archive : Archive} (hconsistent : archive.Consistent platform)
    (hfree : CollisionFree platform archive.received) {sent : Upload} {expected : UploadReceipt}
    (hreceived : archive.Received platform sent (some expected)) {record : UploadRecord}
    (hrecord : record ∈ archive.records) (hid : record.versionId = expected.id)
    (hprint : record.fingerprint = expected.fingerprint) :
    record.sent.Repeats platform sent := by
  obtain ⟨hreceipt, hsent⟩ := hconsistent.recordReceipts record hrecord
  rw [hid, hprint] at hreceipt
  exact hfree.repeats hsent hreceived.2 hreceipt hreceived.1

/-- A lookup fails when the version under the receipt has other content. -/
theorem findUploadReceipt_refuses {archive : Archive} (hconsistent : archive.Consistent platform)
    (hfree : CollisionFree platform archive.received) {sent : Upload} {expected : UploadReceipt}
    (hreceived : archive.Received platform sent (some expected)) {record : UploadRecord}
    (hrecord : record ∈ archive.records) (hid : record.versionId = expected.id)
    (hother : ¬record.sent.SameContent sent) :
    ∃ error, findUploadReceipt archive (some expected) = .error error := by
  obtain ⟨version, hversion, hversionId⟩ := hconsistent.recordVersions record hrecord
  cases hlookup : findUploadReceipt archive (some expected) with
  | error error => exact ⟨error, rfl⟩
  | ok found =>
      exfalso
      cases found with
      | none => exact findUploadReceipt_missing hlookup version hversion (hversionId.trans hid)
      | some found =>
          obtain ⟨expected', heq, -, -, -, -, -, record', hrecord', hid', hprint⟩ :=
            findUploadReceipt_found hlookup
          cases heq
          have hsame : record' = record :=
            List.inj_on_of_nodup_map hconsistent.recordIds hrecord' hrecord (hid'.trans hid.symm)
          rw [hsame] at hprint
          exact hother (repeats_of_record hconsistent hfree hreceived hrecord hid hprint).2.2

/-- What the upload of a request is known to have received. -/
theorem received_of_known {archive : Archive} {process : Nat} {request : ArchiveRequest}
    {sent : Upload} {id : String} (hknown : request.Known process archive platform)
    (hsent : request.sent = some sent) (hid : sent.uploadRequestId = some id)
    (hlooksUp : request.looksUp = true) :
    ∃ expected, archive.Received platform sent (some expected) ∧
      expected.id = receiptId platform sent.identity id ∧
      (request = .uploadLookup sent (some expected) ∨
        ∃ key, request = .uploadRecover sent (some expected) key) := by
  cases request with
  | uploadLookup sent' receipt =>
      cases hsent
      obtain ⟨expected, rfl, hexpected⟩ := receipt_of_received hknown hid
      exact ⟨expected, hknown, hexpected, .inl rfl⟩
  | uploadRecover sent' receipt key =>
      cases hsent
      obtain ⟨expected, rfl, hexpected⟩ := receipt_of_received hknown.1 hid
      exact ⟨expected, hknown.1, hexpected, .inr ⟨key, rfl⟩⟩
  | _ => cases hlooksUp

/-- An upload with a receipt removes no object that has a row. -/
theorem removed_notStored {archive after : Archive} {process : Nat} {choice : Choice}
    {request : ArchiveRequest} {sent : Upload} {id : String}
    (hknown : request.Known process archive platform) (htraced : request.Traced archive)
    (hwrite : ArchiveWrite process choice archive request after)
    (hsent : request.sent = some sent) (hid : sent.uploadRequestId = some id) {key : ObjectKey}
    (hkey : key ∈ archive.db.objects) (hremoved : key ∉ after.db.objects) :
    archive.NotStored key := by
  cases hwrite
  case statement => cases hsent
  case prepare sent' receipt place db hplace hwrite =>
    exact absurd ((hknown.2.frame hplace hwrite).2.2 hkey) hremoved
  case commit => exact absurd (by simpa [Archive.commitUpload] using hkey) hremoved
  case discard sent' receipt discarded answer =>
    cases hsent
    obtain ⟨expected, rfl, -⟩ := receipt_of_received hknown.1 hid
    have heq : key = discarded := by
      by_contra hne
      exact hremoved (by simp [Database.removeObject, hkey, hne])
    rw [heq]
    exact htraced.1 rfl
  all_goals exact absurd hkey hremoved

/-- **Repeated uploads.** Whatever requests interleave and however their statements
fail, while no document is deleted permanently: a user and a request id have at
most one version; an answered upload names the document of that version, which was
created from the same fields, name, type and bytes; an upload with other content is
refused by the lookup; and no upload with a request id removes an object that has a
row. -/
theorem repeated_uploads (hreach : (archiveSystem platform).ReachableWhile DocumentsKept config)
    (hfree : CollisionFree platform config.store.received) :
    (∀ identity id, (config.store.db.versions.map DocumentVersion.id).count
      (receiptId platform identity id) ≤ 1) ∧
    (∀ name sent receipt documentId id,
      config.processes name = some (.answered sent receipt documentId) →
      sent.uploadRequestId = some id →
      ∃ version ∈ config.store.db.versions,
        version.id = receiptId platform sent.identity id ∧ version.documentId = documentId ∧
        ∃ record ∈ config.store.records, record.versionId = version.id ∧
          record.sent.Repeats platform sent) ∧
    (∀ name request sent id, config.processes name = some request →
      request.sent = some sent → sent.uploadRequestId = some id → request.looksUp = true →
      ∀ record ∈ config.store.records,
        record.versionId = receiptId platform sent.identity id →
        ¬record.sent.SameContent sent → ∀ choice,
          archiveStatement platform name choice config.store request = some (none, config.store)) ∧
    ∀ name choice request sent id after, config.processes name = some request →
      request.sent = some sent → sent.uploadRequestId = some id →
      (archiveProgram platform).next config (.advance name choice) = some after →
      ∀ key ∈ config.store.db.objects, key ∉ after.store.db.objects →
        ∀ file ∈ config.store.db.storedFiles, file.objectKey ≠ key := by
  have hholds := consistency_holds hreach
  have htraced := ((uploadOutline_valid platform).holds
    (hreach.assuming fun _ hbefore => consistency_holds hbefore)).2
  have hconsistent : config.store.Consistent platform := hholds.1
  refine ⟨fun identity id => ?_, ?_, ?_, ?_⟩
  · have hnodup := hconsistent.sound.versionIds
    rw [Database.versionKeys, List.map_map] at hnodup
    exact List.nodup_iff_count_le_one.mp hnodup _
  · intro name sent receipt documentId id hprocess hid
    have hreceived : config.store.Received platform sent receipt := hholds.2 name _ hprocess
    obtain ⟨expected, rfl, hexpected⟩ := receipt_of_received hreceived hid
    obtain ⟨version, hversion, hversionId, hdocument, record, hrecord, hrecordId, hprint⟩ :=
      htraced name _ hprocess expected rfl
    exact ⟨version, hversion, hversionId.trans hexpected, hdocument, record, hrecord,
      hrecordId.trans hversionId.symm,
      repeats_of_record hconsistent hfree hreceived hrecord hrecordId hprint⟩
  · intro name request sent id hprocess hsent hid hlooksUp record hrecord hrecordId hother choice
    obtain ⟨expected, hreceived, hexpected, hplace⟩ :=
      received_of_known (hholds.2 name request hprocess) hsent hid hlooksUp
    obtain ⟨error, herror⟩ := findUploadReceipt_refuses hconsistent hfree hreceived hrecord
      (hrecordId.trans hexpected.symm) hother
    rcases hplace with rfl | ⟨key, rfl⟩
    · simp [archiveStatement, herror]
    · simp [archiveStatement, herror]
  · intro name choice request sent id after hprocess hsent hid hnext key hkey hremoved
    simp only [Concurrent.next, hprocess, Option.bind_some, Option.map_eq_some_iff] at hnext
    obtain ⟨⟨remaining, store⟩, hadvance, rfl⟩ := hnext
    exact removed_notStored (hholds.2 name request hprocess) (htraced name request hprocess)
      (archiveAdvance_write hadvance) hsent hid hkey hremoved

end Idempotency

/-! ## Sample -/

/-- The archive after the upload. -/
def uploadedArchive : Archive where
  db :=
    { clock := 0, policies := [], documents := [⟨"report", .draft, false, none, none, 0⟩]
      versions := [⟨sampleReceipt.id, "report", "fr", 1, ⟨"report", "file"⟩, none⟩]
      storedFiles := [⟨⟨"report", "file"⟩, none⟩], objects := [⟨"report", "file"⟩]
      issuedKeys := [(⟨"report", "file"⟩, 0)], issuedIds := [("report", 0), (sampleReceipt.id, 0)]
      retiredIds := [] }
  records := [⟨sampleReceipt.id, sampleFingerprint, sampleUpload⟩]
  received := [sampleUpload]
  attached := [⟨"report", "file"⟩]

/-- Statements of an upload that succeed. -/
def uploadChoices : List ArchiveChoice :=
  ["", "", "report", "", "file", ""].map fun name => ⟨⟨name, [], false⟩, .done⟩

theorem repeated_uploads_sample :
    (archiveSystem samplePlatform).ReachableWhile DocumentsKept (Concurrent.solo
      (some (.answered sampleUpload (some sampleReceipt) "report"), uploadedArchive)) ∧
    ∃ version ∈ uploadedArchive.db.versions, version.documentId = "report" := by
  have hrun : Concurrent.runAlone (archiveProgram samplePlatform)
      (fun _ request => !request.deletes) uploadChoices
      (some (.upload sampleUpload), Archive.empty 0) =
        some (some (.answered sampleUpload (some sampleReceipt) "report"), uploadedArchive) := by
    decide
  have hstart : (archiveSystem samplePlatform).ReachableWhile DocumentsKept
      (Concurrent.idle (Archive.empty 0)) := .init ⟨rfl, fun _ => rfl⟩
  have hreach := Concurrent.reachable_runAlone
    (fun _ request hkept => by simpa using hkept) _ _
    (Concurrent.reachable_start (.upload sampleUpload) hstart rfl) hrun
  have hfree : CollisionFree samplePlatform uploadedArchive.received := by
    constructor
    · intro upload hupload other hother id id' hid hid' _
      rw [List.mem_singleton.mp hupload] at hid ⊢
      rw [List.mem_singleton.mp hother] at hid' ⊢
      rw [hid, Option.some.injEq] at hid'
      rw [hid']
    · intro upload hupload other hother _
      rw [List.mem_singleton.mp hupload, List.mem_singleton.mp hother]
  obtain ⟨version, hversion, -, hdocument, -⟩ :=
    (repeated_uploads hreach hfree).2.1 0 sampleUpload (some sampleReceipt) "report"
      "11111111-1111-4111-8111-111111111111" rfl (by decide)
  exact ⟨hreach, version, hversion, hdocument⟩

end IsmsPortal
