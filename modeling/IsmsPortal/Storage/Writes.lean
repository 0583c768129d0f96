import IsmsPortal.Destruction.Integrity
import IsmsPortal.Storage.Archive

/-! # What a statement of the archive can write

Statements of the portal leave what they leave there; the transaction of an
upload is new, because it may use the id of a receipt. A receipt names the same
version again when an upload is repeated after its document was deleted, so this
id need not be fresh.
-/

namespace IsmsPortal

open Foundation

/-! ## What a statement can write -/

/-- `ArchiveWrite process choice archive request after`: the statement at which
`request` stands may leave `after`. -/
inductive ArchiveWrite (process : Nat) (choice : Choice) (archive : Archive) :
    ArchiveRequest → Archive → Prop
  | none {request : ArchiveRequest} : ArchiveWrite process choice archive request archive
  | receive (sent : Upload) :
      ArchiveWrite process choice archive (.upload sent)
        { archive with received := archive.received ++ [sent] }
  | statement (place : Request) (db : Database)
      (hwrite : Write process choice archive.db place db) :
      ArchiveWrite process choice archive (.request place) (archive.follow place db)
  | prepare (sent : Upload) (receipt : Option UploadReceipt) (place : Request) (db : Database)
      (hplace : ∀ target previousId key, place ≠ .uploadTransaction target previousId key)
      (hwrite : Write process choice archive.db place db) :
      ArchiveWrite process choice archive (.uploading sent receipt place)
        { archive with db := db }
  | commit (sent : Upload) (receipt : Option UploadReceipt) (target : UploadTarget)
      (previousId : Option String) (key : ObjectKey) (id : String)
      (haccepted : ¬UploadRefused archive.db receipt target previousId)
      (hid : receipt.map UploadReceipt.id = some id ∨
        receipt = Option.none ∧ archive.db.FreshId id) :
      ArchiveWrite process choice archive
        (.uploading sent receipt (.uploadTransaction target previousId key))
        (archive.commitUpload process choice sent receipt target key id)
  | discard (sent : Upload) (receipt : Option UploadReceipt) (key : ObjectKey)
      (answer : Option String) :
      ArchiveWrite process choice archive (.uploadDiscard sent receipt key answer)
        { archive with db := archive.db.removeObject key }

/-! ## What a statement can do -/

/-- `ArchiveStep platform process choice archive request remaining after`: the
statement at which `request` stands may leave `after` and go on at `remaining`. -/
inductive ArchiveStep (platform : Platform) (process : Nat) (choice : Choice)
    (archive : Archive) : ArchiveRequest → Option ArchiveRequest → Archive → Prop
  /-- The upload was answered, or its receipt belongs to other content. -/
  | stop {request : ArchiveRequest} :
      ArchiveStep platform process choice archive request none archive
  | portal (place : Request) (left : Option Request) (db : Database)
      (hadvance : advance process choice archive.db place = some (left, db)) :
      ArchiveStep platform process choice archive (.request place) (left.map .request)
        (archive.follow place db)
  | reject (sent : Upload) :
      ArchiveStep platform process choice archive (.upload sent) none
        { archive with received := archive.received ++ [sent] }
  | receive (sent : Upload) (receipt : Option UploadReceipt)
      (hreceipt : uploadReceipt platform sent = .ok receipt) :
      ArchiveStep platform process choice archive (.upload sent)
        (some (.uploadLookup sent receipt))
        { archive with received := archive.received ++ [sent] }
  | repeated (sent : Upload) (receipt : Option UploadReceipt) (documentId : String)
      (key : ObjectKey)
      (hlookup : findUploadReceipt archive receipt = .ok (some (documentId, key))) :
      ArchiveStep platform process choice archive (.uploadLookup sent receipt)
        (some (.answered sent receipt documentId)) archive
  | begin (sent : Upload) (receipt : Option UploadReceipt) :
      ArchiveStep platform process choice archive (.uploadLookup sent receipt)
        (some (.uploading sent receipt sent.firstPlace)) archive
  | prepare (sent : Upload) (receipt : Option UploadReceipt) (place : Request)
      (left : Option Request) (db : Database)
      (hplace : ∀ target previousId key, place ≠ .uploadTransaction target previousId key)
      (hadvance : advance process choice archive.db place = some (left, db)) :
      ArchiveStep platform process choice archive (.uploading sent receipt place)
        (left.map (.uploading sent receipt)) { archive with db := db }
  | abort (sent : Upload) (receipt : Option UploadReceipt) (target : UploadTarget)
      (previousId : Option String) (key : ObjectKey) :
      ArchiveStep platform process choice archive
        (.uploading sent receipt (.uploadTransaction target previousId key))
        (some (.uploadRecover sent receipt key)) archive
  | commit (sent : Upload) (receipt : Option UploadReceipt) (target : UploadTarget)
      (previousId : Option String) (key : ObjectKey) (id : String)
      (haccepted : ¬UploadRefused archive.db receipt target previousId)
      (hid : receipt.map UploadReceipt.id = some id ∨
        receipt = Option.none ∧ archive.db.FreshId id) :
      ArchiveStep platform process choice archive
        (.uploading sent receipt (.uploadTransaction target previousId key))
        (some (.answered sent receipt target.documentId))
        (archive.commitUpload process choice sent receipt target key id)
  /-- The lookup answers with the own key: the transaction took effect. -/
  | confirm (sent : Upload) (receipt : Option UploadReceipt) (key : ObjectKey)
      (documentId : String)
      (hlookup : findUploadReceipt archive receipt = .ok (some (documentId, key))) :
      ArchiveStep platform process choice archive (.uploadRecover sent receipt key)
        (some (.answered sent receipt documentId)) archive
  | compensate (sent : Upload) (receipt : Option UploadReceipt) (key : ObjectKey)
      (found : Option (String × ObjectKey))
      (hlookup : findUploadReceipt archive receipt = .ok found)
      (hdifferent : ∀ documentId, found ≠ some (documentId, key)) :
      ArchiveStep platform process choice archive (.uploadRecover sent receipt key)
        (some (.uploadDiscard sent receipt key (found.map Prod.fst))) archive
  | discard (sent : Upload) (receipt : Option UploadReceipt) (key : ObjectKey)
      (answer : Option String) :
      ArchiveStep platform process choice archive (.uploadDiscard sent receipt key answer)
        (answer.map (.answered sent receipt))
        { archive with db := archive.db.removeObject key }
  | keep (sent : Upload) (receipt : Option UploadReceipt) (key : ObjectKey)
      (answer : Option String) :
      ArchiveStep platform process choice archive (.uploadDiscard sent receipt key answer)
        (answer.map (.answered sent receipt)) archive

section Inversion

variable {platform : Platform} {process : Nat} {archive after : Archive}
variable {request : ArchiveRequest} {remaining : Option ArchiveRequest}

theorem archiveStatement_step {choice : Choice}
    (hstatement : archiveStatement platform process choice archive request =
      some (remaining, after)) :
    ArchiveStep platform process choice archive request remaining after := by
  cases request with
  | request place =>
      simp only [archiveStatement, Option.map_eq_some_iff] at hstatement
      obtain ⟨⟨left, db⟩, hadvance, heq⟩ := hstatement
      cases heq
      exact .portal place left db hadvance
  | upload sent =>
      simp only [archiveStatement] at hstatement
      repeat' split at hstatement
      all_goals cases hstatement
      · exact .reject sent
      next hreceipt => exact .receive sent _ hreceipt
      · exact .reject sent
  | uploadLookup sent receipt =>
      simp only [archiveStatement] at hstatement
      split at hstatement <;> cases hstatement
      · exact .stop
      next hlookup => exact .repeated sent receipt _ _ hlookup
      · exact .begin sent receipt
  | uploading sent receipt place =>
      by_cases hplace : ∀ target previousId key, place ≠ .uploadTransaction target previousId key
      · rw [archiveStatement_uploading hplace, Option.map_eq_some_iff] at hstatement
        obtain ⟨⟨left, db⟩, hadvance, heq⟩ := hstatement
        cases heq
        exact .prepare sent receipt place left db hplace hadvance
      · push Not at hplace
        obtain ⟨target, previousId, key, rfl⟩ := hplace
        simp only [archiveStatement] at hstatement
        split at hstatement
        · cases hstatement
          exact .abort sent receipt target previousId key
        next haccepted =>
          split at hstatement
          next hid =>
            cases hstatement
            refine .commit sent receipt target previousId key _ haccepted ?_
            cases receipt with
            | none => exact .inr ⟨rfl, hid.resolve_left (by simp)⟩
            | some receipt => exact .inl rfl
          next => cases hstatement
  | uploadRecover sent receipt key =>
      simp only [archiveStatement] at hstatement
      split at hstatement
      · cases hstatement
        exact .stop
      next documentId objectKey hlookup =>
        split at hstatement <;> cases hstatement
        next hown => exact .confirm sent receipt key documentId (hown ▸ hlookup)
        next hother =>
          apply ArchiveStep.compensate sent receipt key (some (documentId, objectKey)) hlookup
          intro other heq
          exact hother (congrArg Prod.snd (Option.some.inj heq))
      next hlookup =>
        cases hstatement
        exact .compensate sent receipt key none hlookup (by simp)
  | uploadDiscard sent receipt key answer =>
      simp only [archiveStatement] at hstatement
      cases hstatement
      split
      · exact .keep sent receipt key answer
      · exact .discard sent receipt key answer
  | answered sent receipt documentId =>
      cases hstatement
      exact .stop

theorem archiveStatement_write {choice : Choice}
    (hstatement : archiveStatement platform process choice archive request =
      some (remaining, after)) : ArchiveWrite process choice archive request after := by
  cases archiveStatement_step hstatement with
  | portal place left db hadvance => exact .statement place db (advance_write hadvance)
  | reject sent => exact .receive sent
  | receive sent receipt hreceipt => exact .receive sent
  | prepare sent receipt place left db hplace hadvance =>
      exact .prepare sent receipt place db hplace (advance_write hadvance)
  | commit sent receipt target previousId key id haccepted hid =>
      exact .commit sent receipt target previousId key id haccepted hid
  | discard sent receipt key answer => exact .discard sent receipt key answer
  | _ => exact .none

/-- Every statement with every outcome is one of the writes. -/
theorem archiveAdvance_write {choice : ArchiveChoice}
    (hadvance : archiveAdvance platform process choice archive request = some (remaining, after)) :
    ArchiveWrite process choice.choice archive request after := by
  unfold archiveAdvance at hadvance
  split at hadvance
  · exact archiveStatement_write hadvance
  · cases hadvance
    exact .none
  · rw [Option.map_eq_some_iff] at hadvance
    obtain ⟨⟨left, result⟩, hstatement, heq⟩ := hadvance
    cases heq
    exact archiveStatement_write hstatement

/-- A request goes on after its statement took effect, or on its error path. -/
theorem archiveAdvance_following {choice : ArchiveChoice} {following : ArchiveRequest}
    (hadvance : archiveAdvance platform process choice archive request =
      some (some following, after)) :
    archiveStatement platform process choice.choice archive request =
        some (some following, after) ∨
      request.recovery = some following ∧
        ArchiveWrite process choice.choice archive request after ∧
        (choice.outcome ≠ .lost → after = archive) := by
  have hwrite := archiveAdvance_write hadvance
  unfold archiveAdvance at hadvance
  split at hadvance
  · exact .inl hadvance
  · rw [Option.some.injEq, Prod.mk.injEq] at hadvance
    exact .inr ⟨hadvance.1, hwrite, fun _ => hadvance.2.symm⟩
  next hlost =>
    rw [Option.map_eq_some_iff] at hadvance
    obtain ⟨result, -, heq⟩ := hadvance
    rw [Prod.mk.injEq] at heq
    exact .inr ⟨heq.1, hwrite, fun hkept => absurd hlost hkept⟩

end Inversion

/-! ## The transaction of an upload -/

section UseId

variable {db : Database} {process : Nat} {id : String}

@[simp] theorem useId_policies : (db.useId process id).policies = db.policies := by
  unfold Database.useId
  split <;> rfl

@[simp] theorem useId_documents : (db.useId process id).documents = db.documents := by
  unfold Database.useId
  split <;> rfl

@[simp] theorem useId_versions : (db.useId process id).versions = db.versions := by
  unfold Database.useId
  split <;> rfl

@[simp] theorem useId_storedFiles : (db.useId process id).storedFiles = db.storedFiles := by
  unfold Database.useId
  split <;> rfl

@[simp] theorem useId_objects : (db.useId process id).objects = db.objects := by
  unfold Database.useId
  split <;> rfl

@[simp] theorem useId_issuedKeys : (db.useId process id).issuedKeys = db.issuedKeys := by
  unfold Database.useId
  split <;> rfl

@[simp] theorem useId_retiredIds : (db.useId process id).retiredIds = db.retiredIds := by
  unfold Database.useId
  split <;> rfl

theorem issuedIds_subset_useId : db.issuedIds ⊆ (db.useId process id).issuedIds := by
  unfold Database.useId
  split
  · exact List.subset_append_left _ _
  · exact List.Subset.refl _

theorem not_fresh_useId : ¬(db.useId process id).FreshId id := by
  unfold Database.useId
  split
  · exact Database.not_fresh_iff.mpr ⟨process, List.mem_append_right _ (List.mem_singleton.mpr rfl)⟩
  next hused => exact hused

theorem idsOnce_useId (honce : (db.issuedIds.map Prod.fst).Nodup) :
    ((db.useId process id).issuedIds.map Prod.fst).Nodup := by
  unfold Database.useId
  split
  next hfresh => exact Table.nodup_insert honce hfresh
  next => exact honce

end UseId

section Commit

variable {platform : Platform} {process : Nat} {choice : Choice} {archive : Archive}
variable {sent : Upload} {receipt : Option UploadReceipt} {target : UploadTarget}
variable {previousId : Option String} {key : ObjectKey} {id : String}

variable (process choice archive sent receipt target key id) in
/-- The new row of the transaction. -/
theorem commitUpload_versions : ∃ version : DocumentVersion,
    (archive.commitUpload process choice sent receipt target key id).db.versions =
        archive.db.versions ++ [version] ∧
      version.id = id ∧ version.documentId = target.documentId ∧ version.storedFile = key ∧
      version.distributedStoredFile = none := by
  simp only [Archive.commitUpload, useId_versions]
  exact uploadVersion_versions archive.db target key { choice with name := id }

/-- The document of an accepted upload is not deleted. -/
theorem targetLive (hsound : archive.db.Sound) (htarget : target.Reserved process archive.db)
    (haccepted : ¬UploadRefused archive.db receipt target previousId) :
    target.documentId ∉ archive.db.retiredIds := by
  cases hnew : target.isNew with
  | true => exact (htarget hnew).2.1
  | false =>
      have hfound : (archive.db.findDocument target.documentId).isSome = true := by
        by_contra hnone
        exact haccepted (.inl ⟨hnew, by simpa using hnone⟩)
      obtain ⟨document, hdocument, hid⟩ := Database.isSome_findDocument.mp hfound
      exact hid ▸ hsound.documentLive document hdocument

variable (hsound : archive.db.Sound) (htarget : target.Reserved process archive.db)
variable (haccepted : ¬UploadRefused archive.db receipt target previousId)
variable (hid : receipt.map UploadReceipt.id = some id ∨ receipt = none ∧ archive.db.FreshId id)

include hsound haccepted hid in
/-- The id of the new version is not taken. -/
theorem commitUpload_id_free : ∀ version ∈ archive.db.versions, version.id ≠ id := by
  rintro version hversion rfl
  rcases hid with hreceipt | ⟨-, hfresh⟩
  · exact haccepted (.inr (.inr ⟨version, hversion, hreceipt.symm⟩))
  · exact hsound.versionIssued _ (Database.mem_versionKeys hversion) hfresh

include htarget in
theorem commitUpload_evolves :
    Evolves process archive.db
      (archive.commitUpload process choice sent receipt target key id).db where
  keys := by simp [Archive.commitUpload]
  ids := fun _ hentry => issuedIds_subset_useId (by simpa using hentry)
  retired := by simp [Archive.commitUpload]
  retiring := fun _ hid => .inl (by simpa [Archive.commitUpload] using hid)
  policies := by
    intro entry hentry
    refine .inr ?_
    simpa [Archive.commitUpload, Database.policyKeys] using hentry
  documents := by
    intro document hdocument
    simp only [Archive.commitUpload, useId_documents] at hdocument
    rcases uploadVersion_documents _ _ _ _ hdocument with ⟨row, hrow, hrowId, -⟩ | ⟨hnew, heq, -⟩
    · exact .inl ⟨row, hrow, hrowId⟩
    · exact .inr (heq ▸ (htarget hnew).1)

include hsound htarget haccepted hid in
theorem commitUpload_sound (hkey : (key, process) ∈ archive.db.issuedKeys) :
    (archive.commitUpload process choice sent receipt target key id).db.Sound := by
  have hevolves : Evolves process archive.db
    (archive.commitUpload process choice sent receipt target key id).db :=
    commitUpload_evolves htarget
  obtain ⟨version, hversions, hversionId, hdocument, -⟩ :=
    commitUpload_versions process choice archive sent receipt target key id
  have hkeys : (archive.commitUpload process choice sent receipt target key id).db.versionKeys =
      archive.db.versionKeys ++ [(id, target.documentId)] := by
    rw [Database.versionKeys, hversions, List.map_append, List.map_singleton, hversionId, hdocument]
    rfl
  have hpolicies : (archive.commitUpload process choice sent receipt target key id).db.policyKeys =
      archive.db.policyKeys := by
    simp [Database.policyKeys, Archive.commitUpload]
  have hretired : (archive.commitUpload process choice sent receipt target key id).db.retiredIds =
      archive.db.retiredIds := by
    simp [Archive.commitUpload]
  have hdocuments : ∀ document ∈
      (archive.commitUpload process choice sent receipt target key id).db.documents,
      (∃ row ∈ archive.db.documents, row.id = document.id) ∨
        target.isNew = true ∧ document.id = target.documentId := by
    intro document hmem
    simp only [Archive.commitUpload, useId_documents] at hmem
    rcases uploadVersion_documents _ _ _ _ hmem with ⟨row, hrow, hrowId, -⟩ | ⟨hnew, heq, -⟩
    · exact .inl ⟨row, hrow, hrowId⟩
    · exact .inr ⟨hnew, heq⟩
  constructor
  case policyIds =>
    rw [hpolicies]
    exact hsound.policyIds
  case policyDocuments =>
    rw [hpolicies]
    exact hsound.policyDocuments
  case policyIssued =>
    rw [hpolicies]
    exact fun entry hentry =>
      Database.not_fresh_mono hevolves.ids (hsound.policyIssued entry hentry)
  case versionIds =>
    rw [hkeys]
    apply Table.nodup_insert hsound.versionIds
    intro entry hentry heq
    obtain ⟨row, hrow, rfl⟩ := List.mem_map.mp hentry
    exact commitUpload_id_free hsound haccepted hid row hrow heq
  case versionIssued =>
    rw [hkeys]
    intro entry hentry
    rw [List.mem_append, List.mem_singleton] at hentry
    rcases hentry with hold | rfl
    · exact Database.not_fresh_mono hevolves.ids (hsound.versionIssued entry hold)
    · exact not_fresh_useId
  case versionLive =>
    rw [hversions, hretired]
    intro row hrow
    rw [List.mem_append, List.mem_singleton] at hrow
    rcases hrow with hold | rfl
    · exact hsound.versionLive row hold
    · exact hdocument ▸ targetLive hsound htarget haccepted
  case documentLive =>
    rw [hretired]
    intro document hmem
    rcases hdocuments document hmem with ⟨row, hrow, hrowId⟩ | ⟨-, heq⟩
    · exact hrowId ▸ hsound.documentLive row hrow
    · exact heq ▸ targetLive hsound htarget haccepted
  case documentIssued =>
    intro document hmem
    refine Database.not_fresh_mono hevolves.ids ?_
    rcases hdocuments document hmem with ⟨row, hrow, hrowId⟩ | ⟨hnew, heq⟩
    · exact hrowId ▸ hsound.documentIssued row hrow
    · exact Database.not_fresh_iff.mpr ⟨process, heq ▸ (htarget hnew).1⟩
  case retiredIssued =>
    rw [hretired]
    exact fun entry hentry =>
      Database.not_fresh_mono hevolves.ids (hsound.retiredIssued entry hentry)
  case fileIssued =>
    intro file hfile
    simp only [Archive.commitUpload, useId_storedFiles, uploadVersion_storedFiles, List.mem_append,
      List.mem_singleton] at hfile
    refine Database.not_fresh_mono hevolves.keys ?_
    rcases hfile with hold | rfl
    · exact hsound.fileIssued file hold
    · exact Database.not_fresh_iff.mpr ⟨process, hkey⟩
  case keysOnce => simpa [Archive.commitUpload] using hsound.keysOnce
  case idsOnce => exact idsOnce_useId (by simpa using hsound.idsOnce)

end Commit

end IsmsPortal
