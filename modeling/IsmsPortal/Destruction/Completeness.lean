import IsmsPortal.Destruction.Protection

/-! # Complete and irreversible destruction

A destroyed document keeps its tombstone in every run: no request clears
`destroyedAt`, and the trash never gives a destroyed document back. The files
are another matter. The worker removes the files it read before its claim, and
an upload or a watermark that commits later adds a file it has not seen. In
runs without such a late commit every file of a destroyed document is purged
and its object gone.
-/

namespace IsmsPortal

open Foundation

/-! ## The property -/

/-- The document is destroyed for good: its row is a tombstone unless it was
permanently deleted, and the files that only its versions refer to are purged. -/
structure Database.Destroyed (db : Database) (documentId : String) : Prop where
  present : documentId ∈ db.retiredIds ∨ ∃ document ∈ db.documents, document.id = documentId
  tombstone : ∀ document ∈ db.documents, document.id = documentId →
    document.destroyedAt.isSome ∧ document.deletedAt.isSome
  files : ∀ file ∈ db.storedFiles,
    (∃ version ∈ db.versions, version.documentId = documentId ∧ version.Refers file.objectKey) →
    (∀ version ∈ db.versions, version.Refers file.objectKey → version.documentId = documentId) →
    file.purgedAt.isSome ∧ file.objectKey ∉ db.objects

/-! ## The condition -/

/-- The items a worker has read and not finished. -/
def Request.snapshots : Request → List WorkItem
  | .claimNext queue => queue
  | .findShared item queue | .removeObjects item _ _ queue => item :: queue
  | _ => []

/-- The document to whose versions the statement adds a file. -/
def Request.attaching : Request → Option String
  | .uploadTransaction target _ _ => some target.documentId
  | .watermarkAttach documentId _ _ _ => some documentId
  | _ => none

/-- The document is not destroyed, and no worker has read it. -/
def Undisturbed (config : PortalConfig) (documentId : String) : Prop :=
  (∀ document ∈ config.store.documents, document.id = documentId →
    document.destroyedAt = none) ∧
  ∀ name request item, config.processes name = some request → item ∈ request.snapshots →
    item.document.id ≠ documentId

/-- A file is added only to a document that no worker has read or destroyed. -/
def Request.AttachesInTime (config : PortalConfig) (request : Request) : Prop :=
  ∀ documentId, request.attaching = some documentId → Undisturbed config documentId

abbrev AttachedInTime : PortalConfig → PortalMove → Prop :=
  Concurrent.Guarded Request.AttachesInTime

/-! ## One statement -/

section Writes

variable {process : Nat} {choice : Choice} {db after : Database} {request : Request}

/-- An object that is gone stays gone: keys are not used again. -/
theorem absent_write (hwrite : Write process choice db request after) {key : ObjectKey}
    (hissued : ¬db.FreshKey key) (habsent : key ∉ db.objects) : key ∉ after.objects := by
  cases hwrite
  case put | putMarked =>
    next hfresh =>
    intro hkey
    simp only [Database.putObject, List.mem_append, List.mem_singleton] at hkey
    rcases hkey with hold | rfl
    · exact habsent hold
    · exact hissued hfresh
  case removeFile | cleanup | dropUpload | dropMarked =>
    exact fun hkey => habsent (List.mem_of_mem_filter hkey)
  case upload => simpa [Database.issueId] using habsent
  all_goals exact habsent

/-- No statement brings a document back from destruction, and a destroyed
document is in the trash. -/
theorem tombstone_write (hwrite : Write process choice db request after) {document : Document}
    (hdocument : document ∈ after.documents) :
    (∃ row ∈ db.documents, row.id = document.id ∧
        (row.destroyedAt.isSome → document.destroyedAt.isSome) ∧
        ((row.destroyedAt.isSome → row.deletedAt.isSome) →
          document.destroyedAt.isSome → document.deletedAt.isSome) ∧
        (document.destroyedAt.isSome → row.destroyedAt.isSome ∨ ∃ item keep queue,
          request = .removeObjects item keep [] queue ∧ after = destroyDocument db item keep ∧
          item.document.id = document.id)) ∨
      document.destroyedAt = none ∧ ∃ target previousId key,
        request = .uploadTransaction target previousId key ∧ target.isNew = true ∧
        target.documentId = document.id := by
  cases hwrite
  case upload target previousId key hfound hfresh =>
    obtain ⟨row, hrow, hid, hdeleted, hdestroyed⟩ | ⟨hnew, hid, hdestroyed⟩ :=
      uploadVersion_documents db target key choice hdocument
    · refine .inl ⟨row, hrow, hid, ?_⟩
      rw [hdeleted, hdestroyed]
      exact ⟨id, id, .inl⟩
    · exact .inr ⟨hdestroyed, target, previousId, key, rfl, hnew, hid.symm⟩
  case destroy item keep queue =>
    obtain ⟨row, hrow, rfl⟩ := List.mem_map.mp hdocument
    refine .inl ⟨row, hrow, ?_⟩
    split
    · next hid =>
      exact ⟨rfl, fun _ => rfl, fun _ _ => rfl,
        fun _ => .inr ⟨item, keep, queue, rfl, rfl, (of_decide_eq_true hid).symm⟩⟩
    · exact ⟨rfl, id, id, .inl⟩
  case untrash documentId =>
    obtain ⟨row, hrow, rfl⟩ := List.mem_map.mp hdocument
    refine .inl ⟨row, hrow, ?_⟩
    split
    · next hselected =>
      have halive := (of_decide_eq_true hselected).2.2
      refine ⟨rfl, id, fun _ hdestroyed => ?_, .inl⟩
      rw [halive] at hdestroyed
      cases hdestroyed
    · exact ⟨rfl, id, id, .inl⟩
  case trash documentId =>
    obtain ⟨row, hrow, rfl⟩ := List.mem_map.mp hdocument
    refine .inl ⟨row, hrow, ?_⟩
    split
    · exact ⟨rfl, id, fun _ _ => rfl, .inl⟩
    · exact ⟨rfl, id, id, .inl⟩
  case restoreVersion | status | metadata =>
    obtain ⟨row, hrow, rfl⟩ := List.mem_map.mp hdocument
    refine .inl ⟨row, hrow, ?_⟩
    split <;> exact ⟨rfl, id, id, .inl⟩
  case delete => exact .inl ⟨document, List.mem_of_mem_filter hdocument, rfl, id, id, .inl⟩
  all_goals exact .inl ⟨document, hdocument, rfl, id, id, .inl⟩

/-- A document stays, or is retired. -/
theorem document_kept (hwrite : Write process choice db request after) {row : Document}
    (hrow : row ∈ db.documents) :
    row.id ∈ after.retiredIds ∨ ∃ document ∈ after.documents, document.id = row.id := by
  cases hwrite
  case upload target previousId key hfound hfresh =>
    obtain ⟨document, hdocument, hid, -⟩ :=
      uploadVersion_keepsDocuments db target key choice hrow
    exact .inr ⟨document, hdocument, hid⟩
  case delete document policy files hchecked hfound =>
    by_cases hid : row.id = document.id
    · left
      simp [deleteDocument, hid]
    · right
      refine ⟨row, ?_, rfl⟩
      simp [deleteDocument, hrow, hid]
  case destroy | restoreVersion | status | trash | untrash | metadata =>
    refine .inr ⟨_, List.mem_map_of_mem hrow, ?_⟩
    split <;> rfl
  all_goals exact .inr ⟨row, hrow, rfl⟩

/-- A policy becomes destroyed by the worker's commit only. -/
theorem destroyed_write (hwrite : Write process choice db request after)
    {policy : RetentionPolicy} (hpolicy : policy ∈ after.policies)
    (hdestroyed : policy.destructionStatus = .destroyed) :
    (∃ row ∈ db.policies, row.documentId = policy.documentId ∧
        row.destructionStatus = .destroyed) ∨
      ∃ item keep queue, request = .removeObjects item keep [] queue ∧
        after = destroyDocument db item keep ∧
        ∃ row ∈ db.policies, row.id = item.policy.id ∧ row.documentId = policy.documentId := by
  cases hwrite
  case create body hnone hfound hfresh =>
    simp only [List.mem_append, List.mem_singleton] at hpolicy
    rcases hpolicy with hold | rfl
    · exact .inl ⟨policy, hold, rfl, hdestroyed⟩
    · cases hdestroyed
  case save body =>
    obtain ⟨row, hrow, rfl | ⟨-, rfl⟩⟩ := Database.mem_updatePolicies hpolicy
    · exact .inl ⟨policy, hrow, rfl, hdestroyed⟩
    · cases hhold : body.legalHold <;> simp only [savedPolicy, hhold] at hdestroyed ⊢
      · exact .inl ⟨row, hrow, rfl, hdestroyed⟩
      · cases hdestroyed
  case decide decision read haccepted =>
    obtain ⟨row, hrow, rfl | ⟨-, rfl⟩⟩ := Database.mem_updatePolicies hpolicy
    · exact .inl ⟨policy, hrow, rfl, hdestroyed⟩
    · cases haction : decision.action <;> simp [decidedPolicy, haction] at hdestroyed
  case flag | retry | claim =>
    obtain ⟨row, hrow, rfl | ⟨-, rfl⟩⟩ := Database.mem_updatePolicies hpolicy
    · exact .inl ⟨policy, hrow, rfl, hdestroyed⟩
    · cases hdestroyed
  case destroy item keep queue =>
    obtain ⟨row, hrow, rfl | ⟨hid, rfl⟩⟩ := Database.mem_updatePolicies hpolicy
    · exact .inl ⟨policy, hrow, rfl, hdestroyed⟩
    · exact .inr ⟨item, keep, queue, rfl, rfl, row, hrow, of_decide_eq_true hid, rfl⟩
  case delete => exact .inl ⟨policy, List.mem_of_mem_filter hpolicy, rfl, hdestroyed⟩
  case upload =>
    exact .inl ⟨policy, by simpa [Database.issueId] using hpolicy, rfl, hdestroyed⟩
  all_goals exact .inl ⟨policy, hpolicy, rfl, hdestroyed⟩

end Writes

/-! ## The invariant -/

/-- Destroyed documents are in the trash with all their files purged, purged
files have no object, and destroyed policies have destroyed documents. -/
structure Database.Complete (db : Database) : Prop where
  trashed : ∀ document ∈ db.documents, document.destroyedAt.isSome → document.deletedAt.isSome
  absent : ∀ file ∈ db.storedFiles, file.purgedAt.isSome → file.objectKey ∉ db.objects
  purged : ∀ document ∈ db.documents, document.destroyedAt.isSome → ∀ version ∈ db.versions,
    version.documentId = document.id → ∀ file ∈ db.storedFiles, version.Refers file.objectKey →
    file.purgedAt.isSome
  policyDocument : ∀ policy ∈ db.policies, ∃ document ∈ db.documents,
    document.id = policy.documentId
  recorded : ∀ policy ∈ db.policies, policy.destructionStatus = .destroyed →
    ∀ document ∈ db.documents, document.id = policy.documentId → document.destroyedAt.isSome

/-- The worker's snapshot has all the files of the document. -/
structure WorkItem.Covers (db : Database) (item : WorkItem) : Prop where
  files : ∀ version ∈ db.versions, version.documentId = item.document.id →
    ∀ file ∈ db.storedFiles, version.Refers file.objectKey →
    file.objectKey ∈ item.files.map StoredFile.objectKey
  purged : ∀ file ∈ item.files, file.purgedAt.isSome → file.objectKey ∉ db.objects

/-- The objects of files already passed are gone. -/
def Request.Swept (db : Database) : Request → Prop
  | .removeObjects item _ remaining _ => ∀ file ∈ item.files,
      file ∈ remaining ∨ file.objectKey ∉ db.objects
  | _ => True

def Request.Sweeping (db : Database) (request : Request) : Prop :=
  (∀ item ∈ request.snapshots, item.Covers db) ∧ request.Swept db

section Invariant

variable {process : Nat} {choice : Choice} {db after : Database} {request : Request}

/-- Unless the statement adds a file to the document, its versions refer to
files they referred to before. -/
theorem reference_write (hwell : db.WellFormed) (hvalid : request.Valid process db)
    (hwrite : Write process choice db request after) {version : DocumentVersion}
    (hversion : version ∈ after.versions) {file : StoredFile} (hfile : file ∈ after.storedFiles)
    (hrefers : version.Refers file.objectKey)
    (hother : request.attaching ≠ some version.documentId) :
    ∃ row ∈ db.versions, row.documentId = version.documentId ∧ ∃ old ∈ db.storedFiles,
      old.objectKey = file.objectKey ∧ row.Refers old.objectKey ∧
      (old.purgedAt.isSome → file.purgedAt.isSome) := by
  have hrow : ∃ row ∈ db.versions, row.documentId = version.documentId ∧
      row.Refers file.objectKey := by
    obtain hold | ⟨target, previousId, rfl, hdocument⟩ |
      ⟨documentId, marked, queue, rfl, row, hrow, hid, hdocument⟩ |
      ⟨source, rfl, hkey, hdocument, hfound⟩ := refers_write hwrite hversion hrefers
    · exact hold
    · exact absurd (congrArg some hdocument.symm) hother
    · have hbelongs := (hvalid.1 marked List.mem_cons_self).2 row hrow hid
      exact absurd (congrArg some (hbelongs.symm.trans hdocument)) hother
    · obtain ⟨row, hrow, hrowDocument, hrowFile⟩ := hvalid.exists_row hwell hfound
      exact ⟨row, hrow, hrowDocument.trans hdocument.symm, .inl (hrowFile.trans hkey)⟩
  obtain ⟨row, hrow, hdocument, hrowRefers⟩ := hrow
  refine ⟨row, hrow, hdocument, ?_⟩
  obtain ⟨old, hold, hkey, hpurged, -⟩ | ⟨-, hstores⟩ := storedFiles_write hwrite hfile
  · exact ⟨old, hold, hkey, hkey ▸ hrowRefers, hpurged⟩
  · obtain ⟨target, previousId, rfl⟩ | ⟨documentId, marked, queue, rfl⟩ :=
      Request.stores_eq_some hstores
    · exact absurd hrowRefers (hvalid.2.1.2 row hrow)
    · exact absurd hrowRefers (hvalid.2.1.2 row hrow)

theorem WorkItem.Covers.write {item : WorkItem} (hwell : db.WellFormed)
    (hvalid : request.Valid process db) (hwrite : Write process choice db request after)
    (hitem : item.Valid db) (hother : request.attaching ≠ some item.document.id)
    (hcovers : item.Covers db) : item.Covers after where
  files := by
    intro version hversion hdocument file hfile hrefers
    obtain ⟨row, hrow, hrowDocument, old, hold, hkey, hrowRefers, -⟩ :=
      reference_write hwell hvalid hwrite hversion hfile hrefers (hdocument ▸ hother)
    rw [← hkey]
    exact hcovers.files row hrow (hrowDocument.trans hdocument) old hold hrowRefers
  purged := fun file hfile hpurged =>
    absent_write hwrite (hitem.files file hfile).2 (hcovers.purged file hfile hpurged)

theorem Request.Swept.write (hwrite : Write process choice db request after)
    {other : Nat} {pending : Request} (hpending : pending.Valid other db)
    (hswept : pending.Swept db) : pending.Swept after := by
  cases pending
  case removeObjects item keep remaining queue =>
    intro file hfile
    refine (hswept file hfile).imp_right fun habsent => ?_
    exact absent_write hwrite ((hpending.1 item List.mem_cons_self).files file hfile).2 habsent
  all_goals trivial

/-- The worker's commit purges every file of its snapshot. -/
theorem destroyDocument_purged {item : WorkItem} {file : StoredFile}
    (hfile : file ∈ (destroyDocument db item []).storedFiles)
    (hmem : file.objectKey ∈ item.files.map StoredFile.objectKey) : file.purgedAt.isSome := by
  obtain ⟨row, hrow, rfl⟩ := List.mem_map.mp hfile
  split
  · rfl
  · next hnot =>
    rw [if_neg hnot] at hmem
    exact absurd ⟨hmem, List.not_mem_nil⟩ hnot

theorem destroyDocument_destroyed {item : WorkItem} {keep : List ObjectKey} {document : Document}
    (hdocument : document ∈ (destroyDocument db item keep).documents)
    (hid : document.id = item.document.id) : document.destroyedAt.isSome := by
  obtain ⟨row, hrow, rfl⟩ := List.mem_map.mp hdocument
  split
  · rfl
  · next hnot =>
    rw [if_neg hnot] at hid
    exact absurd (decide_eq_true hid) hnot

/-- Policies go with their documents. -/
theorem policyDocument_write (hwell : db.WellFormed)
    (hwrite : Write process choice db request after)
    (hdocuments : ∀ policy ∈ db.policies, ∃ document ∈ db.documents,
      document.id = policy.documentId) :
    ∀ policy ∈ after.policies, ∃ document ∈ after.documents,
      document.id = policy.documentId := by
  intro policy hpolicy
  have hold : (policy.id, policy.documentId) ∈ db.policyKeys → ∃ document ∈ after.documents,
      document.id = policy.documentId := by
    intro hkey
    obtain ⟨row, hrow, heq⟩ := List.mem_map.mp hkey
    rw [Prod.mk.injEq] at heq
    obtain ⟨document, hdocument, hid⟩ := hdocuments row hrow
    rw [heq.2] at hid
    rcases document_kept hwrite hdocument with hretired | hkept
    · have hlive := hwell.documentLive document hdocument
      obtain hsame | ⟨gone, -, hgone, -, hpolicies, -⟩ := retiredIds_write hwrite
      · exact absurd (hsame ▸ hretired) hlive
      · rw [hgone, List.mem_append, List.mem_singleton] at hretired
        rcases hretired with hretired | hretired
        · exact absurd hretired hlive
        · exact absurd (hid.symm.trans hretired) (hpolicies policy hpolicy)
    · exact hid ▸ hkept
  obtain hkeys | ⟨body, -, -, hkeys, -, hfound⟩ := policyKeys_write hwrite
  · exact hold (hkeys.subset (Database.mem_policyKeys hpolicy))
  · have hkey := Database.mem_policyKeys hpolicy
    rw [hkeys, List.mem_append, List.mem_singleton, Prod.mk.injEq] at hkey
    rcases hkey with hkey | ⟨-, hdocument⟩
    · exact hold hkey
    · exact hdocument ▸ hfound

/-- Every statement that adds no file late keeps the destruction complete. -/
theorem complete_write {config : PortalConfig} (hwell : config.store.WellFormed)
    (hvalid : request.Valid process config.store) (hcomplete : config.store.Complete)
    (hsweeping : request.Sweeping config.store) (hintime : request.AttachesInTime config)
    (hwrite : Write process choice config.store request after) : after.Complete where
  trashed := by
    intro document hdocument hdestroyed
    obtain ⟨row, hrow, -, -, htrashed, -⟩ | ⟨hnone, -⟩ := tombstone_write hwrite hdocument
    · exact htrashed (hcomplete.trashed row hrow) hdestroyed
    · rw [hnone] at hdestroyed
      cases hdestroyed
  absent := by
    intro file hfile hpurged
    obtain ⟨row, hrow, hkey, -, hbefore⟩ | ⟨hnone, -⟩ := storedFiles_write hwrite hfile
    · rw [← hkey]
      refine absent_write hwrite (hwell.fileIssued row hrow) ?_
      obtain hrowPurged | ⟨item, keep, queue, rfl, hmem⟩ := hbefore hpurged
      · exact hcomplete.absent row hrow hrowPurged
      · obtain ⟨swept, hswept, hsweptKey⟩ := List.mem_map.mp hmem
        rw [hkey, ← hsweptKey]
        exact (hsweeping.2 swept hswept).resolve_left List.not_mem_nil
    · rw [hnone] at hpurged
      cases hpurged
  purged := by
    intro document hdocument hdestroyed version hversion hversionDocument file hfile hrefers
    obtain ⟨row, hrow, hid, -, -, hbefore⟩ | ⟨hnone, -⟩ := tombstone_write hwrite hdocument
    · obtain hrowDestroyed | ⟨item, keep, queue, rfl, rfl, hitem⟩ := hbefore hdestroyed
      · have hother : request.attaching ≠ some version.documentId := by
          intro hattaching
          have halive := (hintime _ hattaching).1 row hrow (hid.trans hversionDocument.symm)
          rw [halive] at hrowDestroyed
          cases hrowDestroyed
        obtain ⟨referring, hreferring, hreferringDocument, old, hold, -, holdRefers, hpurged⟩ :=
          reference_write hwell hvalid hwrite hversion hfile hrefers hother
        apply hpurged
        exact hcomplete.purged row hrow hrowDestroyed referring hreferring
          (hreferringDocument.trans (hversionDocument.trans hid.symm)) old hold holdRefers
      · obtain ⟨referring, hreferring, hreferringDocument, old, hold, hkey, holdRefers, -⟩ :=
          reference_write hwell hvalid hwrite hversion hfile hrefers nofun
        have hmem := (hsweeping.1 item List.mem_cons_self).files referring hreferring
          (hreferringDocument.trans (hversionDocument.trans hitem.symm)) old hold holdRefers
        rw [hvalid.2.1] at hfile
        exact destroyDocument_purged hfile (hkey ▸ hmem)
    · rw [hnone] at hdestroyed
      cases hdestroyed
  policyDocument := fun policy hpolicy =>
    policyDocument_write hwell hwrite hcomplete.policyDocument policy hpolicy
  recorded := by
    intro policy hpolicy hstatus document hdocument hid
    obtain ⟨row, hrow, hrowDocument, hrowStatus⟩ |
      ⟨item, keep, queue, rfl, rfl, row, hrow, hrowId, hrowDocument⟩ :=
      destroyed_write hwrite hpolicy hstatus
    · obtain ⟨before, hbefore, hbeforeId, hkept, -⟩ | ⟨-, target, previousId, key, rfl, hnew, htarget⟩ :=
        tombstone_write hwrite hdocument
      · exact hkept (hcomplete.recorded row hrow hrowStatus before hbefore
          (hbeforeId.trans (hid.trans hrowDocument.symm)))
      · obtain ⟨existing, hexisting, hexistingId⟩ := hcomplete.policyDocument row hrow
        refine absurd ?_ ((hvalid.1 hnew).2.2 existing hexisting)
        rw [hexistingId, hrowDocument, ← hid, htarget]
    · have hitem := (hvalid.1 item List.mem_cons_self).policy row hrow hrowId
      exact destroyDocument_destroyed hdocument (hid.trans (hrowDocument.symm.trans hitem))

/-! ## The outline -/

/-- The worker's read covers the files of the document. -/
theorem workItem_covers (hcomplete : db.Complete) {policy : RetentionPolicy} {item : WorkItem}
    (hitem : workItem db policy = some item) : item.Covers db := by
  simp only [workItem, Option.map_eq_some_iff] at hitem
  obtain ⟨document, -, rfl⟩ := hitem
  constructor
  · intro version hversion hdocument file hfile hrefers
    refine List.mem_map_of_mem (List.mem_filter.mpr ⟨hfile, ?_⟩)
    simp only [Database.versionsOf, List.any_eq_true, List.mem_filter, decide_eq_true_eq]
    exact ⟨version, ⟨hversion, hdocument⟩, hrefers⟩
  · intro file hfile hpurged
    exact hcomplete.absent file (List.mem_of_mem_filter hfile) hpurged

/-- A worker takes new items with its query only. -/
theorem snapshots_advance {following : Request}
    (hadvance : advance process choice db request = some (some following, after))
    {item : WorkItem} (hitem : item ∈ following.snapshots) :
    (item ∈ request.snapshots ∧ request.attaching = none) ∨
      after = db ∧ ∃ policy, workItem db policy = some item := by
  have hstep := advance_step hadvance
  generalize hremaining : some following = remaining at hstep
  cases hstep <;> cases hremaining
  case findApproved hselection =>
    obtain ⟨policy, -, hread⟩ := List.mem_filterMap.mp hitem
    exact .inr ⟨rfl, policy, hread⟩
  case claim head queue hclaimed => exact .inl ⟨hitem, rfl⟩
  case missClaim head queue => exact .inl ⟨List.mem_cons_of_mem _ hitem, rfl⟩
  case findShared head queue => exact .inl ⟨hitem, rfl⟩
  case removeFile head keep file remaining queue | skipFile head keep file remaining queue _ =>
    exact .inl ⟨hitem, rfl⟩
  case destroy head keep queue => exact .inl ⟨List.mem_cons_of_mem _ hitem, rfl⟩
  all_goals contradiction

theorem Request.Valid.snapshots (hvalid : request.Valid process db) {item : WorkItem}
    (hitem : item ∈ request.snapshots) : item.Valid db := by
  cases request
  case claimNext queue => exact hvalid item hitem
  case findShared head queue => exact hvalid item hitem
  case removeObjects head keep remaining queue => exact hvalid.1 item hitem
  all_goals cases hitem

theorem advance_swept (hvalid : request.Valid process db) (hsweeping : request.Sweeping db)
    {following : Request}
    (hadvance : advance process choice db request = some (some following, after)) :
    following.Swept after := by
  have hwrite := advance_write hadvance
  have hstep := advance_step hadvance
  generalize hremaining : some following = remaining at hstep
  cases hstep <;> cases hremaining
  case findShared item queue => exact fun file hfile => .inl hfile
  case removeFile item keep head remaining queue =>
    intro file hfile
    rcases hsweeping.2 file hfile with hmem | habsent
    · rcases List.mem_cons.mp hmem with rfl | hlater
      · right
        simp [Database.removeObject]
      · exact .inl hlater
    · exact .inr (absent_write hwrite
        ((hvalid.1 item List.mem_cons_self).files file hfile).2 habsent)
  case skipFile item keep head remaining queue hskipped =>
    intro file hfile
    rcases hsweeping.2 file hfile with hmem | habsent
    · rcases List.mem_cons.mp hmem with rfl | hlater
      · right
        refine (hsweeping.1 item List.mem_cons_self).purged file hfile ?_
        rw [hvalid.2.1] at hskipped
        simpa [Option.isSome_iff_ne_none] using hskipped
      · exact .inl hlater
    · exact .inr habsent
  all_goals trivial

end Invariant

def completeness : Concurrent.Outline Database Request where
  invariant := Database.Complete
  assertion _ db request := request.Sweeping db

theorem sweeping_of_initial {db : Database} {request : Request}
    (hinitial : request.initial = true) : request.Sweeping db := by
  refine ⟨?_, ?_⟩
  · intro item hitem
    cases request <;> cases hinitial <;> cases hitem
  · cases request <;> trivial

theorem completeness_valid :
    completeness.Valid portal (fun db => db = Database.empty db.clock)
      fun config move => integrity.Holds config ∧ AttachedInTime config move where
  init := by
    intro store hempty
    rw [hempty]
    constructor <;> simp [Database.empty]
  drift := by
    intro time store after hdrift hcomplete
    obtain ⟨-, rfl⟩ := Concurrent.drift_eq hdrift
    refine ⟨⟨hcomplete.trashed, hcomplete.absent, hcomplete.purged, hcomplete.policyDocument,
      hcomplete.recorded⟩, fun name request hsweeping => ⟨?_, ?_⟩⟩
    · intro item hitem
      have hcovers := hsweeping.1 item hitem
      exact ⟨hcovers.files, hcovers.purged⟩
    · have hswept := hsweeping.2
      cases request <;> exact hswept
  start := fun _ _ _ hstart _ => sweeping_of_initial hstart
  own := by
    rintro config name choice request remaining after hholds hrequest ⟨hintegrity, hguard⟩ hadvance
    have hvalid := hintegrity.2 name request hrequest
    have hsweeping := hholds.2 name request hrequest
    have hwrite := advance_write hadvance
    have hcomplete := complete_write hintegrity.1 hvalid hholds.1 hsweeping
      (hguard _ hrequest) hwrite
    refine ⟨hcomplete, ?_⟩
    rintro following rfl
    refine ⟨fun item hitem => ?_, advance_swept hvalid hsweeping hadvance⟩
    obtain ⟨hold, hnone⟩ | ⟨rfl, policy, hread⟩ := snapshots_advance hadvance hitem
    · exact (hsweeping.1 item hold).write hintegrity.1 hvalid hwrite (hvalid.snapshots hold)
        (by simp [hnone])
    · exact workItem_covers hholds.1 hread
  others := by
    rintro config name choice request remaining after hholds hrequest ⟨hintegrity, hguard⟩ hadvance
      other pending - hpending
    have hpendingValid := hintegrity.2 other pending hpending
    have hsweeping := hholds.2 other pending hpending
    refine ⟨fun item hitem => ?_, hsweeping.2.write (advance_write hadvance) hpendingValid⟩
    refine (hsweeping.1 item hitem).write hintegrity.1 (hintegrity.2 name request hrequest)
      (advance_write hadvance) (hpendingValid.snapshots hitem) fun hattaching => ?_
    exact (hguard _ hrequest _ hattaching).2 other pending item hpending hitem rfl

/-! ## Later states -/

/-- The document is destroyed, or was destroyed and then permanently deleted. -/
def Database.Gone (db : Database) (documentId : String) : Prop :=
  (documentId ∈ db.retiredIds ∨ ∃ document ∈ db.documents, document.id = documentId) ∧
    ∀ document ∈ db.documents, document.id = documentId → document.destroyedAt.isSome

/-- No statement at all undoes a destruction. -/
theorem gone_write {process : Nat} {choice : Choice} {db after : Database} {request : Request}
    {documentId : String} (hvalid : request.Valid process db)
    (hwrite : Write process choice db request after) (hgone : db.Gone documentId) :
    after.Gone documentId := by
  refine ⟨?_, fun document hdocument hid => ?_⟩
  · rcases hgone.1 with hretired | ⟨row, hrow, rfl⟩
    · exact .inl (retiredIds_subset hwrite hretired)
    · exact document_kept hwrite hrow
  · obtain ⟨row, hrow, hrowId, hkept, -⟩ | ⟨-, target, previousId, key, rfl, hnew, htarget⟩ :=
      tombstone_write hwrite hdocument
    · exact hkept (hgone.2 row hrow (hrowId.trans hid))
    · obtain ⟨-, hlive, habsent⟩ := hvalid.1 hnew
      rcases hgone.1 with hretired | ⟨row, hrow, hrowId⟩
      · exact absurd (htarget.trans hid ▸ hretired) hlive
      · exact absurd (hrowId.trans (htarget.trans hid).symm) (habsent row hrow)

theorem gone_next {config after : PortalConfig} {move : PortalMove} {documentId : String}
    (hintegrity : integrity.Holds config) (hnext : portal.next config move = some after)
    (hgone : config.store.Gone documentId) : after.store.Gone documentId := by
  obtain ⟨time, -, hdrift⟩ | ⟨name, choice, request, remaining, -, hrequest, hadvance⟩ | hsame :=
    Concurrent.next_store hnext
  · have hafter := (Concurrent.drift_eq hdrift).2
    exact hafter.symm ▸ hgone
  · exact gone_write (hintegrity.2 name request hrequest) (advance_write hadvance) hgone
  · exact hsame ▸ hgone

/-- **Complete and irreversible destruction.** In every run in which no file is
added late, once a policy is destroyed its document stays destroyed, and its
files stay purged, in every later state. -/
theorem destruction_complete {config later : PortalConfig}
    (hreach : portalSystem.ReachableWhile AttachedInTime config)
    (hsteps : portalSystem.StepsWhile AttachedInTime config later) (policy : RetentionPolicy)
    (hpolicy : policy ∈ config.store.policies)
    (hdestroyed : policy.destructionStatus = .destroyed) :
    later.store.Destroyed policy.documentId := by
  have hcomplete : ∀ {state}, portalSystem.ReachableWhile AttachedInTime state →
      state.store.Complete := fun hstate =>
    (completeness_valid.holds (hstate.assuming fun _ hbefore => integrity_holds hbefore)).1
  have hgone : later.store.Gone policy.documentId := by
    induction hsteps with
    | refl =>
      exact ⟨.inr ((hcomplete hreach).policyDocument policy hpolicy),
        (hcomplete hreach).recorded policy hpolicy hdestroyed⟩
    | tail hbefore hallowed hstep ih =>
      exact gone_next (integrity_holds (hreach.steps hbefore)) hstep ih
  have hlater := hreach.steps hsteps
  refine ⟨hgone.1, ?_, ?_⟩
  · intro document hdocument hid
    have htombstone := hgone.2 document hdocument hid
    exact ⟨htombstone, (hcomplete hlater).trashed document hdocument htombstone⟩
  · rintro file hfile ⟨version, hversion, hdocument, hrefers⟩ -
    have hpurged : file.purgedAt.isSome := by
      rcases hgone.1 with hretired | ⟨document, hmem, hid⟩
      · exact absurd (hdocument ▸ hretired) ((integrity_holds hlater).1.versionLive version hversion)
      · exact (hcomplete hlater).purged document hmem (hgone.2 document hmem hid) version hversion
          (hdocument.trans hid.symm) file hfile hrefers
    exact ⟨hpurged, (hcomplete hlater).absent file hfile hpurged⟩

/-! ## Sample runs -/

/-- The part of the condition that can fail for a request that runs alone. -/
def attachesToLiving (db : Database) (request : Request) : Bool :=
  db.documents.all fun document =>
    decide (request.attaching = some document.id → document.destroyedAt = none)

theorem attachesInTime_solo (db : Database) (request : Request)
    (hliving : attachesToLiving db request = true) :
    request.AttachesInTime (Concurrent.solo (some request, db)) := by
  intro documentId hattaching
  simp only [attachesToLiving, List.all_eq_true, decide_eq_true_eq] at hliving
  refine ⟨fun document hdocument hid => hliving document hdocument (hid ▸ hattaching), ?_⟩
  intro name running item hrunning hitem
  by_cases hname : name = 0
  · simp only [Concurrent.solo, hname, Function.update_self, Option.some.injEq] at hrunning
    subst hrunning
    cases request <;> cases hattaching <;> cases hitem
  · simp [Concurrent.solo, Function.update_of_ne hname] at hrunning

/-- One pass of the worker over the report. -/
def destroyReport : List Choice :=
  [choose "", ⟨"", [approvedPolicy "alice" "bob"], false⟩, choose "", choose "", choose "",
    choose "", choose ""]

def destroyedPolicy : RetentionPolicy :=
  { approvedPolicy "alice" "bob" with destructionStatus := .destroyed, destroyedAt := some 0 }

/-- The database after the worker's pass. -/
def destroyedStore : Database :=
  { reportStore destroyedPolicy with
    documents := [⟨"report", .archived, false, some 0, some 0, 0⟩]
    storedFiles := [⟨reportFile.objectKey, some 0⟩]
    objects := [] }

/-- The trash does not give the destroyed report back. -/
theorem destruction_complete_report :
    destroyedPolicy.destructionStatus = .destroyed ∧ ∃ after, System.execute portal.next
      (Concurrent.idle destroyedStore)
      [.start 0 (.restoreFromTrash "report"), .advance 0 (choose "")] = some after ∧
      after.store.Destroyed "report" := by
  have hreach : portalSystem.ReachableWhile AttachedInTime (Concurrent.idle destroyedStore) :=
    Concurrent.reachable_runScript attachesInTime_solo
      [uploadReport, retainReport 0, decideReport "alice" .request, decideReport "bob" .approve,
        (.retryInterrupted, destroyReport)] _ reachable_empty (by decide)
  have hsteps : portalSystem.StepsWhile AttachedInTime (Concurrent.idle destroyedStore)
      (Concurrent.solo (some (.restoreFromTrash "report"), destroyedStore)) := by
    refine .next .refl (.start 0 (.restoreFromTrash "report")) _ ?_ ?_
    · trivial
    · rfl
  refine ⟨rfl, _, rfl, ?_⟩
  refine destruction_complete hreach (hsteps.next (.advance 0 (choose "")) _ ?_ ?_)
    destroyedPolicy (List.mem_singleton.mpr rfl) rfl
  · intro request hrequest documentId hattaching
    cases hrequest
    cases hattaching
  · rfl

/-- An upload of a second version is on its way when the worker destroys the
report, and commits afterwards. -/
def lateUpload : List PortalMove :=
  ([.start 1 (.upload (some "report") false "fr"), .advance 1 (choose ""), .advance 1 (choose ""),
    .advance 1 (choose "late"), .start 2 .retryInterrupted] : List PortalMove) ++
  (destroyReport.map (.advance 2) : List PortalMove) ++
  ([.advance 1 (choose "second")] : List PortalMove)

def lateFile : StoredFile := ⟨⟨"report", "late"⟩, none⟩

def lateVersion : DocumentVersion := ⟨"second", "report", "fr", 2, lateFile.objectKey, none⟩

/-- The late version of the destroyed report keeps its file. -/
theorem late_upload_kept : ∃ config, portalSystem.Reachable config ∧
    ∃ policy ∈ config.store.policies, policy.destructionStatus = .destroyed ∧
      ¬config.store.Destroyed policy.documentId := by
  have happroved : portalSystem.Reachable
      (Concurrent.idle (reportStore (approvedPolicy "alice" "bob"))) :=
    Concurrent.reachable_script [uploadReport, retainReport 0, decideReport "alice" .request,
      decideReport "bob" .approve] reachable_empty (by decide)
  have hfacts : ((System.execute portal.next
      (Concurrent.idle (reportStore (approvedPolicy "alice" "bob"))) lateUpload).any
      fun config => destroyedPolicy ∈ config.store.policies ∧
        config.store.versions.getLast? = some lateVersion ∧
        lateFile ∈ config.store.storedFiles ∧
        ∀ version ∈ config.store.versions, version.documentId = "report") = true := by
    decide
  obtain ⟨config, hrun, hfacts⟩ := (Option.any_eq_true _ _).mp hfacts
  rw [decide_eq_true_eq] at hfacts
  obtain ⟨hpolicy, hversion, hfile, hversions⟩ := hfacts
  refine ⟨config, Concurrent.reachable_execute portal happroved hrun, destroyedPolicy, hpolicy,
    rfl, fun hdestroyed => ?_⟩
  have hpurged := (hdestroyed.files lateFile hfile
    ⟨lateVersion, List.mem_of_getLast? hversion, rfl, .inl rfl⟩
    fun version hmem _ => hversions version hmem).1
  cases hpurged

end IsmsPortal
