import IsmsPortal.Destruction.Steps

/-! # What a statement can write

Every change of the database by one statement of one request, listed once.
Each invariant below is proved by cases on this list; none of them unfolds
`advance` for its effect on the store.
-/

namespace IsmsPortal

open Foundation

/-- `Write process choice db request after`: the statement at which `request`
stands may leave `after`. -/
inductive Write (process : Nat) (choice : Choice) (db : Database) : Request → Database → Prop
  /-- Queries, and refused or empty writes. -/
  | none {request : Request} : Write process choice db request db
  | save (body : RetentionPolicyDto) :
      Write process choice db (.saveRetentionUpsert body)
        (db.updatePolicies (fun policy => policy.documentId = body.documentId) (savedPolicy body))
  | create (body : RetentionPolicyDto) (hnone : db.policyOf body.documentId = none)
      (hfound : ∃ row ∈ db.documents, row.id = body.documentId)
      (hfresh : db.FreshId choice.name) :
      Write process choice db (.saveRetentionUpsert body)
        { db.issueId process choice.name with
          policies := db.policies ++ [createdPolicy body choice.name db.clock] }
  | decide (decision : RetentionDecision) (read : RetentionPolicy)
      (haccepted : retentionDecisionError decision read db.clock = Option.none) :
      Write process choice db (.retentionDecisionUpdate decision read)
        (db.updatePolicies (fun row => row.id = decision.policyId)
          (decidedPolicy decision read db.clock))
  | flag (due : List RetentionPolicy) :
      Write process choice db (.flagDueUpdate due)
        (db.updatePolicies (fun row => row.id ∈ due.map RetentionPolicy.id)
          fun row => { row with destructionStatus := .due })
  | retry :
      Write process choice db .retryInterrupted
        (db.updatePolicies
          (fun policy => policy.destructionStatus = .destroying ∧
            policy.updatedAt < db.clock - 30 * 60000)
          fun policy => { policy with destructionStatus := .approved })
  | claim (item : WorkItem) (queue : List WorkItem) :
      Write process choice db (.claimNext (item :: queue))
        (db.updatePolicies
          (fun policy => Decidable.decide (policy.id = item.policy.id) && isApproved policy)
          fun policy => { policy with destructionStatus := .destroying })
  | removeFile (item : WorkItem) (keep : List ObjectKey) (file : StoredFile)
      (remaining : List StoredFile) (queue : List WorkItem) :
      Write process choice db (.removeObjects item keep (file :: remaining) queue)
        (db.removeObject file.objectKey)
  | destroy (item : WorkItem) (keep : List ObjectKey) (queue : List WorkItem) :
      Write process choice db (.removeObjects item keep [] queue) (destroyDocument db item keep)
  | delete (document : Document) (policy : Option RetentionPolicy) (files : List StoredFile)
      (hchecked : ∀ read, policy = some read → ¬read.Protects db.clock)
      (hfound : ∃ row ∈ db.documents, row.id = document.id) :
      Write process choice db (.removeTransaction document policy files)
        (deleteDocument db document.id files)
  | cleanup (key : ObjectKey) (keys : List ObjectKey) :
      Write process choice db (.removeCleanup (key :: keys)) (db.removeObject key)
  | newDocument (sensitive : Bool) (locale : String) (hfresh : db.FreshId choice.name) :
      Write process choice db (.upload Option.none sensitive locale)
        (db.issueId process choice.name)
  | put (target : UploadTarget) (previousId : Option String)
      (hfresh : db.FreshKey ⟨target.documentId, choice.name⟩) :
      Write process choice db (.uploadPut target previousId)
        (db.putObject process ⟨target.documentId, choice.name⟩)
  | upload (target : UploadTarget) (previousId : Option String) (key : ObjectKey)
      (hfound : target.isNew = true ∨ ∃ row ∈ db.documents, row.id = target.documentId)
      (hfresh : db.FreshId choice.name) :
      Write process choice db (.uploadTransaction target previousId key)
        ((uploadVersion db target key choice).issueId process choice.name)
  | dropUpload (key : ObjectKey) :
      Write process choice db (.uploadFailed key) (db.removeObject key)
  | restoreVersion (source : DocumentVersion)
      (hfound : ∃ row ∈ db.documents, row.id = source.documentId)
      (hfresh : db.FreshId choice.name) :
      Write process choice db (.restoreVersionTransaction source)
        (((db.updateDocuments (fun document => document.id = source.documentId)
          fun document => { document with status := .draft }).createVersion
            (restoredVersion db source choice.name)).issueId process choice.name)
  | putMarked (documentId : String) (version : DocumentVersion) (queue : List DocumentVersion)
      (hfresh : db.FreshKey ⟨documentId, choice.name⟩) :
      Write process choice db (.watermarkPut documentId version queue)
        (db.putObject process ⟨documentId, choice.name⟩)
  | createMarked (documentId : String) (version : DocumentVersion) (key : ObjectKey)
      (queue : List DocumentVersion) :
      Write process choice db (.watermarkCreate documentId version key queue)
        (db.createStoredFile key)
  | attach (documentId : String) (version : DocumentVersion) (key : ObjectKey)
      (queue : List DocumentVersion) :
      Write process choice db (.watermarkAttach documentId version key queue)
        (db.updateVersions (fun row => row.id = version.id)
          fun row => { row with distributedStoredFile := some key })
  | dropMarked (key : ObjectKey) :
      Write process choice db (.watermarkFailed key) (db.removeObject key)
  /-- Publication, archiving and its reversal change the status only. -/
  | status {request : Request} (selects : Document → Bool) (status : DocumentStatus) :
      Write process choice db request
        (db.updateDocuments selects fun document => { document with status := status })
  | trash (documentId : String) :
      Write process choice db (.trashUpdate documentId)
        (db.updateDocuments (fun document => document.id = documentId)
          fun document => { document with deletedAt := some db.clock, status := .archived })
  | untrash (documentId : String) :
      Write process choice db (.restoreFromTrash documentId)
        (db.updateDocuments
          (fun document => document.id = documentId ∧ document.deletedAt ≠ Option.none ∧
            document.destroyedAt = Option.none)
          fun document => { document with deletedAt := Option.none, status := .archived })
  | metadata (body : MetadataUpdate) (document : Document) :
      Write process choice db (.updateMetadataTransaction body document)
        (writeMetadata db body document)

/-! ## Frames -/

section Frames

variable (db : Database) (target : UploadTarget) (key : ObjectKey) (choice : Choice)

@[simp] theorem uploadVersion_clock : (uploadVersion db target key choice).clock = db.clock := by
  simp only [uploadVersion]
  split <;> rfl

@[simp] theorem uploadVersion_policies :
    (uploadVersion db target key choice).policies = db.policies := by
  simp only [uploadVersion]
  split <;> rfl

@[simp] theorem uploadVersion_storedFiles :
    (uploadVersion db target key choice).storedFiles = db.storedFiles ++ [⟨key, none⟩] := by
  simp only [uploadVersion]
  split <;> rfl

@[simp] theorem uploadVersion_objects :
    (uploadVersion db target key choice).objects = db.objects := by
  simp only [uploadVersion]
  split <;> rfl

@[simp] theorem uploadVersion_issuedKeys :
    (uploadVersion db target key choice).issuedKeys = db.issuedKeys := by
  simp only [uploadVersion]
  split <;> rfl

@[simp] theorem uploadVersion_issuedIds :
    (uploadVersion db target key choice).issuedIds = db.issuedIds := by
  simp only [uploadVersion]
  split <;> rfl

@[simp] theorem uploadVersion_retiredIds :
    (uploadVersion db target key choice).retiredIds = db.retiredIds := by
  simp only [uploadVersion]
  split <;> rfl

/-- The new row of an upload. -/
theorem uploadVersion_versions : ∃ version : DocumentVersion,
    (uploadVersion db target key choice).versions = db.versions ++ [version] ∧
      version.id = choice.name ∧ version.documentId = target.documentId ∧
      version.storedFile = key ∧ version.distributedStoredFile = none := by
  simp only [uploadVersion]
  split <;> exact ⟨_, rfl, rfl, rfl, rfl, rfl⟩

/-- An upload creates the document of a new target, or changes the status. -/
theorem uploadVersion_documents {document : Document}
    (hmem : document ∈ (uploadVersion db target key choice).documents) :
    (∃ row ∈ db.documents, row.id = document.id ∧ row.deletedAt = document.deletedAt ∧
        row.destroyedAt = document.destroyedAt) ∨
      (target.isNew = true ∧ document.id = target.documentId ∧ document.destroyedAt = none) := by
  simp only [uploadVersion] at hmem
  split at hmem
  next hnew =>
    simp only [Database.createVersion, Database.createStoredFile, List.mem_append,
      List.mem_singleton] at hmem
    rcases hmem with hmem | rfl
    · exact .inl ⟨document, hmem, rfl, rfl, rfl⟩
    · exact .inr ⟨hnew, rfl, rfl⟩
  next =>
    simp only [Database.createVersion, Database.createStoredFile, Database.updateDocuments,
      List.mem_map] at hmem
    obtain ⟨row, hrow, rfl⟩ := hmem
    refine .inl ⟨row, hrow, ?_⟩
    split <;> exact ⟨rfl, rfl, rfl⟩

theorem uploadVersion_keepsDocuments {document : Document} (hmem : document ∈ db.documents) :
    ∃ row ∈ (uploadVersion db target key choice).documents, row.id = document.id ∧
      row.deletedAt = document.deletedAt ∧ row.destroyedAt = document.destroyedAt := by
  simp only [uploadVersion]
  split
  · exact ⟨document, List.mem_append_left _ hmem, rfl, rfl, rfl⟩
  · refine ⟨_, List.mem_map_of_mem hmem, ?_⟩
    split <;> exact ⟨rfl, rfl, rfl⟩

end Frames

/-- Every statement of every request is one of the writes. -/
theorem advance_write {process : Nat} {choice : Choice} {db after : Database} {request : Request}
    {remaining : Option Request}
    (hadvance : advance process choice db request = some (remaining, after)) :
    Write process choice db request after := by
  cases advance_step hadvance with
  | save body => exact .save body
  | create body hnone hfound hfresh => exact .create body hnone hfound hfresh
  | decide decision policy haccepted => exact .decide decision policy haccepted
  | flag due => exact .flag due
  | retry => exact .retry
  | claim item queue | missClaim item queue => exact .claim item queue
  | removeFile item keep file remaining queue => exact .removeFile item keep file remaining queue
  | destroy item keep queue => exact .destroy item keep queue
  | delete document policy files hchecked hfound =>
      exact .delete document policy files hchecked hfound
  | cleanup key keys => exact .cleanup key keys
  | newDocument sensitive locale hfresh => exact .newDocument sensitive locale hfresh
  | put target previousId hfresh => exact .put target previousId hfresh
  | upload target previousId key hfound hfresh => exact .upload target previousId key hfound hfresh
  | dropUpload key => exact .dropUpload key
  | restoreSource source hfound hfresh => exact .restoreVersion source hfound hfresh
  | putMarked documentId version queue hfresh =>
      exact .putMarked documentId version queue hfresh
  | createMarked documentId version key queue => exact .createMarked documentId version key queue
  | attach documentId version key queue => exact .attach documentId version key queue
  | dropMarked key => exact .dropMarked key
  | publishTransaction | archive | restore => exact .status _ _
  | trashUpdate documentId => exact .trash documentId
  | untrash documentId => exact .untrash documentId
  | metadata body document => exact .metadata body document
  | _ => exact .none

/-! ## Tables after a statement -/

namespace Database

/-- The ids and documents of the policies. -/
def policyKeys (db : Database) : List (String × String) :=
  db.policies.map fun policy => (policy.id, policy.documentId)

/-- The ids and documents of the versions. -/
def versionKeys (db : Database) : List (String × String) :=
  db.versions.map fun version => (version.id, version.documentId)

theorem mem_policyKeys {db : Database} {policy : RetentionPolicy} (hmem : policy ∈ db.policies) :
    (policy.id, policy.documentId) ∈ db.policyKeys :=
  List.mem_map.mpr ⟨policy, hmem, rfl⟩

theorem mem_versionKeys {db : Database} {version : DocumentVersion}
    (hmem : version ∈ db.versions) : (version.id, version.documentId) ∈ db.versionKeys :=
  List.mem_map.mpr ⟨version, hmem, rfl⟩

theorem mem_updatePolicies {db : Database} {selects : RetentionPolicy → Bool}
    {data : RetentionPolicy → RetentionPolicy} {policy : RetentionPolicy}
    (hmem : policy ∈ (db.updatePolicies selects data).policies) :
    ∃ row ∈ db.policies, policy = row ∨
      (selects row = true ∧ policy = { data row with updatedAt := db.clock }) := by
  obtain ⟨row, hrow, rfl⟩ := List.mem_map.mp hmem
  refine ⟨row, hrow, ?_⟩
  split
  · next hselects => exact .inr ⟨hselects, rfl⟩
  · exact .inl rfl

theorem policyKeys_updatePolicies {db : Database} {selects : RetentionPolicy → Bool}
    {data : RetentionPolicy → RetentionPolicy}
    (hdata : ∀ policy, (data policy).id = policy.id ∧ (data policy).documentId = policy.documentId) :
    (db.updatePolicies selects data).policyKeys.Sublist db.policyKeys := by
  have hkeys : (db.updatePolicies selects data).policyKeys = db.policyKeys := by
    simp only [policyKeys, updatePolicies, List.map_map]
    apply List.map_congr_left
    intro policy _
    simp only [Function.comp_apply]
    split
    · rw [(hdata policy).1, (hdata policy).2]
    · rfl
  rw [hkeys]

theorem versionKeys_updateVersions {db : Database} {selects : DocumentVersion → Bool}
    {data : DocumentVersion → DocumentVersion}
    (hdata : ∀ version, (data version).id = version.id ∧
      (data version).documentId = version.documentId) :
    (db.updateVersions selects data).versionKeys.Sublist db.versionKeys := by
  have hkeys : (db.updateVersions selects data).versionKeys = db.versionKeys := by
    simp only [versionKeys, updateVersions, List.map_map]
    apply List.map_congr_left
    intro version _
    simp only [Function.comp_apply]
    split
    · rw [(hdata version).1, (hdata version).2]
    · rfl
  rw [hkeys]

end Database

@[simp] theorem savedPolicy_id (body : RetentionPolicyDto) (policy : RetentionPolicy) :
    (savedPolicy body policy).id = policy.id := by
  unfold savedPolicy
  split <;> rfl

@[simp] theorem savedPolicy_documentId (body : RetentionPolicyDto) (policy : RetentionPolicy) :
    (savedPolicy body policy).documentId = policy.documentId := by
  unfold savedPolicy
  split <;> rfl

@[simp] theorem decidedPolicy_id (decision : RetentionDecision) (read policy : RetentionPolicy)
    (now : Int) : (decidedPolicy decision read now policy).id = policy.id := by
  unfold decidedPolicy
  split <;> rfl

@[simp] theorem decidedPolicy_documentId (decision : RetentionDecision)
    (read policy : RetentionPolicy) (now : Int) :
    (decidedPolicy decision read now policy).documentId = policy.documentId := by
  unfold decidedPolicy
  split <;> rfl

theorem destroyDocument_policyKeys (db : Database) (item : WorkItem) (keep : List ObjectKey) :
    (destroyDocument db item keep).policyKeys =
      (db.updatePolicies (fun policy => policy.id = item.policy.id) fun policy =>
        { policy with
          destructionStatus := .destroyed, destroyedAt := some db.clock }).policyKeys :=
  rfl

/-- The object that the next statement of a request may remove. -/
def Request.removes : Request → Option ObjectKey
  | .removeObjects _ _ (file :: _) _ => some file.objectKey
  | .removeCleanup (key :: _) => some key
  | .uploadFailed key | .watermarkFailed key => some key
  | _ => none

/-- The file whose row the next statement of a request may create. -/
def Request.stores : Request → Option ObjectKey
  | .uploadTransaction _ _ key | .watermarkCreate _ _ key _ => some key
  | _ => none

section Writes

variable {process : Nat} {choice : Choice} {db after : Database} {request : Request}

/-- Policies keep their identity; a new one has a fresh id and a document
without policy. -/
theorem policyKeys_write (hwrite : Write process choice db request after) :
    after.policyKeys.Sublist db.policyKeys ∨
      ∃ body : RetentionPolicyDto, db.policyOf body.documentId = none ∧
        db.FreshId choice.name ∧
        after.policyKeys = db.policyKeys ++ [(choice.name, body.documentId)] ∧
        after.issuedIds = db.issuedIds ++ [(choice.name, process)] ∧
        ∃ row ∈ after.documents, row.id = body.documentId := by
  cases hwrite
  case create body hnone hfound hfresh =>
    refine .inr ⟨body, hnone, hfresh, ?_, rfl, hfound⟩
    simp [Database.policyKeys, createdPolicy]
  case delete document policy files hchecked hfound =>
    exact .inl (List.filter_sublist.map _)
  case upload target previousId key hfound hfresh =>
    left
    simp [Database.policyKeys, Database.issueId]
  -- Updates of single columns.
  case save body =>
    apply Or.inl (Database.policyKeys_updatePolicies _)
    simp
  case decide decision read haccepted =>
    apply Or.inl (Database.policyKeys_updatePolicies _)
    simp
  case destroy item keep queue =>
    simp only [destroyDocument_policyKeys]
    exact .inl (Database.policyKeys_updatePolicies fun _ => ⟨rfl, rfl⟩)
  case flag | retry | claim =>
    exact .inl (Database.policyKeys_updatePolicies fun _ => ⟨rfl, rfl⟩)
  all_goals exact .inl (List.Sublist.refl _)

/-- Versions keep their identity; a new one has a fresh id. -/
theorem versionKeys_write (hwrite : Write process choice db request after) :
    after.versionKeys.Sublist db.versionKeys ∨
      ∃ documentId, db.FreshId choice.name ∧
        after.versionKeys = db.versionKeys ++ [(choice.name, documentId)] ∧
        after.issuedIds = db.issuedIds ++ [(choice.name, process)] := by
  cases hwrite
  case delete document policy files hchecked hfound =>
    exact .inl (List.filter_sublist.map _)
  case upload target previousId key hfound hfresh =>
    obtain ⟨version, hversions, hid, hdocument, -⟩ := uploadVersion_versions db target key choice
    refine .inr ⟨target.documentId, hfresh, ?_, ?_⟩
    · simp [Database.versionKeys, Database.issueId, hversions, hid, hdocument]
    · simp [Database.issueId]
  case restoreVersion source hfound hfresh =>
    refine .inr ⟨source.documentId, hfresh, ?_, rfl⟩
    simp [Database.versionKeys, Database.issueId, Database.createVersion,
      Database.updateDocuments, restoredVersion]
  case attach documentId version key queue =>
    exact .inl (Database.versionKeys_updateVersions fun _ => ⟨rfl, rfl⟩)
  case metadata body document =>
    exact .inl (Database.versionKeys_updateVersions fun _ => ⟨rfl, rfl⟩)
  all_goals exact .inl (List.Sublist.refl _)

theorem issuedKeys_write (hwrite : Write process choice db request after) :
    after.issuedKeys = db.issuedKeys ∨
      ∃ key, db.FreshKey key ∧ after.issuedKeys = db.issuedKeys ++ [(key, process)] := by
  cases hwrite
  case put target previousId hfresh => exact .inr ⟨_, hfresh, rfl⟩
  case putMarked documentId version queue hfresh => exact .inr ⟨_, hfresh, rfl⟩
  case upload => exact .inl (by simp [Database.issueId])
  all_goals exact .inl rfl

theorem issuedIds_write (hwrite : Write process choice db request after) :
    after.issuedIds = db.issuedIds ∨
      (db.FreshId choice.name ∧ after.issuedIds = db.issuedIds ++ [(choice.name, process)]) := by
  cases hwrite
  case create body hnone hfound hfresh => exact .inr ⟨hfresh, rfl⟩
  case newDocument sensitive locale hfresh => exact .inr ⟨hfresh, rfl⟩
  case restoreVersion source hfound hfresh => exact .inr ⟨hfresh, rfl⟩
  case upload target previousId key hfound hfresh =>
    exact .inr ⟨hfresh, by simp [Database.issueId]⟩
  all_goals exact .inl rfl

/-- Only a document that exists is retired, with all its rows. -/
theorem retiredIds_write (hwrite : Write process choice db request after) :
    after.retiredIds = db.retiredIds ∨
      ∃ row ∈ db.documents, after.retiredIds = db.retiredIds ++ [row.id] ∧
        (∀ document ∈ after.documents, document.id ≠ row.id) ∧
        (∀ policy ∈ after.policies, policy.documentId ≠ row.id) ∧
        ∀ version ∈ after.versions, version.documentId ≠ row.id := by
  cases hwrite
  case delete document policy files hchecked hfound =>
    obtain ⟨row, hrow, hid⟩ := hfound
    refine .inr ⟨row, hrow, ?_, ?_, ?_, ?_⟩
    · rw [hid]
      rfl
    · intro document hmem
      simpa [hid] using List.of_mem_filter hmem
    · intro policy hmem
      simpa [hid] using List.of_mem_filter hmem
    · intro version hmem
      simpa [hid] using List.of_mem_filter hmem
  case upload => exact .inl (by simp [Database.issueId])
  all_goals exact .inl rfl

/-- Rows of documents keep their id; a new document has the id its upload was given. -/
theorem documents_write (hwrite : Write process choice db request after) :
    ∀ document ∈ after.documents, (∃ row ∈ db.documents, row.id = document.id) ∨
      ∃ target previousId key, request = .uploadTransaction target previousId key ∧
        target.isNew = true ∧ target.documentId = document.id := by
  intro document hmem
  cases hwrite
  case upload target previousId key hfound hfresh =>
    obtain ⟨row, hrow, hid, -⟩ | ⟨hnew, hid, -⟩ := uploadVersion_documents db target key choice hmem
    · exact .inl ⟨row, hrow, hid⟩
    · exact .inr ⟨target, previousId, key, rfl, hnew, hid.symm⟩
  case delete =>
    simp only [deleteDocument, List.mem_filter] at hmem
    exact .inl ⟨document, hmem.1, rfl⟩
  case destroy | restoreVersion | status | trash | untrash | metadata =>
    obtain ⟨row, hrow, rfl⟩ := List.mem_map.mp hmem
    refine .inl ⟨row, hrow, ?_⟩
    split <;> rfl
  all_goals exact .inl ⟨document, hmem, rfl⟩

/-- A reference of a version is an old one, the key of the upload or of the
watermark in progress, or the source of a restored version. -/
theorem refers_write (hwrite : Write process choice db request after)
    {version : DocumentVersion} (hversion : version ∈ after.versions) {key : ObjectKey}
    (hrefers : version.Refers key) :
    (∃ row ∈ db.versions, row.documentId = version.documentId ∧ row.Refers key) ∨
      (∃ target previousId, request = .uploadTransaction target previousId key ∧
        version.documentId = target.documentId) ∨
      (∃ documentId marked queue, request = .watermarkAttach documentId marked key queue ∧
        ∃ row ∈ db.versions, row.id = marked.id ∧ row.documentId = version.documentId) ∨
      ∃ source, request = .restoreVersionTransaction source ∧ source.storedFile = key ∧
        version.documentId = source.documentId ∧
        ∃ row ∈ db.documents, row.id = source.documentId := by
  cases hwrite
  case upload target previousId uploaded hfound hfresh =>
    obtain ⟨row, hversions, -, hdocument, hfile, hmarked⟩ :=
      uploadVersion_versions db target uploaded choice
    simp only [Database.issueId, hversions, List.mem_append, List.mem_singleton] at hversion
    rcases hversion with hold | rfl
    · exact .inl ⟨version, hold, rfl, hrefers⟩
    · simp only [DocumentVersion.Refers, hfile, hmarked, reduceCtorEq, or_false] at hrefers
      exact .inr (.inl ⟨target, previousId, hrefers ▸ rfl, hdocument⟩)
  case restoreVersion source hfound hfresh =>
    simp only [Database.issueId, Database.createVersion, Database.updateDocuments, List.mem_append,
      List.mem_singleton] at hversion
    rcases hversion with hold | rfl
    · exact .inl ⟨version, hold, rfl, hrefers⟩
    · simp only [DocumentVersion.Refers, restoredVersion, reduceCtorEq, or_false] at hrefers
      exact .inr (.inr (.inr ⟨source, rfl, hrefers, rfl, hfound⟩))
  case attach documentId marked attached queue =>
    obtain ⟨row, hrow, rfl⟩ := List.mem_map.mp hversion
    split at hrefers
    next hid =>
      simp only [hid, if_true]
      rcases hrefers with hfile | hattached
      · exact .inl ⟨row, hrow, rfl, .inl hfile⟩
      · cases hattached
        exact .inr (.inr (.inl ⟨documentId, marked, queue, rfl, row, hrow, by simpa using hid,
          rfl⟩))
    next hid =>
      simp only [hid]
      exact .inl ⟨row, hrow, rfl, hrefers⟩
  case metadata body document =>
    obtain ⟨row, hrow, rfl⟩ := List.mem_map.mp hversion
    refine .inl ⟨row, hrow, ?_, ?_⟩
    · split <;> rfl
    · split at hrefers <;> exact hrefers
  case delete =>
    simp only [deleteDocument, List.mem_filter] at hversion
    exact .inl ⟨version, hversion.1, rfl, hrefers⟩
  all_goals exact .inl ⟨version, hversion, rfl, hrefers⟩

/-- Versions keep their id, their document and their source file, until the
document is retired. -/
theorem rows_write (hwrite : Write process choice db request after)
    {row : DocumentVersion} (hrow : row ∈ db.versions) :
    row.documentId ∈ after.retiredIds ∨ ∃ version ∈ after.versions, version.id = row.id ∧
      version.documentId = row.documentId ∧ version.storedFile = row.storedFile := by
  cases hwrite
  case upload target previousId key hfound hfresh =>
    obtain ⟨version, hversions, -⟩ := uploadVersion_versions db target key choice
    refine .inr ⟨row, ?_, rfl, rfl, rfl⟩
    simp [Database.issueId, hversions, hrow]
  case restoreVersion =>
    exact .inr ⟨row, List.mem_append_left _ hrow, rfl, rfl, rfl⟩
  case attach | metadata =>
    refine .inr ⟨_, List.mem_map_of_mem hrow, ?_⟩
    split <;> exact ⟨rfl, rfl, rfl⟩
  case delete document policy files hchecked hfound =>
    by_cases hdocument : row.documentId = document.id
    · left
      simp [deleteDocument, hdocument]
    · right
      refine ⟨row, ?_, rfl, rfl, rfl⟩
      simp [deleteDocument, hrow, hdocument]
  all_goals exact .inr ⟨row, hrow, rfl, rfl, rfl⟩

/-- Source files of versions stay, until the document is retired. -/
theorem sources_write (hwrite : Write process choice db request after)
    {row : DocumentVersion} (hrow : row ∈ db.versions) :
    row.documentId ∈ after.retiredIds ∨ ∃ version ∈ after.versions,
      version.documentId = row.documentId ∧ version.storedFile = row.storedFile := by
  rcases rows_write hwrite hrow with hretired | ⟨version, hversion, -, hdocument, hfile⟩
  · exact .inl hretired
  · exact .inr ⟨version, hversion, hdocument, hfile⟩

/-- Objects stay in storage, except the one the statement removes. -/
theorem objects_write (hwrite : Write process choice db request after) {key : ObjectKey}
    (hkey : key ∈ db.objects) : key ∈ after.objects ∨ request.removes = some key := by
  have hremove : ∀ removed, key ∈ (db.removeObject removed).objects ∨ some removed = some key := by
    intro removed
    by_cases heq : removed = key
    · exact .inr (congrArg some heq)
    · left
      simp [Database.removeObject, hkey, Ne.symm heq]
  cases hwrite
  case put | putMarked => exact .inl (List.mem_append_left _ hkey)
  case upload target previousId uploaded hfound hfresh =>
    left
    simpa [Database.issueId] using hkey
  case removeFile | cleanup | dropUpload | dropMarked => exact hremove _
  all_goals exact .inl hkey

/-- Stored files are purged by the worker's commit only, and never restored. New
ones belong to an upload or a watermark in progress. -/
theorem storedFiles_write (hwrite : Write process choice db request after) {file : StoredFile}
    (hfile : file ∈ after.storedFiles) :
    (∃ row ∈ db.storedFiles, row.objectKey = file.objectKey ∧
        (row.purgedAt.isSome → file.purgedAt.isSome) ∧
        (file.purgedAt.isSome → row.purgedAt.isSome ∨ ∃ item keep queue,
          request = .removeObjects item keep [] queue ∧
          file.objectKey ∈ item.files.map StoredFile.objectKey)) ∨
      file.purgedAt = none ∧ request.stores = some file.objectKey := by
  cases hwrite
  case upload target previousId key hfound hfresh =>
    simp only [Database.issueId, uploadVersion_storedFiles, List.mem_append,
      List.mem_singleton] at hfile
    rcases hfile with hold | rfl
    · exact .inl ⟨file, hold, rfl, id, .inl⟩
    · exact .inr ⟨rfl, rfl⟩
  case createMarked documentId version key queue =>
    simp only [Database.createStoredFile, List.mem_append, List.mem_singleton] at hfile
    rcases hfile with hold | rfl
    · exact .inl ⟨file, hold, rfl, id, .inl⟩
    · exact .inr ⟨rfl, rfl⟩
  case destroy item keep queue =>
    obtain ⟨row, hrow, rfl⟩ := List.mem_map.mp hfile
    refine .inl ⟨row, hrow, ?_⟩
    split
    · next hpurged =>
      exact ⟨rfl, fun _ => rfl, fun _ => .inr ⟨item, keep, queue, rfl, hpurged.1⟩⟩
    · exact ⟨rfl, id, .inl⟩
  case delete => exact .inl ⟨file, List.mem_of_mem_filter hfile, rfl, id, .inl⟩
  all_goals exact .inl ⟨file, hfile, rfl, id, .inl⟩

theorem Request.stores_eq_some {key : ObjectKey} (hstores : request.stores = some key) :
    (∃ target previousId, request = .uploadTransaction target previousId key) ∨
      ∃ documentId version queue, request = .watermarkCreate documentId version key queue := by
  unfold Request.stores at hstores
  split at hstores <;> cases hstores
  · exact .inl ⟨_, _, rfl⟩
  · exact .inr ⟨_, _, _, rfl⟩

end Writes

end IsmsPortal
