import IsmsPortal.Publication.Scans

/-! # Published documents are clean

A publication checks the scans of all versions, and publishes later whatever the
document has become. If no version without a clean scan has been added in between,
then every version of every published document has a clean scan.
-/

namespace IsmsPortal

open Foundation

/-- Every version of a published document has a clean scan. -/
def ScannedLibrary.Safe (library : ScannedLibrary) : Prop :=
  ∀ document ∈ library.db.documents, document.status = .published →
    ∀ version ∈ library.db.versions, version.documentId = document.id →
      library.Clean version.storedFile

/-- The document a request is about to publish, with the files it has checked. -/
def LibraryRequest.publication : LibraryRequest → Option (String × List ObjectKey)
  | .publishing (.publishTransaction documentId) checked => some (documentId, checked)
  | _ => none

/-- A publication takes effect while every version is clean that it has not checked. -/
def CleanSinceCheck (config : LibraryConfig) (process : LibraryRequest) : Prop :=
  ∀ publication ∈ process.publication, ∀ version ∈ config.store.db.versionsOf publication.1,
    version.storedFile ∈ publication.2 ∨ config.store.Clean version.storedFile

instance (config : LibraryConfig) (process : LibraryRequest) :
    Decidable (CleanSinceCheck config process) :=
  inferInstanceAs (Decidable (∀ publication ∈ process.publication, ∀ version ∈
    config.store.db.versionsOf publication.1, _))

/-! ## What the portal does to published documents -/

section Portal

variable {name : Nat} {choice : Choice} {db after : Database} {place : Request}
variable {remaining : Option Request}

/-- After an upload its document is not published. -/
theorem uploadVersion_status (target : UploadTarget) (key : ObjectKey) {document : Document}
    (hmem : document ∈ (uploadVersion db target key choice).documents)
    (hreserved : target.isNew = true → ∀ row ∈ db.documents, row.id ≠ target.documentId)
    (hid : document.id = target.documentId) : document.status ≠ .published := by
  have hstatus : (if choice.fails then DocumentStatus.quarantined else .draft) ≠ .published := by
    split <;> decide
  simp only [uploadVersion] at hmem
  split at hmem
  next hnew =>
    simp only [Database.createVersion, Database.createStoredFile, List.mem_append,
      List.mem_singleton] at hmem
    rcases hmem with hold | rfl
    · exact absurd hid (hreserved hnew document hold)
    · exact hstatus
  next =>
    simp only [Database.createVersion, Database.createStoredFile, Database.updateDocuments,
      List.mem_map] at hmem
    obtain ⟨row, -, rfl⟩ := hmem
    split at hid
    next hrow =>
      rw [if_pos hrow]
      exact hstatus
    next hrow => exact absurd hid (by simpa using hrow)

theorem published_uploadVersion (target : UploadTarget) (key : ObjectKey) {document : Document}
    (hmem : document ∈ (uploadVersion db target key choice).documents)
    (hpublished : document.status = .published) :
    ∃ row ∈ db.documents, row.id = document.id ∧ row.status = .published := by
  simp only [uploadVersion] at hmem
  split at hmem
  · simp only [Database.createVersion, Database.createStoredFile, List.mem_append,
      List.mem_singleton] at hmem
    rcases hmem with hold | rfl
    · exact ⟨document, hold, rfl, hpublished⟩
    · dsimp only at hpublished
      split at hpublished <;> cases hpublished
  · simp only [Database.createVersion, Database.createStoredFile, Database.updateDocuments,
      List.mem_map] at hmem
    obtain ⟨row, hrow, rfl⟩ := hmem
    split at hpublished
    · dsimp only at hpublished
      split at hpublished <;> cases hpublished
    next hnot =>
      rw [if_neg hnot]
      exact ⟨row, hrow, rfl, hpublished⟩

/-- An update of rows of documents that does not publish any. -/
theorem published_updateDocuments {selects : Document → Bool} {data : Document → Document}
    (hdata : ∀ document, (data document).status ≠ .published) {document : Document}
    (hmem : document ∈ (db.updateDocuments selects data).documents)
    (hpublished : document.status = .published) : document ∈ db.documents := by
  obtain ⟨row, hrow, rfl⟩ := List.mem_map.mp hmem
  split at hpublished
  · exact absurd hpublished (hdata row)
  next hnot => rwa [if_neg hnot]

/-- Only the transaction of a publication publishes a document. -/
theorem published_advance (hadvance : advance name choice db place = some (remaining, after))
    {document : Document} (hmem : document ∈ after.documents)
    (hpublished : document.status = .published) :
    (∃ row ∈ db.documents, row.id = document.id ∧ row.status = .published) ∨
      place = .publishTransaction document.id := by
  have hsame : document ∈ db.documents →
      (∃ row ∈ db.documents, row.id = document.id ∧ row.status = .published) ∨
        place = .publishTransaction document.id :=
    fun hold => .inl ⟨document, hold, rfl, hpublished⟩
  cases advance_step hadvance
  case publishTransaction documentId =>
    obtain ⟨row, hrow, rfl⟩ := List.mem_map.mp hmem
    split
    next hselected =>
      simp only [decide_eq_true_eq] at hselected
      exact .inr (by rw [hselected.1])
    next hnot =>
      rw [if_neg hnot] at hpublished
      exact .inl ⟨row, hrow, rfl, hpublished⟩
  case archive | restore | trashUpdate | untrash | destroy | restoreSource =>
    exact hsame (published_updateDocuments (by simp) hmem hpublished)
  case delete deleted policy files hchecked hfound => exact hsame (List.mem_of_mem_filter hmem)
  case upload target previousId key hfound hfresh =>
    exact .inl (published_uploadVersion target key hmem hpublished)
  -- A change of the metadata keeps the status.
  case metadata body read =>
    obtain ⟨row, hrow, rfl⟩ := List.mem_map.mp hmem
    refine .inl ⟨row, hrow, ?_⟩
    split at hpublished
    next hrow => rw [if_pos hrow]; exact ⟨rfl, hpublished⟩
    next hrow => rw [if_neg hrow]; exact ⟨rfl, hpublished⟩
  all_goals exact hsame hmem

/-- A version that a statement adds belongs to a document it leaves unpublished. -/
theorem version_write (hvalid : place.Valid name db) (hwrite : Write name choice db place after)
    {version : DocumentVersion} (hversion : version ∈ after.versions) :
    (∃ row ∈ db.versions, row.documentId = version.documentId ∧
        row.storedFile = version.storedFile) ∨
      ∀ document ∈ after.documents, document.id = version.documentId →
        document.status ≠ .published := by
  cases hwrite
  case upload target previousId key hfound hfresh =>
    obtain ⟨row, hversions, -, hdocument, -, -⟩ := uploadVersion_versions db target key choice
    simp only [Database.issueId, hversions, List.mem_append, List.mem_singleton] at hversion
    rcases hversion with hold | rfl
    · exact .inl ⟨version, hold, rfl, rfl⟩
    · right
      intro document hmem hid
      exact uploadVersion_status target key hmem (fun hnew => (hvalid.1 hnew).2.2) (hid.trans hdocument)
  -- A restored version makes its document a draft.
  case restoreVersion source hfound hfresh =>
    simp only [Database.issueId, Database.createVersion, Database.updateDocuments, List.mem_append,
      List.mem_singleton] at hversion
    rcases hversion with hold | rfl
    · exact .inl ⟨version, hold, rfl, rfl⟩
    · right
      intro document hmem hid
      obtain ⟨row, -, rfl⟩ := List.mem_map.mp hmem
      split at hid
      next hrow => simp [hrow]
      next hrow => exact absurd hid (by simpa [restoredVersion] using hrow)
  case attach documentId marked key queue =>
    obtain ⟨row, hrow, rfl⟩ := List.mem_map.mp hversion
    refine .inl ⟨row, hrow, ?_⟩
    split <;> exact ⟨rfl, rfl⟩
  case metadata body document =>
    obtain ⟨row, hrow, rfl⟩ := List.mem_map.mp hversion
    refine .inl ⟨row, hrow, ?_⟩
    split <;> exact ⟨rfl, rfl⟩
  case delete =>
    simp only [deleteDocument, List.mem_filter] at hversion
    exact .inl ⟨version, hversion.1, rfl, rfl⟩
  all_goals exact .inl ⟨version, hversion, rfl, rfl⟩

/-- The places of a publication. -/
def Request.publishes : Request → Bool
  | .publish _ | .prepareForPublication _ | .watermarkRead _ _ | .watermarkPut _ _ _
  | .watermarkCreate _ _ _ _ | .watermarkAttach _ _ _ _ | .watermarkFailed _
  | .publishTransaction _ => true
  | _ => false

/-- Nothing else turns into a publication. -/
theorem publishes_advance {following : Request}
    (hadvance : advance name choice db place = some (some following, after))
    (hfollowing : following.publishes = true) : place.publishes = true := by
  have hstep := advance_step hadvance
  generalize hremaining : some following = remaining at hstep
  cases hstep <;> cases hremaining
  case publish | findUnmarked | notSensitive | allMarked | readMarked | putMarked | failMarked |
      createMarked | attach | failAttach => rfl
  all_goals cases hfollowing

end Portal

/-! ## The outline -/

/-- Publications are marked as such, and what they have checked is clean or gone. -/
def libraryAssertion (library : ScannedLibrary) : LibraryRequest → Prop
  | .request place => place.publishes = false
  | .publish _ _ => True
  | .publishing _ checked =>
      ∀ key ∈ checked, library.Clean key ∨ key.document ∈ library.db.retiredIds

def libraryOutline : Concurrent.Outline ScannedLibrary LibraryRequest where
  invariant := ScannedLibrary.Safe
  assertion _ := libraryAssertion

section Outline

variable {name : Nat} {choice : LibraryChoice} {library after : ScannedLibrary} {place : Request}
variable {left : Option Request}

/-- A clean scan stays, unless the document of the file is deleted. -/
theorem ScannedLibrary.Clean.advance (hvalid : place.Valid name library.db)
    (hbase : IsmsPortal.advance name (choice.base place) library.db place = some (left, after.db))
    (hscans : after.scans = scansAfter library choice left place) {key : ObjectKey}
    (hclean : library.Clean key) : after.Clean key ∨ key.document ∈ after.db.retiredIds := by
  obtain ⟨scan, hscan, hkey, hstatus⟩ := hclean
  have hmore : library.scans ⊆ after.scans → after.Clean key :=
    fun hsubset => ⟨scan, hsubset hscan, hkey, hstatus⟩
  cases place
  case uploadTransaction target previousId uploaded =>
    refine .inl (hmore ?_)
    rw [hscans]
    simp only [scansAfter]
    split
    · exact List.subset_append_left _ _
    · exact List.Subset.refl _
  case watermarkCreate documentId version marked queue =>
    refine .inl (hmore ?_)
    rw [hscans]
    simp only [scansAfter]
    split
    · exact List.Subset.refl _
    · exact List.subset_append_left _ _
  case removeTransaction document policy files =>
    simp only [scansAfter] at hscans
    split at hscans
    next hdeleted =>
      by_cases hfile : key ∈ files.map StoredFile.objectKey
      · right
        obtain ⟨file, hmem, rfl⟩ := List.mem_map.mp hfile
        rw [hvalid file hmem]
        simp only [IsmsPortal.advance] at hbase
        split at hbase
        all_goals simp only [Option.some.injEq, Prod.mk.injEq] at hbase
        · rw [← hbase.1] at hdeleted
          cases hdeleted
        · rw [← hbase.2]
          simp [deleteDocument]
      · left
        refine ⟨scan, ?_, hkey, hstatus⟩
        rw [hscans, List.mem_filter]
        exact ⟨hscan, by simpa [hkey] using hfile⟩
    next => exact .inl (hmore (by rw [hscans]; exact List.Subset.refl _))
  all_goals exact .inl (hmore (by rw [hscans]; exact List.Subset.refl _))

/-- One statement of the portal with its scans keeps published documents clean. -/
theorem safe_advance (hsafe : library.Safe) (hwell : library.db.WellFormed)
    (hvalid : place.Valid name library.db)
    (hpublishes : ∀ documentId, place = .publishTransaction documentId →
      ∀ version ∈ library.db.versionsOf documentId, library.Clean version.storedFile)
    (hbase : advance name (choice.base place) library.db place = some (left, after.db))
    (hscans : after.scans = scansAfter library choice left place) : after.Safe := by
  intro document hdocument hpublished version hversion hid
  have hwrite := advance_write hbase
  have hafter := write_wellFormed hwell hvalid hwrite
  obtain ⟨row, hrow, hrowDocument, hfile⟩ : ∃ row ∈ library.db.versions,
      row.documentId = version.documentId ∧ row.storedFile = version.storedFile := by
    rcases version_write hvalid hwrite hversion with hold | hnew
    · exact hold
    · exact absurd hpublished (hnew document hdocument hid.symm)
  have hclean : library.Clean row.storedFile := by
    rcases published_advance hbase hdocument hpublished with ⟨before, hbefore, hbeforeId, hstatus⟩ |
      rfl
    · exact hsafe before hbefore hstatus row hrow ((hrowDocument.trans hid).trans hbeforeId.symm)
    · refine hpublishes document.id rfl row ?_
      simp [Database.versionsOf, hrow, hrowDocument.trans hid]
  rw [hfile] at hclean
  rcases hclean.advance hvalid hbase hscans with hstill | hretired
  · exact hstill
  · rw [hafter.versionFiles version hversion _ (.inl rfl)] at hretired
    exact absurd hretired (hafter.versionLive version hversion)

/-- Assertions of publications survive the statements of the portal. -/
theorem checked_advance (hvalid : place.Valid name library.db)
    (hbase : advance name (choice.base place) library.db place = some (left, after.db))
    (hscans : after.scans = scansAfter library choice left place) {process : LibraryRequest}
    (hknown : libraryAssertion library process) : libraryAssertion after process := by
  cases process with
  | request _ => exact hknown
  | publish _ _ => trivial
  | publishing _ checked =>
      intro key hkey
      rcases hknown key hkey with hclean | hretired
      · exact hclean.advance hvalid hbase hscans
      · exact .inr (retiredIds_subset (advance_write hbase) hretired)

theorem libraryOutline_valid : libraryOutline.Valid libraryProgram
    (fun library => library.db = Database.empty library.db.clock ∧ library.scans = [])
    (fun config move => integrity.Holds (config.project ScannedLibrary.db LibraryRequest.place) ∧
      Concurrent.Guarded CleanSinceCheck config move) where
  init := by
    rintro library ⟨hempty, -⟩ document hdocument
    rw [hempty] at hdocument
    cases hdocument
  drift := by
    intro time library after hdrift hsafe
    simp only [libraryProgram, portal, Option.map_eq_some_iff] at hdrift
    obtain ⟨db, hdb, rfl⟩ := hdrift
    split at hdb <;> cases hdb
    refine ⟨hsafe, fun name process hknown => ?_⟩
    cases process <;> exact hknown
  start := by
    intro name library process hstart _
    cases process with
    | request place => cases place <;> first | rfl | cases hstart
    | publish _ _ => trivial
    | publishing _ _ => cases hstart
  own := by
    intro config name choice process remaining after hholds hprocess hallowed hadvance
    have hknown := hholds.2 name process hprocess
    have hguard := hallowed.2 process hprocess
    have hvalid := hallowed.1.2 name process.place (by simp [Concurrent.Config.project, hprocess])
    rcases libraryAdvance_cases hadvance with ⟨admin, documentId, rfl, rfl, hremaining⟩ |
      ⟨left, hbase, hscans, ⟨place, rfl, rfl⟩ | ⟨place, checked, rfl, rfl⟩⟩
    · refine ⟨hholds.1, fun process' hprocess' => ?_⟩
      rcases hremaining with rfl | ⟨hpublishable, rfl⟩
      · cases hprocess'
      · cases hprocess'
        simp only [ScannedLibrary.publishable, decide_eq_true_eq] at hpublishable
        exact fun key hkey => .inl (hpublishable.2.2 key hkey)
    · refine ⟨safe_advance hholds.1 hallowed.1.1 hvalid ?_ hbase hscans, fun process' hprocess' => ?_⟩
      · rintro documentId rfl
        cases hknown
      · obtain ⟨next, hnext, rfl⟩ := Option.map_eq_some_iff.mp hprocess'
        rw [Option.eq_some_of_filter_eq_some hnext] at hbase
        change next.publishes = false
        by_contra hpublishes
        have hplace : place.publishes = true :=
          publishes_advance hbase (by simpa using hpublishes)
        rw [show place.publishes = false from hknown] at hplace
        cases hplace
    · refine ⟨safe_advance hholds.1 hallowed.1.1 hvalid ?_ hbase hscans, fun process' hprocess' => ?_⟩
      · rintro documentId rfl version hversion
        rcases hguard (documentId, checked) rfl version hversion with hchecked | hclean
        · have hmem := List.mem_of_mem_filter hversion
          rcases hknown _ hchecked with hclean | hretired
          · exact hclean
          · rw [hallowed.1.1.versionFiles version hmem _ (.inl rfl)] at hretired
            exact absurd hretired (hallowed.1.1.versionLive version hmem)
        · exact hclean
      · obtain ⟨next, -, rfl⟩ := Option.map_eq_some_iff.mp hprocess'
        have hchecked : libraryAssertion config.store (.publishing next checked) := hknown
        exact checked_advance hvalid hbase hscans hchecked
  others := by
    intro config name choice process remaining after hholds hprocess hallowed hadvance other process'
      hne hother
    have hvalid := hallowed.1.2 name process.place (by simp [Concurrent.Config.project, hprocess])
    rcases libraryAdvance_cases hadvance with ⟨admin, documentId, rfl, rfl, -⟩ |
      ⟨left, hbase, hscans, -⟩
    · exact hholds.2 other process' hother
    · exact checked_advance hvalid hbase hscans (hholds.2 other process' hother)

end Outline

/-- **Publication safety.** In every run whose publications take effect while all
versions added since their check are clean, every version of every published
document has a clean scan. -/
theorem published_documents_clean {config : LibraryConfig}
    (hreach : librarySystem.ReachableWhile (Concurrent.Guarded CleanSinceCheck) config) :
    ∀ document ∈ config.store.db.documents, document.status = .published →
      ∀ version ∈ config.store.db.versions, version.documentId = document.id →
        config.store.Clean version.storedFile :=
  (libraryOutline_valid.holds (hreach.assuming fun _ => library_integrity)).1

/-! ## Sample -/

/-- A choice with a name, and the result of a scan. -/
def scanned (name : String) (scan : ScanStatus) : LibraryChoice := ⟨⟨name, [], false⟩, scan⟩

/-- An upload of a report. -/
def uploadScanned (process : Nat) (documentId : Option String) (version : String)
    (scan : ScanStatus) : List LibraryMove :=
  [.start process (.request (.upload documentId false "fr")),
    .advance process (scanned "report" scan), .advance process (scanned "report" scan),
    .advance process (scanned version scan), .advance process (scanned version scan)]

/-- A publication up to its transaction. -/
def checkReport (process : Nat) : List LibraryMove :=
  [.start process (.publish false "report"), .advance process (scanned "" .clean),
    .advance process (scanned "" .clean)]

/-- The report, published with the given versions and scans. -/
def publishedReport (versions : List (String × Nat × ScanStatus)) : ScannedLibrary where
  db :=
    { clock := 0, policies := [], documents := [⟨"report", .published, false, none, none, 0⟩]
      versions := versions.zipIdx.map fun (entry, index) =>
        ⟨entry.1, "report", "fr", index + 1, ⟨"report", entry.1⟩, none⟩
      storedFiles := versions.map fun entry => ⟨⟨"report", entry.1⟩, none⟩
      objects := versions.map fun entry => ⟨"report", entry.1⟩
      issuedKeys := versions.map fun entry => (⟨"report", entry.1⟩, entry.2.1)
      issuedIds := ("report", 0) :: versions.map fun entry => (entry.1, entry.2.1)
      retiredIds := [] }
  scans := versions.map fun entry => ⟨⟨"report", entry.1⟩, entry.2.2, 0⟩
  externalUrls := []

theorem reachable_emptyLibrary {allowed : LibraryConfig → LibraryMove → Prop} :
    librarySystem.ReachableWhile allowed (Concurrent.idle ⟨Database.empty 0, [], []⟩) :=
  .init ⟨⟨rfl, rfl⟩, fun _ => rfl⟩

/-- A clean report is uploaded and published. -/
theorem published_documents_clean_report :
    librarySystem.ReachableWhile (Concurrent.Guarded CleanSinceCheck)
      (Concurrent.idle (publishedReport [("first", 0, .clean)])) ∧
    (publishedReport [("first", 0, .clean)]).Clean ⟨"report", "first"⟩ := by
  have hrun : (Concurrent.executeNamed libraryProgram [0, 1] (Concurrent.isGuarded CleanSinceCheck)
      (Concurrent.idle ⟨Database.empty 0, [], []⟩)
      (uploadScanned 0 none "first" .clean ++ checkReport 1 ++
        [.advance 1 (scanned "" .clean)])).bind (Concurrent.settled [0, 1]) =
        some (publishedReport [("first", 0, .clean)]) := by
    decide
  have hreach := Concurrent.reachable_settled
    (fun _ _ _ hguarded => Concurrent.guarded_of_isGuarded hguarded) _ reachable_emptyLibrary hrun
  refine ⟨hreach, ?_⟩
  exact published_documents_clean hreach _ (List.mem_singleton.mpr rfl) rfl
    ⟨"first", "report", "fr", 1, ⟨"report", "first"⟩, none⟩ (List.mem_singleton.mpr rfl) rfl

/-- An infected version arrives between the check and the publication. -/
theorem infected_version_published :
    librarySystem.Reachable
      (Concurrent.idle (publishedReport [("first", 0, .clean), ("second", 2, .infected)])) ∧
    ∃ document ∈ (publishedReport [("first", 0, .clean), ("second", 2, .infected)]).db.documents,
      document.status = .published ∧ document.deletedAt = none ∧
      ∃ version ∈ (publishedReport [("first", 0, .clean), ("second", 2, .infected)]).db.versions,
        version.documentId = document.id ∧
        ¬(publishedReport [("first", 0, .clean), ("second", 2, .infected)]).Clean
          version.storedFile := by
  have hrun : (Concurrent.executeNamed libraryProgram [0, 1, 2] (fun _ _ => true)
      (Concurrent.idle ⟨Database.empty 0, [], []⟩)
      (uploadScanned 0 none "first" .clean ++ checkReport 1 ++
        uploadScanned 2 (some "report") "second" .infected ++
        [.advance 1 (scanned "" .clean)])).bind (Concurrent.settled [0, 1, 2]) =
        some (publishedReport [("first", 0, .clean), ("second", 2, .infected)]) := by
    decide
  refine ⟨?_, by decide⟩
  exact Concurrent.reachable_settled (fun _ _ _ _ => trivial) _ reachable_emptyLibrary hrun

end IsmsPortal
