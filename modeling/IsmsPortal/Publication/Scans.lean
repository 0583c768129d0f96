import IsmsPortal.Destruction.Integrity
import IsmsPortal.Foundation.Refinement

/-! # Antivirus scans

The requests of the portal with the scans of stored files. An upload stores the
result of its scan, a restored version needs a clean one, and a publication first
checks every version. Between the check and its transaction the publication
marks the files, one statement after the other. Without the scans these are the
requests of the portal, so everything proved about the tables holds here.
-/

namespace IsmsPortal

open Foundation

inductive ScanStatus
  | pending
  | clean
  | infected
  | error
deriving DecidableEq

/-- A row of `AntivirusScan`. -/
structure AntivirusScan where
  storedFile : ObjectKey
  status : ScanStatus
  scannedAt : Int
deriving DecidableEq

/-- The tables, with the scans and the documents that are links. -/
structure ScannedLibrary where
  db : Database
  scans : List AntivirusScan
  externalUrls : List String
deriving DecidableEq

/-- Some scan of the file is clean. -/
def ScannedLibrary.Clean (library : ScannedLibrary) (key : ObjectKey) : Prop :=
  ∃ scan ∈ library.scans, scan.storedFile = key ∧ scan.status = .clean

instance (library : ScannedLibrary) (key : ObjectKey) : Decidable (library.Clean key) :=
  inferInstanceAs (Decidable (∃ scan ∈ library.scans, _))

def ScannedLibrary.latestScan (library : ScannedLibrary) (key : ObjectKey) : Option AntivirusScan :=
  Query.findFirst (fun scan => scan.storedFile = key)
    (fun left right => right.scannedAt ≤ left.scannedAt) library.scans

/-- Where a request is. A publication keeps the files it has checked. -/
inductive LibraryRequest
  | request (place : Request)
  | publish (admin : Bool) (documentId : String)
  | publishing (place : Request) (checked : List ObjectKey)

/-- The choices of a statement, with the result of a scan. -/
structure LibraryChoice where
  choice : Choice
  scan : ScanStatus

/-- The place in the program without scans. -/
def LibraryRequest.place : LibraryRequest → Request
  | .request place => place
  | .publish _ documentId => .publish documentId
  | .publishing place _ => place

/-- An upload fails its scan. -/
def LibraryChoice.base (choice : LibraryChoice) : Request → Choice
  | .uploadTransaction _ _ _ => { choice.choice with fails := choice.scan ≠ .clean }
  | _ => choice.choice

/-- The scans after a statement that left `remaining`. -/
def scansAfter (library : ScannedLibrary) (choice : LibraryChoice) (remaining : Option Request) :
    Request → List AntivirusScan
  | .uploadTransaction _ _ key =>
      if remaining.isNone then library.scans ++ [⟨key, choice.scan, library.db.clock⟩]
      else library.scans
  | .watermarkCreate _ _ key _ =>
      if choice.choice.fails then library.scans
      else library.scans ++ [⟨key, .clean, library.db.clock⟩]
  | .removeTransaction _ _ files =>
      if remaining.isSome then
        library.scans.filter fun scan => scan.storedFile ∉ files.map StoredFile.objectKey
      else library.scans
  | _ => library.scans

/-- The source of a restored version has a clean scan last. -/
def ScannedLibrary.admits (library : ScannedLibrary) : Request → Bool
  | .restoreVersionTransaction source =>
      (library.latestScan source.storedFile).any fun scan => scan.status = .clean
  | _ => true

/-- A statement of the portal, with its scans. -/
def scannedAdvance (name : Nat) (choice : LibraryChoice) (library : ScannedLibrary) (place : Request) :
    Option (Option Request × ScannedLibrary) :=
  (advance name (choice.base place) library.db place).map fun result =>
    (result.1.filter library.admits,
      { library with db := result.2, scans := scansAfter library choice result.1 place })

/-- The files of a document as the check of a publication reads them. -/
def ScannedLibrary.filesToCheck (library : ScannedLibrary) (documentId : String) : List ObjectKey :=
  (library.db.versionsOf documentId).map DocumentVersion.storedFile

/-- "Every document version must pass antivirus scanning". -/
def ScannedLibrary.publishable (library : ScannedLibrary) (admin : Bool) (documentId : String) : Bool :=
  (library.db.findActiveDocument documentId).isSome ∧
    (library.filesToCheck documentId ≠ [] ∨ (admin = true ∧ documentId ∈ library.externalUrls)) ∧
    ∀ key ∈ library.filesToCheck documentId, library.Clean key

def libraryAdvance (name : Nat) (choice : LibraryChoice) (library : ScannedLibrary) :
    LibraryRequest → Option (Option LibraryRequest × ScannedLibrary)
  | .request place => (scannedAdvance name choice library place).map fun result =>
      (result.1.map .request, result.2)
  | .publish admin documentId =>
      if library.publishable admin documentId then
        some (some (.publishing (.prepareForPublication documentId)
          (library.filesToCheck documentId)), library)
      else some (none, library)
  | .publishing place checked => (scannedAdvance name choice library place).map fun result =>
      (result.1.map fun next => .publishing next checked, result.2)

/-- Publications start with their check. -/
def LibraryRequest.initial : LibraryRequest → Bool
  | .request (.publish _) => false
  | .request place => place.initial
  | .publish _ _ => true
  | .publishing _ _ => false

def libraryProgram : Concurrent ScannedLibrary LibraryRequest LibraryChoice where
  drift time library :=
    (portal.drift time library.db).map fun db => { library with db := db }
  start := LibraryRequest.initial
  advance := libraryAdvance

abbrev LibraryConfig : Type := Concurrent.Config ScannedLibrary LibraryRequest

abbrev LibraryMove : Type := Concurrent.Move LibraryRequest LibraryChoice

/-- Runs from an empty library. -/
abbrev librarySystem : System LibraryConfig LibraryMove :=
  libraryProgram.system fun library =>
    library.db = Database.empty library.db.clock ∧ library.scans = []

/-! ## The portal below -/

theorem scannedAdvance_advance {name : Nat} {choice : LibraryChoice} {library after : ScannedLibrary}
    {place : Request} {remaining : Option Request}
    (hadvance : scannedAdvance name choice library place = some (remaining, after)) :
    ∃ left, advance name (choice.base place) library.db place = some (left, after.db) ∧
      remaining = left.filter library.admits ∧
      after.scans = scansAfter library choice left place := by
  simp only [scannedAdvance, Option.map_eq_some_iff, Prod.mk.injEq] at hadvance
  obtain ⟨⟨left, db⟩, hbase, hremaining, rfl⟩ := hadvance
  exact ⟨left, hbase, hremaining.symm, rfl⟩

/-- What a statement does: a publication starts with its check, everything else is
a statement of the portal. -/
theorem libraryAdvance_cases {name : Nat} {choice : LibraryChoice} {library after : ScannedLibrary}
    {process : LibraryRequest} {remaining : Option LibraryRequest}
    (hadvance : libraryAdvance name choice library process = some (remaining, after)) :
    (∃ admin documentId, process = .publish admin documentId ∧ after = library ∧
      (remaining = none ∨ library.publishable admin documentId = true ∧
        remaining = some (.publishing (.prepareForPublication documentId)
          (library.filesToCheck documentId)))) ∨
    ∃ left, advance name (choice.base process.place) library.db process.place =
        some (left, after.db) ∧
      after.scans = scansAfter library choice left process.place ∧
      ((∃ place, process = .request place ∧ remaining = (left.filter library.admits).map .request) ∨
        ∃ place checked, process = .publishing place checked ∧
          remaining = (left.filter library.admits).map fun next => .publishing next checked) := by
  cases process with
  | request place =>
      simp only [libraryAdvance, Option.map_eq_some_iff, Prod.mk.injEq] at hadvance
      obtain ⟨⟨next, moved⟩, hscanned, hremaining, rfl⟩ := hadvance
      obtain ⟨left, hbase, hnext, hscans⟩ := scannedAdvance_advance hscanned
      dsimp only at hremaining
      rw [hnext] at hremaining
      exact .inr ⟨left, hbase, hscans, .inl ⟨place, rfl, hremaining.symm⟩⟩
  | publish admin documentId =>
      refine .inl ⟨admin, documentId, rfl, ?_⟩
      simp only [libraryAdvance] at hadvance
      split at hadvance
      next hpublishable =>
        cases hadvance
        exact ⟨rfl, .inr ⟨hpublishable, rfl⟩⟩
      next =>
        cases hadvance
        exact ⟨rfl, .inl rfl⟩
  | publishing place checked =>
      simp only [libraryAdvance, Option.map_eq_some_iff, Prod.mk.injEq] at hadvance
      obtain ⟨⟨next, moved⟩, hscanned, hremaining, rfl⟩ := hadvance
      obtain ⟨left, hbase, hnext, hscans⟩ := scannedAdvance_advance hscanned
      dsimp only at hremaining
      rw [hnext] at hremaining
      exact .inr ⟨left, hbase, hscans, .inr ⟨place, checked, rfl, hremaining.symm⟩⟩

/-- The request goes on as the portal does, or ends. -/
theorem map_place_filter {wrap : Request → LibraryRequest} (hwrap : ∀ place, (wrap place).place = place)
    (left : Option Request) (keep : Request → Bool) :
    ((left.filter keep).map wrap).map LibraryRequest.place = left ∨
      (left.filter keep).map wrap = none := by
  cases left with
  | none => exact .inl rfl
  | some place =>
      by_cases hkeep : keep place = true
      · exact .inl (by simp [Option.filter, hkeep, hwrap])
      · exact .inr (by simp [Option.filter, hkeep])

/-- Without the scans, a statement is one of the portal. -/
theorem library_refines :
    libraryProgram.Refines portal ScannedLibrary.db LibraryRequest.place where
  drift := by
    intro time library after hdrift
    simp only [libraryProgram, Option.map_eq_some_iff] at hdrift
    obtain ⟨db, hportal, rfl⟩ := hdrift
    exact hportal
  start := by
    intro process hstart
    cases process with
    | request place => cases place <;> first | exact hstart | cases hstart
    | publish admin documentId => rfl
    | publishing place checked => cases hstart
  advance := by
    intro name choice library process remaining after hadvance
    rcases libraryAdvance_cases hadvance with ⟨admin, documentId, rfl, rfl, hremaining⟩ |
      ⟨left, hbase, -, ⟨place, rfl, rfl⟩ | ⟨place, checked, rfl, rfl⟩⟩
    · rcases hremaining with rfl | ⟨hpublishable, rfl⟩
      · exact .inr ⟨rfl, .inr rfl⟩
      · simp only [ScannedLibrary.publishable, decide_eq_true_eq] at hpublishable
        refine .inl ⟨choice.choice, some (.prepareForPublication documentId), ?_, .inl rfl⟩
        simp [portal, advance, LibraryRequest.place, hpublishable.1]
    · exact .inl ⟨_, left, hbase, map_place_filter (fun _ => rfl) left library.admits⟩
    · exact .inl ⟨_, left, hbase, map_place_filter (fun _ => rfl) left library.admits⟩

/-- The tables and the requests of the portal, in every run of the library. -/
theorem library_integrity {allowed : LibraryConfig → LibraryMove → Prop} {config : LibraryConfig}
    (hreach : librarySystem.ReachableWhile allowed config) :
    integrity.Holds (config.project ScannedLibrary.db LibraryRequest.place) :=
  integrity_holds (library_refines.reachable (fun _ hinit => hinit.1) hreach)

end IsmsPortal
