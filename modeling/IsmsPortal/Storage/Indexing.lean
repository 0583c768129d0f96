import IsmsPortal.Foundation.Interleaving
import IsmsPortal.Foundation.IsoDate
import IsmsPortal.Foundation.JsString
import IsmsPortal.Foundation.Query
import IsmsPortal.Foundation.Table

/-! # Indexing the contents of versions

Workers queue the versions without a content row, and claim the queued rows one by one to
extract their text. The attempts are counted when a row is claimed, and the failure path reads
them: after three, the row has failed. A statement at the start of each pass queues again the
rows that have been claimed for more than half an hour, of workers taken for dead.
-/

namespace IsmsPortal

open Foundation

inductive ContentStatus
  | pending | processing | done | skipped | failed
deriving DecidableEq

/-- No pass changes the row again. -/
def ContentStatus.isFinal : ContentStatus → Bool
  | .pending | .processing => false
  | .done | .skipped | .failed => true

/-- A row of `DocumentVersionContent`, with the name of the worker that has claimed it last,
which is no column. -/
structure ContentRow where
  versionId : String
  status : ContentStatus
  text : Option String
  ocr : Bool
  attempts : Nat
  error : Option String
  extractedAt : Option Int
  createdAt : Int
  updatedAt : Int
  claimedBy : Option Nat
deriving DecidableEq

structure IndexedVersion where
  id : String
  createdAt : Int
deriving DecidableEq

/-- The tables, and the versions of all claims so far. -/
structure IndexStore where
  clock : Int
  versions : List IndexedVersion
  contents : List ContentRow
  claims : List String
deriving DecidableEq

/-- The text of a file, with the error of the character recognition. -/
structure Extraction where
  text : String
  ocr : Bool
  error : Option String
deriving DecidableEq

/-- Where a call of `indexDocumentContents` is, and what it has read. -/
inductive IndexProcess
  | indexDocumentContents (limit : Nat)
  | indexCutoff (limit : Nat)
  | indexReset (limit : Nat) (cutoff : Int)
  | indexFind (limit : Nat)
  | indexClaim (todo : List String)
  | indexLoad (id : String) (todo : List String)
  | indexSkip (id : String) (todo : List String)
  | indexExtract (id : String) (todo : List String)
  | indexDone (id : String) (todo : List String) (extracted : Extraction)
  | indexFailure (id : String) (todo : List String) (message : String)
  | indexFailed (id : String) (todo : List String) (attempts : Option Nat) (message : String)
  | addVersion (id : String)
deriving DecidableEq

/-- Whether the file can be indexed, the result of its extraction, whether a write fails. -/
structure IndexChoice where
  eligible : Bool
  extracted : Except String Extraction
  fails : Option String

/-! ## Statements -/

def maxText : Nat := 1000000

/-- The rows of workers that are taken for dead. -/
def ContentRow.stale (cutoff : Int) (row : ContentRow) : Bool :=
  row.status = .processing && row.updatedAt < cutoff

namespace ContentRow

variable (now : Int) (row : ContentRow)

def claim (worker : Nat) : ContentRow :=
  { row with status := .processing, attempts := row.attempts + 1, updatedAt := now,
             claimedBy := some worker }

def requeue : ContentRow := { row with status := .pending, updatedAt := now }

def skip : ContentRow :=
  { row with status := .skipped, extractedAt := some now, updatedAt := now }

def finish (extracted : Extraction) : ContentRow :=
  { row with status := .done, text := some (JsString.slice maxText extracted.text),
             ocr := extracted.ocr, error := extracted.error, extractedAt := some now,
             updatedAt := now }

/-- The failure path, with the attempts it has read. -/
def fail (attempts : Option Nat) (message : String) : ContentRow :=
  { row with status := if 3 ≤ attempts.getD 3 then .failed else .pending,
             error := some (JsString.slice 500 message), updatedAt := now }

end ContentRow

namespace IndexStore

variable (store : IndexStore)

def hasContent (id : String) : Bool := store.contents.any fun row => row.versionId = id

/-- The content rows of the newest versions without one. -/
def insertMissing : IndexStore where
  __ := store
  contents := store.contents ++ (Query.findMany (fun version => !store.hasContent version.id)
    (fun left right => right.createdAt ≤ left.createdAt) 500 store.versions).map fun version =>
      ⟨version.id, .pending, none, false, 0, none, none, store.clock, store.clock, none⟩

def reset (cutoff : Int) : IndexStore where
  __ := store
  contents := store.contents.map fun row =>
    if row.stale cutoff then row.requeue store.clock else row

def isPending (id : String) : Bool :=
  store.contents.any fun row => row.versionId = id ∧ row.status = .pending

def claim (worker : Nat) (id : String) : IndexStore where
  __ := store
  contents := store.contents.map fun row =>
    if row.versionId = id ∧ row.status = .pending then row.claim store.clock worker else row
  claims := store.claims ++ [id]

/-- A write to the row of a version. -/
def write (id : String) (f : ContentRow → ContentRow) : IndexStore :=
  { store with contents := Table.update ContentRow.versionId id f store.contents }

end IndexStore

/-- Run the next statement of a worker. -/
def indexAdvance (worker : Nat) (choice : IndexChoice) (store : IndexStore) :
    IndexProcess → Option (Option IndexProcess × IndexStore)
  | .indexDocumentContents limit => some (some (.indexCutoff limit), store.insertMissing)
  | .indexCutoff limit => some (some (.indexReset limit (store.clock - 30 * 60000)), store)
  | .indexReset limit cutoff => some (some (.indexFind limit), store.reset cutoff)
  | .indexFind limit =>
      some (some (.indexClaim ((Query.findMany (fun row => row.status = .pending)
        (fun left right => left.createdAt ≤ right.createdAt) limit store.contents).map
          ContentRow.versionId)), store)
  | .indexClaim [] => some (none, store)
  | .indexClaim (id :: todo) =>
      if store.isPending id then some (some (.indexLoad id todo), store.claim worker id)
      else some (some (.indexClaim todo), store)
  | .indexLoad id todo =>
      some (some (if choice.eligible then .indexExtract id todo else .indexSkip id todo), store)
  | .indexSkip id todo =>
      if store.hasContent id then
        some (some (.indexClaim todo), store.write id (ContentRow.skip store.clock))
      else some (none, store)
  | .indexExtract id todo =>
      some (some (match choice.extracted with
        | .ok extracted => .indexDone id todo extracted
        | .error message => .indexFailure id todo message), store)
  | .indexDone id todo extracted =>
      match choice.fails with
      | some message => some (some (.indexFailure id todo message), store)
      | none =>
          if store.hasContent id then
            some (some (.indexClaim todo), store.write id fun row =>
              row.finish store.clock extracted)
          else some (some (.indexFailure id todo "Record to update not found."), store)
  | .indexFailure id todo message =>
      some (some (.indexFailed id todo ((store.contents.find? fun row => row.versionId = id).map
        ContentRow.attempts) message), store)
  | .indexFailed id todo attempts message =>
      if store.hasContent id then
        some (some (.indexClaim todo), store.write id fun row =>
          row.fail store.clock attempts message)
      else some (none, store)
  | .addVersion id =>
      if store.versions.any fun version => version.id = id then none
      else some (none, { store with versions := store.versions ++ [⟨id, store.clock⟩] })

def IndexProcess.initial : IndexProcess → Bool
  | .indexDocumentContents _ | .addVersion _ => true
  | _ => false

def indexProgram : Concurrent IndexStore IndexProcess IndexChoice where
  drift time store := if store.clock ≤ time then some { store with clock := time } else none
  start := IndexProcess.initial
  advance := indexAdvance

abbrev IndexConfig : Type := Concurrent.Config IndexStore IndexProcess

abbrev IndexMove : Type := Concurrent.Move IndexProcess IndexChoice

abbrev indexSystem : System IndexConfig IndexMove :=
  indexProgram.system fun store => store.versions = [] ∧ store.contents = [] ∧ store.claims = []

/-- The row that a worker has claimed and not yet written. -/
def IndexProcess.processing : IndexProcess → Option String
  | .indexLoad id _ | .indexSkip id _ | .indexExtract id _ | .indexDone id _ _
  | .indexFailure id _ _ | .indexFailed id _ _ _ => some id
  | _ => none

/-- A row that is queued again is processed by no worker and was claimed less than three
times. -/
def ResetsDead (config : IndexConfig) : IndexProcess → Prop
  | .indexReset _ cutoff => ∀ row ∈ config.store.contents, row.stale cutoff = true →
      row.attempts < 3 ∧ ∀ name process, config.processes name = some process →
        process.processing ≠ some row.versionId
  | _ => True

/-! ## One statement -/

section Steps

variable {choice : IndexChoice} {store after : IndexStore} {worker : Nat}
variable {process next : IndexProcess} {remaining : Option IndexProcess}

/-- The attempts that the failure path has read. -/
def IndexProcess.readAttempts : IndexProcess → Option (Option Nat)
  | .indexFailed _ _ attempts _ => some attempts
  | _ => none

/-- What a statement does to the rows. -/
inductive IndexEffect (store : IndexStore) (worker : Nat) : IndexProcess → IndexStore → Prop
  | same {process : IndexProcess} : IndexEffect store worker process store
  | insert {limit : Nat} :
      IndexEffect store worker (.indexDocumentContents limit) store.insertMissing
  | reset {limit : Nat} {cutoff : Int} :
      IndexEffect store worker (.indexReset limit cutoff) (store.reset cutoff)
  | claim {id : String} {todo : List String} (hpending : store.isPending id = true) :
      IndexEffect store worker (.indexClaim (id :: todo)) (store.claim worker id)
  | write {process : IndexProcess} {id : String} {f : ContentRow → ContentRow}
      (hprocessing : process.processing = some id)
      (hkeeps : ∀ row, (f row).versionId = row.versionId ∧ (f row).attempts = row.attempts)
      (hpending : ∀ row, (f row).status = .pending →
        ∃ attempts, process.readAttempts = some attempts ∧ attempts.getD 3 < 3) :
      IndexEffect store worker process (store.write id f)
  | version {id : String} (hfresh : ∀ version ∈ store.versions, version.id ≠ id) :
      IndexEffect store worker (.addVersion id)
        { store with versions := store.versions ++ [⟨id, store.clock⟩] }

theorem indexAdvance_effect
    (hadvance : indexAdvance worker choice store process = some (remaining, after)) :
    IndexEffect store worker process after := by
  cases process with
  | indexDocumentContents =>
      cases hadvance
      exact .insert
  | indexReset =>
      cases hadvance
      exact .reset
  | indexCutoff | indexFind | indexLoad | indexExtract | indexFailure =>
      cases hadvance
      exact .same
  | indexClaim todo =>
      cases todo with
      | nil =>
          cases hadvance
          exact .same
      | cons id todo =>
          simp only [indexAdvance] at hadvance
          split at hadvance <;> cases hadvance
          next hpending => exact .claim hpending
          next => exact .same
  | indexSkip id todo =>
      simp only [indexAdvance] at hadvance
      split at hadvance <;> cases hadvance
      · exact .write rfl (fun _ => ⟨rfl, rfl⟩) (by simp [ContentRow.skip])
      · exact .same
  | indexDone id todo extracted =>
      simp only [indexAdvance] at hadvance
      split at hadvance
      · cases hadvance
        exact .same
      · split at hadvance <;> cases hadvance
        · exact .write rfl (fun _ => ⟨rfl, rfl⟩) (by simp [ContentRow.finish])
        · exact .same
  | indexFailed id todo attempts message =>
      simp only [indexAdvance] at hadvance
      split at hadvance <;> cases hadvance
      · refine .write rfl (fun _ => ⟨rfl, rfl⟩) fun row hstatus => ⟨attempts, rfl, ?_⟩
        by_contra hthree
        simp only [ContentRow.fail, if_pos (Nat.le_of_not_lt hthree)] at hstatus
        cases hstatus
      · exact .same
  | addVersion id =>
      simp only [indexAdvance] at hadvance
      split at hadvance <;> cases hadvance
      next hfresh => exact .version (by simpa using hfresh)

/-- A row has counted its claims, and is queued while it has fewer than three. -/
structure IndexSound (store : IndexStore) : Prop where
  unique : (store.contents.map ContentRow.versionId).Nodup
  versions : (store.versions.map IndexedVersion.id).Nodup
  counted : ∀ row ∈ store.contents, row.attempts = store.claims.count row.versionId
  bounded : ∀ row ∈ store.contents, row.attempts ≤ 3
  queued : ∀ row ∈ store.contents, row.status = .pending → row.attempts < 3
  known : ∀ id ∈ store.claims, id ∈ store.contents.map ContentRow.versionId

/-- The row that a worker processes is claimed by it, with the attempts it has read. -/
def IndexProcess.Owns (worker : Nat) (store : IndexStore) (process : IndexProcess) : Prop :=
  ∀ id, process.processing = some id → ∃ row ∈ store.contents, row.versionId = id ∧
    row.status = .processing ∧ row.claimedBy = some worker ∧
      ∀ attempts ∈ process.readAttempts, attempts = some row.attempts

theorem hasContent_iff {id : String} :
    store.hasContent id = true ↔ ∃ row ∈ store.contents, row.versionId = id := by
  simp [IndexStore.hasContent]

theorem isPending_iff {id : String} :
    store.isPending id = true ↔
      ∃ row ∈ store.contents, row.versionId = id ∧ row.status = .pending := by
  simp [IndexStore.isPending]

/-- Only one row has the version of a row. -/
theorem IndexSound.row_unique (hsound : IndexSound store) {row other : ContentRow}
    (hrow : row ∈ store.contents) (hother : other ∈ store.contents)
    (hid : row.versionId = other.versionId) : row = other :=
  List.inj_on_of_nodup_map hsound.unique hrow hother hid

/-- Rows that are queued for the first time. -/
theorem mem_insertMissing {row : ContentRow} (hrow : row ∈ store.insertMissing.contents) :
    row ∈ store.contents ∨ (∀ other ∈ store.contents, other.versionId ≠ row.versionId) ∧
      row.status = .pending ∧ row.attempts = 0 := by
  refine (List.mem_append.mp hrow).imp_right fun hnew => ?_
  obtain ⟨version, hversion, rfl⟩ := List.mem_map.mp hnew
  have hmissing := (Query.mem_findMany hversion).2
  simp only [Bool.not_eq_true', Bool.eq_false_iff, ne_eq, hasContent_iff] at hmissing
  exact ⟨fun other hother hid => hmissing ⟨other, hother, hid⟩, rfl, rfl⟩

theorem IndexSound.insertMissing (hsound : IndexSound store) : IndexSound store.insertMissing := by
  have hcount : ∀ row ∈ store.insertMissing.contents, row ∉ store.contents →
      row.status = .pending ∧ row.attempts = 0 ∧ store.claims.count row.versionId = 0 := by
    intro row hrow hnot
    obtain ⟨hfresh, hpending, hattempts⟩ := (mem_insertMissing hrow).resolve_left hnot
    refine ⟨hpending, hattempts, List.count_eq_zero.mpr fun hclaimed => ?_⟩
    obtain ⟨other, hother, hid⟩ := List.mem_map.mp (hsound.known _ hclaimed)
    exact hfresh other hother hid
  refine ⟨?_, hsound.versions, fun row hrow => ?_, fun row hrow => ?_, fun row hrow hstatus => ?_,
    fun id hid => ?_⟩
  · simp only [IndexStore.insertMissing, List.map_append, List.map_map, Function.comp_def]
    refine hsound.unique.append (Query.nodup_findMany hsound.versions) ?_
    rw [List.disjoint_right]
    intro id hnew hold
    obtain ⟨version, hversion, rfl⟩ := List.mem_map.mp hnew
    have hmissing := (Query.mem_findMany hversion).2
    rw [Bool.not_eq_true', Bool.eq_false_iff, ne_eq, hasContent_iff] at hmissing
    exact hmissing (List.mem_map.mp hold)
  · by_cases hold : row ∈ store.contents
    · exact hsound.counted row hold
    · obtain ⟨-, hattempts, hclaims⟩ := hcount row hrow hold
      exact hattempts.trans hclaims.symm
  · by_cases hold : row ∈ store.contents
    · exact hsound.bounded row hold
    · rw [(hcount row hrow hold).2.1]
      exact Nat.zero_le 3
  · by_cases hold : row ∈ store.contents
    · exact hsound.queued row hold hstatus
    · rw [(hcount row hrow hold).2.1]
      exact Nat.zero_lt_succ 2
  · refine List.map_subset _ ?_ (hsound.known id hid)
    exact List.subset_append_left _ _

/-- Rows are rewritten with the attempts they have, and queued after less than three. -/
theorem IndexSound.map (hsound : IndexSound store) {g : ContentRow → ContentRow}
    (hkeeps : ∀ row ∈ store.contents,
      (g row).versionId = row.versionId ∧ (g row).attempts = row.attempts)
    (hqueued : ∀ row ∈ store.contents, (g row).status = .pending → row.attempts < 3) :
    IndexSound { store with contents := store.contents.map g } := by
  have hids : (store.contents.map g).map ContentRow.versionId =
      store.contents.map ContentRow.versionId := by
    rw [List.map_map]
    exact List.map_congr_left fun row hrow => (hkeeps row hrow).1
  refine { hsound with
    unique := hids.symm ▸ hsound.unique
    counted := List.forall_mem_map.mpr fun row hrow => ?_
    bounded := List.forall_mem_map.mpr fun row hrow => ?_
    queued := List.forall_mem_map.mpr fun row hrow hstatus => ?_
    known := fun id hid => hids.symm ▸ hsound.known id hid }
  · obtain ⟨hid, hattempts⟩ := hkeeps row hrow
    rw [hid, hattempts]
    exact hsound.counted row hrow
  · rw [(hkeeps row hrow).2]
    exact hsound.bounded row hrow
  · rw [(hkeeps row hrow).2]
    exact hqueued row hrow hstatus

theorem IndexSound.claim (hsound : IndexSound store) {id : String}
    (hpending : store.isPending id = true) : IndexSound (store.claim worker id) := by
  obtain ⟨pending, hmem, hversion, hstatus⟩ := isPending_iff.mp hpending
  have hids : (store.claim worker id).contents.map ContentRow.versionId =
      store.contents.map ContentRow.versionId := by
    simp only [IndexStore.claim, List.map_map]
    refine List.map_congr_left fun row _ => ?_
    simp only [Function.comp_apply]
    split <;> rfl
  -- The queued row is the only one of its version.
  have hrows : ∀ row ∈ store.contents, row.versionId = id → row.status = .pending := by
    intro row hrow hid
    rw [hsound.row_unique hrow hmem (hid.trans hversion.symm)]
    exact hstatus
  refine { hsound with
    unique := hids.symm ▸ hsound.unique
    counted := List.forall_mem_map.mpr fun row hrow => ?_
    bounded := List.forall_mem_map.mpr fun row hrow => ?_
    queued := List.forall_mem_map.mpr fun row hrow hqueued => ?_
    known := fun other hother => ?_ }
  · have hcounted := hsound.counted row hrow
    simp only [IndexStore.claim, List.count_append]
    by_cases hid : row.versionId = id
    · rw [if_pos ⟨hid, hrows row hrow hid⟩]
      simp [ContentRow.claim, hcounted, hid]
    · rw [if_neg fun hboth => hid hboth.1, hcounted,
        List.count_singleton, if_neg (by simpa using Ne.symm hid), Nat.add_zero]
  · split
    next hboth => exact hsound.queued row hrow hboth.2
    next => exact hsound.bounded row hrow
  · split at hqueued
    next => cases hqueued
    next hnot =>
      rw [if_neg hnot]
      exact hsound.queued row hrow hqueued
  · rw [hids]
    rcases List.mem_append.mp hother with hold | hnew
    · exact hsound.known other hold
    · rw [List.mem_singleton.mp hnew, ← hversion]
      exact List.mem_map_of_mem hmem

/-- A statement keeps the counts, when a row that is queued again has fewer than three. -/
theorem IndexSound.effect (hsound : IndexSound store) (howns : process.Owns worker store)
    (hreset : ∀ limit cutoff, process = .indexReset limit cutoff →
      ∀ row ∈ store.contents, row.stale cutoff = true → row.attempts < 3)
    (heffect : IndexEffect store worker process after) : IndexSound after := by
  cases heffect with
  | same => exact hsound
  | insert => exact hsound.insertMissing
  | @reset limit cutoff =>
      refine hsound.map (fun row _ => ?_) fun row hrow hstatus => ?_
      · split <;> exact ⟨rfl, rfl⟩
      · split at hstatus
        next hstale => exact hreset limit cutoff rfl row hrow hstale
        next => exact hsound.queued row hrow hstatus
  | claim hpending => exact hsound.claim hpending
  | @write _ id f hprocessing hkeeps hpending =>
      obtain ⟨claimed, hclaimed, hid, -, -, hread⟩ := howns id hprocessing
      refine hsound.map (fun row _ => ?_) fun row hrow hstatus => ?_
      · split
        · exact hkeeps row
        · exact ⟨rfl, rfl⟩
      · split at hstatus
        next hversion =>
          obtain ⟨attempts, hattempts, hfew⟩ := hpending row hstatus
          rw [hsound.row_unique hrow hclaimed (hversion.trans hid.symm)]
          rw [hread attempts hattempts] at hfew
          exact hfew
        next => exact hsound.queued row hrow hstatus
  | @version id hfresh =>
      exact { hsound with versions := Table.nodup_insert hsound.versions hfresh }

/-- A row stays as it is, unless it is queued, queued again, or claimed by the worker. -/
theorem mem_of_effect (hsound : IndexSound store) (howns : process.Owns worker store)
    (heffect : IndexEffect store worker process after) {row : ContentRow}
    (hrow : row ∈ store.contents) (hqueued : row.status ≠ .pending)
    (hreset : ∀ limit cutoff, process = .indexReset limit cutoff → row.stale cutoff = false)
    (hclaimed : row.status = .processing → row.claimedBy ≠ some worker) :
    row ∈ after.contents := by
  cases heffect with
  | same | version => exact hrow
  | insert => exact List.mem_append_left _ hrow
  | @reset limit cutoff =>
      refine List.mem_map.mpr ⟨row, hrow, ?_⟩
      rw [hreset limit cutoff rfl, if_neg Bool.false_ne_true]
  | claim =>
      refine List.mem_map.mpr ⟨row, hrow, ?_⟩
      rw [if_neg fun hboth => hqueued hboth.2]
  | @write _ id f hprocessing =>
      refine List.mem_map.mpr ⟨row, hrow, ?_⟩
      obtain ⟨claimed, hmem, hid, hstatus, hworker, -⟩ := howns id hprocessing
      rw [if_neg]
      intro hversion
      rw [hsound.row_unique hrow hmem (hversion.trans hid.symm)] at hclaimed
      exact hclaimed hstatus hworker

/-- A worker goes on with its own row. -/
theorem indexAdvance_owns (hsound : IndexSound store) (howns : process.Owns worker store)
    (hadvance : indexAdvance worker choice store process = some (some next, after)) :
    next.Owns worker after := by
  have hvacuous : next.processing = none → next.Owns worker after := by
    intro hnone id hid
    rw [hnone] at hid
    cases hid
  -- The same row is processed, and its attempts are not read yet.
  have hsame : store = after → next.processing = process.processing →
      next.readAttempts = none → next.Owns worker after := by
    rintro rfl hprocessing hunread id hid
    obtain ⟨row, hrow, hversion, hstatus, hworker, -⟩ := howns id (hprocessing ▸ hid)
    refine ⟨row, hrow, hversion, hstatus, hworker, fun attempts hread => ?_⟩
    rw [hunread] at hread
    cases hread
  cases process with
  | indexDocumentContents | indexCutoff | indexReset | indexFind =>
      cases hadvance
      exact hvacuous rfl
  | indexClaim todo =>
      cases todo with
      | nil => cases hadvance
      | cons id todo =>
          simp only [indexAdvance] at hadvance
          split at hadvance <;> cases hadvance
          next hpending =>
            obtain ⟨row, hrow, hversion, hstatus⟩ := isPending_iff.mp hpending
            intro other hother
            cases hother
            refine ⟨row.claim store.clock worker, List.mem_map.mpr ⟨row, hrow, ?_⟩, hversion, rfl,
              rfl, fun attempts hread => ?_⟩
            · rw [if_pos ⟨hversion, hstatus⟩]
            · cases hread
          next => exact hvacuous rfl
  | indexLoad id todo =>
      simp only [indexAdvance, Option.some.injEq, Prod.mk.injEq] at hadvance
      obtain ⟨hnext, hstore⟩ := hadvance
      split at hnext <;> subst hnext <;> exact hsame hstore rfl rfl
  | indexSkip =>
      simp only [indexAdvance] at hadvance
      split at hadvance <;> cases hadvance
      exact hvacuous rfl
  | indexExtract id todo =>
      simp only [indexAdvance, Option.some.injEq, Prod.mk.injEq] at hadvance
      obtain ⟨hnext, hstore⟩ := hadvance
      split at hnext <;> subst hnext <;> exact hsame hstore rfl rfl
  | indexDone id todo extracted =>
      simp only [indexAdvance] at hadvance
      split at hadvance
      · cases hadvance
        exact hsame rfl rfl rfl
      · split at hadvance <;> cases hadvance
        · exact hvacuous rfl
        · exact hsame rfl rfl rfl
  | indexFailure id todo message =>
      cases hadvance
      intro other hother
      cases hother
      obtain ⟨row, hrow, hversion, hstatus, hworker, -⟩ := howns id rfl
      refine ⟨row, hrow, hversion, hstatus, hworker, fun attempts hread => ?_⟩
      cases hread
      rw [(Table.find?_key_eq_some_iff hsound.unique).mpr ⟨hrow, hversion⟩]
      rfl
  | indexFailed =>
      simp only [indexAdvance] at hadvance
      split at hadvance <;> cases hadvance
      exact hvacuous rfl
  | addVersion =>
      simp only [indexAdvance] at hadvance
      split at hadvance <;> cases hadvance

end Steps

/-! ## Runs -/

def indexOutline : Concurrent.Outline IndexStore IndexProcess where
  invariant := IndexSound
  assertion worker store process := process.Owns worker store

theorem indexOutline_valid :
    indexOutline.Valid indexProgram
      (fun store => store.versions = [] ∧ store.contents = [] ∧ store.claims = [])
      (Concurrent.Guarded ResetsDead) where
  init := by
    rintro store ⟨hversions, hcontents, hclaims⟩
    constructor <;> simp [hversions, hcontents, hclaims]
  drift := by
    intro time store after hdrift hsound
    obtain ⟨-, rfl⟩ := Concurrent.drift_eq hdrift
    exact ⟨{ hsound with }, fun _ _ howns => howns⟩
  start := by
    intro worker store process hstart _ id hid
    cases process with
    | indexDocumentContents | addVersion => cases hid
    | _ => cases hstart
  own := by
    intro config worker choice process remaining after hholds hprocess hguarded hadvance
    have howns := hholds.2 worker process hprocess
    refine ⟨hholds.1.effect howns ?_ (indexAdvance_effect hadvance), ?_⟩
    · rintro limit cutoff rfl row hrow hstale
      exact (hguarded _ hprocess row hrow hstale).1
    · rintro next rfl
      exact indexAdvance_owns hholds.1 howns hadvance
  others := by
    intro config worker choice process remaining after hholds hprocess hguarded hadvance other
      process' hne hother id hid
    obtain ⟨row, hrow, hversion, hstatus, hworker, hread⟩ := hholds.2 other process' hother id hid
    refine ⟨row, ?_, hversion, hstatus, hworker, hread⟩
    refine mem_of_effect hholds.1 (hholds.2 worker process hprocess)
      (indexAdvance_effect hadvance) hrow ?_ ?_ fun _ hsame => ?_
    · simp [hstatus]
    · -- The row of a worker is not queued again.
      rintro limit cutoff rfl
      by_contra hstale
      rw [Bool.not_eq_false] at hstale
      exact (hguarded _ hprocess row hrow hstale).2 other process' hother (hversion ▸ hid)
    · rw [hworker, Option.some.injEq] at hsame
      exact hne hsame

/-- **Indexing.** In every run that meets the condition, a version has one row, which is claimed
at most three times; no step changes a row that is done, skipped or has failed, and no two
workers process the same row. -/
theorem indexing_bounded {config : IndexConfig}
    (hreach : indexSystem.ReachableWhile (Concurrent.Guarded ResetsDead) config) :
    (config.store.contents.map ContentRow.versionId).Nodup ∧
      (∀ id, config.store.claims.count id ≤ 3) ∧
      (∀ move after, indexProgram.next config move = some after →
        ∀ row ∈ config.store.contents, row.status.isFinal = true → row ∈ after.store.contents) ∧
      ∀ worker process other process' id, config.processes worker = some process →
        config.processes other = some process' → process.processing = some id →
        process'.processing = some id → worker = other := by
  obtain ⟨hsound, howns⟩ := indexOutline_valid.holds hreach
  refine ⟨hsound.unique, fun id => ?_, fun move after hnext row hrow hfinal => ?_, ?_⟩
  · by_cases hclaimed : id ∈ config.store.claims
    · obtain ⟨row, hrow, rfl⟩ := List.mem_map.mp (hsound.known id hclaimed)
      rw [← hsound.counted row hrow]
      exact hsound.bounded row hrow
    · rw [List.count_eq_zero.mpr hclaimed]
      exact Nat.zero_le 3
  · rcases Concurrent.next_store hnext with ⟨time, -, hdrift⟩ |
      ⟨worker, choice, process, remaining, -, hprocess, hadvance⟩ | hsame
    · rw [(Concurrent.drift_eq hdrift).2]
      exact hrow
    · refine mem_of_effect hsound (howns worker process hprocess) (indexAdvance_effect hadvance)
        hrow ?_ (fun limit cutoff _ => ?_) fun hstatus => ?_
      · intro hstatus
        rw [hstatus] at hfinal
        cases hfinal
      · by_contra hstale
        simp only [ContentRow.stale, Bool.not_eq_false, Bool.and_eq_true,
          decide_eq_true_eq] at hstale
        rw [hstale.1] at hfinal
        cases hfinal
      · rw [hstatus] at hfinal
        cases hfinal
    · rw [hsame]
      exact hrow
  · intro worker process other process' id hworker hother hid hid'
    obtain ⟨row, hrow, hversion, -, hclaimed, -⟩ := howns worker process hworker id hid
    obtain ⟨row', hrow', hversion', -, hclaimed', -⟩ := howns other process' hother id hid'
    rw [hsound.row_unique hrow hrow' (hversion.trans hversion'.symm), hclaimed',
      Option.some.injEq] at hclaimed
    exact hclaimed.symm

/-! ## Sample -/

/-- `ResetsDead`, computed over the workers with known names. -/
def resetsDead (names : List Nat) (config : IndexConfig) : IndexMove → Bool
  | .advance worker _ => (config.processes worker).all fun process => match process with
      | .indexReset _ cutoff => config.store.contents.all fun row => !row.stale cutoff ||
          (row.attempts < 3 && names.all fun name => (config.processes name).all fun other =>
            other.processing ≠ some row.versionId)
      | _ => true
  | _ => true

theorem guarded_of_resetsDead {names : List Nat} {config : IndexConfig} {move : IndexMove}
    (hnamed : Concurrent.Named names config) (hresets : resetsDead names config move = true) :
    Concurrent.Guarded ResetsDead config move := by
  cases move with
  | advance worker choice =>
      intro process hprocess
      cases process with
      | indexReset limit cutoff =>
          intro row hrow hstale
          simp only [resetsDead, hprocess, Option.all_some, List.all_eq_true, Bool.or_eq_true,
            Bool.not_eq_true', Bool.and_eq_true, decide_eq_true_eq] at hresets
          obtain ⟨hfew, hdead⟩ := (hresets row hrow).resolve_left (by simp [hstale])
          refine ⟨hfew, fun name other hother => ?_⟩
          have hmem := hnamed.mem hother
          simpa [hother] using hdead name hmem
      | _ => trivial
  | _ => trivial

def noContents : IndexStore := ⟨0, [], [], []⟩

theorem reachable_noContents {allowed : IndexConfig → IndexMove → Prop} :
    indexSystem.ReachableWhile allowed (Concurrent.idle noContents) :=
  .init ⟨⟨rfl, rfl, rfl⟩, fun _ => rfl⟩

/-- The text of the file is extracted. -/
def extracts : IndexChoice := ⟨true, .ok ⟨"text", false, none⟩, none⟩

/-- The extraction throws. -/
def throws : IndexChoice := ⟨true, .error "unreadable", none⟩

def addMoves : List IndexMove := [.start 0 (.addVersion "v1"), .advance 0 extracts]

/-- A worker runs until it has claimed its first row. -/
def claimMoves (worker : Nat) : List IndexMove :=
  .start worker (.indexDocumentContents 5) :: List.replicate 5 (.advance worker extracts)

/-- The worker crashes, and more than half an hour passes. -/
def crashMoves (worker : Nat) (pass : Int) : List IndexMove :=
  claimMoves worker ++ [.stop worker, .drift (pass * 31 * 60000)]

/-- The status and the claims of the rows, and what two workers process. -/
def indexSummary (config : IndexConfig) :
    List (ContentStatus × Nat) × List (Option (Option String)) :=
  (config.store.contents.map fun row => (row.status, config.store.claims.count row.versionId),
    [0, 1].map fun worker => (config.processes worker).map IndexProcess.processing)

/-- The first worker crashes, the extraction of the second one throws, and the third one has the
row. -/
theorem indexing_bounded_third_claim :
    ∃ config, indexSystem.ReachableWhile (Concurrent.Guarded ResetsDead) config ∧
      config.store.claims = ["v1", "v1", "v1"] ∧
      (∃ process, config.processes 0 = some process ∧ process.processing = some "v1") ∧
      (∀ id, config.store.claims.count id ≤ 3) ∧
      ∀ other process, config.processes other = some process →
        process.processing = some "v1" → 0 = other := by
  have hrun : (Concurrent.executeNamed indexProgram [0, 1] (resetsDead [0, 1])
      (Concurrent.idle noContents)
      (addMoves ++ crashMoves 0 1 ++ claimMoves 1 ++ List.replicate 5 (.advance 1 throws) ++
        claimMoves 0)).map (fun config => (config.store.claims, config.processes 0)) =
      some (["v1", "v1", "v1"], some (.indexLoad "v1" [])) := by
    decide
  obtain ⟨config, hexecute, hsummary⟩ := Option.map_eq_some_iff.mp hrun
  obtain ⟨hclaims, hprocess⟩ := Prod.mk.inj hsummary
  have hreach := (Concurrent.reachable_executeNamed
    (fun _ _ hnamed hresets => guarded_of_resetsDead hnamed hresets) _ (fun _ _ => rfl)
    reachable_noContents hexecute).1
  obtain ⟨-, hthree, -, hexclusive⟩ := indexing_bounded hreach
  exact ⟨config, hreach, hclaims, ⟨_, hprocess, rfl⟩, hthree, fun other process hother hid =>
    hexclusive 0 _ other process "v1" hprocess hother rfl hid⟩

/-- A state with this summary is reachable, and so is the state after one more move. -/
theorem reachable_indexMoves {moves : List IndexMove} {summary}
    (hrun : (Concurrent.executeNamed indexProgram [0, 1] (fun _ _ => true)
      (Concurrent.idle noContents) moves).map indexSummary = some summary) :
    ∃ config, indexSystem.Reachable config ∧ indexSummary config = summary ∧
      ∀ move next, ((Concurrent.executeNamed indexProgram [0, 1] (fun _ _ => true)
          (Concurrent.idle noContents) moves).bind fun config =>
            indexProgram.next config move).map indexSummary = some next →
        ∃ after, indexProgram.next config move = some after ∧ indexSummary after = next := by
  obtain ⟨config, hexecute, hsummary⟩ := Option.map_eq_some_iff.mp hrun
  refine ⟨config, (Concurrent.reachable_executeNamed (fun _ _ _ _ => trivial) _ (fun _ _ => rfl)
    reachable_noContents hexecute).1, hsummary, fun move next hnext => ?_⟩
  rw [hexecute, Option.bind_some] at hnext
  exact Option.map_eq_some_iff.mp hnext

/-- Two workers process the same row after half an hour; after crashes it is claimed a fourth
time; and a row that is done is queued again when the slow worker fails. -/
theorem slow_row_processed_twice :
    (∃ config, indexSystem.Reachable config ∧
        indexSummary config = ([(.processing, 2)], [some (some "v1"), some (some "v1")])) ∧
      (∃ config, indexSystem.Reachable config ∧
        indexSummary config = ([(.processing, 4)], [some (some "v1"), none])) ∧
      ∃ config after, indexSystem.Reachable config ∧
        indexProgram.next config (.advance 0 throws) = some after ∧
        indexSummary config = ([(.done, 2)], [some (some "v1"), none]) ∧
        indexSummary after = ([(.pending, 2)], [some none, none]) := by
  have hslow : (Concurrent.executeNamed indexProgram [0, 1] (fun _ _ => true)
      (Concurrent.idle noContents) (addMoves ++ claimMoves 0 ++ [.drift (31 * 60000)] ++
        claimMoves 1)).map indexSummary =
      some ([(.processing, 2)], [some (some "v1"), some (some "v1")]) := by
    decide
  have hcrashes : (Concurrent.executeNamed indexProgram [0, 1] (fun _ _ => true)
      (Concurrent.idle noContents) (addMoves ++ crashMoves 0 1 ++ crashMoves 0 2 ++
        crashMoves 0 3 ++ claimMoves 0)).map indexSummary =
      some ([(.processing, 4)], [some (some "v1"), none]) := by
    decide
  have hdone : (Concurrent.executeNamed indexProgram [0, 1] (fun _ _ => true)
      (Concurrent.idle noContents) (addMoves ++ claimMoves 0 ++ [.drift (31 * 60000)] ++
        claimMoves 1 ++ List.replicate 4 (.advance 1 extracts) ++
        List.replicate 3 (.advance 0 throws))).map indexSummary =
      some ([(.done, 2)], [some (some "v1"), none]) := by
    decide
  obtain ⟨slow, hslow, hboth, -⟩ := reachable_indexMoves hslow
  obtain ⟨crashed, hcrashed, hfour, -⟩ := reachable_indexMoves hcrashes
  obtain ⟨done, hdone, hbefore, hnext⟩ := reachable_indexMoves hdone
  obtain ⟨after, hafter, hqueued⟩ := hnext (.advance 0 throws) ([(.pending, 2)], [some none, none])
    (by decide)
  exact ⟨⟨slow, hslow, hboth⟩, ⟨crashed, hcrashed, hfour⟩,
    ⟨done, after, hdone, hafter, hbefore, hqueued⟩⟩

end IsmsPortal
