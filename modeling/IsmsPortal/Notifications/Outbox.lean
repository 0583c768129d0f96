import IsmsPortal.Foundation.IsoDate
import IsmsPortal.Foundation.Locking
import IsmsPortal.Foundation.Query
import IsmsPortal.Foundation.Table
import IsmsPortal.Notifications.Queue

/-! # The notification outbox

An event is written to the outbox in the transaction of its audit record. The scheduler reads
the rows that are due, adds a job for each and marks the row; any of these calls may fail,
with or without effect. A failure is recorded in the row, which is tried again later, and
ends the pass. Old rows are removed once they are marked.
-/

namespace IsmsPortal

open Foundation

/-- A row of `NotificationOutbox`. -/
structure OutboxRow where
  id : String
  payload : NotificationJob
  createdAt : Int
  nextAttemptAt : Int
  queuedAt : Option Int
  attempts : Nat
deriving DecidableEq

/-- A call of `enqueue` for a row, with what it was given. -/
structure EnqueueCall where
  rowId : String
  job : NotificationJob
  jobId : String
  returned : Bool
deriving DecidableEq

/-- A failure that was written to a row, with the number of attempts that was read. -/
structure OutboxFailure where
  id : String
  dispatchedAt : Int
  attempts : Nat
  nextAttemptAt : Int
deriving DecidableEq

/-- The outbox and the queue, with the ids of all rows written so far, the calls, the ids of the
rows that were marked and the failures, the latest last. -/
structure OutboxStore where
  clock : Int
  outbox : List OutboxRow
  queue : MailQueue
  created : List String
  calls : List EnqueueCall
  marks : List String
  failures : List OutboxFailure
deriving DecidableEq

/-- Where a call is. The queue forgets ended jobs by itself. -/
inductive OutboxProcess
  | persistAudit (action resource identity result : String) (notify : Bool)
  | dispatchOutbox
  | dispatchRead (now : Int)
  | dispatchEntry (now : Int) (entry : OutboxRow) (rest : List OutboxRow)
  | dispatchMark (now : Int) (entry : OutboxRow) (rest : List OutboxRow)
  | dispatchFailure (now : Int) (entry : OutboxRow)
  | maintainHistory
  | maintainRead (now : Int)
  | maintainDelete (ids : List String)
  | forgetJobs (ids : List String)
deriving DecidableEq

/-- The id of a new audit event, whether the call fails and then still has its effect, the
settings of mails, and the answer of a query without an order. -/
structure OutboxChoice where
  uuid : String
  fails : Bool
  effect : Bool
  policy : DocumentAlertPolicy
  rows : List OutboxRow

/-! ## Statements -/

/-- The rows that a pass at this time selects. -/
def OutboxRow.pending (now : Int) (row : OutboxRow) : Bool :=
  row.queuedAt.isNone && decide (row.nextAttemptAt ≤ now)

/-- The order of a pass; that of the ids is the database's. -/
def dispatchOrder (idOrder : String → String → Bool) (left right : OutboxRow) : Prop :=
  left.nextAttemptAt < right.nextAttemptAt ∨
    left.nextAttemptAt = right.nextAttemptAt ∧ idOrder left.id right.id = true

instance (idOrder : String → String → Bool) : DecidableRel (dispatchOrder idOrder) :=
  fun left right => inferInstanceAs (Decidable (left.nextAttemptAt < right.nextAttemptAt ∨
    left.nextAttemptAt = right.nextAttemptAt ∧ idOrder left.id right.id = true))

/-- The delay after a failure, in milliseconds. -/
def retryDelay (attempts : Nat) : Int := min 3600000 (30000 * 2 ^ min attempts 7)

/-- The rows that maintenance removes. -/
def OutboxRow.outdated (now : Int) (row : OutboxRow) : Bool :=
  row.queuedAt.any (· < now - days 30)

/-- The next entry of a pass. -/
def dispatchNext (now : Int) : List OutboxRow → Option OutboxProcess
  | [] => none
  | entry :: rest => some (.dispatchEntry now entry rest)

namespace OutboxStore

variable (store : OutboxStore)

/-- The row of a new event. -/
def createRow (action resource identity uuid : String) : OutboxStore where
  __ := store
  outbox := store.outbox ++
    [⟨uuid, ⟨action, resource, identity, store.clock, none, none⟩, store.clock, store.clock, none,
      0⟩]
  created := store.created ++ [uuid]

/-- A call of `enqueue` for a row, and whether the job is added. -/
def call (policy : DocumentAlertPolicy) (rowId : String) (job : NotificationJob) (jobId : String)
    (added returned : Bool) : OutboxStore where
  __ := store
  queue := if added then enqueue policy store.queue job jobId else store.queue
  calls := store.calls ++ [⟨rowId, job, jobId, returned⟩]

/-- The row is there. -/
def hasRow (id : String) : Bool := store.outbox.any fun row => row.id = id

/-- Mark a row. -/
def markQueued (id : String) : OutboxStore where
  __ := store
  outbox := Table.update OutboxRow.id id
    (fun row => { row with queuedAt := some store.clock, attempts := row.attempts + 1 })
    store.outbox
  marks := if store.hasRow id then store.marks ++ [id] else store.marks

/-- Record a failure in the row, if it is there. -/
def recordFailure (now : Int) (entry : OutboxRow) : OutboxStore :=
  if store.hasRow entry.id then { store with
    outbox := Table.update OutboxRow.id entry.id (fun row => { row with
      attempts := row.attempts + 1, nextAttemptAt := now + retryDelay entry.attempts }) store.outbox
    failures := store.failures ++
      [⟨entry.id, now, entry.attempts, now + retryDelay entry.attempts⟩] }
  else store

end OutboxStore

/-- Run the next statement. -/
def outboxAdvance (idOrder : String → String → Bool) (choice : OutboxChoice)
    (store : OutboxStore) : OutboxProcess → Option (Option OutboxProcess × OutboxStore)
  | .persistAudit action resource identity result notify =>
      if result = "success" && notify && isNotified action && !choice.fails then
        if choice.uuid ∈ store.created then none
        else some (none, store.createRow action resource identity choice.uuid)
      else some (none, store)
  | .dispatchOutbox => some (some (.dispatchRead store.clock), store)
  | .dispatchRead now =>
      some (dispatchNext now (Query.findMany (OutboxRow.pending now) (dispatchOrder idOrder) 100
        store.outbox), store)
  | .dispatchEntry now entry rest =>
      if choice.fails then
        some (some (.dispatchFailure now entry),
          store.call choice.policy entry.id entry.payload entry.id choice.effect false)
      else
        some (some (.dispatchMark now entry rest),
          store.call choice.policy entry.id entry.payload entry.id true true)
  | .dispatchMark now entry rest =>
      if choice.fails || !store.hasRow entry.id then
        some (some (.dispatchFailure now entry),
          if choice.effect then store.markQueued entry.id else store)
      else some (dispatchNext now rest, store.markQueued entry.id)
  | .dispatchFailure now entry =>
      if choice.fails && !choice.effect then some (none, store)
      else some (none, store.recordFailure now entry)
  | .maintainHistory => some (some (.maintainRead store.clock), store)
  | .maintainRead now =>
      if Query.IsSelection (OutboxRow.outdated now) 1000 store.outbox choice.rows then
        some (some (.maintainDelete (choice.rows.map OutboxRow.id)), store)
      else none
  | .maintainDelete ids =>
      some (none, { store with outbox := store.outbox.filter fun row => row.id ∉ ids })
  | .forgetJobs ids =>
      some (none, { store with queue := store.queue.filter fun job => job.1 ∉ ids })

def OutboxProcess.initial : OutboxProcess → Bool
  | .persistAudit .. | .dispatchOutbox | .maintainHistory | .forgetJobs _ => true
  | _ => false

def outboxProgram (idOrder : String → String → Bool) :
    Concurrent OutboxStore OutboxProcess OutboxChoice where
  drift time store := if store.clock ≤ time then some { store with clock := time } else none
  start := OutboxProcess.initial
  advance _ := outboxAdvance idOrder

abbrev OutboxConfig : Type := Concurrent.Config OutboxStore OutboxProcess

abbrev OutboxMove : Type := Concurrent.Move OutboxProcess OutboxChoice

/-- Nothing has been written or called. -/
def OutboxStore.Initial (store : OutboxStore) : Prop :=
  store.outbox = [] ∧ store.queue = [] ∧ store.created = [] ∧ store.calls = [] ∧
    store.marks = [] ∧ store.failures = []

abbrev outboxSystem (idOrder : String → String → Bool) : System OutboxConfig OutboxMove :=
  (outboxProgram idOrder).system OutboxStore.Initial

/-- The scheduler holds its lock from the first query of a pass to its end. -/
def schedulerLock : Concurrent.Locks OutboxStore OutboxProcess Unit where
  holds
    | .dispatchEntry .. | .dispatchMark .. | .dispatchFailure .. => [()]
    | _ => []
  wants _
    | .dispatchRead _ => [()]
    | _ => []

/-! ## One statement -/

section Steps

variable {idOrder : String → String → Bool} {choice : OutboxChoice} {store after : OutboxStore}
variable {process next : OutboxProcess} {remaining : Option OutboxProcess}

/-- What a statement does to the store. -/
inductive OutboxEffect (store : OutboxStore) : OutboxProcess → OutboxStore → Prop
  | same {process : OutboxProcess} : OutboxEffect store process store
  | create {action resource identity result uuid : String} {notify : Bool}
      (hfresh : uuid ∉ store.created) :
      OutboxEffect store (.persistAudit action resource identity result notify)
        (store.createRow action resource identity uuid)
  | call {now : Int} {entry : OutboxRow} {rest : List OutboxRow} (policy : DocumentAlertPolicy)
      (added returned : Bool) :
      OutboxEffect store (.dispatchEntry now entry rest)
        (store.call policy entry.id entry.payload entry.id added returned)
  | mark {now : Int} {entry : OutboxRow} {rest : List OutboxRow} :
      OutboxEffect store (.dispatchMark now entry rest) (store.markQueued entry.id)
  | fail {now : Int} {entry : OutboxRow} :
      OutboxEffect store (.dispatchFailure now entry) (store.recordFailure now entry)
  | delete {ids : List String} : OutboxEffect store (.maintainDelete ids)
      { store with outbox := store.outbox.filter fun row => row.id ∉ ids }
  | forget {ids : List String} : OutboxEffect store (.forgetJobs ids)
      { store with queue := store.queue.filter fun job => job.1 ∉ ids }

theorem outboxAdvance_effect
    (hadvance : outboxAdvance idOrder choice store process = some (remaining, after)) :
    OutboxEffect store process after := by
  cases process with
  | persistAudit action resource identity result notify =>
      simp only [outboxAdvance] at hadvance
      split at hadvance
      next =>
        split at hadvance <;> cases hadvance
        next hfresh => exact .create hfresh
      next =>
        cases hadvance
        exact .same
  | dispatchOutbox | dispatchRead now | maintainHistory =>
      cases hadvance
      exact .same
  | dispatchEntry now entry rest =>
      simp only [outboxAdvance] at hadvance
      split at hadvance <;> cases hadvance <;> exact .call ..
  | dispatchMark now entry rest =>
      simp only [outboxAdvance] at hadvance
      split at hadvance
      next =>
        cases hadvance
        split
        · exact .mark
        · exact .same
      next =>
        cases hadvance
        exact .mark
  | dispatchFailure now entry =>
      simp only [outboxAdvance] at hadvance
      split at hadvance <;> cases hadvance
      · exact .same
      · exact .fail
  | maintainRead now =>
      simp only [outboxAdvance] at hadvance
      split at hadvance <;> cases hadvance
      exact .same
  | maintainDelete ids =>
      cases hadvance
      exact .delete
  | forgetJobs ids =>
      cases hadvance
      exact .forget

/-- What comes after a statement, with what it has read or done. -/
inductive OutboxGoesOn (store after : OutboxStore) : OutboxProcess → OutboxProcess → Prop
  | clock : OutboxGoesOn store after .dispatchOutbox (.dispatchRead store.clock)
  | read {now : Int} {entry : OutboxRow} {rest : List OutboxRow} (hsame : after = store)
      (hread : ∀ row ∈ entry :: rest, row ∈ store.outbox) :
      OutboxGoesOn store after (.dispatchRead now) (.dispatchEntry now entry rest)
  | called {now : Int} {entry : OutboxRow} {rest : List OutboxRow} (policy : DocumentAlertPolicy)
      (hcall : after = store.call policy entry.id entry.payload entry.id true true) :
      OutboxGoesOn store after (.dispatchEntry now entry rest) (.dispatchMark now entry rest)
  | refused {now : Int} {entry : OutboxRow} {rest : List OutboxRow} :
      OutboxGoesOn store after (.dispatchEntry now entry rest) (.dispatchFailure now entry)
  | marked {now : Int} {entry following : OutboxRow} {rest : List OutboxRow} :
      OutboxGoesOn store after (.dispatchMark now entry (following :: rest))
        (.dispatchEntry now following rest)
  | unmarked {now : Int} {entry : OutboxRow} {rest : List OutboxRow} :
      OutboxGoesOn store after (.dispatchMark now entry rest) (.dispatchFailure now entry)
  | maintain : OutboxGoesOn store after .maintainHistory (.maintainRead store.clock)
  | selected {now : Int} {rows : List OutboxRow} (hsame : after = store)
      (hrows : ∀ row ∈ rows, row ∈ store.outbox ∧ row.queuedAt ≠ none) :
      OutboxGoesOn store after (.maintainRead now) (.maintainDelete (rows.map OutboxRow.id))

theorem dispatchNext_eq_some {now : Int} {rows : List OutboxRow}
    (hnext : dispatchNext now rows = some next) :
    ∃ entry rest, rows = entry :: rest ∧ next = .dispatchEntry now entry rest := by
  cases rows with
  | nil => cases hnext
  | cons entry rest => exact ⟨entry, rest, rfl, (Option.some.inj hnext).symm⟩

theorem OutboxRow.queuedAt_of_outdated {now : Int} {row : OutboxRow}
    (houtdated : row.outdated now = true) : row.queuedAt ≠ none := by
  intro hnone
  rw [OutboxRow.outdated, hnone] at houtdated
  cases houtdated

theorem outboxAdvance_goesOn
    (hadvance : outboxAdvance idOrder choice store process = some (some next, after)) :
    OutboxGoesOn store after process next := by
  cases process with
  | persistAudit action resource identity result notify =>
      simp only [outboxAdvance] at hadvance
      split at hadvance
      next => split at hadvance <;> cases hadvance
      next => cases hadvance
  | dispatchOutbox =>
      cases hadvance
      exact .clock
  | dispatchRead now =>
      simp only [outboxAdvance, Option.some.injEq, Prod.mk.injEq] at hadvance
      obtain ⟨entry, rest, hrows, rfl⟩ := dispatchNext_eq_some hadvance.1
      refine .read hadvance.2.symm fun row hrow => ?_
      rw [← hrows] at hrow
      have hsorted := List.mem_of_mem_take hrow
      rw [List.mem_insertionSort] at hsorted
      exact List.mem_of_mem_filter hsorted
  | dispatchEntry now entry rest =>
      simp only [outboxAdvance] at hadvance
      split at hadvance <;> cases hadvance
      · exact .refused
      · exact .called _ rfl
  | dispatchMark now entry rest =>
      simp only [outboxAdvance] at hadvance
      split at hadvance
      next =>
        cases hadvance
        exact .unmarked
      next =>
        simp only [Option.some.injEq, Prod.mk.injEq] at hadvance
        obtain ⟨following, others, rfl, rfl⟩ := dispatchNext_eq_some hadvance.1
        exact .marked
  | dispatchFailure now entry =>
      simp only [outboxAdvance] at hadvance
      split at hadvance <;> cases hadvance
  | maintainHistory =>
      cases hadvance
      exact .maintain
  | maintainRead now =>
      simp only [outboxAdvance] at hadvance
      split at hadvance <;> cases hadvance
      next hselection =>
        refine .selected rfl fun row hrow => ?_
        obtain ⟨hmem, houtdated⟩ := hselection.2.1 row hrow
        exact ⟨hmem, OutboxRow.queuedAt_of_outdated houtdated⟩
  | maintainDelete ids | forgetJobs ids => cases hadvance

end Steps

/-! ## Rows and calls -/

namespace OutboxStore

/-- A call of `enqueue` for the id has returned. -/
def Returned (store : OutboxStore) (id : String) : Prop :=
  ∃ call ∈ store.calls, call.rowId = id ∧ call.returned = true

/-- All rows with the id are marked. -/
def Marked (store : OutboxStore) (id : String) : Prop :=
  ∀ row ∈ store.outbox, row.id = id → row.queuedAt ≠ none

/-- The ids of the rows. -/
structure Tidy (store : OutboxStore) : Prop where
  unique : (store.outbox.map OutboxRow.id).Nodup
  known : ∀ row ∈ store.outbox, row.id ∈ store.created

/-- No row is lost before it is marked, and none is marked before a call has returned. -/
structure Sound (store : OutboxStore) : Prop extends Tidy store where
  kept : ∀ id ∈ store.created, (∃ row ∈ store.outbox, row.id = id) ∨ id ∈ store.marks
  marked : ∀ row ∈ store.outbox, row.queuedAt ≠ none ↔ row.id ∈ store.marks
  returned : ∀ id ∈ store.marks, id ∈ store.created ∧ store.Returned id
  timed : ∀ row ∈ store.outbox, row.nextAttemptAt = row.createdAt ∨
    ∃ failure ∈ store.failures, failure.id = row.id ∧ failure.nextAttemptAt = row.nextAttemptAt
  own : ∀ call ∈ store.calls, call.jobId = call.rowId
  jobs : (store.queue.map Prod.fst).Nodup
  called : ∀ job ∈ store.queue, ∃ call ∈ store.calls, call.jobId = job.1 ∧ call.job = job.2
  delayed : ∀ failure ∈ store.failures,
    failure.nextAttemptAt = failure.dispatchedAt + retryDelay failure.attempts

/-- What no statement takes back. -/
structure Later (store after : OutboxStore) : Prop where
  created : ∀ id ∈ store.created, id ∈ after.created
  returned : ∀ id, store.Returned id → after.Returned id
  marked : ∀ id ∈ store.created, store.Marked id → after.Marked id

variable {store after : OutboxStore}

/-- New versions of the rows, with the same ids and marks. -/
theorem mem_markQueued {id : String} {row : OutboxRow}
    (hrow : row ∈ (store.markQueued id).outbox) :
    ∃ old ∈ store.outbox, row.id = old.id ∧ row.createdAt = old.createdAt ∧
      row.nextAttemptAt = old.nextAttemptAt ∧ old.attempts ≤ row.attempts ∧
      (row.queuedAt ≠ none ∧ row.id = id ∨ row.queuedAt = old.queuedAt ∧ row.id ≠ id) := by
  obtain ⟨old, hold, rfl⟩ := List.mem_map.mp hrow
  refine ⟨old, hold, ?_⟩
  split
  next hid => exact ⟨rfl, rfl, rfl, Nat.le_succ _, .inl ⟨by simp, hid⟩⟩
  next hid => exact ⟨rfl, rfl, rfl, Nat.le_refl _, .inr ⟨rfl, hid⟩⟩

/-- The rows that were marked so far, and this one if it is there. -/
theorem mem_marks_markQueued {id other : String} : other ∈ (store.markQueued id).marks ↔
    other ∈ store.marks ∨ other = id ∧ store.hasRow id = true := by
  unfold markQueued
  dsimp only
  split
  next hthere => simp [hthere]
  next hnot => simp [hnot]

theorem hasRow_of_mem {row : OutboxRow} (hrow : row ∈ store.outbox) :
    store.hasRow row.id = true :=
  List.any_eq_true.mpr ⟨row, hrow, decide_eq_true rfl⟩

theorem map_id_markQueued (store : OutboxStore) (id : String) :
    (store.markQueued id).outbox.map OutboxRow.id = store.outbox.map OutboxRow.id := by
  apply Table.map_key_update
  intro row
  rfl

/-- The new versions of the rows after a failure. -/
theorem mem_recordFailure {now : Int} {entry row : OutboxRow}
    (hrow : row ∈ (store.recordFailure now entry).outbox) :
    ∃ old ∈ store.outbox, row.id = old.id ∧ row.createdAt = old.createdAt ∧
      row.queuedAt = old.queuedAt ∧
      (row.id = entry.id ∧ row.attempts = old.attempts + 1 ∧
          row.nextAttemptAt = now + retryDelay entry.attempts ∨
        row = old ∧ row.id ≠ entry.id) := by
  unfold recordFailure at hrow
  split at hrow
  next =>
    obtain ⟨old, hold, rfl⟩ := List.mem_map.mp hrow
    refine ⟨old, hold, ?_⟩
    split
    next hid => exact ⟨rfl, rfl, rfl, .inl ⟨hid, rfl, rfl⟩⟩
    next hid => exact ⟨rfl, rfl, rfl, .inr ⟨rfl, hid⟩⟩
  next hnot =>
    refine ⟨row, hrow, rfl, rfl, rfl, .inr ⟨rfl, fun hid => hnot ?_⟩⟩
    exact List.any_eq_true.mpr ⟨row, hrow, decide_eq_true hid⟩

theorem map_id_recordFailure (store : OutboxStore) (now : Int) (entry : OutboxRow) :
    (store.recordFailure now entry).outbox.map OutboxRow.id = store.outbox.map OutboxRow.id := by
  unfold recordFailure
  split
  · apply Table.map_key_update
    intro row
    rfl
  · rfl

/-- A failure changes no more than the rows and the list of failures. -/
theorem recordFailure_frame (store : OutboxStore) (now : Int) (entry : OutboxRow) :
    (store.recordFailure now entry).created = store.created ∧
      (store.recordFailure now entry).calls = store.calls ∧
      (store.recordFailure now entry).queue = store.queue ∧
      (store.recordFailure now entry).marks = store.marks := by
  unfold recordFailure
  split <;> exact ⟨rfl, rfl, rfl, rfl⟩

/-- The failures, with the new one if its row is there. -/
theorem mem_failures_recordFailure {now : Int} {entry : OutboxRow} {failure : OutboxFailure}
    (hfailure : failure ∈ (store.recordFailure now entry).failures) :
    failure ∈ store.failures ∨ store.hasRow entry.id = true ∧
      failure = ⟨entry.id, now, entry.attempts, now + retryDelay entry.attempts⟩ := by
  unfold recordFailure at hfailure
  split at hfailure
  next hthere =>
    rcases List.mem_append.mp hfailure with hold | hnew
    · exact .inl hold
    · exact .inr ⟨hthere, List.mem_singleton.mp hnew⟩
  next => exact .inl hfailure

/-! ### What a statement keeps -/

/-- What the statement needs of a call in flight. -/
def Prepared (store : OutboxStore) : OutboxProcess → Prop
  | .dispatchMark _ entry _ => store.Returned entry.id
  | .maintainDelete ids => ∀ id ∈ ids, id ∈ store.created ∧ store.Marked id
  | _ => True

variable {process : OutboxProcess}

theorem Tidy.effect (htidy : store.Tidy) (heffect : OutboxEffect store process after) :
    after.Tidy := by
  cases heffect with
  | same | call policy added returned | forget => exact ⟨htidy.unique, htidy.known⟩
  | create hfresh =>
      constructor
      · apply Table.nodup_insert htidy.unique
        intro other hother hid
        have hknown := htidy.known other hother
        rw [hid] at hknown
        exact hfresh hknown
      · intro row hrow
        rcases List.mem_append.mp hrow with hold | hnew
        · exact List.mem_append_left _ (htidy.known row hold)
        · rw [List.mem_singleton.mp hnew]
          exact List.mem_append_right _ (List.mem_singleton_self _)
  | mark =>
      constructor
      · rw [map_id_markQueued]
        exact htidy.unique
      · intro row hrow
        obtain ⟨old, hold, hid, -⟩ := mem_markQueued hrow
        exact hid ▸ htidy.known old hold
  | fail =>
      constructor
      · rw [map_id_recordFailure]
        exact htidy.unique
      · intro row hrow
        obtain ⟨old, hold, hid, -⟩ := mem_recordFailure hrow
        rw [hid, (recordFailure_frame store _ _).1]
        exact htidy.known old hold
  | delete =>
      constructor
      · exact htidy.unique.sublist (List.filter_sublist.map _)
      · intro row hrow
        exact htidy.known row (List.mem_of_mem_filter hrow)

theorem Later.effect (heffect : OutboxEffect store process after) : store.Later after := by
  cases heffect with
  | same | forget => exact ⟨fun _ hid => hid, fun _ hid => hid, fun _ _ hmarked => hmarked⟩
  | create hfresh =>
      refine ⟨fun id hid => List.mem_append_left _ hid, fun _ hreturned => hreturned, ?_⟩
      intro id hid hmarked row hrow hrowId
      rcases List.mem_append.mp hrow with hold | hnew
      · exact hmarked row hold hrowId
      · rw [List.mem_singleton.mp hnew] at hrowId
        rw [← hrowId] at hid
        exact absurd hid hfresh
  | call policy added returned =>
      refine ⟨fun _ hid => hid, ?_, fun _ _ hmarked => hmarked⟩
      rintro id ⟨call, hcall, hreturned⟩
      exact ⟨call, List.mem_append_left _ hcall, hreturned⟩
  | mark =>
      refine ⟨fun _ hid => hid, fun _ hreturned => hreturned, ?_⟩
      intro id _ hmarked row hrow hrowId
      obtain ⟨old, hold, hid, -, -, -, ⟨hset, -⟩ | ⟨hsame, -⟩⟩ := mem_markQueued hrow
      · exact hset
      · rw [hsame]
        exact hmarked old hold (hid.symm.trans hrowId)
  | @fail now entry =>
      obtain ⟨hcreated, hcalls, -⟩ := recordFailure_frame store now entry
      refine ⟨fun id hid => hcreated.symm ▸ hid, ?_, ?_⟩
      · intro id hreturned
        unfold Returned at hreturned ⊢
        rw [hcalls]
        exact hreturned
      · intro id _ hmarked row hrow hrowId
        obtain ⟨old, hold, hid, -, hqueued, -⟩ := mem_recordFailure hrow
        rw [hqueued]
        exact hmarked old hold (hid.symm.trans hrowId)
  | delete =>
      refine ⟨fun _ hid => hid, fun _ hreturned => hreturned, ?_⟩
      intro id _ hmarked row hrow hrowId
      exact hmarked row (List.mem_of_mem_filter hrow) hrowId

theorem Prepared.later (hprepared : store.Prepared process) (hlater : store.Later after) :
    after.Prepared process := by
  cases process with
  | dispatchMark now entry rest => exact hlater.returned _ hprepared
  | maintainDelete ids =>
      intro id hid
      obtain ⟨hcreated, hmarked⟩ := hprepared id hid
      exact ⟨hlater.created id hcreated, hlater.marked id hcreated hmarked⟩
  | _ => trivial

/-- The call is ready for what comes next. -/
theorem Tidy.prepared_next {next : OutboxProcess} (htidy : store.Tidy)
    (hgoesOn : OutboxGoesOn store after process next) : after.Prepared next := by
  cases hgoesOn with
  | called policy hcall =>
      rw [hcall]
      exact ⟨_, List.mem_append_right _ (List.mem_singleton_self _), rfl, rfl⟩
  | selected hsame hrows =>
      rw [hsame]
      intro id hid
      obtain ⟨row, hrow, rfl⟩ := List.mem_map.mp hid
      refine ⟨htidy.known row (hrows row hrow).1, fun other hother heq => ?_⟩
      rw [List.inj_on_of_nodup_map htidy.unique hother (hrows row hrow).1 heq]
      exact (hrows row hrow).2
  | _ => trivial

theorem Sound.create {action resource identity uuid : String} (hsound : store.Sound)
    (hfresh : uuid ∉ store.created)
    (htidy : (store.createRow action resource identity uuid).Tidy) :
    (store.createRow action resource identity uuid).Sound where
  toTidy := htidy
  kept := by
    intro id hid
    rcases List.mem_append.mp hid with hold | hnew
    · refine (hsound.kept id hold).imp_left ?_
      rintro ⟨row, hrow, hrowId⟩
      exact ⟨row, List.mem_append_left _ hrow, hrowId⟩
    · rw [List.mem_singleton.mp hnew]
      exact .inl ⟨_, List.mem_append_right _ (List.mem_singleton_self _), rfl⟩
  marked := by
    intro row hrow
    rcases List.mem_append.mp hrow with hold | hnew
    · exact hsound.marked row hold
    · rw [List.mem_singleton.mp hnew]
      refine ⟨fun hqueued => absurd rfl hqueued, fun hmark => ?_⟩
      exact absurd (hsound.returned uuid hmark).1 hfresh
  returned id hid :=
    ⟨List.mem_append_left _ (hsound.returned id hid).1, (hsound.returned id hid).2⟩
  timed := by
    intro row hrow
    rcases List.mem_append.mp hrow with hold | hnew
    · exact hsound.timed row hold
    · rw [List.mem_singleton.mp hnew]
      exact .inl rfl
  own := hsound.own
  jobs := hsound.jobs
  called := hsound.called
  delayed := hsound.delayed

theorem Sound.call {policy : DocumentAlertPolicy} {id : String} {job : NotificationJob}
    {added returned : Bool} (hsound : store.Sound)
    (hlater : store.Later (store.call policy id job id added returned)) :
    (store.call policy id job id added returned).Sound where
  unique := hsound.unique
  known := hsound.known
  kept := hsound.kept
  marked := hsound.marked
  returned other hother :=
    ⟨(hsound.returned other hother).1, hlater.returned other (hsound.returned other hother).2⟩
  timed := hsound.timed
  own := by
    intro call hcall
    rcases List.mem_append.mp hcall with hold | hnew
    · exact hsound.own call hold
    · rw [List.mem_singleton.mp hnew]
  jobs := by
    unfold OutboxStore.call
    dsimp only
    split
    · exact nodup_enqueue hsound.jobs
    · exact hsound.jobs
  called := by
    have hold : ∀ entry ∈ store.queue, ∃ call ∈ store.calls ++ [⟨id, job, id, returned⟩],
        call.jobId = entry.1 ∧ call.job = entry.2 := by
      intro entry hentry
      obtain ⟨call, hcall, hsame⟩ := hsound.called entry hentry
      exact ⟨call, List.mem_append_left _ hcall, hsame⟩
    unfold OutboxStore.call
    dsimp only
    split
    next =>
      intro entry hentry
      rcases mem_enqueue hentry with hbefore | rfl
      · exact hold entry hbefore
      · exact ⟨_, List.mem_append_right _ (List.mem_singleton_self _), rfl, rfl⟩
    next => exact hold
  delayed := hsound.delayed

/-- A row is marked after a call that has returned. -/
theorem Sound.markQueued {id : String} (hsound : store.Sound) (hreturned : store.Returned id)
    (htidy : (store.markQueued id).Tidy) : (store.markQueued id).Sound where
  toTidy := htidy
  kept := by
    intro other hother
    refine (hsound.kept other hother).imp ?_ fun hmark => mem_marks_markQueued.mpr (.inl hmark)
    rintro ⟨row, hrow, rfl⟩
    have hmem : row.id ∈ (store.markQueued id).outbox.map OutboxRow.id := by
      rw [map_id_markQueued]
      exact List.mem_map_of_mem hrow
    exact List.mem_map.mp hmem
  marked := by
    intro row hrow
    obtain ⟨old, hold, hid, -, -, -, ⟨hset, rfl⟩ | ⟨hsame, hne⟩⟩ := mem_markQueued hrow
    · have hthere : store.hasRow row.id = true := hid ▸ hasRow_of_mem hold
      exact ⟨fun _ => mem_marks_markQueued.mpr (.inr ⟨rfl, hthere⟩), fun _ => hset⟩
    · rw [hsame, hsound.marked old hold, mem_marks_markQueued, hid]
      refine ⟨.inl, fun hmark => hmark.resolve_right fun hthis => hne ?_⟩
      exact hid.trans hthis.1
  returned := by
    intro other hother
    rcases mem_marks_markQueued.mp hother with hold | ⟨rfl, hthere⟩
    · exact hsound.returned other hold
    · obtain ⟨row, hrow, hid⟩ := List.any_eq_true.mp hthere
      exact ⟨of_decide_eq_true hid ▸ hsound.known row hrow, hreturned⟩
  timed := by
    intro row hrow
    obtain ⟨old, hold, hid, hcreated, hnext, -⟩ := mem_markQueued hrow
    rw [hid, hcreated, hnext]
    exact hsound.timed old hold
  own := hsound.own
  jobs := hsound.jobs
  called := hsound.called
  delayed := hsound.delayed

theorem Sound.recordFailure {now : Int} {entry : OutboxRow} (hsound : store.Sound)
    (htidy : (store.recordFailure now entry).Tidy) : (store.recordFailure now entry).Sound := by
  obtain ⟨hcreated, hcalls, hqueue, hmarks⟩ := recordFailure_frame store now entry
  have hreturned : ∀ id, store.Returned id → (store.recordFailure now entry).Returned id := by
    intro id hid
    unfold Returned at hid ⊢
    exact hcalls ▸ hid
  have hfailures : ∀ failure ∈ store.failures,
      failure ∈ (store.recordFailure now entry).failures := by
    intro failure hfailure
    unfold OutboxStore.recordFailure
    split
    · exact List.mem_append_left _ hfailure
    · exact hfailure
  constructor
  · exact htidy
  · intro id hid
    rw [hcreated] at hid
    rw [hmarks]
    refine (hsound.kept id hid).imp_left ?_
    rintro ⟨row, hrow, rfl⟩
    have hmem : row.id ∈ (store.recordFailure now entry).outbox.map OutboxRow.id := by
      rw [map_id_recordFailure]
      exact List.mem_map_of_mem hrow
    exact List.mem_map.mp hmem
  · intro row hrow
    obtain ⟨old, hold, hid, -, hsame, -⟩ := mem_recordFailure hrow
    rw [hid, hsame, hmarks]
    exact hsound.marked old hold
  · intro id hid
    rw [hmarks] at hid
    rw [hcreated]
    exact ⟨(hsound.returned id hid).1, hreturned id (hsound.returned id hid).2⟩
  · intro row hrow
    obtain ⟨old, hold, hid, hcreatedAt, -, ⟨hentry, -, hnext⟩ | ⟨rfl, -⟩⟩ := mem_recordFailure hrow
    · refine .inr ⟨⟨entry.id, now, entry.attempts, now + retryDelay entry.attempts⟩, ?_,
        hentry.symm, hnext.symm⟩
      have hthere : store.hasRow entry.id = true :=
        List.any_eq_true.mpr ⟨old, hold, decide_eq_true (hid.symm.trans hentry)⟩
      rw [OutboxStore.recordFailure, if_pos hthere]
      exact List.mem_append_right _ (List.mem_singleton_self _)
    · refine (hsound.timed row hold).imp_right ?_
      rintro ⟨failure, hfailure, hsame⟩
      exact ⟨failure, hfailures failure hfailure, hsame⟩
  · rw [hcalls]
    exact hsound.own
  · rw [hqueue]
    exact hsound.jobs
  · rw [hqueue, hcalls]
    exact hsound.called
  · intro failure hfailure
    rcases mem_failures_recordFailure hfailure with hold | ⟨-, rfl⟩
    · exact hsound.delayed failure hold
    · rfl

theorem Sound.delete {ids : List String} (hsound : store.Sound)
    (hmarked : ∀ id ∈ ids, id ∈ store.created ∧ store.Marked id)
    (htidy : Tidy { store with outbox := store.outbox.filter fun row => row.id ∉ ids }) :
    Sound { store with outbox := store.outbox.filter fun row => row.id ∉ ids } where
  toTidy := htidy
  kept := by
    intro id hid
    rcases hsound.kept id hid with ⟨row, hrow, rfl⟩ | hmark
    · by_cases hids : row.id ∈ ids
      · have hqueued := (hmarked row.id hids).2 row hrow rfl
        exact .inr ((hsound.marked row hrow).mp hqueued)
      · exact .inl ⟨row, List.mem_filter.mpr ⟨hrow, decide_eq_true hids⟩, rfl⟩
    · exact .inr hmark
  marked row hrow := hsound.marked row (List.mem_of_mem_filter hrow)
  returned := hsound.returned
  timed row hrow := hsound.timed row (List.mem_of_mem_filter hrow)
  own := hsound.own
  jobs := hsound.jobs
  called := hsound.called
  delayed := hsound.delayed

/-- No statement loses a row. -/
theorem Sound.effect (hsound : store.Sound) (hprepared : store.Prepared process)
    (heffect : OutboxEffect store process after) : after.Sound := by
  have htidy := hsound.toTidy.effect heffect
  have hlater := Later.effect heffect
  cases heffect with
  | same => exact hsound
  | create hfresh => exact hsound.create hfresh htidy
  | call policy added returned => exact hsound.call hlater
  | mark => exact hsound.markQueued hprepared htidy
  | fail => exact hsound.recordFailure htidy
  | delete => exact hsound.delete hprepared htidy
  | forget =>
      exact { hsound with
        jobs := hsound.jobs.sublist (List.filter_sublist.map _)
        called := fun job hjob => hsound.called job (List.mem_of_mem_filter hjob) }

end OutboxStore

def outboxOutline : Concurrent.Outline OutboxStore OutboxProcess where
  invariant := OutboxStore.Sound
  assertion _ store process := store.Prepared process

theorem OutboxStore.Initial.sound {store : OutboxStore} (hinitial : store.Initial) :
    store.Sound := by
  obtain ⟨houtbox, hqueue, hcreated, hcalls, hmarks, hfailures⟩ := hinitial
  constructor
  · constructor <;> simp [houtbox]
  all_goals simp [houtbox, hqueue, hcreated, hcalls, hmarks, hfailures]

/-- Time changes nothing but the clock. -/
theorem outbox_drift {idOrder : String → String → Bool} {time : Int} {store after : OutboxStore}
    (hdrift : (outboxProgram idOrder).drift time store = some after) :
    after = { store with clock := time } := by
  exact (Concurrent.drift_eq hdrift).2

theorem outboxOutline_valid {idOrder : String → String → Bool} :
    outboxOutline.Valid (outboxProgram idOrder) OutboxStore.Initial fun _ _ => True where
  init _ hinitial := hinitial.sound
  drift := by
    intro time store after hdrift hsound
    rw [outbox_drift hdrift]
    exact ⟨⟨⟨hsound.unique, hsound.known⟩, hsound.kept, hsound.marked, hsound.returned,
      hsound.timed, hsound.own, hsound.jobs, hsound.called, hsound.delayed⟩,
      fun _ _ hprepared => hprepared⟩
  start := by
    intro name store process hstart _
    cases process with
    | dispatchMark now entry rest | maintainDelete ids => cases hstart
    | _ => trivial
  own := by
    intro config name choice process remaining after hholds hprocess _ hadvance
    refine ⟨hholds.1.effect (hholds.2 name process hprocess) (outboxAdvance_effect hadvance), ?_⟩
    rintro next rfl
    exact hholds.1.toTidy.prepared_next (outboxAdvance_goesOn hadvance)
  others := by
    intro config name choice process remaining after hholds _ _ hadvance other process' _ hother
    exact (hholds.2 other process' hother).later (.effect (outboxAdvance_effect hadvance))

/-! ## Delays -/

theorem retryDelay_bounds (attempts : Nat) :
    30000 ≤ retryDelay attempts ∧ retryDelay attempts ≤ 3600000 := by
  have hpow : (1 : Int) ≤ 2 ^ min attempts 7 := one_le_pow₀ (by decide)
  unfold retryDelay
  omega

theorem retryDelay_mono {attempts later : Nat} (hle : attempts ≤ later) :
    retryDelay attempts ≤ retryDelay later := by
  have hpow : (2 : Int) ^ min attempts 7 ≤ 2 ^ min later 7 :=
    pow_le_pow_right₀ (by decide) (min_le_min_right 7 hle)
  unfold retryDelay
  omega

/-- The rows that a pass has yet to mark. -/
def OutboxProcess.entries : OutboxProcess → List OutboxRow
  | .dispatchEntry _ entry rest | .dispatchMark _ entry rest => entry :: rest
  | .dispatchFailure _ entry => [entry]
  | _ => []

namespace OutboxStore

/-- A later failure of a row has read more attempts. -/
structure Steady (store : OutboxStore) : Prop extends Tidy store where
  origin : ∀ failure ∈ store.failures, failure.id ∈ store.created
  counted : ∀ failure ∈ store.failures, ∀ row ∈ store.outbox, row.id = failure.id →
    failure.attempts < row.attempts
  ordered : store.failures.Pairwise fun earlier later =>
    earlier.id = later.id → earlier.attempts < later.attempts

/-- What is known of a row that a pass has read. -/
structure Current (store : OutboxStore) (entry : OutboxRow) : Prop where
  known : entry.id ∈ store.created
  failed : ∀ failure ∈ store.failures, failure.id = entry.id → failure.attempts < entry.attempts
  row : ∀ row ∈ store.outbox, row.id = entry.id → entry.attempts ≤ row.attempts

variable {store after : OutboxStore} {process : OutboxProcess} {entry : OutboxRow}

/-- The attempts of a row grow, and a new row has a new id. -/
theorem mem_effect (heffect : OutboxEffect store process after) {row : OutboxRow}
    (hrow : row ∈ after.outbox) :
    row.id ∉ store.created ∨ ∃ old ∈ store.outbox, old.id = row.id ∧
      old.attempts ≤ row.attempts := by
  cases heffect with
  | same | call policy added returned | forget => exact .inr ⟨row, hrow, rfl, Nat.le_refl _⟩
  | create hfresh =>
      rcases List.mem_append.mp hrow with hold | hnew
      · exact .inr ⟨row, hold, rfl, Nat.le_refl _⟩
      · rw [List.mem_singleton.mp hnew]
        exact .inl hfresh
  | mark =>
      obtain ⟨old, hold, hid, -, -, hattempts, -⟩ := mem_markQueued hrow
      exact .inr ⟨old, hold, hid.symm, hattempts⟩
  | fail =>
      obtain ⟨old, hold, hid, -, -, ⟨-, hattempts, -⟩ | ⟨rfl, -⟩⟩ := mem_recordFailure hrow
      · exact .inr ⟨old, hold, hid.symm, by omega⟩
      · exact .inr ⟨row, hold, rfl, Nat.le_refl _⟩
  | delete => exact .inr ⟨row, List.mem_of_mem_filter hrow, rfl, Nat.le_refl _⟩

/-- Only the last statement of a pass adds a failure. -/
theorem failures_effect (heffect : OutboxEffect store process after)
    (hother : ∀ now entry, process ≠ .dispatchFailure now entry) :
    after.failures = store.failures := by
  cases heffect with
  | fail => exact absurd rfl (hother _ _)
  | _ => rfl

theorem Current.effect (hcurrent : store.Current entry)
    (heffect : OutboxEffect store process after)
    (hother : ∀ now entry, process ≠ .dispatchFailure now entry) : after.Current entry where
  known := (Later.effect heffect).created _ hcurrent.known
  failed := by
    rw [failures_effect heffect hother]
    exact hcurrent.failed
  row := by
    intro row hrow hid
    rcases mem_effect heffect hrow with hfresh | ⟨old, hold, holdId, hattempts⟩
    · exact absurd (hid ▸ hcurrent.known) hfresh
    · exact (hcurrent.row old hold (holdId.trans hid)).trans hattempts

theorem Steady.recordFailure {now : Int} (hsteady : store.Steady) (hcurrent : store.Current entry)
    (htidy : (store.recordFailure now entry).Tidy) : (store.recordFailure now entry).Steady where
  toTidy := htidy
  origin := by
    intro failure hfailure
    rw [(recordFailure_frame store now entry).1]
    rcases mem_failures_recordFailure hfailure with hold | ⟨-, rfl⟩
    · exact hsteady.origin failure hold
    · exact hcurrent.known
  counted := by
    intro failure hfailure row hrow hid
    obtain ⟨old, hold, hrowId, -, -, hrow⟩ := mem_recordFailure hrow
    rcases mem_failures_recordFailure hfailure with hbefore | ⟨-, rfl⟩
    · have hlt := hsteady.counted failure hbefore old hold (hrowId.symm.trans hid)
      rcases hrow with ⟨-, hattempts, -⟩ | ⟨rfl, -⟩
      · omega
      · exact hlt
    · rcases hrow with ⟨-, hattempts, -⟩ | ⟨rfl, hne⟩
      · have hle := hcurrent.row old hold (hrowId.symm.trans hid)
        dsimp only
        omega
      · exact absurd hid hne
  ordered := by
    unfold OutboxStore.recordFailure
    split
    next =>
      rw [List.pairwise_append]
      refine ⟨hsteady.ordered, List.pairwise_singleton _ _, ?_⟩
      intro earlier hearlier later hlater hid
      rw [List.mem_singleton.mp hlater] at hid ⊢
      exact hcurrent.failed earlier hearlier hid
    next => exact hsteady.ordered

/-- A failure is recorded with more attempts than those before it. -/
theorem Steady.effect (hsteady : store.Steady)
    (hcurrent : ∀ entry ∈ process.entries, store.Current entry)
    (heffect : OutboxEffect store process after) : after.Steady := by
  have htidy := hsteady.toTidy.effect heffect
  by_cases hfailure : ∃ now entry, process = .dispatchFailure now entry
  · obtain ⟨now, entry, rfl⟩ := hfailure
    cases heffect with
    | same => exact hsteady
    | fail => exact hsteady.recordFailure (hcurrent _ (List.mem_singleton_self _)) htidy
  · push Not at hfailure
    have hsame := failures_effect heffect hfailure
    refine ⟨htidy, ?_, ?_, hsame ▸ hsteady.ordered⟩
    · intro failure hmem
      exact (Later.effect heffect).created _ (hsteady.origin failure (hsame ▸ hmem))
    · intro failure hmem row hrow hid
      rw [hsame] at hmem
      rcases mem_effect heffect hrow with hfresh | ⟨old, hold, holdId, hattempts⟩
      · exact absurd (hid ▸ hsteady.origin failure hmem) hfresh
      · exact (hsteady.counted failure hmem old hold (holdId.trans hid)).trans_le hattempts

/-- A pass has read the rows as they are. -/
theorem Steady.current_of_mem (hsteady : store.Steady) (hentry : entry ∈ store.outbox) :
    store.Current entry where
  known := hsteady.known entry hentry
  failed failure hfailure hid := hsteady.counted failure hfailure entry hentry hid.symm
  row row hrow hid := by
    rw [List.inj_on_of_nodup_map hsteady.unique hrow hentry hid]

theorem Steady.current_next {next : OutboxProcess} (hsteady : store.Steady)
    (hcurrent : ∀ entry ∈ process.entries, store.Current entry)
    (heffect : OutboxEffect store process after) (hgoesOn : OutboxGoesOn store after process next) :
    ∀ entry ∈ next.entries, after.Current entry := by
  intro entry hentry
  cases hgoesOn with
  | clock | maintain | selected => cases hentry
  | read hsame hread =>
      rw [hsame]
      exact hsteady.current_of_mem (hread entry hentry)
  | called | refused | marked | unmarked =>
      refine (hcurrent entry ?_).effect heffect (by simp)
      simp only [OutboxProcess.entries, List.mem_cons, List.not_mem_nil, or_false] at hentry ⊢
      tauto

end OutboxStore

def attemptsOutline : Concurrent.Outline OutboxStore OutboxProcess where
  invariant := OutboxStore.Steady
  assertion _ store process := ∀ entry ∈ process.entries, store.Current entry

theorem schedulerLock_sound {idOrder : String → String → Bool} :
    schedulerLock.Sound (outboxProgram idOrder) where
  start := by
    intro process hstart
    cases process <;> first | rfl | cases hstart
  advance := by
    intro name choice store process next after hadvance row hrow
    cases outboxAdvance_goesOn hadvance with
    | clock | maintain | selected => cases hrow
    | read => exact .inr hrow
    | called | refused | marked | unmarked => exact .inl hrow

theorem attemptsOutline_valid {idOrder : String → String → Bool} :
    attemptsOutline.Valid (outboxProgram idOrder) OutboxStore.Initial fun config move =>
      schedulerLock.Exclusive config ∧ schedulerLock.Free config move where
  init := by
    rintro store ⟨houtbox, -, hcreated, -, -, hfailures⟩
    refine ⟨⟨?_, ?_⟩, ?_, ?_, ?_⟩ <;> simp [houtbox, hfailures]
  drift := by
    intro time store after hdrift hsteady
    rw [outbox_drift hdrift]
    refine ⟨⟨⟨hsteady.unique, hsteady.known⟩, hsteady.origin, hsteady.counted, hsteady.ordered⟩, ?_⟩
    intro name process hcurrent entry hentry
    have hrow := hcurrent entry hentry
    exact ⟨hrow.known, hrow.failed, hrow.row⟩
  start := by
    intro name store process hstart _ entry hentry
    cases process with
    | dispatchEntry now entry rest | dispatchMark now entry rest | dispatchFailure now entry =>
        cases hstart
    | _ => cases hentry
  own := by
    intro config name choice process remaining after hholds hprocess _ hadvance
    have hcurrent := hholds.2 name process hprocess
    have heffect := outboxAdvance_effect hadvance
    refine ⟨hholds.1.effect hcurrent heffect, ?_⟩
    rintro next rfl
    exact hholds.1.current_next hcurrent heffect (outboxAdvance_goesOn hadvance)
  others := by
    intro config name choice process remaining after hholds hprocess hallowed hadvance other
      process' hne hother entry hentry
    refine (hholds.2 other process' hother entry hentry).effect (outboxAdvance_effect hadvance) ?_
    -- Two passes are not in flight together.
    rintro now failed rfl
    have hheld : () ∈ schedulerLock.holds process' := by
      cases process' with
      | dispatchEntry | dispatchMark | dispatchFailure => exact List.mem_singleton_self _
      | _ => cases hentry
    exact hallowed.1 other name process' _ hne hother hprocess () hheld (List.mem_singleton_self _)

/-! ## Runs -/

namespace OutboxStore

variable {store after : OutboxStore} {process : OutboxProcess} {row : OutboxRow}

/-- A row that is not marked stays. -/
theorem exists_effect (hprepared : store.Prepared process)
    (heffect : OutboxEffect store process after) (hrow : row ∈ store.outbox)
    (hqueued : row.queuedAt = none) : ∃ kept ∈ after.outbox, kept.id = row.id := by
  have hmem : row.id ∈ store.outbox.map OutboxRow.id := List.mem_map_of_mem hrow
  cases heffect with
  | same | call policy added returned | forget => exact ⟨row, hrow, rfl⟩
  | create => exact ⟨row, List.mem_append_left _ hrow, rfl⟩
  | mark =>
      rw [← map_id_markQueued] at hmem
      exact List.mem_map.mp hmem
  | fail =>
      rw [← map_id_recordFailure] at hmem
      exact List.mem_map.mp hmem
  | @delete ids =>
      have hids : row.id ∉ ids := fun hid => (hprepared row.id hid).2 row hrow rfl hqueued
      exact ⟨row, List.mem_filter.mpr ⟨hrow, decide_eq_true hids⟩, rfl⟩

/-- A pass reads a row that is due, unless there are too many. -/
theorem mem_pending {idOrder : String → String → Bool} {now : Int} (hrow : row ∈ store.outbox)
    (hqueued : row.queuedAt = none) (hdue : row.nextAttemptAt ≤ now)
    (hfew : (store.outbox.filter (OutboxRow.pending now)).length ≤ 100) :
    row ∈ Query.findMany (OutboxRow.pending now) (dispatchOrder idOrder) 100 store.outbox := by
  have hpending : row.pending now = true := by simp [OutboxRow.pending, hqueued, hdue]
  unfold Query.findMany
  rw [List.take_of_length_le (by rwa [List.length_insertionSort]), List.mem_insertionSort]
  exact List.mem_filter.mpr ⟨hrow, hpending⟩

end OutboxStore

/-- An unmarked row is there after a step. -/
theorem outbox_next {idOrder : String → String → Bool} {config after : OutboxConfig}
    {move : OutboxMove} (hholds : outboxOutline.Holds config)
    (hnext : (outboxProgram idOrder).next config move = some after) {row : OutboxRow}
    (hrow : row ∈ config.store.outbox) (hqueued : row.queuedAt = none) :
    ∃ kept ∈ after.store.outbox, kept.id = row.id := by
  rcases Concurrent.next_store hnext with ⟨time, -, hdrift⟩ |
    ⟨name, choice, process, remaining, rfl, hprocess, hadvance⟩ | hsame
  · rw [outbox_drift hdrift]
    exact ⟨row, hrow, rfl⟩
  · exact OutboxStore.exists_effect (hholds.2 name process hprocess)
      (outboxAdvance_effect hadvance) hrow hqueued
  · rw [hsame]
    exact ⟨row, hrow, rfl⟩

/-- **The outbox.** In every run, however calls overlap and fail: a row is marked after it was
given to the queue under its own id; an event that was written is marked, or is in a row that is
not, which no step removes and which a pass reads once it is due; every call uses the id of its
row, which the queue knows once, and the queue has nothing else; a failure delays its row by thirty
seconds to an hour. Where the passes hold the lock of the scheduler, the delays of a row never
decrease. -/
theorem outbox_loses_nothing (idOrder : String → String → Bool) {config : OutboxConfig}
    (hreach : (outboxSystem idOrder).Reachable config) :
    (∀ row ∈ config.store.outbox, row.queuedAt ≠ none ↔ row.id ∈ config.store.marks) ∧
      (∀ id ∈ config.store.marks, ∃ call ∈ config.store.calls,
        call.rowId = id ∧ call.jobId = id ∧ call.returned = true) ∧
      (∀ id ∈ config.store.created, id ∉ config.store.marks → ∃ row ∈ config.store.outbox,
        row.id = id ∧ row.queuedAt = none ∧
        (∀ move after, (outboxProgram idOrder).next config move = some after →
          ∃ kept ∈ after.store.outbox, kept.id = id) ∧
        ∀ now, row.nextAttemptAt ≤ now → row.pending now = true ∧
          ((config.store.outbox.filter (OutboxRow.pending now)).length ≤ 100 →
            row ∈ Query.findMany (OutboxRow.pending now) (dispatchOrder idOrder) 100
              config.store.outbox)) ∧
      (∀ call ∈ config.store.calls, call.jobId = call.rowId) ∧
      (config.store.queue.map Prod.fst).Nodup ∧
      (∀ job ∈ config.store.queue, ∃ call ∈ config.store.calls,
        call.jobId = job.1 ∧ call.job = job.2) ∧
      (∀ row ∈ config.store.outbox, row.nextAttemptAt = row.createdAt ∨
        ∃ failure ∈ config.store.failures, failure.id = row.id ∧
          failure.nextAttemptAt = row.nextAttemptAt) ∧
      (∀ failure ∈ config.store.failures,
        failure.dispatchedAt + 30000 ≤ failure.nextAttemptAt ∧
          failure.nextAttemptAt ≤ failure.dispatchedAt + 3600000) ∧
      ((outboxSystem idOrder).ReachableWhile schedulerLock.Free config →
        config.store.failures.Pairwise fun earlier later => earlier.id = later.id →
          earlier.nextAttemptAt - earlier.dispatchedAt ≤
            later.nextAttemptAt - later.dispatchedAt) := by
  have hholds := outboxOutline_valid.holds hreach
  have hsound := hholds.1
  refine ⟨hsound.marked, ?_, ?_, hsound.own, hsound.jobs, hsound.called, hsound.timed, ?_, ?_⟩
  · intro id hid
    obtain ⟨call, hcall, hrow, hreturned⟩ := (hsound.returned id hid).2
    exact ⟨call, hcall, hrow, (hsound.own call hcall).trans hrow, hreturned⟩
  · intro id hid hunmarked
    obtain ⟨row, hrow, rfl⟩ := (hsound.kept id hid).resolve_right hunmarked
    have hqueued : row.queuedAt = none := by
      by_contra hset
      exact hunmarked ((hsound.marked row hrow).mp hset)
    refine ⟨row, hrow, rfl, hqueued, ?_, ?_⟩
    · intro move after hnext
      exact outbox_next hholds hnext hrow hqueued
    · intro now hdue
      exact ⟨by simp [OutboxRow.pending, hqueued, hdue],
        OutboxStore.mem_pending hrow hqueued hdue⟩
  · intro failure hfailure
    have hdelay := hsound.delayed failure hfailure
    have hbounds := retryDelay_bounds failure.attempts
    omega
  · intro hlocked
    have hsteady := (Concurrent.Locks.outline_holds_of_free schedulerLock_sound
      (fun _ _ hfree => hfree) attemptsOutline_valid hlocked).1
    refine hsteady.ordered.imp_of_mem ?_
    intro earlier later hearlier hlater hattempts hid
    have hmono := retryDelay_mono (hattempts hid).le
    have hfirst := hsound.delayed earlier hearlier
    have hsecond := hsound.delayed later hlater
    omega

/-! ## Sample -/

def emptyOutbox : OutboxStore := ⟨0, [], [], [], [], [], []⟩

theorem reachable_emptyOutbox {idOrder : String → String → Bool}
    {allowed : OutboxConfig → OutboxMove → Prop} :
    (outboxSystem idOrder).ReachableWhile allowed (Concurrent.idle emptyOutbox) :=
  .init ⟨⟨rfl, rfl, rfl, rfl, rfl, rfl⟩, fun _ => rfl⟩

/-- Mails are not switched off, and the call fails or not. -/
def outboxChoice (uuid : String) (fails effect : Bool) : OutboxChoice :=
  ⟨uuid, fails, effect, ⟨true, true, true, true, true⟩, []⟩

/-- The events of the sample. -/
def publishedJob (occurredAt : Int) : NotificationJob :=
  ⟨"document.publish", "doc", "alice", occurredAt, none, none⟩

/-- The first call fails, the second adds the job but does not return, the third returns and the
row is marked. The call for another event returns, but the row is not marked and stays. -/
theorem outbox_loses_nothing_after_failures :
    ∃ config, (outboxSystem fun left right => decide (left ≤ right)).Reachable config ∧
      config.store.queue = [("event", publishedJob 0), ("other", publishedJob 90000)] ∧
      config.store.outbox = [⟨"event", publishedJob 0, 0, 90000, some 90000, 3⟩,
        ⟨"other", publishedJob 90000, 90000, 120000, none, 1⟩] ∧
      config.store.failures = [⟨"event", 0, 0, 30000⟩, ⟨"event", 30000, 1, 90000⟩,
        ⟨"other", 90000, 0, 120000⟩] ∧
      (∃ call ∈ config.store.calls,
        call.rowId = "event" ∧ call.jobId = "event" ∧ call.returned = true) ∧
      (∀ move after, (outboxProgram fun left right => decide (left ≤ right)).next config move =
        some after → ∃ kept ∈ after.store.outbox, kept.id = "other") ∧
      config.store.failures.Pairwise fun earlier later => earlier.id = later.id →
        earlier.nextAttemptAt - earlier.dispatchedAt ≤
          later.nextAttemptAt - later.dispatchedAt := by
  have hrun : (Concurrent.executeNamed (outboxProgram fun left right => decide (left ≤ right)) [0]
      (schedulerLock.isFree [0]) (Concurrent.idle emptyOutbox)
      [.start 0 (.persistAudit "document.publish" "doc" "alice" "success" true),
        .advance 0 (outboxChoice "event" false false), .start 0 .dispatchOutbox,
        .advance 0 (outboxChoice "" false false), .advance 0 (outboxChoice "" false false),
        .advance 0 (outboxChoice "" true false), .advance 0 (outboxChoice "" false false),
        .drift 30000, .start 0 .dispatchOutbox, .advance 0 (outboxChoice "" false false),
        .advance 0 (outboxChoice "" false false), .advance 0 (outboxChoice "" true true),
        .advance 0 (outboxChoice "" false false), .drift 90000, .start 0 .dispatchOutbox,
        .advance 0 (outboxChoice "" false false), .advance 0 (outboxChoice "" false false),
        .advance 0 (outboxChoice "" false false), .advance 0 (outboxChoice "" false false),
        .start 0 (.persistAudit "document.publish" "doc" "alice" "success" true),
        .advance 0 (outboxChoice "other" false false), .start 0 .dispatchOutbox,
        .advance 0 (outboxChoice "" false false), .advance 0 (outboxChoice "" false false),
        .advance 0 (outboxChoice "" false false), .advance 0 (outboxChoice "" true false),
        .advance 0 (outboxChoice "" false false)]).bind
        (Concurrent.settled [0]) =
      some ⟨90000, [⟨"event", publishedJob 0, 0, 90000, some 90000, 3⟩,
          ⟨"other", publishedJob 90000, 90000, 120000, none, 1⟩],
        [("event", publishedJob 0), ("other", publishedJob 90000)], ["event", "other"],
        [⟨"event", publishedJob 0, "event", false⟩, ⟨"event", publishedJob 0, "event", false⟩,
          ⟨"event", publishedJob 0, "event", true⟩,
          ⟨"other", publishedJob 90000, "other", true⟩],
        ["event"],
        [⟨"event", 0, 0, 30000⟩, ⟨"event", 30000, 1, 90000⟩, ⟨"other", 90000, 0, 120000⟩]⟩ := by
    decide
  have hlocked : (outboxSystem _).ReachableWhile schedulerLock.Free _ :=
    Concurrent.reachable_settled
      (fun _ _ hnamed hfree => Concurrent.Locks.free_of_isFree hnamed hfree) _
      reachable_emptyOutbox hrun
  have hreach : (outboxSystem _).Reachable _ := hlocked.mono fun _ _ _ => trivial
  obtain ⟨-, hmarked, hkept, -, -, -, -, -, hdelays⟩ := outbox_loses_nothing _ hreach
  obtain ⟨row, -, -, -, hstays, -⟩ := hkept "other" (by decide) (by decide)
  exact ⟨_, hreach, rfl, rfl, rfl, hmarked "event" (by decide), hstays, hdelays hlocked⟩

end IsmsPortal
