import IsmsPortal.Foundation.Checks
import IsmsPortal.Foundation.Interleaving
import IsmsPortal.Foundation.IsoDate
import IsmsPortal.Foundation.JsString
import IsmsPortal.Foundation.Query
import IsmsPortal.Foundation.Table

/-! # Risk exceptions

A risk exception is created pending and decided by its approver. Thirty days
before it expires a refresher makes it due for review, and it is decided again.
`decideRiskException` reads the exception, checks it, and updates it by its id. The
`kpi` and list endpoints read the approved exceptions that expire soon, and update
each of them by its id. The worker does the same in one transaction; it holds the
rows it has updated until its commit, so that its updates are made there.
-/

namespace IsmsPortal

open Foundation

inductive ExceptionStatus
  | pending
  | approved
  | rejected
  | reviewDue
deriving DecidableEq

/-- A decision is awaited. -/
def ExceptionStatus.isOpen : ExceptionStatus → Bool
  | .pending | .reviewDue => true
  | .approved | .rejected => false

/-- A row of `RiskException`. The last field is no column: the decisions since the
last period began in which one was awaited. -/
structure RiskException where
  id : String
  title : String
  owner : String
  justification : String
  compensatingControl : String
  approver : String
  status : ExceptionStatus
  expiresAt : Int
  approvedBy : Option String
  approvedAt : Option Int
  reviewNotifiedAt : Option Int
  decisions : Nat
deriving DecidableEq

structure ExceptionStore where
  clock : Int
  exceptions : List RiskException
deriving DecidableEq

/-- The body of `createRiskException`. -/
structure RiskExceptionDto where
  title : String
  owner : String
  justification : String
  compensatingControl : String
  approver : String
  expiresAt : Int
deriving DecidableEq

/-- The request and the body of `decideRiskException`. -/
structure ExceptionDecision where
  id : String
  username : String
  approve : Bool
  expiresAt : Option Int
deriving DecidableEq

def ExceptionDecision.status (decision : ExceptionDecision) : ExceptionStatus :=
  if decision.approve then .approved else .rejected

/-- Where a request is, and what it has read. -/
inductive ExceptionProcess
  | createRiskException (body : RiskExceptionDto)
  | createRow (body : RiskExceptionDto)
  | decideRiskException (decision : ExceptionDecision)
  | decideCheck (decision : ExceptionDecision) (found : Option RiskException)
  | decideData (decision : ExceptionDecision) (existing : RiskException) (expiresAt checkedAt : Int)
  | decideUpdate (decision : ExceptionDecision) (existing : RiskException)
      (expiresAt approvedAt : Int)
  | refreshRiskExceptions
  | refreshFind (reviewAt : Int)
  | refreshItems (items : List RiskException)
  | schedule
  | scheduleFind (reviewAt : Int)
  | scheduleCommit (items : List RiskException)
deriving DecidableEq

/-- The id of a new row, and the answer of a query without order. -/
structure ExceptionChoice where
  id : String
  rows : List RiskException

/-! ## Endpoints -/

/-- What the refreshers look for. -/
def RiskException.isDue (reviewAt : Int) (row : RiskException) : Bool :=
  row.status = .approved && row.reviewNotifiedAt.isNone && row.expiresAt ≤ reviewAt

/-- The row after a refresher. A period begins unless one was open. -/
def RiskException.refresh (now : Int) (row : RiskException) : RiskException :=
  { row with
    status := .reviewDue
    reviewNotifiedAt := some now
    decisions := if row.status.isOpen then row.decisions else 0 }

/-- The row after a decision. -/
def RiskException.decide (decision : ExceptionDecision) (expiresAt approvedAt : Int)
    (row : RiskException) : RiskException :=
  { row with
    status := decision.status
    approvedBy := some decision.username
    approvedAt := some approvedAt
    expiresAt := expiresAt
    reviewNotifiedAt := none
    decisions := row.decisions + 1 }

theorem RiskException.refresh_id (now : Int) (row : RiskException) :
    (row.refresh now).id = row.id :=
  rfl

theorem RiskException.decide_id (decision : ExceptionDecision) (expiresAt approvedAt : Int)
    (row : RiskException) : (row.decide decision expiresAt approvedAt).id = row.id :=
  rfl

namespace ExceptionStore

variable (store : ExceptionStore)

def find (id : String) : Option RiskException := store.exceptions.find? (·.id = id)

/-- `riskException.update` of the rows with the ids. -/
def update (ids : List String) (f : RiskException → RiskException) : ExceptionStore :=
  { store with exceptions := store.exceptions.map fun row => if row.id ∈ ids then f row else row }

/-- `riskException.create`. -/
def create (id : String) (body : RiskExceptionDto) : ExceptionStore :=
  { store with exceptions := store.exceptions ++
      [⟨id, JsString.trim body.title, JsString.trim body.owner, JsString.trim body.justification,
        JsString.trim body.compensatingControl, JsString.trim body.approver, .pending,
        body.expiresAt, none, none, none, 0⟩] }

end ExceptionStore

section Program

variable (toLowerCase : String → String)

/-- The checks of `createRiskException`. -/
def checkCreate (now : Int) (body : RiskExceptionDto) : Except String Unit := do
  if toLowerCase (JsString.trim body.owner) = toLowerCase (JsString.trim body.approver) then
    throw "Owner and approver must be distinct"
  if body.expiresAt ≤ now then throw "Expiry must be in the future"

/-- The checks of `decideRiskException`, with the exception and the expiry. -/
def checkDecision (now : Int) (decision : ExceptionDecision) (found : Option RiskException) :
    Except String (RiskException × Int) := do
  let some existing := found | throw "Not Found"
  if existing.status.isOpen = false then throw "Exception already decided"
  if toLowerCase existing.approver ≠ toLowerCase decision.username then
    throw "Only the designated approver can decide"
  let expiresAt := decision.expiresAt.getD existing.expiresAt
  if decision.approve = true ∧ existing.status = .reviewDue ∧ expiresAt ≤ now + days 30 then
    throw "Renewal expiry must be more than 30 days away"
  return (existing, expiresAt)

/-- Run the next statement of a process. The date of the check and that of the update
are two readings of the clock. -/
def exceptionAdvance (choice : ExceptionChoice) (store : ExceptionStore) :
    ExceptionProcess → Option (Option ExceptionProcess × ExceptionStore)
  | .createRiskException body =>
      some ((checkCreate toLowerCase store.clock body).toOption.map fun _ => .createRow body, store)
  | .createRow body =>
      if (store.find choice.id).isSome then none else some (none, store.create choice.id body)
  | .decideRiskException decision =>
      some (some (.decideCheck decision (store.find decision.id)), store)
  | .decideCheck decision found =>
      some ((checkDecision toLowerCase store.clock decision found).toOption.map fun checked =>
        .decideData decision checked.1 checked.2 store.clock, store)
  | .decideData decision existing expiresAt _ =>
      some (some (.decideUpdate decision existing expiresAt store.clock), store)
  | .decideUpdate decision _ expiresAt approvedAt =>
      some (none, store.update [decision.id] (.decide decision expiresAt approvedAt))
  | .refreshRiskExceptions => some (some (.refreshFind (store.clock + days 30)), store)
  | .refreshFind reviewAt =>
      if Query.IsSelection (RiskException.isDue reviewAt) 100 store.exceptions choice.rows then
        some (some (.refreshItems choice.rows), store)
      else none
  | .refreshItems [] => some (none, store)
  | .refreshItems (item :: items) =>
      some (some (.refreshItems items), store.update [item.id] (.refresh store.clock))
  | .schedule => some (some (.scheduleFind (store.clock + days 30)), store)
  | .scheduleFind reviewAt =>
      if Query.IsSelection (RiskException.isDue reviewAt) 100 store.exceptions choice.rows then
        some (some (.scheduleCommit choice.rows), store)
      else none
  | .scheduleCommit items =>
      some (none, store.update (items.map RiskException.id) (.refresh store.clock))

end Program

def ExceptionProcess.initial : ExceptionProcess → Bool
  | .createRiskException _ | .decideRiskException _ | .refreshRiskExceptions | .schedule => true
  | _ => false

def exceptionProgram (toLowerCase : String → String) :
    Concurrent ExceptionStore ExceptionProcess ExceptionChoice where
  drift time store := if store.clock ≤ time then some { store with clock := time } else none
  start := ExceptionProcess.initial
  advance _ := exceptionAdvance toLowerCase

abbrev ExceptionConfig : Type := Concurrent.Config ExceptionStore ExceptionProcess

abbrev ExceptionMove : Type := Concurrent.Move ExceptionProcess ExceptionChoice

/-- Runs from an empty table. -/
abbrev exceptionSystem (toLowerCase : String → String) : System ExceptionConfig ExceptionMove :=
  (exceptionProgram toLowerCase).system fun store => store.exceptions = []

/-- No update comes too late: a decision finds the exception open, and due for review
only if it was read so; a refresher does not find it rejected; and a renewal gets its
date while its expiry is still more than thirty days ahead. -/
def Punctual (config : ExceptionConfig) : ExceptionProcess → Prop
  | .decideData decision existing expiresAt _ => decision.approve = true →
      existing.status = .reviewDue → config.store.clock + days 30 < expiresAt
  | .decideUpdate decision existing _ _ => ∀ row ∈ config.store.find decision.id,
      row.status.isOpen = true ∧
        (row.status = .reviewDue → decision.approve = true → existing.status = .reviewDue)
  | .refreshItems (item :: _) => ∀ row ∈ config.store.find item.id, row.status ≠ .rejected
  | .scheduleCommit items => ∀ item ∈ items, ∀ row ∈ config.store.find item.id,
      row.status ≠ .rejected
  | _ => True

instance (config : ExceptionConfig) (process : ExceptionProcess) :
    Decidable (Punctual config process) :=
  match process with
  | .decideData decision existing expiresAt _ => inferInstanceAs (Decidable
      (decision.approve = true → existing.status = .reviewDue →
        config.store.clock + days 30 < expiresAt))
  | .decideUpdate decision existing _ _ => inferInstanceAs (Decidable
      (∀ row ∈ config.store.find decision.id, row.status.isOpen = true ∧
        (row.status = .reviewDue → decision.approve = true → existing.status = .reviewDue)))
  | .refreshItems (item :: _) => inferInstanceAs (Decidable
      (∀ row ∈ config.store.find item.id, row.status ≠ .rejected))
  | .scheduleCommit items => inferInstanceAs (Decidable
      (∀ item ∈ items, ∀ row ∈ config.store.find item.id, row.status ≠ .rejected))
  | .refreshItems [] | .createRiskException .. | .createRow .. | .decideRiskException ..
  | .decideCheck .. | .refreshRiskExceptions | .refreshFind .. | .schedule
  | .scheduleFind .. => .isTrue trivial

/-- What one step may do to an exception: a rejected one stays rejected, an
approved one may become due for review, and a renewal lasts for more than thirty
days after its date. -/
structure RiskException.Follows (before after : RiskException) : Prop where
  rejected : before.status = .rejected → after.status = .rejected
  approved : before.status = .approved → after.status = .approved ∨ after.status = .reviewDue
  renewed : before.status = .reviewDue → after.status = .approved →
    ∃ approvedAt, after.approvedAt = some approvedAt ∧ approvedAt + days 30 < after.expiresAt

theorem RiskException.Follows.refl (row : RiskException) : row.Follows row where
  rejected hrejected := hrejected
  approved := .inl
  renewed hdue happroved := by
    rw [hdue] at happroved
    cases happroved

/-! ## One statement -/

section Steps

variable {toLowerCase : String → String} {choice : ExceptionChoice} {store after : ExceptionStore}
variable {process : ExceptionProcess} {remaining : Option ExceptionProcess}

/-- What a statement writes: nothing, a new exception, a decision, or a refresh. -/
theorem exceptionAdvance_cases
    (hadvance : exceptionAdvance toLowerCase choice store process = some (remaining, after)) :
    after = store ∨
      (∃ body, store.find choice.id = none ∧ after = store.create choice.id body) ∨
      (∃ decision existing expiresAt approvedAt,
        process = .decideUpdate decision existing expiresAt approvedAt ∧
        after = store.update [decision.id] (.decide decision expiresAt approvedAt)) ∨
      (∃ item items, process = .refreshItems (item :: items) ∧
        after = store.update [item.id] (.refresh store.clock)) ∨
      ∃ items, process = .scheduleCommit items ∧
        after = store.update (items.map RiskException.id) (.refresh store.clock) := by
  cases process with
  | createRow body =>
      simp only [exceptionAdvance] at hadvance
      split at hadvance
      next => cases hadvance
      next hfresh =>
        cases hadvance
        exact .inr (.inl ⟨body, by simpa using hfresh, rfl⟩)
  | decideUpdate decision existing expiresAt approvedAt =>
      cases hadvance
      exact .inr (.inr (.inl ⟨decision, existing, expiresAt, approvedAt, rfl, rfl⟩))
  | refreshFind reviewAt =>
      simp only [exceptionAdvance] at hadvance
      split at hadvance <;> cases hadvance
      exact .inl rfl
  | refreshItems items =>
      cases items with
      | nil =>
          cases hadvance
          exact .inl rfl
      | cons item items =>
          cases hadvance
          exact .inr (.inr (.inr (.inl ⟨item, items, rfl, rfl⟩)))
  | scheduleFind reviewAt =>
      simp only [exceptionAdvance] at hadvance
      split at hadvance <;> cases hadvance
      exact .inl rfl
  | scheduleCommit items =>
      cases hadvance
      exact .inr (.inr (.inr (.inr ⟨items, rfl, rfl⟩)))
  | _ =>
      cases hadvance
      exact .inl rfl

/-- A renewal that is about to be written lasts for more than thirty days after its date. -/
def ExceptionProcess.Checked : ExceptionProcess → Prop
  | .decideUpdate decision existing expiresAt approvedAt =>
      decision.approve = true → existing.status = .reviewDue → approvedAt + days 30 < expiresAt
  | _ => True

theorem ExceptionProcess.checked_advance {config : ExceptionConfig}
    (hpunctual : Punctual config process)
    (hadvance : exceptionAdvance toLowerCase choice config.store process =
      some (remaining, after)) : ∀ next, remaining = some next → next.Checked := by
  intro next hnext
  cases process with
  | decideCheck decision found =>
      cases hadvance
      obtain ⟨-, -, rfl⟩ := Option.map_eq_some_iff.mp hnext
      trivial
  | decideData decision existing expiresAt checkedAt =>
      cases hadvance
      cases hnext
      exact hpunctual
  | createRiskException body =>
      cases hadvance
      obtain ⟨-, -, rfl⟩ := Option.map_eq_some_iff.mp hnext
      trivial
  | createRow body =>
      simp only [exceptionAdvance] at hadvance
      split at hadvance <;> cases hadvance
      cases hnext
  | refreshFind reviewAt =>
      simp only [exceptionAdvance] at hadvance
      split at hadvance <;> cases hadvance
      cases hnext
      trivial
  | refreshItems items =>
      cases items with
      | nil =>
          cases hadvance
          cases hnext
      | cons item items =>
          cases hadvance
          cases hnext
          trivial
  | scheduleFind reviewAt =>
      simp only [exceptionAdvance] at hadvance
      split at hadvance <;> cases hadvance
      cases hnext
      trivial
  | _ =>
      cases hadvance
      cases hnext <;> trivial

end Steps

/-! ## Punctual runs -/

/-- An open period has no decision yet, and a closed one has one. -/
def RiskException.Counted (row : RiskException) : Prop :=
  row.decisions ≤ 1 ∧ (row.status.isOpen = true → row.decisions = 0)

/-- Every renewal about to be written lasts long enough. -/
def exceptionOutline : Concurrent.Outline ExceptionStore ExceptionProcess where
  invariant store := ∀ id row, store.find id = some row → row.Counted
  assertion _ _ process := process.Checked

section Rows

variable {store : ExceptionStore} {row : RiskException}

theorem ExceptionStore.find_update {f : RiskException → RiskException} {ids : List String}
    (hf : ∀ row, (f row).id = row.id) (id : String) :
    (store.update ids f).find id =
      (store.find id).map fun row => if row.id ∈ ids then f row else row := by
  apply Table.find?_key_map
  intro row
  split
  · exact hf row
  · rfl

theorem ExceptionStore.find_id {id : String} (hfound : store.find id = some row) : row.id = id := by
  simpa using List.find?_some hfound

/-- An update by ids changes the rows with these ids alone. -/
theorem ExceptionStore.find_update_row {f : RiskException → RiskException} {ids : List String}
    {id : String} (hf : ∀ row, (f row).id = row.id) (hfound : store.find id = some row)
    (hupdate : ∀ target ∈ ids, ∀ old, store.find target = some old →
      old.Follows (f old) ∧ (old.Counted → (f old).Counted)) :
    ∃ row', (store.update ids f).find id = some row' ∧ row.Follows row' ∧
      (row.Counted → row'.Counted) := by
  rw [find_update hf, hfound]
  refine ⟨_, rfl, ?_⟩
  dsimp only
  split
  next hid =>
    rw [find_id hfound] at hid
    exact hupdate id hid row hfound
  next => exact ⟨.refl row, fun hcounted => hcounted⟩

/-- A new exception does not hide an old one. -/
theorem ExceptionStore.find_create {new : String} {body : RiskExceptionDto}
    (id : String) : (store.create new body).find id = store.find id ∨
      store.find id = none ∧ ∃ row, (store.create new body).find id = some row ∧
        row.status = .pending ∧ row.decisions = 0 := by
  unfold ExceptionStore.find ExceptionStore.create
  rw [List.find?_append]
  cases hold : store.exceptions.find? (·.id = id) with
  | some old => exact .inl rfl
  | none =>
      rw [Option.none_or, List.find?_singleton]
      split
      · exact .inr ⟨rfl, _, rfl, rfl, rfl⟩
      · exact .inl rfl

theorem RiskException.Counted.refresh (hcounted : row.Counted) (now : Int) :
    (row.refresh now).Counted := by
  unfold RiskException.refresh
  constructor
  · dsimp only
    split
    · exact hcounted.1
    · exact Nat.zero_le 1
  · intro _
    dsimp only
    split
    next hopen => exact hcounted.2 hopen
    next => rfl

theorem RiskException.Counted.decide (hcounted : row.Counted) (hopen : row.status.isOpen = true)
    (decision : ExceptionDecision) (expiresAt approvedAt : Int) :
    (row.decide decision expiresAt approvedAt).Counted := by
  unfold RiskException.decide
  refine ⟨Nat.succ_le_succ (Nat.le_of_eq (hcounted.2 hopen)), fun hstill => ?_⟩
  unfold ExceptionDecision.status at hstill
  dsimp only at hstill
  split at hstill <;> cases hstill

theorem RiskException.Follows.refreshed (hlive : row.status ≠ .rejected) (now : Int) :
    row.Follows (row.refresh now) where
  rejected hrejected := absurd hrejected hlive
  approved _ := .inr rfl
  renewed _ happroved := by cases happroved

theorem RiskException.Follows.decided (hopen : row.status.isOpen = true)
    {decision : ExceptionDecision} {expiresAt approvedAt : Int}
    (hrenewal : row.status = .reviewDue → decision.approve = true →
      approvedAt + days 30 < expiresAt) :
    row.Follows (row.decide decision expiresAt approvedAt) where
  rejected hrejected := by
    rw [hrejected] at hopen
    cases hopen
  approved happroved := by
    rw [happroved] at hopen
    cases hopen
  renewed hdue happroved := by
    refine ⟨approvedAt, rfl, hrenewal hdue ?_⟩
    cases happrove : decision.approve with
    | true => rfl
    | false => simp [RiskException.decide, ExceptionDecision.status, happrove] at happroved

end Rows

section Runs

variable {toLowerCase : String → String} {config : ExceptionConfig} {name : Nat}
variable {process : ExceptionProcess} {choice : ExceptionChoice} {after : ExceptionStore}
variable {remaining : Option ExceptionProcess}

/-- What a punctual statement does to an exception. -/
theorem exceptionAdvance_row (hchecked : process.Checked) (hpunctual : Punctual config process)
    (hadvance : exceptionAdvance toLowerCase choice config.store process =
      some (remaining, after)) {id : String} {row : RiskException}
    (hfound : config.store.find id = some row) :
    ∃ row', after.find id = some row' ∧ row.Follows row' ∧ (row.Counted → row'.Counted) := by
  rcases exceptionAdvance_cases hadvance with rfl | ⟨body, -, rfl⟩ |
    ⟨decision, existing, expiresAt, approvedAt, rfl, rfl⟩ | ⟨item, items, rfl, rfl⟩ |
    ⟨items, rfl, rfl⟩
  · exact ⟨row, hfound, .refl row, fun hcounted => hcounted⟩
  · rcases ExceptionStore.find_create id with hsame | ⟨hnone, -⟩
    · exact ⟨row, hsame.trans hfound, .refl row, fun hcounted => hcounted⟩
    · rw [hfound] at hnone
      cases hnone
  · refine ExceptionStore.find_update_row (RiskException.decide_id _ _ _) hfound ?_
    intro target htarget old hold
    rw [List.mem_singleton.mp htarget] at hold
    obtain ⟨hopen, hread⟩ := hpunctual old hold
    refine ⟨.decided hopen fun hdue happrove => ?_, fun hcounted => hcounted.decide hopen ..⟩
    exact hchecked happrove (hread hdue happrove)
  · refine ExceptionStore.find_update_row (RiskException.refresh_id _) hfound ?_
    intro target htarget old hold
    rw [List.mem_singleton.mp htarget] at hold
    exact ⟨.refreshed (hpunctual old hold) _, fun hcounted => hcounted.refresh _⟩
  · refine ExceptionStore.find_update_row (RiskException.refresh_id _) hfound ?_
    intro target htarget old hold
    obtain ⟨item, hitem, rfl⟩ := List.mem_map.mp htarget
    exact ⟨.refreshed (hpunctual item hitem old hold) _, fun hcounted => hcounted.refresh _⟩

/-- An exception that a statement leaves was there before, or is new. -/
theorem exceptionAdvance_new
    (hadvance : exceptionAdvance toLowerCase choice config.store process =
      some (remaining, after)) {id : String} (hnone : config.store.find id = none)
    {row : RiskException} (hfound : after.find id = some row) : row.Counted := by
  rcases exceptionAdvance_cases hadvance with rfl | ⟨body, -, rfl⟩ |
    ⟨decision, existing, expiresAt, approvedAt, rfl, rfl⟩ | ⟨item, items, rfl, rfl⟩ |
    ⟨items, rfl, rfl⟩
  · rw [hnone] at hfound
    cases hfound
  · rcases ExceptionStore.find_create id with hsame | ⟨-, new, hnew, -, hdecisions⟩
    · rw [hsame, hnone] at hfound
      cases hfound
    · rw [hnew] at hfound
      cases hfound
      exact ⟨by omega, fun _ => hdecisions⟩
  · rw [ExceptionStore.find_update (RiskException.decide_id _ _ _), hnone] at hfound
    cases hfound
  · rw [ExceptionStore.find_update (RiskException.refresh_id _), hnone] at hfound
    cases hfound
  · rw [ExceptionStore.find_update (RiskException.refresh_id _), hnone] at hfound
    cases hfound

theorem exceptionOutline_valid : exceptionOutline.Valid (exceptionProgram toLowerCase)
    (fun store => store.exceptions = []) (Concurrent.Guarded Punctual) where
  init := by
    intro store hempty id row hfound
    rw [ExceptionStore.find, hempty] at hfound
    cases hfound
  drift := by
    intro time store after hdrift hcounted
    obtain ⟨-, rfl⟩ := Concurrent.drift_eq hdrift
    exact ⟨hcounted, fun _ _ hchecked => hchecked⟩
  start := by
    intro name store process hstart _
    cases process <;> trivial
  own := by
    intro config name choice process remaining after hholds hprocess hguarded hadvance
    have hchecked := hholds.2 name process hprocess
    have hpunctual := hguarded process hprocess
    refine ⟨fun id row hfound => ?_, ExceptionProcess.checked_advance hpunctual hadvance⟩
    cases hbefore : config.store.find id with
    | none => exact exceptionAdvance_new hadvance hbefore hfound
    | some before =>
        obtain ⟨row', hrow, -, hcounted⟩ :=
          exceptionAdvance_row hchecked hpunctual hadvance hbefore
        rw [hfound] at hrow
        cases hrow
        exact hcounted (hholds.1 id before hbefore)
  others := by
    intro config name choice process remaining after hholds _ _ _ other process' _ hother
    exact hholds.2 other process' hother

/-- One move of a punctual run. -/
theorem exception_step
    (hreach : (exceptionSystem toLowerCase).ReachableWhile (Concurrent.Guarded Punctual) config)
    {move : ExceptionMove} {later : ExceptionConfig}
    (hguarded : Concurrent.Guarded Punctual config move)
    (hnext : (exceptionProgram toLowerCase).next config move = some later)
    {id : String} {row : RiskException} (hfound : config.store.find id = some row) :
    ∃ row', later.store.find id = some row' ∧ row.Follows row' := by
  have hholds := exceptionOutline_valid.holds hreach
  rcases Concurrent.next_store hnext with ⟨time, -, hdrift⟩ |
    ⟨name, choice, process, remaining, rfl, hprocess, hadvance⟩ | hsame
  · rw [(Concurrent.drift_eq hdrift).2]
    exact ⟨row, hfound, .refl row⟩
  · obtain ⟨row', hrow, hfollows, -⟩ := exceptionAdvance_row (hholds.2 name process hprocess)
      (hguarded process hprocess) hadvance hfound
    exact ⟨row', hrow, hfollows⟩
  · rw [hsame]
    exact ⟨row, hfound, .refl row⟩

/-- **Risk exceptions.** In every punctual run each period receives at most one
decision, every step is one an exception may take, and a rejected exception stays
rejected in every later state. -/
theorem risk_exception_decisions_final
    (hreach : (exceptionSystem toLowerCase).ReachableWhile (Concurrent.Guarded Punctual) config) :
    (∀ id row, config.store.find id = some row → row.decisions ≤ 1) ∧
    (∀ move later, Concurrent.Guarded Punctual config move →
      (exceptionProgram toLowerCase).next config move = some later →
      ∀ id row, config.store.find id = some row →
        ∃ row', later.store.find id = some row' ∧ row.Follows row') ∧
    ∀ later,
      (exceptionSystem toLowerCase).StepsWhile (Concurrent.Guarded Punctual) config later →
      ∀ id row, config.store.find id = some row → row.status = .rejected →
        ∃ row', later.store.find id = some row' ∧ row'.status = .rejected := by
  refine ⟨?_, ?_, ?_⟩
  · intro id row hfound
    exact ((exceptionOutline_valid.holds hreach).1 id row hfound).1
  · intro move later hguarded hnext id row hfound
    exact exception_step hreach hguarded hnext hfound
  · intro later hsteps id row hfound hrejected
    induction hsteps with
    | refl => exact ⟨row, hfound, hrejected⟩
    | tail hsteps hguarded hstep ih =>
        obtain ⟨middle, hmiddle, hstill⟩ := ih
        obtain ⟨last, hlast, hfollows⟩ :=
          exception_step (hreach.steps hsteps) hguarded hstep hmiddle
        exact ⟨last, hlast, hfollows.rejected hstill⟩

end Runs

/-! ## Sample -/

/-- An exception that expires in ten days, in a given state. -/
def sampleException (status : ExceptionStatus) (approvedAt reviewNotifiedAt : Option Int)
    (decisions : Nat) : RiskException :=
  ⟨"exception", "Legacy TLS", "alice", "vendor", "proxy", "bob", status, days 10,
    approvedAt.map fun _ => "bob", approvedAt, reviewNotifiedAt, decisions⟩

def noExceptions : ExceptionStore := ⟨0, []⟩

theorem reachable_noExceptions {allowed : ExceptionConfig → ExceptionMove → Prop} :
    (exceptionSystem String.toLower).ReachableWhile allowed (Concurrent.idle noExceptions) :=
  .init ⟨rfl, fun _ => rfl⟩

/-- Alice's exception is created. -/
def createMoves : List ExceptionMove :=
  [.start 0 (.createRiskException ⟨"Legacy TLS", "alice", "vendor", "proxy", "bob", days 10⟩),
    .advance 0 ⟨"", []⟩, .advance 0 ⟨"exception", []⟩]

/-- Bob's decision, up to its update. -/
def decideMoves (name : Nat) (approve : Bool) : List ExceptionMove :=
  [.start name (.decideRiskException ⟨"exception", "bob", approve, none⟩), .advance name ⟨"", []⟩,
    .advance name ⟨"", []⟩, .advance name ⟨"", []⟩]

/-- A refresher that reads the approved exception. -/
def refreshMoves (name : Nat) (process : ExceptionProcess) : List ExceptionMove :=
  [.start name process, .advance name ⟨"", []⟩,
    .advance name ⟨"", [sampleException .approved (some 0) none 1]⟩]

/-- Bob rejects the exception. -/
theorem risk_exception_decisions_final_rejected :
    (exceptionSystem String.toLower).ReachableWhile (Concurrent.Guarded Punctual)
      (Concurrent.idle ⟨0, [sampleException .rejected (some 0) none 1]⟩) ∧
    ∀ later, (exceptionSystem String.toLower).StepsWhile (Concurrent.Guarded Punctual)
      (Concurrent.idle ⟨0, [sampleException .rejected (some 0) none 1]⟩) later →
      ∃ row, later.store.find "exception" = some row ∧ row.status = .rejected := by
  have hrun : (Concurrent.executeNamed (exceptionProgram String.toLower) [0]
      (Concurrent.isGuarded Punctual) (Concurrent.idle noExceptions)
      (createMoves ++ decideMoves 0 false ++ [.advance 0 ⟨"", []⟩])).bind
        (Concurrent.settled [0]) =
        some ⟨0, [sampleException .rejected (some 0) none 1]⟩ := by
    decide +kernel
  have hreach := Concurrent.reachable_settled
    (fun _ _ _ hguarded => Concurrent.guarded_of_isGuarded hguarded) _ reachable_noExceptions hrun
  refine ⟨hreach, fun later hsteps => ?_⟩
  exact (risk_exception_decisions_final hreach).2.2 later hsteps "exception" _ rfl rfl

/-- The worker and the list endpoint read the approved exception. The first update
makes it due for review, Bob rejects it, and the second update comes after that. -/
def reviveMoves : List ExceptionMove :=
  createMoves ++ decideMoves 0 true ++ [.advance 0 ⟨"", []⟩] ++
    refreshMoves 1 .schedule ++ refreshMoves 2 .refreshRiskExceptions ++
    [.advance 1 ⟨"", []⟩] ++ decideMoves 0 false ++ [.advance 0 ⟨"", []⟩]

/-- The late update makes the rejected exception due for review again. -/
theorem late_refresh_revives_rejected :
    ∃ config later, (exceptionSystem String.toLower).Reachable config ∧
      (exceptionSystem String.toLower).StepsWhile (fun _ _ => True) config later ∧
      (config.store.find "exception").map RiskException.status = some .rejected ∧
      (later.store.find "exception").map RiskException.status = some .reviewDue := by
  let run := Concurrent.executeNamed (exceptionProgram String.toLower) [0, 1, 2] (fun _ _ => true)
    (Concurrent.idle noExceptions) reviveMoves
  let late : ExceptionMove := .advance 2 ⟨"", []⟩
  have hrejected : run.map (·.store) =
      some ⟨0, [sampleException .rejected (some 0) none 1]⟩ := by
    decide +kernel
  have hrevived : (run.bind ((exceptionProgram String.toLower).next · late)).map (·.store) =
      some ⟨0, [sampleException .reviewDue (some 0) (some 0) 0]⟩ := by
    decide +kernel
  obtain ⟨config, hconfig, hstore⟩ := Option.map_eq_some_iff.mp hrejected
  obtain ⟨later, hlater, hlaterStore⟩ := Option.map_eq_some_iff.mp hrevived
  rw [hconfig, Option.bind_some] at hlater
  have hreach := (Concurrent.reachable_executeNamed (fun _ _ _ _ => trivial) reviveMoves
    (fun _ _ => rfl) reachable_noExceptions hconfig).1
  refine ⟨config, later, hreach, .tail .refl trivial hlater, ?_, ?_⟩
  · rw [hstore]
    decide
  · rw [hlaterStore]
    decide

end IsmsPortal
