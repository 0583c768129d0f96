import Mathlib.Tactic.Common

/-! # Programs that call their environment

A program calls operations one after the other; what it does next depends on the answers, which the
environment chooses. A run is the list of calls with their answers. What is proved of all runs holds
whatever the environment does.
-/

namespace Foundation

universe u v

/-- A program in calls of operations. -/
inductive Calls (Op : Type u) (Answer : Op → Type v) (α : Type v) : Type (max u v)
  | done (result : α)
  | call (op : Op) (next : Answer op → Calls Op Answer α)

namespace Calls

variable {Op : Type u} {Answer : Op → Type v} {α β : Type v}

/-- One program after another. -/
def andThen : Calls Op Answer α → (α → Calls Op Answer β) → Calls Op Answer β
  | done result, after => after result
  | call op next, after => call op fun answer => (next answer).andThen after

instance : Monad (Calls Op Answer) where
  pure := done
  bind := andThen

/-- One call, with its answer as the result. -/
def perform (op : Op) : Calls Op Answer (Answer op) := call op done

/-- A call that was made, with its answer. -/
structure Event (Op : Type u) (Answer : Op → Type v) where
  op : Op
  answer : Answer op

/-- The runs of a program to its end. -/
inductive Runs : Calls Op Answer α → List (Event Op Answer) → α → Prop
  | done (result : α) : Runs (done result) [] result
  | call {op : Op} {next : Answer op → Calls Op Answer α} {answer : Answer op}
      {trace : List (Event Op Answer)} {result : α} (h : Runs (next answer) trace result) :
      Runs (call op next) (⟨op, answer⟩ :: trace) result

theorem runs_pure_iff {result result' : α} {trace : List (Event Op Answer)} :
    Runs (pure result : Calls Op Answer α) trace result' ↔ trace = [] ∧ result' = result := by
  constructor
  · rintro ⟨⟩
    exact ⟨rfl, rfl⟩
  · rintro ⟨rfl, rfl⟩
    exact .done _

theorem runs_call_iff {op : Op} {next : Answer op → Calls Op Answer α}
    {trace : List (Event Op Answer)} {result : α} :
    Runs (call op next) trace result ↔
      ∃ answer rest, trace = ⟨op, answer⟩ :: rest ∧ Runs (next answer) rest result := by
  constructor
  · rintro ⟨⟩
    exact ⟨_, _, rfl, ‹_›⟩
  · rintro ⟨answer, rest, rfl, h⟩
    exact .call h

/-- A run of two programs is one of the first and one of the second. -/
theorem runs_bind_iff {program : Calls Op Answer α} {after : α → Calls Op Answer β}
    {trace : List (Event Op Answer)} {result : β} :
    Runs (program >>= after) trace result ↔
      ∃ first second middle, trace = first ++ second ∧ Runs program first middle ∧
        Runs (after middle) second result := by
  induction program generalizing trace with
  | done middle =>
      constructor
      · intro h
        exact ⟨[], trace, middle, rfl, .done middle, h⟩
      · rintro ⟨first, second, middle', rfl, ⟨⟩, h⟩
        exact h
  | call op next ih =>
      constructor
      · intro h
        obtain ⟨answer, rest, rfl, hrest⟩ := runs_call_iff.mp h
        obtain ⟨first, second, middle, rfl, hfirst, hsecond⟩ := (ih answer).mp hrest
        exact ⟨⟨op, answer⟩ :: first, second, middle, rfl, .call hfirst, hsecond⟩
      · rintro ⟨first, second, middle, rfl, hfirst, hsecond⟩
        obtain ⟨answer, rest, rfl, hrest⟩ := runs_call_iff.mp hfirst
        exact .call ((ih answer).mpr ⟨rest, second, middle, rfl, hrest, hsecond⟩)

theorem runs_perform_iff {op : Op} {trace : List (Event Op Answer)} {answer : Answer op} :
    Runs (perform op) trace answer ↔ trace = [⟨op, answer⟩] := by
  constructor
  · intro h
    obtain ⟨answer, rest, rfl, hrest⟩ := runs_call_iff.mp h
    cases hrest
    rfl
  · rintro rfl
    exact .call (.done answer)

/-- A run that starts with a call. -/
theorem runs_perform_bind_iff {op : Op} {after : Answer op → Calls Op Answer β}
    {trace : List (Event Op Answer)} {result : β} :
    Runs (perform op >>= after) trace result ↔
      ∃ answer rest, trace = ⟨op, answer⟩ :: rest ∧ Runs (after answer) rest result :=
  runs_call_iff

/-- The run in an environment that answers from what was called before. -/
def runIn (environment : List (Event Op Answer) → (op : Op) → Answer op) :
    List (Event Op Answer) → Calls Op Answer α → List (Event Op Answer) × α
  | past, done result => (past, result)
  | past, call op next =>
      runIn environment (past ++ [⟨op, environment past op⟩]) (next (environment past op))

theorem runs_runIn (environment : List (Event Op Answer) → (op : Op) → Answer op)
    (program : Calls Op Answer α) (past : List (Event Op Answer)) :
    ∃ trace, (runIn environment past program).1 = past ++ trace ∧
      Runs program trace (runIn environment past program).2 := by
  induction program generalizing past with
  | done result => exact ⟨[], (List.append_nil past).symm, .done result⟩
  | call op next ih =>
      obtain ⟨trace, htrace, hruns⟩ := ih (environment past op) (past ++ [⟨op, environment past op⟩])
      refine ⟨⟨op, environment past op⟩ :: trace, ?_, .call hruns⟩
      rw [runIn, htrace, List.append_assoc, List.singleton_append]

/-! ## What is called -/

/-- The program makes only such calls. -/
def Only (allowed : Op → Prop) (program : Calls Op Answer α) : Prop :=
  ∀ trace result, Runs program trace result → ∀ event ∈ trace, allowed event.op

variable {allowed : Op → Prop}

theorem only_pure (result : α) : Only allowed (pure result : Calls Op Answer α) := by
  intro trace result' h event hevent
  obtain ⟨rfl, -⟩ := runs_pure_iff.mp h
  cases hevent

theorem only_perform {op : Op} (h : allowed op) :
    Only allowed (perform op : Calls Op Answer (Answer op)) := by
  intro trace answer hruns event hevent
  rw [runs_perform_iff.mp hruns, List.mem_singleton] at hevent
  rw [hevent]
  exact h

theorem only_bind {program : Calls Op Answer α} {after : α → Calls Op Answer β}
    (hprogram : Only allowed program) (hafter : ∀ value, Only allowed (after value)) :
    Only allowed (program >>= after) := by
  intro trace result h event hevent
  obtain ⟨first, second, middle, rfl, hfirst, hsecond⟩ := runs_bind_iff.mp h
  rcases List.mem_append.mp hevent with hevent | hevent
  · exact hprogram first middle hfirst event hevent
  · exact hafter middle second result hsecond event hevent

/-! ## Programs that can fail -/

section Attempts

variable {ε : Type v} {program : ExceptT ε (Calls Op Answer) α}
  {after : α → ExceptT ε (Calls Op Answer) β} {trace : List (Event Op Answer)}

/-- A program that fails ends the one it is part of. -/
theorem runs_attempt_bind_iff {result : Except ε β} :
    Runs (program >>= after).run trace result ↔
      (∃ error, Runs program.run trace (.error error) ∧ result = .error error) ∨
        ∃ first second value, trace = first ++ second ∧ Runs program.run first (.ok value) ∧
          Runs (after value).run second result := by
  have hbind : (program >>= after).run = program.run >>= ExceptT.bindCont after := rfl
  rw [hbind, runs_bind_iff]
  constructor
  · rintro ⟨first, second, error | value, rfl, hfirst, hsecond⟩
    · obtain ⟨rfl, rfl⟩ := runs_pure_iff.mp hsecond
      exact .inl ⟨error, by rwa [List.append_nil], rfl⟩
    · exact .inr ⟨first, second, value, rfl, hfirst, hsecond⟩
  · rintro (⟨error, hfirst, rfl⟩ | ⟨first, second, value, rfl, hfirst, hsecond⟩)
    · exact ⟨trace, [], .error error, (List.append_nil trace).symm, hfirst, .done _⟩
    · exact ⟨first, second, .ok value, rfl, hfirst, hsecond⟩

/-- What succeeds has succeeded in all its parts. -/
theorem runs_attempt_bind_ok {value : β} (h : Runs (program >>= after).run trace (.ok value)) :
    ∃ first second middle, trace = first ++ second ∧ Runs program.run first (.ok middle) ∧
      Runs (after middle).run second (.ok value) := by
  rcases runs_attempt_bind_iff.mp h with ⟨error, -, herror⟩ | h
  · cases herror
  · exact h

/-- A program that cannot fail. -/
theorem runs_lift_iff {calls : Calls Op Answer α} {result : Except ε α} :
    Runs (ExceptT.lift calls : ExceptT ε (Calls Op Answer) α).run trace result ↔
      ∃ value, Runs calls trace value ∧ result = .ok value := by
  have hlift : (ExceptT.lift calls : ExceptT ε (Calls Op Answer) α).run =
      calls >>= fun value => pure (.ok value) := rfl
  rw [hlift, runs_bind_iff]
  constructor
  · rintro ⟨first, second, value, rfl, hcalls, hdone⟩
    obtain ⟨rfl, rfl⟩ := runs_pure_iff.mp hdone
    exact ⟨value, by rwa [List.append_nil], rfl⟩
  · rintro ⟨value, hcalls, rfl⟩
    exact ⟨trace, [], value, (List.append_nil trace).symm, hcalls, .done _⟩

/-- A check makes no call. -/
theorem runs_check_iff {check : Except ε α} {result : Except ε α} :
    Runs (liftM check : ExceptT ε (Calls Op Answer) α).run trace result ↔
      trace = [] ∧ result = check :=
  runs_pure_iff

theorem only_attempt_bind (hprogram : Only allowed program.run)
    (hafter : ∀ value, Only allowed (after value).run) : Only allowed (program >>= after).run :=
  only_bind hprogram fun outcome =>
    match outcome with
    | .error error => only_pure (Except.error error)
    | .ok value => hafter value

theorem only_check (check : Except ε α) :
    Only allowed (liftM check : ExceptT ε (Calls Op Answer) α).run :=
  only_pure check

end Attempts

end Calls

end Foundation
