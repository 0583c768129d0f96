import Mathlib.Tactic.Common

/-! # Runs of labelled transition systems

A system has initial states and labelled steps. The label carries everything
the environment chooses: the operation, its arguments, the answer of a query
with several legal answers. A run may be restricted by a side condition on the
state *before* each step and the label, so that a conditional safety result
never refers to what the step computes.
-/

namespace Foundation

universe u v

/-- A transition system with labelled, possibly nondeterministic steps. -/
structure System (State : Type u) (Label : Type v) where
  init : State → Prop
  step : State → Label → State → Prop

namespace System

variable {State : Type u} {Label : Type v} (sys : System State Label)

/-- States reached by runs all of whose steps satisfy `allowed`. -/
inductive ReachableWhile (allowed : State → Label → Prop) : State → Prop
  | init {state : State} (hinit : sys.init state) : ReachableWhile allowed state
  | step {state next : State} {label : Label} (hreach : ReachableWhile allowed state)
      (hallowed : allowed state label) (hstep : sys.step state label next) :
      ReachableWhile allowed next

/-- States reached by any run. -/
abbrev Reachable : State → Prop := sys.ReachableWhile fun _ _ => True

/-- `StepsWhile allowed state next`: a run from `state` ends in `next`. -/
inductive StepsWhile (allowed : State → Label → Prop) (state : State) : State → Prop
  | refl : StepsWhile allowed state state
  | tail {middle next : State} {label : Label} (hsteps : StepsWhile allowed state middle)
      (hallowed : allowed middle label) (hstep : sys.step middle label next) :
      StepsWhile allowed state next

/-- A run from `state` with its steps, each with the state before it and its label. -/
inductive TraceWhile (allowed : State → Label → Prop) (state : State) :
    List (State × Label) → State → Prop
  | nil : TraceWhile allowed state [] state
  | concat {steps : List (State × Label)} {middle next : State} {label : Label}
      (htrace : TraceWhile allowed state steps middle) (hallowed : allowed middle label)
      (hstep : sys.step middle label next) :
      TraceWhile allowed state (steps ++ [(middle, label)]) next

variable {sys} {allowed : State → Label → Prop}

/-- A predicate that holds initially and survives every allowed step holds in
every state of every allowed run. -/
theorem ReachableWhile.invariant {predicate : State → Prop}
    (hinit : ∀ state, sys.init state → predicate state)
    (hstep : ∀ state label next, predicate state → allowed state label →
      sys.step state label next → predicate next)
    {state : State} (hreach : sys.ReachableWhile allowed state) : predicate state := by
  induction hreach with
  | init hstart => exact hinit _ hstart
  | step _ hallowed hmove ih => exact hstep _ _ _ ih hallowed hmove

/-- A relation between two states of a run that is reflexive, and survives one
more step, relates every state to every later one. The predicate carries what
is known of the later state. -/
theorem StepsWhile.relation {predicate : State → Prop} {related : State → State → Prop}
    (hrefl : ∀ state, related state state)
    (htrans : ∀ first middle last, related first middle → related middle last →
      related first last)
    (hstep : ∀ state label next, predicate state → allowed state label →
      sys.step state label next → predicate next ∧ related state next)
    {state next : State} (hstate : predicate state)
    (hsteps : sys.StepsWhile allowed state next) : predicate next ∧ related state next := by
  induction hsteps with
  | refl => exact ⟨hstate, hrefl state⟩
  | tail _ hallowed hmove ih =>
      obtain ⟨hmiddle, hrelated⟩ := hstep _ _ _ ih.1 hallowed hmove
      exact ⟨hmiddle, htrans _ _ _ ih.2 hrelated⟩

theorem ReachableWhile.steps {state next : State} (hreach : sys.ReachableWhile allowed state)
    (hsteps : sys.StepsWhile allowed state next) : sys.ReachableWhile allowed next := by
  induction hsteps with
  | refl => exact hreach
  | tail _ hallowed hmove ih => exact .step ih hallowed hmove

theorem ReachableWhile.next {state : State} (hreach : sys.ReachableWhile allowed state)
    (label : Label) (next : State) (hallowed : allowed state label)
    (hstep : sys.step state label next) : sys.ReachableWhile allowed next :=
  .step hreach hallowed hstep

theorem StepsWhile.next {state middle : State} (hsteps : sys.StepsWhile allowed state middle)
    (label : Label) (next : State) (hallowed : allowed middle label)
    (hstep : sys.step middle label next) : sys.StepsWhile allowed state next :=
  .tail hsteps hallowed hstep

theorem ReachableWhile.mono {wider : State → Label → Prop}
    (hwider : ∀ state label, allowed state label → wider state label)
    {state : State} (hreach : sys.ReachableWhile allowed state) :
    sys.ReachableWhile wider state := by
  induction hreach with
  | init hstart => exact .init hstart
  | step _ hallowed hmove ih => exact .step ih (hwider _ _ hallowed) hmove

/-- An invariant of all allowed runs may be assumed at every step. -/
theorem ReachableWhile.assuming {predicate : State → Prop}
    (hpredicate : ∀ state, sys.ReachableWhile allowed state → predicate state)
    {state : State} (hreach : sys.ReachableWhile allowed state) :
    sys.ReachableWhile (fun state label => predicate state ∧ allowed state label) state := by
  induction hreach with
  | init hstart => exact .init hstart
  | step hbefore hallowed hmove ih => exact .step ih ⟨hpredicate _ hbefore, hallowed⟩ hmove

theorem StepsWhile.mono {wider : State → Label → Prop}
    (hwider : ∀ state label, allowed state label → wider state label)
    {state next : State} (hsteps : sys.StepsWhile allowed state next) :
    sys.StepsWhile wider state next := by
  induction hsteps with
  | refl => exact .refl
  | tail _ hallowed hmove ih => exact .tail ih (hwider _ _ hallowed) hmove

theorem TraceWhile.stepsWhile {steps : List (State × Label)} {state next : State}
    (htrace : sys.TraceWhile allowed state steps next) : sys.StepsWhile allowed state next := by
  induction htrace with
  | nil => exact .refl
  | concat _ hallowed hmove ih => exact .tail ih hallowed hmove

theorem TraceWhile.append {first second : List (State × Label)} {state middle next : State}
    (hfirst : sys.TraceWhile allowed state first middle)
    (hsecond : sys.TraceWhile allowed middle second next) :
    sys.TraceWhile allowed state (first ++ second) next := by
  induction hsecond with
  | nil => rwa [List.append_nil]
  | concat _ hallowed hmove ih =>
      rw [← List.append_assoc]
      exact .concat ih hallowed hmove

/-- Execute the labels of a list in order. -/
def execute (next : State → Label → Option State) : State → List Label → Option State
  | state, [] => some state
  | state, label :: rest => (next state label).bind (execute next · rest)

/-- A list of labels that executes from a reached state is a run. -/
theorem ReachableWhile.execute {next : State → Label → Option State}
    (hnext : ∀ state label after, next state label = some after →
      allowed state label ∧ sys.step state label after)
    {labels : List Label} {state final : State}
    (hrun : System.execute next state labels = some final)
    (hreach : sys.ReachableWhile allowed state) : sys.ReachableWhile allowed final := by
  induction labels generalizing state with
  | nil =>
      cases hrun
      exact hreach
  | cons label rest ih =>
      obtain ⟨middle, hmiddle, hrest⟩ := Option.bind_eq_some_iff.mp hrun
      obtain ⟨hallowed, hstep⟩ := hnext state label middle hmiddle
      exact ih hrest (.step hreach hallowed hstep)

end System

end Foundation
