import IsmsPortal.Foundation.Interleaving

/-! # Row locks

A statement that writes a row waits until no other process holds it. A process
holds the rows its open transaction has written; they are a function of its
local state, so that a process that stops releases them. Runs that respect the
locks are runs with a side condition.
-/

namespace Foundation

universe u v w

namespace Concurrent

variable {Store : Type u} {Process : Type v} {Choice : Type w}
variable {program : Concurrent Store Process Choice} {initial : Store → Prop}
variable {allowed : Config Store Process → Move Process Choice → Prop}

/-- The rows a process holds, and those its next statement writes. -/
structure Locks (Store : Type u) (Process : Type v) (Row : Type*) where
  holds : Process → List Row
  wants : Store → Process → List Row

namespace Locks

variable {Row : Type*} (locks : Locks Store Process Row)

/-- The move does not have to wait. -/
def Free (config : Config Store Process) : Move Process Choice → Prop
  | .advance name _ => ∀ process, config.processes name = some process →
      ∀ other process', other ≠ name → config.processes other = some process' →
        ∀ row ∈ locks.wants config.store process, row ∉ locks.holds process'
  | _ => True

/-- No row is held twice. -/
def Exclusive (config : Config Store Process) : Prop :=
  ∀ name other process process', name ≠ other → config.processes name = some process →
    config.processes other = some process' → ∀ row ∈ locks.holds process, row ∉ locks.holds process'

/-- A process starts without rows, and a statement adds only the rows it writes. -/
structure Sound (program : Concurrent Store Process Choice) : Prop where
  start : ∀ process, program.start process = true → locks.holds process = []
  advance : ∀ name choice store process process' after,
    program.advance name choice store process = some (some process', after) →
      ∀ row ∈ locks.holds process', row ∈ locks.holds process ∨ row ∈ locks.wants store process

variable {locks}

theorem Exclusive.next (hsound : locks.Sound program) {config after : Config Store Process}
    {move : Move Process Choice} (hexclusive : locks.Exclusive config)
    (hfree : locks.Free config move) (hnext : program.next config move = some after) :
    locks.Exclusive after := by
  have hsymm : ∀ name other process process', name ≠ other → config.processes name = some process →
      config.processes other = some process' →
      ∀ row ∈ locks.holds process', row ∉ locks.holds process :=
    fun name other process process' hne hname hother row hrow hheld =>
      hexclusive name other process process' hne hname hother row hheld hrow
  cases move with
  | drift time =>
      simp only [Concurrent.next, Option.map_eq_some_iff] at hnext
      obtain ⟨store, -, rfl⟩ := hnext
      exact hexclusive
  | start started process =>
      simp only [Concurrent.next] at hnext
      split at hnext
      next hstart =>
        cases hnext
        have hnone := hsound.start process hstart.1
        intro name other first second hne hfirst hsecond row hrow hheld
        dsimp only at hfirst hsecond
        by_cases hname : name = started
        · rw [hname, Function.update_self, Option.some.injEq] at hfirst
          rw [← hfirst, hnone] at hrow
          cases hrow
        by_cases hother : other = started
        · rw [hother, Function.update_self, Option.some.injEq] at hsecond
          rw [← hsecond, hnone] at hheld
          cases hheld
        rw [Function.update_of_ne hname] at hfirst
        rw [Function.update_of_ne hother] at hsecond
        exact hexclusive name other first second hne hfirst hsecond row hrow hheld
      next => cases hnext
  | advance moved choice =>
      simp only [Concurrent.next, Option.bind_eq_some_iff, Option.map_eq_some_iff] at hnext
      obtain ⟨process, hprocess, ⟨remaining, store⟩, hadvance, rfl⟩ := hnext
      -- What the process now holds it held before or has just waited for.
      have hnew : ∀ other process', other ≠ moved → config.processes other = some process' →
          ∀ left, remaining = some left → ∀ row ∈ locks.holds left, row ∉ locks.holds process' := by
        intro other process' hne hother left hleft row hrow
        rw [hleft] at hadvance
        rcases hsound.advance _ _ _ _ _ _ hadvance row hrow with hheld | hwanted
        · exact hexclusive moved other process process' (Ne.symm hne) hprocess hother row hheld
        · exact hfree process hprocess other process' hne hother row hwanted
      intro name other first second hne hfirst hsecond row hrow hheld
      dsimp only at hfirst hsecond
      by_cases hname : name = moved
      · have hother : other ≠ moved := fun heq => hne (hname.trans heq.symm)
        rw [hname, Function.update_self] at hfirst
        rw [Function.update_of_ne hother] at hsecond
        exact hnew other second hother hsecond first hfirst row hrow hheld
      · rw [Function.update_of_ne hname] at hfirst
        by_cases hother : other = moved
        · rw [hother, Function.update_self] at hsecond
          exact hnew name first hname hfirst second hsecond row hheld hrow
        · rw [Function.update_of_ne hother] at hsecond
          exact hexclusive name other first second hne hfirst hsecond row hrow hheld
  | stop stopped =>
      simp only [Concurrent.next, Option.some.injEq] at hnext
      cases hnext
      intro name other first second hne hfirst hsecond row hrow hheld
      dsimp only at hfirst hsecond
      by_cases hname : name = stopped
      · rw [hname, Function.update_self] at hfirst
        cases hfirst
      by_cases hother : other = stopped
      · rw [hother, Function.update_self] at hsecond
        cases hsecond
      rw [Function.update_of_ne hname] at hfirst
      rw [Function.update_of_ne hother] at hsecond
      exact hexclusive name other first second hne hfirst hsecond row hrow hheld

/-- Rows are held once in every run that respects the locks. -/
theorem exclusive_of_reachable (hsound : locks.Sound program)
    (hallowed : ∀ config move, allowed config move → locks.Free config move)
    {config : Config Store Process}
    (hreach : (program.system initial).ReachableWhile allowed config) : locks.Exclusive config := by
  refine hreach.invariant ?_ ?_
  · intro start hinit name other process process' _ hprocess
    rw [hinit.2 name] at hprocess
    cases hprocess
  · intro before move after hexclusive hmove hstep
    exact hexclusive.next hsound (hallowed before move hmove) hstep

variable (locks) in
/-- Statements wait for rows and meet a condition. -/
def Orderly (guard : Config Store Process → Process → Prop) (config : Config Store Process)
    (move : Move Process Choice) : Prop :=
  locks.Free config move ∧ Guarded guard config move

/-- An outline that is valid while rows are held once holds in every run that respects
the locks. -/
theorem outline_holds_of_free {outline : Outline Store Process} (hsound : locks.Sound program)
    (hfree : ∀ config move, allowed config move → locks.Free config move)
    (hvalid : outline.Valid program initial fun config move =>
      locks.Exclusive config ∧ allowed config move)
    {config : Config Store Process}
    (hreach : (program.system initial).ReachableWhile allowed config) : outline.Holds config := by
  apply hvalid.holds
  apply hreach.assuming
  intro before hbefore
  exact exclusive_of_reachable hsound hfree hbefore

/-- An outline that is valid while rows are held once holds in every orderly run. -/
theorem outline_holds {outline : Outline Store Process}
    {guard : Config Store Process → Process → Prop} (hsound : locks.Sound program)
    (hvalid : outline.Valid program initial fun config move =>
      locks.Exclusive config ∧ locks.Orderly guard config move)
    {config : Config Store Process}
    (hreach : (program.system initial).ReachableWhile (locks.Orderly guard) config) :
    outline.Holds config :=
  outline_holds_of_free hsound (fun _ _ horderly => horderly.1) hvalid hreach

variable [DecidableEq Row]

variable (locks) in
/-- `Free`, computed over the processes with known names. -/
def isFree (names : List Nat) (config : Config Store Process) : Move Process Choice → Bool
  | .advance name _ => (config.processes name).all fun process => names.all fun other =>
      other = name || (config.processes other).all fun process' =>
        (locks.wants config.store process).all (· ∉ locks.holds process')
  | _ => true

theorem free_of_isFree {names : List Nat} {config : Config Store Process}
    {move : Move Process Choice} (hnamed : Named names config)
    (hfree : locks.isFree names config move = true) : locks.Free config move := by
  cases move with
  | advance name choice =>
      intro process hprocess other process' hne hother row hrow
      have hmem := hnamed.mem hother
      simp only [isFree, hprocess, Option.all_some, List.all_eq_true, Bool.or_eq_true,
        decide_eq_true_eq] at hfree
      rcases hfree other hmem with heq | hrows
      · exact absurd heq hne
      · rw [hother, Option.all_some, List.all_eq_true] at hrows
        simpa using hrows row hrow
  | _ => trivial

variable {guard : Config Store Process → Process → Prop}
variable [∀ config process, Decidable (guard config process)]

variable (locks guard) in
/-- `Orderly`, computed over the processes with known names. -/
def isOrderly (names : List Nat) (config : Config Store Process) (move : Move Process Choice) :
    Bool :=
  locks.isFree names config move && isGuarded guard config move

theorem orderly_of_isOrderly {names : List Nat} {config : Config Store Process}
    {move : Move Process Choice} (hnamed : Named names config)
    (horderly : locks.isOrderly guard names config move = true) :
    locks.Orderly guard config move := by
  rw [isOrderly, Bool.and_eq_true] at horderly
  exact ⟨free_of_isFree hnamed horderly.1, guarded_of_isGuarded horderly.2⟩

end Locks

end Concurrent

end Foundation
