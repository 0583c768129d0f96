import IsmsPortal.Foundation.Runs
import Mathlib.Logic.Function.Basic

/-! # Interleaved processes over a shared store

Processes run concurrently over one store. A process is its local state: where
it is in its program and what it has read. It advances by one atomic statement,
which may use a choice of the environment (a fresh name, the answer of a query
with several answers) and leaves a new local state or ends the process. A
process may stop for good at any moment.

A global invariant and a local assertion for every process are proved together:
each statement establishes the invariant and the assertion of its own process,
and leaves the assertions of the other processes true.
-/

namespace Foundation

universe u v w

/-- Programs of processes over a store. -/
structure Concurrent (Store : Type u) (Process : Type v) (Choice : Type w) where
  /-- The passing of time. -/
  drift : Int → Store → Option Store
  /-- Local states in which a process may start. -/
  start : Process → Bool
  /-- One statement of a process with the given name. -/
  advance : Nat → Choice → Store → Process → Option (Option Process × Store)

namespace Concurrent

variable {Store : Type u} {Process : Type v} {Choice : Type w}

/-- A store with the processes in flight. -/
structure Config (Store : Type u) (Process : Type v) where
  store : Store
  processes : Nat → Option Process

inductive Move (Process : Type v) (Choice : Type w)
  | drift (time : Int)
  | start (name : Nat) (process : Process)
  | advance (name : Nat) (choice : Choice)
  | stop (name : Nat)

variable (program : Concurrent Store Process Choice)

/-- The configuration after a move, if the move is possible. -/
def next (config : Config Store Process) : Move Process Choice → Option (Config Store Process)
  | .drift time => (program.drift time config.store).map fun store => { config with store }
  | .start name process =>
      if program.start process = true ∧ (config.processes name).isNone then
        some { config with processes := Function.update config.processes name (some process) }
      else none
  | .advance name choice => (config.processes name).bind fun process =>
      (program.advance name choice config.store process).map fun result =>
        ⟨result.2, Function.update config.processes name result.1⟩
  | .stop name => some { config with processes := Function.update config.processes name none }

/-- Runs from an initial store without processes. -/
def system (initial : Store → Prop) : System (Config Store Process) (Move Process Choice) where
  init config := initial config.store ∧ ∀ name, config.processes name = none
  step config move after := program.next config move = some after

/-- A condition on the statements that run, in the configuration before them. -/
def Guarded (guard : Config Store Process → Process → Prop) (config : Config Store Process) :
    Move Process Choice → Prop
  | .advance name _ => ∀ process, config.processes name = some process → guard config process
  | _ => True

/-- A clock that is set under a condition. -/
theorem drift_eq {condition : Prop} [Decidable condition] {store after : Store}
    (hdrift : (if condition then some store else none) = some after) :
    condition ∧ after = store := by
  rw [Option.ite_none_right_eq_some, Option.some.injEq] at hdrift
  exact ⟨hdrift.1, hdrift.2.symm⟩

variable {program} in
/-- The store changes by time passing or by one statement of one process. -/
theorem next_store {config after : Config Store Process} {move : Move Process Choice}
    (hnext : program.next config move = some after) :
    (∃ time, move = .drift time ∧ program.drift time config.store = some after.store) ∨
      (∃ name choice process remaining, move = .advance name choice ∧
        config.processes name = some process ∧
        program.advance name choice config.store process = some (remaining, after.store)) ∨
      after.store = config.store := by
  cases move with
  | drift time =>
      simp only [next, Option.map_eq_some_iff] at hnext
      obtain ⟨store, hdrift, rfl⟩ := hnext
      exact .inl ⟨time, rfl, hdrift⟩
  | start name process =>
      simp only [next] at hnext
      split at hnext
      · cases hnext
        exact .inr (.inr rfl)
      · cases hnext
  | advance name choice =>
      simp only [next, Option.bind_eq_some_iff, Option.map_eq_some_iff] at hnext
      obtain ⟨process, hprocess, ⟨remaining, store⟩, hadvance, rfl⟩ := hnext
      exact .inr (.inl ⟨name, choice, process, remaining, rfl, hprocess, hadvance⟩)
  | stop name =>
      simp only [next, Option.some.injEq] at hnext
      cases hnext
      exact .inr (.inr rfl)

variable {program} in
/-- A process in flight was there before, has just started, or has advanced. -/
theorem next_process {config after : Config Store Process} {move : Move Process Choice}
    (hnext : program.next config move = some after) {name : Nat} {process : Process}
    (hprocess : after.processes name = some process) :
    config.processes name = some process ∨
      (move = .start name process ∧ program.start process = true) ∨
      ∃ choice before, move = .advance name choice ∧ config.processes name = some before ∧
        program.advance name choice config.store before = some (some process, after.store) := by
  cases move with
  | drift time =>
      simp only [next, Option.map_eq_some_iff] at hnext
      obtain ⟨store, -, rfl⟩ := hnext
      exact .inl hprocess
  | start started process' =>
      simp only [next] at hnext
      split at hnext
      next hstart =>
        cases hnext
        dsimp only at hprocess
        by_cases hname : name = started
        · rw [hname, Function.update_self, Option.some.injEq] at hprocess
          subst hname hprocess
          exact .inr (.inl ⟨rfl, hstart.1⟩)
        · rw [Function.update_of_ne hname] at hprocess
          exact .inl hprocess
      next => cases hnext
  | advance moved choice =>
      simp only [next, Option.bind_eq_some_iff, Option.map_eq_some_iff] at hnext
      obtain ⟨before, hbefore, ⟨remaining, store⟩, hadvance, rfl⟩ := hnext
      dsimp only at hprocess
      by_cases hname : name = moved
      · subst hname
        rw [Function.update_self] at hprocess
        exact .inr (.inr ⟨choice, before, rfl, hbefore, hprocess ▸ hadvance⟩)
      · rw [Function.update_of_ne hname] at hprocess
        exact .inl hprocess
  | stop stopped =>
      simp only [next, Option.some.injEq] at hnext
      cases hnext
      dsimp only at hprocess
      by_cases hname : name = stopped
      · rw [hname, Function.update_self] at hprocess
        cases hprocess
      · rw [Function.update_of_ne hname] at hprocess
        exact .inl hprocess

variable {program} in
/-- What a process has done, by its own statements in a run that starts no other under its name. -/
theorem process_of_trace {initial : Store → Prop} {name : Nat}
    {allowed : Config Store Process → Move Process Choice → Prop}
    (done : List (Config Store Process × Move Process Choice) → Process → Prop)
    {first last : Config Store Process} {steps : List (Config Store Process × Move Process Choice)}
    (hname : ∀ config process, ¬allowed config (.start name process))
    (hmore : ∀ steps step process, done steps process → done (steps ++ [step]) process)
    (hown : ∀ steps config choice process next after,
      (program.system initial).TraceWhile allowed first steps config →
      config.processes name = some process → done steps process →
      program.advance name choice config.store process = some (some next, after) →
      done (steps ++ [(config, .advance name choice)]) next)
    (hfirst : ∀ process, first.processes name = some process → done [] process)
    (htrace : (program.system initial).TraceWhile allowed first steps last) :
    ∀ process, last.processes name = some process → done steps process := by
  induction htrace with
  | nil => exact hfirst
  | @concat steps middle next label htrace hallowed hmove ih =>
      intro process hprocess
      rcases next_process hmove hprocess with hsame | ⟨rfl, -⟩ | ⟨choice, before, rfl, hbefore,
        hadvance⟩
      · exact hmore steps _ process (ih process hsame)
      · exact absurd hallowed (hname middle process)
      · exact hown steps middle choice before process next.store htrace hbefore (ih before hbefore)
          hadvance

/-- Executing a list of moves from a reached configuration. -/
theorem reachable_execute {initial : Store → Prop} {config final : Config Store Process}
    {moves : List (Move Process Choice)}
    (hreach : (program.system initial).Reachable config)
    (hrun : System.execute program.next config moves = some final) :
    (program.system initial).Reachable final := by
  induction moves generalizing config with
  | nil =>
      simp only [System.execute, Option.some.injEq] at hrun
      exact hrun ▸ hreach
  | cons move rest ih =>
      simp only [System.execute, Option.bind_eq_some_iff] at hrun
      obtain ⟨middle, hmiddle, hrest⟩ := hrun
      exact ih (.step hreach trivial hmiddle) hrest

/-! ## Proof outlines -/

/-- A global invariant with one assertion per process. -/
structure Outline (Store : Type u) (Process : Type v) where
  invariant : Store → Prop
  assertion : Nat → Store → Process → Prop

/-- The invariant and the assertions of all processes in flight hold. -/
def Outline.Holds (outline : Outline Store Process) (config : Config Store Process) : Prop :=
  outline.invariant config.store ∧
    ∀ name process, config.processes name = some process →
      outline.assertion name config.store process

/-- The proof obligations of an outline, for moves that satisfy `allowed`. -/
structure Outline.Valid (outline : Outline Store Process) (initial : Store → Prop)
    (allowed : Config Store Process → Move Process Choice → Prop) : Prop where
  init : ∀ store, initial store → outline.invariant store
  drift : ∀ time store after, program.drift time store = some after →
    outline.invariant store → outline.invariant after ∧
      ∀ name process, outline.assertion name store process →
        outline.assertion name after process
  start : ∀ name store process, program.start process = true → outline.invariant store →
    outline.assertion name store process
  /-- A statement establishes the invariant and its own assertion. -/
  own : ∀ (config : Config Store Process) name choice process remaining after,
    outline.Holds config → config.processes name = some process →
    allowed config (.advance name choice) →
    program.advance name choice config.store process = some (remaining, after) →
    outline.invariant after ∧
      ∀ process', remaining = some process' → outline.assertion name after process'
  /-- A statement leaves the assertions of the other processes true. -/
  others : ∀ (config : Config Store Process) name choice process remaining after,
    outline.Holds config → config.processes name = some process →
    allowed config (.advance name choice) →
    program.advance name choice config.store process = some (remaining, after) →
    ∀ other process', other ≠ name → config.processes other = some process' →
      outline.assertion other after process'

variable {program} {initial : Store → Prop}
variable {allowed : Config Store Process → Move Process Choice → Prop}
variable {outline : Outline Store Process}

theorem Outline.Valid.step (hvalid : outline.Valid program initial allowed)
    {config after : Config Store Process} {move : Move Process Choice}
    (hholds : outline.Holds config) (hallowed : allowed config move)
    (hnext : program.next config move = some after) : outline.Holds after := by
  cases move with
  | drift time =>
      simp only [next, Option.map_eq_some_iff] at hnext
      obtain ⟨store, hdrift, rfl⟩ := hnext
      obtain ⟨hinvariant, hassertions⟩ := hvalid.drift _ _ _ hdrift hholds.1
      exact ⟨hinvariant, fun name process hprocess =>
        hassertions name process (hholds.2 name process hprocess)⟩
  | start name process =>
      simp only [next] at hnext
      split at hnext
      next hstart =>
        cases hnext
        refine ⟨hholds.1, fun other process' hprocess => ?_⟩
        dsimp only at hprocess
        by_cases hname : other = name
        · rw [hname, Function.update_self, Option.some.injEq] at hprocess
          rw [hname, ← hprocess]
          exact hvalid.start _ _ _ hstart.1 hholds.1
        · rw [Function.update_of_ne hname] at hprocess
          exact hholds.2 other process' hprocess
      next => cases hnext
  | advance name choice =>
      simp only [next, Option.bind_eq_some_iff, Option.map_eq_some_iff] at hnext
      obtain ⟨process, hprocess, ⟨remaining, store⟩, hadvance, rfl⟩ := hnext
      obtain ⟨hinvariant, hown⟩ :=
        hvalid.own _ _ _ _ _ _ hholds hprocess hallowed hadvance
      refine ⟨hinvariant, fun other process' hprocess' => ?_⟩
      dsimp only at hprocess'
      by_cases hname : other = name
      · rw [hname, Function.update_self] at hprocess'
        rw [hname]
        exact hown process' hprocess'
      · rw [Function.update_of_ne hname] at hprocess'
        exact hvalid.others _ _ _ _ _ _ hholds hprocess hallowed hadvance other process'
          hname hprocess'
  | stop name =>
      simp only [next, Option.some.injEq] at hnext
      cases hnext
      refine ⟨hholds.1, fun other process' hprocess => ?_⟩
      dsimp only at hprocess
      by_cases hname : other = name
      · rw [hname, Function.update_self] at hprocess
        exact absurd hprocess (by simp)
      · rw [Function.update_of_ne hname] at hprocess
        exact hholds.2 other process' hprocess

/-- **Soundness of outlines.** The invariant and every assertion hold in every
state of every allowed run. -/
theorem Outline.Valid.holds (hvalid : outline.Valid program initial allowed)
    {config : Config Store Process}
    (hreach : (program.system initial).ReachableWhile allowed config) :
    outline.Holds config := by
  refine hreach.invariant ?_ ?_
  · intro start hinit
    refine ⟨hvalid.init _ hinit.1, fun name process hprocess => ?_⟩
    rw [hinit.2 name] at hprocess
    exact absurd hprocess (by simp)
  · intro before move after hholds hallowed hstep
    exact hvalid.step hholds hallowed hstep

/-! ## Requests that run alone

A run in which every process ends before the next one starts can be computed:
only the store matters between two processes.
-/

/-- The process with name 0 is the only one in flight. -/
def solo (state : Option Process × Store) : Config Store Process :=
  ⟨state.2, Function.update (fun _ => none) 0 state.1⟩

/-- No process is in flight. -/
def idle (store : Store) : Config Store Process := ⟨store, fun _ => none⟩

theorem solo_none (store : Store) : solo (none, store) = (idle store : Config Store Process) := by
  unfold solo idle
  rw [Function.update_eq_self_iff.mpr rfl]

variable (program) in
/-- Advance a process alone, one statement per choice, while `alone` holds. -/
def runAlone (alone : Store → Process → Bool) :
    List Choice → Option Process × Store → Option (Option Process × Store)
  | [], state => some state
  | _ :: _, (none, _) => none
  | choice :: rest, (some process, store) =>
      if alone store process then
        (program.advance 0 choice store process).bind (runAlone alone rest)
      else none

variable (program) in
/-- Run processes one after the other, each to its end. -/
def runScript (alone : Store → Process → Bool) :
    List (Process × List Choice) → Store → Option Store
  | [], store => some store
  | (process, choices) :: rest, store =>
      if program.start process then
        match runAlone program alone choices (some process, store) with
        | some (none, after) => runScript alone rest after
        | _ => none
      else none

section Alone

variable {guard : Config Store Process → Process → Prop} {alone : Store → Process → Bool}

theorem reachable_start {store : Store} (process : Process)
    (hreach : (program.system initial).ReachableWhile (Guarded guard) (idle store))
    (hstart : program.start process = true) :
    (program.system initial).ReachableWhile (Guarded guard) (solo (some process, store)) := by
  refine hreach.next (.start 0 process) _ trivial ?_
  simp [system, next, idle, solo, hstart]

variable (halone : ∀ store process, alone store process = true →
  guard (solo (some process, store)) process)

include halone

theorem reachable_runAlone {state : Option Process × Store} (choices : List Choice)
    (final : Option Process × Store)
    (hreach : (program.system initial).ReachableWhile (Guarded guard) (solo state))
    (hrun : runAlone program alone choices state = some final) :
    (program.system initial).ReachableWhile (Guarded guard) (solo final) := by
  induction choices generalizing state with
  | nil =>
      simp only [runAlone, Option.some.injEq] at hrun
      exact hrun ▸ hreach
  | cons choice rest ih =>
      obtain ⟨process, store⟩ := state
      cases process with
      | none => cases hrun
      | some process =>
        simp only [runAlone] at hrun
        split at hrun
        · next hcheck =>
          rw [Option.bind_eq_some_iff] at hrun
          obtain ⟨middle, hadvance, hrest⟩ := hrun
          refine ih (hreach.next (.advance 0 choice) _ ?_ ?_) hrest
          · intro running hrunning
            simp only [solo, Function.update_self, Option.some.injEq] at hrunning
            exact hrunning ▸ halone store process hcheck
          · simp [system, next, solo, hadvance]
        · cases hrun

theorem reachable_runScript {store : Store} (script : List (Process × List Choice))
    (final : Store)
    (hreach : (program.system initial).ReachableWhile (Guarded guard) (idle store))
    (hrun : runScript program alone script store = some final) :
    (program.system initial).ReachableWhile (Guarded guard) (idle final) := by
  induction script generalizing store with
  | nil =>
      simp only [runScript, Option.some.injEq] at hrun
      exact hrun ▸ hreach
  | cons entry rest ih =>
      obtain ⟨process, choices⟩ := entry
      simp only [runScript] at hrun
      split at hrun
      · next hstart =>
        split at hrun
        · next after hcall =>
          have hcalled := reachable_runAlone halone _ _ (reachable_start _ hreach hstart) hcall
          rw [solo_none] at hcalled
          exact ih hcalled hrun
        · cases hrun
      · cases hrun

end Alone

theorem reachable_iff_unguarded {config : Config Store Process} :
    (program.system initial).Reachable config ↔
      (program.system initial).ReachableWhile (Guarded fun _ _ => True) config := by
  constructor
  · refine fun hreach => hreach.mono fun _ move _ => ?_
    cases move
    case advance => exact fun _ _ => trivial
    all_goals trivial
  · exact fun hreach => hreach.mono fun _ _ _ => trivial

/-- The end of a script is reachable. -/
theorem reachable_script (script : List (Process × List Choice)) {store final : Store}
    (hreach : (program.system initial).Reachable (idle store))
    (hrun : runScript program (fun _ _ => true) script store = some final) :
    (program.system initial).Reachable (idle final) := by
  rw [reachable_iff_unguarded] at hreach ⊢
  exact reachable_runScript (fun _ _ _ => trivial) script final hreach hrun

/-- A place in a process that runs alone is reachable. -/
theorem reachable_call (process : Process) (choices : List Choice)
    (final : Option Process × Store) {store : Store}
    (hreach : (program.system initial).Reachable (idle store))
    (hstart : program.start process = true)
    (hrun : runAlone program (fun _ _ => true) choices (some process, store) = some final) :
    (program.system initial).Reachable (solo final) := by
  rw [reachable_iff_unguarded] at hreach ⊢
  exact reachable_runAlone (fun _ _ _ => trivial) choices final
    (reachable_start process hreach hstart) hrun

/-! ## Runs of a few processes

A run of processes with known names can be executed, and conditions that speak
about all processes in flight can be checked on the way.
-/

/-- Only processes with these names are in flight. -/
def Named (names : List Nat) (config : Config Store Process) : Prop :=
  ∀ name, name ∉ names → config.processes name = none

/-- A process in flight has one of the names. -/
theorem Named.mem {names : List Nat} {config : Config Store Process} (hnamed : Named names config)
    {name : Nat} {process : Process} (hprocess : config.processes name = some process) :
    name ∈ names := by
  by_contra hnot
  rw [hnamed name hnot] at hprocess
  cases hprocess

/-- The name of the process a move starts. -/
def Move.starts : Move Process Choice → Option Nat
  | .start name _ => some name
  | _ => none

variable (program) in
/-- Execute moves that pass a check. -/
def executeNamed (names : List Nat)
    (check : Config Store Process → Move Process Choice → Bool) :
    Config Store Process → List (Move Process Choice) → Option (Config Store Process)
  | config, [] => some config
  | config, move :: rest =>
      if move.starts.all (· ∈ names) && check config move then
        (program.next config move).bind fun after => executeNamed names check after rest
      else none

theorem Named.next {names : List Nat} {config after : Config Store Process}
    {move : Move Process Choice} (hnamed : Named names config)
    (hstarts : move.starts.all (· ∈ names) = true) (hnext : program.next config move = some after) :
    Named names after := by
  intro other hother
  cases move with
  | drift time =>
      simp only [Concurrent.next, Option.map_eq_some_iff] at hnext
      obtain ⟨store, -, rfl⟩ := hnext
      exact hnamed other hother
  | start name process =>
      simp only [Concurrent.next] at hnext
      split at hnext
      · cases hnext
        have hname : name ∈ names := by simpa [Move.starts] using hstarts
        dsimp only
        rw [Function.update_of_ne]
        · exact hnamed other hother
        · exact fun heq => hother (heq ▸ hname)
      · cases hnext
  | advance name choice =>
      simp only [Concurrent.next, Option.bind_eq_some_iff, Option.map_eq_some_iff] at hnext
      obtain ⟨process, hprocess, result, -, rfl⟩ := hnext
      dsimp only
      rw [Function.update_of_ne]
      · exact hnamed other hother
      · intro heq
        rw [← heq, hnamed other hother] at hprocess
        cases hprocess
  | stop name =>
      simp only [Concurrent.next, Option.some.injEq] at hnext
      cases hnext
      by_cases hname : other = name
      · rw [hname]
        exact Function.update_self ..
      · dsimp only
        rw [Function.update_of_ne hname]
        exact hnamed other hother

theorem reachable_executeNamed {names : List Nat}
    {check : Config Store Process → Move Process Choice → Bool}
    (hcheck : ∀ config move, Named names config → check config move = true → allowed config move)
    {config final : Config Store Process} (moves : List (Move Process Choice))
    (hnamed : Named names config)
    (hreach : (program.system initial).ReachableWhile allowed config)
    (hrun : executeNamed program names check config moves = some final) :
    (program.system initial).ReachableWhile allowed final ∧ Named names final := by
  induction moves generalizing config with
  | nil =>
      simp only [executeNamed, Option.some.injEq] at hrun
      exact hrun ▸ ⟨hreach, hnamed⟩
  | cons move rest ih =>
      simp only [executeNamed] at hrun
      split at hrun
      next hmove =>
        rw [Bool.and_eq_true] at hmove
        rw [Option.bind_eq_some_iff] at hrun
        obtain ⟨middle, hnext, hrest⟩ := hrun
        exact ih (hnamed.next hmove.1 hnext)
          (.step hreach (hcheck config move hnamed hmove.2) hnext) hrest
      next => cases hrun

/-- Moves that pass the check are a run, with its steps. -/
theorem exists_trace_executeNamed {names : List Nat}
    {check : Config Store Process → Move Process Choice → Bool}
    (hcheck : ∀ config move, Named names config → check config move = true → allowed config move)
    {config final : Config Store Process} (moves : List (Move Process Choice))
    (hnamed : Named names config)
    (hrun : executeNamed program names check config moves = some final) :
    ∃ steps, (program.system initial).TraceWhile allowed config steps final := by
  induction moves generalizing config with
  | nil =>
      cases hrun
      exact ⟨[], .nil⟩
  | cons move rest ih =>
      simp only [executeNamed] at hrun
      split at hrun
      next hmove =>
        rw [Bool.and_eq_true] at hmove
        obtain ⟨middle, hnext, hrest⟩ := Option.bind_eq_some_iff.mp hrun
        obtain ⟨steps, htrace⟩ := ih (hnamed.next hmove.1 hnext) hrest
        have hfirst : (program.system initial).TraceWhile allowed config [(config, move)] middle :=
          .concat .nil (hcheck config move hnamed hmove.2) hnext
        exact ⟨_, hfirst.append htrace⟩
      next => cases hrun

/-- The store, once every process has ended. -/
def settled (names : List Nat) (config : Config Store Process) : Option Store :=
  if names.all fun name => (config.processes name).isNone then some config.store else none

/-- The end of a run after which no process is left. -/
theorem reachable_settled {names : List Nat}
    {check : Config Store Process → Move Process Choice → Bool}
    (hcheck : ∀ config move, Named names config → check config move = true → allowed config move)
    {store final : Store} (moves : List (Move Process Choice))
    (hreach : (program.system initial).ReachableWhile allowed (idle store))
    (hrun : (executeNamed program names check (idle store) moves).bind (settled names) =
      some final) :
    (program.system initial).ReachableWhile allowed (idle final) := by
  rw [Option.bind_eq_some_iff] at hrun
  obtain ⟨config, hexecute, hsettled⟩ := hrun
  obtain ⟨hconfig, hnamed⟩ :=
    reachable_executeNamed hcheck moves (fun _ _ => rfl) hreach hexecute
  unfold settled at hsettled
  split at hsettled
  next hended =>
    simp only [List.all_eq_true, Option.isNone_iff_eq_none] at hended
    have hidle : config = idle final := by
      obtain ⟨store, processes⟩ := config
      simp only [idle, Config.mk.injEq]
      refine ⟨Option.some.inj hsettled, ?_⟩
      funext name
      by_cases hname : name ∈ names
      · exact hended name hname
      · exact hnamed name hname
    exact hidle ▸ hconfig
  next => cases hsettled

/-- `Guarded`, computed. -/
def isGuarded (guard : Config Store Process → Process → Prop)
    [∀ config process, Decidable (guard config process)] (config : Config Store Process) :
    Move Process Choice → Bool
  | .advance name _ => (config.processes name).all fun process => guard config process
  | _ => true

theorem guarded_of_isGuarded {guard : Config Store Process → Process → Prop}
    [∀ config process, Decidable (guard config process)] {config : Config Store Process}
    {move : Move Process Choice} (hguarded : isGuarded guard config move = true) :
    Guarded guard config move := by
  cases move with
  | advance name choice =>
      intro process hprocess
      simpa [isGuarded, hprocess] using hguarded
  | drift time => trivial
  | start name process => trivial
  | stop name => trivial

end Concurrent

end Foundation
