import IsmsPortal.Foundation.Interleaving

/-! # Refinement of concurrent programs

A program refines another when every one of its statements is, seen through a
projection of stores and processes, a statement of the other program, or leaves
the projection alone. A process may also end where the abstract one would go on.
Reachable configurations then project to reachable ones, and the invariants of
the abstract program hold for the refined one.
-/

namespace Foundation.Concurrent

universe u v w

variable {Store Store' : Type u} {Process Process' : Type v} {Choice Choice' : Type w}

/-- The configuration seen through a projection. -/
def Config.project (storeOf : Store → Store') (placeOf : Process → Process')
    (config : Config Store Process) : Config Store' Process' where
  store := storeOf config.store
  processes name := (config.processes name).map placeOf

/-- `program` refines `abstract` through the projection. -/
structure Refines (program : Concurrent Store Process Choice)
    (abstract : Concurrent Store' Process' Choice') (storeOf : Store → Store')
    (placeOf : Process → Process') : Prop where
  drift : ∀ time store after, program.drift time store = some after →
    abstract.drift time (storeOf store) = some (storeOf after)
  start : ∀ process, program.start process = true → abstract.start (placeOf process) = true
  /-- A statement of the abstract program, after which the process may end, or none. -/
  advance : ∀ name choice store process remaining after,
    program.advance name choice store process = some (remaining, after) →
    (∃ choice' remaining', abstract.advance name choice' (storeOf store) (placeOf process) =
        some (remaining', storeOf after) ∧
        (remaining.map placeOf = remaining' ∨ remaining = none)) ∨
      (storeOf after = storeOf store ∧
        (remaining.map placeOf = some (placeOf process) ∨ remaining = none))

variable {program : Concurrent Store Process Choice}
variable {abstract : Concurrent Store' Process' Choice'}
variable {storeOf : Store → Store'} {placeOf : Process → Process'}

theorem Config.project_update (config : Config Store Process) (store : Store) (name : Nat)
    (remaining : Option Process) :
    Config.project storeOf placeOf ⟨store, Function.update config.processes name remaining⟩ =
      ⟨storeOf store, Function.update (config.project storeOf placeOf).processes name
        (remaining.map placeOf)⟩ := by
  simp only [project, Config.mk.injEq, true_and]
  funext other
  by_cases hother : other = name
  · rw [hother, Function.update_self, Function.update_self]
  · rw [Function.update_of_ne hother, Function.update_of_ne hother]

/-- One move of the refined program is a run of the abstract one. -/
theorem Refines.next (hrefines : program.Refines abstract storeOf placeOf)
    {initial' : Store' → Prop} {config after : Config Store Process} {move : Move Process Choice}
    (hnext : program.next config move = some after)
    (hreach : (abstract.system initial').Reachable (config.project storeOf placeOf)) :
    (abstract.system initial').Reachable (after.project storeOf placeOf) := by
  cases move with
  | drift time =>
      simp only [Concurrent.next, Option.map_eq_some_iff] at hnext
      obtain ⟨store, hdrift, rfl⟩ := hnext
      refine hreach.next (.drift time) _ trivial ?_
      simp [system, Concurrent.next, Config.project, hrefines.drift time _ _ hdrift]
  | start name process =>
      simp only [Concurrent.next] at hnext
      split at hnext
      next hstart =>
        cases hnext
        refine hreach.next (.start name (placeOf process)) _ trivial ?_
        rw [Config.project_update]
        simpa [system, Concurrent.next, Config.project, hrefines.start process hstart.1]
          using hstart.2
      next => cases hnext
  | stop name =>
      simp only [Concurrent.next, Option.some.injEq] at hnext
      cases hnext
      refine hreach.next (.stop name) _ trivial ?_
      rw [Config.project_update]
      rfl
  | advance name choice =>
      simp only [Concurrent.next, Option.bind_eq_some_iff, Option.map_eq_some_iff] at hnext
      obtain ⟨process, hprocess, ⟨remaining, store⟩, hadvance, rfl⟩ := hnext
      have hplace : (config.project storeOf placeOf).processes name = some (placeOf process) := by
        simp [Config.project, hprocess]
      rw [Config.project_update]
      rcases hrefines.advance _ _ _ _ _ _ hadvance with ⟨choice', remaining', habstract, hend⟩ |
        ⟨hsame, hend⟩
      · have hmoved := hreach.next (.advance name choice')
          ⟨storeOf store, Function.update (config.project storeOf placeOf).processes name remaining'⟩
          trivial (by simp [system, Concurrent.next, hprocess, Config.project, habstract])
        rcases hend with hremaining | hended
        · rw [hremaining]
          exact hmoved
        · rw [hended]
          refine hmoved.next (.stop name) _ trivial ?_
          simp [system, Concurrent.next]
      · dsimp only
        rw [hsame]
        rcases hend with hremaining | hended
        · rw [hremaining, ← hplace, Function.update_eq_self]
          exact hreach
        · rw [hended]
          exact hreach.next (.stop name) _ trivial rfl

/-- **Refinement.** Reachable configurations project to reachable ones. -/
theorem Refines.reachable (hrefines : program.Refines abstract storeOf placeOf)
    {initial : Store → Prop} {initial' : Store' → Prop}
    (hinitial : ∀ store, initial store → initial' (storeOf store))
    {allowed : Config Store Process → Move Process Choice → Prop} {config : Config Store Process}
    (hreach : (program.system initial).ReachableWhile allowed config) :
    (abstract.system initial').Reachable (config.project storeOf placeOf) := by
  induction hreach with
  | init hinit =>
      refine .init ⟨hinitial _ hinit.1, fun name => ?_⟩
      simp [Config.project, hinit.2 name]
  | step _ _ hnext ih => exact hrefines.next hnext ih

end Foundation.Concurrent
