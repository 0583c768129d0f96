import Mathlib.Data.List.Basic

/-! # What is around the elements of a list

A statement about each element of a list together with what is before it and what follows it, as it
is made about the events of a trace.
-/

namespace Foundation

universe u

/-- Of each event of a trace, with what was before it and what follows. -/
def Throughout {ε : Type u} (holds : List ε → ε → List ε → Prop) (trace : List ε) : Prop :=
  ∀ before event after, trace = before ++ event :: after → holds before event after

variable {ε : Type u} {holds : List ε → ε → List ε → Prop} {first second : List ε}

theorem throughout_nil : Throughout holds [] := fun before event after h => by
  simp at h

theorem throughout_append (hfirst : Throughout (fun before event after =>
      holds before event (after ++ second)) first)
    (hsecond : Throughout (fun before => holds (first ++ before)) second) :
    Throughout holds (first ++ second) := by
  intro before event after htrace
  obtain ⟨rest, rfl, hrest⟩ | ⟨rest, rfl, hrest⟩ := List.append_eq_append_iff.mp htrace
  · exact hsecond rest event after hrest
  · cases rest with
    | nil => simpa using hsecond [] event after hrest.symm
    | cons head rest =>
        rw [List.cons_append, List.cons.injEq] at hrest
        obtain ⟨rfl, rfl⟩ := hrest
        exact hfirst before event rest rfl

theorem throughout_cons {event : ε} (hevent : holds [] event second)
    (hsecond : Throughout (fun before => holds (event :: before)) second) :
    Throughout holds (event :: second) := by
  rw [← List.singleton_append]
  refine throughout_append (fun before middle after htrace => ?_) hsecond
  obtain ⟨rfl, rfl, rfl⟩ : before = [] ∧ middle = event ∧ after = [] := by
    cases before with
    | nil => simpa [eq_comm] using htrace
    | cons head rest => simp at htrace
  exact hevent

theorem Throughout.mono {weaker : List ε → ε → List ε → Prop} (h : Throughout holds first)
    (himp : ∀ before event after, first = before ++ event :: after → holds before event after →
      weaker before event after) : Throughout weaker first :=
  fun before event after htrace => himp before event after htrace (h before event after htrace)

/-- What holds of the events alone. -/
theorem throughout_of_forall_mem (h : ∀ event ∈ first, ∀ before after, holds before event after) :
    Throughout holds first := by
  rintro before event after rfl
  exact h event (List.mem_append_right _ List.mem_cons_self) before after

end Foundation
