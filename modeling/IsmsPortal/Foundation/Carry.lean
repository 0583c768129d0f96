import Mathlib.Data.List.Induction

/-! # Values carried along a list

A mark of a list puts a value, keeps the value before it or resets it. What is carried behind a list
of marks is the last value that was put, if no reset follows it.
-/

namespace Foundation.Carry

universe u

inductive Mark (α : Type u) where
  | put (value : α)
  | keep
  | reset

variable {α : Type u}

def advance (carried : Option α) : Mark α → Option α
  | .put value => some value
  | .keep => carried
  | .reset => none

def carried (marks : List (Mark α)) : Option α := marks.foldl advance none

@[simp]
theorem carried_nil : carried ([] : List (Mark α)) = none := rfl

@[simp]
theorem carried_concat (marks : List (Mark α)) (mark : Mark α) :
    carried (marks ++ [mark]) = advance (carried marks) mark := by
  simp [carried]

/-- A value was put, and every later mark keeps it. -/
def IsLast (marks : List (Mark α)) (value : α) : Prop :=
  ∃ place : Nat, marks[place]? = some (.put value) ∧
    ∀ (later : Nat) (mark : Mark α), place < later → marks[later]? = some mark → mark = .keep

theorem isLast_concat {marks : List (Mark α)} {mark : Mark α} {value : α} :
    IsLast (marks ++ [mark]) value ↔
      mark = .put value ∨ mark = .keep ∧ IsLast marks value := by
  constructor
  · rintro ⟨place, hplace, hlater⟩
    obtain hlt | heq | hgt := Nat.lt_trichotomy place marks.length
    · have hkeep : mark = .keep := hlater marks.length mark hlt (by simp)
      refine .inr ⟨hkeep, place, ?_, ?_⟩
      · rwa [List.getElem?_append_left hlt] at hplace
      · intro later other hafter hother
        apply hlater later other hafter
        rwa [List.getElem?_append_left (List.getElem?_eq_some_iff.mp hother).1]
    · subst heq
      simp at hplace
      exact .inl hplace
    · rw [List.getElem?_eq_none (by simp; omega)] at hplace
      cases hplace
  · rintro (rfl | ⟨rfl, place, hplace, hlater⟩)
    · refine ⟨marks.length, by simp, ?_⟩
      intro later other hafter hother
      rw [List.getElem?_eq_none (by simp; omega)] at hother
      cases hother
    · have hlt := (List.getElem?_eq_some_iff.mp hplace).1
      refine ⟨place, by rwa [List.getElem?_append_left hlt], ?_⟩
      intro later other hafter hother
      obtain hinside | houtside := Nat.lt_or_ge later marks.length
      · rw [List.getElem?_append_left hinside] at hother
        exact hlater later other hafter hother
      · rw [List.getElem?_append_right houtside] at hother
        simp [List.getElem?_singleton] at hother
        exact hother.2.symm

theorem carried_eq_some_iff {marks : List (Mark α)} {value : α} :
    carried marks = some value ↔ IsLast marks value := by
  induction marks using List.reverseRecOn with
  | nil => simp [IsLast]
  | append_singleton marks mark ih =>
      rw [carried_concat, isLast_concat]
      cases mark with
      | put other => simp [advance]
      | keep => simpa [advance] using ih
      | reset => simp [advance]

theorem carried_eq_none_iff {marks : List (Mark α)} :
    carried marks = none ↔ ∀ value, ¬ IsLast marks value := by
  simp only [← carried_eq_some_iff, Option.eq_none_iff_forall_ne_some, ne_eq]

end Foundation.Carry
