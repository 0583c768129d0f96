import Mathlib.Tactic.Common

/-! # Conditions of queries

A condition combines atoms by conjunction and disjunction, nested to any depth.
An empty conjunction accepts everything and an empty disjunction nothing.
-/

namespace Foundation

universe u

inductive Condition (α : Type u)
  | atom (condition : α)
  | all (conditions : List (Condition α))
  | any (conditions : List (Condition α))

namespace Condition

variable {α : Type u}

mutual

/-- The condition is met, given which atoms hold. -/
def accepts (holds : α → Bool) : Condition α → Bool
  | atom condition => holds condition
  | all conditions => acceptsAll holds conditions
  | any conditions => acceptsAny holds conditions

def acceptsAll (holds : α → Bool) : List (Condition α) → Bool
  | [] => true
  | condition :: rest => accepts holds condition && acceptsAll holds rest

def acceptsAny (holds : α → Bool) : List (Condition α) → Bool
  | [] => false
  | condition :: rest => accepts holds condition || acceptsAny holds rest

end

variable {holds : α → Bool}

@[simp] theorem accepts_atom (condition : α) : (atom condition).accepts holds = holds condition := by
  rw [accepts]

@[simp] theorem accepts_all (conditions : List (Condition α)) :
    (all conditions).accepts holds = conditions.all (·.accepts holds) := by
  rw [accepts]
  induction conditions with
  | nil => simp [acceptsAll]
  | cons condition rest ih => rw [acceptsAll, ih, List.all_cons]

@[simp] theorem accepts_any (conditions : List (Condition α)) :
    (any conditions).accepts holds = conditions.any (·.accepts holds) := by
  rw [accepts]
  induction conditions with
  | nil => simp [acceptsAny]
  | cons condition rest ih => rw [acceptsAny, ih, List.any_cons]

end Condition

end Foundation
