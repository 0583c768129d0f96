import Mathlib.Tactic.Common

/-! # Requests that check before they write

A request is a chain of checks in `Except`, each of which refuses or lets the
rest go on. What an accepted request has passed is read off the chain from the
first check to the last, and what a refused one has not passed as well. A
request that fails changes nothing.
-/

namespace Foundation.Checks

universe u v

variable {ε : Type u} {α β : Type v}

theorem accepts_bind {first : Except ε α} {rest : α → Except ε β} {result : β} :
    (first >>= rest) = .ok result ↔
      ∃ value, first = .ok value ∧ rest value = .ok result := by
  cases first with
  | error error =>
      constructor
      · intro h
        cases h
      · intro h
        obtain ⟨_, hfirst, _⟩ := h
        cases hfirst
  | ok value =>
      constructor
      · intro h
        exact ⟨value, rfl, h⟩
      · intro h
        obtain ⟨other, hfirst, hrest⟩ := h
        cases hfirst
        exact hrest

theorem accepts_pure {value result : β} :
    (pure value : Except ε β) = .ok result ↔ value = result := by
  constructor
  · intro h
    injection h
  · intro h
    rw [h]
    rfl

theorem not_accepts_throw {error : ε} {result : β} :
    (throw error : Except ε β) = .ok result ↔ False := by
  constructor
  · intro h
    cases h
  · exact False.elim

variable {condition : Prop} [Decidable condition] {error : ε} {next : Except ε β}
  {rest : α → Except ε β} {result : β}

/-- `unless condition do throw error`, and the rest of the request. -/
theorem accepts_unless :
    (if condition then next else throw error >>= rest) = .ok result ↔
      condition ∧ next = .ok result := by
  split
  next h => simp [h]
  next h =>
    constructor
    · intro hthrow
      cases hthrow
    · intro hboth
      exact absurd hboth.1 h

/-- `if condition then throw error`, and the rest of the request. -/
theorem accepts_if :
    (if condition then throw error >>= rest else next) = .ok result ↔
      ¬condition ∧ next = .ok result := by
  split
  next h =>
    constructor
    · intro hthrow
      cases hthrow
    · intro hboth
      exact absurd h hboth.1
  next h => simp [h]

/-- A loop of checks passes when each of them does. -/
theorem accepts_forM {items : List α} {check : α → Except ε Unit} {done : Unit} :
    items.forM check = .ok done ↔ ∀ item ∈ items, check item = .ok () := by
  induction items with
  | nil => simp [List.forM, pure, Except.pure]
  | cons item rest ih =>
      have hunfold : (item :: rest).forM check = check item >>= fun _ => rest.forM check := rfl
      rw [hunfold, accepts_bind, List.forall_mem_cons]
      constructor
      · intro h
        obtain ⟨_, hitem, hrest⟩ := h
        exact ⟨hitem, ih.mp hrest⟩
      · intro h
        exact ⟨(), h.1, ih.mpr h.2⟩

/-- Every answer of a loop comes from one of its items. -/
theorem mem_of_mapM {items : List α} {check : α → Except ε β} {answers : List β}
    (hmap : items.mapM check = .ok answers) {answer : β} (hanswer : answer ∈ answers) :
    ∃ item ∈ items, check item = .ok answer := by
  induction items generalizing answers with
  | nil =>
      rw [List.mapM_nil] at hmap
      cases hmap
      cases hanswer
  | cons item rest ih =>
      rw [List.mapM_cons] at hmap
      obtain ⟨first, hfirst, hrest⟩ := accepts_bind.mp hmap
      obtain ⟨others, hothers, hpure⟩ := accepts_bind.mp hrest
      rw [← accepts_pure.mp hpure] at hanswer
      rcases List.mem_cons.mp hanswer with rfl | hmem
      · exact ⟨item, List.mem_cons_self, hfirst⟩
      · obtain ⟨other, hother, hcheck⟩ := ih hothers hmem
        exact ⟨other, List.mem_cons_of_mem _ hother, hcheck⟩

theorem toOption_eq_some {answer : Except ε β} :
    answer.toOption = some result ↔ answer = .ok result := by
  cases answer with
  | error error => simp [Except.toOption]
  | ok value => simp [Except.toOption]

/-! ## Refusals -/

variable {refusal : ε}

theorem refuses_bind {first : Except ε α} :
    (first >>= rest) = .error refusal ↔
      first = .error refusal ∨ ∃ value, first = .ok value ∧ rest value = .error refusal := by
  cases first with
  | error other =>
      have hbind : ((.error other : Except ε α) >>= rest) = .error other := rfl
      rw [hbind]
      simp
  | ok value =>
      have hbind : ((.ok value : Except ε α) >>= rest) = rest value := rfl
      rw [hbind]
      simp

theorem refuses_unless :
    (if condition then next else throw error >>= rest) = .error refusal ↔
      (condition ∧ next = .error refusal) ∨ (¬condition ∧ error = refusal) := by
  split
  next h => simp [h]
  next h =>
    have hthrow : (throw error >>= rest) = (.error error : Except ε β) := rfl
    rw [hthrow]
    simp [h]

theorem refuses_if :
    (if condition then throw error >>= rest else next) = .error refusal ↔
      (condition ∧ error = refusal) ∨ (¬condition ∧ next = .error refusal) := by
  split
  next h =>
    have hthrow : (throw error >>= rest) = (.error error : Except ε β) := rfl
    rw [hthrow]
    simp [h]
  next h => simp [h]

/-- A loop of checks is refused by one of them. -/
theorem exists_refuses_of_forM {items : List α} {check : α → Except ε Unit}
    (hloop : items.forM check = .error refusal) : ∃ item ∈ items, check item = .error refusal := by
  induction items with
  | nil => cases hloop
  | cons item rest ih =>
      have hunfold : (item :: rest).forM check = check item >>= fun _ => rest.forM check := rfl
      rw [hunfold, refuses_bind] at hloop
      obtain hitem | ⟨_, _, hrest⟩ := hloop
      · exact ⟨item, List.mem_cons_self, hitem⟩
      · obtain ⟨other, hother, hrefused⟩ := ih hrest
        exact ⟨other, List.mem_cons_of_mem item hother, hrefused⟩

/-! ## What a request leaves -/

/-- The state after a request that is refused beforehand or has an answer. A request that
fails changes nothing. -/
def performed (refused : Bool) (answer : Except ε β) (state : β) : β :=
  if refused then state else answer.toOption.getD state

theorem performed_cases (refused : Bool) (answer : Except ε β) (state : β) :
    performed refused answer state = state ∨
      refused = false ∧ answer = .ok (performed refused answer state) := by
  cases refused with
  | true => exact .inl rfl
  | false =>
      cases answer with
      | error error => exact .inl rfl
      | ok after => exact .inr ⟨rfl, rfl⟩

/-- What holds before, and after every accepted request, holds after a request. -/
theorem performed_keeps (property : β → Prop) {refused : Bool} {answer : Except ε β} {state : β}
    (hbefore : property state) (haccepted : ∀ after, answer = .ok after → property after) :
    property (performed refused answer state) := by
  obtain hsame | ⟨-, hanswer⟩ := performed_cases refused answer state
  · rw [hsame]
    exact hbefore
  · exact haccepted _ hanswer

end Foundation.Checks
