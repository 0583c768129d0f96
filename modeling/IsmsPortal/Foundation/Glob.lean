import Mathlib.Data.List.Basic

/-! # Patterns with wildcards

A pattern is a list of tokens: symbols that stand for themselves, a token for any one symbol and a
token for any sequence. Symbols that a part without the latter takes are determined, so a match may
give that part the first place where it fits: what is left of the text then has a later match
whenever the text has one.
-/

namespace Foundation.Glob

inductive Token (α : Type*)
  | literal (value : α)
  | any
  | star
deriving DecidableEq

section Matching

variable {α : Type*}

/-- The pattern matches the whole text. -/
inductive Matches : List (Token α) → List α → Prop
  | nil : Matches [] []
  | literal {tokens : List (Token α)} {text : List α} (value : α) (h : Matches tokens text) :
      Matches (.literal value :: tokens) (value :: text)
  | any {tokens : List (Token α)} {text : List α} (value : α) (h : Matches tokens text) :
      Matches (.any :: tokens) (value :: text)
  | star {tokens : List (Token α)} {text : List α} (skipped : List α) (h : Matches tokens text) :
      Matches (.star :: tokens) (skipped ++ text)

/-- A part of a pattern that takes one symbol with each token, and leaves the rest of the text. -/
inductive Consumes : List (Token α) → List α → List α → Prop
  | nil (text : List α) : Consumes [] text text
  | literal {tokens : List (Token α)} {text rest : List α} (value : α)
      (h : Consumes tokens text rest) : Consumes (.literal value :: tokens) (value :: text) rest
  | any {tokens : List (Token α)} {text rest : List α} (value : α)
      (h : Consumes tokens text rest) : Consumes (.any :: tokens) (value :: text) rest

/-- A part in front decides only whether the text starts with it. -/
theorem Consumes.matches_iff {front tokens : List (Token α)} {text rest : List α}
    (hfront : Consumes front text rest) :
    Matches (front ++ tokens) text ↔ Matches tokens rest := by
  induction hfront with
  | nil => exact Iff.rfl
  | literal value _ ih =>
      rw [List.cons_append, ← ih]
      exact ⟨fun h => by cases h; assumption, .literal value⟩
  | any value _ ih =>
      rw [List.cons_append, ← ih]
      exact ⟨fun h => by cases h; assumption, .any value⟩

theorem Consumes.concat_literal {front : List (Token α)} {text rest : List α} {value : α}
    (hfront : Consumes front text (value :: rest)) :
    Consumes (front ++ [.literal value]) text rest := by
  generalize hleft : value :: rest = left at hfront
  induction hfront with
  | nil => subst hleft; exact .literal value (.nil rest)
  | literal other _ ih => exact .literal other (ih hleft)
  | any other _ ih => exact .any other (ih hleft)

theorem Consumes.concat_any {front : List (Token α)} {text rest : List α} {value : α}
    (hfront : Consumes front text (value :: rest)) : Consumes (front ++ [.any]) text rest := by
  generalize hleft : value :: rest = left at hfront
  induction hfront with
  | nil => subst hleft; exact .any value (.nil rest)
  | literal other _ ih => exact .literal other (ih hleft)
  | any other _ ih => exact .any other (ih hleft)

/-- The symbols that are taken are as many as the tokens. -/
theorem Consumes.exists_taken {front : List (Token α)} {text rest : List α}
    (hfront : Consumes front text rest) :
    ∃ taken, text = taken ++ rest ∧ taken.length = front.length := by
  induction hfront with
  | nil => exact ⟨[], rfl, rfl⟩
  | literal value _ ih =>
      obtain ⟨taken, rfl, hlength⟩ := ih
      exact ⟨value :: taken, rfl, congrArg (· + 1) hlength⟩
  | any value _ ih =>
      obtain ⟨taken, rfl, hlength⟩ := ih
      exact ⟨value :: taken, rfl, congrArg (· + 1) hlength⟩

/-- What follows a part without stars is matched by the symbols that the part leaves. -/
theorem Consumes.of_matches {front tokens : List (Token α)} {text rest other : List α}
    (hfront : Consumes front text rest) (hother : Matches (front ++ tokens) other) :
    ∃ left, Consumes front other left ∧ Matches tokens left := by
  induction hfront generalizing other with
  | nil => exact ⟨other, .nil other, hother⟩
  | literal value _ ih =>
      cases hother with
      | literal _ h =>
          obtain ⟨left, hconsumes, hmatches⟩ := ih h
          exact ⟨left, .literal value hconsumes, hmatches⟩
  | any value _ ih =>
      cases hother with
      | any symbol h =>
          obtain ⟨left, hconsumes, hmatches⟩ := ih h
          exact ⟨left, .any symbol hconsumes, hmatches⟩

/-! ## Stars -/

theorem exists_of_matches_star {tokens : List (Token α)} {text : List α}
    (h : Matches (.star :: tokens) text) :
    ∃ skipped rest, text = skipped ++ rest ∧ Matches tokens rest := by
  cases h with
  | star skipped h => exact ⟨skipped, _, rfl, h⟩

/-- A star takes more symbols as well. -/
theorem Matches.absorb {tokens : List (Token α)} {text : List α}
    (h : Matches (.star :: tokens) text) (more : List α) :
    Matches (.star :: tokens) (more ++ text) := by
  obtain ⟨skipped, rest, rfl, hrest⟩ := exists_of_matches_star h
  rw [← List.append_assoc]
  exact .star (more ++ skipped) hrest

/-- A star takes the first symbol, or none. -/
theorem matches_star_cons {tokens : List (Token α)} {value : α} {text : List α} :
    Matches (.star :: tokens) (value :: text) ↔
      Matches tokens (value :: text) ∨ Matches (.star :: tokens) text := by
  constructor
  · intro h
    obtain ⟨skipped, rest, htext, hrest⟩ := exists_of_matches_star h
    cases skipped with
    | nil => exact .inl (htext ▸ hrest)
    | cons symbol skipped =>
        obtain ⟨-, rfl⟩ := List.cons.inj htext
        exact .inr (.star skipped hrest)
  · rintro (h | h)
    · exact .star [] h
    · exact h.absorb [value]

/-- The part between two stars may take the first place where it fits: the second star takes what
lies between that place and another one. -/
theorem Consumes.exchange {front tokens : List (Token α)} {text rest : List α}
    (hfront : Consumes front text rest) :
    Matches (.star :: (front ++ .star :: tokens)) text ↔ Matches (.star :: tokens) rest := by
  constructor
  · intro h
    obtain ⟨skipped, other, htext, hother⟩ := exists_of_matches_star h
    obtain ⟨left, hconsumes, hleft⟩ := hfront.of_matches hother
    obtain ⟨taken, htaken, hlength⟩ := hfront.exists_taken
    obtain ⟨taken', hother', hlength'⟩ := hconsumes.exists_taken
    -- What another place leaves is the end of what the first one leaves.
    have htails : taken ++ rest = (skipped ++ taken') ++ left := by
      rw [← htaken, htext, hother', List.append_assoc]
    rcases List.append_eq_append_iff.mp htails with ⟨between, -, hrest⟩ | ⟨between, htaken', hrest⟩
    · exact hrest ▸ hleft.absorb between
    · have hsizes := congrArg List.length htaken'
      simp only [List.length_append] at hsizes
      obtain rfl : between = [] := List.length_eq_zero_iff.mp (by omega)
      exact (List.nil_append rest ▸ hrest) ▸ hleft
  · intro h
    exact .star [] (hfront.matches_iff.mpr h)

/-- With nothing left after the part, it fits in no other place. -/
theorem Consumes.matches_star_nil {front tokens : List (Token α)} {text : List α}
    (hfront : Consumes front text []) :
    Matches (.star :: (front ++ tokens)) text ↔ Matches tokens [] := by
  constructor
  · intro h
    obtain ⟨skipped, other, htext, hother⟩ := exists_of_matches_star h
    obtain ⟨left, hconsumes, hleft⟩ := hfront.of_matches hother
    obtain ⟨taken, htaken, hlength⟩ := hfront.exists_taken
    obtain ⟨taken', hother', hlength'⟩ := hconsumes.exists_taken
    have hsizes := congrArg List.length htext
    rw [htaken, hother'] at hsizes
    simp only [List.length_append, List.length_nil] at hsizes
    obtain rfl : left = [] := List.length_eq_zero_iff.mp (by omega)
    exact hleft
  · intro h
    exact .star [] (hfront.matches_iff.mpr h)

/-- Only stars match no symbol. -/
theorem matches_nil_iff {tokens : List (Token α)} :
    Matches tokens [] ↔ ∀ token ∈ tokens, token = .star := by
  induction tokens with
  | nil => simp [Matches.nil]
  | cons token tokens ih =>
      rw [List.forall_mem_cons, ← ih]
      constructor
      · intro h
        generalize htext : ([] : List α) = text at h
        cases h with
        | literal value _ => cases htext
        | any value _ => cases htext
        | star skipped hrest =>
            rw [(List.append_eq_nil_iff.mp htext.symm).2] at hrest
            rw [← htext]
            exact ⟨rfl, hrest⟩
      · rintro ⟨rfl, h⟩
        exact .star [] h

/-- A symbol that the first token does not stand for. -/
theorem not_matches_cons {tokens : List (Token α)} {value : α} {text : List α}
    (hliteral : tokens.head? ≠ some (.literal value)) (hany : tokens.head? ≠ some .any)
    (hstar : tokens.head? ≠ some .star) : ¬ Matches tokens (value :: text) := by
  intro h
  generalize hwhole : value :: text = whole at h
  cases h with
  | nil => cases hwhole
  | literal symbol _ =>
      obtain ⟨rfl, -⟩ := List.cons.inj hwhole
      exact hliteral rfl
  | any _ _ => exact hany rfl
  | star _ _ => exact hstar rfl

end Matching

end Foundation.Glob
