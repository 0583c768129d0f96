import Mathlib.Algebra.Ring.Nat
import Mathlib.Data.List.Basic
import Mathlib.Data.List.TakeWhile
import Mathlib.Tactic.Common

/-! # Unambiguous texts

A text format is read back from the left. A token class is unambiguous when a
token followed by a delimiter determines both the token and what follows;
comma separated sequences of such tokens inherit the property. Numbers of a
fixed width are unambiguous without delimiter.
-/

namespace Foundation.Text

/-- The characters that may follow a complete token of a bracketed format. -/
def delimiters : List Char := [',', ']', '}']

theorem mem_delimiters {c : Char} : c ∈ delimiters ↔ c = ',' ∨ c = ']' ∨ c = '}' := by
  simp [delimiters]

theorem comma_mem_delimiters : ',' ∈ delimiters := mem_delimiters.mpr (.inl rfl)

/-- The text is finished, or goes on with a delimiter. -/
def Delimited (rest : List Char) : Prop := ∀ c ∈ rest.head?, c ∈ delimiters

theorem delimited_cons {c : Char} (hc : c ∈ delimiters) (rest : List Char) :
    Delimited (c :: rest) := by
  simpa [Delimited] using hc

/-- Two tokens are told apart by the texts that start with them. -/
def Separable (token token' : List Char) : Prop :=
  ∀ rest rest', Delimited rest → Delimited rest' → token ++ rest = token' ++ rest' →
    token = token' ∧ rest = rest'

/-- Maximal runs of one character class end at the first other character. -/
theorem append_eq_of_class {inClass : Char → Bool} {token token' rest rest' : List Char}
    (htoken : ∀ c ∈ token, inClass c = true) (htoken' : ∀ c ∈ token', inClass c = true)
    (hrest : ∀ c ∈ rest.head?, inClass c = false)
    (hrest' : ∀ c ∈ rest'.head?, inClass c = false)
    (heq : token ++ rest = token' ++ rest') : token = token' ∧ rest = rest' := by
  have hstop : ∀ tail : List Char, (∀ c ∈ tail.head?, inClass c = false) →
      tail.takeWhile inClass = [] := by
    intro tail htail
    cases tail with
    | nil => rfl
    | cons c tail => simp [htail c (by simp)]
  have htake := congrArg (List.takeWhile inClass) heq
  rw [List.takeWhile_append_of_pos htoken, List.takeWhile_append_of_pos htoken',
    hstop rest hrest, hstop rest' hrest', List.append_nil, List.append_nil] at htake
  subst htake
  exact ⟨rfl, List.append_cancel_left heq⟩

/-- Codes that a reader takes off one by one are read back, up to the first text that is none. -/
theorem flatMap_split {β γ : Type} {code : β → List γ} {read : List γ → Option (β × List γ)}
    (hread : ∀ item rest, read (code item ++ rest) = some (item, rest))
    {body body' : List β} {rest rest' : List γ} (hrest : read rest = none)
    (hrest' : read rest' = none) (heq : body.flatMap code ++ rest = body'.flatMap code ++ rest') :
    body = body' ∧ rest = rest' := by
  induction body generalizing body' with
  | nil =>
      cases body' with
      | nil => exact ⟨rfl, heq⟩
      | cons item' body' =>
          rw [List.flatMap_nil, List.nil_append, List.flatMap_cons, List.append_assoc] at heq
          rw [heq, hread] at hrest
          cases hrest
  | cons item body ih =>
      rw [List.flatMap_cons, List.append_assoc] at heq
      have hhead := congrArg read heq
      rw [hread] at hhead
      cases body' with
      | nil =>
          rw [List.flatMap_nil, List.nil_append, hrest'] at hhead
          cases hhead
      | cons item' body' =>
          rw [List.flatMap_cons, List.append_assoc, hread, Option.some.injEq,
            Prod.mk.injEq] at hhead
          obtain ⟨rfl, htail⟩ := hhead
          obtain ⟨rfl, hrest⟩ := ih htail
          exact ⟨rfl, hrest⟩

/-- Comma separated tokens up to a closing bracket are read back one by one,
provided that no token starts with the bracket. -/
theorem intercalate_split {close : Char} (hclose : close ∈ delimiters) (hcomma : close ≠ ',')
    {tokens tokens' : List (List Char)} {rest rest' : List Char}
    (hseparable : ∀ token ∈ tokens, ∀ token' ∈ tokens', Separable token token')
    (hstart : ∀ token ∈ tokens, token.head? ≠ none ∧ token.head? ≠ some close)
    (hstart' : ∀ token ∈ tokens', token.head? ≠ none ∧ token.head? ≠ some close)
    (heq : List.intercalate [','] tokens ++ close :: rest =
      List.intercalate [','] tokens' ++ close :: rest') :
    tokens = tokens' ∧ rest = rest' := by
  have hmismatch : ∀ (token more tail : List Char), token.head? ≠ none →
      token.head? ≠ some close → close :: tail ≠ token ++ more := by
    intro token more tail hne hhead hcontra
    cases token with
    | nil => exact hne rfl
    | cons c token =>
        rw [List.cons_append, List.cons.injEq] at hcontra
        exact hhead (by rw [List.head?_cons, hcontra.1])
  have hnonempty : ∀ (token : List Char) (others : List (List Char)) (tail : List Char),
      ∃ more, List.intercalate [','] (token :: others) ++ tail = token ++ more := by
    intro token others tail
    cases others with
    | nil => exact ⟨tail, by simp⟩
    | cons other others =>
        exact ⟨_, by rw [List.intercalate_cons_cons, List.append_assoc, List.append_assoc]⟩
  induction tokens generalizing tokens' with
  | nil =>
      cases tokens' with
      | nil => simpa using heq
      | cons token' others' =>
          obtain ⟨more, hmore⟩ := hnonempty token' others' (close :: rest')
          obtain ⟨hne, hhead⟩ := hstart' token' List.mem_cons_self
          rw [hmore] at heq
          exact absurd heq (hmismatch token' more rest hne hhead)
  | cons token others ih =>
      cases tokens' with
      | nil =>
          obtain ⟨more, hmore⟩ := hnonempty token others (close :: rest)
          obtain ⟨hne, hhead⟩ := hstart token List.mem_cons_self
          rw [hmore] at heq
          exact absurd heq.symm (hmismatch token more rest' hne hhead)
      | cons token' others' =>
          have hhead := hseparable token List.mem_cons_self token' List.mem_cons_self
          have htail : List.intercalate [','] others ++ close :: rest =
              List.intercalate [','] others' ++ close :: rest' →
                others = others' ∧ rest = rest' :=
            ih (fun t ht t' ht' => hseparable t (List.mem_cons_of_mem _ ht)
              t' (List.mem_cons_of_mem _ ht')) (fun t ht => hstart t (List.mem_cons_of_mem _ ht))
              (fun t ht => hstart' t (List.mem_cons_of_mem _ ht))
          cases others with
          | nil =>
              cases others' with
              | nil =>
                  simp only [List.intercalate_singleton] at heq
                  obtain ⟨rfl, hrest⟩ := hhead _ _ (delimited_cons hclose _)
                    (delimited_cons hclose _) heq
                  exact ⟨rfl, (List.cons.inj hrest).2⟩
              | cons second' others' =>
                  rw [List.intercalate_singleton, List.intercalate_cons_cons,
                    List.append_assoc, List.append_assoc] at heq
                  obtain ⟨_, hrest⟩ := hhead _ _ (delimited_cons hclose _)
                    (delimited_cons comma_mem_delimiters _) heq
                  exact absurd (List.cons.inj hrest).1 hcomma
          | cons second others =>
              cases others' with
              | nil =>
                  rw [List.intercalate_singleton, List.intercalate_cons_cons,
                    List.append_assoc, List.append_assoc] at heq
                  obtain ⟨_, hrest⟩ := hhead _ _ (delimited_cons comma_mem_delimiters _)
                    (delimited_cons hclose _) heq
                  exact absurd (List.cons.inj hrest).1.symm hcomma
              | cons second' others' =>
                  rw [List.intercalate_cons_cons, List.intercalate_cons_cons,
                    List.append_assoc, List.append_assoc, List.append_assoc,
                    List.append_assoc] at heq
                  obtain ⟨rfl, hrest⟩ := hhead _ _ (delimited_cons comma_mem_delimiters _)
                    (delimited_cons comma_mem_delimiters _) heq
                  obtain ⟨hothers, htail⟩ := htail (List.cons.inj hrest).2
                  exact ⟨by rw [hothers], htail⟩

/-! ## Fixed width -/

/-- The last `width` decimal digits of a number, with leading zeros. -/
def fixedDigits : Nat → Nat → List Char
  | 0, _ => []
  | width + 1, n => fixedDigits width (n / 10) ++ [(n % 10).digitChar]

@[simp] theorem length_fixedDigits (width n : Nat) : (fixedDigits width n).length = width := by
  induction width generalizing n with
  | zero => rfl
  | succ width ih => simp [fixedDigits, ih]

theorem ofDigitChars_fixedDigits (width n : Nat) :
    Nat.ofDigitChars 10 (fixedDigits width n) 0 = n % 10 ^ width := by
  induction width generalizing n with
  | zero => simp [fixedDigits, Nat.mod_one]
  | succ width ih =>
      rw [fixedDigits, Nat.ofDigitChars_append, ih,
        Nat.ofDigitChars_cons_digitChar_of_lt_ten (Nat.mod_lt _ (by omega)),
        Nat.ofDigitChars_nil, Nat.pow_succ, Nat.mul_comm (10 ^ width) 10, Nat.mod_mul]
      omega

/-- Fixed-width fields are read back without a delimiter. -/
theorem fixedDigits_split {width n n' : Nat} (hn : n < 10 ^ width) (hn' : n' < 10 ^ width)
    {rest rest' : List Char}
    (heq : fixedDigits width n ++ rest = fixedDigits width n' ++ rest') :
    n = n' ∧ rest = rest' := by
  obtain ⟨hdigits, hrest⟩ := List.append_inj heq (by simp)
  have hvalue := congrArg (Nat.ofDigitChars 10 · 0) hdigits
  simp only [ofDigitChars_fixedDigits, Nat.mod_eq_of_lt hn, Nat.mod_eq_of_lt hn'] at hvalue
  exact ⟨hvalue, hrest⟩

end Foundation.Text
