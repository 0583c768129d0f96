import IsmsPortal.Foundation.CodeUnits
import IsmsPortal.Foundation.Glob

/-! # Patterns of saved filters

A filter of a workbook may compare a cell with a pattern. The matcher walks along the text and the
tokens of the pattern and remembers the last star only, from which it starts again where a token
does not fit. Nothing is lost: a star before it could take what the last one takes.
-/

namespace Filters.Wildcard

open Foundation Glob

def tilde : CodePoint := .scalar '~'

def asterisk : CodePoint := .scalar '*'

def question : CodePoint := .scalar '?'

/-- The lower-cased text matches the lower-cased pattern: an asterisk stands for any sequence, a
question mark for one character, and a tilde makes the next character stand for itself. -/
inductive PatternMatches : List CodePoint → List CodePoint → Prop
  | nil : PatternMatches [] []
  | sequence {pattern text : List CodePoint} (skipped : List CodePoint)
      (h : PatternMatches pattern text) : PatternMatches (asterisk :: pattern) (skipped ++ text)
  | one {pattern text : List CodePoint} (value : CodePoint) (h : PatternMatches pattern text) :
      PatternMatches (question :: pattern) (value :: text)
  | escaped {pattern text : List CodePoint} (value : CodePoint)
      (h : PatternMatches pattern text) :
      PatternMatches (tilde :: value :: pattern) (value :: text)
  | trailing : PatternMatches [tilde] [tilde]
  | itself {pattern text : List CodePoint} {value : CodePoint}
      (hvalue : value ≠ asterisk ∧ value ≠ question ∧ value ≠ tilde)
      (h : PatternMatches pattern text) : PatternMatches (value :: pattern) (value :: text)

/-! ## Tokens -/

def token (value : CodePoint) : Token CodePoint :=
  if value = asterisk then .star else if value = question then .any else .literal value

def tokensOf : List CodePoint → List (Token CodePoint)
  | [] => []
  | [value] => [token value]
  | value :: next :: chars =>
      if value = tilde then .literal next :: tokensOf chars
      else token value :: tokensOf (next :: chars)

/-! ## The walk -/

/-- Where the walk stands: the character and the token, the last star, and the character at which
it starts again after that star. -/
structure Cursor where
  i : Nat
  j : Nat
  star : Option Nat
  retry : Nat
  star_lt : ∀ place ∈ star, place < j
  retry_le : retry ≤ i

namespace Cursor

def start : Cursor where
  i := 0
  j := 0
  star := none
  retry := 0
  star_lt := by simp
  retry_le := Nat.le_refl 0

/-- The token fits the character. -/
def advance (cursor : Cursor) : Cursor where
  i := cursor.i + 1
  j := cursor.j + 1
  star := cursor.star
  retry := cursor.retry
  star_lt place hplace := Nat.lt_succ_of_lt (cursor.star_lt place hplace)
  retry_le := Nat.le_succ_of_le cursor.retry_le

/-- The token is a star. -/
def remember (cursor : Cursor) : Cursor where
  i := cursor.i
  j := cursor.j + 1
  star := some cursor.j
  retry := cursor.i
  star_lt place hplace := by
    obtain rfl := Option.mem_some_iff.mp hplace
    exact Nat.lt_succ_self _
  retry_le := Nat.le_refl _

/-- The star takes one character more. -/
def restart (cursor : Cursor) (place : Nat) : Cursor where
  i := cursor.retry + 1
  j := place + 1
  star := some place
  retry := cursor.retry + 1
  star_lt place' hplace := by
    obtain rfl := Option.mem_some_iff.mp hplace
    exact Nat.lt_succ_self _
  retry_le := Nat.le_refl _

/-- The first token behind the last star. -/
def behind (cursor : Cursor) : Nat := cursor.star.elim 0 (· + 1)

theorem behind_le (cursor : Cursor) : cursor.behind ≤ cursor.j := by
  unfold behind
  cases hstar : cursor.star with
  | none => exact Nat.zero_le _
  | some place => exact cursor.star_lt place hstar

end Cursor

section Walk

variable (source : List CodePoint) (tokens : List (Token CodePoint))

/-- The token stands for the character. -/
def fits (token : Option (Token CodePoint)) (value : CodePoint) : Prop :=
  token = some .any ∨ token = some (.literal value)

instance (token : Option (Token CodePoint)) (value : CodePoint) : Decidable (fits token value) :=
  inferInstanceAs (Decidable (_ ∨ _))

theorem lt_of_fits {tokens : List (Token CodePoint)} {j : Nat} {value : CodePoint}
    (hfits : fits tokens[j]? value) : j < tokens.length := by
  rcases hfits with h | h <;> exact (List.getElem?_eq_some_iff.mp h).1

/-- The place of the first token from a place on that is not a star. -/
def skipStars (j : Nat) : Nat := j + ((tokens.drop j).takeWhile (· = .star)).length

def walk (cursor : Cursor) : Bool :=
  if hi : cursor.i < source.length then
    if fits tokens[cursor.j]? source[cursor.i] then walk cursor.advance
    else if tokens[cursor.j]? = some .star then walk cursor.remember
    else
      match hstar : cursor.star with
      | some place => walk (cursor.restart place)
      | none => false
  else skipStars tokens cursor.j = tokens.length
-- A star that is met lies behind the last one, and a start after a star behind the one before.
termination_by (tokens.length - cursor.behind, source.length - cursor.retry,
  tokens.length - cursor.j)
decreasing_by
  · rename_i hfits
    have hj := lt_of_fits hfits
    have hnext : tokens.length - cursor.advance.j < tokens.length - cursor.j :=
      Nat.sub_succ_lt_self _ _ hj
    exact .right _ (.right _ hnext)
  · rename_i htoken
    have hj := (List.getElem?_eq_some_iff.mp htoken).1
    have hbehind : tokens.length - cursor.remember.behind < tokens.length - cursor.behind :=
      Nat.lt_of_lt_of_le (Nat.sub_succ_lt_self _ _ hj) (Nat.sub_le_sub_left cursor.behind_le _)
    exact .left _ _ hbehind
  · have hretry : source.length - (cursor.restart place).retry < source.length - cursor.retry :=
      Nat.sub_succ_lt_self _ _ (Nat.lt_of_le_of_lt cursor.retry_le hi)
    have hsame : (cursor.restart place).behind = cursor.behind := by
      rw [Cursor.behind, Cursor.behind, hstar]
      rfl
    rw [hsame]
    exact .right _ (.left _ _ hretry)

end Walk

variable (toLowerCase : List CodeUnit → List CodeUnit)

def wildcard (text pattern : List CodeUnit) : Bool :=
  if pattern.length > 256 ∨ text.length > 4096 then toLowerCase text = toLowerCase pattern
  else walk (codePoints (toLowerCase text)) (tokensOf (codePoints (toLowerCase pattern))) .start

/-! ## What the walk keeps -/

section Invariant

variable {source : List CodePoint} {tokens : List (Token CodePoint)} {cursor : Cursor}

/-- The tokens before the cursor take the characters before it: from the start on, or from the last
star on, and then the whole text matches exactly if the star and what follows it match the text
from the start after that star on. -/
inductive Walked (source : List CodePoint) (tokens : List (Token CodePoint)) (cursor : Cursor) :
    Prop
  | first (front : List (Token CodePoint)) (hstar : cursor.star = none)
      (hj : cursor.j ≤ tokens.length) (htokens : tokens = front ++ tokens.drop cursor.j)
      (hfront : Consumes front source (source.drop cursor.i))
  | behind (place : Nat) (front : List (Token CodePoint)) (hstar : cursor.star = some place)
      (hj : cursor.j ≤ tokens.length)
      (htokens : tokens.drop place = .star :: (front ++ tokens.drop cursor.j))
      (hfront : Consumes front (source.drop cursor.retry) (source.drop cursor.i))
      (hsame : Matches tokens source ↔ Matches (tokens.drop place) (source.drop cursor.retry))

theorem walked_start : Walked source tokens .start :=
  .first [] rfl (Nat.zero_le _) rfl (.nil source)

theorem consumes_concat {front : List (Token CodePoint)} {text rest : List CodePoint}
    {value : CodePoint} {token : Token CodePoint}
    (hfront : Consumes front text (value :: rest)) (hfits : fits (some token) value) :
    Consumes (front ++ [token]) text rest := by
  rcases hfits with h | h
  · obtain rfl := Option.some.inj h
    exact hfront.concat_any
  · obtain rfl := Option.some.inj h
    exact hfront.concat_literal

theorem Walked.advance (hwalked : Walked source tokens cursor) (hi : cursor.i < source.length)
    (hfits : fits tokens[cursor.j]? source[cursor.i]) : Walked source tokens cursor.advance := by
  have hj := lt_of_fits hfits
  have htoken := List.drop_eq_getElem_cons hj
  have hvalue := List.drop_eq_getElem_cons hi
  rw [List.getElem?_eq_getElem hj] at hfits
  cases hwalked with
  | first front hstar _ htokens hfront =>
      refine .first (front ++ [tokens[cursor.j]]) hstar hj ?_ ?_
      · rw [htoken] at htokens
        rw [List.append_assoc]
        exact htokens
      · rw [hvalue] at hfront
        exact consumes_concat hfront hfits
  | behind place front hstar _ htokens hfront hsame =>
      refine .behind place (front ++ [tokens[cursor.j]]) hstar hj ?_ ?_ hsame
      · rw [htoken] at htokens
        rw [List.append_assoc]
        exact htokens
      · rw [hvalue] at hfront
        exact consumes_concat hfront hfits

/-- A star behind the last one: the last one may keep what it takes now. -/
theorem Walked.remember (hwalked : Walked source tokens cursor)
    (htoken : tokens[cursor.j]? = some .star) : Walked source tokens cursor.remember := by
  obtain ⟨hj, hstarred⟩ := List.getElem?_eq_some_iff.mp htoken
  have hdrop : tokens.drop cursor.j = .star :: tokens.drop (cursor.j + 1) := by
    rw [List.drop_eq_getElem_cons hj, hstarred]
  refine .behind cursor.j [] rfl hj hdrop (.nil _) ?_
  cases hwalked with
  | first front _ _ htokens hfront =>
      conv_lhs => rw [htokens]
      exact hfront.matches_iff
  | behind place front _ _ htokens hfront hsame =>
      rw [hsame, htokens, hdrop]
      exact hfront.exchange

theorem not_matches_here (hi : cursor.i < source.length)
    (hfits : ¬ fits tokens[cursor.j]? source[cursor.i])
    (htoken : tokens[cursor.j]? ≠ some .star) :
    ¬ Matches (tokens.drop cursor.j) (source.drop cursor.i) := by
  rw [List.drop_eq_getElem_cons hi]
  rw [← List.head?_drop] at hfits htoken
  exact not_matches_cons (fun h => hfits (.inr h)) (fun h => hfits (.inl h)) htoken

/-- The token does not fit, so the star takes the character at which the last start was. -/
theorem Walked.restart (hwalked : Walked source tokens cursor) (hi : cursor.i < source.length)
    (hfits : ¬ fits tokens[cursor.j]? source[cursor.i])
    (htoken : tokens[cursor.j]? ≠ some .star) {place : Nat} (hstar : cursor.star = some place) :
    Walked source tokens (cursor.restart place) := by
  cases hwalked with
  | first _ hnone _ _ _ =>
      rw [hstar] at hnone
      cases hnone
  | behind place' front hsome _ htokens hfront hsame =>
      obtain rfl := Option.some.inj (hstar.symm.trans hsome)
      have hplace : place < tokens.length := by
        by_contra hge
        rw [List.drop_eq_nil_of_le (Nat.le_of_not_lt hge)] at htokens
        cases htokens
      have hdrop := htokens
      rw [List.drop_eq_getElem_cons hplace] at hdrop
      obtain ⟨-, hbehind⟩ := List.cons.inj hdrop
      have hvalue := List.drop_eq_getElem_cons (Nat.lt_of_le_of_lt cursor.retry_le hi)
      have hnone : ¬ Matches (front ++ tokens.drop cursor.j) (source.drop cursor.retry) := by
        rw [hfront.matches_iff]
        exact not_matches_here hi hfits htoken
      refine .behind place [] rfl hplace ?_ (.nil _) ?_
      · rw [htokens, ← hbehind]
        rfl
      · rw [hsame, htokens]
        rw [hvalue] at hnone ⊢
        rw [matches_star_cons, or_iff_right hnone]
        rfl

/-- Without a star there is no other place to start. -/
theorem Walked.stop (hwalked : Walked source tokens cursor) (hi : cursor.i < source.length)
    (hfits : ¬ fits tokens[cursor.j]? source[cursor.i])
    (htoken : tokens[cursor.j]? ≠ some .star) (hstar : cursor.star = none) :
    ¬ Matches tokens source := by
  cases hwalked with
  | first front _ _ htokens hfront =>
      rw [htokens, hfront.matches_iff]
      exact not_matches_here hi hfits htoken
  | behind place front hsome _ _ _ _ =>
      rw [hstar] at hsome
      cases hsome

theorem skipStars_eq_length {j : Nat} (hj : j ≤ tokens.length) :
    skipStars tokens j = tokens.length ↔ ∀ token ∈ tokens.drop j, token = .star := by
  have hsplit := List.takeWhile_append_dropWhile (p := (· = Token.star)) (l := tokens.drop j)
  have hlength := congrArg List.length hsplit
  rw [List.length_append, List.length_drop] at hlength
  rw [skipStars]
  constructor
  · intro hend token htoken
    have hnil : (tokens.drop j).dropWhile (· = Token.star) = [] :=
      List.length_eq_zero_iff.mp (by omega)
    rw [List.dropWhile_eq_nil_iff] at hnil
    simpa using hnil token htoken
  · intro hstars
    have hnil : (tokens.drop j).dropWhile (· = Token.star) = [] :=
      List.dropWhile_eq_nil_iff.mpr fun token htoken => by simpa using hstars token htoken
    rw [hnil, List.length_nil] at hlength
    omega

/-- At the end of the text only stars may be left. -/
theorem Walked.finish (hwalked : Walked source tokens cursor)
    (hi : ¬ cursor.i < source.length) :
    skipStars tokens cursor.j = tokens.length ↔ Matches tokens source := by
  have hnil : source.drop cursor.i = [] := List.drop_eq_nil_of_le (Nat.le_of_not_lt hi)
  cases hwalked with
  | first front _ hj htokens hfront =>
      rw [hnil] at hfront
      rw [skipStars_eq_length hj, ← matches_nil_iff, ← hfront.matches_iff, ← htokens]
  | behind place front _ hj htokens hfront hsame =>
      rw [hnil] at hfront
      rw [skipStars_eq_length hj, ← matches_nil_iff, hsame, htokens, hfront.matches_star_nil]

theorem walk_eq_true_iff (hwalked : Walked source tokens cursor) :
    walk source tokens cursor = true ↔ Matches tokens source := by
  induction cursor using walk.induct source tokens with
  | case1 cursor hi hfits ih =>
      rw [walk, dif_pos hi, if_pos hfits]
      exact ih (hwalked.advance hi hfits)
  | case2 cursor hi hfits htoken ih =>
      rw [walk, dif_pos hi, if_neg hfits, if_pos htoken]
      exact ih (hwalked.remember htoken)
  | case3 cursor hi hfits htoken place hstar ih =>
      rw [walk, dif_pos hi, if_neg hfits, if_neg htoken]
      split
      next place' hsome =>
        obtain rfl := Option.some.inj (hstar.symm.trans hsome)
        exact ih (hwalked.restart hi hfits htoken hstar)
      next hnone =>
        rw [hstar] at hnone
        cases hnone
  | case4 cursor hi hfits htoken hstar =>
      rw [walk, dif_pos hi, if_neg hfits, if_neg htoken]
      split
      next place hsome =>
        rw [hstar] at hsome
        cases hsome
      next => simpa using hwalked.stop hi hfits htoken hstar
  | case5 cursor hi =>
      rw [walk, dif_neg hi, decide_eq_true_iff]
      exact hwalked.finish hi

end Invariant

/-! ## Patterns and tokens -/

theorem matches_token_cons {value : CodePoint} (hvalue : value ≠ tilde)
    {pattern text : List CodePoint}
    (ih : ∀ text, PatternMatches pattern text ↔ Matches (tokensOf pattern) text) :
    PatternMatches (value :: pattern) text ↔ Matches (token value :: tokensOf pattern) text := by
  unfold token
  split
  next hasterisk =>
    subst hasterisk
    constructor
    · intro h
      cases h with
      | sequence skipped h => exact .star skipped ((ih _).mp h)
      | itself hother _ => exact absurd rfl hother.1
    · intro h
      cases h with
      | star skipped h => exact .sequence skipped ((ih _).mpr h)
  next hasterisk =>
    split
    next hquestion =>
      subst hquestion
      constructor
      · intro h
        cases h with
        | one symbol h => exact .any symbol ((ih _).mp h)
        | itself hother _ => exact absurd rfl hother.2.1
      · intro h
        cases h with
        | any symbol h => exact .one symbol ((ih _).mpr h)
    next hquestion =>
      constructor
      · intro h
        cases h with
        | sequence _ _ => exact absurd rfl hasterisk
        | one _ _ => exact absurd rfl hquestion
        | escaped _ _ => exact absurd rfl hvalue
        | trailing => exact absurd rfl hvalue
        | itself _ h => exact .literal value ((ih _).mp h)
      · intro h
        cases h with
        | literal _ h => exact .itself ⟨hasterisk, hquestion, hvalue⟩ ((ih _).mpr h)

theorem patternMatches_nil {text : List CodePoint} : PatternMatches [] text ↔ Matches [] text := by
  constructor
  · intro h
    cases h
    exact .nil
  · intro h
    cases h
    exact .nil

/-- A tilde at the end stands for itself. -/
theorem patternMatches_tilde {text : List CodePoint} :
    PatternMatches [tilde] text ↔ Matches [.literal tilde] text := by
  constructor
  · intro h
    cases h with
    | trailing => exact .literal tilde .nil
    | itself hvalue _ => exact absurd rfl hvalue.2.2
  · intro h
    cases h with
    | literal _ h =>
        cases h
        exact .trailing

theorem patternMatches_escaped {next : CodePoint} {chars : List CodePoint}
    (ih : ∀ text, PatternMatches chars text ↔ Matches (tokensOf chars) text)
    {text : List CodePoint} :
    PatternMatches (tilde :: next :: chars) text ↔
      Matches (.literal next :: tokensOf chars) text := by
  constructor
  · intro h
    cases h with
    | escaped _ h => exact .literal next ((ih _).mp h)
    | itself hvalue _ => exact absurd rfl hvalue.2.2
  · intro h
    cases h with
    | literal _ h => exact .escaped next ((ih _).mpr h)

/-- The tokens of a pattern match what the pattern does. -/
theorem patternMatches_iff (pattern text : List CodePoint) :
    PatternMatches pattern text ↔ Matches (tokensOf pattern) text := by
  induction pattern using tokensOf.induct generalizing text with
  | case1 => exact patternMatches_nil
  | case2 value =>
      by_cases hvalue : value = tilde
      · subst hvalue
        exact patternMatches_tilde
      · exact matches_token_cons hvalue fun _ => patternMatches_nil
  | case3 next chars ih =>
      rw [tokensOf, if_pos rfl]
      exact patternMatches_escaped ih
  | case4 value next chars hvalue ih =>
      rw [tokensOf, if_neg hvalue]
      exact matches_token_cons hvalue ih

/-- Within the bounds the matcher ends and decides whether the text matches the pattern, in lower
case. -/
theorem wildcard_iff (toLowerCase : List CodeUnit → List CodeUnit) (text pattern : List CodeUnit)
    (htext : text.length ≤ 4096) (hpattern : pattern.length ≤ 256) :
    wildcard toLowerCase text pattern = true ↔
      PatternMatches (codePoints (toLowerCase pattern)) (codePoints (toLowerCase text)) := by
  rw [wildcard, if_neg (by omega), walk_eq_true_iff walked_start, patternMatches_iff]

theorem wildcard_iff_star :
    wildcard id (unitsOfChars ['a', 'b']) (unitsOfChars ['a', '*']) = true := by
  rw [wildcard_iff id _ _ (by decide) (by decide), id, id, codePoints_unitsOfChars,
    codePoints_unitsOfChars]
  exact .itself (by decide) (.sequence [.scalar 'b'] .nil)

end Filters.Wildcard
