import Mathlib.Algebra.Ring.Nat
import Mathlib.Data.List.Basic
import Mathlib.Data.List.Infix
import Mathlib.Tactic.Common

/-! # Replacement in texts

The two global replacements of a runtime: that of a fixed pattern, from the left and without
looking at what it has written, and that of every maximal run of a class of characters by one
character. A text that is made of codes, one for each character, is decoded by replacing a
code when the pattern occurs in no other way.
-/

namespace Foundation.Replacement

universe u

variable {α : Type u} [DecidableEq α]

/-! ## A fixed pattern -/

/-- `text.replace(/pattern/g, value)`. The number counts the characters of the last match
that are left. -/
def replaceFrom (pattern value : List α) : Nat → List α → List α
  | _, [] => []
  | skip + 1, _ :: rest => replaceFrom pattern value skip rest
  | 0, c :: rest =>
      if pattern.isPrefixOf (c :: rest) then
        value ++ replaceFrom pattern value (pattern.length - 1) rest
      else c :: replaceFrom pattern value 0 rest

def replaceAll (pattern value text : List α) : List α := replaceFrom pattern value 0 text

variable {pattern value text token rest : List α}

@[simp]
theorem replaceAll_nil : replaceAll pattern value [] = [] := by
  simp [replaceAll, replaceFrom]

theorem replaceFrom_eq (skip : Nat) :
    replaceFrom pattern value skip text = replaceAll pattern value (text.drop skip) := by
  induction skip generalizing text with
  | zero => simp [replaceAll]
  | succ skip ih =>
      cases text with
      | nil => simp [replaceAll, replaceFrom]
      | cons c rest => simpa [replaceFrom] using ih

/-- A match. -/
theorem replaceAll_append (hpattern : pattern ≠ []) :
    replaceAll pattern value (pattern ++ rest) = value ++ replaceAll pattern value rest := by
  obtain ⟨c, body, rfl⟩ := List.exists_cons_of_ne_nil hpattern
  have hmatch : (c :: body).isPrefixOf (c :: (body ++ rest)) = true := by
    rw [List.isPrefixOf_iff_prefix]
    exact ⟨rest, by simp⟩
  rw [replaceAll, List.cons_append, replaceFrom, if_pos hmatch, replaceFrom_eq]
  simp

/-- No match at the first character. -/
theorem replaceAll_cons {c : α} (hnone : ¬pattern <+: c :: rest) :
    replaceAll pattern value (c :: rest) = c :: replaceAll pattern value rest := by
  rw [replaceAll, replaceFrom, if_neg (by rwa [List.isPrefixOf_iff_prefix])]
  rfl

/-- The replacement of a pattern by something shorter makes a text shorter, and leaves a text
without the pattern as it is. -/
theorem length_replaceAll (hvalue : value.length < pattern.length) (text : List α) :
    (replaceAll pattern value text).length ≤ text.length ∧
      ((replaceAll pattern value text).length = text.length → ¬pattern <:+: text) ∧
      (¬pattern <:+: text → replaceAll pattern value text = text) := by
  have hpattern : pattern ≠ [] := by
    rintro rfl
    simp at hvalue
  -- A match is followed by a shorter text, so the induction is on the length.
  induction hlength : text.length using Nat.strong_induction_on generalizing text with
  | _ size ih =>
    cases text with
    | nil =>
        refine ⟨by simp, fun _ hinfix => hpattern ?_, by simp⟩
        simpa using hinfix
    | cons c rest =>
        by_cases hmatch : pattern <+: c :: rest
        · obtain ⟨tail, htail⟩ := hmatch
          have htailLength : tail.length + pattern.length = size := by
            rw [← hlength, ← htail, List.length_append]
            omega
          obtain ⟨hshorter, -, -⟩ := ih tail.length (by omega) tail rfl
          rw [← htail, replaceAll_append hpattern, List.length_append]
          refine ⟨by omega, fun _ => by omega, ?_⟩
          exact fun hnone => absurd ⟨[], tail, by simp⟩ hnone
        · have hrest : rest.length < size := by
            rw [← hlength, List.length_cons]
            omega
          obtain ⟨hshorter, hsame, hkept⟩ := ih rest.length hrest rest rfl
          have hinfix : pattern <:+: c :: rest ↔ pattern <:+: rest := by
            rw [List.infix_cons_iff]
            exact or_iff_right hmatch
          rw [replaceAll_cons hmatch, List.length_cons, hinfix, ← hlength, List.length_cons]
          refine ⟨by omega, fun hequal => hsame (by omega), ?_⟩
          intro hnone
          rw [hkept hnone]

/-- A replacement that shortens changes exactly the texts that have the pattern. -/
theorem replaceAll_eq_self_iff (hvalue : value.length < pattern.length) :
    replaceAll pattern value text = text ↔ ¬pattern <:+: text := by
  obtain ⟨-, hsame, hkept⟩ := length_replaceAll hvalue text
  exact ⟨fun hequal => hsame (congrArg List.length hequal), hkept⟩

/-! ## Codes

Codes start with a mark, which is not within them.
-/

section Codes

variable {mark c : α} {body : List α} {code code' : α → List α}

/-- A text without the mark is passed over. -/
theorem replaceAll_append_of_notMem (hmark : mark ∉ token) :
    replaceAll (mark :: body) value (token ++ rest) =
      token ++ replaceAll (mark :: body) value rest := by
  induction token with
  | nil => rfl
  | cons c token ih =>
      rw [List.mem_cons, not_or] at hmark
      rw [List.cons_append, replaceAll_cons, ih hmark.2, List.cons_append]
      intro hmatch
      exact hmark.1 (List.cons_prefix_cons.mp hmatch).1

/-- A code that is not the pattern is passed over. -/
theorem replaceAll_code (htoken : token ≠ []) (htail : mark ∉ token.tail)
    (hnone : ¬mark :: body <+: token ++ rest) :
    replaceAll (mark :: body) value (token ++ rest) =
      token ++ replaceAll (mark :: body) value rest := by
  obtain ⟨c, tail, rfl⟩ := List.exists_cons_of_ne_nil htoken
  rw [List.cons_append] at hnone ⊢
  rw [List.tail_cons] at htail
  rw [replaceAll_cons hnone, replaceAll_append_of_notMem htail, List.cons_append]

/-- Every code that is the pattern is replaced, if the pattern starts no text of codes in
another way. -/
theorem replaceAll_flatMap (htokens : ∀ c, code c ≠ [] ∧ mark ∉ (code c).tail)
    (hcodes : ∀ c, (code c = mark :: body ∧ code' c = value) ∨
      (code' c = code c ∧ ∀ rest, ¬mark :: body <+: code c ++ rest)) (text : List α) :
    replaceAll (mark :: body) value (text.flatMap code) = text.flatMap code' := by
  induction text with
  | nil => simp
  | cons c text ih =>
      rw [List.flatMap_cons, List.flatMap_cons]
      rcases hcodes c with ⟨hcode, hvalue⟩ | ⟨hsame, hnone⟩
      · rw [hcode, hvalue, replaceAll_append (by simp), ih]
      · rw [replaceAll_code (htokens c).1 (htokens c).2 (hnone _), ih, hsame]

omit [DecidableEq α] in
/-- A text starts with plain characters exactly if its codes do. -/
theorem prefix_flatMap_iff (hplain : ∀ c ∈ body, code c = [c])
    (hothers : ∀ c, code c = [c] ∨ ∃ tail, code c = mark :: tail) (hmark : mark ∉ body)
    (text : List α) : body <+: text.flatMap code ↔ body <+: text := by
  induction body generalizing text with
  | nil => simp
  | cons b body ih =>
      rw [List.mem_cons, not_or] at hmark
      have hrest := ih (fun c hc => hplain c (List.mem_cons_of_mem _ hc)) hmark.2
      cases text with
      | nil => simp
      | cons c text =>
          rw [List.flatMap_cons, List.cons_prefix_cons]
          rcases hothers c with hsingle | ⟨tail, hcode⟩
          · rw [hsingle, List.singleton_append, List.cons_prefix_cons, hrest]
          · have hb : b ≠ c := by
              rintro rfl
              rw [hplain b List.mem_cons_self] at hcode
              exact hmark.1 (List.cons.inj hcode).1.symm
            rw [hcode, List.cons_append, List.cons_prefix_cons]
            simp [hb, Ne.symm hmark.1]

/-- Where the mark may stand for itself, replacing the codes of a character also replaces the
pattern in the text. -/
theorem replaceAll_flatMap_raw {decoded : α} (hmark : mark ∉ body)
    (htokens : ∀ c, code c ≠ [] ∧ mark ∉ (code c).tail)
    (hpattern : ∀ c ∈ mark :: body, code c = [c])
    (hothers : ∀ c, code c = [c] ∨ ∃ tail, code c = mark :: tail)
    (hcode : code decoded = mark :: body) (hdecoded : code' decoded = [decoded])
    (hcodes : ∀ c, c ≠ decoded → code' c = code c)
    (hdistinct : ∀ c, c ≠ decoded → code c ≠ [c] → ∀ rest, ¬mark :: body <+: code c ++ rest)
    (text : List α) : replaceAll (mark :: body) [decoded] (text.flatMap code) =
      (replaceAll (mark :: body) [decoded] text).flatMap code' := by
  induction hlength : text.length using Nat.strong_induction_on generalizing text with
  | _ size ih =>
    cases text with
    | nil => simp
    | cons c rest =>
        by_cases hmatch : mark :: body <+: c :: rest
        · obtain ⟨tail, htail⟩ := hmatch
          have hsize : tail.length < size := by
            rw [← hlength, ← htail, List.length_append, List.length_cons]
            omega
          have hflat : (mark :: body).flatMap code = mark :: body := by
            conv_rhs => rw [← List.flatMap_singleton' (mark :: body)]
            exact List.flatMap_congr hpattern
          rw [← htail, List.flatMap_append, hflat, replaceAll_append (by simp),
            replaceAll_append (by simp), List.flatMap_append, ih _ hsize tail rfl]
          simp [hdecoded]
        · have hsize : rest.length < size := by
            rw [← hlength, List.length_cons]
            omega
          rw [replaceAll_cons hmatch, List.flatMap_cons, List.flatMap_cons]
          by_cases hc : c = decoded
          · subst hc
            rw [hcode, replaceAll_append (by simp), ih _ hsize rest rfl, hdecoded]
          · have hnone : ¬mark :: body <+: code c ++ rest.flatMap code := by
              by_cases hsingle : code c = [c]
              · rw [hsingle, List.singleton_append]
                intro hprefixed
                obtain ⟨hsame, htail⟩ := List.cons_prefix_cons.mp hprefixed
                have hplain := prefix_flatMap_iff
                  (fun c hc => hpattern c (List.mem_cons_of_mem _ hc)) hothers hmark rest
                exact hmatch (List.cons_prefix_cons.mpr ⟨hsame, hplain.mp htail⟩)
              · exact hdistinct c hc hsingle _
            rw [replaceAll_code (htokens c).1 (htokens c).2 hnone, ih _ hsize rest rfl, hcodes c hc]

end Codes

/-! ## Runs of a class -/

/-- The text after a run, or within one. -/
def replaceRunsFrom (inRun : α → Bool) (mark : α) : Bool → List α → List α
  | _, [] => []
  | inside, c :: rest =>
      if inRun c then
        if inside then replaceRunsFrom inRun mark true rest
        else mark :: replaceRunsFrom inRun mark true rest
      else c :: replaceRunsFrom inRun mark false rest

/-- `text.replace(/[class]+/g, mark)`. -/
def replaceRuns (inRun : α → Bool) (mark : α) (text : List α) : List α :=
  replaceRunsFrom inRun mark false text

section Runs

variable {inRun : α → Bool} {mark c : α}

omit [DecidableEq α] in
theorem mem_replaceRunsFrom {inside : Bool} (hmem : c ∈ replaceRunsFrom inRun mark inside text) :
    c = mark ∨ c ∈ text ∧ inRun c = false := by
  induction text generalizing inside with
  | nil => simp [replaceRunsFrom] at hmem
  | cons first rest ih => grind [replaceRunsFrom]

omit [DecidableEq α] in
/-- What is left is the mark, or is not of the class. -/
theorem mem_replaceRuns (hmem : c ∈ replaceRuns inRun mark text) :
    c = mark ∨ c ∈ text ∧ inRun c = false :=
  mem_replaceRunsFrom hmem

omit [DecidableEq α] in
/-- A text without characters of the class stays. -/
theorem replaceRuns_eq_self (hnone : ∀ c ∈ text, inRun c = false) :
    replaceRuns inRun mark text = text := by
  induction text with
  | nil => rfl
  | cons first rest ih =>
      have hfirst := hnone first List.mem_cons_self
      have hrest := ih fun c hc => hnone c (List.mem_cons_of_mem _ hc)
      rw [replaceRuns, replaceRunsFrom, hfirst]
      exact congrArg (first :: ·) hrest

end Runs

end Foundation.Replacement
