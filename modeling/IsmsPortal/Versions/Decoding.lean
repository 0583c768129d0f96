import IsmsPortal.Foundation.Replacement

/-! # Texts of office files

The paragraphs of an office file are read from its XML: the tags are removed and five entities
are decoded, one after the other. The ampersand is decoded before the quotes, so the text of
an entity for a quote is decoded twice.
-/

namespace IsmsPortal

open Foundation

/-- The standard escape of a character in XML text. -/
def xmlEntity (c : Char) : List Char :=
  if c = '&' then ['&', 'a', 'm', 'p', ';']
  else if c = '<' then ['&', 'l', 't', ';']
  else if c = '>' then ['&', 'g', 't', ';']
  else if c = '"' then ['&', 'q', 'u', 'o', 't', ';']
  else if c = '\'' then ['&', '#', '3', '9', ';']
  else [c]

def escapeXml (text : List Char) : List Char := text.flatMap xmlEntity

/-- `decodeXml`. -/
def decodeXml (value : List Char) : List Char :=
  Replacement.replaceAll ['&', '#', '3', '9', ';'] ['\'']
    (Replacement.replaceAll ['&', 'q', 'u', 'o', 't', ';'] ['"']
      (Replacement.replaceAll ['&', 'a', 'm', 'p', ';'] ['&']
        (Replacement.replaceAll ['&', 'g', 't', ';'] ['>']
          (Replacement.replaceAll ['&', 'l', 't', ';'] ['<'] value))))

/-- `xml.replace(/<[^>]+>/g, "")`, with the characters of a tag that are left. -/
def removeTagsFrom : Nat → List Char → List Char
  | _, [] => []
  | skip + 1, _ :: rest => removeTagsFrom skip rest
  | 0, c :: rest =>
      let name := rest.takeWhile (· ≠ '>')
      if c = '<' ∧ name ≠ [] ∧ name.length < rest.length then removeTagsFrom (name.length + 1) rest
      else c :: removeTagsFrom 0 rest

def removeTags (xml : List Char) : List Char := removeTagsFrom 0 xml

def closingTag (paragraphTag : List Char) : List Char := ['<', '/'] ++ paragraphTag ++ ['>']

/-- `xmlText`. The names of tags have no special characters. -/
def xmlText (xml paragraphTag : List Char) : List (List Char) :=
  ((removeTags (Replacement.replaceAll (closingTag paragraphTag) ['\n'] xml)).splitOn '\n').map
    decodeXml

/-- The tags of paragraphs in the formats. -/
def paragraphTags : List (List Char) :=
  [['a', ':', 'p'], ['w', ':', 'p'], ['r', 'o', 'w'], ['s', 'i']]

/-! ## One pass after the other -/

/-- The codes of the characters in the list, the others stand for themselves. -/
def codeOf (codes : List Char) (c : Char) : List Char := if c ∈ codes then xmlEntity c else [c]

theorem codeOf_tokens (codes : List Char) (c : Char) :
    codeOf codes c ≠ [] ∧ '&' ∉ (codeOf codes c).tail := by
  unfold codeOf xmlEntity
  split_ifs <;> simp

theorem codeOf_cases (codes : List Char) (c : Char) :
    codeOf codes c = [c] ∨ ∃ tail, codeOf codes c = '&' :: tail := by
  unfold codeOf xmlEntity
  split_ifs <;> simp

/-- The characters that have an entity. -/
def escaped : List Char := ['<', '>', '&', '"', '\'']

theorem escapeXml_eq (text : List Char) : escapeXml text = text.flatMap (codeOf escaped) := by
  refine List.flatMap_congr fun c _ => ?_
  unfold codeOf
  split
  · rfl
  next hplain =>
    simp only [escaped, List.mem_cons, List.not_mem_nil, or_false, not_or] at hplain
    simp [xmlEntity, hplain]

theorem entity_head {c : Char} (hc : c ∈ escaped) : ∃ body, xmlEntity c = '&' :: body := by
  simp only [escaped, List.mem_cons, List.not_mem_nil, or_false] at hc
  rcases hc with rfl | rfl | rfl | rfl | rfl <;> simp [xmlEntity]

/-- No entity starts like another. -/
theorem entity_distinct {c other : Char} (hc : c ∈ escaped) (hother : other ∈ escaped)
    (hne : c ≠ other) (rest : List Char) : ¬xmlEntity c <+: xmlEntity other ++ rest := by
  simp only [escaped, List.mem_cons, List.not_mem_nil, or_false] at hc hother
  rcases hc with rfl | rfl | rfl | rfl | rfl <;>
    rcases hother with rfl | rfl | rfl | rfl | rfl <;>
      first | exact absurd rfl hne | simp [xmlEntity]

section Passes

variable (target : Char) (codes : List Char)

variable {target codes} in
theorem codeOf_target : codeOf (target :: codes) target = xmlEntity target := by
  simp [codeOf]

variable {target codes} in
theorem codeOf_of_notMem (htarget : target ∉ codes) : codeOf codes target = [target] := by
  simp [codeOf, htarget]

variable {target codes} in
theorem codeOf_of_ne {c : Char} (hc : c ≠ target) : codeOf (target :: codes) c = codeOf codes c := by
  simp [codeOf, hc]

/-- As long as the ampersand has its code, a pass decodes one character. -/
theorem replace_entity (hcodes : ∀ c ∈ target :: codes, c ∈ escaped) (htarget : target ∉ codes)
    (hmark : '&' ∈ target :: codes) (text : List Char) :
    Replacement.replaceAll (xmlEntity target) [target] (text.flatMap (codeOf (target :: codes))) =
      text.flatMap (codeOf codes) := by
  have hspecial := hcodes target List.mem_cons_self
  obtain ⟨body, hbody⟩ := entity_head hspecial
  rw [hbody]
  apply Replacement.replaceAll_flatMap (codeOf_tokens _)
  intro c
  rw [← hbody]
  by_cases hc : c = target
  · subst hc
    exact .inl ⟨codeOf_target, codeOf_of_notMem htarget⟩
  · refine .inr ⟨(codeOf_of_ne hc).symm, fun rest => ?_⟩
    by_cases hcode : c ∈ target :: codes
    · rw [codeOf, if_pos hcode]
      exact entity_distinct hspecial (hcodes c hcode) (Ne.symm hc) rest
    · rw [codeOf, if_neg hcode, hbody, List.singleton_append, List.cons_prefix_cons]
      rintro ⟨rfl, -⟩
      exact hcode hmark

/-- Without a code for the ampersand, a pass also decodes what the text itself has. -/
theorem replace_raw_entity (hcodes : ∀ c ∈ target :: codes, c ∈ escaped) (htarget : target ∉ codes)
    {body : List Char} (hbody : xmlEntity target = '&' :: body)
    (hplain : ∀ c ∈ '&' :: body, c ∉ target :: codes) (text : List Char) :
    Replacement.replaceAll (xmlEntity target) [target] (text.flatMap (codeOf (target :: codes))) =
      (Replacement.replaceAll (xmlEntity target) [target] text).flatMap (codeOf codes) := by
  have hspecial := hcodes target List.mem_cons_self
  have hmark : '&' ∉ body := by
    have htail := (codeOf_tokens (target :: codes) target).2
    rwa [codeOf_target, hbody] at htail
  rw [hbody]
  apply Replacement.replaceAll_flatMap_raw hmark (codeOf_tokens _)
  · intro c hc
    exact codeOf_of_notMem (hplain c hc)
  · exact codeOf_cases _
  · rw [codeOf_target, hbody]
  · exact codeOf_of_notMem htarget
  · exact fun c hc => (codeOf_of_ne hc).symm
  · intro c hc hcoded rest
    have hcode : c ∈ target :: codes := by
      by_contra hnone
      exact hcoded (codeOf_of_notMem hnone)
    rw [codeOf, if_pos hcode, ← hbody]
    exact entity_distinct hspecial (hcodes c hcode) (Ne.symm hc) rest

end Passes

/-- Decoding an escaped text decodes the entities for quotes that the text itself has. -/
theorem decodeXml_escapeXml (text : List Char) : decodeXml (escapeXml text) =
    Replacement.replaceAll ['&', '#', '3', '9', ';'] ['\'']
      (Replacement.replaceAll ['&', 'q', 'u', 'o', 't', ';'] ['"'] text) := by
  have hless : Replacement.replaceAll ['&', 'l', 't', ';'] ['<'] (text.flatMap (codeOf escaped)) =
      text.flatMap (codeOf ['>', '&', '"', '\'']) :=
    replace_entity '<' ['>', '&', '"', '\''] (by simp [escaped]) (by decide) (by decide) text
  have hgreater : Replacement.replaceAll ['&', 'g', 't', ';'] ['>']
      (text.flatMap (codeOf ['>', '&', '"', '\''])) = text.flatMap (codeOf ['&', '"', '\'']) :=
    replace_entity '>' ['&', '"', '\''] (by simp [escaped]) (by decide) (by decide) text
  have hand : Replacement.replaceAll ['&', 'a', 'm', 'p', ';'] ['&']
      (text.flatMap (codeOf ['&', '"', '\''])) = text.flatMap (codeOf ['"', '\'']) :=
    replace_entity '&' ['"', '\''] (by simp [escaped]) (by decide) (by decide) text
  -- From here on an ampersand of the text stands for itself.
  have hquote : Replacement.replaceAll ['&', 'q', 'u', 'o', 't', ';'] ['"']
      (text.flatMap (codeOf ['"', '\''])) =
      (Replacement.replaceAll ['&', 'q', 'u', 'o', 't', ';'] ['"'] text).flatMap (codeOf ['\'']) :=
    replace_raw_entity '"' ['\''] (by simp [escaped]) (by decide) rfl (by simp) text
  have hapostrophe : ∀ text : List Char, Replacement.replaceAll ['&', '#', '3', '9', ';'] ['\'']
      (text.flatMap (codeOf ['\''])) =
      (Replacement.replaceAll ['&', '#', '3', '9', ';'] ['\''] text).flatMap (codeOf []) :=
    replace_raw_entity '\'' [] (by simp [escaped]) (by decide) rfl (by simp)
  have hplain : ∀ text : List Char, text.flatMap (codeOf []) = text := by
    intro text
    conv_rhs => rw [← List.flatMap_singleton' text]
    exact List.flatMap_congr fun c _ => by simp [codeOf]
  rw [decodeXml, escapeXml_eq, hless, hgreater, hand, hquote, hapostrophe, hplain]

/-! ## Paragraphs -/

/-- A paragraph of escaped text. -/
def paragraphXml (paragraphTag text : List Char) : List Char :=
  '<' :: paragraphTag ++ ['>'] ++ escapeXml text ++ closingTag paragraphTag

/-- The characters of the entities. -/
def entityCharacters : List Char :=
  ['&', 'a', 'm', 'p', ';', 'l', 't', 'g', 'q', 'u', 'o', '#', '3', '9']

theorem mem_xmlEntity {c other : Char} (hc : c ∈ xmlEntity other) :
    c ∈ entityCharacters ∨ c = other ∧ other ∉ escaped := by
  by_cases hother : other ∈ escaped
  · refine .inl ?_
    have hentities : ∀ special ∈ escaped, ∀ c ∈ xmlEntity special, c ∈ entityCharacters := by
      simp [escaped, xmlEntity, entityCharacters]
    exact hentities other hother c hc
  · refine .inr ⟨?_, hother⟩
    have hplain := hother
    simp only [escaped, List.mem_cons, List.not_mem_nil, or_false, not_or] at hplain
    simpa [xmlEntity, hplain] using hc

theorem escapeXml_plain {c : Char} (hc : c ∈ ['<', '>']) (text : List Char) :
    c ∉ escapeXml text := by
  rw [escapeXml, List.mem_flatMap]
  rintro ⟨other, -, hmem⟩
  have hspecial : ∀ c ∈ ['<', '>'], c ∈ escaped ∧ c ∉ entityCharacters := by
    simp [escaped, entityCharacters]
  obtain ⟨hescaped, hcharacter⟩ := hspecial c hc
  obtain hmem | ⟨rfl, hplain⟩ := mem_xmlEntity hmem
  · exact hcharacter hmem
  · exact hplain hescaped

theorem newline_notMem_escapeXml {text : List Char} (htext : '\n' ∉ text) :
    '\n' ∉ escapeXml text := by
  rw [escapeXml, List.mem_flatMap]
  rintro ⟨other, hother, hmem⟩
  obtain hmem | ⟨rfl, -⟩ := mem_xmlEntity hmem
  · exact absurd hmem (by decide)
  · exact htext hother

section Paragraphs

variable {paragraphTag : List Char}

theorem removeTagsFrom_eq (skip : Nat) (xml : List Char) :
    removeTagsFrom skip xml = removeTags (xml.drop skip) := by
  induction skip generalizing xml with
  | zero => rfl
  | succ skip ih =>
      cases xml with
      | nil => simp [removeTags, removeTagsFrom]
      | cons c rest => simpa [removeTagsFrom] using ih rest

theorem removeTags_append {text rest : List Char} (htext : '<' ∉ text) :
    removeTags (text ++ rest) = text ++ removeTags rest := by
  induction text with
  | nil => rfl
  | cons c text ih =>
      rw [List.mem_cons, not_or] at htext
      rw [List.cons_append, removeTags, removeTagsFrom, if_neg fun hopen => htext.1 hopen.1.symm]
      exact congrArg (c :: ·) (ih htext.2)

/-- A tag is removed. -/
theorem removeTags_tag {name rest : List Char} (hname : name ≠ []) (hclose : '>' ∉ name) :
    removeTags ('<' :: name ++ '>' :: rest) = removeTags rest := by
  have hread : (name ++ '>' :: rest).takeWhile (· ≠ '>') = name := by
    rw [List.takeWhile_append_of_pos]
    · simp
    · intro c hc
      simp only [ne_eq, decide_eq_true_eq]
      rintro rfl
      exact hclose hc
  rw [List.cons_append, removeTags, removeTagsFrom]
  simp only [hread]
  rw [if_pos (by simp [hname]), removeTagsFrom_eq]
  congr 1
  rw [List.drop_append, List.drop_of_length_le (Nat.le_succ _)]
  simp

/-- The ends of paragraphs become ends of lines. -/
theorem replace_closingTag (hopen : '<' ∉ paragraphTag) (hslash : paragraphTag.head? ≠ some '/')
    (paragraphs : List (List Char)) :
    Replacement.replaceAll (closingTag paragraphTag) ['\n']
        (paragraphs.flatMap (paragraphXml paragraphTag)) =
      paragraphs.flatMap fun text => '<' :: paragraphTag ++ '>' :: (escapeXml text ++ ['\n']) := by
  induction paragraphs with
  | nil => simp
  | cons text paragraphs ih =>
      have hclosing : closingTag paragraphTag = '<' :: ('/' :: paragraphTag ++ ['>']) := rfl
      have hnone : ∀ rest, ¬('<' :: ('/' :: paragraphTag ++ ['>'])) <+:
          ('<' :: paragraphTag ++ ['>']) ++ rest := by
        intro rest hmatch
        simp only [List.cons_append, List.cons_prefix_cons, true_and] at hmatch
        cases paragraphTag with
        | nil => simp at hmatch
        | cons c name =>
            have hc : '/' = c := by simpa using (List.cons_prefix_cons.mp hmatch).1
            exact hslash (by rw [List.head?_cons, hc])
      have htoken : '<' ∉ ('<' :: paragraphTag ++ ['>']).tail := by simpa using hopen
      rw [List.flatMap_cons, List.flatMap_cons, paragraphXml, List.append_assoc, List.append_assoc,
        hclosing, Replacement.replaceAll_code (by simp) htoken (hnone _),
        Replacement.replaceAll_append_of_notMem (escapeXml_plain (by simp) text),
        ← hclosing, Replacement.replaceAll_append (by simp [closingTag]), ih]
      simp

/-- The lines of a document of paragraphs. -/
theorem xmlText_paragraphs (htag : paragraphTag ∈ paragraphTags) {paragraphs : List (List Char)}
    (hlines : ∀ text ∈ paragraphs, '\n' ∉ text) :
    xmlText (paragraphs.flatMap (paragraphXml paragraphTag)) paragraphTag =
      paragraphs.map (fun text => decodeXml (escapeXml text)) ++ [[]] := by
  have hnames : ∀ name ∈ paragraphTags, '<' ∉ name ∧ '>' ∉ name ∧ name ≠ [] ∧
      name.head? ≠ some '/' := by
    decide
  obtain ⟨hopen, hclose, hname, hslash⟩ := hnames paragraphTag htag
  rw [xmlText, replace_closingTag hopen hslash]
  induction paragraphs with
  | nil => rfl
  | cons text paragraphs ih =>
      have hrest := ih fun other hother => hlines other (List.mem_cons_of_mem _ hother)
      have htext := newline_notMem_escapeXml (hlines text List.mem_cons_self)
      have hread : ∀ rest, removeTags ('<' :: paragraphTag ++ '>' :: (escapeXml text ++ '\n' :: rest)) =
          escapeXml text ++ '\n' :: removeTags rest := by
        intro rest
        rw [removeTags_tag hname hclose, removeTags_append (escapeXml_plain (by simp) text)]
        exact congrArg (escapeXml text ++ ·) (removeTags_append (by simp : '<' ∉ ['\n']))
      rw [List.flatMap_cons]
      simp only [List.append_assoc, List.cons_append, List.nil_append] at hread ⊢
      rw [hread, List.splitOn_append_cons_self_of_not_mem htext, List.map_cons, List.map_cons,
        List.cons_append]
      simpa using hrest

end Paragraphs

/-! ## Which texts are read back -/

/-- The text spells the entity of no quote. -/
def SpellsNoQuote (text : List Char) : Prop :=
  ¬['&', 'q', 'u', 'o', 't', ';'] <:+: text ∧ ¬['&', '#', '3', '9', ';'] <:+: text

instance (text : List Char) : Decidable (SpellsNoQuote text) := by
  unfold SpellsNoQuote
  infer_instance

theorem decode_escaped_iff (text : List Char) :
    decodeXml (escapeXml text) = text ↔ SpellsNoQuote text := by
  obtain ⟨hquote, hquoteSame, hquoteKept⟩ := Replacement.length_replaceAll
    (by decide : ['"'].length < ['&', 'q', 'u', 'o', 't', ';'].length) text
  obtain ⟨hapostrophe, -, -⟩ := Replacement.length_replaceAll
    (by decide : ['\''].length < ['&', '#', '3', '9', ';'].length)
    (Replacement.replaceAll ['&', 'q', 'u', 'o', 't', ';'] ['"'] text)
  rw [decodeXml_escapeXml]
  constructor
  · -- The first pass cannot have made the text shorter.
    intro hread
    have hlength := congrArg List.length hread
    have hnoQuote := hquoteSame (by omega)
    rw [hquoteKept hnoQuote] at hread
    exact ⟨hnoQuote, (Replacement.replaceAll_eq_self_iff (by decide)).mp hread⟩
  · rintro ⟨hnoQuote, hnoApostrophe⟩
    rw [hquoteKept hnoQuote]
    exact (Replacement.replaceAll_eq_self_iff (by decide)).mpr hnoApostrophe

/-- The paragraphs of a document are read as they are written exactly if none of them spells
the entity of a quote. -/
theorem paragraphs_read_iff {paragraphTag : List Char} (htag : paragraphTag ∈ paragraphTags)
    {paragraphs : List (List Char)} (hlines : ∀ text ∈ paragraphs, '\n' ∉ text) :
    xmlText (paragraphs.flatMap (paragraphXml paragraphTag)) paragraphTag = paragraphs ++ [[]] ↔
      ∀ text ∈ paragraphs, SpellsNoQuote text := by
  rw [xmlText_paragraphs htag hlines, List.append_cancel_right_eq]
  conv_lhs => rhs; rw [← List.map_id paragraphs]
  rw [List.map_inj_left]
  exact forall₂_congr fun text _ => decode_escaped_iff text

/-- Escaping is undone exactly for texts that spell the entity of no quote. Paragraphs are then
read as they are written, so documents that are read alike have the same paragraphs. -/
theorem decoding_undoes_escaping (text : List Char) :
    (decodeXml (escapeXml text) = text ↔ SpellsNoQuote text) ∧
    ∀ paragraphTag ∈ paragraphTags, ∀ paragraphs : List (List Char),
      (∀ text ∈ paragraphs, '\n' ∉ text) →
      (xmlText (paragraphs.flatMap (paragraphXml paragraphTag)) paragraphTag =
        paragraphs ++ [[]] ↔ ∀ text ∈ paragraphs, SpellsNoQuote text) ∧
      ∀ others : List (List Char), (∀ text ∈ others, '\n' ∉ text) →
        (∀ text ∈ paragraphs ++ others, SpellsNoQuote text) →
        xmlText (paragraphs.flatMap (paragraphXml paragraphTag)) paragraphTag =
          xmlText (others.flatMap (paragraphXml paragraphTag)) paragraphTag →
        paragraphs = others := by
  refine ⟨decode_escaped_iff text, fun paragraphTag htag paragraphs hlines => ?_⟩
  refine ⟨paragraphs_read_iff htag hlines, fun others hothers hclean hequal => ?_⟩
  have hread := (paragraphs_read_iff htag hlines).mpr fun text htext =>
    hclean text (List.mem_append_left _ htext)
  have hreadOthers := (paragraphs_read_iff htag hothers).mpr fun text htext =>
    hclean text (List.mem_append_right _ htext)
  rw [hread, hreadOthers] at hequal
  exact List.append_cancel_right hequal

/-- A text that spells another entity is read as it is written. -/
theorem decoding_undoes_escaping_ampersand :
    decodeXml (escapeXml ['R', '&', 'a', 'm', 'p', ';', 'D']) = ['R', '&', 'a', 'm', 'p', ';', 'D'] ∧
      xmlText (paragraphXml ['w', ':', 'p'] ['&', 'l', 't', ';']) ['w', ':', 'p'] =
        [['&', 'l', 't', ';'], []] := by
  constructor
  · exact (decoding_undoes_escaping _).1.mpr (by decide)
  · have hread := ((decoding_undoes_escaping []).2 ['w', ':', 'p'] (by decide)
      [['&', 'l', 't', ';']] (by decide)).1.mpr (by decide)
    simpa using hread

/-- A paragraph that spells the entity of a quote is read as the quote. -/
theorem spelled_quote_decoded :
    decodeXml (escapeXml ['&', 'q', 'u', 'o', 't', ';']) ≠ ['&', 'q', 'u', 'o', 't', ';'] ∧
      xmlText (paragraphXml ['w', ':', 'p'] ['&', 'q', 'u', 'o', 't', ';']) ['w', ':', 'p'] =
        xmlText (paragraphXml ['w', ':', 'p'] ['"']) ['w', ':', 'p'] := by
  decide

end IsmsPortal
