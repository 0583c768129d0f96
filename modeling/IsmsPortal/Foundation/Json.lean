import IsmsPortal.Foundation.Decimal

/-! # JSON values and the texts of their scalars

`JSON.stringify` prints a string between quotes with its quotes, backslashes
and control characters escaped, and a number by its shortest decimal. Both are
unambiguous: a quoted string ends by itself, a number at the next delimiter.
Strings are sequences of Unicode scalar values, as UTF-8 text columns hold
them, so the escapes of lone surrogates do not arise.
-/

namespace Foundation

/-- A JSON value. The fields of an object are listed in insertion order. -/
inductive Json where
  | null
  | bool (value : Bool)
  | num (value : JsonNumber)
  | str (value : String)
  | arr (items : List Json)
  | obj (fields : List (String × Json))

namespace Json

section Induction

variable {motive : Json → Prop} (hnull : motive .null) (hbool : ∀ value, motive (.bool value))
  (hnum : ∀ value, motive (.num value)) (hstr : ∀ value, motive (.str value))
  (harr : ∀ items, (∀ item ∈ items, motive item) → motive (.arr items))
  (hobj : ∀ fields, (∀ field ∈ fields, motive field.2) → motive (.obj fields))

include hnull hbool hnum hstr harr hobj in
/-- Induction with the hypothesis at every member of an array or object. -/
theorem inductionOn : ∀ value, motive value
  | .null => hnull
  | .bool value => hbool value
  | .num value => hnum value
  | .str value => hstr value
  | .arr items => harr items fun item _ => inductionOn item
  | .obj fields => hobj fields fun field _ => inductionOn field.2
termination_by value => sizeOf value
decreasing_by
  · have hlt := List.sizeOf_lt_of_mem ‹_›
    simp only [arr.sizeOf_spec]
    omega
  · have hlt := List.sizeOf_lt_of_mem ‹_›
    rcases field with ⟨key, value⟩
    simp only [Prod.mk.sizeOf_spec] at hlt
    simp only [obj.sizeOf_spec]
    omega

end Induction

/-- A value counts as true. -/
def truthy : Json → Bool
  | .null => false
  | .bool value => value
  | .num .zero => false
  | .num (.nonzero _) => true
  | .str value => value ≠ ""
  | .arr _ | .obj _ => true

/-- Equality up to the order of object keys, at every level. -/
inductive Agrees : Json → Json → Prop
  | null : Agrees .null .null
  | bool (value : Bool) : Agrees (.bool value) (.bool value)
  | num (value : JsonNumber) : Agrees (.num value) (.num value)
  | str (value : String) : Agrees (.str value) (.str value)
  | arr {items items' : List Json} (hitems : List.Forall₂ Agrees items items') :
      Agrees (.arr items) (.arr items')
  | obj {fields fields' arranged : List (String × Json)} (hperm : arranged.Perm fields')
      (hkeys : fields.map Prod.fst = arranged.map Prod.fst)
      (hvalues : List.Forall₂ Agrees (fields.map Prod.snd) (arranged.map Prod.snd)) :
      Agrees (.obj fields) (.obj fields')

theorem agrees_str_iff {left right : String} : Agrees (.str left) (.str right) ↔ left = right := by
  constructor
  · intro hagrees
    cases hagrees
    rfl
  · rintro rfl
    exact .str left

/-! ## Strings -/

/-- The characters `JSON.stringify` writes for one character of a string. -/
def escape (c : Char) : List Char :=
  if c = '"' then ['\\', '"']
  else if c = '\\' then ['\\', '\\']
  else if c = '\x08' then ['\\', 'b']
  else if c = '\t' then ['\\', 't']
  else if c = '\n' then ['\\', 'n']
  else if c = '\x0c' then ['\\', 'f']
  else if c = '\r' then ['\\', 'r']
  else if c.toNat < 32 then
    ['\\', 'u', '0', '0', (c.toNat / 16).digitChar, (c.toNat % 16).digitChar]
  else [c]

/-- A string between quotes. -/
def quote (s : String) : List Char := '"' :: s.toList.flatMap escape ++ ['"']

/-- Value of a lower-case hexadecimal digit. -/
def hexValue (c : Char) : Nat := if c.isDigit then c.toNat - 48 else c.toNat - 87

/-- Read one possibly escaped character; a bare quote ends the string. -/
def unescape : List Char → Option (Char × List Char)
  | '\\' :: '"' :: rest => some ('"', rest)
  | '\\' :: '\\' :: rest => some ('\\', rest)
  | '\\' :: 'b' :: rest => some ('\x08', rest)
  | '\\' :: 't' :: rest => some ('\t', rest)
  | '\\' :: 'n' :: rest => some ('\n', rest)
  | '\\' :: 'f' :: rest => some ('\x0c', rest)
  | '\\' :: 'r' :: rest => some ('\r', rest)
  | '\\' :: 'u' :: '0' :: '0' :: high :: low :: rest =>
      some (Char.ofNat (16 * hexValue high + hexValue low), rest)
  | '"' :: _ => none
  | c :: rest => some (c, rest)
  | [] => none

theorem unescape_control : ∀ n < 32,
    16 * hexValue (n / 16).digitChar + hexValue (n % 16).digitChar = n := by
  decide

theorem unescape_escape (c : Char) (rest : List Char) :
    unescape (escape c ++ rest) = some (c, rest) := by
  unfold escape
  split
  next hc => subst hc; rfl
  split
  next hc => subst hc; rfl
  split
  next hc => subst hc; rfl
  split
  next hc => subst hc; rfl
  split
  next hc => subst hc; rfl
  split
  next hc => subst hc; rfl
  split
  next hc => subst hc; rfl
  next hquote hslash _ _ _ _ _ =>
    split
    next hlt =>
      simp only [List.cons_append, List.nil_append, unescape, unescape_control _ hlt,
        Char.ofNat_toNat]
    next =>
      rw [List.singleton_append]
      unfold unescape
      split <;> simp_all

/-- The escaped body of a string ends at the first bare quote. -/
theorem flatMap_escape_split {body body' rest rest' : List Char}
    (heq : body.flatMap escape ++ '"' :: rest = body'.flatMap escape ++ '"' :: rest') :
    body = body' ∧ rest = rest' := by
  obtain ⟨hbody, hrest⟩ := Text.flatMap_split unescape_escape rfl rfl heq
  exact ⟨hbody, (List.cons.inj hrest).2⟩

/-- Quoted strings need no delimiter. -/
theorem quote_split {s s' : String} {rest rest' : List Char}
    (heq : quote s ++ rest = quote s' ++ rest') : s = s' ∧ rest = rest' := by
  simp only [quote, List.cons_append, List.append_assoc, List.cons.injEq, true_and,
    List.nil_append] at heq
  obtain ⟨hbody, hrest⟩ := flatMap_escape_split heq
  exact ⟨String.toList_inj.mp hbody, hrest⟩

/-! ## Numbers -/

theorem number_separable (left right : JsonNumber) :
    Text.Separable left.text right.text := by
  have hstop : ∀ rest, Text.Delimited rest →
      ∀ c ∈ rest.head?, Decimal.numberChar c = false := by
    intro rest hrest c hc
    rcases Text.mem_delimiters.mp (hrest c hc) with rfl | rfl | rfl <;> decide
  intro rest rest' hrest hrest' heq
  exact Text.append_eq_of_class left.text_class right.text_class
    (hstop rest hrest) (hstop rest' hrest') heq

end Json

end Foundation
