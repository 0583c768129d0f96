import IsmsPortal.Foundation.CodeUnits
import Mathlib.Order.Lex
import Mathlib.Data.List.Lex

/-! # The canonical text of a JSON value

`stable` prints a value with the keys of every object sorted, so that equal
values have one text. The text is unambiguous: it determines the value up to
the order of object keys, which is what makes a digest of it binding.
-/

namespace IsmsPortal

open Foundation

/-- UTF-16 code units of a character. -/
def utf16Units (c : Char) : List Nat :=
  if c.toNat < 0x10000 then [c.toNat]
  else [0xD800 + (c.toNat - 0x10000) / 0x400, 0xDC00 + (c.toNat - 0x10000) % 0x400]

/-- UTF-16 code units of a string, the alphabet of string comparison. -/
def utf16 (s : String) : List Nat := s.toList.flatMap utf16Units

/-- `Array.prototype.sort` without comparator, on the keys of entries. -/
def keyOrder {α : Type} (left right : String × α) : Prop := utf16 left.1 ≤ utf16 right.1

instance {α : Type} : DecidableRel (@keyOrder α) := fun left right =>
  inferInstanceAs (Decidable (utf16 left.1 ≤ utf16 right.1))

/-- One object member: the quoted key, a colon, the text of the value. -/
def stableField (field : String × List Char) : List Char :=
  Json.quote field.1 ++ ':' :: field.2

mutual

def stableText : Json → List Char
  | .null => ['n', 'u', 'l', 'l']
  | .bool true => ['t', 'r', 'u', 'e']
  | .bool false => ['f', 'a', 'l', 's', 'e']
  | .num value => value.text
  | .str value => Json.quote value
  | .arr items => '[' :: List.intercalate [','] (stableItems items) ++ [']']
  | .obj fields =>
      -- The keys are sorted before their values are looked up and printed.
      '{' :: List.intercalate [',']
        (((stableFields fields).insertionSort keyOrder).map stableField) ++ ['}']

def stableItems : List Json → List (List Char)
  | [] => []
  | item :: rest => stableText item :: stableItems rest

def stableFields : List (String × Json) → List (String × List Char)
  | [] => []
  | (key, value) :: rest => (key, stableText value) :: stableFields rest

end

/-- The canonical text of a value. -/
def stable (value : Json) : String := String.ofList (stableText value)

example : stable (.obj [("b", .num (.nonzero ⟨false, 1, 1, by decide⟩)), ("a", .arr [.null])]) =
    "\x7b\"a\":[null],\"b\":1\x7d" := by
  decide

theorem stableItems_eq_map (items : List Json) : stableItems items = items.map stableText := by
  induction items with
  | nil => rfl
  | cons item rest ih => rw [stableItems, ih, List.map_cons]

theorem stableFields_eq_map (fields : List (String × Json)) :
    stableFields fields = fields.map fun field => (field.1, stableText field.2) := by
  induction fields with
  | nil => rfl
  | cons field rest ih => rw [stableFields, ih, List.map_cons]

/-! ## Values of the runtime -/

def runtimeNumber : JsonNumber → FiniteNumber
  | .zero => .zero false
  | .nonzero decimal => .nonzero decimal

mutual

/-- A stored value in the runtime. -/
def runtimeTree : Json → Canonical.Tree (List CodeUnit) FiniteNumber
  | .null => .null
  | .bool value => .bool value
  | .num value => .num (runtimeNumber value)
  | .str value => .str (unitsOfChars value.toList)
  | .arr items => .arr (runtimeItems items)
  | .obj fields => .obj (runtimeFields fields)

def runtimeItems : List Json → List (Canonical.Tree (List CodeUnit) FiniteNumber)
  | [] => []
  | item :: rest => runtimeTree item :: runtimeItems rest

def runtimeFields : List (String × Json) →
    List (List CodeUnit × Canonical.Tree (List CodeUnit) FiniteNumber)
  | [] => []
  | (key, value) :: rest => (unitsOfChars key.toList, runtimeTree value) :: runtimeFields rest

end

theorem runtimeItems_eq_map (items : List Json) : runtimeItems items = items.map runtimeTree := by
  induction items with
  | nil => rfl
  | cons item rest ih => rw [runtimeItems, ih, List.map_cons]

theorem runtimeFields_eq_map (fields : List (String × Json)) : runtimeFields fields =
    fields.map fun field => (unitsOfChars field.1.toList, runtimeTree field.2) := by
  induction fields with
  | nil => rfl
  | cons field rest ih => rw [runtimeFields, ih, List.map_cons]

/-- A printed field in the runtime. -/
def runtimeField (field : String × List Char) : List CodeUnit × List Char :=
  (unitsOfChars field.1.toList, field.2)

theorem val_unitsOfChars_toList (text : String) :
    (unitsOfChars text.toList).map Fin.val = utf16 text :=
  val_unitsOfChars text.toList

/-- A string is determined by its code units. -/
theorem utf16_injective : Function.Injective utf16 := by
  intro left right heq
  rw [← val_unitsOfChars_toList, ← val_unitsOfChars_toList] at heq
  have hunits := List.map_injective_iff.mpr Fin.val_injective heq
  exact String.toList_inj.mp (unitsOfChars_injective hunits)

theorem keyOrder_iff (left right : String × List Char) :
    keyOrder left right ↔ runtimeScalars.KeyLe (runtimeField left) (runtimeField right) := by
  change utf16 left.1 ≤ utf16 right.1 ↔
    (unitsOfChars left.1.toList).map Fin.val ≤ (unitsOfChars right.1.toList).map Fin.val
  rw [val_unitsOfChars_toList, val_unitsOfChars_toList]

theorem stableField_eq (field : String × List Char) :
    stableField field = runtimeScalars.field (runtimeField field) := by
  rw [stableField, ← stringifyUnits_unitsOfChars]
  rfl

theorem stableText_eq (value : Json) :
    stableText value = runtimeScalars.text (runtimeTree value) := by
  induction value using Json.inductionOn with
  | hnull => rfl
  | hbool value => cases value <;> rfl
  | hnum value => cases value <;> rfl
  | hstr value => exact (stringifyUnits_unitsOfChars value).symm
  | harr items ih =>
      have hitems : stableItems items = runtimeScalars.itemTexts (runtimeItems items) := by
        rw [stableItems_eq_map, Canonical.Scalars.itemTexts_eq_map, runtimeItems_eq_map,
          List.map_map]
        exact List.map_congr_left ih
      rw [stableText, runtimeTree, Canonical.Scalars.text, hitems]
  | hobj fields ih =>
      have hfields : runtimeScalars.fieldTexts (runtimeFields fields) =
          (stableFields fields).map runtimeField := by
        rw [stableFields_eq_map, Canonical.Scalars.fieldTexts_eq_map, runtimeFields_eq_map,
          List.map_map, List.map_map]
        exact List.map_congr_left fun field hfield => by simp [runtimeField, ih field hfield]
      have hsorted := List.map_insertionSort keyOrder runtimeScalars.KeyLe runtimeField
        (stableFields fields) fun left _ right _ => keyOrder_iff left right
      have htokens : ((stableFields fields).insertionSort keyOrder).map stableField =
          (((stableFields fields).insertionSort keyOrder).map runtimeField).map
            runtimeScalars.field := by
        rw [List.map_map]
        exact List.map_congr_left fun field _ => stableField_eq field
      rw [stableText, runtimeTree, Canonical.Scalars.text, hfields, ← hsorted, htokens]

theorem runtimeNumber_same {left right : JsonNumber}
    (hsame : (runtimeNumber left).Same (runtimeNumber right)) : left = right := by
  cases left <;> cases right <;> simp_all [runtimeNumber, FiniteNumber.Same]

/-- Stored values agree if they do in the runtime. -/
theorem agrees_of_runtimeTree {left right : Json}
    (hagrees : (runtimeTree left).Agrees FiniteNumber.Same (runtimeTree right)) :
    left.Agrees right := by
  induction left using Json.inductionOn generalizing right with
  | hnull =>
      cases right <;> cases hagrees
      exact .null
  | hbool value =>
      cases right <;> cases hagrees
      exact .bool value
  | hnum value =>
      cases right <;> cases hagrees
      next hsame => exact runtimeNumber_same hsame ▸ .num value
  | hstr value =>
      cases right with
      | str value' =>
          have hunits := unitsOfChars_injective (Canonical.Tree.agrees_str_iff.mp hagrees)
          exact String.toList_inj.mp hunits ▸ .str value
      | _ => cases hagrees
  | harr items ih =>
      cases right with
      | arr items' =>
          cases hagrees with
          | arr hitems =>
              rw [runtimeItems_eq_map, runtimeItems_eq_map, List.forall₂_map_left_iff,
                List.forall₂_map_right_iff] at hitems
              exact .arr (Canonical.forall₂_imp_of_mem hitems fun item hitem other => ih item hitem)
      | _ => cases hagrees
  | hobj fields ih =>
      cases right with
      | obj fields' =>
          cases hagrees with
          | obj hperm hkeys hvalues =>
              rw [runtimeFields_eq_map] at hperm hkeys hvalues
              obtain ⟨arranged, harranged, rfl⟩ := Canonical.exists_perm_map_eq hperm
              simp only [List.map_map, Function.comp_def] at hkeys hvalues
              have hunits : (fields.map Prod.fst).map (fun key => unitsOfChars key.toList) =
                  (arranged.map Prod.fst).map fun key => unitsOfChars key.toList := by
                simpa [Function.comp_def] using hkeys
              have hinjective : Function.Injective fun key : String => unitsOfChars key.toList :=
                fun _ _ heq => String.toList_inj.mp (unitsOfChars_injective heq)
              refine .obj harranged (List.map_injective_iff.mpr hinjective hunits) ?_
              rw [List.forall₂_map_left_iff, List.forall₂_map_right_iff] at hvalues ⊢
              exact Canonical.forall₂_imp_of_mem hvalues fun field hfield other => ih field hfield
      | _ => cases hagrees

/-! ## Unambiguity -/

/-- Arrays split into the texts of their items. -/
theorem stableItems_split {items items' : List Json} {rest rest' : List Char}
    (heq : stableText (.arr items) ++ rest = stableText (.arr items') ++ rest') :
    stableItems items = stableItems items' ∧ rest = rest' := by
  rw [stableText_eq, stableText_eq] at heq
  have hsplit := runtimeScalars.items_split (fun item _ => runtimeScalars.text_separable item) heq
  have hitems : ∀ items, stableItems items = runtimeScalars.itemTexts (runtimeItems items) := by
    intro items
    rw [stableItems_eq_map, Canonical.Scalars.itemTexts_eq_map, runtimeItems_eq_map, List.map_map]
    exact List.map_congr_left fun item _ => stableText_eq item
  rwa [hitems, hitems]

/-- **`stable` is injective up to key order.** -/
theorem agrees_of_stableText_eq {left right : Json}
    (heq : stableText left = stableText right) : left.Agrees right := by
  rw [stableText_eq, stableText_eq] at heq
  exact agrees_of_runtimeTree (runtimeScalars.agrees_of_text_eq heq)

theorem agrees_of_stable_eq {left right : Json} (heq : stable left = stable right) :
    left.Agrees right :=
  agrees_of_stableText_eq (String.ofList_injective heq)

/-! ## All values -/

/-- A JSON value of the runtime. -/
structure RuntimeValue where
  tree : Canonical.Tree (List CodeUnit) FiniteNumber
  distinct : tree.DistinctKeys

/-- `stable`. -/
def RuntimeValue.stable (value : RuntimeValue) : List Char := runtimeScalars.text value.tree

/-- **`stable` is canonical.** Two values have one text exactly if they agree up to the order of
keys and the sign of zero. A stored value has the text it has in the runtime. -/
theorem stable_eq_iff :
    (∀ left right : RuntimeValue, left.stable = right.stable ↔
      left.tree.Agrees FiniteNumber.Same right.tree) ∧
    ∀ (stored : Json) (value : RuntimeValue), value.tree = runtimeTree stored →
      (IsmsPortal.stable stored).toList = value.stable := by
  constructor
  · intro left right
    exact runtimeScalars.text_eq_iff left.distinct
  · intro stored value hvalue
    rw [IsmsPortal.stable, String.toList_ofList, stableText_eq, RuntimeValue.stable, hvalue]

theorem attempts_keys : [unitsOfChars ['a'], unitsOfChars ['b']].Nodup := by decide

/-- Two values that differ in the order of keys and in the sign of zero. -/
def attempts : RuntimeValue where
  tree := .obj [(unitsOfChars ['a'], .num (.zero false)), (unitsOfChars ['b'], .null)]
  distinct := .obj attempts_keys fun field hfield => by
    rcases List.mem_cons.mp hfield with rfl | hlast
    · exact .num _
    · exact List.mem_singleton.mp hlast ▸ .null

def attemptsReordered : RuntimeValue where
  tree := .obj [(unitsOfChars ['b'], .null), (unitsOfChars ['a'], .num (.zero true))]
  distinct := .obj (List.nodup_reverse.mpr attempts_keys) fun field hfield => by
    rcases List.mem_cons.mp hfield with rfl | hlast
    · exact .null
    · exact List.mem_singleton.mp hlast ▸ .num _

theorem stable_eq_iff_reordered : attempts.stable = attemptsReordered.stable := by
  refine (stable_eq_iff.1 attempts attemptsReordered).mpr ?_
  refine .obj (List.Perm.swap _ _ []) rfl (.cons ?_ (.cons ?_ .nil))
  · exact .num trivial
  · exact .null

end IsmsPortal
