import IsmsPortal.Foundation.StableSort
import IsmsPortal.Foundation.Text

/-! # Canonical texts of trees

A tree of arrays and objects, over any strings and numbers, is printed with the keys of every
object sorted. If the texts of strings end by themselves and those of numbers at the next
delimiter, the text determines the tree up to the order of keys. If the keys of every object
are distinct, trees that agree up to this order have one text.
-/

namespace Foundation.Canonical

/-- A tree. The fields of an object are in any order. -/
inductive Tree (S N : Type) where
  | null
  | bool (value : Bool)
  | num (value : N)
  | str (value : S)
  | arr (items : List (Tree S N))
  | obj (fields : List (S × Tree S N))

namespace Tree

variable {S N : Type}

section Induction

variable {motive : Tree S N → Prop} (hnull : motive .null) (hbool : ∀ value, motive (.bool value))
  (hnum : ∀ value, motive (.num value)) (hstr : ∀ value, motive (.str value))
  (harr : ∀ items, (∀ item ∈ items, motive item) → motive (.arr items))
  (hobj : ∀ fields, (∀ field ∈ fields, motive field.2) → motive (.obj fields))

include hnull hbool hnum hstr harr hobj in
/-- Induction with the hypothesis at every member of an array or object. -/
theorem inductionOn : ∀ value, motive value
  | .null => hnull
  | .bool value => hbool value
  | .num value => hnum value
  | .str value => hstr value
  | .arr items => harr items fun item _ => inductionOn item
  | .obj fields => hobj fields fun field _ => inductionOn field.2
termination_by value => sizeOf value
decreasing_by
  · have hlt := List.sizeOf_lt_of_mem ‹_›
    simp only [arr.sizeOf_spec]
    omega
  · have hlt := List.sizeOf_lt_of_mem ‹_›
    rcases field with ⟨key, value⟩
    simp only [Prod.mk.sizeOf_spec] at hlt
    simp only [obj.sizeOf_spec]
    omega

end Induction

/-- Equality up to the order of keys, at every level. -/
inductive Agrees (same : N → N → Prop) : Tree S N → Tree S N → Prop
  | null : Agrees same .null .null
  | bool (value : Bool) : Agrees same (.bool value) (.bool value)
  | num {value value' : N} (hsame : same value value') : Agrees same (.num value) (.num value')
  | str (value : S) : Agrees same (.str value) (.str value)
  | arr {items items' : List (Tree S N)} (hitems : List.Forall₂ (Agrees same) items items') :
      Agrees same (.arr items) (.arr items')
  | obj {fields fields' arranged : List (S × Tree S N)} (hperm : arranged.Perm fields')
      (hkeys : fields.map Prod.fst = arranged.map Prod.fst)
      (hvalues : List.Forall₂ (Agrees same) (fields.map Prod.snd) (arranged.map Prod.snd)) :
      Agrees same (.obj fields) (.obj fields')

theorem agrees_str_iff {same : N → N → Prop} {left right : S} :
    Agrees same (.str left) (.str right) ↔ left = right := by
  constructor
  · intro hagrees
    cases hagrees
    rfl
  · rintro rfl
    exact .str left

/-- The keys of every object are distinct. -/
inductive DistinctKeys : Tree S N → Prop
  | null : DistinctKeys .null
  | bool (value : Bool) : DistinctKeys (.bool value)
  | num (value : N) : DistinctKeys (.num value)
  | str (value : S) : DistinctKeys (.str value)
  | arr {items : List (Tree S N)} (hitems : ∀ item ∈ items, DistinctKeys item) :
      DistinctKeys (.arr items)
  | obj {fields : List (S × Tree S N)} (hkeys : (fields.map Prod.fst).Nodup)
      (hfields : ∀ field ∈ fields, DistinctKeys field.2) : DistinctKeys (.obj fields)

/-- The kind of a tree. -/
def kind : Tree S N → Nat
  | .null => 0
  | .bool _ => 1
  | .num _ => 2
  | .str _ => 3
  | .arr _ => 4
  | .obj _ => 5

end Tree

/-- The texts of strings and numbers, the keys by which strings are sorted, and the numbers
that are the same. -/
structure Scalars (S N K : Type) where
  key : S → K
  key_injective : Function.Injective key
  quote : S → List Char
  quote_head : ∀ text, ∃ rest, quote text = '"' :: rest
  quote_split : ∀ {text text' : S} {rest rest' : List Char},
    quote text ++ rest = quote text' ++ rest' → text = text' ∧ rest = rest'
  number : N → List Char
  number_head : ∀ value, ∃ c rest, number value = c :: rest ∧ (c.isDigit = true ∨ c = '-')
  number_separable : ∀ value value', Text.Separable (number value) (number value')
  same : N → N → Prop
  number_eq_iff : ∀ {value value'}, number value = number value' ↔ same value value'

/-! ## Images -/

section Images

universe u v

variable {α : Type u} {β : Type v} {f : α → β} {relation : α → α → Prop} {left right : List α}

/-- A rearrangement of an image comes from a rearrangement of the source. -/
theorem exists_perm_map_eq {image : List β} {source : List α} (hperm : image.Perm (source.map f)) :
    ∃ arranged : List α, arranged.Perm source ∧ arranged.map f = image := by
  induction image generalizing source with
  | nil =>
      have hnil := hperm.symm.eq_nil
      exact ⟨[], by rw [List.map_eq_nil_iff.mp hnil], rfl⟩
  | cons head rest ih =>
      obtain ⟨first, hfirst, hhead⟩ := List.mem_map.mp (hperm.mem_iff.mp List.mem_cons_self)
      obtain ⟨before, after, rfl⟩ := List.append_of_mem hfirst
      have hrest : rest.Perm ((before ++ after).map f) := by
        rw [List.map_append, List.map_cons, hhead] at hperm
        rw [List.map_append]
        exact (hperm.trans List.perm_middle).cons_inv
      obtain ⟨arranged, harranged, hmap⟩ := ih hrest
      exact ⟨first :: arranged, (harranged.cons first).trans List.perm_middle.symm,
        by rw [List.map_cons, hhead, hmap]⟩

/-- Lists with the same image agree element by element, where equal images do. -/
theorem forall₂_of_map_eq (hmap : left.map f = right.map f)
    (hrelation : ∀ item ∈ left, ∀ other, f item = f other → relation item other) :
    List.Forall₂ relation left right := by
  induction left generalizing right with
  | nil =>
      obtain rfl : right = [] := List.map_eq_nil_iff.mp hmap.symm
      exact .nil
  | cons item left ih =>
      cases right with
      | nil => cases hmap
      | cons other right =>
          rw [List.map_cons, List.map_cons, List.cons.injEq] at hmap
          exact .cons (hrelation item List.mem_cons_self other hmap.1)
            (ih hmap.2 fun next hnext => hrelation next (List.mem_cons_of_mem _ hnext))

theorem map_eq_of_forall₂ (hforall : List.Forall₂ relation left right)
    (hrelation : ∀ item ∈ left, ∀ other, relation item other → f item = f other) :
    left.map f = right.map f := by
  induction hforall with
  | nil => rfl
  | cons hhead _ ih =>
      rw [List.map_cons, List.map_cons, hrelation _ List.mem_cons_self _ hhead,
        ih fun next hnext => hrelation next (List.mem_cons_of_mem _ hnext)]

theorem forall₂_imp_of_mem {other : α → α → Prop} (hforall : List.Forall₂ relation left right)
    (hrelation : ∀ item ∈ left, ∀ item', relation item item' → other item item') :
    List.Forall₂ other left right := by
  induction hforall with
  | nil => exact .nil
  | cons hhead _ ih =>
      exact .cons (hrelation _ List.mem_cons_self _ hhead)
        (ih fun next hnext => hrelation next (List.mem_cons_of_mem _ hnext))

end Images

namespace Scalars

variable {S N K : Type} (scalars : Scalars S N K)

/-! ## Fields -/

/-- A quoted key, a colon, and the text of the value. -/
def field (entry : S × List Char) : List Char := scalars.quote entry.1 ++ ':' :: entry.2

theorem field_injective : Function.Injective scalars.field := by
  intro left right heq
  obtain ⟨hkey, htext⟩ := scalars.quote_split heq
  exact Prod.ext hkey (List.cons.inj htext).2

theorem field_separable {key key' : S} {value value' : List Char}
    (hvalue : Text.Separable value value') :
    Text.Separable (scalars.field (key, value)) (scalars.field (key', value')) := by
  intro rest rest' hrest hrest' heq
  simp only [field, List.append_assoc, List.cons_append] at heq
  obtain ⟨hkey, htail⟩ := scalars.quote_split heq
  obtain ⟨hvalue, hrest⟩ := hvalue rest rest' hrest hrest' (List.cons.inj htail).2
  exact ⟨by rw [hkey, hvalue], hrest⟩

theorem field_start (entry : S × List Char) :
    (scalars.field entry).head? ≠ none ∧ (scalars.field entry).head? ≠ some '}' := by
  obtain ⟨rest, hquote⟩ := scalars.quote_head entry.1
  simp [field, hquote]

/-! ## Texts -/

variable [LinearOrder K]

/-- The order of the printed fields. -/
def KeyLe (left right : S × List Char) : Prop := scalars.key left.1 ≤ scalars.key right.1

instance : DecidableRel scalars.KeyLe := fun left right =>
  inferInstanceAs (Decidable (scalars.key left.1 ≤ scalars.key right.1))

instance : Std.Total scalars.KeyLe := ⟨fun left right => le_total (scalars.key left.1) (scalars.key right.1)⟩

instance : IsTrans (S × List Char) scalars.KeyLe :=
  ⟨fun _ _ _ hleft hright => le_trans (α := K) hleft hright⟩

mutual

/-- The text of a tree. -/
def text : Tree S N → List Char
  | .null => ['n', 'u', 'l', 'l']
  | .bool true => ['t', 'r', 'u', 'e']
  | .bool false => ['f', 'a', 'l', 's', 'e']
  | .num value => scalars.number value
  | .str value => scalars.quote value
  | .arr items => '[' :: List.intercalate [','] (itemTexts items) ++ [']']
  | .obj fields =>
      '{' :: List.intercalate [',']
        (((fieldTexts fields).insertionSort scalars.KeyLe).map scalars.field) ++ ['}']

def itemTexts : List (Tree S N) → List (List Char)
  | [] => []
  | item :: rest => text item :: itemTexts rest

def fieldTexts : List (S × Tree S N) → List (S × List Char)
  | [] => []
  | (key, value) :: rest => (key, text value) :: fieldTexts rest

end

@[simp]
theorem text_true : scalars.text (.bool true : Tree S N) = ['t', 'r', 'u', 'e'] := rfl

@[simp]
theorem text_false : scalars.text (.bool false : Tree S N) = ['f', 'a', 'l', 's', 'e'] := rfl

theorem text_arr (items : List (Tree S N)) : scalars.text (.arr items) =
    '[' :: List.intercalate [','] (scalars.itemTexts items) ++ [']'] := rfl

theorem text_obj (fields : List (S × Tree S N)) : scalars.text (.obj fields) =
    '{' :: List.intercalate [',']
      (((scalars.fieldTexts fields).insertionSort scalars.KeyLe).map scalars.field) ++ ['}'] := rfl

theorem itemTexts_eq_map (items : List (Tree S N)) :
    scalars.itemTexts items = items.map scalars.text := by
  induction items with
  | nil => rfl
  | cons item rest ih => exact congrArg (scalars.text item :: ·) ih

theorem fieldTexts_eq_map (fields : List (S × Tree S N)) :
    scalars.fieldTexts fields = fields.map fun field => (field.1, scalars.text field.2) := by
  induction fields with
  | nil => rfl
  | cons field rest ih => exact congrArg ((field.1, scalars.text field.2) :: ·) ih

/-! ## The first character tells the kind of tree -/

/-- The kind of the trees whose texts start with the character. -/
def kindOfHead : Char → Nat
  | 'n' => 0
  | 't' => 1
  | 'f' => 1
  | '"' => 3
  | '[' => 4
  | '{' => 5
  | _ => 2

theorem text_head (tree : Tree S N) : ∃ c rest, scalars.text tree = c :: rest ∧
    kindOfHead c = tree.kind ∧ c ∉ Text.delimiters := by
  cases tree with
  | null => exact ⟨'n', _, rfl, rfl, by decide⟩
  | bool value =>
      cases value with
      | true => exact ⟨'t', _, rfl, rfl, by decide⟩
      | false => exact ⟨'f', _, rfl, rfl, by decide⟩
  | num value =>
      obtain ⟨c, rest, htext, hc⟩ := scalars.number_head value
      refine ⟨c, rest, htext, ?_, ?_⟩
      · rcases hc with hdigit | rfl
        · unfold kindOfHead
          split <;> first | rfl | cases hdigit
        · rfl
      · rcases hc with hdigit | rfl
        · intro hmem
          rcases Text.mem_delimiters.mp hmem with rfl | rfl | rfl <;> cases hdigit
        · decide
  | str value =>
      obtain ⟨rest, htext⟩ := scalars.quote_head value
      exact ⟨'"', rest, htext, rfl, by decide⟩
  | arr items => exact ⟨'[', _, by rw [text_arr, List.cons_append], rfl, by decide⟩
  | obj fields => exact ⟨'{', _, by rw [text_obj, List.cons_append], rfl, by decide⟩

theorem kind_eq_of_append {left right : Tree S N} {rest rest' : List Char}
    (heq : scalars.text left ++ rest = scalars.text right ++ rest') : left.kind = right.kind := by
  obtain ⟨c, tail, hleft, hkind, _⟩ := scalars.text_head left
  obtain ⟨c', tail', hright, hkind', _⟩ := scalars.text_head right
  rw [hleft, hright, List.cons_append, List.cons_append, List.cons.injEq] at heq
  rw [← hkind, ← hkind', heq.1]

theorem kind_eq {left right : Tree S N} (heq : scalars.text left = scalars.text right) :
    left.kind = right.kind :=
  scalars.kind_eq_of_append (congrArg (· ++ []) heq)

/-! ## Unambiguity -/

/-- The printed fields of an object, in the order of their keys. -/
def tokens (fields : List (S × Tree S N)) : List (List Char) :=
  ((scalars.fieldTexts fields).insertionSort scalars.KeyLe).map scalars.field

theorem mem_tokens {fields : List (S × Tree S N)} {token : List Char} :
    token ∈ scalars.tokens fields ↔
      ∃ entry ∈ fields, token = scalars.field (entry.1, scalars.text entry.2) := by
  rw [tokens, List.mem_map]
  simp only [List.mem_insertionSort, fieldTexts_eq_map, List.mem_map]
  constructor
  · rintro ⟨_, ⟨entry, hentry, rfl⟩, rfl⟩
    exact ⟨entry, hentry, rfl⟩
  · rintro ⟨entry, hentry, rfl⟩
    exact ⟨_, ⟨entry, hentry, rfl⟩, rfl⟩

theorem text_start {close : Char} (hclose : close ∈ Text.delimiters) (tree : Tree S N) :
    (scalars.text tree).head? ≠ none ∧ (scalars.text tree).head? ≠ some close := by
  obtain ⟨c, rest, htext, _, hc⟩ := scalars.text_head tree
  rw [htext, List.head?_cons]
  exact ⟨by simp, fun heq => hc (Option.some.inj heq ▸ hclose)⟩

/-- Arrays split into the texts of their items. -/
theorem items_split {items items' : List (Tree S N)} {rest rest' : List Char}
    (hitems : ∀ item ∈ items, ∀ other, Text.Separable (scalars.text item) (scalars.text other))
    (heq : scalars.text (.arr items) ++ rest = scalars.text (.arr items') ++ rest') :
    scalars.itemTexts items = scalars.itemTexts items' ∧ rest = rest' := by
  simp only [text_arr, List.cons_append, List.append_assoc, List.cons.injEq, true_and,
    List.nil_append] at heq
  have hstart : ∀ others : List (Tree S N), ∀ token ∈ scalars.itemTexts others,
      token.head? ≠ none ∧ token.head? ≠ some ']' := by
    intro others token htoken
    rw [itemTexts_eq_map] at htoken
    obtain ⟨item, _, rfl⟩ := List.mem_map.mp htoken
    exact scalars.text_start (by decide) item
  refine Text.intercalate_split (by decide) (by decide) ?_ (hstart items) (hstart items') heq
  rw [itemTexts_eq_map, itemTexts_eq_map]
  intro token htoken token' htoken'
  obtain ⟨item, hitem, rfl⟩ := List.mem_map.mp htoken
  obtain ⟨item', _, rfl⟩ := List.mem_map.mp htoken'
  exact hitems item hitem item'

/-- Objects split into their printed fields. -/
theorem tokens_split {fields fields' : List (S × Tree S N)} {rest rest' : List Char}
    (hfields : ∀ entry ∈ fields, ∀ other,
      Text.Separable (scalars.text entry.2) (scalars.text other))
    (heq : scalars.text (.obj fields) ++ rest = scalars.text (.obj fields') ++ rest') :
    scalars.tokens fields = scalars.tokens fields' ∧ rest = rest' := by
  simp only [text_obj, List.cons_append, List.append_assoc, List.cons.injEq, true_and,
    List.nil_append] at heq
  have hstart : ∀ others : List (S × Tree S N), ∀ token ∈ scalars.tokens others,
      token.head? ≠ none ∧ token.head? ≠ some '}' := by
    intro others token htoken
    obtain ⟨entry, _, rfl⟩ := scalars.mem_tokens.mp htoken
    exact scalars.field_start _
  refine Text.intercalate_split (by decide) (by decide) ?_ (hstart fields) (hstart fields') heq
  intro token htoken token' htoken'
  obtain ⟨entry, hentry, rfl⟩ := scalars.mem_tokens.mp htoken
  obtain ⟨entry', _, rfl⟩ := scalars.mem_tokens.mp htoken'
  exact scalars.field_separable (hfields entry hentry entry'.2)

/-- A text followed by a delimiter is read back as a whole. -/
theorem text_separable (left right : Tree S N) :
    Text.Separable (scalars.text left) (scalars.text right) := by
  -- Induction on the left tree; the first character fixes the kind of the right one.
  induction left using Tree.inductionOn generalizing right with
  | hnull =>
      intro rest rest' _ _ heq
      cases right with
      | null => exact ⟨rfl, List.append_cancel_left heq⟩
      | _ => exact absurd (scalars.kind_eq_of_append heq) (by simp [Tree.kind])
  | hbool value =>
      intro rest rest' _ _ heq
      cases right with
      | bool value' => cases value <;> cases value' <;> simp at heq ⊢ <;> exact heq
      | _ => exact absurd (scalars.kind_eq_of_append heq) (by simp [Tree.kind])
  | hnum value =>
      intro rest rest' hrest hrest' heq
      cases right with
      | num value' => exact scalars.number_separable value value' rest rest' hrest hrest' heq
      | _ => exact absurd (scalars.kind_eq_of_append heq) (by simp [Tree.kind])
  | hstr value =>
      intro rest rest' _ _ heq
      cases right with
      | str value' =>
          obtain ⟨rfl, hrest⟩ := scalars.quote_split heq
          exact ⟨rfl, hrest⟩
      | _ => exact absurd (scalars.kind_eq_of_append heq) (by simp [Tree.kind])
  | harr items ih =>
      intro rest rest' _ _ heq
      cases right with
      | arr items' =>
          obtain ⟨hitems, hrest⟩ := scalars.items_split ih heq
          exact ⟨by rw [text_arr, text_arr, hitems], hrest⟩
      | _ => exact absurd (scalars.kind_eq_of_append heq) (by simp [Tree.kind])
  | hobj fields ih =>
      intro rest rest' _ _ heq
      cases right with
      | obj fields' =>
          obtain ⟨htokens, hrest⟩ := scalars.tokens_split ih heq
          simp only [tokens] at htokens
          exact ⟨by rw [text_obj, text_obj, htokens], hrest⟩
      | _ => exact absurd (scalars.kind_eq_of_append heq) (by simp [Tree.kind])

/-- **Injectivity.** Trees with one text agree up to the order of keys. -/
theorem agrees_of_text_eq {left right : Tree S N}
    (heq : scalars.text left = scalars.text right) : left.Agrees scalars.same right := by
  induction left using Tree.inductionOn generalizing right with
  | hnull =>
      cases right with
      | null => exact .null
      | _ => exact absurd (scalars.kind_eq heq) (by simp [Tree.kind])
  | hbool value =>
      cases right with
      | bool value' =>
          obtain rfl : value = value' := by
            cases value <;> cases value' <;> first | rfl | simp at heq
          exact .bool value
      | _ => exact absurd (scalars.kind_eq heq) (by simp [Tree.kind])
  | hnum value =>
      cases right with
      | num value' => exact .num (scalars.number_eq_iff.mp heq)
      | _ => exact absurd (scalars.kind_eq heq) (by simp [Tree.kind])
  | hstr value =>
      cases right with
      | str value' =>
          obtain ⟨rfl, _⟩ := scalars.quote_split (congrArg (· ++ []) heq)
          exact .str value
      | _ => exact absurd (scalars.kind_eq heq) (by simp [Tree.kind])
  | harr items ih =>
      cases right with
      | arr items' =>
          obtain ⟨hitems, _⟩ := scalars.items_split
            (fun item _ => scalars.text_separable item) (congrArg (· ++ []) heq)
          rw [itemTexts_eq_map, itemTexts_eq_map] at hitems
          exact .arr (forall₂_of_map_eq hitems fun item hitem other => ih item hitem)
      | _ => exact absurd (scalars.kind_eq heq) (by simp [Tree.kind])
  | hobj fields ih =>
      cases right with
      | obj fields' =>
          obtain ⟨htokens, _⟩ := scalars.tokens_split
            (fun entry _ => scalars.text_separable entry.2) (congrArg (· ++ []) heq)
          have hsorted := List.map_injective_iff.mpr scalars.field_injective htokens
          have hperm : (scalars.fieldTexts fields).Perm (scalars.fieldTexts fields') :=
            (List.perm_insertionSort scalars.KeyLe _).symm.trans
              (hsorted ▸ List.perm_insertionSort scalars.KeyLe _)
          rw [fieldTexts_eq_map, fieldTexts_eq_map] at hperm
          obtain ⟨arranged, harranged, hmap⟩ := exists_perm_map_eq hperm
          have hkeys := congrArg (List.map Prod.fst) hmap
          have hvalues : (fields.map Prod.snd).map scalars.text =
              (arranged.map Prod.snd).map scalars.text := by
            simpa [Function.comp_def] using (congrArg (List.map Prod.snd) hmap).symm
          refine .obj harranged (by simpa [Function.comp_def] using hkeys.symm)
            (forall₂_of_map_eq hvalues fun value hvalue other => ?_)
          obtain ⟨entry, hentry, rfl⟩ := List.mem_map.mp hvalue
          exact ih entry hentry
      | _ => exact absurd (scalars.kind_eq heq) (by simp [Tree.kind])

/-! ## Canonicity -/

theorem ordersBy_keyLe : StableSort.OrdersBy scalars.KeyLe Prod.fst := by
  intro left right
  rw [← scalars.key_injective.eq_iff]
  exact le_antisymm_iff

/-- With distinct keys the order of the fields does not matter. -/
theorem insertionSort_eq_of_perm {entries entries' : List (S × List Char)}
    (hperm : entries.Perm entries') (hkeys : (entries.map Prod.fst).Nodup) :
    entries.insertionSort scalars.KeyLe = entries'.insertionSort scalars.KeyLe :=
  StableSort.insertionSort_eq_of_perm scalars.ordersBy_keyLe hperm hkeys

/-- Trees that agree have one text. -/
theorem text_eq_of_agrees {left right : Tree S N} (hleft : left.DistinctKeys)
    (hagrees : left.Agrees scalars.same right) : scalars.text left = scalars.text right := by
  induction left using Tree.inductionOn generalizing right with
  | hnull =>
      cases hagrees
      rfl
  | hbool value =>
      cases hagrees
      rfl
  | hnum value =>
      cases hagrees with
      | num hsame => exact scalars.number_eq_iff.mpr hsame
  | hstr value =>
      cases hagrees
      rfl
  | harr items ih =>
      cases hagrees with
      | arr hitems =>
          cases hleft with
          | arr hdistinct =>
              have htexts := map_eq_of_forall₂ hitems fun item hitem other =>
                ih item hitem (hdistinct item hitem)
              rw [text_arr, text_arr, itemTexts_eq_map, itemTexts_eq_map, htexts]
  | hobj fields ih =>
      cases hagrees with
      | @obj _ fields' arranged hperm hkeys hvalues =>
          cases hleft with
          | obj hnodup hdistinct =>
              have htexts : (fields.map Prod.snd).map scalars.text =
                  (arranged.map Prod.snd).map scalars.text := by
                refine map_eq_of_forall₂ hvalues fun value hvalue other => ?_
                obtain ⟨entry, hentry, rfl⟩ := List.mem_map.mp hvalue
                exact ih entry hentry (hdistinct entry hentry)
              have hzip : ∀ entries : List (S × Tree S N), scalars.fieldTexts entries =
                  (entries.map Prod.fst).zip ((entries.map Prod.snd).map scalars.text) := by
                intro entries
                rw [fieldTexts_eq_map, List.map_map, List.zip_map']
                rfl
              have harranged : scalars.fieldTexts fields = scalars.fieldTexts arranged := by
                rw [hzip, hzip, hkeys, htexts]
              have hentries : (scalars.fieldTexts fields).Perm (scalars.fieldTexts fields') := by
                rw [harranged, fieldTexts_eq_map, fieldTexts_eq_map]
                exact hperm.map _
              have hfirst : ((scalars.fieldTexts fields).map Prod.fst).Nodup := by
                simpa [fieldTexts_eq_map, Function.comp_def] using hnodup
              rw [text_obj, text_obj, scalars.insertionSort_eq_of_perm hentries hfirst]

/-- **Canonical texts.** Trees with distinct keys have one text exactly if they agree. -/
theorem text_eq_iff {left right : Tree S N} (hleft : left.DistinctKeys) :
    scalars.text left = scalars.text right ↔ left.Agrees scalars.same right :=
  ⟨scalars.agrees_of_text_eq, scalars.text_eq_of_agrees hleft⟩

end Scalars

end Foundation.Canonical
