import Mathlib.Data.List.Sort

/-! # Stable sorting by key

Items are sorted by a relation that relates two items both ways exactly if they have one key. The
sort is stable, so the items of a key keep their order, and the sorted list is determined by these
orders.
-/

namespace Foundation.StableSort

universe u v

variable {α : Type u} {κ : Type v} {key : α → κ} {r : α → α → Prop}

/-- The relation orders the items by their keys. -/
def OrdersBy (r : α → α → Prop) (key : α → κ) : Prop :=
  ∀ left right, key left = key right ↔ r left right ∧ r right left

/-! ## Comparison functions -/

section Comparison

variable (key) (cmp : κ → κ → Ordering)

/-- The first item is not after the second one. -/
def NotAfter (left right : α) : Prop := cmp (key left) (key right) ≠ .gt

instance : DecidableRel (NotAfter key cmp) := fun left right =>
  inferInstanceAs (Decidable (cmp (key left) (key right) ≠ .gt))

variable [Std.TransCmp cmp]

instance : Std.Total (NotAfter key cmp) where
  total left right := by
    have hswap : cmp (key left) (key right) = (cmp (key right) (key left)).swap :=
      Std.OrientedCmp.eq_swap
    unfold NotAfter
    rw [hswap]
    cases cmp (key right) (key left) <;> simp

instance : IsTrans α (NotAfter key cmp) where
  trans _ _ _ hleft hright := Ordering.ne_gt_iff_isLE.mpr
    (Std.TransCmp.isLE_trans (Ordering.ne_gt_iff_isLE.mp hleft) (Ordering.ne_gt_iff_isLE.mp hright))

theorem ordersBy_notAfter [Std.LawfulEqCmp cmp] : OrdersBy (NotAfter key cmp) key := by
  intro left right
  constructor
  · intro hsame
    simp [NotAfter, hsame, Std.ReflCmp.compare_self]
  · rintro ⟨hle, hge⟩
    have hsame : cmp (key left) (key right) = .eq := Std.OrientedCmp.isLE_antisymm
      (Ordering.ne_gt_iff_isLE.mp hle) (Ordering.ne_gt_iff_isLE.mp hge)
    exact Std.LawfulEqCmp.eq_of_compare hsame

end Comparison

/-! ## Items of one key -/

section Items

variable [DecidableEq κ]

/-- The items of a key, in their order. -/
def ofKey (key : α → κ) (k : κ) (items : List α) : List α :=
  items.filter fun item => key item = k

variable [DecidableRel r]

theorem ofKey_orderedInsert (hkey : OrdersBy r key) (k : κ) (item : α) (items : List α) :
    ofKey key k (items.orderedInsert r item) = ofKey key k (item :: items) := by
  induction items with
  | nil => rfl
  | cons head rest ih =>
      rw [List.orderedInsert_cons]
      split
      next => rfl
      next hafter =>
        -- The item passes items of other keys only.
        have hdifferent : key item ≠ key head := fun hsame => hafter ((hkey item head).mp hsame).1
        unfold ofKey at ih ⊢
        rw [List.filter_cons, ih]
        by_cases hitem : key item = k
        · subst hitem
          simp [Ne.symm hdifferent]
        · simp [List.filter_cons, hitem]

/-- **Stability.** The items of a key stay in their order. -/
theorem ofKey_insertionSort (hkey : OrdersBy r key) (k : κ) (items : List α) :
    ofKey key k (items.insertionSort r) = ofKey key k items := by
  induction items with
  | nil => rfl
  | cons item rest ih =>
      rw [List.insertionSort_cons, ofKey_orderedInsert hkey]
      unfold ofKey at ih ⊢
      rw [List.filter_cons, List.filter_cons, ih]

omit [DecidableRel r] in
/-- Sorted lists with the same items of each key are equal. -/
theorem eq_of_ofKey_eq (hkey : OrdersBy r key) {items other : List α} (hitems : items.Pairwise r)
    (hother : other.Pairwise r)
    (hsame : ∀ item, ofKey key (key item) items = ofKey key (key item) other) : items = other := by
  induction items generalizing other with
  | nil =>
      cases other with
      | nil => rfl
      | cons head rest => simpa [ofKey] using hsame head
  | cons item items ih =>
      cases other with
      | nil => simpa [ofKey] using hsame item
      | cons head rest =>
          have hkeys : key item = key head := by
            -- Each of the two first items is in the other list as well.
            have hitem : item ∈ ofKey key (key item) (head :: rest) := by
              rw [← hsame item]
              simp [ofKey]
            have hhead : head ∈ ofKey key (key head) (item :: items) := by
              rw [hsame head]
              simp [ofKey]
            obtain rfl | hitem := List.mem_cons.mp (List.mem_of_mem_filter hitem)
            · rfl
            obtain rfl | hhead := List.mem_cons.mp (List.mem_of_mem_filter hhead)
            · rfl
            exact (hkey item head).mpr
              ⟨List.rel_of_pairwise_cons hitems hhead, List.rel_of_pairwise_cons hother hitem⟩
          have hfirst : item = head := by
            have heads := congrArg List.head? (hsame item)
            simpa [ofKey, hkeys] using heads
          subst hfirst
          have hrest : items = rest := by
            apply ih hitems.of_cons hother.of_cons
            intro other
            have hothers := hsame other
            unfold ofKey at hothers ⊢
            rw [List.filter_cons, List.filter_cons] at hothers
            split at hothers
            next => exact (List.cons.inj hothers).2
            next => exact hothers
          rw [hrest]

variable [Std.Total r] [IsTrans α r]

theorem insertionSort_eq_iff (hkey : OrdersBy r key) {items other : List α} :
    items.insertionSort r = other.insertionSort r ↔
      ∀ item, ofKey key (key item) items = ofKey key (key item) other := by
  constructor
  · intro hsorted item
    rw [← ofKey_insertionSort hkey (key item) items, hsorted, ofKey_insertionSort hkey]
  · intro hsame
    apply eq_of_ofKey_eq hkey (List.pairwise_insertionSort _ _) (List.pairwise_insertionSort _ _)
    intro item
    rw [ofKey_insertionSort hkey, ofKey_insertionSort hkey, hsame item]

end Items

/-- With distinct keys the order of the items does not matter. -/
theorem insertionSort_eq_of_perm [DecidableRel r] [Std.Total r] [IsTrans α r]
    (hkey : OrdersBy r key) {items other : List α} (hperm : items.Perm other)
    (hkeys : (items.map key).Nodup) : items.insertionSort r = other.insertionSort r := by
  have hsorted : (items.insertionSort r).Perm (other.insertionSort r) :=
    (List.perm_insertionSort _ _).trans (hperm.trans (List.perm_insertionSort _ _).symm)
  refine hsorted.eq_of_pairwise ?_ (List.pairwise_insertionSort _ _)
    (List.pairwise_insertionSort _ _)
  intro item item' hitem hitem' hle hge
  rw [List.mem_insertionSort] at hitem hitem'
  exact List.inj_on_of_nodup_map hkeys hitem (hperm.mem_iff.mpr hitem')
    ((hkey item item').mpr ⟨hle, hge⟩)

end Foundation.StableSort
