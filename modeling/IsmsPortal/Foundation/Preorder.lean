import IsmsPortal.Foundation.Throughout
import Mathlib.Data.List.Nodup
import Mathlib.Logic.Relation

/-! # Listing in preorder

Items have keys, and children by the key. A visit lists an item with its depth and then visits its
children, and passes over an item whose key is listed. What is listed is a forest in preorder,
whatever the links are: an item at a depth above zero is a child of the last item before it that is
less deep, which is one less deep. Each item is listed once.
-/

namespace Foundation.Preorder

universe u v

structure Entry (α : Type u) where
  item : α
  depth : Nat
deriving DecidableEq

variable {α : Type u} {κ : Type v} (key : α → κ) (children : κ → List α)

/-- The keys of what is listed. -/
def keys (listed : List (Entry α)) : List κ := listed.map fun entry => key entry.item

/-- Visit an item at a depth, with so many levels left. -/
def visit [DecidableEq κ] : Nat → Nat → List (Entry α) → α → List (Entry α)
  | 0, _, listed, _ => listed
  | levels + 1, depth, listed, item =>
      if key item ∈ keys key listed then listed
      else (children (key item)).foldl (visit levels (depth + 1)) (listed ++ [⟨item, depth⟩])

/-- A listed forest: the items at the depth are allowed, and each one is followed by what is below
it. -/
inductive Forest : (α → Prop) → Nat → List (Entry α) → Prop
  | nil (allowed : α → Prop) (depth : Nat) : Forest allowed depth []
  | tree {allowed : α → Prop} {depth : Nat} {item : α} {below rest : List (Entry α)}
      (hitem : allowed item)
      (hbelow : Forest (· ∈ children (key item)) (depth + 1) below)
      (hrest : Forest allowed depth rest) :
      Forest allowed depth (⟨item, depth⟩ :: (below ++ rest))

@[simp]
theorem keys_append (key : α → κ) (first second : List (Entry α)) :
    keys key (first ++ second) = keys key first ++ keys key second :=
  List.map_append

variable {key children} {allowed wider : α → Prop} {depth : Nat} {first second : List (Entry α)}

theorem Forest.append (hfirst : Forest key children allowed depth first)
    (hsecond : Forest key children allowed depth second) :
    Forest key children allowed depth (first ++ second) := by
  induction hfirst with
  | nil => exact hsecond
  | tree hitem hbelow _ _ ih =>
      rw [List.cons_append, List.append_assoc]
      exact .tree hitem hbelow (ih hsecond)

theorem Forest.mono (h : Forest key children allowed depth first)
    (hwider : ∀ item, allowed item → wider item) : Forest key children wider depth first := by
  induction h generalizing wider with
  | nil => exact .nil _ _
  | tree hitem hbelow _ _ ih => exact .tree (hwider _ hitem) hbelow (ih hwider)

theorem Forest.le_depth (h : Forest key children allowed depth first) :
    ∀ entry ∈ first, depth ≤ entry.depth := by
  induction h with
  | nil => exact fun _ h => absurd h List.not_mem_nil
  | tree _ _ _ hbelow hrest =>
      intro entry hentry
      obtain rfl | hentry := List.mem_cons.mp hentry
      · exact Nat.le_refl _
      obtain hentry | hentry := List.mem_append.mp hentry
      · exact Nat.le_of_succ_le (hbelow entry hentry)
      · exact hrest entry hentry

theorem Forest.allowed_of_depth (h : Forest key children allowed depth first) :
    ∀ entry ∈ first, entry.depth = depth → allowed entry.item := by
  induction h with
  | nil => exact fun _ h => absurd h List.not_mem_nil
  | tree hitem hbelow _ _ hrest =>
      intro entry hentry hdepth
      obtain rfl | hentry := List.mem_cons.mp hentry
      · exact hitem
      obtain hentry | hentry := List.mem_append.mp hentry
      · exact absurd (hbelow.le_depth entry hentry) (by omega)
      · exact hrest entry hentry hdepth

/-- The parent of an entry: the last one before it that is less deep. -/
def HasParent (key : α → κ) (children : κ → List α) (before : List (Entry α)) (entry : Entry α) :
    Prop :=
  ∃ outer parent inner, before = outer ++ parent :: inner ∧ parent.depth + 1 = entry.depth ∧
    entry.item ∈ children (key parent.item) ∧ ∀ other ∈ inner, parent.depth < other.depth

theorem HasParent.prepend {before : List (Entry α)} {entry : Entry α}
    (h : HasParent key children before entry) (front : List (Entry α)) :
    HasParent key children (front ++ before) entry := by
  obtain ⟨outer, parent, inner, rfl, hrest⟩ := h
  exact ⟨front ++ outer, parent, inner, by rw [List.append_assoc], hrest⟩

theorem Forest.hasParent (h : Forest key children allowed depth first) :
    Throughout (fun before entry _ => depth < entry.depth → HasParent key children before entry)
      first := by
  induction h with
  | nil => exact throughout_nil
  | @tree allowed depth item below rest _ hbelow _ ihbelow ihrest =>
      refine throughout_cons (fun hdepth => absurd hdepth (Nat.lt_irrefl _)) (throughout_append ?_ ?_)
      · intro before entry after hsplit hdepth
        by_cases hchild : depth + 1 < entry.depth
        · exact (ihbelow before entry after hsplit hchild).prepend [⟨item, depth⟩]
        · have hsame : entry.depth = depth + 1 := by omega
          subst hsplit
          refine ⟨[], ⟨item, depth⟩, before, rfl, hsame.symm, ?_, fun other hother => ?_⟩
          · exact hbelow.allowed_of_depth entry
              (List.mem_append_right _ List.mem_cons_self) hsame
          · exact hbelow.le_depth other (List.mem_append_left _ hother)
      · exact ihrest.mono fun before entry _ _ hparent hdepth =>
          (hparent hdepth).prepend (⟨item, depth⟩ :: below)

/-! ## Visits -/

section Visits

variable {all items more : List α} {item : α} {listed : List (Entry α)}

/-- What a visit of some items adds to the list. -/
structure Visited (key : α → κ) (children : κ → List α) (all : List α) (depth : Nat)
    (before : List (Entry α)) (items : List α) (added : List (Entry α)) : Prop where
  forest : Forest key children (· ∈ items) depth added
  nodup : (keys key before).Nodup → (keys key (before ++ added)).Nodup
  mem : ∀ entry ∈ added, entry.item ∈ all
  listed : ∀ item ∈ items, key item ∈ keys key (before ++ added)
  closed : ∀ entry ∈ added, ∀ child ∈ children (key entry.item),
    key child ∈ keys key (before ++ added)

theorem visited_nil : Visited key children all depth listed [] [] where
  forest := .nil _ _
  nodup h := by rwa [List.append_nil]
  mem _ h := absurd h List.not_mem_nil
  listed _ h := absurd h List.not_mem_nil
  closed _ h := absurd h List.not_mem_nil

theorem Visited.append (hfirst : Visited key children all depth listed items first)
    (hsecond : Visited key children all depth (listed ++ first) more second) :
    Visited key children all depth listed (items ++ more) (first ++ second) where
  forest := (hfirst.forest.mono fun _ h => List.mem_append_left _ h).append
    (hsecond.forest.mono fun _ h => List.mem_append_right _ h)
  nodup h := by
    rw [← List.append_assoc]
    exact hsecond.nodup (hfirst.nodup h)
  mem entry hentry := (List.mem_append.mp hentry).elim (hfirst.mem entry) (hsecond.mem entry)
  listed item hitem := by
    rw [← List.append_assoc]
    obtain hitem | hitem := List.mem_append.mp hitem
    · rw [keys_append]
      exact List.mem_append_left _ (hfirst.listed item hitem)
    · exact hsecond.listed item hitem
  closed entry hentry child hchild := by
    rw [← List.append_assoc]
    obtain hentry | hentry := List.mem_append.mp hentry
    · rw [keys_append]
      exact List.mem_append_left _ (hfirst.closed entry hentry child hchild)
    · exact hsecond.closed entry hentry child hchild

/-- The items that are found from the roots. -/
inductive Reached (key : α → κ) (children : κ → List α) (roots : List α) : α → Prop
  | root {item : α} (hitem : item ∈ roots) : Reached key children roots item
  | child {item child : α} (hitem : Reached key children roots item)
      (hchild : child ∈ children (key item)) : Reached key children roots child

theorem Reached.mem_keys {roots : List α} {added : List (Entry α)}
    (h : Reached key children roots item)
    (hvisited : Visited key children all depth [] roots added) : key item ∈ keys key added := by
  induction h with
  | root hitem => exact hvisited.listed _ hitem
  | child _ hchild ih =>
      obtain ⟨entry, hentry, hsame⟩ := List.mem_map.mp ih
      rw [← hsame] at hchild
      exact hvisited.closed entry hentry _ hchild

variable [DecidableEq κ]

/-- The items that are not listed. -/
def unlisted (key : α → κ) (all : List α) (listed : List (Entry α)) : List α :=
  all.filter fun item => key item ∉ keys key listed

theorem unlisted_append_sublist (key : α → κ) (all : List α) (listed more : List (Entry α)) :
    (unlisted key all (listed ++ more)).Sublist (unlisted key all listed) := by
  refine List.monotone_filter_right all fun item h => ?_
  simp only [keys_append, List.mem_append, not_or, decide_eq_true_eq] at h ⊢
  exact h.1

theorem unlisted_append_lt (hitem : item ∈ all) (hnew : key item ∉ keys key listed) (depth : Nat) :
    (unlisted key all (listed ++ [⟨item, depth⟩])).length < (unlisted key all listed).length := by
  have hsublist := unlisted_append_sublist key all listed [⟨item, depth⟩]
  refine Nat.lt_of_le_of_ne hsublist.length_le fun hsame => ?_
  have hmem : item ∈ unlisted key all listed := List.mem_filter.mpr ⟨hitem, by simpa using hnew⟩
  rw [← hsublist.eq_of_length hsame] at hmem
  simp [unlisted, keys] at hmem

/-- Visits one after the other, if each single visit is as described. -/
theorem visited_foldl {levels : Nat}
    (hvisit : ∀ listed, ∀ item ∈ all, (unlisted key all listed).length < levels →
      ∃ added, visit key children levels depth listed item = listed ++ added ∧
        Visited key children all depth listed [item] added)
    (hitems : ∀ item ∈ items, item ∈ all) (hlevels : (unlisted key all listed).length < levels) :
    ∃ added, items.foldl (visit key children levels depth) listed = listed ++ added ∧
      Visited key children all depth listed items added := by
  induction items generalizing listed with
  | nil => exact ⟨[], (List.append_nil _).symm, visited_nil⟩
  | cons item items ih =>
      obtain ⟨added, hadded, hvisited⟩ := hvisit listed item (hitems item List.mem_cons_self) hlevels
      have hfewer := (unlisted_append_sublist key all listed added).length_le
      have hrest : (unlisted key all (listed ++ added)).length < levels := by omega
      obtain ⟨more, hmore, hrest⟩ :=
        ih (fun other hother => hitems other (List.mem_cons_of_mem _ hother)) hrest
      refine ⟨added ++ more, ?_, hvisited.append hrest⟩
      rw [List.foldl_cons, hadded, hmore, List.append_assoc]

/-- A visit ends in time if there are more levels than items that are not listed. -/
theorem visited_visit (hchildren : ∀ k, ∀ child ∈ children k, child ∈ all) {levels : Nat}
    (hitem : item ∈ all) (hlevels : (unlisted key all listed).length < levels) :
    ∃ added, visit key children levels depth listed item = listed ++ added ∧
      Visited key children all depth listed [item] added := by
  induction levels generalizing depth listed item with
  | zero => exact absurd hlevels (Nat.not_lt_zero _)
  | succ levels ih =>
      unfold visit
      split
      next hlisted =>
        refine ⟨[], (List.append_nil _).symm, .nil _ _, ?_, ?_, ?_, ?_⟩
        · exact fun h => by rwa [List.append_nil]
        · exact fun _ h => absurd h List.not_mem_nil
        · intro other hother
          rwa [List.mem_singleton.mp hother, List.append_nil]
        · exact fun _ h => absurd h List.not_mem_nil
      next hnew =>
        have hfewer : (unlisted key all (listed ++ [⟨item, depth⟩])).length < levels := by
          have := unlisted_append_lt hitem hnew depth
          omega
        have hchild : ∀ listed, ∀ child ∈ all, (unlisted key all listed).length < levels →
            ∃ added, visit key children levels (depth + 1) listed child = listed ++ added ∧
              Visited key children all (depth + 1) listed [child] added :=
          fun listed child hmem hlevels => ih hmem hlevels
        obtain ⟨added, hadded, hvisited⟩ := visited_foldl hchild (hchildren (key item)) hfewer
        rw [List.append_assoc] at hadded
        refine ⟨⟨item, depth⟩ :: added, hadded, ?_, ?_, ?_, ?_, ?_⟩
        · have htree := Forest.tree (List.mem_singleton_self item) hvisited.forest (.nil _ _)
          rwa [List.append_nil] at htree
        · intro hnodup
          rw [List.append_cons]
          refine hvisited.nodup ?_
          rw [keys_append]
          refine hnodup.append (List.nodup_singleton _) ?_
          simpa [keys] using hnew
        · intro entry hentry
          obtain rfl | hentry := List.mem_cons.mp hentry
          · exact hitem
          · exact hvisited.mem entry hentry
        · intro other hother
          rw [List.mem_singleton.mp hother]
          simp [keys]
        · intro entry hentry child hchild
          rw [List.append_cons]
          obtain rfl | hentry := List.mem_cons.mp hentry
          · exact hvisited.listed child hchild
          · exact hvisited.closed entry hentry child hchild

theorem keys_subset_visit {levels : Nat} {k : κ} (hk : k ∈ keys key listed) :
    k ∈ keys key (visit key children levels depth listed item) := by
  induction levels generalizing depth listed item with
  | zero => exact hk
  | succ levels ih =>
      unfold visit
      split
      next => exact hk
      next =>
        have hstart : k ∈ keys key (listed ++ [⟨item, depth⟩]) := by
          rw [keys_append]
          exact List.mem_append_left _ hk
        -- each child leaves what is listed
        generalize listed ++ [⟨item, depth⟩] = start at hstart
        induction children (key item) generalizing start with
        | nil => exact hstart
        | cons child rest ihrest => exact ihrest _ (ih hstart)

/-- Each item and each child is listed at the end. -/
theorem visited_listing (hchildren : ∀ k, ∀ child ∈ children k, child ∈ all) {levels : Nat}
    (hitems : ∀ item ∈ items, item ∈ all) (hlevels : all.length < levels) :
    Visited key children all depth [] items (items.foldl (visit key children levels depth) []) := by
  have hunlisted : (unlisted key all []).length < levels :=
    Nat.lt_of_le_of_lt (List.length_filter_le _ _) hlevels
  have hvisit : ∀ listed, ∀ item ∈ all, (unlisted key all listed).length < levels →
      ∃ added, visit key children levels depth listed item = listed ++ added ∧
        Visited key children all depth listed [item] added :=
    fun listed item hitem hlevels => visited_visit hchildren hitem hlevels
  obtain ⟨added, hadded, hvisited⟩ := visited_foldl hvisit hitems hunlisted
  rw [hadded]
  exact hvisited

/-- Visits of what is listed add nothing. -/
theorem foldl_visit_of_listed {levels : Nat} (hlevels : 0 < levels)
    (hitems : ∀ item ∈ items, key item ∈ keys key listed) :
    items.foldl (visit key children levels depth) listed = listed := by
  obtain ⟨levels, rfl⟩ := Nat.exists_eq_succ_of_ne_zero (Nat.ne_of_gt hlevels)
  induction items with
  | nil => rfl
  | cons item items ih =>
      rw [List.foldl_cons, visit, if_pos (hitems item List.mem_cons_self)]
      exact ih fun other hother => hitems other (List.mem_cons_of_mem _ hother)

end Visits

end Foundation.Preorder
