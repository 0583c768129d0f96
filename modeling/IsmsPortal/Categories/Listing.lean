import IsmsPortal.Foundation.Forest
import IsmsPortal.Foundation.Preorder
import IsmsPortal.Foundation.Table

/-! # Categories in menus

The categories of a space are shown in one list in which the depth stands for the links to parents.
The links may be anything: a parent may be missing, and there may be cycles.
-/

namespace Categories.Listing

open Foundation Preorder

structure Category where
  id : String
  parentId : Option String
  nameFr : String
  nameEn : String
deriving DecidableEq

section Flatten

variable (categories : List Category)

/-- The parent, if it is among the categories. -/
def parentOf (item : Category) : Option String :=
  item.parentId.filter fun id => id ≠ "" && id ∈ categories.map Category.id

/-- `children.get(parentId) || []` -/
def childrenOf (parentId : Option String) : List Category :=
  categories.filter fun item => parentOf categories item = parentId

/-- What is appended is in the result. -/
def append : Nat → Nat → List String → List (Entry Category) → Category → List (Entry Category)
  | 0, _, _, result, _ => result
  | levels + 1, depth, trail, result, item =>
      if item.id ∈ trail ∨ item.id ∈ result.map fun entry => entry.item.id then result
      else
        (childrenOf categories (some item.id)).foldl
          (append levels (depth + 1) (item.id :: trail)) (result ++ [⟨item, depth⟩])

def flattenCategories : List (Entry Category) :=
  let levels := categories.length + 1
  let roots := (childrenOf categories none).foldl (append categories levels 0 []) []
  categories.foldl (append categories levels 0 []) roots

end Flatten

variable {categories : List Category}

/-- The trail is part of what is appended. -/
theorem append_eq_visit {levels depth : Nat} {trail : List String}
    {result : List (Entry Category)} {item : Category}
    (htrail : ∀ id ∈ trail, id ∈ keys Category.id result) :
    append categories levels depth trail result item =
      visit Category.id (fun id => childrenOf categories (some id)) levels depth result item := by
  induction levels generalizing depth trail result item with
  | zero => rfl
  | succ levels ih =>
      unfold append visit
      by_cases hlisted : item.id ∈ keys Category.id result
      · rw [if_pos (.inr hlisted), if_pos hlisted]
      · have hfresh : ¬(item.id ∈ trail ∨ item.id ∈ result.map fun entry => entry.item.id) :=
          not_or.mpr ⟨fun hmem => hlisted (htrail _ hmem), hlisted⟩
        rw [if_neg hfresh, if_neg hlisted]
        have hstart : ∀ id ∈ item.id :: trail,
            id ∈ keys Category.id (result ++ [⟨item, depth⟩]) := by
          intro id hid
          rw [keys_append]
          obtain rfl | hid := List.mem_cons.mp hid
          · exact List.mem_append_right _ (List.mem_singleton_self _)
          · exact List.mem_append_left _ (htrail id hid)
        generalize result ++ [⟨item, depth⟩] = start at hstart
        induction childrenOf categories (some item.id) generalizing start with
        | nil => rfl
        | cons child rest ihrest =>
            rw [List.foldl_cons, List.foldl_cons, ih hstart]
            exact ihrest _ fun id hid => keys_subset_visit (hstart id hid)

/-- The children as they are visited. -/
abbrev below (categories : List Category) (id : String) : List Category :=
  childrenOf categories (some id)

theorem flattenCategories_eq (categories : List Category) :
    flattenCategories categories = (childrenOf categories none ++ categories).foldl
      (visit Category.id (below categories) (categories.length + 1) 0) [] := by
  have hstep : append categories (categories.length + 1) 0 [] =
      visit Category.id (below categories) (categories.length + 1) 0 := by
    funext result item
    exact append_eq_visit fun id hid => nomatch hid
  rw [flattenCategories, hstep, List.foldl_append]

theorem childrenOf_subset {parentId : Option String} :
    ∀ item ∈ childrenOf categories parentId, item ∈ categories :=
  fun _ hitem => (List.mem_filter.mp hitem).1

theorem mem_childrenOf {parentId : Option String} {item : Category} :
    item ∈ childrenOf categories parentId ↔
      item ∈ categories ∧ parentOf categories item = parentId := by
  rw [childrenOf, List.mem_filter, decide_eq_true_eq]

theorem visited_flattenCategories (categories : List Category) :
    Visited Category.id (below categories) categories 0 []
      (childrenOf categories none ++ categories) (flattenCategories categories) := by
  rw [flattenCategories_eq]
  refine visited_listing (fun _ => childrenOf_subset) ?_ (Nat.lt_succ_self _)
  intro item hitem
  exact (List.mem_append.mp hitem).elim (childrenOf_subset item) id

/-- The link of an id. -/
def parentLink (categories : List Category) (id : String) : Option String :=
  (categories.find? (·.id = id)).bind (parentOf categories)

theorem parentLink_id (hids : (categories.map Category.id).Nodup) {item : Category}
    (hitem : item ∈ categories) : parentLink categories item.id = parentOf categories item := by
  have hfind : categories.find? (·.id = item.id) = some item :=
    (Table.find?_key_eq_some_iff hids).mpr ⟨hitem, rfl⟩
  rw [parentLink, hfind, Option.bind_some]

theorem parentOf_eq_some {item : Category} {id : String}
    (h : parentOf categories item = some id) :
    item.parentId = some id ∧ ∃ parent ∈ categories, parent.id = id := by
  obtain ⟨hparent, hknown⟩ := Option.filter_eq_some_iff.mp h
  simp only [Bool.and_eq_true, decide_eq_true_eq, List.mem_map] at hknown
  exact ⟨hparent, hknown.2⟩

/-- Without cycles each category is found from a root. -/
theorem reached_of_grounded (hids : (categories.map Category.id).Nodup)
    (hgrounded : Forest.Grounded (parentLink categories)) {item : Category}
    (hitem : item ∈ categories) :
    Reached Category.id (below categories) (childrenOf categories none) item := by
  generalize hid : item.id = id
  induction hgrounded.apply id generalizing item with
  | intro id _ ih =>
      cases hparent : parentOf categories item with
      | none => exact .root (mem_childrenOf.mpr ⟨hitem, hparent⟩)
      | some up =>
          obtain ⟨_, parent, hmem, rfl⟩ := parentOf_eq_some hparent
          have habove : Forest.Above (parentLink categories) parent.id id := by
            rw [Forest.Above, ← hid, parentLink_id hids hitem, hparent]
          exact .child (ih parent.id habove hmem rfl) (mem_childrenOf.mpr ⟨hitem, hparent⟩)

theorem flattenCategories_of_grounded (hids : (categories.map Category.id).Nodup)
    (hgrounded : Forest.Grounded (parentLink categories)) :
    Visited Category.id (below categories) categories 0 [] (childrenOf categories none)
      (flattenCategories categories) := by
  have hroots : Visited Category.id (below categories) categories 0 [] (childrenOf categories none)
      ((childrenOf categories none).foldl
        (visit Category.id (below categories) (categories.length + 1) 0) []) :=
    visited_listing (fun _ => childrenOf_subset) childrenOf_subset (Nat.lt_succ_self _)
  rw [flattenCategories_eq, List.foldl_append, foldl_visit_of_listed (Nat.succ_pos _)]
  · exact hroots
  · exact fun item hitem => (reached_of_grounded hids hgrounded hitem).mem_keys hroots

theorem root_of_depth_zero (hids : (categories.map Category.id).Nodup)
    (hgrounded : Forest.Grounded (parentLink categories)) {entry : Entry Category}
    (hentry : entry ∈ flattenCategories categories) (hdepth : entry.depth = 0) :
    parentOf categories entry.item = none := by
  have hforest := (flattenCategories_of_grounded hids hgrounded).forest
  exact (mem_childrenOf.mp (hforest.allowed_of_depth entry hentry hdepth)).2

/-- **Categories in menus.** Each category is listed once, whatever its links. Below a category come
its children, one level deeper; and without cycles exactly the categories without a parent are at
the top. -/
theorem categories_are_listed (hids : (categories.map Category.id).Nodup) :
    ((flattenCategories categories).map Entry.item).Perm categories ∧
      Throughout (fun before entry _ => 0 < entry.depth → ∃ outer parent inner,
        before = outer ++ parent :: inner ∧ parent.depth + 1 = entry.depth ∧
          entry.item.parentId = some parent.item.id ∧
          ∀ other ∈ inner, parent.depth < other.depth) (flattenCategories categories) ∧
      (Forest.Grounded (parentLink categories) → ∀ entry ∈ flattenCategories categories,
        (entry.depth = 0 ↔ parentOf categories entry.item = none)) := by
  have hvisited := visited_flattenCategories categories
  refine ⟨?_, ?_, fun hgrounded entry hentry =>
    ⟨root_of_depth_zero hids hgrounded hentry, fun hroot => ?_⟩⟩
  · refine (List.perm_ext_iff_of_nodup ?_ (List.Nodup.of_map _ hids)).mpr fun item => ?_
    · refine List.Nodup.of_map Category.id ?_
      rw [List.map_map]
      exact hvisited.nodup List.nodup_nil
    constructor
    · intro hitem
      obtain ⟨entry, hentry, rfl⟩ := List.mem_map.mp hitem
      exact hvisited.mem entry hentry
    · intro hitem
      obtain ⟨entry, hentry, hsame⟩ :=
        List.mem_map.mp (hvisited.listed item (List.mem_append_right _ hitem))
      rw [← List.inj_on_of_nodup_map hids (hvisited.mem entry hentry) hitem hsame]
      exact List.mem_map_of_mem hentry
  · refine hvisited.forest.hasParent.mono fun before entry _ _ hparent hdepth => ?_
    obtain ⟨outer, parent, inner, hbefore, hlevel, hchild, hinner⟩ := hparent hdepth
    exact ⟨outer, parent, inner, hbefore, hlevel,
      (parentOf_eq_some (mem_childrenOf.mp hchild).2).1, hinner⟩
  · by_contra hdepth
    obtain ⟨before, after, hsplit⟩ := List.append_of_mem hentry
    obtain ⟨_, parent, _, _, _, hchild, _⟩ := hvisited.forest.hasParent before entry after hsplit
      (Nat.pos_of_ne_zero hdepth)
    rw [(mem_childrenOf.mp hchild).2] at hroot
    cases hroot

/-! A root, its child, a category of an unknown parent, and a cycle below which there is one. -/

def menuExample : List Category :=
  [⟨"c", some "a", "", ""⟩, ⟨"a", none, "", ""⟩, ⟨"u", some "x", "", ""⟩, ⟨"d", some "p", "", ""⟩,
    ⟨"p", some "q", "", ""⟩, ⟨"q", some "p", "", ""⟩]

/-! Without a cycle: a root with a child, and a category of an unknown parent. -/

def labelExample : List Category :=
  [⟨"c", some "a", "Copies", ""⟩, ⟨"a", none, "", "Audits"⟩, ⟨"u", some "x", "Usage", "Use"⟩]

theorem labelExample_grounded : Forest.Grounded (parentLink labelExample) := by
  have hlinks : ∀ item ∈ labelExample, parentOf labelExample item ∈ [none, some "a"] := by decide
  have hup : ∀ id up, Forest.Above (parentLink labelExample) up id → up = "a" := by
    intro id up habove
    obtain ⟨item, hitem, hparent⟩ := Option.bind_eq_some_iff.mp habove
    have hlink := hlinks item (List.mem_of_find?_eq_some hitem)
    rw [hparent] at hlink
    simpa using hlink
  refine ⟨fun id => ⟨id, fun up habove => ⟨up, fun top htop => ?_⟩⟩⟩
  rw [hup id up habove] at htop
  cases htop

theorem categories_are_listed_cycle :
    (((flattenCategories menuExample).map Entry.item).Perm menuExample ∧
      Throughout (fun before entry _ => 0 < entry.depth → ∃ outer parent inner,
        before = outer ++ parent :: inner ∧ parent.depth + 1 = entry.depth ∧
          entry.item.parentId = some parent.item.id ∧
          ∀ other ∈ inner, parent.depth < other.depth) (flattenCategories menuExample)) ∧
      ∀ entry ∈ flattenCategories labelExample,
        (entry.depth = 0 ↔ parentOf labelExample entry.item = none) := by
  obtain ⟨hperm, hparents, -⟩ := @categories_are_listed menuExample (by decide)
  obtain ⟨-, -, htop⟩ := @categories_are_listed labelExample (by decide)
  exact ⟨⟨hperm, hparents⟩, htop labelExample_grounded⟩

example : (flattenCategories menuExample).map (fun entry => (entry.item.id, entry.depth)) =
    [("a", 0), ("c", 1), ("u", 0), ("d", 0), ("p", 0), ("q", 1)] := by
  decide

/-! ## Labels -/

section Labels

variable (categories : List Category)

/-- `byId.get(id)`: the last one of an id. -/
def byId (id : String) : Option Category := categories.reverse.find? (·.id = id)

/-- The categories whose names are put in front of each other, up to one that was seen. -/
def labelled : Nat → List String → Option Category → List Category
  | 0, _, _ => []
  | _ + 1, _, none => []
  | levels + 1, seen, some current =>
      if current.id ∈ seen then []
      else
        labelled levels (current.id :: seen)
          ((current.parentId.filter (· ≠ "")).bind (byId categories)) ++ [current]

/-- The languages of the interface. -/
inductive Locale
  | fr
  | en
  | es
  | sk
deriving DecidableEq

/-- The name in French, in all other languages the English one; the other of the two where it is
empty. -/
def Category.name (locale : Locale) (category : Category) : String :=
  let preferred := if locale = .fr then category.nameFr else category.nameEn
  let other := if locale = .fr then category.nameEn else category.nameFr
  if preferred ≠ "" then preferred else other

def namesOf (locale : Locale) (category : Category) : List String :=
  (labelled categories (categories.length + 1) [] (some category)).map (Category.name locale)

/-- The options: ids with labels. -/
def categoryOptions (locale : Locale) : List (String × String) :=
  categories.map fun category => (category.id, " / ".intercalate (namesOf categories locale category))

end Labels

/-- The way down to a category from a category without a parent. -/
inductive Path (categories : List Category) : Category → List Category → Prop
  | root {item : Category} (hitem : item ∈ categories) (h : parentOf categories item = none) :
      Path categories item [item]
  | child {item parent : Category} {path : List Category} (hitem : item ∈ categories)
      (h : parentOf categories item = some parent.id) (hpath : Path categories parent path) :
      Path categories item (path ++ [item])

theorem Path.mem {item : Category} {path : List Category} (h : Path categories item path) :
    item ∈ categories := by
  cases h with
  | root hitem _ => exact hitem
  | child hitem _ _ => exact hitem

theorem Path.subset {item : Category} {path : List Category} (h : Path categories item path) :
    ∀ other ∈ path, other ∈ categories := by
  induction h with
  | root hitem _ => simpa using hitem
  | child hitem _ _ ih =>
      intro other hother
      obtain hother | hother := List.mem_append.mp hother
      · exact ih other hother
      · rwa [List.mem_singleton.mp hother]

theorem Path.reaches (hids : (categories.map Category.id).Nodup) {item : Category}
    {path : List Category} (h : Path categories item path) :
    ∀ other ∈ path, Forest.Reaches (parentLink categories) item.id other.id := by
  induction h with
  | root _ _ =>
      intro other hother
      rw [List.mem_singleton.mp hother]
      exact .refl
  | child hitem hparent _ ih =>
      intro other hother
      obtain hother | hother := List.mem_append.mp hother
      · refine .head ?_ (ih other hother)
        rw [Forest.Above, parentLink_id hids hitem, hparent]
      · rw [List.mem_singleton.mp hother]
        exact .refl

/-- On the way down no category comes twice. -/
theorem Path.nodup (hids : (categories.map Category.id).Nodup)
    (hgrounded : Forest.Grounded (parentLink categories)) {item : Category} {path : List Category}
    (h : Path categories item path) : (path.map Category.id).Nodup := by
  induction h with
  | root _ _ => exact List.nodup_singleton _
  | child hitem hparent hpath ih =>
      rw [List.map_append]
      refine ih.append (List.nodup_singleton _) ?_
      rw [List.map_singleton, List.disjoint_singleton]
      intro hmem
      obtain ⟨other, hother, hsame⟩ := List.mem_map.mp hmem
      have hreaches := hpath.reaches hids other hother
      rw [hsame] at hreaches
      refine hgrounded.acyclic _ (Relation.TransGen.head' ?_ hreaches)
      rw [Forest.Above, parentLink_id hids hitem, hparent]

theorem byId_eq_some (hids : (categories.map Category.id).Nodup) {id : String}
    {item : Category} : byId categories id = some item ↔ item ∈ categories ∧ item.id = id := by
  have hreverse : (categories.reverse.map Category.id).Nodup := by
    rw [List.map_reverse]
    exact List.nodup_reverse.mpr hids
  rw [byId, Table.find?_key_eq_some_iff hreverse, List.mem_reverse]

/-- The next category of a label is the parent. -/
theorem next_eq (hids : (categories.map Category.id).Nodup) {item : Category} :
    (item.parentId.filter (· ≠ "")).bind (byId categories) =
      (parentOf categories item).bind (byId categories) := by
  unfold parentOf
  cases hparent : item.parentId with
  | none => rfl
  | some id =>
      simp only [Option.filter_some]
      by_cases hempty : id = ""
      · simp [hempty]
      by_cases hknown : id ∈ categories.map Category.id
      · simp [hempty, hknown]
      · have hnone : byId categories id = none := by
          rw [Option.eq_none_iff_forall_ne_some]
          intro found hfound
          obtain ⟨hmem, rfl⟩ := (byId_eq_some hids).mp hfound
          exact hknown (List.mem_map_of_mem hmem)
        simp [hempty, hknown, hnone]

theorem Path.labelled_eq (hids : (categories.map Category.id).Nodup)
    (hgrounded : Forest.Grounded (parentLink categories)) {item : Category} {path : List Category}
    (h : Path categories item path) {levels : Nat} {seen : List String}
    (hlevels : path.length ≤ levels) (hseen : ∀ other ∈ path, other.id ∉ seen) :
    labelled categories levels seen (some item) = path := by
  induction h generalizing levels seen with
  | @root item hitem hnone =>
      obtain ⟨levels, rfl⟩ := Nat.exists_eq_succ_of_ne_zero (Nat.ne_of_gt hlevels)
      rw [labelled, if_neg (hseen item (List.mem_singleton_self _)), next_eq hids, hnone,
        Option.bind_none]
      cases levels <;> rfl
  | @child item parent path hitem hparent hpath ih =>
      rw [List.length_append, List.length_singleton] at hlevels
      obtain ⟨levels, rfl⟩ := Nat.exists_eq_succ_of_ne_zero (Nat.ne_of_gt (by omega : 0 < levels))
      have hmember : byId categories parent.id = some parent :=
        (byId_eq_some hids).mpr ⟨hpath.mem, rfl⟩
      rw [labelled, if_neg (hseen item (by simp)), next_eq hids, hparent, Option.bind_some, hmember]
      refine congrArg (· ++ [item]) (ih (by omega) fun other hother => ?_)
      have hnodup := (Path.child hitem hparent hpath).nodup hids hgrounded
      rw [List.map_append, List.map_singleton] at hnodup
      intro hmem
      obtain hsame | hmem := List.mem_cons.mp hmem
      · exact (List.nodup_append.mp hnodup).2.2 _ (List.mem_map_of_mem hother) _
          (List.mem_singleton_self _) hsame
      · exact hseen other (List.mem_append_left _ hother) hmem

/-- The label names the way down. -/
theorem namesOf_path (hids : (categories.map Category.id).Nodup)
    (hgrounded : Forest.Grounded (parentLink categories)) {item : Category} {path : List Category}
    (h : Path categories item path) (locale : Locale) :
    namesOf categories locale item = path.map (Category.name locale) := by
  have hlength : path.length ≤ categories.length :=
    (List.subperm_of_subset (List.Nodup.of_map _ (h.nodup hids hgrounded)) h.subset).length_le
  rw [namesOf, h.labelled_eq hids hgrounded (Nat.le_succ_of_le hlength) fun _ _ => List.not_mem_nil]

/-- A category is listed as deep as the way down to it is long. -/
theorem path_of_entry (hids : (categories.map Category.id).Nodup)
    (hgrounded : Forest.Grounded (parentLink categories)) {entry : Entry Category}
    (hentry : entry ∈ flattenCategories categories) :
    ∃ path, Path categories entry.item path ∧ path.length = entry.depth + 1 := by
  have hvisited := visited_flattenCategories categories
  generalize hdepth : entry.depth = depth
  induction depth generalizing entry with
  | zero =>
      have hnone := root_of_depth_zero hids hgrounded hentry hdepth
      exact ⟨_, .root (hvisited.mem entry hentry) hnone, rfl⟩
  | succ depth ih =>
      obtain ⟨before, after, hsplit⟩ := List.append_of_mem hentry
      obtain ⟨outer, parent, inner, rfl, hlevel, hchild, _⟩ :=
        hvisited.forest.hasParent before entry after hsplit (by omega)
      have hmem : parent ∈ flattenCategories categories := by
        rw [hsplit]
        simp
      obtain ⟨path, hpath, hlength⟩ := ih hmem (by omega)
      have hparent := (mem_childrenOf.mp hchild).2
      refine ⟨_, .child (hvisited.mem entry hentry) hparent hpath, ?_⟩
      rw [List.length_append, hlength, List.length_singleton]

/-- **Two menus.** The options of one menu are those of the categories. Without cycles the label of
each names the categories on the way down to it, as many as the list of the other menu is deep
there, and one more. -/
theorem menus_agree (hids : (categories.map Category.id).Nodup)
    (hgrounded : Forest.Grounded (parentLink categories)) (locale : Locale) :
    (categoryOptions categories locale).map Prod.fst = categories.map Category.id ∧
      ∀ entry ∈ flattenCategories categories,
        (namesOf categories locale entry.item).length = entry.depth + 1 ∧
          ∃ path, Path categories entry.item path ∧ path.length = entry.depth + 1 ∧
            (entry.item.id, " / ".intercalate (path.map (Category.name locale))) ∈
              categoryOptions categories locale := by
  refine ⟨by simp [categoryOptions, Function.comp_def], fun entry hentry => ?_⟩
  obtain ⟨path, hpath, hlength⟩ := path_of_entry hids hgrounded hentry
  have hnames := namesOf_path hids hgrounded hpath locale
  refine ⟨?_, path, hpath, hlength, ?_⟩
  · rw [hnames, List.length_map, hlength]
  · rw [← hnames]
    exact List.mem_map_of_mem hpath.mem

/-- In a third language the labels are in English, and a category without an English name keeps the
French one. -/
theorem menus_agree_spanish :
    (categoryOptions labelExample .es).map Prod.fst = ["c", "a", "u"] ∧
      (flattenCategories labelExample).map
          (fun entry => (namesOf labelExample .es entry.item).length) =
        (flattenCategories labelExample).map (·.depth + 1) ∧
      ("c", "Audits / Copies") ∈ categoryOptions labelExample .es := by
  obtain ⟨hids, hlabels⟩ := menus_agree (by decide) labelExample_grounded .es
  refine ⟨hids, List.map_congr_left fun entry hentry => (hlabels entry hentry).1, by decide⟩

end Categories.Listing
