import IsmsPortal.Access.Overrides
import IsmsPortal.Foundation.Lineage
import Mathlib.Order.Bounds.Basic

/-! # Menus

A menu shows the spaces an identity may see there, with the categories it may see and those
above them. The walk up from a category ends where the links leave the list or come back. The
documents of a category are counted if the identity may read it.
-/

namespace IsmsPortal

open Foundation

/-- A category with its count of documents. -/
structure MenuCategory extends DocumentCategory where
  documents : Nat
deriving DecidableEq

/-- A space of the menu, with the categories that are shown. -/
structure MenuSpace where
  space : SpaceWithRule
  categories : List MenuCategory

/-- The count of the published documents of a category. -/
def publishedCount (library : Library) (id : Uuid) : Nat :=
  library.documents.countP fun document =>
    document.categoryId = some id && document.deletedAt.isNone && document.status = .published

def menuCategory (library : Library) (category : DocumentCategory) : MenuCategory :=
  ⟨category, publishedCount library category.id⟩

/-- `nodes.get(id)?.parentId`. -/
def menuParent (categories : List DocumentCategory) (id : Uuid) : Option Uuid :=
  (nodeOf categories id).bind DocumentCategory.parentId

/-- The set `visible` after the loop over its first members. -/
def visibleCategories (space : SpaceWithRule) : Option (List Uuid) :=
  Lineage.close (menuParent space.row.categories) (space.row.categories.length + 1)
    space.aclCategories.eraseDups

/-- A category with its count, if the decision for reading allows it. -/
def readCategory (library : Library) (readable : Option SpaceWithRule)
    (category : DocumentCategory) : MenuCategory :=
  if categoryAllowed (readable.map SpaceWithRule.scope) (some category.id) then
    menuCategory library category
  else { menuCategory library category with documents := 0 }

@[simp]
theorem readCategory_category (library : Library) (readable : Option SpaceWithRule)
    (category : DocumentCategory) :
    (readCategory library readable category).toDocumentCategory = category := by
  unfold readCategory
  split <;> rfl

theorem readCategory_documents (library : Library) (readable : Option SpaceWithRule)
    (category : DocumentCategory) : (readCategory library readable category).documents =
      if categoryAllowed (readable.map SpaceWithRule.scope) (some category.id) then
        publishedCount library category.id
      else 0 := by
  unfold readCategory
  split <;> rfl

/-- A space of the menu, with the decision for reading it. -/
def menuSpace (library : Library) (readable : Option SpaceWithRule) (space : SpaceWithRule) :
    Option MenuSpace :=
  (visibleCategories space).map fun visible =>
    ⟨space, (space.row.categories.filter (·.id ∈ visible)).map (readCategory library readable)⟩

/-- `permittedSpaces`. -/
def permittedSpaces (text : TextRules) (library : Library) (now : Int) (groups : List String)
    (permission : Permission) : Option (List MenuSpace) :=
  let permissions := if permission = .showMenu then [permission, .read] else [permission]
  let permitted := permittedSpacesFor text library.toAccessStore now groups permissions none
  let spaces := (permitted permission).getD []
  if permission ≠ .showMenu then
    some (spaces.map fun space => ⟨space, space.row.categories.map (menuCategory library)⟩)
  else spaces.mapM fun space =>
    menuSpace library ((permitted .read).bind fun readable => readable.find? (·.id = space.id)) space

/-! ## Categories shown -/

section Shown

variable {categories : List DocumentCategory} {ids : Set Uuid}

/-- The set has with a category of the list its parent, if that is in the list. -/
def ClosedUpwards (categories : List DocumentCategory) (ids : Set Uuid) : Prop :=
  ∀ lower ∈ categories, lower.id ∈ ids →
    ∀ upper ∈ categories, lower.parentId = some upper.id → upper.id ∈ ids

theorem menuParent_of_mem (hids : (categories.map DocumentCategory.id).Nodup)
    {category : DocumentCategory} (hcategory : category ∈ categories) :
    menuParent categories category.id = category.parentId := by
  rw [menuParent, (nodeOf_eq_some hids).mpr ⟨hcategory, rfl⟩, Option.bind_some]

theorem mem_of_menuParent (hids : (categories.map DocumentCategory.id).Nodup) {lower upper : Uuid}
    (hlink : menuParent categories lower = some upper) :
    ∃ category ∈ categories, category.id = lower ∧ category.parentId = some upper := by
  obtain ⟨category, hnode, hparent⟩ := Option.bind_eq_some_iff.mp hlink
  obtain ⟨hcategory, hid⟩ := (nodeOf_eq_some hids).mp hnode
  exact ⟨category, hcategory, hid, hparent⟩

/-- A set that is closed within the list has every category that its members lead to. -/
theorem ClosedUpwards.leads (hids : (categories.map DocumentCategory.id).Nodup)
    (hclosed : ClosedUpwards categories ids) {seed id : Uuid}
    (hleads : Lineage.Leads (menuParent categories) seed id) (hseed : seed ∈ ids)
    (hlisted : id ∈ categories.map DocumentCategory.id) : id ∈ ids := by
  induction hleads with
  | refl => exact hseed
  | tail _ hlink ih =>
      obtain ⟨lower, hlower, rfl, hparent⟩ := mem_of_menuParent hids hlink
      obtain ⟨upper, hupper, rfl⟩ := List.mem_map.mp hlisted
      exact hclosed lower hlower (ih (List.mem_map_of_mem hlower)) upper hupper hparent

theorem visibleCategories_isSome (space : SpaceWithRule) :
    (visibleCategories space).isSome := by
  refine Lineage.close_isSome (space.row.categories.map DocumentCategory.id) ?_ (by simp) _
  intro id hparent
  refine mem_ids_of_parentOf ?_
  unfold menuParent at hparent
  cases hnode : nodeOf space.row.categories id with
  | none => simp [hnode] at hparent
  | some category => simp [parentOf, hnode]

theorem mem_visibleCategories {space : SpaceWithRule} {visible : List Uuid}
    (hvisible : visibleCategories space = some visible) {id : Uuid} :
    id ∈ visible ↔
      ∃ seed ∈ space.aclCategories, Lineage.Leads (menuParent space.row.categories) seed id := by
  rw [Lineage.mem_close hvisible]
  simp only [List.mem_eraseDups]

/-- The categories shown are the least set around the categories granted. -/
theorem isLeast_visible {space : SpaceWithRule} {visible : List Uuid}
    (hids : (space.row.categories.map DocumentCategory.id).Nodup)
    (hgranted : space.aclCategories ⊆ space.row.categories.map DocumentCategory.id)
    (hvisible : visibleCategories space = some visible) :
    IsLeast {ids : Set Uuid | (∀ id ∈ space.aclCategories, id ∈ ids) ∧
        ClosedUpwards space.row.categories ids}
      {id | id ∈ (space.row.categories.filter (·.id ∈ visible)).map DocumentCategory.id} := by
  have hshown : ∀ id, id ∈ (space.row.categories.filter (·.id ∈ visible)).map DocumentCategory.id ↔
      id ∈ space.row.categories.map DocumentCategory.id ∧ id ∈ visible := by
    intro id
    simp only [List.mem_map, List.mem_filter, decide_eq_true_eq]
    constructor
    · rintro ⟨category, ⟨hmem, hvisible⟩, rfl⟩
      exact ⟨⟨category, hmem, rfl⟩, hvisible⟩
    · rintro ⟨⟨category, hmem, rfl⟩, hvisible⟩
      exact ⟨category, ⟨hmem, hvisible⟩, rfl⟩
  constructor
  · refine ⟨?_, ?_⟩
    · intro id hid
      exact (hshown id).mpr ⟨hgranted hid, (mem_visibleCategories hvisible).mpr ⟨id, hid, .refl⟩⟩
    · intro lower hlower hmem upper hupper hparent
      obtain ⟨seed, hseed, hleads⟩ := (mem_visibleCategories hvisible).mp ((hshown _).mp hmem).2
      refine (hshown _).mpr ⟨List.mem_map_of_mem hupper, ?_⟩
      refine (mem_visibleCategories hvisible).mpr ⟨seed, hseed, hleads.tail ?_⟩
      rw [menuParent_of_mem hids hlower, hparent]
  · rintro ids ⟨hseeds, hclosed⟩ id hid
    obtain ⟨hlisted, hmem⟩ := (hshown id).mp hid
    obtain ⟨seed, hseed, hleads⟩ := (mem_visibleCategories hvisible).mp hmem
    exact hclosed.leads hids hleads (hseeds seed hseed) hlisted

end Shown

/-! ## Counts -/

section Counts

variable {text : TextRules} {library : Library} {now : Int} {groups : List String}
variable {space : DocumentSpace}

/-- The check of the menu for a category it may show is that of `can`. -/
theorem readable_iff_can (hnonempty : groups ≠ []) (hspace : space ∈ library.spaces)
    (hselected : isSelected text library.toAccessStore now groups none space = true) {id : Uuid}
    (hid : id ∈ (spaceCategories text library.toAccessStore space.id).map DocumentCategory.id) :
    categoryAllowed ((((permittedSpacesFor text library.toAccessStore now groups
        [.showMenu, .read] none .read).getD []).find? (·.id = space.id)).map SpaceWithRule.scope)
        (some id) = true ↔
      can text library.toAccessStore now groups space.id .read (some (some id)) = true := by
  rw [scopeAllowed_iff]
  cases hplain : moderatorCan groups .read with
  | true =>
      simp only [can, hplain, Bool.or_true, if_true, iff_true]
      refine ⟨by simp, hnonempty, space, hspace, rfl, hselected, ?_⟩
      have hall : allowedCategories text groups .read
          (spaceRow text library.toAccessStore now groups space) =
          (spaceCategories text library.toAccessStore space.id).map DocumentCategory.id := by
        rw [allowedCategories, privileged_eq, hplain, Bool.true_or, if_pos rfl]
        rfl
      simp only [categoryAllowed, SpaceWithRule.scope, decideSpace, List.contains_iff_mem]
      rw [hall]
      exact hid
  | false =>
      rw [can_category_iff hplain]
      have hselection : ∀ other : DocumentSpace, other.id = space.id →
          isSelected text library.toAccessStore now groups (some space.id) other =
            isSelected text library.toAccessStore now groups none other := by
        intro other hother
        simp [isSelected, hother]
      constructor
      · rintro ⟨-, -, other, hother, hsame, hchosen, hallowed⟩
        exact ⟨hnonempty, other, hother, hsame, (hselection other hsame).trans hchosen, hallowed⟩
      · rintro ⟨-, other, hother, hsame, hchosen, hallowed⟩
        exact ⟨by simp, hnonempty, other, hother, hsame, (hselection other hsame).symm.trans hchosen,
          hallowed⟩

/-- A space of the menu: its categories are those above the granted ones, with the counts of
what the identity may read. -/
theorem menuSpace_shows {permitted : SpaceWithRule}
    (hpermitted : permitted ∈ (permittedSpacesFor text library.toAccessStore now groups
      [.showMenu, .read] none .showMenu).getD []) :
    ∃ menu, menuSpace library ((permittedSpacesFor text library.toAccessStore now groups
        [.showMenu, .read] none .read).bind fun readable => readable.find? (·.id = permitted.id))
        permitted = some menu ∧ menu.space = permitted ∧
      (menu.categories.map MenuCategory.toDocumentCategory).Sublist permitted.row.categories ∧
      IsLeast {ids : Set Uuid | (∀ id ∈ permitted.aclCategories, id ∈ ids) ∧
          ClosedUpwards permitted.row.categories ids}
        {id | id ∈ menu.categories.map fun category => category.id} ∧
      ∀ category ∈ menu.categories, category.documents =
        if can text library.toAccessStore now groups permitted.id .read (some (some category.id)) then
          publishedCount library category.id
        else 0 := by
  obtain ⟨-, hnonempty, space, hspace, hselected, rfl, -⟩ := mem_permittedSpacesFor.mp hpermitted
  generalize hdecided : decideSpace text groups .showMenu
    (spaceRow text library.toAccessStore now groups space) = permitted
  have hid : permitted.id = space.id := by rw [← hdecided]; rfl
  have hrow : permitted.row.categories = spaceCategories text library.toAccessStore space.id := by
    rw [← hdecided]; rfl
  have hgranted : permitted.aclCategories ⊆ permitted.row.categories.map DocumentCategory.id := by
    rw [← hdecided]; exact allowedCategories_subset
  obtain ⟨visible, hvisible⟩ := Option.isSome_iff_exists.mp (visibleCategories_isSome permitted)
  have hids : (permitted.row.categories.map DocumentCategory.id).Nodup := by
    rw [hrow]
    exact spaceCategories_unique library.categoryIds space.id
  have hleast := isLeast_visible hids hgranted hvisible
  have hreadable : ((permittedSpacesFor text library.toAccessStore now groups
      [.showMenu, .read] none .read).bind fun readable => readable.find? (·.id = permitted.id)) =
      ((permittedSpacesFor text library.toAccessStore now groups [.showMenu, .read] none
        .read).getD []).find? (·.id = space.id) := by
    rw [hid]
    cases permittedSpacesFor text library.toAccessStore now groups [.showMenu, .read] none .read <;>
      rfl
  rw [menuSpace, hvisible, hreadable]
  refine ⟨_, rfl, rfl, ?_, ?_, ?_⟩
  · simp only [List.map_map, Function.comp_def, readCategory_category, List.map_id']
    exact List.filter_sublist
  · convert hleast using 4
    rw [List.map_map]
    refine List.map_congr_left fun category _ => ?_
    simp only [Function.comp_apply, readCategory_category]
  · intro category hcategory
    obtain ⟨shown, hshown, rfl⟩ := List.mem_map.mp hcategory
    have hlisted : shown.id ∈ (spaceCategories text library.toAccessStore space.id).map
        DocumentCategory.id := hrow ▸ List.mem_map_of_mem (List.mem_of_mem_filter hshown)
    have hread := readable_iff_can hnonempty hspace hselected hlisted
    rw [readCategory_documents, readCategory_category, hid]
    exact if_congr hread rfl rfl

end Counts

/-- **Menus.** The menu is built, with the spaces of the decision. Each shows the categories
of the least set around the granted ones that has with a category its parent in the list, and
counts documents only where the identity may read. -/
theorem menu_shows_closure (text : TextRules) (library : Library) (now : Int)
    (groups : List String) : ∃ menu,
    permittedSpaces text library now groups .showMenu = some menu ∧
    menu.map MenuSpace.space = (permittedSpacesFor text library.toAccessStore now groups
      [.showMenu, .read] none .showMenu).getD [] ∧
    ∀ shown ∈ menu,
      (shown.categories.map MenuCategory.toDocumentCategory).Sublist shown.space.row.categories ∧
      IsLeast {ids : Set Uuid | (∀ id ∈ shown.space.aclCategories, id ∈ ids) ∧
          ClosedUpwards shown.space.row.categories ids}
        {id | id ∈ shown.categories.map fun category => category.id} ∧
      ∀ category ∈ shown.categories, category.documents =
        if can text library.toAccessStore now groups shown.space.id .read
            (some (some category.id)) then publishedCount library category.id
        else 0 := by
  have hspaces := fun permitted (hpermitted : permitted ∈ (permittedSpacesFor text
    library.toAccessStore now groups [.showMenu, .read] none .showMenu).getD []) =>
      menuSpace_shows hpermitted
  simp only [permittedSpaces, ne_eq, not_true_eq_false, if_false, if_true]
  generalize (permittedSpacesFor text library.toAccessStore now groups [.showMenu, .read] none
    .showMenu).getD [] = spaces at hspaces ⊢
  induction spaces with
  | nil => exact ⟨[], rfl, rfl, by simp⟩
  | cons permitted rest ih =>
      obtain ⟨menu, hmenu, hsame, hshown⟩ := ih fun other hother =>
        hspaces other (List.mem_cons_of_mem _ hother)
      obtain ⟨first, hfirst, rfl, hcategories⟩ := hspaces permitted List.mem_cons_self
      refine ⟨first :: menu, ?_, ?_, ?_⟩
      · rw [List.mapM_cons, hfirst, hmenu]
        rfl
      · rw [List.map_cons, hsame]
      · intro shown hmem
        rcases List.mem_cons.mp hmem with rfl | hold
        · exact hcategories
        · exact hshown shown hold

end IsmsPortal
