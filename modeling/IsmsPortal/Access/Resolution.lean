import IsmsPortal.Access.Authorization
import IsmsPortal.Foundation.Table

/-! # Resolution of categories

`resolveCategories` is inheritance along parent links: a category has the
verdict of the nearest category of its chain that has a rule, or the verdict of
the root when there is none. The decision for a space then depends on its rules
only through the nearest ruled category and the verdict there.
-/

namespace IsmsPortal

open Foundation

/-! ## Overrides -/

theorem foldl_override (rules : List CategoryRule) (id : Uuid) (entry : Option Bool) :
    let final := rules.foldl (fun entry rule =>
      if rule.categoryId = some id then some (entry.getD false || rule.allowed) else entry) entry
    final.isSome = (entry.isSome || rules.any fun rule => rule.categoryId = some id) ∧
      final.getD false = (entry.getD false ||
        rules.any fun rule => rule.categoryId = some id && rule.allowed) := by
  induction rules generalizing entry with
  | nil => simp
  | cons rule rest ih =>
      simp only [List.foldl_cons, List.any_cons]
      by_cases hid : rule.categoryId = some id
      · simp only [hid, if_true, decide_true, Bool.true_and, Bool.true_or, Bool.or_true]
        obtain ⟨hsome, hvalue⟩ := ih (some (entry.getD false || rule.allowed))
        refine ⟨by simpa using hsome, ?_⟩
        rw [hvalue]
        simp [Bool.or_assoc]
      · simpa [hid] using ih entry

theorem overrideOf_isSome (rules : List CategoryRule) (id : Uuid) :
    (overrideOf rules id).isSome = rules.any fun rule => rule.categoryId = some id := by
  unfold overrideOf
  simpa using (foldl_override rules id none).1

/-- Rules of one category are joined by disjunction. -/
theorem overrideOf_getD (rules : List CategoryRule) (id : Uuid) :
    (overrideOf rules id).getD false =
      rules.any fun rule => rule.categoryId = some id && rule.allowed := by
  unfold overrideOf
  simpa using (foldl_override rules id none).2

/-! ## The nearest ruled category -/

def parentOf (categories : List DocumentCategory) (id : Uuid) : Option (Option Uuid) :=
  (nodeOf categories id).map DocumentCategory.parentId

def isRuled (rules : List CategoryRule) (id : Uuid) : Bool := (overrideOf rules id).isSome

/-- The answer of the loop at the place where the search ends. -/
def verdict (rules : List CategoryRule) (inherited : Bool) : Nearest Uuid → Bool
  | .ruled id => (overrideOf rules id).getD false
  | .top => inherited
  | .nowhere => false

/-- The nearest category with a rule, from a category upwards. -/
def nearestRuled (categories : List DocumentCategory) (rules : List CategoryRule) (id : Uuid) :
    Nearest Uuid :=
  (Nearest.search (parentOf categories) (isRuled rules) (categories.length + 1) []
    (some id)).getD .nowhere

theorem resolveCategory_eq (categories : List DocumentCategory) (rules : List CategoryRule)
    (inherited : Bool) (fuel : Nat) (visited : List Uuid) (start : Option Uuid) :
    resolveCategory categories rules inherited fuel visited start =
      (Nearest.search (parentOf categories) (isRuled rules) fuel visited start).map
        (verdict rules inherited) := by
  induction fuel generalizing visited start with
  | zero => cases start <;> rfl
  | succ fuel ih =>
      cases start with
      | none => rfl
      | some current =>
        simp only [resolveCategory, Nearest.search, parentOf]
        split
        · rfl
        cases hnode : nodeOf categories current with
        | none => rfl
        | some node =>
          simp only [Option.map_some]
          cases hoverride : overrideOf rules current with
          | none =>
            have hplain : ¬isRuled rules current = true := by simp [isRuled, hoverride]
            rw [if_neg hplain, ← ih]
          | some allowed =>
            have hruled : isRuled rules current = true := by simp [isRuled, hoverride]
            rw [if_pos hruled]
            simp [verdict, hoverride]

theorem mem_ids_of_parentOf {categories : List DocumentCategory} {id : Uuid}
    (hnode : (parentOf categories id).isSome = true) :
    id ∈ categories.map DocumentCategory.id := by
  rw [parentOf, Option.isSome_map, Option.isSome_iff_exists] at hnode
  obtain ⟨category, hcategory⟩ := hnode
  have hid : category.id = id := by simpa using List.find?_some hcategory
  exact hid ▸ List.mem_map_of_mem (List.mem_reverse.mp (List.mem_of_find?_eq_some hcategory))

theorem nodeOf_eq_some {categories : List DocumentCategory}
    (hunique : (categories.map DocumentCategory.id).Nodup) {id : Uuid}
    {category : DocumentCategory} :
    nodeOf categories id = some category ↔ category ∈ categories ∧ category.id = id := by
  unfold nodeOf
  rw [Table.find?_key_eq_some_iff, List.mem_reverse]
  rw [List.map_reverse, List.nodup_reverse]
  exact hunique

theorem parentOf_eq_some {categories : List DocumentCategory}
    (hunique : (categories.map DocumentCategory.id).Nodup) {node : Uuid} {parent : Option Uuid} :
    parentOf categories node = some parent ↔
      ∃ category ∈ categories, category.id = node ∧ category.parentId = parent := by
  simp only [parentOf, Option.map_eq_some_iff, nodeOf_eq_some hunique, and_assoc]

theorem spaceCategories_unique {text : TextRules} {db : AccessStore}
    (hunique : (db.categories.map DocumentCategory.id).Nodup) (spaceId : Uuid) :
    ((spaceCategories text db spaceId).map DocumentCategory.id).Nodup := by
  have hperm := List.mergeSort_perm (db.categories.filter fun category =>
    category.spaceId = spaceId && category.deletedAt.isNone)
      fun left right => text.slugOrder left.slug right.slug
  rw [spaceCategories, (hperm.map DocumentCategory.id).nodup_iff]
  exact (List.Sublist.map _ List.filter_sublist).nodup hunique

theorem mem_spaceCategories {text : TextRules} {db : AccessStore} {spaceId : Uuid}
    {category : DocumentCategory} :
    category ∈ spaceCategories text db spaceId ↔
      category ∈ db.categories ∧ category.spaceId = spaceId ∧ category.deletedAt = none := by
  simp [spaceCategories]

/-- The bound of `resolveCategories` is enough: the search ends within it. -/
theorem search_eq_nearestRuled (categories : List DocumentCategory) (rules : List CategoryRule)
    (id : Uuid) :
    Nearest.search (parentOf categories) (isRuled rules) (categories.length + 1) [] (some id) =
      some (nearestRuled categories rules id) := by
  have hsome : (Nearest.search (parentOf categories) (isRuled rules) (categories.length + 1) []
      (some id)).isSome :=
    Nearest.search_isSome _ (fun _ => mem_ids_of_parentOf) List.nodup_nil (List.nil_subset _) (by simp)
  obtain ⟨found, hfound⟩ := Option.isSome_iff_exists.mp hsome
  rw [nearestRuled, hfound, Option.getD_some]

/-- A category is granted by the verdict at its nearest ruled category. -/
theorem mem_resolveCategories {categories : List DocumentCategory} {rules : List CategoryRule}
    {inherited : Bool} {id : Uuid} :
    id ∈ resolveCategories categories rules inherited ↔
      id ∈ categories.map DocumentCategory.id ∧
        verdict rules inherited (nearestRuled categories rules id) = true := by
  simp only [resolveCategories, resolveCategory_eq, search_eq_nearestRuled, Option.map_some,
    List.mem_map, List.mem_filter, decide_eq_true_eq, Option.some.injEq]
  constructor
  · rintro ⟨category, ⟨hmem, hverdict⟩, rfl⟩
    exact ⟨⟨category, hmem, rfl⟩, hverdict⟩
  · rintro ⟨⟨category, hmem, rfl⟩, hverdict⟩
    exact ⟨category, ⟨hmem, hverdict⟩, rfl⟩

section Climbs

variable {categories : List DocumentCategory} {rules : List CategoryRule} {inherited : Bool}

theorem climbs_node {id : Uuid} {found : Nearest Uuid}
    (hclimbs : Nearest.Climbs (parentOf categories) (isRuled rules) (some id) found) :
    id ∈ categories.map DocumentCategory.id := by
  cases hclimbs with
  | ruled hnode _ => exact mem_ids_of_parentOf hnode
  | up hparent _ _ => exact mem_ids_of_parentOf (by rw [hparent]; rfl)

/-- A category is granted when its links lead to a place with a positive verdict. -/
theorem mem_resolveCategories_iff_climbs {id : Uuid} :
    id ∈ resolveCategories categories rules inherited ↔
      ∃ found, Nearest.Climbs (parentOf categories) (isRuled rules) (some id) found ∧
        verdict rules inherited found = true := by
  rw [mem_resolveCategories]
  have hsearch := search_eq_nearestRuled categories rules id
  constructor
  · rintro ⟨-, hverdict⟩
    refine ⟨nearestRuled categories rules id, ?_, hverdict⟩
    refine Nearest.climbs_of_search hsearch fun hnowhere => ?_
    rw [hnowhere] at hverdict
    cases hverdict
  · rintro ⟨found, hclimbs, hverdict⟩
    refine ⟨climbs_node hclimbs, ?_⟩
    have hfound : found ≠ .nowhere := by
      rintro rfl
      cases hverdict
    rw [(Nearest.climbs_iff_of_search hsearch hfound).mp hclimbs]
    exact hverdict

end Climbs

/-- The verdict grows with the overrides and the verdict of the root. -/
theorem verdict_mono {rules more : List CategoryRule} {root moreRoot : Bool}
    (hoverride : ∀ id, (overrideOf rules id).getD false = true →
      (overrideOf more id).getD false = true)
    (hroot : root = true → moreRoot = true) {found : Nearest Uuid}
    (hverdict : verdict rules root found = true) : verdict more moreRoot found = true := by
  cases found with
  | ruled id => exact hoverride id hverdict
  | top => exact hroot hverdict
  | nowhere => exact hverdict

/-! ## Rules of spaces -/

section Rules

variable {text : TextRules} {groups wider : List String} {permission : Permission}
variable {rules fewer : List (WithGroup AccessRule)} {categories : List DocumentCategory}

theorem isRuled_categoryRules (id : Uuid) :
    isRuled (categoryRules text groups permission rules) id =
      rules.any fun rule => rule.row.categoryId = some id := by
  rw [isRuled, overrideOf_isSome, categoryRules, List.any_map]
  rfl

theorem override_categoryRules (id : Uuid) :
    (overrideOf (categoryRules text groups permission rules) id).getD false =
      rules.any fun rule =>
        rule.row.categoryId = some id && ruleAllows text groups permission rule := by
  rw [overrideOf_getD, categoryRules, List.any_map]
  rfl

theorem hasGroup_mono (hgroups : ∀ name ∈ groups, name ∈ wider) {name : String}
    (hhas : hasGroup text groups name = true) : hasGroup text wider name = true := by
  simp only [hasGroup, List.any_eq_true] at hhas ⊢
  obtain ⟨group, hgroup, hequal⟩ := hhas
  exact ⟨group, hgroups group hgroup, hequal⟩

theorem ruleAllows_mono (hgroups : ∀ name ∈ groups, name ∈ wider) {rule : WithGroup AccessRule}
    (hallows : ruleAllows text groups permission rule = true) :
    ruleAllows text wider permission rule = true := by
  simp only [ruleAllows, Bool.and_eq_true] at hallows ⊢
  exact ⟨hasGroup_mono hgroups hallows.1, hallows.2⟩

/-- More groups: the same categories are ruled, and the verdicts grow. -/
theorem resolve_of_wider (hgroups : ∀ name ∈ groups, name ∈ wider) {root widerRoot : Bool}
    (hroot : root = true → widerRoot = true) :
    resolveCategories categories (categoryRules text groups permission rules) root ⊆
      resolveCategories categories (categoryRules text wider permission rules) widerRoot := by
  intro id hid
  rw [mem_resolveCategories] at hid ⊢
  have hruled : isRuled (categoryRules text groups permission rules) =
      isRuled (categoryRules text wider permission rules) := by
    funext node
    rw [isRuled_categoryRules, isRuled_categoryRules]
  have hnearest : nearestRuled categories (categoryRules text groups permission rules) id =
      nearestRuled categories (categoryRules text wider permission rules) id := by
    rw [nearestRuled, nearestRuled, hruled]
  refine ⟨hid.1, ?_⟩
  rw [← hnearest]
  refine verdict_mono (fun node => ?_) hroot hid.2
  simp only [override_categoryRules, List.any_eq_true, Bool.and_eq_true]
  rintro ⟨rule, hrule, hcategory, hallows⟩
  exact ⟨rule, hrule, hcategory, ruleAllows_mono hgroups hallows⟩

/-- Categories are resolved by the rules as a set. -/
theorem resolve_congr {others : List (WithGroup AccessRule)}
    (hany : ∀ test : WithGroup AccessRule → Bool, rules.any test = others.any test)
    {root : Bool} {category : Uuid} :
    category ∈ resolveCategories categories (categoryRules text groups permission rules) root ↔
      category ∈ resolveCategories categories (categoryRules text groups permission others) root := by
  have hruled : isRuled (categoryRules text groups permission rules) =
      isRuled (categoryRules text groups permission others) := by
    funext node
    rw [isRuled_categoryRules, isRuled_categoryRules, hany]
  have hverdict : verdict (categoryRules text groups permission rules) root =
      verdict (categoryRules text groups permission others) root := by
    funext found
    cases found with
    | ruled id =>
        simp only [verdict]
        rw [override_categoryRules, override_categoryRules, hany]
    | top => rfl
    | nowhere => rfl
  rw [mem_resolveCategories, mem_resolveCategories, nearestRuled, nearestRuled, hruled, hverdict]

end Rules

/-! ## Grants by climbs -/

section Grants

variable {text : TextRules} {db : AccessStore} {now : Int} {groups : List String}
variable {permission : Permission} {space : DocumentSpace}

theorem privileged_eq : privileged groups permission = moderatorCan groups permission := by
  unfold privileged moderatorCan
  cases isAdminIdentity groups <;> simp

theorem allowedCategories_subset {row : SpaceRow} :
    allowedCategories text groups permission row ⊆ row.categories.map DocumentCategory.id := by
  unfold allowedCategories
  split
  · exact List.Subset.refl _
  · intro id hid
    exact (mem_resolveCategories.mp hid).1

/-- The permission is granted on the root or a category of the space. -/
def Granted (text : TextRules) (db : AccessStore) (now : Int) (groups : List String)
    (permission : Permission) (space : DocumentSpace) (category : Option Uuid) : Prop :=
  categoryAllowed (some (decideSpace text groups permission
    (spaceRow text db now groups space)).scope) category = true

/-- The rules of a space as the decision for a permission takes them. -/
def spaceRules (text : TextRules) (db : AccessStore) (now : Int) (groups : List String)
    (permission : Permission) (spaceId : Uuid) : List CategoryRule :=
  categoryRules text groups permission (includedRules db now spaceId)

theorem granted_root : Granted text db now groups permission space none ↔
    rootAllowed text groups permission (spaceRow text db now groups space) = true := by
  simp [Granted, categoryAllowed, SpaceWithRule.scope, decideSpace]

theorem granted_category {category : Uuid} :
    Granted text db now groups permission space (some category) ↔
      category ∈ allowedCategories text groups permission (spaceRow text db now groups space) := by
  simp [Granted, categoryAllowed, SpaceWithRule.scope, decideSpace]

/-- Without privilege and ownership, grants follow the links. -/
theorem granted_iff_climbs (hplain : moderatorCan groups permission = false)
    (howner : isOwner text groups permission (spaceRow text db now groups space) = false)
    {start : Option Uuid} :
    Granted text db now groups permission space start ↔
      ∃ found, Nearest.Climbs (parentOf (spaceCategories text db space.id))
          (isRuled (spaceRules text db now groups permission space.id)) start found ∧
        verdict (spaceRules text db now groups permission space.id)
          (rootAllowed text groups permission (spaceRow text db now groups space)) found =
            true := by
  cases start with
  | none =>
      rw [granted_root]
      constructor
      · exact fun hroot => ⟨.top, .top, hroot⟩
      · rintro ⟨found, hclimbs, hverdict⟩
        cases hclimbs
        exact hverdict
  | some category =>
      rw [granted_category, allowedCategories, privileged_eq, hplain, howner, Bool.or_false,
        if_neg Bool.false_ne_true, mem_resolveCategories_iff_climbs]
      rfl

/-- An owner or a privileged identity is granted the live categories of the space. -/
theorem granted_of_unrestricted
    (hall : (privileged groups permission || isOwner text groups permission
      (spaceRow text db now groups space)) = true) {category : Uuid} :
    Granted text db now groups permission space (some category) ↔
      category ∈ (spaceCategories text db space.id).map DocumentCategory.id := by
  rw [granted_category, allowedCategories, if_pos hall]
  rfl

theorem Granted.mem_ids {category : Uuid}
    (hgranted : Granted text db now groups permission space (some category)) :
    category ∈ (spaceCategories text db space.id).map DocumentCategory.id :=
  allowedCategories_subset (granted_category.mp hgranted)

end Grants

/-! ## Permitted spaces -/

section Permitted

variable {text : TextRules} {db : AccessStore} {now : Int} {groups : List String}
variable {permissions : List Permission} {only : Option Uuid} {permission : Permission}

theorem mem_findSpaces {row : SpaceRow} :
    row ∈ findSpaces text db now groups only ↔ ∃ space ∈ db.spaces,
      isSelected text db now groups only space = true ∧ row = spaceRow text db now groups space := by
  simp only [findSpaces, List.mem_map, List.mem_mergeSort, List.mem_filter]
  constructor
  · rintro ⟨space, ⟨hspace, hselected⟩, rfl⟩
    exact ⟨space, hspace, hselected, rfl⟩
  · rintro ⟨space, hspace, hselected, rfl⟩
    exact ⟨space, ⟨hspace, hselected⟩, rfl⟩

/-- A returned space is a selected one with its decision. -/
theorem mem_permittedSpacesFor {permitted : SpaceWithRule} :
    permitted ∈ (permittedSpacesFor text db now groups permissions only permission).getD [] ↔
      permission ∈ permissions ∧ groups ≠ [] ∧ ∃ space ∈ db.spaces,
        isSelected text db now groups only space = true ∧
        permitted = decideSpace text groups permission (spaceRow text db now groups space) ∧
        (permitted.aclRoot = true ∨ permitted.aclCategories ≠ []) := by
  unfold permittedSpacesFor
  split
  next hpermission =>
    split
    next hempty =>
      rw [List.isEmpty_iff] at hempty
      simp [hempty]
    next hsome =>
      rw [List.isEmpty_iff] at hsome
      simp only [Option.getD_some, List.mem_filter, List.mem_map, mem_findSpaces,
        Bool.or_eq_true, Bool.not_eq_true', List.isEmpty_eq_false_iff, hpermission, hsome,
        ne_eq, not_false_eq_true, true_and]
      constructor
      · rintro ⟨⟨row, ⟨space, hspace, hselected, rfl⟩, rfl⟩, hgranted⟩
        exact ⟨space, hspace, hselected, rfl, hgranted⟩
      · rintro ⟨space, hspace, hselected, rfl, hgranted⟩
        exact ⟨⟨_, ⟨space, hspace, hselected, rfl⟩, rfl⟩, hgranted⟩
  next hpermission => simp [hpermission]

/-- The ids of the returned spaces are distinct. -/
theorem permittedSpacesFor_nodup :
    (((permittedSpacesFor text db now groups permissions only permission).getD []).map
      SpaceWithRule.id).Nodup := by
  unfold permittedSpacesFor
  split
  · split
    · simp
    · rw [Option.getD_some]
      refine (List.Sublist.map _ List.filter_sublist).nodup ?_
      rw [findSpaces, List.map_map, List.map_map]
      have hids : (SpaceWithRule.id ∘ decideSpace text groups permission) ∘
          spaceRow text db now groups = DocumentSpace.id := rfl
      rw [hids]
      have hperm := List.mergeSort_perm (db.spaces.filter (isSelected text db now groups only))
        fun left right => text.slugOrder left.slug right.slug
      rw [(hperm.map DocumentSpace.id).nodup_iff]
      exact (List.Sublist.map _ List.filter_sublist).nodup db.spaceIds
  · simp

/-- The check of one space in the result of `permittedSpacesFor`. -/
theorem scopeAllowed_iff {spaceId : Uuid} {category : Option Uuid} :
    categoryAllowed ((((permittedSpacesFor text db now groups permissions only
        permission).getD []).find? (·.id = spaceId)).map SpaceWithRule.scope) category = true ↔
      permission ∈ permissions ∧ groups ≠ [] ∧ ∃ space ∈ db.spaces, space.id = spaceId ∧
        isSelected text db now groups only space = true ∧
        categoryAllowed (some (decideSpace text groups permission
          (spaceRow text db now groups space)).scope) category = true := by
  constructor
  · intro hallowed
    cases hfound : ((permittedSpacesFor text db now groups permissions only
        permission).getD []).find? (·.id = spaceId) with
    | none =>
        rw [hfound] at hallowed
        cases hallowed
    | some permitted =>
        rw [hfound] at hallowed
        rw [Table.find?_key_eq_some_iff permittedSpacesFor_nodup] at hfound
        obtain ⟨hpermission, hnonempty, space, hspace, hselected, rfl, -⟩ :=
          mem_permittedSpacesFor.mp hfound.1
        exact ⟨hpermission, hnonempty, space, hspace, hfound.2, hselected, hallowed⟩
  · rintro ⟨hpermission, hnonempty, space, hspace, hid, hselected, hallowed⟩
    have hgranted : (decideSpace text groups permission
          (spaceRow text db now groups space)).aclRoot = true ∨
        (decideSpace text groups permission
          (spaceRow text db now groups space)).aclCategories ≠ [] := by
      cases category with
      | none => exact .inl (by simpa [categoryAllowed, SpaceWithRule.scope] using hallowed)
      | some id =>
          right
          simp only [categoryAllowed, SpaceWithRule.scope, List.contains_iff_mem] at hallowed
          exact List.ne_nil_of_mem hallowed
    have hfound := (Table.find?_key_eq_some_iff permittedSpacesFor_nodup).mpr
      ⟨mem_permittedSpacesFor.mpr ⟨hpermission, hnonempty, space, hspace, hselected, rfl, hgranted⟩,
        hid⟩
    rw [hfound]
    exact hallowed

end Permitted

end IsmsPortal
