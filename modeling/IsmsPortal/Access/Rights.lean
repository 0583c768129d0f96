import IsmsPortal.Access.Agreement

/-! # Rights by rules

Decisions for lists of group names come down to rights of single groups: an
identity has a permission at a place because it is privileged, because it owns
the space, or because one of its groups has the right there by the rules in
force. A group has it at the root by a rule for the root, and at a category by a
rule for the category or, when no group has a rule there, by its right at the
parent.
-/

namespace IsmsPortal

open Foundation

/-- The decision of `permittedSpacesFor` for the root or a category of a space. -/
def permits (text : TextRules) (db : AccessStore) (now : Int) (groups : List String)
    (permission : Permission) (spaceId : Uuid) (category : Option Uuid) : Bool :=
  categoryAllowed ((((permittedSpacesFor text db now groups [permission] none
    permission).getD []).find? (·.id = spaceId)).map SpaceWithRule.scope) category

/-! ## Rights of a group -/

section Rights

variable (rules : List AccessRule) (categories : List DocumentCategory) (now : Int)
variable (spaceId : Uuid) (permission : Permission) (groupId : Uuid)

/-- A category of the space that is not in the trash. -/
def IsLive (category : DocumentCategory) : Prop :=
  category ∈ categories ∧ category.spaceId = spaceId ∧ category.deletedAt = none

/-- The root of the space or one of its live categories. -/
def IsPlace (place : Option Uuid) : Prop :=
  ∀ id, place = some id → ∃ category, IsLive categories spaceId category ∧ category.id = id

/-- A rule in force, of whatever group, is for the category. -/
def HasRule (category : Uuid) : Prop :=
  ∃ rule ∈ rules, rule.spaceId = spaceId ∧ rule.inForce now = true ∧
    rule.categoryId = some category

/-- A rule in force for the place gives the permission to the group. -/
def RuleGives (place : Option Uuid) : Prop :=
  ∃ rule ∈ rules, rule.spaceId = spaceId ∧ rule.inForce now = true ∧ rule.categoryId = place ∧
    rule.groupId = groupId ∧ rule.allows permission = true

/-- The rules give the permission to the group at a place. -/
inductive HasRight : Option Uuid → Prop
  | root (hgives : RuleGives rules now spaceId permission groupId none) : HasRight none
  | ruled {category : DocumentCategory} (hlive : IsLive categories spaceId category)
      (hgives : RuleGives rules now spaceId permission groupId (some category.id)) :
      HasRight (some category.id)
  | inherited {category : DocumentCategory} (hlive : IsLive categories spaceId category)
      (hplain : ¬HasRule rules now spaceId category.id) (hparent : HasRight category.parentId) :
      HasRight (some category.id)

variable {rules categories now spaceId permission groupId}

theorem HasRight.isPlace {place : Option Uuid}
    (hright : HasRight rules categories now spaceId permission groupId place) :
    IsPlace categories spaceId place := by
  intro id hid
  cases hright with
  | root => cases hid
  | ruled hlive _ => exact ⟨_, hlive, Option.some.inj hid⟩
  | inherited hlive _ _ => exact ⟨_, hlive, Option.some.inj hid⟩

/-- A right rests on a rule in force of the group. -/
theorem HasRight.exists_rule {place : Option Uuid}
    (hright : HasRight rules categories now spaceId permission groupId place) :
    ∃ rule ∈ rules, rule.spaceId = spaceId ∧ rule.inForce now = true ∧ rule.groupId = groupId := by
  induction hright with
  | root hgives =>
      obtain ⟨rule, hrule, hspace, hforce, -, hgroup, -⟩ := hgives
      exact ⟨rule, hrule, hspace, hforce, hgroup⟩
  | ruled _ hgives =>
      obtain ⟨rule, hrule, hspace, hforce, -, hgroup, -⟩ := hgives
      exact ⟨rule, hrule, hspace, hforce, hgroup⟩
  | inherited _ _ _ ih => exact ih

end Rights

/-! ## Decisions by rights -/

section Decisions

variable {text : TextRules} (hagrees : text.Agrees) {db : AccessStore} {now : Int}
variable {groups : List String} {permission : Permission} {space : DocumentSpace}

include hagrees in
/-- Some rule for the place lets the identity in: it gives the permission to one of
its groups. -/
theorem any_ruleAllows_iff {spaceId : Uuid} {place : Option Uuid} :
    ((includedRules db now spaceId).any fun rule =>
        rule.row.categoryId = place && ruleAllows text groups permission rule) = true ↔
      ∃ groupId, groupFilter text db groups groupId = true ∧
        RuleGives db.accessRules now spaceId permission groupId place := by
  simp only [includedRules, ruleAllows, List.any_eq_true, List.mem_filterMap, List.mem_filter,
    Option.map_eq_some_iff, Bool.and_eq_true, decide_eq_true_eq, groupFilter_iff hagrees]
  constructor
  · rintro ⟨_, ⟨rule, ⟨hrule, hspace, hforce⟩, group, hgroup, rfl⟩, hplace, hmember, hallows⟩
    exact ⟨rule.groupId, ⟨group, hgroup, hmember⟩, rule, hrule, hspace, hforce, hplace, rfl,
      hallows⟩
  · rintro ⟨_, ⟨group, hgroup, hmember⟩, rule, hrule, hspace, hforce, hplace, rfl, hallows⟩
    exact ⟨⟨rule, group.name⟩, ⟨rule, ⟨hrule, hspace, hforce⟩, group, hgroup, rfl⟩, hplace, hmember,
      hallows⟩

/-- The rule is one of an active group. -/
def AccessStore.RulesActive (db : AccessStore) : Prop :=
  ∀ rule ∈ db.accessRules, (db.activeGroup rule.groupId).isSome = true

theorem isRuled_iff (hactive : db.RulesActive) {spaceId category : Uuid} :
    isRuled (spaceRules text db now groups permission spaceId) category = true ↔
      HasRule db.accessRules now spaceId category := by
  rw [spaceRules, isRuled_categoryRules]
  simp only [includedRules, List.any_eq_true, List.mem_filterMap, List.mem_filter,
    Option.map_eq_some_iff, Bool.and_eq_true, decide_eq_true_eq]
  constructor
  · rintro ⟨_, ⟨rule, ⟨hrule, hspace, hforce⟩, group, -, rfl⟩, hcategory⟩
    exact ⟨rule, hrule, hspace, hforce, hcategory⟩
  · rintro ⟨rule, hrule, hspace, hforce, hcategory⟩
    obtain ⟨group, hgroup⟩ := Option.isSome_iff_exists.mp (hactive rule hrule)
    exact ⟨⟨rule, group.name⟩, ⟨rule, ⟨hrule, hspace, hforce⟩, group, hgroup, rfl⟩, hcategory⟩

variable (hunique : (db.categories.map DocumentCategory.id).Nodup)
variable (hgrants : db.temporaryAccessGrants = []) (hactive : db.RulesActive)

include hagrees hgrants in
theorem rootAllowed_iff_gives (hplain : moderatorCan groups permission = false)
    (howner : isOwner text groups permission (spaceRow text db now groups space) = false) :
    rootAllowed text groups permission (spaceRow text db now groups space) = true ↔
      ∃ groupId, groupFilter text db groups groupId = true ∧
        RuleGives db.accessRules now space.id permission groupId none := by
  have hnone : includedGrants text db now groups false space.id = [] := by
    simp [includedGrants, hgrants]
  rw [rootAllowed_iff hplain, howner, hnone, ← any_ruleAllows_iff hagrees]
  simp [rootRule, Option.isNone_iff_eq_none]

include hunique in
theorem parentOf_iff_live {spaceId node : Uuid} {parent : Option Uuid} :
    parentOf (spaceCategories text db spaceId) node = some parent ↔
      ∃ category, IsLive db.categories spaceId category ∧ category.id = node ∧
        category.parentId = parent := by
  rw [parentOf_eq_some (spaceCategories_unique hunique spaceId)]
  simp only [mem_spaceCategories, IsLive]

include hagrees hunique hgrants hactive in
/-- Without privilege and ownership a place is granted to those with a group that
has the right there. -/
theorem granted_iff_hasRight (hplain : moderatorCan groups permission = false)
    (howner : isOwner text groups permission (spaceRow text db now groups space) = false)
    {place : Option Uuid} :
    Granted text db now groups permission space place ↔
      ∃ groupId, groupFilter text db groups groupId = true ∧
        HasRight db.accessRules db.categories now space.id permission groupId place := by
  rw [granted_iff_climbs hplain howner]
  constructor
  · rintro ⟨found, hclimbs, hverdict⟩
    induction hclimbs with
    | top =>
        obtain ⟨groupId, hmember, hgives⟩ :=
          (rootAllowed_iff_gives hagrees hgrants hplain howner).mp hverdict
        exact ⟨groupId, hmember, .root hgives⟩
    | ruled hnode _ =>
        obtain ⟨parent, hparent⟩ := Option.isSome_iff_exists.mp hnode
        obtain ⟨category, hlive, rfl, -⟩ := (parentOf_iff_live hunique).mp hparent
        rw [verdict, spaceRules, override_categoryRules, any_ruleAllows_iff hagrees] at hverdict
        obtain ⟨groupId, hmember, hgives⟩ := hverdict
        exact ⟨groupId, hmember, .ruled hlive hgives⟩
    | up hparent hplain _ ih =>
        obtain ⟨category, hlive, rfl, rfl⟩ := (parentOf_iff_live hunique).mp hparent
        obtain ⟨groupId, hmember, hright⟩ := ih hverdict
        refine ⟨groupId, hmember, .inherited hlive ?_ hright⟩
        rw [← isRuled_iff hactive, hplain]
        exact Bool.false_ne_true
  · rintro ⟨groupId, hmember, hright⟩
    induction hright with
    | root hgives =>
        exact ⟨.top, .top,
          (rootAllowed_iff_gives hagrees hgrants hplain howner).mpr ⟨groupId, hmember, hgives⟩⟩
    | @ruled category hlive hgives =>
        refine ⟨.ruled category.id, .ruled ?_ ?_, ?_⟩
        · rw [(parentOf_iff_live hunique).mpr ⟨category, hlive, rfl, rfl⟩]
          rfl
        · obtain ⟨rule, hrule, hspace, hforce, hplace, -⟩ := hgives
          exact (isRuled_iff hactive).mpr ⟨rule, hrule, hspace, hforce, hplace⟩
        · rw [verdict, spaceRules, override_categoryRules, any_ruleAllows_iff hagrees]
          exact ⟨groupId, hmember, hgives⟩
    | @inherited category hlive hunruled _ ih =>
        obtain ⟨found, hclimbs, hverdict⟩ := ih
        refine ⟨found, .up ((parentOf_iff_live hunique).mpr ⟨category, hlive, rfl, rfl⟩) ?_ hclimbs,
          hverdict⟩
        rw [← Bool.not_eq_true, isRuled_iff hactive]
        exact hunruled

/-- The identity has every place: it is privileged, or in the active owner group,
which has all but downloads. -/
def Unrestricted (text : TextRules) (db : AccessStore) (groups : List String)
    (permission : Permission) (owner : Option Uuid) : Prop :=
  moderatorCan groups permission = true ∨
    (permission ≠ .download ∧ ∃ groupId, owner = some groupId ∧
      groupFilter text db groups groupId = true)

include hagrees in
theorem unrestricted_iff :
    Unrestricted text db groups permission space.ownerGroupId ↔
      (privileged groups permission ||
        isOwner text groups permission (spaceRow text db now groups space)) = true := by
  rw [Unrestricted, Bool.or_eq_true, privileged_eq, ← ownerFilter_iff hagrees, Option.any_eq_true]

include hagrees hunique hgrants hactive in
/-- A place is granted to unrestricted identities, and to those with a group that has
the right there. -/
theorem granted_iff {place : Option Uuid} :
    Granted text db now groups permission space place ↔
      (Unrestricted text db groups permission space.ownerGroupId ∧
        IsPlace db.categories space.id place) ∨
      ∃ groupId, groupFilter text db groups groupId = true ∧
        HasRight db.accessRules db.categories now space.id permission groupId place := by
  by_cases hall : (privileged groups permission ||
      isOwner text groups permission (spaceRow text db now groups space)) = true
  · have hplace : Granted text db now groups permission space place ↔
        IsPlace db.categories space.id place := by
      cases place with
      | none =>
          rw [granted_root, rootAllowed, hall]
          simp [IsPlace]
      | some category =>
          rw [granted_of_unrestricted hall, List.mem_map]
          simp [IsPlace, IsLive, mem_spaceCategories]
    rw [hplace, unrestricted_iff hagrees]
    constructor
    · exact fun hplace => .inl ⟨hall, hplace⟩
    · rintro (⟨-, hplace⟩ | ⟨groupId, -, hright⟩)
      · exact hplace
      · exact hright.isPlace
  · have hrestricted : ¬Unrestricted text db groups permission space.ownerGroupId :=
      fun hunrestricted => hall ((unrestricted_iff hagrees).mp hunrestricted)
    simp only [Bool.or_eq_true, not_or, Bool.not_eq_true] at hall
    rw [granted_iff_hasRight hagrees hunique hgrants hactive (privileged_eq ▸ hall.1) hall.2]
    simp only [hrestricted, false_and, false_or]

theorem groups_nonempty {groupId : Uuid} (hmember : groupFilter text db groups groupId = true) :
    groups ≠ [] := by
  rintro rfl
  simp [groupFilter] at hmember

include hagrees hunique hgrants hactive in
/-- **Decisions by rights.** A place of a live space is permitted to unrestricted
identities, and to those with a group that has the right there. -/
theorem permits_iff (hspace : space ∈ db.spaces) (hlive : space.deletedAt = none)
    {place : Option Uuid} :
    permits text db now groups permission space.id place = true ↔
      (Unrestricted text db groups permission space.ownerGroupId ∧
        IsPlace db.categories space.id place) ∨
      ∃ groupId, groupFilter text db groups groupId = true ∧
        HasRight db.accessRules db.categories now space.id permission groupId place := by
  rw [permits, scopeAllowed_iff]
  constructor
  · rintro ⟨-, -, other, hother, hid, -, hallowed⟩
    obtain rfl := space_unique hspace hother hid
    exact (granted_iff hagrees hunique hgrants hactive).mp hallowed
  · intro hcause
    have hentered : groups ≠ [] ∧ (isAdminIdentity groups || isModeratorIdentity groups ||
        spaceFilter text db now groups space) = true := by
      simp only [spaceFilter, Bool.or_eq_true, List.any_eq_true, Bool.and_eq_true,
        decide_eq_true_eq, Option.any_eq_true]
      rcases hcause with ⟨hmoderator | ⟨-, owner, howner, hmember⟩, -⟩ | ⟨groupId, hmember, hright⟩
      · refine ⟨?_, .inl (moderatorCan_moderator hmoderator)⟩
        rintro rfl
        cases permission <;> cases hmoderator
      · exact ⟨groups_nonempty hmember, .inr (.inr ⟨owner, howner, hmember⟩)⟩
      · obtain ⟨rule, hrule, hspaceId, hforce, rfl⟩ := hright.exists_rule
        exact ⟨groups_nonempty hmember,
          .inr (.inl (.inl ⟨rule, hrule, ⟨hspaceId, hmember⟩, hforce⟩))⟩
    refine ⟨List.mem_singleton.mpr rfl, hentered.1, space, hspace, rfl, ?_,
      (granted_iff hagrees hunique hgrants hactive).mpr hcause⟩
    simp only [isSelected, hlive, Option.isNone_none, Option.all_none, Bool.true_and]
    exact hentered.2

/-- Nothing is permitted in a space that does not exist. -/
theorem permits_missing {spaceId : Uuid} (hmissing : ∀ space ∈ db.spaces, space.id ≠ spaceId)
    (place : Option Uuid) : permits text db now groups permission spaceId place = false := by
  rw [← Bool.not_eq_true, permits, scopeAllowed_iff]
  rintro ⟨-, -, space, hspace, hid, -⟩
  exact hmissing space hspace hid

end Decisions

end IsmsPortal
