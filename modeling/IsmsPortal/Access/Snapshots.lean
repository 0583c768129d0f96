import IsmsPortal.Access.Preview
import IsmsPortal.Access.Rights
import Mathlib.Data.List.Dedup
import Mathlib.Data.List.Sort

/-! # Access snapshots

`accessState` captures the access rules and the owners of the spaces, and
`compareAccessSnapshots` reports what changed between two captured states. Rules
are compared by group and space: of several rules of a group for one space only
the last one is looked at, and its category is not compared. Spaces of the
earlier state that are gone are not reported. So states without a reported
change may decide differently; they decide alike exactly when they have the same
spaces and their rules give the groups the same rights.
-/

namespace IsmsPortal

open Foundation

/-! ## Captured states -/

structure SnapshotSpace where
  id : Uuid
  slug : String
  ownerGroupId : Option Uuid
deriving DecidableEq

/-- The result of `accessState`. -/
structure AccessState where
  rules : List AccessRuleRow
  spaces : List SnapshotSpace
  spaceIds : (spaces.map SnapshotSpace.id).Nodup

/-- The order by group and space. -/
def RuleOrder (left right : AccessRuleRow) : Prop :=
  left.groupId.text < right.groupId.text ∨
    (left.groupId = right.groupId ∧ left.spaceId.text ≤ right.spaceId.text)

instance : DecidableRel RuleOrder := fun left right =>
  inferInstanceAs (Decidable (left.groupId.text < right.groupId.text ∨ _))

/-- The part of a space that is captured. -/
def DocumentSpace.captured (space : DocumentSpace) : SnapshotSpace :=
  ⟨space.id, space.slug, space.ownerGroupId⟩

/-- `accessState`. -/
def RuleTables.accessState (tables : RuleTables) : AccessState where
  rules := tables.accessRules.insertionSort RuleOrder
  spaces := ((tables.spaces.filter fun space => space.deletedAt.isNone).insertionSort
    fun left right => left.id.text ≤ right.id.text).map DocumentSpace.captured
  spaceIds := by
    have hperm := List.perm_insertionSort (fun left right => left.id.text ≤ right.id.text)
      (tables.spaces.filter fun space => space.deletedAt.isNone)
    rw [List.map_map, show SnapshotSpace.id ∘ DocumentSpace.captured = DocumentSpace.id from rfl,
      (hperm.map DocumentSpace.id).nodup_iff]
    exact (List.Sublist.map _ List.filter_sublist).nodup tables.spaceIds

/-- The tables of the authorization service with the rules and owners of a state. -/
def AccessState.store (state : AccessState) (directory : List DirectoryGroup)
    (categories : List DocumentCategory) : AccessStore where
  groups := directory
  spaces := state.spaces.map fun space => ⟨space.id, space.slug, space.ownerGroupId, none⟩
  categories := categories
  accessRules := state.rules.map AccessRuleRow.toAccessRule
  temporaryAccessGrants := []
  spaceIds := by
    rw [List.map_map]
    exact state.spaceIds

/-! ## The comparison -/

def AccessRuleRow.key (row : AccessRuleRow) : Uuid × Uuid := (row.groupId, row.spaceId)

inductive RuleChange
  | added (key : Uuid × Uuid)
  | removed (key : Uuid × Uuid)
  | updated (key : Uuid × Uuid) (permissions : List Permission) (validityChanged : Bool)
deriving DecidableEq

structure OwnerChange where
  spaceId : Uuid
  before : Option Uuid
  after : Option Uuid
deriving DecidableEq

/-- The permissions in which two rules differ. -/
def changedPermissions (before after : AccessRuleRow) : List Permission :=
  accessPermissionKeys.filter fun permission =>
    before.allows permission != after.allows permission

def validityChanged (before after : AccessRuleRow) : Bool :=
  before.validFrom ≠ after.validFrom || before.validUntil ≠ after.validUntil

/-- The body of the loop over the keys. -/
def compareRule (key : Uuid × Uuid) :
    Option AccessRuleRow → Option AccessRuleRow → Option RuleChange
  | none, _ => some (.added key)
  | some _, none => some (.removed key)
  | some before, some after =>
      if !(changedPermissions before after).isEmpty || validityChanged before after then
        some (.updated key (changedPermissions before after) (validityChanged before after))
      else none

/-- The entry of a space in the map of the earlier state. -/
def AccessState.spaceOf (state : AccessState) (id : Uuid) : Option SnapshotSpace :=
  state.spaces.reverse.find? fun space => space.id = id

def compareOwner (left : AccessState) (space : SnapshotSpace) : Option OwnerChange :=
  let before := (left.spaceOf space.id).bind SnapshotSpace.ownerGroupId
  if before = space.ownerGroupId then none else some ⟨space.id, before, space.ownerGroupId⟩

structure AccessComparison where
  changed : Bool
  rules : List RuleChange
  owners : List OwnerChange
  ruleChanges : Nat
  ownerChanges : Nat

/-- The keys of both maps, each once. -/
def ruleKeys (left right : AccessState) : List (Uuid × Uuid) :=
  (left.rules.map AccessRuleRow.key ++ right.rules.map AccessRuleRow.key).eraseDups

def comparedRules (left right : AccessState) : List RuleChange :=
  (ruleKeys left right).filterMap fun key =>
    compareRule key (entryOf left.rules key.1 key.2) (entryOf right.rules key.1 key.2)

def comparedOwners (left right : AccessState) : List OwnerChange :=
  right.spaces.filterMap (compareOwner left)

/-- A row of `AccessSnapshot`. -/
structure AccessSnapshotRow where
  id : Uuid
  sha256 : String
  state : AccessState

/-- `compareAccessSnapshots`, or none when one of the snapshots is not found. -/
def compareAccessSnapshots (snapshots : List AccessSnapshotRow) (earlier later : Uuid) :
    Option AccessComparison := do
  let left ← snapshots.find? fun snapshot => snapshot.id = earlier
  let right ← snapshots.find? fun snapshot => snapshot.id = later
  let rules := comparedRules left.state right.state
  let owners := comparedOwners left.state right.state
  return ⟨left.sha256 ≠ right.sha256, rules, owners, rules.length, owners.length⟩

/-! ## Stores with the same rules -/

/-- Two stores with the same rules in any order, and the same owners of the same
live spaces. -/
structure SameAccess (left right : AccessStore) : Prop where
  groups : left.groups = right.groups
  categories : left.categories = right.categories
  grants : left.temporaryAccessGrants = right.temporaryAccessGrants
  rules : ∀ rule, rule ∈ left.accessRules ↔ rule ∈ right.accessRules
  spaces : ∀ id owner,
    (∃ space ∈ left.spaces, space.id = id ∧ space.ownerGroupId = owner ∧ space.deletedAt = none) ↔
      ∃ space ∈ right.spaces, space.id = id ∧ space.ownerGroupId = owner ∧ space.deletedAt = none

namespace SameAccess

variable {text : TextRules} {left right : AccessStore} {now : Int} {groups : List String}
variable {permission : Permission}

theorem symm (hsame : SameAccess left right) : SameAccess right left where
  groups := hsame.groups.symm
  categories := hsame.categories.symm
  grants := hsame.grants.symm
  rules rule := (hsame.rules rule).symm
  spaces id owner := (hsame.spaces id owner).symm

theorem groupOf (hsame : SameAccess left right) : left.groupOf = right.groupOf := by
  funext id
  rw [AccessStore.groupOf, AccessStore.groupOf, hsame.groups]

theorem activeGroup (hsame : SameAccess left right) : left.activeGroup = right.activeGroup := by
  funext id
  rw [AccessStore.activeGroup, AccessStore.activeGroup, hsame.groupOf]

theorem groupFilter (hsame : SameAccess left right) :
    groupFilter text left groups = groupFilter text right groups := by
  funext id
  rw [IsmsPortal.groupFilter, IsmsPortal.groupFilter, hsame.activeGroup]

theorem includedRules (hsame : SameAccess left right) {spaceId : Uuid}
    {entry : WithGroup AccessRule} (hentry : entry ∈ includedRules left now spaceId) :
    entry ∈ IsmsPortal.includedRules right now spaceId := by
  simp only [IsmsPortal.includedRules, List.mem_filterMap, List.mem_filter] at hentry ⊢
  obtain ⟨rule, ⟨hrule, hforce⟩, hgroup⟩ := hentry
  exact ⟨rule, ⟨(hsame.rules rule).mp hrule, hforce⟩, hsame.activeGroup ▸ hgroup⟩

theorem any_includedRules (hsame : SameAccess left right) {spaceId : Uuid}
    (test : WithGroup AccessRule → Bool) :
    (IsmsPortal.includedRules left now spaceId).any test =
      (IsmsPortal.includedRules right now spaceId).any test := by
  rw [Bool.eq_iff_iff, List.any_eq_true, List.any_eq_true]
  constructor
  · rintro ⟨entry, hentry, htest⟩
    exact ⟨entry, hsame.includedRules hentry, htest⟩
  · rintro ⟨entry, hentry, htest⟩
    exact ⟨entry, hsame.symm.includedRules hentry, htest⟩

variable {space other : DocumentSpace}

/-- The rows of a space in the two stores differ in the order of the rules only. -/
theorem spaceRow_eq (hsame : SameAccess left right) (hid : other.id = space.id)
    (howner : other.ownerGroupId = space.ownerGroupId) :
    spaceRow text right now groups other = { spaceRow text left now groups space with
      space := other
      accessRules := IsmsPortal.includedRules right now space.id } := by
  have hgrants : includedGrants text right now groups (isAdminIdentity groups) space.id =
      includedGrants text left now groups (isAdminIdentity groups) space.id := by
    rw [includedGrants, includedGrants, hsame.grants, hsame.groupFilter, hsame.groupOf]
  have hcategories : spaceCategories text right space.id = spaceCategories text left space.id := by
    rw [spaceCategories, spaceCategories, hsame.categories]
  rw [spaceRow, spaceRow, hid, howner, hgrants, hcategories, hsame.groupOf]

theorem rootAllowed_eq (hsame : SameAccess left right) (hid : other.id = space.id)
    (howner : other.ownerGroupId = space.ownerGroupId) :
    rootAllowed text groups permission (spaceRow text right now groups other) =
      rootAllowed text groups permission (spaceRow text left now groups space) := by
  rw [hsame.spaceRow_eq hid howner]
  unfold rootAllowed
  dsimp only
  rw [← hsame.any_includedRules]
  rfl

theorem mem_allowedCategories_iff (hsame : SameAccess left right) (hid : other.id = space.id)
    (howner : other.ownerGroupId = space.ownerGroupId) {category : Uuid} :
    category ∈ allowedCategories text groups permission (spaceRow text right now groups other) ↔
      category ∈ allowedCategories text groups permission
        (spaceRow text left now groups space) := by
  rw [allowedCategories, hsame.rootAllowed_eq hid howner, hsame.spaceRow_eq hid howner,
    allowedCategories]
  have hownerSame : isOwner text groups permission
      { spaceRow text left now groups space with
        space := other
        accessRules := IsmsPortal.includedRules right now space.id } =
      isOwner text groups permission (spaceRow text left now groups space) := rfl
  rw [hownerSame]
  split
  · rfl
  · exact resolve_congr fun test => (hsame.any_includedRules test).symm

theorem isSelected_of (hsame : SameAccess left right) (hid : other.id = space.id)
    (howner : other.ownerGroupId = space.ownerGroupId) (hlive : other.deletedAt = none)
    {only : Option Uuid} (hselected : isSelected text left now groups only space = true) :
    isSelected text right now groups only other = true := by
  simp only [isSelected, spaceFilter, Bool.and_eq_true, Bool.or_eq_true, List.any_eq_true, hid,
    howner, hlive, ← hsame.groupFilter, ← hsame.grants, Option.isNone_none] at hselected ⊢
  refine ⟨⟨trivial, hselected.1.2⟩, ?_⟩
  rcases hselected.2 with hidentity | (⟨rule, hrule, hmatch⟩ | hgrant) | howned
  · exact .inl hidentity
  · exact .inr (.inl (.inl ⟨rule, (hsame.rules rule).mp hrule, hmatch⟩))
  · exact .inr (.inl (.inr hgrant))
  · exact .inr (.inr howned)

/-- What is permitted by one store is permitted by the other. -/
theorem permits_of (hsame : SameAccess left right) {spaceId : Uuid} {category : Option Uuid}
    (hpermits : permits text left now groups permission spaceId category = true) :
    permits text right now groups permission spaceId category = true := by
  rw [permits, scopeAllowed_iff] at hpermits ⊢
  obtain ⟨hpermission, hnonempty, space, hspace, hid, hselected, hallowed⟩ := hpermits
  have hlive : space.deletedAt = none := by
    simp only [isSelected, Bool.and_eq_true, Option.isNone_iff_eq_none] at hselected
    exact hselected.1.1
  obtain ⟨other, hother, hotherId, howner, hotherLive⟩ :=
    (hsame.spaces space.id space.ownerGroupId).mp ⟨space, hspace, rfl, rfl, hlive⟩
  refine ⟨hpermission, hnonempty, other, hother, hotherId.trans hid,
    hsame.isSelected_of hotherId howner hotherLive hselected, ?_⟩
  cases category with
  | none =>
      simp only [categoryAllowed, SpaceWithRule.scope, decideSpace, decide_eq_true_eq,
        Option.some.injEq] at hallowed ⊢
      rwa [hsame.rootAllowed_eq hotherId howner]
  | some id =>
      simp only [categoryAllowed, SpaceWithRule.scope, decideSpace, List.contains_iff_mem]
        at hallowed ⊢
      exact (hsame.mem_allowedCategories_iff hotherId howner).mpr hallowed

theorem permits_eq (hsame : SameAccess left right) (spaceId : Uuid) (category : Option Uuid) :
    permits text left now groups permission spaceId category =
      permits text right now groups permission spaceId category := by
  rw [Bool.eq_iff_iff]
  exact ⟨hsame.permits_of, hsame.symm.permits_of⟩

end SameAccess

/-- A captured state decides like the tables it was captured from. -/
theorem accessState_sameAccess (tables : RuleTables) :
    SameAccess ⟨tables.groups, tables.spaces, tables.categories,
        tables.accessRules.map AccessRuleRow.toAccessRule, [], tables.spaceIds⟩
      (tables.accessState.store tables.groups tables.categories) where
  groups := rfl
  categories := rfl
  grants := rfl
  rules rule := by simp [AccessState.store, RuleTables.accessState]
  spaces id owner := by
    simp only [AccessState.store, RuleTables.accessState, List.map_map, List.mem_map,
      List.mem_insertionSort, List.mem_filter, Option.isNone_iff_eq_none]
    constructor
    · rintro ⟨space, hspace, hid, howner, hlive⟩
      exact ⟨_, ⟨space, ⟨hspace, hlive⟩, rfl⟩, hid, howner, rfl⟩
    · rintro ⟨_, ⟨space, ⟨hspace, hlive⟩, rfl⟩, hid, howner, -⟩
      exact ⟨space, hspace, hid, howner, hlive⟩

/-- A captured state decides like its tables, at every instant and for every identity. -/
theorem permits_accessState (tables : RuleTables) (text : TextRules) (now : Int)
    (groups : List String) (permission : Permission) (spaceId : Uuid) (place : Option Uuid) :
    permits text ⟨tables.groups, tables.spaces, tables.categories,
        tables.accessRules.map AccessRuleRow.toAccessRule, [], tables.spaceIds⟩ now groups
        permission spaceId place =
      permits text (tables.accessState.store tables.groups tables.categories) now groups permission
        spaceId place :=
  (accessState_sameAccess tables).permits_eq spaceId place

/-! ## What is reported -/

/-- What the comparison looks at in a rule: its permissions and its validity. -/
def AccessRuleRow.compared (row : AccessRuleRow) : (Permission → Bool) × Option Int × Option Int :=
  (row.allows, row.validFrom, row.validUntil)

/-- Something the comparison looks at differs: the last rules of a group for a space,
or the owner of a space of the later state. -/
def Reportable (left right : AccessState) : Prop :=
  (∃ groupId spaceId, (entryOf left.rules groupId spaceId).map AccessRuleRow.compared ≠
    (entryOf right.rules groupId spaceId).map AccessRuleRow.compared) ∨
  ∃ space ∈ right.spaces,
    (left.spaceOf space.id).bind SnapshotSpace.ownerGroupId ≠ space.ownerGroupId

section Comparison

variable {left right : AccessState} {groupId spaceId : Uuid}

theorem mem_rowsOf {rows : List AccessRuleRow} {row : AccessRuleRow} :
    row ∈ rowsOf rows groupId spaceId ↔ row ∈ rows ∧ row.key = (groupId, spaceId) := by
  simp [rowsOf, AccessRuleRow.key]

theorem entryOf_eq_none {rows : List AccessRuleRow} :
    entryOf rows groupId spaceId = none ↔ ∀ row ∈ rows, row.key ≠ (groupId, spaceId) := by
  rw [entryOf, List.getLast?_eq_none_iff, List.eq_nil_iff_forall_not_mem]
  simp only [mem_rowsOf, not_and]

theorem mem_ruleKeys {key : Uuid × Uuid} : key ∈ ruleKeys left right ↔
    (∃ row ∈ left.rules, row.key = key) ∨ ∃ row ∈ right.rules, row.key = key := by
  rw [ruleKeys, List.mem_eraseDups, List.mem_append, List.mem_map, List.mem_map]

theorem changedPermissions_eq_nil {before after : AccessRuleRow} :
    changedPermissions before after = [] ↔ before.allows = after.allows := by
  rw [changedPermissions, List.filter_eq_nil_iff, funext_iff]
  constructor
  · intro hsame permission
    simpa using hsame permission (mem_accessPermissionKeys permission)
  · intro hsame permission _
    simp [hsame permission]

/-- Two entries of one key are not reported if they are alike in what is looked at. -/
theorem compareRule_eq_none {key : Uuid × Uuid} {before after : Option AccessRuleRow}
    (hsome : before ≠ none ∨ after ≠ none) :
    compareRule key before after = none ↔
      before.map AccessRuleRow.compared = after.map AccessRuleRow.compared := by
  cases before with
  | none =>
      cases after with
      | none => simp at hsome
      | some after => simp [compareRule]
  | some before =>
      cases after with
      | none => simp [compareRule]
      | some after =>
          simp only [compareRule, ite_eq_right_iff, reduceCtorEq, imp_false, Bool.or_eq_true,
            Bool.not_eq_true', List.isEmpty_eq_false_iff, validityChanged, decide_eq_true_eq,
            not_or, not_not, Option.map_some, Option.some.injEq, AccessRuleRow.compared,
            Prod.mk.injEq, changedPermissions_eq_nil]

theorem comparedRules_eq_nil : comparedRules left right = [] ↔
    ∀ groupId spaceId, (entryOf left.rules groupId spaceId).map AccessRuleRow.compared =
      (entryOf right.rules groupId spaceId).map AccessRuleRow.compared := by
  have hkeys (key : Uuid × Uuid) : key ∈ ruleKeys left right ↔
      entryOf left.rules key.1 key.2 ≠ none ∨ entryOf right.rules key.1 key.2 ≠ none := by
    rw [mem_ruleKeys, ne_eq, ne_eq, entryOf_eq_none, entryOf_eq_none]
    push Not
    rfl
  rw [comparedRules, List.filterMap_eq_nil_iff]
  constructor
  · intro hnone groupId spaceId
    by_cases hkey : (groupId, spaceId) ∈ ruleKeys left right
    · exact (compareRule_eq_none ((hkeys _).mp hkey)).mp (hnone _ hkey)
    · rw [hkeys, not_or, not_not, not_not] at hkey
      rw [hkey.1, hkey.2]
  · intro hsame key hkey
    exact (compareRule_eq_none ((hkeys key).mp hkey)).mpr (hsame key.1 key.2)

theorem comparedOwners_eq_nil : comparedOwners left right = [] ↔
    ∀ space ∈ right.spaces,
      (left.spaceOf space.id).bind SnapshotSpace.ownerGroupId = space.ownerGroupId := by
  simp only [comparedOwners, List.filterMap_eq_nil_iff, compareOwner, ite_eq_left_iff,
    reduceCtorEq, imp_false, not_not]

/-- No change is reported exactly if nothing that is looked at differs. -/
theorem silent_iff :
    (comparedRules left right = [] ∧ comparedOwners left right = []) ↔ ¬Reportable left right := by
  rw [comparedRules_eq_nil, comparedOwners_eq_nil, Reportable]
  push Not
  rfl

theorem spaceOf_eq_some {state : AccessState} {id : Uuid} {space : SnapshotSpace} :
    state.spaceOf id = some space ↔ space ∈ state.spaces ∧ space.id = id := by
  unfold AccessState.spaceOf
  rw [Table.find?_key_eq_some_iff, List.mem_reverse]
  rw [List.map_reverse, List.nodup_reverse]
  exact state.spaceIds

theorem compareRule_added {key : Uuid × Uuid} {before after : Option AccessRuleRow}
    {other : Uuid × Uuid} (hadded : compareRule key before after = some (.added other)) :
    key = other ∧ before = none := by
  cases before with
  | none =>
      simp only [compareRule, Option.some.injEq, RuleChange.added.injEq] at hadded
      exact ⟨hadded, rfl⟩
  | some before =>
      cases after with
      | none => simp [compareRule] at hadded
      | some after =>
          simp only [compareRule] at hadded
          split at hadded <;> cases hadded

theorem compareRule_removed {key : Uuid × Uuid} {before after : Option AccessRuleRow}
    {other : Uuid × Uuid} (hremoved : compareRule key before after = some (.removed other)) :
    key = other ∧ after = none := by
  cases before with
  | none => simp [compareRule] at hremoved
  | some before =>
      cases after with
      | none =>
          simp only [compareRule, Option.some.injEq, RuleChange.removed.injEq] at hremoved
          exact ⟨hremoved, rfl⟩
      | some after =>
          simp only [compareRule] at hremoved
          split at hremoved <;> cases hremoved

end Comparison

/-- A rule reported as added is in the later state only. -/
theorem added_only_right {left right : AccessState} {key : Uuid × Uuid}
    (hadded : .added key ∈ comparedRules left right) :
    (∃ rule ∈ right.rules, rule.key = key) ∧ ∀ rule ∈ left.rules, rule.key ≠ key := by
  obtain ⟨other, hother, hchange⟩ := List.mem_filterMap.mp hadded
  obtain ⟨rfl, hnone⟩ := compareRule_added hchange
  have hleft := entryOf_eq_none.mp hnone
  refine ⟨?_, hleft⟩
  rcases mem_ruleKeys.mp hother with ⟨row, hrow, hkey⟩ | hright
  · exact absurd hkey (hleft row hrow)
  · exact hright

/-- A rule reported as removed is in the earlier state only. -/
theorem removed_only_left {left right : AccessState} {key : Uuid × Uuid}
    (hremoved : .removed key ∈ comparedRules left right) :
    (∃ rule ∈ left.rules, rule.key = key) ∧ ∀ rule ∈ right.rules, rule.key ≠ key := by
  obtain ⟨other, hother, hchange⟩ := List.mem_filterMap.mp hremoved
  obtain ⟨rfl, hnone⟩ := compareRule_removed hchange
  have hright := entryOf_eq_none.mp hnone
  refine ⟨?_, hright⟩
  rcases mem_ruleKeys.mp hother with hleft | ⟨row, hrow, hkey⟩
  · exact hleft
  · exact absurd hkey (hright row hrow)

/-! ## States that decide alike -/

/-- A table of groups. Ids and names are unique. -/
structure Directory where
  groups : List DirectoryGroup
  ids : (groups.map DirectoryGroup.id).Nodup
  names : (groups.map DirectoryGroup.name).Nodup

/-- The groups a state refers to. -/
def AccessState.groupIds (state : AccessState) : List Uuid :=
  state.rules.map (fun row => row.groupId) ++ state.spaces.filterMap SnapshotSpace.ownerGroupId

/-- All of them are active. -/
def AccessState.GroupsActive (state : AccessState) (directory : Directory) : Prop :=
  ∀ id ∈ state.groupIds, ∃ group ∈ directory.groups, group.id = id ∧ group.active = true

def AccessState.accessRules (state : AccessState) : List AccessRule :=
  state.rules.map AccessRuleRow.toAccessRule

/-- Equal decisions for every list of group names, permission, place and instant,
while the groups are active. -/
def DecideAlike (left right : AccessState) (categories : List DocumentCategory) : Prop :=
  ∀ (text : TextRules) (directory : Directory), text.Agrees → left.GroupsActive directory →
    right.GroupsActive directory → ∀ now groups permission spaceId place,
      permits text (left.store directory.groups categories) now groups permission spaceId place =
        permits text (right.store directory.groups categories) now groups permission spaceId place

/-- The same spaces, in which the rules give the same rights to every group, the owner
apart, which has everything but downloads anyway. -/
structure SameRights (left right : AccessState) (categories : List DocumentCategory) : Prop where
  spaces : ∀ id, id ∈ left.spaces.map SnapshotSpace.id ↔ id ∈ right.spaces.map SnapshotSpace.id
  rights : ∀ space ∈ right.spaces, ∀ now permission groupId place,
    permission = .download ∨ space.ownerGroupId ≠ some groupId →
      (HasRight left.accessRules categories now space.id permission groupId place ↔
        HasRight right.accessRules categories now space.id permission groupId place)

section Alike

variable {left right : AccessState} {categories : List DocumentCategory}
variable (hunique : (categories.map DocumentCategory.id).Nodup)

theorem Directory.activeGroup_isSome {directory : Directory} {db : AccessStore}
    (hgroups : db.groups = directory.groups) {id : Uuid}
    (hactive : ∃ group ∈ directory.groups, group.id = id ∧ group.active = true) :
    (db.activeGroup id).isSome = true := by
  obtain ⟨group, hgroup, hid, hactive⟩ := hactive
  rw [Option.isSome_iff_exists]
  refine ⟨group, AccessStore.activeGroup_eq_some.mpr ⟨?_, hactive⟩⟩
  rw [AccessStore.groupOf, hgroups, Table.find?_key_eq_some_iff directory.ids]
  exact ⟨hgroup, hid⟩

theorem AccessState.rulesActive {state : AccessState} {directory : Directory}
    (hactive : state.GroupsActive directory) :
    (state.store directory.groups categories).RulesActive := by
  intro rule hrule
  obtain ⟨row, hrow, rfl⟩ := List.mem_map.mp hrule
  apply Directory.activeGroup_isSome rfl
  exact hactive _ (List.mem_append_left _ (List.mem_map_of_mem hrow))

include hunique in
/-- What a state permits in one of its spaces. -/
theorem AccessState.permits_iff {state : AccessState} {text : TextRules} {directory : Directory}
    (hagrees : text.Agrees) (hactive : state.GroupsActive directory) {space : SnapshotSpace}
    (hspace : space ∈ state.spaces) {now : Int} {groups : List String} {permission : Permission}
    {place : Option Uuid} :
    permits text (state.store directory.groups categories) now groups permission space.id place =
        true ↔
      (Unrestricted text (state.store directory.groups categories) groups permission
          space.ownerGroupId ∧ IsPlace categories space.id place) ∨
      ∃ groupId, groupFilter text (state.store directory.groups categories) groups groupId = true ∧
        HasRight state.accessRules categories now space.id permission groupId place := by
  have hmem : (⟨space.id, space.slug, space.ownerGroupId, none⟩ : DocumentSpace) ∈
      (state.store directory.groups categories).spaces :=
    List.mem_map.mpr ⟨space, hspace, rfl⟩
  exact IsmsPortal.permits_iff hagrees hunique rfl (state.rulesActive hactive) hmem rfl

theorem AccessState.permits_missing {state : AccessState} {text : TextRules}
    {directory : Directory} {spaceId : Uuid}
    (hmissing : spaceId ∉ state.spaces.map SnapshotSpace.id) {now : Int} {groups : List String}
    {permission : Permission} {place : Option Uuid} :
    permits text (state.store directory.groups categories) now groups permission spaceId place =
      false := by
  apply IsmsPortal.permits_missing
  intro space hspace hid
  obtain ⟨captured, hcaptured, rfl⟩ := List.mem_map.mp hspace
  exact hmissing (List.mem_map.mpr ⟨captured, hcaptured, hid⟩)

/-- Without a report a space of both states has one owner. -/
theorem owner_of_silent (hsilent : ¬Reportable left right)
    (hspaces : ∀ id, id ∈ left.spaces.map SnapshotSpace.id ↔
      id ∈ right.spaces.map SnapshotSpace.id)
    {space : SnapshotSpace} (hspace : space ∈ right.spaces) :
    ∃ before ∈ left.spaces, before.id = space.id ∧ before.ownerGroupId = space.ownerGroupId := by
  have hid := (hspaces space.id).mpr (List.mem_map_of_mem hspace)
  obtain ⟨before, hbefore, hbeforeId⟩ := List.mem_map.mp hid
  refine ⟨before, hbefore, hbeforeId, ?_⟩
  have howner := comparedOwners_eq_nil.mp (silent_iff.mpr hsilent).2 space hspace
  rwa [spaceOf_eq_some.mpr ⟨hbefore, hbeforeId⟩, Option.bind_some] at howner

include hunique in
theorem decideAlike_of_sameRights (hsilent : ¬Reportable left right)
    (hsame : SameRights left right categories) : DecideAlike left right categories := by
  intro text directory hagrees hleft hright now groups permission spaceId place
  by_cases hspaceId : spaceId ∈ right.spaces.map SnapshotSpace.id
  · obtain ⟨space, hspace, rfl⟩ := List.mem_map.mp hspaceId
    obtain ⟨before, hbefore, hid, howner⟩ := owner_of_silent hsilent hsame.spaces hspace
    have hbeforeIff : permits text (left.store directory.groups categories) now groups permission
        before.id place = true ↔ _ := AccessState.permits_iff hunique hagrees hleft hbefore
    rw [hid, howner] at hbeforeIff
    rw [Bool.eq_iff_iff, hbeforeIff, AccessState.permits_iff hunique hagrees hright hspace]
    have hmembers : groupFilter text (left.store directory.groups categories) groups =
        groupFilter text (right.store directory.groups categories) groups := rfl
    rw [Unrestricted, Unrestricted, hmembers]
    by_cases hall : Unrestricted text (right.store directory.groups categories) groups permission
        space.ownerGroupId
    · -- Every place is permitted, whatever the rules.
      constructor
      · rintro (hplace | ⟨groupId, -, hright⟩)
        · exact .inl hplace
        · exact .inl ⟨hall, hright.isPlace⟩
      · rintro (hplace | ⟨groupId, -, hright⟩)
        · exact .inl hplace
        · exact .inl ⟨hall, hright.isPlace⟩
    · refine or_congr_right (exists_congr fun groupId => and_congr_right fun hmember => ?_)
      apply hsame.rights space hspace now permission groupId place
      by_contra howned
      push Not at howned
      exact hall (.inr ⟨howned.1, groupId, howned.2, hmember⟩)
  · rw [AccessState.permits_missing hspaceId,
      AccessState.permits_missing fun hmem => hspaceId ((hsame.spaces spaceId).mp hmem)]

/-! An identity of one group, whose rights the decisions show. -/

def memberName (groupId id : Uuid) : String :=
  if id = groupId then "member" else "other " ++ id.text

theorem memberName_lower {groupId id : Uuid}
    (hname : (memberName groupId id).toLower = "member".toLower) : id = groupId := by
  by_contra hother
  rw [memberName, if_neg hother] at hname
  have hlength := congrArg String.length hname
  unfold String.toLower at hlength
  simp only [String.length_map, String.length_append] at hlength
  have htext : id.text.length ≠ 0 := fun hzero => id.nonempty (String.length_eq_zero_iff.mp hzero)
  have hother : "other ".length = 6 := by decide
  have hmember : "member".length = 6 := by decide
  omega

theorem memberName_injective (groupId : Uuid) : Function.Injective (memberName groupId) := by
  intro id other hname
  by_cases hid : id = groupId
  · have hmember : memberName groupId id = "member" := if_pos hid
    rw [hid, memberName_lower (congrArg String.toLower (hname.symm.trans hmember))]
  · by_cases hother : other = groupId
    · have hmember : memberName groupId other = "member" := if_pos hother
      exact absurd (memberName_lower (congrArg String.toLower (hname.trans hmember))) hid
    · rw [memberName, memberName, if_neg hid, if_neg hother, String.append_right_inj] at hname
      cases id
      cases other
      cases hname
      rfl

/-- All groups are active, and only the members of one are called so. -/
def memberDirectory (groupId : Uuid) (ids : List Uuid) : Directory where
  groups := (groupId :: ids).dedup.map fun id => ⟨id, memberName groupId id, id.text, true, none⟩
  ids := by
    rw [List.map_map]
    exact (List.nodup_dedup _).map fun _ _ hid => hid
  names := by
    rw [List.map_map]
    exact (List.nodup_dedup _).map (memberName_injective groupId)

theorem memberDirectory_active {groupId id : Uuid} {ids : List Uuid} (hid : id ∈ groupId :: ids) :
    ∃ group ∈ (memberDirectory groupId ids).groups, group.id = id ∧ group.active = true :=
  ⟨_, List.mem_map_of_mem (List.mem_dedup.mpr hid), rfl, rfl⟩

theorem groupFilter_member {state : AccessState} {groupId id : Uuid} {ids : List Uuid} :
    groupFilter asciiText (state.store (memberDirectory groupId ids).groups categories) ["member"]
      id = true ↔ id = groupId := by
  rw [groupFilter_iff asciiText_agrees]
  simp only [AccessStore.activeGroup_eq_some, AccessStore.groupOf, AccessState.store,
    Table.find?_key_eq_some_iff (memberDirectory groupId ids).ids]
  constructor
  · rintro ⟨group, ⟨⟨hgroup, rfl⟩, -⟩, hmember⟩
    obtain ⟨id, -, rfl⟩ := List.mem_map.mp hgroup
    simp only [hasGroup, asciiText, List.any_cons, List.any_nil, Bool.or_false] at hmember
    exact memberName_lower (of_decide_eq_true hmember).symm
  · rintro rfl
    refine ⟨⟨id, "member", id.text, true, none⟩, ⟨⟨?_, rfl⟩, rfl⟩, by simp [hasGroup]⟩
    refine List.mem_map.mpr ⟨id, List.mem_dedup.mpr List.mem_cons_self, ?_⟩
    rw [memberName, if_pos rfl]

include hunique in
/-- The member is permitted what the group has a right to. -/
theorem permits_member {state : AccessState} {groupId : Uuid} {ids : List Uuid}
    (hactive : state.GroupsActive (memberDirectory groupId ids)) {space : SnapshotSpace}
    (hspace : space ∈ state.spaces) {now : Int} {permission : Permission} {place : Option Uuid}
    (hfree : permission = .download ∨ space.ownerGroupId ≠ some groupId) :
    permits asciiText (state.store (memberDirectory groupId ids).groups categories) now ["member"]
        permission space.id place = true ↔
      HasRight state.accessRules categories now space.id permission groupId place := by
  rw [state.permits_iff hunique asciiText_agrees hactive hspace]
  have hrestricted : ¬Unrestricted asciiText (state.store (memberDirectory groupId ids).groups
      categories) ["member"] permission space.ownerGroupId := by
    rintro (hmoderator | ⟨hpermission, owner, howner, hmember⟩)
    · revert hmoderator
      cases permission <;> decide
    · rw [groupFilter_member] at hmember
      exact hfree.elim hpermission fun hother => hother (hmember ▸ howner)
  simp only [hrestricted, false_and, false_or, groupFilter_member, exists_eq_left]

include hunique in
/-- An administrator is permitted the root of every space. -/
theorem permits_admin {state : AccessState} {directory : Directory}
    (hactive : state.GroupsActive directory) {id : Uuid} :
    permits asciiText (state.store directory.groups categories) 0 ["ISMS-LOCAL-ADMINS"] .read id
        none = true ↔ id ∈ state.spaces.map SnapshotSpace.id := by
  constructor
  · intro hpermits
    by_contra hmissing
    rw [AccessState.permits_missing hmissing] at hpermits
    cases hpermits
  · intro hmem
    obtain ⟨space, hspace, rfl⟩ := List.mem_map.mp hmem
    rw [state.permits_iff hunique asciiText_agrees hactive hspace]
    refine .inl ⟨.inl (by decide), ?_⟩
    rintro id ⟨⟩

include hunique in
theorem sameRights_of_decideAlike (hsilent : ¬Reportable left right)
    (halike : DecideAlike left right categories) : SameRights left right categories := by
  have hleft (id : Uuid) :
      left.GroupsActive (memberDirectory id (left.groupIds ++ right.groupIds)) := by
    intro groupId hgroup
    exact memberDirectory_active (List.mem_cons_of_mem id (List.mem_append_left _ hgroup))
  have hright (id : Uuid) :
      right.GroupsActive (memberDirectory id (left.groupIds ++ right.groupIds)) := by
    intro groupId hgroup
    exact memberDirectory_active (List.mem_cons_of_mem id (List.mem_append_right _ hgroup))
  have hspaces (id : Uuid) : id ∈ left.spaces.map SnapshotSpace.id ↔
      id ∈ right.spaces.map SnapshotSpace.id := by
    rw [← permits_admin hunique (hleft id), ← permits_admin hunique (hright id),
      halike _ _ asciiText_agrees (hleft id) (hright id)]
  refine ⟨hspaces, fun space hspace now permission groupId place hfree => ?_⟩
  obtain ⟨before, hbefore, hid, howner⟩ := owner_of_silent hsilent hspaces hspace
  rw [← permits_member hunique (hright groupId) hspace hfree,
    ← halike _ _ asciiText_agrees (hleft groupId) (hright groupId), ← hid,
    permits_member hunique (hleft groupId) hbefore (howner ▸ hfree)]

include hunique in
/-- Without a report, states decide alike exactly if their rules give the same rights. -/
theorem decideAlike_iff (hsilent : ¬Reportable left right) :
    DecideAlike left right categories ↔ SameRights left right categories :=
  ⟨sameRights_of_decideAlike hunique hsilent, decideAlike_of_sameRights hunique hsilent⟩

end Alike

/-- **Completeness of the comparison.** States without a reported change decide alike
exactly if something that is looked at differs, which is then reported, or the rules
give the same rights. A rule reported as added or removed is in one of the states
only. -/
theorem compareAccessSnapshots_complete {snapshots : List AccessSnapshotRow} {earlier later : Uuid}
    {comparison : AccessComparison}
    (hcompare : compareAccessSnapshots snapshots earlier later = some comparison)
    {categories : List DocumentCategory} (hunique : (categories.map DocumentCategory.id).Nodup) :
    ∃ left ∈ snapshots, ∃ right ∈ snapshots, left.id = earlier ∧ right.id = later ∧
      ((comparison.rules = [] → comparison.owners = [] →
          DecideAlike left.state right.state categories) ↔
        Reportable left.state right.state ∨ SameRights left.state right.state categories) ∧
      (∀ key, .added key ∈ comparison.rules →
        (∃ rule ∈ right.state.rules, rule.key = key) ∧ ∀ rule ∈ left.state.rules, rule.key ≠ key) ∧
      ∀ key, .removed key ∈ comparison.rules →
        (∃ rule ∈ left.state.rules, rule.key = key) ∧
          ∀ rule ∈ right.state.rules, rule.key ≠ key := by
  simp only [compareAccessSnapshots, Option.bind_eq_bind, Option.bind_eq_some_iff, Option.pure_def,
    Option.some.injEq] at hcompare
  obtain ⟨left, hleft, right, hright, rfl⟩ := hcompare
  refine ⟨left, List.mem_of_find?_eq_some hleft, right, List.mem_of_find?_eq_some hright,
    by simpa using List.find?_some hleft, by simpa using List.find?_some hright, ?_,
    fun _ => added_only_right, fun _ => removed_only_left⟩
  rw [← and_imp, silent_iff, or_iff_not_imp_left]
  exact forall_congr' fun hsilent => decideAlike_iff hunique hsilent

/-! ## Sample -/

def mondayId : Uuid := ⟨"monday", by decide⟩

def fridayId : Uuid := ⟨"friday", by decide⟩

/-- The readers' rule for the space, after rules for its procedures. -/
def snapshotTables (rows : List AccessRuleRow)
    (hrows : (rows.map AccessRuleRow.id).Nodup) : RuleTables where
  groups := itStore.groups
  spaces := itStore.spaces
  categories := itStore.categories
  accessRules := rows
  spaceIds := itStore.spaceIds
  ruleIds := hrows

/-- The rule that keeps the readers out of the procedures. -/
def proceduresRow : AccessRuleRow :=
  accessRuleData { readersDto (some proceduresId) with grants := fun _ => false } proceduresId

def readersRow (justification : Option String) : AccessRuleRow :=
  accessRuleData { readersDto none with justification := justification } readersId

def mondayTables : RuleTables :=
  snapshotTables [proceduresRow, readersRow none] (by decide)

/-- The justification of a rule changed, which no decision reads. -/
def fridayTables : RuleTables :=
  snapshotTables [proceduresRow, readersRow (some "audit")] (by decide)

/-- The procedures are open to the readers. -/
def openTables : RuleTables := snapshotTables [readersRow none] (List.nodup_singleton _)

def weekSnapshots (friday : RuleTables) : List AccessSnapshotRow :=
  [⟨mondayId, "monday", mondayTables.accessState⟩, ⟨fridayId, "friday", friday.accessState⟩]

theorem mondayState_rules : mondayTables.accessState.rules = [proceduresRow, readersRow none] := by
  decide

theorem fridayState_rules :
    fridayTables.accessState.rules = [proceduresRow, readersRow (some "audit")] := by
  decide

theorem sameRights_week :
    SameRights mondayTables.accessState fridayTables.accessState itStore.categories where
  spaces _ := Iff.rfl
  rights _ _ _ _ _ _ _ := by
    have hsame : mondayTables.accessState.accessRules = fridayTables.accessState.accessRules := by
      rw [AccessState.accessRules, AccessState.accessRules, mondayState_rules, fridayState_rules]
      rfl
    rw [hsame]

/-- On Friday the justification of a rule is another one, and nothing is reported. -/
theorem compareAccessSnapshots_complete_week :
    ∃ comparison, compareAccessSnapshots (weekSnapshots fridayTables) mondayId fridayId =
        some comparison ∧ comparison.rules = [] ∧ comparison.owners = [] ∧
      DecideAlike mondayTables.accessState fridayTables.accessState itStore.categories := by
  have hrules : comparedRules mondayTables.accessState fridayTables.accessState = [] := by
    decide
  have howners : comparedOwners mondayTables.accessState fridayTables.accessState = [] := by
    decide
  have hcompare : compareAccessSnapshots (weekSnapshots fridayTables) mondayId fridayId = some
      ⟨true, comparedRules mondayTables.accessState fridayTables.accessState,
        comparedOwners mondayTables.accessState fridayTables.accessState, _, _⟩ := rfl
  refine ⟨_, hcompare, hrules, howners, ?_⟩
  have hunique : (itStore.categories.map DocumentCategory.id).Nodup := List.nodup_singleton _
  obtain ⟨left, hleft, right, hright, hleftId, hrightId, hcomplete, -⟩ :=
    compareAccessSnapshots_complete hcompare hunique
  obtain rfl : left = ⟨mondayId, "monday", mondayTables.accessState⟩ := by
    simp only [weekSnapshots, List.mem_cons, List.not_mem_nil, or_false] at hleft
    rcases hleft with rfl | rfl
    · rfl
    · exact absurd hleftId (by decide)
  obtain rfl : right = ⟨fridayId, "friday", fridayTables.accessState⟩ := by
    simp only [weekSnapshots, List.mem_cons, List.not_mem_nil, or_false] at hright
    rcases hright with rfl | rfl
    · exact absurd hrightId (by decide)
    · rfl
  exact hcomplete.mpr (.inr sameRights_week) hrules howners

/-- The procedures were opened to the readers, and no change is reported. -/
theorem compareAccessSnapshots_misses :
    ∃ comparison, compareAccessSnapshots (weekSnapshots openTables) mondayId fridayId =
        some comparison ∧ comparison.rules = [] ∧ comparison.owners = [] ∧
      permits asciiText (mondayTables.accessState.store itStore.groups itStore.categories) 0
          ["Readers"] .read itId (some proceduresId) = false ∧
      permits asciiText (openTables.accessState.store itStore.groups itStore.categories) 0
          ["Readers"] .read itId (some proceduresId) = true := by
  refine ⟨_, rfl, ?_, ?_, ?_, ?_⟩
  · decide
  · decide
  · decide +kernel
  · decide +kernel

end IsmsPortal
