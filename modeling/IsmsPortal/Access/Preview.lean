import IsmsPortal.Access.Monotonicity
import IsmsPortal.Foundation.JsString
import Mathlib.Algebra.Order.BigOperators.Group.List
import Mathlib.Algebra.Order.Ring.Nat
import Mathlib.Data.List.Induction

/-! # Access rules: preview and write

`bulkAccessRules` writes every rule to the row of its group, space and category,
and creates the row when there is none. `accessRuleDiff` announces what a list of
rules changes, but looks the row up by group and space alone: of several rows it
sees the last one. The announcement is right exactly when that row and the row
the write reaches agree for the purposes of the rule.
-/

namespace IsmsPortal

open Foundation

/-! ## Rows -/

/-- A row of `AccessRule` with the columns that decisions do not read. -/
structure AccessRuleRow extends AccessRule where
  id : Uuid
  lifetime : Bool
  justification : Option String
deriving DecidableEq

/-- Ids for new rows. -/
structure UuidSource where
  next : List Uuid → Uuid
  fresh : ∀ used, next used ∉ used

/-- The tables the administration of access rules works on. -/
structure RuleTables where
  groups : List DirectoryGroup
  spaces : List DocumentSpace
  categories : List DocumentCategory
  accessRules : List AccessRuleRow
  spaceIds : (spaces.map DocumentSpace.id).Nodup
  ruleIds : (accessRules.map AccessRuleRow.id).Nodup

/-- The body of a request for one rule. `grants` holds the nine permissions. -/
structure AccessRuleDto where
  groupId : Uuid
  spaceId : Uuid
  categoryId : Option Uuid
  grants : Permission → Bool
  validFrom : Option Int
  validUntil : Option Int
  lifetime : Option Bool
  justification : Option String

def accessPermissionKeys : List Permission :=
  [.showMenu, .read, .search, .preview, .download, .upload, .edit, .publish, .archive]

theorem mem_accessPermissionKeys (permission : Permission) :
    permission ∈ accessPermissionKeys := by
  cases permission <;> decide

/-- `body.lifetime ?? !body.validUntil`. -/
def AccessRuleDto.isLifetime (body : AccessRuleDto) : Bool :=
  body.lifetime.getD body.validUntil.isNone

/-- The data written for a rule, in a row with the given id. -/
def accessRuleData (body : AccessRuleDto) (id : Uuid) : AccessRuleRow where
  id := id
  groupId := body.groupId
  spaceId := body.spaceId
  categoryId := body.categoryId
  showMenu := body.grants .showMenu
  read := body.grants .read
  search := body.grants .search
  preview := body.grants .preview
  download := body.grants .download
  upload := body.grants .upload
  edit := body.grants .edit
  publish := body.grants .publish
  archive := body.grants .archive
  validFrom := body.validFrom
  lifetime := body.isLifetime
  validUntil := if body.isLifetime then none else body.validUntil
  justification := (body.justification.map JsString.trim).filter (· ≠ "")

theorem accessRuleData_allows (body : AccessRuleDto) (id : Uuid) (permission : Permission) :
    (accessRuleData body id).allows permission = body.grants permission := by
  cases permission <;> rfl

theorem accessRuleData_id (body : AccessRuleDto) (row : AccessRuleRow) :
    (accessRuleData body row.id).id = row.id := rfl

/-- Group, space and category: the columns a write looks a row up by. -/
def AccessRuleRow.target (row : AccessRuleRow) : Uuid × Uuid × Option Uuid :=
  (row.groupId, row.spaceId, row.categoryId)

def AccessRuleDto.target (body : AccessRuleDto) : Uuid × Uuid × Option Uuid :=
  (body.groupId, body.spaceId, body.categoryId)

/-! ## The write -/

namespace RuleTables

/-- `validateAccessRuleTargets`. -/
def validateAccessRuleTargets (tables : RuleTables) (body : AccessRuleDto) :
    Except String Unit := do
  unless tables.groups.any fun group => group.id = body.groupId && group.active do
    throw "Access rules require an active AD group"
  unless tables.spaces.any fun space => space.id = body.spaceId && space.deletedAt.isNone do
    throw "Access rules require an active space"
  unless body.categoryId.all fun categoryId => tables.categories.any fun category =>
      category.id = categoryId && category.spaceId = body.spaceId && category.deletedAt.isNone do
    throw "Access rules require a category in the selected space"
  if body.lifetime = some true && body.validUntil.isSome then
    throw "Lifetime access cannot have an expiry"
  if body.validFrom.any fun validFrom => body.validUntil.any (· ≤ validFrom) then
    throw "Access rule expiry must follow its start"

/-- The row a rule is written to. -/
def findTarget (tables : RuleTables) (target : Uuid × Uuid × Option Uuid) : Option AccessRuleRow :=
  tables.accessRules.find? fun row => row.target = target

/-- Write one rule: update the row it targets, or create it. -/
def saveRule (ids : UuidSource) (tables : RuleTables) (body : AccessRuleDto) : RuleTables :=
  match tables.findTarget body.target with
  | some existing =>
      { tables with
        accessRules := Table.update AccessRuleRow.id existing.id
          (fun row => accessRuleData body row.id) tables.accessRules
        ruleIds := by
          rw [Table.map_key_update (accessRuleData_id body)]
          exact tables.ruleIds }
  | none =>
      { tables with
        accessRules := tables.accessRules ++
          [accessRuleData body (ids.next (tables.accessRules.map AccessRuleRow.id))]
        ruleIds := by
          refine Table.nodup_insert tables.ruleIds fun other hother heq => ?_
          exact ids.fresh _ (List.mem_map.mpr ⟨other, hother, heq⟩) }

def saveRules (ids : UuidSource) (tables : RuleTables) (rules : List AccessRuleDto) : RuleTables :=
  rules.foldl (saveRule ids) tables

/-- `bulkAccessRules`. Every rule is validated before the first one is written. -/
def bulkAccessRules (ids : UuidSource) (tables : RuleTables) (rules : List AccessRuleDto) :
    Except String RuleTables := do
  rules.forM tables.validateAccessRuleTargets
  return tables.saveRules ids rules

end RuleTables

/-! ## The preview -/

structure PermissionChange where
  permission : Permission
  before : Bool
  after : Bool
deriving DecidableEq

structure RuleDiff where
  groupId : Uuid
  spaceId : Uuid
  newRule : Bool
  changes : List PermissionChange
deriving DecidableEq

def rowsOf (rows : List AccessRuleRow) (groupId spaceId : Uuid) : List AccessRuleRow :=
  rows.filter fun row => row.groupId = groupId && row.spaceId = spaceId

/-- The entry of a group and a space in a map built from the rows: the last row
with them. The key of the program joins the two ids by a colon, which no id holds. -/
def entryOf (rows : List AccessRuleRow) (groupId spaceId : Uuid) : Option AccessRuleRow :=
  (rowsOf rows groupId spaceId).getLast?

/-- What the preview says about a rule, given the row it found. -/
def ruleDiff (current : Option AccessRuleRow) (rule : AccessRuleDto) : RuleDiff where
  groupId := rule.groupId
  spaceId := rule.spaceId
  newRule := current.isNone
  changes := (accessPermissionKeys.filter fun permission =>
    current.any (·.allows permission) != rule.grants permission).map fun permission =>
      ⟨permission, current.any (·.allows permission), rule.grants permission⟩

def RuleDiff.isReported (entry : RuleDiff) : Bool := entry.newRule || !entry.changes.isEmpty

/-- The entry of one rule before empty entries are dropped. -/
def RuleTables.diffOf (tables : RuleTables) (rule : AccessRuleDto) : RuleDiff :=
  ruleDiff (entryOf tables.accessRules rule.groupId rule.spaceId) rule

/-- `accessRuleDiff`. -/
def RuleTables.accessRuleDiff (tables : RuleTables) (rules : List AccessRuleDto) : List RuleDiff :=
  (rules.map tables.diffOf).filter RuleDiff.isReported

/-! ## What a write does -/

section Write

variable {ids : UuidSource} {tables : RuleTables} {rule : AccessRuleDto}

namespace RuleTables

theorem saveRule_of_none (hnone : tables.findTarget rule.target = none) :
    (tables.saveRule ids rule).accessRules = tables.accessRules ++
      [accessRuleData rule (ids.next (tables.accessRules.map AccessRuleRow.id))] := by
  unfold saveRule
  split
  next hfound =>
    rw [hnone] at hfound
    cases hfound
  next => rfl

theorem saveRule_of_some {existing : AccessRuleRow}
    (hexisting : tables.findTarget rule.target = some existing) :
    (tables.saveRule ids rule).accessRules = Table.update AccessRuleRow.id existing.id
      (fun row => accessRuleData rule row.id) tables.accessRules := by
  unfold saveRule
  split
  next found hfound =>
    rw [hexisting, Option.some.injEq] at hfound
    rw [hfound]
  next hnone =>
    rw [hexisting] at hnone
    cases hnone

/-- The row a rule was written to holds the data of the rule. -/
theorem findTarget_saveRule (ids : UuidSource) (tables : RuleTables) (rule : AccessRuleDto) : ∃ id,
    (tables.saveRule ids rule).findTarget rule.target = some (accessRuleData rule id) := by
  cases hexisting : tables.findTarget rule.target with
  | none =>
      refine ⟨ids.next (tables.accessRules.map AccessRuleRow.id), ?_⟩
      rw [findTarget, saveRule_of_none hexisting, List.find?_append,
        show tables.accessRules.find? _ = none from hexisting, Option.none_or]
      simp [AccessRuleRow.target, AccessRuleDto.target, accessRuleData]
  | some existing =>
      refine ⟨existing.id, ?_⟩
      rw [findTarget, saveRule_of_some hexisting]
      refine Table.find?_update_self tables.ruleIds hexisting ?_
      simp [AccessRuleRow.target, AccessRuleDto.target, accessRuleData]

/-- Other rows are left alone. -/
theorem findTarget_saveRule_of_ne {target : Uuid × Uuid × Option Uuid}
    (hother : target ≠ rule.target) :
    (tables.saveRule ids rule).findTarget target = tables.findTarget target := by
  have hdata : ∀ id, (accessRuleData rule id).target ≠ target := fun id heq => hother heq.symm
  cases hexisting : tables.findTarget rule.target with
  | none =>
      rw [findTarget, saveRule_of_none hexisting, List.find?_append]
      simp [findTarget, hdata]
  | some existing =>
      rw [findTarget, saveRule_of_some hexisting]
      refine Table.find?_update_of_not fun row hrow hid => ?_
      have htarget : existing.target = rule.target := by simpa using List.find?_some hexisting
      rw [List.inj_on_of_nodup_map tables.ruleIds hrow (List.mem_of_find?_eq_some hexisting) hid]
      exact ⟨by simpa [htarget] using hother.symm, by simpa using hdata _⟩

theorem length_saveRule : (tables.saveRule ids rule).accessRules.length =
    tables.accessRules.length + 1 ↔ tables.findTarget rule.target = none := by
  cases hexisting : tables.findTarget rule.target with
  | none =>
      rw [saveRule_of_none hexisting]
      simp
  | some existing =>
      rw [saveRule_of_some hexisting]
      simp [Table.update]

end RuleTables

/-- The permissions of the row a rule targets when its turn in the list comes:
those of the last earlier rule with the same target, else those of the row. -/
def targetPermissions (tables : RuleTables) (earlier : List AccessRuleDto) (rule : AccessRuleDto) :
    Option (Permission → Bool) :=
  match earlier.reverse.find? fun other => other.target = rule.target with
  | some previous => some previous.grants
  | none => (tables.findTarget rule.target).map fun row => row.allows

/-- The permissions are those of the row found after the earlier rules were written. -/
theorem targetPermissions_eq (earlier : List AccessRuleDto) :
    targetPermissions tables earlier rule =
      ((tables.saveRules ids earlier).findTarget rule.target).map fun row => row.allows := by
  induction earlier using List.reverseRecOn with
  | nil => rfl
  | append_singleton earlier last ih =>
      rw [targetPermissions, List.reverse_append, List.reverse_singleton, List.singleton_append,
        List.find?_cons, RuleTables.saveRules, List.foldl_append, List.foldl_cons, List.foldl_nil]
      by_cases htarget : last.target = rule.target
      · obtain ⟨id, hfound⟩ := RuleTables.findTarget_saveRule ids
          (earlier.foldl (RuleTables.saveRule ids) tables) last
        rw [← htarget, hfound]
        simp only [decide_true, Option.map_some, Option.some.injEq]
        funext permission
        exact (accessRuleData_allows last id permission).symm
      · rw [RuleTables.findTarget_saveRule_of_ne (Ne.symm htarget)]
        simp only [htarget, decide_false]
        exact ih

end Write

/-! ## Agreement of preview and write -/

/-- Writing the rule creates a row. -/
def Creates (ids : UuidSource) (turn : RuleTables) (rule : AccessRuleDto) : Prop :=
  (turn.saveRule ids rule).accessRules.length = turn.accessRules.length + 1

/-- Writing the rule changes a permission of the row it targets. -/
def ChangesPermission (ids : UuidSource) (turn : RuleTables) (rule : AccessRuleDto) : Prop :=
  ∃ before after, turn.findTarget rule.target = some before ∧
    (turn.saveRule ids rule).findTarget rule.target = some after ∧
    ∃ permission, before.allows permission ≠ after.allows permission

/-- The preview of a rule, read from `tables`, describes its write to `turn`. -/
structure Describes (ids : UuidSource) (tables turn : RuleTables) (rule : AccessRuleDto) :
    Prop where
  reported : (tables.diffOf rule).isReported = true ↔
    Creates ids turn rule ∨ ChangesPermission ids turn rule
  newRule : (tables.diffOf rule).isReported = true →
    ((tables.diffOf rule).newRule = true ↔ Creates ids turn rule)
  before : (tables.diffOf rule).isReported = true → ∀ change ∈ (tables.diffOf rule).changes,
    change.before = (turn.findTarget rule.target).any (·.allows change.permission)

/-- The preview of a list of rules describes the write of every one of them, each
after the rules before it. -/
def PreviewMatches (ids : UuidSource) (tables : RuleTables) (rules : List AccessRuleDto) : Prop :=
  tables.accessRuleDiff rules = rules.filterMap (fun rule =>
      if (tables.diffOf rule).isReported then some (tables.diffOf rule) else none) ∧
    ∀ earlier rule later, rules = earlier ++ rule :: later →
      Describes ids tables (tables.saveRules ids earlier) rule

/-- The row shown and the row written agree for a rule: both or none are there, what
the rule changes in the first it changes in the second, and a rule that leaves
the first alone leaves the second alone. -/
def Alike (rule : Permission → Bool) :
    Option (Permission → Bool) → Option (Permission → Bool) → Prop
  | none, none => True
  | some shown, some target =>
      (∀ permission, shown permission ≠ rule permission → target permission ≠ rule permission) ∧
        (shown = rule → target = rule)
  | _, _ => False

section Agreement

variable {ids : UuidSource} {tables turn : RuleTables} {rule : AccessRuleDto}

theorem changesPermission_iff : ChangesPermission ids turn rule ↔
    ∃ before, turn.findTarget rule.target = some before ∧
      ∃ permission, before.allows permission ≠ rule.grants permission := by
  obtain ⟨id, hafter⟩ := RuleTables.findTarget_saveRule ids turn rule
  unfold ChangesPermission
  simp only [hafter, Option.some.injEq]
  constructor
  · rintro ⟨before, _, hbefore, rfl, permission, hne⟩
    exact ⟨before, hbefore, permission, accessRuleData_allows rule id permission ▸ hne⟩
  · rintro ⟨before, hbefore, permission, hne⟩
    exact ⟨before, _, hbefore, rfl, permission, accessRuleData_allows rule id permission ▸ hne⟩

theorem mem_changes {current : Option AccessRuleRow} {change : PermissionChange} :
    change ∈ (ruleDiff current rule).changes ↔
      change.before = current.any (·.allows change.permission) ∧
        change.after = rule.grants change.permission ∧ change.before ≠ change.after := by
  simp only [ruleDiff, List.mem_map, List.mem_filter, mem_accessPermissionKeys, true_and,
    bne_iff_ne]
  constructor
  · rintro ⟨permission, hne, rfl⟩
    exact ⟨rfl, rfl, hne⟩
  · intro hchange
    obtain ⟨permission, before, after⟩ := change
    obtain ⟨hbefore, hafter, hne⟩ := hchange
    dsimp only at hbefore hafter hne
    rw [hbefore, hafter] at hne
    exact ⟨permission, hne, by rw [hbefore, hafter]⟩

theorem isReported_some {row : AccessRuleRow} : (ruleDiff (some row) rule).isReported = true ↔
    ∃ permission, row.allows permission ≠ rule.grants permission := by
  have hchanges : (ruleDiff (some row) rule).isReported = true ↔
      ∃ change, change ∈ (ruleDiff (some row) rule).changes := by
    simp [RuleDiff.isReported, ruleDiff, List.eq_nil_iff_forall_not_mem]
  rw [hchanges]
  constructor
  · rintro ⟨change, hchange⟩
    obtain ⟨hbefore, hafter, hne⟩ := mem_changes.mp hchange
    refine ⟨change.permission, ?_⟩
    rwa [hbefore, hafter] at hne
  · rintro ⟨permission, hne⟩
    exact ⟨⟨permission, row.allows permission, rule.grants permission⟩,
      mem_changes.mpr ⟨rfl, rfl, hne⟩⟩

/-- Both rows are there. -/
theorem describes_rows {shown target : AccessRuleRow}
    (hshown : entryOf tables.accessRules rule.groupId rule.spaceId = some shown)
    (htarget : turn.findTarget rule.target = some target) :
    Describes ids tables turn rule ↔
      Alike rule.grants (some shown.allows) (some target.allows) := by
  have hdiff : tables.diffOf rule = ruleDiff (some shown) rule := by
    rw [RuleTables.diffOf, hshown]
  have hcreates : ¬Creates ids turn rule := by
    rw [Creates, RuleTables.length_saveRule, htarget]
    exact Option.some_ne_none target
  have hchanges : ChangesPermission ids turn rule ↔
      ∃ permission, target.allows permission ≠ rule.grants permission := by
    simp [changesPermission_iff, htarget]
  constructor
  · rintro ⟨hreported, -, hbefore⟩
    rw [hdiff, isReported_some, hchanges] at hreported
    rw [hdiff, isReported_some, htarget] at hbefore
    refine ⟨fun permission hne => ?_, fun hsame => ?_⟩
    · have hvalue : shown.allows permission = target.allows permission :=
        hbefore ⟨permission, hne⟩ ⟨permission, shown.allows permission, rule.grants permission⟩
          (mem_changes.mpr ⟨rfl, rfl, hne⟩)
      rwa [← hvalue]
    · funext permission
      by_contra hne
      obtain ⟨other, hother⟩ := hreported.mpr (.inr ⟨permission, hne⟩)
      exact hother (congrFun hsame other)
  · rintro ⟨hchanged, hunchanged⟩
    refine ⟨?_, fun _ => ?_, fun _ change hchange => ?_⟩
    · rw [hdiff, isReported_some, hchanges]
      constructor
      · rintro ⟨permission, hne⟩
        exact .inr ⟨permission, hchanged permission hne⟩
      · rintro (hcreated | ⟨permission, hne⟩)
        · exact absurd hcreated hcreates
        · by_contra hnot
          push Not at hnot
          exact hne (congrFun (hunchanged (funext hnot)) permission)
    · rw [hdiff]
      exact iff_of_false Bool.false_ne_true hcreates
    · rw [hdiff] at hchange
      obtain ⟨hbefore, hafter, hne⟩ := mem_changes.mp hchange
      rw [hbefore, hafter] at hne
      rw [hbefore, htarget]
      -- Two values that differ from a third are equal.
      exact (Bool.eq_not_of_ne hne).trans
        (Bool.eq_not_of_ne (hchanged change.permission hne)).symm

/-- A preview is right about a rule exactly when the two rows agree for it. -/
theorem describes_iff : Describes ids tables turn rule ↔
    Alike rule.grants ((entryOf tables.accessRules rule.groupId rule.spaceId).map fun row =>
      row.allows) ((turn.findTarget rule.target).map fun row => row.allows) := by
  have hcreates : Creates ids turn rule ↔ turn.findTarget rule.target = none :=
    RuleTables.length_saveRule
  cases hshown : entryOf tables.accessRules rule.groupId rule.spaceId with
  | none =>
      have hdiff : tables.diffOf rule = ruleDiff none rule := by
        rw [RuleTables.diffOf, hshown]
      cases htarget : turn.findTarget rule.target with
      | none =>
          rw [htarget] at hcreates
          refine iff_of_true ⟨?_, fun _ => ?_, fun _ change hchange => ?_⟩ trivial
          · rw [hdiff]
            exact iff_of_true rfl (.inl (hcreates.mpr rfl))
          · rw [hdiff]
            exact iff_of_true rfl (hcreates.mpr rfl)
          · rw [hdiff] at hchange
            rw [htarget]
            exact (mem_changes.mp hchange).1
      | some target =>
          refine iff_of_false (fun hdescribes => ?_) id
          have hnew := hdescribes.newRule
          rw [hdiff, hcreates, htarget] at hnew
          cases (hnew rfl).mp rfl
  | some shown =>
      cases htarget : turn.findTarget rule.target with
      | none =>
          have hdiff : tables.diffOf rule = ruleDiff (some shown) rule := by
            rw [RuleTables.diffOf, hshown]
          refine iff_of_false (fun hdescribes => ?_) id
          have hcreated := hcreates.mpr htarget
          have hnew := (hdescribes.newRule (hdescribes.reported.mpr (.inl hcreated))).mpr hcreated
          rw [hdiff] at hnew
          cases hnew
      | some target => exact describes_rows hshown htarget

theorem accessRuleDiff_eq (rules : List AccessRuleDto) :
    tables.accessRuleDiff rules = rules.filterMap fun rule =>
      if (tables.diffOf rule).isReported then some (tables.diffOf rule) else none := by
  rw [RuleTables.accessRuleDiff, List.filter_map, ← List.filterMap_eq_map,
    ← List.filterMap_eq_filter, List.filterMap_filterMap]
  apply List.filterMap_congr
  intro rule _
  by_cases hreported : (tables.diffOf rule).isReported = true
  · simp [Option.guard, hreported]
  · simp [Option.guard, hreported]

end Agreement

/-- **The preview is right exactly when it looks at the right row.** For every rule
of the list the last row of its group and space has to agree with the row of its
group, space and category at its turn. -/
theorem accessRuleDiff_matches_iff (ids : UuidSource) (tables : RuleTables)
    (rules : List AccessRuleDto) :
    PreviewMatches ids tables rules ↔
      ∀ earlier rule later, rules = earlier ++ rule :: later →
        Alike rule.grants
          ((entryOf tables.accessRules rule.groupId rule.spaceId).map fun row => row.allows)
          (targetPermissions tables earlier rule) := by
  unfold PreviewMatches
  rw [and_iff_right (accessRuleDiff_eq rules)]
  refine forall_congr' fun earlier => forall_congr' fun rule => forall_congr' fun later => ?_
  rw [describes_iff, targetPermissions_eq]

/-! ## Sample -/

/-- An id longer than all the given ones. -/
def longerId (used : List Uuid) : Uuid where
  text := String.ofList (List.replicate ((used.map fun id => id.text.length).sum + 1) 'x')
  nonempty := by
    intro hempty
    have hlength := congrArg String.length hempty
    simp at hlength

/-- Ids that grow. -/
def growingIds : UuidSource where
  next := longerId
  fresh := by
    intro used hmem
    have hle := List.le_sum_of_mem (List.mem_map_of_mem (f := fun id : Uuid => id.text.length) hmem)
    simp [longerId] at hle

/-- A rule for the readers of the space. -/
def readersDto (categoryId : Option Uuid) : AccessRuleDto where
  groupId := readersId
  spaceId := itId
  categoryId := categoryId
  grants := fun permission => permission = .read
  validFrom := none
  validUntil := none
  lifetime := none
  justification := none

/-- The readers read the space. -/
def readersTables : RuleTables where
  groups := itStore.groups
  spaces := itStore.spaces
  categories := itStore.categories
  accessRules := [accessRuleData (readersDto none) readersId]
  spaceIds := itStore.spaceIds
  ruleIds := List.nodup_singleton _

/-- A rule for the procedures is announced as no change, and creates a row. -/
theorem accessRuleDiff_misses_category :
    readersTables.bulkAccessRules growingIds [readersDto (some proceduresId)] =
      .ok (readersTables.saveRules growingIds [readersDto (some proceduresId)]) ∧
    readersTables.accessRuleDiff [readersDto (some proceduresId)] = [] ∧
    ¬PreviewMatches growingIds readersTables [readersDto (some proceduresId)] := by
  refine ⟨rfl, by decide, ?_⟩
  rintro ⟨-, hdescribes⟩
  have hreported := (hdescribes [] (readersDto (some proceduresId)) [] rfl).reported
  have hcreates : Creates growingIds readersTables (readersDto (some proceduresId)) := rfl
  exact absurd (hreported.mpr (.inl hcreates)) (by decide)

end IsmsPortal
