import IsmsPortal.Access.Monotonicity
import Mathlib.Data.List.Nodup

/-! # The decisions for a space

Three answers to one question: `can` without a category, which counts with a
query of its own, `can` with the null category, and the root of the space in
`permittedSpacesFor`. They agree except for moderators who lack the marker for
the permission and are in the active owner group: the query drops the owner
clause for every moderator.
-/

namespace IsmsPortal

open Foundation

/-- The database compares names as the program does, in lower case. -/
def TextRules.Agrees (text : TextRules) : Prop :=
  ∀ column value, text.equalsInsensitive column value = true ↔
    text.toLowerCase value = text.toLowerCase column

/-- A rule in force of one of the identity's groups gives the permission on the root. -/
def rootRule (text : TextRules) (db : AccessStore) (now : Int) (groups : List String)
    (permission : Permission) (spaceId : Uuid) : Bool :=
  (includedRules db now spaceId).any fun rule =>
    rule.row.categoryId.isNone && ruleAllows text groups permission rule

section Queries

variable {text : TextRules} (hagrees : text.Agrees) {db : AccessStore} {now : Int}
variable {groups : List String} {permission : Permission}

include hagrees

theorem groupFilter_iff {id : Uuid} :
    groupFilter text db groups id = true ↔
      ∃ group, db.activeGroup id = some group ∧ hasGroup text groups group.name = true := by
  simp only [groupFilter, hasGroup, Option.any_eq_true, List.any_eq_true, hagrees _ _,
    decide_eq_true_eq]

/-- The rule clause of the count is the root rule of the decision. -/
theorem countRule_iff {spaceId : Uuid} :
    (db.accessRules.any fun rule => rule.spaceId = spaceId && rule.categoryId.isNone &&
        groupFilter text db groups rule.groupId && rule.allows permission && rule.inForce now) =
      true ↔ rootRule text db now groups permission spaceId = true := by
  simp only [rootRule, includedRules, ruleAllows, List.any_eq_true, List.mem_filterMap,
    List.mem_filter, Option.map_eq_some_iff, Bool.and_eq_true, groupFilter_iff hagrees]
  constructor
  · rintro ⟨rule, hrule, (⟨⟨⟨hspace, hroot⟩, group, hgroup, hmember⟩, hallows⟩), hforce⟩
    exact ⟨⟨rule, group.name⟩, ⟨rule, ⟨hrule, hspace, hforce⟩, group, hgroup, rfl⟩, hroot, hmember,
      hallows⟩
  · rintro ⟨_, ⟨rule, ⟨hrule, hspace, hforce⟩, group, hgroup, rfl⟩, hroot, hmember, hallows⟩
    exact ⟨rule, hrule, ⟨⟨⟨hspace, hroot⟩, group, hgroup, hmember⟩, hallows⟩, hforce⟩

/-- The owner clause of the queries is the ownership of the decision. -/
theorem ownerFilter_iff {space : DocumentSpace} :
    (permission ≠ .download ∧ space.ownerGroupId.any (groupFilter text db groups) = true) ↔
      isOwner text groups permission (spaceRow text db now groups space) = true := by
  simp only [isOwner, spaceRow, Bool.and_eq_true, decide_eq_true_eq, Option.any_eq_true,
    groupFilter_iff hagrees, Option.map_eq_some_iff, Option.bind_eq_some_iff, AccessStore.activeGroup_eq_some]
  refine and_congr_right fun _ => ?_
  constructor
  · rintro ⟨id, hid, group, ⟨hgroup, hactive⟩, hmember⟩
    exact ⟨_, ⟨group, ⟨id, hid, hgroup⟩, rfl⟩, hactive, hmember⟩
  · rintro ⟨_, ⟨group, ⟨id, hid, hgroup⟩, rfl⟩, hactive, hmember⟩
    exact ⟨id, hid, group, ⟨hgroup, hactive⟩, hmember⟩

omit hagrees in
/-- The grant clause of the queries: the identity has a valid temporary grant. -/
theorem grantFilter_iff {spaceId : Uuid} :
    (db.temporaryAccessGrants.any fun grant => grant.spaceId = spaceId &&
        groupFilter text db groups grant.groupId && now < grant.validUntil) = true ↔
      includedGrants text db now groups false spaceId ≠ [] := by
  constructor
  · intro hany
    simp only [List.any_eq_true, Bool.and_eq_true, decide_eq_true_eq] at hany
    obtain ⟨grant, hgrant, ⟨hspace, hfilter⟩, hvalid⟩ := hany
    have hfound := hfilter
    simp only [groupFilter, Option.any_eq_true, AccessStore.activeGroup_eq_some] at hfound
    obtain ⟨group, ⟨hgroup, -⟩, -⟩ := hfound
    apply List.ne_nil_of_mem (?_ : (⟨grant, group.name⟩ : WithGroup _) ∈ _)
    simp only [includedGrants, List.mem_filterMap, List.mem_filter, Bool.false_or,
      Bool.and_eq_true, decide_eq_true_eq, Option.map_eq_some_iff]
    exact ⟨grant, ⟨hgrant, hspace, hfilter, hvalid⟩, group, hgroup, rfl⟩
  · intro hsome
    obtain ⟨included, hincluded⟩ := List.exists_mem_of_ne_nil _ hsome
    simp only [includedGrants, List.mem_filterMap, List.mem_filter, Bool.false_or,
      Bool.and_eq_true, decide_eq_true_eq] at hincluded
    obtain ⟨grant, ⟨hgrant, hspace, hfilter, hvalid⟩, -⟩ := hincluded
    simp only [List.any_eq_true, Bool.and_eq_true, decide_eq_true_eq]
    exact ⟨grant, hgrant, ⟨hspace, hfilter⟩, hvalid⟩

end Queries

/-! ## Each decision -/

section Decisions

variable {text : TextRules} {db : AccessStore} {now : Int} {groups : List String}
variable {permission : Permission} {space : DocumentSpace}

theorem moderatorCan_moderator (hcan : moderatorCan groups permission = true) :
    isAdminIdentity groups = true ∨ isModeratorIdentity groups = true := by
  unfold moderatorCan at hcan
  split at hcan
  next hadmin => exact .inl hadmin
  next =>
    split at hcan
    · cases hcan
    next hmoderator => exact .inr (by simpa using hmoderator)

theorem admin_of_plain (hplain : moderatorCan groups permission = false) :
    isAdminIdentity groups = false := by
  by_contra hadmin
  simp [moderatorCan, hadmin] at hplain

/-- Without privilege, the root is allowed by ownership, a rule or a grant. -/
theorem rootAllowed_iff (hplain : moderatorCan groups permission = false) :
    rootAllowed text groups permission (spaceRow text db now groups space) = true ↔
      isOwner text groups permission (spaceRow text db now groups space) = true ∨
      rootRule text db now groups permission space.id = true ∨
      temporaryGrantPermissions.contains permission = true ∧
        includedGrants text db now groups false space.id ≠ [] := by
  have hadmin := admin_of_plain hplain
  simp only [rootAllowed, privileged_eq, hplain, Bool.false_or, Bool.or_eq_true, Bool.and_eq_true,
    Bool.not_eq_true', List.isEmpty_eq_false_iff, or_assoc]
  simp only [spaceRow, rootRule, hadmin]

/-- A space whose root is allowed passes the condition of the query. -/
theorem isSelected_of_rootAllowed (hagrees : text.Agrees) {only : Option Uuid}
    (honly : only.all (· = space.id) = true) (halive : space.deletedAt = none)
    (hroot : rootAllowed text groups permission (spaceRow text db now groups space) = true) :
    isSelected text db now groups only space = true := by
  simp only [isSelected, halive, Option.isNone_none, honly, Bool.true_and, Bool.or_eq_true]
  cases hplain : moderatorCan groups permission with
  | true => exact .inl (moderatorCan_moderator hplain)
  | false =>
    right
    simp only [spaceFilter, Bool.or_eq_true]
    rcases (rootAllowed_iff hplain).mp hroot with howner | hrule | ⟨-, hgrants⟩
    · exact .inr ((ownerFilter_iff hagrees).mpr howner).2
    · left
      left
      rw [← countRule_iff hagrees, List.any_eq_true] at hrule
      obtain ⟨rule, hmem, hclause⟩ := hrule
      rw [List.any_eq_true]
      simp only [Bool.and_eq_true] at hclause ⊢
      exact ⟨rule, hmem, ⟨hclause.1.1.1.1, hclause.1.1.2⟩, hclause.2⟩
    · exact .inl (.inr (grantFilter_iff.mpr hgrants))

theorem space_unique {other : DocumentSpace} (hspace : space ∈ db.spaces)
    (hother : other ∈ db.spaces) (hid : other.id = space.id) : other = space :=
  List.inj_on_of_nodup_map db.spaceIds hother hspace hid

/-- `permittedSpacesFor` grants the root exactly when it is allowed. -/
theorem grantsRoot_iff (hagrees : text.Agrees) (hnonempty : groups ≠ [])
    (hspace : space ∈ db.spaces) (halive : space.deletedAt = none) {only : Option Uuid}
    (honly : only.all (· = space.id) = true) :
    GrantsRoot text db now groups [permission] only permission space.id ↔
      rootAllowed text groups permission (spaceRow text db now groups space) = true := by
  constructor
  · rintro ⟨permitted, hpermitted, hid, hroot⟩
    obtain ⟨-, -, other, hother, -, rfl, -⟩ := mem_permittedSpacesFor.mp hpermitted
    exact space_unique hspace hother hid ▸ hroot
  · intro hroot
    refine ⟨decideSpace text groups permission (spaceRow text db now groups space), ?_, rfl, hroot⟩
    exact mem_permittedSpacesFor.mpr ⟨List.mem_singleton.mpr rfl, hnonempty, space, hspace,
      isSelected_of_rootAllowed hagrees honly halive hroot, rfl, .inl hroot⟩

/-- `can` with a category is the check of the decision for the space. -/
theorem can_category_iff (hplain : moderatorCan groups permission = false) {spaceId : Uuid}
    {category : Option Uuid} :
    can text db now groups spaceId permission (some category) = true ↔
      groups ≠ [] ∧ ∃ space ∈ db.spaces, space.id = spaceId ∧
        isSelected text db now groups (some spaceId) space = true ∧
        categoryAllowed (some (decideSpace text groups permission
          (spaceRow text db now groups space)).scope) category = true := by
  unfold can
  rw [← privileged, privileged_eq, hplain, if_neg Bool.false_ne_true]
  split
  next hempty =>
    rw [List.isEmpty_iff] at hempty
    simp [hempty]
  next =>
    rw [scopeAllowed_iff]
    simp only [List.mem_singleton, true_and]

/-- `can` with the null category is the root of the decision. -/
theorem can_null_iff (hagrees : text.Agrees) (hnonempty : groups ≠ [])
    (hspace : space ∈ db.spaces) (halive : space.deletedAt = none)
    (hplain : moderatorCan groups permission = false) :
    can text db now groups space.id permission (some none) = true ↔
      rootAllowed text groups permission (spaceRow text db now groups space) = true := by
  rw [can_category_iff hplain]
  simp only [categoryAllowed, SpaceWithRule.scope, decideSpace, Option.some.injEq,
    decide_eq_true_eq]
  constructor
  · rintro ⟨-, other, hother, hid, -, hroot⟩
    exact space_unique hspace hother hid ▸ hroot
  · intro hroot
    exact ⟨hnonempty, space, hspace, rfl,
      isSelected_of_rootAllowed hagrees (by simp) halive hroot, hroot⟩

/-- `can` without a category: the clauses of the count. For a moderator only the
rule clause is left. -/
theorem can_omitted_iff (hagrees : text.Agrees) (hnonempty : groups ≠ [])
    (hspace : space ∈ db.spaces) (halive : space.deletedAt = none)
    (hplain : moderatorCan groups permission = false) :
    can text db now groups space.id permission none = true ↔
      (isModeratorIdentity groups = false ∧
        isOwner text groups permission (spaceRow text db now groups space) = true) ∨
      rootRule text db now groups permission space.id = true ∨
      (isModeratorIdentity groups = false ∧ temporaryGrantPermissions.contains permission = true ∧
        includedGrants text db now groups false space.id ≠ []) := by
  have hadmin := admin_of_plain hplain
  unfold can
  rw [← privileged, privileged_eq, hplain, if_neg Bool.false_ne_true,
    if_neg (by simpa using hnonempty)]
  simp only [countSpaces, hadmin, Bool.false_or, decide_eq_true_eq, List.countP_pos_iff,
    Bool.and_eq_true, Bool.or_eq_true, Bool.not_eq_true', Option.isNone_iff_eq_none,
    countRule_iff hagrees, or_assoc]
  rw [← ownerFilter_iff hagrees, ← grantFilter_iff]
  constructor
  · rintro ⟨other, hother, ⟨hid, -⟩, hclause⟩
    obtain rfl := space_unique hspace hother hid
    exact hclause.imp (fun howner => ⟨howner.1.1, by simpa using howner.1.2, howner.2⟩)
      (Or.imp_right fun hgrant => ⟨hgrant.1.1, hgrant.1.2, hgrant.2⟩)
  · intro hclause
    refine ⟨space, hspace, ⟨rfl, halive⟩, ?_⟩
    exact hclause.imp (fun howner => ⟨⟨howner.1, by simpa using howner.2.1⟩, howner.2.2⟩)
      (Or.imp_right fun hgrant => ⟨⟨hgrant.1, hgrant.2.1⟩, hgrant.2.2⟩)

theorem not_granted_of_moderator (hmoderator : isModeratorIdentity groups = true)
    (hplain : moderatorCan groups permission = false) :
    temporaryGrantPermissions.contains permission = false := by
  have hadmin := admin_of_plain hplain
  cases permission
  case publish => decide
  case archive => decide
  all_goals simp [moderatorCan, hadmin, hmoderator] at hplain

/-- **Agreement.** The three decisions for the root of a space are equal, except
for moderators without the marker of the permission whom only the active owner
group lets in. -/
theorem space_decisions_agree (hagrees : text.Agrees) (hnonempty : groups ≠ [])
    (hspace : space ∈ db.spaces) (halive : space.deletedAt = none) :
    (can text db now groups space.id permission none =
        can text db now groups space.id permission (some none) ∧
      (can text db now groups space.id permission (some none) = true ↔
        GrantsRoot text db now groups [permission] none permission space.id)) ↔
      ¬(isModeratorIdentity groups = true ∧ moderatorCan groups permission = false ∧
        isOwner text groups permission (spaceRow text db now groups space) = true ∧
        rootRule text db now groups permission space.id = false) := by
  have hgrants : GrantsRoot text db now groups [permission] none permission space.id ↔
      rootAllowed text groups permission (spaceRow text db now groups space) = true :=
    grantsRoot_iff hagrees hnonempty hspace halive rfl
  cases hplain : moderatorCan groups permission with
  | true =>
      have hcan : ∀ category, can text db now groups space.id permission category = true := by
        intro category
        simp [can, hplain]
      have hroot : rootAllowed text groups permission (spaceRow text db now groups space) = true := by
        simp [rootAllowed, privileged_eq, hplain]
      simp [hcan, hgrants, hroot]
  | false =>
      have hnull : can text db now groups space.id permission (some none) = true ↔ _ :=
        can_null_iff hagrees hnonempty hspace halive hplain
      have homitted : can text db now groups space.id permission none = true ↔ _ :=
        can_omitted_iff hagrees hnonempty hspace halive hplain
      rw [rootAllowed_iff hplain] at hnull hgrants
      rw [hgrants, hnull, Bool.eq_iff_iff, hnull, homitted]
      cases hmoderator : isModeratorIdentity groups with
      | false => simp
      | true =>
          rw [not_granted_of_moderator hmoderator hplain]
          cases rootRule text db now groups permission space.id <;> simp

end Decisions

/-! ## Sample -/

/-- The readers own the space. -/
def ownedStore : AccessStore := { itStore with spaces := [⟨itId, "it", some readersId, none⟩] }

theorem asciiText_agrees : asciiText.Agrees := by
  intro column value
  simp only [asciiText, decide_eq_true_eq]
  exact eq_comm

/-- An owner who is no moderator publishes by all three decisions. -/
theorem space_decisions_agree_owner :
    can asciiText ownedStore 0 ["Readers"] itId .publish none = true ∧
    can asciiText ownedStore 0 ["Readers"] itId .publish none =
      can asciiText ownedStore 0 ["Readers"] itId .publish (some none) ∧
    (can asciiText ownedStore 0 ["Readers"] itId .publish (some none) = true ↔
      GrantsRoot asciiText ownedStore 0 ["Readers"] [.publish] none .publish itId) := by
  refine ⟨by decide +kernel, ?_⟩
  have hspace : (⟨itId, "it", some readersId, none⟩ : DocumentSpace) ∈ ownedStore.spaces :=
    List.mem_singleton.mpr rfl
  apply (space_decisions_agree asciiText_agrees (by decide) hspace rfl).mpr
  rintro ⟨hmoderator, -⟩
  exact absurd hmoderator (by decide)

/-- The same owner, now also a moderator without the marker for publication: the
count refuses what the category decision allows. -/
theorem moderator_owner_disagrees :
    can asciiText ownedStore 0 ["Readers", "ISMS-MODERATOR-MANAGE"] itId .publish none = false ∧
    can asciiText ownedStore 0 ["Readers", "ISMS-MODERATOR-MANAGE"] itId .publish (some none) =
      true ∧
    GrantsRoot asciiText ownedStore 0 ["Readers", "ISMS-MODERATOR-MANAGE"] [.publish] none .publish
      itId := by
  decide +kernel

end IsmsPortal
