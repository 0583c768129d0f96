import IsmsPortal.Access.Monotonicity

/-! # Expiry and removal

When rules expire or groups disappear, access to the root of a space never
grows. Access to a category grows in one way only: a category rule of any group
replaces inheritance for its branch, so when the nearest ruled category loses its
last rule, the branch has the rights of the place above it again.
-/

namespace IsmsPortal

open Foundation

/-! ## Events -/

/-- Expiry of rules and grants while no rule begins, deactivation of a group, and
removal of groups with their rules. -/
inductive AccessEvent : AccessStore → Int → AccessStore → Int → Prop
  | expire (db : AccessStore) {now later : Int} (hlater : now ≤ later)
      (hbegins : ∀ rule ∈ db.accessRules, ∀ start, rule.validFrom = some start →
        start ≤ later → start ≤ now) : AccessEvent db now db later
  | deactivate (db : AccessStore) (now : Int) (id : Uuid) :
      AccessEvent db now (db.deactivateGroup id) now
  | delete (db : AccessStore) (now : Int) (id : Uuid) :
      AccessEvent db now (db.deleteGroup id) now
  | stale (db : AccessStore) (now : Int) (connectionId : Uuid) (synchronizedDns : List String) :
      AccessEvent db now (db.removeStaleGroups connectionId synchronizedDns) now

/-- What every such event does: active groups, rules in force, valid grants and
owners become fewer, and nothing else changes. -/
structure Shrinks (db : AccessStore) (now : Int) (after : AccessStore) (later : Int) : Prop where
  groups : ∀ id group, after.activeGroup id = some group → db.activeGroup id = some group
  rules : ∀ rule ∈ after.accessRules, rule.inForce later = true →
    rule ∈ db.accessRules ∧ rule.inForce now = true
  grants : ∀ grant ∈ after.temporaryAccessGrants, later < grant.validUntil →
    grant ∈ db.temporaryAccessGrants ∧ now < grant.validUntil
  spaces : ∀ space ∈ after.spaces, ∃ before ∈ db.spaces, before.id = space.id ∧
    before.deletedAt = space.deletedAt ∧
    ∀ owner, space.ownerGroupId = some owner → before.ownerGroupId = some owner
  categories : after.categories = db.categories

theorem shrinks_deactivate (db : AccessStore) (now : Int) (id : Uuid) :
    Shrinks db now (db.deactivateGroup id) now where
  groups := by
    intro groupId group hgroup
    rw [AccessStore.activeGroup_eq_some] at hgroup ⊢
    obtain ⟨hfound, hactive⟩ := hgroup
    simp only [AccessStore.groupOf, AccessStore.deactivateGroup, List.find?_map,
      Option.map_eq_some_iff] at hfound ⊢
    obtain ⟨before, hbefore, rfl⟩ := hfound
    have hpredicate : ((fun group : DirectoryGroup => decide (group.id = groupId)) ∘
        fun group : DirectoryGroup =>
          if group.id = id then { group with active := false } else group) =
        fun group => decide (group.id = groupId) := by
      funext other
      simp only [Function.comp_apply]
      split <;> rfl
    rw [hpredicate] at hbefore
    split at hactive
    · cases hactive
    · next hother =>
      rw [if_neg hother]
      exact ⟨hbefore, hactive⟩
  rules := fun _ hrule hforce => ⟨hrule, hforce⟩
  grants := fun _ hgrant hvalid => ⟨hgrant, hvalid⟩
  spaces := fun space hspace => ⟨space, hspace, rfl, rfl, fun _ howner => howner⟩
  categories := rfl

theorem shrinks_removeGroups (db : AccessStore) (now : Int) (ids : List Uuid) :
    Shrinks db now (db.removeGroups ids) now where
  groups := by
    intro id group hgroup
    rw [AccessStore.activeGroup_eq_some] at hgroup ⊢
    refine ⟨?_, hgroup.2⟩
    obtain ⟨hfound, -⟩ := hgroup
    simp only [AccessStore.groupOf, AccessStore.removeGroups, List.find?_filter] at hfound ⊢
    have hid : group.id ∉ ids ∧ group.id = id := by simpa using List.find?_some hfound
    rw [← hfound]
    congr 1
    funext other
    by_cases hother : other.id = id
    · simp [hother, ← hid.2, hid.1]
    · simp [hother]
  rules := fun _ hrule hforce => ⟨List.mem_of_mem_filter hrule, hforce⟩
  grants := fun _ hgrant hvalid => ⟨List.mem_of_mem_filter hgrant, hvalid⟩
  spaces := by
    intro space hspace
    obtain ⟨before, hbefore, rfl⟩ := List.mem_map.mp hspace
    refine ⟨before, hbefore, rfl, rfl, fun owner howner => ?_⟩
    exact (Option.filter_eq_some_iff.mp howner).1
  categories := rfl

theorem AccessEvent.shrinks {db after : AccessStore} {now later : Int}
    (hevent : AccessEvent db now after later) : Shrinks db now after later := by
  cases hevent with
  | expire hlater hbegins =>
    refine ⟨fun _ _ hgroup => hgroup, fun rule hrule hforce => ⟨hrule, ?_⟩,
      fun grant hgrant hvalid => ⟨hgrant, by omega⟩,
      fun space hspace => ⟨space, hspace, rfl, rfl, fun _ howner => howner⟩, rfl⟩
    simp only [AccessRule.inForce, Bool.and_eq_true, Option.all_eq_true, decide_eq_true_eq] at hforce ⊢
    refine ⟨fun start hstart => ?_, fun limit hlimit => ?_⟩
    · exact hbegins rule hrule start hstart (hforce.1 start hstart)
    · have hvalid := hforce.2 limit hlimit
      omega
  | deactivate id => exact shrinks_deactivate db now id
  | delete id => exact shrinks_removeGroups db now [id]
  | stale connectionId synchronizedDns => exact shrinks_removeGroups db now _

/-- The nearest ruled category has lost its last rule: the branch inherits from `place`,
the parent of that category or the root. -/
def Resumes (text : TextRules) (db : AccessStore) (now : Int) (after : AccessStore) (later : Int)
    (groups : List String) (permission : Permission) (spaceId categoryId : Uuid)
    (place : Option Uuid) : Prop :=
  ∃ node, nearestRuled (spaceCategories text db spaceId)
      (spaceRules text db now groups permission spaceId) categoryId = .ruled node ∧
    (∀ rule ∈ includedRules after later spaceId, rule.row.categoryId ≠ some node) ∧
    parentOf (spaceCategories text db spaceId) node = some place

section Shrinks

variable {text : TextRules} {db after : AccessStore} {now later : Int} {groups : List String}
variable {permission : Permission} {space before : DocumentSpace}
variable (hshrinks : Shrinks db now after later)

include hshrinks

theorem Shrinks.groupFilter {id : Uuid} (hfilter : groupFilter text after groups id = true) :
    IsmsPortal.groupFilter text db groups id = true := by
  simp only [IsmsPortal.groupFilter, Option.any_eq_true] at hfilter ⊢
  obtain ⟨group, hgroup, hname⟩ := hfilter
  exact ⟨group, hshrinks.groups id group hgroup, hname⟩

theorem Shrinks.includedRules {spaceId : Uuid} {rule : WithGroup AccessRule}
    (hrule : rule ∈ includedRules after later spaceId) :
    rule ∈ IsmsPortal.includedRules db now spaceId := by
  simp only [IsmsPortal.includedRules, List.mem_filterMap, List.mem_filter, Bool.and_eq_true,
    Option.map_eq_some_iff] at hrule ⊢
  obtain ⟨row, ⟨hrow, hspace, hforce⟩, group, hgroup, hincluded⟩ := hrule
  obtain ⟨hbefore, hforceBefore⟩ := hshrinks.rules row hrow hforce
  exact ⟨row, ⟨hbefore, hspace, hforceBefore⟩, group, hshrinks.groups _ group hgroup, hincluded⟩

theorem Shrinks.isOwner
    (howner : ∀ owner, space.ownerGroupId = some owner → before.ownerGroupId = some owner)
    (hafter : isOwner text groups permission (spaceRow text after later groups space) = true) :
    IsmsPortal.isOwner text groups permission (spaceRow text db now groups before) = true := by
  simp only [IsmsPortal.isOwner, spaceRow, Bool.and_eq_true, Option.any_eq_true,
    Option.map_eq_some_iff, Option.bind_eq_some_iff] at hafter ⊢
  obtain ⟨hpermission, _, ⟨group, ⟨id, hid, hgroup⟩, rfl⟩, hactive, hmember⟩ := hafter
  have hbefore := hshrinks.groups id group (AccessStore.activeGroup_eq_some.mpr ⟨hgroup, hactive⟩)
  exact ⟨hpermission, _, ⟨group, ⟨id, howner id hid, (AccessStore.activeGroup_eq_some.mp hbefore).1⟩, rfl⟩,
    hactive, hmember⟩

theorem Shrinks.includedGrants (hadmin : isAdminIdentity groups = false) {spaceId : Uuid}
    (hgrants : includedGrants text after later groups (isAdminIdentity groups) spaceId ≠ []) :
    IsmsPortal.includedGrants text db now groups (isAdminIdentity groups) spaceId ≠ [] := by
  obtain ⟨included, hincluded⟩ := List.exists_mem_of_ne_nil _ hgrants
  apply List.ne_nil_of_mem (?_ : included ∈ _)
  simp only [IsmsPortal.includedGrants, hadmin, List.mem_filterMap, List.mem_filter,
    Bool.and_eq_true, Bool.false_or, Option.map_eq_some_iff, decide_eq_true_eq] at hincluded ⊢
  obtain ⟨grant, ⟨hgrant, hspace, hfilter, hvalid⟩, group, hgroup, hrow⟩ := hincluded
  obtain ⟨hbefore, hvalidBefore⟩ := hshrinks.grants grant hgrant hvalid
  refine ⟨grant, ⟨hbefore, hspace, hshrinks.groupFilter hfilter, hvalidBefore⟩, group, ?_, hrow⟩
  simp only [IsmsPortal.groupFilter, Option.any_eq_true, AccessStore.activeGroup_eq_some] at hfilter
  obtain ⟨active, ⟨hfound, hactive⟩, -⟩ := hfilter
  obtain rfl : active = group := by simpa [hfound] using hgroup
  exact (AccessStore.activeGroup_eq_some.mp
    (hshrinks.groups _ active (AccessStore.activeGroup_eq_some.mpr ⟨hfound, hactive⟩))).1

variable (hid : before.id = space.id)
variable (howner : ∀ owner, space.ownerGroupId = some owner → before.ownerGroupId = some owner)

include hid howner

theorem Shrinks.isSelected (hdeleted : before.deletedAt = space.deletedAt) {only : Option Uuid}
    (hselected : isSelected text after later groups only space = true) :
    IsmsPortal.isSelected text db now groups only before = true := by
  simp only [IsmsPortal.isSelected, Bool.and_eq_true, Bool.or_eq_true, hid, hdeleted] at hselected ⊢
  refine ⟨hselected.1, hselected.2.imp_right fun hfilter => ?_⟩
  simp only [spaceFilter, hid, Bool.or_eq_true, List.any_eq_true, Bool.and_eq_true,
    Option.any_eq_true, decide_eq_true_eq] at hfilter ⊢
  rcases hfilter with (⟨rule, hrule, ⟨hspace, hgroup⟩, hforce⟩ | ⟨grant, hgrant, ⟨hspace, hgroup⟩,
    hvalid⟩) | ⟨owner, hof, hgroup⟩
  · obtain ⟨hbefore, hforceBefore⟩ := hshrinks.rules rule hrule hforce
    exact .inl (.inl ⟨rule, hbefore, ⟨hspace, hshrinks.groupFilter hgroup⟩, hforceBefore⟩)
  · obtain ⟨hbefore, hvalidBefore⟩ := hshrinks.grants grant hgrant hvalid
    exact .inl (.inr ⟨grant, hbefore, ⟨hspace, hshrinks.groupFilter hgroup⟩, hvalidBefore⟩)
  · exact .inr ⟨owner, howner owner hof, hshrinks.groupFilter hgroup⟩

theorem Shrinks.rootAllowed
    (hroot : rootAllowed text groups permission (spaceRow text after later groups space) = true) :
    IsmsPortal.rootAllowed text groups permission (spaceRow text db now groups before) = true := by
  by_cases hadmin : isAdminIdentity groups = true
  · simp [IsmsPortal.rootAllowed, privileged, hadmin]
  simp only [IsmsPortal.rootAllowed, Bool.or_eq_true, Bool.and_eq_true, Bool.not_eq_true',
    List.isEmpty_eq_false_iff] at hroot ⊢
  rcases hroot with ((hprivileged | hownerAfter) | hrule) | ⟨hpermission, hgrants⟩
  · exact .inl (.inl (.inl hprivileged))
  · exact .inl (.inl (.inr (hshrinks.isOwner howner hownerAfter)))
  · refine .inl (.inr ?_)
    simp only [List.any_eq_true, spaceRow, hid] at hrule ⊢
    obtain ⟨rule, hmem, hallows⟩ := hrule
    exact ⟨rule, hshrinks.includedRules hmem, hallows⟩
  · refine .inr ⟨hpermission, ?_⟩
    simp only [spaceRow, hid] at hgrants ⊢
    exact hshrinks.includedGrants (by simpa using hadmin) hgrants

/-- With fewer rules fewer categories are ruled, with smaller verdicts. -/
theorem Shrinks.verdict_mono {found : Nearest Uuid}
    (hverdict : verdict (spaceRules text after later groups permission space.id)
      (IsmsPortal.rootAllowed text groups permission (spaceRow text after later groups space))
      found = true) :
    verdict (spaceRules text db now groups permission space.id)
      (IsmsPortal.rootAllowed text groups permission (spaceRow text db now groups before))
      found = true := by
  refine IsmsPortal.verdict_mono (fun node => ?_) (hshrinks.rootAllowed hid howner) hverdict
  simp only [spaceRules, override_categoryRules, List.any_eq_true]
  rintro ⟨rule, hrule, hallows⟩
  exact ⟨rule, hshrinks.includedRules hrule, hallows⟩

/-- A denied category is granted exactly if its branch inherits from a granted place. -/
theorem Shrinks.granted_category_iff {categoryId : Uuid}
    (hdenied : ¬Granted text db now groups permission before (some categoryId)) :
    Granted text after later groups permission space (some categoryId) ↔
      ∃ place, Resumes text db now after later groups permission space.id categoryId place ∧
        Granted text after later groups permission space place := by
  have hcategories : spaceCategories text after space.id = spaceCategories text db space.id := by
    rw [spaceCategories, spaceCategories, hshrinks.categories]
  have hnearest (node : Uuid) : nearestRuled (spaceCategories text db space.id)
      (spaceRules text db now groups permission space.id) categoryId = .ruled node ↔
      Nearest.Climbs (parentOf (spaceCategories text db space.id))
        (isRuled (spaceRules text db now groups permission space.id)) (some categoryId)
        (.ruled node) :=
    (Nearest.climbs_iff_of_search (search_eq_nearestRuled _ _ _) (by simp)).symm
  have hlost (node : Uuid) : (∀ rule ∈ IsmsPortal.includedRules after later space.id,
      rule.row.categoryId ≠ some node) ↔
      isRuled (spaceRules text after later groups permission space.id) node = false := by
    simp [spaceRules, isRuled_categoryRules]
  by_cases hall : (privileged groups permission || IsmsPortal.isOwner text groups permission
      (spaceRow text db now groups before)) = true
  · -- An identity with every category is denied only what is no live category.
    rw [granted_of_unrestricted hall, hid] at hdenied
    constructor
    · intro hgranted
      exact absurd (hcategories ▸ hgranted.mem_ids) hdenied
    · rintro ⟨place, ⟨node, hnode, -, -⟩, -⟩
      exact absurd (climbs_node ((hnearest node).mp hnode)) hdenied
  · simp only [Bool.or_eq_true, not_or, Bool.not_eq_true] at hall
    have hplain : moderatorCan groups permission = false := privileged_eq ▸ hall.1
    have hownerAfter : IsmsPortal.isOwner text groups permission
        (spaceRow text after later groups space) = false := by
      rw [← Bool.not_eq_true]
      exact fun hafter => absurd (hshrinks.isOwner howner hafter) (by simp [hall.2])
    have hfewer (node : Uuid)
        (hruled : isRuled (spaceRules text after later groups permission space.id) node = true) :
        isRuled (spaceRules text db now groups permission space.id) node = true := by
      rw [spaceRules, isRuled_categoryRules, List.any_eq_true] at hruled ⊢
      obtain ⟨rule, hrule, hcategory⟩ := hruled
      exact ⟨rule, hshrinks.includedRules hrule, hcategory⟩
    rw [granted_iff_climbs hplain hall.2, hid] at hdenied
    simp only [granted_iff_climbs hplain hownerAfter, hcategories]
    constructor
    · rintro ⟨found, hclimbs, hverdict⟩
      rcases hclimbs.of_fewer hfewer with hsame | ⟨node, hnode, hplainAfter⟩
      · exact absurd ⟨found, hsame, hshrinks.verdict_mono hid howner hverdict⟩ hdenied
      · obtain ⟨place, hplace⟩ := Option.isSome_iff_exists.mp hnode.isSome
        exact ⟨place, ⟨node, (hnearest node).mpr hnode, (hlost node).mpr hplainAfter, hplace⟩,
          found, (hnode.resumes_iff hfewer hplainAfter hplace).mp hclimbs, hverdict⟩
    · rintro ⟨place, ⟨node, hnode, hrules, hplace⟩, found, hclimbs, hverdict⟩
      exact ⟨found, (((hnearest node).mp hnode).resumes_iff hfewer ((hlost node).mp hrules)
        hplace).mpr hclimbs, hverdict⟩

omit hid howner in
/-- A selected space was selected before the event. -/
theorem Shrinks.selected {only : Option Uuid} (hspace : space ∈ after.spaces)
    (hselected : IsmsPortal.isSelected text after later groups only space = true) :
    ∃ before ∈ db.spaces, before.id = space.id ∧
      (∀ owner, space.ownerGroupId = some owner → before.ownerGroupId = some owner) ∧
      IsmsPortal.isSelected text db now groups only before = true := by
  obtain ⟨before, hbefore, hid, hdeleted, howner⟩ := hshrinks.spaces space hspace
  exact ⟨before, hbefore, hid, howner, hshrinks.isSelected hid howner hdeleted hselected⟩

end Shrinks

/-- **Expiry and removal.** What was not granted on the root of a space is not
granted after the event. A category that was not granted is granted after it
exactly if the nearest ruled category has lost its last rule and the place from
which the branch then inherits, its parent or the root, is granted. -/
theorem access_not_widened {db after : AccessStore} {now later : Int}
    (hevent : AccessEvent db now after later) (text : TextRules) (groups : List String)
    (permissions : List Permission) (only : Option Uuid) (permission : Permission)
    (spaceId categoryId : Uuid) :
    (¬GrantsRoot text db now groups permissions only permission spaceId →
      ¬GrantsRoot text after later groups permissions only permission spaceId) ∧
    (¬GrantsCategory text db now groups permissions only permission spaceId categoryId →
      (GrantsCategory text after later groups permissions only permission spaceId categoryId ↔
        ∃ place, Resumes text db now after later groups permission spaceId categoryId place ∧
          GrantsPlace text after later groups permissions only permission spaceId place)) := by
  have hshrinks := hevent.shrinks
  rw [← grantsPlace_root, ← grantsPlace_root, ← grantsPlace_category, ← grantsPlace_category]
  simp only [grantsPlace_iff]
  constructor
  · rintro hdenied ⟨hpermission, hnonempty, space, hspace, rfl, hselected, hroot⟩
    obtain ⟨before, hbefore, hid, howner, hselectedBefore⟩ := hshrinks.selected hspace hselected
    refine hdenied ⟨hpermission, hnonempty, before, hbefore, hid, hselectedBefore, ?_⟩
    rw [granted_root] at hroot ⊢
    exact hshrinks.rootAllowed hid howner hroot
  · intro hdenied
    constructor
    · rintro ⟨hpermission, hnonempty, space, hspace, rfl, hselected, hcategory⟩
      obtain ⟨before, hbefore, hid, howner, hselectedBefore⟩ := hshrinks.selected hspace hselected
      have hdeniedBefore : ¬Granted text db now groups permission before (some categoryId) :=
        fun hgranted => hdenied
          ⟨hpermission, hnonempty, before, hbefore, hid, hselectedBefore, hgranted⟩
      obtain ⟨place, hresumes, hplace⟩ :=
        (hshrinks.granted_category_iff hid howner hdeniedBefore).mp hcategory
      exact ⟨place, hresumes, hpermission, hnonempty, space, hspace, rfl, hselected, hplace⟩
    · rintro ⟨place, hresumes, hpermission, hnonempty, space, hspace, rfl, hselected, hplace⟩
      obtain ⟨before, hbefore, hid, howner, hselectedBefore⟩ := hshrinks.selected hspace hselected
      have hdeniedBefore : ¬Granted text db now groups permission before (some categoryId) :=
        fun hgranted => hdenied
          ⟨hpermission, hnonempty, before, hbefore, hid, hselectedBefore, hgranted⟩
      have hcategory := (hshrinks.granted_category_iff hid howner hdeniedBefore).mpr
        ⟨place, hresumes, hplace⟩
      exact ⟨hpermission, hnonempty, space, hspace, rfl, hselected, hcategory⟩

theorem nearestRuled_procedures :
    nearestRuled (spaceCategories asciiText itStore itId)
      (spaceRules asciiText itStore 0 ["Readers"] .read itId) proceduresId =
        .ruled proceduresId := by
  decide +kernel

/-- The auditors' rule opens nothing else to them when it expires. Readers get the
procedures when it does, and not when the readers' group is deleted. -/
theorem access_not_widened_readers :
    ¬GrantsRoot asciiText itStore 20 ["Auditors"] [.read] none .read itId ∧
    GrantsCategory asciiText itStore 20 ["Readers"] [.read] none .read itId proceduresId ∧
    ¬GrantsCategory asciiText (itStore.deleteGroup readersId) 0 ["Readers"] [.read] none .read itId
      proceduresId := by
  have hdenied : ¬GrantsCategory asciiText itStore 0 ["Readers"] [.read] none .read itId
      proceduresId := by decide +kernel
  have hexpiry : AccessEvent itStore 0 itStore 20 := .expire itStore (by decide) (by decide)
  refine ⟨?_, ?_, ?_⟩
  · apply (access_not_widened hexpiry asciiText ["Auditors"] [.read] none .read itId
      proceduresId).1
    decide +kernel
  · rw [(access_not_widened hexpiry asciiText ["Readers"] [.read] none .read itId
      proceduresId).2 hdenied]
    refine ⟨none, ⟨proceduresId, nearestRuled_procedures, by decide, by decide +kernel⟩, ?_⟩
    rw [grantsPlace_root]
    decide +kernel
  · rw [(access_not_widened (.delete itStore 0 readersId) asciiText ["Readers"] [.read] none .read
      itId proceduresId).2 hdenied]
    rintro ⟨place, ⟨node, hnode, hlost, -⟩, -⟩
    rw [nearestRuled_procedures, Nearest.ruled.injEq] at hnode
    subst hnode
    revert hlost
    decide

/-- When the auditors' rule expires, the procedures inherit the readers' rule. -/
theorem expiry_widens : AccessEvent itStore 0 itStore 20 ∧
    ¬GrantsCategory asciiText itStore 0 ["Readers"] [.read] none .read itId proceduresId ∧
    GrantsCategory asciiText itStore 20 ["Readers"] [.read] none .read itId proceduresId := by
  refine ⟨.expire itStore (by decide) (by decide), ?_, ?_⟩
  · decide +kernel
  · decide +kernel

end IsmsPortal
