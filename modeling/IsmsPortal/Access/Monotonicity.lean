import IsmsPortal.Access.Resolution

/-! # More groups

An identity with more groups keeps every permission. The rules read for a space
do not depend on the identity, so the same categories are ruled, and every
part of the decision grows with the groups: the marker groups, ownership, the
verdicts of rules, temporary grants, and the condition of the query.
-/

namespace IsmsPortal

open Foundation

section Groups

variable {text : TextRules} {db : AccessStore} {now : Int} {groups wider : List String}
variable {permission : Permission}
variable (hgroups : ∀ name ∈ groups, name ∈ wider)

include hgroups

theorem contains_mono {marker : String} (hmarker : groups.contains marker = true) :
    wider.contains marker = true := by
  rw [List.contains_iff_mem] at hmarker ⊢
  exact hgroups marker hmarker

/-- Marker groups give permissions and take none. -/
theorem privileged_mono (hprivileged : privileged groups permission = true) :
    privileged wider permission = true := by
  simp only [privileged, moderatorCan, Bool.or_eq_true] at hprivileged ⊢
  by_cases hwider : isAdminIdentity wider = true
  · exact .inl hwider
  have hadmin : ¬isAdminIdentity groups = true := fun hadmin => hwider (contains_mono hgroups hadmin)
  simp only [hadmin, hwider, false_or, if_false, Bool.false_eq_true] at hprivileged ⊢
  split at hprivileged
  · cases hprivileged
  next hmoderator =>
  rw [if_neg]
  · cases permission
    case publish => exact contains_mono hgroups hprivileged
    case archive => exact contains_mono hgroups hprivileged
    all_goals rfl
  · simp only [Bool.not_eq_true', Bool.not_eq_false] at hmoderator ⊢
    exact contains_mono hgroups hmoderator

theorem groupFilter_mono {id : Uuid} (hfilter : groupFilter text db groups id = true) :
    groupFilter text db wider id = true := by
  simp only [groupFilter, Option.any_eq_true, List.any_eq_true] at hfilter ⊢
  obtain ⟨group, hgroup, name, hname, hequal⟩ := hfilter
  exact ⟨group, hgroup, name, hgroups name hname, hequal⟩

theorem spaceFilter_mono {space : DocumentSpace}
    (hfilter : spaceFilter text db now groups space = true) :
    spaceFilter text db now wider space = true := by
  simp only [spaceFilter, Bool.or_eq_true, List.any_eq_true, Bool.and_eq_true,
    Option.any_eq_true] at hfilter ⊢
  rcases hfilter with (⟨rule, hrule, ⟨hspace, hgroup⟩, hforce⟩ | ⟨grant, hgrant, ⟨hspace, hgroup⟩,
    hvalid⟩) | ⟨owner, howner, hgroup⟩
  · exact .inl (.inl ⟨rule, hrule, ⟨hspace, groupFilter_mono hgroups hgroup⟩, hforce⟩)
  · exact .inl (.inr ⟨grant, hgrant, ⟨hspace, groupFilter_mono hgroups hgroup⟩, hvalid⟩)
  · exact .inr ⟨owner, howner, groupFilter_mono hgroups hgroup⟩

theorem isSelected_mono {only : Option Uuid} {space : DocumentSpace}
    (hselected : isSelected text db now groups only space = true) :
    isSelected text db now wider only space = true := by
  simp only [isSelected, Bool.and_eq_true, Bool.or_eq_true] at hselected ⊢
  refine ⟨hselected.1, ?_⟩
  rcases hselected.2 with (hadmin | hmoderator) | hfilter
  · exact .inl (.inl (contains_mono hgroups hadmin))
  · exact .inl (.inr (contains_mono hgroups hmoderator))
  · exact .inr (spaceFilter_mono hgroups hfilter)

theorem isOwner_mono {space : DocumentSpace}
    (howner : isOwner text groups permission (spaceRow text db now groups space) = true) :
    isOwner text wider permission (spaceRow text db now wider space) = true := by
  simp only [isOwner, spaceRow, Bool.and_eq_true, Option.any_eq_true] at howner ⊢
  obtain ⟨hpermission, owner, hrow, hactive, hmember⟩ := howner
  exact ⟨hpermission, owner, hrow, hactive, hasGroup_mono hgroups hmember⟩

/-- A temporary grant of the identity stays one, or the identity is administrator. -/
theorem includedGrants_mono {spaceId : Uuid}
    (hgrants : includedGrants text db now groups (isAdminIdentity groups) spaceId ≠ []) :
    includedGrants text db now wider (isAdminIdentity wider) spaceId ≠ [] := by
  obtain ⟨included, hincluded⟩ := List.exists_mem_of_ne_nil _ hgrants
  apply List.ne_nil_of_mem (?_ : included ∈ _)
  simp only [includedGrants, List.mem_filterMap, List.mem_filter, Bool.and_eq_true,
    Bool.or_eq_true] at hincluded ⊢
  obtain ⟨grant, ⟨hgrant, hspace, hown⟩, hgroup⟩ := hincluded
  refine ⟨grant, ⟨hgrant, hspace, ?_⟩, hgroup⟩
  rcases hown with hadmin | ⟨hfilter, hvalid⟩
  · exact .inl (contains_mono hgroups hadmin)
  · exact .inr ⟨groupFilter_mono hgroups hfilter, hvalid⟩

theorem rootAllowed_mono {space : DocumentSpace}
    (hroot : rootAllowed text groups permission (spaceRow text db now groups space) = true) :
    rootAllowed text wider permission (spaceRow text db now wider space) = true := by
  simp only [rootAllowed, Bool.or_eq_true, Bool.and_eq_true, Bool.not_eq_true',
    List.isEmpty_eq_false_iff] at hroot ⊢
  rcases hroot with ((hprivileged | howner) | hrule) | ⟨hpermission, hgrants⟩
  · exact .inl (.inl (.inl (privileged_mono hgroups hprivileged)))
  · exact .inl (.inl (.inr (isOwner_mono hgroups howner)))
  · refine .inl (.inr ?_)
    simp only [List.any_eq_true, Bool.and_eq_true, spaceRow] at hrule ⊢
    obtain ⟨rule, hmem, hcategory, hallows⟩ := hrule
    exact ⟨rule, hmem, hcategory, ruleAllows_mono hgroups hallows⟩
  · exact .inr ⟨hpermission, includedGrants_mono hgroups hgrants⟩

theorem allowedCategories_mono {space : DocumentSpace} :
    allowedCategories text groups permission (spaceRow text db now groups space) ⊆
      allowedCategories text wider permission (spaceRow text db now wider space) := by
  intro id hid
  unfold allowedCategories at hid ⊢
  split
  next =>
    -- A privileged identity or an owner has every category.
    split at hid
    · exact hid
    · exact (mem_resolveCategories.mp hid).1
  next hplain =>
    rw [if_neg] at hid
    · exact resolve_of_wider hgroups (rootAllowed_mono hgroups) hid
    · intro hspecial
      rw [Bool.or_eq_true] at hspecial hplain
      exact hplain (hspecial.imp (privileged_mono hgroups) (isOwner_mono hgroups))

/-- **Group monotonicity.** Every space returned for a list of groups is returned
for every longer list, with at least the same root and categories. -/
theorem permittedSpacesFor_mono (text : TextRules) (db : AccessStore) (now : Int)
    (permissions : List Permission) (only : Option Uuid) (permission : Permission) :
    ∀ permitted ∈ (permittedSpacesFor text db now groups permissions only permission).getD [],
      ∃ more ∈ (permittedSpacesFor text db now wider permissions only permission).getD [],
        more.id = permitted.id ∧ (permitted.aclRoot = true → more.aclRoot = true) ∧
          permitted.aclCategories ⊆ more.aclCategories := by
  intro permitted hpermitted
  obtain ⟨hpermission, hnonempty, space, hspace, hselected, rfl, hgranted⟩ :=
    mem_permittedSpacesFor.mp hpermitted
  have hcategories : allowedCategories text groups permission (spaceRow text db now groups space) ⊆
      allowedCategories text wider permission (spaceRow text db now wider space) :=
    allowedCategories_mono hgroups
  refine ⟨decideSpace text wider permission (spaceRow text db now wider space), ?_, rfl,
    rootAllowed_mono hgroups, hcategories⟩
  refine mem_permittedSpacesFor.mpr ⟨hpermission, ?_, space, hspace,
    isSelected_mono hgroups hselected, rfl, ?_⟩
  · intro hempty
    obtain ⟨name, hname⟩ := List.exists_mem_of_ne_nil groups hnonempty
    rw [hempty] at hgroups
    cases hgroups name hname
  · refine hgranted.imp (rootAllowed_mono hgroups) fun hsome hnone => hsome ?_
    exact List.subset_nil.mp (hnone ▸ hcategories)

end Groups

section Granted

variable (text : TextRules) (db : AccessStore) (now : Int) (groups : List String)
variable (permissions : List Permission) (only : Option Uuid) (permission : Permission)

/-- `permittedSpacesFor` grants the permission on the root of the space. -/
def GrantsRoot (spaceId : Uuid) : Prop :=
  ∃ permitted ∈ (permittedSpacesFor text db now groups permissions only permission).getD [],
    permitted.id = spaceId ∧ permitted.aclRoot = true

/-- `permittedSpacesFor` grants the permission on a category of the space. -/
def GrantsCategory (spaceId categoryId : Uuid) : Prop :=
  ∃ permitted ∈ (permittedSpacesFor text db now groups permissions only permission).getD [],
    permitted.id = spaceId ∧ categoryId ∈ permitted.aclCategories

/-- `permittedSpacesFor` grants the permission on a place of the space, a category or
the root. -/
def GrantsPlace (spaceId : Uuid) : Option Uuid → Prop
  | none => GrantsRoot text db now groups permissions only permission spaceId
  | some categoryId =>
      GrantsCategory text db now groups permissions only permission spaceId categoryId

instance (spaceId : Uuid) :
    Decidable (GrantsRoot text db now groups permissions only permission spaceId) :=
  inferInstanceAs (Decidable (∃ permitted ∈ _, _))

instance (spaceId categoryId : Uuid) :
    Decidable (GrantsCategory text db now groups permissions only permission spaceId categoryId) :=
  inferInstanceAs (Decidable (∃ permitted ∈ _, _))

variable {text db now groups permissions only permission}

theorem grantsPlace_root {spaceId : Uuid} :
    GrantsPlace text db now groups permissions only permission spaceId none ↔
      GrantsRoot text db now groups permissions only permission spaceId := Iff.rfl

theorem grantsPlace_category {spaceId categoryId : Uuid} :
    GrantsPlace text db now groups permissions only permission spaceId (some categoryId) ↔
      GrantsCategory text db now groups permissions only permission spaceId categoryId := Iff.rfl

/-- A place is granted in a selected space by the decision for the space. -/
theorem grantsPlace_iff {spaceId : Uuid} {place : Option Uuid} :
    GrantsPlace text db now groups permissions only permission spaceId place ↔
      permission ∈ permissions ∧ groups ≠ [] ∧ ∃ space ∈ db.spaces, space.id = spaceId ∧
        isSelected text db now groups only space = true ∧
        Granted text db now groups permission space place := by
  cases place with
  | none =>
      simp only [GrantsPlace, GrantsRoot, mem_permittedSpacesFor, granted_root]
      constructor
      · rintro ⟨_, ⟨hpermission, hnonempty, space, hspace, hselected, rfl, -⟩, rfl, hroot⟩
        exact ⟨hpermission, hnonempty, space, hspace, rfl, hselected, hroot⟩
      · rintro ⟨hpermission, hnonempty, space, hspace, rfl, hselected, hroot⟩
        exact ⟨_, ⟨hpermission, hnonempty, space, hspace, hselected, rfl, .inl hroot⟩, rfl, hroot⟩
  | some category =>
      simp only [GrantsPlace, GrantsCategory, mem_permittedSpacesFor, granted_category]
      constructor
      · rintro ⟨_, ⟨hpermission, hnonempty, space, hspace, hselected, rfl, -⟩, rfl, hcategory⟩
        exact ⟨hpermission, hnonempty, space, hspace, rfl, hselected, hcategory⟩
      · rintro ⟨hpermission, hnonempty, space, hspace, rfl, hselected, hcategory⟩
        exact ⟨_, ⟨hpermission, hnonempty, space, hspace, hselected, rfl,
          .inr (List.ne_nil_of_mem hcategory)⟩, rfl, hcategory⟩

end Granted

/-! ## Sample -/

def asciiText : TextRules where
  toLowerCase := String.toLower
  equalsInsensitive left right := left.toLower = right.toLower
  slugOrder left right := left ≤ right

def itId : Uuid := ⟨"it", by decide⟩

def proceduresId : Uuid := ⟨"procedures", by decide⟩

def readersId : Uuid := ⟨"readers", by decide⟩

def auditorsId : Uuid := ⟨"auditors", by decide⟩

/-- A rule that gives `read` to a group. -/
def readRule (groupId : Uuid) (categoryId : Option Uuid) (validUntil : Option Int) : AccessRule where
  groupId := groupId
  spaceId := itId
  categoryId := categoryId
  showMenu := false
  read := true
  search := false
  preview := false
  download := false
  upload := false
  edit := false
  publish := false
  archive := false
  validFrom := none
  validUntil := validUntil

/-- Readers read the space; until 10 its procedures are for auditors only. -/
def itStore : AccessStore where
  groups := [⟨readersId, "Readers", "cn=readers", true, none⟩,
    ⟨auditorsId, "Auditors", "cn=auditors", true, none⟩]
  spaces := [⟨itId, "it", none, none⟩]
  categories := [⟨proceduresId, "procedures", itId, none, none⟩]
  accessRules := [readRule readersId none none, readRule auditorsId (some proceduresId) (some 10)]
  temporaryAccessGrants := []
  spaceIds := by decide

/-- A reader who becomes a moderator keeps what the reader could read. -/
theorem permittedSpacesFor_mono_reader :
    GrantsRoot asciiText itStore 0 ["Readers"] [.read] none .read itId ∧
    ∀ permitted ∈ (permittedSpacesFor asciiText itStore 0 ["Readers"] [.read] none .read).getD [],
      ∃ more ∈ (permittedSpacesFor asciiText itStore 0 ["Readers", "ISMS-MODERATOR-MANAGE"]
          [.read] none .read).getD [],
        more.id = permitted.id ∧ (permitted.aclRoot = true → more.aclRoot = true) ∧
          permitted.aclCategories ⊆ more.aclCategories := by
  refine ⟨by decide +kernel, ?_⟩
  apply permittedSpacesFor_mono
  intro name hname
  exact List.mem_append_left _ hname

end IsmsPortal
