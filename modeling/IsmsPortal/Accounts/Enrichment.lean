import IsmsPortal.Access.Authorization
import IsmsPortal.Accounts.Store
import IsmsPortal.Foundation.Checks
import IsmsPortal.Foundation.Query

/-! # Markers of administrators and moderators

An identity of the proxy or of the directory becomes an administrator or a moderator by
marker groups. They come from one account and one directory group that match the
identity; each is the answer of a query for one row without an order. When several rows
match and differ, the markers depend on the row that the database returns.
-/

namespace IsmsPortal

open Foundation

inductive IdentitySource
  | trustedProxy
  | directorySession
  | localAdmin
  | anonymous
  | system
deriving DecidableEq

/-- The identity that a request carries. -/
structure RequestIdentity where
  username : String
  displayName : String
  groups : List String
  source : IdentitySource
  profilePhoto : Option String
deriving DecidableEq

/-- A user of the directory. -/
structure DirectoryProfile where
  username : String
  displayName : String
  groups : List String
deriving DecidableEq

/-- The columns of `UserPreference` that an administrator has. -/
structure AdminPreference where
  adminDisplayName : Option String
  adminProfilePhoto : Option String
deriving DecidableEq

/-- The tables at the time of a request. -/
structure AdminTables where
  clock : Int
  accounts : List AdminAccountRow
  groups : List AdminGroupRow
  /-- The preference of a username. -/
  preferences : String → Option AdminPreference

/-! ## Matching grants -/

section Matching

variable (text : TextRules) (tables : AdminTables) (identity : RequestIdentity)

/-- The accounts that the query selects. -/
def AdminTables.matchingAccounts : List AdminAccountRow :=
  tables.accounts.filter fun account =>
    text.equalsInsensitive account.username identity.username &&
      account.source = .directory && account.current tables.clock

/-- The groups that the query selects; none for an identity without groups. -/
def AdminTables.matchingGroups : List AdminGroupRow :=
  tables.groups.filter fun group =>
    (identity.groups.any fun name => text.equalsInsensitive group.name name) &&
      group.current tables.clock

def AdminTables.accountGrants : List AdminGrant :=
  (tables.matchingAccounts text identity).map AdminAccountRow.toAdminGrant

def AdminTables.groupGrants : List AdminGrant :=
  (tables.matchingGroups text identity).map AdminGroupRow.toAdminGrant

/-- The grants of all rows that match the identity. -/
def AdminTables.grants : List AdminGrant :=
  tables.accountGrants text identity ++ tables.groupGrants text identity

end Matching

/-! ## Enrichment -/

def AdminGrant.administers (grant : AdminGrant) : Bool := grant.role ≠ .moderator

def AdminGrant.manages (grant : AdminGrant) : Bool :=
  grant.role = .moderator && grant.canManageDocuments

def AdminGrant.publishes (grant : AdminGrant) : Bool :=
  grant.role = .moderator && grant.canPublishDocuments

def AdminGrant.deletes (grant : AdminGrant) : Bool :=
  grant.role = .moderator && grant.canDeleteDocuments

/-- The groups that the flags add to an identity. -/
def markers (administrator manages publishes deletes : Bool) : List String :=
  (if administrator then ["ISMS-LOCAL-ADMINS"] else []) ++
    (if manages then ["ISMS-MODERATOR-MANAGE"] else []) ++
    (if publishes then ["ISMS-MODERATOR-PUBLISH"] else []) ++
    (if deletes then ["ISMS-MODERATOR-ARCHIVE"] else [])

/-- The markers that `enrichSsoIdentity` adds, from the rows it has found. A moderator's
permissions count only when neither row is an administrator. -/
def addedMarkers (account group : Option AdminGrant) : List String :=
  let administrator := account.any AdminGrant.administers || group.any AdminGrant.administers
  let can := fun permission : AdminGrant → Bool =>
    (!administrator && account.any permission) || (!administrator && group.any permission)
  markers administrator (can AdminGrant.manages) (can AdminGrant.publishes)
    (can AdminGrant.deletes)

/-- `value || fallback`. -/
def orText (value : Option String) (fallback : String) : String :=
  (value.filter (· ≠ "")).getD fallback

/-- The identity with what the directory knows of it. -/
def RequestIdentity.withProfile (identity : RequestIdentity) :
    Option DirectoryProfile → RequestIdentity
  | none => identity
  | some profile =>
      { identity with
        username := profile.username
        displayName := orText (some profile.displayName) identity.displayName
        groups := (identity.groups ++ profile.groups).eraseDups }

/-- The identity after the rows have been found. -/
def RequestIdentity.withGrants (identity : RequestIdentity) (account : Option AdminAccountRow)
    (group : Option AdminGroupRow) (preference : Option AdminPreference) : RequestIdentity :=
  if account.isNone && group.isNone then identity
  else
    { identity with
      displayName := orText (account.map AdminAccountRow.displayName)
        (orText (preference.bind AdminPreference.adminDisplayName) identity.displayName)
      profilePhoto := ((account.bind AdminAccountRow.profilePhoto).filter (· ≠ "")).or
        (preference.bind AdminPreference.adminProfilePhoto)
      groups := (identity.groups ++ addedMarkers (account.map AdminAccountRow.toAdminGrant)
        (group.map AdminGroupRow.toAdminGrant)).eraseDups }

/-- What enrichment asks other systems, and its settings. -/
structure SsoSettings where
  text : TextRules
  /-- `SsoMailboxPolicy.assertAllowed`. -/
  assertAllowed : String → Except String Unit
  /-- `SSO_DIRECTORY_GROUP_ENRICHMENT` is not `false`. -/
  groupEnrichment : Bool
  /-- `ssoDirectoryProfile`, which answers from the cache or from the directory. -/
  ssoDirectoryProfile : String → Option DirectoryProfile

variable (settings : SsoSettings)

/-- The identity whose grants are looked up. -/
def SsoSettings.resolved (identity : RequestIdentity) : RequestIdentity :=
  if identity.source = .trustedProxy ∧ settings.groupEnrichment = true then
    identity.withProfile (settings.ssoDirectoryProfile identity.username)
  else identity

/-- `enrichSsoIdentity`, with the answers of the two queries. -/
def enrichSsoIdentity (tables : AdminTables) (account : Option AdminAccountRow)
    (group : Option AdminGroupRow) (identity : RequestIdentity) :
    Except String RequestIdentity := do
  if identity.source = .trustedProxy then settings.assertAllowed identity.username
  let resolved := settings.resolved identity
  return resolved.withGrants account group (tables.preferences resolved.username)

theorem enrichSsoIdentity_ok {tables : AdminTables} {account : Option AdminAccountRow}
    {group : Option AdminGroupRow} {identity result : RequestIdentity}
    (hresult : enrichSsoIdentity settings tables account group identity = .ok result) :
    result = (settings.resolved identity).withGrants account group
      (tables.preferences (settings.resolved identity).username) := by
  unfold enrichSsoIdentity at hresult
  split at hresult
  next =>
    obtain ⟨_, -, hrest⟩ := Checks.accepts_bind.mp hresult
    cases hrest
    rfl
  next =>
    cases hresult
    rfl

/-- The rows that the two queries may return. -/
def AdminTables.Answers (text : TextRules) (tables : AdminTables) (identity : RequestIdentity)
    (account : Option AdminAccountRow) (group : Option AdminGroupRow) : Prop :=
  Query.IsPick (tables.matchingAccounts text identity) account ∧
    Query.IsPick (tables.matchingGroups text identity) group

/-! ## What the grants confer -/

/-- The markers of all grants together: administrator if one of them is, and else the
permissions of all moderators. -/
def conferredMarkers (grants : List AdminGrant) : List String :=
  let administrator := grants.any AdminGrant.administers
  markers administrator (!administrator && grants.any AdminGrant.manages)
    (!administrator && grants.any AdminGrant.publishes)
    (!administrator && grants.any AdminGrant.deletes)

/-- If a matching grant has the property, then all matching accounts have it, or all
matching groups. -/
def GrantsConcur (property : AdminGrant → Bool) (accounts groups : List AdminGrant) : Prop :=
  (accounts ++ groups).any property = true → Query.Uniform property accounts groups

instance (property : AdminGrant → Bool) (accounts groups : List AdminGrant) :
    Decidable (GrantsConcur property accounts groups) :=
  inferInstanceAs (Decidable (_ → _))

/-- The matching grants are concordant about administrators and, when there are none,
about each permission of a moderator. -/
def Unambiguous (accounts groups : List AdminGrant) : Prop :=
  GrantsConcur AdminGrant.administers accounts groups ∧
    ((accounts ++ groups).any AdminGrant.administers = false →
      GrantsConcur AdminGrant.manages accounts groups ∧
      GrantsConcur AdminGrant.publishes accounts groups ∧
      GrantsConcur AdminGrant.deletes accounts groups)

theorem markers_eq_iff : ∀ a m p d a' m' p' d' : Bool,
    markers a (!a && m) (!a && p) (!a && d) = markers a' (!a' && m') (!a' && p') (!a' && d') ↔
      a = a' ∧ (a' = false → m = m' ∧ p = p' ∧ d = d') := by
  decide

section Conferred

variable {accounts groups : List AdminGrant}

theorem addedMarkers_eq_iff {account group : Option AdminGrant} {grants : List AdminGrant} :
    addedMarkers account group = conferredMarkers grants ↔
      (account.any AdminGrant.administers || group.any AdminGrant.administers) =
          grants.any AdminGrant.administers ∧
        (grants.any AdminGrant.administers = false →
          (account.any AdminGrant.manages || group.any AdminGrant.manages) =
              grants.any AdminGrant.manages ∧
            (account.any AdminGrant.publishes || group.any AdminGrant.publishes) =
              grants.any AdminGrant.publishes ∧
            (account.any AdminGrant.deletes || group.any AdminGrant.deletes) =
              grants.any AdminGrant.deletes) := by
  unfold addedMarkers conferredMarkers
  simp only [← Bool.and_or_distrib_left]
  exact markers_eq_iff _ _ _ _ _ _ _ _

/-- The markers are those of all grants, whatever rows the database returns, when the
grants are unambiguous. -/
theorem addedMarkers_conferred_iff :
    (∀ account group, Query.IsPick accounts account → Query.IsPick groups group →
      addedMarkers account group = conferredMarkers (accounts ++ groups)) ↔
      Unambiguous accounts groups := by
  -- the two answers decide each flag on its own
  constructor
  · intro hall
    have heq := fun account group haccount hgroup =>
      addedMarkers_eq_iff.mp (hall account group haccount hgroup)
    refine ⟨Query.picks_agree_iff.mp fun account group haccount hgroup =>
      (heq account group haccount hgroup).1, fun hnone => ⟨?_, ?_, ?_⟩⟩
    · exact Query.picks_agree_iff.mp fun account group haccount hgroup =>
        ((heq account group haccount hgroup).2 hnone).1
    · exact Query.picks_agree_iff.mp fun account group haccount hgroup =>
        ((heq account group haccount hgroup).2 hnone).2.1
    · exact Query.picks_agree_iff.mp fun account group haccount hgroup =>
        ((heq account group haccount hgroup).2 hnone).2.2
  · rintro ⟨hadministers, hmoderators⟩ account group haccount hgroup
    rw [addedMarkers_eq_iff]
    refine ⟨Query.picks_agree_iff.mpr hadministers account group haccount hgroup, fun hnone => ?_⟩
    obtain ⟨hmanages, hpublishes, hdeletes⟩ := hmoderators hnone
    exact ⟨Query.picks_agree_iff.mpr hmanages account group haccount hgroup,
      Query.picks_agree_iff.mpr hpublishes account group haccount hgroup,
      Query.picks_agree_iff.mpr hdeletes account group haccount hgroup⟩

end Conferred

/-- **Privileges and row order.** The markers that enrichment adds are the same for every
order in which the database returns the rows, and those of all matching grants, exactly
when the matching grants are unambiguous. -/
theorem markers_order_free_iff (tables : AdminTables) (identity : RequestIdentity) :
    let resolved := settings.resolved identity
    (∀ account group, tables.Answers settings.text resolved account group →
      (∀ account' group', tables.Answers settings.text resolved account' group' →
        addedMarkers (account'.map AdminAccountRow.toAdminGrant)
            (group'.map AdminGroupRow.toAdminGrant) =
          addedMarkers (account.map AdminAccountRow.toAdminGrant)
            (group.map AdminGroupRow.toAdminGrant)) ∧
        addedMarkers (account.map AdminAccountRow.toAdminGrant)
            (group.map AdminGroupRow.toAdminGrant) =
          conferredMarkers (tables.grants settings.text resolved)) ↔
      Unambiguous (tables.accountGrants settings.text resolved)
        (tables.groupGrants settings.text resolved) := by
  intro resolved
  rw [← addedMarkers_conferred_iff]
  constructor
  · -- a grant that may be returned is the grant of a row that may be returned
    intro hfree account group haccount hgroup
    obtain ⟨accountRow, haccountRow, rfl⟩ := Query.isPick_map.mp haccount
    obtain ⟨groupRow, hgroupRow, rfl⟩ := Query.isPick_map.mp hgroup
    exact (hfree accountRow groupRow ⟨haccountRow, hgroupRow⟩).2
  · intro hall account group hanswers
    have hconferred : ∀ account group, tables.Answers settings.text resolved account group →
        addedMarkers (account.map AdminAccountRow.toAdminGrant)
            (group.map AdminGroupRow.toAdminGrant) =
          conferredMarkers (tables.grants settings.text resolved) := by
      intro account group hanswers
      exact hall _ _ (Query.isPick_map.mpr ⟨account, hanswers.1, rfl⟩)
        (Query.isPick_map.mpr ⟨group, hanswers.2, rfl⟩)
    refine ⟨fun account' group' hanswers' => ?_, hconferred account group hanswers⟩
    rw [hconferred account' group' hanswers', hconferred account group hanswers]

/-! ## Sample -/

/-- Lower case of ASCII text. -/
def asciiLower (text : String) : String := String.ofList (text.toList.map Char.toLower)

/-- Names are compared without their case, and the directory adds nothing. -/
def quietSettings : SsoSettings where
  text := ⟨asciiLower, fun column value => asciiLower column = asciiLower value, fun _ _ => true⟩
  assertAllowed _ := .ok ()
  groupEnrichment := false
  ssoDirectoryProfile _ := none

/-- A group whose members have the role, without an end. -/
def adminGroup (name : String) (role : AdminRole) : AdminGroupRow :=
  ⟨⟨true, role, true, true, true, none, none⟩, name, name⟩

/-- One group of administrators and one of moderators. -/
def twoGroups : AdminTables where
  clock := 0
  accounts := []
  groups := [adminGroup "Admins" .admin, adminGroup "Moderators" .moderator]
  preferences _ := none

/-- A user who is a member of both groups. -/
def bothGroups : RequestIdentity :=
  ⟨"alice@example.com", "Alice", ["admins", "moderators"], .directorySession, none⟩

/-- The member of both groups is an administrator or not, as the database happens to
return the one group or the other. -/
theorem two_groups_order_dependent :
    let resolved := quietSettings.resolved bothGroups
    twoGroups.Answers quietSettings.text resolved none (some (adminGroup "Admins" .admin)) ∧
      twoGroups.Answers quietSettings.text resolved none
        (some (adminGroup "Moderators" .moderator)) ∧
      addedMarkers none (some (adminGroup "Admins" .admin).toAdminGrant) =
        ["ISMS-LOCAL-ADMINS"] ∧
      addedMarkers none (some (adminGroup "Moderators" .moderator).toAdminGrant) =
        ["ISMS-MODERATOR-MANAGE", "ISMS-MODERATOR-PUBLISH", "ISMS-MODERATOR-ARCHIVE"] := by
  have hgroups : twoGroups.matchingGroups quietSettings.text (quietSettings.resolved bothGroups) =
      twoGroups.groups := by
    decide
  refine ⟨⟨rfl, ?_⟩, ⟨rfl, ?_⟩, by decide, by decide⟩
  · rw [hgroups]
    exact List.mem_cons_self
  · rw [hgroups]
    exact List.mem_cons_of_mem _ List.mem_cons_self

end IsmsPortal
