import IsmsPortal.Access.Store
import IsmsPortal.Foundation.Inheritance

/-! # The authorization service

`permittedSpacesFor` reads the spaces an identity may see, with the rules in
force, and decides root and categories for each permission; `can` answers for
one space, with a query of its own when no category is given. Group names are
compared in lower case by the program and case-insensitively by the database;
both comparisons, and the order of slugs, are parameters.
-/

namespace IsmsPortal

open Foundation

/-- Text operations outside the program. -/
structure TextRules where
  toLowerCase : String → String
  /-- `equals` with `mode: "insensitive"`. -/
  equalsInsensitive : String → String → Bool
  /-- The order of `orderBy: { slug: "asc" }`. -/
  slugOrder : String → String → Bool

/-! ## Identities -/

def isAdminIdentity (groups : List String) : Bool := groups.contains "ISMS-LOCAL-ADMINS"

def isModeratorIdentity (groups : List String) : Bool := groups.contains "ISMS-MODERATOR-MANAGE"

def moderatorCan (groups : List String) (permission : Permission) : Bool :=
  if isAdminIdentity groups then true
  else if !isModeratorIdentity groups then false
  else match permission with
    | .publish => groups.contains "ISMS-MODERATOR-PUBLISH"
    | .archive => groups.contains "ISMS-MODERATOR-ARCHIVE"
    | _ => true

def temporaryGrantPermissions : List Permission := [.showMenu, .read, .search, .preview]

/-! ## Categories -/

/-- The part of a decided space that category checks read. -/
structure CategoryScope where
  id : Uuid
  aclRoot : Option Bool
  aclCategories : Option (List Uuid)

def categoryAllowed (scope : Option CategoryScope) (categoryId : Option Uuid) : Bool :=
  match scope with
  | none => false
  | some scope => match scope.aclCategories with
    | none => true
    | some allowed => match categoryId with
      | some id => allowed.contains id
      | none => scope.aclRoot = some true

/-- A rule of `resolveCategories`. -/
structure CategoryRule where
  categoryId : Option Uuid
  allowed : Bool

/-- The entry of a category in the map of overrides, after all rules. -/
def overrideOf (rules : List CategoryRule) (id : Uuid) : Option Bool :=
  rules.foldl (fun entry rule =>
    if rule.categoryId = some id then some (entry.getD false || rule.allowed) else entry) none

/-- The entry of a category in the map of nodes: the last one with the id. -/
def nodeOf (categories : List DocumentCategory) (id : Uuid) : Option DocumentCategory :=
  categories.reverse.find? fun category => category.id = id

/-- The loop of `resolveCategories` for one category. -/
def resolveCategory (categories : List DocumentCategory) (rules : List CategoryRule)
    (inherited : Bool) : Nat → List Uuid → Option Uuid → Option Bool
  | _, _, none => some inherited
  | 0, _, some _ => none
  | fuel + 1, visited, some current =>
      if current ∈ visited then some false
      else match nodeOf categories current with
        | none => some false
        | some node => match overrideOf rules current with
          | some allowed => some allowed
          | none => resolveCategory categories rules inherited fuel (current :: visited)
              node.parentId

/-- The loop visits a category at most once, so it ends within this bound. -/
def resolveCategories (categories : List DocumentCategory) (rules : List CategoryRule)
    (inherited : Bool) : List Uuid :=
  (categories.filter fun category =>
    resolveCategory categories rules inherited (categories.length + 1) [] (some category.id) =
      some true).map DocumentCategory.id

/-! ## The query for spaces -/

/-- A row with the name of its group. -/
structure WithGroup (α : Type) where
  row : α
  groupName : String

/-- A space as the query returns it. -/
structure SpaceRow where
  space : DocumentSpace
  accessRules : List (WithGroup AccessRule)
  temporaryAccessGrants : List (WithGroup TemporaryAccessGrant)
  /-- Name and activity of the owner group. -/
  ownerGroup : Option (String × Bool)
  categories : List DocumentCategory

section Query

variable (text : TextRules) (db : AccessStore) (now : Int) (groups : List String)

/-- `groupFilter`: an active group with one of the names. -/
def groupFilter (id : Uuid) : Bool :=
  (db.activeGroup id).any fun group =>
    groups.any fun name => text.equalsInsensitive group.name name

/-- The condition on spaces for identities that are neither administrator nor
moderator. -/
def spaceFilter (space : DocumentSpace) : Bool :=
  (db.accessRules.any fun rule =>
      rule.spaceId = space.id && groupFilter text db groups rule.groupId && rule.inForce now) ||
    (db.temporaryAccessGrants.any fun grant =>
      grant.spaceId = space.id && groupFilter text db groups grant.groupId &&
        now < grant.validUntil) ||
    space.ownerGroupId.any (groupFilter text db groups)

/-- The rules of a space that are in force for an active group. -/
def includedRules (spaceId : Uuid) : List (WithGroup AccessRule) :=
  (db.accessRules.filter fun rule => rule.spaceId = spaceId && rule.inForce now).filterMap
    fun rule => (db.activeGroup rule.groupId).map fun group => ⟨rule, group.name⟩

/-- The temporary grants of a space: all of them for an administrator, else those
of the identity that have not expired. -/
def includedGrants (administrator : Bool) (spaceId : Uuid) :
    List (WithGroup TemporaryAccessGrant) :=
  (db.temporaryAccessGrants.filter fun grant => grant.spaceId = spaceId &&
    (administrator || (groupFilter text db groups grant.groupId && now < grant.validUntil))).filterMap
    fun grant => (db.groupOf grant.groupId).map fun group => ⟨grant, group.name⟩

/-- The categories of a space that are not in the trash. -/
def spaceCategories (spaceId : Uuid) : List DocumentCategory :=
  (db.categories.filter fun category =>
    category.spaceId = spaceId && category.deletedAt.isNone).mergeSort
      fun left right => text.slugOrder left.slug right.slug

/-- A space with what the query includes. -/
def spaceRow (space : DocumentSpace) : SpaceRow where
  space := space
  accessRules := includedRules db now space.id
  temporaryAccessGrants := includedGrants text db now groups (isAdminIdentity groups) space.id
  ownerGroup := (space.ownerGroupId.bind db.groupOf).map fun group => (group.name, group.active)
  categories := spaceCategories text db space.id

/-- The condition of the query: administrators and moderators read every space. -/
def isSelected (spaceId : Option Uuid) (space : DocumentSpace) : Bool :=
  space.deletedAt.isNone && spaceId.all (· = space.id) &&
    (isAdminIdentity groups || isModeratorIdentity groups || spaceFilter text db now groups space)

/-- `documentSpace.findMany`. -/
def findSpaces (spaceId : Option Uuid) : List SpaceRow :=
  ((db.spaces.filter (isSelected text db now groups spaceId)).mergeSort
    fun left right => text.slugOrder left.slug right.slug).map (spaceRow text db now groups)

end Query

/-! ## Decisions -/

/-- A space with the decision for one permission. -/
structure SpaceWithRule where
  row : SpaceRow
  aclRoot : Bool
  aclCategories : List Uuid

def SpaceWithRule.id (space : SpaceWithRule) : Uuid := space.row.space.id

def SpaceWithRule.scope (space : SpaceWithRule) : CategoryScope :=
  ⟨space.id, some space.aclRoot, some space.aclCategories⟩

section Decision

variable (text : TextRules) (groups : List String) (permission : Permission)

/-- One of the identity's groups has the name. -/
def hasGroup (name : String) : Bool :=
  groups.any fun group => text.toLowerCase group = text.toLowerCase name

/-- An administrator, or a moderator with the permission. -/
def privileged : Bool := isAdminIdentity groups || moderatorCan groups permission

/-- The identity is in the active owner group. Ownership does not give downloads. -/
def isOwner (row : SpaceRow) : Bool :=
  permission ≠ .download && row.ownerGroup.any fun owner => owner.2 && hasGroup text groups owner.1

def ruleAllows (rule : WithGroup AccessRule) : Bool :=
  hasGroup text groups rule.groupName && rule.row.allows permission

/-- Access to the root of the space. -/
def rootAllowed (row : SpaceRow) : Bool :=
  privileged groups permission || isOwner text groups permission row ||
    (row.accessRules.any fun rule =>
      rule.row.categoryId.isNone && ruleAllows text groups permission rule) ||
    (temporaryGrantPermissions.contains permission && !row.temporaryAccessGrants.isEmpty)

/-- The rules as `resolveCategories` takes them, those of other groups included. -/
def categoryRules (rules : List (WithGroup AccessRule)) : List CategoryRule :=
  rules.map fun rule => ⟨rule.row.categoryId, ruleAllows text groups permission rule⟩

/-- Access to the categories of the space. -/
def allowedCategories (row : SpaceRow) : List Uuid :=
  if privileged groups permission || isOwner text groups permission row then
    row.categories.map DocumentCategory.id
  else resolveCategories row.categories (categoryRules text groups permission row.accessRules)
    (rootAllowed text groups permission row)

/-- The body of the loop over spaces. Rules of other groups are not returned. -/
def decideSpace (row : SpaceRow) : SpaceWithRule where
  row := { row with
    accessRules := row.accessRules.filter fun rule => hasGroup text groups rule.groupName }
  aclRoot := rootAllowed text groups permission row
  aclCategories := allowedCategories text groups permission row

end Decision

section Service

variable (text : TextRules) (db : AccessStore) (now : Int) (groups : List String)

/-- The entry of a permission in the result of `permittedSpacesFor`. -/
def permittedSpacesFor (permissions : List Permission) (spaceId : Option Uuid)
    (permission : Permission) : Option (List SpaceWithRule) :=
  if permission ∈ permissions then
    if groups.isEmpty then some []
    else some (((findSpaces text db now groups spaceId).map
      (decideSpace text groups permission)).filter fun space =>
        space.aclRoot || !space.aclCategories.isEmpty)
  else none

/-- The count of `can` when the category is omitted. -/
def countSpaces (spaceId : Uuid) (permission : Permission) : Nat :=
  let administrator := isAdminIdentity groups || isModeratorIdentity groups
  db.spaces.countP fun space =>
    space.id = spaceId && space.deletedAt.isNone &&
      ((!administrator && permission ≠ .download &&
          space.ownerGroupId.any (groupFilter text db groups)) ||
        (db.accessRules.any fun rule => rule.spaceId = space.id && rule.categoryId.isNone &&
          groupFilter text db groups rule.groupId && rule.allows permission &&
          rule.inForce now) ||
        (!administrator && temporaryGrantPermissions.contains permission &&
          db.temporaryAccessGrants.any fun grant => grant.spaceId = space.id &&
            groupFilter text db groups grant.groupId && now < grant.validUntil))

/-- `can`. The category is omitted (`none`), null, or an id. -/
def can (spaceId : Uuid) (permission : Permission) (categoryId : Option (Option Uuid)) : Bool :=
  if isAdminIdentity groups || moderatorCan groups permission then true
  else if groups.isEmpty then false
  else match categoryId with
    | some category =>
        categoryAllowed (((permittedSpacesFor text db now groups [permission] (some spaceId)
          permission).getD []).find? (·.id = spaceId) |>.map SpaceWithRule.scope) category
    | none => 0 < countSpaces text db now groups spaceId permission

end Service

end IsmsPortal
