import Mathlib.Data.List.Basic

/-! # Groups, spaces and access rules

The tables the authorization service reads, with what the rest of the program
does to groups: deactivation and removal. Ids are UUIDs, so an id is never the
empty string and the service's truth tests on ids are tests for null.
-/

namespace IsmsPortal

/-- A row id. -/
structure Uuid where
  text : String
  nonempty : text ≠ ""
deriving DecidableEq

inductive Permission
  | showMenu
  | read
  | search
  | preview
  | download
  | upload
  | edit
  | publish
  | archive
deriving DecidableEq

/-- A row of `DirectoryGroup`. -/
structure DirectoryGroup where
  id : Uuid
  name : String
  distinguishedName : String
  active : Bool
  directoryConnectionId : Option Uuid
deriving DecidableEq

/-- A row of `DocumentSpace`. -/
structure DocumentSpace where
  id : Uuid
  slug : String
  ownerGroupId : Option Uuid
  deletedAt : Option Int
deriving DecidableEq

/-- A row of `DocumentCategory`. -/
structure DocumentCategory where
  id : Uuid
  slug : String
  spaceId : Uuid
  parentId : Option Uuid
  deletedAt : Option Int
deriving DecidableEq

/-- A row of `AccessRule`. -/
structure AccessRule where
  groupId : Uuid
  spaceId : Uuid
  categoryId : Option Uuid
  showMenu : Bool
  read : Bool
  search : Bool
  preview : Bool
  download : Bool
  upload : Bool
  edit : Bool
  publish : Bool
  archive : Bool
  validFrom : Option Int
  validUntil : Option Int
deriving DecidableEq

/-- `rule[permission]`. -/
def AccessRule.allows (rule : AccessRule) : Permission → Bool
  | .showMenu => rule.showMenu
  | .read => rule.read
  | .search => rule.search
  | .preview => rule.preview
  | .download => rule.download
  | .upload => rule.upload
  | .edit => rule.edit
  | .publish => rule.publish
  | .archive => rule.archive

/-- The rule has begun and has not expired. -/
def AccessRule.inForce (rule : AccessRule) (now : Int) : Bool :=
  rule.validFrom.all (· ≤ now) && rule.validUntil.all (now < ·)

/-- A row of `TemporaryAccessGrant`. -/
structure TemporaryAccessGrant where
  groupId : Uuid
  spaceId : Uuid
  validUntil : Int
deriving DecidableEq

/-- The tables. Space ids are unique. -/
structure AccessStore where
  groups : List DirectoryGroup
  spaces : List DocumentSpace
  categories : List DocumentCategory
  accessRules : List AccessRule
  temporaryAccessGrants : List TemporaryAccessGrant
  spaceIds : (spaces.map DocumentSpace.id).Nodup

namespace AccessStore

def groupOf (db : AccessStore) (id : Uuid) : Option DirectoryGroup :=
  db.groups.find? fun group => group.id = id

/-- The group of a row, if it is active. -/
def activeGroup (db : AccessStore) (id : Uuid) : Option DirectoryGroup :=
  (db.groupOf id).filter DirectoryGroup.active

theorem activeGroup_eq_some {db : AccessStore} {id : Uuid} {group : DirectoryGroup} :
    db.activeGroup id = some group ↔ db.groupOf id = some group ∧ group.active = true := by
  simp [activeGroup, Option.filter_eq_some_iff]

/-- A group becomes inactive. -/
def deactivateGroup (db : AccessStore) (id : Uuid) : AccessStore :=
  { db with groups := db.groups.map fun group =>
      if group.id = id then { group with active := false } else group }

/-- Delete groups with their access rules. By the foreign keys their temporary
grants go with them, and spaces they owned have no owner. -/
def removeGroups (db : AccessStore) (ids : List Uuid) : AccessStore where
  groups := db.groups.filter fun group => group.id ∉ ids
  spaces := db.spaces.map fun space =>
    { space with ownerGroupId := space.ownerGroupId.filter (· ∉ ids) }
  categories := db.categories
  accessRules := db.accessRules.filter fun rule => rule.groupId ∉ ids
  temporaryAccessGrants := db.temporaryAccessGrants.filter fun grant => grant.groupId ∉ ids
  spaceIds := by
    rw [List.map_map]
    exact db.spaceIds

/-- `deleteGroup`. -/
def deleteGroup (db : AccessStore) (id : Uuid) : AccessStore := db.removeGroups [id]

/-- The last step of `synchronize`: groups of the connection that the directory
no longer has are removed. -/
def removeStaleGroups (db : AccessStore) (connectionId : Uuid) (synchronizedDns : List String) :
    AccessStore :=
  db.removeGroups ((db.groups.filter fun group =>
    group.directoryConnectionId = some connectionId ∧
      group.distinguishedName ∉ synchronizedDns).map DirectoryGroup.id)

end AccessStore

end IsmsPortal
