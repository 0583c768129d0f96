import IsmsPortal.Access.Categories
import IsmsPortal.Foundation.Forest
import IsmsPortal.Foundation.Interleaving
import IsmsPortal.Foundation.JsString

/-! # Requests on categories

`createCategory`, `updateCategory` and `deleteCategory`, one query after the
other. A request reads the category, the space, the categories of the space and
what they hold, and writes at the end, whatever happened in between. The loop of
`updateCategory` walks up the parents it has read; a walk that does not end
leaves the request where it is. A transaction is one statement.
-/

namespace IsmsPortal

open Foundation

/-- The placement of a row of `Document`. -/
structure FiledDocument where
  id : Uuid
  spaceId : Uuid
  categoryId : Option Uuid
  updatedAt : Int
  deletedAt : Option Int
  destroyedAt : Option Int
deriving DecidableEq

/-- The tables that requests on categories read and write. -/
structure CategoryStore where
  clock : Int
  spaces : List DocumentSpace
  categories : List DocumentCategory
  documents : List FiledDocument
  categoryIds : (categories.map DocumentCategory.id).Nodup
  documentIds : (documents.map FiledDocument.id).Nodup
deriving DecidableEq

/-- The body of a request. -/
structure CategoryDto where
  slug : String
  spaceId : Uuid
  parentId : Option Uuid
deriving DecidableEq

/-! ## Checks -/

/-- A lower case letter or a digit. -/
def isSlugCharacter (c : Char) : Bool := ('a' ≤ c ∧ c ≤ 'z') ∨ ('0' ≤ c ∧ c ≤ '9')

/-- The slug begins with a letter or digit and goes on with 1 to 79 letters, digits
and hyphens. -/
def isSlug (slug : String) : Bool :=
  match slug.toList with
  | [] => false
  | first :: rest =>
      isSlugCharacter first && 1 ≤ rest.length && rest.length ≤ 79 &&
        rest.all fun c => isSlugCharacter c || c = '-'

/-- The body with its slug trimmed and in lower case. -/
def CategoryDto.normalized (toLowerCase : String → String) (body : CategoryDto) : CategoryDto :=
  { body with slug := toLowerCase (JsString.trim body.slug) }

/-- The parent of a category in a map of categories to parents. -/
def parentLink (categories : List DocumentCategory) (id : Uuid) : Option Uuid :=
  (parentOf categories id).join

namespace CategoryStore

def findLive (store : CategoryStore) (id : Uuid) : Option DocumentCategory :=
  store.categories.find? fun category => category.id = id && category.deletedAt.isNone

def liveIn (store : CategoryStore) (spaceId : Uuid) : List DocumentCategory :=
  store.categories.filter fun category => category.spaceId = spaceId && category.deletedAt.isNone

def checkSpace (store : CategoryStore) (body : CategoryDto) : Except String Unit :=
  if store.spaces.any fun space => space.id = body.spaceId && space.deletedAt.isNone then .ok ()
  else .error "Invalid active document space"

/-- The parent that `createCategory` looks for. -/
def checkParent (store : CategoryStore) (body : CategoryDto) : Except String Unit :=
  if body.parentId.all fun parentId => (store.liveIn body.spaceId).any fun category =>
      category.id = parentId then .ok ()
  else .error "Parent category must be in the same space"

/-- The walk of `updateCategory` from the new parent; none when it does not end. -/
def climbs (store : CategoryStore) (id : Uuid) (spaceId parentId : Uuid) : Option Bool :=
  Forest.climb (parentLink (store.liveIn spaceId)) id ((store.liveIn spaceId).length + 1)
    (some parentId)

/-- The check of the new parent in `updateCategory`; none when it does not end. -/
def checkHierarchy (store : CategoryStore) (id : Uuid) (body : CategoryDto) :
    Option (Except String Unit) :=
  match body.parentId with
  | none => some (.ok ())
  | some parentId =>
      if parentId = id then some (.error "A category cannot be its own parent")
      else if !(store.liveIn body.spaceId).any fun category => category.id = parentId then
        some (.error "Parent category must be in the same space")
      else (store.climbs id body.spaceId parentId).map fun met =>
        if met then .error "Category hierarchy cannot contain a cycle" else .ok ()

def documentCount (store : CategoryStore) (id : Uuid) : Nat :=
  store.documents.countP fun document => document.categoryId = some id && document.deletedAt.isNone

def childCount (store : CategoryStore) (id : Uuid) : Nat :=
  store.categories.countP fun category =>
    category.parentId = some id && category.deletedAt.isNone

/-! ## Writes -/

/-- Another row has the slug in the space. -/
def slugTaken (store : CategoryStore) (id : Uuid) (body : CategoryDto) : Bool :=
  store.categories.any fun category =>
    category.id ≠ id && category.spaceId = body.spaceId && category.slug = body.slug

/-- `documentCategory.create`, or none when a unique column is taken. -/
def createRow (store : CategoryStore) (id : Uuid) (body : CategoryDto) : Option CategoryStore :=
  if hfresh : id ∉ store.categories.map DocumentCategory.id ∧ store.slugTaken id body = false then
    some { store with
      categories := store.categories ++ [⟨id, body.slug, body.spaceId, body.parentId, none⟩]
      categoryIds := Table.nodup_insert store.categoryIds fun other hother heq =>
        hfresh.1 (List.mem_map.mpr ⟨other, hother, heq⟩) }
  else none

/-- `documentCategory.update`, or none when the slug is taken. -/
def updateRow (store : CategoryStore) (id : Uuid) (body : CategoryDto) : Option CategoryStore :=
  if store.slugTaken id body then none
  else some { store with
    categories := Table.update DocumentCategory.id id (fun category => { category with
      slug := body.slug
      spaceId := body.spaceId
      parentId := body.parentId }) store.categories
    categoryIds := by
      rw [Table.map_key_update]
      · exact store.categoryIds
      · intro row
        rfl }

/-- The document after the transaction of `deleteCategory`. -/
def uncategorized (id : Uuid) (now : Int) (document : FiledDocument) : FiledDocument :=
  if document.categoryId = some id then { document with categoryId := none, updatedAt := now }
  else document

theorem uncategorized_id (id : Uuid) (now : Int) (document : FiledDocument) :
    (uncategorized id now document).id = document.id := by
  unfold uncategorized
  split <;> rfl

/-- The transaction of `deleteCategory`, with the category as read before. -/
def archiveRow (store : CategoryStore) (existing : DocumentCategory) : CategoryStore where
  __ := store
  documents := store.documents.map (uncategorized existing.id store.clock)
  categories := store.categories.map (archivedCategory existing store.clock)
  categoryIds := by
    rw [List.map_map]
    exact store.categoryIds
  documentIds := by
    rw [List.map_map, show FiledDocument.id ∘ uncategorized existing.id store.clock =
      FiledDocument.id from funext (uncategorized_id existing.id store.clock)]
    exact store.documentIds

end CategoryStore

/-! ## Requests -/

/-- Where a request is, with what it has read. -/
inductive CategoryRequest
  | create (body : CategoryDto)
  | createParent (body : CategoryDto)
  | createWrite (body : CategoryDto)
  | update (id : Uuid) (body : CategoryDto)
  | updateSpace (existing : DocumentCategory) (body : CategoryDto)
  | updateHierarchy (existing : DocumentCategory) (body : CategoryDto)
  | updateCounts (existing : DocumentCategory) (body : CategoryDto)
      (documents children : Option Nat)
  | updateWrite (existing : DocumentCategory) (body : CategoryDto)
  | delete (id : Uuid)
  | deleteCount (existing : DocumentCategory)
  | deleteTransaction (existing : DocumentCategory)
deriving DecidableEq

/-- What the environment chooses: the id of a new row, and which of two queries sent
together is answered. -/
structure CategoryChoice where
  newId : Uuid
  childrenFirst : Bool

/-- The request goes on when a check passes and ends with its error otherwise. -/
def goOn (store : CategoryStore) (check : Except String Unit) (next : CategoryRequest) :
    Option CategoryRequest × CategoryStore :=
  match check with
  | .ok () => (some next, store)
  | .error _ => (none, store)

/-- After the walk: the counts are read only for a move between spaces. -/
def afterHierarchy (existing : DocumentCategory) (body : CategoryDto) : CategoryRequest :=
  if existing.spaceId = body.spaceId then .updateWrite existing body
  else .updateCounts existing body none none

def categoryAdvance (toLowerCase : String → String) (choice : CategoryChoice)
    (store : CategoryStore) :
    CategoryRequest → Option (Option CategoryRequest × CategoryStore)
  | .create body =>
      let body := body.normalized toLowerCase
      if isSlug body.slug then some (goOn store (store.checkSpace body) (.createParent body))
      else some (none, store)
  | .createParent body => some (goOn store (store.checkParent body) (.createWrite body))
  | .createWrite body => some (none, (store.createRow choice.newId body).getD store)
  | .update id body =>
      match store.findLive id with
      | none => some (none, store)
      | some existing =>
          let body := body.normalized toLowerCase
          if isSlug body.slug then some (some (.updateSpace existing body), store)
          else some (none, store)
  | .updateSpace existing body =>
      some (goOn store (store.checkSpace body) (.updateHierarchy existing body))
  | .updateHierarchy existing body => (store.checkHierarchy existing.id body).map fun check =>
      goOn store check (afterHierarchy existing body)
  | .updateCounts existing body (some documents) (some children) =>
      if documents > 0 || children > 0 then some (none, store)
      else some (some (.updateWrite existing body), store)
  | .updateCounts existing body documents children =>
      if children.isNone && (choice.childrenFirst || documents.isSome) then
        some (some (.updateCounts existing body documents (store.childCount existing.id)), store)
      else
        some (some (.updateCounts existing body (store.documentCount existing.id) children), store)
  | .updateWrite existing body => some (none, (store.updateRow existing.id body).getD store)
  | .delete id =>
      match store.findLive id with
      | none => some (none, store)
      | some existing => some (some (.deleteCount existing), store)
  | .deleteCount existing => some (some (.deleteTransaction existing), store)
  | .deleteTransaction existing => some (none, store.archiveRow existing)

def CategoryRequest.initial : CategoryRequest → Bool
  | .create _ | .update _ _ | .delete _ => true
  | _ => false

def categoryProgram (toLowerCase : String → String) :
    Concurrent CategoryStore CategoryRequest CategoryChoice where
  drift time store := if store.clock ≤ time then some { store with clock := time } else none
  start := CategoryRequest.initial
  advance _ := categoryAdvance toLowerCase

abbrev CategoryConfig : Type := Concurrent.Config CategoryStore CategoryRequest

abbrev CategoryMove : Type := Concurrent.Move CategoryRequest CategoryChoice

/-- Runs from tables without categories. -/
abbrev categorySystem (toLowerCase : String → String) : System CategoryConfig CategoryMove :=
  (categoryProgram toLowerCase).system fun store => store.categories = []

end IsmsPortal
