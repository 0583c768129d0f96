import IsmsPortal.Categories.Hierarchy
import IsmsPortal.Foundation.Checks
import IsmsPortal.Foundation.Runs

/-! # Documents in the categories of their space

The requests that file documents and those that change categories, one request
after the other. A document outside the trash stays in a live category of its
own space, or in none, as long as no document is restored from the trash into a
category that has moved to another space: `updateCategory` does not count the
documents in the trash before it moves a category.
-/

namespace IsmsPortal

open Foundation

/-! ## Requests on categories -/

namespace CategoryStore

/-- `createCategory`, from the first query to the last. -/
def createCategory (toLowerCase : String → String) (store : CategoryStore) (newId : Uuid)
    (body : CategoryDto) : Except String CategoryStore := do
  let body := body.normalized toLowerCase
  unless isSlug body.slug do throw "Invalid slug"
  store.checkSpace body
  store.checkParent body
  match store.createRow newId body with
  | some after => return after
  | none => throw "Unique constraint failed"

/-- `updateCategory`, from the first query to the last; none when its walk does not end. -/
def updateCategory (toLowerCase : String → String) (store : CategoryStore) (id : Uuid)
    (body : CategoryDto) : Option (Except String CategoryStore) :=
  match store.findLive id with
  | none => some (.error "Not Found")
  | some existing =>
      let body := body.normalized toLowerCase
      if !isSlug body.slug then some (.error "Invalid slug")
      else match store.checkSpace body with
        | .error message => some (.error message)
        | .ok () => (store.checkHierarchy id body).map fun check => do
            check
            if existing.spaceId ≠ body.spaceId ∧
                (0 < store.documentCount id ∨ 0 < store.childCount id) then
              throw "A category with documents or subcategories cannot be moved between spaces"
            match store.updateRow id body with
            | some after => return after
            | none => throw "Unique constraint failed"

/-- `deleteCategory`, from the first query to the last. -/
def deleteCategory (store : CategoryStore) (id : Uuid) : Except String CategoryStore :=
  match store.findLive id with
  | none => .error "Not Found"
  | some existing => .ok (store.archiveRow existing)

/-! ## Requests on documents -/

/-- A document that is not in the trash. -/
def findDocument (store : CategoryStore) (id : Uuid) : Option FiledDocument :=
  store.documents.find? fun document => document.id = id && document.deletedAt.isNone

/-- Rewrite documents without changing their ids. -/
def mapDocuments (store : CategoryStore) (change : FiledDocument → FiledDocument)
    (hid : ∀ document, (change document).id = document.id) : CategoryStore where
  __ := store
  documents := store.documents.map change
  documentIds := by
    rw [List.map_map, show FiledDocument.id ∘ change = FiledDocument.id from funext hid]
    exact store.documentIds

/-- The change of one document, if it is selected. -/
def changeIf (selects : FiledDocument → Bool) (change : FiledDocument → FiledDocument)
    (document : FiledDocument) : FiledDocument :=
  if selects document then { change document with id := document.id } else document

theorem changeIf_id (selects : FiledDocument → Bool) (change : FiledDocument → FiledDocument)
    (document : FiledDocument) : (changeIf selects change document).id = document.id := by
  unfold changeIf
  split <;> rfl

/-- `document.updateMany`. -/
def updateDocuments (store : CategoryStore) (selects : FiledDocument → Bool)
    (change : FiledDocument → FiledDocument) : CategoryStore :=
  store.mapDocuments (changeIf selects change) (changeIf_id selects change)

/-- The answers of the authorization service to one request. -/
abbrev Authority : Type := Permission → Uuid → Option Uuid → Bool

/-- The category is one of the live categories of the space. -/
def holdsCategory (store : CategoryStore) (spaceId categoryId : Uuid) : Bool :=
  (store.liveIn spaceId).any fun category => category.id = categoryId

def checkPlace (store : CategoryStore) (spaceId : Uuid) (categoryId : Option Uuid) :
    Except String Unit :=
  if (store.spaces.any fun space => space.id = spaceId && space.deletedAt.isNone) &&
      categoryId.all (store.holdsCategory spaceId) then .ok ()
  else .error "Invalid space or category"

/-- `upload` of moderators and users, or of administrators, who are not checked. A
version of an existing document leaves it where it is. -/
def upload (store : CategoryStore) (can : Authority) (admin : Bool) (documentId : Option Uuid)
    (spaceId : Uuid) (categoryId : Option Uuid) (newId : Uuid) : Except String CategoryStore :=
  match documentId with
  | some id => do
      let some existing := store.findDocument id | throw "Not Found"
      if existing.spaceId ≠ spaceId then throw "A version must remain in its document space"
      unless admin || can .edit spaceId existing.categoryId do throw "Not Found"
      store.checkPlace spaceId categoryId
      return store.updateDocuments (fun document => document.id = id)
        fun document => { document with updatedAt := store.clock }
  | none => do
      unless admin || can .upload spaceId categoryId do throw "Not Found"
      store.checkPlace spaceId categoryId
      if hfresh : newId ∈ store.documents.map FiledDocument.id then
        throw "Unique constraint failed"
      else
        return { store with
          documents := store.documents ++ [⟨newId, spaceId, categoryId, store.clock, none, none⟩]
          documentIds := Table.nodup_insert store.documentIds fun other hother heq =>
            hfresh (List.mem_map.mpr ⟨other, hother, heq⟩) }

/-- `updateMetadata`. The category is omitted, null or an id. -/
def updateMetadata (store : CategoryStore) (can : Authority) (id : Uuid)
    (category : Option (Option Uuid)) (expectedUpdatedAt : Option Int) :
    Except String CategoryStore := do
  let some document := store.findDocument id | throw "Not Found"
  unless can .edit document.spaceId document.categoryId do throw "Not Found"
  unless category.join.all (store.holdsCategory document.spaceId) do
    throw "Invalid category for this document space"
  unless category.all fun target =>
      target = document.categoryId || can .edit document.spaceId target do throw "Not Found"
  unless expectedUpdatedAt.all (· = document.updatedAt) do
    throw "Document changed; reopen the editor before saving"
  return store.updateDocuments (fun other => other.id = id) fun other => { other with
    categoryId := category.getD other.categoryId
    updatedAt := max store.clock (other.updatedAt + 1) }

/-- `updateCategory` of a document. -/
def updateDocumentCategory (store : CategoryStore) (can : Authority) (id : Uuid)
    (categoryId : Option Uuid) : Except String CategoryStore := do
  let some document := store.findDocument id | throw "Not Found"
  unless can .edit document.spaceId document.categoryId do throw "Not Found"
  unless categoryId.all (store.holdsCategory document.spaceId) do
    throw "Invalid category for this document space"
  unless can .edit document.spaceId categoryId do throw "Not Found"
  return store.updateDocuments (fun other => other.id = id) fun other => { other with
    categoryId := categoryId
    updatedAt := store.clock }

/-- The checks of `bulkPreview` for one document, and the timestamp that `apply` asks for. -/
def checkBulkDocument (store : CategoryStore) (can : Authority) (category : Option (Option Uuid))
    (entry : Uuid × Option Int) : Except String Unit := do
  let some document := store.findDocument entry.1 | throw "Not Found"
  unless can .edit document.spaceId document.categoryId do throw "Not Found"
  unless category.all fun target => can .edit document.spaceId target &&
      target.all (store.holdsCategory document.spaceId) do throw "Not Found"
  unless entry.2 = some document.updatedAt do
    throw "Document changed; preview the changes again"

/-- `apply` of a bulk change, with or without metadata. -/
def bulkApply (store : CategoryStore) (can : Authority) (documents : List (Uuid × Option Int))
    (category : Option (Option Uuid)) (hasMetadata : Bool) : Except String CategoryStore := do
  unless (documents.map Prod.fst).Nodup do throw "Duplicate document selection"
  unless category.isSome || hasMetadata do throw "Select a metadata or category change"
  unless category.join.all fun target => (store.findLive target).isSome do throw "Invalid category"
  documents.forM (store.checkBulkDocument can category)
  return store.updateDocuments (fun other => other.id ∈ documents.map Prod.fst) fun other =>
    { other with
      categoryId := category.getD other.categoryId
      updatedAt := max store.clock (other.updatedAt + 1) }

def removeByModerator (store : CategoryStore) (can : Authority) (id : Uuid) :
    Except String CategoryStore := do
  let some document := store.findDocument id | throw "Not Found"
  unless can .archive document.spaceId document.categoryId do throw "Not Found"
  return store.updateDocuments (fun other => other.id = id) fun other => { other with
    deletedAt := some store.clock
    updatedAt := store.clock }

def restoreFromTrash (store : CategoryStore) (id : Uuid) : Except String CategoryStore :=
  if store.documents.any fun document =>
      document.id = id && document.deletedAt.isSome && document.destroyedAt.isNone then
    .ok (store.updateDocuments
      (fun document => document.id = id && document.deletedAt.isSome && document.destroyedAt.isNone)
      fun document => { document with deletedAt := none, updatedAt := store.clock })
  else .error "Document not found in trash"

end CategoryStore

/-! ## Runs -/

inductive FilingOperation
  | upload (admin : Bool) (documentId : Option Uuid) (spaceId : Uuid) (categoryId : Option Uuid)
      (newId : Uuid)
  | updateMetadata (id : Uuid) (category : Option (Option Uuid)) (expectedUpdatedAt : Option Int)
  | updateDocumentCategory (id : Uuid) (categoryId : Option Uuid)
  | bulkApply (documents : List (Uuid × Option Int)) (category : Option (Option Uuid))
      (hasMetadata : Bool)
  | removeByModerator (id : Uuid)
  | restoreFromTrash (id : Uuid)
  | createCategory (newId : Uuid) (body : CategoryDto)
  | updateCategory (id : Uuid) (body : CategoryDto)
  | deleteCategory (id : Uuid)

/-- A request, when it is made, with the answers of the authorization service. It may
be refused for reasons that have nothing to do with the placement of documents:
a lock, the format of a file, a missing metadata field. -/
structure FilingRequest where
  operation : FilingOperation
  now : Int
  can : CategoryStore.Authority
  refused : Bool

/-- The result of a request; none when it does not end. -/
def answer (toLowerCase : String → String) (store : CategoryStore) (can : CategoryStore.Authority) :
    FilingOperation → Option (Except String CategoryStore)
  | .upload admin documentId spaceId categoryId newId =>
      some (store.upload can admin documentId spaceId categoryId newId)
  | .updateMetadata id category expectedUpdatedAt =>
      some (store.updateMetadata can id category expectedUpdatedAt)
  | .updateDocumentCategory id categoryId => some (store.updateDocumentCategory can id categoryId)
  | .bulkApply documents category hasMetadata =>
      some (store.bulkApply can documents category hasMetadata)
  | .removeByModerator id => some (store.removeByModerator can id)
  | .restoreFromTrash id => some (store.restoreFromTrash id)
  | .createCategory newId body => some (store.createCategory toLowerCase newId body)
  | .updateCategory id body => store.updateCategory toLowerCase id body
  | .deleteCategory id => some (store.deleteCategory id)

/-- The tables after a request. A request that fails changes nothing. -/
def performed (toLowerCase : String → String) (store : CategoryStore) (request : FilingRequest) :
    Option CategoryStore :=
  if request.refused then some store
  else (answer toLowerCase store request.can request.operation).map fun result =>
    result.toOption.getD store

/-- Requests one after the other, from empty tables. -/
def filingSystem (toLowerCase : String → String) : System CategoryStore FilingRequest where
  init store := store.categories = [] ∧ store.documents = []
  step store request after := store.clock ≤ request.now ∧
    performed toLowerCase { store with clock := request.now } request = some after

/-! ## What is filed where -/

/-- The category of the document, if any, is live. -/
def Known (store : CategoryStore) (document : FiledDocument) : Prop :=
  ∀ categoryId, document.categoryId = some categoryId →
    ∃ category ∈ store.live, category.id = categoryId

/-- The category of the document, if any, is live and in the space of the document. -/
def Placed (store : CategoryStore) (document : FiledDocument) : Prop :=
  ∀ categoryId, document.categoryId = some categoryId →
    ∃ category ∈ store.live, category.id = categoryId ∧ category.spaceId = document.spaceId

/-- Documents in the trash keep a live category, which may have left their space. -/
structure Filed (store : CategoryStore) : Prop where
  known : ∀ document ∈ store.documents, Known store document
  placed : ∀ document ∈ store.documents, document.deletedAt = none → Placed store document

/-- The document stands where another one stood, which was outside the trash if it is. -/
structure Stays (before document : FiledDocument) : Prop where
  space : document.spaceId = before.spaceId
  category : document.categoryId = before.categoryId
  live : document.deletedAt = none → before.deletedAt = none

section Documents

variable {store after : CategoryStore} {can : CategoryStore.Authority} {id : Uuid}

theorem Placed.known {document : FiledDocument} (hplaced : Placed store document) :
    Known store document := by
  intro categoryId hcategory
  obtain ⟨category, hlive, hid, -⟩ := hplaced categoryId hcategory
  exact ⟨category, hlive, hid⟩

/-- A request that leaves the categories alone files each document anew or leaves it
where it was. -/
theorem Filed.of_documents (hfiled : Filed store)
    (hcategories : after.categories = store.categories)
    (hdocuments : ∀ document ∈ after.documents, Placed store document ∨
      ∃ before ∈ store.documents, Stays before document) : Filed after := by
  have hlive : after.live = store.live := by
    rw [CategoryStore.live, hcategories, CategoryStore.live]
  constructor
  · intro document hdocument categoryId hcategory
    rw [hlive]
    rcases hdocuments document hdocument with hplaced | ⟨before, hbefore, hstays⟩
    · exact hplaced.known categoryId hcategory
    · exact hfiled.known before hbefore categoryId (hstays.category ▸ hcategory)
  · intro document hdocument houtside categoryId hcategory
    rw [hlive]
    rcases hdocuments document hdocument with hplaced | ⟨before, hbefore, hstays⟩
    · exact hplaced categoryId hcategory
    · rw [hstays.space]
      exact hfiled.placed before hbefore (hstays.live houtside) categoryId
        (hstays.category ▸ hcategory)

theorem Filed.updateDocuments (hfiled : Filed store) {selects : FiledDocument → Bool}
    {change : FiledDocument → FiledDocument}
    (hchange : ∀ before ∈ store.documents, selects before = true →
      Placed store (change before) ∨ Stays before (change before)) :
    Filed (store.updateDocuments selects change) := by
  refine hfiled.of_documents rfl fun document hdocument => ?_
  obtain ⟨before, hbefore, rfl⟩ := List.mem_map.mp hdocument
  unfold CategoryStore.changeIf
  split
  next hselects =>
    rcases hchange before hbefore hselects with hplaced | hstays
    · exact .inl hplaced
    · exact .inr ⟨before, hbefore, hstays.space, hstays.category, hstays.live⟩
  next => exact .inr ⟨before, hbefore, rfl, rfl, fun houtside => houtside⟩

theorem placed_of_holdsCategory {document : FiledDocument}
    (hholds : document.categoryId.all (store.holdsCategory document.spaceId) = true) :
    Placed store document := by
  intro categoryId hcategory
  rw [hcategory, Option.all_some, CategoryStore.holdsCategory, List.any_eq_true] at hholds
  obtain ⟨category, hmem, hid⟩ := hholds
  obtain ⟨hlive, hspace⟩ := CategoryStore.mem_liveIn.mp hmem
  exact ⟨category, hlive, by simpa using hid, hspace⟩

/-- The document that a request found is the only one with its id. -/
theorem CategoryStore.eq_of_findDocument {document other : FiledDocument}
    (hfound : store.findDocument id = some document) (hother : other ∈ store.documents)
    (hid : other.id = id) : other = document := by
  have hmem := List.mem_of_find?_eq_some hfound
  have hselected := List.find?_some hfound
  simp only [Bool.and_eq_true, decide_eq_true_eq] at hselected
  exact List.inj_on_of_nodup_map store.documentIds hother hmem (hid.trans hselected.1.symm)

theorem placed_of_checkPlace {document : FiledDocument}
    (hcheck : store.checkPlace document.spaceId document.categoryId = .ok ()) :
    Placed store document := by
  unfold CategoryStore.checkPlace at hcheck
  split at hcheck
  next hboth =>
    rw [Bool.and_eq_true] at hboth
    exact placed_of_holdsCategory hboth.2
  next => cases hcheck

theorem Filed.upload (hfiled : Filed store) {admin : Bool} {documentId : Option Uuid}
    {spaceId newId : Uuid} {categoryId : Option Uuid}
    (hupload : store.upload can admin documentId spaceId categoryId newId = .ok after) :
    Filed after := by
  unfold CategoryStore.upload at hupload
  cases documentId with
  | some id =>
      cases hfound : store.findDocument id with
      | none => simp only [hfound, Checks.not_accepts_throw] at hupload
      | some existing =>
          simp only [hfound, Checks.accepts_if, Checks.accepts_unless, Checks.accepts_bind,
            Checks.accepts_pure] at hupload
          obtain ⟨-, -, -, -, rfl⟩ := hupload
          apply hfiled.updateDocuments
          intro before _ _
          exact .inr ⟨rfl, rfl, fun houtside => houtside⟩
  | none =>
      simp only [Checks.accepts_unless, Checks.accepts_bind] at hupload
      obtain ⟨-, _, hcheck, hwrite⟩ := hupload
      split at hwrite
      · cases hwrite
      · cases hwrite
        refine hfiled.of_documents rfl fun document hdocument => ?_
        rcases List.mem_append.mp hdocument with hbefore | hnew
        · exact .inr ⟨document, hbefore, rfl, rfl, fun houtside => houtside⟩
        · rw [List.mem_singleton] at hnew
          subst hnew
          exact .inl (placed_of_checkPlace hcheck)

/-- A category that the request omits stays; another one was looked up in the space. -/
theorem placed_or_stays {category : Option (Option Uuid)} {before document : FiledDocument}
    (hholds : category.join.all (store.holdsCategory before.spaceId) = true)
    (hspace : document.spaceId = before.spaceId)
    (hcategory : document.categoryId = category.getD before.categoryId)
    (hdeleted : document.deletedAt = before.deletedAt) :
    Placed store document ∨ Stays before document := by
  cases category with
  | none => exact .inr ⟨hspace, hcategory, fun houtside => hdeleted ▸ houtside⟩
  | some target =>
      rw [Option.getD_some] at hcategory
      rw [Option.join_some, ← hcategory, ← hspace] at hholds
      exact .inl (placed_of_holdsCategory hholds)

theorem Filed.updateMetadata (hfiled : Filed store) {category : Option (Option Uuid)}
    {expectedUpdatedAt : Option Int}
    (hupdate : store.updateMetadata can id category expectedUpdatedAt = .ok after) :
    Filed after := by
  unfold CategoryStore.updateMetadata at hupdate
  cases hfound : store.findDocument id with
  | none => simp only [hfound, Checks.not_accepts_throw] at hupdate
  | some document =>
      simp only [hfound, Checks.accepts_unless, Checks.accepts_pure] at hupdate
      obtain ⟨-, hholds, -, -, rfl⟩ := hupdate
      apply hfiled.updateDocuments
      intro before hbefore hselects
      obtain rfl := CategoryStore.eq_of_findDocument hfound hbefore (by simpa using hselects)
      exact placed_or_stays hholds rfl rfl rfl

theorem Filed.updateDocumentCategory (hfiled : Filed store) {categoryId : Option Uuid}
    (hupdate : store.updateDocumentCategory can id categoryId = .ok after) : Filed after := by
  unfold CategoryStore.updateDocumentCategory at hupdate
  cases hfound : store.findDocument id with
  | none => simp only [hfound, Checks.not_accepts_throw] at hupdate
  | some document =>
      simp only [hfound, Checks.accepts_unless, Checks.accepts_pure] at hupdate
      obtain ⟨-, hholds, -, rfl⟩ := hupdate
      apply hfiled.updateDocuments
      intro before hbefore hselects
      obtain rfl := CategoryStore.eq_of_findDocument hfound hbefore (by simpa using hselects)
      exact .inl (placed_of_holdsCategory hholds)

/-- A document that passes the checks of `apply` may go to the category. -/
theorem holds_of_checkBulkDocument {category : Option (Option Uuid)} {entry : Uuid × Option Int}
    (hcheck : store.checkBulkDocument can category entry = .ok ()) {before : FiledDocument}
    (hbefore : before ∈ store.documents) (hid : before.id = entry.1) :
    category.join.all (store.holdsCategory before.spaceId) = true := by
  unfold CategoryStore.checkBulkDocument at hcheck
  cases hfound : store.findDocument entry.1 with
  | none => simp only [hfound, Checks.not_accepts_throw] at hcheck
  | some document =>
      obtain rfl := CategoryStore.eq_of_findDocument hfound hbefore hid
      simp only [hfound, Checks.accepts_unless] at hcheck
      obtain ⟨-, htarget, -⟩ := hcheck
      cases category with
      | none => rfl
      | some target =>
          rw [Option.all_some, Bool.and_eq_true] at htarget
          exact htarget.2

theorem Filed.bulkApply (hfiled : Filed store) {documents : List (Uuid × Option Int)}
    {category : Option (Option Uuid)} {hasMetadata : Bool}
    (happly : store.bulkApply can documents category hasMetadata = .ok after) : Filed after := by
  unfold CategoryStore.bulkApply at happly
  simp only [Checks.accepts_unless, Checks.accepts_bind, Checks.accepts_forM,
    Checks.accepts_pure] at happly
  obtain ⟨-, -, -, _, hchecks, rfl⟩ := happly
  apply hfiled.updateDocuments
  intro before hbefore hselects
  obtain ⟨entry, hentry, hid⟩ := List.mem_map.mp (of_decide_eq_true hselects)
  exact placed_or_stays (holds_of_checkBulkDocument (hchecks entry hentry) hbefore hid.symm)
    rfl rfl rfl

theorem Filed.removeByModerator (hfiled : Filed store)
    (hremove : store.removeByModerator can id = .ok after) : Filed after := by
  unfold CategoryStore.removeByModerator at hremove
  cases hfound : store.findDocument id with
  | none => simp only [hfound, Checks.not_accepts_throw] at hremove
  | some document =>
      simp only [hfound, Checks.accepts_unless, Checks.accepts_pure] at hremove
      obtain ⟨-, rfl⟩ := hremove
      apply hfiled.updateDocuments
      intro before _ _
      exact .inr ⟨rfl, rfl, fun houtside => (Option.some_ne_none _ houtside).elim⟩

/-- The category of the document has not left the space while it was in the trash. -/
def StillInSpace (store : CategoryStore) (id : Uuid) : Prop :=
  ∀ document ∈ store.documents, document.id = id → ∀ category ∈ store.categories,
    document.categoryId = some category.id → category.spaceId = document.spaceId

theorem Filed.restoreFromTrash (hfiled : Filed store) (hspace : StillInSpace store id)
    (hrestore : store.restoreFromTrash id = .ok after) : Filed after := by
  unfold CategoryStore.restoreFromTrash at hrestore
  split at hrestore
  · cases hrestore
    apply hfiled.updateDocuments
    intro before hbefore hselects
    left
    intro categoryId hcategory
    simp only [Bool.and_eq_true, decide_eq_true_eq] at hselects
    obtain ⟨category, hlive, hid⟩ := hfiled.known before hbefore categoryId hcategory
    refine ⟨category, hlive, hid, ?_⟩
    apply hspace before hbefore hselects.1.1 category (CategoryStore.mem_live.mp hlive).1
    rw [hid]
    exact hcategory
  · cases hrestore

end Documents

section Categories

variable {toLowerCase : String → String} {store after : CategoryStore} {id : Uuid}
variable {body : CategoryDto}

theorem Filed.createCategory (hfiled : Filed store)
    (hcreate : store.createCategory toLowerCase id body = .ok after) : Filed after := by
  unfold CategoryStore.createCategory at hcreate
  simp only [Checks.accepts_unless, Checks.accepts_bind] at hcreate
  obtain ⟨-, _, -, _, -, hwrite⟩ := hcreate
  split at hwrite
  next created hcreated =>
    cases hwrite
    obtain ⟨-, hcategories, hdocuments, -⟩ := createRow_eq_some hcreated
    have hlive : ∀ category ∈ store.live, category ∈ after.live := by
      intro category hcategory
      obtain ⟨hmem, hnot⟩ := CategoryStore.mem_live.mp hcategory
      rw [CategoryStore.mem_live, hcategories]
      exact ⟨List.mem_append_left _ hmem, hnot⟩
    constructor
    · intro document hdocument categoryId hcategory
      rw [hdocuments] at hdocument
      obtain ⟨category, hmem, hid⟩ := hfiled.known document hdocument categoryId hcategory
      exact ⟨category, hlive category hmem, hid⟩
    · intro document hdocument houtside categoryId hcategory
      rw [hdocuments] at hdocument
      obtain ⟨category, hmem, hid⟩ := hfiled.placed document hdocument houtside categoryId hcategory
      exact ⟨category, hlive category hmem, hid⟩
  next => cases hwrite

/-- Only a category without documents outside the trash leaves its space. -/
theorem Filed.updateRow (hfiled : Filed store)
    (hmoves : ∀ category ∈ store.live, category.id = id → category.spaceId ≠ body.spaceId →
      store.documentCount id = 0)
    (hupdate : store.updateRow id body = some after) : Filed after := by
  obtain ⟨hcategories, hdocuments, -⟩ := updateRow_eq_some hupdate
  constructor
  · intro document hdocument categoryId hcategory
    rw [hdocuments] at hdocument
    obtain ⟨category, hmem, hid⟩ := hfiled.known document hdocument categoryId hcategory
    exact ⟨_, (mem_live_update hcategories).mpr ⟨category, hmem, rfl⟩,
      (updatedCategory_id category).trans hid⟩
  · intro document hdocument houtside categoryId hcategory
    rw [hdocuments] at hdocument
    obtain ⟨category, hmem, hid, hspace⟩ :=
      hfiled.placed document hdocument houtside categoryId hcategory
    refine ⟨_, (mem_live_update hcategories).mpr ⟨category, hmem, rfl⟩,
      (updatedCategory_id category).trans hid, ?_⟩
    by_cases htarget : category.id = id
    · rw [← hspace, updatedCategory, if_pos htarget]
      by_contra hleaves
      have hcount := hmoves category hmem htarget (Ne.symm hleaves)
      rw [CategoryStore.documentCount, List.countP_eq_zero] at hcount
      apply hcount document hdocument
      simp [hcategory, houtside, ← hid, htarget]
    · rw [updatedCategory_of_ne htarget, hspace]

theorem Filed.updateCategory (hfiled : Filed store)
    (hupdate : store.updateCategory toLowerCase id body = some (.ok after)) : Filed after := by
  unfold CategoryStore.updateCategory at hupdate
  split at hupdate
  · cases hupdate
  next existing hfound =>
    simp only at hupdate
    split at hupdate
    · cases hupdate
    split at hupdate
    · cases hupdate
    obtain ⟨check, -, hchecked⟩ := Option.map_eq_some_iff.mp hupdate
    simp only [Checks.accepts_bind, Checks.accepts_if] at hchecked
    obtain ⟨_, -, hcount, hwrite⟩ := hchecked
    split at hwrite
    next updated hupdated =>
      cases hwrite
      refine hfiled.updateRow (fun category hmem hid hleaves => ?_) hupdated
      have hexisting := List.find?_some hfound
      simp only [Bool.and_eq_true, decide_eq_true_eq] at hexisting
      have hsame : category = existing := CategoryStore.eq_of_id (CategoryStore.mem_live.mp hmem).1
        (List.mem_of_find?_eq_some hfound) (hid.trans hexisting.1.symm)
      rw [hsame] at hleaves
      by_contra hdocuments
      exact hcount ⟨hleaves, .inl (Nat.pos_of_ne_zero hdocuments)⟩
    next => cases hwrite

theorem Filed.deleteCategory (hfiled : Filed store)
    (hdelete : store.deleteCategory id = .ok after) : Filed after := by
  unfold CategoryStore.deleteCategory at hdelete
  split at hdelete
  · cases hdelete
  next existing hfound =>
    cases hdelete
    -- A document that still has a category did not have the archived one.
    have hkept : ∀ document ∈ (store.archiveRow existing).documents, ∀ categoryId,
        document.categoryId = some categoryId →
          document ∈ store.documents ∧ categoryId ≠ existing.id := by
      intro document hdocument categoryId hcategory
      obtain ⟨before, hbefore, rfl⟩ := List.mem_map.mp hdocument
      unfold CategoryStore.uncategorized at hcategory ⊢
      split at hcategory
      · cases hcategory
      next hother =>
        rw [if_neg hother]
        refine ⟨hbefore, fun heq => hother ?_⟩
        rw [hcategory, heq]
    constructor
    · intro document hdocument categoryId hcategory
      obtain ⟨hbefore, hne⟩ := hkept document hdocument categoryId hcategory
      obtain ⟨category, hmem, hid⟩ := hfiled.known document hbefore categoryId hcategory
      exact ⟨_, mem_live_archive.mpr ⟨category, hmem, hid ▸ hne, rfl⟩, hid⟩
    · intro document hdocument houtside categoryId hcategory
      obtain ⟨hbefore, hne⟩ := hkept document hdocument categoryId hcategory
      obtain ⟨category, hmem, hid, hspace⟩ :=
        hfiled.placed document hbefore houtside categoryId hcategory
      exact ⟨_, mem_live_archive.mpr ⟨category, hmem, hid ▸ hne, rfl⟩, hid, hspace⟩

end Categories

/-! ## Runs that keep documents in their space -/

/-- Documents come back from the trash only into categories of their space. -/
def RestoresInSpace (store : CategoryStore) (request : FilingRequest) : Prop :=
  ∀ id, request.operation = .restoreFromTrash id → StillInSpace store id

theorem filed_answer {toLowerCase : String → String} {store after : CategoryStore}
    {request : FilingRequest} (hfiled : Filed store) (hrestores : RestoresInSpace store request)
    (hanswer : answer toLowerCase store request.can request.operation = some (.ok after)) :
    Filed after := by
  obtain ⟨operation, now, can, refused⟩ := request
  cases operation with
  | upload admin documentId spaceId categoryId newId =>
      exact hfiled.upload (Option.some.inj hanswer)
  | updateMetadata id category expectedUpdatedAt =>
      exact hfiled.updateMetadata (Option.some.inj hanswer)
  | updateDocumentCategory id categoryId =>
      exact hfiled.updateDocumentCategory (Option.some.inj hanswer)
  | bulkApply documents category hasMetadata => exact hfiled.bulkApply (Option.some.inj hanswer)
  | removeByModerator id => exact hfiled.removeByModerator (Option.some.inj hanswer)
  | restoreFromTrash id =>
      exact hfiled.restoreFromTrash (hrestores id rfl) (Option.some.inj hanswer)
  | createCategory newId body => exact hfiled.createCategory (Option.some.inj hanswer)
  | updateCategory id body => exact hfiled.updateCategory hanswer
  | deleteCategory id => exact hfiled.deleteCategory (Option.some.inj hanswer)

theorem filed_performed {toLowerCase : String → String} {store after : CategoryStore}
    {request : FilingRequest} (hfiled : Filed store) (hrestores : RestoresInSpace store request)
    (hperformed : performed toLowerCase store request = some after) : Filed after := by
  unfold performed at hperformed
  split at hperformed
  · cases hperformed
    exact hfiled
  · obtain ⟨result, hanswer, hafter⟩ := Option.map_eq_some_iff.mp hperformed
    cases result with
    | error message => exact hafter ▸ hfiled
    | ok written => exact hafter ▸ filed_answer hfiled hrestores hanswer

theorem filed_reachable {toLowerCase : String → String} {store : CategoryStore}
    (hreach : (filingSystem toLowerCase).ReachableWhile RestoresInSpace store) : Filed store := by
  apply hreach.invariant
  · intro start hinit
    constructor
    · intro document hdocument
      rw [hinit.2] at hdocument
      cases hdocument
    · intro document hdocument
      rw [hinit.2] at hdocument
      cases hdocument
  · intro before request after hfiled hrestores hstep
    have hclock : Filed { before with clock := request.now } := ⟨hfiled.known, hfiled.placed⟩
    exact filed_performed hclock hrestores hstep.2

/-- A document outside the trash is in no category or in a live one of its space. -/
theorem documents_in_their_space {toLowerCase : String → String} {store : CategoryStore}
    (hreach : (filingSystem toLowerCase).ReachableWhile RestoresInSpace store) :
    ∀ document ∈ store.documents, document.deletedAt = none →
      document.categoryId = none ∨ ∃ category ∈ store.live,
        document.categoryId = some category.id ∧ category.spaceId = document.spaceId := by
  intro document hdocument houtside
  cases hcategory : document.categoryId with
  | none => exact .inl rfl
  | some categoryId =>
      obtain ⟨category, hlive, hid, hspace⟩ :=
        (filed_reachable hreach).placed document hdocument houtside categoryId hcategory
      exact .inr ⟨category, hlive, by rw [hid], hspace⟩

/-! ## Sample -/

instance (store : CategoryStore) (id : Uuid) : Decidable (StillInSpace store id) :=
  inferInstanceAs (Decidable (∀ document ∈ store.documents, document.id = id →
    ∀ category ∈ store.categories,
      document.categoryId = some category.id → category.spaceId = document.spaceId))

def staffId : Uuid := ⟨"staff", by decide⟩

def leaveId : Uuid := ⟨"leave", by decide⟩

/-- Two spaces without categories. -/
def emptySpaces : CategoryStore :=
  ⟨0, [⟨itId, "it", none, none⟩, ⟨staffId, "staff", none, none⟩], [], [], List.nodup_nil,
    List.nodup_nil⟩

/-- A document of the first space in the guides, which are in the given space. -/
def filedGuide (spaceId : Uuid) : CategoryStore where
  clock := 1
  spaces := emptySpaces.spaces
  categories := [⟨guidesId, "guides", spaceId, none, none⟩]
  documents := [⟨leaveId, itId, some guidesId, 1, none, none⟩]
  categoryIds := List.nodup_singleton _
  documentIds := List.nodup_singleton _

/-- A request that is not refused. -/
def filing (operation : FilingOperation) : FilingRequest := ⟨operation, 1, fun _ _ _ => true, false⟩

/-- A document is filed in the guides and goes to the trash. -/
def discarded : List FilingRequest :=
  [filing (.createCategory guidesId (guideDto guidesId none)),
    filing (.upload false none itId (some guidesId) leaveId), filing (.removeByModerator leaveId)]

/-- The next state, if the request restores no document outside its space. -/
def filingNext (store : CategoryStore) (request : FilingRequest) : Option CategoryStore :=
  match request.operation with
  | .restoreFromTrash id => if store.clock ≤ request.now ∧ StillInSpace store id then
      performed String.toLower { store with clock := request.now } request else none
  | _ => if store.clock ≤ request.now then
      performed String.toLower { store with clock := request.now } request else none

theorem filingNext_step {store after : CategoryStore} {request : FilingRequest}
    (hnext : filingNext store request = some after) :
    RestoresInSpace store request ∧ (filingSystem String.toLower).step store request after := by
  unfold filingNext at hnext
  split at hnext
  next id hoperation =>
    rw [Option.ite_none_right_eq_some] at hnext
    refine ⟨fun other hother => ?_, hnext.1.1, hnext.2⟩
    rw [hoperation] at hother
    cases hother
    exact hnext.1.2
  next hother =>
    rw [Option.ite_none_right_eq_some] at hnext
    exact ⟨fun id hoperation => (hother id hoperation).elim, hnext.1, hnext.2⟩

/-- The document comes back from the trash to the guides of its space. -/
theorem documents_in_their_space_guides :
    (filingSystem String.toLower).ReachableWhile RestoresInSpace (filedGuide itId) ∧
    ∀ document ∈ (filedGuide itId).documents, document.deletedAt = none →
      document.categoryId = none ∨ ∃ category ∈ (filedGuide itId).live,
        document.categoryId = some category.id ∧ category.spaceId = document.spaceId := by
  have hrun : System.execute filingNext emptySpaces
      (discarded ++ [filing (.restoreFromTrash leaveId)]) = some (filedGuide itId) := by
    decide +kernel
  have hreach := System.ReachableWhile.execute (fun _ _ _ => filingNext_step) hrun
    (.init ⟨rfl, rfl⟩)
  exact ⟨hreach, documents_in_their_space hreach⟩

/-- The guides move to another space while their document is in the trash, and the
document comes back to them. -/
def movedMeanwhile : List FilingRequest :=
  discarded ++ [filing (.updateCategory guidesId ⟨"guides", staffId, none⟩),
    filing (.restoreFromTrash leaveId)]

theorem restored_outside_space :
    (filingSystem String.toLower).Reachable (filedGuide staffId) ∧
    ∃ document ∈ (filedGuide staffId).documents, document.deletedAt = none ∧
      document.categoryId = some guidesId ∧ document.spaceId = itId ∧
      ∀ category ∈ (filedGuide staffId).categories, category.id = guidesId →
        category.spaceId ≠ document.spaceId := by
  have hrun : System.execute (fun store request => if store.clock ≤ request.now then
      performed String.toLower { store with clock := request.now } request else none) emptySpaces
        movedMeanwhile = some (filedGuide staffId) := by
    decide +kernel
  refine ⟨?_, by decide⟩
  refine System.ReachableWhile.execute (fun store request after hnext => ?_) hrun
    (.init ⟨rfl, rfl⟩)
  rw [Option.ite_none_right_eq_some] at hnext
  exact ⟨trivial, hnext⟩

end IsmsPortal
