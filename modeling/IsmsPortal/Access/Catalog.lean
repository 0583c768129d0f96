import IsmsPortal.Access.Agreement
import IsmsPortal.Destruction.Database
import IsmsPortal.Foundation.Condition

/-! # Documents and the conditions on them

Documents as lists and readers see them, and the where clauses of the queries
for them. `categoryDocumentWhere` turns the decisions for spaces into a clause;
it selects exactly the documents that `categoryAllowed` lets through.
-/

namespace IsmsPortal

open Foundation

/-- A version of a document: its language and the type of its file. -/
structure CatalogVersion where
  locale : String
  mimeType : String
deriving DecidableEq

/-- A row of `Document` with its relations. -/
structure CatalogDocument where
  id : Uuid
  spaceId : Uuid
  categoryId : Option Uuid
  status : DocumentStatus
  sensitive : Bool
  deletedAt : Option Int
  publishedAt : Option Int
  viewCount : Nat
  downloadCount : Nat
  externalUrl : Option String
  metadata : List (String × String)
  versions : List CatalogVersion
  /-- Identities that marked the document. -/
  favorites : List String
deriving DecidableEq

/-- A row of `SensitiveShare`. -/
structure SensitiveShare where
  documentId : Uuid
  recipient : String
  expiresAt : Option Int
  revokedAt : Option Int
deriving DecidableEq

/-- The tables behind lists and readers. Document and category ids are primary keys. -/
structure Library extends AccessStore where
  documents : List CatalogDocument
  sensitiveShares : List SensitiveShare
  documentIds : (documents.map CatalogDocument.id).Nodup
  categoryIds : (categories.map DocumentCategory.id).Nodup

/-! ## Conditions -/

/-- A condition on one metadata field. -/
inductive MetadataTest
  | equals (value : String)
  | contains (value : String)
  | gte (value : String)
  | lteNotEmpty (value : String)
deriving DecidableEq

/-- The conditions of where clauses on documents. -/
inductive DocumentAtom
  | notDeleted
  | metadata (path : String) (test : MetadataTest)
  | status (status : DocumentStatus)
  | space (id : Uuid)
  | spaceIn (ids : List Uuid)
  | uncategorized
  | categoryIn (ids : List Uuid)
  | idIn (ids : List Uuid)
  | favoriteOf (identity : String)
  | sensitive (value : Bool)
  | someVersion (locale mimeType : Option String)

abbrev DocumentWhere : Type := Condition DocumentAtom

/-- The database's tests of metadata fields. -/
abbrev MetadataRules : Type := MetadataTest → String → Bool

/-- A null column is in no list. -/
def DocumentAtom.holds (tests : MetadataRules) (document : CatalogDocument) : DocumentAtom → Bool
  | .notDeleted => document.deletedAt.isNone
  | .metadata path test => (document.metadata.lookup path).any (tests test)
  | .status expected => document.status = expected
  | .space id => document.spaceId = id
  | .spaceIn ids => document.spaceId ∈ ids
  | .uncategorized => document.categoryId.isNone
  | .categoryIn ids => document.categoryId.any (· ∈ ids)
  | .idIn ids => document.id ∈ ids
  | .favoriteOf identity => identity ∈ document.favorites
  | .sensitive value => document.sensitive = value
  | .someVersion locale mimeType => document.versions.any fun version =>
      locale.all (· = version.locale) && mimeType.all (· = version.mimeType)

/-- The document satisfies the clause. -/
def satisfies (tests : MetadataRules) (condition : DocumentWhere) (document : CatalogDocument) :
    Bool :=
  condition.accepts (DocumentAtom.holds tests document)

/-- The entry of one scope: without categories, the whole space. -/
def scopeWhere (scope : CategoryScope) : DocumentWhere :=
  .all (.atom (.space scope.id) ::
    match scope.aclCategories with
    | none => []
    | some categories =>
        [.any ((if scope.aclRoot = some true then [.atom .uncategorized] else []) ++
          [.atom (.categoryIn categories)])])

def categoryDocumentWhere (scopes : List CategoryScope) : DocumentWhere :=
  .any (scopes.map scopeWhere)

/-! ## Filter and check -/

section Agreement

variable {tests : MetadataRules}

theorem satisfies_scopeWhere (scope : CategoryScope) (document : CatalogDocument) :
    satisfies tests (scopeWhere scope) document = true ↔
      document.spaceId = scope.id ∧ categoryAllowed (some scope) document.categoryId = true := by
  obtain ⟨id, aclRoot, aclCategories⟩ := scope
  unfold satisfies scopeWhere
  cases aclCategories with
  | none => simp [DocumentAtom.holds, categoryAllowed]
  | some categories =>
      by_cases hroot : aclRoot = some true
      · cases hcategory : document.categoryId <;>
          simp [DocumentAtom.holds, categoryAllowed, hroot, hcategory]
      · cases hcategory : document.categoryId <;>
          simp [DocumentAtom.holds, categoryAllowed, hroot, hcategory]

theorem satisfies_categoryDocumentWhere {scopes : List CategoryScope}
    {document : CatalogDocument} :
    satisfies tests (categoryDocumentWhere scopes) document = true ↔
      ∃ scope ∈ scopes, document.spaceId = scope.id ∧
        categoryAllowed (some scope) document.categoryId = true := by
  have hscope : ∀ scope, satisfies tests (scopeWhere scope) document = true ↔ _ :=
    fun scope => satisfies_scopeWhere scope document
  unfold satisfies at hscope ⊢
  simp only [categoryDocumentWhere, Condition.accepts_any, List.any_map, List.any_eq_true,
    Function.comp_apply, hscope]

/-- With distinct spaces the entry of a document's space is the one that is found. -/
theorem exists_scope_iff {scopes : List CategoryScope}
    (hdistinct : (scopes.map CategoryScope.id).Nodup) {document : CatalogDocument} :
    (∃ scope ∈ scopes, document.spaceId = scope.id ∧
        categoryAllowed (some scope) document.categoryId = true) ↔
      categoryAllowed (scopes.find? (·.id = document.spaceId)) document.categoryId = true := by
  constructor
  · rintro ⟨scope, hscope, hspace, hallowed⟩
    have hsome : (scopes.find? (·.id = document.spaceId)).isSome := by
      rw [List.find?_isSome]
      exact ⟨scope, hscope, decide_eq_true hspace.symm⟩
    obtain ⟨found, hfound⟩ := Option.isSome_iff_exists.mp hsome
    have hid : found.id = scope.id := by
      rw [← hspace]
      simpa using List.find?_some hfound
    have hsame : found = scope :=
      List.inj_on_of_nodup_map hdistinct (List.mem_of_find?_eq_some hfound) hscope hid
    rw [hfound, hsame]
    exact hallowed
  · intro hallowed
    cases hfound : scopes.find? (·.id = document.spaceId) with
    | none =>
        rw [hfound] at hallowed
        cases hallowed
    | some scope =>
        refine ⟨scope, List.mem_of_find?_eq_some hfound, ?_, hfound ▸ hallowed⟩
        have hid : scope.id = document.spaceId := by simpa using List.find?_some hfound
        exact hid.symm

end Agreement

/-- The lookup of a document's space, as the list endpoint does it for a record. -/
def recordAllowed (records : List SpaceWithRule) (document : CatalogDocument) : Bool :=
  categoryAllowed ((records.find? (·.id = document.spaceId)).map SpaceWithRule.scope)
    document.categoryId

/-- The clause built from decisions for spaces. -/
def recordsWhere (records : List SpaceWithRule) : DocumentWhere :=
  categoryDocumentWhere (records.map SpaceWithRule.scope)

/-- **Filter and check agree.** For scopes of distinct spaces the clause selects a
document exactly when the check of its space's scope passes; so a query for a
permission returns exactly the documents the check grants. -/
theorem filter_agrees_with_check (tests : MetadataRules) :
    (∀ scopes : List CategoryScope, (scopes.map CategoryScope.id).Nodup →
      ∀ document : CatalogDocument,
        satisfies tests (categoryDocumentWhere scopes) document =
          categoryAllowed (scopes.find? (·.id = document.spaceId)) document.categoryId) ∧
    ∀ (text : TextRules) (db : AccessStore) (now : Int) (groups : List String)
      (permissions : List Permission) (only : Option Uuid) (permission : Permission)
      (documents : List CatalogDocument),
        let records := (permittedSpacesFor text db now groups permissions only permission).getD []
        documents.filter (satisfies tests (recordsWhere records)) =
          documents.filter (recordAllowed records) := by
  have hscopes : ∀ scopes : List CategoryScope, (scopes.map CategoryScope.id).Nodup →
      ∀ document : CatalogDocument,
        satisfies tests (categoryDocumentWhere scopes) document =
          categoryAllowed (scopes.find? (·.id = document.spaceId)) document.categoryId := by
    intro scopes hdistinct document
    rw [Bool.eq_iff_iff, satisfies_categoryDocumentWhere, exists_scope_iff hdistinct]
  refine ⟨hscopes, fun text db now groups permissions only permission documents => ?_⟩
  apply List.filter_congr
  intro document _
  unfold recordsWhere recordAllowed
  rw [hscopes _ _ document, List.find?_map]
  · rfl
  · rw [List.map_map]
    exact permittedSpacesFor_nodup

/-! ## Sample -/

/-- A published document of the space, in the given category. -/
def publishedIn (categoryId : Option Uuid) : CatalogDocument where
  id := ⟨"document", by decide⟩
  spaceId := itId
  categoryId := categoryId
  status := .published
  sensitive := false
  deletedAt := none
  publishedAt := some 0
  viewCount := 0
  downloadCount := 0
  externalUrl := none
  metadata := []
  versions := []
  favorites := []

/-- A scope with the procedures only: the clause and the check refuse the root. -/
theorem filter_agrees_with_check_root :
    categoryAllowed (some ⟨itId, some false, some [proceduresId]⟩) none = false ∧
    satisfies (fun _ _ => true) (categoryDocumentWhere [⟨itId, some false, some [proceduresId]⟩])
      (publishedIn none) = false := by
  refine ⟨rfl, ?_⟩
  rw [(filter_agrees_with_check fun _ _ => true).1 [⟨itId, some false, some [proceduresId]⟩]
    (List.nodup_singleton _) (publishedIn none)]
  rfl

end IsmsPortal
