import IsmsPortal.Access.Catalog
import IsmsPortal.Foundation.JsString

/-! # Listing and reading documents

`DocumentsController.list` builds one where clause from the permitted spaces of
several permissions; `one` and `visibleDocument` decide for a single document by
its status. A listed document that is not published can always be opened. A
published one is listed for its managers and, in a search, for everyone with
`search`, while opening it takes `read`.
-/

namespace IsmsPortal

open Foundation

/-- What the list endpoint takes from outside: conversions of numbers, the full
text search (a raw query of at most 500 rows) and tests of metadata. -/
structure ListRules where
  /-- `Number(text)`, if it is a safe integer. -/
  safeInteger : String → Option Int
  fullText : List CatalogDocument → String → List Uuid
  tests : MetadataRules

/-! ## Metadata filters -/

/-- A value of the query string; repeated parameters are not text. -/
inductive FilterValue
  | text (value : String)
  | other
deriving DecidableEq

inductive FilterKey
  | reference
  | owner
  | documentType
  | keywords
  | reviewFrom
  | reviewTo
deriving DecidableEq

def documentFilterKeys : List FilterKey :=
  [.reference, .owner, .documentType, .keywords, .reviewFrom, .reviewTo]

abbrev DocumentFilters : Type := FilterKey → Option FilterValue

/-- The metadata field a filter looks at. -/
def FilterKey.path : FilterKey → String
  | .reference => "ged.reference"
  | .owner => "ged.owner"
  | .documentType => "ged.documentType"
  | .keywords => "ged.keywords"
  | .reviewFrom | .reviewTo => "ged.reviewDate"

def daysInMonth (year month : Nat) : Nat :=
  if month = 2 then
    if year % 4 = 0 ∧ (year % 100 ≠ 0 ∨ year % 400 = 0) then 29 else 28
  else if month ∈ [4, 6, 9, 11] then 30 else 31

def digitsValue (digits : List Char) : Nat :=
  digits.foldl (fun value digit => 10 * value + (digit.toNat - '0'.toNat)) 0

/-- A calendar day in the form `YYYY-MM-DD`, the year not 0000. -/
def isReviewDate (value : String) : Bool :=
  match value.toList with
  | [y1, y2, y3, y4, '-', m1, m2, '-', d1, d2] =>
      let year := digitsValue [y1, y2, y3, y4]
      let month := digitsValue [m1, m2]
      let day := digitsValue [d1, d2]
      [y1, y2, y3, y4, m1, m2, d1, d2].all Char.isDigit && year ≠ 0 &&
        (1 ≤ month ∧ month ≤ 12) && (1 ≤ day ∧ day ≤ daysInMonth year month)
  | _ => false

/-- The condition of one filter, none when it is absent or empty. -/
def metadataCondition (key : FilterKey) : Option FilterValue → Except String (Option DocumentAtom)
  | none | some (.text "") => .ok none
  | some .other => .error "Invalid document filter"
  | some (.text value) =>
      if 200 < JsString.length value then .error "Invalid document filter"
      else match key with
        | .reviewFrom =>
            if isReviewDate value then .ok (some (.metadata key.path (.gte value)))
            else .error "Invalid review date"
        | .reviewTo =>
            if isReviewDate value then .ok (some (.metadata key.path (.lteNotEmpty value)))
            else .error "Invalid review date"
        | .documentType =>
            if value ∈ ["policy", "procedure", "guide", "evidence", "record"] then
              .ok (some (.metadata key.path (.equals value)))
            else .error "Invalid document type"
        | _ => .ok (some (.metadata key.path (.contains value)))

def metadataWhere (filters : DocumentFilters) : Except String (List DocumentAtom) := do
  let conditions ← documentFilterKeys.mapM fun key => metadataCondition key (filters key)
  match filters .reviewFrom, filters .reviewTo with
  | some (.text reviewFrom), some (.text reviewTo) =>
      if reviewFrom ≠ "" ∧ reviewTo ≠ "" ∧ reviewTo < reviewFrom then
        throw "Invalid review date range"
  | _, _ => pure ()
  return conditions.filterMap id

/-! ## The list endpoint -/

/-- The parameters of a list request. -/
structure ListQuery where
  query : String
  category : Option String
  categoryId : Option String
  space : Option String
  sort : String
  page : Option String
  limit : String
  favorites : String
  format : String
  locale : String
  sensitive : String
  managed : String
  status : String
  filters : DocumentFilters

/-- The identity behind a request. -/
structure Identity where
  username : String
  groups : List String

structure ListItem where
  document : CatalogDocument
  externalUrl : Option String
  favorite : Bool
  permissions : List (Permission × Bool)

structure Pagination where
  page : Nat
  limit : Nat
  total : Nat
  totalPages : Nat

/-- A list, with its place in the whole when a page was asked for. -/
structure ListResult where
  items : List ListItem
  pagination : Option Pagination

def documentStatus : String → Option DocumentStatus
  | "DRAFT" => some .draft
  | "PUBLISHED" => some .published
  | "ARCHIVED" => some .archived
  | "QUARANTINED" => some .quarantined
  | _ => none

def mimeByFormat : String → Option String
  | "pdf" => some "application/pdf"
  | "docx" => some "application/vnd.openxmlformats-officedocument.wordprocessingml.document"
  | "xlsx" => some "application/vnd.openxmlformats-officedocument.spreadsheetml.sheet"
  | _ => none

def supportedLanguages : List String := ["fr", "en", "es", "sk"]

def permissionNames : List Permission := [.preview, .download, .upload, .edit, .publish, .archive]

def managementPermissions : List Permission := [.edit, .publish, .archive]

/-- A positive number of the query string up to a bound, or the default. -/
def boundedNumber (rules : ListRules) (bound default : Nat) (value : Option String) : Nat :=
  match value.bind rules.safeInteger with
  | some number => if 0 < number then min bound number.toNat else default
  | none => default

/-- The form of a UUID of versions 1 to 5. -/
def isUuidText (text : String) : Bool :=
  let isHex := fun c : Char => c.isDigit || ('a' ≤ c && c ≤ 'f') || ('A' ≤ c && c ≤ 'F')
  let chars := text.toList
  chars.length = 36 && (List.range 36).all fun place =>
    (chars[place]?).any fun c =>
      if place ∈ [8, 13, 18, 23] then c = '-'
      else if place = 14 then '1' ≤ c && c ≤ '5'
      else if place = 19 then c ∈ ['8', '9', 'a', 'b', 'A', 'B']
      else isHex c

/-- The id no category has. -/
def missingCategory : Uuid := ⟨"__missing_category__", by decide⟩

/-- One pass of the search for subcategories. -/
def growDescendants (categories : List DocumentCategory) (found : List Uuid) : List Uuid :=
  categories.foldl (fun found item =>
    if item.parentId.any (· ∈ found) && item.id ∉ found then found ++ [item.id] else found) found

/-- Passes until nothing is added. -/
def descendants (categories : List DocumentCategory) : Nat → List Uuid → List Uuid
  | 0, found => found
  | fuel + 1, found =>
      let next := growDescendants categories found
      if next.length = found.length then found else descendants categories fuel next

/-- A pass appends subcategories, each once. -/
theorem growDescendants_append (categories : List DocumentCategory) (found : List Uuid) :
    ∃ added, growDescendants categories found = found ++ added ∧
      added ⊆ categories.map DocumentCategory.id ∧ (found.Nodup → (found ++ added).Nodup) := by
  induction categories generalizing found with
  | nil => exact ⟨[], by simp [growDescendants]⟩
  | cons item rest ih =>
      simp only [growDescendants, List.foldl_cons]
      by_cases hadd : (item.parentId.any (· ∈ found) && item.id ∉ found) = true
      · obtain ⟨added, hgrow, hsubset, hnodup⟩ := ih (found ++ [item.id])
        rw [if_pos hadd]
        simp only [growDescendants] at hgrow
        refine ⟨item.id :: added, by rw [hgrow, List.append_assoc]; rfl, ?_, fun hfound => ?_⟩
        · rw [List.map_cons]
          exact List.cons_subset_cons item.id hsubset
        · have hnew : item.id ∉ found := by simpa using (Bool.and_eq_true_iff.mp hadd).2
          have happended : (found ++ [item.id]).Nodup := by
            rw [List.nodup_append]
            refine ⟨hfound, List.nodup_singleton _, fun id hid other hother => ?_⟩
            rw [List.mem_singleton] at hother
            intro heq
            exact hnew (hother ▸ heq ▸ hid)
          simpa using hnodup happended
      · obtain ⟨added, hgrow, hsubset, hnodup⟩ := ih found
        rw [if_neg hadd]
        exact ⟨added, hgrow, List.subset_cons_of_subset _ hsubset, hnodup⟩

/-- A pass that adds nothing has found every subcategory. -/
theorem closed_of_grow {categories : List DocumentCategory} {found : List Uuid}
    (hsame : (growDescendants categories found).length = found.length) :
    ∀ category ∈ categories, category.parentId.any (· ∈ found) = true → category.id ∈ found := by
  induction categories generalizing found with
  | nil => simp
  | cons item rest ih =>
      simp only [growDescendants, List.foldl_cons] at hsame
      by_cases hadd : (item.parentId.any (· ∈ found) && item.id ∉ found) = true
      · rw [if_pos hadd] at hsame
        obtain ⟨added, hgrow, -⟩ := growDescendants_append rest (found ++ [item.id])
        simp only [growDescendants] at hgrow
        rw [hgrow] at hsame
        simp at hsame
      · rw [if_neg hadd] at hsame
        have hrest := ih hsame
        intro category hcategory hparent
        rcases List.mem_cons.mp hcategory with rfl | hmem
        · by_contra hnew
          exact hadd (by simp [hparent, hnew])
        · exact hrest category hmem hparent

/-- The bound of the loop is enough: its result is closed under subcategories. -/
theorem descendants_closed {categories : List DocumentCategory} {fuel : Nat} {found : List Uuid}
    (hnodup : found.Nodup) (hsubset : found ⊆ categories.map DocumentCategory.id)
    (hfuel : categories.length < fuel + found.length) :
    ∀ category ∈ categories,
      category.parentId.any (· ∈ descendants categories fuel found) = true →
        category.id ∈ descendants categories fuel found := by
  induction fuel generalizing found with
  | zero =>
      have hlength := (List.subperm_of_subset hnodup hsubset).length_le
      rw [List.length_map] at hlength
      omega
  | succ fuel ih =>
      simp only [descendants]
      split
      next hsame => exact closed_of_grow hsame
      next hgrown =>
        obtain ⟨added, hgrow, hadded, hkeeps⟩ := growDescendants_append categories found
        rw [hgrow, List.length_append] at hgrown
        rw [hgrow]
        apply ih (hkeeps hnodup) (List.append_subset.mpr ⟨hsubset, hadded⟩)
        rw [List.length_append]
        omega

section List

variable (text : TextRules) (rules : ListRules) (library : Library) (now : Int)
variable (identity : Identity)

/-- The categories a request asks for, with their subcategories. -/
def selectedCategories (visibleSpaceIds : List Uuid) (query : ListQuery) :
    Except String (Option (List Uuid)) := do
  let live := library.categories.filter fun category =>
    category.deletedAt.isNone && category.spaceId ∈ visibleSpaceIds
  let given := (query.category.filter (· ≠ "")).or (query.categoryId.filter (· ≠ ""))
  let selected : Option (List DocumentCategory) ←
    match query.categoryId with
    | some id =>
        if isUuidText id then pure (some (live.filter (·.id.text = id)))
        else match given with
          | some slug => pure (some (live.filter (·.slug = slug)))
          | none => pure none
    | none =>
        match given with
        | some slug => pure (some (live.filter (·.slug = slug)))
        | none => pure none
  match selected with
  | none => return none
  | some [] => return some [missingCategory]
  | some [category] => return some (descendants live (live.length + 1) [category.id])
  | some _ => throw "Category slug is ambiguous; use categoryId"

/-- The decisions of `permittedSpacesFor` for one of the permissions of a list. -/
def listedSpaces (searching : Bool) (permission : Permission) : List SpaceWithRule :=
  (permittedSpacesFor text library.toAccessStore now identity.groups
    ((if searching then .search else .read) :: permissionNames) none permission).getD []

/-- The clause for documents of any status. -/
def managedWhere (searching : Bool) : DocumentWhere :=
  .any (managementPermissions.map fun permission =>
    recordsWhere (listedSpaces text library now identity searching permission))

/-- The spaces of the listing permission. -/
def readableSpaces (searching : Bool) : List SpaceWithRule :=
  listedSpaces text library now identity searching (if searching then .search else .read)

/-- The alternatives of the clause: published documents for the listing
permission and, for managers, documents of any status. -/
def visibleWhere (managed searching : Bool) (readableSpaceIds managedSpaceIds : List Uuid) :
    DocumentWhere :=
  let readable := recordsWhere (readableSpaces text library now identity searching)
  let managedDocuments : List DocumentWhere :=
    [.atom (.spaceIn managedSpaceIds), managedWhere text library now identity searching]
  .any (if managed then [.all managedDocuments]
    else [.all [.atom (.status .published), .atom (.spaceIn readableSpaceIds), readable],
      .all (managedDocuments ++ if searching then [readable] else [])])

/-- The where clause of a list. -/
def listWhere (query : ListQuery) (searching : Bool) (filters : List DocumentAtom)
    (readableSpaceIds managedSpaceIds : List Uuid) (matched : Option (List Uuid))
    (categories : Option (List Uuid)) : DocumentWhere :=
  let mimeType := mimeByFormat (text.toLowerCase query.format)
  let locale := if query.locale ∈ supportedLanguages then some query.locale else none
  .all (([.atom .notDeleted] : List DocumentWhere) ++ (filters.map .atom : List DocumentWhere) ++
    ((documentStatus query.status).toList.map fun status => .atom (.status status) :
      List DocumentWhere) ++
    [visibleWhere text library now identity (query.managed = "true") searching readableSpaceIds
      managedSpaceIds] ++
    (matched.toList.map fun ids => .atom (.idIn ids) : List DocumentWhere) ++
    (categories.toList.map fun ids => .atom (.categoryIn ids) : List DocumentWhere) ++
    (if query.favorites = "true" then [.atom (.favoriteOf identity.username)] else [] :
      List DocumentWhere) ++
    (if query.sensitive = "true" ∨ query.sensitive = "false" then
      [.atom (.sensitive (query.sensitive = "true"))] else [] : List DocumentWhere) ++
    (if mimeType.isSome ∨ locale.isSome then [.atom (.someVersion locale mimeType)] else [] :
      List DocumentWhere))

/-- Descending, nulls first. -/
def descending (left right : Option Int) : Bool :=
  match left, right with
  | none, _ => true
  | some _, none => false
  | some left, some right => right ≤ left

/-- The order of a list. -/
def listOrder (popular : Bool) (left right : CatalogDocument) : Bool :=
  let byId := text.slugOrder left.id.text right.id.text
  let byDate := if left.publishedAt = right.publishedAt then byId
    else descending left.publishedAt right.publishedAt
  if popular then
    if left.viewCount ≠ right.viewCount then right.viewCount < left.viewCount
    else if left.downloadCount ≠ right.downloadCount then
      right.downloadCount < left.downloadCount
    else byDate
  else byDate

/-- A document as it is returned. Only readers allowed to preview receive the link. -/
def listItem (searching : Bool) (document : CatalogDocument) : ListItem :=
  let allowed := fun permission =>
    recordAllowed (listedSpaces text library now identity searching permission) document
  { document := document
    externalUrl := if allowed .preview then document.externalUrl else none
    favorite := identity.username ∈ document.favorites
    permissions := permissionNames.map fun permission => (permission, allowed permission) }

/-- The documents a search text is found in. -/
def fullTextMatches (q : String) : Option (List Uuid) :=
  if q ≠ "" then some (rules.fullText library.documents q) else none

/-- `query.page` was given. -/
def ListQuery.paginated (query : ListQuery) : Bool := query.page.any (· ≠ "")

def ListQuery.pageLimit (rules : ListRules) (query : ListQuery) : Nat :=
  boundedNumber rules 100 10 (some query.limit)

/-- The page of the documents that satisfy a clause. -/
def listPage (query : ListQuery) (searching : Bool) (condition : DocumentWhere) : ListResult :=
  let limit := query.pageLimit rules
  let selected := library.documents.filter (satisfies rules.tests condition)
  let total := selected.length
  let totalPages := (total + limit - 1) / limit
  let page := min (boundedNumber rules 1000000 1 query.page) (max 1 totalPages)
  let sorted := selected.mergeSort (listOrder text (query.sort = "popular"))
  let documents := if query.paginated then (sorted.drop ((page - 1) * limit)).take limit
    else sorted.take 100
  { items := documents.map (listItem text library now identity searching)
    pagination := if query.paginated then some ⟨page, limit, total, totalPages⟩ else none }

/-- `DocumentsController.list`. -/
def list (query : ListQuery) : Except String ListResult := do
  let filters ← metadataWhere query.filters
  let q := JsString.slice 200 (JsString.trim query.query)
  if query.status ≠ "" ∧ (documentStatus query.status).isNone then
    throw "Invalid document status"
  let emptyResult : ListResult :=
    ⟨[], if query.paginated then some ⟨1, query.pageLimit rules, 0, 0⟩ else none⟩
  let searching := q ≠ "" || !filters.isEmpty
  let records := listedSpaces text library now identity searching
  let spaces := readableSpaces text library now identity searching
  let requestedSpaceIds := ((spaces ++ permissionNames.flatMap records).filter fun item =>
    query.space.all fun slug => slug = "" || item.row.space.slug = slug).map SpaceWithRule.id
  let readableSpaceIds := (spaces.map SpaceWithRule.id).filter (· ∈ requestedSpaceIds)
  let managedSpaceIds := (managementPermissions.flatMap fun permission =>
    (records permission).map SpaceWithRule.id).filter fun id =>
      id ∈ requestedSpaceIds && (!searching || id ∈ readableSpaceIds)
  let visibleSpaceIds := readableSpaceIds ++ managedSpaceIds
  if visibleSpaceIds.isEmpty then return emptyResult
  let categories ← selectedCategories library visibleSpaceIds query
  let matched := fullTextMatches rules library q
  if matched = some [] then return emptyResult
  return listPage text rules library now identity query searching
    (listWhere text library now identity query searching filters readableSpaceIds managedSpaceIds
      matched categories)

/-! ## Reading -/

def canManageDocument (spaceId : Uuid) (categoryId : Option Uuid) : Bool :=
  managementPermissions.any fun permission =>
    can text library.toAccessStore now identity.groups spaceId permission (some categoryId)

def normalizeIdentity (value : String) : String := text.toLowerCase (JsString.trim value)

def hasSensitiveShare (documentId : Uuid) (username : String) : Bool :=
  library.sensitiveShares.any fun share =>
    share.documentId = documentId && share.recipient = normalizeIdentity text username &&
      share.revokedAt.isNone && share.expiresAt.all (now < ·)

def findLiveDocument (id : Uuid) : Option CatalogDocument :=
  library.documents.find? fun document => document.id = id ∧ document.deletedAt = none

/-- `DocumentsController.one`: the document, or none for "not found". -/
def one (id : Uuid) : Option CatalogDocument :=
  (findLiveDocument library id).filter fun document =>
    let shared := document.sensitive && document.status = .published &&
      hasSensitiveShare text library now id identity.username
    let canRead := shared || can text library.toAccessStore now identity.groups document.spaceId
      .read (some document.categoryId)
    let canManage := document.status ≠ .published &&
      canManageDocument text library now identity document.spaceId document.categoryId
    if document.status = .published then canRead else canManage

/-- `visibleDocument`. -/
def visibleDocument (id : Uuid) : Option CatalogDocument :=
  (findLiveDocument library id).filter fun document =>
    if document.status = .published then
      can text library.toAccessStore now identity.groups document.spaceId .read
        (some document.categoryId)
    else managementPermissions.any fun permission =>
      can text library.toAccessStore now identity.groups document.spaceId permission
        (some document.categoryId)

end List

/-! ## What a list shows -/

section Shown

variable {text : TextRules} {rules : ListRules} {library : Library} {now : Int}
variable {identity : Identity} {query : ListQuery} {document : CatalogDocument}

/-- A search text or a metadata filter makes a list a search. -/
def isSearch (query : ListQuery) : Bool :=
  JsString.slice 200 (JsString.trim query.query) ≠ "" ||
    (metadataWhere query.filters).toOption.any (!·.isEmpty)

/-- What the list grants for a record, `can` grants for the document. -/
theorem can_of_recordAllowed {searching : Bool} {permission : Permission}
    (hallowed : recordAllowed (listedSpaces text library now identity searching permission)
      document = true) :
    can text library.toAccessStore now identity.groups document.spaceId permission
      (some document.categoryId) = true := by
  cases hplain : moderatorCan identity.groups permission with
  | true => simp [can, hplain]
  | false =>
      rw [can_category_iff hplain]
      obtain ⟨-, hnonempty, space, hspace, hid, hselected, hcheck⟩ := scopeAllowed_iff.mp hallowed
      refine ⟨hnonempty, space, hspace, hid, ?_, hcheck⟩
      simp only [isSelected, Bool.and_eq_true, Option.all_some, decide_eq_true_eq] at hselected ⊢
      exact ⟨⟨hselected.1.1, hid.symm⟩, hselected.2⟩

theorem can_of_recordsWhere {searching : Bool} {permission : Permission}
    (hwhere : satisfies rules.tests
      (recordsWhere (listedSpaces text library now identity searching permission)) document =
        true) :
    can text library.toAccessStore now identity.groups document.spaceId permission
      (some document.categoryId) = true := by
  unfold recordsWhere at hwhere
  rw [satisfies_categoryDocumentWhere, exists_scope_iff, List.find?_map] at hwhere
  · exact can_of_recordAllowed hwhere
  · rw [List.map_map]
    exact permittedSpacesFor_nodup

theorem can_of_readable {searching : Bool} (hwhere : satisfies rules.tests
      (recordsWhere (readableSpaces text library now identity searching)) document = true) :
    can text library.toAccessStore now identity.groups document.spaceId
      (if searching then .search else .read) (some document.categoryId) = true :=
  can_of_recordsWhere hwhere

theorem manages_of_managedWhere {searching : Bool}
    (hwhere : satisfies rules.tests (managedWhere text library now identity searching) document =
      true) :
    canManageDocument text library now identity document.spaceId document.categoryId = true := by
  simp only [satisfies, managedWhere, Condition.accepts_any, List.any_map, List.any_eq_true,
    Function.comp_apply] at hwhere
  obtain ⟨permission, hpermission, hrecords⟩ := hwhere
  rw [canManageDocument, List.any_eq_true]
  exact ⟨permission, hpermission, can_of_recordsWhere hrecords⟩

/-- Outside the managers' list, a document is published and the listing permission
is granted on it, or a management permission is. -/
theorem granted_of_visibleWhere {searching : Bool} {readable managed : List Uuid}
    (hwhere : satisfies rules.tests (visibleWhere text library now identity false searching
      readable managed) document = true) :
    (document.status = .published ∧ can text library.toAccessStore now identity.groups
        document.spaceId (if searching then .search else .read) (some document.categoryId) =
        true) ∨
      canManageDocument text library now identity document.spaceId document.categoryId = true := by
  simp only [satisfies, visibleWhere, Condition.accepts_any, Bool.false_eq_true, if_false,
    List.any_cons, List.any_nil, Bool.or_false, Bool.or_eq_true, Condition.accepts_all,
    List.all_append, List.all_cons, List.all_nil, Bool.and_true, Bool.and_eq_true,
    Condition.accepts_atom, DocumentAtom.holds, decide_eq_true_eq] at hwhere
  rcases hwhere with ⟨hpublished, -, hreadable⟩ | ⟨⟨-, hmanaged⟩, -⟩
  · exact .inl ⟨hpublished, can_of_readable hreadable⟩
  · exact .inr (manages_of_managedWhere hmanaged)

theorem granted_of_listWhere (hmanaged : query.managed ≠ "true") {searching : Bool}
    {filters : List DocumentAtom} {readable managed : List Uuid}
    {matched categories : Option (List Uuid)}
    (hwhere : satisfies rules.tests (listWhere text library now identity query searching filters
      readable managed matched categories) document = true) :
    document.deletedAt = none ∧
      ((document.status = .published ∧ can text library.toAccessStore now identity.groups
          document.spaceId (if searching then .search else .read) (some document.categoryId) =
          true) ∨
        canManageDocument text library now identity document.spaceId document.categoryId =
          true) := by
  rw [satisfies, listWhere, Condition.accepts_all, List.all_eq_true] at hwhere
  have hdeleted := hwhere (.atom .notDeleted) (by simp)
  have hvisible := hwhere (visibleWhere text library now identity (query.managed = "true") searching
    readable managed) (by simp)
  rw [decide_eq_false hmanaged] at hvisible
  refine ⟨?_, granted_of_visibleWhere hvisible⟩
  simpa [DocumentAtom.holds] using hdeleted

theorem satisfies_of_listPage {searching : Bool} {condition : DocumentWhere} {item : ListItem}
    (hitem : item ∈ (listPage text rules library now identity query searching condition).items) :
    item.document ∈ library.documents ∧ satisfies rules.tests condition item.document = true := by
  obtain ⟨document, hdocument, rfl⟩ := List.mem_map.mp hitem
  have hsorted : document ∈ (library.documents.filter (satisfies rules.tests condition)).mergeSort
      (listOrder text (query.sort = "popular")) := by
    split at hdocument
    · exact List.mem_of_mem_drop (List.mem_of_mem_take hdocument)
    · exact List.mem_of_mem_take hdocument
  rw [List.mem_mergeSort, List.mem_filter] at hsorted
  exact hsorted

theorem findLiveDocument_of_mem (hmem : document ∈ library.documents)
    (hdeleted : document.deletedAt = none) :
    findLiveDocument library document.id = some document := by
  have hsome : (findLiveDocument library document.id).isSome := by
    rw [findLiveDocument, List.find?_isSome]
    exact ⟨document, hmem, by simp [hdeleted]⟩
  obtain ⟨found, hfound⟩ := Option.isSome_iff_exists.mp hsome
  have hid : found.id = document.id ∧ found.deletedAt = none := by
    simpa [findLiveDocument] using List.find?_some hfound
  rw [hfound, List.inj_on_of_nodup_map library.documentIds (List.mem_of_find?_eq_some hfound) hmem
    hid.1]

/-- Every returned document satisfies the clause of its request. -/
theorem satisfies_of_list {result : ListResult}
    (hlist : list text rules library now identity query = .ok result) {item : ListItem}
    (hitem : item ∈ result.items) :
    item.document ∈ library.documents ∧
      ∃ filters readable managed matched categories, satisfies rules.tests
        (listWhere text library now identity query (isSearch query) filters readable managed matched
          categories) item.document = true := by
  unfold list at hlist
  simp only [bind, Except.bind, pure, Except.pure, throw, throwThe, MonadExceptOf.throw] at hlist
  cases hfilters : metadataWhere query.filters with
  | error message => simp [hfilters] at hlist
  | ok filters =>
    have hsearch : isSearch query =
        (decide (JsString.slice 200 (JsString.trim query.query) ≠ "") || !filters.isEmpty) := by
      rw [isSearch, hfilters]
      rfl
    rw [hfilters] at hlist
    simp only [← hsearch] at hlist
    split at hlist
    · cases hlist
    split at hlist
    · cases hlist
      cases hitem
    split at hlist
    · cases hlist
    split at hlist
    · cases hlist
      cases hitem
    · cases hlist
      obtain ⟨hmem, hwhere⟩ := satisfies_of_listPage hitem
      exact ⟨hmem, filters, _, _, _, _, hwhere⟩

/-- **Listed documents.** Outside the managers' list, a listed document opens, in
the reader and for the endpoints that use `visibleDocument`, unless it is
published and the identity has a management permission on its category, or found
it in a search, without `read`. -/
theorem listed_opens_iff (hmanaged : query.managed ≠ "true") {result : ListResult}
    (hlist : list text rules library now identity query = .ok result) {item : ListItem}
    (hitem : item ∈ result.items) :
    ((one text library now identity item.document.id).isSome = true ∧
        (visibleDocument text library now identity item.document.id).isSome = true) ↔
      (item.document.status = .published →
        (canManageDocument text library now identity item.document.spaceId
            item.document.categoryId = true ∨
          (isSearch query = true ∧ can text library.toAccessStore now identity.groups
            item.document.spaceId .search (some item.document.categoryId) = true)) →
        can text library.toAccessStore now identity.groups item.document.spaceId .read
          (some item.document.categoryId) = true) := by
  obtain ⟨hmem, filters, readable, managed, matched, categories, hwhere⟩ :=
    satisfies_of_list hlist hitem
  obtain ⟨hdeleted, hgranted⟩ := granted_of_listWhere hmanaged hwhere
  have hfound := findLiveDocument_of_mem hmem hdeleted
  simp only [one, visibleDocument, hfound, Option.isSome_filter, Option.any_some]
  by_cases hpublished : item.document.status = .published
  · simp only [hpublished, if_true, forall_const, Bool.or_eq_true]
    constructor
    · exact fun hopens _ => hopens.2
    · intro hreads
      -- A list that is no search shows a published document by `read` itself.
      have hcan : can text library.toAccessStore now identity.groups item.document.spaceId .read
          (some item.document.categoryId) = true := by
        rcases hgranted with ⟨-, hlisting⟩ | hmanages
        · cases hsearch : isSearch query with
          | true =>
              rw [hsearch] at hlisting hreads
              exact hreads (.inr ⟨rfl, hlisting⟩)
          | false =>
              rw [hsearch] at hlisting
              exact hlisting
        · exact hreads (.inl hmanages)
      exact ⟨.inr hcan, hcan⟩
  · rcases hgranted with ⟨hstatus, -⟩ | hmanages
    · exact absurd hstatus hpublished
    · simp only [hpublished, if_false, false_imp_iff, iff_true, ne_eq, not_false_eq_true,
        decide_true, Bool.true_and]
      exact ⟨hmanages, hmanages⟩

end Shown

/-! ## Sample -/

/-- Everything is left at its default. -/
def plainQuery : ListQuery where
  query := ""
  category := none
  categoryId := none
  space := none
  sort := "recent"
  page := none
  limit := "10"
  favorites := "false"
  format := ""
  locale := ""
  sensitive := ""
  managed := "false"
  status := ""
  filters := fun _ => none

def plainRules : ListRules where
  safeInteger _ := none
  fullText _ _ := []
  tests _ _ := true

/-- One published document in the space, with one rule for the readers. -/
def itLibrary (rule : AccessRule) : Library where
  toAccessStore := { itStore with accessRules := [rule] }
  documents := [publishedIn none]
  sensitiveShares := []
  documentIds := List.nodup_singleton _
  categoryIds := List.nodup_singleton _

def reader : Identity := ⟨"rita", ["Readers"]⟩

/-- The request succeeds and shows the document. -/
def shows (document : CatalogDocument) (answer : Except String ListResult) : Bool :=
  answer.toOption.any fun result => result.items.any fun item => item.document = document

theorem exists_of_shows {document : CatalogDocument} {answer : Except String ListResult}
    (hshows : shows document answer = true) :
    ∃ result, answer = .ok result ∧ ∃ item ∈ result.items, item.document = document := by
  cases answer with
  | error message => cases hshows
  | ok result =>
      simp only [shows, Except.toOption, Option.any_some, List.any_eq_true,
        decide_eq_true_eq] at hshows
      exact ⟨result, rfl, hshows⟩

/-- The document shown to a reader opens. -/
theorem listed_opens_iff_reader :
    shows (publishedIn none) (list asciiText plainRules (itLibrary (readRule readersId none none))
      0 reader plainQuery) = true ∧
    (one asciiText (itLibrary (readRule readersId none none)) 0 reader (publishedIn none).id).isSome =
        true ∧
      (visibleDocument asciiText (itLibrary (readRule readersId none none)) 0 reader
        (publishedIn none).id).isSome = true := by
  have hshows : shows (publishedIn none) (list asciiText plainRules
      (itLibrary (readRule readersId none none)) 0 reader plainQuery) = true := by decide +kernel
  obtain ⟨result, hlist, item, hitem, hdocument⟩ := exists_of_shows hshows
  have hopens := (listed_opens_iff (by decide) hlist hitem).mpr
  rw [hdocument] at hopens
  exact ⟨hshows, hopens fun _ _ => by decide +kernel⟩

/-- A rule that gives `edit` without `read`. -/
def editRule : AccessRule := { readRule readersId none none with read := false, edit := true }

/-- An editor without `read` sees the published document in the list, and the
reader answers that it does not exist. -/
theorem listed_not_found :
    shows (publishedIn none)
      (list asciiText plainRules (itLibrary editRule) 0 reader plainQuery) = true ∧
    one asciiText (itLibrary editRule) 0 reader (publishedIn none).id = none := by
  decide +kernel

end IsmsPortal
