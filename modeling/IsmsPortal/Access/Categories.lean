import IsmsPortal.Access.Listing

/-! # Archiving a category

`deleteCategory` moves the documents of a category to the root of the space and
its subcategories to its parent. The rules of the category no longer count, so
its documents have the rights of the root, and the branches that inherited from
it inherit from its parent.
-/

namespace IsmsPortal

open Foundation

/-- A category after the transaction of `deleteCategory`. -/
def archivedCategory (existing : DocumentCategory) (now : Int) (category : DocumentCategory) :
    DocumentCategory where
  __ := category
  parentId := if category.parentId = some existing.id then existing.parentId else category.parentId
  deletedAt := if category.id = existing.id then some now else category.deletedAt

/-- A document after the transaction of `deleteCategory`. -/
def uncategorizedDocument (id : Uuid) (document : CatalogDocument) : CatalogDocument :=
  if document.categoryId = some id then { document with categoryId := none } else document

theorem uncategorizedDocument_id (id : Uuid) (document : CatalogDocument) :
    (uncategorizedDocument id document).id = document.id := by
  unfold uncategorizedDocument
  split <;> rfl

/-- `deleteCategory`, or none when there is no such category. -/
def Library.deleteCategory (library : Library) (id : Uuid) (now : Int) : Option Library :=
  (library.categories.find? fun category => category.id = id ∧ category.deletedAt = none).map
    fun existing =>
      { library with
        documents := library.documents.map (uncategorizedDocument id)
        categories := library.categories.map (archivedCategory existing now)
        documentIds := by
          have hids : CatalogDocument.id ∘ uncategorizedDocument id = CatalogDocument.id := by
            funext document
            exact uncategorizedDocument_id id document
          rw [List.map_map, hids]
          exact library.documentIds
        categoryIds := by
          rw [List.map_map]
          exact library.categoryIds }

/-! ## The categories afterwards -/

section Links

variable {text : TextRules} {library after : Library} {id : Uuid} {now : Int}

variable {existing : DocumentCategory}

theorem archivedCategory_live {category : DocumentCategory} :
    (archivedCategory existing now category).deletedAt = none ↔
      category.id ≠ existing.id ∧ category.deletedAt = none := by
  unfold archivedCategory
  by_cases hid : category.id = existing.id <;> simp [hid]

/-- The links of a space lose the category, whose children go to its parent. -/
theorem parentOf_deleteCategory
    (hafter : after.categories = library.categories.map (archivedCategory existing now))
    (spaceId : Uuid) :
    parentOf (spaceCategories text after.toAccessStore spaceId) =
      Nearest.contract (parentOf (spaceCategories text library.toAccessStore spaceId)) existing.id
        existing.parentId := by
  funext node
  ext parent
  rw [parentOf_eq_some (spaceCategories_unique after.categoryIds spaceId), Nearest.contract]
  simp only [mem_spaceCategories, hafter, List.mem_map]
  by_cases hnode : node = existing.id
  · rw [if_pos hnode]
    constructor
    · rintro ⟨_, ⟨⟨category, -, rfl⟩, -, hlive⟩, hid, -⟩
      exact absurd (hid.trans hnode) (archivedCategory_live.mp hlive).1
    · rintro ⟨⟩
  · rw [if_neg hnode, Option.map_eq_some_iff]
    simp only [parentOf_eq_some (spaceCategories_unique library.categoryIds spaceId),
      mem_spaceCategories]
    constructor
    · rintro ⟨_, ⟨⟨category, hmem, rfl⟩, hspace, hlive⟩, hid, hparent⟩
      exact ⟨_, ⟨category, ⟨hmem, hspace, (archivedCategory_live.mp hlive).2⟩, hid, rfl⟩, hparent⟩
    · rintro ⟨_, ⟨category, ⟨hmem, hspace, hlive⟩, hid, rfl⟩, hparent⟩
      refine ⟨_, ⟨⟨category, hmem, rfl⟩, hspace, ?_⟩, hid, hparent⟩
      exact archivedCategory_live.mpr ⟨fun hother => hnode (hid ▸ hother), hlive⟩

end Links

/-! ## Access afterwards -/

section Access

variable {text : TextRules} {library after : Library} {id : Uuid} {now when : Int}
variable {groups : List String} {permission : Permission} {space : DocumentSpace}

theorem deleteCategory_eq_some (hdelete : library.deleteCategory id when = some after) :
    ∃ existing ∈ library.categories, existing.id = id ∧
      after.toAccessStore = { library.toAccessStore with
        categories := library.categories.map (archivedCategory existing when) } := by
  simp only [Library.deleteCategory, Option.map_eq_some_iff] at hdelete
  obtain ⟨existing, hfound, rfl⟩ := hdelete
  have hexisting : existing.id = id ∧ existing.deletedAt = none := by
    simpa using List.find?_some hfound
  exact ⟨existing, List.mem_of_find?_eq_some hfound, hexisting.1, rfl⟩

variable {existing : DocumentCategory}

/-- The rights of a category of the space after the archiving of another. -/
theorem granted_after_iff (hplain : moderatorCan groups permission = false)
    (hafter : after.toAccessStore = { library.toAccessStore with
      categories := library.categories.map (archivedCategory existing when) })
    {category : Uuid}
    (hdenied : ¬Granted text library.toAccessStore now groups permission space (some category)) :
    Granted text after.toAccessStore now groups permission space (some category) ↔
      Nearest.Passes (parentOf (spaceCategories text library.toAccessStore space.id))
          (isRuled (spaceRules text library.toAccessStore now groups permission space.id))
          existing.id category ∧
        Granted text library.toAccessStore now groups permission space existing.parentId := by
  have hcategories : after.categories = library.categories.map (archivedCategory existing when) := by
    rw [hafter]
  have hlinks : parentOf (spaceCategories text after.toAccessStore space.id) = _ :=
    parentOf_deleteCategory hcategories space.id
  have hrow : spaceRow text after.toAccessStore now groups space =
      { spaceRow text library.toAccessStore now groups space with
        categories := spaceCategories text after.toAccessStore space.id } := by
    rw [hafter]
    rfl
  have hownerSame : isOwner text groups permission (spaceRow text after.toAccessStore now groups
      space) = isOwner text groups permission (spaceRow text library.toAccessStore now groups
      space) := by
    rw [hrow]
    rfl
  have hrootSame : rootAllowed text groups permission (spaceRow text after.toAccessStore now groups
      space) = rootAllowed text groups permission (spaceRow text library.toAccessStore now groups
      space) := by
    rw [hrow]
    rfl
  have hrulesSame : spaceRules text after.toAccessStore now groups permission space.id =
      spaceRules text library.toAccessStore now groups permission space.id := by
    rw [hafter]
    rfl
  cases howner : isOwner text groups permission (spaceRow text library.toAccessStore now groups
      space) with
  | true =>
      -- An owner is denied only what is no live category, before and after.
      rw [granted_of_unrestricted (by simp [howner])] at hdenied
      rw [granted_of_unrestricted (by simp [hownerSame, howner])]
      refine ⟨fun hgranted => absurd ?_ hdenied, fun hpasses => absurd ?_ hdenied⟩
      · obtain ⟨archived, harchived, rfl⟩ := List.mem_map.mp hgranted
        rw [mem_spaceCategories, hcategories, List.mem_map] at harchived
        obtain ⟨⟨before, hbefore, rfl⟩, hspace, hlive⟩ := harchived
        have hmem : before ∈ spaceCategories text library.toAccessStore space.id :=
          mem_spaceCategories.mpr ⟨hbefore, hspace, (archivedCategory_live.mp hlive).2⟩
        exact List.mem_map.mpr ⟨before, hmem, rfl⟩
      · cases hpasses.1 with
        | here _ _ hparent => exact mem_ids_of_parentOf (by rw [hparent]; rfl)
        | up _ _ hparent _ => exact mem_ids_of_parentOf (by rw [hparent]; rfl)
  | false =>
      rw [granted_iff_climbs hplain howner] at hdenied
      rw [granted_iff_climbs hplain howner, granted_iff_climbs hplain (hownerSame.trans howner),
        hlinks, hrootSame, hrulesSame]
      constructor
      · rintro ⟨found, hclimbs, hverdict⟩
        rcases Nearest.climbs_of_contract hclimbs with hbefore | ⟨⟨node, hnode, hpasses⟩, hparent⟩
        · exact absurd ⟨found, hbefore, hverdict⟩ hdenied
        · cases hnode
          exact ⟨hpasses, found, hparent, hverdict⟩
      · rintro ⟨hpasses, found, hparent, hverdict⟩
        rcases Nearest.contract_climbs hparent with hafterClimbs | hremoved
        · exact ⟨found, hpasses.contract_climbs hafterClimbs, hverdict⟩
        · exact absurd ⟨found, hpasses.climbs hremoved, hverdict⟩ hdenied

/-- `can` with a category is the grant of the one space with the id. -/
theorem can_iff_granted (hplain : moderatorCan groups permission = false) {db : AccessStore}
    (hspace : space ∈ db.spaces) {category : Option Uuid} :
    can text db now groups space.id permission (some category) = true ↔
      (groups ≠ [] ∧ isSelected text db now groups (some space.id) space = true) ∧
        Granted text db now groups permission space category := by
  rw [can_category_iff hplain]
  constructor
  · rintro ⟨hnonempty, other, hother, hid, hselected, hgranted⟩
    obtain rfl := space_unique hspace hother hid
    exact ⟨⟨hnonempty, hselected⟩, hgranted⟩
  · rintro ⟨⟨hnonempty, hselected⟩, hgranted⟩
    exact ⟨hnonempty, space, hspace, rfl, hselected, hgranted⟩

/-- Without a space there is nothing to grant. -/
theorem can_missing_space (hplain : moderatorCan groups permission = false) {db : AccessStore}
    {spaceId : Uuid} (hmissing : ∀ space ∈ db.spaces, space.id ≠ spaceId)
    {category : Option Uuid} :
    can text db now groups spaceId permission (some category) = false := by
  rw [← Bool.not_eq_true, can_category_iff hplain]
  rintro ⟨-, space, hspace, hid, -⟩
  exact hmissing space hspace hid

/-- **Archiving a category.** A document that was denied is granted afterwards
exactly if it was in the category and the root is granted, or it is in a category
whose links lead to the archived one through categories without a rule in force,
and the place these now inherit from, the parent of the archived one, is granted. -/
theorem deleteCategory_exposes_iff (text : TextRules) (now : Int) (groups : List String)
    (permission : Permission) (hdelete : library.deleteCategory id when = some after)
    (document : CatalogDocument)
    (hdenied : can text library.toAccessStore now groups document.spaceId permission
      (some document.categoryId) = false) :
    can text after.toAccessStore now groups document.spaceId permission
        (some (uncategorizedDocument id document).categoryId) = true ↔
      (document.categoryId = some id ∧ can text library.toAccessStore now groups document.spaceId
        permission (some none) = true) ∨
      (∃ existing ∈ library.categories, existing.id = id ∧
        (∃ category, document.categoryId = some category ∧
          Nearest.Passes (parentOf (spaceCategories text library.toAccessStore document.spaceId))
            (isRuled (spaceRules text library.toAccessStore now groups permission
              document.spaceId)) id category) ∧
        can text library.toAccessStore now groups document.spaceId permission
          (some existing.parentId) = true) := by
  obtain ⟨existing, hexisting, rfl, hafter⟩ := deleteCategory_eq_some hdelete
  have hplain : moderatorCan groups permission = false := by
    by_contra hprivileged
    simp [can, hprivileged] at hdenied
  have hspaces : after.spaces = library.spaces := by rw [hafter]
  by_cases hspace : ∃ space ∈ library.spaces, space.id = document.spaceId
  · obtain ⟨space, hspace, hid⟩ := hspace
    rw [← hid] at hdenied ⊢
    have hspaceAfter : space ∈ after.spaces := hspaces ▸ hspace
    have hselected : isSelected text after.toAccessStore now groups (some space.id) space =
        isSelected text library.toAccessStore now groups (some space.id) space := by
      rw [hafter]
      rfl
    have hroot : Granted text after.toAccessStore now groups permission space none ↔
        Granted text library.toAccessStore now groups permission space none := by
      rw [granted_root, granted_root, hafter]
      rfl
    rw [← Bool.not_eq_true, can_iff_granted hplain hspace] at hdenied
    simp only [can_iff_granted hplain hspace]
    rw [can_iff_granted hplain hspaceAfter, hselected]
    by_cases hentered : groups ≠ [] ∧
        isSelected text library.toAccessStore now groups (some space.id) space = true
    · simp only [hentered, ne_eq, not_false_eq_true, and_self, true_and] at hdenied ⊢
      cases hcategory : document.categoryId with
      | none =>
          rw [hcategory] at hdenied
          have hmoved : (uncategorizedDocument existing.id document).categoryId = none := by
            simp [uncategorizedDocument, hcategory]
          rw [hmoved, hroot]
          simp [hdenied]
      | some category =>
          rw [hcategory] at hdenied
          by_cases hmoves : category = existing.id
          · have hmoved : (uncategorizedDocument existing.id document).categoryId = none := by
              simp [uncategorizedDocument, hcategory, hmoves]
            have hstays : ¬Nearest.Passes (parentOf (spaceCategories text library.toAccessStore
                space.id)) (isRuled (spaceRules text library.toAccessStore now groups permission
                  space.id)) existing.id existing.id := by
              intro hpasses
              cases hpasses with
              | here hne _ _ => exact hne rfl
              | up hne _ _ _ => exact hne rfl
            rw [hmoved, hroot]
            simp [hmoves, hstays]
          · have hmoved : (uncategorizedDocument existing.id document).categoryId =
                some category := by
              simp [uncategorizedDocument, hcategory, hmoves]
            rw [hmoved, granted_after_iff hplain hafter hdenied]
            constructor
            · rintro ⟨hpasses, hparent⟩
              exact .inr ⟨existing, hexisting, rfl, ⟨category, rfl, hpasses⟩, hparent⟩
            · rintro (⟨hsame, -⟩ | ⟨other, hother, hid, ⟨_, hsame, hpasses⟩, hparent⟩)
              · exact absurd (Option.some.inj hsame) hmoves
              · cases hsame
                obtain rfl := List.inj_on_of_nodup_map library.categoryIds hother hexisting hid
                exact ⟨hpasses, hparent⟩
    · simp [hentered]
  · push Not at hspace
    rw [can_missing_space hplain (hspaces ▸ hspace)]
    simp only [can_missing_space hplain hspace, Bool.false_eq_true, and_false, exists_false,
      or_false]

end Access

/-! ## Sample -/

theorem proceduresDocument_ids :
    ([publishedIn (some proceduresId)].map CatalogDocument.id).Nodup :=
  List.nodup_singleton _

theorem proceduresCategory_ids : (itStore.categories.map DocumentCategory.id).Nodup :=
  List.nodup_singleton _

/-- The readers' rule for the space and the auditors' rule for the procedures, with
one document of the procedures. -/
def proceduresLibrary : Library where
  toAccessStore := itStore
  documents := [publishedIn (some proceduresId)]
  sensitiveShares := []
  documentIds := proceduresDocument_ids
  categoryIds := proceduresCategory_ids

/-- The library after the procedures were archived. -/
def archivedLibrary : Library where
  toAccessStore := { itStore with categories := [⟨proceduresId, "procedures", itId, none, some 5⟩] }
  documents := [publishedIn none]
  sensitiveShares := []
  documentIds := proceduresDocument_ids
  categoryIds := proceduresCategory_ids

theorem deleteCategory_procedures :
    proceduresLibrary.deleteCategory proceduresId 5 = some archivedLibrary := rfl

/-- Someone without any rule is denied before and after. -/
theorem deleteCategory_exposes_iff_guest :
    can asciiText archivedLibrary.toAccessStore 0 ["Guests"] itId .read (some none) ≠ true := by
  intro hexposed
  have hiff := deleteCategory_exposes_iff asciiText 0 ["Guests"] .read deleteCategory_procedures
    (publishedIn (some proceduresId)) (by decide +kernel)
  rcases hiff.mp hexposed with ⟨-, hroot⟩ | ⟨existing, hexisting, -, -, hparent⟩
  · exact absurd hroot (by decide +kernel)
  · have hprocedures : existing.parentId = none := by
      rw [List.mem_singleton.mp hexisting]
    rw [hprocedures] at hparent
    exact absurd hparent (by decide +kernel)

/-- The readers could not read the procedures, and read them in the root. -/
theorem deleteCategory_exposes :
    proceduresLibrary.deleteCategory proceduresId 5 = some archivedLibrary ∧
    can asciiText proceduresLibrary.toAccessStore 0 ["Readers"] itId .read (some (some proceduresId)) =
      false ∧
    can asciiText archivedLibrary.toAccessStore 0 ["Readers"] itId .read
      (some (uncategorizedDocument proceduresId (publishedIn (some proceduresId))).categoryId) =
      true := by
  refine ⟨rfl, ?_, ?_⟩
  · decide +kernel
  · decide +kernel

end IsmsPortal
