import IsmsPortal.Categories.Requests

/-! # The hierarchy of categories

The parent links of the live categories form a forest, and a parent is a live
category of the same space. Every write keeps this when the checks of its
request still hold at the moment of the write. They were made on earlier reads,
so two requests can each pass them and together break the hierarchy: two moves
close a cycle, on which the walk of every later move below it has no end.
-/

namespace IsmsPortal

open Foundation

/-- The categories that are not archived. -/
def CategoryStore.live (store : CategoryStore) : List DocumentCategory :=
  store.categories.filter fun category => category.deletedAt.isNone

/-- A forest of categories within their spaces. -/
structure Hierarchy (live : List DocumentCategory) : Prop where
  grounded : Forest.Grounded (parentLink live)
  parents : ∀ category ∈ live, ∀ parentId, category.parentId = some parentId →
    ∃ parent ∈ live, parent.id = parentId ∧ parent.spaceId = category.spaceId

/-! ## Links -/

section Links

variable {categories : List DocumentCategory} {id up : Uuid}

theorem parentLink_eq_some (hunique : (categories.map DocumentCategory.id).Nodup) :
    parentLink categories id = some up ↔
      ∃ category ∈ categories, category.id = id ∧ category.parentId = some up := by
  rw [parentLink, Option.join_eq_some_iff, parentOf_eq_some hunique]

theorem mem_ids_of_parentLink (hlink : (parentLink categories id).isSome = true) :
    id ∈ categories.map DocumentCategory.id := by
  obtain ⟨up, hup⟩ := Option.isSome_iff_exists.mp hlink
  rw [parentLink, Option.join_eq_some_iff] at hup
  exact mem_ids_of_parentOf (by rw [hup]; rfl)

theorem CategoryStore.mem_live {store : CategoryStore} {category : DocumentCategory} :
    category ∈ store.live ↔ category ∈ store.categories ∧ category.deletedAt = none := by
  simp [live]

theorem CategoryStore.mem_liveIn {store : CategoryStore} {spaceId : Uuid}
    {category : DocumentCategory} :
    category ∈ store.liveIn spaceId ↔ category ∈ store.live ∧ category.spaceId = spaceId := by
  simp [liveIn, live]
  tauto

theorem CategoryStore.live_ids (store : CategoryStore) :
    (store.live.map DocumentCategory.id).Nodup :=
  (List.Sublist.map _ List.filter_sublist).nodup store.categoryIds

theorem CategoryStore.liveIn_ids (store : CategoryStore) (spaceId : Uuid) :
    ((store.liveIn spaceId).map DocumentCategory.id).Nodup :=
  (List.Sublist.map _ List.filter_sublist).nodup store.categoryIds

theorem CategoryStore.eq_of_id {store : CategoryStore} {category other : DocumentCategory}
    (hcategory : category ∈ store.categories) (hother : other ∈ store.categories)
    (hid : category.id = other.id) : category = other :=
  List.inj_on_of_nodup_map store.categoryIds hcategory hother hid

end Links

/-- `climbs` has no answer exactly when the loop never ends. -/
theorem CategoryStore.climbs_eq_none_iff {store : CategoryStore} {id spaceId parentId : Uuid} :
    store.climbs id spaceId parentId = none ↔
      ∀ fuel, Forest.climb (parentLink (store.liveIn spaceId)) id fuel (some parentId) = none := by
  constructor
  · intro hnone fuel
    rw [Option.eq_none_iff_forall_ne_some]
    intro met hmet
    have hbound := Forest.climb_bound (fun _ => mem_ids_of_parentLink) hmet
    rw [List.length_map] at hbound
    rw [climbs, hbound] at hnone
    cases hnone
  · exact fun hnever => hnever _

theorem parentLink_of_mem {store : CategoryStore} {category : DocumentCategory}
    (hcategory : category ∈ store.live) :
    parentLink store.live category.id = category.parentId := by
  ext up
  rw [parentLink_eq_some store.live_ids]
  constructor
  · rintro ⟨same, hsame, hid, hup⟩
    obtain rfl := store.eq_of_id (CategoryStore.mem_live.mp hsame).1
      (CategoryStore.mem_live.mp hcategory).1 hid
    exact hup
  · exact fun hup => ⟨category, hcategory, rfl, hup⟩

namespace Hierarchy

variable {store : CategoryStore}

/-- What is above a live category is live and in its space. -/
theorem reaches_liveIn (hhierarchy : Hierarchy store.live) {spaceId node top : Uuid}
    (hreaches : Forest.Reaches (parentLink store.live) node top)
    (hnode : ∃ category ∈ store.liveIn spaceId, category.id = node) :
    (∃ category ∈ store.liveIn spaceId, category.id = top) ∧
      Forest.Reaches (parentLink (store.liveIn spaceId)) node top := by
  induction hreaches with
  | refl => exact ⟨hnode, .refl⟩
  | tail _ habove ih =>
      obtain ⟨⟨category, hcategory, hid⟩, hbelow⟩ := ih
      obtain ⟨hlive, hspace⟩ := CategoryStore.mem_liveIn.mp hcategory
      have hparent := (parentLink_of_mem hlive).symm.trans (hid ▸ habove)
      obtain ⟨parent, hparentLive, hparentId, hparentSpace⟩ :=
        hhierarchy.parents category hlive _ hparent
      refine ⟨⟨parent, CategoryStore.mem_liveIn.mpr ⟨hparentLive, hparentSpace.trans hspace⟩,
        hparentId⟩, hbelow.tail ?_⟩
      exact (parentLink_eq_some (store.liveIn_ids spaceId)).mpr ⟨category, hcategory, hid, hparent⟩

/-- The walk of `updateCategory` ends. -/
theorem climbs_isSome (hhierarchy : Hierarchy store.live) (id spaceId parentId : Uuid) :
    (store.climbs id spaceId parentId).isSome := by
  have hgrounded : Forest.Grounded (parentLink (store.liveIn spaceId)) := by
    refine hhierarchy.grounded.mono fun node up hlink => ?_
    obtain ⟨category, hcategory, hid, hparent⟩ :=
      (parentLink_eq_some (store.liveIn_ids spaceId)).mp hlink
    exact (parentLink_eq_some store.live_ids).mpr
      ⟨category, (CategoryStore.mem_liveIn.mp hcategory).1, hid, hparent⟩
  have hends := hgrounded.climb_isSome (fun _ => mem_ids_of_parentLink) id (some parentId)
  rwa [List.length_map] at hends

end Hierarchy

/-! ## What a statement does -/

section Effects

variable {toLowerCase : String → String} {choice : CategoryChoice} {store after : CategoryStore}
variable {request : CategoryRequest} {remaining : Option CategoryRequest}

/-- A check writes nothing. -/
theorem store_of_goOn {check : Except String Unit} {next : CategoryRequest}
    (hgo : goOn store check next = (remaining, after)) : after = store := by
  cases check <;> cases hgo <;> rfl

/-- A statement reads, or is one of the three writes. -/
theorem categoryAdvance_write
    (hadvance : categoryAdvance toLowerCase choice store request = some (remaining, after)) :
    after = store ∨
    (∃ body, request = .createWrite body ∧ store.createRow choice.newId body = some after) ∨
    (∃ existing body, request = .updateWrite existing body ∧
      store.updateRow existing.id body = some after) ∨
    ∃ existing, request = .deleteTransaction existing ∧ after = store.archiveRow existing := by
  cases request with
  | create body =>
      simp only [categoryAdvance] at hadvance
      split at hadvance
      · exact .inl (store_of_goOn (Option.some.inj hadvance))
      · cases hadvance
        exact .inl rfl
  | createParent body =>
      exact .inl (store_of_goOn (Option.some.inj hadvance))
  | createWrite body =>
      simp only [categoryAdvance, Option.some.injEq, Prod.mk.injEq] at hadvance
      cases hcreate : store.createRow choice.newId body with
      | none =>
          rw [hcreate] at hadvance
          exact .inl hadvance.2.symm
      | some created =>
          rw [hcreate] at hadvance
          exact .inr (.inl ⟨body, rfl, by rw [hcreate, ← hadvance.2]; rfl⟩)
  | update id body =>
      simp only [categoryAdvance] at hadvance
      split at hadvance
      · cases hadvance
        exact .inl rfl
      · split at hadvance <;> cases hadvance <;> exact .inl rfl
  | updateSpace existing body =>
      exact .inl (store_of_goOn (Option.some.inj hadvance))
  | updateHierarchy existing body =>
      simp only [categoryAdvance, Option.map_eq_some_iff] at hadvance
      obtain ⟨check, -, hgo⟩ := hadvance
      exact .inl (store_of_goOn hgo)
  | updateCounts existing body documents children =>
      left
      cases documents with
      | none =>
          simp only [categoryAdvance] at hadvance
          split at hadvance <;> cases hadvance <;> rfl
      | some documents =>
          cases children with
          | none =>
              simp only [categoryAdvance] at hadvance
              split at hadvance <;> cases hadvance <;> rfl
          | some children =>
              simp only [categoryAdvance] at hadvance
              split at hadvance <;> cases hadvance <;> rfl
  | updateWrite existing body =>
      simp only [categoryAdvance, Option.some.injEq, Prod.mk.injEq] at hadvance
      cases hupdate : store.updateRow existing.id body with
      | none =>
          rw [hupdate] at hadvance
          exact .inl hadvance.2.symm
      | some updated =>
          rw [hupdate] at hadvance
          exact .inr (.inr (.inl ⟨existing, body, rfl, by rw [hupdate, ← hadvance.2]; rfl⟩))
  | delete id =>
      simp only [categoryAdvance] at hadvance
      split at hadvance <;> cases hadvance <;> exact .inl rfl
  | deleteCount existing =>
      cases hadvance
      exact .inl rfl
  | deleteTransaction existing =>
      cases hadvance
      exact .inr (.inr (.inr ⟨existing, rfl, rfl⟩))

end Effects

/-! ## Writes that keep the hierarchy -/

section Writes

variable {store after : CategoryStore} {id : Uuid} {body : CategoryDto}
variable {existing : DocumentCategory}

theorem createRow_eq_some (hcreate : store.createRow id body = some after) :
    id ∉ store.categories.map DocumentCategory.id ∧
      after.categories = store.categories ++ [⟨id, body.slug, body.spaceId, body.parentId, none⟩] ∧
      after.documents = store.documents ∧ after.clock = store.clock := by
  unfold CategoryStore.createRow at hcreate
  split at hcreate
  next hfresh =>
    cases hcreate
    exact ⟨hfresh.1, rfl, rfl, rfl⟩
  next => cases hcreate

/-- A row after `updateCategory`. -/
def updatedCategory (id : Uuid) (body : CategoryDto) (category : DocumentCategory) :
    DocumentCategory :=
  if category.id = id then
    { category with slug := body.slug, spaceId := body.spaceId, parentId := body.parentId }
  else category

theorem updateRow_eq_some (hupdate : store.updateRow id body = some after) :
    after.categories = store.categories.map (updatedCategory id body) ∧
      after.documents = store.documents ∧ after.clock = store.clock := by
  unfold CategoryStore.updateRow at hupdate
  split at hupdate
  · cases hupdate
  · cases hupdate
    exact ⟨rfl, rfl, rfl⟩

/-- The parent is still a live category of the space. -/
def ParentLive (store : CategoryStore) (body : CategoryDto) : Prop :=
  ∀ parentId, body.parentId = some parentId →
    ∃ parent ∈ store.liveIn body.spaceId, parent.id = parentId

/-- The walk from the parent still does not meet the category. -/
def ParentApart (store : CategoryStore) (id : Uuid) (body : CategoryDto) : Prop :=
  ∀ parentId, body.parentId = some parentId → store.climbs id body.spaceId parentId = some false

/-- A category that leaves its space has no live subcategories. -/
def LeavesNoChildren (store : CategoryStore) (id : Uuid) (body : CategoryDto) : Prop :=
  ∀ category ∈ store.live, category.id = id → category.spaceId ≠ body.spaceId →
    store.childCount id = 0

theorem Hierarchy.create (hhierarchy : Hierarchy store.live) (hparent : ParentLive store body)
    (hcreate : store.createRow id body = some after) : Hierarchy after.live := by
  obtain ⟨hfresh, hcategories, -, -⟩ := createRow_eq_some hcreate
  have hlive : after.live = store.live ++ [⟨id, body.slug, body.spaceId, body.parentId, none⟩] := by
    simp [CategoryStore.live, hcategories]
  have hnotLive : ∀ category ∈ store.live, category.id ≠ id := by
    intro category hcategory heq
    exact hfresh (List.mem_map.mpr ⟨category, (CategoryStore.mem_live.mp hcategory).1, heq⟩)
  refine ⟨hhierarchy.grounded.attach id ?_ ?_, ?_⟩
  · intro node hnode
    ext up
    rw [parentLink_eq_some after.live_ids, parentLink_eq_some store.live_ids, hlive]
    simp only [List.mem_append, List.mem_singleton]
    constructor
    · rintro ⟨category, hcategory | rfl, hid, hup⟩
      · exact ⟨category, hcategory, hid, hup⟩
      · exact absurd hid.symm hnode
    · rintro ⟨category, hcategory, hid, hup⟩
      exact ⟨category, .inl hcategory, hid, hup⟩
  · intro up hup hreaches
    rw [parentLink_eq_some after.live_ids, hlive] at hup
    obtain ⟨category, hcategory, hid, hup⟩ := hup
    rcases List.mem_append.mp hcategory with hold | hnew
    · exact hnotLive category hold hid
    · rw [List.mem_singleton.mp hnew] at hup
      obtain ⟨⟨top, htop, htopId⟩, -⟩ := hhierarchy.reaches_liveIn hreaches (hparent up hup)
      exact hnotLive top (CategoryStore.mem_liveIn.mp htop).1 htopId
  · intro category hcategory parentId hlink
    rw [hlive, List.mem_append, List.mem_singleton] at hcategory
    rw [hlive]
    rcases hcategory with hold | rfl
    · obtain ⟨parent, hparentLive, hparentId⟩ := hhierarchy.parents category hold parentId hlink
      exact ⟨parent, List.mem_append_left _ hparentLive, hparentId⟩
    · obtain ⟨parent, hparentLive, hparentId⟩ := hparent parentId hlink
      obtain ⟨hmem, hspace⟩ := CategoryStore.mem_liveIn.mp hparentLive
      exact ⟨parent, List.mem_append_left _ hmem, hparentId, hspace⟩

theorem updatedCategory_deletedAt (category : DocumentCategory) :
    (updatedCategory id body category).deletedAt = category.deletedAt := by
  unfold updatedCategory
  split <;> rfl

theorem updatedCategory_id (category : DocumentCategory) :
    (updatedCategory id body category).id = category.id := by
  unfold updatedCategory
  split <;> rfl

theorem updatedCategory_of_ne {category : DocumentCategory} (hne : category.id ≠ id) :
    updatedCategory id body category = category := by
  rw [updatedCategory, if_neg hne]

theorem mem_live_update (hcategories : after.categories = store.categories.map
      (updatedCategory id body)) {category : DocumentCategory} :
    category ∈ after.live ↔ ∃ before ∈ store.live, updatedCategory id body before = category := by
  simp only [CategoryStore.mem_live, hcategories, List.mem_map]
  constructor
  · rintro ⟨⟨before, hbefore, rfl⟩, hlive⟩
    rw [updatedCategory_deletedAt] at hlive
    exact ⟨before, ⟨hbefore, hlive⟩, rfl⟩
  · rintro ⟨before, ⟨hbefore, hlive⟩, rfl⟩
    exact ⟨⟨before, hbefore, rfl⟩, (updatedCategory_deletedAt before).trans hlive⟩

/-- The links of the other categories stay as they are. -/
theorem parentLink_update_of_ne (hcategories : after.categories = store.categories.map
      (updatedCategory id body)) {node : Uuid} (hnode : node ≠ id) :
    parentLink after.live node = parentLink store.live node := by
  ext up
  rw [parentLink_eq_some after.live_ids, parentLink_eq_some store.live_ids]
  simp only [mem_live_update hcategories]
  constructor
  · rintro ⟨_, ⟨before, hbefore, rfl⟩, hid, hup⟩
    rw [updatedCategory_id] at hid
    rw [updatedCategory_of_ne (hid ▸ hnode)] at hup
    exact ⟨before, hbefore, hid, hup⟩
  · rintro ⟨category, hcategory, hid, hup⟩
    exact ⟨category, ⟨category, hcategory, updatedCategory_of_ne (hid ▸ hnode)⟩, hid, hup⟩

/-- A walk that did not meet the category says that the parent is not below it. -/
theorem Hierarchy.not_reaches_of_apart (hhierarchy : Hierarchy store.live)
    (hparent : ParentLive store body) (hapart : ParentApart store id body) {up : Uuid}
    (hup : body.parentId = some up) : ¬Forest.Reaches (parentLink store.live) up id := by
  intro hreaches
  exact Forest.not_reaches_of_climb (hapart up hup)
    (hhierarchy.reaches_liveIn hreaches (hparent up hup)).2

/-- A child of the moved category: the space has not changed. -/
theorem LeavesNoChildren.spaceId_eq (hchildren : LeavesNoChildren store id body)
    {parent child : DocumentCategory} (hparent : parent ∈ store.live) (hid : parent.id = id)
    (hchild : child ∈ store.live) (hlink : child.parentId = some id) :
    parent.spaceId = body.spaceId := by
  by_contra hleaves
  have hnone := hchildren parent hparent hid hleaves
  rw [CategoryStore.childCount, List.countP_eq_zero] at hnone
  obtain ⟨hmem, hlive⟩ := CategoryStore.mem_live.mp hchild
  exact hnone child hmem (by simp [hlink, hlive])

theorem Hierarchy.update (hhierarchy : Hierarchy store.live) (hparent : ParentLive store body)
    (hapart : ParentApart store id body) (hchildren : LeavesNoChildren store id body)
    (hupdate : store.updateRow id body = some after) : Hierarchy after.live := by
  obtain ⟨hcategories, -, -⟩ := updateRow_eq_some hupdate
  refine ⟨hhierarchy.grounded.attach id (fun _ => parentLink_update_of_ne hcategories) ?_, ?_⟩
  · intro up hup
    rw [parentLink_eq_some after.live_ids] at hup
    simp only [mem_live_update hcategories] at hup
    obtain ⟨_, ⟨before, -, rfl⟩, hid, hup⟩ := hup
    rw [updatedCategory_id] at hid
    rw [updatedCategory, if_pos hid] at hup
    exact hhierarchy.not_reaches_of_apart hparent hapart hup
  · intro category hcategory parentId hlink
    rw [mem_live_update hcategories] at hcategory
    obtain ⟨before, hbefore, rfl⟩ := hcategory
    simp only [mem_live_update hcategories]
    by_cases hid : before.id = id
    · -- The moved category: its parent is another one and stays as it is.
      rw [updatedCategory, if_pos hid] at hlink ⊢
      obtain ⟨parent, hparentLive, hparentId⟩ := hparent parentId hlink
      obtain ⟨hmem, hspace⟩ := CategoryStore.mem_liveIn.mp hparentLive
      have hne : parent.id ≠ id := by
        intro heq
        apply hhierarchy.not_reaches_of_apart hparent hapart hlink
        rw [← hparentId, heq]
        exact .refl
      exact ⟨parent, ⟨parent, hmem, updatedCategory_of_ne hne⟩, hparentId, hspace⟩
    · rw [updatedCategory_of_ne hid] at hlink ⊢
      obtain ⟨parent, hparentLive, hparentId, hspace⟩ :=
        hhierarchy.parents before hbefore parentId hlink
      refine ⟨_, ⟨parent, hparentLive, rfl⟩, (updatedCategory_id parent).trans hparentId, ?_⟩
      by_cases hmoved : parent.id = id
      · rw [← hparentId, hmoved] at hlink
        rw [updatedCategory, if_pos hmoved, ← hspace]
        exact (hchildren.spaceId_eq hparentLive hmoved hbefore hlink).symm
      · rw [updatedCategory_of_ne hmoved]
        exact hspace

/-- The category read before is current as far as its children are concerned. -/
def ParentCurrent (store : CategoryStore) (existing : DocumentCategory) : Prop :=
  ∀ category ∈ store.live, category.id = existing.id → store.childCount existing.id ≠ 0 →
    category.parentId = existing.parentId

theorem mem_live_archive {category : DocumentCategory} :
    category ∈ (store.archiveRow existing).live ↔ ∃ before ∈ store.live,
      before.id ≠ existing.id ∧ archivedCategory existing store.clock before = category := by
  simp only [CategoryStore.mem_live, CategoryStore.archiveRow, List.mem_map]
  constructor
  · rintro ⟨⟨before, hbefore, rfl⟩, hlive⟩
    obtain ⟨hne, hbeforeLive⟩ := archivedCategory_live.mp hlive
    exact ⟨before, ⟨hbefore, hbeforeLive⟩, hne, rfl⟩
  · rintro ⟨before, ⟨hbefore, hlive⟩, hne, rfl⟩
    exact ⟨⟨before, hbefore, rfl⟩, archivedCategory_live.mpr ⟨hne, hlive⟩⟩

theorem archivedCategory_parentId {category : DocumentCategory} {now : Int} :
    (archivedCategory existing now category).parentId =
      if category.parentId = some existing.id then existing.parentId else category.parentId := rfl

/-- A live category with children has the parent that was read. -/
theorem ParentCurrent.of_child (hcurrent : ParentCurrent store existing)
    {category child : DocumentCategory} (hcategory : category ∈ store.live)
    (hid : category.id = existing.id) (hchild : child ∈ store.live)
    (hparent : child.parentId = some existing.id) : category.parentId = existing.parentId := by
  refine hcurrent category hcategory hid fun hnone => ?_
  rw [CategoryStore.childCount, List.countP_eq_zero] at hnone
  obtain ⟨hmem, hlive⟩ := CategoryStore.mem_live.mp hchild
  exact hnone child hmem (by simp [hparent, hlive])

/-- The parent of a child of the archived category is that category, and live. -/
theorem Hierarchy.parent_of_child (hhierarchy : Hierarchy store.live)
    (hcurrent : ParentCurrent store existing) {child : DocumentCategory}
    (hchild : child ∈ store.live) (hparent : child.parentId = some existing.id) :
    ∃ removed ∈ store.live, removed.id = existing.id ∧ removed.spaceId = child.spaceId ∧
      removed.parentId = existing.parentId := by
  obtain ⟨removed, hlive, hid, hspace⟩ := hhierarchy.parents child hchild _ hparent
  exact ⟨removed, hlive, hid, hspace, hcurrent.of_child hlive hid hchild hparent⟩

/-- The parent afterwards was live before, and is not the archived category. -/
theorem Hierarchy.parent_archive (hhierarchy : Hierarchy store.live)
    (hcurrent : ParentCurrent store existing) {before : DocumentCategory} {now : Int}
    {parentId : Uuid} (hbefore : before ∈ store.live)
    (hlink : (archivedCategory existing now before).parentId = some parentId) :
    ∃ parent ∈ store.live, parent.id = parentId ∧ parent.spaceId = before.spaceId ∧
      parent.id ≠ existing.id := by
  rw [archivedCategory_parentId] at hlink
  split at hlink
  next hchild =>
    obtain ⟨removed, hlive, hremovedId, hremovedSpace, hremovedParent⟩ :=
      hhierarchy.parent_of_child hcurrent hbefore hchild
    obtain ⟨parent, hparentLive, hparentId, hparentSpace⟩ :=
      hhierarchy.parents removed hlive parentId (hremovedParent.trans hlink)
    refine ⟨parent, hparentLive, hparentId, hparentSpace.trans hremovedSpace, fun heq => ?_⟩
    -- The archived category would be its own parent.
    apply hhierarchy.grounded.acyclic existing.id
    refine .single ((parentLink_eq_some store.live_ids).mpr ⟨removed, hlive, hremovedId, ?_⟩)
    rw [hremovedParent, hlink, ← hparentId, heq]
  next hother =>
    obtain ⟨parent, hparentLive, hparentId, hparentSpace⟩ :=
      hhierarchy.parents before hbefore parentId hlink
    refine ⟨parent, hparentLive, hparentId, hparentSpace, fun heq => ?_⟩
    rw [← heq, hparentId] at hother
    exact hother hlink

theorem Hierarchy.archive (hhierarchy : Hierarchy store.live)
    (hcurrent : ParentCurrent store existing) : Hierarchy (store.archiveRow existing).live := by
  refine ⟨hhierarchy.grounded.contract existing.id ?_, ?_⟩
  · intro node up hup
    rw [parentLink_eq_some (store.archiveRow existing).live_ids] at hup
    obtain ⟨category, hcategory, rfl, hup⟩ := hup
    obtain ⟨before, hbefore, hne, rfl⟩ := mem_live_archive.mp hcategory
    rw [archivedCategory_parentId] at hup
    have hlink : parentLink store.live (archivedCategory existing store.clock before).id =
        before.parentId := parentLink_of_mem hbefore
    rw [hlink]
    split at hup
    next hchild =>
      obtain ⟨removed, hlive, hremovedId, -, hparent⟩ :=
        hhierarchy.parent_of_child hcurrent hbefore hchild
      rw [if_pos hchild]
      exact (parentLink_eq_some store.live_ids).mpr ⟨removed, hlive, hremovedId, hparent.trans hup⟩
    next hother =>
      rw [if_neg hother]
      exact hup
  · intro category hcategory parentId hlink
    obtain ⟨before, hbefore, hne, rfl⟩ := mem_live_archive.mp hcategory
    obtain ⟨parent, hparentLive, hparentId, hspace, hparentNe⟩ :=
      hhierarchy.parent_archive hcurrent hbefore hlink
    exact ⟨_, mem_live_archive.mpr ⟨parent, hparentLive, hparentNe, rfl⟩, hparentId, hspace⟩

/-- Updating a row that is not live changes no live row. -/
theorem live_update_of_archived (hcategories : after.categories = store.categories.map
      (updatedCategory id body)) (hnot : ∀ category ∈ store.live, category.id ≠ id) :
    after.live = store.live := by
  unfold CategoryStore.live at hnot ⊢
  rw [hcategories, List.filter_map]
  have htest : ((fun category : DocumentCategory => category.deletedAt.isNone) ∘
      updatedCategory id body) = fun category => category.deletedAt.isNone := by
    funext category
    rw [Function.comp_apply, updatedCategory_deletedAt]
  rw [htest]
  conv_rhs => rw [← List.map_id (store.categories.filter _)]
  apply List.map_congr_left
  intro category hcategory
  rw [updatedCategory_of_ne (hnot category hcategory)]
  rfl

end Writes

/-! ## Runs -/

/-- The checks of a request still hold when it writes. -/
def StillValid (config : CategoryConfig) : CategoryRequest → Prop
  | .createWrite body => ParentLive config.store body
  | .updateWrite existing body =>
      (∃ category ∈ config.store.live, category.id = existing.id) →
        ParentLive config.store body ∧ ParentApart config.store existing.id body ∧
          LeavesNoChildren config.store existing.id body
  | .deleteTransaction existing => ParentCurrent config.store existing
  | _ => True

theorem hierarchy_advance {toLowerCase : String → String} {choice : CategoryChoice}
    {config : CategoryConfig} {after : CategoryStore} {request : CategoryRequest}
    {remaining : Option CategoryRequest} (hhierarchy : Hierarchy config.store.live)
    (hvalid : StillValid config request)
    (hadvance : categoryAdvance toLowerCase choice config.store request = some (remaining, after)) :
    Hierarchy after.live := by
  rcases categoryAdvance_write hadvance with rfl | ⟨body, rfl, hcreate⟩ |
    ⟨existing, body, rfl, hupdate⟩ | ⟨existing, rfl, rfl⟩
  · exact hhierarchy
  · exact hhierarchy.create hvalid hcreate
  · by_cases hlive : ∃ category ∈ config.store.live, category.id = existing.id
    · obtain ⟨hparent, hapart, hchildren⟩ := hvalid hlive
      exact hhierarchy.update hparent hapart hchildren hupdate
    · push Not at hlive
      rw [live_update_of_archived (updateRow_eq_some hupdate).1 hlive]
      exact hhierarchy
  · exact hhierarchy.archive hvalid

theorem hierarchy_reachable {toLowerCase : String → String} {config : CategoryConfig}
    (hreach : (categorySystem toLowerCase).ReachableWhile (Concurrent.Guarded StillValid) config) :
    Hierarchy config.store.live := by
  induction hreach with
  | @init start hinit =>
      have hnone : start.store.live = [] := by
        rw [CategoryStore.live, hinit.1]
        rfl
      rw [hnone]
      exact ⟨Forest.grounded_none, by simp⟩
  | step _ hallowed hstep ih =>
      rcases Concurrent.next_store hstep with ⟨time, -, hdrift⟩ |
        ⟨name, choice, request, remaining, rfl, hrequest, hadvance⟩ | hsame
      · simp only [categoryProgram, Option.ite_none_right_eq_some, Option.some.injEq] at hdrift
        rw [← hdrift.2]
        exact ih
      · exact hierarchy_advance ih (hallowed request hrequest) hadvance
      · rw [hsame]
        exact ih

/-- **The hierarchy.** As long as the checks of every request still hold when it
writes, no category is above itself, every parent is a live category of the same
space, and the walk of every `updateCategory` ends. -/
theorem category_hierarchy {toLowerCase : String → String} {config : CategoryConfig}
    (hreach : (categorySystem toLowerCase).ReachableWhile (Concurrent.Guarded StillValid) config) :
    Forest.Acyclic (parentLink config.store.live) ∧
    (∀ category ∈ config.store.live, ∀ parentId, category.parentId = some parentId →
      ∃ parent ∈ config.store.live, parent.id = parentId ∧ parent.spaceId = category.spaceId) ∧
    ∀ id body, ∃ check, config.store.checkHierarchy id body = some check := by
  have hhierarchy := hierarchy_reachable hreach
  refine ⟨hhierarchy.grounded.acyclic, hhierarchy.parents, fun id body => ?_⟩
  unfold CategoryStore.checkHierarchy
  split
  · exact ⟨_, rfl⟩
  next parentId hparent =>
    split
    · exact ⟨_, rfl⟩
    split
    · exact ⟨_, rfl⟩
    · obtain ⟨met, hmet⟩ := Option.isSome_iff_exists.mp
        (hhierarchy.climbs_isSome id body.spaceId parentId)
      rw [hmet]
      exact ⟨_, rfl⟩

/-! ## Sample -/

instance (store : CategoryStore) (body : CategoryDto) : Decidable (ParentLive store body) :=
  inferInstanceAs (Decidable (∀ parentId ∈ body.parentId,
    ∃ parent ∈ store.liveIn body.spaceId, parent.id = parentId))

instance (store : CategoryStore) (id : Uuid) (body : CategoryDto) :
    Decidable (ParentApart store id body) :=
  inferInstanceAs (Decidable (∀ parentId ∈ body.parentId,
    store.climbs id body.spaceId parentId = some false))

instance (store : CategoryStore) (id : Uuid) (body : CategoryDto) :
    Decidable (LeavesNoChildren store id body) :=
  inferInstanceAs (Decidable (∀ category ∈ store.live, _))

instance (store : CategoryStore) (existing : DocumentCategory) :
    Decidable (ParentCurrent store existing) :=
  inferInstanceAs (Decidable (∀ category ∈ store.live, _))

instance (config : CategoryConfig) (request : CategoryRequest) :
    Decidable (StillValid config request) :=
  match request with
  | .createWrite body => inferInstanceAs (Decidable (ParentLive config.store body))
  | .updateWrite existing body => inferInstanceAs (Decidable (
      (∃ category ∈ config.store.live, category.id = existing.id) →
        ParentLive config.store body ∧ ParentApart config.store existing.id body ∧
          LeavesNoChildren config.store existing.id body))
  | .deleteTransaction existing => inferInstanceAs (Decidable (ParentCurrent config.store existing))
  | .create _ | .createParent _ | .update .. | .updateSpace .. | .updateHierarchy ..
  | .updateCounts .. | .delete _ | .deleteCount _ => .isTrue trivial

def guidesId : Uuid := ⟨"guides", by decide⟩

def formsId : Uuid := ⟨"forms", by decide⟩

/-- A category of the space. -/
def guide (id : Uuid) (parentId : Option Uuid) : DocumentCategory :=
  ⟨id, id.text, itId, parentId, none⟩

def guideDto (id : Uuid) (parentId : Option Uuid) : CategoryDto := ⟨id.text, itId, parentId⟩

def emptySpace : CategoryStore := ⟨0, itStore.spaces, [], [], List.nodup_nil, List.nodup_nil⟩

/-- Two categories with the given parents. -/
def twoCategories (guidesParent formsParent : Option Uuid) : CategoryStore where
  clock := 0
  spaces := itStore.spaces
  categories := [guide guidesId guidesParent, guide formsId formsParent]
  documents := []
  categoryIds := show [guidesId, formsId].Nodup by decide
  documentIds := List.nodup_nil

/-- The statements of a request, with an id for a new row. -/
def statements (name : Nat) (newId : Uuid) (count : Nat) : List CategoryMove :=
  List.replicate count (.advance name ⟨newId, false⟩)

/-- Create the guides, then the forms. -/
def createBoth (formsParent : Option Uuid) : List CategoryMove :=
  .start 0 (.create (guideDto guidesId none)) :: statements 0 guidesId 3 ++
    .start 0 (.create (guideDto formsId formsParent)) :: statements 0 formsId 3

theorem reachable_emptySpace {allowed : CategoryConfig → CategoryMove → Prop} :
    (categorySystem String.toLower).ReachableWhile allowed (Concurrent.idle emptySpace) :=
  .init ⟨rfl, fun _ => rfl⟩

/-- The forms below the guides. -/
theorem category_hierarchy_forms :
    (categorySystem String.toLower).ReachableWhile (Concurrent.Guarded StillValid)
      (Concurrent.idle (twoCategories none (some guidesId))) ∧
    Forest.Acyclic (parentLink (twoCategories none (some guidesId)).live) ∧
    ∃ check, (twoCategories none (some guidesId)).checkHierarchy guidesId
      (guideDto guidesId (some formsId)) = some check := by
  have hrun : (Concurrent.executeNamed (categoryProgram String.toLower) [0]
      (Concurrent.isGuarded StillValid) (Concurrent.idle emptySpace)
      (createBoth (some guidesId))).bind (Concurrent.settled [0]) =
        some (twoCategories none (some guidesId)) := by
    decide +kernel
  have hreach := Concurrent.reachable_settled
    (fun _ _ _ hguarded => Concurrent.guarded_of_isGuarded hguarded) (createBoth (some guidesId))
    reachable_emptySpace hrun
  obtain ⟨hacyclic, -, hends⟩ := category_hierarchy hreach
  exact ⟨hreach, hacyclic, hends guidesId (guideDto guidesId (some formsId))⟩

/-- Each of two requests moves one category below the other, and both read before
either writes. -/
def crossingMoves : List CategoryMove :=
  createBoth none ++
    [.start 0 (.update guidesId (guideDto guidesId (some formsId))),
      .start 1 (.update formsId (guideDto formsId (some guidesId)))] ++
    statements 0 guidesId 3 ++ statements 1 guidesId 4 ++ statements 0 guidesId 1

/-- The two moves close a cycle, and the next move below it has no end. -/
theorem crossing_moves_close_cycle :
    (categorySystem String.toLower).Reachable
      (Concurrent.idle (twoCategories (some formsId) (some guidesId))) ∧
    ¬Forest.Acyclic (parentLink (twoCategories (some formsId) (some guidesId)).live) ∧
    (twoCategories (some formsId) (some guidesId)).checkHierarchy proceduresId
      (guideDto proceduresId (some guidesId)) = none := by
  have hrun : (Concurrent.executeNamed (categoryProgram String.toLower) [0, 1] (fun _ _ => true)
      (Concurrent.idle emptySpace) crossingMoves).bind (Concurrent.settled [0, 1]) =
        some (twoCategories (some formsId) (some guidesId)) := by
    decide +kernel
  refine ⟨?_, ?_, by decide⟩
  · exact Concurrent.reachable_settled (fun _ _ _ _ => trivial) crossingMoves
      reachable_emptySpace hrun
  · intro hacyclic
    have hguides : parentLink (twoCategories (some formsId) (some guidesId)).live guidesId =
        some formsId := by decide
    have hforms : parentLink (twoCategories (some formsId) (some guidesId)).live formsId =
        some guidesId := by decide
    exact hacyclic guidesId (.tail (.single hguides) hforms)

end IsmsPortal
