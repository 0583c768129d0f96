import IsmsPortal.Access.Categories
import Mathlib.Data.List.Chain

/-! # Nearest overrides

A category has the verdict of the nearest category that has a rule, on the way up its parent
links, and that of the root if there is none on the way. A way that comes back to itself or
leaves the list has no verdict. A change of the rules of one category is seen only by the
categories whose way reaches it before another category with a rule.
-/

namespace IsmsPortal

open Foundation

/-- The way up from a category to a last one, through categories that are plain. -/
structure WayUp (categories : List DocumentCategory) (plain : Uuid → Prop)
    (start : DocumentCategory) (passed : List DocumentCategory) (last : DocumentCategory) :
    Prop where
  first : (passed ++ [last]).head? = some start
  listed : ∀ category ∈ passed ++ [last], category ∈ categories
  distinct : ((passed ++ [last]).map DocumentCategory.id).Nodup
  links : (passed ++ [last]).IsChain fun lower upper => lower.parentId = some upper.id
  plain : ∀ category ∈ passed, plain category.id

/-- No rule is about the category. -/
def HasNoRule (rules : List CategoryRule) (id : Uuid) : Prop :=
  ∀ rule ∈ rules, rule.categoryId ≠ some id

theorem isRuled_eq_false {rules : List CategoryRule} {id : Uuid} :
    isRuled rules id = false ↔ HasNoRule rules id := by
  simp [isRuled, overrideOf_isSome, HasNoRule]

section Ways

variable {categories : List DocumentCategory} {ruled : Uuid → Bool} {start : DocumentCategory}

theorem parentOf_of_mem (hids : (categories.map DocumentCategory.id).Nodup)
    (hstart : start ∈ categories) : parentOf categories start.id = some start.parentId :=
  (parentOf_eq_some hids).mpr ⟨start, hstart, rfl, rfl⟩

/-- One more category in front. -/
theorem WayUp.cons {plain : Uuid → Prop} {upper last : DocumentCategory}
    {passed : List DocumentCategory} (hway : WayUp categories plain upper passed last)
    (hstart : start ∈ categories) (hplain : plain start.id) (hlink : start.parentId = some upper.id)
    (hnew : ∀ category ∈ passed ++ [last], category.id ≠ start.id) :
    WayUp categories plain start (start :: passed) last where
  first := rfl
  listed := by
    intro category hcategory
    rcases List.mem_cons.mp hcategory with rfl | hrest
    · exact hstart
    · exact hway.listed category hrest
  distinct := by
    rw [List.cons_append, List.map_cons, List.nodup_cons]
    refine ⟨?_, hway.distinct⟩
    intro hmem
    obtain ⟨category, hcategory, hid⟩ := List.mem_map.mp hmem
    exact hnew category hcategory hid
  links := by
    rw [List.cons_append, List.isChain_cons, hway.first]
    exact ⟨by simpa using hlink, hway.links⟩
  plain := by
    intro category hcategory
    rcases List.mem_cons.mp hcategory with rfl | hrest
    · exact hplain
    · exact hway.plain category hrest

/-- A climb passes distinct categories, since fewer and fewer links are left. -/
theorem exists_wayUp (hids : (categories.map DocumentCategory.id).Nodup) {links : Nat}
    {found : Nearest Uuid} (hstart : start ∈ categories)
    (hclimbs : Nearest.ClimbsIn (parentOf categories) ruled links (some start.id) found) :
    ∃ passed last, WayUp categories (fun id => ruled id = false) start passed last ∧
      (∀ category ∈ passed ++ [last], ∃ fewer ≤ links,
        Nearest.ClimbsIn (parentOf categories) ruled fewer (some category.id) found) ∧
      ((ruled last.id = true ∧ found = .ruled last.id) ∨
        (ruled last.id = false ∧ last.parentId = none ∧ found = .top)) := by
  induction links generalizing start with
  | zero =>
      cases hclimbs with
      | ruled hnode hruled =>
          refine ⟨[], start, ⟨rfl, ?_, ?_, ?_, ?_⟩, ?_, .inl ⟨hruled, rfl⟩⟩
          · simpa using hstart
          · simp
          · simp
          · simp
          · simpa using .ruled hnode hruled
  | succ links ih =>
      cases hclimbs with
      | @up _ next _ _ hparent hplain hrest =>
        have hnext : start.parentId = next := by
          simpa [parentOf_of_mem hids hstart] using hparent
        cases next with
        | none =>
            cases hrest
            refine ⟨[], start, ⟨rfl, ?_, ?_, ?_, ?_⟩, ?_, .inr ⟨hplain, hnext, rfl⟩⟩
            · simpa using hstart
            · simp
            · simp
            · simp
            · simpa using ⟨_, le_refl 1, .up hparent hplain .top⟩
        | some parent =>
            have hnode : (parentOf categories parent).isSome = true := by
              cases hrest with
              | ruled hnode _ => exact hnode
              | up hparent' _ _ => simp [hparent']
            obtain ⟨above, habove⟩ := Option.isSome_iff_exists.mp hnode
            obtain ⟨upper, hupper, rfl, -⟩ := (parentOf_eq_some hids).mp habove
            obtain ⟨passed, last, hway, hshorter, hend⟩ := ih hupper hrest
            have hclimbs := Nearest.ClimbsIn.up hparent hplain hrest
            refine ⟨start :: passed, last, hway.cons hstart hplain hnext ?_, ?_, hend⟩
            · -- The climb from a later category is shorter.
              intro category hcategory hid
              obtain ⟨fewer, hfewer, hfrom⟩ := hshorter category hcategory
              obtain ⟨hsame, -⟩ := hclimbs.unique (hid ▸ hfrom)
              omega
            · intro category hcategory
              rcases List.mem_cons.mp hcategory with rfl | hrest'
              · exact ⟨links + 1, le_refl _, hclimbs⟩
              · obtain ⟨fewer, hfewer, hfrom⟩ := hshorter category hrest'
                exact ⟨fewer, by omega, hfrom⟩

/-- A way up to a last category leads wherever the last one leads. -/
theorem WayUp.climbs (hids : (categories.map DocumentCategory.id).Nodup)
    {passed : List DocumentCategory} {last : DocumentCategory} {found : Nearest Uuid}
    (hway : WayUp categories (fun id => ruled id = false) start passed last)
    (hlast : Nearest.Climbs (parentOf categories) ruled (some last.id) found) :
    Nearest.Climbs (parentOf categories) ruled (some start.id) found := by
  induction passed generalizing start with
  | nil =>
      have hsame : last = start := by simpa using hway.first
      exact hsame ▸ hlast
  | cons category passed ih =>
      have hsame : category = start := by simpa using hway.first
      subst hsame
      have hlinks := hway.links
      rw [List.cons_append, List.isChain_cons] at hlinks
      obtain ⟨upper, hupper⟩ : ∃ upper, (passed ++ [last]).head? = some upper := by
        cases passed <;> simp
      have hlisted : category ∈ categories := hway.listed category (by simp)
      have hlink : category.parentId = some upper.id := hlinks.1 upper hupper
      have hrest : WayUp categories (fun id => ruled id = false) upper passed last := by
        refine ⟨hupper, ?_, ?_, hlinks.2, ?_⟩
        · exact fun other hother => hway.listed other (List.mem_cons_of_mem _ hother)
        · exact (List.nodup_cons.mp hway.distinct).2
        · exact fun other hother => hway.plain other (List.mem_cons_of_mem _ hother)
      have hparent := parentOf_of_mem hids hlisted
      rw [hlink] at hparent
      exact .up hparent (hway.plain category List.mem_cons_self) (ih hrest)

theorem WayUp.imp {plain other : Uuid → Prop} {passed : List DocumentCategory}
    {last : DocumentCategory} (hway : WayUp categories plain start passed last)
    (himp : ∀ id, plain id → other id) : WayUp categories other start passed last :=
  ⟨hway.first, hway.listed, hway.distinct, hway.links,
    fun category hcategory => himp _ (hway.plain category hcategory)⟩

end Ways

/-! ## Results -/

section Results

variable {categories : List DocumentCategory} {rules changed : List CategoryRule}
variable {inherited : Bool} {start : DocumentCategory} {id : Uuid}

theorem allowed_of_override : (overrideOf rules id).getD false = true ↔
    ∃ rule ∈ rules, rule.categoryId = some id ∧ rule.allowed = true := by
  simp [overrideOf_getD]

/-- The loop ends within one round for each category. -/
theorem resolveCategory_terminates (hstart : start ∈ categories) {fuel : Nat}
    (hfuel : categories.length < fuel) :
    resolveCategory categories rules inherited fuel [] (some start.id) =
      some (decide (start.id ∈ resolveCategories categories rules inherited)) := by
  have hsearch := Nearest.search_of_le (search_eq_nearestRuled categories rules start.id) hfuel
  rw [resolveCategory_eq, hsearch, Option.map_some, Option.some.injEq]
  have hmem : start.id ∈ categories.map DocumentCategory.id := List.mem_map_of_mem hstart
  simp [mem_resolveCategories, hmem]

/-- The nearest override decides, and the root where there is none. -/
theorem mem_resolveCategories_iff_wayUp (hids : (categories.map DocumentCategory.id).Nodup)
    (hstart : start ∈ categories) :
    start.id ∈ resolveCategories categories rules inherited ↔
      ∃ passed last, WayUp categories (HasNoRule rules) start passed last ∧
        ((∃ rule ∈ rules, rule.categoryId = some last.id ∧ rule.allowed = true) ∨
          (HasNoRule rules last.id ∧ last.parentId = none ∧ inherited = true)) := by
  rw [mem_resolveCategories_iff_climbs]
  constructor
  · rintro ⟨found, hclimbs, hverdict⟩
    obtain ⟨links, hlinks⟩ := hclimbs.exists_links
    obtain ⟨passed, last, hway, -, hend⟩ := exists_wayUp hids hstart hlinks
    refine ⟨passed, last, hway.imp fun _ => isRuled_eq_false.mp, ?_⟩
    rcases hend with ⟨-, rfl⟩ | ⟨hplain, htop, rfl⟩
    · exact .inl (allowed_of_override.mp hverdict)
    · exact .inr ⟨isRuled_eq_false.mp hplain, htop, hverdict⟩
  · rintro ⟨passed, last, hway, hend⟩
    have hplainWay := hway.imp fun _ => isRuled_eq_false.mpr
    have hlast : last ∈ categories := hway.listed last (by simp)
    have hparent := parentOf_of_mem hids hlast
    rcases hend with ⟨rule, hrule, hcategory, hallowed⟩ | ⟨hplain, htop, hroot⟩
    · have hruled : isRuled rules last.id = true := by
        simp only [isRuled, overrideOf_isSome, List.any_eq_true, decide_eq_true_eq]
        exact ⟨rule, hrule, hcategory⟩
      refine ⟨.ruled last.id, hplainWay.climbs hids (.ruled (by simp [hparent]) hruled), ?_⟩
      exact allowed_of_override.mpr ⟨rule, hrule, hcategory, hallowed⟩
    · rw [htop] at hparent
      exact ⟨.top, hplainWay.climbs hids (.up hparent (isRuled_eq_false.mpr hplain) .top), hroot⟩

/-- The rules of other categories are the same. -/
theorem isRuled_of_agree (hagree : ∀ rule, rule.categoryId ≠ some id →
      (rule ∈ changed ↔ rule ∈ rules)) {other : Uuid} (hother : other ≠ id) :
    isRuled changed other = isRuled rules other ∧
      (overrideOf changed other).getD false = (overrideOf rules other).getD false := by
  have hsame : ∀ rule : CategoryRule, rule.categoryId = some other →
      (rule ∈ changed ↔ rule ∈ rules) := by
    intro rule hcategory
    refine hagree rule ?_
    rw [hcategory]
    simpa using hother
  constructor
  · rw [isRuled, isRuled, overrideOf_isSome, overrideOf_isSome, Bool.eq_iff_iff]
    simp only [List.any_eq_true, decide_eq_true_eq]
    exact exists_congr fun rule => and_congr_left fun hcategory => hsame rule hcategory
  · rw [Bool.eq_iff_iff, allowed_of_override, allowed_of_override]
    exact exists_congr fun rule => and_congr_left fun hrule => hsame rule hrule.1

/-- A category whose way does not reach the changed one keeps its result. -/
theorem wayUp_of_changed (hids : (categories.map DocumentCategory.id).Nodup)
    (hstart : start ∈ categories)
    (hagree : ∀ rule, rule.categoryId ≠ some id → (rule ∈ changed ↔ rule ∈ rules))
    (hdiffers : ¬(start.id ∈ resolveCategories categories changed inherited ↔
      start.id ∈ resolveCategories categories rules inherited)) :
    ∃ passed last, WayUp categories (HasNoRule rules) start passed last ∧ last.id = id := by
  -- Stop at the changed category too, and look where the search ends then.
  let stops : Uuid → Bool := fun node => isRuled rules node || decide (node = id)
  have hends : (Nearest.search (parentOf categories) stops (categories.length + 1) []
      (some start.id)).isSome :=
    Nearest.search_isSome (categories.map DocumentCategory.id) (fun _ => mem_ids_of_parentOf)
      List.nodup_nil (List.nil_subset _) (by simp)
  obtain ⟨found, hfound⟩ := Option.isSome_iff_exists.mp hends
  by_cases hchanged : found = .ruled id
  · have hclimbs := Nearest.climbs_of_search hfound (by simp [hchanged])
    obtain ⟨links, hlinks⟩ := hclimbs.exists_links
    obtain ⟨passed, last, hway, -, hend⟩ := exists_wayUp hids hstart hlinks
    refine ⟨passed, last, hway.imp fun node hnode => ?_, ?_⟩
    · exact isRuled_eq_false.mp (Bool.or_eq_false_iff.mp hnode).1
    · rcases hend with ⟨-, hlast⟩ | ⟨-, -, hlast⟩
      · rw [hchanged] at hlast
        exact (Nearest.ruled.inj hlast).symm
      · rw [hchanged] at hlast
        cases hlast
  · -- Otherwise both searches end there, with the same verdict.
    have hsame : ∀ others, (∀ rule, rule.categoryId ≠ some id → (rule ∈ others ↔ rule ∈ rules)) →
        nearestRuled categories others start.id = found ∧
          verdict others inherited found = verdict rules inherited found := by
      intro others hothers
      have hsearch : Nearest.search (parentOf categories) (isRuled others) (categories.length + 1)
          [] (some start.id) = some found := by
        refine Nearest.search_of_fewer ?_ hfound ?_
        · intro node hruled
          by_cases hnode : node = id
          · simp [stops, hnode]
          · rw [(isRuled_of_agree hothers hnode).1] at hruled
            simp [stops, hruled]
        · intro node hnode
          have hne : node ≠ id := fun heq => hchanged (by rw [hnode, heq])
          have hclimbs := Nearest.climbs_of_search hfound (by simp [hnode])
          rw [hnode] at hclimbs
          have hstops := hclimbs.isRuled
          rw [(isRuled_of_agree hothers hne).1]
          simpa [stops, hne] using hstops
      rw [search_eq_nearestRuled, Option.some.injEq] at hsearch
      refine ⟨hsearch, ?_⟩
      cases found with
      | ruled node => exact (isRuled_of_agree hothers fun heq => hchanged (by rw [heq])).2
      | top => rfl
      | nowhere => rfl
    obtain ⟨hnearest, hverdict⟩ := hsame changed hagree
    obtain ⟨hnearest', -⟩ := hsame rules fun _ _ => Iff.rfl
    refine absurd ?_ hdiffers
    rw [mem_resolveCategories, mem_resolveCategories, hnearest, hnearest', hverdict]

end Results

/-- **Nearest overrides.** The walk ends for every category, however broken the links are. A
category is granted exactly if its way leads, without coming back and within the list, to a
first category with rules of which one allows, or to the top where the root is granted. The
rules of one category matter only to those whose way reaches it first. -/
theorem nearest_override_decides {categories : List DocumentCategory}
    (hids : (categories.map DocumentCategory.id).Nodup) (rules : List CategoryRule)
    (inherited : Bool) :
    (∀ category ∈ categories, ∀ fuel, categories.length < fuel →
      resolveCategory categories rules inherited fuel [] (some category.id) =
        some (decide (category.id ∈ resolveCategories categories rules inherited))) ∧
    (∀ category ∈ categories, category.id ∈ resolveCategories categories rules inherited ↔
      ∃ passed last, WayUp categories (HasNoRule rules) category passed last ∧
        ((∃ rule ∈ rules, rule.categoryId = some last.id ∧ rule.allowed = true) ∨
          (HasNoRule rules last.id ∧ last.parentId = none ∧ inherited = true))) ∧
    (∀ changed id, (∀ rule, rule.categoryId ≠ some id → (rule ∈ changed ↔ rule ∈ rules)) →
      ∀ category ∈ categories,
        ¬(category.id ∈ resolveCategories categories changed inherited ↔
          category.id ∈ resolveCategories categories rules inherited) →
        ∃ passed last, WayUp categories (HasNoRule rules) category passed last ∧ last.id = id) := by
  refine ⟨?_, ?_, ?_⟩
  · intro category hcategory fuel hfuel
    exact resolveCategory_terminates hcategory hfuel
  · intro category hcategory
    exact mem_resolveCategories_iff_wayUp hids hcategory
  · intro changed id hagree category hcategory hdiffers
    exact wayUp_of_changed hids hcategory hagree hdiffers

/-! ## Sample -/

def backupsId : Uuid := ⟨"backups", by decide⟩

/-- The procedures with the backups below them, and a category whose parent is itself. -/
def branch : List DocumentCategory :=
  [⟨backupsId, "backups", itId, some proceduresId, none⟩,
    ⟨proceduresId, "procedures", itId, none, none⟩,
    ⟨auditorsId, "loop", itId, some auditorsId, none⟩]

/-- The backups follow the rule of the procedures, and stop doing so when it changes. -/
theorem nearest_override_decides_backups :
    backupsId ∈ resolveCategories branch [⟨some proceduresId, true⟩] false ∧
      ∃ passed last, WayUp branch (HasNoRule [⟨some proceduresId, true⟩])
        ⟨backupsId, "backups", itId, some proceduresId, none⟩ passed last ∧
        last.id = proceduresId := by
  obtain ⟨-, hgranted, hlocal⟩ := @nearest_override_decides branch (by decide)
    [⟨some proceduresId, true⟩] false
  refine ⟨?_, hlocal [⟨some proceduresId, false⟩] proceduresId ?_ _ (by decide) (by decide)⟩
  · refine (hgranted _ (List.mem_cons_self)).mpr
      ⟨[⟨backupsId, "backups", itId, some proceduresId, none⟩],
        ⟨proceduresId, "procedures", itId, none, none⟩, ⟨rfl, ?_, ?_, ?_, ?_⟩, .inl ?_⟩
    · simp [branch]
    · decide
    · simp
    · simp [HasNoRule, backupsId, proceduresId]
    · exact ⟨_, List.mem_singleton_self _, rfl, rfl⟩
  · intro rule hother
    simp only [List.mem_singleton]
    constructor <;> rintro rfl <;> exact absurd rfl hother

end IsmsPortal
