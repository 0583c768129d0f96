import Mathlib.Data.List.Perm.Basic
import Mathlib.Data.List.Nodup

/-! # Tables with a unique key

A table is a list of rows. Rewriting the row with a given key touches no other
row when the key is unique; up to order it replaces one row by another.
-/

namespace Foundation.Table

universe u v

variable {ρ : Type u} {κ : Type v} [DecidableEq κ]

/-- Rewrite the rows with the given key. -/
def update (key : ρ → κ) (target : κ) (f : ρ → ρ) (rows : List ρ) : List ρ :=
  rows.map fun row => if key row = target then f row else row

variable {key : ρ → κ} {f : ρ → ρ} {rows : List ρ}

/-- Columns that the new version of a row does not change. -/
theorem map_update {σ : Type*} {column : ρ → σ} (hf : ∀ row, column (f row) = column row)
    (target : κ) : (update key target f rows).map column = rows.map column := by
  unfold update
  rw [List.map_map]
  apply List.map_congr_left
  intro row _
  simp only [Function.comp_apply]
  split
  · exact hf row
  · rfl

theorem map_key_update (hf : ∀ row, key (f row) = key row) (target : κ) :
    (update key target f rows).map key = rows.map key :=
  map_update hf target

theorem update_of_notMem {target : κ} (htarget : ∀ row ∈ rows, key row ≠ target) :
    update key target f rows = rows := by
  unfold update
  conv_rhs => rw [← List.map_id rows]
  apply List.map_congr_left
  intro row hrow
  rw [if_neg (htarget row hrow)]
  rfl

omit [DecidableEq κ] in
/-- A row with a new key keeps the key unique. -/
theorem nodup_insert {row : ρ} (hunique : (rows.map key).Nodup)
    (hfresh : ∀ other ∈ rows, key other ≠ key row) : ((rows ++ [row]).map key).Nodup := by
  rw [List.map_append, List.map_singleton]
  apply List.Nodup.append hunique (List.nodup_singleton _)
  rw [List.disjoint_singleton]
  intro hmem
  obtain ⟨other, hother, heq⟩ := List.mem_map.mp hmem
  exact hfresh other hother heq

/-- Looking up a unique key finds the row that has it. -/
theorem find?_key_eq_some_iff (hunique : (rows.map key).Nodup) {target : κ} {row : ρ} :
    rows.find? (fun row => key row = target) = some row ↔ row ∈ rows ∧ key row = target := by
  constructor
  · intro hfound
    exact ⟨List.mem_of_find?_eq_some hfound, by simpa using List.find?_some hfound⟩
  · rintro ⟨hrow, rfl⟩
    have hsome : (rows.find? fun other => key other = key row).isSome := by
      rw [List.find?_isSome]
      exact ⟨row, hrow, by simp⟩
    obtain ⟨found, hfound⟩ := Option.isSome_iff_exists.mp hsome
    have hkey : key found = key row := by simpa using List.find?_some hfound
    rw [hfound, List.inj_on_of_nodup_map hunique (List.mem_of_find?_eq_some hfound) hrow hkey]

/-- Looking up a key in a table whose rows were rewritten with their keys. -/
theorem find?_key_map {g : ρ → ρ} (hg : ∀ row, key (g row) = key row) (wanted : κ) :
    (rows.map g).find? (fun row => key row = wanted) =
      (rows.find? fun row => key row = wanted).map g := by
  induction rows with
  | nil => rfl
  | cons row rest ih =>
      rw [List.map_cons, List.find?_cons, List.find?_cons, hg, ih]
      split <;> rfl

/-- A search that found a row finds its new version. -/
theorem find?_update_self {selects : ρ → Bool} (hunique : (rows.map key).Nodup) {row : ρ}
    (hfound : rows.find? selects = some row) (hnew : selects (f row) = true) :
    (update key (key row) f rows).find? selects = some (f row) := by
  obtain ⟨-, before, after, rfl, hbefore⟩ := List.find?_eq_some_iff_append.mp hfound
  rw [List.map_append, List.map_cons] at hunique
  have hnotMem := (List.nodup_cons.mp (List.nodup_middle.mp hunique)).1
  have hsame : update key (key row) f before = before := by
    apply update_of_notMem
    intro other hother heq
    exact hnotMem (List.mem_append_left _ (heq ▸ List.mem_map_of_mem hother))
  rw [update, List.map_append, List.map_cons, if_pos rfl]
  unfold update at hsame
  rw [hsame]
  exact List.find?_eq_some_iff_append.mpr ⟨hnew, before, _, rfl, hbefore⟩

/-- A search that selects neither the rewritten rows nor their new versions. -/
theorem find?_update_of_not {selects : ρ → Bool} {target : κ}
    (hnot : ∀ row ∈ rows, key row = target → selects row = false ∧ selects (f row) = false) :
    (update key target f rows).find? selects = rows.find? selects := by
  induction rows with
  | nil => rfl
  | cons row rest ih =>
      have hrest := ih fun other hother => hnot other (List.mem_cons_of_mem _ hother)
      unfold update at hrest ⊢
      rw [List.map_cons, List.find?_cons, List.find?_cons, hrest]
      by_cases hrow : key row = target
      · obtain ⟨hold, hnew⟩ := hnot row List.mem_cons_self hrow
        rw [if_pos hrow, hold, hnew]
      · rw [if_neg hrow]

/-- Rewriting a row of a uniquely keyed table leaves the other rows alone. -/
theorem update_perm (hunique : (rows.map key).Nodup) {row : ρ} (hrow : row ∈ rows) :
    ∃ others : List ρ, rows.Perm (row :: others) ∧
      (update key (key row) f rows).Perm (f row :: others) := by
  obtain ⟨before, after, rfl⟩ := List.append_of_mem hrow
  rw [List.map_append, List.map_cons] at hunique
  obtain ⟨hnotMem, _⟩ := List.nodup_middle.mp hunique |> List.nodup_cons.mp
  rw [List.mem_append, not_or] at hnotMem
  have hbefore : update key (key row) f before = before := by
    apply update_of_notMem
    intro other hother heq
    exact hnotMem.1 (heq ▸ List.mem_map_of_mem hother)
  have hafter : update key (key row) f after = after := by
    apply update_of_notMem
    intro other hother heq
    exact hnotMem.2 (heq ▸ List.mem_map_of_mem hother)
  refine ⟨before ++ after, List.perm_middle, ?_⟩
  have hsplit : update key (key row) f (before ++ row :: after) =
      before ++ f row :: after := by
    unfold update at hbefore hafter ⊢
    rw [List.map_append, List.map_cons, hbefore, hafter, if_pos rfl]
  rw [hsplit]
  exact List.perm_middle

omit [DecidableEq κ] in
/-- Rows with distinct keys that all occur in another table are no more than its rows. -/
theorem length_le_of_keys {σ : Type u} {others : List σ} (otherKey : σ → κ)
    (hdistinct : (rows.map key).Nodup)
    (hkeys : ∀ row ∈ rows, ∃ other ∈ others, otherKey other = key row) :
    rows.length ≤ others.length := by
  have hsubset : rows.map key ⊆ others.map otherKey := by
    intro target htarget
    obtain ⟨row, hrow, rfl⟩ := List.mem_map.mp htarget
    obtain ⟨other, hother, hkey⟩ := hkeys row hrow
    exact List.mem_map.mpr ⟨other, hother, hkey⟩
  simpa using (List.subperm_of_subset hdistinct hsubset).length_le

end Foundation.Table
