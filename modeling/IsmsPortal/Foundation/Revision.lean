import IsmsPortal.Foundation.Table

/-! # Records with a revision

A record is read, changed in memory and written back as a whole, on the condition that it
still has the revision that was read. When every write gives a revision that was never used
before, a copy can be written back only while the table still holds exactly that copy.
-/

namespace Foundation.Revision

universe u v w

variable {ρ : Type u} {κ : Type v} {ν : Type w} [DecidableEq κ] [DecidableEq ν]
variable (key : ρ → κ) (revision : ρ → ν)

/-- Replace the record with the key of the new one, if it has the expected revision. -/
def save (expected : ν) (record : ρ) (rows : List ρ) : List ρ :=
  rows.map fun row => if key row = key record ∧ revision row = expected then record else row

/-- The only record with the key and the revision of the copy is the copy. -/
def Based (copy : ρ) (rows : List ρ) : Prop :=
  ∀ row ∈ rows, key row = key copy → revision row = revision copy → row = copy

variable {key revision} {rows : List ρ} {copy record : ρ} {expected : ν}

theorem mem_save {row : ρ} (hrow : row ∈ save key revision expected record rows) :
    row ∈ rows ∨ row = record ∧ ∃ old ∈ rows, key old = key record ∧ revision old = expected := by
  obtain ⟨old, hold, rfl⟩ := List.mem_map.mp hrow
  split
  next hmatch => exact .inr ⟨rfl, old, hold, hmatch⟩
  next => exact .inl hold

theorem map_key_save : (save key revision expected record rows).map key = rows.map key := by
  unfold save
  rw [List.map_map]
  apply List.map_congr_left
  intro row _
  simp only [Function.comp_apply]
  split
  next hmatch => exact hmatch.1.symm
  next => rfl

/-- A save that expects another revision than the record has changes nothing. -/
theorem save_of_stale (hstale : ∀ row ∈ rows, key row = key record → revision row ≠ expected) :
    save key revision expected record rows = rows := by
  unfold save
  conv_rhs => rw [← List.map_id rows]
  apply List.map_congr_left
  intro row hrow
  rw [if_neg fun hmatch => hstale row hrow hmatch.1 hmatch.2]
  rfl

/-- Rows that a save does not replace stay, up to a column that it does not change. -/
theorem exists_mem_save {σ : Type*} (column : ρ → σ)
    (hcolumn : ∀ old ∈ rows, key old = key record → revision old = expected →
      column record = column old) {row : ρ} (hrow : row ∈ rows) :
    ∃ saved ∈ save key revision expected record rows,
      key saved = key row ∧ column saved = column row := by
  refine ⟨_, List.mem_map_of_mem hrow, ?_⟩
  split
  next hmatch => exact ⟨hmatch.1.symm, hcolumn row hrow hmatch.1 hmatch.2⟩
  next => exact ⟨rfl, rfl⟩

omit [DecidableEq κ] [DecidableEq ν] in
theorem Based.of_mem (hunique : (rows.map key).Nodup) (hcopy : copy ∈ rows) :
    Based key revision copy rows := by
  intro row hrow hkey _
  exact List.inj_on_of_nodup_map hunique hrow hcopy hkey

omit [DecidableEq κ] [DecidableEq ν] in
/-- A copy stays the only record with its revision while new records have other revisions. -/
theorem Based.mono {after : List ρ} (hbased : Based key revision copy rows)
    (hnew : ∀ row ∈ after, row ∈ rows ∨ revision row ≠ revision copy) :
    Based key revision copy after := by
  intro row hrow hkey hrevision
  rcases hnew row hrow with hold | hother
  · exact hbased row hold hkey hrevision
  · exact absurd hrevision hother

/-- A save on the revision of a copy replaces that copy and no other record. -/
theorem Based.mem_save (hbased : Based key revision copy rows) (hkey : key record = key copy)
    {row : ρ} (hrow : row ∈ Revision.save key revision (revision copy) record rows) :
    row ∈ rows ∨ row = record ∧ copy ∈ rows := by
  rcases Revision.mem_save hrow with hold | ⟨hnew, old, hold, hsame, hrevision⟩
  · exact .inl hold
  · exact .inr ⟨hnew, hbased old hold (hsame.trans hkey) hrevision ▸ hold⟩

end Foundation.Revision
