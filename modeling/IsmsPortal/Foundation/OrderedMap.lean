import Mathlib.Data.List.AList

/-! # Maps that remember the order of insertion

Association lists with the oldest entry first. A key that is set again keeps its place; a map is
shrunk from its oldest entries.
-/

namespace Foundation

universe u v

/-- A map whose entries are in the order of insertion. -/
abbrev OrderedMap (κ : Type u) (ν : Type v) := AList fun _ : κ => ν

namespace OrderedMap

variable {κ : Type u} {ν : Type v}

def size (map : OrderedMap κ ν) : Nat := map.entries.length

/-- The entries without the oldest ones, fewer than the limit. -/
def shrinkEntries (limit : Nat) : List (Σ _ : κ, ν) → List (Σ _ : κ, ν)
  | [] => []
  | entry :: rest =>
      if limit ≤ (entry :: rest).length then shrinkEntries limit rest else entry :: rest

theorem shrinkEntries_suffix (limit : Nat) (entries : List (Σ _ : κ, ν)) :
    shrinkEntries limit entries <:+ entries := by
  induction entries with
  | nil => exact List.suffix_rfl
  | cons entry rest ih =>
      unfold shrinkEntries
      split
      · exact ih.trans (List.suffix_cons entry rest)
      · exact List.suffix_rfl

theorem length_shrinkEntries_lt {limit : Nat} (hlimit : 0 < limit)
    (entries : List (Σ _ : κ, ν)) : (shrinkEntries limit entries).length < limit := by
  induction entries with
  | nil => exact hlimit
  | cons entry rest ih =>
      unfold shrinkEntries
      split
      · exact ih
      · omega

/-- `while (map.size >= limit) map.delete(map.keys().next().value)`, for a positive limit. -/
def shrink (limit : Nat) (map : OrderedMap κ ν) : OrderedMap κ ν where
  entries := shrinkEntries limit map.entries
  nodupKeys := map.nodupKeys.sublist (shrinkEntries_suffix limit map.entries).sublist

theorem mem_of_mem_shrink {limit : Nat} {map : OrderedMap κ ν} {entry : Σ _ : κ, ν}
    (hentry : entry ∈ (map.shrink limit).entries) : entry ∈ map.entries :=
  (shrinkEntries_suffix limit map.entries).subset hentry

theorem size_shrink_lt {limit : Nat} (hlimit : 0 < limit) (map : OrderedMap κ ν) :
    (map.shrink limit).size < limit :=
  length_shrinkEntries_lt hlimit map.entries

theorem notMem_shrink {limit : Nat} {map : OrderedMap κ ν} {key : κ} (hkey : key ∉ map) :
    key ∉ map.shrink limit := by
  rw [AList.mem_keys] at hkey ⊢
  intro hmem
  obtain ⟨value, hentry⟩ := List.exists_of_mem_keys hmem
  exact hkey (List.mem_keys_of_mem (mem_of_mem_shrink hentry))

variable [DecidableEq κ]

/-- `map.set(key, value)`. -/
def set (map : OrderedMap κ ν) (key : κ) (value : ν) : OrderedMap κ ν :=
  if hkey : key ∈ map then map.replace key value
  else
    { entries := map.entries ++ [⟨key, value⟩]
      nodupKeys := by
        rw [List.NodupKeys, List.keys, List.map_append, List.nodup_append]
        refine ⟨map.nodupKeys, List.nodup_singleton key, ?_⟩
        intro first hfirst second hsecond
        obtain rfl : second = key := by simpa using hsecond
        rintro rfl
        exact hkey hfirst }

theorem entries_set_of_notMem {map : OrderedMap κ ν} {key : κ} (hkey : key ∉ map) (value : ν) :
    (map.set key value).entries = map.entries ++ [⟨key, value⟩] := by
  rw [set, dif_neg hkey]

theorem size_set_of_notMem {map : OrderedMap κ ν} {key : κ} (hkey : key ∉ map) (value : ν) :
    (map.set key value).size = map.size + 1 := by
  rw [size, entries_set_of_notMem hkey, List.length_append]
  rfl

theorem mem_entries_set {map : OrderedMap κ ν} {key : κ} (hkey : key ∉ map) {value : ν}
    {entry : Σ _ : κ, ν} :
    entry ∈ (map.set key value).entries ↔ entry ∈ map.entries ∨ entry = ⟨key, value⟩ := by
  rw [entries_set_of_notMem hkey, List.mem_append, List.mem_singleton]

theorem dlookup_kreplace {key : κ} (value : ν) {entries : List (Σ _ : κ, ν)}
    (hkey : key ∈ entries.keys) (other : κ) :
    (List.kreplace key value entries).dlookup other =
      if other = key then some value else entries.dlookup other := by
  induction entries with
  | nil => cases hkey
  | cons entry entries ih =>
      obtain ⟨first, found⟩ := entry
      by_cases hfirst : key = first
      · subst hfirst
        have hhead : List.kreplace key value (⟨key, found⟩ :: entries) =
            ⟨key, value⟩ :: entries := by
          apply List.lookmap_cons_some
          simp
        rw [hhead]
        split
        next heq => rw [heq, List.dlookup_cons_eq]
        next hne => rw [List.dlookup_cons_ne _ _ hne, List.dlookup_cons_ne _ _ hne]
      · have htail : List.kreplace key value (⟨first, found⟩ :: entries) =
            ⟨first, found⟩ :: List.kreplace key value entries := by
          apply List.lookmap_cons_none
          simp [hfirst]
        have hmem : key ∈ entries.keys := by
          rw [List.keys_cons, List.mem_cons] at hkey
          exact hkey.resolve_left hfirst
        rw [htail]
        by_cases hother : other = first
        · subst hother
          rw [List.dlookup_cons_eq, List.dlookup_cons_eq, if_neg (Ne.symm hfirst)]
        · rw [List.dlookup_cons_ne _ _ hother, List.dlookup_cons_ne _ _ hother, ih hmem]

/-- A key that is set has its value, and the others keep theirs. -/
theorem lookup_set (map : OrderedMap κ ν) (key : κ) (value : ν) (other : κ) :
    (map.set key value).lookup other = if other = key then some value else map.lookup other := by
  by_cases hkey : key ∈ map
  · rw [set, dif_pos hkey]
    exact dlookup_kreplace value hkey other
  · have hentries := entries_set_of_notMem hkey value
    have hlookup : (map.set key value).lookup other =
        (map.entries ++ [(⟨key, value⟩ : Σ _ : κ, ν)]).dlookup other := by
      rw [← hentries]
      rfl
    rw [hlookup, List.dlookup_append]
    split
    next heq =>
      subst heq
      rw [AList.mem_keys] at hkey
      rw [List.dlookup_eq_none.mpr hkey, List.dlookup_cons_eq]
      rfl
    next hne =>
      rw [List.dlookup_cons_ne _ _ hne]
      exact Option.or_none

/-- `map.delete(key)` leaves entries of other keys. -/
theorem mem_entries_erase {map : OrderedMap κ ν} {key : κ} {entry : Σ _ : κ, ν}
    (hentry : entry ∈ (map.erase key).entries) : entry.1 ≠ key ∧ entry ∈ map.entries := by
  refine ⟨?_, (List.kerase_sublist key map.entries).subset hentry⟩
  rintro rfl
  exact List.notMem_keys_kerase entry.1 map.nodupKeys (List.mem_keys_of_mem hentry)

theorem size_erase_le (map : OrderedMap κ ν) (key : κ) : size (map.erase key) ≤ map.size :=
  (List.kerase_sublist key map.entries).length_le

/-- The value of a key is in its entry. -/
theorem mem_of_lookup {map : OrderedMap κ ν} {key : κ} {value : ν}
    (hlookup : map.lookup key = some value) : (⟨key, value⟩ : Σ _ : κ, ν) ∈ map.entries :=
  AList.mem_lookup_iff.mp hlookup

end OrderedMap

end Foundation
