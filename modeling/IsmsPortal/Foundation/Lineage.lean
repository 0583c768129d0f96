import Mathlib.Data.List.Perm.Subperm
import Mathlib.Data.Set.Basic
import Mathlib.Logic.Relation

/-! # Closure under parents

Every node has at most one parent, and the links may form cycles. The least set that has given
nodes and with every node its parent is found by walking up from each of them; a walk ends at
the top or where it has been before.
-/

namespace Foundation.Lineage

universe u

variable {κ : Type u} (parent : κ → Option κ)

/-- The set has the parent of each of its nodes. -/
def Closed (nodes : Set κ) : Prop := ∀ lower ∈ nodes, ∀ upper, parent lower = some upper → upper ∈ nodes

/-- The links lead from the first node to the second. -/
abbrev Leads : κ → κ → Prop := Relation.ReflTransGen fun lower upper => parent lower = some upper

variable {parent}

theorem Closed.leads {nodes : Set κ} (hclosed : Closed parent nodes) {lower upper : κ}
    (hleads : Leads parent lower upper) (hlower : lower ∈ nodes) : upper ∈ nodes := by
  induction hleads with
  | refl => exact hlower
  | tail _ hlink ih => exact hclosed _ ih _ hlink

/-! ## The walk -/

variable [DecidableEq κ]

/-- Walk up and collect, until the top or a node of this walk. -/
def walk (parent : κ → Option κ) : Nat → List κ → List κ → Option κ → Option (List κ)
  | _, _, found, none => some found
  | 0, _, _, some _ => none
  | fuel + 1, visited, found, some current =>
      if current ∈ visited then some found
      else walk parent fuel (current :: visited) (found.insert current) (parent current)

/-- The walk ends: only nodes with a parent let it go on. -/
theorem walk_isSome (nodes : List κ) (hnodes : ∀ node, (parent node).isSome → node ∈ nodes)
    {fuel : Nat} {visited found : List κ} {start : Option κ} (hnodup : visited.Nodup)
    (hsubset : visited ⊆ nodes) (hfuel : nodes.length < fuel + visited.length) :
    (walk parent fuel visited found start).isSome := by
  induction fuel generalizing visited found start with
  | zero =>
      have hlength := (List.subperm_of_subset hnodup hsubset).length_le
      omega
  | succ fuel ih =>
      cases start with
      | none => rfl
      | some current =>
        rw [walk]
        split
        · rfl
        next hnew =>
        cases hparent : parent current with
        | none => cases fuel <;> rfl
        | some next =>
          apply ih
          · exact List.nodup_cons.mpr ⟨hnew, hnodup⟩
          · exact List.cons_subset.mpr ⟨hnodes current (by simp [hparent]), hsubset⟩
          · rw [List.length_cons]
            omega

/-- The walk adds what its start leads to. The nodes it has visited are found, and lead to
each other or to the start. -/
theorem mem_walk {fuel : Nat} {visited found result : List κ} {start : Option κ}
    (hwalk : walk parent fuel visited found start = some result) (hfound : visited ⊆ found)
    (hvisited : ∀ lower ∈ visited, ∀ upper, parent lower = some upper →
      upper ∈ visited ∨ start = some upper) {node : κ} :
    node ∈ result ↔ node ∈ found ∨ ∃ first, start = some first ∧ Leads parent first node := by
  induction fuel generalizing visited found start with
  | zero =>
      cases start with
      | none =>
          cases hwalk
          simp
      | some current => cases hwalk
  | succ fuel ih =>
      cases start with
      | none =>
          cases hwalk
          simp
      | some current =>
        rw [walk] at hwalk
        split at hwalk
        next hback =>
          -- The visited nodes are closed now.
          cases hwalk
          have hclosed : Closed parent {node | node ∈ visited} := by
            intro lower hlower upper hlink
            rcases hvisited lower hlower upper hlink with hupper | hupper
            · exact hupper
            · exact Option.some.inj hupper ▸ hback
          constructor
          · exact fun hmem => .inl hmem
          · rintro (hmem | ⟨first, hfirst, hleads⟩)
            · exact hmem
            · exact hfound (hclosed.leads hleads (Option.some.inj hfirst ▸ hback))
        next hnew =>
          have hrest := ih hwalk ?_ ?_
          · rw [hrest, List.mem_insert_iff]
            constructor
            · rintro ((rfl | hmem) | ⟨first, hlink, hleads⟩)
              · exact .inr ⟨node, rfl, .refl⟩
              · exact .inl hmem
              · exact .inr ⟨current, rfl, .head hlink hleads⟩
            · rintro (hmem | ⟨first, hfirst, hleads⟩)
              · exact .inl (.inr hmem)
              · cases hfirst
                rcases Relation.ReflTransGen.cases_head hleads with rfl | ⟨next, hlink, hleads⟩
                · exact .inl (.inl rfl)
                · exact .inr ⟨next, hlink, hleads⟩
          · intro lower hlower
            rcases List.mem_cons.mp hlower with rfl | hold
            · exact List.mem_insert_self
            · exact List.mem_insert_of_mem (hfound hold)
          · intro lower hlower upper hlink
            rcases List.mem_cons.mp hlower with rfl | hold
            · exact .inr hlink
            · rcases hvisited lower hold upper hlink with hupper | hupper
              · exact .inl (List.mem_cons_of_mem _ hupper)
              · cases hupper
                exact .inl List.mem_cons_self

/-- Walk up from the parent of every seed. -/
def close (parent : κ → Option κ) (fuel : Nat) (seeds : List κ) : Option (List κ) :=
  seeds.foldlM (fun found seed => walk parent fuel [] found (parent seed)) seeds

theorem mem_foldlM_walk {fuel : Nat} {todo found result : List κ}
    (hclose : todo.foldlM (fun found seed => walk parent fuel [] found (parent seed)) found =
      some result) {node : κ} :
    node ∈ result ↔ node ∈ found ∨
      ∃ seed ∈ todo, ∃ first, parent seed = some first ∧ Leads parent first node := by
  induction todo generalizing found with
  | nil =>
      cases hclose
      simp
  | cons seed rest ih =>
      rw [List.foldlM_cons] at hclose
      obtain ⟨middle, hwalk, hrest⟩ := Option.bind_eq_some_iff.mp hclose
      rw [ih hrest, mem_walk hwalk (List.nil_subset _) (by simp)]
      simp [or_assoc]

/-- All that the seeds lead to is found. -/
theorem mem_close {fuel : Nat} {seeds result : List κ}
    (hclose : close parent fuel seeds = some result) {node : κ} :
    node ∈ result ↔ ∃ seed ∈ seeds, Leads parent seed node := by
  rw [mem_foldlM_walk hclose]
  constructor
  · rintro (hmem | ⟨seed, hseed, first, hlink, hleads⟩)
    · exact ⟨node, hmem, .refl⟩
    · exact ⟨seed, hseed, .head hlink hleads⟩
  · rintro ⟨seed, hseed, hleads⟩
    rcases Relation.ReflTransGen.cases_head hleads with rfl | ⟨first, hlink, hleads⟩
    · exact .inl hseed
    · exact .inr ⟨seed, hseed, first, hlink, hleads⟩

theorem foldlM_walk_isSome (nodes : List κ) (hnodes : ∀ node, (parent node).isSome → node ∈ nodes)
    {fuel : Nat} (hfuel : nodes.length < fuel) (todo found : List κ) :
    (todo.foldlM (fun found seed => walk parent fuel [] found (parent seed)) found).isSome := by
  induction todo generalizing found with
  | nil => rfl
  | cons seed rest ih =>
      have hwalk : (walk parent fuel [] found (parent seed)).isSome :=
        walk_isSome nodes hnodes List.nodup_nil (List.nil_subset _) (by simpa using hfuel)
      obtain ⟨middle, hmiddle⟩ := Option.isSome_iff_exists.mp hwalk
      rw [List.foldlM_cons, hmiddle]
      exact ih middle

/-- A bound above the number of nodes is enough. -/
theorem close_isSome (nodes : List κ) (hnodes : ∀ node, (parent node).isSome → node ∈ nodes)
    {fuel : Nat} (hfuel : nodes.length < fuel) (seeds : List κ) :
    (close parent fuel seeds).isSome :=
  foldlM_walk_isSome nodes hnodes hfuel seeds seeds

end Foundation.Lineage
