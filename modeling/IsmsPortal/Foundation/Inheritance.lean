import Mathlib.Data.List.Perm.Subperm

/-! # Inheritance along parent links

Nodes have parent links, which may dangle or form cycles. Some nodes are ruled:
they decide for themselves and for the nodes below them, down to the next ruled
node. The search from a node follows the links to the nearest ruled node or to
the top; it fails when the chain leaves the nodes or comes back to itself.
-/

namespace Foundation

universe u

/-- Where a search for the nearest ruled node ends. -/
inductive Nearest (κ : Type u)
  | ruled (node : κ)
  | top
  | nowhere
deriving DecidableEq

namespace Nearest

variable {κ : Type u} [DecidableEq κ]

/-- Follow the parent links from a node. `parent` is `none` outside the nodes and
`some none` at a node without parent; the nodes passed so far are remembered. -/
def search (parent : κ → Option (Option κ)) (ruled : κ → Bool) :
    Nat → List κ → Option κ → Option (Nearest κ)
  | _, _, none => some .top
  | 0, _, some _ => none
  | fuel + 1, visited, some current =>
      if current ∈ visited then some .nowhere
      else match parent current with
        | none => some .nowhere
        | some next =>
            if ruled current then some (.ruled current)
            else search parent ruled fuel (current :: visited) next

variable {parent : κ → Option (Option κ)} {ruled fewer : κ → Bool}

/-- The search ends: it passes every node at most once. -/
theorem search_isSome (nodes : List κ) (hnodes : ∀ node, (parent node).isSome → node ∈ nodes)
    {fuel : Nat} {visited : List κ} {start : Option κ} (hnodup : visited.Nodup)
    (hsubset : visited ⊆ nodes) (hfuel : nodes.length < fuel + visited.length) :
    (search parent ruled fuel visited start).isSome := by
  induction fuel generalizing visited start with
  | zero =>
      have hlength := (List.subperm_of_subset hnodup hsubset).length_le
      omega
  | succ fuel ih =>
      cases start with
      | none => rfl
      | some current =>
        simp only [search]
        split
        · rfl
        next hnew =>
        cases hparent : parent current with
        | none => rfl
        | some next =>
          dsimp only
          split
          · rfl
          · apply ih
            · exact List.nodup_cons.mpr ⟨hnew, hnodup⟩
            · exact List.cons_subset.mpr ⟨hnodes current (by rw [hparent]; rfl), hsubset⟩
            · rw [List.length_cons]
              omega

/-- A search that ends does not need its bound. -/
theorem search_of_le {fuel more : Nat} {visited : List κ} {start : Option κ} {found : Nearest κ}
    (hsearch : search parent ruled fuel visited start = some found) (hmore : fuel ≤ more) :
    search parent ruled more visited start = some found := by
  induction fuel generalizing more visited start with
  | zero =>
      cases start with
      | none => cases more <;> exact hsearch
      | some current => cases hsearch
  | succ fuel ih =>
      cases start with
      | none => cases more <;> exact hsearch
      | some current =>
        obtain ⟨more, rfl⟩ : ∃ rest, more = rest + 1 := ⟨more - 1, by omega⟩
        simp only [search] at hsearch ⊢
        split
        next hvisited => rwa [if_pos hvisited] at hsearch
        next hnew =>
        rw [if_neg hnew] at hsearch
        cases hparent : parent current with
        | none =>
            rw [hparent] at hsearch
            exact hsearch
        | some next =>
            rw [hparent] at hsearch
            dsimp only at hsearch ⊢
            split
            next hruled => rwa [if_pos hruled] at hsearch
            next hplain =>
              rw [if_neg hplain] at hsearch
              exact ih hsearch (by omega)

/-- With fewer ruled nodes the search ends at the same place, unless the node
at which it ended is no longer ruled. -/
theorem search_of_fewer (hfewer : ∀ node, fewer node = true → ruled node = true)
    {fuel : Nat} {visited : List κ} {start : Option κ} {found : Nearest κ}
    (hsearch : search parent ruled fuel visited start = some found)
    (hkept : ∀ node, found = .ruled node → fewer node = true) :
    search parent fewer fuel visited start = some found := by
  induction fuel generalizing visited start with
  | zero =>
      cases start with
      | none => exact hsearch
      | some current => cases hsearch
  | succ fuel ih =>
      cases start with
      | none => exact hsearch
      | some current =>
        simp only [search] at hsearch ⊢
        split at hsearch
        next hvisited => rw [if_pos hvisited, hsearch]
        next hnew =>
        rw [if_neg hnew]
        cases hparent : parent current with
        | none =>
          rw [hparent] at hsearch
          exact hsearch
        | some next =>
          rw [hparent] at hsearch
          dsimp only at hsearch ⊢
          split at hsearch
          next =>
            cases hsearch
            rw [if_pos (hkept current rfl)]
          next hplain =>
            rw [if_neg fun hruled => hplain (hfewer current hruled)]
            exact ih hsearch

/-! ## Climbs

What a search finds, without bound and without memory: a finite chain of plain
nodes that ends at a ruled node or at the top.
-/

/-- `Climbs parent ruled start found`: the links lead from `start` to `found`. -/
inductive Climbs (parent : κ → Option (Option κ)) (ruled : κ → Bool) : Option κ → Nearest κ → Prop
  | top : Climbs parent ruled none .top
  | ruled {node : κ} (hnode : (parent node).isSome = true) (hruled : ruled node = true) :
      Climbs parent ruled (some node) (.ruled node)
  | up {node : κ} {next : Option κ} {found : Nearest κ} (hparent : parent node = some next)
      (hplain : ruled node = false) (hclimbs : Climbs parent ruled next found) :
      Climbs parent ruled (some node) found

/-- The number of links of a climb. -/
inductive ClimbsIn (parent : κ → Option (Option κ)) (ruled : κ → Bool) :
    Nat → Option κ → Nearest κ → Prop
  | top : ClimbsIn parent ruled 0 none .top
  | ruled {node : κ} (hnode : (parent node).isSome = true) (hruled : ruled node = true) :
      ClimbsIn parent ruled 0 (some node) (.ruled node)
  | up {node : κ} {next : Option κ} {found : Nearest κ} {links : Nat}
      (hparent : parent node = some next) (hplain : ruled node = false)
      (hclimbs : ClimbsIn parent ruled links next found) :
      ClimbsIn parent ruled (links + 1) (some node) found

omit [DecidableEq κ] in
theorem Climbs.exists_links {start : Option κ} {found : Nearest κ}
    (hclimbs : Climbs parent ruled start found) : ∃ links, ClimbsIn parent ruled links start found := by
  induction hclimbs with
  | top => exact ⟨0, .top⟩
  | ruled hnode hruled => exact ⟨0, .ruled hnode hruled⟩
  | up hparent hplain _ ih =>
      obtain ⟨links, hlinks⟩ := ih
      exact ⟨links + 1, .up hparent hplain hlinks⟩

omit [DecidableEq κ] in
/-- Links determine the climb. -/
theorem ClimbsIn.unique {links other : Nat} {start : Option κ} {found found' : Nearest κ}
    (hclimbs : ClimbsIn parent ruled links start found)
    (hother : ClimbsIn parent ruled other start found') : links = other ∧ found = found' := by
  induction hclimbs generalizing other found' with
  | top =>
      cases hother
      exact ⟨rfl, rfl⟩
  | ruled _ hruled =>
      cases hother with
      | ruled => exact ⟨rfl, rfl⟩
      | up _ hplain _ =>
          rw [hruled] at hplain
          cases hplain
  | up hparent hplain _ ih =>
      cases hother with
      | ruled _ hruled =>
          rw [hruled] at hplain
          cases hplain
      | up hparent' _ hclimbs' =>
          rw [hparent, Option.some.injEq] at hparent'
          subst hparent'
          obtain ⟨hlinks, hfound⟩ := ih hclimbs'
          exact ⟨by rw [hlinks], hfound⟩

omit [DecidableEq κ] in
/-- A climb to a ruled node ends at one. -/
theorem Climbs.isRuled {start : Option κ} {node : κ}
    (hclimbs : Climbs parent ruled start (.ruled node)) : ruled node = true := by
  generalize hfound : Nearest.ruled node = found at hclimbs
  induction hclimbs with
  | top => cases hfound
  | ruled _ hruled =>
      cases hfound
      exact hruled
  | up _ _ _ ih => exact ih hfound

omit [DecidableEq κ] in
/-- From a plain node a climb goes on at the parent. -/
theorem climbs_up_iff {node : κ} {next : Option κ} {found : Nearest κ}
    (hparent : parent node = some next) (hplain : ruled node = false) :
    Climbs parent ruled (some node) found ↔ Climbs parent ruled next found := by
  constructor
  · intro hclimbs
    cases hclimbs with
    | ruled _ hruled =>
        rw [hplain] at hruled
        cases hruled
    | up hparent' _ hclimbs =>
        rw [hparent, Option.some.injEq] at hparent'
        exact hparent' ▸ hclimbs
  · exact .up hparent hplain

omit [DecidableEq κ] in
/-- A climb over fewer ruled nodes is one over all of them, or it passes a node
that is no longer ruled, the nearest one before. -/
theorem Climbs.of_fewer {start : Option κ} {found : Nearest κ}
    (hfewer : ∀ node, fewer node = true → ruled node = true)
    (hclimbs : Climbs parent fewer start found) :
    Climbs parent ruled start found ∨
      ∃ node, Climbs parent ruled start (.ruled node) ∧ fewer node = false := by
  induction hclimbs with
  | top => exact .inl .top
  | ruled hnode hruled => exact .inl (.ruled hnode (hfewer _ hruled))
  | @up node next found hparent hplain _ ih =>
      cases hruled : ruled node with
      | true => exact .inr ⟨node, .ruled (by rw [hparent]; rfl) hruled, hplain⟩
      | false =>
          refine ih.imp (.up hparent hruled) ?_
          rintro ⟨last, hclimbs, hlost⟩
          exact ⟨last, .up hparent hruled hclimbs, hlost⟩

omit [DecidableEq κ] in
/-- Below a node that is no longer ruled, what the links lead to is what they
lead to from its parent. -/
theorem Climbs.resumes_iff {start place : Option κ} {node : κ} {found : Nearest κ}
    (hfewer : ∀ node, fewer node = true → ruled node = true)
    (hclimbs : Climbs parent ruled start (.ruled node)) (hlost : fewer node = false)
    (hparent : parent node = some place) :
    Climbs parent fewer start found ↔ Climbs parent fewer place found := by
  generalize hend : Nearest.ruled node = last at hclimbs
  induction hclimbs with
  | top => cases hend
  | ruled _ _ =>
      cases hend
      exact climbs_up_iff hparent hlost
  | @up passed next last hnext hplain _ ih =>
      have hpassed : fewer passed = false := by
        rw [← Bool.not_eq_true] at hplain ⊢
        exact fun hruled => hplain (hfewer passed hruled)
      rw [climbs_up_iff hnext hpassed]
      exact ih hend

omit [DecidableEq κ] in
/-- The ruled node at which a climb ends is one of the nodes. -/
theorem Climbs.isSome {start : Option κ} {node : κ}
    (hclimbs : Climbs parent ruled start (.ruled node)) : (parent node).isSome = true := by
  generalize hend : Nearest.ruled node = last at hclimbs
  induction hclimbs with
  | top => cases hend
  | ruled hnode _ =>
      cases hend
      exact hnode
  | up _ _ _ ih => exact ih hend

theorem climbs_of_search {fuel : Nat} {visited : List κ} {start : Option κ} {found : Nearest κ}
    (hsearch : search parent ruled fuel visited start = some found) (hfound : found ≠ .nowhere) :
    Climbs parent ruled start found := by
  induction fuel generalizing visited start with
  | zero =>
      cases start with
      | none =>
          cases hsearch
          exact .top
      | some current => cases hsearch
  | succ fuel ih =>
      cases start with
      | none =>
          cases hsearch
          exact .top
      | some current =>
          simp only [search] at hsearch
          split at hsearch
          · cases hsearch
            exact absurd rfl hfound
          cases hparent : parent current with
          | none =>
              rw [hparent] at hsearch
              cases hsearch
              exact absurd rfl hfound
          | some next =>
              rw [hparent] at hsearch
              dsimp only at hsearch
              split at hsearch
              next hruled =>
                cases hsearch
                exact .ruled (by rw [hparent]; rfl) hruled
              next hplain => exact .up hparent (by simpa using hplain) (ih hsearch)

/-- A search does not come back to a node: the climbs from the nodes it has
passed are longer than the climb ahead. -/
theorem search_of_climbsIn {links fuel : Nat} {visited : List κ} {start : Option κ}
    {found result : Nearest κ} (hclimbs : ClimbsIn parent ruled links start found)
    (hvisited : ∀ node ∈ visited, ∃ longer, links < longer ∧
      ClimbsIn parent ruled longer (some node) found)
    (hsearch : search parent ruled fuel visited start = some result) : result = found := by
  have hnew : ∀ node, start = some node → node ∉ visited := by
    intro node hstart hmem
    obtain ⟨longer, hlonger, hfrom⟩ := hvisited node hmem
    obtain ⟨hlinks, -⟩ := hclimbs.unique (hstart ▸ hfrom)
    omega
  induction hclimbs generalizing fuel visited with
  | top =>
      cases fuel <;> cases hsearch <;> rfl
  | @ruled node hnode hruled =>
      cases fuel with
      | zero => cases hsearch
      | succ fuel =>
          obtain ⟨next, hparent⟩ := Option.isSome_iff_exists.mp hnode
          rw [search, if_neg (hnew node rfl), hparent] at hsearch
          simp only [hruled, if_true, Option.some.injEq] at hsearch
          exact hsearch.symm
  | @up node next found links hparent hplain hclimbs ih =>
      cases fuel with
      | zero => cases hsearch
      | succ fuel =>
          rw [search, if_neg (hnew node rfl), hparent] at hsearch
          simp only [hplain, Bool.false_eq_true, if_false] at hsearch
          have hpassed : ∀ passed ∈ node :: visited, ∃ longer, links < longer ∧
              ClimbsIn parent ruled longer (some passed) found := by
            intro passed hpassed
            rcases List.mem_cons.mp hpassed with rfl | hmem
            · exact ⟨links + 1, by omega, .up hparent hplain hclimbs⟩
            · obtain ⟨longer, hlonger, hfrom⟩ := hvisited passed hmem
              exact ⟨longer, by omega, hfrom⟩
          refine ih hpassed hsearch fun ahead hahead hmem => ?_
          obtain ⟨longer, hlonger, hfrom⟩ := hpassed ahead hmem
          obtain ⟨hlinks, -⟩ := hclimbs.unique (hahead ▸ hfrom)
          omega

/-- A search that ends finds exactly what the links lead to. -/
theorem climbs_iff_of_search {fuel : Nat} {start : Option κ} {found result : Nearest κ}
    (hsearch : search parent ruled fuel [] start = some result) (hfound : found ≠ .nowhere) :
    Climbs parent ruled start found ↔ result = found := by
  constructor
  · intro hclimbs
    obtain ⟨links, hlinks⟩ := hclimbs.exists_links
    exact search_of_climbsIn hlinks (by simp) hsearch
  · intro hresult
    exact climbs_of_search (hresult ▸ hsearch) hfound

/-! ## Removing a node

Its children are attached to another node, in practice its own parent.
-/

/-- The links without `removed`, whose children go to `up`. -/
def contract (parent : κ → Option (Option κ)) (removed : κ) (up : Option κ) (node : κ) :
    Option (Option κ) :=
  if node = removed then none
  else (parent node).map fun next => if next = some removed then up else next

/-- The links lead from a node to `removed` through plain nodes. -/
inductive Passes (parent : κ → Option (Option κ)) (ruled : κ → Bool) (removed : κ) : κ → Prop
  | here {node : κ} (hne : node ≠ removed) (hplain : ruled node = false)
      (hparent : parent node = some (some removed)) : Passes parent ruled removed node
  | up {node next : κ} (hne : node ≠ removed) (hplain : ruled node = false)
      (hparent : parent node = some (some next)) (hpasses : Passes parent ruled removed next) :
      Passes parent ruled removed node

variable {removed : κ} {up : Option κ}

/-- A climb after the removal was one before it, or it passed the removed node
and goes on where the children were attached. -/
theorem climbs_of_contract {start : Option κ} {found : Nearest κ}
    (hclimbs : Climbs (contract parent removed up) ruled start found) :
    Climbs parent ruled start found ∨
      ((∃ node, start = some node ∧ Passes parent ruled removed node) ∧
        Climbs parent ruled up found) := by
  induction hclimbs with
  | top => exact .inl .top
  | @ruled node hnode hruled =>
      left
      refine .ruled ?_ hruled
      unfold contract at hnode
      split at hnode
      · cases hnode
      · simpa using hnode
  | @up node next found hparent hplain hclimbs ih =>
      unfold contract at hparent
      split at hparent
      · cases hparent
      next hne =>
      obtain ⟨before, hbefore, hnext⟩ := Option.map_eq_some_iff.mp hparent
      split at hnext
      next hremoved =>
        -- The node was a child of the removed one.
        rw [hremoved] at hbefore
        subst hnext
        right
        refine ⟨⟨node, rfl, .here hne hplain hbefore⟩, ?_⟩
        rcases ih with hfound | ⟨-, hfound⟩
        · exact hfound
        · exact hfound
      next =>
        subst hnext
        rcases ih with hfound | ⟨⟨ahead, rfl, hpasses⟩, hfound⟩
        · exact .inl (.up hbefore hplain hfound)
        · exact .inr ⟨⟨node, rfl, .up hne hplain hbefore hpasses⟩, hfound⟩

/-- A climb before the removal is one after it, or it leads through the removed node. -/
theorem contract_climbs {start : Option κ} {found : Nearest κ}
    (hclimbs : Climbs parent ruled start found) :
    Climbs (contract parent removed up) ruled start found ∨
      Climbs parent ruled (some removed) found := by
  induction hclimbs with
  | top => exact .inl .top
  | @ruled node hnode hruled =>
      by_cases hne : node = removed
      · exact .inr (hne ▸ .ruled hnode hruled)
      · refine .inl (.ruled ?_ hruled)
        unfold contract
        rw [if_neg hne, Option.isSome_map]
        exact hnode
  | @up node next found hparent hplain hclimbs ih =>
      by_cases hne : node = removed
      · exact .inr (hne ▸ .up hparent hplain hclimbs)
      by_cases hnext : next = some removed
      · exact .inr (hnext ▸ hclimbs)
      · refine ih.imp_left fun hafter => .up ?_ hplain hafter
        unfold contract
        rw [if_neg hne, hparent, Option.map_some, if_neg hnext]

omit [DecidableEq κ] in
/-- Whatever the removed node led to, the nodes that pass it led to. -/
theorem Passes.climbs {node : κ} {found : Nearest κ} (hpasses : Passes parent ruled removed node)
    (hclimbs : Climbs parent ruled (some removed) found) : Climbs parent ruled (some node) found := by
  induction hpasses with
  | here _ hplain hparent => exact .up hparent hplain hclimbs
  | up _ hplain hparent _ ih => exact .up hparent hplain ih

/-- Nodes that pass the removed one climb from where the children were attached. -/
theorem Passes.contract_climbs {node : κ} {found : Nearest κ}
    (hpasses : Passes parent ruled removed node)
    (hclimbs : Climbs (contract parent removed up) ruled up found) :
    Climbs (contract parent removed up) ruled (some node) found := by
  induction hpasses with
  | here hne hplain hparent =>
      refine .up ?_ hplain hclimbs
      unfold contract
      rw [if_neg hne, hparent, Option.map_some, if_pos rfl]
  | @up node next hne hplain hparent hpasses ih =>
      by_cases hnext : next = removed
      · refine .up ?_ hplain hclimbs
        unfold contract
        rw [if_neg hne, hparent, Option.map_some, if_pos (congrArg some hnext)]
      · refine .up ?_ hplain ih
        unfold contract
        rw [if_neg hne, hparent, Option.map_some, if_neg]
        simpa using hnext

end Nearest

end Foundation
