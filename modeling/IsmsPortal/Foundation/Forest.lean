import Mathlib.Data.List.Perm.Subperm
import Mathlib.Logic.Relation
import Mathlib.Order.WellFounded

/-! # Forests given by parent links

A node has at most one parent. The links are a forest when going up always
ends. Attaching a node to another keeps a forest when the node is not on the
way up from its new parent; so does removing a node and attaching its children
to its parent. The way up can be walked by a loop without memory, which ends
if the links are a forest, and within as many rounds as there are nodes if it
ends at all.
-/

namespace Foundation.Forest

universe u

variable {κ : Type u}

/-- `up` is the parent of `node`. -/
def Above (parent : κ → Option κ) (up node : κ) : Prop := parent node = some up

/-- Going up ends everywhere. -/
def Grounded (parent : κ → Option κ) : Prop := WellFounded (Above parent)

/-- `top` is on the way up from `node`, or is `node`. -/
def Reaches (parent : κ → Option κ) (node top : κ) : Prop :=
  Relation.ReflTransGen (fun lower upper => Above parent upper lower) node top

/-- No node is above itself. -/
def Acyclic (parent : κ → Option κ) : Prop :=
  ∀ node, ¬Relation.TransGen (fun lower upper => Above parent upper lower) node node

variable {parent other : κ → Option κ}

theorem Grounded.acyclic (hgrounded : Grounded parent) : Acyclic parent := by
  intro node hcycle
  have hswap : Relation.TransGen (Above parent) node node := by
    rw [← Relation.transGen_swap]
    exact hcycle
  exact hgrounded.transGen.irrefl.irrefl node hswap

theorem grounded_none : Grounded fun _ : κ => none := by
  refine ⟨fun node => ⟨node, fun up habove => ?_⟩⟩
  cases habove

/-- Fewer links. -/
theorem Grounded.mono (hgrounded : Grounded parent)
    (hfewer : ∀ node up, other node = some up → parent node = some up) : Grounded other :=
  Subrelation.wf (fun {up node} habove => hfewer node up habove) hgrounded

/-- Going up ends at a node that does not reach the changed one. -/
theorem acc_of_not_reaches {moved node : κ} (hacc : Acc (Above parent) node)
    (hsame : ∀ node, node ≠ moved → other node = parent node)
    (hnot : ¬Reaches parent node moved) : Acc (Above other) node := by
  induction hacc with
  | intro node _ ih =>
      have hne : node ≠ moved := by
        rintro rfl
        exact hnot .refl
      refine ⟨node, fun up habove => ?_⟩
      rw [Above, hsame node hne] at habove
      exact ih up habove fun hreaches => hnot (.head habove hreaches)

/-- **Attaching a node.** The links stay a forest when one node is attached to a node
from which it is not reached. -/
theorem Grounded.attach (hgrounded : Grounded parent) (moved : κ)
    (hsame : ∀ node, node ≠ moved → other node = parent node)
    (hnot : ∀ up, other moved = some up → ¬Reaches parent up moved) : Grounded other := by
  have hmoved : Acc (Above other) moved :=
    ⟨moved, fun up habove =>
      acc_of_not_reaches (hgrounded.apply up) hsame (hnot up habove)⟩
  refine ⟨fun node => ?_⟩
  induction hgrounded.apply node with
  | intro node _ ih =>
      by_cases hnode : node = moved
      · exact hnode ▸ hmoved
      · refine ⟨node, fun up habove => ih up ?_⟩
        rwa [Above, hsame node hnode] at habove

/-- **Removing a node.** The links stay a forest when the children of a node are
attached to its parent. -/
theorem Grounded.contract [DecidableEq κ] (hgrounded : Grounded parent) (removed : κ)
    (hother : ∀ node up, other node = some up →
      (if parent node = some removed then parent removed else parent node) = some up) :
    Grounded other := by
  suffices hlinks : Grounded fun node =>
      if parent node = some removed then parent removed else parent node from hlinks.mono hother
  refine ⟨fun node => ?_⟩
  induction hgrounded.apply node with
  | intro node _ ih =>
      refine ⟨node, fun up habove => ?_⟩
      by_cases hchild : parent node = some removed
      · -- The new parent of a child is above the removed node, where going up ends.
        rw [Above, if_pos hchild] at habove
        refine (ih removed hchild).inv ?_
        rw [Above, if_neg]
        · exact habove
        · intro hself
          exact hgrounded.acyclic removed (.single hself)
      · rw [Above, if_neg hchild] at habove
        exact ih up habove

/-! ## Walking up -/

section Climb

variable [DecidableEq κ]

/-- Walk up until the target or the top is met: `some true` at the target, `some
false` beyond the top, `none` when the bound is used up. -/
def climb (parent : κ → Option κ) (target : κ) : Nat → Option κ → Option Bool
  | _, none => some false
  | 0, some _ => none
  | fuel + 1, some current =>
      if current = target then some true else climb parent target fuel (parent current)

omit [DecidableEq κ] in
/-- The walk ends after the given number of links. -/
inductive EndsIn (parent : κ → Option κ) (target : κ) : Nat → Option κ → Bool → Prop
  | top : EndsIn parent target 0 none false
  | met : EndsIn parent target 0 (some target) true
  | up {node : κ} {links : Nat} {met : Bool} (hne : node ≠ target)
      (hrest : EndsIn parent target links (parent node) met) :
      EndsIn parent target (links + 1) (some node) met

variable {target : κ}

omit [DecidableEq κ] in
theorem EndsIn.unique {links links' : Nat} {start : Option κ} {met met' : Bool}
    (hends : EndsIn parent target links start met)
    (hother : EndsIn parent target links' start met') : links = links' ∧ met = met' := by
  induction hends generalizing links' met' with
  | top =>
      cases hother
      exact ⟨rfl, rfl⟩
  | met =>
      cases hother with
      | met => exact ⟨rfl, rfl⟩
      | up hne _ => exact absurd rfl hne
  | up hne _ ih =>
      cases hother with
      | met => exact absurd rfl hne
      | up _ hrest =>
          obtain ⟨hlinks, hmet⟩ := ih hrest
          exact ⟨by rw [hlinks], hmet⟩

theorem endsIn_of_climb {fuel : Nat} {start : Option κ} {met : Bool}
    (hclimb : climb parent target fuel start = some met) :
    ∃ links, EndsIn parent target links start met := by
  induction fuel generalizing start with
  | zero =>
      cases start with
      | none =>
          cases hclimb
          exact ⟨0, .top⟩
      | some current => cases hclimb
  | succ fuel ih =>
      cases start with
      | none =>
          cases hclimb
          exact ⟨0, .top⟩
      | some current =>
          simp only [climb] at hclimb
          split at hclimb
          next htarget =>
            cases hclimb
            exact ⟨0, htarget ▸ .met⟩
          next hne =>
            obtain ⟨links, hlinks⟩ := ih hclimb
            exact ⟨links + 1, .up hne hlinks⟩

/-- The walk does not come back to a node, since the walks from the nodes passed are
longer than the walk ahead. -/
theorem climb_of_endsIn {nodes : List κ} (hnodes : ∀ node, (parent node).isSome → node ∈ nodes)
    {links fuel : Nat} {visited : List κ} {start : Option κ} {met : Bool}
    (hends : EndsIn parent target links start met) (hnodup : visited.Nodup)
    (hsubset : visited ⊆ nodes)
    (hvisited : ∀ node ∈ visited, ∃ longer, links < longer ∧
      EndsIn parent target longer (some node) met)
    (hfuel : nodes.length < fuel + visited.length) :
    climb parent target fuel start = some met := by
  have hbound := (List.subperm_of_subset hnodup hsubset).length_le
  induction hends generalizing fuel visited with
  | top => cases fuel <;> rfl
  | met =>
      cases fuel with
      | zero => omega
      | succ fuel => rw [climb, if_pos rfl]
  | @up node links met hne hrest ih =>
      cases fuel with
      | zero => omega
      | succ fuel =>
          rw [climb, if_neg hne]
          have hnew : node ∉ visited := by
            intro hmem
            obtain ⟨longer, hlonger, hfrom⟩ := hvisited node hmem
            have hlinks := (EndsIn.unique hfrom (.up hne hrest)).1
            omega
          cases hparent : parent node with
          | none =>
              rw [hparent] at hrest
              cases hrest
              cases fuel <;> rfl
          | some up =>
              rw [← hparent]
              have hsubset' : node :: visited ⊆ nodes :=
                List.cons_subset.mpr ⟨hnodes node (by rw [hparent]; rfl), hsubset⟩
              have hnodup' : (node :: visited).Nodup := List.nodup_cons.mpr ⟨hnew, hnodup⟩
              refine ih hnodup' hsubset' ?_ ?_ (List.subperm_of_subset hnodup' hsubset').length_le
              · intro passed hpassed
                rcases List.mem_cons.mp hpassed with rfl | hmem
                · exact ⟨links + 1, by omega, .up hne hrest⟩
                · obtain ⟨longer, hlonger, hfrom⟩ := hvisited passed hmem
                  exact ⟨longer, by omega, hfrom⟩
              · rw [List.length_cons]
                omega

/-- **The bound of the walk.** A walk that ends does so within the number of nodes. -/
theorem climb_bound {nodes : List κ} (hnodes : ∀ node, (parent node).isSome → node ∈ nodes)
    {fuel : Nat} {start : Option κ} {met : Bool}
    (hclimb : climb parent target fuel start = some met) :
    climb parent target (nodes.length + 1) start = some met := by
  obtain ⟨links, hends⟩ := endsIn_of_climb hclimb
  exact climb_of_endsIn hnodes hends List.nodup_nil (List.nil_subset _) (by simp) (by simp)

omit [DecidableEq κ] in
/-- In a forest every walk ends. -/
theorem Grounded.endsIn (hgrounded : Grounded parent) (target : κ) (start : Option κ) :
    ∃ links met, EndsIn parent target links start met := by
  cases start with
  | none => exact ⟨0, false, .top⟩
  | some node =>
      induction hgrounded.apply node with
      | intro node _ ih =>
          by_cases htarget : node = target
          · exact ⟨0, true, htarget ▸ .met⟩
          cases hparent : parent node with
          | none => exact ⟨1, false, .up htarget (hparent ▸ .top)⟩
          | some up =>
              obtain ⟨links, met, hends⟩ := ih up hparent
              exact ⟨links + 1, met, .up htarget (hparent ▸ hends)⟩

theorem Grounded.climb_isSome (hgrounded : Grounded parent) {nodes : List κ}
    (hnodes : ∀ node, (parent node).isSome → node ∈ nodes) (target : κ) (start : Option κ) :
    (climb parent target (nodes.length + 1) start).isSome := by
  obtain ⟨links, met, hends⟩ := hgrounded.endsIn target start
  rw [climb_of_endsIn hnodes hends List.nodup_nil (List.nil_subset _) (by simp) (by simp)]
  rfl

omit [DecidableEq κ] in
/-- A walk beyond the top has not passed the target. -/
theorem EndsIn.not_reaches {links : Nat} {start : Option κ} {met : Bool}
    (hends : EndsIn parent target links start met) (hmet : met = false) {node : κ}
    (hstart : start = some node) : ¬Reaches parent node target := by
  induction hends generalizing node with
  | top => cases hstart
  | met => cases hmet
  | @up current links met hne hrest ih =>
      rw [Option.some.injEq] at hstart
      subst hstart
      intro hreaches
      rcases Relation.ReflTransGen.cases_head hreaches with heq | ⟨up, habove, hrest'⟩
      · exact hne heq
      · exact ih hmet habove hrest'

theorem not_reaches_of_climb {fuel : Nat} {node : κ}
    (hclimb : climb parent target fuel (some node) = some false) : ¬Reaches parent node target := by
  obtain ⟨links, hends⟩ := endsIn_of_climb hclimb
  exact hends.not_reaches rfl rfl

end Climb

end Foundation.Forest
