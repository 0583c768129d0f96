import Mathlib.Data.List.Basic
import Mathlib.Tactic.Common

/-! # Frames of a stream

A framing takes the first frame of what has arrived. What it takes does not depend on what follows,
so the frames of a stream do not depend on the pieces in which it arrives: what is left of a piece
starts the next one.
-/

namespace Foundation

universe u v

/-- A way to take the first frame of a list. -/
structure Framing (α : Type u) (β : Type v) where
  first : List α → Option (β × List α)
  shorter : ∀ items frame rest, first items = some (frame, rest) → rest.length < items.length
  stable : ∀ items frame rest more, first items = some (frame, rest) →
    first (items ++ more) = some (frame, rest ++ more)

namespace Framing

variable {α : Type u} {β : Type v} (framing : Framing α β)

/-- All complete frames, and what is left behind them. -/
def frames (items : List α) : List β × List α :=
  match _h : framing.first items with
  | none => ([], items)
  | some (frame, rest) => (frame :: (frames rest).1, (frames rest).2)
termination_by items.length
decreasing_by all_goals exact framing.shorter _ _ _ _h

variable {framing}

theorem frames_of_none {items : List α} (h : framing.first items = none) :
    framing.frames items = ([], items) := by
  rw [frames]
  split
  next => rfl
  next hsome => cases h.symm.trans hsome

theorem frames_of_some {items rest : List α} {frame : β}
    (h : framing.first items = some (frame, rest)) :
    framing.frames items = (frame :: (framing.frames rest).1, (framing.frames rest).2) := by
  rw [frames]
  split
  next hnone => cases hnone.symm.trans h
  next other after hsome =>
    obtain ⟨rfl, rfl⟩ := Prod.mk.inj (Option.some.inj (h.symm.trans hsome))
    rfl

variable (framing)

/-- A case for each frame that can be taken. -/
theorem frames_induction {motive : List α → Prop}
    (hnone : ∀ items, framing.first items = none → motive items)
    (hsome : ∀ items frame rest, framing.first items = some (frame, rest) → motive rest →
      motive items) (items : List α) : motive items := by
  induction hlength : items.length using Nat.strongRecOn generalizing items with
  | ind length ih =>
    cases hfirst : framing.first items with
    | none => exact hnone items hfirst
    | some taken =>
        obtain ⟨frame, rest⟩ := taken
        have hshorter := framing.shorter _ _ _ hfirst
        exact hsome items frame rest hfirst (ih rest.length (hlength ▸ hshorter) rest rfl)

/-- The pieces of a stream have its frames. -/
theorem frames_append (items more : List α) :
    framing.frames (items ++ more) =
      ((framing.frames items).1 ++ (framing.frames ((framing.frames items).2 ++ more)).1,
        (framing.frames ((framing.frames items).2 ++ more)).2) := by
  induction items using framing.frames_induction with
  | hnone items h => rw [frames_of_none h, List.nil_append]
  | hsome items frame rest h ih =>
      rw [frames_of_some (framing.stable _ _ _ more h), frames_of_some h, ih, List.cons_append]

theorem frames_prefix (items more : List α) :
    (framing.frames items).1 <+: (framing.frames (items ++ more)).1 := by
  rw [frames_append]
  exact List.prefix_append _ _

/-- A reader that keeps what is left of a piece for the next one. -/
def feed (state : List β × List α) (piece : List α) : List β × List α :=
  (state.1 ++ (framing.frames (state.2 ++ piece)).1, (framing.frames (state.2 ++ piece)).2)

theorem feed_feed (state : List β × List α) (piece more : List α) :
    framing.feed (framing.feed state piece) more = framing.feed state (piece ++ more) := by
  rw [feed, feed, feed, ← List.append_assoc state.2, framing.frames_append (state.2 ++ piece) more,
    List.append_assoc]

/-- The items of some complete frames. -/
def Complete (whole : List (List α × β)) : Prop :=
  ∀ entry ∈ whole, framing.first entry.1 = some (entry.2, [])

variable {framing}

theorem frames_complete {whole : List (List α × β)} (hwhole : framing.Complete whole)
    (rest : List α) :
    framing.frames ((whole.map Prod.fst).flatten ++ rest) =
      (whole.map Prod.snd ++ (framing.frames rest).1, (framing.frames rest).2) := by
  induction whole with
  | nil => rfl
  | cons entry whole ih =>
      obtain ⟨hentry, hothers⟩ := List.forall_mem_cons.mp hwhole
      have hfirst := framing.stable _ _ _ ((whole.map Prod.fst).flatten ++ rest) hentry
      rw [List.nil_append] at hfirst
      rw [List.map_cons, List.flatten_cons, List.append_assoc, frames_of_some hfirst, ih hothers,
        List.map_cons, List.cons_append]

variable (framing) in
/-- Where a first frame is read exactly from its spelling, the frames of a list are those that spell
it, up to a rest without one. -/
theorem frames_eq_iff {Whole : β → Prop} {spell : β → List α}
    (hfirst : ∀ items frame rest, framing.first items = some (frame, rest) ↔
      Whole frame ∧ items = spell frame ++ rest) {items rest : List α} {frames : List β} :
    framing.frames items = (frames, rest) ↔
      items = (frames.map spell).flatten ++ rest ∧ (∀ frame ∈ frames, Whole frame) ∧
        framing.first rest = none := by
  constructor
  · intro h
    induction items using framing.frames_induction generalizing frames with
    | hnone items hnone =>
        rw [frames_of_none hnone] at h
        obtain ⟨rfl, rfl⟩ := Prod.mk.inj h
        exact ⟨rfl, by simp, hnone⟩
    | hsome items frame after hsome ih =>
        rw [frames_of_some hsome] at h
        obtain ⟨rfl, hrest⟩ := Prod.mk.inj h
        obtain ⟨hwhole, rfl⟩ := (hfirst _ _ _).mp hsome
        obtain ⟨hafter, hothers, hnone⟩ := ih (Prod.ext rfl hrest)
        refine ⟨?_, List.forall_mem_cons.mpr ⟨hwhole, hothers⟩, hnone⟩
        rw [List.map_cons, List.flatten_cons, List.append_assoc, ← hafter]
  · rintro ⟨rfl, hwhole, hnone⟩
    have hcomplete : framing.Complete (frames.map fun frame => (spell frame, frame)) := by
      intro entry hentry
      obtain ⟨frame, hframe, rfl⟩ := List.mem_map.mp hentry
      exact (hfirst _ _ _).mpr ⟨hwhole frame hframe, (List.append_nil _).symm⟩
    have hframes := frames_complete hcomplete rest
    rw [List.map_map, List.map_map, frames_of_none hnone] at hframes
    simpa [Function.comp_def] using hframes

end Framing

end Foundation
