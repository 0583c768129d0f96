import IsmsPortal.Governance.Steps

/-! # Closed reviews are final

A transaction that decides a review holds its row, and the rows of the reviews it
cancels, from the moment it has found them open. Rows are held once, so that they are
open when it commits, and a closed review is never written again.
-/

namespace IsmsPortal

open Foundation

/-! ## Rows that are held -/

/-- A review that was created, and is open if it still exists. -/
def ReviewStore.HasOpen (store : ReviewStore) (id : String) : Prop :=
  id ∈ store.issued ∧ ∀ review ∈ store.reviews, review.id = id → review.status.isOpen = true

/-- A review that was created, and is closed if it still exists. -/
def ReviewStore.HasClosed (store : ReviewStore) (id : String) : Prop :=
  id ∈ store.issued ∧ ∀ review ∈ store.reviews, review.id = id → review.status.isOpen = false

/-- A review that was created for the document. -/
def ReviewStore.BelongsTo (store : ReviewStore) (id documentId : String) : Prop :=
  id ∈ store.issued ∧ ∀ review ∈ store.reviews, review.id = id → review.documentId = documentId

/-- What a rejection knows after its closing statement has come to the rows that are not
left to do. -/
structure ReviewStore.Closes (store : ReviewStore) (recording : Recording) (closing : Closing)
    (todo : List String) : Prop where
  archived : closing.archived = false → store.Archived recording.documentId closing.seen
  beside : ∀ id ∈ closing.candidates, id ≠ recording.id ∧ store.BelongsTo id recording.documentId
  passed : ∀ id ∈ closing.passed, store.HasClosed id
  covered : ∀ id ∈ closing.candidates, id ∈ closing.cancels ∨ id ∈ closing.passed ∨ id ∈ todo
  todo : todo ⊆ closing.candidates

def ReviewProcess.Knows (store : ReviewStore) : ReviewProcess → Prop
  | .recordClose recording archived seen =>
      archived = false → store.Archived recording.documentId seen
  | .recordCloseRows recording closing todo => store.Closes recording closing todo
  | .recordVersion recording _ => recording.body.status ≠ .rejected
  | .recordCommit recording closing _ =>
      recording.body.status = .rejected → store.Closes recording closing []
  | _ => True

/-- The review and the document that a decision is about. -/
def ReviewProcess.target : ReviewProcess → Option (String × String)
  | .recordBegin id documentId _ _ => some (id, documentId)
  | .recordUpdate recording | .recordArchive recording | .recordArchiveRow recording
  | .recordClose recording _ _ | .recordCloseRows recording _ _ | .recordVersion recording _
  | .recordCommit recording _ _ => some (recording.id, recording.documentId)
  | _ => none

/-- Reviews have one id each. A process holds open reviews, and decides one with its document. -/
def reviewOutline : Concurrent.Outline ReviewStore ReviewProcess where
  invariant store := (store.reviews.map DocumentReview.id).Nodup ∧
    ∀ review ∈ store.reviews, review.id ∈ store.issued
  assertion _ store process :=
    (∀ id, .review id ∈ process.holds → store.HasOpen id) ∧
      (∀ target ∈ process.target, store.BelongsTo target.1 target.2) ∧ process.Knows store

section Rows

variable {store after : ReviewStore} {written : List String} {id : String}

theorem ReviewStore.HasOpen.evolves (hopen : store.HasOpen id)
    (hevolves : store.Evolves after written) (hnot : id ∉ written) : after.HasOpen id := by
  refine ⟨hevolves.issued hopen.1, fun review hreview hid => ?_⟩
  rcases hevolves.source review hreview with hnew | ⟨old, hold, hsame, -, hdecision⟩
  · exact absurd (hid ▸ hopen.1) hnew
  · rw [(hdecision (hid ▸ hnot)).status]
    exact hopen.2 old hold (hsame.trans hid)

/-- Only open reviews are written, so that a closed one stays closed. -/
theorem ReviewStore.HasClosed.evolves (hclosed : store.HasClosed id)
    (hevolves : store.Evolves after written) (hwritten : ∀ id ∈ written, store.HasOpen id) :
    after.HasClosed id := by
  refine ⟨hevolves.issued hclosed.1, fun review hreview hid => ?_⟩
  rcases hevolves.source review hreview with hnew | ⟨old, hold, hsame, -, hdecision⟩
  · exact absurd (hid ▸ hclosed.1) hnew
  · have hold' := hclosed.2 old hold (hsame.trans hid)
    rw [(hdecision fun hmem => ?_).status]
    · exact hold'
    · rw [(hwritten review.id hmem).2 old hold hsame] at hold'
      cases hold'

theorem ReviewStore.BelongsTo.evolves {documentId : String}
    (hbelongs : store.BelongsTo id documentId)
    (hevolves : store.Evolves after written) : after.BelongsTo id documentId := by
  refine ⟨hevolves.issued hbelongs.1, fun review hreview hid => ?_⟩
  rcases hevolves.source review hreview with hnew | ⟨old, hold, hsame, hdocument, -⟩
  · exact absurd (hid ▸ hbelongs.1) hnew
  · rw [← hdocument]
    exact hbelongs.2 old hold (hsame.trans hid)

theorem ReviewStore.Closes.effect {recording : Recording} {closing : Closing} {todo : List String}
    (hcloses : store.Closes recording closing todo) (heffect : store.Effect after written)
    (hwritten : ∀ id ∈ written, store.HasOpen id) : after.Closes recording closing todo where
  archived hnot := heffect.archived _ _ (hcloses.archived hnot)
  beside id hid :=
    (hcloses.beside id hid).imp_right fun hbelongs => hbelongs.evolves heffect.evolves
  passed id hid := (hcloses.passed id hid).evolves heffect.evolves hwritten
  covered := hcloses.covered
  todo := hcloses.todo

/-- What a process knows is left by statements that write open reviews alone. -/
theorem ReviewProcess.Knows.effect {process : ReviewProcess} (hknows : process.Knows store)
    (heffect : store.Effect after written) (hwritten : ∀ id ∈ written, store.HasOpen id) :
    process.Knows after := by
  cases process with
  | recordClose recording archived seen =>
      exact fun hnot => heffect.archived _ _ (hknows hnot)
  | recordCloseRows recording closing todo =>
      exact ReviewStore.Closes.effect hknows heffect hwritten
  | recordCommit recording closing versionId =>
      exact fun hrejected => (hknows hrejected).effect heffect hwritten
  | _ => trivial

/-- The rows a statement writes are held by its process. -/
theorem ReviewProcess.written_held {process : ReviewProcess} (hid : id ∈ process.written) :
    .review id ∈ process.holds := by
  cases process with
  | recordCommit recording closing versionId =>
      rcases List.mem_cons.mp hid with rfl | hcancels
      · exact List.mem_cons_self
      · refine List.mem_cons_of_mem _ (List.mem_append_right _ ?_)
        exact List.mem_map.mpr ⟨id, hcancels, rfl⟩
  | _ => cases hid

theorem mem_rows {recording : Recording} {archived : Bool} {cancels : List String} :
    .review id ∈ recording.rows archived cancels ↔ id = recording.id ∨ id ∈ cancels := by
  unfold Recording.rows
  cases archived <;> simp

theorem Recording.next_holds (recording : Recording) (review : DocumentReview) :
    (recording.next review).holds = recording.rows false [] := by
  unfold Recording.next
  split
  · rfl
  · split
    · split <;> rfl
    · rfl
  · rfl

theorem Recording.next_target (recording : Recording) (review : DocumentReview) :
    (recording.next review).target = some (recording.id, recording.documentId) := by
  unfold Recording.next
  split
  · rfl
  · split
    · split <;> rfl
    · rfl
  · rfl

theorem Recording.next_knows (recording : Recording) (review : DocumentReview) :
    (recording.next review).Knows store := by
  unfold Recording.next
  split
  next => trivial
  next happroved =>
    have hnot : recording.body.status ≠ .rejected := by
      rw [happroved]
      decide
    split
    · split
      · exact hnot
      · exact fun hrejected => absurd hrejected hnot
    · exact fun hrejected => absurd hrejected hnot
  next hnot _ => exact fun hrejected => absurd hrejected hnot

end Rows

section Own

variable {toLowerCase : String → String} {nextYear : Int → Int} {choice : ReviewChoice}
variable {store after : ReviewStore} {process next : ReviewProcess}

theorem ReviewStore.isActive_eq_false {documentId : String}
    (hnot : store.isActive documentId = false) :
    store.Archived documentId (store.statusChanges.count documentId) := by
  refine ⟨Nat.le_refl _, fun document hdocument hid => ?_⟩
  by_contra hneither
  rw [not_or, not_or] at hneither
  have hactive : store.isActive documentId = true := by
    refine List.any_eq_true.mpr ⟨document, hdocument, ?_⟩
    simp only [ne_eq, decide_eq_true_eq]
    exact ⟨hid, hneither.1, not_not.mp hneither.2.1⟩
  rw [hnot] at hactive
  cases hactive

/-- The reviews that the closing statement selects. -/
theorem ReviewStore.mem_openBeside {documentId id other : String} :
    other ∈ store.openBeside documentId id ↔ ∃ review ∈ store.reviews, review.id = other ∧
      review.documentId = documentId ∧ other ≠ id ∧ review.status.isOpen = true := by
  unfold ReviewStore.openBeside
  simp only [List.mem_map, List.mem_filter, decide_eq_true_eq]
  constructor
  · rintro ⟨review, ⟨hreview, hdocument, hid, hopen⟩, rfl⟩
    exact ⟨review, hreview, rfl, hdocument, hid, hopen⟩
  · rintro ⟨review, hreview, rfl, hdocument, hid, hopen⟩
    exact ⟨review, ⟨hreview, hdocument, hid, hopen⟩, rfl⟩

/-- A decision goes on about the same review, or has found one. -/
def ReviewStore.Finds (store : ReviewStore) (process next : ReviewProcess) : Prop :=
  ∀ target ∈ next.target, target ∈ process.target ∨
    ∃ review ∈ store.reviews, target = (review.id, review.documentId)

theorem ReviewStore.finds_of_find {id : String} {review : DocumentReview}
    (hfind : store.find id = some review) (body : ReviewDecisionDto) (actor : String) :
    store.Finds process (.recordBegin id review.documentId body actor) := by
  have hid : review.id = id := by simpa using List.find?_some hfind
  intro target htarget
  cases htarget
  exact .inr ⟨review, List.mem_of_find?_eq_some hfind, by rw [hid]⟩

theorem ReviewStore.finds_of_none (hnone : next.target = none) : store.Finds process next := by
  intro target htarget
  rw [hnone] at htarget
  cases htarget

/-- The statements after which a process goes on. Those that take no review come first. -/
inductive ReviewStore.Goes (store : ReviewStore) : ReviewProcess → ReviewProcess → Prop
  | free {process next : ReviewProcess} (hholds : next.holds = [])
      (hfinds : store.Finds process next) (hknows : next.Knows store) :
      store.Goes process next
  | document {process next : ReviewProcess} {documentId : String}
      (hwants : reviewLocks.wants store process = [.document documentId])
      (hholds : next.holds = [.document documentId]) (hfinds : store.Finds process next)
      (hknows : next.Knows store) :
      store.Goes process next
  | update {recording : Recording} {row review : DocumentReview}
      (hfound : store.find recording.id = some row) (hopen : row.status.isOpen = true) :
      store.Goes (.recordUpdate recording) (recording.next review)
  | archiveWait {recording : Recording} :
      store.Goes (.recordArchive recording) (.recordArchiveRow recording)
  | archiveSkip {recording : Recording} (hactive : store.isActive recording.documentId = false) :
      store.Goes (.recordArchive recording)
        (.recordClose recording false (store.statusChanges.count recording.documentId))
  | archive {recording : Recording} :
      store.Goes (.recordArchiveRow recording)
        (.recordClose recording (store.isActive recording.documentId)
          (store.statusChanges.count recording.documentId))
  | close {recording : Recording} {archived : Bool} {seen : Nat} :
      store.Goes (.recordClose recording archived seen)
        (.recordCloseRows recording
          ⟨archived, seen, store.openBeside recording.documentId recording.id, [], []⟩
          (store.openBeside recording.documentId recording.id))
  | cancel {recording : Recording} {closing : Closing} {id : String} {todo : List String}
      (hopen : id ∈ store.openBeside recording.documentId recording.id) :
      store.Goes (.recordCloseRows recording closing (id :: todo))
        (.recordCloseRows recording { closing with cancels := id :: closing.cancels } todo)
  | pass {recording : Recording} {closing : Closing} {id : String} {todo : List String}
      (hopen : id ∉ store.openBeside recording.documentId recording.id) :
      store.Goes (.recordCloseRows recording closing (id :: todo))
        (.recordCloseRows recording { closing with passed := id :: closing.passed } todo)
  | closed {recording : Recording} {closing : Closing} :
      store.Goes (.recordCloseRows recording closing []) (.recordCommit recording closing none)
  | version {recording : Recording} {versionId : String} :
      store.Goes (.recordVersion recording versionId)
        (.recordCommit recording .nothing (some versionId))

/-- A process that goes on has written nothing yet. -/
theorem reviewAdvance_goes
    (hadvance : reviewAdvance toLowerCase nextYear choice store process =
      some (some next, after)) : after = store ∧ store.Goes process next := by
  cases process with
  | decideReview identity id body =>
      injection hadvance with hpair
      injection hpair with hnext hafter
      obtain ⟨existing, hcheck, rfl⟩ := Option.map_eq_some_iff.mp hnext
      obtain ⟨-, -, hcheck⟩ := Checks.accepts_bind.mp (Checks.toOption_eq_some.mp hcheck)
      have hfind := (checkDecideReview_accepts.mp hcheck).1
      exact ⟨hafter.symm, .free rfl (ReviewStore.finds_of_find hfind body _) trivial⟩
  | inboxDecide identity id body =>
      injection hadvance with hpair
      injection hpair with hnext hafter
      obtain ⟨item, hcheck, rfl⟩ := Option.map_eq_some_iff.mp hnext
      have hfind := (checkInboxDecide_accepts.mp (Checks.toOption_eq_some.mp hcheck)).1
      exact ⟨hafter.symm, .free rfl (ReviewStore.finds_of_find hfind body _) trivial⟩
  | recordUpdate recording =>
      injection hadvance with hpair
      injection hpair with hnext hafter
      obtain ⟨row, hfound, hrow⟩ := Option.bind_eq_some_iff.mp hnext
      obtain ⟨review, hrecord, rfl⟩ := Option.map_eq_some_iff.mp hrow
      refine ⟨hafter.symm, .update hfound ?_⟩
      exact recordDecision_accepted.mp ⟨review, Checks.toOption_eq_some.mp hrecord⟩
  | recordArchive recording =>
      cases hadvance
      refine ⟨rfl, ?_⟩
      split
      next => exact .archiveWait
      next hactive => exact .archiveSkip (Bool.not_eq_true _ ▸ hactive)
  | recordArchiveRow recording =>
      cases hadvance
      exact ⟨rfl, .archive⟩
  | recordClose recording archived seen =>
      cases hadvance
      exact ⟨rfl, .close⟩
  | recordCloseRows recording closing todo =>
      cases todo with
      | nil =>
          cases hadvance
          exact ⟨rfl, .closed⟩
      | cons id todo =>
          cases hadvance
          refine ⟨rfl, ?_⟩
          split
          next hopen => exact .cancel hopen
          next hopen => exact .pass hopen
  | recordVersion recording versionId =>
      simp only [reviewAdvance, Option.some.injEq, Prod.mk.injEq] at hadvance
      obtain ⟨hnext, hafter⟩ := hadvance
      split at hnext <;> cases hnext
      exact ⟨hafter.symm, .version⟩
  | publishWithReview documentId versionId firstPublication publishedAt =>
      simp only [reviewAdvance, Option.some.injEq, Prod.mk.injEq] at hadvance
      obtain ⟨hnext, hafter⟩ := hadvance
      split at hnext <;> cases hnext
      exact ⟨hafter.symm, .document rfl rfl (ReviewStore.finds_of_none rfl) trivial⟩
  | setStatus documentId status =>
      cases hadvance
      exact ⟨rfl, .document rfl rfl (ReviewStore.finds_of_none rfl) trivial⟩
  | publishCommit documentId versionId firstPublication publishedAt =>
      obtain ⟨created, -, hsame⟩ := Option.map_eq_some_iff.mp hadvance
      cases hsame
  | createReviewRow draft =>
      obtain ⟨created, -, hsame⟩ := Option.map_eq_some_iff.mp hadvance
      cases hsame
  | scheduleCommit now missing =>
      obtain ⟨created, -, hsame⟩ := Option.map_eq_some_iff.mp hadvance
      cases hsame
  | scheduleFind now =>
      simp only [reviewAdvance] at hadvance
      split at hadvance <;> cases hadvance
      exact ⟨rfl, .free rfl (ReviewStore.finds_of_none rfl) trivial⟩
  | scheduleVersions now todo missing =>
      cases todo <;> cases hadvance <;>
        exact ⟨rfl, .free rfl (ReviewStore.finds_of_none rfl) trivial⟩
  | recordBegin id documentId body actor =>
      cases hadvance
      exact ⟨rfl, .free rfl (fun _ htarget => .inl htarget) trivial⟩
  | _ =>
      -- The others end, or go on without a row.
      injection hadvance with hpair
      injection hpair with hnext hafter
      first
        | cases hnext; exact ⟨hafter.symm, .free rfl (ReviewStore.finds_of_none rfl) trivial⟩
        | cases hnext
        | obtain ⟨_, _, rfl⟩ := Option.map_eq_some_iff.mp hnext
          exact ⟨hafter.symm, .free rfl (ReviewStore.finds_of_none rfl) trivial⟩

section Closes

variable {recording : Recording} {closing : Closing} {id : String} {todo : List String}

/-- The closing statement finds a row open. -/
theorem ReviewStore.Closes.cancel (hcloses : store.Closes recording closing (id :: todo)) :
    store.Closes recording { closing with cancels := id :: closing.cancels } todo where
  __ := hcloses
  covered other hother := by
    rcases hcloses.covered other hother with hcancels | hpassed | hleft
    · exact .inl (List.mem_cons_of_mem id hcancels)
    · exact .inr (.inl hpassed)
    · rcases List.mem_cons.mp hleft with rfl | hrest
      · exact .inl List.mem_cons_self
      · exact .inr (.inr hrest)
  todo := List.Subset.trans (List.subset_cons_self id todo) hcloses.todo

/-- The closing statement finds a row closed. -/
theorem ReviewStore.Closes.pass (hcloses : store.Closes recording closing (id :: todo))
    (hnot : id ∉ store.openBeside recording.documentId recording.id) :
    store.Closes recording { closing with passed := id :: closing.passed } todo where
  __ := hcloses
  passed other hother := by
    rcases List.mem_cons.mp hother with rfl | hpassed
    · obtain ⟨hne, hissued, hdocument⟩ := hcloses.beside other (hcloses.todo List.mem_cons_self)
      refine ⟨hissued, fun review hreview hid => ?_⟩
      by_contra hopen
      rw [Bool.not_eq_false] at hopen
      refine hnot (ReviewStore.mem_openBeside.mpr ⟨review, hreview, hid, ?_, hne, hopen⟩)
      exact hdocument review hreview hid
    · exact hcloses.passed other hpassed
  covered other hother := by
    rcases hcloses.covered other hother with hcancels | hpassed | hleft
    · exact .inl hcancels
    · exact .inr (.inl (List.mem_cons_of_mem id hpassed))
    · rcases List.mem_cons.mp hleft with rfl | hrest
      · exact .inr (.inl List.mem_cons_self)
      · exact .inr (.inr hrest)
  todo := List.Subset.trans (List.subset_cons_self id todo) hcloses.todo

end Closes

variable (hkeyed : reviewOutline.invariant store)
include hkeyed

/-- The row with an id is the only one. -/
theorem ReviewStore.hasOpen_of_mem {review : DocumentReview} (hreview : review ∈ store.reviews)
    (hopen : review.status.isOpen = true) : store.HasOpen review.id := by
  refine ⟨hkeyed.2 review hreview, fun other hother hid => ?_⟩
  rw [List.inj_on_of_nodup_map hkeyed.1 hother hreview hid]
  exact hopen

theorem ReviewStore.belongsTo_of_mem {review : DocumentReview} (hreview : review ∈ store.reviews) :
    store.BelongsTo review.id review.documentId := by
  refine ⟨hkeyed.2 review hreview, fun other hother hid => ?_⟩
  rw [List.inj_on_of_nodup_map hkeyed.1 hother hreview hid]

/-- The review that a decision goes on about has its document. -/
theorem ReviewStore.Goes.target (hgoes : store.Goes process next)
    (htargets : ∀ target ∈ process.target, store.BelongsTo target.1 target.2) :
    ∀ target ∈ next.target, store.BelongsTo target.1 target.2 := by
  have hfinds : store.Finds process next := by
    cases hgoes with
    | free _ hfinds _ => exact hfinds
    | document _ _ hfinds _ => exact hfinds
    | update =>
        intro target htarget
        rw [Recording.next_target] at htarget
        exact .inl htarget
    | _ => exact fun target htarget => .inl htarget
  intro target htarget
  rcases hfinds target htarget with hsame | ⟨review, hreview, rfl⟩
  · exact htargets target hsame
  · exact ReviewStore.belongsTo_of_mem hkeyed hreview

/-- What a process holds and knows after a statement that it goes on from. -/
theorem ReviewStore.Goes.own (hgoes : store.Goes process next)
    (hheld : ∀ id, .review id ∈ process.holds → store.HasOpen id) (hknows : process.Knows store) :
    (∀ id, .review id ∈ next.holds → store.HasOpen id) ∧ next.Knows store := by
  cases hgoes with
  | free hholds _ hnextKnows =>
      rw [hholds]
      exact ⟨fun id hid => absurd hid List.not_mem_nil, hnextKnows⟩
  | document hwants hholds _ hnextKnows =>
      rw [hholds]
      refine ⟨fun id hid => ?_, hnextKnows⟩
      cases List.mem_singleton.mp hid
  | @update recording row review hfound hopen =>
      have hid : row.id = recording.id := by simpa using List.find?_some hfound
      refine ⟨fun id hrowHeld => ?_, recording.next_knows review⟩
      rw [recording.next_holds, mem_rows] at hrowHeld
      rw [hrowHeld.resolve_right List.not_mem_nil, ← hid]
      exact ReviewStore.hasOpen_of_mem hkeyed (List.mem_of_find?_eq_some hfound) hopen
  | archiveWait => exact ⟨hheld, trivial⟩
  | archiveSkip hactive => exact ⟨hheld, fun _ => ReviewStore.isActive_eq_false hactive⟩
  | archive =>
      refine ⟨fun id hid => hheld id ?_, ReviewStore.isActive_eq_false⟩
      exact mem_rows.mpr (mem_rows.mp hid)
  | close =>
      refine ⟨hheld, hknows, fun id hid => ?_, fun id hid => absurd hid List.not_mem_nil,
        fun id hid => .inr (.inr hid), List.Subset.refl _⟩
      obtain ⟨review, hreview, rfl, hdocument, hne, -⟩ := ReviewStore.mem_openBeside.mp hid
      exact ⟨hne, hdocument ▸ ReviewStore.belongsTo_of_mem hkeyed hreview⟩
  | cancel hopen =>
      refine ⟨fun other hother => ?_, ReviewStore.Closes.cancel hknows⟩
      rcases mem_rows.mp hother with hown | hcancels
      · exact hheld other (mem_rows.mpr (.inl hown))
      · rcases List.mem_cons.mp hcancels with rfl | hearlier
        · obtain ⟨review, hreview, rfl, -, -, hstatus⟩ := ReviewStore.mem_openBeside.mp hopen
          exact ReviewStore.hasOpen_of_mem hkeyed hreview hstatus
        · exact hheld other (mem_rows.mpr (.inr hearlier))
  | pass hopen => exact ⟨hheld, ReviewStore.Closes.pass hknows hopen⟩
  | closed => exact ⟨hheld, fun _ => hknows⟩
  | version => exact ⟨hheld, fun hrejected => absurd hrejected hknows⟩

end Own

/-! ## Runs -/

section Runs

variable {toLowerCase : String → String} {nextYear : Int → Int}

theorem reviewLocks_sound : reviewLocks.Sound (reviewProgram toLowerCase nextYear) where
  start := by
    intro process hstart
    cases process <;> first | rfl | cases hstart
  advance := by
    intro name choice store process next after hadvance row hrow
    change row ∈ next.holds at hrow
    change row ∈ process.holds ∨ row ∈ reviewLocks.wants store process
    obtain ⟨-, hgoes⟩ := reviewAdvance_goes hadvance
    cases hgoes with
    | free hholds _ hknows =>
        rw [hholds] at hrow
        cases hrow
    | document hwants hholds _ hknows =>
        rw [hholds] at hrow
        rw [hwants]
        exact .inr hrow
    | @update recording found review hfound hopen =>
        rw [recording.next_holds] at hrow
        exact .inr hrow
    | @archive recording =>
        rcases List.mem_cons.mp hrow with hown | hdocument
        · exact .inl (hown ▸ List.mem_cons_self)
        · simp only [List.map_nil, List.append_nil] at hdocument
          split at hdocument
          · exact .inr hdocument
          · cases hdocument
    | @cancel recording closing id todo hopen =>
        simp only [ReviewProcess.holds, Recording.rows, List.map_cons, List.mem_cons,
          List.mem_append] at hrow ⊢
        rcases hrow with hown | hdocument | hnew | hearlier
        · exact .inl (.inl hown)
        · exact .inl (.inr (.inl hdocument))
        · exact .inr (List.mem_singleton.mpr hnew)
        · exact .inl (.inr (.inr hearlier))
    | _ => exact .inl hrow

theorem reviewOutline_valid : reviewOutline.Valid (reviewProgram toLowerCase nextYear)
    (fun store => store.reviews = [])
    (fun config move => reviewLocks.Exclusive config ∧ reviewLocks.Free config move) where
  init := by
    intro store hempty
    change (store.reviews.map DocumentReview.id).Nodup ∧ _
    rw [hempty]
    exact ⟨List.nodup_nil, fun _ hreview => absurd hreview List.not_mem_nil⟩
  drift := by
    intro time store after hdrift hkeyed
    obtain ⟨-, rfl⟩ := Concurrent.drift_eq hdrift
    have heffect : store.Effect { store with clock := time } [] :=
      ⟨.of_same rfl rfl, fun _ _ harchived => harchived⟩
    refine ⟨hkeyed, fun name process hassertion => ⟨hassertion.1, hassertion.2.1, ?_⟩⟩
    exact hassertion.2.2.effect heffect fun id hid => absurd hid List.not_mem_nil
  start := by
    intro name store process hstart _
    refine ⟨fun id hid => ?_, fun target htarget => ?_, ?_⟩
    · rw [show process.holds = [] from reviewLocks_sound.start process hstart] at hid
      cases hid
    · cases process <;> first
        | cases htarget; done
        | cases hstart
    · cases process <;> trivial
  own := by
    intro config name choice process remaining after hholds hprocess _ hadvance
    obtain ⟨hheld, htargets, hknows⟩ := hholds.2 name process hprocess
    refine ⟨(reviewAdvance_effect hadvance).evolves.keyed hholds.1.1 hholds.1.2, ?_⟩
    intro next hnext
    rw [hnext] at hadvance
    obtain ⟨rfl, hgoes⟩ := reviewAdvance_goes hadvance
    obtain ⟨hnextHeld, hnextKnows⟩ := hgoes.own hholds.1 hheld hknows
    exact ⟨hnextHeld, hgoes.target hholds.1 htargets, hnextKnows⟩
  others := by
    intro config name choice process remaining after hholds hprocess hallowed hadvance other
      process' hne hother
    obtain ⟨hheld, -⟩ := hholds.2 name process hprocess
    obtain ⟨hotherHeld, hotherTargets, hotherKnows⟩ := hholds.2 other process' hother
    have heffect := reviewAdvance_effect hadvance
    have hwritten : ∀ id ∈ process.written, config.store.HasOpen id :=
      fun id hid => hheld id (ReviewProcess.written_held hid)
    refine ⟨fun id hid => ?_, fun target htarget => ?_, hotherKnows.effect heffect hwritten⟩
    · apply (hotherHeld id hid).evolves heffect.evolves
      intro hmem
      exact hallowed.1 name other process process' hne.symm hprocess hother (.review id)
        (ReviewProcess.written_held hmem) hid
    · exact (hotherTargets target htarget).evolves heffect.evolves

theorem reviewOutline_holds {config : ReviewConfig}
    (hreach : (reviewSystem toLowerCase nextYear).ReachableWhile reviewLocks.Free config) :
    reviewOutline.Holds config :=
  Concurrent.Locks.outline_holds_of_free reviewLocks_sound (fun _ _ hfree => hfree)
    reviewOutline_valid hreach

/-- Reviews after some steps: those that were there before, with the decision of the
ones that were closed. -/
structure ReviewStore.Keeps (store after : ReviewStore) : Prop where
  issued : store.issued ⊆ after.issued
  decisions : ∀ review ∈ after.reviews, review.id ∈ store.issued →
    ∃ old ∈ store.reviews, old.id = review.id ∧
      (old.status.isOpen = false → old.SameDecision review)

theorem ReviewStore.Keeps.refl (store : ReviewStore) : store.Keeps store :=
  ⟨List.Subset.refl _, fun review hreview _ => ⟨review, hreview, rfl, fun _ => .refl review⟩⟩

theorem ReviewStore.Keeps.trans {first middle last : ReviewStore} (hfirst : first.Keeps middle)
    (hlast : middle.Keeps last) : first.Keeps last where
  issued := List.Subset.trans hfirst.issued hlast.issued
  decisions review hreview hissued := by
    obtain ⟨between, hbetween, hid, hsame⟩ :=
      hlast.decisions review hreview (hfirst.issued hissued)
    obtain ⟨old, hold, hid', hsame'⟩ := hfirst.decisions between hbetween (hid ▸ hissued)
    refine ⟨old, hold, hid'.trans hid, fun hclosed => ?_⟩
    have hearly := hsame' hclosed
    have hlate := hsame (hearly.status ▸ hclosed)
    exact ⟨hlate.status.trans hearly.status, hlate.decisionComment.trans hearly.decisionComment,
      hlate.decidedBy.trans hearly.decidedBy, hlate.decidedAt.trans hearly.decidedAt⟩

/-- Only open reviews are written. -/
theorem ReviewStore.Evolves.keeps {store after : ReviewStore} {written : List String}
    (hevolves : store.Evolves after written) (hwritten : ∀ id ∈ written, store.HasOpen id) :
    store.Keeps after where
  issued := hevolves.issued
  decisions review hreview hissued := by
    rcases hevolves.source review hreview with hnew | ⟨old, hold, hid, -, hsame⟩
    · exact absurd hissued hnew
    · refine ⟨old, hold, hid, fun hclosed => hsame fun hmem => ?_⟩
      rw [(hwritten review.id hmem).2 old hold hid] at hclosed
      cases hclosed

/-- One move. -/
theorem review_step {config after : ReviewConfig} {move : ReviewMove}
    (hreach : (reviewSystem toLowerCase nextYear).ReachableWhile reviewLocks.Free config)
    (hnext : (reviewProgram toLowerCase nextYear).next config move = some after) :
    config.store.Keeps after.store := by
  rcases Concurrent.next_store hnext with ⟨time, -, hdrift⟩ |
    ⟨name, choice, process, remaining, -, hprocess, hadvance⟩ | hsame
  · rw [(Concurrent.drift_eq hdrift).2]
    exact ⟨(ReviewStore.Keeps.refl config.store).issued,
      (ReviewStore.Keeps.refl config.store).decisions⟩
  · have hheld := ((reviewOutline_holds hreach).2 name process hprocess).1
    apply (reviewAdvance_effect hadvance).evolves.keeps
    intro id hid
    exact hheld id (ReviewProcess.written_held hid)
  · rw [hsame]
    exact .refl config.store

theorem review_steps {config later : ReviewConfig}
    (hreach : (reviewSystem toLowerCase nextYear).ReachableWhile reviewLocks.Free config)
    (hsteps : (reviewSystem toLowerCase nextYear).StepsWhile reviewLocks.Free config later) :
    config.store.Keeps later.store := by
  induction hsteps with
  | refl => exact .refl config.store
  | tail hsteps _ hstep ih => exact ih.trans (review_step (hreach.steps hsteps) hstep)

/-- The commit of a rejection that knows what its statements have done. -/
theorem ReviewStore.Closes.commit {store : ReviewStore} {recording : Recording}
    {closing : Closing} {versionId : Option String} (hcloses : store.Closes recording closing []) :
    (store.commit nextYear recording closing versionId).Rejected recording closing where
  document := by
    intro document hdocument hid
    cases harchived : closing.archived with
    | false =>
        have heffect : store.Effect (store.commit nextYear recording closing versionId) _ :=
          .commit recording closing versionId
        exact (heffect.archived _ _ (hcloses.archived harchived)).2 document hdocument hid
    | true =>
        unfold ReviewStore.commit at hdocument
        simp only [harchived, if_true] at hdocument
        obtain ⟨old, -, rfl⟩ := List.mem_map.mp hdocument
        split at hid
        · rw [if_pos ‹_›]
          exact .inl rfl
        · exact absurd hid ‹_›
  reviews := by
    intro review hreview hcandidate
    obtain ⟨old, hold, rfl⟩ := List.mem_map.mp hreview
    have hid : (if old.id = recording.id then
        old.decided recording.startedAt recording.actor recording.body
      else if old.id ∈ closing.cancels then
        { old with
          status := .cancelled
          decisionComment := some "Closed after document rejection"
          decidedBy := some recording.actor
          decidedAt := some recording.startedAt }
      else old).id = old.id := by
      split
      · rfl
      · split <;> rfl
    rw [hid] at hcandidate ⊢
    rw [if_neg (hcloses.beside old.id hcandidate).1]
    split
    next => exact .inl rfl
    next hnot =>
      rcases hcloses.covered old.id hcandidate with hcancels | hpassed | hleft
      · exact absurd hcancels hnot
      · exact .inr ⟨hpassed, (hcloses.passed old.id hpassed).2 old hold rfl⟩
      · cases hleft

/-! ## What a decision has run -/

/-- The archive statement of a rejection ran, with these changes of the status before it. -/
def Recording.ArchivedAt (recording : Recording) (name : Nat) (steps : List ReviewStep)
    (archiving : ReviewConfig) (seen : Nat) : Prop :=
  (∃ choice, (archiving, .advance name choice) ∈ steps) ∧
    (∃ place, archiving.processes name = some place ∧
      recording.Archives archiving.store place) ∧
    archiving.store.statusChanges.count recording.documentId = seen

/-- The closing statement started after it, and got to the rows that it has passed. -/
structure Recording.ClosedAt (recording : Recording) (name : Nat) (steps : List ReviewStep)
    (done : Closing) (archiving closing : ReviewConfig) : Prop where
  archives : ∃ place, archiving.processes name = some place ∧
    recording.Archives archiving.store place
  seen : archiving.store.statusChanges.count recording.documentId = done.seen
  closes : ∃ archived seen, closing.processes name = some (.recordClose recording archived seen)
  order : ∃ first second,
    [(archiving, .advance name first), (closing, .advance name second)].Sublist steps
  candidates : closing.store.openBeside recording.documentId recording.id = done.candidates
  passed : ∀ id ∈ done.passed, ∃ reached choice before todo,
    (reached, .advance name choice) ∈ steps ∧
    reached.processes name = some (.recordCloseRows recording before (id :: todo)) ∧
    ∀ row ∈ reached.store.reviews, row.id = id → row.status.isOpen = false

/-- The statements that a process has behind it. -/
def ReviewProcess.Ran (name : Nat) (steps : List ReviewStep) : ReviewProcess → Prop
  | .recordClose recording _ seen => ∃ archiving, recording.ArchivedAt name steps archiving seen
  | .recordCloseRows recording done _ =>
      ∃ archiving closing, recording.ClosedAt name steps done archiving closing
  | .recordVersion recording _ => recording.body.status ≠ .rejected
  | .recordCommit recording done _ => recording.body.status = .rejected →
      ∃ archiving closing, recording.ClosedAt name steps done archiving closing
  | _ => True

section Ran

variable {name : Nat} {steps : List ReviewStep} {recording : Recording} {done : Closing}
variable {archiving closing : ReviewConfig}

theorem Recording.ClosedAt.more (hclosed : recording.ClosedAt name steps done archiving closing)
    (step : ReviewStep) : recording.ClosedAt name (steps ++ [step]) done archiving closing where
  archives := hclosed.archives
  seen := hclosed.seen
  closes := hclosed.closes
  order := by
    obtain ⟨first, second, hsublist⟩ := hclosed.order
    exact ⟨first, second, hsublist.trans (List.sublist_append_left _ _)⟩
  candidates := hclosed.candidates
  passed id hid := by
    obtain ⟨reached, choice, before, todo, hstep, hreached⟩ := hclosed.passed id hid
    exact ⟨reached, choice, before, todo, List.mem_append_left _ hstep, hreached⟩

theorem ReviewProcess.Ran.more {process : ReviewProcess} (hran : process.Ran name steps)
    (step : ReviewStep) : process.Ran name (steps ++ [step]) := by
  cases process with
  | recordClose recording archived seen =>
      obtain ⟨archiving, ⟨choice, hstep⟩, hrest⟩ := hran
      exact ⟨archiving, ⟨choice, List.mem_append_left _ hstep⟩, hrest⟩
  | recordCloseRows recording done todo =>
      obtain ⟨archiving, closing, hclosed⟩ := hran
      exact ⟨archiving, closing, hclosed.more step⟩
  | recordVersion recording versionId => exact hran
  | recordCommit recording done versionId =>
      intro hrejected
      obtain ⟨archiving, closing, hclosed⟩ := hran hrejected
      exact ⟨archiving, closing, hclosed.more step⟩
  | _ => trivial

theorem Recording.next_ran (recording : Recording) (review : DocumentReview) :
    (recording.next review).Ran name steps := by
  unfold Recording.next
  split
  next => trivial
  next happroved =>
    have hnot : recording.body.status ≠ .rejected := by
      rw [happroved]
      decide
    split
    · split
      · exact hnot
      · exact fun hrejected => absurd hrejected hnot
    · exact fun hrejected => absurd hrejected hnot
  next hnot _ => exact fun hrejected => absurd hrejected hnot

/-- A statement of the process is behind it once it has run. -/
theorem ReviewStore.Goes.ran {config : ReviewConfig} {process next : ReviewProcess}
    (hprocess : config.processes name = some process) (hgoes : config.store.Goes process next)
    (hknows : process.Knows config.store) (hran : process.Ran name steps) (choice : ReviewChoice) :
    next.Ran name (steps ++ [(config, .advance name choice)]) := by
  have hlast : (config, .advance name choice) ∈ steps ++ [(config, .advance name choice)] :=
    List.mem_append_right _ (List.mem_singleton_self _)
  cases hgoes with
  | free hholds _ _ => cases next <;> trivial
  | document _ hholds _ _ => cases next <;> first | trivial | cases hholds
  | update => exact Recording.next_ran _ _
  | archiveWait => trivial
  | archiveSkip hactive =>
      exact ⟨config, ⟨choice, hlast⟩, ⟨_, hprocess, .none hactive⟩, rfl⟩
  | archive => exact ⟨config, ⟨choice, hlast⟩, ⟨_, hprocess, .row⟩, rfl⟩
  | @close recording archived seen =>
      obtain ⟨archiving, ⟨first, hstep⟩, harchives, hseen⟩ := hran
      refine ⟨archiving, config, harchives, hseen, ⟨archived, seen, hprocess⟩, ⟨first, choice, ?_⟩,
        rfl, fun id hid => absurd hid List.not_mem_nil⟩
      exact (List.singleton_sublist.mpr hstep).append (List.Sublist.refl _)
  | cancel hopen =>
      obtain ⟨archiving, closing, hclosed⟩ := hran
      exact ⟨archiving, closing, { hclosed.more _ with }⟩
  | @pass recording done id todo hopen =>
      obtain ⟨archiving, closing, hclosed⟩ := hran
      refine ⟨archiving, closing, { hclosed.more _ with passed := fun other hother => ?_ }⟩
      rcases List.mem_cons.mp hother with rfl | hearlier
      · have hfound := (ReviewStore.Closes.pass hknows hopen).passed other List.mem_cons_self
        exact ⟨config, choice, done, todo, hlast, hprocess, hfound.2⟩
      · exact (hclosed.more _).passed other hearlier
  | closed =>
      obtain ⟨archiving, closing, hclosed⟩ := hran
      exact fun _ => ⟨archiving, closing, hclosed.more _⟩
  | version => exact fun hrejected => absurd hrejected hran

end Ran

/-- What the statements of a request have done when it commits. -/
theorem ran_of_trace {config later : ReviewConfig} {name : Nat} {steps : List ReviewStep}
    {request process : ReviewProcess}
    (hreach : (reviewSystem toLowerCase nextYear).ReachableWhile reviewLocks.Free config)
    (hrequest : config.processes name = some request) (hinitial : request.initial = true)
    (htrace : (reviewSystem toLowerCase nextYear).TraceWhile (reviewMoves name) config steps later)
    (hprocess : later.processes name = some process) : process.Ran name steps := by
  refine Concurrent.process_of_trace (fun steps process => process.Ran name steps)
    (fun _ _ hmove => hmove.2 _ rfl) (fun _ step _ hran => hran.more step) ?_ ?_ htrace process
    hprocess
  · intro steps middle choice process next after htrace hprocess hran hadvance
    have hmiddle := hreach.steps (htrace.stepsWhile.mono fun _ _ hmove => hmove.1)
    have hknows := ((reviewOutline_holds hmiddle).2 name process hprocess).2.2
    exact (reviewAdvance_goes hadvance).2.ran hprocess hknows hran choice
  · intro process hfirst
    rw [hrequest] at hfirst
    cases hfirst
    cases request <;> trivial

/-- The review of a decision after its commit. -/
theorem ReviewStore.commit_own {store : ReviewStore} {recording : Recording} {done : Closing}
    {versionId : Option String} {review : DocumentReview}
    (hreview : review ∈ (store.commit nextYear recording done versionId).reviews)
    (hid : review.id = recording.id) : ∃ old ∈ store.reviews, old.id = recording.id ∧
      review = old.decided recording.startedAt recording.actor recording.body := by
  obtain ⟨old, hold, rfl⟩ := List.mem_map.mp hreview
  by_cases hown : old.id = recording.id
  · exact ⟨old, hold, hown, if_pos hown⟩
  · rw [if_neg hown] at hid
    split at hid <;> exact absurd hid hown

/-- The others that a decision writes are cancelled. -/
theorem ReviewStore.rejected_of_commit {store : ReviewStore} {recording : Recording}
    {done : Closing} {versionId : Option String} {review : DocumentReview}
    (hreview : review ∈ (store.commit nextYear recording done versionId).reviews)
    (hwritten : review.id ∈ recording.id :: done.cancels) (hrejected : review.status = .rejected) :
    recording.id = review.id ∧ recording.body.status = .rejected := by
  by_cases hid : review.id = recording.id
  · obtain ⟨old, -, -, rfl⟩ := ReviewStore.commit_own hreview hid
    refine ⟨hid.symm, ?_⟩
    change recording.body.status.recorded = .rejected at hrejected
    cases hstatus : recording.body.status <;> rw [hstatus] at hrejected
    all_goals first | rfl | cases hrejected
  · have hcancels := (List.mem_cons.mp hwritten).resolve_left hid
    obtain ⟨old, -, rfl⟩ := List.mem_map.mp hreview
    by_cases hown : old.id = recording.id
    · rw [if_pos hown] at hid
      exact absurd hown hid
    rw [if_neg hown] at hrejected hcancels
    by_cases hmem : old.id ∈ done.cancels
    · rw [if_pos hmem] at hrejected
      cases hrejected
    · rw [if_neg hmem] at hcancels
      exact absurd hcancels hmem

/-- What the commit of a rejection leaves. -/
theorem ReviewStore.Closes.leaves {store : ReviewStore} {name : Nat} {steps : List ReviewStep}
    {recording : Recording} {done : Closing} {archiving closing : ReviewConfig}
    {versionId : Option String} (hcloses : store.Closes recording done [])
    (hbelongs : store.BelongsTo recording.id recording.documentId)
    (hclosed : recording.ClosedAt name steps done archiving closing)
    (hrejected : recording.body.status = .rejected) :
    RejectionLeaves name recording archiving closing steps
      (store.commit nextYear recording done versionId) where
  own := by
    intro review hreview hid
    obtain ⟨old, hold, hown, rfl⟩ := ReviewStore.commit_own hreview hid
    refine ⟨hbelongs.2 old hold hown, ?_⟩
    change recording.body.status.recorded = .rejected
    rw [hrejected]
    rfl
  archives := hclosed.archives
  closes := hclosed.closes
  order := hclosed.order
  document := by
    rw [hclosed.seen]
    exact hcloses.commit.document
  reviews := by
    intro review hreview hdocument hne hopen left hleft hid
    have hcandidate : left.id ∈ done.candidates := by
      rw [← hclosed.candidates, hid]
      exact ReviewStore.mem_openBeside.mpr ⟨review, hreview, rfl, hdocument, hne, hopen⟩
    refine (hcloses.commit.reviews left hleft hcandidate).imp_right ?_
    rintro ⟨hpassed, hleftClosed⟩
    exact ⟨hleftClosed, hclosed.passed review.id (hid ▸ hpassed)⟩

/-- A review is rejected by the commit of a decision alone. -/
theorem rejected_by_commit {config after : ReviewConfig} {move : ReviewMove}
    (hreach : (reviewSystem toLowerCase nextYear).ReachableWhile reviewLocks.Free config)
    (hnext : (reviewProgram toLowerCase nextYear).next config move = some after)
    {old review : DocumentReview} (hold : old ∈ config.store.reviews)
    (hreview : review ∈ after.store.reviews) (hid : review.id = old.id)
    (hbefore : old.status ≠ .rejected) (hrejected : review.status = .rejected) :
    ∃ name choice recording done versionId, move = .advance name choice ∧
      config.processes name = some (.recordCommit recording done versionId) ∧
      recording.id = review.id ∧ recording.body.status = .rejected := by
  have hkeyed := (reviewOutline_holds hreach).1
  have hunwritten : ∀ {written : List String}, config.store.Evolves after.store written →
      review.id ∈ written := by
    intro written hevolves
    by_contra hnot
    rcases hevolves.source review hreview with hnew | ⟨source, hsource, hsame, -, hdecision⟩
    · exact hnew (hid ▸ hkeyed.2 old hold)
    · rw [List.inj_on_of_nodup_map hkeyed.1 hsource hold (hsame.trans hid)] at hdecision
      exact hbefore ((hdecision hnot).status.symm.trans hrejected)
  rcases Concurrent.next_store hnext with ⟨time, -, hdrift⟩ |
    ⟨name, choice, process, remaining, hmove, hprocess, hadvance⟩ | hsame
  · have hstore := (Concurrent.drift_eq hdrift).2
    have hsame : config.store.Evolves after.store [] :=
      .of_same (by rw [hstore]) (by rw [hstore])
    exact absurd (hunwritten hsame) List.not_mem_nil
  · have hwritten := hunwritten (reviewAdvance_effect hadvance).evolves
    cases process with
    | recordCommit recording done versionId =>
        refine ⟨name, choice, recording, done, versionId, hmove, hprocess, ?_⟩
        rw [← (Prod.mk.inj (Option.some.inj hadvance)).2] at hreview
        exact ReviewStore.rejected_of_commit hreview hwritten hrejected
    | _ => exact absurd hwritten List.not_mem_nil
  · have hstore : config.store.Evolves after.store [] :=
      .of_same (by rw [hsame]) (by rw [hsame])
    exact absurd (hunwritten hstore) List.not_mem_nil

/-- **Closed reviews.** In every run a closed review keeps its decision in every later
state. A review is rejected by the commit of a decision alone, and this commit leaves the document
and the other reviews as `RejectionLeaves` says, in every run of the request. -/
theorem closed_reviews_final {config : ReviewConfig}
    (hreach : (reviewSystem toLowerCase nextYear).ReachableWhile reviewLocks.Free config) :
    (∀ later, (reviewSystem toLowerCase nextYear).StepsWhile reviewLocks.Free config later →
      ∀ review ∈ config.store.reviews, review.status.isOpen = false →
      ∀ review' ∈ later.store.reviews, review'.id = review.id → review.SameDecision review') ∧
    (∀ move after, (reviewProgram toLowerCase nextYear).next config move = some after →
      ∀ old ∈ config.store.reviews, ∀ review ∈ after.store.reviews, review.id = old.id →
      old.status ≠ .rejected → review.status = .rejected →
      ∃ name choice recording done versionId, move = .advance name choice ∧
        config.processes name = some (.recordCommit recording done versionId) ∧
        recording.id = review.id ∧ recording.body.status = .rejected) ∧
    ∀ name request steps later choice recording done versionId after,
      config.processes name = some request → request.initial = true →
      (reviewSystem toLowerCase nextYear).TraceWhile (reviewMoves name) config steps later →
      later.processes name = some (.recordCommit recording done versionId) →
      recording.body.status = .rejected →
      (reviewProgram toLowerCase nextYear).next later (.advance name choice) = some after →
      ∃ archiving closing, RejectionLeaves name recording archiving closing steps after.store := by
  have hholds := reviewOutline_holds hreach
  refine ⟨?_, ?_, ?_⟩
  · intro later hsteps review hreview hclosed review' hreview' hid
    have hissued : review'.id ∈ config.store.issued := hid ▸ hholds.1.2 review hreview
    obtain ⟨old, hold, hsame, hdecision⟩ :=
      (review_steps hreach hsteps).decisions review' hreview' hissued
    have hreviewOld : old = review :=
      List.inj_on_of_nodup_map hholds.1.1 hold hreview (hsame.trans hid)
    rw [hreviewOld] at hdecision
    exact hdecision hclosed
  · intro move after hnext old hold review hreview hid hbefore hrejected
    exact rejected_by_commit hreach hnext hold hreview hid hbefore hrejected
  · intro name request steps later choice recording done versionId after hrequest hinitial htrace
      hprocess hrejected hnext
    obtain ⟨archiving, closing, hclosed⟩ :=
      ran_of_trace hreach hrequest hinitial htrace hprocess hrejected
    have hlater := reviewOutline_holds
      (hreach.steps (htrace.stepsWhile.mono fun _ _ hmove => hmove.1))
    obtain ⟨-, htarget, hknows⟩ := hlater.2 name _ hprocess
    simp only [Concurrent.next, hprocess, Option.bind_some, reviewProgram, reviewAdvance,
      Option.map_some, Option.some.injEq] at hnext
    rw [← hnext]
    exact ⟨archiving, closing,
      (hknows hrejected).leaves (htarget _ rfl) hclosed hrejected⟩

end Runs

/-! ## Sample -/

/-- A published policy without reviews. -/
def publishedPolicy : ReviewStore := ⟨0, [⟨"policy", .published, none⟩], [], [], [], []⟩

theorem reachable_publishedPolicy {allowed : ReviewConfig → ReviewMove → Prop} :
    (reviewSystem String.toLower id).ReachableWhile allowed (Concurrent.idle publishedPolicy) :=
  .init ⟨rfl, fun _ => rfl⟩

/-- A manual review of the policy. -/
def policyDraft : ReviewDraft := ⟨"policy", none, "alice", "bob", "carol", 1, false, false⟩

/-- Two reviews are created, and Root starts to reject the first. -/
def rejectMoves : List ReviewMove :=
  [.start 0 (.createReview policyDraft), .advance 0 ⟨[], []⟩, .advance 0 ⟨["first"], []⟩,
    .start 0 (.createReview policyDraft), .advance 0 ⟨[], []⟩, .advance 0 ⟨["second"], []⟩,
    .start 1 (.inboxDecide ⟨"root", ["ISMS-LOCAL-ADMINS"]⟩ "first" ⟨.rejected, "Outdated"⟩)]

/-- The moves of `reviewMoves` for Root's request, computed. -/
def isRejectMove (config : ReviewConfig) (move : ReviewMove) : Bool :=
  reviewLocks.isFree [0, 1] config move && decide (move.starts ≠ some 1)

theorem reviewMoves_of_isRejectMove {config : ReviewConfig} {move : ReviewMove}
    (hnamed : Concurrent.Named [0, 1] config) (hmove : isRejectMove config move = true) :
    reviewMoves 1 config move := by
  obtain ⟨hfree, hstarts⟩ := Bool.and_eq_true_iff.mp hmove
  refine ⟨Concurrent.Locks.free_of_isFree hnamed hfree, ?_⟩
  rintro process rfl
  exact of_decide_eq_true hstarts rfl

/-- The call that Root makes. -/
def rejection : Recording := ⟨"first", "policy", ⟨.rejected, "Outdated"⟩, "root", 0⟩

/-- The first review is rejected, the second cancelled, and the policy archived. -/
def rejectedPolicy : ReviewStore where
  clock := 0
  documents := [⟨"policy", .archived, none⟩]
  versions := []
  reviews := [⟨"first", "policy", none, "alice", "bob", "carol", .rejected, 1, some "Outdated",
    some "root", some 0, none, false, false, none, 0⟩,
    ⟨"second", "policy", none, "alice", "bob", "carol", .cancelled, 1,
      some "Closed after document rejection", some "root", some 0, none, false, false, none, 0⟩]
  issued := ["second", "first"]
  statusChanges := []

/-- The rejection of the first review leaves the second one cancelled and the policy archived, and
the first one stays rejected. -/
theorem closed_reviews_final_rejected :
    ∃ config steps archiving closing,
      (reviewSystem String.toLower id).ReachableWhile reviewLocks.Free config ∧
      config.store = rejectedPolicy ∧
      RejectionLeaves 1 rejection archiving closing steps rejectedPolicy ∧
      ∀ later, (reviewSystem String.toLower id).StepsWhile reviewLocks.Free config later →
        ∀ review ∈ later.store.reviews, review.id = "first" → review.status = .rejected := by
  have hrun : (Concurrent.executeNamed (reviewProgram String.toLower id) [0, 1]
      (reviewLocks.isFree [0, 1]) (Concurrent.idle publishedPolicy) rejectMoves).bind (fun config =>
        (Concurrent.executeNamed (reviewProgram String.toLower id) [0, 1] isRejectMove config
          (List.replicate 8 (.advance 1 ⟨[], []⟩))).bind fun later =>
        ((reviewProgram String.toLower id).next later (.advance 1 ⟨[], []⟩)).map fun after =>
          (config.processes 1, later.processes 1, after.store)) =
      some (some (.inboxDecide ⟨"root", ["ISMS-LOCAL-ADMINS"]⟩ "first" ⟨.rejected, "Outdated"⟩),
        some (.recordCommit rejection ⟨true, 0, ["second"], ["second"], []⟩ none),
        rejectedPolicy) := by
    decide +kernel
  obtain ⟨config, hconfig, hrest⟩ := Option.bind_eq_some_iff.mp hrun
  obtain ⟨later, hlater, hlast⟩ := Option.bind_eq_some_iff.mp hrest
  obtain ⟨after, hnext, hresult⟩ := Option.map_eq_some_iff.mp hlast
  simp only [Prod.mk.injEq] at hresult
  obtain ⟨hrequest, hcommit, hafter⟩ := hresult
  obtain ⟨hreach, hnamed⟩ := Concurrent.reachable_executeNamed
    (fun _ _ => Concurrent.Locks.free_of_isFree) rejectMoves (fun _ _ => rfl)
    reachable_publishedPolicy hconfig
  have htraced : ∃ steps, (reviewSystem String.toLower id).TraceWhile (reviewMoves 1) config steps
      later :=
    Concurrent.exists_trace_executeNamed (fun _ _ => reviewMoves_of_isRejectMove) _ hnamed hlater
  obtain ⟨steps, htrace⟩ := htraced
  obtain ⟨archiving, closing, hleaves⟩ := (closed_reviews_final hreach).2.2 1 _ steps later ⟨[], []⟩
    rejection _ none after hrequest rfl htrace hcommit rfl hnext
  have hfree : reviewLocks.Free later (.advance 1 (⟨[], []⟩ : ReviewChoice)) := by
    intro process hprocess _ _ _ _ row hrow
    rw [hcommit] at hprocess
    cases hprocess
    cases hrow
  have hend := (hreach.steps (htrace.stepsWhile.mono fun _ _ hmove => hmove.1)).next _ after hfree
    hnext
  rw [hafter] at hleaves
  refine ⟨after, steps, archiving, closing, hend, hafter, hleaves, ?_⟩
  intro last hsteps review hreview hid
  have hfirst : rejectedPolicy.reviews.head (by decide) ∈ after.store.reviews := by
    rw [hafter]
    exact List.head_mem _
  exact ((closed_reviews_final hend).1 last hsteps _ hfirst rfl review hreview hid).status

end IsmsPortal
