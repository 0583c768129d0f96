import IsmsPortal.Governance.Closing

/-! # What statements do to reviews

Every statement of the program keeps the ids of the reviews, creates reviews with
new ids, and changes decisions only in the rows that the commit of a decision
writes. A document that a rejection found archived or deleted stays so until another
writer changes its status.
-/

namespace IsmsPortal

open Foundation

/-- The reviews after a statement: new ones, and old ones, whose decisions are the same
except in the rows the statement writes. -/
structure ReviewStore.Evolves (store after : ReviewStore) (written : List String) : Prop where
  issued : store.issued ⊆ after.issued
  source : ∀ review ∈ after.reviews, review.id ∉ store.issued ∨
    ∃ old ∈ store.reviews, old.id = review.id ∧ old.documentId = review.documentId ∧
      (review.id ∉ written → old.SameDecision review)
  keyed : (store.reviews.map DocumentReview.id).Nodup →
    (∀ review ∈ store.reviews, review.id ∈ store.issued) →
    (after.reviews.map DocumentReview.id).Nodup ∧
      ∀ review ∈ after.reviews, review.id ∈ after.issued

theorem ReviewDraft.map_id_rows (createdAt : Int) {ids : List String} {drafts : List ReviewDraft}
    (hlength : ids.length = drafts.length) :
    (List.zipWith (ReviewDraft.row createdAt) ids drafts).map DocumentReview.id = ids := by
  induction ids generalizing drafts with
  | nil => rfl
  | cons id ids ih =>
      cases drafts with
      | nil => cases hlength
      | cons draft drafts =>
          rw [List.zipWith_cons_cons, List.map_cons, ih (Nat.succ.inj hlength)]
          rfl

namespace ReviewStore.Evolves

variable {store middle after : ReviewStore} {written : List String}

theorem congr (hevolves : middle.Evolves after written) (hreviews : middle.reviews = store.reviews)
    (hissued : middle.issued = store.issued) : store.Evolves after written where
  issued := hissued ▸ hevolves.issued
  source := by
    rw [← hissued, ← hreviews]
    exact hevolves.source
  keyed := by
    rw [← hissued, ← hreviews]
    exact hevolves.keyed

/-- Reviews rewritten with their ids. -/
theorem of_map {f : DocumentReview → DocumentReview}
    (hf : ∀ review, (f review).id = review.id ∧ (f review).documentId = review.documentId ∧
      (review.id ∉ written → review.SameDecision (f review)))
    (hreviews : after.reviews = store.reviews.map f) (hissued : after.issued = store.issued) :
    store.Evolves after written where
  issued := by rw [hissued]; exact List.Subset.refl _
  source := by
    rw [hreviews]
    intro review hreview
    obtain ⟨old, hold, rfl⟩ := List.mem_map.mp hreview
    obtain ⟨hid, hdocument, hsame⟩ := hf old
    exact .inr ⟨old, hold, hid.symm, hdocument.symm, fun hnot => hsame (hid ▸ hnot)⟩
  keyed hids hissuedIds := by
    rw [hreviews, hissued, List.map_map]
    have hkey : DocumentReview.id ∘ f = DocumentReview.id := funext fun review => (hf review).1
    constructor
    · rw [hkey]
      exact hids
    · intro review hreview
      obtain ⟨old, hold, rfl⟩ := List.mem_map.mp hreview
      rw [(hf old).1]
      exact hissuedIds old hold

theorem of_same (hreviews : after.reviews = store.reviews) (hissued : after.issued = store.issued) :
    store.Evolves after written := by
  have hmap : after.reviews = store.reviews.map id := hreviews.trans (List.map_id _).symm
  exact of_map (fun review => ⟨rfl, rfl, fun _ => .refl review⟩) hmap hissued

/-- Reviews deleted. -/
theorem of_filter {keeps : DocumentReview → Bool}
    (hreviews : after.reviews = store.reviews.filter keeps)
    (hissued : after.issued = store.issued) :
    store.Evolves after written where
  issued := by rw [hissued]; exact List.Subset.refl _
  source := by
    rw [hreviews]
    intro review hreview
    exact .inr ⟨review, List.mem_of_mem_filter hreview, rfl, rfl, fun _ => .refl review⟩
  keyed hids hissuedIds := by
    rw [hreviews, hissued]
    refine ⟨hids.sublist ((List.filter_sublist).map _), fun review hreview => ?_⟩
    exact hissuedIds review (List.mem_of_mem_filter hreview)

/-- Reviews created. -/
theorem of_create {ids : List String} {drafts : List ReviewDraft}
    (hcreate : store.createReviews ids drafts = some after) : store.Evolves after written := by
  unfold ReviewStore.createReviews at hcreate
  split at hcreate
  next hfresh =>
    obtain ⟨hlength, hnodup, hnew⟩ := hfresh
    cases hcreate
    have hids := ReviewDraft.map_id_rows store.clock hlength
    -- The id of a new review is one of the new ids.
    have hrow : ∀ review ∈ List.zipWith (ReviewDraft.row store.clock) ids drafts,
        review.id ∈ ids := by
      intro review hreview
      rw [← hids]
      exact List.mem_map_of_mem hreview
    constructor
    · exact List.subset_append_right ids store.issued
    · intro review hreview
      rcases List.mem_append.mp hreview with hold | hcreated
      · exact .inr ⟨review, hold, rfl, rfl, fun _ => .refl review⟩
      · exact .inl (hnew review.id (hrow review hcreated))
    · intro hkeys hissued
      constructor
      · rw [List.map_append, hids]
        refine hkeys.append hnodup fun id hold hid => ?_
        obtain ⟨review, hreview, rfl⟩ := List.mem_map.mp hold
        exact hnew review.id hid (hissued review hreview)
      · intro review hreview
        rcases List.mem_append.mp hreview with hold | hcreated
        · exact List.mem_append_right ids (hissued review hold)
        · exact List.mem_append_left store.issued (hrow review hcreated)
  next => cases hcreate

end ReviewStore.Evolves

/-- The rows of reviews a statement writes. -/
def ReviewProcess.written : ReviewProcess → List String
  | .recordCommit recording closing _ => recording.id :: closing.cancels
  | _ => []

/-- Since a rejection counted its changes the document was archived or deleted, or another
writer has changed its status. -/
def ReviewStore.Archived (store : ReviewStore) (documentId : String) (seen : Nat) : Prop :=
  seen ≤ store.statusChanges.count documentId ∧
    ∀ document ∈ store.documents, document.id = documentId →
      document.status = .archived ∨ document.deletedAt ≠ none ∨
        seen < store.statusChanges.count documentId

namespace ReviewStore.Archived

variable {store after : ReviewStore} {documentId : String} {seen : Nat}

theorem of_same (harchived : store.Archived documentId seen)
    (hdocuments : ∀ document ∈ after.documents, document ∈ store.documents)
    (hchanges : after.statusChanges = store.statusChanges) : after.Archived documentId seen := by
  unfold ReviewStore.Archived
  rw [hchanges]
  exact ⟨harchived.1, fun document hdocument =>
    harchived.2 document (hdocuments document hdocument)⟩

/-- A writer that keeps the document archived or deleted, or changes its status. -/
theorem writeDocument (harchived : store.Archived documentId seen) (target : String)
    (f : ReviewedDocument → ReviewedDocument)
    (hf : ∀ document, (f document).id = document.id ∧
      (document.status = .archived ∨ document.deletedAt ≠ none → (f document).status = .archived ∨
        (f document).deletedAt ≠ none ∨ (f document).status ≠ document.status)) :
    (store.writeDocument target f).Archived documentId seen := by
  have hcount : store.statusChanges.count documentId ≤
      (store.writeDocument target f).statusChanges.count documentId := by
    unfold ReviewStore.writeDocument
    dsimp only
    split
    · exact List.count_le_count_cons
    · exact Nat.le_refl _
  refine ⟨Nat.le_trans harchived.1 hcount, fun document hdocument hid => ?_⟩
  obtain ⟨old, hold, rfl⟩ := List.mem_map.mp hdocument
  split at hid
  next htarget =>
    rw [if_pos htarget]
    rw [(hf old).1] at hid
    -- A writer that changes the status leaves an entry.
    have hlogged : (f old).status ≠ old.status →
        seen < (store.writeDocument target f).statusChanges.count documentId := by
      intro hchanged
      have hany : store.documents.any (fun document => document.id = target ∧
          (f document).status ≠ document.status) = true :=
        List.any_eq_true.mpr ⟨old, hold, by simp [htarget, hchanged]⟩
      unfold ReviewStore.writeDocument
      dsimp only
      rw [if_pos hany, ← htarget, hid, List.count_cons_self]
      exact Nat.lt_succ_of_le harchived.1
    have hwritten : old.status = .archived ∨ old.deletedAt ≠ none → (f old).status = .archived ∨
        (f old).deletedAt ≠ none ∨
        seen < (store.writeDocument target f).statusChanges.count documentId :=
      fun hprevious => ((hf old).2 hprevious).imp_right (Or.imp_right hlogged)
    rcases harchived.2 old hold hid with hstatus | hdeleted | hchanged
    · exact hwritten (.inl hstatus)
    · exact hwritten (.inr hdeleted)
    · exact .inr (.inr (Nat.lt_of_lt_of_le hchanged hcount))
  next htarget =>
    rw [if_neg htarget]
    rcases harchived.2 old hold hid with hstatus | hdeleted | hchanged
    · exact .inl hstatus
    · exact .inr (.inl hdeleted)
    · exact .inr (.inr (Nat.lt_of_lt_of_le hchanged hcount))

end ReviewStore.Archived

section Steps

variable {toLowerCase : String → String} {nextYear : Int → Int} {choice : ReviewChoice}
variable {store after : ReviewStore} {process : ReviewProcess} {remaining : Option ReviewProcess}

/-- What a statement may do to the reviews and to an archived document. -/
structure ReviewStore.Effect (store after : ReviewStore) (written : List String) : Prop where
  evolves : store.Evolves after written
  archived : ∀ documentId seen, store.Archived documentId seen → after.Archived documentId seen

theorem ReviewStore.Effect.refl (store : ReviewStore) (written : List String) :
    store.Effect store written where
  evolves := .of_same rfl rfl
  archived _ _ harchived := harchived

/-- A writer of documents leaves the reviews. -/
theorem ReviewStore.Effect.writeDocument (target : String)
    (f : ReviewedDocument → ReviewedDocument)
    (hf : ∀ document, (f document).id = document.id ∧
      (document.status = .archived ∨ document.deletedAt ≠ none → (f document).status = .archived ∨
        (f document).deletedAt ≠ none ∨ (f document).status ≠ document.status)) :
    store.Effect (store.writeDocument target f) [] where
  evolves := .of_same rfl rfl
  archived _ _ harchived := harchived.writeDocument target f hf

theorem setStatus_keeps (status : DocumentStatus) (document : ReviewedDocument) :
    ({ document with status } : ReviewedDocument).id = document.id ∧
      (document.status = .archived ∨ document.deletedAt ≠ none →
        status = .archived ∨ document.deletedAt ≠ none ∨ status ≠ document.status) := by
  refine ⟨rfl, ?_⟩
  rintro (harchived | hdeleted)
  · by_cases hstatus : status = .archived
    · exact .inl hstatus
    · exact .inr (.inr (harchived ▸ hstatus))
  · exact .inr (.inl hdeleted)

theorem ReviewStore.Effect.create {ids : List String} {drafts : List ReviewDraft}
    {middle : ReviewStore} (heffect : store.Effect middle [])
    (hreviews : middle.reviews = store.reviews) (hissued : middle.issued = store.issued)
    (hcreate : middle.createReviews ids drafts = some after) : store.Effect after [] where
  evolves := (ReviewStore.Evolves.of_create hcreate).congr hreviews hissued
  archived documentId seen harchived := by
    have hmiddle := heffect.archived documentId seen harchived
    unfold ReviewStore.createReviews at hcreate
    split at hcreate <;> cases hcreate
    exact hmiddle.of_same (fun _ hdocument => hdocument) rfl

theorem ReviewStore.Effect.commit (recording : Recording) (closing : Closing)
    (versionId : Option String) :
    store.Effect (store.commit nextYear recording closing versionId)
      (recording.id :: closing.cancels) where
  evolves := by
    refine .of_map ?_ rfl rfl
    intro review
    by_cases hown : review.id = recording.id
    · rw [if_pos hown]
      exact ⟨rfl, rfl, fun hnot => absurd (hown ▸ List.mem_cons_self) hnot⟩
    · rw [if_neg hown]
      by_cases hcancels : review.id ∈ closing.cancels
      · rw [if_pos hcancels]
        exact ⟨rfl, rfl, fun hnot => absurd (List.mem_cons_of_mem _ hcancels) hnot⟩
      · rw [if_neg hcancels]
        exact ⟨rfl, rfl, fun _ => .refl review⟩
  archived documentId seen harchived := by
    refine ⟨harchived.1, fun document hdocument hid => ?_⟩
    unfold ReviewStore.commit at hdocument
    dsimp only at hdocument
    split at hdocument
    next =>
      obtain ⟨old, hold, rfl⟩ := List.mem_map.mp hdocument
      split at hid
      · rw [if_pos ‹_›]
        exact .inl rfl
      · rw [if_neg ‹_›]
        exact harchived.2 old hold hid
    next => exact harchived.2 document hdocument hid

/-- Every statement has such an effect, with the rows it writes. -/
theorem reviewAdvance_effect
    (hadvance : reviewAdvance toLowerCase nextYear choice store process =
      some (remaining, after)) : store.Effect after process.written := by
  cases process with
  | recordCommit recording closing versionId =>
      cases hadvance
      exact .commit recording closing versionId
  | publishCommit documentId versionId firstPublication publishedAt =>
      obtain ⟨created, hcreate, hsame⟩ := Option.map_eq_some_iff.mp hadvance
      cases hsame
      exact .create (.writeDocument documentId _ (setStatus_keeps .published)) rfl rfl hcreate
  | createReviewRow draft =>
      obtain ⟨created, hcreate, hsame⟩ := Option.map_eq_some_iff.mp hadvance
      cases hsame
      exact .create (.refl store []) rfl rfl hcreate
  | scheduleCommit now missing =>
      obtain ⟨created, hcreate, hsame⟩ := Option.map_eq_some_iff.mp hadvance
      cases hsame
      exact .create (.refl store []) rfl rfl hcreate
  | scheduleFind now =>
      simp only [reviewAdvance] at hadvance
      split at hadvance <;> cases hadvance
      exact .refl store []
  | scheduleVersions now todo missing =>
      cases todo <;> cases hadvance <;> exact .refl store []
  | recordCloseRows recording closing todo =>
      cases todo <;> cases hadvance <;> exact .refl store []
  | setStatusCommit documentId status =>
      cases hadvance
      exact .writeDocument documentId _ (setStatus_keeps status)
  | restoreFromTrash documentId =>
      cases hadvance
      refine .writeDocument documentId _ fun document => ?_
      split
      next hkept => exact ⟨rfl, fun hprevious => hprevious.imp_right .inl⟩
      next => exact ⟨rfl, fun _ => .inl rfl⟩
  | removeByModerator documentId =>
      cases hadvance
      refine ⟨.of_filter rfl rfl, fun other seen harchived => ?_⟩
      refine (harchived.writeDocument documentId _ fun document => ?_).of_same
        (fun _ hdocument => hdocument) rfl
      exact ⟨rfl, fun _ => .inl rfl⟩
  | remove documentId =>
      cases hadvance
      refine ⟨.of_filter rfl rfl, fun other seen harchived => ?_⟩
      exact harchived.of_same (fun _ hdocument => List.mem_of_mem_filter hdocument) rfl
  | attachEvidenceUpdate id objectKey =>
      cases hadvance
      refine ⟨.of_map ?_ rfl rfl, fun _ _ harchived => harchived⟩
      intro review
      split <;> exact ⟨rfl, rfl, fun _ => ⟨rfl, rfl, rfl, rfl⟩⟩
  | overdueNotified ids before =>
      cases hadvance
      refine ⟨.of_map ?_ rfl rfl, fun _ _ harchived => harchived⟩
      intro review
      split <;> exact ⟨rfl, rfl, fun _ => ⟨rfl, rfl, rfl, rfl⟩⟩
  | annualNotified versionId =>
      cases hadvance
      exact ⟨.of_same rfl rfl, fun _ _ harchived => harchived⟩
  | _ =>
      cases hadvance
      exact .refl store []

end Steps

end IsmsPortal
