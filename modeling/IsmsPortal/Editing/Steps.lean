import IsmsPortal.Editing.Requests
import IsmsPortal.Foundation.Checks

/-! # Steps of editing requests

What a statement can do: only a commit changes the tables, and every other
statement takes the request from one place to the next. A request is
authorised: the places it was checked for include those it reads from and
writes to. While a transaction is open its rows are locked, so the commit of
another one does not touch them.
-/

namespace IsmsPortal

open Foundation

namespace EditRequest

/-- The user of a request that has passed its checks. -/
def editor : EditRequest → Option Editor
  | .metadataVersion editor .. | .metadataDuplicate editor .. | .metadataWrite editor ..
  | .metadataLocale editor .. | .bulkWrite editor .. | .categoryWrite editor ..
  | .commit editor _ => some editor
  | _ => none

/-- The documents that were read and not written yet. -/
def reads : EditRequest → List EditedDocument
  | .metadataVersion _ _ read | .metadataDuplicate _ _ read _ | .metadataWrite _ _ read _
  | .categoryWrite _ read _ => [read]
  | .bulkChecks _ _ read => read
  | .bulkWrite _ _ _ remaining => remaining
  | _ => []

end EditRequest

/-- The places that a write moves a document from and to. -/
def writePlaces (entry : EditedDocument × DocumentData) : List (String × Option String) :=
  [(entry.1.spaceId, entry.1.categoryId),
    (entry.1.spaceId, entry.2.categoryId.getD entry.1.categoryId)]

namespace EditRequest

/-- The places that a request reads from and writes to. -/
def places : EditRequest → List (String × Option String)
  | .metadataVersion _ body read | .metadataDuplicate _ body read _
  | .metadataWrite _ body read _ =>
      metadataPlaces body read
  | .metadataLocale _ _ read _ data => writePlaces (read, data)
  | .bulkWrite _ body done remaining =>
      done.flatMap writePlaces ++ remaining.flatMap (bulkPlaces body)
  | .categoryWrite _ read categoryId =>
      [(read.spaceId, read.categoryId), (read.spaceId, categoryId)]
  | .commit _ transaction => transaction.writes.flatMap writePlaces
  | _ => []

/-- The user was checked for all the places. -/
def Authorised (process : EditRequest) : Prop :=
  ∀ editor, process.editor = some editor → process.places ⊆ editor.checked

end EditRequest

/-! ## Statements -/

/-- The statements that do not end a request. -/
inductive EditStep (choice : EditChoice) (store : EditStore) : EditRequest → EditRequest → Prop
  | metadataRead {user id : String} {body : MetadataBody} {read : EditedDocument}
      (hfound : store.findDocument id = some read)
      (hpermitted : metadataPermitted choice user body read = true) :
      EditStep choice store (.metadata user id body)
        (.metadataVersion ⟨user, metadataPlaces body read⟩ body read)
  | metadataPlain {editor : Editor} {body : MetadataBody} {read : EditedDocument}
      {version : Option EditedVersion} :
      EditStep choice store (.metadataVersion editor body read)
        (.metadataWrite editor body read version)
  | metadataOther {editor : Editor} {body : MetadataBody} {read : EditedDocument}
      {version : EditedVersion} :
      EditStep choice store (.metadataVersion editor body read)
        (.metadataDuplicate editor body read version)
  | metadataUnique {editor : Editor} {body : MetadataBody} {read : EditedDocument}
      {version : EditedVersion} :
      EditStep choice store (.metadataDuplicate editor body read version)
        (.metadataWrite editor body read (some version))
  | metadataWritten {editor : Editor} {body : MetadataBody} {read row : EditedDocument}
      {version : Option EditedVersion} {data : DocumentData}
      (hdata : metadataData choice store.clock body read = .ok data)
      (hrow : row ∈ store.documents)
      (hselects : (EditRequest.metadataWrite editor body read version).selects row = true) :
      EditStep choice store (.metadataWrite editor body read version)
        (.metadataLocale editor body read version data)
  | metadataMoved {editor : Editor} {body : MetadataBody} {read : EditedDocument}
      {version : Option EditedVersion} {data : DocumentData} {locale : Option (String × String)}
      {translation : Option Translation} :
      EditStep choice store (.metadataLocale editor body read version data)
        (.commit editor ⟨[(read, data)], locale, translation⟩)
  | bulkRead {user : String} {body : BulkBody} {read : List EditedDocument}
      (hread : ∀ row ∈ read, row ∈ store.documents) :
      EditStep choice store (.bulk user body) (.bulkChecks user body read)
  | bulkChecked {user : String} {body : BulkBody} {read : List EditedDocument}
      (hpermitted : ∀ row ∈ read, bulkPermitted choice user body row = true) :
      EditStep choice store (.bulkChecks user body read)
        (.bulkWrite ⟨user, read.flatMap (bulkPlaces body)⟩ body [] read)
  | bulkWritten {editor : Editor} {body : BulkBody}
      {done : List (EditedDocument × DocumentData)} {read row : EditedDocument}
      {rest : List EditedDocument} {data : DocumentData}
      (hdata : bulkData choice store.clock body read = .ok data)
      (hrow : row ∈ store.documents)
      (hselects : (EditRequest.bulkWrite editor body done (read :: rest)).selects row = true) :
      EditStep choice store (.bulkWrite editor body done (read :: rest))
        (.bulkWrite editor body (done ++ [(read, data)]) rest)
  | bulkDone {editor : Editor} {body : BulkBody} {done : List (EditedDocument × DocumentData)} :
      EditStep choice store (.bulkWrite editor body done []) (.commit editor ⟨done, none, none⟩)
  | categoryRead {user id : String} {categoryId : Option String} {read : EditedDocument}
      (hfound : store.findDocument id = some read)
      (hsource : choice.permits user read.spaceId read.categoryId = true)
      (htarget : choice.permits user read.spaceId categoryId = true) :
      EditStep choice store (.category user id categoryId)
        (.categoryWrite ⟨user, [(read.spaceId, read.categoryId), (read.spaceId, categoryId)]⟩
          read categoryId)
  | categoryWritten {editor : Editor} {read row : EditedDocument} {categoryId : Option String}
      (hrow : row ∈ store.documents)
      (hselects : (EditRequest.categoryWrite editor read categoryId).selects row = true) :
      EditStep choice store (.categoryWrite editor read categoryId)
        (.commit editor ⟨[(read, ⟨some categoryId, none, store.clock⟩)], none, none⟩)

section Statements

variable {choice : EditChoice} {store after : EditStore} {process process' : EditRequest}

theorem attempt_eq {data : Except String DocumentData} {next : DocumentData → EditRequest}
    {remaining : Option EditRequest}
    (hattempt : attempt store process data next = (remaining, after)) :
    after = store ∧ ∀ process', remaining = some process' →
      ∃ written, data = .ok written ∧ process' = next written ∧
        ∃ row ∈ store.documents, process.selects row = true := by
  unfold attempt at hattempt
  split at hattempt
  · cases hattempt
    refine ⟨rfl, fun process' hnone => ?_⟩
    cases hnone
  next written =>
    split at hattempt
    next hany =>
      cases hattempt
      refine ⟨rfl, fun process' hsome => ?_⟩
      cases hsome
      exact ⟨written, rfl, rfl, List.any_eq_true.mp hany⟩
    next =>
      cases hattempt
      refine ⟨rfl, fun process' hnone => ?_⟩
      cases hnone

/-- The request ends, and the tables stay. -/
theorem ended {remaining : Option EditRequest}
    (hadvance : some (none, store) = some (remaining, after)) :
    after = store ∧ ∀ process', remaining = some process' →
      EditStep choice store process process' := by
  cases hadvance
  refine ⟨rfl, fun process' hnone => ?_⟩
  cases hnone

/-- The request goes on, and the tables stay. -/
theorem continued {next : EditRequest} {remaining : Option EditRequest}
    (hadvance : some (some next, store) = some (remaining, after))
    (hnext : EditStep choice store process next) :
    after = store ∧ ∀ process', remaining = some process' →
      EditStep choice store process process' := by
  cases hadvance
  refine ⟨rfl, fun process' hsome => ?_⟩
  cases hsome
  exact hnext

/-- A statement is a step of its request that leaves the tables, or a commit. -/
theorem editAdvance_cases {remaining : Option EditRequest}
    (hadvance : editAdvance choice store process = some (remaining, after)) :
    (after = store ∧ ∀ process', remaining = some process' →
      EditStep choice store process process') ∨
    ∃ editor transaction, process = .commit editor transaction ∧ remaining = none ∧
      after = store.commit transaction := by
  cases process with
  | commit editor transaction =>
      cases hadvance
      exact .inr ⟨editor, transaction, rfl, rfl, rfl⟩
  | metadata user id body =>
      left
      simp only [editAdvance] at hadvance
      split at hadvance
      · exact ended hadvance
      next read hfound =>
        split at hadvance
        next hpermitted => exact continued hadvance (.metadataRead hfound hpermitted)
        next => exact ended hadvance
  | metadataVersion editor body read =>
      left
      simp only [editAdvance] at hadvance
      split at hadvance
      · exact continued hadvance .metadataPlain
      split at hadvance
      · exact ended hadvance
      split at hadvance
      · exact continued hadvance .metadataPlain
      · exact continued hadvance .metadataOther
  | metadataDuplicate editor body read version =>
      left
      simp only [editAdvance] at hadvance
      split at hadvance
      · exact ended hadvance
      · exact continued hadvance .metadataUnique
  | metadataWrite editor body read version =>
      left
      obtain ⟨hsame, hnext⟩ := attempt_eq (Option.some.inj hadvance)
      refine ⟨hsame, fun process' hremaining => ?_⟩
      obtain ⟨data, hdata, rfl, row, hrow, hselects⟩ := hnext process' hremaining
      exact .metadataWritten hdata hrow hselects
  | metadataLocale editor body read version data =>
      left
      simp only [editAdvance] at hadvance
      split at hadvance
      · exact continued hadvance .metadataMoved
      split at hadvance
      · exact ended hadvance
      · exact continued hadvance .metadataMoved
  | bulk user body =>
      left
      simp only [editAdvance] at hadvance
      split at hadvance
      · exact ended hadvance
      split at hadvance
      next hperm =>
        split at hadvance
        · refine continued hadvance (.bulkRead fun row hrow => ?_)
          exact (List.mem_filter.mp (hperm.mem_iff.mp hrow)).1
        · exact ended hadvance
      next => cases hadvance
  | bulkChecks user body read =>
      left
      simp only [editAdvance] at hadvance
      split at hadvance
      next hall => exact continued hadvance (.bulkChecked (List.all_eq_true.mp hall))
      next => exact ended hadvance
  | bulkWrite editor body done remaining =>
      left
      cases remaining with
      | nil => exact continued hadvance .bulkDone
      | cons read rest =>
          obtain ⟨hsame, hnext⟩ := attempt_eq (Option.some.inj hadvance)
          refine ⟨hsame, fun process' hremaining => ?_⟩
          obtain ⟨data, hdata, rfl, row, hrow, hselects⟩ := hnext process' hremaining
          exact .bulkWritten hdata hrow hselects
  | category user id categoryId =>
      left
      simp only [editAdvance] at hadvance
      split at hadvance
      · exact ended hadvance
      next read hfound =>
        split at hadvance
        next hpermitted =>
          simp only [Bool.and_eq_true] at hpermitted
          exact continued hadvance (.categoryRead hfound hpermitted.1.1 hpermitted.2)
        next => exact ended hadvance
  | categoryWrite editor read categoryId =>
      left
      obtain ⟨hsame, hnext⟩ := attempt_eq (Option.some.inj hadvance)
      refine ⟨hsame, fun process' hremaining => ?_⟩
      obtain ⟨data, hdata, rfl, row, hrow, hselects⟩ := hnext process' hremaining
      cases hdata
      exact .categoryWritten hrow hselects

/-! ## Authorised requests -/

theorem metadataData_eq_ok {body : MetadataBody} {read : EditedDocument} {now : Int}
    {data : DocumentData} (hdata : metadataData choice now body read = .ok data) :
    data.categoryId = body.categoryId.filter (· ≠ read.categoryId) ∧
      data.updatedAt = max now (read.updatedAt + 1) := by
  unfold metadataData at hdata
  rw [Checks.accepts_bind] at hdata
  obtain ⟨metadata, -, hdata⟩ := hdata
  cases hdata
  exact ⟨rfl, rfl⟩

theorem bulkData_eq_ok {body : BulkBody} {read : EditedDocument} {now : Int} {data : DocumentData}
    (hdata : bulkData choice now body read = .ok data) :
    data.categoryId = some (body.categoryId.getD read.categoryId) ∧
      data.updatedAt = max now (read.updatedAt + 1) := by
  unfold bulkData at hdata
  rw [Checks.accepts_bind] at hdata
  obtain ⟨metadata, -, hdata⟩ := hdata
  cases hdata
  exact ⟨rfl, rfl⟩

theorem writePlaces_metadata {body : MetadataBody} {read : EditedDocument} {data : DocumentData}
    (hcategory : data.categoryId = body.categoryId.filter (· ≠ read.categoryId)) :
    writePlaces (read, data) ⊆ metadataPlaces body read := by
  unfold writePlaces metadataPlaces
  rw [hcategory]
  cases body.categoryId.filter (· ≠ read.categoryId) with
  | none => simp
  | some target => simp

theorem writePlaces_bulk {body : BulkBody} {read : EditedDocument} {data : DocumentData}
    (hcategory : data.categoryId = some (body.categoryId.getD read.categoryId)) :
    writePlaces (read, data) ⊆ bulkPlaces body read := by
  unfold writePlaces bulkPlaces
  rw [hcategory]
  cases body.categoryId with
  | none => simp
  | some target => simp

/-- A request stays authorised. -/
theorem EditStep.authorised (hstep : EditStep choice store process process')
    (hauthorised : process.Authorised) : process'.Authorised := by
  intro editor heditor
  cases hstep with
  | metadataRead hfound hpermitted =>
      cases heditor
      exact List.Subset.refl _
  | metadataPlain => exact hauthorised editor heditor
  | metadataOther => exact hauthorised editor heditor
  | metadataUnique => exact hauthorised editor heditor
  | metadataWritten hdata hrow hselects =>
      exact List.Subset.trans (writePlaces_metadata (metadataData_eq_ok hdata).1)
        (hauthorised editor heditor)
  | metadataMoved =>
      simp only [EditRequest.places, List.flatMap_singleton]
      exact hauthorised editor heditor
  | bulkRead hread => cases heditor
  | bulkChecked hpermitted =>
      cases heditor
      exact List.Subset.refl _
  | bulkWritten hdata hrow hselects =>
      have hbefore := hauthorised editor heditor
      simp only [EditRequest.places, List.flatMap_cons, List.flatMap_append, List.flatMap_nil,
        List.append_nil, List.append_subset] at hbefore ⊢
      have hplaces := List.Subset.trans (writePlaces_bulk (bulkData_eq_ok hdata).1) hbefore.2.1
      exact ⟨⟨hbefore.1, hplaces⟩, hbefore.2.2⟩
  | bulkDone =>
      have hbefore := hauthorised editor heditor
      simp only [EditRequest.places, List.flatMap_nil, List.append_nil] at hbefore
      exact hbefore
  | categoryRead hfound hsource htarget =>
      cases heditor
      exact List.Subset.refl _
  | categoryWritten hrow hselects =>
      have hbefore := hauthorised editor heditor
      simp only [EditRequest.places, List.flatMap_singleton, writePlaces, Option.getD_some]
      exact hbefore

end Statements

/-! ## Locks -/

theorem editLocks_sound : editLocks.Sound editProgram where
  start := by
    intro process hstart
    cases process with
    | metadata user id body => rfl
    | bulk user body => rfl
    | category user id categoryId => rfl
    | metadataVersion | metadataDuplicate | metadataWrite | metadataLocale | bulkChecks | bulkWrite
    | categoryWrite | commit => cases hstart
  advance := by
    intro name choice store process process' after hadvance id hid
    rcases editAdvance_cases hadvance with ⟨-, hnext⟩ | ⟨editor, transaction, -, hnone, -⟩
    · -- A row that is newly held is the one that the statement selects.
      have hwants : ∀ row ∈ store.documents, process.selects row = true →
          row.id ∈ editLocks.wants store process := fun row hrow hselects =>
        List.mem_map_of_mem (List.mem_filter.mpr ⟨hrow, hselects⟩)
      cases hnext process' rfl with
      | metadataWritten hdata hrow hselects =>
          right
          have hrowId := hwants _ hrow hselects
          simp only [EditRequest.selects, Bool.and_eq_true, decide_eq_true_eq] at hselects
          rw [(List.mem_singleton.mp hid).trans hselects.1.1.symm]
          exact hrowId
      | bulkWritten hdata hrow hselects =>
          have hrowId := hwants _ hrow hselects
          simp only [EditRequest.selects, Bool.and_eq_true, decide_eq_true_eq] at hselects
          simp only [editLocks, EditRequest.writes, List.map_append, List.mem_append] at hid
          rcases hid with hold | hnew
          · exact .inl hold
          · right
            rw [(List.mem_singleton.mp hnew).trans hselects.1.1.symm]
            exact hrowId
      | categoryWritten hrow hselects =>
          right
          have hrowId := hwants _ hrow hselects
          simp only [EditRequest.selects, Bool.and_eq_true, decide_eq_true_eq] at hselects
          rw [(List.mem_singleton.mp hid).trans hselects.1.1.1.symm]
          exact hrowId
      | metadataMoved => exact .inl hid
      | bulkDone => exact .inl hid
      | metadataRead | metadataPlain | metadataOther | metadataUnique | bulkRead | bulkChecked
      | categoryRead => cases hid
    · cases hnone

/-! ## Commits -/

section Commits

variable {store : EditStore} {transaction : Transaction}

theorem mem_commit {row : EditedDocument} :
    row ∈ (store.commit transaction).documents ↔
      ∃ before ∈ store.documents, written transaction.writes before = row :=
  List.mem_map

theorem written_cases (writes : List (EditedDocument × DocumentData)) (row : EditedDocument) :
    written writes row = row ∨ ∃ entry ∈ writes, entry.1.id = row.id ∧
      written writes row = entry.2.write row := by
  unfold written
  split
  next entry hfound =>
    right
    exact ⟨entry, List.mem_of_find?_eq_some hfound, by simpa using List.find?_some hfound, rfl⟩
  next => exact .inl rfl

theorem EditStore.eq_of_id {row other : EditedDocument} (hrow : row ∈ store.documents)
    (hother : other ∈ store.documents) (hid : row.id = other.id) : row = other :=
  List.inj_on_of_nodup_map store.documentIds hrow hother hid

/-- A row that a commit changes is one that the transaction has written. -/
theorem write_of_changed {row row' : EditedDocument} (hrow : row ∈ store.documents)
    (hrow' : row' ∈ (store.commit transaction).documents) (hid : row'.id = row.id)
    (hne : row' ≠ row) :
    ∃ entry ∈ transaction.writes, entry.1.id = row.id ∧ row' = entry.2.write row := by
  obtain ⟨before, hbefore, rfl⟩ := mem_commit.mp hrow'
  rw [written_id] at hid
  obtain rfl := EditStore.eq_of_id hbefore hrow hid
  rcases written_cases transaction.writes before with hsame | hwritten
  · exact absurd hsame hne
  · exact hwritten

/-- A commit leaves the rows that another transaction holds. -/
theorem mem_of_mem_commit {row : EditedDocument}
    (hrow : row ∈ (store.commit transaction).documents)
    (hfree : row.id ∉ transaction.writes.map fun entry => entry.1.id) : row ∈ store.documents := by
  obtain ⟨before, hbefore, rfl⟩ := mem_commit.mp hrow
  rw [written_id] at hfree
  rcases written_cases transaction.writes before with hsame | ⟨entry, hentry, hid, -⟩
  · rw [hsame]
    exact hbefore
  · exact absurd (hid ▸ List.mem_map_of_mem hentry) hfree

end Commits

end IsmsPortal
