import IsmsPortal.Editing.Steps
import Mathlib.Data.Int.Order.Basic
import Mathlib.Order.Basic

/-! # Edits that are not lost

`updateMetadata` and `apply` select a document by its timestamp. Every write
gives the document a later one, so a timestamp stands for one state of the row.
A request that read the row, and expects a timestamp that the document had
before, finds it only unchanged: what it replaces is what it has read and
checked. A request that finds it changed ends without a commit.
-/

namespace IsmsPortal

open Foundation

/-! ## Rows and timestamps -/

/-- The row has changed since it was read only if its timestamp has grown. -/
def Sees (store : EditStore) (read : EditedDocument) : Prop :=
  ∀ row ∈ store.documents, row.id = read.id →
    read.updatedAt ≤ row.updatedAt ∧ (row.updatedAt = read.updatedAt → row = read)

/-- The row is as it was read. -/
def Intact (store : EditStore) (read : EditedDocument) : Prop :=
  ∀ row ∈ store.documents, row.id = read.id → row = read

/-- The new values are those that a request computes from the row. -/
def Computed (entry : EditedDocument × DocumentData) : Prop :=
  ∃ choice now, (∃ body, metadataData choice now body entry.1 = .ok entry.2) ∨
    ∃ body, bulkData choice now body entry.1 = .ok entry.2

/-- The timestamp that the request expects is no later than the one it read. -/
def EditRequest.Past : EditRequest → Prop
  | .metadataVersion _ body read | .metadataDuplicate _ body read _
  | .metadataWrite _ body read _ =>
      ∀ stamp, body.expectedUpdatedAt = some stamp → stamp ≤ read.updatedAt
  | _ => True

/-- What a request knows of the documents it has read and written. -/
structure Current (store : EditStore) (process : EditRequest) : Prop where
  sees : ∀ read ∈ process.reads, Sees store read
  intact : ∀ entry ∈ process.writes, Intact store entry.1
  computed : ∀ entry ∈ process.writes, Computed entry
  past : process.Past
  authorised : process.Authorised

theorem Computed.updatedAt_lt {entry : EditedDocument × DocumentData} (hcomputed : Computed entry) :
    entry.1.updatedAt < entry.2.updatedAt := by
  obtain ⟨choice, now, ⟨body, hdata⟩ | ⟨body, hdata⟩⟩ := hcomputed
  · rw [(metadataData_eq_ok hdata).2]
    omega
  · rw [(bulkData_eq_ok hdata).2]
    omega

section Rows

variable {store : EditStore} {read row : EditedDocument}

theorem sees_of_mem (hread : read ∈ store.documents) : Sees store read := by
  intro row hrow hid
  rw [EditStore.eq_of_id hrow hread hid]
  exact ⟨le_refl _, fun _ => rfl⟩

/-- A row that is found with an old timestamp is the one that was read. -/
theorem Sees.intact (hsees : Sees store read) (hrow : row ∈ store.documents)
    (hid : row.id = read.id) (hstamp : row.updatedAt ≤ read.updatedAt) : Intact store read := by
  have hsame : row = read := (hsees row hrow hid).2 (le_antisymm hstamp (hsees row hrow hid).1)
  intro other hother hotherId
  rw [EditStore.eq_of_id hother hrow (hotherId.trans hid.symm), hsame]

end Rows

/-! ## Commits -/

section Commits

variable {store : EditStore} {editor : Editor} {transaction : Transaction}

/-- What a commit makes of a row: nothing, or a later version of what was read. -/
theorem Current.written (hcurrent : Current store (.commit editor transaction))
    {row : EditedDocument} (hrow : row ∈ store.documents) :
    written transaction.writes row = row ∨ ∃ data, (row, data) ∈ transaction.writes ∧
      written transaction.writes row = data.write row ∧ row.updatedAt < data.updatedAt := by
  rcases written_cases transaction.writes row with hsame | ⟨⟨read, data⟩, hentry, hid, hwritten⟩
  · exact .inl hsame
  · have hread : row = read := hcurrent.intact (read, data) hentry row hrow hid.symm
    subst hread
    exact .inr ⟨data, hentry, hwritten, (hcurrent.computed (row, data) hentry).updatedAt_lt⟩

theorem Current.commit_stamped (hcurrent : Current store (.commit editor transaction))
    (hstamped : store.Stamped) : (store.commit transaction).Stamped := by
  intro row hrow
  refine ⟨List.mem_append_right _ (List.mem_map_of_mem hrow), fun stamp hstamp => ?_⟩
  rcases List.mem_append.mp hstamp with hold | hnew
  · obtain ⟨before, hbefore, rfl⟩ := mem_commit.mp hrow
    rw [written_id] at hold
    have hle := (hstamped before hbefore).2 stamp hold
    rcases hcurrent.written hbefore with hsame | ⟨data, -, hwritten, hlt⟩
    · rw [hsame]
      exact hle
    · rw [hwritten]
      exact hle.trans hlt.le
  · obtain ⟨other, hother, heq⟩ := List.mem_map.mp hnew
    obtain ⟨hid, rfl⟩ := Prod.mk.inj heq
    have hsame : other = row :=
      List.inj_on_of_nodup_map (store.commit transaction).documentIds hother hrow hid
    rw [hsame]

theorem Current.commit_sees (hcurrent : Current store (.commit editor transaction))
    {read : EditedDocument} (hsees : Sees store read) :
    Sees (store.commit transaction) read := by
  intro row hrow hid
  obtain ⟨before, hbefore, rfl⟩ := mem_commit.mp hrow
  rw [written_id] at hid
  obtain ⟨hle, heq⟩ := hsees before hbefore hid
  rcases hcurrent.written hbefore with hsame | ⟨data, -, hwritten, hlt⟩
  · rw [hsame]
    exact ⟨hle, heq⟩
  · rw [hwritten]
    have hlater : read.updatedAt < (data.write before).updatedAt := lt_of_le_of_lt hle hlt
    exact ⟨hlater.le, fun hsame => absurd hsame.symm hlater.ne⟩

end Commits

/-! ## Outline -/

/-- A request expects a timestamp that its document has had, and moves of `updateCategory`
do not take place. -/
def PastStamp (config : EditConfig) : EditRequest → Prop
  | .metadata _ id body => ∀ stamp, body.expectedUpdatedAt = some stamp →
      (id, stamp) ∈ config.store.stamps
  | .category .. | .categoryWrite .. => False
  | _ => True

theorem EditStore.mem_of_findDocument {store : EditStore} {id : String} {read : EditedDocument}
    (hfound : store.findDocument id = some read) : read ∈ store.documents ∧ read.id = id := by
  have hselected := List.find?_some hfound
  simp only [Bool.and_eq_true, decide_eq_true_eq] at hselected
  exact ⟨List.mem_of_find?_eq_some hfound, hselected.1⟩

/-- A step of a request keeps what it knows. -/
theorem EditStep.current {choice : EditChoice} {config : EditConfig}
    {process process' : EditRequest} (hstep : EditStep choice config.store process process')
    (hstamped : config.store.Stamped) (hguard : PastStamp config process)
    (hcurrent : Current config.store process) : Current config.store process' := by
  have hauthorised := hstep.authorised hcurrent.authorised
  cases hstep with
  | @metadataRead user id body read hfound hpermitted =>
      obtain ⟨hmem, hid⟩ := EditStore.mem_of_findDocument hfound
      refine ⟨?_, List.forall_mem_nil _, List.forall_mem_nil _, fun stamp hexpected => ?_,
        hauthorised⟩
      · intro row hrow
        rw [List.mem_singleton.mp hrow]
        exact sees_of_mem hmem
      · exact (hstamped read hmem).2 stamp (hid ▸ hguard stamp hexpected)
  | metadataPlain =>
      exact ⟨hcurrent.sees, hcurrent.intact, hcurrent.computed, hcurrent.past, hauthorised⟩
  | metadataOther =>
      exact ⟨hcurrent.sees, hcurrent.intact, hcurrent.computed, hcurrent.past, hauthorised⟩
  | metadataUnique =>
      exact ⟨hcurrent.sees, hcurrent.intact, hcurrent.computed, hcurrent.past, hauthorised⟩
  | @metadataWritten editor body read row version data hdata hrow hselects =>
      simp only [EditRequest.selects, Bool.and_eq_true, decide_eq_true_eq] at hselects
      -- The expected timestamp is an old one, so the row has not moved past it.
      have hstamp : row.updatedAt ≤ read.updatedAt := by
        rw [hselects.2]
        cases hexpected : body.expectedUpdatedAt with
        | none => exact le_refl _
        | some stamp => exact hcurrent.past stamp hexpected
      refine ⟨List.forall_mem_nil _, ?_, ?_, trivial, hauthorised⟩
      · intro entry hentry
        rw [List.mem_singleton.mp hentry]
        exact (hcurrent.sees read List.mem_cons_self).intact hrow hselects.1.1 hstamp
      · intro entry hentry
        rw [List.mem_singleton.mp hentry]
        exact ⟨choice, config.store.clock, .inl ⟨body, hdata⟩⟩
  | metadataMoved =>
      exact ⟨List.forall_mem_nil _, hcurrent.intact, hcurrent.computed, trivial, hauthorised⟩
  | bulkRead hread =>
      exact ⟨fun row hrow => sees_of_mem (hread row hrow), List.forall_mem_nil _,
        List.forall_mem_nil _, trivial, hauthorised⟩
  | bulkChecked hpermitted =>
      exact ⟨hcurrent.sees, List.forall_mem_nil _, List.forall_mem_nil _, trivial, hauthorised⟩
  | @bulkWritten editor body done read row rest data hdata hrow hselects =>
      simp only [EditRequest.selects, Bool.and_eq_true, decide_eq_true_eq] at hselects
      refine ⟨fun other hother => hcurrent.sees other (List.mem_cons_of_mem _ hother), ?_, ?_,
        trivial, hauthorised⟩
      · intro entry hentry
        rcases List.mem_append.mp hentry with hold | hnew
        · exact hcurrent.intact entry hold
        · rw [List.mem_singleton.mp hnew]
          exact (hcurrent.sees read List.mem_cons_self).intact hrow hselects.1.1 hselects.2.le
      · intro entry hentry
        rcases List.mem_append.mp hentry with hold | hnew
        · exact hcurrent.computed entry hold
        · rw [List.mem_singleton.mp hnew]
          exact ⟨choice, config.store.clock, .inr ⟨body, hdata⟩⟩
  | bulkDone =>
      exact ⟨List.forall_mem_nil _, hcurrent.intact, hcurrent.computed, trivial, hauthorised⟩
  | categoryRead => exact hguard.elim
  | categoryWritten => exact hguard.elim

def editOutline : Concurrent.Outline EditStore EditRequest where
  invariant store := store.Stamped
  assertion _ store process := Current store process

/-- Runs of `updateMetadata` and `apply` that respect the locks. -/
abbrev EditRun : EditConfig → EditMove → Prop := editLocks.Orderly PastStamp

theorem editOutline_valid : editOutline.Valid editProgram EditStore.Stamped
    (fun config move => editLocks.Exclusive config ∧ EditRun config move) where
  init := fun store hstamped => hstamped
  drift := by
    intro time store after hdrift hstamped
    simp only [editProgram, Option.ite_none_right_eq_some, Option.some.injEq] at hdrift
    rw [← hdrift.2]
    exact ⟨hstamped, fun name process hcurrent => ⟨hcurrent.sees, hcurrent.intact,
      hcurrent.computed, hcurrent.past, hcurrent.authorised⟩⟩
  start := by
    intro name store process hstart _
    cases process with
    | metadata | bulk | category =>
        refine ⟨List.forall_mem_nil _, List.forall_mem_nil _, List.forall_mem_nil _, trivial, ?_⟩
        intro editor heditor
        cases heditor
    | metadataVersion | metadataDuplicate | metadataWrite | metadataLocale | bulkChecks | bulkWrite
    | categoryWrite | commit => cases hstart
  own := by
    intro config name choice process remaining after hholds hprocess hallowed hadvance
    have hcurrent := hholds.2 name process hprocess
    rcases editAdvance_cases hadvance with ⟨rfl, hnext⟩ | ⟨editor, transaction, rfl, rfl, rfl⟩
    · refine ⟨hholds.1, fun process' hremaining => ?_⟩
      exact (hnext process' hremaining).current hholds.1 (hallowed.2.2 process hprocess) hcurrent
    · refine ⟨hcurrent.commit_stamped hholds.1, fun process' hnone => ?_⟩
      cases hnone
  others := by
    intro config name choice process remaining after hholds hprocess hallowed hadvance other
      process' hne hother
    have hcurrent := hholds.2 other process' hother
    rcases editAdvance_cases hadvance with ⟨rfl, -⟩ | ⟨editor, transaction, rfl, rfl, rfl⟩
    · exact hcurrent
    · have hcommit := hholds.2 name _ hprocess
      refine ⟨fun read hread => hcommit.commit_sees (hcurrent.sees read hread), ?_,
        hcurrent.computed, hcurrent.past, hcurrent.authorised⟩
      intro entry hentry row hrow hid
      -- The row is locked, so the commit is about other rows.
      have hfree : row.id ∉ transaction.writes.map fun entry => entry.1.id := by
        intro hheld
        refine hallowed.1 name other _ process' (Ne.symm hne) hprocess hother row.id hheld ?_
        rw [hid]
        exact List.mem_map_of_mem hentry
      exact hcurrent.intact entry hentry row (mem_of_mem_commit hrow hfree) hid

theorem editOutline_holds {config : EditConfig}
    (hreach : editSystem.ReachableWhile EditRun config) :
    editOutline.Holds config :=
  Concurrent.Locks.outline_holds editLocks_sound editOutline_valid hreach

/-! ## Edits -/

/-- Documents, translations and versions are as before. -/
def EditStore.SameTables (store after : EditStore) : Prop :=
  after.documents = store.documents ∧ after.translations = store.translations ∧
    after.versions = store.versions

/-- The request finds that a document has changed. -/
def Conflicting (store : EditStore) (process : EditRequest) : Prop :=
  match process with
  | .metadataWrite .. | .bulkWrite _ _ _ (_ :: _) =>
      ∀ row ∈ store.documents, process.selects row = false
  | .bulkChecks _ body read => ∃ row ∈ read,
      (body.documents.find? fun entry => entry.1 = row.id).bind Prod.snd ≠ some row.updatedAt
  | _ => False

section Moves

variable {config after : EditConfig} {move : EditMove}

/-- Only a commit changes the tables, and it is the last statement of its request. -/
theorem edit_moves (hnext : editProgram.next config move = some after) :
    config.store.SameTables after.store ∨ ∃ name choice editor transaction,
      move = .advance name choice ∧ config.processes name = some (.commit editor transaction) ∧
      after.processes name = none ∧ after.store = config.store.commit transaction := by
  cases move with
  | drift time =>
      simp only [Concurrent.next, Option.map_eq_some_iff] at hnext
      obtain ⟨store, hdrift, rfl⟩ := hnext
      simp only [editProgram, Option.ite_none_right_eq_some, Option.some.injEq] at hdrift
      rw [← hdrift.2]
      exact .inl ⟨rfl, rfl, rfl⟩
  | start name process =>
      simp only [Concurrent.next] at hnext
      split at hnext
      · cases hnext
        exact .inl ⟨rfl, rfl, rfl⟩
      · cases hnext
  | advance name choice =>
      simp only [Concurrent.next, Option.bind_eq_some_iff, Option.map_eq_some_iff] at hnext
      obtain ⟨process, hprocess, ⟨remaining, store⟩, hadvance, rfl⟩ := hnext
      rcases editAdvance_cases hadvance with ⟨rfl, -⟩ | ⟨editor, transaction, rfl, rfl, rfl⟩
      · exact .inl ⟨rfl, rfl, rfl⟩
      · exact .inr ⟨name, choice, editor, transaction, rfl, hprocess, Function.update_self .., rfl⟩
  | stop name =>
      simp only [Concurrent.next, Option.some.injEq] at hnext
      cases hnext
      exact .inl ⟨rfl, rfl, rfl⟩

/-- A request that finds a document changed does not go on. -/
theorem EditStep.not_conflicting {choice : EditChoice} {store : EditStore}
    {process process' : EditRequest} (hstep : EditStep choice store process process') :
    ¬Conflicting store process := by
  intro hconflict
  cases hstep with
  | metadataWritten hdata hrow hselects =>
      exact Bool.false_ne_true ((hconflict _ hrow).symm.trans hselects)
  | bulkWritten hdata hrow hselects =>
      exact Bool.false_ne_true ((hconflict _ hrow).symm.trans hselects)
  | bulkChecked hpermitted =>
      obtain ⟨row, hrow, hchanged⟩ := hconflict
      have hexpected := hpermitted row hrow
      simp only [bulkPermitted, Bool.and_eq_true, Option.any_eq_true,
        decide_eq_true_eq] at hexpected
      obtain ⟨entry, hentry, hstamp⟩ := hexpected.2
      exact hchanged (by rw [hentry]; exact hstamp)
  | metadataRead | metadataPlain | metadataOther | metadataUnique | metadataMoved | bulkRead
  | bulkDone | categoryRead | categoryWritten => exact hconflict

theorem conflicting_ends {name : Nat} {choice : EditChoice} {process : EditRequest}
    (hnext : editProgram.next config (.advance name choice) = some after)
    (hprocess : config.processes name = some process)
    (hconflict : Conflicting config.store process) :
    config.store.SameTables after.store ∧ after.processes name = none := by
  simp only [Concurrent.next, Option.bind_eq_some_iff, Option.map_eq_some_iff] at hnext
  obtain ⟨running, hrunning, ⟨remaining, store⟩, hadvance, rfl⟩ := hnext
  rw [hprocess] at hrunning
  cases hrunning
  rcases editAdvance_cases hadvance with ⟨rfl, hsteps⟩ | ⟨editor, transaction, rfl, rfl, rfl⟩
  · refine ⟨⟨rfl, rfl, rfl⟩, ?_⟩
    cases remaining with
    | none => exact Function.update_self ..
    | some process' => exact absurd hconflict (hsteps process' rfl).not_conflicting
  · exact hconflict.elim

end Moves

/-! ## What a request has done -/

/-- A statement of the request in a run, on the tables it found and with its choice. -/
inductive Did (name : Nat) (steps : List (EditConfig × EditMove))
    (condition : EditStore → EditChoice → Prop) : Prop
  | intro {config : EditConfig} {choice : EditChoice}
    (hmem : (config, .advance name choice) ∈ steps)
      (hcondition : condition config.store choice) : Did name steps condition

namespace EditRequest

section Own

variable (name : Nat) (steps : List (EditConfig × EditMove))

def user : EditRequest → Option String
  | .metadata user _ _ | .bulk user _ | .category user _ _ => some user
  | _ => none

/-- The request has read the row, and the rights of its user were checked for it. -/
def Read : EditRequest → EditedDocument → Prop
  | .metadata user id body, read => Did name steps fun store choice =>
      store.findDocument id = some read ∧ metadataPermitted choice user body read = true
  | .bulk user body, read => Did name steps (fun store _ => read ∈ store.documents) ∧
      Did name steps fun _ choice => bulkPermitted choice user body read = true
  | .category user id categoryId, read => Did name steps fun store choice =>
      store.findDocument id = some read ∧ choice.permits user read.spaceId read.categoryId = true ∧
        choice.permits user read.spaceId categoryId = true
  | _, _ => False

/-- The request has computed the new values from the row, with its own body. -/
def Computes : EditRequest → EditedDocument × DocumentData → Prop
  | .metadata _ _ body, entry => Did name steps fun store choice =>
      metadataData choice store.clock body entry.1 = .ok entry.2
  | .bulk _ body, entry => Did name steps fun store choice =>
      bulkData choice store.clock body entry.1 = .ok entry.2
  | .category _ _ categoryId, entry => Did name steps fun store _ =>
      entry.2 = ⟨some categoryId, none, store.clock⟩
  | _, _ => False

/-- Both, for a row and its new values. -/
def Made (request : EditRequest) (entry : EditedDocument × DocumentData) : Prop :=
  request.Read name steps entry.1 ∧ request.Computes name steps entry

/-- How far the request has come. -/
def Ran (request : EditRequest) : EditRequest → Prop
  | .metadataVersion editor body read | .metadataDuplicate editor body read _
  | .metadataWrite editor body read _ =>
      ∃ id, request = .metadata editor.user id body ∧ request.Read name steps read
  | .metadataLocale editor body read _ data =>
      ∃ id, request = .metadata editor.user id body ∧ request.Made name steps (read, data)
  | .bulkChecks user body read => request = .bulk user body ∧
      ∀ row ∈ read, Did name steps fun store _ => row ∈ store.documents
  | .bulkWrite editor body done remaining => request = .bulk editor.user body ∧
      (∀ entry ∈ done, request.Made name steps entry) ∧
      ∀ read ∈ remaining, request.Read name steps read
  | .categoryWrite editor read categoryId =>
      ∃ id, request = .category editor.user id categoryId ∧ request.Read name steps read
  | .commit editor transaction => request.user = some editor.user ∧
      ∀ entry ∈ transaction.writes, request.Made name steps entry
  | process => request = process

end Own

end EditRequest

section Own

variable {name : Nat} {steps : List (EditConfig × EditMove)}
  {request process process' : EditRequest}

theorem Did.more {condition : EditStore → EditChoice → Prop} (hdid : Did name steps condition)
    (step : EditConfig × EditMove) : Did name (steps ++ [step]) condition := by
  obtain ⟨hmem, hcondition⟩ := hdid
  exact ⟨List.mem_append_left _ hmem, hcondition⟩

theorem Did.last {condition : EditStore → EditChoice → Prop} {config : EditConfig}
    {choice : EditChoice} (hcondition : condition config.store choice) :
    Did name (steps ++ [(config, .advance name choice)]) condition :=
  ⟨List.mem_append_right _ List.mem_cons_self, hcondition⟩

theorem EditRequest.Read.more {read : EditedDocument} (hread : request.Read name steps read)
    (step : EditConfig × EditMove) : request.Read name (steps ++ [step]) read := by
  cases request with
  | metadata => exact Did.more hread step
  | bulk => exact ⟨Did.more hread.1 step, Did.more hread.2 step⟩
  | category => exact Did.more hread step
  | metadataVersion | metadataDuplicate | metadataWrite | metadataLocale | bulkChecks | bulkWrite
  | categoryWrite | commit => exact hread

theorem EditRequest.Made.more {entry : EditedDocument × DocumentData}
    (hmade : request.Made name steps entry) (step : EditConfig × EditMove) :
    request.Made name (steps ++ [step]) entry := by
  obtain ⟨hread, hcomputes⟩ := hmade
  refine ⟨hread.more step, ?_⟩
  cases request with
  | metadata | bulk | category => exact Did.more hcomputes step
  | metadataVersion | metadataDuplicate | metadataWrite | metadataLocale | bulkChecks | bulkWrite
  | categoryWrite | commit => exact hcomputes

theorem EditRequest.Ran.more (hran : request.Ran name steps process)
    (step : EditConfig × EditMove) : request.Ran name (steps ++ [step]) process := by
  cases process with
  | metadata | bulk | category => exact hran
  | metadataVersion | metadataDuplicate | metadataWrite | categoryWrite =>
      obtain ⟨id, hrequest, hread⟩ := hran
      exact ⟨id, hrequest, hread.more step⟩
  | metadataLocale =>
      obtain ⟨id, hrequest, hmade⟩ := hran
      exact ⟨id, hrequest, hmade.more step⟩
  | bulkChecks => exact ⟨hran.1, fun row hrow => (hran.2 row hrow).more step⟩
  | bulkWrite =>
      obtain ⟨hrequest, hdone, hremaining⟩ := hran
      exact ⟨hrequest, fun entry hentry => (hdone entry hentry).more step,
        fun read hread => (hremaining read hread).more step⟩
  | commit => exact ⟨hran.1, fun entry hentry => (hran.2 entry hentry).more step⟩

/-- A statement takes the request one step further. -/
theorem EditStep.ran {config : EditConfig} {choice : EditChoice}
    (hstep : EditStep choice config.store process process')
    (hran : request.Ran name steps process) :
    request.Ran name (steps ++ [(config, .advance name choice)]) process' := by
  have hbefore := hran.more (config, .advance name choice)
  cases hstep with
  | @metadataRead user id body read hfound hpermitted =>
      refine ⟨id, hran, ?_⟩
      rw [show request = .metadata user id body from hran]
      exact Did.last ⟨hfound, hpermitted⟩
  | metadataPlain | metadataOther | metadataUnique => exact hbefore
  | metadataWritten hdata =>
      obtain ⟨id, rfl, hread⟩ := hbefore
      exact ⟨id, rfl, hread, Did.last hdata⟩
  | metadataMoved =>
      obtain ⟨id, rfl, hmade⟩ := hbefore
      refine ⟨rfl, fun entry hentry => ?_⟩
      rw [List.mem_singleton.mp hentry]
      exact hmade
  | bulkRead hread => exact ⟨hran, fun row hrow => Did.last (hread row hrow)⟩
  | bulkChecked hpermitted =>
      obtain ⟨rfl, hrows⟩ := hbefore
      exact ⟨rfl, List.forall_mem_nil _, fun row hrow =>
        ⟨hrows row hrow, Did.last (hpermitted row hrow)⟩⟩
  | bulkWritten hdata =>
      obtain ⟨rfl, hdone, hremaining⟩ := hbefore
      refine ⟨rfl, fun entry hentry => ?_, fun read hread =>
        hremaining read (List.mem_cons_of_mem _ hread)⟩
      rcases List.mem_append.mp hentry with hold | hnew
      · exact hdone entry hold
      · rw [List.mem_singleton.mp hnew]
        exact ⟨hremaining _ List.mem_cons_self, Did.last hdata⟩
  | bulkDone =>
      obtain ⟨rfl, hdone, -⟩ := hbefore
      exact ⟨rfl, hdone⟩
  | @categoryRead user id categoryId read hfound hsource htarget =>
      refine ⟨id, hran, ?_⟩
      rw [show request = .category user id categoryId from hran]
      exact Did.last ⟨hfound, hsource, htarget⟩
  | categoryWritten =>
      obtain ⟨id, rfl, hread⟩ := hbefore
      refine ⟨rfl, fun entry hentry => ?_⟩
      rw [List.mem_singleton.mp hentry]
      exact ⟨hread, Did.last rfl⟩

/-- A request in a run that starts no other under its name. -/
theorem edit_ran {config later : EditConfig} (hrequest : config.processes name = some request)
    (hinitial : request.initial = true)
    (htrace : editSystem.TraceWhile (fun _ move => ∀ process, move ≠ .start name process) config
      steps later) (hprocess : later.processes name = some process) :
    request.Ran name steps process := by
  refine Concurrent.process_of_trace (fun steps process => request.Ran name steps process)
    (fun _ _ hstart => hstart _ rfl) (fun _ step _ hran => hran.more step) ?_ ?_ htrace process
    hprocess
  · intro steps middle choice process next after _ _ hran hadvance
    rcases editAdvance_cases hadvance with ⟨rfl, hstep⟩ | ⟨editor, transaction, rfl, hnone, -⟩
    · exact (hstep next rfl).ran hran
    · cases hnone
  · intro process hfirst
    rw [hrequest, Option.some.injEq] at hfirst
    subst hfirst
    cases request <;> first | rfl | cases hinitial

end Own

/-- **No lost edit.** A write of `updateMetadata` or `apply` replaces the row that the
request has read: the new values were computed from it, and the rights were checked
for its place and for the new one. Its timestamp grows. Only a commit, which ends a
request, changes the tables; a request that finds a document changed ends without one.
What a request commits it has read, checked and computed itself, for its own user and
with its own body. -/
theorem no_lost_edit {config after : EditConfig} {move : EditMove}
    (hreach : editSystem.ReachableWhile EditRun config)
    (hstep : editSystem.step config move after) :
    (∀ row ∈ config.store.documents, ∀ row' ∈ after.store.documents, row'.id = row.id →
      row' ≠ row → ∃ name choice editor transaction data, move = .advance name choice ∧
        config.processes name = some (.commit editor transaction) ∧
        (row, data) ∈ transaction.writes ∧ Computed (row, data) ∧
        (row.spaceId, row.categoryId) ∈ editor.checked ∧
        (row'.spaceId, row'.categoryId) ∈ editor.checked ∧
        row' = data.write row ∧ row.updatedAt < row'.updatedAt) ∧
    (config.store.SameTables after.store ∨ ∃ name choice editor transaction,
      move = .advance name choice ∧ config.processes name = some (.commit editor transaction) ∧
      after.processes name = none) ∧
    (∀ name choice process, move = .advance name choice → config.processes name = some process →
      Conflicting config.store process →
        config.store.SameTables after.store ∧ after.processes name = none) ∧
    ∀ name request steps later editor transaction, config.processes name = some request →
      request.initial = true →
      editSystem.TraceWhile (fun _ move => ∀ process, move ≠ .start name process) config steps
        later →
      later.processes name = some (.commit editor transaction) →
      request.user = some editor.user ∧
        ∀ entry ∈ transaction.writes, request.Made name steps entry := by
  have hholds := editOutline_holds hreach
  refine ⟨?_, ?_, ?_, ?_⟩
  · intro row hrow row' hrow' hid hne
    rcases edit_moves hstep with hsame |
      ⟨name, choice, editor, transaction, rfl, hprocess, -, hafter⟩
    · rw [hsame.1] at hrow'
      exact absurd (EditStore.eq_of_id hrow' hrow hid) hne
    · have hcurrent := hholds.2 name _ hprocess
      rw [hafter] at hrow'
      obtain ⟨⟨read, data⟩, hentry, hentryId, rfl⟩ := write_of_changed hrow hrow' hid hne
      have hread : row = read := hcurrent.intact (read, data) hentry row hrow hentryId.symm
      subst hread
      have hplaces : writePlaces (row, data) ⊆ editor.checked := fun place hplace =>
        hcurrent.authorised editor rfl (List.mem_flatMap.mpr ⟨_, hentry, hplace⟩)
      have hcomputed := hcurrent.computed _ hentry
      exact ⟨name, choice, editor, transaction, data, rfl, hprocess, hentry, hcomputed,
        hplaces List.mem_cons_self, hplaces (List.mem_cons_of_mem _ List.mem_cons_self), rfl,
        hcomputed.updatedAt_lt⟩
  · rcases edit_moves hstep with hsame |
      ⟨name, choice, editor, transaction, hmove, hprocess, hend, -⟩
    · exact .inl hsame
    · exact .inr ⟨name, choice, editor, transaction, hmove, hprocess, hend⟩
  · intro name choice process hmove hprocess hconflict
    subst hmove
    exact conflicting_ends hstep hprocess hconflict
  · intro name request steps later editor transaction hrequest hinitial htrace hcommit
    exact edit_ran hrequest hinitial htrace hcommit

/-! ## Sample -/

instance (config : EditConfig) (process : EditRequest) : Decidable (PastStamp config process) :=
  match process with
  | .metadata _ id body => inferInstanceAs (Decidable (∀ stamp ∈ body.expectedUpdatedAt,
      (id, stamp) ∈ config.store.stamps))
  | .category .. | .categoryWrite .. => .isFalse id
  | .metadataVersion .. | .metadataDuplicate .. | .metadataWrite .. | .metadataLocale .. | .bulk ..
  | .bulkChecks .. | .bulkWrite .. | .commit .. => .isTrue trivial

/-- A guide outside the categories of its space. -/
def uncategorizedGuide : EditedDocument := ⟨"guide", "it", none, none, 1, none⟩

def guideStore : EditStore where
  clock := 1
  documents := [uncategorizedGuide]
  translations := []
  versions := []
  stamps := [("guide", 1)]
  documentIds := List.nodup_singleton _

theorem stamped_guideStore : guideStore.Stamped := by
  intro row hrow
  rw [List.mem_singleton.mp hrow]
  refine ⟨List.mem_cons_self, fun stamp hstamp => ?_⟩
  have heq := List.mem_singleton.mp hstamp
  exact (Prod.mk.inj heq).2.le

/-- Everybody may edit. -/
def openChoice : EditChoice := ⟨fun _ _ _ => true, fun _ => some "it", fun _ => none, 0, []⟩

/-- Move the guide to the forms, as it was at the time 1. -/
def toForms : MetadataBody := ⟨"en", "Guide", none, none, none, some (some "forms"), some 1⟩

def moveRequest : EditRequest := .metadata "ada" "guide" toForms

/-- The guide after the move. -/
def movedGuide : EditedDocument :=
  { uncategorizedGuide with categoryId := some "forms", updatedAt := 2 }

/-- What the move writes. -/
def moveCommit : EditRequest :=
  .commit ⟨"ada", [("it", none), ("it", some "forms")]⟩
    ⟨[(uncategorizedGuide, ⟨some (some "forms"), none, 2⟩)], none,
      some (bodyTranslation toForms "guide")⟩

/-- A statement of a run that starts nothing as 0, computed. -/
def isMoveStep (config : EditConfig) (move : EditMove) : Bool :=
  editLocks.isOrderly PastStamp [0] config move && decide (move.starts ≠ some 0)

/-- A move of the guide replaces the row that it has read at the time 1. -/
theorem no_lost_edit_guide : ∃ first config after : EditConfig, ∃ steps,
    editSystem.ReachableWhile EditRun config ∧
    editSystem.step config (.advance 0 openChoice) after ∧
    config.store.documents = [uncategorizedGuide] ∧ after.store.documents = [movedGuide] ∧
    (∃ editor : Editor, ("it", none) ∈ editor.checked ∧ ("it", some "forms") ∈ editor.checked) ∧
    first.processes 0 = some moveRequest ∧
    moveRequest.Made 0 steps (uncategorizedGuide, ⟨some (some "forms"), none, 2⟩) := by
  have hrun : ((Concurrent.executeNamed editProgram [0] (editLocks.isOrderly PastStamp [0])
      (Concurrent.idle guideStore) [.start 0 moveRequest]).bind fun first =>
        (editProgram.next first (.advance 0 openChoice)).bind fun second =>
          (Concurrent.executeNamed editProgram [0] isMoveStep first
            (List.replicate 4 (.advance 0 openChoice))).bind fun config =>
              (editProgram.next config (.advance 0 openChoice)).map fun after =>
                (first.processes 0, config.processes 0, config.store.documents,
                  after.store.documents)) =
      some (some moveRequest, some moveCommit, [uncategorizedGuide], [movedGuide]) := by
    decide
  obtain ⟨first, hfirst, hrest⟩ := Option.bind_eq_some_iff.mp hrun
  obtain ⟨second, hsecond, hrest⟩ := Option.bind_eq_some_iff.mp hrest
  obtain ⟨config, hconfig, hlast⟩ := Option.bind_eq_some_iff.mp hrest
  obtain ⟨after, hnext, hresult⟩ := Option.map_eq_some_iff.mp hlast
  simp only [Prod.mk.injEq] at hresult
  obtain ⟨hrequest, hcommit, hbefore, hafter⟩ := hresult
  have hinit : editSystem.ReachableWhile EditRun (Concurrent.idle guideStore) :=
    .init ⟨stamped_guideStore, fun _ => rfl⟩
  obtain ⟨hstart, hnamed⟩ := Concurrent.reachable_executeNamed
    (fun _ _ => Concurrent.Locks.orderly_of_isOrderly) _ (fun _ _ => rfl) hinit hfirst
  have horderly : ∀ config move, Concurrent.Named [0] config → isMoveStep config move = true →
      EditRun config move := fun _ _ hnamed hmove =>
    Concurrent.Locks.orderly_of_isOrderly hnamed (Bool.and_eq_true_iff.mp hmove).1
  have hstarts : ∀ config move, Concurrent.Named [0] config → isMoveStep config move = true →
      ∀ process, move ≠ .start 0 process := by
    rintro config move - hmove process rfl
    exact of_decide_eq_true (Bool.and_eq_true_iff.mp hmove).2 rfl
  obtain ⟨hreach, -⟩ := Concurrent.reachable_executeNamed horderly _ hnamed hstart hconfig
  have htraced : ∃ steps, editSystem.TraceWhile (fun _ move => ∀ process, move ≠ .start 0 process)
      first steps config := Concurrent.exists_trace_executeNamed hstarts _ hnamed hconfig
  obtain ⟨steps, htrace⟩ := htraced
  obtain ⟨hreplaces, -⟩ := no_lost_edit hreach hnext
  obtain ⟨-, -, editor, -, -, -, -, -, -, hsource, htarget, -⟩ := hreplaces uncategorizedGuide
    (hbefore ▸ List.mem_cons_self) movedGuide (hafter ▸ List.mem_cons_self) rfl (by decide)
  obtain ⟨-, -, -, hown⟩ := no_lost_edit hstart hsecond
  have hmade := (hown 0 moveRequest steps config _ _ hrequest rfl htrace hcommit).2
  exact ⟨first, config, after, steps, hreach, hnext, hbefore, hafter, ⟨editor, hsource, htarget⟩,
    hrequest, hmade _ List.mem_cons_self⟩

end IsmsPortal
