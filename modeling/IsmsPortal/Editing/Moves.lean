import IsmsPortal.Editing.Conflicts

/-! # Moves between categories

A request that changes the category of a document was checked for the category
it read and for the new one. `updateCategory` finds the document only in the
category it read. `updateMetadata` and `apply` find it by its timestamp, which
`updateCategory` sets to the current time, perhaps the time it already had, and
which a client of `updateMetadata` may guess. The user may edit where the
document was and where it goes in every run in which a document that such a
request finds, and moves, is still where the request has read it.
-/

namespace IsmsPortal

open Foundation

/-- The document and the category that the next statement writes, if it is found by its
timestamp. -/
def EditRequest.target : EditRequest → Option (EditedDocument × Option String)
  | .metadataWrite _ body read _ =>
      (body.categoryId.filter (· ≠ read.categoryId)).map fun target => (read, target)
  | .bulkWrite _ body _ (read :: _) => some (read, body.categoryId.getD read.categoryId)
  | _ => none

/-- A document that the statement finds and moves is where it was read. -/
def StillPlaced (config : EditConfig) (process : EditRequest) : Prop :=
  ∀ read target, process.target = some (read, target) → ∀ row ∈ config.store.documents,
    process.selects row = true → row.categoryId ≠ target → row.categoryId = read.categoryId

/-- The choices of the environment with the rights of the users given. -/
def withRights (can : String → String → Option String → Bool) (choice : EditChoice) : EditChoice :=
  { choice with permits := can }

/-- The requests, while the rights of the users do not change. -/
def fixedProgram (can : String → String → Option String → Bool) :
    Concurrent EditStore EditRequest EditChoice where
  __ := editProgram
  advance _ choice := editAdvance (withRights can choice)

abbrev fixedSystem (can : String → String → Option String → Bool) : System EditConfig EditMove :=
  (fixedProgram can).system EditStore.Stamped

/-- Runs that respect the locks, whose moves by timestamp are from the place read. -/
abbrev PlacedRun : EditConfig → EditMove → Prop := editLocks.Orderly StillPlaced

/-! ## Outline -/

/-- A row that is written is where it was read, if the write moves it. -/
def PlacedAs (store : EditStore) (entry : EditedDocument × DocumentData) : Prop :=
  ∀ row ∈ store.documents, row.id = entry.1.id →
    row.spaceId = entry.1.spaceId ∧
      (entry.2.categoryId.getD row.categoryId ≠ row.categoryId →
        row.categoryId = entry.1.categoryId)

/-- What a request knows of its rights and of the places of documents. -/
structure Entitled (can : String → String → Option String → Bool) (store : EditStore)
    (process : EditRequest) : Prop where
  rights : ∀ editor, process.editor = some editor → ∀ place ∈ editor.checked,
    can editor.user place.1 place.2 = true
  authorised : process.Authorised
  spaces : ∀ read ∈ process.reads, ∀ row ∈ store.documents, row.id = read.id →
    row.spaceId = read.spaceId
  placed : ∀ entry ∈ process.writes, PlacedAs store entry

section Steps

variable {can : String → String → Option String → Bool} {choice : EditChoice}
variable {config : EditConfig} {process process' : EditRequest}

theorem metadataPlaces_permitted {user : String} {body : MetadataBody} {read : EditedDocument}
    (hpermitted : metadataPermitted choice user body read = true) :
    ∀ place ∈ metadataPlaces body read, choice.permits user place.1 place.2 = true := by
  simp only [metadataPermitted, Bool.and_eq_true, Option.all_eq_true, Bool.or_eq_true,
    decide_eq_true_eq] at hpermitted
  intro place hplace
  rcases List.mem_cons.mp hplace with rfl | hplace
  · exact hpermitted.1.1
  · obtain ⟨target, htarget, rfl⟩ := List.mem_map.mp hplace
    rw [Option.mem_toList, Option.filter_eq_some_iff, decide_eq_true_eq] at htarget
    rcases hpermitted.2 target htarget.1 with hsame | hpermits
    · exact absurd hsame htarget.2
    · exact hpermits

theorem bulkPlaces_permitted {user : String} {body : BulkBody} {read : EditedDocument}
    (hpermitted : bulkPermitted choice user body read = true) :
    ∀ place ∈ bulkPlaces body read, choice.permits user place.1 place.2 = true := by
  simp only [bulkPermitted, bulkAllowed, Bool.and_eq_true, Option.all_eq_true] at hpermitted
  intro place hplace
  rcases List.mem_cons.mp hplace with rfl | hplace
  · exact hpermitted.1.1.1
  · obtain ⟨target, htarget, rfl⟩ := List.mem_map.mp hplace
    exact hpermitted.1.1.2 target (Option.mem_toList.mp htarget)

/-- The checks of a request give its user the rights. -/
theorem EditStep.rights (hstep : EditStep (withRights can choice) config.store process process')
    (hrights : ∀ editor, process.editor = some editor → ∀ place ∈ editor.checked,
      can editor.user place.1 place.2 = true) :
    ∀ editor, process'.editor = some editor → ∀ place ∈ editor.checked,
      can editor.user place.1 place.2 = true := by
  intro editor heditor
  cases hstep with
  | metadataRead hfound hpermitted =>
      cases heditor
      exact metadataPlaces_permitted hpermitted
  | bulkChecked hpermitted =>
      cases heditor
      intro place hplace
      obtain ⟨row, hrow, hplace⟩ := List.mem_flatMap.mp hplace
      exact bulkPlaces_permitted (hpermitted row hrow) place hplace
  | categoryRead hfound hsource htarget =>
      cases heditor
      intro place hplace
      rcases List.mem_cons.mp hplace with rfl | hplace
      · exact hsource
      · rw [List.mem_singleton.mp hplace]
        exact htarget
  | bulkRead => cases heditor
  | metadataPlain | metadataOther | metadataUnique | metadataWritten | metadataMoved | bulkWritten
  | bulkDone | categoryWritten => exact hrights editor heditor

theorem same_space_of_mem {store : EditStore} {read : EditedDocument}
    (hread : read ∈ store.documents) :
    ∀ row ∈ store.documents, row.id = read.id → row.spaceId = read.spaceId := by
  intro row hrow hid
  rw [EditStore.eq_of_id hrow hread hid]

theorem EditStep.spaces (hstep : EditStep choice config.store process process')
    (hspaces : ∀ read ∈ process.reads, ∀ row ∈ config.store.documents, row.id = read.id →
      row.spaceId = read.spaceId) :
    ∀ read ∈ process'.reads, ∀ row ∈ config.store.documents, row.id = read.id →
      row.spaceId = read.spaceId := by
  cases hstep with
  | metadataRead hfound hpermitted =>
      intro read hread
      rw [List.mem_singleton.mp hread]
      exact same_space_of_mem (EditStore.mem_of_findDocument hfound).1
  | categoryRead hfound hsource htarget =>
      intro read hread
      rw [List.mem_singleton.mp hread]
      exact same_space_of_mem (EditStore.mem_of_findDocument hfound).1
  | bulkRead hread => exact fun read hmem => same_space_of_mem (hread read hmem)
  | bulkWritten => exact fun read hmem => hspaces read (List.mem_cons_of_mem _ hmem)
  | metadataPlain | metadataOther | metadataUnique | bulkChecked => exact hspaces
  | metadataWritten | metadataMoved | bulkDone | categoryWritten => exact List.forall_mem_nil _

/-- The row that a statement selects is the only one with its id. -/
theorem placedAs_of_selected {read row : EditedDocument} {data : DocumentData}
    (hrow : row ∈ config.store.documents) (hid : row.id = read.id)
    (hspace : row.spaceId = read.spaceId)
    (hcategory : data.categoryId.getD row.categoryId ≠ row.categoryId →
      row.categoryId = read.categoryId) : PlacedAs config.store (read, data) := by
  intro other hother hotherId
  rw [EditStore.eq_of_id hother hrow (hotherId.trans hid.symm)]
  exact ⟨hspace, hcategory⟩

theorem EditStep.placed (hstep : EditStep choice config.store process process')
    (hguard : StillPlaced config process)
    (hspaces : ∀ read ∈ process.reads, ∀ row ∈ config.store.documents, row.id = read.id →
      row.spaceId = read.spaceId)
    (hplaced : ∀ entry ∈ process.writes, PlacedAs config.store entry) :
    ∀ entry ∈ process'.writes, PlacedAs config.store entry := by
  cases hstep with
  | @metadataWritten editor body read row version data hdata hrow hselects =>
      intro entry hentry
      rw [List.mem_singleton.mp hentry]
      have hfound := hselects
      simp only [EditRequest.selects, Bool.and_eq_true, decide_eq_true_eq] at hfound
      refine placedAs_of_selected hrow hfound.1.1
        (hspaces read List.mem_cons_self row hrow hfound.1.1) fun hmoves => ?_
      rw [(metadataData_eq_ok hdata).1] at hmoves
      cases htarget : body.categoryId.filter (· ≠ read.categoryId) with
      | none =>
          rw [htarget] at hmoves
          exact absurd rfl hmoves
      | some target =>
          rw [htarget] at hmoves
          refine hguard read target ?_ row hrow hselects (Ne.symm hmoves)
          rw [EditRequest.target, htarget, Option.map_some]
  | @bulkWritten editor body done read row rest data hdata hrow hselects =>
      intro entry hentry
      rcases List.mem_append.mp hentry with hold | hnew
      · exact hplaced entry hold
      rw [List.mem_singleton.mp hnew]
      have hfound := hselects
      simp only [EditRequest.selects, Bool.and_eq_true, decide_eq_true_eq] at hfound
      refine placedAs_of_selected hrow hfound.1.1
        (hspaces read List.mem_cons_self row hrow hfound.1.1) fun hmoves => ?_
      rw [(bulkData_eq_ok hdata).1] at hmoves
      exact hguard read _ rfl row hrow hselects (Ne.symm hmoves)
  | @categoryWritten editor read row categoryId hrow hselects =>
      intro entry hentry
      rw [List.mem_singleton.mp hentry]
      simp only [EditRequest.selects, Bool.and_eq_true, decide_eq_true_eq] at hselects
      exact placedAs_of_selected hrow hselects.1.1.1 hselects.1.2 fun _ => hselects.2
  | metadataMoved => exact hplaced
  | bulkDone => exact hplaced
  | metadataRead | metadataPlain | metadataOther | metadataUnique | bulkRead | bulkChecked
  | categoryRead => exact List.forall_mem_nil _

end Steps

def moveOutline (can : String → String → Option String → Bool) :
    Concurrent.Outline EditStore EditRequest where
  invariant _ := True
  assertion _ store process := Entitled can store process

section Runs

variable {can : String → String → Option String → Bool}

theorem fixedLocks_sound : editLocks.Sound (fixedProgram can) where
  start := editLocks_sound.start
  advance name choice := editLocks_sound.advance name (withRights can choice)

/-- The commit of another request leaves what a request knows. -/
theorem Entitled.commit {store : EditStore} {transaction : Transaction} {process : EditRequest}
    (hentitled : Entitled can store process)
    (hfree : ∀ entry ∈ process.writes,
      entry.1.id ∉ transaction.writes.map fun entry => entry.1.id) :
    Entitled can (store.commit transaction) process := by
  refine ⟨hentitled.rights, hentitled.authorised, ?_, ?_⟩
  · intro read hread row hrow hid
    obtain ⟨before, hbefore, rfl⟩ := mem_commit.mp hrow
    rw [written_id] at hid
    have hspace := hentitled.spaces read hread before hbefore hid
    rcases written_cases transaction.writes before with hsame | ⟨entry, -, -, hwritten⟩
    · rw [hsame]
      exact hspace
    · rw [hwritten]
      exact hspace
  · intro entry hentry row hrow hid
    exact hentitled.placed entry hentry row (mem_of_mem_commit hrow (hid ▸ hfree entry hentry)) hid

theorem moveOutline_valid : (moveOutline can).Valid (fixedProgram can) EditStore.Stamped
    (fun config move => editLocks.Exclusive config ∧ PlacedRun config move) where
  init := fun _ _ => trivial
  drift := by
    intro time store after hdrift _
    simp only [fixedProgram, editProgram, Option.ite_none_right_eq_some,
      Option.some.injEq] at hdrift
    rw [← hdrift.2]
    exact ⟨trivial, fun name process hentitled => ⟨hentitled.rights, hentitled.authorised,
      hentitled.spaces, hentitled.placed⟩⟩
  start := by
    intro name store process hstart _
    cases process with
    | metadata | bulk | category =>
        refine ⟨?_, ?_, List.forall_mem_nil _, List.forall_mem_nil _⟩
        · intro editor heditor
          cases heditor
        · intro editor heditor
          cases heditor
    | metadataVersion | metadataDuplicate | metadataWrite | metadataLocale | bulkChecks | bulkWrite
    | categoryWrite | commit => cases hstart
  own := by
    intro config name choice process remaining after hholds hprocess hallowed hadvance
    refine ⟨trivial, fun process' hremaining => ?_⟩
    have hentitled := hholds.2 name process hprocess
    rcases editAdvance_cases hadvance with ⟨rfl, hnext⟩ | ⟨editor, transaction, rfl, rfl, rfl⟩
    · have hstep := hnext process' hremaining
      exact ⟨hstep.rights hentitled.rights, hstep.authorised hentitled.authorised,
        hstep.spaces hentitled.spaces,
        hstep.placed (hallowed.2.2 process hprocess) hentitled.spaces hentitled.placed⟩
    · cases hremaining
  others := by
    intro config name choice process remaining after hholds hprocess hallowed hadvance other
      process' hne hother
    have hentitled := hholds.2 other process' hother
    rcases editAdvance_cases hadvance with ⟨rfl, -⟩ | ⟨editor, transaction, rfl, rfl, rfl⟩
    · exact hentitled
    · apply hentitled.commit
      intro entry hentry hheld
      exact hallowed.1 name other _ process' (Ne.symm hne) hprocess hother entry.1.id hheld
        (List.mem_map_of_mem hentry)

theorem moveOutline_holds {config : EditConfig}
    (hreach : (fixedSystem can).ReachableWhile PlacedRun config) :
    (moveOutline can).Holds config :=
  Concurrent.Locks.outline_holds fixedLocks_sound moveOutline_valid hreach

/-- A move that changes a row is the commit of a transaction. -/
theorem commit_of_changed {config after : EditConfig} {move : EditMove}
    (hnext : (fixedProgram can).next config move = some after) {row row' : EditedDocument}
    (hrow : row ∈ config.store.documents) (hrow' : row' ∈ after.store.documents)
    (hid : row'.id = row.id) (hne : row' ≠ row) :
    ∃ name choice editor transaction entry, move = .advance name choice ∧
      config.processes name = some (.commit editor transaction) ∧ entry ∈ transaction.writes ∧
      entry.1.id = row.id ∧ row' = entry.2.write row := by
  rcases Concurrent.next_store hnext with ⟨time, rfl, hdrift⟩ | ⟨name, choice, process, remaining,
    rfl, hprocess, hadvance⟩ | hsame
  · simp only [fixedProgram, editProgram, Option.ite_none_right_eq_some,
      Option.some.injEq] at hdrift
    rw [← hdrift.2] at hrow'
    exact absurd (EditStore.eq_of_id hrow' hrow hid) hne
  · rcases editAdvance_cases hadvance with ⟨hsame, -⟩ | ⟨editor, transaction, rfl, -, hafter⟩
    · rw [hsame] at hrow'
      exact absurd (EditStore.eq_of_id hrow' hrow hid) hne
    · rw [hafter] at hrow'
      obtain ⟨entry, hentry, hentryId, hwritten⟩ := write_of_changed hrow hrow' hid hne
      exact ⟨name, choice, editor, transaction, entry, rfl, hprocess, hentry, hentryId, hwritten⟩
  · rw [hsame] at hrow'
    exact absurd (EditStore.eq_of_id hrow' hrow hid) hne

/-- **Moves need edit on both ends.** The user of a request that changes the category of
a document may edit in the category where it was and in the one where it is then. -/
theorem moves_need_edit {config after : EditConfig} {move : EditMove}
    (hreach : (fixedSystem can).ReachableWhile PlacedRun config)
    (hstep : (fixedSystem can).step config move after) :
    ∀ row ∈ config.store.documents, ∀ row' ∈ after.store.documents, row'.id = row.id →
      row'.categoryId ≠ row.categoryId → ∃ name choice process editor,
        move = .advance name choice ∧ config.processes name = some process ∧
        process.editor = some editor ∧ can editor.user row.spaceId row.categoryId = true ∧
        can editor.user row'.spaceId row'.categoryId = true := by
  intro row hrow row' hrow' hid hmoved
  have hne : row' ≠ row := fun heq => hmoved (by rw [heq])
  obtain ⟨name, choice, editor, transaction, entry, rfl, hprocess, hentry, hentryId, rfl⟩ :=
    commit_of_changed hstep hrow hrow' hid hne
  have hentitled := (moveOutline_holds hreach).2 name _ hprocess
  obtain ⟨hspace, hcategory⟩ := hentitled.placed entry hentry row hrow hentryId.symm
  have hsource : row.categoryId = entry.1.categoryId := hcategory hmoved
  have hplaces : writePlaces entry ⊆ editor.checked := fun place hplace =>
    hentitled.authorised editor rfl (List.mem_flatMap.mpr ⟨entry, hentry, hplace⟩)
  refine ⟨name, choice, _, editor, rfl, hprocess, rfl, ?_, ?_⟩
  · rw [hspace, hsource]
    exact hentitled.rights editor rfl _ (hplaces List.mem_cons_self)
  · have htarget := hentitled.rights editor rfl _
      (hplaces (List.mem_cons_of_mem _ List.mem_cons_self))
    simp only [DocumentData.write]
    rw [hspace, hsource]
    exact htarget

end Runs

/-! ## Sample -/

instance (config : EditConfig) (process : EditRequest) : Decidable (StillPlaced config process) :=
  decidable_of_iff (∀ aim ∈ process.target, ∀ row ∈ config.store.documents,
      process.selects row = true → row.categoryId ≠ aim.2 → row.categoryId = aim.1.categoryId)
    ⟨fun h read target htarget => h (read, target) htarget, fun h aim haim => h aim.1 aim.2 haim⟩

/-- The legal category is for Bob only. -/
def legalForBob (user _spaceId : String) (categoryId : Option String) : Bool :=
  user = "bob" || categoryId ≠ some "legal"

/-- Until the commit of the move. -/
def movingGuide : List EditMove := .start 0 moveRequest :: List.replicate 4 (.advance 0 openChoice)

/-- Ada moves the guide to the forms. -/
theorem moves_need_edit_forms : ∃ config after : EditConfig,
    (fixedSystem legalForBob).ReachableWhile PlacedRun config ∧
    (fixedSystem legalForBob).step config (.advance 0 openChoice) after ∧
    config.store.documents = [uncategorizedGuide] ∧ after.store.documents = [movedGuide] ∧
    ∃ user, legalForBob user "it" none = true ∧ legalForBob user "it" (some "forms") = true := by
  have hrun : (Concurrent.executeNamed (fixedProgram legalForBob) [0]
      (editLocks.isOrderly StillPlaced [0]) (Concurrent.idle guideStore) movingGuide).any
      (fun config =>
        config.store.documents = [uncategorizedGuide] &&
          ((fixedProgram legalForBob).next config (.advance 0 openChoice)).any fun after =>
            after.store.documents = [movedGuide]) = true := by
    decide
  rw [Option.any_eq_true] at hrun
  obtain ⟨config, hexecute, hconfig⟩ := hrun
  rw [Bool.and_eq_true, decide_eq_true_eq, Option.any_eq_true] at hconfig
  obtain ⟨hbefore, after, hnext, hafter⟩ := hconfig
  rw [decide_eq_true_eq] at hafter
  have hinit : (fixedSystem legalForBob).ReachableWhile PlacedRun (Concurrent.idle guideStore) :=
    .init ⟨stamped_guideStore, fun _ => rfl⟩
  obtain ⟨hreach, -⟩ := Concurrent.reachable_executeNamed
    (fun _ _ => Concurrent.Locks.orderly_of_isOrderly) movingGuide (fun _ _ => rfl) hinit hexecute
  refine ⟨config, after, hreach, hnext, hbefore, hafter, ?_⟩
  obtain ⟨-, -, -, editor, -, -, -, hsource, htarget⟩ := moves_need_edit hreach hnext
    uncategorizedGuide (hbefore ▸ List.mem_cons_self) movedGuide (hafter ▸ List.mem_cons_self) rfl
    (by decide)
  exact ⟨editor.user, hsource, htarget⟩

/-- Ada asks for the guide as it will be at the time 2. Bob moves it to the legal category
at that time, after Ada's request has read it. -/
def guessedStamp : List EditMove :=
  [.start 0 (.metadata "ada" "guide" { toForms with expectedUpdatedAt := some 2 }),
    .advance 0 openChoice, .advance 0 openChoice, .drift 2,
    .start 1 (.category "bob" "guide" (some "legal")), .advance 1 openChoice,
    .advance 1 openChoice, .advance 1 openChoice, .advance 0 openChoice, .advance 0 openChoice]

/-- The guide in the legal category. -/
def legalGuide : EditedDocument :=
  { uncategorizedGuide with categoryId := some "legal", updatedAt := 2 }

/-- Ada, who may not edit in the legal category, takes the guide out of it. -/
theorem move_from_forbidden_category : ∃ config after : EditConfig,
    (fixedSystem legalForBob).ReachableWhile editLocks.Free config ∧
    (fixedSystem legalForBob).step config (.advance 0 openChoice) after ∧
    config.store.documents = [legalGuide] ∧ after.store.documents = [movedGuide] ∧
    (∃ process editor, config.processes 0 = some process ∧ process.editor = some editor ∧
      editor.user = "ada") ∧ legalForBob "ada" "it" (some "legal") = false := by
  have hrun : (Concurrent.executeNamed (fixedProgram legalForBob) [0, 1] (editLocks.isFree [0, 1])
      (Concurrent.idle guideStore) guessedStamp).any (fun config =>
        config.store.documents = [legalGuide] &&
          ((fixedProgram legalForBob).next config (.advance 0 openChoice)).any (fun after =>
            after.store.documents = [movedGuide]) &&
          ((config.processes 0).bind EditRequest.editor).any fun editor =>
            editor.user = "ada") = true := by
    decide
  rw [Option.any_eq_true] at hrun
  obtain ⟨config, hexecute, hconfig⟩ := hrun
  simp only [Bool.and_eq_true, decide_eq_true_eq, Option.any_eq_true] at hconfig
  obtain ⟨⟨hbefore, after, hnext, hafter⟩, editor, heditor, huser⟩ := hconfig
  have hinit : (fixedSystem legalForBob).ReachableWhile editLocks.Free
      (Concurrent.idle guideStore) :=
    .init ⟨stamped_guideStore, fun _ => rfl⟩
  obtain ⟨hreach, -⟩ := Concurrent.reachable_executeNamed
    (fun _ _ => Concurrent.Locks.free_of_isFree) guessedStamp (fun _ _ => rfl) hinit hexecute
  obtain ⟨process, hprocess, heditor⟩ := Option.bind_eq_some_iff.mp heditor
  exact ⟨config, after, hreach, hnext, hbefore, hafter,
    ⟨process, editor, hprocess, heditor, huser⟩, by decide⟩

end IsmsPortal
