import IsmsPortal.Destruction.Database
import IsmsPortal.Foundation.IsoDate
import IsmsPortal.Foundation.Locking
import IsmsPortal.Governance.Reviews

/-! # Closing document reviews

`recordReviewDecision` runs a transaction: it updates the review if it is open; a
rejection then archives the document and cancels the other open reviews of the
document; the approval of an automatic review moves the annual date of the version.
The database runs at READ COMMITTED: a statement selects rows as they are committed
when it starts, waits for each of them, and evaluates its condition again on the
row it then finds. A transaction holds the rows it has written until its commit,
which makes its writes visible.
-/

namespace IsmsPortal

open Foundation

deriving instance DecidableEq for Identity

/-- The columns of a `Document` that reviews depend on. -/
structure ReviewedDocument where
  id : String
  status : DocumentStatus
  deletedAt : Option Int
deriving DecidableEq

/-- The columns of a `DocumentVersion` for its annual review. -/
structure AnnualVersion where
  id : String
  documentId : String
  annualReviewDueAt : Option Int
  annualReviewNotifiedAt : Option Int
deriving DecidableEq

/-- The tables. The last two fields are no tables: the ids of all reviews ever
created, and the documents whose status other writers than rejections changed,
one entry for each change. -/
structure ReviewStore where
  clock : Int
  documents : List ReviewedDocument
  versions : List AnnualVersion
  reviews : List DocumentReview
  issued : List String
  statusChanges : List String
deriving DecidableEq

/-- A review to be created. -/
structure ReviewDraft where
  documentId : String
  versionId : Option String
  owner : String
  reviewer : String
  approver : String
  dueAt : Int
  automaticAnnual : Bool
  automaticPublication : Bool
deriving DecidableEq

def ReviewDraft.row (createdAt : Int) (id : String) (draft : ReviewDraft) : DocumentReview where
  id := id
  documentId := draft.documentId
  versionId := draft.versionId
  owner := draft.owner
  reviewer := draft.reviewer
  approver := draft.approver
  status := .pending
  dueAt := draft.dueAt
  decisionComment := none
  decidedBy := none
  decidedAt := none
  evidenceObjectKey := none
  automaticAnnual := draft.automaticAnnual
  automaticPublication := draft.automaticPublication
  overdueNotifiedAt := none
  createdAt := createdAt

/-- The review of a first publication. -/
def publicationDraft (documentId : String) (versionId : Option String) (publishedAt : Int) :
    ReviewDraft :=
  ⟨documentId, versionId, "ISMS scheduler", "ISMS moderators", "ISMS administrators",
    publishedAt + days 30, false, true⟩

/-- The annual review of a version. -/
def annualDraft (now : Int) (version : AnnualVersion) : ReviewDraft :=
  ⟨version.documentId, some version.id, "ISMS scheduler", "ISMS moderators",
    "ISMS administrators", now, true, false⟩

/-- A call of `recordReviewDecision`, with the date it takes. -/
structure Recording where
  id : String
  documentId : String
  body : ReviewDecisionDto
  actor : String
  startedAt : Int
deriving DecidableEq

/-- What the statements of a rejection have done: whether the document is archived, the
changes of its status they have seen, the other reviews that were open when the
closing statement started, those it cancels, and those it found closed. -/
structure Closing where
  archived : Bool
  seen : Nat
  candidates : List String
  cancels : List String
  passed : List String
deriving DecidableEq

/-- A decision that closes no other review. -/
def Closing.nothing : Closing := ⟨false, 0, [], [], []⟩

/-- Where a request is, and what it has read. -/
inductive ReviewProcess
  | decideReview (identity : Identity) (id : String) (body : ReviewDecisionDto)
  | inboxDecide (identity : Identity) (id : String) (body : ReviewDecisionDto)
  | recordBegin (id documentId : String) (body : ReviewDecisionDto) (actor : String)
  | recordUpdate (recording : Recording)
  | recordArchive (recording : Recording)
  | recordArchiveRow (recording : Recording)
  | recordClose (recording : Recording) (archived : Bool) (seen : Nat)
  | recordCloseRows (recording : Recording) (closing : Closing) (todo : List String)
  | recordVersion (recording : Recording) (versionId : String)
  | recordCommit (recording : Recording) (closing : Closing) (versionId : Option String)
  | publishWithReview (documentId : String) (versionId : Option String) (firstPublication : Bool)
      (publishedAt : Int)
  | publishCommit (documentId : String) (versionId : Option String) (firstPublication : Bool)
      (publishedAt : Int)
  | createReview (draft : ReviewDraft)
  | createReviewRow (draft : ReviewDraft)
  | schedule
  | scheduleFind (now : Int)
  | scheduleVersions (now : Int) (todo missing : List AnnualVersion)
  | scheduleCommit (now : Int) (missing : List AnnualVersion)
  | setStatus (documentId : String) (status : DocumentStatus)
  | setStatusCommit (documentId : String) (status : DocumentStatus)
  | restoreFromTrash (documentId : String)
  | removeByModerator (documentId : String)
  | remove (documentId : String)
  | attachReviewEvidence (identity : Identity) (id objectKey : String)
  | attachEvidenceUpdate (id objectKey : String)
  | overdueNotified (ids : List String) (before : Option Int)
  | annualNotified (versionId : String)
deriving DecidableEq

/-- The ids of new reviews, and the answer of the query for versions. -/
structure ReviewChoice where
  ids : List String
  versions : List AnnualVersion

/-! ## Statements -/

namespace ReviewStore

variable (store : ReviewStore)

def find (id : String) : Option DocumentReview := store.reviews.find? (·.id = id)

/-- The document is neither archived nor in the trash. -/
def isActive (documentId : String) : Bool :=
  store.documents.any fun document => document.id = documentId ∧ document.status ≠ .archived ∧
    document.deletedAt = none

/-- The document is not in the trash and has another status. -/
def isUnpublished (documentId : String) : Bool :=
  store.documents.any fun document => document.id = documentId ∧ document.status ≠ .published ∧
    document.deletedAt = none

/-- The document is published and not in the trash. -/
def isPublished (documentId : String) : Bool :=
  store.documents.any fun document => document.id = documentId ∧ document.status = .published ∧
    document.deletedAt = none

/-- The open reviews of a document beside one of them. -/
def openBeside (documentId id : String) : List String :=
  (store.reviews.filter fun review => review.documentId = documentId ∧ review.id ≠ id ∧
    review.status.isOpen).map DocumentReview.id

/-- `documentReview.create` of several reviews, with ids never used before. -/
def createReviews (ids : List String) (drafts : List ReviewDraft) : Option ReviewStore :=
  if ids.length = drafts.length ∧ ids.Nodup ∧ ∀ id ∈ ids, id ∉ store.issued then
    some { store with
      reviews := store.reviews ++ List.zipWith (ReviewDraft.row store.clock) ids drafts
      issued := ids ++ store.issued }
  else none

/-- Another writer sets columns of a document. -/
def writeDocument (documentId : String) (f : ReviewedDocument → ReviewedDocument) :
    ReviewStore where
  __ := store
  documents := Table.update ReviewedDocument.id documentId f store.documents
  statusChanges :=
    if store.documents.any fun document => document.id = documentId ∧
        (f document).status ≠ document.status then documentId :: store.statusChanges
    else store.statusChanges

/-- `documentReview.updateMany`. -/
def updateReviews (selects : DocumentReview → Bool) (f : DocumentReview → DocumentReview) :
    ReviewStore where
  __ := store
  reviews := store.reviews.map fun review => if selects review then f review else review

/-- The reviews of a document are deleted. -/
def deleteReviews (documentId : String) : ReviewStore :=
  { store with reviews := store.reviews.filter (·.documentId ≠ documentId) }

/-- The commit of a decision: the review, the archived document, the cancelled reviews,
and the next annual date of the version. -/
def commit (nextYear : Int → Int) (recording : Recording) (closing : Closing)
    (versionId : Option String) : ReviewStore where
  __ := store
  reviews := store.reviews.map fun review =>
    if review.id = recording.id then
      review.decided recording.startedAt recording.actor recording.body
    else if review.id ∈ closing.cancels then
      { review with
        status := .cancelled
        decisionComment := some "Closed after document rejection"
        decidedBy := some recording.actor
        decidedAt := some recording.startedAt }
    else review
  documents :=
    if closing.archived then
      Table.update ReviewedDocument.id recording.documentId
        (fun document => { document with status := .archived }) store.documents
    else store.documents
  versions := store.versions.map fun version =>
    if some version.id = versionId then
      { version with
        annualReviewDueAt := some (nextYear recording.startedAt)
        annualReviewNotifiedAt := none }
    else version

end ReviewStore

/-- What the scheduler looks for. -/
def isAnnualDue (store : ReviewStore) (now : Int) (version : AnnualVersion) : Bool :=
  store.isPublished version.documentId && version.annualReviewNotifiedAt.isNone &&
    version.annualReviewDueAt.any (· ≤ now)

/-- An answer of the query: the first hundred versions by date. -/
def IsAnnualAnswer (store : ReviewStore) (now : Int) (answer : List AnnualVersion) : Prop :=
  Query.IsSelection (isAnnualDue store now) 100 store.versions answer ∧
    answer.Pairwise (fun left right => left.annualReviewDueAt.getD 0 ≤
      right.annualReviewDueAt.getD 0) ∧
    ∀ version ∈ answer, ∀ other ∈ store.versions, isAnnualDue store now other = true →
      other ∉ answer → version.annualReviewDueAt.getD 0 ≤ other.annualReviewDueAt.getD 0

instance (store : ReviewStore) (now : Int) (answer : List AnnualVersion) :
    Decidable (IsAnnualAnswer store now answer) :=
  inferInstanceAs (Decidable (_ ∧ _ ∧ _))

/-- The version has an open annual review. -/
def hasAnnualReview (store : ReviewStore) (version : AnnualVersion) : Bool :=
  store.reviews.any fun review => review.versionId = some version.id ∧
    review.automaticAnnual = true ∧ review.status.isOpen = true

/-- The condition of the update after an overdue notification was delivered. -/
def isOverdueNotified (store : ReviewStore) (ids : List String) (before : Option Int)
    (review : DocumentReview) : Bool :=
  review.id ∈ ids && review.automaticPublication && review.status.isOpen &&
    review.overdueNotifiedAt.all (fun notified => before.any (notified ≤ ·)) &&
    store.isPublished review.documentId

/-! ## Endpoints -/

section Program

variable (toLowerCase : String → String) (nextYear : Int → Int)

/-- The checks of `createReview`. The draft names the version that was given or is the
latest one. -/
def checkCreateReview (store : ReviewStore) (draft : ReviewDraft) : Except String Unit := do
  let participants := [draft.owner, draft.reviewer, draft.approver].map fun name =>
    toLowerCase (JsString.trim name)
  unless participants.Nodup do throw "Owner, reviewer and approver must be distinct"
  if draft.dueAt ≤ store.clock then throw "Review due date must be in the future"
  unless store.documents.any fun document => document.id = draft.documentId ∧
      document.deletedAt = none do throw "Document not found"
  unless draft.versionId.all fun versionId => store.versions.any fun version =>
      version.id = versionId ∧ version.documentId = draft.documentId do
    throw "Version does not belong to document"

/-- The row that `createReview` creates from its body. -/
def ReviewDraft.manual (draft : ReviewDraft) : ReviewDraft where
  __ := draft
  owner := JsString.trim draft.owner
  reviewer := JsString.trim draft.reviewer
  approver := JsString.trim draft.approver
  automaticAnnual := false
  automaticPublication := false

/-- The check of `attachReviewEvidence`. -/
def checkEvidence (identity : Identity) (found : Option DocumentReview) :
    Except ReviewError Unit := do
  let some review := found | throw .notFound
  if review.decidedAt = none ∨
      review.decidedBy.map toLowerCase ≠ some (toLowerCase identity.username) then
    throw (.forbidden "Only the decision author can attach evidence")

/-- The statement after the update of the review. -/
def Recording.next (recording : Recording) (review : DocumentReview) : ReviewProcess :=
  match recording.body.status with
  | .rejected => .recordArchive recording
  | .approved =>
      match review.versionId with
      | some versionId =>
          if review.automaticAnnual || review.automaticPublication then
            .recordVersion recording versionId
          else .recordCommit recording .nothing none
      | none => .recordCommit recording .nothing none
  | _ => .recordCommit recording .nothing none

/-- Run the next statement of a process. -/
def reviewAdvance (choice : ReviewChoice) (store : ReviewStore) :
    ReviewProcess → Option (Option ReviewProcess × ReviewStore)
  | .decideReview identity id body =>
      some ((approverGuard identity.groups >>= fun _ =>
        checkDecideReview toLowerCase identity (store.find id)).toOption.map fun existing =>
          .recordBegin id existing.documentId body identity.username, store)
  | .inboxDecide identity id body =>
      some ((checkInboxDecide toLowerCase identity body (store.find id)).toOption.map fun item =>
        .recordBegin id item.documentId body identity.username, store)
  | .recordBegin id documentId body actor =>
      some (some (.recordUpdate ⟨id, documentId, body, actor, store.clock⟩), store)
  | .recordUpdate recording =>
      some ((store.find recording.id).bind fun row =>
        (recordDecision recording.startedAt recording.actor recording.body row).toOption.map
          recording.next, store)
  | .recordArchive recording =>
      some (some (if store.isActive recording.documentId then .recordArchiveRow recording
        else .recordClose recording false (store.statusChanges.count recording.documentId)), store)
  | .recordArchiveRow recording =>
      some (some (.recordClose recording (store.isActive recording.documentId)
        (store.statusChanges.count recording.documentId)), store)
  | .recordClose recording archived seen =>
      let candidates := store.openBeside recording.documentId recording.id
      some (some (.recordCloseRows recording ⟨archived, seen, candidates, [], []⟩ candidates),
        store)
  | .recordCloseRows recording closing [] =>
      some (some (.recordCommit recording closing none), store)
  | .recordCloseRows recording closing (id :: todo) =>
      some (some (.recordCloseRows recording
        (if id ∈ store.openBeside recording.documentId recording.id then
          { closing with cancels := id :: closing.cancels }
        else { closing with passed := id :: closing.passed }) todo), store)
  | .recordVersion recording versionId =>
      some (if store.versions.any (·.id = versionId) then
        some (.recordCommit recording .nothing (some versionId)) else none, store)
  | .recordCommit recording closing versionId =>
      some (none, store.commit nextYear recording closing versionId)
  | .publishWithReview documentId versionId firstPublication publishedAt =>
      some (if store.isUnpublished documentId then
        some (.publishCommit documentId versionId firstPublication publishedAt) else none, store)
  | .publishCommit documentId versionId firstPublication publishedAt =>
      ((store.writeDocument documentId fun document => { document with status := .published })
        |>.createReviews choice.ids
          (if firstPublication then [publicationDraft documentId versionId publishedAt]
            else [])).map (none, ·)
  | .createReview draft =>
      some ((checkCreateReview toLowerCase store draft).toOption.map fun _ =>
        .createReviewRow draft.manual, store)
  | .createReviewRow draft => (store.createReviews choice.ids [draft]).map (none, ·)
  | .schedule => some (some (.scheduleFind store.clock), store)
  | .scheduleFind now =>
      if IsAnnualAnswer store now choice.versions then
        some (some (.scheduleVersions now choice.versions []), store)
      else none
  | .scheduleVersions now [] missing => some (some (.scheduleCommit now missing), store)
  | .scheduleVersions now (version :: todo) missing =>
      some (some (.scheduleVersions now todo
        (if hasAnnualReview store version then missing else missing ++ [version])), store)
  | .scheduleCommit now missing =>
      (store.createReviews choice.ids (missing.map (annualDraft now))).map (none, ·)
  | .setStatus documentId status => some (some (.setStatusCommit documentId status), store)
  | .setStatusCommit documentId status =>
      some (none, store.writeDocument documentId fun document => { document with status })
  | .restoreFromTrash documentId =>
      some (none, store.writeDocument documentId fun document =>
        if document.deletedAt = none then document
        else { document with deletedAt := none, status := .archived })
  | .removeByModerator documentId =>
      some (none, (store.writeDocument documentId fun document =>
        { document with deletedAt := some store.clock, status := .archived }).deleteReviews
          documentId)
  | .remove documentId =>
      some (none, { store.deleteReviews documentId with
        documents := store.documents.filter (·.id ≠ documentId)
        versions := store.versions.filter (·.documentId ≠ documentId) })
  | .attachReviewEvidence identity id objectKey =>
      some ((checkEvidence toLowerCase identity (store.find id)).toOption.map fun _ =>
        .attachEvidenceUpdate id objectKey, store)
  | .attachEvidenceUpdate id objectKey =>
      some (none, store.updateReviews (·.id = id) fun review =>
        { review with evidenceObjectKey := some objectKey })
  | .overdueNotified ids before =>
      some (none, store.updateReviews (isOverdueNotified store ids before) fun review =>
        { review with overdueNotifiedAt := some store.clock })
  | .annualNotified versionId =>
      some (none, { store with versions := store.versions.map fun version =>
        if version.id = versionId ∧ version.annualReviewNotifiedAt = none then
          { version with annualReviewNotifiedAt := some store.clock } else version })

end Program

def ReviewProcess.initial : ReviewProcess → Bool
  | .decideReview .. | .inboxDecide .. | .publishWithReview .. | .createReview .. | .schedule
  | .setStatus .. | .restoreFromTrash .. | .removeByModerator .. | .remove ..
  | .attachReviewEvidence .. | .overdueNotified .. | .annualNotified .. => true
  | _ => false

def reviewProgram (toLowerCase : String → String) (nextYear : Int → Int) :
    Concurrent ReviewStore ReviewProcess ReviewChoice where
  drift time store := if store.clock ≤ time then some { store with clock := time } else none
  start := ReviewProcess.initial
  advance _ := reviewAdvance toLowerCase nextYear

abbrev ReviewConfig : Type := Concurrent.Config ReviewStore ReviewProcess

abbrev ReviewMove : Type := Concurrent.Move ReviewProcess ReviewChoice

/-- Runs from any documents and versions, without reviews. -/
abbrev reviewSystem (toLowerCase : String → String) (nextYear : Int → Int) :
    System ReviewConfig ReviewMove :=
  (reviewProgram toLowerCase nextYear).system fun store => store.reviews = []

inductive ReviewRow
  | review (id : String)
  | document (id : String)
deriving DecidableEq

/-- The rows a rejection has written. -/
def Recording.rows (recording : Recording) (archived : Bool) (cancels : List String) :
    List ReviewRow :=
  .review recording.id ::
    ((if archived then [.document recording.documentId] else []) ++ cancels.map .review)

def ReviewProcess.holds : ReviewProcess → List ReviewRow
  | .recordArchive recording | .recordArchiveRow recording | .recordVersion recording _ =>
      recording.rows false []
  | .recordClose recording archived _ => recording.rows archived []
  | .recordCloseRows recording closing _ | .recordCommit recording closing _ =>
      recording.rows closing.archived closing.cancels
  | .publishCommit documentId .. | .setStatusCommit documentId _ => [.document documentId]
  | _ => []

/-- The rows of a document and of its reviews. -/
def ReviewStore.rowsOf (store : ReviewStore) (documentId : String) : List ReviewRow :=
  .document documentId ::
    (store.reviews.filter (·.documentId = documentId)).map (.review ·.id)

def reviewLocks : Concurrent.Locks ReviewStore ReviewProcess ReviewRow where
  holds := ReviewProcess.holds
  wants store process := match process with
    | .recordUpdate recording => [.review recording.id]
    | .recordArchiveRow recording => [.document recording.documentId]
    | .recordCloseRows _ _ (id :: _) => [.review id]
    | .publishWithReview documentId .. | .setStatus documentId _ | .restoreFromTrash documentId =>
        [.document documentId]
    | .removeByModerator documentId | .remove documentId => store.rowsOf documentId
    | .attachEvidenceUpdate id _ => [.review id]
    | .overdueNotified ids before =>
        (store.reviews.filter (isOverdueNotified store ids before)).map (.review ·.id)
    | _ => []

/-! ## What a decision leaves -/

/-- The columns of the decision are the same. -/
structure DocumentReview.SameDecision (before after : DocumentReview) : Prop where
  status : after.status = before.status
  decisionComment : after.decisionComment = before.decisionComment
  decidedBy : after.decidedBy = before.decidedBy
  decidedAt : after.decidedAt = before.decidedAt

theorem DocumentReview.SameDecision.refl (review : DocumentReview) : review.SameDecision review :=
  ⟨rfl, rfl, rfl, rfl⟩

/-- The commit of a rejection, from what its statements have done. -/
structure ReviewStore.Rejected (store : ReviewStore) (recording : Recording) (closing : Closing) :
    Prop where
  document : ∀ document ∈ store.documents, document.id = recording.documentId →
    document.status = .archived ∨ document.deletedAt ≠ none ∨
      closing.seen < store.statusChanges.count recording.documentId
  reviews : ∀ review ∈ store.reviews, review.id ∈ closing.candidates →
    review.status = .cancelled ∨ (review.id ∈ closing.passed ∧ review.status.isOpen = false)

/-- A step of a run: the configuration before it, and the move. -/
abbrev ReviewStep : Type := ReviewConfig × ReviewMove

/-- The moves of a request and of all others; none starts another request under its name. -/
def reviewMoves (name : Nat) (config : ReviewConfig) (move : ReviewMove) : Prop :=
  reviewLocks.Free config move ∧ ∀ process, move ≠ .start name process

/-- The archive statement of a rejection runs: it finds no row, or has waited for the one it
found. -/
inductive Recording.Archives (recording : Recording) (store : ReviewStore) : ReviewProcess → Prop
  | none (hactive : store.isActive recording.documentId = false) :
      recording.Archives store (.recordArchive recording)
  | row : recording.Archives store (.recordArchiveRow recording)

/-- What the commit of a rejection leaves, with the configurations in which its archive and closing
statements ran. The document is archived or deleted unless another writer has changed its status
since the archive statement. Another review of the document that was open when the closing
statement started is cancelled, unless it was closed already when the statement got to its row. -/
structure RejectionLeaves (name : Nat) (recording : Recording) (archiving closing : ReviewConfig)
    (steps : List ReviewStep) (after : ReviewStore) : Prop where
  own : ∀ review ∈ after.reviews, review.id = recording.id →
    review.documentId = recording.documentId ∧ review.status = .rejected
  archives : ∃ place, archiving.processes name = some place ∧
    recording.Archives archiving.store place
  closes : ∃ archived seen, closing.processes name = some (.recordClose recording archived seen)
  order : ∃ first second,
    [(archiving, .advance name first), (closing, .advance name second)].Sublist steps
  document : ∀ document ∈ after.documents, document.id = recording.documentId →
    document.status = .archived ∨ document.deletedAt ≠ none ∨
      archiving.store.statusChanges.count recording.documentId <
        after.statusChanges.count recording.documentId
  reviews : ∀ review ∈ closing.store.reviews, review.documentId = recording.documentId →
    review.id ≠ recording.id → review.status.isOpen = true →
    ∀ left ∈ after.reviews, left.id = review.id → left.status = .cancelled ∨
      left.status.isOpen = false ∧ ∃ reached choice before todo,
        (reached, .advance name choice) ∈ steps ∧
        reached.processes name = some (.recordCloseRows recording before (review.id :: todo)) ∧
        ∀ row ∈ reached.store.reviews, row.id = review.id → row.status.isOpen = false

end IsmsPortal
