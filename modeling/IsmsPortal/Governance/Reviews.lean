import IsmsPortal.Access.Listing
import IsmsPortal.Foundation.Checks
import IsmsPortal.Foundation.JsString
import IsmsPortal.Foundation.Query

/-! # Who decides document reviews

A review names an owner, a reviewer and an approver; reviews that a publication or
the scheduler creates are automatic. A decision is sent to the governance endpoint,
behind a guard for administrators and moderators, or to the review inbox, which
has no guard and checks the participants itself. The list of the inbox tells for
each review whether the user can decide it.
-/

namespace IsmsPortal

open Foundation

inductive DocumentReviewStatus
  | pending
  | inReview
  | approved
  | rejected
  | cancelled
deriving DecidableEq

/-- `PENDING` or `IN_REVIEW`. -/
def DocumentReviewStatus.isOpen : DocumentReviewStatus → Bool
  | .pending | .inReview => true
  | .approved | .rejected | .cancelled => false

/-- A row of `DocumentReview`. -/
structure DocumentReview where
  id : String
  documentId : String
  versionId : Option String
  owner : String
  reviewer : String
  approver : String
  status : DocumentReviewStatus
  dueAt : Int
  decisionComment : Option String
  decidedBy : Option String
  decidedAt : Option Int
  evidenceObjectKey : Option String
  automaticAnnual : Bool
  automaticPublication : Bool
  overdueNotifiedAt : Option Int
  createdAt : Int
deriving DecidableEq

/-- The `status` of a decision. -/
inductive ReviewDecisionStatus
  | inReview
  | approved
  | rejected
  | cancelled
deriving DecidableEq

def ReviewDecisionStatus.recorded : ReviewDecisionStatus → DocumentReviewStatus
  | .inReview => .inReview
  | .approved => .approved
  | .rejected => .rejected
  | .cancelled => .cancelled

/-- `body.status !== "IN_REVIEW"`. -/
def ReviewDecisionStatus.closes : ReviewDecisionStatus → Bool
  | .inReview => false
  | .approved | .rejected | .cancelled => true

structure ReviewDecisionDto where
  status : ReviewDecisionStatus
  comment : String
deriving DecidableEq

/-- The refusals of the endpoints, with their messages. -/
inductive ReviewError
  | notFound
  | forbidden (message : String)
  | conflict (message : String)
deriving DecidableEq

/-! ## The endpoints -/

/-- `AdminGuard` for a handler marked `ApproverOnly`. -/
def approverGuard (groups : List String) : Except ReviewError Unit := do
  if isAdminIdentity groups = false ∧ isModeratorIdentity groups = false then
    throw (.forbidden "Forbidden")

/-- A review with a decision. -/
def DocumentReview.decided (now : Int) (actor : String) (body : ReviewDecisionDto)
    (row : DocumentReview) : DocumentReview :=
  { row with
    status := body.status.recorded
    decisionComment := some (JsString.trim body.comment)
    decidedBy := if body.status.closes then some actor else none
    decidedAt := if body.status.closes then some now else none }

/-- The first statement of `recordReviewDecision`: its condition selects open reviews. -/
def recordDecision (now : Int) (actor : String) (body : ReviewDecisionDto)
    (row : DocumentReview) : Except ReviewError DocumentReview := do
  if row.status.isOpen = false then throw (.conflict "Review already closed")
  return row.decided now actor body

section Endpoints

variable (toLowerCase : String → String) (identity : Identity)

/-- The checks of `GovernanceController.decideReview` on the review it has read. -/
def checkDecideReview (found : Option DocumentReview) : Except ReviewError DocumentReview := do
  let some existing := found | throw .notFound
  if existing.status.isOpen = false then throw (.conflict "Review is already closed")
  if toLowerCase existing.owner = toLowerCase identity.username then
    throw (.forbidden "The owner cannot approve their own review")
  return existing

/-- A moderator decides automatic reviews, and those that name the moderator as approver. -/
def moderatorDecides (review : DocumentReview) : Bool :=
  isModeratorIdentity identity.groups && (review.automaticAnnual || review.automaticPublication ||
    toLowerCase review.approver = toLowerCase identity.username)

/-- The checks of `ReviewInboxController.decide` on the review it has read. -/
def checkInboxDecide (body : ReviewDecisionDto) (found : Option DocumentReview) :
    Except ReviewError DocumentReview := do
  let some item := found | throw .notFound
  if isAdminIdentity identity.groups = false ∧ moderatorDecides toLowerCase identity item = false ∧
      ¬(body.status = .inReview ∧
        toLowerCase item.reviewer = toLowerCase identity.username) then
    throw (.forbidden "Forbidden")
  if toLowerCase identity.username = toLowerCase item.owner then
    throw (.forbidden "The owner cannot approve their own review")
  return item

/-- `GovernanceController.decideReview` behind its guard, on a row that stays as it is. -/
def decideReview (now : Int) (body : ReviewDecisionDto) (found : Option DocumentReview) :
    Except ReviewError DocumentReview := do
  approverGuard identity.groups
  let existing ← checkDecideReview toLowerCase identity found
  recordDecision now identity.username body existing

/-- `ReviewInboxController.decide`, on a row that stays as it is. -/
def inboxDecide (now : Int) (body : ReviewDecisionDto) (found : Option DocumentReview) :
    Except ReviewError DocumentReview := do
  let item ← checkInboxDecide toLowerCase identity body found
  recordDecision now identity.username body item

/-- The flag of the list. -/
def canDecide (review : DocumentReview) : Bool :=
  toLowerCase review.owner ≠ toLowerCase identity.username &&
    (isAdminIdentity identity.groups || moderatorDecides toLowerCase identity review)

/-- The condition of the list; the period is a condition on the creation date. -/
def isListed (equalsInsensitive : String → String → Bool) (period : Int → Bool)
    (review : DocumentReview) : Bool :=
  period review.createdAt && (isAdminIdentity identity.groups ||
    (isModeratorIdentity identity.groups &&
      (review.automaticAnnual || review.automaticPublication)) ||
    equalsInsensitive review.owner identity.username ||
    equalsInsensitive review.reviewer identity.username ||
    equalsInsensitive review.approver identity.username)

/-- `ReviewInboxController.list`: the latest 200 reviews with their flags. -/
def inboxList (equalsInsensitive : String → String → Bool) (period : Int → Bool)
    (reviews : List DocumentReview) : List (DocumentReview × Bool) :=
  (Query.findMany (isListed identity equalsInsensitive period)
    (fun left right => right.createdAt ≤ left.createdAt) 200 reviews).map fun review =>
      (review, canDecide toLowerCase identity review)

end Endpoints

def Accepted (answer : Except ReviewError DocumentReview) : Prop := ∃ review, answer = .ok review

/-! ## What each of them accepts -/

section Acceptance

variable {toLowerCase : String → String} {identity : Identity} {now : Int}
variable {body : ReviewDecisionDto} {review : DocumentReview}

/-- The user owns the review. -/
def IsOwner (toLowerCase : String → String) (identity : Identity) (review : DocumentReview) :
    Prop :=
  toLowerCase review.owner = toLowerCase identity.username

theorem recordDecision_accepted {actor : String} :
    Accepted (recordDecision now actor body review) ↔ review.status.isOpen = true := by
  unfold Accepted recordDecision
  simp only [Checks.accepts_if, Checks.accepts_pure, exists_and_left, exists_eq', and_true,
    Bool.not_eq_false]

theorem approverGuard_accepts {groups : List String} :
    approverGuard groups = .ok () ↔
      isAdminIdentity groups = true ∨ isModeratorIdentity groups = true := by
  unfold approverGuard
  cases isAdminIdentity groups <;> cases isModeratorIdentity groups <;>
    simp [throw, throwThe, MonadExceptOf.throw, pure, Except.pure]

theorem checkDecideReview_accepts {found : Option DocumentReview} {existing : DocumentReview} :
    checkDecideReview toLowerCase identity found = .ok existing ↔
      found = some existing ∧ existing.status.isOpen = true ∧
        ¬IsOwner toLowerCase identity existing := by
  unfold checkDecideReview IsOwner
  cases found with
  | none => simp [Checks.not_accepts_throw]
  | some review =>
      simp only [Checks.accepts_if, Checks.accepts_pure, Option.some.injEq, Bool.not_eq_false]
      constructor
      · rintro ⟨hopen, howner, rfl⟩
        exact ⟨rfl, hopen, howner⟩
      · rintro ⟨rfl, hopen, howner⟩
        exact ⟨hopen, howner, rfl⟩

/-- What the inbox lets a user decide. -/
def InboxAllows (toLowerCase : String → String) (identity : Identity) (body : ReviewDecisionDto)
    (review : DocumentReview) : Prop :=
  isAdminIdentity identity.groups = true ∨ moderatorDecides toLowerCase identity review = true ∨
    (body.status = .inReview ∧ toLowerCase review.reviewer = toLowerCase identity.username)

theorem checkInboxDecide_accepts {found : Option DocumentReview} {item : DocumentReview} :
    checkInboxDecide toLowerCase identity body found = .ok item ↔
      found = some item ∧ InboxAllows toLowerCase identity body item ∧
        ¬IsOwner toLowerCase identity item := by
  unfold checkInboxDecide InboxAllows IsOwner
  cases found with
  | none => simp [Checks.not_accepts_throw]
  | some review =>
      simp only [Checks.accepts_if, Checks.accepts_pure, Option.some.injEq]
      constructor
      · rintro ⟨hallowed, howner, rfl⟩
        refine ⟨rfl, ?_, fun heq => howner heq.symm⟩
        by_contra hnone
        simp only [not_or, Bool.not_eq_true] at hnone
        exact hallowed hnone
      · rintro ⟨rfl, hallowed, howner⟩
        refine ⟨?_, fun heq => howner heq.symm, rfl⟩
        rintro ⟨hadmin, hmoderator, hreviewer⟩
        simp [hadmin, hmoderator, hreviewer] at hallowed

theorem accepted_bind {α : Type} {first : Except ReviewError α}
    {rest : α → Except ReviewError DocumentReview} :
    Accepted (first >>= rest) ↔ ∃ value, first = .ok value ∧ Accepted (rest value) := by
  unfold Accepted
  simp only [Checks.accepts_bind]
  constructor
  · rintro ⟨result, value, hfirst, hrest⟩
    exact ⟨value, hfirst, result, hrest⟩
  · rintro ⟨value, hfirst, result, hrest⟩
    exact ⟨result, value, hfirst, hrest⟩

theorem decideReview_accepted :
    Accepted (decideReview toLowerCase identity now body (some review)) ↔
      (isAdminIdentity identity.groups = true ∨ isModeratorIdentity identity.groups = true) ∧
        review.status.isOpen = true ∧ ¬IsOwner toLowerCase identity review := by
  unfold decideReview
  simp only [accepted_bind, checkDecideReview_accepts, recordDecision_accepted]
  constructor
  · rintro ⟨_, hguard, existing, ⟨hsame, hopen, howner⟩, -⟩
    cases hsame
    exact ⟨approverGuard_accepts.mp hguard, hopen, howner⟩
  · rintro ⟨hguard, hopen, howner⟩
    exact ⟨(), approverGuard_accepts.mpr hguard, review, ⟨rfl, hopen, howner⟩, hopen⟩

theorem inboxDecide_accepted :
    Accepted (inboxDecide toLowerCase identity now body (some review)) ↔
      InboxAllows toLowerCase identity body review ∧
        review.status.isOpen = true ∧ ¬IsOwner toLowerCase identity review := by
  unfold inboxDecide
  simp only [accepted_bind, checkInboxDecide_accepts, recordDecision_accepted]
  constructor
  · rintro ⟨item, ⟨hsame, hallowed, howner⟩, hopen⟩
    cases hsame
    exact ⟨hallowed, hopen, howner⟩
  · rintro ⟨hallowed, hopen, howner⟩
    exact ⟨review, ⟨rfl, hallowed, howner⟩, hopen⟩

theorem canDecide_eq_true :
    canDecide toLowerCase identity review = true ↔
      (isAdminIdentity identity.groups = true ∨
        moderatorDecides toLowerCase identity review = true) ∧
        ¬IsOwner toLowerCase identity review := by
  simp only [canDecide, IsOwner, Bool.and_eq_true, Bool.or_eq_true, decide_eq_true_eq, ne_eq]
  exact and_comm

end Acceptance

/-! ## Where they agree -/

section Agreement

variable (toLowerCase : String → String) (equalsInsensitive : String → String → Bool)
variable (identity : Identity) (now : Int) (body : ReviewDecisionDto) (review : DocumentReview)

/-- The endpoints accept the same decisions, and every list that has the review
shows a flag that says whether they accept a closing one. -/
structure EndpointsAgree : Prop where
  endpoints : Accepted (decideReview toLowerCase identity now body (some review)) ↔
    Accepted (inboxDecide toLowerCase identity now body (some review))
  flag : body.status.closes = true → ∀ period reviews shown,
    (review, shown) ∈ inboxList toLowerCase identity equalsInsensitive period reviews →
      (shown = true ↔ Accepted (decideReview toLowerCase identity now body (some review))) ∧
      (shown = true ↔ Accepted (inboxDecide toLowerCase identity now body (some review)))

/-- The reviewer takes the review up. -/
def TakesUp : Prop :=
  body.status = .inReview ∧ toLowerCase review.reviewer = toLowerCase identity.username

/-- The decisions on which nothing distinguishes the endpoints. A moderator who is no
administrator does not decide an open manual review that names another approver,
unless to take it up as its reviewer; a reviewer without a role does not take an
open review up; and nobody closes a listed review that is closed and flagged. -/
structure Concordant : Prop where
  moderator : isAdminIdentity identity.groups = false →
    isModeratorIdentity identity.groups = true → review.status.isOpen = true →
    ¬IsOwner toLowerCase identity review → moderatorDecides toLowerCase identity review = true ∨
      TakesUp toLowerCase identity body review
  reviewer : isAdminIdentity identity.groups = false →
    isModeratorIdentity identity.groups = false → review.status.isOpen = true →
    ¬IsOwner toLowerCase identity review → ¬TakesUp toLowerCase identity body review
  closed : body.status.closes = true → review.status.isOpen = false →
    isListed identity equalsInsensitive (fun _ => true) review = true →
    canDecide toLowerCase identity review = false

end Agreement

section Agreement

variable {toLowerCase : String → String} {equalsInsensitive : String → String → Bool}
variable {identity : Identity} {now : Int} {body : ReviewDecisionDto} {review : DocumentReview}

theorem moderator_of_moderatorDecides
    (hdecides : moderatorDecides toLowerCase identity review = true) :
    isModeratorIdentity identity.groups = true := by
  unfold moderatorDecides at hdecides
  exact (Bool.and_eq_true_iff.mp hdecides).1

/-- A listed review, with its flag. -/
theorem mem_inboxList {period : Int → Bool} {reviews : List DocumentReview} {shown : Bool}
    (hlisted : (review, shown) ∈
      inboxList toLowerCase identity equalsInsensitive period reviews) :
    isListed identity equalsInsensitive (fun _ => true) review = true ∧
      shown = canDecide toLowerCase identity review := by
  obtain ⟨row, hrow, hpair⟩ := List.mem_map.mp hlisted
  cases hpair
  have hwhere := (Query.mem_findMany hrow).2
  unfold isListed at hwhere ⊢
  exact ⟨(Bool.and_eq_true_iff.mp hwhere).2, rfl⟩

/-- The list of a table with one review. -/
theorem mem_inboxList_singleton
    (hlisted : isListed identity equalsInsensitive (fun _ => true) review = true) :
    (review, canDecide toLowerCase identity review) ∈
      inboxList toLowerCase identity equalsInsensitive (fun _ => true) [review] := by
  unfold inboxList Query.findMany
  rw [List.filter_cons_of_pos hlisted]
  simp

/-- The endpoints accept the same decisions unless a role distinguishes them. -/
theorem decideReview_iff_inboxDecide :
    (Accepted (decideReview toLowerCase identity now body (some review)) ↔
      Accepted (inboxDecide toLowerCase identity now body (some review))) ↔
    (review.status.isOpen = true → ¬IsOwner toLowerCase identity review →
      ((isAdminIdentity identity.groups = true ∨ isModeratorIdentity identity.groups = true) ↔
        InboxAllows toLowerCase identity body review)) := by
  rw [decideReview_accepted, inboxDecide_accepted, and_congr_left_iff, and_imp]

/-- The flag says what the inbox accepts of closing decisions, on reviews that are open. -/
theorem canDecide_iff_inboxDecide (hcloses : body.status.closes = true)
    (hclosed : review.status.isOpen = false → canDecide toLowerCase identity review = false) :
    canDecide toLowerCase identity review = true ↔
      Accepted (inboxDecide toLowerCase identity now body (some review)) := by
  have hnotTaken : ¬TakesUp toLowerCase identity body review := by
    rintro ⟨hstatus, -⟩
    rw [hstatus] at hcloses
    cases hcloses
  rw [inboxDecide_accepted]
  constructor
  · intro hflag
    obtain ⟨hrole, howner⟩ := canDecide_eq_true.mp hflag
    refine ⟨hrole.imp_right .inl, ?_, howner⟩
    by_contra hnot
    rw [hclosed (Bool.not_eq_true _ ▸ hnot)] at hflag
    cases hflag
  · rintro ⟨hallowed, -, howner⟩
    refine canDecide_eq_true.mpr ⟨?_, howner⟩
    exact hallowed.imp_right fun hrole => hrole.resolve_right hnotTaken

/-- **Review authority.** The two endpoints and the flag of the inbox agree on a decision
if and only if it is a concordant one. -/
theorem review_endpoints_agree_iff :
    EndpointsAgree toLowerCase equalsInsensitive identity now body review ↔
      Concordant toLowerCase equalsInsensitive identity body review := by
  constructor
  · intro hagree
    have hroles := decideReview_iff_inboxDecide.mp hagree.endpoints
    constructor
    · intro hadmin hmoderator hopen howner
      have hallowed := (hroles hopen howner).mp (.inr hmoderator)
      exact hallowed.resolve_left (by simp [hadmin])
    · intro hadmin hmoderator hopen howner htakes
      have hrole := (hroles hopen howner).mpr (.inr (.inr htakes))
      simp [hadmin, hmoderator] at hrole
    · intro hcloses hclosed hlisted
      have hflag := (hagree.flag hcloses _ _ _ (mem_inboxList_singleton hlisted)).1
      rw [decideReview_accepted, hclosed] at hflag
      simpa using hflag
  · intro hconcordant
    have hendpoints : Accepted (decideReview toLowerCase identity now body (some review)) ↔
        Accepted (inboxDecide toLowerCase identity now body (some review)) := by
      apply decideReview_iff_inboxDecide.mpr
      intro hopen howner
      unfold InboxAllows
      cases hadmin : isAdminIdentity identity.groups with
      | true => simp
      | false =>
          cases hmoderator : isModeratorIdentity identity.groups with
          | true =>
              exact ⟨fun _ => .inr (hconcordant.moderator hadmin hmoderator hopen howner),
                fun _ => .inr rfl⟩
          | false =>
              have hnot := hconcordant.reviewer hadmin hmoderator hopen howner
              constructor
              · simp
              · rintro (hfalse | hdecides | htakes)
                · cases hfalse
                · rw [moderator_of_moderatorDecides hdecides] at hmoderator
                  cases hmoderator
                · exact absurd htakes hnot
    refine ⟨hendpoints, fun hcloses period reviews shown hshown => ?_⟩
    obtain ⟨hlisted, rfl⟩ := mem_inboxList hshown
    rw [hendpoints]
    refine ⟨?_, ?_⟩ <;> exact canDecide_iff_inboxDecide hcloses fun hclosed =>
      hconcordant.closed hcloses hclosed hlisted

end Agreement

/-- A review that Carol is to approve. -/
def reviewForCarol : DocumentReview :=
  ⟨"review", "policy", none, "alice", "bob", "carol", .pending, 0, none, none, none, none, false,
    false, none, 0⟩

/-- Mona, a moderator, is no participant: the governance endpoint records her approval,
the inbox forbids it. -/
theorem moderator_decides_for_approver :
    ¬EndpointsAgree String.toLower (· == ·) ⟨"mona", ["ISMS-MODERATOR-MANAGE"]⟩ 0
      ⟨.approved, "Reviewed"⟩ reviewForCarol := by
  intro hagree
  have hgovernance : Accepted (decideReview String.toLower ⟨"mona", ["ISMS-MODERATOR-MANAGE"]⟩ 0
      ⟨.approved, "Reviewed"⟩ (some reviewForCarol)) :=
    decideReview_accepted.mpr ⟨.inr (by decide), rfl, by
      unfold IsOwner
      decide +kernel⟩
  obtain ⟨recorded, hinbox⟩ := hagree.endpoints.mp hgovernance
  have hforbidden : inboxDecide String.toLower ⟨"mona", ["ISMS-MODERATOR-MANAGE"]⟩ 0
      ⟨.approved, "Reviewed"⟩ (some reviewForCarol) = .error (.forbidden "Forbidden") := by
    decide +kernel
  rw [hforbidden] at hinbox
  cases hinbox

end IsmsPortal
