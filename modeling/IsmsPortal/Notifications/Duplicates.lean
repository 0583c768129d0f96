import IsmsPortal.Governance.Closing
import IsmsPortal.Notifications.Outbox
import Mathlib.Data.List.Dedup

/-! # Jobs of review requests

`createReview` and `decideReview` record an audit event, which the outbox turns into a job
under the id of the event. A creation and a decision that closes the review then add a job
themselves, under an id with the review in it. `notify: false` would keep the event out of the
outbox; neither request passes it.
-/

namespace IsmsPortal

open Foundation

/-- The ids that the database gives to events. -/
def isEventId (text : String) : Bool :=
  text.length = 36 && text.toList.all fun c => c.isDigit || ('a' ≤ c && c ≤ 'f') || c = '-'

/-- A request that has got as far as its audit event. -/
inductive ReviewRequest
  | createReview (id : String)
  | decideReview (id : String) (status : ReviewDecisionStatus)
deriving DecidableEq

namespace ReviewRequest

def action : ReviewRequest → String
  | .createReview _ => "document-review.create"
  | .decideReview .. => "document-review.decision"

def reviewId : ReviewRequest → String
  | .createReview id | .decideReview id _ => id

def resource (request : ReviewRequest) : String := "document-review:" ++ request.reviewId

/-- The id of the job that the request adds itself. -/
def direct : ReviewRequest → Option String
  | .createReview id => some ("document-review-create-" ++ id)
  | .decideReview id status =>
      if status.closes then some ("document-review-decision-" ++ id) else none

end ReviewRequest

/-- The audit event of a request. -/
structure ReviewEvent where
  request : ReviewRequest
  eventId : String
deriving DecidableEq

/-- The reviews, the outbox with the queue, all jobs that were ever added, the events of the
requests, and the requests that have yet to add a job. -/
structure ReviewMailStore where
  reviews : ReviewStore
  outbox : OutboxStore
  added : MailQueue
  events : List ReviewEvent
  owed : List ReviewRequest
deriving DecidableEq

inductive ReviewMailProcess
  | createReview (actor : String) (draft : ReviewDraft)
  | createReviewRow (actor : String) (draft : ReviewDraft)
  | decideReview (identity : Identity) (id : String) (body : ReviewDecisionDto)
  | recordReviewDecision (actor id documentId : String) (body : ReviewDecisionDto)
  | record (actor : String) (request : ReviewRequest)
  | enqueue (actor : String) (request : ReviewRequest)
  | outbox (process : OutboxProcess)
deriving DecidableEq

/-- The ids of a new review and of a new event, the settings of mails, and what the calls of
the outbox meet. -/
structure ReviewMailChoice where
  reviewId : String
  eventId : String
  policy : DocumentAlertPolicy
  outbox : OutboxChoice

namespace ReviewMailStore

variable (store : ReviewMailStore)

/-- The outbox after a statement, with the jobs that it added. -/
def withOutbox (outbox : OutboxStore) : ReviewMailStore where
  __ := store
  outbox := outbox
  added := store.added ++ outbox.queue.filter (· ∉ store.outbox.queue)

/-- `audit.record` of a request. -/
def recordEvent (actor eventId : String) (request : ReviewRequest) : ReviewMailStore where
  __ := store.withOutbox (store.outbox.createRow request.action request.resource actor eventId)
  events := store.events ++ [⟨request, eventId⟩]
  owed := if request.direct.isSome then request :: store.owed else store.owed

/-- The job that a request adds itself. -/
def enqueueDirect (policy : DocumentAlertPolicy) (actor id : String) (request : ReviewRequest) :
    ReviewMailStore where
  __ := store.withOutbox { store.outbox with
    queue := enqueue policy store.outbox.queue
      ⟨request.action, request.resource, actor, store.outbox.clock, none, none⟩ id }
  owed := store.owed.filter (· ≠ request)

/-- `recordReviewDecision`, in one transaction. -/
def recordReviewDecision (nextYear : Int → Int) (actor documentId : String)
    (body : ReviewDecisionDto) (review : DocumentReview) : ReviewMailStore where
  __ := store
  reviews := store.reviews.commit nextYear
    ⟨review.id, documentId, body, actor, store.reviews.clock⟩
    (if body.status = .rejected then
      ⟨store.reviews.isActive documentId, 0, store.reviews.openBeside documentId review.id,
        store.reviews.openBeside documentId review.id, []⟩
    else .nothing)
    (if body.status = .approved ∧ (review.automaticAnnual || review.automaticPublication) = true
      then review.versionId else none)

end ReviewMailStore

section Program

variable (toLowerCase : String → String) (nextYear : Int → Int)
variable (idOrder : String → String → Bool)

/-- Run the next statement. The archived document of a rejection is recorded too; its action
is not notified. -/
def reviewMailAdvance (choice : ReviewMailChoice) (store : ReviewMailStore) :
    ReviewMailProcess → Option (Option ReviewMailProcess × ReviewMailStore)
  | .createReview actor draft =>
      some ((checkCreateReview toLowerCase store.reviews draft).toOption.map fun _ =>
        .createReviewRow actor draft.manual, store)
  | .createReviewRow actor draft =>
      (store.reviews.createReviews [choice.reviewId] [draft]).map fun reviews =>
        (some (.record actor (.createReview choice.reviewId)), { store with reviews })
  | .decideReview identity id body =>
      some ((approverGuard identity.groups >>= fun _ =>
        checkDecideReview toLowerCase identity (store.reviews.find id)).toOption.map fun existing =>
          .recordReviewDecision identity.username id existing.documentId body, store)
  | .recordReviewDecision actor id documentId body =>
      match store.reviews.find id with
      | none => some (none, store)
      | some review =>
          if review.status.isOpen then
            some (some (.record actor (.decideReview review.id body.status)),
              store.recordReviewDecision nextYear actor documentId body review)
          else some (none, store)
  | .record actor request =>
      if isEventId choice.eventId = true ∧ choice.eventId ∉ store.outbox.created then
        some (request.direct.map fun _ => .enqueue actor request,
          store.recordEvent actor choice.eventId request)
      else none
  | .enqueue actor request =>
      request.direct.map fun id => (none, store.enqueueDirect choice.policy actor id request)
  | .outbox process =>
      (outboxAdvance idOrder choice.outbox store.outbox process).map fun result =>
        (result.1.map .outbox, store.withOutbox result.2)

/-- Passes of the outbox run beside the requests, and the queue forgets ended jobs. -/
def ReviewMailProcess.initial : ReviewMailProcess → Bool
  | .createReview .. | .decideReview .. | .outbox .dispatchOutbox | .outbox (.forgetJobs _) => true
  | _ => false

def reviewMailProgram : Concurrent ReviewMailStore ReviewMailProcess ReviewMailChoice where
  drift time store :=
    if store.outbox.clock ≤ time then
      some { store with outbox := { store.outbox with clock := time },
                        reviews := { store.reviews with clock := time } }
    else none
  start := ReviewMailProcess.initial
  advance _ := reviewMailAdvance toLowerCase nextYear idOrder

abbrev ReviewMailConfig : Type := Concurrent.Config ReviewMailStore ReviewMailProcess

abbrev ReviewMailMove : Type := Concurrent.Move ReviewMailProcess ReviewMailChoice

/-- No request has got to its event. -/
def ReviewMailStore.Initial (store : ReviewMailStore) : Prop :=
  store.outbox.Initial ∧ store.added = [] ∧ store.events = [] ∧ store.owed = []

abbrev reviewMailSystem : System ReviewMailConfig ReviewMailMove :=
  (reviewMailProgram toLowerCase nextYear idOrder).system ReviewMailStore.Initial

end Program

/-- The ids of the jobs that were added for an action and a resource. -/
def ReviewMailStore.jobIds (store : ReviewMailStore) (action resource : String) : List String :=
  ((store.added.filter fun job => job.2.action = action ∧ job.2.resource = resource).map
    Prod.fst).dedup

/-- The events of the requests with this action and resource. -/
def ReviewMailStore.eventsOf (store : ReviewMailStore) (action resource : String) :
    List ReviewEvent :=
  store.events.filter fun event => event.request.action = action ∧ event.request.resource = resource

/-! ## Ids -/

theorem not_isEventId_of_mem {text : String} (hmem : 'o' ∈ text.toList) :
    isEventId text = false := by
  rw [← Bool.not_eq_true]
  intro huuid
  rw [isEventId, Bool.and_eq_true, List.all_eq_true] at huuid
  exact absurd (huuid.2 'o' hmem) (by decide)

namespace ReviewRequest

/-- A job that a request adds has no id of an event. -/
theorem not_isEventId_direct {request : ReviewRequest} {id : String}
    (hdirect : request.direct = some id) : isEventId id = false := by
  apply not_isEventId_of_mem
  cases request with
  | createReview reviewId =>
      cases hdirect
      rw [String.toList_append]
      exact List.mem_append_left _ (by decide)
  | decideReview reviewId status =>
      simp only [direct] at hdirect
      split at hdirect <;> cases hdirect
      rw [String.toList_append]
      exact List.mem_append_left _ (by decide)

theorem create_ne_decision (first second : String) :
    "document-review-create-" ++ first ≠ "document-review-decision-" ++ second := by
  intro heq
  have htake := congrArg (fun text => text.toList.take 17) heq
  simp only [String.toList_append] at htake
  rw [List.take_append_of_le_length (by decide),
    List.take_append_of_le_length (by decide)] at htake
  exact absurd htake (by decide)

/-- The id of a job that a request adds tells the action and the resource. -/
theorem eq_of_direct {first second : ReviewRequest} {id : String}
    (hfirst : first.direct = some id) (hsecond : second.direct = some id) :
    first.action = second.action ∧ first.resource = second.resource := by
  cases first with
  | createReview reviewId =>
      cases hfirst
      cases second with
      | createReview reviewId' =>
          simp only [direct, Option.some.injEq, String.append_right_inj] at hsecond
          rw [hsecond]
          exact ⟨rfl, rfl⟩
      | decideReview reviewId' status =>
          simp only [direct] at hsecond
          split at hsecond
          · exact absurd (Option.some.inj hsecond).symm (create_ne_decision _ _)
          · cases hsecond
  | decideReview reviewId status =>
      simp only [direct] at hfirst
      split at hfirst <;> cases hfirst
      cases second with
      | createReview reviewId' =>
          exact absurd (Option.some.inj hsecond) (create_ne_decision _ _)
      | decideReview reviewId' status' =>
          simp only [direct] at hsecond
          split at hsecond
          · simp only [Option.some.injEq, String.append_right_inj] at hsecond
            subst hsecond
            exact ⟨rfl, rfl⟩
          · cases hsecond

theorem isNotified_action (request : ReviewRequest) : isNotified request.action = true := by
  have hcreate : isNotified "document-review.create" = true := by decide
  have hdecision : isNotified "document-review.decision" = true := by decide
  cases request with
  | createReview id => exact hcreate
  | decideReview id status => exact hdecision

theorem documentEventEnabled_action (policy : DocumentAlertPolicy) (request : ReviewRequest) :
    documentEventEnabled policy request.action = true := by
  cases request <;> simp [documentEventEnabled, action]

end ReviewRequest

/-! ## One statement -/

namespace ReviewMailStore

variable {store after : ReviewMailStore} {outbox : OutboxStore}

/-- A job was added under the id. -/
def Has (store : ReviewMailStore) (id : String) : Prop := ∃ job ∈ store.added, job.1 = id

/-- The row is that of an event. -/
def Known (store : ReviewMailStore) (row : OutboxRow) : Prop :=
  ∃ event ∈ store.events, event.eventId = row.id ∧
    event.request.action = row.payload.action ∧ event.request.resource = row.payload.resource

/-- The job is that of an event, through the outbox or of the request itself. -/
def Accounts (store : ReviewMailStore) (job : String × NotificationJob) : Prop :=
  ∃ event ∈ store.events, (job.1 = event.eventId ∨ event.request.direct = some job.1) ∧
    event.request.action = job.2.action ∧ event.request.resource = job.2.resource

/-- The jobs of the events. -/
structure Sound (store : ReviewMailStore) : Prop where
  created : ∀ event ∈ store.events, event.eventId ∈ store.outbox.created
  distinct : (store.events.map ReviewEvent.eventId).Nodup
  uuid : ∀ event ∈ store.events, isEventId event.eventId = true
  rows : ∀ row ∈ store.outbox.outbox, store.Known row
  kept : ∀ event ∈ store.events, ∃ row ∈ store.outbox.outbox, row.id = event.eventId
  jobs : ∀ job ∈ store.added, store.Accounts job
  queue : ∀ job ∈ store.outbox.queue, job ∈ store.added
  direct : ∀ event ∈ store.events, ∀ id, event.request.direct = some id →
    store.Has id ∨ event.request ∈ store.owed
  marked : ∀ row ∈ store.outbox.outbox, row.queuedAt ≠ none → store.Has row.id

/-- Events and jobs stay. -/
structure Later (store after : ReviewMailStore) : Prop where
  events : ∀ event ∈ store.events, event ∈ after.events
  added : ∀ job ∈ store.added, job ∈ after.added

theorem Later.has {id : String} (hlater : store.Later after) (hhas : store.Has id) :
    after.Has id := by
  obtain ⟨job, hjob, hid⟩ := hhas
  exact ⟨job, hlater.added job hjob, hid⟩

theorem Later.known {row : OutboxRow} (hlater : store.Later after) (hknown : store.Known row) :
    after.Known row := by
  obtain ⟨event, hevent, hrow⟩ := hknown
  exact ⟨event, hlater.events event hevent, hrow⟩

theorem Later.accounts {job : String × NotificationJob} (hlater : store.Later after)
    (haccounts : store.Accounts job) : after.Accounts job := by
  obtain ⟨event, hevent, hjob⟩ := haccounts
  exact ⟨event, hlater.events event hevent, hjob⟩

theorem mem_added_withOutbox {job : String × NotificationJob} :
    job ∈ (store.withOutbox outbox).added ↔
      job ∈ store.added ∨ job ∈ outbox.queue ∧ job ∉ store.outbox.queue := by
  simp [withOutbox]

theorem later_withOutbox (store : ReviewMailStore) (outbox : OutboxStore) :
    store.Later (store.withOutbox outbox) where
  events _ hevent := hevent
  added _ hjob := mem_added_withOutbox.mpr (.inl hjob)

/-- The queue has only jobs that were added. -/
theorem Sound.queue_withOutbox (hsound : store.Sound) :
    ∀ job ∈ outbox.queue, job ∈ (store.withOutbox outbox).added := by
  intro job hjob
  rw [mem_added_withOutbox]
  by_cases hold : job ∈ store.outbox.queue
  · exact .inl (hsound.queue job hold)
  · exact .inr ⟨hjob, hold⟩

/-- A job that is queued for an event is accounted for. -/
theorem accounts_enqueue {policy : DocumentAlertPolicy} {id : String}
    {job : NotificationJob} (hjob : store.Accounts (id, job)) :
    ∀ entry ∈ enqueue policy store.outbox.queue job id, entry ∉ store.outbox.queue →
      store.Accounts entry := by
  intro entry hentry hnew
  rcases @enqueue_cases store.outbox.queue job id policy with hsame | hadded
  · exact absurd (hsame ▸ hentry) hnew
  · rw [hadded, mem_addJob] at hentry
    rcases hentry with hold | ⟨rfl, -⟩
    · exact absurd hold hnew
    · exact hjob

/-- The id of a job that is queued is known. -/
theorem Sound.has_enqueue (hsound : store.Sound) {policy : DocumentAlertPolicy} {id : String}
    {job : NotificationJob} (hnotified : isNotified job.action = true)
    (henabled : documentEventEnabled policy job.action = true)
    (houtbox : outbox.queue = enqueue policy store.outbox.queue job id) :
    (store.withOutbox outbox).Has id := by
  obtain ⟨entry, hentry, hid⟩ := exists_addJob store.outbox.queue job id
  refine ⟨entry, hsound.queue_withOutbox entry ?_, hid⟩
  rw [houtbox, enqueue, hnotified, henabled]
  exact hentry

/-- A statement of the outbox that adds no rows. -/
theorem Sound.withOutbox (hsound : store.Sound)
    (hcreated : outbox.created = store.outbox.created)
    (hrows : ∀ row ∈ outbox.outbox, ∃ old ∈ store.outbox.outbox, row.id = old.id ∧
      row.payload = old.payload ∧
      (row.queuedAt = none ∨ old.queuedAt ≠ none ∨ (store.withOutbox outbox).Has row.id))
    (hids : outbox.outbox.map OutboxRow.id = store.outbox.outbox.map OutboxRow.id)
    (hjobs : ∀ job ∈ outbox.queue, job ∉ store.outbox.queue → store.Accounts job) :
    (store.withOutbox outbox).Sound := by
  have hlater := store.later_withOutbox outbox
  constructor
  · intro event hevent
    change event.eventId ∈ outbox.created
    rw [hcreated]
    exact hsound.created event hevent
  · exact hsound.distinct
  · exact hsound.uuid
  · intro row hrow
    obtain ⟨old, hold, hid, hpayload, -⟩ := hrows row hrow
    obtain ⟨event, hevent, hknown⟩ := hsound.rows old hold
    exact ⟨event, hevent, by rw [hid, hpayload]; exact hknown⟩
  · intro event hevent
    obtain ⟨row, hrow, hid⟩ := hsound.kept event hevent
    have hmem : row.id ∈ outbox.outbox.map OutboxRow.id := by
      rw [hids]
      exact List.mem_map_of_mem hrow
    obtain ⟨kept, hkept, hkeptId⟩ := List.mem_map.mp hmem
    exact ⟨kept, hkept, hkeptId.trans hid⟩
  · intro job hjob
    rcases mem_added_withOutbox.mp hjob with hold | ⟨hnew, hfresh⟩
    · exact hlater.accounts (hsound.jobs job hold)
    · exact hlater.accounts (hjobs job hnew hfresh)
  · exact hsound.queue_withOutbox
  · intro event hevent id hdirect
    exact (hsound.direct event hevent id hdirect).imp_left hlater.has
  · intro row hrow hqueued
    obtain ⟨old, hold, hid, -, hmark⟩ := hrows row hrow
    rcases hmark with hnone | hbefore | hhas
    · exact absurd hnone hqueued
    · rw [hid]
      exact hlater.has (hsound.marked old hold hbefore)
    · exact hhas

/-- The event of a request, with its row. -/
theorem Sound.recordEvent {actor eventId : String} {request : ReviewRequest}
    (hsound : store.Sound) (huuid : isEventId eventId = true)
    (hfresh : eventId ∉ store.outbox.created) :
    (store.recordEvent actor eventId request).Sound := by
  have hadded : ∀ job, job ∈ (store.recordEvent actor eventId request).added ↔
      job ∈ store.added := by
    intro job
    change job ∈ (store.withOutbox (store.outbox.createRow ..)).added ↔ _
    rw [mem_added_withOutbox]
    exact ⟨fun hjob => hjob.resolve_right fun hnew => hnew.2 hnew.1, .inl⟩
  have hlater : store.Later (store.recordEvent actor eventId request) :=
    ⟨fun _ hevent => List.mem_append_left _ hevent, fun job hjob => (hadded job).mpr hjob⟩
  constructor
  · intro event hevent
    rcases List.mem_append.mp hevent with hold | hnew
    · exact List.mem_append_left _ (hsound.created event hold)
    · rw [List.mem_singleton.mp hnew]
      exact List.mem_append_right _ (List.mem_singleton_self _)
  · apply Table.nodup_insert hsound.distinct
    intro other hother hid
    have hcreated := hsound.created other hother
    rw [hid] at hcreated
    exact hfresh hcreated
  · intro event hevent
    rcases List.mem_append.mp hevent with hold | hnew
    · exact hsound.uuid event hold
    · rw [List.mem_singleton.mp hnew]
      exact huuid
  · intro row hrow
    rcases List.mem_append.mp hrow with hold | hnew
    · exact hlater.known (hsound.rows row hold)
    · rw [List.mem_singleton.mp hnew]
      exact ⟨_, List.mem_append_right _ (List.mem_singleton_self _), rfl, rfl, rfl⟩
  · intro event hevent
    rcases List.mem_append.mp hevent with hold | hnew
    · obtain ⟨row, hrow, hid⟩ := hsound.kept event hold
      exact ⟨row, List.mem_append_left _ hrow, hid⟩
    · rw [List.mem_singleton.mp hnew]
      exact ⟨_, List.mem_append_right _ (List.mem_singleton_self _), rfl⟩
  · intro job hjob
    exact hlater.accounts (hsound.jobs job ((hadded job).mp hjob))
  · intro job hjob
    exact (hadded job).mpr (hsound.queue job hjob)
  · intro event hevent id hdirect
    rcases List.mem_append.mp hevent with hold | hnew
    · refine (hsound.direct event hold id hdirect).imp hlater.has fun howed => ?_
      change _ ∈ ite _ _ _
      split
      · exact List.mem_cons_of_mem _ howed
      · exact howed
    · rw [List.mem_singleton.mp hnew] at hdirect ⊢
      refine .inr ?_
      change _ ∈ ite _ _ _
      rw [if_pos (by rw [hdirect]; rfl)]
      exact List.mem_cons_self
  · intro row hrow hqueued
    rcases List.mem_append.mp hrow with hold | hnew
    · exact hlater.has (hsound.marked row hold hqueued)
    · rw [List.mem_singleton.mp hnew] at hqueued
      exact absurd rfl hqueued

/-- The job of a request itself. -/
theorem Sound.enqueueDirect {policy : DocumentAlertPolicy} {actor id : String}
    {request : ReviewRequest} (hsound : store.Sound) (hdirect : request.direct = some id)
    (hevent : ∃ event ∈ store.events, event.request = request) :
    (store.enqueueDirect policy actor id request).Sound := by
  have hbase : (store.withOutbox { store.outbox with
      queue := enqueue policy store.outbox.queue
        ⟨request.action, request.resource, actor, store.outbox.clock, none, none⟩ id }).Sound := by
    refine hsound.withOutbox rfl (fun row hrow => ?_) rfl ?_
    · by_cases hqueued : row.queuedAt = none
      · exact ⟨row, hrow, rfl, rfl, .inl hqueued⟩
      · exact ⟨row, hrow, rfl, rfl, .inr (.inl hqueued)⟩
    · obtain ⟨event, hmem, rfl⟩ := hevent
      exact accounts_enqueue ⟨event, hmem, .inr hdirect, rfl, rfl⟩
  have hhas : (store.enqueueDirect policy actor id request).Has id :=
    hsound.has_enqueue request.isNotified_action
      (request.documentEventEnabled_action policy) rfl
  refine { hbase with direct := ?_ }
  intro event hmem other hother
  by_cases hsame : event.request = request
  · rw [hsame, hdirect, Option.some.injEq] at hother
    exact .inl (hother ▸ hhas)
  · refine (hbase.direct event hmem other hother).imp_right fun howed => ?_
    exact List.mem_filter.mpr ⟨howed, by simpa using hsame⟩

/-- What a call in flight has done. -/
def Ready (store : ReviewMailStore) : ReviewMailProcess → Prop
  | .enqueue _ request => ∃ event ∈ store.events, event.request = request
  | .outbox (.dispatchEntry _ entry rest) => ∀ row ∈ entry :: rest, store.Known row
  | .outbox (.dispatchMark _ entry rest) =>
      (∀ row ∈ entry :: rest, store.Known row) ∧ store.Has entry.id
  | .outbox (.persistAudit ..) | .outbox .maintainHistory | .outbox (.maintainRead _)
  | .outbox (.maintainDelete _) => False
  | _ => True

theorem Ready.later {process : ReviewMailProcess} (hready : store.Ready process)
    (hlater : store.Later after) : after.Ready process := by
  cases process with
  | enqueue actor request =>
      obtain ⟨event, hevent, hrequest⟩ := hready
      exact ⟨event, hlater.events event hevent, hrequest⟩
  | outbox process =>
      cases process with
      | dispatchEntry now entry rest => exact fun row hrow => hlater.known (hready row hrow)
      | dispatchMark now entry rest =>
          exact ⟨fun row hrow => hlater.known (hready.1 row hrow), hlater.has hready.2⟩
      | _ => exact hready
  | _ => trivial

/-- A statement of a pass. -/
theorem Sound.outboxEffect {process : OutboxProcess} (hsound : store.Sound)
    (hready : store.Ready (.outbox process)) (heffect : OutboxEffect store.outbox process outbox) :
    (store.withOutbox outbox).Sound := by
  have hsame : ∀ row ∈ store.outbox.outbox, ∃ old ∈ store.outbox.outbox, row.id = old.id ∧
      row.payload = old.payload ∧
      (row.queuedAt = none ∨ old.queuedAt ≠ none ∨ (store.withOutbox outbox).Has row.id) := by
    intro row hrow
    by_cases hqueued : row.queuedAt = none
    · exact ⟨row, hrow, rfl, rfl, .inl hqueued⟩
    · exact ⟨row, hrow, rfl, rfl, .inr (.inl hqueued)⟩
  cases heffect with
  | create | delete => exact hready.elim
  | same => exact hsound.withOutbox rfl hsame rfl fun job hjob hnew => absurd hjob hnew
  | @call now entry rest policy added returned =>
      refine hsound.withOutbox rfl hsame rfl ?_
      intro job hjob hnew
      obtain ⟨event, hevent, hid, haction, hresource⟩ := hready entry List.mem_cons_self
      change job ∈ ite _ _ _ at hjob
      split at hjob
      · exact accounts_enqueue ⟨event, hevent, .inl hid.symm, haction, hresource⟩ job hjob hnew
      · exact absurd hjob hnew
  | @mark now entry rest =>
      refine hsound.withOutbox rfl ?_ (OutboxStore.map_id_markQueued _ _)
        fun job hjob hnew => absurd hjob hnew
      intro row hrow
      obtain ⟨old, hold, rfl⟩ := List.mem_map.mp hrow
      split
      next hid =>
        refine ⟨old, hold, rfl, rfl, .inr (.inr ?_)⟩
        change Has _ old.id
        rw [hid]
        exact (store.later_withOutbox _).has hready.2
      next => exact hsame old hold
  | @fail now entry =>
      obtain ⟨hcreated, -, hqueue, -⟩ := OutboxStore.recordFailure_frame store.outbox now entry
      refine hsound.withOutbox hcreated ?_ (OutboxStore.map_id_recordFailure _ _ _) ?_
      · intro row hrow
        unfold OutboxStore.recordFailure at hrow
        split at hrow
        next =>
          obtain ⟨old, hold, rfl⟩ := List.mem_map.mp hrow
          obtain ⟨first, hfirst, hid, hpayload, hmark⟩ := hsame old hold
          split
          next => exact ⟨first, hfirst, hid, hpayload, hmark⟩
          next => exact ⟨first, hfirst, hid, hpayload, hmark⟩
        next => exact hsame row hrow
      · rw [hqueue]
        exact fun job hjob hnew => absurd hjob hnew
  | forget =>
      exact hsound.withOutbox rfl hsame rfl
        fun job hjob hnew => absurd (List.mem_of_mem_filter hjob) hnew

/-- A pass goes on. -/
theorem Sound.ready_next {process next : OutboxProcess} (hsound : store.Sound)
    (hready : store.Ready (.outbox process))
    (hgoesOn : OutboxGoesOn store.outbox outbox process next) :
    (store.withOutbox outbox).Ready (.outbox next) := by
  have hlater := store.later_withOutbox outbox
  cases hgoesOn with
  | clock | refused | unmarked => trivial
  | maintain | selected => exact hready.elim
  | read hsame hread =>
      intro row hrow
      exact hlater.known (hsound.rows row (hread row hrow))
  | @called now entry rest policy hcall =>
      refine ⟨fun row hrow => hlater.known (hready row hrow), ?_⟩
      obtain ⟨event, -, -, haction, -⟩ := hready entry List.mem_cons_self
      have hqueue : outbox.queue =
          enqueue policy store.outbox.queue entry.payload entry.id := by
        rw [hcall]
        rfl
      exact hsound.has_enqueue (haction ▸ event.request.isNotified_action)
        (haction ▸ event.request.documentEventEnabled_action policy) hqueue
  | marked =>
      intro row hrow
      exact hlater.known (hready.1 row (List.mem_cons_of_mem _ hrow))

end ReviewMailStore

/-! ## Runs -/

def reviewMailOutline : Concurrent.Outline ReviewMailStore ReviewMailProcess where
  invariant := ReviewMailStore.Sound
  assertion _ store process := store.Ready process

section Runs

variable {toLowerCase : String → String} {nextYear : Int → Int}
variable {idOrder : String → String → Bool}

/-- One statement keeps the invariant, the assertion of its call and what others know. -/
theorem reviewMailAdvance_sound {choice : ReviewMailChoice} {store after : ReviewMailStore}
    {process : ReviewMailProcess} {remaining : Option ReviewMailProcess} (hsound : store.Sound)
    (hready : store.Ready process)
    (hadvance : reviewMailAdvance toLowerCase nextYear idOrder choice store process =
      some (remaining, after)) :
    after.Sound ∧ store.Later after ∧ ∀ next, remaining = some next → after.Ready next := by
  have hrefl : store.Later store := ⟨fun _ hevent => hevent, fun _ hjob => hjob⟩
  cases process with
  | createReview actor draft | decideReview identity id body =>
      simp only [reviewMailAdvance, Option.some.injEq, Prod.mk.injEq] at hadvance
      obtain ⟨hnext, rfl⟩ := hadvance
      refine ⟨hsound, hrefl, ?_⟩
      rintro next rfl
      obtain ⟨value, -, rfl⟩ := Option.map_eq_some_iff.mp hnext
      trivial
  | createReviewRow actor draft =>
      simp only [reviewMailAdvance, Option.map_eq_some_iff, Prod.mk.injEq] at hadvance
      obtain ⟨reviews, -, rfl, rfl⟩ := hadvance
      refine ⟨{ hsound with }, ⟨hrefl.events, hrefl.added⟩, ?_⟩
      rintro next hnext
      cases hnext
      trivial
  | recordReviewDecision actor id documentId body =>
      simp only [reviewMailAdvance] at hadvance
      split at hadvance
      next =>
        cases hadvance
        exact ⟨hsound, hrefl, fun next hnext => by cases hnext⟩
      next review _ =>
        split at hadvance <;> cases hadvance
        · refine ⟨{ hsound with }, ⟨hrefl.events, hrefl.added⟩, ?_⟩
          intro next hnext
          cases hnext
          trivial
        · exact ⟨hsound, hrefl, fun next hnext => by cases hnext⟩
  | record actor request =>
      simp only [reviewMailAdvance] at hadvance
      split at hadvance
      next hfresh =>
        simp only [Option.some.injEq, Prod.mk.injEq] at hadvance
        obtain ⟨hnext, rfl⟩ := hadvance
        refine ⟨hsound.recordEvent hfresh.1 hfresh.2, ⟨fun _ hevent =>
          List.mem_append_left _ hevent, (store.later_withOutbox _).added⟩, ?_⟩
        rintro next rfl
        obtain ⟨id, -, rfl⟩ := Option.map_eq_some_iff.mp hnext
        exact ⟨_, List.mem_append_right _ (List.mem_singleton_self _), rfl⟩
      next => cases hadvance
  | enqueue actor request =>
      simp only [reviewMailAdvance, Option.map_eq_some_iff, Prod.mk.injEq] at hadvance
      obtain ⟨id, hdirect, rfl, rfl⟩ := hadvance
      refine ⟨hsound.enqueueDirect hdirect hready, ⟨fun _ hevent => hevent,
        (store.later_withOutbox _).added⟩, fun next hnext => by cases hnext⟩
  | outbox process =>
      simp only [reviewMailAdvance, Option.map_eq_some_iff, Prod.mk.injEq] at hadvance
      obtain ⟨⟨rest, outbox⟩, houtbox, hnext, rfl⟩ := hadvance
      refine ⟨hsound.outboxEffect hready (outboxAdvance_effect houtbox),
        store.later_withOutbox outbox, ?_⟩
      rintro next rfl
      obtain ⟨following, hfollowing, rfl⟩ := Option.map_eq_some_iff.mp hnext
      dsimp only at hfollowing
      rw [hfollowing] at houtbox
      exact hsound.ready_next hready (outboxAdvance_goesOn houtbox)

theorem reviewMailOutline_valid :
    reviewMailOutline.Valid (reviewMailProgram toLowerCase nextYear idOrder)
      ReviewMailStore.Initial fun _ _ => True where
  init := by
    rintro store ⟨⟨houtbox, hqueue, hcreated, -⟩, hadded, hevents, howed⟩
    constructor <;> simp [houtbox, hqueue, hadded, hevents]
  drift := by
    intro time store after hdrift hsound
    obtain ⟨-, rfl⟩ := Concurrent.drift_eq hdrift
    refine ⟨{ hsound with }, fun name process hready => ?_⟩
    exact hready.later ⟨fun _ hevent => hevent, fun _ hjob => hjob⟩
  start := by
    intro name store process hstart _
    cases process with
    | enqueue => cases hstart
    | outbox process =>
        cases process with
        | dispatchOutbox | forgetJobs => trivial
        | _ => cases hstart
    | _ => trivial
  own := by
    intro config name choice process remaining after hholds hprocess _ hadvance
    obtain ⟨hsound, -, hnext⟩ :=
      reviewMailAdvance_sound hholds.1 (hholds.2 name process hprocess) hadvance
    exact ⟨hsound, hnext⟩
  others := by
    intro config name choice process remaining after hholds hprocess _ hadvance other process' _
      hother
    obtain ⟨-, hlater, -⟩ :=
      reviewMailAdvance_sound hholds.1 (hholds.2 name process hprocess) hadvance
    exact (hholds.2 other process' hother).later hlater

end Runs

namespace ReviewMailStore

variable {store : ReviewMailStore} {action resource : String}

theorem mem_jobIds {id : String} : id ∈ store.jobIds action resource ↔
    ∃ job ∈ store.added, job.1 = id ∧ job.2.action = action ∧ job.2.resource = resource := by
  simp only [jobIds, List.mem_dedup, List.mem_map, List.mem_filter, decide_eq_true_eq]
  constructor
  · rintro ⟨job, ⟨hjob, hkey⟩, hid⟩
    exact ⟨job, hjob, hid, hkey⟩
  · rintro ⟨job, hjob, hid, hkey⟩
    exact ⟨job, ⟨hjob, hkey⟩, hid⟩

theorem mem_eventsOf {event : ReviewEvent} : event ∈ store.eventsOf action resource ↔
    event ∈ store.events ∧ event.request.action = action ∧ event.request.resource = resource := by
  simp [eventsOf]

/-- The id of a job tells the action and the resource. -/
theorem Sound.mem_jobIds_of_has (hsound : store.Sound) {event : ReviewEvent}
    (hevent : event ∈ store.eventsOf action resource) {id : String}
    (hid : id = event.eventId ∨ event.request.direct = some id) (hhas : store.Has id) :
    id ∈ store.jobIds action resource := by
  obtain ⟨hmem, haction, hresource⟩ := mem_eventsOf.mp hevent
  obtain ⟨job, hjob, rfl⟩ := hhas
  obtain ⟨other, hother, hotherId, hotherAction, hotherResource⟩ := hsound.jobs job hjob
  have hkey : other.request.action = event.request.action ∧
      other.request.resource = event.request.resource := by
    rcases hid with hevent | hdirect <;> rcases hotherId with hevent' | hdirect'
    · rw [List.inj_on_of_nodup_map hsound.distinct hother hmem (hevent'.symm.trans hevent)]
      exact ⟨rfl, rfl⟩
    · have hnot := ReviewRequest.not_isEventId_direct hdirect'
      rw [hevent, hsound.uuid event hmem] at hnot
      cases hnot
    · have hnot := ReviewRequest.not_isEventId_direct hdirect
      rw [hevent', hsound.uuid other hother] at hnot
      cases hnot
    · exact ReviewRequest.eq_of_direct hdirect' hdirect
  refine mem_jobIds.mpr ⟨job, hjob, rfl, ?_, ?_⟩
  · rw [← hotherAction, hkey.1, haction]
  · rw [← hotherResource, hkey.2, hresource]

/-- Once a pass has marked every row, each event has a job. -/
theorem Sound.has_eventId (hsound : store.Sound)
    (hdrained : ∀ row ∈ store.outbox.outbox, row.queuedAt ≠ none) {event : ReviewEvent}
    (hevent : event ∈ store.events) : store.Has event.eventId := by
  obtain ⟨row, hrow, hid⟩ := hsound.kept event hevent
  rw [← hid]
  exact hsound.marked row hrow (hdrained row hrow)

/-- The ids of the events, all with a job. -/
theorem Sound.nodup_eventIds (hsound : store.Sound) :
    ((store.eventsOf action resource).map ReviewEvent.eventId).Nodup :=
  hsound.distinct.sublist (List.filter_sublist.map _)

end ReviewMailStore

/-- **Jobs for each review request.** Once every request has completed and every row of the
outbox is dispatched, an action and a resource have at most as many jobs as requests if and
only if all these requests are decisions that leave the review open. -/
theorem review_jobs_le_requests_iff (toLowerCase : String → String) (nextYear : Int → Int)
    (idOrder : String → String → Bool) {config : ReviewMailConfig}
    (hreach : (reviewMailSystem toLowerCase nextYear idOrder).Reachable config)
    (hcompleted : config.store.owed = [])
    (hdrained : ∀ row ∈ config.store.outbox.outbox, row.queuedAt ≠ none)
    (action resource : String) :
    (config.store.jobIds action resource).length ≤
        (config.store.eventsOf action resource).length ↔
      ∀ event ∈ config.store.eventsOf action resource,
        ∃ id, event.request = .decideReview id .inReview := by
  have hsound := (reviewMailOutline_valid.holds hreach).1
  have hevents : ∀ event ∈ config.store.eventsOf action resource,
      event.eventId ∈ config.store.jobIds action resource := by
    intro event hevent
    exact hsound.mem_jobIds_of_has hevent (.inl rfl)
      (hsound.has_eventId hdrained (ReviewMailStore.mem_eventsOf.mp hevent).1)
  constructor
  · intro hle event hevent
    by_contra hnot
    -- A request that adds a job itself has one more than its event.
    have hdirect : ∃ id, event.request.direct = some id := by
      cases hrequest : event.request with
      | createReview id => exact ⟨_, rfl⟩
      | decideReview id status =>
          cases status with
          | inReview => exact absurd ⟨id, hrequest⟩ hnot
          | approved | rejected | cancelled => exact ⟨_, rfl⟩
    obtain ⟨id, hid⟩ := hdirect
    have hmem := (ReviewMailStore.mem_eventsOf.mp hevent).1
    have hhas : config.store.Has id := by
      refine (hsound.direct event hmem id hid).resolve_right ?_
      rw [hcompleted]
      exact List.not_mem_nil
    have hfresh : id ∉ (config.store.eventsOf action resource).map ReviewEvent.eventId := by
      intro hmap
      obtain ⟨other, hother, rfl⟩ := List.mem_map.mp hmap
      have huuid := hsound.uuid other (ReviewMailStore.mem_eventsOf.mp hother).1
      rw [ReviewRequest.not_isEventId_direct hid] at huuid
      cases huuid
    have hsubset : id :: (config.store.eventsOf action resource).map ReviewEvent.eventId ⊆
        config.store.jobIds action resource := by
      intro other hother
      rcases List.mem_cons.mp hother with rfl | hold
      · exact hsound.mem_jobIds_of_has hevent (.inr hid) hhas
      · obtain ⟨source, hsource, rfl⟩ := List.mem_map.mp hold
        exact hevents source hsource
    have hnodup := List.nodup_cons.mpr ⟨hfresh, hsound.nodup_eventIds⟩
    have hlength := (List.subperm_of_subset hnodup hsubset).length_le
    rw [List.length_cons, List.length_map] at hlength
    omega
  · intro hopen
    have hsubset : config.store.jobIds action resource ⊆
        (config.store.eventsOf action resource).map ReviewEvent.eventId := by
      intro id hid
      obtain ⟨job, hjob, rfl, haction, hresource⟩ := ReviewMailStore.mem_jobIds.mp hid
      obtain ⟨event, hevent, hjobId, heventAction, heventResource⟩ := hsound.jobs job hjob
      have hof : event ∈ config.store.eventsOf action resource :=
        ReviewMailStore.mem_eventsOf.mpr
          ⟨hevent, heventAction.trans haction, heventResource.trans hresource⟩
      refine List.mem_map.mpr ⟨event, hof, (hjobId.resolve_right fun hdirect => ?_).symm⟩
      obtain ⟨review, hrequest⟩ := hopen event hof
      rw [hrequest] at hdirect
      cases hdirect
    have hlength := (List.subperm_of_subset (List.nodup_dedup _) hsubset).length_le
    rw [List.length_map] at hlength
    exact hlength

/-! ## Sample -/

/-- A published document, and nothing else. -/
def noReviews : ReviewMailStore :=
  ⟨⟨0, [⟨"doc", .published, none⟩], [], [], [], []⟩, emptyOutbox, [], [], []⟩

theorem reachable_noReviews {toLowerCase : String → String} {nextYear : Int → Int}
    {idOrder : String → String → Bool} {allowed : ReviewMailConfig → ReviewMailMove → Prop} :
    (reviewMailSystem toLowerCase nextYear idOrder).ReachableWhile allowed
      (Concurrent.idle noReviews) :=
  .init ⟨⟨⟨rfl, rfl, rfl, rfl, rfl, rfl⟩, rfl, rfl, rfl⟩, fun _ => rfl⟩

/-- An event id of the sample, from its last digit. -/
def eventUuid (digit : String) : String := "00000000-0000-0000-0000-00000000000" ++ digit

def reviewMailChoice (digit : String) : ReviewMailChoice :=
  ⟨"review", eventUuid digit, ⟨true, true, true, true, true⟩, outboxChoice "event" false false⟩

/-- A review is created and taken up, and the outbox is dispatched. -/
def reviewMailRun : List ReviewMailMove :=
  [.start 0 (.createReview "alice"
      ⟨"doc", none, "alice", "bob", "carol", 1, false, false⟩),
    .advance 0 (reviewMailChoice "1"), .advance 0 (reviewMailChoice "1"),
    .advance 0 (reviewMailChoice "1"), .advance 0 (reviewMailChoice "1"),
    .start 0 (.decideReview ⟨"carol", ["ISMS-LOCAL-ADMINS"]⟩ "review" ⟨.inReview, ""⟩),
    .advance 0 (reviewMailChoice "2"), .advance 0 (reviewMailChoice "2"),
    .advance 0 (reviewMailChoice "2"), .start 0 (.outbox .dispatchOutbox),
    .advance 0 (reviewMailChoice "3"), .advance 0 (reviewMailChoice "3"),
    .advance 0 (reviewMailChoice "3"), .advance 0 (reviewMailChoice "3"),
    .advance 0 (reviewMailChoice "3"), .advance 0 (reviewMailChoice "3")]

/-- The run ends with all requests completed and all rows marked. -/
theorem exists_reviewMailRun :
    ∃ config, (reviewMailSystem id id fun _ _ => true).Reachable config ∧
      config.store.owed = [] ∧ (∀ row ∈ config.store.outbox.outbox, row.queuedAt ≠ none) ∧
      config.store.events = [⟨.createReview "review", eventUuid "1"⟩,
        ⟨.decideReview "review" .inReview, eventUuid "2"⟩] ∧
      config.store.jobIds "document-review.create" "document-review:review" =
        ["document-review-create-review", eventUuid "1"] := by
  have hrun : (Concurrent.executeNamed (reviewMailProgram id id fun _ _ => true) [0]
      (fun _ _ => true) (Concurrent.idle noReviews) reviewMailRun).map (fun config =>
        (config.store.owed, config.store.outbox.outbox.all fun row => row.queuedAt ≠ none,
          config.store.events,
          config.store.jobIds "document-review.create" "document-review:review")) =
      some ([], true, [⟨.createReview "review", eventUuid "1"⟩,
        ⟨.decideReview "review" .inReview, eventUuid "2"⟩],
        ["document-review-create-review", eventUuid "1"]) := by
    decide
  obtain ⟨config, hexecute, hsummary⟩ := Option.map_eq_some_iff.mp hrun
  have hreach := (Concurrent.reachable_executeNamed (fun _ _ _ _ => trivial) _ (fun _ _ => rfl)
    reachable_noReviews hexecute).1
  simp only [Prod.mk.injEq, List.all_eq_true, decide_eq_true_eq] at hsummary
  exact ⟨config, hreach, hsummary⟩

/-- The decision that takes up the review has one job. -/
theorem review_jobs_le_requests_iff_taken_up :
    ∃ config, (reviewMailSystem id id fun _ _ => true).Reachable config ∧
      (config.store.eventsOf "document-review.decision" "document-review:review").length = 1 ∧
      (config.store.jobIds "document-review.decision" "document-review:review").length ≤ 1 := by
  obtain ⟨config, hreach, hcompleted, hdrained, hevents, -⟩ := exists_reviewMailRun
  have hof : config.store.eventsOf "document-review.decision" "document-review:review" =
      [⟨.decideReview "review" .inReview, eventUuid "2"⟩] := by
    rw [ReviewMailStore.eventsOf, hevents]
    decide
  have hle := (review_jobs_le_requests_iff id id (fun _ _ => true) hreach hcompleted hdrained
    "document-review.decision" "document-review:review").mpr (by simp [hof])
  rw [hof] at hle
  exact ⟨config, hreach, by rw [hof]; rfl, hle⟩

/-- The creation of the review has two jobs. -/
theorem creation_mailed_twice :
    ∃ config, (reviewMailSystem id id fun _ _ => true).Reachable config ∧
      config.store.owed = [] ∧ (∀ row ∈ config.store.outbox.outbox, row.queuedAt ≠ none) ∧
      config.store.eventsOf "document-review.create" "document-review:review" =
        [⟨.createReview "review", eventUuid "1"⟩] ∧
      config.store.jobIds "document-review.create" "document-review:review" =
        ["document-review-create-review", eventUuid "1"] := by
  obtain ⟨config, hreach, hcompleted, hdrained, hevents, hjobs⟩ := exists_reviewMailRun
  refine ⟨config, hreach, hcompleted, hdrained, ?_, hjobs⟩
  rw [ReviewMailStore.eventsOf, hevents]
  decide

end IsmsPortal
