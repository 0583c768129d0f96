import Mathlib.Data.List.Nodup

/-! # The mail queue

Mails are sent by jobs of a queue. A job is added under an id of the caller's choice, and the
queue ignores an id that it knows already, of a job that waits, runs or has ended and is
kept. An event is queued only if its action has a label and its kind is not switched off.
-/

namespace IsmsPortal

/-- The actions that are notified, with the titles of their mails. -/
def notificationLabels : List (String × String) :=
  [("document.publish", "Document published"),
    ("document.published", "Document published"),
    ("document.publication.digest", "Publication summary"),
    ("document.upload", "Document awaiting publication"),
    ("document.version.upload", "New version awaiting publication"),
    ("document.metadata.update", "Document updated"),
    ("document.delete", "Document deleted"),
    ("document.version.overdue", "Document version overdue"),
    ("document.review.annual", "Annual document review due"),
    ("document.review.reminder", "Annual document review reminder"),
    ("document.review.overdue", "Annual document review overdue"),
    ("document-report.create", "Document issue reported"),
    ("document-report.resolve", "Document report resolved"),
    ("security-report.create", "Security report submitted"),
    ("security-report.resolve", "Security report resolved"),
    ("access-request.create", "Access request submitted"),
    ("access-request.review", "Access request decision"),
    ("document-review.create", "Document review assigned"),
    ("document-review.decision", "Document review decision"),
    ("document-review.overdue", "Publication reviews overdue"),
    ("sensitive-approval.request", "Approval required"),
    ("sensitive-approval.decision", "Approval decision"),
    ("risk-exception.create", "Risk exception submitted"),
    ("risk-exception.decision", "Risk exception decision"),
    ("incident-case.create", "Incident assigned"),
    ("corrective-action.create", "Corrective action assigned")]

/-- The action has a label. -/
def isNotified (action : String) : Bool := (notificationLabels.lookup action).isSome

/-- The data of a job, without the lists of the summaries. -/
structure NotificationJob where
  action : String
  resource : String
  actor : String
  occurredAt : Int
  accepted : Option (List String)
  documentVersionId : Option String
deriving DecidableEq

/-- The columns of `DocumentAlertPolicy` that switch mails off. -/
structure DocumentAlertPolicy where
  enabled : Bool
  documentAdded : Bool
  documentUpdated : Bool
  documentModified : Bool
  documentDeleted : Bool
deriving DecidableEq

def documentEventEnabled (policy : DocumentAlertPolicy) (action : String) : Bool :=
  if action = "document.upload" then policy.enabled && policy.documentAdded
  else if action = "document.version.upload" then policy.enabled && policy.documentUpdated
  else if action = "document.metadata.update" then policy.enabled && policy.documentModified
  else if action = "document.delete" then policy.enabled && policy.documentDeleted
  else true

/-- The jobs that the queue knows, by their ids. -/
abbrev MailQueue : Type := List (String × NotificationJob)

/-- `queue.add` with a job id. -/
def addJob (queue : MailQueue) (job : NotificationJob) (id : String) : MailQueue :=
  if queue.any (fun entry => entry.1 = id) then queue else queue ++ [(id, job)]

/-- `enqueue`. -/
def enqueue (policy : DocumentAlertPolicy) (queue : MailQueue) (job : NotificationJob)
    (id : String) : MailQueue :=
  if isNotified job.action && documentEventEnabled policy job.action then addJob queue job id
  else queue

section Lemmas

variable {queue : MailQueue} {job : NotificationJob} {id : String} {policy : DocumentAlertPolicy}

theorem mem_addJob {entry : String × NotificationJob} :
    entry ∈ addJob queue job id ↔
      entry ∈ queue ∨ entry = (id, job) ∧ ∀ other ∈ queue, other.1 ≠ id := by
  unfold addJob
  split
  next hknown =>
    obtain ⟨other, hother, hid⟩ := List.any_eq_true.mp hknown
    rw [decide_eq_true_eq] at hid
    constructor
    · exact .inl
    · rintro (hold | ⟨-, hfresh⟩)
      · exact hold
      · exact absurd hid (hfresh other hother)
  next hunknown =>
    have hfresh : ∀ other ∈ queue, other.1 ≠ id := by
      intro other hother hid
      exact hunknown (List.any_eq_true.mpr ⟨other, hother, decide_eq_true hid⟩)
    simp only [List.mem_append, List.mem_singleton]
    constructor
    · exact fun hentry => hentry.imp_right fun hnew => ⟨hnew, hfresh⟩
    · exact fun hentry => hentry.imp_right And.left

/-- An id is known once. -/
theorem nodup_addJob (hunique : (queue.map Prod.fst).Nodup) :
    ((addJob queue job id).map Prod.fst).Nodup := by
  unfold addJob
  split
  next => exact hunique
  next hunknown =>
    rw [List.map_append, List.nodup_append_comm]
    refine List.nodup_cons.mpr ⟨?_, hunique⟩
    intro hmem
    obtain ⟨other, hother, hid⟩ := List.mem_map.mp hmem
    exact hunknown (List.any_eq_true.mpr ⟨other, hother, decide_eq_true hid⟩)

/-- The id of a job that was added is known. -/
theorem exists_addJob (queue : MailQueue) (job : NotificationJob) (id : String) :
    ∃ entry ∈ addJob queue job id, entry.1 = id := by
  by_cases hknown : ∃ other ∈ queue, other.1 = id
  · obtain ⟨other, hother, hid⟩ := hknown
    exact ⟨other, mem_addJob.mpr (.inl hother), hid⟩
  · push Not at hknown
    exact ⟨(id, job), mem_addJob.mpr (.inr ⟨rfl, hknown⟩), rfl⟩

theorem enqueue_cases :
    enqueue policy queue job id = queue ∨ enqueue policy queue job id = addJob queue job id := by
  unfold enqueue
  split
  · exact .inr rfl
  · exact .inl rfl

/-- The queue has nothing but what it had and the job. -/
theorem mem_enqueue {entry : String × NotificationJob}
    (hentry : entry ∈ enqueue policy queue job id) : entry ∈ queue ∨ entry = (id, job) := by
  rcases @enqueue_cases queue job id policy with hsame | hadded
  · rw [hsame] at hentry
    exact .inl hentry
  · rw [hadded] at hentry
    exact (mem_addJob.mp hentry).imp_right And.left

theorem nodup_enqueue (hunique : (queue.map Prod.fst).Nodup) :
    ((enqueue policy queue job id).map Prod.fst).Nodup := by
  rcases @enqueue_cases queue job id policy with hsame | hadded
  · rw [hsame]
    exact hunique
  · rw [hadded]
    exact nodup_addJob hunique

end Lemmas

end IsmsPortal
