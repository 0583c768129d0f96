import IsmsPortal.Foundation.IsoDate
import IsmsPortal.Foundation.Interleaving
import IsmsPortal.Governance.Reviews
import IsmsPortal.Notifications.Queue

/-! # The mails of annual reviews

The approval of an automatic review starts a new cycle of its version: the next review is due
in a year, and the dates of the mails of the last cycle are cleared. The scheduler selects
the versions whose review comes near, is due or is overdue, and adds a job for each; when its
mails are sent, the date is set again. The id of a job about a due review has the day in it;
the ids of the reminders have the version only.
-/

namespace IsmsPortal

open Foundation

inductive ReviewNotice
  | reminder | annual | overdue
deriving DecidableEq

def ReviewNotice.action : ReviewNotice → String
  | .reminder => "document.review.reminder"
  | .annual => "document.review.annual"
  | .overdue => "document.review.overdue"

/-- `new Date(now).toISOString().slice(0, 10)`, of a time in range. -/
def isoDay (now : Int) : String :=
  if hrange : -maxTime ≤ now ∧ now ≤ maxTime then
    String.ofList ((Date.isoText ⟨now, hrange⟩).take 10)
  else ""

/-- The ids that the scheduler gives. -/
def ReviewNotice.jobId (versionId documentId : String) (now : Int) : ReviewNotice → String
  | .reminder => "annual-review-reminder-" ++ versionId
  | .annual => "annual-review-" ++ documentId ++ "-" ++ versionId ++ "-" ++ isoDay now
  | .overdue => "annual-review-overdue-" ++ versionId

/-- The columns of a `DocumentVersion` for its annual review, and how often it was approved
in automatic reviews. -/
structure CycleVersion where
  id : String
  documentId : String
  annualReviewDueAt : Option Int
  annualReviewNotifiedAt : Option Int
  annualReviewReminderAt : Option Int
  annualReviewOverdueAt : Option Int
  cycle : Nat
deriving DecidableEq

namespace CycleVersion

/-- A mail is sent: its date is set if it has none. -/
def notified (now : Int) (version : CycleVersion) : ReviewNotice → CycleVersion
  | .reminder =>
      { version with annualReviewReminderAt := version.annualReviewReminderAt.or (some now) }
  | .annual =>
      { version with annualReviewNotifiedAt := version.annualReviewNotifiedAt.or (some now) }
  | .overdue =>
      { version with annualReviewOverdueAt := version.annualReviewOverdueAt.or (some now) }

/-- The next cycle. -/
def renew (dueAt : Int) (version : CycleVersion) : CycleVersion :=
  ⟨version.id, version.documentId, some dueAt, none, none, none, version.cycle + 1⟩

end CycleVersion

/-- A call of `enqueue` for a version, and whether the queue took the job. -/
structure Announcement where
  notice : ReviewNotice
  versionId : String
  documentId : String
  scheduledAt : Int
  cycle : Nat
  added : Bool
deriving DecidableEq

def Announcement.jobId (entry : Announcement) : String :=
  entry.notice.jobId entry.versionId entry.documentId entry.scheduledAt

/-- The tables, the documents that are published, the queue, and all announcements so far. -/
structure CycleStore where
  clock : Int
  published : List String
  versions : List CycleVersion
  reviews : List DocumentReview
  queue : MailQueue
  announced : List Announcement
deriving DecidableEq

structure ReminderSettings where
  enabled : Bool
  leadDays : Int
  overdueDays : Int
deriving DecidableEq

/-- Where a call is. The queue forgets ended jobs by itself. -/
inductive CycleProcess
  | schedule
  | reviewReminders (now : Int) (settings : ReminderSettings)
  | remindersEnqueue (now : Int) (settings : ReminderSettings) (todo : List CycleVersion)
  | annualReviews (now : Int) (settings : ReminderSettings)
  | annualCreate (now : Int) (settings : ReminderSettings) (todo : List CycleVersion)
  | annualEnqueue (now : Int) (settings : ReminderSettings) (version : CycleVersion)
      (todo : List CycleVersion)
  | reviewOverdues (now : Int) (settings : ReminderSettings)
  | overduesEnqueue (now : Int) (todo : List CycleVersion)
  | recordReviewDecision (id : String) (body : ReviewDecisionDto) (actor : String)
  | recordDecisionCommit (id : String) (body : ReviewDecisionDto) (actor : String) (decidedAt : Int)
  | mailCompleted (jobId : String)
  | forgetJobs (ids : List String)
  | publish (published : List String)
  | addVersion (id documentId : String)
  | createReview (review : DocumentReview)
deriving DecidableEq

/-- The settings, the answer of a query without an order, the id of a new review. -/
structure CycleChoice where
  settings : ReminderSettings
  policy : DocumentAlertPolicy
  versions : List CycleVersion
  uuid : String

/-! ## Statements -/

/-- The versions of published documents with a date in the range and without a mail. -/
def inCycle (store : CycleStore) (sentAt : CycleVersion → Option Int) (due : Int → Bool)
    (version : CycleVersion) : Bool :=
  version.documentId ∈ store.published && (sentAt version).isNone &&
    version.annualReviewDueAt.any due

def isReminderDue (store : CycleStore) (now : Int) (settings : ReminderSettings) :
    CycleVersion → Bool :=
  inCycle store CycleVersion.annualReviewReminderAt fun due =>
    now < due && due ≤ now + days settings.leadDays

def isReviewDue (store : CycleStore) (now : Int) : CycleVersion → Bool :=
  inCycle store CycleVersion.annualReviewNotifiedAt fun due => due ≤ now

def isOverdue (store : CycleStore) (now : Int) (settings : ReminderSettings) :
    CycleVersion → Bool :=
  inCycle store CycleVersion.annualReviewOverdueAt fun due => due ≤ now - days settings.overdueDays

namespace CycleStore

variable (store : CycleStore)

/-- `enqueue` for a version. -/
def announce (policy : DocumentAlertPolicy) (notice : ReviewNotice) (now : Int)
    (version : CycleVersion) : CycleStore where
  __ := store
  queue := enqueue policy store.queue
    ⟨notice.action, "document:" ++ version.documentId, "ISMS scheduler", now, none, some version.id⟩
    (notice.jobId version.id version.documentId now)
  announced := store.announced ++ [⟨notice, version.id, version.documentId, now, version.cycle,
    store.queue.all fun job => job.1 ≠ notice.jobId version.id version.documentId now⟩]

/-- The review of a version that is due. -/
def createAnnual (now : Int) (version : CycleVersion) (id : String) : CycleStore where
  __ := store
  reviews := store.reviews ++ [{
    id, documentId := version.documentId, versionId := some version.id, owner := "ISMS scheduler"
    reviewer := "ISMS moderators", approver := "ISMS administrators", status := .pending
    dueAt := now, decisionComment := none, decidedBy := none, decidedAt := none
    evidenceObjectKey := none, automaticAnnual := true, automaticPublication := false
    overdueNotifiedAt := none, createdAt := store.clock }]

/-- The version has an open annual review. -/
def hasAnnual (version : CycleVersion) : Bool :=
  store.reviews.any fun review => review.versionId = some version.id ∧
    review.automaticAnnual = true ∧ review.status.isOpen = true

/-- A decision: a rejection withdraws the document and closes its other reviews, the approval
of an automatic review starts the next cycle. -/
def recordDecision (nextYear : Int → Int) (body : ReviewDecisionDto) (actor : String)
    (decidedAt : Int) (review : DocumentReview) : CycleStore where
  __ := store
  reviews := store.reviews.map fun row =>
    if row.id = review.id then row.decided decidedAt actor body
    else if body.status = .rejected ∧ row.documentId = review.documentId ∧
        row.status.isOpen = true then
      { row with status := .cancelled, decisionComment := some "Closed after document rejection",
                 decidedBy := some actor, decidedAt := some decidedAt }
    else row
  published :=
    if body.status = .rejected then store.published.filter (· ≠ review.documentId)
    else store.published
  versions := store.versions.map fun version =>
    if body.status = .approved ∧ (review.automaticAnnual || review.automaticPublication) = true ∧
        review.versionId = some version.id then version.renew (nextYear decidedAt)
    else version

/-- The mails of a job are sent. -/
def completed (job : NotificationJob) : CycleStore where
  __ := store
  versions := store.versions.map fun version =>
    if job.documentVersionId = some version.id then
      if job.action = "document.review.reminder" then version.notified store.clock .reminder
      else if job.action = "document.review.overdue" then version.notified store.clock .overdue
      else version.notified store.clock .annual
    else version

end CycleStore

/-- Run the next statement. -/
def cycleAdvance (nextYear : Int → Int) (choice : CycleChoice) (store : CycleStore) :
    CycleProcess → Option (Option CycleProcess × CycleStore)
  | .schedule => some (some (.reviewReminders store.clock choice.settings), store)
  | .reviewReminders now settings =>
      if !settings.enabled then some (some (.annualReviews now settings), store)
      else if Query.IsSelection (isReminderDue store now settings) 100 store.versions
          choice.versions then
        some (some (.remindersEnqueue now settings choice.versions), store)
      else none
  | .remindersEnqueue now settings [] => some (some (.annualReviews now settings), store)
  | .remindersEnqueue now settings (version :: todo) =>
      some (some (.remindersEnqueue now settings todo),
        store.announce choice.policy .reminder now version)
  | .annualReviews now settings =>
      some (some (.annualCreate now settings (Query.findMany (isReviewDue store now)
        (fun left right => left.annualReviewDueAt.getD 0 ≤ right.annualReviewDueAt.getD 0) 100
        store.versions)), store)
  | .annualCreate now settings [] => some (some (.reviewOverdues now settings), store)
  | .annualCreate now settings (version :: todo) =>
      if store.hasAnnual version then
        some (some (.annualEnqueue now settings version todo), store)
      else if store.reviews.any fun review => review.id = choice.uuid then none
      else some (some (.annualEnqueue now settings version todo),
        store.createAnnual now version choice.uuid)
  | .annualEnqueue now settings version todo =>
      some (some (.annualCreate now settings todo),
        store.announce choice.policy .annual now version)
  | .reviewOverdues now settings =>
      if !settings.enabled then some (none, store)
      else if Query.IsSelection (isOverdue store now settings) 100 store.versions
          choice.versions then
        some (some (.overduesEnqueue now choice.versions), store)
      else none
  | .overduesEnqueue _ [] => some (none, store)
  | .overduesEnqueue now (version :: todo) =>
      some (some (.overduesEnqueue now todo), store.announce choice.policy .overdue now version)
  | .recordReviewDecision id body actor =>
      some (some (.recordDecisionCommit id body actor store.clock), store)
  | .recordDecisionCommit id body actor decidedAt =>
      some (none, match store.reviews.find? fun review => review.id = id with
        | some review =>
            if review.status.isOpen then store.recordDecision nextYear body actor decidedAt review
            else store
        | none => store)
  | .mailCompleted jobId =>
      (store.queue.lookup jobId).map fun job => (none, store.completed job)
  | .forgetJobs ids =>
      some (none, { store with queue := store.queue.filter fun job => job.1 ∉ ids })
  | .publish published => some (none, { store with published })
  | .addVersion id documentId =>
      if store.versions.any fun version => version.id = id then none
      else some (none, { store with
        versions := store.versions ++ [⟨id, documentId, none, none, none, none, 0⟩] })
  | .createReview review =>
      if store.reviews.any fun other => other.id = review.id then none
      else some (none, { store with reviews := store.reviews ++ [review] })

/-- The ids of versions and documents are UUIDs. -/
def CycleProcess.initial : CycleProcess → Bool
  | .schedule | .recordReviewDecision .. | .mailCompleted _ | .forgetJobs _ | .publish _
  | .createReview _ => true
  | .addVersion id documentId => id.length = 36 && documentId.length = 36
  | _ => false

def cycleProgram (nextYear : Int → Int) : Concurrent CycleStore CycleProcess CycleChoice where
  drift time store := if store.clock ≤ time then some { store with clock := time } else none
  start := CycleProcess.initial
  advance _ := cycleAdvance nextYear

abbrev CycleConfig : Type := Concurrent.Config CycleStore CycleProcess

abbrev CycleMove : Type := Concurrent.Move CycleProcess CycleChoice

abbrev cycleSystem (nextYear : Int → Int) : System CycleConfig CycleMove :=
  (cycleProgram nextYear).system fun store =>
    store.versions = [] ∧ store.queue = [] ∧ store.announced = []

/-- The version that the next statement announces. -/
def CycleProcess.announcing : CycleProcess → List (ReviewNotice × CycleVersion)
  | .remindersEnqueue _ _ (version :: _) => [(.reminder, version)]
  | .overduesEnqueue _ (version :: _) => [(.overdue, version)]
  | _ => []

/-- A version that is selected for a reminder, or as overdue, was not so in another cycle. -/
def OnlyCycle (config : CycleConfig) (process : CycleProcess) : Prop :=
  ∀ next ∈ process.announcing, ∀ entry ∈ config.store.announced,
    entry.notice = next.1 → entry.versionId = next.2.id → entry.cycle = next.2.cycle

instance (config : CycleConfig) (process : CycleProcess) : Decidable (OnlyCycle config process) :=
  inferInstanceAs (Decidable (∀ next ∈ process.announcing, ∀ entry ∈ config.store.announced,
    entry.notice = next.1 → entry.versionId = next.2.id → entry.cycle = next.2.cycle))

/-! ## Ids of jobs -/

/-- The ids are UUIDs. -/
def CycleVersion.Named (version : CycleVersion) : Prop :=
  version.id.length = 36 ∧ version.documentId.length = 36

def Announcement.Named (entry : Announcement) : Prop :=
  entry.versionId.length = 36 ∧ entry.documentId.length = 36

theorem length_append_of {first second : String} {n m : Nat} (hfirst : first.length = n)
    (hsecond : second.length = m) : (first ++ second).length = n + m := by
  rw [String.length_append, hfirst, hsecond]

/-- The length of an id tells the kind of the job. -/
theorem Announcement.length_jobId {entry : Announcement} (hnamed : entry.Named) :
    (entry.notice = .reminder → entry.jobId.length = 59) ∧
      (entry.notice = .overdue → entry.jobId.length = 58) ∧
      (entry.notice = .annual → 88 ≤ entry.jobId.length) := by
  obtain ⟨hversion, hdocument⟩ := hnamed
  have hdash : "-".length = 1 := by decide
  refine ⟨?_, ?_, ?_⟩
  · intro hnotice
    have hword : "annual-review-reminder-".length = 23 := by decide
    rw [jobId, hnotice]
    exact length_append_of hword hversion
  · intro hnotice
    have hword : "annual-review-overdue-".length = 22 := by decide
    rw [jobId, hnotice]
    exact length_append_of hword hversion
  · intro hnotice
    have hword : "annual-review-".length = 14 := by decide
    have hlength := length_append_of (length_append_of (length_append_of (length_append_of
      (length_append_of hword hdocument) hdash) hversion) hdash)
      (rfl : (isoDay entry.scheduledAt).length = _)
    rw [jobId, hnotice]
    exact le_of_le_of_eq (Nat.le_add_right 88 _) hlength.symm

/-- The id of a job tells its kind and, without a day in it, its version. -/
theorem Announcement.eq_of_jobId {first second : Announcement} (hfirst : first.Named)
    (hsecond : second.Named) (hjob : first.jobId = second.jobId) (hday : first.notice ≠ .annual) :
    first.notice = second.notice ∧ first.versionId = second.versionId := by
  have hlength := congrArg String.length hjob
  obtain ⟨hreminder, hoverdue, -⟩ := length_jobId hfirst
  obtain ⟨hreminder', hoverdue', hannual'⟩ := length_jobId hsecond
  unfold jobId at hjob
  cases hnotice : first.notice with
  | annual => exact absurd hnotice hday
  | reminder =>
      have hfirst := hreminder hnotice
      cases hnotice' : second.notice with
      | reminder =>
          rw [hnotice, hnotice'] at hjob
          exact ⟨rfl, (String.append_right_inj _).mp hjob⟩
      | overdue =>
          have hsecond := hoverdue' hnotice'
          omega
      | annual =>
          have hsecond := hannual' hnotice'
          omega
  | overdue =>
      have hfirst := hoverdue hnotice
      cases hnotice' : second.notice with
      | reminder =>
          have hsecond := hreminder' hnotice'
          omega
      | overdue =>
          rw [hnotice, hnotice'] at hjob
          exact ⟨rfl, (String.append_right_inj _).mp hjob⟩
      | annual =>
          have hsecond := hannual' hnotice'
          omega

/-! ## One statement -/

section Steps

variable {nextYear : Int → Int} {choice : CycleChoice} {store after : CycleStore}
variable {process next : CycleProcess} {remaining : Option CycleProcess}

/-- The versions that a tick has read. -/
def CycleProcess.carried : CycleProcess → List CycleVersion
  | .remindersEnqueue _ _ todo | .annualCreate _ _ todo | .overduesEnqueue _ todo => todo
  | .annualEnqueue _ _ version todo => version :: todo
  | .addVersion id documentId => [⟨id, documentId, none, none, none, none, 0⟩]
  | _ => []

/-- No version is announced: the announcements stay, no job is added, and the versions have
the ids of the table or of a new one. -/
structure CycleStore.Quiet (store : CycleStore) (added : List CycleVersion)
    (after : CycleStore) : Prop where
  announced : after.announced = store.announced
  queue : ∀ job ∈ after.queue, job ∈ store.queue
  versions : ∀ version ∈ after.versions, ∃ old ∈ store.versions ++ added,
    old.id = version.id ∧ old.documentId = version.documentId

namespace CycleStore.Quiet

variable {added : List CycleVersion}

theorem of_eq (hannounced : after.announced = store.announced)
    (hqueue : ∀ job ∈ after.queue, job ∈ store.queue) (hversions : after.versions = store.versions) :
    store.Quiet added after where
  announced := hannounced
  queue := hqueue
  versions version hversion :=
    ⟨version, List.mem_append_left _ (hversions ▸ hversion), rfl, rfl⟩

theorem refl (store : CycleStore) : store.Quiet added store :=
  of_eq rfl (fun _ hjob => hjob) rfl

/-- The versions are updated, and keep their ids. -/
theorem update {reviews : List DocumentReview} {published : List String}
    (change : CycleVersion → CycleVersion)
    (hchange : ∀ version, version.id = (change version).id ∧
      version.documentId = (change version).documentId) :
    store.Quiet added { store with
      reviews, published, versions := store.versions.map change } where
  announced := rfl
  queue _ hjob := hjob
  versions := by
    intro version hversion
    obtain ⟨old, hold, rfl⟩ := List.mem_map.mp hversion
    exact ⟨old, List.mem_append_left _ hold, hchange old⟩

end CycleStore.Quiet

theorem CycleVersion.notified_ids (now : Int) (version : CycleVersion) (notice : ReviewNotice) :
    version.id = (version.notified now notice).id ∧
      version.documentId = (version.notified now notice).documentId := by
  cases notice <;> exact ⟨rfl, rfl⟩

theorem CycleStore.recordDecision_quiet (store : CycleStore) (added : List CycleVersion)
    (body : ReviewDecisionDto) (actor : String) (decidedAt : Int) (review : DocumentReview) :
    store.Quiet added (store.recordDecision nextYear body actor decidedAt review) := by
  refine .update _ ?_
  intro version
  split <;> exact ⟨rfl, rfl⟩

theorem CycleStore.completed_quiet (store : CycleStore) (added : List CycleVersion)
    (job : NotificationJob) : store.Quiet added (store.completed job) := by
  refine .update _ ?_
  intro version
  split
  · split
    · exact version.notified_ids _ _
    · split <;> exact version.notified_ids _ _
  · exact ⟨rfl, rfl⟩

/-- A statement announces a version that was read, or announces none. -/
theorem cycleAdvance_announces
    (hadvance : cycleAdvance nextYear choice store process = some (remaining, after)) :
    store.Quiet process.carried after ∨
      ∃ notice now version, version ∈ process.carried ∧
        (notice ≠ .annual → (notice, version) ∈ process.announcing) ∧
        after = store.announce choice.policy notice now version := by
  cases process with
  | schedule | annualReviews | recordReviewDecision =>
      cases hadvance
      exact .inl (.refl store)
  | reviewReminders | reviewOverdues =>
      simp only [cycleAdvance] at hadvance
      split at hadvance
      · cases hadvance
        exact .inl (.refl store)
      · split at hadvance <;> cases hadvance
        exact .inl (.refl store)
  | remindersEnqueue now settings todo =>
      cases todo with
      | nil =>
          cases hadvance
          exact .inl (.refl store)
      | cons version todo =>
          cases hadvance
          exact .inr ⟨.reminder, now, version, List.mem_cons_self,
            fun _ => List.mem_singleton_self _, rfl⟩
  | annualCreate now settings todo =>
      cases todo with
      | nil =>
          cases hadvance
          exact .inl (.refl store)
      | cons version todo =>
          simp only [cycleAdvance] at hadvance
          split at hadvance
          · cases hadvance
            exact .inl (.refl store)
          · split at hadvance <;> cases hadvance
            exact .inl (.of_eq rfl (fun _ hjob => hjob) rfl)
  | annualEnqueue now settings version todo =>
      cases hadvance
      exact .inr ⟨.annual, now, version, List.mem_cons_self, fun hnot => absurd rfl hnot, rfl⟩
  | overduesEnqueue now todo =>
      cases todo with
      | nil =>
          cases hadvance
          exact .inl (.refl store)
      | cons version todo =>
          cases hadvance
          exact .inr ⟨.overdue, now, version, List.mem_cons_self,
            fun _ => List.mem_singleton_self _, rfl⟩
  | recordDecisionCommit id body actor decidedAt =>
      cases hadvance
      refine .inl ?_
      split
      · split
        · exact store.recordDecision_quiet _ _ _ _ _
        · exact .refl store
      · exact .refl store
  | mailCompleted jobId =>
      simp only [cycleAdvance, Option.map_eq_some_iff, Prod.mk.injEq] at hadvance
      obtain ⟨job, -, -, rfl⟩ := hadvance
      exact .inl (store.completed_quiet _ job)
  | forgetJobs ids =>
      cases hadvance
      exact .inl (.of_eq rfl (fun _ hjob => List.mem_of_mem_filter hjob) rfl)
  | publish published =>
      cases hadvance
      exact .inl (.of_eq rfl (fun _ hjob => hjob) rfl)
  | addVersion id documentId =>
      simp only [cycleAdvance] at hadvance
      split at hadvance <;> cases hadvance
      exact .inl ⟨rfl, fun _ hjob => hjob, fun version hversion => ⟨version, hversion, rfl, rfl⟩⟩
  | createReview =>
      simp only [cycleAdvance] at hadvance
      split at hadvance <;> cases hadvance
      exact .inl (.of_eq rfl (fun _ hjob => hjob) rfl)

/-- The versions of the table are named. -/
theorem CycleStore.Quiet.named {added : List CycleVersion} (hquiet : store.Quiet added after)
    (hversions : ∀ version ∈ store.versions, version.Named)
    (hadded : ∀ version ∈ added, version.Named) : ∀ version ∈ after.versions, version.Named := by
  intro version hversion
  obtain ⟨old, hold, hid, hdocument⟩ := hquiet.versions version hversion
  have hnamed : old.Named := (List.mem_append.mp hold).elim (hversions old) (hadded old)
  unfold CycleVersion.Named at hnamed ⊢
  rwa [← hid, ← hdocument]

/-- A tick goes on with versions it has read. -/
theorem cycleAdvance_carried
    (hadvance : cycleAdvance nextYear choice store process = some (some next, after))
    {version : CycleVersion} (hversion : version ∈ next.carried) :
    version ∈ store.versions ∨ version ∈ process.carried := by
  cases process with
  | reviewReminders now settings | reviewOverdues now settings =>
      simp only [cycleAdvance] at hadvance
      split at hadvance
      · cases hadvance <;> cases hversion
      · split at hadvance <;> cases hadvance
        next hselection => exact .inl (hselection.2.1 version hversion).1
  | remindersEnqueue now settings todo | overduesEnqueue now todo =>
      cases todo with
      | nil =>
          cases hadvance <;> cases hversion
      | cons head todo =>
          cases hadvance
          exact .inr (List.mem_cons_of_mem _ hversion)
  | annualReviews now settings =>
      cases hadvance
      exact .inl (List.mem_of_mem_filter
        ((List.mem_insertionSort _).mp (List.mem_of_mem_take hversion)))
  | annualCreate now settings todo =>
      cases todo with
      | nil =>
          cases hadvance
          cases hversion
      | cons head todo =>
          simp only [cycleAdvance] at hadvance
          split at hadvance
          · cases hadvance
            exact .inr hversion
          · split at hadvance <;> cases hadvance
            exact .inr hversion
  | annualEnqueue now settings head todo =>
      cases hadvance
      exact .inr (List.mem_cons_of_mem _ hversion)
  | schedule | recordReviewDecision =>
      cases hadvance
      cases hversion
  | mailCompleted jobId =>
      simp only [cycleAdvance, Option.map_eq_some_iff, Prod.mk.injEq] at hadvance
      obtain ⟨job, -, hnone, -⟩ := hadvance
      cases hnone
  | addVersion | createReview =>
      simp only [cycleAdvance] at hadvance
      split at hadvance <;> cases hadvance
  | recordDecisionCommit | forgetJobs | publish => cases hadvance

end Steps

/-! ## Runs -/

/-- The announcements of a run that meets the condition. -/
structure CycleStore.Sound (store : CycleStore) : Prop where
  versions : ∀ version ∈ store.versions, version.Named
  entries : ∀ entry ∈ store.announced, entry.Named
  single : ∀ first ∈ store.announced, ∀ second ∈ store.announced,
    first.notice = second.notice → first.notice ≠ .annual →
      first.versionId = second.versionId → first.cycle = second.cycle
  queued : ∀ job ∈ store.queue, ∃ entry ∈ store.announced,
    entry.added = true ∧ entry.jobId = job.1
  settled : ∀ entry ∈ store.announced, entry.notice ≠ .annual → ∃ taken ∈ store.announced,
    taken.added = true ∧ taken.notice = entry.notice ∧ taken.versionId = entry.versionId ∧
      taken.cycle = entry.cycle

/-- The mails of annual reviews are not switched off. -/
theorem enqueue_notice (policy : DocumentAlertPolicy) (queue : MailQueue) (notice : ReviewNotice)
    (resource actor : String) (now : Int) (accepted : Option (List String))
    (version : Option String) (id : String) :
    enqueue policy queue ⟨notice.action, resource, actor, now, accepted, version⟩ id =
      addJob queue ⟨notice.action, resource, actor, now, accepted, version⟩ id := by
  have hnotified : isNotified notice.action = true := by cases notice <;> decide
  have henabled : documentEventEnabled policy notice.action = true := by
    cases notice <;> simp [documentEventEnabled, ReviewNotice.action]
  rw [enqueue, hnotified, henabled]
  rfl

namespace CycleStore.Sound

variable {store : CycleStore} {policy : DocumentAlertPolicy} {notice : ReviewNotice} {now : Int}
variable {version : CycleVersion}

/-- A version is announced in one cycle only. -/
theorem announce_single (hsound : store.Sound)
    (honly : notice ≠ .annual → ∀ entry ∈ store.announced, entry.notice = notice →
      entry.versionId = version.id → entry.cycle = version.cycle) :
    ∀ first ∈ (store.announce policy notice now version).announced,
      ∀ second ∈ (store.announce policy notice now version).announced,
        first.notice = second.notice → first.notice ≠ .annual →
          first.versionId = second.versionId → first.cycle = second.cycle := by
  intro first hfirst second hsecond hnotice hday hversion
  rcases List.mem_append.mp hfirst with hold | hnew <;>
    rcases List.mem_append.mp hsecond with hold' | hnew'
  · exact hsound.single first hold second hold' hnotice hday hversion
  · rw [List.mem_singleton.mp hnew'] at hnotice hversion ⊢
    rw [hnotice] at hday
    exact honly hday first hold hnotice hversion
  · rw [List.mem_singleton.mp hnew] at hnotice hday hversion ⊢
    exact (honly hday second hold' hnotice.symm hversion.symm).symm
  · rw [List.mem_singleton.mp hnew, List.mem_singleton.mp hnew']

/-- The jobs of the queue are announced. -/
theorem announce_queued (hsound : store.Sound) :
    ∀ job ∈ (store.announce policy notice now version).queue,
      ∃ entry ∈ (store.announce policy notice now version).announced,
        entry.added = true ∧ entry.jobId = job.1 := by
  intro job hjob
  rw [CycleStore.announce, enqueue_notice, mem_addJob] at hjob
  rcases hjob with hold | ⟨rfl, hfresh⟩
  · obtain ⟨entry, hentry, hadded⟩ := hsound.queued job hold
    exact ⟨entry, List.mem_append_left _ hentry, hadded⟩
  · refine ⟨_, List.mem_append_right _ (List.mem_singleton_self _), ?_, rfl⟩
    simpa using hfresh

/-- A job that the queue does not take is there for the same cycle. -/
theorem announce_settled (hsound : store.Sound) (hnamed : version.Named)
    (honly : notice ≠ .annual → ∀ entry ∈ store.announced, entry.notice = notice →
      entry.versionId = version.id → entry.cycle = version.cycle) :
    ∀ entry ∈ (store.announce policy notice now version).announced, entry.notice ≠ .annual →
      ∃ taken ∈ (store.announce policy notice now version).announced,
        taken.added = true ∧ taken.notice = entry.notice ∧ taken.versionId = entry.versionId ∧
          taken.cycle = entry.cycle := by
  intro entry hentry hday
  rcases List.mem_append.mp hentry with hold | hnew
  · obtain ⟨taken, htaken, hsame⟩ := hsound.settled entry hold hday
    exact ⟨taken, List.mem_append_left _ htaken, hsame⟩
  · by_cases hadded : entry.added = true
    · exact ⟨entry, hentry, hadded, rfl, rfl, rfl⟩
    · rw [List.mem_singleton.mp hnew] at hadded hday ⊢
      -- The id is known, so it was announced before, for the same version.
      rw [List.all_eq_true] at hadded
      push Not at hadded
      obtain ⟨job, hjob, hknown⟩ := hadded
      have hid : job.1 = notice.jobId version.id version.documentId now := by simpa using hknown
      obtain ⟨taken, htaken, htakenAdded, htakenId⟩ := hsound.queued job hjob
      have hthis : Announcement.Named
          ⟨notice, version.id, version.documentId, now, version.cycle, false⟩ := hnamed
      obtain ⟨hnotice, hversion⟩ :=
        Announcement.eq_of_jobId hthis (hsound.entries taken htaken)
          (hid.symm.trans htakenId.symm) hday
      exact ⟨taken, List.mem_append_left _ htaken, htakenAdded, hnotice.symm, hversion.symm,
        honly hday taken htaken hnotice.symm hversion.symm⟩

theorem announce (hsound : store.Sound) (hnamed : version.Named)
    (honly : notice ≠ .annual → ∀ entry ∈ store.announced, entry.notice = notice →
      entry.versionId = version.id → entry.cycle = version.cycle) :
    (store.announce policy notice now version).Sound where
  versions := hsound.versions
  entries := by
    intro entry hentry
    rcases List.mem_append.mp hentry with hold | hnew
    · exact hsound.entries entry hold
    · rw [List.mem_singleton.mp hnew]
      exact hnamed
  single := hsound.announce_single honly
  queued := hsound.announce_queued
  settled := hsound.announce_settled hnamed honly

end CycleStore.Sound

def cycleOutline : Concurrent.Outline CycleStore CycleProcess where
  invariant := CycleStore.Sound
  assertion _ _ process := ∀ version ∈ process.carried, version.Named

theorem cycleOutline_valid {nextYear : Int → Int} :
    cycleOutline.Valid (cycleProgram nextYear)
      (fun store => store.versions = [] ∧ store.queue = [] ∧ store.announced = [])
      (Concurrent.Guarded OnlyCycle) where
  init := by
    rintro store ⟨hversions, hqueue, hannounced⟩
    constructor <;> simp [hversions, hqueue, hannounced]
  drift := by
    intro time store after hdrift hsound
    obtain ⟨-, rfl⟩ := Concurrent.drift_eq hdrift
    exact ⟨⟨hsound.versions, hsound.entries, hsound.single, hsound.queued, hsound.settled⟩,
      fun _ _ hcarried => hcarried⟩
  start := by
    intro name store process hstart _ version hversion
    cases process with
    | addVersion id documentId =>
        rw [List.mem_singleton.mp hversion]
        have hlengths : id.length = 36 ∧ documentId.length = 36 := by
          simpa [cycleProgram, CycleProcess.initial] using hstart
        exact hlengths
    | remindersEnqueue | annualCreate | annualEnqueue | overduesEnqueue => cases hstart
    | _ => cases hversion
  own := by
    intro config name choice process remaining after hholds hprocess hguarded hadvance
    have hcarried := hholds.2 name process hprocess
    have honly := hguarded process hprocess
    constructor
    · rcases cycleAdvance_announces hadvance with
        hquiet | ⟨notice, now, version, hmem, hannouncing, rfl⟩
      · refine ⟨hquiet.named hholds.1.versions hcarried, ?_, ?_, ?_, ?_⟩ <;>
          rw [hquiet.announced]
        · exact hholds.1.entries
        · exact hholds.1.single
        · exact fun job hjob => hholds.1.queued job (hquiet.queue job hjob)
        · exact hholds.1.settled
      · exact hholds.1.announce (hcarried version hmem)
          fun hday => honly _ (hannouncing hday)
    · rintro next rfl version hversion
      rcases cycleAdvance_carried hadvance hversion with hread | hbefore
      · exact hholds.1.versions version hread
      · exact hcarried version hbefore
  others := by
    intro config name choice process remaining after hholds _ _ _ other process' _ hother
    exact hholds.2 other process' hother

/-- **Annual review mails.** In every run that meets the condition, the id of a reminder, or of
a mail about an overdue review, was not used in an earlier cycle of the version, and a job
was taken by the queue in the same cycle. -/
theorem review_cycles_announced (nextYear : Int → Int) {config : CycleConfig}
    (hreach : (cycleSystem nextYear).ReachableWhile (Concurrent.Guarded OnlyCycle) config) :
    ∀ entry ∈ config.store.announced, entry.notice ≠ .annual →
      (∀ earlier ∈ config.store.announced, earlier.versionId = entry.versionId →
        earlier.cycle < entry.cycle → earlier.jobId ≠ entry.jobId) ∧
      ∃ taken ∈ config.store.announced, taken.added = true ∧ taken.notice = entry.notice ∧
        taken.versionId = entry.versionId ∧ taken.cycle = entry.cycle := by
  have hsound := (cycleOutline_valid.holds hreach).1
  intro entry hentry hday
  refine ⟨?_, hsound.settled entry hentry hday⟩
  intro earlier hearlier hversion hcycle hid
  obtain ⟨hnotice, -⟩ := Announcement.eq_of_jobId (hsound.entries entry hentry)
    (hsound.entries earlier hearlier) hid.symm hday
  have hsame := hsound.single entry hentry earlier hearlier hnotice hday hversion.symm
  omega

/-! ## Sample -/

def noCycles : CycleStore := ⟨0, [], [], [], [], []⟩

theorem reachable_noCycles {nextYear : Int → Int} {allowed : CycleConfig → CycleMove → Prop} :
    (cycleSystem nextYear).ReachableWhile allowed (Concurrent.idle noCycles) :=
  .init ⟨⟨rfl, rfl, rfl⟩, fun _ => rfl⟩

def versionUuid : String := "00000000-0000-0000-0000-000000000001"

def documentUuid : String := "00000000-0000-0000-0000-000000000002"

/-- An automatic review of the version. -/
def publicationReview : DocumentReview where
  id := "publication"
  documentId := documentUuid
  versionId := some versionUuid
  owner := "ISMS scheduler"
  reviewer := "ISMS moderators"
  approver := "ISMS administrators"
  status := .pending
  dueAt := 0
  decisionComment := none
  decidedBy := none
  decidedAt := none
  evidenceObjectKey := none
  automaticAnnual := false
  automaticPublication := true
  overdueNotifiedAt := none
  createdAt := 0

/-- The version of the sample in a cycle that started on this day. -/
def sampleVersion (day : Int) (reminderAt : Option Int) (cycle : Nat) : CycleVersion :=
  ⟨versionUuid, documentUuid, some (days (day + 365)), none, reminderAt, none, cycle⟩

/-- Reminders are sent thirty days before the date, and the queries give these versions. -/
def cycleChoice (versions : List CycleVersion) : CycleChoice :=
  ⟨⟨true, 30, 30⟩, ⟨true, true, true, true, true⟩, versions, "annual"⟩

/-- A version is published, its publication review approved, and its reminder sent. -/
def firstCycle : List CycleMove :=
  [.start 0 (.addVersion versionUuid documentUuid), .advance 0 (cycleChoice []),
    .start 0 (.publish [documentUuid]), .advance 0 (cycleChoice []),
    .start 0 (.createReview publicationReview), .advance 0 (cycleChoice []),
    .start 0 (.recordReviewDecision "publication" ⟨.approved, ""⟩ "alice"),
    .advance 0 (cycleChoice []), .advance 0 (cycleChoice []), .drift (days 340),
    .start 0 .schedule, .advance 0 (cycleChoice []),
    .advance 0 (cycleChoice [sampleVersion 0 none 1]), .advance 0 (cycleChoice []),
    .advance 0 (cycleChoice []), .advance 0 (cycleChoice []), .advance 0 (cycleChoice []),
    .advance 0 (cycleChoice []), .advance 0 (cycleChoice []),
    .start 0 (.mailCompleted (ReviewNotice.reminder.jobId versionUuid documentUuid 0)),
    .advance 0 (cycleChoice [])]

/-- The annual review is created, and approved: the next cycle starts. -/
def renewal : List CycleMove :=
  [.drift (days 366), .start 0 .schedule, .advance 0 (cycleChoice []), .advance 0 (cycleChoice []),
    .advance 0 (cycleChoice []), .advance 0 (cycleChoice []), .advance 0 (cycleChoice []),
    .advance 0 (cycleChoice []), .advance 0 (cycleChoice []), .advance 0 (cycleChoice []),
    .advance 0 (cycleChoice []),
    .start 0 (.recordReviewDecision "annual" ⟨.approved, ""⟩ "alice"),
    .advance 0 (cycleChoice []), .advance 0 (cycleChoice [])]

/-- The next reminder is due. -/
def secondReminder : List CycleMove :=
  [.drift (days 710), .start 0 .schedule, .advance 0 (cycleChoice []),
    .advance 0 (cycleChoice [sampleVersion 366 none 2]), .advance 0 (cycleChoice []),
    .advance 0 (cycleChoice []), .advance 0 (cycleChoice []), .advance 0 (cycleChoice []),
    .advance 0 (cycleChoice []), .advance 0 (cycleChoice [])]

/-- The announcement of a reminder of the sample. -/
def sampleReminder (day : Int) (cycle : Nat) (added : Bool) : Announcement :=
  ⟨.reminder, versionUuid, documentUuid, days day, cycle, added⟩

def sampleAnnual : Announcement := ⟨.annual, versionUuid, documentUuid, days 366, 1, true⟩

/-- A reminder and a mail about the due review, in the first of two cycles. -/
theorem review_cycles_announced_first :
    ∃ config, (cycleSystem (· + days 365)).ReachableWhile (Concurrent.Guarded OnlyCycle) config ∧
      config.store.announced = [sampleReminder 340 1 true, sampleAnnual] ∧
      ∀ entry ∈ config.store.announced, entry.notice ≠ .annual →
        (∀ earlier ∈ config.store.announced, earlier.versionId = entry.versionId →
          earlier.cycle < entry.cycle → earlier.jobId ≠ entry.jobId) ∧
        ∃ taken ∈ config.store.announced, taken.added = true ∧ taken.notice = entry.notice ∧
          taken.versionId = entry.versionId ∧ taken.cycle = entry.cycle := by
  have hrun : (Concurrent.executeNamed (cycleProgram (· + days 365)) [0]
      (Concurrent.isGuarded OnlyCycle) (Concurrent.idle noCycles)
      (firstCycle ++ renewal)).map (fun config => config.store.announced) =
      some [sampleReminder 340 1 true, sampleAnnual] := by
    decide
  obtain ⟨config, hexecute, hannounced⟩ := Option.map_eq_some_iff.mp hrun
  have hreach := (Concurrent.reachable_executeNamed
    (fun _ _ _ hguarded => Concurrent.guarded_of_isGuarded hguarded) _ (fun _ _ => rfl)
    reachable_noCycles hexecute).1
  exact ⟨config, hreach, hannounced, review_cycles_announced _ hreach⟩

/-- The reminder of the second cycle has the id of the first, and the queue drops it. -/
theorem second_reminder_dropped :
    ∃ config, (cycleSystem (· + days 365)).Reachable config ∧
      sampleReminder 340 1 true ∈ config.store.announced ∧
      sampleReminder 710 2 false ∈ config.store.announced ∧
      (sampleReminder 340 1 true).jobId = (sampleReminder 710 2 false).jobId ∧
      ¬∃ taken ∈ config.store.announced, taken.added = true ∧ taken.notice = .reminder ∧
        taken.cycle = 2 := by
  have hrun : (Concurrent.executeNamed (cycleProgram (· + days 365)) [0] (fun _ _ => true)
      (Concurrent.idle noCycles) (firstCycle ++ renewal ++ secondReminder)).map
      (fun config => config.store.announced) =
      some [sampleReminder 340 1 true, sampleAnnual, sampleReminder 710 2 false] := by
    decide
  obtain ⟨config, hexecute, hannounced⟩ := Option.map_eq_some_iff.mp hrun
  have hreach := (Concurrent.reachable_executeNamed (fun _ _ _ _ => trivial) _ (fun _ _ => rfl)
    reachable_noCycles hexecute).1
  refine ⟨config, hreach, ?_, ?_, rfl, ?_⟩ <;> rw [hannounced]
  · simp
  · simp
  · decide

end IsmsPortal
