import IsmsPortal.Foundation.JsString
import IsmsPortal.Notifications.Queue
import Mathlib.Data.List.Dedup

/-! # Delivery of a mail job

A job is processed again until an attempt completes, each time for an audience computed anew.
The addresses that were served are kept in the data of the job, in lower case. Sending a mail
and recording it are two steps, and either may fail.
-/

namespace IsmsPortal

open Foundation

inductive EmailTemplate
  | report | access | approval | document | governance | service
deriving DecidableEq

def emailTemplate (action : String) : EmailTemplate :=
  if action.startsWith "document-report" || action.startsWith "security-report" then .report
  else if action.startsWith "access-request" then .access
  else if action.startsWith "sensitive-approval" || action.startsWith "document-review" then
    .approval
  else if action.startsWith "document" then .document
  else if action.startsWith "risk-" || action.startsWith "incident-" ||
      action.startsWith "corrective-" then .governance
  else .service

structure MailContent where
  subject : String
  text : String
deriving DecidableEq

structure PreparedNotification where
  recipients : List String
  content : MailContent
  link : String
  recipientMessages : List (String × MailContent)
deriving DecidableEq

/-- A mail handed to the mail service, or the addresses written to the data of the job. -/
inductive MailEvent
  | sent (address : String) (content : MailContent) (link : String) (template : EmailTemplate)
  | recorded (accepted : List String)
deriving DecidableEq

inductive SendOutcome
  | delivered | notDelivered | failed

/-- `updateData` may fail after its effect. -/
inductive UpdateOutcome
  | done
  | failed (stored : Bool)

/-- Why an attempt ends. `stopped` is the end of the worker. -/
inductive AttemptError
  | prepareFailed | noRecipients | sendFailed | notConfigured | updateFailed | flagsFailed | stopped
deriving DecidableEq

/-- The texts of the errors that `process` itself throws. -/
def AttemptError.message : AttemptError → Option String
  | .noRecipients =>
      some "No eligible mail recipients: check active ACLs and the AD mail attribute"
  | .notConfigured => some "Microsoft Graph is not configured"
  | _ => none

inductive AttemptResult
  | skipped
  | completed (accepted audience : Nat)
  | failed (error : AttemptError)
deriving DecidableEq

/-- What an attempt meets: the message or none, or a failure to prepare it; the calls for
its mails; the update of the flags. -/
structure Attempt where
  prepared : Option (Option PreparedNotification)
  outcomes : List (SendOutcome × UpdateOutcome)
  flagsFail : Bool

/-- `new Set(values)`, in the order of insertion. -/
def newSet (values : List String) : List String := values.reverse.dedup.reverse

/-- The loop of an attempt: the set of accepted addresses, those in the data of the job, and
what was done. -/
structure DeliveryLoop where
  accepted : List String
  stored : Option (List String)
  events : List MailEvent

namespace DeliveryLoop

variable (loop : DeliveryLoop)

def send (event : MailEvent) : DeliveryLoop := { loop with events := loop.events ++ [event] }

def accept (recipient : String) : DeliveryLoop :=
  { loop with accepted := loop.accepted ++ [recipient] }

/-- `job.updateData`. -/
def record : DeliveryLoop :=
  { loop with stored := some loop.accepted, events := loop.events ++ [.recorded loop.accepted] }

end DeliveryLoop

/-- The mail for an address. -/
def mailFor (message : PreparedNotification) (action address : String) : MailEvent :=
  .sent (JsString.trim address) ((message.recipientMessages.lookup address).getD message.content)
    message.link (emailTemplate action)

/-- The loop over the recipients, and the error that ends it. -/
def deliver (casing : JsString.Casing) (message : PreparedNotification) (action : String) :
    List String → List (SendOutcome × UpdateOutcome) → DeliveryLoop →
      DeliveryLoop × Option AttemptError
  | [], _, loop => (loop, none)
  | address :: rest, outcomes, loop =>
      if casing.normalize address ∈ loop.accepted then
        deliver casing message action rest outcomes loop
      else
        match outcomes with
        | [] => (loop, some .stopped)
        | (.failed, _) :: _ => (loop.send (mailFor message action address), some .sendFailed)
        | (.notDelivered, _) :: _ =>
            (loop.send (mailFor message action address), some .notConfigured)
        | (.delivered, .failed stored) :: _ =>
            let sent := (loop.send (mailFor message action address)).accept
              (casing.normalize address)
            (if stored then sent.record else sent, some .updateFailed)
        | (.delivered, .done) :: outcomes =>
            deliver casing message action rest outcomes
              ((loop.send (mailFor message action address)).accept
                (casing.normalize address)).record

/-- The data of a job after an attempt, what the attempt did, and its result. -/
structure Processed where
  data : NotificationJob
  events : List MailEvent
  result : AttemptResult

/-- The loop starts with what the data of the job has. -/
def DeliveryLoop.start (casing : JsString.Casing) (data : NotificationJob) : DeliveryLoop :=
  ⟨newSet ((data.accepted.getD []).map casing.normalize), data.accepted, []⟩

/-- One attempt on a job. -/
def NotificationService.process (casing : JsString.Casing) (data : NotificationJob)
    (attempt : Attempt) : Processed :=
  match attempt.prepared with
  | none => ⟨data, [], .failed .prepareFailed⟩
  | some none => ⟨data, [], .skipped⟩
  | some (some message) =>
      if message.recipients.isEmpty then ⟨data, [], .failed .noRecipients⟩
      else
        let (loop, error) := deliver casing message data.action message.recipients attempt.outcomes
          (.start casing data)
        let audience := newSet (message.recipients.map casing.normalize)
        ⟨{ data with accepted := loop.stored }, loop.events,
          match error with
          | some error => .failed error
          | none =>
              if attempt.flagsFail then .failed .flagsFailed
              else .completed loop.accepted.length audience.length⟩

/-- A job with everything its attempts have done. -/
structure JobRun where
  data : NotificationJob
  events : List MailEvent

def JobRun.attempt (casing : JsString.Casing) (run : JobRun) (attempt : Attempt) : JobRun :=
  let processed := NotificationService.process casing run.data attempt
  ⟨processed.data, run.events ++ processed.events⟩

/-- The attempts on a job, one after the other. -/
def runAttempts (casing : JsString.Casing) (data : NotificationJob) (attempts : List Attempt) :
    JobRun :=
  attempts.foldl (JobRun.attempt casing) ⟨data, []⟩

/-! ## Sets -/

theorem mem_newSet {value : String} {values : List String} :
    value ∈ newSet values ↔ value ∈ values := by
  simp [newSet]

theorem nodup_newSet (values : List String) : (newSet values).Nodup :=
  List.nodup_reverse.mpr (List.nodup_dedup _)

theorem newSet_of_nodup {values : List String} (hnodup : values.Nodup) :
    newSet values = values := by
  rw [newSet, (List.nodup_reverse.mpr hnodup).dedup, List.reverse_reverse]

/-! ## One attempt -/

section Attempt

variable (casing : JsString.Casing)

/-- The addresses in the data of a job, in lower case. -/
def normalized (accepted : List String) : List String := newSet (accepted.map casing.normalize)

theorem mem_normalized {value : String} {accepted : List String} :
    value ∈ normalized casing accepted ↔ value ∈ accepted.map casing.normalize :=
  mem_newSet

/-- A list that was normalised stays as it is. -/
theorem normalized_eq_self {accepted : List String} (hnodup : accepted.Nodup)
    (hnormal : ∀ value ∈ accepted, casing.normalize value = value) :
    normalized casing accepted = accepted := by
  have hmap : accepted.map casing.normalize = accepted := by
    conv_rhs => rw [← List.map_id accepted]
    exact List.map_congr_left hnormal
  rw [normalized, hmap, newSet_of_nodup hnodup]

/-- What may come after an event: no mail to an address that is recorded, and no list that
is shorter. -/
def MailEvent.Before : MailEvent → MailEvent → Prop
  | .recorded accepted, .sent address .. =>
      casing.normalize address ∉ accepted.map casing.normalize
  | .recorded accepted, .recorded later => normalized casing accepted <+: later
  | _, _ => True

/-- The addresses of the mails. -/
def sentTo : List MailEvent → List String
  | [] => []
  | .sent address .. :: rest => address :: sentTo rest
  | .recorded _ :: rest => sentTo rest

theorem sentTo_append (first second : List MailEvent) :
    sentTo (first ++ second) = sentTo first ++ sentTo second := by
  induction first with
  | nil => rfl
  | cons event rest ih => cases event <;> simp [sentTo, ih]

namespace DeliveryLoop

variable (history : List MailEvent)

/-- The events so far are in order, and the data of the job has all that was recorded. -/
structure Sound (loop : DeliveryLoop) : Prop where
  ordered : (history ++ loop.events).Pairwise (MailEvent.Before casing)
  kept : ∀ accepted, .recorded accepted ∈ history ++ loop.events →
    normalized casing accepted <+: normalized casing (loop.stored.getD [])
  distinct : ((sentTo loop.events).map casing.normalize).Nodup

/-- What holds before each recipient. -/
structure Ready (loop : DeliveryLoop) : Prop extends Sound casing history loop where
  accepted : loop.accepted = normalized casing (loop.stored.getD [])
  served : ∀ address ∈ sentTo loop.events, casing.normalize address ∈ loop.accepted

variable {casing history} {loop : DeliveryLoop} {message : PreparedNotification}
variable {action address : String}

/-- A mail to an address that was not accepted. -/
theorem Ready.send (hready : loop.Ready casing history)
    (hnew : casing.normalize address ∉ loop.accepted) :
    (loop.send (mailFor message action address)).Sound casing history where
  ordered := by
    rw [DeliveryLoop.send, ← List.append_assoc, List.pairwise_append]
    refine ⟨hready.ordered, List.pairwise_singleton _ _, ?_⟩
    intro earlier hearlier later hlater
    rw [List.mem_singleton.mp hlater]
    cases earlier with
    | sent => trivial
    | recorded accepted =>
        intro hmem
        rw [JsString.Casing.normalize_trim, ← mem_normalized] at hmem
        rw [hready.accepted] at hnew
        exact hnew ((hready.kept accepted hearlier).subset hmem)
  kept := by
    intro accepted hmem
    rw [DeliveryLoop.send, ← List.append_assoc, List.mem_append, List.mem_singleton] at hmem
    rcases hmem with hold | hsent
    · exact hready.kept accepted hold
    · cases hsent
  distinct := by
    rw [DeliveryLoop.send, sentTo_append, List.map_append, List.nodup_append_comm]
    refine List.nodup_cons.mpr ⟨?_, hready.distinct⟩
    intro hmem
    obtain ⟨earlier, hearlier, heq⟩ := List.mem_map.mp hmem
    rw [JsString.Casing.normalize_trim] at heq
    exact hnew (heq ▸ hready.served earlier hearlier)

/-- The accepted addresses after a mail. -/
theorem Ready.accept_eq (hready : loop.Ready casing history)
    (hnew : casing.normalize address ∉ loop.accepted) :
    normalized casing (loop.accepted ++ [casing.normalize address]) =
      loop.accepted ++ [casing.normalize address] := by
  have hnodup : loop.accepted.Nodup := by
    rw [hready.accepted]
    exact nodup_newSet _
  apply normalized_eq_self
  · rw [List.nodup_append_comm]
    exact List.nodup_cons.mpr ⟨hnew, hnodup⟩
  · intro value hvalue
    rcases List.mem_append.mp hvalue with hold | hlast
    · rw [hready.accepted, mem_normalized] at hold
      obtain ⟨raw, -, rfl⟩ := List.mem_map.mp hold
      exact JsString.Casing.normalize_normalize casing raw
    · rw [List.mem_singleton.mp hlast]
      exact JsString.Casing.normalize_normalize casing address

/-- The mail is recorded. -/
theorem Ready.record (hready : loop.Ready casing history)
    (hnew : casing.normalize address ∉ loop.accepted) :
    ((loop.send (mailFor message action address)).accept
      (casing.normalize address)).record.Ready casing history := by
  have hsent : (loop.send (mailFor message action address)).Sound casing history :=
    hready.send hnew
  have hgrows : normalized casing (loop.stored.getD []) <+:
      loop.accepted ++ [casing.normalize address] :=
    hready.accepted ▸ List.prefix_append _ _
  constructor
  · constructor
    · rw [DeliveryLoop.record, ← List.append_assoc, List.pairwise_append]
      refine ⟨hsent.ordered, List.pairwise_singleton _ _, ?_⟩
      intro earlier hearlier later hlater
      rw [List.mem_singleton.mp hlater]
      cases earlier with
      | sent => trivial
      | recorded accepted => exact (hsent.kept accepted hearlier).trans hgrows
    · intro accepted hmem
      rw [DeliveryLoop.record, ← List.append_assoc, List.mem_append, List.mem_singleton] at hmem
      change _ <+: normalized casing (loop.accepted ++ [casing.normalize address])
      rw [hready.accept_eq hnew]
      rcases hmem with hold | hrecorded
      · exact (hsent.kept accepted hold).trans hgrows
      · cases hrecorded
        refine ⟨[], ?_⟩
        rw [List.append_nil]
        exact hready.accept_eq hnew
    · rw [DeliveryLoop.record, sentTo_append, sentTo, sentTo, List.append_nil]
      exact hsent.distinct
  · exact (hready.accept_eq hnew).symm
  · intro other hother
    rw [DeliveryLoop.record, sentTo_append, sentTo, sentTo, List.append_nil] at hother
    change other ∈ sentTo (loop.events ++ [mailFor message action address]) at hother
    rw [sentTo_append, List.mem_append] at hother
    rcases hother with hold | hlast
    · exact List.mem_append_left _ (hready.served other hold)
    · rw [mailFor, sentTo, sentTo, List.mem_singleton] at hlast
      rw [hlast, JsString.Casing.normalize_trim]
      exact List.mem_append_right _ (List.mem_singleton_self _)

theorem deliver_sound (recipients : List String) (outcomes : List (SendOutcome × UpdateOutcome))
    (hready : loop.Ready casing history) :
    (deliver casing message action recipients outcomes loop).1.Sound casing history := by
  induction recipients generalizing outcomes loop with
  | nil => exact hready.toSound
  | cons address rest ih =>
      unfold deliver
      split
      next => exact ih outcomes hready
      next hnew =>
        split
        next => exact hready.toSound
        next => exact hready.send hnew
        next => exact hready.send hnew
        next stored _ =>
          cases stored with
          | false =>
              have hsent : (loop.send (mailFor message action address)).Sound casing history :=
                hready.send hnew
              exact ⟨hsent.ordered, hsent.kept, hsent.distinct⟩
          | true => exact (hready.record hnew).toSound
        next => exact ih _ (hready.record hnew)

/-- A loop that reaches its end has served every recipient. -/
theorem deliver_completed (recipients : List String)
    (outcomes : List (SendOutcome × UpdateOutcome)) (hready : loop.Ready casing history)
    (hdone : (deliver casing message action recipients outcomes loop).2 = none) :
    (deliver casing message action recipients outcomes loop).1.Ready casing history ∧
      (∀ value ∈ loop.accepted,
        value ∈ (deliver casing message action recipients outcomes loop).1.accepted) ∧
      ∀ address ∈ recipients, casing.normalize address ∈
        (deliver casing message action recipients outcomes loop).1.accepted := by
  induction recipients generalizing outcomes loop with
  | nil => exact ⟨hready, fun _ hvalue => hvalue, by simp⟩
  | cons address rest ih =>
      unfold deliver at hdone ⊢
      split at hdone
      next hserved =>
        rw [if_pos hserved]
        obtain ⟨hend, hgrows, hrest⟩ := ih outcomes hready hdone
        refine ⟨hend, hgrows, List.forall_mem_cons.mpr ⟨hgrows _ hserved, hrest⟩⟩
      next hnew =>
        rw [if_neg hnew]
        split at hdone
        next => cases hdone
        next => cases hdone
        next => cases hdone
        next => cases hdone
        next outcomes =>
          obtain ⟨hend, hgrows, hrest⟩ := ih outcomes (hready.record hnew) hdone
          refine ⟨hend, fun value hvalue => hgrows value (List.mem_append_left _ hvalue), ?_⟩
          exact List.forall_mem_cons.mpr
            ⟨hgrows _ (List.mem_append_right _ (List.mem_singleton_self _)), hrest⟩

end DeliveryLoop

/-- The events before an attempt are in order, and the data has all that was recorded. -/
structure JobRun.Sound (first : List String) (run : JobRun) : Prop where
  ordered : (.recorded first :: run.events).Pairwise (MailEvent.Before casing)
  kept : ∀ accepted, .recorded accepted ∈ .recorded first :: run.events →
    normalized casing accepted <+: normalized casing (run.data.accepted.getD [])

variable {casing}

theorem JobRun.Sound.start {first : List String} {run : JobRun} (hsound : run.Sound casing first) :
    (DeliveryLoop.start casing run.data).Ready casing (.recorded first :: run.events) where
  ordered := by
    rw [DeliveryLoop.start, List.append_nil]
    exact hsound.ordered
  kept := by
    rw [DeliveryLoop.start, List.append_nil]
    exact hsound.kept
  distinct := List.nodup_nil
  accepted := rfl
  served := by
    intro address haddress
    cases haddress

/-- An attempt on a job whose data has all that was recorded. -/
theorem JobRun.Sound.attempt {first : List String} {run : JobRun} (hsound : run.Sound casing first)
    (attempt : Attempt) : (run.attempt casing attempt).Sound casing first := by
  unfold JobRun.attempt NotificationService.process
  split
  next => exact ⟨by simpa using hsound.ordered, by simpa using hsound.kept⟩
  next => exact ⟨by simpa using hsound.ordered, by simpa using hsound.kept⟩
  next message _ =>
    split
    next => exact ⟨by simpa using hsound.ordered, by simpa using hsound.kept⟩
    next =>
      have hend : (deliver casing message run.data.action message.recipients attempt.outcomes
          (.start casing run.data)).1.Sound casing (.recorded first :: run.events) :=
        DeliveryLoop.deliver_sound _ _ hsound.start
      exact ⟨hend.ordered, hend.kept⟩

/-- A run keeps all that was recorded. -/
theorem runAttempts_sound (data : NotificationJob) (attempts : List Attempt) :
    (runAttempts casing data attempts).Sound casing (data.accepted.getD []) := by
  have hrun : ∀ run : JobRun, run.Sound casing (data.accepted.getD []) →
      (attempts.foldl (JobRun.attempt casing) run).Sound casing (data.accepted.getD []) := by
    induction attempts with
    | nil => exact fun _ hsound => hsound
    | cons attempt rest ih => exact fun run hsound => ih _ (hsound.attempt attempt)
  refine hrun ⟨data, []⟩ ⟨List.pairwise_singleton _ _, ?_⟩
  intro accepted hmem
  rw [List.mem_singleton, MailEvent.recorded.injEq] at hmem
  subst hmem
  exact List.prefix_refl _

/-- An attempt forgets no address. -/
theorem process_grows (data : NotificationJob) (attempt : Attempt) :
    normalized casing (data.accepted.getD []) <+: normalized casing
      ((NotificationService.process casing data attempt).data.accepted.getD []) := by
  have hsound : (runAttempts casing data [attempt]).Sound casing (data.accepted.getD []) :=
    runAttempts_sound data [attempt]
  exact hsound.kept _ List.mem_cons_self

/-- An attempt sends no two mails to an address. -/
theorem process_distinct (data : NotificationJob) (attempt : Attempt) :
    ((sentTo (NotificationService.process casing data attempt).events).map
      casing.normalize).Nodup := by
  have hsound : (runAttempts casing data []).Sound casing (data.accepted.getD []) :=
    runAttempts_sound data []
  unfold NotificationService.process
  split
  next => exact List.nodup_nil
  next => exact List.nodup_nil
  next message _ =>
    split
    next => exact List.nodup_nil
    next => exact (DeliveryLoop.deliver_sound _ _ hsound.start).distinct

/-- An attempt that completes has recorded its whole audience. -/
theorem process_completed {data : NotificationJob} {attempt : Attempt} {accepted audience : Nat}
    (hcompleted : (NotificationService.process casing data attempt).result =
      .completed accepted audience) :
    ∃ message, attempt.prepared = some (some message) ∧ ∀ address ∈ message.recipients,
      casing.normalize address ∈ ((NotificationService.process casing data
        attempt).data.accepted.getD []).map casing.normalize := by
  have hsound : (runAttempts casing data []).Sound casing (data.accepted.getD []) :=
    runAttempts_sound data []
  unfold NotificationService.process at hcompleted ⊢
  split at hcompleted
  next => cases hcompleted
  next => cases hcompleted
  next message hprepared =>
    refine ⟨message, hprepared, fun address haddress => ?_⟩
    split at hcompleted
    next => cases hcompleted
    next hsome =>
      dsimp only at hcompleted ⊢
      rw [if_neg hsome]
      split at hcompleted
      next => cases hcompleted
      next herror =>
        obtain ⟨hready, -, hserved⟩ := DeliveryLoop.deliver_completed _ _ hsound.start herror
        rw [← mem_normalized]
        exact hready.accepted ▸ hserved address haddress

end Attempt

/-- **Mails of a job.** In every sequence of attempts on a job, an address that is recorded in
its data, at first or by an attempt, gets no mail afterwards, and the recorded list only
grows. Each attempt sends at most one mail to an address, and an attempt that completes has
its whole audience in the data of the job. -/
theorem no_recipient_mailed_twice (casing : JsString.Casing) (data : NotificationJob)
    (attempts : List Attempt) :
    (∀ before after address content link template,
        (runAttempts casing data attempts).events =
          before ++ .sent address content link template :: after →
        ∀ accepted, accepted = data.accepted.getD [] ∨ .recorded accepted ∈ before →
          casing.normalize address ∉ accepted.map casing.normalize) ∧
      (∀ before after later, (runAttempts casing data attempts).events =
          before ++ .recorded later :: after →
        ∀ accepted, accepted = data.accepted.getD [] ∨ .recorded accepted ∈ before →
          normalized casing accepted <+: later) ∧
      (∀ attempt, normalized casing ((runAttempts casing data attempts).data.accepted.getD []) <+:
        normalized casing ((NotificationService.process casing
          (runAttempts casing data attempts).data attempt).data.accepted.getD [])) ∧
      ∀ attempt, ((sentTo (NotificationService.process casing
          (runAttempts casing data attempts).data attempt).events).map casing.normalize).Nodup ∧
        ∀ accepted audience message, (NotificationService.process casing
            (runAttempts casing data attempts).data attempt).result =
              .completed accepted audience → attempt.prepared = some (some message) →
          ∀ address ∈ message.recipients, casing.normalize address ∈
            ((NotificationService.process casing (runAttempts casing data attempts).data
              attempt).data.accepted.getD []).map casing.normalize := by
  have hsound : (runAttempts casing data attempts).Sound casing (data.accepted.getD []) :=
    runAttempts_sound data attempts
  have hordered : ∀ before event after, (runAttempts casing data attempts).events =
        before ++ event :: after →
      ∀ accepted, accepted = data.accepted.getD [] ∨ .recorded accepted ∈ before →
        MailEvent.Before casing (.recorded accepted) event := by
    intro before event after hevents accepted haccepted
    have hpairwise := hsound.ordered
    rw [hevents, ← List.cons_append, List.pairwise_append] at hpairwise
    refine hpairwise.2.2 (.recorded accepted) ?_ event List.mem_cons_self
    rcases haccepted with rfl | hmem
    · exact List.mem_cons_self
    · exact List.mem_cons_of_mem _ hmem
  refine ⟨?_, ?_, ?_, ?_⟩
  · intro before after address content link template hevents accepted haccepted
    exact hordered before _ after hevents accepted haccepted
  · intro before after later hevents accepted haccepted
    exact hordered before _ after hevents accepted haccepted
  · exact fun attempt => process_grows _ attempt
  · intro attempt
    refine ⟨process_distinct _ attempt, ?_⟩
    intro accepted audience message hcompleted hprepared address haddress
    obtain ⟨prepared, hsome, hserved⟩ := process_completed hcompleted
    rw [hprepared, Option.some.injEq, Option.some.injEq] at hsome
    exact hserved address (hsome ▸ haddress)

/-! ## Sample -/

/-- A message to these addresses. -/
def sampleMessage (recipients : List String) : PreparedNotification :=
  ⟨recipients, ⟨"subject", "text"⟩, "link", []⟩

/-- The mail to Bob fails in the first attempt. -/
def failingAttempt : Attempt :=
  ⟨some (some (sampleMessage [" Alice@x.org", "alice@X.org", "bob@x.org"])),
    [(.delivered, .done), (.failed, .done)], false⟩

def secondAttempt : Attempt :=
  ⟨some (some (sampleMessage ["BOB@x.org", "ALICE@x.org", "carol@x.org"])),
    [(.delivered, .done), (.delivered, .done)], false⟩

def sampleJob : NotificationJob := ⟨"document.publish", "document:1", "eve", 0, none, none⟩

/-- Alice gets one mail, in the first attempt; the second attempt completes. -/
theorem no_recipient_mailed_twice_retry :
    sentTo (runAttempts JsString.asciiCasing sampleJob [failingAttempt, secondAttempt]).events =
        ["Alice@x.org", "bob@x.org", "BOB@x.org", "carol@x.org"] ∧
      (runAttempts JsString.asciiCasing sampleJob [failingAttempt]).data.accepted =
        some ["alice@x.org"] ∧
      (NotificationService.process JsString.asciiCasing (runAttempts JsString.asciiCasing sampleJob
        [failingAttempt]).data secondAttempt).result = .completed 3 3 ∧
      ∀ address ∈ ["BOB@x.org", "ALICE@x.org", "carol@x.org"],
        JsString.asciiCasing.normalize address ∈ ((NotificationService.process JsString.asciiCasing
          (runAttempts JsString.asciiCasing sampleJob [failingAttempt]).data
          secondAttempt).data.accepted.getD []).map JsString.asciiCasing.normalize := by
  have hresult : (NotificationService.process JsString.asciiCasing
      (runAttempts JsString.asciiCasing sampleJob [failingAttempt]).data secondAttempt).result =
      .completed 3 3 := by decide +kernel
  obtain ⟨-, -, -, hattempts⟩ :=
    no_recipient_mailed_twice JsString.asciiCasing sampleJob [failingAttempt]
  refine ⟨by decide +kernel, by decide +kernel, hresult, ?_⟩
  exact (hattempts secondAttempt).2 3 3 _ hresult rfl

end IsmsPortal
