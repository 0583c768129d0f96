import IsmsPortal.Foundation.CodeUnits
import IsmsPortal.Foundation.Double
import IsmsPortal.Foundation.IsoDate
import IsmsPortal.Foundation.OrderedMap
import IsmsPortal.Foundation.Runs
import Mathlib.Order.Defs.LinearOrder
import Mathlib.Data.List.Lex

/-! # Alerts about the health of the services

A check of the services compares their incidents with the last message that was sent. The same
incidents are reported again on the same channel only after some time, and a recovery only when
incidents were reported. The stored state is that of the last message, so a message that cannot be
sent is tried again by the next check.
-/

namespace Notifications.HealthAlerts

open Foundation

/-! ## Incidents -/

structure Disk where
  availableBytes : Double
  totalBytes : Double

structure HealthSnapshot where
  services : OrderedMap String Bool
  disk : Option Disk

def unavailable (name : String) : String := "Service unavailable: " ++ name

/-- The order of `sort()`: by code units. -/
def unitsLe (left right : String) : Bool :=
  (unitsOfChars left.toList).map Fin.val ≤ (unitsOfChars right.toList).map Fin.val

def Disk.isMeasured (disk : Disk) : Bool :=
  disk.totalBytes.isFinite && Double.lt (.finite 0) disk.totalBytes &&
    disk.availableBytes.isFinite && disk.availableBytes.ge (.finite 0)

def serviceIncidents (snapshot : HealthSnapshot) : List String :=
  (((snapshot.services.entries.filter fun entry => !entry.2).map fun entry =>
    unavailable entry.1).mergeSort unitsLe)

def unmeasured (incidents : List String) : List String :=
  if incidents.contains (unavailable "storageMetrics") then incidents
  else incidents ++ ["Document storage capacity could not be checked."]

def healthIncidents (snapshot : HealthSnapshot) : List String :=
  let incidents := serviceIncidents snapshot
  match snapshot.disk with
  | none => unmeasured incidents
  | some disk =>
      if disk.isMeasured then
        if (disk.availableBytes.div disk.totalBytes).lt (.ofRat (1 / 10)) then
          incidents ++ ["Document storage has less than 10% free space."]
        else incidents
      else unmeasured incidents

/-- `incidents.join("\n")`. -/
def signature (snapshot : HealthSnapshot) : String :=
  "\n".intercalate (healthIncidents snapshot)

/-! ## One check -/

structure AlertPolicy where
  enabled : Bool
  channel : Option String

def policyChannels : List String := ["graph", "email", "teams", "teams-graph", "slack", "webhook"]

/-- The channel of a policy that is switched on. -/
def activeChannel (policy : Option AlertPolicy) : Option String :=
  policy.bind fun policy =>
    if policy.enabled then policy.channel.filter fun channel => policyChannels.contains channel
    else none

/-- The value under `observability.health-alert-state`. -/
structure AlertState where
  signature : String
  at_ : List Char
  channel : String

/-- A message that was sent. -/
structure Sent where
  channel : String
  signature : String
  sentAt : Date

def alertSubject : String := "[ISMS Portal] Infrastructure alert"

def recoveredSubject : String := "[ISMS Portal] Infrastructure recovered"

def Sent.subject (sent : Sent) : String :=
  if sent.signature ≠ "" then alertSubject else recoveredSubject

def Sent.message (sent : Sent) : String :=
  if sent.signature ≠ "" then sent.signature
  else "The previously reported services and document storage capacity are healthy again."

/-- When a message was sent, and when the state was stamped. -/
structure Delivery where
  sentAt : Date
  stampedAt : Date

/-- What a call finds: the policy, the services unless they cannot be collected, the time, and the
delivery unless sending fails. The clock does not go back. -/
structure Attempt where
  policy : Option AlertPolicy
  collected : Option HealthSnapshot
  now : Date
  delivery : Option Delivery
  ordered : ∀ times ∈ delivery,
    now.ms ≤ times.sentAt.ms ∧ times.sentAt.ms ≤ times.stampedAt.ms

inductive Outcome
  | skipped
  | failed
  | sent (sent : Sent) (state : AlertState)

/-- The same incidents on the same channel, less than fifteen minutes ago. -/
def isRepeat (stored : Option AlertState) (signature channel : String) (now : Date) : Bool :=
  stored.any fun state =>
    signature = state.signature && channel = state.channel &&
      (Date.parseIso state.at_).any fun last => now.ms - last.ms < 15 * 60000

def evaluateHealth (stored : Option AlertState) (attempt : Attempt) : Outcome :=
  match activeChannel attempt.policy with
  | none => .skipped
  | some channel =>
      match attempt.collected with
      | none => .failed
      | some snapshot =>
          let signature := signature snapshot
          if signature = "" ∧ (stored.map AlertState.signature).getD "" = "" then .skipped
          else if isRepeat stored signature channel attempt.now then .skipped
          else
            match attempt.delivery with
            | none => .failed
            | some times =>
                .sent ⟨channel, signature, times.sentAt⟩
                  ⟨signature, times.stampedAt.isoText, channel⟩

/-! ## Runs -/

/-- The stored state, and the messages that were sent, the last one at the end. -/
structure Health where
  stored : Option AlertState
  sends : List Sent

def Health.after (health : Health) (attempt : Attempt) : Health :=
  match evaluateHealth health.stored attempt with
  | .sent sent state => { stored := some state, sends := health.sends ++ [sent] }
  | _ => health

def system : System Health Attempt where
  init health := health = ⟨none, []⟩
  step health attempt after := after = health.after attempt

/-! ## The order of the entries -/

theorem unitsLe_antisymm {left right : String} (hle : unitsLe left right = true)
    (hge : unitsLe right left = true) : left = right := by
  have hunits := le_antisymm (of_decide_eq_true hle) (of_decide_eq_true hge)
  exact String.toList_injective
    (unitsOfChars_injective (List.map_injective_iff.mpr Fin.val_injective hunits))

theorem mergeSort_eq_of_perm {texts others : List String} (h : texts.Perm others) :
    texts.mergeSort unitsLe = others.mergeSort unitsLe := by
  have htrans (a b c : String) (hab : unitsLe a b = true) (hbc : unitsLe b c = true) :
      unitsLe a c = true :=
    decide_eq_true ((of_decide_eq_true hab).trans (of_decide_eq_true hbc))
  have htotal (a b : String) : (unitsLe a b || unitsLe b a) = true := by
    simpa [unitsLe] using le_total _ _
  have hsame : (texts.mergeSort unitsLe).Perm (others.mergeSort unitsLe) :=
    (List.mergeSort_perm _ _).trans (h.trans (List.mergeSort_perm _ _).symm)
  apply hsame.eq_of_pairwise _ (List.pairwise_mergeSort htrans htotal _)
    (List.pairwise_mergeSort htrans htotal _)
  intro left right _ _ hle hge
  exact unitsLe_antisymm hle hge

def HealthSnapshot.IsUnhealthy (snapshot : HealthSnapshot) (name : String) : Prop :=
  snapshot.services.lookup name = some false

theorem serviceIncidents_eq {snapshot other : HealthSnapshot}
    (h : ∀ name, snapshot.IsUnhealthy name ↔ other.IsUnhealthy name) :
    serviceIncidents snapshot = serviceIncidents other := by
  have hnodup (snapshot : HealthSnapshot) :
      ((snapshot.services.entries.filter fun entry => !entry.2).map Sigma.fst).Nodup :=
    List.Nodup.sublist (List.filter_sublist.map Sigma.fst) snapshot.services.nodupKeys
  have hmem (snapshot : HealthSnapshot) (name : String) :
      name ∈ (snapshot.services.entries.filter fun entry => !entry.2).map Sigma.fst ↔
        snapshot.IsUnhealthy name := by
    rw [HealthSnapshot.IsUnhealthy, ← Option.mem_def, AList.mem_lookup_iff]
    simp
  have hperm := (List.perm_ext_iff_of_nodup (hnodup snapshot) (hnodup other)).mpr
    fun name => by rw [hmem, hmem, h]
  have hnames := hperm.map unavailable
  rw [List.map_map, List.map_map] at hnames
  exact mergeSort_eq_of_perm hnames

/-- The signature depends on the set of unhealthy services and on the disk. -/
theorem signature_eq {snapshot other : HealthSnapshot}
    (hservices : ∀ name, snapshot.IsUnhealthy name ↔ other.IsUnhealthy name)
    (hdisk : snapshot.disk = other.disk) : signature snapshot = signature other := by
  rw [signature, signature, healthIncidents, healthIncidents, serviceIncidents_eq hservices, hdisk]

/-! ## What a check sends -/

def Sent.IsRecovery (sent : Sent) : Prop := sent.subject = recoveredSubject

theorem isRecovery_iff {sent : Sent} : sent.IsRecovery ↔ sent.signature = "" := by
  have hne : alertSubject ≠ recoveredSubject := by decide
  unfold Sent.IsRecovery Sent.subject
  split
  next hsome => exact iff_of_false hne hsome
  next hnone => exact iff_of_true rfl (not_not.mp hnone)

/-- The stored state is that of the message, stamped when it was out. -/
def Records (sent : Sent) (state : AlertState) : Prop :=
  ∃ stamped : Date, sent.sentAt.ms ≤ stamped.ms ∧
    state = ⟨sent.signature, stamped.isoText, sent.channel⟩

/-- A recovery comes behind incidents, and the same incidents on the same channel not before fifteen
minutes. -/
structure Follows (last : Option Sent) (sent : Sent) : Prop where
  recovery : sent.IsRecovery → ∃ previous ∈ last, ¬ previous.IsRecovery
  spaced : ∀ previous ∈ last, previous.signature = sent.signature →
    previous.channel = sent.channel → previous.sentAt.ms + 15 * 60000 ≤ sent.sentAt.ms

/-- The stored state belongs to the last message. -/
def Matches (stored : Option AlertState) (last : Option Sent) : Prop :=
  Option.Rel (fun state sent => Records sent state) stored last

theorem evaluateHealth_sent {stored : Option AlertState} {attempt : Attempt} {sent : Sent}
    {state : AlertState} (h : evaluateHealth stored attempt = .sent sent state) :
    ∃ times ∈ attempt.delivery, sent.sentAt = times.sentAt ∧
      state = ⟨sent.signature, times.stampedAt.isoText, sent.channel⟩ ∧
      ¬ (sent.signature = "" ∧ (stored.map AlertState.signature).getD "" = "") ∧
      ¬ isRepeat stored sent.signature sent.channel attempt.now = true := by
  unfold evaluateHealth at h
  split at h
  next => cases h
  next channel hchannel =>
    split at h
    next => cases h
    next snapshot hsnapshot =>
      dsimp only at h
      split at h
      next => cases h
      next hnews =>
        split at h
        next => cases h
        next hrepeat =>
          split at h
          next => cases h
          next times htimes =>
            cases h
            exact ⟨times, htimes, rfl, rfl, hnews, hrepeat⟩

theorem follows_of_sent {stored : Option AlertState} {last : Option Sent} {attempt : Attempt}
    {sent : Sent} {state : AlertState} (hmatches : Matches stored last)
    (h : evaluateHealth stored attempt = .sent sent state) :
    Follows last sent ∧ Records sent state := by
  obtain ⟨times, htimes, hsentAt, hstate, hnews, hrepeat⟩ := evaluateHealth_sent h
  obtain ⟨hnow, hstamped⟩ := attempt.ordered times htimes
  rw [← hsentAt] at hnow hstamped
  refine ⟨?_, times.stampedAt, hstamped, hstate⟩
  cases hmatches with
  | none =>
      refine ⟨?_, by simp⟩
      intro hrecovery
      exact absurd ⟨isRecovery_iff.mp hrecovery, rfl⟩ hnews
  | @some before previous hrecords =>
      obtain ⟨stamped, hbefore, rfl⟩ := hrecords
      constructor
      · intro hrecovery
        refine ⟨previous, rfl, ?_⟩
        intro hold
        exact hnews ⟨isRecovery_iff.mp hrecovery, isRecovery_iff.mp hold⟩
      · rintro other hother hsignature hchannel
        obtain rfl := Option.some.inj hother
        have hlate : ¬ attempt.now.ms - stamped.ms < 15 * 60000 := by
          simpa [isRepeat, hsignature, hchannel, Date.parseIso_isoText] using hrepeat
        omega

/-! ## What a run sends -/

/-- Every message follows the one before it, and the stored state is that of the last one. -/
structure Inv (health : Health) : Prop where
  stored : Matches health.stored health.sends.getLast?
  follows : ∀ front sent rest, health.sends = front ++ sent :: rest →
    Follows front.getLast? sent

theorem Inv.after {health : Health} (hinv : Inv health) (attempt : Attempt) :
    Inv (health.after attempt) := by
  unfold Health.after
  split
  next sent state houtcome =>
    obtain ⟨hfollows, hrecords⟩ := follows_of_sent hinv.stored houtcome
    refine ⟨by rw [List.getLast?_concat]; exact .some hrecords, ?_⟩
    intro front other rest hsplit
    cases rest using List.reverseRecOn with
    | nil =>
        obtain ⟨rfl, heq⟩ := List.append_inj' hsplit rfl
        obtain rfl := List.singleton_inj.mp heq
        exact hfollows
    | append_singleton rest last =>
        rw [← List.cons_append, ← List.append_assoc] at hsplit
        exact hinv.follows front other rest (List.append_inj' hsplit rfl).1
  next => exact hinv

theorem Inv.reachable {health : Health} (hreach : system.Reachable health) : Inv health := by
  apply hreach.invariant
  · rintro health rfl
    exact ⟨.none, by simp⟩
  · rintro health attempt after hinv - rfl
    exact hinv.after attempt

/-- In every run the same incidents are reported again on the same channel after fifteen minutes at
the earliest, and a recovery after incidents only. A check that cannot send changes nothing, and the
order of the services does not matter. -/
theorem evaluateHealth_alerts {health : Health} (hreach : system.Reachable health) :
    (∀ front first second rest, health.sends = front ++ first :: second :: rest →
        first.signature = second.signature → first.channel = second.channel →
        first.sentAt.ms + 15 * 60000 ≤ second.sentAt.ms) ∧
      (∀ front sent rest, health.sends = front ++ sent :: rest → sent.IsRecovery →
        ∃ last ∈ front.getLast?, ¬ last.IsRecovery) ∧
      (∀ front first between second rest,
        health.sends = front ++ first :: (between ++ second :: rest) → first.IsRecovery →
        second.IsRecovery → ∃ sent ∈ between, ¬ sent.IsRecovery) ∧
      (∀ attempt : Attempt, attempt.delivery = none → health.after attempt = health) ∧
      ∀ snapshot other : HealthSnapshot,
        (∀ name, snapshot.IsUnhealthy name ↔ other.IsUnhealthy name) →
        snapshot.disk = other.disk → signature snapshot = signature other := by
  have hinv := Inv.reachable hreach
  refine ⟨?_, ?_, ?_, ?_, fun _ _ => signature_eq⟩
  · intro front first second rest hsends
    have hfollows := hinv.follows (front ++ [first]) second rest (by simpa using hsends)
    rw [List.getLast?_concat] at hfollows
    exact hfollows.spaced first rfl
  · intro front sent rest hsends
    exact (hinv.follows front sent rest hsends).recovery
  · intro front first between second rest hsends hfirst hsecond
    have hfollows := hinv.follows (front ++ first :: between) second rest (by simpa using hsends)
    obtain ⟨last, hlast, hincidents⟩ := hfollows.recovery hsecond
    cases between using List.reverseRecOn with
    | nil =>
        rw [List.getLast?_concat] at hlast
        obtain rfl := Option.some.inj hlast
        exact absurd hfirst hincidents
    | append_singleton between sent =>
        rw [← List.cons_append, ← List.append_assoc, List.getLast?_concat] at hlast
        obtain rfl := Option.some.inj hlast
        exact ⟨sent, by simp, hincidents⟩
  · intro attempt hdelivery
    unfold Health.after
    split
    next sent state houtcome =>
      obtain ⟨times, htimes, -⟩ := evaluateHealth_sent houtcome
      rw [hdelivery] at htimes
      cases htimes
    next => rfl

/-- One service is down, and the disk cannot be read. -/
def outage : HealthSnapshot := ⟨OrderedMap.set ∅ "redis" false, none⟩

/-- A check that finds the outage and can send. -/
def outageAttempt (ms : Int) (inRange : -maxTime ≤ ms ∧ ms ≤ maxTime) : Attempt where
  policy := some ⟨true, some "teams"⟩
  collected := some outage
  now := ⟨ms, inRange⟩
  delivery := some ⟨⟨ms, inRange⟩, ⟨ms, inRange⟩⟩
  ordered := by simp

theorem signature_outage : signature outage ≠ "" := by
  have hservices : serviceIncidents outage = ["Service unavailable: redis"] :=
    List.mergeSort_singleton _
  have hincidents : healthIncidents outage = ["Service unavailable: redis",
      "Document storage capacity could not be checked."] := by
    rw [healthIncidents, hservices]
    decide
  rw [signature, hincidents]
  decide

/-- Two checks with the same outage, a minute and twenty minutes after the start. -/
def twoOutages : Health :=
  ((⟨none, []⟩ : Health).after (outageAttempt 60000 (by decide))).after
    (outageAttempt 1200000 (by decide))

theorem sends_twoOutages : twoOutages.sends =
    [⟨"teams", signature outage, ⟨60000, by decide⟩⟩,
      ⟨"teams", signature outage, ⟨1200000, by decide⟩⟩] := by
  have hchannel (ms : Int) (inRange : -maxTime ≤ ms ∧ ms ≤ maxTime) :
      activeChannel (outageAttempt ms inRange).policy = some "teams" := rfl
  have hfirst : evaluateHealth none (outageAttempt 60000 (by decide)) =
      .sent ⟨"teams", signature outage, ⟨60000, by decide⟩⟩
        ⟨signature outage, Date.isoText ⟨60000, by decide⟩, "teams"⟩ := by
    rw [evaluateHealth, hchannel]
    simp [outageAttempt, signature_outage, isRepeat]
  have hsecond : evaluateHealth
      (some ⟨signature outage, Date.isoText ⟨60000, by decide⟩, "teams"⟩)
      (outageAttempt 1200000 (by decide)) =
      .sent ⟨"teams", signature outage, ⟨1200000, by decide⟩⟩
        ⟨signature outage, Date.isoText ⟨1200000, by decide⟩, "teams"⟩ := by
    rw [evaluateHealth, hchannel]
    simp [outageAttempt, signature_outage, isRepeat, Date.parseIso_isoText]
  rw [twoOutages, Health.after, Health.after, hfirst]
  simp only [hsecond, List.nil_append, List.cons_append]

theorem twoOutages_alerts :
    twoOutages.sends.length = 2 ∧ (60000 + 15 * 60000 : Int) ≤ 1200000 := by
  have hreach : system.Reachable twoOutages :=
    .step (.step (.init rfl) trivial rfl) trivial rfl
  obtain ⟨hspaced, -⟩ := evaluateHealth_alerts hreach
  exact ⟨by rw [sends_twoOutages]; rfl, hspaced [] _ _ [] sends_twoOutages rfl rfl⟩

end Notifications.HealthAlerts
