import IsmsPortal.Foundation.JsString
import IsmsPortal.Foundation.OrderedMap
import IsmsPortal.Foundation.Runs

/-! # The mailbox policy of single sign-on

`assertAllowed` asks the directory about a mail once, keeps the answer for a while, and lets calls
for the same mail wait for one check. Checks answer or fail at any time; the callbacks of a check
and of the calls that wait for it run later, with other calls between them.
-/

namespace IsmsPortal

open Foundation

/-! ## State -/

inductive MailboxPolicyError
  | forbidden (message : String)
  | unavailable (message : String)
deriving DecidableEq

/-- How a call ends; `ok` lets the user through. -/
abbrev MailboxVerdict := Except MailboxPolicyError Unit

structure CachedMailbox where
  allowed : Bool
  until_ : Int

/-- How a check ends, with the time at which its answer is stored. -/
inductive CheckOutcome
  | returned (allowed : Bool) (time : Int)
  | failed

/-- A check is under way, its answer has been handled, or its promise is settled and no longer
pending. -/
inductive CheckPhase
  | checking
  | handled (outcome : CheckOutcome)
  | settled (outcome : CheckOutcome)

structure MailboxCheck where
  mail : String
  phase : CheckPhase

/-- Where a call has its answer from. -/
inductive CallSource
  | nothing
  | cached (entry : CachedMailbox)
  | check (number : Nat)

structure MailboxCall where
  source : CallSource
  verdict : Option MailboxVerdict

/-- The fields of `SsoMailboxPolicy`, with the checks by their numbers and the calls. -/
structure MailboxPolicy where
  clock : Int
  cache : OrderedMap String CachedMailbox
  pending : OrderedMap String Nat
  checks : List MailboxCheck
  calls : List MailboxCall

/-! ## Mails and domains -/

/-- `[^\s@'\\]`. -/
def isMailboxChar (c : Char) : Bool :=
  !JsString.isWhiteSpace c && c ∉ ['@', '\x27', '\\']

/-- `/^[^\s@'\\]+@[^\s@'\\]+$/`. -/
def isMailbox (mail : String) : Bool :=
  match mail.toList.splitOn '@' with
  | [mailbox, domain] =>
      mailbox ≠ [] && mailbox.all isMailboxChar && (domain ≠ [] && domain.all isMailboxChar)
  | _ => false

/-- `mail.split("@")[1]`. -/
def mailDomain (mail : String) : Option String :=
  ((mail.toList.splitOn '@')[1]?).map String.ofList

/-- The domains of `SSO_MAILBOX_ALLOWED_DOMAINS`. -/
def allowedDomains (casing : JsString.Casing) (setting : String) : List String :=
  (((casing.toLowerCase setting).toList.splitOn ',').map fun value =>
    JsString.trim (String.ofList value)).filter (· ≠ "")

/-- The mail has one of the allowed domains. -/
def isAuthorized (domains : List String) (mail : String) : Bool :=
  isMailbox mail && (mailDomain mail).any (· ∈ domains)

/-! ## Calls -/

namespace MailboxPolicy

variable (policy : MailboxPolicy)

def join (source : CallSource) (verdict : Option MailboxVerdict) : MailboxPolicy where
  __ := policy
  calls := policy.calls ++ [⟨source, verdict⟩]

def setCheck (number : Nat) (check : MailboxCheck) : MailboxPolicy where
  __ := policy
  checks := policy.checks.set number check

def setCall (place : Nat) (call : MailboxCall) : MailboxPolicy where
  __ := policy
  calls := policy.calls.set place call

/-- `this.check(mail)`, which is pending then. -/
def startCheck (mail : String) : MailboxPolicy where
  __ := policy
  checks := policy.checks ++ [⟨mail, .checking⟩]
  pending := policy.pending.set mail policy.checks.length

/-- `if (!allowed) throw`. -/
def verdictOf (allowed : Bool) : MailboxVerdict :=
  if allowed then .ok ()
  else .error (.forbidden "An active internal account with a personal mailbox is required")

/-- What the `catch` of the call makes of an error that is not forbidden. -/
def unavailableVerdict : MailboxVerdict :=
  .error (.unavailable "SSO mailbox verification is temporarily unavailable")

/-- The cached answer, if it has not expired. -/
def freshAnswer (mail : String) : Option CachedMailbox :=
  (policy.cache.lookup mail).filter fun cached => policy.clock < cached.until_

/-- The answer for a mail, by the cache, a pending check or a new one. -/
def askMailbox (mail : String) : MailboxPolicy :=
  match policy.freshAnswer mail with
  | some cached => policy.join (.cached cached) (some (verdictOf cached.allowed))
  | none =>
      match policy.pending.lookup mail with
      | some number => policy.join (.check number) none
      | none =>
          if 128 ≤ policy.pending.size then policy.join .nothing (some unavailableVerdict)
          else (policy.startCheck mail).join (.check policy.checks.length) none

/-- `assertAllowed`, up to the first `await`. -/
def assertAllowed (casing : JsString.Casing) (setting username : String) : MailboxPolicy :=
  let mail := casing.normalize username
  let domains := allowedDomains casing setting
  if domains.isEmpty then
    policy.join .nothing (some (.error (.unavailable "SSO mailbox policy is not configured")))
  else if !isAuthorized domains mail then
    policy.join .nothing
      (some (.error (.forbidden "A personal mailbox in an authorized domain is required")))
  else policy.askMailbox mail

/-- How long an answer is kept. -/
def lifetime (allowed : Bool) : Int := if allowed then 60000 else 15000

/-- The handler of an answer. -/
def storeAnswer (number : Nat) (mail : String) (allowed : Bool) : MailboxPolicy where
  __ := policy.setCheck number ⟨mail, .handled (.returned allowed policy.clock)⟩
  cache := (OrderedMap.shrink 10000 (policy.cache.erase mail)).set mail
    ⟨allowed, policy.clock + lifetime allowed⟩

/-- The promise of a check is settled, and no longer pending. -/
def settleCheck (number : Nat) (mail : String) (outcome : CheckOutcome) : MailboxPolicy where
  __ := policy.setCheck number ⟨mail, .settled outcome⟩
  pending := policy.pending.erase mail

/-- What a call is given by the check that it waits for. -/
def delivery : CallSource → Option MailboxVerdict
  | .check number =>
      match (policy.checks[number]?).map MailboxCheck.phase with
      | some (.settled (.returned allowed _)) => some (verdictOf allowed)
      | some (.settled .failed) => some unavailableVerdict
      | _ => none
  | _ => none

end MailboxPolicy

/-! ## Moves -/

inductive MailboxMove
  | drift (time : Int)
  | call (username : String)
  | answer (number : Nat) (allowed : Bool)
  | fail (number : Nat)
  | settle (number : Nat)
  | resume (place : Nat)

/-- The policy after a move, if the move is possible. -/
def mailboxNext (casing : JsString.Casing) (setting : String) (policy : MailboxPolicy) :
    MailboxMove → Option MailboxPolicy
  | .drift time => some { policy with clock := time }
  | .call username => some (policy.assertAllowed casing setting username)
  | .answer number allowed =>
      match policy.checks[number]? with
      | some ⟨mail, .checking⟩ => some (policy.storeAnswer number mail allowed)
      | _ => none
  | .fail number =>
      match policy.checks[number]? with
      | some ⟨mail, .checking⟩ => some (policy.setCheck number ⟨mail, .handled .failed⟩)
      | _ => none
  | .settle number =>
      match policy.checks[number]? with
      | some ⟨mail, .handled outcome⟩ => some (policy.settleCheck number mail outcome)
      | _ => none
  | .resume place =>
      match policy.calls[place]? with
      | some ⟨source, none⟩ => (policy.delivery source).map fun verdict =>
          policy.setCall place ⟨source, some verdict⟩
      | _ => none

/-- A new `SsoMailboxPolicy`. -/
def MailboxPolicy.Initial (policy : MailboxPolicy) : Prop :=
  policy.cache = ∅ ∧ policy.pending = ∅ ∧ policy.checks = [] ∧ policy.calls = []

abbrev mailboxSystem (casing : JsString.Casing) (setting : String) :
    System MailboxPolicy MailboxMove where
  init := MailboxPolicy.Initial
  step policy move next := mailboxNext casing setting policy move = some next

/-! ## The domain of a mail -/

theorem at_notMem_of_all {part : List Char} (hpart : part.all isMailboxChar = true) :
    '@' ∉ part := by
  intro hmem
  have hat := List.all_eq_true.mp hpart '@' hmem
  simp [isMailboxChar] at hat

/-- The domain of an authorized mail is what follows its only `@`. -/
theorem isAuthorized_domain {domains : List String} {mail : String}
    (hmail : isAuthorized domains mail = true) :
    ∃ mailbox domain : String, mail = mailbox ++ "@" ++ domain ∧ '@' ∉ mailbox.toList ∧
      '@' ∉ domain.toList ∧ domain ∈ domains := by
  rw [isAuthorized, Bool.and_eq_true] at hmail
  obtain ⟨hmailbox, hdomain⟩ := hmail
  unfold isMailbox at hmailbox
  split at hmailbox
  next mailbox domain hparts =>
    simp only [Bool.and_eq_true] at hmailbox
    have hjoined : ['@'].intercalate (mail.toList.splitOn '@') = mail.toList :=
      List.intercalate_splitOn '@'
    rw [hparts] at hjoined
    refine ⟨String.ofList mailbox, String.ofList domain, ?_, ?_, ?_, ?_⟩
    · apply String.toList_injective
      rw [String.toList_append, String.toList_append, String.toList_ofList, String.toList_ofList,
        ← hjoined]
      simp [List.intercalate]
    · rw [String.toList_ofList]
      exact at_notMem_of_all hmailbox.1.2
    · rw [String.toList_ofList]
      exact at_notMem_of_all hmailbox.2.2
    · simpa [mailDomain, hparts] using hdomain
  next => cases hmailbox

/-! ## What a call does -/

/-- The ways in which a call starts. -/
inductive CallEffect (policy : MailboxPolicy) (domains : List String) (mail : String) :
    MailboxPolicy → Prop
  | reject (error : MailboxPolicyError) :
      CallEffect policy domains mail (policy.join .nothing (some (.error error)))
  | cached {entry : CachedMailbox} (hmail : isAuthorized domains mail = true)
      (hentry : policy.cache.lookup mail = some entry) (hfresh : policy.clock < entry.until_) :
      CallEffect policy domains mail
        (policy.join (.cached entry) (some (MailboxPolicy.verdictOf entry.allowed)))
  | wait {number : Nat} (hmail : isAuthorized domains mail = true)
      (hpending : policy.pending.lookup mail = some number) :
      CallEffect policy domains mail (policy.join (.check number) none)
  | start (hmail : isAuthorized domains mail = true)
      (hpending : policy.pending.lookup mail = none) (hsize : policy.pending.size < 128) :
      CallEffect policy domains mail
        ((policy.startCheck mail).join (.check policy.checks.length) none)

theorem askMailbox_effect {policy : MailboxPolicy} {domains : List String} {mail : String}
    (hmail : isAuthorized domains mail = true) :
    CallEffect policy domains mail (policy.askMailbox mail) := by
  unfold MailboxPolicy.askMailbox
  split
  next entry hanswer =>
    obtain ⟨hentry, hfresh⟩ := Option.filter_eq_some_iff.mp hanswer
    exact .cached hmail hentry (of_decide_eq_true hfresh)
  next =>
    split
    next number hpending => exact .wait hmail hpending
    next hpending =>
      split
      next => exact .reject _
      next hsize => exact .start hmail hpending (Nat.lt_of_not_le hsize)

theorem assertAllowed_effect (casing : JsString.Casing) (setting username : String)
    (policy : MailboxPolicy) :
    CallEffect policy (allowedDomains casing setting) (casing.normalize username)
      (policy.assertAllowed casing setting username) := by
  simp only [MailboxPolicy.assertAllowed]
  split
  next => exact .reject _
  next =>
    split
    next => exact .reject _
    next hmail => exact askMailbox_effect (by simpa using hmail)

/-! ## Progress -/

def CheckPhase.outcome : CheckPhase → Option CheckOutcome
  | .checking => none
  | .handled outcome | .settled outcome => some outcome

/-- A later phase of a check. -/
structure CheckPhase.Before (phase later : CheckPhase) : Prop where
  outcome : ∀ outcome, phase.outcome = some outcome → later.outcome = some outcome
  settled : ∀ outcome, phase = .settled outcome → later = .settled outcome

/-- Checks keep their mail and their outcome, calls their source and their verdict. -/
structure MailboxPolicy.Extends (policy next : MailboxPolicy) : Prop where
  checks : ∀ (number : Nat) (check : MailboxCheck), policy.checks[number]? = some check →
    ∃ after : MailboxCheck, next.checks[number]? = some after ∧ after.mail = check.mail ∧
      check.phase.Before after.phase
  calls : ∀ (place : Nat) (call : MailboxCall), policy.calls[place]? = some call →
    ∃ after : MailboxCall, next.calls[place]? = some after ∧ after.source = call.source ∧
      ∀ verdict, call.verdict = some verdict → after.verdict = some verdict

section Progress

variable {policy middle next : MailboxPolicy} {number : Nat} {check updated : MailboxCheck}

theorem CheckPhase.Before.refl (phase : CheckPhase) : phase.Before phase :=
  ⟨fun _ houtcome => houtcome, fun _ hsettled => hsettled⟩

theorem CheckPhase.Before.trans {phase later last : CheckPhase} (hlater : phase.Before later)
    (hlast : later.Before last) : phase.Before last :=
  ⟨fun outcome houtcome => hlast.outcome outcome (hlater.outcome outcome houtcome),
    fun outcome hsettled => hlast.settled outcome (hlater.settled outcome hsettled)⟩

theorem checking_before_handled (outcome : CheckOutcome) :
    CheckPhase.checking.Before (.handled outcome) :=
  ⟨fun _ hnone => (by cases hnone), fun _ hphase => (by cases hphase)⟩

theorem handled_before_settled (outcome : CheckOutcome) :
    (CheckPhase.handled outcome).Before (.settled outcome) :=
  ⟨fun _ houtcome => houtcome, fun _ hphase => (by cases hphase)⟩

theorem MailboxPolicy.Extends.refl (policy : MailboxPolicy) : policy.Extends policy where
  checks _ check hcheck := ⟨check, hcheck, rfl, .refl check.phase⟩
  calls _ call hcall := ⟨call, hcall, rfl, fun _ hverdict => hverdict⟩

theorem MailboxPolicy.Extends.trans (hmiddle : policy.Extends middle)
    (hnext : middle.Extends next) : policy.Extends next := by
  constructor
  · intro number check hcheck
    obtain ⟨between, hbetween, hmail, hbefore⟩ := hmiddle.checks number check hcheck
    obtain ⟨after, hafter, hmail', hbefore'⟩ := hnext.checks number between hbetween
    exact ⟨after, hafter, hmail'.trans hmail, hbefore.trans hbefore'⟩
  · intro place call hcall
    obtain ⟨between, hbetween, hsource, hverdict⟩ := hmiddle.calls place call hcall
    obtain ⟨after, hafter, hsource', hverdict'⟩ := hnext.calls place between hbetween
    exact ⟨after, hafter, hsource'.trans hsource,
      fun verdict hgiven => hverdict' verdict (hverdict verdict hgiven)⟩

theorem extends_join (policy : MailboxPolicy) (source : CallSource)
    (verdict : Option MailboxVerdict) : policy.Extends (policy.join source verdict) where
  checks := (MailboxPolicy.Extends.refl policy).checks
  calls place call hcall := by
    have hlt := (List.getElem?_eq_some_iff.mp hcall).1
    refine ⟨call, ?_, rfl, fun _ hverdict => hverdict⟩
    rw [← hcall]
    exact List.getElem?_append_left hlt

theorem extends_startCheck (policy : MailboxPolicy) (mail : String) :
    policy.Extends (policy.startCheck mail) where
  checks number check hcheck := by
    have hlt := (List.getElem?_eq_some_iff.mp hcheck).1
    refine ⟨check, ?_, rfl, .refl check.phase⟩
    rw [← hcheck]
    exact List.getElem?_append_left hlt
  calls := (MailboxPolicy.Extends.refl policy).calls

theorem extends_setCheck (hcheck : policy.checks[number]? = some check)
    (hmail : updated.mail = check.mail) (hbefore : check.phase.Before updated.phase) :
    policy.Extends (policy.setCheck number updated) where
  checks other found hfound := by
    by_cases hother : other = number
    · subst hother
      obtain rfl : check = found := Option.some.inj (hcheck.symm.trans hfound)
      have hlt := (List.getElem?_eq_some_iff.mp hcheck).1
      exact ⟨updated, List.getElem?_set_self hlt, hmail, hbefore⟩
    · refine ⟨found, ?_, rfl, .refl found.phase⟩
      rw [← hfound]
      exact List.getElem?_set_ne (Ne.symm hother)
  calls := (MailboxPolicy.Extends.refl policy).calls

theorem extends_storeAnswer {mail : String}
    (hcheck : policy.checks[number]? = some ⟨mail, .checking⟩) (allowed : Bool) :
    policy.Extends (policy.storeAnswer number mail allowed) := by
  have hextends : policy.Extends
      (policy.setCheck number ⟨mail, .handled (.returned allowed policy.clock)⟩) :=
    extends_setCheck hcheck rfl (checking_before_handled _)
  exact { hextends with }

theorem extends_settleCheck {mail : String} {outcome : CheckOutcome}
    (hcheck : policy.checks[number]? = some ⟨mail, .handled outcome⟩) :
    policy.Extends (policy.settleCheck number mail outcome) := by
  have hextends : policy.Extends (policy.setCheck number ⟨mail, .settled outcome⟩) :=
    extends_setCheck hcheck rfl (handled_before_settled outcome)
  exact { hextends with }

end Progress

/-! ## Every state -/

/-- A check of the mail has returned the answer at the time. -/
def MailboxPolicy.Returned (policy : MailboxPolicy) (mail : String) (allowed : Bool)
    (time : Int) : Prop :=
  ∃ (number : Nat) (check : MailboxCheck), policy.checks[number]? = some check ∧
    check.mail = mail ∧ check.phase.outcome = some (.returned allowed time)

/-- What holds in every state: the cache has answers of checks, the pending checks are not settled,
and a call that waits for a check is let through by its answer only. -/
structure MailboxPolicy.Sound (policy : MailboxPolicy) : Prop where
  cached : ∀ (mail : String) (entry : CachedMailbox),
    (⟨mail, entry⟩ : Σ _ : String, CachedMailbox) ∈ policy.cache.entries → ∃ time,
      policy.Returned mail entry.allowed time ∧
        entry.until_ = time + MailboxPolicy.lifetime entry.allowed
  pending : ∀ (mail : String) (number : Nat),
    (⟨mail, number⟩ : Σ _ : String, Nat) ∈ policy.pending.entries → ∃ check,
      policy.checks[number]? = some check ∧ check.mail = mail ∧
        ∀ outcome, check.phase ≠ .settled outcome
  calls : ∀ call ∈ policy.calls, call.verdict = some (.ok ()) → ∀ number : Nat,
    call.source = .check number → ∃ (check : MailboxCheck) (time : Int),
      policy.checks[number]? = some check ∧ check.phase = .settled (.returned true time)
  cacheSize : policy.cache.size ≤ 10000
  pendingSize : policy.pending.size ≤ 128

section Sound

variable {policy next : MailboxPolicy} {mail : String} {number : Nat} {check : MailboxCheck}

theorem MailboxPolicy.Sound.init (hinit : policy.Initial) : policy.Sound := by
  obtain ⟨hcache, hpending, hchecks, hcalls⟩ := hinit
  constructor <;> simp [hcache, hpending, hcalls, OrderedMap.size]

theorem MailboxPolicy.Extends.returned (hextends : policy.Extends next) {allowed : Bool}
    {time : Int} (hreturned : policy.Returned mail allowed time) :
    next.Returned mail allowed time := by
  obtain ⟨number, check, hcheck, hmail, houtcome⟩ := hreturned
  obtain ⟨after, hafter, hsame, hbefore⟩ := hextends.checks number check hcheck
  exact ⟨number, after, hafter, hsame.trans hmail, hbefore.outcome _ houtcome⟩

/-- Settled checks stay settled. -/
theorem MailboxPolicy.Extends.settled (hextends : policy.Extends next) {outcome : CheckOutcome}
    (hcheck : policy.checks[number]? = some check) (hphase : check.phase = .settled outcome) :
    ∃ after : MailboxCheck, next.checks[number]? = some after ∧
      after.phase = .settled outcome := by
  obtain ⟨after, hafter, -, hbefore⟩ := hextends.checks number check hcheck
  exact ⟨after, hafter, hbefore.settled outcome hphase⟩

/-- Progress of the checks keeps what is known of the cache and of the calls. -/
theorem MailboxPolicy.Sound.of_extends (hsound : policy.Sound) (hextends : policy.Extends next)
    (hcache : next.cache = policy.cache) (hcalls : next.calls = policy.calls)
    (hpending : ∀ (mail : String) (number : Nat),
      (⟨mail, number⟩ : Σ _ : String, Nat) ∈ next.pending.entries → ∃ check : MailboxCheck,
        next.checks[number]? = some check ∧ check.mail = mail ∧
          ∀ outcome, check.phase ≠ .settled outcome)
    (hsize : next.pending.size ≤ 128) : next.Sound where
  cached other entry hentry := by
    obtain ⟨time, hreturned, huntil⟩ := hsound.cached other entry (hcache ▸ hentry)
    exact ⟨time, hextends.returned hreturned, huntil⟩
  pending := hpending
  calls call hcall hok number hsource := by
    obtain ⟨check, time, hcheck, hphase⟩ :=
      hsound.calls call (hcalls ▸ hcall) hok number hsource
    obtain ⟨after, hafter, hsettled⟩ := hextends.settled hcheck hphase
    exact ⟨after, time, hafter, hsettled⟩
  cacheSize := hcache ▸ hsound.cacheSize
  pendingSize := hsize

/-- A call is let through by a check that it waits for, or at once. -/
theorem MailboxPolicy.Sound.join (hsound : policy.Sound) {source : CallSource}
    {verdict : Option MailboxVerdict} (hverdict : verdict = some (.ok ()) →
      ∀ number, source ≠ .check number) : (policy.join source verdict).Sound where
  cached := hsound.cached
  pending := hsound.pending
  calls call hcall hok number hsource := by
    rcases List.mem_append.mp hcall with hold | hnew
    · exact hsound.calls call hold hok number hsource
    · obtain rfl := List.mem_singleton.mp hnew
      exact absurd hsource (hverdict hok number)
  cacheSize := hsound.cacheSize
  pendingSize := hsound.pendingSize

theorem MailboxPolicy.Sound.startCheck (hsound : policy.Sound)
    (hpending : policy.pending.lookup mail = none) (hsize : policy.pending.size < 128) :
    (policy.startCheck mail).Sound := by
  have hextends := extends_startCheck policy mail
  have hnone : mail ∉ policy.pending := AList.lookup_eq_none.mp hpending
  refine hsound.of_extends hextends rfl rfl ?_ ?_
  · intro other number hentry
    rcases (OrderedMap.mem_entries_set hnone).mp hentry with hold | hnew
    · obtain ⟨check, hcheck, hmail, hphase⟩ := hsound.pending other number hold
      have hlt := (List.getElem?_eq_some_iff.mp hcheck).1
      refine ⟨check, ?_, hmail, hphase⟩
      rw [← hcheck]
      exact List.getElem?_append_left hlt
    · cases hnew
      exact ⟨⟨mail, .checking⟩, List.getElem?_concat_length, rfl, by simp⟩
  · have hlength := OrderedMap.size_set_of_notMem hnone policy.checks.length
    simp only [MailboxPolicy.startCheck]
    omega

/-- A check that is under way has an outcome. -/
theorem MailboxPolicy.Sound.handle (hsound : policy.Sound)
    (hcheck : policy.checks[number]? = some ⟨mail, .checking⟩) (outcome : CheckOutcome) :
    (policy.setCheck number ⟨mail, .handled outcome⟩).Sound := by
  have hextends : policy.Extends (policy.setCheck number ⟨mail, .handled outcome⟩) :=
    extends_setCheck hcheck rfl (checking_before_handled outcome)
  refine hsound.of_extends hextends rfl rfl ?_ hsound.pendingSize
  intro other place hentry
  obtain ⟨found, hfound, hmail, hphase⟩ := hsound.pending other place hentry
  by_cases hplace : place = number
  · subst hplace
    obtain rfl : ⟨mail, .checking⟩ = found := Option.some.inj (hcheck.symm.trans hfound)
    have hlt := (List.getElem?_eq_some_iff.mp hcheck).1
    exact ⟨_, List.getElem?_set_self hlt, hmail, by simp⟩
  · refine ⟨found, ?_, hmail, hphase⟩
    rw [← hfound]
    exact List.getElem?_set_ne (Ne.symm hplace)

theorem MailboxPolicy.Sound.storeAnswer (hsound : policy.Sound)
    (hcheck : policy.checks[number]? = some ⟨mail, .checking⟩) (allowed : Bool) :
    (policy.storeAnswer number mail allowed).Sound := by
  have hhandled := hsound.handle hcheck (.returned allowed policy.clock)
  have hnone : mail ∉ OrderedMap.shrink 10000 (policy.cache.erase mail) :=
    OrderedMap.notMem_shrink fun hmem => (AList.mem_erase.mp hmem).1 rfl
  refine { hhandled with cached := ?_, cacheSize := ?_ }
  · intro other entry hentry
    rcases (OrderedMap.mem_entries_set hnone).mp hentry with hold | hnew
    · have hkept := (OrderedMap.mem_entries_erase (OrderedMap.mem_of_mem_shrink hold)).2
      exact hhandled.cached other entry hkept
    · cases hnew
      have hlt := (List.getElem?_eq_some_iff.mp hcheck).1
      exact ⟨policy.clock, ⟨number, _, List.getElem?_set_self hlt, rfl, rfl⟩, rfl⟩
  · have hsize := OrderedMap.size_set_of_notMem hnone
      ⟨allowed, policy.clock + MailboxPolicy.lifetime allowed⟩
    have hlt := OrderedMap.size_shrink_lt (by omega : 0 < 10000) (policy.cache.erase mail)
    simp only [MailboxPolicy.storeAnswer]
    omega

theorem MailboxPolicy.Sound.settleCheck (hsound : policy.Sound) {outcome : CheckOutcome}
    (hcheck : policy.checks[number]? = some ⟨mail, .handled outcome⟩) :
    (policy.settleCheck number mail outcome).Sound := by
  have hextends := extends_settleCheck hcheck
  refine hsound.of_extends hextends rfl rfl ?_ ?_
  · intro other place hentry
    obtain ⟨hother, hold⟩ := OrderedMap.mem_entries_erase hentry
    obtain ⟨found, hfound, hmail, hphase⟩ := hsound.pending other place hold
    -- The settled check is not the check of another mail.
    have hplace : place ≠ number := by
      rintro rfl
      obtain rfl : ⟨mail, .handled outcome⟩ = found := Option.some.inj (hcheck.symm.trans hfound)
      exact hother hmail.symm
    refine ⟨found, ?_, hmail, hphase⟩
    rw [← hfound]
    exact List.getElem?_set_ne (Ne.symm hplace)
  · exact (OrderedMap.size_erase_le policy.pending mail).trans hsound.pendingSize

theorem delivery_ok {source : CallSource} {number : Nat}
    (hdelivery : policy.delivery source = some (.ok ())) (hsource : source = .check number) :
    ∃ (check : MailboxCheck) (time : Int), policy.checks[number]? = some check ∧
      check.phase = .settled (.returned true time) := by
  subst hsource
  simp only [MailboxPolicy.delivery] at hdelivery
  split at hdelivery
  next allowed time hphase =>
    obtain ⟨check, hcheck, hsettled⟩ := Option.map_eq_some_iff.mp hphase
    cases allowed with
    | true => exact ⟨check, time, hcheck, hsettled⟩
    | false => cases hdelivery
  next => cases hdelivery
  next => cases hdelivery

/-- A call that waits is given the verdict of its check. -/
theorem MailboxPolicy.Sound.resume (hsound : policy.Sound) {place : Nat} {source : CallSource}
    {verdict : MailboxVerdict} (hcall : policy.calls[place]? = some ⟨source, none⟩)
    (hdelivery : policy.delivery source = some verdict) :
    (policy.setCall place ⟨source, some verdict⟩).Sound ∧
      policy.Extends (policy.setCall place ⟨source, some verdict⟩) := by
  constructor
  · refine { hsound with calls := ?_ }
    intro call hmem hok number hsource
    rcases List.mem_or_eq_of_mem_set hmem with hold | rfl
    · exact hsound.calls call hold hok number hsource
    · rw [Option.some.inj hok] at hdelivery
      exact delivery_ok hdelivery hsource
  · refine { MailboxPolicy.Extends.refl policy with calls := ?_ }
    intro other found hfound
    by_cases hother : other = place
    · subst hother
      obtain rfl : ⟨source, none⟩ = found := Option.some.inj (hcall.symm.trans hfound)
      have hlt := (List.getElem?_eq_some_iff.mp hcall).1
      exact ⟨_, List.getElem?_set_self hlt, rfl, fun _ hnone => (by cases hnone)⟩
    · refine ⟨found, ?_, rfl, fun _ hverdict => hverdict⟩
      rw [← hfound]
      exact List.getElem?_set_ne (Ne.symm hother)

theorem MailboxPolicy.Sound.call {domains : List String} (hsound : policy.Sound)
    (heffect : CallEffect policy domains mail next) : next.Sound ∧ policy.Extends next := by
  cases heffect with
  | reject error => exact ⟨hsound.join fun _ _ => by simp, extends_join ..⟩
  | cached => exact ⟨hsound.join fun _ _ => by simp, extends_join ..⟩
  | wait => exact ⟨hsound.join fun hnone => (by cases hnone), extends_join ..⟩
  | start _ hpending hsize =>
      exact ⟨(hsound.startCheck hpending hsize).join fun hnone => (by cases hnone),
        (extends_startCheck policy mail).trans (extends_join ..)⟩

/-- What one move preserves. -/
theorem MailboxPolicy.Sound.move {casing : JsString.Casing} {setting : String} {move : MailboxMove}
    (hsound : policy.Sound) (hnext : mailboxNext casing setting policy move = some next) :
    next.Sound ∧ policy.Extends next := by
  cases move with
  | drift time =>
      cases hnext
      exact ⟨{ hsound with }, { MailboxPolicy.Extends.refl policy with }⟩
  | call username =>
      cases hnext
      exact hsound.call (assertAllowed_effect casing setting username policy)
  | answer number allowed =>
      simp only [mailboxNext] at hnext
      split at hnext
      next mail hcheck =>
        cases hnext
        exact ⟨hsound.storeAnswer hcheck allowed, extends_storeAnswer hcheck allowed⟩
      next => cases hnext
  | fail number =>
      simp only [mailboxNext] at hnext
      split at hnext
      next mail hcheck =>
        cases hnext
        exact ⟨hsound.handle hcheck .failed,
          extends_setCheck hcheck rfl (checking_before_handled .failed)⟩
      next => cases hnext
  | settle number =>
      simp only [mailboxNext] at hnext
      split at hnext
      next mail outcome hcheck =>
        cases hnext
        exact ⟨hsound.settleCheck hcheck, extends_settleCheck hcheck⟩
      next => cases hnext
  | resume place =>
      simp only [mailboxNext] at hnext
      split at hnext
      next source hcall =>
        obtain ⟨verdict, hdelivery, rfl⟩ := Option.map_eq_some_iff.mp hnext
        exact hsound.resume hcall hdelivery
      next => cases hnext

variable {casing : JsString.Casing} {setting : String}

theorem mailboxSound_of_reachable (hreach : (mailboxSystem casing setting).Reachable policy) :
    policy.Sound :=
  hreach.invariant (fun _ hinit => .init hinit)
    fun _ _ _ hsound _ hstep => (hsound.move hstep).1

/-- Every later state of a run extends the earlier ones. -/
theorem MailboxPolicy.Sound.steps (hsound : policy.Sound) {later : MailboxPolicy}
    (hsteps : (mailboxSystem casing setting).StepsWhile (fun _ _ => True) policy later) :
    later.Sound ∧ policy.Extends later :=
  hsteps.relation .refl (fun _ _ _ => .trans)
    (fun _ _ _ hsound _ hstep => hsound.move hstep) hsound

/-- A call that is let through found an answer that is fresh, or waited for a check that then
let it through. -/
theorem CallEffect.let_through {domains : List String} {later : MailboxPolicy} {call : MailboxCall}
    (heffect : CallEffect policy domains mail next) (hsound : policy.Sound)
    (hlater : later.Sound) (hextends : next.Extends later)
    (hcall : later.calls[policy.calls.length]? = some call) (hok : call.verdict = some (.ok ())) :
    isAuthorized domains mail = true ∧
      ((∃ time, policy.Returned mail true time ∧ policy.clock < time + 60000) ∨
        ∃ (number : Nat) (joined settled : MailboxCheck) (time : Int),
          next.checks[number]? = some joined ∧ joined.mail = mail ∧
          (∀ outcome, joined.phase ≠ .settled outcome) ∧
          later.checks[number]? = some settled ∧
          settled.phase = .settled (.returned true time)) := by
  -- The call keeps the source and the verdict that it was given at first.
  have hkept : ∀ source verdict, next.calls[policy.calls.length]? = some ⟨source, verdict⟩ →
      call.source = source ∧ ∀ given, verdict = some given → given = .ok () := by
    intro source verdict hfirst
    obtain ⟨after, hafter, hsource, hverdict⟩ := hextends.calls _ _ hfirst
    obtain rfl : after = call := Option.some.inj (hafter.symm.trans hcall)
    refine ⟨hsource, fun given hgiven => ?_⟩
    exact Option.some.inj ((hverdict given hgiven).symm.trans hok)
  have hsettled := hlater.calls call (List.mem_of_getElem? hcall) hok
  cases heffect with
  | reject error =>
      obtain ⟨-, hgiven⟩ := hkept _ _ List.getElem?_concat_length
      cases hgiven _ rfl
  | @cached entry hmail hentry hfresh =>
      obtain ⟨-, hgiven⟩ := hkept _ _ List.getElem?_concat_length
      have hallowed : entry.allowed = true := by
        have hverdict := hgiven _ rfl
        cases hallowed : entry.allowed with
        | true => rfl
        | false => simp [MailboxPolicy.verdictOf, hallowed] at hverdict
      obtain ⟨time, hreturned, huntil⟩ :=
        hsound.cached mail entry (OrderedMap.mem_of_lookup hentry)
      rw [hallowed] at hreturned huntil
      refine ⟨hmail, .inl ⟨time, hreturned, ?_⟩⟩
      rw [huntil] at hfresh
      exact hfresh
  | @wait number hmail hpending =>
      obtain ⟨hsource, -⟩ := hkept _ _ List.getElem?_concat_length
      obtain ⟨joined, hjoined, hsame, hphase⟩ :=
        hsound.pending mail number (OrderedMap.mem_of_lookup hpending)
      obtain ⟨settled, time, hfound, htrue⟩ := hsettled number hsource
      exact ⟨hmail, .inr ⟨number, joined, settled, time, hjoined, hsame, hphase, hfound, htrue⟩⟩
  | start hmail =>
      obtain ⟨hsource, -⟩ := hkept _ _ List.getElem?_concat_length
      obtain ⟨settled, time, hfound, htrue⟩ := hsettled _ hsource
      exact ⟨hmail, .inr ⟨_, ⟨mail, .checking⟩, settled, time, List.getElem?_concat_length, rfl,
        by simp, hfound, htrue⟩⟩

end Sound

/-- In every order of calls and of checks that answer or fail at any time, a call is let through
only if the mail has an allowed domain and a check for it returned true less than a minute before,
or the call waited for a check for it that was not settled and then gave true. A failed check lets
no call through and is not cached. The cache and the pending checks are bounded. -/
theorem mailbox_let_through (casing : JsString.Casing) (setting : String) {policy : MailboxPolicy}
    (hreach : (mailboxSystem casing setting).Reachable policy) :
    (∀ (username : String) (later : MailboxPolicy),
      (mailboxSystem casing setting).StepsWhile (fun _ _ => True)
        (policy.assertAllowed casing setting username) later →
      ∀ call, later.calls[policy.calls.length]? = some call → call.verdict = some (.ok ()) →
      (∃ mailbox domain : String, casing.normalize username = mailbox ++ "@" ++ domain ∧
        '@' ∉ mailbox.toList ∧ '@' ∉ domain.toList ∧ domain ∈ allowedDomains casing setting) ∧
      ((∃ time, policy.Returned (casing.normalize username) true time ∧
          policy.clock < time + 60000) ∨
        ∃ (number : Nat) (joined settled : MailboxCheck) (time : Int),
          (policy.assertAllowed casing setting username).checks[number]? = some joined ∧
          joined.mail = casing.normalize username ∧
          (∀ outcome, joined.phase ≠ .settled outcome) ∧
          later.checks[number]? = some settled ∧
          settled.phase = .settled (.returned true time))) ∧
    (∀ (number : Nat) (check : MailboxCheck), policy.checks[number]? = some check →
      check.phase.outcome = some .failed → ∀ call ∈ policy.calls,
      call.source = .check number → call.verdict ≠ some (.ok ())) ∧
    (∀ number next, mailboxNext casing setting policy (.fail number) = some next →
      next.cache = policy.cache ∧ next.calls = policy.calls) ∧
    (∀ (mail : String) (entry : CachedMailbox),
      (⟨mail, entry⟩ : Σ _ : String, CachedMailbox) ∈ policy.cache.entries → ∃ time,
        policy.Returned mail entry.allowed time ∧
          entry.until_ = time + MailboxPolicy.lifetime entry.allowed) ∧
    policy.cache.size ≤ 10000 ∧ policy.pending.size ≤ 128 := by
  have hsound := mailboxSound_of_reachable hreach
  refine ⟨?_, ?_, ?_, hsound.cached, hsound.cacheSize, hsound.pendingSize⟩
  · intro username later hsteps call hcall hok
    have heffect := assertAllowed_effect casing setting username policy
    obtain ⟨hnext, -⟩ := hsound.call heffect
    obtain ⟨hlater, hextends⟩ := hnext.steps hsteps
    obtain ⟨hmail, hcases⟩ := heffect.let_through hsound hlater hextends hcall hok
    exact ⟨isAuthorized_domain hmail, hcases⟩
  · intro number check hcheck hfailed call hcall hsource hok
    obtain ⟨found, time, hfound, hphase⟩ := hsound.calls call hcall hok number hsource
    obtain rfl : check = found := Option.some.inj (hcheck.symm.trans hfound)
    rw [hphase] at hfailed
    cases hfailed
  · intro number next hnext
    simp only [mailboxNext] at hnext
    split at hnext
    next mail hcheck =>
      cases hnext
      exact ⟨rfl, rfl⟩
    next => cases hnext

/-- A new policy at time zero. -/
def newMailboxPolicy : MailboxPolicy := ⟨0, ∅, ∅, [], []⟩

/-- Two calls for Alice wait for one check; another one comes half a minute after its answer. -/
def aliceMoves : List MailboxMove :=
  [.call "alice@example.com", .call " ALICE@example.com", .answer 0 true, .settle 0, .resume 1,
    .drift 30000]

/-- A minute has not passed, so that Alice is let through by the answer. -/
theorem mailbox_let_through_alice :
    ∃ policy, System.execute (mailboxNext JsString.asciiCasing "example.com") newMailboxPolicy
        aliceMoves = some policy ∧
      policy.calls.map MailboxCall.verdict = [none, some (.ok ())] ∧
      (∃ mailbox domain : String, JsString.asciiCasing.normalize "Alice@example.com" =
          mailbox ++ "@" ++ domain ∧ '@' ∉ mailbox.toList ∧ '@' ∉ domain.toList ∧
          domain ∈ allowedDomains JsString.asciiCasing "example.com") ∧
      policy.cache.size ≤ 10000 := by
  have hexecute : ∃ policy ∈ System.execute (mailboxNext JsString.asciiCasing "example.com")
      newMailboxPolicy aliceMoves, policy.calls.map MailboxCall.verdict = [none, some (.ok ())] ∧
        ((policy.assertAllowed JsString.asciiCasing "example.com"
          "Alice@example.com").calls[policy.calls.length]?).any
            (fun call => call.verdict = some (.ok ())) = true := by
    decide +kernel
  obtain ⟨policy, hrun, hverdicts, hcall⟩ := hexecute
  obtain ⟨call, hcall, hok⟩ := (Option.any_eq_true _ _).mp hcall
  have hreach : (mailboxSystem JsString.asciiCasing "example.com").Reachable policy :=
    System.ReachableWhile.execute (fun _ _ _ hnext => ⟨trivial, hnext⟩) hrun
      (.init ⟨rfl, rfl, rfl, rfl⟩)
  obtain ⟨hcalls, -, -, -, hsize, -⟩ :=
    mailbox_let_through JsString.asciiCasing "example.com" hreach
  exact ⟨policy, hrun, hverdicts, (hcalls "Alice@example.com" _ .refl call hcall
    (of_decide_eq_true hok)).1, hsize⟩

end IsmsPortal
