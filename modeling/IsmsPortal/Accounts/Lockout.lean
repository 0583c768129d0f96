import IsmsPortal.Accounts.Login

/-! # The lock after failed logins

Five failures lock the account for a quarter of an hour. An attempt writes the number
of failures that it has read, plus one, so that attempts which overlap count as one, and
an attempt that fails at the second factor writes nothing. The bound holds for attempts
that are evaluated one at a time, on the counters as they are stored.
-/

namespace IsmsPortal

open Foundation

/-- An attempt on the watched account is evaluated when no other one has writes left, on
the counters as they are stored; and it does not fail at the second factor. -/
def OneAtATime (secrets : Secrets) (config : AccountConfig) : AccountProcess → Prop
  | .loginEvaluate body account eligible _ => account.id = config.store.subject →
      config.store.evaluating = [] ∧
        config.store.counters = some (account.failedLoginCount, account.lockedUntil) ∧
        evaluate secrets config.store.clock body account eligible ≠ .mfaRefused
  | _ => True

instance (secrets : Secrets) (config : AccountConfig) (process : AccountProcess) :
    Decidable (OneAtATime secrets config process) :=
  match process with
  | .loginEvaluate body account eligible _ => inferInstanceAs
      (Decidable (account.id = config.store.subject → config.store.evaluating = [] ∧
        config.store.counters = some (account.failedLoginCount, account.lockedUntil) ∧
        evaluate secrets config.store.clock body account eligible ≠ .mfaRefused))
  | .login _ | .loginCheck .. | .loginFailure _ | .loginReset .. | .loginSession ..
  | .password .. | .passwordUpdate .. | .passwordDelete .. | .passwordAudit ..
  | .logout _ => .isTrue trivial

/-! ## The counters of the watched account -/

/-- What the lock depends on is the same in both stores. -/
structure AccountStore.SameLockout (before after : AccountStore) : Prop where
  clock : after.clock = before.clock
  subject : after.subject = before.subject
  counters : after.counters = before.counters
  evaluating : after.evaluating = before.evaluating
  failures : after.failures = before.failures

section Counters

variable {store after : AccountStore} {id : String} {f : AdminAccountRow → AdminAccountRow}

theorem AccountStore.SameLockout.refl (store : AccountStore) : store.SameLockout store :=
  ⟨rfl, rfl, rfl, rfl, rfl⟩

theorem AccountStore.SameLockout.locked (hsame : store.SameLockout after) :
    after.locked = store.locked := by
  unfold AccountStore.locked
  rw [hsame.counters, hsame.clock]

theorem AccountStore.locked_eq {counters : Nat × Option Int}
    (hcounters : store.counters = some counters) :
    store.locked = counters.2.any (store.clock < ·) := by
  unfold AccountStore.locked
  rw [hcounters]
  rfl

/-- A lock that is over stays over. -/
theorem lock_over {lock : Option Int} {clock time : Int}
    (hover : lock.any (clock < ·) = false) (htime : clock ≤ time) :
    lock.any (time < ·) = false := by
  cases lock with
  | none => rfl
  | some until_ =>
      simp only [Option.any_some, decide_eq_false_iff_not] at hover ⊢
      exact fun hlt => hover (Int.lt_of_le_of_lt htime hlt)

theorem AccountStore.locked_elapse {time : Int} (hlocked : store.locked = false)
    (htime : store.clock ≤ time) : (store.elapse time).locked = false := by
  have hcounters : (store.elapse time).counters = store.counters := rfl
  unfold AccountStore.locked at hlocked ⊢
  rw [hcounters]
  cases hread : store.counters with
  | none => rfl
  | some counters =>
      rw [hread] at hlocked
      exact lock_over hlocked htime

theorem AccountStore.counters_write (hid : ∀ row, (f row).id = row.id) :
    (store.write id f).counters = (store.accounts.find? (·.id = store.subject)).map fun row =>
      let written := if row.id = id then f row else row
      (written.failedLoginCount, written.lockedUntil) := by
  unfold AccountStore.counters AccountStore.write Table.update
  simp only
  rw [Table.find?_key_map, Option.map_map]
  · rfl
  · intro row
    split
    · exact hid row
    · rfl

/-- Writing another account. -/
theorem AccountStore.counters_write_of_ne (hid : ∀ row, (f row).id = row.id)
    (hne : id ≠ store.subject) : (store.write id f).counters = store.counters := by
  rw [AccountStore.counters_write hid]
  unfold AccountStore.counters
  cases hfound : store.accounts.find? (·.id = store.subject) with
  | none => rfl
  | some row =>
      have hrow : row.id = store.subject := by simpa using List.find?_some hfound
      simp [hrow, hne.symm]

/-- Writing fixed counters to the watched account. -/
theorem AccountStore.counters_write_self {counters : Nat × Option Int}
    (written : Nat × Option Int) (hid : ∀ row, (f row).id = row.id)
    (hf : ∀ row, ((f row).failedLoginCount, (f row).lockedUntil) = written)
    (hcounters : store.counters = some counters) :
    (store.write store.subject f).counters = some written := by
  rw [AccountStore.counters_write hid]
  unfold AccountStore.counters at hcounters
  obtain ⟨row, hfound, -⟩ := Option.map_eq_some_iff.mp hcounters
  have hrow : row.id = store.subject := by simpa using List.find?_some hfound
  rw [hfound]
  simp [hrow, ← hf row]

/-- A write that leaves the counters as they are. -/
theorem AccountStore.counters_write_same (store : AccountStore) (id : String)
    (hid : ∀ row, (f row).id = row.id)
    (hf : ∀ row, ((f row).failedLoginCount, (f row).lockedUntil) =
      (row.failedLoginCount, row.lockedUntil)) :
    (store.write id f).counters = store.counters := by
  rw [AccountStore.counters_write hid]
  unfold AccountStore.counters
  apply congrArg (Option.map · _)
  funext row
  simp only
  split
  · exact hf row
  · rfl

end Counters

/-! ## One statement -/

/-- The account that a login writes or notes with its next statement. -/
def AccountProcess.judged : AccountProcess → Option AdminAccountRow
  | .loginEvaluate _ account _ _ | .loginFailure account | .loginReset account _
  | .loginSession account _ => some account
  | _ => none

section Steps

variable {secrets : Secrets} {name : Nat} {new : String} {store after : AccountStore}
variable {process : AccountProcess} {remaining : Option AccountProcess}

/-- No statement changes the clock or the watched account. -/
theorem accountAdvance_clock
    (hadvance : accountAdvance secrets name new store process = some (remaining, after)) :
    after.clock = store.clock ∧ after.subject = store.subject := by
  cases process with
  | loginCheck body account generation =>
      cases account with
      | none =>
          cases hadvance
          exact ⟨rfl, rfl⟩
      | some account =>
          simp only [accountAdvance] at hadvance
          split at hadvance <;> cases hadvance <;> exact ⟨rfl, rfl⟩
  | loginEvaluate body account eligible generation =>
      simp only [accountAdvance] at hadvance
      split at hadvance
      · split at hadvance <;> cases hadvance <;> exact ⟨rfl, rfl⟩
      · cases hadvance
        exact ⟨rfl, rfl⟩
      · cases hadvance
        exact ⟨rfl, rfl⟩
  | loginSession account generation =>
      simp only [accountAdvance] at hadvance
      split at hadvance <;> cases hadvance
      exact ⟨rfl, rfl⟩
  | password username body =>
      simp only [accountAdvance] at hadvance
      split at hadvance
      · cases hadvance
        exact ⟨rfl, rfl⟩
      · split at hadvance <;> cases hadvance <;> exact ⟨rfl, rfl⟩
  | passwordUpdate account newPassword =>
      simp only [accountAdvance] at hadvance
      split at hadvance <;> cases hadvance
      exact ⟨rfl, rfl⟩
  | _ =>
      cases hadvance
      exact ⟨rfl, rfl⟩

/-- An evaluation on another account notes nothing. -/
theorem AccountStore.sameLockout_judge {id : String} (hne : id ≠ store.subject)
    (wrong writes : Bool) : store.SameLockout (store.judge name id wrong writes) :=
  ⟨rfl, rfl, rfl, if_neg fun hid => hne hid.1, if_neg fun hid => hne hid.1⟩

/-- Only a login on the watched account changes what the lock depends on. -/
theorem accountAdvance_sameLockout
    (hadvance : accountAdvance secrets name new store process = some (remaining, after))
    (hother : ∀ account, process.judged = some account → account.id ≠ store.subject) :
    store.SameLockout after := by
  cases process with
  | login body =>
      cases hadvance
      exact .refl store
  | loginCheck body account generation =>
      cases account with
      | none =>
          cases hadvance
          exact .refl store
      | some account =>
          simp only [accountAdvance] at hadvance
          split at hadvance <;> cases hadvance <;> exact .refl store
  | loginEvaluate body account eligible generation =>
      have hne := hother account rfl
      simp only [accountAdvance] at hadvance
      split at hadvance
      · split at hadvance <;> cases hadvance
        · exact AccountStore.sameLockout_judge hne _ _
        · exact .refl store
      · cases hadvance
        exact AccountStore.sameLockout_judge hne _ _
      · cases hadvance
        exact AccountStore.sameLockout_judge hne _ _
  | loginFailure account =>
      have hne := hother account rfl
      cases hadvance
      exact ⟨rfl, rfl, AccountStore.counters_write_of_ne (f := failureWrite store.clock account)
        (fun _ => rfl) hne, if_neg hne, rfl⟩
  | loginReset account generation =>
      have hne := hother account rfl
      cases hadvance
      exact ⟨rfl, rfl, AccountStore.counters_write_of_ne (fun _ => rfl) hne, rfl, rfl⟩
  | loginSession account generation =>
      have hne := hother account rfl
      simp only [accountAdvance] at hadvance
      split at hadvance <;> cases hadvance
      exact ⟨rfl, rfl, rfl, if_neg hne, if_neg hne⟩
  | password username body =>
      simp only [accountAdvance] at hadvance
      split at hadvance
      · cases hadvance
        exact .refl store
      · split at hadvance <;> cases hadvance <;> exact .refl store
  | passwordUpdate account newPassword =>
      simp only [accountAdvance] at hadvance
      split at hadvance <;> cases hadvance
      have hcounters : (store.changePassword account new).counters = store.counters :=
        AccountStore.counters_write_same store account.id
          (f := fun row => { row with passwordHash := some new }) (fun _ => rfl) fun _ => rfl
      exact ⟨rfl, rfl, hcounters, rfl, rfl⟩
  | passwordDelete account generation =>
      cases hadvance
      exact ⟨rfl, rfl, rfl, rfl, rfl⟩
  | passwordAudit account generation =>
      cases hadvance
      exact ⟨rfl, rfl, rfl, rfl, rfl⟩
  | logout tokenHash =>
      cases hadvance
      exact ⟨rfl, rfl, rfl, rfl, rfl⟩

end Steps

/-! ## The bound -/

/-- The failures are bounded, and the stored number accounts for them when no attempt has
writes left. -/
structure AccountStore.Bounded (store : AccountStore) : Prop where
  failures : store.failures ≤ 5
  counted : store.evaluating = [] → store.locked = false →
    ∀ counters, store.counters = some counters →
      store.failures ≤ counters.1 ∧ store.failures ≤ 4

/-- What a login knows of the watched account. -/
def AccountProcess.Alone (name : Nat) (store : AccountStore) : AccountProcess → Prop
  | .loginEvaluate _ account _ _ => account.locked store.clock = false
  | .loginFailure account => account.id = store.subject →
      store.evaluating = [name] ∧ store.locked = false ∧
        store.counters = some (account.failedLoginCount, account.lockedUntil) ∧
        store.failures ≤ account.failedLoginCount + 1
  | .loginReset account _ | .loginSession account _ => account.id = store.subject →
      store.evaluating = [name] ∧ store.locked = false
  | _ => True

section Bound

variable {secrets : Secrets} {name : Nat} {new : String} {store after : AccountStore}
variable {account : AdminAccountRow}

theorem AccountStore.Bounded.of_same (hbounded : store.Bounded)
    (hsame : store.SameLockout after) : after.Bounded := by
  constructor
  · rw [hsame.failures]
    exact hbounded.failures
  · rw [hsame.evaluating, hsame.locked, hsame.counters, hsame.failures]
    exact hbounded.counted

theorem AccountProcess.Alone.of_same {process : AccountProcess}
    (halone : process.Alone name store) (hsame : store.SameLockout after) :
    process.Alone name after := by
  cases process with
  | loginEvaluate body account eligible generation =>
      unfold AccountProcess.Alone
      rw [hsame.clock]
      exact halone
  | loginFailure account =>
      unfold AccountProcess.Alone
      rw [hsame.subject, hsame.evaluating, hsame.locked, hsame.counters, hsame.failures]
      exact halone
  | loginReset account generation =>
      unfold AccountProcess.Alone
      rw [hsame.subject, hsame.evaluating, hsame.locked]
      exact halone
  | loginSession account generation =>
      unfold AccountProcess.Alone
      rw [hsame.subject, hsame.evaluating, hsame.locked]
      exact halone
  | _ => trivial

/-- The count begins anew when a lock ends. -/
theorem AccountStore.Bounded.elapse (hbounded : store.Bounded) (time : Int) :
    (store.elapse time).Bounded := by
  by_cases hends : store.locked = true ∧ { store with clock := time }.locked = false
  · have hzero : (store.elapse time).failures = 0 := if_pos hends
    constructor
    · rw [hzero]
      exact Nat.zero_le 5
    · intro _ _ counters _
      rw [hzero]
      exact ⟨Nat.zero_le _, Nat.zero_le 4⟩
  · -- no lock ends, so an account that is free now was free before
    have hsame : (store.elapse time).failures = store.failures := if_neg hends
    constructor
    · rw [hsame]
      exact hbounded.failures
    · intro hevaluating hlocked
      rw [hsame]
      apply hbounded.counted hevaluating
      by_contra hbefore
      exact hends ⟨by simpa using hbefore, hlocked⟩

theorem AccountProcess.Alone.elapse {process : AccountProcess} {time : Int}
    (halone : process.Alone name store) (htime : store.clock ≤ time) :
    process.Alone name (store.elapse time) := by
  cases process with
  | loginEvaluate body account eligible generation =>
      exact lock_over halone htime
  | loginFailure account =>
      intro hid
      obtain ⟨hevaluating, hlocked, hcounters, hfailures⟩ := halone hid
      refine ⟨hevaluating, AccountStore.locked_elapse hlocked htime, hcounters, ?_⟩
      have hkept : (store.elapse time).failures = store.failures :=
        if_neg fun hends => by simp [hlocked] at hends
      rw [hkept]
      exact hfailures
  | loginReset account generation =>
      intro hid
      exact ⟨(halone hid).1, AccountStore.locked_elapse (halone hid).2 htime⟩
  | loginSession account generation =>
      intro hid
      exact ⟨(halone hid).1, AccountStore.locked_elapse (halone hid).2 htime⟩
  | _ => trivial

/-- The account is not locked when it is evaluated on the stored counters. -/
theorem AccountStore.not_locked_of_read (hlocked : account.locked store.clock = false)
    (hcounters : store.counters = some (account.failedLoginCount, account.lockedUntil)) :
    store.locked = false := by
  rw [AccountStore.locked_eq hcounters]
  exact hlocked

/-- An evaluation that counts. -/
theorem AccountStore.Bounded.judge_invalid (hbounded : store.Bounded) (name : Nat)
    (hevaluating : store.evaluating = []) (hlocked : store.locked = false)
    (hcounters : store.counters = some (account.failedLoginCount, account.lockedUntil))
    (hid : account.id = store.subject) (wrong : Bool) :
    (store.judge name account.id wrong true).Bounded ∧
      (AccountProcess.loginFailure account).Alone name
        (store.judge name account.id wrong true) := by
  -- the stored number covers the failures before this one, which are at most four
  obtain ⟨hcount, hfour⟩ := hbounded.counted hevaluating hlocked _ hcounters
  have hpending : (store.judge name account.id wrong true).evaluating = [name] := by
    simp [AccountStore.judge, hid, hevaluating]
  have hfailures : (store.judge name account.id wrong true).failures ≤ store.failures + 1 := by
    simp only [AccountStore.judge]
    split <;> omega
  refine ⟨⟨by omega, fun hnone => ?_⟩, fun _ => ?_⟩
  · rw [hpending] at hnone
    cases hnone
  · refine ⟨hpending, hlocked, hcounters, ?_⟩
    simp only at hcount
    omega

/-- An evaluation that is accepted. -/
theorem AccountStore.Bounded.judge_accepted (hbounded : store.Bounded) (name : Nat)
    (hevaluating : store.evaluating = []) (hlocked : store.locked = false)
    (hid : account.id = store.subject) (generation : Nat) :
    (store.judge name account.id false true).Bounded ∧
      (AccountProcess.loginReset account generation).Alone name
        (store.judge name account.id false true) := by
  have hpending : (store.judge name account.id false true).evaluating = [name] := by
    simp [AccountStore.judge, hid, hevaluating]
  have hfailures : (store.judge name account.id false true).failures = store.failures := by
    simp [AccountStore.judge]
  refine ⟨⟨by rw [hfailures]; exact hbounded.failures, fun hnone => ?_⟩, fun _ => ?_⟩
  · rw [hpending] at hnone
    cases hnone
  · exact ⟨hpending, hlocked⟩

/-- The write of a failed attempt. It locks the account from the fifth failure on. -/
theorem AccountStore.Bounded.fail (hbounded : store.Bounded)
    (halone : (AccountProcess.loginFailure account).Alone name store)
    (hid : account.id = store.subject) : (store.fail name account).Bounded := by
  obtain ⟨hevaluating, hlocked, hcounters, hfailures⟩ := halone hid
  have hwritten := AccountStore.counters_write_self (f := failureWrite store.clock account)
    (if 5 ≤ account.failedLoginCount + 1 then 0 else account.failedLoginCount + 1,
      if 5 ≤ account.failedLoginCount + 1 then some (store.clock + 15 * 60 * 1000) else none)
    (fun _ => rfl) (fun _ => rfl) hcounters
  rw [← hid] at hwritten
  change (store.fail name account).counters = _ at hwritten
  refine ⟨hbounded.failures, ?_⟩
  intro _ hunlocked counters hcounters'
  rw [AccountStore.locked_eq hwritten] at hunlocked
  rw [hwritten, Option.some.injEq] at hcounters'
  have hkept : (store.fail name account).failures = store.failures := rfl
  have hclock : (store.fail name account).clock = store.clock := rfl
  rw [hkept, ← hcounters']
  by_cases hfifth : 5 ≤ account.failedLoginCount + 1
  · -- the lock lies in the future
    simp only [hfifth, hclock, if_true, Option.any_some, decide_eq_false_iff_not] at hunlocked
    omega
  · simp only [hfifth, if_false]
    omega

/-- The reset of an accepted attempt. -/
theorem AccountStore.Bounded.reset (hbounded : store.Bounded) {generation : Nat}
    (halone : (AccountProcess.loginReset account generation).Alone name store)
    (hid : account.id = store.subject) :
    (store.write account.id resetWrite).Bounded ∧
      (AccountProcess.loginSession account generation).Alone name
        (store.write account.id resetWrite) := by
  obtain ⟨hevaluating, hlocked⟩ := halone hid
  have hpending : (store.write account.id resetWrite).evaluating = [name] := hevaluating
  refine ⟨⟨hbounded.failures, fun hnone => ?_⟩, fun _ => ⟨hpending, ?_⟩⟩
  · rw [hpending] at hnone
    cases hnone
  · -- the reset removes the lock, and without the row there is none
    cases hcounters : store.counters with
    | none =>
        have hnone : (store.write account.id resetWrite).counters = none := by
          rw [AccountStore.counters_write (f := resetWrite) fun _ => rfl, Option.map_eq_none_iff]
          exact Option.map_eq_none_iff.mp hcounters
        unfold AccountStore.locked
        rw [hnone]
        rfl
    | some counters =>
        have hwritten := AccountStore.counters_write_self (f := resetWrite) (0, none)
          (fun _ => rfl) (fun _ => rfl) hcounters
        rw [← hid] at hwritten
        rw [AccountStore.locked_eq hwritten]
        rfl

/-- A session begins a new count. -/
theorem AccountStore.bounded_issue (hid : account.id = store.subject) (generation : Nat) :
    (store.issue name account new generation).Bounded := by
  have hzero : (store.issue name account new generation).failures = 0 := if_pos hid
  constructor
  · rw [hzero]
    exact Nat.zero_le 5
  · intro _ _ counters _
    rw [hzero]
    exact ⟨Nat.zero_le _, Nat.zero_le 4⟩

/-- What a statement that is not about the watched account hands on. -/
theorem AccountProcess.Alone.of_other {process next : AccountProcess}
    (hother : ∀ account, process.judged = some account → account.id ≠ store.subject)
    (hadvance : accountAdvance secrets name new store process = some (some next, after)) :
    next.Alone name after := by
  have hsubject := (accountAdvance_clock hadvance).2
  cases process with
  | login body =>
      cases hadvance
      trivial
  | loginCheck body read generation =>
      cases read with
      | none => cases hadvance
      | some account =>
          simp only [accountAdvance] at hadvance
          split at hadvance <;> cases hadvance
          next hlocked => exact Bool.eq_false_of_not_eq_true hlocked
  | loginEvaluate body account eligible generation =>
      simp only [accountAdvance] at hadvance
      split at hadvance
      · split at hadvance <;> cases hadvance
        exact fun hid => absurd (hid.trans hsubject) (hother account rfl)
      · cases hadvance
      · cases hadvance
        exact fun hid => absurd (hid.trans hsubject) (hother account rfl)
  | loginReset account generation =>
      cases hadvance
      exact fun hid => absurd (hid.trans hsubject) (hother account rfl)
  | loginSession account generation =>
      simp only [accountAdvance] at hadvance
      split at hadvance <;> cases hadvance
  | password username body =>
      simp only [accountAdvance] at hadvance
      split at hadvance
      · cases hadvance
      · split at hadvance <;> cases hadvance
        trivial
  | passwordUpdate account newPassword =>
      simp only [accountAdvance] at hadvance
      split at hadvance <;> cases hadvance
      trivial
  | passwordDelete account generation =>
      cases hadvance
      trivial
  | loginFailure account => cases hadvance
  | passwordAudit account generation => cases hadvance
  | logout tokenHash => cases hadvance

/-- A statement on the watched account that meets the condition keeps the bound. -/
theorem AccountStore.Bounded.advance_subject {config : AccountConfig} {process : AccountProcess}
    {remaining : Option AccountProcess} (hbounded : config.store.Bounded)
    (halone : process.Alone name config.store) (hone : OneAtATime secrets config process)
    (hjudged : process.judged = some account) (hid : account.id = config.store.subject)
    (hadvance : accountAdvance secrets name new config.store process =
      some (remaining, after)) :
    after.Bounded ∧ ∀ next, remaining = some next → next.Alone name after := by
  cases process with
  | loginEvaluate body read eligible generation =>
      cases hjudged
      obtain ⟨hevaluating, hcounters, hmfa⟩ := hone hid
      have hlocked := AccountStore.not_locked_of_read halone hcounters
      simp only [accountAdvance] at hadvance
      split at hadvance
      next =>
        split at hadvance <;> cases hadvance
        · obtain ⟨hafter, hnext⟩ :=
            hbounded.judge_invalid name hevaluating hlocked hcounters hid eligible
          refine ⟨hafter, ?_⟩
          rintro _ ⟨⟩
          exact hnext
        · exact ⟨hbounded, by simp⟩
      next hrefused => exact absurd hrefused hmfa
      next =>
        cases hadvance
        obtain ⟨hafter, hnext⟩ :=
          hbounded.judge_accepted name hevaluating hlocked hid generation
        refine ⟨hafter, ?_⟩
        rintro _ ⟨⟩
        exact hnext
  | loginFailure read =>
      cases hjudged
      cases hadvance
      exact ⟨hbounded.fail halone hid, by simp⟩
  | loginReset read generation =>
      cases hjudged
      cases hadvance
      obtain ⟨hafter, hnext⟩ := hbounded.reset halone hid
      refine ⟨hafter, ?_⟩
      rintro _ ⟨⟩
      exact hnext
  | loginSession read generation =>
      cases hjudged
      simp only [accountAdvance] at hadvance
      split at hadvance <;> cases hadvance
      exact ⟨AccountStore.bounded_issue hid generation, by simp⟩
  | _ => cases hjudged

/-- An attempt on the watched account that meets the condition has no rival. -/
theorem AccountProcess.Alone.evaluating {config : AccountConfig} {process : AccountProcess}
    (halone : process.Alone name config.store) (hone : OneAtATime secrets config process)
    (hjudged : process.judged = some account) (hid : account.id = config.store.subject) :
    config.store.evaluating ⊆ [name] := by
  cases process with
  | loginEvaluate body read eligible generation =>
      cases hjudged
      rw [(hone hid).1]
      exact List.nil_subset _
  | loginFailure read =>
      cases hjudged
      rw [(halone hid).1]
      exact List.Subset.refl _
  | loginReset read generation =>
      cases hjudged
      rw [(halone hid).1]
      exact List.Subset.refl _
  | loginSession read generation =>
      cases hjudged
      rw [(halone hid).1]
      exact List.Subset.refl _
  | _ => cases hjudged

/-- What a process knows when no process with its name has writes left. -/
theorem AccountProcess.Alone.of_notMem {process : AccountProcess}
    (halone : process.Alone name store) (hclock : after.clock = store.clock)
    (hsubject : after.subject = store.subject) (hnot : name ∉ store.evaluating) :
    process.Alone name after := by
  have hnone : store.evaluating ≠ [name] := fun heq => hnot (heq ▸ List.mem_cons_self)
  cases process with
  | loginEvaluate body account eligible generation =>
      unfold AccountProcess.Alone
      rw [hclock]
      exact halone
  | loginFailure account =>
      exact fun hid => absurd (halone (hid.trans hsubject)).1 hnone
  | loginReset account generation =>
      exact fun hid => absurd (halone (hid.trans hsubject)).1 hnone
  | loginSession account generation =>
      exact fun hid => absurd (halone (hid.trans hsubject)).1 hnone
  | _ => trivial

end Bound

/-! ## Runs -/

/-- Every login in flight knows what it needs of the watched account. -/
def lockoutOutline : Concurrent.Outline AccountStore AccountProcess where
  invariant := AccountStore.Bounded
  assertion name store process := process.Alone name store

theorem lockoutOutline_valid (secrets : Secrets) :
    lockoutOutline.Valid (accountProgram secrets) AccountStore.Fresh
      (Concurrent.Guarded (OneAtATime secrets)) where
  init := by
    intro store hfresh
    constructor
    · rw [hfresh.failures]
      exact Nat.zero_le 5
    · intro _ _ counters _
      rw [hfresh.failures]
      exact ⟨Nat.zero_le _, Nat.zero_le 4⟩
  drift := by
    intro time store after hdrift hbounded
    obtain ⟨htime, rfl⟩ := Concurrent.drift_eq hdrift
    exact ⟨hbounded.elapse time, fun name process halone => halone.elapse htime⟩
  start := by
    intro name store process hstart _
    cases process <;> first | cases hstart; done | trivial
  own := by
    intro config name new process remaining after hholds hprocess hguarded hadvance
    have halone := hholds.2 name process hprocess
    by_cases hother : ∀ account, process.judged = some account →
        account.id ≠ config.store.subject
    · refine ⟨hholds.1.of_same (accountAdvance_sameLockout hadvance hother), ?_⟩
      rintro next rfl
      exact .of_other hother hadvance
    · push Not at hother
      obtain ⟨account, hjudged, hid⟩ := hother
      exact hholds.1.advance_subject halone (hguarded process hprocess) hjudged hid hadvance
  others := by
    intro config name new process remaining after hholds hprocess hguarded hadvance other process'
      hne hprocess'
    have halone := hholds.2 other process' hprocess'
    by_cases hother : ∀ account, process.judged = some account →
        account.id ≠ config.store.subject
    · exact halone.of_same (accountAdvance_sameLockout hadvance hother)
    · push Not at hother
      obtain ⟨account, hjudged, hid⟩ := hother
      obtain ⟨hclock, hsubject⟩ := accountAdvance_clock hadvance
      -- the statement runs while no other attempt on the account has writes left
      have hrivals := (hholds.2 name process hprocess).evaluating (hguarded process hprocess)
        hjudged hid
      apply halone.of_notMem hclock hsubject
      exact fun hmem => hne (List.mem_singleton.mp (hrivals hmem))

/-- **Lockout.** In every run in which the attempts on the watched account are evaluated
one at a time, at most five attempts with wrong credentials are evaluated before the
account is locked, and no session is created while it is. -/
theorem login_lockout_bound {secrets : Secrets} {config : AccountConfig}
    (hreach : (accountSystem secrets).ReachableWhile
      (Concurrent.Guarded (OneAtATime secrets)) config) :
    config.store.failures ≤ 5 ∧
      ∀ name account generation,
        config.processes name = some (.loginSession account generation) →
        account.id = config.store.subject → config.store.locked = false := by
  have hholds := (lockoutOutline_valid secrets).holds hreach
  refine ⟨hholds.1.failures, fun name account generation hprocess hid => ?_⟩
  exact (hholds.2 name _ hprocess hid).2

/-! ## Sample -/

/-- The hash of a password is the password, and all codes are the same. -/
def plainSecrets : Secrets where
  derives password _ hash := password = hash
  totp _ _ := "123456"

/-- A local account with the password `Correct`. -/
def rootAccount (failedLoginCount : Nat) (lockedUntil : Option Int) : AdminAccountRow where
  active := true
  role := .admin
  canManageDocuments := true
  canPublishDocuments := true
  canDeleteDocuments := true
  validFrom := none
  validUntil := none
  id := "1"
  username := "root"
  displayName := "Root"
  profilePhoto := none
  source := .localAccount
  passwordHash := some "scrypt$salt$Correct"
  mfaSecret := none
  mfaEnabled := false
  failedLoginCount := failedLoginCount
  lockedUntil := lockedUntil

def rootStore (account : AdminAccountRow) (failures : Nat) : AccountStore :=
  ⟨0, [account], [], "1", [], failures, 0, 0, 0⟩

theorem reachable_rootStore {allowed : AccountConfig → AccountMove → Prop} :
    (accountSystem plainSecrets).ReachableWhile allowed
      (Concurrent.idle (rootStore (rootAccount 0 none) 0)) :=
  .init ⟨⟨rfl, rfl, rfl, by simp [Concurrent.idle, rootStore], rfl, rfl⟩, fun _ => rfl⟩

/-- An attempt with a wrong password. -/
def wrongAttempt : AccountProcess := .login ⟨"root", "Wrong", none⟩

/-- Five attempts one after the other lock the account. -/
theorem login_lockout_bound_five :
    ∃ config, (accountSystem plainSecrets).ReachableWhile
        (Concurrent.Guarded (OneAtATime plainSecrets)) config ∧
      config.store = rootStore (rootAccount 0 (some 900000)) 5 ∧
      config.store.locked = true ∧
      (config.store.failures ≤ 5 ∧
        ∀ name account generation,
          config.processes name = some (.loginSession account generation) →
          account.id = config.store.subject → config.store.locked = false) := by
  have hrun : (Concurrent.executeNamed (accountProgram plainSecrets) [0]
      (Concurrent.isGuarded (OneAtATime plainSecrets))
      (Concurrent.idle (rootStore (rootAccount 0 none) 0))
      ((List.replicate 5 [.start 0 wrongAttempt, .advance 0 "", .advance 0 "", .advance 0 "",
        .advance 0 ""]).flatten)).bind (Concurrent.settled [0]) =
        some (rootStore (rootAccount 0 (some 900000)) 5) := by
    decide
  have hreach := Concurrent.reachable_settled
    (fun _ _ _ hguarded => Concurrent.guarded_of_isGuarded hguarded) _ reachable_rootStore hrun
  exact ⟨_, hreach, rfl, by decide, login_lockout_bound hreach⟩

/-- Six attempts read the account before the first of them writes: the password of all six
is verified, the stored number is one, and the account is not locked. -/
theorem overlapping_logins_not_locked :
    ∃ config, (accountSystem plainSecrets).Reachable config ∧
      config.store.accounts = [rootAccount 1 none] ∧ config.store.sessions = [] ∧
      config.store.failures = 6 ∧ config.store.locked = false := by
  have hrun : (Concurrent.executeNamed (accountProgram plainSecrets) (List.range 6)
      (fun _ _ => true) (Concurrent.idle (rootStore (rootAccount 0 none) 0))
      ((List.range 6).flatMap (fun name =>
          [.start name wrongAttempt, .advance name "", .advance name "", .advance name ""]) ++
        (List.range 6).map (.advance · ""))).bind (Concurrent.settled (List.range 6)) =
        some (rootStore (rootAccount 1 none) 6) := by
    decide
  have hreach := Concurrent.reachable_settled (fun _ _ _ _ => trivial) _ reachable_rootStore hrun
  exact ⟨_, hreach, rfl, rfl, rfl, by decide⟩

end IsmsPortal
