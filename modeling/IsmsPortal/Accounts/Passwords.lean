import IsmsPortal.Accounts.Lockout

/-! # Sessions after a password change

A password change deletes the sessions of the account after it has stored the new hash.
A login that has read the old hash creates its session later, without reading the
account again, and the session stays when the deletion has already run.
-/

namespace IsmsPortal

open Foundation

/-- A login on the watched account creates its session before the deletion of every
password change that came after its read. -/
def InTime (config : AccountConfig) : AccountProcess → Prop
  | .loginSession account generation =>
      account.id = config.store.subject → config.store.purged ≤ generation
  | _ => True

instance (config : AccountConfig) (process : AccountProcess) :
    Decidable (InTime config process) :=
  match process with
  | .loginSession account generation => inferInstanceAs
      (Decidable (account.id = config.store.subject → config.store.purged ≤ generation))
  | .login _ | .loginCheck .. | .loginEvaluate .. | .loginFailure _ | .loginReset ..
  | .password .. | .passwordUpdate .. | .passwordDelete .. | .passwordAudit ..
  | .logout _ => .isTrue trivial

/-- No session of the watched account is older than the last deletion, which comes before
the last success. -/
structure AccountStore.Purged (store : AccountStore) : Prop where
  sessions : ∀ session ∈ store.sessions, session.adminAccountId = store.subject →
    store.purged ≤ session.generation
  returned : store.returned ≤ store.purged

/-- A change that is about to return has deleted the sessions. -/
def AccountProcess.HasPurged (store : AccountStore) : AccountProcess → Prop
  | .passwordAudit account generation =>
      account.id = store.subject → generation ≤ store.purged
  | _ => True

/-! ## One statement -/

section Steps

variable {secrets : Secrets} {name : Nat} {new : String} {store after : AccountStore}
variable {process : AccountProcess} {remaining : Option AccountProcess}

/-- What a statement does to the sessions and to the notes on password changes: nothing,
a session, a deletion, a success, or a logout. -/
theorem accountAdvance_sessions
    (hadvance : accountAdvance secrets name new store process = some (remaining, after)) :
    after.subject = store.subject ∧
      (after.sessions = store.sessions ∧ after.purged = store.purged ∧
          after.returned = store.returned ∧
          (∀ next, remaining = some next → next.HasPurged after) ∨
        (∃ account generation, process = .loginSession account generation ∧ remaining = none ∧
          after = store.issue name account new generation) ∨
        (∃ account generation, process = .passwordDelete account generation ∧
          remaining = some (.passwordAudit account generation) ∧
          after = store.purge account.id generation) ∨
        (∃ account generation, process = .passwordAudit account generation ∧
          remaining = none ∧ after = store.confirm account.id generation) ∨
        (∃ tokenHash, process = .logout tokenHash ∧ remaining = none ∧
          after = { store with
            sessions := store.sessions.filter (·.tokenHash ≠ tokenHash) })) := by
  refine ⟨(accountAdvance_clock hadvance).2, ?_⟩
  cases process with
  | login body =>
      cases hadvance
      exact .inl ⟨rfl, rfl, rfl, by rintro _ ⟨⟩; trivial⟩
  | loginCheck body read generation =>
      left
      cases read with
      | none =>
          cases hadvance
          exact ⟨rfl, rfl, rfl, by simp⟩
      | some account =>
          simp only [accountAdvance] at hadvance
          split at hadvance <;> cases hadvance
          · exact ⟨rfl, rfl, rfl, by simp⟩
          · exact ⟨rfl, rfl, rfl, by rintro _ ⟨⟩; trivial⟩
  | loginEvaluate body account eligible generation =>
      left
      simp only [accountAdvance] at hadvance
      split at hadvance
      · split at hadvance <;> cases hadvance
        · exact ⟨rfl, rfl, rfl, by rintro _ ⟨⟩; trivial⟩
        · exact ⟨rfl, rfl, rfl, by simp⟩
      · cases hadvance
        exact ⟨rfl, rfl, rfl, by simp⟩
      · cases hadvance
        exact ⟨rfl, rfl, rfl, by rintro _ ⟨⟩; trivial⟩
  | loginFailure account =>
      cases hadvance
      exact .inl ⟨rfl, rfl, rfl, by simp⟩
  | loginReset account generation =>
      cases hadvance
      exact .inl ⟨rfl, rfl, rfl, by rintro _ ⟨⟩; trivial⟩
  | loginSession account generation =>
      simp only [accountAdvance] at hadvance
      split at hadvance <;> cases hadvance
      exact .inr (.inl ⟨account, generation, rfl, rfl, rfl⟩)
  | password username body =>
      left
      simp only [accountAdvance] at hadvance
      split at hadvance
      · cases hadvance
        exact ⟨rfl, rfl, rfl, by simp⟩
      · split at hadvance <;> cases hadvance
        · exact ⟨rfl, rfl, rfl, by rintro _ ⟨⟩; trivial⟩
        · exact ⟨rfl, rfl, rfl, by simp⟩
  | passwordUpdate account newPassword =>
      simp only [accountAdvance] at hadvance
      split at hadvance <;> cases hadvance
      exact .inl ⟨rfl, rfl, rfl, by rintro _ ⟨⟩; trivial⟩
  | passwordDelete account generation =>
      cases hadvance
      exact .inr (.inr (.inl ⟨account, generation, rfl, rfl, rfl⟩))
  | passwordAudit account generation =>
      cases hadvance
      exact .inr (.inr (.inr (.inl ⟨account, generation, rfl, rfl, rfl⟩)))
  | logout tokenHash =>
      cases hadvance
      exact .inr (.inr (.inr (.inr ⟨tokenHash, rfl, rfl, rfl⟩)))

/-- A new session is not older than the last deletion. -/
theorem AccountStore.Purged.issue (hpurged : store.Purged) {account : AdminAccountRow}
    {generation : Nat}
    (hintime : account.id = store.subject → store.purged ≤ generation) :
    (store.issue name account new generation).Purged := by
  refine ⟨fun session hsession hsubject => ?_, hpurged.returned⟩
  rcases List.mem_append.mp hsession with hold | hcreated
  · exact hpurged.sessions session hold hsubject
  · rw [List.mem_singleton.mp hcreated] at hsubject ⊢
    exact hintime hsubject

/-- A deletion leaves no session of its account. -/
theorem AccountStore.Purged.purge (hpurged : store.Purged) (id : String) (generation : Nat) :
    (store.purge id generation).Purged := by
  by_cases hid : id = store.subject
  · have hmax : (store.purge id generation).purged = max store.purged generation := if_pos hid
    constructor
    · -- every session of the account is gone
      intro session hsession hsubject
      have hkept := (List.mem_filter.mp hsession).2
      simp only [ne_eq, decide_not, Bool.not_eq_true', decide_eq_false_iff_not] at hkept
      exact absurd (hsubject.trans hid.symm) hkept
    · rw [hmax]
      exact Nat.le_trans hpurged.returned (Nat.le_max_left _ _)
  · have hsame : (store.purge id generation).purged = store.purged := if_neg hid
    constructor
    · intro session hsession hsubject
      rw [hsame]
      exact hpurged.sessions session (List.mem_filter.mp hsession).1 hsubject
    · rw [hsame]
      exact hpurged.returned

theorem AccountStore.Purged.confirm (hpurged : store.Purged) {account : AdminAccountRow}
    {generation : Nat}
    (hdeleted : (AccountProcess.passwordAudit account generation).HasPurged store) :
    (store.confirm account.id generation).Purged := by
  refine ⟨hpurged.sessions, ?_⟩
  simp only [AccountStore.confirm]
  split
  next hid => exact Nat.max_le.mpr ⟨hpurged.returned, hdeleted hid⟩
  next => exact hpurged.returned

theorem AccountStore.Purged.advance {config : AccountConfig}
    (hpurged : config.store.Purged) (hdeleted : process.HasPurged config.store)
    (hintime : InTime config process)
    (hadvance : accountAdvance secrets name new config.store process =
      some (remaining, after)) :
    after.Purged ∧ ∀ next, remaining = some next → next.HasPurged after := by
  obtain ⟨hsubject, ⟨hsessions, hsame, hreturned, hnext⟩ | ⟨account, generation, rfl, rfl, rfl⟩ |
    ⟨account, generation, rfl, rfl, rfl⟩ | ⟨account, generation, rfl, rfl, rfl⟩ |
    ⟨tokenHash, rfl, rfl, rfl⟩⟩ := accountAdvance_sessions hadvance
  · refine ⟨⟨?_, ?_⟩, hnext⟩
    · rw [hsessions, hsubject, hsame]
      exact hpurged.sessions
    · rw [hreturned, hsame]
      exact hpurged.returned
  · exact ⟨hpurged.issue hintime, by simp⟩
  · refine ⟨hpurged.purge account.id generation, ?_⟩
    rintro _ ⟨⟩ hid
    have hmax : (config.store.purge account.id generation).purged =
        max config.store.purged generation := if_pos hid
    rw [hmax]
    exact Nat.le_max_right _ _
  · exact ⟨hpurged.confirm hdeleted, by simp⟩
  · refine ⟨⟨fun session hsession => ?_, hpurged.returned⟩, by simp⟩
    exact hpurged.sessions session (List.mem_filter.mp hsession).1

/-- No statement takes a deletion back. -/
theorem accountAdvance_purged
    (hadvance : accountAdvance secrets name new store process = some (remaining, after)) :
    store.purged ≤ after.purged := by
  obtain ⟨-, ⟨-, hsame, -, -⟩ | ⟨account, generation, -, -, rfl⟩ |
    ⟨account, generation, -, -, rfl⟩ | ⟨account, generation, -, -, rfl⟩ |
    ⟨tokenHash, -, -, rfl⟩⟩ := accountAdvance_sessions hadvance
  · exact Nat.le_of_eq hsame.symm
  · exact Nat.le_refl _
  · simp only [AccountStore.purge]
    split
    · exact Nat.le_max_left _ _
    · exact Nat.le_refl _
  · exact Nat.le_refl _
  · exact Nat.le_refl _

end Steps

/-! ## Runs -/

/-- Every change that is about to return has deleted the sessions. -/
def passwordOutline : Concurrent.Outline AccountStore AccountProcess where
  invariant := AccountStore.Purged
  assertion _ store process := process.HasPurged store

theorem passwordOutline_valid (secrets : Secrets) :
    passwordOutline.Valid (accountProgram secrets) AccountStore.Fresh
      (Concurrent.Guarded InTime) where
  init := by
    intro store hfresh
    constructor
    · intro session _ _
      rw [hfresh.purged]
      exact Nat.zero_le _
    · rw [hfresh.returned]
      exact Nat.zero_le _
  drift := by
    intro time store after hdrift hpurged
    obtain ⟨-, rfl⟩ := Concurrent.drift_eq hdrift
    exact ⟨⟨hpurged.sessions, hpurged.returned⟩, fun _ _ hdeleted => hdeleted⟩
  start := by
    intro name store process hstart _
    cases process <;> first | cases hstart; done | trivial
  own := by
    intro config name new process remaining after hholds hprocess hguarded hadvance
    exact hholds.1.advance (hholds.2 name process hprocess) (hguarded process hprocess) hadvance
  others := by
    intro config name new process remaining after hholds _ _ hadvance other process' _ hprocess'
    have hdeleted := hholds.2 other process' hprocess'
    cases process' with
    | passwordAudit account generation =>
        -- deletions only come later, never back
        intro hid
        rw [(accountAdvance_clock hadvance).2] at hid
        exact Nat.le_trans (hdeleted hid) (accountAdvance_purged hadvance)
    | _ => trivial

/-- **Password changes.** In every run in which the logins on the watched account create
their sessions in time, no session of a login that read the account before a password
change is left once the change has returned success. -/
theorem password_change_ends_sessions {secrets : Secrets} {config : AccountConfig}
    (hreach : (accountSystem secrets).ReachableWhile (Concurrent.Guarded InTime) config) :
    ∀ session ∈ config.store.sessions, session.adminAccountId = config.store.subject →
      config.store.returned ≤ session.generation := by
  intro session hsession hsubject
  have hpurged := ((passwordOutline_valid secrets).holds hreach).1
  exact Nat.le_trans hpurged.returned (hpurged.sessions session hsession hsubject)

/-! ## Sample -/

/-- The account after the change, with the sessions that are left. -/
def changedStore (sessions : List IssuedSession) : AccountStore :=
  ⟨0, [{ rootAccount 0 none with passwordHash := some "scrypt$salt$Correct-Battery" }],
    sessions, "1", [], 0, 1, 1, 1⟩

/-- A session of the account, eight hours long. -/
def rootSession (tokenHash : String) (generation : Nat) : IssuedSession :=
  ⟨⟨tokenHash, "1", 28800000⟩, generation⟩

def rootLogin (password : String) : AccountProcess := .login ⟨"root", password, none⟩

def rootChange : AccountProcess := .password "root" ⟨"Correct", "Correct-Battery"⟩

/-- The change ends the session of the old password; the new password gives another. -/
theorem password_change_ends_sessions_login :
    ∃ config, (accountSystem plainSecrets).ReachableWhile (Concurrent.Guarded InTime) config ∧
      config.store = changedStore [rootSession "b" 1] ∧
      ∀ session ∈ config.store.sessions, session.adminAccountId = config.store.subject →
        config.store.returned ≤ session.generation := by
  have hrun : (Concurrent.executeNamed (accountProgram plainSecrets) [0]
      (Concurrent.isGuarded InTime) (Concurrent.idle (rootStore (rootAccount 0 none) 0))
      [.start 0 (rootLogin "Correct"), .advance 0 "", .advance 0 "", .advance 0 "",
        .advance 0 "", .advance 0 "a",
        .start 0 rootChange, .advance 0 "", .advance 0 "scrypt$salt$Correct-Battery",
        .advance 0 "", .advance 0 "",
        .start 0 (rootLogin "Correct-Battery"), .advance 0 "", .advance 0 "", .advance 0 "",
        .advance 0 "", .advance 0 "b"]).bind (Concurrent.settled [0]) =
        some (changedStore [rootSession "b" 1]) := by
    decide
  have hreach := Concurrent.reachable_settled
    (fun _ _ _ hguarded => Concurrent.guarded_of_isGuarded hguarded) _ reachable_rootStore hrun
  exact ⟨_, hreach, rfl, password_change_ends_sessions hreach⟩

/-- A login with the old password is accepted before the change and creates its session
after the change has returned. -/
theorem login_outlives_password_change :
    ∃ config, (accountSystem plainSecrets).Reachable config ∧
      ∃ session ∈ config.store.sessions, session.adminAccountId = config.store.subject ∧
        session.generation < config.store.returned := by
  have hrun : (Concurrent.executeNamed (accountProgram plainSecrets) [0, 1]
      (fun _ _ => true) (Concurrent.idle (rootStore (rootAccount 0 none) 0))
      [.start 0 (rootLogin "Correct"), .advance 0 "", .advance 0 "", .advance 0 "",
        .start 1 rootChange, .advance 1 "", .advance 1 "scrypt$salt$Correct-Battery",
        .advance 1 "", .advance 1 "", .advance 0 "", .advance 0 "a"]).bind
        (Concurrent.settled [0, 1]) = some (changedStore [rootSession "a" 0]) := by
    decide
  have hreach := Concurrent.reachable_settled (fun _ _ _ _ => trivial) _ reachable_rootStore hrun
  exact ⟨_, hreach, rootSession "a" 0, List.mem_cons_self, rfl, by decide⟩

end IsmsPortal
