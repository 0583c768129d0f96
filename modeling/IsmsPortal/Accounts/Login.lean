import IsmsPortal.Accounts.Store
import IsmsPortal.Foundation.Interleaving
import IsmsPortal.Foundation.JsString
import IsmsPortal.Foundation.Table

/-! # Logins and password changes

A login reads the account once. It checks the lock and the account, verifies the
password and the code, and then writes: the number of failures it has read plus one,
or a reset followed by a session. A password change verifies the current password,
stores the new hash and deletes the sessions of the account in two statements.

The store watches one account. What it notes of the logins and changes on this account
is no column: who has been evaluated and has writes left, how many attempts failed, and
how often the password has changed.
-/

namespace IsmsPortal

open Foundation

structure LoginDto where
  username : String
  password : String
  mfaCode : Option String
deriving DecidableEq

structure ChangePasswordDto where
  currentPassword : String
  newPassword : String
deriving DecidableEq

/-- A session, with how often the password had changed when its login read the account. -/
structure IssuedSession extends AdminSession where
  generation : Nat
deriving DecidableEq

/-- The tables, and the notes on the watched account. -/
structure AccountStore where
  clock : Int
  accounts : List AdminAccountRow
  sessions : List IssuedSession
  /-- The id of the watched account. -/
  subject : String
  /-- Attempts that have been evaluated and have not finished their writes. -/
  evaluating : List Nat
  /-- Attempts with wrong credentials that were evaluated while the account was not
  locked, since the last success and the last end of a lock. -/
  failures : Nat
  /-- How often the password has changed. -/
  generation : Nat
  /-- The last change whose deletion of sessions has run. -/
  purged : Nat
  /-- The last change that has returned success. -/
  returned : Nat
deriving DecidableEq

/-- Where a request is, and what it has read. -/
inductive AccountProcess
  | login (body : LoginDto)
  | loginCheck (body : LoginDto) (account : Option AdminAccountRow) (generation : Nat)
  | loginEvaluate (body : LoginDto) (account : AdminAccountRow) (eligible : Bool)
      (generation : Nat)
  | loginFailure (account : AdminAccountRow)
  | loginReset (account : AdminAccountRow) (generation : Nat)
  | loginSession (account : AdminAccountRow) (generation : Nat)
  | password (username : String) (body : ChangePasswordDto)
  | passwordUpdate (account : AdminAccountRow) (newPassword : String)
  | passwordDelete (account : AdminAccountRow) (generation : Nat)
  | passwordAudit (account : AdminAccountRow) (generation : Nat)
  | logout (tokenHash : String)
deriving DecidableEq

/-! ## The watched account -/

namespace AccountStore

variable (store : AccountStore)

/-- The failures and the lock of the watched account. -/
def counters : Option (Nat × Option Int) :=
  (store.accounts.find? (·.id = store.subject)).map fun account =>
    (account.failedLoginCount, account.lockedUntil)

/-- `lockedUntil` of the watched account is in the future. -/
def locked : Bool := store.counters.any fun counters => counters.2.any (store.clock < ·)

/-- Time passes. The end of a lock begins a new count of failures. -/
def elapse (time : Int) : AccountStore where
  __ := store
  clock := time
  failures :=
    if store.locked = true ∧ { store with clock := time }.locked = false then 0
    else store.failures

/-- Rewrite an account. -/
def write (id : String) (f : AdminAccountRow → AdminAccountRow) : AccountStore where
  __ := store
  accounts := Table.update AdminAccountRow.id id f store.accounts

/-- Note an evaluation on the watched account. -/
def judge (name : Nat) (id : String) (wrong writes : Bool) : AccountStore where
  __ := store
  failures :=
    if id = store.subject ∧ wrong = true ∧ store.locked = false then store.failures + 1
    else store.failures
  evaluating :=
    if id = store.subject ∧ writes = true then name :: store.evaluating else store.evaluating

/-- Delete the sessions of an account. -/
def purge (id : String) (generation : Nat) : AccountStore where
  __ := store
  sessions := store.sessions.filter (·.adminAccountId ≠ id)
  purged := if id = store.subject then max store.purged generation else store.purged

/-- Note that a change of the password has returned success. -/
def confirm (id : String) (generation : Nat) : AccountStore where
  __ := store
  returned := if id = store.subject then max store.returned generation else store.returned

end AccountStore

/-! ## Writes -/

/-- The columns that a failed attempt writes, from the number it has read. -/
def failureWrite (clock : Int) (read : AdminAccountRow) (account : AdminAccountRow) :
    AdminAccountRow where
  __ := account
  failedLoginCount := if 5 ≤ read.failedLoginCount + 1 then 0 else read.failedLoginCount + 1
  lockedUntil := if 5 ≤ read.failedLoginCount + 1 then some (clock + 15 * 60 * 1000) else none

/-- The columns that an accepted attempt writes. -/
def resetWrite (account : AdminAccountRow) : AdminAccountRow where
  __ := account
  failedLoginCount := 0
  lockedUntil := none

namespace AccountStore

variable (store : AccountStore) (name : Nat) (account : AdminAccountRow)

/-- Count a failed attempt, which has no writes left. -/
def fail : AccountStore where
  __ := store.write account.id (failureWrite store.clock account)
  evaluating :=
    if account.id = store.subject then store.evaluating.erase name else store.evaluating

/-- Create a session, which ends after eight hours. The attempt has succeeded. -/
def issue (tokenHash : String) (generation : Nat) : AccountStore where
  __ := store
  sessions := store.sessions ++
    [⟨⟨tokenHash, account.id, store.clock + 8 * 60 * 60 * 1000⟩, generation⟩]
  failures := if account.id = store.subject then 0 else store.failures
  evaluating :=
    if account.id = store.subject then store.evaluating.erase name else store.evaluating

/-- Store a new password. -/
def changePassword (passwordHash : String) : AccountStore where
  __ := store.write account.id fun row => { row with passwordHash := some passwordHash }
  generation := if account.id = store.subject then store.generation + 1 else store.generation

end AccountStore

/-! ## Endpoints -/

/-- What becomes of the credentials of an attempt. -/
inductive Verdict
  | invalid
  | mfaRefused
  | accepted
deriving DecidableEq

section Endpoints

variable (secrets : Secrets)

/-- The second factor is not asked for, or is right. -/
def passesMfa (clock : Int) (account : AdminAccountRow) (mfaCode : Option String) : Bool :=
  !account.mfaEnabled || mfaCode.any fun code =>
    code ≠ "" && verifyTotp secrets clock (account.mfaSecret.getD "") code

/-- The checks of `login` after the lock. The password is verified only for an account
that can be used. -/
def evaluate (clock : Int) (body : LoginDto) (account : AdminAccountRow) (eligible : Bool) :
    Verdict :=
  if eligible = true ∧ verifyPassword secrets body.password account.passwordHash = true then
    if passesMfa secrets clock account body.mfaCode then .accepted else .mfaRefused
  else .invalid

/-- Run the next statement. The choice is the hash of a new token or of a new password. -/
def accountAdvance (name : Nat) (new : String) (store : AccountStore) :
    AccountProcess → Option (Option AccountProcess × AccountStore)
  | .login body =>
      -- the only read of the account
      let account := store.accounts.find? (·.username = JsString.trim body.username)
      some (some (.loginCheck body account store.generation), store)
  | .loginCheck _ none _ => some (none, store)  -- "Invalid credentials"
  | .loginCheck body (some account) generation =>
      if account.locked store.clock then some (none, store)  -- "Account temporarily locked"
      else
        let eligible := account.source = .localAccount && account.current store.clock
        some (some (.loginEvaluate body account eligible generation), store)
  | .loginEvaluate body account eligible generation =>
      match evaluate secrets store.clock body account eligible with
      | .invalid =>
          if account.source = .localAccount then
            some (some (.loginFailure account), store.judge name account.id eligible true)
          else some (none, store)  -- "Invalid credentials"
      | .mfaRefused =>  -- "MFA code required or invalid"
          some (none, store.judge name account.id true false)
      | .accepted =>
          some (some (.loginReset account generation), store.judge name account.id false true)
  | .loginFailure account =>  -- "Invalid credentials"
      some (none, store.fail name account)
  | .loginReset account generation =>
      -- the reset and the session are two statements without a transaction
      some (some (.loginSession account generation), store.write account.id resetWrite)
  | .loginSession account generation =>
      if store.sessions.any (·.tokenHash = new) then none
      else some (none, store.issue name account new generation)
  | .password username body =>
      match store.accounts.find? (·.username = username) with
      | none => some (none, store)  -- "Current password is invalid"
      | some account =>
          if verifyPassword secrets body.currentPassword account.passwordHash then
            some (some (.passwordUpdate account body.newPassword), store)
          else some (none, store)  -- "Current password is invalid"
  | .passwordUpdate account newPassword =>
      -- `hashPassword` draws a salt; the result is a hash that verifies the password
      if verifyPassword secrets newPassword (some new) then
        let updated := store.changePassword account new
        some (some (.passwordDelete account updated.generation), updated)
      else none
  | .passwordDelete account generation =>
      -- deletes the sessions that exist now; a login may still create one
      some (some (.passwordAudit account generation), store.purge account.id generation)
  | .passwordAudit account generation => some (none, store.confirm account.id generation)
  | .logout tokenHash =>
      some (none, { store with sessions := store.sessions.filter (·.tokenHash ≠ tokenHash) })

end Endpoints

def AccountProcess.initial : AccountProcess → Bool
  | .login _ | .password .. | .logout _ => true
  | _ => false

def accountProgram (secrets : Secrets) : Concurrent AccountStore AccountProcess String where
  drift time store := if store.clock ≤ time then some (store.elapse time) else none
  start := AccountProcess.initial
  advance := accountAdvance secrets

abbrev AccountConfig : Type := Concurrent.Config AccountStore AccountProcess

abbrev AccountMove : Type := Concurrent.Move AccountProcess String

/-- Nothing has been noted yet of the watched account. -/
structure AccountStore.Fresh (store : AccountStore) : Prop where
  evaluating : store.evaluating = []
  failures : store.failures = 0
  generation : store.generation = 0
  sessions : ∀ session ∈ store.sessions, session.generation = 0
  purged : store.purged = 0
  returned : store.returned = 0

/-- Runs from any accounts and sessions. -/
abbrev accountSystem (secrets : Secrets) : System AccountConfig AccountMove :=
  (accountProgram secrets).system AccountStore.Fresh

end IsmsPortal
