import IsmsPortal.Access.Listing
import IsmsPortal.Foundation.Checks
import IsmsPortal.Foundation.IsoDate
import IsmsPortal.Foundation.Locking

/-! # Shares of a sensitive document

A sensitive document is shared with named persons. A new share revokes the active ones of
the same person and adds a row, in one transaction at read committed: the update sees the
rows that are committed when it starts, waits for those that are being written, and looks
at them again. Nothing in the database makes the active share of a person unique. Shares
are revoked one by one, or all together when the document is no longer sensitive.
-/

namespace IsmsPortal

open Foundation

inductive ShareDuration
  | day
  | week
  | month
  | quarter
  | lifetime
  | custom
deriving DecidableEq

structure ShareDto where
  recipient : String
  duration : ShareDuration
  expiresAt : Option String
deriving DecidableEq

/-- A row of `SensitiveShare`, of one document. -/
structure SensitiveShareRow where
  id : String
  recipient : String
  createdBy : String
  createdAt : Int
  expiresAt : Option Int
  revokedAt : Option Int
deriving DecidableEq

/-- A share that has passed the checks. -/
structure CheckedShare where
  recipient : String
  createdBy : String
  expiresAt : Option Int
deriving DecidableEq

/-- The document and its shares. -/
structure SharingStore where
  clock : Int
  sensitive : Bool
  shares : List SensitiveShareRow
deriving DecidableEq

/-- Where a request is, and what it has read. The rows of a share or of a revocation are
known by their ids. -/
inductive SharingProcess
  | share (username : String) (body : ShareDto)
  | shareScan (checked : CheckedShare)
  | shareUpdate (checked : CheckedShare) (ids : List String) (revokedAt : Int)
  | shareCreate (checked : CheckedShare) (ids : List String) (revokedAt : Int)
  | revoke (id : String)
  | revokeUpdate (id : String)
  | setSensitivity (sensitive : Bool)
  | setSensitivityUpdate (sensitive : Bool)
  | setSensitivityPrepare
  | setSensitivityScan
  | setSensitivityRevoke (ids : List String) (revokedAt : Int)
deriving DecidableEq

/-- The id of a new share, and whether the preparation of watermarks fails. -/
structure SharingChoice where
  id : String
  fails : Bool

/-! ## Checks -/

/-- The days of a fixed duration. -/
def durationDays : ShareDuration → Int
  | .day => 1
  | .week => 7
  | .month => 30
  | .quarter => 90
  | .lifetime | .custom => 0

section Checks

variable (text : TextRules) (parseDate : String → Option Int)

def resolveExpiry (clock : Int) (body : ShareDto) : Except String (Option Int) := do
  match body.duration with
  | .lifetime => return none
  | .custom =>
      let some date := (body.expiresAt.filter (· ≠ "")).bind parseDate
        | throw "A future expiry date is required"
      unless clock < date do throw "A future expiry date is required"
      if clock + days (365 * 5) < date then throw "Expiry date is too far in the future"
      return some date
  | duration => return some (clock + days (durationDays duration))

/-- The checks of `share` after the document has been found. -/
def checkShare (clock : Int) (username : String) (body : ShareDto) :
    Except String CheckedShare := do
  let recipient := normalizeIdentity text body.recipient
  if recipient.toList.any JsString.isWhiteSpace then throw "Invalid recipient"
  if recipient = normalizeIdentity text username then
    throw "You already have access to this document"
  let expiresAt ← resolveExpiry parseDate clock body
  return ⟨recipient, username, expiresAt⟩

end Checks

/-! ## Statements -/

namespace SharingStore

variable (store : SharingStore)

/-- The shares of a person that are not revoked. -/
def activeShares (recipient : String) : List SensitiveShareRow :=
  store.shares.filter fun share => share.recipient = recipient && share.revokedAt.isNone

/-- Set `revokedAt` of the shares with these ids that are not revoked. -/
def revokeShares (ids : List String) (revokedAt : Int) : SharingStore where
  __ := store
  shares := store.shares.map fun share =>
    if share.id ∈ ids ∧ share.revokedAt = none then { share with revokedAt := some revokedAt }
    else share

/-- Add a share. -/
def createShare (checked : CheckedShare) (id : String) : SharingStore where
  __ := store
  shares := store.shares ++
    [⟨id, checked.recipient, checked.createdBy, store.clock, checked.expiresAt, none⟩]

end SharingStore

/-- `hasSensitiveShare` of the document: a person has a share that is neither revoked nor
expired. -/
def holdsSensitiveShare (text : TextRules) (store : SharingStore) (identity : String) : Bool :=
  store.shares.any fun share => share.recipient = normalizeIdentity text identity &&
    share.revokedAt.isNone && share.expiresAt.all (store.clock < ·)

section Program

variable (text : TextRules) (parseDate : String → Option Int)

/-- Run the next statement. The checks of depositors, of the status of the document and of
permissions can only refuse a request. The transaction of a share begins with `shareScan`,
which reads the rows, and ends with `shareCreate`, which adds the share and commits. -/
def sharingAdvance (choice : SharingChoice) (store : SharingStore) :
    SharingProcess → Option (Option SharingProcess × SharingStore)
  | .share username body =>
      if store.sensitive then
        some ((checkShare text parseDate store.clock username body).toOption.map .shareScan, store)
      else some (none, store)  -- "Not Found"
  | .shareScan checked =>
      let ids := (store.activeShares checked.recipient).map SensitiveShareRow.id
      some (some (.shareUpdate checked ids store.clock), store)
  | .shareUpdate checked ids revokedAt =>
      -- the rows are looked at again once they are locked; new rows are not seen
      let locked := ids.filter fun id =>
        store.shares.any fun share => share.id = id && share.revokedAt.isNone
      some (some (.shareCreate checked locked revokedAt), store)
  | .shareCreate checked ids revokedAt =>
      if store.shares.any (·.id = choice.id) then none
      else some (none, (store.revokeShares ids revokedAt).createShare checked choice.id)
  | .revoke id =>
      if store.shares.any (·.id = id) then some (some (.revokeUpdate id), store)
      else some (none, store)  -- "Not Found"
  | .revokeUpdate id => some (none, store.revokeShares [id] store.clock)
  | .setSensitivity sensitive =>
      if sensitive = store.sensitive then some (none, store)
      else some (some (.setSensitivityUpdate sensitive), store)
  | .setSensitivityUpdate sensitive =>
      let next := if sensitive then .setSensitivityPrepare else .setSensitivityScan
      some (some next, { store with sensitive := sensitive })
  | .setSensitivityPrepare =>
      if choice.fails then some (none, { store with sensitive := false })
      else some (none, store)
  | .setSensitivityScan =>
      let active := store.shares.filter (·.revokedAt.isNone)
      some (some (.setSensitivityRevoke (active.map SensitiveShareRow.id) store.clock), store)
  | .setSensitivityRevoke ids revokedAt => some (none, store.revokeShares ids revokedAt)

end Program

def SharingProcess.initial : SharingProcess → Bool
  | .share .. | .revoke _ | .setSensitivity _ => true
  | _ => false

def sharingProgram (text : TextRules) (parseDate : String → Option Int) :
    Concurrent SharingStore SharingProcess SharingChoice where
  drift time store := if store.clock ≤ time then some { store with clock := time } else none
  start := SharingProcess.initial
  advance _ := sharingAdvance text parseDate

abbrev SharingConfig : Type := Concurrent.Config SharingStore SharingProcess

abbrev SharingMove : Type := Concurrent.Move SharingProcess SharingChoice

/-- Runs from a document that has not been shared. -/
abbrev sharingSystem (text : TextRules) (parseDate : String → Option Int) :
    System SharingConfig SharingMove :=
  (sharingProgram text parseDate).system fun store => store.shares = []

/-! ## Locks -/

/-- The rows that an open share has updated, and those that a statement writes. -/
def shareLocks : Concurrent.Locks SharingStore SharingProcess String where
  holds
    | .shareCreate _ ids _ => ids
    | _ => []
  wants _
    | .shareUpdate _ ids _ | .setSensitivityRevoke ids _ => ids
    | .revokeUpdate id => [id]
    | _ => []

/-- The person of a share whose transaction is open. -/
def recipientLocks : Concurrent.Locks SharingStore SharingProcess String where
  holds
    | .shareUpdate checked _ _ | .shareCreate checked _ _ => [checked.recipient]
    | _ => []
  wants _
    | .shareScan checked => [checked.recipient]
    | _ => []

/-- Statements wait for rows, and the transaction of a share begins only when no other one
for the same person is open. -/
def OneSharePerPerson (config : SharingConfig) (move : SharingMove) : Prop :=
  shareLocks.Free config move ∧ recipientLocks.Free config move

/-! ## Active shares -/

section Active

variable {store : SharingStore} {recipient : String} {share : SensitiveShareRow}

theorem SharingStore.mem_activeShares :
    share ∈ store.activeShares recipient ↔
      share ∈ store.shares ∧ share.recipient = recipient ∧ share.revokedAt = none := by
  simp [SharingStore.activeShares]

/-- A revocation leaves the active shares with other ids. -/
theorem SharingStore.activeShares_revokeShares (ids : List String) (revokedAt : Int) :
    (store.revokeShares ids revokedAt).activeShares recipient =
      (store.activeShares recipient).filter (·.id ∉ ids) := by
  unfold SharingStore.activeShares SharingStore.revokeShares
  induction store.shares with
  | nil => rfl
  | cons share rest ih =>
      simp only [List.map_cons, List.filter_cons, ih]
      -- a row with one of the ids is in neither list, active or not
      by_cases hid : share.id ∈ ids
      · by_cases hactive : share.revokedAt = none
        · simp only [hid, hactive, and_self, if_true, Option.isNone_some, Bool.and_false,
            Bool.false_eq_true, if_false]
          split <;> simp [hid]
        · simp [hid, hactive]
      · simp only [hid, false_and, if_false]
        split
        · simp [hid]
        · rfl

theorem SharingStore.activeShares_createShare (checked : CheckedShare) (id : String) :
    ((store.createShare checked id).activeShares recipient).length =
      (store.activeShares recipient).length +
        if checked.recipient = recipient then 1 else 0 := by
  unfold SharingStore.activeShares SharingStore.createShare
  rw [List.filter_append, List.length_append]
  by_cases hrecipient : checked.recipient = recipient <;> simp [hrecipient]

/-- Every person has at most one active share. -/
def SharingStore.Single (store : SharingStore) : Prop :=
  ∀ recipient, (store.activeShares recipient).length ≤ 1

theorem SharingStore.Single.revokeShares (hsingle : store.Single) (ids : List String)
    (revokedAt : Int) : (store.revokeShares ids revokedAt).Single := by
  intro recipient
  rw [SharingStore.activeShares_revokeShares]
  exact Nat.le_trans (List.length_filter_le _ _) (hsingle recipient)

/-- A share that has revoked all active shares of its person is the only one. -/
theorem SharingStore.Single.createShare (hsingle : store.Single) {checked : CheckedShare}
    {ids : List String}
    (hcovers : ∀ share ∈ store.activeShares checked.recipient, share.id ∈ ids)
    (revokedAt : Int) (id : String) :
    ((store.revokeShares ids revokedAt).createShare checked id).Single := by
  intro recipient
  rw [SharingStore.activeShares_createShare]
  by_cases hrecipient : checked.recipient = recipient
  · -- the update has reached every active share of the person
    have hnone : (store.revokeShares ids revokedAt).activeShares recipient = [] := by
      rw [SharingStore.activeShares_revokeShares, List.filter_eq_nil_iff]
      intro share hshare
      simpa using hcovers share (hrecipient ▸ hshare)
    rw [hnone, if_pos hrecipient]
    exact Nat.le_refl 1
  · rw [if_neg hrecipient]
    exact hsingle.revokeShares ids revokedAt recipient

/-- Revoking the active share of a person ends the access. -/
theorem SharingStore.Single.revoke (text : TextRules) (hsingle : store.Single)
    {identity : String}
    (hshare : share ∈ store.activeShares (normalizeIdentity text identity)) (revokedAt : Int) :
    holdsSensitiveShare text (store.revokeShares [share.id] revokedAt) identity = false := by
  have hone : store.activeShares (normalizeIdentity text identity) = [share] := by
    obtain ⟨other, hother⟩ := List.length_eq_one_iff.mp
      (Nat.le_antisymm (hsingle _) (List.length_pos_of_mem hshare))
    rw [hother] at hshare ⊢
    rw [List.mem_singleton.mp hshare]
  have hnone : (store.revokeShares [share.id] revokedAt).activeShares
      (normalizeIdentity text identity) = [] := by
    rw [SharingStore.activeShares_revokeShares, hone]
    simp
  rw [holdsSensitiveShare, List.any_eq_false]
  intro row hrow
  by_contra hholds
  simp only [Bool.and_eq_true, decide_eq_true_eq, Option.isNone_iff_eq_none] at hholds
  have hactive : row ∈ (store.revokeShares [share.id] revokedAt).activeShares
      (normalizeIdentity text identity) :=
    SharingStore.mem_activeShares.mpr ⟨hrow, hholds.1.1, hholds.1.2⟩
  rw [hnone] at hactive
  cases hactive

end Active

/-! ## One statement -/

section Steps

variable {text : TextRules} {parseDate : String → Option Int} {choice : SharingChoice}
variable {store after : SharingStore} {process : SharingProcess}
variable {remaining : Option SharingProcess}

/-- What a statement does to the shares: nothing, a revocation, or a new share. -/
theorem sharingAdvance_cases
    (hadvance : sharingAdvance text parseDate choice store process = some (remaining, after)) :
    after.shares = store.shares ∨
      (∃ ids revokedAt, remaining = none ∧ after = store.revokeShares ids revokedAt) ∨
      ∃ checked ids revokedAt, process = .shareCreate checked ids revokedAt ∧
        remaining = none ∧
        after = (store.revokeShares ids revokedAt).createShare checked choice.id := by
  cases process with
  | share username body =>
      simp only [sharingAdvance] at hadvance
      split at hadvance <;> cases hadvance <;> exact .inl rfl
  | shareCreate checked ids revokedAt =>
      simp only [sharingAdvance] at hadvance
      split at hadvance <;> cases hadvance
      exact .inr (.inr ⟨checked, ids, revokedAt, rfl, rfl, rfl⟩)
  | revoke id =>
      simp only [sharingAdvance] at hadvance
      split at hadvance <;> cases hadvance <;> exact .inl rfl
  | revokeUpdate id =>
      cases hadvance
      exact .inr (.inl ⟨[id], store.clock, rfl, rfl⟩)
  | setSensitivity sensitive =>
      simp only [sharingAdvance] at hadvance
      split at hadvance <;> cases hadvance <;> exact .inl rfl
  | setSensitivityPrepare =>
      simp only [sharingAdvance] at hadvance
      split at hadvance <;> cases hadvance <;> exact .inl rfl
  | setSensitivityRevoke ids revokedAt =>
      cases hadvance
      exact .inr (.inl ⟨ids, revokedAt, rfl, rfl⟩)
  | _ =>
      cases hadvance
      exact .inl rfl

/-- The transaction of a share has read all active shares of its person. -/
def SharingProcess.Covers (store : SharingStore) : SharingProcess → Prop
  | .shareUpdate checked ids _ | .shareCreate checked ids _ =>
      ∀ share ∈ store.activeShares checked.recipient, share.id ∈ ids
  | _ => True

theorem SharingProcess.Covers.of_subset (hcovers : process.Covers store)
    (hsubset : ∀ recipient, recipient ∈ recipientLocks.holds process →
      after.activeShares recipient ⊆ store.activeShares recipient) :
    process.Covers after := by
  cases process with
  | shareUpdate checked ids revokedAt =>
      intro share hshare
      exact hcovers share (hsubset checked.recipient List.mem_cons_self hshare)
  | shareCreate checked ids revokedAt =>
      intro share hshare
      exact hcovers share (hsubset checked.recipient List.mem_cons_self hshare)
  | _ => trivial

/-- What the transaction of a share has read, after its own statements. -/
theorem SharingProcess.Covers.advance (hcovers : process.Covers store)
    (hadvance : sharingAdvance text parseDate choice store process = some (remaining, after)) :
    ∀ next, remaining = some next → next.Covers after := by
  intro next hnext
  cases process with
  | share username body =>
      simp only [sharingAdvance] at hadvance
      split at hadvance <;> cases hadvance
      · obtain ⟨checked, -, rfl⟩ := Option.map_eq_some_iff.mp hnext
        trivial
      · cases hnext
  | shareScan checked =>
      cases hadvance
      cases hnext
      intro share hshare
      exact List.mem_map_of_mem hshare
  | shareUpdate checked ids revokedAt =>
      cases hadvance
      cases hnext
      intro share hshare
      obtain ⟨hmem, -, hactive⟩ := SharingStore.mem_activeShares.mp hshare
      rw [List.mem_filter, List.any_eq_true]
      exact ⟨hcovers share hshare, share, hmem, by simp [hactive]⟩
  | shareCreate checked ids revokedAt =>
      simp only [sharingAdvance] at hadvance
      split at hadvance <;> cases hadvance
      cases hnext
  | revoke id =>
      simp only [sharingAdvance] at hadvance
      split at hadvance <;> cases hadvance <;> cases hnext
      trivial
  | setSensitivity sensitive =>
      simp only [sharingAdvance] at hadvance
      split at hadvance <;> cases hadvance <;> cases hnext
      trivial
  | setSensitivityUpdate sensitive =>
      cases hadvance
      cases hnext
      cases sensitive <;> trivial
  | setSensitivityPrepare =>
      simp only [sharingAdvance] at hadvance
      split at hadvance <;> cases hadvance <;> cases hnext
  | setSensitivityScan =>
      cases hadvance
      cases hnext
      trivial
  | revokeUpdate id =>
      cases hadvance
      cases hnext
  | setSensitivityRevoke ids revokedAt =>
      cases hadvance
      cases hnext

/-- A statement adds an active share only for the person of its transaction. -/
theorem sharingAdvance_subset
    (hadvance : sharingAdvance text parseDate choice store process = some (remaining, after))
    {recipient : String} (hother : recipient ∉ recipientLocks.holds process) :
    after.activeShares recipient ⊆ store.activeShares recipient := by
  rcases sharingAdvance_cases hadvance with hsame | ⟨ids, revokedAt, -, rfl⟩ |
    ⟨checked, ids, revokedAt, rfl, -, rfl⟩
  · unfold SharingStore.activeShares
    rw [hsame]
    exact List.Subset.refl _
  · rw [SharingStore.activeShares_revokeShares]
    exact List.filter_sublist.subset
  · intro share hshare
    obtain ⟨hmem, hrecipient, hactive⟩ := SharingStore.mem_activeShares.mp hshare
    rcases List.mem_append.mp hmem with hold | hcreated
    · have hkept : share ∈ (store.revokeShares ids revokedAt).activeShares recipient :=
        SharingStore.mem_activeShares.mpr ⟨hold, hrecipient, hactive⟩
      rw [SharingStore.activeShares_revokeShares] at hkept
      exact (List.mem_filter.mp hkept).1
    · rw [List.mem_singleton.mp hcreated] at hrecipient
      exact absurd (List.mem_singleton.mpr hrecipient.symm) hother

end Steps

/-! ## Runs -/

section Runs

variable (text : TextRules) (parseDate : String → Option Int)

theorem recipientLocks_sound : recipientLocks.Sound (sharingProgram text parseDate) where
  start := by
    intro process hstart
    cases process <;> first | cases hstart; done | rfl
  advance := by
    intro name choice store process next after hadvance recipient hrecipient
    cases process with
    | share username body =>
        simp only [sharingProgram, sharingAdvance] at hadvance
        split at hadvance
        next =>
          simp only [Option.some.injEq, Prod.mk.injEq] at hadvance
          obtain ⟨checked, -, rfl⟩ := Option.map_eq_some_iff.mp hadvance.1
          cases hrecipient
        next => cases hadvance
    | shareScan checked =>
        cases hadvance
        exact .inr hrecipient
    | shareUpdate checked ids revokedAt =>
        cases hadvance
        exact .inl hrecipient
    | shareCreate checked ids revokedAt =>
        simp only [sharingProgram, sharingAdvance] at hadvance
        split at hadvance <;> cases hadvance
    | revoke id =>
        simp only [sharingProgram, sharingAdvance] at hadvance
        split at hadvance <;> cases hadvance
        cases hrecipient
    | setSensitivity sensitive =>
        simp only [sharingProgram, sharingAdvance] at hadvance
        split at hadvance <;> cases hadvance
        cases hrecipient
    | setSensitivityUpdate sensitive =>
        cases hadvance
        cases sensitive <;> cases hrecipient
    | setSensitivityPrepare =>
        simp only [sharingProgram, sharingAdvance] at hadvance
        split at hadvance <;> cases hadvance
    | setSensitivityScan =>
        cases hadvance
        cases hrecipient
    | revokeUpdate id => cases hadvance
    | setSensitivityRevoke ids revokedAt => cases hadvance

/-- Every share in flight has read the active shares of its person. -/
def sharingOutline : Concurrent.Outline SharingStore SharingProcess where
  invariant := SharingStore.Single
  assertion _ store process := process.Covers store

theorem sharingOutline_valid : sharingOutline.Valid (sharingProgram text parseDate)
    (fun store => store.shares = [])
    (fun config move => recipientLocks.Exclusive config ∧ OneSharePerPerson config move) where
  init := by
    intro store hempty recipient
    unfold SharingStore.activeShares
    rw [hempty]
    exact Nat.zero_le 1
  drift := by
    intro time store after hdrift hsingle
    obtain ⟨-, rfl⟩ := Concurrent.drift_eq hdrift
    exact ⟨hsingle, fun _ _ hcovers => hcovers⟩
  start := by
    intro name store process hstart _
    cases process <;> first | cases hstart; done | trivial
  own := by
    intro config name choice process remaining after hholds hprocess _ hadvance
    have hcovers := hholds.2 name process hprocess
    refine ⟨?_, SharingProcess.Covers.advance hcovers hadvance⟩
    rcases sharingAdvance_cases hadvance with hsame | ⟨ids, revokedAt, -, rfl⟩ |
      ⟨checked, ids, revokedAt, rfl, -, rfl⟩
    · intro recipient
      unfold SharingStore.activeShares
      rw [hsame]
      exact hholds.1 recipient
    · exact SharingStore.Single.revokeShares hholds.1 ids revokedAt
    · exact SharingStore.Single.createShare hholds.1 hcovers revokedAt choice.id
  others := by
    intro config name choice process remaining after hholds hprocess hallowed hadvance other
      process' hne hprocess'
    apply SharingProcess.Covers.of_subset (hholds.2 other process' hprocess')
    -- two open shares are for different persons
    intro recipient hheld
    apply sharingAdvance_subset hadvance
    exact hallowed.1 other name process' process hne hprocess' hprocess recipient hheld

/-- **One active share per person.** In every run in which the shares for one person do not
overlap, every person has at most one active share, and revoking it ends the access. -/
theorem sensitive_shares_single {config : SharingConfig}
    (hreach : (sharingSystem text parseDate).ReachableWhile OneSharePerPerson config) :
    (∀ recipient, (config.store.activeShares recipient).length ≤ 1) ∧
      ∀ identity, ∀ share ∈ config.store.activeShares (normalizeIdentity text identity),
        holdsSensitiveShare text
          (config.store.revokeShares [share.id] config.store.clock) identity = false := by
  have hholds := Concurrent.Locks.outline_holds_of_free (recipientLocks_sound text parseDate)
    (fun _ _ hallowed => hallowed.2) (sharingOutline_valid text parseDate) hreach
  refine ⟨hholds.1, fun identity share hshare => ?_⟩
  exact SharingStore.Single.revoke text hholds.1 hshare config.store.clock

end Runs

/-! ## Sample -/

/-- `OneSharePerPerson`, computed over the processes with known names. -/
def isOneSharePerPerson (names : List Nat) (config : SharingConfig) (move : SharingMove) : Bool :=
  shareLocks.isFree names config move && recipientLocks.isFree names config move

theorem oneSharePerPerson_of_computed {names : List Nat} {config : SharingConfig}
    {move : SharingMove} (hnamed : Concurrent.Named names config)
    (hcomputed : isOneSharePerPerson names config move = true) :
    OneSharePerPerson config move := by
  obtain ⟨hrows, hrecipients⟩ := Bool.and_eq_true_iff.mp hcomputed
  exact ⟨Concurrent.Locks.free_of_isFree hnamed hrows,
    Concurrent.Locks.free_of_isFree hnamed hrecipients⟩

def plainText : TextRules where
  toLowerCase := String.toLower
  equalsInsensitive column value := column.toLower = value.toLower
  slugOrder _ _ := true

/-- Alice shares the document with Bob, for life. -/
def shareWithBob : SharingProcess := .share "alice" ⟨" Bob ", .lifetime, none⟩

def bobShare (id : String) (revokedAt : Option Int) : SensitiveShareRow :=
  ⟨id, "bob", "alice", 0, none, revokedAt⟩

theorem reachable_unshared {allowed : SharingConfig → SharingMove → Prop} :
    (sharingSystem plainText fun _ => none).ReachableWhile allowed
      (Concurrent.idle ⟨0, true, []⟩) :=
  .init ⟨rfl, fun _ => rfl⟩

/-- The second share of two in a row replaces the first. -/
theorem sensitive_shares_single_replaced :
    ∃ config, (sharingSystem plainText fun _ => none).ReachableWhile OneSharePerPerson config ∧
      config.store = ⟨0, true, [bobShare "1" (some 0), bobShare "2" none]⟩ ∧
      (∀ recipient, (config.store.activeShares recipient).length ≤ 1) ∧
      ∀ identity, ∀ share ∈ config.store.activeShares (normalizeIdentity plainText identity),
        holdsSensitiveShare plainText
          (config.store.revokeShares [share.id] config.store.clock) identity = false := by
  have hrun : (Concurrent.executeNamed (sharingProgram plainText fun _ => none) [0]
      (isOneSharePerPerson [0]) (Concurrent.idle ⟨0, true, []⟩)
      [.start 0 shareWithBob, .advance 0 ⟨"", false⟩, .advance 0 ⟨"", false⟩,
        .advance 0 ⟨"", false⟩, .advance 0 ⟨"1", false⟩,
        .start 0 shareWithBob, .advance 0 ⟨"", false⟩, .advance 0 ⟨"", false⟩,
        .advance 0 ⟨"", false⟩, .advance 0 ⟨"2", false⟩]).bind (Concurrent.settled [0]) =
        some ⟨0, true, [bobShare "1" (some 0), bobShare "2" none]⟩ := by
    decide +kernel
  have hreach := Concurrent.reachable_settled (fun _ _ => oneSharePerPerson_of_computed) _
    reachable_unshared hrun
  exact ⟨_, hreach, rfl, sensitive_shares_single plainText _ hreach⟩

/-- Two shares for one person that overlap both stay, and revoking one of them does not end
the access. -/
theorem overlapping_shares_stay :
    ∃ config, (sharingSystem plainText fun _ => none).ReachableWhile shareLocks.Free config ∧
      (∀ name, config.processes name = none) ∧
      (config.store.activeShares "bob").length = 2 ∧
      ∃ share ∈ config.store.activeShares (normalizeIdentity plainText "Bob"),
        holdsSensitiveShare plainText
          (config.store.revokeShares [share.id] config.store.clock) "Bob" = true := by
  have hrun : (Concurrent.executeNamed (sharingProgram plainText fun _ => none) [0, 1]
      (shareLocks.isFree [0, 1]) (Concurrent.idle ⟨0, true, []⟩)
      [.start 0 shareWithBob, .advance 0 ⟨"", false⟩, .start 1 shareWithBob,
        .advance 1 ⟨"", false⟩, .advance 0 ⟨"", false⟩, .advance 1 ⟨"", false⟩,
        .advance 0 ⟨"", false⟩, .advance 0 ⟨"1", false⟩, .advance 1 ⟨"", false⟩,
        .advance 1 ⟨"2", false⟩]).bind (Concurrent.settled [0, 1]) =
        some ⟨0, true, [bobShare "1" none, bobShare "2" none]⟩ := by
    decide +kernel
  have hreach := Concurrent.reachable_settled (fun _ _ => Concurrent.Locks.free_of_isFree) _
    reachable_unshared hrun
  exact ⟨_, hreach, fun _ => rfl, by decide +kernel, bobShare "1" none, by decide +kernel,
    by decide +kernel⟩

end IsmsPortal
