import IsmsPortal.Access.Authorization
import IsmsPortal.Editing.Reading
import IsmsPortal.Foundation.Interleaving

/-! # Edit locks

An editor reserves a document for eight hours. The lock is taken by one conditional update,
which finds the document free, its lock expired, or its lock held by the same user. If the
update finds nothing, the document is read again, and the request is refused when another
user holds a lock that is still valid; otherwise it succeeds. An unlock looks at the lock
that it reads at first, and then clears whatever lock there is.
-/

namespace IsmsPortal

open Foundation

/-- The columns of a document that `lock` and `unlock` use. -/
structure LockColumns where
  lockedBy : Option String
  lockedAt : Option Int
  lockExpiresAt : Option Int
  deletedAt : Option Int
deriving DecidableEq

/-- A lock that a request is about to return, or has returned. -/
structure GivenLock where
  user : String
  lockExpiresAt : Int
  /-- The request has written its user and this expiry to the document. -/
  recorded : Bool
  /-- The request has returned success. -/
  returned : Bool
  /-- The document has been unlocked since by the user or by an administrator. -/
  released : Bool
deriving DecidableEq

/-- A document, and the locks given so far. -/
structure LockStore where
  clock : Int
  document : LockColumns
  given : List GivenLock
deriving DecidableEq

/-- Where a request is, and what it has read. `moveToTrash` sets or clears `deletedAt`. -/
inductive LockProcess
  | lock (user : String)
  | lockClock (user : String)
  | lockUpdate (user : String) (now : Int)
  | lockAgain (user : String) (now : Int)
  | lockReturn (position : Nat)
  | unlock (user : String) (groups : List String)
  | unlockCheck (user : String) (groups : List String) (read : LockColumns)
  | unlockUpdate (user : String) (groups : List String)
  | moveToTrash (deletedAt : Option Int)
deriving DecidableEq

/-! ## Endpoints -/

/-- Another person holds a lock that is still valid. -/
def lockedByOther (document : LockColumns) (identity : String) (now : Int) : Bool :=
  document.lockedBy.any (fun holder => holder ≠ "" && holder ≠ identity) &&
    document.lockExpiresAt.any (now < ·)

/-- The condition of the update of `lock`. -/
def LockColumns.lockable (document : LockColumns) (user : String) (now : Int) : Bool :=
  document.deletedAt.isNone && (document.lockedBy.isNone ||
    document.lockExpiresAt.any (· ≤ now) || document.lockedBy = some user)

/-- The lock of a request that read the clock at `now`. -/
def LockColumns.reserved (document : LockColumns) (user : String) (now : Int) : LockColumns where
  lockedBy := some user
  lockedAt := some now
  lockExpiresAt := some (now + RowUpdate.lockTime)
  deletedAt := document.deletedAt

/-- The document without a lock. -/
def LockColumns.unlocked (document : LockColumns) : LockColumns :=
  ⟨none, none, none, document.deletedAt⟩

/-- Release the locks that a user may unlock. -/
def releaseLocks (user : String) (groups : List String) (given : List GivenLock) :
    List GivenLock :=
  given.map fun entry =>
    if entry.user = user ∨ isAdminIdentity groups = true then { entry with released := true }
    else entry

/-- Run the next statement. The choice says whether the user may edit the document. -/
def lockAdvance (editable : Bool) (store : LockStore) :
    LockProcess → Option (Option LockProcess × LockStore)
  | .lock user =>
      if editable && store.document.deletedAt.isNone then some (some (.lockClock user), store)
      else some (none, store)  -- "Not Found"
  | .lockClock user => some (some (.lockUpdate user store.clock), store)
  | .lockUpdate user now =>
      if store.document.lockable user now then
        some (some (.lockReturn store.given.length), { store with
          document := store.document.reserved user now
          given := store.given ++ [⟨user, now + RowUpdate.lockTime, true, false, false⟩] })
      else some (some (.lockAgain user now), store)
  | .lockAgain user now =>
      if lockedByOther store.document user store.clock then
        some (none, store)  -- "Document locked for editing by ..."
      else
        some (some (.lockReturn store.given.length), { store with
          given := store.given ++ [⟨user, now + RowUpdate.lockTime, false, false, false⟩] })
  | .lockReturn position =>
      some (none, { store with
        given := store.given.modify position fun entry => { entry with returned := true } })
  | .unlock user groups =>
      if editable && store.document.deletedAt.isNone then
        some (some (.unlockCheck user groups store.document), store)
      else some (none, store)
  | .unlockCheck user groups read =>
      if lockedByOther read user store.clock && !isAdminIdentity groups then
        some (none, store)  -- "Only the lock owner or an administrator can unlock"
      else some (some (.unlockUpdate user groups), store)
  | .unlockUpdate user groups =>
      some (none, { store with
        document := store.document.unlocked
        given := releaseLocks user groups store.given })
  | .moveToTrash deletedAt =>
      some (none, { store with document := { store.document with deletedAt := deletedAt } })

/-- A request comes from an identity, which has a name. -/
def LockProcess.initial : LockProcess → Bool
  | .lock user | .unlock user _ => user ≠ ""
  | .moveToTrash _ => true
  | _ => false

def lockProgram : Concurrent LockStore LockProcess Bool where
  drift time store := if store.clock ≤ time then some { store with clock := time } else none
  start := LockProcess.initial
  advance _ := lockAdvance

abbrev LockConfig : Type := Concurrent.Config LockStore LockProcess

abbrev LockMove : Type := Concurrent.Move LockProcess Bool

/-- Runs from a document that has not been locked. -/
abbrev lockSystem : System LockConfig LockMove :=
  lockProgram.system fun store => store.document.lockedBy = none ∧ store.given = []

/-! ## Mutual exclusion -/

/-- The user holds a lock of the document that is still valid. -/
def LockStore.HeldBy (store : LockStore) (user : String) : Prop :=
  store.document.lockedBy = some user ∧ ∃ expiry, store.document.lockExpiresAt = some expiry ∧
    store.clock < expiry

/-- The user has been given a lock that has neither expired nor been released. -/
def LockStore.Has (store : LockStore) (user : String) : Prop :=
  ∃ entry ∈ store.given, entry.user = user ∧ entry.returned = true ∧
    store.clock < entry.lockExpiresAt ∧ entry.released = false

/-- The move is the update of an unlock by the user or by an administrator. -/
def Unlocks (config : LockConfig) (move : LockMove) (user : String) : Prop :=
  ∃ name editable actor groups, move = .advance name editable ∧
    config.processes name = some (.unlockUpdate actor groups) ∧
      (actor = user ∨ isAdminIdentity groups = true)

/-- When `lock` reads the document again, another user still holds it; a renewal is not
older than the lock it renews; and when an unlock by someone else than an administrator
clears the lock, no other user holds it. -/
def LockCurrent (config : LockConfig) : LockProcess → Prop
  | .lockAgain user _ => lockedByOther config.store.document user config.store.clock = true
  | .lockUpdate user now => config.store.document.lockedBy = some user →
      config.store.document.lockExpiresAt.all (· ≤ now + RowUpdate.lockTime) = true
  | .unlockUpdate user groups => isAdminIdentity groups = true ∨
      lockedByOther config.store.document user config.store.clock = false
  | _ => True

instance (config : LockConfig) (process : LockProcess) : Decidable (LockCurrent config process) :=
  match process with
  | .lockAgain user _ => inferInstanceAs (Decidable
      (lockedByOther config.store.document user config.store.clock = true))
  | .lockUpdate user now => inferInstanceAs (Decidable
      (config.store.document.lockedBy = some user →
        config.store.document.lockExpiresAt.all (· ≤ now + RowUpdate.lockTime) = true))
  | .unlockUpdate user groups => inferInstanceAs (Decidable (isAdminIdentity groups = true ∨
      lockedByOther config.store.document user config.store.clock = false))
  | .lock _ | .lockClock _ | .lockReturn _ | .unlock .. | .unlockCheck .. | .moveToTrash _ =>
      .isTrue trivial

/-! ## One statement -/

section Steps

variable {store after : LockStore} {user : String} {groups : List String} {now : Int}

/-- The locks that have been given were recorded, and the document has every one that is
neither released nor expired, or a later one of its user. -/
structure LockStore.Sound (store : LockStore) : Prop where
  holder : store.document.lockedBy ≠ some ""
  recorded : ∀ entry ∈ store.given, entry.recorded = true
  named : ∀ entry ∈ store.given, entry.user ≠ ""
  held : ∀ entry ∈ store.given, entry.released = false → store.clock < entry.lockExpiresAt →
    store.document.lockedBy = some entry.user ∧
      ∃ expiry, store.document.lockExpiresAt = some expiry ∧ entry.lockExpiresAt ≤ expiry

theorem lockedByOther_iff {document : LockColumns} :
    lockedByOther document user now = true ↔
      ∃ holder expiry, document.lockedBy = some holder ∧ holder ≠ "" ∧ holder ≠ user ∧
        document.lockExpiresAt = some expiry ∧ now < expiry := by
  unfold lockedByOther
  cases document.lockedBy with
  | none => simp
  | some holder =>
      cases document.lockExpiresAt with
      | none => simp
      | some expiry => simp [and_assoc]

theorem LockStore.Sound.drift (hsound : store.Sound) {time : Int} (htime : store.clock ≤ time) :
    LockStore.Sound { store with clock := time } where
  holder := hsound.holder
  recorded := hsound.recorded
  named := hsound.named
  held entry hentry hreleased hexpiry :=
    hsound.held entry hentry hreleased (Int.lt_of_le_of_lt htime hexpiry)

/-- A lock that is kept belongs to the user who takes one. -/
theorem LockStore.Sound.user_of_lockable (hsound : store.Sound) (hnow : now ≤ store.clock)
    (hlockable : store.document.lockable user now = true) {entry : GivenLock}
    (hentry : entry ∈ store.given) (hreleased : entry.released = false)
    (hexpiry : store.clock < entry.lockExpiresAt) : entry.user = user := by
  obtain ⟨hholder, expiry, hcolumn, hle⟩ := hsound.held entry hentry hreleased hexpiry
  simp only [LockColumns.lockable, hholder, hcolumn, Option.isNone_some, Bool.false_or,
    Option.any_some, Bool.and_eq_true, Bool.or_eq_true, decide_eq_true_eq,
    Option.some.injEq] at hlockable
  rcases hlockable.2 with hexpired | hsame
  · omega
  · exact hsame

theorem LockStore.Sound.reserve (hsound : store.Sound) (hnow : now ≤ store.clock)
    (hname : user ≠ "") (hlockable : store.document.lockable user now = true)
    (hrenews : store.document.lockedBy = some user →
      store.document.lockExpiresAt.all (· ≤ now + RowUpdate.lockTime) = true) :
    LockStore.Sound { store with
      document := store.document.reserved user now
      given := store.given ++ [⟨user, now + RowUpdate.lockTime, true, false, false⟩] } where
  holder hblank := hname (Option.some.inj hblank)
  recorded entry hentry := by
    rcases List.mem_append.mp hentry with hold | hnew
    · exact hsound.recorded entry hold
    · rw [List.mem_singleton.mp hnew]
  named entry hentry := by
    rcases List.mem_append.mp hentry with hold | hnew
    · exact hsound.named entry hold
    · rw [List.mem_singleton.mp hnew]
      exact hname
  held entry hentry hreleased hexpiry := by
    rcases List.mem_append.mp hentry with hold | hnew
    · have huser := hsound.user_of_lockable hnow hlockable hold hreleased hexpiry
      obtain ⟨hholder, expiry, hcolumn, hle⟩ := hsound.held entry hold hreleased hexpiry
      rw [huser] at hholder
      have hlater := hrenews hholder
      rw [hcolumn, Option.all_some, decide_eq_true_eq] at hlater
      exact ⟨congrArg some huser.symm, _, rfl, Int.le_trans hle hlater⟩
    · rw [List.mem_singleton.mp hnew]
      exact ⟨rfl, _, rfl, Int.le_refl _⟩

theorem mem_releaseLocks {given : List GivenLock} {entry : GivenLock}
    (hentry : entry ∈ releaseLocks user groups given) :
    ∃ old ∈ given, entry.recorded = old.recorded ∧ entry.user = old.user ∧
      entry.returned = old.returned ∧ entry.lockExpiresAt = old.lockExpiresAt ∧
      (entry.released = false →
        old.released = false ∧ old.user ≠ user ∧ isAdminIdentity groups = false) := by
  obtain ⟨old, hold, rfl⟩ := List.mem_map.mp hentry
  refine ⟨old, hold, ?_⟩
  split
  next => exact ⟨rfl, rfl, rfl, rfl, fun hreleased => by cases hreleased⟩
  next hnot =>
    rw [not_or, Bool.not_eq_true] at hnot
    exact ⟨rfl, rfl, rfl, rfl, fun hreleased => ⟨hreleased, hnot.1, hnot.2⟩⟩

theorem LockStore.Sound.unlock (hsound : store.Sound)
    (hcurrent : isAdminIdentity groups = true ∨
      lockedByOther store.document user store.clock = false) :
    LockStore.Sound { store with
      document := store.document.unlocked
      given := releaseLocks user groups store.given } where
  holder hblank := by cases hblank
  recorded entry hentry := by
    obtain ⟨old, hold, hrecorded, -⟩ := mem_releaseLocks hentry
    rw [hrecorded]
    exact hsound.recorded old hold
  named entry hentry := by
    obtain ⟨old, hold, -, huser, -⟩ := mem_releaseLocks hentry
    rw [huser]
    exact hsound.named old hold
  held entry hentry hreleased hexpiry := by
    -- A lock that stays is another user's, which the unlock would have found.
    obtain ⟨old, hold, -, -, -, hsame, hkept⟩ := mem_releaseLocks hentry
    obtain ⟨hunreleased, hother, hadmin⟩ := hkept hreleased
    rw [hsame] at hexpiry
    obtain ⟨hholder, expiry, hcolumn, hle⟩ := hsound.held old hold hunreleased hexpiry
    have hlocked : lockedByOther store.document user store.clock = true :=
      lockedByOther_iff.mpr ⟨old.user, expiry, hholder, hsound.named old hold, hother, hcolumn,
        Int.lt_of_lt_of_le hexpiry hle⟩
    rcases hcurrent with hadministrator | hfree
    · rw [hadmin] at hadministrator
      cases hadministrator
    · rw [hlocked] at hfree
      cases hfree

theorem LockStore.Sound.modify (hsound : store.Sound) (position : Nat) :
    LockStore.Sound { store with
      given := store.given.modify position fun entry => { entry with returned := true } } := by
  have hmem : ∀ entry ∈ store.given.modify position fun entry => { entry with returned := true },
      ∃ old ∈ store.given, entry.recorded = old.recorded ∧ entry.user = old.user ∧
        entry.lockExpiresAt = old.lockExpiresAt ∧ entry.released = old.released := by
    intro entry hentry
    obtain ⟨index, hindex, rfl⟩ := List.mem_iff_getElem.mp hentry
    rw [List.length_modify] at hindex
    refine ⟨store.given[index], List.getElem_mem _, ?_⟩
    rw [List.getElem_modify]
    split <;> exact ⟨rfl, rfl, rfl, rfl⟩
  constructor
  · exact hsound.holder
  · intro entry hentry
    obtain ⟨old, hold, hrecorded, -⟩ := hmem entry hentry
    exact hrecorded.trans (hsound.recorded old hold)
  · intro entry hentry
    obtain ⟨old, hold, -, huser, -⟩ := hmem entry hentry
    rw [huser]
    exact hsound.named old hold
  · intro entry hentry hreleased hexpiry
    obtain ⟨old, hold, -, huser, hsame, hflag⟩ := hmem entry hentry
    rw [hsame] at hexpiry
    rw [huser, hsame]
    exact hsound.held old hold (hflag ▸ hreleased) hexpiry

/-- What a request in flight has read. -/
def LockProcess.Ready (store : LockStore) : LockProcess → Prop
  | .lock user | .lockClock user => user ≠ ""
  | .lockUpdate user now => user ≠ "" ∧ now ≤ store.clock
  | _ => True

theorem LockProcess.Ready.mono {process : LockProcess} (hready : process.Ready store)
    (hclock : store.clock ≤ after.clock) : process.Ready after := by
  cases process with
  | lockUpdate user now => exact ⟨hready.1, Int.le_trans hready.2 hclock⟩
  | _ => exact hready

variable {editable : Bool} {process : LockProcess} {remaining : Option LockProcess}

theorem lockAdvance_clock
    (hadvance : lockAdvance editable store process = some (remaining, after)) :
    after.clock = store.clock := by
  cases process with
  | lock user | lockUpdate user now | lockAgain user now | unlock user groups
  | unlockCheck user groups read =>
      simp only [lockAdvance] at hadvance
      split at hadvance <;> cases hadvance <;> rfl
  | _ => cases hadvance; rfl

theorem LockProcess.Ready.advance (hready : process.Ready store)
    (hadvance : lockAdvance editable store process = some (remaining, after)) :
    ∀ next, remaining = some next → next.Ready after := by
  intro next hnext
  cases process with
  | lock user =>
      simp only [lockAdvance] at hadvance
      split at hadvance <;> cases hadvance <;> cases hnext
      exact hready
  | lockClock user =>
      cases hadvance
      cases hnext
      exact ⟨hready, Int.le_refl _⟩
  | lockUpdate user now | lockAgain user now | unlock user groups | unlockCheck user groups read =>
      simp only [lockAdvance] at hadvance
      split at hadvance <;> cases hadvance <;> cases hnext <;> trivial
  | lockReturn position | unlockUpdate user groups | moveToTrash deletedAt =>
      cases hadvance
      cases hnext

/-- A statement that meets the condition keeps the locks that have been given. -/
theorem lockAdvance_sound {config : LockConfig} (hsound : config.store.Sound)
    (hready : process.Ready config.store) (hcurrent : LockCurrent config process)
    (hadvance : lockAdvance editable config.store process = some (remaining, after)) :
    after.Sound := by
  cases process with
  | lock user | unlock user groups | unlockCheck user groups read =>
      simp only [lockAdvance] at hadvance
      split at hadvance <;> cases hadvance <;> exact hsound
  | lockClock user =>
      cases hadvance
      exact hsound
  | lockUpdate user now =>
      simp only [lockAdvance] at hadvance
      split at hadvance
      next hlockable =>
        cases hadvance
        exact hsound.reserve hready.2 hready.1 hlockable hcurrent
      next =>
        cases hadvance
        exact hsound
  | lockAgain user now =>
      simp only [lockAdvance, if_pos (show _ = true from hcurrent)] at hadvance
      cases hadvance
      exact hsound
  | lockReturn position =>
      cases hadvance
      exact hsound.modify position
  | unlockUpdate user groups =>
      cases hadvance
      exact hsound.unlock hcurrent
  | moveToTrash deletedAt =>
      cases hadvance
      exact ⟨hsound.holder, hsound.recorded, hsound.named, hsound.held⟩

/-- A valid lock stays with its holder, unless the holder or an administrator unlocks. -/
theorem lockAdvance_heldBy {config : LockConfig} {holder : String} (hholder : holder ≠ "")
    (hheld : config.store.HeldBy holder) (hready : process.Ready config.store)
    (hcurrent : LockCurrent config process)
    (hadvance : lockAdvance editable config.store process = some (remaining, after)) :
    after.document.lockedBy = some holder ∨ ∃ actor groups,
      process = .unlockUpdate actor groups ∧ (actor = holder ∨ isAdminIdentity groups = true) := by
  obtain ⟨hlockedBy, expiry, hcolumn, hvalid⟩ := hheld
  cases process with
  | lock user | lockAgain user now | unlock user groups | unlockCheck user groups read =>
      simp only [lockAdvance] at hadvance
      split at hadvance <;> cases hadvance <;> exact .inl hlockedBy
  | lockUpdate user now =>
      simp only [lockAdvance] at hadvance
      split at hadvance
      next hlockable =>
        cases hadvance
        simp only [LockColumns.lockable, hlockedBy, hcolumn, Option.isNone_some, Bool.false_or,
          Option.any_some, Bool.and_eq_true, Bool.or_eq_true, decide_eq_true_eq,
          Option.some.injEq] at hlockable
        have hnow := hready.2
        rcases hlockable.2 with hexpired | hsame
        · omega
        · exact .inl (congrArg some hsame.symm)
      next =>
        cases hadvance
        exact .inl hlockedBy
  | unlockUpdate user groups =>
      refine .inr ⟨user, groups, rfl, ?_⟩
      by_cases huser : user = holder
      · exact .inl huser
      · refine .inr (hcurrent.resolve_right ?_)
        rw [Bool.not_eq_false, lockedByOther_iff]
        exact ⟨holder, expiry, hlockedBy, hholder, Ne.symm huser, hcolumn, hvalid⟩
  | lockClock user | lockReturn position | moveToTrash deletedAt =>
      cases hadvance
      exact .inl hlockedBy

end Steps

/-! ## Runs -/

def lockOutline : Concurrent.Outline LockStore LockProcess where
  invariant := LockStore.Sound
  assertion _ store process := process.Ready store

theorem lockOutline_valid :
    lockOutline.Valid lockProgram (fun store => store.document.lockedBy = none ∧ store.given = [])
      (Concurrent.Guarded LockCurrent) where
  init := by
    intro store hinit
    constructor
    · simp [hinit.1]
    all_goals simp [hinit.2]
  drift := by
    intro time store after hdrift hsound
    obtain ⟨htime, rfl⟩ := Concurrent.drift_eq hdrift
    exact ⟨hsound.drift htime, fun _ _ hready => hready.mono htime⟩
  start := by
    intro name store process hstart _
    cases process with
    | lock user =>
        have hname : user ≠ "" := by simpa [lockProgram, LockProcess.initial] using hstart
        exact hname
    | lockClock user | lockUpdate user now => cases hstart
    | _ => trivial
  own := by
    intro config name editable process remaining after hholds hprocess hguarded hadvance
    have hready := hholds.2 name process hprocess
    exact ⟨lockAdvance_sound hholds.1 hready (hguarded process hprocess) hadvance,
      hready.advance hadvance⟩
  others := by
    intro config name editable process remaining after hholds _ _ hadvance other process' _ hother
    exact (hholds.2 other process' hother).mono (lockAdvance_clock hadvance).ge

/-- Of two users, only one has a lock. -/
theorem LockStore.Sound.has_unique {store : LockStore} (hsound : store.Sound)
    {user user' : String} (huser : store.Has user) (huser' : store.Has user') : user = user' := by
  obtain ⟨entry, hentry, rfl, -, hexpiry, hreleased⟩ := huser
  obtain ⟨entry', hentry', rfl, -, hexpiry', hreleased'⟩ := huser'
  have hholder := (hsound.held entry hentry hreleased hexpiry).1
  have hholder' := (hsound.held entry' hentry' hreleased' hexpiry').1
  exact Option.some.inj (hholder.symm.trans hholder')

/-- A step takes a valid lock from its holder only by an unlock that may do so. -/
theorem next_heldBy {config after : LockConfig} {move : LockMove} {user : String}
    (hholds : lockOutline.Holds config) (hguarded : Concurrent.Guarded LockCurrent config move)
    (hnext : lockProgram.next config move = some after) (hheld : config.store.HeldBy user) :
    after.store.document.lockedBy = some user ∨ Unlocks config move user := by
  rcases Concurrent.next_store hnext with ⟨time, -, hdrift⟩ |
    ⟨name, editable, process, remaining, rfl, hprocess, hadvance⟩ | hsame
  · rw [(Concurrent.drift_eq hdrift).2]
    exact .inl hheld.1
  · have huser : user ≠ "" := by
      rintro rfl
      exact hholds.1.holder hheld.1
    rcases lockAdvance_heldBy huser hheld (hholds.2 name process hprocess)
      (hguarded process hprocess) hadvance with hkept | ⟨actor, groups, rfl, hactor⟩
    · exact .inl hkept
    · exact .inr ⟨name, editable, actor, groups, rfl, hprocess, hactor⟩
  · rw [hsame]
    exact .inl hheld.1

/-- **Edit locks.** In every run that meets the condition, a lock that is returned has been
recorded, one user at most has a lock, and a valid lock leaves its holder only by an unlock
of the holder or of an administrator. -/
theorem edit_locks_exclusive {config : LockConfig}
    (hreach : lockSystem.ReachableWhile (Concurrent.Guarded LockCurrent) config) :
    (∀ entry ∈ config.store.given, entry.returned = true → entry.recorded = true) ∧
      (∀ user user', config.store.Has user → config.store.Has user' → user = user') ∧
      ∀ move after user, Concurrent.Guarded LockCurrent config move →
        lockProgram.next config move = some after → config.store.HeldBy user →
        after.store.document.lockedBy = some user ∨ Unlocks config move user := by
  have hholds := lockOutline_valid.holds hreach
  refine ⟨?_, ?_, ?_⟩
  · intro entry hentry _
    exact hholds.1.recorded entry hentry
  · intro user user' huser huser'
    exact hholds.1.has_unique huser huser'
  · intro move after user hguarded hnext hheld
    exact next_heldBy hholds hguarded hnext hheld

/-! ## Sample -/

/-- A document that nobody has locked. -/
def freeDocument : LockStore := ⟨0, ⟨none, none, none, none⟩, []⟩

theorem reachable_freeDocument {allowed : LockConfig → LockMove → Prop} :
    lockSystem.ReachableWhile allowed (Concurrent.idle freeDocument) :=
  .init ⟨⟨rfl, rfl⟩, fun _ => rfl⟩

/-- A lock of Alice until this time, in one of the states of its request. -/
def aliceLock (released : Bool) : GivenLock :=
  ⟨"alice", RowUpdate.lockTime, true, true, released⟩

/-- Bob is refused while Alice holds the lock, and gets it after her unlock. -/
theorem edit_locks_exclusive_handover :
    ∃ config, lockSystem.ReachableWhile (Concurrent.Guarded LockCurrent) config ∧
      config.store.given = [aliceLock true, ⟨"bob", RowUpdate.lockTime, true, true, false⟩] ∧
      config.store.HeldBy "bob" ∧
      (∀ entry ∈ config.store.given, entry.returned = true → entry.recorded = true) ∧
      (∀ user user', config.store.Has user → config.store.Has user' → user = user') ∧
      ∀ move after user, Concurrent.Guarded LockCurrent config move →
        lockProgram.next config move = some after → config.store.HeldBy user →
        after.store.document.lockedBy = some user ∨ Unlocks config move user := by
  have hrun : (Concurrent.executeNamed lockProgram [0, 1] (Concurrent.isGuarded LockCurrent)
      (Concurrent.idle freeDocument)
      [.start 0 (.lock "alice"), .advance 0 true, .advance 0 true, .advance 0 true,
        .advance 0 true, .start 1 (.lock "bob"), .advance 1 true, .advance 1 true,
        .advance 1 true, .advance 1 true, .start 0 (.unlock "alice" []), .advance 0 true,
        .advance 0 true, .advance 0 true, .start 1 (.lock "bob"), .advance 1 true,
        .advance 1 true, .advance 1 true, .advance 1 true]).bind (Concurrent.settled [0, 1]) =
      some ⟨0, ⟨some "bob", some 0, some RowUpdate.lockTime, none⟩,
        [aliceLock true, ⟨"bob", RowUpdate.lockTime, true, true, false⟩]⟩ := by
    decide
  have hreach := Concurrent.reachable_settled
    (fun _ _ _ hguarded => Concurrent.guarded_of_isGuarded hguarded) _ reachable_freeDocument hrun
  exact ⟨_, hreach, rfl, ⟨rfl, _, rfl, by decide⟩, edit_locks_exclusive hreach⟩

/-- Bob's update finds the lock of Alice, who unlocks before Bob reads the document again.
He is given a lock that was not recorded, and Carol is given one too. -/
theorem lock_given_twice :
    ∃ config, lockSystem.Reachable config ∧
      (∃ entry ∈ config.store.given, entry.user = "bob" ∧ entry.returned = true ∧
        entry.recorded = false) ∧
      config.store.Has "bob" ∧ config.store.Has "carol" := by
  have hrun : (Concurrent.executeNamed lockProgram [0, 1] (fun _ _ => true)
      (Concurrent.idle freeDocument)
      [.start 0 (.lock "alice"), .advance 0 true, .advance 0 true, .advance 0 true,
        .advance 0 true, .start 1 (.lock "bob"), .advance 1 true, .advance 1 true,
        .advance 1 true, .start 0 (.unlock "alice" []), .advance 0 true, .advance 0 true,
        .advance 0 true, .advance 1 true, .advance 1 true, .start 0 (.lock "carol"),
        .advance 0 true, .advance 0 true, .advance 0 true, .advance 0 true]).bind
        (Concurrent.settled [0, 1]) =
      some ⟨0, ⟨some "carol", some 0, some RowUpdate.lockTime, none⟩,
        [aliceLock true, ⟨"bob", RowUpdate.lockTime, false, true, false⟩,
          ⟨"carol", RowUpdate.lockTime, true, true, false⟩]⟩ := by
    decide
  have hreach := Concurrent.reachable_settled (fun _ _ _ _ => trivial) _ reachable_freeDocument hrun
  have hbob : (⟨"bob", RowUpdate.lockTime, false, true, false⟩ : GivenLock) ∈ [aliceLock true,
      ⟨"bob", RowUpdate.lockTime, false, true, false⟩,
      ⟨"carol", RowUpdate.lockTime, true, true, false⟩] := by simp
  refine ⟨_, hreach, ⟨_, hbob, rfl, rfl, rfl⟩, ⟨_, hbob, rfl, rfl, by decide, rfl⟩, ?_⟩
  exact ⟨⟨"carol", RowUpdate.lockTime, true, true, false⟩, by simp [Concurrent.idle], rfl, rfl,
    by decide, rfl⟩

end IsmsPortal
