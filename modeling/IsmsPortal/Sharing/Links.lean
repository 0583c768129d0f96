import IsmsPortal.Foundation.Interleaving
import Mathlib.Data.List.Nodup

/-! # External share links

Anonymous clients download through one link. A download reads the link, the
settings and the version, checks them, and then consumes the link by one
conditional update; only after that it opens the object and streams it. A link
is revoked by its owner, or with all others when sharing is switched off.
-/

namespace IsmsPortal

open Foundation

/-- A row of `ShareLink`, the columns that change and the limits. -/
structure ShareLink where
  expiresAt : Int
  maxDownloads : Option Nat
  downloadCount : Nat
  revokedAt : Option Int
deriving DecidableEq

/-- The link and the sharing setting. The last two fields are no columns: the
downloads that have consumed the link and not streamed, and how many streamed. -/
structure ShareStore where
  clock : Int
  enabled : Bool
  link : ShareLink
  consumers : List Nat
  streamed : Nat
deriving DecidableEq

/-- Where a request is, and what it has read. -/
inductive ShareProcess
  | download
  | downloadSettings (link : ShareLink)
  | downloadVersion (link : ShareLink) (enabled : Bool)
  | downloadConsume
  | downloadAudit
  | downloadOpen
  | revoke
  | revokeUpdate
  | saveSharing (enabled : Bool)
  | saveSharingRevoke
deriving DecidableEq

/-- The condition of the update that consumes a download. -/
def ShareLink.Consumable (link : ShareLink) : Prop :=
  link.revokedAt = none ∧ ∀ limit, link.maxDownloads = some limit → link.downloadCount < limit

instance (link : ShareLink) : Decidable link.Consumable :=
  decidable_of_iff (link.revokedAt = none ∧ link.maxDownloads.all (link.downloadCount < ·) = true) <| by
    unfold ShareLink.Consumable
    cases link.maxDownloads <;> simp

section Statements

variable (store : ShareStore)

def ShareStore.consume (name : Nat) : ShareStore where
  __ := store
  link := { store.link with downloadCount := store.link.downloadCount + 1 }
  consumers := name :: store.consumers

def ShareStore.stream (name : Nat) : ShareStore where
  __ := store
  consumers := store.consumers.erase name
  streamed := store.streamed + 1

/-- `updateMany` of the links that are not revoked. -/
def ShareStore.revoke : ShareStore where
  __ := store
  link := if store.link.revokedAt = none then { store.link with revokedAt := some store.clock }
    else store.link

/-- Run the next statement. The checks of the document, of the version and of
permissions can only refuse a request. The choice is whether the storage fails. -/
def shareAdvance (name : Nat) (fails : Bool) : ShareProcess → Option ShareProcess × ShareStore
  | .download => (some (.downloadSettings store.link), store)
  | .downloadSettings link => (some (.downloadVersion link store.enabled), store)
  | .downloadVersion link enabled =>
      if enabled = true ∧ link.revokedAt = none ∧ store.clock < link.expiresAt then
        (some .downloadConsume, store)
      else (none, store)
  | .downloadConsume =>
      if store.link.Consumable then (some .downloadAudit, store.consume name) else (none, store)
  | .downloadAudit => (some .downloadOpen, store)
  | .downloadOpen => if fails then (none, store) else (none, store.stream name)
  | .revoke => (some .revokeUpdate, store)
  | .revokeUpdate => (none, store.revoke)
  | .saveSharing enabled =>
      (if enabled then none else some .saveSharingRevoke, { store with enabled := enabled })
  | .saveSharingRevoke => (none, store.revoke)

end Statements

def ShareProcess.initial : ShareProcess → Bool
  | .download | .revoke | .saveSharing _ => true
  | _ => false

def shareProgram : Concurrent ShareStore ShareProcess Bool where
  drift time store := if store.clock ≤ time then some { store with clock := time } else none
  start := ShareProcess.initial
  advance name fails store process := some (shareAdvance store name fails process)

abbrev ShareConfig : Type := Concurrent.Config ShareStore ShareProcess

abbrev ShareMove : Type := Concurrent.Move ShareProcess Bool

/-- Runs from a new link. -/
abbrev shareSystem : System ShareConfig ShareMove :=
  shareProgram.system fun store => store.link.downloadCount = 0 ∧ store.link.revokedAt = none ∧
    store.consumers = [] ∧ store.streamed = 0

/-- The download has consumed the link and not streamed. -/
def ShareProcess.opening : ShareProcess → Bool
  | .downloadAudit | .downloadOpen => true
  | _ => false

def Opening (config : ShareConfig) (name : Nat) : Prop :=
  ∃ process, config.processes name = some process ∧ process.opening = true

/-- No download ends between its update and its stream. -/
def Uninterrupted (config : ShareConfig) : ShareMove → Prop
  | .stop name => ¬Opening config name
  | .advance name fails => config.processes name = some .downloadOpen → fails = false
  | _ => True

/-! ## One statement -/

section Steps

variable {name : Nat} {fails : Bool} {store after : ShareStore} {process : ShareProcess}
variable {remaining : Option ShareProcess}

/-- What a statement does to the link: nothing, one download, a stream, or a
revocation. -/
theorem shareAdvance_cases
    (hadvance : shareAdvance store name fails process = (remaining, after)) :
    (after.link = store.link ∧ after.consumers = store.consumers ∧
        after.streamed = store.streamed ∧
        (process = .downloadAudit ∧ remaining = some .downloadOpen ∨
          (∀ next, remaining = some next → next.opening = false) ∧
            (process.opening = true → process = .downloadOpen ∧ fails = true))) ∨
      (process = .downloadConsume ∧ store.link.Consumable ∧ remaining = some .downloadAudit ∧
        after = store.consume name) ∨
      (process = .downloadOpen ∧ remaining = none ∧ after = store.stream name) ∨
      (process.opening = false ∧ remaining = none ∧ after = store.revoke) := by
  cases process with
  | downloadVersion link enabled =>
      simp only [shareAdvance] at hadvance
      split at hadvance <;> cases hadvance <;> simp [ShareProcess.opening]
  | downloadConsume =>
      simp only [shareAdvance] at hadvance
      split at hadvance
      next hconsumable =>
        cases hadvance
        exact .inr (.inl ⟨rfl, hconsumable, rfl, rfl⟩)
      next =>
        cases hadvance
        simp [ShareProcess.opening]
  | downloadOpen =>
      simp only [shareAdvance] at hadvance
      split at hadvance
      next hfails =>
        cases hadvance
        simp [hfails]
      next =>
        cases hadvance
        exact .inr (.inr (.inl ⟨rfl, rfl, rfl⟩))
  | saveSharing enabled =>
      simp only [shareAdvance] at hadvance
      cases hadvance
      cases enabled <;> simp [ShareProcess.opening]
  | revokeUpdate =>
      cases hadvance
      exact .inr (.inr (.inr ⟨rfl, rfl, rfl⟩))
  | saveSharingRevoke =>
      cases hadvance
      exact .inr (.inr (.inr ⟨rfl, rfl, rfl⟩))
  | _ =>
      cases hadvance
      simp [ShareProcess.opening]

end Steps

/-! ## Accounting -/

/-- Downloads stay within the limit, and each one has streamed or has not. -/
def ShareStore.Accounted (store : ShareStore) : Prop :=
  (∀ limit, store.link.maxDownloads = some limit → store.link.downloadCount ≤ limit) ∧
    store.link.downloadCount = store.streamed + store.consumers.length

/-- A download that has consumed the link is among the consumers. -/
def shareOutline : Concurrent.Outline ShareStore ShareProcess where
  invariant := ShareStore.Accounted
  assertion name store process := process.opening = true → name ∈ store.consumers

section Accounting

variable {name : Nat} {store : ShareStore}

theorem ShareStore.Accounted.of_same {after : ShareStore} (haccounted : store.Accounted)
    (hlink : after.link = store.link) (hconsumers : after.consumers = store.consumers)
    (hstreamed : after.streamed = store.streamed) : after.Accounted := by
  unfold ShareStore.Accounted
  rw [hlink, hconsumers, hstreamed]
  exact haccounted

theorem ShareStore.Accounted.consume (haccounted : store.Accounted)
    (hconsumable : store.link.Consumable) : (store.consume name).Accounted := by
  constructor
  · intro limit hlimit
    exact hconsumable.2 limit hlimit
  · have hcount := haccounted.2
    simp only [ShareStore.consume, List.length_cons]
    omega

theorem ShareStore.Accounted.stream (haccounted : store.Accounted)
    (hmem : name ∈ store.consumers) : (store.stream name).Accounted := by
  refine ⟨haccounted.1, ?_⟩
  have hcount := haccounted.2
  have hlength := List.length_erase_add_one hmem
  simp only [ShareStore.stream]
  omega

@[simp] theorem ShareStore.revoke_maxDownloads :
    store.revoke.link.maxDownloads = store.link.maxDownloads := by
  unfold ShareStore.revoke
  split <;> rfl

@[simp] theorem ShareStore.revoke_downloadCount :
    store.revoke.link.downloadCount = store.link.downloadCount := by
  unfold ShareStore.revoke
  split <;> rfl

theorem ShareStore.Accounted.revoke (haccounted : store.Accounted) : store.revoke.Accounted := by
  unfold ShareStore.Accounted
  rw [ShareStore.revoke_maxDownloads, ShareStore.revoke_downloadCount]
  exact haccounted

end Accounting

theorem shareOutline_valid : shareOutline.Valid shareProgram
    (fun store => store.link.downloadCount = 0 ∧ store.link.revokedAt = none ∧
      store.consumers = [] ∧ store.streamed = 0) (fun _ _ => True) where
  init := by
    rintro store ⟨hcount, -, hconsumers, hstreamed⟩
    refine ⟨fun limit _ => ?_, ?_⟩
    · rw [hcount]
      exact Nat.zero_le limit
    · rw [hcount, hconsumers, hstreamed]
      rfl
  drift := by
    intro time store after hdrift haccounted
    obtain ⟨-, rfl⟩ := Concurrent.drift_eq hdrift
    exact ⟨haccounted, fun _ _ hknown => hknown⟩
  start := by
    intro name store process hstart _ hopening
    cases process <;> first | cases hopening; done | cases hstart
  own := by
    intro config name fails process remaining after hholds hprocess _ hadvance
    have hknown := hholds.2 name process hprocess
    rcases shareAdvance_cases (Option.some.inj hadvance) with
      ⟨hlink, hconsumers, hstreamed, hplace⟩ | ⟨-, hconsumable, hremaining, rfl⟩ |
      ⟨hopen, hremaining, rfl⟩ | ⟨-, hremaining, rfl⟩
    · refine ⟨hholds.1.of_same hlink hconsumers hstreamed, ?_⟩
      intro next hnext hopening
      rw [hconsumers]
      rcases hplace with ⟨haudit, -⟩ | ⟨hclosed, -⟩
      · exact hknown (by rw [haudit]; rfl)
      · rw [hclosed next hnext] at hopening
        cases hopening
    · exact ⟨hholds.1.consume hconsumable, fun _ _ _ => List.mem_cons_self⟩
    · refine ⟨hholds.1.stream (hknown (by rw [hopen]; rfl)), ?_⟩
      intro next hnext
      rw [hremaining] at hnext
      cases hnext
    · refine ⟨hholds.1.revoke, ?_⟩
      intro next hnext
      rw [hremaining] at hnext
      cases hnext
  others := by
    intro config name fails process remaining after hholds hprocess _ hadvance other process' hne
      hother hopening
    have hmem := hholds.2 other process' hother hopening
    rcases shareAdvance_cases (Option.some.inj hadvance) with ⟨-, hconsumers, -, -⟩ |
      ⟨-, -, -, rfl⟩ | ⟨-, -, rfl⟩ | ⟨-, -, rfl⟩
    · rw [hconsumers]
      exact hmem
    · exact List.mem_cons_of_mem name hmem
    · exact (List.mem_erase_of_ne hne).mpr hmem
    · exact hmem

/-- One move never lowers the count; it leaves a revoked link as it is. -/
theorem shareNext_link {config after : ShareConfig} {move : ShareMove}
    (hnext : shareProgram.next config move = some after) :
    config.store.link.downloadCount ≤ after.store.link.downloadCount ∧
      (config.store.link.revokedAt ≠ none → after.store.link = config.store.link) := by
  rcases Concurrent.next_store hnext with ⟨time, -, hdrift⟩ |
    ⟨name, fails, process, remaining, -, -, hadvance⟩ | hsame
  · rw [(Concurrent.drift_eq hdrift).2]
    exact ⟨Nat.le_refl _, fun _ => rfl⟩
  · rcases shareAdvance_cases (Option.some.inj hadvance) with ⟨hlink, -⟩ |
      ⟨-, hconsumable, -, hconsume⟩ | ⟨-, -, hstream⟩ | ⟨-, -, hrevoke⟩
    · rw [hlink]
      exact ⟨Nat.le_refl _, fun _ => rfl⟩
    · rw [hconsume]
      exact ⟨Nat.le_succ _, fun hrevoked => absurd hconsumable.1 hrevoked⟩
    · rw [hstream]
      exact ⟨Nat.le_refl _, fun _ => rfl⟩
    · rw [hrevoke]
      refine ⟨Nat.le_of_eq ShareStore.revoke_downloadCount.symm, fun hrevoked => ?_⟩
      simp [ShareStore.revoke, hrevoked]
  · rw [hsame]
    exact ⟨Nat.le_refl _, fun _ => rfl⟩

/-! ## Downloads that are not interrupted -/

/-- Every consumer is a download on its way to the object. -/
def ConsumersOpening (config : ShareConfig) : Prop :=
  config.store.consumers.Nodup ∧ ∀ name ∈ config.store.consumers, Opening config name

section Uninterrupted

variable {config : ShareConfig} {name : Nat} {store : ShareStore} {remaining : Option ShareProcess}

/-- The processes other than the moved one are where they were. -/
theorem opening_update_of_ne {other : Nat} (hne : other ≠ name) :
    Opening ⟨store, Function.update config.processes name remaining⟩ other ↔
      Opening config other := by
  unfold Opening
  dsimp only
  rw [Function.update_of_ne hne]

theorem not_opening {process : ShareProcess} (hprocess : config.processes name = some process)
    (hclosed : process.opening = false) : ¬Opening config name := by
  rintro ⟨running, hrunning, hopening⟩
  rw [hprocess] at hrunning
  cases hrunning
  rw [hclosed] at hopening
  cases hopening

theorem ConsumersOpening.update (hopening : ConsumersOpening config)
    (hconsumers : store.consumers = config.store.consumers)
    (hown : Opening config name →
      Opening ⟨store, Function.update config.processes name remaining⟩ name) :
    ConsumersOpening ⟨store, Function.update config.processes name remaining⟩ := by
  unfold ConsumersOpening
  dsimp only
  rw [hconsumers]
  refine ⟨hopening.1, fun other hother => ?_⟩
  by_cases hne : other = name
  · rw [hne] at hother ⊢
    exact hown (hopening.2 name hother)
  · exact (opening_update_of_ne hne).mpr (hopening.2 other hother)

theorem ConsumersOpening.next (hopening : ConsumersOpening config) {after : ShareConfig}
    {move : ShareMove} (huninterrupted : Uninterrupted config move)
    (hnext : shareProgram.next config move = some after) : ConsumersOpening after := by
  cases move with
  | drift time =>
      simp only [Concurrent.next, Option.map_eq_some_iff] at hnext
      obtain ⟨store, hdrift, rfl⟩ := hnext
      obtain ⟨-, rfl⟩ := Concurrent.drift_eq hdrift
      exact hopening
  | start name process =>
      simp only [Concurrent.next] at hnext
      split at hnext
      next hstart =>
        cases hnext
        refine hopening.update rfl ?_
        rintro ⟨running, hrunning, -⟩
        rw [hrunning] at hstart
        cases hstart.2
      next => cases hnext
  | stop name =>
      simp only [Concurrent.next, Option.some.injEq] at hnext
      cases hnext
      exact hopening.update rfl fun hstopped => absurd hstopped huninterrupted
  | advance name fails =>
      simp only [Concurrent.next, Option.bind_eq_some_iff, Option.map_eq_some_iff] at hnext
      obtain ⟨process, hprocess, ⟨remaining, store⟩, hadvance, rfl⟩ := hnext
      rcases shareAdvance_cases (Option.some.inj hadvance) with
        ⟨-, hconsumers, -, ⟨-, hremaining⟩ | ⟨-, hfailed⟩⟩ | ⟨rfl, -, hremaining, rfl⟩ |
        ⟨-, -, rfl⟩ | ⟨hclosed, -, rfl⟩
      · -- The audit row is written: the download goes on to the object.
        refine hopening.update hconsumers fun _ => ⟨.downloadOpen, ?_, rfl⟩
        rw [← hremaining]
        exact Function.update_self ..
      · -- A consumer ends here only when its read fails, which is excluded.
        apply hopening.update hconsumers
        rintro ⟨running, hrunning, hrunningOpens⟩
        rw [hprocess] at hrunning
        cases hrunning
        obtain ⟨hopen, hfails⟩ := hfailed hrunningOpens
        have hnot := huninterrupted (hopen ▸ hprocess)
        rw [hfails] at hnot
        cases hnot
      · -- The update that consumes the link.
        have hfresh : name ∉ config.store.consumers :=
          fun hmem => not_opening hprocess rfl (hopening.2 name hmem)
        refine ⟨List.nodup_cons.mpr ⟨hfresh, hopening.1⟩, fun other hother => ?_⟩
        by_cases hne : other = name
        · refine ⟨.downloadAudit, ?_, rfl⟩
          rw [hne, ← hremaining]
          exact Function.update_self ..
        · have hmem := (List.mem_cons.mp hother).resolve_left hne
          exact (opening_update_of_ne hne).mpr (hopening.2 other hmem)
      · -- The stream.
        refine ⟨hopening.1.erase name, fun other hother => ?_⟩
        obtain ⟨hne, hmem⟩ := (List.Nodup.mem_erase_iff hopening.1).mp hother
        exact (opening_update_of_ne hne).mpr (hopening.2 other hmem)
      · exact hopening.update rfl fun hown => absurd hown (not_opening hprocess hclosed)

/-- While no download is interrupted, the consumers are the downloads on their
way to the object. -/
theorem consumersOpening_of_reachable (hreach : shareSystem.ReachableWhile Uninterrupted config) :
    ConsumersOpening config := by
  refine hreach.invariant ?_ ?_
  · rintro start ⟨⟨-, -, hconsumers, -⟩, -⟩
    unfold ConsumersOpening
    rw [hconsumers]
    exact ⟨List.nodup_nil, fun _ hmem => absurd hmem List.not_mem_nil⟩
  · intro before move after hopening hallowed hstep
    exact hopening.next hallowed hstep

end Uninterrupted

/-- **Share links.** In every run the count stays within the limit and is the
number of streams plus that of the downloads that consumed the link and have not
streamed. It is the number of streams whenever no download is on its way and
none was interrupted. It never decreases, and a revoked link is not consumed. -/
theorem share_link_downloads {config : ShareConfig} (hreach : shareSystem.Reachable config) :
    (∀ limit, config.store.link.maxDownloads = some limit →
      config.store.link.downloadCount ≤ limit) ∧
    config.store.link.downloadCount = config.store.streamed + config.store.consumers.length ∧
    (shareSystem.ReachableWhile Uninterrupted config → (∀ name, ¬Opening config name) →
      config.store.streamed = config.store.link.downloadCount) ∧
    ∀ later, shareSystem.StepsWhile (fun _ _ => True) config later →
      config.store.link.downloadCount ≤ later.store.link.downloadCount ∧
      (config.store.link.revokedAt ≠ none → later.store.link = config.store.link) := by
  have haccounted := (shareOutline_valid.holds hreach).1
  refine ⟨haccounted.1, haccounted.2, ?_, fun later hsteps => ?_⟩
  · intro hrun hclosed
    have hopening := consumersOpening_of_reachable hrun
    have hempty : config.store.consumers = [] :=
      List.eq_nil_iff_forall_not_mem.mpr fun name hmem => hclosed name (hopening.2 name hmem)
    have hcount := haccounted.2
    rw [hempty] at hcount
    exact hcount.symm
  · induction hsteps with
    | refl => exact ⟨Nat.le_refl _, fun _ => rfl⟩
    | tail _ _ hstep ih =>
        obtain ⟨hcount, hrevoked⟩ := shareNext_link hstep
        refine ⟨Nat.le_trans ih.1 hcount, fun hbefore => ?_⟩
        rw [← ih.2 hbefore]
        exact hrevoked (by rw [ih.2 hbefore]; exact hbefore)

/-! ## Sample -/

/-- A link that may be used once, after the given numbers of uses and streams. -/
def sharedOnce (downloadCount : Nat) (consumers : List Nat) (streamed : Nat) : ShareStore :=
  ⟨0, true, ⟨1, some 1, downloadCount, none⟩, consumers, streamed⟩

theorem reachable_sharedOnce {allowed : ShareConfig → ShareMove → Prop} :
    shareSystem.ReachableWhile allowed (Concurrent.idle (sharedOnce 0 [] 0)) :=
  .init ⟨⟨rfl, rfl, rfl, rfl⟩, fun _ => rfl⟩

/-- A download that streams. -/
theorem share_link_downloads_once :
    shareSystem.Reachable (Concurrent.idle (sharedOnce 1 [] 1)) ∧
      (sharedOnce 1 [] 1).link.downloadCount ≤ 1 := by
  have hreach := Concurrent.reachable_script
    [(ShareProcess.download, [false, false, false, false, false, false])]
    reachable_sharedOnce (show _ = some (sharedOnce 1 [] 1) by decide)
  exact ⟨hreach, (share_link_downloads hreach).1 1 rfl⟩

/-- The storage fails after the link was consumed: nothing streams. -/
theorem failed_download_counted :
    ∃ store, shareSystem.Reachable (Concurrent.idle store) ∧
      store.streamed ≠ store.link.downloadCount := by
  refine ⟨sharedOnce 1 [0] 0, ?_, by decide⟩
  exact Concurrent.reachable_script
    [(ShareProcess.download, [false, false, false, false, false, true])]
    reachable_sharedOnce (show _ = some (sharedOnce 1 [0] 0) by decide)

end IsmsPortal
