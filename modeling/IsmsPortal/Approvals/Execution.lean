import IsmsPortal.Approvals.FourEyes
import IsmsPortal.Foundation.Locking

/-! # One approval, one execution

The lookup of `require` does not take the approval, and `execute` marks it only
later. If every lookup finds an approval that no other request holds and that no
operation has used, then each operation has an approval of its own.
-/

namespace IsmsPortal

open Foundation

/-- The first administrators are created without an approval. -/
def PerformedOperation.bootstrap (operation : PerformedOperation) : Bool :=
  operation.approvalId = "" ∧ operation.target.operation = .broadPrivilege

/-- A request holds the approval that cleared it, and a lookup looks for rows that
nobody holds. -/
def approvalLocks : Concurrent.Locks ApprovalStore ApprovalProcess String where
  holds
    | .cleared _ approvalId | .audit _ approvalId | .execute _ approvalId
    | .respond _ approvalId => if approvalId = "" then [] else [approvalId]
    | _ => []
  wants store
    | .requireApproved gated => (gated.answers store).map SensitiveApproval.id
    | _ => []

/-- No operation has been performed with the approval. -/
def ApprovalStore.Unspent (store : ApprovalStore) (approvalId : String) : Prop :=
  ∀ operation ∈ store.operations, operation.approvalId ≠ approvalId

instance (store : ApprovalStore) (approvalId : String) : Decidable (store.Unspent approvalId) :=
  inferInstanceAs (Decidable (∀ operation ∈ store.operations, operation.approvalId ≠ approvalId))

/-- The lookup finds no approval that has been used, and a first retention policy
is still the first when it is saved. -/
def Fresh (config : ApprovalConfig) : ApprovalProcess → Prop
  | .requireApproved gated => ∀ approval ∈ gated.answers config.store,
      config.store.Unspent approval.id
  | .cleared gated approvalId => approvalId = "" → ∀ documentId ∈ config.store.policies,
      gated.endpoint ≠ .saveRetention documentId
  | _ => True

instance (config : ApprovalConfig) (process : ApprovalProcess) : Decidable (Fresh config process) :=
  match process with
  | .requireApproved gated => inferInstanceAs (Decidable (∀ approval ∈ gated.answers config.store,
      config.store.Unspent approval.id))
  | .cleared gated approvalId => inferInstanceAs (Decidable (approvalId = "" →
      ∀ documentId ∈ config.store.policies, gated.endpoint ≠ .saveRetention documentId))
  | .saveRetention .. | .exportAccessSnapshot .. | .exportAudit .. | .createAccount ..
  | .addGroup .. | .requireCounts .. | .requirePending .. | .requireCreate .. | .audit ..
  | .execute .. | .respond .. | .requestSensitiveApproval .. | .requestCreate ..
  | .decideSensitiveApproval .. | .decide .. | .decideUpdate .. | .administer .. => .isTrue trivial

/-- Lookups find approvals that are neither held nor used. -/
def FreshRun : ApprovalConfig → ApprovalMove → Prop := approvalLocks.Orderly Fresh

/-! ## Accounting -/

/-- Operations have distinct approvals, each granted for the same target and requester. -/
structure ApprovalStore.Accounted (store : ApprovalStore) : Prop where
  spent : ((store.operations.filter fun operation => !operation.bootstrap).map
    PerformedOperation.approvalId).Nodup
  granted : ∀ operation ∈ store.operations, operation.bootstrap = false →
    ∃ approval ∈ store.approvals, approval.id = operation.approvalId ∧
      approval.target = operation.target ∧ approval.requestedBy = operation.requestedBy ∧
      approval.Granted

/-- Requests without an approval create administrators or save a first policy; the
approval of a request that has not performed its operation is not used. -/
def executionAssertion (store : ApprovalStore) : ApprovalProcess → Prop
  | .cleared gated approvalId =>
      (approvalId = "" → gated.target.operation = .broadPrivilege ∨
        ∃ documentId, gated.endpoint = .saveRetention documentId) ∧
      (approvalId ≠ "" → store.Unspent approvalId)
  | .audit gated _ => gated.endpoint.operatesFirst = true
  | .execute gated approvalId => gated.endpoint.operatesFirst = false →
      (approvalId = "" → gated.target.operation = .broadPrivilege) ∧
      (approvalId ≠ "" → store.Unspent approvalId)
  | .respond gated approvalId =>
      (approvalId = "" → gated.target.operation = .broadPrivilege) ∧
      (approvalId ≠ "" → store.Unspent approvalId)
  | _ => True

def executionOutline : Concurrent.Outline ApprovalStore ApprovalProcess where
  invariant := ApprovalStore.Accounted
  assertion _ := executionAssertion

section Steps

variable {toLowerCase : String → String} {choice : ApprovalChoice} {store after : ApprovalStore}
variable {process process' : ApprovalProcess} {remaining : Option ApprovalProcess}

theorem executeStep_operations (gated : GatedRequest) (approvalId : String) :
    (executeStep store gated approvalId).2.operations = store.operations := by
  unfold executeStep
  split <;> rfl

/-- An operation is performed past the gate, or by the response. -/
theorem approvalAdvance_operations
    (hadvance : approvalAdvance toLowerCase choice store process = some (remaining, after)) :
    after.operations = store.operations ∨
      ∃ gated approvalId, after.operations = ⟨gated.target, gated.username, approvalId⟩ ::
          store.operations ∧
        ((process = .cleared gated approvalId ∧ gated.endpoint.operatesFirst = true ∧
            ∀ documentId, gated.endpoint = .saveRetention documentId → documentId ∈ store.policies) ∨
          process = .respond gated approvalId) := by
  cases process with
  | cleared gated approvalId =>
      simp only [approvalAdvance, Option.some.injEq] at hadvance
      have hafter : after = (clearedStep store gated approvalId).2 := (congrArg Prod.snd hadvance).symm
      rw [hafter]
      unfold clearedStep
      split
      next documentId hendpoint =>
        dsimp only
        split
        next hpolicy =>
          refine .inr ⟨gated, approvalId, rfl, .inl ⟨rfl, by rw [hendpoint]; rfl, ?_⟩⟩
          intro other hother
          rw [hendpoint] at hother
          cases hother
          exact hpolicy
        next => exact .inl rfl
      next username role hendpoint =>
        split
        · exact .inl rfl
        dsimp only
        split
        · exact .inl rfl
        · refine .inr ⟨gated, approvalId, rfl, .inl ⟨rfl, by rw [hendpoint]; rfl, ?_⟩⟩
          simp [hendpoint]
      next name distinguishedName role hendpoint =>
        split
        · exact .inl rfl
        dsimp only
        split
        · exact .inl rfl
        · refine .inr ⟨gated, approvalId, rfl, .inl ⟨rfl, by rw [hendpoint]; rfl, ?_⟩⟩
          simp [hendpoint]
      next => exact .inl (executeStep_operations gated approvalId)
      next => exact .inl rfl
  | execute gated approvalId =>
      simp only [approvalAdvance, Option.some.injEq] at hadvance
      have hafter : after = (executeStep store gated approvalId).2 := (congrArg Prod.snd hadvance).symm
      rw [hafter]
      exact .inl (executeStep_operations gated approvalId)
  | respond gated approvalId =>
      cases hadvance
      exact .inr ⟨gated, approvalId, rfl, .inr rfl⟩
  | _ =>
      left
      simp only [approvalAdvance] at hadvance
      repeat' split at hadvance
      all_goals cases hadvance
      all_goals rfl

/-- Accounts survive when no operation is performed. -/
theorem accounted_progress (haccounted : store.Accounted) (hprogress : store.Progress after)
    (hsame : after.operations = store.operations) : after.Accounted where
  spent := by
    rw [hsame]
    exact haccounted.spent
  granted := by
    rw [hsame]
    intro operation hoperation hcounted
    obtain ⟨approval, happroval, hid, htarget, hby, hgranted⟩ :=
      haccounted.granted operation hoperation hcounted
    obtain ⟨later, hlater, hrow⟩ := hprogress approval happroval
    exact ⟨later, hlater, hrow.id.trans hid, hrow.target.trans htarget, hrow.requestedBy.trans hby,
      hrow.granted hgranted⟩

/-- One more operation, with its own approval or a first administrator. -/
theorem accounted_performed (haccounted : store.Accounted) (hprogress : store.Progress after)
    {gated : GatedRequest} {approvalId : String}
    (hoperations : after.operations = ⟨gated.target, gated.username, approvalId⟩ :: store.operations)
    (hempty : approvalId = "" → gated.target.operation = .broadPrivilege)
    (hown : approvalId ≠ "" → store.Unspent approvalId ∧ after.Clears gated approvalId) :
    after.Accounted := by
  have hbefore : ApprovalStore.Accounted { after with operations := store.operations } :=
    accounted_progress haccounted hprogress rfl
  -- Without an approval the operation is not counted; with one, it is the first under it.
  by_cases hid : approvalId = ""
  · have hbootstrap : PerformedOperation.bootstrap ⟨gated.target, gated.username, approvalId⟩ =
        true := by
      simp [PerformedOperation.bootstrap, hid, hempty hid]
    refine ⟨?_, ?_⟩
    · rw [hoperations, List.filter_cons_of_neg (by simp [hbootstrap])]
      exact haccounted.spent
    · rw [hoperations]
      intro operation hoperation hcounted
      rcases List.mem_cons.mp hoperation with rfl | hold
      · rw [hbootstrap] at hcounted
        cases hcounted
      · exact hbefore.granted operation hold hcounted
  · obtain ⟨hunspent, hclears⟩ := hown hid
    have hcounted : PerformedOperation.bootstrap ⟨gated.target, gated.username, approvalId⟩ =
        false := by
      simp [PerformedOperation.bootstrap, hid]
    refine ⟨?_, ?_⟩
    · rw [hoperations, List.filter_cons_of_pos (by simp [hcounted]), List.map_cons, List.nodup_cons]
      refine ⟨fun hused => ?_, haccounted.spent⟩
      obtain ⟨operation, hoperation, hsame⟩ := List.mem_map.mp hused
      exact hunspent operation (List.mem_filter.mp hoperation).1 hsame
    · rw [hoperations]
      intro operation hoperation hoperationCounted
      rcases List.mem_cons.mp hoperation with rfl | hold
      · exact hclears
      · exact hbefore.granted operation hold hoperationCounted

theorem executionAssertion_counted {gated : GatedRequest}
    (hbroad : gated.target.operation = .broadPrivilege) (accounts groups : Option Nat) :
    executionAssertion store (gated.counted accounts groups) := by
  unfold GatedRequest.counted
  split
  · split
    · exact ⟨fun _ => .inl hbroad, fun hid => absurd rfl hid⟩
    · trivial
  · trivial

/-- Exports without an approval do not occur. -/
theorem executionAssertion_export {gated : GatedRequest} {approvalId : String}
    (hendpoint : gated.endpoint.operatesFirst = false)
    (hknown : executionAssertion store (.cleared gated approvalId)) :
    executionAssertion store (.respond gated approvalId) := by
  refine ⟨fun hid => ?_, hknown.2⟩
  rcases hknown.1 hid with hbroad | ⟨documentId, hretention⟩
  · exact hbroad
  · rw [hretention] at hendpoint
    cases hendpoint

theorem operated_next {gated : GatedRequest} {approvalId : String}
    (hfirst : gated.endpoint.operatesFirst = true)
    (hstep : GateStep toLowerCase store (.cleared gated approvalId) process') :
    process' = .audit gated approvalId := by
  generalize hplace : ApprovalProcess.cleared gated approvalId = place at hstep
  cases hstep with
  | operated asked id hendpoint =>
      cases hplace
      rfl
  | read asked id hendpoint =>
      cases hplace
      rw [hfirst] at hendpoint
      cases hendpoint
  | executed asked id hprocess hendpoint =>
      subst hplace
      rcases hprocess with hsame | hsame <;> cases hsame
      rw [hfirst] at hendpoint
      cases hendpoint
  | gate asked hinitial => subst hplace; cases hinitial
  | ungated asked hinitial hungated => subst hplace; cases hinitial
  | decide username status existing hinitial hexisting hother => subst hplace; cases hinitial
  | _ => cases hplace

theorem approvalLocks_counted (gated : GatedRequest) (accounts groups : Option Nat) :
    approvalLocks.holds (gated.counted accounts groups) = [] := by
  unfold GatedRequest.counted
  split
  · split <;> rfl
  · rfl

/-- What the next place of a request knows, before the statement's own operation. -/
theorem executionAssertion_own {config : ApprovalConfig}
    (heyes : config.store.FourEyes toLowerCase)
    (hgate : approvalAssertion toLowerCase config.store process)
    (hknown : executionAssertion config.store process) (hfresh : Fresh config process)
    (hstep : GateStep toLowerCase config.store process process') :
    executionAssertion config.store process' := by
  cases hstep with
  | gate gated hinitial =>
      unfold GatedRequest.require
      split <;> trivial
  | ungated gated hinitial hungated =>
      refine ⟨fun _ => ?_, fun hid => absurd rfl hid⟩
      unfold GatedRequest.Ungated at hungated
      split at hungated
      next documentId hendpoint => exact .inr ⟨documentId, hendpoint⟩
      next => exact .inl hungated.1
      next => exact .inl hungated.1
      all_goals exact hungated.elim
  | countAccounts gated groups => exact executionAssertion_counted hgate _ _
  | countGroups gated accounts => exact executionAssertion_counted hgate _ _
  | approved gated approval hanswer =>
      refine ⟨fun hid => ?_, fun _ => hfresh approval hanswer⟩
      exact absurd hid (heyes.named approval (mem_answers hanswer).1)
  | operated gated approvalId hendpoint => exact hendpoint
  | read gated approvalId hendpoint =>
      intro _
      exact executionAssertion_export hendpoint hknown
  | executed gated approvalId hprocess hendpoint =>
      rcases hprocess with rfl | rfl
      · exact executionAssertion_export hendpoint hknown
      · exact hknown hendpoint
  | audited gated approvalId =>
      intro hendpoint
      rw [show gated.endpoint.operatesFirst = true from hknown] at hendpoint
      cases hendpoint
  | decide username status existing hinitial hexisting hother => trivial
  | pending gated => trivial
  | create gated => trivial
  | request username target reason => trivial

/-- Operations of a statement leave the approvals of other requests unused. -/
theorem executionAssertion_performed {approvalId : String} {target : SensitiveTarget}
    {requestedBy : String}
    (hoperations : after.operations = ⟨target, requestedBy, approvalId⟩ :: store.operations)
    (hheld : approvalId ≠ "" → approvalId ∉ approvalLocks.holds process)
    (hknown : executionAssertion store process) : executionAssertion after process := by
  have hunspent : ∀ other, other ≠ "" → approvalLocks.holds process = [other] →
      store.Unspent other → after.Unspent other := by
    intro other hother hholds hstore operation hoperation
    rw [hoperations] at hoperation
    rcases List.mem_cons.mp hoperation with rfl | hold
    · intro heq
      dsimp only at heq
      subst heq
      exact hheld hother (by rw [hholds]; exact List.mem_singleton.mpr rfl)
    · exact hstore operation hold
  cases process with
  | cleared gated other =>
      exact ⟨hknown.1, fun hother => hunspent other hother (if_neg hother) (hknown.2 hother)⟩
  | execute gated other =>
      intro hendpoint
      obtain ⟨hempty, hunused⟩ := hknown hendpoint
      exact ⟨hempty, fun hother => hunspent other hother (if_neg hother) (hunused hother)⟩
  | respond gated other =>
      exact ⟨hknown.1, fun hother => hunspent other hother (if_neg hother) (hknown.2 hother)⟩
  | audit gated other => exact hknown
  | _ => trivial

theorem executionAssertion_congr (hsame : after.operations = store.operations)
    (process : ApprovalProcess) :
    executionAssertion after process ↔ executionAssertion store process := by
  cases process <;> simp [executionAssertion, ApprovalStore.Unspent, hsame]

end Steps

/-! ## Runs -/

section Runs

variable {toLowerCase : String → String}

theorem approvalLocks_sound : approvalLocks.Sound (approvalProgram toLowerCase) where
  start := by
    intro process hstart
    cases process <;> first | rfl | cases hstart
  advance := by
    intro name choice store process process' after hadvance row hrow
    have hstep := approvalAdvance_next hadvance
    cases hstep with
    | gate gated hinitial =>
        unfold GatedRequest.require at hrow
        split at hrow <;> cases hrow
    | ungated gated hinitial hungated => cases hrow
    | countAccounts gated groups =>
        rw [approvalLocks_counted] at hrow
        cases hrow
    | countGroups gated accounts =>
        rw [approvalLocks_counted] at hrow
        cases hrow
    | approved gated approval hanswer =>
        right
        simp only [approvalLocks] at hrow
        split at hrow
        · cases hrow
        · rw [List.mem_singleton.mp hrow]
          exact List.mem_map_of_mem hanswer
    | operated gated approvalId hendpoint => exact .inl hrow
    | read gated approvalId hendpoint => exact .inl hrow
    | executed gated approvalId hprocess hendpoint =>
        left
        rcases hprocess with rfl | rfl
        · exact hrow
        · exact hrow
    | audited gated approvalId => exact .inl hrow
    | decide username status existing hinitial hexisting hother => cases hrow
    | pending gated => cases hrow
    | create gated => cases hrow
    | request username target reason => cases hrow

theorem executionOutline_valid :
    executionOutline.Valid (approvalProgram toLowerCase)
      (fun store => store.approvals = [] ∧ store.operations = [])
      (fun config move => (approvalLocks.Exclusive config ∧
        (approvalOutline toLowerCase).Holds config) ∧ FreshRun config move) where
  init := by
    rintro store ⟨-, hnone⟩
    constructor <;> simp [hnone]
  drift := by
    intro time store after hdrift haccounted
    obtain ⟨-, rfl⟩ := Concurrent.drift_eq hdrift
    refine ⟨accounted_progress haccounted (progress_of_eq rfl) rfl, fun name process hknown => ?_⟩
    exact (executionAssertion_congr rfl process).mpr hknown
  start := by
    intro name store process hstart _
    cases process <;> trivial
  own := by
    intro config name choice process remaining after hholds hprocess hallowed hadvance
    obtain ⟨⟨-, hgateHolds⟩, -, hguard⟩ := hallowed
    have hknown := hholds.2 name process hprocess
    have hgate := hgateHolds.2 name process hprocess
    have hfresh := hguard process hprocess
    have hprogress := (fourEyes_step hgateHolds.1 hgate hadvance).2
    rcases approvalAdvance_operations hadvance with hsame | ⟨gated, approvalId, hperformed,
      ⟨rfl, hfirst, hpolicy⟩ | rfl⟩
    · refine ⟨accounted_progress hholds.1 hprogress hsame, fun process' hremaining => ?_⟩
      subst hremaining
      exact (executionAssertion_congr hsame process').mpr
        (executionAssertion_own hgateHolds.1 hgate hknown hfresh (approvalAdvance_next hadvance))
    · -- Past the gate. A policy saved without approval would be a first one, and is not.
      refine ⟨accounted_performed hholds.1 hprogress hperformed (fun hid => ?_) fun hid =>
        ⟨hknown.2 hid, (hgate hid).progress hprogress⟩, fun process' hremaining => ?_⟩
      · rcases hknown.1 hid with hbroad | ⟨documentId, hretention⟩
        · exact hbroad
        · exact absurd hretention (hfresh hid documentId (hpolicy documentId hretention))
      · subst hremaining
        have hadvance' : approvalAdvance toLowerCase choice config.store (.cleared gated approvalId) =
            some (some process', after) := hadvance
        rw [operated_next hfirst (approvalAdvance_next hadvance')]
        exact hfirst
    · refine ⟨accounted_performed hholds.1 hprogress hperformed hknown.1 fun hid =>
        ⟨hknown.2 hid, (hgate hid).progress hprogress⟩, fun process' hremaining => ?_⟩
      subst hremaining
      cases hadvance
  others := by
    intro config name choice process remaining after hholds hprocess hallowed hadvance other process'
      hne hother
    have hknown := hholds.2 other process' hother
    have hexclusive := hallowed.1.1 name other process process' (Ne.symm hne) hprocess hother
    rcases approvalAdvance_operations hadvance with hsame | ⟨gated, approvalId, hperformed, hplace⟩
    · exact (executionAssertion_congr hsame process').mpr hknown
    · -- The lookups gave the two requests different approvals.
      refine executionAssertion_performed hperformed (fun hid => hexclusive approvalId ?_) hknown
      rcases hplace with ⟨rfl, -⟩ | rfl <;> simp [approvalLocks, hid]

theorem accounted_of_reachable {config : ApprovalConfig}
    (hreach : (approvalSystem toLowerCase).ReachableWhile FreshRun config) :
    config.store.Accounted := by
  have hinvariant : ∀ config, (approvalSystem toLowerCase).ReachableWhile FreshRun config →
      approvalLocks.Exclusive config ∧ (approvalOutline toLowerCase).Holds config := by
    intro config hreach
    refine ⟨Concurrent.Locks.exclusive_of_reachable approvalLocks_sound
      (fun _ _ hallowed => hallowed.1) hreach, ?_⟩
    exact approvalOutline_valid.holds (hreach.mono fun _ _ _ => trivial)
  exact (executionOutline_valid.holds (hreach.assuming hinvariant)).1

/-- **One approval, one execution.** In every run whose lookups find approvals that
are neither held by another request nor used by an operation, and whose first
retention policies are the first, the operations that a requester performed on a
target are never more than the requester's approvals for it that reached APPROVED,
the creation of the first administrators excepted. -/
theorem operations_le_approvals {config : ApprovalConfig}
    (hreach : (approvalSystem toLowerCase).ReachableWhile FreshRun config)
    (target : SensitiveTarget) (requester : String) :
    (config.store.operations.filter fun operation => operation.target = target ∧
        operation.requestedBy = requester ∧ operation.bootstrap = false).length ≤
      (config.store.approvals.filter fun approval => approval.target = target ∧
        approval.requestedBy = requester ∧ approval.Granted).length := by
  have haccounted := accounted_of_reachable hreach
  have hdistinct : ((config.store.operations.filter fun operation => operation.target = target ∧
      operation.requestedBy = requester ∧ operation.bootstrap = false).map
        PerformedOperation.approvalId).Nodup := by
    refine haccounted.spent.sublist (List.Sublist.map _ ?_)
    apply List.monotone_filter_right
    intro operation hselected
    simp only [decide_eq_true_eq] at hselected
    simp [hselected.2.2]
  refine Table.length_le_of_keys SensitiveApproval.id hdistinct fun operation hoperation => ?_
  simp only [List.mem_filter, decide_eq_true_eq] at hoperation
  obtain ⟨hmem, htarget, hby, hcounted⟩ := hoperation
  obtain ⟨approval, happroval, hid, htarget', hby', hgranted⟩ :=
    haccounted.granted operation hmem hcounted
  refine ⟨approval, List.mem_filter.mpr ⟨happroval, ?_⟩, hid⟩
  simp [htarget', hby', htarget, hby, hgranted]

end Runs

/-! ## Sample -/

/-- The retention of the charter has been changed so many times. -/
def changedRetention (times : Nat) : ApprovalStore :=
  { retainedStore with
    approvals := [retentionApproval .executed]
    operations := List.replicate times ⟨⟨.retentionChange, "DOCUMENT", "charter"⟩, "alice", "a1"⟩ }

/-- Alice asks, Bob approves, and Alice saves the retention. -/
def approveAndSave : List ApprovalMove :=
  [.start 0 (.saveRetention "alice" "charter" "audit finding"), .advance 0 .proceed,
    .advance 0 .proceed, .advance 0 .proceed, .advance 0 (.row "a1"),
    .start 0 (.decide "bob" "a1" true (some "APPROVED")), .advance 0 .proceed, .advance 0 .proceed,
    .start 0 (.saveRetention "alice" "charter" "audit finding"), .advance 0 .proceed,
    .advance 0 (.row "a1"), .advance 0 .proceed, .advance 0 .proceed, .advance 0 .proceed]

theorem operations_le_approvals_retention :
    (approvalSystem String.toLower).ReachableWhile FreshRun (Concurrent.idle (changedRetention 1)) ∧
    ((changedRetention 1).operations.filter fun operation =>
        operation.target = ⟨.retentionChange, "DOCUMENT", "charter"⟩ ∧
        operation.requestedBy = "alice" ∧ operation.bootstrap = false).length ≤
      ((changedRetention 1).approvals.filter fun approval =>
        approval.target = ⟨.retentionChange, "DOCUMENT", "charter"⟩ ∧
        approval.requestedBy = "alice" ∧ approval.Granted).length := by
  have hrun : (Concurrent.executeNamed (approvalProgram String.toLower) [0]
      (approvalLocks.isOrderly Fresh [0]) (Concurrent.idle retainedStore) approveAndSave).bind
        (Concurrent.settled [0]) = some (changedRetention 1) := by
    decide +kernel
  have hinit : (approvalSystem String.toLower).ReachableWhile FreshRun
      (Concurrent.idle retainedStore) := .init ⟨⟨rfl, rfl⟩, fun _ => rfl⟩
  have hreach := Concurrent.reachable_settled (fun _ _ => Concurrent.Locks.orderly_of_isOrderly)
    approveAndSave hinit hrun
  exact ⟨hreach, operations_le_approvals hreach _ _⟩

/-- Alice submits the approved change twice. -/
def saveTwice : List ApprovalMove :=
  ([.start 0 (.saveRetention "alice" "charter" "audit finding"),
    .start 1 (.saveRetention "alice" "charter" "audit finding"), .advance 0 .proceed,
    .advance 1 .proceed, .advance 0 (.row "a1"), .advance 1 (.row "a1")] : List ApprovalMove) ++
    (List.replicate 3 (.advance 0 .proceed) : List ApprovalMove) ++
    (List.replicate 3 (.advance 1 .proceed) : List ApprovalMove)

/-- Both submissions find the same approval, and the retention changes twice. -/
theorem double_submission_reuses_approval :
    (approvalSystem String.toLower).Reachable (Concurrent.idle (changedRetention 2)) ∧
    ((changedRetention 2).approvals.filter fun approval =>
        approval.target = ⟨.retentionChange, "DOCUMENT", "charter"⟩ ∧
        approval.requestedBy = "alice" ∧ approval.Granted).length <
      ((changedRetention 2).operations.filter fun operation =>
        operation.target = ⟨.retentionChange, "DOCUMENT", "charter"⟩ ∧
        operation.requestedBy = "alice" ∧ operation.bootstrap = false).length := by
  have hrun : (Concurrent.executeNamed (approvalProgram String.toLower) [0, 1] (fun _ _ => true)
      (Concurrent.idle { retainedStore with approvals := [retentionApproval .approved] })
      saveTwice).bind (Concurrent.settled [0, 1]) = some (changedRetention 2) := by
    decide
  refine ⟨?_, by decide⟩
  exact Concurrent.reachable_settled (fun _ _ _ _ => trivial) saveTwice
    reachable_approvedRetention hrun

end IsmsPortal
