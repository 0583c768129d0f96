import IsmsPortal.Approvals.Requests

/-! # The four-eyes rule

Approvals only make progress: a pending one is decided once, by somebody else
than its requester, and an approved one may be executed. Every request past the
gate holds an approval of its own operation, target and requester.
-/

namespace IsmsPortal

open Foundation

/-- The approval has reached the status APPROVED. -/
def SensitiveApproval.Granted (approval : SensitiveApproval) : Prop :=
  approval.status = .approved ∨ approval.status = .executed

instance (approval : SensitiveApproval) : Decidable approval.Granted :=
  inferInstanceAs (Decidable (_ ∨ _))

/-- `approval` may become `later`. -/
structure SensitiveApproval.Progress (approval later : SensitiveApproval) : Prop where
  id : later.id = approval.id
  target : later.target = approval.target
  requestedBy : later.requestedBy = approval.requestedBy
  decided : approval.status ≠ .pending → later.status ≠ .pending ∧
    later.approvedBy = approval.approvedBy ∧ later.approvedAt = approval.approvedAt
  granted : approval.Granted → later.Granted

theorem SensitiveApproval.Progress.refl (approval : SensitiveApproval) :
    approval.Progress approval :=
  ⟨rfl, rfl, rfl, fun hdecided => ⟨hdecided, rfl, rfl⟩, fun hgranted => hgranted⟩

theorem SensitiveApproval.Progress.trans {first middle last : SensitiveApproval}
    (hfirst : first.Progress middle) (hlast : middle.Progress last) : first.Progress last where
  id := hlast.id.trans hfirst.id
  target := hlast.target.trans hfirst.target
  requestedBy := hlast.requestedBy.trans hfirst.requestedBy
  decided hdecided := by
    obtain ⟨hmiddle, hby, hat⟩ := hfirst.decided hdecided
    obtain ⟨hlater, hby', hat'⟩ := hlast.decided hmiddle
    exact ⟨hlater, hby'.trans hby, hat'.trans hat⟩
  granted hgranted := hlast.granted (hfirst.granted hgranted)

/-- Every approval is still there, and has made progress. -/
def ApprovalStore.Progress (store later : ApprovalStore) : Prop :=
  ∀ approval ∈ store.approvals, ∃ approval' ∈ later.approvals, approval.Progress approval'

theorem ApprovalStore.Progress.trans {first middle last : ApprovalStore}
    (hfirst : first.Progress middle) (hlast : middle.Progress last) : first.Progress last := by
  intro approval happroval
  obtain ⟨approval', happroval', hprogress⟩ := hfirst approval happroval
  obtain ⟨approval'', happroval'', hprogress'⟩ := hlast approval' happroval'
  exact ⟨approval'', happroval'', hprogress.trans hprogress'⟩

section Store

variable {toLowerCase : String → String} {store after : ApprovalStore}

/-- A row is rewritten in place. -/
theorem progress_map {rewrite : SensitiveApproval → SensitiveApproval}
    (hafter : after.approvals = store.approvals.map rewrite)
    (hrewrite : ∀ approval ∈ store.approvals, approval.Progress (rewrite approval)) :
    store.Progress after := by
  intro approval happroval
  exact ⟨rewrite approval, hafter ▸ List.mem_map_of_mem happroval, hrewrite approval happroval⟩

theorem progress_of_eq (hafter : after.approvals = store.approvals) : store.Progress after :=
  fun approval happroval => ⟨approval, hafter ▸ happroval, .refl approval⟩

variable (toLowerCase) in
/-- Decided rows name another approver than their requester. -/
structure ApprovalStore.FourEyes (store : ApprovalStore) : Prop where
  unique : (store.approvals.map SensitiveApproval.id).Nodup
  named : ∀ approval ∈ store.approvals, approval.id ≠ ""
  pending : ∀ approval ∈ store.approvals, approval.status = .pending →
    approval.approvedBy = none ∧ approval.approvedAt = none
  decided : ∀ approval ∈ store.approvals, approval.status ≠ .pending →
    ∃ approver, approval.approvedBy = some approver ∧
      toLowerCase approver ≠ toLowerCase approval.requestedBy

/-- The approval with an identifier, for a request. -/
def ApprovalStore.Clears (store : ApprovalStore) (gated : GatedRequest) (approvalId : String) :
    Prop :=
  ∃ approval ∈ store.approvals, approval.id = approvalId ∧ approval.target = gated.target ∧
    approval.requestedBy = gated.username ∧ approval.Granted

theorem ApprovalStore.Clears.progress {gated : GatedRequest} {approvalId : String}
    (hclears : store.Clears gated approvalId) (hprogress : store.Progress after) :
    after.Clears gated approvalId := by
  obtain ⟨approval, happroval, hid, htarget, hby, hgranted⟩ := hclears
  obtain ⟨later, hlater, hrow⟩ := hprogress approval happroval
  exact ⟨later, hlater, hrow.id.trans hid, hrow.target.trans htarget, hrow.requestedBy.trans hby,
    hrow.granted hgranted⟩

theorem fourEyes_of_eq (heyes : store.FourEyes toLowerCase)
    (hafter : after.approvals = store.approvals) : after.FourEyes toLowerCase := by
  obtain ⟨hunique, hnamed, hpending, hdecided⟩ := heyes
  rw [← hafter] at hunique hnamed hpending hdecided
  exact ⟨hunique, hnamed, hpending, hdecided⟩

theorem fourEyes_create (heyes : store.FourEyes toLowerCase) {id requestedBy reason : String}
    {target : SensitiveTarget} (hunused : store.Unused id)
    (hafter : after.approvals = (store.createApproval id target requestedBy reason).approvals) :
    after.FourEyes toLowerCase ∧ store.Progress after := by
  have hmem : ∀ approval, approval ∈ after.approvals ↔ approval ∈ store.approvals ∨
      approval = ⟨id, target, requestedBy, reason, .pending, none, none⟩ := by
    simp [hafter, ApprovalStore.createApproval]
  refine ⟨⟨?_, ?_, ?_, ?_⟩, fun approval happroval =>
    ⟨approval, (hmem approval).mpr (.inl happroval), .refl approval⟩⟩
  · rw [hafter]
    simp only [ApprovalStore.createApproval, List.map_append, List.map_cons, List.map_nil]
    refine heyes.unique.append (List.nodup_singleton _) ?_
    rw [List.disjoint_singleton]
    intro hused
    obtain ⟨approval, happroval, hid⟩ := List.mem_map.mp hused
    exact hunused.2 approval happroval hid
  · intro approval happroval
    rcases (hmem approval).mp happroval with hold | rfl
    · exact heyes.named approval hold
    · exact hunused.1
  · intro approval happroval
    rcases (hmem approval).mp happroval with hold | rfl
    · exact heyes.pending approval hold
    · exact fun _ => ⟨rfl, rfl⟩
  · intro approval happroval
    rcases (hmem approval).mp happroval with hold | rfl
    · exact heyes.decided approval hold
    · exact fun hdecided => absurd rfl hdecided

/-- Rewriting rows in place keeps the rule if every rewritten row is decided by
somebody else. -/
theorem fourEyes_map (heyes : store.FourEyes toLowerCase)
    {rewrite : SensitiveApproval → SensitiveApproval}
    (hafter : after.approvals = store.approvals.map rewrite)
    (hrewrite : ∀ approval ∈ store.approvals, approval.Progress (rewrite approval) ∧
      (rewrite approval = approval ∨ (rewrite approval).status ≠ .pending ∧
        ∃ approver, (rewrite approval).approvedBy = some approver ∧
          toLowerCase approver ≠ toLowerCase approval.requestedBy)) :
    after.FourEyes toLowerCase ∧ store.Progress after := by
  refine ⟨⟨?_, ?_, ?_, ?_⟩, progress_map hafter fun approval happroval =>
    (hrewrite approval happroval).1⟩
  · have hids : after.approvals.map SensitiveApproval.id =
        store.approvals.map SensitiveApproval.id := by
      rw [hafter, List.map_map]
      apply List.map_congr_left
      intro approval happroval
      exact (hrewrite approval happroval).1.id
    rw [hids]
    exact heyes.unique
  all_goals
    intro later hlater
    rw [hafter] at hlater
    obtain ⟨approval, happroval, rfl⟩ := List.mem_map.mp hlater
    obtain ⟨hprogress, hkept | ⟨hdecided, approver, hby, hother⟩⟩ := hrewrite approval happroval
  · rw [hkept]
    exact heyes.named approval happroval
  · rw [hprogress.id]
    exact heyes.named approval happroval
  · rw [hkept]
    exact heyes.pending approval happroval
  · exact fun hpending => absurd hpending hdecided
  · rw [hkept]
    exact heyes.decided approval happroval
  · intro _
    rw [hprogress.requestedBy]
    exact ⟨approver, hby, hother⟩

/-- Somebody else than the requester decides. -/
theorem fourEyes_decide (heyes : store.FourEyes toLowerCase) {username id : String}
    {status : ApprovalDecision}
    (hother : ∃ approval ∈ store.approvals, approval.id = id ∧
      toLowerCase approval.requestedBy ≠ toLowerCase username)
    (hafter : after.approvals = (store.decideApproval id username status).approvals) :
    after.FourEyes toLowerCase ∧ store.Progress after := by
  obtain ⟨existing, hexisting, hid, hne⟩ := hother
  refine fourEyes_map heyes hafter fun approval happroval => ?_
  split
  next hmatch =>
    have hrow : approval = existing :=
      List.inj_on_of_nodup_map heyes.unique happroval hexisting (hmatch.1.trans hid.symm)
    subst hrow
    refine ⟨⟨rfl, rfl, rfl, fun hdecided => absurd hmatch.2 hdecided, fun hgranted => ?_⟩,
      .inr ⟨?_, username, rfl, Ne.symm hne⟩⟩
    · rw [SensitiveApproval.Granted, hmatch.2] at hgranted
      simp at hgranted
    · cases status <;> simp [ApprovalDecision.status]
  next => exact ⟨.refl approval, .inl rfl⟩

/-- A granted approval is executed. -/
theorem fourEyes_execute (heyes : store.FourEyes toLowerCase) {gated : GatedRequest}
    {approvalId : String} (hclears : store.Clears gated approvalId) (hid : approvalId ≠ "")
    (hafter : after.approvals = (store.execute approvalId).approvals) :
    after.FourEyes toLowerCase ∧ store.Progress after := by
  obtain ⟨existing, hexisting, hexistingId, -, -, hgranted⟩ := hclears
  simp only [ApprovalStore.execute, if_neg hid, Table.update] at hafter
  refine fourEyes_map heyes hafter fun approval happroval => ?_
  split
  next hmatch =>
    have hrow : approval = existing :=
      List.inj_on_of_nodup_map heyes.unique happroval hexisting (hmatch.trans hexistingId.symm)
    subst hrow
    have hdecided : approval.status ≠ .pending := by
      rcases hgranted with hstatus | hstatus <;> simp [hstatus]
    refine ⟨⟨rfl, rfl, rfl, fun _ => ⟨by simp, rfl, rfl⟩, fun _ => .inr rfl⟩,
      .inr ⟨by simp, heyes.decided approval happroval hdecided⟩⟩
  next => exact ⟨.refl approval, .inl rfl⟩

end Store

/-! ## The outline -/

section Outline

variable (toLowerCase : String → String)

/-- What a request knows: only broad privileges count administrators, the decider
is not the requester, and a request past the gate is cleared, or has no approval. -/
def approvalAssertion (store : ApprovalStore) : ApprovalProcess → Prop
  | .requireCounts gated _ _ => gated.target.operation = .broadPrivilege
  | .decideUpdate username id _ => ∃ approval ∈ store.approvals, approval.id = id ∧
      toLowerCase approval.requestedBy ≠ toLowerCase username
  | .cleared gated approvalId | .audit gated approvalId | .execute gated approvalId
  | .respond gated approvalId => approvalId ≠ "" → store.Clears gated approvalId
  | _ => True

def approvalOutline : Concurrent.Outline ApprovalStore ApprovalProcess where
  invariant := ApprovalStore.FourEyes toLowerCase
  assertion _ := approvalAssertion toLowerCase

variable {toLowerCase} {choice : ApprovalChoice} {store after : ApprovalStore}
variable {process : ApprovalProcess} {remaining : Option ApprovalProcess}

theorem approvalAssertion_progress (hprogress : store.Progress after)
    (hknown : approvalAssertion toLowerCase store process) :
    approvalAssertion toLowerCase after process := by
  cases process with
  | decideUpdate username id status =>
      obtain ⟨approval, happroval, hid, hne⟩ := hknown
      obtain ⟨later, hlater, hrow⟩ := hprogress approval happroval
      exact ⟨later, hlater, hrow.id.trans hid, by rwa [hrow.requestedBy]⟩
  | cleared gated approvalId => exact fun hid => (hknown hid).progress hprogress
  | audit gated approvalId => exact fun hid => (hknown hid).progress hprogress
  | execute gated approvalId => exact fun hid => (hknown hid).progress hprogress
  | respond gated approvalId => exact fun hid => (hknown hid).progress hprogress
  | requireCounts gated accounts groups => exact hknown
  | _ => trivial

/-- One statement keeps the rule, and all approvals make progress. -/
theorem fourEyes_step (heyes : store.FourEyes toLowerCase)
    (hknown : approvalAssertion toLowerCase store process)
    (hadvance : approvalAdvance toLowerCase choice store process = some (remaining, after)) :
    after.FourEyes toLowerCase ∧ store.Progress after := by
  rcases approvalAdvance_approvals hadvance with hsame | ⟨id, target, requestedBy, reason, hunused,
    hafter⟩ | ⟨username, id, status, rfl, hafter⟩ | ⟨gated, approvalId, hprocess, hid, hafter⟩
  · exact ⟨fourEyes_of_eq heyes hsame, progress_of_eq hsame⟩
  · exact fourEyes_create heyes hunused hafter
  · exact fourEyes_decide heyes hknown hafter
  · have hclears : store.Clears gated approvalId := by
      rcases hprocess with rfl | rfl
      · exact hknown hid
      · exact hknown hid
    exact fourEyes_execute heyes hclears hid hafter

/-- The place inside `require`, with its arguments. -/
def ApprovalProcess.requiring : ApprovalProcess → Option GatedRequest
  | .requireCounts gated _ _ | .requireApproved gated | .requirePending gated
  | .requireCreate gated => some gated
  | _ => none

theorem counted_eq_cleared {asked gated : GatedRequest} {accounts groups : Option Nat}
    {approvalId : String} (hcounted : asked.counted accounts groups = .cleared gated approvalId) :
    gated = asked ∧ approvalId = "" ∧ ∃ accounts' groups', accounts = some accounts' ∧
      groups = some groups' ∧ accounts' + groups' ≤ 1 := by
  unfold GatedRequest.counted at hcounted
  split at hcounted
  · split at hcounted <;> cases hcounted
    next hfew => exact ⟨rfl, rfl, _, _, rfl, rfl, hfew⟩
  · cases hcounted

/-- What `require` returns: an approval that is APPROVED now, or nothing after the
counts. -/
theorem require_returns {gated cleared : GatedRequest} {approvalId : String}
    (hrequiring : process.requiring = some gated)
    (hstep : GateStep toLowerCase store process (.cleared cleared approvalId)) :
    cleared = gated ∧
      ((∃ approval ∈ store.approvals, approval.id = approvalId ∧ approval.target = gated.target ∧
        approval.requestedBy = gated.username ∧ approval.status = .approved) ∨
      (approvalId = "" ∧ ∃ accounts groups, accounts + groups ≤ 1 ∧
        ((process = .requireCounts gated none (some groups) ∧ accounts = store.activeAccounts) ∨
          (process = .requireCounts gated (some accounts) none ∧ groups = store.activeGroups)))) := by
  generalize hnext : ApprovalProcess.cleared cleared approvalId = next at hstep
  cases hstep with
  | gate asked hinitial => cases process <;> cases hinitial <;> cases hrequiring
  | ungated asked hinitial hungated => cases process <;> cases hinitial <;> cases hrequiring
  | countAccounts asked groups =>
      cases hrequiring
      obtain ⟨rfl, rfl, accounts', groups', haccounts, rfl, hfew⟩ := counted_eq_cleared hnext.symm
      cases haccounts
      exact ⟨rfl, .inr ⟨rfl, _, _, hfew, .inl ⟨rfl, rfl⟩⟩⟩
  | countGroups asked accounts =>
      cases hrequiring
      obtain ⟨rfl, rfl, accounts', groups', rfl, hgroups, hfew⟩ := counted_eq_cleared hnext.symm
      cases hgroups
      exact ⟨rfl, .inr ⟨rfl, _, _, hfew, .inr ⟨rfl, rfl⟩⟩⟩
  | approved asked approval hanswer =>
      cases hrequiring
      cases hnext
      obtain ⟨happroval, hselected⟩ := mem_answers hanswer
      exact ⟨rfl, .inl ⟨approval, happroval, rfl, hselected⟩⟩
  | _ => cases hnext

theorem approvalAssertion_require (gated : GatedRequest) :
    approvalAssertion toLowerCase store gated.require := by
  unfold GatedRequest.require
  split
  next hbroad => exact hbroad
  next => trivial

theorem approvalAssertion_counted {gated : GatedRequest}
    (hbroad : gated.target.operation = .broadPrivilege) (accounts groups : Option Nat) :
    approvalAssertion toLowerCase store (gated.counted accounts groups) := by
  unfold GatedRequest.counted
  split
  · split
    · exact fun hid => absurd rfl hid
    · trivial
  · exact hbroad

/-- The next place of a request knows what it needs. -/
theorem approvalAssertion_own {process' : ApprovalProcess}
    (hknown : approvalAssertion toLowerCase store process)
    (hstep : GateStep toLowerCase store process process') :
    approvalAssertion toLowerCase store process' := by
  cases hstep with
  | gate gated hinitial => exact approvalAssertion_require gated
  | ungated gated hinitial hungated => exact fun hid => absurd rfl hid
  | countAccounts gated groups => exact approvalAssertion_counted hknown _ _
  | countGroups gated accounts => exact approvalAssertion_counted hknown _ _
  | approved gated approval hanswer =>
      obtain ⟨happroval, htarget, hby, hstatus⟩ := mem_answers hanswer
      exact fun _ => ⟨approval, happroval, rfl, htarget, hby, .inl hstatus⟩
  | operated gated approvalId hendpoint => exact hknown
  | read gated approvalId hendpoint => exact hknown
  | executed gated approvalId hprocess hendpoint =>
      rcases hprocess with rfl | rfl
      · exact hknown
      · exact hknown
  | audited gated approvalId => exact hknown
  | decide username status existing hinitial hexisting hother =>
      exact ⟨existing, hexisting, rfl, hother⟩
  | pending gated => trivial
  | create gated => trivial
  | request username target reason => trivial

theorem approvalOutline_valid :
    (approvalOutline toLowerCase).Valid (approvalProgram toLowerCase)
      (fun store => store.approvals = [] ∧ store.operations = []) (fun _ _ => True) where
  init := by
    rintro store ⟨hnone, -⟩
    constructor <;> simp [hnone]
  drift := by
    intro time store after hdrift heyes
    obtain ⟨-, rfl⟩ := Concurrent.drift_eq hdrift
    refine ⟨fourEyes_of_eq heyes rfl, fun name process hknown => ?_⟩
    exact approvalAssertion_progress (progress_of_eq rfl) hknown
  start := by
    intro name store process hstart _
    cases process <;> trivial
  own := by
    intro config name choice process remaining after hholds hprocess _ hadvance
    have hknown := hholds.2 name process hprocess
    obtain ⟨heyes, hprogress⟩ := fourEyes_step hholds.1 hknown hadvance
    refine ⟨heyes, fun process' hremaining => ?_⟩
    subst hremaining
    exact approvalAssertion_progress hprogress
      (approvalAssertion_own hknown (approvalAdvance_next hadvance))
  others := by
    intro config name choice process remaining after hholds hprocess _ hadvance other process' _
      hother
    obtain ⟨-, hprogress⟩ := fourEyes_step hholds.1 (hholds.2 name process hprocess) hadvance
    exact approvalAssertion_progress hprogress (hholds.2 other process' hother)

end Outline

/-! ## Runs -/

section Runs

variable {toLowerCase : String → String}

theorem progress_next {config after : ApprovalConfig} {move : ApprovalMove}
    (hholds : (approvalOutline toLowerCase).Holds config)
    (hnext : (approvalProgram toLowerCase).next config move = some after) :
    config.store.Progress after.store := by
  rcases Concurrent.next_store hnext with ⟨time, -, hdrift⟩ | ⟨name, choice, process, remaining, -,
    hprocess, hadvance⟩ | hsame
  · rw [(Concurrent.drift_eq hdrift).2]
    exact progress_of_eq rfl
  · exact (fourEyes_step hholds.1 (hholds.2 name process hprocess) hadvance).2
  · exact progress_of_eq (by rw [hsame])

theorem progress_steps {config later : ApprovalConfig}
    (hreach : (approvalSystem toLowerCase).Reachable config)
    (hsteps : (approvalSystem toLowerCase).StepsWhile (fun _ _ => True) config later) :
    config.store.Progress later.store := by
  induction hsteps with
  | refl => exact progress_of_eq rfl
  | tail hbefore _ hnext ih =>
      exact ih.trans (progress_next (approvalOutline_valid.holds (hreach.steps hbefore)) hnext)

variable (toLowerCase) in
/-- At some moment before `config`, while the request was in `require`, the store
had a property. -/
def SeenDuring (config : ApprovalConfig) (name : Nat) (gated : GatedRequest)
    (seen : ApprovalStore → Prop) : Prop :=
  ∃ moment, (approvalSystem toLowerCase).StepsWhile (fun _ _ => True) moment config ∧
    (∃ place, moment.processes name = some place ∧ place.requiring = some gated) ∧
    seen moment.store

theorem SeenDuring.next {config after : ApprovalConfig} {move : ApprovalMove} {name : Nat}
    {gated : GatedRequest} {seen : ApprovalStore → Prop}
    (hseen : SeenDuring toLowerCase config name gated seen)
    (hnext : (approvalProgram toLowerCase).next config move = some after) :
    SeenDuring toLowerCase after name gated seen := by
  obtain ⟨moment, hsteps, hplace, hstore⟩ := hseen
  exact ⟨moment, hsteps.next move after trivial hnext, hplace, hstore⟩

/-- A place that counts: the start of the call, or one more count. -/
theorem requireCounts_origin {store : ApprovalStore} {process : ApprovalProcess}
    {gated : GatedRequest} {accounts groups : Option Nat}
    (hstep : GateStep toLowerCase store process (.requireCounts gated accounts groups)) :
    (accounts = none ∧ groups = none) ∨
      (process = .requireCounts gated none groups ∧ accounts = some store.activeAccounts) ∨
      (process = .requireCounts gated accounts none ∧ groups = some store.activeGroups) := by
  generalize hnext : ApprovalProcess.requireCounts gated accounts groups = next at hstep
  cases hstep with
  | gate asked hinitial =>
      unfold GatedRequest.require at hnext
      split at hnext <;> cases hnext
      exact .inl ⟨rfl, rfl⟩
  | countAccounts asked groups =>
      unfold GatedRequest.counted at hnext
      split at hnext
      · split at hnext <;> cases hnext
      · cases hnext
        exact .inr (.inl ⟨rfl, rfl⟩)
  | countGroups asked accounts =>
      unfold GatedRequest.counted at hnext
      split at hnext
      · split at hnext <;> cases hnext
      · cases hnext
        exact .inr (.inr ⟨rfl, rfl⟩)
  | _ => cases hnext

/-- A request that counts has read every number it holds during the call. -/
theorem counted_during {config : ApprovalConfig}
    (hreach : (approvalSystem toLowerCase).Reachable config) {name : Nat} {gated : GatedRequest}
    {accounts groups : Option Nat}
    (hprocess : config.processes name = some (.requireCounts gated accounts groups)) :
    (∀ count, accounts = some count →
      SeenDuring toLowerCase config name gated fun store => store.activeAccounts = count) ∧
    (∀ count, groups = some count →
      SeenDuring toLowerCase config name gated fun store => store.activeGroups = count) := by
  induction hreach generalizing accounts groups with
  | init hinit =>
      rw [hinit.2 name] at hprocess
      cases hprocess
  | step hbefore hallowed hnext ih =>
      rcases Concurrent.next_process hnext hprocess with hsame | ⟨-, hstart⟩ | ⟨choice, place, rfl,
        hplace, hadvance⟩
      · obtain ⟨haccounts, hgroups⟩ := ih hsame
        exact ⟨fun count hcount => (haccounts count hcount).next hnext,
          fun count hcount => (hgroups count hcount).next hnext⟩
      · cases hstart
      rcases requireCounts_origin (approvalAdvance_next hadvance) with ⟨rfl, rfl⟩ | ⟨rfl, rfl⟩ |
        ⟨rfl, rfl⟩
      · exact ⟨nofun, nofun⟩
      · refine ⟨fun count hcount => ?_, fun count hcount => ((ih hplace).2 count hcount).next hnext⟩
        cases hcount
        exact SeenDuring.next ⟨_, .refl, ⟨_, hplace, rfl⟩, rfl⟩ hnext
      · refine ⟨fun count hcount => ((ih hplace).1 count hcount).next hnext, fun count hcount => ?_⟩
        cases hcount
        exact SeenDuring.next ⟨_, .refl, ⟨_, hplace, rfl⟩, rfl⟩ hnext

/-- **Four-eyes rule.** In every state of every run: approved and executed rows
name an approver other than the requester; a decided row keeps its approver and
its time for good; and `require` returns either an approval of the same operation,
target and requester that is APPROVED at that moment, or nothing, for a broad
privilege and after it has counted at most one active account and group. -/
theorem sensitive_approval_four_eyes {config : ApprovalConfig}
    (hreach : (approvalSystem toLowerCase).Reachable config) :
    (∀ approval ∈ config.store.approvals,
      approval.status = .approved ∨ approval.status = .executed →
      ∃ approver, approval.approvedBy = some approver ∧
        toLowerCase approver ≠ toLowerCase approval.requestedBy) ∧
    (config.store.approvals.map SensitiveApproval.id).Nodup ∧
    (∀ later, (approvalSystem toLowerCase).StepsWhile (fun _ _ => True) config later →
      ∀ approval ∈ config.store.approvals,
        approval.approvedBy.isSome ∨ approval.approvedAt.isSome →
        ∃ approval' ∈ later.store.approvals, approval'.id = approval.id ∧
          approval'.approvedBy = approval.approvedBy ∧ approval'.approvedAt = approval.approvedAt) ∧
    ∀ name choice after process gated cleared approvalId,
      (approvalProgram toLowerCase).next config (.advance name choice) = some after →
      config.processes name = some process → process.requiring = some gated →
      after.processes name = some (.cleared cleared approvalId) →
      cleared = gated ∧
        ((approvalId ≠ "" ∧ ∃ approval ∈ config.store.approvals, approval.id = approvalId ∧
          approval.target = gated.target ∧ approval.requestedBy = gated.username ∧
          approval.status = .approved) ∨
        (approvalId = "" ∧ gated.target.operation = .broadPrivilege ∧
          ∃ accounts groups, accounts + groups ≤ 1 ∧
            (SeenDuring toLowerCase config name gated fun store => store.activeAccounts = accounts) ∧
            SeenDuring toLowerCase config name gated fun store => store.activeGroups = groups)) := by
  have hholds := approvalOutline_valid.holds hreach
  obtain ⟨hunique, hnamed, hpending, hdecided⟩ := hholds.1
  refine ⟨?_, hunique, ?_, ?_⟩
  · intro approval happroval hgranted
    refine hdecided approval happroval ?_
    rcases hgranted with hstatus | hstatus <;> simp [hstatus]
  · intro later hsteps approval happroval hset
    obtain ⟨approval', happroval', hrow⟩ := progress_steps hreach hsteps approval happroval
    have hstatus : approval.status ≠ .pending := by
      intro hstatus
      obtain ⟨hby, hat⟩ := hpending approval happroval hstatus
      simp [hby, hat] at hset
    exact ⟨approval', happroval', hrow.id, (hrow.decided hstatus).2⟩
  · intro name choice after process gated cleared approvalId hnext hprocess hrequiring hcleared
    simp only [Concurrent.next, hprocess, Option.bind_some, Option.map_eq_some_iff] at hnext
    obtain ⟨⟨remaining, store⟩, hadvance, rfl⟩ := hnext
    dsimp only at hcleared
    rw [Function.update_self] at hcleared
    subst hcleared
    obtain ⟨heq, ⟨approval, happroval, hid, hselected⟩ | ⟨hempty, accounts, groups, hfew, hcounts⟩⟩ :=
      require_returns hrequiring (approvalAdvance_next hadvance)
    · exact ⟨heq, .inl ⟨hid ▸ hnamed approval happroval, approval, happroval, hid, hselected⟩⟩
    refine ⟨heq, .inr ⟨hempty, ?_⟩⟩
    have hknown := hholds.2 name process hprocess
    rcases hcounts with ⟨rfl, haccounts⟩ | ⟨rfl, hgroups⟩
    · refine ⟨hknown, accounts, groups, hfew, ?_, (counted_during hreach hprocess).2 groups rfl⟩
      exact ⟨config, .refl, ⟨_, hprocess, rfl⟩, haccounts.symm⟩
    · refine ⟨hknown, accounts, groups, hfew, (counted_during hreach hprocess).1 accounts rfl, ?_⟩
      exact ⟨config, .refl, ⟨_, hprocess, rfl⟩, hgroups.symm⟩

end Runs

/-! ## Sample -/

/-- Two administrators, and a document with a retention policy. -/
def retainedStore : ApprovalStore :=
  ⟨0, [], [⟨"alice", true⟩, ⟨"bob", true⟩], [], ["charter"], [], []⟩

/-- Alice asks for a change of the retention, and Bob approves it. -/
def approvedRetention : List (ApprovalProcess × List ApprovalChoice) :=
  [(.saveRetention "alice" "charter" "audit finding", [.proceed, .proceed, .proceed, .row "a1"]),
    (.decide "bob" "a1" true (some "APPROVED"), [.proceed, .proceed])]

/-- The approval that Bob has given. -/
def retentionApproval (status : ApprovalStatus) : SensitiveApproval :=
  ⟨"a1", ⟨.retentionChange, "DOCUMENT", "charter"⟩, "alice", "audit finding", status, some "bob",
    some 0⟩

theorem reachable_approvedRetention :
    (approvalSystem String.toLower).Reachable
      (Concurrent.idle { retainedStore with approvals := [retentionApproval .approved] }) := by
  have hrun : Concurrent.runScript (approvalProgram String.toLower) (fun _ _ => true)
      approvedRetention retainedStore =
        some { retainedStore with approvals := [retentionApproval .approved] } := by
    decide +kernel
  exact Concurrent.reachable_script approvedRetention (.init ⟨⟨rfl, rfl⟩, fun _ => rfl⟩) hrun

theorem sensitive_approval_four_eyes_retention :
    (approvalSystem String.toLower).Reachable
      (Concurrent.idle { retainedStore with approvals := [retentionApproval .approved] }) ∧
    ∃ approver, (retentionApproval .approved).approvedBy = some approver ∧
      approver.toLower ≠ "alice".toLower :=
  ⟨reachable_approvedRetention, (sensitive_approval_four_eyes reachable_approvedRetention).1
    (retentionApproval .approved) (List.mem_singleton.mpr rfl) (.inl rfl)⟩

end IsmsPortal
