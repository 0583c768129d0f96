import IsmsPortal.Destruction.Protection

/-! # Two-person destruction

A destruction should be approved by somebody other than its requester, for the
request that is recorded. A decision is a read followed by an unconditional
update, and the two names are compared as they are written. The invariant holds
in runs in which an approval meets the request it was given for and a different
name up to case, and in which no other decision and no hold is written to a
policy while a worker is destroying its document.
-/

namespace IsmsPortal

open Foundation

section Approval

variable (toLowerCase : String → String)

/-! ## The property -/

/-- The destruction of the document is approved, under way or done. -/
def RetentionPolicy.Decided (policy : RetentionPolicy) : Prop :=
  policy.destructionStatus ∈
    [DestructionStatus.approved, DestructionStatus.destroying, DestructionStatus.destroyed]

/-- Requester and approver differ up to case, and the approver had read the
request that is recorded. -/
def RetentionPolicy.TwoPersons (policy : RetentionPolicy) : Prop :=
  ∃ requester approver, policy.requestedBy = some requester ∧ policy.approvedBy = some approver ∧
    toLowerCase requester ≠ toLowerCase approver ∧
    policy.approvedFor = some (policy.requestedBy, policy.requestedAt)

/-! ## The condition -/

/-- No worker is between its claim of the policy and its commit. -/
def Unclaimed (config : PortalConfig) (policyId : String) : Prop :=
  ∀ name request item, config.processes name = some request → request.working = some item →
    item.policy.id ≠ policyId

/-- An accepted approval finds the request as it was read, made under another
name up to case. Requests, rejections and holds are written to policies that no
worker has claimed. -/
def Request.KeepsApproval (config : PortalConfig) : Request → Prop
  | .retentionDecisionUpdate decision read =>
      retentionDecisionError decision read config.store.clock = none →
        ∀ row ∈ config.store.policies, row.id = decision.policyId →
          if decision.action = .approve then
            row.requestedBy = read.requestedBy ∧ row.requestedAt = read.requestedAt ∧
              read.requestedBy.map toLowerCase ≠ some (toLowerCase decision.username)
          else Unclaimed config row.id
  | .saveRetentionUpsert body => body.legalHold = true →
      ∀ row ∈ config.store.policies, row.documentId = body.documentId → Unclaimed config row.id
  | _ => True

abbrev ApprovalKept : PortalConfig → PortalMove → Prop :=
  Concurrent.Guarded (Request.KeepsApproval toLowerCase)

/-! ## One row -/

variable {toLowerCase} in
theorem RetentionPolicy.TwoPersons.congr {row policy : RetentionPolicy}
    (htwo : row.TwoPersons toLowerCase) (hby : policy.requestedBy = row.requestedBy)
    (hat : policy.requestedAt = row.requestedAt) (happroved : policy.approvedBy = row.approvedBy)
    (hfor : policy.approvedFor = row.approvedFor) : policy.TwoPersons toLowerCase := by
  obtain ⟨requester, approver, hrequester, happrover, hdifferent, hrequest⟩ := htwo
  refine ⟨requester, approver, hby.trans hrequester, happroved.trans happrover, hdifferent, ?_⟩
  rw [hfor, hrequest, hby, hat]

/-- What a statement may do to a policy: keep its approval, approve it, or take
it out of the decided states while no worker has claimed it. -/
def ApprovalStep (config : PortalConfig) (row policy : RetentionPolicy) : Prop :=
  row.id = policy.id ∧
    ((row.TwoPersons toLowerCase → policy.TwoPersons toLowerCase) ∧
        (policy.Decided → row.Decided ∨ policy.TwoPersons toLowerCase) ∨
      ¬policy.Decided ∧ Unclaimed config row.id)

theorem ApprovalStep.refl (config : PortalConfig) (row : RetentionPolicy) :
    ApprovalStep toLowerCase config row row :=
  ⟨rfl, .inl ⟨id, .inl⟩⟩

theorem savedPolicy_approvalStep {config : PortalConfig} {body : RetentionPolicyDto}
    {row : RetentionPolicy} (hrow : row ∈ config.store.policies)
    (hdocument : row.documentId = body.documentId)
    (hkeeps : Request.KeepsApproval toLowerCase config (.saveRetentionUpsert body)) (now : Int) :
    ApprovalStep toLowerCase config row { savedPolicy body row with updatedAt := now } := by
  refine ⟨by simp, ?_⟩
  cases hhold : body.legalHold with
  | true =>
    refine .inr ⟨?_, hkeeps hhold row hrow hdocument⟩
    simp [savedPolicy, hhold, RetentionPolicy.Decided]
  | false =>
    refine .inl ⟨fun htwo => ?_, fun hdecided => .inl ?_⟩
    · apply htwo.congr <;> simp [savedPolicy, hhold]
    · simpa [savedPolicy, hhold, RetentionPolicy.Decided] using hdecided

/-- An accepted approval read a pending request. -/
theorem read_requested {decision : RetentionDecision} {read : RetentionPolicy} {now : Int}
    (happrove : decision.action = .approve)
    (haccepted : retentionDecisionError decision read now = none) :
    read.destructionStatus = .requested := by
  by_contra hother
  simp only [retentionDecisionError, happrove] at haccepted
  split at haccepted <;> cases haccepted

theorem decidedPolicy_approvalStep {config : PortalConfig} {decision : RetentionDecision}
    {read row : RetentionPolicy} (hrow : row ∈ config.store.policies)
    (hid : row.id = decision.policyId)
    (hread : read.destructionStatus = .requested → read.requestedBy.isSome)
    (haccepted : retentionDecisionError decision read config.store.clock = none)
    (hkeeps : Request.KeepsApproval toLowerCase config (.retentionDecisionUpdate decision read))
    (now : Int) :
    ApprovalStep toLowerCase config row
      { decidedPolicy decision read config.store.clock row with updatedAt := now } := by
  refine ⟨by simp, ?_⟩
  have hcondition := hkeeps haccepted row hrow hid
  cases haction : decision.action with
  | approve =>
    simp only [haction, if_true] at hcondition
    obtain ⟨hby, hat, hdifferent⟩ := hcondition
    obtain ⟨requester, hrequester⟩ :=
      Option.isSome_iff_exists.mp (hread (read_requested haction haccepted))
    have htwo : RetentionPolicy.TwoPersons toLowerCase
        { decidedPolicy decision read config.store.clock row with updatedAt := now } := by
      refine ⟨requester, decision.username, ?_, ?_, ?_, ?_⟩
      · simp [decidedPolicy, haction, hby, hrequester]
      · simp [decidedPolicy, haction]
      · simpa [hrequester] using hdifferent
      · simp [decidedPolicy, haction, hby, hat]
    exact .inl ⟨fun _ => htwo, fun _ => .inr htwo⟩
  | request =>
    rw [haction, if_neg (by simp)] at hcondition
    refine .inr ⟨?_, hcondition⟩
    simp [decidedPolicy, haction, RetentionPolicy.Decided]
  | reject =>
    rw [haction, if_neg (by simp)] at hcondition
    refine .inr ⟨?_, hcondition⟩
    simp [decidedPolicy, haction, RetentionPolicy.Decided]

/-! ## One statement -/

/-- Decided policies were approved by two persons, and a pending request names
its requester. -/
def Database.ApprovalSound (db : Database) : Prop :=
  ∀ policy ∈ db.policies, (policy.Decided → policy.TwoPersons toLowerCase) ∧
    (policy.destructionStatus = .requested → policy.requestedBy.isSome)

/-- A worker destroys what two persons approved; a decision has read a sound policy. -/
def Request.ApprovalKnown (db : Database) : Request → Prop
  | .findShared item _ | .removeObjects item _ _ _ => ∀ row ∈ db.policies,
      row.id = item.policy.id → row.TwoPersons toLowerCase
  | .retentionDecisionUpdate _ read => read.destructionStatus = .requested →
      read.requestedBy.isSome
  | _ => True

variable {toLowerCase}
variable {process : Nat} {choice : Choice} {config : PortalConfig} {after : Database}
variable {request : Request}

/-- Every policy after a statement comes from a policy before it, or is new. -/
theorem approval_write (hwrite : Write process choice config.store request after)
    (hknown : request.ApprovalKnown toLowerCase config.store)
    (hkeeps : request.KeepsApproval toLowerCase config) {policy : RetentionPolicy}
    (hpolicy : policy ∈ after.policies) :
    (∃ row ∈ config.store.policies, ApprovalStep toLowerCase config row policy) ∨
      ¬policy.Decided ∧ config.store.FreshId policy.id := by
  cases hwrite
  case create body hnone hfound hfresh =>
    simp only [List.mem_append, List.mem_singleton] at hpolicy
    rcases hpolicy with hold | rfl
    · exact .inl ⟨policy, hold, ApprovalStep.refl toLowerCase config policy⟩
    · refine .inr ⟨?_, hfresh⟩
      simp [createdPolicy, RetentionPolicy.Decided]
  case save body =>
    obtain ⟨row, hrow, rfl | ⟨hdocument, rfl⟩⟩ := Database.mem_updatePolicies hpolicy
    · exact .inl ⟨policy, hrow, ApprovalStep.refl toLowerCase config policy⟩
    · exact .inl ⟨row, hrow, savedPolicy_approvalStep toLowerCase hrow
        (of_decide_eq_true hdocument) hkeeps _⟩
  case decide decision read haccepted =>
    obtain ⟨row, hrow, rfl | ⟨hid, rfl⟩⟩ := Database.mem_updatePolicies hpolicy
    · exact .inl ⟨policy, hrow, ApprovalStep.refl toLowerCase config policy⟩
    · exact .inl ⟨row, hrow, decidedPolicy_approvalStep toLowerCase hrow
        (of_decide_eq_true hid) hknown haccepted hkeeps _⟩
  case flag due =>
    obtain ⟨row, hrow, rfl | ⟨-, rfl⟩⟩ := Database.mem_updatePolicies hpolicy
    · exact .inl ⟨policy, hrow, ApprovalStep.refl toLowerCase config policy⟩
    · refine .inl ⟨row, hrow, rfl, .inl ⟨(·.congr rfl rfl rfl rfl), fun hdecided => ?_⟩⟩
      simp [RetentionPolicy.Decided] at hdecided
  case retry =>
    obtain ⟨row, hrow, rfl | ⟨hstale, rfl⟩⟩ := Database.mem_updatePolicies hpolicy
    · exact .inl ⟨policy, hrow, ApprovalStep.refl toLowerCase config policy⟩
    · refine .inl ⟨row, hrow, rfl, .inl ⟨(·.congr rfl rfl rfl rfl), fun _ => .inl ?_⟩⟩
      simp only [decide_eq_true_eq] at hstale
      simp [RetentionPolicy.Decided, hstale.1]
  case claim item queue =>
    obtain ⟨row, hrow, rfl | ⟨hclaims, rfl⟩⟩ := Database.mem_updatePolicies hpolicy
    · exact .inl ⟨policy, hrow, ApprovalStep.refl toLowerCase config policy⟩
    · refine .inl ⟨row, hrow, rfl, .inl ⟨(·.congr rfl rfl rfl rfl), fun _ => .inl ?_⟩⟩
      simp only [isApproved, Bool.and_eq_true, decide_eq_true_eq] at hclaims
      simp [RetentionPolicy.Decided, hclaims.2.1]
  case destroy item keep queue =>
    obtain ⟨row, hrow, rfl | ⟨hid, rfl⟩⟩ := Database.mem_updatePolicies hpolicy
    · exact .inl ⟨policy, hrow, ApprovalStep.refl toLowerCase config policy⟩
    · have htwo := hknown row hrow (of_decide_eq_true hid)
      exact .inl ⟨row, hrow, rfl, .inl ⟨(·.congr rfl rfl rfl rfl),
        fun _ => .inr (htwo.congr rfl rfl rfl rfl)⟩⟩
  case delete =>
    exact .inl ⟨policy, List.mem_of_mem_filter hpolicy,
      ApprovalStep.refl toLowerCase config policy⟩
  case upload =>
    refine .inl ⟨policy, ?_, ApprovalStep.refl toLowerCase config policy⟩
    simpa [Database.issueId] using hpolicy
  all_goals exact .inl ⟨policy, hpolicy, ApprovalStep.refl toLowerCase config policy⟩

/-- A request is recorded with its requester. -/
theorem requested_write {db : Database} (hwrite : Write process choice db request after)
    (hsound : ∀ row ∈ db.policies, row.destructionStatus = .requested → row.requestedBy.isSome)
    {policy : RetentionPolicy} (hpolicy : policy ∈ after.policies)
    (hrequested : policy.destructionStatus = .requested) : policy.requestedBy.isSome := by
  cases hwrite
  case create body hnone hfound hfresh =>
    simp only [List.mem_append, List.mem_singleton] at hpolicy
    rcases hpolicy with hold | rfl
    · exact hsound policy hold hrequested
    · cases hrequested
  case save body =>
    obtain ⟨row, hrow, rfl | ⟨-, rfl⟩⟩ := Database.mem_updatePolicies hpolicy
    · exact hsound policy hrow hrequested
    · cases hhold : body.legalHold <;> simp only [savedPolicy, hhold] at hrequested ⊢
      · exact hsound row hrow hrequested
      · cases hrequested
  case decide decision read haccepted =>
    obtain ⟨row, hrow, rfl | ⟨-, rfl⟩⟩ := Database.mem_updatePolicies hpolicy
    · exact hsound policy hrow hrequested
    · cases haction : decision.action <;> simp_all [decidedPolicy]
  case flag | retry | claim | destroy =>
    obtain ⟨row, hrow, rfl | ⟨-, rfl⟩⟩ := Database.mem_updatePolicies hpolicy
    · exact hsound policy hrow hrequested
    · cases hrequested
  case delete => exact hsound policy (List.mem_of_mem_filter hpolicy) hrequested
  case upload =>
    exact hsound policy (by simpa [Database.issueId] using hpolicy) hrequested
  all_goals exact hsound policy hpolicy hrequested

/-! ## The outline -/

theorem Request.Valid.working {db : Database} (hvalid : request.Valid process db)
    {item : WorkItem} (hworking : request.working = some item) : item.Valid db := by
  cases request <;> cases hworking
  case findShared queue => exact hvalid item List.mem_cons_self
  case removeObjects keep remaining queue => exact hvalid.1 item List.mem_cons_self

theorem approvalSound_write (hsound : config.store.ApprovalSound toLowerCase)
    (hwrite : Write process choice config.store request after)
    (hknown : request.ApprovalKnown toLowerCase config.store)
    (hkeeps : request.KeepsApproval toLowerCase config) : after.ApprovalSound toLowerCase := by
  intro policy hpolicy
  refine ⟨fun hdecided => ?_,
    requested_write hwrite (fun row hrow => (hsound row hrow).2) hpolicy⟩
  obtain ⟨row, hrow, -, ⟨hkept, hbefore⟩ | ⟨hopen, -⟩⟩ | ⟨hopen, -⟩ :=
    approval_write hwrite hknown hkeeps hpolicy
  · rcases hbefore hdecided with hrowDecided | htwo
    · exact hkept ((hsound row hrow).1 hrowDecided)
    · exact htwo
  · exact absurd hdecided hopen
  · exact absurd hdecided hopen

/-- A worker's policy stays approved: others do not touch what is claimed. -/
theorem claimed_write (hwrite : Write process choice config.store request after)
    (hknown : request.ApprovalKnown toLowerCase config.store)
    (hkeeps : request.KeepsApproval toLowerCase config) {item : WorkItem}
    (hitem : item.Valid config.store) (hclaimed : ¬Unclaimed config item.policy.id)
    (htwo : ∀ row ∈ config.store.policies, row.id = item.policy.id → row.TwoPersons toLowerCase) :
    ∀ row ∈ after.policies, row.id = item.policy.id → row.TwoPersons toLowerCase := by
  intro policy hpolicy hid
  obtain ⟨row, hrow, hrowId, ⟨hkept, -⟩ | ⟨-, hunclaimed⟩⟩ | ⟨-, hfresh⟩ :=
    approval_write hwrite hknown hkeeps hpolicy
  · exact hkept (htwo row hrow (hrowId.trans hid))
  · exact absurd (hid ▸ hrowId ▸ hunclaimed) hclaimed
  · exact absurd (hid ▸ hfresh) hitem.issued

theorem ApprovalKnown.stable (hwrite : Write process choice config.store request after)
    (hknown : request.ApprovalKnown toLowerCase config.store)
    (hkeeps : request.KeepsApproval toLowerCase config) {other : Nat} {pending : Request}
    (hrunning : config.processes other = some pending)
    (hvalid : pending.Valid other config.store)
    (hpending : pending.ApprovalKnown toLowerCase config.store) :
    pending.ApprovalKnown toLowerCase after := by
  cases pending
  case findShared item queue =>
    exact claimed_write hwrite hknown hkeeps (hvalid.working rfl)
      (fun hunclaimed => hunclaimed other _ item hrunning rfl rfl) hpending
  case removeObjects item keep remaining queue =>
    exact claimed_write hwrite hknown hkeeps (hvalid.working rfl)
      (fun hunclaimed => hunclaimed other _ item hrunning rfl rfl) hpending
  case retentionDecisionUpdate decision read => exact hpending
  all_goals trivial

theorem advance_approvalKnown {db : Database} (hwell : db.WellFormed)
    (hsound : db.ApprovalSound toLowerCase)
    (hknown : request.ApprovalKnown toLowerCase db) {following : Request}
    (hadvance : advance process choice db request = some (some following, after)) :
    following.ApprovalKnown toLowerCase after := by
  have hstep := advance_step hadvance
  generalize hremaining : some following = remaining at hstep
  cases hstep <;> cases hremaining
  case readPolicy decision policy hfound =>
    exact (hsound policy (List.mem_of_find?_eq_some hfound)).2
  case claim item queue hclaimed =>
    obtain ⟨row, hrow, hclaims⟩ := List.countP_pos_iff.mp (hclaimed ▸ Nat.one_pos)
    simp only [isApproved, Bool.and_eq_true, decide_eq_true_eq] at hclaims
    have htwo : row.TwoPersons toLowerCase :=
      (hsound row hrow).1 (by simp [RetentionPolicy.Decided, hclaims.2.1])
    intro policy hpolicy hid
    obtain ⟨before, hbefore, rfl | ⟨-, rfl⟩⟩ := Database.mem_updatePolicies hpolicy
    · exact hwell.policy_eq_of_id hrow hbefore (hclaims.1.trans hid.symm) ▸ htwo
    · have heq : row = before := hwell.policy_eq_of_id hrow hbefore (hclaims.1.trans hid.symm)
      exact (heq ▸ htwo).congr rfl rfl rfl rfl
  case findShared item queue => exact hknown
  case removeFile item keep file remaining queue | skipFile item keep file remaining queue _ =>
    exact hknown
  all_goals trivial

variable (toLowerCase) in
def approval : Concurrent.Outline Database Request where
  invariant := Database.ApprovalSound toLowerCase
  assertion _ db request := request.ApprovalKnown toLowerCase db

theorem approval_valid :
    (approval toLowerCase).Valid portal (fun db => db = Database.empty db.clock)
      fun config move => integrity.Holds config ∧ ApprovalKept toLowerCase config move where
  init := by
    intro store hempty policy hpolicy
    rw [hempty] at hpolicy
    cases hpolicy
  drift := by
    intro time store after hdrift hsound
    obtain ⟨-, rfl⟩ := Concurrent.drift_eq hdrift
    refine ⟨hsound, fun name request hknown => ?_⟩
    cases request <;> exact hknown
  start := by
    intro name store request hstart _
    cases request <;> trivial
  own := by
    rintro config name choice request remaining after hholds hrequest ⟨hintegrity, hguard⟩ hadvance
    have hknown := hholds.2 name request hrequest
    refine ⟨approvalSound_write hholds.1 (advance_write hadvance) hknown (hguard _ hrequest), ?_⟩
    rintro following rfl
    exact advance_approvalKnown hintegrity.1 hholds.1 hknown hadvance
  others := by
    rintro config name choice request remaining after hholds hrequest ⟨hintegrity, hguard⟩ hadvance
      other pending - hpending
    exact ApprovalKnown.stable (advance_write hadvance) (hholds.2 name request hrequest)
      (hguard _ hrequest) hpending (hintegrity.2 other pending hpending)
      (hholds.2 other pending hpending)

variable (toLowerCase) in
/-- **Two-person destruction.** In every run that meets the condition, every
policy whose destruction is approved, under way or done was approved by a
second person, for the request it records. -/
theorem decided_by_two_persons
    (hreach : portalSystem.ReachableWhile (ApprovalKept toLowerCase) config)
    (policy : RetentionPolicy) (hpolicy : policy ∈ config.store.policies)
    (hdecided : policy.Decided) : policy.TwoPersons toLowerCase := by
  have hholds := approval_valid.holds (hreach.assuming fun _ hstate => integrity_holds hstate)
  exact (hholds.1 policy hpolicy).1 hdecided

end Approval

/-! ## Sample runs -/

/-- The part of the condition that can fail for a request that runs alone. -/
def approvalMet (toLowerCase : String → String) (db : Database) : Request → Bool
  | .retentionDecisionUpdate decision read => db.policies.all fun row =>
      decide (decision.action = .approve → row.requestedBy = read.requestedBy ∧
        row.requestedAt = read.requestedAt ∧
        read.requestedBy.map toLowerCase ≠ some (toLowerCase decision.username))
  | _ => true

theorem unclaimed_solo (db : Database) {request : Request} (hidle : request.working = none)
    (policyId : String) : Unclaimed (Concurrent.solo (some request, db)) policyId := by
  intro name running item hrunning hworking
  by_cases hname : name = 0
  · simp only [Concurrent.solo, hname, Function.update_self, Option.some.injEq] at hrunning
    rw [← hrunning, hidle] at hworking
    cases hworking
  · simp [Concurrent.solo, Function.update_of_ne hname] at hrunning

theorem keepsApproval_solo (toLowerCase : String → String) (db : Database) (request : Request)
    (hmet : approvalMet toLowerCase db request = true) :
    request.KeepsApproval toLowerCase (Concurrent.solo (some request, db)) := by
  cases request
  case retentionDecisionUpdate decision read =>
    intro _ row hrow _
    simp only [approvalMet, List.all_eq_true, decide_eq_true_eq] at hmet
    split
    · next happrove => exact hmet row hrow happrove
    · exact unclaimed_solo db rfl row.id
  case saveRetentionUpsert body =>
    exact fun _ row _ _ => unclaimed_solo db rfl row.id
  all_goals trivial

theorem decided_by_two_persons_report :
    (approvedPolicy "alice" "bob").Decided ∧
      (approvedPolicy "alice" "bob").TwoPersons String.toLower := by
  have hreach : portalSystem.ReachableWhile (ApprovalKept String.toLower)
      (Concurrent.idle (reportStore (approvedPolicy "alice" "bob"))) :=
    Concurrent.reachable_runScript (keepsApproval_solo String.toLower)
      [uploadReport, retainReport 0, decideReport "alice" .request, decideReport "bob" .approve] _
      reachable_empty (by decide +kernel)
  have hdecided : (approvedPolicy "alice" "bob").Decided := List.mem_cons_self
  exact ⟨hdecided, decided_by_two_persons String.toLower hreach _ (List.mem_singleton.mpr rfl)
    hdecided⟩

/-- The names are compared as written: `Alice` approves the request of `alice`. -/
theorem approved_by_requester : ∃ config, portalSystem.Reachable config ∧
    ∃ policy ∈ config.store.policies, policy.Decided ∧ ¬policy.TwoPersons String.toLower := by
  have hreach : portalSystem.Reachable
      (Concurrent.idle (reportStore (approvedPolicy "alice" "Alice"))) :=
    Concurrent.reachable_script [uploadReport, retainReport 0, decideReport "alice" .request,
      decideReport "Alice" .approve] reachable_empty (by decide)
  refine ⟨_, hreach, _, List.mem_singleton.mpr rfl, List.mem_cons_self, ?_⟩
  rintro ⟨requester, approver, hrequester, happrover, hdifferent, -⟩
  cases hrequester
  cases happrover
  -- compared as lists of characters, the names are equal in lower case
  apply hdifferent
  apply String.toList_inj.mp
  unfold String.toLower
  rw [String.toList_map, String.toList_map]
  decide

end IsmsPortal
