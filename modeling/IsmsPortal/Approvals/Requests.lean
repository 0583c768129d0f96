import IsmsPortal.Foundation.Interleaving
import IsmsPortal.Foundation.JsString
import IsmsPortal.Foundation.Query
import IsmsPortal.Foundation.Table

/-! # Approvals of sensitive operations

A sensitive operation needs the approval of a second administrator. `require`
looks for an approved row of the requester and otherwise leaves a pending one;
two endpoints decide pending rows; `execute` marks a row after the operation, or
before it where the operation is the response. A statement is one step, and a
request that fails or crashes stops. Checks that can only refuse a request are
such stops.
-/

namespace IsmsPortal

open Foundation

inductive SensitiveOperation
  | permanentDelete
  | broadPrivilege
  | retentionChange
  | sensitiveExport
deriving DecidableEq

inductive ApprovalStatus
  | pending
  | approved
  | rejected
  | executed
deriving DecidableEq

/-- An operation on a target. -/
structure SensitiveTarget where
  operation : SensitiveOperation
  targetType : String
  targetId : String
deriving DecidableEq

/-- A row of `SensitiveOperationApproval`. -/
structure SensitiveApproval where
  id : String
  target : SensitiveTarget
  requestedBy : String
  reason : String
  status : ApprovalStatus
  approvedBy : Option String
  approvedAt : Option Int
deriving DecidableEq

structure AdminAccount where
  username : String
  active : Bool
deriving DecidableEq

structure AdminDirectoryGroup where
  name : String
  distinguishedName : String
  active : Bool
deriving DecidableEq

structure AccessSnapshot where
  id : String
  label : String
deriving DecidableEq

/-- A sensitive operation that has been performed, with the approval the request
was cleared by. -/
structure PerformedOperation where
  target : SensitiveTarget
  requestedBy : String
  approvalId : String
deriving DecidableEq

/-- The tables that gated requests use. `policies` holds the documents with a
retention policy. The last field is no table: it lists the operations performed. -/
structure ApprovalStore where
  clock : Int
  approvals : List SensitiveApproval
  accounts : List AdminAccount
  groups : List AdminDirectoryGroup
  policies : List String
  snapshots : List AccessSnapshot
  operations : List PerformedOperation
deriving DecidableEq

/-! ## Requests -/

inductive AdminRole
  | admin
  | moderator
deriving DecidableEq

structure CreateAdmin where
  username : String
  role : Option AdminRole
  justification : String
deriving DecidableEq

/-- A directory group that was verified, with the rest of the request. -/
structure CreateAdminGroup where
  name : String
  distinguishedName : String
  role : Option AdminRole
  justification : String
deriving DecidableEq

/-- What follows the gate. -/
inductive GatedEndpoint
  | saveRetention (documentId : String)
  | exportAccessSnapshot
  | exportAudit
  | createAccount (username : String) (role : AdminRole)
  | addGroup (name distinguishedName : String) (role : AdminRole)
deriving DecidableEq

/-- The arguments of `require`, with the endpoint that calls it. -/
structure GatedRequest where
  username : String
  target : SensitiveTarget
  reason : String
  endpoint : GatedEndpoint
deriving DecidableEq

inductive ApprovalDecision
  | approved
  | rejected
deriving DecidableEq

def ApprovalDecision.status : ApprovalDecision → ApprovalStatus
  | .approved => .approved
  | .rejected => .rejected

/-- The statuses that `decide` accepts. -/
def ApprovalDecision.ofStatus : Option String → Option ApprovalDecision
  | some "APPROVED" => some .approved
  | some "REJECTED" => some .rejected
  | _ => none

/-- Where a request is, and what it has read. -/
inductive ApprovalProcess
  | saveRetention (username documentId reason : String)
  | exportAccessSnapshot (username id : String)
  | exportAudit (username format : String)
  | createAccount (username : String) (body : CreateAdmin)
  | addGroup (username : String) (body : CreateAdminGroup)
  /- `require`: the two counts, the two lookups and the new row -/
  | requireCounts (gated : GatedRequest) (accounts groups : Option Nat)
  | requireApproved (gated : GatedRequest)
  | requirePending (gated : GatedRequest)
  | requireCreate (gated : GatedRequest)
  /- past the gate -/
  | cleared (gated : GatedRequest) (approvalId : String)
  | audit (gated : GatedRequest) (approvalId : String)
  | execute (gated : GatedRequest) (approvalId : String)
  | respond (gated : GatedRequest) (approvalId : String)
  | requestSensitiveApproval (username : String) (target : SensitiveTarget) (reason : String)
  | requestCreate (username : String) (target : SensitiveTarget) (reason : String)
  | decideSensitiveApproval (username id : String) (status : ApprovalDecision)
  | decide (username id : String) (admin : Bool) (status : Option String)
  | decideUpdate (username id : String) (status : ApprovalDecision)
  /- any other administration of accounts and groups -/
  | administer (accounts : List AdminAccount) (groups : List AdminDirectoryGroup)
deriving DecidableEq

/-- What the environment chooses: the row that a query returns or the identifier
of a new row, and which of the two counts comes first. -/
inductive ApprovalChoice
  | proceed
  | row (id : String)
  | accounts
  | groups
deriving DecidableEq

/-! ## Statements -/

section Statements

variable (store : ApprovalStore)

def ApprovalStore.activeAccounts : Nat := store.accounts.countP (·.active)

def ApprovalStore.activeGroups : Nat := store.groups.countP (·.active)

/-- The filter of the lookups of `require`. -/
def GatedRequest.selects (gated : GatedRequest) (status : ApprovalStatus)
    (approval : SensitiveApproval) : Bool :=
  approval.target = gated.target ∧ approval.requestedBy = gated.username ∧
    approval.status = status

/-- `approvedAt` in descending order, null first. -/
def approvedAtDesc (left right : SensitiveApproval) : Prop :=
  match left.approvedAt, right.approvedAt with
  | none, _ => True
  | some _, none => False
  | some left, some right => right ≤ left

instance : DecidableRel approvedAtDesc := fun left right =>
  decidable_of_iff (left.approvedAt.all fun later => right.approvedAt.any (· ≤ later)) <| by
    unfold approvedAtDesc
    cases left.approvedAt <;> cases right.approvedAt <;> simp

/-- The rows that the first lookup of `require` may return. -/
def GatedRequest.answers (gated : GatedRequest) : List SensitiveApproval :=
  store.approvals.filter fun approval =>
    Query.IsFirst (gated.selects .approved) approvedAtDesc store.approvals approval

/-- A new pending row. -/
def ApprovalStore.createApproval (id : String) (target : SensitiveTarget)
    (requestedBy reason : String) : ApprovalStore where
  __ := store
  approvals := store.approvals ++ [⟨id, target, requestedBy, reason, .pending, none, none⟩]

/-- An identifier for a new row. -/
def ApprovalStore.Unused (id : String) : Prop :=
  id ≠ "" ∧ ∀ approval ∈ store.approvals, approval.id ≠ id

instance (id : String) : Decidable (store.Unused id) := inferInstanceAs (Decidable (_ ∧ _))

/-- The decision of a pending row. -/
def ApprovalStore.decideApproval (id username : String) (status : ApprovalDecision) :
    ApprovalStore where
  __ := store
  approvals := store.approvals.map fun approval =>
    if approval.id = id ∧ approval.status = .pending then
      { approval with
        status := status.status, approvedBy := some username, approvedAt := some store.clock }
    else approval

/-- `execute`: nothing for the empty identifier, otherwise whatever the status is. -/
def ApprovalStore.execute (id : String) : ApprovalStore where
  __ := store
  approvals :=
    if id = "" then store.approvals
    else Table.update SensitiveApproval.id id (fun approval => { approval with status := .executed })
      store.approvals

/-- The operation of a request has been performed. -/
def ApprovalStore.performed (gated : GatedRequest) (approvalId : String) : ApprovalStore where
  __ := store
  operations := ⟨gated.target, gated.username, approvalId⟩ :: store.operations

/-- The first place of `require`. -/
def GatedRequest.require (gated : GatedRequest) : ApprovalProcess :=
  if gated.target.operation = .broadPrivilege then .requireCounts gated none none
  else .requireApproved gated

/-- `require` after a count. -/
def GatedRequest.counted (gated : GatedRequest) : Option Nat → Option Nat → ApprovalProcess
  | some accounts, some groups =>
      if accounts + groups ≤ 1 then .cleared gated "" else .requireApproved gated
  | accounts, groups => .requireCounts gated accounts groups

/-- What is left of a request after `execute`. -/
def GatedRequest.afterExecute (gated : GatedRequest) (approvalId : String) :
    Option ApprovalProcess :=
  match gated.endpoint with
  | .exportAccessSnapshot | .exportAudit => some (.respond gated approvalId)
  | _ => none

/-- The statement of `execute`. The update of a missing row fails. -/
def executeStep (gated : GatedRequest) (approvalId : String) :
    Option ApprovalProcess × ApprovalStore :=
  if approvalId = "" ∨ ∃ approval ∈ store.approvals, approval.id = approvalId then
    (gated.afterExecute approvalId, store.execute approvalId)
  else (none, store)

/-- The statement after the gate. -/
def clearedStep (gated : GatedRequest) (approvalId : String) :
    Option ApprovalProcess × ApprovalStore :=
  match gated.endpoint with
  | .saveRetention documentId =>
      (some (.audit gated approvalId),
        if documentId ∈ store.policies then store.performed gated approvalId
        else { store with policies := store.policies ++ [documentId] })
  | .createAccount username role =>
      if ∃ account ∈ store.accounts, account.username = username then (none, store)
      else
        let created := { store with accounts := store.accounts ++ [⟨username, true⟩] }
        (some (.audit gated approvalId),
          if role = .moderator then created else created.performed gated approvalId)
  | .addGroup name distinguishedName role =>
      if ∃ group ∈ store.groups, group.name = name ∨ group.distinguishedName = distinguishedName then
        (none, store)
      else
        let created := { store with groups := store.groups ++ [⟨name, distinguishedName, true⟩] }
        (some (.audit gated approvalId),
          if role = .moderator then created else created.performed gated approvalId)
  | .exportAccessSnapshot => executeStep store gated approvalId
  | .exportAudit => (some (.execute gated approvalId), store)  -- the events are read

end Statements

/-! ## The program -/

section Program

variable (toLowerCase : String → String)

/-- Requests before the gate. -/
def retentionRequest (username documentId reason : String) : GatedRequest :=
  ⟨username, ⟨.retentionChange, "DOCUMENT", documentId⟩, JsString.trim reason,
    .saveRetention documentId⟩

def snapshotRequest (username : String) (snapshot : AccessSnapshot) : GatedRequest :=
  ⟨username, ⟨.sensitiveExport, "ACCESS_SNAPSHOT", snapshot.id⟩,
    "Export signed access snapshot " ++ snapshot.label, .exportAccessSnapshot⟩

def auditRequest (username format : String) : GatedRequest :=
  let normalizedFormat := if format = "csv" then "csv" else "json"
  ⟨username, ⟨.sensitiveExport, "AUDIT_LOG", normalizedFormat⟩,
    "Export audit log as " ++ normalizedFormat, .exportAudit⟩

def accountRequest (username : String) (body : CreateAdmin) : GatedRequest :=
  ⟨username, ⟨.broadPrivilege, "ADMIN_ACCOUNT", toLowerCase (JsString.trim body.username)⟩,
    JsString.trim body.justification,
    .createAccount (JsString.trim body.username) (body.role.getD .admin)⟩

def groupRequest (username : String) (body : CreateAdminGroup) : GatedRequest :=
  ⟨username, ⟨.broadPrivilege, "ADMIN_DIRECTORY_GROUP", toLowerCase body.distinguishedName⟩,
    JsString.trim body.justification,
    .addGroup body.name body.distinguishedName (body.role.getD .admin)⟩

/-- The read and the checks of both decision endpoints. -/
def decideRead (store : ApprovalStore) (username id : String) (status : ApprovalDecision) :
    Option ApprovalProcess :=
  match store.approvals.find? (·.id = id) with
  | none => none
  | some existing =>
      if existing.status ≠ .pending then none
      else if toLowerCase existing.requestedBy = toLowerCase username then none
      else some (.decideUpdate username id status)

/-- Run the next statement of a request. -/
def approvalAdvance (choice : ApprovalChoice) (store : ApprovalStore) :
    ApprovalProcess → Option (Option ApprovalProcess × ApprovalStore)
  | .saveRetention username documentId reason =>
      let gated := retentionRequest username documentId reason
      if documentId ∈ store.policies then some (some gated.require, store)
      else some (some (.cleared gated ""), store)
  | .exportAccessSnapshot username id =>
      match store.snapshots.find? (·.id = id) with
      | none => some (none, store)
      | some snapshot => some (some (snapshotRequest username snapshot).require, store)
  | .exportAudit username format => some (some (auditRequest username format).require, store)
  | .createAccount username body =>
      let gated := accountRequest toLowerCase username body
      if body.role = some .moderator then some (some (.cleared gated ""), store)
      else some (some gated.require, store)
  | .addGroup username body =>
      let gated := groupRequest toLowerCase username body
      if ∃ group ∈ store.groups, toLowerCase group.name = toLowerCase body.name ∨
          toLowerCase group.distinguishedName = toLowerCase body.distinguishedName then
        some (none, store)
      else if body.role = some .moderator then some (some (.cleared gated ""), store)
      else some (some gated.require, store)
  | .requireCounts gated accounts groups =>
      match choice, accounts, groups with
      | .accounts, none, _ => some (some (gated.counted (some store.activeAccounts) groups), store)
      | .groups, _, none => some (some (gated.counted accounts (some store.activeGroups)), store)
      | _, _, _ => none
  | .requireApproved gated =>
      if gated.answers store = [] then some (some (.requirePending gated), store)
      else
        match choice with
        | .row id =>
            if ∃ approval ∈ gated.answers store, approval.id = id then
              some (some (.cleared gated id), store)
            else none
        | _ => none
  | .requirePending gated =>
      if ∃ approval ∈ store.approvals, gated.selects .pending approval = true then some (none, store)
      else some (some (.requireCreate gated), store)
  | .requireCreate gated =>
      match choice with
      | .row id =>
          if store.Unused id then
            some (none, store.createApproval id gated.target gated.username gated.reason)
          else none
      | _ => none
  | .cleared gated approvalId => some (clearedStep store gated approvalId)
  | .audit gated approvalId => some (some (.execute gated approvalId), store)
  | .execute gated approvalId => some (executeStep store gated approvalId)
  | .respond gated approvalId => some (none, store.performed gated approvalId)
  | .requestSensitiveApproval username target reason =>
      if ∃ approval ∈ store.approvals, approval.target = target ∧ approval.status = .pending then
        some (none, store)  -- "Approval already pending"
      else some (some (.requestCreate username target reason), store)
  | .requestCreate username target reason =>
      match choice with
      | .row id =>
          if store.Unused id then
            some (none, store.createApproval id target username (JsString.trim reason))
          else none
      | _ => none
  | .decideSensitiveApproval username id status =>
      some (decideRead toLowerCase store username id status, store)
  | .decide username id admin status =>
      if admin = false then some (none, store)
      else
        match ApprovalDecision.ofStatus status with
        | none => some (none, store)
        | some decision => some (decideRead toLowerCase store username id decision, store)
  | .decideUpdate username id status => some (none, store.decideApproval id username status)
  | .administer accounts groups => some (none, { store with accounts, groups })

def ApprovalProcess.initial : ApprovalProcess → Bool
  | .saveRetention .. | .exportAccessSnapshot .. | .exportAudit .. | .createAccount ..
  | .addGroup .. | .requestSensitiveApproval .. | .decideSensitiveApproval .. | .decide ..
  | .administer .. => true
  | _ => false

def approvalProgram : Concurrent ApprovalStore ApprovalProcess ApprovalChoice where
  drift time store := if store.clock ≤ time then some { store with clock := time } else none
  start := ApprovalProcess.initial
  advance _ := approvalAdvance toLowerCase

abbrev ApprovalConfig : Type := Concurrent.Config ApprovalStore ApprovalProcess

abbrev ApprovalMove : Type := Concurrent.Move ApprovalProcess ApprovalChoice

/-- Runs from a database without approvals. -/
abbrev approvalSystem : System ApprovalConfig ApprovalMove :=
  (approvalProgram toLowerCase).system fun store => store.approvals = [] ∧ store.operations = []

end Program

/-! ## What a statement writes -/

section Writes

variable {toLowerCase : String → String} {choice : ApprovalChoice} {store after : ApprovalStore}
variable {process : ApprovalProcess} {remaining : Option ApprovalProcess}

theorem executeStep_approvals (store : ApprovalStore) (gated : GatedRequest)
    (approvalId : String) :
    (executeStep store gated approvalId).2.approvals = store.approvals ∨
      (approvalId ≠ "" ∧
        (executeStep store gated approvalId).2.approvals = (store.execute approvalId).approvals) := by
  unfold executeStep
  by_cases hempty : approvalId = ""
  · left
    simp [hempty, ApprovalStore.execute]
  · split
    · exact .inr ⟨hempty, rfl⟩
    · exact .inl rfl

theorem clearedStep_approvals (store : ApprovalStore) (gated : GatedRequest)
    (approvalId : String) :
    (clearedStep store gated approvalId).2.approvals = store.approvals ∨
      (approvalId ≠ "" ∧
        (clearedStep store gated approvalId).2.approvals = (store.execute approvalId).approvals) := by
  unfold clearedStep
  split
  · left
    dsimp only
    split <;> rfl
  · left
    split
    · rfl
    · dsimp only
      split <;> rfl
  · left
    split
    · rfl
    · dsimp only
      split <;> rfl
  · exact executeStep_approvals store gated approvalId
  · exact .inl rfl

/-- A statement leaves the approvals alone, creates a pending one, decides one,
or executes the one that cleared the request. -/
theorem approvalAdvance_approvals
    (hadvance : approvalAdvance toLowerCase choice store process = some (remaining, after)) :
    after.approvals = store.approvals ∨
      (∃ id target requestedBy reason, store.Unused id ∧
        after.approvals = (store.createApproval id target requestedBy reason).approvals) ∨
      (∃ username id status, process = .decideUpdate username id status ∧
        after.approvals = (store.decideApproval id username status).approvals) ∨
      ∃ gated approvalId, (process = .cleared gated approvalId ∨ process = .execute gated approvalId) ∧
        approvalId ≠ "" ∧ after.approvals = (store.execute approvalId).approvals := by
  cases process with
  | cleared gated approvalId =>
      simp only [approvalAdvance, Option.some.injEq] at hadvance
      rcases clearedStep_approvals store gated approvalId with hsame | ⟨hid, hexecuted⟩
      · exact .inl (by rw [← hsame, hadvance])
      · exact .inr (.inr (.inr ⟨gated, approvalId, .inl rfl, hid, by rw [← hexecuted, hadvance]⟩))
  | execute gated approvalId =>
      simp only [approvalAdvance, Option.some.injEq] at hadvance
      rcases executeStep_approvals store gated approvalId with hsame | ⟨hid, hexecuted⟩
      · exact .inl (by rw [← hsame, hadvance])
      · exact .inr (.inr (.inr ⟨gated, approvalId, .inr rfl, hid, by rw [← hexecuted, hadvance]⟩))
  | requireCreate gated =>
      simp only [approvalAdvance] at hadvance
      split at hadvance
      next id =>
        split at hadvance
        next hunused =>
          cases hadvance
          exact .inr (.inl ⟨_, _, _, _, hunused, rfl⟩)
        next => cases hadvance
      next => cases hadvance
  | requestCreate username target reason =>
      simp only [approvalAdvance] at hadvance
      split at hadvance
      next id =>
        split at hadvance
        next hunused =>
          cases hadvance
          exact .inr (.inl ⟨_, _, _, _, hunused, rfl⟩)
        next => cases hadvance
      next => cases hadvance
  | decideUpdate username id status =>
      cases hadvance
      exact .inr (.inr (.inl ⟨_, _, _, rfl, rfl⟩))
  | _ =>
      left
      simp only [approvalAdvance] at hadvance
      repeat' split at hadvance
      all_goals cases hadvance
      all_goals rfl

end Writes

/-! ## Where a request goes -/

/-- Endpoints that perform their operation right after the gate. -/
def GatedEndpoint.operatesFirst : GatedEndpoint → Bool
  | .saveRetention _ | .createAccount _ _ | .addGroup _ _ _ => true
  | .exportAccessSnapshot | .exportAudit => false

/-- Requests that need no approval: the first policy of a document, and moderators. -/
def GatedRequest.Ungated (gated : GatedRequest) (store : ApprovalStore) : Prop :=
  match gated.endpoint with
  | .saveRetention documentId => documentId ∉ store.policies
  | .createAccount _ role | .addGroup _ _ role =>
      gated.target.operation = .broadPrivilege ∧ role = .moderator
  | .exportAccessSnapshot | .exportAudit => False

/-- The places a statement can lead to. -/
inductive GateStep (toLowerCase : String → String) (store : ApprovalStore) :
    ApprovalProcess → ApprovalProcess → Prop
  | gate {process : ApprovalProcess} (gated : GatedRequest) (hinitial : process.initial = true) :
      GateStep toLowerCase store process gated.require
  | ungated {process : ApprovalProcess} (gated : GatedRequest) (hinitial : process.initial = true)
      (hungated : gated.Ungated store) :
      GateStep toLowerCase store process (.cleared gated "")
  | countAccounts (gated : GatedRequest) (groups : Option Nat) :
      GateStep toLowerCase store (.requireCounts gated none groups)
        (gated.counted (some store.activeAccounts) groups)
  | countGroups (gated : GatedRequest) (accounts : Option Nat) :
      GateStep toLowerCase store (.requireCounts gated accounts none)
        (gated.counted accounts (some store.activeGroups))
  | approved (gated : GatedRequest) (approval : SensitiveApproval)
      (hanswer : approval ∈ gated.answers store) :
      GateStep toLowerCase store (.requireApproved gated) (.cleared gated approval.id)
  | pending (gated : GatedRequest) :
      GateStep toLowerCase store (.requireApproved gated) (.requirePending gated)
  | create (gated : GatedRequest) :
      GateStep toLowerCase store (.requirePending gated) (.requireCreate gated)
  | operated (gated : GatedRequest) (approvalId : String)
      (hendpoint : gated.endpoint.operatesFirst = true) :
      GateStep toLowerCase store (.cleared gated approvalId) (.audit gated approvalId)
  | read (gated : GatedRequest) (approvalId : String)
      (hendpoint : gated.endpoint.operatesFirst = false) :
      GateStep toLowerCase store (.cleared gated approvalId) (.execute gated approvalId)
  | executed {process : ApprovalProcess} (gated : GatedRequest) (approvalId : String)
      (hprocess : process = .cleared gated approvalId ∨ process = .execute gated approvalId)
      (hendpoint : gated.endpoint.operatesFirst = false) :
      GateStep toLowerCase store process (.respond gated approvalId)
  | audited (gated : GatedRequest) (approvalId : String) :
      GateStep toLowerCase store (.audit gated approvalId) (.execute gated approvalId)
  | request (username : String) (target : SensitiveTarget) (reason : String) :
      GateStep toLowerCase store (.requestSensitiveApproval username target reason)
        (.requestCreate username target reason)
  | decide {process : ApprovalProcess} (username : String) (status : ApprovalDecision)
      (existing : SensitiveApproval) (hinitial : process.initial = true)
      (hexisting : existing ∈ store.approvals)
      (hother : toLowerCase existing.requestedBy ≠ toLowerCase username) :
      GateStep toLowerCase store process (.decideUpdate username existing.id status)

section Steps

variable {toLowerCase : String → String} {choice : ApprovalChoice} {store after : ApprovalStore}
variable {process process' : ApprovalProcess}

theorem executeStep_next {gated : GatedRequest} {approvalId : String}
    (hstep : (executeStep store gated approvalId).1 = some process') :
    process' = .respond gated approvalId ∧ gated.endpoint.operatesFirst = false := by
  unfold executeStep at hstep
  split at hstep
  · unfold GatedRequest.afterExecute at hstep
    split at hstep
    next hendpoint =>
      cases hstep
      exact ⟨rfl, by rw [hendpoint]; rfl⟩
    next hendpoint =>
      cases hstep
      exact ⟨rfl, by rw [hendpoint]; rfl⟩
    next => cases hstep
  · cases hstep

theorem clearedStep_next {gated : GatedRequest} {approvalId : String}
    (hstep : (clearedStep store gated approvalId).1 = some process') :
    GateStep toLowerCase store (.cleared gated approvalId) process' := by
  unfold clearedStep at hstep
  split at hstep
  next hendpoint =>
    cases hstep
    exact .operated gated approvalId (by rw [hendpoint]; rfl)
  next hendpoint =>
    split at hstep <;> cases hstep
    exact .operated gated approvalId (by rw [hendpoint]; rfl)
  next hendpoint =>
    split at hstep <;> cases hstep
    exact .operated gated approvalId (by rw [hendpoint]; rfl)
  next =>
    obtain ⟨rfl, hendpoint⟩ := executeStep_next hstep
    exact .executed gated approvalId (.inl rfl) hendpoint
  next hendpoint =>
    cases hstep
    exact .read gated approvalId (by rw [hendpoint]; rfl)

theorem decideRead_next {username id : String} {status : ApprovalDecision}
    (hinitial : process.initial = true)
    (hread : decideRead toLowerCase store username id status = some process') :
    GateStep toLowerCase store process process' := by
  unfold decideRead at hread
  split at hread
  · cases hread
  next existing hfound =>
    have hid : existing.id = id := by simpa using List.find?_some hfound
    subst hid
    split at hread
    · cases hread
    split at hread
    · cases hread
    next hother =>
      cases hread
      exact .decide username status existing hinitial (List.mem_of_find?_eq_some hfound) hother

/-- What a statement leads to. -/
theorem approvalAdvance_next
    (hadvance : approvalAdvance toLowerCase choice store process = some (some process', after)) :
    GateStep toLowerCase store process process' := by
  cases process with
  | saveRetention username documentId reason =>
      simp only [approvalAdvance] at hadvance
      split at hadvance <;> cases hadvance
      · exact .gate _ rfl
      next hpolicy => exact .ungated _ rfl hpolicy
  | exportAccessSnapshot username id =>
      simp only [approvalAdvance] at hadvance
      split at hadvance <;> cases hadvance
      exact .gate _ rfl
  | exportAudit username format =>
      cases hadvance
      exact .gate _ rfl
  | createAccount username body =>
      simp only [approvalAdvance] at hadvance
      split at hadvance <;> cases hadvance
      next hrole => exact .ungated _ rfl ⟨rfl, by simp [hrole]⟩
      · exact .gate _ rfl
  | addGroup username body =>
      simp only [approvalAdvance] at hadvance
      split at hadvance
      · cases hadvance
      split at hadvance <;> cases hadvance
      next hrole => exact .ungated _ rfl ⟨rfl, by simp [hrole]⟩
      · exact .gate _ rfl
  | requireCounts gated accounts groups =>
      simp only [approvalAdvance] at hadvance
      split at hadvance <;> cases hadvance
      · exact .countAccounts gated groups
      · exact .countGroups gated accounts
  | requireApproved gated =>
      simp only [approvalAdvance] at hadvance
      split at hadvance
      · cases hadvance
        exact .pending gated
      split at hadvance
      next id =>
        split at hadvance <;> cases hadvance
        next hfound =>
          obtain ⟨approval, hanswer, rfl⟩ := hfound
          exact .approved gated approval hanswer
      next => cases hadvance
  | requirePending gated =>
      simp only [approvalAdvance] at hadvance
      split at hadvance <;> cases hadvance
      exact .create gated
  | cleared gated approvalId =>
      simp only [approvalAdvance, Option.some.injEq] at hadvance
      exact clearedStep_next (congrArg Prod.fst hadvance)
  | audit gated approvalId =>
      cases hadvance
      exact .audited gated approvalId
  | execute gated approvalId =>
      simp only [approvalAdvance, Option.some.injEq] at hadvance
      obtain ⟨rfl, hendpoint⟩ := executeStep_next (congrArg Prod.fst hadvance)
      exact .executed gated approvalId (.inr rfl) hendpoint
  | requestSensitiveApproval username target reason =>
      simp only [approvalAdvance] at hadvance
      split at hadvance <;> cases hadvance
      exact .request username target reason
  | decideSensitiveApproval username id status =>
      simp only [approvalAdvance, Option.some.injEq, Prod.mk.injEq] at hadvance
      exact decideRead_next rfl hadvance.1
  | decide username id admin status =>
      simp only [approvalAdvance] at hadvance
      split at hadvance
      · cases hadvance
      split at hadvance
      · cases hadvance
      simp only [Option.some.injEq, Prod.mk.injEq] at hadvance
      exact decideRead_next rfl hadvance.1
  | requireCreate gated =>
      simp only [approvalAdvance] at hadvance
      split at hadvance
      · split at hadvance <;> cases hadvance
      · cases hadvance
  | requestCreate username target reason =>
      simp only [approvalAdvance] at hadvance
      split at hadvance
      · split at hadvance <;> cases hadvance
      · cases hadvance
  | respond gated approvalId => cases hadvance
  | decideUpdate username id status => cases hadvance
  | administer accounts groups => cases hadvance

theorem mem_answers {gated : GatedRequest} {approval : SensitiveApproval}
    (hanswer : approval ∈ gated.answers store) :
    approval ∈ store.approvals ∧ approval.target = gated.target ∧
      approval.requestedBy = gated.username ∧ approval.status = .approved := by
  simp only [GatedRequest.answers, List.mem_filter, decide_eq_true_eq] at hanswer
  obtain ⟨happroval, -, hselected, -⟩ := hanswer
  simp only [GatedRequest.selects, decide_eq_true_eq] at hselected
  exact ⟨happroval, hselected⟩

end Steps

end IsmsPortal
