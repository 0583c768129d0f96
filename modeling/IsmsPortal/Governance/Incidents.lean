import IsmsPortal.Foundation.Checks
import IsmsPortal.Foundation.Interleaving
import IsmsPortal.Foundation.JsString
import Mathlib.Data.List.Dedup

/-! # Incidents and their root causes

Incidents are created and updated one by one, and the status of several is set by a
bulk operation. An update that resolves or closes an incident has to give a root
cause; a bulk operation checks the causes that it reads in its preview, and then
updates the incidents by their ids. The creation of an incident checks nothing.
-/

namespace IsmsPortal

open Foundation

inductive IncidentSeverity
  | low
  | medium
  | high
  | critical
deriving DecidableEq

inductive IncidentStatus
  | opened
  | investigating
  | contained
  | resolved
  | closed
deriving DecidableEq

/-- `RESOLVED` or `CLOSED`. -/
def IncidentStatus.isFinal : IncidentStatus → Bool
  | .resolved | .closed => true
  | .opened | .investigating | .contained => false

/-- The names of the statuses, as a bulk operation gives them. -/
def incidentStatuses : List (String × IncidentStatus) :=
  [("OPEN", .opened), ("INVESTIGATING", .investigating), ("CONTAINED", .contained),
    ("RESOLVED", .resolved), ("CLOSED", .closed)]

/-- A row of `IncidentCase`. -/
structure IncidentCase where
  id : String
  reference : String
  title : String
  severity : IncidentSeverity
  status : IncidentStatus
  owner : String
  occurredAt : Int
  rootCause : Option String
  lessonsLearned : Option String
deriving DecidableEq

/-- The body of a creation or an update. -/
structure IncidentCaseDto where
  reference : String
  title : String
  severity : IncidentSeverity
  status : IncidentStatus
  owner : String
  occurredAt : Int
  rootCause : Option String
  lessonsLearned : Option String
deriving DecidableEq

structure GovernanceBulkDto where
  ids : List String
  value : String
  confirmed : Bool
deriving DecidableEq

structure IncidentStore where
  incidents : List IncidentCase
deriving DecidableEq

/-- Where a request is, and what it has checked. -/
inductive IncidentProcess
  | createIncident (body : IncidentCaseDto)
  | updateIncident (id : String) (body : IncidentCaseDto)
  | updateIncidentWrite (id : String) (body : IncidentCaseDto)
  | bulkApply (body : GovernanceBulkDto)
  | bulkApplyWrite (ids : List String) (status : IncidentStatus)
deriving DecidableEq

/-! ## Endpoints -/

/-- `value?.trim() || null`. -/
def clean (value : Option String) : Option String := (value.map JsString.trim).filter (· ≠ "")

/-- The check of `updateIncident`. -/
def checkUpdate (body : IncidentCaseDto) (existing : Option IncidentCase) :
    Except String Unit := do
  let some _ := existing | throw "Not Found"
  if body.status.isFinal = true ∧ clean body.rootCause = none then
    throw "Resolved incidents require a root cause"

/-- `previewBulk`, the distinct ids and the status. -/
def previewBulk (body : GovernanceBulkDto) (incidents : List IncidentCase) :
    Except String IncidentStatus := do
  let ids := body.ids.dedup
  if ids.isEmpty then throw "Select at least one item"
  let some status := incidentStatuses.lookup body.value | throw "Invalid incident status"
  let targets := incidents.filter (·.id ∈ ids)
  if targets.length ≠ ids.length then throw "One or more incidents do not exist"
  if status.isFinal = true ∧ targets.any (fun target => clean target.rootCause = none) then
    throw "Every resolved incident requires a root cause"
  return status

/-- The checks of `bulkApply`. -/
def checkBulk (body : GovernanceBulkDto) (incidents : List IncidentCase) :
    Except String IncidentStatus := do
  if body.confirmed = false then throw "Bulk operation requires confirmation"
  previewBulk body incidents

section Program

variable (toUpperCase : String → String)

/-- The row that a body writes. -/
def IncidentCaseDto.row (id : String) (body : IncidentCaseDto) : IncidentCase where
  id := id
  reference := toUpperCase (JsString.trim body.reference)
  title := JsString.trim body.title
  severity := body.severity
  status := body.status
  owner := JsString.trim body.owner
  occurredAt := body.occurredAt
  rootCause := clean body.rootCause
  lessonsLearned := clean body.lessonsLearned

/-- The reference belongs to another incident; the database refuses it. -/
def IncidentStore.conflicts (store : IncidentStore) (id : Option String)
    (body : IncidentCaseDto) : Bool :=
  store.incidents.any fun incident => some incident.id ≠ id ∧
    incident.reference = toUpperCase (JsString.trim body.reference)

/-- Run the next statement of a process. The choice is the id of a new incident. -/
def incidentAdvance (new : String) (store : IncidentStore) :
    IncidentProcess → Option (Option IncidentProcess × IncidentStore)
  | .createIncident body =>
      if store.conflicts toUpperCase none body then
        some (none, store)  -- "Incident reference already exists"
      else if store.incidents.any (·.id = new) then none
      else some (none, ⟨store.incidents ++ [body.row toUpperCase new]⟩)
  | .updateIncident id body =>
      some ((checkUpdate body (store.incidents.find? (·.id = id))).toOption.map fun _ =>
        .updateIncidentWrite id body, store)
  | .updateIncidentWrite id body =>
      if store.conflicts toUpperCase (some id) body then some (none, store)
      else some (none, ⟨store.incidents.map fun incident =>
        if incident.id = id then body.row toUpperCase id else incident⟩)
  | .bulkApply body =>
      some ((checkBulk body store.incidents).toOption.map (.bulkApplyWrite body.ids), store)
  | .bulkApplyWrite ids status =>
      some (none, ⟨store.incidents.map fun incident =>
        if incident.id ∈ ids then { incident with status } else incident⟩)

end Program

def IncidentProcess.initial : IncidentProcess → Bool
  | .createIncident _ | .updateIncident .. | .bulkApply _ => true
  | _ => false

/-- No statement reads the clock. -/
def incidentProgram (toUpperCase : String → String) :
    Concurrent IncidentStore IncidentProcess String where
  drift _ store := some store
  start := IncidentProcess.initial
  advance _ := incidentAdvance toUpperCase

abbrev IncidentConfig : Type := Concurrent.Config IncidentStore IncidentProcess

abbrev IncidentMove : Type := Concurrent.Move IncidentProcess String

/-- Runs from an empty table. -/
abbrev incidentSystem (toUpperCase : String → String) : System IncidentConfig IncidentMove :=
  (incidentProgram toUpperCase).system fun store => store.incidents = []

/-- A text that is there and not blank. -/
def NonBlank (text : Option String) : Prop := ∃ cause, text = some cause ∧ JsString.trim cause ≠ ""

/-- A resolved or closed incident has a root cause. -/
def IncidentCase.Explained (incident : IncidentCase) : Prop :=
  incident.status.isFinal = true → NonBlank incident.rootCause

/-- An incident that is created resolved or closed has a root cause, unless its reference
is taken; and so has every incident when a bulk operation resolves or closes it. -/
def Caused (toUpperCase : String → String) (config : IncidentConfig) : IncidentProcess → Prop
  | .createIncident body => body.status.isFinal = true → clean body.rootCause ≠ none ∨
      config.store.conflicts toUpperCase none body = true
  | .bulkApplyWrite ids status => status.isFinal = true →
      ∀ incident ∈ config.store.incidents, incident.id ∈ ids → clean incident.rootCause ≠ none
  | _ => True

instance (toUpperCase : String → String) (config : IncidentConfig) (process : IncidentProcess) :
    Decidable (Caused toUpperCase config process) :=
  match process with
  | .createIncident body => inferInstanceAs (Decidable (body.status.isFinal = true →
      clean body.rootCause ≠ none ∨ config.store.conflicts toUpperCase none body = true))
  | .bulkApplyWrite ids status => inferInstanceAs (Decidable (status.isFinal = true →
      ∀ incident ∈ config.store.incidents, incident.id ∈ ids → clean incident.rootCause ≠ none))
  | .updateIncident .. | .updateIncidentWrite .. | .bulkApply .. => .isTrue trivial

/-! ## One statement -/

section Steps

variable {toUpperCase : String → String} {new : String} {store after : IncidentStore}
variable {process : IncidentProcess} {remaining : Option IncidentProcess}

/-- A text that cleaning leaves is not blank. -/
theorem nonBlank_of_clean {value : Option String} (hclean : clean value ≠ none) :
    NonBlank value := by
  cases value with
  | none => exact absurd rfl hclean
  | some cause =>
      refine ⟨cause, rfl, fun hblank => hclean ?_⟩
      simp [clean, hblank]

/-- Cleaning leaves no blank text. -/
theorem nonBlank_clean {value : Option String} (hclean : clean value ≠ none) :
    NonBlank (clean value) := by
  obtain ⟨cause, rfl, hcause⟩ := nonBlank_of_clean hclean
  refine ⟨JsString.trim cause, ?_, ?_⟩
  · simp [clean, hcause]
  · rw [JsString.trim_trim]
    exact hcause

/-- What an update has checked. -/
def IncidentProcess.Checked : IncidentProcess → Prop
  | .updateIncidentWrite _ body => body.status.isFinal = true → clean body.rootCause ≠ none
  | _ => True

theorem checkUpdate_accepts {body : IncidentCaseDto} {existing : Option IncidentCase}
    (hcheck : checkUpdate body existing = .ok ()) (hfinal : body.status.isFinal = true) :
    clean body.rootCause ≠ none := by
  unfold checkUpdate at hcheck
  cases existing with
  | none => cases hcheck
  | some incident =>
      simp only at hcheck
      split at hcheck
      next => cases hcheck
      next hnot => exact fun hnone => hnot ⟨hfinal, hnone⟩

theorem IncidentProcess.Checked.advance
    (hadvance : incidentAdvance toUpperCase new store process = some (remaining, after)) :
    ∀ next, remaining = some next → next.Checked := by
  intro next hnext
  cases process with
  | createIncident body =>
      simp only [incidentAdvance] at hadvance
      split at hadvance
      · cases hadvance
        cases hnext
      · split at hadvance <;> cases hadvance
        cases hnext
  | updateIncident id body =>
      cases hadvance
      obtain ⟨_, hcheck, rfl⟩ := Option.map_eq_some_iff.mp hnext
      exact checkUpdate_accepts (Checks.toOption_eq_some.mp hcheck)
  | updateIncidentWrite id body =>
      simp only [incidentAdvance] at hadvance
      split at hadvance <;> cases hadvance <;> cases hnext
  | bulkApply body =>
      cases hadvance
      obtain ⟨status, -, rfl⟩ := Option.map_eq_some_iff.mp hnext
      trivial
  | bulkApplyWrite ids status =>
      cases hadvance
      cases hnext

/-- A statement that meets the condition leaves every incident explained. -/
theorem incidentAdvance_explained {config : IncidentConfig}
    (hexplained : ∀ incident ∈ config.store.incidents, incident.Explained)
    (hchecked : process.Checked) (hcaused : Caused toUpperCase config process)
    (hadvance : incidentAdvance toUpperCase new config.store process = some (remaining, after)) :
    ∀ incident ∈ after.incidents, incident.Explained := by
  intro incident hincident
  cases process with
  | createIncident body =>
      simp only [incidentAdvance] at hadvance
      split at hadvance
      next =>
        cases hadvance
        exact hexplained incident hincident
      next hfree =>
        split at hadvance <;> cases hadvance
        rcases List.mem_append.mp hincident with hold | hcreated
        · exact hexplained incident hold
        · rw [List.mem_singleton.mp hcreated]
          intro hfinal
          exact nonBlank_clean ((hcaused hfinal).resolve_right hfree)
  | updateIncident id body =>
      cases hadvance
      exact hexplained incident hincident
  | updateIncidentWrite id body =>
      simp only [incidentAdvance] at hadvance
      split at hadvance
      next =>
        cases hadvance
        exact hexplained incident hincident
      next =>
        cases hadvance
        obtain ⟨old, hold, rfl⟩ := List.mem_map.mp hincident
        split
        next => exact fun hfinal => nonBlank_clean (hchecked hfinal)
        next => exact hexplained old hold
  | bulkApply body =>
      cases hadvance
      exact hexplained incident hincident
  | bulkApplyWrite ids status =>
      cases hadvance
      obtain ⟨old, hold, rfl⟩ := List.mem_map.mp hincident
      split
      next hid => exact fun hfinal => nonBlank_of_clean (hcaused hfinal old hold hid)
      next => exact hexplained old hold

end Steps

/-! ## Runs -/

/-- Every update in flight has checked its root cause. -/
def incidentOutline : Concurrent.Outline IncidentStore IncidentProcess where
  invariant store := ∀ incident ∈ store.incidents, incident.Explained
  assertion _ _ process := process.Checked

theorem incidentOutline_valid (toUpperCase : String → String) :
    incidentOutline.Valid (incidentProgram toUpperCase) (fun store => store.incidents = [])
      (Concurrent.Guarded (Caused toUpperCase)) where
  init := by
    intro store hempty incident hincident
    rw [hempty] at hincident
    cases hincident
  drift := by
    intro time store after hdrift hexplained
    cases hdrift
    exact ⟨hexplained, fun _ _ hchecked => hchecked⟩
  start := by
    intro name store process hstart _
    cases process <;> trivial
  own := by
    intro config name new process remaining after hholds hprocess hguarded hadvance
    have hchecked := hholds.2 name process hprocess
    exact ⟨incidentAdvance_explained hholds.1 hchecked (hguarded process hprocess) hadvance,
      IncidentProcess.Checked.advance hadvance⟩
  others := by
    intro config name new process remaining after hholds _ _ _ other process' _ hother
    exact hholds.2 other process' hother

/-- **Root causes.** In every run in which incidents are created resolved with a root
cause, and bulk operations find one wherever they resolve, every resolved or closed
incident has a root cause. -/
theorem resolved_incidents_explained {toUpperCase : String → String} {config : IncidentConfig}
    (hreach : (incidentSystem toUpperCase).ReachableWhile
      (Concurrent.Guarded (Caused toUpperCase)) config) :
    ∀ incident ∈ config.store.incidents,
      incident.status = .resolved ∨ incident.status = .closed →
      ∃ cause, incident.rootCause = some cause ∧ JsString.trim cause ≠ "" := by
  intro incident hincident hstatus
  apply ((incidentOutline_valid toUpperCase).holds hreach).1 incident hincident
  rcases hstatus with hresolved | hclosed
  · rw [hresolved]
    rfl
  · rw [hclosed]
    rfl

/-! ## Sample -/

/-- A report of a phishing incident. -/
def phishing (status : IncidentStatus) (rootCause : Option String) : IncidentCaseDto :=
  ⟨"INC-1", "Phishing", .high, status, "alice", 0, rootCause, none⟩

theorem reachable_noIncidents {allowed : IncidentConfig → IncidentMove → Prop} :
    (incidentSystem String.toUpper).ReachableWhile allowed (Concurrent.idle ⟨[]⟩) :=
  .init ⟨rfl, fun _ => rfl⟩

/-- The incident is created with a cause, and resolved by a bulk operation. -/
theorem resolved_incidents_explained_bulk :
    ∃ config, (incidentSystem String.toUpper).ReachableWhile
        (Concurrent.Guarded (Caused String.toUpper)) config ∧
      config.store = ⟨[(phishing .resolved (some "Weak filter")).row String.toUpper "1"]⟩ ∧
      ∀ incident ∈ config.store.incidents,
        incident.status = .resolved ∨ incident.status = .closed →
        ∃ cause, incident.rootCause = some cause ∧ JsString.trim cause ≠ "" := by
  have hrun : (Concurrent.executeNamed (incidentProgram String.toUpper) [0]
      (Concurrent.isGuarded (Caused String.toUpper)) (Concurrent.idle ⟨[]⟩)
      [.start 0 (.createIncident (phishing .opened (some "Weak filter"))), .advance 0 "1",
        .start 0 (.bulkApply ⟨["1"], "RESOLVED", true⟩), .advance 0 "", .advance 0 ""]).bind
        (Concurrent.settled [0]) =
        some ⟨[(phishing .resolved (some "Weak filter")).row String.toUpper "1"]⟩ := by
    decide +kernel
  have hreach := Concurrent.reachable_settled
    (fun _ _ _ hguarded => Concurrent.guarded_of_isGuarded hguarded) _ reachable_noIncidents hrun
  exact ⟨_, hreach, rfl, resolved_incidents_explained hreach⟩

/-- An incident is created resolved, without a root cause. -/
theorem incident_created_resolved :
    ∃ config, (incidentSystem String.toUpper).Reachable config ∧
      ∃ incident ∈ config.store.incidents, incident.status = .resolved ∧
        incident.rootCause = none := by
  have hrun : (Concurrent.executeNamed (incidentProgram String.toUpper) [0] (fun _ _ => true)
      (Concurrent.idle ⟨[]⟩)
      [.start 0 (.createIncident (phishing .resolved none)), .advance 0 "1"]).bind
        (Concurrent.settled [0]) =
        some ⟨[(phishing .resolved none).row String.toUpper "1"]⟩ := by
    decide +kernel
  have hreach := Concurrent.reachable_settled (fun _ _ _ _ => trivial) _ reachable_noIncidents hrun
  exact ⟨_, hreach, _, List.mem_cons_self, rfl, rfl⟩

end IsmsPortal
