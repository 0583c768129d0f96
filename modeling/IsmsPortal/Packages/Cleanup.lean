import IsmsPortal.Foundation.Checks
import IsmsPortal.Foundation.Interaction
import IsmsPortal.Foundation.JsString
import IsmsPortal.Foundation.Json
import IsmsPortal.Foundation.Throughout
import IsmsPortal.Foundation.Utf8
import Mathlib.Data.List.Infix

/-! # Removal of a previous image

A workflow deletes one published version of each of two packages. What the service answers may be
anything, also something else at each call. Nothing is deleted unless both packages were looked at,
and each version only after a look at the package in the call before: the version is the only one
that carries the old commit, it carries nothing else, and it is not the one that is current.
-/

namespace Packages.Cleanup

open Foundation

/-! ## What the service answers -/

/-- `version.id`, a whole number or anything else. -/
inductive Id
  | number (value : Int)
  | other (text : String)
deriving DecidableEq, Repr

/-- An identifier in a path. -/
def Id.text : Id → String
  | number value => toString value
  | other text => text

/-- `Number.isSafeInteger(id) && id > 0`. -/
def Id.isPositive : Id → Bool
  | number value => 0 < value ∧ value ≤ 9007199254740991
  | other _ => false

/-- The tags of a version should be a list, but a text has what the program asks of them too. -/
inductive Tags
  | list (tags : List String)
  | text (tags : String)
deriving DecidableEq, Repr

/-- `tags.includes(tag)`, of a text whether the tag is a part of it. -/
def Tags.includes : Tags → String → Bool
  | list tags, tag => tags.contains tag
  | text tags, tag => decide (tag.toList <:+: tags.toList)

/-- `tags.length === 1 && tags[0] === tag`. -/
def Tags.isOnly : Tags → String → Bool
  | list tags, tag => tags = [tag]
  | text tags, tag => JsString.length tags = 1 ∧ tags = tag

structure Version where
  id : Id
  name : String
  containerTags : Option Tags
deriving DecidableEq, Repr

/-- `version.metadata?.container?.tags ?? []`. -/
def Version.tags (version : Version) : Tags := version.containerTags.getD (.list [])

/-- `pkg.repository?.full_name`. -/
structure Package where
  repository : Option String
deriving DecidableEq, Repr

structure Run where
  headSha : String
  status : String
  conclusion : Option String
deriving DecidableEq, Repr

structure Owner where
  type : String
  login : String
deriving DecidableEq, Repr

inductive Resource
  | repository
  | commit
  | runs
  | package
  | versions
  | version

/-- What a response says of a resource; of a version it only counts whether it is true. -/
def Resource.Body : Resource → Type
  | repository => Owner
  | commit => String
  | runs => List Run
  | package => Package
  | versions => List Version
  | version => Json

/-- What comes of a request; the body is read only where it is needed. -/
inductive Response (Body : Type)
  | unreachable (message : String)
  | answered (status : Nat) (body : Except String Body)

inductive Op
  | get (resource : Resource) (path : String)
  | delete (path : String)
  | append (file line : String)

def Op.Answer : Op → Type
  | get resource _ => Response resource.Body
  | delete _ => Response Unit
  | append _ _ => Except String Unit

abbrev Attempt := ExceptT String (Calls Op Op.Answer)

abbrev Trace := List (Calls.Event Op Op.Answer)

/-! ## The plan -/

structure Plan where
  id : Id
  digest : String
  latestId : Id
deriving DecidableEq, Repr

/-- `/^[a-f0-9]{40}$/`. -/
def isHash (text : String) : Bool :=
  text.toList.length = 40 &&
    text.toList.all fun c => ('a' ≤ c && c ≤ 'f') || ('0' ≤ c && c ≤ '9')

/-- A property of a body, which there may be none of. -/
def required {Body : Type} (property : String) : Option Body → Except String Body
  | some body => .ok body
  | none => .error ("Cannot read properties of null (reading '" ++ property ++ "')")

def cleanupPlan (pkg : Option Package) (versions : Option (List Version))
    (repository currentSha oldTag : String) : Except String Plan := do
  unless isHash currentSha ∧ isHash oldTag ∧ oldTag ≠ currentSha do
    throw "Distinct full commit hashes are required"
  let pkg ← required "repository" pkg
  unless pkg.repository = some repository do
    throw "Package belongs to another repository"
  let versions ← required "filter" versions
  let [latest] := versions.filter fun version => version.tags.includes "latest"
    | throw "Latest publication is not the current main commit"
  unless latest.tags.includes currentSha do
    throw "Latest publication is not the current main commit"
  let [old] := versions.filter fun version => version.tags.includes oldTag
    | throw "Exactly one previous tagged version must exist"
  unless old.id.isPositive ∧ old.id ≠ latest.id ∧ old.name ≠ latest.name do
    throw "Cannot delete the current image"
  unless old.tags.isOnly oldTag do
    throw "Previous image still has protected tags"
  return ⟨old.id, old.name, latest.id⟩

/-! ## The program -/

/-- The variables of the workflow, of which `token` is only sent along. -/
structure Environment where
  token : Option String
  repository : Option String
  currentSha : Option String
  oldTag : Option String
  stepSummary : Option String

structure Context where
  repository : String
  currentSha : String
  oldTag : String
  stepSummary : Option String

/-- A variable that is set, and not to an empty text. -/
def given (value : Option String) : Option String := value.filter (· ≠ "")

def Environment.context (environment : Environment) : Except String Context :=
  match given environment.token, given environment.repository, given environment.currentSha,
    given environment.oldTag with
  | some _, some repository, some currentSha, some oldTag =>
      .ok ⟨repository, currentSha, oldTag, given environment.stepSummary⟩
  | _, _, _, _ => .error "Missing workflow context"

/-- What `api` makes of a response. -/
def readResponse {Body : Type} (method : String) (missing : Bool) :
    Response Body → Except String (Option Body)
  | .unreachable message => .error message
  | .answered status body =>
      if missing ∧ status = 404 then .ok none
      else if ¬(200 ≤ status ∧ status ≤ 299) then
        .error ("GitHub API " ++ method ++ " failed: HTTP " ++ toString status)
      else if status = 204 then .ok none
      else body.map some

/-- `api(path, "GET", missing)`. -/
def api (resource : Resource) (path : String) (missing : Bool) : Attempt (Option resource.Body) := do
  let response ← ExceptT.lift (Calls.perform (Op.get resource path))
  liftM (readResponse "GET" missing response)

/-- `if (!holds) throw new Error(refusal)`. -/
def expect (holds : Prop) [Decidable holds] (refusal : String) : Except String Unit :=
  if holds then .ok () else .error refusal

/-- `encodeURIComponent`. -/
def encodeURIComponent (text : String) : String :=
  String.join (text.toList.map fun c =>
    if c.isAlphanum || "-_.!~*\x27()".contains c then c.toString
    else String.join ((String.utf8EncodeChar c).map fun byte =>
      "%" ++ String.ofList [(Nat.digitChar (byte.toNat / 16)).toUpper,
        (Nat.digitChar (byte.toNat % 16)).toUpper]))

def packageNames : List String := ["isms-portal-api", "isms-portal-web"]

/-- The path of a package. -/
def packagePath (owner : Owner) (name : String) : String :=
  "/" ++ (if owner.type = "Organization" then "orgs" else "users") ++ "/" ++
    encodeURIComponent owner.login ++ "/packages/container/" ++ name

/-- An element of `plans`. -/
structure Target where
  name : String
  path : String
  plan : Plan

def Target.versionPath (target : Target) : String :=
  target.path ++ "/versions/" ++ target.plan.id.text

/-- `api(path, "DELETE")`. -/
def Target.erase (target : Target) : Attempt Unit := do
  let response ← ExceptT.lift (Calls.perform (Op.delete target.versionPath))
  let _ ← liftM (readResponse "DELETE" false response)

namespace Context

variable (c : Context)

def headPath : String := "/repos/" ++ c.repository ++ "/commits/main"

def runsPath : String :=
  "/repos/" ++ c.repository ++ "/actions/workflows/supply-chain.yml/runs?head_sha=" ++
    c.currentSha ++ "&per_page=10"

/-- `(await head()).sha === currentSha`. -/
def atHead (refusal : String) : Attempt Unit := do
  let commit ← api .commit c.headPath false
  let sha : String ← liftM (required "sha" commit)
  liftM (expect (sha = c.currentSha) refusal)

def passed (run : Run) : Prop :=
  run.headSha = c.currentSha ∧ run.status = "completed" ∧ run.conclusion = some "success"

instance : DecidablePred c.passed := fun run =>
  inferInstanceAs (Decidable (run.headSha = c.currentSha ∧ run.status = "completed" ∧
    run.conclusion = some "success"))

def published : Attempt Unit := do
  let answer ← api .runs c.runsPath false
  let runs : List Run ← liftM (required "workflow_runs" answer)
  liftM (expect (∃ run ∈ runs, c.passed run) "The current image publication has not passed")

/-- A package and its versions, with the plan that they make. -/
def look (path : String) : Attempt Plan := do
  let pkg ← api .package path false
  let versions ← api .versions (path ++ "/versions?per_page=100") false
  liftM (cleanupPlan pkg versions c.repository c.currentSha c.oldTag)

/-- The first loop. -/
def planAll (owner : Owner) : List String → Attempt (List Target)
  | [] => pure []
  | name :: names => do
      let plan ← c.look (packagePath owner name)
      let targets ← planAll owner names
      pure (⟨name, packagePath owner name, plan⟩ :: targets)

/-- The checks before a version is deleted. -/
def recheck (target : Target) : Attempt Unit := do
  c.atHead "Main changed; cleanup stopped"
  let checked ← c.look target.path
  liftM (expect (checked.id = target.plan.id ∧ checked.digest = target.plan.digest)
    "Previous version changed")

/-- The latest version that remains is the one that was there, for the current commit. -/
def keepsLatest (target : Target) (remaining : List Version) : Prop :=
  ∃ latest ∈ remaining.find? fun version => version.tags.includes "latest",
    latest.id = target.plan.latestId ∧ latest.tags.includes c.currentSha

instance (target : Target) : DecidablePred (c.keepsLatest target) := fun _ =>
  inferInstanceAs (Decidable (∃ latest ∈ List.find? _ _, _))

/-- The checks once a version is deleted. -/
def confirm (target : Target) : Attempt Unit := do
  let left : Option Json ← api .version target.versionPath true
  liftM (expect (left.any Json.truthy = false) "Version was not deleted")
  let answer ← api .versions (target.path ++ "/versions?per_page=100") false
  let remaining : List Version ← liftM (required "find" answer)
  liftM (expect (c.keepsLatest target remaining) "Latest image changed during cleanup")

/-- The line of the summary. -/
def report (target : Target) : Attempt Unit :=
  match c.stepSummary with
  | none => pure ()
  | some file => do
      let outcome ← ExceptT.lift (Calls.perform (Op.append file
        ("- " ++ target.name ++ ": removed " ++ c.oldTag ++ "; current main preserved.\n")))
      liftM outcome

/-- The second loop. -/
def removeAll : List Target → Attempt Unit
  | [] => pure ()
  | target :: targets => do
      c.recheck target
      target.erase
      c.confirm target
      c.report target
      removeAll targets

/-- What is done before the second loop. -/
def plans : Attempt (List Target) := do
  let answer ← api .repository ("/repos/" ++ c.repository) false
  let owner ← liftM (required "owner" answer)
  c.atHead "Workflow is not running at current main"
  c.published
  c.planAll owner packageNames

end Context

def main (environment : Environment) : Attempt Unit := do
  let c ← liftM environment.context
  let targets ← c.plans
  c.removeAll targets

/-! ## What the checks say -/

/-- What a plan says of the listing it was made from. -/
structure Planned (c : Context) (pkg : Package) (versions : List Version) (plan : Plan) : Prop where
  hashes : isHash c.currentSha ∧ isHash c.oldTag ∧ c.oldTag ≠ c.currentSha
  owned : pkg.repository = some c.repository
  latest : ∃ latest, versions.filter (fun version => version.tags.includes "latest") = [latest] ∧
    latest.tags.includes c.currentSha ∧ latest.id = plan.latestId ∧ plan.id ≠ latest.id ∧
    plan.digest ≠ latest.name
  old : ∃ old, versions.filter (fun version => version.tags.includes c.oldTag) = [old] ∧
    old.tags = .list [c.oldTag] ∧ old.id = plan.id ∧ old.name = plan.digest ∧
    old.id.isPositive = true

theorem required_eq_ok {Body : Type} {property : String} {answer : Option Body} {body : Body}
    (h : required property answer = .ok body) : answer = some body := by
  cases answer with
  | none => cases h
  | some other =>
      cases h
      rfl

theorem expect_eq_ok {holds : Prop} [Decidable holds] {refusal : String}
    (h : expect holds refusal = .ok ()) : holds := by
  rw [expect] at h
  split at h
  · assumption
  · cases h

/-- A hash is too long for the only unit of a text. -/
theorem eq_list_of_isOnly {tags : Tags} {tag : String} (hhash : isHash tag = true)
    (h : tags.isOnly tag = true) : tags = .list [tag] := by
  cases tags with
  | list tags => rw [of_decide_eq_true h]
  | text tags =>
      obtain ⟨hlength, rfl⟩ := of_decide_eq_true h
      have hlong : tags.toList.length = 40 := of_decide_eq_true (Bool.and_eq_true_iff.mp hhash).1
      have hunits := JsString.length_toList_le tags
      omega

theorem planned_of_cleanupPlan {c : Context} {pkg : Option Package}
    {versions : Option (List Version)} {plan : Plan}
    (h : cleanupPlan pkg versions c.repository c.currentSha c.oldTag = .ok plan) :
    ∃ owned listing, pkg = some owned ∧ versions = some listing ∧
      Planned c owned listing plan := by
  obtain ⟨hhashes, h⟩ := Checks.accepts_unless.mp h
  obtain ⟨owned, howned, h⟩ := Checks.accepts_bind.mp h
  obtain ⟨hrepository, h⟩ := Checks.accepts_unless.mp h
  obtain ⟨listing, hlisting, h⟩ := Checks.accepts_bind.mp h
  dsimp only at h
  split at h
  next latest hlatest =>
    obtain ⟨hcurrent, h⟩ := Checks.accepts_unless.mp h
    split at h
    next old hold =>
      obtain ⟨⟨hpositive, hid, hname⟩, h⟩ := Checks.accepts_unless.mp h
      obtain ⟨htags, h⟩ := Checks.accepts_unless.mp h
      cases h
      exact ⟨owned, listing, required_eq_ok howned, required_eq_ok hlisting, hhashes, hrepository,
        ⟨latest, hlatest, hcurrent, rfl, hid, hname⟩, old, hold,
        eq_list_of_isOnly hhashes.2.1 htags, rfl, rfl, hpositive⟩
    next => cases h
  next => cases h

/-- A body was received. -/
def Found (resource : Resource) (path : String) (body : resource.Body)
    (event : Calls.Event Op Op.Answer) : Prop :=
  ∃ status, event = ⟨.get resource path, .answered status (.ok body)⟩

theorem runs_api {resource : Resource} {path : String} {missing : Bool} {trace : Trace}
    {result : Except String (Option resource.Body)}
    (h : Calls.Runs (api resource path missing).run trace result) :
    ∃ response, trace = [⟨.get resource path, response⟩] ∧
      result = readResponse "GET" missing response := by
  rcases Calls.runs_attempt_bind_iff.mp h with ⟨error, hlift, -⟩ | ⟨first, second, response, rfl,
    hlift, hread⟩
  · obtain ⟨value, -, hvalue⟩ := Calls.runs_lift_iff.mp hlift
    cases hvalue
  · obtain ⟨value, hperform, hvalue⟩ := Calls.runs_lift_iff.mp hlift
    cases hvalue
    obtain ⟨rfl, rfl⟩ := Calls.runs_check_iff.mp hread
    exact ⟨response, by rw [Calls.runs_perform_iff.mp hperform, List.append_nil], rfl⟩

theorem found_of_readResponse {resource : Resource} {path : String} {missing : Bool}
    {response : Response resource.Body} {body : resource.Body}
    (h : readResponse "GET" missing response = .ok (some body)) :
    Found resource path body ⟨.get resource path, response⟩ := by
  cases response with
  | unreachable message => cases h
  | answered status content =>
      rw [readResponse] at h
      split at h
      · cases h
      · split at h
        · cases h
        · split at h
          · cases h
          · cases content with
            | error message => cases h
            | ok other =>
                cases h
                exact ⟨status, rfl⟩

/-! ## What the parts of the program call -/

/-- The path of a version that is deleted. -/
def Op.deleted : Op → Option String
  | delete path => some path
  | get _ _ | append _ _ => none

def deletions (trace : Trace) : List String := trace.filterMap fun event => event.op.deleted

theorem deletions_append (first second : Trace) :
    deletions (first ++ second) = deletions first ++ deletions second :=
  List.filterMap_append

/-- Calls that delete nothing. -/
def Quiet (program : Attempt α) : Prop := Calls.Only (fun op => op.deleted = none) program.run

theorem Quiet.deletions {program : Attempt α} (hquiet : Quiet program) {trace : Trace}
    {result : Except String α} (h : Calls.Runs program.run trace result) :
    deletions trace = [] :=
  List.filterMap_eq_nil_iff.mpr (hquiet trace result h)

theorem quiet_check (check : Except String α) : Quiet (liftM check) := Calls.only_check check

theorem quiet_api (resource : Resource) (path : String) (missing : Bool) :
    Quiet (api resource path missing) := by
  refine Calls.only_attempt_bind (Calls.only_bind (Calls.only_perform rfl) fun response => ?_)
    fun response => quiet_check _
  exact Calls.only_pure _

section Parts

variable {c : Context} {trace : Trace}

theorem quiet_atHead (c : Context) (refusal : String) : Quiet (c.atHead refusal) :=
  Calls.only_attempt_bind (quiet_api _ _ _) fun _ =>
    Calls.only_attempt_bind (quiet_check _) fun _ => quiet_check _

/-- The commit is at the head of the branch. -/
theorem runs_atHead {refusal : String} (h : Calls.Runs (c.atHead refusal).run trace (.ok ())) :
    ∃ head, trace = [head] ∧ Found .commit c.headPath c.currentSha head := by
  obtain ⟨first, second, commit, rfl, hapi, h⟩ := Calls.runs_attempt_bind_ok h
  obtain ⟨none, third, sha, rfl, hsha, h⟩ := Calls.runs_attempt_bind_ok h
  obtain ⟨rfl, hcheck⟩ := Calls.runs_check_iff.mp h
  obtain ⟨rfl, hrequired⟩ := Calls.runs_check_iff.mp hsha
  obtain ⟨response, rfl, hread⟩ := runs_api hapi
  rw [required_eq_ok hrequired.symm, expect_eq_ok hcheck.symm] at hread
  exact ⟨_, rfl, found_of_readResponse hread.symm⟩

theorem quiet_published (c : Context) : Quiet c.published :=
  Calls.only_attempt_bind (quiet_api _ _ _) fun _ =>
    Calls.only_attempt_bind (quiet_check _) fun _ => quiet_check _

/-- A run of the workflow for the commit has passed. -/
def Published (c : Context) (event : Calls.Event Op Op.Answer) : Prop :=
  ∃ runs : List Run, Found .runs c.runsPath runs event ∧ ∃ run ∈ runs, c.passed run

theorem runs_published (h : Calls.Runs c.published.run trace (.ok ())) :
    ∃ event, trace = [event] ∧ Published c event := by
  obtain ⟨first, second, answer, rfl, hapi, h⟩ := Calls.runs_attempt_bind_ok h
  obtain ⟨none, third, runs, rfl, hruns, h⟩ := Calls.runs_attempt_bind_ok h
  obtain ⟨rfl, hcheck⟩ := Calls.runs_check_iff.mp h
  obtain ⟨rfl, hrequired⟩ := Calls.runs_check_iff.mp hruns
  obtain ⟨response, rfl, hread⟩ := runs_api hapi
  rw [required_eq_ok hrequired.symm] at hread
  exact ⟨_, rfl, runs, found_of_readResponse hread.symm, expect_eq_ok hcheck.symm⟩

theorem quiet_look (c : Context) (path : String) : Quiet (c.look path) :=
  Calls.only_attempt_bind (quiet_api _ _ _) fun _ =>
    Calls.only_attempt_bind (quiet_api _ _ _) fun _ => quiet_check _

/-- A package and its versions, which make the plan. -/
def Looked (c : Context) (path : String) (plan : Plan) (trace : Trace) : Prop :=
  ∃ pkg versions first second, trace = [first, second] ∧ Found .package path pkg first ∧
    Found .versions (path ++ "/versions?per_page=100") versions second ∧
    Planned c pkg versions plan

theorem runs_look {path : String} {plan : Plan}
    (h : Calls.Runs (c.look path).run trace (.ok plan)) : Looked c path plan trace := by
  obtain ⟨first, rest, pkg, rfl, hpackage, h⟩ := Calls.runs_attempt_bind_ok h
  obtain ⟨second, third, versions, rfl, hversions, h⟩ := Calls.runs_attempt_bind_ok h
  obtain ⟨rfl, hplan⟩ := Calls.runs_check_iff.mp h
  obtain ⟨owned, rfl, hreadPackage⟩ := runs_api hpackage
  obtain ⟨listing, rfl, hreadVersions⟩ := runs_api hversions
  obtain ⟨body, content, rfl, rfl, hplanned⟩ := planned_of_cleanupPlan hplan.symm
  exact ⟨body, content, _, _, rfl, found_of_readResponse hreadPackage.symm,
    found_of_readResponse hreadVersions.symm, hplanned⟩

theorem quiet_planAll (c : Context) (owner : Owner) (names : List String) :
    Quiet (c.planAll owner names) := by
  induction names with
  | nil => exact Calls.only_pure _
  | cons name names ih =>
      exact Calls.only_attempt_bind (quiet_look c _) fun _ =>
        Calls.only_attempt_bind ih fun _ => Calls.only_pure _

/-- Every package has been looked at. -/
theorem runs_planAll {owner : Owner} {names : List String} {targets : List Target}
    (h : Calls.Runs (c.planAll owner names).run trace (.ok targets)) :
    targets.map (fun target => (target.name, target.path)) =
        names.map (fun name => (name, packagePath owner name)) ∧
      ∀ target ∈ targets, ∃ seen, seen <:+: trace ∧ Looked c target.path target.plan seen := by
  induction names generalizing trace targets with
  | nil =>
      obtain ⟨rfl, hdone⟩ := Calls.runs_pure_iff.mp h
      cases hdone
      exact ⟨rfl, fun _ hmem => absurd hmem List.not_mem_nil⟩
  | cons name names ih =>
      obtain ⟨seen, rest, plan, rfl, hlook, h⟩ := Calls.runs_attempt_bind_ok h
      obtain ⟨calls, none, others, rfl, hothers, h⟩ := Calls.runs_attempt_bind_ok h
      obtain ⟨rfl, hdone⟩ := Calls.runs_pure_iff.mp h
      cases hdone
      obtain ⟨hpaths, hlooked⟩ := ih hothers
      refine ⟨by rw [List.map_cons, List.map_cons, hpaths], fun target hmem => ?_⟩
      rw [List.append_nil]
      rcases List.mem_cons.mp hmem with rfl | hmem
      · exact ⟨seen, (List.prefix_append seen calls).isInfix, runs_look hlook⟩
      · obtain ⟨before, hbefore, hseen⟩ := hlooked target hmem
        exact ⟨before, hbefore.trans (List.suffix_append seen calls).isInfix, hseen⟩

end Parts

/-! ## What a deletion stands between -/

/-- The calls right before a version is deleted: the branch was still at the commit, and the version
is still the one that was planned. -/
structure Prepared (c : Context) (target : Target) (before : Trace) : Prop where
  looked : ∃ earlier head seen plan, before = earlier ++ head :: seen ∧
    Found .commit c.headPath c.currentSha head ∧ Looked c target.path plan seen ∧
    plan.id = target.plan.id ∧ plan.digest = target.plan.digest

/-- The service knows no version: it says so, sends nothing, or what it sends does not count as
true. -/
inductive Gone : Response Json → Prop
  | missing (body : Except String Json) : Gone (.answered 404 body)
  | empty (body : Except String Json) : Gone (.answered 204 body)
  | untrue {status : Nat} {body : Json} (hstatus : 200 ≤ status ∧ status ≤ 299)
      (hbody : body.truthy = false) : Gone (.answered status (.ok body))

theorem gone_of_readResponse {response : Response Json} {left : Option Json}
    (hread : readResponse "GET" true response = .ok left) (hleft : left.any Json.truthy = false) :
    Gone response := by
  cases response with
  | unreachable message => cases hread
  | answered status body =>
      rw [readResponse] at hread
      split at hread
      next hmissing =>
        rw [hmissing.2]
        exact .missing body
      next =>
        split at hread
        next => cases hread
        next hstatus =>
          split at hread
          next hempty =>
            rw [hempty]
            exact .empty body
          next =>
            cases body with
            | error message => cases hread
            | ok body =>
                cases hread
                exact .untrue (not_not.mp hstatus) hleft

/-- The calls right after it: the version is gone, and the latest one is still there. -/
structure Confirmed (c : Context) (target : Target) (after : Trace) : Prop where
  gone : ∃ response listing remaining rest,
    after = ⟨.get .version target.versionPath, response⟩ :: listing :: rest ∧
    Gone response ∧
    Found .versions (target.path ++ "/versions?per_page=100") remaining listing ∧
    c.keepsLatest target remaining

/-- What the second loop does with its targets. -/
structure Removals (c : Context) (targets : List Target) (trace : Trace)
    (result : Except String Unit) : Prop where
  order : deletions trace <+: targets.map Target.versionPath
  complete : result = .ok () → deletions trace = targets.map Target.versionPath
  around : Throughout (fun before event after => ∀ path, event.op.deleted = some path →
    ∃ target ∈ targets, path = target.versionPath ∧ Prepared c target before ∧
      (Confirmed c target after ∨ result ≠ .ok () ∧ deletions after = [])) trace

section Removals

variable {c : Context} {target : Target} {trace : Trace} {result : Except String Unit}

theorem Prepared.prepend {before : Trace} (h : Prepared c target before) (trace : Trace) :
    Prepared c target (trace ++ before) := by
  obtain ⟨earlier, head, seen, plan, rfl, hrest⟩ := h.looked
  exact ⟨⟨trace ++ earlier, head, seen, plan, by rw [List.append_assoc], hrest⟩⟩

theorem Confirmed.append {after : Trace} (h : Confirmed c target after) (trace : Trace) :
    Confirmed c target (after ++ trace) := by
  obtain ⟨response, listing, remaining, rest, rfl, hrest⟩ := h.gone
  exact ⟨⟨response, listing, remaining, rest ++ trace, rfl, hrest⟩⟩

theorem quiet_recheck (c : Context) (target : Target) : Quiet (c.recheck target) :=
  Calls.only_attempt_bind (quiet_atHead c _) fun _ =>
    Calls.only_attempt_bind (quiet_look c _) fun _ => quiet_check _

theorem runs_recheck (h : Calls.Runs (c.recheck target).run trace (.ok ())) :
    Prepared c target trace := by
  obtain ⟨first, rest, done, rfl, hhead, h⟩ := Calls.runs_attempt_bind_ok h
  obtain ⟨seen, none, plan, rfl, hlook, h⟩ := Calls.runs_attempt_bind_ok h
  obtain ⟨rfl, hcheck⟩ := Calls.runs_check_iff.mp h
  obtain ⟨head, rfl, hfound⟩ := runs_atHead hhead
  exact ⟨⟨[], head, seen, plan, by simp, hfound, runs_look hlook, expect_eq_ok hcheck.symm⟩⟩

theorem runs_erase (h : Calls.Runs target.erase.run trace result) :
    ∃ response, trace = [⟨.delete target.versionPath, response⟩] := by
  rcases Calls.runs_attempt_bind_iff.mp h with ⟨error, hlift, -⟩ | ⟨first, second, response, rfl,
    hlift, hread⟩
  · obtain ⟨value, -, hvalue⟩ := Calls.runs_lift_iff.mp hlift
    cases hvalue
  · obtain ⟨value, hperform, hvalue⟩ := Calls.runs_lift_iff.mp hlift
    have hnone : second = [] := by
      rcases Calls.runs_attempt_bind_iff.mp hread with ⟨error, hcheck, -⟩ | ⟨third, fourth, body,
        rfl, hcheck, hdone⟩
      · exact (Calls.runs_check_iff.mp hcheck).1
      · rw [(Calls.runs_check_iff.mp hcheck).1, (Calls.runs_pure_iff.mp hdone).1]
        rfl
    exact ⟨value, by rw [Calls.runs_perform_iff.mp hperform, hnone, List.append_nil]⟩

theorem quiet_confirm (c : Context) (target : Target) : Quiet (c.confirm target) :=
  Calls.only_attempt_bind (quiet_api _ _ _) fun _ =>
    Calls.only_attempt_bind (quiet_check _) fun _ =>
      Calls.only_attempt_bind (quiet_api _ _ _) fun _ =>
        Calls.only_attempt_bind (quiet_check _) fun _ => quiet_check _

theorem runs_confirm (h : Calls.Runs (c.confirm target).run trace (.ok ())) :
    Confirmed c target trace := by
  obtain ⟨first, rest, left, rfl, hversion, h⟩ := Calls.runs_attempt_bind_ok h
  obtain ⟨none, rest, done, rfl, hleft, h⟩ := Calls.runs_attempt_bind_ok h
  obtain ⟨second, rest, answer, rfl, hversions, h⟩ := Calls.runs_attempt_bind_ok h
  obtain ⟨none, rest, remaining, rfl, hremaining, h⟩ := Calls.runs_attempt_bind_ok h
  obtain ⟨rfl, hkept⟩ := Calls.runs_check_iff.mp h
  obtain ⟨rfl, hgone⟩ := Calls.runs_check_iff.mp hleft
  obtain ⟨rfl, hrequired⟩ := Calls.runs_check_iff.mp hremaining
  obtain ⟨response, rfl, hread⟩ := runs_api hversion
  obtain ⟨listing, rfl, hlisting⟩ := runs_api hversions
  rw [required_eq_ok hrequired.symm] at hlisting
  exact ⟨⟨response, _, remaining, [], rfl,
    gone_of_readResponse hread.symm (expect_eq_ok hgone.symm),
    found_of_readResponse hlisting.symm, expect_eq_ok hkept.symm⟩⟩

theorem quiet_report (c : Context) (target : Target) : Quiet (c.report target) := by
  unfold Context.report
  split
  · exact Calls.only_pure _
  · exact Calls.only_attempt_bind (Calls.only_bind (Calls.only_perform rfl) fun _ =>
      Calls.only_pure _) fun _ => quiet_check _

/-- Nothing is said of calls that delete nothing. -/
theorem throughout_of_quiet {holds : Trace → Calls.Event Op Op.Answer → Trace → String → Prop}
    (h : deletions trace = []) :
    Throughout (fun before event after => ∀ path, event.op.deleted = some path →
      holds before event after path) trace := by
  refine throughout_of_forall_mem fun event hevent _ _ path hpath => ?_
  have hmem : path ∈ deletions trace := List.mem_filterMap.mpr ⟨event, hevent, hpath⟩
  rw [h] at hmem
  cases hmem

/-- A loop that stops before it deletes anything. -/
theorem removals_of_quiet {targets : List Target} {error : String} (h : deletions trace = []) :
    Removals c targets trace (.error error) where
  order := by
    rw [h]
    exact List.nil_prefix
  complete hok := nomatch hok
  around := throughout_of_quiet h

section Deletion

variable {before after : Trace} {event : Calls.Event Op Op.Answer}

theorem deletions_erased (hevent : event.op.deleted = some target.versionPath)
    (hbefore : deletions before = []) :
    deletions (before ++ event :: after) = target.versionPath :: deletions after := by
  rw [deletions_append, hbefore, List.nil_append, deletions, List.filterMap_cons_some
    (f := fun event : Calls.Event Op Op.Answer => event.op.deleted) hevent]
  rfl

/-- A deletion is between the checks before it and what follows. -/
theorem Removals.around_erased {targets : List Target}
    (hevent : event.op.deleted = some target.versionPath) (hbefore : deletions before = [])
    (hprepared : Prepared c target before)
    (hafter : Confirmed c target after ∨ result ≠ .ok () ∧ deletions after = [])
    (hrest : Throughout (fun earlier call later => ∀ path, call.op.deleted = some path →
      ∃ target ∈ targets, path = target.versionPath ∧
        Prepared c target (before ++ event :: earlier) ∧
          (Confirmed c target later ∨ result ≠ .ok () ∧ deletions later = [])) after) :
    Throughout (fun earlier call later => ∀ path, call.op.deleted = some path →
      ∃ other ∈ target :: targets, path = other.versionPath ∧ Prepared c other earlier ∧
        (Confirmed c other later ∨ result ≠ .ok () ∧ deletions later = []))
      (before ++ event :: after) := by
  refine throughout_append (throughout_of_quiet hbefore) (throughout_cons ?_
    (hrest.mono fun _ _ _ _ h path hpath => ?_))
  · intro path hpath
    rw [hevent] at hpath
    cases hpath
    exact ⟨target, List.mem_cons_self, rfl, by rwa [List.append_nil], hafter⟩
  · obtain ⟨other, hmem, hother⟩ := h path hpath
    exact ⟨other, List.mem_cons_of_mem _ hmem, hother⟩

/-- A loop that stops at a deletion. -/
theorem removals_of_erased {targets : List Target} {error : String}
    (hevent : event.op.deleted = some target.versionPath) (hbefore : deletions before = [])
    (hafter : deletions after = []) (hprepared : Prepared c target before) :
    Removals c (target :: targets) (before ++ event :: after) (.error error) where
  order := by
    rw [deletions_erased hevent hbefore, hafter]
    exact List.cons_prefix_cons.mpr ⟨rfl, List.nil_prefix⟩
  complete hok := nomatch hok
  around := Removals.around_erased hevent hbefore hprepared (.inr ⟨nofun, hafter⟩)
    (throughout_of_quiet hafter)

/-- A loop that goes on after a deletion. -/
theorem Removals.cons {targets : List Target} {rest : Trace}
    (hevent : event.op.deleted = some target.versionPath) (hbefore : deletions before = [])
    (hafter : deletions after = []) (hprepared : Prepared c target before)
    (hconfirmed : Confirmed c target after) (hrest : Removals c targets rest result) :
    Removals c (target :: targets) (before ++ event :: (after ++ rest)) result := by
  have hdeleted : deletions (before ++ event :: (after ++ rest)) =
      target.versionPath :: deletions rest := by
    rw [deletions_erased hevent hbefore, deletions_append, hafter, List.nil_append]
  constructor
  · rw [hdeleted]
    exact List.cons_prefix_cons.mpr ⟨rfl, hrest.order⟩
  · intro hok
    rw [hdeleted, hrest.complete hok, List.map_cons]
  · refine Removals.around_erased hevent hbefore hprepared (.inl (hconfirmed.append rest))
      (throughout_append (throughout_of_quiet hafter)
        (hrest.around.mono fun _ _ _ _ h path hpath => ?_))
    obtain ⟨other, hmem, hpathof, hother, hlater⟩ := h path hpath
    refine ⟨other, hmem, hpathof, ?_, hlater⟩
    rw [← List.cons_append, ← List.append_assoc]
    exact hother.prepend _

end Deletion

/-- In a turn of the loop, what fails ends the run: before the deletion, or with nothing deleted
behind it. -/
theorem removals_of_run {targets : List Target}
    (h : Calls.Runs (c.removeAll targets).run trace result) : Removals c targets trace result := by
  induction targets generalizing trace with
  | nil =>
      obtain ⟨rfl, rfl⟩ := Calls.runs_pure_iff.mp h
      exact ⟨List.prefix_rfl, fun _ => rfl, throughout_nil⟩
  | cons target targets ih =>
      rcases Calls.runs_attempt_bind_iff.mp h with ⟨error, hrecheck, rfl⟩ | ⟨before, _, done, rfl,
        hrecheck, hturn⟩
      · exact removals_of_quiet ((quiet_recheck c target).deletions hrecheck)
      have hprepared := runs_recheck hrecheck
      have hbefore := (quiet_recheck c target).deletions hrecheck
      rcases Calls.runs_attempt_bind_iff.mp hturn with ⟨error, herase, rfl⟩ | ⟨erased, _, done, rfl,
        herase, hchecks⟩
      · obtain ⟨response, rfl⟩ := runs_erase herase
        exact removals_of_erased rfl hbefore rfl hprepared
      obtain ⟨response, rfl⟩ := runs_erase herase
      rcases Calls.runs_attempt_bind_iff.mp hchecks with ⟨error, hconfirm, rfl⟩ | ⟨checks, _, done,
        rfl, hconfirm, hreport⟩
      · exact removals_of_erased rfl hbefore ((quiet_confirm c target).deletions hconfirm)
          hprepared
      have hconfirmed := runs_confirm hconfirm
      have hquiet := (quiet_confirm c target).deletions hconfirm
      rcases Calls.runs_attempt_bind_iff.mp hreport with ⟨error, hlines, rfl⟩ | ⟨lines, rest, done,
        rfl, hlines, hrest⟩
      · refine removals_of_erased rfl hbefore ?_ hprepared
        refine (deletions_append checks _).trans ?_
        rw [hquiet, (quiet_report c target).deletions hlines]
        rfl
      · have hafter : deletions (checks ++ lines) = [] := by
          rw [deletions_append, hquiet, (quiet_report c target).deletions hlines]
          rfl
        have hcons : Removals c (target :: targets) (before ++
            ⟨.delete target.versionPath, response⟩ :: (checks ++ lines ++ rest)) result :=
          Removals.cons rfl hbefore hafter hprepared (hconfirmed.append lines) (ih hrest)
        rwa [List.append_assoc] at hcons

end Removals

/-! ## The whole program -/

/-- What was called before a version is deleted, to begin with: the commit was at the head, its
images were published, and each package was looked at. -/
structure Validated (c : Context) (targets : List Target) (before : Trace) : Prop where
  head : ∃ head ∈ before, Found .commit c.headPath c.currentSha head
  published : ∃ event ∈ before, Published c event
  looked : ∀ target ∈ targets, ∃ seen, seen <:+: before ∧ Looked c target.path target.plan seen

theorem quiet_plans (c : Context) : Quiet c.plans :=
  Calls.only_attempt_bind (quiet_api _ _ _) fun _ =>
    Calls.only_attempt_bind (quiet_check _) fun _ =>
      Calls.only_attempt_bind (quiet_atHead c _) fun _ =>
        Calls.only_attempt_bind (quiet_published c) fun _ => quiet_planAll c _ _

theorem runs_plans {c : Context} {trace : Trace} {targets : List Target}
    (h : Calls.Runs c.plans.run trace (.ok targets)) :
    (∃ owner, targets.map (fun target => (target.name, target.path)) =
      packageNames.map fun name => (name, packagePath owner name)) ∧ Validated c targets trace := by
  obtain ⟨first, _, answer, rfl, hrepository, howned⟩ := Calls.runs_attempt_bind_ok h
  obtain ⟨none, _, owner, rfl, howner, hchecked⟩ := Calls.runs_attempt_bind_ok howned
  obtain ⟨second, _, done, rfl, hhead, hpublished⟩ := Calls.runs_attempt_bind_ok hchecked
  obtain ⟨third, fourth, done, rfl, hruns, hplanned⟩ := Calls.runs_attempt_bind_ok hpublished
  obtain ⟨head, rfl, hfound⟩ := runs_atHead hhead
  obtain ⟨event, rfl, hpassed⟩ := runs_published hruns
  obtain ⟨hpaths, hlooked⟩ := runs_planAll hplanned
  refine ⟨⟨owner, hpaths⟩, ⟨head, by simp, hfound⟩, ⟨event, by simp, hpassed⟩,
    fun target hmem => ?_⟩
  obtain ⟨seen, hseen, hlook⟩ := hlooked target hmem
  refine ⟨seen, hseen.trans (List.IsSuffix.isInfix ?_), hlook⟩
  simp only [← List.append_assoc]
  exact List.suffix_append _ fourth

/-- A run that may delete. -/
structure Cleaned (environment : Environment) (trace : Trace) (result : Except String Unit)
    (c : Context) (targets : List Target) : Prop where
  given : environment.context = .ok c
  packages : ∃ owner, targets.map (fun target => (target.name, target.path)) =
    packageNames.map fun name => (name, packagePath owner name)
  parts : ∃ checks removals, trace = checks ++ removals ∧ deletions checks = [] ∧
    Validated c targets checks ∧ Removals c targets removals result

/-- Whatever the service answers, each version that the program deletes was the only one with the
old commit, carried nothing else and was not current, all as of the two calls right before, with
the branch still at the commit; every package was looked at before the first deletion, and each
deletion is confirmed before the next one. At most one version of each package is deleted, and a
run without an error deletes exactly these. -/
theorem only_previous_versions_deleted (environment : Environment) (trace : Trace)
    (result : Except String Unit) (h : Calls.Runs (main environment).run trace result) :
    (deletions trace = [] ∧ result ≠ .ok ()) ∨
      ∃ c targets, Cleaned environment trace result c targets := by
  rcases Calls.runs_attempt_bind_iff.mp h with ⟨error, hcontext, rfl⟩ | ⟨none, _, c, rfl, hcontext,
    hplans⟩
  · exact .inl ⟨(quiet_check _).deletions hcontext, nofun⟩
  obtain ⟨rfl, hgiven⟩ := Calls.runs_check_iff.mp hcontext
  rcases Calls.runs_attempt_bind_iff.mp hplans with ⟨error, hstopped, rfl⟩ | ⟨checks, removals,
    targets, rfl, hchecks, hremovals⟩
  · exact .inl ⟨(quiet_plans c).deletions hstopped, nofun⟩
  · obtain ⟨hpackages, hvalidated⟩ := runs_plans hchecks
    exact .inr ⟨c, targets, hgiven.symm, hpackages, checks, removals, rfl,
      (quiet_plans c).deletions hchecks, hvalidated, removals_of_run hremovals⟩

def exampleEnvironment : Environment where
  token := some "secret"
  repository := some "acme/isms-portal"
  currentSha := some "aaaaaaaaaaaaaaaaaaaaaaaaaaaaaaaaaaaaaaaa"
  oldTag := some "bbbbbbbbbbbbbbbbbbbbbbbbbbbbbbbbbbbbbbbb"
  stepSummary := none

/-- A service with the current image and a previous one of each package. -/
def exampleService : (op : Op) → op.Answer
  | .get .repository _ => .answered 200 (.ok (⟨"Organization", "acme"⟩ : Owner))
  | .get .commit _ => .answered 200 (.ok "aaaaaaaaaaaaaaaaaaaaaaaaaaaaaaaaaaaaaaaa")
  | .get .runs _ =>
      .answered 200 (.ok [(⟨"aaaaaaaaaaaaaaaaaaaaaaaaaaaaaaaaaaaaaaaa", "completed",
        some "success"⟩ : Run)])
  | .get .package _ => .answered 200 (.ok (⟨some "acme/isms-portal"⟩ : Package))
  | .get .versions _ => .answered 200 (.ok [
      (⟨.number 1, "sha256:current",
        some (.list ["latest", "aaaaaaaaaaaaaaaaaaaaaaaaaaaaaaaaaaaaaaaa"])⟩ : Version),
      ⟨.number 2, "sha256:old", some (.list ["bbbbbbbbbbbbbbbbbbbbbbbbbbbbbbbbbbbbbbbb"])⟩,
      ⟨.number 3, "sha256:signature", some (.list ["sha256-current.sig"])⟩])
  | .get .version path =>
      if path = "/orgs/acme/packages/container/isms-portal-api/versions/2" then
        .answered 404 (.error "")
      else .answered 200 (.ok .null)
  | .delete _ => .answered 204 (.error "")
  | .append _ _ => .ok ()

set_option maxRecDepth 20000 in
theorem only_previous_versions_deleted_both : ∃ trace c targets,
    deletions trace = ["/orgs/acme/packages/container/isms-portal-api/versions/2",
      "/orgs/acme/packages/container/isms-portal-web/versions/2"] ∧
      Cleaned exampleEnvironment trace (.ok ()) c targets := by
  obtain ⟨trace, htrace, hrun⟩ := Calls.runs_runIn (fun _ => exampleService)
    (main exampleEnvironment).run []
  have hdeleted : deletions (Calls.runIn (fun _ => exampleService) []
      (main exampleEnvironment).run).1 =
        ["/orgs/acme/packages/container/isms-portal-api/versions/2",
          "/orgs/acme/packages/container/isms-portal-web/versions/2"] := by
    decide
  have hresult : (Calls.runIn (fun _ => exampleService) []
      (main exampleEnvironment).run).2 = .ok () := by
    rfl
  rw [htrace, List.nil_append] at hdeleted
  rw [hresult] at hrun
  rcases only_previous_versions_deleted exampleEnvironment trace (.ok ()) hrun with
    ⟨-, herror⟩ | ⟨c, targets, hcleaned⟩
  · exact absurd rfl herror
  · exact ⟨trace, c, targets, hdeleted, hcleaned⟩

end Packages.Cleanup
