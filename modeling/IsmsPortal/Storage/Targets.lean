import IsmsPortal.Foundation.Checks
import IsmsPortal.Foundation.Interleaving
import IsmsPortal.Foundation.JsString
import IsmsPortal.Foundation.Json
import IsmsPortal.Foundation.Revision
import IsmsPortal.Storage.Receipts

/-! # Storage targets

A storage target is one record: where files go, the credentials, the result of the last
test and whether the target may be used for uploads. It is created untested. An update or a
test reads the record, changes it in memory and writes it back under a new revision, if the
stored record still has the revision that was read. A test writes, reads and removes an
object in between, and each of these operations reads the record again.
-/

namespace IsmsPortal

open Foundation

inductive TargetType
  | s3
  | smb
deriving DecidableEq

inductive TestStatus
  | untested
  | success
  | failure
deriving DecidableEq

/-- Where a target keeps its files. -/
structure Destination where
  type : TargetType
  endpoint : Option String
  region : Option String
  bucket : Option String
  pathPrefix : Option String
  forcePathStyle : Option Bool
  mount : Option String
deriving DecidableEq

/-- The record of a target. -/
structure StorageTarget extends Destination where
  id : String
  name : String
  enabled : Bool
  revision : String
  testedAt : Option Int
  testStatus : TestStatus
  credentials : Option String
deriving DecidableEq

/-- The body of a request, an object. -/
abbrev TargetBody : Type := List (String × Json)

/-! ## Inputs -/

/-- The runtime's view of a URL. -/
structure TargetUrl where
  protocol : String
  username : String
  password : String
  search : String
  hash : String
  pathname : String
  origin : String

/-- What the service takes from outside: the parser of URLs, and `encrypt`, which draws a
random vector. -/
structure TargetRules where
  parseUrl : String → Option TargetUrl
  encrypt : String → String → String

def inputString (body : TargetBody) (key : String) (max : Nat) : Except String String := do
  let some (.str value) := body.lookup key | throw ("Invalid " ++ key)
  if JsString.trim value = "" ∨ max < JsString.length value ∨
      value.toList.any (·.toNat < 32) = true then
    throw ("Invalid " ++ key)
  return JsString.trim value

def pathCharacter (c : Char) : Bool := c.isAlphanum || ['_', '.', '/', '-'].contains c

def storagePath (value : String) : Except String String := do
  if value = "" ∨ 1024 < JsString.length value ∨ value.toList.all pathCharacter = false ∨
      (value.toList.splitOn '/').any (fun part => part = [] ∨ part = ['.'] ∨ part = ['.', '.']) =
        true then
    throw "Invalid relative storage path"
  return value

def bucketEnd (c : Char) : Bool := c.isDigit || ('a' ≤ c ∧ c ≤ 'z')

/-- The pattern of a bucket: three to 63 characters, the first and the last a letter or a
digit. -/
def isBucket (value : String) : Bool :=
  3 ≤ value.toList.length && value.toList.length ≤ 63 && value.toList.head?.any bucketEnd &&
    value.toList.getLast?.any bucketEnd &&
    value.toList.all fun c => bucketEnd c || c = '.' || c = '-'

def lowerHex (c : Char) : Bool := c.isDigit || ('a' ≤ c ∧ c ≤ 'f')

/-- The pattern of `storageTargetId`. -/
def targetIdPattern : List (Char → Bool) :=
  List.replicate 8 lowerHex ++ (· == '-') :: List.replicate 4 lowerHex ++
    (· == '-') :: (· == '4') :: List.replicate 3 lowerHex ++
    (· == '-') :: ['8', '9', 'a', 'b'].contains :: List.replicate 3 lowerHex ++
    (· == '-') :: List.replicate 12 lowerHex

def storageTargetId (id : String) : Except String String :=
  if fitsPattern targetIdPattern id.toList then .ok id else .error "Invalid storage target"

/-! ## Records -/

section Records

variable (rules : TargetRules)

/-- The credentials of a body, encrypted with a random vector. -/
def encryptCredentials (vector : String) (body : TargetBody) : Except String String := do
  let accessKeyId ← inputString body "accessKeyId" 256
  let secretAccessKey ← inputString body "secretAccessKey" 512
  return rules.encrypt vector (String.ofList ("\x7b\"accessKeyId\":".toList ++
    Json.quote accessKeyId ++ ",\"secretAccessKey\":".toList ++ Json.quote secretAccessKey ++
    "\x7d".toList))

/-- An HTTPS origin, without credentials, path, query or fragment. -/
def TargetUrl.isOrigin (url : TargetUrl) : Bool :=
  url.protocol = "https:" && url.username = "" && url.password = "" && url.search = "" &&
    url.hash = "" && url.pathname = "/"

/-- The destination and credentials of a new S3 target. -/
def createS3 (vector : String) (body : TargetBody) : Except String (Destination × String) := do
  let some url := (inputString body "endpoint" 512).toOption.bind rules.parseUrl
    | throw "Invalid S3 endpoint URL"
  unless url.isOrigin do throw "S3 endpoint must be an HTTPS origin without credentials"
  let region ← inputString body "region" 80
  let bucket ← inputString body "bucket" 63
  unless isBucket bucket do throw "Invalid S3 bucket"
  let pathPrefix ← if (body.lookup "prefix").any Json.truthy then
    inputString body "prefix" 256 >>= storagePath else pure ""
  let forcePathStyle ← match body.lookup "forcePathStyle" with
    | none => pure true
    | some (.bool value) => pure value
    | some _ => throw "Invalid path-style option"
  let credentials ← encryptCredentials rules vector body
  return (⟨.s3, some url.origin, some region, some bucket, some pathPrefix, some forcePathStyle,
    none⟩, credentials)

/-- The record that `create` writes. -/
def createTarget (id revision vector : String) (body : TargetBody) :
    Except String StorageTarget := do
  match body.lookup "type" with
  | some (.str "s3") =>
      let name ← inputString body "name" 80
      let (destination, credentials) ← createS3 rules vector body
      return ⟨destination, id, name, false, revision, none, .untested, some credentials⟩
  | some (.str "smb") =>
      let name ← inputString body "name" 80
      let mount ← inputString body "mount" 255 >>= storagePath
      return ⟨⟨.smb, none, none, none, none, none, some mount⟩, id, name, false, revision, none,
        .untested, none⟩
  | _ => throw "Choose S3 or SMB"

/-- `update`, first the keys of the body. -/
def checkKeys (body : TargetBody) : Except String Unit :=
  if body.all fun field => ["name", "enabled", "accessKeyId", "secretAccessKey"].contains field.1
  then .ok ()
  else .error "A storage destination cannot be changed; create another target"

/-- The name after an update. -/
def updateName (body : TargetBody) (read : StorageTarget) : Except String String :=
  if (body.lookup "name").isSome then inputString body "name" 80 else .ok read.name

/-- New credentials make a target untested. -/
def updateCredentials (vector : String) (body : TargetBody) (target : StorageTarget) :
    Except String StorageTarget := do
  if (body.lookup "accessKeyId").any Json.truthy ∨
      (body.lookup "secretAccessKey").any Json.truthy then
    unless target.type = .s3 do throw "SMB credentials are managed on the server"
    let credentials ← encryptCredentials rules vector body
    return { target with
      credentials := some credentials, testStatus := .untested, testedAt := none, enabled := false }
  else return target

/-- Only a target whose test succeeded can be enabled. -/
def updateEnabled (body : TargetBody) (target : StorageTarget) : Except String StorageTarget := do
  match body.lookup "enabled" with
  | none => return target
  | some (.bool value) =>
      if value = true ∧ target.testStatus ≠ .success then
        throw "Test this storage before enabling it"
      return { target with enabled := value }
  | some _ => throw "Invalid enabled option"

/-- The record that `update` makes of the one it has read. -/
def updateTarget (vector : String) (body : TargetBody) (read : StorageTarget) :
    Except String StorageTarget := do
  let name ← updateName body read
  let target ← updateCredentials rules vector body { read with name := name }
  updateEnabled body target

/-- The record that `markTest` makes of the one it has read. -/
def testedTarget (now : Int) (success : Bool) (read : StorageTarget) : StorageTarget where
  __ := read
  testedAt := some now
  testStatus := if success then .success else .failure
  enabled := success && read.enabled

end Records

/-! ## Requests -/

/-- A test that was saved as a success: the credentials of the record, and those with which
the operations ran. -/
structure SavedTest where
  id : String
  credentials : Option String
  used : List (Option String)
deriving DecidableEq

/-- The records, the random values used so far, and the tests saved as successes. -/
structure TargetStore where
  clock : Int
  targets : List StorageTarget
  issued : List String
  successes : List SavedTest
deriving DecidableEq

/-- Where a request is. A test keeps the record that it read at first, and those that its
operations have read since. -/
inductive TargetProcess
  | create (body : TargetBody)
  | update (id : String) (body : TargetBody)
  | updateSave (read target : StorageTarget)
  | testTarget (id : String)
  | testPut (read : StorageTarget)
  | testGet (read : StorageTarget) (used : List StorageTarget)
  | testRemove (read : StorageTarget) (used : List StorageTarget)
  | testCleanUp (read : StorageTarget)
  | markTest (read : StorageTarget) (success : Bool) (used : List StorageTarget)
  | testSave (read target : StorageTarget) (used : List StorageTarget)

/-- Two random identifiers, a random vector, and whether an operation succeeds. -/
structure TargetChoice where
  uuid : String
  other : String
  vector : String
  succeeds : Bool

namespace TargetStore

variable (store : TargetStore)

/-- `get`. -/
def get (id : String) : Option StorageTarget :=
  (storageTargetId id).toOption.bind fun id => store.targets.find? fun target => target.id = id

/-- `save`, with a random revision. -/
def save (read target : StorageTarget) (uuid : String) : TargetStore where
  __ := store
  targets := Revision.save StorageTarget.id StorageTarget.revision read.revision
    { target with revision := uuid } store.targets
  issued := uuid :: store.issued

/-- A save of a test that found the revision it read. -/
def saveTest (read target : StorageTarget) (used : List StorageTarget) (uuid : String) :
    TargetStore where
  __ := store.save read target uuid
  successes :=
    if target.testStatus = .success ∧ store.targets.any (fun row =>
        row.id = target.id ∧ row.revision = read.revision) = true then
      ⟨target.id, target.credentials, used.map StorageTarget.credentials⟩ :: store.successes
    else store.successes

end TargetStore

/-- One operation of a test: it reads the record, and succeeds or fails. -/
def testOperation (store : TargetStore) (choice : TargetChoice) (read : StorageTarget)
    (used : List StorageTarget) (next : List StorageTarget → TargetProcess) :
    Option (Option TargetProcess × TargetStore) :=
  match store.get read.id with
  | none => some (some (.testCleanUp read), store)
  | some target =>
      if choice.succeeds then some (some (next (used ++ [target])), store)
      else some (some (.testCleanUp read), store)

/-- Run the next statement. -/
def targetAdvance (rules : TargetRules) (choice : TargetChoice) (store : TargetStore) :
    TargetProcess → Option (Option TargetProcess × TargetStore)
  | .create body =>
      -- `randomUUID` gives no value twice
      if choice.uuid ∈ store.issued ∨ choice.other ∈ store.issued ∨ choice.uuid = choice.other then
        none
      else match createTarget rules choice.uuid choice.other choice.vector body with
        | .error _ => some (none, store)
        | .ok target => some (none, { store with
            targets := store.targets ++ [target]
            issued := choice.uuid :: choice.other :: store.issued })
  | .update id body =>
      some (((checkKeys body).toOption.bind fun _ => store.get id).bind fun read =>
        (updateTarget rules choice.vector body read).toOption.map (.updateSave read), store)
  | .updateSave read target =>
      if choice.uuid ∈ store.issued then none
      else some (none, store.save read target choice.uuid)
  | .testTarget id => some ((store.get id).map .testPut, store)
  | .testPut read => testOperation store choice read [] (.testGet read)
  | .testGet read used => testOperation store choice read used (.testRemove read)
  | .testRemove read used => testOperation store choice read used (.markTest read true)
  | .testCleanUp read => some (some (.markTest read false []), store)
  | .markTest read success used =>
      some (some (.testSave read (testedTarget store.clock success read) used), store)
  | .testSave read target used =>
      if choice.uuid ∈ store.issued then none
      else some (none, store.saveTest read target used choice.uuid)

def TargetProcess.initial : TargetProcess → Bool
  | .create _ | .update .. | .testTarget _ => true
  | _ => false

def targetProgram (rules : TargetRules) : Concurrent TargetStore TargetProcess TargetChoice where
  drift time store := if store.clock ≤ time then some { store with clock := time } else none
  start := TargetProcess.initial
  advance _ := targetAdvance rules

abbrev TargetConfig : Type := Concurrent.Config TargetStore TargetProcess

abbrev TargetMove : Type := Concurrent.Move TargetProcess TargetChoice

/-- Runs from a store without targets. -/
abbrev targetSystem (rules : TargetRules) : System TargetConfig TargetMove :=
  (targetProgram rules).system fun store => store.targets = [] ∧ store.successes = []

/-! ## What a save writes -/

section Records

variable {rules : TargetRules} {vector : String} {body : TargetBody}
variable {read target : StorageTarget}

/-- An enabled target has passed its test. -/
def StorageTarget.Usable (target : StorageTarget) : Prop :=
  target.enabled = true → target.testStatus = .success

/-- A record made from another one: the same target, and no success that the other one did
not have with the same credentials. -/
structure StorageTarget.Follows (target read : StorageTarget) : Prop where
  id : target.id = read.id
  destination : target.toDestination = read.toDestination
  usable : target.Usable
  success : target.testStatus = .success →
    read.testStatus = .success ∧ target.credentials = read.credentials

theorem updateCredentials_follows (husable : read.Usable)
    (hupdate : updateCredentials rules vector body read = .ok target) : target.Follows read := by
  unfold updateCredentials at hupdate
  split at hupdate
  next =>
    obtain ⟨-, hupdate⟩ := Checks.accepts_unless.mp hupdate
    obtain ⟨credentials, -, hupdate⟩ := Checks.accepts_bind.mp hupdate
    rw [← Checks.accepts_pure.mp hupdate]
    refine ⟨rfl, rfl, ?_, ?_⟩
    · intro henabled
      cases henabled
    · intro hsuccess
      cases hsuccess
  next =>
    cases hupdate
    exact ⟨rfl, rfl, husable, fun hsuccess => ⟨hsuccess, rfl⟩⟩

theorem updateEnabled_follows {base : StorageTarget} (hbase : base.Follows read)
    (hupdate : updateEnabled body base = .ok target) : target.Follows read := by
  unfold updateEnabled at hupdate
  split at hupdate
  next =>
    cases hupdate
    exact hbase
  next value _ =>
    simp only at hupdate
    split at hupdate
    next => cases hupdate
    next htested =>
      cases hupdate
      refine ⟨hbase.id, hbase.destination, fun henabled => ?_, hbase.success⟩
      by_contra hnot
      exact htested ⟨henabled, hnot⟩
  next => cases hupdate

theorem updateTarget_follows (husable : read.Usable)
    (hupdate : updateTarget rules vector body read = .ok target) : target.Follows read := by
  unfold updateTarget at hupdate
  obtain ⟨name, -, hupdate⟩ := Checks.accepts_bind.mp hupdate
  obtain ⟨base, hcredentials, henabled⟩ := Checks.accepts_bind.mp hupdate
  have hbase := @updateCredentials_follows rules vector body { read with name := name } base
    husable hcredentials
  exact updateEnabled_follows ⟨hbase.id, hbase.destination, hbase.usable, hbase.success⟩ henabled

/-- The record of a new target. -/
theorem createTarget_eq {id revision : String}
    (hcreate : createTarget rules id revision vector body = .ok target) :
    target.id = id ∧ target.revision = revision ∧ target.enabled = false ∧
      target.testStatus = .untested := by
  unfold createTarget at hcreate
  split at hcreate
  next =>
    obtain ⟨name, -, hcreate⟩ := Checks.accepts_bind.mp hcreate
    obtain ⟨created, -, hcreate⟩ := Checks.accepts_bind.mp hcreate
    rw [← Checks.accepts_pure.mp hcreate]
    exact ⟨rfl, rfl, rfl, rfl⟩
  next =>
    obtain ⟨name, -, hcreate⟩ := Checks.accepts_bind.mp hcreate
    obtain ⟨mount, -, hcreate⟩ := Checks.accepts_bind.mp hcreate
    rw [← Checks.accepts_pure.mp hcreate]
    exact ⟨rfl, rfl, rfl, rfl⟩
  next => cases hcreate

end Records

/-! ## One statement -/

section Steps

/-- The saved success of a test with the credentials of a record. -/
def TargetStore.Proves (store : TargetStore) (target : StorageTarget) : Prop :=
  ∃ test ∈ store.successes, test.id = target.id ∧ test.credentials = target.credentials

/-- What every state has. -/
structure TargetStore.Sound (store : TargetStore) : Prop where
  unique : (store.targets.map StorageTarget.id).Nodup
  issued : ∀ row ∈ store.targets, row.id ∈ store.issued ∧ row.revision ∈ store.issued
  usable : ∀ row ∈ store.targets, row.Usable
  proved : ∀ row ∈ store.targets, row.testStatus = .success → store.Proves row
  ran : ∀ test ∈ store.successes, test.used ≠ [] ∧ ∀ credentials ∈ test.used,
    credentials = test.credentials

/-- A later state keeps what was issued and proved, and its new records have new revisions. -/
structure TargetStore.Later (store after : TargetStore) : Prop where
  issued : store.issued ⊆ after.issued
  successes : store.successes ⊆ after.successes
  fresh : ∀ row ∈ after.targets, row ∈ store.targets ∨ row.revision ∉ store.issued

/-- A copy of a record that was read. -/
structure TargetStore.Copy (store : TargetStore) (read : StorageTarget) : Prop where
  id : read.id ∈ store.issued
  revision : read.revision ∈ store.issued
  usable : read.Usable
  proved : read.testStatus = .success → store.Proves read
  based : Revision.Based StorageTarget.id StorageTarget.revision read store.targets

/-- As long as the copy is current, the operations have used it. -/
def TargetStore.Used (store : TargetStore) (read : StorageTarget) (used : List StorageTarget) :
    Prop :=
  ∀ target ∈ used, read ∈ store.targets → target = read

variable {store after : TargetStore} {read target : StorageTarget} {used : List StorageTarget}

theorem TargetStore.Later.refl (store : TargetStore) : store.Later store :=
  ⟨List.Subset.refl _, List.Subset.refl _, fun _ hrow => .inl hrow⟩

theorem TargetStore.Proves.mono (hlater : store.Later after) (hproves : store.Proves target) :
    after.Proves target := by
  obtain ⟨test, htest, hsame⟩ := hproves
  exact ⟨test, hlater.successes htest, hsame⟩

theorem TargetStore.Copy.mono (hlater : store.Later after) (hcopy : store.Copy read) :
    after.Copy read where
  id := hlater.issued hcopy.id
  revision := hlater.issued hcopy.revision
  usable := hcopy.usable
  proved hsuccess := (hcopy.proved hsuccess).mono hlater
  based := by
    refine hcopy.based.mono fun row hrow => (hlater.fresh row hrow).imp_right ?_
    intro hnew hsame
    exact hnew (hsame ▸ hcopy.revision)

theorem TargetStore.Used.mono (hlater : store.Later after) (hcopy : store.Copy read)
    (hused : store.Used read used) : after.Used read used := by
  intro target htarget hread
  apply hused target htarget
  rcases hlater.fresh read hread with hold | hnew
  · exact hold
  · exact absurd hcopy.revision hnew

theorem TargetStore.mem_of_get {id : String} (hget : store.get id = some target) :
    target ∈ store.targets ∧ target.id = id := by
  obtain ⟨known, hid, hfound⟩ := Option.bind_eq_some_iff.mp hget
  have hknown : known = id := by
    unfold storageTargetId at hid
    split at hid <;> cases hid
    rfl
  refine ⟨List.mem_of_find?_eq_some hfound, ?_⟩
  have htarget := List.find?_some hfound
  rw [decide_eq_true_eq] at htarget
  exact htarget.trans hknown

theorem TargetStore.Sound.copy (hsound : store.Sound) (htarget : target ∈ store.targets) :
    store.Copy target where
  id := (hsound.issued target htarget).1
  revision := (hsound.issued target htarget).2
  usable := hsound.usable target htarget
  proved := hsound.proved target htarget
  based := .of_mem hsound.unique htarget

/-- An operation reads the copy, if it is current. -/
theorem TargetStore.Used.operation (hused : store.Used read used)
    (hget : store.get read.id = some target) (hsound : store.Sound) :
    store.Used read (used ++ [target]) := by
  intro other hother hread
  rcases List.mem_append.mp hother with hold | hnew
  · exact hused other hold hread
  · rw [List.mem_singleton.mp hnew]
    obtain ⟨htarget, hid⟩ := TargetStore.mem_of_get hget
    exact List.inj_on_of_nodup_map hsound.unique htarget hread hid

/-- A new target. -/
theorem TargetStore.Sound.create (hsound : store.Sound) {uuid other : String}
    (huuid : uuid ∉ store.issued) (hother : other ∉ store.issued)
    (hnew : target.id = uuid ∧ target.revision = other ∧ target.enabled = false ∧
      target.testStatus = .untested) :
    TargetStore.Sound { store with
        targets := store.targets ++ [target]
        issued := uuid :: other :: store.issued } ∧
      store.Later { store with
        targets := store.targets ++ [target]
        issued := uuid :: other :: store.issued } := by
  obtain ⟨hid, hrevision, henabled, hstatus⟩ := hnew
  have hsubset : store.issued ⊆ uuid :: other :: store.issued :=
    List.Subset.trans (List.subset_cons_self _ _) (List.subset_cons_self _ _)
  refine ⟨⟨?_, ?_, ?_, ?_, hsound.ran⟩, hsubset, List.Subset.refl _, ?_⟩
  · apply Table.nodup_insert hsound.unique
    intro row hrow heq
    exact huuid (hid ▸ heq ▸ (hsound.issued row hrow).1)
  · intro row hrow
    rcases List.mem_append.mp hrow with hold | hlast
    · exact ⟨hsubset (hsound.issued row hold).1, hsubset (hsound.issued row hold).2⟩
    · rw [List.mem_singleton.mp hlast, hid, hrevision]
      exact ⟨List.mem_cons_self, List.mem_cons_of_mem _ List.mem_cons_self⟩
  · intro row hrow
    rcases List.mem_append.mp hrow with hold | hlast
    · exact hsound.usable row hold
    · rw [List.mem_singleton.mp hlast]
      intro hused
      rw [henabled] at hused
      cases hused
  · intro row hrow hsuccess
    rcases List.mem_append.mp hrow with hold | hlast
    · exact hsound.proved row hold hsuccess
    · rw [List.mem_singleton.mp hlast, hstatus] at hsuccess
      cases hsuccess
  · intro row hrow
    rcases List.mem_append.mp hrow with hold | hlast
    · exact .inl hold
    · rw [List.mem_singleton.mp hlast, hrevision]
      exact .inr hother

/-- A save of a record made from a copy, whose success is proved if the copy is current. -/
theorem TargetStore.Sound.save (hsound : store.Sound) (hcopy : store.Copy read)
    (hid : target.id = read.id) (husable : target.Usable) {uuid : String}
    (huuid : uuid ∉ store.issued) {successes : List SavedTest}
    (hsuccesses : store.successes ⊆ successes)
    (hproved : read ∈ store.targets → target.testStatus = .success →
      ∃ test ∈ successes, test.id = target.id ∧ test.credentials = target.credentials)
    (hran : ∀ test ∈ successes, test.used ≠ [] ∧ ∀ credentials ∈ test.used,
      credentials = test.credentials) :
    TargetStore.Sound { store.save read target uuid with successes := successes } ∧
      store.Later { store.save read target uuid with successes := successes } := by
  have hmem : ∀ row ∈ (store.save read target uuid).targets, row ∈ store.targets ∨
      row = { target with revision := uuid } ∧ read ∈ store.targets :=
    fun row hrow => hcopy.based.mem_save
      (show ({ target with revision := uuid } : StorageTarget).id = read.id from hid) hrow
  refine ⟨⟨?_, ?_, ?_, ?_, hran⟩, List.subset_cons_self _ _, hsuccesses, ?_⟩
  · change ((store.save read target uuid).targets.map StorageTarget.id).Nodup
    rw [TargetStore.save, Revision.map_key_save]
    exact hsound.unique
  · intro row hrow
    rcases hmem row hrow with hold | ⟨rfl, -⟩
    · exact ⟨List.mem_cons_of_mem _ (hsound.issued row hold).1,
        List.mem_cons_of_mem _ (hsound.issued row hold).2⟩
    · exact ⟨List.mem_cons_of_mem _ (show target.id ∈ store.issued from hid ▸ hcopy.id),
        List.mem_cons_self⟩
  · intro row hrow
    rcases hmem row hrow with hold | ⟨rfl, -⟩
    · exact hsound.usable row hold
    · exact husable
  · intro row hrow hsuccess
    rcases hmem row hrow with hold | ⟨rfl, hread⟩
    · obtain ⟨test, htest, hsame⟩ := hsound.proved row hold hsuccess
      exact ⟨test, hsuccesses htest, hsame⟩
    · exact hproved hread hsuccess
  · intro row hrow
    rcases hmem row hrow with hold | ⟨rfl, -⟩
    · exact .inl hold
    · exact .inr huuid

/-- What a request has read and made of it. -/
def TargetProcess.Ready (store : TargetStore) : TargetProcess → Prop
  | .updateSave read target => store.Copy read ∧ target.Follows read
  | .testPut read | .testCleanUp read => store.Copy read
  | .testGet read used | .testRemove read used => store.Copy read ∧ store.Used read used
  | .markTest read success used =>
      store.Copy read ∧ store.Used read used ∧ (success = true → used ≠ [])
  | .testSave read target used => store.Copy read ∧ store.Used read used ∧
      (target.testStatus = .success → used ≠ []) ∧ target.Usable ∧ target.id = read.id ∧
      target.toDestination = read.toDestination ∧ target.credentials = read.credentials
  | _ => True

theorem TargetProcess.Ready.mono {process : TargetProcess} (hlater : store.Later after)
    (hready : process.Ready store) : process.Ready after := by
  cases process with
  | updateSave read target => exact ⟨hready.1.mono hlater, hready.2⟩
  | testPut read | testCleanUp read => exact TargetStore.Copy.mono hlater hready
  | testGet read used | testRemove read used =>
      exact ⟨hready.1.mono hlater, hready.2.mono hlater hready.1⟩
  | markTest read success used =>
      exact ⟨hready.1.mono hlater, hready.2.1.mono hlater hready.1, hready.2.2⟩
  | testSave read target used =>
      exact ⟨hready.1.mono hlater, hready.2.1.mono hlater hready.1, hready.2.2⟩
  | create body | update id body | testTarget id => trivial

variable {rules : TargetRules} {choice : TargetChoice} {process : TargetProcess}
variable {remaining : Option TargetProcess}

theorem TargetStore.Sound.saveTest (hsound : store.Sound)
    (hready : (TargetProcess.testSave read target used).Ready store) {uuid : String}
    (huuid : uuid ∉ store.issued) :
    (store.saveTest read target used uuid).Sound ∧
      store.Later (store.saveTest read target used uuid) := by
  obtain ⟨hcopy, hused, hnonempty, husable, hid, -, hcredentials⟩ := hready
  apply hsound.save hcopy hid husable huuid
  · split
    · exact List.subset_cons_self _ _
    · exact List.Subset.refl _
  · intro hread hsuccess
    rw [if_pos ⟨hsuccess, by simpa using ⟨read, hread, hid.symm, rfl⟩⟩]
    exact ⟨_, List.mem_cons_self, rfl, rfl⟩
  · intro test htest
    split at htest
    next hsaved =>
      rcases List.mem_cons.mp htest with rfl | hold
      · -- The revision was found, so the copy is current and all operations used it.
        refine ⟨by simpa using hnonempty hsaved.1, ?_⟩
        intro credentials hmem
        obtain ⟨other, hother, rfl⟩ := List.mem_map.mp hmem
        obtain ⟨row, hrow, hfound⟩ := List.any_eq_true.mp hsaved.2
        rw [decide_eq_true_eq] at hfound
        have hread := hcopy.based row hrow (hfound.1.trans hid) hfound.2 ▸ hrow
        rw [hused other hother hread]
        exact hcredentials.symm
      · exact hsound.ran test hold
    next => exact hsound.ran test htest

theorem testOperation_ready (next : List StorageTarget → TargetProcess)
    (hsound : store.Sound) (hcopy : store.Copy read) (hused : store.Used read used)
    (hnext : ∀ used', used' ≠ [] → store.Used read used' → (next used').Ready store)
    (hadvance : testOperation store choice read used next = some (remaining, after)) :
    after = store ∧ ∀ process', remaining = some process' → process'.Ready store := by
  unfold testOperation at hadvance
  split at hadvance
  next =>
    cases hadvance
    refine ⟨rfl, ?_⟩
    rintro _ ⟨⟩
    exact hcopy
  next target hget =>
    split at hadvance
    next =>
      cases hadvance
      refine ⟨rfl, ?_⟩
      rintro _ ⟨⟩
      exact hnext _ (by simp) (hused.operation hget hsound)
    next =>
      cases hadvance
      refine ⟨rfl, ?_⟩
      rintro _ ⟨⟩
      exact hcopy

/-- A statement keeps the state sound, leads to a later state, and knows what it has read. -/
theorem targetAdvance_sound (hsound : store.Sound) (hready : process.Ready store)
    (hadvance : targetAdvance rules choice store process = some (remaining, after)) :
    after.Sound ∧ store.Later after ∧
      ∀ process', remaining = some process' → process'.Ready after := by
  cases process with
  | create body =>
      simp only [targetAdvance] at hadvance
      split at hadvance
      next => cases hadvance
      next hfresh =>
        rw [not_or, not_or] at hfresh
        split at hadvance
        next =>
          cases hadvance
          refine ⟨hsound, .refl store, ?_⟩
          rintro _ ⟨⟩
        next target hcreate =>
          cases hadvance
          obtain ⟨hafter, hlater⟩ :=
            hsound.create hfresh.1 hfresh.2.1 (createTarget_eq hcreate)
          refine ⟨hafter, hlater, ?_⟩
          rintro _ ⟨⟩
  | update id body =>
      cases hadvance
      refine ⟨hsound, .refl store, ?_⟩
      intro process' hprocess'
      obtain ⟨read, hget, hupdate⟩ := Option.bind_eq_some_iff.mp hprocess'
      obtain ⟨_, -, hread⟩ := Option.bind_eq_some_iff.mp hget
      obtain ⟨target, htarget, rfl⟩ := Option.map_eq_some_iff.mp hupdate
      have hcopy := hsound.copy (TargetStore.mem_of_get hread).1
      exact ⟨hcopy, updateTarget_follows hcopy.usable (Checks.toOption_eq_some.mp htarget)⟩
  | updateSave read target =>
      simp only [targetAdvance] at hadvance
      split at hadvance
      next => cases hadvance
      next hfresh =>
        cases hadvance
        obtain ⟨hcopy, hfollows⟩ := hready
        have hproved : read ∈ store.targets → target.testStatus = .success →
            store.Proves target := by
          intro _ hsuccess
          obtain ⟨hold, hcredentials⟩ := hfollows.success hsuccess
          obtain ⟨test, htest, hid, hsame⟩ := hcopy.proved hold
          exact ⟨test, htest, hid.trans hfollows.id.symm, hsame.trans hcredentials.symm⟩
        obtain ⟨hafter, hlater⟩ := hsound.save hcopy hfollows.id hfollows.usable hfresh
          (List.Subset.refl _) hproved hsound.ran
        refine ⟨hafter, hlater, ?_⟩
        rintro _ ⟨⟩
  | testTarget id =>
      cases hadvance
      refine ⟨hsound, .refl store, ?_⟩
      intro process' hprocess'
      obtain ⟨read, hget, rfl⟩ := Option.map_eq_some_iff.mp hprocess'
      exact hsound.copy (TargetStore.mem_of_get hget).1
  | testPut read =>
      obtain ⟨rfl, hnext⟩ := testOperation_ready (.testGet read) hsound hready
        (fun target htarget _ => absurd htarget List.not_mem_nil)
        (fun _ _ hused => ⟨hready, hused⟩) hadvance
      exact ⟨hsound, .refl _, hnext⟩
  | testGet read used =>
      obtain ⟨rfl, hnext⟩ := testOperation_ready (.testRemove read) hsound hready.1 hready.2
        (fun _ _ hused => ⟨hready.1, hused⟩) hadvance
      exact ⟨hsound, .refl _, hnext⟩
  | testRemove read used =>
      obtain ⟨rfl, hnext⟩ := testOperation_ready (.markTest read true) hsound hready.1 hready.2
        (fun _ hne hused => ⟨hready.1, hused, fun _ => hne⟩) hadvance
      exact ⟨hsound, .refl _, hnext⟩
  | testCleanUp read =>
      cases hadvance
      refine ⟨hsound, .refl store, ?_⟩
      rintro _ ⟨⟩
      exact ⟨hready, fun target htarget _ => absurd htarget List.not_mem_nil,
        fun hfalse => absurd hfalse Bool.false_ne_true⟩
  | markTest read success used =>
      cases hadvance
      refine ⟨hsound, .refl store, ?_⟩
      rintro _ ⟨⟩
      refine ⟨hready.1, hready.2.1, ?_, ?_, rfl, rfl, rfl⟩
      · cases success with
        | true => exact fun _ => hready.2.2 rfl
        | false => exact fun hfailure => by cases hfailure
      · cases success with
        | true => exact fun _ => rfl
        | false => exact fun henabled => by cases henabled
  | testSave read target used =>
      simp only [targetAdvance] at hadvance
      split at hadvance
      next => cases hadvance
      next hfresh =>
        cases hadvance
        obtain ⟨hafter, hlater⟩ := hsound.saveTest hready hfresh
        refine ⟨hafter, hlater, ?_⟩
        rintro _ ⟨⟩

end Steps

/-! ## Runs -/

def targetOutline : Concurrent.Outline TargetStore TargetProcess where
  invariant := TargetStore.Sound
  assertion _ store process := process.Ready store

theorem targetOutline_valid (rules : TargetRules) :
    targetOutline.Valid (targetProgram rules)
      (fun store => store.targets = [] ∧ store.successes = []) (fun _ _ => True) where
  init := by
    intro store hinit
    constructor
    · simp [hinit.1]
    all_goals simp [hinit.1, hinit.2]
  drift := by
    intro time store after hdrift hsound
    obtain ⟨-, rfl⟩ := Concurrent.drift_eq hdrift
    have hlater : store.Later { store with clock := time } :=
      ⟨List.Subset.refl _, List.Subset.refl _, fun _ hrow => .inl hrow⟩
    refine ⟨⟨hsound.unique, hsound.issued, hsound.usable, hsound.proved, hsound.ran⟩, ?_⟩
    intro _ _ hready
    exact TargetProcess.Ready.mono hlater hready
  start := by
    intro name store process hstart _
    cases process with
    | create body | update id body | testTarget id => trivial
    | _ => cases hstart
  own := by
    intro config name choice process remaining after hholds hprocess _ hadvance
    obtain ⟨hsound, -, hready⟩ :=
      targetAdvance_sound hholds.1 (hholds.2 name process hprocess) hadvance
    exact ⟨hsound, hready⟩
  others := by
    intro config name choice process remaining after hholds hprocess _ hadvance other process' _
      hother
    obtain ⟨-, hlater, -⟩ :=
      targetAdvance_sound hholds.1 (hholds.2 name process hprocess) hadvance
    exact TargetProcess.Ready.mono hlater (hholds.2 other process' hother)

/-- The targets of a state are those of a later state, with the same destinations. -/
def SameDestinations (store after : TargetStore) : Prop :=
  ∀ target ∈ store.targets, ∃ target' ∈ after.targets,
    target'.id = target.id ∧ target'.toDestination = target.toDestination

theorem SameDestinations.refl (store : TargetStore) : SameDestinations store store :=
  fun target htarget => ⟨target, htarget, rfl, rfl⟩

theorem SameDestinations.trans {store middle after : TargetStore}
    (hfirst : SameDestinations store middle) (hsecond : SameDestinations middle after) :
    SameDestinations store after := by
  intro target htarget
  obtain ⟨between, hbetween, hid, hdestination⟩ := hfirst target htarget
  obtain ⟨last, hlast, hid', hdestination'⟩ := hsecond between hbetween
  exact ⟨last, hlast, hid'.trans hid, hdestination'.trans hdestination⟩

/-- A save keeps the destination of the copy that it replaces. -/
theorem sameDestinations_save {store : TargetStore} {read target : StorageTarget} {uuid : String}
    (hcopy : store.Copy read) (hid : target.id = read.id)
    (hdestination : target.toDestination = read.toDestination) :
    SameDestinations store (store.save read target uuid) := by
  intro row hrow
  refine Revision.exists_mem_save StorageTarget.toDestination ?_ hrow
  intro old hold hsame hrevision
  rw [hcopy.based old hold (hsame.trans hid) hrevision]
  exact hdestination

theorem targetAdvance_destinations {rules : TargetRules} {choice : TargetChoice}
    {store after : TargetStore} {process : TargetProcess} {remaining : Option TargetProcess}
    (hready : process.Ready store)
    (hadvance : targetAdvance rules choice store process = some (remaining, after)) :
    SameDestinations store after := by
  have hoperation : ∀ {read used next},
      testOperation store choice read used next = some (remaining, after) →
        SameDestinations store after := by
    intro read used next hoperation
    unfold testOperation at hoperation
    split at hoperation
    next =>
      cases hoperation
      exact .refl store
    next =>
      split at hoperation <;> cases hoperation <;> exact .refl store
  cases process with
  | create body =>
      simp only [targetAdvance] at hadvance
      split at hadvance
      next => cases hadvance
      next =>
        split at hadvance <;> cases hadvance
        · exact .refl store
        · exact fun target htarget => ⟨target, List.mem_append_left _ htarget, rfl, rfl⟩
  | update id body | testTarget id | testCleanUp read | markTest read success used =>
      cases hadvance
      exact .refl store
  | testPut read | testGet read used | testRemove read used => exact hoperation hadvance
  | updateSave read target =>
      simp only [targetAdvance] at hadvance
      split at hadvance <;> cases hadvance
      exact sameDestinations_save hready.1 hready.2.id hready.2.destination
  | testSave read target used =>
      simp only [targetAdvance] at hadvance
      split at hadvance <;> cases hadvance
      obtain ⟨hcopy, -, -, -, hid, hdestination, -⟩ := hready
      exact sameDestinations_save hcopy hid hdestination

theorem next_destinations {rules : TargetRules} {config after : TargetConfig} {move : TargetMove}
    (hholds : targetOutline.Holds config)
    (hnext : (targetProgram rules).next config move = some after) :
    SameDestinations config.store after.store := by
  rcases Concurrent.next_store hnext with ⟨time, -, hdrift⟩ |
    ⟨name, choice, process, remaining, -, hprocess, hadvance⟩ | hsame
  · rw [(Concurrent.drift_eq hdrift).2]
    exact .refl config.store
  · exact targetAdvance_destinations (hholds.2 name process hprocess) hadvance
  · rw [hsame]
    exact .refl config.store

theorem steps_destinations {rules : TargetRules} {config later : TargetConfig}
    (hholds : targetOutline.Holds config)
    (hsteps : (targetSystem rules).StepsWhile (fun _ _ => True) config later) :
    SameDestinations config.store later.store := by
  have hrefl : ∀ state : TargetConfig, SameDestinations state.store state.store :=
    fun state => .refl state.store
  have htrans : ∀ first middle last : TargetConfig, SameDestinations first.store middle.store →
      SameDestinations middle.store last.store → SameDestinations first.store last.store :=
    fun _ _ _ hfirst hsecond => hfirst.trans hsecond
  refine (hsteps.relation hrefl htrans ?_ hholds).2
  intro state move after hstate _ hstep
  exact ⟨(targetOutline_valid rules).step hstate trivial hstep, next_destinations hstate hstep⟩

/-- The process writes this record, made from the one that it read. -/
def TargetProcess.saves (read target : StorageTarget) (process : TargetProcess) : Prop :=
  process = .updateSave read target ∨ ∃ used, process = .testSave read target used

/-- A save that does not find the revision it is based on changes no target. -/
theorem stale_save_unchanged {rules : TargetRules} {choice : TargetChoice}
    {store after : TargetStore} {process : TargetProcess} {remaining : Option TargetProcess}
    {read target : StorageTarget} (hsaves : process.saves read target)
    (hstale : ∀ row ∈ store.targets, row.id = target.id → row.revision ≠ read.revision)
    (hadvance : targetAdvance rules choice store process = some (remaining, after)) :
    after.targets = store.targets := by
  have hsave : ∀ uuid, (store.save read target uuid).targets = store.targets :=
    fun uuid => Revision.save_of_stale hstale
  rcases hsaves with rfl | ⟨used, rfl⟩
  · simp only [targetAdvance] at hadvance
    split at hadvance <;> cases hadvance
    exact hsave choice.uuid
  · simp only [targetAdvance] at hadvance
    split at hadvance <;> cases hadvance
    exact hsave choice.uuid

/-- **Storage targets.** In every run an enabled target has passed its test, destinations
stay as they were created, every success was saved by a test whose operations all ran with
the credentials of the record, and a save on another revision than the stored one changes
nothing. -/
theorem storage_targets_consistent (rules : TargetRules) {config : TargetConfig}
    (hreach : (targetSystem rules).Reachable config) :
    (∀ target ∈ config.store.targets, target.enabled = true → target.testStatus = .success) ∧
      ((config.store.targets.map StorageTarget.id).Nodup ∧
        ∀ later, (targetSystem rules).StepsWhile (fun _ _ => True) config later →
          ∀ target ∈ config.store.targets, ∃ target' ∈ later.store.targets,
            target'.id = target.id ∧ target'.toDestination = target.toDestination) ∧
      (∀ test ∈ config.store.successes, test.used ≠ [] ∧
        ∀ credentials ∈ test.used, credentials = test.credentials) ∧
      (∀ target ∈ config.store.targets, target.testStatus = .success →
        ∃ test ∈ config.store.successes, test.id = target.id ∧
          test.credentials = target.credentials) ∧
      ∀ name choice process read target after, config.processes name = some process →
        process.saves read target →
        (∀ row ∈ config.store.targets, row.id = target.id → row.revision ≠ read.revision) →
        (targetProgram rules).next config (.advance name choice) = some after →
          after.store.targets = config.store.targets := by
  have hholds := (targetOutline_valid rules).holds hreach
  refine ⟨hholds.1.usable, ⟨hholds.1.unique, ?_⟩, hholds.1.ran, hholds.1.proved, ?_⟩
  · intro later hsteps
    exact steps_destinations hholds hsteps
  · intro name choice process read target after hprocess hsaves hstale hnext
    simp only [Concurrent.next, hprocess, Option.bind_some, Option.map_eq_some_iff] at hnext
    obtain ⟨⟨remaining, store⟩, hadvance, rfl⟩ := hnext
    exact stale_save_unchanged hsaves hstale hadvance

/-! ## Sample -/

/-- No value of the sample is a URL or encrypted. -/
def smbRules : TargetRules := ⟨fun _ => none, fun _ text => text⟩

/-- The share of the sample, after its creation, its test and its activation. -/
def archiveShare (enabled : Bool) (revision : String) (testedAt : Option Int)
    (testStatus : TestStatus) : StorageTarget :=
  ⟨⟨.smb, none, none, none, none, none, some "archive"⟩, "11111111-1111-4111-8111-111111111111",
    "Archive", enabled, revision, testedAt, testStatus, none⟩

def archiveBody : TargetBody :=
  [("type", .str "smb"), ("name", .str "Archive"), ("mount", .str "archive")]

/-- The environment gives this identifier, and operations succeed. -/
def withUuid (uuid : String) : TargetChoice := ⟨uuid, "r1", "", true⟩

/-- A share is created, tested and enabled; a test that began before is not saved. -/
theorem storage_targets_consistent_enabled :
    ∃ config, (targetSystem smbRules).Reachable config ∧
      config.store.targets = [archiveShare true "r3" (some 0) .success] ∧
      (∀ target ∈ config.store.targets, target.enabled = true → target.testStatus = .success) ∧
      ((config.store.targets.map StorageTarget.id).Nodup ∧
        ∀ later, (targetSystem smbRules).StepsWhile (fun _ _ => True) config later →
          ∀ target ∈ config.store.targets, ∃ target' ∈ later.store.targets,
            target'.id = target.id ∧ target'.toDestination = target.toDestination) ∧
      (∀ test ∈ config.store.successes, test.used ≠ [] ∧
        ∀ credentials ∈ test.used, credentials = test.credentials) ∧
      (∀ target ∈ config.store.targets, target.testStatus = .success →
        ∃ test ∈ config.store.successes, test.id = target.id ∧
          test.credentials = target.credentials) ∧
      ∀ name choice process read target after, config.processes name = some process →
        process.saves read target →
        (∀ row ∈ config.store.targets, row.id = target.id → row.revision ≠ read.revision) →
        (targetProgram smbRules).next config (.advance name choice) = some after →
          after.store.targets = config.store.targets := by
  have hrun : (Concurrent.executeNamed (targetProgram smbRules) [0, 1] (fun _ _ => true)
      (Concurrent.idle ⟨0, [], [], []⟩)
      [.start 0 (.create archiveBody),
        .advance 0 (withUuid "11111111-1111-4111-8111-111111111111"),
        .start 1 (.testTarget "11111111-1111-4111-8111-111111111111"), .advance 1 (withUuid ""),
        .start 0 (.testTarget "11111111-1111-4111-8111-111111111111"), .advance 0 (withUuid ""),
        .advance 0 (withUuid ""), .advance 0 (withUuid ""), .advance 0 (withUuid ""),
        .advance 0 (withUuid ""), .advance 0 (withUuid "r2"),
        .start 0 (.update "11111111-1111-4111-8111-111111111111" [("enabled", .bool true)]),
        .advance 0 (withUuid ""), .advance 0 (withUuid "r3"), .advance 1 (withUuid ""),
        .advance 1 (withUuid ""), .advance 1 (withUuid ""), .advance 1 (withUuid ""),
        .advance 1 (withUuid "r4")]).bind (Concurrent.settled [0, 1]) =
      some ⟨0, [archiveShare true "r3" (some 0) .success],
        ["r4", "r3", "r2", "11111111-1111-4111-8111-111111111111", "r1"],
        [⟨"11111111-1111-4111-8111-111111111111", none, [none, none, none]⟩]⟩ := by
    decide
  have hreach := Concurrent.reachable_settled (fun _ _ _ _ => trivial) _
    (show (targetSystem smbRules).Reachable (Concurrent.idle ⟨0, [], [], []⟩) from
      .init ⟨⟨rfl, rfl⟩, fun _ => rfl⟩) hrun
  exact ⟨_, hreach, rfl, storage_targets_consistent smbRules hreach⟩

end IsmsPortal
