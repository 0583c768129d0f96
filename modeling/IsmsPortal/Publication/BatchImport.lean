import IsmsPortal.Foundation.Interaction
import IsmsPortal.Foundation.JsString
import IsmsPortal.Foundation.Runs
import IsmsPortal.Foundation.Throughout

/-! # Import of a batch of files

A batch is uploaded file by file, published, and announced in one summary. Any call may fail, also
after the server has done its part, and the batch is processed again by hand. The state of each item
decides what is called again: a file is uploaded again only after certain refusals and under the id
of its first attempt.
-/

namespace Publication.BatchImport

open Foundation Calls

/-! ## Items -/

inductive Status
  | pending
  | uploading
  | draft
  | publishing
  | published
  | failed
  | uncertain
  | quarantined
deriving DecidableEq

structure File where
  name : String
  size : Nat
deriving DecidableEq

structure Item where
  key : Nat
  file : File
  title : String
  description : Option String
  documentId : Option String
  uploadRequestId : Option String
  status : Status
deriving DecidableEq

/-- `["pending", "failed"].includes(item.status)` -/
def Item.waits (item : Item) : Bool := item.status = .pending || item.status = .failed

/-- What the whole batch is uploaded with. -/
structure Options where
  spaceId : String
  categoryId : String
  locale : String
  description : String
  publish : Bool
  /-- Whether a summary of the publications is sent. -/
  digest : Bool
  /-- The permission in the space, none where no space is selected. -/
  mayPublish : Option Bool
deriving DecidableEq

structure Form where
  uploadRequestId : String
  spaceId : String
  categoryId : String
  locale : String
  title : String
  changeSummary : String
  description : String
  file : File
deriving DecidableEq

/-! ## Calls -/

/-- A request that throws, with the status of the response, zero where there is none. -/
structure Failure where
  uncertain : Bool
  status : Nat
deriving DecidableEq

/-- The answer of an upload: the id where it is a text, and whether the document is in
quarantine. -/
inductive UploadAnswer
  | failed (failure : Failure)
  | received (id : Option String) (quarantined : Bool)
deriving DecidableEq

/-- The calls; those about an item carry its key. -/
inductive Op
  | randomUUID
  | upload (key : Nat) (form : Form)
  | publish (key : Nat) (documentId : String)
  | digest (documentIds : List String)
deriving DecidableEq

abbrev Answer : Op → Type
  | .randomUUID => String
  | .upload _ _ => UploadAnswer
  | .publish _ _ => Option Failure
  | .digest _ => Option Failure

abbrev Program := Calls Op Answer

abbrev Call := Event Op Answer

abbrev Trace := List Call

/-! ## Processing -/

def accepted : List String := [".pdf", ".docx", ".xlsx", ".pptx", ".png", ".jpg", ".jpeg", ".txt",
  ".csv"]

/-- `/\.(pdf|docx|xlsx|pptx|png|jpe?g|txt|csv)$/i` -/
def hasAcceptedType (file : File) : Bool :=
  accepted.any fun suffix => suffix.toList.isSuffixOf (file.name.toList.map JsString.lowerAscii)

def maxFileSize : Nat := 50 * 1024 * 1024

/-- `validateUpload`: the title and the summary are trimmed; none where it throws. -/
def validateUpload (form : Form) : Option Form :=
  let title := JsString.trim form.title
  let changeSummary := JsString.trim form.changeSummary
  if form.file.size = 0 ∨ !hasAcceptedType form.file ∨ maxFileSize < form.file.size ∨
      2000 < JsString.length form.description ∨ title = "" ∨ 255 < JsString.length title ∨
      changeSummary = "" ∨ 2000 < JsString.length changeSummary then none
  else some { form with title, changeSummary }

def Options.form (options : Options) (item : Item) (uploadRequestId : String) : Form where
  uploadRequestId := uploadRequestId
  spaceId := options.spaceId
  categoryId := options.categoryId
  locale := options.locale
  title := item.title
  changeSummary := "Initial version"
  description := item.description.getD options.description
  file := item.file

/-- `publish && Boolean(selectedSpace.permissions.publish)` -/
def Options.shouldPublish (options : Options) : Bool :=
  options.publish && options.mayPublish.getD false

def Failure.itemStatus (failure : Failure) : Status :=
  if failure.uncertain then .uncertain else .failed

/-- The rest of the batch is left where the session or a permission is missing. -/
def Failure.stops (failure : Failure) : Bool := failure.status ∈ [401, 403, 404]

section Run

variable (options : Options)

/-- The last part of the processing of an item, and whether the loop ends. -/
def publishItem (item : Item) (documentId : String) : Program (Item × Bool) :=
  if options.shouldPublish && item.status ≠ .quarantined then do
    match ← perform (Op.publish item.key documentId) with
    | none => return ({ item with status := .published }, false)
    | some failure => return ({ item with status := failure.itemStatus }, failure.stops)
  else return (item, false)

/-- The id of the first attempt is kept. -/
def requestId (item : Item) : Program String :=
  match item.uploadRequestId with
  | some id => return id
  | none => perform Op.randomUUID

def uploadItem (item : Item) (form : Form) : Program (Item × Bool) := do
  match ← perform (Op.upload item.key form) with
  | .failed failure => return ({ item with status := failure.itemStatus }, failure.stops)
  | .received id quarantined =>
      match id.filter (JsString.trim · ≠ "") with
      | none => return ({ item with status := .uncertain }, false)
      | some documentId =>
          publishItem options { item with
            documentId := some documentId
            status := if quarantined then .quarantined else .draft } documentId

/-- The attempt is recorded before the form is checked. -/
def attemptItem (item : Item) (id : String) : Program (Item × Bool) :=
  match validateUpload (options.form item id) with
  | none => return ({ item with uploadRequestId := some id, status := .failed }, false)
  | some form => uploadItem options { item with uploadRequestId := some id } form

def processItem (item : Item) : Program (Item × Bool) :=
  match item.documentId with
  | some documentId => publishItem options item documentId
  | none => do
      let id ← requestId item
      attemptItem options item id

def processItems : List Item → Program (List Item)
  | [] => return []
  | item :: items =>
      if item.waits then do
        let result ← processItem options item
        if result.2 then return result.1 :: items
        else do
          let rest ← processItems items
          return result.1 :: rest
      else do
        let rest ← processItems items
        return item :: rest

end Run

/-! ## The form -/

/-- What the form keeps while it is open. -/
structure Batch where
  options : Options
  items : List Item
  digestPending : List String
  notifiedIds : List String
deriving DecidableEq

/-- Options and files are fixed once a document exists or may exist. -/
def Batch.locked (batch : Batch) : Bool :=
  batch.items.any fun item => item.documentId.isSome || item.status = .uncertain

def Batch.queueSummary (batch : Batch) (ids : List String) : Program Batch :=
  if ids = [] then return batch
  else do
    match ← perform (Op.digest ids) with
    | none => return { batch with digestPending := [], notifiedIds := batch.notifiedIds ++ ids }
    | some _ => return { batch with digestPending := ids }

/-- The documents of published items that no summary was sent for. -/
def Batch.unannounced (batch : Batch) : List String :=
  (batch.items.filter (·.status = .published)).filterMap fun item =>
    item.documentId.filter (· ∉ batch.notifiedIds)

def Batch.run (batch : Batch) : Program Batch := do
  let items ← processItems batch.options batch.items
  let processed := { batch with items }
  if batch.options.shouldPublish && batch.options.digest then
    processed.queueSummary processed.unannounced
  else return processed

/-- A file as it is chosen. -/
def newItem (key : Nat) (file : File) (title : String) : Item where
  key := key
  file := file
  title := title
  description := none
  documentId := none
  uploadRequestId := none
  status := .pending

/-- The items of chosen files with their first titles: more than two hundred are refused. -/
def newItems (files : List (File × String)) : List Item :=
  if 200 < files.length then []
  else files.zipIdx.map fun chosen => newItem chosen.2 chosen.1.1 chosen.1.2

/-- An item whose texts may still change. -/
def Item.editable (item : Item) : Bool := item.documentId.isNone && item.status ≠ .uncertain

def Batch.edit (batch : Batch) (key : Nat) (title : String) (description : Option String) : Batch :=
  { batch with
    items := batch.items.map fun item =>
      if item.key = key then { item with title, description } else item }

/-- What the user does. A button runs to its end before the next one is enabled. -/
inductive Action
  | setOptions (options : Options)
  | readSpaces (mayPublish : Option Bool)
  | choose (files : List (File × String))
  | edit (key : Nat) (title : String) (description : Option String)
  | process (calls : Trace)
  | retrySummary (calls : Trace)
  | newBatch

/-- The form, with the calls that were made for its batch. -/
structure State where
  batch : Batch
  log : Trace

/-- Actions as the inputs are enabled. -/
inductive Step : State → Action → State → Prop
  | setOptions {state : State} (options : Options) (h : state.batch.locked = false) :
      Step state (.setOptions options) { state with batch := { state.batch with options } }
  /-- The spaces are read again when the form is opened. -/
  | readSpaces {state : State} (mayPublish : Option Bool) :
      Step state (.readSpaces mayPublish)
        { state with
          batch := { state.batch with options := { state.batch.options with mayPublish } } }
  | choose {state : State} (files : List (File × String)) (h : state.batch.locked = false) :
      Step state (.choose files) ⟨{ state.batch with items := newItems files }, []⟩
  | edit {state : State} (item : Item) (title : String) (description : Option String)
      (hitem : item ∈ state.batch.items) (h : item.editable = true) :
      Step state (.edit item.key title description)
        { state with batch := state.batch.edit item.key title description }
  | process {state : State} {calls : Trace} {after : Batch}
      (hspace : state.batch.options.mayPublish.isSome)
      (hpending : state.batch.digestPending = [])
      (h : Runs state.batch.run calls after) :
      Step state (.process calls) ⟨after, state.log ++ calls⟩
  | retrySummary {state : State} {calls : Trace} {after : Batch}
      (hpending : state.batch.digestPending ≠ [])
      (h : Runs (state.batch.queueSummary state.batch.digestPending) calls after) :
      Step state (.retrySummary calls) ⟨after, state.log ++ calls⟩
  | newBatch {state : State} :
      Step state .newBatch
        ⟨⟨{ state.batch.options with description := "" }, [], [], []⟩, []⟩

/-- The form when it is opened. -/
def opened (options : Options) : State := ⟨⟨options, [], [], []⟩, []⟩

/-- Runs of a form, whatever is answered. -/
def system : System State Action where
  init state := ∃ options, state = opened options
  step := Step

/-! ## What may be called -/

/-- A certain refusal, after which the server has done nothing. -/
def Failure.Certain (failure : Failure) : Prop := failure.uncertain = false

theorem Failure.itemStatus_cases (failure : Failure) :
    failure.itemStatus = .uncertain ∨ failure.itemStatus = .failed ∧ failure.Certain := by
  unfold Failure.itemStatus Failure.Certain
  cases failure.uncertain
  · exact .inr ⟨rfl, rfl⟩
  · exact .inl rfl

/-- A call after the ones before it.
* A file is uploaded again after certain refusals only, under the id of its first attempt.
* A document is published if its upload was answered with it and it is not in quarantine; it is
  published again after certain refusals only.
* A summary is sent of published documents that no accepted summary was about. -/
def Fresh (before : Trace) : Call → Prop
  | ⟨.randomUUID, _⟩ => True
  | ⟨.upload key form, _⟩ => ∀ earlier answer, (⟨.upload key earlier, answer⟩ : Call) ∈ before →
      earlier.uploadRequestId = form.uploadRequestId ∧
        ∃ failure, answer = .failed failure ∧ failure.Certain
  | ⟨.publish key documentId, _⟩ =>
      (∃ form, (⟨.upload key form, .received (some documentId) false⟩ : Call) ∈ before) ∧
      ∀ earlier answer, (⟨.publish key earlier, answer⟩ : Call) ∈ before →
        ∃ failure, answer = some failure ∧ failure.Certain
  | ⟨.digest documentIds, _⟩ => ∀ documentId ∈ documentIds,
      (∃ key, (⟨.publish key documentId, none⟩ : Call) ∈ before) ∧
      ∀ announced, (⟨.digest announced, none⟩ : Call) ∈ before → documentId ∉ announced

/-- The ids that were drawn. -/
def drawn : Call → Option String
  | ⟨.randomUUID, id⟩ => some id
  | ⟨.upload _ _, _⟩ => none
  | ⟨.publish _ _, _⟩ => none
  | ⟨.digest _, _⟩ => none

def Op.key : Op → Option Nat
  | .upload key _ => some key
  | .publish key _ => some key
  | _ => none

/-! ## Items and their calls -/

/-- The state of an item says what was called for it. -/
structure Item.Logged (item : Item) (log : Trace) : Prop where
  request : ∀ form answer, (⟨.upload item.key form, answer⟩ : Call) ∈ log →
    item.uploadRequestId = some form.uploadRequestId
  refused : item.documentId = none → item.waits = true → ∀ form answer,
    (⟨.upload item.key form, answer⟩ : Call) ∈ log →
      ∃ failure, answer = .failed failure ∧ failure.Certain
  received : ∀ documentId, item.documentId = some documentId → item.status ≠ .quarantined →
    ∃ form, (⟨.upload item.key form, .received (some documentId) false⟩ : Call) ∈ log
  unpublished : item.waits = true → ∀ documentId answer,
    (⟨.publish item.key documentId, answer⟩ : Call) ∈ log →
      ∃ failure, answer = some failure ∧ failure.Certain
  published : item.status = .published → ∃ documentId, item.documentId = some documentId ∧
    (⟨.publish item.key documentId, none⟩ : Call) ∈ log
  unanswered : item.documentId = none → ∀ documentId answer,
    (⟨.publish item.key documentId, answer⟩ : Call) ∉ log

section Items

variable {options : Options} {item after : Item} {log calls : Trace}

theorem Item.Logged.append_other (h : item.Logged log)
    (hother : ∀ call ∈ calls, call.op.key ≠ some item.key) : item.Logged (log ++ calls) := by
  have hupload : ∀ form answer, (⟨.upload item.key form, answer⟩ : Call) ∈ log ++ calls →
      (⟨.upload item.key form, answer⟩ : Call) ∈ log := fun form answer hcall =>
    (List.mem_append.mp hcall).resolve_right fun hmem => hother _ hmem rfl
  have hpublish : ∀ documentId answer,
      (⟨.publish item.key documentId, answer⟩ : Call) ∈ log ++ calls →
        (⟨.publish item.key documentId, answer⟩ : Call) ∈ log := fun documentId answer hcall =>
    (List.mem_append.mp hcall).resolve_right fun hmem => hother _ hmem rfl
  refine ⟨fun form answer hcall => h.request form answer (hupload form answer hcall),
    fun hnone hwaits form answer hcall => h.refused hnone hwaits form answer (hupload _ _ hcall),
    ?_, fun hwaits documentId answer hcall =>
      h.unpublished hwaits documentId answer (hpublish documentId answer hcall), ?_,
    fun hnone documentId answer hcall =>
      h.unanswered hnone documentId answer (hpublish documentId answer hcall)⟩
  · intro documentId hid hstatus
    obtain ⟨form, hcall⟩ := h.received documentId hid hstatus
    exact ⟨form, List.mem_append_left _ hcall⟩
  · intro hstatus
    obtain ⟨documentId, hid, hcall⟩ := h.published hstatus
    exact ⟨documentId, hid, List.mem_append_left _ hcall⟩

/-- Calls that process an item. -/
structure Processed (item : Item) (log calls : Trace) (after : Item) : Prop where
  key : after.key = item.key
  logged : after.Logged (log ++ calls)
  fresh : Throughout (fun before call _ => Fresh (log ++ before) call) calls
  own : ∀ call ∈ calls, call.op.key = some item.key ∨ call.op = .randomUUID
  requests : after.uploadRequestId.toList =
    item.uploadRequestId.toList ++ calls.filterMap drawn

/-- Nothing is called. -/
theorem processed_nil (hkey : after.key = item.key)
    (hrequest : after.uploadRequestId = item.uploadRequestId) (hlogged : after.Logged log) :
    Processed item log [] after where
  key := hkey
  logged := by rwa [List.append_nil]
  fresh := throughout_nil
  own _ h := absurd h List.not_mem_nil
  requests := by rw [hrequest, List.filterMap_nil, List.append_nil]

/-- A call before others. -/
theorem Processed.cons {middle : Item} {call : Call} (hkey : middle.key = item.key)
    (hrequest : middle.uploadRequestId.toList =
      item.uploadRequestId.toList ++ (drawn call).toList)
    (hown : call.op.key = some item.key ∨ call.op = .randomUUID) (hfresh : Fresh log call)
    (h : Processed middle (log ++ [call]) calls after) : Processed item log (call :: calls) after where
  key := h.key.trans hkey
  logged := by
    rw [List.append_cons]
    exact h.logged
  fresh := throughout_cons (by rwa [List.append_nil]) (h.fresh.mono fun before other _ _ hother => by
    rwa [List.append_cons])
  own other hother := by
    obtain rfl | hother := List.mem_cons.mp hother
    · exact hown
    · exact (h.own other hother).imp_left fun hmiddle => hmiddle.trans (congrArg some hkey)
  requests := by
    rw [h.requests, hrequest]
    cases hdrawn : drawn call with
    | none => simp [hdrawn]
    | some id => simp [hdrawn]

theorem processed_publishItem {documentId : String} {result : Item × Bool}
    (h : item.Logged log) (hid : item.documentId = some documentId)
    (hrefused : ∀ earlier answer, (⟨.publish item.key earlier, answer⟩ : Call) ∈ log →
      ∃ failure, answer = some failure ∧ failure.Certain)
    (hrun : Runs (publishItem options item documentId) calls result) :
    Processed item log calls result.1 := by
  unfold publishItem at hrun
  split at hrun
  next hpublish =>
    have hstatus : item.status ≠ .quarantined := by
      intro hquarantined
      simp [hquarantined] at hpublish
    obtain ⟨answer, rest, rfl, hrest⟩ := runs_perform_bind_iff.mp hrun
    obtain ⟨form, hupload⟩ := h.received documentId hid hstatus
    have hfresh : Fresh log ⟨.publish item.key documentId, answer⟩ := ⟨⟨form, hupload⟩, hrefused⟩
    have hlogged : ∀ status, status ≠ .quarantined →
        (status = .published → answer = none) →
        (status = .pending ∨ status = .failed → ∃ failure, answer = some failure ∧
          failure.Certain) →
        Item.Logged { item with status } (log ++ [⟨.publish item.key documentId, answer⟩]) := by
      intro status hstatus hpublished hfailed
      refine ⟨?_, fun hnone => absurd (hid.symm.trans hnone) nofun, ?_, ?_, ?_,
        fun hnone => absurd (hid.symm.trans hnone) nofun⟩
      · intro form answer hcall
        refine h.request form answer ?_
        simpa using hcall
      · intro documentId' hid' _
        obtain rfl : documentId = documentId' := Option.some.inj (hid.symm.trans hid')
        exact ⟨form, List.mem_append_left _ hupload⟩
      · intro hwaits earlier answer' hcall
        obtain hcall | hcall := List.mem_append.mp hcall
        · exact hrefused earlier answer' hcall
        · cases List.mem_singleton.mp hcall
          exact hfailed (by simpa [Item.waits] using hwaits)
      · intro hstatus
        exact ⟨documentId, hid, by simp [hpublished hstatus]⟩
    cases answer with
    | none =>
        obtain ⟨rfl, rfl⟩ := runs_pure_iff.mp hrest
        have hlast : Processed item (log ++ [⟨.publish item.key documentId, none⟩]) []
            { item with status := .published } :=
          processed_nil rfl rfl (hlogged .published nofun (fun _ => rfl) nofun)
        exact hlast.cons rfl (by simp [drawn]) (.inl rfl) hfresh
    | some failure =>
        obtain ⟨rfl, rfl⟩ := runs_pure_iff.mp hrest
        have hlast : Processed item (log ++ [⟨.publish item.key documentId, some failure⟩]) []
            { item with status := failure.itemStatus } := by
          obtain hstatus | ⟨hstatus, hcertain⟩ := failure.itemStatus_cases
          · rw [hstatus]
            exact processed_nil rfl rfl (hlogged .uncertain nofun nofun (by simp))
          · rw [hstatus]
            exact processed_nil rfl rfl
              (hlogged .failed nofun nofun fun _ => ⟨failure, rfl, hcertain⟩)
        exact hlast.cons rfl (by simp [drawn]) (.inl rfl) hfresh
  next =>
    obtain ⟨rfl, rfl⟩ := runs_pure_iff.mp hrun
    exact processed_nil rfl rfl h

theorem validateUpload_requestId {form valid : Form} (h : validateUpload form = some valid) :
    valid.uploadRequestId = form.uploadRequestId := by
  unfold validateUpload at h
  dsimp only at h
  split at h
  · cases h
  · cases h
    rfl

/-- The item after an upload that was answered. -/
theorem Item.Logged.uploaded {form : Form} {answer : UploadAnswer} {documentId : Option String}
    {status : Status} (h : item.Logged log) (hnone : item.documentId = none)
    (hwaits : item.waits = true) (hrequest : item.uploadRequestId = some form.uploadRequestId)
    (hfailed : status = .pending ∨ status = .failed →
      ∃ failure, answer = .failed failure ∧ failure.Certain)
    (hreceived : ∀ id, documentId = some id → status ≠ .quarantined →
      answer = .received (some id) false)
    (hpublished : status ≠ .published) :
    Item.Logged { item with documentId, status } (log ++ [⟨.upload item.key form, answer⟩]) := by
  have hpublish : ∀ id given,
      (⟨.publish item.key id, given⟩ : Call) ∉ log ++ [⟨.upload item.key form, answer⟩] := by
    intro id given hcall
    exact h.unanswered hnone id given (by simpa using hcall)
  refine ⟨?_, ?_, ?_, fun _ id given hcall => absurd hcall (hpublish id given),
    fun hstatus => absurd hstatus hpublished, fun _ id given => hpublish id given⟩
  · intro earlier given hcall
    obtain hcall | hcall := List.mem_append.mp hcall
    · exact h.request earlier given hcall
    · cases List.mem_singleton.mp hcall
      exact hrequest
  · intro _ hstatus earlier given hcall
    obtain hcall | hcall := List.mem_append.mp hcall
    · exact h.refused hnone hwaits earlier given hcall
    · cases List.mem_singleton.mp hcall
      exact hfailed (by simpa [Item.waits] using hstatus)
  · intro id hid hstatus
    exact ⟨form, by simp [hreceived id hid hstatus]⟩

theorem processed_uploadItem {form : Form} {result : Item × Bool} (h : item.Logged log)
    (hnone : item.documentId = none) (hwaits : item.waits = true)
    (hrequest : item.uploadRequestId = some form.uploadRequestId)
    (hrun : Runs (uploadItem options item form) calls result) :
    Processed item log calls result.1 := by
  obtain ⟨answer, rest, rfl, hrest⟩ := runs_perform_bind_iff.mp hrun
  have hfresh : Fresh log ⟨.upload item.key form, answer⟩ := fun earlier given hcall =>
    ⟨Option.some.inj ((h.request earlier given hcall).symm.trans hrequest),
      h.refused hnone hwaits earlier given hcall⟩
  -- an item without a document is left with a status
  have hstays : ∀ status, (status = .pending ∨ status = .failed →
        ∃ failure, answer = .failed failure ∧ failure.Certain) → status ≠ .published →
      Processed item log [⟨.upload item.key form, answer⟩] { item with status } := by
    intro status hfailed hpublished
    have hlogged := h.uploaded hnone hwaits hrequest hfailed
      (fun id hid _ => absurd (hnone.symm.trans hid) nofun) hpublished
    have hlast : Processed item (log ++ [⟨.upload item.key form, answer⟩]) []
        { item with status } := processed_nil rfl rfl hlogged
    exact hlast.cons rfl (by simp [drawn]) (.inl rfl) hfresh
  cases answer with
  | failed failure =>
      obtain ⟨rfl, rfl⟩ := runs_pure_iff.mp hrest
      obtain hstatus | ⟨hstatus, hcertain⟩ := failure.itemStatus_cases
      · exact hstays _ (by simp [hstatus]) (by simp [hstatus])
      · exact hstays _ (fun _ => ⟨failure, rfl, hcertain⟩) (by simp [hstatus])
  | received id quarantined =>
      cases hid : id.filter (JsString.trim · ≠ "") with
      | none =>
          simp only [hid] at hrest
          obtain ⟨rfl, rfl⟩ := runs_pure_iff.mp hrest
          exact hstays .uncertain (by simp) (by simp)
      | some documentId =>
          simp only [hid] at hrest
          obtain ⟨rfl, _⟩ := Option.filter_eq_some_iff.mp hid
          have hlogged : Item.Logged { item with
              documentId := some documentId
              status := if quarantined then .quarantined else .draft }
              (log ++ [⟨.upload item.key form, .received (some documentId) quarantined⟩]) := by
            refine h.uploaded hnone hwaits hrequest ?_ ?_ ?_
            · cases quarantined <;> simp
            · rintro _ ⟨⟩ hstatus
              cases quarantined
              · rfl
              · exact absurd rfl hstatus
            · cases quarantined <;> simp
          have hpublished := processed_publishItem hlogged rfl (fun earlier given hcall =>
            absurd (by simpa using hcall) (h.unanswered hnone earlier given)) hrest
          refine Processed.cons ?_ ?_ (.inl rfl) hfresh hpublished
          · rfl
          · simp [drawn]

theorem Item.Logged.withRequest (h : item.Logged log) {id : String} {status : Status}
    (hnew : item.uploadRequestId = none ∨ item.uploadRequestId = some id)
    (hnone : item.documentId = none) (hwaits : item.waits = true)
    (hstatus : status ≠ .published) :
    Item.Logged { item with uploadRequestId := some id, status } log where
  request form answer hcall := by
    have hrequest := h.request form answer hcall
    obtain hnew | hnew := hnew
    · exact absurd (hnew.symm.trans hrequest) nofun
    · exact hnew.symm.trans hrequest
  refused _ _ := h.refused hnone hwaits
  received documentId hid := absurd (hnone.symm.trans hid) nofun
  unpublished _ := h.unpublished hwaits
  published hpublished := absurd hpublished hstatus
  unanswered _ := h.unanswered hnone

theorem processed_attemptItem {id : String} {result : Item × Bool} (h : item.Logged log)
    (hnew : item.uploadRequestId = none ∨ item.uploadRequestId = some id)
    (hnone : item.documentId = none) (hwaits : item.waits = true)
    (hrun : Runs (attemptItem options item id) calls result) :
    Processed { item with uploadRequestId := some id } log calls result.1 := by
  have hstatus : item.status ≠ .published := by
    intro hpublished
    simp [Item.waits, hpublished] at hwaits
  unfold attemptItem at hrun
  split at hrun
  next =>
    obtain ⟨rfl, rfl⟩ := runs_pure_iff.mp hrun
    exact processed_nil rfl rfl (h.withRequest hnew hnone hwaits nofun)
  next form hvalid =>
    refine processed_uploadItem (h.withRequest hnew hnone hwaits hstatus) hnone hwaits ?_ hrun
    exact congrArg some (validateUpload_requestId hvalid).symm

theorem processed_processItem {result : Item × Bool} (h : item.Logged log)
    (hwaits : item.waits = true) (hrun : Runs (processItem options item) calls result) :
    Processed item log calls result.1 := by
  unfold processItem at hrun
  split at hrun
  next documentId hid => exact processed_publishItem h hid (h.unpublished hwaits) hrun
  next hid =>
    obtain ⟨first, rest, id, rfl, hfirst, hrest⟩ := runs_bind_iff.mp hrun
    unfold requestId at hfirst
    split at hfirst
    next hrequest =>
      obtain ⟨rfl, rfl⟩ := runs_pure_iff.mp hfirst
      have hattempt := processed_attemptItem h (.inr hrequest) hid hwaits hrest
      rwa [← hrequest] at hattempt
    next hrequest =>
      obtain rfl := runs_perform_iff.mp hfirst
      have hlogged : item.Logged (log ++ [⟨.randomUUID, id⟩]) := h.append_other (by simp [Op.key])
      have hattempt := processed_attemptItem hlogged (.inl hrequest) hid hwaits hrest
      refine Processed.cons ?_ ?_ (.inr rfl) trivial hattempt
      · rfl
      · simp [hrequest, drawn]

end Items

/-! ## The batch and its calls -/

theorem filterMap_cons_toList {α β : Type} (f : α → Option β) (head : α) (rest : List α) :
    (head :: rest).filterMap f = (f head).toList ++ rest.filterMap f := by
  cases hhead : f head <;> simp [hhead]

theorem eq_of_filterMap_nodup {α β : Type} {f : α → Option β} {values : List α} {left right : α}
    {image : β} (h : (values.filterMap f).Nodup) (hleft : left ∈ values) (hright : right ∈ values)
    (himage : f left = some image) (hsame : f right = some image) : left = right := by
  induction values with
  | nil => cases hleft
  | cons head rest ih =>
      rw [filterMap_cons_toList, List.nodup_append] at h
      obtain ⟨_, hrest, hdisjoint⟩ := h
      have hhead : ∀ other ∈ rest, f other = some image → f head ≠ some image := by
        intro other hother hmember hfirst
        refine hdisjoint image ?_ image (List.mem_filterMap.mpr ⟨other, hother, hmember⟩) rfl
        simp [hfirst]
      obtain rfl | hbefore := List.mem_cons.mp hleft
      · obtain rfl | hafter := List.mem_cons.mp hright
        · rfl
        · exact absurd himage (hhead right hafter hsame)
      · obtain rfl | hafter := List.mem_cons.mp hright
        · exact absurd hsame (hhead left hbefore himage)
        · exact ih hrest hbefore hafter

structure ItemsLogged (items : List Item) (log : Trace) : Prop where
  keys : (items.map Item.key).Nodup
  logged : ∀ item ∈ items, item.Logged log
  /-- Each id that was drawn is the id of one item. -/
  requests : (items.filterMap Item.uploadRequestId).Perm (log.filterMap drawn)
  known : ∀ key form answer, (⟨.upload key form, answer⟩ : Call) ∈ log →
    key ∈ items.map Item.key

section Batches

variable {options : Options} {items earlier rest : List Item} {item after : Item}
  {log calls : Trace}

theorem ItemsLogged.processed (h : ItemsLogged (earlier ++ item :: rest) log)
    (hprocessed : Processed item log calls after) :
    ItemsLogged (earlier ++ after :: rest) (log ++ calls) := by
  have hkeys : (earlier ++ after :: rest).map Item.key =
      (earlier ++ item :: rest).map Item.key := by
    simp [hprocessed.key]
  refine ⟨hkeys ▸ h.keys, ?_, ?_, ?_⟩
  · intro other hother
    have hnodup := h.keys
    simp only [List.map_append, List.map_cons] at hnodup
    have hlogged : ∀ other ∈ earlier ++ rest, other.Logged (log ++ calls) := by
      intro other hother
      have hmem : other ∈ earlier ++ item :: rest := by
        obtain hleft | hright := List.mem_append.mp hother
        · exact List.mem_append_left _ hleft
        · exact List.mem_append_right _ (List.mem_cons_of_mem _ hright)
      have hdifferent : item.key ≠ other.key := by
        intro hsame
        obtain ⟨_, hafter, hbefore⟩ := List.nodup_append.mp hnodup
        obtain hleft | hright := List.mem_append.mp hother
        · exact hbefore _ (List.mem_map_of_mem hleft) _ List.mem_cons_self hsame.symm
        · exact (List.nodup_cons.mp hafter).1 (hsame ▸ List.mem_map_of_mem hright)
      refine (h.logged other hmem).append_other fun call hcall hkey => ?_
      obtain hown | hown := hprocessed.own call hcall
      · exact hdifferent (Option.some.inj (hown.symm.trans hkey))
      · rw [hown] at hkey
        cases hkey
    obtain hleft | hright := List.mem_append.mp hother
    · exact hlogged other (List.mem_append_left _ hleft)
    · obtain rfl | hright := List.mem_cons.mp hright
      · exact hprocessed.logged
      · exact hlogged other (List.mem_append_right _ hright)
  · refine List.Perm.trans ?_ ((h.requests.append_right (calls.filterMap drawn)).trans
      (by rw [List.filterMap_append]))
    simp only [List.filterMap_append, filterMap_cons_toList, hprocessed.requests]
    rw [List.perm_iff_count]
    intro id
    simp only [List.count_append]
    omega
  · intro key form answer hcall
    rw [hkeys]
    obtain hcall | hcall := List.mem_append.mp hcall
    · exact h.known key form answer hcall
    · obtain hown | hown := hprocessed.own _ hcall
      · obtain rfl := Option.some.inj hown
        simp
      · cases hown

theorem itemsLogged_processItems (h : ItemsLogged (earlier ++ items) log) {result : List Item}
    (hrun : Runs (processItems options items) calls result) :
    ItemsLogged (earlier ++ result) (log ++ calls) ∧
      Throughout (fun before call _ => Fresh (log ++ before) call) calls ∧
      ∀ ids answer, (⟨.digest ids, answer⟩ : Call) ∉ calls := by
  induction items generalizing earlier log calls result with
  | nil =>
      obtain ⟨rfl, rfl⟩ := runs_pure_iff.mp hrun
      exact ⟨by simpa using h, throughout_nil, fun _ _ => List.not_mem_nil⟩
  | cons item items ih =>
      unfold processItems at hrun
      split at hrun
      next hwaits =>
        obtain ⟨first, second, ⟨after, stops⟩, rfl, hfirst, hsecond⟩ := runs_bind_iff.mp hrun
        have hprocessed := processed_processItem
          (h.logged item (List.mem_append_right _ List.mem_cons_self)) hwaits hfirst
        have hafter := h.processed hprocessed
        have hdigest : ∀ ids answer, (⟨.digest ids, answer⟩ : Call) ∉ first := by
          intro ids answer hcall
          obtain hown | hown := hprocessed.own _ hcall <;> cases hown
        cases stops with
        | true =>
            obtain ⟨rfl, rfl⟩ := runs_pure_iff.mp hsecond
            rw [List.append_nil]
            exact ⟨hafter, hprocessed.fresh, hdigest⟩
        | false =>
            obtain ⟨third, last, others, rfl, hthird, hlast⟩ := runs_bind_iff.mp hsecond
            obtain ⟨rfl, rfl⟩ := runs_pure_iff.mp hlast
            rw [List.append_cons] at hafter
            obtain ⟨hlogged, hfresh, hothers⟩ := ih hafter hthird
            rw [List.append_nil, List.append_cons, ← List.append_assoc log]
            refine ⟨hlogged, throughout_append hprocessed.fresh ?_, fun ids answer hcall => ?_⟩
            · exact hfresh.mono fun before call _ _ hcall => by rwa [← List.append_assoc]
            · obtain hcall | hcall := List.mem_append.mp hcall
              · exact hdigest ids answer hcall
              · exact hothers ids answer hcall
      next =>
        obtain ⟨first, last, others, rfl, hfirst, hlast⟩ := runs_bind_iff.mp hrun
        obtain ⟨rfl, rfl⟩ := runs_pure_iff.mp hlast
        rw [List.append_cons] at h
        rw [List.append_nil, List.append_cons]
        exact ih h hfirst

structure Batch.Logged (batch : Batch) (log : Trace) : Prop where
  items : ItemsLogged batch.items log
  announced : ∀ ids, (⟨.digest ids, none⟩ : Call) ∈ log → ∀ id ∈ ids, id ∈ batch.notifiedIds
  pending : ∀ id ∈ batch.digestPending, (∃ key, (⟨.publish key id, none⟩ : Call) ∈ log) ∧
    id ∉ batch.notifiedIds ∧ ∃ item ∈ batch.items, item.documentId = some id

variable {batch final : Batch}

theorem Batch.Logged.queueSummary {ids : List String} (h : batch.Logged log)
    (hids : ∀ id ∈ ids, (∃ key, (⟨.publish key id, none⟩ : Call) ∈ log) ∧
      id ∉ batch.notifiedIds ∧ ∃ item ∈ batch.items, item.documentId = some id)
    (hrun : Runs (batch.queueSummary ids) calls final) :
    final.Logged (log ++ calls) ∧
      Throughout (fun before call _ => Fresh (log ++ before) call) calls := by
  unfold Batch.queueSummary at hrun
  split at hrun
  next =>
    obtain ⟨rfl, rfl⟩ := runs_pure_iff.mp hrun
    rw [List.append_nil]
    exact ⟨h, throughout_nil⟩
  next =>
    obtain ⟨answer, last, rfl, hlast⟩ := runs_perform_bind_iff.mp hrun
    have hfresh : Fresh log ⟨.digest ids, answer⟩ := fun id hid =>
      ⟨(hids id hid).1, fun announced hcall hmem =>
        (hids id hid).2.1 (h.announced announced hcall id hmem)⟩
    have hitems : ItemsLogged batch.items (log ++ [⟨.digest ids, answer⟩]) := by
      refine ⟨h.items.keys, fun item hitem => ?_, ?_, fun key form given hcall => ?_⟩
      · exact (h.items.logged item hitem).append_other (by simp [Op.key])
      · have hnone : [(⟨.digest ids, answer⟩ : Call)].filterMap drawn = [] := rfl
        rw [List.filterMap_append, hnone, List.append_nil]
        exact h.items.requests
      · exact h.items.known key form given (by simpa using hcall)
    have hthroughout : Throughout (fun before call _ => Fresh (log ++ before) call)
        [⟨.digest ids, answer⟩] := throughout_cons (by simpa using hfresh) throughout_nil
    cases answer with
    | none =>
        obtain ⟨rfl, rfl⟩ := runs_pure_iff.mp hlast
        refine ⟨⟨hitems, fun announced hcall id hid => ?_, fun id hid => nomatch hid⟩, hthroughout⟩
        obtain hcall | hcall := List.mem_append.mp hcall
        · exact List.mem_append_left _ (h.announced announced hcall id hid)
        · cases List.mem_singleton.mp hcall
          exact List.mem_append_right _ hid
    | some failure =>
        obtain ⟨rfl, rfl⟩ := runs_pure_iff.mp hlast
        refine ⟨⟨hitems, fun announced hcall id hid => ?_, fun id hid => ?_⟩, hthroughout⟩
        · exact h.announced announced (by simpa using hcall) id hid
        · obtain ⟨⟨key, hcall⟩, hnew, hitem⟩ := hids id hid
          exact ⟨⟨key, List.mem_append_left _ hcall⟩, hnew, hitem⟩

theorem Batch.Logged.run (h : batch.Logged log) (hpending : batch.digestPending = [])
    (hrun : Runs batch.run calls final) :
    final.Logged (log ++ calls) ∧
      Throughout (fun before call _ => Fresh (log ++ before) call) calls := by
  obtain ⟨first, second, items, rfl, hfirst, hsecond⟩ := runs_bind_iff.mp hrun
  have hitems : ItemsLogged ([] ++ batch.items) log := h.items
  obtain ⟨hlogged, hfresh, hdigest⟩ := itemsLogged_processItems hitems hfirst
  have hprocessed : Batch.Logged { batch with items } (log ++ first) := by
    refine ⟨hlogged, fun ids hcall id hid => ?_, fun id hid => ?_⟩
    · exact h.announced ids ((List.mem_append.mp hcall).resolve_right (hdigest ids none)) id hid
    · rw [hpending] at hid
      cases hid
  dsimp only at hsecond
  split at hsecond
  next =>
    have hannounce : ∀ id ∈ Batch.unannounced { batch with items },
        (∃ key, (⟨.publish key id, none⟩ : Call) ∈ log ++ first) ∧ id ∉ batch.notifiedIds ∧
          ∃ item ∈ items, item.documentId = some id := by
      intro id hid
      obtain ⟨item, hitem, hdocument⟩ := List.mem_filterMap.mp hid
      obtain ⟨hitem, hpublished⟩ := List.mem_filter.mp hitem
      obtain ⟨hdocument, hnew⟩ := Option.filter_eq_some_iff.mp hdocument
      obtain ⟨documentId, hsame, hcall⟩ :=
        (hlogged.logged item hitem).published (by simpa using hpublished)
      obtain rfl : documentId = id := Option.some.inj (hsame.symm.trans hdocument)
      exact ⟨⟨item.key, hcall⟩, by simpa using hnew, item, hitem, hdocument⟩
    obtain ⟨hfinal, hsummary⟩ := hprocessed.queueSummary hannounce hsecond
    rw [← List.append_assoc]
    refine ⟨hfinal, throughout_append hfresh (hsummary.mono fun before call _ _ hcall => ?_)⟩
    rwa [← List.append_assoc]
  next =>
    obtain ⟨rfl, rfl⟩ := runs_pure_iff.mp hsecond
    rw [List.append_nil]
    exact ⟨hprocessed, hfresh⟩

end Batches

/-! ## Runs of the form -/

structure State.Logged (state : State) : Prop where
  batch : state.batch.Logged state.log
  fresh : Throughout (fun before call _ => Fresh before call) state.log

theorem logged_newItem (key : Nat) (file : File) (title : String) :
    (newItem key file title).Logged [] := by
  refine ⟨?_, ?_, ?_, ?_, ?_, ?_⟩ <;> simp [newItem]

theorem itemsLogged_nil : ItemsLogged [] [] where
  keys := List.nodup_nil
  logged _ h := nomatch h
  requests := .refl _
  known _ _ _ h := nomatch h

theorem itemsLogged_newItems (files : List (File × String)) : ItemsLogged (newItems files) [] := by
  unfold newItems
  split
  next => exact itemsLogged_nil
  next =>
    refine ⟨?_, ?_, ?_, nofun⟩
    · have hkeys : (files.zipIdx.map fun chosen =>
          newItem chosen.2 chosen.1.1 chosen.1.2).map Item.key = List.range files.length := by
        rw [List.map_map, List.range_eq_range', ← List.zipIdx_map_snd]
        rfl
      rw [hkeys]
      exact List.nodup_range
    · intro item hitem
      obtain ⟨chosen, _, rfl⟩ := List.mem_map.mp hitem
      exact logged_newItem _ _ _
    · have hnone : (Item.uploadRequestId ∘ fun chosen : (File × String) × Nat =>
          newItem chosen.2 chosen.1.1 chosen.1.2) = fun _ => none := rfl
      rw [List.filterMap_map, hnone, List.filterMap_none]
      exact .refl _

/-- Without an item of a document no summary is due. -/
theorem Batch.Logged.digestPending_of_unlocked {batch : Batch} {log : Trace} (h : batch.Logged log)
    (hlocked : batch.locked = false) : batch.digestPending = [] := by
  rw [List.eq_nil_iff_forall_not_mem]
  intro id hid
  obtain ⟨_, _, item, hitem, hdocument⟩ := h.pending id hid
  have hfree := List.any_eq_false.mp hlocked item hitem
  simp [hdocument] at hfree

theorem Batch.Logged.edit {batch : Batch} {log : Trace} (h : batch.Logged log) (key : Nat)
    (title : String) (description : Option String) :
    (batch.edit key title description).Logged log := by
  -- only the texts of the item change
  have hsame : ∀ (values : Item → Option String),
      (∀ item, values (if item.key = key then { item with title, description } else item) =
        values item) →
      (batch.edit key title description).items.filterMap values =
        batch.items.filterMap values := by
    intro values hvalues
    unfold Batch.edit
    rw [List.filterMap_map]
    exact congrArg (List.filterMap · batch.items) (funext hvalues)
  have hkeys : (batch.edit key title description).items.map Item.key =
      batch.items.map Item.key := by
    unfold Batch.edit
    rw [List.map_map]
    refine List.map_congr_left fun item _ => ?_
    dsimp only [Function.comp]
    split <;> rfl
  refine ⟨⟨hkeys ▸ h.items.keys, ?_, ?_, hkeys ▸ h.items.known⟩, h.announced, ?_⟩
  · intro item hitem
    obtain ⟨edited, hedited, rfl⟩ := List.mem_map.mp hitem
    have hlogged := h.items.logged edited hedited
    split
    · exact ⟨hlogged.request, hlogged.refused, hlogged.received, hlogged.unpublished,
        hlogged.published, hlogged.unanswered⟩
    · exact hlogged
  · rw [hsame Item.uploadRequestId fun item => by split <;> rfl]
    exact h.items.requests
  · intro id hid
    obtain ⟨hcall, hnew, item, hitem, hdocument⟩ := h.pending id hid
    refine ⟨hcall, hnew, _, List.mem_map_of_mem hitem, ?_⟩
    split
    · exact hdocument
    · exact hdocument

theorem State.Logged.step {state after : State} {action : Action} (h : state.Logged)
    (hstep : Step state action after) : after.Logged := by
  cases hstep with
  | setOptions options hlocked =>
      exact ⟨⟨h.batch.items, h.batch.announced, h.batch.pending⟩, h.fresh⟩
  | readSpaces mayPublish =>
      exact ⟨⟨h.batch.items, h.batch.announced, h.batch.pending⟩, h.fresh⟩
  | choose files hlocked =>
      refine ⟨⟨itemsLogged_newItems files, nofun, fun id hid => ?_⟩, throughout_nil⟩
      rw [h.batch.digestPending_of_unlocked hlocked] at hid
      cases hid
  | edit item title description =>
      exact ⟨h.batch.edit item.key title description, h.fresh⟩
  | process hspace hpending hrun =>
      obtain ⟨hbatch, hfresh⟩ := h.batch.run hpending hrun
      exact ⟨hbatch, throughout_append h.fresh hfresh⟩
  | retrySummary hpending hrun =>
      obtain ⟨hbatch, hfresh⟩ := h.batch.queueSummary h.batch.pending hrun
      exact ⟨hbatch, throughout_append h.fresh hfresh⟩
  | newBatch => exact ⟨⟨itemsLogged_nil, nofun, nofun⟩, throughout_nil⟩

theorem logged_of_reachable {state : State} (hreach : system.Reachable state) : state.Logged := by
  refine hreach.invariant ?_ fun before action after h _ hstep => h.step hstep
  rintro _ ⟨options, rfl⟩
  exact ⟨⟨itemsLogged_nil, nofun, nofun⟩, throughout_nil⟩

/-- An id is the id of one item, if it is drawn once. -/
theorem ItemsLogged.key_eq {items : List Item} {log : Trace} (h : ItemsLogged items log)
    (hdrawn : (log.filterMap drawn).Nodup) {left right : Nat} {form other : Form}
    {answer given : UploadAnswer} (hleft : (⟨.upload left form, answer⟩ : Call) ∈ log)
    (hright : (⟨.upload right other, given⟩ : Call) ∈ log)
    (hid : form.uploadRequestId = other.uploadRequestId) : left = right := by
  obtain ⟨item, hitem, rfl⟩ := List.mem_map.mp (h.known _ _ _ hleft)
  obtain ⟨second, hsecond, rfl⟩ := List.mem_map.mp (h.known _ _ _ hright)
  have hrequest := (h.logged item hitem).request form answer hleft
  have hother := (h.logged second hsecond).request other given hright
  rw [← hid] at hother
  exact congrArg Item.key
    (eq_of_filterMap_nodup (h.requests.nodup_iff.mpr hdrawn) hitem hsecond hrequest hother)

/-- **The calls of a batch.** Whatever the server answers, in every run of the form each file is
uploaded again after certain refusals only and under the id of its first attempt, which no other
file has; only documents that were received and are not in quarantine are published; and no summary
is about a document of an accepted summary. -/
theorem batch_calls_are_fresh {state : State} (hreach : system.Reachable state) :
    Throughout (fun before call _ => Fresh before call) state.log ∧
      ((state.log.filterMap drawn).Nodup → ∀ left right form other answer given,
        (⟨.upload left form, answer⟩ : Call) ∈ state.log →
        (⟨.upload right other, given⟩ : Call) ∈ state.log →
        form.uploadRequestId = other.uploadRequestId → left = right) := by
  have hlogged := logged_of_reachable hreach
  refine ⟨hlogged.fresh, fun hdrawn left right form other answer given hleft hright hid => ?_⟩
  exact hlogged.batch.items.key_eq hdrawn hleft hright hid

/-! Of two files one is refused at first; then it is uploaded, published and announced too. -/

def exampleOptions : Options := ⟨"1", "", "en", "", true, true, some true⟩

def policyItem : Item := newItem 0 ⟨"policy.pdf", 10⟩ "Policy"

def guideItem : Item := newItem 1 ⟨"guide.pdf", 20⟩ "Guide"

/-- The upload of the first file is refused. -/
def refusedUpload (past : Trace) : (op : Op) → Answer op
  | .randomUUID => if past.isEmpty then "a" else "b"
  | .upload key _ => if key = 0 then .failed ⟨false, 400⟩ else .received (some "8") false
  | .publish _ _ => none
  | .digest _ => none

def acceptedUpload (_ : Trace) : (op : Op) → Answer op
  | .randomUUID => "c"
  | .upload _ _ => .received (some "7") false
  | .publish _ _ => none
  | .digest _ => none

def chosenBatch : Batch := ⟨exampleOptions, [policyItem, guideItem], [], []⟩

def refusedBatch : Batch where
  options := exampleOptions
  items :=
    [{ policyItem with uploadRequestId := some "a", status := .failed },
      { guideItem with
        uploadRequestId := some "b", documentId := some "8", status := .published }]
  digestPending := []
  notifiedIds := ["8"]

def publishedBatch : Batch where
  options := exampleOptions
  items :=
    [{ policyItem with uploadRequestId := some "a", documentId := some "7", status := .published },
      { guideItem with
        uploadRequestId := some "b", documentId := some "8", status := .published }]
  digestPending := []
  notifiedIds := ["8", "7"]

set_option maxRecDepth 4000 in
theorem batch_calls_are_fresh_retried : ∃ state : State,
    state.batch = publishedBatch ∧ state.log.filterMap drawn = ["a", "b"] ∧
      Throughout (fun before call _ => Fresh before call) state.log ∧
      ∀ left right form other answer given,
        (⟨.upload left form, answer⟩ : Call) ∈ state.log →
        (⟨.upload right other, given⟩ : Call) ∈ state.log →
        form.uploadRequestId = other.uploadRequestId → left = right := by
  obtain ⟨first, hfirstLog, hfirst⟩ := runs_runIn refusedUpload chosenBatch.run []
  obtain ⟨second, hsecondLog, hsecond⟩ := runs_runIn acceptedUpload refusedBatch.run []
  have hrefused : (runIn refusedUpload [] chosenBatch.run).2 = refusedBatch := by decide
  have hpublished : (runIn acceptedUpload [] refusedBatch.run).2 = publishedBatch := by decide
  rw [hrefused] at hfirst
  rw [hpublished] at hsecond
  have hchosen : system.Reachable ⟨chosenBatch, []⟩ :=
    .step (.init ⟨exampleOptions, rfl⟩) trivial
      (Step.choose [(⟨"policy.pdf", 10⟩, "Policy"), (⟨"guide.pdf", 20⟩, "Guide")] rfl)
  have htried := hchosen.next _ _ trivial (Step.process rfl rfl hfirst)
  have hdone := htried.next _ _ trivial (Step.process rfl rfl hsecond)
  have hdrawn : (first ++ second).filterMap drawn = ["a", "b"] := by
    rw [List.nil_append] at hfirstLog hsecondLog
    rw [← hfirstLog, ← hsecondLog, List.filterMap_append]
    decide
  obtain ⟨hfresh, hids⟩ := batch_calls_are_fresh hdone
  refine ⟨_, rfl, hdrawn, hfresh, hids ?_⟩
  rw [List.nil_append, hdrawn]
  decide

end Publication.BatchImport
