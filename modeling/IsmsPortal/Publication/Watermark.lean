import IsmsPortal.Foundation.Checks
import IsmsPortal.Foundation.Runs
import IsmsPortal.Foundation.Table
import IsmsPortal.Publication.Scans

/-! # Watermarked copies of a sensitive document

The latest version of each language of a sensitive document is served from a
watermarked copy. `prepareForPublication` makes the copies that are missing; a
publication, the switch to sensitive and the first request for a file call it.
A copy is not made again when the position of the watermark changes. It is
right for the current position in every run in which a document with copies
becomes sensitive again only with its old position.
-/

namespace IsmsPortal

open Foundation

inductive WatermarkPosition
  | header
  | center
  | footer
deriving DecidableEq

/-- The watermarks of the three formats. Each throws on a file it cannot read. -/
structure WatermarkTools where
  watermarkPdf : List UInt8 → WatermarkPosition → Except String (List UInt8)
  watermarkDocx : List UInt8 → WatermarkPosition → Except String (List UInt8)
  watermarkXlsx : List UInt8 → WatermarkPosition → Except String (List UInt8)

def applyPermanentWatermark (tools : WatermarkTools) (content : List UInt8) (mimeType : String)
    (position : WatermarkPosition) : Except String (List UInt8) :=
  if mimeType = "application/pdf" then tools.watermarkPdf content position
  else if mimeType =
      "application/vnd.openxmlformats-officedocument.wordprocessingml.document" then
    tools.watermarkDocx content position
  else if mimeType = "application/vnd.openxmlformats-officedocument.spreadsheetml.sheet" then
    tools.watermarkXlsx content position
  else .error "Permanent watermarking is unsupported for this file type"

/-- A row of `DocumentVersion` with the content of its files. -/
structure FileVersion where
  id : String
  locale : String
  version : Nat
  storedFile : List UInt8
  mimeType : String
  scan : ScanStatus
  distributedStoredFile : Option (List UInt8)
deriving DecidableEq

namespace FileVersion

/-- The unique columns of a version of one document. -/
def key (row : FileVersion) : String × Nat := (row.locale, row.version)

/-- The columns that never change. -/
def fixed (row : FileVersion) : FileVersion := { row with distributedStoredFile := none }

theorem same_of_fixed {row other : FileVersion} (hfixed : row.fixed = other.fixed) :
    row.id = other.id ∧ row.locale = other.locale ∧ row.version = other.version ∧
      row.storedFile = other.storedFile ∧ row.mimeType = other.mimeType := by
  simp only [fixed, mk.injEq] at hfixed
  tauto

def distribute (copy : List UInt8) (row : FileVersion) : FileVersion :=
  { row with distributedStoredFile := some copy }

end FileVersion

/-- A row of `Document` with its versions. -/
structure SensitiveDocument where
  status : DocumentStatus
  sensitive : Bool
  watermarkPosition : WatermarkPosition
  externalUrl : Option String
  versions : List FileVersion
  versionIds : (versions.map FileVersion.id).Nodup
  versionKeys : (versions.map FileVersion.key).Nodup
deriving DecidableEq

/-! ## Copies -/

def latestVersions (versions : List FileVersion) : List FileVersion :=
  versions.filter fun version => !versions.any fun candidate =>
    candidate.locale = version.locale && candidate.version > version.version

/-- The copy of a version. Reading, scanning or storing it may fail. -/
def copyOf (tools : WatermarkTools) (failing : List String) (position : WatermarkPosition)
    (version : FileVersion) : Except String (List UInt8) :=
  if version.id ∈ failing then
    .error "Watermarked distribution file failed antivirus scanning"
  else applyPermanentWatermark tools version.storedFile version.mimeType position

/-- The loop of `prepareForPublication`. An error leaves the copies made before it. -/
def prepareLoop (tools : WatermarkTools) (failing : List String) (position : WatermarkPosition) :
    List FileVersion → List FileVersion → List FileVersion × Option String
  | [], table => (table, none)
  | version :: rest, table =>
      if version.distributedStoredFile.isSome then prepareLoop tools failing position rest table
      else match copyOf tools failing position version with
        | .error message => (table, some message)
        | .ok copy => prepareLoop tools failing position rest
            (Table.update FileVersion.id version.id (FileVersion.distribute copy) table)

theorem map_prepareLoop {σ : Type} {column : FileVersion → σ} {tools : WatermarkTools}
    {failing : List String} {position : WatermarkPosition}
    (hcolumn : ∀ copy row, column (FileVersion.distribute copy row) = column row)
    (remaining table : List FileVersion) :
    (prepareLoop tools failing position remaining table).1.map column = table.map column := by
  induction remaining generalizing table with
  | nil => rfl
  | cons version rest ih =>
      unfold prepareLoop
      split
      · exact ih table
      split
      · rfl
      next copy _ =>
        rw [ih, Table.map_update]
        exact hcolumn copy

namespace SensitiveDocument

/-- The versions after the loop of `prepareForPublication`, and its error. -/
def prepared (tools : WatermarkTools) (failing : List String) (document : SensitiveDocument) :
    List FileVersion × Option String :=
  prepareLoop tools failing document.watermarkPosition (latestVersions document.versions)
    document.versions

def prepareForPublication (tools : WatermarkTools) (failing : List String)
    (document : SensitiveDocument) : SensitiveDocument × Option String :=
  if document.sensitive then
    ({ document with
        versions := (document.prepared tools failing).1
        versionIds := by
          rw [prepared, map_prepareLoop]
          · exact document.versionIds
          · intro copy row
            rfl
        versionKeys := by
          rw [prepared, map_prepareLoop]
          · exact document.versionKeys
          · intro copy row
            rfl }, (document.prepared tools failing).2)
  else (document, none)

/-! ## Requests -/

def latest (document : SensitiveDocument) (locale : String) : Option FileVersion :=
  Query.findFirst (fun row => row.locale = locale)
    (fun left right => right.version ≤ left.version) document.versions

/-- `upload` of a version. -/
def upload (document : SensitiveDocument) (id locale mimeType : String) (content : List UInt8)
    (scan : ScanStatus) : Except String SensitiveDocument :=
  let row : FileVersion :=
    ⟨id, locale, ((document.latest locale).map FileVersion.version).getD 0 + 1, content, mimeType,
      scan, none⟩
  if hfresh : (∀ other ∈ document.versions, other.id ≠ row.id) ∧
      ∀ other ∈ document.versions, other.key ≠ row.key then
    .ok { document with
      status := if scan = .clean then .draft else .quarantined
      versions := document.versions ++ [row]
      versionIds := Table.nodup_insert document.versionIds hfresh.1
      versionKeys := Table.nodup_insert document.versionKeys hfresh.2 }
  else .error "Unique constraint failed"

/-- `setSensitivity`. The switch to sensitive is undone when a copy cannot be made, the
position stays. -/
def setSensitivity (tools : WatermarkTools) (failing : List String) (document : SensitiveDocument)
    (sensitive : Bool) (watermarkPosition : Option WatermarkPosition) : SensitiveDocument :=
  if sensitive = document.sensitive then document
  else if sensitive then
    let changed := { document with
      sensitive := true
      watermarkPosition := watermarkPosition.getD .center }
    if document.status = .published then
      match changed.prepareForPublication tools failing with
      | (prepared, none) => prepared
      | (prepared, some _) => { prepared with sensitive := document.sensitive }
    else changed
  else { document with sensitive := false }

/-- The condition of `userPublish` and of `publish` on the content. -/
def publishable (document : SensitiveDocument) (admin : Bool) : Bool :=
  (!document.versions.isEmpty || (admin && document.externalUrl.any (· ≠ ""))) &&
    document.versions.all fun version => version.scan = .clean

/-- `userPublish` of moderators and users, or `publish` of administrators. The copies are
made before the metadata of the document are checked. -/
def publish (tools : WatermarkTools) (failing : List String) (document : SensitiveDocument)
    (admin complete : Bool) : SensitiveDocument :=
  if document.publishable admin then
    match document.prepareForPublication tools failing with
    | (prepared, none) => if complete then { prepared with status := .published } else prepared
    | (prepared, some _) => prepared
  else document

/-- `stream`: the document afterwards and the bytes that are served. A protected Office
file is served decrypted in a preview; a copy is never such a file. -/
def stream (tools : WatermarkTools) (failing : List String) (document : SensitiveDocument)
    (locale : String) : SensitiveDocument × Except String (List UInt8) :=
  match document.latest locale with
  | none => (document, .error "Translation has no clean version")
  | some version =>
      if version.scan ≠ .clean then (document, .error "Translation has no clean version")
      else if !document.sensitive then (document, .ok version.storedFile)
      else match version.distributedStoredFile with
        | some copy => (document, .ok copy)
        | none =>
            match document.prepareForPublication tools failing with
            | (prepared, some message) => (prepared, .error message)
            | (prepared, none) =>
                match (prepared.versions.find? fun row => row.id = version.id).bind
                    FileVersion.distributedStoredFile with
                | some copy => (prepared, .ok copy)
                | none => (prepared, .error "Translation has no downloadable version")

end SensitiveDocument

inductive WatermarkOperation
  | upload (id locale mimeType : String) (content : List UInt8) (scan : ScanStatus)
  | setSensitivity (sensitive : Bool) (watermarkPosition : Option WatermarkPosition)
  | publish (admin complete : Bool)
  | preview (locale : String)
  | download (locale : String)

/-- A request, with the versions whose copy cannot be made. It may be refused for other
reasons: access, a lock, the format of a file. -/
structure WatermarkRequest where
  operation : WatermarkOperation
  failing : List String
  refused : Bool

def WatermarkRequest.performed (tools : WatermarkTools) (document : SensitiveDocument)
    (request : WatermarkRequest) : SensitiveDocument :=
  if request.refused then document
  else match request.operation with
    | .upload id locale mimeType content scan =>
        (document.upload id locale mimeType content scan).toOption.getD document
    | .setSensitivity sensitive watermarkPosition =>
        document.setSensitivity tools request.failing sensitive watermarkPosition
    | .publish admin complete => document.publish tools request.failing admin complete
    | .preview locale | .download locale => (document.stream tools request.failing locale).1

/-- Requests on one document, one after the other, from its creation. -/
def watermarkSystem (tools : WatermarkTools) : System SensitiveDocument WatermarkRequest where
  init document := document.versions = []
  step document request after := request.performed tools document = after

/-! ## Copies that are up to date -/

/-- The copy of the version, if any, has its watermark at the position. -/
def UpToDate (tools : WatermarkTools) (position : WatermarkPosition) (version : FileVersion) :
    Prop :=
  ∀ copy, version.distributedStoredFile = some copy →
    applyPermanentWatermark tools version.storedFile version.mimeType position = .ok copy

/-- The copies of the latest versions are right for the position of the document. -/
def CopiesCurrent (tools : WatermarkTools) (document : SensitiveDocument) : Prop :=
  ∀ version ∈ latestVersions document.versions, UpToDate tools document.watermarkPosition version

theorem mem_latestVersions {versions : List FileVersion} {version : FileVersion} :
    version ∈ latestVersions versions ↔ version ∈ versions ∧
      ∀ candidate ∈ versions, candidate.locale = version.locale →
        candidate.version ≤ version.version := by
  simp only [latestVersions, List.mem_filter, Bool.not_eq_true', List.any_eq_false,
    Bool.and_eq_true, decide_eq_true_eq, not_and, not_lt]

/-- A row after `prepareForPublication`: as before, or with a new copy. -/
def Prepared (tools : WatermarkTools) (position : WatermarkPosition) (versions : List FileVersion)
    (row : FileVersion) : Prop :=
  ∃ before ∈ versions, row.fixed = before.fixed ∧
    (row.distributedStoredFile = before.distributedStoredFile ∨ UpToDate tools position row)

section Copies

variable {tools : WatermarkTools} {failing : List String} {position : WatermarkPosition}
variable {versions table : List FileVersion}

theorem copyOf_eq_ok {version : FileVersion} {copy : List UInt8}
    (hcopy : copyOf tools failing position version = .ok copy) :
    applyPermanentWatermark tools version.storedFile version.mimeType position = .ok copy := by
  unfold copyOf at hcopy
  split at hcopy
  · cases hcopy
  · exact hcopy

theorem prepared_prepareLoop (hids : (versions.map FileVersion.id).Nodup)
    {remaining : List FileVersion} (hremaining : remaining ⊆ versions)
    (htable : ∀ row ∈ table, Prepared tools position versions row) :
    ∀ row ∈ (prepareLoop tools failing position remaining table).1,
      Prepared tools position versions row := by
  induction remaining generalizing table with
  | nil => exact htable
  | cons version rest ih =>
      have hrest : rest ⊆ versions := fun row hrow => hremaining (List.mem_cons_of_mem _ hrow)
      unfold prepareLoop
      split
      · exact ih hrest htable
      split
      · exact htable
      next copy hcopy =>
        apply ih hrest
        intro row hrow
        obtain ⟨old, hold, rfl⟩ := List.mem_map.mp hrow
        obtain ⟨before, hbefore, hfixed, hcopies⟩ := htable old hold
        split
        next hid =>
          -- The row that is updated is the version that was read.
          have hsame : before = version := by
            apply List.inj_on_of_nodup_map hids hbefore (hremaining List.mem_cons_self)
            rw [← hid]
            exact (FileVersion.same_of_fixed hfixed).1.symm
          subst hsame
          refine ⟨before, hbefore, hfixed, .inr fun other hother => ?_⟩
          cases hother
          obtain ⟨-, -, -, hfile, htype⟩ := FileVersion.same_of_fixed hfixed
          rw [FileVersion.distribute, hfile, htype]
          exact copyOf_eq_ok hcopy
        next => exact ⟨before, hbefore, hfixed, hcopies⟩

theorem UpToDate.of_fixed {row before : FileVersion} (hfixed : row.fixed = before.fixed)
    (hcopy : row.distributedStoredFile = before.distributedStoredFile)
    (hbefore : UpToDate tools position before) : UpToDate tools position row := by
  intro copy hrow
  obtain ⟨-, -, -, hfile, htype⟩ := FileVersion.same_of_fixed hfixed
  rw [hfile, htype]
  exact hbefore copy (hcopy ▸ hrow)

/-- The copies do not decide which versions are the latest. -/
theorem mem_latestVersions_of_fixed
    (hfixed : table.map FileVersion.fixed = versions.map FileVersion.fixed)
    {row before : FileVersion} (hrow : row ∈ latestVersions table) (hbefore : before ∈ versions)
    (hsame : row.fixed = before.fixed) : before ∈ latestVersions versions := by
  rw [mem_latestVersions] at hrow ⊢
  refine ⟨hbefore, fun candidate hcandidate hlocale => ?_⟩
  have hmem : candidate.fixed ∈ table.map FileVersion.fixed := by
    rw [hfixed]
    exact List.mem_map_of_mem hcandidate
  obtain ⟨other, hother, hothers⟩ := List.mem_map.mp hmem
  obtain ⟨-, hotherLocale, hotherVersion, -⟩ := FileVersion.same_of_fixed hothers
  obtain ⟨-, hrowLocale, hrowVersion, -⟩ := FileVersion.same_of_fixed hsame
  rw [← hotherVersion, ← hrowVersion]
  exact hrow.2 other hother (by rw [hotherLocale, hlocale, hrowLocale])

end Copies

section Requests

variable {tools : WatermarkTools} {failing : List String} {document after : SensitiveDocument}

theorem prepared_of_mem {row : FileVersion} (hrow : row ∈ (document.prepared tools failing).1) :
    Prepared tools document.watermarkPosition document.versions row :=
  prepared_prepareLoop document.versionIds List.filter_sublist.subset
    (fun other hother => ⟨other, hother, rfl, .inl rfl⟩) row hrow

/-- The rows that `prepareForPublication` leaves have right copies if the latest had. -/
theorem prepared_upToDate (hcurrent : CopiesCurrent tools document) :
    ∀ row ∈ latestVersions (document.prepared tools failing).1,
      UpToDate tools document.watermarkPosition row := by
  intro row hrow
  have hfixed : (document.prepared tools failing).1.map FileVersion.fixed =
      document.versions.map FileVersion.fixed := by
    apply map_prepareLoop
    intro copy other
    rfl
  obtain ⟨before, hbefore, hsame, hcopy | hnew⟩ := prepared_of_mem (mem_latestVersions.mp hrow).1
  · exact .of_fixed hsame hcopy
      (hcurrent before (mem_latestVersions_of_fixed hfixed hrow hbefore hsame))
  · exact hnew

theorem CopiesCurrent.prepareForPublication (hcurrent : CopiesCurrent tools document)
    (failing : List String) :
    CopiesCurrent tools (document.prepareForPublication tools failing).1 := by
  unfold SensitiveDocument.prepareForPublication
  split
  · exact prepared_upToDate hcurrent
  · exact hcurrent

theorem SensitiveDocument.latest_spec {locale : String} {row : FileVersion}
    (hlatest : document.latest locale = some row) :
    row ∈ latestVersions document.versions ∧ row.locale = locale := by
  have : Std.Total fun left right : FileVersion => right.version ≤ left.version :=
    ⟨fun _ _ => le_total _ _⟩
  have : IsTrans FileVersion fun left right => right.version ≤ left.version :=
    ⟨fun _ _ _ hfirst hsecond => hsecond.trans hfirst⟩
  obtain ⟨hmem, hselects, hfirst⟩ := Query.isFirst_findFirst hlatest
  have hlocale : row.locale = locale := of_decide_eq_true hselects
  refine ⟨mem_latestVersions.mpr ⟨hmem, fun candidate hcandidate hsame => ?_⟩, hlocale⟩
  exact hfirst candidate hcandidate (decide_eq_true (hsame.trans hlocale))

/-- The copy that was just made of a version. -/
theorem copy_of_prepared {version : FileVersion} {copy : List UInt8}
    (hversion : version ∈ document.versions) (hnone : version.distributedStoredFile = none)
    (hfound : ((document.prepared tools failing).1.find? fun row => row.id = version.id).bind
      FileVersion.distributedStoredFile = some copy) :
    applyPermanentWatermark tools version.storedFile version.mimeType
      document.watermarkPosition = .ok copy := by
  obtain ⟨row, hrow, hcopy⟩ := Option.bind_eq_some_iff.mp hfound
  have hid : row.id = version.id := by simpa using List.find?_some hrow
  obtain ⟨before, hbefore, hfixed, hold | hnew⟩ := prepared_of_mem (List.mem_of_find?_eq_some hrow)
  all_goals
    obtain ⟨hsameId, -, -, hfile, htype⟩ := FileVersion.same_of_fixed hfixed
    have hsame : before = version :=
      List.inj_on_of_nodup_map document.versionIds hbefore hversion (hsameId.symm.trans hid)
    subst hsame
  · rw [hold, hnone] at hcopy
    cases hcopy
  · rw [← hfile, ← htype]
    exact hnew copy hcopy

/-- A new version has no copy, and the latest versions of the other languages stay. -/
theorem CopiesCurrent.upload (hcurrent : CopiesCurrent tools document)
    {id locale mimeType : String} {content : List UInt8} {scan : ScanStatus}
    (hupload : document.upload id locale mimeType content scan = .ok after) :
    CopiesCurrent tools after := by
  unfold SensitiveDocument.upload at hupload
  simp only at hupload
  split at hupload
  · cases hupload
    intro version hversion
    obtain ⟨hmem, hmax⟩ := mem_latestVersions.mp hversion
    rcases List.mem_append.mp hmem with hold | hnew
    · apply hcurrent version
      rw [mem_latestVersions]
      exact ⟨hold, fun candidate hcandidate =>
        hmax candidate (List.mem_append_left _ hcandidate)⟩
    · rw [List.mem_singleton.mp hnew]
      intro copy hcopy
      cases hcopy
  · cases hupload

theorem CopiesCurrent.publish (hcurrent : CopiesCurrent tools document) (admin complete : Bool) :
    CopiesCurrent tools (document.publish tools failing admin complete) := by
  have hprepared := hcurrent.prepareForPublication failing
  unfold SensitiveDocument.publish
  split
  · split
    next prepared heq =>
      rw [heq] at hprepared
      split
      · exact hprepared
      · exact hprepared
    next prepared message heq =>
      rw [heq] at hprepared
      exact hprepared
  · exact hcurrent

/-- A document that becomes sensitive keeps its position, or has no copies. -/
def SwitchesAlike (document : SensitiveDocument) (position : Option WatermarkPosition) : Prop :=
  position.getD .center = document.watermarkPosition ∨
    ∀ version ∈ latestVersions document.versions, version.distributedStoredFile = none

theorem CopiesCurrent.setSensitivity (hcurrent : CopiesCurrent tools document) {sensitive : Bool}
    {position : Option WatermarkPosition}
    (halike : sensitive = true → document.sensitive = false → SwitchesAlike document position) :
    CopiesCurrent tools (document.setSensitivity tools failing sensitive position) := by
  unfold SensitiveDocument.setSensitivity
  split
  · exact hcurrent
  next hchanges =>
    split
    next hon =>
      have hoff : document.sensitive = false := by
        subst hon
        simpa using Ne.symm hchanges
      have hchanged : CopiesCurrent tools { document with
          sensitive := true, watermarkPosition := position.getD .center } := by
        rcases halike hon hoff with hsame | hnone
        · intro version hversion
          exact hsame ▸ hcurrent version hversion
        · intro version hversion copy hcopy
          rw [hnone version hversion] at hcopy
          cases hcopy
      have hprepared := hchanged.prepareForPublication failing
      simp only
      split
      · split
        next prepared heq =>
          rw [heq] at hprepared
          exact hprepared
        next prepared message heq =>
          rw [heq] at hprepared
          exact hprepared
      · exact hchanged
    next => exact hcurrent

theorem CopiesCurrent.stream (hcurrent : CopiesCurrent tools document) (locale : String) :
    CopiesCurrent tools (document.stream tools failing locale).1 := by
  have hprepared := hcurrent.prepareForPublication failing
  unfold SensitiveDocument.stream
  split
  · exact hcurrent
  split
  · exact hcurrent
  split
  · exact hcurrent
  split
  · exact hcurrent
  split
  next prepared message heq =>
    rw [heq] at hprepared
    exact hprepared
  next prepared heq =>
    rw [heq] at hprepared
    split
    · exact hprepared
    · exact hprepared

end Requests

/-! ## Runs -/

/-- The condition of `SwitchesAlike` on every request that makes the document sensitive. -/
def KeepsPosition (document : SensitiveDocument) (request : WatermarkRequest) : Prop :=
  ∀ position, request.operation = .setSensitivity true position → document.sensitive = false →
    SwitchesAlike document position

theorem copiesCurrent_reachable {tools : WatermarkTools} {document : SensitiveDocument}
    (hreach : (watermarkSystem tools).ReachableWhile KeepsPosition document) :
    CopiesCurrent tools document := by
  induction hreach with
  | @init start hinit =>
      intro version hversion
      rw [show start.versions = [] from hinit] at hversion
      cases hversion
  | @step before next request _ hkeeps hstep ih =>
      subst hstep
      obtain ⟨operation, failing, refused⟩ := request
      unfold WatermarkRequest.performed
      split
      · exact ih
      cases operation with
      | upload id locale mimeType content scan =>
          cases hupload : before.upload id locale mimeType content scan with
          | error message =>
              simp only [hupload]
              exact ih
          | ok after =>
              simp only [hupload]
              exact ih.upload hupload
      | setSensitivity sensitive position =>
          apply ih.setSensitivity
          intro hon hoff
          subst hon
          exact hkeeps position rfl hoff
      | publish admin complete => exact ih.publish admin complete
      | preview locale => exact ih.stream locale
      | download locale => exact ih.stream locale

/-- What is served of a sensitive document is the latest version of the language with the
watermark at the current position. -/
theorem stream_serves_watermark {tools : WatermarkTools} {document : SensitiveDocument}
    (hreach : (watermarkSystem tools).ReachableWhile KeepsPosition document)
    (hsensitive : document.sensitive = true) {failing : List String} {locale : String}
    {bytes : List UInt8} (hserved : (document.stream tools failing locale).2 = .ok bytes) :
    ∃ version ∈ document.versions, version.locale = locale ∧
      (∀ other ∈ document.versions, other.locale = locale → other.version ≤ version.version) ∧
      applyPermanentWatermark tools version.storedFile version.mimeType
        document.watermarkPosition = .ok bytes := by
  have hcurrent := copiesCurrent_reachable hreach
  unfold SensitiveDocument.stream at hserved
  split at hserved
  · cases hserved
  next version hlatest =>
    obtain ⟨hversion, hlocale⟩ := SensitiveDocument.latest_spec hlatest
    obtain ⟨hmem, hmax⟩ := mem_latestVersions.mp hversion
    refine ⟨version, hmem, hlocale, fun other hother hin =>
      hmax other hother (hin.trans hlocale.symm), ?_⟩
    rw [hsensitive] at hserved
    split at hserved
    · cases hserved
    split at hserved
    · contradiction
    split at hserved
    next copy hcopy =>
      cases hserved
      exact hcurrent version hversion _ hcopy
    next hnone =>
      split at hserved
      · cases hserved
      next prepared heq =>
        split at hserved
        next copy hfound =>
          cases hserved
          rw [SensitiveDocument.prepareForPublication, if_pos hsensitive] at heq
          rw [← (Prod.mk.inj heq).1] at hfound
          exact copy_of_prepared hmem hnone hfound
        next => cases hserved

/-! ## Sample -/

/-- Tools that put one byte for the position before the content. -/
def markTools : WatermarkTools where
  watermarkPdf content position := .ok (markOf position :: content)
  watermarkDocx content position := .ok (markOf position :: content)
  watermarkXlsx content position := .ok (markOf position :: content)
where
  markOf : WatermarkPosition → UInt8
    | .header => 1
    | .center => 2
    | .footer => 3

instance (document : SensitiveDocument) (position : Option WatermarkPosition) :
    Decidable (SwitchesAlike document position) :=
  inferInstanceAs (Decidable (_ ∨ _))

/-- The condition on a switch, for one operation. -/
def WatermarkOperation.keepsPosition (document : SensitiveDocument) : WatermarkOperation → Bool
  | .setSensitivity true position => document.sensitive || SwitchesAlike document position
  | _ => true

def alikeNext (document : SensitiveDocument) (request : WatermarkRequest) :
    Option SensitiveDocument :=
  if request.operation.keepsPosition document then some (request.performed markTools document)
  else none

theorem alikeNext_step {document after : SensitiveDocument} {request : WatermarkRequest}
    (hnext : alikeNext document request = some after) :
    KeepsPosition document request ∧ (watermarkSystem markTools).step document request after := by
  rw [alikeNext, Option.ite_none_right_eq_some, Option.some.injEq] at hnext
  refine ⟨fun position hoperation hoff => ?_, hnext.2⟩
  have hkeeps := hnext.1
  rw [hoperation, WatermarkOperation.keepsPosition, hoff] at hkeeps
  simpa using hkeeps

def newDocument : SensitiveDocument :=
  ⟨.draft, false, .center, none, [], List.nodup_nil, List.nodup_nil⟩

/-- A sensitive document with one file and a copy with the watermark in the centre. -/
def markedDocument (position : WatermarkPosition) : SensitiveDocument where
  status := .draft
  sensitive := true
  watermarkPosition := position
  externalUrl := none
  versions := [⟨"first", "en", 1, [7], "application/pdf", .clean, some [2, 7]⟩]
  versionIds := List.nodup_singleton _
  versionKeys := List.nodup_singleton _

/-- Upload, become sensitive and be read, then become sensitive again. -/
def switchedAgain (position : WatermarkPosition) : List WatermarkRequest :=
  [⟨.upload "first" "en" "application/pdf" [7] .clean, [], false⟩,
    ⟨.setSensitivity true (some .center), [], false⟩, ⟨.preview "en", [], false⟩,
    ⟨.setSensitivity false none, [], false⟩, ⟨.setSensitivity true (some position), [], false⟩]

/-- With the old position, the copy is right. -/
theorem stream_serves_watermark_centre :
    (watermarkSystem markTools).ReachableWhile KeepsPosition (markedDocument .center) ∧
    ((markedDocument .center).stream markTools [] "en").2 = .ok [2, 7] ∧
    ∃ version ∈ (markedDocument .center).versions, version.locale = "en" ∧
      applyPermanentWatermark markTools version.storedFile version.mimeType .center =
        .ok [2, 7] := by
  have hrun : System.execute alikeNext newDocument (switchedAgain .center) =
      some (markedDocument .center) := by
    decide
  have hreach : (watermarkSystem markTools).ReachableWhile KeepsPosition (markedDocument .center) :=
    System.ReachableWhile.execute (fun _ _ _ => alikeNext_step) hrun (.init rfl)
  have hserved : ((markedDocument .center).stream markTools [] "en").2 = .ok [2, 7] := by
    decide
  obtain ⟨version, hversion, hlocale, -, hmark⟩ := stream_serves_watermark hreach rfl hserved
  exact ⟨hreach, hserved, version, hversion, hlocale, hmark⟩

/-- With another position, the copy still has its watermark in the centre. -/
theorem stream_serves_old_watermark :
    (watermarkSystem markTools).Reachable (markedDocument .footer) ∧
    (markedDocument .footer).sensitive = true ∧
    (markedDocument .footer).watermarkPosition = .footer ∧
    ((markedDocument .footer).stream markTools [] "en").2 = .ok [2, 7] ∧
    ∀ version ∈ (markedDocument .footer).versions,
      applyPermanentWatermark markTools version.storedFile version.mimeType .footer =
        .ok [3, 7] := by
  have hrun : System.execute
      (fun document request => some (WatermarkRequest.performed markTools document request))
      newDocument (switchedAgain .footer) = some (markedDocument .footer) := by
    decide
  refine ⟨?_, rfl, rfl, by decide, by decide⟩
  refine System.ReachableWhile.execute (fun document request after hnext => ?_) hrun (.init rfl)
  exact ⟨trivial, Option.some.inj hnext⟩

end IsmsPortal
