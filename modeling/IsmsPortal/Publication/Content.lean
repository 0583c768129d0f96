import IsmsPortal.Foundation.Checks
import IsmsPortal.Foundation.JsString
import IsmsPortal.Foundation.Runs
import IsmsPortal.Foundation.Table
import IsmsPortal.Publication.Scans

/-! # The content of published documents

A document has versions, an external link or both. Users publish documents
with versions only, administrators also documents with only a link.
`setExternalLink` removes the link of a document in any status. A published
document has content in every run that removes no link which is the only
content of a published document.
-/

namespace IsmsPortal

open Foundation

/-- A row of `Document` with its link. -/
structure LinkedDocument where
  id : String
  status : DocumentStatus
  externalUrl : Option String
  deletedAt : Option Int
deriving DecidableEq

/-- A row of `DocumentVersion` with the results of the scans of its file. -/
structure ScannedVersion where
  id : String
  documentId : String
  scans : List ScanStatus
deriving DecidableEq

structure ContentStore where
  documents : List LinkedDocument
  versions : List ScannedVersion
  documentIds : (documents.map LinkedDocument.id).Nodup
deriving DecidableEq

/-! ## Links -/

/-- What `new URL` finds in a text. -/
structure ParsedUrl where
  protocol : String
  username : String
  password : String
  href : String

def validateArticleUrl (parseUrl : String → Option ParsedUrl) (value : String) :
    Except String String := do
  let some parsed := parseUrl (JsString.trim value) | throw "Invalid article link"
  if parsed.protocol ≠ "https:" ∧ parsed.protocol ≠ "http:" then
    throw "Article link must be http or https"
  if parsed.username ≠ "" ∨ parsed.password ≠ "" then
    throw "Article link must not embed credentials"
  return parsed.href

/-- The link that `setExternalLink` writes: none for a missing or an empty one. -/
def linkOf (parseUrl : String → Option ParsedUrl) (url : Option String) :
    Except String (Option String) :=
  match url with
  | none => .ok none
  | some text => if text = "" then .ok none else (validateArticleUrl parseUrl text).map some

/-! ## Requests -/

namespace ContentStore

/-- A document that is not in the trash. -/
def findDocument (store : ContentStore) (id : String) : Option LinkedDocument :=
  store.documents.find? fun document => document.id = id && document.deletedAt.isNone

def versionsOf (store : ContentStore) (id : String) : List ScannedVersion :=
  store.versions.filter fun version => version.documentId = id

/-- `document.update`. -/
def updateDocument (store : ContentStore) (id : String) (status : Option DocumentStatus)
    (externalUrl : Option (Option String)) : ContentStore where
  __ := store
  documents := Table.update LinkedDocument.id id (fun document => { document with
    status := status.getD document.status
    externalUrl := externalUrl.getD document.externalUrl }) store.documents
  documentIds := by
    rw [Table.map_key_update]
    · exact store.documentIds
    · intro document
      rfl

def setStatus (store : ContentStore) (id : String) (status : DocumentStatus) : ContentStore :=
  store.updateDocument id (some status) none

/-- `document.create`. -/
def insertDocument (store : ContentStore) (row : LinkedDocument) : Except String ContentStore :=
  if hfresh : ∀ other ∈ store.documents, other.id ≠ row.id then
    .ok { store with
      documents := store.documents ++ [row]
      documentIds := Table.nodup_insert store.documentIds hfresh }
  else .error "Unique constraint failed"

def createExternal (parseUrl : String → Option ParsedUrl) (store : ContentStore)
    (newId url : String) : Except String ContentStore := do
  let externalUrl ← validateArticleUrl parseUrl url
  store.insertDocument ⟨newId, .draft, some externalUrl, none⟩

/-- The status of a document after an upload. -/
def uploadedStatus (scan : ScanStatus) : DocumentStatus :=
  if scan = .clean then .draft else .quarantined

/-- `upload` of a new document, or of a version of an existing one. -/
def upload (store : ContentStore) (documentId : Option String) (newId versionId : String)
    (scan : ScanStatus) : Except String ContentStore :=
  match documentId with
  | some id => do
      let some _ := store.findDocument id | throw "Not Found"
      return { store.setStatus id (uploadedStatus scan) with
        versions := store.versions ++ [⟨versionId, id, [scan]⟩] }
  | none => do
      let created ← store.insertDocument ⟨newId, uploadedStatus scan, none, none⟩
      return { created with versions := store.versions ++ [⟨versionId, newId, [scan]⟩] }

/-- The condition of `userPublish` and of `publish` on the content. -/
def publishable (store : ContentStore) (admin : Bool) (document : LinkedDocument) : Bool :=
  (!(store.versionsOf document.id).isEmpty || (admin && document.externalUrl.any (· ≠ ""))) &&
    (store.versionsOf document.id).all fun version => version.scans.contains .clean

/-- `userPublish` of moderators and users, or `publish` of administrators. -/
def publish (store : ContentStore) (admin : Bool) (id : String) : Except String ContentStore := do
  let some document := store.findDocument id | throw "Not Found"
  unless store.publishable admin document do
    throw "Every document version must pass antivirus scanning"
  if document.status = .published then throw "Document is already published"
  return store.setStatus id .published

/-- `userArchive`, or `archive` of administrators, who also reach the trash. -/
def archive (store : ContentStore) (admin : Bool) (id : String) : Except String ContentStore := do
  unless (store.findDocument id).isSome ||
      (admin && store.documents.any fun document => document.id = id) do throw "Not Found"
  return store.setStatus id .archived

/-- `userRestore`, or `restore` of administrators. -/
def restore (store : ContentStore) (admin : Bool) (id : String) : Except String ContentStore := do
  let some document := store.findDocument id
    | throw (if admin then "Archived document not found" else "Not Found")
  if document.status ≠ .archived then
    throw (if admin then "Archived document not found"
      else "Only archived documents can be restored")
  return store.setStatus id .draft

/-- `changeStatus`, whose body has no quarantine. -/
def changeStatus (store : ContentStore) (id : String) (status : DocumentStatus) :
    Except String ContentStore := do
  let some document := store.findDocument id | throw "Not Found"
  if document.status = .quarantined then throw "Quarantined documents cannot change status"
  if document.status = status then return store
  if status = .published then store.publish true id
  else if status = .archived then store.archive true id
  else if document.status = .archived then store.restore true id
  else return store.setStatus id .draft

def setExternalLink (parseUrl : String → Option ParsedUrl) (store : ContentStore) (id : String)
    (url : Option String) : Except String ContentStore := do
  let some _ := store.findDocument id | throw "Not Found"
  let link ← linkOf parseUrl url
  return store.updateDocument id none (some link)

end ContentStore

inductive ContentOperation
  | createExternal (newId url : String)
  | upload (documentId : Option String) (newId versionId : String) (scan : ScanStatus)
  | publish (admin : Bool) (id : String)
  | setExternalLink (id : String) (url : Option String)
  | archive (admin : Bool) (id : String)
  | restore (admin : Bool) (id : String)
  | changeStatus (id : String) (status : DocumentStatus)

/-- A request may be refused for other reasons: access, a lock, the file, missing metadata,
a copy that cannot be watermarked. -/
structure ContentRequest where
  operation : ContentOperation
  refused : Bool

def ContentOperation.answer (parseUrl : String → Option ParsedUrl) (store : ContentStore) :
    ContentOperation → Except String ContentStore
  | .createExternal newId url => store.createExternal parseUrl newId url
  | .upload documentId newId versionId scan => store.upload documentId newId versionId scan
  | .publish admin id => store.publish admin id
  | .setExternalLink id url => store.setExternalLink parseUrl id url
  | .archive admin id => store.archive admin id
  | .restore admin id => store.restore admin id
  | .changeStatus id status => store.changeStatus id status

/-- A request that fails changes nothing. -/
def ContentRequest.performed (parseUrl : String → Option ParsedUrl) (store : ContentStore)
    (request : ContentRequest) : ContentStore :=
  Checks.performed request.refused (request.operation.answer parseUrl store) store

/-- Requests one after the other, from empty tables. -/
def contentSystem (parseUrl : String → Option ParsedUrl) : System ContentStore ContentRequest where
  init store := store.documents = []
  step store request after := request.performed parseUrl store = after

/-! ## Content -/

/-- The document has a version or a link. -/
def HasContent (store : ContentStore) (document : LinkedDocument) : Prop :=
  (∃ version ∈ store.versions, version.documentId = document.id) ∨ document.externalUrl ≠ none

/-- Published documents outside the trash have content. -/
def Substantial (store : ContentStore) : Prop :=
  ∀ document ∈ store.documents, document.status = .published → document.deletedAt = none →
    HasContent store document

section Effects

variable {store after : ContentStore} {id : String}

theorem HasContent.of_subset {document : LinkedDocument} (hcontent : HasContent store document)
    (hversions : store.versions ⊆ after.versions) : HasContent after document := by
  rcases hcontent with ⟨version, hversion, hdocument⟩ | hlink
  · exact .inl ⟨version, hversions hversion, hdocument⟩
  · exact .inr hlink

/-- A request adds versions, and every document it leaves published has content. -/
theorem Substantial.of_documents (hsubstantial : Substantial store)
    (hversions : store.versions ⊆ after.versions)
    (hdocuments : ∀ document ∈ after.documents, document ∈ store.documents ∨
      (document.status = .published → document.deletedAt = none → HasContent after document)) :
    Substantial after := by
  intro document hdocument hpublished houtside
  rcases hdocuments document hdocument with hold | hnew
  · exact (hsubstantial document hold hpublished houtside).of_subset hversions
  · exact hnew hpublished houtside

theorem Substantial.updateDocument (hsubstantial : Substantial store)
    {status : Option DocumentStatus} {externalUrl : Option (Option String)}
    (hchanged : ∀ before ∈ store.documents, before.id = id →
      status.getD before.status = .published → before.deletedAt = none →
        (∃ version ∈ store.versions, version.documentId = id) ∨
          externalUrl.getD before.externalUrl ≠ none) :
    Substantial (store.updateDocument id status externalUrl) := by
  refine hsubstantial.of_documents (List.Subset.refl _) fun document hdocument => ?_
  obtain ⟨before, hbefore, rfl⟩ := List.mem_map.mp hdocument
  split
  next hid =>
    right
    intro hpublished houtside
    rcases hchanged before hbefore hid hpublished houtside with ⟨version, hversion, hof⟩ | hlink
    · exact .inl ⟨version, hversion, hof.trans hid.symm⟩
    · exact .inr hlink
  next => exact .inl hbefore

/-- Only a publication makes a document published. -/
theorem Substantial.setStatus (hsubstantial : Substantial store) {status : DocumentStatus}
    (hstatus : status ≠ .published) : Substantial (store.setStatus id status) := by
  apply hsubstantial.updateDocument
  intro before _ _ hpublished
  exact absurd hpublished hstatus

theorem Substantial.insertDocument (hsubstantial : Substantial store) {row : LinkedDocument}
    (hrow : row.status ≠ .published) (hinsert : store.insertDocument row = .ok after) :
    Substantial after ∧ after.versions = store.versions := by
  unfold ContentStore.insertDocument at hinsert
  split at hinsert
  · cases hinsert
    refine ⟨hsubstantial.of_documents (List.Subset.refl _) fun document hdocument => ?_, rfl⟩
    rcases List.mem_append.mp hdocument with hold | hnew
    · exact .inl hold
    · right
      intro hpublished
      rw [List.mem_singleton.mp hnew] at hpublished
      exact absurd hpublished hrow
  · cases hinsert

theorem uploadedStatus_ne_published (scan : ScanStatus) :
    ContentStore.uploadedStatus scan ≠ .published := by
  unfold ContentStore.uploadedStatus
  split <;> decide

theorem Substantial.upload (hsubstantial : Substantial store) {documentId : Option String}
    {newId versionId : String} {scan : ScanStatus}
    (hupload : store.upload documentId newId versionId scan = .ok after) : Substantial after := by
  unfold ContentStore.upload at hupload
  cases documentId with
  | some id =>
      cases hfound : store.findDocument id with
      | none => simp only [hfound, Checks.not_accepts_throw] at hupload
      | some existing =>
          simp only [hfound, Checks.accepts_pure] at hupload
          subst hupload
          have hstatus : Substantial (store.setStatus id (ContentStore.uploadedStatus scan)) :=
            hsubstantial.setStatus (uploadedStatus_ne_published scan)
          exact hstatus.of_documents (List.subset_append_left _ _) fun _ hdocument => .inl hdocument
  | none =>
      simp only [Checks.accepts_bind, Checks.accepts_pure] at hupload
      obtain ⟨created, hcreated, rfl⟩ := hupload
      obtain ⟨hstatus, hversions⟩ :=
        hsubstantial.insertDocument (uploadedStatus_ne_published scan) hcreated
      refine hstatus.of_documents ?_ fun _ hdocument => .inl hdocument
      rw [hversions]
      exact List.subset_append_left _ _

theorem Substantial.publish (hsubstantial : Substantial store) {admin : Bool}
    (hpublish : store.publish admin id = .ok after) : Substantial after := by
  unfold ContentStore.publish at hpublish
  cases hfound : store.findDocument id with
  | none => simp only [hfound, Checks.not_accepts_throw] at hpublish
  | some document =>
      simp only [hfound, Checks.accepts_unless, Checks.accepts_if, Checks.accepts_pure] at hpublish
      obtain ⟨hpublishable, -, rfl⟩ := hpublish
      have hselected := List.find?_some hfound
      simp only [Bool.and_eq_true, decide_eq_true_eq] at hselected
      apply hsubstantial.updateDocument
      intro before hbefore hid _ _
      have hsame : before = document := List.inj_on_of_nodup_map store.documentIds hbefore
        (List.mem_of_find?_eq_some hfound) (hid.trans hselected.1.symm)
      subst hsame
      rw [ContentStore.publishable, Bool.and_eq_true, Bool.or_eq_true] at hpublishable
      rcases hpublishable.1 with hversions | hlink
      · left
        rw [Bool.not_eq_true', List.isEmpty_eq_false_iff_exists_mem] at hversions
        obtain ⟨version, hversion⟩ := hversions
        obtain ⟨hmem, hof⟩ := List.mem_filter.mp hversion
        exact ⟨version, hmem, (of_decide_eq_true hof).trans hid⟩
      · right
        intro hnone
        rw [Option.getD_none] at hnone
        rw [hnone] at hlink
        simp at hlink

theorem Substantial.archive (hsubstantial : Substantial store) {admin : Bool}
    (harchive : store.archive admin id = .ok after) : Substantial after := by
  unfold ContentStore.archive at harchive
  simp only [Checks.accepts_unless, Checks.accepts_pure] at harchive
  obtain ⟨-, rfl⟩ := harchive
  exact hsubstantial.setStatus (by decide)

theorem Substantial.restore (hsubstantial : Substantial store) {admin : Bool}
    (hrestore : store.restore admin id = .ok after) : Substantial after := by
  unfold ContentStore.restore at hrestore
  cases hfound : store.findDocument id with
  | none => simp only [hfound, Checks.not_accepts_throw] at hrestore
  | some document =>
      simp only [hfound, Checks.accepts_if, Checks.accepts_pure] at hrestore
      obtain ⟨-, rfl⟩ := hrestore
      exact hsubstantial.setStatus (by decide)

theorem Substantial.changeStatus (hsubstantial : Substantial store) {status : DocumentStatus}
    (hchange : store.changeStatus id status = .ok after) : Substantial after := by
  unfold ContentStore.changeStatus at hchange
  cases hfound : store.findDocument id with
  | none => simp only [hfound, Checks.not_accepts_throw] at hchange
  | some document =>
      simp only [hfound, Checks.accepts_if] at hchange
      obtain ⟨-, hchange⟩ := hchange
      split at hchange
      · cases hchange
        exact hsubstantial
      split at hchange
      · exact hsubstantial.publish hchange
      split at hchange
      · exact hsubstantial.archive hchange
      split at hchange
      · exact hsubstantial.restore hchange
      · cases hchange
        exact hsubstantial.setStatus (by decide)

end Effects

/-! ## Runs -/

/-- The link of a published document is removed only if it has a version. -/
def KeepsContent (store : ContentStore) (request : ContentRequest) : Prop :=
  ∀ id url, request.operation = .setExternalLink id url → url.getD "" = "" →
    ∀ document ∈ store.documents, document.id = id → document.status = .published →
      document.deletedAt = none → ∃ version ∈ store.versions, version.documentId = id

theorem linkOf_eq_none {parseUrl : String → Option ParsedUrl} {url : Option String}
    (hlink : linkOf parseUrl url = .ok none) : url.getD "" = "" := by
  unfold linkOf at hlink
  split at hlink
  · rfl
  next text =>
    split at hlink
    next hempty => exact hempty
    next =>
      cases hvalid : validateArticleUrl parseUrl text with
      | error message =>
          rw [hvalid] at hlink
          cases hlink
      | ok href =>
          rw [hvalid] at hlink
          cases hlink

theorem substantial_answer {parseUrl : String → Option ParsedUrl} {store after : ContentStore}
    {request : ContentRequest} (hsubstantial : Substantial store)
    (hkeeps : KeepsContent store request)
    (hanswer : request.operation.answer parseUrl store = .ok after) : Substantial after := by
  obtain ⟨operation, refused⟩ := request
  cases operation with
  | createExternal newId url =>
      simp only [ContentOperation.answer, ContentStore.createExternal,
        Checks.accepts_bind] at hanswer
      obtain ⟨externalUrl, -, hinsert⟩ := hanswer
      have hdraft : DocumentStatus.draft ≠ .published := by decide
      exact (hsubstantial.insertDocument hdraft hinsert).1
  | upload documentId newId versionId scan => exact hsubstantial.upload hanswer
  | publish admin id => exact hsubstantial.publish hanswer
  | setExternalLink id url =>
      simp only [ContentOperation.answer, ContentStore.setExternalLink] at hanswer
      cases hfound : store.findDocument id with
      | none => simp only [hfound, Checks.not_accepts_throw] at hanswer
      | some document =>
          simp only [hfound, Checks.accepts_bind, Checks.accepts_pure] at hanswer
          obtain ⟨link, hlink, rfl⟩ := hanswer
          apply hsubstantial.updateDocument
          intro before hbefore hid hpublished houtside
          cases link with
          | some href => exact .inr (Option.some_ne_none href)
          | none => exact .inl (hkeeps id url rfl (linkOf_eq_none hlink) before hbefore hid
              hpublished houtside)
  | archive admin id => exact hsubstantial.archive hanswer
  | restore admin id => exact hsubstantial.restore hanswer
  | changeStatus id status => exact hsubstantial.changeStatus hanswer

/-- A published document outside the trash has a version or a link. -/
theorem published_has_content {parseUrl : String → Option ParsedUrl} {store : ContentStore}
    (hreach : (contentSystem parseUrl).ReachableWhile KeepsContent store) :
    ∀ document ∈ store.documents, document.status = .published → document.deletedAt = none →
      (∃ version ∈ store.versions, version.documentId = document.id) ∨
        document.externalUrl ≠ none := by
  change Substantial store
  induction hreach with
  | @init start hinit =>
      intro document hdocument
      rw [show start.documents = [] from hinit] at hdocument
      cases hdocument
  | @step before next request _ hkeeps hstep ih =>
      subst hstep
      apply Checks.performed_keeps Substantial ih
      intro after hanswer
      exact substantial_answer ih hkeeps hanswer

/-! ## Sample -/

/-- The condition on a link, for one operation. -/
def ContentOperation.keepsContent (store : ContentStore) : ContentOperation → Bool
  | .setExternalLink id url => url.getD "" ≠ "" || store.documents.all fun document =>
      document.id ≠ id || document.status ≠ .published || document.deletedAt.isSome ||
        store.versions.any fun version => version.documentId = id
  | _ => true

/-- The address of a page on the intranet. -/
def intranetUrl (text : String) : Option ParsedUrl :=
  if text = "https://intranet/guide" then some ⟨"https:", "", "", text⟩ else none

def keepingNext (store : ContentStore) (request : ContentRequest) : Option ContentStore :=
  if request.operation.keepsContent store then some (request.performed intranetUrl store) else none

theorem keepingNext_step {store after : ContentStore} {request : ContentRequest}
    (hnext : keepingNext store request = some after) :
    KeepsContent store request ∧ (contentSystem intranetUrl).step store request after := by
  rw [keepingNext, Option.ite_none_right_eq_some, Option.some.injEq] at hnext
  refine ⟨?_, hnext.2⟩
  intro id url hoperation hempty document hdocument hid hpublished houtside
  have hkeeps := hnext.1
  rw [hoperation, ContentOperation.keepsContent, hempty] at hkeeps
  simp only [ne_eq, not_true_eq_false, decide_false, Bool.false_or, List.all_eq_true] at hkeeps
  simpa [hid, hpublished, houtside] using hkeeps document hdocument

def noContent : ContentStore := ⟨[], [], List.nodup_nil⟩

/-- A published document without a link. -/
def unlinked (versions : List ScannedVersion) : ContentStore where
  documents := [⟨"guide", .published, none, none⟩]
  versions := versions
  documentIds := List.nodup_singleton _

/-- A document with a link and a version loses its link. -/
theorem published_has_content_version :
    (contentSystem intranetUrl).ReachableWhile KeepsContent
      (unlinked [⟨"first", "guide", [.clean]⟩]) ∧
    ∀ document ∈ (unlinked [⟨"first", "guide", [.clean]⟩]).documents,
      document.status = .published → document.deletedAt = none →
        (∃ version ∈ (unlinked [⟨"first", "guide", [.clean]⟩]).versions,
          version.documentId = document.id) ∨ document.externalUrl ≠ none := by
  have hrun : System.execute keepingNext noContent
      [⟨.createExternal "guide" "https://intranet/guide", false⟩,
        ⟨.upload (some "guide") "" "first" .clean, false⟩, ⟨.publish false "guide", false⟩,
        ⟨.setExternalLink "guide" none, false⟩] =
          some (unlinked [⟨"first", "guide", [.clean]⟩]) := by
    decide
  have hreach : (contentSystem intranetUrl).ReachableWhile KeepsContent
      (unlinked [⟨"first", "guide", [.clean]⟩]) :=
    System.ReachableWhile.execute (fun _ _ _ => keepingNext_step) hrun (.init rfl)
  exact ⟨hreach, published_has_content hreach⟩

/-- A document with only a link is published and loses its link. -/
theorem published_without_content :
    (contentSystem intranetUrl).Reachable (unlinked []) ∧
    ∃ document ∈ (unlinked []).documents, document.status = .published ∧
      document.deletedAt = none ∧ (unlinked []).versions = [] ∧ document.externalUrl = none := by
  have hrun : System.execute
      (fun store request => some (ContentRequest.performed intranetUrl store request)) noContent
      [⟨.createExternal "guide" "https://intranet/guide", false⟩, ⟨.publish true "guide", false⟩,
        ⟨.setExternalLink "guide" (some ""), false⟩] = some (unlinked []) := by
    decide
  refine ⟨?_, by decide⟩
  refine System.ReachableWhile.execute (fun store request after hnext => ?_) hrun (.init rfl)
  exact ⟨trivial, Option.some.inj hnext⟩

end IsmsPortal
