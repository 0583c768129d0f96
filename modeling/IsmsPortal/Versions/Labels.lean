import IsmsPortal.Destruction.Database
import IsmsPortal.Foundation.Checks
import IsmsPortal.Foundation.Runs
import IsmsPortal.Foundation.Table
import Mathlib.Data.Prod.Lex
import Mathlib.Data.List.Dedup

/-! # Version labels

A version has a number within its document and language, and a label
`major.minor`. A new version takes the minor after the latest label, and a
publication makes the latest label of each language a major. `updateMetadata`
moves a version to another language; it looks for the number of the version
there, not for its label. The labels follow the numbers in every run in which
the labels of moved versions fit.
-/

namespace IsmsPortal

open Foundation

/-- A row of `DocumentVersion` with its label. -/
structure LabelledVersion where
  id : String
  documentId : String
  locale : String
  version : Nat
  versionMajor : Nat
  versionMinor : Nat
deriving DecidableEq

namespace LabelledVersion

/-- The unique columns of a version. -/
def key (row : LabelledVersion) : String × String × Nat := (row.documentId, row.locale, row.version)

/-- The versions that are numbered together. -/
def In (row : LabelledVersion) (documentId locale : String) : Prop :=
  row.documentId = documentId ∧ row.locale = locale

instance (row : LabelledVersion) (documentId locale : String) :
    Decidable (row.In documentId locale) :=
  inferInstanceAs (Decidable (_ ∧ _))

/-- Labels in lexicographic order. -/
def label (row : LabelledVersion) : Nat ×ₗ Nat := toLex (row.versionMajor, row.versionMinor)

end LabelledVersion

/-- The status of a row of `Document`. -/
structure VersionedDocument where
  id : String
  status : DocumentStatus
  deletedAt : Option Int
deriving DecidableEq

structure VersionStore where
  documents : List VersionedDocument
  versions : List LabelledVersion
  documentIds : (documents.map VersionedDocument.id).Nodup
  versionIds : (versions.map LabelledVersion.id).Nodup
  versionKeys : (versions.map LabelledVersion.key).Nodup
deriving DecidableEq

/-! ## Publication -/

/-- The first of the versions with the highest number. -/
def highest : List LabelledVersion → Option LabelledVersion
  | [] => none
  | first :: rest => some (rest.foldl
      (fun left right => if right.version > left.version then right else left) first)

/-- `Math.max` of the majors. -/
def highestMajor (versions : List LabelledVersion) : Nat :=
  (versions.map LabelledVersion.versionMajor).max?.getD 0

/-- The major version made of a version. -/
def madeMajor (major : Nat) (row : LabelledVersion) : LabelledVersion :=
  { row with versionMajor := major + 1, versionMinor := 0 }

/-- One language of `promoteLatestToMajor`. -/
def promoteLocale (localeVersions versions : List LabelledVersion) : List LabelledVersion :=
  match highest localeVersions with
  | none => versions
  | some latest =>
      if latest.versionMinor = 0 then versions
      else Table.update LabelledVersion.id latest.id (madeMajor (highestMajor localeVersions))
        versions

/-- The versions of a document were read at once; the languages are updated one after
the other. -/
def promoteLatestToMajor (documentId : String) (versions : List LabelledVersion) :
    List LabelledVersion :=
  let read := versions.filter fun row => row.documentId = documentId
  (read.map LabelledVersion.locale).dedup.foldl
    (fun table locale => promoteLocale (read.filter fun row => row.locale = locale) table) versions

theorem map_promoteLocale {σ : Type} {column : LabelledVersion → σ}
    (hcolumn : ∀ major row, column (madeMajor major row) = column row)
    (localeVersions versions : List LabelledVersion) :
    (promoteLocale localeVersions versions).map column = versions.map column := by
  unfold promoteLocale
  split
  · rfl
  split
  · rfl
  · exact Table.map_update (hcolumn _) _

theorem map_promoteLatestToMajor {σ : Type} {column : LabelledVersion → σ}
    (hcolumn : ∀ major row, column (madeMajor major row) = column row)
    (documentId : String) (versions : List LabelledVersion) :
    (promoteLatestToMajor documentId versions).map column = versions.map column := by
  unfold promoteLatestToMajor
  generalize versions.filter (fun row => row.documentId = documentId) = read
  simp only
  generalize (read.map LabelledVersion.locale).dedup = locales
  induction locales generalizing versions with
  | nil => rfl
  | cons locale rest ih => rw [List.foldl_cons, ih, map_promoteLocale hcolumn]

/-! ## Requests -/

namespace VersionStore

/-- A document that is not in the trash. -/
def findDocument (store : VersionStore) (id : String) : Option VersionedDocument :=
  store.documents.find? fun document => document.id = id && document.deletedAt.isNone

def latest (store : VersionStore) (documentId locale : String) : Option LabelledVersion :=
  Query.findFirst (fun row => row.In documentId locale)
    (fun left right => right.version ≤ left.version) store.versions

def setStatus (store : VersionStore) (id : String) (status : DocumentStatus) : VersionStore where
  __ := store
  documents := Table.update VersionedDocument.id id
    (fun document => { document with status := status }) store.documents
  documentIds := by
    rw [Table.map_key_update]
    · exact store.documentIds
    · intro document
      rfl

/-- The row of a new version: the number and the minor after the latest. -/
def nextVersion (store : VersionStore) (id documentId locale : String) : LabelledVersion where
  id := id
  documentId := documentId
  locale := locale
  version := ((store.latest documentId locale).map LabelledVersion.version).getD 0 + 1
  versionMajor := ((store.latest documentId locale).map LabelledVersion.versionMajor).getD 0
  versionMinor := ((store.latest documentId locale).map LabelledVersion.versionMinor).getD 0 + 1

/-- `document.create`. -/
def insertDocument (store : VersionStore) (row : VersionedDocument) : Except String VersionStore :=
  if hfresh : ∀ other ∈ store.documents, other.id ≠ row.id then
    .ok { store with
      documents := store.documents ++ [row]
      documentIds := Table.nodup_insert store.documentIds hfresh }
  else .error "Unique constraint failed"

/-- `documentVersion.create`. -/
def insertVersion (store : VersionStore) (row : LabelledVersion) : Except String VersionStore :=
  if hfresh : (∀ other ∈ store.versions, other.id ≠ row.id) ∧
      ∀ other ∈ store.versions, other.key ≠ row.key then
    .ok { store with
      versions := store.versions ++ [row]
      versionIds := Table.nodup_insert store.versionIds hfresh.1
      versionKeys := Table.nodup_insert store.versionKeys hfresh.2 }
  else .error "Unique constraint failed"

/-- `documentVersion.update` of the language. -/
def setLocale (store : VersionStore) (moved : LabelledVersion) (locale : String) :
    Except String VersionStore :=
  if hfresh : ((Table.update LabelledVersion.id moved.id (fun row => { row with locale := locale })
      store.versions).map LabelledVersion.key).Nodup then
    .ok { store with
      versions := Table.update LabelledVersion.id moved.id
        (fun row => { row with locale := locale }) store.versions
      versionIds := by
        rw [Table.map_key_update]
        · exact store.versionIds
        · intro row
          rfl
      versionKeys := hfresh }
  else .error "Unique constraint failed"

/-- `upload` of a new document, or of a version of an existing one. -/
def upload (store : VersionStore) (documentId : Option String) (locale newId versionId : String)
    (clean : Bool) : Except String VersionStore :=
  let status := if clean then .draft else .quarantined
  match documentId with
  | some id => do
      let some existing := store.findDocument id | throw "Not Found"
      (store.setStatus existing.id status).insertVersion (store.nextVersion versionId id locale)
  | none => do
      let created ← store.insertDocument ⟨newId, status, none⟩
      created.insertVersion (created.nextVersion versionId newId locale)

def restoreVersion (store : VersionStore) (id versionId newId : String) :
    Except String VersionStore := do
  let some document := store.findDocument id | throw "Not Found"
  let some source := store.versions.find? fun row => row.id = versionId && row.documentId = id
    | throw "Not Found"
  if (store.latest id source.locale).map LabelledVersion.version = some source.version then
    throw "This version is already the current one"
  (store.setStatus document.id .draft).insertVersion (store.nextVersion newId id source.locale)

/-- The transaction of `publishWithReview`. -/
def publish (store : VersionStore) (id : String) : Except String VersionStore := do
  let some document := store.findDocument id | throw "Not Found"
  if document.status = .published then throw "Document is already published"
  return { store.setStatus id .published with
    versions := promoteLatestToMajor id store.versions
    versionIds := by
      rw [map_promoteLatestToMajor]
      · exact store.versionIds
      · intro major row
        rfl
    versionKeys := by
      rw [map_promoteLatestToMajor]
      · exact store.versionKeys
      · intro major row
        rfl }

/-- `updateMetadata` with a version and a language. -/
def updateMetadata (store : VersionStore) (id versionId locale : String) :
    Except String VersionStore := do
  let some _ := store.findDocument id | throw "Not Found"
  let some version := store.versions.find? fun row => row.id = versionId && row.documentId = id
    | throw "Invalid document version"
  if version.locale = locale then return store
  if store.versions.any fun row =>
      row.In id locale && row.version = version.version && row.id ≠ version.id then
    throw "This document version already exists in the selected language"
  store.setLocale version locale

end VersionStore

inductive VersionOperation
  | upload (documentId : Option String) (locale newId versionId : String) (clean : Bool)
  | restoreVersion (id versionId newId : String)
  | publish (id : String)
  | updateMetadata (id versionId locale : String)

/-- A request may be refused for other reasons: access, a lock, a file. -/
structure VersionRequest where
  operation : VersionOperation
  refused : Bool

def VersionOperation.answer (store : VersionStore) :
    VersionOperation → Except String VersionStore
  | .upload documentId locale newId versionId clean =>
      store.upload documentId locale newId versionId clean
  | .restoreVersion id versionId newId => store.restoreVersion id versionId newId
  | .publish id => store.publish id
  | .updateMetadata id versionId locale => store.updateMetadata id versionId locale

/-- A request that fails changes nothing. -/
def VersionRequest.performed (store : VersionStore) (request : VersionRequest) : VersionStore :=
  Checks.performed request.refused (request.operation.answer store) store

/-- The label that existing versions got: their number as a major. -/
def Backfilled (row : LabelledVersion) : Prop :=
  row.versionMajor = row.version ∧ row.versionMinor = 0

/-- Requests one after the other, on tables whose labels were backfilled. -/
def versionSystem : System VersionStore VersionRequest where
  init store := ∀ row ∈ store.versions, Backfilled row
  step store request after := request.performed store = after

/-! ## Ordered labels -/

/-- Among the versions of one document and language, later numbers have later labels. -/
def LabelsOrdered (versions : List LabelledVersion) : Prop :=
  ∀ first ∈ versions, ∀ second ∈ versions, second.In first.documentId first.locale →
    first.version < second.version → first.label < second.label

/-- A label that keeps the order of the labels in its language. -/
def Fits (versions : List LabelledVersion) (row : LabelledVersion) : Prop :=
  ∀ other ∈ versions, other.In row.documentId row.locale →
    (other.version < row.version → other.label < row.label) ∧
      (row.version < other.version → row.label < other.label)

section Order

variable {versions after : List LabelledVersion} {row : LabelledVersion}

/-- Rows that were there before, or that fit. -/
theorem LabelsOrdered.of_mem (hordered : LabelsOrdered versions) (hfits : Fits versions row)
    (hafter : ∀ other ∈ after, other ∈ versions ∨ other = row) : LabelsOrdered after := by
  intro first hfirst second hsecond hin hlt
  rcases hafter first hfirst with hfirst | rfl
  · rcases hafter second hsecond with hsecond | rfl
    · exact hordered first hfirst second hsecond hin hlt
    · exact (hfits first hfirst ⟨hin.1.symm, hin.2.symm⟩).1 hlt
  · rcases hafter second hsecond with hsecond | rfl
    · exact (hfits second hsecond hin).2 hlt
    · exact absurd hlt (lt_irrefl _)

/-- The label of the highest version is the highest label. -/
theorem LabelsOrdered.label_le (hordered : LabelsOrdered versions) {latest other : LabelledVersion}
    (hkeys : (versions.map LabelledVersion.key).Nodup)
    (hlatest : latest ∈ versions) (hother : other ∈ versions)
    (hin : other.In latest.documentId latest.locale) (hle : other.version ≤ latest.version) :
    other.label ≤ latest.label := by
  rcases hle.lt_or_eq with hlt | heq
  · exact (hordered other hother latest hlatest ⟨hin.1.symm, hin.2.symm⟩ hlt).le
  · have hkey : other.key = latest.key := by
      unfold LabelledVersion.key
      rw [hin.1, hin.2, heq]
    rw [List.inj_on_of_nodup_map hkeys hother hlatest hkey]

end Order

/-! ## New versions -/

theorem VersionStore.latest_spec {store : VersionStore} {documentId locale : String}
    {row : LabelledVersion} (hlatest : store.latest documentId locale = some row) :
    row ∈ store.versions ∧ row.In documentId locale ∧
      ∀ other ∈ store.versions, other.In documentId locale → other.version ≤ row.version := by
  have : Std.Total fun left right : LabelledVersion => right.version ≤ left.version :=
    ⟨fun _ _ => le_total _ _⟩
  have : IsTrans LabelledVersion fun left right => right.version ≤ left.version :=
    ⟨fun _ _ _ hfirst hsecond => hsecond.trans hfirst⟩
  obtain ⟨hmem, hselects, hfirst⟩ := Query.isFirst_findFirst hlatest
  exact ⟨hmem, of_decide_eq_true hselects, fun other hother hin =>
    hfirst other hother (decide_eq_true hin)⟩

/-- The next version is after every version of its language, in number and in label. -/
theorem fits_nextVersion {store : VersionStore} (hordered : LabelsOrdered store.versions)
    (id documentId locale : String) :
    Fits store.versions (store.nextVersion id documentId locale) := by
  intro other hother hin
  cases hlatest : store.latest documentId locale with
  | none =>
      have hnone := Query.findFirst_eq_none hlatest other hother
      rw [decide_eq_false_iff_not] at hnone
      exact absurd hin hnone
  | some latest =>
      obtain ⟨hmem, hlatestIn, hmax⟩ := VersionStore.latest_spec hlatest
      have hle := hmax other hother hin
      have hlabel : other.label ≤ latest.label :=
        hordered.label_le store.versionKeys hmem hother
          ⟨hin.1.trans hlatestIn.1.symm, hin.2.trans hlatestIn.2.symm⟩ hle
      have hnext : latest.label < (store.nextVersion id documentId locale).label := by
        simp only [VersionStore.nextVersion, hlatest, Option.map_some, Option.getD_some,
          LabelledVersion.label, Prod.Lex.toLex_lt_toLex]
        right
        exact ⟨trivial, Nat.lt_succ_self _⟩
      have hversion : (store.nextVersion id documentId locale).version = latest.version + 1 := by
        simp only [VersionStore.nextVersion, hlatest, Option.map_some, Option.getD_some]
      rw [hversion]
      refine ⟨fun _ => hlabel.trans_lt hnext, fun hlt => ?_⟩
      omega

/-- `base` is the store with another status, or with a new document. -/
theorem ordered_insert_next {store base after : VersionStore} {id documentId locale : String}
    (hordered : LabelsOrdered store.versions)
    (hinsert : base.insertVersion (store.nextVersion id documentId locale) = .ok after)
    (hversions : base.versions = store.versions) :
    LabelsOrdered after.versions := by
  unfold VersionStore.insertVersion at hinsert
  split at hinsert
  · cases hinsert
    apply hordered.of_mem (fits_nextVersion hordered id documentId locale)
    intro other hother
    rcases List.mem_append.mp hother with hold | hnew
    · exact .inl (hversions ▸ hold)
    · exact .inr (List.mem_singleton.mp hnew)
  · cases hinsert

theorem insertDocument_versions {store created : VersionStore} {row : VersionedDocument}
    (hinsert : store.insertDocument row = .ok created) : created.versions = store.versions := by
  unfold VersionStore.insertDocument at hinsert
  split at hinsert
  · cases hinsert
    rfl
  · cases hinsert

/-! ## Promotion -/

theorem highest_spec {versions : List LabelledVersion} {row : LabelledVersion}
    (hhighest : highest versions = some row) :
    row ∈ versions ∧ ∀ other ∈ versions, other.version ≤ row.version := by
  cases versions with
  | nil => cases hhighest
  | cons first rest =>
      cases hhighest
      induction rest generalizing first with
      | nil =>
          refine ⟨List.mem_cons_self, fun other hother => ?_⟩
          rw [List.mem_singleton.mp hother]
          exact le_refl _
      | cons next rest ih =>
          rw [List.foldl_cons]
          split
          next hgt =>
            obtain ⟨hmem, hmax⟩ := ih next
            refine ⟨List.mem_cons_of_mem _ hmem, fun other hother => ?_⟩
            rcases List.mem_cons.mp hother with rfl | hrest
            · exact hgt.le.trans (hmax next List.mem_cons_self)
            · exact hmax other hrest
          next hle =>
            obtain ⟨hmem, hmax⟩ := ih first
            refine ⟨?_, fun other hother => ?_⟩
            · rcases List.mem_cons.mp hmem with heq | hrest
              · rw [heq]
                exact List.mem_cons_self
              · exact List.mem_cons_of_mem _ (List.mem_cons_of_mem _ hrest)
            · rcases List.mem_cons.mp hother with rfl | hlater
              · exact hmax other List.mem_cons_self
              rcases List.mem_cons.mp hlater with rfl | hrest
              · exact (not_lt.mp hle).trans (hmax first List.mem_cons_self)
              · exact hmax other (List.mem_cons_of_mem _ hrest)

theorem versionMajor_le_highestMajor {versions : List LabelledVersion} {row : LabelledVersion}
    (hrow : row ∈ versions) : row.versionMajor ≤ highestMajor versions :=
  List.le_max?_getD_of_mem (List.mem_map_of_mem hrow)

/-- A row that `promoteLatestToMajor` leaves, or made of the latest of a language. -/
inductive Promoted (versions : List LabelledVersion) (row : LabelledVersion) : Prop
  | kept (hrow : row ∈ versions)
  | made (latest : LabelledVersion) (major : Nat) (hlatest : latest ∈ versions)
      (hmax : ∀ other ∈ versions, other.In latest.documentId latest.locale →
        other.version ≤ latest.version ∧ other.versionMajor ≤ major)
      (hrow : row = madeMajor major latest)

theorem LabelsOrdered.of_promoted {versions after : List LabelledVersion}
    (hordered : LabelsOrdered versions) (hafter : ∀ row ∈ after, Promoted versions row) :
    LabelsOrdered after := by
  intro first hfirst second hsecond hin hlt
  -- No version of the language comes after the one that became a major.
  cases hafter first hfirst with
  | kept hfirst =>
      cases hafter second hsecond with
      | kept hsecond => exact hordered first hfirst second hsecond hin hlt
      | made latest major hlatest hmax hrow =>
          subst hrow
          obtain ⟨-, hmajor⟩ := hmax first hfirst ⟨hin.1.symm, hin.2.symm⟩
          rw [LabelledVersion.label, LabelledVersion.label, Prod.Lex.toLex_lt_toLex]
          exact .inl (Nat.lt_succ_of_le hmajor)
  | made latest major hlatest hmax hrow =>
      subst hrow
      cases hafter second hsecond with
      | kept hsecond => exact absurd hlt (not_lt.mpr (hmax second hsecond hin).1)
      | made other otherMajor hother _ hrow =>
          subst hrow
          exact absurd hlt (not_lt.mpr (hmax other hother hin).1)

theorem promoted_promoteLocale {versions table : List LabelledVersion} {documentId locale : String}
    (hids : (versions.map LabelledVersion.id).Nodup)
    (htable : ∀ row ∈ table, Promoted versions row) :
    ∀ row ∈ promoteLocale ((versions.filter fun row => row.documentId = documentId).filter
      fun row => row.locale = locale) table, Promoted versions row := by
  intro row hrow
  unfold promoteLocale at hrow
  split at hrow
  · exact htable row hrow
  next latest hlatest =>
    split at hrow
    · exact htable row hrow
    obtain ⟨hmem, hmax⟩ := highest_spec hlatest
    simp only [List.mem_filter, decide_eq_true_eq] at hmem
    obtain ⟨old, hold, rfl⟩ := List.mem_map.mp hrow
    split
    next hid =>
      have hmade : ∀ other ∈ versions, other.In latest.documentId latest.locale →
          other.version ≤ latest.version ∧ other.versionMajor ≤ highestMajor
            ((versions.filter fun row => row.documentId = documentId).filter
              fun row => row.locale = locale) := by
        intro other hother hin
        have hread : other ∈ (versions.filter fun row => row.documentId = documentId).filter
            fun row => row.locale = locale := by
          simp only [List.mem_filter, decide_eq_true_eq]
          exact ⟨⟨hother, hin.1.trans hmem.1.2⟩, hin.2.trans hmem.2⟩
        exact ⟨hmax other hread, versionMajor_le_highestMajor hread⟩
      apply Promoted.made latest _ hmem.1.1 hmade
      cases htable old hold with
      | kept hold => rw [List.inj_on_of_nodup_map hids hold hmem.1.1 hid]
      | made other major hother _ hsame =>
          subst hsame
          have hsame : other = latest := List.inj_on_of_nodup_map hids hother hmem.1.1 hid
          rw [hsame]
          rfl
    next => exact htable old hold

theorem promoted_promoteLatestToMajor {versions : List LabelledVersion}
    (hids : (versions.map LabelledVersion.id).Nodup) (documentId : String) :
    ∀ row ∈ promoteLatestToMajor documentId versions, Promoted versions row := by
  have hfold : ∀ (locales : List String) (table : List LabelledVersion),
      (∀ row ∈ table, Promoted versions row) →
      ∀ row ∈ locales.foldl (fun table locale => promoteLocale ((versions.filter fun row =>
        row.documentId = documentId).filter fun row => row.locale = locale) table) table,
        Promoted versions row := by
    intro locales
    induction locales with
    | nil =>
        intro table htable
        exact htable
    | cons locale rest ih =>
        intro table htable
        exact ih _ (promoted_promoteLocale hids htable)
  exact hfold _ versions fun row hrow => .kept hrow

/-! ## Runs -/

/-- The label of a version that moves to a language fits there. -/
def MovesFit (store : VersionStore) (request : VersionRequest) : Prop :=
  ∀ id versionId locale, request.operation = .updateMetadata id versionId locale →
    ∀ row ∈ store.versions, row.id = versionId → row.locale ≠ locale →
      Fits store.versions { row with locale := locale }

theorem ordered_setLocale {store after : VersionStore} {moved : LabelledVersion} {locale : String}
    (hordered : LabelsOrdered store.versions) (hmoved : moved ∈ store.versions)
    (hfits : Fits store.versions { moved with locale := locale })
    (hset : store.setLocale moved locale = .ok after) : LabelsOrdered after.versions := by
  unfold VersionStore.setLocale at hset
  split at hset
  · cases hset
    apply hordered.of_mem hfits
    intro other hother
    obtain ⟨before, hbefore, rfl⟩ := List.mem_map.mp hother
    split
    next hid =>
      right
      rw [List.inj_on_of_nodup_map store.versionIds hbefore hmoved hid]
    next => exact .inl hbefore
  · cases hset

section Operations

variable {store after : VersionStore}

theorem ordered_upload {documentId : Option String} {locale newId versionId : String} {clean : Bool}
    (hordered : LabelsOrdered store.versions)
    (hanswer : store.upload documentId locale newId versionId clean = .ok after) :
    LabelsOrdered after.versions := by
  unfold VersionStore.upload at hanswer
  cases documentId with
  | some id =>
      simp only at hanswer
      cases hfound : store.findDocument id with
      | none => simp only [hfound, Checks.not_accepts_throw] at hanswer
      | some existing =>
          simp only [hfound] at hanswer
          exact ordered_insert_next hordered hanswer rfl
  | none =>
      simp only [Checks.accepts_bind] at hanswer
      obtain ⟨created, hcreated, hinsert⟩ := hanswer
      rw [← insertDocument_versions hcreated] at hordered
      exact ordered_insert_next hordered hinsert rfl

theorem ordered_restoreVersion {id versionId newId : String}
    (hordered : LabelsOrdered store.versions)
    (hanswer : store.restoreVersion id versionId newId = .ok after) :
    LabelsOrdered after.versions := by
  unfold VersionStore.restoreVersion at hanswer
  cases hfound : store.findDocument id with
  | none => simp only [hfound, Checks.not_accepts_throw] at hanswer
  | some document =>
      simp only [hfound] at hanswer
      split at hanswer
      next source hsource =>
        rw [Checks.accepts_if] at hanswer
        exact ordered_insert_next hordered hanswer.2 rfl
      next => cases hanswer

theorem ordered_publish {id : String} (hordered : LabelsOrdered store.versions)
    (hanswer : store.publish id = .ok after) : LabelsOrdered after.versions := by
  unfold VersionStore.publish at hanswer
  cases hfound : store.findDocument id with
  | none => simp only [hfound, Checks.not_accepts_throw] at hanswer
  | some document =>
      simp only [hfound, Checks.accepts_if, Checks.accepts_pure] at hanswer
      obtain ⟨-, rfl⟩ := hanswer
      exact hordered.of_promoted (promoted_promoteLatestToMajor store.versionIds id)

theorem ordered_answer {request : VersionRequest} (hordered : LabelsOrdered store.versions)
    (hmoves : MovesFit store request) (hanswer : request.operation.answer store = .ok after) :
    LabelsOrdered after.versions := by
  obtain ⟨operation, refused⟩ := request
  cases operation with
  | upload documentId locale newId versionId clean => exact ordered_upload hordered hanswer
  | restoreVersion id versionId newId => exact ordered_restoreVersion hordered hanswer
  | publish id => exact ordered_publish hordered hanswer
  | updateMetadata id versionId locale =>
      simp only [VersionOperation.answer, VersionStore.updateMetadata] at hanswer
      cases hfound : store.findDocument id with
      | none => simp only [hfound, Checks.not_accepts_throw] at hanswer
      | some document =>
          simp only [hfound] at hanswer
          split at hanswer
          next version hversion =>
            split at hanswer
            · cases hanswer
              exact hordered
            next hlocale =>
              simp only [Checks.accepts_if] at hanswer
              have hmem := List.mem_of_find?_eq_some hversion
              have hid := List.find?_some hversion
              simp only [Bool.and_eq_true, decide_eq_true_eq] at hid
              exact ordered_setLocale hordered hmem
                (hmoves id versionId locale rfl version hmem hid.1 hlocale) hanswer.2
          next => cases hanswer

end Operations

theorem ordered_reachable {store : VersionStore}
    (hreach : versionSystem.ReachableWhile MovesFit store) : LabelsOrdered store.versions := by
  induction hreach with
  | init hinit =>
      intro first hfirst second hsecond _ hlt
      obtain ⟨hfirstMajor, -⟩ := hinit first hfirst
      obtain ⟨hsecondMajor, -⟩ := hinit second hsecond
      rw [LabelledVersion.label, LabelledVersion.label, Prod.Lex.toLex_lt_toLex]
      left
      omega
  | @step before next request _ hmoves hstep ih =>
      subst hstep
      apply Checks.performed_keeps (fun store : VersionStore => LabelsOrdered store.versions) ih
      intro after hanswer
      exact ordered_answer ih hmoves hanswer

/-- Labels follow the numbers of the versions of a document and language, and no two of
these versions have the same label. -/
theorem version_labels_increase {store : VersionStore}
    (hreach : versionSystem.ReachableWhile MovesFit store) :
    (∀ first ∈ store.versions, ∀ second ∈ store.versions,
      second.documentId = first.documentId → second.locale = first.locale →
        first.version < second.version → first.label < second.label) ∧
    ∀ first ∈ store.versions, ∀ second ∈ store.versions,
      second.documentId = first.documentId → second.locale = first.locale →
        second.label = first.label → second = first := by
  have hordered := ordered_reachable hreach
  refine ⟨fun first hfirst second hsecond hdocument hlocale hlt =>
    hordered first hfirst second hsecond ⟨hdocument, hlocale⟩ hlt, ?_⟩
  intro first hfirst second hsecond hdocument hlocale hlabel
  rcases lt_trichotomy first.version second.version with hlt | heq | hgt
  · exact absurd (hordered first hfirst second hsecond ⟨hdocument, hlocale⟩ hlt)
      (hlabel ▸ lt_irrefl _)
  · apply List.inj_on_of_nodup_map store.versionKeys hsecond hfirst
    unfold LabelledVersion.key
    rw [hdocument, hlocale, heq]
  · exact absurd (hordered second hsecond first hfirst ⟨hdocument.symm, hlocale.symm⟩ hgt)
      (hlabel ▸ lt_irrefl _)

/-! ## Sample -/

instance (versions : List LabelledVersion) (row : LabelledVersion) :
    Decidable (Fits versions row) :=
  inferInstanceAs (Decidable (∀ other ∈ versions, _ → _ ∧ _))

/-- The condition on a move, for one operation. -/
def VersionOperation.fits (store : VersionStore) : VersionOperation → Bool
  | .updateMetadata _ versionId locale => store.versions.all fun row =>
      row.id ≠ versionId || row.locale = locale || Fits store.versions { row with locale := locale }
  | _ => true

def fittingNext (store : VersionStore) (request : VersionRequest) : Option VersionStore :=
  if request.operation.fits store then some (request.performed store) else none

theorem fittingNext_step {store after : VersionStore} {request : VersionRequest}
    (hnext : fittingNext store request = some after) :
    MovesFit store request ∧ versionSystem.step store request after := by
  rw [fittingNext, Option.ite_none_right_eq_some, Option.some.injEq] at hnext
  refine ⟨fun id versionId locale hoperation row hrow hid hlocale => ?_, hnext.2⟩
  have hfits := hnext.1
  rw [hoperation, VersionOperation.fits, List.all_eq_true] at hfits
  simpa [hid, hlocale] using hfits row hrow

def noVersions : VersionStore := ⟨[], [], List.nodup_nil, List.nodup_nil, List.nodup_nil⟩

/-- One version in English and two in French, the last of which is the version "next". -/
def threeUploads : List VersionRequest :=
  [⟨.upload none "en" "guide" "english" true, false⟩,
    ⟨.upload (some "guide") "fr" "" "french" true, false⟩,
    ⟨.upload (some "guide") "fr" "" "next" true, false⟩]

def toEnglish : VersionRequest := ⟨.updateMetadata "guide" "next" "en", false⟩

/-- The versions after the last one has moved to English, with labels of the two that
are in English now. -/
def movedToEnglish (status : DocumentStatus) (english next : Nat × Nat) : VersionStore where
  documents := [⟨"guide", status, none⟩]
  versions := [⟨"english", "guide", "en", 1, english.1, english.2⟩,
    ⟨"french", "guide", "fr", 1, 0, 1⟩,
    ⟨"next", "guide", "en", 2, next.1, next.2⟩]
  documentIds := List.nodup_singleton _
  versionIds := show ["english", "french", "next"].Nodup by decide
  versionKeys := show [("guide", "en", 1), ("guide", "fr", 1), ("guide", "en", 2)].Nodup by decide

/-- The drafts 0.1 and 0.2 of two languages come together. -/
theorem version_labels_increase_drafts :
    versionSystem.ReachableWhile MovesFit (movedToEnglish .draft (0, 1) (0, 2)) ∧
    ∀ first ∈ (movedToEnglish .draft (0, 1) (0, 2)).versions,
      ∀ second ∈ (movedToEnglish .draft (0, 1) (0, 2)).versions,
        second.documentId = first.documentId → second.locale = first.locale →
          second.label = first.label → second = first := by
  have hrun : System.execute fittingNext noVersions (threeUploads ++ [toEnglish]) =
      some (movedToEnglish .draft (0, 1) (0, 2)) := by
    decide
  have hreach : versionSystem.ReachableWhile MovesFit (movedToEnglish .draft (0, 1) (0, 2)) :=
    System.ReachableWhile.execute (fun _ _ _ => fittingNext_step) hrun
      (.init fun row hrow => absurd hrow List.not_mem_nil)
  exact ⟨hreach, (version_labels_increase hreach).2⟩

/-- A publication makes both languages 1.0 before the French version moves. -/
theorem moved_version_repeats_label :
    versionSystem.Reachable (movedToEnglish .published (1, 0) (1, 0)) ∧
    ∃ first ∈ (movedToEnglish .published (1, 0) (1, 0)).versions,
      ∃ second ∈ (movedToEnglish .published (1, 0) (1, 0)).versions,
        second.documentId = first.documentId ∧ second.locale = first.locale ∧
          first.version < second.version ∧ second.label = first.label := by
  have hrun : System.execute (fun store request => some (VersionRequest.performed store request))
      noVersions (threeUploads ++ [⟨.publish "guide", false⟩, toEnglish]) =
        some (movedToEnglish .published (1, 0) (1, 0)) := by
    decide
  refine ⟨?_, by decide⟩
  refine System.ReachableWhile.execute (fun store request after hnext => ?_) hrun
    (.init fun row hrow => absurd hrow List.not_mem_nil)
  exact ⟨trivial, Option.some.inj hnext⟩

end IsmsPortal
