import IsmsPortal.Foundation.JsString
import IsmsPortal.Foundation.Replacement
import IsmsPortal.Publication.Scans
import IsmsPortal.Storage.Receipts
import Mathlib.Data.List.DropRight

/-! # The export of documents

An archive has the latest clean version of every document in each language, under the names of
the space, the category and the document. The name of a document ends with a part of its id.
Names in paths are cut at eighty characters, one less than the name of a document with a long
title has, so of two such documents the paths may be the same.
-/

namespace IsmsPortal

open Foundation

/-! ## Names -/

/-- The Unicode tables of the runtime: normal forms, and lower case. -/
structure UnicodeTables where
  nfd : List Char → List Char
  nfkd : List Char → List Char
  toLowerCase : List Char → List Char
  nfkd_ascii : ∀ text, (∀ c ∈ text, c.toNat < 128) → nfkd text = text
  slash_lower : ∀ text, '/' ∉ text → '/' ∉ toLowerCase text

def documentName : List Char := ['d', 'o', 'c', 'u', 'm', 'e', 'n', 't']

section Names

variable (tables : UnicodeTables)

/-- The part of `canonicalDocumentSlug` that the title gives. -/
def normalizedTitle (title : List Char) : List Char :=
  let plain := (tables.nfd title).filter fun c => !(0x300 ≤ c.toNat && c.toNat ≤ 0x36f)
  let dashed := Replacement.replaceRuns (fun c => !(c.isLower || c.isDigit)) '-'
    (tables.toLowerCase plain)
  ((dashed.dropWhile (· = '-')).rdropWhile (· = '-')).take 72

def canonicalDocumentSlug (title id : List Char) : List Char :=
  let normalized := normalizedTitle tables title
  (if normalized = [] then documentName else normalized) ++ '-' :: id.take 8

def isNameChar (c : Char) : Bool := c.isAlphanum || c ∈ ['_', '.', '-']

def safeName (value : List Char) : List Char :=
  let named := Replacement.replaceRuns (fun c => !isNameChar c) '_' (tables.nfkd value)
  let short := (Replacement.replaceRuns (· = '_') '_' named).take 80
  if short = [] then documentName else short

end Names

/-- `extname` of the runtime: from the last dot of the last part on, unless the part starts with
that dot. -/
def extname (path : List Char) : List Char :=
  let base := (path.rdropWhile (· = '/')).rtakeWhile (· ≠ '/')
  let front := base.rdropWhile (· ≠ '.')
  if front.length ≤ 1 ∨ base = ['.', '.'] then [] else '.' :: base.rtakeWhile (· ≠ '.')

/-! ## Rows -/

inductive Language
  | fr
  | en
  | es
  | sk
deriving DecidableEq

def Language.text : Language → List Char
  | .fr => ['f', 'r']
  | .en => ['e', 'n']
  | .es => ['e', 's']
  | .sk => ['s', 'k']

/-- A row of `StoredFile`, with the status of its latest scan. -/
structure ExportedFile where
  originalName : List Char
  size : Nat
  scans : List ScanStatus
  purgedAt : Option Int
deriving DecidableEq

structure ExportedVersion where
  locale : Language
  version : Nat
  storedFile : ExportedFile
deriving DecidableEq

/-- A document as the export reads it. The latest versions come first. -/
structure ExportedDocument where
  id : List Char
  slug : List Char
  space : List Char
  category : Option (List Char)
  translations : List (Language × List Char)
  versions : List ExportedVersion
deriving DecidableEq

structure ExportEntry where
  document : ExportedDocument
  version : ExportedVersion
  title : List Char
  path : List Char
deriving DecidableEq

/-! ## Entries -/

/-- The first version of each language. -/
def latestByLocale (versions : List ExportedVersion) : List ExportedVersion :=
  versions.foldl (fun latest version =>
    if latest.any (fun other => other.locale = version.locale) then latest
    else latest ++ [version]) []

namespace ExportedDocument

/-- The versions that are exported. -/
def exported (document : ExportedDocument) : List ExportedVersion :=
  (latestByLocale document.versions).filter fun version =>
    version.storedFile.scans.head? = some .clean && version.storedFile.purgedAt.isNone

def title (document : ExportedDocument) (locale : Language) : List Char :=
  match document.translations.lookup locale with
  | some text => if text = [] then document.slug else text
  | none => document.slug

end ExportedDocument

section Entries

variable (tables : UnicodeTables)

/-- The title of a version and the extension of its file, as the path has them. -/
def fileTitle (document : ExportedDocument) (version : ExportedVersion) : List Char :=
  safeName tables (document.title version.locale) ++
    tables.toLowerCase (extname version.storedFile.originalName)

def fileName (document : ExportedDocument) (version : ExportedVersion) : List Char :=
  version.locale.text ++ '-' :: 'v' :: (Nat.toDigits 10 version.version ++
    '-' :: fileTitle tables document version)

/-- The parts of a path. -/
def pathParts (document : ExportedDocument) (version : ExportedVersion) : List (List Char) :=
  [safeName tables document.space] ++ (document.category.map (safeName tables)).toList ++
    [safeName tables document.slug, fileName tables document version]

def documentEntries (document : ExportedDocument) : List ExportEntry :=
  document.exported.map fun version => ⟨document, version, document.title version.locale,
    List.intercalate ['/'] (pathParts tables document version)⟩

/-- The entries of `export`. -/
def exportEntries (documents : List ExportedDocument) : Except String (List ExportEntry) :=
  if documents.length > 1000 then
    .error "Export limited to 1000 documents; filter by space or category"
  else
    let entries := documents.flatMap (documentEntries tables)
    if (entries.map fun entry => entry.version.storedFile.size).sum > 2 * 1024 * 1024 * 1024 then
      .error "Export larger than 2 GB; filter by space or category"
    else .ok entries

end Entries

/-! ## The characters of names -/

section Characters

variable {tables : UnicodeTables} {title id value path : List Char} {c : Char}

theorem isAlphanum_of_isHexDigit (hc : isHexDigit c = true) : c.isAlphanum = true := by
  have hval : c.val.toNat = c.toNat := rfl
  simp only [isHexDigit, Bool.or_eq_true, decide_eq_true_eq, Char.le_def, UInt32.le_iff_toNat_le,
    hval] at hc
  rcases hc with (hdigit | hlower) | hupper
  · exact Bool.or_eq_true_iff.mpr (.inr hdigit)
  · rw [JsString.isAlphanum_iff]
    simp at hlower
    omega
  · rw [JsString.isAlphanum_iff]
    simp at hupper
    omega

/-- The first eight characters of a UUID. -/
theorem take_of_isUuid (hid : fitsPattern uuidPattern id = true) :
    (id.take 8).length = 8 ∧ ∀ c ∈ id.take 8, isHexDigit c = true := by
  have hlength : 8 ≤ id.length := by
    rw [length_of_fitsPattern hid]
    decide
  have hprefix : ∀ (count : Nat) (pattern : List (Char → Bool)) (text : List Char),
      fitsPattern (List.replicate count isHexDigit ++ pattern) text = true →
        ∀ c ∈ text.take count, isHexDigit c = true := by
    intro count pattern
    induction count with
    | zero => simp
    | succ count ih =>
        intro text hfits c hc
        cases text with
        | nil => cases hc
        | cons first text =>
            rw [List.replicate_succ, List.cons_append, fitsPattern, Bool.and_eq_true] at hfits
            rcases List.mem_cons.mp hc with rfl | hrest
            · exact hfits.1
            · exact ih text hfits.2 c hrest
  refine ⟨by rw [List.length_take]; omega, hprefix 8 _ id hid⟩

theorem mem_normalizedTitle (hc : c ∈ normalizedTitle tables title) :
    c = '-' ∨ c.isAlphanum = true := by
  have hdashed := List.dropWhile_sublist _ |>.subset
    ((List.rdropWhile_prefix _ _).subset (List.mem_of_mem_take hc))
  rcases Replacement.mem_replaceRuns hdashed with rfl | ⟨-, hclass⟩
  · exact .inl rfl
  · right
    simp only [Bool.not_eq_false', Bool.or_eq_true] at hclass
    have hletter : c.isLower = true → c.isAlpha = true := fun hlower =>
      Bool.or_eq_true_iff.mpr (.inr hlower)
    exact Bool.or_eq_true_iff.mpr (hclass.imp_left hletter)

/-- A name of a document has letters, digits and dashes only. -/
theorem mem_canonicalDocumentSlug (hid : fitsPattern uuidPattern id = true)
    (hc : c ∈ canonicalDocumentSlug tables title id) : c = '-' ∨ c.isAlphanum = true := by
  rcases List.mem_append.mp hc with htitle | hrest
  · split at htitle
    · exact .inr (List.all_eq_true.mp (by decide : documentName.all Char.isAlphanum = true) c htitle)
    · exact mem_normalizedTitle htitle
  · rcases List.mem_cons.mp hrest with rfl | hpart
    · exact .inl rfl
    · exact .inr (isAlphanum_of_isHexDigit ((take_of_isUuid hid).2 c hpart))

/-- In a path the name is only cut. -/
theorem safeName_canonicalDocumentSlug (hid : fitsPattern uuidPattern id = true) :
    safeName tables (canonicalDocumentSlug tables title id) =
      (canonicalDocumentSlug tables title id).take 80 := by
  have hchars : ∀ c ∈ canonicalDocumentSlug tables title id,
      c.toNat < 128 ∧ isNameChar c = true ∧ c ≠ '_' := by
    intro c hc
    rcases mem_canonicalDocumentSlug hid hc with rfl | hplain
    · decide
    · refine ⟨JsString.toNat_lt_of_isAlphanum hplain, by simp [isNameChar, hplain], ?_⟩
      rintro rfl
      exact absurd hplain (by decide)
  have hnonempty : (canonicalDocumentSlug tables title id).take 80 ≠ [] := by
    simp [canonicalDocumentSlug]
  have hnamed : Replacement.replaceRuns (fun c => !isNameChar c) '_'
      (canonicalDocumentSlug tables title id) = canonicalDocumentSlug tables title id :=
    Replacement.replaceRuns_eq_self fun c hc => by simp [(hchars c hc).2.1]
  have hshort : Replacement.replaceRuns (fun c => decide (c = '_')) '_'
      (canonicalDocumentSlug tables title id) = canonicalDocumentSlug tables title id :=
    Replacement.replaceRuns_eq_self fun c hc => by simp [(hchars c hc).2.2]
  rw [safeName, tables.nfkd_ascii _ fun c hc => (hchars c hc).1]
  simp only [hnamed, hshort, if_neg hnonempty]

theorem slash_notMem_safeName (value : List Char) : '/' ∉ safeName tables value := by
  intro hmem
  simp only [safeName] at hmem
  split at hmem
  · exact absurd hmem (by decide)
  · rcases Replacement.mem_replaceRuns (List.mem_of_mem_take hmem) with hmark | ⟨hnamed, -⟩
    · exact absurd hmark (by decide)
    · rcases Replacement.mem_replaceRuns hnamed with hmark | ⟨-, hclass⟩
      · exact absurd hmark (by decide)
      · exact absurd hclass (by decide)

theorem slash_notMem_extname (path : List Char) : '/' ∉ extname path := by
  intro hmem
  simp only [extname] at hmem
  split at hmem
  · cases hmem
  · rcases List.mem_cons.mp hmem with hdot | htail
    · exact absurd hdot (by decide)
    · have hbase := (List.rtakeWhile_suffix _ _).subset htail
      exact absurd (List.mem_rtakeWhile_imp hbase) (by decide)

end Characters

/-! ## When names and paths are the same -/

section Same

variable {tables : UnicodeTables} {title title' id id' : List Char}

/-- A name that fills the place of the title loses its last character, and no other does. -/
theorem take_eq_take_iff {base base' part part' : List Char} (hbase : base.length ≤ 72)
    (hbase' : base'.length ≤ 72) (hpart : part.length = 8 ∧ '-' ∉ part)
    (hpart' : part'.length = 8 ∧ '-' ∉ part') (hdiffer : part ≠ part') :
    (base ++ '-' :: part).take 80 = (base' ++ '-' :: part').take 80 ↔
      base.length = 72 ∧ base = base' ∧ part.take 7 = part'.take 7 := by
  have hwhole : ∀ {base part : List Char}, base.length < 72 → part.length = 8 →
      (base ++ '-' :: part).take 80 = base ++ '-' :: part := by
    intro base part hshort hlength
    refine List.take_of_length_le ?_
    rw [List.length_append, List.length_cons]
    omega
  have hcut : ∀ {base part : List Char}, base.length = 72 →
      (base ++ '-' :: part).take 80 = base ++ '-' :: part.take 7 := by
    intro base part hfull
    rw [List.take_append, List.take_of_length_le (by omega), hfull]
    rfl
  -- The dash of the longer name would be within the id of the other one.
  have hmixed : ∀ {base base' part part' : List Char}, base.length = 72 → base'.length < 72 →
      part'.length = 8 → '-' ∉ part' → part.length = 8 →
      base ++ '-' :: part.take 7 ≠ base' ++ '-' :: part' := by
    intro base base' part part' hfull hshort hlength hdash hlength' heq
    have hlengths := congrArg List.length heq
    simp only [List.length_append, List.length_cons, List.length_take] at hlengths
    have hplace := congrArg (fun text => text[72]?) heq
    simp only [List.getElem?_append_right (Nat.le_of_eq hfull), hfull,
      List.getElem?_append_right (Nat.le_of_lt hshort)] at hplace
    rw [show 72 - base'.length = 0 + 1 by omega, List.getElem?_cons_succ] at hplace
    exact hdash (List.mem_of_getElem? hplace.symm)
  rcases Nat.lt_or_eq_of_le hbase with hshort | hfull
  · refine iff_of_false (fun heq => ?_) (fun hsame => by omega)
    rw [hwhole hshort hpart.1] at heq
    rcases Nat.lt_or_eq_of_le hbase' with hshort' | hfull'
    · rw [hwhole hshort' hpart'.1] at heq
      have htails := List.append_inj_right' heq (by simp [hpart.1, hpart'.1])
      exact hdiffer (List.cons.inj htails).2
    · rw [hcut hfull'] at heq
      exact hmixed hfull' hshort hpart.1 hpart.2 hpart'.1 heq.symm
  · rw [hcut hfull]
    rcases Nat.lt_or_eq_of_le hbase' with hshort' | hfull'
    · rw [hwhole hshort' hpart'.1]
      refine iff_of_false (hmixed hfull hshort' hpart'.1 hpart'.2 hpart.1) ?_
      rintro ⟨-, rfl, -⟩
      omega
    · rw [hcut hfull']
      constructor
      · intro heq
        obtain ⟨hsame, htail⟩ := List.append_inj heq (hfull.trans hfull'.symm)
        exact ⟨hfull, hsame, (List.cons.inj htail).2⟩
      · rintro ⟨-, hsame, htail⟩
        rw [hsame, htail]

/-- Two names are cut to the same text if their titles fill the name and agree, and their ids
differ in the eighth character. -/
theorem safeName_slug_eq_iff (hid : fitsPattern uuidPattern id = true)
    (hid' : fitsPattern uuidPattern id' = true) (hdiffer : id.take 8 ≠ id'.take 8) :
    safeName tables (canonicalDocumentSlug tables title id) =
        safeName tables (canonicalDocumentSlug tables title' id') ↔
      (normalizedTitle tables title).length = 72 ∧
        normalizedTitle tables title = normalizedTitle tables title' ∧ id.take 7 = id'.take 7 := by
  have hpart : ∀ {id : List Char}, fitsPattern uuidPattern id = true →
      (id.take 8).length = 8 ∧ '-' ∉ id.take 8 := by
    intro id hid
    obtain ⟨hlength, hhex⟩ := take_of_isUuid hid
    exact ⟨hlength, fun hdash => absurd (hhex _ hdash) (by decide)⟩
  have hbase : ∀ title, (if normalizedTitle tables title = [] then documentName
      else normalizedTitle tables title).length ≤ 72 := by
    intro title
    split
    · decide
    · exact List.length_take_le _ _
  -- A title that fills the place is not empty.
  have hfull : ∀ title, (if normalizedTitle tables title = [] then documentName
      else normalizedTitle tables title).length = 72 ↔
        (normalizedTitle tables title).length = 72 := by
    intro title
    split
    next hnone => simp [hnone, documentName]
    next => exact Iff.rfl
  have htake : ∀ id : List Char, (id.take 8).take 7 = id.take 7 := fun id => by
    rw [List.take_take]
    rfl
  rw [safeName_canonicalDocumentSlug hid, safeName_canonicalDocumentSlug hid',
    canonicalDocumentSlug, canonicalDocumentSlug,
    take_eq_take_iff (hbase title) (hbase title') (hpart hid) (hpart hid') hdiffer, hfull, htake,
    htake]
  refine and_congr_right fun hlength => and_congr_left fun _ => ?_
  have hne : normalizedTitle tables title ≠ [] := fun hnone => by simp [hnone] at hlength
  rw [if_neg hne]
  split
  next hnone =>
    rw [hnone]
    refine iff_of_false (fun heq => ?_) hne
    rw [heq] at hlength
    exact absurd hlength (by decide)
  next => exact Iff.rfl

/-- The name of a file determines the language, the version and the title with the extension. -/
theorem fileName_eq_iff {document document' : ExportedDocument}
    {version version' : ExportedVersion} :
    fileName tables document version = fileName tables document' version' ↔
      version.locale = version'.locale ∧ version.version = version'.version ∧
        fileTitle tables document version = fileTitle tables document' version' := by
  constructor
  · intro heq
    have hlength : ∀ language : Language, language.text.length = 2 := by
      intro language
      cases language <;> rfl
    obtain ⟨hlocale, hrest⟩ := List.append_inj heq (by rw [hlength, hlength])
    have hdash : ∀ rest : List Char, ∀ c ∈ ('-' :: rest).head?, c.isDigit = false := by
      intro rest c hc
      cases hc
      decide
    obtain ⟨hdigits, htitle⟩ := Text.append_eq_of_class
      (fun c hc => Nat.isDigit_of_mem_toDigits (by decide) (by decide) hc)
      (fun c hc => Nat.isDigit_of_mem_toDigits (by decide) (by decide) hc)
      (hdash _) (hdash _) (List.cons.inj (List.cons.inj hrest).2).2
    refine ⟨?_, ?_, (List.cons.inj htitle).2⟩
    · generalize version.locale = left at hlocale ⊢
      generalize version'.locale = right at hlocale ⊢
      cases left <;> cases right <;> first | rfl | cases hlocale
    · have hvalue := congrArg (Nat.ofDigitChars 10 · 0) hdigits
      simpa only [Nat.ofDigitChars_ten_toDigits] using hvalue
  · rintro ⟨hlocale, hversion, htitle⟩
    rw [fileName, fileName, hlocale, hversion, htitle]

theorem slash_notMem_fileName {document : ExportedDocument} {version : ExportedVersion} :
    '/' ∉ fileName tables document version := by
  have hlocale : '/' ∉ version.locale.text := by
    generalize version.locale = language
    cases language <;> decide
  have hdigits : '/' ∉ Nat.toDigits 10 version.version := fun hmem =>
    absurd (Nat.isDigit_of_mem_toDigits (by decide) (by decide) hmem) (by decide)
  have htitle : '/' ∉ fileTitle tables document version := by
    rw [fileTitle, List.mem_append, not_or]
    exact ⟨slash_notMem_safeName _, tables.slash_lower _ (slash_notMem_extname _)⟩
  simp [fileName, hlocale, hdigits, htitle]

/-- The parts have no slash, so a path determines them. -/
theorem slash_notMem_pathParts {document : ExportedDocument} {version : ExportedVersion} :
    ∀ part ∈ pathParts tables document version, '/' ∉ part := by
  intro part hpart
  simp only [pathParts, List.mem_append, List.mem_cons, List.not_mem_nil, or_false,
    Option.mem_toList, Option.map_eq_some_iff] at hpart
  rcases hpart with (rfl | ⟨category, -, rfl⟩) | rfl | rfl
  · exact slash_notMem_safeName _
  · exact slash_notMem_safeName _
  · exact slash_notMem_safeName _
  · exact slash_notMem_fileName

theorem path_eq_iff {document document' : ExportedDocument} {version version' : ExportedVersion} :
    List.intercalate ['/'] (pathParts tables document version) =
        List.intercalate ['/'] (pathParts tables document' version') ↔
      pathParts tables document version = pathParts tables document' version' := by
  constructor
  · intro heq
    have hparts := congrArg (List.splitOn '/') heq
    rwa [List.splitOn_intercalate _ slash_notMem_pathParts (by simp [pathParts]),
      List.splitOn_intercalate _ slash_notMem_pathParts (by simp [pathParts])] at hparts
  · exact congrArg _

theorem pathParts_eq_iff {document document' : ExportedDocument}
    {version version' : ExportedVersion} :
    pathParts tables document version = pathParts tables document' version' ↔
      (safeName tables document.space = safeName tables document'.space ∧
        document.category.map (safeName tables) = document'.category.map (safeName tables)) ∧
      safeName tables document.slug = safeName tables document'.slug ∧
      fileName tables document version = fileName tables document' version' := by
  unfold pathParts
  cases document.category <;> cases document'.category <;> simp [and_assoc]

end Same

/-! ## The paths of an export -/

/-- Two documents have files of the same path: their titles fill the name and agree, their ids
agree in the first seven characters, they are in the same folder, and files of one language and
version have the same title and extension. -/
structure SharesPath (tables : UnicodeTables) (titles : List Char → List Char)
    (first second : ExportedDocument) : Prop where
  fills : (normalizedTitle tables (titles first.id)).length = 72
  title : normalizedTitle tables (titles first.id) = normalizedTitle tables (titles second.id)
  id : first.id.take 7 = second.id.take 7
  space : safeName tables first.space = safeName tables second.space
  category : first.category.map (safeName tables) = second.category.map (safeName tables)
  file : ∃ version ∈ first.exported, ∃ version' ∈ second.exported,
    version.locale = version'.locale ∧ version.version = version'.version ∧
      fileTitle tables first version = fileTitle tables second version'

section Paths

variable {tables : UnicodeTables} {titles : List Char → List Char}
variable {documents : List ExportedDocument} {first second : ExportedDocument}

/-- The exported versions of a document have different languages. -/
theorem exported_pairwise (document : ExportedDocument) :
    document.exported.Pairwise fun version version' => version.locale ≠ version'.locale := by
  have hfold : ∀ versions latest : List ExportedVersion,
      (latest.Pairwise fun version version' => version.locale ≠ version'.locale) →
      (versions.foldl (fun latest version =>
        if latest.any (fun other => other.locale = version.locale) then latest
        else latest ++ [version]) latest).Pairwise
          fun version version' => version.locale ≠ version'.locale := by
    intro versions
    induction versions with
    | nil => exact fun latest hlatest => hlatest
    | cons version versions ih =>
        intro latest hlatest
        refine ih _ ?_
        beta_reduce
        split
        next => exact hlatest
        next hnew =>
          refine List.pairwise_append.mpr ⟨hlatest, List.pairwise_singleton _ _, ?_⟩
          intro other hother last hlast hsame
          obtain rfl := List.mem_singleton.mp hlast
          exact hnew (List.any_eq_true.mpr ⟨other, hother, decide_eq_true hsame⟩)
  exact (hfold document.versions [] List.Pairwise.nil).filter _

/-- The files of one document have different paths. -/
theorem documentEntries_pairwise (document : ExportedDocument) :
    (documentEntries tables document).Pairwise fun entry entry' => entry.path ≠ entry'.path := by
  rw [documentEntries, List.pairwise_map]
  refine (exported_pairwise document).imp fun hdiffer heq => hdiffer ?_
  exact (fileName_eq_iff.mp (pathParts_eq_iff.mp (path_eq_iff.mp heq)).2.2).1

/-- Files of two documents have the same path exactly if the documents share one. -/
theorem documentEntries_disjoint_iff (hid : fitsPattern uuidPattern first.id = true)
    (hid' : fitsPattern uuidPattern second.id = true)
    (hslug : first.slug = canonicalDocumentSlug tables (titles first.id) first.id)
    (hslug' : second.slug = canonicalDocumentSlug tables (titles second.id) second.id)
    (hdiffer : first.id.take 8 ≠ second.id.take 8) :
    (∀ entry ∈ documentEntries tables first, ∀ entry' ∈ documentEntries tables second,
      entry.path ≠ entry'.path) ↔ ¬SharesPath tables titles first second := by
  have hpath : ∀ version version', List.intercalate ['/'] (pathParts tables first version) =
      List.intercalate ['/'] (pathParts tables second version') ↔
        ((safeName tables first.space = safeName tables second.space ∧
          first.category.map (safeName tables) = second.category.map (safeName tables)) ∧
        ((normalizedTitle tables (titles first.id)).length = 72 ∧
          normalizedTitle tables (titles first.id) = normalizedTitle tables (titles second.id) ∧
          first.id.take 7 = second.id.take 7) ∧
        version.locale = version'.locale ∧ version.version = version'.version ∧
          fileTitle tables first version = fileTitle tables second version') := by
    intro version version'
    rw [path_eq_iff, pathParts_eq_iff, fileName_eq_iff, hslug, hslug',
      safeName_slug_eq_iff hid hid' hdiffer]
  rw [← not_iff_not, not_not]
  simp only [documentEntries, List.mem_map, not_forall]
  constructor
  · rintro ⟨_, ⟨version, hversion, rfl⟩, _, ⟨version', hversion', rfl⟩, hsame⟩
    obtain ⟨⟨hspace, hcategory⟩, ⟨hfills, htitle, hpart⟩, hfile⟩ :=
      (hpath version version').mp (not_not.mp hsame)
    exact ⟨hfills, htitle, hpart, hspace, hcategory, version, hversion, version', hversion', hfile⟩
  · rintro ⟨hfills, htitle, hpart, hspace, hcategory, version, hversion, version', hversion', hfile⟩
    refine ⟨_, ⟨version, hversion, rfl⟩, _, ⟨version', hversion', rfl⟩, not_not.mpr ?_⟩
    exact (hpath version version').mpr ⟨⟨hspace, hcategory⟩, ⟨hfills, htitle, hpart⟩, hfile⟩

/-- A path is in a folder, so it is not that of a manifest. -/
theorem path_ne_of_notMem {document : ExportedDocument} {entry : ExportEntry}
    (hentry : entry ∈ documentEntries tables document) {name : List Char} (hname : '/' ∉ name) :
    entry.path ≠ name := by
  obtain ⟨version, -, rfl⟩ := List.mem_map.mp hentry
  intro heq
  have hparts := congrArg (fun path => (List.splitOn '/' path).length) heq
  simp only [List.splitOn_intercalate '/' slash_notMem_pathParts
    (by simp [pathParts] : pathParts tables document version ≠ [])] at hparts
  have hsingle : (List.splitOn '/' name).length = 1 := by
    have hsplit : List.splitOn '/' (List.intercalate ['/'] [name]) = [name] :=
      List.splitOn_intercalate '/' (by simpa using hname) (by simp)
    rw [List.intercalate_singleton] at hsplit
    rw [hsplit]
    rfl
  rw [hsingle] at hparts
  simp [pathParts] at hparts

/-- An export has one path for every file, and none of them is that of a manifest, exactly if no
two documents share a path. -/
theorem export_paths_distinct_iff
    (hids : documents.Pairwise fun first second => first.id.take 8 ≠ second.id.take 8)
    (huuids : ∀ document ∈ documents, fitsPattern uuidPattern document.id = true)
    (hslugs : ∀ document ∈ documents,
      document.slug = canonicalDocumentSlug tables (titles document.id) document.id)
    {entries : List ExportEntry} (hexport : exportEntries tables documents = .ok entries) :
    ((entries.map ExportEntry.path).Nodup ∧ ∀ entry ∈ entries,
      entry.path ≠ "manifest.csv".toList ∧ entry.path ≠ "manifest.json".toList) ↔
      documents.Pairwise fun first second => ¬SharesPath tables titles first second := by
  have hentries : entries = documents.flatMap (documentEntries tables) := by
    unfold exportEntries at hexport
    split at hexport
    · cases hexport
    · simp only at hexport
      split at hexport <;> cases hexport
      rfl
  have hmanifest : ∀ entry ∈ entries,
      entry.path ≠ "manifest.csv".toList ∧ entry.path ≠ "manifest.json".toList := by
    intro entry hentry
    rw [hentries] at hentry
    obtain ⟨document, -, hmem⟩ := List.mem_flatMap.mp hentry
    exact ⟨path_ne_of_notMem hmem (by decide), path_ne_of_notMem hmem (by decide)⟩
  rw [and_iff_left hmanifest, hentries, List.Nodup, List.pairwise_map, List.pairwise_flatMap,
    and_iff_right fun document _ => documentEntries_pairwise document]
  -- The ids are known to differ for every pair in the order of the list.
  have hpairs : ∀ {relation : ExportedDocument → ExportedDocument → Prop},
      documents.Pairwise relation ↔ documents.Pairwise fun first second =>
        first.id.take 8 ≠ second.id.take 8 ∧ relation first second := by
    intro relation
    rw [List.pairwise_and_iff, and_iff_right hids]
  rw [hpairs]
  conv_rhs => rw [hpairs]
  refine List.Pairwise.iff_of_mem fun {first second} hfirst hsecond => ?_
  exact and_congr_right fun hdiffer => documentEntries_disjoint_iff (huuids _ hfirst)
    (huuids _ hsecond) (hslugs _ hfirst) (hslugs _ hsecond) hdiffer

end Paths

/-! ## Sample -/

/-- Tables for texts in ASCII. -/
def asciiTables : UnicodeTables where
  nfd := id
  nfkd := id
  toLowerCase := List.map JsString.lowerAscii
  nfkd_ascii _ _ := rfl
  slash_lower text hslash := by
    rw [List.mem_map]
    rintro ⟨c, hc, hlower⟩
    by_cases hupper : 65 ≤ c.toNat ∧ c.toNat ≤ 90
    · have hvalue := JsString.toNat_lowerAscii hupper
      rw [hlower] at hvalue
      have hcode : '/'.toNat = 47 := by decide
      omega
    · rw [JsString.lowerAscii, if_neg hupper] at hlower
      exact hslash (hlower ▸ hc)

/-- A document in French, with an id of which the eighth character is given. -/
def sampleDocument (eighth : Char) (title : List Char) : ExportedDocument :=
  let id := "0123456".toList ++ eighth :: "-89ab-4def-8123-456789abcdef".toList
  ⟨id, canonicalDocumentSlug asciiTables title id, ['i', 't'], none, [(.fr, title)],
    [⟨.fr, 1, ⟨['a', '.', 'p', 'd', 'f'], 1, [.clean], none⟩⟩]⟩

/-- Two documents with one title that fits have two paths. -/
theorem export_paths_distinct_iff_short : ∃ entries,
    exportEntries asciiTables [sampleDocument '7' ['P'], sampleDocument '8' ['P']] = .ok entries ∧
      (entries.map ExportEntry.path).Nodup := by
  refine ⟨[sampleDocument '7' ['P'], sampleDocument '8' ['P']].flatMap
    (documentEntries asciiTables), by decide, ?_⟩
  refine ((@export_paths_distinct_iff asciiTables (fun _ => ['P'])
    [sampleDocument '7' ['P'], sampleDocument '8' ['P']] ?_ ?_ ?_ _ (by decide)).mpr ?_).1
  · decide
  · decide
  · decide
  · refine List.pairwise_pair.mpr fun hshares => ?_
    exact absurd hshares.fills (by decide)

/-- Two documents with one title of 72 letters, whose ids differ in the eighth character, have
one path. -/
theorem long_titles_share_path :
    let title := List.replicate 72 'p'
    (∃ entries, exportEntries asciiTables [sampleDocument '7' title, sampleDocument '8' title] =
        .ok entries ∧ entries.length = 2 ∧ ¬(entries.map ExportEntry.path).Nodup) ∧
      (sampleDocument '7' title).id.take 8 ≠ (sampleDocument '8' title).id.take 8 ∧
      ∀ document ∈ [sampleDocument '7' title, sampleDocument '8' title],
        fitsPattern uuidPattern document.id = true ∧
          document.slug = canonicalDocumentSlug asciiTables title document.id := by
  refine ⟨⟨_, rfl, by decide +kernel, by decide +kernel⟩, by decide +kernel, by decide +kernel⟩

end IsmsPortal
