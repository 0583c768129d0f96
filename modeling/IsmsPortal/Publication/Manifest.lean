import IsmsPortal.Foundation.Csv
import Mathlib.Data.List.Forall2

/-! # The manifest of an export

The manifest of the archive lists its documents, one line each. Every cell is in quotes, and a cell
that a spreadsheet would take for a formula starts with an apostrophe instead. So the file has one
reading, which differs from the rows in these apostrophes only.
-/

namespace IsmsPortal

open Foundation

/-- What a column may have; numbers are those that the runtime writes in full. -/
inductive CsvValue
  | undefined
  | text (value : List Char)
  | number (value : Int)

/-- `String(value)`, and nothing for a value that is missing. -/
def CsvValue.string : CsvValue → List Char
  | .undefined => []
  | .text value => value
  | .number (.ofNat n) => Nat.toDigits 10 n
  | .number (.negSucc n) => '-' :: Nat.toDigits 10 (n + 1)

def formulaStarts : List Char := ['=', '+', '-', '@', '\t', '\r']

/-- `/^[=+\-@\t\r]/`. -/
def startsFormula : List Char → Bool
  | [] => false
  | c :: _ => c ∈ formulaStarts

/-- Neutralises spreadsheet formulas. -/
def safeCell (text : List Char) : List Char :=
  if startsFormula text then '\x27' :: text else text

def csvCell (value : CsvValue) : List Char :=
  '"' :: ((safeCell value.string).flatMap fun c => if c = '"' then ['"', '"'] else [c]) ++ ['"']

inductive ManifestColumn
  | documentId | slug | reference | title | locale | version | status | space | category
  | documentType | owner | publishedAt | file | originalName | sha256 | size | timestampedAt

namespace ManifestColumn

def name : ManifestColumn → String
  | documentId => "documentId"
  | slug => "slug"
  | reference => "reference"
  | title => "title"
  | locale => "locale"
  | version => "version"
  | status => "status"
  | space => "space"
  | category => "category"
  | documentType => "documentType"
  | owner => "owner"
  | publishedAt => "publishedAt"
  | file => "file"
  | originalName => "originalName"
  | sha256 => "sha256"
  | size => "size"
  | timestampedAt => "timestampedAt"

def columns : List ManifestColumn :=
  [documentId, slug, reference, title, locale, version, status, space, category, documentType,
    owner, publishedAt, file, originalName, sha256, size, timestampedAt]

end ManifestColumn

/-- A line of the manifest. -/
structure ManifestRow where
  documentId : List Char
  slug : List Char
  reference : List Char
  title : List Char
  locale : List Char
  version : Int
  status : List Char
  space : List Char
  category : List Char
  documentType : List Char
  owner : List Char
  publishedAt : List Char
  file : List Char
  originalName : List Char
  sha256 : List Char
  size : Nat
  timestampedAt : List Char

/-- `row[column]`. -/
def ManifestRow.value (row : ManifestRow) : ManifestColumn → CsvValue
  | .documentId => .text row.documentId
  | .slug => .text row.slug
  | .reference => .text row.reference
  | .title => .text row.title
  | .locale => .text row.locale
  | .version => .number row.version
  | .status => .text row.status
  | .space => .text row.space
  | .category => .text row.category
  | .documentType => .text row.documentType
  | .owner => .text row.owner
  | .publishedAt => .text row.publishedAt
  | .file => .text row.file
  | .originalName => .text row.originalName
  | .sha256 => .text row.sha256
  | .size => .number row.size
  | .timestampedAt => .text row.timestampedAt

/-- The lines of a table, under its header. -/
def csvText (header : List (List Char)) (table : List (List CsvValue)) : List Char :=
  List.intercalate ['\r', '\n'] (List.intercalate [';'] header ::
    table.map fun row => List.intercalate [';'] (row.map csvCell))

def manifestHeader : List (List Char) := ManifestColumn.columns.map fun column => column.name.toList

def byteOrderMark : Char := '\ufeff'

def manifestCsv (manifest : List ManifestRow) : List Char :=
  byteOrderMark :: csvText manifestHeader
    (manifest.map fun row => ManifestColumn.columns.map row.value)

/-- A file without its byte order mark. -/
def withoutMark : List Char → List Char
  | [] => []
  | c :: rest => if c = byteOrderMark then rest else c :: rest

/-! ## Reading the manifest -/

/-- Separated values of spreadsheets: the separator is a semicolon. -/
def semicolons : Csv.Dialect Char where
  quote := '"'
  separator := ';'
  cr := '\r'
  lf := '\n'
  distinct := by decide

theorem csvCell_field (value : CsvValue) :
    Csv.Field semicolons (csvCell value) (safeCell value.string) :=
  .quoted _

/-- No cell starts a formula. -/
theorem startsFormula_safeCell (text : List Char) : startsFormula (safeCell text) = false := by
  unfold safeCell
  split
  next => rfl
  next hplain => simpa using hplain

theorem csvCells_ne_nil {row : List CsvValue} (hrow : row ≠ []) :
    List.intercalate [';'] (row.map csvCell) ≠ [] := by
  obtain ⟨value, rest, rfl⟩ := List.exists_cons_of_ne_nil hrow
  exact Csv.intercalate_ne_nil (List.cons_ne_nil _ _) _

/-- The lines of a table, each with the cells that it is read as. -/
def csvLines (header : List (List Char)) (table : List (List CsvValue)) :
    List (List Char × List (List Char)) :=
  (List.intercalate [';'] header, header) :: table.map fun row =>
    (List.intercalate [';'] (row.map csvCell), row.map fun value => safeCell value.string)

/-- A table is read as its header and its cells. -/
theorem csvText_file (header : List (List Char)) (table : List (List CsvValue))
    (hheader : header ≠ [])
    (hplain : ∀ name ∈ header, name ≠ [] ∧ ∀ c ∈ name, Csv.IsTextData semicolons c)
    (htable : ∀ row ∈ table, row ≠ []) :
    Csv.File semicolons (csvText header table)
      (header :: table.map fun row => row.map fun value => safeCell value.string) := by
  have hfirst : Csv.Record semicolons (List.intercalate [';'] header) header := by
    have hjoin : Csv.Record semicolons (List.intercalate [';'] (header.map id)) (header.map id) :=
      Csv.record_join hheader fun name hname => .plain (hplain name hname).2
    rwa [List.map_id] at hjoin
  have hfirstText : List.intercalate [';'] header ≠ [] := by
    obtain ⟨name, rest, rfl⟩ := List.exists_cons_of_ne_nil hheader
    exact Csv.intercalate_ne_nil (hplain name List.mem_cons_self).1 rest
  have hlines : ∀ line ∈ csvLines header table,
      Csv.Record semicolons line.1 line.2 ∧ line.1 ≠ [] := by
    intro line hline
    rcases List.mem_cons.mp hline with rfl | htail
    · exact ⟨hfirst, hfirstText⟩
    · obtain ⟨row, hrow, rfl⟩ := List.mem_map.mp htail
      exact ⟨Csv.record_join (htable row hrow) fun value _ => csvCell_field value,
        csvCells_ne_nil (htable row hrow)⟩
  have hfile := Csv.file_join (List.cons_ne_nil _ _) hlines
  simp only [List.map_cons, List.map_map, Function.comp_def] at hfile
  exact hfile

theorem manifestHeader_plain :
    ∀ name ∈ manifestHeader, name ≠ [] ∧ ∀ c ∈ name, Csv.IsTextData semicolons c := by
  have hall : manifestHeader.all (fun name => !name.isEmpty && name.all fun c =>
      c != '"' && c != ';' && c != '\r' && c != '\n') = true := by decide
  intro name hname
  have hchecks := List.all_eq_true.mp hall name hname
  simp only [Bool.and_eq_true, Bool.not_eq_true', List.isEmpty_eq_false_iff,
    List.all_eq_true, bne_iff_ne] at hchecks
  exact ⟨hchecks.1, fun c hc =>
    have h := hchecks.2 c hc
    ⟨h.1.1.1, h.1.1.2, h.1.2, h.2⟩⟩

theorem manifestHeader_safe : ∀ name ∈ manifestHeader, startsFormula name = false := by
  have hall : manifestHeader.all (fun name => !startsFormula name) = true := by decide
  intro name hname
  simpa using List.all_eq_true.mp hall name hname

/-- The manifest has one reading, after its byte order mark: the header, and for each row its
cells. A cell is that of the row, with one apostrophe before it exactly if it starts like a formula;
so no cell that is read does. -/
theorem manifest_round_trip (manifest : List ManifestRow) :
    ∃ cells : List (List (List Char)),
      (∀ reading, Csv.File semicolons (withoutMark (manifestCsv manifest)) reading ↔
        reading = manifestHeader :: cells) ∧
      Csv.parse semicolons (withoutMark (manifestCsv manifest)) =
        some (manifestHeader :: cells) ∧
      List.Forall₂ (fun row record => List.Forall₂ (fun column cell =>
        if startsFormula (row.value column).string then cell = '\x27' :: (row.value column).string
        else cell = (row.value column).string) ManifestColumn.columns record) manifest cells ∧
      ∀ record ∈ manifestHeader :: cells, ∀ cell ∈ record, startsFormula cell = false := by
  have hfile := csvText_file manifestHeader
    (manifest.map fun row => ManifestColumn.columns.map row.value) (List.cons_ne_nil _ _)
    manifestHeader_plain (by
      intro row hrow
      obtain ⟨_, -, rfl⟩ := List.mem_map.mp hrow
      exact List.cons_ne_nil _ _)
  rw [List.map_map] at hfile
  refine ⟨_, fun reading => ⟨fun hreading => Csv.file_unique hreading hfile, ?_⟩,
    Csv.parse_of_file hfile, ?_, ?_⟩
  · rintro rfl
    exact hfile
  · rw [List.forall₂_map_right_iff, List.forall₂_same]
    intro row _
    rw [Function.comp_apply, List.map_map, List.forall₂_map_right_iff, List.forall₂_same]
    intro column _
    rw [Function.comp_apply, safeCell]
    split <;> rfl
  · intro record hrecord cell hcell
    rcases List.mem_cons.mp hrecord with rfl | htail
    · exact manifestHeader_safe cell hcell
    · obtain ⟨row, -, rfl⟩ := List.mem_map.mp htail
      obtain ⟨value, -, rfl⟩ := List.mem_map.mp hcell
      exact startsFormula_safeCell _

end IsmsPortal
