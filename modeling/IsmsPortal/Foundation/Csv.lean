import Mathlib.Data.List.Basic

/-! # Separated values

Rows of fields as RFC 4180 writes them, for any separator: the grammar, and a reader of texts that
finds the rows of the grammar. So a text has one reading at most.
-/

namespace Foundation.Csv

/-- The characters with a meaning of their own. -/
structure Dialect (α : Type*) where
  quote : α
  separator : α
  cr : α
  lf : α
  distinct : [quote, separator, cr, lf].Nodup

section Grammar

variable {α : Type*} [DecidableEq α] (dialect : Dialect α)

/-- A character that stands for itself, also outside of quotes. -/
def IsTextData (c : α) : Prop :=
  c ≠ dialect.quote ∧ c ≠ dialect.separator ∧ c ≠ dialect.cr ∧ c ≠ dialect.lf

/-- Quotes within quotes are doubled. -/
def escape (value : List α) : List α :=
  value.flatMap fun c => if c = dialect.quote then [dialect.quote, dialect.quote] else [c]

def quoted (value : List α) : List α :=
  dialect.quote :: (escape dialect value ++ [dialect.quote])

inductive Field : List α → List α → Prop
  | plain {value : List α} (hvalue : ∀ c ∈ value, IsTextData dialect c) : Field value value
  | quoted (value : List α) : Field (quoted dialect value) value

inductive Record : List α → List (List α) → Prop
  | last {text value : List α} (hfield : Field dialect text value) : Record text [value]
  | cons {text value rest : List α} {values : List (List α)} (hfield : Field dialect text value)
      (hrest : Record rest values) :
      Record (text ++ dialect.separator :: rest) (value :: values)

/-- The line break after the last record may be left out, unless that record is empty. -/
inductive File : List α → List (List (List α)) → Prop
  | last {text : List α} {fields : List (List α)} (hrecord : Record dialect text fields)
      (hne : text ≠ []) : File text [fields]
  | ended {text : List α} {fields : List (List α)} (hrecord : Record dialect text fields) :
      File (text ++ [dialect.cr, dialect.lf]) [fields]
  | cons {text rest : List α} {fields : List (List α)} {rows : List (List (List α))}
      (hrecord : Record dialect text fields) (hrest : File rest rows) :
      File (text ++ dialect.cr :: dialect.lf :: rest) (fields :: rows)

end Grammar

/-! ## Reading -/

/-- Where the reader stands: at the start of a field, within one, within quotes, after a quote that
may end them, and after a carriage return. -/
inductive State
  | start
  | plain
  | quoted
  | closing
  | lineEnd

/-- What the rest of a text has: the rest of the field, the other fields of the record, and the
other records. -/
abbrev Remaining (α : Type*) := List α × List (List α) × List (List (List α))

namespace Remaining

variable {α : Type*}

def none : Remaining α := ([], [], [])

def keep (c : α) : Remaining α → Remaining α
  | (field, fields, records) => (c :: field, fields, records)

def nextField : Remaining α → Remaining α
  | (field, fields, records) => ([], field :: fields, records)

def nextRecord : Remaining α → Remaining α
  | (field, fields, records) => ([], [], (field :: fields) :: records)

/-- Characters that are kept. -/
def prepend (value : List α) (remaining : Remaining α) : Remaining α :=
  value.foldr keep remaining

def rows : Remaining α → List (List (List α))
  | (field, fields, records) => (field :: fields) :: records

theorem prepend_eq (value field : List α) (fields : List (List α))
    (records : List (List (List α))) :
    prepend value (field, fields, records) = (value ++ field, fields, records) := by
  induction value with
  | nil => rfl
  | cons c value ih => rw [prepend, List.foldr_cons, ← prepend, ih]; rfl

theorem rows_nextField {remaining : Remaining α} {fields : List (List α)}
    {records : List (List (List α))} (hrows : remaining.rows = fields :: records)
    (value : List α) : (prepend value remaining.nextField).rows = (value :: fields) :: records := by
  obtain ⟨field, others, later⟩ := remaining
  obtain ⟨rfl, rfl⟩ := List.cons.inj hrows
  rw [nextField, prepend_eq, List.append_nil]
  rfl

end Remaining

section Reader

variable {α : Type*} [DecidableEq α] (dialect : Dialect α)

def read : State → List α → Option (Remaining α)
  | .start, [] => some .none
  | .plain, [] => some .none
  | .closing, [] => some .none
  | .quoted, [] => none
  | .lineEnd, [] => none
  | .start, c :: rest =>
      if c = dialect.quote then read .quoted rest
      else if c = dialect.separator then (read .start rest).map .nextField
      else if c = dialect.cr then read .lineEnd rest
      else if c = dialect.lf then none
      else (read .plain rest).map (.keep c)
  | .plain, c :: rest =>
      if c = dialect.quote then none
      else if c = dialect.separator then (read .start rest).map .nextField
      else if c = dialect.cr then read .lineEnd rest
      else if c = dialect.lf then none
      else (read .plain rest).map (.keep c)
  | .quoted, c :: rest =>
      if c = dialect.quote then read .closing rest else (read .quoted rest).map (.keep c)
  | .closing, c :: rest =>
      if c = dialect.quote then (read .quoted rest).map (.keep c)
      else if c = dialect.separator then (read .start rest).map .nextField
      else if c = dialect.cr then read .lineEnd rest
      else none
  | .lineEnd, c :: rest =>
      if c = dialect.lf then
        if rest = [] then some .none else (read .start rest).map .nextRecord
      else none

/-- The rows of a text. -/
def parse (text : List α) : Option (List (List (List α))) :=
  (read dialect .start text).map Remaining.rows

end Reader

section Completeness

variable {α : Type*} [DecidableEq α] {dialect : Dialect α}

/-- What may follow a field. -/
def EndsField (dialect : Dialect α) (rest : List α) : Prop :=
  ∀ c ∈ rest.head?, c = dialect.separator ∨ c = dialect.cr

omit [DecidableEq α] in
theorem separator_ne : dialect.separator ≠ dialect.quote ∧ dialect.separator ≠ dialect.cr := by
  have hdistinct := dialect.distinct
  simp only [List.nodup_cons, List.mem_cons, List.not_mem_nil] at hdistinct
  exact ⟨fun h => hdistinct.1 (by simp [h]), fun h => hdistinct.2.1 (by simp [h])⟩

omit [DecidableEq α] in
theorem cr_ne : dialect.cr ≠ dialect.quote ∧ dialect.cr ≠ dialect.separator := by
  have hdistinct := dialect.distinct
  simp only [List.nodup_cons, List.mem_cons, List.not_mem_nil] at hdistinct
  exact ⟨fun h => hdistinct.1 (by simp [h]), fun h => hdistinct.2.1 (by simp [h])⟩

/-- Where a field ends, every place within it reads the same. -/
theorem read_of_endsField {rest : List α} (hrest : EndsField dialect rest) :
    read dialect .start rest = read dialect .closing rest ∧
      read dialect .plain rest = read dialect .closing rest := by
  cases rest with
  | nil => exact ⟨rfl, rfl⟩
  | cons c rest =>
      rcases hrest c rfl with rfl | rfl
      · simp [read, separator_ne.1]
      · simp [read, cr_ne.1, cr_ne.2]

theorem read_plain {value rest : List α} (hvalue : ∀ c ∈ value, IsTextData dialect c)
    (hrest : EndsField dialect rest) :
    read dialect .plain (value ++ rest) =
      (read dialect .closing rest).map (.prepend value) := by
  induction value with
  | nil => rw [List.nil_append, (read_of_endsField hrest).2]; exact Option.map_id'.symm
  | cons c value ih =>
      obtain ⟨hquote, hseparator, hcr, hlf⟩ := hvalue c List.mem_cons_self
      rw [List.cons_append, read, if_neg hquote, if_neg hseparator, if_neg hcr, if_neg hlf,
        ih fun other hother => hvalue other (List.mem_cons_of_mem _ hother), Option.map_map]
      rfl

theorem read_quoted (value rest : List α) :
    read dialect .quoted (escape dialect value ++ dialect.quote :: rest) =
      (read dialect .closing rest).map (.prepend value) := by
  induction value with
  | nil =>
      rw [escape, List.flatMap_nil, List.nil_append, read, if_pos rfl]
      exact Option.map_id'.symm
  | cons c value ih =>
      have hkept : (read dialect .quoted
          (escape dialect value ++ dialect.quote :: rest)).map (Remaining.keep c) =
          (read dialect .closing rest).map (Remaining.prepend (c :: value)) := by
        rw [ih, Option.map_map]
        rfl
      rw [escape, List.flatMap_cons]
      by_cases hc : c = dialect.quote
      · -- Two quotes: the second one says that the first did not end the field.
        rw [if_pos hc, List.append_assoc, List.cons_append, List.cons_append, List.nil_append, read,
          if_pos rfl, read, if_pos rfl, ← hc]
        exact hc ▸ hkept
      · rw [if_neg hc, List.append_assoc, List.cons_append, List.nil_append, read, if_neg hc]
        exact hkept

theorem read_field {text value rest : List α} (hfield : Field dialect text value)
    (hrest : EndsField dialect rest) :
    read dialect .start (text ++ rest) = (read dialect .closing rest).map (.prepend value) := by
  cases hfield with
  | plain hvalue =>
      cases text with
      | nil => rw [List.nil_append, (read_of_endsField hrest).1]; exact Option.map_id'.symm
      | cons c text =>
          have hplain := read_plain hvalue hrest
          obtain ⟨hquote, hseparator, hcr, hlf⟩ := hvalue c List.mem_cons_self
          rw [List.cons_append, read, if_neg hquote, if_neg hseparator, if_neg hcr,
            if_neg hlf] at hplain
          rw [List.cons_append, read, if_neg hquote, if_neg hseparator, if_neg hcr, if_neg hlf]
          exact hplain
  | quoted =>
      rw [quoted, List.cons_append, List.append_assoc, read, if_pos rfl]
      exact read_quoted value rest

/-- A record is read up to its end, where nothing of it is left. -/
theorem read_record {text rest : List α} {fields : List (List α)}
    (hrecord : Record dialect text fields) (hrest : ∀ c ∈ rest.head?, c = dialect.cr)
    {records : List (List (List α))}
    (hread : read dialect .closing rest = some ([], [], records)) :
    ∃ remaining, read dialect .start (text ++ rest) = some remaining ∧
      remaining.rows = fields :: records := by
  induction hrecord with
  | @last text value hfield =>
      refine ⟨Remaining.prepend value ([], [], records), ?_, ?_⟩
      · rw [read_field hfield fun c hc => .inr (hrest c hc), hread, Option.map_some]
      · rw [Remaining.prepend_eq, List.append_nil]
        rfl
  | @cons text value others values hfield _ ih =>
      obtain ⟨remaining, hremaining, hrows⟩ := ih
      refine ⟨Remaining.prepend value remaining.nextField, ?_,
        Remaining.rows_nextField hrows value⟩
      have hends : EndsField dialect (dialect.separator :: (others ++ rest)) := by
        intro c hc
        exact .inl (Option.some.inj hc).symm
      rw [List.append_assoc, List.cons_append, read_field hfield hends, read,
        if_neg separator_ne.1, if_pos rfl, hremaining]
      rfl

/-- A carriage return after a record ends it. -/
theorem read_lineBreak (rest : List α) :
    read dialect .closing (dialect.cr :: dialect.lf :: rest) =
      if rest = [] then some .none else (read dialect .start rest).map .nextRecord := by
  rw [read, if_neg cr_ne.1, if_neg cr_ne.2, if_pos rfl, read, if_pos rfl]

theorem file_ne_nil {text : List α} {rows : List (List (List α))}
    (hfile : File dialect text rows) : text ≠ [] := by
  cases hfile with
  | last _ hne => exact hne
  | ended _ => exact List.append_ne_nil_of_right_ne_nil _ (List.cons_ne_nil _ _)
  | cons _ _ => exact List.append_ne_nil_of_right_ne_nil _ (List.cons_ne_nil _ _)

/-- The reader finds the rows of the grammar. -/
theorem parse_of_file {text : List α} {rows : List (List (List α))}
    (hfile : File dialect text rows) : parse dialect text = some rows := by
  have hcr : ∀ rest, ∀ c ∈ (dialect.cr :: rest).head?, c = dialect.cr := fun rest c hc =>
    (Option.some.inj hc).symm
  rw [parse, Option.map_eq_some_iff]
  induction hfile with
  | @last text fields hrecord hne =>
      have hread : ∃ remaining, read dialect .start (text ++ []) = some remaining ∧
          remaining.rows = [fields] := read_record hrecord (by simp) rfl
      rwa [List.append_nil] at hread
  | ended hrecord =>
      refine read_record hrecord (hcr _) ?_
      rw [read_lineBreak, if_pos rfl]
      rfl
  | @cons text rest fields rows hrecord hrest ih =>
      obtain ⟨remaining, hremaining, hrows⟩ := ih
      refine read_record hrecord (hcr _) ?_
      rw [read_lineBreak, if_neg (file_ne_nil hrest), hremaining, Option.map_some, ← hrows]
      rfl

/-- A text has one reading at most. -/
theorem file_unique {text : List α} {rows rows' : List (List (List α))}
    (hfile : File dialect text rows) (hfile' : File dialect text rows') : rows = rows' :=
  Option.some.inj ((parse_of_file hfile).symm.trans (parse_of_file hfile'))

/-! ## Writing -/

omit [DecidableEq α] in
theorem intercalate_ne_nil {mark first : List α} (hfirst : first ≠ []) (rest : List (List α)) :
    List.intercalate mark (first :: rest) ≠ [] := by
  cases rest with
  | nil => rwa [List.intercalate_singleton]
  | cons second rest =>
      rw [List.intercalate_cons_cons, List.append_assoc]
      exact List.append_ne_nil_of_left_ne_nil hfirst _

/-- Fields that are joined by the separator. -/
theorem record_join {β : Type*} {items : List β} {text value : β → List α} (hne : items ≠ [])
    (hfields : ∀ item ∈ items, Field dialect (text item) (value item)) :
    Record dialect (List.intercalate [dialect.separator] (items.map text))
      (items.map value) := by
  induction items with
  | nil => exact absurd rfl hne
  | cons item items ih =>
      have hfield := hfields item List.mem_cons_self
      cases items with
      | nil => simpa [List.intercalate] using Record.last hfield
      | cons next items =>
          have hrest := ih (List.cons_ne_nil _ _) fun other hother =>
            hfields other (List.mem_cons_of_mem _ hother)
          rw [List.map_cons, List.map_cons, List.intercalate_cons_cons, List.append_assoc,
            List.map_cons]
          exact .cons hfield hrest

/-- Records that are joined by line breaks, each with its fields. -/
theorem file_join {records : List (List α × List (List α))} (hne : records ≠ [])
    (hrecords : ∀ record ∈ records, Record dialect record.1 record.2 ∧ record.1 ≠ []) :
    File dialect (List.intercalate [dialect.cr, dialect.lf] (records.map Prod.fst))
      (records.map Prod.snd) := by
  induction records with
  | nil => exact absurd rfl hne
  | cons record records ih =>
      obtain ⟨hrecord, htext⟩ := hrecords record List.mem_cons_self
      cases records with
      | nil => simpa [List.intercalate] using File.last hrecord htext
      | cons next records =>
          have hrest := ih (List.cons_ne_nil _ _) fun other hother =>
            hrecords other (List.mem_cons_of_mem _ hother)
          rw [List.map_cons, List.map_cons, List.intercalate_cons_cons, List.append_assoc,
            List.map_cons]
          exact .cons hrecord hrest

end Completeness

end Foundation.Csv
