import IsmsPortal.Foundation.NumberText
import Mathlib.Data.List.Shortlex
import Mathlib.Data.Set.Function

/-! # Ranges of sheets

The filter of a sheet names its range by column letters and row numbers, each of which may have a
dollar sign. Letters count the columns in base twenty-six without a zero, so shorter names come
first and names of one length follow the alphabet.
-/

namespace Filters

open Foundation Numerals

structure SheetRange where
  firstColumn : Int
  lastColumn : Int
  headerRow : Double
  lastRow : Double
deriving DecidableEq

def sheetColumn (letters : List Char) : Int :=
  letters.foldl (fun value letter => value * 26 + (letter.toNat : Int) - 64) 0 - 1

/-- `\$?`. -/
def dropDollar : List Char → List Char
  | '$' :: rest => rest
  | text => text

/-- `\$?([A-Z]{1,3})\$?([1-9]\d*)`: the letters, the digits and the rest. -/
def readCell (text : List Char) : Option (List Char × List Char × List Char) :=
  let front := dropDollar text
  let letters := front.takeWhile Char.isUpper
  let back := dropDollar (front.dropWhile Char.isUpper)
  let digits := back.takeWhile Char.isDigit
  if letters ≠ [] ∧ letters.length ≤ 3 ∧ digits ≠ [] ∧ digits.head? ≠ some '0' then
    some (letters, digits, back.dropWhile Char.isDigit)
  else none

/-- The letters and digits of the two cells; the second cell may be left out. -/
def readReference (text : List Char) :
    Option ((List Char × List Char) × Option (List Char × List Char)) :=
  match readCell text with
  | none => none
  | some (letters, digits, []) => some ((letters, digits), none)
  | some (letters, digits, c :: rest) =>
      if c = ':' then
        match readCell rest with
        | some (letters', digits', []) => some ((letters, digits), some (letters', digits'))
        | _ => none
      else none

def sheetFilterRange : Option (List Char) → Option SheetRange
  | none => none
  | some reference =>
      match readReference reference with
      | none => none
      | some (first, second) =>
          let firstColumn := sheetColumn first.1
          let lastColumn := sheetColumn (second.getD first).1
          let headerRow := Double.number first.2
          let lastRow := Double.number (second.getD first).2
          if lastColumn < firstColumn ∨ lastColumn > 16383 ∨ lastRow.lt headerRow ∨
              (Double.finite 1048576).lt lastRow then none
          else some { firstColumn, lastColumn, headerRow, lastRow }

/-! ## Names of columns -/

/-- The letters of a column. -/
def columnName (column : Nat) : List Char :=
  (if h : column < 26 then [] else columnName (column / 26 - 1)) ++
    [Char.ofNat (65 + column % 26)]

theorem columnName_small {column : Nat} (h : column < 26) :
    columnName column = [Char.ofNat (65 + column)] := by
  rw [columnName, dif_pos h, Nat.mod_eq_of_lt h, List.nil_append]

theorem columnName_large (column : Nat) (h : ¬ column < 26) :
    columnName column = columnName (column / 26 - 1) ++ [Char.ofNat (65 + column % 26)] := by
  rw [columnName, dif_neg h]

theorem letter_of_number : ∀ n < 26, (Char.ofNat (65 + n)).isUpper = true ∧
    (Char.ofNat (65 + n)).toNat = 65 + n := by
  decide

theorem number_of_letter {c : Char} (hc : c.isUpper = true) :
    ∃ n < 26, c = Char.ofNat (65 + n) := by
  have hrange : 'A'.val ≤ c.val ∧ c.val ≤ 'Z'.val := of_decide_eq_true hc
  have hlow : 65 ≤ c.toNat := hrange.1
  have hhigh : c.toNat ≤ 90 := hrange.2
  refine ⟨c.toNat - 65, by omega, ?_⟩
  rw [Nat.add_sub_cancel' hlow, Char.ofNat_toNat]

theorem sheetColumn_concat (front : List Char) (c : Char) :
    sheetColumn (front ++ [c]) = (sheetColumn front + 1) * 26 + c.toNat - 65 := by
  rw [sheetColumn, sheetColumn, List.foldl_append, List.foldl_cons, List.foldl_nil,
    Int.sub_add_cancel]
  omega

theorem sheetColumn_columnName (column : Nat) : sheetColumn (columnName column) = column := by
  induction column using Nat.strongRecOn with
  | ind column ih =>
    obtain ⟨-, hletter⟩ := letter_of_number (column % 26) (Nat.mod_lt _ (by decide))
    by_cases h : column < 26
    · rw [columnName_small h, ← List.nil_append [_], sheetColumn_concat,
        ← Nat.mod_eq_of_lt h, hletter]
      simp [sheetColumn]
    · rw [columnName_large _ h, sheetColumn_concat, hletter, ih (column / 26 - 1) (by omega)]
      omega

/-- Letters of upper case are the name of a column. -/
theorem exists_columnName {letters : List Char} (hne : letters ≠ [])
    (hupper : ∀ c ∈ letters, c.isUpper = true) : ∃ column, letters = columnName column := by
  induction letters using List.reverseRecOn with
  | nil => exact absurd rfl hne
  | append_singleton front c ih =>
      obtain ⟨n, hn, rfl⟩ := number_of_letter (hupper c (by simp))
      by_cases hfront : front = []
      · exact ⟨n, by rw [hfront, columnName_small hn, List.nil_append]⟩
      · obtain ⟨column, rfl⟩ := ih hfront fun d hd => hupper d (List.mem_append_left _ hd)
        refine ⟨(column + 1) * 26 + n, ?_⟩
        have hquotient : ((column + 1) * 26 + n) / 26 - 1 = column := by omega
        have hremainder : ((column + 1) * 26 + n) % 26 = n := by omega
        rw [columnName_large ((column + 1) * 26 + n) (by omega), hquotient, hremainder]

theorem columnName_upper (column : Nat) :
    columnName column ≠ [] ∧ ∀ c ∈ columnName column, c.isUpper = true := by
  induction column using Nat.strongRecOn with
  | ind column ih =>
    obtain ⟨hletter, -⟩ := letter_of_number (column % 26) (Nat.mod_lt _ (by decide))
    by_cases h : column < 26
    · rw [columnName, dif_pos h]
      simpa using hletter
    · rw [columnName_large _ h]
      refine ⟨by simp, fun c hc => ?_⟩
      rcases List.mem_append.mp hc with hfront | hlast
      · exact (ih (column / 26 - 1) (by omega)).2 c hfront
      · rw [List.mem_singleton.mp hlast]
        exact hletter

/-- Columns have names of three letters at most. -/
theorem length_columnName {column : Nat} (h : column ≤ 16383) :
    (columnName column).length ≤ 3 := by
  have hone : ∀ n < 26, (columnName n).length = 1 := fun n hn => by
    rw [columnName_small hn, List.length_singleton]
  have htwo : ∀ n < 702, (columnName n).length ≤ 2 := fun n hn => by
    by_cases hsmall : n < 26
    · rw [hone n hsmall]
      omega
    · rw [columnName_large _ hsmall, List.length_append, hone _ (by omega)]
      simp
  by_cases hsmall : column < 26
  · rw [hone column hsmall]
    omega
  · have hfront := htwo (column / 26 - 1) (by omega)
    rw [columnName_large _ hsmall, List.length_append, List.length_singleton]
    omega

/-! ## The order of columns -/

/-- Names are compared by their lengths, and by the alphabet within one length. -/
abbrev NameLt : List Char → List Char → Prop := List.Shortlex (· < ·)

theorem nameLt_append {left right : List Char} (h : NameLt left right) (c d : Char) :
    NameLt (left ++ [c]) (right ++ [d]) := by
  rcases List.shortlex_def.mp h with hlength | ⟨hlength, hlex⟩
  · exact .of_length_lt (by simpa using hlength)
  · refine .of_lex (by simpa using hlength) ?_
    clear h
    induction hlex with
    | nil => simp at hlength
    | cons _ ih => exact .cons (ih (by simpa using hlength))
    | rel hlt => exact .rel hlt

theorem letter_lt {m n : Nat} (hn : n < 26) (hlt : m < n) :
    Char.ofNat (65 + m) < Char.ofNat (65 + n) := by
  have hall : ∀ n < 26, ∀ m < n, Char.ofNat (65 + m) < Char.ofNat (65 + n) := by decide
  exact hall n hn m hlt

/-- Columns further to the right have larger names. -/
theorem columnName_lt {column other : Nat} (hlt : column < other) :
    NameLt (columnName column) (columnName other) := by
  induction other using Nat.strongRecOn generalizing column with
  | ind other ih =>
    by_cases hcolumn : column < 26
    · by_cases hother : other < 26
      · rw [columnName_small hcolumn, columnName_small hother]
        exact (List.shortlex_singleton_iff _ _).mpr (letter_lt hother hlt)
      · rw [columnName_small hcolumn, columnName_large _ hother]
        have hfront := List.length_pos_iff.mpr (columnName_upper (other / 26 - 1)).1
        exact .of_length_lt (by simpa using hfront)
    · have hother : ¬ other < 26 := by omega
      rw [columnName_large _ hcolumn, columnName_large _ hother]
      by_cases hfront : column / 26 - 1 < other / 26 - 1
      · exact nameLt_append (ih (other / 26 - 1) (by omega) hfront) _ _
      · -- The same letters in front: the last letter decides.
        have hsame : column / 26 - 1 = other / 26 - 1 := by omega
        have hlast := letter_lt (Nat.mod_lt other (by decide)) (by omega : column % 26 < other % 26)
        rw [hsame]
        exact List.Shortlex.append_left ((List.shortlex_singleton_iff _ _).mpr hlast) _

theorem columnName_lt_iff {column other : Nat} :
    NameLt (columnName column) (columnName other) ↔ column < other := by
  constructor
  · intro h
    by_contra hle
    have hasymm : ∀ left right, NameLt left right → ¬ NameLt right left := fun left right =>
      Std.Asymm.asymm left right
    rcases Nat.lt_or_eq_of_le (Nat.le_of_not_lt hle) with hlt | rfl
    · exact hasymm _ _ h (columnName_lt hlt)
    · exact hasymm _ _ h h
  · exact columnName_lt

/-- The letters A to XFD. -/
def columnLetters : Set (List Char) :=
  {letters | letters ≠ [] ∧ (∀ c ∈ letters, c.isUpper = true) ∧ ¬ NameLt ['X', 'F', 'D'] letters}

theorem mem_columnLetters_iff {letters : List Char} :
    letters ∈ columnLetters ↔ ∃ column ≤ 16383, letters = columnName column := by
  have hlast : ['X', 'F', 'D'] = columnName 16383 := by
    rw [columnName_large _ (by decide), columnName_large _ (by decide), columnName_small (by decide)]
    decide
  constructor
  · rintro ⟨hne, hupper, hbound⟩
    obtain ⟨column, rfl⟩ := exists_columnName hne hupper
    rw [hlast, columnName_lt_iff] at hbound
    exact ⟨column, Nat.le_of_not_lt hbound, rfl⟩
  · rintro ⟨column, hcolumn, rfl⟩
    obtain ⟨hne, hupper⟩ := columnName_upper column
    refine ⟨hne, hupper, ?_⟩
    rw [hlast, columnName_lt_iff]
    exact Nat.not_lt_of_le hcolumn

theorem sheetColumn_bijOn : Set.BijOn sheetColumn columnLetters {column | 0 ≤ column ∧ column ≤ 16383} := by
  refine ⟨?_, ?_, ?_⟩
  · intro letters hletters
    obtain ⟨column, hcolumn, rfl⟩ := mem_columnLetters_iff.mp hletters
    rw [sheetColumn_columnName]
    exact ⟨by omega, by omega⟩
  · intro letters hletters other hother heq
    obtain ⟨column, -, rfl⟩ := mem_columnLetters_iff.mp hletters
    obtain ⟨column', -, rfl⟩ := mem_columnLetters_iff.mp hother
    rw [sheetColumn_columnName, sheetColumn_columnName] at heq
    rw [Int.ofNat.inj heq]
  · rintro column ⟨hlow, hhigh⟩
    refine ⟨columnName column.toNat, mem_columnLetters_iff.mpr ⟨_, by omega, rfl⟩, ?_⟩
    rw [sheetColumn_columnName]
    omega

theorem sheetColumn_lt_iff {letters other : List Char} (hletters : letters ∈ columnLetters)
    (hother : other ∈ columnLetters) :
    NameLt letters other ↔ sheetColumn letters < sheetColumn other := by
  obtain ⟨column, -, rfl⟩ := mem_columnLetters_iff.mp hletters
  obtain ⟨column', -, rfl⟩ := mem_columnLetters_iff.mp hother
  rw [sheetColumn_columnName, sheetColumn_columnName, columnName_lt_iff, Int.ofNat_lt]

/-! ## Renderings -/

/-- The cells of a sheet that a filter is about. -/
structure Area where
  firstColumn : Nat
  lastColumn : Nat
  headerRow : Nat
  lastRow : Nat
  columns : firstColumn ≤ lastColumn
  lastColumn_le : lastColumn ≤ 16383
  headerRow_pos : 1 ≤ headerRow
  rows : headerRow ≤ lastRow
  lastRow_le : lastRow ≤ 1048576

namespace Area

def range (area : Area) : SheetRange where
  firstColumn := area.firstColumn
  lastColumn := area.lastColumn
  headerRow := .finite area.headerRow
  lastRow := .finite area.lastRow

end Area

def dollar (written : Bool) : List Char := if written then ['$'] else []

def cellText (absoluteColumn absoluteRow : Bool) (column row : Nat) : List Char :=
  dollar absoluteColumn ++ columnName column ++ dollar absoluteRow ++ Nat.toDigits 10 row

/-- The texts of an area: its first and its last cell, of which one is enough if they are the same,
and each of the four parts with a dollar sign or without. -/
inductive Rendering (area : Area) : List Char → Prop
  | cells (a b c d : Bool) : Rendering area
      (cellText a b area.firstColumn area.headerRow ++
        ':' :: cellText c d area.lastColumn area.lastRow)
  | one (a b : Bool) (hcolumn : area.firstColumn = area.lastColumn)
      (hrow : area.headerRow = area.lastRow) :
      Rendering area (cellText a b area.firstColumn area.headerRow)

/-! ## Reading a cell -/

theorem takeWhile_append {p : Char → Bool} {front back : List Char}
    (hfront : ∀ c ∈ front, p c = true) (hback : ∀ c ∈ back.head?, p c = false) :
    (front ++ back).takeWhile p = front ∧ (front ++ back).dropWhile p = back := by
  rw [List.takeWhile_append_of_pos hfront, List.dropWhile_append_of_pos hfront]
  cases back with
  | nil => simp
  | cons c back =>
      have hc := hback c rfl
      simp [hc]

theorem dropDollar_dollar (written : Bool) {text : List Char} (htext : text.head? ≠ some '$') :
    dropDollar (dollar written ++ text) = text := by
  cases written with
  | true => rfl
  | false =>
      cases text with
      | nil => rfl
      | cons c text =>
          have hc : c ≠ '$' := fun h => htext (congrArg some h)
          unfold dropDollar
          split
          next heq =>
            obtain ⟨rfl, -⟩ := List.cons.inj heq
            exact absurd rfl hc
          next => rfl

theorem eq_dollar_append (text : List Char) : ∃ written, text = dollar written ++ dropDollar text := by
  unfold dropDollar
  split
  next rest => exact ⟨true, rfl⟩
  next => exact ⟨false, rfl⟩

theorem head_columnName (column : Nat) (back : List Char) :
    ∃ c, (columnName column ++ back).head? = some c ∧ c.isUpper = true := by
  obtain ⟨hne, hupper⟩ := columnName_upper column
  obtain ⟨c, rest, hcons⟩ := List.exists_cons_of_ne_nil hne
  exact ⟨c, by rw [hcons]; rfl, hupper c (by rw [hcons]; exact List.mem_cons_self)⟩

theorem head_digits {digits : List Char} (hdigits : IsNumeral digits) (back : List Char) :
    ∃ c, (digits ++ back).head? = some c ∧ c.isUpper = false ∧ c ≠ '$' := by
  obtain ⟨c, rest, rfl⟩ := List.exists_cons_of_ne_nil hdigits.nonempty
  obtain ⟨d, hd, rfl, -⟩ := exists_digitChar (hdigits.digit c List.mem_cons_self)
  have hall : ∀ d < 10, d.digitChar.isUpper = false ∧ d.digitChar ≠ '$' := by decide
  exact ⟨_, rfl, hall d hd⟩

/-- A cell of a sheet is read, up to what follows it. -/
theorem readCell_cellText (a b : Bool) {column row : Nat} (rest : List Char)
    (hcolumn : column ≤ 16383) (hrow : 0 < row) (hrest : ∀ c ∈ rest.head?, c.isDigit = false) :
    readCell (cellText a b column row ++ rest) =
      some (columnName column, Nat.toDigits 10 row, rest) := by
  have hdigits := isNumeral_toDigits hrow
  obtain ⟨hne, hupper⟩ := columnName_upper column
  obtain ⟨digit, hdigit, hnoLetter, hnoDollar⟩ := head_digits hdigits rest
  have hfront : dropDollar (cellText a b column row ++ rest) =
      columnName column ++ (dollar b ++ (Nat.toDigits 10 row ++ rest)) := by
    obtain ⟨c, hhead, hc⟩ := head_columnName column (dollar b ++ (Nat.toDigits 10 row ++ rest))
    rw [cellText, List.append_assoc, List.append_assoc, List.append_assoc, dropDollar_dollar]
    rw [hhead]
    rintro ⟨⟩
    revert hc
    decide
  have hback : dropDollar (dollar b ++ (Nat.toDigits 10 row ++ rest)) =
      Nat.toDigits 10 row ++ rest := by
    rw [dropDollar_dollar]
    rw [hdigit]
    exact fun h => hnoDollar (Option.some.inj h)
  have hbackHead : ∀ c ∈ (dollar b ++ (Nat.toDigits 10 row ++ rest)).head?, c.isUpper = false := by
    intro c hc
    cases b with
    | true =>
        obtain rfl := Option.some.inj hc
        decide
    | false =>
        obtain rfl := Option.some.inj (hdigit.symm.trans hc)
        exact hnoLetter
  obtain ⟨hletters, hafter⟩ := takeWhile_append hupper hbackHead
  obtain ⟨hnumeral, hend⟩ := takeWhile_append hdigits.digit hrest
  rw [readCell, hfront, hletters, hafter, hback, hnumeral, hend,
    if_pos ⟨hne, length_columnName hcolumn, hdigits.nonempty, hdigits.leading⟩]

/-- What is read as a cell is the text of one. -/
theorem of_readCell {text letters digits rest : List Char}
    (hread : readCell text = some (letters, digits, rest)) :
    ∃ a b column row, 0 < row ∧ letters = columnName column ∧ digits = Nat.toDigits 10 row ∧
      text = cellText a b column row ++ rest := by
  unfold readCell at hread
  dsimp only at hread
  split at hread
  next hcell =>
    obtain ⟨hne, -, hdigits, hleading⟩ := hcell
    obtain ⟨hletters, htail⟩ := Prod.mk.inj (Option.some.inj hread)
    obtain ⟨hnumeral, hrest⟩ := Prod.mk.inj htail
    obtain ⟨a, ha⟩ := eq_dollar_append text
    obtain ⟨b, hb⟩ := eq_dollar_append ((dropDollar text).dropWhile Char.isUpper)
    rw [hletters] at hne
    rw [hnumeral] at hdigits hleading
    obtain ⟨column, hcolumn⟩ := exists_columnName hne fun c hc =>
      List.all_eq_true.mp List.all_takeWhile c (hletters ▸ hc)
    have hnumber : IsNumeral digits :=
      ⟨fun c hc => List.all_eq_true.mp List.all_takeWhile c (hnumeral ▸ hc), hdigits, hleading⟩
    obtain ⟨hpos, hvalue⟩ := hnumber.toDigits_value
    refine ⟨a, b, column, value digits, hpos, hcolumn, hvalue.symm, ?_⟩
    have hsplit : dropDollar text = letters ++ (dollar b ++ (digits ++ rest)) := by
      rw [← hnumeral, ← hrest, List.takeWhile_append_dropWhile, ← hb, ← hletters,
        List.takeWhile_append_dropWhile]
    rw [cellText, hvalue, ← hcolumn, List.append_assoc, List.append_assoc, List.append_assoc,
      ← hsplit]
    exact ha
  next => cases hread

/-! ## Reading a range -/

/-- Rows are compared as numbers. Those that no double is equal to are too large anyway. -/
theorem rows_refused_iff (header last : Nat) :
    ((Double.ofRat (last : ℕ)).lt (Double.ofRat (header : ℕ)) = true ∨
      (Double.finite 1048576).lt (Double.ofRat (last : ℕ)) = true) ↔
      last < header ∨ 1048576 < last := by
  have hmax : (Double.finite 1048576) = .finite ((1048576 : ℕ) : ℚ) := by norm_cast
  rw [hmax]
  by_cases hlast : last < 2 ^ 53
  · rw [Double.ofRat_natCast hlast, Double.lt_natCast_iff]
    by_cases hheader : header < 2 ^ 53
    · rw [Double.ofRat_natCast hheader, Double.lt_natCast_iff]
    · have hlt := Double.lt_ofRat_natCast hlast (Nat.le_of_not_lt hheader)
      exact iff_of_true (.inl hlt) (.inl (by omega))
  · have hlt := Double.lt_ofRat_natCast (by norm_num : 1048576 < 2 ^ 53) (Nat.le_of_not_lt hlast)
    exact iff_of_true (.inr hlt) (.inr (by omega))

/-- What the function makes of the two cells. -/
theorem sheetFilterRange_of_cells {text : List Char} {column column' row row' : Nat}
    {second : Option (List Char × List Char)}
    (hread : readReference text = some ((columnName column, Nat.toDigits 10 row), second))
    (hsecond : second.getD (columnName column, Nat.toDigits 10 row) =
      (columnName column', Nat.toDigits 10 row')) :
    sheetFilterRange (some text) =
      if column ≤ column' ∧ column' ≤ 16383 ∧ row ≤ row' ∧ row' ≤ 1048576 then
        some { firstColumn := column, lastColumn := column', headerRow := .finite row,
               lastRow := .finite row' }
      else none := by
  have hrow : ∀ row : Nat, Double.number (Nat.toDigits 10 row) = .ofRat (row : ℕ) := by
    intro row
    rw [Double.number_digits Nat.toDigits_ne_nil fun c hc =>
      Nat.isDigit_of_mem_toDigits (by decide) (by decide) hc, value,
      Nat.ofDigitChars_ten_toDigits]
  have hrefused := rows_refused_iff row row'
  simp only [sheetFilterRange, hread, hsecond, sheetColumn_columnName, hrow]
  split
  next hbad =>
    rw [if_neg]
    rintro ⟨hcolumns, hcolumn, hrows, hlast⟩
    rcases hbad with hbad | hbad | hbad
    · omega
    · omega
    · have hbad' := hrefused.mp hbad
      omega
  next hgood =>
    rw [not_or, not_or, hrefused] at hgood
    rw [if_pos (by omega), Double.ofRat_natCast (by omega), Double.ofRat_natCast (by omega)]

/-- An area is read from any of its texts. -/
theorem sheetFilterRange_rendering {area : Area} {text : List Char} (h : Rendering area text) :
    sheetFilterRange (some text) = some area.range := by
  have hcolumns := area.columns
  have hrows := area.rows
  have hheader := area.headerRow_pos
  have hlastColumn := area.lastColumn_le
  have hlastRow := area.lastRow_le
  cases h with
  | cells a b c d =>
      have hfirstColumn : area.firstColumn ≤ 16383 := by omega
      have hlast : 0 < area.lastRow := by omega
      have hfirst := readCell_cellText a b (':' :: cellText c d area.lastColumn area.lastRow)
        hfirstColumn hheader (by
          intro c hc
          obtain rfl := Option.some.inj hc
          decide)
      have hsecond := readCell_cellText c d [] hlastColumn hlast (by simp)
      rw [List.append_nil] at hsecond
      have hread : readReference (cellText a b area.firstColumn area.headerRow ++
          ':' :: cellText c d area.lastColumn area.lastRow) =
          some ((columnName area.firstColumn, Nat.toDigits 10 area.headerRow),
            some (columnName area.lastColumn, Nat.toDigits 10 area.lastRow)) := by
        rw [readReference, hfirst]
        simp only [if_true, hsecond]
      rw [sheetFilterRange_of_cells hread rfl, if_pos ⟨hcolumns, hlastColumn, hrows, hlastRow⟩]
      rfl
  | one a b hcolumn hrow =>
      have hfirstColumn : area.firstColumn ≤ 16383 := by omega
      have hfirst := readCell_cellText a b [] hfirstColumn hheader (by simp)
      rw [List.append_nil] at hfirst
      have hread : readReference (cellText a b area.firstColumn area.headerRow) =
          some ((columnName area.firstColumn, Nat.toDigits 10 area.headerRow), none) := by
        rw [readReference, hfirst]
      rw [sheetFilterRange_of_cells hread rfl, if_pos (by omega), Area.range, ← hcolumn, ← hrow]

/-- A text that is read as cells is made of them. -/
theorem of_readReference {text : List Char} {first : List Char × List Char}
    {second : Option (List Char × List Char)} (hread : readReference text = some (first, second)) :
    ∃ a b column row, 0 < row ∧ first = (columnName column, Nat.toDigits 10 row) ∧
      ((second = none ∧ text = cellText a b column row) ∨
        ∃ c d column' row', 0 < row' ∧
          second = some (columnName column', Nat.toDigits 10 row') ∧
          text = cellText a b column row ++ ':' :: cellText c d column' row') := by
  unfold readReference at hread
  split at hread
  next => cases hread
  next letters digits hcell =>
    obtain ⟨a, b, column, row, hrow, rfl, rfl, htext⟩ := of_readCell hcell
    obtain ⟨rfl, rfl⟩ := Prod.mk.inj (Option.some.inj hread)
    rw [List.append_nil] at htext
    exact ⟨a, b, column, row, hrow, rfl, .inl ⟨rfl, htext⟩⟩
  next letters digits mark rest hcell =>
    obtain ⟨a, b, column, row, hrow, rfl, rfl, htext⟩ := of_readCell hcell
    split at hread
    next hmark =>
      subst hmark
      split at hread
      next letters' digits' hcell' =>
        obtain ⟨c, d, column', row', hrow', rfl, rfl, htext'⟩ := of_readCell hcell'
        obtain ⟨rfl, rfl⟩ := Prod.mk.inj (Option.some.inj hread)
        rw [List.append_nil] at htext'
        exact ⟨a, b, column, row, hrow, rfl, .inr ⟨c, d, column', row', hrow', rfl,
          htext' ▸ htext⟩⟩
      next => cases hread
    next => cases hread

/-- Every range that is returned is that of an area, and the text is one of its texts. -/
theorem exists_area_of_sheetFilterRange {text : List Char} {range : SheetRange}
    (h : sheetFilterRange (some text) = some range) :
    ∃ area : Area, Rendering area text ∧ range = area.range := by
  cases hread : readReference text with
  | none =>
      rw [sheetFilterRange, hread] at h
      cases h
  | some cells =>
      obtain ⟨first, second⟩ := cells
      obtain ⟨a, b, column, row, hrow, rfl, htext⟩ := of_readReference hread
      rcases htext with ⟨rfl, rfl⟩ | ⟨c, d, column', row', hrow', rfl, rfl⟩
      · rw [sheetFilterRange_of_cells hread rfl, Option.ite_none_right_eq_some] at h
        obtain ⟨⟨hcolumns, hcolumn, hrows, hlast⟩, hrange⟩ := h
        exact ⟨⟨column, column, row, row, hcolumns, hcolumn, hrow, hrows, hlast⟩,
          .one a b rfl rfl, (Option.some.inj hrange).symm⟩
      · rw [sheetFilterRange_of_cells hread rfl, Option.ite_none_right_eq_some] at h
        obtain ⟨⟨hcolumns, hcolumn, hrows, hlast⟩, hrange⟩ := h
        exact ⟨⟨column, column', row, row', hcolumns, hcolumn, hrow, hrows, hlast⟩,
          .cells a b c d, (Option.some.inj hrange).symm⟩

/-- Letters are columns in their order, each text of an area is read as that area, and no other
text is read. -/
theorem sheet_references :
    Set.BijOn sheetColumn columnLetters {column | 0 ≤ column ∧ column ≤ 16383} ∧
      (∀ letters ∈ columnLetters, ∀ other ∈ columnLetters,
        (NameLt letters other ↔ sheetColumn letters < sheetColumn other)) ∧
      (∀ area text, Rendering area text → sheetFilterRange (some text) = some area.range) ∧
      (∀ text, (∀ area, ¬ Rendering area text) → sheetFilterRange (some text) = none) ∧
      sheetFilterRange none = none := by
  refine ⟨sheetColumn_bijOn, fun _ hletters _ hother => sheetColumn_lt_iff hletters hother,
    fun _ _ => sheetFilterRange_rendering, ?_, rfl⟩
  intro text hnone
  cases hrange : sheetFilterRange (some text) with
  | none => rfl
  | some range =>
      obtain ⟨area, hrendering, -⟩ := exists_area_of_sheetFilterRange hrange
      exact absurd hrendering (hnone area)

end Filters
