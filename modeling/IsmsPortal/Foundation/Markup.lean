import Mathlib.Data.List.Basic
import Mathlib.Data.List.Infix

/-! # Markup

Texts with tags, as a browser reads them: a tag goes on to the sign that closes it outside quotes, a
comment to the arrow that closes it, and references stand for the five signs that text may not have.
What is written with its signs replaced is read back as it was meant.
-/

namespace Foundation.Markup

inductive Node
  | char (c : Char)
  | tag (content : List Char)
  | comment (content : List Char)
deriving DecidableEq, Repr

/-! ## Writing -/

def escapeChar (c : Char) : List Char :=
  if c = '&' then "&amp;".toList
  else if c = '<' then "&lt;".toList
  else if c = '>' then "&gt;".toList
  else if c = '"' then "&quot;".toList
  else if c = '\x27' then "&#39;".toList
  else [c]

def escape (text : List Char) : List Char := text.flatMap escapeChar

def Node.text : Node → List Char
  | char c => escapeChar c
  | tag content => '<' :: content ++ ['>']
  | comment content => "<!--".toList ++ content ++ "-->".toList

def serialise (nodes : List Node) : List Char := nodes.flatMap Node.text

/-- A text as nodes. -/
def chars (text : List Char) : List Node := text.map .char

@[simp]
theorem serialise_append (first second : List Node) :
    serialise (first ++ second) = serialise first ++ serialise second := List.flatMap_append

theorem serialise_cons (node : Node) (nodes : List Node) :
    serialise (node :: nodes) = node.text ++ serialise nodes := List.flatMap_cons

theorem serialise_chars (text : List Char) : serialise (chars text) = escape text :=
  List.flatMap_map ..

/-! ## Reading -/

/-- The references of a text. -/
def unescape : List Char → List Char
  | '&' :: 'a' :: 'm' :: 'p' :: ';' :: rest => '&' :: unescape rest
  | '&' :: 'l' :: 't' :: ';' :: rest => '<' :: unescape rest
  | '&' :: 'g' :: 't' :: ';' :: rest => '>' :: unescape rest
  | '&' :: 'q' :: 'u' :: 'o' :: 't' :: ';' :: rest => '"' :: unescape rest
  | '&' :: '#' :: '3' :: '9' :: ';' :: rest => '\x27' :: unescape rest
  | c :: rest => c :: unescape rest
  | [] => []

/-- Where a reader is, with what it has read there. -/
inductive Place
  | text (read : List Char)
  | tag (read : List Char)
  | quoted (read : List Char)
  | comment (read : List Char)

def parseFrom : Place → List Char → List Node
  | .text read, [] => chars (unescape read)
  | .text read, c :: rest =>
      if c = '<' then chars (unescape read) ++ parseFrom (.tag []) rest
      else parseFrom (.text (read ++ [c])) rest
  | .tag read, c :: rest =>
      if c = '>' then .tag read :: parseFrom (.text []) rest
      else if c = '"' then parseFrom (.quoted (read ++ [c])) rest
      else if read ++ [c] = "!--".toList then parseFrom (.comment []) rest
      else parseFrom (.tag (read ++ [c])) rest
  | .quoted read, c :: rest =>
      if c = '"' then parseFrom (.tag (read ++ [c])) rest
      else parseFrom (.quoted (read ++ [c])) rest
  | .comment read, c :: rest =>
      if "-->".toList <:+ read ++ [c] then
        .comment ((read ++ [c]).take (read.length - 2)) :: parseFrom (.text []) rest
      else parseFrom (.comment (read ++ [c])) rest
  | .tag _, [] | .quoted _, [] | .comment _, [] => []

def parse (text : List Char) : List Node := parseFrom (.text []) text

/-! ## What can be read back -/

/-- Quotes that are closed, and no sign outside them that opens or closes a tag. -/
def wellQuoted : Bool → List Char → Bool
  | quoted, [] => !quoted
  | false, c :: rest =>
      if c = '"' then wellQuoted true rest else c ≠ '>' && c ≠ '<' && wellQuoted false rest
  | true, c :: rest => if c = '"' then wellQuoted false rest else wellQuoted true rest

def Node.Valid : Node → Prop
  | char _ => True
  | tag content => wellQuoted false content = true ∧ ¬"!--".toList <+: content
  | comment content => ∀ n < content.length + 3,
      ¬"-->".toList <:+ (content ++ "-->".toList).take n

instance : DecidablePred Node.Valid := fun node =>
  match node with
  | .char _ => inferInstanceAs (Decidable True)
  | .tag _ => inferInstanceAs (Decidable (_ ∧ _))
  | .comment content => inferInstanceAs (Decidable (∀ n < content.length + 3, _))

theorem unescape_append (c : Char) (rest : List Char) :
    unescape (escapeChar c ++ rest) = c :: unescape rest := by
  unfold escapeChar
  split
  next h => rw [h]; rfl
  next hamp =>
    split
    next h => rw [h]; rfl
    next =>
      split
      next h => rw [h]; rfl
      next =>
        split
        next h => rw [h]; rfl
        next =>
          split
          next h => rw [h]; rfl
          next =>
            rw [List.singleton_append, unescape]
            all_goals exact fun _ hc => absurd hc hamp

@[simp]
theorem unescape_escape (text : List Char) : unescape (escape text) = text := by
  induction text with
  | nil => rfl
  | cons c text ih => rw [escape, List.flatMap_cons, unescape_append, ← escape, ih]

theorem escape_append (first second : List Char) :
    escape (first ++ second) = escape first ++ escape second := List.flatMap_append

theorem open_notMem_escapeChar (c : Char) : '<' ∉ escapeChar c ∧ '"' ∉ escapeChar c := by
  unfold escapeChar
  split
  · decide
  · split
    · decide
    · split
      · decide
      · split
        · decide
        · split
          · decide
          next hopen _ hquote _ =>
            exact ⟨by simpa [eq_comm] using hopen, by simpa [eq_comm] using hquote⟩

/-- What is written of a text is text. -/
theorem parseFrom_text {text : List Char} (htext : '<' ∉ text) (read rest : List Char) :
    parseFrom (.text read) (text ++ rest) = parseFrom (.text (read ++ text)) rest := by
  induction text generalizing read with
  | nil => rw [List.nil_append, List.append_nil]
  | cons c text ih =>
      rw [List.mem_cons, not_or] at htext
      rw [List.cons_append, parseFrom, if_neg (Ne.symm htext.1), ih htext.2,
        List.append_assoc, List.singleton_append]

/-- A tag goes on to the sign behind it. -/
theorem parseFrom_tag {content : List Char} (rest : List Char) :
    (∀ read, wellQuoted false content = true → ¬"!--".toList <+: read ++ content →
      parseFrom (.tag read) (content ++ '>' :: rest) =
        .tag (read ++ content) :: parseFrom (.text []) rest) ∧
    ∀ read, wellQuoted true content = true → ¬"!--".toList <+: read ++ content →
      parseFrom (.quoted read) (content ++ '>' :: rest) =
        .tag (read ++ content) :: parseFrom (.text []) rest := by
  induction content with
  | nil =>
      refine ⟨fun read _ _ => ?_, fun read h => absurd h (by decide)⟩
      rw [List.nil_append, parseFrom, if_pos rfl, List.append_nil]
  | cons c content ih =>
      have hmove : ∀ read : List Char, read ++ c :: content = read ++ [c] ++ content := by
        intro read
        rw [List.append_assoc, List.singleton_append]
      constructor
      · intro read hquoted hprefix
        rw [hmove] at hprefix ⊢
        rw [wellQuoted] at hquoted
        rw [List.cons_append, parseFrom]
        split at hquoted
        next hquote =>
          rw [if_neg (by rw [hquote]; decide), if_pos hquote]
          exact ih.2 _ hquoted hprefix
        next hquote =>
          simp only [Bool.and_eq_true, decide_eq_true_eq] at hquoted
          have hopen : read ++ [c] ≠ "!--".toList := fun heq =>
            hprefix (heq ▸ List.prefix_append _ _)
          rw [if_neg hquoted.1.1, if_neg hquote, if_neg hopen]
          exact ih.1 _ hquoted.2 hprefix
      · intro read hquoted hprefix
        rw [hmove] at hprefix ⊢
        rw [wellQuoted] at hquoted
        rw [List.cons_append, parseFrom]
        split at hquoted
        next hquote =>
          rw [if_pos hquote]
          exact ih.1 _ hquoted hprefix
        next hquote =>
          rw [if_neg hquote]
          exact ih.2 _ hquoted hprefix

/-- A comment goes on to the first arrow. -/
theorem parseFrom_comment {content : List Char} (h : (Node.comment content).Valid)
    (rest : List Char) {read left : List Char} (hleft : left ≠ [])
    (hread : read ++ left = content ++ "-->".toList) :
    parseFrom (.comment read) (left ++ rest) =
      .comment content :: parseFrom (.text []) rest := by
  induction left generalizing read with
  | nil => exact absurd rfl hleft
  | cons c left ih =>
      have hlength := congrArg List.length hread
      simp only [List.length_append, List.length_cons, String.length_toList] at hlength
      rw [← List.singleton_append, ← List.append_assoc] at hread
      rw [List.cons_append, parseFrom]
      by_cases hlast : left = []
      · subst hlast
        rw [List.append_nil] at hread
        rw [hread, if_pos ⟨content, rfl⟩, List.nil_append]
        have harrow : read.length - 2 = content.length := by
          change _ = _ + 3 at hlength
          simp only [List.length_nil] at hlength
          omega
        rw [harrow, List.take_left]
      · have hopen : ¬"-->".toList <:+ read ++ [c] := by
          have hpos := List.length_pos_iff.mpr hlast
          have hn := h (read.length + 1) (by change _ = _ + 3 at hlength; omega)
          rwa [← hread, List.take_append_of_le_length (by simp),
            List.take_of_length_le (by simp)] at hn
        rw [if_neg hopen]
        exact ih hlast hread

/-- What is read of what is written. -/
theorem parseFrom_serialise {nodes : List Node} (h : ∀ node ∈ nodes, node.Valid)
    (text : List Char) :
    parseFrom (.text (escape text)) (serialise nodes) = chars text ++ nodes := by
  induction nodes generalizing text with
  | nil =>
      rw [serialise, List.flatMap_nil, parseFrom, unescape_escape, List.append_nil]
  | cons node nodes ih =>
      obtain ⟨hnode, hnodes⟩ := List.forall_mem_cons.mp h
      rw [serialise_cons]
      cases node with
      | char c =>
          have hmore : escape text ++ escapeChar c = escape (text ++ [c]) := by
            rw [escape_append]
            simp [escape]
          rw [Node.text, parseFrom_text (open_notMem_escapeChar c).1, hmore, ih hnodes]
          simp [chars]
      | tag content =>
          have htag := (parseFrom_tag (serialise nodes)).1 [] hnode.1 hnode.2
          rw [Node.text, List.append_assoc, List.cons_append, parseFrom, if_pos rfl,
            List.singleton_append, htag, unescape_escape, List.nil_append]
          exact congrArg (chars text ++ .tag content :: ·) (ih hnodes [])
      | comment content =>
          have hopen : ∀ rest, parseFrom (.text (escape text)) ("<!--".toList ++ rest) =
              chars (unescape (escape text)) ++ parseFrom (.comment []) rest := fun _ => rfl
          have harrow : content ++ "-->".toList ≠ [] := by simp
          have hcomment := parseFrom_comment hnode (serialise nodes) harrow (List.nil_append _)
          rw [Node.text, List.append_assoc, List.append_assoc, hopen, unescape_escape,
            ← List.append_assoc content, hcomment]
          exact congrArg (chars text ++ .comment content :: ·) (ih hnodes [])

/-- What is written is read back. -/
theorem parse_serialise {nodes : List Node} (h : ∀ node ∈ nodes, node.Valid) :
    parse (serialise nodes) = nodes :=
  parseFrom_serialise h []

/-! ## Fixed parts and parts with data -/

/-- The nodes of a fixed part. -/
def fixed (markup : String) : List Node := parse markup.toList

/-- A part whose nodes are all of it. -/
def Complete (nodes : List Node) (text : List Char) : Prop :=
  serialise nodes = text ∧ ∀ node ∈ nodes, node.Valid

instance (nodes : List Node) (text : List Char) : Decidable (Complete nodes text) :=
  inferInstanceAs (Decidable (_ ∧ _))

theorem Complete.append {first second : List Node} {text more : List Char}
    (hfirst : Complete first text) (hsecond : Complete second more) :
    Complete (first ++ second) (text ++ more) := by
  refine ⟨by rw [serialise_append, hfirst.1, hsecond.1], fun node hnode => ?_⟩
  exact (List.mem_append.mp hnode).elim (hfirst.2 node) (hsecond.2 node)

theorem complete_nil : Complete [] [] := ⟨rfl, fun _ h => nomatch h⟩

theorem complete_chars (text : List Char) : Complete (chars text) (escape text) := by
  refine ⟨serialise_chars text, fun node hnode => ?_⟩
  obtain ⟨c, -, rfl⟩ := List.mem_map.mp hnode
  trivial

theorem complete_tag {content : List Char} (h : (Node.tag content).Valid) :
    Complete [.tag content] ('<' :: content ++ ['>']) :=
  ⟨by simp [serialise, Node.text], by simpa using h⟩

theorem Complete.parse {nodes : List Node} {text : List Char} (h : Complete nodes text) :
    parse text = nodes := h.1 ▸ parse_serialise h.2

/-- The characters of a literal. -/
theorem toList_eq {text : String} {characters : List Char} (h : text = String.ofList characters) :
    text.toList = characters := by
  rw [h, String.toList_ofList]

theorem toList_append_eq {first second : String} {before after : List Char}
    (hfirst : first.toList = before) (hsecond : second.toList = after) :
    (first ++ second).toList = before ++ after := by
  rw [String.toList_append, hfirst, hsecond]

theorem quote_notMem_escape (text : List Char) : '"' ∉ escape text := fun h => by
  obtain ⟨c, -, hc⟩ := List.mem_flatMap.mp h
  exact (open_notMem_escapeChar c).2 hc

theorem wellQuoted_of_notMem {data : List Char} (hdata : '"' ∉ data) (rest : List Char) :
    wellQuoted true (data ++ rest) = wellQuoted true rest := by
  induction data with
  | nil => rfl
  | cons c data ih =>
      rw [List.mem_cons, not_or] at hdata
      rw [List.cons_append, wellQuoted, if_neg (Ne.symm hdata.1), ih hdata.2]

/-- Data without quotes where a quote is open. -/
theorem wellQuoted_insert {data : List Char} (hdata : '"' ∉ data) {before after : List Char}
    (quoted : Bool) (hopen : wellQuoted quoted (before ++ ['"']) = true)
    (hall : wellQuoted quoted (before ++ after) = true) :
    wellQuoted quoted (before ++ data ++ after) = true := by
  induction before generalizing quoted with
  | nil =>
      cases quoted with
      | false => exact absurd hopen (by decide)
      | true => rwa [List.nil_append, wellQuoted_of_notMem hdata]
  | cons c before ih =>
      rw [List.cons_append, List.cons_append]
      cases quoted with
      | false =>
          rw [List.cons_append, wellQuoted] at hopen hall
          rw [wellQuoted]
          split at hopen
          next hquote =>
            rw [if_pos hquote] at hall ⊢
            exact ih true hopen hall
          next hquote =>
            rw [if_neg hquote] at hall ⊢
            rw [Bool.and_eq_true] at hopen hall ⊢
            exact ⟨hopen.1, ih false hopen.2 hall.2⟩
      | true =>
          rw [List.cons_append, wellQuoted] at hopen hall
          rw [wellQuoted]
          split at hopen
          next hquote =>
            rw [if_pos hquote] at hall ⊢
            exact ih false hopen hall
          next hquote =>
            rw [if_neg hquote] at hall ⊢
            exact ih true hopen hall

/-! ## What stands where -/

/-- A text whose lines are parted by tags. -/
def breaks (text : List Char) : List Node :=
  text.map fun c => if c = '\n' then .tag "br".toList else .char c

/-- The text up to the next tag, over line breaks. -/
def leading : List Node → List Char
  | .char c :: rest => c :: leading rest
  | .tag content :: rest => if content = "br".toList then '\n' :: leading rest else []
  | .comment _ :: _ | [] => []

/-- The texts behind a tag, wherever it stands. -/
def textsBehind (content : List Char) : List Node → List (List Char)
  | [] => []
  | node :: rest =>
      if node = .tag content then leading rest :: textsBehind content rest
      else textsBehind content rest

/-- The name of an element. -/
def tagName (content : List Char) : List Char := content.takeWhile (· ≠ ' ')

/-- The address of a link. -/
def hrefOf : List Char → Option (List Char)
  | [] => none
  | c :: rest =>
      if "href=\"".toList <+: c :: rest then
        some (unescape (((c :: rest).drop 6).takeWhile (· ≠ '"')))
      else hrefOf rest

@[simp]
theorem leading_chars_append (text : List Char) (rest : List Node) :
    leading (chars text ++ rest) = text ++ leading rest := by
  induction text with
  | nil => rfl
  | cons c text ih => exact congrArg (c :: ·) ih

@[simp]
theorem leading_breaks_append (text : List Char) (rest : List Node) :
    leading (breaks text ++ rest) = text ++ leading rest := by
  induction text with
  | nil => rfl
  | cons c text ih =>
      simp only [breaks, List.map_cons, List.cons_append]
      split
      next h => rw [leading, if_pos rfl, h]; exact congrArg ('\n' :: ·) ih
      next => exact congrArg (c :: ·) ih

theorem textsBehind_append {content : List Char} {nodes : List Node}
    (h : .tag content ∉ nodes) (rest : List Node) :
    textsBehind content (nodes ++ rest) = textsBehind content rest := by
  induction nodes with
  | nil => rfl
  | cons node nodes ih =>
      rw [List.mem_cons, not_or] at h
      rw [List.cons_append, textsBehind, if_neg (Ne.symm h.1), ih h.2]

theorem tag_mem_breaks {content text : List Char} (h : .tag content ∈ breaks text) :
    content = "br".toList := by
  obtain ⟨c, -, hc⟩ := List.mem_map.mp h
  split at hc
  · exact (Node.tag.inj hc).symm
  · nomatch hc

theorem escapeChar_lines {c : Char} (h : c ≠ '\n') (tag : List Char) :
    (escapeChar c).flatMap (fun c => if c = '\n' then tag else [c]) = escapeChar c := by
  unfold escapeChar
  split
  · rfl
  · split
    · rfl
    · split
      · rfl
      · split
        · rfl
        · split
          · rfl
          · simp [h]

/-- A text whose lines are parted as it is written. -/
theorem complete_breaks (text : List Char) :
    Complete (breaks text)
      ((escape text).flatMap fun c => if c = '\n' then "<br>".toList else [c]) := by
  induction text with
  | nil => exact complete_nil
  | cons c text ih =>
      have hnode : Complete [if c = '\n' then .tag "br".toList else .char c]
          ((escapeChar c).flatMap fun c => if c = '\n' then "<br>".toList else [c]) := by
        split
        next h => rw [h]; decide
        next h =>
          rw [escapeChar_lines h]
          exact ⟨by simp [serialise, Node.text], by simp [Node.Valid]⟩
      rw [escape, List.flatMap_cons, List.flatMap_append]
      exact hnode.append ih

theorem hrefOf_link (address : List Char) (rest : List Char) :
    hrefOf ("a href=\"".toList ++ escape address ++ '"' :: rest) = some address := by
  have hread : hrefOf ("a href=\"".toList ++ (escape address ++ '"' :: rest)) =
      some (unescape ((escape address ++ '"' :: rest).takeWhile (· ≠ '"'))) := rfl
  have hclosed : ∀ c ∈ escape address, decide (c ≠ '"') = true := fun c hc =>
    decide_eq_true fun h => quote_notMem_escape address (h ▸ hc)
  rw [List.append_assoc, hread, List.takeWhile_append_of_pos hclosed]
  simp

end Foundation.Markup
