import IsmsPortal.Foundation.Framing
import IsmsPortal.Foundation.JsString
import IsmsPortal.Foundation.Utf8

/-! # Scans by the antivirus service

A file is sent to the scanner in chunks, each after its length, up to a chunk without bytes; the
answer is one text. Both streams may be cut into any pieces on their way. The result of a scan is
what the scanner says of exactly the bytes of the file.
-/

namespace Storage.Antivirus

open Foundation

inductive AntivirusResult
  | clean
  | infected (signature : List Char)
  | error (signature : List Char)
deriving DecidableEq, Repr

/-! ## What is written -/

/-- `Buffer.writeUInt32BE`. -/
def uint32BE (length : Nat) : List UInt8 :=
  [UInt8.ofNat (length / 2 ^ 24), UInt8.ofNat (length / 2 ^ 16), UInt8.ofNat (length / 2 ^ 8),
    UInt8.ofNat length]

/-- `zINSTREAM`, which a byte of zero ends. -/
def instream : List UInt8 := Utf8.encode "zINSTREAM".toList

def chunkSize : Nat := 65536

theorem chunkSize_pos : 0 < chunkSize := by decide

/-- The writes of the loop from an offset on. -/
def chunkWrites (content : List UInt8) (offset : Nat) : List (List UInt8) :=
  if _h : offset < content.length then
    let chunk := (content.take (min (offset + chunkSize) content.length)).drop offset
    uint32BE chunk.length :: chunk :: chunkWrites content (offset + chunkSize)
  else []
termination_by content.length - offset
decreasing_by exact Nat.sub_lt_sub_left _h (Nat.lt_add_of_pos_right chunkSize_pos)

/-- Everything that is written, to the end of the stream. -/
def scanWrites (content : List UInt8) : List (List UInt8) :=
  (instream ++ [0]) :: chunkWrites content 0 ++ [List.replicate 4 0]

/-! ## The answer -/

/-- What `.` of an expression does not match. -/
def isLineTerminator (c : Char) : Bool :=
  c = '\n' || c = '\r' || c.toNat = 0x2028 || c.toNat = 0x2029

/-- What stands between `": "` at the start and `" FOUND"` at the end. -/
def foundAfter : List Char → Option (List Char)
  | ':' :: ' ' :: rest =>
      let name := rest.take (rest.length - 6)
      if " FOUND".toList <:+ rest ∧ name ≠ [] ∧ name.all (fun c => !isLineTerminator c) then
        some name
      else none
  | _ => none

/-- `response.match(/: (.+) FOUND$/)`, the first place of the text where it matches. -/
def matchFound : List Char → Option (List Char)
  | [] => none
  | c :: rest => (foundAfter (c :: rest)).or (matchFound rest)

/-- The text of the answer, without bytes of zero and white space around it. -/
def responseText (utf8 : Utf8.Reader) (chunks : List (List UInt8)) : List Char :=
  (JsString.trim (String.ofList
    ((utf8.toText chunks.flatten).filter (· ≠ Char.ofNat 0)))).toList

/-- The handler of `end`. -/
def verdict (utf8 : Utf8.Reader) (chunks : List (List UInt8)) : AntivirusResult :=
  let response := responseText utf8 chunks
  if "OK".toList <:+ response then .clean
  else match matchFound response with
    | some signature => .infected signature
    | none => .error (if response = [] then "Unknown ClamAV response".toList else response)

/-! ## The scanner -/

/-- A chunk after its length. -/
def takeChunk : List UInt8 → Option (List UInt8 × List UInt8)
  | a :: b :: c :: d :: rest =>
      let length := a.toNat * 2 ^ 24 + b.toNat * 2 ^ 16 + c.toNat * 2 ^ 8 + d.toNat
      if length ≤ rest.length then some (rest.take length, rest.drop length) else none
  | _ => none

theorem takeChunk_eq_some {items chunk rest : List UInt8} (h : takeChunk items = some (chunk, rest)) :
    ∃ a b c d more, items = a :: b :: c :: d :: more ∧
      a.toNat * 2 ^ 24 + b.toNat * 2 ^ 16 + c.toNat * 2 ^ 8 + d.toNat = chunk.length ∧
      more = chunk ++ rest := by
  unfold takeChunk at h
  split at h
  next a b c d more =>
    obtain ⟨hle, heq⟩ := Option.ite_none_right_eq_some.mp h
    obtain ⟨rfl, rfl⟩ := Prod.mk.inj (Option.some.inj heq)
    exact ⟨a, b, c, d, more, rfl, by rw [List.length_take_of_le hle],
      (List.take_append_drop _ _).symm⟩
  next => cases h

theorem takeChunk_cons {a b c d : UInt8} {chunk : List UInt8}
    (hlength : a.toNat * 2 ^ 24 + b.toNat * 2 ^ 16 + c.toNat * 2 ^ 8 + d.toNat = chunk.length)
    (rest : List UInt8) :
    takeChunk (a :: b :: c :: d :: (chunk ++ rest)) = some (chunk, rest) := by
  rw [takeChunk]
  simp only [hlength, List.length_append, Nat.le_add_right, if_true, List.take_left,
    List.drop_left]

/-- The chunks of a stream. -/
def chunkFraming : Framing UInt8 (List UInt8) where
  first := takeChunk
  shorter items chunk rest h := by
    obtain ⟨a, b, c, d, more, rfl, -, rfl⟩ := takeChunk_eq_some h
    simp only [List.length_cons, List.length_append]
    omega
  stable items chunk rest more h := by
    obtain ⟨a, b, c, d, others, rfl, hlength, rfl⟩ := takeChunk_eq_some h
    simp only [List.cons_append, List.append_assoc]
    exact takeChunk_cons hlength (rest ++ more)

/-- What has arrived at the scanner: the command once it is complete, and the chunks behind it. -/
structure Scanner where
  command : Option (List UInt8)
  chunks : List (List UInt8)
  rest : List UInt8
deriving DecidableEq, Repr

namespace Scanner

def start : Scanner := ⟨none, [], []⟩

def ofFed (command : List UInt8) (fed : List (List UInt8) × List UInt8) : Scanner :=
  ⟨some command, fed.1, fed.2⟩

/-- A piece of the stream arrives. -/
def receive (scanner : Scanner) (piece : List UInt8) : Scanner :=
  match scanner.command with
  | some command => ofFed command (chunkFraming.feed (scanner.chunks, scanner.rest) piece)
  | none =>
      let items := scanner.rest ++ piece
      if 0 ∈ items then
        ofFed (items.takeWhile (· ≠ 0)) (chunkFraming.feed ([], []) (items.dropWhile (· ≠ 0)).tail)
      else ⟨none, [], items⟩

/-- The bytes to scan, once the chunk without bytes is there. -/
def content (scanner : Scanner) : Option (List UInt8) :=
  if scanner.command = some instream ∧ [] ∈ scanner.chunks then
    some (scanner.chunks.takeWhile (· ≠ [])).flatten
  else none

/-- The command ends at the first byte of zero. -/
theorem receive_command {scanner : Scanner} (hnone : scanner.command = none)
    {piece front back : List UInt8} (hfront : 0 ∉ front)
    (hitems : scanner.rest ++ piece = front ++ 0 :: back) :
    scanner.receive piece = ofFed front (chunkFraming.feed ([], []) back) := by
  have hkept : ∀ byte ∈ front, decide (byte ≠ 0) = true := by
    intro byte hbyte
    exact decide_eq_true fun h => hfront (h ▸ hbyte)
  unfold receive
  simp only [hnone, hitems]
  rw [if_pos (by simp), List.takeWhile_append_of_pos hkept, List.dropWhile_append_of_pos hkept,
    List.takeWhile_cons_of_neg (by simp), List.dropWhile_cons_of_neg (by simp), List.append_nil,
    List.tail_cons]

/-- Two pieces are one. -/
theorem receive_receive (scanner : Scanner) (piece more : List UInt8) :
    (scanner.receive piece).receive more = scanner.receive (piece ++ more) := by
  cases hcommand : scanner.command with
  | some command =>
      have hfed : ∀ piece, scanner.receive piece =
          ofFed command (chunkFraming.feed (scanner.chunks, scanner.rest) piece) := by
        intro piece
        rw [receive, hcommand]
      rw [hfed, hfed, ← chunkFraming.feed_feed]
      rfl
  | none =>
      by_cases hzero : 0 ∈ scanner.rest ++ piece
      · obtain ⟨front, back, hitems, hfront⟩ := List.eq_append_cons_of_mem hzero
        have hboth : scanner.rest ++ (piece ++ more) = front ++ 0 :: (back ++ more) := by
          rw [← List.append_assoc, hitems, List.append_assoc, List.cons_append]
        rw [receive_command hcommand hfront hitems, receive_command hcommand hfront hboth,
          ← chunkFraming.feed_feed]
        rfl
      · have hkept : scanner.receive piece = ⟨none, [], scanner.rest ++ piece⟩ := by
          unfold receive
          simp only [hcommand, if_neg hzero]
        rw [hkept]
        unfold receive
        simp only [hcommand, List.append_assoc]

/-- The pieces of a stream arrive as the stream does. -/
theorem foldl_receive (pieces : List (List UInt8)) (scanner : Scanner) (first : List UInt8) :
    pieces.foldl receive (scanner.receive first) = scanner.receive (first ++ pieces.flatten) := by
  induction pieces generalizing first with
  | nil => rw [List.foldl_nil, List.flatten_nil, List.append_nil]
  | cons piece pieces ih =>
      rw [List.foldl_cons, receive_receive, ih, List.flatten_cons, List.append_assoc]

end Scanner

/-! ## The bytes of a file arrive -/

theorem takeChunk_uint32BE {chunk : List UInt8} (hlength : chunk.length < 2 ^ 32)
    (rest : List UInt8) :
    takeChunk (uint32BE chunk.length ++ (chunk ++ rest)) = some (chunk, rest) := by
  refine takeChunk_cons ?_ rest
  simp only [UInt8.toNat_ofNat']
  omega

/-- The bytes that a write takes, and those after it. -/
theorem chunk_append (content : List UInt8) (offset : Nat) :
    (content.take (min (offset + chunkSize) content.length)).drop offset ++
      content.drop (offset + chunkSize) = content.drop offset := by
  have htake : content.take (min (offset + chunkSize) content.length) =
      content.take (offset + chunkSize) := by
    rw [← List.take_take, List.take_length]
  rw [htake, List.drop_take, Nat.add_sub_cancel_left, ← List.drop_drop, List.take_append_drop]

/-- The loop writes the rest of the content as chunks that are not empty. -/
theorem frames_chunkWrites (content : List UInt8) (offset : Nat) (rest : List UInt8) :
    ∃ chunks, (∀ chunk ∈ chunks, chunk ≠ [] ∧ chunk.length ≤ chunkSize) ∧
      chunks.flatten = content.drop offset ∧
      chunkFraming.frames ((chunkWrites content offset).flatten ++ rest) =
        (chunks ++ (chunkFraming.frames rest).1, (chunkFraming.frames rest).2) := by
  fun_induction chunkWrites content offset with
  | case1 offset hoffset chunk ih =>
      obtain ⟨chunks, hchunks, hflatten, hframes⟩ := ih
      have hlength : chunk.length = min chunkSize (content.length - offset) := by
        simp only [chunk, List.length_drop, List.length_take]
        omega
      have hpositive := chunkSize_pos
      have hsize : chunk.length ≤ chunkSize := hlength ▸ Nat.min_le_left _ _
      have hshort : chunk.length < 2 ^ 32 := Nat.lt_of_le_of_lt hsize (by decide)
      refine ⟨chunk :: chunks, List.forall_mem_cons.mpr ⟨⟨?_, hsize⟩, hchunks⟩, ?_, ?_⟩
      · exact List.ne_nil_of_length_pos (by omega)
      · rw [List.flatten_cons, hflatten, chunk_append]
      · have hfirst : chunkFraming.first (uint32BE chunk.length ++ (chunk ++
            ((chunkWrites content (offset + chunkSize)).flatten ++ rest))) = some (chunk, _) :=
          takeChunk_uint32BE hshort _
        rw [List.flatten_cons, List.flatten_cons, List.append_assoc, List.append_assoc,
          Framing.frames_of_some hfirst, hframes, List.cons_append]
  | case2 offset hoffset =>
      refine ⟨[], by simp, ?_, rfl⟩
      rw [List.flatten_nil, List.drop_eq_nil_of_le (Nat.le_of_not_lt hoffset)]

theorem zero_notMem_instream : (0 : UInt8) ∉ instream := by decide

/-- However the stream is cut, the scanner has the bytes of the file. -/
theorem content_of_pieces (content : List UInt8) {pieces : List (List UInt8)}
    (hpieces : pieces.flatten = (scanWrites content).flatten) :
    (pieces.foldl Scanner.receive Scanner.start).content = some content := by
  obtain ⟨chunks, hchunks, hflatten, hframes⟩ :=
    frames_chunkWrites content 0 (List.replicate 4 0)
  have hmark : chunkFraming.first (List.replicate 4 0) = some ([], []) := by decide
  have hnothing : chunkFraming.first [] = none := rfl
  have hend : chunkFraming.frames (List.replicate 4 0) = ([[]], []) := by
    rw [Framing.frames_of_some hmark, Framing.frames_of_none hnothing]
  have hstart : Scanner.start = Scanner.start.receive [] := rfl
  have hwrites : Scanner.start.rest ++ ([] ++ (scanWrites content).flatten) =
      instream ++ 0 :: ((chunkWrites content 0).flatten ++ List.replicate 4 0) := by
    simp [scanWrites, Scanner.start]
  have hmarked : ∀ chunk ∈ chunks, decide (chunk ≠ []) = true := fun chunk hchunk =>
    decide_eq_true (hchunks chunk hchunk).1
  rw [hstart, Scanner.foldl_receive, hpieces,
    Scanner.receive_command rfl zero_notMem_instream hwrites, Framing.feed, List.nil_append,
    List.nil_append, hframes, hend, Scanner.ofFed, Scanner.content]
  rw [if_pos (by simp), List.takeWhile_append_of_pos hmarked,
    List.takeWhile_cons_of_neg (by simp), List.append_nil, hflatten, List.drop_zero]

/-! ## The answer arrives -/

/-- What the scanner says of the bytes. -/
inductive Reply
  | ok
  | found (name : List Char)
  | error (message : List Char)
deriving DecidableEq, Repr

namespace Reply

def text : Reply → List Char
  | ok => "stream: OK".toList
  | found name => "stream: ".toList ++ (name ++ " FOUND".toList)
  | error message => message ++ " ERROR".toList

def result : Reply → AntivirusResult
  | ok => .clean
  | found name => .infected name
  | error message => .error (message ++ " ERROR".toList)

/-- Names are one line, and messages start with a character that is no white space. -/
def Valid : Reply → Prop
  | ok => True
  | found name => name ≠ [] ∧ Char.ofNat 0 ∉ name ∧ ∀ c ∈ name, isLineTerminator c = false
  | error message => Char.ofNat 0 ∉ message ∧
      ∃ c rest, message = c :: rest ∧ JsString.isWhiteSpace c = false

/-- The answer, which a byte of zero ends. -/
def bytes (reply : Reply) : List UInt8 := Utf8.encode (reply.text ++ [Char.ofNat 0])

end Reply

/-- A text without white space at its ends. -/
theorem trim_of_ends {text : List Char} {c d : Char} (hhead : text.head? = some c)
    (hlast : text.getLast? = some d) (hc : JsString.isWhiteSpace c = false)
    (hd : JsString.isWhiteSpace d = false) : (JsString.trim (String.ofList text)).toList = text := by
  have hstart : text.dropWhile JsString.isWhiteSpace = text := by
    obtain ⟨rest, rfl⟩ := List.head?_eq_some_iff.mp hhead
    rw [List.dropWhile_cons_of_neg (by simp [hc])]
  obtain ⟨front, rfl⟩ := List.getLast?_eq_some_iff.mp hlast
  rw [JsString.toList_trim, String.toList_ofList, hstart,
    List.rdropWhile_concat_neg _ _ _ (by simp [hd])]

namespace Reply

/-- Neither a byte of zero nor white space is taken off the text of an answer. -/
theorem kept {reply : Reply} (hvalid : reply.Valid) :
    Char.ofNat 0 ∉ reply.text ∧ (JsString.trim (String.ofList reply.text)).toList = reply.text := by
  cases reply with
  | ok => exact ⟨by decide, trim_of_ends rfl rfl (by decide : _ = false) (by decide)⟩
  | found name =>
      have hlast : ("stream: ".toList ++ (name ++ " FOUND".toList)).getLast? = some 'D' := by
        rw [List.getLast?_append, List.getLast?_append]
        rfl
      refine ⟨?_, trim_of_ends (d := 'D') rfl hlast (by decide : _ = false) (by decide)⟩
      intro hmem
      rcases List.mem_append.mp hmem with h | h
      · exact absurd h (by decide)
      · rcases List.mem_append.mp h with h | h
        · exact hvalid.2.1 h
        · exact absurd h (by decide)
  | error message =>
      obtain ⟨hzero, c, rest, rfl, hc⟩ := hvalid
      have hlast : (c :: rest ++ " ERROR".toList).getLast? = some 'R' := by
        rw [List.getLast?_append]
        rfl
      refine ⟨?_, trim_of_ends rfl hlast hc (by decide)⟩
      intro hmem
      rcases List.mem_append.mp hmem with h | h
      · exact hzero h
      · exact absurd h (by decide)

end Reply

theorem responseText_bytes (utf8 : Utf8.Reader) {reply : Reply} (hvalid : reply.Valid)
    {chunks : List (List UInt8)} (hchunks : chunks.flatten = reply.bytes) :
    responseText utf8 chunks = reply.text := by
  obtain ⟨hzero, htrim⟩ := Reply.kept hvalid
  have hkept : (reply.text ++ [Char.ofNat 0]).filter (· ≠ Char.ofNat 0) = reply.text := by
    rw [List.filter_append, List.filter_eq_self.mpr, List.filter_eq_nil_iff.mpr, List.append_nil]
    · simp
    · intro c hc
      exact decide_eq_true fun h => hzero (h ▸ hc)
  rw [responseText, hchunks, Reply.bytes, utf8.toText_encode, hkept, htrim]

/-- Of two words, the one that ends a text that ends in the other ends that one. -/
theorem not_suffix {word ending : List Char} (hlength : word.length ≤ ending.length)
    (hword : ¬word <:+ ending) (front : List Char) : ¬word <:+ front ++ ending := fun h =>
  hword (List.suffix_of_suffix_length_le h (List.suffix_append front ending) hlength)

theorem foundAfter_suffix {text name : List Char} (h : foundAfter text = some name) :
    " FOUND".toList <:+ text := by
  unfold foundAfter at h
  split at h
  next rest =>
    obtain ⟨⟨hsuffix, -⟩, -⟩ := Option.ite_none_right_eq_some.mp h
    exact hsuffix.trans (List.suffix_append [':', ' '] rest)
  next => cases h

theorem matchFound_suffix {text name : List Char} (h : matchFound text = some name) :
    " FOUND".toList <:+ text := by
  induction text with
  | nil => cases h
  | cons c text ih =>
      rcases Option.or_eq_some_iff.mp h with hfirst | ⟨-, hlater⟩
      · exact foundAfter_suffix hfirst
      · exact (ih hlater).trans (List.suffix_cons c text)

theorem matchFound_found {name : List Char} (hne : name ≠ [])
    (hline : ∀ c ∈ name, isLineTerminator c = false) :
    matchFound ("stream: ".toList ++ (name ++ " FOUND".toList)) = some name := by
  have hafter : foundAfter (':' :: ' ' :: (name ++ " FOUND".toList)) = some name := by
    have htake : (name ++ " FOUND".toList).take ((name ++ " FOUND".toList).length - 6) = name := by
      rw [List.length_append]
      exact List.take_left
    rw [foundAfter]
    simp only [htake]
    rw [if_pos ⟨List.suffix_append _ _, hne, by simpa using hline⟩]
  have hword : "stream: ".toList ++ (name ++ " FOUND".toList) =
      's' :: 't' :: 'r' :: 'e' :: 'a' :: 'm' :: ':' :: ' ' :: (name ++ " FOUND".toList) := rfl
  have hnone : ∀ {c : Char} {rest : List Char}, c ≠ ':' → foundAfter (c :: rest) = none := by
    intro c rest hc
    rw [foundAfter]
    intro after heq
    exact hc (List.cons.inj heq).1
  rw [hword]
  simp only [matchFound, hafter, Option.some_or]
  rw [hnone (by decide), hnone (by decide), hnone (by decide), hnone (by decide),
    hnone (by decide), hnone (by decide)]
  rfl

theorem verdict_of_reply (utf8 : Utf8.Reader) {reply : Reply} (hvalid : reply.Valid)
    {chunks : List (List UInt8)} (hchunks : chunks.flatten = reply.bytes) :
    verdict utf8 chunks = reply.result := by
  have hresponse := responseText_bytes utf8 hvalid hchunks
  rw [verdict, hresponse]
  cases reply with
  | ok => exact if_pos (by decide)
  | found name =>
      have hok : ¬"OK".toList <:+ "stream: ".toList ++ (name ++ " FOUND".toList) := by
        rw [← List.append_assoc]
        exact not_suffix (by decide) (by decide) _
      have hfound : matchFound (Reply.found name).text = some name :=
        matchFound_found hvalid.1 hvalid.2.2
      refine (if_neg hok).trans ?_
      rw [hfound]
      rfl
  | error message =>
      have hok : ¬"OK".toList <:+ message ++ " ERROR".toList :=
        not_suffix (by decide) (by decide) message
      have hnone : matchFound (Reply.error message).text = none := by
        rw [Option.eq_none_iff_forall_ne_some]
        intro name h
        exact not_suffix (by decide) (by decide) message (matchFound_suffix h)
      have hne : message ++ " ERROR".toList ≠ [] := List.append_ne_nil_of_right_ne_nil _ (by decide)
      refine (if_neg hok).trans ?_
      rw [hnone]
      exact congrArg AntivirusResult.error (if_neg hne)

/-! ## Scans -/

/-- The answer of a scanner to what has arrived, for how it judges bytes. -/
def answer (judge : List UInt8 → Reply) (scanner : Scanner) : List UInt8 :=
  (scanner.content.map fun content => (judge content).bytes).getD []

/-- The result is what the scanner says of the bytes of the file, wherever the two streams are cut;
without an answer it is an error. -/
theorem scan_result (utf8 : Utf8.Reader) (judge : List UInt8 → Reply)
    (hjudge : ∀ content, (judge content).Valid) (content : List UInt8)
    (pieces chunks : List (List UInt8)) (hpieces : pieces.flatten = (scanWrites content).flatten)
    (hchunks : chunks.flatten = answer judge (pieces.foldl Scanner.receive Scanner.start)) :
    verdict utf8 chunks = (judge content).result ∧
      ∀ empty : List (List UInt8), empty.flatten = [] →
        verdict utf8 empty = .error "Unknown ClamAV response".toList := by
  constructor
  · rw [answer, content_of_pieces content hpieces, Option.map_some, Option.getD_some] at hchunks
    exact verdict_of_reply utf8 (hjudge content) hchunks
  · intro empty hempty
    have hnothing : utf8.toText [] = [] := utf8.toText_encode []
    have htext : responseText utf8 empty = [] := by
      rw [responseText, hempty, hnothing]
      rfl
    rw [verdict, htext]
    rfl

/-- Three bytes that the scanner knows, with an answer that is cut in two. -/
theorem scan_result_found :
    verdict Utf8.strictReader
        [Utf8.encode "stream: Ei".toList, Utf8.encode ("car FOUND".toList ++ [Char.ofNat 0])] =
      .infected "Eicar".toList := by
  refine (scan_result Utf8.strictReader
    (fun content => if content = [1, 2, 3] then .found "Eicar".toList else .ok) ?_ [1, 2, 3]
    (scanWrites [1, 2, 3]) _ rfl ?_).1
  · intro content
    split
    next => exact ⟨by decide, by decide, by simp [isLineTerminator]⟩
    next => trivial
  · rw [answer, content_of_pieces [1, 2, 3] rfl]
    rfl

end Storage.Antivirus
