import IsmsPortal.Foundation.Framing
import IsmsPortal.Foundation.NumberText
import IsmsPortal.Foundation.Runs
import IsmsPortal.Foundation.Utf8

/-! # Replies of a mail server

The reader of a connection cuts what arrives into lines. A line goes to the read call that waits for
one, or into a queue; a call takes lines until one does not announce another, and checks the code of
that line. Chunks may end anywhere, and calls may come before or after their lines: the replies that
the calls see are those of the stream as a whole.
-/

namespace Notifications.Smtp

open Foundation Double

abbrev Line := List Char

/-! ## The reader -/

/-- A byte that is a character of its own. -/
structure AsciiByte where
  byte : UInt8
  is_ascii : byte.toNat < 128
deriving DecidableEq

/-- `chunk.toString("utf8")`. -/
def toText (chunk : List AsciiByte) : List Char :=
  chunk.map fun value => Char.ofNat value.byte.toNat

/-- The bytes are the text in UTF-8. -/
theorem encode_toText (chunk : List AsciiByte) :
    Utf8.encode (toText chunk) = chunk.map AsciiByte.byte := by
  induction chunk with
  | nil => rfl
  | cons value chunk ih =>
      obtain ⟨byte, hascii⟩ := value
      have hvalid : byte.toNat.isValidChar := .inl (by omega)
      have hval : (Char.ofNat byte.toNat).val.toNat = byte.toNat := by
        rw [Char.ofNat, dif_pos hvalid]
        rfl
      have hsize : (Char.ofNat byte.toNat).utf8Size = 1 := by
        rw [Char.utf8Size_eq_one_iff, UInt32.le_iff_toNat_le, hval]
        exact Nat.le_of_lt_succ hascii
      have hencode : String.utf8EncodeChar (Char.ofNat byte.toNat) = [byte] := by
        rw [String.utf8EncodeChar_eq_singleton hsize, List.singleton_inj, ← UInt8.toNat_inj,
          UInt32.toNat_toUInt8, hval]
        omega
      rw [toText, List.map_cons, Utf8.encode, List.flatMap_cons, hencode, List.map_cons]
      exact congrArg (byte :: ·) ih

/-- Up to the first `"\r\n"`, and what is behind it. -/
def takeLine : List Char → Option (Line × List Char)
  | [] => none
  | c :: rest =>
      if c = '\r' ∧ rest.head? = some '\n' then some ([], rest.tail)
      else (takeLine rest).map fun (line, after) => (c :: line, after)

theorem lineEnd_cons {c : Char} {text : List Char} :
    ['\r', '\n'] <:+: c :: text ↔
      (c = '\r' ∧ text.head? = some '\n') ∨ ['\r', '\n'] <:+: text := by
  rw [List.infix_cons_iff, List.cons_prefix_cons]
  refine or_congr_left (and_congr eq_comm ?_)
  cases text with
  | nil => simp
  | cons d text => simp [eq_comm]

theorem takeLine_eq_none_iff {text : List Char} :
    takeLine text = none ↔ ¬ ['\r', '\n'] <:+: text := by
  induction text with
  | nil => simp [takeLine]
  | cons c text ih =>
      rw [takeLine, lineEnd_cons]
      split
      next hend => simp [hend]
      next hend => rw [Option.map_eq_none_iff, ih, or_iff_right hend]

/-- A line end does not begin in the line in front of it. -/
theorem feed_behind {line rest : List Char} :
    (line ++ '\r' :: rest).head? = some '\n' ↔ line.head? = some '\n' := by
  cases line with
  | nil => simp
  | cons => rfl

/-- A line is taken as it is spelled. -/
theorem takeLine_eq_some_iff {text line rest : List Char} :
    takeLine text = some (line, rest) ↔
      ¬ ['\r', '\n'] <:+: line ∧ text = line ++ ['\r', '\n'] ++ rest := by
  constructor
  · intro h
    induction text generalizing line with
    | nil => cases h
    | cons c text ih =>
        rw [takeLine] at h
        split at h
        next hend =>
          obtain ⟨rfl, hfeed⟩ := hend
          obtain ⟨rfl, rfl⟩ := Prod.mk.inj (Option.some.inj h)
          obtain ⟨after, rfl⟩ := List.head?_eq_some_iff.mp hfeed
          exact ⟨by simp, rfl⟩
        next hend =>
          obtain ⟨⟨start, after⟩, hstart, heq⟩ := Option.map_eq_some_iff.mp h
          obtain ⟨rfl, rfl⟩ := Prod.mk.inj heq
          obtain ⟨hwhole, rfl⟩ := ih hstart
          rw [List.append_assoc, List.cons_append, feed_behind] at hend
          rw [lineEnd_cons]
          exact ⟨not_or.mpr ⟨hend, hwhole⟩, rfl⟩
  · rintro ⟨hwhole, rfl⟩
    induction line with
    | nil => rfl
    | cons c line ih =>
        rw [lineEnd_cons, not_or] at hwhole
        obtain ⟨hstart, hline⟩ := hwhole
        have hend : ¬ (c = '\r' ∧ (line ++ ['\r', '\n'] ++ rest).head? = some '\n') := by
          rwa [List.append_assoc, List.cons_append, feed_behind]
        rw [List.cons_append, List.cons_append, takeLine, if_neg hend, ih hline]
        rfl

theorem takeLine_shorter {text line rest : List Char} (h : takeLine text = some (line, rest)) :
    rest.length < text.length := by
  obtain ⟨-, rfl⟩ := takeLine_eq_some_iff.mp h
  simp only [List.length_append, List.length_cons]
  omega

theorem takeLine_stable {text line rest : List Char} (more : List Char)
    (h : takeLine text = some (line, rest)) :
    takeLine (text ++ more) = some (line, rest ++ more) := by
  obtain ⟨hwhole, rfl⟩ := takeLine_eq_some_iff.mp h
  exact takeLine_eq_some_iff.mpr ⟨hwhole, List.append_assoc _ _ _⟩

/-- The line starts with three digits and a hyphen. -/
def isContinuation (reply : Line) : Bool :=
  (reply.take 3).length = 3 && (reply.take 3).all Char.isDigit && reply[3]? = some '-'

/-- A read call that runs: the lines it has read, and the one its promise was resolved with. -/
structure Call where
  expected : Double
  reply : List Line
  resolved : Option Line

/-- One call runs at a time, so at most one promise waits: that of a call without a line. -/
structure Reader where
  buffer : List Char
  lines : List Line
  call : Option Call

namespace Reader

/-- `if (waiter) waiter(line); else lines.push(line)`. -/
def deliver (reader : Reader) (line : Line) : Reader :=
  match reader.call with
  | some ⟨expected, reply, none⟩ => { reader with call := some ⟨expected, reply, some line⟩ }
  | _ => { reader with lines := reader.lines ++ [line] }

theorem deliver_buffer (reader : Reader) (line : Line) :
    (reader.deliver line).buffer = reader.buffer := by
  unfold deliver
  split
  next => rfl
  next => rfl

/-- The loop of the handler of `data`. -/
def dataLoop (reader : Reader) : Reader :=
  match _h : takeLine reader.buffer with
  | none => reader
  | some (line, rest) => dataLoop ({ reader with buffer := rest }.deliver line)
termination_by reader.buffer.length
decreasing_by
  rw [deliver_buffer]
  exact takeLine_shorter _h

def onData (reader : Reader) (chunk : List Char) : Reader :=
  dataLoop { reader with buffer := reader.buffer ++ chunk }

/-- `await next()` of a call that has read some lines. -/
def next (reader : Reader) (expected : Double) (reply : List Line) : Reader :=
  match reader.lines with
  | line :: lines => { reader with lines, call := some ⟨expected, reply, some line⟩ }
  | [] => { reader with call := some ⟨expected, reply, none⟩ }

end Reader

def checkLine (expected : Double) (line : Line) : Except String Unit :=
  if equals (number (line.take 3)) expected then .ok ()
  else .error ("SMTP rejected command (" ++ String.ofList (line.take 3) ++ ")")

/-- A read call that has ended. -/
structure Settled where
  expected : Double
  reply : List Line
  outcome : Except String Unit

/-- A reader, the calls that have ended, and what has happened: the text that has arrived and the
codes of the calls. -/
structure Session where
  reader : Reader
  settled : List Settled
  received : List Char
  issued : List Double

inductive Event
  | data (chunk : List AsciiByte)
  | read (expected : Double)
  | resume

/-- A call starts when no other runs, and goes on when its promise is resolved. -/
def Session.next (session : Session) : Event → Option Session
  | .data chunk =>
      some { session with
        reader := session.reader.onData (toText chunk)
        received := session.received ++ toText chunk }
  | .read expected =>
      match session.reader.call with
      | some _ => none
      | none =>
          some { session with
            reader := session.reader.next expected []
            issued := session.issued ++ [expected] }
  | .resume =>
      match session.reader.call with
      | some ⟨expected, reply, some line⟩ =>
          if isContinuation line then
            some { session with reader := session.reader.next expected (reply ++ [line]) }
          else
            some { session with
              reader := { session.reader with call := none }
              settled := session.settled ++ [⟨expected, reply ++ [line], checkLine expected line⟩] }
      | _ => none

def system : System Session Event where
  init session := session = ⟨⟨[], [], none⟩, [], [], []⟩
  step session event after := session.next event = some after

/-! ## How a stream is spelled -/

/-- Three digits and a hyphen: the reply has another line. -/
def Announces (line : Line) : Prop :=
  ∃ code text : List Char, line = code ++ '-' :: text ∧ code.length = 3 ∧
    ∀ digit ∈ code, digit.isDigit = true

/-- The lines, each with a line end behind it, and a piece of one that has not ended. -/
structure AreLines (stream : List Char) (lines : List Line) (tail : List Char) : Prop where
  stream : stream = (lines.map (· ++ ['\r', '\n'])).flatten ++ tail
  lines : ∀ line ∈ lines, ¬ ['\r', '\n'] <:+: line
  tail : ¬ ['\r', '\n'] <:+: tail

/-- Some lines that announce another one, and one that does not. -/
def IsReply (reply : List Line) : Prop :=
  ∃ lines last, reply = lines ++ [last] ∧ (∀ line ∈ lines, Announces line) ∧ ¬ Announces last

/-- The replies, and the lines of one that has not ended. -/
structure AreReplies (lines : List Line) (replies : List (List Line)) (tail : List Line) :
    Prop where
  lines : lines = replies.flatten ++ tail
  replies : ∀ reply ∈ replies, IsReply reply
  tail : ∀ line ∈ tail, Announces line

/-- What a server has said with a stream. -/
def Spells (stream : List Char) (lines : List Line) (replies : List (List Line)) : Prop :=
  (∃ tail, AreLines stream lines tail) ∧ ∃ tail, AreReplies lines replies tail

theorem isContinuation_iff {line : Line} : isContinuation line = true ↔ Announces line := by
  constructor
  · intro h
    simp only [isContinuation, Bool.and_eq_true, decide_eq_true_eq, List.all_eq_true] at h
    obtain ⟨⟨hlength, hdigits⟩, hhyphen⟩ := h
    obtain ⟨hshort, hget⟩ := List.getElem?_eq_some_iff.mp hhyphen
    refine ⟨line.take 3, line.drop 4, ?_, hlength, hdigits⟩
    rw [← hget, ← List.drop_eq_getElem_cons hshort, List.take_append_drop]
  · rintro ⟨code, text, rfl, hlength, hdigits⟩
    have htake : (code ++ '-' :: text).take 3 = code := by
      rw [← hlength, List.take_left]
    have hhyphen : (code ++ '-' :: text)[3]? = some '-' := by
      rw [← hlength, List.getElem?_append_right (Nat.le_refl _), Nat.sub_self]
      rfl
    simp only [isContinuation, htake, hhyphen, hlength, Bool.and_eq_true, decide_eq_true_eq,
      List.all_eq_true]
    exact ⟨⟨trivial, hdigits⟩, trivial⟩

/-! ## The replies of a stream -/

/-- The lines of a text. -/
def lineFraming : Framing Char Line where
  first := takeLine
  shorter _ _ _ h := takeLine_shorter h
  stable _ _ _ more h := takeLine_stable more h

/-- The lines up to the first one that announces no other. -/
def takeReply : List Line → Option (List Line × List Line)
  | [] => none
  | line :: rest =>
      if isContinuation line then (takeReply rest).map fun (reply, after) => (line :: reply, after)
      else some ([line], rest)

theorem takeReply_eq_none_iff {lines : List Line} :
    takeReply lines = none ↔ ∀ line ∈ lines, Announces line := by
  induction lines with
  | nil => simp [takeReply]
  | cons line lines ih =>
      rw [takeReply, List.forall_mem_cons, ← isContinuation_iff]
      split
      next hmore => rw [Option.map_eq_none_iff, ih, and_iff_right hmore]
      next hlast => simp [hlast]

/-- A reply is taken as it is spelled. -/
theorem takeReply_eq_some_iff {lines rest : List Line} {reply : List Line} :
    takeReply lines = some (reply, rest) ↔ IsReply reply ∧ lines = reply ++ rest := by
  constructor
  · intro h
    induction lines generalizing reply with
    | nil => cases h
    | cons line lines ih =>
        rw [takeReply] at h
        split at h
        next hmore =>
          obtain ⟨⟨others, after⟩, hothers, heq⟩ := Option.map_eq_some_iff.mp h
          obtain ⟨rfl, rfl⟩ := Prod.mk.inj heq
          obtain ⟨⟨announced, last, rfl, hannounced, hlast⟩, rfl⟩ := ih hothers
          refine ⟨⟨line :: announced, last, rfl, ?_, hlast⟩, rfl⟩
          exact List.forall_mem_cons.mpr ⟨isContinuation_iff.mp hmore, hannounced⟩
        next hlast =>
          obtain ⟨rfl, rfl⟩ := Prod.mk.inj (Option.some.inj h)
          exact ⟨⟨[], line, rfl, by simp, mt isContinuation_iff.mpr hlast⟩, rfl⟩
  · rintro ⟨⟨announced, last, rfl, hannounced, hlast⟩, rfl⟩
    induction announced with
    | nil =>
        rw [List.nil_append, List.singleton_append, takeReply,
          if_neg (mt isContinuation_iff.mp hlast)]
    | cons line announced ih =>
        obtain ⟨hline, hothers⟩ := List.forall_mem_cons.mp hannounced
        rw [List.cons_append, List.cons_append, takeReply, if_pos (isContinuation_iff.mpr hline),
          ih hothers]
        rfl

theorem takeReply_shorter {lines reply rest : List Line}
    (h : takeReply lines = some (reply, rest)) : rest.length < lines.length := by
  obtain ⟨⟨announced, last, rfl, -, -⟩, rfl⟩ := takeReply_eq_some_iff.mp h
  simp only [List.length_append, List.length_singleton]
  omega

theorem takeReply_stable {lines reply rest : List Line} (more : List Line)
    (h : takeReply lines = some (reply, rest)) :
    takeReply (lines ++ more) = some (reply, rest ++ more) := by
  obtain ⟨hwhole, rfl⟩ := takeReply_eq_some_iff.mp h
  exact takeReply_eq_some_iff.mpr ⟨hwhole, List.append_assoc _ _ _⟩

def replyFraming : Framing Line (List Line) where
  first := takeReply
  shorter _ _ _ h := takeReply_shorter h
  stable _ _ _ more h := takeReply_stable more h

/-- The lines of a stream, and the replies they make. -/
def linesOf (stream : List Char) : List Line := (lineFraming.frames stream).1

def repliesOf (stream : List Char) : List (List Line) := (replyFraming.frames (linesOf stream)).1

/-- What a call makes of its reply. -/
def settle (reply : List Line) (expected : Double) : Settled :=
  ⟨expected, reply, checkLine expected (reply.getLastD [])⟩

/-- The replies are given to the calls in order. -/
def outcomes (replies : List (List Line)) (issued : List Double) : List Settled :=
  List.zipWith settle replies issued

/-- A stream has one reading, that of the framings. -/
theorem spells_iff {stream : List Char} {lines : List Line} {replies : List (List Line)} :
    Spells stream lines replies ↔ linesOf stream = lines ∧ repliesOf stream = replies := by
  have hlines {tail : List Char} :
      lineFraming.frames stream = (lines, tail) ↔ AreLines stream lines tail := by
    rw [lineFraming.frames_eq_iff fun _ _ _ => takeLine_eq_some_iff]
    exact ⟨fun ⟨h, hwhole, htail⟩ => ⟨h, hwhole, takeLine_eq_none_iff.mp htail⟩,
      fun h => ⟨h.stream, h.lines, takeLine_eq_none_iff.mpr h.tail⟩⟩
  have hreplies {tail : List Line} :
      replyFraming.frames lines = (replies, tail) ↔ AreReplies lines replies tail := by
    have hspell (items : List Line) (reply rest : List Line) :
        replyFraming.first items = some (reply, rest) ↔
          IsReply reply ∧ items = id reply ++ rest := takeReply_eq_some_iff
    rw [replyFraming.frames_eq_iff hspell, List.map_id]
    exact ⟨fun ⟨h, hwhole, htail⟩ => ⟨h, hwhole, takeReply_eq_none_iff.mp htail⟩,
      fun h => ⟨h.lines, h.replies, takeReply_eq_none_iff.mpr h.tail⟩⟩
  constructor
  · rintro ⟨⟨tail, harelines⟩, left, harereplies⟩
    have hread : linesOf stream = lines := congrArg Prod.fst (hlines.mpr harelines)
    refine ⟨hread, ?_⟩
    rw [repliesOf, hread, hreplies.mpr harereplies]
  · rintro ⟨rfl, rfl⟩
    exact ⟨⟨_, hlines.mp rfl⟩, _, hreplies.mp rfl⟩

/-! ## What a step does to the lines -/

namespace Reader

/-- The code and the lines of the call that runs. -/
def progress (reader : Reader) : Option (Double × List Line) :=
  reader.call.map fun call => (call.expected, call.reply)

/-- The lines that have arrived for the calls that have not ended. -/
def pending (reader : Reader) : List Line :=
  (match reader.call with
    | none => []
    | some call => call.reply ++ call.resolved.toList) ++ reader.lines

/-- A call waits only when the queue is empty. -/
def WaitsEmpty (reader : Reader) : Prop :=
  ∀ call ∈ reader.call, call.resolved = none → reader.lines = []

/-- Lines arrive, and the call that runs keeps what it has read. -/
structure Gains (reader after : Reader) (found : List Line) : Prop where
  pending : after.pending = reader.pending ++ found
  waits : after.WaitsEmpty
  progress : after.progress = reader.progress

theorem Gains.trans {reader middle after : Reader} {found more : List Line}
    (h : Gains reader middle found) (h' : Gains middle after more) :
    Gains reader after (found ++ more) where
  pending := by rw [h'.pending, h.pending, List.append_assoc]
  waits := h'.waits
  progress := h'.progress.trans h.progress

theorem gains_deliver {reader : Reader} (hwaits : reader.WaitsEmpty) (line : Line) :
    Gains reader (reader.deliver line) [line] := by
  obtain ⟨buffer, lines, call⟩ := reader
  cases call with
  | none => exact ⟨rfl, by simp [WaitsEmpty, deliver], rfl⟩
  | some call =>
      obtain ⟨expected, reply, resolved⟩ := call
      cases resolved with
      | none =>
          obtain rfl : lines = [] := hwaits _ rfl rfl
          refine ⟨?_, by simp [WaitsEmpty, deliver], rfl⟩
          simp [Reader.pending, deliver]
      | some first =>
          refine ⟨?_, by simp [WaitsEmpty, deliver], rfl⟩
          simp [Reader.pending, deliver]

theorem dataLoop_of_none {reader : Reader} (h : takeLine reader.buffer = none) :
    reader.dataLoop = reader := by
  rw [dataLoop]
  split
  next => rfl
  next hsome => cases h.symm.trans hsome

theorem dataLoop_of_some {reader : Reader} {line : Line} {rest : List Char}
    (h : takeLine reader.buffer = some (line, rest)) :
    reader.dataLoop = ({ reader with buffer := rest }.deliver line).dataLoop := by
  rw [dataLoop]
  split
  next hnone => cases hnone.symm.trans h
  next other after hsome =>
    obtain ⟨rfl, rfl⟩ := Prod.mk.inj (Option.some.inj (h.symm.trans hsome))
    rfl

/-- The loop hands on the complete lines and leaves what is behind them. -/
theorem dataLoop_spec {reader : Reader} (hwaits : reader.WaitsEmpty) :
    reader.dataLoop.buffer = (lineFraming.frames reader.buffer).2 ∧
      Gains reader reader.dataLoop (lineFraming.frames reader.buffer).1 := by
  induction hbuffer : reader.buffer using lineFraming.frames_induction generalizing reader with
  | hnone text h =>
      rw [dataLoop_of_none (hbuffer ▸ h), Framing.frames_of_none h]
      exact ⟨hbuffer, by simp, hwaits, rfl⟩
  | hsome text line rest h ih =>
      have hcut : { reader with buffer := rest }.WaitsEmpty := hwaits
      have hdeliver := gains_deliver hcut line
      obtain ⟨hrest, hgains⟩ := ih hdeliver.waits (deliver_buffer _ line)
      rw [dataLoop_of_some (hbuffer ▸ h), Framing.frames_of_some h]
      have hall := hdeliver.trans hgains
      exact ⟨hrest, hall.pending, hall.waits, hall.progress⟩

theorem next_spec (reader : Reader) (expected : Double) (reply : List Line) :
    (reader.next expected reply).buffer = reader.buffer ∧
      (reader.next expected reply).pending = reply ++ reader.lines ∧
      (reader.next expected reply).WaitsEmpty ∧
      (reader.next expected reply).progress = some (expected, reply) := by
  obtain ⟨buffer, lines, call⟩ := reader
  cases lines with
  | nil => exact ⟨rfl, by simp [next, pending], by simp [next, WaitsEmpty], rfl⟩
  | cons line lines => exact ⟨rfl, by simp [next, pending], by simp [next, WaitsEmpty], rfl⟩

end Reader

/-! ## The invariant -/

/-- Every line is in a settled reply, with the call that runs, in the queue or in the buffer. -/
structure Inv (session : Session) : Prop where
  buffer : session.reader.buffer = (lineFraming.frames session.received).2
  lines : (session.settled.map Settled.reply).flatten ++ session.reader.pending =
    linesOf session.received
  waits : session.reader.WaitsEmpty
  settled : ∀ settled ∈ session.settled, takeReply settled.reply = some (settled.reply, []) ∧
    settled = settle settled.reply settled.expected
  issued : session.issued =
    session.settled.map Settled.expected ++ (session.reader.progress.map Prod.fst).toList
  going : ∀ call ∈ session.reader.progress, ∀ line ∈ call.2, isContinuation line = true

theorem inv_data {session : Session} (hinv : Inv session) (chunk : List AsciiByte) :
    Inv { session with
      reader := session.reader.onData (toText chunk)
      received := session.received ++ toText chunk } := by
  have hframes := lineFraming.frames_append session.received (toText chunk)
  rw [← hinv.buffer] at hframes
  have hwaits : { session.reader with
      buffer := session.reader.buffer ++ toText chunk }.WaitsEmpty := hinv.waits
  obtain ⟨hbuffer, hgains⟩ := Reader.dataLoop_spec hwaits
  refine
    { buffer := ?_
      lines := ?_
      waits := hgains.waits
      settled := hinv.settled
      issued := ?_
      going := ?_ }
  · rw [hframes]
    exact hbuffer
  · have hpending : (session.reader.onData (toText chunk)).pending =
        session.reader.pending ++ _ := hgains.pending
    rw [linesOf, hframes, hpending, ← List.append_assoc, hinv.lines]
    rfl
  · rw [hinv.issued]
    exact congrArg (fun progress => _ ++ (progress.map Prod.fst).toList) hgains.progress.symm
  · intro call hcall
    have hprogress : (session.reader.onData (toText chunk)).progress =
        session.reader.progress := hgains.progress
    rw [hprogress] at hcall
    exact hinv.going call hcall

theorem inv_read {session : Session} (hinv : Inv session) (hnone : session.reader.call = none)
    (expected : Double) :
    Inv { session with
      reader := session.reader.next expected []
      issued := session.issued ++ [expected] } := by
  obtain ⟨hbuffer, hpending, hwaits, hprogress⟩ := session.reader.next_spec expected []
  have hbefore : session.reader.pending = session.reader.lines := by
    simp [Reader.pending, hnone]
  have hidle : session.reader.progress = none := by simp [Reader.progress, hnone]
  refine
    { buffer := hbuffer.trans hinv.buffer
      lines := ?_
      waits := hwaits
      settled := hinv.settled
      issued := ?_
      going := ?_ }
  · rw [hpending, List.nil_append, ← hbefore]
    exact hinv.lines
  · rw [hprogress, hinv.issued, hidle]
    simp
  · rw [hprogress]
    rintro call hcall line hline
    obtain rfl := Option.some.inj hcall
    cases hline

theorem inv_resume {session : Session} {expected : Double} {reply : List Line} {line : Line}
    (hinv : Inv session) (hcall : session.reader.call = some ⟨expected, reply, some line⟩)
    (hmore : isContinuation line = true) :
    Inv { session with reader := session.reader.next expected (reply ++ [line]) } := by
  obtain ⟨hbuffer, hpending, hwaits, hprogress⟩ :=
    session.reader.next_spec expected (reply ++ [line])
  have hbefore : session.reader.pending = reply ++ [line] ++ session.reader.lines := by
    simp [Reader.pending, hcall]
  have hrunning : session.reader.progress = some (expected, reply) := by
    simp [Reader.progress, hcall]
  refine
    { buffer := hbuffer.trans hinv.buffer
      lines := ?_
      waits := hwaits
      settled := hinv.settled
      issued := ?_
      going := ?_ }
  · rw [hpending, ← hbefore]
    exact hinv.lines
  · rw [hprogress, hinv.issued, hrunning]
    rfl
  · rw [hprogress]
    rintro call hcall other hother
    obtain rfl := Option.some.inj hcall
    obtain hold | hnew := List.mem_append.mp hother
    · exact hinv.going _ hrunning other hold
    · rw [List.mem_singleton.mp hnew]
      exact hmore

theorem inv_settle {session : Session} {expected : Double} {reply : List Line} {line : Line}
    (hinv : Inv session) (hcall : session.reader.call = some ⟨expected, reply, some line⟩)
    (hlast : ¬ isContinuation line = true) :
    Inv { session with
      reader := { session.reader with call := none }
      settled := session.settled ++
        [⟨expected, reply ++ [line], checkLine expected line⟩] } := by
  have hbefore : session.reader.pending = reply ++ [line] ++ session.reader.lines := by
    simp [Reader.pending, hcall]
  have hrunning : session.reader.progress = some (expected, reply) := by
    simp [Reader.progress, hcall]
  refine
    { buffer := hinv.buffer
      lines := ?_
      waits := by simp [Reader.WaitsEmpty]
      settled := ?_
      issued := ?_
      going := by simp [Reader.progress] }
  · have hlines := hinv.lines
    rw [hbefore] at hlines
    rw [← hlines]
    simp [Reader.pending]
  · intro settled hsettled
    obtain hold | hnew := List.mem_append.mp hsettled
    · exact hinv.settled settled hold
    · obtain rfl := List.mem_singleton.mp hnew
      have hreply : IsReply (reply ++ [line]) :=
        ⟨reply, line, rfl, fun other hother =>
          isContinuation_iff.mp (hinv.going _ hrunning other hother),
          mt isContinuation_iff.mpr hlast⟩
      refine ⟨takeReply_eq_some_iff.mpr ⟨hreply, (List.append_nil _).symm⟩, ?_⟩
      simp [settle]
  · rw [hinv.issued, hrunning]
    simp [Reader.progress]

theorem Inv.step {session after : Session} {event : Event} (hinv : Inv session)
    (hstep : session.next event = some after) : Inv after := by
  cases event with
  | data chunk =>
      obtain rfl := Option.some.inj hstep
      exact inv_data hinv chunk
  | read expected =>
      rw [Session.next] at hstep
      split at hstep
      next => cases hstep
      next hnone =>
        obtain rfl := Option.some.inj hstep
        exact inv_read hinv hnone expected
  | resume =>
      rw [Session.next] at hstep
      split at hstep
      next expected reply line hcall =>
        split at hstep
        next hmore =>
          obtain rfl := Option.some.inj hstep
          exact inv_resume hinv hcall hmore
        next hlast =>
          obtain rfl := Option.some.inj hstep
          exact inv_settle hinv hcall hlast
      next => cases hstep

theorem Inv.reachable {session : Session} (hreach : system.Reachable session) : Inv session := by
  apply hreach.invariant
  · rintro session rfl
    have hempty : lineFraming.frames [] = ([], []) := Framing.frames_of_none rfl
    refine ⟨?_, ?_, by simp [Reader.WaitsEmpty], by simp, rfl, by simp [Reader.progress]⟩
    · rw [hempty]
    · rw [linesOf, hempty]
      rfl
  · intro session event after hinv _ hstep
    exact hinv.step hstep

/-! ## What the calls see -/

/-- No promise is resolved: the session does nothing by itself. -/
def Session.AtRest (session : Session) : Prop :=
  ∀ call ∈ session.reader.call, call.resolved = none

theorem outcomes_append {replies more : List (List Line)} {issued others : List Double}
    (h : replies.length = issued.length) :
    outcomes (replies ++ more) (issued ++ others) =
      outcomes replies issued ++ outcomes more others :=
  List.zipWith_append h

theorem outcomes_settled {settled : List Settled}
    (h : ∀ entry ∈ settled, entry = settle entry.reply entry.expected) :
    outcomes (settled.map Settled.reply) (settled.map Settled.expected) = settled := by
  induction settled with
  | nil => rfl
  | cons entry settled ih =>
      obtain ⟨hentry, hothers⟩ := List.forall_mem_cons.mp h
      have htail := ih hothers
      unfold outcomes at htail ⊢
      rw [List.map_cons, List.map_cons, List.zipWith_cons_cons, htail, ← hentry]

section Invariant

variable {session : Session} (hinv : Inv session)

include hinv

/-- The replies of what has arrived are the settled ones, and those of the other lines. -/
theorem Inv.replies : repliesOf session.received =
    session.settled.map Settled.reply ++ (replyFraming.frames session.reader.pending).1 := by
  have hcomplete : replyFraming.Complete
      (session.settled.map fun settled => (settled.reply, settled.reply)) := by
    intro entry hentry
    obtain ⟨settled, hsettled, rfl⟩ := List.mem_map.mp hentry
    exact (hinv.settled settled hsettled).1
  have hframes := Framing.frames_complete hcomplete session.reader.pending
  have hlines : ((session.settled.map fun settled => (settled.reply, settled.reply)).map
      Prod.fst).flatten ++ session.reader.pending = linesOf session.received := by
    rw [List.map_map]
    exact hinv.lines
  rw [hlines, List.map_map] at hframes
  exact congrArg Prod.fst hframes

theorem Inv.outcomes_of_replies (more : List (List Line)) :
    outcomes (session.settled.map Settled.reply ++ more) session.issued =
      session.settled ++ outcomes more (session.reader.progress.map Prod.fst).toList := by
  rw [hinv.issued, outcomes_append (by simp), outcomes_settled]
  intro entry hentry
  exact (hinv.settled entry hentry).2

/-- The calls see the first replies of the stream, whatever arrives later. -/
theorem Inv.settled_prefix (rest : List Char) :
    session.settled <+: outcomes (repliesOf (session.received ++ rest)) session.issued := by
  obtain ⟨lines, hlines⟩ := lineFraming.frames_prefix session.received rest
  obtain ⟨replies, hreplies⟩ := replyFraming.frames_prefix (linesOf session.received) lines
  have hall : repliesOf (session.received ++ rest) = repliesOf session.received ++ replies := by
    rw [repliesOf, linesOf, ← hlines]
    exact hreplies.symm
  rw [hall, hinv.replies, List.append_assoc, hinv.outcomes_of_replies]
  exact List.prefix_append _ _

/-- At rest every call with a complete reply has seen it. -/
theorem Inv.settled_of_atRest (hrest : session.AtRest) :
    session.settled = outcomes (repliesOf session.received) session.issued := by
  rw [hinv.replies, hinv.outcomes_of_replies]
  have hnothing : outcomes (replyFraming.frames session.reader.pending).1
      (session.reader.progress.map Prod.fst).toList = [] := by
    cases hcall : session.reader.call with
    | none =>
        have hidle : session.reader.progress = none := by simp [Reader.progress, hcall]
        rw [hidle]
        exact List.zipWith_nil_right
    | some call =>
        have hresolved := hrest call hcall
        have hempty := hinv.waits call hcall hresolved
        have hpending : session.reader.pending = call.reply := by
          simp [Reader.pending, hcall, hresolved, hempty]
        have hrunning : session.reader.progress = some (call.expected, call.reply) := by
          simp [Reader.progress, hcall]
        have hnone : replyFraming.first session.reader.pending = none := by
          rw [hpending]
          exact takeReply_eq_none_iff.mpr fun line hline =>
            isContinuation_iff.mp (hinv.going _ hrunning line hline)
        rw [Framing.frames_of_none hnone]
        rfl
  rw [hnothing, List.append_nil]

end Invariant

/-- Resolved promises go on until the session is at rest. -/
theorem exists_atRest (session : Session) :
    ∃ count rested, System.execute Session.next session (List.replicate count .resume) =
        some rested ∧ rested.AtRest ∧ rested.received = session.received ∧
      rested.issued = session.issued := by
  induction hlength : session.reader.lines.length using Nat.strongRecOn generalizing session with
  | ind length ih =>
    by_cases hrest : session.AtRest
    · exact ⟨0, session, rfl, hrest, rfl, rfl⟩
    · obtain ⟨⟨expected, reply, resolved⟩, hcall, hresolved⟩ :
          ∃ call, session.reader.call = some call ∧ call.resolved ≠ none := by
        simpa [Session.AtRest] using hrest
      obtain ⟨line, rfl⟩ := Option.ne_none_iff_exists'.mp hresolved
      by_cases hmore : isContinuation line = true
      · have hnext : session.next .resume = some { session with
            reader := session.reader.next expected (reply ++ [line]) } := by
          simp [Session.next, hcall, hmore]
        cases hlines : session.reader.lines with
        | nil =>
            refine ⟨1, { session with reader := session.reader.next expected (reply ++ [line]) },
              by simp [System.execute, hnext], ?_, rfl, rfl⟩
            simp [Session.AtRest, Reader.next, hlines]
        | cons first lines =>
            have hshorter : (session.reader.next expected (reply ++ [line])).lines.length <
                length := by
              rw [← hlength]
              simp [Reader.next, hlines]
            obtain ⟨count, rested, hrun, hrested, hreceived, hissued⟩ := ih _ hshorter
              { session with reader := session.reader.next expected (reply ++ [line]) } rfl
            refine ⟨count + 1, rested, ?_, hrested, hreceived, hissued⟩
            rw [List.replicate_succ, System.execute, hnext]
            exact hrun
      · refine ⟨1, { session with
            reader := { session.reader with call := none }
            settled := session.settled ++
              [⟨expected, reply ++ [line], checkLine expected line⟩] }, ?_, ?_, rfl, rfl⟩
        · simp [System.execute, Session.next, hcall, hmore]
        · simp [Session.AtRest]

/-- However a stream is cut into chunks and wherever the calls come between them, no line is lost or
read twice, and the calls see the replies that the stream spells in order: each call the reply at
its place, once it has arrived and the resolved promises have gone on. -/
theorem smtpReader_framing {session : Session} (hreach : system.Reachable session) :
    (∀ stream lines replies, Spells stream lines replies ↔
        linesOf stream = lines ∧ repliesOf stream = replies) ∧
      (session.settled.map Settled.reply).flatten ++ session.reader.pending =
        linesOf session.received ∧
      (∀ rest, session.settled <+:
        outcomes (repliesOf (session.received ++ rest)) session.issued) ∧
      (session.AtRest → session.settled = outcomes (repliesOf session.received) session.issued) ∧
      ∃ count rested, System.execute Session.next session (List.replicate count .resume) =
          some rested ∧ rested.AtRest ∧
        rested.settled = outcomes (repliesOf session.received) session.issued := by
  have hinv := Inv.reachable hreach
  refine ⟨fun _ _ _ => spells_iff, hinv.lines, hinv.settled_prefix, hinv.settled_of_atRest, ?_⟩
  obtain ⟨count, rested, hrun, hrested, hreceived, hissued⟩ := exists_atRest session
  have hreachRested : system.Reachable rested :=
    hreach.execute (fun _ _ _ hnext => ⟨trivial, hnext⟩) hrun
  refine ⟨count, rested, hrun, hrested, ?_⟩
  rw [← hreceived, ← hissued]
  exact (Inv.reachable hreachRested).settled_of_atRest hrested

/-- A first chunk that ends behind the first digit of the second line of a reply. -/
def firstChunk : List AsciiByte :=
  [⟨50, by decide⟩, ⟨53, by decide⟩, ⟨48, by decide⟩, ⟨45, by decide⟩, ⟨97, by decide⟩,
    ⟨13, by decide⟩, ⟨10, by decide⟩, ⟨50, by decide⟩]

/-- The rest of the reply. -/
def secondChunk : List AsciiByte :=
  [⟨53, by decide⟩, ⟨48, by decide⟩, ⟨32, by decide⟩, ⟨111, by decide⟩, ⟨107, by decide⟩,
    ⟨13, by decide⟩, ⟨10, by decide⟩]

def firstLine : Line := ['2', '5', '0', '-', 'a']

def secondLine : Line := ['2', '5', '0', ' ', 'o', 'k']

/-- The call has waited for the second line, and has got both. -/
def answered : Session :=
  ⟨⟨[], [], none⟩, [⟨.finite 250, [firstLine, secondLine], .ok ()⟩],
    toText firstChunk ++ toText secondChunk, [.finite 250]⟩

theorem onData_firstChunk : Reader.onData ⟨[], [], none⟩ (toText firstChunk) =
    ⟨['2'], [firstLine], none⟩ := by
  have hline : takeLine (toText firstChunk) = some (firstLine, ['2']) := by decide
  rw [Reader.onData, List.nil_append, Reader.dataLoop_of_some hline, Reader.dataLoop_of_none rfl]
  rfl

theorem onData_secondChunk :
    Reader.onData ⟨['2'], [], some ⟨.finite 250, [firstLine], none⟩⟩ (toText secondChunk) =
      ⟨[], [], some ⟨.finite 250, [firstLine], some secondLine⟩⟩ := by
  have hline : takeLine (['2'] ++ toText secondChunk) = some (secondLine, []) := by decide
  rw [Reader.onData, Reader.dataLoop_of_some hline, Reader.dataLoop_of_none rfl]
  rfl

theorem reachable_answered : system.Reachable answered := by
  have hfirst : Session.next ⟨⟨[], [], none⟩, [], [], []⟩ (.data firstChunk) =
      some ⟨⟨['2'], [firstLine], none⟩, [], toText firstChunk, []⟩ := by
    rw [Session.next, onData_firstChunk]
    rfl
  have hread : Session.next ⟨⟨['2'], [firstLine], none⟩, [], toText firstChunk, []⟩
      (.read (.finite 250)) = some ⟨⟨['2'], [], some ⟨.finite 250, [], some firstLine⟩⟩, [],
        toText firstChunk, [.finite 250]⟩ := rfl
  have hwaits : Session.next ⟨⟨['2'], [], some ⟨.finite 250, [], some firstLine⟩⟩, [],
      toText firstChunk, [.finite 250]⟩ .resume =
        some ⟨⟨['2'], [], some ⟨.finite 250, [firstLine], none⟩⟩, [], toText firstChunk,
          [.finite 250]⟩ := rfl
  have hsecond : Session.next ⟨⟨['2'], [], some ⟨.finite 250, [firstLine], none⟩⟩, [],
      toText firstChunk, [.finite 250]⟩ (.data secondChunk) =
        some ⟨⟨[], [], some ⟨.finite 250, [firstLine], some secondLine⟩⟩, [],
          toText firstChunk ++ toText secondChunk, [.finite 250]⟩ := by
    rw [Session.next, onData_secondChunk]
  have hsettles : Session.next ⟨⟨[], [], some ⟨.finite 250, [firstLine], some secondLine⟩⟩, [],
      toText firstChunk ++ toText secondChunk, [.finite 250]⟩ .resume = some answered := by
    have hcode : number (secondLine.take 3) = .finite 250 := by
      have hdigits : ∀ c ∈ secondLine.take 3, c.isDigit = true :=
        List.all_eq_true.mp (by decide)
      rw [number_digits (by decide) hdigits]
      exact ofRat_natCast (by decide : 250 < 2 ^ 53)
    have hcheck : checkLine (.finite 250) secondLine = .ok () := by
      rw [checkLine, hcode]
      decide
    rw [answered, ← hcheck]
    rfl
  exact .step (.step (.step (.step (.step (.init rfl) trivial hfirst) trivial hread) trivial
    hwaits) trivial hsecond) trivial hsettles

theorem answered_spells :
    Spells answered.received [firstLine, secondLine] [[firstLine, secondLine]] := by
  have hfirst : Announces firstLine :=
    ⟨['2', '5', '0'], ['a'], rfl, rfl, List.all_eq_true.mp (by decide)⟩
  have hlast : ¬ Announces secondLine := by
    rw [← isContinuation_iff]
    decide
  refine ⟨⟨[], rfl, by decide, by decide⟩, [], rfl, ?_, by simp⟩
  intro reply hreply
  obtain rfl := List.mem_singleton.mp hreply
  exact ⟨[firstLine], secondLine, rfl, by simpa using hfirst, hlast⟩

theorem firstChunk_framing :
    repliesOf answered.received = [[firstLine, secondLine]] ∧
      outcomes (repliesOf answered.received) answered.issued =
        [⟨.finite 250, [firstLine, secondLine], .ok ()⟩] := by
  obtain ⟨hspells, -, -, hrest, -⟩ := smtpReader_framing reachable_answered
  exact ⟨((hspells _ _ _).mp answered_spells).2, (hrest (by simp [Session.AtRest, answered])).symm⟩

end Notifications.Smtp
