import IsmsPortal.Foundation.Checks
import IsmsPortal.Foundation.Der
import IsmsPortal.Foundation.Numerals
import Mathlib.Data.List.Infix

/-! # Responses of the time-stamp authority

The parser of a response follows the lengths of its elements: the sequence, the status with an
integer in it, and the token. It compares them with the end of the response only, so an integer may
end after the status and a token after the sequence, and it looks at the last byte of the integer
only. These are the responses that it takes although they are not well formed.
-/

namespace Timestamps

open Foundation Der

/-! ## Reading -/

/-- `Buffer.from(text, "hex")`: up to the first pair that is not hexadecimal. -/
def hexBytes : List Char → List UInt8
  | high :: low :: rest =>
      match Numerals.digitValue high, Numerals.digitValue low with
      | some h, some l => UInt8.ofNat (16 * h + l) :: hexBytes rest
      | _, _ => []
  | _ => []

/-- What `readTlv` returns. A tag behind the buffer is undefined, and a place that is computed from
a byte behind it is no number. -/
structure TlvPlaces where
  tag : Option UInt8
  start : Option Nat
  stop : Option Nat
deriving DecidableEq

/-- The bytes of a long length; one that is missing makes the sum no number. -/
def readSize (buffer : List UInt8) (place : Nat) : Nat → Nat → Option Nat
  | 0, size => some size
  | count + 1, size =>
      match buffer[place]? with
      | none => none
      | some byte => readSize buffer (place + 1) count (size * 256 + byte.toNat)

def readTlv (buffer : List UInt8) : Option Nat → Except String TlvPlaces
  | none => .ok { tag := none, start := none, stop := none }
  | some offset =>
      match buffer[offset + 1]? with
      | none => .ok { tag := buffer[offset]?, start := some (offset + 2), stop := none }
      | some first =>
          if first.toNat < 128 then
            let stop := offset + 2 + first.toNat
            if buffer.length < stop then .error "Truncated DER value"
            else .ok { tag := buffer[offset]?, start := some (offset + 2), stop := some stop }
          else
            let count := first.toNat - 128
            if count < 1 ∨ 4 < count then .error "Unsupported DER length"
            else
              let start := offset + 2 + count
              match readSize buffer (offset + 2) count 0 with
              | none => .ok { tag := buffer[offset]?, start := some start, stop := none }
              | some size =>
                  if buffer.length < start + size then .error "Truncated DER value"
                  else .ok { tag := buffer[offset]?, start := some start,
                             stop := some (start + size) }

/-- `buffer.subarray(begin, end)`, where no number counts as zero. -/
def subarray (buffer : List UInt8) (start stop : Option Nat) : List UInt8 :=
  (buffer.take (stop.getD 0)).drop (start.getD 0)

/-- `response[end - 1]`. -/
def byteBefore (response : List UInt8) : Option Nat → Option UInt8
  | none => none
  | some 0 => none
  | some (place + 1) => response[place]?

/-- The texts `YYYYMMDDHHMMSS`, a fraction, and `Z`. -/
def isTimeText (text : List Char) : Bool :=
  (text.take 14).length = 14 && (text.take 14).all Char.isDigit &&
    match text.drop 14 with
    | ['Z'] => true
    | '.' :: rest => rest.getLast? = some 'Z' && rest.dropLast ≠ [] && rest.dropLast.all Char.isDigit
    | _ => false

/-- The first `GeneralizedTime` of a token, as its text. -/
def generalizedTime : List UInt8 → Option (List Char)
  | [] => none
  | byte :: rest =>
      let size := (rest.headD 0).toNat
      let text := ((rest.drop 1).take size).map fun other => Char.ofNat other.toNat
      if rest.length < 16 then none
      else if byte = 0x18 ∧ 15 ≤ size ∧ size ≤ 23 ∧ isTimeText text = true then some text
      else generalizedTime rest

structure TimestampToken where
  token : List UInt8
  genTime : Option (List Char)
deriving DecidableEq

/-- The status in the message of a rejection. -/
def codeText (code : Option UInt8) : String :=
  match code with
  | none => "undefined"
  | some code => toString code.toNat

def parseTimestampResponse (response : List UInt8) (sha256Hex : List Char)
    (nonce : List UInt8) : Except String TimestampToken := do
  let outer ← readTlv response (some 0)
  if outer.tag ≠ some 0x30 then throw "Invalid time-stamp response"
  let status ← readTlv response outer.start
  let statusValue ← readTlv response status.start
  let code := byteBefore response statusValue.stop
  if statusValue.tag ≠ some 0x02 ∨ code.any (1 < ·) = true then
    throw ("Time-stamp request rejected (status " ++ codeText code ++ ")")
  -- A comparison with a place that is no number is false.
  if status.stop.any (fun stop => outer.stop.any (· ≤ stop)) = true then
    throw "Time-stamp token missing"
  let tokenTlv ← readTlv response status.stop
  let token := subarray response status.stop tokenTlv.stop
  if ¬ hexBytes sha256Hex <:+: token then
    throw "Time-stamp token does not cover the requested hash"
  if ¬ nonce <:+: token then throw "Time-stamp nonce mismatch"
  return { token, genTime := generalizedTime token }

/-! ## What a response should be -/

/-- The response starts with a sequence. Its first element starts with an integer that is zero or
one, and the token is its second element. -/
def WellFormed (response digest nonce token : List UInt8) : Prop :=
  ∃ sequence after statusElement status statusTag integerElement value more tokenTag tokenContent
      rest,
    response = sequence ++ after ∧ Tlv 0x30 (statusElement ++ token ++ rest) sequence ∧
    Tlv statusTag status statusElement ∧ status = integerElement ++ more ∧
    Tlv 0x02 value integerElement ∧ (integer value = some 0 ∨ integer value = some 1) ∧
    Tlv tokenTag tokenContent token ∧ digest <:+: token ∧ nonce <:+: token

/-! ## What is read -/

/-- The places of an element: it is complete, or its header ends behind the buffer. -/
inductive ReadAt (buffer : List UInt8) (offset : Nat) (places : TlvPlaces) : Prop
  | complete (tag : UInt8) (content bytes rest : List UInt8) (start : Nat)
      (hplaces : places = ⟨some tag, some start, some (offset + bytes.length)⟩)
      (htlv : Tlv tag content bytes) (hbytes : buffer.drop offset = bytes ++ rest)
      (hcontent : buffer.drop start = content ++ rest)
      (hsize : start + content.length = offset + bytes.length) (hheader : offset + 2 ≤ start)
  | cut (start : Nat) (hplaces : places = ⟨buffer[offset]?, some start, none⟩)
      (hstart : buffer.length < start) (hheader : offset + 2 ≤ start)
      (hnone : ∀ tag content bytes rest, Tlv tag content bytes → buffer.drop offset ≠ bytes ++ rest)

theorem readSize_complete {buffer : List UInt8} {place count : Nat} (size : Nat)
    (h : place + count ≤ buffer.length) :
    readSize buffer place count size = some (((buffer.drop place).take count).foldl
      (fun number byte => number * 256 + byte.toNat) size) := by
  induction count generalizing place size with
  | zero => simp [readSize]
  | succ count ih =>
      have hplace : place < buffer.length := by omega
      rw [readSize, List.getElem?_eq_getElem hplace, List.drop_eq_getElem_cons hplace,
        List.take_succ_cons, List.foldl_cons]
      exact ih (size * 256 + buffer[place].toNat) (by omega)

/-- The first byte of its length says how long an element is at least. -/
theorem le_length_of_tlv {tag tag' first : UInt8} {content bytes rest tail : List UInt8}
    (htlv : Tlv tag content bytes) (hbytes : tag' :: first :: tail = bytes ++ rest) :
    2 + (first.toNat - 128) ≤ bytes.length := by
  obtain ⟨hlength⟩ := htlv
  generalize content.length = n at hlength
  cases hlength with
  | short hn =>
      obtain ⟨-, htail⟩ := List.cons.inj hbytes
      obtain ⟨rfl, -⟩ := List.cons.inj htail
      rw [UInt8.toNat_ofNat', Nat.mod_eq_of_lt (by omega)]
      simp only [List.length_cons, List.length_append, List.length_nil]
      omega
  | @long digits _ hcount =>
      obtain ⟨-, htail⟩ := List.cons.inj hbytes
      obtain ⟨rfl, -⟩ := List.cons.inj htail
      rw [UInt8.toNat_ofNat', Nat.mod_eq_of_lt (by omega)]
      simp only [List.length_cons, List.length_append]
      omega

theorem two_le_length_of_tlv {tag : UInt8} {content bytes : List UInt8}
    (htlv : Tlv tag content bytes) : 2 ≤ bytes.length := by
  obtain ⟨hlength⟩ := htlv
  have hheader := hlength.length_pos
  rw [List.length_cons, List.length_append]
  omega

/-- What is left of a buffer is split at a size. -/
theorem drop_split (buffer : List UInt8) (place size : Nat) :
    buffer.drop place = (buffer.drop place).take size ++ buffer.drop (place + size) := by
  conv_lhs => rw [← List.take_append_drop size (buffer.drop place)]
  rw [List.drop_drop]

/-- An element whose header and content lie in the buffer. -/
theorem readAt_complete {buffer : List UInt8} {offset : Nat} (header : List UInt8) {size : Nat}
    (hlength : LengthBytes size header) (hoffset : offset < buffer.length)
    (hheader : buffer.drop (offset + 1) = header ++ buffer.drop (offset + 1 + header.length))
    (hsize : offset + 1 + header.length + size ≤ buffer.length) (hne : 1 ≤ header.length) :
    ReadAt buffer offset ⟨buffer[offset]?, some (offset + 1 + header.length),
      some (offset + 1 + header.length + size)⟩ := by
  have hcontent : ((buffer.drop (offset + 1 + header.length)).take size).length = size := by
    rw [List.length_take, List.length_drop]
    omega
  have hbytes : (buffer[offset] :: (header ++
      (buffer.drop (offset + 1 + header.length)).take size)).length = 1 + header.length + size := by
    rw [List.length_cons, List.length_append, hcontent]
    omega
  refine .complete buffer[offset] ((buffer.drop (offset + 1 + header.length)).take size)
    (buffer[offset] :: (header ++ (buffer.drop (offset + 1 + header.length)).take size))
    (buffer.drop (offset + 1 + header.length + size)) (offset + 1 + header.length) ?_
    (.mk (by rw [hcontent]; exact hlength)) ?_ (drop_split _ _ _) ?_ (by omega)
  · rw [hbytes, List.getElem?_eq_getElem hoffset]
    congr 2
    omega
  · rw [List.drop_eq_getElem_cons hoffset, hheader, List.cons_append, List.append_assoc,
      ← drop_split]
  · rw [hcontent, hbytes]
    omega

theorem readAt_long {buffer : List UInt8} {offset size : Nat} (hlt : offset + 1 < buffer.length)
    (hlong : ¬ buffer[offset + 1].toNat < 128)
    (hcount : ¬ (buffer[offset + 1].toNat - 128 < 1 ∨ 4 < buffer[offset + 1].toNat - 128))
    (hsize : readSize buffer (offset + 2) (buffer[offset + 1].toNat - 128) 0 = some size)
    (hstop : offset + 2 + (buffer[offset + 1].toNat - 128) + size ≤ buffer.length) :
    ReadAt buffer offset ⟨buffer[offset]?,
      some (offset + 2 + (buffer[offset + 1].toNat - 128)),
      some (offset + 2 + (buffer[offset + 1].toNat - 128) + size)⟩ := by
  generalize hcounted : buffer[offset + 1].toNat - 128 = count at *
  set digits := (buffer.drop (offset + 2)).take count with hdigits
  have hlength : digits.length = count := by
    rw [hdigits, List.length_take, List.length_drop]
    omega
  rw [readSize_complete 0 (by omega)] at hsize
  have hnatural : natural digits = size := Option.some.inj hsize
  have hfirst : UInt8.ofNat (128 + digits.length) = buffer[offset + 1] := by
    have hvalue : 128 + digits.length = buffer[offset + 1].toNat := by omega
    rw [hvalue, UInt8.ofNat_toNat]
  have hbytes : LengthBytes size (buffer[offset + 1] :: digits) := by
    rw [← hnatural, ← hfirst]
    exact .long (by omega) (by omega)
  have hstart : offset + 1 + (buffer[offset + 1] :: digits).length = offset + 2 + count := by
    rw [List.length_cons, hlength]
    omega
  have hheader : buffer.drop (offset + 1) = (buffer[offset + 1] :: digits) ++
      buffer.drop (offset + 1 + (buffer[offset + 1] :: digits).length) := by
    rw [hstart, List.cons_append, hdigits, ← drop_split]
    exact List.drop_eq_getElem_cons hlt
  have hread := readAt_complete _ hbytes (by omega) hheader (by omega) hbytes.length_pos
  rwa [hstart] at hread

theorem readAt_of_readTlv {buffer : List UInt8} {offset : Nat} {places : TlvPlaces}
    (h : readTlv buffer (some offset) = .ok places) : ReadAt buffer offset places := by
  rw [readTlv] at h
  split at h
  next hfirst =>
    obtain rfl := Except.ok.inj h
    rw [List.getElem?_eq_none_iff] at hfirst
    refine .cut (offset + 2) rfl (by omega) (Nat.le_refl _) fun tag content bytes rest htlv hbytes => ?_
    have hsizes := congrArg List.length hbytes
    have htwo := two_le_length_of_tlv htlv
    rw [List.length_drop, List.length_append] at hsizes
    omega
  next first hfirst =>
    obtain ⟨hlt, rfl⟩ := List.getElem?_eq_some_iff.mp hfirst
    have hsplit : buffer.drop (offset + 1) =
        buffer[offset + 1] :: buffer.drop (offset + 2) := List.drop_eq_getElem_cons hlt
    dsimp only at h
    split at h
    next hshort =>
      split at h
      next => cases h
      next hstop =>
        obtain rfl := Except.ok.inj h
        have hlength : LengthBytes buffer[offset + 1].toNat [buffer[offset + 1]] := by
          have hbytes := LengthBytes.short hshort
          rwa [UInt8.ofNat_toNat] at hbytes
        exact readAt_complete _ hlength (by omega) hsplit
          (by rw [List.length_singleton]; omega) (Nat.le_refl 1)
    next hlong =>
      split at h
      next => cases h
      next hcount =>
        split at h
        next hsize =>
          obtain rfl := Except.ok.inj h
          have hend : buffer.length < offset + 2 + (buffer[offset + 1].toNat - 128) := by
            by_contra hle
            rw [readSize_complete 0 (Nat.le_of_not_lt hle)] at hsize
            cases hsize
          refine .cut _ rfl hend (by omega) fun tag content bytes rest htlv hbytes => ?_
          have hstart : buffer.drop offset =
              buffer[offset] :: buffer[offset + 1] :: buffer.drop (offset + 2) := by
            rw [List.drop_eq_getElem_cons (Nat.lt_of_succ_lt hlt), hsplit]
          have hleast := le_length_of_tlv htlv (hstart.symm.trans hbytes)
          have hsizes := congrArg List.length hbytes
          rw [List.length_drop, List.length_append] at hsizes
          omega
        next size hsize =>
          split at h
          next => cases h
          next hstop =>
            obtain rfl := Except.ok.inj h
            exact readAt_long hlt hlong hcount hsize (Nat.le_of_not_lt hstop)

/-! ## What is taken -/

section Taken

variable {response digest nonce : List UInt8} {outer status statusValue tokenTlv : TlvPlaces}

/-- The elements that are read pass the checks of the parser. -/
structure Passes (response digest nonce : List UInt8)
    (outer status statusValue tokenTlv : TlvPlaces) : Prop where
  read_outer : readTlv response (some 0) = .ok outer
  read_status : readTlv response outer.start = .ok status
  read_value : readTlv response status.start = .ok statusValue
  read_token : readTlv response status.stop = .ok tokenTlv
  outer_tag : outer.tag = some 0x30
  value_tag : statusValue.tag = some 0x02
  code : ∀ code ∈ byteBefore response statusValue.stop, code.toNat ≤ 1
  followed : ∀ stop ∈ status.stop, ∀ bound ∈ outer.stop, stop < bound
  digest : digest <:+: subarray response status.stop tokenTlv.stop
  nonce : nonce <:+: subarray response status.stop tokenTlv.stop

/-- The integer of the status ends with it at the latest and has only zeros in front of its last
byte, and the token ends with the sequence at the latest. -/
structure Nested (response : List UInt8) (outer status statusValue tokenTlv : TlvPlaces) :
    Prop where
  value_inside : ∃ stop ∈ statusValue.stop, ∃ bound ∈ status.stop, stop ≤ bound
  value_zeros : ∃ zeros last, subarray response statusValue.start statusValue.stop =
    List.replicate zeros 0 ++ [last]
  token_inside : ∃ stop ∈ tokenTlv.stop, ∃ bound ∈ outer.stop, stop ≤ bound

theorem code_passes_iff {code : Option UInt8} :
    ¬ code.any (1 < ·) = true ↔ ∀ value ∈ code, value.toNat ≤ 1 := by
  cases code with
  | none => simp
  | some code => simp [UInt8.lt_iff_toNat_lt]

theorem followed_iff {stop bound : Option Nat} :
    ¬ stop.any (fun stop => bound.any (· ≤ stop)) = true ↔
      ∀ place ∈ stop, ∀ limit ∈ bound, place < limit := by
  cases stop with
  | none => simp
  | some stop => cases bound <;> simp

theorem parse_eq_ok_iff {sha256Hex : List Char} {result : TimestampToken} :
    parseTimestampResponse response sha256Hex nonce = .ok result ↔
      ∃ outer status statusValue tokenTlv,
        Passes response (hexBytes sha256Hex) nonce outer status statusValue tokenTlv ∧
        result = ⟨subarray response status.stop tokenTlv.stop,
          generalizedTime (subarray response status.stop tokenTlv.stop)⟩ := by
  unfold parseTimestampResponse
  simp only [Checks.accepts_bind, Checks.accepts_if, Checks.accepts_pure, ne_eq, not_not, not_or,
    code_passes_iff, followed_iff]
  constructor
  · rintro ⟨outer, houter, htag, status, hstatus, value, hvalue, ⟨hvalueTag, hcode⟩, hfollowed,
      token, htoken, hdigest, hnonce, rfl⟩
    exact ⟨outer, status, value, token, ⟨houter, hstatus, hvalue, htoken, htag, hvalueTag, hcode,
      hfollowed, hdigest, hnonce⟩, rfl⟩
  · rintro ⟨outer, status, value, token, hpasses, rfl⟩
    exact ⟨outer, hpasses.read_outer, hpasses.outer_tag, status, hpasses.read_status, value,
      hpasses.read_value, ⟨hpasses.value_tag, hpasses.code⟩, hpasses.followed, token,
      hpasses.read_token, hpasses.digest, hpasses.nonce, rfl⟩

/-- What is read at a place where an element starts. -/
theorem ReadAt.of_tlv {buffer : List UInt8} {offset : Nat} {places : TlvPlaces}
    (hread : ReadAt buffer offset places) {tag : UInt8} {content bytes rest : List UInt8}
    (htlv : Tlv tag content bytes) (hbytes : buffer.drop offset = bytes ++ rest) :
    ∃ start, places = ⟨some tag, some start, some (offset + bytes.length)⟩ ∧
      buffer.drop start = content ++ rest ∧ start + content.length = offset + bytes.length ∧
      offset + 2 ≤ start := by
  cases hread with
  | cut _ _ _ _ hnone => exact absurd hbytes (hnone tag content bytes rest htlv)
  | complete tag' content' bytes' rest' start hplaces htlv' hbytes' hcontent hsize hheader =>
      obtain ⟨rfl, rfl, rfl, rfl⟩ := htlv.split htlv' (hbytes.symm.trans hbytes')
      exact ⟨start, hplaces, hcontent, hsize, hheader⟩

theorem ReadAt.tag_eq {buffer : List UInt8} {offset : Nat} {places : TlvPlaces}
    (hread : ReadAt buffer offset places) : places.tag = buffer[offset]? := by
  cases hread with
  | cut _ hplaces _ _ _ => rw [hplaces]
  | complete tag content bytes rest start hplaces htlv hbytes _ _ _ =>
      obtain ⟨hlength⟩ := htlv
      have hhead := congrArg List.head? hbytes
      rw [List.head?_drop] at hhead
      rw [hplaces, hhead]
      rfl

theorem ReadAt.exists_start {buffer : List UInt8} {offset : Nat} {places : TlvPlaces}
    (hread : ReadAt buffer offset places) :
    ∃ start, places.start = some start ∧ offset + 2 ≤ start := by
  cases hread with
  | cut start hplaces _ hheader _ => exact ⟨start, by rw [hplaces], hheader⟩
  | complete _ _ _ _ start hplaces _ _ _ _ hheader => exact ⟨start, by rw [hplaces], hheader⟩

/-- The sequence and its first element, which the checks find complete. -/
structure Layout (response : List UInt8) (outer status : TlvPlaces) where
  (sequence body after element content left : List UInt8)
  statusTag : UInt8
  (start place : Nat)
  outer_eq : outer = ⟨some 0x30, some start, some sequence.length⟩
  sequence_tlv : Tlv 0x30 body sequence
  response_eq : response = sequence ++ after
  body_eq : response.drop start = body ++ after
  body_length : start + body.length = sequence.length
  status_eq : status = ⟨some statusTag, some place, some (start + element.length)⟩
  element_tlv : Tlv statusTag content element
  element_eq : response.drop start = element ++ left
  content_eq : response.drop place = content ++ left
  content_length : place + content.length = start + element.length
  followed : start + element.length < sequence.length

theorem Passes.layout (hpasses : Passes response digest nonce outer status statusValue tokenTlv) :
    Nonempty (Layout response outer status) := by
  have houter := readAt_of_readTlv hpasses.read_outer
  obtain ⟨start, hstart, -⟩ := houter.exists_start
  have hstatusRead := hpasses.read_status
  rw [hstart] at hstatusRead
  have hstatus := readAt_of_readTlv hstatusRead
  obtain ⟨place, hplace, hheader⟩ := hstatus.exists_start
  have hvalueRead := hpasses.read_value
  rw [hplace] at hvalueRead
  -- The tag of the integer lies in the response, and so does all that is before it.
  have htag := (readAt_of_readTlv hvalueRead).tag_eq
  rw [hpasses.value_tag] at htag
  obtain ⟨hinside, -⟩ := List.getElem?_eq_some_iff.mp htag.symm
  have hfollowed := hpasses.followed
  cases houter with
  | cut start' hplaces hcut _ _ =>
      rw [hplaces] at hstart
      obtain rfl := Option.some.inj hstart
      omega
  | complete tag body sequence after start' hplaces htlv hbytes hcontent hsize _ =>
      rw [hplaces] at hstart
      obtain rfl := Option.some.inj hstart
      have houterTag := hpasses.outer_tag
      rw [hplaces] at houterTag
      obtain rfl := Option.some.inj houterTag
      rw [Nat.zero_add] at hplaces hsize
      cases hstatus with
      | cut place' hplaces' hcut _ _ =>
          rw [hplaces'] at hplace
          obtain rfl := Option.some.inj hplace
          omega
      | complete statusTag content element left place' hplaces' htlv' hbytes' hcontent' hsize' _ =>
          rw [hplaces'] at hplace
          obtain rfl := Option.some.inj hplace
          rw [hplaces, hplaces'] at hfollowed
          exact ⟨sequence, body, after, element, content, left, statusTag, start', place', hplaces,
            htlv, hbytes, hcontent, hsize, hplaces', htlv', hbytes', hcontent', hsize',
            hfollowed _ rfl _ rfl⟩

theorem append_split {front back front' back' : List UInt8}
    (heq : front ++ back = front' ++ back') (hle : front.length ≤ front'.length) :
    ∃ between, front' = front ++ between ∧ back = between ++ back' := by
  rcases List.append_eq_append_iff.mp heq with ⟨between, hfront, hback⟩ | ⟨between, hfront, hback⟩
  · exact ⟨between, hfront, hback⟩
  · have hlength := congrArg List.length hfront
    rw [List.length_append] at hlength
    obtain rfl : between = [] := List.length_eq_zero_iff.mp (by omega)
    exact ⟨[], by simpa using hfront.symm, by simpa using hback.symm⟩

theorem subarray_of_drop {buffer bytes rest : List UInt8} {start stop : Nat}
    (hbytes : buffer.drop start = bytes ++ rest) (hstop : start + bytes.length = stop) :
    subarray buffer (some start) (some stop) = bytes := by
  rw [subarray, Option.getD_some, Option.getD_some, List.drop_take, hbytes, ← hstop,
    Nat.add_sub_cancel_left, List.take_left]

theorem drop_of_drop {buffer bytes rest : List UInt8} {start : Nat}
    (hbytes : buffer.drop start = bytes ++ rest) : buffer.drop (start + bytes.length) = rest := by
  rw [← List.drop_drop, hbytes, List.drop_left]

/-- The first element lies in the sequence, and what follows it is what is read next. -/
theorem Layout.exists_rest (layout : Layout response outer status) :
    ∃ rest, layout.body = layout.element ++ rest ∧
      response.drop (layout.start + layout.element.length) = rest ++ layout.after := by
  have hboth := layout.element_eq.symm.trans layout.body_eq
  have hle : layout.element.length ≤ layout.body.length := by
    have hlength := layout.body_length
    have hfollowed := layout.followed
    omega
  obtain ⟨rest, hbody, hleft⟩ := append_split hboth hle
  exact ⟨rest, hbody, by rw [drop_of_drop layout.element_eq, hleft]⟩

/-- The status of a response that is taken is that of a well-formed one if the integer is nested in
it. -/
theorem Passes.value_of_nested
    (hpasses : Passes response digest nonce outer status statusValue tokenTlv)
    (hnested : Nested response outer status statusValue tokenTlv)
    (layout : Layout response outer status) :
    ∃ integerElement value more, layout.content = integerElement ++ more ∧
      Tlv 0x02 value integerElement ∧ (integer value = some 0 ∨ integer value = some 1) := by
  have hvalueRead := hpasses.read_value
  rw [layout.status_eq] at hvalueRead
  have hcode := hpasses.code
  have hinside := hnested.value_inside
  have hzeros := hnested.value_zeros
  have htag := hpasses.value_tag
  cases readAt_of_readTlv hvalueRead with
  | cut _ hplaces _ _ _ =>
      rw [hplaces] at hinside
      obtain ⟨stop, hstop, -⟩ := hinside
      cases hstop
  | complete tag value bytes rest valueStart hplaces htlv hbytes hcontent hsize _ =>
      rw [hplaces] at hcode hinside hzeros htag
      obtain rfl := Option.some.inj htag
      obtain ⟨stop, hstop, bound, hbound, hle⟩ := hinside
      obtain rfl := Option.some.inj hstop
      rw [layout.status_eq] at hbound
      obtain rfl := Option.some.inj hbound
      have hsameLength := layout.content_length
      obtain ⟨more, hmore, -⟩ := append_split (hbytes.symm.trans layout.content_eq) (by omega)
      refine ⟨bytes, value, more, hmore, htlv, integer_le_one_iff.mpr ?_⟩
      obtain ⟨zeros, last, hvalue⟩ := hzeros
      rw [subarray_of_drop hcontent hsize] at hvalue
      refine ⟨zeros, last, hvalue, hcode last ?_⟩
      -- The byte before the end of the integer is its last one.
      have hlast : response[valueStart + zeros]? = some last := by
        rw [← List.getElem?_drop, hcontent, hvalue]
        simp
      have hplace : layout.place + bytes.length = valueStart + zeros + 1 := by
        rw [← hsize, hvalue]
        simp
        omega
      rw [hplace]
      exact hlast

/-- In a well-formed response the parser reads the elements of that response. -/
theorem nested_of_wellFormed
    (hpasses : Passes response digest nonce outer status statusValue tokenTlv)
    (layout : Layout response outer status)
    (htoken : ReadAt response (layout.start + layout.element.length) tokenTlv)
    {sequence after statusElement content integerElement value more token tokenContent others :
      List UInt8} {statusTag tokenTag : UInt8}
    (hresponse : sequence ++ after = layout.sequence ++ layout.after)
    (hsequence : Tlv 0x30 (statusElement ++ token ++ others) sequence)
    (hstatus : Tlv statusTag content statusElement) (hcontent : content = integerElement ++ more)
    (hinteger : Tlv 0x02 value integerElement)
    (hvalue : integer value = some 0 ∨ integer value = some 1)
    (htokenTlv : Tlv tokenTag tokenContent token) :
    Nested response outer status statusValue tokenTlv := by
  obtain ⟨-, hbody, -, -⟩ := hsequence.split layout.sequence_tlv hresponse
  have hstart : layout.element ++ layout.left =
      statusElement ++ (token ++ (others ++ layout.after)) := by
    rw [← layout.element_eq, layout.body_eq, ← hbody, List.append_assoc, List.append_assoc]
  obtain ⟨-, hsame, helement, hleft⟩ := layout.element_tlv.split hstatus hstart
  have hvalueRead := hpasses.read_value
  rw [layout.status_eq] at hvalueRead
  have hinside : response.drop layout.place = integerElement ++ (more ++ layout.left) := by
    rw [layout.content_eq, hsame, hcontent, List.append_assoc]
  obtain ⟨valueStart, hplaces, hdrop, hsize, -⟩ :=
    (readAt_of_readTlv hvalueRead).of_tlv hinteger hinside
  have hnext : response.drop (layout.start + layout.element.length) =
      token ++ (others ++ layout.after) := by
    rw [drop_of_drop layout.element_eq, hleft]
  obtain ⟨tokenStart, htokenPlaces, -⟩ := htoken.of_tlv htokenTlv hnext
  have hcontentLength := layout.content_length
  have hbodyLength := layout.body_length
  have hcontentSize := congrArg List.length (hsame.trans hcontent)
  have hbodySize := congrArg List.length hbody
  rw [List.length_append] at hcontentSize
  rw [List.length_append, List.length_append, ← helement] at hbodySize
  refine ⟨?_, ?_, ?_⟩
  · exact ⟨layout.place + integerElement.length, congrArg TlvPlaces.stop hplaces,
      layout.start + layout.element.length, congrArg TlvPlaces.stop layout.status_eq, by omega⟩
  · obtain ⟨zeros, last, hzeros, -⟩ := integer_le_one_iff.mp hvalue
    rw [hplaces, subarray_of_drop hdrop hsize]
    exact ⟨zeros, last, hzeros⟩
  · exact ⟨layout.start + layout.element.length + token.length,
      congrArg TlvPlaces.stop htokenPlaces, layout.sequence.length,
      congrArg TlvPlaces.stop layout.outer_eq, by omega⟩

/-- Among the responses that are taken, those that are nested are the well-formed ones. -/
theorem Passes.wellFormed_iff
    (hpasses : Passes response digest nonce outer status statusValue tokenTlv) :
    WellFormed response digest nonce (subarray response status.stop tokenTlv.stop) ↔
      Nested response outer status statusValue tokenTlv := by
  obtain ⟨layout⟩ := hpasses.layout
  obtain ⟨rest, hbody, hrest⟩ := layout.exists_rest
  have htokenRead := hpasses.read_token
  rw [layout.status_eq] at htokenRead
  have htoken := readAt_of_readTlv htokenRead
  constructor
  · rintro ⟨sequence, after, statusElement, content, statusTag, integerElement, value, more,
      tokenTag, tokenContent, others, hresponse, hsequence, hstatus, hcontent, hinteger, hvalue,
      htokenTlv, -, -⟩
    exact nested_of_wellFormed hpasses layout htoken (hresponse.symm.trans layout.response_eq) hsequence
      hstatus hcontent hinteger hvalue htokenTlv
  · intro hnested
    obtain ⟨integerElement, value, more, hcontent, hinteger, hvalue⟩ :=
      hpasses.value_of_nested hnested layout
    obtain ⟨stop, hstop, bound, hbound, hle⟩ := hnested.token_inside
    rw [layout.outer_eq] at hbound
    obtain rfl := Option.some.inj hbound
    have hdigest := hpasses.digest
    have hnonce := hpasses.nonce
    cases htoken with
    | cut _ hplaces _ _ _ =>
        rw [hplaces] at hstop
        cases hstop
    | complete tag tokenContent bytes left tokenStart hplaces htlv hbytes _ _ _ =>
        rw [hplaces] at hstop
        obtain rfl := Option.some.inj hstop
        have htokenBytes : subarray response status.stop tokenTlv.stop = bytes := by
          rw [layout.status_eq, hplaces]
          exact subarray_of_drop hbytes rfl
        have hlength := layout.body_length
        have hbodyLength := congrArg List.length hbody
        rw [List.length_append] at hbodyLength
        obtain ⟨others, hothers, -⟩ := append_split (hbytes.symm.trans hrest) (by omega)
        rw [htokenBytes] at hdigest hnonce ⊢
        refine ⟨layout.sequence, layout.after, layout.element, layout.content, layout.statusTag,
          integerElement, value, more, tag, tokenContent, others, layout.response_eq, ?_,
          layout.element_tlv, hcontent, hinteger, hvalue, htlv, hdigest, hnonce⟩
        rw [List.append_assoc, ← hothers, ← hbody]
        exact layout.sequence_tlv

end Taken

/-- A token that is returned is that of a well-formed response exactly if, where the elements that
are read pass the checks, the integer of the status and the token are nested in the elements around
them, with zeros only in front of the last byte of the integer. -/
theorem parse_wellFormed_iff (response : List UInt8) (sha256Hex : List Char)
    (nonce : List UInt8) :
    (∀ result, parseTimestampResponse response sha256Hex nonce = .ok result →
      WellFormed response (hexBytes sha256Hex) nonce result.token) ↔
    ∀ outer status statusValue tokenTlv,
      Passes response (hexBytes sha256Hex) nonce outer status statusValue tokenTlv →
      Nested response outer status statusValue tokenTlv := by
  constructor
  · intro hsound outer status statusValue tokenTlv hpasses
    have hresult := hsound _ (parse_eq_ok_iff.mpr ⟨outer, status, statusValue, tokenTlv, hpasses,
      rfl⟩)
    exact hpasses.wellFormed_iff.mp hresult
  · intro hnested result hresult
    obtain ⟨outer, status, statusValue, tokenTlv, hpasses, rfl⟩ := parse_eq_ok_iff.mp hresult
    exact hpasses.wellFormed_iff.mpr (hnested outer status statusValue tokenTlv hpasses)

/-- A response whose status is the integer 256, the last byte of which is zero. -/
def largeStatusResponse : List UInt8 :=
  [0x30, 0x0a, 0x30, 0x04, 0x02, 0x02, 0x01, 0x00, 0x04, 0x02, 0xab, 0x07]

theorem largeStatus_taken :
    ¬ ∀ result, parseTimestampResponse largeStatusResponse ['a', 'b'] [0x07] = .ok result →
      WellFormed largeStatusResponse (hexBytes ['a', 'b']) [0x07] result.token := by
  intro hsound
  have hpasses : Passes largeStatusResponse (hexBytes ['a', 'b']) [0x07]
      ⟨some 0x30, some 2, some 12⟩ ⟨some 0x30, some 4, some 8⟩ ⟨some 0x02, some 6, some 8⟩
      ⟨some 0x04, some 10, some 12⟩ :=
    { read_outer := rfl
      read_status := rfl
      read_value := rfl
      read_token := rfl
      outer_tag := rfl
      value_tag := rfl
      code := by
        intro code hcode
        obtain rfl := Option.some.inj hcode
        decide
      followed := by
        intro stop hstop bound hbound
        obtain rfl := Option.some.inj hstop
        obtain rfl := Option.some.inj hbound
        decide
      digest := by decide
      nonce := by decide }
  have hnested := hpasses.wellFormed_iff.mp
    (hsound _ (parse_eq_ok_iff.mpr ⟨_, _, _, _, hpasses, rfl⟩))
  obtain ⟨zeros, last, hvalue⟩ := hnested.value_zeros
  have htwo : [(1 : UInt8)] ++ [0] = List.replicate zeros 0 ++ [last] := hvalue
  obtain ⟨hfront, -⟩ := List.append_inj' htwo rfl
  have hmem : (1 : UInt8) ∈ List.replicate zeros 0 := hfront ▸ List.mem_singleton_self 1
  exact absurd (List.eq_of_mem_replicate hmem) (by decide)

end Timestamps
