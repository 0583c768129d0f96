import IsmsPortal.Foundation.NumberText
import IsmsPortal.Timestamps.Response

/-! # Requests to the time-stamp authority

The encoder works on numbers with bitwise operators: lengths and arcs from two to the power of
thirty-one on lose bits, the first two arcs share one byte, and a nonce is sent with its leading
zeros. A request is read back from its bytes where none of this happens. An element of a size below
that is found by the parser of responses behind any bytes.
-/

namespace Timestamps.Request

open Foundation Der Double Numerals

/-! ## The encoder -/

/-- The loop of a length: `value & 0xff` in front of the bytes, then `value >>= 8`. -/
def lengthLoop (value : ℤ) (bytes : List UInt8) : List UInt8 :=
  if _hvalue : 0 < value then
    lengthLoop (shiftRight value 8) (UInt8.ofNat (lowBits value 8) :: bytes)
  else bytes
termination_by value.toNat
decreasing_by
  have hle := int32_le (n := value) (by omega)
  unfold shiftRight
  omega

def length (size : Nat) : List UInt8 :=
  if size < 0x80 then [UInt8.ofNat size]
  else
    let bytes := lengthLoop size []
    UInt8.ofNat (0x80 + bytes.length) :: bytes

def tlv (tag : UInt8) (value : List UInt8) : List UInt8 := tag :: (length value.length ++ value)

def sequence (items : List (List UInt8)) : List UInt8 := tlv 0x30 items.flatten

def integer (value : List UInt8) : List UInt8 :=
  tlv 0x02 (if 0x80 ≤ (value.headD 0).toNat then 0 :: value else value)

/-- The loop of an arc: `(value & 0x7f) | 0x80` in front of the chunk, then `value >>= 7`. -/
def chunkLoop (value : ℤ) (chunk : List UInt8) : List UInt8 :=
  if _hvalue : 0 < value then
    chunkLoop (shiftRight value 7) (UInt8.ofNat (0x80 + lowBits value 7) :: chunk)
  else chunk
termination_by value.toNat
decreasing_by
  have hle := int32_le (n := value) (by omega)
  unfold shiftRight
  omega

def arcBytes (part : Double) : List UInt8 :=
  chunkLoop (shiftRight part.truncated 7) [UInt8.ofNat (lowBits part.truncated 7)]

/-- A part that is missing is no number in the sum. -/
def oid (dotted : List Char) : List UInt8 :=
  let parts := (dotted.splitOn '.').map number
  let first := parts.headD .nan
  let second := parts.tail.headD .nan
  tlv 0x06 (toUint8 (add (mul first (.finite 40)) second) :: (parts.drop 2).flatMap arcBytes)

def SHA256_OID : List Char := "2.16.840.1.101.3.4.2.1".toList

def timestampRequest (sha256Hex : List Char) (nonce : List UInt8) (policy : Option (List Char)) :
    Except String (List UInt8) :=
  let digest := hexBytes sha256Hex
  if digest.length ≠ 32 then .error "A SHA-256 digest is required"
  else .ok (sequence
    [integer [1],
      sequence [sequence [oid SHA256_OID, [0x05, 0x00]], tlv 0x04 digest],
      match policy with
      | none => []
      | some text => if text = [] then [] else oid text,
      integer nonce,
      [0x01, 0x01, 0xff]])

/-- The texts that the settings take as a policy: digits with dots between them, at least one, or
nothing. -/
def acceptsPolicy (text : List Char) : Bool :=
  let parts := text.splitOn '.'
  text = [] || (2 ≤ parts.length && parts.all fun part => part ≠ [] && part.all Char.isDigit)

/-! ## A strict decoder of requests -/

structure TimeStampReq where
  version : ℤ
  hashAlgorithm : List Nat
  hashedMessage : List UInt8
  reqPolicy : Option (List Nat)
  nonce : Option ℤ
  certReq : Bool
  extensions : Option (List UInt8)
deriving DecidableEq

/-- An element that may be missing. -/
def readOptional {α : Type} (tag : UInt8) (read : List UInt8 → Option α) (bytes : List UInt8) :
    Option (Option α × List UInt8) :=
  if bytes.head? = some tag then
    (readElement tag bytes).bind fun (content, rest) =>
      (read content).map fun value => (some value, rest)
  else some (none, bytes)

/-- The algorithm, without parameters or with empty ones, and the digest. -/
def readImprint (bytes : List UInt8) : Option (List Nat × List UInt8) := do
  let (algorithm, bytes) ← readElement 0x30 bytes
  let (identifier, parameters) ← readElement 0x06 algorithm
  let arcs ← readOid identifier
  let (hashedMessage, bytes) ← readElement 0x04 bytes
  if bytes = [] ∧ (parameters = [] ∨ parameters = [0x05, 0x00]) then some (arcs, hashedMessage)
  else none

/-- A truth value that is present is not the default, and true has one form. -/
def readTrue (content : List UInt8) : Option Unit :=
  if content = [0xff] then some () else none

def readBody (bytes : List UInt8) : Option TimeStampReq := do
  let (version, bytes) ← readElement 0x02 bytes
  let version ← readInteger version
  let (imprint, bytes) ← readElement 0x30 bytes
  let (hashAlgorithm, hashedMessage) ← readImprint imprint
  let (reqPolicy, bytes) ← readOptional 0x06 readOid bytes
  let (nonce, bytes) ← readOptional 0x02 readInteger bytes
  let (certReq, bytes) ← readOptional 0x01 readTrue bytes
  let (extensions, bytes) ← readOptional 0xa0 some bytes
  if bytes = [] then
    some { version, hashAlgorithm, hashedMessage, reqPolicy, nonce, certReq := certReq.isSome,
           extensions }
  else none

def decodeRequest (bytes : List UInt8) : Option TimeStampReq :=
  (readElement 0x30 bytes).bind fun (body, rest) => if rest = [] then readBody body else none

/-! ## Lengths -/

theorem lowBits_of_lt {n : Nat} (places : Nat) (hn : n < 2 ^ 31) :
    lowBits (n : ℤ) places = n % 2 ^ places := by
  rw [lowBits, int32_of_lt (by omega) (by omega)]
  norm_cast

theorem shiftRight_of_lt {n : Nat} (places : Nat) (hn : n < 2 ^ 31) :
    shiftRight (n : ℤ) places = ((n / 2 ^ places : Nat) : ℤ) := by
  rw [shiftRight, int32_of_lt (by omega) (by omega)]
  norm_cast

/-- The loop puts the digits of a number in front of the bytes. -/
theorem lengthLoop_eq {n : Nat} (hn : n < 2 ^ 31) (bytes : List UInt8) :
    lengthLoop n bytes = base256 n ++ bytes := by
  induction n using Nat.strongRecOn generalizing bytes with
  | ind n ih =>
    rw [lengthLoop]
    split
    next hpos =>
      have hdigit : UInt8.ofNat (n % 2 ^ 8) = UInt8.ofNat n :=
        UInt8.toNat_inj.mp (by simp)
      rw [shiftRight_of_lt 8 hn, lowBits_of_lt 8 hn, ih _ (by omega) (by omega),
        base256_pos (by omega : n ≠ 0), hdigit, List.append_assoc]
      rfl
    next hzero =>
      obtain rfl : n = 0 := by omega
      rw [base256_zero, List.nil_append]

theorem length_eq {size : Nat} (hsize : size < 2 ^ 31) : length size = lengthBytes size := by
  rw [length, lengthBytes]
  split
  next => rfl
  next => rw [lengthLoop_eq hsize, List.append_nil]

/-- A size below the sign bit is far below what the bytes of a length can count. -/
theorem lt_pow_of_lt {size : Nat} (hsize : size < 2 ^ 31) : size < 256 ^ 126 :=
  hsize.trans_le ((Nat.pow_le_pow_right (by decide) (by decide : 31 ≤ 8 * 126)).trans_eq
    (Nat.pow_mul 2 8 126))

theorem readElement_encoded (tag : UInt8) {value : List UInt8} (hsize : value.length < 2 ^ 31)
    (rest : List UInt8) : readElement tag (tlv tag value ++ rest) = some (value, rest) := by
  rw [tlv, length_eq hsize, readElement_tlv tag (lt_pow_of_lt hsize)]

/-- A larger size is written as one below two to the power of thirty-one. -/
theorem lengthLoop_of_large {size : Nat} (hsize : 2 ^ 31 ≤ size) :
    ∃ digits, lengthLoop size [] = digits ∧ digits.length ≤ 4 ∧ natural digits < 2 ^ 31 := by
  obtain ⟨hlow, hhigh⟩ := int32_bounds size
  have hbyte := (UInt8.ofNat (lowBits size 8)).toNat_lt
  refine ⟨_, rfl, ?_⟩
  rw [lengthLoop, dif_pos (by omega)]
  by_cases hpos : 0 < shiftRight size 8
  · obtain ⟨n, hn⟩ := Int.eq_ofNat_of_zero_le hpos.le
    have hsmall : n < 2 ^ 23 := by
      unfold shiftRight at hn
      omega
    have hcount : (base256 n).length ≤ 3 := length_base256_le (by omega)
    rw [hn, lengthLoop_eq (by omega), natural_concat, natural_base256, List.length_append,
      List.length_singleton]
    omega
  · rw [lengthLoop, dif_neg hpos, natural, List.foldl_cons, List.foldl_nil, List.length_singleton]
    omega

theorem decodeRequest_large {body : List UInt8} (hsize : 2 ^ 31 ≤ body.length) :
    decodeRequest (tlv 0x30 body) = none := by
  obtain ⟨digits, hdigits, hcount, hnumber⟩ := lengthLoop_of_large hsize
  have hbyte : (UInt8.ofNat (0x80 + digits.length)).toNat = 0x80 + digits.length := by
    rw [UInt8.toNat_ofNat', Nat.mod_eq_of_lt (by omega)]
  have htake : (digits ++ body).take digits.length = digits := List.take_left
  have hdrop : (digits ++ body).drop digits.length = body := List.drop_left
  rw [decodeRequest, tlv, length, if_neg (by omega)]
  simp only [hdigits, List.cons_append]
  rw [readElement, if_pos rfl, readLength, hbyte, if_neg (by omega)]
  simp only [Nat.add_sub_cancel_left, htake, hdrop]
  split
  next => rfl
  next =>
    have hrest : body.drop (natural digits) ≠ [] := by
      rw [Ne, List.drop_eq_nil_iff]
      omega
    rw [Option.bind_some]
    dsimp only
    rw [if_neg (by omega), Option.bind_some, if_neg hrest]

theorem decodeRequest_of_lt {body : List UInt8} (hsize : body.length < 2 ^ 31) :
    decodeRequest (tlv 0x30 body) = readBody body := by
  have hread := readElement_encoded 0x30 hsize []
  rw [List.append_nil] at hread
  rw [decodeRequest, hread, Option.bind_some]
  exact if_pos rfl

/-! ## What the parser of responses reads of an element -/

theorem isMinimalLength_length {size : Nat} (hsize : size < 2 ^ 31) {bytes : List UInt8} :
    IsMinimalLength size bytes ↔ bytes = length size := by
  rw [length_eq hsize]
  exact isMinimalLength_iff (lt_pow_of_lt hsize)

theorem readSize_append (front digits rest : List UInt8) :
    readSize (front ++ (digits ++ rest)) front.length digits.length 0 = some (natural digits) := by
  rw [readSize_complete 0 (by simp), List.drop_left, List.take_left]
  rfl

/-- An element behind other bytes, whose length is in the short form. -/
theorem readTlv_short (front rest : List UInt8) (tag : UInt8) {size : Nat} (hsize : size < 128)
    (hrest : size ≤ rest.length) :
    readTlv (front ++ tag :: UInt8.ofNat size :: rest) (some front.length) =
      .ok ⟨some tag, some (front.length + 2), some (front.length + 2 + size)⟩ := by
  have hbyte : (UInt8.ofNat size).toNat = size := by
    rw [UInt8.toNat_ofNat', Nat.mod_eq_of_lt (by omega)]
  have htag : (front ++ tag :: UInt8.ofNat size :: rest)[front.length]? = some tag := by simp
  have hfirst : (front ++ tag :: UInt8.ofNat size :: rest)[front.length + 1]? =
      some (UInt8.ofNat size) := by simp
  have hfits : ¬ (front ++ tag :: UInt8.ofNat size :: rest).length < front.length + 2 + size := by
    simp only [List.length_append, List.length_cons]
    omega
  rw [readTlv, hfirst, htag]
  simp only [hbyte, if_pos hsize, if_neg hfits]

/-- The same with a length in at most four bytes. -/
theorem readTlv_long (front rest : List UInt8) (tag : UInt8) {digits : List UInt8}
    (hpos : 1 ≤ digits.length) (hcount : digits.length ≤ 4) (hrest : natural digits ≤ rest.length) :
    readTlv (front ++ tag :: UInt8.ofNat (128 + digits.length) :: (digits ++ rest))
        (some front.length) =
      .ok ⟨some tag, some (front.length + 2 + digits.length),
        some (front.length + 2 + digits.length + natural digits)⟩ := by
  have hbyte : (UInt8.ofNat (128 + digits.length)).toNat = 128 + digits.length := by
    rw [UInt8.toNat_ofNat', Nat.mod_eq_of_lt (by omega)]
  generalize hbuffer : front ++ tag :: UInt8.ofNat (128 + digits.length) :: (digits ++ rest) = buffer
  have htag : buffer[front.length]? = some tag := by simp [← hbuffer]
  have hfirst : buffer[front.length + 1]? = some (UInt8.ofNat (128 + digits.length)) := by
    simp [← hbuffer]
  have hread : readSize buffer (front.length + 2) digits.length 0 = some (natural digits) := by
    have hread := readSize_append (front ++ [tag, UInt8.ofNat (128 + digits.length)]) digits rest
    simpa [← hbuffer] using hread
  have hfits : ¬ buffer.length < front.length + 2 + digits.length + natural digits := by
    simp only [← hbuffer, List.length_append, List.length_cons]
    omega
  rw [readTlv, hfirst, htag]
  simp only [hbyte, Nat.add_sub_cancel_left, hread, if_neg hfits]
  rw [if_neg (by omega), if_neg (by omega)]

/-- The content of an element behind some bytes starts where its header ends. -/
theorem length_header {value : List UInt8} (tag : UInt8) (front : List UInt8) :
    front.length + (tlv tag value).length - value.length =
      front.length + 1 + (length value.length).length := by
  rw [tlv, List.length_cons, List.length_append]
  omega

theorem subarray_tlv (tag : UInt8) (value front rest : List UInt8) :
    subarray (front ++ tlv tag value ++ rest)
      (some (front.length + (tlv tag value).length - value.length))
      (some (front.length + (tlv tag value).length)) = value := by
  have hstop : front.length + (tlv tag value).length = (front ++ tlv tag value).length := by
    rw [List.length_append]
  have hstart : front.length + 1 + (length value.length).length =
      (front ++ tag :: length value.length).length := by
    rw [List.length_append, List.length_cons]
    omega
  have hsplit : front ++ tlv tag value = front ++ tag :: length value.length ++ value := by
    simp [tlv]
  rw [subarray, length_header, Option.getD_some, Option.getD_some, hstop, List.take_left, hstart,
    hsplit, List.drop_left]

theorem readTlv_encoded (tag : UInt8) (value front rest : List UInt8)
    (hvalue : value.length < 2 ^ 31) :
    readTlv (front ++ tlv tag value ++ rest) (some front.length) =
      .ok ⟨some tag, some (front.length + (tlv tag value).length - value.length),
        some (front.length + (tlv tag value).length)⟩ := by
  have hbytes : front ++ tlv tag value ++ rest =
      front ++ tag :: (length value.length ++ (value ++ rest)) := by
    simp [tlv]
  have hfits : value.length ≤ (value ++ rest).length := by simp
  have hstop : front.length + (tlv tag value).length =
      front.length + 1 + (length value.length).length + value.length := by
    rw [tlv, List.length_cons, List.length_append]
    omega
  rw [length_header, hstop, hbytes, length_eq hvalue, lengthBytes]
  split
  next hsmall =>
    have hread := readTlv_short front (value ++ rest) tag hsmall hfits
    rw [List.singleton_append, hread, List.length_singleton]
  next hlarge =>
    have hcount : (base256 value.length).length ≤ 4 := length_base256_le (by omega)
    have hpos : 1 ≤ (base256 value.length).length := by
      obtain ⟨first, others, hdigits, -⟩ := head_base256 (by omega : value.length ≠ 0)
      simp [hdigits]
    have hread := readTlv_long front (value ++ rest) tag hpos hcount
      (by rw [natural_base256]; exact hfits)
    rw [List.cons_append, hread, natural_base256, List.length_cons]
    congr 3 <;> omega

/-- An element is found behind any bytes and in front of any others, and a length has no form that
is as short. -/
theorem readTlv_tlv (tag : UInt8) (value front rest : List UInt8) (size : Nat)
    (hvalue : value.length < 2 ^ 31) (hsize : size < 2 ^ 31) :
    (∃ start stop, readTlv (front ++ tlv tag value ++ rest) (some front.length) =
        .ok ⟨some tag, some start, some stop⟩ ∧
      start = front.length + (tlv tag value).length - value.length ∧
      stop = front.length + (tlv tag value).length ∧
      subarray (front ++ tlv tag value ++ rest) (some start) (some stop) = value) ∧
    ∀ bytes, IsMinimalLength size bytes ↔ bytes = length size :=
  ⟨⟨_, _, readTlv_encoded tag value front rest hvalue, rfl, rfl,
    subarray_tlv tag value front rest⟩, fun _ => isMinimalLength_length hsize⟩

theorem readTlv_tlv_octets :
    readTlv ([0x30, 6] ++ tlv 0x04 [1, 2, 3] ++ [5]) (some 2) =
        .ok ⟨some 0x04, some 4, some 7⟩ ∧
      ∀ bytes, IsMinimalLength 127 bytes ↔ bytes = length 127 := by
  obtain ⟨⟨start, stop, hread, rfl, rfl, -⟩, hminimal⟩ :=
    readTlv_tlv 0x04 [1, 2, 3] [0x30, 6] [5] 127 (by decide) (by decide)
  exact ⟨hread, hminimal⟩

/-! ## Arcs -/

theorem chunkLoop_eq {n : Nat} (hn : n < 2 ^ 31) (chunk : List UInt8) :
    chunkLoop n chunk = continuation n ++ chunk := by
  induction n using Nat.strongRecOn generalizing chunk with
  | ind n ih =>
    rw [chunkLoop]
    split
    next hpos =>
      rw [shiftRight_of_lt 7 hn, lowBits_of_lt 7 hn, ih _ (by omega) (by omega),
        continuation_pos (by omega : n ≠ 0), List.append_assoc]
      rfl
    next hzero =>
      obtain rfl : n = 0 := by omega
      rw [continuation_zero, List.nil_append]

/-- The number that the bytes of an arc stand for; of a negative number the last group is left. -/
def sentArc (part : Double) : Nat :=
  if 0 ≤ int32 part.truncated then (int32 part.truncated).toNat else lowBits part.truncated 7

theorem arcBytes_eq (part : Double) : arcBytes part = base128 (sentArc part) := by
  obtain ⟨hlow, hhigh⟩ := int32_bounds part.truncated
  rw [arcBytes, sentArc, base128]
  split
  next hpos =>
    obtain ⟨n, hn⟩ := Int.eq_ofNat_of_zero_le hpos
    have hshift : shiftRight part.truncated 7 = ((n / 128 : Nat) : ℤ) := by
      rw [shiftRight, hn]
      norm_cast
    have hbits : lowBits part.truncated 7 = n % 128 := by
      rw [lowBits, hn]
      norm_cast
    rw [hshift, hbits, hn, Int.toNat_natCast, chunkLoop_eq (by omega)]
  next hneg =>
    have hbits : lowBits part.truncated 7 < 128 := by
      unfold lowBits
      omega
    have hshift : ¬ 0 < shiftRight part.truncated 7 := by
      unfold shiftRight
      omega
    rw [chunkLoop, dif_neg hshift, Nat.div_eq_of_lt hbits, Nat.mod_eq_of_lt hbits,
      continuation_zero, List.nil_append]

theorem sentArc_lt (part : Double) : sentArc part < 2 ^ 31 := by
  obtain ⟨hlow, hhigh⟩ := int32_bounds part.truncated
  unfold sentArc lowBits
  split <;> omega

/-- The texts of one arc. -/
def IsArc (part : List Char) : Prop := part ≠ [] ∧ ∀ c ∈ part, c.isDigit = true

theorem sentArc_eq_iff {part : List Char} (hpart : IsArc part) :
    sentArc (number part) = value part ↔ value part < 2 ^ 31 := by
  constructor
  · intro heq
    rw [← heq]
    exact sentArc_lt _
  · intro hsmall
    rw [number_digits hpart.1 hpart.2, ofRat_natCast (by omega), sentArc, truncated_natCast,
      int32_of_lt (by omega) (by omega), if_pos (by omega), Int.toNat_natCast]

theorem map_sentArc_eq_iff {parts : List (List Char)} (hparts : ∀ part ∈ parts, IsArc part) :
    parts.map (fun part => sentArc (number part)) = parts.map value ↔
      ∀ part ∈ parts, value part < 2 ^ 31 := by
  rw [List.map_inj_left]
  exact forall₂_congr fun part hpart => sentArc_eq_iff (hparts part hpart)

/-- The byte of the first two arcs. -/
theorem firstByte_eq {first second : List Char} (hfirst : IsArc first) (hsecond : IsArc second)
    (hsmall : 40 * value first + value second < 128) :
    (toUint8 (add (mul (number first) (.finite 40)) (number second))).toNat =
      40 * value first + value second := by
  have hproduct : (value first : ℚ) * 40 = ((40 * value first : Nat) : ℚ) := by
    push_cast
    ring
  have hsum : ((40 * value first : Nat) : ℚ) + (value second : ℚ) =
      ((40 * value first + value second : Nat) : ℚ) := by
    push_cast
    rfl
  rw [number_digits hfirst.1 hfirst.2, number_digits hsecond.1 hsecond.2,
    ofRat_natCast (by omega), ofRat_natCast (by omega), mul, hproduct, ofRat_natCast (by omega),
    add, hsum, ofRat_natCast (by omega), toUint8, truncated_natCast, UInt8.toNat_ofNat']
  omega

/-- Behind a first byte from 128 on one number is missing. -/
theorem readOid_iff (byte : UInt8) (numbers : List Nat) {first second : Nat} {rest : List Nat}
    (hlength : numbers.length = rest.length) :
    readOid (byte :: numbers.flatMap base128) = some (first :: second :: rest) ↔
      byte.toNat < 128 ∧ firstArcs byte.toNat = [first, second] ∧ numbers = rest := by
  by_cases hbyte : byte.toNat < 128
  · rw [readOid, readNumbers, if_neg (by omega), if_pos hbyte, readNumbers_flatMap,
      Option.map_some]
    have hlist (number : Nat) : ∃ a b, firstArcs number = [a, b] := by
      unfold firstArcs
      split
      · exact ⟨_, _, rfl⟩
      · split <;> exact ⟨_, _, rfl⟩
    obtain ⟨a, b, hab⟩ := hlist byte.toNat
    simp [hab, hbyte, and_assoc]
  · refine iff_of_false ?_ (fun h => hbyte h.1)
    intro hread
    unfold readOid at hread
    split at hread
    next number others hnumbers =>
      have hcount := length_of_readNumbers hnumbers
      rw [List.countP_cons_of_neg (by simpa using hbyte), countP_flatMap_base128] at hcount
      have harcs := congrArg List.length (Option.some.inj hread)
      have htwo : (firstArcs number).length = 2 := by
        unfold firstArcs
        split
        · rfl
        · split <;> rfl
      rw [List.length_append, htwo] at harcs
      simp only [List.length_cons] at hcount harcs
      omega
    next => cases hread

/-! ## Policies -/

/-- The first arc is zero to two, and the second one below forty unless the first is two. -/
def WellRooted : List Nat → Prop
  | first :: second :: _ => first ≤ 2 ∧ (first < 2 → second < 40)
  | _ => False

/-- The first two arcs fit in the bits of a group, the others in those of a signed number, and the
request in a size with a sign. -/
def Encodable : List Nat → Prop
  | first :: second :: rest =>
      40 * first + second < 128 ∧ (∀ arc ∈ rest, arc < 2 ^ 31) ∧
        (rest.flatMap base128).length + 74 < 2 ^ 31
  | _ => False

theorem Encodable.size {arcs : List Nat} (h : Encodable arcs) :
    ((arcs.drop 2).flatMap base128).length + 74 < 2 ^ 31 :=
  match arcs, h with
  | _ :: _ :: _, ⟨_, _, hsize⟩ => hsize

/-- The arcs of a text. -/
def arcs (text : List Char) : List Nat := (text.splitOn '.').map value

theorem exists_parts {text : List Char} (haccepted : acceptsPolicy text = true)
    (hne : text ≠ []) : ∃ first second rest, text.splitOn '.' = first :: second :: rest ∧
      IsArc first ∧ IsArc second ∧ ∀ part ∈ rest, IsArc part := by
  simp only [acceptsPolicy, Bool.or_eq_true, Bool.and_eq_true, decide_eq_true_eq,
    List.all_eq_true, hne, false_or] at haccepted
  obtain ⟨hcount, hparts⟩ := haccepted
  match hsplit : text.splitOn '.', hcount with
  | first :: second :: rest, _ =>
      rw [hsplit] at hparts
      exact ⟨first, second, rest, rfl, hparts first (by simp), hparts second (by simp),
        fun part hpart => hparts part (by simp [hpart])⟩

/-- The identifier of a policy is read as its arcs if they fit. -/
theorem exists_oid (text : List Char) (haccepted : acceptsPolicy text = true) (hne : text ≠ [])
    (hrooted : WellRooted (arcs text)) :
    ∃ content, oid text = tlv 0x06 content ∧
      (content.length + 73 < 2 ^ 31 →
        (readOid content = some (arcs text) ↔ Encodable (arcs text))) ∧
      (Encodable (arcs text) →
        content.length = (((arcs text).drop 2).flatMap base128).length + 1) := by
  obtain ⟨first, second, rest, hsplit, hfirst, hsecond, hrest⟩ := exists_parts haccepted hne
  have harcs : arcs text = value first :: value second :: rest.map value := by
    rw [arcs, hsplit, List.map_cons, List.map_cons]
  have hbytes : (rest.map number).flatMap arcBytes =
      (rest.map fun part => sentArc (number part)).flatMap base128 := by
    rw [List.flatMap_map, List.flatMap_map]
    exact List.flatMap_congr fun part _ => arcBytes_eq _
  refine ⟨_, by rw [oid, hsplit], ?_⟩
  rw [harcs] at hrooted ⊢
  obtain ⟨htwo, hforty⟩ := hrooted
  rw [List.map_cons, List.map_cons, List.drop_succ_cons, List.drop_succ_cons, List.drop_zero,
    hbytes, readOid_iff _ _ (by simp), firstArcs_iff htwo hforty, map_sentArc_eq_iff hrest,
    List.length_cons]
  constructor
  · intro hsize
    constructor
    · rintro ⟨hbyte, hroot, hsmall⟩
      rw [(map_sentArc_eq_iff hrest).mpr hsmall] at hsize
      exact ⟨hroot ▸ hbyte, List.forall_mem_map.mpr hsmall, by omega⟩
    · rintro ⟨hroot, hsmall, -⟩
      have hbyte := firstByte_eq hfirst hsecond hroot
      exact ⟨hbyte.trans_lt hroot, hbyte, List.forall_mem_map.mp hsmall⟩
  · rintro ⟨-, hsmall, -⟩
    rw [(map_sentArc_eq_iff hrest).mpr (List.forall_mem_map.mp hsmall)]
    rfl

/-! ## Requests -/

/-- The arcs of the algorithm. -/
def sha256Arcs : List Nat := [2, 16, 840, 1, 101, 3, 4, 2, 1]

theorem exists_oid_sha256 : ∃ content, oid SHA256_OID = tlv 0x06 content ∧
    readOid content = some sha256Arcs ∧ content.length = 9 := by
  have harcs : arcs SHA256_OID = sha256Arcs := by decide
  have hsize : ((sha256Arcs.drop 2).flatMap base128).length = 8 := by
    simp [sha256Arcs, base128, continuation]
  have hencodable : Encodable (arcs SHA256_OID) := by
    rw [harcs]
    refine ⟨by decide, by decide, ?_⟩
    change ((sha256Arcs.drop 2).flatMap base128).length + 74 < 2 ^ 31
    rw [hsize]
    decide
  obtain ⟨content, hoid, hread, hlength⟩ := exists_oid SHA256_OID (by decide) (by decide)
    (by rw [harcs]; exact ⟨by decide, by decide⟩)
  have hnine := hlength hencodable
  rw [harcs, hsize] at hnine
  rw [harcs] at hread hencodable
  exact ⟨content, hoid, (hread (by omega)).mpr hencodable, hnine⟩

theorem length_tlv {tag : UInt8} {value : List UInt8} (hsmall : value.length < 0x80) :
    (tlv tag value).length = value.length + 2 := by
  rw [tlv, length, if_pos hsmall]
  simp

theorem readOptional_encoded {α : Type} (tag : UInt8) (read : List UInt8 → Option α)
    {value : List UInt8} (hsize : value.length < 2 ^ 31) (rest : List UInt8) :
    readOptional tag read (tlv tag value ++ rest) =
      (read value).map fun result => (some result, rest) := by
  rw [readOptional, if_pos (by rfl), readElement_encoded tag hsize, Option.bind_some]

theorem readOptional_other {α : Type} {tag other : UInt8} (read : List UInt8 → Option α)
    (hother : other ≠ tag) (value rest : List UInt8) :
    readOptional tag read (tlv other value ++ rest) = some (none, tlv other value ++ rest) := by
  rw [readOptional, if_neg]
  intro hhead
  exact hother (Option.some.inj hhead)

/-- The second element of a request. -/
def imprint (digest : List UInt8) : List UInt8 :=
  sequence [sequence [oid SHA256_OID, [0x05, 0x00]], tlv 0x04 digest]

theorem exists_imprint {digest : List UInt8} (hdigest : digest.length = 32) :
    ∃ content, imprint digest = tlv 0x30 content ∧ content.length = 49 ∧
      readImprint content = some (sha256Arcs, digest) := by
  obtain ⟨identifier, hoid, hread, hlength⟩ := exists_oid_sha256
  have hidentifier : (tlv 0x06 identifier).length = 11 := by
    rw [length_tlv (by omega), hlength]
  have halgorithm : (tlv 0x06 identifier ++ [0x05, 0x00]).length = 13 := by
    rw [List.length_append, hidentifier]
    rfl
  have hdigestTlv : (tlv 0x04 digest).length = 34 := by
    rw [length_tlv (by omega), hdigest]
  refine ⟨tlv 0x30 (tlv 0x06 identifier ++ [0x05, 0x00]) ++ tlv 0x04 digest, ?_, ?_, ?_⟩
  · simp [imprint, sequence, hoid]
  · rw [List.length_append, length_tlv (by omega), halgorithm, hdigestTlv]
  · have hlast := readElement_encoded 0x04 (by omega : digest.length < 2 ^ 31) []
    rw [List.append_nil] at hlast
    simp only [readImprint, readElement_encoded 0x30 (by omega :
        (tlv 0x06 identifier ++ [0x05, 0x00]).length < 2 ^ 31),
      readElement_encoded 0x06 (by omega : identifier.length < 2 ^ 31), hread, hlast,
      Option.bind_eq_bind, Option.bind_some]
    rfl
/-- The policy as it is asked for: an empty text asks for none. -/
def reqPolicy : Option (List Char) → Option (List Nat)
  | none => none
  | some text => if text = [] then none else some (arcs text)

/-- The third element of a request, if there is one. -/
def policyBytes : Option (List Char) → List UInt8
  | none => []
  | some text => if text = [] then [] else oid text

/-- What is asked for. -/
def asked (digest nonce : List UInt8) (policy : Option (List Nat)) : TimeStampReq where
  version := 1
  hashAlgorithm := sha256Arcs
  hashedMessage := digest
  reqPolicy := policy
  nonce := some (natural nonce)
  certReq := true
  extensions := none

theorem readInteger_nonnegative {bytes : List UInt8} (hne : bytes ≠ [])
    (hsign : (bytes.headD 0).toNat < 128) :
    readInteger bytes = if IsMinimal bytes then some (natural bytes : ℤ) else none := by
  obtain ⟨first, rest, rfl⟩ := List.exists_cons_of_ne_nil hne
  have hinteger : Der.integer (first :: rest) = some (natural (first :: rest) : ℤ) := by
    rw [integer_cons, if_pos (show first.toNat < 128 from hsign)]
  rw [readInteger, hinteger]

section Body

variable {digest nonce : List UInt8}

/-- The elements of a request with the bytes of the policy. -/
def requestBody (digest nonce policy : List UInt8) : List UInt8 :=
  tlv 0x02 [1] ++ (imprint digest ++ (policy ++ (tlv 0x02 nonce ++ tlv 0x01 [0xff])))

theorem length_requestBody (hdigest : digest.length = 32) (hnonce : nonce.length = 8)
    (policy : List UInt8) : (requestBody digest nonce policy).length = policy.length + 67 := by
  obtain ⟨content, himprint, hlength, -⟩ := exists_imprint hdigest
  have himprintLength : (imprint digest).length = 51 := by
    rw [himprint, length_tlv (by omega), hlength]
  have hnonceLength : (tlv 0x02 nonce).length = 10 := by
    rw [length_tlv (by omega), hnonce]
  have hversion : (tlv 0x02 [1]).length = 3 := rfl
  have htrue : (tlv 0x01 [0xff]).length = 3 := rfl
  simp only [requestBody, List.length_append, himprintLength, hnonceLength, hversion, htrue]
  omega

/-- What is read after the policy. -/
theorem readBody_eq (hdigest : digest.length = 32) (hnonce : nonce.length = 8)
    (hsign : (nonce.headD 0).toNat < 128) (policy : List UInt8) (arcs : Option (Option (List Nat)))
    (hpolicy : ∀ rest, readOptional 0x06 readOid (policy ++ (tlv 0x02 nonce ++ rest)) =
      arcs.map fun arcs => (arcs, tlv 0x02 nonce ++ rest)) :
    readBody (requestBody digest nonce policy) =
      if IsMinimal nonce then arcs.map (asked digest nonce) else none := by
  obtain ⟨content, himprint, hlength, hread⟩ := exists_imprint hdigest
  have hinteger := readInteger_nonnegative (List.ne_nil_of_length_eq_add_one hnonce) hsign
  simp only [readBody, requestBody, himprint,
    readElement_encoded 0x02 (by decide : [(1 : UInt8)].length < 2 ^ 31),
    readElement_encoded 0x30 (by omega : content.length < 2 ^ 31), hread, hpolicy,
    Option.bind_eq_bind, Option.bind_some]
  cases arcs with
  | none => simp
  | some arcs =>
      simp only [Option.map_some, Option.bind_some,
        readOptional_encoded 0x02 readInteger (by omega : nonce.length < 2 ^ 31), hinteger]
      split
      next => rfl
      next => rfl

end Body

theorem timestampRequest_eq {sha256Hex : List Char} {nonce : List UInt8}
    (hdigest : (hexBytes sha256Hex).length = 32) (hsign : (nonce.headD 0).toNat < 128)
    (policy : Option (List Char)) :
    timestampRequest sha256Hex nonce policy =
      .ok (tlv 0x30 (requestBody (hexBytes sha256Hex) nonce (policyBytes policy))) := by
  have hnonce : integer nonce = tlv 0x02 nonce := by
    rw [integer, if_neg (by omega)]
  unfold timestampRequest
  rw [if_neg (not_not.mpr hdigest), hnonce]
  cases policy <;> simp [requestBody, policyBytes, imprint, sequence] <;> rfl

/-- A digest as it is stored. -/
def IsDigest (text : List Char) : Prop :=
  text.length = 64 ∧ ∀ c ∈ text, (digitValue c).isSome = true

theorem length_hexBytes {count : Nat} {text : List Char} (hlength : text.length = 2 * count)
    (hdigits : ∀ c ∈ text, (digitValue c).isSome = true) : (hexBytes text).length = count := by
  induction count generalizing text with
  | zero =>
      obtain rfl := List.length_eq_zero_iff.mp hlength
      rfl
  | succ count ih =>
      match text, hlength with
      | high :: low :: rest, hlength =>
          obtain ⟨h, hh⟩ := Option.isSome_iff_exists.mp (hdigits high (by simp))
          obtain ⟨l, hl⟩ := Option.isSome_iff_exists.mp (hdigits low (by simp))
          simp only [List.length_cons] at hlength
          simp only [hexBytes, hh, hl, List.length_cons]
          rw [ih (by omega) fun c hc => hdigits c (by simp [hc])]

/-- The size of a policy and the size of a request with it. -/
theorem length_policy_iff (content : List UInt8) :
    (tlv 0x06 content).length + 67 < 2 ^ 31 ↔ content.length + 73 < 2 ^ 31 := by
  have htlv : (tlv 0x06 content).length = (length content.length).length + content.length + 1 := by
    rw [tlv, List.length_cons, List.length_append]
  by_cases hlarge : content.length < 2 ^ 31
  · by_cases hsmall : content.length < 2 ^ 24
    · have hheader : (length content.length).length ≤ 4 := by
        rw [length_eq hlarge, lengthBytes]
        split
        · simp
        · have hcount : (base256 content.length).length ≤ 3 := length_base256_le (by omega)
          rw [List.length_cons]
          omega
      omega
    · have hheader : (length content.length).length = 5 := by
        have hcount : (base256 content.length).length ≤ 4 := length_base256_le (by omega)
        have hmore : ¬ (base256 content.length).length ≤ 3 := by
          intro hthree
          have hbound := natural_lt (base256 content.length)
          have hpower := Nat.pow_le_pow_right (by decide : 0 < 256) hthree
          rw [natural_base256] at hbound
          omega
        rw [length_eq hlarge, lengthBytes, if_neg (by omega), List.length_cons]
        omega
      omega
  · omega

/-- A request is read back as what is asked for exactly if the nonce has no leading zeros and the
policy is encodable. -/
theorem request_decoded_iff {sha256Hex : List Char} {nonce : List UInt8}
    {policy : Option (List Char)} (hdigest : IsDigest sha256Hex) (hnonce : nonce.length = 8)
    (hsign : (nonce.headD 0).toNat < 128)
    (haccepted : ∀ text, policy = some text → acceptsPolicy text = true)
    (hrooted : ∀ arcs, reqPolicy policy = some arcs → WellRooted arcs) :
    ∃ bytes, timestampRequest sha256Hex nonce policy = .ok bytes ∧
      (decodeRequest bytes = some (asked (hexBytes sha256Hex) nonce (reqPolicy policy)) ↔
        IsMinimal nonce ∧ ∀ arcs, reqPolicy policy = some arcs → Encodable arcs) := by
  have hlength : (hexBytes sha256Hex).length = 32 := length_hexBytes hdigest.1 hdigest.2
  refine ⟨_, timestampRequest_eq hlength hsign policy, ?_⟩
  have hsize := length_requestBody hlength hnonce (policyBytes policy)
  by_cases hnone : reqPolicy policy = none
  · have hbytes : policyBytes policy = [] := by
      cases policy with
      | none => rfl
      | some text =>
          by_cases htext : text = []
          · rw [policyBytes, if_pos htext]
          · rw [reqPolicy, if_neg htext] at hnone
            cases hnone
    have hbody := readBody_eq hlength hnonce hsign [] (some none)
      fun rest => readOptional_other readOid (by decide) nonce rest
    rw [hbytes] at hsize ⊢
    rw [decodeRequest_of_lt (by rw [hsize]; decide), hbody, hnone]
    by_cases hminimal : IsMinimal nonce <;> simp [hminimal]
  · obtain ⟨text, rfl, htext⟩ : ∃ text, policy = some text ∧ text ≠ [] := by
      cases policy with
      | none => exact absurd rfl hnone
      | some text =>
          refine ⟨text, rfl, fun htext => hnone ?_⟩
          rw [reqPolicy, if_pos htext]
    have hpolicy : reqPolicy (some text) = some (arcs text) := if_neg htext
    obtain ⟨content, hoid, hread, hcontent⟩ :=
      exists_oid text (haccepted text rfl) htext (hrooted _ hpolicy)
    have hbytes : policyBytes (some text) = tlv 0x06 content := by
      rw [policyBytes, if_neg htext, hoid]
    rw [hbytes] at hsize ⊢
    have hiff := length_policy_iff content
    simp only [hpolicy, Option.some.injEq, forall_eq']
    by_cases hfits : content.length + 73 < 2 ^ 31
    · have hbody := readBody_eq hlength hnonce hsign (tlv 0x06 content)
        ((readOid content).map some) fun rest => by
          rw [readOptional_encoded 0x06 readOid (by omega), Option.map_map]
          rfl
      rw [decodeRequest_of_lt (by omega), hbody, ← hread hfits]
      by_cases hminimal : IsMinimal nonce
      · cases readOid content <;> simp [hminimal, asked]
      · simp [hminimal]
    · rw [decodeRequest_large (by omega)]
      refine iff_of_false (by simp) fun h => hfits ?_
      have hsmall := h.2.size
      rw [hcontent h.2]
      omega

/-- A nonce with bits in its first byte and a policy with small arcs. -/
theorem smallPolicy_decoded_iff :
    ∃ bytes, timestampRequest (List.replicate 64 'a') [0x70, 1, 2, 3, 4, 5, 6, 7]
        (some "1.3.6.1".toList) = .ok bytes ∧
      (decodeRequest bytes = some (asked (hexBytes (List.replicate 64 'a'))
          [0x70, 1, 2, 3, 4, 5, 6, 7] (reqPolicy (some "1.3.6.1".toList))) ↔
        IsMinimal [0x70, 1, 2, 3, 4, 5, 6, 7] ∧
          ∀ arcs, reqPolicy (some "1.3.6.1".toList) = some arcs → Encodable arcs) := by
  refine request_decoded_iff ⟨List.length_replicate, ?_⟩ rfl (by decide) ?_ ?_
  · intro c hc
    rw [List.eq_of_mem_replicate hc]
    rfl
  · intro text htext
    rw [← Option.some.inj htext]
    decide
  · intro arcs harcs
    rw [← Option.some.inj harcs]
    exact ⟨by decide, by decide⟩

/-- A nonce with a leading zero is not read back. -/
theorem leadingZero_notDecoded :
    ¬ ∃ bytes, timestampRequest (List.replicate 64 'a') [0, 1, 2, 3, 4, 5, 6, 7] none = .ok bytes ∧
      decodeRequest bytes = some (asked (hexBytes (List.replicate 64 'a'))
        [0, 1, 2, 3, 4, 5, 6, 7] (reqPolicy none)) := by
  rintro ⟨bytes, hbytes, hdecoded⟩
  have hlength : (hexBytes (List.replicate 64 'a')).length = 32 := rfl
  rw [timestampRequest_eq hlength (by decide)] at hbytes
  have hsize := length_requestBody hlength
    (rfl : ([0, 1, 2, 3, 4, 5, 6, 7] : List UInt8).length = 8) []
  have hbody := readBody_eq hlength
    (rfl : ([0, 1, 2, 3, 4, 5, 6, 7] : List UInt8).length = 8) (by decide) [] (some none)
    fun rest => readOptional_other readOid (by decide) _ rest
  rw [← Except.ok.inj hbytes, policyBytes, decodeRequest_of_lt (by rw [hsize]; decide), hbody,
    if_neg (by decide)] at hdecoded
  cases hdecoded

end Timestamps.Request
