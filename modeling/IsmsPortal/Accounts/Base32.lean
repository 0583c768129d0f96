import IsmsPortal.Foundation.Regrouping
import Mathlib.Data.List.DropRight

/-! # Secrets of the second factor

A secret is drawn as bytes, shown to its user in Base32 and kept in that form. Every check of a code
decodes it again, whatever the case it is written in and however many signs of padding follow it.
-/

namespace Accounts.Base32

open Foundation.Regrouping

def base32Alphabet : List Char := "ABCDEFGHIJKLMNOPQRSTUVWXYZ234567".toList

/-- `toUpperCase` of the runtime: other characters follow its tables, those of ASCII are known. -/
structure UpperCasing where
  toUpperCase : List Char → List Char
  ascii : ∀ text, (∀ c ∈ text, c.toNat < 128) → toUpperCase text = text.map Char.toUpper

section Codes

variable (casing : UpperCasing)

/-- The place of a character in the alphabet; any other one is refused. -/
def indexOf (character : Char) : Option Nat :=
  if base32Alphabet.idxOf character < base32Alphabet.length then
    some (base32Alphabet.idxOf character)
  else none

def decodeBase32 (value : List Char) : Option (List UInt8) := do
  let indices ← (casing.toUpperCase (value.rdropWhile (· == '='))).mapM indexOf
  let bits := indices.flatMap (binary 5)
  return (fullGroups 8 bits).map fun byte => UInt8.ofNat (Nat.ofDigitChars 2 byte 0)

def encodeBase32 (value : List UInt8) : List Char :=
  let bits := value.flatMap fun byte => binary 8 byte.toNat
  (allGroups 5 bits).flatMap fun part =>
    (base32Alphabet[Nat.ofDigitChars 2 (part.rightpad 5 '0') 0]?).toList

/-- The secret is drawn as twenty bytes. -/
def newMfaSecret (randomBytes : Vector UInt8 20) : List Char := encodeBase32 randomBytes.toList

/-- `Buffer.writeBigUInt64BE`. -/
def bigUInt64BE (counter : Nat) : List UInt8 :=
  (List.range 8).map fun i => UInt8.ofNat (counter / 256 ^ (7 - i))

/-- `Buffer.readUInt32BE`. -/
def readUInt32BE (digest : Vector UInt8 20) (offset : Nat) : Nat :=
  ((digest.toList.drop offset).take 4).foldl (fun value byte => value * 256 + byte.toNat) 0

/-- The code of a key at a time; `createHmac` is the keyed digest of SHA-1. -/
def totpOfKey (createHmac : List UInt8 → List UInt8 → Vector UInt8 20) (key : List UInt8)
    (timestamp : Nat) : List Char :=
  let digest := createHmac key (bigUInt64BE (timestamp / 30000))
  let offset := digest[19].toNat % 16
  (Nat.toDigits 10 (readUInt32BE digest offset % 2 ^ 31 % 1000000)).leftpad 6 '0'

def totp (createHmac : List UInt8 → List UInt8 → Vector UInt8 20) (secret : List Char)
    (timestamp : Nat) : Option (List Char) :=
  (decodeBase32 casing secret).map fun key => totpOfKey createHmac key timestamp

end Codes

/-! ## The alphabet -/

theorem indexOf_alphabet {i : Nat} (hi : i < base32Alphabet.length) :
    indexOf base32Alphabet[i] = some i := by
  have hnodup : base32Alphabet.Nodup := by decide
  rw [indexOf, hnodup.idxOf_getElem i hi, if_pos hi]

/-- The characters of the alphabet are upper case, and no padding is among them. -/
theorem alphabet_upper {c : Char} (hc : c ∈ base32Alphabet) :
    c.toNat < 128 ∧ c.toUpper = c ∧ (c == '=') = false := by
  have hall : base32Alphabet.all (fun c =>
      decide (c.toNat < 128 ∧ c.toUpper = c ∧ (c == '=') = false)) = true := by decide
  exact of_decide_eq_true (List.all_eq_true.mp hall c hc)

/-- A letter of ASCII, whose lower case has the same upper case. -/
theorem toUpper_toLower {c : Char} (hc : c.toNat < 128) :
    c.toLower.toUpper = c.toUpper ∧ c.toLower.toNat < 128 ∧ (c.toLower = '=' → c = '=') := by
  have hall : ∀ n < 128, (Char.ofNat n).toLower.toUpper = (Char.ofNat n).toUpper ∧
      (Char.ofNat n).toLower.toNat < 128 ∧
      ((Char.ofNat n).toLower = '=' → Char.ofNat n = '=') := by decide
  simpa only [Char.ofNat_toNat] using hall c.toNat hc

/-! ## Decoding -/

/-- Any number of signs of padding is dropped. -/
theorem decodeBase32_padding (casing : UpperCasing) (text : List Char) (count : Nat) :
    decodeBase32 casing (text ++ List.replicate count '=') = decodeBase32 casing text := by
  have hdrop : (text ++ List.replicate count '=').rdropWhile (· == '=') =
      text.rdropWhile (· == '=') := by
    induction count with
    | zero => rw [List.replicate_zero, List.append_nil]
    | succ count ih =>
        rw [List.replicate_succ', ← List.append_assoc,
          List.rdropWhile_concat_pos _ _ _ (by decide), ih]
  rw [decodeBase32, hdrop, decodeBase32]

/-- The padding of a text of ASCII is that of its lower case. -/
theorem rdropWhile_toLower {text : List Char} (htext : ∀ c ∈ text, c.toNat < 128) :
    (text.map Char.toLower).rdropWhile (· == '=') =
      (text.rdropWhile (· == '=')).map Char.toLower := by
  -- Induction from the end, where the padding stands.
  induction text using List.reverseRecOn with
  | nil => rfl
  | append_singleton front c ih =>
      have hfront := ih fun d hd => htext d (List.mem_append_left _ hd)
      rw [List.map_append, List.map_singleton]
      by_cases hc : c = '='
      · subst hc
        rw [List.rdropWhile_concat_pos _ _ _ (by decide),
          List.rdropWhile_concat_pos _ _ _ (by decide), hfront]
      · have hlower : c.toLower ≠ '=' := fun h =>
          hc ((toUpper_toLower (htext c (by simp))).2.2 h)
        rw [List.rdropWhile_concat_neg _ _ _ (by simpa using hlower),
          List.rdropWhile_concat_neg _ _ _ (by simpa using hc), List.map_append,
          List.map_singleton]

/-- A text of ASCII and its lower case are decoded alike. -/
theorem decodeBase32_toLower (casing : UpperCasing) {text : List Char}
    (htext : ∀ c ∈ text, c.toNat < 128) :
    decodeBase32 casing (text.map Char.toLower) = decodeBase32 casing text := by
  have hkept : ∀ c ∈ text.rdropWhile (· == '='), c.toNat < 128 := fun c hc =>
    htext c ((List.rdropWhile_prefix _ _).subset hc)
  have hupper : casing.toUpperCase ((text.rdropWhile (· == '=')).map Char.toLower) =
      casing.toUpperCase (text.rdropWhile (· == '=')) := by
    have hlower : ∀ c ∈ (text.rdropWhile (· == '=')).map Char.toLower, c.toNat < 128 := by
      intro c hc
      obtain ⟨d, hd, rfl⟩ := List.mem_map.mp hc
      exact (toUpper_toLower (hkept d hd)).2.1
    rw [casing.ascii _ hlower, casing.ascii _ hkept, List.map_map]
    exact List.map_congr_left fun c hc => (toUpper_toLower (hkept c hc)).1
  rw [decodeBase32, rdropWhile_toLower htext, hupper, decodeBase32]

/-! ## Encoding -/

/-- The bits of a text of bytes. -/
theorem isBinary_bits (value : List UInt8) :
    IsBinary (value.flatMap fun byte => binary 8 byte.toNat) := by
  intro c hc
  obtain ⟨byte, -, hmem⟩ := List.mem_flatMap.mp hc
  exact isBinary_binary 8 byte.toNat c hmem

/-- A group that is padded has five bits, and its number is the place of its character. -/
theorem padded_group {part : List Char} (hpart : IsBinary part) (hlength : part.length ≤ 5) :
    (part.rightpad 5 '0').length = 5 ∧ Nat.ofDigitChars 2 (part.rightpad 5 '0') 0 < 32 ∧
      binary 5 (Nat.ofDigitChars 2 (part.rightpad 5 '0') 0) = part.rightpad 5 '0' := by
  have hfive : (part.rightpad 5 '0').length = 5 := by
    rw [List.length_rightpad]
    omega
  have hbinary : IsBinary (part.rightpad 5 '0') := by
    intro c hc
    rcases List.mem_append.mp hc with hold | hnew
    · exact hpart c hold
    · exact .inl (List.eq_of_mem_replicate hnew)
  have hbits := binary_ofDigitChars hbinary (List.ne_nil_of_length_pos (by omega))
  rw [hfive] at hbits
  have hlt := ofDigitChars_lt hbinary
  rw [hfive] at hlt
  exact ⟨hfive, hlt, hbits⟩

/-- The characters of groups, which are read back as the bits of the padded groups. -/
theorem mapM_indexOf_groups {parts : List (List Char)}
    (hparts : ∀ part ∈ parts, IsBinary part ∧ part.length ≤ 5) :
    ∃ indices, (parts.flatMap fun part =>
        (base32Alphabet[Nat.ofDigitChars 2 (part.rightpad 5 '0') 0]?).toList).mapM indexOf =
          some indices ∧
      indices.flatMap (binary 5) = (parts.map (List.rightpad 5 '0')).flatten := by
  induction parts with
  | nil => exact ⟨[], rfl, rfl⟩
  | cons part parts ih =>
      obtain ⟨indices, hindices, hbits⟩ :=
        ih fun other hother => hparts other (List.mem_cons_of_mem _ hother)
      obtain ⟨hpart, hlength⟩ := hparts part List.mem_cons_self
      obtain ⟨-, hlt, hgroup⟩ := padded_group hpart hlength
      have hplace : Nat.ofDigitChars 2 (part.rightpad 5 '0') 0 < base32Alphabet.length := hlt
      refine ⟨Nat.ofDigitChars 2 (part.rightpad 5 '0') 0 :: indices, ?_, ?_⟩
      · rw [List.flatMap_cons, List.getElem?_eq_getElem hplace, Option.toList_some,
          List.singleton_append, List.mapM_cons, indexOf_alphabet hplace, hindices]
        rfl
      · rw [List.flatMap_cons, hgroup, hbits, List.map_cons, List.flatten_cons]

theorem mem_encodeBase32 {value : List UInt8} {c : Char} (hc : c ∈ encodeBase32 value) :
    c ∈ base32Alphabet := by
  obtain ⟨part, -, hmem⟩ := List.mem_flatMap.mp hc
  exact List.mem_of_getElem? (Option.mem_toList.mp hmem)

/-- Bytes are the numbers of groups of eight bits. -/
theorem bytes_of_bits (value : List UInt8) {padding : Nat} (hpadding : padding < 8) :
    (fullGroups 8 ((value.flatMap fun byte => binary 8 byte.toNat) ++
        List.replicate padding '0')).map
      (fun byte => UInt8.ofNat (Nat.ofDigitChars 2 byte 0)) = value := by
  have hparts : ∀ part ∈ value.map (fun byte => binary 8 byte.toNat), part.length = 8 := by
    intro part hpart
    obtain ⟨byte, -, rfl⟩ := List.mem_map.mp hpart
    exact length_binary (by omega) byte.toNat_lt
  rw [List.flatMap, fullGroups_flatten hparts (by simpa using hpadding), List.map_map]
  conv_rhs => rw [← List.map_id value]
  refine List.map_congr_left fun byte _ => ?_
  rw [Function.comp_apply, ofDigitChars_binary, UInt8.ofNat_toNat, id]

/-- Encoded bytes are upper case, with no padding. -/
theorem encodeBase32_upper (casing : UpperCasing) (value : List UInt8) :
    casing.toUpperCase ((encodeBase32 value).rdropWhile (· == '=')) = encodeBase32 value := by
  have hkept : (encodeBase32 value).rdropWhile (· == '=') = encodeBase32 value := by
    rw [List.rdropWhile_eq_self_iff]
    intro hne hequals
    have hlast := alphabet_upper (mem_encodeBase32 (List.getLast_mem hne))
    rw [hlast.2.2] at hequals
    cases hequals
  rw [hkept, casing.ascii _ fun c hc => (alphabet_upper (mem_encodeBase32 hc)).1]
  conv_rhs => rw [← List.map_id (encodeBase32 value)]
  exact List.map_congr_left fun c hc => (alphabet_upper (mem_encodeBase32 hc)).2.1

/-- The encoded bytes are decoded again. -/
theorem decodeBase32_encodeBase32 (casing : UpperCasing) (value : List UInt8) :
    decodeBase32 casing (encodeBase32 value) = some value := by
  obtain ⟨hgroups, padding, hpadding, hflatten⟩ := allGroups_pad (by omega : 0 < 5)
    (value.flatMap fun byte => binary 8 byte.toNat) '0'
  have hparts : ∀ part ∈ allGroups 5 (value.flatMap fun byte => binary 8 byte.toNat),
      IsBinary part ∧ part.length ≤ 5 := fun part hpart =>
    ⟨fun c hc => isBinary_bits value c ((hgroups part hpart).2.2 hc), (hgroups part hpart).2.1⟩
  obtain ⟨indices, hindices, hbits⟩ := mapM_indexOf_groups hparts
  have hread : (encodeBase32 value).mapM indexOf = some indices := by
    rw [encodeBase32]
    exact hindices
  have hbytes := bytes_of_bits value (Nat.lt_trans hpadding (by omega : 5 < 8))
  rw [decodeBase32, encodeBase32_upper, hread, Option.bind_eq_bind, Option.bind_some, hbits,
    hflatten]
  exact congrArg some hbytes

/-- Bytes in Base32 are decoded as themselves, in either case and with any number of signs of
padding; these change no other text either. So every code of a secret that a user was shown is that
of the bytes that were drawn. -/
theorem base32_round_trip (casing : UpperCasing) :
    (∀ value padding,
        decodeBase32 casing (encodeBase32 value) = some value ∧
        decodeBase32 casing (encodeBase32 value ++ List.replicate padding '=') = some value ∧
        decodeBase32 casing ((encodeBase32 value).map Char.toLower ++
          List.replicate padding '=') = some value) ∧
      (∀ text padding, decodeBase32 casing (text ++ List.replicate padding '=') =
        decodeBase32 casing text) ∧
      (∀ text, (∀ c ∈ text, c.toNat < 128) →
        decodeBase32 casing (text.map Char.toLower) = decodeBase32 casing text) ∧
      ∀ createHmac randomBytes timestamp,
        totp casing createHmac (newMfaSecret randomBytes) timestamp =
          some (totpOfKey createHmac randomBytes.toList timestamp) := by
  refine ⟨fun value padding => ⟨decodeBase32_encodeBase32 casing value, ?_, ?_⟩,
    decodeBase32_padding casing, fun text => decodeBase32_toLower casing, ?_⟩
  · rw [decodeBase32_padding, decodeBase32_encodeBase32]
  · rw [decodeBase32_padding, decodeBase32_toLower casing fun c hc =>
      (alphabet_upper (mem_encodeBase32 hc)).1, decodeBase32_encodeBase32]
  · intro createHmac randomBytes timestamp
    rw [totp, newMfaSecret, decodeBase32_encodeBase32, Option.map_some]

/-- The tables of the runtime on texts of ASCII. -/
def asciiCasing : UpperCasing := ⟨List.map Char.toUpper, fun _ _ => rfl⟩

set_option maxRecDepth 2000 in
/-- The bytes of `foo`, which a user types in lower case and with the padding of a whole group; a
text with a sign outside the alphabet is refused with padding too. -/
theorem base32_round_trip_foo :
    decodeBase32 asciiCasing "mzxw6===".toList = some [102, 111, 111] ∧
      decodeBase32 asciiCasing "mzxw1===".toList = none := by
  have hround := base32_round_trip asciiCasing
  have hfoo : (encodeBase32 [102, 111, 111]).map Char.toLower ++ List.replicate 3 '=' =
      "mzxw6===".toList := by decide
  have hone : "mzxw1".toList ++ List.replicate 3 '=' = "mzxw1===".toList := by decide
  constructor
  · rw [← hfoo]
    exact (hround.1 [102, 111, 111] 3).2.2
  · rw [← hone, hround.2.1]
    decide

end Accounts.Base32
