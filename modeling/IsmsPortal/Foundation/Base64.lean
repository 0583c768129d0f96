import IsmsPortal.Foundation.CodeUnits
import IsmsPortal.Foundation.Regrouping
import Mathlib.Data.List.Basic

/-! # Base64

Bytes as characters for six bits each, with padding or, in the alphabet for addresses, without. The
decoder of the runtime reads both alphabets up to the first sign of padding and passes over every
other character.
-/

namespace Foundation.Base64

open Regrouping

def alphabet : List Char :=
  "ABCDEFGHIJKLMNOPQRSTUVWXYZabcdefghijklmnopqrstuvwxyz0123456789+/".toList

/-- The alphabet for addresses and names of files. -/
def urlAlphabet : List Char := alphabet.take 62 ++ ['-', '_']

def bits (bytes : List UInt8) : List Char := bytes.flatMap fun byte => binary 8 byte.toNat

/-- One character of the alphabet for each group of six bits. -/
def digits (places : List Char) (bytes : List UInt8) : List Char :=
  (allGroups 6 (bits bytes)).flatMap fun part =>
    (places[Nat.ofDigitChars 2 (part.rightpad 6 '0') 0]?).toList

/-- `bytes.toString("base64")`. -/
def encode (bytes : List UInt8) : List Char :=
  digits alphabet bytes ++ List.replicate ((4 - (digits alphabet bytes).length % 4) % 4) '='

/-- The six bits of a character of either alphabet. -/
def valueOf (c : Char) : Option Nat :=
  if alphabet.idxOf c < 64 then some (alphabet.idxOf c)
  else if urlAlphabet.idxOf c < 64 then some (urlAlphabet.idxOf c) else none

/-- The decoder sees the low byte of every unit of a string. -/
def lowBytes (text : List Char) : List Char :=
  text.flatMap fun c => (CodePoint.scalar c).units.map fun unit => Char.ofNat (unit % 256)

/-- `Buffer.from(text, "base64")`, which ends at the first sign of padding. -/
def decode (text : List Char) : List UInt8 :=
  let read := (lowBytes text).takeWhile (· ≠ '=')
  (fullGroups 8 ((read.filterMap valueOf).flatMap (binary 6))).map fun byte =>
    UInt8.ofNat (Nat.ofDigitChars 2 byte 0)

/-! ## The alphabets -/

/-- Every character of an alphabet is read back as its place. -/
def Readable (places : List Char) : Prop :=
  places.length = 64 ∧ ∀ i < 64, ∀ c, places[i]? = some c → valueOf c = some i

set_option maxRecDepth 2000 in
theorem valueOf_alphabet {i : Nat} (hi : i < 64) {c : Char} (hc : alphabet[i]? = some c) :
    valueOf c = some i := by
  have hnodup : alphabet.Nodup := by decide
  obtain ⟨hlt, rfl⟩ := List.getElem?_eq_some_iff.mp hc
  rw [valueOf, hnodup.idxOf_getElem i hlt, if_pos hi]

theorem readable_alphabet : Readable alphabet := ⟨rfl, fun _ hi _ hc => valueOf_alphabet hi hc⟩

set_option maxRecDepth 2000 in
/-- The characters of the alphabet are one byte each, and no padding is among them. -/
theorem alphabet_plain {c : Char} (hc : c ∈ alphabet) : c.toNat < 256 ∧ c ≠ '=' := by
  have hall : alphabet.all (fun c => decide (c.toNat < 256 ∧ c ≠ '=')) = true := by decide
  exact of_decide_eq_true (List.all_eq_true.mp hall c hc)

theorem mem_digits {places : List Char} {bytes : List UInt8} {c : Char}
    (hc : c ∈ digits places bytes) : c ∈ places := by
  obtain ⟨part, -, hmem⟩ := List.mem_flatMap.mp hc
  exact List.mem_of_getElem? (Option.mem_toList.mp hmem)

/-- What is encoded has letters, digits, two further signs and the padding. -/
theorem mem_encode {bytes : List UInt8} {c : Char} (hc : c ∈ encode bytes) :
    c ∈ alphabet ∨ c = '=' := by
  rcases List.mem_append.mp hc with hdigit | hpadding
  · exact .inl (mem_digits hdigit)
  · exact .inr (List.eq_of_mem_replicate hpadding)

/-! ## Round trips -/

theorem isBinary_bits (bytes : List UInt8) : IsBinary (bits bytes) := by
  intro c hc
  obtain ⟨byte, -, hmem⟩ := List.mem_flatMap.mp hc
  exact isBinary_binary 8 byte.toNat c hmem

/-- A padded group of six bits is the number of a place. -/
theorem padded_group {part : List Char} (hpart : IsBinary part) (hlength : part.length ≤ 6) :
    Nat.ofDigitChars 2 (part.rightpad 6 '0') 0 < 64 ∧
      binary 6 (Nat.ofDigitChars 2 (part.rightpad 6 '0') 0) = part.rightpad 6 '0' := by
  have hsix : (part.rightpad 6 '0').length = 6 := by
    rw [List.length_rightpad]
    omega
  have hbinary : IsBinary (part.rightpad 6 '0') := by
    intro c hc
    rcases List.mem_append.mp hc with hold | hnew
    · exact hpart c hold
    · exact .inl (List.eq_of_mem_replicate hnew)
  have hbits := binary_ofDigitChars hbinary (List.ne_nil_of_length_pos (by omega))
  have hlt := ofDigitChars_lt hbinary
  rw [hsix] at hbits hlt
  exact ⟨hlt, hbits⟩

/-- The characters of groups are read back as their bits, padded. -/
theorem filterMap_groups {places : List Char} (hplaces : Readable places)
    {parts : List (List Char)} (hparts : ∀ part ∈ parts, IsBinary part ∧ part.length ≤ 6) :
    ((parts.flatMap fun part =>
        (places[Nat.ofDigitChars 2 (part.rightpad 6 '0') 0]?).toList).filterMap valueOf).flatMap
      (binary 6) = (parts.map (List.rightpad 6 '0')).flatten := by
  induction parts with
  | nil => rfl
  | cons part parts ih =>
      obtain ⟨⟨hpart, hlength⟩, hothers⟩ := List.forall_mem_cons.mp hparts
      obtain ⟨hlt, hgroup⟩ := padded_group hpart hlength
      have hplace := List.getElem?_eq_getElem (hplaces.1 ▸ hlt)
      have hvalue := hplaces.2 _ hlt _ hplace
      rw [List.flatMap_cons, List.filterMap_append, List.flatMap_append, ih hothers, hplace,
        Option.toList_some, List.filterMap_cons_some hvalue, List.filterMap_nil,
        List.flatMap_singleton, hgroup, List.map_cons, List.flatten_cons]

/-- Bytes are the numbers of the full groups of their bits. -/
theorem bytes_of_bits (bytes : List UInt8) {padding : Nat} (hpadding : padding < 8) :
    (fullGroups 8 (bits bytes ++ List.replicate padding '0')).map
      (fun byte => UInt8.ofNat (Nat.ofDigitChars 2 byte 0)) = bytes := by
  have hparts : ∀ part ∈ bytes.map (fun byte => binary 8 byte.toNat), part.length = 8 := by
    intro part hpart
    obtain ⟨byte, -, rfl⟩ := List.mem_map.mp hpart
    exact length_binary (by omega) byte.toNat_lt
  rw [bits, List.flatMap, fullGroups_flatten hparts (by simpa using hpadding), List.map_map]
  conv_rhs => rw [← List.map_id bytes]
  refine List.map_congr_left fun byte _ => ?_
  rw [Function.comp_apply, ofDigitChars_binary, UInt8.ofNat_toNat, id]

/-- Characters of one byte each are read as they are. -/
theorem lowBytes_eq_self {text : List Char} (htext : ∀ c ∈ text, c.toNat < 256) :
    lowBytes text = text := by
  induction text with
  | nil => rfl
  | cons c text ih =>
      obtain ⟨hc, hothers⟩ := List.forall_mem_cons.mp htext
      have hunits : (CodePoint.scalar c).units = [c.toNat] := if_pos (by omega)
      have hrest : lowBytes text = text := ih hothers
      rw [lowBytes, List.flatMap_cons, hunits, List.map_singleton, Nat.mod_eq_of_lt hc,
        Char.ofNat_toNat, List.singleton_append]
      exact congrArg (c :: ·) hrest

/-- Nothing is read from the first sign of padding on. -/
theorem decode_append_padding {text : List Char} (htext : ∀ c ∈ text, c ∈ alphabet)
    (more : List Char) : decode (text ++ '=' :: more) = decode text := by
  have hplain := lowBytes_eq_self fun c hc => (alphabet_plain (htext c hc)).1
  have hread : ∀ rest, (text ++ rest).takeWhile (· ≠ '=') = text ++ rest.takeWhile (· ≠ '=') :=
    fun rest => List.takeWhile_append_of_pos fun c hc =>
      decide_eq_true (alphabet_plain (htext c hc)).2
  have hpadding : lowBytes ('=' :: more) = '=' :: lowBytes more := rfl
  have happend : lowBytes (text ++ '=' :: more) = text ++ '=' :: lowBytes more := by
    rw [lowBytes, List.flatMap_append, ← lowBytes, ← lowBytes, hplain, hpadding]
  rw [decode, happend, hread, decode, hplain]
  have hall := hread []
  rw [List.append_nil] at hall
  rw [hall]
  rfl

/-- The characters of bytes are all read. -/
theorem decode_digits (bytes : List UInt8) : decode (digits alphabet bytes) = bytes := by
  obtain ⟨hgroups, padding, hpadding, hflatten⟩ := allGroups_pad (by omega : 0 < 6) (bits bytes) '0'
  have hparts : ∀ part ∈ allGroups 6 (bits bytes), IsBinary part ∧ part.length ≤ 6 :=
    fun part hpart => ⟨fun c hc => isBinary_bits bytes c ((hgroups part hpart).2.2 hc),
      (hgroups part hpart).2.1⟩
  have hread : (lowBytes (digits alphabet bytes)).takeWhile (· ≠ '=') = digits alphabet bytes := by
    rw [lowBytes_eq_self fun c hc => (alphabet_plain (mem_digits hc)).1, List.takeWhile_eq_self_iff]
    exact fun c hc => decide_eq_true (alphabet_plain (mem_digits hc)).2
  rw [decode, hread, digits, filterMap_groups readable_alphabet hparts, hflatten]
  exact bytes_of_bits bytes (Nat.lt_trans hpadding (by omega))

@[simp]
theorem decode_encode (bytes : List UInt8) : decode (encode bytes) = bytes := by
  rw [encode]
  cases (4 - (digits alphabet bytes).length % 4) % 4 with
  | zero => rw [List.replicate_zero, List.append_nil, decode_digits]
  | succ count =>
      rw [List.replicate_succ, decode_append_padding fun c hc => mem_digits hc, decode_digits]

theorem encode_injective : Function.Injective encode := by
  intro bytes bytes' h
  simpa using congrArg decode h

theorem encode_eq_nil {bytes : List UInt8} : encode bytes = [] ↔ bytes = [] := by
  constructor
  · intro h
    exact encode_injective (h.trans rfl)
  · rintro rfl
    rfl

end Foundation.Base64
