import IsmsPortal.Foundation.Numerals
import Mathlib.Data.List.MinMax

/-! # Addresses and their texts

An address of version four is four octets, written in decimal with dots between them. One of version
six is eight groups, written in hexadecimal; the first longest run of zeros is left out.
-/

namespace Foundation.IpAddress

open Numerals

/-! ## Version four -/

structure IPv4 where
  first : UInt8
  second : UInt8
  third : UInt8
  fourth : UInt8
deriving DecidableEq

namespace IPv4

variable (address : IPv4)

def octets : List UInt8 := [address.first, address.second, address.third, address.fourth]

def bits : BitVec 32 :=
  address.first.toBitVec ++ address.second.toBitVec ++ address.third.toBitVec ++
    address.fourth.toBitVec

def text : List Char := ['.'].intercalate (address.octets.map fun octet => Nat.toDigits 10 octet.toNat)

theorem toNat_bits : address.bits.toNat = ((address.first.toNat * 256 + address.second.toNat) * 256 +
    address.third.toNat) * 256 + address.fourth.toNat := by
  have hsecond := address.second.toNat_lt
  have hthird := address.third.toNat_lt
  have hfourth := address.fourth.toNat_lt
  simp only [bits, BitVec.toNat_append, UInt8.toNat_toBitVec]
  rw [← Nat.shiftLeft_add_eq_or_of_lt hsecond, ← Nat.shiftLeft_add_eq_or_of_lt hthird,
    ← Nat.shiftLeft_add_eq_or_of_lt hfourth]
  simp only [Nat.shiftLeft_eq]

/-- Every number of 32 bits is an address. -/
theorem exists_bits (n : BitVec 32) : ∃ address : IPv4, address.bits = n := by
  have hn := n.isLt
  refine ⟨⟨UInt8.ofNat (n.toNat / 256 ^ 3), UInt8.ofNat (n.toNat / 256 ^ 2),
    UInt8.ofNat (n.toNat / 256), UInt8.ofNat n.toNat⟩, BitVec.eq_of_toNat_eq ?_⟩
  rw [toNat_bits]
  simp only [UInt8.toNat_ofNat']
  omega

end IPv4

/-- The decimal digits of a byte, with zeros in front of them or not. -/
structure IsOctet (part : List Char) : Prop where
  nonempty : part ≠ []
  digit : ∀ c ∈ part, c.isDigit = true
  small : value part < 256

/-- Four decimal octets with dots between them. -/
def Dotted (text : List Char) (address : IPv4) : Prop :=
  ∃ parts : List (List Char), (∀ part ∈ parts, IsOctet part) ∧
    parts.map value = address.octets.map UInt8.toNat ∧ text = ['.'].intercalate parts

theorem isOctet_toDigits (octet : UInt8) : IsOctet (Nat.toDigits 10 octet.toNat) where
  nonempty := Nat.toDigits_ne_nil
  digit _ hc := Nat.isDigit_of_mem_toDigits (by decide) (by decide) hc
  small := by
    rw [value, Nat.ofDigitChars_toDigits (by decide) (by decide)]
    exact octet.toNat_lt

theorem dotted_text (address : IPv4) : Dotted address.text address := by
  refine ⟨_, List.forall_mem_map.mpr fun octet _ => isOctet_toDigits octet, ?_, rfl⟩
  rw [List.map_map]
  exact List.map_congr_left fun octet _ => Nat.ofDigitChars_toDigits (by decide) (by decide)

theorem Dotted.exists_parts {text : List Char} {address : IPv4} (htext : Dotted text address) :
    ∃ parts : List (List Char), text.splitOn '.' = parts ∧ (∀ part ∈ parts, IsOctet part) ∧
      parts.map value = address.octets.map UInt8.toNat := by
  obtain ⟨parts, hparts, hvalues, rfl⟩ := htext
  refine ⟨parts, List.splitOn_intercalate '.' ?_ ?_, hparts, hvalues⟩
  · intro part hpart hdot
    exact absurd ((hparts part hpart).digit '.' hdot) (by decide)
  · rintro rfl
    cases hvalues

theorem mem_intercalate {α : Type} {separator c : α} {parts : List (List α)}
    (hc : c ∈ [separator].intercalate parts) : c = separator ∨ ∃ part ∈ parts, c ∈ part := by
  induction parts with
  | nil => cases hc
  | cons part parts ih =>
      by_cases hparts : parts = []
      · subst hparts
        rw [List.intercalate_singleton] at hc
        exact .inr ⟨part, List.mem_cons_self, hc⟩
      · rw [List.intercalate_cons_of_ne_nil hparts, List.mem_append, List.mem_append,
          List.mem_singleton] at hc
        rcases hc with (hc | hc) | hc
        · exact .inr ⟨part, List.mem_cons_self, hc⟩
        · exact .inl hc
        · rcases ih hc with h | ⟨other, hother, h⟩
          · exact .inl h
          · exact .inr ⟨other, List.mem_cons_of_mem _ hother, h⟩

/-- A dotted text is digits and dots. -/
theorem Dotted.char {text : List Char} {address : IPv4} (htext : Dotted text address) :
    ∀ c ∈ text, c.isDigit = true ∨ c = '.' := by
  obtain ⟨parts, hparts, -, rfl⟩ := htext
  intro c hc
  rcases mem_intercalate hc with h | ⟨part, hpart, h⟩
  · exact .inr h
  · exact .inl ((hparts part hpart).digit c h)

/-! ## Version six -/

structure IPv6 where
  (first second third fourth fifth sixth seventh eighth : UInt16)
deriving DecidableEq

/-- The four bytes of two groups. -/
def ofGroups (high low : UInt16) : IPv4 where
  first := UInt8.ofNat (high.toNat / 256)
  second := UInt8.ofNat high.toNat
  third := UInt8.ofNat (low.toNat / 256)
  fourth := UInt8.ofNat low.toNat

def hex (group : UInt16) : List Char := Nat.toDigits 16 group.toNat

/-- How many zeros there are from a place on. -/
def zeroRun (groups : List UInt16) (place : Nat) : Nat :=
  ((groups.drop place).takeWhile (· = 0)).length

/-- Where the first longest run of zeros starts. -/
def longestRun (groups : List UInt16) : Nat :=
  ((List.range groups.length).argmax (zeroRun groups)).getD 0

def joined (groups : List UInt16) : List Char := [':'].intercalate (groups.map hex)

/-- The groups; at least two zeros are left out. -/
def compressed (groups : List UInt16) : List Char :=
  let place := longestRun groups
  let count := zeroRun groups place
  if count < 2 then joined groups
  else joined (groups.take place) ++ ':' :: ':' :: joined (groups.drop (place + count))

namespace IPv6

variable (address : IPv6)

def groups : List UInt16 :=
  [address.first, address.second, address.third, address.fourth, address.fifth, address.sixth,
    address.seventh, address.eighth]

/-- The last four bytes. -/
def last : IPv4 := ofGroups address.seventh address.eighth

def text : List Char := compressed address.groups

/-- The text with an address of version four at its end, where the groups say that it has one. -/
def mixedText : List Char :=
  let place := longestRun address.groups
  let count := zeroRun address.groups place
  if place = 0 ∧ count = 6 then ':' :: ':' :: address.last.text
  else if place = 0 ∧ count = 5 ∧ address.sixth = 0xffff then
    "::ffff:".toList ++ address.last.text
  else address.text

end IPv6

theorem zeroRun_zero {first : UInt16} (hfirst : first ≠ 0) (rest : List UInt16) :
    zeroRun (first :: rest) 0 = 0 := by
  simp [zeroRun, hfirst]

theorem joined_cons (first : UInt16) {rest : List UInt16} (hrest : rest ≠ []) :
    joined (first :: rest) = hex first ++ ':' :: joined rest := by
  rw [joined, List.map_cons, List.intercalate_cons_of_ne_nil (by simpa using hrest),
    List.append_assoc]
  rfl

/-- A text starts with its first group if that is not zero. -/
theorem compressed_cons {first : UInt16} (hfirst : first ≠ 0) {rest : List UInt16}
    (hrest : rest ≠ []) : ∃ more, compressed (first :: rest) = hex first ++ ':' :: more := by
  unfold compressed
  dsimp only
  split
  next => exact ⟨_, joined_cons first hrest⟩
  next hcount =>
    obtain ⟨place, hplace⟩ : ∃ place, longestRun (first :: rest) = place + 1 := by
      refine Nat.exists_eq_succ_of_ne_zero fun hzero => hcount ?_
      rw [hzero, zeroRun_zero hfirst]
      decide
    rw [hplace, List.take_succ_cons]
    by_cases hmore : rest.take place = []
    · rw [hmore, joined, List.map_singleton, List.intercalate_singleton]
      exact ⟨_, rfl⟩
    · rw [joined_cons first hmore, List.append_assoc]
      exact ⟨_, rfl⟩

theorem IPv6.mixedText_cons {address : IPv6} (hfirst : address.first ≠ 0) :
    ∃ more, address.mixedText = hex address.first ++ ':' :: more := by
  have hrun : zeroRun address.groups 0 = 0 := zeroRun_zero hfirst _
  have hcount {count : Nat} (hpos : 0 < count) :
      ¬ (longestRun address.groups = 0 ∧ zeroRun address.groups (longestRun address.groups) = count) := by
    rintro ⟨hplace, hcount⟩
    rw [hplace, hrun] at hcount
    omega
  unfold mixedText
  dsimp only
  rw [if_neg (hcount (by decide)), if_neg fun h => hcount (by decide) ⟨h.1, h.2.1⟩]
  exact compressed_cons hfirst (List.cons_ne_nil _ _)

/-- The groups in front of a mapped address are its longest run. -/
theorem longestRun_mapped (high low : UInt16) :
    longestRun [0, 0, 0, 0, 0, 0xffff, high, low] = 0 ∧
      zeroRun [0, 0, 0, 0, 0, 0xffff, high, low] 0 = 5 := by
  have hzero : zeroRun [0, 0, 0, 0, 0, 0xffff, high, low] 0 = 5 := by
    simp [zeroRun]
  refine ⟨?_, hzero⟩
  have hbest : (List.range 8).argmax (zeroRun [0, 0, 0, 0, 0, 0xffff, high, low]) = some 0 := by
    rw [List.argmax_eq_some_iff]
    have hindex : (List.range 8).idxOf 0 = 0 := by decide
    refine ⟨by decide, fun place _ => ?_, fun place _ _ => by rw [hindex]; exact Nat.zero_le _⟩
    rw [hzero]
    match place with
    | 0 => exact hzero.le
    | 1 => simp [zeroRun]
    | 2 => simp [zeroRun]
    | place + 3 =>
        refine (List.takeWhile_prefix _).length_le.trans ?_
        simp only [List.length_drop, List.length_cons, List.length_nil]
        omega
  rw [longestRun]
  change ((List.range 8).argmax _).getD 0 = 0
  rw [hbest, Option.getD_some]

theorem IPv6.mixedText_mapped (high low : UInt16) :
    (IPv6.mk 0 0 0 0 0 0xffff high low).mixedText =
      "::ffff:".toList ++ (ofGroups high low).text := by
  obtain ⟨hplace, hcount⟩ := longestRun_mapped high low
  unfold mixedText
  dsimp only [groups]
  rw [hplace, hcount]
  rfl

end Foundation.IpAddress
