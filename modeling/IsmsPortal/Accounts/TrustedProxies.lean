import IsmsPortal.Foundation.IpAddress
import IsmsPortal.Foundation.NumberText

/-! # Addresses of trusted proxies

A configured network is read with the numbers of the runtime, which take more than decimal digits:
an empty length of the mask is zero, and one that is no number masks nothing. An entry that is read
although it is not a network trusts somebody.
-/

namespace Accounts.TrustedProxies

open Foundation Double IpAddress Numerals

/-! ## Reading -/

/-- `value.replace(/^::ffff:/, "")`. -/
def withoutMapping (value : List Char) : List Char :=
  if "::ffff:".toList.isPrefixOf value then value.drop 7 else value

/-- `Number.isInteger(part) && 0 <= part && part <= 255`. -/
def isOctet : Double → Bool
  | .finite q => q = ⌊q⌋ && 0 ≤ q && q ≤ 255
  | _ => false

def ipv4ToNumber (value : List Char) : Option (BitVec 32) :=
  let parts := ((withoutMapping value).splitOn '.').map number
  if parts.length ≠ 4 ∨ parts.any (!isOctet ·) = true then none
  else some (parts.foldl (fun result part => result <<< 8 ||| BitVec.ofInt 32 part.truncated) 0)

/-- `cidr.trim()`. -/
def trimmed (cidr : List Char) : List Char :=
  (cidr.dropWhile JsString.isWhiteSpace).rdropWhile JsString.isWhiteSpace

def segments (cidr : List Char) : List (List Char) := (trimmed cidr).splitOn '/'

/-- The network of an entry. -/
def networkPart (cidr : List Char) : List Char := (segments cidr).headD []

/-- The length of the mask of an entry; what follows a second slash is not looked at. -/
def maskLength (cidr : List Char) : Double := number ((segments cidr)[1]?.getD ['3', '2'])

/-- `0xffffffff << (32 - length)`: only the last five bits of the difference count. -/
def mask (length : Double) : BitVec 32 :=
  if length = .finite 0 then 0
  else BitVec.allOnes 32 <<< ((sub (.finite 32) length).truncated % 32).toNat

def cidrContains (cidr address : List Char) : Bool :=
  match ipv4ToNumber (networkPart cidr), ipv4ToNumber address with
  | some networkNumber, some addressNumber =>
      if lt (maskLength cidr) (.finite 0) || lt (.finite 32) (maskLength cidr) then false
      else networkNumber &&& mask (maskLength cidr) = addressNumber &&& mask (maskLength cidr)
  | _, _ => false

/-! ## What an entry should be -/

/-- `a.b.c.d` or `a.b.c.d/p`. -/
def IsNetwork (text : List Char) (network : IPv4) (bits : Nat) : Prop :=
  (Dotted text network ∧ bits = 32) ∨
    ∃ dotted digits, text = dotted ++ '/' :: digits ∧ Dotted dotted network ∧ digits ≠ [] ∧
      (∀ c ∈ digits, c.isDigit = true) ∧ value digits ≤ 32 ∧ bits = value digits

/-- An address, plain or mapped. -/
def IsAddress (text : List Char) (address : IPv4) : Prop :=
  ∃ dotted, Dotted dotted address ∧ (text = dotted ∨ text = "::ffff:".toList ++ dotted)

def Agree (bits : Nat) (network address : IPv4) : Prop :=
  ∀ i < bits, network.bits.getMsbD i = address.bits.getMsbD i

/-! ## Addresses -/

theorem withoutMapping_dotted {text : List Char} {address : IPv4} (htext : Dotted text address) :
    withoutMapping text = text := by
  refine if_neg fun hmapped => ?_
  obtain ⟨rest, rfl⟩ := List.isPrefixOf_iff_prefix.mp hmapped
  rcases htext.char ':' (by simp) with h | h <;> exact absurd h (by decide)

theorem withoutMapping_mapped (text : List Char) :
    withoutMapping ("::ffff:".toList ++ text) = text := by
  rw [withoutMapping, if_pos (List.isPrefixOf_iff_prefix.mpr (List.prefix_append _ _))]
  rfl

theorem isOctet_natCast {n : Nat} : isOctet (.finite n) = true ↔ n < 256 := by
  have hbound : ((n : ℚ) ≤ 255) ↔ n ≤ 255 := by exact_mod_cast Iff.rfl
  simp [isOctet, hbound]
  omega

theorem number_octet {part : List Char} (hpart : IsOctet part) :
    number part = .finite (value part) := by
  have hsmall := hpart.small
  rw [number_digits hpart.nonempty hpart.digit, ofRat_natCast (by omega)]

/-- One octet after the others. -/
theorem toNat_shift_or (result : BitVec 32) {n : Nat} (hn : n < 256) :
    (result <<< 8 ||| BitVec.ofInt 32 (Double.finite n).truncated).toNat =
      (result.toNat * 256 + n) % 2 ^ 32 := by
  have hfront : result.toNat <<< 8 % 2 ^ 32 = (result.toNat % 2 ^ 24) <<< 8 := by
    rw [Nat.shiftLeft_eq, Nat.shiftLeft_eq]
    omega
  have hlast : (n : ℤ).toNat % 2 ^ 32 = n := by omega
  rw [truncated_natCast, BitVec.toNat_or, BitVec.toNat_shiftLeft, BitVec.ofInt_natCast,
    BitVec.toNat_ofNat, Nat.mod_eq_of_lt (by omega : n < 2 ^ 32), hfront,
    ← Nat.shiftLeft_add_eq_or_of_lt hn, Nat.shiftLeft_eq]
  omega

theorem foldl_octets {parts : List (List Char)} {address : IPv4}
    (hvalues : parts.map value = address.octets.map UInt8.toNat) :
    (parts.map fun part => Double.finite (value part)).foldl
      (fun (result : BitVec 32) (part : Double) =>
        result <<< 8 ||| BitVec.ofInt 32 part.truncated) 0 = address.bits := by
  have hnumbers : parts.map (fun part => Double.finite (value part)) =
      (address.octets.map UInt8.toNat).map fun n : Nat => Double.finite n := by
    rw [← hvalues, List.map_map]
    rfl
  have hfirst := address.first.toNat_lt
  have hsecond := address.second.toNat_lt
  have hthird := address.third.toNat_lt
  have hfourth := address.fourth.toNat_lt
  apply BitVec.eq_of_toNat_eq
  rw [hnumbers, IPv4.toNat_bits]
  simp only [IPv4.octets, List.map_cons, List.map_nil, List.foldl_cons, List.foldl_nil,
    toNat_shift_or _ hfirst, toNat_shift_or _ hsecond, toNat_shift_or _ hthird,
    toNat_shift_or _ hfourth]
  omega

theorem ipv4ToNumber_of_dotted {text : List Char} {address : IPv4}
    (htext : Dotted (withoutMapping text) address) : ipv4ToNumber text = some address.bits := by
  obtain ⟨parts, hsplit, hparts, hvalues⟩ := htext.exists_parts
  have hnumbers : parts.map number = parts.map fun part => .finite (Numerals.value part) :=
    List.map_congr_left fun part hpart => number_octet (hparts part hpart)
  have hfour : parts.length = 4 := by
    have hlength := congrArg List.length hvalues
    simpa [IPv4.octets] using hlength
  have hoctets : (parts.map number).any (!isOctet ·) = false := by
    rw [hnumbers, List.any_eq_false]
    intro part hpart
    obtain ⟨digits, hdigits, rfl⟩ := List.mem_map.mp hpart
    rw [isOctet_natCast.mpr (hparts digits hdigits).small]
    decide
  rw [ipv4ToNumber, hsplit]
  simp only [hoctets, List.length_map, hfour]
  rw [if_neg (by decide), hnumbers, foldl_octets hvalues]

theorem ipv4ToNumber_dotted {text : List Char} {address : IPv4} (htext : Dotted text address) :
    ipv4ToNumber text = some address.bits :=
  ipv4ToNumber_of_dotted (by rwa [withoutMapping_dotted htext])

theorem ipv4ToNumber_isAddress {text : List Char} {address : IPv4} (h : IsAddress text address) :
    ipv4ToNumber text = some address.bits := by
  obtain ⟨dotted, hdotted, rfl | rfl⟩ := h
  · exact ipv4ToNumber_dotted hdotted
  · exact ipv4ToNumber_of_dotted (by rwa [withoutMapping_mapped])

/-! ## Networks -/

theorem slash_not_mem {text : List Char} {address : IPv4} (htext : Dotted text address) :
    '/' ∉ text := by
  intro hmem
  rcases htext.char '/' hmem with h | h <;> exact absurd h (by decide)

theorem splitOn_network {dotted digits : List Char} {network : IPv4}
    (hdotted : Dotted dotted network) (hdigits : ∀ c ∈ digits, c.isDigit = true) :
    (dotted ++ '/' :: digits).splitOn '/' = [dotted, digits] := by
  have hslash : '/' ∉ digits := fun hmem => absurd (hdigits '/' hmem) (by decide)
  rw [List.splitOn_append_cons_self_of_not_mem (slash_not_mem hdotted),
    List.splitOn_eq_singleton hslash]

theorem segments_isNetwork {cidr : List Char} {network : IPv4} {bits : Nat}
    (h : IsNetwork (trimmed cidr) network bits) :
    Dotted (networkPart cidr) network ∧ bits ≤ 32 ∧ maskLength cidr = .finite bits := by
  rcases h with ⟨hdotted, rfl⟩ | ⟨dotted, digits, htext, hdotted, hne, hdigits, hle, rfl⟩
  · have hsegments : segments cidr = [trimmed cidr] :=
      List.splitOn_eq_singleton (slash_not_mem hdotted)
    refine ⟨by rw [networkPart, hsegments]; exact hdotted, Nat.le_refl 32, ?_⟩
    have hdefault : value ['3', '2'] = 32 := by decide
    rw [maskLength, hsegments, List.getElem?_singleton, if_neg (by decide), Option.getD_none,
      number_digits (by decide) (by simp), hdefault, ofRat_natCast (by decide)]
  · have hsegments : segments cidr = [dotted, digits] := by
      rw [segments, htext, splitOn_network hdotted hdigits]
    refine ⟨by rw [networkPart, hsegments]; exact hdotted, hle, ?_⟩
    rw [maskLength, hsegments]
    change number digits = _
    rw [number_digits hne hdigits, ofRat_natCast (by omega)]

theorem mask_natCast {bits : Nat} (hpos : 0 < bits) (hle : bits ≤ 32) :
    mask (.finite bits) = BitVec.allOnes 32 <<< (32 - bits) := by
  have hzero : Double.finite bits ≠ .finite 0 := by
    intro heq
    rw [Double.finite.injEq, Nat.cast_eq_zero] at heq
    omega
  have hthirtyTwo : (Double.finite 32) = .finite (32 : Nat) := by norm_cast
  have hcount : (((32 - bits : Nat) : ℤ) % 32).toNat = 32 - bits := by omega
  rw [mask, if_neg hzero, hthirtyTwo, sub_natCast hle (by decide), truncated_natCast, hcount]

/-- Two numbers under a mask of some length are the same if their first bits are. -/
theorem and_mask_eq_iff {bits : Nat} (hle : bits ≤ 32) (network address : BitVec 32) :
    network &&& mask (.finite bits) = address &&& mask (.finite bits) ↔
      ∀ i < bits, network.getMsbD i = address.getMsbD i := by
  rcases Nat.eq_zero_or_pos bits with rfl | hpos
  · have hmask : mask (.finite (0 : Nat)) = 0 := if_pos (by norm_cast)
    rw [hmask]
    simp
  · have hbit (number : BitVec 32) (i : Nat) :
        (number &&& BitVec.allOnes 32 <<< (32 - bits)).getMsbD i =
          (number.getMsbD i && decide (i < bits)) := by
      have hinside : i + (32 - bits) < 32 ↔ i < bits := by omega
      simp only [BitVec.getMsbD_and, BitVec.getMsbD_shiftLeft, BitVec.getMsbD_allOnes, hinside]
    rw [mask_natCast hpos hle]
    constructor
    · intro heq i hi
      have hsame := congrArg (BitVec.getMsbD · i) heq
      simpa only [hbit, hi, decide_true, Bool.and_true] using hsame
    · intro hbits
      apply BitVec.eq_of_getMsbD_eq
      intro i _
      rw [hbit, hbit]
      by_cases hi : i < bits
      · rw [hbits i hi]
      · simp [hi]

theorem cidrContains_of_isNetwork {cidr text : List Char} {network address : IPv4} {bits : Nat}
    (hnetwork : IsNetwork (trimmed cidr) network bits) (haddress : IsAddress text address) :
    cidrContains cidr text = true ↔ Agree bits network address := by
  obtain ⟨hdotted, hle, hlength⟩ := segments_isNetwork hnetwork
  have hlow : lt (.finite bits) (.finite 0) = false := by simp [lt]
  have hhigh : lt (.finite 32) (.finite bits) = false := by
    simpa [lt] using hle
  rw [cidrContains, ipv4ToNumber_dotted hdotted, ipv4ToNumber_isAddress haddress]
  simp only [hlength, hlow, hhigh]
  rw [if_neg (by decide), decide_eq_true_iff, and_mask_eq_iff hle]
  rfl

/-! ## Entries -/

/-- An entry is read as it should be exactly if it is a network or is not read at all: a part of it
is no octet, or the length of the mask is below zero or above thirty-two. -/
theorem cidrContains_correct_iff (cidr : List Char) :
    (∀ text address, IsAddress text address → (cidrContains cidr text = true ↔
      ∃ network bits, IsNetwork (trimmed cidr) network bits ∧ Agree bits network address)) ↔
    (∃ network bits, IsNetwork (trimmed cidr) network bits) ∨
      ipv4ToNumber (networkPart cidr) = none ∨ lt (maskLength cidr) (.finite 0) = true ∨
      lt (.finite 32) (maskLength cidr) = true := by
  constructor
  · intro hcorrect
    by_contra hread
    obtain ⟨hnetwork, hnumber, hlow, hhigh⟩ : (¬ ∃ network bits, _) ∧ _ ≠ none ∧ _ ∧ _ := by
      simpa only [not_or] using hread
    -- The address that the entry is read as.
    obtain ⟨number, hnumber⟩ := Option.ne_none_iff_exists'.mp hnumber
    obtain ⟨address, rfl⟩ := IPv4.exists_bits number
    have haddress : IsAddress address.text address :=
      ⟨_, dotted_text address, .inl rfl⟩
    have hcontains : cidrContains cidr address.text = true := by
      rw [cidrContains, hnumber, ipv4ToNumber_isAddress haddress]
      simp [hlow, hhigh]
    obtain ⟨network, bits, hvalid, -⟩ := (hcorrect _ _ haddress).mp hcontains
    exact hnetwork ⟨network, bits, hvalid⟩
  · intro hentry text address haddress
    constructor
    · intro hcontains
      rcases hentry with ⟨network, bits, hnetwork⟩ | hunread
      · exact ⟨network, bits, hnetwork, (cidrContains_of_isNetwork hnetwork haddress).mp hcontains⟩
      · refine absurd hcontains ?_
        rw [cidrContains, ipv4ToNumber_isAddress haddress]
        rcases hunread with h | h | h
        · simp [h]
        · cases ipv4ToNumber (networkPart cidr) <;> simp [h]
        · cases ipv4ToNumber (networkPart cidr) <;> simp [h]
    · rintro ⟨network, bits, hnetwork, hagree⟩
      exact (cidrContains_of_isNetwork hnetwork haddress).mpr hagree

/-- A network with nothing behind its slash. -/
def openEntry : List Char := "10.0.0.0/".toList

/-- It trusts every address. -/
theorem openEntry_not_correct :
    ¬ ∀ text address, IsAddress text address → (cidrContains openEntry text = true ↔
      ∃ network bits, IsNetwork (trimmed openEntry) network bits ∧ Agree bits network address) := by
  intro hcorrect
  have htrimmed : trimmed openEntry = openEntry := by decide
  have hnetwork : networkPart openEntry = (IPv4.mk 10 0 0 0).text := by decide
  have hlength : maskLength openEntry = .finite 0 := rfl
  have haddress : IsAddress (IPv4.mk 192 0 2 1).text ⟨192, 0, 2, 1⟩ :=
    ⟨_, dotted_text _, .inl rfl⟩
  have hcontains : cidrContains openEntry (IPv4.mk 192 0 2 1).text = true := by
    rw [cidrContains, hnetwork, ipv4ToNumber_dotted (dotted_text _),
      ipv4ToNumber_isAddress haddress]
    simp [hlength, mask, lt]
  obtain ⟨network, bits, hvalid, -⟩ := (hcorrect _ _ haddress).mp hcontains
  rw [htrimmed] at hvalid
  rcases hvalid with ⟨hdotted, -⟩ | ⟨dotted, digits, htext, hdotted, hne, hdigits, -⟩
  · exact slash_not_mem hdotted (by decide)
  · have hsplit := congrArg (List.splitOn '/') htext
    rw [splitOn_network hdotted hdigits] at hsplit
    have hlast := congrArg List.getLast? hsplit
    exact hne (Option.some.inj hlast).symm

end Accounts.TrustedProxies
