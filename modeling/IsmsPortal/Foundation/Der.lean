import Mathlib.Algebra.Order.Ring.Nat
import Mathlib.Data.List.Induction
import Mathlib.Tactic.Ring

/-! # Elements of tag, length and content

A length below 128 is one byte; any length may be a count of bytes and these bytes. The bytes of a
length say where they end, and so do those of an element: what follows an element is determined.
-/

namespace Foundation.Der

/-- Bytes as a natural number, the most significant byte first. -/
def natural (bytes : List UInt8) : Nat :=
  bytes.foldl (fun number byte => number * 256 + byte.toNat) 0

theorem foldl_natural (bytes : List UInt8) (number : Nat) :
    bytes.foldl (fun number byte => number * 256 + byte.toNat) number =
      number * 256 ^ bytes.length + natural bytes := by
  induction bytes generalizing number with
  | nil => simp [natural]
  | cons byte bytes ih =>
      rw [natural, List.foldl_cons, List.foldl_cons, ih, ih (0 * 256 + byte.toNat),
        List.length_cons]
      ring

theorem natural_cons (byte : UInt8) (bytes : List UInt8) :
    natural (byte :: bytes) = byte.toNat * 256 ^ bytes.length + natural bytes := by
  rw [natural, List.foldl_cons, foldl_natural, Nat.zero_mul, Nat.zero_add]

theorem natural_concat (bytes : List UInt8) (byte : UInt8) :
    natural (bytes ++ [byte]) = natural bytes * 256 + byte.toNat := by
  rw [natural, List.foldl_append, List.foldl_cons, List.foldl_nil, natural]

theorem natural_lt (bytes : List UInt8) : natural bytes < 256 ^ bytes.length := by
  induction bytes using List.reverseRecOn with
  | nil => simp [natural]
  | append_singleton bytes byte ih =>
      have hbyte := byte.toNat_lt
      rw [natural_concat, List.length_append, List.length_singleton, Nat.pow_succ]
      omega

/-! ## Elements -/

/-- The bytes of a length. -/
inductive LengthBytes : Nat → List UInt8 → Prop
  | short {n : Nat} (hn : n < 128) : LengthBytes n [UInt8.ofNat n]
  | long {digits : List UInt8} (hpos : 1 ≤ digits.length) (hcount : digits.length < 127) :
      LengthBytes (natural digits) (UInt8.ofNat (128 + digits.length) :: digits)

/-- The bytes of an element with a tag and a content. -/
inductive Tlv (tag : UInt8) (content : List UInt8) : List UInt8 → Prop
  | mk {header : List UInt8} (hlength : LengthBytes content.length header) :
      Tlv tag content (tag :: (header ++ content))

theorem ofNat_inj {m n : Nat} (hm : m < 256) (hn : n < 256)
    (heq : UInt8.ofNat m = UInt8.ofNat n) : m = n := by
  have hvalues := congrArg UInt8.toNat heq
  simpa [Nat.mod_eq_of_lt hm, Nat.mod_eq_of_lt hn] using hvalues

theorem LengthBytes.length_pos {n : Nat} {header : List UInt8} (h : LengthBytes n header) :
    1 ≤ header.length := by
  cases h with
  | short _ => exact Nat.le_refl 1
  | long _ _ => exact Nat.succ_pos _

theorem LengthBytes.split {n n' : Nat} {header header' rest rest' : List UInt8}
    (h : LengthBytes n header) (h' : LengthBytes n' header')
    (heq : header ++ rest = header' ++ rest') : n = n' ∧ rest = rest' := by
  cases h with
  | short hn =>
      cases h' with
      | short hn' =>
          obtain ⟨hfirst, hrest⟩ := List.cons.inj heq
          exact ⟨ofNat_inj (by omega) (by omega) hfirst, hrest⟩
      | @long digits' _ hcount' =>
          obtain ⟨hfirst, -⟩ := List.cons.inj heq
          have hsame := ofNat_inj (by omega) (by omega) hfirst
          omega
  | @long digits _ hcount =>
      cases h' with
      | short hn' =>
          obtain ⟨hfirst, -⟩ := List.cons.inj heq
          have hsame := ofNat_inj (by omega) (by omega) hfirst
          omega
      | @long digits' _ hcount' =>
          obtain ⟨hfirst, htail⟩ := List.cons.inj heq
          have hsame := ofNat_inj (by omega) (by omega) hfirst
          obtain ⟨rfl, hrest⟩ := List.append_inj htail (by omega)
          exact ⟨rfl, hrest⟩

/-- Elements at the start of one text are the same. -/
theorem Tlv.split {tag tag' : UInt8} {content content' bytes bytes' rest rest' : List UInt8}
    (h : Tlv tag content bytes) (h' : Tlv tag' content' bytes')
    (heq : bytes ++ rest = bytes' ++ rest') :
    tag = tag' ∧ content = content' ∧ bytes = bytes' ∧ rest = rest' := by
  obtain ⟨hlength⟩ := h
  obtain ⟨hlength'⟩ := h'
  have hcons := heq
  rw [List.cons_append, List.cons_append, List.append_assoc, List.append_assoc] at hcons
  obtain ⟨htag, htail⟩ := List.cons.inj hcons
  obtain ⟨hsize, hcontents⟩ := hlength.split hlength' htail
  obtain ⟨hcontent, hrest⟩ := List.append_inj hcontents hsize
  subst hrest
  refine ⟨htag, hcontent, List.append_cancel_right heq, rfl⟩

/-! ## Integers -/

/-- Bytes as an integer in two's complement. -/
def integer (content : List UInt8) : Option Int :=
  match content with
  | [] => none
  | first :: _ =>
      if first.toNat < 128 then some (natural content)
      else some (natural content - 256 ^ content.length)

theorem eq_replicate_of_natural_eq_zero {bytes : List UInt8} (h : natural bytes = 0) :
    bytes = List.replicate bytes.length 0 := by
  induction bytes with
  | nil => rfl
  | cons byte bytes ih =>
      rw [natural_cons, Nat.add_eq_zero_iff, Nat.mul_eq_zero] at h
      have hpower : 256 ^ bytes.length ≠ 0 := Nat.pos_iff_ne_zero.mp (Nat.pow_pos (by omega))
      have hbyte : byte = 0 := UInt8.toNat_inj.mp (h.1.resolve_right hpower)
      rw [List.length_cons, List.replicate_succ, ← ih h.2, hbyte]

theorem natural_zeros (zeros : Nat) (last : UInt8) :
    natural (List.replicate zeros 0 ++ [last]) = last.toNat := by
  have hzero : natural (List.replicate zeros 0) = 0 := by
    induction zeros with
    | zero => rfl
    | succ zeros ih => rw [List.replicate_succ, natural_cons, ih]; simp
  rw [natural_concat, hzero, Nat.zero_mul, Nat.zero_add]

theorem integer_cons (first : UInt8) (rest : List UInt8) :
    integer (first :: rest) = if first.toNat < 128 then some (natural (first :: rest) : Int)
      else some (natural (first :: rest) - 256 ^ (first :: rest).length : Int) := rfl

/-- Zero and one have zeros only in front of the last byte. -/
theorem integer_le_one_iff {content : List UInt8} :
    (integer content = some 0 ∨ integer content = some 1) ↔
      ∃ zeros last, content = List.replicate zeros 0 ++ [last] ∧ last.toNat ≤ 1 := by
  constructor
  · intro h
    have hsmall : content ≠ [] ∧ natural content ≤ 1 := by
      cases content with
      | nil => rcases h with h | h <;> cases h
      | cons first rest =>
          refine ⟨List.cons_ne_nil _ _, ?_⟩
          have hlt : (natural (first :: rest) : Int) < 256 ^ (first :: rest).length := by
            exact_mod_cast natural_lt (first :: rest)
          rw [integer_cons] at h
          split at h
          next =>
            simp only [Option.some.injEq] at h
            omega
          next =>
            simp only [Option.some.injEq] at h
            omega
    obtain ⟨hne, hle⟩ := hsmall
    obtain ⟨front, last, rfl⟩ := List.eq_nil_or_concat content |>.resolve_left hne
    rw [List.concat_eq_append, natural_concat] at hle
    rw [List.concat_eq_append]
    refine ⟨front.length, last, ?_, by omega⟩
    rw [← eq_replicate_of_natural_eq_zero (by omega)]
  · rintro ⟨zeros, last, rfl, hlast⟩
    have hfirst : integer (List.replicate zeros 0 ++ [last]) =
        some ((natural (List.replicate zeros 0 ++ [last]) : Nat) : Int) := by
      cases zeros with
      | zero => rw [List.replicate_zero, List.nil_append, integer_cons, if_pos (by omega)]
      | succ zeros =>
          rw [List.replicate_succ, List.cons_append, integer_cons, if_pos (by decide)]
    rw [hfirst, natural_zeros]
    rcases Nat.le_one_iff_eq_zero_or_eq_one.mp hlast with h | h
    · exact .inl (by rw [h]; rfl)
    · exact .inr (by rw [h]; rfl)

/-! ## Digits -/

/-- The digits of a number, the most significant one first; none of zero. -/
def base256 (n : Nat) : List UInt8 :=
  if _hn : n = 0 then [] else base256 (n / 256) ++ [UInt8.ofNat n]

theorem base256_zero : base256 0 = [] := by
  rw [base256, dif_pos rfl]

theorem base256_pos {n : Nat} (hn : n ≠ 0) :
    base256 n = base256 (n / 256) ++ [UInt8.ofNat n] := by
  rw [base256, dif_neg hn]

theorem natural_base256 (n : Nat) : natural (base256 n) = n := by
  induction n using Nat.strongRecOn with
  | ind n ih =>
    by_cases hn : n = 0
    · subst hn
      rw [base256_zero]
      rfl
    · rw [base256_pos hn, natural_concat, ih (n / 256) (by omega), UInt8.toNat_ofNat']
      omega

theorem length_base256_le {count n : Nat} (hn : n < 256 ^ count) :
    (base256 n).length ≤ count := by
  induction count generalizing n with
  | zero =>
      obtain rfl : n = 0 := by simpa using hn
      rw [base256_zero]
      exact Nat.le_refl 0
  | succ count ih =>
      by_cases hzero : n = 0
      · subst hzero
        rw [base256_zero]
        exact Nat.zero_le _
      · have hfront := ih (n := n / 256) (Nat.div_lt_of_lt_mul (by rw [Nat.mul_comm]; exact hn))
        rw [base256_pos hzero, List.length_append, List.length_singleton]
        omega

/-- The first digit is not zero. -/
theorem head_base256 {n : Nat} (hn : n ≠ 0) : ∃ first rest, base256 n = first :: rest ∧
    first.toNat ≠ 0 := by
  induction n using Nat.strongRecOn with
  | ind n ih =>
    rw [base256_pos hn]
    by_cases hsmall : n / 256 = 0
    · refine ⟨UInt8.ofNat n, [], by rw [hsmall, base256_zero]; rfl, ?_⟩
      rw [UInt8.toNat_ofNat']
      omega
    · obtain ⟨first, rest, hfront, hfirst⟩ := ih (n / 256) (by omega) hsmall
      exact ⟨first, rest ++ [UInt8.ofNat n], by rw [hfront]; rfl, hfirst⟩

/-- The bytes in front of the last one: seven bits each, and the sign that more follow. -/
def continuation (n : Nat) : List UInt8 :=
  if _hn : n = 0 then [] else continuation (n / 128) ++ [UInt8.ofNat (128 + n % 128)]

theorem continuation_zero : continuation 0 = [] := by
  rw [continuation, dif_pos rfl]

theorem continuation_pos {n : Nat} (hn : n ≠ 0) :
    continuation n = continuation (n / 128) ++ [UInt8.ofNat (128 + n % 128)] := by
  rw [continuation, dif_neg hn]

/-- A number in base 128. -/
def base128 (n : Nat) : List UInt8 := continuation (n / 128) ++ [UInt8.ofNat (n % 128)]

/-! ## A strict decoder -/

/-- A length in the fewest bytes. -/
def readLength : List UInt8 → Option (Nat × List UInt8)
  | [] => none
  | first :: rest =>
      if first.toNat < 128 then some (first.toNat, rest)
      else
        let count := first.toNat - 128
        let digits := rest.take count
        if count = 0 ∨ count = 127 ∨ rest.length < count ∨ digits.head? = some 0 ∨
            natural digits < 128 then none
        else some (natural digits, rest.drop count)

/-- The content of an element with the tag, and what follows it. -/
def readElement (tag : UInt8) : List UInt8 → Option (List UInt8 × List UInt8)
  | [] => none
  | first :: rest =>
      if first = tag then
        (readLength rest).bind fun (size, rest) =>
          if rest.length < size then none else some (rest.take size, rest.drop size)
      else none

/-- The first nine bits of an integer are not all the same. -/
def IsMinimal (content : List UInt8) : Prop :=
  match content with
  | first :: second :: _ =>
      ¬ (first.toNat = 0 ∧ second.toNat < 128) ∧ ¬ (first.toNat = 255 ∧ 128 ≤ second.toNat)
  | _ => True

instance (content : List UInt8) : Decidable (IsMinimal content) := by
  unfold IsMinimal
  split <;> infer_instance

def readInteger (content : List UInt8) : Option Int :=
  if IsMinimal content then integer content else none

/-- The numbers of an object identifier; a number is complete with a byte below 128 and starts with
one that is not 128. -/
def readNumbers : Option Nat → List UInt8 → Option (List Nat)
  | none, [] => some []
  | some _, [] => none
  | none, byte :: rest =>
      if byte.toNat = 128 then none
      else if byte.toNat < 128 then (readNumbers none rest).map (byte.toNat :: ·)
      else readNumbers (some (byte.toNat - 128)) rest
  | some number, byte :: rest =>
      if byte.toNat < 128 then
        (readNumbers none rest).map ((number * 128 + byte.toNat) :: ·)
      else readNumbers (some (number * 128 + (byte.toNat - 128))) rest

/-- The first number stands for two arcs. -/
def firstArcs (number : Nat) : List Nat :=
  if number < 40 then [0, number]
  else if number < 80 then [1, number - 40]
  else [2, number - 80]

def readOid (content : List UInt8) : Option (List Nat) :=
  match readNumbers none content with
  | some (number :: numbers) => some (firstArcs number ++ numbers)
  | _ => none

theorem firstArcs_iff {number first second : Nat} (htwo : first ≤ 2)
    (hforty : first < 2 → second < 40) :
    firstArcs number = [first, second] ↔ number = 40 * first + second := by
  unfold firstArcs
  split_ifs <;> simp only [List.cons.injEq, and_true] <;> omega

/-! ## Lengths -/

/-- The bytes of a length, in the fewest bytes. -/
def lengthBytes (size : Nat) : List UInt8 :=
  if size < 128 then [UInt8.ofNat size]
  else UInt8.ofNat (128 + (base256 size).length) :: base256 size

theorem readLength_lengthBytes {size : Nat} (hsize : size < 256 ^ 126) (rest : List UInt8) :
    readLength (lengthBytes size ++ rest) = some (size, rest) := by
  unfold lengthBytes
  split
  next hsmall =>
    have hbyte : (UInt8.ofNat size).toNat = size := by
      rw [UInt8.toNat_ofNat', Nat.mod_eq_of_lt (by omega)]
    rw [List.cons_append, List.nil_append, readLength, hbyte, if_pos hsmall]
  next hlarge =>
    have hcount := length_base256_le hsize
    obtain ⟨first, others, hdigits, hfirst⟩ := head_base256 (by omega : size ≠ 0)
    have hpos : 1 ≤ (base256 size).length := by
      rw [hdigits]
      exact Nat.succ_pos _
    have hbyte : (UInt8.ofNat (128 + (base256 size).length)).toNat =
        128 + (base256 size).length := by
      rw [UInt8.toNat_ofNat', Nat.mod_eq_of_lt (by omega)]
    have hhead : (base256 size).head? ≠ some 0 := by
      rw [hdigits]
      intro hzero
      exact hfirst (congrArg UInt8.toNat (Option.some.inj hzero))
    have htake : (base256 size ++ rest).take (base256 size).length = base256 size :=
      List.take_left
    have hdrop : (base256 size ++ rest).drop (base256 size).length = rest := List.drop_left
    rw [List.cons_append, readLength, hbyte, if_neg (by omega)]
    simp only [Nat.add_sub_cancel_left, htake, hdrop, natural_base256]
    rw [if_neg]
    rintro (hzero | hreserved | hshort | hzero | hsmall)
    · omega
    · omega
    · rw [List.length_append] at hshort
      omega
    · exact hhead hzero
    · omega

/-- As many digits of the same number are the same. -/
theorem natural_inj {digits digits' : List UInt8} (hlength : digits.length = digits'.length)
    (h : natural digits = natural digits') : digits = digits' := by
  induction digits using List.reverseRecOn generalizing digits' with
  | nil => exact (List.length_eq_zero_iff.mp hlength.symm).symm
  | append_singleton front last ih =>
      have hne : digits' ≠ [] := by
        rintro rfl
        simp at hlength
      obtain ⟨front', last', rfl⟩ := (List.eq_nil_or_concat digits').resolve_left hne
      rw [List.concat_eq_append] at h hlength ⊢
      rw [natural_concat, natural_concat] at h
      have hlast := last.toNat_lt
      have hlast' := last'.toNat_lt
      have hfront : front = front' := ih (by simpa using hlength) (by omega)
      have hbyte : last = last' := UInt8.toNat_inj.mp (by omega)
      rw [hfront, hbyte]

/-- The bytes of a length that are not more than any other bytes of it. -/
def IsMinimalLength (size : Nat) (bytes : List UInt8) : Prop :=
  LengthBytes size bytes ∧ ∀ other, LengthBytes size other → bytes.length ≤ other.length

theorem lengthBytes_spec {size : Nat} (hsize : size < 256 ^ 126) :
    LengthBytes size (lengthBytes size) := by
  unfold lengthBytes
  split
  next hsmall => exact .short hsmall
  next hlarge =>
    have hpos : base256 size ≠ [] := by
      obtain ⟨first, rest, hdigits, -⟩ := head_base256 (by omega : size ≠ 0)
      simp [hdigits]
    have hcount := length_base256_le hsize
    have hbytes := LengthBytes.long (List.length_pos_iff.mpr hpos) (by omega)
    rwa [natural_base256] at hbytes

/-- Other bytes of a length are more than the ones without zeros in front. -/
theorem lengthBytes_lt {size : Nat} {other : List UInt8} (h : LengthBytes size other)
    (hne : other ≠ lengthBytes size) : (lengthBytes size).length < other.length := by
  cases h with
  | short hn => exact absurd (by rw [lengthBytes, if_pos hn]) hne
  | @long digits hpos hcount =>
      unfold lengthBytes at hne ⊢
      split at hne
      next hsmall =>
        rw [if_pos hsmall, List.length_singleton, List.length_cons]
        omega
      next hlarge =>
        rw [if_neg hlarge, List.length_cons, List.length_cons]
        have hle := length_base256_le (natural_lt digits)
        refine Nat.succ_lt_succ (Nat.lt_of_le_of_ne hle ?_)
        intro hlength
        have hdigits : base256 (natural digits) = digits :=
          natural_inj hlength (natural_base256 _)
        apply hne
        rw [hdigits]

theorem isMinimalLength_iff {size : Nat} (hsize : size < 256 ^ 126) {bytes : List UInt8} :
    IsMinimalLength size bytes ↔ bytes = lengthBytes size := by
  constructor
  · rintro ⟨hbytes, hleast⟩
    by_contra hne
    have hle := hleast _ (lengthBytes_spec hsize)
    have hlt := lengthBytes_lt hbytes hne
    omega
  · rintro rfl
    refine ⟨lengthBytes_spec hsize, ?_⟩
    intro other hother
    by_cases heq : other = lengthBytes size
    · rw [heq]
    · exact (lengthBytes_lt hother heq).le

/-- An element is read from its bytes. -/
theorem readElement_tlv (tag : UInt8) {content : List UInt8} (hsize : content.length < 256 ^ 126)
    (rest : List UInt8) :
    readElement tag (tag :: (lengthBytes content.length ++ content) ++ rest) =
      some (content, rest) := by
  have henough : ¬ (content ++ rest).length < content.length := by
    rw [List.length_append]
    omega
  rw [List.cons_append, List.append_assoc, readElement, if_pos rfl,
    readLength_lengthBytes hsize, Option.bind_some]
  dsimp only
  rw [if_neg henough, List.take_left, List.drop_left]

/-! ## Object identifiers -/

/-- The byte of a group that is not the last one. -/
theorem toNat_more {n : Nat} : (UInt8.ofNat (128 + n % 128)).toNat = 128 + n % 128 := by
  rw [UInt8.toNat_ofNat', Nat.mod_eq_of_lt (by omega)]

/-- The groups in front of the last one are read up to their number, whatever follows. -/
theorem readNumbers_continuation {n : Nat} (hn : n ≠ 0) (rest : List UInt8) :
    readNumbers none (continuation n ++ rest) = readNumbers (some n) rest := by
  induction n using Nat.strongRecOn generalizing rest with
  | ind n ih =>
    rw [continuation_pos hn, List.append_assoc, List.singleton_append]
    by_cases hsmall : n / 128 = 0
    · rw [hsmall, continuation_zero, List.nil_append, readNumbers, toNat_more, if_neg (by omega),
        if_neg (by omega), Nat.add_sub_cancel_left, Nat.mod_eq_of_lt (by omega)]
    · rw [ih (n / 128) (by omega) hsmall, readNumbers, toNat_more, if_neg (by omega),
        Nat.add_sub_cancel_left, Nat.mul_comm, Nat.div_add_mod]

/-- A number is read from its groups. -/
theorem readNumbers_base128 (n : Nat) (rest : List UInt8) :
    readNumbers none (base128 n ++ rest) = (readNumbers none rest).map (n :: ·) := by
  have hlast : (UInt8.ofNat (n % 128)).toNat = n % 128 := by
    rw [UInt8.toNat_ofNat', Nat.mod_eq_of_lt (by omega)]
  rw [base128, List.append_assoc, List.singleton_append]
  by_cases hsmall : n / 128 = 0
  · rw [hsmall, continuation_zero, List.nil_append, readNumbers, hlast, if_neg (by omega),
      if_pos (by omega), Nat.mod_eq_of_lt (by omega)]
  · rw [readNumbers_continuation hsmall, readNumbers, hlast, if_pos (by omega), Nat.mul_comm,
      Nat.div_add_mod]

theorem readNumbers_flatMap (numbers : List Nat) :
    readNumbers none (numbers.flatMap base128) = some numbers := by
  induction numbers with
  | nil => rfl
  | cons n numbers ih => rw [List.flatMap_cons, readNumbers_base128, ih, Option.map_some]

/-- There are as many numbers as bytes below 128. -/
theorem length_of_readNumbers {started : Option Nat} {bytes : List UInt8} {numbers : List Nat}
    (hread : readNumbers started bytes = some numbers) :
    numbers.length = bytes.countP (·.toNat < 128) := by
  induction started, bytes using readNumbers.induct generalizing numbers with
  | case1 =>
      cases hread
      rfl
  | case2 => cases hread
  | case3 byte rest hleading =>
      rw [readNumbers, if_pos hleading] at hread
      cases hread
  | case4 byte rest hleading hlast ih =>
      rw [readNumbers, if_neg hleading, if_pos hlast, Option.map_eq_some_iff] at hread
      obtain ⟨others, hothers, rfl⟩ := hread
      rw [List.length_cons, ih hothers, List.countP_cons_of_pos (by simpa using hlast)]
  | case5 byte rest hleading hmore ih =>
      rw [readNumbers, if_neg hleading, if_neg hmore] at hread
      rw [ih hread, List.countP_cons_of_neg (by simpa using hmore)]
  | case6 number byte rest hlast ih =>
      rw [readNumbers, if_pos hlast, Option.map_eq_some_iff] at hread
      obtain ⟨others, hothers, rfl⟩ := hread
      rw [List.length_cons, ih hothers, List.countP_cons_of_pos (by simpa using hlast)]
  | case7 number byte rest hmore ih =>
      rw [readNumbers, if_neg hmore] at hread
      rw [ih hread, List.countP_cons_of_neg (by simpa using hmore)]

theorem countP_continuation (n : Nat) :
    (continuation n).countP (·.toNat < 128) = 0 := by
  induction n using Nat.strongRecOn with
  | ind n ih =>
    by_cases hn : n = 0
    · rw [hn, continuation_zero]
      rfl
    · have hmore : ¬ (UInt8.ofNat (128 + n % 128)).toNat < 128 := by
        rw [toNat_more]
        omega
      rw [continuation_pos hn, List.countP_append, ih (n / 128) (by omega),
        List.countP_singleton, if_neg (by simpa using hmore)]

theorem countP_base128 (n : Nat) : (base128 n).countP (·.toNat < 128) = 1 := by
  have hlast : (UInt8.ofNat (n % 128)).toNat < 128 := by
    rw [UInt8.toNat_ofNat', Nat.mod_eq_of_lt (by omega)]
    exact Nat.mod_lt _ (by decide)
  rw [base128, List.countP_append, countP_continuation, List.countP_singleton,
    if_pos (by simpa using hlast)]

theorem countP_flatMap_base128 (numbers : List Nat) :
    (numbers.flatMap base128).countP (·.toNat < 128) = numbers.length := by
  induction numbers with
  | nil => rfl
  | cons n numbers ih =>
      rw [List.flatMap_cons, List.countP_append, countP_base128, ih, List.length_cons, Nat.add_comm]

end Foundation.Der
