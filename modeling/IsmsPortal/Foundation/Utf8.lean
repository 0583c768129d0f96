import Mathlib.Data.List.Basic
import Mathlib.Tactic.Common

/-! # UTF-8 texts followed by bytes

The encoding of a character ends by itself, whatever bytes follow. A text that is
followed by arbitrary bytes is therefore read back up to the point where the
shorter of two texts ends.
-/

namespace Foundation.Utf8

/-- The bytes of a text. -/
def encode (text : List Char) : List UInt8 := text.flatMap String.utf8EncodeChar

/-- The first character is determined by the bytes. -/
theorem encodeChar_split {c c' : Char} {rest rest' : List UInt8}
    (heq : String.utf8EncodeChar c ++ rest = String.utf8EncodeChar c' ++ rest') :
    c = c' ∧ rest = rest' := by
  have hread := congrArg (fun bytes => ByteArray.utf8DecodeChar? bytes.toByteArray 0) heq
  simp only [List.toByteArray_append, ByteArray.utf8DecodeChar?_utf8EncodeChar_append,
    Option.some.injEq] at hread
  subst hread
  exact ⟨rfl, List.append_cancel_left heq⟩

/-- Of two texts followed by bytes, one starts with the other. -/
theorem encode_split {text text' : List Char} {rest rest' : List UInt8}
    (heq : encode text ++ rest = encode text' ++ rest') :
    (∃ more, text' = text ++ more ∧ rest = encode more ++ rest') ∨
      ∃ more, text = text' ++ more ∧ rest' = encode more ++ rest := by
  induction text generalizing text' with
  | nil => exact .inl ⟨text', rfl, heq⟩
  | cons c text ih =>
      cases text' with
      | nil => exact .inr ⟨c :: text, rfl, heq.symm⟩
      | cons c' text' =>
          simp only [encode, List.flatMap_cons, List.append_assoc] at heq
          obtain ⟨rfl, htail⟩ := encodeChar_split heq
          rcases ih htail with ⟨more, hmore, hrest⟩ | ⟨more, hmore, hrest⟩
          · exact .inl ⟨more, by rw [hmore, List.cons_append], hrest⟩
          · exact .inr ⟨more, by rw [hmore, List.cons_append], hrest⟩

/-! ## Reading texts -/

/-- `Buffer.toString("utf8")`: of other bytes, a reader makes a text of its own. -/
structure Reader where
  toText : List UInt8 → List Char
  toText_encode : ∀ text, toText (encode text) = text

/-- A reader that replaces all bytes that are not the encoding of a text. -/
def strictReader : Reader where
  toText bytes := (bytes.toByteArray.utf8Decode?).elim [Char.ofNat 0xFFFD] Array.toList
  toText_encode text := by
    have hencode : (encode text).toByteArray = text.utf8Encode := rfl
    rw [hencode, List.utf8Decode?_utf8Encode]
    rfl

theorem encode_eq_nil {text : List Char} : encode text = [] ↔ text = [] := by
  rw [encode, List.flatMap_eq_nil_iff]
  constructor
  · intro hall
    exact List.eq_nil_iff_forall_not_mem.mpr fun c hc => String.utf8EncodeChar_ne_nil (hall c hc)
  · rintro rfl c hc
    cases hc

end Foundation.Utf8
