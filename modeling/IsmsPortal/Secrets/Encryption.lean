import IsmsPortal.Foundation.Base64
import IsmsPortal.Foundation.Utf8
import Mathlib.Data.List.Basic

/-! # Encrypted secrets

Passwords of other services are stored as a text of four fields: the version, the initialization
vector, the authentication tag and the ciphertext. What is decrypted is what was encrypted, but for
the empty secret, whose empty ciphertext is refused as a field that is missing.
-/

namespace Secrets

open Foundation

/-- AES-256-GCM as the runtime offers it: a tag may be cut to some lengths, and a decryption ends
well exactly if the tag starts that of the plain text it yields. -/
structure AesGcm where
  encipher : List UInt8 → List UInt8 → List UInt8 → List UInt8 × List UInt8
  decipher : List UInt8 → List UInt8 → List UInt8 → List UInt8 → Option (List UInt8)
  length_ciphertext : ∀ key iv plain, (encipher key iv plain).1.length = plain.length
  length_tag : ∀ key iv plain, (encipher key iv plain).2.length = 16
  decipher_eq_some : ∀ key iv tag ciphertext plain,
    decipher key iv tag ciphertext = some plain ↔
      iv ≠ [] ∧ tag.length ∈ [4, 8, 12, 13, 14, 15, 16] ∧
        (encipher key iv plain).1 = ciphertext ∧ tag <+: (encipher key iv plain).2

inductive Failure
  /-- `"ENCRYPTION_KEY must contain 32 base64-encoded bytes"` -/
  | encryptionKey
  /-- `"Encrypted secret format is invalid"` -/
  | secretFormat
  /-- What the decryption of the runtime throws. -/
  | authentication
deriving DecidableEq, Repr

/-- What the service is given: the cipher, the reader of texts and the variable of the key. -/
structure CryptoService where
  gcm : AesGcm
  utf8 : Utf8.Reader
  encryptionKey : List Char

namespace CryptoService

variable (crypto : CryptoService)

def key : Except Failure (List UInt8) :=
  let key := Base64.decode crypto.encryptionKey
  if key.length = 32 then .ok key else .error .encryptionKey

/-- The text of the fields. -/
def secretText (iv tag ciphertext : List UInt8) : List Char :=
  ['.'].intercalate
    [['v', '1'], Base64.encode iv, Base64.encode tag, Base64.encode ciphertext]

def encrypt (iv : Vector UInt8 12) (value : List Char) : Except Failure (List Char) := do
  let key ← crypto.key
  let (ciphertext, tag) := crypto.gcm.encipher key iv.toList (Utf8.encode value)
  return secretText iv.toList tag ciphertext

def decrypt (value : List Char) : Except Failure (List Char) :=
  match value.splitOn '.' with
  | version :: iv :: tag :: ciphertext :: _ =>
      if version ≠ ['v', '1'] ∨ iv = [] ∨ tag = [] ∨ ciphertext = [] then .error .secretFormat
      else do
        let key ← crypto.key
        match crypto.gcm.decipher key (Base64.decode iv) (Base64.decode tag)
            (Base64.decode ciphertext) with
        | some plain => return crypto.utf8.toText plain
        | none => .error .authentication
  | _ => .error .secretFormat

/-! ## The text of a secret -/

theorem dot_notMem_encode (bytes : List UInt8) : '.' ∉ Base64.encode bytes := by
  intro hmem
  rcases Base64.mem_encode hmem with h | h
  · exact absurd h (by decide)
  · exact absurd h (by decide)

theorem splitOn_secretText (iv tag ciphertext : List UInt8) :
    (secretText iv tag ciphertext).splitOn '.' =
      [['v', '1'], Base64.encode iv, Base64.encode tag, Base64.encode ciphertext] := by
  refine List.splitOn_intercalate '.' ?_ (List.cons_ne_nil _ _)
  intro field hfield
  simp only [List.mem_cons, List.not_mem_nil, or_false] at hfield
  rcases hfield with rfl | rfl | rfl | rfl
  · decide
  · exact dot_notMem_encode iv
  · exact dot_notMem_encode tag
  · exact dot_notMem_encode ciphertext

/-- What is decrypted from the text of fields, none of them empty. -/
theorem decrypt_secretText {key iv tag ciphertext : List UInt8} (hkey : crypto.key = .ok key)
    (hiv : iv ≠ []) (htag : tag ≠ []) :
    crypto.decrypt (secretText iv tag ciphertext) =
      if ciphertext = [] then .error .secretFormat
      else match crypto.gcm.decipher key iv tag ciphertext with
        | some plain => .ok (crypto.utf8.toText plain)
        | none => .error .authentication := by
  rw [decrypt, splitOn_secretText]
  by_cases hempty : ciphertext = []
  · simp [hempty, Base64.encode_eq_nil]
  · simp only [ne_eq, not_true_eq_false, Base64.encode_eq_nil, hiv, htag, hempty, or_self,
      if_false, hkey, Base64.decode_encode, bind, Except.bind]
    rfl

/-- The fields that an accepted text has. -/
theorem of_decrypt_eq_ok {text value : List Char} (h : crypto.decrypt text = .ok value) :
    ∃ iv tag ciphertext more key plain,
      text.splitOn '.' = ['v', '1'] :: iv :: tag :: ciphertext :: more ∧ ciphertext ≠ [] ∧
      crypto.key = .ok key ∧ value = crypto.utf8.toText plain ∧
      crypto.gcm.decipher key (Base64.decode iv) (Base64.decode tag) (Base64.decode ciphertext) =
        some plain := by
  rw [decrypt] at h
  split at h
  next version iv tag ciphertext more hsplit =>
    split at h
    next => cases h
    next hfields =>
      simp only [ne_eq, not_or, not_not] at hfields
      obtain ⟨rfl, -, -, hciphertext⟩ := hfields
      cases hkey : crypto.key with
      | error failure => rw [hkey] at h; cases h
      | ok key =>
          rw [hkey] at h
          simp only [bind, Except.bind] at h
          split at h
          next plain hplain =>
            cases h
            exact ⟨iv, tag, ciphertext, more, key, plain, hsplit, hciphertext, rfl, rfl, hplain⟩
          next => cases h
  next => cases h

/-! ## Round trips -/

theorem key_eq_ok {key : List UInt8} : crypto.key = .ok key ↔
    key = Base64.decode crypto.encryptionKey ∧ key.length = 32 := by
  rw [CryptoService.key]
  split
  next hlength =>
    constructor
    · intro h
      cases h
      exact ⟨rfl, hlength⟩
    · rintro ⟨rfl, -⟩
      rfl
  next hlength =>
    constructor
    · intro h
      cases h
    · rintro ⟨rfl, h⟩
      exact absurd h hlength

theorem encrypt_eq_ok {key : List UInt8} (hkey : crypto.key = .ok key) (iv : Vector UInt8 12)
    (value : List Char) :
    crypto.encrypt iv value = .ok (secretText iv.toList
      (crypto.gcm.encipher key iv.toList (Utf8.encode value)).2
      (crypto.gcm.encipher key iv.toList (Utf8.encode value)).1) := by
  rw [encrypt, hkey]
  rfl

/-- A text is deciphered again under its own initialization vector and tag. -/
theorem decipher_encipher (key plain : List UInt8) {iv : List UInt8} (hiv : iv ≠ []) :
    crypto.gcm.decipher key iv (crypto.gcm.encipher key iv plain).2
      (crypto.gcm.encipher key iv plain).1 = some plain := by
  rw [crypto.gcm.decipher_eq_some, crypto.gcm.length_tag]
  exact ⟨hiv, by decide, rfl, List.prefix_rfl⟩

theorem ciphertext_eq_nil (key iv : List UInt8) (value : List Char) :
    (crypto.gcm.encipher key iv (Utf8.encode value)).1 = [] ↔ value = [] := by
  rw [← List.length_eq_zero_iff, crypto.gcm.length_ciphertext, List.length_eq_zero_iff,
    Utf8.encode_eq_nil]

/-- An encrypted secret is decrypted as itself, unless it is empty. -/
theorem decrypt_encrypt {key : List UInt8} (hkey : crypto.key = .ok key) (iv : Vector UInt8 12)
    (value : List Char) {text : List Char} (htext : crypto.encrypt iv value = .ok text) :
    crypto.decrypt text = if value = [] then .error .secretFormat else .ok value := by
  rw [crypto.encrypt_eq_ok hkey] at htext
  cases htext
  have hiv : iv.toList ≠ [] := List.ne_nil_of_length_pos (by simp)
  have htag : (crypto.gcm.encipher key iv.toList (Utf8.encode value)).2 ≠ [] :=
    List.ne_nil_of_length_pos (by rw [crypto.gcm.length_tag]; omega)
  rw [crypto.decrypt_secretText hkey hiv htag, crypto.decipher_encipher key _ hiv]
  simp only [crypto.ciphertext_eq_nil, crypto.utf8.toText_encode]

/-- An encrypted secret is a text that is not empty. -/
theorem encrypt_ne_nil {iv : Vector UInt8 12} {value text : List Char}
    (htext : crypto.encrypt iv value = .ok text) : text ≠ [] := by
  rintro rfl
  cases hkey : crypto.key with
  | error failure =>
      rw [encrypt, hkey] at htext
      cases htext
  | ok key =>
      rw [crypto.encrypt_eq_ok hkey] at htext
      have hlength := congrArg List.length (Except.ok.inj htext)
      simp [secretText, List.intercalate, List.intersperse] at hlength

/-! ## Secrets in settings -/

/-- The secret that a field of settings holds, none where the field is left out. -/
inductive Holds : Option (List Char) → Option (List Char) → Prop
  | left : Holds none none
  | held {text value : List Char} (htext : text ≠ []) (hvalue : value ≠ [])
      (hdecrypt : crypto.decrypt text = .ok value) : Holds (some text) (some value)

variable {crypto} in
theorem Holds.isSome {stored plain : Option (List Char)} (h : crypto.Holds stored plain) :
    stored.isSome = plain.isSome := by
  cases h with
  | left => rfl
  | held => rfl

/-- A secret that is encrypted is held. -/
theorem holds_encrypt {key : List UInt8} (hkey : crypto.key = .ok key) {iv : Vector UInt8 12}
    {value text : List Char} (hvalue : value ≠ []) (htext : crypto.encrypt iv value = .ok text) :
    crypto.Holds (some text) (some value) := by
  refine .held (crypto.encrypt_ne_nil htext) hvalue ?_
  rw [crypto.decrypt_encrypt hkey iv value htext, if_neg hvalue]

/-- With a key of 32 bytes every secret but the empty one comes back, without such a key nothing is
encrypted. A text that is accepted holds the ciphertext of a plain text under the key, and at least
four bytes of its tag; the secret is that plain text. -/
theorem secret_round_trip (crypto : CryptoService) :
    (∀ iv value,
      match crypto.encrypt iv value with
      | .ok text => (Base64.decode crypto.encryptionKey).length = 32 ∧ text ≠ [] ∧
          crypto.decrypt text = if value = [] then .error .secretFormat else .ok value
      | .error failure => failure = .encryptionKey ∧
          (Base64.decode crypto.encryptionKey).length ≠ 32) ∧
    ∀ text value, crypto.decrypt text = .ok value →
      ∃ iv tag ciphertext more plain,
        text.splitOn '.' = ['v', '1'] :: iv :: tag :: ciphertext :: more ∧
        value = crypto.utf8.toText plain ∧ 4 ≤ (Base64.decode tag).length ∧
        Base64.decode ciphertext = (crypto.gcm.encipher (Base64.decode crypto.encryptionKey)
          (Base64.decode iv) plain).1 ∧
        Base64.decode tag <+: (crypto.gcm.encipher (Base64.decode crypto.encryptionKey)
          (Base64.decode iv) plain).2 := by
  constructor
  · intro iv value
    by_cases hlength : (Base64.decode crypto.encryptionKey).length = 32
    · have hkey := crypto.key_eq_ok.mpr ⟨rfl, hlength⟩
      have htext := crypto.encrypt_eq_ok hkey iv value
      rw [htext]
      exact ⟨hlength, crypto.encrypt_ne_nil htext, crypto.decrypt_encrypt hkey iv value htext⟩
    · have hkey : crypto.key = .error .encryptionKey := if_neg hlength
      rw [encrypt, hkey]
      exact ⟨rfl, hlength⟩
  · intro text value h
    obtain ⟨iv, tag, ciphertext, more, key, plain, hsplit, -, hkey, hvalue, hplain⟩ :=
      crypto.of_decrypt_eq_ok h
    obtain ⟨rfl, -⟩ := crypto.key_eq_ok.mp hkey
    obtain ⟨-, htag, hciphertext, hprefix⟩ := (crypto.gcm.decipher_eq_some _ _ _ _ _).mp hplain
    refine ⟨iv, tag, ciphertext, more, plain, hsplit, hvalue, ?_, hciphertext.symm, hprefix⟩
    simp only [List.mem_cons, List.not_mem_nil, or_false] at htag
    omega

end CryptoService

/-- The laws of the cipher are met by texts that are their own ciphertexts, under a tag of zeros. -/
def bareGcm : AesGcm where
  encipher _ _ plain := (plain, List.replicate 16 0)
  decipher _ iv tag ciphertext :=
    if iv ≠ [] ∧ tag.length ∈ [4, 8, 12, 13, 14, 15, 16] ∧ tag <+: List.replicate 16 0 then
      some ciphertext
    else none
  length_ciphertext _ _ _ := rfl
  length_tag _ _ _ := rfl
  decipher_eq_some key iv tag ciphertext plain := by
    constructor
    · intro h
      obtain ⟨⟨hiv, hlength, hprefix⟩, heq⟩ := Option.ite_none_right_eq_some.mp h
      exact ⟨hiv, hlength, (Option.some.inj heq).symm, hprefix⟩
    · rintro ⟨hiv, hlength, rfl, hprefix⟩
      exact if_pos ⟨hiv, hlength, hprefix⟩

/-- A service whose key is 32 bytes of zero. -/
def zeroKeyService : CryptoService :=
  ⟨bareGcm, Utf8.strictReader, Base64.encode (List.replicate 32 0)⟩

theorem zeroKeyService_key : (Base64.decode zeroKeyService.encryptionKey).length = 32 := by
  rw [zeroKeyService, Base64.decode_encode, List.length_replicate]

end Secrets
