import IsmsPortal.Foundation.JsString
import IsmsPortal.Secrets.Encryption

/-! # Settings of the time-stamping option

An administrator saves the address of an authority, and with it a password or none: a password that
is left out stays as it was, unless it is cleared. The stored password is encrypted. What is loaded
after any saves is what settings with plain passwords would hold.
-/

namespace Secrets

open Foundation

structure TimestampConfig where
  url : String
  username : Option String
  password : Option (List Char)
  policyOid : Option String
deriving DecidableEq, Repr

structure StoredTimestamp where
  enabled : Bool
  url : String
  username : Option String
  policyOid : Option String
  /-- Encrypted. -/
  password : Option (List Char)
deriving DecidableEq, Repr

/-- The body of a request to save. -/
structure TimestampInput where
  enabled : Bool
  url : String
  username : Option String
  policyOid : Option String
  password : Option (List Char)
  clearPassword : Bool
deriving DecidableEq, Repr

/-- `TSA_URL`, `TSA_USERNAME`, `TSA_PASSWORD` and `TSA_POLICY_OID`. -/
structure TimestampEnvironment where
  url : Option String
  username : Option String
  password : Option (List Char)
  policyOid : Option String

inductive SettingsSource
  | settings
  | environment
  | none
deriving DecidableEq, Repr

structure PublicTimestamp where
  source : SettingsSource
  enabled : Bool
  url : String
  username : String
  policyOid : String
  hasPassword : Bool
deriving DecidableEq, Repr

/-- `value || undefined`. -/
def nonEmpty (value : Option String) : Option String := value.filter (· ≠ "")

/-- `value?.trim()`, where something is left of it. -/
def trimmed (value : Option String) : Option String := nonEmpty (value.map JsString.trim)

/-- A password that is given. -/
def given (password : Option (List Char)) : Option (List Char) := password.filter (· ≠ [])

def environmentTimestampConfig (environment : TimestampEnvironment) : Option TimestampConfig :=
  (trimmed environment.url).map fun url =>
    { url
      username := nonEmpty environment.username
      password := given environment.password
      policyOid := nonEmpty environment.policyOid }

/-- Never returns the password. -/
def timestampSettings (environment : TimestampEnvironment) (stored : Option StoredTimestamp) :
    PublicTimestamp :=
  match stored with
  | some stored =>
      { source := .settings
        enabled := stored.enabled
        url := stored.url
        username := stored.username.getD ""
        policyOid := stored.policyOid.getD ""
        hasPassword := (given stored.password).isSome }
  | none =>
      match environmentTimestampConfig environment with
      | some config =>
          { source := .environment
            enabled := true
            url := config.url
            username := config.username.getD ""
            policyOid := config.policyOid.getD ""
            hasPassword := config.password.isSome }
      | none =>
          { source := .none, enabled := false, url := "", username := "", policyOid := ""
            hasPassword := false }

variable (crypto : CryptoService)

/-- `stored.password ? crypto.decrypt(stored.password) : undefined`. -/
def loadedPassword (password : Option (List Char)) : Except Failure (Option (List Char)) :=
  match given password with
  | some text => some <$> crypto.decrypt text
  | none => .ok none

def loadTimestampConfig (environment : TimestampEnvironment) (stored : Option StoredTimestamp) :
    Except Failure (Option TimestampConfig) :=
  match stored with
  | none => return environmentTimestampConfig environment
  | some stored =>
      if !stored.enabled || stored.url = "" then return none
      else do
        let password ← loadedPassword crypto stored.password
        return some
          { url := stored.url
            username := nonEmpty stored.username
            password
            policyOid := nonEmpty stored.policyOid }

/-- The password that a request stores. -/
def savedPassword (previous : Option StoredTimestamp) (iv : Vector UInt8 12)
    (input : TimestampInput) : Except Failure (Option (List Char)) :=
  match given input.password with
  | some password => some <$> crypto.encrypt iv password
  | none =>
      .ok (if input.clearPassword then none else previous.bind fun stored => given stored.password)

/-- The row that a request writes; a request that fails writes none. -/
def saveTimestampSettings (previous : Option StoredTimestamp) (iv : Vector UInt8 12)
    (input : TimestampInput) : Except Failure StoredTimestamp := do
  let password ← savedPassword crypto previous iv input
  return {
    enabled := input.enabled
    url := JsString.trim input.url
    username := trimmed input.username
    policyOid := trimmed input.policyOid
    password }

/-- The row after a request, whether it fails or not. -/
def afterSave (stored : Option StoredTimestamp) (request : Vector UInt8 12 × TimestampInput) :
    Option StoredTimestamp :=
  match saveTimestampSettings crypto stored request.1 request.2 with
  | .ok value => some value
  | .error _ => stored

/-! ## Settings with plain passwords -/

/-- What the option is for: the last saved settings, with the last password that was given and not
cleared since. -/
structure PlainTimestamp where
  enabled : Bool
  url : String
  username : Option String
  policyOid : Option String
  password : Option (List Char)

namespace PlainTimestamp

def save (previous : Option PlainTimestamp) (input : TimestampInput) : PlainTimestamp where
  enabled := input.enabled
  url := JsString.trim input.url
  username := trimmed input.username
  policyOid := trimmed input.policyOid
  password :=
    match given input.password with
    | some password => some password
    | none => if input.clearPassword then none else previous.bind PlainTimestamp.password

def config (settings : PlainTimestamp) : Option TimestampConfig :=
  if settings.enabled ∧ settings.url ≠ "" then
    some
      { url := settings.url
        username := settings.username
        password := settings.password
        policyOid := settings.policyOid }
  else none

def view (settings : PlainTimestamp) : PublicTimestamp where
  source := .settings
  enabled := settings.enabled
  url := settings.url
  username := settings.username.getD ""
  policyOid := settings.policyOid.getD ""
  hasPassword := settings.password.isSome

end PlainTimestamp

/-- The row stores the settings. -/
structure Stores (stored : StoredTimestamp) (plain : PlainTimestamp) : Prop where
  enabled : stored.enabled = plain.enabled
  url : stored.url = plain.url
  username : stored.username = plain.username
  policyOid : stored.policyOid = plain.policyOid
  nonEmpty_username : nonEmpty stored.username = stored.username
  nonEmpty_policyOid : nonEmpty stored.policyOid = stored.policyOid
  password : crypto.Holds stored.password plain.password

/-- No row stores settings that were never saved. -/
inductive StoresLast : Option StoredTimestamp → Option PlainTimestamp → Prop
  | unsaved : StoresLast none none
  | saved {stored : StoredTimestamp} {plain : PlainTimestamp} (h : Stores crypto stored plain) :
      StoresLast (some stored) (some plain)

@[simp]
theorem nonEmpty_nonEmpty (value : Option String) : nonEmpty (nonEmpty value) = nonEmpty value := by
  cases value with
  | none => rfl
  | some text => by_cases h : text = "" <;> simp [nonEmpty, Option.filter_some, h]

theorem ne_nil_of_given {password : Option (List Char)} {value : List Char}
    (h : given password = some value) : value ≠ [] := by
  simpa using (Option.filter_eq_some_iff.mp h).2

variable {crypto}

/-- A password that is held is one that is given. -/
theorem given_of_holds {stored plain : Option (List Char)} (h : crypto.Holds stored plain) :
    given stored = stored := by
  cases h with
  | left => rfl
  | held htext => simp [given, htext]

theorem holds_previous {stored : Option StoredTimestamp} {plain : Option PlainTimestamp}
    (h : StoresLast crypto stored plain) :
    crypto.Holds (stored.bind fun stored => given stored.password)
      (plain.bind PlainTimestamp.password) := by
  cases h with
  | unsaved => exact .left
  | saved h =>
      rw [Option.bind_some, Option.bind_some, given_of_holds h.password]
      exact h.password

theorem holds_savedPassword {key : List UInt8} (hkey : crypto.key = .ok key)
    {stored : Option StoredTimestamp} {plain : Option PlainTimestamp}
    (h : StoresLast crypto stored plain) (iv : Vector UInt8 12) (input : TimestampInput) :
    ∃ text, savedPassword crypto stored iv input = .ok text ∧
      crypto.Holds text (PlainTimestamp.save plain input).password := by
  rw [savedPassword, PlainTimestamp.save]
  cases hgiven : given input.password with
  | some password =>
      have hencrypt := crypto.encrypt_eq_ok hkey iv password
      exact ⟨_, congrArg (Functor.map some) hencrypt,
        crypto.holds_encrypt hkey (ne_nil_of_given hgiven) hencrypt⟩
  | none =>
      refine ⟨_, rfl, ?_⟩
      by_cases hclear : input.clearPassword
      · rw [if_pos hclear, if_pos hclear]
        exact .left
      · rw [if_neg hclear, if_neg hclear]
        exact holds_previous h

theorem loadedPassword_of_holds {stored plain : Option (List Char)}
    (h : crypto.Holds stored plain) : loadedPassword crypto stored = .ok plain := by
  rw [loadedPassword, given_of_holds h]
  cases h with
  | left => rfl
  | held htext hvalue hdecrypt => exact congrArg (Functor.map some) hdecrypt

/-- A request stores what it saves. -/
theorem stores_save {key : List UInt8} (hkey : crypto.key = .ok key)
    {stored : Option StoredTimestamp} {plain : Option PlainTimestamp}
    (h : StoresLast crypto stored plain) (iv : Vector UInt8 12) (input : TimestampInput) :
    ∃ value, saveTimestampSettings crypto stored iv input = .ok value ∧
      Stores crypto value (PlainTimestamp.save plain input) := by
  obtain ⟨text, htext, hholds⟩ := holds_savedPassword hkey h iv input
  refine ⟨_, by rw [saveTimestampSettings, htext]; rfl, ?_⟩
  exact ⟨rfl, rfl, rfl, rfl, nonEmpty_nonEmpty _, nonEmpty_nonEmpty _, hholds⟩

theorem storesLast_saves {key : List UInt8} (hkey : crypto.key = .ok key)
    (requests : List (Vector UInt8 12 × TimestampInput)) {stored : Option StoredTimestamp}
    {plain : Option PlainTimestamp} (h : StoresLast crypto stored plain) :
    StoresLast crypto (requests.foldl (afterSave crypto) stored)
      (requests.foldl (fun plain request => some (PlainTimestamp.save plain request.2)) plain) := by
  induction requests generalizing stored plain with
  | nil => exact h
  | cons request requests ih =>
      obtain ⟨value, hvalue, hstores⟩ := stores_save hkey h request.1 request.2
      rw [List.foldl_cons, List.foldl_cons, afterSave, hvalue]
      exact ih (.saved hstores)

/-- What is loaded and what is shown are those of the settings that the row stores. -/
theorem load_of_stores {stored : StoredTimestamp} {plain : PlainTimestamp}
    (h : Stores crypto stored plain) (environment : TimestampEnvironment) :
    loadTimestampConfig crypto environment (some stored) = .ok plain.config ∧
      timestampSettings environment (some stored) = plain.view := by
  obtain ⟨henabled, hurl, husername, hpolicy, hname, hoid, hpassword⟩ := h
  have hgiven := given_of_holds hpassword
  constructor
  · rw [loadTimestampConfig, PlainTimestamp.config, loadedPassword_of_holds hpassword]
    by_cases hon : plain.enabled ∧ plain.url ≠ ""
    · rw [if_neg (by simpa [henabled, hurl] using hon), if_pos hon, hname, hoid, husername, hpolicy,
        hurl]
      rfl
    · rw [if_pos (by rw [henabled, hurl]; grind), if_neg hon]
      rfl
  · rw [timestampSettings, PlainTimestamp.view, hgiven, hpassword.isSome, henabled, hurl, husername,
      hpolicy]

/-! ## Runs -/

/-- What is stored after requests one after the other, from no row. -/
def storedAfter (crypto : CryptoService) (requests : List (Vector UInt8 12 × TimestampInput)) :
    Option StoredTimestamp :=
  requests.foldl (afterSave crypto) none

/-- The settings that the requests save. -/
def plainAfter (requests : List (Vector UInt8 12 × TimestampInput)) : Option PlainTimestamp :=
  requests.foldl (fun plain request => some (PlainTimestamp.save plain request.2)) none

/-- The settings decide, and the environment where there are none. -/
def effectiveConfig (environment : TimestampEnvironment) (plain : Option PlainTimestamp) :
    Option TimestampConfig :=
  plain.elim (environmentTimestampConfig environment) PlainTimestamp.config

/-- Two bodies that differ at most in the text of a password that both give. -/
structure SameButPassword (input input' : TimestampInput) : Prop where
  fields : { input' with password := input.password } = input
  password : (given input.password).isSome = (given input'.password).isSome

/-- Settings that differ at most in the text of a password that both have. -/
def SameView (plain plain' : Option PlainTimestamp) : Prop :=
  plain.map PlainTimestamp.view = plain'.map PlainTimestamp.view

theorem isSome_of_sameView {plain plain' : Option PlainTimestamp} (h : SameView plain plain') :
    (plain.bind PlainTimestamp.password).isSome = (plain'.bind PlainTimestamp.password).isSome := by
  cases plain with
  | none =>
      cases plain' with
      | none => rfl
      | some _ => cases h
  | some settings =>
      cases plain' with
      | none => cases h
      | some settings' => exact congrArg PublicTimestamp.hasPassword (Option.some.inj h)

theorem sameView_save {plain plain' : Option PlainTimestamp} (h : SameView plain plain')
    {input input' : TimestampInput} (hinput : SameButPassword input input') :
    (PlainTimestamp.save plain input).view = (PlainTimestamp.save plain' input').view := by
  obtain ⟨hfields, hpassword⟩ := hinput
  have hprevious := isSome_of_sameView h
  obtain ⟨enabled, url, username, policyOid, password, clear⟩ := input
  obtain ⟨enabled', url', username', policyOid', password', clear'⟩ := input'
  cases hfields
  rw [PlainTimestamp.view, PlainTimestamp.view, PublicTimestamp.mk.injEq]
  refine ⟨rfl, rfl, rfl, rfl, rfl, ?_⟩
  dsimp only [PlainTimestamp.save] at hpassword ⊢
  cases hgiven : given password with
  | some value =>
      rw [hgiven] at hpassword
      obtain ⟨value', hvalue'⟩ := Option.isSome_iff_exists.mp hpassword.symm
      rw [hvalue']
      rfl
  | none =>
      rw [hgiven] at hpassword
      rw [Option.isSome_eq_false_iff.mp hpassword.symm |> Option.isNone_iff_eq_none.mp]
      dsimp only
      split
      next => rfl
      next => exact hprevious

theorem sameView_after {requests requests' : List (Vector UInt8 12 × TimestampInput)}
    (h : List.Forall₂ (fun request request' => SameButPassword request.2 request'.2)
      requests requests') {plain plain' : Option PlainTimestamp} (hplain : SameView plain plain') :
    SameView
      (requests.foldl (fun plain request => some (PlainTimestamp.save plain request.2)) plain)
      (requests'.foldl (fun plain request => some (PlainTimestamp.save plain request.2)) plain') := by
  induction h generalizing plain plain' with
  | nil => exact hplain
  | cons hrequest _ ih => exact ih (congrArg some (sameView_save hplain hrequest))

theorem shown_after {crypto : CryptoService} {key : List UInt8} (hkey : crypto.key = .ok key)
    (environment : TimestampEnvironment) (requests : List (Vector UInt8 12 × TimestampInput)) :
    loadTimestampConfig crypto environment (storedAfter crypto requests) =
        .ok (effectiveConfig environment (plainAfter requests)) ∧
      timestampSettings environment (storedAfter crypto requests) =
        (plainAfter requests).elim (timestampSettings environment none) PlainTimestamp.view := by
  have hafter := storesLast_saves hkey requests .unsaved
  rw [storedAfter, plainAfter]
  generalize requests.foldl (afterSave crypto) none = stored at hafter
  generalize requests.foldl _ none = plain at hafter
  cases hafter with
  | unsaved => exact ⟨rfl, rfl⟩
  | saved h => exact load_of_stores h environment

/-- After any requests the configuration in effect is that of settings with plain passwords: the
password is the last one that was given, unless it was cleared since. What is shown is that of these
settings too, and does not depend on the text of any password. -/
theorem timestamp_settings_follow_saves (crypto : CryptoService)
    (hkey : (Base64.decode crypto.encryptionKey).length = 32) (environment : TimestampEnvironment)
    (requests : List (Vector UInt8 12 × TimestampInput)) :
    loadTimestampConfig crypto environment (storedAfter crypto requests) =
        .ok (effectiveConfig environment (plainAfter requests)) ∧
      timestampSettings environment (storedAfter crypto requests) =
        (plainAfter requests).elim (timestampSettings environment none) PlainTimestamp.view ∧
      ∀ requests', List.Forall₂ (fun request request' => SameButPassword request.2 request'.2)
          requests requests' →
        timestampSettings environment (storedAfter crypto requests') =
          timestampSettings environment (storedAfter crypto requests) := by
  have hok := crypto.key_eq_ok.mpr ⟨rfl, hkey⟩
  refine ⟨(shown_after hok environment requests).1, (shown_after hok environment requests).2, ?_⟩
  intro requests' hsame
  have hview := sameView_after hsame (rfl : SameView none none)
  rw [(shown_after hok environment requests).2, (shown_after hok environment requests').2]
  have helim : ∀ plain : Option PlainTimestamp,
      plain.elim (timestampSettings environment none) PlainTimestamp.view =
        (plain.map PlainTimestamp.view).getD (timestampSettings environment none) := by
    intro plain
    cases plain <;> rfl
  rw [helim, helim]
  exact congrArg (Option.getD · (timestampSettings environment none)) hview.symm

/-- A password that is given with an address stays when the address changes. -/
theorem timestamp_settings_follow_two_saves :
    (loadTimestampConfig zeroKeyService ⟨none, none, none, none⟩
        (storedAfter zeroKeyService
          [(Vector.replicate 12 1, ⟨true, "https://a", some " u ", none, some ['p'], false⟩),
            (Vector.replicate 12 2, ⟨true, "https://b", none, none, none, false⟩)]) =
      .ok (some ⟨"https://b", none, some ['p'], none⟩)) :=
  (timestamp_settings_follow_saves zeroKeyService zeroKeyService_key _ _).1.trans (by decide)

end Secrets
