import IsmsPortal.Foundation.Checks
import IsmsPortal.Foundation.IpAddress

/-! # Destinations of webhooks

A destination is refused when an address of its host looks private. The look is at the start of a
text, so ranges that do not end where digits do, the unspecified address, mapped addresses and hosts
in brackets are not seen.
-/

namespace Notifications.Webhooks

open Foundation IpAddress

/-! ## Private addresses -/

/-- Loopback, unspecified, of a private network or of the local link. -/
def IsPrivate4 (address : IPv4) : Prop :=
  address.first = 127 ∨ address = ⟨0, 0, 0, 0⟩ ∨ address.first = 10 ∨
    (address.first = 172 ∧ 16 ≤ address.second ∧ address.second ≤ 31) ∨
    (address.first = 192 ∧ address.second = 168) ∨ (address.first = 169 ∧ address.second = 254)

namespace IPv6Range

variable (address : IPv6)

def Loopback : Prop := address = ⟨0, 0, 0, 0, 0, 0, 0, 1⟩

def Unspecified : Prop := address = ⟨0, 0, 0, 0, 0, 0, 0, 0⟩

def LinkLocal : Prop := 0xfe80 ≤ address.first ∧ address.first ≤ 0xfebf

def UniqueLocal : Prop := 0xfc00 ≤ address.first ∧ address.first ≤ 0xfdff

/-- An address of version four in one of version six. -/
def MappedPrivate : Prop :=
  ∃ high low, address = ⟨0, 0, 0, 0, 0, 0xffff, high, low⟩ ∧ IsPrivate4 (ofGroups high low)

end IPv6Range

open IPv6Range

def IsPrivate6 (address : IPv6) : Prop :=
  Loopback address ∨ Unspecified address ∨ LinkLocal address ∨ UniqueLocal address ∨
    MappedPrivate address

inductive Address
  | v4 (address : IPv4)
  | v6 (address : IPv6)

def Address.IsPrivate : Address → Prop
  | v4 address => IsPrivate4 address
  | v6 address => IsPrivate6 address

/-- The text that `resolve4` and `resolve6` return. -/
def Address.resolvedText : Address → List Char
  | v4 address => address.text
  | v6 address => address.mixedText

/-- The text of a host in a URL. -/
def Address.hostText : Address → List Char
  | v4 address => address.text
  | v6 address => '[' :: (address.text ++ [']'])

/-- The private addresses that the texts do not show. -/
def Address.Unseen : Address → Prop
  | v4 _ => False
  | v6 address =>
      Unspecified address ∨ (LinkLocal address ∧ address.first ≠ 0xfe80) ∨ MappedPrivate address

/-! ## The check -/

/-- `/^172\.(1[6-9]|2\d|3[01])\./u`. -/
def is172 : List Char → Bool
  | '1' :: '7' :: '2' :: '.' :: tens :: units :: '.' :: _ =>
      (tens = '1' && '6' ≤ units && units ≤ '9') || (tens = '2' && units.isDigit) ||
        (tens = '3' && (units = '0' || units = '1'))
  | _ => false

def privateAddress (address : List Char) : Bool :=
  address = "::1".toList || address = "0.0.0.0".toList || "127.".toList.isPrefixOf address ||
    "10.".toList.isPrefixOf address || "192.168.".toList.isPrefixOf address || is172 address ||
    "169.254.".toList.isPrefixOf address || "fc".toList.isPrefixOf address ||
    "fd".toList.isPrefixOf address || "fe80:".toList.isPrefixOf address

inductive AlertChannel
  | graph
  | email
  | teams
  | slack
  | webhook
deriving DecidableEq

structure Url where
  protocol : List Char
  username : List Char
  password : List Char
  hostname : List Char
  href : List Char
deriving DecidableEq

/-- What the runtime knows of URLs and names; a resolution that fails is none. -/
structure Network where
  parseUrl : List Char → Option Url
  isIP : List Char → Bool
  resolve4 : List Char → Option (List IPv4)
  resolve6 : List Char → Option (List IPv6)

/-- `/(^|\.)domain$/u`. -/
def isHostOf (domain hostname : List Char) : Bool :=
  hostname = domain || ('.' :: domain).isSuffixOf hostname

def isAllowedTeamsWebhookHost (hostname : List Char) : Bool :=
  isHostOf "webhook.office.com".toList hostname || isHostOf "logic.azure.com".toList hostname ||
    isHostOf "environment.api.powerplatform.com".toList hostname

section Check

variable (network : Network) (raw : List Char) (channel : AlertChannel)

/-- The addresses of a host. -/
def Network.addresses (hostname : List Char) : List Address :=
  ((network.resolve4 hostname).getD []).map .v4 ++ ((network.resolve6 hostname).getD []).map .v6

def safeWebhook : Except String Url :=
  match network.parseUrl raw with
  | none => .error "Invalid webhook URL"
  | some url => do
      if url.protocol ≠ "https:".toList ∨ url.username ≠ [] ∨ url.password ≠ [] then
        throw "Webhook URL must use HTTPS"
      if channel = .teams ∧ isAllowedTeamsWebhookHost url.hostname = false then
        throw "Invalid Teams webhook host"
      if channel = .slack ∧ url.hostname ≠ "hooks.slack.com".toList then
        throw "Invalid Slack webhook host"
      if network.isIP url.hostname = true ∧ privateAddress url.hostname = true then
        throw "Private webhook destinations are not allowed"
      let addresses := network.addresses url.hostname
      if addresses = [] ∨ addresses.any (fun address => privateAddress address.resolvedText) = true
      then throw "Unsafe webhook destination"
      return url

/-- The checks of a URL before its host is resolved. -/
structure Allowed (url : Url) : Prop where
  protocol : url.protocol = "https:".toList
  username : url.username = []
  password : url.password = []
  teams : channel = .teams → isAllowedTeamsWebhookHost url.hostname = true
  slack : channel = .slack → url.hostname = "hooks.slack.com".toList
  literal : network.isIP url.hostname = true → privateAddress url.hostname = false

end Check

theorem safeWebhook_eq_ok_iff {network : Network} {raw : List Char} {channel : AlertChannel}
    {url : Url} : safeWebhook network raw channel = .ok url ↔
      network.parseUrl raw = some url ∧ Allowed network channel url ∧
        network.addresses url.hostname ≠ [] ∧
        ∀ address ∈ network.addresses url.hostname, privateAddress address.resolvedText = false := by
  unfold safeWebhook
  cases hparse : network.parseUrl raw with
  | none => simp
  | some parsed =>
      simp only [Checks.accepts_if, Checks.accepts_pure, Option.some.injEq, not_or, not_and,
        ne_eq, not_not, Bool.not_eq_true, Bool.not_eq_false, List.any_eq_false]
      constructor
      · rintro ⟨⟨hprotocol, husername, hpassword⟩, hteams, hslack, hliteral, ⟨hsome, hseen⟩, rfl⟩
        exact ⟨rfl, ⟨hprotocol, husername, hpassword, hteams, hslack, hliteral⟩, hsome, hseen⟩
      · rintro ⟨rfl, hallowed, hsome, hseen⟩
        exact ⟨⟨hallowed.protocol, hallowed.username, hallowed.password⟩, hallowed.teams,
          hallowed.slack, hallowed.literal, ⟨hsome, hseen⟩, rfl⟩

/-! ## What is seen -/

theorem text_eq (address : IPv4) : address.text =
    Nat.toDigits 10 address.first.toNat ++ '.' :: (Nat.toDigits 10 address.second.toNat ++
      '.' :: (Nat.toDigits 10 address.third.toNat ++
        '.' :: Nat.toDigits 10 address.fourth.toNat)) := by
  simp [IPv4.text, IPv4.octets, List.intercalate_cons_cons]

/-- Two digits of the range in the middle. -/
theorem is172_digits {n : Nat} (hlow : 16 ≤ n) (hhigh : n < 32) (rest : List Char) :
    is172 ("172.".toList ++ (Nat.toDigits 10 n ++ '.' :: rest)) = true := by
  have hdigits : Nat.toDigits 10 n = [(n / 10).digitChar, (n % 10).digitChar] := by
    rw [Nat.toDigits_of_base_le (by decide) (by omega), Nat.toDigits_of_lt_base (by omega)]
    rfl
  have hall : ∀ n < 32, 16 ≤ n → is172 ("172.".toList ++
      ([(n / 10).digitChar, (n % 10).digitChar] ++ ['.'])) = true := by decide
  rw [hdigits]
  exact hall n hhigh hlow

theorem privateAddress_of_private4 {address : IPv4} (h : IsPrivate4 address) :
    privateAddress address.text = true := by
  have hseen (start rest : List Char) (hstart : start ∈ ["127.".toList, "10.".toList,
      "192.168.".toList, "169.254.".toList]) : privateAddress (start ++ rest) = true := by
    simp only [List.mem_cons, List.not_mem_nil, or_false] at hstart
    rcases hstart with rfl | rfl | rfl | rfl <;> simp [privateAddress]
  rw [text_eq]
  rcases h with h | rfl | h | ⟨hfirst, hlow, hhigh⟩ | ⟨hfirst, hsecond⟩ | ⟨hfirst, hsecond⟩
  · rw [h]
    exact hseen "127.".toList _ (by simp)
  · decide
  · rw [h]
    exact hseen "10.".toList _ (by simp)
  · have hsixteen : 16 ≤ address.second.toNat := hlow
    have hthirtyOne : address.second.toNat ≤ 31 := hhigh
    have h172 := is172_digits hsixteen (Nat.lt_succ_of_le hthirtyOne)
      (Nat.toDigits 10 address.third.toNat ++ '.' :: Nat.toDigits 10 address.fourth.toNat)
    rw [hfirst]
    change privateAddress ("172.".toList ++ (Nat.toDigits 10 address.second.toNat ++ _)) = true
    rw [privateAddress, h172]
    simp
  · rw [hfirst, hsecond]
    exact hseen "192.168.".toList _ (by simp)
  · rw [hfirst, hsecond]
    exact hseen "169.254.".toList _ (by simp)

/-- The four digits of a group. -/
theorem hex_eq {group : UInt16} (hgroup : 0x1000 ≤ group.toNat) :
    hex group = [(group.toNat / 4096).digitChar, (group.toNat / 256 % 16).digitChar,
      (group.toNat / 16 % 16).digitChar, (group.toNat % 16).digitChar] := by
  have hlt := group.toNat_lt
  rw [hex, Nat.toDigits_of_base_le (by decide) (by omega),
    Nat.toDigits_of_base_le (by decide) (by omega), Nat.toDigits_of_base_le (by decide) (by omega),
    Nat.toDigits_of_lt_base (by omega)]
  simp only [Nat.div_div_eq_div_mul, List.append_assoc, List.singleton_append]
  rfl

theorem privateAddress_of_uniqueLocal {address : IPv6} (h : UniqueLocal address) :
    privateAddress address.mixedText = true := by
  have hlow : 0xfc00 ≤ address.first.toNat := h.1
  have hhigh : address.first.toNat ≤ 0xfdff := h.2
  have hfirst : address.first ≠ 0 := by
    rintro hzero
    rw [hzero] at hlow
    exact absurd hlow (by decide)
  obtain ⟨more, htext⟩ := IPv6.mixedText_cons hfirst
  have hf : address.first.toNat / 4096 = 15 := by omega
  rw [htext, hex_eq (by omega), hf]
  rcases (by omega : address.first.toNat / 256 % 16 = 12 ∨ address.first.toNat / 256 % 16 = 13)
    with hsecond | hsecond
  · rw [hsecond]
    simp [privateAddress]
  · rw [hsecond]
    simp [privateAddress]

/-- Of the local link the first of the groups is seen. -/
theorem privateAddress_linkLocal {address : IPv6} (h : LinkLocal address) :
    privateAddress address.mixedText = true ↔ address.first = 0xfe80 := by
  have hlow : 0xfe80 ≤ address.first.toNat := h.1
  have hhigh : address.first.toNat ≤ 0xfebf := h.2
  have hfirst : address.first ≠ 0 := by
    rintro hzero
    rw [hzero] at hlow
    exact absurd hlow (by decide)
  obtain ⟨more, htext⟩ := IPv6.mixedText_cons hfirst
  have hf : address.first.toNat / 4096 = 15 := by omega
  have he : address.first.toNat / 256 % 16 = 14 := by omega
  have hdigit : ∀ n < 16, (n.digitChar = '8' ↔ n = 8) ∧ (n.digitChar = '0' ↔ n = 0) := by decide
  have height := (hdigit (address.first.toNat / 16 % 16) (Nat.mod_lt _ (by decide))).1
  have hzero := (hdigit (address.first.toNat % 16) (Nat.mod_lt _ (by decide))).2
  have hseen (third fourth : Char) :
      privateAddress (['f', 'e', third, fourth] ++ ':' :: more) = true ↔
        third = '8' ∧ fourth = '0' := by
    simp [privateAddress, is172, List.isPrefixOf, eq_comm (a := '8'), eq_comm (a := '0')]
  rw [htext, hex_eq (by omega), hf, he]
  refine (hseen _ _).trans ?_
  rw [height, hzero, ← UInt16.toNat_inj]
  change _ ↔ address.first.toNat = 0xfe80
  omega

theorem privateAddress_mapped (high low : UInt16) :
    privateAddress (IPv6.mk 0 0 0 0 0 0xffff high low).mixedText = false := by
  rw [IPv6.mixedText_mapped]
  simp [privateAddress, is172, List.isPrefixOf]

theorem privateAddress_bracket (rest : List Char) : privateAddress ('[' :: rest) = false := by
  simp [privateAddress, is172, List.isPrefixOf]

/-- A private address is seen unless it is unspecified, mapped, or of the local link and not of its
first group. -/
theorem seen_iff (address : Address) :
    (address.IsPrivate → privateAddress address.resolvedText = true) ↔ ¬ address.Unseen := by
  cases address with
  | v4 address => exact iff_of_true privateAddress_of_private4 not_false
  | v6 address =>
      constructor
      · rintro hseen (hunspecified | ⟨hlink, hfirst⟩ | hmapped)
        · have htrue := hseen (.inr (.inl hunspecified))
          rw [Unspecified] at hunspecified
          subst hunspecified
          revert htrue
          decide
        · exact hfirst ((privateAddress_linkLocal hlink).mp (hseen (.inr (.inr (.inl hlink)))))
        · have htrue := hseen (.inr (.inr (.inr (.inr hmapped))))
          obtain ⟨high, low, rfl, -⟩ := hmapped
          rw [Address.resolvedText, privateAddress_mapped] at htrue
          cases htrue
      · intro hunseen hprivate
        rcases hprivate with h | h | h | h | h
        · rw [Loopback] at h
          subst h
          decide
        · exact absurd (.inl h) hunseen
        · refine (privateAddress_linkLocal h).mpr ?_
          by_contra hfirst
          exact hunseen (.inr (.inl ⟨h, hfirst⟩))
        · exact privateAddress_of_uniqueLocal h
        · exact absurd (.inr (.inr h)) hunseen

theorem Address.Unseen.isPrivate {address : Address} (h : address.Unseen) : address.IsPrivate := by
  cases address with
  | v4 _ => exact h.elim
  | v6 _ =>
      rcases h with h | ⟨h, -⟩ | h
      · exact .inr (.inl h)
      · exact .inr (.inr (.inl h))
      · exact .inr (.inr (.inr (.inr h)))

/-- What is private is seen in the texts of resolved addresses unless it is unseen, and in those of
hosts if it is of version four. A URL with private addresses is not returned exactly if no unseen
address is among those that pass. -/
theorem webhooks_iff (address : Address) (network : Network) (raw : List Char)
    (channel : AlertChannel) :
    ((address.IsPrivate → privateAddress address.resolvedText = true) ↔ ¬ address.Unseen) ∧
    ((address.IsPrivate → privateAddress address.hostText = true) ↔
      ¬ ∃ other, address = .v6 other ∧ IsPrivate6 other) ∧
    ((∀ url, safeWebhook network raw channel = .ok url →
        ∀ address ∈ network.addresses url.hostname, ¬ address.IsPrivate) ↔
      ∀ url, network.parseUrl raw = some url → Allowed network channel url →
        (∀ address ∈ network.addresses url.hostname,
          privateAddress address.resolvedText = false) →
        ∀ address ∈ network.addresses url.hostname, ¬ address.Unseen) := by
  refine ⟨seen_iff address, ?_, ?_⟩
  · cases address with
    | v4 address =>
        refine iff_of_true privateAddress_of_private4 ?_
        rintro ⟨other, hother, -⟩
        cases hother
    | v6 address =>
        constructor
        · rintro hseen ⟨other, hother, hprivate⟩
          obtain rfl := Address.v6.inj hother
          have htrue := hseen hprivate
          rw [Address.hostText, privateAddress_bracket] at htrue
          cases htrue
        · intro hpublic hprivate
          exact absurd ⟨address, rfl, hprivate⟩ hpublic
  · constructor
    · intro hsafe url hparse hallowed hpass other hother hunseen
      have hok := safeWebhook_eq_ok_iff.mpr
        ⟨hparse, hallowed, List.ne_nil_of_mem hother, hpass⟩
      exact hsafe url hok other hother hunseen.isPrivate
    · intro hnone url hok other hother hprivate
      obtain ⟨hparse, hallowed, -, hpass⟩ := safeWebhook_eq_ok_iff.mp hok
      have hseen := (seen_iff other).mpr (hnone url hparse hallowed hpass other hother) hprivate
      rw [hpass other hother] at hseen
      cases hseen

/-- The loopback address, mapped. -/
def mappedLoopback : IPv6 := ⟨0, 0, 0, 0, 0, 0xffff, 0x7f00, 1⟩

def mappedUrl : Url where
  protocol := "https:".toList
  username := []
  password := []
  hostname := "alerts.example".toList
  href := "https://alerts.example/".toList

/-- A name with this address. -/
def mappedNetwork : Network where
  parseUrl _ := some mappedUrl
  isIP _ := false
  resolve4 _ := none
  resolve6 _ := some [mappedLoopback]

/-- It is not seen, and a URL with it is returned. -/
theorem mappedLoopback_returned :
    ¬ ((Address.v6 mappedLoopback).IsPrivate →
        privateAddress (Address.v6 mappedLoopback).resolvedText = true) ∧
    ¬ ∀ url, safeWebhook mappedNetwork mappedUrl.href .webhook = .ok url →
        ∀ address ∈ mappedNetwork.addresses url.hostname, ¬ address.IsPrivate := by
  have hprivate : (Address.v6 mappedLoopback).IsPrivate :=
    .inr (.inr (.inr (.inr ⟨0x7f00, 1, rfl, .inl (by decide)⟩)))
  have hunseen : privateAddress (Address.v6 mappedLoopback).resolvedText = false :=
    privateAddress_mapped 0x7f00 1
  refine ⟨fun hseen => ?_, fun hsafe => ?_⟩
  · rw [hseen hprivate] at hunseen
    cases hunseen
  · have hmember : Address.v6 mappedLoopback ∈ mappedNetwork.addresses mappedUrl.hostname :=
      List.mem_singleton_self _
    have hok : safeWebhook mappedNetwork mappedUrl.href .webhook = .ok mappedUrl :=
      safeWebhook_eq_ok_iff.mpr ⟨rfl, ⟨rfl, rfl, rfl, by simp, by simp, by simp [mappedNetwork]⟩,
        List.ne_nil_of_mem hmember,
        fun address haddress => by rw [List.mem_singleton.mp haddress]; exact hunseen⟩
    exact hsafe _ hok _ hmember hprivate

end Notifications.Webhooks
