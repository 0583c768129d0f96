import IsmsPortal.Foundation.IsoDate
import IsmsPortal.Foundation.NumberText
import IsmsPortal.Foundation.OrderedMap
import IsmsPortal.Foundation.Runs

/-! # Directory profiles of single sign-on

The profile of a user is looked up in the directory and kept for a while. Calls for one user share a
lookup, and a call may force a new one: it forgets the profile that is kept, but a lookup that is
already in flight is shared with it as well. Only where none is in flight is the profile that a
forced call returns looked up after the call.
-/

namespace Accounts.SsoDirectory

open Foundation Double

universe u

variable {Profile : Type u}

/-! ## State -/

/-- `SSO_DIRECTORY_CACHE_TTL_SECONDS` and `SSO_DIRECTORY_NEGATIVE_CACHE_TTL_SECONDS`. -/
structure Settings where
  cacheTtl : Option (List Char)
  negativeCacheTtl : Option (List Char)

/-- The directory is asked, its answer is remembered, or the promise is settled. -/
inductive Phase (Profile : Type u)
  | asking
  | remembered (profile : Option Profile) (time : Date)
  | settled (profile : Option Profile) (time : Date)

structure Lookup (Profile : Type u) where
  username : String
  phase : Phase Profile

/-- An entry of the cache, with the number of the lookup that the profile is from. -/
structure CachedProfile (Profile : Type u) where
  expiresAt : Double
  profile : Option Profile
  lookup : Nat

inductive Source (Profile : Type u)
  | cached (profile : Option Profile)
  | joined
  | started

/-- A call, and the lookup whose profile it returns: how many lookups had started before the call,
and with what this one had been settled before it. -/
structure Call (Profile : Type u) where
  username : String
  forceRefresh : Bool
  time : Date
  source : Source Profile
  lookup : Nat
  startedBefore : Nat
  settledBefore : Option (Option Profile × Date)

structure Service (Profile : Type u) where
  clock : Date
  ssoDirectoryCache : OrderedMap String (CachedProfile Profile)
  ssoDirectoryInFlight : OrderedMap String Nat
  lookups : List (Lookup Profile)
  calls : List (Call Profile)

/-! ## Steps -/

/-- A missing or empty setting is the fallback, and so is one that is zero or no number. -/
def boundedSeconds (value : Option (List Char)) (fallback : Double) : Double :=
  let seconds :=
    match value with
    | none | some [] => fallback
    | some text => number text
  mathMin (.finite 3600)
    (mathMax (.finite 5) (if seconds = .nan ∨ seconds = .finite 0 then fallback else seconds))

def Settings.ttlSeconds (settings : Settings) : Option Profile → Double
  | some _ => boundedSeconds settings.cacheTtl (.finite 300)
  | none => boundedSeconds settings.negativeCacheTtl (.finite 30)

/-- `Date.now() + ttlSeconds * 1000`. -/
def deadline (time : Date) (ttlSeconds : Double) : Double :=
  add (.finite time.ms) (mul ttlSeconds (.finite 1000))

/-- The oldest entries go while there are ten thousand, up to one without a name. -/
def evictEntries :
    List (Σ _ : String, CachedProfile Profile) → List (Σ _ : String, CachedProfile Profile)
  | [] => []
  | entry :: rest =>
      if 10000 ≤ (entry :: rest).length ∧ entry.1 ≠ "" then evictEntries rest else entry :: rest

theorem evictEntries_suffix (entries : List (Σ _ : String, CachedProfile Profile)) :
    evictEntries entries <:+ entries := by
  induction entries with
  | nil => exact List.suffix_rfl
  | cons entry rest ih =>
      unfold evictEntries
      split
      · exact ih.trans (List.suffix_cons entry rest)
      · exact List.suffix_rfl

def evict (cache : OrderedMap String (CachedProfile Profile)) :
    OrderedMap String (CachedProfile Profile) where
  entries := evictEntries cache.entries
  nodupKeys := cache.nodupKeys.sublist (evictEntries_suffix cache.entries).sublist

def Lookup.settledWith (lookup : Lookup Profile) : Option (Option Profile × Date) :=
  match lookup.phase with
  | .settled profile time => some (profile, time)
  | _ => none

namespace Service

variable (service : Service Profile)

/-- A call that returns the profile of a lookup. -/
def callOf (username : String) (forceRefresh : Bool) (source : Source Profile) (number : Nat) :
    Call Profile where
  username := username
  forceRefresh := forceRefresh
  time := service.clock
  source := source
  lookup := number
  startedBefore := service.lookups.length
  settledBefore := service.lookups[number]?.bind Lookup.settledWith

def rememberSsoDirectoryProfile (settings : Settings) (number : Nat) (username : String)
    (profile : Option Profile) : Service Profile :=
  { service with
    ssoDirectoryCache := OrderedMap.set (evict (service.ssoDirectoryCache.erase username)) username
      ⟨deadline service.clock (settings.ttlSeconds profile), profile, number⟩ }

/-- The part behind the cache: a lookup in flight is shared, or a new one starts. -/
def awaitLookup (cache : OrderedMap String (CachedProfile Profile)) (username : String)
    (forceRefresh : Bool) : Service Profile :=
  match service.ssoDirectoryInFlight.lookup username with
  | some number =>
      { service with
        ssoDirectoryCache := cache
        calls := service.calls ++ [service.callOf username forceRefresh .joined number] }
  | none =>
      { service with
        ssoDirectoryCache := cache
        ssoDirectoryInFlight := service.ssoDirectoryInFlight.set username service.lookups.length
        lookups := service.lookups ++ [⟨username, .asking⟩]
        calls := service.calls ++
          [service.callOf username forceRefresh .started service.lookups.length] }

def ssoDirectoryProfile (username : String) (forceRefresh : Bool) : Service Profile :=
  let cache :=
    if forceRefresh then service.ssoDirectoryCache.erase username else service.ssoDirectoryCache
  match cache.lookup username with
  | some cached =>
      if lt (.finite service.clock.ms) cached.expiresAt then
        { service with
          ssoDirectoryCache := OrderedMap.set (cache.erase username) username cached
          calls := service.calls ++
            [service.callOf username forceRefresh (.cached cached.profile) cached.lookup] }
      else service.awaitLookup (cache.erase username) username forceRefresh
  | none => service.awaitLookup cache username forceRefresh

end Service

inductive Move (Profile : Type u)
  | drift (time : Date)
  | call (username : String) (forceRefresh : Bool)
  | answer (number : Nat) (profile : Option Profile)
  | settle (number : Nat)

/-- The directory answers a lookup, with nothing where it fails, and the answer is remembered. The
promise of the lookup is settled later. -/
def Service.next (settings : Settings) (service : Service Profile) :
    Move Profile → Option (Service Profile)
  | .drift time => if service.clock.ms ≤ time.ms then some { service with clock := time } else none
  | .call username forceRefresh => some (service.ssoDirectoryProfile username forceRefresh)
  | .answer number profile =>
      match service.lookups[number]? with
      | some ⟨username, .asking⟩ =>
          some
            { service.rememberSsoDirectoryProfile settings number username profile with
              lookups := service.lookups.set number ⟨username, .remembered profile service.clock⟩ }
      | _ => none
  | .settle number =>
      match service.lookups[number]? with
      | some ⟨username, .remembered profile _⟩ =>
          some { service with
            ssoDirectoryInFlight := service.ssoDirectoryInFlight.erase username
            lookups := service.lookups.set number ⟨username, .settled profile service.clock⟩ }
      | _ => none

/-- A new `AuthService`. -/
def Service.Initial (service : Service Profile) : Prop :=
  service.ssoDirectoryCache = ∅ ∧ service.ssoDirectoryInFlight = ∅ ∧ service.lookups = [] ∧
    service.calls = []

def system (settings : Settings) : System (Service Profile) (Move Profile) where
  init := Service.Initial
  step service move after := service.next settings move = some after

/-! ## Lifetimes -/

/-- Between five seconds and an hour. -/
theorem exists_clamped {seconds : Double} (h : seconds ≠ .nan) :
    ∃ bounded : ℚ, mathMin (.finite 3600) (mathMax (.finite 5) seconds) = .finite bounded ∧
      5 ≤ bounded ∧ bounded ≤ 3600 := by
  have hfive : mathMin (.finite 3600) (.finite 5) = .finite 5 := by
    have hlt : lt (.finite 5) (.finite 3600) = true := by norm_num [lt]
    rw [mathMin, if_neg (by simp), if_pos hlt]
  cases seconds with
  | nan => exact absurd rfl h
  | infinity negative =>
      cases negative with
      | false => exact ⟨3600, by simp [mathMin, mathMax, lt], by norm_num, by norm_num⟩
      | true => exact ⟨5, by simpa [mathMax, lt] using hfive, by norm_num, by norm_num⟩
  | finite value =>
      obtain hlow | hlow := lt_or_ge 5 value
      · obtain hhigh | hhigh := lt_or_ge value 3600
        · exact ⟨value, by simp [mathMin, mathMax, lt, hlow, hhigh], hlow.le, hhigh.le⟩
        · exact ⟨3600, by simp [mathMin, mathMax, lt, hlow, not_lt.mpr hhigh], by norm_num, le_rfl⟩
      · exact ⟨5, by simpa [mathMax, lt, not_lt.mpr hlow] using hfive, le_rfl, by norm_num⟩

theorem exists_boundedSeconds (value : Option (List Char)) (fallback : ℚ) :
    ∃ bounded : ℚ, boundedSeconds value (.finite fallback) = .finite bounded ∧
      5 ≤ bounded ∧ bounded ≤ 3600 := by
  unfold boundedSeconds
  apply exists_clamped
  generalize (match value with
    | none | some [] => Double.finite fallback
    | some text => number text) = seconds
  split
  next => simp
  next hvalid => exact fun hnan => hvalid (.inl hnan)

theorem exists_ttlSeconds (settings : Settings) (profile : Option Profile) :
    ∃ seconds : ℚ, settings.ttlSeconds profile = .finite seconds ∧
      5 ≤ seconds ∧ seconds ≤ 3600 := by
  cases profile with
  | none => exact exists_boundedSeconds _ _
  | some _ => exact exists_boundedSeconds _ _

/-- A time before the deadline is less than the lifetime later. -/
theorem elapsed_of_lt {time now : Date} {seconds : ℚ} (hlow : 5 ≤ seconds)
    (hhigh : seconds ≤ 3600) (h : lt (.finite now.ms) (deadline time (.finite seconds)) = true) :
    ((now.ms - time.ms : ℤ) : ℚ) < seconds * 1000 := by
  obtain ⟨hfirst, hlast⟩ := time.inRange
  unfold maxTime at hfirst hlast
  have hfirst' : (-8640000000000000 : ℚ) ≤ time.ms := by exact_mod_cast hfirst
  have hlast' : (time.ms : ℚ) ≤ 8640000000000000 := by exact_mod_cast hlast
  have hsmall : |seconds * 1000| < 2 ^ 53 := by
    rw [abs_lt]
    constructor <;> norm_num <;> linarith
  obtain ⟨span, hspan, hspanLow, hspanHigh⟩ := exists_ofRat hsmall
  have hspanLarge := Int.lt_floor_add_one (seconds * 1000)
  have hspanSmall := Int.ceil_lt_add_one (seconds * 1000)
  have hsum : |(time.ms : ℚ) + span| < 2 ^ 53 := by
    rw [abs_lt]
    constructor <;> norm_num <;> linarith
  obtain ⟨stop, hstop, -, hstopHigh⟩ := exists_ofRat hsum
  rw [deadline, mul, hspan, add, hstop, lt, decide_eq_true_iff] at h
  have hceil : ⌈(time.ms : ℚ) + span⌉ ≤ time.ms + ⌈seconds * 1000⌉ := by
    rw [Int.ceil_le]
    push_cast
    linarith
  have hbefore : now.ms < time.ms + ⌈seconds * 1000⌉ := by
    have hnow : (now.ms : ℚ) < ((time.ms + ⌈seconds * 1000⌉ : ℤ) : ℚ) :=
      h.trans_le (hstopHigh.trans (by exact_mod_cast hceil))
    exact_mod_cast hnow
  exact Int.lt_ceil.mp (by omega)

/-! ## What a call does -/

/-- The entries of one cache are in another. -/
def Within (cache other : OrderedMap String (CachedProfile Profile)) : Prop :=
  ∀ entry ∈ cache.entries, entry ∈ other.entries

theorem within_erase (cache : OrderedMap String (CachedProfile Profile)) (username : String) :
    Within (cache.erase username) cache :=
  fun _ hentry => (OrderedMap.mem_entries_erase hentry).2

/-- A call returns a profile that is kept, shares a lookup or starts one. -/
inductive CallEffect (service : Service Profile) (username : String) (forceRefresh : Bool) :
    Service Profile → Prop
  | cached {cache : OrderedMap String (CachedProfile Profile)}
      (hcache : Within cache service.ssoDirectoryCache) {entry : CachedProfile Profile}
      (hunforced : forceRefresh = false)
      (hentry : (⟨username, entry⟩ : Σ _ : String, CachedProfile Profile) ∈
        service.ssoDirectoryCache.entries)
      (hfresh : lt (.finite service.clock.ms) entry.expiresAt = true) :
      CallEffect service username forceRefresh
        { service with
          ssoDirectoryCache := cache
          calls := service.calls ++
            [service.callOf username forceRefresh (.cached entry.profile) entry.lookup] }
  | joined {cache : OrderedMap String (CachedProfile Profile)}
      (hcache : Within cache service.ssoDirectoryCache) {number : Nat}
      (hflight : service.ssoDirectoryInFlight.lookup username = some number) :
      CallEffect service username forceRefresh
        { service with
          ssoDirectoryCache := cache
          calls := service.calls ++ [service.callOf username forceRefresh .joined number] }
  | started {cache : OrderedMap String (CachedProfile Profile)}
      (hcache : Within cache service.ssoDirectoryCache)
      (hflight : service.ssoDirectoryInFlight.lookup username = none) :
      CallEffect service username forceRefresh
        { service with
          ssoDirectoryCache := cache
          ssoDirectoryInFlight := service.ssoDirectoryInFlight.set username service.lookups.length
          lookups := service.lookups ++ [⟨username, .asking⟩]
          calls := service.calls ++
            [service.callOf username forceRefresh .started service.lookups.length] }

section Effect

variable {service : Service Profile}

theorem awaitLookup_effect {cache : OrderedMap String (CachedProfile Profile)}
    (hcache : Within cache service.ssoDirectoryCache) (username : String) (forceRefresh : Bool) :
    CallEffect service username forceRefresh
      (service.awaitLookup cache username forceRefresh) := by
  unfold Service.awaitLookup
  split
  next number hflight => exact .joined hcache hflight
  next hflight => exact .started hcache hflight

theorem ssoDirectoryProfile_effect (username : String) (forceRefresh : Bool) :
    CallEffect service username forceRefresh
      (service.ssoDirectoryProfile username forceRefresh) := by
  unfold Service.ssoDirectoryProfile
  cases forceRefresh with
  | true =>
      have herased : (service.ssoDirectoryCache.erase username).lookup username = none :=
        AList.lookup_erase username service.ssoDirectoryCache
      simp only [if_true, herased]
      exact awaitLookup_effect (within_erase _ username) username true
  | false =>
      simp only [Bool.false_eq_true, if_false]
      split
      next entry hlookup =>
        have hentry := OrderedMap.mem_of_lookup hlookup
        split
        next hfresh =>
          have hnone : username ∉ service.ssoDirectoryCache.erase username :=
            fun hmem => (AList.mem_erase.mp hmem).1 rfl
          refine .cached ?_ rfl hentry hfresh
          intro other hother
          obtain hold | hnew := (OrderedMap.mem_entries_set hnone).mp hother
          · exact (OrderedMap.mem_entries_erase hold).2
          · rw [hnew]
            exact hentry
        next => exact awaitLookup_effect (within_erase _ username) username false
      next => exact awaitLookup_effect (fun _ hentry => hentry) username false

/-- One call is added, and a lookup that it shares is in flight. -/
theorem CallEffect.calls {after : Service Profile} {username : String} {forceRefresh : Bool}
    (heffect : CallEffect service username forceRefresh after) :
    ∃ source number,
      after.calls = service.calls ++ [service.callOf username forceRefresh source number] ∧
      (source = .joined → username ∈ service.ssoDirectoryInFlight) := by
  cases heffect with
  | @cached _ _ entry => exact ⟨.cached entry.profile, entry.lookup, rfl, by simp⟩
  | @joined _ hcache number hflight =>
      refine ⟨.joined, number, rfl, fun _ => ?_⟩
      exact AList.lookup_isSome.mp (by simp [hflight])
  | started => exact ⟨.started, service.lookups.length, rfl, by simp⟩

end Effect

/-! ## Progress of the lookups -/

def Phase.profile : Phase Profile → Option (Option Profile)
  | .asking => none
  | .remembered profile _ | .settled profile _ => some profile

/-- Lookups keep their users and their answers. -/
def Extends (lookups later : List (Lookup Profile)) : Prop :=
  ∀ (number : Nat) (lookup : Lookup Profile), lookups[number]? = some lookup →
    ∃ after : Lookup Profile, later[number]? = some after ∧ after.username = lookup.username ∧
      ∀ profile, lookup.phase.profile = some profile → after.phase.profile = some profile

theorem extends_append (lookups : List (Lookup Profile)) (lookup : Lookup Profile) :
    Extends lookups (lookups ++ [lookup]) := by
  intro number found hfound
  have hlt := (List.getElem?_eq_some_iff.mp hfound).1
  refine ⟨found, ?_, rfl, fun _ hprofile => hprofile⟩
  rwa [List.getElem?_append_left hlt]

theorem extends_set {lookups : List (Lookup Profile)} {number : Nat} {lookup after : Lookup Profile}
    (hlookup : lookups[number]? = some lookup) (husername : after.username = lookup.username)
    (hprofile : ∀ profile, lookup.phase.profile = some profile →
      after.phase.profile = some profile) : Extends lookups (lookups.set number after) := by
  intro other found hfound
  by_cases hother : other = number
  · subst hother
    obtain rfl : lookup = found := Option.some.inj (hlookup.symm.trans hfound)
    have hlt := (List.getElem?_eq_some_iff.mp hlookup).1
    exact ⟨after, List.getElem?_set_self hlt, husername, hprofile⟩
  · refine ⟨found, ?_, rfl, fun _ hkept => hkept⟩
    rwa [List.getElem?_set_ne (Ne.symm hother)]

/-! ## Every state -/

/-- The entry keeps what a lookup of the user has answered, for the lifetime of the answer. -/
def Gave (settings : Settings) (lookup : Lookup Profile) (username : String)
    (entry : CachedProfile Profile) : Prop :=
  lookup.username = username ∧ ∃ time : Date,
    entry.expiresAt = deadline time (settings.ttlSeconds entry.profile) ∧
    (lookup.phase = .remembered entry.profile time ∨
      ∃ later : Date, time.ms ≤ later.ms ∧ lookup.phase = .settled entry.profile later)

/-- The lookup of a call is one for its user, and a profile that was kept is its answer. -/
def Answers (lookups : List (Lookup Profile)) (call : Call Profile) : Prop :=
  ∃ lookup, lookups[call.lookup]? = some lookup ∧ lookup.username = call.username ∧
    ∀ profile, call.source = .cached profile → lookup.phase.profile = some profile

/-- What is known of a call: a forced one does not return what is kept, and a profile that is kept
is younger than its lifetime. -/
structure Told (settings : Settings) (lookups : List (Lookup Profile)) (call : Call Profile) :
    Prop where
  lookup : Answers lookups call
  forced : call.forceRefresh = true → ∀ profile, call.source ≠ .cached profile
  joined : call.source = .joined → call.lookup < call.startedBefore ∧ call.settledBefore = none
  started : call.source = .started → call.lookup = call.startedBefore ∧ call.settledBefore = none
  cached : ∀ profile, call.source = .cached profile → ∀ result ∈ call.settledBefore,
    ∃ seconds : ℚ, settings.ttlSeconds result.1 = .finite seconds ∧
      ((call.time.ms - result.2.ms : ℤ) : ℚ) < seconds * 1000

structure Sound (settings : Settings) (service : Service Profile) : Prop where
  cached : ∀ (username : String) (entry : CachedProfile Profile),
    (⟨username, entry⟩ : Σ _ : String, CachedProfile Profile) ∈
      service.ssoDirectoryCache.entries →
    ∃ lookup, service.lookups[entry.lookup]? = some lookup ∧ Gave settings lookup username entry
  inFlight : ∀ (username : String) (number : Nat),
    (⟨username, number⟩ : Σ _ : String, Nat) ∈ service.ssoDirectoryInFlight.entries →
    ∃ lookup, service.lookups[number]? = some lookup ∧ lookup.username = username ∧
      lookup.settledWith = none
  clock : ∀ lookup ∈ service.lookups, ∀ profile time,
    lookup.phase = .remembered profile time → time.ms ≤ service.clock.ms
  calls : ∀ call ∈ service.calls, Told settings service.lookups call

section Sound

variable {settings : Settings} {service after : Service Profile} {username : String}

theorem Sound.init (hinit : service.Initial) : Sound settings service := by
  obtain ⟨hcache, hinFlight, hlookups, hcalls⟩ := hinit
  constructor <;> simp [hcache, hinFlight, hlookups, hcalls]

theorem Told.mono {lookups later : List (Lookup Profile)} {call : Call Profile}
    (htold : Told settings lookups call) (hextends : Extends lookups later) :
    Told settings later call where
  lookup := by
    obtain ⟨lookup, hlookup, husername, hprofile⟩ := htold.lookup
    obtain ⟨after, hafter, hsame, hkept⟩ := hextends call.lookup lookup hlookup
    exact ⟨after, hafter, hsame.trans husername,
      fun profile hsource => hkept profile (hprofile profile hsource)⟩
  forced := htold.forced
  joined := htold.joined
  started := htold.started
  cached := htold.cached

theorem Sound.drift (hsound : Sound settings service) {time : Date}
    (htime : service.clock.ms ≤ time.ms) : Sound settings { service with clock := time } where
  cached := hsound.cached
  inFlight := hsound.inFlight
  clock lookup hlookup profile remembered hphase :=
    (hsound.clock lookup hlookup profile remembered hphase).trans htime
  calls := hsound.calls

/-! ### Calls -/

/-- A profile that is kept and has not expired was answered within its lifetime. -/
theorem Sound.told_cached (hsound : Sound settings service) {entry : CachedProfile Profile}
    (hentry : (⟨username, entry⟩ : Σ _ : String, CachedProfile Profile) ∈
      service.ssoDirectoryCache.entries)
    (hfresh : lt (.finite service.clock.ms) entry.expiresAt = true) :
    Told settings service.lookups
      (service.callOf username false (.cached entry.profile) entry.lookup) := by
  obtain ⟨lookup, hlookup, husername, time, hexpires, hphase⟩ := hsound.cached username entry hentry
  refine ⟨⟨lookup, hlookup, husername, ?_⟩, by simp [Service.callOf], by simp [Service.callOf],
    by simp [Service.callOf], ?_⟩
  · intro profile hsource
    cases hsource
    obtain hphase | ⟨later, -, hphase⟩ := hphase
    · rw [hphase]
      rfl
    · rw [hphase]
      rfl
  · intro profile hsource result hresult
    have hsettled : lookup.settledWith = some result := by
      simpa [Service.callOf, hlookup] using hresult
    obtain hphase | ⟨later, hlater, hphase⟩ := hphase
    · rw [Lookup.settledWith, hphase] at hsettled
      cases hsettled
    · rw [Lookup.settledWith, hphase] at hsettled
      obtain rfl := Option.some.inj hsettled
      obtain ⟨seconds, hseconds, hlow, hhigh⟩ := exists_ttlSeconds settings entry.profile
      rw [hexpires, hseconds] at hfresh
      refine ⟨seconds, hseconds, ?_⟩
      have helapsed := elapsed_of_lt hlow hhigh hfresh
      have hle : ((service.clock.ms - later.ms : ℤ) : ℚ) ≤
          ((service.clock.ms - time.ms : ℤ) : ℚ) := by exact_mod_cast by omega
      exact hle.trans_lt helapsed

theorem Sound.told_joined (hsound : Sound settings service) {number : Nat}
    (hflight : service.ssoDirectoryInFlight.lookup username = some number)
    (forceRefresh : Bool) :
    Told settings service.lookups (service.callOf username forceRefresh .joined number) := by
  obtain ⟨lookup, hlookup, husername, hsettled⟩ :=
    hsound.inFlight username number (OrderedMap.mem_of_lookup hflight)
  have hlt := (List.getElem?_eq_some_iff.mp hlookup).1
  refine ⟨⟨lookup, hlookup, husername, by simp [Service.callOf]⟩, by simp [Service.callOf], ?_,
    by simp [Service.callOf], by simp [Service.callOf]⟩
  intro _
  exact ⟨hlt, by simp [Service.callOf, hlookup, hsettled]⟩

theorem told_started (service : Service Profile) (username : String) (forceRefresh : Bool) :
    Told settings (service.lookups ++ [⟨username, .asking⟩])
      (service.callOf username forceRefresh .started service.lookups.length) := by
  refine ⟨⟨⟨username, .asking⟩, List.getElem?_concat_length, rfl, by simp [Service.callOf]⟩,
    by simp [Service.callOf], by simp [Service.callOf], ?_, by simp [Service.callOf]⟩
  intro _
  exact ⟨rfl, by simp [Service.callOf]⟩

theorem Sound.call {forceRefresh : Bool} (hsound : Sound settings service)
    (heffect : CallEffect service username forceRefresh after) : Sound settings after := by
  cases heffect with
  | cached hcache hunforced hentry hfresh =>
      subst hunforced
      refine { hsound with cached := ?_, calls := ?_ }
      · exact fun other entry hother => hsound.cached other entry (hcache _ hother)
      · exact List.forall_mem_append.mpr ⟨hsound.calls,
          List.forall_mem_singleton.mpr (hsound.told_cached hentry hfresh)⟩
  | joined hcache hflight =>
      refine { hsound with cached := ?_, calls := ?_ }
      · exact fun other entry hother => hsound.cached other entry (hcache _ hother)
      · exact List.forall_mem_append.mpr ⟨hsound.calls,
          List.forall_mem_singleton.mpr (hsound.told_joined hflight forceRefresh)⟩
  | started hcache hflight =>
      have hkept (number : Nat) (lookup : Lookup Profile)
          (hlookup : service.lookups[number]? = some lookup) :
          (service.lookups ++ [⟨username, .asking⟩])[number]? = some lookup := by
        have hlt := (List.getElem?_eq_some_iff.mp hlookup).1
        rwa [List.getElem?_append_left hlt]
      have hnone : username ∉ service.ssoDirectoryInFlight := AList.lookup_eq_none.mp hflight
      refine ⟨?_, ?_, ?_, ?_⟩
      · intro other entry hother
        obtain ⟨lookup, hlookup, hgave⟩ := hsound.cached other entry (hcache _ hother)
        exact ⟨lookup, hkept _ _ hlookup, hgave⟩
      · intro other number hother
        obtain hold | hnew := (OrderedMap.mem_entries_set hnone).mp hother
        · obtain ⟨lookup, hlookup, hknown⟩ := hsound.inFlight other number hold
          exact ⟨lookup, hkept _ _ hlookup, hknown⟩
        · cases hnew
          exact ⟨⟨username, .asking⟩, List.getElem?_concat_length, rfl, rfl⟩
      · apply List.forall_mem_append.mpr ⟨hsound.clock, List.forall_mem_singleton.mpr _⟩
        intro profile time hphase
        cases hphase
      · apply List.forall_mem_append.mpr ⟨?_, List.forall_mem_singleton.mpr (told_started _ _ _)⟩
        exact fun call hcall => (hsound.calls call hcall).mono (extends_append _ _)

/-! ### Answers -/

theorem Sound.answer {number : Nat} (hsound : Sound settings service)
    (hlookup : service.lookups[number]? = some ⟨username, .asking⟩) (profile : Option Profile) :
    Sound settings { service.rememberSsoDirectoryProfile settings number username profile with
      lookups := service.lookups.set number ⟨username, .remembered profile service.clock⟩ } := by
  have hlt := (List.getElem?_eq_some_iff.mp hlookup).1
  have hnone : username ∉ evict (service.ssoDirectoryCache.erase username) := by
    intro hmem
    obtain ⟨entry, hentry⟩ := List.exists_of_mem_keys hmem
    have hkept := (evictEntries_suffix _).subset hentry
    exact (OrderedMap.mem_entries_erase hkept).1 rfl
  refine ⟨?_, ?_, ?_, ?_⟩
  · intro other entry hother
    obtain hold | hnew := (OrderedMap.mem_entries_set hnone).mp hother
    · have hkept := OrderedMap.mem_entries_erase ((evictEntries_suffix _).subset hold)
      obtain ⟨lookup, hfound, husername, time, hexpires, hphase⟩ :=
        hsound.cached other entry hkept.2
      -- The lookup that is answered has no entry yet.
      have hplace : number ≠ entry.lookup := by
        rintro rfl
        obtain rfl := Option.some.inj (hlookup.symm.trans hfound)
        obtain hphase | ⟨later, -, hphase⟩ := hphase
        · cases hphase
        · cases hphase
      refine ⟨lookup, ?_, husername, time, hexpires, hphase⟩
      exact (List.getElem?_set_ne hplace).trans hfound
    · cases hnew
      exact ⟨_, List.getElem?_set_self hlt, rfl, service.clock, rfl, .inl rfl⟩
  · intro other place hother
    obtain ⟨lookup, hfound, husername, hsettled⟩ := hsound.inFlight other place hother
    by_cases hplace : number = place
    · subst hplace
      obtain rfl := Option.some.inj (hlookup.symm.trans hfound)
      exact ⟨_, List.getElem?_set_self hlt, husername, rfl⟩
    · exact ⟨lookup, (List.getElem?_set_ne hplace).trans hfound, husername, hsettled⟩
  · intro lookup hmem other time hphase
    obtain hold | rfl := List.mem_or_eq_of_mem_set hmem
    · exact hsound.clock lookup hold other time hphase
    · cases hphase
      exact le_refl _
  · intro call hcall
    have hextends : Extends service.lookups
        (service.lookups.set number ⟨username, .remembered profile service.clock⟩) :=
      extends_set hlookup rfl fun other hother => by cases hother
    exact (hsound.calls call hcall).mono hextends

theorem Sound.settle {number : Nat} {profile : Option Profile} {time : Date}
    (hsound : Sound settings service)
    (hlookup : service.lookups[number]? = some ⟨username, .remembered profile time⟩) :
    Sound settings { service with
      ssoDirectoryInFlight := service.ssoDirectoryInFlight.erase username
      lookups := service.lookups.set number ⟨username, .settled profile service.clock⟩ } := by
  have hlt := (List.getElem?_eq_some_iff.mp hlookup).1
  have htime : time.ms ≤ service.clock.ms :=
    hsound.clock _ (List.mem_of_getElem? hlookup) profile time rfl
  refine ⟨?_, ?_, ?_, ?_⟩
  · intro other entry hother
    obtain ⟨lookup, hfound, husername, remembered, hexpires, hphase⟩ :=
      hsound.cached other entry hother
    by_cases hplace : number = entry.lookup
    · subst hplace
      obtain rfl := Option.some.inj (hlookup.symm.trans hfound)
      obtain hphase | ⟨later, -, hphase⟩ := hphase
      · cases hphase
        exact ⟨_, List.getElem?_set_self hlt, husername, time, hexpires,
          .inr ⟨service.clock, htime, rfl⟩⟩
      · cases hphase
    · exact ⟨lookup, (List.getElem?_set_ne hplace).trans hfound, husername, remembered, hexpires,
        hphase⟩
  · intro other place hother
    obtain ⟨hdifferent, hold⟩ := OrderedMap.mem_entries_erase hother
    obtain ⟨lookup, hfound, husername, hsettled⟩ := hsound.inFlight other place hold
    -- The settled lookup is not the one of another user.
    have hplace : number ≠ place := by
      rintro rfl
      obtain rfl := Option.some.inj (hlookup.symm.trans hfound)
      exact hdifferent husername.symm
    exact ⟨lookup, (List.getElem?_set_ne hplace).trans hfound, husername, hsettled⟩
  · intro lookup hmem other remembered hphase
    obtain hold | rfl := List.mem_or_eq_of_mem_set hmem
    · exact hsound.clock lookup hold other remembered hphase
    · cases hphase
  · intro call hcall
    exact (hsound.calls call hcall).mono
      (extends_set hlookup rfl fun other hother => hother)

theorem Sound.step {move : Move Profile} (hsound : Sound settings service)
    (hstep : service.next settings move = some after) : Sound settings after := by
  cases move with
  | drift time =>
      obtain ⟨htime, hafter⟩ := Option.ite_none_right_eq_some.mp hstep
      obtain rfl := Option.some.inj hafter
      exact hsound.drift htime
  | call username forceRefresh =>
      obtain rfl := Option.some.inj hstep
      exact hsound.call (ssoDirectoryProfile_effect username forceRefresh)
  | answer number profile =>
      rw [Service.next] at hstep
      split at hstep
      next username hlookup =>
        obtain rfl := Option.some.inj hstep
        exact hsound.answer hlookup profile
      next => cases hstep
  | settle number =>
      rw [Service.next] at hstep
      split at hstep
      next username profile time hlookup =>
        obtain rfl := Option.some.inj hstep
        exact hsound.settle hlookup
      next => cases hstep

end Sound

/-! ## Fresh profiles -/

/-- What a call should return: a forced one a profile whose lookup started with the call or after
it, another one a profile whose lookup completed within the lifetime. -/
structure Fresh (settings : Settings) (call : Call Profile) : Prop where
  forced : call.forceRefresh = true → ¬ call.lookup < call.startedBefore
  unforced : call.forceRefresh = false → ∀ result ∈ call.settledBefore,
    ∃ seconds : ℚ, settings.ttlSeconds result.1 = .finite seconds ∧
      ((call.time.ms - result.2.ms : ℤ) : ℚ) < seconds * 1000

/-- Only a lookup that is shared is older than a forced call. -/
theorem Told.fresh_iff {settings : Settings} {lookups : List (Lookup Profile)}
    {call : Call Profile} (htold : Told settings lookups call) :
    Fresh settings call ↔ (call.forceRefresh = true → call.source ≠ .joined) := by
  constructor
  · intro hfresh hforced hjoined
    exact hfresh.forced hforced (htold.joined hjoined).1
  · intro hapart
    constructor
    · intro hforced
      cases hsource : call.source with
      | cached profile => exact absurd hsource (htold.forced hforced profile)
      | joined => exact absurd hsource (hapart hforced)
      | started =>
          rw [(htold.started hsource).1]
          exact lt_irrefl _
    · intro _
      cases hsource : call.source with
      | cached profile => exact htold.cached profile hsource
      | joined => simp [(htold.joined hsource).2]
      | started => simp [(htold.started hsource).2]

/-- A forced call finds no lookup of its user in flight. -/
def ForcedAlone (service : Service Profile) (move : Move Profile) : Prop :=
  ∀ username, move = .call username true → username ∉ service.ssoDirectoryInFlight

section Runs

variable {settings : Settings} {service : Service Profile}

theorem Sound.reachable {allowed : Service Profile → Move Profile → Prop}
    (hreach : (system settings).ReachableWhile allowed service) : Sound settings service := by
  apply hreach.invariant
  · exact fun service hinit => .init hinit
  · exact fun service move after hsound _ hstep => hsound.step hstep

/-- Calls are added by calls only, and a forced one shares a lookup only if it is in flight. -/
theorem mem_calls_of_next {after : Service Profile} {move : Move Profile} {call : Call Profile}
    (hstep : service.next settings move = some after) (hcall : call ∈ after.calls) :
    call ∈ service.calls ∨ ∃ forceRefresh, move = .call call.username forceRefresh ∧
      call.forceRefresh = forceRefresh ∧
      (call.source = .joined → call.username ∈ service.ssoDirectoryInFlight) := by
  cases move with
  | drift time =>
      obtain ⟨-, hafter⟩ := Option.ite_none_right_eq_some.mp hstep
      obtain rfl := Option.some.inj hafter
      exact .inl hcall
  | call username forceRefresh =>
      obtain rfl := Option.some.inj hstep
      obtain ⟨source, number, hcalls, hjoined⟩ :=
        (ssoDirectoryProfile_effect username forceRefresh).calls
      rw [hcalls] at hcall
      obtain hold | hnew := List.mem_append.mp hcall
      · exact .inl hold
      · obtain rfl := List.mem_singleton.mp hnew
        exact .inr ⟨forceRefresh, rfl, rfl, hjoined⟩
  | answer number profile =>
      rw [Service.next] at hstep
      split at hstep
      next =>
        obtain rfl := Option.some.inj hstep
        exact .inl hcall
      next => cases hstep
  | settle number =>
      rw [Service.next] at hstep
      split at hstep
      next =>
        obtain rfl := Option.some.inj hstep
        exact .inl hcall
      next => cases hstep

/-- Where no forced call finds a lookup of its user in flight, all calls return fresh profiles. -/
theorem ssoDirectoryProfile_fresh
    (hreach : (system settings).ReachableWhile ForcedAlone service) :
    ∀ call ∈ service.calls, Answers service.lookups call ∧ Fresh settings call := by
  have halone : ∀ call ∈ service.calls, call.forceRefresh = true → call.source ≠ .joined := by
    apply hreach.invariant
    · rintro service ⟨-, -, -, hcalls⟩
      simp [hcalls]
    · intro service move after hbefore hallowed hstep call hcall hforced hjoined
      obtain hold | ⟨forceRefresh, hmove, hsame, hflight⟩ := mem_calls_of_next hstep hcall
      · exact hbefore call hold hforced hjoined
      · obtain rfl : forceRefresh = true := hsame.symm.trans hforced
        exact hallowed call.username hmove (hflight hjoined)
  intro call hcall
  have htold := (Sound.reachable hreach).calls call hcall
  exact ⟨htold.lookup, htold.fresh_iff.mpr (halone call hcall)⟩

/-- A service that has just started. -/
def idle : Service (List String) :=
  ⟨⟨0, by decide⟩, ∅, ∅, [], []⟩

theorem ssoDirectoryProfile_fresh_alone :
    ∃ service : Service (List String), (∃ call ∈ service.calls, call.forceRefresh = true) ∧
      ∀ call ∈ service.calls, Answers service.lookups call ∧ Fresh ⟨none, none⟩ call := by
  have hidle : idle.Initial := ⟨rfl, rfl, rfl, rfl⟩
  have halone : ForcedAlone idle (.call "alice" true) := by
    intro username _
    simp [idle]
  refine ⟨idle.ssoDirectoryProfile "alice" true, ⟨_, List.mem_singleton_self _, rfl⟩, ?_⟩
  exact ssoDirectoryProfile_fresh (.step (.init hidle) halone rfl)

/-- A forced call returns the groups of a lookup that was in flight when it was made. -/
theorem sharedLookup_stale :
    ∃ service : Service (List String), (system ⟨none, none⟩).Reachable service ∧
      ∃ call ∈ service.calls, call.forceRefresh = true ∧ call.lookup < call.startedBefore ∧
        service.lookups[call.lookup]? =
          some ⟨call.username, .settled (some ["ISMS-EDITORS"]) ⟨0, by decide⟩⟩ ∧
        ¬ Fresh ⟨none, none⟩ call := by
  have hrun : ∃ service, System.execute (Service.next ⟨none, none⟩) idle
      [.call "alice" false, .call "alice" true, .answer 0 (some ["ISMS-EDITORS"]), .settle 0] =
        some service ∧
      service.calls = [⟨"alice", false, ⟨0, by decide⟩, .started, 0, 0, none⟩,
        ⟨"alice", true, ⟨0, by decide⟩, .joined, 0, 1, none⟩] ∧
      service.lookups =
        [⟨"alice", .settled (some ["ISMS-EDITORS"]) ⟨0, by decide⟩⟩] :=
    ⟨_, rfl, rfl, rfl⟩
  obtain ⟨service, hservice, hcalls, hlookups⟩ := hrun
  refine ⟨service, System.ReachableWhile.execute (fun _ _ _ hnext => ⟨trivial, hnext⟩) hservice
    (.init ⟨rfl, rfl, rfl, rfl⟩), ⟨"alice", true, ⟨0, by decide⟩, .joined, 0, 1, none⟩, ?_⟩
  refine ⟨by simp [hcalls], rfl, Nat.zero_lt_one, by simp [hlookups], ?_⟩
  exact fun hfresh => hfresh.forced rfl Nat.zero_lt_one

end Runs

end Accounts.SsoDirectory
