import IsmsPortal.Foundation.JsString
import IsmsPortal.Foundation.Json
import IsmsPortal.Foundation.Runs
import Mathlib.Logic.Function.Basic

/-! # The identity in the browser

`getPortalIdentity` answers from a cache, or lets callers wait for one request. A forced call
starts a new request unless a forced one is pending. Requests are numbered; a request whose
number is no longer the last when its body is read gives an error and leaves the cache alone.
Responses, timers, callers and the callbacks of promises come in any order.
-/

namespace IsmsPortal

open Foundation

/-! ## State -/

inductive SessionFailure
  | unauthorized
  | forbidden
  | timeout
  | unavailable
deriving DecidableEq

/-- How the promise of a request ends. -/
inductive IdentityOutcome
  | value (value : Json)
  | error (reason : SessionFailure)

/-- Where a request is: `fetch` or `json` are pending, the handlers have run, or the promise that
callers wait for is settled. -/
inductive IdentityPhase
  | fetching
  | reading
  | answered (outcome : IdentityOutcome)
  | settled (outcome : IdentityOutcome)

structure IdentityRequest where
  forced : Bool
  aborted : Bool
  phase : IdentityPhase
  cleared : Bool

/-- `cachedIdentity`, with the number of the request that wrote it. -/
structure CachedIdentity where
  value : Json
  expiresAt : Int
  version : Nat

/-- What a caller waits for. -/
inductive WaitSource
  | nothing
  | cached (entry : CachedIdentity)
  | request (version : Nat)

/-- The request that a value would come from. -/
def WaitSource.version : WaitSource → Option Nat
  | .nothing => none
  | .cached entry => some entry.version
  | .request version => some version

inductive CallerOutcome
  | value (value : Json)
  | error (reason : SessionFailure)
  | aborted

structure IdentityCaller where
  source : WaitSource
  hasSignal : Bool
  outcome : Option CallerOutcome

/-- The variables of the module, the requests by their numbers, and the callers. -/
structure BrowserSession where
  clock : Int
  cachedIdentity : Option CachedIdentity
  pendingIdentity : Option Nat
  pendingForced : Bool
  identityVersion : Nat
  requests : Nat → Option IdentityRequest
  callers : List IdentityCaller

/-! ## Validation -/

def isBooleanValue : Json → Bool
  | .bool _ => true
  | _ => false

/-- The check of the body. -/
def isIdentity : Json → Bool
  | .obj fields =>
      (match fields.lookup "username" with
        | some (.str username) => JsString.trim username ≠ "" && JsString.length username ≤ 255
        | _ => false) &&
      (fields.lookup "isAdmin").any isBooleanValue &&
      (fields.lookup "isModerator").any isBooleanValue
  | _ => false

/-! ## Calls -/

namespace BrowserSession

variable (session : BrowserSession)

/-- `fetchIdentity` with the next number, which is pending then. -/
def startRequest (force : Bool) : BrowserSession where
  __ := session
  cachedIdentity := none
  pendingForced := force
  identityVersion := session.identityVersion + 1
  requests := Function.update session.requests (session.identityVersion + 1)
    (some ⟨force, false, .fetching, false⟩)
  pendingIdentity := some (session.identityVersion + 1)

/-- A caller with what it waits for. -/
def join (source : WaitSource) (hasSignal : Bool) (outcome : Option CallerOutcome) :
    BrowserSession where
  __ := session
  callers := session.callers ++ [⟨source, hasSignal, outcome⟩]

def setRequest (version : Nat) (request : IdentityRequest) : BrowserSession where
  __ := session
  requests := Function.update session.requests version (some request)

def setCaller (place : Nat) (caller : IdentityCaller) : BrowserSession where
  __ := session
  callers := session.callers.set place caller

/-- The cached value, if it has not expired. -/
def freshIdentity : Option CachedIdentity :=
  session.cachedIdentity.filter fun entry => entry.expiresAt ≠ 0 && session.clock < entry.expiresAt

/-- `getPortalIdentity`. -/
def getPortalIdentity (force hasSignal isAborted : Bool) : BrowserSession :=
  if hasSignal && isAborted then session.join .nothing hasSignal (some .aborted)
  else match session.freshIdentity.filter fun _ => !force with
    | some entry => session.join (.cached entry) hasSignal none
    | none =>
        let waiting :=
          if session.pendingIdentity.isNone || (force && !session.pendingForced) then
            session.startRequest force
          else session
        match waiting.pendingIdentity with
        | some version => waiting.join (.request version) hasSignal none
        | none => waiting

/-- `getCachedPortalIdentity`, which forgets an expired value. -/
def getCachedPortalIdentity : BrowserSession where
  __ := session
  cachedIdentity := session.cachedIdentity.filter fun entry => session.clock < entry.expiresAt

/-- The body has been read. -/
def readBody (version : Nat) (request : IdentityRequest) (value : Json) : BrowserSession :=
  if version ≠ session.identityVersion then
    session.setRequest version { request with phase := .answered (.error .unavailable) }
  else if isIdentity value then
    { session.setRequest version { request with phase := .answered (.value value) } with
      cachedIdentity := some ⟨value, session.clock + 60000, version⟩ }
  else session.setRequest version { request with phase := .answered (.error .unavailable) }

/-- `clearPending`. -/
def clearPending (version : Nat) (request : IdentityRequest) : BrowserSession :=
  let cleared := session.setRequest version { request with cleared := true }
  if session.pendingIdentity = some version then
    { cleared with pendingIdentity := none, pendingForced := false }
  else cleared

end BrowserSession

/-! ## Moves -/

inductive IdentityMove
  | drift (time : Int)
  | call (force hasSignal isAborted : Bool)
  | peek
  | respond (version status : Nat)
  | fail (version : Nat)
  | readBody (version : Nat) (value : Json)
  | timer (version : Nat)
  | settle (version : Nat)
  | clear (version : Nat)
  | deliver (place : Nat)
  | abort (place : Nat)

/-- The status of a response. -/
def IdentityPhase.ofStatus (status : Nat) : IdentityPhase :=
  if status = 401 then .answered (.error .unauthorized)
  else if status = 403 then .answered (.error .forbidden)
  else if status < 200 ∨ 300 ≤ status then .answered (.error .unavailable)
  else .reading

/-- What a caller is given when the promise it waits for is settled. -/
def BrowserSession.delivery (session : BrowserSession) : WaitSource → Option CallerOutcome
  | .nothing => none
  | .cached entry => some (.value entry.value)
  | .request version =>
      match (session.requests version).map IdentityRequest.phase with
      | some (.settled (.value value)) => some (.value value)
      | some (.settled (.error reason)) => some (.error reason)
      | _ => none

/-- The session after a move, if the move is possible. -/
def identityNext (session : BrowserSession) : IdentityMove → Option BrowserSession
  | .drift time => some { session with clock := time }
  | .call force hasSignal isAborted => some (session.getPortalIdentity force hasSignal isAborted)
  | .peek => some session.getCachedPortalIdentity
  | .respond version status =>
      match session.requests version with
      | some request =>
          match request.phase with
          | .fetching => some (session.setRequest version { request with phase := .ofStatus status })
          | _ => none
      | none => none
  | .fail version =>
      match session.requests version with
      | some request =>
          match request.phase with
          | .fetching | .reading => some (session.setRequest version { request with
              phase := .answered (.error (if request.aborted then .timeout else .unavailable)) })
          | _ => none
      | none => none
  | .readBody version value =>
      match session.requests version with
      | some request =>
          match request.phase with
          | .reading => some (session.readBody version request value)
          | _ => none
      | none => none
  | .timer version =>
      match session.requests version with
      | some request =>
          match request.phase with
          | .settled _ => none
          | _ => some (session.setRequest version { request with aborted := true })
      | none => none
  | .settle version =>
      match session.requests version with
      | some request =>
          match request.phase with
          | .answered outcome =>
              some (session.setRequest version { request with phase := .settled outcome })
          | _ => none
      | none => none
  | .clear version =>
      match session.requests version with
      | some request =>
          match request.phase with
          | .settled _ =>
              if request.cleared then none else some (session.clearPending version request)
          | _ => none
      | none => none
  | .deliver place =>
      match session.callers[place]? with
      | some caller =>
          if caller.outcome.isSome then none
          else (session.delivery caller.source).map fun outcome =>
            session.setCaller place { caller with outcome := some outcome }
      | none => none
  | .abort place =>
      match session.callers[place]? with
      | some caller =>
          if caller.outcome.isSome || !caller.hasSignal then none
          else some (session.setCaller place { caller with outcome := some .aborted })
      | none => none

/-- The module is loaded. -/
def BrowserSession.Initial (session : BrowserSession) : Prop :=
  session.cachedIdentity = none ∧ session.pendingIdentity = none ∧ session.pendingForced = false ∧
    session.identityVersion = 0 ∧ (∀ version, session.requests version = none) ∧
    session.callers = []

abbrev identitySystem : System BrowserSession IdentityMove where
  init := BrowserSession.Initial
  step session move next := identityNext session move = some next

/-! ## What a move does -/

/-- How a request has ended, or will when its promise is settled. -/
def IdentityRequest.outcome (request : IdentityRequest) : Option IdentityOutcome :=
  match request.phase with
  | .fetching | .reading => none
  | .answered outcome | .settled outcome => some outcome

/-- The source gives the value. -/
def BrowserSession.Gives (session : BrowserSession) (value : Json) : WaitSource → Prop
  | .nothing => False
  | .cached entry => entry.value = value
  | .request version => ∃ request, session.requests version = some request ∧
      request.outcome = some (.value value)

/-- The changes of a session. -/
inductive IdentityEffect (session : BrowserSession) : BrowserSession → Prop
  | clock (time : Int) : IdentityEffect session { session with clock := time }
  | forget : IdentityEffect session session.getCachedPortalIdentity
  | join {source : WaitSource} {hasSignal : Bool} {outcome : Option CallerOutcome}
      (hnone : ∀ value, outcome ≠ some (.value value))
      (hcached : ∀ entry, source = .cached entry → session.cachedIdentity = some entry) :
      IdentityEffect session (session.join source hasSignal outcome)
  | start (force hasSignal : Bool) : IdentityEffect session
      ((session.startRequest force).join (.request (session.identityVersion + 1)) hasSignal none)
  | update {version : Nat} {request updated : IdentityRequest}
      (hrequest : session.requests version = some request)
      (hforced : updated.forced = request.forced) (hcleared : updated.cleared = request.cleared)
      (hvalue : ∀ value, updated.outcome = some (.value value) ↔
        request.outcome = some (.value value)) :
      IdentityEffect session (session.setRequest version updated)
  | store {request : IdentityRequest} {value : Json}
      (hrequest : session.requests session.identityVersion = some request)
      (hphase : request.phase = .reading) (hvalid : isIdentity value = true) :
      IdentityEffect session
        { session.setRequest session.identityVersion
            { request with phase := .answered (.value value) } with
          cachedIdentity := some ⟨value, session.clock + 60000, session.identityVersion⟩ }
  | clear {version : Nat} {request : IdentityRequest}
      (hrequest : session.requests version = some request) :
      IdentityEffect session (session.clearPending version request)
  | caller {place : Nat} {caller : IdentityCaller} {outcome : CallerOutcome}
      (hcaller : session.callers[place]? = some caller)
      (hvalue : ∀ value, outcome = .value value → session.Gives value caller.source) :
      IdentityEffect session (session.setCaller place { caller with outcome := some outcome })

section Effects

variable {session next : BrowserSession} {move : IdentityMove}

theorem getPortalIdentity_effect (force hasSignal isAborted : Bool) :
    IdentityEffect session (session.getPortalIdentity force hasSignal isAborted) := by
  unfold BrowserSession.getPortalIdentity
  split
  next => exact .join (by simp) (by simp)
  next =>
    split
    next entry hfresh =>
      refine .join (by simp) fun other hother => ?_
      cases hother
      exact (Option.filter_eq_some_iff.mp (Option.filter_eq_some_iff.mp hfresh).1).1
    next =>
      by_cases hstart : (session.pendingIdentity.isNone || (force && !session.pendingForced)) = true
      · simp only [hstart, if_true]
        exact .start force hasSignal
      · simp only [hstart]
        cases hpending : session.pendingIdentity with
        | none => simp [hpending] at hstart
        | some version =>
            simp only [Bool.false_eq_true, if_false, hpending]
            exact .join (by simp) (by simp)

theorem delivery_gives {source : WaitSource} {value : Json}
    (hdelivery : session.delivery source = some (.value value)) : session.Gives value source := by
  cases source with
  | nothing => cases hdelivery
  | cached other =>
      simp only [BrowserSession.delivery, Option.some.injEq, CallerOutcome.value.injEq] at hdelivery
      exact hdelivery
  | request version =>
      simp only [BrowserSession.delivery] at hdelivery
      split at hdelivery
      next settled hphase =>
        cases hdelivery
        obtain ⟨request, hrequest, hsettled⟩ := Option.map_eq_some_iff.mp hphase
        exact ⟨request, hrequest, by rw [IdentityRequest.outcome, hsettled]⟩
      next => cases hdelivery
      next => cases hdelivery

theorem identityNext_effect (hnext : identityNext session move = some next) :
    IdentityEffect session next := by
  cases move with
  | drift time =>
      cases hnext
      exact .clock time
  | call force hasSignal isAborted =>
      cases hnext
      exact getPortalIdentity_effect force hasSignal isAborted
  | peek =>
      cases hnext
      exact .forget
  | respond version status =>
      simp only [identityNext] at hnext
      split at hnext
      next request hrequest =>
        split at hnext
        next hphase =>
          cases hnext
          refine .update hrequest rfl rfl fun value => ?_
          simp only [IdentityRequest.outcome, hphase, IdentityPhase.ofStatus]
          split_ifs <;> simp
        next => cases hnext
      next => cases hnext
  | fail version =>
      simp only [identityNext] at hnext
      split at hnext
      next request hrequest =>
        split at hnext
        next hphase =>
          cases hnext
          exact .update hrequest rfl rfl fun value => by simp [IdentityRequest.outcome, hphase]
        next hphase =>
          cases hnext
          exact .update hrequest rfl rfl fun value => by simp [IdentityRequest.outcome, hphase]
        next => cases hnext
      next => cases hnext
  | readBody version value =>
      simp only [identityNext] at hnext
      split at hnext
      next request hrequest =>
        split at hnext
        next hphase =>
          cases hnext
          have hfails : IdentityEffect session (session.setRequest version
              { request with phase := .answered (.error .unavailable) }) :=
            .update hrequest rfl rfl fun value => by simp [IdentityRequest.outcome, hphase]
          unfold BrowserSession.readBody
          split
          next => exact hfails
          next hlast =>
            rw [not_not] at hlast
            subst hlast
            split
            next hvalid => exact .store hrequest hphase hvalid
            next => exact hfails
        next => cases hnext
      next => cases hnext
  | timer version =>
      simp only [identityNext] at hnext
      split at hnext
      next request hrequest =>
        split at hnext
        next => cases hnext
        next =>
          cases hnext
          exact .update hrequest rfl rfl fun value => Iff.rfl
      next => cases hnext
  | settle version =>
      simp only [identityNext] at hnext
      split at hnext
      next request hrequest =>
        split at hnext
        next outcome hphase =>
          cases hnext
          exact .update hrequest rfl rfl fun value => by simp [IdentityRequest.outcome, hphase]
        next => cases hnext
      next => cases hnext
  | clear version =>
      simp only [identityNext] at hnext
      split at hnext
      next request hrequest =>
        split at hnext
        next =>
          split at hnext <;> cases hnext
          exact .clear hrequest
        next => cases hnext
      next => cases hnext
  | deliver place =>
      simp only [identityNext] at hnext
      split at hnext
      next caller hcaller =>
        split at hnext
        next => cases hnext
        next =>
          obtain ⟨outcome, hdelivery, rfl⟩ := Option.map_eq_some_iff.mp hnext
          refine .caller hcaller fun value hvalue => delivery_gives ?_
          rw [hdelivery, hvalue]
      next => cases hnext
  | abort place =>
      simp only [identityNext] at hnext
      split at hnext
      next caller hcaller =>
        split at hnext <;> cases hnext
        exact .caller hcaller fun value hvalue => by cases hvalue
      next => cases hnext

end Effects

/-! ## Every state -/

/-- What holds in every state: the cache has the value of the last request, which is pending
until it is cleared, and values of callers come from requests that have them. -/
structure BrowserSession.Sound (session : BrowserSession) : Prop where
  numbered : ∀ version request, session.requests version = some request →
    version ≤ session.identityVersion
  valid : ∀ version request value, session.requests version = some request →
    request.outcome = some (.value value) → isIdentity value = true
  cached : ∀ entry, session.cachedIdentity = some entry →
    entry.version = session.identityVersion ∧
      ∃ request, session.requests session.identityVersion = some request ∧
        request.outcome = some (.value entry.value)
  pending : ∀ version, session.pendingIdentity = some version →
    version = session.identityVersion
  uncleared : ∀ request, session.requests session.identityVersion = some request →
    request.cleared = false → session.pendingIdentity = some session.identityVersion ∧
      session.pendingForced = request.forced
  sources : ∀ caller ∈ session.callers, ∀ entry, caller.source = .cached entry →
    session.Gives entry.value (.request entry.version)
  callers : ∀ caller ∈ session.callers, ∀ value, caller.outcome = some (.value value) →
    session.Gives value caller.source

/-- The values of requests are kept. -/
def KeepsValues (session next : BrowserSession) : Prop :=
  ∀ value version, session.Gives value (.request version) → next.Gives value (.request version)

section Sound

variable {session next : BrowserSession} {version : Nat} {request updated : IdentityRequest}

theorem BrowserSession.Sound.init (hinit : session.Initial) : session.Sound := by
  obtain ⟨hcached, hpending, hforced, hversion, hrequests, hcallers⟩ := hinit
  constructor <;> simp [hcached, hpending, hrequests, hcallers]

theorem KeepsValues.gives (hkeeps : KeepsValues session next) {value : Json}
    {source : WaitSource} (hgives : session.Gives value source) : next.Gives value source := by
  cases source with
  | nothing => exact hgives
  | cached entry => exact hgives
  | request version => exact hkeeps value version hgives

/-- A request that is replaced keeps its value. -/
theorem keepsValues_setRequest (hrequest : session.requests version = some request)
    (hvalue : ∀ value, request.outcome = some (.value value) →
      updated.outcome = some (.value value)) :
    KeepsValues session (session.setRequest version updated) := by
  rintro value other ⟨found, hfound, houtcome⟩
  by_cases hother : other = version
  · subst hother
    obtain rfl : request = found := by simpa [hrequest] using hfound
    exact ⟨updated, by simp [BrowserSession.setRequest], hvalue value houtcome⟩
  · exact ⟨found, by simp [BrowserSession.setRequest, hother, hfound], houtcome⟩

theorem IdentityEffect.keepsValues (hsound : session.Sound) (heffect : IdentityEffect session next) :
    KeepsValues session next := by
  cases heffect with
  | clock | forget | join | caller => exact fun value version hgives => hgives
  | start force hasSignal =>
      rintro value version ⟨request, hrequest, houtcome⟩
      have hle := hsound.numbered version request hrequest
      have hne : version ≠ session.identityVersion + 1 := by omega
      exact ⟨request, by simp [BrowserSession.join, BrowserSession.startRequest, hne, hrequest],
        houtcome⟩
  | update hrequest _ _ hvalue =>
      exact keepsValues_setRequest hrequest fun value => (hvalue value).mpr
  | store hrequest hphase _ =>
      exact keepsValues_setRequest hrequest fun value houtcome => by
        simp [IdentityRequest.outcome, hphase] at houtcome
  | @clear version request hrequest =>
      have hkeeps : KeepsValues session (session.setRequest version { request with cleared := true }) :=
        keepsValues_setRequest hrequest fun value houtcome => houtcome
      unfold BrowserSession.clearPending
      simp only
      split <;> exact hkeeps

/-- The requests after one of them is replaced. -/
theorem requests_setRequest {other : Nat} {found : IdentityRequest}
    (hfound : (session.setRequest version updated).requests other = some found) :
    other = version ∧ found = updated ∨ other ≠ version ∧ session.requests other = some found := by
  by_cases hother : other = version
  · subst hother
    left
    simpa [BrowserSession.setRequest, eq_comm] using hfound
  · right
    simpa [BrowserSession.setRequest, hother] using hfound

theorem BrowserSession.Sound.setRequest (hsound : session.Sound)
    (hrequest : session.requests version = some request)
    (hforced : updated.forced = request.forced) (hcleared : updated.cleared = request.cleared)
    (hvalue : ∀ value, updated.outcome = some (.value value) ↔
      request.outcome = some (.value value)) : (session.setRequest version updated).Sound := by
  have hkeeps : KeepsValues session (session.setRequest version updated) :=
    keepsValues_setRequest hrequest fun value => (hvalue value).mpr
  refine ⟨?_, ?_, ?_, hsound.pending, ?_, ?_, ?_⟩
  · intro other found hfound
    rcases requests_setRequest hfound with ⟨rfl, -⟩ | ⟨-, hold⟩
    · exact hsound.numbered _ request hrequest
    · exact hsound.numbered other found hold
  · intro other found value hfound houtcome
    rcases requests_setRequest hfound with ⟨rfl, rfl⟩ | ⟨-, hold⟩
    · exact hsound.valid _ request value hrequest ((hvalue value).mp houtcome)
    · exact hsound.valid other found value hold houtcome
  · intro entry hentry
    obtain ⟨hlast, hgives⟩ := hsound.cached entry hentry
    exact ⟨hlast, hkeeps entry.value _ hgives⟩
  · intro found hfound huncleared
    rcases requests_setRequest hfound with ⟨hlast, rfl⟩ | ⟨-, hold⟩
    · rw [hforced]
      refine hsound.uncleared request ?_ (hcleared ▸ huncleared)
      exact hlast ▸ hrequest
    · exact hsound.uncleared found hold huncleared
  · exact fun caller hcaller entry hsource => hkeeps.gives (hsound.sources caller hcaller entry hsource)
  · exact fun caller hcaller value houtcome => hkeeps.gives (hsound.callers caller hcaller value houtcome)

/-- What clearing leaves. -/
theorem clearPending_frame (session : BrowserSession) (version : Nat) (request : IdentityRequest) :
    (session.clearPending version request).requests =
        (session.setRequest version { request with cleared := true }).requests ∧
      (session.clearPending version request).cachedIdentity = session.cachedIdentity ∧
      (session.clearPending version request).identityVersion = session.identityVersion ∧
      (session.clearPending version request).callers = session.callers := by
  simp only [BrowserSession.clearPending]
  split <;> exact ⟨rfl, rfl, rfl, rfl⟩

theorem BrowserSession.Sound.effect (hsound : session.Sound)
    (heffect : IdentityEffect session next) : next.Sound := by
  have hkeeps := heffect.keepsValues hsound
  cases heffect with
  | clock time => exact { hsound with }
  | forget =>
      refine { hsound with cached := fun entry hentry => ?_ }
      exact hsound.cached entry (Option.filter_eq_some_iff.mp hentry).1
  | @join source hasSignal outcome hnone hcached =>
      refine { hsound with sources := ?_, callers := ?_ }
      · intro caller hcaller entry hsource
        rcases List.mem_append.mp hcaller with hold | hnew
        · exact hsound.sources caller hold entry hsource
        · obtain rfl := List.mem_singleton.mp hnew
          obtain ⟨hlast, hgives⟩ := hsound.cached entry (hcached entry hsource)
          rw [hlast]
          exact hgives
      · intro caller hcaller value houtcome
        rcases List.mem_append.mp hcaller with hold | hnew
        · exact hsound.callers caller hold value houtcome
        · obtain rfl := List.mem_singleton.mp hnew
          exact absurd houtcome (hnone value)
  | start force hasSignal =>
      have hfresh : ∀ version found, ((session.startRequest force).join
          (.request (session.identityVersion + 1)) hasSignal none).requests version = some found →
          version = session.identityVersion + 1 ∧ found = ⟨force, false, .fetching, false⟩ ∨
            session.requests version = some found := by
        intro version found hfound
        exact (requests_setRequest hfound).imp_right And.right
      refine ⟨?_, ?_, ?_, ?_, ?_, ?_, ?_⟩
      · intro version found hfound
        rcases hfresh version found hfound with ⟨rfl, -⟩ | hold
        · exact Nat.le_refl _
        · exact Nat.le_succ_of_le (hsound.numbered version found hold)
      · intro version found value hfound houtcome
        rcases hfresh version found hfound with ⟨-, rfl⟩ | hold
        · cases houtcome
        · exact hsound.valid version found value hold houtcome
      · intro entry hentry
        cases hentry
      · intro version hpending
        exact (Option.some.inj hpending).symm
      · intro found hfound _
        rcases hfresh _ found hfound with ⟨-, rfl⟩ | hold
        · exact ⟨rfl, rfl⟩
        · exact absurd (hsound.numbered _ found hold) (Nat.not_succ_le_self _)
      · intro caller hcaller entry hsource
        rcases List.mem_append.mp hcaller with hold | hnew
        · exact hkeeps.gives (hsound.sources caller hold entry hsource)
        · obtain rfl := List.mem_singleton.mp hnew
          cases hsource
      · intro caller hcaller value houtcome
        rcases List.mem_append.mp hcaller with hold | hnew
        · exact hkeeps.gives (hsound.callers caller hold value houtcome)
        · obtain rfl := List.mem_singleton.mp hnew
          cases houtcome
  | update hrequest hforced hcleared hvalue =>
      exact hsound.setRequest hrequest hforced hcleared hvalue
  | @store request value hrequest hphase hvalid =>
      refine ⟨?_, ?_, ?_, hsound.pending, ?_, ?_, ?_⟩
      · intro version found hfound
        rcases requests_setRequest hfound with ⟨rfl, -⟩ | ⟨-, hold⟩
        · exact Nat.le_refl _
        · exact hsound.numbered version found hold
      · intro version found other hfound houtcome
        rcases requests_setRequest hfound with ⟨rfl, rfl⟩ | ⟨-, hold⟩
        · cases houtcome
          exact hvalid
        · exact hsound.valid version found other hold houtcome
      · intro entry hentry
        cases hentry
        exact ⟨rfl, _, Function.update_self .., rfl⟩
      · intro found hfound huncleared
        rcases requests_setRequest hfound with ⟨-, rfl⟩ | ⟨hother, -⟩
        · exact hsound.uncleared request hrequest huncleared
        · exact absurd rfl hother
      · intro caller hcaller entry hsource
        exact hkeeps.gives (hsound.sources caller hcaller entry hsource)
      · intro caller hcaller other houtcome
        exact hkeeps.gives (hsound.callers caller hcaller other houtcome)
  | @clear version request hrequest =>
      obtain ⟨hrequests, hcached, hversion, hcallers⟩ := clearPending_frame session version request
      have hfields : ∀ other found, (session.clearPending version request).requests other = some found →
          other = version ∧ found = { request with cleared := true } ∨
            other ≠ version ∧ session.requests other = some found := by
        intro other found hfound
        rw [hrequests] at hfound
        exact requests_setRequest hfound
      refine ⟨?_, ?_, ?_, ?_, ?_, ?_, ?_⟩
      · intro other found hfound
        rw [hversion]
        rcases hfields other found hfound with ⟨rfl, -⟩ | ⟨-, hold⟩
        · exact hsound.numbered _ request hrequest
        · exact hsound.numbered other found hold
      · intro other found value hfound houtcome
        rcases hfields other found hfound with ⟨rfl, rfl⟩ | ⟨-, hold⟩
        · exact hsound.valid _ request value hrequest houtcome
        · exact hsound.valid other found value hold houtcome
      · intro entry hentry
        rw [hcached] at hentry
        obtain ⟨hlast, hgives⟩ := hsound.cached entry hentry
        rw [hversion]
        exact ⟨hlast, hkeeps entry.value _ hgives⟩
      · intro other hpending
        rw [hversion]
        refine hsound.pending other ?_
        simp only [BrowserSession.clearPending] at hpending
        split at hpending
        · cases hpending
        · exact hpending
      · intro found hfound huncleared
        rw [hversion] at hfound ⊢
        rcases hfields _ found hfound with ⟨-, rfl⟩ | ⟨hother, hold⟩
        · cases huncleared
        · -- The request that is cleared is not the one that is pending.
          obtain ⟨hpending, hforced⟩ := hsound.uncleared found hold huncleared
          rw [BrowserSession.clearPending, hpending, if_neg (by simpa using hother)]
          exact ⟨hpending, hforced⟩
      · intro caller hcaller entry hsource
        rw [hcallers] at hcaller
        exact hkeeps.gives (hsound.sources caller hcaller entry hsource)
      · intro caller hcaller value houtcome
        rw [hcallers] at hcaller
        exact hkeeps.gives (hsound.callers caller hcaller value houtcome)
  | @caller place caller outcome hcaller hvalue =>
      refine { hsound with sources := ?_, callers := ?_ }
      · intro other hother entry hsource
        rcases List.mem_or_eq_of_mem_set hother with hold | rfl
        · exact hsound.sources other hold entry hsource
        · exact hsound.sources caller (List.mem_of_getElem? hcaller) entry hsource
      · intro other hother value houtcome
        rcases List.mem_or_eq_of_mem_set hother with hold | rfl
        · exact hsound.callers other hold value houtcome
        · exact hvalue value (Option.some.inj houtcome)

theorem sound_of_reachable (hreach : identitySystem.Reachable session) : session.Sound :=
  hreach.invariant (fun _ hinit => .init hinit)
    fun _ _ _ hsound _ hstep => hsound.effect (identityNext_effect hstep)

/-! ## Superseded requests -/

/-- A newer request was started, and the request has no value. -/
def BrowserSession.Superseded (session : BrowserSession) (version : Nat) : Prop :=
  version < session.identityVersion ∧ ∀ value, ¬session.Gives value (.request version)

/-- A superseded request never has a value. -/
theorem BrowserSession.Superseded.effect (hsuperseded : session.Superseded version)
    (hsome : (session.requests version).isSome) (heffect : IdentityEffect session next) :
    next.Superseded version ∧ (next.requests version).isSome := by
  obtain ⟨hlast, hnone⟩ := hsuperseded
  obtain ⟨old, hold⟩ := Option.isSome_iff_exists.mp hsome
  -- It is enough that a request that is found with a value had it before.
  have hkept : ∀ {other updated}, (∀ value, updated.outcome = some (.value value) → other = version →
      session.Gives value (.request version)) → ∀ value,
        ¬(session.setRequest other updated).Gives value (.request version) := by
    rintro other updated hupdated value ⟨found, hfound, houtcome⟩
    rcases requests_setRequest hfound with ⟨hother, rfl⟩ | ⟨-, hfound⟩
    · exact hnone value (hupdated value houtcome hother.symm)
    · exact hnone value ⟨found, hfound, houtcome⟩
  have hfound : ∀ other updated, ((session.setRequest other updated).requests version).isSome := by
    intro other updated
    by_cases hother : version = other
    · simp [BrowserSession.setRequest, hother]
    · simpa [BrowserSession.setRequest, hother] using hsome
  cases heffect with
  | clock | forget | join | caller => exact ⟨⟨hlast, hnone⟩, hsome⟩
  | start force hasSignal =>
      refine ⟨⟨Nat.lt_succ_of_lt hlast, hkept fun value houtcome => ?_⟩, hfound _ _⟩
      cases houtcome
  | update hrequest _ _ hvalue =>
      refine ⟨⟨hlast, hkept fun value houtcome hother => ?_⟩, hfound _ _⟩
      subst hother
      exact ⟨_, hrequest, (hvalue value).mp houtcome⟩
  | store hrequest _ _ =>
      refine ⟨⟨hlast, hkept fun value _ hother => ?_⟩, hfound _ _⟩
      exact absurd hother (Nat.ne_of_gt hlast)
  | @clear other request hrequest =>
      obtain ⟨hrequests, -, hversion, -⟩ := clearPending_frame session other request
      refine ⟨⟨hversion ▸ hlast, ?_⟩, hrequests ▸ hfound _ _⟩
      have hcleared := @hkept other { request with cleared := true } fun value houtcome hother =>
        ⟨request, hother ▸ hrequest, houtcome⟩
      rintro value ⟨found, hfound, houtcome⟩
      exact hcleared value ⟨found, hrequests ▸ hfound, houtcome⟩

/-- The request that a move of the network, a timer or a callback is about. -/
def IdentityMove.about : IdentityMove → Option Nat
  | .respond version _ | .fail version | .readBody version _ | .timer version | .settle version
  | .clear version => some version
  | _ => none

/-- Nothing that an old request does changes what is cached or pending. -/
theorem shared_of_old {move : IdentityMove} (hsound : session.Sound)
    (hmove : move.about = some version) (hold : version < session.identityVersion)
    (hnext : identityNext session move = some next) :
    next.cachedIdentity = session.cachedIdentity ∧
      next.pendingIdentity = session.pendingIdentity ∧
      next.pendingForced = session.pendingForced := by
  have hread : ∀ request value, (session.readBody version request value).cachedIdentity =
      session.cachedIdentity ∧
        (session.readBody version request value).pendingIdentity = session.pendingIdentity ∧
        (session.readBody version request value).pendingForced = session.pendingForced := by
    intro request value
    rw [BrowserSession.readBody, if_pos (Nat.ne_of_lt hold)]
    exact ⟨rfl, rfl, rfl⟩
  have hcleared : ∀ request, (session.clearPending version request).cachedIdentity =
      session.cachedIdentity ∧
        (session.clearPending version request).pendingIdentity = session.pendingIdentity ∧
        (session.clearPending version request).pendingForced = session.pendingForced := by
    intro request
    have hother : session.pendingIdentity ≠ some version := fun hpending =>
      absurd (hsound.pending version hpending) (Nat.ne_of_lt hold)
    rw [BrowserSession.clearPending, if_neg hother]
    exact ⟨rfl, rfl, rfl⟩
  revert hnext
  fun_cases identityNext session move <;> cases hmove <;> intro hnext <;> cases hnext <;>
    first
    | exact hread _ _
    | exact hcleared _
    | exact ⟨rfl, rfl, rfl⟩

/-- A request without a value that is superseded gives none to any caller and does not write the
cache, whatever comes after. -/
theorem superseded_discarded {later : BrowserSession} (hreach : identitySystem.Reachable session)
    (hsuperseded : session.Superseded version) (hsome : (session.requests version).isSome)
    (hsteps : identitySystem.StepsWhile (fun _ _ => True) session later) :
    (∀ caller ∈ later.callers, caller.source.version = some version →
      ∀ value, caller.outcome ≠ some (.value value)) ∧
      ∀ entry, later.cachedIdentity = some entry → entry.version ≠ version := by
  have hlater : later.Superseded version ∧ (later.requests version).isSome := by
    induction hsteps with
    | refl => exact ⟨hsuperseded, hsome⟩
    | tail _ _ hstep ih => exact ih.1.effect ih.2 (identityNext_effect hstep)
  obtain ⟨⟨hlast, hnone⟩, -⟩ := hlater
  have hsound := sound_of_reachable (hreach.steps hsteps)
  constructor
  · intro caller hcaller hversion value houtcome
    have hgives := hsound.callers caller hcaller value houtcome
    cases hsource : caller.source with
    | nothing => simp [hsource, WaitSource.version] at hversion
    | cached entry =>
        rw [hsource] at hversion hgives
        obtain rfl : entry.version = version := Option.some.inj hversion
        obtain rfl : entry.value = value := hgives
        exact hnone _ (hsound.sources caller hcaller entry hsource)
    | request other =>
        rw [hsource] at hversion hgives
        obtain rfl : other = version := Option.some.inj hversion
        exact hnone value hgives
  · intro entry hentry
    have := (hsound.cached entry hentry).1
    omega

end Sound

/-- In every order of calls, responses, failures, timeouts and callbacks, the cache has the checked
value of the last request; a request that is superseded before its body is read gives no value to
a caller, nor to the cache; and what an old request does leaves the cache and the pending request
as they are. -/
theorem identity_cache_of_last_request {session : BrowserSession}
    (hreach : identitySystem.Reachable session) :
    (∀ entry, session.cachedIdentity = some entry →
      entry.version = session.identityVersion ∧ isIdentity entry.value ∧
        session.Gives entry.value (.request session.identityVersion)) ∧
    (∀ version request, session.requests version = some request →
      version < session.identityVersion →
      request.phase = .fetching ∨ request.phase = .reading → ∀ later,
      identitySystem.StepsWhile (fun _ _ => True) session later →
      (∀ caller ∈ later.callers, caller.source.version = some version →
        ∀ value, caller.outcome ≠ some (.value value)) ∧
      ∀ entry, later.cachedIdentity = some entry → entry.version ≠ version) ∧
    (∀ request, session.requests session.identityVersion = some request →
      request.cleared = false → session.pendingIdentity = some session.identityVersion ∧
        session.pendingForced = request.forced) ∧
    ∀ move version next, move.about = some version → version < session.identityVersion →
      identityNext session move = some next →
      next.cachedIdentity = session.cachedIdentity ∧
        next.pendingIdentity = session.pendingIdentity ∧
        next.pendingForced = session.pendingForced := by
  have hsound := sound_of_reachable hreach
  refine ⟨?_, ?_, hsound.uncleared, ?_⟩
  · intro entry hentry
    obtain ⟨hlast, hgives⟩ := hsound.cached entry hentry
    obtain ⟨request, hrequest, houtcome⟩ := hgives
    exact ⟨hlast, hsound.valid _ request entry.value hrequest houtcome, request, hrequest, houtcome⟩
  · intro version request hrequest hold hphase later hsteps
    refine superseded_discarded hreach ⟨hold, ?_⟩ (by simp [hrequest]) hsteps
    rintro value ⟨found, hfound, houtcome⟩
    obtain rfl : request = found := by simpa [hrequest] using hfound
    rcases hphase with hphase | hphase <;> simp [IdentityRequest.outcome, hphase] at houtcome
  · intro move version next hmove hold hnext
    exact shared_of_old hsound hmove hold hnext

/-- The module as it is loaded. -/
def loadedSession : BrowserSession := ⟨0, none, none, false, 0, fun _ => none, []⟩

def administratorIdentity : Json :=
  .obj [("username", .str "alice"), ("isAdmin", .bool true), ("isModerator", .bool false)]

def readerIdentity : Json :=
  .obj [("username", .str "bob"), ("isAdmin", .bool false), ("isModerator", .bool false)]

/-- Alice's answer is under way when a forced call starts a request that Bob's answer ends. -/
def replacedLogin : List IdentityMove :=
  [.call false false false, .respond 1 200, .call true true false, .respond 2 200,
    .readBody 2 readerIdentity, .settle 2, .readBody 1 administratorIdentity, .settle 1, .deliver 0,
    .deliver 1, .clear 1]

theorem identity_cache_of_last_request_login :
    ∃ session, System.execute identityNext loadedSession replacedLogin = some session ∧
      session.callers.map IdentityCaller.outcome =
        [some (.error .unavailable), some (.value readerIdentity)] ∧
      ∃ entry, session.cachedIdentity = some entry ∧ entry.version = session.identityVersion ∧
        isIdentity entry.value := by
  obtain ⟨session, hrun, hcallers, entry, hentry⟩ : ∃ session,
      System.execute identityNext loadedSession replacedLogin = some session ∧
        session.callers.map IdentityCaller.outcome =
          [some (.error .unavailable), some (.value readerIdentity)] ∧
        ∃ entry, session.cachedIdentity = some entry :=
    ⟨_, rfl, rfl, _, rfl⟩
  have hreach : identitySystem.Reachable session :=
    System.ReachableWhile.execute (fun _ _ _ hnext => ⟨trivial, hnext⟩) hrun
      (.init ⟨rfl, rfl, rfl, rfl, fun _ => rfl, rfl⟩)
  obtain ⟨hlast, hvalid, -⟩ := (identity_cache_of_last_request hreach).1 entry hentry
  exact ⟨session, hrun, hcallers, entry, hentry, hlast, hvalid⟩

end IsmsPortal
