import IsmsPortal.Access.Authorization
import IsmsPortal.Foundation.Checks
import IsmsPortal.Foundation.Interleaving
import IsmsPortal.Foundation.IsoDate
import IsmsPortal.Foundation.JsString
import IsmsPortal.Foundation.Table

/-! # Access requests and temporary grants

A user asks for access to a space; an administrator approves or rejects the
request. `reviewAccess` reads the request, checks that it is pending, and then
runs a transaction that updates the request by its id and, when it approves,
creates the temporary grant. The update locks the row, so that two transactions
on one request run one after the other; a grant is unique for its request. The
worker deletes expired grants, and an administrator may delete all requests, whose
grants go with them.
-/

namespace IsmsPortal

open Foundation

inductive RequestStatus
  | pending
  | approved
  | rejected
deriving DecidableEq

/-- The `status` of a review. -/
inductive ReviewStatus
  | approved
  | rejected
  | resolved
deriving DecidableEq

/-- The status a request gets; `RESOLVED` is for reports. -/
def ReviewStatus.decides : ReviewStatus → Option RequestStatus
  | .approved => some .approved
  | .rejected => some .rejected
  | .resolved => none

/-- A row of `AccessRequest`. -/
structure AccessRequest where
  id : Uuid
  identity : String
  documentId : Option String
  spaceId : Uuid
  groupId : Option Uuid
  requestedUntil : Option Int
  justification : String
  status : RequestStatus
  decision : Option String
  reviewedBy : Option String
  reviewedAt : Option Int
deriving DecidableEq

/-- A temporary grant with the request it comes from. -/
structure IssuedGrant extends TemporaryAccessGrant where
  requestId : Uuid
  createdBy : String
deriving DecidableEq

/-- The two tables. The last two fields are no tables: the ids of all requests
ever created, and the decisions that were recorded, the latest first. -/
structure RequestStore where
  clock : Int
  requests : List AccessRequest
  grants : List IssuedGrant
  issued : List Uuid
  decisions : List (Uuid × RequestStatus)
deriving DecidableEq

/-- What a user asks for, with the group that the directory gives. -/
structure AccessDraft where
  identity : String
  documentId : Option String
  spaceId : Uuid
  groupId : Uuid
  requestedUntil : Option Int
  justification : String
deriving DecidableEq

/-- The request and the body of `reviewAccess`. -/
structure AccessReview where
  id : Uuid
  status : ReviewStatus
  decision : Option String
  username : String
deriving DecidableEq

/-- Where a request is, and what it has read. -/
inductive RequestProcess
  | requestAccess (draft : AccessDraft)
  | requestAccessCreate (draft : AccessDraft) (requestedUntil : Int)
  | reviewAccess (review : AccessReview)
  | reviewAccessTransaction (review : AccessReview) (status : RequestStatus)
      (existing : AccessRequest)
  | deleteAllWorkItems
  | schedule
  | scheduleGrants (now : Int)
deriving DecidableEq

/-- What the rest of the database decides: it refuses a statement (a missing space,
group or document, a foreign key), or accepts it and draws an id. -/
inductive RequestChoice
  | refused
  | accepted (id : Uuid)
deriving DecidableEq

/-! ## Endpoints -/

/-- The checks of `requestAccess`, and the expiry of the request. -/
def checkDraft (clock : Int) (requests : List AccessRequest) (draft : AccessDraft) :
    Except String Int := do
  let requestedUntil := draft.requestedUntil.getD (clock + days 30)
  if requestedUntil ≤ clock ∨ clock + days 90 < requestedUntil then
    throw "Requested access expiry must be within the next 90 days"
  if requests.any fun request => request.identity = draft.identity ∧
      request.spaceId = draft.spaceId ∧ request.documentId = draft.documentId ∧
      request.status = .pending then
    throw "An access request is already pending"
  return requestedUntil

/-- The checks of `reviewAccess` on the request it has read. -/
def checkReview (review : AccessReview) (found : Option AccessRequest) :
    Except String (RequestStatus × AccessRequest) := do
  let some status := review.status.decides | throw "Invalid access request status"
  let some existing := found | throw "Not Found"
  if existing.status ≠ .pending then throw "Access request is already decided"
  if status = .approved ∧ (existing.groupId = none ∨ existing.requestedUntil = none) then
    throw "Access request has no temporary grant target"
  return (status, existing)

namespace RequestStore

variable (store : RequestStore)

/-- `accessRequest.create`. -/
def create (id : Uuid) (draft : AccessDraft) (requestedUntil : Int) : RequestStore where
  __ := store
  requests := store.requests ++ [⟨id, draft.identity, draft.documentId, draft.spaceId,
    some draft.groupId, some requestedUntil, JsString.trim draft.justification, .pending, none,
    none, none⟩]
  issued := id :: store.issued

/-- `accessRequest.update` of the row with the id. -/
def record (review : AccessReview) (status : RequestStatus) : RequestStore where
  __ := store
  requests := Table.update AccessRequest.id review.id
    (fun request => { request with
      status := status
      decision := review.decision.filter (· ≠ "")
      reviewedBy := some review.username
      reviewedAt := some store.clock }) store.requests
  decisions := (review.id, status) :: store.decisions

/-- `temporaryAccessGrant.create`. -/
def grant (groupId spaceId : Uuid) (validUntil : Int) (requestId : Uuid) (createdBy : String) :
    RequestStore where
  __ := store
  grants := store.grants ++ [⟨⟨groupId, spaceId, validUntil⟩, requestId, createdBy⟩]

/-- The transaction of `reviewAccess`; none when it is rolled back. -/
def review (review : AccessReview) (status : RequestStatus) (existing : AccessRequest) :
    Option RequestStore :=
  if store.requests.any (·.id = review.id) then
    if status = .approved then
      match existing.groupId, existing.requestedUntil with
      | some groupId, some validUntil =>
          if store.grants.any (·.requestId = review.id) then none
          else some ((store.record review status).grant groupId existing.spaceId validUntil
            review.id review.username)
      | _, _ => none
    else some (store.record review status)
  else none

end RequestStore

/-- Run the next statement of a process. -/
def requestAdvance (choice : RequestChoice) (store : RequestStore) :
    RequestProcess → Option (Option RequestProcess × RequestStore)
  | .requestAccess draft => some (match choice with
      | .refused => none
      | .accepted _ => (checkDraft store.clock store.requests draft).toOption.map
          (.requestAccessCreate draft), store)
  | .requestAccessCreate draft requestedUntil => match choice with
      | .refused => some (none, store)
      | .accepted id =>
          if id ∈ store.issued then none else some (none, store.create id draft requestedUntil)
  | .reviewAccess review =>
      some ((checkReview review (store.requests.find? (·.id = review.id))).toOption.map
        fun checked => .reviewAccessTransaction review checked.1 checked.2, store)
  | .reviewAccessTransaction review status existing => some (none, match choice with
      | .refused => store
      | .accepted _ => (store.review review status existing).getD store)
  | .deleteAllWorkItems => some (none, { store with requests := [], grants := [] })
  | .schedule => some (some (.scheduleGrants store.clock), store)
  | .scheduleGrants now =>
      some (none, { store with grants := store.grants.filter (now < ·.validUntil) })

def RequestProcess.initial : RequestProcess → Bool
  | .requestAccess _ | .reviewAccess _ | .deleteAllWorkItems | .schedule => true
  | _ => false

def requestProgram : Concurrent RequestStore RequestProcess RequestChoice where
  drift time store := if store.clock ≤ time then some { store with clock := time } else none
  start := RequestProcess.initial
  advance _ := requestAdvance

abbrev RequestConfig : Type := Concurrent.Config RequestStore RequestProcess

abbrev RequestMove : Type := Concurrent.Move RequestProcess RequestChoice

/-- Runs from empty tables. -/
abbrev requestSystem : System RequestConfig RequestMove :=
  requestProgram.system fun store => store.requests = [] ∧ store.grants = [] ∧
    store.decisions = []

/-- When the transaction of a review runs, the request is still pending; or it
approves a request that already has its grant, and is rolled back. -/
def StillPending (config : RequestConfig) : RequestProcess → Prop
  | .reviewAccessTransaction review status _ =>
      (∀ request ∈ config.store.requests, request.id = review.id → request.status = .pending) ∨
        (status = .approved ∧ ∃ grant ∈ config.store.grants, grant.requestId = review.id)
  | _ => True

instance (config : RequestConfig) (process : RequestProcess) :
    Decidable (StillPending config process) :=
  match process with
  | .reviewAccessTransaction review status _ => inferInstanceAs (Decidable
      ((∀ request ∈ config.store.requests, request.id = review.id → request.status = .pending) ∨
        (status = .approved ∧ ∃ grant ∈ config.store.grants, grant.requestId = review.id)))
  | .requestAccess .. | .requestAccessCreate .. | .reviewAccess .. | .deleteAllWorkItems
  | .schedule | .scheduleGrants .. => .isTrue trivial

/-! ## What a request confers -/

/-- The tables the authorization service reads, with the grants of the requests. -/
def RequestStore.access (store : RequestStore) (db : AccessStore) : AccessStore :=
  { db with temporaryAccessGrants := store.grants.map IssuedGrant.toTemporaryAccessGrant }

/-- The tables as if a request had never been granted. -/
def RequestStore.without (store : RequestStore) (id : Uuid) : RequestStore :=
  { store with grants := store.grants.filter (·.requestId ≠ id) }

/-- The last decision recorded for a request. -/
def RequestStore.lastDecision (store : RequestStore) (id : Uuid) : Option RequestStatus :=
  (store.decisions.find? (·.1 = id)).map Prod.snd

/-- The request that a grant belongs to, as it stands after its approval. -/
def AccessRequest.Approves (request : AccessRequest) (grant : IssuedGrant) : Prop :=
  request.id = grant.requestId ∧ request.status = .approved ∧
    request.groupId = some grant.groupId ∧ request.spaceId = grant.spaceId ∧
    request.requestedUntil = some grant.validUntil

/-- Grants come from approvals, a request is decided at most once, and a rejected
one confers no access. -/
structure RequestStore.Honoured (store : RequestStore) : Prop where
  approved : ∀ grant ∈ store.grants, ∃ request ∈ store.requests, request.Approves grant
  once : ∀ id, (store.decisions.map Prod.fst).count id ≤ 1
  rejected : ∀ id, store.lastDecision id = some .rejected →
    ∀ (text : TextRules) (db : AccessStore) (now : Int) (groups : List String) (spaceId : Uuid)
      (permission : Permission) (categoryId : Option (Option Uuid)),
      can text (store.access db) now groups spaceId permission categoryId =
        can text ((store.without id).access db) now groups spaceId permission categoryId

/-! ## One statement -/

section Steps

variable {choice : RequestChoice} {store after : RequestStore} {process : RequestProcess}
variable {remaining : Option RequestProcess} {review : AccessReview} {status : RequestStatus}
variable {existing : AccessRequest}

theorem checkReview_accepts {found : Option AccessRequest}
    (hcheck : checkReview review found = .ok (status, existing)) :
    found = some existing ∧ status ≠ .pending := by
  unfold checkReview at hcheck
  cases hdecides : review.status.decides with
  | none => simp only [hdecides, Checks.not_accepts_throw] at hcheck
  | some decided =>
      cases found with
      | none => simp only [hdecides, Checks.not_accepts_throw] at hcheck
      | some request =>
          simp only [hdecides, Checks.accepts_if, Checks.accepts_pure, Prod.mk.injEq] at hcheck
          obtain ⟨-, -, rfl, rfl⟩ := hcheck
          refine ⟨rfl, ?_⟩
          cases hstatus : review.status <;> rw [hstatus] at hdecides <;> cases hdecides <;> decide

/-- What a transaction that commits has done. -/
theorem RequestStore.review_cases (hreview : store.review review status existing = some after) :
    (∃ request ∈ store.requests, request.id = review.id) ∧
      (status = .approved → ∀ grant ∈ store.grants, grant.requestId ≠ review.id) ∧
      (after = store.record review status ∨
        ∃ groupId validUntil, status = .approved ∧ existing.groupId = some groupId ∧
          existing.requestedUntil = some validUntil ∧
          after = (store.record review status).grant groupId existing.spaceId validUntil review.id
            review.username) := by
  unfold RequestStore.review at hreview
  split at hreview
  next hfound =>
    refine ⟨by simpa using hfound, ?_⟩
    split at hreview
    next happroved =>
      split at hreview
      next groupId validUntil hgroup huntil =>
        split at hreview
        next => cases hreview
        next hnew =>
          refine ⟨fun _ => by simpa using hnew, .inr ⟨groupId, validUntil, happroved, hgroup, ?_⟩⟩
          exact ⟨huntil, (Option.some.inj hreview).symm⟩
      next => cases hreview
    next hother =>
      exact ⟨fun happroved => absurd happroved hother, .inl (Option.some.inj hreview).symm⟩
  next => cases hreview

/-- What a statement does: nothing to the tables, a new request, a decision, or a
deletion. -/
theorem requestAdvance_cases
    (hadvance : requestAdvance choice store process = some (remaining, after)) :
    (after = store ∧ ∀ review status existing,
        remaining = some (.reviewAccessTransaction review status existing) →
        existing ∈ store.requests ∧ existing.id = review.id ∧ status ≠ .pending) ∨
      remaining = none ∧
        ((∃ id draft requestedUntil, id ∉ store.issued ∧
            after = store.create id draft requestedUntil) ∨
          (∃ review status existing, process = .reviewAccessTransaction review status existing ∧
            store.review review status existing = some after) ∨
          after = { store with requests := [], grants := [] } ∨
          ∃ now, after = { store with grants := store.grants.filter (now < ·.validUntil) }) := by
  cases process with
  | requestAccess draft =>
      simp only [requestAdvance, Option.some.injEq, Prod.mk.injEq] at hadvance
      obtain ⟨rfl, rfl⟩ := hadvance
      refine .inl ⟨rfl, fun review status existing hnext => ?_⟩
      cases choice with
      | refused => cases hnext
      | accepted id =>
          simp at hnext
  | requestAccessCreate draft requestedUntil =>
      cases choice with
      | refused =>
          cases hadvance
          exact .inl ⟨rfl, fun _ _ _ hnext => by cases hnext⟩
      | accepted id =>
          simp only [requestAdvance] at hadvance
          split at hadvance
          next => cases hadvance
          next hfresh =>
            cases hadvance
            exact .inr ⟨rfl, .inl ⟨id, draft, requestedUntil, hfresh, rfl⟩⟩
  | reviewAccess body =>
      simp only [requestAdvance, Option.some.injEq, Prod.mk.injEq] at hadvance
      obtain ⟨rfl, rfl⟩ := hadvance
      refine .inl ⟨rfl, fun review status existing hnext => ?_⟩
      obtain ⟨⟨status', existing'⟩, hchecked, hsame⟩ := Option.map_eq_some_iff.mp hnext
      cases hsame
      obtain ⟨hfound, hdecided⟩ := checkReview_accepts (Checks.toOption_eq_some.mp hchecked)
      exact ⟨List.mem_of_find?_eq_some hfound, by simpa using List.find?_some hfound, hdecided⟩
  | reviewAccessTransaction review status existing =>
      simp only [requestAdvance, Option.some.injEq, Prod.mk.injEq] at hadvance
      obtain ⟨rfl, hafter⟩ := hadvance
      cases choice with
      | refused => exact .inl ⟨hafter.symm, fun _ _ _ hnext => by cases hnext⟩
      | accepted id =>
          cases hreview : store.review review status existing with
          | none =>
              rw [hreview] at hafter
              exact .inl ⟨hafter.symm, fun _ _ _ hnext => by cases hnext⟩
          | some committed =>
              rw [hreview] at hafter
              refine .inr ⟨rfl, .inr (.inl ⟨review, status, existing, rfl, ?_⟩)⟩
              rw [hreview, ← hafter]
              rfl
  | deleteAllWorkItems =>
      cases hadvance
      exact .inr ⟨rfl, .inr (.inr (.inl rfl))⟩
  | schedule =>
      cases hadvance
      exact .inl ⟨rfl, fun _ _ _ hnext => by cases hnext⟩
  | scheduleGrants now =>
      cases hadvance
      exact .inr ⟨rfl, .inr (.inr (.inr ⟨now, rfl⟩))⟩

end Steps

/-! ## Decisions on pending requests -/

/-- The tables agree with the decisions that were recorded. -/
structure RequestStore.Sound (store : RequestStore) : Prop where
  ids : (store.requests.map AccessRequest.id).Nodup
  approved : ∀ grant ∈ store.grants, ∃ request ∈ store.requests, request.Approves grant
  issued : ∀ request ∈ store.requests, request.id ∈ store.issued
  recorded : ∀ entry ∈ store.decisions, entry.1 ∈ store.issued ∧ entry.2 ≠ .pending
  decided : ∀ entry ∈ store.decisions, ∀ request ∈ store.requests, request.id = entry.1 →
    request.status = entry.2
  once : (store.decisions.map Prod.fst).Nodup

/-- The request with the id was created with the terms that were read. -/
def RequestStore.HasTerms (store : RequestStore) (id : Uuid) (existing : AccessRequest) : Prop :=
  id ∈ store.issued ∧ ∀ request ∈ store.requests, request.id = id →
    request.groupId = existing.groupId ∧ request.spaceId = existing.spaceId ∧
      request.requestedUntil = existing.requestedUntil

/-- A review that has read a request knows its terms, which never change. -/
def requestOutline : Concurrent.Outline RequestStore RequestProcess where
  invariant := RequestStore.Sound
  assertion _ store process := match process with
    | .reviewAccessTransaction review status existing =>
        status ≠ .pending ∧ store.HasTerms review.id existing
    | _ => True

namespace RequestStore

variable {store : RequestStore} {review : AccessReview} {status : RequestStatus}

/-- A row of the table after a decision: the decided one, or another as it was. -/
theorem mem_record {request : AccessRequest}
    (hrequest : request ∈ (store.record review status).requests) :
    ∃ old ∈ store.requests, request.id = old.id ∧ request.groupId = old.groupId ∧
      request.spaceId = old.spaceId ∧ request.requestedUntil = old.requestedUntil ∧
      (old.id = review.id → request.status = status) ∧
      (old.id ≠ review.id → request = old) := by
  obtain ⟨old, hold, rfl⟩ := List.mem_map.mp hrequest
  refine ⟨old, hold, ?_⟩
  split
  next hid => exact ⟨rfl, rfl, rfl, rfl, fun _ => rfl, fun hne => absurd hid hne⟩
  next hid => exact ⟨rfl, rfl, rfl, rfl, fun heq => absurd heq hid, fun _ => rfl⟩

theorem mem_record_of_ne {request : AccessRequest} (hrequest : request ∈ store.requests)
    (hne : request.id ≠ review.id) : request ∈ (store.record review status).requests :=
  List.mem_map.mpr ⟨request, hrequest, if_neg hne⟩

/-- The decided row. -/
theorem exists_mem_record {request : AccessRequest} (hrequest : request ∈ store.requests)
    (hid : request.id = review.id) :
    ∃ updated ∈ (store.record review status).requests, updated.id = review.id ∧
      updated.status = status ∧ updated.groupId = request.groupId ∧
      updated.spaceId = request.spaceId ∧ updated.requestedUntil = request.requestedUntil :=
  ⟨_, List.mem_map.mpr ⟨request, hrequest, if_pos hid⟩, hid, rfl, rfl, rfl, rfl⟩

namespace Sound

theorem create (hsound : store.Sound) {id : Uuid} {draft : AccessDraft} {requestedUntil : Int}
    (hfresh : id ∉ store.issued) : (store.create id draft requestedUntil).Sound where
  ids := by
    apply Table.nodup_insert hsound.ids
    intro other hother (heq : other.id = id)
    exact hfresh (heq ▸ hsound.issued other hother)
  approved := by
    intro grant hgrant
    obtain ⟨request, hrequest, happroves⟩ := hsound.approved grant hgrant
    exact ⟨request, List.mem_append_left _ hrequest, happroves⟩
  issued := by
    intro request hrequest
    rcases List.mem_append.mp hrequest with hold | hnew
    · exact List.mem_cons_of_mem id (hsound.issued request hold)
    · rw [List.mem_singleton.mp hnew]
      exact List.mem_cons_self
  recorded := by
    intro entry hentry
    obtain ⟨hissued, hdecided⟩ := hsound.recorded entry hentry
    exact ⟨List.mem_cons_of_mem id hissued, hdecided⟩
  decided := by
    intro entry hentry request hrequest hid
    rcases List.mem_append.mp hrequest with hold | hnew
    · exact hsound.decided entry hentry request hold hid
    · rw [List.mem_singleton.mp hnew] at hid
      have hissued : id ∈ store.issued := by
        rw [show id = entry.1 from hid]
        exact (hsound.recorded entry hentry).1
      exact absurd hissued hfresh
  once := hsound.once

/-- No decision was recorded for a request that is pending. -/
theorem undecided (hsound : store.Sound) {request : AccessRequest}
    (hrequest : request ∈ store.requests) (hpending : request.status = .pending) :
    request.id ∉ store.decisions.map Prod.fst := by
  intro hmem
  obtain ⟨entry, hentry, hid⟩ := List.mem_map.mp hmem
  have hstatus := hsound.decided entry hentry request hrequest hid.symm
  exact (hsound.recorded entry hentry).2 (hstatus ▸ hpending)

theorem record (hsound : store.Sound) (hstatus : status ≠ .pending)
    (hissued : review.id ∈ store.issued)
    (hfound : ∃ request ∈ store.requests, request.id = review.id)
    (hpending : ∀ request ∈ store.requests, request.id = review.id → request.status = .pending) :
    (store.record review status).Sound := by
  have hfresh : review.id ∉ store.decisions.map Prod.fst := by
    obtain ⟨request, hrequest, hid⟩ := hfound
    exact hid ▸ hsound.undecided hrequest (hpending request hrequest hid)
  constructor
  · have hids : (store.record review status).requests.map AccessRequest.id =
        store.requests.map AccessRequest.id := by
      apply Table.map_key_update
      intro request
      rfl
    rw [hids]
    exact hsound.ids
  · intro grant hgrant
    obtain ⟨request, hrequest, happroves⟩ := hsound.approved grant hgrant
    refine ⟨request, mem_record_of_ne hrequest fun hid => ?_, happroves⟩
    have hstill := hpending request hrequest hid
    rw [happroves.2.1] at hstill
    cases hstill
  · intro request hrequest
    obtain ⟨old, hold, hid, -⟩ := mem_record hrequest
    exact hid ▸ hsound.issued old hold
  · intro entry hentry
    rcases List.mem_cons.mp hentry with rfl | hold
    · exact ⟨hissued, hstatus⟩
    · exact hsound.recorded entry hold
  · intro entry hentry request hrequest hid
    obtain ⟨old, hold, hsame, -, -, -, hdecided, hother⟩ := mem_record hrequest
    rcases List.mem_cons.mp hentry with rfl | hearlier
    · exact hdecided (hsame ▸ hid)
    · have hne : old.id ≠ review.id := by
        intro heq
        exact hfresh (List.mem_map.mpr ⟨entry, hearlier, by rw [← hid, hsame, heq]⟩)
      rw [hother hne] at hid ⊢
      exact hsound.decided entry hearlier old hold hid
  · exact List.nodup_cons.mpr ⟨hfresh, hsound.once⟩

theorem grant (hsound : store.Sound) {groupId spaceId requestId : Uuid} {validUntil : Int}
    {createdBy : String}
    (hrequest : ∃ request ∈ store.requests,
      request.Approves ⟨⟨groupId, spaceId, validUntil⟩, requestId, createdBy⟩) :
    (store.grant groupId spaceId validUntil requestId createdBy).Sound where
  __ := hsound
  approved := by
    intro grant hgrant
    rcases List.mem_append.mp hgrant with hold | hnew
    · exact hsound.approved grant hold
    · rw [List.mem_singleton.mp hnew]
      exact hrequest

/-- Grants that expire leave the others. -/
theorem filter (hsound : store.Sound) (keeps : IssuedGrant → Bool) :
    RequestStore.Sound { store with grants := store.grants.filter keeps } where
  __ := hsound
  approved grant hgrant := hsound.approved grant (List.mem_of_mem_filter hgrant)

theorem clear (hsound : store.Sound) :
    RequestStore.Sound { store with requests := [], grants := [] } where
  ids := List.nodup_nil
  approved _ hgrant := absurd hgrant List.not_mem_nil
  issued _ hrequest := absurd hrequest List.not_mem_nil
  recorded := hsound.recorded
  decided _ _ _ hrequest := absurd hrequest List.not_mem_nil
  once := hsound.once

/-- A decision on a pending request. -/
theorem reviewed (hsound : store.Sound) {after : RequestStore} {existing : AccessRequest}
    (hreview : store.review review status existing = some after) (hstatus : status ≠ .pending)
    (hterms : store.HasTerms review.id existing)
    (hpending : ∀ request ∈ store.requests, request.id = review.id → request.status = .pending) :
    after.Sound := by
  obtain ⟨hfound, -, hwrites⟩ := review_cases hreview
  have hrecord := hsound.record hstatus hterms.1 hfound hpending
  rcases hwrites with rfl | ⟨groupId, validUntil, rfl, hgroup, huntil, rfl⟩
  · exact hrecord
  · apply hrecord.grant
    obtain ⟨request, hrequest, hid⟩ := hfound
    obtain ⟨hgroupId, hspaceId, hrequestedUntil⟩ := hterms.2 request hrequest hid
    obtain ⟨updated, hupdated, hupdatedId, happroved, hsame⟩ := exists_mem_record hrequest hid
    refine ⟨updated, hupdated, hupdatedId, happroved, ?_⟩
    rw [hsame.1, hsame.2.1, hsame.2.2, hgroupId, hspaceId, hrequestedUntil, hgroup, huntil]
    exact ⟨rfl, rfl, rfl⟩

/-- A request whose last decision is a rejection has no grant. -/
theorem not_granted (hsound : store.Sound) {id : Uuid}
    (hrejected : store.lastDecision id = some .rejected) :
    ∀ grant ∈ store.grants, grant.requestId ≠ id := by
  intro grant hgrant hid
  obtain ⟨entry, hentry, hlast⟩ := Option.map_eq_some_iff.mp hrejected
  have hentryId : entry.1 = id := by simpa using List.find?_some hentry
  obtain ⟨request, hrequest, hrequestId, happroved, -⟩ := hsound.approved grant hgrant
  have hstatus := hsound.decided entry (List.mem_of_find?_eq_some hentry) request hrequest
    (by rw [hrequestId, hid, hentryId])
  rw [happroved, hlast] at hstatus
  cases hstatus

theorem honoured (hsound : store.Sound) : store.Honoured where
  approved := hsound.approved
  once := List.nodup_iff_count_le_one.mp hsound.once
  rejected := by
    intro id hrejected text db now groups spaceId permission categoryId
    have hwithout : store.without id = store := by
      unfold RequestStore.without
      rw [List.filter_eq_self.mpr]
      intro grant hgrant
      simpa using hsound.not_granted hrejected grant hgrant
    rw [hwithout]

end Sound

/-- No statement changes the terms of a request. -/
theorem HasTerms.advance {id : Uuid} {existing : AccessRequest}
    (hterms : store.HasTerms id existing) {choice : RequestChoice} {process : RequestProcess}
    {remaining : Option RequestProcess} {after : RequestStore}
    (hadvance : requestAdvance choice store process = some (remaining, after)) :
    after.HasTerms id existing := by
  rcases requestAdvance_cases hadvance with ⟨rfl, -⟩ |
    ⟨-, ⟨new, draft, requestedUntil, hfresh, rfl⟩ | ⟨review, status, read, -, hreview⟩ | rfl |
      ⟨now, rfl⟩⟩
  · exact hterms
  · refine ⟨List.mem_cons_of_mem new hterms.1, fun request hrequest hid => ?_⟩
    rcases List.mem_append.mp hrequest with hold | hnew
    · exact hterms.2 request hold hid
    · rw [List.mem_singleton.mp hnew] at hid
      have hissued : new ∈ store.issued := by
        rw [show new = id from hid]
        exact hterms.1
      exact absurd hissued hfresh
  · have htables : after.issued = store.issued ∧
        after.requests = (store.record review status).requests := by
      rcases (review_cases hreview).2.2 with rfl | ⟨_, _, _, _, _, rfl⟩ <;> exact ⟨rfl, rfl⟩
    rw [HasTerms, htables.1, htables.2]
    refine ⟨hterms.1, fun request hrequest hid => ?_⟩
    obtain ⟨old, hold, hsame, hgroup, hspace, huntil, -⟩ := mem_record hrequest
    rw [hgroup, hspace, huntil]
    exact hterms.2 old hold (hsame ▸ hid)
  · exact ⟨hterms.1, fun _ hrequest => absurd hrequest List.not_mem_nil⟩
  · exact hterms

end RequestStore

theorem requestOutline_valid : requestOutline.Valid requestProgram
    (fun store => store.requests = [] ∧ store.grants = [] ∧ store.decisions = [])
    (Concurrent.Guarded StillPending) where
  init := by
    rintro store ⟨hrequests, hgrants, hdecisions⟩
    constructor <;> simp [hrequests, hgrants, hdecisions]
  drift := by
    intro time store after hdrift hsound
    obtain ⟨-, rfl⟩ := Concurrent.drift_eq hdrift
    exact ⟨{ hsound with }, fun _ _ hknown => hknown⟩
  start := by
    intro name store process hstart _
    cases process <;> trivial
  own := by
    intro config name choice process remaining after hholds hprocess hguarded hadvance
    have hsound := hholds.1
    rcases requestAdvance_cases hadvance with ⟨rfl, hread⟩ | ⟨rfl, hwrite⟩
    · refine ⟨hsound, fun next hnext => ?_⟩
      cases next with
      | reviewAccessTransaction review status existing =>
          obtain ⟨hexisting, hid, hstatus⟩ := hread review status existing hnext
          refine ⟨hstatus, hid ▸ hsound.issued existing hexisting, ?_⟩
          intro request hrequest hrequestId
          have hsame : request = existing :=
            List.inj_on_of_nodup_map hsound.ids hrequest hexisting (hrequestId.trans hid.symm)
          rw [hsame]
          exact ⟨rfl, rfl, rfl⟩
      | _ => trivial
    · refine ⟨?_, fun next hnext => by cases hnext⟩
      rcases hwrite with ⟨id, draft, requestedUntil, hfresh, rfl⟩ |
        ⟨review, status, existing, rfl, hreview⟩ | rfl | ⟨now, rfl⟩
      · exact hsound.create hfresh
      · obtain ⟨hstatus, hterms⟩ := hholds.2 name _ hprocess
        rcases hguarded _ hprocess with hpending | ⟨happroved, grant, hgrant, hid⟩
        · exact hsound.reviewed hreview hstatus hterms hpending
        · exact absurd hid ((RequestStore.review_cases hreview).2.1 happroved grant hgrant)
      · exact hsound.clear
      · exact hsound.filter _
  others := by
    intro config name choice process remaining after hholds hprocess _ hadvance other process' _
      hother
    have hknown := hholds.2 other process' hother
    cases process' with
    | reviewAccessTransaction review status existing => exact ⟨hknown.1, hknown.2.advance hadvance⟩
    | _ => trivial

/-- **Temporary grants.** In every run whose reviews find the request still
pending, grants come from approvals, a request is decided at most once, and a
rejected one confers no access. -/
theorem temporary_grants_honoured {config : RequestConfig}
    (hreach : requestSystem.ReachableWhile (Concurrent.Guarded StillPending) config) :
    config.store.Honoured :=
  (requestOutline_valid.holds hreach).1.honoured

/-! ## Sample -/

def sampleSpace : Uuid := ⟨"space", by decide⟩

def sampleGroup : Uuid := ⟨"group", by decide⟩

def sampleRequest : Uuid := ⟨"request", by decide⟩

def emptyRequests : RequestStore := ⟨0, [], [], [], []⟩

theorem reachable_emptyRequests {allowed : RequestConfig → RequestMove → Prop} :
    requestSystem.ReachableWhile allowed (Concurrent.idle emptyRequests) :=
  .init ⟨⟨rfl, rfl, rfl⟩, fun _ => rfl⟩

/-- Alice asks for a day of access. -/
def askForAccess : List RequestMove :=
  [.start 0 (.requestAccess ⟨"alice", none, sampleSpace, sampleGroup, some (days 1), "audit"⟩),
    .advance 0 (.accepted sampleRequest), .advance 0 (.accepted sampleRequest)]

/-- The request of Alice with the last decision on it. -/
def decidedRequest (status : RequestStatus) (reviewer : String) : AccessRequest :=
  ⟨sampleRequest, "alice", none, sampleSpace, some sampleGroup, some (days 1), "audit", status,
    none, some reviewer, some 0⟩

def issuedGrant : IssuedGrant :=
  ⟨⟨sampleGroup, sampleSpace, days 1⟩, sampleRequest, "bob"⟩

/-- Bob approves the request. -/
def approvedByBob : RequestStore :=
  ⟨0, [decidedRequest .approved "bob"], [issuedGrant], [sampleRequest],
    [(sampleRequest, .approved)]⟩

def approveMoves : List RequestMove :=
  [.start 1 (.reviewAccess ⟨sampleRequest, .approved, none, "bob"⟩),
    .advance 1 (.accepted sampleRequest), .advance 1 (.accepted sampleRequest)]

theorem temporary_grants_honoured_approved :
    requestSystem.ReachableWhile (Concurrent.Guarded StillPending)
      (Concurrent.idle approvedByBob) ∧ approvedByBob.Honoured := by
  have hrun : (Concurrent.executeNamed requestProgram [0, 1]
      (Concurrent.isGuarded StillPending) (Concurrent.idle emptyRequests)
      (askForAccess ++ approveMoves)).bind (Concurrent.settled [0, 1]) = some approvedByBob := by
    decide
  have hreach := Concurrent.reachable_settled
    (fun _ _ _ hguarded => Concurrent.guarded_of_isGuarded hguarded) (askForAccess ++ approveMoves)
    reachable_emptyRequests hrun
  exact ⟨hreach, temporary_grants_honoured hreach⟩

/-- Carol reads the request before Bob approves it, and rejects it afterwards. -/
def overruleMoves : List RequestMove :=
  [.start 2 (.reviewAccess ⟨sampleRequest, .rejected, none, "carol"⟩),
    .advance 2 (.accepted sampleRequest)]

/-- The request is rejected, and Bob's grant is still there. -/
def overruled : RequestStore :=
  ⟨0, [decidedRequest .rejected "carol"], [issuedGrant], [sampleRequest],
    [(sampleRequest, .rejected), (sampleRequest, .approved)]⟩

/-- The space, and the group of Alice. -/
def sampleTables : AccessStore where
  groups := [⟨sampleGroup, "auditors", "cn=auditors", true, none⟩]
  spaces := [⟨sampleSpace, "space", none, none⟩]
  categories := []
  accessRules := []
  temporaryAccessGrants := []
  spaceIds := by decide

/-- Two reviewers disagree: the request was decided twice, its last decision is a
rejection, and Alice reads the space. -/
theorem rejected_request_grants_access :
    requestSystem.Reachable (Concurrent.idle overruled) ∧
      overruled.lastDecision sampleRequest = some .rejected ∧
      can ⟨id, (· == ·), (· ≤ ·)⟩ (overruled.access sampleTables) 0 ["auditors"] sampleSpace .read
        none = true ∧
      ¬overruled.Honoured := by
  have hrun : (Concurrent.executeNamed requestProgram [0, 1, 2] (fun _ _ => true)
      (Concurrent.idle emptyRequests)
      (askForAccess ++ overruleMoves ++ approveMoves ++
        [.advance 2 (.accepted sampleRequest)])).bind (Concurrent.settled [0, 1, 2]) =
        some overruled := by
    decide
  refine ⟨?_, rfl, by decide, fun hhonoured => ?_⟩
  · exact Concurrent.reachable_settled (fun _ _ _ _ => trivial) _ reachable_emptyRequests hrun
  · have htwice : (overruled.decisions.map Prod.fst).count sampleRequest = 2 := by decide
    have honce := hhonoured.once sampleRequest
    omega

end IsmsPortal
