import IsmsPortal.Foundation.JsString
import IsmsPortal.Foundation.Locking
import IsmsPortal.Foundation.Table
import Mathlib.Data.List.Dedup

/-! # Signature requests

A request asks several signers to sign a version. `decide` reads the open
request, collects its evidence, and then runs a transaction: it writes the
signer's entry, counts the pending ones, and closes the request when there is
none left or the signer declined. `cancel` reads the open request and then
cancels it. The database runs at READ COMMITTED: a transaction sees what has been
committed and its own writes, and holds the rows it has written until it ends.
-/

namespace IsmsPortal

open Foundation

inductive EntryStatus
  | pending
  | signed
  | declined
deriving DecidableEq

inductive SignatureStatus
  | opened
  | completed
  | declined
  | cancelled
deriving DecidableEq

inductive SignatureDecision
  | sign
  | decline
deriving DecidableEq

/-- The status an entry gets by a decision. -/
def SignatureDecision.status : SignatureDecision → EntryStatus
  | .sign => .signed
  | .decline => .declined

/-- A row of `SignatureEntry`. A request has one entry per signer. -/
structure SignatureEntry where
  signer : String
  status : EntryStatus
  decidedAt : Option Int
deriving DecidableEq

/-- A row of `SignatureRequest` with its entries, and the clock. The last field is
no column: it records that a cancellation was committed. -/
structure SignatureRequest where
  clock : Int
  requestedBy : String
  status : SignatureStatus
  completedAt : Option Int
  entries : List SignatureEntry
  cancelled : Bool
deriving DecidableEq

/-- The first occurrence of each name, as a set iterates over them. -/
def distinct (names : List String) : List String := names.reverse.dedup.reverse

/-- `requestSignatures`: the new request, or none without signers. -/
def requestSignatures (toLowerCase : String → String) (requestedBy : String)
    (signers : List String) (clock : Int) : Option SignatureRequest :=
  let names := (distinct (signers.map fun signer => toLowerCase (JsString.trim signer))).filter
    (· ≠ "")
  if names.isEmpty then none
  else some ⟨clock, requestedBy, .opened, none, names.map fun signer => ⟨signer, .pending, none⟩,
    false⟩

/-! ## Endpoints -/

/-- Where a request is, and what it has read. A transaction carries its entry. -/
inductive SignatureProcess
  | decide (username : String) (decision : SignatureDecision)
  | decideTransaction (signer : String) (decision : SignatureDecision) (decidedAt : Int)
  | decideCount (signer : String) (decision : SignatureDecision) (decidedAt : Int)
  | decideRequest (signer : String) (decision : SignatureDecision) (decidedAt : Int)
      (remaining : Nat)
  | decideCommit (signer : String) (decision : SignatureDecision) (decidedAt : Int)
      (requestStatus : SignatureStatus)
  | cancel (username : String) (admin : Bool)
  | cancelUpdate
deriving DecidableEq

/-- Entries a transaction of another signer counts as pending. -/
def SignatureRequest.pendingBeside (request : SignatureRequest) (signer : String) :
    List SignatureEntry :=
  request.entries.filter fun entry => entry.signer ≠ signer ∧ entry.status = .pending

/-- The status a decision gives the request, from the count. -/
def decidedStatus (decision : SignatureDecision) (remaining : Nat) : SignatureStatus :=
  match decision with
  | .decline => .declined
  | .sign => if remaining = 0 then .completed else .opened

/-- The commit of a decision. -/
def SignatureRequest.commitDecision (request : SignatureRequest) (signer : String)
    (decision : SignatureDecision) (decidedAt : Int) (requestStatus : SignatureStatus) :
    SignatureRequest where
  __ := request
  entries := Table.update SignatureEntry.signer signer
    (fun entry => { entry with status := decision.status, decidedAt := some decidedAt })
    request.entries
  status := if requestStatus = .opened then request.status else requestStatus
  completedAt := if requestStatus = .opened then request.completedAt else some decidedAt

section Program

variable (toLowerCase : String → String)

/-- Run the next statement. Whether the user sees the document, consents and has
a clean version can only end a request early. -/
def signatureAdvance (request : SignatureRequest) :
    SignatureProcess → Option SignatureProcess × SignatureRequest
  | .decide username decision =>
      let signer := toLowerCase username
      if request.status = .opened ∧
          ∃ entry ∈ request.entries, entry.signer = signer ∧ entry.status = .pending then
        (some (.decideTransaction signer decision request.clock), request)
      else (none, request)
  | .decideTransaction signer decision decidedAt =>
      if ∃ entry ∈ request.entries, entry.signer = signer ∧ entry.status = .pending then
        (some (.decideCount signer decision decidedAt), request)
      else (none, request)  -- "Already decided"
  | .decideCount signer decision decidedAt =>
      (some (.decideRequest signer decision decidedAt (request.pendingBeside signer).length),
        request)
  | .decideRequest signer decision decidedAt remaining =>
      (some (.decideCommit signer decision decidedAt (decidedStatus decision remaining)), request)
  | .decideCommit signer decision decidedAt requestStatus =>
      (none, request.commitDecision signer decision decidedAt requestStatus)
  | .cancel username admin =>
      if request.status = .opened ∧
          (toLowerCase request.requestedBy = toLowerCase username ∨ admin = true) then
        (some .cancelUpdate, request)
      else (none, request)
  | .cancelUpdate =>
      (none, { request with
        status := .cancelled, completedAt := some request.clock, cancelled := true })

def SignatureProcess.initial : SignatureProcess → Bool
  | .decide _ _ | .cancel _ _ => true
  | _ => false

/-- The workflow of one request. -/
def signatureProgram : Concurrent SignatureRequest SignatureProcess Unit where
  drift time request := if request.clock ≤ time then some { request with clock := time } else none
  start := SignatureProcess.initial
  advance _ _ request process := some (signatureAdvance toLowerCase request process)

abbrev SignatureConfig : Type := Concurrent.Config SignatureRequest SignatureProcess

abbrev SignatureMove : Type := Concurrent.Move SignatureProcess Unit

/-- Runs from a new request. -/
abbrev signatureSystem : System SignatureConfig SignatureMove :=
  (signatureProgram toLowerCase).system fun request =>
    ∃ requestedBy signers, requestSignatures toLowerCase requestedBy signers request.clock =
      some request

end Program

inductive SignatureRow
  | entry (signer : String)
  | request
deriving DecidableEq

/-- Rows held by open transactions, and rows that statements write. -/
def signatureLocks : Concurrent.Locks SignatureRequest SignatureProcess SignatureRow where
  holds
    | .decideCount signer _ _ | .decideRequest signer _ _ _ => [.entry signer]
    | .decideCommit signer _ _ requestStatus =>
        -- Only a decision that closes the request has written its row.
        .entry signer :: if requestStatus = .opened then [] else [.request]
    | _ => []
  wants _
    | .decideTransaction signer _ _ => [.entry signer]
    | .decideRequest _ decision _ remaining =>
        if decidedStatus decision remaining = .opened then [] else [.request]
    | .cancelUpdate => [.request]
    | _ => []

/-- The commits and cancellations that keep the workflow consistent: a decision
that closes the request finds it open (or declined, for a second decline), a
signature that leaves it open leaves a pending entry, and a cancellation finds
the request open or already cancelled. -/
def Timely (config : SignatureConfig) : SignatureProcess → Prop
  | .decideCommit signer _ _ requestStatus =>
      if requestStatus = .opened then
        config.store.status = .opened → config.store.pendingBeside signer ≠ []
      else config.store.status = .opened ∨
        (requestStatus = .declined ∧ config.store.status = .declined)
  | .cancelUpdate => config.store.status = .opened ∨ config.store.status = .cancelled
  | _ => True

instance (config : SignatureConfig) (process : SignatureProcess) :
    Decidable (Timely config process) :=
  match process with
  | .decideCommit _ _ _ _ => inferInstanceAs (Decidable (ite _ _ _))
  | .cancelUpdate => inferInstanceAs (Decidable (_ ∨ _))
  | .decide _ _ | .decideTransaction _ _ _ | .decideCount _ _ _ | .decideRequest _ _ _ _
  | .cancel _ _ => .isTrue trivial

/-- Statements wait for rows, and commits are timely. -/
def TimelyRun : SignatureConfig → SignatureMove → Prop := signatureLocks.Orderly Timely

/-! ## Consistency -/

/-- The request agrees with its entries. -/
structure SignatureRequest.Consistent (request : SignatureRequest) : Prop where
  unique : (request.entries.map SignatureEntry.signer).Nodup
  cancelled : request.cancelled = true ↔ request.status = .cancelled
  opened : request.status = .opened →
    (∃ entry ∈ request.entries, entry.status = .pending) ∧
      ∀ entry ∈ request.entries, entry.status ≠ .declined
  completed : request.status = .completed → ∀ entry ∈ request.entries, entry.status = .signed
  declined : request.status = .declined → ∃ entry ∈ request.entries, entry.status = .declined

/-- The entry of a signer is pending. -/
def SignatureRequest.Pending (request : SignatureRequest) (signer : String) : Prop :=
  ∃ entry ∈ request.entries, entry.signer = signer ∧ entry.status = .pending

/-- What a transaction knows: its entry is pending for everybody else, and
entries that it counted as decided stay so. -/
def signatureAssertion (request : SignatureRequest) : SignatureProcess → Prop
  | .decideCount signer _ _ => request.Pending signer
  | .decideRequest signer _ _ remaining =>
      request.Pending signer ∧ (remaining = 0 → request.pendingBeside signer = [])
  | .decideCommit signer decision _ requestStatus =>
      request.Pending signer ∧ ((requestStatus = .opened ∧ decision = .sign) ∨
        (requestStatus = .completed ∧ decision = .sign ∧ request.pendingBeside signer = []) ∨
        (requestStatus = .declined ∧ decision = .decline))
  | _ => True

def signatureOutline : Concurrent.Outline SignatureRequest SignatureProcess where
  invariant := SignatureRequest.Consistent
  assertion _ := signatureAssertion

section Steps

variable {toLowerCase : String → String} {request : SignatureRequest}

theorem consistent_requestSignatures {requestedBy : String} {signers : List String} {clock : Int}
    (hcreated : requestSignatures toLowerCase requestedBy signers clock = some request) :
    request.Consistent := by
  simp only [requestSignatures] at hcreated
  split at hcreated
  · cases hcreated
  next hsome =>
    cases hcreated
    rw [List.isEmpty_iff] at hsome
    obtain ⟨name, hname⟩ := List.exists_mem_of_ne_nil _ hsome
    refine ⟨?_, by simp, fun _ => ⟨?_, ?_⟩, by simp, by simp⟩
    · rw [List.map_map]
      have hid : SignatureEntry.signer ∘ (fun signer => (⟨signer, .pending, none⟩ : SignatureEntry)) =
          id := rfl
      rw [hid, List.map_id]
      exact (List.nodup_reverse.mpr (List.nodup_dedup _)).filter _
    · exact ⟨_, List.mem_map_of_mem hname, rfl⟩
    · intro entry hentry
      obtain ⟨signer, -, rfl⟩ := List.mem_map.mp hentry
      simp

theorem mem_pendingBeside {signer : String} {entry : SignatureEntry} :
    entry ∈ request.pendingBeside signer ↔
      entry ∈ request.entries ∧ entry.signer ≠ signer ∧ entry.status = .pending := by
  simp [SignatureRequest.pendingBeside]

/-- Entries after a commit. -/
theorem mem_commitDecision {signer : String} {decision : SignatureDecision} {decidedAt : Int}
    {requestStatus : SignatureStatus} {entry : SignatureEntry} :
    entry ∈ (request.commitDecision signer decision decidedAt requestStatus).entries ↔
      (entry ∈ request.entries ∧ entry.signer ≠ signer) ∨
        ∃ before ∈ request.entries, before.signer = signer ∧
          entry = { before with status := decision.status, decidedAt := some decidedAt } := by
  simp only [SignatureRequest.commitDecision, Table.update, List.mem_map]
  constructor
  · rintro ⟨before, hbefore, rfl⟩
    split
    next hsigner => exact .inr ⟨before, hbefore, hsigner, rfl⟩
    next hsigner => exact .inl ⟨hbefore, hsigner⟩
  · rintro (⟨hentry, hsigner⟩ | ⟨before, hbefore, hsigner, rfl⟩)
    · exact ⟨entry, hentry, if_neg hsigner⟩
    · exact ⟨before, hbefore, if_pos hsigner⟩

theorem pending_of_commit {signer other : String} {decision : SignatureDecision} {decidedAt : Int}
    {requestStatus : SignatureStatus} (hne : other ≠ signer) (hpending : request.Pending other) :
    (request.commitDecision signer decision decidedAt requestStatus).Pending other := by
  obtain ⟨entry, hentry, hsigner, hstatus⟩ := hpending
  exact ⟨entry, mem_commitDecision.mpr (.inl ⟨hentry, hsigner ▸ hne⟩), hsigner, hstatus⟩

/-- A commit leaves no new pending entry. -/
theorem pendingBeside_of_commit {signer other : String} {decision : SignatureDecision}
    {decidedAt : Int} {requestStatus : SignatureStatus}
    (hnone : request.pendingBeside other = []) :
    (request.commitDecision signer decision decidedAt requestStatus).pendingBeside other = [] := by
  rw [List.eq_nil_iff_forall_not_mem] at hnone ⊢
  intro entry hentry
  rw [mem_pendingBeside, mem_commitDecision] at hentry
  obtain ⟨⟨hbefore, -⟩ | ⟨before, -, -, rfl⟩, hne, hstatus⟩ := hentry
  · exact hnone entry (mem_pendingBeside.mpr ⟨hbefore, hne, hstatus⟩)
  · cases decision <;> cases hstatus

/-- A timely commit keeps the request consistent. -/
theorem consistent_commit (hconsistent : request.Consistent) {signer : String}
    {decision : SignatureDecision} {decidedAt : Int} {requestStatus : SignatureStatus}
    (hknown : signatureAssertion request (.decideCommit signer decision decidedAt requestStatus))
    (htimely : if requestStatus = .opened then
        request.status = .opened → request.pendingBeside signer ≠ []
      else request.status = .opened ∨
        (requestStatus = .declined ∧ request.status = .declined)) :
    (request.commitDecision signer decision decidedAt requestStatus).Consistent := by
  obtain ⟨⟨own, hown, hsigner, hpending⟩, hstatus⟩ := hknown
  have hunique : ((request.commitDecision signer decision decidedAt requestStatus).entries.map
      SignatureEntry.signer).Nodup := by
    have hkeys : (request.commitDecision signer decision decidedAt requestStatus).entries.map
        SignatureEntry.signer = request.entries.map SignatureEntry.signer := by
      apply Table.map_key_update
      intro entry
      rfl
    rw [hkeys]
    exact hconsistent.unique
  have hnew : { own with status := decision.status, decidedAt := some decidedAt } ∈
      (request.commitDecision signer decision decidedAt requestStatus).entries :=
    mem_commitDecision.mpr (.inr ⟨own, hown, hsigner, rfl⟩)
  rcases hstatus with ⟨rfl, rfl⟩ | ⟨rfl, rfl, hnone⟩ | ⟨rfl, rfl⟩
  · -- A signature that leaves the request as it is.
    rw [if_pos rfl] at htimely
    refine ⟨hunique, hconsistent.cancelled, fun hopened => ⟨?_, ?_⟩, fun hcompleted => ?_,
      fun hdeclined => ?_⟩
    · obtain ⟨entry, hentry⟩ := List.exists_mem_of_ne_nil _ (htimely hopened)
      obtain ⟨hmem, hne, hstill⟩ := mem_pendingBeside.mp hentry
      exact ⟨entry, mem_commitDecision.mpr (.inl ⟨hmem, hne⟩), hstill⟩
    · intro entry hentry
      rcases mem_commitDecision.mp hentry with ⟨hmem, -⟩ | ⟨before, -, -, rfl⟩
      · exact (hconsistent.opened hopened).2 entry hmem
      · simp [SignatureDecision.status]
    · rw [hconsistent.completed hcompleted own hown] at hpending
      cases hpending
    · obtain ⟨entry, hmem, hentry⟩ := hconsistent.declined hdeclined
      refine ⟨entry, mem_commitDecision.mpr (.inl ⟨hmem, fun hsame => ?_⟩), hentry⟩
      have heq := List.inj_on_of_nodup_map hconsistent.unique hmem hown (hsame.trans hsigner.symm)
      rw [heq, hpending] at hentry
      cases hentry
  · -- The last signature.
    have hopened : request.status = .opened := by simpa using htimely
    refine ⟨hunique, ?_, by simp [SignatureRequest.commitDecision], fun _ => ?_,
      by simp [SignatureRequest.commitDecision]⟩
    · have hlive : request.cancelled ≠ true := by
        rw [ne_eq, hconsistent.cancelled, hopened]
        simp
      simpa [SignatureRequest.commitDecision] using hlive
    · intro entry hentry
      rcases mem_commitDecision.mp hentry with ⟨hmem, hne⟩ | ⟨before, -, -, rfl⟩
      · have hdecided : entry.status ≠ .pending := by
          intro hstill
          have hbeside := mem_pendingBeside.mpr ⟨hmem, hne, hstill⟩
          rw [hnone] at hbeside
          cases hbeside
        have hnever := (hconsistent.opened hopened).2 entry hmem
        cases hcase : entry.status with
        | pending => exact absurd hcase hdecided
        | signed => rfl
        | declined => exact absurd hcase hnever
      · rfl
  · -- A decline.
    have hlive : request.status ≠ .cancelled := by
      rcases (by simpa using htimely : request.status = .opened ∨ request.status = .declined) with
        hopened | hdeclined
      · simp [hopened]
      · simp [hdeclined]
    refine ⟨hunique, ?_, by simp [SignatureRequest.commitDecision],
      by simp [SignatureRequest.commitDecision], fun _ => ⟨_, hnew, rfl⟩⟩
    have hnever : request.cancelled ≠ true := by
      rw [ne_eq, hconsistent.cancelled]
      exact hlive
    simpa [SignatureRequest.commitDecision] using hnever

theorem consistent_cancel (hconsistent : request.Consistent) :
    ({ request with
      status := .cancelled, completedAt := some request.clock, cancelled := true } :
      SignatureRequest).Consistent :=
  ⟨hconsistent.unique, by simp, by simp, by simp, by simp⟩

/-- What a transaction knows is about the entries. -/
theorem signatureAssertion_congr {after : SignatureRequest}
    (hentries : after.entries = request.entries) (process : SignatureProcess) :
    signatureAssertion after process ↔ signatureAssertion request process := by
  unfold signatureAssertion SignatureRequest.Pending SignatureRequest.pendingBeside
  rw [hentries]

/-- Another transaction's commit does not touch what a transaction knows. -/
theorem signatureAssertion_commit {signer : String} {decision : SignatureDecision}
    {decidedAt : Int} {requestStatus : SignatureStatus} {process : SignatureProcess}
    (hheld : SignatureRow.entry signer ∉ signatureLocks.holds process)
    (hknown : signatureAssertion request process) :
    signatureAssertion (request.commitDecision signer decision decidedAt requestStatus) process := by
  cases process with
  | decideCount other _ _ =>
      exact pending_of_commit (by simpa [signatureLocks, eq_comm] using hheld) hknown
  | decideRequest other _ _ remaining =>
      exact ⟨pending_of_commit (by simpa [signatureLocks, eq_comm] using hheld) hknown.1,
        fun hzero => pendingBeside_of_commit (hknown.2 hzero)⟩
  | decideCommit other _ _ otherStatus =>
      have hne : other ≠ signer := by
        intro heq
        exact hheld (by simp [signatureLocks, heq])
      -- A count of zero stays right: a commit adds no pending entry.
      refine ⟨pending_of_commit hne hknown.1, hknown.2.imp_right fun hclosing => ?_⟩
      exact hclosing.imp_left fun hcompleted =>
        ⟨hcompleted.1, hcompleted.2.1, pendingBeside_of_commit hcompleted.2.2⟩
  | _ => trivial

end Steps

section Runs

variable {toLowerCase : String → String}

theorem signatureLocks_sound : signatureLocks.Sound (signatureProgram toLowerCase) where
  start := by
    intro process hstart
    cases process <;> first | rfl | cases hstart
  advance := by
    intro name choice store process process' after hadvance row hrow
    simp only [signatureProgram, Option.some.injEq] at hadvance
    cases process with
    | decide username decision =>
        simp only [signatureAdvance] at hadvance
        split at hadvance <;> cases hadvance
        cases hrow
    | decideTransaction signer decision decidedAt =>
        simp only [signatureAdvance] at hadvance
        split at hadvance <;> cases hadvance
        exact .inr hrow
    | decideCount signer decision decidedAt =>
        cases hadvance
        exact .inl hrow
    | decideRequest signer decision decidedAt remaining =>
        cases hadvance
        rcases List.mem_cons.mp hrow with rfl | hrequest
        · exact .inl (List.mem_singleton.mpr rfl)
        · exact .inr hrequest
    | cancel username admin =>
        simp only [signatureAdvance] at hadvance
        split at hadvance <;> cases hadvance
        cases hrow
    | decideCommit signer decision decidedAt requestStatus => cases hadvance
    | cancelUpdate => cases hadvance

variable (toLowerCase) in
/-- What one statement does: it reads, commits a decision, or cancels. -/
theorem signatureAdvance_cases (request : SignatureRequest) (process : SignatureProcess) :
    (∃ remaining, signatureAdvance toLowerCase request process = (remaining, request)) ∨
      (∃ signer decision decidedAt requestStatus,
        process = .decideCommit signer decision decidedAt requestStatus ∧
        signatureAdvance toLowerCase request process =
          (none, request.commitDecision signer decision decidedAt requestStatus)) ∨
      (process = .cancelUpdate ∧ signatureAdvance toLowerCase request process =
        (none, { request with
          status := .cancelled, completedAt := some request.clock, cancelled := true })) := by
  cases process with
  | decideCommit signer decision decidedAt requestStatus =>
      exact .inr (.inl ⟨_, _, _, _, rfl, rfl⟩)
  | cancelUpdate => exact .inr (.inr ⟨rfl, rfl⟩)
  | decide username decision =>
      left
      simp only [signatureAdvance]
      split <;> exact ⟨_, rfl⟩
  | decideTransaction signer decision decidedAt =>
      left
      simp only [signatureAdvance]
      split <;> exact ⟨_, rfl⟩
  | decideCount signer decision decidedAt => exact .inl ⟨_, rfl⟩
  | decideRequest signer decision decidedAt remaining => exact .inl ⟨_, rfl⟩
  | cancel username admin =>
      left
      simp only [signatureAdvance]
      split <;> exact ⟨_, rfl⟩

/-- The next place of a transaction knows what it needs. -/
theorem signatureAssertion_own {request after : SignatureRequest}
    {process process' : SignatureProcess} (hknown : signatureAssertion request process)
    (hadvance : signatureAdvance toLowerCase request process = (some process', after)) :
    signatureAssertion after process' := by
  cases process with
  | decide username decision =>
      simp only [signatureAdvance] at hadvance
      split at hadvance <;> cases hadvance
      trivial
  | decideTransaction signer decision decidedAt =>
      simp only [signatureAdvance] at hadvance
      split at hadvance
      next hpending =>
        cases hadvance
        exact hpending
      next => cases hadvance
  | decideCount signer decision decidedAt =>
      cases hadvance
      exact ⟨hknown, List.length_eq_zero_iff.mp⟩
  | decideRequest signer decision decidedAt remaining =>
      cases hadvance
      refine ⟨hknown.1, ?_⟩
      cases decision with
      | decline => exact .inr (.inr ⟨rfl, rfl⟩)
      | sign =>
          by_cases hzero : remaining = 0
          · exact .inr (.inl ⟨if_pos hzero, rfl, hknown.2 hzero⟩)
          · exact .inl ⟨if_neg hzero, rfl⟩
  | cancel username admin =>
      simp only [signatureAdvance] at hadvance
      split at hadvance <;> cases hadvance
      trivial
  | decideCommit signer decision decidedAt requestStatus => cases hadvance
  | cancelUpdate => cases hadvance

theorem signatureOutline_valid : signatureOutline.Valid (signatureProgram toLowerCase)
    (fun request => ∃ requestedBy signers,
      requestSignatures toLowerCase requestedBy signers request.clock = some request)
    (fun config move => signatureLocks.Exclusive config ∧ TimelyRun config move) where
  init := by
    rintro request ⟨requestedBy, signers, hcreated⟩
    exact consistent_requestSignatures hcreated
  drift := by
    intro time request after hdrift hconsistent
    obtain ⟨-, rfl⟩ := Concurrent.drift_eq hdrift
    refine ⟨⟨hconsistent.unique, hconsistent.cancelled, hconsistent.opened, hconsistent.completed,
      hconsistent.declined⟩, fun name process hknown => ?_⟩
    exact (signatureAssertion_congr rfl process).mpr hknown
  start := by
    intro name request process hstart _
    cases process <;> trivial
  own := by
    intro config name choice process remaining after hholds hprocess hallowed hadvance
    simp only [signatureProgram, Option.some.injEq] at hadvance
    refine ⟨?_, fun process' hremaining => ?_⟩
    · have htimely := hallowed.2.2 process hprocess
      rcases signatureAdvance_cases toLowerCase config.store process with
        ⟨_, hread⟩ | ⟨signer, decision, decidedAt, requestStatus, rfl, hcommit⟩ | ⟨rfl, hcancel⟩
      · rw [hread] at hadvance
        cases hadvance
        exact hholds.1
      · rw [hcommit] at hadvance
        cases hadvance
        exact consistent_commit hholds.1 (hholds.2 name _ hprocess) htimely
      · rw [hcancel] at hadvance
        cases hadvance
        exact consistent_cancel hholds.1
    · rw [hremaining] at hadvance
      exact signatureAssertion_own (hholds.2 name process hprocess) hadvance
  others := by
    intro config name choice process remaining after hholds hprocess hallowed hadvance other process'
      hne hother
    simp only [signatureProgram, Option.some.injEq] at hadvance
    have hknown := hholds.2 other process' hother
    rcases signatureAdvance_cases toLowerCase config.store process with
      ⟨_, hread⟩ | ⟨signer, decision, decidedAt, requestStatus, rfl, hcommit⟩ | ⟨rfl, hcancel⟩
    · rw [hread] at hadvance
      cases hadvance
      exact hknown
    · rw [hcommit] at hadvance
      cases hadvance
      -- The entry is locked until here, so the other transaction is about another one.
      refine signatureAssertion_commit ?_ hknown
      exact hallowed.1 name other _ process' (Ne.symm hne) hprocess hother _ (by simp [signatureLocks])
    · rw [hcancel] at hadvance
      cases hadvance
      exact (signatureAssertion_congr rfl process').mpr hknown

theorem consistent_of_reachable {config : SignatureConfig}
    (hreach : (signatureSystem toLowerCase).ReachableWhile TimelyRun config) :
    config.store.Consistent :=
  (Concurrent.Locks.outline_holds signatureLocks_sound signatureOutline_valid hreach).1

/-- A timely move does not change the status of a closed request. -/
theorem status_step {config after : SignatureConfig} {move : SignatureMove}
    (htimely : TimelyRun config move)
    (hnext : (signatureProgram toLowerCase).next config move = some after)
    (hclosed : config.store.status ≠ .opened) : after.store.status = config.store.status := by
  rcases Concurrent.next_store hnext with ⟨time, rfl, hdrift⟩ | ⟨name, choice, process, remaining, rfl,
    hprocess, hadvance⟩ | hsame
  · rw [(Concurrent.drift_eq hdrift).2]
  · have hguard := htimely.2 process hprocess
    simp only [signatureProgram, Option.some.injEq] at hadvance
    rcases signatureAdvance_cases toLowerCase config.store process with
      ⟨_, hread⟩ | ⟨signer, decision, decidedAt, requestStatus, rfl, hcommit⟩ | ⟨rfl, hcancel⟩
    · rw [hread, Prod.mk.injEq] at hadvance
      rw [← hadvance.2]
    · rw [hcommit, Prod.mk.injEq] at hadvance
      rw [← hadvance.2]
      simp only [SignatureRequest.commitDecision]
      split
      · rfl
      next hcloses =>
        -- A closing decision finds the request open, or repeats a decline.
        simp only [Timely, if_neg hcloses] at hguard
        rcases hguard with hopened | ⟨hdeclines, hdeclined⟩
        · exact absurd hopened hclosed
        · rw [hdeclines, hdeclined]
    · rw [hcancel, Prod.mk.injEq] at hadvance
      rw [← hadvance.2]
      rcases hguard with hopened | hcancelled
      · exact absurd hopened hclosed
      · exact hcancelled.symm
  · rw [hsame]

/-- **Signature workflow.** In every run whose commits and cancellations are
timely, in every state: the request is completed exactly if it was never
cancelled and all entries are signed, declined exactly if it was never cancelled
and some entry is declined, never open without a pending entry, and its status
never changes once it is closed. -/
theorem signature_workflow_consistent {config : SignatureConfig}
    (hreach : (signatureSystem toLowerCase).ReachableWhile TimelyRun config) :
    (config.store.status = .completed ↔
      config.store.cancelled = false ∧ ∀ entry ∈ config.store.entries, entry.status = .signed) ∧
    (config.store.status = .declined ↔
      config.store.cancelled = false ∧ ∃ entry ∈ config.store.entries, entry.status = .declined) ∧
    (config.store.status = .opened → ∃ entry ∈ config.store.entries, entry.status = .pending) ∧
    ∀ later, (signatureSystem toLowerCase).StepsWhile TimelyRun config later →
      config.store.status ≠ .opened → later.store.status = config.store.status := by
  have hconsistent := consistent_of_reachable hreach
  refine ⟨?_, ?_, fun hopened => (hconsistent.opened hopened).1, ?_⟩
  · constructor
    · intro hcompleted
      refine ⟨?_, hconsistent.completed hcompleted⟩
      rw [← Bool.not_eq_true, hconsistent.cancelled, hcompleted]
      simp
    · rintro ⟨hlive, hsigned⟩
      rw [← Bool.not_eq_true, hconsistent.cancelled] at hlive
      cases hstatus : config.store.status with
      | completed => rfl
      | cancelled => exact absurd hstatus hlive
      | opened =>
          obtain ⟨entry, hentry, hpending⟩ := (hconsistent.opened hstatus).1
          rw [hsigned entry hentry] at hpending
          cases hpending
      | declined =>
          obtain ⟨entry, hentry, hdeclined⟩ := hconsistent.declined hstatus
          rw [hsigned entry hentry] at hdeclined
          cases hdeclined
  · constructor
    · intro hdeclined
      refine ⟨?_, hconsistent.declined hdeclined⟩
      rw [← Bool.not_eq_true, hconsistent.cancelled, hdeclined]
      simp
    · rintro ⟨hlive, entry, hentry, hdeclined⟩
      rw [← Bool.not_eq_true, hconsistent.cancelled] at hlive
      cases hstatus : config.store.status with
      | declined => rfl
      | cancelled => exact absurd hstatus hlive
      | opened => exact absurd hdeclined ((hconsistent.opened hstatus).2 entry hentry)
      | completed =>
          rw [hconsistent.completed hstatus entry hentry] at hdeclined
          cases hdeclined
  · intro later hsteps hclosed
    induction hsteps with
    | refl => rfl
    | tail _ htimely hnext ih =>
        rw [← ih]
        exact status_step htimely hnext (ih ▸ hclosed)

end Runs

/-! ## Sample -/

/-- A request to two signers. -/
def twoSigners : SignatureRequest :=
  ⟨0, "alice", .opened, none, [⟨"bob", .pending, none⟩, ⟨"carol", .pending, none⟩], false⟩

theorem reachable_twoSigners :
    (signatureSystem String.toLower).ReachableWhile TimelyRun (Concurrent.idle twoSigners) := by
  refine .init ⟨⟨"alice", ["bob", "carol"], ?_⟩, fun _ => rfl⟩
  decide +kernel

/-- The two signed entries, with a status of the request. -/
def signedByBoth (status : SignatureStatus) (completedAt : Option Int) : SignatureRequest :=
  ⟨0, "alice", status, completedAt, [⟨"bob", .signed, some 0⟩, ⟨"carol", .signed, some 0⟩], false⟩

/-- Bob signs, then Carol signs. -/
def signInTurn : List SignatureMove :=
  (.start 0 (.decide "bob" .sign) :: List.replicate 5 (.advance 0 ()) : List SignatureMove) ++
    (.start 1 (.decide "carol" .sign) :: List.replicate 5 (.advance 1 ()) : List SignatureMove)

/-- One after the other, the signers complete the request. -/
theorem signature_workflow_consistent_signed :
    (signatureSystem String.toLower).ReachableWhile TimelyRun
      (Concurrent.idle (signedByBoth .completed (some 0))) ∧
    (signedByBoth .completed (some 0)).status = .completed := by
  have hrun : (Concurrent.executeNamed (signatureProgram String.toLower) [0, 1]
      (signatureLocks.isOrderly Timely [0, 1]) (Concurrent.idle twoSigners) signInTurn).bind
        (Concurrent.settled [0, 1]) = some (signedByBoth .completed (some 0)) := by
    decide +kernel
  have hreach := Concurrent.reachable_settled (fun _ _ => Concurrent.Locks.orderly_of_isOrderly)
    signInTurn reachable_twoSigners hrun
  refine ⟨hreach, (signature_workflow_consistent hreach).1.mpr ⟨rfl, ?_⟩⟩
  decide

/-- Both write their entries before either counts. -/
def signAtOnce : List SignatureMove :=
  ([.start 0 (.decide "bob" .sign), .start 1 (.decide "carol" .sign), .advance 0 (), .advance 1 (),
    .advance 0 (), .advance 1 ()] : List SignatureMove) ++
    ([.advance 0 (), .advance 1 (), .advance 0 (), .advance 1 (), .advance 0 (), .advance 1 ()] :
      List SignatureMove)

/-- Each counts the other's entry as pending, and the request stays open with
every entry signed and no transaction in progress. -/
theorem signers_overlap :
    (signatureSystem String.toLower).ReachableWhile signatureLocks.Free
      (Concurrent.idle (signedByBoth .opened none)) ∧
    (signedByBoth .opened none).status = .opened ∧
    ∀ entry ∈ (signedByBoth .opened none).entries, entry.status = .signed := by
  have hrun : (Concurrent.executeNamed (signatureProgram String.toLower) [0, 1]
      (signatureLocks.isFree [0, 1]) (Concurrent.idle twoSigners) signAtOnce).bind
        (Concurrent.settled [0, 1]) = some (signedByBoth .opened none) := by
    decide +kernel
  refine ⟨?_, rfl, by decide⟩
  exact Concurrent.reachable_settled (fun _ _ => Concurrent.Locks.free_of_isFree) signAtOnce
    (reachable_twoSigners.mono fun _ _ htimely => htimely.1) hrun

end IsmsPortal
