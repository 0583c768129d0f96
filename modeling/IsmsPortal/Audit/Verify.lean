import IsmsPortal.Audit.Chain

/-! # Verifying the audit chain

`verifyAuditChain` reads the chained rows page by page, recomputes every hash,
checks that positions and hashes follow one another, and compares the newest
seals with the rows they name. The scan does not depend on the page size; it
reports nothing exactly when the rows it reads form a hash chain.
-/

namespace IsmsPortal

open Foundation

/-- Why an entry is reported. -/
inductive BrokenReason
  | missingEvents
  | linkMismatch
  | contentAltered
deriving DecidableEq

def BrokenReason.text : BrokenReason → String
  | .missingEvents => "missing events"
  | .linkMismatch => "link mismatch"
  | .contentAltered => "content altered"

structure BrokenEntry where
  chainIndex : String
  reason : String
deriving DecidableEq

/-- `a || b` on a nullable text: null and the empty text are falsy. -/
def orElse (text : Option String) (default : String) : String :=
  if text = some "" then default else text.getD default

theorem orElse_of_ne_empty {text default : String} (htext : text ≠ "") :
    orElse (some text) default = text := by
  unfold orElse
  rw [if_neg (fun heq => htext (Option.some.inj heq)), Option.getD_some]

section Scan

variable (sha256 : String → HexDigest)

/-- The entries one event adds to the report, after the event `previous`. -/
def eventProblems (previous : Option (Int × String)) (event : AuditEvent) : List BrokenEntry :=
  let index := event.chainIndex.getD 0
  let entry (reason : BrokenReason) : BrokenEntry := ⟨toString index, reason.text⟩
  -- Retention may delete the oldest events: the chain then starts at prevHash.
  let expectedPrevious := match previous with
    | some (last, hash) => if last + 1 = index then some hash else event.prevHash
    | none => event.prevHash
  (if previous.any fun last => last.1 + 1 ≠ index then [entry .missingEvents]
    else if event.prevHash ≠ expectedPrevious then [entry .linkMismatch]
    else []) ++
  (if some (auditEventHash sha256 (orElse event.prevHash genesisHash) event) ≠ event.chainHash
    then [entry .contentAltered] else [])

/-- Variables of the verification loop. -/
structure ScanState where
  broken : List BrokenEntry
  previous : Option (Int × String)
  checked : Nat
  firstIndex : Option Int

def ScanState.start : ScanState := ⟨[], none, 0, none⟩

/-- What is remembered of an event for the next one. -/
def remembered (event : AuditEvent) : Int × String :=
  (event.chainIndex.getD 0, orElse event.chainHash "")

def ScanState.visit (state : ScanState) (event : AuditEvent) : ScanState where
  broken := state.broken ++ eventProblems sha256 state.previous event
  previous := some (remembered event)
  checked := state.checked + 1
  firstIndex := some (state.firstIndex.getD (event.chainIndex.getD 0))

/-- The verification loop: pages of 5000 rows above the cursor. -/
def scanChain (store : AuditStore) : ScanState :=
  Query.scanPages AuditEvent.chainIndex 5000 (ScanState.visit sha256) store.events 0 .start

/-- The newest seals, 500 at most. -/
def newestSeals (store : AuditStore) : List AuditSeal :=
  Query.findMany (fun _ => true) (fun left right => right.createdAt.ms ≤ left.createdAt.ms) 500
    store.seals

/-- The event a seal names exists and has another hash. -/
def sealMismatch (store : AuditStore) (entry : AuditSeal) : Bool :=
  (store.events.find? fun event => event.chainIndex = some entry.lastChainIndex).any
    fun event => event.chainHash ≠ some entry.chainHash

structure SealSummary where
  total : Nat
  timestamped : Nat
  mismatched : Nat
  lastSealAt : Option Date
  lastTimestampAt : Option Date

structure VerifyReport where
  valid : Bool
  checked : Nat
  pending : Nat
  firstIndex : Option String
  lastIndex : Option String
  broken : List BrokenEntry
  seals : SealSummary
  timestampAuthorityConfigured : Bool

/-- Recompute the whole remaining chain and check the seals against it. -/
def verifyAuditChain (store : AuditStore) (timestampAuthorityConfigured : Bool) : VerifyReport :=
  let scan := scanChain sha256 store
  let seals := newestSeals store
  let sealMismatches := seals.countP (sealMismatch store)
  { valid := scan.broken.length = 0 ∧ sealMismatches = 0
    checked := scan.checked
    pending := store.events.countP fun event => event.chainIndex.isNone
    firstIndex := scan.firstIndex.map toString
    lastIndex := scan.previous.map fun last => toString last.1
    broken := scan.broken.take 20
    seals :=
      { total := seals.length
        timestamped := seals.countP fun entry => entry.token.isSome
        mismatched := sealMismatches
        lastSealAt := seals.head?.map AuditSeal.createdAt
        lastTimestampAt :=
          (seals.find? fun entry => entry.genTime.isSome).bind AuditSeal.genTime }
    timestampAuthorityConfigured := timestampAuthorityConfigured }

/-! ## The scan without pages -/

/-- The rows the verifier reads, in chain order. -/
def AuditStore.verified (store : AuditStore) : List AuditEvent :=
  store.chain.filter (Query.above AuditEvent.chainIndex 0)

/-- All entries reported along a list of events. -/
def chainProblems (previous : Option (Int × String)) : List AuditEvent → List BrokenEntry
  | [] => []
  | event :: rest =>
      eventProblems sha256 previous event ++ chainProblems (some (remembered event)) rest

variable {sha256}

theorem foldl_visit (state : ScanState) (events : List AuditEvent) :
    events.foldl (ScanState.visit sha256) state =
      { broken := state.broken ++ chainProblems sha256 state.previous events
        previous := (events.getLast?.map remembered).or state.previous
        checked := state.checked + events.length
        firstIndex := state.firstIndex.or
          (events.head?.map fun event => event.chainIndex.getD 0) } := by
  induction events generalizing state with
  | nil => cases state; simp [chainProblems]
  | cons event rest ih =>
      rw [List.foldl_cons, ih]
      simp only [ScanState.visit, chainProblems, List.append_assoc, List.length_cons,
        ScanState.mk.injEq, true_and, List.head?_cons, Option.map_some, List.getLast?_cons]
      refine ⟨?_, ?_, ?_⟩
      · cases rest.getLast? <;> rfl
      · rw [add_assoc, add_comm 1]
      · cases state.firstIndex <;> rfl

/-- The scan reads the verified rows once each, in chain order. -/
theorem scanChain_eq (store : AuditStore) :
    scanChain sha256 store =
      { broken := chainProblems sha256 none store.verified
        previous := store.verified.getLast?.map remembered
        checked := store.verified.length
        firstIndex := store.verified.head?.map fun event => event.chainIndex.getD 0 } := by
  unfold scanChain
  rw [Query.scanPages_eq_foldl (by decide) _ store.uniqueIndex]
  change store.verified.foldl _ _ = _
  rw [foldl_visit]
  simp [ScanState.start]

/-! ## Clean scans are hash chains -/

theorem append_ite_eq_nil {α : Type} {front : List α} {entry : α} {condition : Prop}
    [Decidable condition] :
    front ++ (if condition then [entry] else []) = [] ↔ front = [] ∧ ¬condition := by
  rw [List.append_eq_nil_iff]
  by_cases hcondition : condition
  · simp [hcondition]
  · simp [hcondition]

theorem eventProblems_none (event : AuditEvent) :
    eventProblems sha256 none event = [] ↔
      event.chainHash =
        some (auditEventHash sha256 (orElse event.prevHash genesisHash) event) := by
  unfold eventProblems
  simp only [append_ite_eq_nil, not_not]
  constructor
  · intro hclean
    exact hclean.2.symm
  · intro hhash
    exact ⟨by simp, hhash.symm⟩

theorem eventProblems_some {index : Int} {hash : String} {event : AuditEvent} :
    eventProblems sha256 (some (index, hash)) event = [] ↔
      event.chainIndex.getD 0 = index + 1 ∧ event.prevHash = some hash ∧
        event.chainHash =
          some (auditEventHash sha256 (orElse event.prevHash genesisHash) event) := by
  unfold eventProblems
  simp only [append_ite_eq_nil, not_not, Option.any_some, decide_eq_true_eq]
  by_cases hindex : index + 1 = event.chainIndex.getD 0
  · by_cases hprevious : event.prevHash = some hash
    · simp [← hindex, hprevious, eq_comm]
    · simp [← hindex, hprevious]
  · simp [hindex, Ne.symm hindex]

theorem remembered_of_hash {previous : String} {index : Int} {event : AuditEvent}
    (hindex : event.chainIndex = some index)
    (hhash : event.chainHash = some (auditEventHash sha256 previous event)) :
    remembered event = (index, auditEventHash sha256 previous event) := by
  unfold remembered
  rw [hindex, hhash, orElse_of_ne_empty (auditEventHash_isHexDigest sha256 _ _).ne_empty,
    Option.getD_some]

/-- After an event with a hash, the report stays empty exactly along chains. -/
theorem chainProblems_some_iff {index : Int} {hash : String} {events : List AuditEvent}
    (hhash : hash ≠ "") (hindexed : ∀ event ∈ events, event.chainIndex.isSome = true) :
    chainProblems sha256 (some (index, hash)) events = [] ↔
      (auditView sha256).Linked index hash events := by
  induction events generalizing index hash with
  | nil => exact ⟨fun _ => trivial, fun _ => rfl⟩
  | cons event rest ih =>
      obtain ⟨position, hposition⟩ := Option.isSome_iff_exists.mp
        (hindexed event List.mem_cons_self)
      have hrest : ∀ other ∈ rest, other.chainIndex.isSome = true :=
        fun other hother => hindexed other (List.mem_cons_of_mem _ hother)
      have hdigest := (auditEventHash_isHexDigest sha256 hash event).ne_empty
      rw [chainProblems, List.append_eq_nil_iff, eventProblems_some]
      constructor
      · rintro ⟨⟨hindex, hprevious, hcontent⟩, hproblems⟩
        rw [hprevious, orElse_of_ne_empty hhash] at hcontent
        rw [hposition, Option.getD_some] at hindex
        rw [hindex] at hposition
        rw [remembered_of_hash hposition hcontent, ih hdigest hrest] at hproblems
        exact ⟨hposition, hprevious, hcontent, hproblems⟩
      · rintro ⟨hindex, hprevious, hcontent, hlinked⟩
        refine ⟨⟨?_, hprevious, ?_⟩, ?_⟩
        · rw [show event.chainIndex = some (index + 1) from hindex, Option.getD_some]
        · rw [show event.prevHash = some hash from hprevious, orElse_of_ne_empty hhash]
          exact hcontent
        · rw [remembered_of_hash hindex hcontent, ih hdigest hrest]
          exact hlinked

/-- **A clean report is a hash chain**, started at the hash the first row names. -/
theorem chainProblems_none_iff {index : Int} {hash : String} {event : AuditEvent}
    {rest : List AuditEvent} (hindex : event.chainIndex = some (index + 1))
    (hprevious : event.prevHash = some hash) (hhash : hash ≠ "")
    (hindexed : ∀ other ∈ rest, other.chainIndex.isSome = true) :
    chainProblems sha256 none (event :: rest) = [] ↔
      (auditView sha256).Linked index hash (event :: rest) := by
  have hdigest := (auditEventHash_isHexDigest sha256 hash event).ne_empty
  rw [chainProblems, List.append_eq_nil_iff, eventProblems_none, hprevious,
    orElse_of_ne_empty hhash]
  constructor
  · rintro ⟨hcontent, hproblems⟩
    rw [remembered_of_hash hindex hcontent, chainProblems_some_iff hdigest hindexed] at hproblems
    exact ⟨hindex, hprevious, hcontent, hproblems⟩
  · rintro ⟨_, _, hcontent, hlinked⟩
    refine ⟨hcontent, ?_⟩
    rw [remembered_of_hash hindex hcontent, chainProblems_some_iff hdigest hindexed]
    exact hlinked

theorem chainProblems_of_linked {index : Int} {hash : String} {events : List AuditEvent}
    (hlinked : (auditView sha256).Linked index hash events) (hhash : hash ≠ "") :
    chainProblems sha256 none events = [] := by
  cases events with
  | nil => rfl
  | cons event rest =>
      refine (chainProblems_none_iff hlinked.1 hlinked.2.1 hhash ?_).mpr hlinked
      intro other hother
      obtain ⟨position, hposition, _⟩ := hlinked.mem_index (List.mem_cons_of_mem _ hother)
      rw [show other.chainIndex = some position from hposition]
      rfl

/-! ## The report -/

/-- Every seal the verifier reads agrees with the row it names, if that row exists. -/
def SealsMatch (store : AuditStore) : Prop :=
  ∀ entry ∈ newestSeals store, ∀ event ∈ store.events,
    event.chainIndex = some entry.lastChainIndex → event.chainHash = some entry.chainHash

theorem sealMismatch_eq_false {store : AuditStore} {entry : AuditSeal} :
    sealMismatch store entry = false ↔ ∀ event ∈ store.events,
      event.chainIndex = some entry.lastChainIndex → event.chainHash = some entry.chainHash := by
  unfold sealMismatch
  constructor
  · intro hmatch event hevent hindex
    -- The index is unique, so the row found is the row named.
    cases hfind : store.events.find? fun other =>
        other.chainIndex = some entry.lastChainIndex with
    | none => simpa [hindex] using List.find?_eq_none.mp hfind event hevent
    | some found =>
        have hfound : found.chainIndex = some entry.lastChainIndex := by
          simpa using List.find?_some hfind
        rw [hfind] at hmatch
        have heq : found = event :=
          AuditStore.eq_of_chainIndex (List.mem_of_find?_eq_some hfind) hevent hfound hindex
        rw [← heq]
        simpa using hmatch
  · intro hmatch
    cases hfind : store.events.find? fun other =>
        other.chainIndex = some entry.lastChainIndex with
    | none => rfl
    | some found =>
        have hfound : found.chainIndex = some entry.lastChainIndex := by
          simpa using List.find?_some hfind
        simp [hmatch found (List.mem_of_find?_eq_some hfind) hfound]

theorem verify_valid_iff (store : AuditStore) (configured : Bool) :
    (verifyAuditChain sha256 store configured).valid = true ↔
      chainProblems sha256 none store.verified = [] ∧ SealsMatch store := by
  unfold verifyAuditChain
  simp only [scanChain_eq, decide_eq_true_eq, List.length_eq_zero_iff, List.countP_eq_zero,
    Bool.not_eq_true, sealMismatch_eq_false, SealsMatch]

theorem verify_broken_eq_nil_iff (store : AuditStore) (configured : Bool) :
    (verifyAuditChain sha256 store configured).broken = [] ↔
      chainProblems sha256 none store.verified = [] := by
  unfold verifyAuditChain
  simp only [scanChain_eq, List.take_eq_nil_iff]
  simp

theorem verify_checked (store : AuditStore) (configured : Bool) :
    (verifyAuditChain sha256 store configured).checked = store.verified.length := by
  unfold verifyAuditChain
  rw [scanChain_eq]

end Scan

end IsmsPortal
