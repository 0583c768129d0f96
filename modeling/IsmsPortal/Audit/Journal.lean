import IsmsPortal.Audit.Verify
import IsmsPortal.Foundation.Runs

/-! # Runs of the audit journal

Events are inserted at any time; the scheduler chains, seals and deletes old
rows, one transaction at a time. The state remembers, besides the tables, every
row as it was chained: what was assigned stays known after retention deleted
the row.
-/

namespace IsmsPortal

open Foundation

/-- `AUDIT_RETENTION_DAYS`, when it is a positive safe integer. -/
def retentionDays : EnvNumber → Option Int
  | .finite days =>
      if days.den = 1 ∧ 0 < days.num ∧ days.num ≤ 2 ^ 53 - 1 then some days.num else none
  | _ => none

/-- The events older than the retention period. A limit outside the range of
time values makes the query fail; it lies before every event, so selecting
nothing has the same effect. -/
def expired (days : Int) (now : Date) (event : AuditEvent) : Bool :=
  event.occurredAt.ms < now.ms - days * 86400000

/-- An order in which the database may return the expired events: by time,
events of the same time in any order. -/
def RetentionAnswer (days : EnvNumber) (now : Date) (store : AuditStore)
    (answer : List AuditEvent) : Prop :=
  match retentionDays days with
  | some count => Query.IsAnswer (expired count now)
      (fun left right => left.occurredAt.ms ≤ right.occurredAt.ms) store.events answer
  | none => answer = []

/-- Delete the first 1000 rows of the answer. -/
def maintainHistory (store : AuditStore) (answer : List AuditEvent) : AuditStore :=
  store.deleteEvents fun event => event.id ∈ (answer.take 1000).map AuditEvent.id

/-- The journal between two transactions. -/
structure JournalState where
  store : AuditStore
  clock : Int
  /-- Every row as it was chained, in chaining order. -/
  written : List AuditEvent

inductive JournalOp
  | pass (time : Int)
  | insert (event : AuditEvent)
  | chain (batch : Nat) (now : Int)
  | sealing (intervalMinutes : EnvNumber) (now : Int) (createdAt : Date)
  | maintain (days : EnvNumber) (now : Date) (answer : List AuditEvent)

/-- Rows chained in `after` that were not chained in `before`. -/
def newlyChained (before after : AuditStore) : List AuditEvent :=
  after.chain.filter fun event => event.id ∉ before.chain.map AuditEvent.id

variable (sha256 : String → HexDigest)

/-- One transaction. A tick reads the clock before it reads the tables. Seals
get increasing creation times. -/
def JournalState.Step (state : JournalState) : JournalOp → JournalState → Prop
  | .pass time, next => state.clock ≤ time ∧ next = { state with clock := time }
  | .insert event, next =>
      event.occurredAt.ms ≤ state.clock ∧ event.chainIndex = none ∧ event.prevHash = none ∧
        event.chainHash = none ∧
        ∃ store, state.store.createEvent event = some store ∧ next = { state with store := store }
  | .chain batch now, next =>
      now ≤ state.clock ∧
        ∃ store report, chainAuditEvents sha256 batch state.store now = some (store, report) ∧
          next = { state with
            store := store, written := state.written ++ newlyChained state.store store }
  | .sealing intervalMinutes now createdAt, next =>
      now ≤ state.clock ∧ (∀ entry ∈ state.store.seals, entry.createdAt.ms < createdAt.ms) ∧
        next = { state with
          store := (sealAuditChain intervalMinutes state.store now createdAt).1 }
  | .maintain days now answer, next =>
      now.ms ≤ state.clock ∧ RetentionAnswer days now state.store answer ∧
        next = { state with store := maintainHistory state.store answer }

/-- The journal, started with empty tables. -/
def journalSystem : System JournalState JournalOp where
  init state := state.store = AuditStore.empty ∧ state.written = []
  step := JournalState.Step sha256

/-- What every well-conducted run preserves. -/
structure JournalState.Sound (state : JournalState) : Prop where
  linked : (auditView sha256).Linked 0 genesisHash state.written
  suffix : state.store.chain <:+ state.written
  sealed : ∀ entry ∈ state.store.seals, ∃ event ∈ state.written,
    event.chainIndex = some entry.lastChainIndex ∧ event.chainHash = some entry.chainHash
  created : state.store.seals.Pairwise fun left right => left.createdAt.ms < right.createdAt.ms
  ordered : state.store.seals.Pairwise fun left right =>
    left.lastChainIndex < right.lastChainIndex

variable {sha256}

variable (sha256) in
theorem endHash_isHexDigest {previous : String} (hprevious : IsHexDigest previous)
    (events : List AuditEvent) : IsHexDigest ((auditView sha256).endHash previous events) := by
  induction events generalizing previous with
  | nil => exact hprevious
  | cons event rest ih => exact ih (auditEventHash_isHexDigest sha256 previous event)

theorem newlyChained_eq {before after : AuditStore} {events : List AuditEvent}
    (hchain : after.chain = before.chain ++ events) : newlyChained before after = events := by
  have hids := after.chain_ids_nodup
  rw [hchain, List.map_append, List.nodup_append] at hids
  unfold newlyChained
  rw [hchain, List.filter_append]
  have hold : before.chain.filter (fun event =>
      decide (event.id ∉ before.chain.map AuditEvent.id)) = [] := by
    rw [List.filter_eq_nil_iff]
    intro event hevent
    simpa using ⟨event, hevent, rfl⟩
  have hnew : events.filter (fun event =>
      decide (event.id ∉ before.chain.map AuditEvent.id)) = events := by
    rw [List.filter_eq_self]
    intro event hevent
    rw [decide_eq_true_eq]
    intro hmem
    exact hids.2.2 event.id hmem event.id (List.mem_map_of_mem hevent) rfl
  rw [hold, hnew, List.nil_append]

namespace JournalState.Sound

variable {state next : JournalState}

theorem init (hinit : (journalSystem sha256).init state) : state.Sound sha256 := by
  obtain ⟨hstore, hwritten⟩ := hinit
  constructor
  · rw [hwritten]
    trivial
  · rw [hstore, hwritten]
    exact List.suffix_refl []
  · intro entry hentry
    rw [hstore] at hentry
    exact absurd hentry List.not_mem_nil
  · rw [hstore]
    exact .nil
  · rw [hstore]
    exact .nil

/-- The chained rows left continue the chain at the hash the first one names. -/
theorem remaining (hsound : state.Sound sha256) :
    ∃ front : List AuditEvent, state.written = front ++ state.store.chain ∧
      (auditView sha256).Linked front.length ((auditView sha256).endHash genesisHash front)
        state.store.chain := by
  obtain ⟨front, hfront⟩ := hsound.suffix
  have hlinked := hsound.linked
  rw [← hfront, ChainView.linked_append, zero_add] at hlinked
  exact ⟨front, hfront.symm, hlinked.2⟩

/-- Positions of assigned rows name one row. -/
theorem eq_of_index (hsound : state.Sound sha256) {left right : AuditEvent} {index : Int}
    (hleft : left ∈ state.written) (hright : right ∈ state.written)
    (hindex : left.chainIndex = some index) (hindex' : right.chainIndex = some index) :
    left = right := by
  obtain ⟨i, hi, rfl⟩ := List.getElem_of_mem hleft
  obtain ⟨j, hj, rfl⟩ := List.getElem_of_mem hright
  have hget := hsound.linked.index_getElem i hi
  have hget' := hsound.linked.index_getElem j hj
  have hposition := Option.some.inj (hindex.symm.trans hget)
  have hposition' := Option.some.inj (hindex'.symm.trans hget')
  obtain rfl : i = j := by omega
  rfl

/-- Every chained row lies above the verifier's first cursor. -/
theorem verified_eq (hsound : state.Sound sha256) : state.store.verified = state.store.chain := by
  unfold AuditStore.verified
  rw [List.filter_eq_self]
  intro event hevent
  obtain ⟨index, hindex, hpositive, _⟩ := hsound.linked.mem_index (hsound.suffix.subset hevent)
  exact Query.above_iff.mpr ⟨index, hindex, hpositive⟩

theorem chainProblems_eq_nil (hsound : state.Sound sha256) :
    chainProblems sha256 none state.store.chain = [] := by
  obtain ⟨front, _, hlinked⟩ := hsound.remaining
  exact chainProblems_of_linked hlinked
    (endHash_isHexDigest sha256 genesisHash_isHexDigest front).ne_empty

theorem sealsMatch (hsound : state.Sound sha256) : SealsMatch state.store := by
  intro entry hentry event hevent hindex
  obtain ⟨named, hnamed, hnamedIndex, hnamedHash⟩ :=
    hsound.sealed entry (Query.mem_findMany hentry).1
  have hchained : event ∈ state.store.chain := by
    apply AuditStore.mem_chain.mpr
    exact ⟨hevent, by rw [hindex]; rfl⟩
  rw [hsound.eq_of_index (hsound.suffix.subset hchained) hnamed hindex hnamedIndex]
  exact hnamedHash

/-- **Sound journals verify.** -/
theorem valid (hsound : state.Sound sha256) (configured : Bool) :
    (verifyAuditChain sha256 state.store configured).valid = true ∧
      (verifyAuditChain sha256 state.store configured).checked = state.store.chain.length := by
  rw [verify_valid_iff, verify_checked, hsound.verified_eq]
  exact ⟨⟨hsound.chainProblems_eq_nil, hsound.sealsMatch⟩, rfl⟩

/-! ### What each transaction preserves -/

theorem pass {time : Int} (hsound : state.Sound sha256)
    (hstep : state.Step sha256 (.pass time) next) : next.Sound sha256 := by
  obtain ⟨_, rfl⟩ := hstep
  exact ⟨hsound.linked, hsound.suffix, hsound.sealed, hsound.created, hsound.ordered⟩

theorem insert {event : AuditEvent} (hsound : state.Sound sha256)
    (hstep : state.Step sha256 (.insert event) next) : next.Sound sha256 := by
  obtain ⟨_, hnone, _, _, store, hcreate, rfl⟩ := hstep
  have hchain := AuditStore.chain_createEvent hcreate hnone
  obtain ⟨_, hseals⟩ := AuditStore.withEvents_eq_some.mp hcreate
  constructor
  · exact hsound.linked
  · simp only [hchain]
    exact hsound.suffix
  · simp only [hseals]
    exact hsound.sealed
  · simp only [hseals]
    exact hsound.created
  · simp only [hseals]
    exact hsound.ordered

theorem sealing {intervalMinutes : EnvNumber} {now : Int} {createdAt : Date}
    (hsound : state.Sound sha256)
    (hstep : state.Step sha256 (.sealing intervalMinutes now createdAt) next) :
    next.Sound sha256 := by
  obtain ⟨_, hlater, rfl⟩ := hstep
  rcases sealAuditChain_cases intervalMinutes state.store now createdAt with
    hsame | ⟨created, last, hsealed, hcreatedAt, hlast, hindex, hhash, hnewest⟩
  · rw [hsame]
    exact ⟨hsound.linked, hsound.suffix, hsound.sealed, hsound.created, hsound.ordered⟩
  · rw [hsealed]
    refine ⟨hsound.linked, hsound.suffix, ?_, ?_, ?_⟩
    · intro entry hentry
      rcases List.mem_append.mp hentry with hold | hnew
      · exact hsound.sealed entry hold
      · rw [List.mem_singleton] at hnew
        rw [hnew]
        exact ⟨last, hsound.suffix.subset (List.mem_of_getLast? hlast), hindex, hhash⟩
    · refine List.pairwise_append.mpr ⟨hsound.created, List.pairwise_singleton _ _, ?_⟩
      intro entry hentry other hother
      rw [List.mem_singleton] at hother
      rw [hother, hcreatedAt]
      exact hlater entry hentry
    · refine List.pairwise_append.mpr ⟨hsound.ordered, List.pairwise_singleton _ _, ?_⟩
      intro entry hentry other hother
      rw [List.mem_singleton] at hother
      rw [hother]
      rw [lastSeal_eq_getLast hsound.created] at hnewest
      obtain ⟨front, newest, hseals⟩ := (List.eq_nil_or_concat state.store.seals).resolve_left
        (List.ne_nil_of_mem hentry)
      rw [List.concat_eq_append] at hseals
      have hbelow := hnewest newest (by rw [hseals, List.getLast?_concat])
      have hordered := hsound.ordered
      rw [hseals] at hentry hordered
      rcases List.mem_append.mp hentry with hfront | hlastEntry
      · exact ((List.pairwise_append.mp hordered).2.2 entry hfront newest
          List.mem_cons_self).trans hbelow
      · rw [List.mem_singleton] at hlastEntry
        exact hlastEntry ▸ hbelow

/-- A chaining tick continues the recorded chain, unless retention emptied it. -/
theorem chain {batch : Nat} {now : Int} (hsound : state.Sound sha256)
    (hlive : state.store.chain = [] → state.written ≠ [] →
      ∀ event ∈ state.store.events, settled now event = false)
    (hstep : state.Step sha256 (.chain batch now) next) :
    next.Sound sha256 ∧ ∃ events : List AuditEvent,
      next.store.chain = state.store.chain ++ events ∧ next.written = state.written ++ events := by
  obtain ⟨_, store, report, hchainStep, rfl⟩ := hstep
  obtain ⟨store', report', events, others, hrun, hseals, hevents, _, _, _, hchain⟩ :=
    chainAuditEvents_spec batch state.store now
  obtain ⟨rfl, rfl⟩ := Prod.mk.inj (Option.some.inj (hchainStep.symm.trans hrun))
  set added := (auditView sha256).extend state.store.lastIndex state.store.lastHash events
    with hadded
  have hnew : newlyChained state.store store = added := newlyChained_eq hchain
  refine ⟨⟨?_, ?_, ?_, ?_, ?_⟩, added, hchain, by rw [hnew]⟩
  · simp only [hnew]
    refine ChainView.linked_append.mpr ⟨hsound.linked, ?_⟩
    rw [zero_add]
    -- The tick starts where the record ends, or adds nothing.
    rcases List.eq_nil_or_concat state.store.chain with hnil | ⟨front, last, hlast⟩
    · by_cases hwritten : state.written = []
      · have hstart : added = (auditView sha256).extend 0 genesisHash events := by
          rw [hadded, AuditStore.lastIndex, AuditStore.lastHash, hnil]
          rfl
        rw [hstart, hwritten]
        exact ChainView.linked_extend 0 genesisHash events
      · have hnone : events = [] := by
          rw [hevents, List.eq_nil_iff_forall_not_mem]
          intro event hevent
          obtain ⟨hmem, hsettled⟩ := Query.mem_findMany hevent
          rw [hlive hnil hwritten event hmem] at hsettled
          exact absurd hsettled (by decide)
        rw [hadded, hnone]
        trivial
    · rw [List.concat_eq_append] at hlast
      have hend : state.written.getLast? = some last := by
        obtain ⟨before, hbefore⟩ := hsound.suffix
        rw [← hbefore, hlast, ← List.append_assoc, List.getLast?_concat]
      obtain ⟨hindex, hhash⟩ := hsound.linked.getLast hend
      have hlastIndex : state.store.lastIndex = state.written.length := by
        rw [AuditStore.lastIndex, hlast, List.getLast?_concat, Option.bind_some,
          show last.chainIndex = _ from hindex, zero_add, Option.getD_some]
      have hlastHash : state.store.lastHash =
          (auditView sha256).endHash genesisHash state.written := by
        rw [AuditStore.lastHash, hlast, List.getLast?_concat, Option.bind_some,
          show last.chainHash = _ from hhash, Option.getD_some]
      rw [hadded, hlastIndex, hlastHash]
      exact ChainView.linked_extend _ _ events
  · obtain ⟨front, hfront⟩ := hsound.suffix
    simp only [hnew, hchain]
    exact ⟨front, by rw [← hfront, List.append_assoc]⟩
  · intro entry hentry
    simp only [hseals] at hentry
    obtain ⟨event, hevent, hnamed⟩ := hsound.sealed entry hentry
    exact ⟨event, List.mem_append_left _ hevent, hnamed⟩
  · simp only [hseals]
    exact hsound.created
  · simp only [hseals]
    exact hsound.ordered

end JournalState.Sound

/-! ## Runs without deletion -/

/-- Transactions other than retention. -/
def NoDeletion (_ : JournalState) : JournalOp → Prop
  | .maintain _ _ _ => False
  | _ => True

variable (sha256) in
/-- A sound journal that still has every row it chained. -/
structure JournalState.Complete (state : JournalState) : Prop where
  sound : state.Sound sha256
  complete : state.store.chain = state.written

namespace JournalState.Complete

variable {state next : JournalState}

theorem init (hinit : (journalSystem sha256).init state) : state.Complete sha256 := by
  refine ⟨.init hinit, ?_⟩
  rw [hinit.1, hinit.2]
  rfl

theorem linked (hcomplete : state.Complete sha256) :
    (auditView sha256).Linked 0 genesisHash state.store.chain := by
  rw [hcomplete.complete]
  exact hcomplete.sound.linked

/-- A transaction other than retention adds to the end of the chain. -/
theorem step {op : JournalOp} (hcomplete : state.Complete sha256) (hop : NoDeletion state op)
    (hstep : (journalSystem sha256).step state op next) :
    next.Complete sha256 ∧ state.store.chain <+: next.store.chain := by
  cases op with
  | pass time =>
      have hsound := hcomplete.sound.pass hstep
      obtain ⟨_, rfl⟩ := hstep
      exact ⟨⟨hsound, hcomplete.complete⟩, List.prefix_refl _⟩
  | insert event =>
      have hsound := hcomplete.sound.insert hstep
      obtain ⟨_, hnone, _, _, store, hcreate, rfl⟩ := hstep
      have hchain := AuditStore.chain_createEvent hcreate hnone
      exact ⟨⟨hsound, hchain.trans hcomplete.complete⟩, ⟨[], by rw [List.append_nil, hchain]⟩⟩
  | chain batch now =>
      obtain ⟨hsound, added, hchain, hwritten⟩ := hcomplete.sound.chain
        (fun hnil hwritten => absurd (hcomplete.complete ▸ hnil) hwritten) hstep
      refine ⟨⟨hsound, ?_⟩, ⟨added, hchain.symm⟩⟩
      rw [hchain, hwritten, hcomplete.complete]
  | sealing intervalMinutes now createdAt =>
      have hsound := hcomplete.sound.sealing hstep
      obtain ⟨_, _, rfl⟩ := hstep
      rcases sealAuditChain_cases intervalMinutes state.store now createdAt with
        hsame | ⟨_, _, hsealed, _⟩
      · rw [hsame] at hsound ⊢
        exact ⟨⟨hsound, hcomplete.complete⟩, List.prefix_refl _⟩
      · rw [hsealed] at hsound ⊢
        exact ⟨⟨hsound, hcomplete.complete⟩, List.prefix_refl _⟩
  | maintain days now answer => exact absurd hop id

theorem of_reachable (hreach : (journalSystem sha256).ReachableWhile NoDeletion state) :
    state.Complete sha256 :=
  hreach.invariant (fun _ hinit => .init hinit)
    (fun _ _ _ hcomplete hop hstep => (hcomplete.step hop hstep).1)

/-- The chain of a state of a run is the beginning of the chain of every later one. -/
theorem chain_grows (hcomplete : state.Complete sha256)
    (hsteps : (journalSystem sha256).StepsWhile NoDeletion state next) :
    state.store.chain <+: next.store.chain := by
  let extended : JournalState → JournalState → Prop := fun before after =>
    before.store.chain <+: after.store.chain
  have hrefl : ∀ before, extended before before := fun _ => List.prefix_refl _
  have htrans : ∀ first middle last, extended first middle → extended middle last →
      extended first last := fun _ _ _ => List.IsPrefix.trans
  refine (hsteps.relation hrefl htrans ?_ hcomplete).2
  intro before op after hbefore hop hstep
  exact hbefore.step hop hstep

end JournalState.Complete

end IsmsPortal
