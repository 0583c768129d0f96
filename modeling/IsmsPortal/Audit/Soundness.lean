import IsmsPortal.Audit.Journal

/-! # Soundness of the chain over whole runs

As long as every event becomes visible before the settling time is over, and
nothing is deleted, the chain is complete and in order whatever the batches
are: positions are consecutive, rows follow one another in time, hashes and
seals match, and the verifier accepts. Rows are never chained twice: the chain
of a state is the beginning of the chain of every later one.
-/

namespace IsmsPortal

open Foundation

/-- Transactions of a run without deletion in which every event becomes visible
less than the settling time after it occurred. -/
def Prompt (state : JournalState) : JournalOp → Prop
  | .insert event => state.clock < event.occurredAt.ms + settleMs
  | .maintain _ _ _ => False
  | _ => True

/-- Time along the chain, in runs without deletion and without late events. -/
structure JournalState.Ordered (state : JournalState) : Prop where
  chronological : state.store.chain.Pairwise chronological
  pending : ∀ event ∈ state.store.chain, ∀ other ∈ state.store.events,
    other.chainIndex = none → IsmsPortal.chronological event other
  past : ∀ event ∈ state.store.chain, event.occurredAt.ms < state.clock - settleMs

variable {sha256 : String → HexDigest} {state next : JournalState}

theorem Prompt.noDeletion {op : JournalOp} (hprompt : Prompt state op) : NoDeletion state op := by
  cases op with
  | maintain days now answer => exact hprompt
  | _ => trivial

theorem chronological_of_lt {left right : AuditEvent}
    (hlt : left.occurredAt.ms < right.occurredAt.ms) : chronological left right :=
  .inl hlt

namespace JournalState.Ordered

theorem init (hinit : (journalSystem sha256).init state) : state.Ordered := by
  have hchain : state.store.chain = [] := by
    rw [hinit.1]
    rfl
  refine ⟨?_, ?_, ?_⟩
  · rw [hchain]
    exact .nil
  · rw [hchain]
    intro event hevent
    exact absurd hevent List.not_mem_nil
  · rw [hchain]
    intro event hevent
    exact absurd hevent List.not_mem_nil

theorem pass {time : Int} (hordered : state.Ordered)
    (hstep : state.Step sha256 (.pass time) next) : next.Ordered := by
  obtain ⟨hclock, rfl⟩ := hstep
  refine ⟨hordered.chronological, hordered.pending, ?_⟩
  intro event hevent
  exact (hordered.past event hevent).trans_le (Int.sub_le_sub_right hclock _)

/-- An event that becomes visible in time occurred after every chained one. -/
theorem insert {event : AuditEvent} (hordered : state.Ordered)
    (hprompt : Prompt state (.insert event))
    (hstep : state.Step sha256 (.insert event) next) : next.Ordered := by
  obtain ⟨_, hnone, _, _, store, hcreate, rfl⟩ := hstep
  have hchain := AuditStore.chain_createEvent hcreate hnone
  obtain ⟨hevents, _⟩ := AuditStore.withEvents_eq_some.mp hcreate
  refine ⟨?_, ?_, ?_⟩
  · simp only [hchain]
    exact hordered.chronological
  · simp only [hchain, hevents]
    intro chained hchained other hother hunchained
    rcases List.mem_append.mp hother with hold | hnew
    · exact hordered.pending chained hchained other hold hunchained
    · rw [List.mem_singleton] at hnew
      apply chronological_of_lt
      have hpast := hordered.past chained hchained
      simp only [Prompt] at hprompt
      rw [hnew]
      omega
  · simp only [hchain]
    exact hordered.past

theorem sealing {intervalMinutes : EnvNumber} {now : Int} {createdAt : Date}
    (hordered : state.Ordered)
    (hstep : state.Step sha256 (.sealing intervalMinutes now createdAt) next) :
    next.Ordered := by
  obtain ⟨_, _, rfl⟩ := hstep
  rcases sealAuditChain_cases intervalMinutes state.store now createdAt with
    hsame | ⟨created, last, hsealed, _⟩
  · rw [hsame]
    exact ⟨hordered.chronological, hordered.pending, hordered.past⟩
  · rw [hsealed]
    exact ⟨hordered.chronological, hordered.pending, hordered.past⟩

/-- A chaining tick appends the oldest settled events, so what it leaves
unchained comes later. -/
theorem chain {batch : Nat} {now : Int} (hordered : state.Ordered)
    (hstep : state.Step sha256 (.chain batch now) next) : next.Ordered := by
  obtain ⟨hnow, store, report, hchainStep, rfl⟩ := hstep
  obtain ⟨store', report', events, others, hrun, _, hevents, hperm, horder, hrows, hchain⟩ :=
    chainAuditEvents_spec batch state.store now
  obtain ⟨rfl, rfl⟩ := Prod.mk.inj (Option.some.inj (hchainStep.symm.trans hrun))
  have hsettled : ∀ event ∈ events, event.chainIndex = none ∧
      event.occurredAt.ms < now - settleMs := by
    intro event hevent
    have hselected := (Query.mem_findMany (hevents ▸ hevent)).2
    simpa [settled] using hselected
  have hmem : ∀ event ∈ events, event ∈ state.store.events := by
    intro event hevent
    exact hperm.mem_iff.mpr (List.mem_append_left _ hevent)
  refine ⟨?_, ?_, ?_⟩
  · simp only [hchain]
    refine List.pairwise_append.mpr ⟨hordered.chronological, ?_, ?_⟩
    · have hsorted : events.Pairwise IsmsPortal.chronological := by
        rw [hevents]
        exact (List.pairwise_insertionSort _ _).sublist (List.take_sublist _ _)
      -- Writing the chain columns changes neither time nor id.
      let moment : AuditEvent → Date × String := fun event => (event.occurredAt, event.id)
      let earlier : Date × String → Date × String → Prop := fun left right =>
        left.1.ms < right.1.ms ∨ left.1.ms = right.1.ms ∧ left.2 ≤ right.2
      have hmoments : (events.map moment).Pairwise earlier := List.pairwise_map.mpr hsorted
      have hkept : ((auditView sha256).extend state.store.lastIndex state.store.lastHash
          events).map moment = events.map moment :=
        ChainView.map_extend (auditView sha256) (fun _ _ _ _ => rfl) _ _ _
      rw [← hkept, List.pairwise_map] at hmoments
      exact hmoments
    · intro chained hchained written hwritten
      obtain ⟨event, hevent, _, _, _, rfl⟩ := ChainView.mem_extend hwritten
      exact hordered.pending chained hchained event (hmem event hevent) (hsettled event hevent).1
  · intro chained hchained other hother hunchained
    simp only [hchain] at hchained
    -- The unchained rows left are rows the tick did not take.
    have hleft : other ∈ others := by
      rcases List.mem_append.mp (hrows.mem_iff.mp hother) with hwritten | hleft
      · obtain ⟨event, _, _, _, _, rfl⟩ := ChainView.mem_extend hwritten
        exact absurd hunchained (Option.some_ne_none _)
      · exact hleft
    rcases List.mem_append.mp hchained with hold | hwritten
    · exact hordered.pending chained hold other
        (hperm.mem_iff.mpr (List.mem_append_right _ hleft)) hunchained
    · obtain ⟨event, hevent, _, _, _, rfl⟩ := ChainView.mem_extend hwritten
      by_cases hother : settled now other = true
      · exact horder event hevent other hleft hother
      · apply chronological_of_lt
        have hnotSettled : now - settleMs ≤ other.occurredAt.ms := by
          simpa [settled, hunchained] using hother
        exact (hsettled event hevent).2.trans_le hnotSettled
  · intro chained hchained
    simp only [hchain] at hchained
    rcases List.mem_append.mp hchained with hold | hwritten
    · exact hordered.past chained hold
    · obtain ⟨event, hevent, _, _, _, rfl⟩ := ChainView.mem_extend hwritten
      exact (hsettled event hevent).2.trans_le (Int.sub_le_sub_right hnow _)

/-- **One transaction preserves order.** -/
theorem step {op : JournalOp} (hordered : state.Ordered) (hprompt : Prompt state op)
    (hstep : state.Step sha256 op next) : next.Ordered := by
  cases op with
  | pass time => exact hordered.pass hstep
  | insert event => exact hordered.insert hprompt hstep
  | chain batch now => exact hordered.chain hstep
  | sealing intervalMinutes now createdAt => exact hordered.sealing hstep
  | maintain days now answer => exact absurd hprompt id

theorem of_reachable (hreach : (journalSystem sha256).ReachableWhile Prompt state) :
    state.Ordered :=
  hreach.invariant (fun _ hinit => .init hinit)
    (fun _ _ _ hordered hprompt hstep => hordered.step hprompt hstep)

end JournalState.Ordered

/-- In a linked list every hash is the next row's previous hash. -/
theorem links_of_linked {start : Int} {previous : String} {events : List AuditEvent}
    (hlinked : (auditView sha256).Linked start previous events) :
    (∀ event, events.head? = some event → event.prevHash = some previous) ∧
      events.IsChain fun before after => after.prevHash = before.chainHash := by
  induction events generalizing start previous with
  | nil => exact ⟨fun event hevent => absurd hevent (by simp), List.IsChain.nil⟩
  | cons event rest ih =>
      obtain ⟨hhead, htail⟩ := ih hlinked.2.2.2
      refine ⟨fun first hfirst => Option.some.inj hfirst ▸ hlinked.2.1, ?_⟩
      cases rest with
      | nil => exact .singleton event
      | cons second rest =>
          exact .cons_cons ((hhead second rfl).trans hlinked.2.2.1.symm) htail

theorem indices_of_linked {start : Int} {previous : String} {events : List AuditEvent}
    (hlinked : (auditView sha256).Linked start previous events) :
    events.map AuditEvent.chainIndex =
      (List.range events.length).map fun i : Nat => some (start + i + 1) := by
  apply List.ext_getElem
  · simp
  · intro i hi _
    rw [List.getElem_map, List.getElem_map, List.getElem_range]
    exact hlinked.index_getElem i (by simpa using hi)

/-- **Soundness of the audit chain.** In every run without deletion and without
late events, the assigned positions are `1, …, n`, rows are chained in order of
time and id, every hash continues the one before it, seals advance and name
rows of the chain, the verifier accepts after reading all `n` rows, and no
chained row ever changes or leaves its place. -/
theorem auditChain_sound (sha256 : String → HexDigest) (state : JournalState)
    (hreach : (journalSystem sha256).ReachableWhile Prompt state) :
    state.store.chain.map AuditEvent.chainIndex =
        (List.range state.store.chain.length).map (fun i : Nat => some ((i : Int) + 1)) ∧
      (state.store.chain.map AuditEvent.id).Nodup ∧
      state.store.chain.Pairwise chronological ∧
      (∀ event, state.store.chain.head? = some event → event.prevHash = some genesisHash) ∧
      state.store.chain.IsChain (fun before after => after.prevHash = before.chainHash) ∧
      state.store.seals.Pairwise
        (fun left right => left.lastChainIndex < right.lastChainIndex) ∧
      (∀ entry ∈ state.store.seals, ∃ event ∈ state.store.chain,
        event.chainIndex = some entry.lastChainIndex ∧
          event.chainHash = some entry.chainHash) ∧
      (∀ configured, (verifyAuditChain sha256 state.store configured).valid = true ∧
        (verifyAuditChain sha256 state.store configured).checked = state.store.chain.length) ∧
      ∀ later, (journalSystem sha256).StepsWhile Prompt state later →
        state.store.chain <+: later.store.chain := by
  have hordered := JournalState.Ordered.of_reachable hreach
  have hcomplete := JournalState.Complete.of_reachable
    (hreach.mono fun _ _ hprompt => hprompt.noDeletion)
  obtain ⟨hhead, hlinks⟩ := links_of_linked hcomplete.linked
  refine ⟨?_, state.store.chain_ids_nodup, hordered.chronological, hhead, hlinks,
    hcomplete.sound.ordered, ?_, hcomplete.sound.valid, ?_⟩
  · simpa using indices_of_linked hcomplete.linked
  · rw [hcomplete.complete]
    exact hcomplete.sound.sealed
  · intro later hsteps
    exact hcomplete.chain_grows (hsteps.mono fun _ _ hprompt => hprompt.noDeletion)

/-! ## A sample run -/

def login (id : String) (occurredAt : Date) (correlationId : String) (details : Json) :
    AuditEvent where
  id := id
  occurredAt := occurredAt
  identity := "alice"
  ipAddress := "10.0.0.1"
  action := "LOGIN"
  resource := "session"
  result := "SUCCESS"
  correlationId := correlationId
  details := details
  chainIndex := none
  prevHash := none
  chainHash := none

def firstLogin : AuditEvent :=
  login "3f8a2c10-0000-4000-8000-000000000001" ⟨1700000000000, by decide⟩ "r1"
    (.obj [("mfa", .bool true), ("method", .str "totp")])

def secondLogin : AuditEvent :=
  login "3f8a2c10-0000-4000-8000-000000000002" ⟨1700000060000, by decide⟩ "r2" .null

/-- Ten minutes after the second log-in. -/
def afterLogins : Date := ⟨1700000660000, by decide⟩

def thirdLogin : AuditEvent :=
  login "3f8a2c10-0000-4000-8000-000000000003" afterLogins "r3" .null

theorem exists_chained_logins (sha256 : String → HexDigest) :
    ∃ state, (journalSystem sha256).ReachableWhile Prompt state ∧
      state.clock = afterLogins.ms ∧
      state.store.chain = (auditView sha256).extend 0 genesisHash [firstLogin, secondLogin] ∧
      state.store.seals = [] := by
  have hstart : (journalSystem sha256).ReachableWhile Prompt ⟨.empty, 1700000060000, []⟩ :=
    .init ⟨rfl, rfl⟩
  have hfirst := hstart.next (.insert firstLogin) _ (show (_ : Int) < _ by decide)
    ⟨by decide, rfl, rfl, rfl, _, rfl, rfl⟩
  have hsecond := hfirst.next (.insert secondLogin) _ (show (_ : Int) < _ by decide)
    ⟨by decide, rfl, rfl, rfl, _, rfl, rfl⟩
  have hpass := hsecond.next (.pass afterLogins.ms) _ trivial ⟨by decide, rfl⟩
  have hchain := hpass.next (.chain batchSize afterLogins.ms) _ trivial
    ⟨by decide, _, _, rfl, rfl⟩
  exact ⟨_, hchain, rfl, rfl, rfl⟩

theorem exists_sealed_logins (sha256 : String → HexDigest) :
    ∃ state, (journalSystem sha256).ReachableWhile Prompt state ∧
      state.store.chain = (auditView sha256).extend 0 genesisHash [firstLogin, secondLogin] ∧
      state.store.seals.map AuditSeal.lastChainIndex = [2] := by
  obtain ⟨state, hreach, hclock, hchain, hseals⟩ := exists_chained_logins sha256
  have hstep := hreach.next (.sealing .nan afterLogins.ms afterLogins) _ trivial
    ⟨hclock.ge, fun entry hentry => absurd (hseals ▸ hentry) List.not_mem_nil, rfl⟩
  have hlast : state.store.chain.getLast? = some (secondLogin.withChain 2
      (auditEventHash sha256 genesisHash firstLogin)
      (auditEventHash sha256 (auditEventHash sha256 genesisHash firstLogin) secondLogin)) := by
    rw [hchain]
    rfl
  have hsealed := sealAuditChain_first hseals hlast rfl (by decide) rfl
    (auditEventHash_isHexDigest sha256 _ _).ne_empty .nan afterLogins.ms afterLogins
  refine ⟨_, hstep, ?_⟩
  rw [hsealed]
  refine ⟨hchain, ?_⟩
  simp [AuditStore.createSeal, hseals]

/-- SHA-256 on the texts hashed for the log-ins. -/
def sampleSha256 (text : String) : HexDigest :=
  if text = "0000000000000000000000000000000000000000000000000000000000000000" ++
      "[\"3f8a2c10-0000-4000-8000-000000000001\",\"2023-11-14T22:13:20.000Z\"," ++
      "\"alice\",\"10.0.0.1\",\"LOGIN\",\"session\",\"SUCCESS\",\"r1\"," ++
      "\x7b\"method\":\"totp\",\"mfa\":true\x7d]" then
    ⟨"7990bbfa7df84b03058c5110825b419a1ce35a08ddd3b40010da319a5182a4c4", by decide⟩
  else if text = "7990bbfa7df84b03058c5110825b419a1ce35a08ddd3b40010da319a5182a4c4" ++
      "[\"3f8a2c10-0000-4000-8000-000000000002\",\"2023-11-14T22:14:20.000Z\"," ++
      "\"alice\",\"10.0.0.1\",\"LOGIN\",\"session\",\"SUCCESS\",\"r2\",null]" then
    ⟨"130d44b216083d889d129f95dc982b1842b720d56444f902031b9b964a8675b7", by decide⟩
  else if text = "130d44b216083d889d129f95dc982b1842b720d56444f902031b9b964a8675b7" ++
      "[\"3f8a2c10-0000-4000-8000-000000000003\",\"2023-11-14T22:24:20.000Z\"," ++
      "\"alice\",\"10.0.0.1\",\"LOGIN\",\"session\",\"SUCCESS\",\"r3\",null]" then
    ⟨"6bd2b9ca533b87a4d075c32f4696c1510916e272703b20ff64568ef8de1cd145", by decide⟩
  else ⟨genesisHash, genesisHash_isHexDigest⟩

/-- A run with two chained and sealed events. -/
theorem auditChain_sound_logins :
    ∃ state, (journalSystem sampleSha256).ReachableWhile Prompt state ∧
      state.store.chain.length = 2 ∧ state.store.seals.length = 1 ∧
      (verifyAuditChain sampleSha256 state.store false).valid = true ∧
      (verifyAuditChain sampleSha256 state.store false).checked = 2 := by
  obtain ⟨state, hreach, hchain, hseals⟩ := exists_sealed_logins sampleSha256
  obtain ⟨_, _, _, _, _, _, _, hverify, _⟩ := auditChain_sound sampleSha256 state hreach
  have hlength : state.store.chain.length = 2 := by
    rw [hchain, ChainView.length_extend]
    rfl
  refine ⟨state, hreach, hlength, ?_, (hverify false).1, (hverify false).2.trans hlength⟩
  simpa using congrArg List.length hseals

end IsmsPortal
