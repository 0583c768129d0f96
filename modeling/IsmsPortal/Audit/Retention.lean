import IsmsPortal.Audit.Soundness

/-! # Retention and the chain

Retention deletes the thousand oldest expired rows by `occurredAt`; the chain
is ordered by `chainIndex`. The two orders differ for events that were chained
late and for events of one instant at the end of a batch of deletions, and a
chain that lost all its rows starts again at position one. Where the deletion
is certain to take the beginning of the chain, and no tick chains after an
emptied chain, what remains is a suffix of what was ever chained and verifies.
-/

namespace IsmsPortal

open Foundation

/-- Some answer of the database deletes the event: it is expired and fewer than
1000 rows are strictly older. -/
def MayBeDeleted (days : Int) (now : Date) (store : AuditStore) (event : AuditEvent) : Prop :=
  expired days now event = true ∧
    store.events.countP (fun other => other.occurredAt.ms < event.occurredAt.ms) < 1000

/-- Every answer deletes the event: it is expired and at most 1000 rows are not
younger. -/
def SurelyDeleted (days : Int) (now : Date) (store : AuditStore) (event : AuditEvent) : Prop :=
  expired days now event = true ∧
    store.events.countP (fun other => other.occurredAt.ms ≤ event.occurredAt.ms) ≤ 1000

/-- Retention can only take the beginning of the chain, and no tick chains
events after retention took all of it. -/
def KeepsSuffix (state : JournalState) : JournalOp → Prop
  | .maintain days now _ => ∀ count, retentionDays days = some count →
      state.store.chain.Pairwise fun before after =>
        MayBeDeleted count now state.store after → SurelyDeleted count now state.store before
  | .chain _ now => state.store.chain = [] → state.written ≠ [] →
      ∀ event ∈ state.store.events, settled now event = false
  | _ => True

variable {sha256 : String → HexDigest} {state next : JournalState}

/-- The deleted rows are the rows among the first 1000 of the answer. -/
theorem mem_take_of_deleted {store : AuditStore} {answer : List AuditEvent} {event : AuditEvent}
    (hanswer : ∀ row ∈ answer, row ∈ store.events) (hevent : event ∈ store.events)
    (hdeleted : event.id ∈ (answer.take 1000).map AuditEvent.id) :
    event ∈ answer.take 1000 := by
  obtain ⟨row, hrow, hid⟩ := List.mem_map.mp hdeleted
  have hmem := hanswer row (List.mem_of_mem_take hrow)
  rw [← List.inj_on_of_nodup_map store.uniqueId hmem hevent hid]
  exact hrow

/-- Under the condition, a deletion leaves a suffix of the chain. -/
theorem maintainHistory_suffix {days : EnvNumber} {now : Date} {answer : List AuditEvent}
    (hkeeps : KeepsSuffix state (.maintain days now answer))
    (hanswer : RetentionAnswer days now state.store answer) :
    (maintainHistory state.store answer).chain <:+ state.store.chain := by
  unfold maintainHistory
  rw [AuditStore.chain_deleteEvents]
  apply Query.filter_isSuffix
  unfold RetentionAnswer at hanswer
  split at hanswer
  next count hcount =>
    have hrows : ∀ row ∈ answer, row ∈ state.store.events := by
      intro row hrow
      exact (List.mem_filter.mp (hanswer.1.mem_iff.mp hrow)).1
    refine (hkeeps count hcount).imp_of_mem ?_
    intro before after hbefore hafter himplies
    rw [Bool.not_eq_true_eq_eq_false, Bool.not_eq_true_eq_eq_false, decide_eq_false_iff_not,
      decide_eq_false_iff_not]
    refine mt fun hdeleted => ?_
    have hafterMem := (AuditStore.mem_chain.mp hafter).1
    have htake := mem_take_of_deleted hrows hafterMem hdeleted
    have hexpired : expired count now after = true :=
      (List.mem_filter.mp (hanswer.1.mem_iff.mp (List.mem_of_mem_take htake))).2
    -- Every row older than an expired one is expired too.
    have hfew := hanswer.countP_lt_of_mem_take htake (by
      intro other _ hlt
      rw [expired, decide_eq_true_eq] at hexpired ⊢
      exact hlt.trans hexpired)
    obtain ⟨hbeforeExpired, hbeforeFew⟩ := himplies ⟨hexpired, hfew⟩
    exact List.mem_map_of_mem
      (hanswer.mem_take_of_countP_le (AuditStore.mem_chain.mp hbefore).1 hbeforeExpired hbeforeFew)
  next hnone =>
    apply List.pairwise_of_forall
    intro before after _
    simp [hanswer]

theorem JournalState.Sound.maintain {days : EnvNumber} {now : Date} {answer : List AuditEvent}
    (hsound : state.Sound sha256) (hkeeps : KeepsSuffix state (.maintain days now answer))
    (hstep : state.Step sha256 (.maintain days now answer) next) : next.Sound sha256 := by
  obtain ⟨_, hanswer, rfl⟩ := hstep
  exact ⟨hsound.linked, (maintainHistory_suffix hkeeps hanswer).trans hsound.suffix,
    hsound.sealed, hsound.created, hsound.ordered⟩

theorem JournalState.Sound.step {op : JournalOp} (hsound : state.Sound sha256)
    (hkeeps : KeepsSuffix state op) (hstep : (journalSystem sha256).step state op next) :
    next.Sound sha256 := by
  cases op with
  | pass time => exact hsound.pass hstep
  | insert event => exact hsound.insert hstep
  | chain batch now => exact (hsound.chain hkeeps hstep).1
  | sealing intervalMinutes now createdAt => exact hsound.sealing hstep
  | maintain days now answer => exact hsound.maintain hkeeps hstep

/-- **Retention under its condition.** In every run in which retention can only
take the beginning of the chain and an emptied chain is not continued, the
chained rows left are a suffix of the rows ever chained, no position was
assigned twice, and the verifier accepts. -/
theorem retention_keeps_chain (sha256 : String → HexDigest) (state : JournalState)
    (hreach : (journalSystem sha256).ReachableWhile KeepsSuffix state) :
    state.store.chain <:+ state.written ∧
      (state.written.map AuditEvent.chainIndex).Nodup ∧
      ∀ configured, (verifyAuditChain sha256 state.store configured).valid = true := by
  have hsound : state.Sound sha256 := hreach.invariant (fun _ hinit => .init hinit)
    (fun _ _ _ hbefore hkeeps hstep => hbefore.step hkeeps hstep)
  refine ⟨hsound.suffix, ?_, fun configured => (hsound.valid configured).1⟩
  rw [indices_of_linked hsound.linked]
  refine List.nodup_range.map ?_
  intro i j heq
  simpa using heq

/-- One day after the first log-in and half a minute. -/
def dayAfter : Date := ⟨1700086430000, by decide⟩

theorem exists_kept_logins (sha256 : String → HexDigest) :
    ∃ state, (journalSystem sha256).ReachableWhile KeepsSuffix state ∧
      state.clock = dayAfter.ms ∧
      state.written = (auditView sha256).extend 0 genesisHash [firstLogin, secondLogin] ∧
      state.store.chain = state.written ∧ state.store.events = state.written := by
  have hstart : (journalSystem sha256).ReachableWhile KeepsSuffix ⟨.empty, 1700000060000, []⟩ :=
    .init ⟨rfl, rfl⟩
  have hfirst := hstart.next (.insert firstLogin) _ trivial
    ⟨by decide, rfl, rfl, rfl, _, rfl, rfl⟩
  have hsecond := hfirst.next (.insert secondLogin) _ trivial
    ⟨by decide, rfl, rfl, rfl, _, rfl, rfl⟩
  have hpass := hsecond.next (.pass dayAfter.ms) _ trivial ⟨by decide, rfl⟩
  have hchain := hpass.next (.chain batchSize dayAfter.ms) _
    (fun _ hwritten => absurd rfl hwritten) ⟨by decide, _, _, rfl, rfl⟩
  exact ⟨_, hchain, rfl, rfl, rfl, rfl⟩

/-- Retention takes the first of two chained log-ins. -/
theorem exists_retained_login (sha256 : String → HexDigest) :
    ∃ state, (journalSystem sha256).ReachableWhile KeepsSuffix state ∧
      state.written.length = 2 ∧ state.store.chain.length = 1 := by
  obtain ⟨state, hreach, hclock, hwritten, hchain, hevents⟩ := exists_kept_logins sha256
  let first := firstLogin.withChain 1 genesisHash (auditEventHash sha256 genesisHash firstLogin)
  have hcondition : KeepsSuffix state (.maintain (.finite 1) dayAfter [first]) := by
    intro count hcount
    obtain rfl : (1 : Int) = count := Option.some.inj hcount
    rw [hchain, hwritten]
    refine List.Pairwise.cons ?_ (List.pairwise_singleton _ _)
    -- The second log-in is not expired.
    intro after hafter hmay
    rw [List.mem_singleton.mp hafter] at hmay
    exact absurd (show (1700000060000 : Int) < 1700086430000 - 1 * 86400000 from
      of_decide_eq_true hmay.1) (by decide)
  have hanswer : RetentionAnswer (.finite 1) dayAfter state.store [first] := by
    refine ⟨List.Perm.of_eq ?_, List.pairwise_singleton _ _⟩
    rw [hevents, hwritten]
    rfl
  have hdelete := hreach.next (.maintain (.finite 1) dayAfter [first]) _ hcondition
    ⟨hclock.ge, hanswer, rfl⟩
  refine ⟨_, hdelete, ?_, ?_⟩
  · rw [hwritten]
    rfl
  · simp only [maintainHistory, AuditStore.chain_deleteEvents, hchain, hwritten]
    rfl

theorem retention_keeps_chain_logins :
    ∃ state, (journalSystem sampleSha256).ReachableWhile KeepsSuffix state ∧
      state.written.length = 2 ∧ state.store.chain.length = 1 ∧
      (verifyAuditChain sampleSha256 state.store false).valid = true := by
  obtain ⟨state, hreach, hwritten, hchain⟩ := exists_retained_login sampleSha256
  exact ⟨state, hreach, hwritten, hchain,
    (retention_keeps_chain sampleSha256 state hreach).2.2 false⟩

/-- Runs in which retention breaks the chain. A log-in that committed late is
chained after a younger one; retention deletes it and keeps its neighbours, and
the verifier reports missing events. -/
theorem retention_breaks_chain :
    ¬∃ sha256 : String → HexDigest, ∀ state,
      (journalSystem sha256).Reachable state →
      state.store.chain <:+ state.written ∧
        (state.written.map AuditEvent.chainIndex).Nodup ∧
        ∀ configured, (verifyAuditChain sha256 state.store configured).valid = true := by
  rintro ⟨sha256, hclaim⟩
  have hstart : (journalSystem sha256).Reachable ⟨.empty, 1700000060000, []⟩ :=
    .init ⟨rfl, rfl⟩
  have hsecond := hstart.next (.insert secondLogin) _ trivial
    ⟨by decide, rfl, rfl, rfl, _, rfl, rfl⟩
  have hpass := hsecond.next (.pass afterLogins.ms) _ trivial ⟨by decide, rfl⟩
  have hchain := hpass.next (.chain batchSize afterLogins.ms) _ trivial
    ⟨le_refl _, _, _, rfl, rfl⟩
  have hfirst := hchain.next (.insert firstLogin) _ trivial
    ⟨show firstLogin.occurredAt.ms ≤ afterLogins.ms by decide, rfl, rfl, rfl, _, rfl, rfl⟩
  have hchain' := hfirst.next (.chain batchSize afterLogins.ms) _ trivial
    ⟨le_refl _, _, _, rfl, rfl⟩
  have hthird := hchain'.next (.insert thirdLogin) _ trivial
    ⟨le_refl _, rfl, rfl, rfl, _, rfl, rfl⟩
  have hpass' := hthird.next (.pass dayAfter.ms) _ trivial
    ⟨show afterLogins.ms ≤ dayAfter.ms by decide, rfl⟩
  have hchain'' := hpass'.next (.chain batchSize dayAfter.ms) _ trivial
    ⟨le_refl _, _, _, rfl, rfl⟩
  have hdelete := hchain''.next (.maintain (.finite 1) dayAfter [_]) _ trivial
    ⟨le_refl _, ⟨List.Perm.of_eq rfl, List.pairwise_singleton _ _⟩, rfl⟩
  have hvalid := (verify_valid_iff _ false).mp ((hclaim _ hdelete).2.2 false)
  have hgap := eventProblems_some.mp (List.append_eq_nil_iff.mp
    (List.append_eq_nil_iff.mp hvalid.1).2).1
  exact absurd (show (3 : Int) = 1 + 1 from hgap.1) (by decide)

end IsmsPortal
