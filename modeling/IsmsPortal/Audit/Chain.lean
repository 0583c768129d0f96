import IsmsPortal.Audit.Store
import Mathlib.Data.Rat.Defs
import Mathlib.Data.String.Basic
import Mathlib.Algebra.Order.Ring.Unbundled.Rat

/-! # Chaining and sealing the audit journal

The worker appends settled events to a hash chain, a batch per tick, starting
from the last chained row it finds, and seals the end of the chain at
intervals. Each function is one transaction of the scheduler: a statement that
breaks a constraint aborts it.
-/

namespace IsmsPortal

open Foundation

/-- `SETTLE_MS`. -/
def settleMs : Int := 5 * 60000

/-- `BATCH`. -/
def batchSize : Nat := 2000

/-- The values hashed for an event. -/
def AuditEvent.chainedFields (event : AuditEvent) : Json :=
  .arr [.str event.id, .str (String.ofList event.occurredAt.isoText), .str event.identity,
    .str event.ipAddress, .str event.action, .str event.resource, .str event.result,
    .str event.correlationId, event.details]

variable (sha256 : String → HexDigest)

def auditEventHash (previous : String) (event : AuditEvent) : String :=
  (sha256 (previous ++ stable event.chainedFields)).1

theorem auditEventHash_isHexDigest (previous : String) (event : AuditEvent) :
    IsHexDigest (auditEventHash sha256 previous event) :=
  (sha256 _).2

/-- Audit rows as records of a hash chain. -/
def auditView : ChainView AuditEvent String where
  index := AuditEvent.chainIndex
  prevHash := AuditEvent.prevHash
  chainHash := AuditEvent.chainHash
  digest := auditEventHash sha256
  write := AuditEvent.withChain
  index_write _ _ _ _ := rfl
  prevHash_write _ _ _ _ := rfl
  chainHash_write _ _ _ _ := rfl
  digest_write _ _ _ _ _ := rfl

/-! ## Appending settled events -/

/-- `orderBy: [{ occurredAt: "asc" }, { id: "asc" }]`. -/
def chronological (left right : AuditEvent) : Prop :=
  left.occurredAt.ms < right.occurredAt.ms ∨
    left.occurredAt.ms = right.occurredAt.ms ∧ left.id ≤ right.id

instance : DecidableRel chronological := fun left right =>
  inferInstanceAs (Decidable (left.occurredAt.ms < right.occurredAt.ms ∨ _ ∧ _))

instance : Std.Total chronological where
  total left right := by
    unfold chronological
    rcases lt_trichotomy left.occurredAt.ms right.occurredAt.ms with hlt | heq | hgt
    · exact .inl (.inl hlt)
    · rcases le_total left.id right.id with hle | hle
      · exact .inl (.inr ⟨heq, hle⟩)
      · exact .inr (.inr ⟨heq.symm, hle⟩)
    · exact .inr (.inl hgt)

instance : IsTrans AuditEvent chronological where
  trans first second third hfirst hsecond := by
    unfold chronological at hfirst hsecond ⊢
    rcases hfirst with hlt | ⟨heq, hle⟩
    · rcases hsecond with hlt' | ⟨heq', _⟩
      · exact .inl (hlt.trans hlt')
      · exact .inl (heq' ▸ hlt)
    · rcases hsecond with hlt' | ⟨heq', hle'⟩
      · exact .inl (heq ▸ hlt')
      · exact .inr ⟨heq.trans heq', hle.trans hle'⟩

/-- The events a tick at `now` may chain. -/
def settled (now : Int) (event : AuditEvent) : Bool :=
  event.chainIndex.isNone && event.occurredAt.ms < now - settleMs

/-- The last chained row: the greatest non-null `chainIndex`. -/
def AuditStore.lastChained (store : AuditStore) : Option AuditEvent :=
  Query.findFirst (fun event => event.chainIndex.isSome)
    (fun left right => Query.byKey AuditEvent.chainIndex right left) store.events

/-- The loop of a tick: one update per event, the index and the hash carried
from one to the next. -/
def writeChain (store : AuditStore) (index : Int) (previous : String) :
    List AuditEvent → Option (AuditStore × Int × String)
  | [] => some (store, index, previous)
  | event :: rest => do
      let chainHash := auditEventHash sha256 previous event
      let updated ← store.updateEvent event.id (index + 1) previous chainHash
      writeChain updated (index + 1) chainHash rest

/-- What a chaining tick reports. -/
structure ChainReport where
  chained : Nat
  lastIndex : Int
  lastHash : String

/-- Append settled, unchained events to the hash chain. The worker passes
`batchSize`; the results below hold for every batch size. -/
def chainAuditEvents (batch : Nat) (store : AuditStore) (now : Int) :
    Option (AuditStore × ChainReport) := do
  let last := store.lastChained
  let index := (last.bind AuditEvent.chainIndex).getD 0
  let previous := (last.bind AuditEvent.chainHash).getD genesisHash
  let events := Query.findMany (settled now) chronological batch store.events
  let (updated, lastIndex, lastHash) ← writeChain sha256 store index previous events
  return (updated, ⟨events.length, lastIndex, lastHash⟩)

theorem lastChained_eq (store : AuditStore) : store.lastChained = store.chain.getLast? :=
  Query.findFirst_desc store.uniqueIndex

variable {sha256}

/-- One update of the loop puts its row behind every chained one. -/
theorem updateEvent_appends {store : AuditStore} {event : AuditEvent} {others : List AuditEvent}
    {index : Int} (previous hash : String) (hperm : store.events.Perm (event :: others))
    (hnone : event.chainIndex = none)
    (hbelow : ∀ row ∈ store.chain, ∀ position, row.chainIndex = some position →
      position < index) :
    ∃ next : AuditStore, store.updateEvent event.id index previous hash = some next ∧
      next.seals = store.seals ∧
      next.events.Perm (event.withChain index previous hash :: others) ∧
      next.chain = store.chain ++ [event.withChain index previous hash] := by
  set written := event.withChain index previous hash with hwritten
  obtain ⟨others', hrows, hupdated⟩ := Table.update_perm
    (f := fun row => row.withChain index previous hash) store.uniqueId
    (hperm.mem_iff.mpr List.mem_cons_self)
  have hothers : others'.Perm others := (hrows.symm.trans hperm).cons_inv
  replace hupdated := hupdated.trans (hothers.cons _)
  have hindices : (store.events.filterMap AuditEvent.chainIndex).Perm
      (others.filterMap AuditEvent.chainIndex) := by
    have hfilter := hperm.filterMap AuditEvent.chainIndex
    rwa [List.filterMap_cons_none hnone] at hfilter
  have hfresh : index ∉ others.filterMap AuditEvent.chainIndex := by
    intro hmem
    obtain ⟨row, hrow, hindex⟩ := List.mem_filterMap.mp hmem
    have hchained : row ∈ store.chain := AuditStore.mem_chain.mpr
      ⟨hperm.mem_iff.mpr (List.mem_cons_of_mem _ hrow), by rw [hindex]; rfl⟩
    exact absurd (hbelow row hchained index hindex) (lt_irrefl _)
  have huniqueIndex : ((Table.update AuditEvent.id event.id
      (fun row => row.withChain index previous hash) store.events).filterMap
        AuditEvent.chainIndex).Nodup := by
    rw [(hupdated.filterMap _).nodup_iff]
    exact List.nodup_cons.mpr ⟨hfresh, hindices.nodup_iff.mp store.uniqueIndex⟩
  have huniqueId : ((Table.update AuditEvent.id event.id
      (fun row => row.withChain index previous hash) store.events).map AuditEvent.id).Nodup := by
    rw [Table.map_key_update fun row => AuditEvent.withChain_id row index previous hash]
    exact store.uniqueId
  refine ⟨⟨_, store.seals, huniqueId, huniqueIndex⟩, AuditStore.withEvents_eq_some.mpr ⟨rfl, rfl⟩,
    rfl, hupdated, (Query.eq_keyed ?_ ?_).symm⟩
  · rw [Query.StrictlyKeyed, List.pairwise_append]
    refine ⟨store.chain_strict, List.pairwise_singleton _ _, ?_⟩
    intro row hrow other hother
    rw [List.mem_singleton] at hother
    obtain ⟨position, hposition⟩ := Option.isSome_iff_exists.mp (AuditStore.mem_chain.mp hrow).2
    exact ⟨position, index, hposition, hother ▸ rfl, hbelow row hrow position hposition⟩
  · have hfilter := hupdated.filter fun row : AuditEvent => row.chainIndex.isSome
    have hstore := hperm.filter fun row : AuditEvent => row.chainIndex.isSome
    rw [List.filter_cons_of_pos rfl] at hfilter
    rw [List.filter_cons_of_neg (by simp [hnone])] at hstore
    exact (List.perm_append_singleton _ _).trans
      ((((Query.keyed_perm store.events).trans hstore).cons _).trans hfilter.symm)

variable (sha256) in
/-- **The loop extends the chain by its batch.** No update of it fails. -/
theorem writeChain_spec {store : AuditStore} {batch others : List AuditEvent} {index : Int}
    (previous : String) (hperm : store.events.Perm (batch ++ others))
    (hnone : ∀ event ∈ batch, event.chainIndex = none)
    (hbelow : ∀ row ∈ store.chain, ∀ position, row.chainIndex = some position →
      position ≤ index) :
    ∃ next : AuditStore, writeChain sha256 store index previous batch =
        some (next, index + batch.length, (auditView sha256).endHash previous batch) ∧
      next.seals = store.seals ∧
      next.events.Perm ((auditView sha256).extend index previous batch ++ others) ∧
      next.chain = store.chain ++ (auditView sha256).extend index previous batch := by
  -- Each round moves one row from the batch to the written rows.
  induction batch generalizing store index previous others with
  | nil => exact ⟨store, by simp [writeChain, ChainView.endHash], rfl, hperm, by
      simp [ChainView.extend]⟩
  | cons event rest ih =>
      obtain ⟨updated, hupdate, hseals, hevents, hchain⟩ := updateEvent_appends previous
        (auditEventHash sha256 previous event) hperm (hnone event List.mem_cons_self)
        (fun row hrow position hposition => Int.lt_add_one_of_le (hbelow row hrow position hposition))
      set written := event.withChain (index + 1) previous (auditEventHash sha256 previous event)
        with hwritten
      have hrest : updated.events.Perm (rest ++ written :: others) :=
        hevents.trans List.perm_middle.symm
      have hbelow' : ∀ row ∈ updated.chain, ∀ position, row.chainIndex = some position →
          position ≤ index + 1 := by
        intro row hrow position hposition
        rw [hchain, List.mem_append, List.mem_singleton] at hrow
        rcases hrow with hold | rfl
        · exact (hbelow row hold position hposition).trans (by omega)
        · exact (Option.some.inj hposition).ge
      obtain ⟨next, hwrite, hseals', hevents', hchain'⟩ := ih
        (auditEventHash sha256 previous event) hrest
        (fun other hother => hnone other (List.mem_cons_of_mem _ hother)) hbelow'
      refine ⟨next, ?_, hseals'.trans hseals, ?_, ?_⟩
      · rw [writeChain, hupdate, Option.bind_eq_bind, Option.bind_some, hwrite, List.length_cons,
          Nat.cast_add, Nat.cast_one, add_assoc, add_comm (1 : Int)]
        rfl
      · exact hevents'.trans List.perm_middle
      · rw [hchain', hchain, List.append_assoc]
        rfl

/-- Index of the last chained row, or zero. -/
def AuditStore.lastIndex (store : AuditStore) : Int :=
  (store.chain.getLast?.bind AuditEvent.chainIndex).getD 0

/-- Hash of the last chained row, or the genesis hash. -/
def AuditStore.lastHash (store : AuditStore) : String :=
  (store.chain.getLast?.bind AuditEvent.chainHash).getD genesisHash

theorem index_le_lastIndex {store : AuditStore} {row : AuditEvent} {position : Int}
    (hrow : row ∈ store.chain) (hposition : row.chainIndex = some position) :
    position ≤ store.lastIndex := by
  have hstrict := store.chain_strict
  unfold AuditStore.lastIndex
  rcases List.eq_nil_or_concat store.chain with hnil | ⟨front, last, hchain⟩
  · rw [hnil] at hrow
    exact absurd hrow List.not_mem_nil
  · rw [List.concat_eq_append] at hchain
    rw [hchain] at hrow hstrict
    rw [hchain, List.getLast?_append, List.getLast?_singleton, Option.some_or, Option.bind_some]
    rcases List.mem_append.mp hrow with hfront | hlast
    · obtain ⟨low, high, hlow, hhigh, hlt⟩ := (List.pairwise_append.mp hstrict).2.2 row hfront
        last List.mem_cons_self
      rw [hposition, Option.some.injEq] at hlow
      rw [hhigh, Option.getD_some]
      omega
    · rw [List.mem_singleton] at hlast
      rw [← hlast, hposition, Option.getD_some]

/-- A chaining tick never fails. It appends the settled events it selects, in
order of time, and leaves every other row alone. -/
theorem chainAuditEvents_spec (batch : Nat) (store : AuditStore) (now : Int) :
    ∃ (next : AuditStore) (report : ChainReport) (events others : List AuditEvent),
      chainAuditEvents sha256 batch store now = some (next, report) ∧
      next.seals = store.seals ∧
      events = Query.findMany (settled now) chronological batch store.events ∧
      store.events.Perm (events ++ others) ∧
      (∀ event ∈ events, ∀ other ∈ others, settled now other = true →
        chronological event other) ∧
      next.events.Perm
        ((auditView sha256).extend store.lastIndex store.lastHash events ++ others) ∧
      next.chain = store.chain ++
        (auditView sha256).extend store.lastIndex store.lastHash events := by
  obtain ⟨others, hperm, horder⟩ := Query.findMany_split (settled now) chronological batch
    store.events
  set events := Query.findMany (settled now) chronological batch store.events with hevents
  have hnone : ∀ event ∈ events, event.chainIndex = none := by
    intro event hevent
    have hsettled := (Query.mem_findMany hevent).2
    rw [settled, Bool.and_eq_true, Option.isNone_iff_eq_none] at hsettled
    exact hsettled.1
  obtain ⟨next, hwrite, hseals, hrows, hchain⟩ := writeChain_spec sha256
    store.lastHash hperm hnone (fun row hrow position => index_le_lastIndex hrow)
  refine ⟨next, ⟨events.length, store.lastIndex + events.length,
    (auditView sha256).endHash store.lastHash events⟩, events, others, ?_, hseals, rfl, hperm,
    horder, hrows, hchain⟩
  unfold chainAuditEvents
  simp only [lastChained_eq, ← hevents]
  change (writeChain sha256 store store.lastIndex store.lastHash events).bind _ = _
  rw [hwrite]
  rfl

variable (sha256)

/-! ## Sealing -/

/-- The number an environment variable is read as. -/
inductive EnvNumber
  | nan
  | finite (value : ℚ)
  | infinite (negative : Bool)

/-- `elapsed < Math.max(5, minutes) * 60_000`, in milliseconds. A comparison
with `NaN` is false. -/
def EnvNumber.exceeds (minutes : EnvNumber) (elapsed : Int) : Bool :=
  match minutes with
  | .nan => false
  | .finite value => (elapsed : ℚ) < max 5 value * 60000
  | .infinite true => elapsed < 5 * 60000
  | .infinite false => true

/-- The seal row of greatest `createdAt`. -/
def AuditStore.lastSeal (store : AuditStore) : Option AuditSeal :=
  Query.findFirst (fun _ => true)
    (fun left right => right.createdAt.ms ≤ left.createdAt.ms) store.seals

/-- Create a seal row when the interval elapsed and new events were chained. -/
def sealAuditChain (intervalMinutes : EnvNumber) (store : AuditStore) (now : Int)
    (createdAt : Date) : AuditStore × Option AuditSeal :=
  match store.lastChained.bind AuditEvent.chainIndex,
      store.lastChained.bind AuditEvent.chainHash with
  | some index, some hash =>
      -- Zero and the empty text are falsy.
      if index = 0 ∨ hash = "" then (store, none)
      else if store.lastSeal.any fun last => index ≤ last.lastChainIndex then (store, none)
      else if store.lastSeal.any fun last =>
          intervalMinutes.exceeds (now - last.createdAt.ms) then (store, none)
      else
        let created : AuditSeal :=
          { lastChainIndex := index, chainHash := hash
            eventCount := index - (store.lastSeal.map AuditSeal.lastChainIndex).getD 0
            token := none, genTime := none, createdAt := createdAt }
        (store.createSeal created, some created)
  | _, _ => (store, none)

/-- Seals in creation order: the last one created is the newest. -/
theorem lastSeal_eq_getLast {store : AuditStore}
    (hcreated : store.seals.Pairwise fun left right => left.createdAt.ms < right.createdAt.ms) :
    store.lastSeal = store.seals.getLast? := by
  let key : AuditSeal → Option Int := fun entry => some entry.createdAt.ms
  have hstrict : Query.StrictlyKeyed key store.seals := by
    apply hcreated.imp
    intro left right hlt
    exact ⟨_, _, rfl, rfl, hlt⟩
  have hunique : (store.seals.filterMap key).Nodup := by
    rw [show store.seals.filterMap key = store.seals.map fun entry => entry.createdAt.ms from
      congrFun List.filterMap_eq_map _, List.Nodup, List.pairwise_map]
    apply hcreated.imp
    intro left right hlt
    exact hlt.ne
  have hkeyed : store.seals = Query.keyed key store.seals := by
    apply Query.eq_keyed hstrict
    have hall : store.seals.filter (fun entry => (key entry).isSome) = store.seals :=
      List.filter_eq_self.mpr fun _ _ => rfl
    rw [hall]
  calc
    store.lastSeal = (Query.keyed key store.seals).getLast? := Query.findFirst_desc hunique
    _ = store.seals.getLast? := by rw [← hkeyed]

/-- A sealing tick changes nothing, or seals the last chained row, which lies
beyond the newest seal. -/
theorem sealAuditChain_cases (intervalMinutes : EnvNumber) (store : AuditStore) (now : Int)
    (createdAt : Date) :
    sealAuditChain intervalMinutes store now createdAt = (store, none) ∨
      ∃ (created : AuditSeal) (last : AuditEvent),
        sealAuditChain intervalMinutes store now createdAt =
          (store.createSeal created, some created) ∧
        created.createdAt = createdAt ∧ store.chain.getLast? = some last ∧
        last.chainIndex = some created.lastChainIndex ∧
        last.chainHash = some created.chainHash ∧
        ∀ newest, store.lastSeal = some newest →
          newest.lastChainIndex < created.lastChainIndex := by
  unfold sealAuditChain
  split
  next index hash hindex hhash =>
    split
    · exact .inl rfl
    · split
      · exact .inl rfl
      · split
        · exact .inl rfl
        next hnewer _ =>
          rw [lastChained_eq, Option.bind_eq_some_iff] at hindex hhash
          obtain ⟨last, hlast, hlastIndex⟩ := hindex
          obtain ⟨last', hlast', hlastHash⟩ := hhash
          obtain rfl : last = last' := Option.some.inj (hlast.symm.trans hlast')
          refine .inr ⟨_, last, rfl, rfl, hlast, hlastIndex, hlastHash, ?_⟩
          intro newest hnewest
          simpa [hnewest] using hnewer
  · exact .inl rfl

/-- Without an earlier seal, the end of the chain is sealed at once. -/
theorem sealAuditChain_first {store : AuditStore} {last : AuditEvent} {index : Int}
    {hash : String} (hseals : store.seals = []) (hlast : store.chain.getLast? = some last)
    (hindex : last.chainIndex = some index) (hpositive : 0 < index)
    (hhash : last.chainHash = some hash) (hne : hash ≠ "")
    (intervalMinutes : EnvNumber) (now : Int) (createdAt : Date) :
    (sealAuditChain intervalMinutes store now createdAt).1 =
      store.createSeal ⟨index, hash, index, none, none, createdAt⟩ := by
  have hnone : store.lastSeal = none := by
    unfold AuditStore.lastSeal
    rw [hseals]
    rfl
  unfold sealAuditChain
  rw [lastChained_eq, hlast, Option.bind_some, Option.bind_some, hindex, hhash]
  simp [hnone, hpositive.ne', hne]

end IsmsPortal
