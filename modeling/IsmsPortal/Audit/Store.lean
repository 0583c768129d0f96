import IsmsPortal.Audit.Stable
import IsmsPortal.Foundation.HashChain
import IsmsPortal.Foundation.IsoDate
import IsmsPortal.Foundation.Table

/-! # The audit journal

Rows of the audit tables and the statements the worker runs on them. The
database enforces the two unique columns of an event, its id and its chain
index: a statement that would break one of them fails, and a store that breaks
one cannot be built. The hash function of the runtime is a parameter; its
hexadecimal digests are 64 characters long.
-/

namespace IsmsPortal

open Foundation

/-- A row of `AuditEvent`. A null column `details` reads as the value `null`. -/
structure AuditEvent where
  id : String
  occurredAt : Date
  identity : String
  ipAddress : String
  action : String
  resource : String
  result : String
  correlationId : String
  details : Json
  chainIndex : Option Int
  prevHash : Option String
  chainHash : Option String

namespace AuditEvent

/-- Write the three chain columns. -/
def withChain (event : AuditEvent) (index : Int) (prevHash chainHash : String) : AuditEvent where
  __ := event
  chainIndex := some index
  prevHash := some prevHash
  chainHash := some chainHash

@[simp] theorem withChain_id (event : AuditEvent) (index : Int) (prevHash chainHash : String) :
    (event.withChain index prevHash chainHash).id = event.id :=
  rfl

end AuditEvent

/-- A row of `AuditSeal`. -/
structure AuditSeal where
  lastChainIndex : Int
  chainHash : String
  eventCount : Int
  token : Option (List UInt8)
  genTime : Option Date
  createdAt : Date

/-- A text of 64 lower-case hexadecimal digits. -/
def IsHexDigest (text : String) : Prop :=
  text.length = 64 ∧ ∀ c ∈ text.toList, c ∈ "0123456789abcdef".toList

-- Not the instance that decides a statement about all characters.
instance : DecidablePred IsHexDigest := fun text =>
  @instDecidableAnd _ _ _ (List.decidableBAll (· ∈ "0123456789abcdef".toList) text.toList)

/-- Hexadecimal SHA-256 digest. -/
abbrev HexDigest : Type := { text : String // IsHexDigest text }

theorem IsHexDigest.ne_empty {text : String} (htext : IsHexDigest text) : text ≠ "" := by
  intro hempty
  rw [IsHexDigest, hempty] at htext
  exact absurd htext.1 (by decide)

/-- `GENESIS_HASH`. -/
def genesisHash : String := String.ofList (List.replicate 64 '0')

theorem genesisHash_isHexDigest : IsHexDigest genesisHash := by
  decide

/-! ## Stores -/

/-- The audit tables, with the unique constraints of the schema. -/
structure AuditStore where
  events : List AuditEvent
  seals : List AuditSeal
  uniqueId : (events.map AuditEvent.id).Nodup
  uniqueIndex : (events.filterMap AuditEvent.chainIndex).Nodup

namespace AuditStore

def empty : AuditStore := ⟨[], [], List.nodup_nil, List.nodup_nil⟩

/-- Replace the event rows; fails when a unique constraint is broken. -/
def withEvents (store : AuditStore) (events : List AuditEvent) : Option AuditStore :=
  if hunique : (events.map AuditEvent.id).Nodup ∧
      (events.filterMap AuditEvent.chainIndex).Nodup then
    some ⟨events, store.seals, hunique.1, hunique.2⟩
  else none

def createEvent (store : AuditStore) (event : AuditEvent) : Option AuditStore :=
  store.withEvents (store.events ++ [event])

/-- `auditEvent.update` with the chain fields as data. -/
def updateEvent (store : AuditStore) (id : String) (index : Int) (prevHash chainHash : String) :
    Option AuditStore :=
  store.withEvents (Table.update AuditEvent.id id
    (fun event => event.withChain index prevHash chainHash) store.events)

/-- `auditEvent.deleteMany` with a condition on the row. Removing rows keeps
both constraints. -/
def deleteEvents (store : AuditStore) (removed : AuditEvent → Bool) : AuditStore where
  events := store.events.filter fun event => !removed event
  seals := store.seals
  uniqueId := (List.filter_sublist.map _).nodup store.uniqueId
  uniqueIndex := (List.filter_sublist.filterMap _).nodup store.uniqueIndex

def createSeal (store : AuditStore) (created : AuditSeal) : AuditStore :=
  { store with seals := store.seals ++ [created] }

/-- The chained rows, in chain order. -/
def chain (store : AuditStore) : List AuditEvent :=
  Query.keyed AuditEvent.chainIndex store.events

theorem withEvents_eq_some {store next : AuditStore} {events : List AuditEvent} :
    store.withEvents events = some next ↔ next.events = events ∧ next.seals = store.seals := by
  unfold withEvents
  split
  next hunique =>
    constructor
    · intro heq
      cases heq
      exact ⟨rfl, rfl⟩
    · intro hnext
      cases next
      cases hnext.1
      cases hnext.2
      rfl
  next hunique =>
    constructor
    · intro heq
      cases heq
    · intro hnext
      exact absurd ⟨hnext.1 ▸ next.uniqueId, hnext.1 ▸ next.uniqueIndex⟩ hunique

theorem mem_chain {store : AuditStore} {event : AuditEvent} :
    event ∈ store.chain ↔ event ∈ store.events ∧ event.chainIndex.isSome = true :=
  Query.mem_keyed

theorem chain_strict (store : AuditStore) :
    Query.StrictlyKeyed AuditEvent.chainIndex store.chain :=
  Query.keyed_strict store.uniqueIndex

theorem chain_ids_nodup (store : AuditStore) : (store.chain.map AuditEvent.id).Nodup := by
  unfold chain
  rw [((Query.keyed_perm store.events).map AuditEvent.id).nodup_iff]
  exact (List.filter_sublist.map _).nodup store.uniqueId

/-- The chain index names one row. -/
theorem eq_of_chainIndex {store : AuditStore} {left right : AuditEvent} {index : Int}
    (hleft : left ∈ store.events) (hright : right ∈ store.events)
    (hindex : left.chainIndex = some index) (hindex' : right.chainIndex = some index) :
    left = right := by
  have hpairs : store.chain.Pairwise fun left right => left.chainIndex ≠ right.chainIndex := by
    apply store.chain_strict.imp
    rintro left right ⟨low, high, hlow, hhigh, hlt⟩
    rw [hlow, hhigh]
    exact fun heq => hlt.ne (Option.some.inj heq)
  have : Std.Symm fun left right : AuditEvent => left.chainIndex ≠ right.chainIndex :=
    ⟨fun _ _ hne => hne.symm⟩
  by_contra hne
  refine hpairs.forall (mem_chain.mpr ⟨hleft, ?_⟩) (mem_chain.mpr ⟨hright, ?_⟩) hne
    (hindex.trans hindex'.symm)
  · rw [hindex]
    rfl
  · rw [hindex']
    rfl

/-- Deleting rows removes them from the chain and keeps its order. -/
theorem chain_deleteEvents (store : AuditStore) (removed : AuditEvent → Bool) :
    (store.deleteEvents removed).chain = store.chain.filter fun event => !removed event := by
  refine (Query.eq_keyed (store.chain_strict.filter _) ?_).symm
  rw [deleteEvents, List.filter_comm]
  exact (Query.keyed_perm store.events).filter _

/-- A new row without chain index leaves the chain as it was. -/
theorem chain_createEvent {store next : AuditStore} {event : AuditEvent}
    (hnext : store.createEvent event = some next) (hnone : event.chainIndex = none) :
    next.chain = store.chain := by
  obtain ⟨hevents, _⟩ := withEvents_eq_some.mp hnext
  unfold chain Query.keyed
  rw [hevents, List.filter_append, List.filter_singleton, hnone]
  simp

end AuditStore

end IsmsPortal
