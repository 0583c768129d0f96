import IsmsPortal.Audit.Soundness
import Mathlib

/-! # What the verifier detects

Two stores that verify over the same positions and end in the same hash hold
the same events, unless two of the hashed texts collide: an edited, swapped or
substituted row cannot end in a hash that was time-stamped elsewhere. Missing
rows are detected exactly when a row before them and a row after them are left:
a removed end of the chain is not reported, sealed or not, because a seal whose
row is missing is skipped.
-/

namespace IsmsPortal

open Foundation

/-! ## Binding -/

/-- The text hashed for an event. -/
def hashedText (event : AuditEvent) : String :=
  orElse event.prevHash genesisHash ++ stable event.chainedFields

/-- SHA-256 separates the texts hashed for the rows of two stores. -/
def NoCollision (sha256 : String → HexDigest) (left right : AuditStore) : Prop :=
  ∀ event ∈ left.chain, ∀ event' ∈ right.chain,
    sha256 (hashedText event) = sha256 (hashedText event') → hashedText event = hashedText event'

/-- The hash columns of the chained rows hold texts of 64 characters. -/
def WellHashed (store : AuditStore) : Prop :=
  ∀ event ∈ store.chain, ∃ previous hash, event.prevHash = some previous ∧
    event.chainHash = some hash ∧ previous.length = 64 ∧ hash.length = 64

/-- Equal content, details up to the order of object keys. -/
structure AuditEvent.SameContent (left right : AuditEvent) : Prop where
  id : left.id = right.id
  occurredAt : left.occurredAt = right.occurredAt
  identity : left.identity = right.identity
  ipAddress : left.ipAddress = right.ipAddress
  action : left.action = right.action
  resource : left.resource = right.resource
  result : left.result = right.result
  correlationId : left.correlationId = right.correlationId
  details : left.details.Agrees right.details

/-- The canonical text of the hashed values determines the content. -/
theorem sameContent_of_stable_eq {left right : AuditEvent}
    (heq : stable left.chainedFields = stable right.chainedFields) : left.SameContent right := by
  have hagrees := agrees_of_stable_eq heq
  unfold AuditEvent.chainedFields at hagrees
  cases hagrees with
  | arr hitems =>
      simp only [List.forall₂_cons, List.forall₂_nil_left_iff, and_true] at hitems
      obtain ⟨hid, htime, hidentity, haddress, haction, hresource, hresult, hcorrelation,
        hdetails⟩ := hitems
      rw [Json.agrees_str_iff] at hid htime hidentity haddress haction hresource hresult hcorrelation
      exact ⟨hid, Date.isoText_injective (String.ofList_injective htime), hidentity, haddress,
        haction, hresource, hresult, hcorrelation, hdetails⟩

theorem append_inj_of_length {left right tail tail' : String}
    (hlength : left.length = right.length) (heq : left ++ tail = right ++ tail') :
    left = right ∧ tail = tail' := by
  have htext : left.toList ++ tail.toList = right.toList ++ tail'.toList := by
    rw [← String.toList_append, ← String.toList_append, heq]
  obtain ⟨hleft, hright⟩ := List.append_inj htext (by simpa [← String.length_toList] using hlength)
  exact ⟨String.toList_inj.mp hleft, String.toList_inj.mp hright⟩

variable {sha256 : String → HexDigest}

theorem verified_sublist (store : AuditStore) : store.verified.Sublist store.chain :=
  List.filter_sublist

/-- A clean report over the positions `first` to `last` is a hash chain of
that length, and the row at `last` carries its final hash. -/
theorem linked_of_clean {store : AuditStore} {configured : Bool} {first last : Int}
    (hwell : WellHashed store)
    (hclean : (verifyAuditChain sha256 store configured).broken = [])
    (hfirst : (verifyAuditChain sha256 store configured).firstIndex = some (toString first))
    (hlast : (verifyAuditChain sha256 store configured).lastIndex = some (toString last)) :
    ∃ previous : String, (auditView sha256).Linked (first - 1) previous store.verified ∧
      (store.verified.length : Int) = last - first + 1 ∧
      ∃ final ∈ store.events, final.chainIndex = some last ∧
        final.chainHash = some ((auditView sha256).endHash previous store.verified) := by
  rw [verify_broken_eq_nil_iff] at hclean
  simp only [verifyAuditChain, scanChain_eq] at hfirst hlast
  have hchained : ∀ row ∈ store.verified, row ∈ store.chain :=
    fun row hrow => (verified_sublist store).subset hrow
  cases hrows : store.verified with
  | nil => simp [hrows] at hfirst
  | cons head rest =>
      rw [hrows] at hclean hfirst hchained
      obtain ⟨previous, _, hprevious, _, hlength, _⟩ :=
        hwell head (hchained head List.mem_cons_self)
      obtain ⟨position, hposition⟩ := Option.isSome_iff_exists.mp
        (AuditStore.mem_chain.mp (hchained head List.mem_cons_self)).2
      have hhead : position = first := by
        simp only [List.head?_cons, Option.map_some, Option.some.injEq, hposition,
          Option.getD_some] at hfirst
        exact Int.repr_injective hfirst
      rw [hhead, show first = first - 1 + 1 by omega] at hposition
      have hne : previous ≠ "" := by
        rintro rfl
        simp at hlength
      have hlinked := (chainProblems_none_iff hposition hprevious hne (fun other hother =>
        (AuditStore.mem_chain.mp (hchained other (List.mem_cons_of_mem _ hother))).2)).mp hclean
      obtain ⟨final, hfinal⟩ : ∃ final, (head :: rest).getLast? = some final :=
        ⟨_, List.getLast?_eq_getLast_of_ne_nil (List.cons_ne_nil _ _)⟩
      obtain ⟨hfinalIndex, hfinalHash⟩ := hlinked.getLast hfinal
      have hend : first - 1 + ((head :: rest).length : Int) = last := by
        rw [hrows, hfinal] at hlast
        simp only [Option.map_some, Option.some.injEq, remembered,
          show final.chainIndex = _ from hfinalIndex, Option.getD_some] at hlast
        exact Int.repr_injective hlast
      have hmem := hchained final (List.mem_of_getLast? hfinal)
      exact ⟨previous, hlinked, by omega, final, (AuditStore.mem_chain.mp hmem).1,
        hend ▸ hfinalIndex, hfinalHash⟩

/-- Equal digests of two rows come from equal previous hashes and equal content. -/
theorem digest_separates {left right : AuditStore} (hleft : WellHashed left)
    (hright : WellHashed right) (hcollision : NoCollision sha256 left right)
    {event event' : AuditEvent} (hevent : event ∈ left.chain) (hevent' : event' ∈ right.chain)
    {seed seed' : String} (hseed : event.prevHash = some seed)
    (hseed' : event'.prevHash = some seed')
    (hdigest : auditEventHash sha256 seed event = auditEventHash sha256 seed' event') :
    seed = seed' ∧ event.SameContent event' := by
  obtain ⟨previous, _, hprevious, _, hlength, _⟩ := hleft event hevent
  obtain ⟨previous', _, hprevious', _, hlength', _⟩ := hright event' hevent'
  obtain rfl : seed = previous := Option.some.inj (hseed.symm.trans hprevious)
  obtain rfl : seed' = previous' := Option.some.inj (hseed'.symm.trans hprevious')
  have hne : seed ≠ "" := by
    rintro rfl
    simp at hlength
  have hne' : seed' ≠ "" := by
    rintro rfl
    simp at hlength'
  have htext := hcollision event hevent event' hevent'
  simp only [hashedText, hseed, hseed', orElse_of_ne_empty hne, orElse_of_ne_empty hne'] at htext
  obtain ⟨hsame, hstable⟩ := append_inj_of_length (hlength.trans hlength'.symm)
    (htext (Subtype.ext hdigest))
  exact ⟨hsame, sameContent_of_stable_eq hstable⟩

/-- **Binding.** Two stores without broken entries, over the same positions and
with the same last hash, hold events of the same content at every position. -/
theorem auditChain_binding (sha256 : String → HexDigest) (left right : AuditStore)
    (configured configured' : Bool) (first last : Int)
    (hleft : WellHashed left) (hright : WellHashed right)
    (hcollision : NoCollision sha256 left right)
    (hclean : (verifyAuditChain sha256 left configured).broken = [])
    (hclean' : (verifyAuditChain sha256 right configured').broken = [])
    (hfirst : (verifyAuditChain sha256 left configured).firstIndex = some (toString first))
    (hfirst' : (verifyAuditChain sha256 right configured').firstIndex = some (toString first))
    (hlast : (verifyAuditChain sha256 left configured).lastIndex = some (toString last))
    (hlast' : (verifyAuditChain sha256 right configured').lastIndex = some (toString last))
    (hhash : ∀ event ∈ left.events, ∀ event' ∈ right.events, event.chainIndex = some last →
      event'.chainIndex = some last → event.chainHash = event'.chainHash) :
    ∀ index, first ≤ index → index ≤ last →
      ∃ event ∈ left.events, ∃ event' ∈ right.events, event.chainIndex = some index ∧
        event'.chainIndex = some index ∧ event.SameContent event' := by
  obtain ⟨previous, hlinked, hlength, final, hfinal, hfinalIndex, hfinalHash⟩ :=
    linked_of_clean hleft hclean hfirst hlast
  obtain ⟨previous', hlinked', hlength', final', hfinal', hfinalIndex', hfinalHash'⟩ :=
    linked_of_clean hright hclean' hfirst' hlast'
  have hend := hhash final hfinal final' hfinal' hfinalIndex hfinalIndex'
  rw [hfinalHash, hfinalHash', Option.some.injEq] at hend
  have hsame : left.verified.length = right.verified.length := by omega
  have hcontent : List.Forall₂ AuditEvent.SameContent left.verified right.verified := by
    refine (hlinked.binding ?_ hlinked' hsame hend).2
    intro event hevent event' hevent' seed seed'
    exact digest_separates hleft hright hcollision
      ((verified_sublist left).subset hevent) ((verified_sublist right).subset hevent')
  intro index hlow hhigh
  obtain ⟨i, hi⟩ : ∃ i : Nat, (i : Int) = index - first := ⟨(index - first).toNat, by omega⟩
  have hbound : i < left.verified.length := by omega
  have hbound' : i < right.verified.length := by omega
  have hchain := (verified_sublist left).subset (List.getElem_mem hbound)
  have hchain' := (verified_sublist right).subset (List.getElem_mem hbound')
  refine ⟨left.verified[i], (AuditStore.mem_chain.mp hchain).1, right.verified[i],
    (AuditStore.mem_chain.mp hchain').1, ?_, ?_, (List.forall₂_iff_get.mp hcontent).2 i hbound hbound'⟩
  · exact (hlinked.index_getElem i hbound).trans (congrArg some (by omega))
  · exact (hlinked'.index_getElem i hbound').trans (congrArg some (by omega))

/-- The two log-ins as chained, for either order of the keys of the details. -/
def chainedLogins (details : Json) : AuditStore where
  events :=
    [{ firstLogin with
        details := details
        chainIndex := some 1
        prevHash := some genesisHash
        chainHash := some "7990bbfa7df84b03058c5110825b419a1ce35a08ddd3b40010da319a5182a4c4" },
      { secondLogin with
        chainIndex := some 2
        prevHash := some "7990bbfa7df84b03058c5110825b419a1ce35a08ddd3b40010da319a5182a4c4"
        chainHash := some "130d44b216083d889d129f95dc982b1842b720d56444f902031b9b964a8675b7" }]
  seals := []
  uniqueId := show [firstLogin.id, secondLogin.id].Nodup by decide
  uniqueIndex := show ([1, 2] : List Int).Nodup by decide

theorem chainedLogins_wellHashed (details : Json) : WellHashed (chainedLogins details) := by
  intro event hevent
  have hmem : event ∈ (chainedLogins details).events := (AuditStore.mem_chain.mp hevent).1
  simp only [chainedLogins, List.mem_cons, List.not_mem_nil, or_false] at hmem
  rcases hmem with rfl | rfl
  · exact ⟨_, _, rfl, rfl, by decide, by decide⟩
  · exact ⟨_, _, rfl, rfl, by decide, by decide⟩

def keysInOrder : Json := .obj [("method", .str "totp"), ("mfa", .bool true)]

theorem auditChain_binding_logins :
    (verifyAuditChain sampleSha256 (chainedLogins firstLogin.details) false).broken = [] ∧
    (verifyAuditChain sampleSha256 (chainedLogins keysInOrder) false).broken = [] ∧
    ∀ index, (1 : Int) ≤ index → index ≤ 2 →
      ∃ event ∈ (chainedLogins firstLogin.details).events,
        ∃ event' ∈ (chainedLogins keysInOrder).events, event.chainIndex = some index ∧
          event'.chainIndex = some index ∧ event.SameContent event' := by
  have hclean : (verifyAuditChain sampleSha256 (chainedLogins firstLogin.details) false).broken =
      [] := by
    rw [verify_broken_eq_nil_iff]
    decide +kernel
  have hclean' : (verifyAuditChain sampleSha256 (chainedLogins keysInOrder) false).broken = [] := by
    rw [verify_broken_eq_nil_iff]
    decide +kernel
  refine ⟨hclean, hclean', ?_⟩
  refine auditChain_binding sampleSha256 (chainedLogins firstLogin.details)
    (chainedLogins keysInOrder) false false 1 2 (chainedLogins_wellHashed _)
    (chainedLogins_wellHashed _) ?_ hclean hclean' ?_ ?_ ?_ ?_ ?_
  · unfold NoCollision
    decide +kernel
  · simp only [verifyAuditChain, scanChain_eq]
    decide
  · simp only [verifyAuditChain, scanChain_eq]
    decide
  · simp only [verifyAuditChain, scanChain_eq]
    decide
  · simp only [verifyAuditChain, scanChain_eq]
    decide
  · decide

/-! ## Missing rows -/

/-- Remove the chained rows at the given positions. -/
def removePositions (store : AuditStore) (removed : Finset Int) : AuditStore :=
  store.deleteEvents fun event => event.chainIndex.any (· ∈ removed)

variable {state : JournalState}

/-- Removing rows from a complete journal leaves seals that match. -/
theorem verify_removed_iff (hcomplete : state.Complete sha256) (removed : Finset Int)
    (configured : Bool) :
    (verifyAuditChain sha256 (removePositions state.store removed) configured).valid = true ↔
      chainProblems sha256 none (state.store.chain.filter fun event =>
        !event.chainIndex.any (· ∈ removed)) = [] := by
  have hchain : (removePositions state.store removed).chain = state.store.chain.filter fun event =>
      !event.chainIndex.any (· ∈ removed) := AuditStore.chain_deleteEvents _ _
  have hverified : (removePositions state.store removed).verified =
      (removePositions state.store removed).chain := by
    rw [AuditStore.verified, hchain, List.filter_comm]
    congr 1
    exact hcomplete.sound.verified_eq
  have hseals : SealsMatch (removePositions state.store removed) := by
    intro entry hentry event hevent
    exact hcomplete.sound.sealsMatch entry hentry event (List.mem_of_mem_filter hevent)
  rw [verify_valid_iff, hverified, hchain]
  exact ⟨And.left, fun hproblems => ⟨hproblems, hseals⟩⟩

theorem prevHash_isHexDigest {index : Int} {hash : String} {events : List AuditEvent}
    (hlinked : (auditView sha256).Linked index hash events) (hhash : IsHexDigest hash)
    {event : AuditEvent} (hevent : event ∈ events) :
    ∃ previous, event.prevHash = some previous ∧ IsHexDigest previous := by
  induction events generalizing index hash with
  | nil => exact absurd hevent List.not_mem_nil
  | cons head rest ih =>
      rcases List.mem_cons.mp hevent with rfl | htail
      · exact ⟨hash, hlinked.2.1, hhash⟩
      · exact ih hlinked.2.2.2 (auditEventHash_isHexDigest sha256 hash head) htail

/-- The remaining rows form a hash chain exactly when nothing is missing
between two of them. -/
theorem remaining_linked_iff (hcomplete : state.Complete sha256) (keep : AuditEvent → Bool) :
    chainProblems sha256 none (state.store.chain.filter keep) = [] ↔
      ∀ (i j k : Nat) (hij : i < j) (hjk : j < k) (hk : k < state.store.chain.length),
        keep state.store.chain[i] = true → keep state.store.chain[k] = true →
          keep state.store.chain[j] = true := by
  have hlinked := hcomplete.linked
  constructor
  · intro hproblems i j k hij hjk hk hi hkept
    have hfirst : state.store.chain[i] ∈ state.store.chain.filter keep :=
      List.mem_filter.mpr ⟨List.getElem_mem _, hi⟩
    have hlast : state.store.chain[k] ∈ state.store.chain.filter keep :=
      List.mem_filter.mpr ⟨List.getElem_mem _, hkept⟩
    cases hrows : state.store.chain.filter keep with
    | nil => exact absurd (hrows ▸ hfirst) List.not_mem_nil
    | cons head rest =>
        have hmem : ∀ row ∈ head :: rest, row ∈ state.store.chain ∧ keep row = true :=
          fun row hrow => List.mem_filter.mp (hrows ▸ hrow)
        obtain ⟨previous, hprevious, hhex⟩ := prevHash_isHexDigest hlinked
          genesisHash_isHexDigest (hmem head List.mem_cons_self).1
        obtain ⟨position, hposition, _, _⟩ :=
          hlinked.mem_index (hmem head List.mem_cons_self).1
        have hindex : head.chainIndex = some (position - 1 + 1) := by
          rw [Int.sub_add_cancel]
          exact hposition
        rw [hrows] at hproblems hfirst hlast
        have hsegment := (chainProblems_none_iff hindex hprevious hhex.ne_empty
          (fun other hother =>
            (AuditStore.mem_chain.mp (hmem other (List.mem_cons_of_mem _ hother)).1).2)).mp
          hproblems
        -- The position in the middle lies within the segment, so its row is kept.
        obtain ⟨low, hlow, hlowBound, _⟩ := hsegment.mem_index hfirst
        obtain ⟨high, hhigh, _, hhighBound⟩ := hsegment.mem_index hlast
        have hlowIndex := hlow.symm.trans (hlinked.index_getElem i (by omega))
        have hhighIndex := hhigh.symm.trans (hlinked.index_getElem k hk)
        rw [Option.some.injEq] at hlowIndex hhighIndex
        obtain ⟨m, hm⟩ : ∃ m : Nat, (m : Int) = j + 1 - position :=
          ⟨((j : Int) + 1 - position).toNat, by omega⟩
        have hbound : m < (head :: rest).length := by omega
        have hrow := hmem _ (List.getElem_mem hbound)
        have hrowIndex := hsegment.index_getElem m hbound
        have hmiddle := hlinked.index_getElem j (by omega)
        have hsame : state.store.chain[j] = (head :: rest)[m] := by
          refine AuditStore.eq_of_chainIndex (AuditStore.mem_chain.mp (List.getElem_mem _)).1
            (AuditStore.mem_chain.mp hrow.1).1 hmiddle (hrowIndex.trans ?_)
          rw [Option.some.injEq]
          omega
        rw [hsame]
        exact hrow.2
  · intro hkeep
    obtain ⟨front, back, hsplit⟩ := Query.filter_isInfix hkeep
    rw [← hsplit, List.append_assoc, ChainView.linked_append, ChainView.linked_append] at hlinked
    exact chainProblems_of_linked hlinked.2.1
      (endHash_isHexDigest sha256 genesisHash_isHexDigest front).ne_empty

theorem verify_removed_eq_false_iff (hcomplete : state.Complete sha256) (removed : Finset Int)
    (configured : Bool) :
    (verifyAuditChain sha256 (removePositions state.store removed) configured).valid = false ↔
      ∃ before gone after : Int, 1 ≤ before ∧ before < gone ∧ gone < after ∧
        after ≤ state.store.chain.length ∧ before ∉ removed ∧ gone ∈ removed ∧
        after ∉ removed := by
  have hkeep : ∀ (i : Nat) (hi : i < state.store.chain.length),
      (!state.store.chain[i].chainIndex.any (· ∈ removed)) = true ↔ (i : Int) + 1 ∉ removed := by
    intro i hi
    rw [show state.store.chain[i].chainIndex = some (0 + (i : Int) + 1) from
      hcomplete.linked.index_getElem i hi, zero_add]
    simp
  rw [Bool.eq_false_iff, ne_eq, verify_removed_iff hcomplete, remaining_linked_iff hcomplete]
  constructor
  · intro hnot
    push Not at hnot
    obtain ⟨i, j, k, hij, hjk, hk, hi, hkept, hgone⟩ := hnot
    rw [hkeep] at hi hkept
    rw [ne_eq, hkeep, not_not] at hgone
    exact ⟨i + 1, j + 1, k + 1, by omega, by omega, by omega, by omega, hi, hgone, hkept⟩
  · rintro ⟨before, gone, after, hlow, hlt, hlt', hhigh, hbefore, hgone, hafter⟩ hall
    obtain ⟨i, rfl⟩ : ∃ i : Nat, before = i + 1 := ⟨(before - 1).toNat, by omega⟩
    obtain ⟨j, rfl⟩ : ∃ j : Nat, gone = j + 1 := ⟨(gone - 1).toNat, by omega⟩
    obtain ⟨k, rfl⟩ : ∃ k : Nat, after = k + 1 := ⟨(after - 1).toNat, by omega⟩
    have hmiddle := hall i j k (by omega) (by omega) (by omega)
      ((hkeep i (by omega)).mpr hbefore) ((hkeep k (by omega)).mpr hafter)
    exact (hkeep j (by omega)).mp hmiddle hgone

/-- **Which deletions are reported.** In every journal without retention, removing
chained rows makes the verification fail exactly when a removed position lies
between two positions that are left. -/
theorem deletion_reported_iff (sha256 : String → HexDigest) (state : JournalState)
    (hreach : (journalSystem sha256).ReachableWhile NoDeletion state)
    (removed : Finset Int) (configured : Bool) :
    (verifyAuditChain sha256 (removePositions state.store removed) configured).valid = false ↔
      ∃ before gone after : Int, 1 ≤ before ∧ before < gone ∧ gone < after ∧
        after ≤ state.store.chain.length ∧ before ∉ removed ∧ gone ∈ removed ∧
        after ∉ removed :=
  verify_removed_eq_false_iff (.of_reachable hreach) removed configured

theorem exists_three_logins (sha256 : String → HexDigest) :
    ∃ state, (journalSystem sha256).ReachableWhile NoDeletion state ∧
      state.store.chain.length = 3 := by
  have hstart : (journalSystem sha256).ReachableWhile NoDeletion ⟨.empty, afterLogins.ms, []⟩ :=
    .init ⟨rfl, rfl⟩
  have hfirst := hstart.next (.insert firstLogin) _ trivial
    ⟨by decide, rfl, rfl, rfl, _, rfl, rfl⟩
  have hsecond := hfirst.next (.insert secondLogin) _ trivial
    ⟨by decide, rfl, rfl, rfl, _, rfl, rfl⟩
  have hthird := hsecond.next (.insert thirdLogin) _ trivial
    ⟨by decide, rfl, rfl, rfl, _, rfl, rfl⟩
  have hpass := hthird.next (.pass 1700001260000) _ trivial ⟨by decide, rfl⟩
  have hchain := hpass.next (.chain batchSize 1700001260000) _ trivial
    ⟨by decide, _, _, rfl, rfl⟩
  exact ⟨_, hchain, rfl⟩

/-- The second of three rows is missed. -/
theorem deletion_reported_second :
    ∃ state, (journalSystem sampleSha256).ReachableWhile NoDeletion state ∧
      state.store.chain.length = 3 ∧
      (verifyAuditChain sampleSha256 (removePositions state.store {2}) false).valid =
        false := by
  obtain ⟨state, hreach, hlength⟩ := exists_three_logins sampleSha256
  refine ⟨state, hreach, hlength, ?_⟩
  refine (deletion_reported_iff sampleSha256 state hreach {2} false).mpr
    ⟨1, 2, 3, ?_⟩
  rw [hlength]
  decide

/-- The last of two sealed rows is not missed, although the seal names it. -/
theorem sealed_tail_not_reported :
    ¬∃ sha256 : String → HexDigest, ∀ state,
      (journalSystem sha256).ReachableWhile NoDeletion state → ∀ removed : Finset Int,
      removed.Nonempty → removed ⊆ Finset.Icc 1 (state.store.chain.length : Int) →
      (¬∃ k, removed = Finset.Icc 1 k) →
      (∃ newest, state.store.lastSeal = some newest ∧
        ∃ index ∈ removed, index ≤ newest.lastChainIndex) →
      ∀ configured,
        (verifyAuditChain sha256 (removePositions state.store removed) configured).valid =
          false := by
  rintro ⟨sha256, hclaim⟩
  obtain ⟨state, hprompt, hchain, hseals⟩ := exists_sealed_logins sha256
  have hreach := hprompt.mono fun _ _ hop => hop.noDeletion
  have hlength : state.store.chain.length = 2 := by
    rw [hchain, ChainView.length_extend]
    rfl
  obtain ⟨newest, hnewest, hindex⟩ := List.map_eq_singleton_iff.mp hseals
  have hreported := hclaim state hreach {2} (by decide) (by rw [hlength]; decide) ?_ ?_ false
  · obtain ⟨before, gone, after, _, _, hlt, hbound, _, hgone, _⟩ :=
      (verify_removed_eq_false_iff (.of_reachable hreach) {2} false).mp hreported
    rw [Finset.mem_singleton] at hgone
    rw [hlength] at hbound
    omega
  · rintro ⟨k, hk⟩
    have htwo : (2 : Int) ∈ Finset.Icc 1 k := hk ▸ Finset.mem_singleton_self 2
    have hone : (1 : Int) ∈ ( {2} : Finset Int) := by
      rw [hk, Finset.mem_Icc]
      rw [Finset.mem_Icc] at htwo
      omega
    exact absurd hone (by decide)
  · refine ⟨newest, ?_, 2, Finset.mem_singleton_self 2, hindex.ge⟩
    unfold AuditStore.lastSeal
    rw [hnewest]
    rfl

end IsmsPortal
