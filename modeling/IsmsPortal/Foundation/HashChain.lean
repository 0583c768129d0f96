import IsmsPortal.Foundation.Query

/-! # Hash chains over records

A chained record carries its position, the hash of its predecessor and its own
hash. The digest of a record reads its content only, so writing the chain
fields does not change what is hashed. A chain commits to its whole history:
where the digest separates the records that were hashed, two chains of one
length with one final hash agree record by record, and start from one hash.
-/

namespace Foundation

universe u v

/-- Chain fields of a record type, with the digest of its content. -/
structure ChainView (ε : Type u) (H : Type v) where
  index : ε → Option Int
  prevHash : ε → Option H
  chainHash : ε → Option H
  digest : H → ε → H
  write : ε → Int → H → H → ε
  index_write : ∀ entry position previous hash,
    index (write entry position previous hash) = some position
  prevHash_write : ∀ entry position previous hash,
    prevHash (write entry position previous hash) = some previous
  chainHash_write : ∀ entry position previous hash,
    chainHash (write entry position previous hash) = some hash
  digest_write : ∀ entry position previous hash seed,
    digest seed (write entry position previous hash) = digest seed entry

namespace ChainView

variable {ε : Type u} {H : Type v} (view : ChainView ε H)

/-- The records continue a chain of `start` records whose last hash is `previous`. -/
def Linked : Int → H → List ε → Prop
  | _, _, [] => True
  | start, previous, entry :: rest =>
      view.index entry = some (start + 1) ∧ view.prevHash entry = some previous ∧
        view.chainHash entry = some (view.digest previous entry) ∧
        Linked (start + 1) (view.digest previous entry) rest

/-- Hash reached after the records, starting from `previous`. -/
def endHash : H → List ε → H
  | previous, [] => previous
  | previous, entry :: rest => endHash (view.digest previous entry) rest

/-- Write the chain fields of new records. -/
def extend : Int → H → List ε → List ε
  | _, _, [] => []
  | start, previous, entry :: rest =>
      view.write entry (start + 1) previous (view.digest previous entry) ::
        extend (start + 1) (view.digest previous entry) rest

variable {view}

@[simp] theorem length_extend (start : Int) (previous : H) (entries : List ε) :
    (view.extend start previous entries).length = entries.length := by
  induction entries generalizing start previous with
  | nil => rfl
  | cons entry rest ih => simp [extend, ih]

variable (view) in
/-- What writing the chain fields keeps, extending keeps. -/
theorem map_extend {γ : Type*} {content : ε → γ}
    (hcontent : ∀ entry position previous hash,
      content (view.write entry position previous hash) = content entry)
    (start : Int) (previous : H) (entries : List ε) :
    (view.extend start previous entries).map content = entries.map content := by
  induction entries generalizing start previous with
  | nil => rfl
  | cons entry rest ih => rw [extend, List.map_cons, List.map_cons, hcontent, ih]

theorem mem_extend {start : Int} {previous : H} {entries : List ε} {written : ε}
    (hwritten : written ∈ view.extend start previous entries) :
    ∃ entry ∈ entries, ∃ position seed hash, written = view.write entry position seed hash := by
  induction entries generalizing start previous with
  | nil => exact absurd hwritten List.not_mem_nil
  | cons entry rest ih =>
      rcases List.mem_cons.mp hwritten with rfl | htail
      · exact ⟨entry, List.mem_cons_self, _, _, _, rfl⟩
      · obtain ⟨original, hmem, hwrite⟩ := ih htail
        exact ⟨original, List.mem_cons_of_mem _ hmem, hwrite⟩

theorem linked_extend (start : Int) (previous : H) (entries : List ε) :
    view.Linked start previous (view.extend start previous entries) := by
  induction entries generalizing start previous with
  | nil => trivial
  | cons entry rest ih =>
      refine ⟨view.index_write .., view.prevHash_write .., ?_, ?_⟩
      · rw [view.chainHash_write, view.digest_write]
      · rw [view.digest_write]
        exact ih _ _

theorem linked_append {start : Int} {previous : H} {front back : List ε} :
    view.Linked start previous (front ++ back) ↔ view.Linked start previous front ∧
      view.Linked (start + front.length) (view.endHash previous front) back := by
  induction front generalizing start previous with
  | nil => simp [Linked, endHash]
  | cons entry rest ih =>
      simp only [List.cons_append, Linked, endHash, List.length_cons, ih, Nat.cast_add,
        Nat.cast_one, and_assoc]
      rw [show start + 1 + (rest.length : Int) = start + (rest.length + 1) by omega]

theorem endHash_append (previous : H) (front back : List ε) :
    view.endHash previous (front ++ back) =
      view.endHash (view.endHash previous front) back := by
  induction front generalizing previous with
  | nil => rfl
  | cons entry rest ih => exact ih _

namespace Linked

variable {start : Int} {previous : H} {entries : List ε}

/-- Positions follow one another. -/
theorem index_getElem (hlinked : view.Linked start previous entries) (i : Nat)
    (hi : i < entries.length) : view.index entries[i] = some (start + i + 1) := by
  induction entries generalizing start previous i with
  | nil => simp at hi
  | cons entry rest ih =>
      cases i with
      | zero => simpa using hlinked.1
      | succ i =>
          rw [List.getElem_cons_succ, ih hlinked.2.2.2 i (by simpa using hi)]
          simp only [Nat.cast_add, Nat.cast_one, Option.some.injEq]
          omega

theorem mem_index (hlinked : view.Linked start previous entries) {entry : ε}
    (hentry : entry ∈ entries) :
    ∃ position, view.index entry = some position ∧ start < position ∧
      position ≤ start + entries.length := by
  obtain ⟨i, hi, rfl⟩ := List.getElem_of_mem hentry
  exact ⟨_, hlinked.index_getElem i hi, by omega, by omega⟩

/-- The last record carries the last position and the final hash. -/
theorem getLast (hlinked : view.Linked start previous entries) {entry : ε}
    (hentry : entries.getLast? = some entry) :
    view.index entry = some (start + entries.length) ∧
      view.chainHash entry = some (view.endHash previous entries) := by
  obtain ⟨front, rfl⟩ := List.getLast?_eq_some_iff.mp hentry
  obtain ⟨_, hindex, _, hhash, _⟩ := linked_append.mp hlinked
  refine ⟨?_, ?_⟩
  · rw [hindex, List.length_append, List.length_singleton, Nat.cast_add, Nat.cast_one]
    congr 1
    omega
  · rw [hhash, endHash_append]
    rfl

/-- **Commitment.** Equal final hashes force equal starting hashes and related
records at every position. -/
theorem binding {related : ε → ε → Prop} {previous' : H} {entries' : List ε}
    (hseparates : ∀ entry ∈ entries, ∀ entry' ∈ entries', ∀ seed seed',
      view.prevHash entry = some seed → view.prevHash entry' = some seed' →
      view.digest seed entry = view.digest seed' entry' → seed = seed' ∧ related entry entry')
    {start' : Int} (hlinked : view.Linked start previous entries)
    (hlinked' : view.Linked start' previous' entries')
    (hlength : entries.length = entries'.length)
    (hend : view.endHash previous entries = view.endHash previous' entries') :
    previous = previous' ∧ List.Forall₂ related entries entries' := by
  induction entries generalizing start start' previous previous' entries' with
  | nil =>
      obtain rfl := List.length_eq_zero_iff.mp hlength.symm
      exact ⟨hend, .nil⟩
  | cons entry rest ih =>
      match entries', hlinked', hlength with
      | entry' :: rest', hlinked', hlength =>
          obtain ⟨hhash, hrest⟩ := ih
            (fun left hleft right hright => hseparates left (List.mem_cons_of_mem _ hleft)
              right (List.mem_cons_of_mem _ hright))
            hlinked.2.2.2 hlinked'.2.2.2 (by simpa using hlength) hend
          obtain ⟨hprevious, hrelated⟩ := hseparates entry List.mem_cons_self
            entry' List.mem_cons_self previous previous' hlinked.2.1 hlinked'.2.1 hhash
          exact ⟨hprevious, .cons hrelated hrest⟩

end Linked

end ChainView

end Foundation
