import IsmsPortal.Editing.Typing
import IsmsPortal.Foundation.Decimal

/-! # References of saved documents

The number of a type is taken by an update of its row, so a transaction that takes one holds
the row to its end, and the numbers of one type never repeat. A reference has one prefix and
one number, as no dash follows that of the number. Two types may have the same prefix, and
then the numbers of both make the same references.
-/

namespace IsmsPortal

open Foundation

/-! ## Texts -/

theorem toList_padNumber (number : Nat) : ∃ zeros,
    (padNumber number).toList = List.replicate zeros '0' ++ Nat.toDigits 10 number := by
  refine ⟨3 - (toString number).length, ?_⟩
  simp only [padNumber, String.toList_append, String.toList_ofList]
  rw [show (toString number).toList = Nat.toDigits 10 number from Nat.toList_repr]

theorem padNumber_injective {number other : Nat} (hpad : padNumber number = padNumber other) :
    number = other := by
  have hvalue : ∀ n, Nat.ofDigitChars 10 (padNumber n).toList 0 = n := by
    intro n
    obtain ⟨zeros, hzeros⟩ := toList_padNumber n
    rw [hzeros, Nat.ofDigitChars_append, Nat.ofDigitChars_replicate_zero, Nat.mul_zero,
      Nat.ofDigitChars_ten_toDigits]
  rw [← hvalue number, hpad, hvalue]

theorem dash_notMem_padNumber (number : Nat) : '-' ∉ (padNumber number).toList := by
  obtain ⟨zeros, hzeros⟩ := toList_padNumber number
  rw [hzeros, List.mem_append, List.mem_replicate, not_or]
  refine ⟨fun hzero => absurd hzero.2 (by decide), fun hdigit => ?_⟩
  exact absurd (Nat.isDigit_of_mem_toDigits (by decide) (by decide) hdigit) (by decide)

/-- A reference has one prefix and one number. -/
theorem reference_injective {text other : String} {number otherNumber : Nat}
    (hsame : text ++ "-" ++ padNumber number = other ++ "-" ++ padNumber otherNumber) :
    text = other ∧ number = otherNumber := by
  have hreverse : ∀ (front : String) (n : Nat), (front ++ "-" ++ padNumber n).toList.reverse =
      (padNumber n).toList.reverse ++ '-' :: front.toList.reverse := by
    intro front n
    simp
  have hdash : ∀ n, '-' ∉ (padNumber n).toList.reverse := by
    intro n hmem
    exact dash_notMem_padNumber n (List.mem_reverse.mp hmem)
  have hlists := congrArg (fun text : String => text.toList.reverse) hsame
  simp only [hreverse] at hlists
  have hsplit := Decimal.split_at (hdash number) text.toList.reverse
  have hsplit' := Decimal.split_at (hdash otherNumber) other.toList.reverse
  rw [hlists] at hsplit
  have hnumber := hsplit.1.symm.trans hsplit'.1
  have htext := hsplit.2.symm.trans hsplit'.2
  rw [List.reverse_inj] at hnumber
  rw [List.cons.injEq, List.reverse_inj] at htext
  exact ⟨String.toList_injective htext.2, padNumber_injective (String.toList_injective hnumber)⟩

/-! ## Numbers -/

section Numbers

variable {isWord : Char → Bool} {choice : TypedChoice} {store after : TypedStore}
variable {process next : TypedProcess} {transaction : SaveTransaction}

/-- The parts of a reference, and the type whose number it has. -/
def Assignment.Formed (assignment : Assignment) : Prop :=
  assignment.reference = assignment.text ++ "-" ++ padNumber assignment.number

/-- Ids of types are unique, and numbers that were given out are below the next one. -/
structure TypesCounted (store : TypedStore) : Prop where
  unique : (store.types.map TypeRow.id).Nodup
  assigned : ∀ assignment ∈ store.assigned, assignment.Formed ∧
    ∃ row ∈ store.types, row.id = assignment.typeId ∧ assignment.number < row.nextNumber

/-- The numbers of a transaction lie between those of the table and its own next ones. -/
structure SaveTransaction.Counted (store : TypedStore) (transaction : SaveTransaction) :
    Prop where
  numbers : ∀ id number, transaction.numbers.lookup id = some number →
    ∃ row ∈ store.types, row.id = id ∧ row.nextNumber ≤ number
  assigned : ∀ assignment ∈ transaction.assigned, assignment.Formed ∧
    ∃ number, transaction.numbers.lookup assignment.typeId = some number ∧
      assignment.number < number ∧
      ∀ row ∈ store.types, row.id = assignment.typeId → row.nextNumber ≤ assignment.number

/-- A type that was looked up has a name. -/
def TypedProcess.Named : TypedProcess → Prop
  | .saveNumber _ metadata _ => JsString.trim ((getField metadata "ged.documentType").getD "") ≠ ""
  | _ => True

def numberOutline : Concurrent.Outline TypedStore TypedProcess where
  invariant := TypesCounted
  assertion _ store process := process.Named ∧
    ∀ transaction, process.transaction = some transaction → transaction.Counted store

theorem saveLocks_sound : saveLocks.Sound (typedProgram isWord) where
  start := by
    intro process hstart
    cases process with
    | save | saveNumber | saveDocument => cases hstart
    | _ => rfl
  advance := by
    intro name choice store process process' after hadvance row hrow
    cases typedAdvance_next hadvance with
    | createType | updateType | updateMetadata | bulkApply => cases hrow
    | untyped | typed | unnumbered => exact .inl hrow
    | @number transaction metadata result type found hgives =>
        rcases List.mem_cons.mp hrow with rfl | hold
        · refine .inr ?_
          simp [saveLocks, hgives]
        · exact .inl hold
    | @written transaction metadata change rest data htodo hselected =>
        simp only [saveLocks, TypedProcess.transaction, Option.elim_some, List.map_append,
          List.mem_append] at hrow
        rcases hrow with htype | hold | hnew
        · exact .inl (List.mem_append_left _ htype)
        · exact .inl (List.mem_append_right _ hold)
        · obtain ⟨selected, hmem, hselects⟩ := List.any_eq_true.mp hselected
          refine .inr ?_
          rw [List.map_singleton, List.mem_singleton] at hnew
          simp only [saveLocks, htodo, List.head?_cons, Option.any_some, List.mem_map,
            List.mem_filter]
          refine ⟨selected, ⟨hmem, hselects⟩, ?_⟩
          simp only [Change.selects, Bool.and_eq_true, decide_eq_true_eq] at hselects
          rw [hnew, hselects.1.1]

theorem TypesCounted.row_unique (hcounted : TypesCounted store) {row other : TypeRow}
    (hrow : row ∈ store.types) (hother : other ∈ store.types) (hid : row.id = other.id) :
    row = other :=
  List.inj_on_of_nodup_map hcounted.unique hrow hother hid

/-- The next number of a transaction is not below the one of the table. -/
theorem le_nextNumber (hcounted : TypesCounted store) (hnumbers : transaction.Counted store)
    {row : TypeRow} (hrow : row ∈ store.types) :
    row.nextNumber ≤ transaction.nextNumber row := by
  unfold SaveTransaction.nextNumber
  cases hlookup : transaction.numbers.lookup row.id with
  | none => exact Nat.le_refl _
  | some number =>
      obtain ⟨found, hfound, hid, hle⟩ := hnumbers.numbers row.id number hlookup
      rw [← hcounted.row_unique hfound hrow hid]
      exact hle

/-- A row of the table after the end of a transaction. -/
theorem mem_commit_types {row : TypeRow} (hrow : row ∈ (store.commit transaction).types) :
    ∃ old ∈ store.types, old.id = row.id ∧ row.nextNumber = transaction.nextNumber old := by
  obtain ⟨old, hold, rfl⟩ := List.mem_map.mp hrow
  exact ⟨old, hold, rfl, rfl⟩

theorem TypesCounted.effect (hcounted : TypesCounted store)
    (hnumbers : ∀ transaction, process.transaction = some transaction → transaction.Counted store)
    (heffect : TypedEffect store process after) : TypesCounted after := by
  cases heffect with
  | same => exact hcounted
  | createType hfresh =>
      refine ⟨Table.nodup_insert hcounted.unique hfresh, fun assignment hassignment => ?_⟩
      obtain ⟨hformed, row, hrow, hid, hlt⟩ := hcounted.assigned assignment hassignment
      exact ⟨hformed, row, List.mem_append_left _ hrow, hid, hlt⟩
  | @updateType _ id f hkeeps =>
      refine ⟨?_, fun assignment hassignment => ?_⟩
      · exact (Table.map_key_update (fun row => (hkeeps row).1) id).symm ▸ hcounted.unique
      · obtain ⟨hformed, row, hrow, hid, hlt⟩ := hcounted.assigned assignment hassignment
        refine ⟨hformed, _, List.mem_map_of_mem hrow, ?_, ?_⟩
        · split
          · exact (hkeeps row).1.trans hid
          · exact hid
        · split
          · rw [(hkeeps row).2]
            exact hlt
          · exact hlt
  | @commit transaction =>
      have hown := hnumbers transaction rfl
      refine ⟨?_, fun assignment hassignment => ?_⟩
      · simp only [TypedStore.commit, List.map_map]
        exact hcounted.unique
      · rcases List.mem_append.mp hassignment with hold | hnew
        · obtain ⟨hformed, row, hrow, hid, hlt⟩ := hcounted.assigned assignment hold
          exact ⟨hformed, _, List.mem_map_of_mem hrow, hid,
            hlt.trans_le (le_nextNumber hcounted hown hrow)⟩
        · obtain ⟨hformed, number, hlookup, hlt, -⟩ := hown.assigned assignment hnew
          obtain ⟨row, hrow, hid, -⟩ := hown.numbers _ _ hlookup
          refine ⟨hformed, _, List.mem_map_of_mem hrow, hid, ?_⟩
          rw [← hid] at hlookup
          simp only [SaveTransaction.nextNumber, hlookup, Option.getD_some]
          exact hlt
  | addDocument | editDocument => exact { hcounted with }

/-- A request goes on with its numbers counted. -/
theorem typedNext_counted (hcounted : TypesCounted store) (hnamed : process.Named)
    (hnumbers : ∀ transaction, process.transaction = some transaction → transaction.Counted store)
    (hnext : TypedNext isWord store process next) : next.Named ∧
      ∀ transaction, next.transaction = some transaction → transaction.Counted store := by
  have hempty : ∀ todo, SaveTransaction.Counted store ⟨todo, [], [], []⟩ := by
    intro todo
    constructor <;> simp
  cases hnext with
  | createType | updateType =>
      refine ⟨trivial, fun _ htransaction => ?_⟩
      cases htransaction
  | updateMetadata | bulkApply =>
      refine ⟨trivial, fun _ htransaction => ?_⟩
      cases htransaction
      exact hempty _
  | untyped | unnumbered =>
      refine ⟨trivial, fun _ htransaction => ?_⟩
      cases htransaction
      exact hnumbers _ rfl
  | @typed transaction change metadata type _ _ htype =>
      refine ⟨?_, fun _ htransaction => ?_⟩
      · intro hslug
        simp only [TypedStore.findType, if_pos hslug] at htype
        cases htype
      · cases htransaction
        exact hnumbers _ rfl
  | @number transaction metadata result type row hgives hrow hid hrange hresult =>
      refine ⟨trivial, fun _ htransaction => ?_⟩
      cases htransaction
      have hown := hnumbers transaction rfl
      have hle := le_nextNumber hcounted hown hrow
      have hlookup : ∀ id,
          (transaction.take type (transaction.nextNumber row) result).numbers.lookup id =
            if id = type.id then some (transaction.nextNumber row + 1)
            else transaction.numbers.lookup id := by
        intro id
        simp only [SaveTransaction.take, List.lookup_cons]
        by_cases hsame : id = type.id
        · rw [beq_iff_eq.mpr hsame, if_pos hsame]
        · rw [beq_false_of_ne hsame, if_neg hsame]
      refine ⟨fun id number hfound => ?_, fun assignment hassignment => ?_⟩
      · rw [hlookup] at hfound
        split at hfound
        · next hsame =>
          cases hfound
          exact ⟨row, hrow, hid.trans hsame.symm, hle.trans (Nat.le_succ _)⟩
        · exact hown.numbers id number hfound
      · rcases List.mem_append.mp hassignment with hold | hnew
        · obtain ⟨hformed, number, hfound, hlt, hbelow⟩ := hown.assigned assignment hold
          refine ⟨hformed, ?_⟩
          by_cases hsame : assignment.typeId = type.id
          · refine ⟨_, (hlookup _).trans (if_pos hsame), ?_, hbelow⟩
            have hnumber : transaction.nextNumber row = number := by
              rw [hsame, ← hid] at hfound
              simp only [SaveTransaction.nextNumber, hfound, Option.getD_some]
            omega
          · exact ⟨number, (hlookup _).trans ((if_neg hsame).trans hfound), hlt, hbelow⟩
        · rw [List.mem_singleton.mp hnew]
          refine ⟨?_, _, (hlookup _).trans (if_pos rfl), Nat.lt_succ_self _, ?_⟩
          · have hset := applyDocumentType_ok hnamed hresult
            rw [if_pos hgives] at hset
            unfold Assignment.Formed
            rw [hset, getField_setField]
            rfl
          · intro other hother hother'
            rw [hcounted.row_unique hother hrow (hother'.trans hid.symm)]
            exact hle
  | @written transaction metadata change rest data =>
      refine ⟨trivial, fun _ htransaction => ?_⟩
      cases htransaction
      exact { hnumbers transaction rfl with }

/-- The end of another request leaves the numbers of a transaction counted, as it holds the
rows of its types. -/
theorem SaveTransaction.Counted.beside (hcounted : TypesCounted store)
    (hown : transaction.Counted store)
    (hheld : ∀ other, process.transaction = some other →
      ∀ entry ∈ transaction.numbers, other.numbers.lookup entry.1 = none)
    (heffect : TypedEffect store process after) : transaction.Counted after := by
  -- Rows of these types keep their next numbers.
  have hsame : ∀ id number, transaction.numbers.lookup id = some number → ∀ row ∈ after.types,
      row.id = id → ∃ old ∈ store.types, old.id = id ∧ row.nextNumber = old.nextNumber := by
    intro id number hlookup row hrow hid
    obtain ⟨found, hfound, hfoundId, -⟩ := hown.numbers id number hlookup
    cases heffect with
    | same | addDocument | editDocument => exact ⟨row, hrow, hid, rfl⟩
    | createType hfresh =>
        rcases List.mem_append.mp hrow with hold | hnew
        · exact ⟨row, hold, hid, rfl⟩
        · rw [List.mem_singleton.mp hnew] at hid
          exact absurd (hfoundId.trans hid.symm) (hfresh found hfound)
    | updateType hkeeps =>
        obtain ⟨old, hold, rfl⟩ := List.mem_map.mp hrow
        split at hid
        · next htarget =>
          rw [if_pos htarget]
          exact ⟨old, hold, (hkeeps old).1.symm.trans hid, (hkeeps old).2⟩
        · next htarget =>
          rw [if_neg htarget]
          exact ⟨old, hold, hid, rfl⟩
    | @commit other =>
        obtain ⟨old, hold, hold', hnumber⟩ := mem_commit_types hrow
        refine ⟨old, hold, hold'.trans hid, hnumber.trans ?_⟩
        obtain ⟨before, after, hentry, -⟩ := List.lookup_eq_some_iff.mp hlookup
        have hnone := hheld other rfl (id, number) (hentry ▸ by simp)
        rw [SaveTransaction.nextNumber, hold', hid, hnone]
        rfl
  have hkept : ∀ row ∈ store.types, ∃ kept ∈ after.types, kept.id = row.id := by
    intro row hrow
    cases heffect with
    | same | addDocument | editDocument => exact ⟨row, hrow, rfl⟩
    | createType => exact ⟨row, List.mem_append_left _ hrow, rfl⟩
    | updateType hkeeps =>
        refine ⟨_, List.mem_map_of_mem hrow, ?_⟩
        split
        · exact (hkeeps row).1
        · rfl
    | commit => exact ⟨_, List.mem_map_of_mem hrow, rfl⟩
  refine ⟨fun id number hlookup => ?_, fun assignment hassignment => ?_⟩
  · obtain ⟨row, hrow, hid, hle⟩ := hown.numbers id number hlookup
    obtain ⟨kept, hkept, hkeptId⟩ := hkept row hrow
    obtain ⟨old, hold, holdId, hnumber⟩ := hsame id number hlookup kept hkept (hkeptId.trans hid)
    refine ⟨kept, hkept, hkeptId.trans hid, ?_⟩
    rw [hnumber, hcounted.row_unique hold hrow (holdId.trans hid.symm)]
    exact hle
  · obtain ⟨hformed, number, hlookup, hlt, hbelow⟩ := hown.assigned assignment hassignment
    refine ⟨hformed, number, hlookup, hlt, fun row hrow hid => ?_⟩
    obtain ⟨old, hold, holdId, hnumber⟩ := hsame _ number hlookup row hrow hid
    rw [hnumber]
    exact hbelow old hold holdId

end Numbers

/-! ## Runs -/

section Runs

variable {isWord : Char → Bool} {allowed : TypedConfig → TypedMove → Prop}

theorem numberOutline_valid :
    numberOutline.Valid (typedProgram isWord) TypedStore.Initial
      fun config move => saveLocks.Exclusive config ∧ allowed config move where
  init := by
    rintro store ⟨htypes, -, hassigned⟩
    constructor <;> simp [htypes, hassigned]
  drift := by
    intro time store after hdrift hcounted
    obtain ⟨-, rfl⟩ := Concurrent.drift_eq hdrift
    exact ⟨{ hcounted with }, fun _ _ hassertion => ⟨hassertion.1, fun transaction htransaction =>
      { hassertion.2 transaction htransaction with }⟩⟩
  start := by
    intro _ store process hstart _
    cases process with
    | save | saveNumber | saveDocument => cases hstart
    | _ =>
        refine ⟨trivial, fun _ htransaction => ?_⟩
        cases htransaction
  own := by
    intro config name choice process remaining after hholds hprocess _ hadvance
    obtain ⟨hnamed, hnumbers⟩ := hholds.2 name process hprocess
    obtain ⟨heffect, hnext⟩ := typedAdvance_cases hadvance
    refine ⟨hholds.1.effect hnumbers heffect, fun next hremaining => ?_⟩
    obtain ⟨rfl, hstep⟩ := hnext next hremaining
    exact typedNext_counted hholds.1 hnamed hnumbers hstep
  others := by
    intro config name choice process remaining after hholds hprocess hallowed hadvance other
      process' hne hother
    obtain ⟨hnamed, hnumbers⟩ := hholds.2 other process' hother
    refine ⟨hnamed, fun transaction htransaction => ?_⟩
    refine (hnumbers transaction htransaction).beside hholds.1 ?_ (typedAdvance_cases hadvance).1
    intro own hown entry hentry
    rw [List.lookup_eq_none_iff]
    intro held hheld
    by_contra hsame
    -- Both transactions would hold the row of the type.
    refine hallowed.1 name other process process' (Ne.symm hne) hprocess hother
      (.type held.1) ?_ ?_
    · simp only [saveLocks, hown, Option.elim_some]
      exact List.mem_append_left _ (List.mem_map_of_mem hheld)
    · simp only [saveLocks, htransaction, Option.elim_some]
      refine List.mem_append_left _ (List.mem_map.mpr ⟨entry, hentry, ?_⟩)
      rw [SavedRow.type.injEq]
      simpa using hsame

end Runs

/-! ## References -/

/-- The number that a save takes has been given by no other type under the prefix of its type,
in a committed transaction or in an open one. -/
def FreshNumber (config : TypedConfig) : TypedProcess → Prop
  | .saveNumber transaction metadata type => type.givesNumber metadata = true →
      ∀ row ∈ config.store.types, row.id = type.id →
        (∀ assignment ∈ config.store.assigned, assignment.typeId = type.id ∨
          assignment.text ≠ type.referencePrefix.getD "" ∨
          assignment.number ≠ transaction.nextNumber row) ∧
        ∀ name process, config.processes name = some process →
          ∀ assignment ∈ process.assigned, assignment.typeId = type.id ∨
            assignment.text ≠ type.referencePrefix.getD "" ∨
            assignment.number ≠ transaction.nextNumber row
  | _ => True

/-- A reference belongs to the transaction that has assigned it, as a lock does. -/
def referenceLocks : Concurrent.Locks TypedStore TypedProcess String where
  holds process := process.assigned.map Assignment.reference
  wants store
    | .saveNumber transaction metadata type =>
        if type.givesNumber metadata then
          (store.types.filter fun row => row.id = type.id).flatMap fun row =>
            ((applyDocumentType (fun _ => some type.toDocumentType) (transaction.nextNumber row)
              metadata).toOption.map fun result =>
                (getField result "ged.reference").getD "").toList
        else []
    | _ => []

/-- References are assigned once in committed transactions, and not again in an open one. -/
def referenceOutline : Concurrent.Outline TypedStore TypedProcess where
  invariant store := (store.assigned.map Assignment.reference).Nodup
  assertion _ store process :=
    (process.assigned.map Assignment.reference).Nodup ∧
      ∀ assignment ∈ process.assigned, ∀ other ∈ store.assigned,
        assignment.reference ≠ other.reference

section References

variable {isWord : Char → Bool} {config : TypedConfig} {name : Nat} {store after : TypedStore}
variable {process next : TypedProcess}

/-- An assignment with other parts is another reference. -/
theorem Assignment.Formed.ne {assignment : Assignment} (hformed : assignment.Formed)
    {typeId text : String} {number : Nat}
    (hsame : assignment.typeId = typeId → assignment.number ≠ number)
    (hother : assignment.typeId = typeId ∨ assignment.text ≠ text ∨ assignment.number ≠ number) :
    assignment.reference ≠ text ++ "-" ++ padNumber number := by
  intro hreference
  obtain ⟨htext, hnumber⟩ := reference_injective (hformed.symm.trans hreference)
  rcases hother with htype | hne | hne
  · exact hsame htype hnumber
  · exact hne htext
  · exact hne hnumber

/-- The reference that a save is about to assign is assigned nowhere else. -/
theorem reference_fresh (hholds : numberOutline.Holds config)
    {move : TypedMove} {choice : TypedChoice} (hmove : move = .advance name choice)
    (horderly : saveLocks.Orderly FreshNumber config move)
    {transaction : SaveTransaction} {metadata result : Metadata} {type row : TypeRow}
    (hprocess : config.processes name = some (.saveNumber transaction metadata type))
    (hgives : type.givesNumber metadata = true) (hrow : row ∈ config.store.types)
    (hid : row.id = type.id)
    (hresult : applyDocumentType (fun _ => some type.toDocumentType)
      (transaction.nextNumber row) metadata = .ok result) :
    (∀ assignment ∈ config.store.assigned,
        assignment.reference ≠ (getField result "ged.reference").getD "") ∧
      ∀ other process', config.processes other = some process' →
        ∀ assignment ∈ process'.assigned,
          assignment.reference ≠ (getField result "ged.reference").getD "" := by
  subst hmove
  obtain ⟨hcounted, hassertions⟩ := hholds
  obtain ⟨hnamed, hnumbers⟩ := hassertions name _ hprocess
  have hown := hnumbers transaction rfl
  have hreference : (getField result "ged.reference").getD "" =
      type.referencePrefix.getD "" ++ "-" ++ padNumber (transaction.nextNumber row) := by
    have hset := applyDocumentType_ok hnamed hresult
    rw [if_pos hgives] at hset
    rw [hset, getField_setField]
    rfl
  obtain ⟨hcommitted, hopen⟩ := horderly.2 _ hprocess hgives row hrow hid
  rw [hreference]
  refine ⟨fun assignment hassignment => ?_, fun other process' hother assignment hassignment => ?_⟩
  · obtain ⟨hformed, found, hfound, hfoundId, hlt⟩ := hcounted.assigned assignment hassignment
    refine hformed.ne (fun htype => ?_) (hcommitted assignment hassignment)
    rw [hcounted.row_unique hfound hrow (hfoundId.trans (htype.trans hid.symm))] at hlt
    exact (hlt.trans_le (le_nextNumber hcounted hown hrow)).ne
  · have hside := hopen other process' hother assignment hassignment
    unfold TypedProcess.assigned at hassignment
    cases htransaction : process'.transaction with
    | none =>
        rw [htransaction] at hassignment
        cases hassignment
    | some beside =>
        rw [htransaction, Option.elim_some] at hassignment
        obtain ⟨hformed, number, hlookup, hlt, -⟩ :=
          ((hassertions other process' hother).2 beside htransaction).assigned _ hassignment
        refine hformed.ne (fun htype => ?_) hside
        by_cases hname : other = name
        · -- The transaction itself has seen the number before.
          rw [hname, hprocess, Option.some.injEq] at hother
          rw [← hother] at htransaction
          cases htransaction
          rw [htype, ← hid] at hlookup
          simp only [SaveTransaction.nextNumber, hlookup, Option.getD_some]
          exact hlt.ne
        · -- Another transaction holds the row of the type.
          refine absurd ?_ (horderly.1 _ hprocess other process' hname hother (.type type.id) ?_)
          · obtain ⟨before, after, hentry, -⟩ := List.lookup_eq_some_iff.mp hlookup
            simp only [saveLocks, htransaction, Option.elim_some, hentry]
            refine List.mem_append_left _ (List.mem_map.mpr ⟨(assignment.typeId, number), ?_, ?_⟩)
            · simp
            · rw [htype]
          · simp [saveLocks, hgives]

/-- What a request has assigned when it goes on. -/
theorem typedNext_assigned (hnext : TypedNext isWord store process next) :
    next.assigned = process.assigned ∨ ∃ transaction metadata type row result,
      process = .saveNumber transaction metadata type ∧ type.givesNumber metadata = true ∧
      row ∈ store.types ∧ row.id = type.id ∧
      applyDocumentType (fun _ => some type.toDocumentType) (transaction.nextNumber row)
        metadata = .ok result ∧
      next.assigned = transaction.assigned ++ [⟨type.id, type.referencePrefix.getD "",
        transaction.nextNumber row, (getField result "ged.reference").getD ""⟩] := by
  cases hnext with
  | number hgives hrow hid _ hresult =>
      exact .inr ⟨_, _, _, _, _, rfl, hgives, hrow, hid, hresult, rfl⟩
  | _ => exact .inl rfl

theorem referenceLocks_sound : referenceLocks.Sound (typedProgram isWord) where
  start := by
    intro process hstart
    cases process with
    | save | saveNumber | saveDocument => cases hstart
    | _ => rfl
  advance := by
    intro name choice store process process' after hadvance reference hreference
    simp only [referenceLocks] at hreference ⊢
    rcases typedNext_assigned (typedAdvance_next hadvance) with hsame |
      ⟨transaction, metadata, type, row, result, rfl, hgives, hrow, hid, hresult, hassigned⟩
    · rw [hsame] at hreference
      exact .inl hreference
    · rw [hassigned, List.map_append, List.mem_append] at hreference
      refine hreference.imp_right fun hnew => ?_
      rw [List.map_singleton, List.mem_singleton] at hnew
      simp only [if_pos hgives, List.mem_flatMap]
      refine ⟨row, List.mem_filter.mpr ⟨hrow, decide_eq_true hid⟩, ?_⟩
      simp [hresult, Except.toOption, hnew]

/-- Assigning a reference never has to wait for another transaction. -/
theorem referenceLocks_free {move : TypedMove} (hholds : numberOutline.Holds config)
    (horderly : saveLocks.Orderly FreshNumber config move) : referenceLocks.Free config move := by
  cases move with
  | advance name choice =>
      intro process hprocess other process' _ hother reference hwants hheld
      cases process with
      | saveNumber transaction metadata type =>
          simp only [referenceLocks] at hwants hheld
          split at hwants
          next hgives =>
            obtain ⟨row, hrow, hmem⟩ := List.mem_flatMap.mp hwants
            rw [List.mem_filter, decide_eq_true_eq] at hrow
            rw [Option.mem_toList] at hmem
            obtain ⟨result, hresult, rfl⟩ := Option.map_eq_some_iff.mp hmem
            obtain ⟨assignment, hassignment, hsame⟩ := List.mem_map.mp hheld
            exact (reference_fresh hholds rfl horderly hprocess hgives hrow.1 hrow.2
              (Checks.toOption_eq_some.mp hresult)).2 other process' hother assignment hassignment
                hsame
          next => cases hwants
      | _ => cases hwants
  | _ => trivial

theorem referenceOutline_valid :
    referenceOutline.Valid (typedProgram isWord) TypedStore.Initial fun config move =>
      referenceLocks.Exclusive config ∧ numberOutline.Holds config ∧
        saveLocks.Orderly FreshNumber config move where
  init := by
    rintro store ⟨-, -, hassigned⟩
    simp [referenceOutline, hassigned]
  drift := by
    intro time store after hdrift hunique
    obtain ⟨-, rfl⟩ := Concurrent.drift_eq hdrift
    exact ⟨hunique, fun _ _ hassertion => hassertion⟩
  start := by
    intro _ store process hstart _
    cases process with
    | save | saveNumber | saveDocument => cases hstart
    | _ => simp [referenceOutline, TypedProcess.assigned, TypedProcess.transaction]
  own := by
    intro config name choice process remaining after hholds hprocess hallowed hadvance
    obtain ⟨hown, hapart⟩ := hholds.2 name process hprocess
    obtain ⟨heffect, hnext⟩ := typedAdvance_cases hadvance
    refine ⟨?_, fun next hremaining => ?_⟩
    · cases heffect with
      | commit =>
          simp only [referenceOutline, TypedStore.commit, List.map_append]
          refine hholds.1.append hown ?_
          rw [List.disjoint_right]
          intro reference hmem hmem'
          obtain ⟨assignment, hassignment, rfl⟩ := List.mem_map.mp hmem
          obtain ⟨other, hother, hsame⟩ := List.mem_map.mp hmem'
          exact hapart assignment hassignment other hother hsame.symm
      | _ => exact hholds.1
    · obtain ⟨rfl, hstep⟩ := hnext next hremaining
      rcases typedNext_assigned hstep with hsame |
        ⟨transaction, metadata, type, row, result, rfl, hgives, hrow, hid, hresult, hassigned⟩
      · simp only [referenceOutline, hsame]
        exact ⟨hown, hapart⟩
      · obtain ⟨hcommitted, hopen⟩ :=
          reference_fresh hallowed.2.1 rfl hallowed.2.2 hprocess hgives hrow hid hresult
        simp only [referenceOutline, hassigned, List.map_append, List.map_singleton]
        refine ⟨?_, fun assignment hassignment other hother => ?_⟩
        · refine hown.append (List.nodup_singleton _) ?_
          rw [List.disjoint_singleton]
          intro hmem
          obtain ⟨assignment, hassignment, hsame⟩ := List.mem_map.mp hmem
          exact hopen name _ hprocess assignment hassignment hsame
        · rcases List.mem_append.mp hassignment with hold | hnew
          · exact hapart assignment hold other hother
          · rw [List.mem_singleton.mp hnew]
            exact (hcommitted other hother).symm
  others := by
    intro config name choice process remaining after hholds hprocess hallowed hadvance other
      process' hne hother
    obtain ⟨hown, hapart⟩ := hholds.2 other process' hother
    refine ⟨hown, fun assignment hassignment => ?_⟩
    cases (typedAdvance_cases hadvance).1 with
    | commit =>
        intro committed hcommitted
        rcases List.mem_append.mp hcommitted with hold | hnew
        · exact hapart assignment hassignment committed hold
        · intro hsame
          refine hallowed.1 other name process' _ hne hother hprocess assignment.reference
            (List.mem_map_of_mem hassignment) ?_
          rw [hsame]
          exact List.mem_map_of_mem hnew
    | _ => exact hapart assignment hassignment

end References

/-- **References.** In every run in which no number is given twice under one prefix by different
types, committed transactions have assigned every reference once. -/
theorem references_unique (isWord : Char → Bool) {config : TypedConfig}
    (hreach : (typedSystem isWord).ReachableWhile (saveLocks.Orderly FreshNumber) config) :
    (config.store.assigned.map Assignment.reference).Nodup := by
  have hnumbers : ∀ before, (typedSystem isWord).ReachableWhile
      (saveLocks.Orderly FreshNumber) before → numberOutline.Holds before :=
    fun before hbefore => Concurrent.Locks.outline_holds saveLocks_sound numberOutline_valid hbefore
  exact (Concurrent.Locks.outline_holds_of_free referenceLocks_sound
    (fun _ _ hallowed => referenceLocks_free hallowed.1 hallowed.2) referenceOutline_valid
    (hreach.assuming hnumbers)).1

/-! ## Sample -/

/-- `FreshNumber`, computed over the requests with known names. -/
def isFreshNumber (names : List Nat) (config : TypedConfig) : TypedMove → Bool
  | .advance name _ => (config.processes name).all fun process => match process with
      | .saveNumber transaction metadata type => !type.givesNumber metadata ||
          config.store.types.all fun row => row.id ≠ type.id ||
            (config.store.assigned ++ names.flatMap fun other =>
              (config.processes other).elim [] TypedProcess.assigned).all fun assignment =>
                assignment.typeId = type.id || assignment.text ≠ type.referencePrefix.getD "" ||
                  assignment.number ≠ transaction.nextNumber row
      | _ => true
  | _ => true

theorem guarded_of_isFreshNumber {names : List Nat} {config : TypedConfig} {move : TypedMove}
    (hnamed : Concurrent.Named names config) (hfresh : isFreshNumber names config move = true) :
    Concurrent.Guarded FreshNumber config move := by
  cases move with
  | advance name choice =>
      intro process hprocess
      cases process with
      | saveNumber transaction metadata type =>
          intro hgives row hrow hid
          simp only [isFreshNumber, hprocess, Option.all_some, hgives, Bool.not_true,
            Bool.false_or, List.all_eq_true, Bool.or_eq_true, decide_eq_true_eq] at hfresh
          have hrows := (hfresh row hrow).resolve_left fun hne => hne hid
          refine ⟨fun assignment hassignment => ?_, fun other process' hother assignment
            hassignment => ?_⟩
          · exact or_assoc.mp (hrows assignment (List.mem_append_left _ hassignment))
          · have hmem := hnamed.mem hother
            refine or_assoc.mp (hrows assignment (List.mem_append_right _ ?_))
            refine List.mem_flatMap.mpr ⟨other, hmem, ?_⟩
            rw [hother]
            exact hassignment
      | _ => trivial
  | _ => trivial

def noTypes : TypedStore := ⟨0, [], [], []⟩

theorem reachable_noTypes {isWord : Char → Bool} {allowed : TypedConfig → TypedMove → Prop} :
    (typedSystem isWord).ReachableWhile allowed (Concurrent.idle noTypes) :=
  .init ⟨⟨rfl, rfl, rfl⟩, fun _ => rfl⟩

/-- Everything is permitted, and a new row has the id of the choice. -/
def typedChoice (uuid : String) : TypedChoice := ⟨fun _ => true, [], uuid⟩

/-- An administrator creates a type. -/
def createTypeMoves (slug text : String) (requiredFields : List String) : List TypedMove :=
  [.start 0 (.createType ⟨slug, slug, slug, requiredFields, some text⟩),
    .advance 0 (typedChoice slug), .advance 0 (typedChoice slug)]

/-- A document is added, and saved with its first metadata. -/
def saveMoves (id : String) (metadata : Metadata) : List TypedMove :=
  [.start 0 (.addDocument id "space"), .advance 0 (typedChoice ""),
    .start 0 (.updateMetadata id ⟨"en", id, none, some metadata, none, none, none⟩)] ++
    List.replicate 5 (.advance 0 (typedChoice ""))

/-- One prefix is the other with a dash and a digit. -/
theorem references_unique_nested :
    ∃ config, (typedSystem Char.isAlphanum).ReachableWhile
        (saveLocks.Orderly FreshNumber) config ∧
      config.store.assigned.map Assignment.reference = ["DOC-001", "DOC-1-001", "DOC-002"] ∧
      (config.store.assigned.map Assignment.reference).Nodup := by
  have hrun : (Concurrent.executeNamed (typedProgram Char.isAlphanum) [0]
      (fun config move => saveLocks.isFree [0] config move && isFreshNumber [0] config move)
      (Concurrent.idle noTypes)
      (createTypeMoves "policy" "DOC" [] ++ createTypeMoves "procedure" "DOC-1" [] ++
        saveMoves "d1" [("ged.documentType", "policy")] ++
        saveMoves "d2" [("ged.documentType", "procedure")] ++
        saveMoves "d3" [("ged.documentType", "policy")])).map
          (fun config => config.store.assigned.map Assignment.reference) =
      some ["DOC-001", "DOC-1-001", "DOC-002"] := by
    decide
  obtain ⟨config, hexecute, hsummary⟩ := Option.map_eq_some_iff.mp hrun
  have horderly : ∀ config move, Concurrent.Named [0] config →
      (saveLocks.isFree [0] config move && isFreshNumber [0] config move) = true →
      saveLocks.Orderly FreshNumber config move := by
    intro config move hnamed hcheck
    rw [Bool.and_eq_true] at hcheck
    exact ⟨Concurrent.Locks.free_of_isFree hnamed hcheck.1,
      guarded_of_isFreshNumber hnamed hcheck.2⟩
  have hreach := (Concurrent.reachable_executeNamed horderly _ (fun _ _ => rfl) reachable_noTypes
    hexecute).1
  exact ⟨config, hreach, hsummary, references_unique Char.isAlphanum hreach⟩

/-- Two types have the same prefix, and both give their first number. -/
theorem shared_prefix_repeats :
    ∃ config, (typedSystem Char.isAlphanum).ReachableWhile saveLocks.Free config ∧
      config.store.assigned.map Assignment.reference = ["DOC-001", "DOC-001"] ∧
      (config.store.documents.map fun row =>
        (row.id, row.metadata.bind fun metadata => getField metadata "ged.reference")) =
          [("d1", some "DOC-001"), ("d2", some "DOC-001")] := by
  have hrun : (Concurrent.executeNamed (typedProgram Char.isAlphanum) [0]
      (saveLocks.isFree [0]) (Concurrent.idle noTypes)
      (createTypeMoves "policy" "DOC" [] ++ createTypeMoves "procedure" "DOC" [] ++
        saveMoves "d1" [("ged.documentType", "policy")] ++
        saveMoves "d2" [("ged.documentType", "procedure")])).map (fun config =>
          (config.store.assigned.map Assignment.reference, config.store.documents.map fun row =>
            (row.id, row.metadata.bind fun metadata => getField metadata "ged.reference"))) =
      some (["DOC-001", "DOC-001"], [("d1", some "DOC-001"), ("d2", some "DOC-001")]) := by
    decide
  obtain ⟨config, hexecute, hsummary⟩ := Option.map_eq_some_iff.mp hrun
  obtain ⟨hassigned, hdocuments⟩ := Prod.mk.inj hsummary
  exact ⟨config, (Concurrent.reachable_executeNamed
    (fun _ _ hnamed hfree => Concurrent.Locks.free_of_isFree hnamed hfree) _ (fun _ _ => rfl)
    reachable_noTypes hexecute).1, hassigned, hdocuments⟩

end IsmsPortal
