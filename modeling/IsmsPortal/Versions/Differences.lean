import IsmsPortal.Foundation.CommonSubsequence
import IsmsPortal.Foundation.JsString
import IsmsPortal.Foundation.Replacement
import Mathlib.Data.List.Dedup
import Mathlib.Data.List.Perm.Basic

/-! # Differences of two versions

`diffLines` compares the lines of two versions. A table has the sizes of longest common
subsequences of the tails, computed from the last lines backwards in 16 bits. A walk over both
lists takes equal lines as matches, and leaves out one line otherwise. The lines left out
between two matches are reported together: those of the other version are not reported, the
first ones of both sides are paired as modified, the rest is removed or added.
-/

namespace IsmsPortal

open Foundation

/-- A line and the line in its place. -/
structure LineChange where
  before : String
  after : String
deriving DecidableEq

structure DocumentChangeDetails where
  added : List String
  removed : List String
  modified : List LineChange
deriving DecidableEq

/-! ## The lines -/

/-- A line of `normalize`. -/
def normalizeLine (value : String) : String :=
  JsString.trim (String.ofList (Replacement.replaceRuns JsString.isWhiteSpace ' ' value.toList))

/-- `normalize`. A set keeps the first of equal lines. -/
def normalize (values : List String) : List String :=
  let lines := (values.map normalizeLine).filter fun value => 2 ≤ JsString.length value
  lines.reverse.dedup.reverse.take 500

theorem normalize_nodup (values : List String) : (normalize values).Nodup :=
  (List.nodup_reverse.mpr (List.nodup_dedup _)).sublist (List.take_sublist _ _)

theorem length_normalize_le (values : List String) : (normalize values).length ≤ 500 :=
  List.length_take_le _ _

/-! ## The table -/

/-- A row of `common`, for a line of the first version, from the row below it. The entries
are 16 bits wide. -/
def commonRow (line : String) : List String → List Nat → List Nat
  | other :: after, below :: row =>
      let rest := commonRow line after row
      (if line = other then row.headD 0 + 1 else max below (rest.headD 0)) % 65536 :: rest
  | _, _ => [0]

/-- The rows of `common`, the last of which stays zero. -/
def commonTable : List String → List String → List (List Nat)
  | [], after => [List.replicate (after.length + 1) 0]
  | line :: before, after =>
      let rows := commonTable before after
      commonRow line after (rows.headD []) :: rows

/-- `common[i][j]`. -/
def common (before after : List String) (i j : Nat) : Nat :=
  (((commonTable before after)[i]?.getD [])[j]?).getD 0

/-! ## The walk -/

/-- The variables of the loop, and the positions of the matches so far. -/
structure DiffLoop where
  i : Nat
  j : Nat
  removedRun : List String
  addedRun : List String
  result : DocumentChangeDetails
  matched : List (Nat × Nat)
deriving DecidableEq

section Walk

variable (before after : List String)

/-- `flush`. -/
def DiffLoop.flush (loop : DiffLoop) : DiffLoop :=
  let removed := loop.removedRun.filter (· ∉ after)
  let added := loop.addedRun.filter (· ∉ before)
  let pairs := min removed.length added.length
  { loop with
    removedRun := []
    addedRun := []
    result := ⟨loop.result.added ++ added.drop pairs, loop.result.removed ++ removed.drop pairs,
      loop.result.modified ++ List.zipWith LineChange.mk removed added⟩ }

/-- Both lines are the same. -/
def DiffLoop.step (loop : DiffLoop) : DiffLoop :=
  let flushed := loop.flush before after
  { flushed with i := loop.i + 1, j := loop.j + 1, matched := loop.matched ++ [(loop.i, loop.j)] }

def DiffLoop.add (loop : DiffLoop) (line : String) : DiffLoop :=
  { loop with j := loop.j + 1, addedRun := loop.addedRun ++ [line] }

def DiffLoop.remove (loop : DiffLoop) (line : String) : DiffLoop :=
  { loop with i := loop.i + 1, removedRun := loop.removedRun ++ [line] }

/-- One round of the loop, or nothing at the end of both lists. -/
def diffRound (table : Nat → Nat → Nat) (loop : DiffLoop) : Option DiffLoop :=
  match before[loop.i]?, after[loop.j]? with
  | some line, some other =>
      if line = other then some (loop.step before after)
      else if table loop.i (loop.j + 1) ≥ table (loop.i + 1) loop.j then some (loop.add other)
      else some (loop.remove line)
  | none, some other => some (loop.add other)
  | some line, none => some (loop.remove line)
  | none, none => none

/-- The loop, for at most a number of rounds. -/
def diffWalk (table : Nat → Nat → Nat) : Nat → DiffLoop → Option DiffLoop
  | 0, _ => none
  | fuel + 1, loop =>
      match diffRound before after table loop with
      | some next => diffWalk table fuel next
      | none => some loop

def diffStart : DiffLoop := ⟨0, 0, [], [], ⟨[], [], []⟩, []⟩

/-- The loop from its start, one round for each line and one to see the end. -/
def diffLoop : Option DiffLoop :=
  diffWalk before after (common before after) (before.length + after.length + 1) diffStart

/-- `diffLines`. -/
def diffLines : Option DocumentChangeDetails :=
  (diffLoop before after).map fun loop => (loop.flush before after).result

end Walk

/-! ## What is reported -/

section Reported

variable {before after : List String} {loop next final : DiffLoop} {table : Nat → Nat → Nat}

/-- What a round does, with the lines it reads. -/
inductive DiffCase (before after : List String) (table : Nat → Nat → Nat) (loop : DiffLoop) :
    DiffLoop → Prop
  | step {line : String} (hbefore : before[loop.i]? = some line)
      (hafter : after[loop.j]? = some line) : DiffCase before after table loop (loop.step before after)
  | add {line : String} (hafter : after[loop.j]? = some line)
      (hchoice : ∀ other, before[loop.i]? = some other →
        other ≠ line ∧ table (loop.i + 1) loop.j ≤ table loop.i (loop.j + 1)) :
      DiffCase before after table loop (loop.add line)
  | remove {line : String} (hbefore : before[loop.i]? = some line)
      (hchoice : ∀ other, after[loop.j]? = some other →
        line ≠ other ∧ table loop.i (loop.j + 1) < table (loop.i + 1) loop.j) :
      DiffCase before after table loop (loop.remove line)

theorem diffRound_cases (hround : diffRound before after table loop = some next) :
    DiffCase before after table loop next := by
  unfold diffRound at hround
  split at hround
  next line other hbefore hafter =>
    split at hround
    next hsame =>
      cases hround
      exact .step hbefore (hsame ▸ hafter)
    next hdiffer =>
      split at hround
      next htable =>
        cases hround
        refine .add hafter fun line' hline => ?_
        obtain rfl : line = line' := by simpa [hbefore] using hline
        exact ⟨hdiffer, htable⟩
      next htable =>
        cases hround
        refine .remove hbefore fun other' hother => ?_
        obtain rfl : other = other' := by simpa [hafter] using hother
        exact ⟨hdiffer, not_le.mp htable⟩
  next other hbefore hafter =>
    cases hround
    exact .add hafter fun line hline => by simp [hbefore] at hline
  next line hbefore hafter =>
    cases hround
    exact .remove hbefore fun other hother => by simp [hafter] at hother
  next => cases hround

theorem diffRound_eq_none : diffRound before after table loop = none ↔
    before.length ≤ loop.i ∧ after.length ≤ loop.j := by
  rw [← List.getElem?_eq_none_iff, ← List.getElem?_eq_none_iff]
  unfold diffRound
  split
  next hbefore hafter =>
    simp only [hbefore, reduceCtorEq, false_and, iff_false]
    split
    · simp
    · split <;> simp
  next hbefore hafter => simp [hafter]
  next hbefore hafter => simp [hbefore]
  next hbefore hafter => simp [hbefore, hafter]

/-- What holds at the start and is kept by a round holds at the end of both lists. -/
theorem diffWalk_invariant {predicate : DiffLoop → Prop} {fuel : Nat}
    (hround : ∀ loop next, predicate loop → DiffCase before after table loop next → predicate next)
    (hstart : predicate loop) (hwalk : diffWalk before after table fuel loop = some final) :
    predicate final ∧ before.length ≤ final.i ∧ after.length ≤ final.j := by
  induction fuel generalizing loop with
  | zero => cases hwalk
  | succ fuel ih =>
      rw [diffWalk] at hwalk
      cases hnext : diffRound before after table loop with
      | none =>
          rw [hnext] at hwalk
          cases hwalk
          exact ⟨hstart, diffRound_eq_none.mp hnext⟩
      | some next =>
          rw [hnext] at hwalk
          exact ih (hround loop next hstart (diffRound_cases hnext)) hwalk

/-- Every round goes one line on. -/
theorem DiffCase.advances (hcase : DiffCase before after table loop next) :
    loop.i + loop.j < next.i + next.j ∧ (loop.i ≤ before.length → next.i ≤ before.length) ∧
      (loop.j ≤ after.length → next.j ≤ after.length) := by
  have hread : ∀ {lines : List String} {position : Nat} {line : String},
      lines[position]? = some line → position < lines.length := by
    intro lines position line hline
    exact (List.getElem?_eq_some_iff.mp hline).1
  cases hcase with
  | step hbefore hafter =>
      have hi := hread hbefore
      have hj := hread hafter
      simp only [DiffLoop.step]
      omega
  | add hafter _ =>
      have hj := hread hafter
      simp only [DiffLoop.add]
      omega
  | remove hbefore _ =>
      have hi := hread hbefore
      simp only [DiffLoop.remove]
      omega

theorem diffWalk_isSome {fuel : Nat} (hi : loop.i ≤ before.length) (hj : loop.j ≤ after.length)
    (hfuel : before.length + after.length < fuel + loop.i + loop.j) :
    (diffWalk before after table fuel loop).isSome := by
  induction fuel generalizing loop with
  | zero => omega
  | succ fuel ih =>
      rw [diffWalk]
      split
      next next hround =>
        obtain ⟨hmore, hi', hj'⟩ := (diffRound_cases hround).advances
        exact ih (hi' hi) (hj' hj) (by omega)
      next => rfl

/-- The loop ends. -/
theorem diffLoop_isSome (before after : List String) : (diffLoop before after).isSome :=
  diffWalk_isSome (Nat.zero_le _) (Nat.zero_le _) (by simp [diffStart])

end Reported

/-! ## One side -/

/-- The lines of one side up to a position. Those from `start` on are in the run; of those
before it, the ones that the other side has not are reported, alone or in a pair. -/
structure SideAccount (lines others : List String) (start position : Nat)
    (run alone paired : List String) : Prop where
  start_le : start ≤ position
  position_le : position ≤ lines.length
  run_eq : run = (lines.take position).drop start
  reported : (alone ++ paired).Perm ((lines.take start).filter (· ∉ others))
  alone_order : alone.Sublist (lines.take start)
  paired_order : paired.Sublist (lines.take start)

namespace SideAccount

variable {lines others run alone paired : List String} {start position : Nat}

theorem empty : SideAccount lines others 0 0 [] [] [] :=
  ⟨le_refl 0, Nat.zero_le _, by simp, by simp, by simp, by simp⟩

/-- A line is left out. -/
theorem push (haccount : SideAccount lines others start position run alone paired) {line : String}
    (hline : lines[position]? = some line) :
    SideAccount lines others start (position + 1) (run ++ [line]) alone paired where
  start_le := Nat.le_succ_of_le haccount.start_le
  position_le := (List.getElem?_eq_some_iff.mp hline).1
  run_eq := by
    have hlength : (lines.take position).length = position := by
      rw [List.length_take, min_eq_left haccount.position_le]
    rw [List.take_add_one, hline, Option.toList_some, List.drop_append_of_le_length, ← haccount.run_eq]
    rw [hlength]
    exact haccount.start_le
  reported := haccount.reported
  alone_order := haccount.alone_order
  paired_order := haccount.paired_order

/-- The run is reported, its first lines in pairs. -/
theorem flush (haccount : SideAccount lines others start position run alone paired) (pairs : Nat) :
    SideAccount lines others position position []
      (alone ++ (run.filter (· ∉ others)).drop pairs)
      (paired ++ (run.filter (· ∉ others)).take pairs) := by
  have hsplit : lines.take position = lines.take start ++ run := by
    have htake : (lines.take position).take start = lines.take start := by
      rw [List.take_take, min_eq_left haccount.start_le]
    rw [haccount.run_eq, ← htake, List.take_append_drop]
  have hrun := (List.filter_sublist : (run.filter (· ∉ others)).Sublist run)
  refine ⟨le_refl _, haccount.position_le, by simp, ?_, ?_, ?_⟩
  · rw [hsplit, List.filter_append]
    have hparts : (alone ++ (run.filter (· ∉ others)).drop pairs ++
        (paired ++ (run.filter (· ∉ others)).take pairs)).Perm
        (alone ++ paired ++ run.filter (· ∉ others)) := by
      conv_rhs => rw [← List.take_append_drop pairs (run.filter (· ∉ others))]
      rw [List.append_assoc, List.append_assoc]
      refine List.Perm.append_left alone ?_
      refine (List.perm_append_comm).trans ?_
      rw [List.append_assoc]
    exact hparts.trans (haccount.reported.append_right _)
  · rw [hsplit]
    exact haccount.alone_order.append ((List.drop_sublist pairs _).trans hrun)
  · rw [hsplit]
    exact haccount.paired_order.append ((List.take_sublist pairs _).trans hrun)

/-- A line that the other side has is passed. -/
theorem pass (haccount : SideAccount lines others position position [] alone paired)
    {line : String} (hline : lines[position]? = some line) (hother : line ∈ others) :
    SideAccount lines others (position + 1) (position + 1) [] alone paired := by
  have htake : lines.take (position + 1) = lines.take position ++ [line] := by
    rw [List.take_add_one, hline, Option.toList_some]
  refine ⟨le_refl _, (List.getElem?_eq_some_iff.mp hline).1, by simp, ?_, ?_, ?_⟩
  · rw [htake, List.filter_append]
    simpa [hother] using haccount.reported
  · rw [htake]
    exact haccount.alone_order.trans (List.sublist_append_left _ _)
  · rw [htake]
    exact haccount.paired_order.trans (List.sublist_append_left _ _)

end SideAccount

/-! ## Both sides -/

theorem map_before_zipWith (removed added : List String) :
    (List.zipWith LineChange.mk removed added).map LineChange.before =
      removed.take (min removed.length added.length) := by
  induction removed generalizing added with
  | nil => simp
  | cons line removed ih =>
      cases added with
      | nil => simp
      | cons other added => simp [ih, Nat.add_min_add_right]

theorem map_after_zipWith (removed added : List String) :
    (List.zipWith LineChange.mk removed added).map LineChange.after =
      added.take (min removed.length added.length) := by
  induction removed generalizing added with
  | nil => simp
  | cons line removed ih =>
      cases added with
      | nil => simp
      | cons other added => simp [ih, Nat.add_min_add_right]

/-- The accounts of both sides, with the starts of the runs. -/
structure DiffLoop.Accounted (before after : List String) (loop : DiffLoop) (k l : Nat) :
    Prop where
  removals : SideAccount before after k loop.i loop.removedRun loop.result.removed
    (loop.result.modified.map LineChange.before)
  additions : SideAccount after before l loop.j loop.addedRun loop.result.added
    (loop.result.modified.map LineChange.after)

section Both

variable {before after : List String} {loop next final : DiffLoop} {table : Nat → Nat → Nat}
variable {k l : Nat}

theorem DiffLoop.Accounted.flush (haccounted : loop.Accounted before after k l) :
    (loop.flush before after).Accounted before after loop.i loop.j where
  removals := by
    have hflush := haccounted.removals.flush (min (loop.removedRun.filter (· ∉ after)).length
      (loop.addedRun.filter (· ∉ before)).length)
    rw [← map_before_zipWith, ← List.map_append] at hflush
    exact hflush
  additions := by
    have hflush := haccounted.additions.flush (min (loop.removedRun.filter (· ∉ after)).length
      (loop.addedRun.filter (· ∉ before)).length)
    rw [← map_after_zipWith, ← List.map_append] at hflush
    exact hflush

theorem DiffLoop.Accounted.step (haccounted : loop.Accounted before after k l) {line : String}
    (hbefore : before[loop.i]? = some line) (hafter : after[loop.j]? = some line) :
    (loop.step before after).Accounted before after (loop.i + 1) (loop.j + 1) where
  removals := haccounted.flush.removals.pass hbefore (List.mem_of_getElem? hafter)
  additions := haccounted.flush.additions.pass hafter (List.mem_of_getElem? hbefore)

theorem DiffLoop.Accounted.add (haccounted : loop.Accounted before after k l) {line : String}
    (hafter : after[loop.j]? = some line) : (loop.add line).Accounted before after k l :=
  ⟨haccounted.removals, haccounted.additions.push hafter⟩

theorem DiffLoop.Accounted.remove (haccounted : loop.Accounted before after k l) {line : String}
    (hbefore : before[loop.i]? = some line) : (loop.remove line).Accounted before after k l :=
  ⟨haccounted.removals.push hbefore, haccounted.additions⟩

/-- The accounts are kept by a round. -/
theorem DiffCase.accounted (hcase : DiffCase before after table loop next)
    (haccounted : ∃ k l, loop.Accounted before after k l) :
    ∃ k l, next.Accounted before after k l := by
  obtain ⟨k, l, haccounted⟩ := haccounted
  cases hcase with
  | step hbefore hafter => exact ⟨_, _, haccounted.step hbefore hafter⟩
  | add hafter _ => exact ⟨_, _, haccounted.add hafter⟩
  | remove hbefore _ => exact ⟨_, _, haccounted.remove hbefore⟩

/-- At the end both lists are accounted for. -/
theorem diffLines_accounts (before after : List String) : ∃ result,
    diffLines before after = some result ∧
    (result.added ++ result.modified.map LineChange.after).Perm (after.filter (· ∉ before)) ∧
    (result.removed ++ result.modified.map LineChange.before).Perm (before.filter (· ∉ after)) ∧
    result.added.Sublist after ∧ (result.modified.map LineChange.after).Sublist after ∧
    result.removed.Sublist before ∧ (result.modified.map LineChange.before).Sublist before := by
  obtain ⟨final, hfinal⟩ := Option.isSome_iff_exists.mp (diffLoop_isSome before after)
  have hstart : ∃ k l, diffStart.Accounted before after k l := ⟨0, 0, .empty, .empty⟩
  obtain ⟨⟨k, l, haccounted⟩, hi, hj⟩ := diffWalk_invariant
    (fun loop next haccounted hcase => hcase.accounted haccounted) hstart hfinal
  have hflush := haccounted.flush
  have hbefore := hflush.removals
  have hafter := hflush.additions
  have htakeBefore : before.take final.i = before := List.take_of_length_le hi
  have htakeAfter : after.take final.j = after := List.take_of_length_le hj
  refine ⟨(final.flush before after).result, ?_, ?_, ?_, ?_, ?_, ?_, ?_⟩
  · rw [diffLines, hfinal]
    rfl
  · simpa [htakeAfter] using hafter.reported
  · simpa [htakeBefore] using hbefore.reported
  · simpa [htakeAfter] using hafter.alone_order
  · simpa [htakeAfter] using hafter.paired_order
  · simpa [htakeBefore] using hbefore.alone_order
  · simpa [htakeBefore] using hbefore.paired_order

/-- Of distinct lines, those that the list and not the other one has are reported once. -/
theorem count_reported {lines others reported : List String} (hlines : lines.Nodup)
    (hreported : reported.Perm (lines.filter (· ∉ others))) {line : String} (hline : line ∈ lines)
    (hother : line ∉ others) : reported.count line = 1 := by
  rw [hreported.count_eq, List.count_filter (by simpa using hother)]
  exact List.count_eq_one_of_mem hlines hline

/-- The lines of two versions, each of them without repetitions, are accounted for: a line of
one version only is reported once, as added or removed or as a side of a change, a line of both
is not reported, and each list of the result has the order of the version. -/
theorem diffLines_accounts_once (hbefore : before.Nodup) (hafter : after.Nodup) : ∃ result,
    diffLines before after = some result ∧
    (∀ line ∈ after, line ∉ before →
      (result.added ++ result.modified.map LineChange.after).count line = 1) ∧
    (∀ line ∈ before, line ∉ after →
      (result.removed ++ result.modified.map LineChange.before).count line = 1) ∧
    (∀ line ∈ before, line ∈ after → line ∉ result.added ∧ line ∉ result.removed ∧
      ∀ change ∈ result.modified, change.before ≠ line ∧ change.after ≠ line) ∧
    result.added.Sublist after ∧ (result.modified.map LineChange.after).Sublist after ∧
    result.removed.Sublist before ∧ (result.modified.map LineChange.before).Sublist before := by
  obtain ⟨result, hresult, hadditions, hremovals, horders⟩ := diffLines_accounts before after
  refine ⟨result, hresult, fun line hline hother => count_reported hafter hadditions hline hother,
    fun line hline hother => count_reported hbefore hremovals hline hother, ?_, horders⟩
  intro line hline hother
  have hnotAdded : line ∉ result.added ++ result.modified.map LineChange.after := by
    rw [hadditions.mem_iff]
    simp [hline]
  have hnotRemoved : line ∉ result.removed ++ result.modified.map LineChange.before := by
    rw [hremovals.mem_iff]
    simp [hother]
  rw [List.mem_append, not_or] at hnotAdded hnotRemoved
  refine ⟨hnotAdded.1, hnotRemoved.1, fun change hchange => ⟨?_, ?_⟩⟩
  · rintro rfl
    exact hnotRemoved.2 (List.mem_map_of_mem hchange)
  · rintro rfl
    exact hnotAdded.2 (List.mem_map_of_mem hchange)

/-- Two versions of a text: a line with more white space is the same line. -/
theorem diffLines_accounts_once_normalize : ∃ result,
    diffLines (normalize ["Scope", "All  sites", "Scope"]) (normalize ["Scope ", "Sites"]) =
      some result ∧
    (result.added ++ result.modified.map LineChange.after).count "Sites" = 1 ∧
    (result.removed ++ result.modified.map LineChange.before).count "All sites" = 1 ∧
    "Scope" ∉ result.added := by
  obtain ⟨result, hresult, hadditions, hremovals, hboth, -⟩ := diffLines_accounts_once
    (normalize_nodup ["Scope", "All  sites", "Scope"]) (normalize_nodup ["Scope ", "Sites"])
  exact ⟨result, hresult, hadditions "Sites" (by decide) (by decide),
    hremovals "All sites" (by decide) (by decide), (hboth "Scope" (by decide) (by decide)).1⟩

end Both

end IsmsPortal
