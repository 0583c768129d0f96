import IsmsPortal.Versions.Differences

/-! # The matches of two versions

For lists whose sizes fit in 16 bits the table has the sizes of longest common subsequences of
the tails. The walk then leaves out only lines that a longest common subsequence does not need:
the number of matches so far and the entry for the current tails always add up to the first
entry. The two lines of a change are left out between the same matches.
-/

namespace IsmsPortal

open Foundation CommonSubsequence

/-! ## The table -/

section Table

variable {before after : List String} {line other : String} {i j : Nat}

/-- A row is right if the row below it is. -/
theorem commonRow_rowIs {left right : List String} {row : List Nat} (hrow : RowIs left right row)
    (hright : right.length < 65536) : RowIs (line :: left) right (commonRow line right row) := by
  induction right generalizing row with
  | nil =>
      unfold commonRow
      rfl
  | cons other right ih =>
      cases row with
      | nil => exact hrow.elim
      | cons below row =>
          have hrest := ih hrow.2 (Nat.lt_of_succ_lt hright)
          refine ⟨?_, hrest⟩
          have hentry : IsLongest (line :: left) (other :: right)
              (if line = other then row.headD 0 + 1
                else max below ((commonRow line right row).headD 0)) := by
            split
            next hsame =>
              subst hsame
              exact hrow.2.head.cons
            next hdiffer => exact hrow.1.skip hdiffer hrest.head
          -- An entry is at most the size of a list, so it is not cut off.
          have hsize := hentry.le_length.2
          rwa [Nat.mod_eq_of_lt (Nat.lt_of_le_of_lt hsize hright)]

theorem commonTable_rowIs (hafter : after.length < 65536) (hi : i ≤ before.length) :
    RowIs (before.drop i) after ((commonTable before after)[i]?.getD []) := by
  induction before generalizing i with
  | nil =>
      obtain rfl : i = 0 := by simpa using hi
      exact rowIs_nil after
  | cons line before ih =>
      cases i with
      | zero =>
          have hbelow := ih (Nat.zero_le _)
          rw [List.drop_zero] at hbelow
          refine commonRow_rowIs ?_ hafter
          rwa [List.headD_eq_head?_getD, List.head?_eq_getElem?]
      | succ i => exact ih (Nat.le_of_succ_le_succ hi)

/-- The entries of the table. -/
theorem common_isLongest (hafter : after.length < 65536) (hi : i ≤ before.length)
    (hj : j ≤ after.length) :
    IsLongest (before.drop i) (after.drop j) (common before after i j) :=
  (commonTable_rowIs hafter hi).getElem hj

variable (hafter : after.length < 65536)
include hafter

theorem common_match (hline : before[i]? = some line) (hother : after[j]? = some line) :
    common before after i j = common before after (i + 1) (j + 1) + 1 := by
  obtain ⟨hi, rfl⟩ := List.getElem?_eq_some_iff.mp hline
  obtain ⟨hj, hsame⟩ := List.getElem?_eq_some_iff.mp hother
  have hrest : IsLongest (before[i] :: before.drop (i + 1)) (before[i] :: after.drop (j + 1))
      (common before after (i + 1) (j + 1) + 1) :=
    (common_isLongest hafter (Nat.succ_le_of_lt hi) (Nat.succ_le_of_lt hj)).cons
  have hwhole := common_isLongest hafter (Nat.le_of_lt hi) (Nat.le_of_lt hj)
  rw [List.drop_eq_getElem_cons hi, List.drop_eq_getElem_cons hj, hsame] at hwhole
  exact hwhole.unique hrest

theorem common_differ (hline : before[i]? = some line) (hother : after[j]? = some other)
    (hdiffer : line ≠ other) : common before after i j =
      max (common before after (i + 1) j) (common before after i (j + 1)) := by
  obtain ⟨hi, rfl⟩ := List.getElem?_eq_some_iff.mp hline
  obtain ⟨hj, rfl⟩ := List.getElem?_eq_some_iff.mp hother
  have hbelow := common_isLongest hafter (Nat.succ_le_of_lt hi) (Nat.le_of_lt hj)
  have hright := common_isLongest hafter (Nat.le_of_lt hi) (Nat.succ_le_of_lt hj)
  have hwhole := common_isLongest hafter (Nat.le_of_lt hi) (Nat.le_of_lt hj)
  rw [List.drop_eq_getElem_cons hj] at hbelow
  rw [List.drop_eq_getElem_cons hi] at hright
  rw [List.drop_eq_getElem_cons hi, List.drop_eq_getElem_cons hj] at hwhole
  exact hwhole.unique (hbelow.skip hdiffer hright)

theorem common_end (hend : before[i]? = none ∨ after[j]? = none) (hi : i ≤ before.length)
    (hj : j ≤ after.length) : common before after i j = 0 := by
  have hwhole := common_isLongest hafter hi hj
  rw [List.getElem?_eq_none_iff, List.getElem?_eq_none_iff] at hend
  rcases hend with hend | hend
  · rw [List.drop_of_length_le hend] at hwhole
    exact hwhole.unique (isLongest_nil_left _)
  · rw [List.drop_of_length_le hend] at hwhole
    exact hwhole.unique (isLongest_nil_right _)

end Table

/-! ## The walk -/

/-- The places lie between the same matches. -/
def SameGap (matched : List (Nat × Nat)) (place : Nat × Nat) : Prop :=
  ∀ pair ∈ matched, pair.1 ≠ place.1 ∧ pair.2 ≠ place.2 ∧ (pair.1 < place.1 ↔ pair.2 < place.2)

/-- The matches so far are before the starts of the runs, and so are the changes, each in one
gap. -/
structure DiffLoop.Aligned (before after : List String) (loop : DiffLoop) (k l : Nat) : Prop where
  increasing : loop.matched.Pairwise fun left right => left.1 < right.1 ∧ left.2 < right.2
  lines : ∀ pair ∈ loop.matched, ∃ line, before[pair.1]? = some line ∧ after[pair.2]? = some line
  passed : ∀ pair ∈ loop.matched, pair.1 < k ∧ pair.2 < l
  changes : ∀ change ∈ loop.result.modified, ∃ place : Nat × Nat,
    (before[place.1]? = some change.before ∧ after[place.2]? = some change.after) ∧
      (place.1 < k ∧ place.2 < l) ∧ SameGap loop.matched place

section Walk

variable {before after : List String} {loop next : DiffLoop} {line : String} {k l : Nat}

/-- A line of a run is a line between its ends. -/
theorem SideAccount.mem_run {lines others run alone paired : List String} {start position : Nat}
    (haccount : SideAccount lines others start position run alone paired) (hline : line ∈ run) :
    ∃ place, start ≤ place ∧ place < position ∧ lines[place]? = some line := by
  rw [haccount.run_eq] at hline
  obtain ⟨offset, hoffset⟩ := List.mem_iff_getElem?.mp hline
  rw [List.getElem?_drop] at hoffset
  have hplace : start + offset < position := by
    by_contra hlate
    rw [List.getElem?_take_eq_none (not_lt.mp hlate)] at hoffset
    cases hoffset
  rw [List.getElem?_take_of_lt hplace] at hoffset
  exact ⟨start + offset, Nat.le_add_right _ _, hplace, hoffset⟩

theorem DiffLoop.Aligned.flush (haligned : loop.Aligned before after k l)
    (haccounted : loop.Accounted before after k l) :
    (loop.flush before after).Aligned before after loop.i loop.j where
  increasing := haligned.increasing
  lines := haligned.lines
  passed pair hpair := by
    have hpassed := haligned.passed pair hpair
    have hk := haccounted.removals.start_le
    have hl := haccounted.additions.start_le
    omega
  changes change hchange := by
    have hk := haccounted.removals.start_le
    have hl := haccounted.additions.start_le
    rcases List.mem_append.mp hchange with hold | hnew
    · obtain ⟨place, hlines, hbounds, hgap⟩ := haligned.changes change hold
      exact ⟨place, hlines, by omega, hgap⟩
    · -- Both lines come from the runs, which start after the last match.
      have hbefore : change.before ∈ loop.removedRun := by
        have hmem := List.mem_map_of_mem (f := LineChange.before) hnew
        rw [map_before_zipWith] at hmem
        exact (List.mem_filter.mp (List.mem_of_mem_take hmem)).1
      have hafter : change.after ∈ loop.addedRun := by
        have hmem := List.mem_map_of_mem (f := LineChange.after) hnew
        rw [map_after_zipWith] at hmem
        exact (List.mem_filter.mp (List.mem_of_mem_take hmem)).1
      obtain ⟨p, hkp, hpi, hp⟩ := haccounted.removals.mem_run hbefore
      obtain ⟨q, hlq, hqj, hq⟩ := haccounted.additions.mem_run hafter
      refine ⟨(p, q), ⟨hp, hq⟩, ⟨hpi, hqj⟩, fun pair hpair => ?_⟩
      have hpassed := haligned.passed pair hpair
      dsimp only
      omega

theorem DiffLoop.Aligned.step (haligned : loop.Aligned before after k l)
    (haccounted : loop.Accounted before after k l) (hbefore : before[loop.i]? = some line)
    (hafter : after[loop.j]? = some line) :
    (loop.step before after).Aligned before after (loop.i + 1) (loop.j + 1) := by
  have hflush := haligned.flush haccounted
  refine ⟨?_, ?_, ?_, ?_⟩
  · refine List.pairwise_append.mpr ⟨hflush.increasing, List.pairwise_singleton _ _, ?_⟩
    intro pair hpair last hlast
    obtain rfl := List.mem_singleton.mp hlast
    exact hflush.passed pair hpair
  · intro pair hpair
    rcases List.mem_append.mp hpair with hold | hlast
    · exact hflush.lines pair hold
    · obtain rfl := List.mem_singleton.mp hlast
      exact ⟨line, hbefore, hafter⟩
  · intro pair hpair
    rcases List.mem_append.mp hpair with hold | hlast
    · have hpassed := hflush.passed pair hold
      omega
    · obtain rfl := List.mem_singleton.mp hlast
      exact ⟨Nat.lt_succ_self _, Nat.lt_succ_self _⟩
  · intro change hchange
    obtain ⟨place, hlines, hbounds, hgap⟩ := hflush.changes change hchange
    refine ⟨place, hlines, by omega, fun pair hpair => ?_⟩
    rcases List.mem_append.mp hpair with hold | hlast
    · exact hgap pair hold
    · obtain rfl := List.mem_singleton.mp hlast
      dsimp only
      omega

/-- The accounts, the matches in their gaps, and the best that can still be reached. -/
def DiffLoop.OnOptimum (before after : List String) (loop : DiffLoop) : Prop :=
  (∃ k l, loop.Accounted before after k l ∧ loop.Aligned before after k l) ∧
    loop.matched.length + common before after loop.i loop.j = common before after 0 0

theorem diffStart_onOptimum : diffStart.OnOptimum before after := by
  refine ⟨⟨0, 0, ⟨.empty, .empty⟩, ?_⟩, Nat.zero_add _⟩
  exact ⟨List.Pairwise.nil, by simp [diffStart], by simp [diffStart], by simp [diffStart]⟩

/-- A round stays on a way to the optimum. -/
theorem DiffCase.onOptimum (hsize : after.length < 65536)
    (hcase : DiffCase before after (common before after) loop next)
    (hloop : loop.OnOptimum before after) : next.OnOptimum before after := by
  obtain ⟨⟨k, l, haccounted, haligned⟩, hbest⟩ := hloop
  have hi := haccounted.removals.position_le
  have hj := haccounted.additions.position_le
  cases hcase with
  | step hbefore hafter =>
      refine ⟨⟨_, _, haccounted.step hbefore hafter, haligned.step haccounted hbefore hafter⟩, ?_⟩
      have hlength : (loop.step before after).matched.length = loop.matched.length + 1 :=
        List.length_append
      rw [common_match hsize hbefore hafter, ← Nat.add_assoc, Nat.add_right_comm] at hbest
      rw [hlength]
      exact hbest
  | add hafter hchoice =>
      refine ⟨⟨k, l, haccounted.add hafter, ⟨haligned.increasing, haligned.lines, haligned.passed,
        haligned.changes⟩⟩, ?_⟩
      have hkept : common before after loop.i loop.j = common before after loop.i (loop.j + 1) := by
        cases hother : before[loop.i]? with
        | none =>
            have hnext : loop.j + 1 ≤ after.length := (haccounted.add hafter).additions.position_le
            rw [common_end hsize (.inl hother) hi hj, common_end hsize (.inl hother) hi hnext]
        | some other =>
            obtain ⟨hdiffer, htable⟩ := hchoice other hother
            rw [common_differ hsize hother hafter hdiffer, max_eq_right htable]
      exact hkept ▸ hbest
  | remove hbefore hchoice =>
      refine ⟨⟨k, l, haccounted.remove hbefore, ⟨haligned.increasing, haligned.lines,
        haligned.passed, haligned.changes⟩⟩, ?_⟩
      have hkept : common before after loop.i loop.j = common before after (loop.i + 1) loop.j := by
        cases hother : after[loop.j]? with
        | none =>
            have hnext : loop.i + 1 ≤ before.length :=
              (haccounted.remove hbefore).removals.position_le
            rw [common_end hsize (.inr hother) hi hj, common_end hsize (.inr hother) hnext hj]
        | some other =>
            obtain ⟨hdiffer, htable⟩ := hchoice other hother
            rw [common_differ hsize hbefore hother hdiffer, max_eq_left htable.le]
      exact hkept ▸ hbest

/-- If the second list is at most as long as those of `normalize`, whatever the length of the
first one, the table is exact, the matches are a longest common subsequence, and the two lines
of a change lie in the same gap between matches. -/
theorem diffLines_longest_common (hafter : after.length ≤ 500) :
    (∀ i ≤ before.length, ∀ j ≤ after.length,
      IsLongest (before.drop i) (after.drop j) (common before after i j)) ∧
    ∃ final, diffLoop before after = some final ∧
      diffLines before after = some (final.flush before after).result ∧
      final.matched.Pairwise (fun left right => left.1 < right.1 ∧ left.2 < right.2) ∧
      (∀ pair ∈ final.matched, ∃ line,
        before[pair.1]? = some line ∧ after[pair.2]? = some line) ∧
      IsLongest before after final.matched.length ∧
      ∀ change ∈ (final.flush before after).result.modified, ∃ place : Nat × Nat,
        (before[place.1]? = some change.before ∧ after[place.2]? = some change.after) ∧
          SameGap final.matched place := by
  have hsize : after.length < 65536 := by omega
  refine ⟨fun i hi j hj => common_isLongest hsize hi hj, ?_⟩
  obtain ⟨final, hfinal⟩ := Option.isSome_iff_exists.mp (diffLoop_isSome before after)
  obtain ⟨⟨⟨k, l, haccounted, haligned⟩, hbest⟩, hi, hj⟩ := diffWalk_invariant
    (fun loop next hloop hcase => hcase.onOptimum hsize hloop) diffStart_onOptimum hfinal
  have hflush := haligned.flush haccounted
  refine ⟨final, hfinal, by rw [diffLines, hfinal, Option.map_some], hflush.increasing,
    hflush.lines, ?_, ?_⟩
  · -- At the end nothing more can be reached.
    have hdone : common before after final.i final.j = 0 :=
      common_end hsize (.inl (List.getElem?_eq_none_iff.mpr hi)) haccounted.removals.position_le
        haccounted.additions.position_le
    have hall := common_isLongest hsize (Nat.zero_le before.length) (Nat.zero_le after.length)
    rw [← hbest, hdone, Nat.add_zero] at hall
    exact hall
  · intro change hchange
    obtain ⟨place, hlines, -, hgap⟩ := hflush.changes change hchange
    exact ⟨place, hlines, hgap⟩

/-- A line between two matches is replaced. -/
theorem diffLines_longest_common_replaced :
    IsLongest ["Scope", "All sites", "Roles"] ["Scope", "Sites", "Roles"]
        (common ["Scope", "All sites", "Roles"] ["Scope", "Sites", "Roles"] 0 0) ∧
      ∃ final, diffLoop ["Scope", "All sites", "Roles"] ["Scope", "Sites", "Roles"] = some final ∧
        SameGap final.matched (1, 1) := by
  obtain ⟨htable, final, hfinal, -⟩ := @diffLines_longest_common
    ["Scope", "All sites", "Roles"] ["Scope", "Sites", "Roles"] (by decide)
  refine ⟨htable 0 (by decide) 0 (by decide), final, hfinal, ?_⟩
  have hmatched : (diffLoop ["Scope", "All sites", "Roles"] ["Scope", "Sites", "Roles"]).map
      DiffLoop.matched = some [(0, 0), (2, 2)] := by
    decide
  rw [hfinal, Option.map_some, Option.some.injEq] at hmatched
  rw [hmatched]
  unfold SameGap
  decide

end Walk

end IsmsPortal
