import Mathlib.Logic.Function.Iterate
import RunReport.Format
import RunReport.Statistics.Row
/-!
# Percentages and bars

What a row of statistics shows of its counts. Bars are shaved until they fit, a tenth from the
widest each time: the loop ends, it takes nothing from a bar that is not among the widest, and so
every count that is not zero keeps its least width. A percentage is compared with the whole before
it is shown, but the whole is a sum that stays at the largest number that fits 64 bits: a count of
that size is taken for all there is, whatever the other counts are.
-/

namespace RunReport

namespace PerOutcome

variable {α β : Type}

/-- The value for an outcome; tests that did not run are skipped. -/
def of (p : PerOutcome α) : Status → α
  | .pass => p.pass
  | .fail => p.fail
  | .notRun => p.skip

theorem of_map (f : α → β) (p : PerOutcome α) (o : Status) : (p.map f).of o = f (p.of o) := by
  cases o <;> rfl

variable {w : PerOutcome Nat}

theorem of_le_largest (w : PerOutcome Nat) (o : Status) : w.of o ≤ w.largest := by
  cases o <;> simp only [of, largest] <;> omega

theorem largest_le {n : Nat} (h : ∀ o, w.of o ≤ n) : w.largest ≤ n := by
  have pass := h .pass
  have fail := h .fail
  have skip := h .notRun
  simp only [of] at pass fail skip
  simp only [largest]
  omega

theorem of_lt_sum {o other : Status} (different : other ≠ o) (some : 0 < w.of other) :
    w.of o < w.sum := by
  cases o <;> cases other <;> first
    | exact absurd rfl different
    | (simp only [of, sum] at some ⊢; omega)

/-- The widest holds at least a third. -/
theorem sum_le_largest (w : PerOutcome Nat) : w.sum ≤ 3 * w.largest := by
  have pass := w.of_le_largest .pass
  have fail := w.of_le_largest .fail
  have skip := w.of_le_largest .notRun
  simp only [of] at pass fail skip
  rw [sum]
  omega

end PerOutcome

namespace Share

variable {w start : PerOutcome Nat} {o : Status}

/-! ## One round -/

/-- A round takes a tenth from one of the widest and leaves the others alone. -/
theorem shave_takes (some : 0 < w.sum) : ∃ widest, w.of widest = w.largest ∧
    (shave w).of widest + 1 = w.of widest ∧ ∀ o, o ≠ widest → (shave w).of o = w.of o := by
  have third := w.sum_le_largest
  have positive : 0 < w.largest := by omega
  rw [shave]
  split
  · rename_i here
    refine ⟨.pass, here, ?_, ?_⟩
    · simp only [PerOutcome.of]
      omega
    · intro o other
      cases o <;> first | rfl | exact absurd rfl other
  · split
    · rename_i here
      refine ⟨.notRun, here, ?_, ?_⟩
      · simp only [PerOutcome.of]
        omega
      · intro o other
        cases o <;> first | rfl | exact absurd rfl other
    · rename_i pass skip
      have here : w.fail = w.largest := by
        simp only [PerOutcome.largest] at pass skip ⊢
        omega
      refine ⟨.fail, here, ?_, ?_⟩
      · simp only [PerOutcome.of]
        omega
      · intro o other
        cases o <;> first | rfl | exact absurd rfl other

theorem sum_shave (some : 0 < w.sum) : (shave w).sum + 1 = w.sum := by
  obtain ⟨widest, -, less, others⟩ := shave_takes some
  have pass := others .pass
  have fail := others .fail
  have skip := others .notRun
  cases widest <;> simp_all [PerOutcome.of, PerOutcome.sum] <;> omega

/-- What rounds of shaving keep true: no bar grows, what was wide enough stays so, and a bar that
has lost width is within a tenth of the widest. -/
structure Shaved (start w : PerOutcome Nat) : Prop where
  le : ∀ o, w.of o ≤ start.of o
  wide : ∀ o, 10 ≤ start.of o → 10 ≤ w.of o
  even : ∀ o, w.of o < start.of o → w.largest ≤ w.of o + 1

theorem shaved_refl (start : PerOutcome Nat) : Shaved start start :=
  ⟨fun _ => Nat.le_refl _, fun _ wide => wide, fun _ less => absurd less (Nat.lt_irrefl _)⟩

theorem Shaved.round (h : Shaved start w) (excess : wholeTenths < w.sum) :
    Shaved start (shave w) := by
  obtain ⟨widest, most, less, others⟩ := shave_takes (Nat.zero_lt_of_lt excess)
  have third := w.sum_le_largest
  have whole : wholeTenths = 1000 := rfl
  have bound : (shave w).largest ≤ w.largest := by
    apply PerOutcome.largest_le
    intro o
    have here := w.of_le_largest o
    by_cases same : o = widest
    · subst same
      omega
    · rw [others o same]
      exact here
  constructor
  · intro o
    have before := h.le o
    by_cases same : o = widest
    · subst same
      omega
    · rw [others o same]
      exact before
  · intro o wide
    by_cases same : o = widest
    · -- The widest of bars that do not fit is far above the least width.
      subst same
      omega
    · rw [others o same]
      exact h.wide o wide
  · intro o lost
    by_cases same : o = widest
    · subst same
      omega
    · rw [others o same] at lost ⊢
      have even := h.even o lost
      omega

/-! ## All rounds -/

/-- What every round keeps that starts with bars that do not fit is kept by all of them. -/
theorem rounds_keep {P : Nat → PerOutcome Nat → Prop} (first : P 0 w)
    (round : ∀ m v, wholeTenths < v.sum → P m v → P (m + 1) (shave v)) {rounds : Nat}
    (excess : ∀ m < rounds, wholeTenths < (shave^[m] w).sum) : P rounds (shave^[rounds] w) := by
  induction rounds with
  | zero => exact first
  | succ rounds ih =>
    rw [Function.iterate_succ_apply']
    exact round rounds _ (excess rounds (by omega)) (ih fun m less => excess m (by omega))

theorem shaved_iterate {rounds : Nat}
    (excess : ∀ m < rounds, wholeTenths < (shave^[m] w).sum) : Shaved w (shave^[rounds] w) :=
  rounds_keep (P := fun _ v => Shaved w v) (shaved_refl w) (fun _ _ more h => h.round more) excess

theorem sum_iterate {rounds : Nat} (excess : ∀ m < rounds, wholeTenths < (shave^[m] w).sum) :
    (shave^[rounds] w).sum + rounds = w.sum := by
  refine rounds_keep (P := fun m v => v.sum + m = w.sum) rfl ?_ excess
  intro m v more before
  have less := sum_shave (Nat.zero_lt_of_lt more)
  omega

/-- With a round for every tenth of what is too much, shaving ends because the bars fit. -/
theorem shaveFrom_ends {fuel : Nat} (enough : w.sum ≤ wholeTenths + fuel) :
    ∃ rounds, shaveFrom fuel w = shave^[rounds] w ∧
      (∀ m < rounds, wholeTenths < (shave^[m] w).sum) ∧
      (shave^[rounds] w).sum ≤ wholeTenths := by
  induction fuel generalizing w with
  | zero => exact ⟨0, rfl, by simp, enough⟩
  | succ fuel ih =>
    rw [shaveFrom]
    split
    · rename_i fits
      exact ⟨0, rfl, by simp, fits⟩
    · rename_i excess
      have less := sum_shave (w := w) (by omega)
      obtain ⟨rounds, ended, exceeds, fits⟩ := ih (w := shave w) (by omega)
      refine ⟨rounds + 1, ended, ?_, fits⟩
      intro m inside
      cases m with
      | zero => exact Nat.lt_of_not_le excess
      | succ m => exact exceeds m (by omega)

/-! ## Percentages -/

/-- The sum of the counts, or the largest number that fits. -/
theorem total_eq (counts : PerOutcome Nat) : total counts = min counts.sum Json.maxU64 := by
  simp only [total, saturatingAdd, PerOutcome.sum]
  omega

theorem percentTenths_eq_zero {count whole : Nat} : percentTenths count whole = 0 ↔ count = 0 := by
  rw [percentTenths]
  split
  · simpa
  · have tenths : wholeTenths = 1000 := rfl
    simp only
    split
    · omega
    · split <;> omega

/-- A part is never shown as the whole. -/
theorem percentTenths_of_lt {count whole : Nat} (part : count < whole) :
    percentTenths count whole < wholeTenths := by
  have tenths : wholeTenths = 1000 := rfl
  simp only [percentTenths, part, decide_true, Bool.and_true]
  split
  · omega
  · split
    · omega
    · split
      · omega
      · rename_i small
        simpa using small

theorem percents_of (counts : PerOutcome Nat) (o : Status) :
    (percents counts).of o = percentTenths (counts.of o) (total counts) := by
  rw [percents]
  split
  · rename_i nothing
    have zero : counts.of o = 0 := by
      rw [total_eq] at nothing
      have bound : 0 < Json.maxU64 := by decide
      cases o <;> simp only [PerOutcome.of, PerOutcome.sum] at nothing ⊢ <;> omega
    rw [zero, percentTenths, if_pos rfl]
    cases o <;> rfl
  · exact PerOutcome.of_map ..

theorem raised_eq_zero {percent : Nat} : raised percent = 0 ↔ percent = 0 := by
  rw [raised]
  split
  · rename_i small
    simp only [Bool.and_eq_true, decide_eq_true_eq] at small
    omega
  · exact Iff.rfl

theorem raised_wide {percent : Nat} (some : percent ≠ 0) : 10 ≤ raised percent := by
  rw [raised]
  split
  · exact Nat.le_refl _
  · rename_i large
    simp only [Bool.and_eq_true, decide_eq_true_eq] at large
    omega

/-! ## Bars -/

/-- Whatever the counts are, the bars of a row come from its percentages, raised to the least width,
by finitely many rounds of shaving, each of which starts with bars that do not fit; the last one
leaves bars that do. A count of zero has no bar and every other count one of at least the least
width. Bars that fit are not shaved; others end up filling the whole, none is wider than before, and
one that lost width is within a tenth of the widest. -/
theorem bars_fit (label : String) (counts : PerOutcome Nat) :
    let row := StatisticRow.ofCounts label counts
    let wanted := row.percents.map raised
    (∃ rounds, row.widths = shave^[rounds] wanted ∧
      ∀ m < rounds, wholeTenths < (shave^[m] wanted).sum) ∧
    row.widths.sum ≤ wholeTenths ∧
    (∀ o, counts.of o = 0 → row.widths.of o = 0) ∧
    (∀ o, counts.of o ≠ 0 → 10 ≤ row.widths.of o) ∧
    (wanted.sum ≤ wholeTenths → row.widths = wanted) ∧
    (wholeTenths < wanted.sum → row.widths.sum = wholeTenths ∧
      (∀ o, row.widths.of o ≤ wanted.of o) ∧
      ∀ o, row.widths.of o < wanted.of o → row.widths.largest ≤ row.widths.of o + 1) := by
  intro row wanted
  have start : ∀ o, wanted.of o = raised (percentTenths (counts.of o) (total counts)) := by
    intro o
    rw [PerOutcome.of_map, ← percents_of]
    rfl
  obtain ⟨rounds, ended, excess, fits⟩ := shaveFrom_ends (w := wanted) (Nat.le_add_left _ _)
  have widths : row.widths = shave^[rounds] wanted := ended
  have shaved := shaved_iterate excess
  have sums := sum_iterate excess
  rw [← widths] at fits shaved sums
  refine ⟨⟨rounds, widths, excess⟩, fits, ?_, ?_, ?_, ?_⟩
  · intro o zero
    have nothing : wanted.of o = 0 := by
      rw [start, raised_eq_zero, percentTenths_eq_zero]
      exact zero
    have less := shaved.le o
    omega
  · intro o some
    apply shaved.wide
    rw [start]
    exact raised_wide fun none => some (percentTenths_eq_zero.1 none)
  · intro fit
    cases rounds with
    | zero => exact widths
    | succ rounds => exact absurd fit (Nat.not_le_of_lt (excess 0 (Nat.succ_pos _)))
  · intro many
    refine ⟨?_, shaved.le, shaved.even⟩
    cases rounds with
    | zero => omega
    | succ rounds =>
      -- Before the last round the bars were still too wide, so it left them at the whole.
      have before := sum_iterate fun m less => excess m (Nat.lt_succ_of_lt less)
      have last := excess rounds (Nat.lt_succ_self rounds)
      omega

example : (StatisticRow.ofCounts "x" ⟨5005, 4995, 0⟩).widths = ⟨500, 500, 0⟩ := by decide +kernel

/-! ## Mixed results -/

/-- The largest count is taken for the whole. -/
theorem percentTenths_largest : percentTenths Json.maxU64 Json.maxU64 = wholeTenths := by
  decide +kernel

/-- Among two outcomes no count is all there is. -/
theorem sum_of_mixed {counts : PerOutcome UInt64}
    (mixed : ∃ a b, a ≠ b ∧ counts.of a ≠ 0 ∧ counts.of b ≠ 0) (o : Status) :
    (counts.of o).toNat < (counts.map UInt64.toNat).sum := by
  obtain ⟨other, different, some⟩ : ∃ other, other ≠ o ∧ counts.of other ≠ 0 := by
    obtain ⟨a, b, different, first, second⟩ := mixed
    by_cases same : a = o
    · exact ⟨b, fun equal => different (same.trans equal.symm), second⟩
    · exact ⟨a, same, first⟩
  have positive : (counts.of other).toNat ≠ 0 := fun zero => some (UInt64.toNat_inj.1 zero)
  rw [← PerOutcome.of_map UInt64.toNat counts]
  apply PerOutcome.of_lt_sum different
  rw [PerOutcome.of_map]
  exact Nat.pos_of_ne_zero positive

/-- In a row with at least two outcomes a count short of the largest number that fits 64 bits shows
less than the whole; a count of that size shows the whole. -/
theorem mixed_row_shows_part_below_largest (label : String) (counts : PerOutcome UInt64)
    (mixed : ∃ a b, a ≠ b ∧ counts.of a ≠ 0 ∧ counts.of b ≠ 0) (o : Status) :
    let row := StatisticRow.ofCounts label (counts.map UInt64.toNat)
    ((counts.of o).toNat ≠ Json.maxU64 → row.percents.of o ≤ 999) ∧
      ((counts.of o).toNat = Json.maxU64 → row.percents.of o = 1000) := by
  intro row
  have shown : row.percents.of o =
      percentTenths (counts.of o).toNat (total (counts.map UInt64.toNat)) := by
    have percent := percents_of (counts.map UInt64.toNat) o
    rw [PerOutcome.of_map] at percent
    exact percent
  have fits : (counts.of o).toNat ≤ Json.maxU64 := Nat.le_of_lt_succ (counts.of o).toNat_lt
  have more := sum_of_mixed mixed o
  rw [shown, total_eq]
  constructor
  · intro short
    exact Nat.le_of_lt_succ (percentTenths_of_lt (by omega))
  · intro largest
    rw [largest, Nat.min_eq_right (by omega)]
    exact percentTenths_largest

theorem mixed_row_shows_part_below_largest_sample :
    (StatisticRow.ofCounts "x" ⟨2000, 1, 0⟩).percents.of .pass ≤ 999 :=
  (mixed_row_shows_part_below_largest "x" ⟨2000, 1, 0⟩
    ⟨.pass, .fail, by decide, by decide, by decide⟩ .pass).1 (by decide)

/-- A count of the largest number beside a single failure shows the whole. -/
theorem largest_count_hides_failure : ¬∀ (counts : PerOutcome UInt64),
    (∃ a b, a ≠ b ∧ counts.of a ≠ 0 ∧ counts.of b ≠ 0) →
    ∀ o, (StatisticRow.ofCounts "x" (counts.map UInt64.toNat)).percents.of o ≤ 999 := by
  intro parts
  have shown := parts ⟨0xFFFFFFFFFFFFFFFF, 1, 0⟩ ⟨.pass, .fail, by decide, by decide, by decide⟩ .pass
  revert shown
  decide +kernel

end Share

end RunReport
