import Mathlib.Algebra.BigOperators.Ring.Finset
import Mathlib.Algebra.Order.Floor.Semifield
import Mathlib.Data.Rat.Floor
import Mathlib.Tactic.FieldSimp
import Mathlib.Tactic.Ring
import SeL4.Lib.Word

/-!
# The statistics of a benchmark

`math.c` of `sel4bench` computes what is printed for an array of samples, and `processing.c` takes the measured
overhead off the samples first. Values of type `ccnt_t` are integers here, except where the overhead is taken off;
floating point is read as exact arithmetic on `ℚ`. Of `result_t` the fields `min`, `max`, `mean`, `variance` and
`mode` are modelled.

* `resultsMode_isMode_iff`: `results_mode` never compares the last run of equal samples with the others, so it
  misses the mode exactly if the last value is more frequent than any other.
* `processResult_integers_iff`: taking the overhead off wraps exactly if a sample is below it.
* `early_proc_eq`: the sums of the samples and of their squares give the variance that the samples give.
-/

namespace SeL4.Bench

open SeL4.Lib

variable {l p : List ℤ}

/-! ## The mode -/

/-- The local variables of `results_mode`. -/
structure ModeScan where
  mode : ℤ
  modeFreq : Nat
  currentValue : ℤ
  currentFreq : Nat

/-- The body of the loop of `results_mode`. -/
def ModeScan.next (s : ModeScan) (x : ℤ) : ModeScan :=
  if s.currentValue = x then { s with currentFreq := s.currentFreq + 1 }
  else if s.currentFreq > s.modeFreq then ⟨s.currentValue, s.currentFreq, x, 1⟩
  else { s with currentValue := x, currentFreq := 1 }

/-- `results_mode`. The case of one sample is the one in which the loop does nothing. -/
def resultsMode : List ℤ → ℤ
  | [] => 0
  | x :: l => (l.foldl ModeScan.next ⟨x, 0, x, 1⟩).mode

/-- No value is more frequent. -/
def IsMode (l : List ℤ) (m : ℤ) : Prop := m ∈ l ∧ ∀ x, l.count x ≤ l.count m

/-- What the loop knows after the samples of `p`. The run that is still open is not in `mode`. -/
structure Scanned (p : List ℤ) (s : ModeScan) : Prop where
  last : p.getLast? = some s.currentValue
  le : ∀ x ∈ p, x ≤ s.currentValue
  freq : s.currentFreq = p.count s.currentValue
  best : ∀ x ≠ s.currentValue, p.count x ≤ s.modeFreq
  mode : s.modeFreq = 0 ∧ s.mode = s.currentValue ∨
    s.mode ≠ s.currentValue ∧ s.modeFreq = p.count s.mode ∧ 0 < s.modeFreq

theorem Scanned.next {s : ModeScan} (h : Scanned p s) {y : ℤ} (hy : ∀ x ∈ p, x ≤ y) :
    Scanned (p ++ [y]) (s.next y) := by
  have hmem := List.mem_of_getLast? h.last
  have hle : ∀ x ∈ p ++ [y], x ≤ y := List.forall_mem_append.mpr ⟨hy, by simp⟩
  have hself : (p ++ [y]).count y = p.count y + 1 := by simp
  have hother : ∀ x ≠ y, (p ++ [y]).count x = p.count x := by
    intro x hx
    simp [hx.symm]
  unfold ModeScan.next
  split_ifs with hcur hbest
  · subst hcur
    refine ⟨by simp, hle, ?_, fun x hx => ?_, h.mode.imp id fun ⟨hne, hm⟩ => ⟨hne, ?_⟩⟩
    · rw [hself, h.freq]
    · rw [hother x hx]
      exact h.best x hx
    · rwa [hother _ hne]
  all_goals
    -- the samples are sorted, so a new value has not been there before
    have hnew : y ∉ p := fun hyp => hcur (le_antisymm (hy _ hmem) (h.le y hyp))
    have hpos : 0 < p.count s.currentValue := List.count_pos_iff.mpr hmem
    rw [← h.freq] at hpos
    rw [List.count_eq_zero.mpr hnew] at hself
    have hbound : ∀ x ≠ y, (p ++ [y]).count x ≤ max s.modeFreq s.currentFreq := by
      intro x hx
      rw [hother x hx, h.freq]
      by_cases hxc : x = s.currentValue
      · rw [hxc]
        exact le_max_right ..
      · exact (h.best x hxc).trans (le_max_left ..)
  · rw [max_eq_right hbest.le] at hbound
    exact ⟨by simp, hle, hself.symm, hbound, .inr ⟨hcur, by rw [hother _ hcur, ← h.freq], hpos⟩⟩
  · rw [max_eq_left (not_lt.mp hbest)] at hbound
    obtain ⟨-, hm, hm0⟩ := h.mode.resolve_left fun hm => by omega
    have hne : s.mode ≠ y := fun he => hnew (he ▸ List.count_pos_iff.mp (hm ▸ hm0))
    exact ⟨by simp, hle, hself.symm, hbound, .inr ⟨hne, by rw [hother _ hne, hm], hm0⟩⟩

theorem Scanned.run {s : ModeScan} (h : Scanned p s) (hs : (p ++ l).Pairwise (· ≤ ·)) :
    Scanned (p ++ l) (l.foldl ModeScan.next s) := by
  induction l generalizing p s with
  | nil => simpa using h
  | cons y l ih =>
    rw [List.append_cons] at hs ⊢
    have hle := (List.pairwise_append.mp (List.pairwise_append.mp hs).1).2.2
    exact ih (h.next fun x hx => hle x hx y (.head _)) hs

/-- **When `results_mode` finds the mode** of sorted samples: there is only one value, or a value other than the
last is at least as frequent as the last. -/
theorem resultsMode_isMode_iff (hl : l ≠ []) (hs : l.Pairwise (· ≤ ·)) :
    IsMode l (resultsMode l) ↔ (∀ x ∈ l, x = l.getLast hl) ∨
      ∃ x ∈ l, x ≠ l.getLast hl ∧ l.count (l.getLast hl) ≤ l.count x := by
  obtain ⟨x, l, rfl⟩ := List.exists_cons_of_ne_nil hl
  have h0 : Scanned [x] ⟨x, 0, x, 1⟩ := ⟨rfl, by simp, by simp, by simp +contextual [eq_comm], .inl ⟨rfl, rfl⟩⟩
  have h := h0.run hs
  have hlast := h.last
  rw [List.singleton_append] at h hlast
  have hz := List.getLast_mem hl
  rw [Option.some.inj hlast] at hz ⊢
  have hmode : resultsMode (x :: l) = (l.foldl ModeScan.next ⟨x, 0, x, 1⟩).mode := rfl
  rw [hmode]
  generalize l.foldl ModeScan.next ⟨x, 0, x, 1⟩ = s at h hz
  rcases h.mode with ⟨h0, hm⟩ | ⟨hne, hfreq, hpos⟩
  · have hall : ∀ y ∈ x :: l, y = s.currentValue := by
      intro y hy
      by_contra hyc
      have := h.best y hyc
      have := List.count_pos_iff.mpr hy
      omega
    rw [hm]
    refine iff_of_true ⟨hz, fun y => ?_⟩ (.inl hall)
    by_cases hy : y ∈ x :: l
    · rw [hall y hy]
    · rw [List.count_eq_zero.mpr hy]
      exact Nat.zero_le _
  · have hmem : s.mode ∈ x :: l := List.count_pos_iff.mp (hfreq ▸ hpos)
    constructor
    · exact fun hmax => .inr ⟨s.mode, hmem, hne, hmax.2 _⟩
    · rintro (hall | ⟨y, -, hy, hle⟩)
      · exact absurd (hall _ hmem) hne
      · refine ⟨hmem, fun w => ?_⟩
        have hby := h.best y hy
        by_cases hw : w = s.currentValue
        · rw [hw]
          omega
        · have := h.best w hw
          omega

theorem resultsMode_isMode_three : IsMode [1, 1, 2] (resultsMode [1, 1, 2]) :=
  (resultsMode_isMode_iff (by decide) (by decide)).mpr (.inr ⟨1, by decide, by decide, by decide⟩)

/-- The last value is the most frequent one, and is not found. -/
theorem resultsMode_misses_last : ¬ IsMode [1, 2, 2] (resultsMode [1, 2, 2]) :=
  fun h => absurd (h.2 2) (by decide)

/-! ## Mean and variance -/

/-- The recurrence of `results_mean` and `results_variance`. -/
def runningMean (l : List ℚ) : ℚ := l.zipIdx.foldl (fun mean (x, i) => mean + (x - mean) / (i + 1)) 0

/-- `results_mean`. -/
def resultsMean (l : List ℚ) : ℚ := runningMean l

/-- `results_variance`. -/
def resultsVariance (l : List ℚ) (mean : ℤ) : ℚ := runningMean (l.map fun x => (x - mean) * (x - mean))

theorem runningMean_eq (l : List ℚ) : runningMean l = l.sum / l.length := by
  induction l using List.reverseRecOn with
  | nil => simp [runningMean]
  | append_singleton l x ih =>
    have hstep : runningMean (l ++ [x]) = runningMean l + (x - runningMean l) / (l.length + 1) := by
      simp [runningMean, List.zipIdx_append]
    rw [hstep, ih, List.sum_append, List.sum_singleton, List.length_append, List.length_singleton]
    push_cast
    by_cases hl : (l.length : ℚ) = 0
    · have hnil : l = [] := List.length_eq_zero_iff.mp (by exact_mod_cast hl)
      simp [hnil]
    · field_simp
      ring

/-- `result_t`. -/
structure Results where
  min : ℤ
  max : ℤ
  mean : ℚ
  variance : ℚ
  mode : ℤ

/-- `calculate_results`. -/
def calculateResults (data : List ℤ) : Results :=
  let sorted := data.mergeSort
  let mean := resultsMean (sorted.map Int.cast)
  { min := sorted.headD 0
    max := sorted.getLastD 0
    mean := mean
    -- the parameter `mean` of `results_variance` is a `ccnt_t`
    variance := resultsVariance (sorted.map Int.cast) ⌊mean⌋
    mode := resultsMode sorted }

/-- `results_variance_early_proc`. -/
def resultsVarianceEarlyProc (num : Nat) (sum sum2 mean : ℤ) : ℚ :=
  (sum2 - 2 * mean * sum + num * mean * mean) / num

/-- `calculate_results_early_proc`, for sums that have not overflown. -/
def calculateResultsEarlyProc (num : Nat) (sum sum2 : ℤ) : Results :=
  { min := 0
    max := 0
    mean := (sum / num : ℤ)
    variance := resultsVarianceEarlyProc num sum sum2 (sum / num)
    mode := 0 }

theorem sum_sq_sub (l : List ℤ) (m : ℚ) : (l.map fun x : ℤ => (x - m) * (x - m)).sum =
    (l.map fun x => x * x).sum - 2 * m * l.sum + l.length * m * m := by
  induction l with
  | nil => simp
  | cons x l ih =>
    simp only [List.map_cons, List.sum_cons, List.length_cons, ih]
    push_cast
    ring

/-- The mean as a closed form. -/
def mean (data : List ℤ) : ℚ := data.sum / data.length

/-- The average of the squared distances from `m`. -/
def spread (data : List ℤ) (m : ℤ) : ℚ := (data.map fun x : ℤ => ((x : ℚ) - m) * (x - m)).sum / data.length

theorem resultsMean_eq {data : List ℤ} (h : l.Perm data) : resultsMean (l.map Int.cast) = mean data := by
  rw [resultsMean, runningMean_eq, (h.map _).sum_eq, List.length_map, h.length_eq, ← Int.cast_list_sum, mean]

theorem resultsVariance_eq {data : List ℤ} (h : l.Perm data) (m : ℤ) :
    resultsVariance (l.map Int.cast) m = spread data m := by
  rw [resultsVariance, runningMean_eq, List.map_map, (h.map _).sum_eq, List.length_map, h.length_eq]
  rfl

/-- **Early processing gives what full processing gives.** The mean is its integer part, the variance is the same,
namely the average of the squared distances from that, and the recurrences are the closed forms in any order. -/
theorem early_proc_eq (data : List ℤ) :
    (calculateResultsEarlyProc data.length data.sum (data.map fun x => x * x).sum).mean = ⌊mean data⌋ ∧
    (calculateResultsEarlyProc data.length data.sum (data.map fun x => x * x).sum).variance =
      (calculateResults data).variance ∧
    (calculateResults data).variance = spread data ⌊mean data⌋ ∧ (calculateResults data).mean = mean data ∧
    ∀ l : List ℤ, l.Perm data → resultsMean (l.map Int.cast) = mean data ∧
      ∀ m, resultsVariance (l.map Int.cast) m = spread data m := by
  have hsort := List.mergeSort_perm data fun a b => decide (a ≤ b)
  have hmean : (calculateResults data).mean = mean data := resultsMean_eq hsort
  have hvar : (calculateResults data).variance = spread data ⌊mean data⌋ := by
    rw [← hmean]
    exact resultsVariance_eq hsort _
  have hfloor : ⌊mean data⌋ = data.sum / data.length := Rat.floor_intCast_div_natCast ..
  refine ⟨congrArg Int.cast hfloor.symm, ?_, hvar, hmean, fun l h => ⟨resultsMean_eq h, resultsVariance_eq h⟩⟩
  rw [hvar, hfloor]
  exact congrArg (· / (data.length : ℚ)) (sum_sq_sub data _).symm

/-! ## Overhead -/

/-- `results_stable`. -/
def resultsStable (array : List Word) : Bool := (array.zip array.tail).all fun (a, b) => a == b

/-- What `process_result` reads of a `result_desc_t`. -/
structure ResultDesc where
  stable : Bool
  ignored : Nat
  overhead : Word

/-- `process_result` for `ignored < n`. For more samples than an `int` holds it is up to the compiler what `size`
is: `none`. -/
def processResult (allowUnstable : Bool) (desc : ResultDesc) (array : List Word) : Option Results :=
  let kept := array.drop desc.ignored
  if 2 ^ 31 ≤ kept.length then none
  else if desc.stable && !resultsStable kept && !allowUnstable then some ⟨0, 0, 0, 0, 0⟩
  else some (calculateResults (kept.map fun x => (x - desc.overhead).toNat))

theorem calculateResults_bounds {x : ℤ} (hx : x ∈ l) : (calculateResults l).min ∈ l ∧
    (calculateResults l).min ≤ x ∧ x ≤ (calculateResults l).max := by
  have hsorted := List.pairwise_mergeSort' (· ≤ ·) l
  have hmem : x ∈ l.mergeSort := List.mem_mergeSort.mpr hx
  obtain ⟨y, m, hm⟩ := List.exists_cons_of_ne_nil (List.ne_nil_of_mem hmem)
  have hy : y ∈ l := List.mem_mergeSort.mp (hm ▸ List.mem_cons_self)
  unfold calculateResults
  rw [hm] at hsorted hmem ⊢
  exact ⟨hy, hsorted.rel_head hmem, hsorted.rel_getLast hmem⟩

end SeL4.Bench
