import Mathlib.Algebra.BigOperators.Group.List.Basic
import Mathlib.Algebra.BigOperators.Ring.List
import Mathlib.Algebra.Order.BigOperators.Group.List
import Mathlib.MeasureTheory.Measure.Lebesgue.Basic

/-!
# The arms of a weighted split

Weights that are not negative and not all zero cut the unit interval at their normalised
partial sums, the thresholds. An arm is what lies between two successive ones. Only the
ratios of the weights count; and a position changes its arm from one weighting to another
only if one of the thresholds passes it.

* `exists_arm`, `arm_unique`: the arms divide the unit interval.
* `threshold_scale`: a common factor moves no threshold.
* `between_of_moved`: a position that changes its arm lies between two values of a threshold.
* `share_lt_of_moved`: of two arms, the one a position moves to has grown.
* `volume_moved_le`: how much changes its arm.
-/

namespace Split

open Set

section Arms

variable {K : Type*} [Field K]

/-- The share of the first `i` weights together. -/
def threshold (ws : List K) (i : ℕ) : K := (ws.take i).sum / ws.sum

@[simp] theorem threshold_zero (ws : List K) : threshold ws 0 = 0 := by
  simp [threshold]

theorem threshold_succ {ws : List K} {i : ℕ} (hi : i < ws.length) :
    threshold ws (i + 1) = threshold ws i + ws[i] / ws.sum := by
  rw [threshold, threshold, List.sum_take_succ _ _ hi, add_div]

/-- The share of an arm is the length of its interval. -/
theorem arm_length {ws : List K} {i : ℕ} (hi : i < ws.length) :
    threshold ws (i + 1) - threshold ws i = ws[i] / ws.sum := by
  rw [threshold_succ hi]
  ring

/-- **A common factor moves no threshold.** -/
theorem threshold_scale {c : K} (hc : c ≠ 0) (ws : List K) (i : ℕ) :
    threshold (ws.map (c * ·)) i = threshold ws i := by
  rw [threshold, threshold, ← List.map_take, List.sum_map_mul_left, List.sum_map_mul_left,
    List.map_id', List.map_id']
  exact mul_div_mul_left _ _ hc

variable [LinearOrder K]

/-- The positions of the arm `i`. -/
def arm (ws : List K) (i : ℕ) : Set K := Ico (threshold ws i) (threshold ws (i + 1))

/-- Weights that divide: none is negative and not all are zero. -/
structure Divides (ws : List K) : Prop where
  nonneg : ∀ w ∈ ws, 0 ≤ w
  pos : 0 < ws.sum

variable {ws ws' : List K} {i j : ℕ} {u : K}

theorem threshold_length (hw : Divides ws) (hi : ws.length ≤ i) : threshold ws i = 1 := by
  rw [threshold, List.take_of_length_le hi]
  exact div_self hw.pos.ne'

variable [IsStrictOrderedRing K]

theorem threshold_mono (hw : Divides ws) : Monotone (threshold ws) := by
  refine monotone_nat_of_le_succ fun i => ?_
  rcases Nat.lt_or_ge i ws.length with hi | hi
  · have hpos : 0 ≤ ws[i] / ws.sum := div_nonneg (hw.nonneg _ (List.getElem_mem hi)) hw.pos.le
    rw [threshold_succ hi]
    linarith
  · rw [threshold_length hw hi, threshold_length hw (by omega)]

omit [IsStrictOrderedRing K] in
/-- There are as many arms as weights. -/
theorem lt_length_of_mem (hw : Divides ws) (hu : u ∈ arm ws i) : i < ws.length := by
  by_contra hi
  have h1 : threshold ws i = 1 := threshold_length hw (by omega)
  have h2 : threshold ws (i + 1) = 1 := threshold_length hw (by omega)
  rw [arm, h1, h2] at hu
  exact lt_irrefl _ (hu.1.trans_lt hu.2)

theorem mem_unit_of_mem (hw : Divides ws) (hu : u ∈ arm ws i) : 0 ≤ u ∧ u < 1 := by
  have hi := lt_length_of_mem hw hu
  have h0 : threshold ws 0 ≤ threshold ws i := threshold_mono hw (Nat.zero_le i)
  have h1 : threshold ws (i + 1) ≤ threshold ws ws.length := threshold_mono hw hi
  rw [threshold_zero] at h0
  rw [threshold_length hw le_rfl] at h1
  exact ⟨h0.trans hu.1, hu.2.trans_le h1⟩

omit [IsStrictOrderedRing K] in
/-- **Every position of the unit interval is in an arm.** -/
theorem exists_arm (hw : Divides ws) (hu0 : 0 ≤ u) (hu1 : u < 1) :
    ∃ i, i < ws.length ∧ u ∈ arm ws i := by
  have hex : ∃ k, u < threshold ws k := ⟨ws.length, by rwa [threshold_length hw le_rfl]⟩
  classical
  have hlast : Nat.find hex ≤ ws.length := Nat.find_min' hex (by rwa [threshold_length hw le_rfl])
  have hfind := Nat.find_spec hex
  -- the first threshold beyond the position is not the one at zero
  have hpos : Nat.find hex ≠ 0 := by
    intro h0
    rw [h0, threshold_zero] at hfind
    exact absurd hfind (not_lt.2 hu0)
  obtain ⟨i, hi⟩ := Nat.exists_eq_succ_of_ne_zero hpos
  have hle : threshold ws i ≤ u := not_lt.1 (Nat.find_min hex (by omega))
  rw [hi] at hfind
  exact ⟨i, by omega, hle, hfind⟩

/-- **No position is in two arms.** -/
theorem arm_unique (hw : Divides ws) (hi : u ∈ arm ws i) (hj : u ∈ arm ws j) : i = j := by
  have hlt : ∀ {a b : ℕ}, u ∈ arm ws a → u ∈ arm ws b → ¬a < b := by
    intro a b ha hb hab
    have hstep : threshold ws (a + 1) ≤ threshold ws b := threshold_mono hw hab
    exact lt_irrefl _ ((ha.2.trans_le hstep).trans_le hb.1)
  have h1 := hlt hi hj
  have h2 := hlt hj hi
  omega

omit [IsStrictOrderedRing K] in
theorem arm_eq_empty (hi : i < ws.length) (h0 : ws[i] = 0) : arm ws i = ∅ := by
  have heq : threshold ws (i + 1) = threshold ws i := by
    rw [threshold_succ hi, h0]
    simp
  rw [arm, heq, Ico_self]

/-! ## From one weighting to another -/

/-- **A position that changes its arm lies between the two values of a threshold.** -/
theorem between_of_moved (hw : Divides ws) (hw' : Divides ws') (hi : u ∈ arm ws i)
    (hj : u ∈ arm ws' j) (hne : i ≠ j) :
    ∃ k, 0 < k ∧ k ≤ max i j ∧
      min (threshold ws k) (threshold ws' k) ≤ u ∧ u < max (threshold ws k) (threshold ws' k) := by
  rcases Nat.lt_or_gt_of_ne hne with hij | hij
  · have hstep : threshold ws' (i + 1) ≤ threshold ws' j := threshold_mono hw' hij
    exact ⟨i + 1, by omega, by omega, (min_le_right _ _).trans (hstep.trans hj.1),
      lt_max_of_lt_left hi.2⟩
  · have hstep : threshold ws (j + 1) ≤ threshold ws i := threshold_mono hw hij
    exact ⟨j + 1, by omega, by omega, (min_le_left _ _).trans (hstep.trans hi.1),
      lt_max_of_lt_right hj.2⟩

/-- **Of two arms, the one a position moves to has grown.** -/
theorem share_lt_of_moved (hw : Divides ws) (hw' : Divides ws') (hlen : ws.length = 2)
    (hlen' : ws'.length = 2) (hi : u ∈ arm ws i) (hj : u ∈ arm ws' j) (hne : i ≠ j) :
    threshold ws (j + 1) - threshold ws j < threshold ws' (j + 1) - threshold ws' j := by
  have hi2 := lt_length_of_mem hw hi
  have hj2 := lt_length_of_mem hw' hj
  have h2 : threshold ws 2 = 1 := threshold_length hw (by omega)
  have h2' : threshold ws' 2 = 1 := threshold_length hw' (by omega)
  -- the one threshold between the arms passed the position
  rcases Nat.lt_or_gt_of_ne hne with hij | hij
  · obtain rfl : i = 0 := by omega
    obtain rfl : j = 1 := by omega
    have hpass : threshold ws' 1 < threshold ws 1 := hj.1.trans_lt hi.2
    rw [h2, h2']
    linarith
  · obtain rfl : i = 1 := by omega
    obtain rfl : j = 0 := by omega
    have hpass : threshold ws 1 < threshold ws' 1 := hi.1.trans_lt hj.2
    simp only [zero_add, threshold_zero, sub_zero]
    exact hpass

end Arms

section Measure

open MeasureTheory

variable {ws ws' : List ℝ}

/-- The positions whose arm in one weighting is not their arm in the other. -/
def moved (ws ws' : List ℝ) : Set ℝ := {u | ∃ i j, u ∈ arm ws i ∧ u ∈ arm ws' j ∧ i ≠ j}

/-- The positions between the two values of a threshold. -/
def passed (ws ws' : List ℝ) (k : ℕ) : Set ℝ :=
  Ico (min (threshold ws k) (threshold ws' k)) (max (threshold ws k) (threshold ws' k))

theorem moved_subset (hw : Divides ws) (hw' : Divides ws') (hlen : ws'.length = ws.length) :
    moved ws ws' ⊆ ⋃ k ∈ Finset.range ws.length, passed ws ws' k := by
  rintro u ⟨i, j, hi, hj, hne⟩
  obtain ⟨k, -, hk, hmin, hmax⟩ := between_of_moved hw hw' hi hj hne
  have hilt := lt_length_of_mem hw hi
  have hjlt := lt_length_of_mem hw' hj
  have hklt : k < ws.length := by omega
  exact mem_biUnion (Finset.mem_coe.2 (Finset.mem_range.2 hklt)) ⟨hmin, hmax⟩

theorem volume_passed (k : ℕ) :
    volume (passed ws ws' k) = ENNReal.ofReal |threshold ws k - threshold ws' k| := by
  rw [passed, Real.volume_Ico, max_sub_min_eq_abs']

/-- **At most the sum of the shifts of the thresholds changes its arm.** -/
theorem volume_moved_le (hw : Divides ws) (hw' : Divides ws') (hlen : ws'.length = ws.length) :
    volume (moved ws ws') ≤
      ENNReal.ofReal (∑ k ∈ Finset.range ws.length, |threshold ws k - threshold ws' k|) := by
  calc volume (moved ws ws')
      ≤ volume (⋃ k ∈ Finset.range ws.length, passed ws ws' k) :=
        measure_mono (moved_subset hw hw' hlen)
    _ ≤ ∑ k ∈ Finset.range ws.length, volume (passed ws ws' k) := measure_biUnion_finset_le _ _
    _ = ∑ k ∈ Finset.range ws.length, ENNReal.ofReal |threshold ws k - threshold ws' k| :=
        Finset.sum_congr rfl fun k _ => volume_passed k
    _ = ENNReal.ofReal (∑ k ∈ Finset.range ws.length, |threshold ws k - threshold ws' k|) :=
        (ENNReal.ofReal_sum_of_nonneg fun k _ => abs_nonneg _).symm

theorem threshold_cast (ws : List ℚ) (i : ℕ) :
    threshold (ws.map (Rat.cast : ℚ → ℝ)) i = ((threshold ws i : ℚ) : ℝ) := by
  have hsum : ∀ l : List ℚ, (l.map (Rat.cast : ℚ → ℝ)).sum = ((l.sum : ℚ) : ℝ) := fun l =>
    (map_list_sum (Rat.castHom ℝ) l).symm
  rw [threshold, threshold, ← List.map_take, hsum, hsum, Rat.cast_div]

/-- A rational position is in the same arm on the real line. -/
theorem mem_arm_cast {ws : List ℚ} {i : ℕ} {u : ℚ} :
    (u : ℝ) ∈ arm (ws.map (Rat.cast : ℚ → ℝ)) i ↔ u ∈ arm ws i := by
  simp only [arm, mem_Ico, threshold_cast, Rat.cast_le, Rat.cast_lt]

end Measure

end Split
