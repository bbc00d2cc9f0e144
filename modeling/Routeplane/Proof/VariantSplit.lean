import Routeplane.Lib.Split
import Routeplane.Prompts.Registry

/-!
# The arms of a prompt's split

A cohort's hash is its position in the unit interval, and the walk finds the interval of the
position among those the normalised weights cut. Read with exact arithmetic, the walk is
that search and the rounding's remainder for the last arm is never reached.

* `validated_of_loadVariants`: what a split that is loaded satisfies.
* `exactArm_eq`: the walk finds the arm a position is in.
* `weighted_split`: scaling, shares and how little moves.
-/

namespace Routeplane.Prompts

open Fallible Split

/-! ## Splits that are loaded -/

/-- What the load checks of a split: no two of its arms have one label, and it has weight. -/
structure Validated (variants : List Variant) : Prop where
  labels : (variants.map (·.label)).Nodup
  total : 0 < (variants.map fun v => v.weight.toNat).sum

section Load

variable {rec : PromptRecord} {versions : Assoc UInt32 Version}

theorem nodup_of_loadVariant {variants variants' : List Variant} {vrec : VariantRecord}
    (h : loadVariant rec versions variants vrec = .ok variants')
    (hn : (variants.map (·.label)).Nodup) : (variants'.map (·.label)).Nodup := by
  unfold loadVariant at h
  obtain ⟨_, -, h⟩ := bind_eq_ok h
  obtain ⟨_, hfresh, h⟩ := bind_eq_ok h
  obtain ⟨_, -, h⟩ := bind_eq_ok h
  have hnew := (of_ensure hfresh).1
  rw [← Except.ok.inj h, List.map_append, List.nodup_append]
  refine ⟨hn, List.nodup_singleton _, fun label hlabel other hother => ?_⟩
  obtain ⟨v, hv, rfl⟩ := List.mem_map.1 hlabel
  obtain rfl := List.mem_singleton.1 hother
  exact hnew v hv

/-- **A split that is loaded is validated.** -/
theorem validated_of_loadVariants {variants : List Variant}
    (h : loadVariants rec versions = .ok variants) (hne : variants ≠ []) : Validated variants := by
  unfold loadVariants at h
  obtain ⟨_, -, h⟩ := bind_eq_ok h
  obtain ⟨loaded, hloaded, h⟩ := bind_eq_ok h
  obtain ⟨_, htotal, h⟩ := bind_eq_ok h
  obtain rfl := Except.ok.inj h
  have hweight := (of_ensure htotal).resolve_left hne
  have hlabels := of_foldlM (P := fun variants => (variants.map (·.label)).Nodup)
    (fun _ _ _ hstep hn => nodup_of_loadVariant hstep hn) hloaded List.nodup_nil
  exact ⟨hlabels, by omega⟩

end Load

/-! ## The walk with exact arithmetic -/

section Arm

variable {K : Type} [Add K] [Div K] [LT K] [DecidableLT K]

/-- The arm at the position `u`, with the arithmetic of `K`. -/
def armAt (weight : Variant → K) (ofTotal : ℕ → K) (zero u : K) (variants : List Variant) :
    Option Variant :=
  match variants with
  | [] => none
  | first :: _ =>
    let total := (variants.map fun v => v.weight.toNat).sum
    if total = 0 then some first
    else (walkArms weight u (ofTotal total) zero variants).or variants.getLast?

end Arm

/-- The gateway's assignment is this walk with its own numbers. -/
theorem assignVariant_eq (promptId : String) (variants : List Variant) (key : String) :
    assignVariant promptId variants (some key) =
      armAt (fun v => v.weight.toFloat) (fun total => total.toUInt64.toFloat) 0.0
        ((stableBucket promptId key).toFloat / ((0xffffffffffffffff : UInt64).toFloat + 1.0))
        variants := by
  cases variants <;> rfl

section Exact

variable {K : Type} [Field K] [LinearOrder K]

/-- The arm at the position `u`, with exact arithmetic. -/
def exactArm (u : K) (variants : List Variant) : Option Variant :=
  armAt (fun v => (v.weight.toNat : K)) (fun total => (total : K)) 0 u variants

/-- The weights of a split. -/
def weights (K : Type) [Field K] (variants : List Variant) : List K :=
  variants.map fun v => (v.weight.toNat : K)

end Exact

/-- The position of a cohort: its hash as a fraction of all hashes. -/
def position (promptId key : String) : ℚ := ((stableBucket promptId key).toNat : ℚ) / 2 ^ 64

/-- `assign_variant` with exact rationals. -/
def assignExact (promptId : String) (variants : List Variant) : Option String → Option Variant
  | none => variants.head?
  | some key => exactArm (position promptId key) variants

theorem position_mem (promptId key : String) :
    0 ≤ position promptId key ∧ position promptId key < 1 := by
  have hlt : (stableBucket promptId key).toNat < 2 ^ 64 := (stableBucket promptId key).toNat_lt
  have hlt' : ((stableBucket promptId key).toNat : ℚ) < 2 ^ 64 := by exact_mod_cast hlt
  refine ⟨by unfold position; positivity, ?_⟩
  rw [position, div_lt_one (by positivity)]
  exact hlt'

/-! ## The arm is the interval of the position -/

theorem weights_sum {K : Type} [Field K] (variants : List Variant) :
    (weights K variants).sum = ((variants.map fun v => v.weight.toNat).sum : ℕ) := by
  rw [Nat.cast_list_sum, List.map_map]
  rfl

/-- The share of an arm. -/
theorem arm_share {K : Type} [Field K] {variants : List Variant} {i : ℕ}
    (hi : i < variants.length) :
    threshold (weights K variants) (i + 1) - threshold (weights K variants) i =
      (variants[i].weight.toNat : K) / ((variants.map fun v => v.weight.toNat).sum : ℕ) := by
  have hi' : i < (weights K variants).length := by rwa [weights, List.length_map]
  rw [arm_length hi', weights_sum]
  simp only [weights, List.getElem_map]

section Walk

variable {K : Type} [Field K] [LinearOrder K] [IsStrictOrderedRing K]
  {variants variants' : List Variant} {i : ℕ} {u : K}

theorem Validated.divides (hv : Validated variants) : Divides (weights K variants) where
  nonneg w hw := by
    obtain ⟨v, -, rfl⟩ := List.mem_map.1 hw
    exact Nat.cast_nonneg _
  pos := by
    rw [weights_sum]
    exact_mod_cast hv.total

/-- **The walk stops at the arm whose sums enclose the position.** -/
theorem walkArms_eq_some {weight : Variant → K} {total : K} (hweight : ∀ v, 0 ≤ weight v)
    (htotal : 0 < total) {c : K} (hi : i < variants.length)
    (hlow : c + ((variants.take i).map weight).sum / total ≤ u)
    (hhigh : u < c + ((variants.take (i + 1)).map weight).sum / total) :
    walkArms weight u total c variants = some variants[i] := by
  induction variants generalizing i c with
  | nil => simp at hi
  | cons v variants ih =>
    cases i with
    | zero =>
      have hhit : u < c + weight v / total := by simpa using hhigh
      rw [walkArms, if_pos hhit]
      rfl
    | succ i =>
      simp only [List.take_succ_cons, List.map_cons, List.sum_cons, add_div, ← add_assoc]
        at hlow hhigh
      have hrest : 0 ≤ ((variants.take i).map weight).sum / total := by
        refine div_nonneg (List.sum_nonneg fun w hw => ?_) htotal.le
        obtain ⟨v', -, rfl⟩ := List.mem_map.1 hw
        exact hweight v'
      have hmiss : ¬u < c + weight v / total := by
        rw [not_lt]
        linarith
      have hi' : i < variants.length := by simpa using hi
      rw [walkArms, if_neg hmiss]
      exact ih hi' hlow hhigh

/-- **The arm of a position is the one whose interval it is in.** -/
theorem exactArm_eq (hv : Validated variants) (hi : i < variants.length)
    (hu : u ∈ arm (weights K variants) i) : exactArm u variants = some variants[i] := by
  have hsum := weights_sum (K := K) variants
  have hpos : (0 : K) < ((variants.map fun v => v.weight.toNat).sum : ℕ) := by
    exact_mod_cast hv.total
  have htake : ∀ k, ((variants.take k).map fun v => (v.weight.toNat : K)).sum =
      ((weights K variants).take k).sum := fun k => by rw [weights, List.map_take]
  have hwalk : walkArms (fun v => (v.weight.toNat : K)) u
      ((variants.map fun v => v.weight.toNat).sum : ℕ) 0 variants = some variants[i] := by
    refine walkArms_eq_some (fun v => Nat.cast_nonneg _) hpos hi ?_ ?_
    · rw [zero_add, htake, ← hsum]
      exact hu.1
    · rw [zero_add, htake, ← hsum]
      exact hu.2
  have hne : (variants.map fun v => v.weight.toNat).sum ≠ 0 := hv.total.ne'
  cases variants with
  | nil => simp at hi
  | cons first rest =>
    rw [exactArm, armAt]
    simp only [if_neg hne]
    rw [hwalk, Option.some_or]

/-- The label of a position is that of the arm it is in. -/
theorem exactArm_label (hv : Validated variants) (hu : u ∈ arm (weights K variants) i) :
    (exactArm u variants).map (·.label) = (variants.map (·.label))[i]? := by
  have hi : i < variants.length := by
    have hlt := lt_length_of_mem hv.divides hu
    rwa [weights, List.length_map] at hlt
  rw [exactArm_eq hv hi hu, List.getElem?_map, List.getElem?_eq_getElem hi]

/-- The label of a position says which interval it is in. -/
theorem exactArm_label_iff (hv : Validated variants) (hi : i < variants.length) (hu0 : 0 ≤ u)
    (hu1 : u < 1) :
    (exactArm u variants).map (·.label) = some variants[i].label ↔
      u ∈ arm (weights K variants) i := by
  have hget : (variants.map (·.label))[i]? = some variants[i].label := by
    rw [List.getElem?_map, List.getElem?_eq_getElem hi]
    rfl
  obtain ⟨j, hj, hmem⟩ := exists_arm (hv.divides (K := K)) hu0 hu1
  rw [exactArm_label hv hmem, ← hget]
  constructor
  · intro hlabel
    have hj' : j < (variants.map (·.label)).length := by
      rw [weights, List.length_map] at hj
      rwa [List.length_map]
    obtain rfl := (List.getElem?_inj hj' hv.labels).1 hlabel
    exact hmem
  · intro hmem'
    rw [arm_unique hv.divides hmem hmem']

/-- **The positions of an arm are one interval**, as long as its share of the weight. -/
theorem arm_positions (hv : Validated variants) (hi : i < variants.length) :
    {u : K | 0 ≤ u ∧ u < 1 ∧ (exactArm u variants).map (·.label) = some variants[i].label} =
      Set.Ico (threshold (weights K variants) i) (threshold (weights K variants) (i + 1)) := by
  ext u
  constructor
  · rintro ⟨hu0, hu1, hlabel⟩
    exact (exactArm_label_iff hv hi hu0 hu1).1 hlabel
  · intro hmem
    obtain ⟨hu0, hu1⟩ := mem_unit_of_mem (hv.divides (K := K)) hmem
    exact ⟨hu0, hu1, (exactArm_label_iff hv hi hu0 hu1).2 hmem⟩

/-! ## Two weightings of the same arms -/

/-- A position whose label changes changes its arm. -/
theorem arms_of_moved (hv : Validated variants) (hv' : Validated variants')
    (hsame : variants'.map (·.label) = variants.map (·.label)) (hu0 : 0 ≤ u) (hu1 : u < 1)
    (hne : (exactArm u variants').map (·.label) ≠ (exactArm u variants).map (·.label)) :
    ∃ i j, u ∈ arm (weights K variants) i ∧ u ∈ arm (weights K variants') j ∧ i ≠ j := by
  obtain ⟨i, -, hi⟩ := exists_arm (hv.divides (K := K)) hu0 hu1
  obtain ⟨j, -, hj⟩ := exists_arm (hv'.divides (K := K)) hu0 hu1
  refine ⟨i, j, hi, hj, ?_⟩
  rintro rfl
  rw [exactArm_label hv hi, exactArm_label hv' hj, hsame] at hne
  exact hne rfl

/-- A weighting that is a multiple of a validated one is validated. -/
theorem Validated.scale {c : K} (hv : Validated variants) (hc : 0 < c)
    (hsame : variants'.map (·.label) = variants.map (·.label))
    (hscale : weights K variants' = (weights K variants).map (c * ·)) : Validated variants' := by
  refine ⟨hsame ▸ hv.labels, ?_⟩
  have hsum : (weights K variants').sum = c * (weights K variants).sum := by
    rw [hscale, List.sum_map_mul_left, List.map_id']
  have hpos : 0 < (weights K variants').sum := hsum ▸ mul_pos hc hv.divides.pos
  rw [weights_sum] at hpos
  exact_mod_cast hpos

/-- **A common factor changes no arm.** -/
theorem exactArm_scale {c : K} (hv : Validated variants) (hc : 0 < c)
    (hsame : variants'.map (·.label) = variants.map (·.label))
    (hscale : weights K variants' = (weights K variants).map (c * ·)) (hu0 : 0 ≤ u) (hu1 : u < 1) :
    (exactArm u variants').map (·.label) = (exactArm u variants).map (·.label) := by
  obtain ⟨i, -, hi⟩ := exists_arm (hv.divides (K := K)) hu0 hu1
  have hi' : u ∈ arm (weights K variants') i := by
    rw [hscale, arm, threshold_scale hc.ne', threshold_scale hc.ne']
    exact hi
  rw [exactArm_label hv hi, exactArm_label (hv.scale hc hsame hscale) hi', hsame]

/-- **Of two arms, a position moves to the one whose share grew.** -/
theorem share_lt_of_label_ne (hv : Validated variants) (hv' : Validated variants')
    (hsame : variants'.map (·.label) = variants.map (·.label)) (hlen : variants.length = 2)
    (hu0 : 0 ≤ u) (hu1 : u < 1)
    (hne : (exactArm u variants').map (·.label) ≠ (exactArm u variants).map (·.label)) :
    ∃ j, (exactArm u variants').map (·.label) = (variants.map (·.label))[j]? ∧
      threshold (weights K variants) (j + 1) - threshold (weights K variants) j <
        threshold (weights K variants') (j + 1) - threshold (weights K variants') j := by
  obtain ⟨i, j, hi, hj, hij⟩ := arms_of_moved hv hv' hsame hu0 hu1 hne
  have hlen' : variants'.length = 2 := by
    rw [← hlen, ← List.length_map, hsame, List.length_map]
  refine ⟨j, ?_, ?_⟩
  · rw [exactArm_label hv' hj, hsame]
  · exact share_lt_of_moved hv.divides hv'.divides (by rwa [weights, List.length_map])
      (by rwa [weights, List.length_map]) hi hj hij

end Walk

/-! ## The laws of a split -/

section Laws

open MeasureTheory

variable {variants variants' : List Variant}

theorem weights_cast (variants : List Variant) :
    weights ℝ variants = (weights ℚ variants).map (Rat.cast : ℚ → ℝ) := by
  rw [weights, weights, List.map_map]
  refine List.map_congr_left fun v _ => ?_
  exact (Rat.cast_natCast _).symm

/-- On the real line the arm of a cohort is the same one. -/
theorem exactArm_position (hv : Validated variants) (promptId key : String) :
    exactArm ((position promptId key : ℚ) : ℝ) variants =
      assignExact promptId variants (some key) := by
  obtain ⟨hu0, hu1⟩ := position_mem promptId key
  obtain ⟨i, hi, hmem⟩ := exists_arm (hv.divides (K := ℚ)) hu0 hu1
  have hi' : i < variants.length := by rwa [weights, List.length_map] at hi
  have hreal : ((position promptId key : ℚ) : ℝ) ∈ arm (weights ℝ variants) i := by
    rw [weights_cast]
    exact mem_arm_cast.2 hmem
  rw [exactArm_eq hv hi' hreal, assignExact, exactArm_eq hv hi' hmem]

/-- **How much of the line changes its arm.** -/
theorem volume_label_ne_le (hv : Validated variants) (hv' : Validated variants')
    (hsame : variants'.map (·.label) = variants.map (·.label)) :
    volume {u : ℝ | 0 ≤ u ∧ u < 1 ∧
        (exactArm u variants').map (·.label) ≠ (exactArm u variants).map (·.label)} ≤
      ENNReal.ofReal (∑ k ∈ Finset.range variants.length,
        |threshold (weights ℝ variants) k - threshold (weights ℝ variants') k|) := by
  have hlen : (weights ℝ variants').length = (weights ℝ variants).length := by
    rw [weights, weights, List.length_map, List.length_map, ← List.length_map (f := (·.label)), hsame,
      List.length_map]
  have hrange : (weights ℝ variants).length = variants.length := by rw [weights, List.length_map]
  have hle := volume_moved_le hv.divides hv'.divides hlen
  rw [hrange] at hle
  refine (measure_mono ?_).trans hle
  rintro u ⟨hu0, hu1, hne⟩
  exact arms_of_moved hv hv' hsame hu0 hu1 hne

/-- **Weighted variants are sticky, proportional and move minimally.** A common factor changes no
cohort's arm. The positions of an arm are one interval of the length of its share, and an arm
without weight serves no cohort. From one weighting of the arms to another, a cohort of two arms
moves to the one whose share grew; and what moves is at most the sum of the shifts of the
thresholds, on the real line, where a cohort's arm is the one at its position. -/
theorem weighted_split (hv : Validated variants) :
    (∀ c : ℚ, 0 < c → ∀ variants' : List Variant,
      variants'.map (·.label) = variants.map (·.label) →
      weights ℚ variants' = (weights ℚ variants).map (c * ·) → ∀ promptId cohortKey,
        (assignExact promptId variants' cohortKey).map (·.label) =
          (assignExact promptId variants cohortKey).map (·.label)) ∧
    (∀ i (hi : i < variants.length),
      {u : ℚ | 0 ≤ u ∧ u < 1 ∧ (exactArm u variants).map (·.label) = some variants[i].label} =
        Set.Ico (threshold (weights ℚ variants) i) (threshold (weights ℚ variants) (i + 1)) ∧
      threshold (weights ℚ variants) (i + 1) - threshold (weights ℚ variants) i =
        (variants[i].weight.toNat : ℚ) / ((variants.map fun v => v.weight.toNat).sum : ℕ) ∧
      (variants[i].weight = 0 → ∀ promptId key,
        (assignExact promptId variants (some key)).map (·.label) ≠ some variants[i].label)) ∧
    ∀ variants', Validated variants' → variants'.map (·.label) = variants.map (·.label) →
      (variants.length = 2 → ∀ promptId key,
        (assignExact promptId variants' (some key)).map (·.label) ≠
          (assignExact promptId variants (some key)).map (·.label) →
        ∃ j, (assignExact promptId variants' (some key)).map (·.label) =
            (variants.map (·.label))[j]? ∧
          threshold (weights ℚ variants) (j + 1) - threshold (weights ℚ variants) j <
            threshold (weights ℚ variants') (j + 1) - threshold (weights ℚ variants') j) ∧
      (∀ promptId key, exactArm ((position promptId key : ℚ) : ℝ) variants =
        assignExact promptId variants (some key)) ∧
      volume {u : ℝ | 0 ≤ u ∧ u < 1 ∧
          (exactArm u variants').map (·.label) ≠ (exactArm u variants).map (·.label)} ≤
        ENNReal.ofReal (∑ k ∈ Finset.range variants.length,
          |threshold (weights ℝ variants) k - threshold (weights ℝ variants') k|) := by
  refine ⟨fun c hc variants' hsame hscale promptId cohortKey => ?_, fun i hi => ⟨arm_positions hv hi,
    arm_share hi, fun hzero promptId key hlabel => ?_⟩, fun variants' hv' hsame => ⟨fun hlen promptId
    key hne => ?_, exactArm_position hv, volume_label_ne_le hv hv' hsame⟩⟩
  · cases cohortKey with
    | none =>
      rw [assignExact, assignExact, ← List.head?_map, ← List.head?_map, hsame]
    | some key =>
      obtain ⟨hu0, hu1⟩ := position_mem promptId key
      exact exactArm_scale hv hc hsame hscale hu0 hu1
  · obtain ⟨hu0, hu1⟩ := position_mem promptId key
    have hmem := (exactArm_label_iff hv hi hu0 hu1).1 hlabel
    have hi' : i < (weights ℚ variants).length := by rwa [weights, List.length_map]
    have hweight : (weights ℚ variants)[i] = 0 := by
      simp only [weights, List.getElem_map, hzero]
      rfl
    rw [arm_eq_empty hi' hweight] at hmem
    exact hmem
  · obtain ⟨hu0, hu1⟩ := position_mem promptId key
    exact share_lt_of_label_ne hv hv' hsame hlen hu0 hu1 hne

/-- Two arms of the given weights. -/
def arms (a b : UInt32) : List Variant :=
  [{ label := "a", version := 1, weight := a, model := none, params := none },
   { label := "b", version := 2, weight := b, model := none, params := none }]

/-- Doubled weights serve a cohort the same arm. -/
theorem weighted_split_doubled :
    (assignExact "welcome" (arms 50 50) (some "cohort")).map (·.label) =
      (assignExact "welcome" (arms 25 25) (some "cohort")).map (·.label) := by
  have hv : Validated (arms 25 25) := ⟨by decide, by decide⟩
  have hscale : weights ℚ (arms 50 50) = (weights ℚ (arms 25 25)).map (2 * ·) := by
    have h50 : ((50 : UInt32).toNat : ℚ) = 2 * ((25 : UInt32).toNat : ℚ) := by
      change ((50 : ℕ) : ℚ) = 2 * ((25 : ℕ) : ℚ)
      norm_num
    simp only [weights, arms, List.map_cons, List.map_nil, h50]
  exact (weighted_split hv).1 2 (by norm_num) (arms 50 50) rfl hscale "welcome" (some "cohort")

end Laws

end Routeplane.Prompts
