import Mathlib

/-!
# Conversions between binary floating-point formats

Lean gives its floats a logical model: a bit pattern that unpacks to a sign, a mantissa and
an exponent, and is rounded and packed again. The conversions between single and double
precision are opaque there. Here they are what the standard says: a finite number is rounded
to the nearest of the target format, ties to even; the rest keeps its kind.

* `canonical_of_unpack`, `unpack_pack`: a canonical number is one of a pattern, and is got back.
* `round_widens`, `round_narrows`: into a wider format and back nothing is rounded.
* `narrow_widen`: a finite single survives the way through a double.
* `not_lt_of_le`: the order of the singles is asymmetric, although `NaN` is in no relation.
-/

namespace FloatFormats

open Float.Model Float.Model.UnpackedFloat

/-- Bring a number into a format; infinities, zeros and `NaN` stay what they are. -/
def convert (spec : Format) : UnpackedFloat → UnpackedFloat
  | .finite sign mantissa exponent _ => UnpackedFloat.round spec sign mantissa exponent
  | .infinity sign => .infinity sign
  | .zero sign => .zero sign
  | .notANumber => .notANumber

/-- Single to double. -/
def widen (f : Float32) : Float := .ofModel (.pack (convert .binary64 f.toModel.unpack))

/-- Double to single. -/
def narrow (f : Float) : Float32 := .ofModel (.pack (convert .binary32 f.toModel.unpack))

/-- The exponent a format gives a number of this size. -/
def Canonical (spec : Format) (mantissa : ℕ) (exponent : ℤ) : Prop :=
  spec.targetExponent (totalExponent mantissa exponent) = exponent

section Shifts

variable {spec : Format} {m : ℕ} {e : ℤ}

theorem totalExponent_mul_two_pow (hm : 0 < m) (e : ℤ) (k : ℕ) :
    totalExponent (m * 2 ^ k) e = totalExponent m (e + k) := by
  have hlog : (m * 2 ^ k).log2 = m.log2 + k := by
    have hne : m ≠ 0 := by omega
    have hpow : 0 < 2 ^ k := Nat.two_pow_pos k
    obtain ⟨hlow, hhigh⟩ := (Nat.log2_eq_iff hne).1 rfl
    rw [Nat.log2_eq_iff (Nat.mul_ne_zero hne hpow.ne')]
    constructor
    · rw [Nat.pow_add]
      exact Nat.mul_le_mul_right _ hlow
    · have hsucc : 2 ^ (m.log2 + k + 1) = 2 ^ (m.log2 + 1) * 2 ^ k := by
        rw [← Nat.pow_add]
        congr 1
        omega
      rw [hsucc]
      exact (Nat.mul_lt_mul_right hpow).2 hhigh
  rw [totalExponent, totalExponent, hlog]
  push_cast
  ring

/-- Shifting out zeros loses nothing. -/
theorem shiftRight_mul_two_pow (m k : ℕ) :
    (⟨m * 2 ^ k, false, false⟩ : ExtendedMantissa) >>> k = ⟨m, false, false⟩ := by
  induction k generalizing m with
  | zero =>
    rw [Nat.pow_zero, Nat.mul_one]
    rfl
  | succ k ih =>
    have hassoc : m * 2 ^ (k + 1) = (m * 2) * 2 ^ k := by
      rw [Nat.pow_succ]
      ring
    have hstep : (⟨m * 2 ^ (k + 1), false, false⟩ : ExtendedMantissa) >>> (k + 1) =
        ((⟨m * 2 ^ (k + 1), false, false⟩ : ExtendedMantissa) >>> k).shiftRightOne := rfl
    rw [hstep, hassoc, ih, ExtendedMantissa.shiftRightOne]
    simp

theorem shiftToTargetExponent_mul (hm : 0 < m) (h : Canonical spec m e) (k : ℕ) :
    shiftToTargetExponent spec (m * 2 ^ k) (e - k) .exact = (⟨m, false, false⟩, e) := by
  have htarget : spec.targetExponent (totalExponent (m * 2 ^ k) (e - k)) = e := by
    rw [totalExponent_mul_two_pow hm, sub_add_cancel]
    exact h
  have hshift : (e - (e - k)).toNat = k := by omega
  rw [shiftToTargetExponent, htarget, shiftToExponent, hshift,
    ExtendedMantissa.ofMantissaAndAccuracy, shiftRight_mul_two_pow, sub_add_cancel]

theorem shiftToTargetExponent_canonical (hm : 0 < m) (h : Canonical spec m e) :
    shiftToTargetExponent spec m e .exact = (⟨m, false, false⟩, e) := by
  have hzero := shiftToTargetExponent_mul hm h 0
  rwa [Nat.pow_zero, Nat.mul_one, Nat.cast_zero, sub_zero] at hzero

/-- A canonical number with `k` zeros appended is rounded to itself. -/
theorem roundWithAccuracy_mul (sign : Sign) (hm : 0 < m) (h : Canonical spec m e) (k : ℕ) :
    roundWithAccuracy spec sign (m * 2 ^ k) (e - k) .exact = .finite sign m e hm := by
  rw [roundWithAccuracy, shiftToTargetExponent_mul hm h]
  dsimp only [ExtendedMantissa.roundedMantissa, ExtendedMantissa.accuracy,
    Accuracy.roundToNearestEven]
  rw [shiftToTargetExponent_canonical hm h]
  dsimp only
  rw [dif_neg (by omega : ¬m = 0)]

/-- **Rounding to a format that wants no larger an exponent appends zeros.** -/
theorem round_widens (sign : Sign) (hm : 0 < m) {k : ℕ}
    (hk : spec.targetExponent (totalExponent m e) = e - k) :
    UnpackedFloat.round spec sign m e = .finite sign (m * 2 ^ k) (e - k)
      (Nat.mul_pos hm (Nat.two_pow_pos k)) := by
  have hcanonical : Canonical spec (m * 2 ^ k) (e - k) := by
    rw [Canonical, totalExponent_mul_two_pow hm, sub_add_cancel]
    exact hk
  have hshift : (e - (e - (k : ℤ))).toNat = k := by omega
  have hround := roundWithAccuracy_mul sign (Nat.mul_pos hm (Nat.two_pow_pos k)) hcanonical 0
  rw [Nat.pow_zero, Nat.mul_one, Nat.cast_zero, sub_zero] at hround
  rw [UnpackedFloat.round, hk]
  dsimp only [decreaseExponent]
  rw [hshift, Nat.shiftLeft_eq]
  exact hround

/-- **Rounding back takes them off again.** -/
theorem round_narrows (sign : Sign) (hm : 0 < m) (h : Canonical spec m e) (k : ℕ) :
    UnpackedFloat.round spec sign (m * 2 ^ k) (e - k) = .finite sign m e hm := by
  have htarget : spec.targetExponent (totalExponent (m * 2 ^ k) (e - k)) = e := by
    rw [totalExponent_mul_two_pow hm, sub_add_cancel]
    exact h
  have hshift : ((e - (k : ℤ)) - e).toNat = 0 := by omega
  rw [UnpackedFloat.round, htarget]
  dsimp only [decreaseExponent]
  rw [hshift, Nat.shiftLeft_zero, Nat.cast_zero, sub_zero]
  exact roundWithAccuracy_mul sign hm h k

end Shifts

section Patterns

variable {spec : Format}

/-- The least exponent belongs to the biased exponent one. -/
theorem minExponent_add (spec : Format) :
    spec.minExponent + spec.exponentBias + spec.mantissaBitsWithoutImplicit = 1 := by
  unfold Format.minExponent Format.exponentBias Format.mantissaBits
  push_cast [Nat.cast_sub (Nat.one_le_two_pow)]
  ring

theorem mantissaBits_eq (spec : Format) :
    spec.mantissaBits = spec.mantissaBitsWithoutImplicit + 1 := by
  rw [Format.mantissaBits, Nat.add_comm]

/-- The mantissa of a normal number fills the width, implicit bit included; that of a
subnormal one does not, and its exponent is the least. -/
theorem Canonical.normal_or_subnormal {m : ℕ} {e : ℤ} (hm : 0 < m) (h : Canonical spec m e) :
    (m.log2 = spec.mantissaBitsWithoutImplicit ∧
        0 < e + spec.exponentBias + spec.mantissaBitsWithoutImplicit) ∨
      (m < 2 ^ spec.mantissaBitsWithoutImplicit ∧ e = spec.minExponent) := by
  have hpos := Nat.two_pow_pos (spec.exponentBits - 1)
  unfold Canonical Format.targetExponent totalExponent Format.mantissaBits at h
  have hmin := minExponent_add spec
  by_cases hfull : m.log2 = spec.mantissaBitsWithoutImplicit
  · refine .inl ⟨hfull, ?_⟩
    omega
  · refine .inr ⟨?_, by omega⟩
    have hlt : m.log2 < spec.mantissaBitsWithoutImplicit := by omega
    exact (Nat.log2_lt (by omega)).1 hlt

theorem toNat_one_append {w : ℕ} (v : BitVec w) : (1#1 ++ v).toNat = 2 ^ w + v.toNat := by
  rw [BitVec.toNat_append, ← Nat.shiftLeft_add_eq_or_of_lt v.isLt, Nat.shiftLeft_eq]
  simp

theorem log2_add_two_pow {w n : ℕ} (h : n < 2 ^ w) : (2 ^ w + n).log2 = w := by
  have hpow := Nat.two_pow_pos w
  rw [Nat.log2_eq_iff (by omega), Nat.pow_succ]
  omega

theorem toNat_neg_one (w : ℕ) : (-1#w).toNat = 2 ^ w - 1 := by
  rw [BitVec.neg_one_eq_allOnes, BitVec.toNat_allOnes]

/-- What a pattern with these three fields stands for. -/
theorem unpack_components (s : Sign) (x : BitVec spec.exponentBits)
    (v : BitVec spec.mantissaBitsWithoutImplicit) :
    unpack spec (packComponents spec s x v) =
      if x = -1#_ then if v = 0#_ then .infinity s else .notANumber
      else if x = 0#_ then
        if h : v.toNat = 0 then .zero s
        else .finite s v.toNat (1 - (spec.exponentBias + spec.mantissaBitsWithoutImplicit : ℤ))
          (Nat.pos_of_ne_zero h)
      else .finite s (2 ^ spec.mantissaBitsWithoutImplicit + v.toNat)
        (x.toNat - (spec.exponentBias + spec.mantissaBitsWithoutImplicit : ℤ))
        (Nat.add_pos_left (Nat.two_pow_pos _) _) := by
  unfold UnpackedFloat.unpack
  simp only [unpackExponent_packComponents, unpackMantissa_packComponents,
    unpackSign_packComponents, Sign.ofBitVec_toBitVec, toNat_one_append]
  by_cases hx : x = 0#_
  · by_cases hv : v = 0#_
    · simp [hx, hv]
    · have hne : v.toNat ≠ 0 := fun h => hv (BitVec.eq_of_toNat_eq h)
      simp only [hx, hv, hne, if_true, dif_neg, not_false_eq_true, BitVec.toNat_zero, Nat.cast_zero]
      congr 2
      ring
  · simp only [hx, if_false]

section

variable (hwide : 2 ≤ spec.exponentBits)

include hwide

/-- What a pattern unpacks to is canonical and below infinity. -/
theorem canonical_of_unpack {b : BitVec spec.numBits} {s : Sign} {m : ℕ} {e : ℤ} {hm : 0 < m}
    (h : unpack spec b = .finite s m e hm) :
    Canonical spec m e ∧
      (e + spec.exponentBias + spec.mantissaBitsWithoutImplicit).toNat + 1 < 2 ^ spec.exponentBits := by
  have hpos := Nat.two_pow_pos (spec.exponentBits - 1)
  have hmin := minExponent_add spec
  have hwidth : 2 ^ 2 ≤ 2 ^ spec.exponentBits := Nat.pow_le_pow_right (by omega) hwide
  rw [← packComponents_unpackSign_unpackExponent_unpackMantissa b, unpack_components] at h
  generalize Sign.ofBitVec (unpackSign b) = sign at h
  generalize unpackExponent b = x at h
  generalize unpackMantissa b = v at h
  have hv := v.isLt
  unfold Canonical Format.targetExponent totalExponent Format.mantissaBits
  split at h
  · split at h <;> cases h
  · rename_i hnotOnes
    have hx := x.isLt
    have hne : x.toNat ≠ 2 ^ spec.exponentBits - 1 := by
      intro heq
      exact hnotOnes (BitVec.eq_of_toNat_eq (heq.trans (toNat_neg_one _).symm))
    split at h
    · split at h
      · cases h
      · injection h with _ hmant hexp
        rw [hmant] at hv
        have hlog := (Nat.log2_lt (by omega)).2 hv
        constructor <;> omega
    · rename_i hnotZero
      have hpos : x.toNat ≠ 0 := fun heq => hnotZero (BitVec.eq_of_toNat_eq heq)
      injection h with _ hmant hexp
      have hlog := log2_add_two_pow hv
      rw [hmant] at hlog
      constructor <;> omega

end

theorem unpack_pack {s : Sign} {m : ℕ} {e : ℤ} (hm : 0 < m) (h : Canonical spec m e)
    (hfit : (e + spec.exponentBias + spec.mantissaBitsWithoutImplicit).toNat + 1 <
      2 ^ spec.exponentBits) :
    unpack spec (pack spec (.finite s m e hm)) = .finite s m e hm := by
  have hbits := mantissaBits_eq spec
  rw [UnpackedFloat.pack, if_neg (by omega)]
  rcases h.normal_or_subnormal hm with ⟨hfull, hexp⟩ | ⟨hsmall, hexp⟩
  · obtain ⟨hlow, hhigh⟩ := (Nat.log2_eq_iff (by omega)).1 hfull
    have hx : (BitVec.ofNat spec.exponentBits
        (e + spec.exponentBias + spec.mantissaBitsWithoutImplicit).toNat).toNat =
          (e + spec.exponentBias + spec.mantissaBitsWithoutImplicit).toNat := by
      rw [BitVec.toNat_ofNat, Nat.mod_eq_of_lt (by omega)]
    have hv : (BitVec.ofNat spec.mantissaBitsWithoutImplicit m).toNat =
        m - 2 ^ spec.mantissaBitsWithoutImplicit := by
      rw [Nat.pow_succ] at hhigh
      rw [BitVec.toNat_ofNat, Nat.mod_eq_sub_mod hlow, Nat.mod_eq_of_lt (by omega)]
    rw [if_pos (by omega), unpack_components]
    generalize BitVec.ofNat spec.exponentBits _ = x at hx ⊢
    rw [if_neg, if_neg]
    · congr 1
      · omega
      · omega
    · rintro rfl
      rw [BitVec.toNat_zero] at hx
      omega
    · rintro rfl
      rw [toNat_neg_one] at hx
      omega
  · have hlog := (Nat.log2_lt (by omega)).2 hsmall
    have hmin := minExponent_add spec
    have hv : (BitVec.ofNat spec.mantissaBitsWithoutImplicit m).toNat = m := by
      rw [BitVec.toNat_ofNat, Nat.mod_eq_of_lt hsmall]
    have hwidth : 2 ^ 1 ≤ 2 ^ spec.exponentBits := Nat.pow_le_pow_right (by omega) spec.he
    rw [if_neg (by omega), unpack_components, if_neg, if_pos rfl, dif_neg (by omega)]
    · congr 1
      omega
    · intro heq
      have := congrArg BitVec.toNat heq
      rw [BitVec.toNat_zero, toNat_neg_one] at this
      omega

end Patterns

/-- **A finite single survives the way through a double.** -/
theorem narrow_widen {f : Float32} (hf : f.isFinite = true) : narrow (widen f) = f := by
  obtain ⟨⟨bits, hvalid⟩⟩ := f
  have hback := pack_unpack_of_valid hvalid
  have hpacked : ∀ u, UnpackedFloat.pack .binary32 u = bits.toBitVec →
      Float32.ofModel (.pack u) = ⟨⟨bits, hvalid⟩⟩ := by
    intro u hu
    simp only [Float32.Model.pack, hu, UInt32.ofBitVec_toBitVec]
  rw [narrow, widen]
  simp only [Float.Model.unpack, Float.Model.pack, Float32.Model.unpack]
  have hfinite : (unpack .binary32 bits.toBitVec).isFinite = true := hf
  generalize hu : unpack .binary32 bits.toBitVec = u at hfinite hback
  cases u with
  | infinity s => cases hfinite
  | notANumber => cases hfinite
  | zero s =>
    refine hpacked _ ?_
    rw [convert]
    have hzero : unpack .binary64 (pack .binary64 (.zero s)) = .zero s := by
      cases s <;> rfl
    rw [hzero]
    exact hback
  | finite s m e hm =>
    obtain ⟨hcanonical, hfit⟩ := canonical_of_unpack (by decide) hu
    have hsizes : Format.exponentBias .binary32 = 127 ∧ Format.exponentBias .binary64 = 1023 ∧
        Format.minExponent .binary32 = -149 ∧ Format.minExponent .binary64 = -1074 ∧
        Format.mantissaBits .binary32 = 24 ∧ Format.mantissaBits .binary64 = 53 := by
      decide
    obtain ⟨hbias, hbias', hmin, hmin', hbits, hbits'⟩ := hsizes
    have hcanonical' := hcanonical
    rw [Canonical, Format.targetExponent, hmin, hbits] at hcanonical'
    -- the wider format wants the exponent `k` lower
    obtain ⟨k, hk⟩ : ∃ k : ℕ, Format.targetExponent .binary64 (totalExponent m e) = e - k := by
      rw [Format.targetExponent, hmin', hbits']
      exact ⟨(e - max (totalExponent m e - (53 : ℕ)) (-1074)).toNat, by omega⟩
    have hwide := round_widens s hm hk
    have hcanonical64 : Canonical .binary64 (m * 2 ^ k) (e - k) := by
      rw [Canonical, totalExponent_mul_two_pow hm, sub_add_cancel]
      exact hk
    have hround : unpack .binary64 (pack .binary64 (convert .binary64 (.finite s m e hm))) =
        .finite s (m * 2 ^ k) (e - k) (Nat.mul_pos hm (Nat.two_pow_pos k)) := by
      rw [convert, hwide]
      refine unpack_pack _ hcanonical64 ?_
      rw [Format.targetExponent, hmin', hbits'] at hk
      rw [hbias] at hfit
      rw [hbias']
      dsimp only at hfit ⊢
      omega
    refine hpacked _ ?_
    rw [hround, convert, round_narrows s hm hcanonical]
    exact hback

/-! ## The order -/

/-- Exponents are compared first; the other way round the outcome is mirrored. -/
theorem then_compare_swap (e₁ e₂ : ℤ) (m₁ m₂ : ℕ) :
    (compare e₂ e₁).then (compare m₂ m₁) = ((compare e₁ e₂).then (compare m₁ m₂)).swap := by
  rw [Ordering.swap_then, Int.compare_swap, Nat.compare_swap]

theorem compare_swap (a b : UnpackedFloat) : b.compare a = (a.compare b).map Ordering.swap := by
  cases a with
  | notANumber => cases b <;> rfl
  | infinity s =>
    cases s <;> cases b with
    | infinity s' => cases s' <;> rfl
    | _ => rfl
  | zero s =>
    cases b with
    | infinity s' | finite s' m e h => cases s' <;> rfl
    | _ => rfl
  | finite s m e h =>
    cases b with
    | notANumber => cases s <;> rfl
    | infinity s' => cases s <;> cases s' <;> rfl
    | zero s' => cases s <;> rfl
    | finite s' m' e' h' =>
      cases s <;> cases s' <;> simp [UnpackedFloat.compare, then_compare_swap e e' m m']

theorem not_lt_of_le {a b : Float32} (h : a ≤ b) : ¬ b < a := by
  intro hlt
  have hle : (a.toModel.unpack.compare b.toModel.unpack).any (·.isLE) = true :=
    of_decide_eq_true h
  have hgt : (b.toModel.unpack.compare a.toModel.unpack == some .lt) = true :=
    of_decide_eq_true hlt
  rw [compare_swap a.toModel.unpack] at hgt
  cases hcmp : a.toModel.unpack.compare b.toModel.unpack with
  | none =>
    rw [hcmp] at hle
    cases hle
  | some o =>
    rw [hcmp] at hle hgt
    cases o with
    | lt => cases hgt
    | eq => cases hgt
    | gt => cases hle

end FloatFormats
