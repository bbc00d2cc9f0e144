import Mathlib.Data.List.GetD
import Mathlib.GroupTheory.SpecificGroups.Dihedral
import Routeplane.Guardrails.Recognizers
import Routeplane.Lib.CheckDigit

/-!
# Identifiers that are mistyped

A number that only looks like an identifier must not be taken for one. Seven of the kinds have a
checksum that no single wrong digit gets past. Two digits the wrong way round are noticed by Verhoeff's
checksum and the one of a TFN, and by Luhn's but for the pair of 0 and 9.

* `elem_verhoeffD`: Verhoeff's table is the multiplication of the dihedral group of order 10.
* `misread_refused`: one wrong digit.
* `swapped_refused`, `swapped_luhn`: two digits the wrong way round.
-/

namespace Routeplane.Guardrails

open CheckDigit

/-- One digit is read for another. -/
inductive Misread : List Char → List Char → Prop
  | mk (pre post : List Char) {m n : Fin 10} (hne : m ≠ n) :
    Misread (pre ++ Nat.digitChar m :: post) (pre ++ Nat.digitChar n :: post)

/-- Two digits with at most separators between them are the wrong way round. -/
inductive Swapped (m n : Fin 10) : List Char → List Char → Prop
  | mk (pre sep post : List Char) (hsep : digits sep = []) :
    Swapped m n (pre ++ Nat.digitChar m :: (sep ++ Nat.digitChar n :: post))
      (pre ++ Nat.digitChar n :: (sep ++ Nat.digitChar m :: post))

/-! ## Digits in a text -/

/-- The byte of a digit. -/
def digitByte (m : Fin 10) : UInt8 := UInt8.ofNat (48 + m)

theorem utf8_digitChar : ∀ m : Fin 10, String.utf8EncodeChar (Nat.digitChar m) = [digitByte m] := by
  decide

theorem isAsciiDigit_digitByte : ∀ m : Fin 10, isAsciiDigit (digitByte m) = true := by decide

theorem toNat_digitByte : ∀ m : Fin 10, (digitByte m).toNat - 48 = m := by decide

theorem asBytes_append (s t : List Char) : asBytes (s ++ t) = asBytes s ++ asBytes t :=
  List.flatMap_append

theorem asBytes_digit (m : Fin 10) (post : List Char) :
    asBytes (Nat.digitChar m :: post) = digitByte m :: asBytes post := by
  show String.utf8EncodeChar (Nat.digitChar m) ++ asBytes post = _
  rw [utf8_digitChar]
  rfl

theorem digits_append (s t : List Char) : digits (s ++ t) = digits s ++ digits t := by
  unfold digits
  rw [asBytes_append, List.filter_append, List.map_append]

theorem digits_digit (m : Fin 10) (post : List Char) :
    digits (Nat.digitChar m :: post) = m.val :: digits post := by
  unfold digits
  rw [asBytes_digit, List.filter_cons_of_pos (isAsciiDigit_digitByte m), List.map_cons,
    toNat_digitByte]

theorem digits_lt {s : List Char} : ∀ d ∈ digits s, d < 10 := by
  intro d hd
  obtain ⟨b, hb, rfl⟩ := List.mem_map.1 hd
  have hdigit := (List.mem_filter.1 hb).2
  simp only [isAsciiDigit, Bool.and_eq_true, decide_eq_true_eq, UInt8.le_iff_toNat_le] at hdigit
  have h57 : (57 : UInt8).toNat = 57 := rfl
  omega

/-- The digits of a text around one of them. -/
theorem digits_mid (pre post : List Char) (m : Fin 10) :
    digits (pre ++ Nat.digitChar m :: post) = digits pre ++ m.val :: digits post := by
  rw [digits_append, digits_digit]

theorem digits_swapped (pre post : List Char) {sep : List Char} (hsep : digits sep = [])
    (m n : Fin 10) :
    digits (pre ++ Nat.digitChar m :: (sep ++ Nat.digitChar n :: post)) =
      digits pre ++ m.val :: n.val :: digits post := by
  rw [digits_mid, digits_append, hsep, List.nil_append, digits_digit]

/-! ## Verhoeff -/

/-- A digit as a rotation or a reflection of the pentagon. -/
def elem (n : ℕ) : DihedralGroup 5 := if n < 5 then .r n else .sr (-n)

/-- **Verhoeff's table is a dihedral group.** -/
theorem elem_verhoeffD : ∀ a b : Fin 10,
    cell verhoeffD a b < 10 ∧ elem (cell verhoeffD a b) = elem a * elem b := by decide

theorem verhoeffP_lt : ∀ (i : Fin 8) (d : Fin 10), cell verhoeffP i d < 10 := by decide

theorem elem_eq_one : ∀ a : Fin 10, elem a = 1 ↔ a = 0 := by decide

/-- The factor of a digit. -/
def verhoeff (i : ℕ) (d : ℕ) : DihedralGroup 5 := elem (cell verhoeffP (i % 8) d)

theorem verhoeff_mod (i d : ℕ) : verhoeff i d = verhoeff (i % 8) d := by
  unfold verhoeff
  rw [Nat.mod_mod]

theorem verhoeff_injective (i : ℕ) (m n : Fin 10) (h : verhoeff i m = verhoeff i n) : m = n := by
  have hall : ∀ (i : Fin 8) (m n : Fin 10), verhoeff i m = verhoeff i n → m = n := by decide
  rw [verhoeff_mod, verhoeff_mod i] at h
  exact hall ⟨i % 8, by omega⟩ m n h

theorem verhoeff_swap (i : ℕ) (m n : Fin 10)
    (h : verhoeff i m * verhoeff (i + 1) n = verhoeff i n * verhoeff (i + 1) m) : m = n := by
  have hall : ∀ (i : Fin 8) (m n : Fin 10), verhoeff i m * verhoeff (i.val + 1) n =
      verhoeff i n * verhoeff (i.val + 1) m → m = n := by decide
  have hnext : ∀ d, verhoeff (i % 8 + 1) d = verhoeff (i + 1) d := by
    intro d
    rw [verhoeff_mod, verhoeff_mod (i + 1)]
    congr 1
    omega
  refine hall ⟨i % 8, by omega⟩ m n ?_
  rw [hnext, hnext, ← verhoeff_mod, ← verhoeff_mod]
  exact h

/-- **The loop of Verhoeff multiplies the factors of the digits**, from the right. -/
theorem isAadhaar_iff {s : List Char} : isAadhaar s = true ↔
    (digits s).length = 12 ∧ (ofGroup verhoeff).run 0 1 (digits s).reverse = 1 := by
  obtain ⟨hlt, hrun⟩ := (ofGroup verhoeff).run_of_fold elem
    (fun c d => cell verhoeffD c (cell verhoeffP (d.2 % 8) d.1)) (· < 10)
    (fun c i (d : ℕ) (hd : d ∈ (digits s).reverse) hc => by
      have hd10 := digits_lt d (List.mem_reverse.1 hd)
      have hp := verhoeffP_lt ⟨i % 8, by omega⟩ ⟨d, hd10⟩
      exact elem_verhoeffD ⟨c, hc⟩ ⟨_, hp⟩) (t := 0) (by omega) 0
  have hone : elem 0 = 1 := rfl
  unfold isAadhaar
  simp only
  split
  · rename_i hlen
    simp [hlen]
  · rename_i hlen
    have hzero := elem_eq_one ⟨_, hlt⟩
    rw [beq_iff_eq, ← hone, ← hrun, hone, hzero]
    simp only [Fin.ext_iff, Fin.val_zero]
    tauto

/-! ## Luhn -/

/-- A digit doubled, with its digits added. -/
def doubled (d : ℕ) : ℕ := if 9 < d * 2 then d * 2 - 9 else d * 2

/-- The summand of a digit, doubled at every other position. -/
def luhn (p i d : ℕ) : ZMod 10 := ((if i % 2 = p then doubled d else d : ℕ) : ZMod 10)

theorem luhn_injective (p i : ℕ) (m n : Fin 10) (h : luhn p i m = luhn p i n) : m = n := by
  have hplain : ∀ m n : Fin 10, ((m : ℕ) : ZMod 10) = ((n : ℕ) : ZMod 10) → m = n := by decide
  have hdoubled : ∀ m n : Fin 10, ((doubled m : ℕ) : ZMod 10) = ((doubled n : ℕ) : ZMod 10) →
      m = n := by decide
  unfold luhn at h
  split at h
  · exact hdoubled m n h
  · exact hplain m n h

/-- Luhn's checksum is blind to one pair. -/
def Blind (m n : Fin 10) : Prop := (m = 0 ∧ n = 9) ∨ (m = 9 ∧ n = 0)

instance (m n : Fin 10) : Decidable (Blind m n) := inferInstanceAs (Decidable (_ ∨ _))

theorem luhn_swap {p : ℕ} (hp : p < 2) (i : ℕ) (m n : Fin 10) (hne : m ≠ n) :
    luhn p i m + luhn p (i + 1) n = luhn p i n + luhn p (i + 1) m ↔ Blind m n := by
  have hfirst : ∀ m n : Fin 10, m ≠ n →
      (((doubled m : ℕ) : ZMod 10) + ((n : ℕ) : ZMod 10) =
        ((doubled n : ℕ) : ZMod 10) + ((m : ℕ) : ZMod 10) ↔ Blind m n) := by decide
  have hsecond : ∀ m n : Fin 10, m ≠ n →
      (((m : ℕ) : ZMod 10) + ((doubled n : ℕ) : ZMod 10) =
        ((n : ℕ) : ZMod 10) + ((doubled m : ℕ) : ZMod 10) ↔ Blind m n) := by decide
  unfold luhn
  by_cases hi : i % 2 = p
  · have hi' : ¬(i + 1) % 2 = p := by omega
    simp only [hi, hi', if_true, if_false]
    exact hfirst m n hne
  · have hi' : (i + 1) % 2 = p := by omega
    simp only [hi, hi', if_true, if_false]
    exact hsecond m n hne

/-- A sum that a modulus divides. -/
theorem sum_mod_eq_zero {α : Type} (k : ℕ) (f : ℕ → α → ZMod k) (g : α × ℕ → ℕ) (ds : List α)
    (h : ∀ x ∈ ds.zipIdx, f x.2 x.1 = (g x : ZMod k)) :
    (ds.zipIdx.map g).sum % k = 0 ↔ (weighted f).run 0 0 ds = 0 := by
  have hcast : (ds.zipIdx.map fun x => f x.2 x.1) = ds.zipIdx.map fun x => (g x : ZMod k) :=
    List.map_congr_left h
  rw [weighted_run, zero_add, hcast, ← Nat.dvd_iff_mod_eq_zero,
    ← ZMod.natCast_eq_zero_iff, Nat.cast_list_sum, List.map_map]
  rfl

theorem isCard_iff {s : List Char} : isCard s = true ↔
    (13 ≤ (digits s).length ∧ (digits s).length ≤ 19) ∧
      (weighted (luhn 1)).run 0 0 (digits s).reverse = 0 := by
  have hsum := sum_mod_eq_zero 10 (luhn 1) (fun d => if d.2 % 2 = 1 then doubled d.1 else d.1)
    (digits s).reverse (fun x _ => rfl)
  rw [← hsum]
  unfold isCard
  simp only
  split
  · rename_i hlen
    simp only [Bool.or_eq_true, decide_eq_true_eq] at hlen
    simp only [Bool.false_eq_true, false_iff]
    omega
  · rename_i hlen
    simp only [Bool.or_eq_true, decide_eq_true_eq] at hlen
    rw [beq_iff_eq]
    constructor
    · intro h
      exact ⟨by omega, h⟩
    · intro h
      exact h.2

theorem isSaudiId_iff {s : List Char} : isSaudiId s = true ↔
    ((asBytes s).length = 10 ∧ (byteAt (asBytes s) 0 = 49 ∨ byteAt (asBytes s) 0 = 50) ∧
      (asBytes s).all isAsciiDigit = true) ∧
      (weighted fun i (b : UInt8) => luhn 0 i (b.toNat - 48)).run 0 0 (asBytes s) = 0 := by
  unfold isSaudiId
  simp only
  split
  · rename_i hshape
    simp only [Bool.or_eq_true, decide_eq_true_eq, Bool.and_eq_true, ne_eq] at hshape
    simp only [Bool.false_eq_true, false_iff]
    tauto
  · rename_i hshape
    simp only [Bool.or_eq_true, decide_eq_true_eq, Bool.and_eq_true, ne_eq] at hshape
    split
    · rename_i hall
      simp only [Bool.not_eq_true'] at hall
      simp [hall]
    · rename_i hall
      simp only [Bool.not_eq_true', Bool.not_eq_false] at hall
      have hdigit : ∀ d : Fin 10, d.val * 2 / 10 + d.val * 2 % 10 = doubled d := by decide
      have hsum := sum_mod_eq_zero 10 (fun i (b : UInt8) => luhn 0 i (b.toNat - 48)) (fun c =>
        let digit := c.1.toNat - 48
        if c.2 % 2 = 0 then digit * 2 / 10 + digit * 2 % 10 else digit) (asBytes s) (by
          intro x hx
          have hmem : x.1 ∈ asBytes s := List.fst_mem_of_mem_zipIdx hx
          have hascii := List.all_eq_true.1 hall x.1 hmem
          simp only [isAsciiDigit, Bool.and_eq_true, decide_eq_true_eq,
            UInt8.le_iff_toNat_le] at hascii
          have h57 : (57 : UInt8).toNat = 57 := rfl
          have hd := hdigit ⟨x.1.toNat - 48, by omega⟩
          simp only at hd
          simp only [luhn, hd])
      rw [beq_iff_eq, hsum]
      tauto

/-! ## Weights by 11 -/

/-- The weights of a TFN. -/
def tfnWeights : List ℕ := [1, 4, 3, 7, 5, 8, 6, 9, 10]

def tfn (i d : ℕ) : ZMod 11 := ((d * tfnWeights.getD i 0 : ℕ) : ZMod 11)

theorem tfn_injective {i : ℕ} (hi : i < 9) (m n : Fin 10) (h : tfn i m = tfn i n) : m = n := by
  have hall : ∀ (i : Fin 9) (m n : Fin 10), tfn i m = tfn i n → m = n := by decide
  exact hall ⟨i, hi⟩ m n h

theorem tfn_swap {i : ℕ} (hi : i + 1 < 9) (m n : Fin 10)
    (h : tfn i m + tfn (i + 1) n = tfn i n + tfn (i + 1) m) : m = n := by
  have hall : ∀ (i : Fin 8) (m n : Fin 10),
      tfn i m + tfn (i.val + 1) n = tfn i n + tfn (i.val + 1) m → m = n := by decide
  exact hall ⟨i, by omega⟩ m n h

theorem isTfn_iff {s : List Char} : isTfn s = true ↔
    (digits s).length = 9 ∧ (weighted tfn).run 0 0 (digits s) = 0 := by
  unfold isTfn
  simp only [Bool.and_eq_true, beq_iff_eq]
  refine and_congr_right fun hlen => ?_
  have hle : (digits s).length ≤ tfnWeights.length := by
    rw [hlen]
    exact le_rfl
  have hsum := sum_mod_eq_zero 11 tfn (fun d => d.1 * tfnWeights.getD d.2 0) (digits s)
    (fun x _ => rfl)
  have hzip := sum_zipWith (f := (· * ·)) hle 0
  simp only [Nat.sub_zero] at hzip
  rw [← hsum, ← hzip]
  rfl

/-- The weights of an NRIC. -/
def nricWeights : List ℕ := [2, 7, 6, 5, 4, 3, 2]

def nric (i : ℕ) (b : UInt8) : ZMod 11 := (((b.toNat - 48) * nricWeights.getD i 0 : ℕ) : ZMod 11)

/-- What the prefix adds to the sum. -/
def nricOffset (first : Char) : ℕ :=
  if first = 'T' || first = 'G' then 4 else if first = 'M' then 3 else 0

/-- The letters of a prefix. -/
def nricLetters (first : Char) : Option String :=
  if first = 'S' || first = 'T' then some "JZIHGFEDCBA"
  else if first = 'F' || first = 'G' then some "XWUTRQPNMLK"
  else if first = 'M' then some "XWUTRQPNJLK" else none

def nricSum (b : List UInt8) : ℕ := (b.zipWith (fun c w => (c.toNat - 48) * w) nricWeights).sum

/-- The sum by 11. -/
theorem nricSum_cast {b : List UInt8} (hlen : b.length ≤ 7) :
    (nricSum b : ZMod 11) = (weighted nric).run 0 0 b := by
  unfold nricSum
  rw [sum_zipWith (show b.length ≤ nricWeights.length from hlen) 0, weighted_run, zero_add, Nat.cast_list_sum,
    List.map_map]
  rfl

theorem isNric_spec {s : List Char} (h : isNric s = true) :
    (asBytes s).length = 9 ∧ ∃ table,
      nricLetters (Char.ofNat (byteAt (asBytes s) 0).toNat) = some table ∧
      byteAt (asBytes s) 8 = byteAt (asBytes table.toList)
        ((nricSum (((asBytes s).drop 1).take 7) +
          nricOffset (Char.ofNat (byteAt (asBytes s) 0).toNat)) % 11) := by
  unfold isNric at h
  simp only at h
  split at h
  · cases h
  · rename_i hlen
    obtain ⟨table, htable, hlast⟩ := (Option.any_eq_true _ _).1 h
    exact ⟨by omega, table, htable, beq_iff_eq.1 hlast⟩

/-- Each prefix has eleven letters, no two of them the same. -/
theorem nricLetters_injective {first : Char} {table : String} (h : nricLetters first = some table) :
    ∀ x y : Fin 11, byteAt (asBytes table.toList) x = byteAt (asBytes table.toList) y → x = y := by
  unfold nricLetters at h
  split at h
  · rw [← Option.some.inj h]
    decide
  · split at h
    · rw [← Option.some.inj h]
      decide
    · split at h
      · rw [← Option.some.inj h]
        decide
      · cases h

theorem nricLetters_no_digit {first : Char} {table : String} (h : nricLetters first = some table) :
    ∀ (x : Fin 11) (m : Fin 10), digitByte m ≠ byteAt (asBytes table.toList) x := by
  unfold nricLetters at h
  split at h
  · rw [← Option.some.inj h]
    decide
  · split at h
    · rw [← Option.some.inj h]
      decide
    · split at h
      · rw [← Option.some.inj h]
        decide
      · cases h

theorem nricLetters_digit : ∀ m : Fin 10, nricLetters (Char.ofNat (digitByte m).toNat) = none := by
  decide

theorem nric_injective {i : ℕ} (hi : i < 7) (m n : Fin 10)
    (h : nric i (digitByte m) = nric i (digitByte n)) : m = n := by
  have hall : ∀ (i : Fin 7) (m n : Fin 10), nric i (digitByte m) = nric i (digitByte n) → m = n := by
    decide
  exact hall ⟨i, hi⟩ m n h

/-- The byte after the one at a place. -/
theorem byteAt_after (X Y : List UInt8) (d : UInt8) {k : ℕ} (hk : X.length < k) :
    byteAt (X ++ d :: Y) k = byteAt Y (k - X.length - 1) := by
  obtain ⟨j, rfl⟩ : ∃ j, k = X.length + (j + 1) := ⟨k - X.length - 1, by omega⟩
  unfold byteAt
  rw [List.getD_append_right _ _ _ _ (by omega), Nat.add_sub_cancel_left, List.getD_cons_succ,
    Nat.add_sub_cancel]

theorem byteAt_here (X Y : List UInt8) (d : UInt8) : byteAt (X ++ d :: Y) X.length = d := by
  unfold byteAt
  rw [List.getD_append_right _ _ _ _ le_rfl, Nat.sub_self]
  rfl

/-- A prefix that reaches past a place. -/
theorem take_past (X Y : List UInt8) (d : UInt8) {k : ℕ} (hk : X.length < k) :
    (X ++ d :: Y).take k = X ++ d :: Y.take (k - X.length - 1) := by
  obtain ⟨j, rfl⟩ : ∃ j, k = X.length + (j + 1) := ⟨k - X.length - 1, by omega⟩
  have hj : X.length + (j + 1) - X.length - 1 = j := by omega
  rw [List.take_length_add_append, List.take_succ_cons, hj]

theorem isNric_misread {pre post : List Char} {m n : Fin 10}
    (hm : isNric (pre ++ Nat.digitChar m :: post) = true)
    (hn : isNric (pre ++ Nat.digitChar n :: post) = true) : m = n := by
  obtain ⟨hlen, table, htable, hlast⟩ := isNric_spec hm
  obtain ⟨-, table', htable', hlast'⟩ := isNric_spec hn
  simp only [asBytes_append, asBytes_digit] at hlen htable hlast htable' hlast'
  have hsum : (asBytes pre).length + (asBytes post).length = 8 := by
    simp only [List.length_append, List.length_cons] at hlen
    omega
  cases hX : asBytes pre with
  | nil =>
    -- a digit is no prefix
    rw [hX, List.nil_append] at htable
    have hdigit := nricLetters_digit m
    simp only [byteAt, List.getD_cons_zero] at htable
    rw [hdigit] at htable
    cases htable
  | cons x X =>
    rw [hX, List.length_cons] at hsum
    rw [hX] at hlast htable hlast' htable'
    have hfirst : ∀ d, byteAt (x :: X ++ d :: asBytes post) 0 = x := fun d => rfl
    rw [hfirst] at hlast htable hlast' htable'
    obtain rfl : table = table' := Option.some.inj (htable.symm.trans htable')
    by_cases hend : X.length = 7
    · -- nor the last letter
      have hhere : ∀ d, byteAt (x :: X ++ d :: asBytes post) 8 = d := by
        intro d
        have := byteAt_here (x :: X) (asBytes post) d
        rwa [List.length_cons, hend] at this
      rw [hhere] at hlast
      have hlt : ∀ k, k % 11 < 11 := fun k => Nat.mod_lt k (by omega)
      exact absurd hlast (nricLetters_no_digit htable ⟨_, hlt _⟩ m)
    · have hlt : X.length < 7 := by omega
      have hsame : ∀ d, byteAt (x :: X ++ d :: asBytes post) 8 = byteAt (asBytes post) (6 - X.length)
          := by
        intro d
        rw [byteAt_after _ _ _ (by simp only [List.length_cons]; omega)]
        congr 1
        simp only [List.length_cons]
        omega
      have hmiddle : ∀ d, ((x :: X ++ d :: asBytes post).drop 1).take 7 =
          X ++ d :: (asBytes post).take (7 - X.length - 1) := fun d => take_past X _ d hlt
      rw [hsame, hmiddle] at hlast hlast'
      have hindex : ∀ k, k % 11 < 11 := fun k => Nat.mod_lt k (by omega)
      have hmod := Fin.ext_iff.1 (nricLetters_injective htable ⟨_, hindex _⟩ ⟨_, hindex _⟩
        (hlast.symm.trans hlast'))
      -- both sums are the same by 11
      have hle : ∀ d, (X ++ d :: (asBytes post).take (7 - X.length - 1)).length ≤ 7 := by
        intro d
        simp only [List.length_append, List.length_cons, List.length_take]
        omega
      have hcast := (ZMod.natCast_eq_natCast_iff _ _ 11).2 (Nat.ModEq.add_right_cancel' _ hmod)
      rw [nricSum_cast (hle _), nricSum_cast (hle _), weighted_substitute_iff, Nat.zero_add] at hcast
      exact nric_injective hlt m n hcast

/-! ## The check character of a GSTIN -/

/-- The value of a character, if it is one of the alphabet. -/
def base36Value (b : UInt8) : ℕ := (base36 b).getD 0

def gstinTerm (i v : ℕ) : ℕ :=
  let product := v * if i % 2 = 0 then 1 else 2
  product / 36 + product % 36

def gstin (i : ℕ) (b : UInt8) : ZMod 36 := (gstinTerm i (base36Value b) : ZMod 36)

def gstinSum (b : List UInt8) : ℕ := (b.zipIdx.map fun x => gstinTerm x.2 (base36Value x.1)).sum

theorem gstinSum_cast (b : List UInt8) : (gstinSum b : ZMod 36) = (weighted gstin).run 0 0 b := by
  unfold gstinSum
  rw [weighted_run, zero_add, Nat.cast_list_sum, List.map_map]
  rfl

/-- The values are the ones of the characters. -/
theorem mapM_base36 {bs : List UInt8} {values : List ℕ} (h : bs.mapM base36 = some values) :
    values = bs.map base36Value := by
  induction bs generalizing values with
  | nil =>
    rw [List.mapM_nil] at h
    exact (Option.some.inj h).symm
  | cons b bs ih =>
    rw [List.mapM_cons] at h
    obtain ⟨v, hv, h⟩ := Option.bind_eq_some_iff.1 h
    obtain ⟨vs, hvs, h⟩ := Option.bind_eq_some_iff.1 h
    have hvalue : base36Value b = v := by
      unfold base36Value
      rw [hv]
      rfl
    rw [List.map_cons, hvalue, ← ih hvs]
    exact (Option.some.inj h).symm

theorem isGstin_spec {s : List Char} (h : isGstin s = true) :
    (asBytes s).length = 15 ∧
      byteAt (asBytes s) 14 = base36Char ((36 - gstinSum ((asBytes s).take 14) % 36) % 36) := by
  unfold isGstin at h
  simp only at h
  split at h
  · cases h
  · rename_i hlen
    split at h
    · cases h
    · rename_i values hvalues
      refine ⟨by omega, ?_⟩
      have hsum : gstinSum ((asBytes s).take 14) = (values.zipIdx.map fun v =>
          let product := v.1 * if v.2 % 2 = 0 then 1 else 2
          product / 36 + product % 36).sum := by
        rw [mapM_base36 hvalues, List.zipIdx_map, List.map_map]
        rfl
      rw [hsum]
      exact beq_iff_eq.1 h

theorem base36Char_injective : ∀ x y : Fin 36, base36Char x = base36Char y → x = y := by decide

theorem gstin_injective (i : ℕ) (m n : Fin 10) (h : gstin i (digitByte m) = gstin i (digitByte n)) :
    m = n := by
  have heven : ∀ m n : Fin 10, gstin 0 (digitByte m) = gstin 0 (digitByte n) → m = n := by decide
  have hodd : ∀ m n : Fin 10, gstin 1 (digitByte m) = gstin 1 (digitByte n) → m = n := by decide
  have hmod : ∀ b, gstin i b = gstin (i % 2) b := by
    intro b
    unfold gstin gstinTerm
    rw [Nat.mod_mod]
  rw [hmod, hmod] at h
  rcases Nat.mod_two_eq_zero_or_one i with hi | hi
  · rw [hi] at h
    exact heven m n h
  · rw [hi] at h
    exact hodd m n h

theorem digitByte_injective : ∀ m n : Fin 10, digitByte m = digitByte n → m = n := by decide

theorem isGstin_misread {pre post : List Char} {m n : Fin 10}
    (hm : isGstin (pre ++ Nat.digitChar m :: post) = true)
    (hn : isGstin (pre ++ Nat.digitChar n :: post) = true) : m = n := by
  obtain ⟨hlen, hlast⟩ := isGstin_spec hm
  obtain ⟨-, hlast'⟩ := isGstin_spec hn
  simp only [asBytes_append, asBytes_digit] at hlen hlast hlast'
  have hsum : (asBytes pre).length + (asBytes post).length = 14 := by
    simp only [List.length_append, List.length_cons] at hlen
    omega
  generalize asBytes pre = X at hlast hlast' hsum
  generalize asBytes post = Y at hlast hlast' hsum
  by_cases hend : X.length = 14
  · -- the check character itself
    have hhere : ∀ d, byteAt (X ++ d :: Y) 14 = d := fun d => hend ▸ byteAt_here X Y d
    have htake : ∀ d, (X ++ d :: Y).take 14 = X := fun d => hend ▸ List.take_left
    rw [hhere, htake] at hlast hlast'
    exact digitByte_injective m n (hlast.trans hlast'.symm)
  · have hlt : X.length < 14 := by omega
    rw [byteAt_after X Y _ hlt, take_past X Y _ hlt] at hlast hlast'
    have hindex : ∀ k, k % 36 < 36 := fun k => Nat.mod_lt k (by omega)
    have hmod := Fin.ext_iff.1 (base36Char_injective ⟨_, hindex _⟩ ⟨_, hindex _⟩
      (hlast.symm.trans hlast'))
    -- the complements are the same, so the sums are
    have hsame : ∀ x y : ℕ, (36 - x % 36) % 36 = (36 - y % 36) % 36 → x ≡ y [MOD 36] := by
      intro x y hxy
      unfold Nat.ModEq
      omega
    have hcast := (ZMod.natCast_eq_natCast_iff _ _ 36).2 (hsame _ _ hmod)
    rw [gstinSum_cast, gstinSum_cast, weighted_substitute_iff] at hcast
    exact gstin_injective _ m n hcast

/-! ## The remainder of an IBAN -/

/-- A letter takes two places. -/
def ibanScale (b : UInt8) : (ZMod 97)ˣ :=
  if isAsciiDigit b then ZMod.unitOfCoprime 10 (by decide) else ZMod.unitOfCoprime 100 (by decide)

def ibanDigit (b : UInt8) : ZMod 97 :=
  ((if isAsciiDigit b then b.toNat - 48 else b.toNat - 65 + 10 : ℕ) : ZMod 97)

/-- **The loop reads a number in two widths.** -/
theorem foldlM_ibanStep {bs : List UInt8} {r n : ℕ} (h : bs.foldlM ibanStep r = some n) (i : ℕ) :
    (n : ZMod 97) = (affine ibanScale ibanDigit).run i r bs := by
  induction bs generalizing r i with
  | nil =>
    rw [List.foldlM_nil] at h
    rw [← Option.some.inj h]
    rfl
  | cons b bs ih =>
    rw [List.foldlM_cons] at h
    obtain ⟨r', hstep, hrest⟩ := Option.bind_eq_some_iff.1 h
    have hnext : (r' : ZMod 97) = (affine ibanScale ibanDigit).act i b r := by
      unfold ibanStep at hstep
      rw [affine_act]
      unfold ibanScale ibanDigit
      split at hstep
      · rename_i hdigit
        rw [← Option.some.inj hstep, ZMod.natCast_mod, if_pos hdigit, if_pos hdigit]
        push_cast
        rw [ZMod.coe_unitOfCoprime]
        push_cast
        ring
      · rename_i hdigit
        split at hstep
        · rw [← Option.some.inj hstep, ZMod.natCast_mod, if_neg hdigit, if_neg hdigit]
          push_cast
          rw [ZMod.coe_unitOfCoprime]
          push_cast
          ring
        · cases hstep
    rw [Automaton.run_cons, ← hnext]
    exact ih hrest (i + 1)

/-- Where a place goes when the country and the check digits are moved to the end. -/
theorem exists_rotated (X Y : List UInt8) :
    ∃ X' Y', ∀ d, (X ++ d :: Y).drop 4 ++ (X ++ d :: Y).take 4 = X' ++ d :: Y' := by
  by_cases hlt : X.length < 4
  · refine ⟨Y.drop (4 - X.length - 1) ++ X, Y.take (4 - X.length - 1), fun d => ?_⟩
    obtain ⟨j, hj⟩ : ∃ j, 4 = X.length + (j + 1) := ⟨4 - X.length - 1, by omega⟩
    have hdrop : (X ++ d :: Y).drop 4 = Y.drop (4 - X.length - 1) := by
      rw [hj, List.drop_length_add_append, List.drop_succ_cons]
      congr 1
      omega
    rw [take_past X Y d hlt, hdrop, List.append_assoc]
  · refine ⟨X.drop 4, Y ++ X.take 4, fun d => ?_⟩
    have hle : 4 ≤ X.length := by omega
    rw [List.drop_append_of_le_length hle, List.take_append_of_le_length hle, List.append_assoc]
    rfl

theorem ibanDigit_injective : ∀ m n : Fin 10, ibanDigit (digitByte m) = ibanDigit (digitByte n) →
    m = n := by decide

theorem isIban_misread {pre post : List Char} {m n : Fin 10}
    (hm : isIban (pre ++ Nat.digitChar m :: post) = true)
    (hn : isIban (pre ++ Nat.digitChar n :: post) = true) : m = n := by
  have hcompact : ∀ d : Fin 10, (asBytes (pre ++ Nat.digitChar d :: post)).filter
      (fun b => !isAsciiSpace b) = (asBytes pre).filter (fun b => !isAsciiSpace b) ++
        digitByte d :: (asBytes post).filter fun b => !isAsciiSpace b := by
    intro d
    have hspace : ∀ d : Fin 10, (!isAsciiSpace (digitByte d)) = true := by decide
    rw [asBytes_append, asBytes_digit, List.filter_append,
      List.filter_cons_of_pos (p := fun b => !isAsciiSpace b) (hspace d)]
  obtain ⟨X', Y', hrotated⟩ := exists_rotated ((asBytes pre).filter fun b => !isAsciiSpace b)
    ((asBytes post).filter fun b => !isAsciiSpace b)
  have hone : ∀ d : Fin 10, isIban (pre ++ Nat.digitChar d :: post) = true →
      (affine ibanScale ibanDigit).run 0 0 (X' ++ digitByte d :: Y') = 1 := by
    intro d hd
    unfold isIban at hd
    simp only at hd
    split at hd
    · cases hd
    · rw [hcompact, hrotated] at hd
      have hrun := foldlM_ibanStep (beq_iff_eq.1 hd) 0
      simpa using hrun.symm
  have hscale : ∀ m n : Fin 10, ibanScale (digitByte m) = ibanScale (digitByte n) := by
    intro m n
    unfold ibanScale
    rw [if_pos (isAsciiDigit_digitByte m), if_pos (isAsciiDigit_digitByte n)]
  exact ibanDigit_injective m n
    ((affine_substitute_iff (hscale m n)).1 ((hone m hm).trans (hone n hn).symm))

/-! ## One wrong digit -/

theorem isAadhaar_misread {pre post : List Char} {m n : Fin 10}
    (hm : isAadhaar (pre ++ Nat.digitChar m :: post) = true)
    (hn : isAadhaar (pre ++ Nat.digitChar n :: post) = true) : m = n := by
  have hsame := (isAadhaar_iff.1 hm).2.trans (isAadhaar_iff.1 hn).2.symm
  simp only [digits_mid, List.reverse_append, List.reverse_cons, List.append_assoc,
    List.singleton_append] at hsame
  exact verhoeff_injective _ m n (ofGroup_substitute_iff.1 hsame)

theorem isCard_misread {pre post : List Char} {m n : Fin 10}
    (hm : isCard (pre ++ Nat.digitChar m :: post) = true)
    (hn : isCard (pre ++ Nat.digitChar n :: post) = true) : m = n := by
  have hsame := (isCard_iff.1 hm).2.trans (isCard_iff.1 hn).2.symm
  simp only [digits_mid, List.reverse_append, List.reverse_cons, List.append_assoc,
    List.singleton_append] at hsame
  exact luhn_injective _ _ m n (weighted_substitute_iff.1 hsame)

theorem isSaudiId_misread {pre post : List Char} {m n : Fin 10}
    (hm : isSaudiId (pre ++ Nat.digitChar m :: post) = true)
    (hn : isSaudiId (pre ++ Nat.digitChar n :: post) = true) : m = n := by
  have hsame := (isSaudiId_iff.1 hm).2.trans (isSaudiId_iff.1 hn).2.symm
  simp only [asBytes_append, asBytes_digit] at hsame
  have hdigit := weighted_substitute_iff.1 hsame
  simp only [toNat_digitByte] at hdigit
  exact luhn_injective _ _ m n hdigit

theorem isTfn_misread {pre post : List Char} {m n : Fin 10}
    (hm : isTfn (pre ++ Nat.digitChar m :: post) = true)
    (hn : isTfn (pre ++ Nat.digitChar n :: post) = true) : m = n := by
  obtain ⟨hlen, hzero⟩ := isTfn_iff.1 hm
  have hsame := hzero.trans (isTfn_iff.1 hn).2.symm
  simp only [digits_mid, List.length_append, List.length_cons] at hlen hsame
  exact tfn_injective (by omega) m n (weighted_substitute_iff.1 hsame)

/-- The tests with a checksum that no wrong digit gets past. -/
def checksummed : List (List Char → Bool) :=
  [isAadhaar, isCard, isGstin, isIban, isNric, isSaudiId, isTfn]

/-- **An identifier with one wrong digit is none.** -/
theorem misread_refused {valid : List Char → Bool} (hvalid : valid ∈ checksummed)
    {s t : List Char} (h : Misread s t) (hs : valid s = true) : valid t = false := by
  cases h with
  | @mk pre post m n hne =>
    by_contra ht
    rw [Bool.not_eq_false] at ht
    refine hne ?_
    simp only [checksummed, List.mem_cons, List.not_mem_nil, or_false] at hvalid
    rcases hvalid with rfl | rfl | rfl | rfl | rfl | rfl | rfl
    · exact isAadhaar_misread hs ht
    · exact isCard_misread hs ht
    · exact isGstin_misread hs ht
    · exact isIban_misread hs ht
    · exact isNric_misread hs ht
    · exact isSaudiId_misread hs ht
    · exact isTfn_misread hs ht

theorem misread_refused_aadhaar : isAadhaar "234123412346".toList = true ∧
    isAadhaar "234123412345".toList = false := by
  have hvalid : isAadhaar "234123412346".toList = true := by decide
  have hmisread : Misread "234123412346".toList "234123412345".toList :=
    .mk "23412341234".toList [] (show (6 : Fin 10) ≠ 5 by decide)
  exact ⟨hvalid, misread_refused (by simp [checksummed]) hmisread hvalid⟩

/-! ## Two digits the wrong way round -/

/-- **Verhoeff's checksum and the one of a TFN notice every pair.** -/
theorem swapped_refused {valid : List Char → Bool} (hvalid : valid ∈ [isAadhaar, isTfn])
    {m n : Fin 10} (hne : m ≠ n) {s t : List Char} (h : Swapped m n s t) (hs : valid s = true) :
    valid t = false := by
  cases h with
  | mk pre sep post hsep =>
    by_contra ht
    rw [Bool.not_eq_false] at ht
    simp only [List.mem_cons, List.not_mem_nil, or_false] at hvalid
    rcases hvalid with rfl | rfl
    · have hsame := (isAadhaar_iff.1 hs).2.trans (isAadhaar_iff.1 ht).2.symm
      simp only [digits_swapped pre post hsep, List.reverse_append, List.reverse_cons,
        List.append_assoc, List.singleton_append] at hsame
      exact hne (verhoeff_swap _ n m (ofGroup_swap_iff.1 hsame)).symm
    · obtain ⟨hlen, hzero⟩ := isTfn_iff.1 hs
      have hsame := hzero.trans (isTfn_iff.1 ht).2.symm
      simp only [digits_swapped pre post hsep, List.length_append, List.length_cons] at hlen hsame
      exact hne (tfn_swap (by omega) m n (weighted_swap_iff.1 hsame))

theorem swapped_refused_aadhaar : isAadhaar "2341 2341 2346".toList = true ∧
    isAadhaar "2341 2341 2364".toList = false := by
  have hvalid : isAadhaar "2341 2341 2346".toList = true := by decide
  have hswapped : Swapped 4 6 "2341 2341 2346".toList "2341 2341 2364".toList :=
    .mk "2341 2341 23".toList [] [] rfl
  exact ⟨hvalid, swapped_refused (by simp) (by decide) hswapped hvalid⟩

theorem isCard_swapped {m n : Fin 10} (hne : m ≠ n) {s t : List Char} (h : Swapped m n s t)
    (hs : isCard s = true) : isCard t = true ↔ Blind m n := by
  cases h with
  | mk pre sep post hsep =>
    obtain ⟨hlen, hzero⟩ := isCard_iff.1 hs
    have hreverse : ∀ a b : Fin 10, (digits pre ++ a.val :: b.val :: digits post).reverse =
        (digits post).reverse ++ b.val :: a.val :: (digits pre).reverse := by
      intro a b
      simp
    rw [isCard_iff]
    simp only [digits_swapped pre post hsep, hreverse, List.length_append, List.length_cons]
      at hlen hzero ⊢
    have hswap : (weighted (luhn 1)).run 0 0
          ((digits post).reverse ++ n.val :: m.val :: (digits pre).reverse) =
        (weighted (luhn 1)).run 0 0
          ((digits post).reverse ++ m.val :: n.val :: (digits pre).reverse) ↔ Blind n m :=
      weighted_swap_iff.trans (luhn_swap (p := 1) (by omega) (0 + (digits post).reverse.length) n m hne.symm)
    rw [hzero] at hswap
    have hblind : Blind n m ↔ Blind m n := by
      unfold Blind
      tauto
    rw [← hblind, ← hswap, eq_comm (a := (0 : ZMod 10))]
    exact and_iff_right hlen

theorem isSaudiId_swapped {m n : Fin 10} (hne : m ≠ n) {s t : List Char} (h : Swapped m n s t)
    (hs : isSaudiId s = true) : isSaudiId t = true ↔ Blind m n := by
  cases h with
  | mk pre sep post hsep =>
    obtain ⟨⟨hlen, hfirst, hall⟩, hzero⟩ := isSaudiId_iff.1 hs
    -- nothing but digits: no separator
    have hnone : asBytes sep = [] := by
      have hdigits : ∀ b ∈ asBytes sep, isAsciiDigit b = true := by
        intro b hb
        refine List.all_eq_true.1 hall b ?_
        simp only [asBytes_append, asBytes_digit, List.mem_append, List.mem_cons]
        tauto
      have hfilter : (asBytes sep).filter isAsciiDigit = [] := List.map_eq_nil_iff.1 hsep
      rwa [List.filter_eq_self.2 hdigits] at hfilter
    rw [isSaudiId_iff]
    simp only [asBytes_append, asBytes_digit, hnone, List.nil_append, List.length_append,
      List.length_cons, List.all_append, List.all_cons, isAsciiDigit_digitByte] at *
    have hswap : (weighted fun i (b : UInt8) => luhn 0 i (b.toNat - 48)).run 0 0
          (asBytes pre ++ digitByte m :: digitByte n :: asBytes post) =
        (weighted fun i (b : UInt8) => luhn 0 i (b.toNat - 48)).run 0 0
          (asBytes pre ++ digitByte n :: digitByte m :: asBytes post) ↔ _ :=
      weighted_swap_iff
    simp only [toNat_digitByte] at hswap
    have hblind := hswap.trans (luhn_swap (p := 0) (by omega) (0 + (asBytes pre).length) m n hne)
    rw [hzero] at hblind
    rw [← hblind, eq_comm (a := (0 : ZMod 10))]
    constructor
    · intro ht
      exact ht.2
    · intro ht
      refine ⟨⟨hlen, ?_, hall⟩, ht⟩
      -- the first digit is 1 or 2, so it is not one of a blind pair
      cases hX : asBytes pre with
      | cons x X =>
        rw [hX] at hfirst
        exact hfirst
      | nil =>
        rw [hX] at hfirst
        have hpair : ∀ m n : Fin 10, Blind m n → digitByte m ≠ 49 ∧ digitByte m ≠ 50 := by decide
        obtain ⟨hone, htwo⟩ := hpair m n (hblind.1 (Eq.symm ht))
        rcases hfirst with hfirst | hfirst
        · exact absurd hfirst hone
        · exact absurd hfirst htwo

/-- **Luhn's checksum notices every pair but 0 and 9.** -/
theorem swapped_luhn {valid : List Char → Bool} (hvalid : valid ∈ [isCard, isSaudiId])
    {m n : Fin 10} (hne : m ≠ n) {s t : List Char} (h : Swapped m n s t) (hs : valid s = true) :
    valid t = true ↔ Blind m n := by
  simp only [List.mem_cons, List.not_mem_nil, or_false] at hvalid
  rcases hvalid with rfl | rfl
  · exact isCard_swapped hne h hs
  · exact isSaudiId_swapped hne h hs

theorem swapped_luhn_card : isCard "4111 1111 1111 1111".toList = true ∧
    isCard "1411 1111 1111 1111".toList = false := by
  have hvalid : isCard "4111 1111 1111 1111".toList = true := by decide
  have hswapped : Swapped 4 1 "4111 1111 1111 1111".toList "1411 1111 1111 1111".toList :=
    .mk [] [] "11 1111 1111 1111".toList rfl
  have hblind : isCard "1411 1111 1111 1111".toList = true ↔ Blind 4 1 :=
    swapped_luhn (by simp) (by decide) hswapped hvalid
  exact ⟨hvalid, Bool.eq_false_iff.2 fun ht => absurd (hblind.1 ht) (by decide)⟩

end Routeplane.Guardrails
