import Mathlib.Algebra.Ring.Nat
import Mathlib.Data.Nat.Notation
import Mathlib.Logic.Function.Basic
import Mathlib.Data.List.Perm.Basic
import Mathlib.Algebra.BigOperators.Group.List.Basic
import Mathlib.Algebra.Order.BigOperators.Group.List

/-!
# Pseudo-random words and the orders drawn from them

A counter advanced by a fixed odd constant and scrambled by two xor-shift-multiply
rounds. Each round is a bijection of the 64-bit words, so every word is the first
output of some seed: a caller that draws once from an arbitrary seed draws an
arbitrary word.

To order a pool, draw an element with probability proportional to its weight, remove it, repeat. The
order is a permutation of the pool whatever the draws; it commutes with relabelling
the elements; and from some seed any chosen element comes first.

* `mix_surjective`: the scrambler reaches every word.
* `exists_seed`: every word is the first draw of some seed.
* `weightedOrder_perm`: a permutation.
* `weightedOrder_map`: relabelling.
* `exists_seed_first`: every element is the first of some order.
-/

namespace SplitMix

/-- The generator's state. -/
structure Rng where
  state : BitVec 64

def Rng.seeded (seed : BitVec 64) : Rng := ⟨seed⟩

/-- One xor-shift by `k` bits. -/
def xorShift (k : ℕ) (z : BitVec 64) : BitVec 64 := z ^^^ (z >>> k)

def mix (z : BitVec 64) : BitVec 64 :=
  xorShift 31 (xorShift 27 (xorShift 30 z * 0xBF58476D1CE4E5B9#64) * 0x94D049BB133111EB#64)

/-- The next word, and the advanced state. -/
def Rng.nextU64 (r : Rng) : BitVec 64 × Rng :=
  let state := r.state + 0x9E3779B97F4A7C15#64
  (mix state, ⟨state⟩)

/-- A draw in `[0, bound)`. -/
def Rng.nextBelow (r : Rng) (bound : ℕ) : ℕ × Rng :=
  let (w, r') := r.nextU64
  (w.toNat % bound, r')

theorem Rng.nextBelow_lt (r : Rng) {bound : ℕ} (hb : 0 < bound) : (r.nextBelow bound).1 < bound :=
  Nat.mod_lt _ hb

/-- A shift by more than a third of the width is undone by repeating it twice over. -/
theorem xorShift_inverse {k : ℕ} (hk : 64 ≤ 3 * k) (z : BitVec 64) :
    xorShift k (z ^^^ (z >>> k) ^^^ (z >>> (2 * k))) = z := by
  ext i hi
  simp only [xorShift, BitVec.getElem_xor, BitVec.getElem_ushiftRight, BitVec.getLsbD_xor,
    BitVec.getLsbD_ushiftRight]
  have hout : z.getLsbD (2 * k + (k + i)) = false := BitVec.getLsbD_of_ge _ _ (by omega)
  have hsum : k + (k + i) = 2 * k + i := by omega
  rw [hout, hsum]
  cases z[i] <;> cases z.getLsbD (k + i) <;> cases z.getLsbD (2 * k + i) <;> rfl

theorem xorShift_surjective {k : ℕ} (hk : 64 ≤ 3 * k) : Function.Surjective (xorShift k) :=
  fun z => ⟨_, xorShift_inverse hk z⟩

theorem mul_surjective {c d : BitVec 64} (hcd : d * c = 1#64) :
    Function.Surjective (fun z : BitVec 64 => z * c) := fun w => ⟨w * d, by
  change w * d * c = w
  rw [BitVec.mul_assoc, hcd, BitVec.mul_one]⟩

theorem mix_surjective : Function.Surjective mix := by
  have h1 : Function.Surjective (fun z : BitVec 64 => z * 0xBF58476D1CE4E5B9#64) :=
    mul_surjective (d := 0x96DE1B173F119089#64) (by decide)
  have h2 : Function.Surjective (fun z : BitVec 64 => z * 0x94D049BB133111EB#64) :=
    mul_surjective (d := 0x319642B2D24D8EC3#64) (by decide)
  have hx : ∀ k, 64 ≤ 3 * k → Function.Surjective (xorShift k) := fun _ => xorShift_surjective
  exact (hx 31 (by decide)).comp
    (h2.comp ((hx 27 (by decide)).comp (h1.comp (hx 30 (by decide)))))

/-- **Every word is the first draw of some seed.** -/
theorem exists_seed (w : BitVec 64) : ∃ seed, (Rng.seeded seed).nextU64.1 = w := by
  obtain ⟨s, hs⟩ := mix_surjective w
  refine ⟨s - 0x9E3779B97F4A7C15#64, ?_⟩
  change mix (s - 0x9E3779B97F4A7C15#64 + 0x9E3779B97F4A7C15#64) = w
  rw [BitVec.sub_add_cancel, hs]

/-- Below any bound, every value that fits a word is the first draw of some seed. -/
theorem exists_seed_below {bound v : ℕ} (hv : v < bound) (hw : v < 2 ^ 64) :
    ∃ seed, ((Rng.seeded seed).nextBelow bound).1 = v := by
  obtain ⟨seed, hs⟩ := exists_seed (BitVec.ofNat 64 v)
  refine ⟨seed, ?_⟩
  change (Rng.seeded seed).nextU64.1.toNat % bound = v
  rw [hs, BitVec.toNat_ofNat, Nat.mod_eq_of_lt hw, Nat.mod_eq_of_lt hv]

end SplitMix

/-! ## Ordering a pool by repeated weighted draws -/

namespace Weighted

open SplitMix

variable {α β : Type*}

/-- The first position whose weight exceeds what is left of `pick`. -/
def pickIdx : List ℕ → ℕ → Option ℕ
  | [], _ => none
  | w :: ws, pick => if pick < w then some 0 else (pickIdx ws (pick - w)).map (· + 1)

/-- The chosen position: the first one when no weight is hit. -/
def chosen (weights : List ℕ) (pick : ℕ) : ℕ := (pickIdx weights pick).getD 0

/-- One draw: the chosen position and the advanced generator. -/
def draw (weight : α → ℕ) (rng : Rng) (pool : List α) : ℕ × Rng :=
  let weights := pool.map weight
  let (pick, rng) := rng.nextBelow (max weights.sum 1)
  (chosen weights pick, rng)

/-- Draw and remove, `n` times. -/
def orderN (weight : α → ℕ) : ℕ → Rng → List α → List α × Rng
  | 0, rng, _ => ([], rng)
  | n + 1, rng, pool =>
    let (i, rng) := draw weight rng pool
    match pool[i]? with
    | some x =>
      let (rest, rng) := orderN weight n rng (pool.eraseIdx i)
      (x :: rest, rng)
    | none => ([], rng)

def weightedOrder (weight : α → ℕ) (rng : Rng) (pool : List α) : List α × Rng :=
  orderN weight pool.length rng pool

theorem pickIdx_lt : ∀ {ws : List ℕ} {pick i : ℕ}, pickIdx ws pick = some i → i < ws.length
  | [], _, _, h => by simp [pickIdx] at h
  | w :: ws, pick, i, h => by
    rw [pickIdx] at h
    split at h
    · obtain rfl : 0 = i := by simpa using h
      simp
    · obtain ⟨j, hj, rfl⟩ := Option.map_eq_some_iff.1 h
      have := pickIdx_lt hj
      simpa using this

theorem chosen_lt (ws : List ℕ) (hws : ws ≠ []) (pick : ℕ) : chosen ws pick < ws.length := by
  rw [chosen]
  cases h : pickIdx ws pick with
  | none => exact List.length_pos_iff.2 hws
  | some i => exact pickIdx_lt h

/-- The sum of the weights before a position picks that position. -/
theorem chosen_sum_take {ws : List ℕ} {j : ℕ} (hj : j < ws.length) (hpos : 0 < ws[j]) :
    chosen ws (ws.take j).sum = j := by
  have hp : ∀ (ws : List ℕ) (j : ℕ) (hj : j < ws.length), 0 < ws[j] →
      pickIdx ws (ws.take j).sum = some j := by
    intro ws
    induction ws with
    | nil => intro j hj; simp at hj
    | cons w ws ih =>
      intro j hj hpos
      cases j with
      | zero => simp only [List.getElem_cons_zero] at hpos; simp [pickIdx, hpos]
      | succ j =>
        have hj' : j < ws.length := by simpa using hj
        have := ih j hj' (by simpa using hpos)
        simp [pickIdx, this]
  rw [chosen, hp ws j hj hpos]
  rfl

theorem draw_lt (weight : α → ℕ) (rng : Rng) {pool : List α} (h : pool ≠ []) :
    (draw weight rng pool).1 < pool.length := by
  have := chosen_lt (pool.map weight) (by simpa using h)
    (rng.nextBelow (max (pool.map weight).sum 1)).1
  simpa [draw] using this

theorem orderN_perm (weight : α → ℕ) :
    ∀ (n : ℕ) (rng : Rng) (pool : List α),
      pool.length = n → (orderN weight n rng pool).1.Perm pool
  | 0, _, pool, h => by rw [List.length_eq_zero_iff.1 h]; exact .nil
  | n + 1, rng, pool, h => by
    have hne : pool ≠ [] := by rintro rfl; simp at h
    have hlt := draw_lt weight rng hne
    rw [orderN]
    simp only [List.getElem?_eq_getElem hlt]
    have ih := orderN_perm weight n (draw weight rng pool).2
      (pool.eraseIdx (draw weight rng pool).1) (by rw [List.length_eraseIdx_of_lt hlt]; omega)
    exact (ih.cons _).trans (List.getElem_cons_eraseIdx_perm hlt)

/-- **Nothing is lost or drawn twice.** -/
theorem weightedOrder_perm (weight : α → ℕ) (rng : Rng) (pool : List α) :
    (weightedOrder weight rng pool).1.Perm pool := orderN_perm weight _ rng pool rfl

theorem draw_map (f : β → α) (weight : α → ℕ) (rng : Rng) (pool : List β) :
    draw weight rng (pool.map f) = draw (weight ∘ f) rng pool := by
  simp [draw]

theorem orderN_map (f : β → α) (weight : α → ℕ) :
    ∀ (n : ℕ) (rng : Rng) (pool : List β),
      orderN weight n rng (pool.map f) =
        ((orderN (weight ∘ f) n rng pool).1.map f, (orderN (weight ∘ f) n rng pool).2)
  | 0, _, _ => rfl
  | n + 1, rng, pool => by
    rw [orderN, orderN, draw_map]
    simp only [List.getElem?_map]
    cases h : pool[(draw (weight ∘ f) rng pool).1]? with
    | none => rfl
    | some x =>
      simp only [Option.map_some, List.eraseIdx_map, orderN_map f weight n, List.map_cons]

/-- **Relabelling the elements relabels the order.** -/
theorem weightedOrder_map (f : β → α) (weight : α → ℕ) (rng : Rng) (pool : List β) :
    weightedOrder weight rng (pool.map f) =
      ((weightedOrder (weight ∘ f) rng pool).1.map f, (weightedOrder (weight ∘ f) rng pool).2) := by
  rw [weightedOrder, weightedOrder, List.length_map, orderN_map]

/-- **Any element of positive weight is first from some seed**, while the weights before it
sum to less than a word. -/
theorem exists_seed_first (weight : α → ℕ) {pool : List α} {j : ℕ} (hj : j < pool.length)
    (hpos : 0 < weight pool[j]) (hw : ((pool.take j).map weight).sum < 2 ^ 64) :
    ∃ seed rest, (weightedOrder weight (Rng.seeded seed) pool).1 = pool[j] :: rest := by
  have hj' : j < (pool.map weight).length := by simpa using hj
  have hsum : ((pool.map weight).take j).sum < max (pool.map weight).sum 1 := by
    have hsplit := List.sum_take_add_sum_drop (pool.map weight) j
    rw [List.drop_eq_getElem_cons hj', List.sum_cons, List.getElem_map] at hsplit
    omega
  obtain ⟨seed, hseed⟩ := exists_seed_below hsum (by rwa [← List.map_take])
  have hdraw : (draw weight (Rng.seeded seed) pool).1 = j := by
    simp only [draw, hseed]
    exact chosen_sum_take hj' (by simpa using hpos)
  obtain ⟨n, hn⟩ : ∃ n, pool.length = n + 1 := ⟨pool.length - 1, by omega⟩
  refine ⟨seed, (orderN weight n (draw weight (Rng.seeded seed) pool).2 (pool.eraseIdx j)).1, ?_⟩
  rw [weightedOrder, hn, orderN]
  simp only [hdraw, List.getElem?_eq_getElem hj]

end Weighted
