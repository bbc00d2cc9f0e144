import Routeplane.Proxy.Keys
import Mathlib.Logic.Function.Basic

/-!
# The order of a key pool

The keys of a pool are walked health first: those that are not cooling, shuffled, then the
cooling ones by their deadline. The shuffle exchanges each position, from the last one down,
with one at or before it, so it is a function of one draw for each position. From draws to
orders this function is a bijection: with uniform draws every order of the available keys
is as likely as any other.

* `shuffleWith_surjective`, `shuffleWith_injective`: every order is the shuffle of exactly one
  choice of draws.
* `shuffle_eq`: the generator's shuffle is the one of its draws.
* `pool_order`: the order of a resolved pool.
-/

namespace Routeplane

open SplitMix

/-! ## The shuffle of given draws -/

section Shuffle

variable {α : Type*} {l l' : List α} {i j k : ℕ} {d d' : ℕ → ℕ}

theorem length_swapAt : (swapAt l i j).length = l.length := (swapAt_perm l i j).length_eq

/-- An exchange leaves every other position. -/
theorem getElem?_swapAt_of_ne (hi : k ≠ i) (hj : k ≠ j) : (swapAt l i j)[k]? = l[k]? := by
  unfold swapAt
  split
  · rw [List.getElem?_set_ne hj.symm, List.getElem?_set_ne hi.symm]
  · rfl

theorem getElem?_swapAt_left (hi : i < l.length) (hj : j < l.length) :
    (swapAt l i j)[i]? = l[j]? := by
  unfold swapAt
  simp only [List.getElem?_eq_getElem hi, List.getElem?_eq_getElem hj]
  by_cases hij : j = i
  · subst hij
    rw [List.getElem?_set_self (by rw [List.length_set]; exact hi)]
  · rw [List.getElem?_set_ne hij, List.getElem?_set_self hi]

/-- The shuffle that exchanges position `k` with position `d k`, from `i` down to one. -/
def shuffleWith : ℕ → (ℕ → ℕ) → List α → List α
  | 0, _, l => l
  | i + 1, d, l => shuffleWith i d (swapAt l (i + 1) (d (i + 1)))

attribute [local simp] shuffleWith

theorem shuffleWith_perm (i : ℕ) (d : ℕ → ℕ) (l : List α) : (shuffleWith i d l).Perm l := by
  induction i generalizing l with
  | zero => exact .refl l
  | succ i ih => exact (ih _).trans (swapAt_perm l _ _)

/-- The shuffle reads the draws of the positions it exchanges only. -/
theorem shuffleWith_congr (h : ∀ k, 0 < k → k ≤ i → d k = d' k) :
    shuffleWith i d l = shuffleWith i d' l := by
  induction i generalizing l with
  | zero => rfl
  | succ i ih =>
    have htop : d (i + 1) = d' (i + 1) := h (i + 1) (by omega) le_rfl
    rw [shuffleWith, shuffleWith, htop]
    exact ih fun k hk hki => h k hk (by omega)

/-- Positions above the first one exchanged stay. -/
theorem getElem?_shuffleWith_above (hd : ∀ k, d k ≤ k) (hk : i < k) :
    (shuffleWith i d l)[k]? = l[k]? := by
  induction i generalizing l with
  | zero => rfl
  | succ i ih =>
    have hle : d (i + 1) ≤ i + 1 := hd (i + 1)
    rw [shuffleWith, ih (by omega)]
    exact getElem?_swapAt_of_ne (by omega) (by omega)

/-- The last position exchanged holds the element drawn for it. -/
theorem getElem?_shuffleWith_top (hd : ∀ k, d k ≤ k) (hi : i + 1 < l.length) :
    (shuffleWith (i + 1) d l)[i + 1]? = l[d (i + 1)]? := by
  have hle : d (i + 1) ≤ i + 1 := hd (i + 1)
  rw [shuffleWith, getElem?_shuffleWith_above hd (Nat.lt_succ_self i)]
  exact getElem?_swapAt_left hi (by omega)

/-- Two orders that agree above a position have the same elements up to it. -/
theorem perm_take_of_above (hp : l'.Perm l) (h : ∀ k, i < k → l'[k]? = l[k]?) :
    (l'.take (i + 1)).Perm (l.take (i + 1)) := by
  have hdrop : l'.drop (i + 1) = l.drop (i + 1) := by
    refine List.ext_getElem? fun k => ?_
    rw [List.getElem?_drop, List.getElem?_drop]
    exact h _ (by omega)
  refine (List.perm_append_right_iff (l.drop (i + 1))).1 ?_
  have hleft : l'.take (i + 1) ++ l.drop (i + 1) = l' := by
    rw [← hdrop, List.take_append_drop]
  rw [hleft, List.take_append_drop]
  exact hp

/-- **Every order is a shuffle**: draw for each position, from the last one, where the element
that belongs there is. -/
theorem shuffleWith_surjective (hi : i < l.length) (hp : l'.Perm l)
    (h : ∀ k, i < k → l'[k]? = l[k]?) : ∃ d, (∀ k, d k ≤ k) ∧ shuffleWith i d l = l' := by
  induction i generalizing l with
  | zero =>
    refine ⟨fun _ => 0, fun _ => Nat.zero_le _, List.ext_getElem? fun k => ?_⟩
    rcases Nat.eq_zero_or_pos k with rfl | hk
    · -- what is left at the first position is what belongs there
      have htake := perm_take_of_above hp h
      cases l with
      | nil => simp at hi
      | cons a l =>
        cases l' with
        | nil => simp at hp
        | cons b l' =>
          have hab : b = a := by simpa using htake
          rw [hab]
          rfl
    · exact (h k hk).symm
  | succ i ih =>
    have hlen : l'.length = l.length := hp.length_eq
    have hi' : i + 1 < l'.length := by omega
    -- the place of the element that belongs at the top
    have hmem : l'[i + 1] ∈ l.take (i + 2) := by
      refine (perm_take_of_above hp h).subset ?_
      rw [List.mem_take_iff_getElem]
      exact ⟨i + 1, by omega, rfl⟩
    obtain ⟨j, hj, hjx⟩ := List.mem_take_iff_getElem.1 hmem
    have hjl : j < l.length := by omega
    have hswap : ∀ k, i < k → l'[k]? = (swapAt l (i + 1) j)[k]? := by
      intro k hk
      rcases Nat.eq_or_lt_of_le (show i + 1 ≤ k by omega) with rfl | hk'
      · rw [getElem?_swapAt_left hi hjl, List.getElem?_eq_getElem hi',
          List.getElem?_eq_getElem hjl, hjx]
      · rw [getElem?_swapAt_of_ne (by omega) (by omega)]
        exact h k hk'
    obtain ⟨d, hd, hsh⟩ := ih (by rw [length_swapAt]; omega)
      (hp.trans (swapAt_perm l (i + 1) j).symm) hswap
    refine ⟨Function.update d (i + 1) j, fun k => ?_, ?_⟩
    · by_cases hk : k = i + 1
      · subst hk
        rw [Function.update_self]
        omega
      · rw [Function.update_of_ne hk]
        exact hd k
    · rw [shuffleWith, Function.update_self, ← hsh]
      exact shuffleWith_congr fun k _ hk => Function.update_of_ne (by omega) _ _

/-- **Different draws give different orders** of distinct elements. -/
theorem shuffleWith_injective (hn : l.Nodup) (hi : i < l.length) (hd : ∀ k, d k ≤ k)
    (hd' : ∀ k, d' k ≤ k) (h : shuffleWith i d l = shuffleWith i d' l) :
    ∀ k, 0 < k → k ≤ i → d k = d' k := by
  induction i generalizing l with
  | zero =>
    intro k hk hk0
    omega
  | succ i ih =>
    have hle : d (i + 1) ≤ i + 1 := hd (i + 1)
    have hle' : d' (i + 1) ≤ i + 1 := hd' (i + 1)
    have htop : d (i + 1) = d' (i + 1) := by
      have hget : l[d (i + 1)]? = l[d' (i + 1)]? := by
        rw [← getElem?_shuffleWith_top hd hi, ← getElem?_shuffleWith_top hd' hi, h]
      exact (List.getElem?_inj (by omega) hn).1 hget
    rw [shuffleWith, shuffleWith, ← htop] at h
    intro k hk hki
    rcases Nat.eq_or_lt_of_le hki with rfl | hlt
    · exact htop
    · refine ih ((swapAt_perm l _ _).nodup_iff.2 hn) ?_ h k hk (by omega)
      rw [length_swapAt]
      omega

/-- What the generator draws for each position. -/
def rngDraws : ℕ → Rng → ℕ → ℕ
  | 0, _, _ => 0
  | i + 1, rng, k =>
    if k = i + 1 then (rng.nextBelow (i + 2)).1 else rngDraws i (rng.nextBelow (i + 2)).2 k

theorem rngDraws_le (i : ℕ) (rng : Rng) (k : ℕ) : rngDraws i rng k ≤ k := by
  induction i generalizing rng with
  | zero => exact Nat.zero_le _
  | succ i ih =>
    rw [rngDraws]
    split
    · rename_i hk
      have hlt := rng.nextBelow_lt (show 0 < i + 2 by omega)
      omega
    · exact ih _

theorem shuffleFrom_eq (i : ℕ) (l : List α) (rng : Rng) :
    shuffleFrom i l rng = shuffleWith i (rngDraws i rng) l := by
  induction i generalizing l rng with
  | zero => rfl
  | succ i ih =>
    unfold shuffleFrom
    -- the draw is a variable from here on: nothing is to evaluate the generator
    generalize hdrawn : rng.nextBelow (i + 2) = drawn
    obtain ⟨j, rng'⟩ := drawn
    have htop : rngDraws (i + 1) rng (i + 1) = j := by
      rw [rngDraws, if_pos rfl, hdrawn]
    change shuffleFrom i (swapAt l (i + 1) j) rng' = _
    rw [ih, shuffleWith, htop]
    refine shuffleWith_congr fun k _ hk => ?_
    rw [rngDraws, if_neg (by omega), hdrawn]

/-- One draw for each position of a list of `n` elements, at or before it. -/
abbrev Draws (n : ℕ) := ∀ i : Fin n, Fin (i.val + 1)

/-- The draw for a position, zero past the last one. -/
def Draws.at {n : ℕ} (draws : Draws n) (k : ℕ) : ℕ :=
  if h : k < n then (draws ⟨k, h⟩).val else 0

theorem Draws.at_le {n : ℕ} (draws : Draws n) (k : ℕ) : draws.at k ≤ k := by
  unfold Draws.at
  split
  · exact Nat.lt_succ_iff.1 (draws _).isLt
  · exact Nat.zero_le k

def Draws.ofRng (n : ℕ) (rng : Rng) : Draws n :=
  fun i => ⟨rngDraws (n - 1) rng i.val, Nat.lt_succ_iff.2 (rngDraws_le _ _ _)⟩

/-- The shuffle of a list for its draws. -/
def shuffleBy (l : List α) (draws : Draws l.length) : List α :=
  shuffleWith (l.length - 1) draws.at l

/-- **The generator's shuffle is the one of its draws.** -/
theorem shuffle_eq (l : List α) (rng : Rng) : shuffle l rng = shuffleBy l (.ofRng _ rng) := by
  refine (shuffleFrom_eq _ l rng).trans (shuffleWith_congr fun k hk hkl => ?_)
  have hlt : k < l.length := by omega
  rw [Draws.at, dif_pos hlt]
  rfl

/-- **Every order of distinct elements is the shuffle of exactly one choice of draws.** -/
theorem existsUnique_shuffleBy (hn : l.Nodup) (hp : l'.Perm l) :
    ∃! draws : Draws l.length, shuffleBy l draws = l' := by
  rcases Nat.eq_zero_or_pos l.length with h0 | hpos
  · obtain rfl := List.length_eq_zero_iff.1 h0
    obtain rfl := List.perm_nil.1 hp
    exact ⟨fun i => i.elim0, rfl, fun _ _ => funext fun i => i.elim0⟩
  · have hlen : l'.length = l.length := hp.length_eq
    obtain ⟨d, hd, hsh⟩ := shuffleWith_surjective (i := l.length - 1) (by omega) hp
      fun k hk => by
        rw [List.getElem?_eq_none (by omega), List.getElem?_eq_none (by omega)]
    refine ⟨fun i => ⟨d i.val, Nat.lt_succ_iff.2 (hd _)⟩, ?_, fun draws hdraws => ?_⟩
    · rw [← hsh]
      refine shuffleWith_congr fun k hk hkl => ?_
      have hlt : k < l.length := by omega
      rw [Draws.at, dif_pos hlt]
    · have hinj := shuffleWith_injective hn (show l.length - 1 < l.length by omega)
        draws.at_le hd (hdraws.trans hsh.symm)
      funext i
      refine Fin.ext ?_
      rcases Nat.eq_zero_or_pos i.val with h0 | hi
      · -- the first position has one draw
        have hb := (draws i).isLt
        have hd0 := hd i.val
        change (draws i).val = d i.val
        omega
      · have hk := hinj i.val hi (by omega)
        rw [Draws.at, dif_pos i.isLt] at hk
        exact hk

end Shuffle

/-! ## The order of a resolved pool -/

section Pool

variable (st : AppState) (value : String)

/-- **The resolvable elements, with their declared positions.** -/
theorem mem_resolvePool {i : ℕ} {key : String} :
    (i, key) ∈ st.resolvePool value ↔
      key ≠ "" ∧ ∃ raw, (splitText ',' value)[i]? = some raw ∧ st.expandEnv (trimText raw) = key := by
  unfold AppState.resolvePool
  rw [List.mem_filterMap]
  constructor
  · rintro ⟨⟨raw, idx⟩, hmem, hkey⟩
    have hget := List.mem_zipIdx_iff_getElem?.1 hmem
    simp only at hkey
    split at hkey
    · simp at hkey
    · rename_i hne
      simp only [Option.some.injEq, Prod.mk.injEq] at hkey
      obtain ⟨rfl, rfl⟩ := hkey
      exact ⟨fun h => hne (by rw [h]; rfl), raw, hget, rfl⟩
  · rintro ⟨hne, raw, hget, rfl⟩
    refine ⟨(raw, i), List.mem_zipIdx_iff_getElem?.2 hget, ?_⟩
    simp only
    rw [if_neg]
    simpa using hne

variable (pool : List (ℕ × String)) (tenant provider : String) (health : HealthTracker) (now : ℕ)

/-- The keys that are not cooling. -/
def availableKeys : List (ℕ × String) :=
  pool.filter fun k => health.keyAvailable tenant provider k.1 now

/-- The cooling keys, by their deadline. -/
def cooledKeys : List (ℕ × String) :=
  (pool.filter fun k => !health.keyAvailable tenant provider k.1 now).mergeSort fun a b =>
    decide (health.keyCooledUntil tenant provider a.1 ≤ health.keyCooledUntil tenant provider b.1)

/-- The order of a pool for given draws. -/
def orderPoolKeysBy (draws : Draws (availableKeys pool tenant provider health now).length) :
    List (ℕ × String) :=
  shuffleBy (availableKeys pool tenant provider health now) draws ++
    cooledKeys pool tenant provider health now

theorem orderPoolKeys_eq (rng : Rng) :
    orderPoolKeys pool tenant provider health now rng =
      orderPoolKeysBy pool tenant provider health now (.ofRng _ rng) := by
  unfold orderPoolKeys orderPoolKeysBy
  rw [← shuffle_eq]
  simp only [List.partition_eq_filter_filter]
  rfl

theorem cooledKeys_sorted :
    (cooledKeys pool tenant provider health now).Pairwise fun a b =>
      health.keyCooledUntil tenant provider a.1 ≤ health.keyCooledUntil tenant provider b.1 := by
  have hsorted : (cooledKeys pool tenant provider health now).Pairwise fun a b => decide
      (health.keyCooledUntil tenant provider a.1 ≤ health.keyCooledUntil tenant provider b.1) :=
    List.pairwise_mergeSort
      (fun a b c hab hbc => decide_eq_true
        ((of_decide_eq_true hab).trans (of_decide_eq_true hbc)))
      (fun a b => by
        rw [Bool.or_eq_true, decide_eq_true_iff, decide_eq_true_iff]
        exact le_total _ _)
      _
  exact hsorted.imp of_decide_eq_true

/-- **The walk of a key pool is a health-first permutation of its resolvable elements.** Its keys
are those elements at their declared positions; the available ones come first; the cooling ones
follow by their deadline; and each order of the available ones comes from exactly one choice of
draws. -/
theorem pool_order :
    (∀ i key, (i, key) ∈ st.resolvePool value ↔
      key ≠ "" ∧ ∃ raw, (splitText ',' value)[i]? = some raw ∧
        st.expandEnv (trimText raw) = key) ∧
    ((st.resolvePool value).map Prod.fst).Nodup ∧
    (∀ rng,
      (orderPoolKeys (st.resolvePool value) tenant provider health now rng).Perm
        (st.resolvePool value) ∧
      ∃ first last, orderPoolKeys (st.resolvePool value) tenant provider health now rng =
          first ++ last ∧
        (∀ key ∈ first, health.keyAvailable tenant provider key.1 now = true) ∧
        (∀ key ∈ last, health.keyAvailable tenant provider key.1 now = false) ∧
        last.Pairwise fun a b =>
          health.keyCooledUntil tenant provider a.1 ≤ health.keyCooledUntil tenant provider b.1) ∧
    (∀ rng, orderPoolKeys (st.resolvePool value) tenant provider health now rng =
      orderPoolKeysBy (st.resolvePool value) tenant provider health now (.ofRng _ rng)) ∧
    ∀ order, order.Perm (availableKeys (st.resolvePool value) tenant provider health now) →
      ∃! draws, orderPoolKeysBy (st.resolvePool value) tenant provider health now draws =
        order ++ cooledKeys (st.resolvePool value) tenant provider health now := by
  refine ⟨fun _ _ => mem_resolvePool st value, resolvePool_nodup value, fun rng => ⟨?_, ?_⟩,
    fun rng => orderPoolKeys_eq _ _ _ _ _ rng, fun order horder => ?_⟩
  · exact orderPoolKeys_perm rng
  · refine ⟨_, _, orderPoolKeys_eq _ _ _ _ _ rng, fun key hkey => ?_, fun key hkey => ?_,
      cooledKeys_sorted _ _ _ _ _⟩
    · have hmem := (shuffleWith_perm _ _ _).subset hkey
      exact (List.mem_filter.1 hmem).2
    · have hmem := (List.mergeSort_perm _ _).subset hkey
      simpa using (List.mem_filter.1 hmem).2
  · have hpool : (st.resolvePool value).Nodup := .of_map _ (resolvePool_nodup value)
    obtain ⟨draws, hdraws, huniq⟩ := existsUnique_shuffleBy
      (hpool.filter _ : (availableKeys _ tenant provider health now).Nodup) horder
    refine ⟨draws, congrArg (· ++ _) hdraws, fun other hother => huniq other ?_⟩
    exact List.append_cancel_right hother

end Pool

end Routeplane
