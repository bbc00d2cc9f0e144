import Routeplane.Guardrails.Leak
import Routeplane.Lib.RollingHash
import Mathlib.Data.UInt
import Mathlib.Order.Bounds.Basic

/-!
# The leak detector and its definition

An output leaks the system prompt where some words in a row are words in a row of the prompt. The
detector follows the hashes of both along and compares words only where hashes agree.

* `roll_full`, `roll_short`, `roll_leave`: the hash follows the window.
* `mem_spanHashes`, `anySpan_iff`: the two loops.
* `hasSharedSpan_iff`: a run of a length is found exactly where there is one.
* `leak_detector_naive`: the detector, the longest run and the bucket answer as the definition does.
-/

namespace Routeplane.Guardrails

open RollingHash
open scoped UInt64.CommRing

variable {sysWords outWords : List Word} {tok : List UInt64} {i k m n : ℕ}

/-! ## The hash follows the window -/

noncomputable abbrev windowHash (tok : List UInt64) (n k : ℕ) : UInt64 := poly hashBase (window tok n k)

theorem hashPow_eq : ∀ n, hashPow n = hashBase ^ n
  | 0 => (pow_zero _).symm
  | n + 1 => by
    unfold hashPow
    rw [hashPow_eq n, pow_succ]

theorem roll_full (hm : m ≤ i) (hi : i < tok.length) :
    windowHash tok m i * hashBase + tok[i] = windowHash tok (m + 1) (i + 1) := by
  unfold windowHash
  rw [window_succ hm hi, poly_push]

theorem roll_short (hm : i < m) (hi : i < tok.length) :
    windowHash tok m i * hashBase + tok[i] = windowHash tok m (i + 1) := by
  have hall : ∀ j ≤ m, window tok m j = tok.take j := by
    intro j hj
    unfold window
    rw [Nat.sub_eq_zero_of_le hj, List.drop_zero]
  unfold windowHash
  rw [hall i hm.le, hall (i + 1) hm, ← List.take_append_getElem hi, poly_push]

theorem roll_leave (hm : m < i) (hi : i ≤ tok.length) :
    windowHash tok (m + 1) i - tok.getD (i - (m + 1)) 0 * hashPow m = windowHash tok m i := by
  have hlt : i - (m + 1) < tok.length := by omega
  have hlen : (window tok m i).length = m := length_window hm.le hi
  have hget : tok.getD (i - (m + 1)) 0 = tok[i - (m + 1)] := by
    rw [List.getD_eq_getElem?_getD, List.getElem?_eq_getElem hlt, Option.getD_some]
  unfold windowHash
  rw [window_leave hm hi, hget, hashPow_eq]
  have hleave := poly_leave hashBase tok[i - (m + 1)] (window tok m i)
  rw [hlen] at hleave
  exact hleave

/-! ## The loops -/

/-- What is left of the tokens starts with the next one. -/
theorem next_of_drop {t : UInt64} {rest : List UInt64} (h : tok.drop i = t :: rest) :
    ∃ hi : i < tok.length, tok[i] = t ∧ tok.drop (i + 1) = rest := by
  have hi : i < tok.length := by
    by_contra hle
    rw [List.drop_eq_nil_of_le (Nat.not_lt.1 hle)] at h
    cases h
  rw [List.drop_eq_getElem_cons hi] at h
  obtain ⟨hhead, htail⟩ := List.cons.inj h
  exact ⟨hi, hhead, htail⟩

/-- **Every window of the length is hashed.** By induction on the tokens to come. -/
theorem mem_spanHashes : ∀ {rest : List UInt64} {i : ℕ}, tok.drop i = rest → i < k →
    k ≤ tok.length → m + 1 ≤ k →
    windowHash tok (m + 1) k ∈ spanHashes tok (m + 1) i (windowHash tok m i) rest
  | [], i, hdrop, hik, hk, _ => by
    have hle := List.drop_eq_nil_iff.1 hdrop
    omega
  | t :: rest, i, hdrop, hik, hk, hm => by
    obtain ⟨hi, rfl, hrest⟩ := next_of_drop hdrop
    unfold spanHashes
    dsimp only
    split
    · rename_i hfull
      have hle : m ≤ i := by omega
      rw [roll_full hle hi, Nat.add_sub_cancel,
        roll_leave (Nat.lt_succ_of_le hle) (Nat.succ_le_of_lt hi)]
      rcases Nat.eq_or_lt_of_le (Nat.succ_le_of_lt hik) with heq | hlt
      · rw [← heq]
        exact List.mem_cons_self
      · exact List.mem_cons_of_mem _ (mem_spanHashes hrest hlt hk hm)
    · rename_i hshort
      have hlt : i < m := by omega
      rw [roll_short hlt hi]
      exact mem_spanHashes hrest (by omega) hk hm

/-- **The search over the output**: some window has a hash of the system's and is a run of it. -/
theorem anySpan_iff (sysWords outWords : List Word) (sysHashes : List UInt64) :
    ∀ {rest : List UInt64} {i : ℕ}, tok.drop i = rest →
    (anySpan sysHashes sysWords outWords tok (m + 1) i (windowHash tok m i) rest = true ↔
      ∃ k, i < k ∧ k ≤ tok.length ∧ m + 1 ≤ k ∧ windowHash tok (m + 1) k ∈ sysHashes ∧
        systemContainsSpan sysWords (window outWords (m + 1) k) = true)
  | [], i, hdrop => by
    have hle := List.drop_eq_nil_iff.1 hdrop
    refine iff_of_false Bool.false_ne_true ?_
    rintro ⟨k, hik, hk, -⟩
    omega
  | t :: rest, i, hdrop => by
    obtain ⟨hi, rfl, hrest⟩ := next_of_drop hdrop
    have hstep := anySpan_iff sysWords outWords sysHashes hrest
    unfold anySpan
    dsimp only
    split
    · rename_i hfull
      have hle : m ≤ i := by omega
      have hwindow : (outWords.take (i + 1)).drop (i + 1 - (m + 1)) =
        window outWords (m + 1) (i + 1) := rfl
      rw [roll_full hle hi, Nat.add_sub_cancel,
        roll_leave (Nat.lt_succ_of_le hle) (Nat.succ_le_of_lt hi), hwindow]
      split
      · rename_i hfound
        rw [Bool.and_eq_true, List.contains_iff_mem] at hfound
        exact iff_of_true rfl ⟨i + 1, Nat.lt_succ_self i, hi, hfull, hfound.1, hfound.2⟩
      · rename_i hnot
        rw [Bool.and_eq_true, List.contains_iff_mem] at hnot
        rw [hstep]
        constructor
        · rintro ⟨k, hik, hrest⟩
          exact ⟨k, by omega, hrest⟩
        · rintro ⟨k, hik, hk, hmk, hmem, hspan⟩
          rcases Nat.eq_or_lt_of_le (Nat.succ_le_of_lt hik) with heq | hlt
          · rw [← heq] at hmem hspan
            exact absurd ⟨hmem, hspan⟩ hnot
          · exact ⟨k, hlt, hk, hmk, hmem, hspan⟩
    · rename_i hshort
      have hlt : i < m := by omega
      rw [roll_short hlt hi, hstep]
      constructor
      · rintro ⟨k, hik, hrest⟩
        exact ⟨k, by omega, hrest⟩
      · rintro ⟨k, hik, hk, hmk, hrest⟩
        exact ⟨k, by omega, hk, hmk, hrest⟩

theorem systemContainsSpan_iff {span : List Word} (hne : span ≠ []) :
    systemContainsSpan sysWords span = true ↔ span <:+: sysWords := by
  have hpos : 0 < span.length := List.length_pos_of_ne_nil hne
  unfold systemContainsSpan
  split
  · rename_i hshort
    rw [Bool.or_eq_true, List.isEmpty_iff, decide_eq_true_eq] at hshort
    refine iff_of_false Bool.false_ne_true fun hin => ?_
    have hle := hin.length_le
    rcases hshort with h | h
    · exact hne h
    · omega
  · rename_i hlong
    rw [Bool.or_eq_true, not_or, decide_eq_true_eq] at hlong
    rw [List.any_eq_true]
    constructor
    · rintro ⟨w, hw, heq⟩
      obtain ⟨i, -, rfl⟩ := List.mem_map.1 hw
      rw [← eq_of_beq heq]
      exact (List.take_prefix _ _).isInfix.trans (List.drop_suffix _ _).isInfix
    · rintro ⟨u, v, huv⟩
      have hlen := congrArg List.length huv
      rw [List.length_append, List.length_append] at hlen
      refine ⟨span, List.mem_map.2 ⟨u.length, List.mem_range.2 (by omega), ?_⟩, beq_self_eq_true _⟩
      rw [← huv, List.append_assoc, List.drop_left, List.take_left]

/-! ## Runs in common -/

theorem anySpan_shared_iff (hn : 0 < n) :
    anySpan (spanHashes (sysWords.map tokenHash) n 0 0 (sysWords.map tokenHash)) sysWords outWords
      (outWords.map tokenHash) n 0 0 (outWords.map tokenHash) = true ↔
        Shared sysWords outWords n := by
  obtain ⟨m, rfl⟩ := Nat.exists_eq_succ_of_ne_zero hn.ne'
  have hzero : ∀ tok : List UInt64, windowHash tok m 0 = 0 := by
    intro tok
    unfold windowHash window
    rw [List.take_zero, List.drop_nil]
    rfl
  have hsys := fun k => mem_spanHashes (k := k) (m := m)
    (List.drop_zero (l := sysWords.map tokenHash))
  have hout := anySpan_iff (m := m) sysWords outWords
    (spanHashes (sysWords.map tokenHash) (m + 1) 0 0 (sysWords.map tokenHash))
    (List.drop_zero (l := outWords.map tokenHash))
  rw [hzero] at hout
  simp only [hzero] at hsys
  rw [hout]
  constructor
  · rintro ⟨k, -, hk, hmk, -, hspan⟩
    rw [List.length_map] at hk
    have hlen : (window outWords (m + 1) k).length = m + 1 := length_window hmk hk
    have hne : window outWords (m + 1) k ≠ [] := by
      intro hnil
      rw [hnil] at hlen
      cases hlen
    exact ⟨_, hlen, (systemContainsSpan_iff hne).1 hspan, window_infix _ _ _⟩
  · intro hshared
    obtain ⟨j, k, ⟨hmj, hj⟩, ⟨hmk, hk⟩, heq⟩ := shared_iff.1 hshared
    have hlen : (window outWords (m + 1) k).length = m + 1 := length_window hmk hk
    have hne : window outWords (m + 1) k ≠ [] := by
      intro hnil
      rw [hnil] at hlen
      cases hlen
    have hhash : windowHash (outWords.map tokenHash) (m + 1) k =
        windowHash (sysWords.map tokenHash) (m + 1) j := by
      unfold windowHash
      rw [← map_window, ← map_window, heq]
    refine ⟨k, by omega, by rw [List.length_map]; exact hk, hmk, ?_, ?_⟩
    · rw [hhash]
      exact hsys j (by omega) (by rw [List.length_map]; exact hj) hmj
    · rw [systemContainsSpan_iff hne, ← heq]
      exact window_infix _ _ _

/-- **A run of a length is found** exactly where there is one. -/
theorem hasSharedSpan_iff (sysWords outWords : List Word) (hn : 0 < n) :
    hasSharedSpan sysWords outWords n = true ↔ Shared sysWords outWords n := by
  unfold hasSharedSpan
  split
  · rename_i hshort
    refine iff_of_false Bool.false_ne_true fun h => ?_
    have hleft := h.le_left
    have hright := h.le_right
    simp only [Bool.or_eq_true, decide_eq_true_eq] at hshort
    omega
  · exact anySpan_shared_iff hn

/-- **The search for the longest run**, from a length on. By induction on the lengths to come. -/
theorem longestFrom_spec (sysWords outWords : List Word) : ∀ (fuel : ℕ) {n : ℕ} (best : ℕ), 0 < n →
    min sysWords.length outWords.length < n + fuel →
    (Shared sysWords outWords n →
      IsGreatest {k | Shared sysWords outWords k} (longestFrom sysWords outWords fuel n best)) ∧
    (¬ Shared sysWords outWords n → longestFrom sysWords outWords fuel n best = best)
  | 0, n, best, _, hbound => by
    have hno : ¬ Shared sysWords outWords n := by
      intro h
      have hleft := h.le_left
      have hright := h.le_right
      omega
    exact ⟨fun h => absurd h hno, fun _ => rfl⟩
  | fuel + 1, n, best, hn, hbound => by
    have hiff := hasSharedSpan_iff sysWords outWords hn
    unfold longestFrom
    split
    · rename_i hfound
      have hshared := hiff.1 hfound
      obtain ⟨hlonger, hstop⟩ := longestFrom_spec sysWords outWords fuel n (Nat.succ_pos n)
        (show _ < n + 1 + fuel by omega)
      refine ⟨fun _ => ?_, fun h => absurd hshared h⟩
      by_cases hnext : Shared sysWords outWords (n + 1)
      · exact hlonger hnext
      · rw [hstop hnext]
        refine ⟨hshared, fun k hk => ?_⟩
        by_contra hlt
        exact hnext (Shared.mono hk (Nat.succ_le_of_lt (Nat.not_le.1 hlt)))
    · rename_i hno
      exact ⟨fun h => absurd (hiff.2 h) hno, fun _ => rfl⟩

/-! ## The detector -/

section

variable (toLowercase : List Char → List Char) (system output : List Char) (minSpanWords : ℕ)

theorem clampSpan_pos : 0 < clampSpan minSpanWords := by
  unfold clampSpan leakMinSpanFloor leakMaxWords
  omega

/-- The prompt and the output have a run of `n` normalised words in common. -/
def Leaks (n : ℕ) : Prop :=
  Shared (normalizeWords toLowercase system) (normalizeWords toLowercase output) n

theorem detect_iff : detectSystemPromptLeak toLowercase system output minSpanWords = true ↔
    Leaks toLowercase system output (clampSpan minSpanWords) := by
  have hpos := clampSpan_pos minSpanWords
  unfold detectSystemPromptLeak
  dsimp only
  split
  · rename_i hshort
    refine iff_of_false Bool.false_ne_true fun h => ?_
    have hleft := h.le_left
    have hright := h.le_right
    simp only [Bool.or_eq_true, decide_eq_true_eq] at hshort
    omega
  · exact anySpan_shared_iff hpos

/-- The name of a length. -/
def bucketOf (span : ℕ) : String :=
  if span ≤ 15 then "short" else if span ≤ 63 then "medium" else "large"

/-- **The detector answers as its definition does**: there is a leak exactly where a run of the
length is shared, the longest span is the length of the longest shared run, and the bucket is its
bucket. -/
theorem leak_detector_naive :
    (detectSystemPromptLeak toLowercase system output minSpanWords = true ↔
      Leaks toLowercase system output (clampSpan minSpanWords)) ∧
    (Leaks toLowercase system output (clampSpan minSpanWords) →
      IsGreatest {n | Leaks toLowercase system output n}
        (longestSharedSpanWords toLowercase system output minSpanWords) ∧
      leakSpanBucket toLowercase system output minSpanWords =
        some (bucketOf (longestSharedSpanWords toLowercase system output minSpanWords))) ∧
    (¬ Leaks toLowercase system output (clampSpan minSpanWords) →
      longestSharedSpanWords toLowercase system output minSpanWords = 0 ∧
      leakSpanBucket toLowercase system output minSpanWords = none) := by
  have hdetect := detect_iff toLowercase system output minSpanWords
  have hlongest := longestFrom_spec (normalizeWords toLowercase system)
    (normalizeWords toLowercase output) (min (normalizeWords toLowercase system).length
      (normalizeWords toLowercase output).length + 1 - clampSpan minSpanWords) 0
    (clampSpan_pos minSpanWords) (by omega)
  refine ⟨hdetect, fun hleaks => ⟨hlongest.1 hleaks, ?_⟩, fun hno => ⟨hlongest.2 hno, ?_⟩⟩
  · unfold leakSpanBucket
    rw [hdetect.2 hleaks]
    rfl
  · unfold leakSpanBucket
    rw [Bool.eq_false_iff.2 fun h => hno (hdetect.1 h)]
    rfl

end

/-- One word in common is no leak, whatever length is asked for. -/
theorem one_word_shared :
    detectSystemPromptLeak id "secret".toList "secret".toList 1 = false ∧
      Leaks id "secret".toList "secret".toList 1 := by
  refine ⟨by decide, "secret".toList :: [], rfl, ?_, ?_⟩
  · exact List.infix_rfl
  · exact List.infix_rfl

end Routeplane.Guardrails
