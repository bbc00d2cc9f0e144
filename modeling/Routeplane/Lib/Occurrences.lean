import Mathlib.Data.List.Basic
import Mathlib.Data.Nat.Notation
import Mathlib.Tactic.Common

/-!
# Occurrences of a marker in a text

A marker starts with a character that opens it, ends with one that closes it and has neither of
them within. Where a piece without them gives way to another marker, no occurrence of a marker comes
or goes.

* `occ_append`: the occurrences in two texts, where none straddles the cut.
* `occ_between`: a foreign piece neither is nor cuts an occurrence.
* `occ_flatMap`: the occurrences after some pieces gave way to markers.
-/

namespace Occurrences

variable {α : Type}

/-- A word that one character opens and another closes. -/
structure Marker (opening closing : α) (p : List α) : Prop where
  inner : ∃ w, p = opening :: (w ++ [closing]) ∧ opening ∉ w ∧ closing ∉ w
  ne : opening ≠ closing

/-- A piece that is no part of the marker `p`: it neither opens nor closes one, and one of its
characters is not in `p`. -/
structure Foreign (opening closing : α) (p m : List α) : Prop where
  opening : opening ∉ m
  closing : closing ∉ m
  alien : ∃ c ∈ m, c ∉ p

variable {opening closing : α} {p q u v m : List α}

namespace Marker

/-- The second part of a marker ends it and does not open it. -/
theorem of_tail (hp : Marker opening closing p) {a b : List α} (hab : p = a ++ b) (ha : a ≠ [])
    (hb : b ≠ []) : closing ∈ b ∧ opening ∉ b := by
  obtain ⟨w, hw, hopen, hclose⟩ := hp.inner
  obtain ⟨c, a, rfl⟩ := List.exists_cons_of_ne_nil ha
  rw [hw, List.cons_append] at hab
  obtain ⟨-, hab⟩ := List.cons.inj hab
  constructor
  · have hlast : (a ++ b).getLast? = some closing := by rw [← hab, List.getLast?_concat]
    rw [List.getLast?_append_of_ne_nil _ hb] at hlast
    exact List.mem_of_getLast? hlast
  · intro h
    have hmem : opening ∈ w ++ [closing] := hab ▸ List.mem_append_right a h
    rcases List.mem_append.1 hmem with h | h
    · exact hopen h
    · exact hp.ne (List.mem_singleton.1 h)

/-- The first part of a marker opens it and does not close it. -/
theorem of_head (hp : Marker opening closing p) {a b : List α} (hab : p = a ++ b) (ha : a ≠ [])
    (hb : b ≠ []) : opening ∈ a ∧ closing ∉ a := by
  obtain ⟨w, hw, hopen, hclose⟩ := hp.inner
  obtain ⟨c, a, rfl⟩ := List.exists_cons_of_ne_nil ha
  rw [hw, List.cons_append] at hab
  obtain ⟨hc, hab⟩ := List.cons.inj hab
  refine ⟨hc ▸ List.mem_cons_self, fun h => ?_⟩
  rcases List.mem_cons.1 h with h | h
  · exact hp.ne (hc.trans h.symm)
  · -- what is left without its last character lies within the word
    obtain ⟨b, d, rfl⟩ := List.eq_nil_or_concat b |>.resolve_left hb
    rw [List.concat_eq_append, ← List.append_assoc] at hab
    have hin : w = a ++ b := (List.append_inj' hab rfl).1
    exact hclose (hin ▸ List.mem_append_left b h)

theorem mem_opening (hp : Marker opening closing p) : opening ∈ p := by
  obtain ⟨w, hw, -⟩ := hp.inner
  exact hw ▸ List.mem_cons_self

end Marker

variable [DecidableEq α]

/-- How often `p` occurs in a text. -/
def occ (p : List α) : List α → ℕ
  | [] => 0
  | c :: cs => (if p <+: c :: cs then 1 else 0) + occ p cs

/-- **The occurrences in two texts**, where none straddles the cut. By induction on the first. -/
theorem occ_append (hcut : ∀ a b, p = a ++ b → a ≠ [] → b ≠ [] → a <:+ u → ¬ b <+: v) :
    occ p (u ++ v) = occ p u + occ p v := by
  induction u with
  | nil =>
    show occ p v = 0 + occ p v
    omega
  | cons c u ih =>
    have hrest := ih fun a b hab ha hb hsuffix =>
      hcut a b hab ha hb (hsuffix.trans (List.suffix_cons c u))
    have hhead : p <+: c :: u ++ v ↔ p <+: c :: u := by
      constructor
      · intro h
        obtain ⟨t, ht⟩ := h
        rcases List.append_eq_append_iff.1 ht with ⟨b, hb, -⟩ | ⟨b, hb, hv⟩
        · exact ⟨b, hb.symm⟩
        · -- what is beyond the first text would straddle the cut
          by_cases hnil : b = []
          · rw [hnil, List.append_nil] at hb
            exact ⟨[], by rw [hb, List.append_nil]⟩
          · exact absurd ⟨t, hv.symm⟩
              (hcut (c :: u) b hb (List.cons_ne_nil c u) hnil (List.suffix_refl _))
      · intro h
        exact h.trans (List.prefix_append _ _)
    show (if p <+: c :: u ++ v then 1 else 0) + occ p (u ++ v) = _
    rw [hrest]
    simp only [hhead, occ]
    omega

theorem occ_eq_zero {c : α} (hc : c ∈ p) {text : List α} (htext : c ∉ text) : occ p text = 0 := by
  induction text with
  | nil => rfl
  | cons d text ih =>
    have hno : ¬ p <+: d :: text := fun h => htext (h.subset hc)
    show (if p <+: d :: text then 1 else 0) + occ p text = 0
    rw [if_neg hno, ih fun h => htext (List.mem_cons_of_mem d h)]

namespace Marker

/-- No occurrence straddles the place where a marker starts. -/
theorem occ_before (hp : Marker opening closing p) (hq : Marker opening closing q) :
    occ p (u ++ (q ++ v)) = occ p u + occ p (q ++ v) := by
  refine occ_append fun a b hab ha hb _ hpre => ?_
  obtain ⟨w, hw, -⟩ := hq.inner
  obtain ⟨c, b, rfl⟩ := List.exists_cons_of_ne_nil hb
  rw [hw, List.cons_append, List.cons_prefix_cons] at hpre
  exact (hp.of_tail hab ha hb).2 (hpre.1 ▸ List.mem_cons_self)

/-- Nor the place where it ends. -/
theorem occ_after (hp : Marker opening closing p) (hq : Marker opening closing q) :
    occ p (q ++ v) = occ p q + occ p v := by
  refine occ_append fun a b hab ha hb hsuffix _ => ?_
  obtain ⟨w, hw, -⟩ := hq.inner
  have hlast : a.getLast? = q.getLast? := by
    obtain ⟨t, ht⟩ := hsuffix
    rw [← ht, List.getLast?_append_of_ne_nil _ ha]
  rw [hw, ← List.cons_append, List.getLast?_concat] at hlast
  exact (hp.of_head hab ha hb).2 (List.mem_of_getLast? hlast)

/-- A marker has no marker within it but itself. -/
theorem occ_marker (hp : Marker opening closing p) (hq : Marker opening closing q) :
    occ p q = if q = p then 1 else 0 := by
  obtain ⟨w, hw, hopen, -⟩ := hq.inner
  have hinner : occ p (w ++ [closing]) = 0 := by
    refine occ_eq_zero hp.mem_opening fun h => ?_
    rcases List.mem_append.1 h with h | h
    · exact hopen h
    · exact hq.ne (List.mem_singleton.1 h)
  have hhead : p <+: q ↔ q = p := by
    constructor
    · rintro ⟨t, ht⟩
      by_cases hnil : t = []
      · rw [← ht, hnil, List.append_nil]
      · have hne : p ≠ [] := List.ne_nil_of_mem hp.mem_opening
        obtain ⟨w', hw', -⟩ := hp.inner
        have hmem : closing ∈ p := by
          rw [hw']
          exact List.mem_cons_of_mem _ (List.mem_append_right _ List.mem_cons_self)
        exact absurd hmem (hq.of_head ht.symm hne hnil).2
    · rintro rfl
      exact List.prefix_refl _
  calc occ p q = (if p <+: q then 1 else 0) + occ p (w ++ [closing]) := by rw [hw]; rfl
    _ = if q = p then 1 else 0 := by rw [hinner]; simp only [hhead, Nat.add_zero]

end Marker

/-- **A foreign piece neither is nor cuts an occurrence.** -/
theorem occ_between (hp : Marker opening closing p) (hm : Foreign opening closing p m) :
    occ p (u ++ (m ++ v)) = occ p u + occ p v := by
  have hfirst : occ p (u ++ (m ++ v)) = occ p u + occ p (m ++ v) := by
    refine occ_append fun a b hab ha hb _ hpre => ?_
    -- the part in the second text closes the marker, so it has all of the piece
    obtain ⟨t, ht⟩ := hpre
    have hclose := (hp.of_tail hab ha hb).1
    obtain ⟨c, hc, halien⟩ := hm.alien
    rcases List.append_eq_append_iff.1 ht with ⟨x, hx, -⟩ | ⟨x, hx, -⟩
    · exact hm.closing (hx ▸ List.mem_append_left x hclose)
    · exact halien (hab ▸ List.mem_append_right a (hx ▸ List.mem_append_left x hc))
  have hsecond : occ p (m ++ v) = occ p m + occ p v := by
    refine occ_append fun a b hab ha hb hsuffix _ => ?_
    exact hm.opening (hsuffix.subset (hp.of_head hab ha hb).1)
  rw [hfirst, hsecond, occ_eq_zero hp.mem_opening hm.opening]
  omega

/-- **The occurrences after some pieces gave way to markers.** By induction on the pieces. -/
theorem occ_flatMap {β : Type} (hp : Marker opening closing p) (f g : β → List α) {bs : List β}
    (hpieces : ∀ b ∈ bs, g b = f b ∨ Foreign opening closing p (f b) ∧ Marker opening closing (g b)) :
    ∀ u, occ p (u ++ bs.flatMap g) =
      occ p (u ++ bs.flatMap f) + bs.countP fun b => decide (g b = p ∧ g b ≠ f b) := by
  induction bs with
  | nil => exact fun u => rfl
  | cons b bs ih =>
    intro u
    have hrest := ih fun b hb => hpieces b (List.mem_cons_of_mem _ hb)
    rw [List.flatMap_cons, List.flatMap_cons, List.countP_cons]
    by_cases heq : g b = f b
    · have hnot : decide (g b = p ∧ g b ≠ f b) = false := decide_eq_false fun h => h.2 heq
      rw [hnot, heq, ← List.append_assoc, ← List.append_assoc, hrest (u ++ f b)]
      simp
    · obtain ⟨hforeign, hmarker⟩ := (hpieces b List.mem_cons_self).resolve_left heq
      have hnil := hrest []
      rw [List.nil_append, List.nil_append] at hnil
      rw [occ_between hp hforeign, hp.occ_before hmarker, hp.occ_after hmarker, hp.occ_marker hmarker,
        hnil]
      by_cases hgp : g b = p
      · have htrue : decide (g b = p ∧ g b ≠ f b) = true := decide_eq_true ⟨hgp, heq⟩
        rw [if_pos hgp, if_pos htrue]
        omega
      · have hfalse : decide (g b = p ∧ g b ≠ f b) = false := decide_eq_false fun h => hgp h.1
        rw [if_neg hgp, hfalse]
        simp only [Bool.false_eq_true, if_false]
        omega

end Occurrences
