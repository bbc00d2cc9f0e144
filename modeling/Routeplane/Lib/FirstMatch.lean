import Mathlib.Data.List.Sort
import Mathlib.Data.List.Perm.Basic
import Mathlib.Data.List.Perm.Subperm

/-!
# Re-associating keys with their elements by first match

A component reorders a list but hands back only the *keys* of the reordered
elements; its caller recovers the elements by taking, for each key, the first
element left that carries it. The result always has the right keys. It is the
reordering itself exactly when the reordering keeps the elements of each key in
their original order.

* `reassoc_perm`: nothing is lost or duplicated.
* `reassoc_eq_iff`: the recovered list is the reordering iff the two lists agree
  key by key.
* `filter_mergeSort_eq_iff`: a stable sort keeps the elements of a class in order
  iff the class was already sorted.
* `find?_eq_some_iff_least`: the first match of a sorted list is the least one.
* `find?_insertionSort_cons`: a stable sort keeps the first of those that may come first.
* `replaceFirst_perm`: what replacing the only match does.
-/

namespace FirstMatch

variable {α κ : Type*} [DecidableEq κ] (key : α → κ)

/-- The elements of `l` that carry key `k`, in order. -/
def ofKey (k : κ) (l : List α) : List α := l.filter (fun x => decide (key x = k))

/-- For each key take the first element of `l` still there that carries it. -/
def reassoc : List α → List κ → List α
  | _, [] => []
  | l, k :: ks =>
    match l.find? (fun x => decide (key x = k)) with
    | some x => x :: reassoc (l.eraseP (fun x => decide (key x = k))) ks
    | none => reassoc l ks

variable {key}

attribute [local simp] reassoc

@[simp] theorem ofKey_nil (k : κ) : ofKey key k [] = [] := rfl

@[simp] theorem ofKey_cons (k : κ) (x : α) (l : List α) :
    ofKey key k (x :: l) = if key x = k then x :: ofKey key k l else ofKey key k l := by
  simp only [ofKey, List.filter_cons, decide_eq_true_eq]

theorem mem_ofKey {k : κ} {x : α} {l : List α} : x ∈ ofKey key k l ↔ x ∈ l ∧ key x = k := by
  simp [ofKey]

theorem length_ofKey (k : κ) (l : List α) : (ofKey key k l).length = (l.map key).count k := by
  induction l with
  | nil => rfl
  | cons x l ih => by_cases h : key x = k <;> simp [h, ih]

theorem perm_ofKey (k : κ) {l l' : List α} (h : l.Perm l') :
    (ofKey key k l).Perm (ofKey key k l') := h.filter _

theorem find?_eq_head? (k : κ) (l : List α) :
    l.find? (fun x => decide (key x = k)) = (ofKey key k l).head? := by
  simp [ofKey]

theorem ofKey_eraseP_self (k : κ) (l : List α) :
    ofKey key k (l.eraseP (fun x => decide (key x = k))) = (ofKey key k l).tail := by
  induction l with
  | nil => rfl
  | cons x l ih => by_cases h : key x = k <;> simp [h, ih]

theorem ofKey_eraseP_ne {k k' : κ} (hk : k' ≠ k) (l : List α) :
    ofKey key k' (l.eraseP (fun x => decide (key x = k))) = ofKey key k' l := by
  induction l with
  | nil => rfl
  | cons x l ih =>
    by_cases h : key x = k
    · simp [h, hk.symm]
    · rw [List.eraseP_cons_of_neg (by simpa using h), ofKey_cons, ofKey_cons, ih]

/-- Key by key, the recovered list is a prefix of the original one. -/
theorem ofKey_reassoc (k : κ) (ks : List κ) :
    ∀ l : List α, ofKey key k (reassoc key l ks) = (ofKey key k l).take (ks.count k) := by
  induction ks with
  | nil => intro l; simp [reassoc]
  | cons k' ks ih =>
    intro l
    rw [reassoc, find?_eq_head?]
    cases hf : ofKey key k' l with
    | nil =>
      simp only [List.head?_nil, ih]
      by_cases hk : k' = k
      · subst hk; simp [hf]
      · rw [List.count_cons_of_ne hk]
    | cons x xs =>
      have hx : key x = k' := (mem_ofKey.1 (hf ▸ List.mem_cons_self : x ∈ ofKey key k' l)).2
      simp only [List.head?_cons, ofKey_cons, ih]
      by_cases hk : k' = k
      · subst hk
        rw [if_pos hx, ofKey_eraseP_self, hf, List.count_cons_self]
        rfl
      · rw [if_neg (fun e => hk (hx.symm.trans e)), ofKey_eraseP_ne (fun e => hk e.symm),
          List.count_cons_of_ne hk]

/-- When every key asked for is there, the recovered list has exactly the keys asked for. -/
theorem map_reassoc (ks : List κ) :
    ∀ l : List α, (∀ k, ks.count k ≤ (l.map key).count k) → (reassoc key l ks).map key = ks := by
  induction ks with
  | nil => intro l _; rfl
  | cons k ks ih =>
    intro l hc
    have hpos : 0 < (ofKey key k l).length := by
      rw [length_ofKey]
      have := hc k
      rw [List.count_cons_self] at this
      omega
    rw [reassoc, find?_eq_head?]
    cases hf : ofKey key k l with
    | nil => rw [hf] at hpos; exact absurd hpos (lt_irrefl 0)
    | cons x xs =>
      have hx : key x = k := (mem_ofKey.1 (hf ▸ List.mem_cons_self : x ∈ ofKey key k l)).2
      simp only [List.head?_cons, List.map_cons, hx]
      congr 1
      refine ih _ fun k' => ?_
      have hk' := hc k'
      by_cases hkk : k' = k
      · subst hkk
        rw [← length_ofKey, ofKey_eraseP_self, hf]
        rw [← length_ofKey, hf, List.count_cons_self, List.length_cons] at hk'
        simpa using hk'
      · rw [← length_ofKey, ofKey_eraseP_ne hkk, length_ofKey]
        rwa [List.count_cons_of_ne (fun e => hkk e.symm)] at hk'

theorem reassoc_subperm (ks : List κ) : ∀ l : List α, (reassoc key l ks).Subperm l := by
  induction ks with
  | nil => intro l; exact List.nil_subperm
  | cons k ks ih =>
    intro l
    rw [reassoc]
    cases hf : l.find? (fun x => decide (key x = k)) with
    | none => exact ih l
    | some x =>
      obtain ⟨hx, as, bs, rfl, has⟩ := List.find?_eq_some_iff_append.1 hf
      have he : (as ++ x :: bs).eraseP (fun x => decide (key x = k)) = as ++ bs := by
        rw [List.eraseP_append_right _ (by simpa using has)]
        simp only [List.eraseP_cons, hx, cond_true]
      rw [he]
      exact ((List.subperm_cons x).2 (he ▸ ih _)).trans List.perm_middle.symm.subperm

/-- **Nothing is lost or duplicated**: asked for the keys of a permutation of `l`, the
recovered list is a permutation of `l`. -/
theorem reassoc_perm {l l' : List α} (h : l'.Perm l) :
    (reassoc key l (l'.map key)).Perm l := by
  have hmap : (reassoc key l (l'.map key)).map key = l'.map key :=
    map_reassoc _ _ fun k => ((h.map key).count_eq k).le
  refine (reassoc_subperm _ l).perm_of_length_le ?_
  have hlen := congrArg List.length hmap
  rw [List.length_map, List.length_map] at hlen
  rw [hlen, h.length_eq]

/-- Two lists with the same keys in the same places and the same elements under each key
are equal. -/
theorem eq_of_map_eq_of_ofKey_eq :
    ∀ {l l' : List α}, l.map key = l'.map key → (∀ k, ofKey key k l = ofKey key k l') → l = l'
  | [], [], _, _ => rfl
  | [], _ :: _, h, _ => by simp at h
  | _ :: _, [], h, _ => by simp at h
  | x :: l, y :: l', h, hk => by
    simp only [List.map_cons, List.cons.injEq] at h
    have hxy := hk (key y)
    rw [ofKey_cons, ofKey_cons, if_pos h.1, if_pos rfl] at hxy
    obtain ⟨rfl, -⟩ := List.cons.inj hxy
    refine congrArg (x :: ·) (eq_of_map_eq_of_ofKey_eq h.2 fun k => ?_)
    have := hk k
    by_cases hxk : key x = k
    · simpa [hxk] using this
    · simpa [hxk] using this

/-- **First match recovers the reordering iff it keeps each key's elements in order.** -/
theorem reassoc_eq_iff {l l' : List α} (h : l'.Perm l) :
    reassoc key l (l'.map key) = l' ↔ ∀ k, ofKey key k l' = ofKey key k l := by
  have hk : ∀ k, ofKey key k (reassoc key l (l'.map key)) = ofKey key k l := fun k => by
    rw [ofKey_reassoc, (h.map key).count_eq k, ← length_ofKey, List.take_length]
  constructor
  · intro he k
    rw [← hk k, he]
  · intro he
    have hle : ∀ k, (l'.map key).count k ≤ (l.map key).count k := fun k =>
      ((h.map key).count_eq k).le
    refine eq_of_map_eq_of_ofKey_eq (map_reassoc _ _ hle) fun k => ?_
    rw [hk k, he k]

section Filter

variable {P : κ → Bool} {k : κ}

theorem find?_filter_key (hk : P k = true) (l : List α) :
    (l.filter (fun x => P (key x))).find? (fun x => decide (key x = k)) =
      l.find? (fun x => decide (key x = k)) := by
  rw [List.find?_filter]
  congr 1
  funext x
  by_cases hx : key x = k <;> simp [hx, hk]

theorem eraseP_filter_key (hk : P k = true) (l : List α) :
    (l.filter (fun x => P (key x))).eraseP (fun x => decide (key x = k)) =
      (l.eraseP (fun x => decide (key x = k))).filter (fun x => P (key x)) := by
  induction l with
  | nil => rfl
  | cons x l ih =>
    by_cases hx : key x = k
    · simp [hx, hk]
    · by_cases hP : P (key x) = true <;> simp [hx, hP, ih]

/-- Elements whose key is never asked for do not matter. -/
theorem reassoc_filter (ks : List κ) (hks : ∀ k ∈ ks, P k = true) :
    ∀ l : List α, reassoc key l ks = reassoc key (l.filter (fun x => P (key x))) ks := by
  induction ks with
  | nil => intro l; rfl
  | cons k ks ih =>
    intro l
    have hk : P k = true := hks k List.mem_cons_self
    have ih' := ih fun k' hk' => hks k' (List.mem_cons_of_mem _ hk')
    rw [reassoc, reassoc, find?_filter_key hk, eraseP_filter_key hk]
    split
    · rw [ih']
    · exact ih' l

end Filter

section Sorting

variable {le : α → α → Bool}

/-- **A stable sort keeps a class in order iff the class was sorted.** -/
theorem filter_mergeSort_eq_iff (trans : ∀ a b c, le a b → le b c → le a c)
    (total : ∀ a b, le a b || le b a) (p : α → Bool) (l : List α) :
    (l.mergeSort le).filter p = l.filter p ↔ (l.filter p).Pairwise (fun a b => le a b) := by
  constructor
  · intro h
    rw [← h]
    exact (List.pairwise_mergeSort trans total l).filter p
  · intro h
    have hsub : (l.filter p).Sublist (l.mergeSort le) :=
      List.sublist_mergeSort trans total h List.filter_sublist
    have hsub' := hsub.filter p
    rw [List.filter_filter] at hsub'
    simp only [Bool.and_self] at hsub'
    exact (hsub'.eq_of_length ((List.mergeSort_perm l le).filter p).length_eq.symm).symm

/-- **The first match of a sorted list is the least one.** -/
theorem find?_eq_some_iff_least {r : α → α → Prop} {p : α → Bool} {l : List α} {a : α}
    (refl : ∀ a, r a a) (antisymm : ∀ a b, r a b → r b a → a = b) (hsorted : l.Pairwise r) :
    l.find? p = some a ↔ a ∈ l ∧ p a ∧ ∀ b ∈ l, p b → r a b := by
  induction l with
  | nil => simp
  | cons first l ih =>
    obtain ⟨hfirst, hsorted⟩ := List.pairwise_cons.1 hsorted
    cases hp : p first with
    | true =>
      rw [List.find?_cons_of_pos hp, Option.some_inj]
      constructor
      · rintro rfl
        refine ⟨List.mem_cons_self, hp, ?_⟩
        intro b hb _
        rcases List.mem_cons.1 hb with rfl | hb
        · exact refl _
        · exact hfirst b hb
      · rintro ⟨ha, _, hleast⟩
        have hle := hleast first List.mem_cons_self hp
        rcases List.mem_cons.1 ha with rfl | ha
        · rfl
        · exact antisymm _ _ (hfirst a ha) hle
    | false =>
      have hno : ¬p first = true := Bool.eq_false_iff.1 hp
      rw [List.find?_cons_of_neg hno, ih hsorted]
      constructor
      · rintro ⟨ha, hpa, hleast⟩
        refine ⟨List.mem_cons_of_mem _ ha, hpa, ?_⟩
        intro b hb hpb
        rcases List.mem_cons.1 hb with rfl | hb
        · exact absurd hpb hno
        · exact hleast b hb hpb
      · rintro ⟨ha, hpa, hleast⟩
        have hmem : a ∈ l := by
          rcases List.mem_cons.1 ha with rfl | ha
          · exact absurd hpa hno
          · exact ha
        exact ⟨hmem, hpa, fun b hb => hleast b (List.mem_cons_of_mem _ hb)⟩

end Sorting

section Sorted

variable {α : Type*} {r : α → α → Prop} [DecidableRel r] {p : α → Bool} {x : α}

/-- The first match of a sorted list comes before all others. -/
theorem rel_of_find?_insertionSort [Std.Total r] [IsTrans α r] {l : List α}
    (h : (l.insertionSort r).find? p = some x) :
    x ∈ l ∧ p x = true ∧ ∀ y ∈ l, p y = true → r x y := by
  have hpx : p x = true := List.find?_some h
  have hsorted : (l.insertionSort r).Pairwise r := List.pairwise_insertionSort r l
  obtain ⟨-, before, after, heq, hbefore⟩ := List.find?_eq_some_iff_append.1 h
  refine ⟨(List.mem_insertionSort r).1 (List.mem_of_find?_eq_some h), hpx, ?_⟩
  intro y hy hpy
  have hmem : y ∈ before ++ x :: after := heq ▸ (List.mem_insertionSort r).2 hy
  rw [heq] at hsorted
  rcases List.mem_append.1 hmem with hin | hin
  · have hno := hbefore y hin
    rw [hpy] at hno
    cases hno
  · rcases List.mem_cons.1 hin with rfl | hin
    · rcases Std.Total.total (r := r) y y with hrefl | hrefl
      · exact hrefl
      · exact hrefl
    · exact List.rel_of_pairwise_cons (List.pairwise_append.1 hsorted).2.1 hin

/-- An element put before every other match is found first. -/
theorem find?_orderedInsert {l : List α} (hx : p x = true) (hr : ∀ y ∈ l, p y = true → r x y) :
    (l.orderedInsert r x).find? p = some x := by
  induction l with
  | nil => exact List.find?_cons_of_pos hx
  | cons y l ih =>
    rw [List.orderedInsert_cons]
    by_cases hxy : r x y
    · rw [if_pos hxy]
      exact List.find?_cons_of_pos hx
    · have hy : ¬p y = true := fun hy => hxy (hr y List.mem_cons_self hy)
      rw [if_neg hxy, List.find?_cons_of_neg hy]
      exact ih fun z hz => hr z (List.mem_cons_of_mem _ hz)

/-- The sort is stable: of the matches that may come first, the first one of the list does. -/
theorem find?_insertionSort_cons {l : List α} (hx : p x = true)
    (hr : ∀ y ∈ l, p y = true → r x y) : ((x :: l).insertionSort r).find? p = some x := by
  rw [List.insertionSort_cons]
  exact find?_orderedInsert hx fun y hy => hr y ((List.mem_insertionSort r).1 hy)

end Sorted

section Replace

/-- The first element that passes gives way to `b`. -/
def replaceFirst (p : α → Bool) (b : α) : List α → List α
  | [] => []
  | a :: l => if p a then b :: l else a :: replaceFirst p b l

/-- By induction on the list; after the first match there is no other. -/
theorem replaceFirst_perm {p : α → Bool} {a b : α} {l : List α}
    (hfind : l.find? p = some a) (hunique : l.Pairwise fun a b => ¬(p a = true ∧ p b = true)) :
    (replaceFirst p b l).Perm (b :: l.filter fun a => !p a) := by
  induction l with
  | nil => cases hfind
  | cons first l ih =>
    obtain ⟨hfirst, hunique⟩ := List.pairwise_cons.1 hunique
    unfold replaceFirst
    cases hp : p first with
    | true =>
      have hrest : (l.filter fun a => !p a) = l := by
        rw [List.filter_eq_self]
        intro a ha
        have hno : ¬p a = true := fun hpa => hfirst a ha ⟨hp, hpa⟩
        simpa using hno
      rw [if_pos rfl, List.filter_cons_of_neg (by simp [hp]), hrest]
    | false =>
      rw [List.find?_cons_of_neg (by simp [hp])] at hfind
      rw [if_neg Bool.false_ne_true, List.filter_cons_of_pos (by simp [hp])]
      exact ((ih hfind hunique).cons first).trans (.swap ..)

theorem mem_replaceFirst_self {p : α → Bool} {a b : α} {l : List α} (hfind : l.find? p = some a) :
    b ∈ replaceFirst p b l := by
  induction l with
  | nil => cases hfind
  | cons first l ih =>
    unfold replaceFirst
    cases hp : p first with
    | true =>
      rw [if_pos rfl]
      exact List.mem_cons_self
    | false =>
      rw [List.find?_cons_of_neg (by simp [hp])] at hfind
      rw [if_neg Bool.false_ne_true]
      exact List.mem_cons_of_mem _ (ih hfind)

theorem mem_replaceFirst_of_not {p : α → Bool} {a b : α} {l : List α} (ha : p a = false)
    (hb : p b = true) : a ∈ replaceFirst p b l ↔ a ∈ l := by
  have hne : a ≠ b := by
    rintro rfl
    rw [ha] at hb
    cases hb
  induction l with
  | nil => rfl
  | cons first l ih =>
    unfold replaceFirst
    cases hp : p first with
    | true =>
      have hne' : a ≠ first := by
        rintro rfl
        rw [ha] at hp
        cases hp
      rw [if_pos rfl, List.mem_cons, List.mem_cons, or_iff_right hne, or_iff_right hne']
    | false =>
      rw [if_neg Bool.false_ne_true, List.mem_cons, List.mem_cons]
      exact or_congr_right ih

end Replace

end FirstMatch
