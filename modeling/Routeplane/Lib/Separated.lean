import Mathlib.Data.List.Basic

/-!
# Words with a separator after each

Words that do not contain the separator are read back from their concatenation.

* `append_inj`, `append_last_inj`: what stands before the first separator or the last, and what after
  it.
* `join_inj`: the words.
* `join_append_inj`: the words and a tail that starts with a tag of its own.
-/

namespace Separated

variable {α : Type*} {sep : α} {xs ys zs ws : List α}

/-- The first separator of both sides is where it is written. -/
theorem append_inj (hx : sep ∉ xs) (hy : sep ∉ ys) :
    xs ++ sep :: zs = ys ++ sep :: ws ↔ xs = ys ∧ zs = ws := by
  constructor
  · intro h
    induction xs generalizing ys with
    | nil =>
      cases ys with
      | nil => exact ⟨rfl, (List.cons.inj h).2⟩
      | cons y ys => exact absurd ((List.cons.inj h).1 ▸ List.mem_cons_self) hy
    | cons x xs ih =>
      cases ys with
      | nil => exact absurd ((List.cons.inj h).1 ▸ List.mem_cons_self) hx
      | cons y ys =>
        obtain ⟨hhead, htail⟩ := List.cons.inj h
        obtain ⟨hxs, hzs⟩ := ih (fun hm => hx (List.mem_cons_of_mem _ hm))
          (fun hm => hy (List.mem_cons_of_mem _ hm)) htail
        exact ⟨by rw [hhead, hxs], hzs⟩
  · rintro ⟨rfl, rfl⟩
    rfl

/-- The last separator of both sides is where it is written. -/
theorem append_last_inj (hz : sep ∉ zs) (hw : sep ∉ ws) :
    xs ++ sep :: zs = ys ++ sep :: ws ↔ xs = ys ∧ zs = ws := by
  constructor
  · intro h
    have hback := congrArg List.reverse h
    simp only [List.reverse_append, List.reverse_cons, List.append_assoc, List.singleton_append]
      at hback
    obtain ⟨hzs, hxs⟩ := (append_inj (fun hm => hz (List.mem_reverse.1 hm))
      fun hm => hw (List.mem_reverse.1 hm)).1 hback
    exact ⟨List.reverse_injective hxs, List.reverse_injective hzs⟩
  · rintro ⟨rfl, rfl⟩
    rfl

variable (sep) in
def join (words : List (List α)) : List α := words.flatMap fun w => w ++ [sep]

theorem join_cons (w : List α) (rest : List (List α)) :
    join sep (w :: rest) = w ++ sep :: join sep rest := by
  unfold join
  rw [List.flatMap_cons, List.append_assoc]
  rfl

/-- **The words are read back.** By induction on both lists. -/
theorem join_inj {words words' : List (List α)} (h : ∀ w ∈ words, sep ∉ w)
    (h' : ∀ w ∈ words', sep ∉ w) (heq : join sep words = join sep words') : words = words' := by
  induction words generalizing words' with
  | nil =>
    cases words' with
    | nil => rfl
    | cons w' rest' =>
      rw [join_cons] at heq
      cases w' <;> cases heq
  | cons w rest ih =>
    cases words' with
    | nil =>
      rw [join_cons] at heq
      cases w <;> cases heq
    | cons w' rest' =>
      rw [join_cons, join_cons] at heq
      obtain ⟨hw, hrest⟩ :=
        (append_inj (h w List.mem_cons_self) (h' w' List.mem_cons_self)).1 heq
      rw [hw, ih (fun v hv => h v (List.mem_cons_of_mem _ hv))
        (fun v hv => h' v (List.mem_cons_of_mem _ hv)) hrest]

/-- A tail is nothing, or starts with the tag. -/
def Tagged (tag : α) (tail : List α) : Prop := tail = [] ∨ ∃ rest, tail = tag :: rest

/-- A word with its separator is no tail. -/
theorem Tagged.ne_word {tag : α} {tail w rest : List α} (ht : Tagged tag tail) (hne : tag ≠ sep)
    (hw : tag ∉ w) : tail ≠ w ++ sep :: rest := by
  intro heq
  rcases ht with rfl | ⟨r, rfl⟩
  · cases w <;> cases heq
  · cases w with
    | nil => exact hne (List.cons.inj heq).1
    | cons x w =>
      have hx : tag = x := (List.cons.inj heq).1
      exact hw (hx ▸ List.mem_cons_self)

/-- **The words and the tail are read back**, if no word contains the tag. By induction on both
lists. -/
theorem join_append_inj {tag : α} {words words' : List (List α)} {tail tail' : List α}
    (hne : tag ≠ sep) (h : ∀ w ∈ words, sep ∉ w ∧ tag ∉ w) (h' : ∀ w ∈ words', sep ∉ w ∧ tag ∉ w)
    (ht : Tagged tag tail) (ht' : Tagged tag tail')
    (heq : join sep words ++ tail = join sep words' ++ tail') : words = words' ∧ tail = tail' := by
  induction words generalizing words' with
  | nil =>
    cases words' with
    | nil => exact ⟨rfl, heq⟩
    | cons w' rest' =>
      rw [join_cons, List.append_assoc, List.cons_append] at heq
      exact absurd heq (ht.ne_word hne (h' w' List.mem_cons_self).2)
  | cons w rest ih =>
    cases words' with
    | nil =>
      rw [join_cons, List.append_assoc, List.cons_append] at heq
      exact absurd heq.symm (ht'.ne_word hne (h w List.mem_cons_self).2)
    | cons w' rest' =>
      rw [join_cons, join_cons, List.append_assoc, List.append_assoc, List.cons_append,
        List.cons_append] at heq
      obtain ⟨hw, hrest⟩ :=
        (append_inj (h w List.mem_cons_self).1 (h' w' List.mem_cons_self).1).1 heq
      obtain ⟨hwords, htail⟩ := ih (fun v hv => h v (List.mem_cons_of_mem _ hv))
        (fun v hv => h' v (List.mem_cons_of_mem _ hv)) hrest
      exact ⟨by rw [hw, hwords], htail⟩

end Separated
