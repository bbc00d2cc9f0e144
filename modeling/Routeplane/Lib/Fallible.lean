import Mathlib.Data.List.Forall2
import Mathlib.Data.Nat.Notation
import Mathlib.Tactic.Common

/-!
# Checks that may fail

The steps a validating reader is built from, over any type of errors, and what each leaves known
when it succeeds.

* `bind_eq_ok`, `bind_eq_error`: a succeeding run takes a value from each of its steps, a failing one
  fails at one of them.
* `ensure`, `okOr`, `optional`: a test, a value that must be there, a check of one that may be.
* `each`: a check of every item of a list, in order, with its position.
* `mapM_eq_some_iff`: a list is read when each of its items is.
* `of_foldlM`: what each step of a succeeding fold keeps.
-/

namespace Fallible

variable {ε α β : Type}

theorem bind_eq_ok {x : Except ε α} {f : α → Except ε β} {b : β} (h : (x >>= f) = .ok b) :
    ∃ a, x = .ok a ∧ f a = .ok b := by
  cases x with
  | error e => cases h
  | ok a => exact ⟨a, rfl, h⟩

/-- A failing run fails at one of its steps. -/
theorem bind_eq_error {x : Except ε α} {f : α → Except ε β} {e : ε} (h : (x >>= f) = .error e) :
    x = .error e ∨ ∃ a, x = .ok a ∧ f a = .error e := by
  cases x with
  | error e' => exact Or.inl (congrArg Except.error (Except.error.inj h))
  | ok a => exact Or.inr ⟨a, rfl, h⟩

/-- Checks in a row pass when each of them does. -/
theorem seq_eq_ok_iff {x : Except ε Unit} {f : Unit → Except ε β} {b : β} :
    (x >>= f) = .ok b ↔ x = .ok () ∧ f () = .ok b := by
  constructor
  · intro h
    obtain ⟨_, hx, hf⟩ := bind_eq_ok h
    exact ⟨hx, hf⟩
  · rintro ⟨hx, hf⟩
    rw [hx]
    exact hf

theorem forM_eq_ok_iff {f : α → Except ε Unit} {as : List α} :
    as.forM f = .ok () ↔ ∀ a ∈ as, f a = .ok () := by
  induction as with
  | nil => exact iff_of_true rfl fun a ha => absurd ha List.not_mem_nil
  | cons a as ih =>
    have hcons : (a :: as).forM f = (f a >>= fun _ => as.forM f) := rfl
    rw [hcons, seq_eq_ok_iff, List.forall_mem_cons]
    exact and_congr_right fun _ => ih

theorem map_eq_ok {x : Except ε α} {f : α → β} {b : β} (h : x.map f = .ok b) :
    ∃ a, x = .ok a ∧ f a = b := by
  cases x with
  | error e => cases h
  | ok a => exact ⟨a, rfl, Except.ok.inj h⟩

theorem of_mapError {ε' : Type} {x : Except ε α} {f : ε → ε'} {a : α} (h : x.mapError f = .ok a) :
    x = .ok a := by
  cases x with
  | error e => cases h
  | ok b => rw [Except.ok.inj h]

theorem of_toOption {x : Except ε α} {a : α} (h : x.toOption = some a) : x = .ok a := by
  cases x with
  | error e => cases h
  | ok b => rw [Option.some_inj.1 h]

/-- Go on if `p` holds. -/
def ensure (p : Prop) [Decidable p] (e : ε) : Except ε Unit := if p then .ok () else .error e

theorem of_ensure {p : Prop} [Decidable p] {e : ε} {u : Unit} (h : ensure p e = .ok u) : p := by
  unfold ensure at h
  split at h
  · assumption
  · cases h

/-- What must be there. -/
def okOr (o : Option α) (e : ε) : Except ε α := o.elim (.error e) .ok

theorem eq_some_of_okOr {o : Option α} {e : ε} {a : α} (h : okOr o e = .ok a) : o = some a := by
  cases o with
  | none => cases h
  | some b => rw [Except.ok.inj h]

/-- Check what may be missing. -/
def optional (f : α → Except ε β) (o : Option α) : Except ε (Option β) :=
  o.elim (.ok none) fun a => (f a).map some

theorem of_optional {f : α → Except ε β} {o : Option α} {r : Option β}
    (h : optional f o = .ok r) :
    (o = none ∧ r = none) ∨ ∃ a b, o = some a ∧ r = some b ∧ f a = .ok b := by
  cases o with
  | none => exact Or.inl ⟨rfl, (Except.ok.inj h).symm⟩
  | some a =>
    obtain ⟨b, hb, hr⟩ := map_eq_ok h
    exact Or.inr ⟨a, b, rfl, hr.symm, hb⟩

/-- What a checked value is asked, by what was checked. -/
theorem forall_of_optional {f : α → Except ε β} {o : Option α} {r : Option β} {p : α → Prop}
    {q : β → Prop} (h : optional f o = .ok r) (hpq : ∀ a b, f a = .ok b → (p a ↔ q b)) :
    (∀ a, o = some a → p a) ↔ ∀ b, r = some b → q b := by
  rcases of_optional h with ⟨rfl, rfl⟩ | ⟨a, b, rfl, rfl, hf⟩
  · refine iff_of_true ?_ ?_
    · intro a ha
      cases ha
    · intro b hb
      cases hb
  · simp only [Option.some.injEq, forall_eq']
    exact hpq a b hf

/-- Check the items in order, each with its position. -/
def each (f : ℕ → α → Except ε β) : ℕ → List α → Except ε (List β)
  | _, [] => .ok []
  | i, a :: as => do
    let b ← f i a
    let bs ← each f (i + 1) as
    return b :: bs

/-- **Every item passed its check.** -/
theorem forall₂_of_each {f : ℕ → α → Except ε β} {as : List α} :
    ∀ {i : ℕ} {bs : List β}, each f i as = .ok bs →
      List.Forall₂ (fun a b => ∃ j, f j a = .ok b) as bs := by
  induction as with
  | nil =>
    intro i bs h
    rw [← Except.ok.inj h]
    exact .nil
  | cons a as ih =>
    intro i bs h
    obtain ⟨b, hb, h⟩ := bind_eq_ok h
    obtain ⟨rest, hrest, h⟩ := bind_eq_ok h
    rw [← Except.ok.inj h]
    exact .cons ⟨i, hb⟩ (ih hrest)

/-- Reading a whole list is reading each of its items. -/
theorem mapM_eq_some_iff {f : α → Option β} {as : List α} {bs : List β} :
    as.mapM f = some bs ↔ List.Forall₂ (fun a b => f a = some b) as bs := by
  induction as generalizing bs with
  | nil =>
    rw [List.mapM_nil, List.forall₂_nil_left_iff]
    exact ⟨fun h => (Option.some.inj h).symm, fun h => congrArg some h.symm⟩
  | cons a as ih =>
    rw [List.mapM_cons, List.forall₂_cons_left_iff]
    constructor
    · intro h
      obtain ⟨b, hb, h⟩ := Option.bind_eq_some_iff.1 h
      obtain ⟨bs', hbs', h⟩ := Option.bind_eq_some_iff.1 h
      exact ⟨b, bs', hb, ih.1 hbs', (Option.some.inj h).symm⟩
    · rintro ⟨b, bs', hb, hbs', rfl⟩
      rw [hb, ih.2 hbs']
      rfl

theorem mapM_eq_ok_iff {f : α → Except ε β} {as : List α} {bs : List β} :
    as.mapM f = .ok bs ↔ List.Forall₂ (fun a b => f a = .ok b) as bs := by
  induction as generalizing bs with
  | nil =>
    rw [List.mapM_nil, List.forall₂_nil_left_iff]
    exact ⟨fun h => (Except.ok.inj h).symm, fun h => congrArg Except.ok h.symm⟩
  | cons a as ih =>
    rw [List.mapM_cons, List.forall₂_cons_left_iff]
    constructor
    · intro h
      obtain ⟨b, hb, h⟩ := bind_eq_ok h
      obtain ⟨bs', hbs', h⟩ := bind_eq_ok h
      exact ⟨b, bs', hb, ih.1 hbs', (Except.ok.inj h).symm⟩
    · rintro ⟨b, bs', hb, hbs', rfl⟩
      rw [hb, ih.2 hbs']
      rfl

/-- If every item has a good result, the list has a list of good results. -/
theorem exists_mapM_ok {R : α → β → Prop} {f : α → Except ε β} {as : List α}
    (h : ∀ a ∈ as, ∃ b, f a = .ok b ∧ R a b) :
    ∃ bs, as.mapM f = .ok bs ∧ List.Forall₂ R as bs := by
  simp only [mapM_eq_ok_iff]
  induction as with
  | nil => exact ⟨[], .nil, .nil⟩
  | cons a as ih =>
    obtain ⟨b, hb, hR⟩ := h a (List.mem_cons_self ..)
    obtain ⟨bs, hbs, hRs⟩ := ih fun a' ha' => h a' (List.mem_cons_of_mem _ ha')
    exact ⟨b :: bs, .cons hb hbs, .cons hR hRs⟩

/-- A total reading of the items that are read gives the same list. -/
theorem filterMap_of_mapM {γ : Type} {f : α → Option β} {g : α → Option γ} {h : β → γ}
    (hg : ∀ a b, f a = some b → g a = some (h b)) {as : List α} {bs : List β}
    (hread : as.mapM f = some bs) : as.filterMap g = bs.map h := by
  rw [mapM_eq_some_iff] at hread
  induction hread with
  | nil => rfl
  | cons hab _ ih => rw [List.filterMap_cons_some (hg _ _ hab), ih, List.map_cons]

theorem mem_of_forall₂ {R : α → β → Prop} {as : List α} {bs : List β} (h : List.Forall₂ R as bs)
    {b : β} (hb : b ∈ bs) : ∃ a ∈ as, R a b := by
  induction h with
  | nil => cases hb
  | cons hr hrest ih =>
    rcases List.mem_cons.1 hb with heq | hb
    · exact ⟨_, List.mem_cons_self, heq ▸ hr⟩
    · obtain ⟨a, ha, hr⟩ := ih hb
      exact ⟨a, List.mem_cons_of_mem _ ha, hr⟩

/-- An item of the list has an outcome. -/
theorem exists_of_each_mem {f : ℕ → α → Except ε β} {as : List α} {i : ℕ} {bs : List β}
    (h : each f i as = .ok bs) {a : α} (ha : a ∈ as) : ∃ b ∈ bs, ∃ j, f j a = .ok b :=
  mem_of_forall₂ (forall₂_of_each h).flip ha

/-- **What each step keeps, a succeeding fold keeps.** -/
theorem of_foldlM {P : β → Prop} {f : β → α → Except ε β}
    (hstep : ∀ b a b', f b a = .ok b' → P b → P b') :
    ∀ {as : List α} {b b' : β}, as.foldlM f b = .ok b' → P b → P b'
  | [], b, b', h, hb => Except.ok.inj h ▸ hb
  | a :: as, b, b', h, hb => by
    rw [List.foldlM_cons] at h
    obtain ⟨next, hnext, hrest⟩ := bind_eq_ok h
    exact of_foldlM hstep hrest (hstep b a next hnext hb)

/-- The first step of a succeeding fold over a list that is not empty. -/
theorem of_foldlM_of_ne_nil {P : β → Prop} {f : β → α → Except ε β}
    (hfirst : ∀ b a b', f b a = .ok b' → P b') {as : List α} (hne : as ≠ []) {b b' : β}
    (h : as.foldlM f b = .ok b') : P b' := by
  obtain ⟨a, rest, rfl⟩ := List.exists_cons_of_ne_nil hne
  rw [List.foldlM_cons] at h
  obtain ⟨next, hnext, hrest⟩ := bind_eq_ok h
  exact of_foldlM (fun b a b' h _ => hfirst b a b' h) hrest (hfirst b a next hnext)

end Fallible
