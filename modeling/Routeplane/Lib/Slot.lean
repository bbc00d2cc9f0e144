import Mathlib.Algebra.BigOperators.Group.List.Basic
import Mathlib.Algebra.Ring.Nat
import Mathlib.Logic.Function.Basic

/-!
# Slots: the places of a value where a piece sits

A slot of `a` is a piece of `a` together with the value `a` would be with another piece in its
place. The slots of a record or of a list are the slots of its parts, lifted.

* `factors_inList`: a pass over a list that treats each element's slots through `mask` treats
  the list's slots through `mask`.
* `grows_inList`: a measure that adds up over a list grows with the slots of its elements.
-/

/-- A piece of `a`, and `a` with another piece in its place. -/
structure Slot (τ : Type*) {α : Type*} (a : α) where
  piece : τ
  put : τ → α
  put_piece : put piece = a

namespace Slot

variable {τ α β γ : Type*} {a : α} {b : β}

/-- A piece in its place. -/
def within (put : τ → α) (piece : τ) : Slot τ (put piece) := ⟨piece, put, rfl⟩

/-- The whole value. -/
def self (a : α) : Slot α a := ⟨a, id, rfl⟩

/-- A slot of a part is a slot of the whole. -/
def lift (g : β → α) (h : g b = a) (s : Slot τ b) : Slot τ a :=
  ⟨s.piece, g ∘ s.put, by rw [Function.comp_apply, s.put_piece, h]⟩

def inOption (f : (a : α) → List (Slot τ a)) : (o : Option α) → List (Slot τ o)
  | none => []
  | some a => (f a).map (lift some rfl)

def inList (f : (a : α) → List (Slot τ a)) : (as : List α) → List (Slot τ as)
  | [] => []
  | a :: as => (f a).map (lift (· :: as) rfl) ++ (inList f as).map (lift (a :: ·) rfl)

attribute [local simp] inOption inList

/-- What `out` makes of the value depends on the piece in the slot only through `mask`. -/
def Factors (mask : τ → γ) (out : α → β) (s : Slot τ a) : Prop :=
  (fun t => out (s.put t)).FactorsThrough mask

/-- The measure of the value is that of the piece in the slot, and a constant. -/
def Grows (size : τ → ℕ) (measure : α → ℕ) (s : Slot τ a) : Prop :=
  ∃ c, ∀ t, measure (s.put t) = c + size t

variable {mask : τ → γ} {size : τ → ℕ} {f : (a : α) → List (Slot τ a)}

/-! ## The slots there are -/

theorem inOption_eq_nil {o : Option α} : inOption f o = [] ↔ ∀ a ∈ o, f a = [] := by
  cases o with
  | none => simp [inOption]
  | some a => simp [inOption]

theorem inList_eq_nil {as : List α} : inList f as = [] ↔ ∀ a ∈ as, f a = [] := by
  induction as with
  | nil => simp [inList]
  | cons a as ih =>
    rw [inList, List.append_eq_nil_iff, List.map_eq_nil_iff, List.map_eq_nil_iff, ih]
    simp

/-- When every element has a slot, only the empty list has none. -/
theorem inOption_inList_eq_nil (hf : ∀ a, f a ≠ []) {o : Option (List α)} :
    inOption (inList f) o = [] ↔ o.getD [] = [] := by
  rw [inOption_eq_nil]
  cases o with
  | none => simp
  | some as =>
    constructor
    · intro h
      refine List.eq_nil_iff_forall_not_mem.2 fun a ha => hf a ?_
      exact inList_eq_nil.1 (h as rfl) a ha
    · rintro h as' has
      obtain rfl := Option.some.inj has
      have hnil : as = [] := h
      rw [hnil]
      rfl

theorem mem_inList_append {g : (a : α) → List (Slot τ a)} {as : List α} {s : Slot τ as} :
    s ∈ inList (fun a => f a ++ g a) as ↔ s ∈ inList f as ∨ s ∈ inList g as := by
  induction as with
  | nil => simp [inList]
  | cons a as ih =>
    simp only [inList, List.map_append, List.mem_append, List.mem_map, ih]
    constructor
    · rintro ((h | h) | ⟨s', h | h, rfl⟩)
      · exact .inl (.inl h)
      · exact .inr (.inl h)
      · exact .inl (.inr ⟨s', h, rfl⟩)
      · exact .inr (.inr ⟨s', h, rfl⟩)
    · rintro ((h | ⟨s', h, rfl⟩) | (h | ⟨s', h, rfl⟩))
      · exact .inl (.inl h)
      · exact .inr ⟨s', .inl h, rfl⟩
      · exact .inl (.inr h)
      · exact .inr ⟨s', .inr h, rfl⟩

theorem length_put_inList {as : List α} {s : Slot τ as} (hs : s ∈ inList f as) (t : τ) :
    (s.put t).length = as.length := by
  induction as with
  | nil => simp [inList] at hs
  | cons a as ih =>
    rcases List.mem_append.1 hs with hs | hs
    · obtain ⟨s', -, rfl⟩ := List.mem_map.1 hs
      rfl
    · obtain ⟨s', hs', rfl⟩ := List.mem_map.1 hs
      exact congrArg Nat.succ (ih hs')

/-! ## What a pass does to a slot -/

theorem factors_lift {δ δ' : Type*} {g : β → α} {h : g b = a} {s : Slot τ b} {out : β → δ}
    {out' : α → δ'} (hs : s.Factors mask out)
    (hg : ∀ x y, out x = out y → out' (g x) = out' (g y)) : (s.lift g h).Factors mask out' :=
  fun _ _ hm => hg _ _ (hs hm)

theorem factors_inOption {δ : Type*} {out : α → δ} {o : Option α}
    (hf : ∀ a ∈ o, ∀ s ∈ f a, s.Factors mask out) :
    ∀ s ∈ inOption f o, s.Factors mask (Option.map out) := by
  intro s hs
  cases o with
  | none => simp [inOption] at hs
  | some a =>
    obtain ⟨s', hs', rfl⟩ := List.mem_map.1 hs
    exact factors_lift (hf a rfl s' hs') fun x y hxy => by rw [Option.map_some, Option.map_some, hxy]

/-- **A pass over a list**, by induction on the list. -/
theorem factors_inList {δ : Type*} {out : α → δ} {as : List α}
    (hf : ∀ a ∈ as, ∀ s ∈ f a, s.Factors mask out) :
    ∀ s ∈ inList f as, s.Factors mask (List.map out) := by
  induction as with
  | nil =>
    intro s hs
    simp [inList] at hs
  | cons a as ih =>
    intro s hs
    rcases List.mem_append.1 hs with hs | hs
    · obtain ⟨s', hs', rfl⟩ := List.mem_map.1 hs
      refine factors_lift (hf a List.mem_cons_self s' hs') fun x y hxy => ?_
      rw [List.map_cons, List.map_cons, hxy]
    · obtain ⟨s', hs', rfl⟩ := List.mem_map.1 hs
      refine factors_lift (ih (fun b hb => hf b (List.mem_cons_of_mem _ hb)) s' hs') fun x y hxy => ?_
      rw [List.map_cons, List.map_cons, hxy]

/-! ## What a measure makes of a slot -/

theorem grows_lift {g : β → α} {h : g b = a} {s : Slot τ b} {measure : β → ℕ} {measure' : α → ℕ}
    (hs : s.Grows size measure) (hg : ∃ c, ∀ x, measure' (g x) = c + measure x) :
    (s.lift g h).Grows size measure' := by
  obtain ⟨c, hc⟩ := hs
  obtain ⟨c', hc'⟩ := hg
  refine ⟨c' + c, fun t => ?_⟩
  change measure' (g (s.put t)) = _
  rw [hc', hc, Nat.add_assoc]

/-- **A measure that adds up**, by induction on the list. -/
theorem grows_inList {measure : α → ℕ} {as : List α}
    (hf : ∀ a ∈ as, ∀ s ∈ f a, s.Grows size measure) :
    ∀ s ∈ inList f as, s.Grows size fun as => (as.map measure).sum := by
  induction as with
  | nil =>
    intro s hs
    simp [inList] at hs
  | cons a as ih =>
    intro s hs
    rcases List.mem_append.1 hs with hs | hs
    · obtain ⟨s', hs', rfl⟩ := List.mem_map.1 hs
      refine grows_lift (hf a List.mem_cons_self s' hs') ⟨(as.map measure).sum, fun x => ?_⟩
      rw [List.map_cons, List.sum_cons, Nat.add_comm]
    · obtain ⟨s', hs', rfl⟩ := List.mem_map.1 hs
      refine grows_lift (ih (fun b hb => hf b (List.mem_cons_of_mem _ hb)) s' hs')
        ⟨measure a, fun x => ?_⟩
      rw [List.map_cons, List.sum_cons]

theorem grows_inOption {measure : α → ℕ} {measure' : Option α → ℕ} {o : Option α}
    (hf : ∀ a ∈ o, ∀ s ∈ f a, s.Grows size measure) (hm : ∃ c, ∀ a, measure' (some a) = c + measure a) :
    ∀ s ∈ inOption f o, s.Grows size measure' := by
  intro s hs
  cases o with
  | none => simp [inOption] at hs
  | some a =>
    obtain ⟨s', hs', rfl⟩ := List.mem_map.1 hs
    exact grows_lift (hf a rfl s' hs') hm

/-- What grows with a slot tells two pieces of different size apart. -/
theorem Grows.not_factors (measure : β → ℕ) {out : α → β} {s : Slot τ a}
    (hs : s.Grows size fun a => measure (out a)) (t t' : τ) (hm : mask t = mask t')
    (hne : size t ≠ size t') : ¬s.Factors mask out := by
  intro hf
  obtain ⟨c, hc⟩ := hs
  have hout : out (s.put t) = out (s.put t') := hf hm
  have ht : measure (out (s.put t)) = c + size t := hc t
  have ht' : measure (out (s.put t')) = c + size t' := hc t'
  rw [hout] at ht
  omega

end Slot
