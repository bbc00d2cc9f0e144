import Mathlib.Algebra.BigOperators.Group.List.Basic
import Mathlib.Algebra.GroupWithZero.Nat
import Mathlib.Data.List.Forall2
import Mathlib.Data.Nat.Notation
import Mathlib.Tactic.Common

/-!
# Parts of a value

Some parts of a value, and the value with these parts blanked: two values with the same blank differ
in these parts alone. A focus on a structured value is put together from one on what is inside it.

* `Focus.Changed`: only the parts differ, each as a relation allows, and what they lose in weight is
  counted.
* `Changed.each`, `Changed.part`, `Changed.branch`: the change of a whole from that of what is in it.
-/

universe u v w

/-- Parts of a value, and the value without them. -/
structure Focus (α : Type u) (β : Type v) where
  parts : α → List β
  blank : α → α

namespace Focus

variable {α : Type u} {β : Type v} {σ : Type w}

def weigh (F : Focus α β) (weight : β → ℕ) (a : α) : ℕ := ((F.parts a).map weight).sum

/-- From `a` to `a'` nothing but the parts changes, each as `R` says; together they are lighter by
`saved`. -/
structure Changed (F : Focus α β) (R : β → β → Prop) (weight : β → ℕ) (a a' : α) (saved : ℕ) :
    Prop where
  blank : F.blank a' = F.blank a
  parts : List.Forall₂ R (F.parts a) (F.parts a')
  weigh : F.weigh weight a' + saved = F.weigh weight a

/-! ## Put together -/

/-- No parts at all. -/
def nothing : Focus α β := ⟨fun _ => [], id⟩

/-- The whole value is the part, where there is one to read. -/
def atom (read : α → Option β) (blanked : α) : Focus α β where
  parts a := (read a).toList
  blank a := if (read a).isSome then blanked else a

/-- The parts of every item of a list. -/
def each (F : Focus α β) : Focus (List α) β where
  parts as := as.flatMap F.parts
  blank as := as.map F.blank

/-- The parts of what is inside, if it is there. -/
def part (get : σ → Option α) (set : σ → α → σ) (F : Focus α β) : Focus σ β where
  parts s := (get s).elim [] F.parts
  blank s := (get s).elim s fun a => set s (F.blank a)

/-- The parts that the kind of the value says. -/
def branch (kind : α → Bool) (F G : Focus α β) : Focus α β where
  parts a := if kind a then F.parts a else G.parts a
  blank a := if kind a then F.blank a else G.blank a

/-! ## What a change of the whole is -/

section

variable {F G : Focus α β} {R : β → β → Prop} {weight : β → ℕ} {a a' : α} {saved : ℕ}

namespace Changed

theorem refl (hR : ∀ b, R b b) (a : α) : F.Changed R weight a a 0 :=
  ⟨rfl, List.forall₂_same.2 fun b _ => hR b, rfl⟩

theorem nil : F.each.Changed R weight [] [] 0 := ⟨rfl, List.Forall₂.nil, rfl⟩

theorem cons {as as' : List α} {more : ℕ} (hhead : F.Changed R weight a a' saved)
    (htail : F.each.Changed R weight as as' more) :
    F.each.Changed R weight (a :: as) (a' :: as') (saved + more) where
  blank := by
    have hblank : as'.map F.blank = as.map F.blank := htail.blank
    simp only [each, List.map_cons, hhead.blank, hblank]
  parts := by
    simp only [each, List.flatMap_cons]
    exact List.rel_append hhead.parts htail.parts
  weigh := by
    have hw := hhead.weigh
    have hws := htail.weigh
    simp only [Focus.weigh, each, List.flatMap_cons, List.map_append, List.sum_append] at hw hws ⊢
    omega

theorem atom {read : α → Option β} {blanked : α} {b b' : β} (hread : read a = some b)
    (hread' : read a' = some b') (hR : R b b') (hweight : weight b' + saved = weight b) :
    (Focus.atom read blanked).Changed R weight a a' saved where
  blank := by simp only [Focus.atom, hread, hread', Option.isSome_some, if_true]
  parts := by
    simp only [Focus.atom, hread, hread', Option.toList_some]
    exact List.Forall₂.cons hR List.Forall₂.nil
  weigh := by simpa [Focus.weigh, Focus.atom, hread, hread'] using hweight

/-- What is set is read again, and of two settings the last counts. -/
theorem part {get : σ → Option α} {set : σ → α → σ} {s : σ} (hget : get s = some a)
    (hset : get (set s a') = some a') (hagain : ∀ b, set (set s a') b = set s b)
    (h : F.Changed R weight a a' saved) :
    (F.part get set).Changed R weight s (set s a') saved where
  blank := by simp only [Focus.part, hget, hset, Option.elim_some, hagain, h.blank]
  parts := by simpa only [Focus.part, hget, hset, Option.elim_some] using h.parts
  weigh := by simpa only [Focus.weigh, Focus.part, hget, hset, Option.elim_some] using h.weigh

theorem left {kind : α → Bool} (hkind : kind a = true) (hkind' : kind a' = true)
    (h : F.Changed R weight a a' saved) : (F.branch kind G).Changed R weight a a' saved where
  blank := by simpa only [branch, hkind, hkind', if_true] using h.blank
  parts := by simpa only [branch, hkind, hkind', if_true] using h.parts
  weigh := by simpa only [Focus.weigh, branch, hkind, hkind', if_true] using h.weigh

theorem right {kind : α → Bool} (hkind : kind a = false) (hkind' : kind a' = false)
    (h : G.Changed R weight a a' saved) : (F.branch kind G).Changed R weight a a' saved where
  blank := by simpa only [branch, hkind, hkind', Bool.false_eq_true, if_false] using h.blank
  parts := by simpa only [branch, hkind, hkind', Bool.false_eq_true, if_false] using h.parts
  weigh := by
    simpa only [Focus.weigh, branch, hkind, hkind', Bool.false_eq_true, if_false] using h.weigh

end Changed

end

end Focus
