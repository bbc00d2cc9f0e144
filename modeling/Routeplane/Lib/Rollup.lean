import Routeplane.Lib.Assoc
import Mathlib.Algebra.BigOperators.Group.Finset.Piecewise
import Mathlib.Algebra.Order.BigOperators.Group.Finset
import Mathlib.Algebra.Order.Group.Nat
import Mathlib.Data.List.Nodup
import Mathlib.Data.List.Sort
import Mathlib.Order.MinMax
import Mathlib.Tactic.Common

/-!
# Roll-ups

Items go one by one to the group of their key, which is opened when there is none. Groups are in the
order they were opened in.

Items are folded into a map, each under its key or under none, into a list, each at its position,
into sums that saturate, and into ranks of their sorted values.

* `foldl_put_fresh`: items of new keys, each once, open one group each.
* `foldl_put_known`: items of the keys there are, in their order, go to one group each.
* `get_rollup`: what a key holds is the fold of its own items.
* `sum_rollup`: a weight that adds up over items adds up over the entries.
* `satSum_rollup`: the same for a weight that saturates.
* `getElem?_foldl_modify`: what a position holds is the fold of its own items.
* `least_of_rank`: the value of a rank is the least one that many values do not exceed.
* `Tally.update`: of parties that count for something, one changes.
-/

namespace Grouped

variable {α β γ κ : Type*} [DecidableEq κ]

/-- Add an item to the group of its key; a new group starts from `empty`. -/
def put (key : α → κ) (merge : β → α → β) (empty : β) : List (κ × β) → α → List (κ × β)
  | [], a => [(key a, merge empty a)]
  | (k, b) :: m, a =>
    if k = key a then (k, merge b a) :: m else (k, b) :: put key merge empty m a

variable {key : α → κ} {merge : β → α → β} {empty : β} {m pre : List (κ × β)} {a : α}

theorem put_fresh (h : ∀ e ∈ m, e.1 ≠ key a) :
    put key merge empty m a = m ++ [(key a, merge empty a)] := by
  induction m with
  | nil => rfl
  | cons e m ih =>
    obtain ⟨k, b⟩ := e
    have hk : k ≠ key a := h _ List.mem_cons_self
    rw [put, if_neg hk, ih fun e he => h e (List.mem_cons_of_mem _ he), List.cons_append]

theorem put_known (b : β) (h : ∀ e ∈ pre, e.1 ≠ key a) :
    put key merge empty (pre ++ (key a, b) :: m) a = pre ++ (key a, merge b a) :: m := by
  induction pre with
  | nil => exact if_pos rfl
  | cons e pre ih =>
    obtain ⟨k, b'⟩ := e
    have hk : k ≠ key a := h _ List.mem_cons_self
    rw [List.cons_append, put, if_neg hk, ih fun e he => h e (List.mem_cons_of_mem _ he),
      List.cons_append]

/-- By induction on the items; the groups opened so far are of other keys. -/
theorem foldl_put_fresh {as : List α} (hnodup : (as.map key).Nodup) :
    ∀ {m : List (κ × β)}, (∀ a ∈ as, ∀ e ∈ m, e.1 ≠ key a) →
      as.foldl (put key merge empty) m = m ++ as.map fun a => (key a, merge empty a) := by
  induction as with
  | nil => exact fun _ => (List.append_nil _).symm
  | cons a as ih =>
    intro m hfresh
    obtain ⟨hkey, hrest⟩ := List.nodup_cons.1 hnodup
    have hput : put key merge empty m a = m ++ [(key a, merge empty a)] :=
      put_fresh (hfresh a List.mem_cons_self)
    rw [List.foldl_cons, hput, ih hrest, List.append_assoc]
    · rfl
    · intro a' ha' e he
      rcases List.mem_append.1 he with he | he
      · exact hfresh a' (List.mem_cons_of_mem _ ha') e he
      · rw [List.mem_singleton.1 he]
        intro heq
        exact hkey (List.mem_map.2 ⟨a', ha', heq.symm⟩)

/-- By induction on the items; the groups before have got theirs. -/
theorem foldl_put_known {index : γ → κ} (item : γ → α) (hitem : ∀ c, key (item c) = index c)
    (b : γ → β) {cs : List γ} (hnodup : (cs.map index).Nodup) :
    ∀ {pre : List (κ × β)}, (∀ c ∈ cs, ∀ e ∈ pre, e.1 ≠ index c) →
      (cs.map item).foldl (put key merge empty) (pre ++ cs.map fun c => (index c, b c)) =
        pre ++ cs.map fun c => (index c, merge (b c) (item c)) := by
  induction cs with
  | nil => exact fun _ => rfl
  | cons c cs ih =>
    intro pre hpre
    obtain ⟨hindex, hrest⟩ := List.nodup_cons.1 hnodup
    have hput : put key merge empty (pre ++ (index c, b c) :: cs.map fun c => (index c, b c))
        (item c) = pre ++ (index c, merge (b c) (item c)) :: cs.map fun c => (index c, b c) := by
      have hfirst := hpre c List.mem_cons_self
      rw [← hitem c] at hfirst ⊢
      exact put_known (b c) hfirst
    have hpre' : ∀ c' ∈ cs, ∀ e ∈ pre ++ [(index c, merge (b c) (item c))], e.1 ≠ index c' := by
      intro c' hc' e he
      rcases List.mem_append.1 he with he | he
      · exact hpre c' (List.mem_cons_of_mem _ hc') e he
      · rw [List.mem_singleton.1 he]
        intro heq
        exact hindex (List.mem_map.2 ⟨c', hc', heq.symm⟩)
    have hnext := ih hrest hpre'
    rw [List.append_assoc, List.append_assoc] at hnext
    rw [List.map_cons, List.map_cons, List.map_cons, List.foldl_cons, hput]
    exact hnext

end Grouped

namespace Rollup

variable {α β γ κ : Type*} [DecidableEq κ]

/-! ## By key -/

/-- Fold an item into what its key holds; a new key starts from `empty`. -/
def put (key : α → Option κ) (add : β → α → β) (empty : β) (m : Assoc κ β) (a : α) : Assoc κ β :=
  match key a with
  | none => m
  | some k => m.insert k (add ((m.get k).getD empty) a)

def rollup (key : α → Option κ) (add : β → α → β) (empty : β) (as : List α) : Assoc κ β :=
  as.foldl (put key add empty) []

variable {key : α → Option κ} {add : β → α → β} {empty : β}

theorem distinct_put {m : Assoc κ β} (hd : m.Distinct) (a : α) :
    (put key add empty m a).Distinct := by
  unfold put
  split
  · exact hd
  · exact hd.insert _ _

theorem distinct_foldl (as : List α) {m : Assoc κ β} (hd : m.Distinct) :
    (as.foldl (put key add empty) m).Distinct := by
  induction as generalizing m with
  | nil => exact hd
  | cons a as ih => exact ih (distinct_put hd a)

theorem distinct_rollup (as : List α) : (rollup key add empty as).Distinct :=
  distinct_foldl as .nil

/-- The items of a key, in their order. -/
def itemsOf (key : α → Option κ) (k : κ) (as : List α) : List α := as.filter fun a => key a = some k

/-- By induction on the items: those of other keys leave what the key holds. -/
theorem get_foldl (as : List α) (m : Assoc κ β) (k : κ) :
    (as.foldl (put key add empty) m).get k =
      if itemsOf key k as = [] then m.get k
      else some ((itemsOf key k as).foldl add ((m.get k).getD empty)) := by
  unfold itemsOf
  induction as generalizing m with
  | nil => rfl
  | cons a as ih =>
    rw [List.foldl_cons, ih, put]
    by_cases hk : key a = some k
    · rw [hk, List.filter_cons_of_pos (by simpa using hk), if_neg (List.cons_ne_nil _ _),
        Assoc.get_insert_self, Option.getD_some, List.foldl_cons]
      split
      · rename_i hnone
        rw [hnone, List.foldl_nil]
      · rfl
    · rw [List.filter_cons_of_neg (by simpa using hk)]
      cases hkey : key a with
      | none => rfl
      | some other =>
        have hne : k ≠ other := by
          rintro rfl
          exact hk hkey
        rw [Assoc.get_insert_of_ne hne]

/-- **What a key holds is the fold of its own items.** -/
theorem get_rollup (as : List α) (k : κ) :
    (rollup key add empty as).get k =
      if itemsOf key k as = [] then none else some ((itemsOf key k as).foldl add empty) := by
  rw [rollup, get_foldl]
  rfl

theorem get_mapValues (f : β → γ) (m : Assoc κ β) (k : κ) :
    Assoc.get (m.map fun e => (e.1, f e.2)) k = (m.get k).map f := by
  induction m with
  | nil => rfl
  | cons e m ih =>
    rw [List.map_cons, Assoc.get_cons, Assoc.get_cons, ih]
    split <;> rfl

/-- A map of folds is the map of the items they fold. -/
theorem rollup_eq_map (as : List α) :
    rollup key add empty as =
      (rollup key (fun items a => items ++ [a]) [] as).map fun e => (e.1, e.2.foldl add empty) := by
  have hfold : ∀ m : Assoc κ (List α),
      as.foldl (put key add empty) (m.map fun e => (e.1, e.2.foldl add empty)) =
        (as.foldl (put key (fun items a => items ++ [a]) []) m).map
          fun e => (e.1, e.2.foldl add empty) := by
    induction as with
    | nil => exact fun _ => rfl
    | cons a as ih =>
      intro m
      rw [List.foldl_cons, List.foldl_cons, ← ih]
      congr 1
      unfold put
      cases key a with
      | none => rfl
      | some k =>
        have hget := get_mapValues (fun items : List α => items.foldl add empty) m k
        have hremove : Assoc.remove (m.map fun e => (e.1, e.2.foldl add empty)) k =
            (m.remove k).map fun e => (e.1, e.2.foldl add empty) := List.filter_map
        simp only [Assoc.insert, hget, hremove, List.map_cons, List.foldl_append, List.foldl_cons,
          List.foldl_nil]
        cases m.get k <;> rfl
  exact hfold []

/-- **A weight that adds up over items adds up over the entries.** By induction on the items; the
entries so far weigh what the items so far do. -/
theorem sum_rollup (weight : β → ℕ) (itemWeight : α → ℕ) (hempty : weight empty = 0)
    (hadd : ∀ b a, weight (add b a) = weight b + itemWeight a) (as : List α) :
    ((rollup key add empty as).map fun e => weight e.2).sum =
      ((as.filter fun a => (key a).isSome).map itemWeight).sum := by
  have hfold : ∀ m : Assoc κ β, m.Distinct →
      ((as.foldl (put key add empty) m).map fun e => weight e.2).sum =
        (m.map fun e => weight e.2).sum +
          ((as.filter fun a => (key a).isSome).map itemWeight).sum := by
    induction as with
    | nil => exact fun _ _ => (Nat.add_zero _).symm
    | cons a as ih =>
      intro m hd
      rw [List.foldl_cons, ih _ (distinct_put hd a), put]
      cases hkey : key a with
      | none => rw [List.filter_cons_of_neg (by simp [hkey])]
      | some k =>
        have hinsert := Assoc.sum_insert hd k (add ((m.get k).getD empty) a) fun e => weight e.2
        have hold : ((m.get k).elim 0 fun b => weight b) = weight ((m.get k).getD empty) := by
          cases m.get k with
          | none => exact hempty.symm
          | some b => rfl
        rw [List.filter_cons_of_pos (by simp [hkey]), List.map_cons, List.sum_cons]
        rw [hadd, hold] at hinsert
        simp only
        omega
  rw [rollup, hfold [] .nil]
  exact Nat.zero_add _

/-! ## Sums that saturate -/

/-- By induction on the items; what is weighed so far is within the bound. -/
theorem weight_foldl {top : ℕ} (weight : β → ℕ) (itemWeight : α → ℕ)
    (hadd : ∀ b a, weight b ≤ top → weight (add b a) = min (weight b + itemWeight a) top)
    (as : List α) {b : β} (hb : weight b ≤ top) :
    weight (as.foldl add b) = min (weight b + (as.map itemWeight).sum) top := by
  induction as generalizing b with
  | nil =>
    show weight b = min (weight b + 0) top
    omega
  | cons a as ih =>
    have hnext := hadd b a hb
    rw [List.foldl_cons, ih (by omega), hnext, List.map_cons, List.sum_cons]
    omega

/-- Summands that saturate by themselves saturate the sum no earlier. -/
theorem min_sum_min (top : ℕ) (l : List ℕ) : min (l.map fun n => min n top).sum top = min l.sum top := by
  induction l with
  | nil => rfl
  | cons n l ih =>
    rw [List.map_cons, List.sum_cons, List.sum_cons]
    omega

/-- **A weight that saturates adds up over the entries as over the items.** -/
theorem satSum_rollup {top : ℕ} (weight : β → ℕ) (itemWeight : α → ℕ) (hempty : weight empty = 0)
    (hadd : ∀ b a, weight b ≤ top → weight (add b a) = min (weight b + itemWeight a) top)
    (as : List α) :
    min ((rollup key add empty as).map fun e => weight e.2).sum top =
      min ((as.filter fun a => (key a).isSome).map itemWeight).sum top := by
  have hitems : ((rollup key (fun items a => items ++ [a]) [] as).map
      fun e => (e.2.map itemWeight).sum).sum =
        ((as.filter fun a => (key a).isSome).map itemWeight).sum :=
    sum_rollup (fun items : List α => (items.map itemWeight).sum) itemWeight rfl
      (fun items a => by
        rw [List.map_append, List.sum_append, List.map_singleton, List.sum_singleton]) as
  have hmap : ((rollup key add empty as).map fun e => weight e.2) =
      ((rollup key (fun items a => items ++ [a]) [] as).map
        fun e => (e.2.map itemWeight).sum).map fun n => min n top := by
    rw [rollup_eq_map, List.map_map, List.map_map]
    refine List.map_congr_left fun e _ => ?_
    show weight (e.2.foldl add empty) = _
    have hle : weight empty ≤ top := by
      rw [hempty]
      exact Nat.zero_le _
    rw [weight_foldl weight itemWeight hadd e.2 hle, hempty, Nat.zero_add]
    rfl
  rw [hmap, min_sum_min, hitems]

/-! ## By position -/

/-- **What a position holds is the fold of its own items.** By induction on the items. -/
theorem getElem?_foldl_modify (index : α → ℕ) (as : List α) (bs : List β) (i : ℕ) :
    (as.foldl (fun bs a => bs.modify (index a) fun b => add b a) bs)[i]? =
      bs[i]?.map fun b => (as.filter fun a => index a = i).foldl add b := by
  induction as generalizing bs with
  | nil => exact Option.map_id'.symm
  | cons a as ih =>
    rw [List.foldl_cons, ih, List.getElem?_modify]
    cases bs[i]? with
    | none => rfl
    | some b =>
      by_cases hi : index a = i
      · rw [List.filter_cons_of_pos (by simpa using hi)]
        simp only [hi, if_true, Option.map_eq_map, Option.map_some, List.foldl_cons]
      · rw [List.filter_cons_of_neg (by simpa using hi)]
        simp only [hi, if_false, Option.map_eq_map, Option.map_some]

/-- Items that all have a position among the first `n` are counted by position. -/
theorem sum_length_filter (index : α → ℕ) (n : ℕ) (as : List α) (h : ∀ a ∈ as, index a < n) :
    ((List.range n).map fun i => (as.filter fun a => index a = i).length).sum = as.length := by
  induction as with
  | nil => simp
  | cons a as ih =>
    have hrest := ih fun b hb => h b (List.mem_cons_of_mem _ hb)
    have hone : ∀ m, index a < m →
        ((List.range m).map fun i => (((a :: as).filter fun b => index b = i).length)).sum =
          ((List.range m).map fun i => (as.filter fun b => index b = i).length).sum + 1 := by
      intro m hm
      induction m with
      | zero => omega
      | succ m ihm =>
        rw [List.range_succ, List.map_append, List.map_append, List.sum_append, List.sum_append,
          List.map_singleton, List.map_singleton, List.sum_singleton, List.sum_singleton]
        by_cases hlast : index a = m
        · have hothers : (List.range m).map (fun i => ((a :: as).filter fun b => index b = i).length) =
              (List.range m).map fun i => (as.filter fun b => index b = i).length := by
            refine List.map_congr_left fun i hi => ?_
            have hne : index a ≠ i := by
              have hlt := List.mem_range.1 hi
              omega
            rw [List.filter_cons_of_neg (by simpa using hne)]
          rw [hothers, List.filter_cons_of_pos (by simpa using hlast), List.length_cons]
          omega
        · rw [ihm (by omega), List.filter_cons_of_neg (by simpa using hlast)]
          omega
    rw [hone n (h a List.mem_cons_self), hrest, List.length_cons]

/-! ## By rank -/

section Rank

variable [LinearOrder γ] {l : List γ}

/-- In a sorted list a value is not exceeded by itself and those before it. -/
theorem lt_countP_le (hs : l.Pairwise (· ≤ ·)) {i : ℕ} (hi : i < l.length) :
    i < l.countP fun x => x ≤ l[i] := by
  have hbefore : ∀ x ∈ l.take (i + 1), x ≤ l[i] := by
    intro x hx
    obtain ⟨j, hj, rfl⟩ := List.mem_iff_getElem.1 hx
    rw [List.length_take] at hj
    rw [List.getElem_take]
    rcases Nat.lt_or_ge j i with hji | hji
    · exact List.pairwise_iff_getElem.1 hs j i _ _ hji
    · have heq : j = i := by omega
      subst heq
      exact le_rfl
  have hcount : (l.take (i + 1)).countP (fun x => x ≤ l[i]) = (l.take (i + 1)).length :=
    List.countP_eq_length.2 fun x hx => decide_eq_true (hbefore x hx)
  have hle : (l.take (i + 1)).countP (fun x => x ≤ l[i]) ≤ l.countP fun x => x ≤ l[i] :=
    (List.take_sublist _ _).countP_le
  rw [hcount, List.length_take] at hle
  omega

/-- A smaller value is not exceeded by those before it at the most. -/
theorem countP_le_of_lt (hs : l.Pairwise (· ≤ ·)) {i : ℕ} (hi : i < l.length) {x : γ}
    (hx : x < l[i]) : (l.countP fun y => y ≤ x) ≤ i := by
  have hrest : (l.drop i).countP (fun y => y ≤ x) = 0 := by
    rw [List.countP_eq_zero]
    intro y hy
    obtain ⟨j, hj, rfl⟩ := List.mem_iff_getElem.1 hy
    rw [List.length_drop] at hj
    rw [List.getElem_drop, decide_eq_true_eq, not_le]
    refine hx.trans_le ?_
    rcases Nat.eq_zero_or_pos j with rfl | hpos
    · exact le_rfl
    · exact List.pairwise_iff_getElem.1 hs i (i + j) _ _ (by omega)
  have hfirst : (l.take i).countP (fun y => y ≤ x) ≤ (l.take i).length := List.countP_le_length
  have hsplit : l.countP (fun y => y ≤ x) =
      (l.take i).countP (fun y => y ≤ x) + (l.drop i).countP fun y => y ≤ x := by
    rw [← List.countP_append, List.take_append_drop]
  rw [List.length_take] at hfirst
  omega

/-- **The value of a rank is the least one that many values do not exceed.** The values are ranked
from one. -/
theorem least_of_rank (hs : l.Pairwise (· ≤ ·)) {rank : ℕ} (hpos : 0 < rank)
    (hle : rank ≤ l.length) :
    (rank ≤ l.countP fun y => y ≤ l[rank - 1]) ∧
      ∀ x < l[rank - 1], (l.countP fun y => y ≤ x) < rank := by
  have hi : rank - 1 < l.length := by omega
  have hcount := lt_countP_le hs hi
  refine ⟨by omega, fun x hx => ?_⟩
  have hbelow := countP_le_of_lt hs hi hx
  omega

end Rank

end Rollup

namespace Tally

variable {ι α : Type*} [Fintype ι]

theorem le (f : α → ℕ) (c : ι → α) (i : ι) : f (c i) ≤ ∑ j, f (c j) := by
  have hnonneg : ∀ j ∈ Finset.univ, 0 ≤ f (c j) := fun _ _ => Nat.zero_le _
  exact Finset.single_le_sum hnonneg (Finset.mem_univ i)

theorem mono {f g : α → ℕ} (h : ∀ a, f a ≤ g a) (c : ι → α) : ∑ j, f (c j) ≤ ∑ j, g (c j) :=
  Finset.sum_le_sum fun j _ => h (c j)

theorem eq_zero {f : α → ℕ} {c : ι → α} (h : ∀ i, f (c i) = 0) : ∑ j, f (c j) = 0 :=
  Finset.sum_eq_zero fun j _ => h j

theorem update [DecidableEq ι] (f : α → ℕ) (c : ι → α) (i : ι) (a : α) :
    ∑ j, f (Function.update c i a j) = ∑ j, f (c j) - f (c i) + f a := by
  have hself := Finset.add_sum_erase Finset.univ (fun j => f (c j)) (Finset.mem_univ i)
  have hmoved := Finset.add_sum_erase Finset.univ (fun j => f (Function.update c i a j))
    (Finset.mem_univ i)
  have hothers : ∑ j ∈ Finset.univ.erase i, f (Function.update c i a j) =
      ∑ j ∈ Finset.univ.erase i, f (c j) := by
    refine Finset.sum_congr rfl fun j hj => ?_
    rw [Function.update_of_ne (Finset.ne_of_mem_erase hj)]
  simp only [Function.update_self] at hself hmoved
  omega

end Tally
