import Mathlib.Algebra.BigOperators.Group.List.Basic
import Mathlib.Algebra.Ring.Nat
import Mathlib.Data.List.Perm.Basic

/-!
# Maps as lists of entries

A hash map is the list of its entries in the order it is walked. A key has at most one entry when
the keys are distinct, and then no operation and no order of the walk changes which.

* `get_eq_some_iff`: what a key holds is the entry it has.
* `get_insert`, `get_remove`: what the operations do to each key.
* `sum_insert`: what an entry adds to the weight of a map.
* `get_perm`: the order of the walk does not matter.
* `get_insertNews`: of several values offered for a key the first one stays.
-/

abbrev Assoc (κ ν : Type*) := List (κ × ν)

namespace Assoc

variable {κ ν : Type*}

/-- One entry for each key. -/
def Distinct (m : Assoc κ ν) : Prop := (m.map (·.1)).Nodup

theorem Distinct.nil : Distinct ([] : Assoc κ ν) := List.nodup_nil

theorem Distinct.sublist {m m' : Assoc κ ν} (hd : m.Distinct) (hs : m'.Sublist m) : m'.Distinct :=
  List.Nodup.sublist (hs.map _) hd

theorem Distinct.perm {m m' : Assoc κ ν} (hd : m.Distinct) (hp : m'.Perm m) : m'.Distinct :=
  ((hp.map _).nodup_iff).2 hd

variable [DecidableEq κ] {m m' : Assoc κ ν} {key key' : κ} {val : ν}

def get (m : Assoc κ ν) (key : κ) : Option ν := (m.find? fun e => e.1 = key).map (·.2)

def remove (m : Assoc κ ν) (key : κ) : Assoc κ ν := m.filter fun e => e.1 ≠ key

def insert (m : Assoc κ ν) (key : κ) (val : ν) : Assoc κ ν := (key, val) :: m.remove key

@[simp] theorem get_nil : get ([] : Assoc κ ν) key = none := rfl

theorem get_cons (e : κ × ν) (m : Assoc κ ν) (key : κ) :
    get (e :: m) key = if e.1 = key then some e.2 else get m key := by
  unfold get
  by_cases h : e.1 = key
  · rw [List.find?_cons_of_pos (by simpa using h), if_pos h]
    rfl
  · rw [List.find?_cons_of_neg (by simpa using h), if_neg h]

theorem get_append (m m' : Assoc κ ν) (key : κ) :
    get (m ++ m') key = (get m key).or (get m' key) := by
  induction m with
  | nil => exact Option.none_or.symm
  | cons e m ih =>
    rw [List.cons_append, get_cons, get_cons]
    split
    · exact Option.some_or.symm
    · exact ih

theorem lookup_eq_get (m : Assoc κ ν) (key : κ) : List.lookup key m = m.get key := by
  induction m with
  | nil => rfl
  | cons e m ih =>
    obtain ⟨key', val⟩ := e
    rw [List.lookup_cons, get_cons, ih]
    by_cases h : key' = key
    · subst h
      simp
    · simp [h, beq_false_of_ne (Ne.symm h)]

theorem mem_of_get (h : m.get key = some val) : (key, val) ∈ m := by
  obtain ⟨e, he, rfl⟩ := Option.map_eq_some_iff.1 h
  have hkey : e.1 = key := by simpa using List.find?_some he
  subst hkey
  exact List.mem_of_find?_eq_some he

theorem get_of_mem (hd : m.Distinct) (h : (key, val) ∈ m) : m.get key = some val := by
  induction m with
  | nil => cases h
  | cons e m ih =>
    obtain ⟨he, hd'⟩ := List.nodup_cons.1 hd
    rw [get_cons]
    rcases List.mem_cons.1 h with rfl | h
    · exact if_pos rfl
    · have hne : e.1 ≠ key := by
        rintro rfl
        exact he (List.mem_map.2 ⟨_, h, rfl⟩)
      rw [if_neg hne]
      exact ih hd' h

/-- **What a key holds is the entry it has.** -/
theorem get_eq_some_iff (hd : m.Distinct) : m.get key = some val ↔ (key, val) ∈ m :=
  ⟨mem_of_get, get_of_mem hd⟩

theorem get_eq_none_iff : m.get key = none ↔ ∀ val, (key, val) ∉ m := by
  unfold get
  rw [Option.map_eq_none_iff, List.find?_eq_none]
  constructor
  · intro h val hmem
    exact h _ hmem (by simp)
  · intro h e he hkey
    have hkey' : e.1 = key := by simpa using hkey
    subst hkey'
    exact h e.2 he

theorem mem_remove {e : κ × ν} : e ∈ m.remove key ↔ e ∈ m ∧ e.1 ≠ key := by
  unfold remove
  rw [List.mem_filter]
  simp

theorem remove_sublist (m : Assoc κ ν) (key : κ) : (m.remove key).Sublist m := List.filter_sublist

theorem insert_of_free (h : m.get key = none) (val : ν) : m.insert key val = (key, val) :: m := by
  unfold insert remove
  rw [List.filter_eq_self.2]
  intro e he
  have hne : e.1 ≠ key := by
    rintro rfl
    exact get_eq_none_iff.1 h e.2 he
  simpa using hne

theorem Distinct.insert (hd : m.Distinct) (key : κ) (val : ν) : (m.insert key val).Distinct := by
  refine List.nodup_cons.2 ⟨?_, hd.sublist (remove_sublist m key)⟩
  rw [List.mem_map]
  rintro ⟨e, he, heq⟩
  exact (mem_remove.1 he).2 heq

theorem get_remove_self (m : Assoc κ ν) (key : κ) : (m.remove key).get key = none := by
  rw [get_eq_none_iff]
  intro val hmem
  exact (mem_remove.1 hmem).2 rfl

theorem get_remove_of_ne (hne : key' ≠ key) (m : Assoc κ ν) : (m.remove key).get key' = m.get key' := by
  induction m with
  | nil => rfl
  | cons e m ih =>
    unfold remove at ih ⊢
    by_cases he : e.1 = key
    · have he' : e.1 ≠ key' := fun h => hne (h.symm.trans he)
      rw [List.filter_cons_of_neg (by simpa using he), ih, get_cons, if_neg he']
    · rw [List.filter_cons_of_pos (by simpa using he), get_cons, get_cons, ih]

theorem get_remove (m : Assoc κ ν) (key key' : κ) :
    (m.remove key).get key' = if key = key' then none else m.get key' := by
  by_cases h : key = key'
  · rw [if_pos h, ← h, get_remove_self]
  · rw [if_neg h, get_remove_of_ne (fun h' => h h'.symm)]

theorem get_insert_self (m : Assoc κ ν) (key : κ) (val : ν) : (m.insert key val).get key = some val := by
  unfold insert
  rw [get_cons, if_pos rfl]

theorem get_insert_of_ne (hne : key' ≠ key) (m : Assoc κ ν) (val : ν) :
    (m.insert key val).get key' = m.get key' := by
  unfold insert
  rw [get_cons, if_neg hne.symm, get_remove_of_ne hne]

theorem get_insert (m : Assoc κ ν) (key key' : κ) (val : ν) :
    (m.insert key val).get key' = if key = key' then some val else m.get key' := by
  by_cases h : key = key'
  · rw [if_pos h, ← h, get_insert_self]
  · rw [if_neg h, get_insert_of_ne (fun h' => h h'.symm)]

/-- A key that is taken makes room for itself. -/
theorem length_insert_le (m : Assoc κ ν) (key : κ) (val : ν) :
    (m.insert key val).length ≤ m.length + if (m.get key).isNone then 1 else 0 := by
  have hremove : (m.remove key).length ≤ m.length := (remove_sublist m key).length_le
  unfold insert
  rw [List.length_cons]
  cases hget : m.get key with
  | none =>
    simp only [Option.isNone_none, if_true]
    omega
  | some old =>
    have hlt : (m.remove key).length < m.length := by
      unfold remove
      rw [List.length_filter_lt_length_iff_exists]
      exact ⟨_, mem_of_get hget, by simp⟩
    simp only [Option.isNone_some, Bool.false_eq_true, if_false]
    omega

/-- **Entries added one after the other when their keys are free**, the last one first. By induction
on what is added. -/
theorem foldlM_fresh {α ε : Type*} {add : Assoc κ ν → α → Except ε (Assoc κ ν)} {entry : α → κ × ν}
    (hadd : ∀ m a m', add m a = .ok m' → get m (entry a).1 = none ∧ m' = entry a :: m) {l : List α}
    (hd : m.Distinct) (h : l.foldlM add m = .ok m') :
    m' = (l.map entry).reverse ++ m ∧ m'.Distinct := by
  induction l generalizing m with
  | nil =>
    have heq : m = m' := Except.ok.inj h
    subst heq
    exact ⟨rfl, hd⟩
  | cons a l ih =>
    rw [List.foldlM_cons] at h
    cases hnext : add m a with
    | error err =>
      rw [hnext] at h
      cases h
    | ok next =>
      rw [hnext] at h
      obtain ⟨hfree, rfl⟩ := hadd m a next hnext
      have hdistinct : Distinct (entry a :: m) := by
        have hinsert := hd.insert (entry a).1 (entry a).2
        rw [insert_of_free hfree] at hinsert
        exact hinsert
      rw [List.map_cons, List.reverse_cons, List.append_assoc]
      exact ih hdistinct h

/-! ## Weights of entries -/

/-- **A map weighs what a key holds and the rest.** By induction on the entries. -/
theorem sum_eq_get_add_remove (hd : m.Distinct) (key : κ) (weight : κ × ν → ℕ) :
    (m.map weight).sum =
      ((m.get key).elim 0 fun val => weight (key, val)) + ((m.remove key).map weight).sum := by
  induction m with
  | nil => rfl
  | cons e m ih =>
    obtain ⟨he, hd'⟩ := List.nodup_cons.1 hd
    have hrest := ih hd'
    unfold remove at hrest ⊢
    rw [get_cons, List.map_cons, List.sum_cons]
    by_cases hkey : e.1 = key
    · -- no other entry has the key
      subst hkey
      have hnone : get m e.1 = none := by
        rw [get_eq_none_iff]
        intro val hmem
        exact he (List.mem_map.2 ⟨_, hmem, rfl⟩)
      rw [hnone] at hrest
      rw [if_pos rfl, List.filter_cons_of_neg (by simp), hrest]
      exact Nat.zero_add _ ▸ rfl
    · rw [if_neg hkey, List.filter_cons_of_pos (by simpa using hkey), List.map_cons, List.sum_cons,
        hrest]
      omega

/-- What a new entry weighs more than the one it replaces. -/
theorem sum_insert (hd : m.Distinct) (key : κ) (val : ν) (weight : κ × ν → ℕ) :
    ((m.insert key val).map weight).sum + ((m.get key).elim 0 fun old => weight (key, old)) =
      (m.map weight).sum + weight (key, val) := by
  have hsplit := sum_eq_get_add_remove hd key weight
  unfold insert
  rw [List.map_cons, List.sum_cons]
  omega

/-! ## Removing several keys -/

/-- Removing keys one after the other keeps the entries of the others. -/
theorem foldl_remove (keys : List κ) (m : Assoc κ ν) :
    keys.foldl remove m = m.filter fun e => e.1 ∉ keys := by
  induction keys generalizing m with
  | nil => exact (List.filter_eq_self.2 fun _ _ => by simp).symm
  | cons key keys ih =>
    rw [List.foldl_cons, ih]
    unfold remove
    rw [List.filter_filter]
    refine List.filter_congr fun e _ => ?_
    simp only [List.mem_cons, not_or, Bool.decide_and, ne_eq]
    exact Bool.and_comm _ _

theorem get_foldl_remove (keys : List κ) (m : Assoc κ ν) (key : κ) :
    get (keys.foldl remove m) key = if key ∈ keys then none else m.get key := by
  induction keys generalizing m with
  | nil => rw [List.foldl_nil, if_neg List.not_mem_nil]
  | cons first keys ih =>
    rw [List.foldl_cons, ih, get_remove]
    by_cases hmem : key ∈ keys
    · rw [if_pos hmem, if_pos (List.mem_cons_of_mem _ hmem)]
    · rw [if_neg hmem]
      by_cases hfirst : first = key
      · rw [if_pos hfirst, if_pos (hfirst ▸ List.mem_cons_self)]
      · have hcons : key ∉ first :: keys := by
          rw [List.mem_cons, not_or]
          exact ⟨fun h => hfirst h.symm, hmem⟩
        rw [if_neg hfirst, if_neg hcons]

/-- **The order of the walk does not matter.** -/
theorem get_perm (hd : m.Distinct) (hp : m'.Perm m) (key : κ) : m'.get key = m.get key := by
  cases hget : m.get key with
  | none =>
    rw [get_eq_none_iff] at hget ⊢
    intro val hmem
    exact hget val (hp.subset hmem)
  | some val => exact get_of_mem (hd.perm hp) (hp.symm.subset (mem_of_get hget))

/-- An order the entries are walked in. -/
structure Walk (κ ν : Type*) where
  order : Assoc κ ν → Assoc κ ν
  perm : ∀ m, (order m).Perm m

def Walk.straight : Walk κ ν := ⟨fun m => m, fun m => .refl m⟩

/-- What is left of a map holds what it held. -/
theorem get_of_sublist (hd : m.Distinct) (hs : m'.Sublist m) (h : m'.get key = some val) :
    m.get key = some val :=
  get_of_mem hd (hs.subset (mem_of_get h))

/-! ## Values for keys that are free -/

/-- Set a key that holds nothing; a key that holds something keeps it. -/
def insertNew (m : Assoc κ ν) (key : κ) (val : ν) : Assoc κ ν :=
  if (m.get key).isSome then m else m.insert key val

theorem Distinct.insertNew (hd : m.Distinct) (key : κ) (val : ν) : (m.insertNew key val).Distinct := by
  unfold Assoc.insertNew
  split
  · exact hd
  · exact hd.insert key val

theorem get_insertNew (m : Assoc κ ν) (key key' : κ) (val : ν) :
    (m.insertNew key val).get key' = (m.get key').or (if key = key' then some val else none) := by
  unfold insertNew
  cases hget : m.get key with
  | some old =>
    rw [Option.isSome_some, if_pos rfl]
    by_cases h : key = key'
    · subst h
      rw [hget, Option.some_or]
    · rw [if_neg h, Option.or_none]
  | none =>
    rw [Option.isSome_none, if_neg Bool.false_ne_true, get_insert]
    by_cases h : key = key'
    · subst h
      rw [if_pos rfl, if_pos rfl, hget, Option.none_or]
    · rw [if_neg h, if_neg h, Option.or_none]

def insertNews (m : Assoc κ ν) (es : Assoc κ ν) : Assoc κ ν :=
  es.foldl (fun m e => m.insertNew e.1 e.2) m

theorem Distinct.insertNews (hd : m.Distinct) (es : Assoc κ ν) : (m.insertNews es).Distinct := by
  unfold Assoc.insertNews
  induction es generalizing m with
  | nil => exact hd
  | cons e es ih => exact ih (hd.insertNew e.1 e.2)

theorem insertNews_insertNews (m es es' : Assoc κ ν) :
    insertNews (insertNews m es) es' = insertNews m (es ++ es') := (List.foldl_append ..).symm

/-- **Of several values offered for a key the first one stays.** -/
theorem get_insertNews (m es : Assoc κ ν) (key : κ) :
    (m.insertNews es).get key = (m.get key).or (es.get key) := by
  unfold insertNews
  induction es generalizing m with
  | nil => rw [List.foldl_nil, get_nil, Option.or_none]
  | cons e es ih =>
    have hcons : (if e.1 = key then some e.2 else none).or (get es key) = get (e :: es) key := by
      rw [get_cons]
      split
      · exact Option.some_or
      · exact Option.none_or
    rw [List.foldl_cons, ih, get_insertNew, Option.or_assoc, hcons]

end Assoc
