import Mathlib.Algebra.Ring.Int.Defs
import Mathlib.Algebra.Ring.Nat
import Mathlib.Data.Int.Notation
import Mathlib.Data.List.Basic
import Mathlib.Data.Nat.Notation

/-!
# JSON values

`serde_json::Value` as the gateway uses it. A map is the list of its fields; the
parser keeps keys unique, and `Fields.get` reads the first.

* `Value.asF64`, `Value.asU64`, …: the typed reads of a node (`None` on a mismatch).
* `Fields.insert`, `Fields.entry`, `Fields.remove`: the three map updates.
-/

namespace Routeplane

/-- A JSON number: an integer of the 64-bit ranges, or a finite double. -/
inductive Number
  | int (i : ℤ)
  | float (f : Float)
  deriving Inhabited

inductive Value
  | null
  | bool (b : Bool)
  | num (n : Number)
  | str (s : String)
  | arr (xs : List Value)
  | obj (fs : List (String × Value))
  deriving Inhabited

/-- A JSON object's fields. -/
abbrev Fields := List (String × Value)

/-- Numbers of different kinds are never equal (`1` and `1.0` are two values). -/
def Number.beq : Number → Number → Bool
  | .int a, .int b => a == b
  | .float a, .float b => a == b
  | _, _ => false

mutual
def Value.beq : Value → Value → Bool
  | .null, .null => true
  | .bool a, .bool b => a == b
  | .num a, .num b => a.beq b
  | .str a, .str b => a == b
  | .arr xs, .arr ys => beqList xs ys
  | .obj xs, .obj ys => beqFields xs ys
  | _, _ => false

def beqList : List Value → List Value → Bool
  | [], [] => true
  | x :: xs, y :: ys => x.beq y && beqList xs ys
  | _, _ => false

def beqFields : List (String × Value) → List (String × Value) → Bool
  | [], [] => true
  | (k, x) :: xs, (l, y) :: ys => k == l && x.beq y && beqFields xs ys
  | _, _ => false
end

def intToFloat (i : ℤ) : Float :=
  if i < 0 then -(i.natAbs.toUInt64.toFloat) else i.toNat.toUInt64.toFloat

def intToFloat32 (i : ℤ) : Float32 :=
  if i < 0 then -(i.natAbs.toUInt64.toFloat32) else i.toNat.toUInt64.toFloat32

namespace Value

def asStr : Value → Option String
  | .str s => some s
  | _ => none

def asBool : Value → Option Bool
  | .bool b => some b
  | _ => none

def asArray : Value → Option (List Value)
  | .arr xs => some xs
  | _ => none

def asObject : Value → Option Fields
  | .obj fs => some fs
  | _ => none

def asF64 : Value → Option Float
  | .num (.int i) => some (intToFloat i)
  | .num (.float f) => some f
  | _ => none

/-- A `u32` field reads a non-negative integer that fits. -/
def asU32 : Value → Option UInt32
  | .num (.int i) => if 0 ≤ i ∧ i < 2 ^ 32 then some i.toNat.toUInt32 else none
  | _ => none

/-- An `f32` field reads any number, rounded. -/
def asF32 : Value → Option Float32
  | .num (.int i) => some (intToFloat32 i)
  | .num (.float f) => some f.toFloat32
  | _ => none

/-- A list of strings, if every entry is one. -/
def asStrings : Value → Option (List String)
  | .arr xs => xs.mapM asStr
  | _ => none

/-- `Value::get` of a key. -/
def get : Value → String → Option Value
  | .obj fs, k => (fs.find? (fun f => f.1 == k)).map (·.2)
  | _, _ => none

/-- `value[key]`: what is not there reads as `null`. -/
def idx (v : Value) (k : String) : Value := (v.get k).getD .null

def asU64 : Value → Option ℕ
  | .num (.int i) => if 0 ≤ i ∧ i < 2 ^ 64 then some i.toNat else none
  | _ => none

/-- `as_u64` and `as u32`: the high bits go. -/
def asU64AsU32 (v : Value) : Option UInt32 := v.asU64.map Nat.toUInt32

end Value

/-- `serde_json`'s number of an `f32`: JSON has no non-finite numbers, they become `null`. -/
def f32Value (f : Float32) : Value :=
  if f.isFinite then .num (.float f.toFloat) else .null

namespace Fields

def get (fs : Fields) (k : String) : Option Value := (fs.find? (fun f => f.1 == k)).map (·.2)

def keys (fs : Fields) : List String := fs.map (·.1)

/-- Set `k`, in place if it is there. -/
def insert : Fields → String → Value → Fields
  | [], k, v => [(k, v)]
  | (k', v') :: fs, k, v => if k' = k then (k, v) :: fs else (k', v') :: insert fs k v

/-- Set `k` if it is absent. -/
def entry (fs : Fields) (k : String) (v : Value) : Fields :=
  if (get fs k).isSome then fs else insert fs k v

def remove (fs : Fields) (k : String) : Fields := fs.filter (fun f => f.1 != k)

/-- The fields as a map of their own; of two of one name the first counts, as in `get`. -/
def clone (fs : Fields) : Fields := fs.foldl (fun m f => m.entry f.1 f.2) []

@[simp] theorem get_nil (k : String) : get [] k = none := rfl

@[simp] theorem get_cons (k k' : String) (v : Value) (fs : Fields) :
    get ((k', v) :: fs) k = if k' = k then some v else get fs k := by
  by_cases h : k' = k <;> simp [get, h]

theorem get_insert_self (fs : Fields) (k : String) (v : Value) :
    get (insert fs k v) k = some v := by
  induction fs with
  | nil => simp [insert]
  | cons f fs ih =>
    obtain ⟨k', v'⟩ := f
    by_cases h : k' = k <;> simp [insert, h, ih]

theorem get_insert_ne (fs : Fields) {k k' : String} (h : k' ≠ k) (v : Value) :
    get (insert fs k v) k' = get fs k' := by
  induction fs with
  | nil => simp [insert, h.symm]
  | cons f fs ih =>
    obtain ⟨k₀, v₀⟩ := f
    by_cases h0 : k₀ = k
    · subst h0; simp [insert, h.symm]
    · simp [insert, h0, ih]

theorem get_remove_self (fs : Fields) (k : String) : get (remove fs k) k = none := by
  induction fs with
  | nil => rfl
  | cons f fs ih =>
    obtain ⟨k', v'⟩ := f
    by_cases h : k' = k <;> simp [remove, h] <;> simpa [remove] using ih

theorem get_remove_ne (fs : Fields) {k k' : String} (h : k' ≠ k) :
    get (remove fs k) k' = get fs k' := by
  induction fs with
  | nil => rfl
  | cons f fs ih =>
    obtain ⟨k₀, v₀⟩ := f
    by_cases h0 : k₀ = k
    · subst h0; simp [remove, h.symm]; simpa [remove] using ih
    · simp [remove, h0]; simp [remove] at ih; rw [ih]

theorem get_eq_none_iff {fs : Fields} {k : String} : get fs k = none ↔ k ∉ fs.keys := by
  unfold get keys
  rw [Option.map_eq_none_iff, List.find?_eq_none, List.mem_map]
  constructor
  · rintro h ⟨f, hf, rfl⟩
    exact h f hf (beq_self_eq_true _)
  · intro h f hf heq
    exact h ⟨f, hf, eq_of_beq heq⟩

theorem keys_insert (fs : Fields) (k : String) (v : Value) :
    keys (insert fs k v) = if k ∈ fs.keys then fs.keys else fs.keys ++ [k] := by
  unfold keys
  induction fs with
  | nil => rfl
  | cons f fs ih =>
    obtain ⟨k', v'⟩ := f
    rw [insert]
    by_cases h : k' = k
    · rw [if_pos h, if_pos (by rw [List.map_cons, ← h]; exact List.mem_cons_self), h]
      rfl
    · rw [if_neg h, List.map_cons, List.map_cons, ih]
      by_cases hmem : k ∈ fs.map (·.1)
      · rw [if_pos hmem, if_pos (List.mem_cons_of_mem _ hmem)]
      · have hout : k ∉ k' :: fs.map (·.1) := by
          rw [List.mem_cons, not_or]
          exact ⟨fun heq => h heq.symm, hmem⟩
        rw [if_neg hmem, if_neg hout, List.cons_append]

theorem keys_entry (fs : Fields) (k : String) (v : Value) :
    keys (entry fs k v) = if k ∈ fs.keys then fs.keys else fs.keys ++ [k] := by
  rw [entry]
  split
  · rename_i h
    have hmem : k ∈ fs.keys := by
      by_contra hout
      rw [get_eq_none_iff.2 hout] at h
      cases h
    rw [if_pos hmem]
  · exact keys_insert fs k v

/-- What filling adds to a map: the names it does not have, each once. -/
theorem keys_foldl_entry (more : Fields) : ∀ {fs : Fields}, fs.keys.Nodup →
    (more.foldl (fun m f => m.entry f.1 f.2) fs).keys.Nodup ∧
      ∀ k, k ∈ (more.foldl (fun m f => m.entry f.1 f.2) fs).keys ↔
        k ∈ fs.keys ∨ k ∈ keys more := by
  induction more with
  | nil =>
    intro fs h
    exact ⟨h, fun k => by simp [keys]⟩
  | cons f more ih =>
    intro fs h
    have hkeys := keys_entry fs f.1 f.2
    have hnodup : (entry fs f.1 f.2).keys.Nodup := by
      rw [hkeys]
      split
      · exact h
      · rename_i hout
        exact (List.perm_append_singleton _ _).nodup_iff.2 (List.nodup_cons.2 ⟨hout, h⟩)
    obtain ⟨hnodup', hmem⟩ := ih hnodup
    refine ⟨hnodup', ?_⟩
    intro k
    rw [List.foldl_cons, hmem, hkeys]
    have hcons : k ∈ keys (f :: more) ↔ k = f.1 ∨ k ∈ keys more := List.mem_cons
    rw [hcons]
    split
    · rename_i hin
      constructor
      · rintro (hk | hk)
        · exact Or.inl hk
        · exact Or.inr (Or.inr hk)
      · rintro (hk | rfl | hk)
        · exact Or.inl hk
        · exact Or.inl hin
        · exact Or.inr hk
    · rw [List.mem_append, List.mem_singleton, or_assoc]

theorem nodup_clone (fs : Fields) : fs.clone.keys.Nodup := (@keys_foldl_entry fs [] List.nodup_nil).1

theorem mem_keys_clone {fs : Fields} {k : String} : k ∈ fs.clone.keys ↔ k ∈ fs.keys := by
  have hmem := (@keys_foldl_entry fs [] List.nodup_nil).2 k
  exact hmem.trans (or_iff_right List.not_mem_nil)

end Fields

end Routeplane
