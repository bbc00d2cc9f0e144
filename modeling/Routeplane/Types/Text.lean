import Mathlib.Data.List.DropRight
import Mathlib.Data.List.TakeDrop
import Mathlib.Data.Nat.Notation
import Mathlib.Tactic.Common

/-!
# Text helpers

The handful of `str` methods the gateway's header and name handling rests on, on the
character list of a string.
-/

namespace Routeplane

/-- The characters `str::trim` strips. -/
def isTrimmed (c : Char) : Bool :=
  (0x9 ≤ c.toNat && c.toNat ≤ 0xD) || (0x2000 ≤ c.toNat && c.toNat ≤ 0x200A) ||
    [0x20, 0x85, 0xA0, 0x1680, 0x2028, 0x2029, 0x202F, 0x205F, 0x3000].contains c.toNat

def trimChars (cs : List Char) : List Char :=
  (((cs.dropWhile isTrimmed).reverse).dropWhile isTrimmed).reverse

/-- `str::trim`. -/
def trimText (s : String) : String := String.ofList (trimChars s.toList)

/-- `str::to_ascii_lowercase`. -/
def asciiLower (s : String) : String := String.ofList (s.toList.map Char.toLower)

/-- `str::split` on one character: always at least one piece. -/
def splitText (sep : Char) (s : String) : List String :=
  (s.toList.splitOn sep).map String.ofList

/-- `str::split_once` on one character. -/
def splitOnce (sep : Char) (s : String) : Option (String × String) :=
  match s.toList.span (· != sep) with
  | (_, []) => none
  | (before, _ :: after) => some (String.ofList before, String.ofList after)

/-- `str::strip_prefix`. -/
def dropHead? (pre s : String) : Option String :=
  if pre.toList.isPrefixOf s.toList then some (String.ofList (s.toList.drop pre.toList.length))
  else none

/-- `str::strip_suffix`. -/
def dropTail? (suf s : String) : Option String :=
  if suf.toList.isSuffixOf s.toList then
    some (String.ofList (s.toList.take (s.toList.length - suf.toList.length)))
  else none

/-- `str::contains` of a piece. -/
def containsText (s piece : String) : Bool :=
  s.toList.tails.any fun tail => piece.toList.isPrefixOf tail

/-- `str::eq_ignore_ascii_case`. -/
def eqIgnoreCase (a b : String) : Bool := asciiLower a == asciiLower b

/-! ## Taking a text apart -/

theorem splitOnce_of_toList {sep : Char} {s before after : String}
    (hs : s.toList = before.toList ++ sep :: after.toList) (hsep : sep ∉ before.toList) :
    splitOnce sep s = some (before, after) := by
  have hne : ∀ c ∈ before.toList, (c != sep) = true :=
    fun c hc => bne_iff_ne.2 fun heq => hsep (heq ▸ hc)
  have hspan : s.toList.span (· != sep) = (before.toList, sep :: after.toList) := by
    rw [hs, List.span_eq_takeWhile_dropWhile, List.takeWhile_append_of_pos hne,
      List.dropWhile_append_of_pos hne, List.takeWhile_cons_of_neg (by simp),
      List.dropWhile_cons_of_neg (by simp), List.append_nil]
  unfold splitOnce
  rw [hspan]
  simp only [String.ofList_toList]

@[simp] theorem dropHead?_append (pre s : String) : dropHead? pre (pre ++ s) = some s := by
  unfold dropHead?
  rw [String.toList_append, if_pos (by simp), List.drop_left, String.ofList_toList]

@[simp] theorem dropTail?_append (s suf : String) : dropTail? suf (s ++ suf) = some s := by
  unfold dropTail?
  rw [String.toList_append, if_pos (by simp), List.length_append, Nat.add_sub_cancel,
    List.take_left, String.ofList_toList]

/-! ## Trimming and lowering -/

/-- Lowering is for the letters `A` to `Z`, and adds 32 to their codes. -/
theorem toNat_toLower (c : Char) :
    c.toLower.toNat = if 65 ≤ c.toNat ∧ c.toNat ≤ 90 then c.toNat + 32 else c.toNat := by
  have hcode : (c.val ≥ 'A'.val ∧ c.val ≤ 'Z'.val) ↔ 65 ≤ c.toNat ∧ c.toNat ≤ 90 := Iff.rfl
  unfold Char.toLower
  by_cases h : 65 ≤ c.toNat ∧ c.toNat ≤ 90
  · rw [dif_pos (hcode.2 h), if_pos h]
    show (c.val + ('a'.val - 'A'.val)).toNat = _
    rw [UInt32.toNat_add]
    have hval : c.val.toNat = c.toNat := rfl
    have hstep : ('a'.val - 'A'.val).toNat = 32 := by decide
    rw [hval, hstep]
    omega
  · rw [dif_neg (fun h' => h (hcode.1 h')), if_neg h]

theorem toLower_toLower (c : Char) : c.toLower.toLower = c.toLower := by
  have hcode := toNat_toLower c.toLower
  have hlower := toNat_toLower c
  refine Char.toNat_inj.1 ?_
  rw [hcode]
  split at hlower <;> split <;> omega

theorem isTrimmed_toLower (c : Char) : isTrimmed c.toLower = isTrimmed c := by
  have hlower := toNat_toLower c
  by_cases h : 65 ≤ c.toNat ∧ c.toNat ≤ 90
  · -- neither letter is white space
    rw [if_pos h] at hlower
    have hno : ∀ d : Char, (65 ≤ d.toNat ∧ d.toNat ≤ 122) → isTrimmed d = false := by
      intro d hd
      unfold isTrimmed
      simp only [Bool.or_eq_false_iff, Bool.and_eq_false_iff, decide_eq_false_iff_not,
        List.contains_eq_mem, List.mem_cons, List.not_mem_nil, or_false, not_or]
      refine ⟨⟨?_, ?_⟩, ?_, ?_, ?_, ?_, ?_, ?_, ?_, ?_, ?_⟩ <;> omega
    rw [hno c (by omega), hno c.toLower (by omega)]
  · rw [if_neg h] at hlower
    rw [Char.toNat_inj.1 hlower]

theorem trimChars_map_toLower (cs : List Char) :
    trimChars (cs.map Char.toLower) = (trimChars cs).map Char.toLower := by
  have hsame : isTrimmed ∘ Char.toLower = isTrimmed := funext isTrimmed_toLower
  unfold trimChars
  rw [List.dropWhile_map, hsame, ← List.map_reverse, List.dropWhile_map, hsame, List.map_reverse]

theorem trimChars_eq (cs : List Char) :
    trimChars cs = (cs.dropWhile isTrimmed).rdropWhile isTrimmed := rfl

/-- Trimmed text does not begin with white space. -/
theorem dropWhile_trimChars (cs : List Char) : (trimChars cs).dropWhile isTrimmed = trimChars cs := by
  rw [List.dropWhile_eq_self_iff]
  intro hpos
  have hpre : trimChars cs <+: cs.dropWhile isTrimmed := List.rdropWhile_prefix _ _
  rw [hpre.getElem hpos]
  exact List.dropWhile_get_zero_not _ _ (lt_of_lt_of_le hpos hpre.length_le)

theorem trimChars_trimChars (cs : List Char) : trimChars (trimChars cs) = trimChars cs := by
  rw [trimChars_eq (trimChars cs), dropWhile_trimChars]
  exact List.rdropWhile_idempotent _ _

theorem trimChars_isInfix (cs : List Char) : trimChars cs <:+: cs := by
  have hpre : trimChars cs <+: cs.dropWhile isTrimmed := List.rdropWhile_prefix _ _
  exact hpre.isInfix.trans (List.dropWhile_suffix _).isInfix

example : trimText " \tWeighted\n" = "Weighted" := by decide

end Routeplane
