import Mathlib.Data.List.Basic
import Mathlib.Data.Nat.Bitwise
import Mathlib.Tactic.Common

/-!
# Internet addresses

The addresses of both families, the special ranges of each, how they are read from text, and blocks
of addresses by prefix.

* `parseIpAddr`: dotted IPv4 without leading zeros, or IPv6 with `::` and a dotted end.
* `parseIpAddr_display`: dotted text is read back.
* `parseIpAddr_of_head`: what begins with a bracket is no address.
* `Block.contains_iff_of_split`: a block of mapped addresses.
* `land_mask_eq_iff`: a test of the leading bits by a mask.
-/

namespace Net

@[ext] structure Ipv4Addr where
  a : UInt8
  b : UInt8
  c : UInt8
  d : UInt8
  deriving DecidableEq, Repr, Inhabited

/-- The eight segments. -/
@[ext] structure Ipv6Addr where
  a : UInt16
  b : UInt16
  c : UInt16
  d : UInt16
  e : UInt16
  f : UInt16
  g : UInt16
  h : UInt16
  deriving DecidableEq, Repr, Inhabited

inductive IpAddr
  | v4 (addr : Ipv4Addr)
  | v6 (addr : Ipv6Addr)
  deriving DecidableEq, Repr

namespace Ipv4Addr

variable (addr : Ipv4Addr)

def toNat : ℕ :=
  ((addr.a.toNat * 2 ^ 8 + addr.b.toNat) * 2 ^ 8 + addr.c.toNat) * 2 ^ 8 + addr.d.toNat

def isUnspecified : Bool := addr == ⟨0, 0, 0, 0⟩

def isBroadcast : Bool := addr == ⟨255, 255, 255, 255⟩

def isMulticast : Bool := 224 ≤ addr.a && addr.a ≤ 239

def isLinkLocal : Bool := addr.a == 169 && addr.b == 254

def isLoopback : Bool := addr.a == 127

def isPrivate : Bool :=
  addr.a == 10 || (addr.a == 172 && 16 ≤ addr.b && addr.b ≤ 31) || (addr.a == 192 && addr.b == 168)

/-- Dotted decimal. -/
def display : String :=
  toString addr.a.toNat ++ "." ++ toString addr.b.toNat ++ "." ++ toString addr.c.toNat ++ "." ++
    toString addr.d.toNat

end Ipv4Addr

namespace Ipv6Addr

variable (addr : Ipv6Addr)

/-- The leading six segments, and the two that an IPv4 address takes. -/
def front : ℕ :=
  ((((addr.a.toNat * 2 ^ 16 + addr.b.toNat) * 2 ^ 16 + addr.c.toNat) * 2 ^ 16 + addr.d.toNat) *
    2 ^ 16 + addr.e.toNat) * 2 ^ 16 + addr.f.toNat

def back : ℕ := addr.g.toNat * 2 ^ 16 + addr.h.toNat

def toNat : ℕ := addr.front * 2 ^ 32 + addr.back

def isUnspecified : Bool := addr == ⟨0, 0, 0, 0, 0, 0, 0, 0⟩

def isLoopback : Bool := addr == ⟨0, 0, 0, 0, 0, 0, 0, 1⟩

def isMulticast : Bool := addr.a &&& 0xff00 == 0xff00

/-- The address an IPv4-mapped one stands for. -/
def toIpv4Mapped : Option Ipv4Addr :=
  if addr.a = 0 ∧ addr.b = 0 ∧ addr.c = 0 ∧ addr.d = 0 ∧ addr.e = 0 ∧ addr.f = 0xffff then
    some ⟨(addr.g >>> 8).toUInt8, addr.g.toUInt8, (addr.h >>> 8).toUInt8, addr.h.toUInt8⟩
  else none

def ofSegments (segments : List ℕ) : Ipv6Addr :=
  let segment i := UInt16.ofNat (segments.getD i 0)
  ⟨segment 0, segment 1, segment 2, segment 3, segment 4, segment 5, segment 6, segment 7⟩

end Ipv6Addr

/-! ## Text -/

/-- What a reader takes from the front of the text, and what it leaves. -/
abbrev Reader (α : Type) := List Char → Option (α × List Char)

/-- `char::to_digit`. -/
def toDigit (radix : ℕ) (c : Char) : Option ℕ :=
  let value :=
    if c.isDigit then c.toNat - '0'.toNat
    else if c.isLower then c.toNat - 'a'.toNat + 10
    else if c.isUpper then c.toNat - 'A'.toNat + 10
    else radix
  if value < radix then some value else none

def isDigitOf (radix : ℕ) (c : Char) : Bool := (toDigit radix c).isSome

def digitsValue (radix : ℕ) (digits : List Char) : ℕ :=
  digits.foldl (fun n c => n * radix + (toDigit radix c).getD 0) 0

/-- All digits there are: refused when none, too many, above the bound, or with a leading zero that
is not allowed. -/
def readNumber (radix maxDigits bound : ℕ) (allowZeroPrefix : Bool) : Reader ℕ := fun cs =>
  let digits := cs.takeWhile (isDigitOf radix)
  if digits = [] ∨ maxDigits < digits.length ∨ bound ≤ digitsValue radix digits ∨
      (allowZeroPrefix = false ∧ digits.head? = some '0' ∧ 1 < digits.length) then none
  else some (digitsValue radix digits, cs.dropWhile (isDigitOf radix))

/-- Every item but the first stands after a separator. -/
def readSeparator {α : Type} (sep : Char) (index : ℕ) (inner : Reader α) : Reader α := fun cs =>
  if index = 0 then inner cs
  else
    match cs with
    | [] => none
    | c :: cs => if c = sep then inner cs else none

def readOctet (index : ℕ) : Reader ℕ := readSeparator '.' index (readNumber 10 3 256 false)

def readIpv4 : Reader Ipv4Addr := fun cs => do
  let (a, cs) ← readOctet 0 cs
  let (b, cs) ← readOctet 1 cs
  let (c, cs) ← readOctet 2 cs
  let (d, cs) ← readOctet 3 cs
  return (⟨.ofNat a, .ofNat b, .ofNat c, .ofNat d⟩, cs)

/-- The segments from position `limit - left` on, whether they end in a dotted address, and the rest. -/
def readGroups (limit : ℕ) : ℕ → List Char → List ℕ × Bool × List Char
  | 0, cs => ([], false, cs)
  | left + 1, cs =>
    let index := limit - (left + 1)
    -- a dotted address takes two segments
    match if left = 0 then none else readSeparator ':' index readIpv4 cs with
    | some (addr, cs) =>
      ([addr.a.toNat * 2 ^ 8 + addr.b.toNat, addr.c.toNat * 2 ^ 8 + addr.d.toNat], true, cs)
    | none =>
      match readSeparator ':' index (readNumber 16 4 (2 ^ 16) true) cs with
      | none => ([], false, cs)
      | some (group, cs) =>
        let (groups, dotted, cs) := readGroups limit left cs
        (group :: groups, dotted, cs)

def readIpv6 : Reader Ipv6Addr := fun cs =>
  let (head, dotted, cs) := readGroups 8 8 cs
  if head.length = 8 then some (.ofSegments head, cs)
  else if dotted then none
  else
    match cs with
    | ':' :: ':' :: cs =>
      let limit := 8 - (head.length + 1)
      let (tail, _, cs) := readGroups limit limit cs
      some (.ofSegments (head ++ List.replicate (8 - head.length - tail.length) 0 ++ tail), cs)
    | _ => none

/-- `str::parse::<IpAddr>`: nothing may be left. -/
def parseIpAddr (s : String) : Option IpAddr :=
  let read := ((readIpv4 s.toList).map fun r => (IpAddr.v4 r.1, r.2)).or
    ((readIpv6 s.toList).map fun r => (IpAddr.v6 r.1, r.2))
  (read.filter (·.2.isEmpty)).map (·.1)

example : parseIpAddr "fe80::1:10.0.0.5" = some (.v6 ⟨0xfe80, 0, 0, 0, 0, 1, 0x0a00, 5⟩) := by decide

example : parseIpAddr "010.0.0.5" = none := by decide

/-! ### Dotted text is read back -/

theorem toDigit_ten (c : Char) :
    toDigit 10 c = if c.isDigit then some (c.toNat - '0'.toNat) else none := by
  unfold toDigit
  by_cases hdigit : c.isDigit = true
  · have hrange : 48 ≤ c.toNat ∧ c.toNat ≤ 57 := by
      unfold Char.isDigit at hdigit
      simpa [UInt32.le_iff_toNat_le, ← Char.toNat_val] using hdigit
    have hlt : c.toNat - '0'.toNat < 10 := by
      have hzero : '0'.toNat = 48 := rfl
      omega
    dsimp only
    rw [if_pos hdigit, if_pos hlt, if_pos hdigit]
  · dsimp only
    rw [if_neg hdigit, if_neg hdigit]
    -- a letter is worth ten or more
    refine if_neg ?_
    split
    · omega
    split <;> omega

theorem isDigitOf_ten (c : Char) : isDigitOf 10 c = c.isDigit := by
  unfold isDigitOf
  rw [toDigit_ten]
  cases c.isDigit <;> rfl

/-- By induction on the digits. -/
theorem digitsValue_ten {digits : List Char} (h : ∀ c ∈ digits, c.isDigit = true) :
    digitsValue 10 digits = Nat.ofDigitChars 10 digits 0 := by
  unfold digitsValue
  rw [Nat.ofDigitChars_eq_foldl]
  refine List.foldl_ext _ _ 0 ?_
  intro n c hc
  rw [toDigit_ten, if_pos (h c hc), Option.getD_some, Nat.mul_comm]

/-- A number that is not zero is written without a leading zero. -/
theorem head?_toDigits {n : ℕ} (hn : 0 < n) : (Nat.toDigits 10 n).head? ≠ some '0' := by
  induction n using Nat.strongRecOn with
  | ind n ih =>
    rw [Nat.toDigits_eq_if (by omega)]
    split
    · rename_i hlt
      intro hhead
      have hzero : n = 0 := Nat.digitChar_eq_zero.1 (Option.some_inj.1 hhead)
      omega
    · rename_i hle
      rw [List.head?_append_of_ne_nil _ Nat.toDigits_ne_nil]
      exact ih (n / 10) (by omega) (by omega)

/-- A number below the bound is read back when no digit follows. -/
theorem readNumber_toDigits {n : ℕ} (hn : n < 256) {rest : List Char}
    (hrest : ∀ c ∈ rest.head?, c.isDigit = false) :
    readNumber 10 3 256 false (Nat.toDigits 10 n ++ rest) = some (n, rest) := by
  have hdigit : ∀ c ∈ Nat.toDigits 10 n, c.isDigit = true :=
    fun c hc => Nat.isDigit_of_mem_toDigits (by omega) (by omega) hc
  have hall : ∀ c ∈ Nat.toDigits 10 n, isDigitOf 10 c = true :=
    fun c hc => (isDigitOf_ten c).trans (hdigit c hc)
  have hstop : rest.takeWhile (isDigitOf 10) = [] ∧ rest.dropWhile (isDigitOf 10) = rest := by
    cases rest with
    | nil => exact ⟨rfl, rfl⟩
    | cons c rest =>
      have hc : ¬isDigitOf 10 c = true := by
        rw [isDigitOf_ten, hrest c rfl]
        exact Bool.false_ne_true
      exact ⟨List.takeWhile_cons_of_neg hc, List.dropWhile_cons_of_neg hc⟩
  have htake : (Nat.toDigits 10 n ++ rest).takeWhile (isDigitOf 10) = Nat.toDigits 10 n := by
    rw [List.takeWhile_append_of_pos hall, hstop.1, List.append_nil]
  have hvalue : digitsValue 10 (Nat.toDigits 10 n) = n := by
    rw [digitsValue_ten hdigit, Nat.ofDigitChars_ten_toDigits]
  have hlength : (Nat.toDigits 10 n).length ≤ 3 :=
    (Nat.length_toDigits_le_iff (by omega) (by omega)).2 (by omega)
  have hzero : ¬((Nat.toDigits 10 n).head? = some '0' ∧ 1 < (Nat.toDigits 10 n).length) := by
    rintro ⟨hhead, hlong⟩
    rcases Nat.eq_zero_or_pos n with rfl | hpos
    · rw [Nat.toDigits_zero] at hlong
      exact absurd hlong (by decide)
    · exact head?_toDigits hpos hhead
  unfold readNumber
  dsimp only
  rw [htake, hvalue, List.dropWhile_append_of_pos hall, hstop.2, if_neg]
  rintro (hnil | hlong | hlarge | ⟨-, hhead⟩)
  · exact Nat.toDigits_ne_nil hnil
  · omega
  · omega
  · exact hzero hhead

theorem readOctet_toDigits {n : ℕ} (hn : n < 256) {index : ℕ} (hindex : index ≠ 0) {rest : List Char}
    (hrest : ∀ c ∈ rest.head?, c.isDigit = false) :
    readOctet index ('.' :: (Nat.toDigits 10 n ++ rest)) = some (n, rest) := by
  unfold readOctet readSeparator
  rw [if_neg hindex]
  dsimp only
  rw [if_pos rfl]
  exact readNumber_toDigits hn hrest

theorem toList_display (addr : Ipv4Addr) :
    addr.display.toList = Nat.toDigits 10 addr.a.toNat ++ '.' :: (Nat.toDigits 10 addr.b.toNat ++
      '.' :: (Nat.toDigits 10 addr.c.toNat ++ '.' :: (Nat.toDigits 10 addr.d.toNat ++ []))) := by
  have hdigits : ∀ n : ℕ, (toString n).toList = Nat.toDigits 10 n := fun _ => Nat.toList_repr
  have hdot : ".".toList = ['.'] := rfl
  unfold Ipv4Addr.display
  simp only [String.toList_append, hdigits, hdot, List.append_assoc, List.cons_append,
    List.nil_append, List.append_nil]

/-- **Dotted text is read back.** -/
theorem parseIpAddr_display (addr : Ipv4Addr) : parseIpAddr addr.display = some (.v4 addr) := by
  have hdot : ∀ rest : List Char, ∀ c ∈ ('.' :: rest).head?, c.isDigit = false := by
    intro rest c hc
    rw [← Option.some_inj.1 hc]
    rfl
  have hfirst : ∀ rest, readOctet 0 (Nat.toDigits 10 addr.a.toNat ++ '.' :: rest) =
      some (addr.a.toNat, '.' :: rest) := fun rest => readNumber_toDigits addr.a.toNat_lt (hdot rest)
  have hread : readIpv4 addr.display.toList = some (addr, []) := by
    unfold readIpv4
    rw [toList_display, hfirst]
    dsimp only [Option.bind_eq_bind, Option.bind_some]
    rw [readOctet_toDigits addr.b.toNat_lt (by omega) (hdot _)]
    dsimp only [Option.bind_some]
    rw [readOctet_toDigits addr.c.toNat_lt (by omega) (hdot _)]
    dsimp only [Option.bind_some]
    rw [readOctet_toDigits addr.d.toNat_lt (by omega) (fun c hc => absurd hc (by simp))]
    simp only [Option.bind_some, UInt8.ofNat_toNat]
    rfl
  unfold parseIpAddr
  rw [hread]
  rfl

/-! ### Text that is no address -/

theorem readNumber_of_head {radix maxDigits bound : ℕ} {allowZeroPrefix : Bool} {c : Char}
    {cs : List Char} (hc : isDigitOf radix c = false) :
    readNumber radix maxDigits bound allowZeroPrefix (c :: cs) = none := by
  unfold readNumber
  rw [List.takeWhile_cons_of_neg (by simp [hc]), if_pos (.inl rfl)]

/-- **What begins with a bracket is no address.** -/
theorem parseIpAddr_of_head {s : String} {cs : List Char} (h : s.toList = '[' :: cs) :
    parseIpAddr s = none := by
  have hread4 : readIpv4 ('[' :: cs) = none := by
    have hbracket : isDigitOf 10 '[' = false := rfl
    have hoctet : readOctet 0 ('[' :: cs) = none := by
      unfold readOctet readSeparator
      rw [if_pos rfl]
      exact readNumber_of_head hbracket
    unfold readIpv4
    rw [hoctet]
    rfl
  have hgroups : readGroups 8 8 ('[' :: cs) = ([], false, '[' :: cs) := by
    have hbracket : isDigitOf 16 '[' = false := rfl
    have hnumber : readNumber 16 4 (2 ^ 16) true ('[' :: cs) = none := readNumber_of_head hbracket
    unfold readGroups readSeparator
    simp only [Nat.sub_self, if_true, hread4, hnumber]
    rfl
  have hread6 : readIpv6 ('[' :: cs) = none := by
    unfold readIpv6
    rw [hgroups]
    rfl
  unfold parseIpAddr
  rw [h, hread4, hread6]
  rfl

/-! ## Blocks -/

/-- The numbers that agree with `base` above the last `host` bits. -/
structure Block where
  base : ℕ
  host : ℕ

def Block.Contains (block : Block) (n : ℕ) : Prop :=
  n / 2 ^ block.host = block.base / 2 ^ block.host

instance (block : Block) (n : ℕ) : Decidable (block.Contains n) :=
  inferInstanceAs (Decidable (n / 2 ^ block.host = block.base / 2 ^ block.host))

/-- The first `bits` bits of an address. -/
def cidr4 (base : Ipv4Addr) (bits : ℕ) : Block := ⟨base.toNat, 32 - bits⟩

def cidr6 (base : Ipv6Addr) (bits : ℕ) : Block := ⟨base.toNat, 128 - bits⟩

/-- The IPv4-mapped addresses of a block. -/
def Block.mapped (block : Block) : Block := ⟨0xffff * 2 ^ 32 + block.base, block.host⟩

/-- A block whose leading part is written in front. -/
theorem Block.contains_iff_of_split {front back front' base host width : ℕ} (hhost : host ≤ width)
    (hback : back < 2 ^ width) (hbase : base < 2 ^ width) :
    Block.Contains ⟨front' * 2 ^ width + base, host⟩ (front * 2 ^ width + back) ↔
      front = front' ∧ Block.Contains ⟨base, host⟩ back := by
  obtain ⟨rest, rfl⟩ := Nat.exists_eq_add_of_le hhost
  have hpos : 0 < 2 ^ host := Nat.two_pow_pos host
  have hdiv : ∀ m n : ℕ, (m * 2 ^ (host + rest) + n) / 2 ^ host = m * 2 ^ rest + n / 2 ^ host := by
    intro m n
    rw [Nat.pow_add, Nat.mul_left_comm, Nat.mul_add_div hpos]
  have hlt : ∀ n : ℕ, n < 2 ^ (host + rest) → n / 2 ^ host < 2 ^ rest := by
    intro n hn
    rw [Nat.div_lt_iff_lt_mul hpos, Nat.mul_comm, ← Nat.pow_add]
    exact hn
  unfold Block.Contains
  dsimp only
  rw [hdiv, hdiv]
  have hlt' := hlt back hback
  have hltBase := hlt base hbase
  generalize back / 2 ^ host = x at *
  generalize base / 2 ^ host = y at *
  constructor
  · intro heq
    have hfront : front = front' := by
      have hquot := congrArg (· / 2 ^ rest) heq
      have hof : ∀ m z : ℕ, z < 2 ^ rest → (m * 2 ^ rest + z) / 2 ^ rest = m := by
        intro m z hz
        rw [Nat.mul_comm, Nat.mul_add_div (Nat.two_pow_pos rest), Nat.div_eq_of_lt hz, Nat.add_zero]
      simpa only [hof _ _ hlt', hof _ _ hltBase] using hquot
    subst hfront
    exact ⟨rfl, by omega⟩
  · rintro ⟨rfl, rfl⟩
    rfl

/-- The leading bits by a mask, and by a division. -/
theorem land_mask_eq_iff {width host n base : ℕ} (hhost : host ≤ width) (hn : n < 2 ^ width) :
    n &&& (2 ^ width - 2 ^ host) = base * 2 ^ host ↔ n / 2 ^ host = base := by
  have hmask : n &&& (2 ^ width - 2 ^ host) = n / 2 ^ host * 2 ^ host := by
    obtain ⟨rest, rfl⟩ := Nat.exists_eq_add_of_le hhost
    have hones : 2 ^ (host + rest) - 2 ^ host = 2 ^ host * (2 ^ rest - 1) := by
      rw [Nat.mul_sub, Nat.pow_add, Nat.mul_one]
    refine Nat.eq_of_testBit_eq fun i => ?_
    rw [Nat.testBit_land, hones, Nat.testBit_two_pow_mul, Nat.testBit_two_pow_sub_one, Nat.mul_comm,
      Nat.testBit_two_pow_mul, Nat.testBit_div_two_pow]
    by_cases hi : host ≤ i
    · rw [decide_eq_true hi, Bool.true_and, Bool.true_and, Nat.sub_add_cancel hi]
      by_cases hlow : i - host < rest
      · rw [decide_eq_true hlow, Bool.and_true]
      · -- above the width both are zero
        have hbit : n.testBit i = false :=
          Nat.testBit_lt_two_pow (lt_of_lt_of_le hn (Nat.pow_le_pow_right (by omega) (by omega)))
        rw [hbit, Bool.false_and]
    · rw [decide_eq_false hi, Bool.false_and, Bool.false_and, Bool.and_false]
  rw [hmask]
  exact Nat.mul_left_inj (Nat.two_pow_pos host).ne'

theorem Ipv4Addr.toNat_lt (addr : Ipv4Addr) : addr.toNat < 2 ^ 32 := by
  have ha := addr.a.toNat_lt
  have hb := addr.b.toNat_lt
  have hc := addr.c.toNat_lt
  have hd := addr.d.toNat_lt
  unfold Ipv4Addr.toNat
  omega

theorem Ipv6Addr.back_lt (addr : Ipv6Addr) : addr.back < 2 ^ 32 := by
  have hg := addr.g.toNat_lt
  have hh := addr.h.toNat_lt
  unfold Ipv6Addr.back
  omega

theorem Ipv4Addr.toNat_inj {addr other : Ipv4Addr} : addr.toNat = other.toNat ↔ addr = other := by
  refine ⟨fun heq => ?_, fun heq => congrArg Ipv4Addr.toNat heq⟩
  have hb := addr.b.toNat_lt
  have hc := addr.c.toNat_lt
  have hd := addr.d.toNat_lt
  have hb' := other.b.toNat_lt
  have hc' := other.c.toNat_lt
  have hd' := other.d.toNat_lt
  unfold Ipv4Addr.toNat at heq
  refine Ipv4Addr.ext ?_ ?_ ?_ ?_ <;> refine UInt8.toNat_inj.1 ?_ <;> omega

theorem Ipv6Addr.toNat_inj {addr other : Ipv6Addr} : addr.toNat = other.toNat ↔ addr = other := by
  refine ⟨fun heq => ?_, fun heq => congrArg Ipv6Addr.toNat heq⟩
  have hback := addr.back_lt
  have hback' := other.back_lt
  have hparts : addr.front = other.front ∧ addr.back = other.back := by
    unfold Ipv6Addr.toNat at heq
    omega
  obtain ⟨hfronts, hbacks⟩ := hparts
  have hb := addr.b.toNat_lt
  have hc := addr.c.toNat_lt
  have hd := addr.d.toNat_lt
  have he := addr.e.toNat_lt
  have hf := addr.f.toNat_lt
  have hh := addr.h.toNat_lt
  have hb' := other.b.toNat_lt
  have hc' := other.c.toNat_lt
  have hd' := other.d.toNat_lt
  have he' := other.e.toNat_lt
  have hf' := other.f.toNat_lt
  have hh' := other.h.toNat_lt
  unfold Ipv6Addr.front at hfronts
  unfold Ipv6Addr.back at hbacks
  refine Ipv6Addr.ext ?_ ?_ ?_ ?_ ?_ ?_ ?_ ?_ <;> refine UInt16.toNat_inj.1 ?_ <;> omega

/-! ### Membership by octets and segments -/

theorem cidr4_contains_iff_eq {addr base : Ipv4Addr} :
    (cidr4 base 32).Contains addr.toNat ↔ addr = base := by
  unfold Block.Contains cidr4
  rw [Nat.sub_self, Nat.pow_zero, Nat.div_one, Nat.div_one, Ipv4Addr.toNat_inj]

theorem cidr6_contains_iff_eq {addr base : Ipv6Addr} :
    (cidr6 base 128).Contains addr.toNat ↔ addr = base := by
  unfold Block.Contains cidr6
  rw [Nat.sub_self, Nat.pow_zero, Nat.div_one, Nat.div_one, Ipv6Addr.toNat_inj]

/-- A prefix within the first octet. -/
theorem cidr4_contains_iff_first (addr base : Ipv4Addr) {host : ℕ} (hhost : host ≤ 8) :
    (cidr4 base (8 - host)).Contains addr.toNat ↔
      addr.a.toNat / 2 ^ host = base.a.toNat / 2 ^ host := by
  have hfirst : ∀ a : Ipv4Addr, a.toNat / 2 ^ 24 = a.a.toNat := by
    intro a
    have hb := a.b.toNat_lt
    have hc := a.c.toNat_lt
    have hd := a.d.toNat_lt
    unfold Ipv4Addr.toNat
    omega
  have hbits : 32 - (8 - host) = 24 + host := by omega
  unfold Block.Contains cidr4
  dsimp only
  rw [hbits, Nat.pow_add, ← Nat.div_div_eq_div_mul, ← Nat.div_div_eq_div_mul, hfirst, hfirst]

/-- A prefix that ends within the second octet. -/
theorem cidr4_contains_iff_second (addr base : Ipv4Addr) {host : ℕ} (hhost : host ≤ 8) :
    (cidr4 base (16 - host)).Contains addr.toNat ↔
      addr.a = base.a ∧ addr.b.toNat / 2 ^ host = base.b.toNat / 2 ^ host := by
  have hsecond : ∀ a : Ipv4Addr, a.toNat / 2 ^ 16 = a.a.toNat * 2 ^ 8 + a.b.toNat := by
    intro a
    have hc := a.c.toNat_lt
    have hd := a.d.toNat_lt
    unfold Ipv4Addr.toNat
    omega
  have hbits : 32 - (16 - host) = 16 + host := by omega
  have hsplit := @Block.contains_iff_of_split addr.a.toNat addr.b.toNat base.a.toNat base.b.toNat host 8
    hhost addr.b.toNat_lt base.b.toNat_lt
  unfold Block.Contains cidr4 at *
  dsimp only at *
  rw [hbits, Nat.pow_add, ← Nat.div_div_eq_div_mul, ← Nat.div_div_eq_div_mul, hsecond, hsecond, hsplit,
    UInt8.toNat_inj]

/-- A prefix within the first segment. -/
theorem cidr6_contains_iff_first (addr base : Ipv6Addr) {host : ℕ} (hhost : host ≤ 16) :
    (cidr6 base (16 - host)).Contains addr.toNat ↔
      addr.a.toNat / 2 ^ host = base.a.toNat / 2 ^ host := by
  have hfirst : ∀ a : Ipv6Addr, a.toNat / 2 ^ 112 = a.a.toNat := by
    intro a
    have hb := a.b.toNat_lt
    have hc := a.c.toNat_lt
    have hd := a.d.toNat_lt
    have he := a.e.toNat_lt
    have hf := a.f.toNat_lt
    have hback := a.back_lt
    unfold Ipv6Addr.toNat Ipv6Addr.front
    omega
  have hbits : 128 - (16 - host) = 112 + host := by omega
  unfold Block.Contains cidr6
  dsimp only
  rw [hbits, Nat.pow_add, ← Nat.div_div_eq_div_mul, ← Nat.div_div_eq_div_mul, hfirst, hfirst]

/-- An IPv4-mapped address stands for its last bits. -/
theorem Ipv6Addr.toIpv4Mapped_eq_some {addr : Ipv6Addr} {v4 : Ipv4Addr}
    (h : addr.toIpv4Mapped = some v4) : addr.front = 0xffff ∧ addr.back = v4.toNat := by
  unfold Ipv6Addr.toIpv4Mapped at h
  split at h
  · rename_i hfront
    obtain ⟨ha, hb, hc, hd, he, hf⟩ := hfront
    rw [← Option.some_inj.1 h]
    refine ⟨?_, ?_⟩
    · unfold Ipv6Addr.front
      rw [ha, hb, hc, hd, he, hf]
      rfl
    · have hg := addr.g.toNat_lt
      have hh := addr.h.toNat_lt
      have hshift : ∀ x : UInt16, (x >>> 8).toNat = x.toNat / 2 ^ 8 := by
        intro x
        rw [UInt16.toNat_shiftRight, Nat.shiftRight_eq_div_pow]
        rfl
      unfold Ipv6Addr.back Ipv4Addr.toNat
      simp only [UInt16.toNat_toUInt8, hshift]
      omega
  · cases h

theorem Ipv6Addr.toIpv4Mapped_eq_none {addr : Ipv6Addr} (h : addr.toIpv4Mapped = none) :
    addr.front ≠ 0xffff := by
  intro hfront
  unfold Ipv6Addr.toIpv4Mapped at h
  rw [if_pos] at h
  · cases h
  · have hb := addr.b.toNat_lt
    have hc := addr.c.toNat_lt
    have hd := addr.d.toNat_lt
    have he := addr.e.toNat_lt
    have hf := addr.f.toNat_lt
    unfold Ipv6Addr.front at hfront
    simp only [← UInt16.toNat_inj]
    have hmax : (0xffff : UInt16).toNat = 0xffff := rfl
    have hzero : (0 : UInt16).toNat = 0 := rfl
    rw [hmax, hzero]
    omega

end Net
