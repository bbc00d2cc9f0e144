import Mathlib.Algebra.GroupWithZero.Nat
import Routeplane.Types.Text

/-!
# Invisible and confusable characters

Characters that do not render, and characters that render like a Latin letter or a digit: both hide
an identifier from a recognizer.

* `isInvisible`, `foldConfusable`: the two kinds.
* `stripInvisible`, `foldConfusables`, `normalizeForRecognition`: the text as a recognizer reads it.
* `asBytes`, `byteLen`: a text in UTF-8.
-/

namespace Routeplane.Guardrails

/-- `u32::from(c)` lies between two codes. -/
def codeIn (first last : ℕ) (c : Char) : Bool := first ≤ c.toNat && c.toNat ≤ last

/-- A character that does not render and has no place in a prompt. -/
def isInvisible (c : Char) : Bool :=
  c.toNat == 0xAD || c.toNat == 0x180E || codeIn 0x200B 0x200F c || codeIn 0x202A 0x202E c ||
    codeIn 0x2060 0x2064 c || codeIn 0x2066 0x2069 c || c.toNat == 0xFEFF ||
    codeIn 0xE0000 0xE007F c

def containsInvisibleUnicode (text : List Char) : Bool := text.any isInvisible

def stripInvisible (text : List Char) : List Char := text.filter fun c => !isInvisible c

/-- The zeros of the folded blocks of decimal digits. -/
def digitZeros : List ℕ :=
  [0x0660, 0x06F0, 0x0966, 0x09E6, 0x0A66, 0x0AE6, 0x0B66, 0x0BE6, 0x0C66, 0x0CE6, 0x0D66, 0xFF10]

/-- The Cyrillic and Greek letters that render like a Latin one, by their codes. -/
def lookalikes : List (List ℕ × Char) :=
  [([0x410, 0x391], 'A'), ([0x412, 0x392], 'B'), ([0x421], 'C'), ([0x415, 0x395], 'E'),
    ([0x41D, 0x397], 'H'), ([0x406, 0x399], 'I'), ([0x408], 'J'), ([0x41A, 0x39A], 'K'),
    ([0x41C, 0x39C], 'M'), ([0x39D], 'N'), ([0x41E, 0x39F], 'O'), ([0x420, 0x3A1], 'P'),
    ([0x405], 'S'), ([0x422, 0x3A4], 'T'), ([0x425, 0x3A7], 'X'), ([0x423, 0x3A5], 'Y'),
    ([0x396], 'Z'), ([0x430], 'a'), ([0x441], 'c'), ([0x435], 'e'), ([0x43E], 'o'), ([0x440], 'p'),
    ([0x455], 's'), ([0x445], 'x'), ([0x443], 'y'), ([0x456], 'i'), ([0x458], 'j')]

/-- A lookalike letter or a digit of another script, as the ASCII character it stands for. -/
def foldConfusable (c : Char) : Char :=
  if c.toNat < 128 then c
  else
    match digitZeros.find? fun first => codeIn first (first + 9) c with
    | some first => Char.ofNat ('0'.toNat + (c.toNat - first))
    | none =>
      if codeIn 0xFF21 0xFF3A c then Char.ofNat ('A'.toNat + (c.toNat - 0xFF21))
      else if codeIn 0xFF41 0xFF5A c then Char.ofNat ('a'.toNat + (c.toNat - 0xFF41))
      else
        match lookalikes.find? fun row => row.1.contains c.toNat with
        | some row => row.2
        | none => c

def containsConfusable (text : List Char) : Bool := text.any fun c => foldConfusable c != c

def foldConfusables (text : List Char) : List Char := text.map foldConfusable

/-- What a classifier or a masker reads a text as. -/
def normalizeForRecognition (text : List Char) : List Char := foldConfusables (stripInvisible text)

/-- `str::as_bytes`. -/
def asBytes (text : List Char) : List UInt8 := text.flatMap String.utf8EncodeChar

/-- `str::len`. -/
def byteLen (text : List Char) : ℕ := (text.map Char.utf8Size).sum

end Routeplane.Guardrails
