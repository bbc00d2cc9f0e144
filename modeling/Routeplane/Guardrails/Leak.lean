import Routeplane.Guardrails.Unicode

/-!
# Leaks of the system prompt

An output leaks the system prompt when they have enough words in a row in common. The runs of words
are compared by a rolling hash, and word by word where the hashes agree.

* `detectSystemPromptLeak`: whether there is a run of the given length.
* `longestSharedSpanWords`, `leakSpanBucket`: how long the longest run is.
-/

namespace Routeplane.Guardrails

abbrev Word := List Char

/-- The words considered of either side. -/
def leakMaxWords : ℕ := 4096

/-- The shortest run that is looked for. -/
def leakMinSpanFloor : ℕ := 4

/-- `str::split_whitespace` -/
def splitWhitespace (text : List Char) : List Word :=
  (text.splitOnP isTrimmed).filter fun w => w ≠ []

/-- FNV-1a, over the bytes of a word. -/
def tokenHash (word : Word) : UInt64 :=
  (asBytes word).foldl (fun h b => (h ^^^ b.toUInt64) * 0x00000100000001b3) 0xcbf29ce484222325

def hashBase : UInt64 := 1099511628211

/-- The base, multiplied by itself. -/
def hashPow : ℕ → UInt64
  | 0 => 1
  | n + 1 => hashPow n * hashBase

/-- The hashes of the runs of `n` tokens, from the `i`-th token on; `h` is the hash of the `n - 1`
tokens before it. -/
def spanHashes (tok : List UInt64) (n : ℕ) : ℕ → UInt64 → List UInt64 → List UInt64
  | _, _, [] => []
  | i, h, t :: rest =>
    let h := h * hashBase + t
    if n ≤ i + 1 then
      h :: spanHashes tok n (i + 1) (h - tok.getD (i + 1 - n) 0 * hashPow (n - 1)) rest
    else spanHashes tok n (i + 1) h rest

/-- `slice::windows` -/
def windows (l : List Word) (n : ℕ) : List (List Word) :=
  (List.range (l.length + 1 - n)).map fun i => (l.drop i).take n

def systemContainsSpan (sysWords span : List Word) : Bool :=
  if span.isEmpty || sysWords.length < span.length then false
  else (windows sysWords span.length).any fun w => w == span

/-- Whether a run of the output from the `i`-th token on has a hash of the system's and is one of its
runs. -/
def anySpan (sysHashes : List UInt64) (sysWords outWords : List Word) (tok : List UInt64) (n : ℕ) :
    ℕ → UInt64 → List UInt64 → Bool
  | _, _, [] => false
  | i, h, t :: rest =>
    let h := h * hashBase + t
    if n ≤ i + 1 then
      let start := i + 1 - n
      if sysHashes.contains h && systemContainsSpan sysWords ((outWords.take (i + 1)).drop start) then
        true
      else
        anySpan sysHashes sysWords outWords tok n (i + 1)
          (h - tok.getD start 0 * hashPow (n - 1)) rest
    else anySpan sysHashes sysWords outWords tok n (i + 1) h rest

section

variable (toLowercase : List Char → List Char)

def normalizeWords (text : List Char) : List Word :=
  ((splitWhitespace text).take leakMaxWords).map toLowercase

/-- A span of words, within what is looked for. -/
def clampSpan (minSpanWords : ℕ) : ℕ := min (max minSpanWords leakMinSpanFloor) leakMaxWords

def detectSystemPromptLeak (system output : List Char) (minSpanWords : ℕ) : Bool :=
  let sysWords := normalizeWords toLowercase system
  let outWords := normalizeWords toLowercase output
  let n := clampSpan minSpanWords
  if sysWords.length < n || outWords.length < n then false
  else
    let sysTok := sysWords.map tokenHash
    let outTok := outWords.map tokenHash
    anySpan (spanHashes sysTok n 0 0 sysTok) sysWords outWords outTok n 0 0 outTok

def hasSharedSpan (sysWords outWords : List Word) (n : ℕ) : Bool :=
  if n = 0 || sysWords.length < n || outWords.length < n then false
  else
    let sysTok := sysWords.map tokenHash
    let outTok := outWords.map tokenHash
    anySpan (spanHashes sysTok n 0 0 sysTok) sysWords outWords outTok n 0 0 outTok

/-- The lengths from `n` on, while runs of the length are shared; `fuel` of them at most. -/
def longestFrom (sysWords outWords : List Word) : ℕ → ℕ → ℕ → ℕ
  | 0, _, best => best
  | fuel + 1, n, best =>
    if hasSharedSpan sysWords outWords n then longestFrom sysWords outWords fuel (n + 1) n
    else best

def longestSharedSpanWords (system output : List Char) (minSpanWords : ℕ) : ℕ :=
  let sysWords := normalizeWords toLowercase system
  let outWords := normalizeWords toLowercase output
  let floor := clampSpan minSpanWords
  let maxPossible := min sysWords.length outWords.length
  longestFrom sysWords outWords (maxPossible + 1 - floor) floor 0

def leakSpanBucket (system output : List Char) (minSpanWords : ℕ) : Option String :=
  if !detectSystemPromptLeak toLowercase system output minSpanWords then none
  else
    let span := longestSharedSpanWords toLowercase system output minSpanWords
    some (if span ≤ 15 then "short" else if span ≤ 63 then "medium" else "large")

end

end Routeplane.Guardrails
