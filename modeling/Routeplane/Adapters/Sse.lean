import Routeplane.Adapters.Provider

/-!
# Server-sent events of the streaming adapters

The adapters read their upstream's bytes into one line buffer and translate the `data:` payload of
each whole line. Their loops have one shape.

* `SseLineBuffer.nextPayload`, `SseLineBuffer.payloads`: the next payload, and all there are.
* `SseLoop`: the loop, given how an adapter translates a payload. `SseLoop.chunks`: what it yields.
* `payloads_append`: the payloads do not depend on where the reads fall.
-/

namespace Routeplane

/-- `str::trim_end_matches` of one character. -/
def trimEnd (c : Char) (s : String) : String := String.ofList (s.toList.rdropWhile (· == c))

structure SseLineBuffer where
  buf : List UInt8 := []

namespace SseLineBuffer

def newline : UInt8 := 10

def push (b : SseLineBuffer) (bytes : List UInt8) : SseLineBuffer := ⟨b.buf ++ bytes⟩

section

variable (fromUtf8Lossy : List UInt8 → String)

/-- The payload of a whole line, if it is a `data:` line. -/
def payloadOf (line : List UInt8) : Option String :=
  (dropHead? "data:" (trimEnd '\r' (trimEnd '\n' (fromUtf8Lossy line)))).map trimText

/-- Drain lines up to the first payload; `line` is what has been passed of the current one. -/
def scan (line : List UInt8) : List UInt8 → Option String × List UInt8
  | [] => (none, line)
  | b :: rest =>
    if b = newline then
      match payloadOf fromUtf8Lossy (line ++ [b]) with
      | some payload => (some payload, rest)
      | none => scan [] rest
    else scan (line ++ [b]) rest

def nextPayload (b : SseLineBuffer) : Option String × SseLineBuffer :=
  ((scan fromUtf8Lossy [] b.buf).1, ⟨(scan fromUtf8Lossy [] b.buf).2⟩)

/-- All payloads, and the partial line that stays. -/
def drain (line : List UInt8) : List UInt8 → List String × List UInt8
  | [] => ([], line)
  | b :: rest =>
    if b = newline then
      ((payloadOf fromUtf8Lossy (line ++ [b])).toList ++ (drain [] rest).1, (drain [] rest).2)
    else drain (line ++ [b]) rest

/-- `next_payload` until there is none. -/
def payloads (b : SseLineBuffer) : List String × SseLineBuffer :=
  ((drain fromUtf8Lossy [] b.buf).1, ⟨(drain fromUtf8Lossy [] b.buf).2⟩)

end

variable {fromUtf8Lossy : List UInt8 → String} {b : SseLineBuffer} {payload : String}

attribute [local simp] scan drain

theorem drain_of_scan (bytes line : List UInt8) :
    drain fromUtf8Lossy line bytes = (scan fromUtf8Lossy line bytes).1.elim
      ([], (scan fromUtf8Lossy line bytes).2) fun payload =>
        (payload :: (drain fromUtf8Lossy [] (scan fromUtf8Lossy line bytes).2).1,
          (drain fromUtf8Lossy [] (scan fromUtf8Lossy line bytes).2).2) := by
  induction bytes generalizing line with
  | nil => rfl
  | cons b rest ih =>
    rw [drain, scan]
    split
    · cases hp : payloadOf fromUtf8Lossy (line ++ [b]) with
      | some payload => rfl
      | none =>
        rw [Option.toList_none, List.nil_append]
        exact ih []
    · exact ih (line ++ [b])

theorem drain_append (bytes more line : List UInt8) :
    drain fromUtf8Lossy line (bytes ++ more) =
      ((drain fromUtf8Lossy line bytes).1 ++
          (drain fromUtf8Lossy (drain fromUtf8Lossy line bytes).2 more).1,
        (drain fromUtf8Lossy (drain fromUtf8Lossy line bytes).2 more).2) := by
  induction bytes generalizing line with
  | nil => rfl
  | cons b rest ih =>
    rw [List.cons_append, drain, drain]
    split
    · rw [ih [], List.append_assoc]
    · exact ih (line ++ [b])

/-- What stays is less than a line. -/
theorem drain_again (bytes line : List UInt8) (hline : newline ∉ line) :
    drain fromUtf8Lossy [] (drain fromUtf8Lossy line bytes).2 =
      ([], (drain fromUtf8Lossy line bytes).2) := by
  have hpartial : ∀ (part line : List UInt8), newline ∉ part →
      drain fromUtf8Lossy line part = ([], line ++ part) := by
    intro part
    induction part with
    | nil => intro line _; rw [List.append_nil]; rfl
    | cons b part ih =>
      intro line hpart
      have hb : b ≠ newline := fun heq => hpart (heq ▸ List.mem_cons_self)
      have hrest : newline ∉ part := fun hmem => hpart (List.mem_cons_of_mem _ hmem)
      rw [drain, if_neg hb, ih _ hrest, List.append_assoc]
      rfl
  induction bytes generalizing line with
  | nil => exact hpartial line [] hline
  | cons b rest ih =>
    rw [drain]
    split
    · exact ih [] List.not_mem_nil
    · rename_i hb
      refine ih (line ++ [b]) fun h => ?_
      rcases List.mem_append.1 h with h | h
      · exact hline h
      · exact hb (List.mem_singleton.1 h).symm

/-- **Where the reads fall does not matter**: the payloads of two reads, one after the other, are
those of both at once. -/
theorem payloads_append (bytes more : List UInt8) :
    ((⟨bytes ++ more⟩ : SseLineBuffer).payloads fromUtf8Lossy) =
      (((⟨bytes⟩ : SseLineBuffer).payloads fromUtf8Lossy).1 ++
          ((((⟨bytes⟩ : SseLineBuffer).payloads fromUtf8Lossy).2.push more).payloads
            fromUtf8Lossy).1,
        ((((⟨bytes⟩ : SseLineBuffer).payloads fromUtf8Lossy).2.push more).payloads
          fromUtf8Lossy).2) := by
  simp only [payloads, push]
  rw [drain_append bytes more, drain_append (drain fromUtf8Lossy [] bytes).2 more,
    drain_again bytes [] List.not_mem_nil]
  rfl

end SseLineBuffer

/-! ## The adapters' loop -/

/-- `serde_json`, as the adapters use it. -/
structure Serde where
  fromStr : String → Except String Value
  toString : Value → Option String
  /-- `from_value` at the chunk type. -/
  chunkFromValue : Value → Except String ChatCompletionChunk
  fromUtf8Lossy : List UInt8 → String

/-- What the transport gives: some bytes, or the error that ends it. -/
abbrev Read := Except String (List UInt8)

/-- What an adapter yields. -/
abbrev StreamItem := Except ProviderError ChatCompletionChunk

/-- What an adapter does with a payload: chunks, and whether the stream ends there. -/
structure SseLoop (σ : Type) where
  start : σ
  transportError : String → ProviderError
  translate : σ → String → Except ProviderError (List ChatCompletionChunk × Bool × σ)

namespace SseLoop

variable {σ : Type} (loop : SseLoop σ)

/-- The payloads at hand: what is yielded, and the state if the stream goes on. -/
def feed : σ → List String → List StreamItem × Option σ
  | s, [] => ([], some s)
  | s, payload :: rest =>
    match loop.translate s payload with
    | .error e => ([.error e], none)
    | .ok (out, done, s) =>
      if done then (out.map .ok, none)
      else (out.map .ok ++ (feed s rest).1, (feed s rest).2)

/-- The stream from some state and buffer on. A partial line left at the end is dropped. -/
def chunksFrom (serde : Serde) (s : σ) (sse : SseLineBuffer) : List Read → List StreamItem
  | [] => []
  | .error e :: _ => [.error (loop.transportError e)]
  | .ok bytes :: reads =>
    let (payloads, sse) := (sse.push bytes).payloads serde.fromUtf8Lossy
    match loop.feed s payloads with
    | (items, some s) => items ++ chunksFrom serde s sse reads
    | (items, none) => items

def chunks (serde : Serde) (reads : List Read) : List StreamItem :=
  loop.chunksFrom serde loop.start {} reads

end SseLoop

end Routeplane
