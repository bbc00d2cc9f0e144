import Routeplane.Adapters.Sse
import Routeplane.Lib.Run
import Routeplane.Lib.Separated
import Routeplane.Proxy.Upstream

/-!
# The adapters' loop

An adapter pushes what it reads and asks for payloads in any order. Whatever it does, the payloads it
has been given and those it can still ask for are the ones of the whole lines of all bytes pushed.

* `completeLines`: the whole lines of some bytes. `Op.run`: pushes and requests, in any order.
* `run_spec`: what has been yielded and what is buffered make up all there is, after every operation.
* `reassembled`: what is yielded is a beginning of the expected payloads, all of them when a request
  finds none, and all of them after enough requests.
* `SseLoop.chunks_eq`: what an adapter yields is what the received payloads translate to, however
  they were read, with the transport's error behind it.
* `SseLoop.Law`: which payloads a loop gives up at, and which ones end its stream.
* `SseLoop.Passes`: payloads the loop goes through, with what they give.
* `Serde.Says`: what a payload says.
-/

namespace Routeplane.SseLineBuffer

/-- The whole lines, each with its line feed, after `line` of the first. -/
def completeLinesFrom (line : List UInt8) : List UInt8 → List (List UInt8)
  | [] => []
  | b :: rest =>
    if b = newline then (line ++ [b]) :: completeLinesFrom [] rest
    else completeLinesFrom (line ++ [b]) rest

def completeLines (bytes : List UInt8) : List (List UInt8) := completeLinesFrom [] bytes

/-- What the adapter does with the buffer. -/
inductive Op
  | push (bytes : List UInt8)
  | nextPayload

def Op.bytes : Op → List UInt8
  | push bytes => bytes
  | nextPayload => []

/-- All bytes pushed, in order. -/
def pushed (ops : List Op) : List UInt8 := ops.flatMap Op.bytes

/-- The buffer and what it has yielded, after an operation. -/
def Op.apply (fromUtf8Lossy : List UInt8 → String) (s : SseLineBuffer × List String) :
    Op → SseLineBuffer × List String
  | push bytes => (s.1.push bytes, s.2)
  | nextPayload =>
    let (payload, sse) := s.1.nextPayload fromUtf8Lossy
    (sse, s.2 ++ payload.toList)

def Op.run (fromUtf8Lossy : List UInt8 → String) (ops : List Op) : SseLineBuffer × List String :=
  Run.run (Op.apply fromUtf8Lossy) ({}, []) ops

/-- The payloads of the whole lines, each decoded as a whole. -/
def expected (fromUtf8Lossy : List UInt8 → String) (bytes : List UInt8) : List String :=
  (completeLines bytes).filterMap (payloadOf fromUtf8Lossy)

/-! ## Whole lines -/

variable {fromUtf8Lossy : List UInt8 → String} {bytes : List UInt8}

theorem completeLinesFrom_body {body : List UInt8} (h : newline ∉ body) (line rest : List UInt8) :
    completeLinesFrom line (body ++ newline :: rest) =
      (line ++ (body ++ [newline])) :: completeLinesFrom [] rest := by
  induction body generalizing line with
  | nil => exact if_pos rfl
  | cons b body ih =>
    have hb : b ≠ newline := fun heq => h (heq ▸ List.mem_cons_self)
    have hbody : newline ∉ body := fun hmem => h (List.mem_cons_of_mem _ hmem)
    have hstep : completeLinesFrom line (b :: (body ++ newline :: rest)) =
        completeLinesFrom (line ++ [b]) (body ++ newline :: rest) := if_neg hb
    rw [List.cons_append, hstep, ih hbody, List.append_assoc]
    rfl

theorem completeLinesFrom_part {part : List UInt8} (h : newline ∉ part) (line : List UInt8) :
    completeLinesFrom line part = [] := by
  induction part generalizing line with
  | nil => rfl
  | cons b part ih =>
    have hb : b ≠ newline := fun heq => h (heq ▸ List.mem_cons_self)
    have hstep : completeLinesFrom line (b :: part) = completeLinesFrom (line ++ [b]) part := if_neg hb
    rw [hstep]
    exact ih (fun hmem => h (List.mem_cons_of_mem _ hmem)) _

/-- **The whole lines are the words before the line feeds**; a rest without one is no line. -/
theorem completeLines_join {bodies : List (List UInt8)} {part : List UInt8}
    (hbodies : ∀ body ∈ bodies, newline ∉ body) (hpart : newline ∉ part) :
    completeLines (Separated.join newline bodies ++ part) = bodies.map (· ++ [newline]) := by
  induction bodies with
  | nil => exact completeLinesFrom_part hpart []
  | cons body bodies ih =>
    have hrest := ih fun body hbody => hbodies body (List.mem_cons_of_mem _ hbody)
    unfold completeLines at hrest ⊢
    rw [Separated.join_cons, List.append_assoc, List.cons_append,
      completeLinesFrom_body (hbodies body List.mem_cons_self), hrest]
    rfl

/-- Draining the bytes gives the payloads of their whole lines. -/
theorem drain_fst (bytes line : List UInt8) :
    (drain fromUtf8Lossy line bytes).1 =
      (completeLinesFrom line bytes).filterMap (payloadOf fromUtf8Lossy) := by
  induction bytes generalizing line with
  | nil => rfl
  | cons b rest ih =>
    unfold drain completeLinesFrom
    split
    · rw [ih []]
      cases hp : payloadOf fromUtf8Lossy (line ++ [b]) with
      | none => rw [List.filterMap_cons_none hp, Option.toList_none, List.nil_append]
      | some payload =>
        rw [List.filterMap_cons_some hp, Option.toList_some, List.singleton_append]
    · exact ih (line ++ [b])

/-! ## Runs -/

/-- What the buffer still holds. -/
def remaining (fromUtf8Lossy : List UInt8 → String) (sse : SseLineBuffer) : List String :=
  (drain fromUtf8Lossy [] sse.buf).1

/-- Everything pushed is what was yielded, what is still to be yielded and the same partial line. -/
def Whole (fromUtf8Lossy : List UInt8 → String) (bytes : List UInt8)
    (s : SseLineBuffer × List String) : Prop :=
  drain fromUtf8Lossy [] bytes =
    (s.2 ++ s.1.remaining fromUtf8Lossy, (drain fromUtf8Lossy [] s.1.buf).2)

/-- A request takes the first of what remains. -/
theorem nextPayload_spec (fromUtf8Lossy : List UInt8 → String) (sse : SseLineBuffer) :
    (sse.nextPayload fromUtf8Lossy).1 = (sse.remaining fromUtf8Lossy).head? ∧
      (sse.nextPayload fromUtf8Lossy).2.remaining fromUtf8Lossy =
        (sse.remaining fromUtf8Lossy).tail ∧
      (drain fromUtf8Lossy [] (sse.nextPayload fromUtf8Lossy).2.buf).2 =
        (drain fromUtf8Lossy [] sse.buf).2 := by
  have hdrain := @drain_of_scan fromUtf8Lossy sse.buf []
  have hagain := @drain_again fromUtf8Lossy sse.buf [] List.not_mem_nil
  unfold nextPayload remaining
  cases hscan : (scan fromUtf8Lossy [] sse.buf).1 with
  | none =>
    rw [hscan, Option.elim_none] at hdrain
    rw [hdrain] at hagain ⊢
    exact ⟨rfl, congrArg Prod.fst hagain, congrArg Prod.snd hagain⟩
  | some payload =>
    rw [hscan, Option.elim_some] at hdrain
    rw [hdrain]
    exact ⟨rfl, rfl, rfl⟩

theorem Whole.apply {s : SseLineBuffer × List String} (h : Whole fromUtf8Lossy bytes s) (op : Op) :
    Whole fromUtf8Lossy (bytes ++ op.bytes) (op.apply fromUtf8Lossy s) := by
  unfold Whole at h ⊢
  cases op with
  | push more =>
    show drain fromUtf8Lossy [] (bytes ++ more) =
      (s.2 ++ (drain fromUtf8Lossy [] (s.1.buf ++ more)).1,
        (drain fromUtf8Lossy [] (s.1.buf ++ more)).2)
    rw [drain_append bytes more, drain_append s.1.buf more, h]
    show (s.2 ++ _ ++ _, _) = (s.2 ++ (_ ++ _), _)
    rw [List.append_assoc]
    rfl
  | nextPayload =>
    obtain ⟨hfirst, hrest, hpart⟩ := nextPayload_spec fromUtf8Lossy s.1
    have hsplit : (s.1.remaining fromUtf8Lossy).head?.toList ++
        (s.1.remaining fromUtf8Lossy).tail = s.1.remaining fromUtf8Lossy := by
      cases s.1.remaining fromUtf8Lossy <;> rfl
    show drain fromUtf8Lossy [] (bytes ++ []) =
      (s.2 ++ (s.1.nextPayload fromUtf8Lossy).1.toList ++
          (s.1.nextPayload fromUtf8Lossy).2.remaining fromUtf8Lossy,
        (drain fromUtf8Lossy [] (s.1.nextPayload fromUtf8Lossy).2.buf).2)
    rw [List.append_nil, h, hfirst, hrest, hpart, List.append_assoc, hsplit]

/-- **Nothing is lost or doubled**, by induction on the operations. -/
theorem run_spec (fromUtf8Lossy : List UInt8 → String) (ops : List Op) :
    Whole fromUtf8Lossy (pushed ops) (Op.run fromUtf8Lossy ops) := by
  induction ops using List.reverseRecOn with
  | nil => rfl
  | append_singleton ops op ih =>
    have hpushed : pushed (ops ++ [op]) = pushed ops ++ op.bytes := by
      unfold pushed
      rw [List.flatMap_append, List.flatMap_singleton]
    unfold Op.run at ih ⊢
    rw [hpushed, Run.run_snoc]
    exact ih.apply op

theorem yielded_append_remaining (fromUtf8Lossy : List UInt8 → String) (ops : List Op) :
    (Op.run fromUtf8Lossy ops).2 ++ (Op.run fromUtf8Lossy ops).1.remaining fromUtf8Lossy =
      expected fromUtf8Lossy (pushed ops) := by
  have hwhole := congrArg Prod.fst (run_spec fromUtf8Lossy ops)
  rw [drain_fst] at hwhole
  exact hwhole.symm

/-- Requests alone take what remains from the front. -/
theorem remaining_requests (ops : List Op) (n : ℕ) :
    (Op.run fromUtf8Lossy (ops ++ List.replicate n .nextPayload)).1.remaining fromUtf8Lossy =
      ((Op.run fromUtf8Lossy ops).1.remaining fromUtf8Lossy).drop n := by
  induction n with
  | zero => rw [List.replicate_zero, List.append_nil, List.drop_zero]
  | succ n ih =>
    unfold Op.run at ih ⊢
    rw [List.replicate_succ', ← List.append_assoc, Run.run_snoc, ← List.tail_drop, ← ih]
    exact (nextPayload_spec _ _).2.1

theorem pushed_requests (ops : List Op) (n : ℕ) :
    pushed (ops ++ List.replicate n .nextPayload) = pushed ops := by
  unfold pushed
  rw [List.flatMap_append, List.flatMap_replicate]
  simp [Op.bytes]

/-- **Reassembly does not depend on the chunks.** However pushes and requests are mixed, the payloads
yielded are a beginning of those of the whole lines of all bytes; a request that finds none has them
all, and so has whoever makes as many requests as there are lines. -/
theorem reassembled (fromUtf8Lossy : List UInt8 → String) (ops : List Op) :
    (Op.run fromUtf8Lossy ops).2 <+: expected fromUtf8Lossy (pushed ops) ∧
      (((Op.run fromUtf8Lossy ops).1.nextPayload fromUtf8Lossy).1 = none ↔
        (Op.run fromUtf8Lossy ops).2 = expected fromUtf8Lossy (pushed ops)) ∧
      ∀ n, (completeLines (pushed ops)).length ≤ n →
        (Op.run fromUtf8Lossy (ops ++ List.replicate n .nextPayload)).2 =
          expected fromUtf8Lossy (pushed ops) := by
  have hall := yielded_append_remaining fromUtf8Lossy ops
  refine ⟨⟨_, hall⟩, ?_, ?_⟩
  · rw [(nextPayload_spec _ _).1, List.head?_eq_none_iff, ← hall]
    exact List.self_eq_append_right.symm
  · intro n hn
    have hlater := yielded_append_remaining fromUtf8Lossy
      (ops ++ List.replicate n .nextPayload)
    have hlength := congrArg List.length hall
    have hfew : (expected fromUtf8Lossy (pushed ops)).length ≤ (completeLines (pushed ops)).length :=
      List.length_filterMap_le _ _
    rw [List.length_append] at hlength
    rw [remaining_requests, List.drop_eq_nil_of_le (by omega), List.append_nil,
      pushed_requests] at hlater
    exact hlater

end Routeplane.SseLineBuffer

/-! ## The adapters' loop -/

namespace Routeplane

namespace SseLoop

variable {σ : Type} {loop : SseLoop σ} {serde : Serde} {s : σ} {ends refuses : String → Bool}

theorem feed_append (payloads more : List String) :
    loop.feed s (payloads ++ more) =
      ((loop.feed s payloads).1 ++ ((loop.feed s payloads).2.elim [] fun t => (loop.feed t more).1),
        (loop.feed s payloads).2.bind fun t => (loop.feed t more).2) := by
  induction payloads generalizing s with
  | nil => rfl
  | cons payload rest ih =>
    rw [List.cons_append, feed, feed]
    cases loop.translate s payload with
    | error e => rfl
    | ok r =>
      obtain ⟨out, done, t⟩ := r
      cases done with
      | true => simp
      | false => simp [ih (s := t)]

/-- A buffer that holds less than a line. -/
def Partial (serde : Serde) (sse : SseLineBuffer) : Prop :=
  sse.payloads serde.fromUtf8Lossy = ([], sse)

theorem partial_payloads (sse : SseLineBuffer) :
    Partial serde (sse.payloads serde.fromUtf8Lossy).2 := by
  unfold Partial SseLineBuffer.payloads
  simp only
  rw [SseLineBuffer.drain_again _ _ List.not_mem_nil]

theorem chunksFrom_eq (reads : List Read) {sse : SseLineBuffer} (hsse : Partial serde sse) :
    loop.chunksFrom serde s sse reads =
      (loop.feed s ((sse.push (receivedBytes reads)).payloads serde.fromUtf8Lossy).1).1 ++
      if (loop.feed s ((sse.push (receivedBytes reads)).payloads serde.fromUtf8Lossy).1).2.isSome
      then (transportFailure reads).toList.map fun e => .error (loop.transportError e) else [] := by
  induction reads generalizing s sse with
  | nil =>
    have hnone : (sse.push []).payloads serde.fromUtf8Lossy = ([], sse) := by
      rw [SseLineBuffer.push, List.append_nil]
      exact hsse
    simp [chunksFrom, receivedBytes, transportFailure, hnone, feed]
  | cons read reads ih =>
    cases read with
    | error e =>
      have hnone : (sse.push []).payloads serde.fromUtf8Lossy = ([], sse) := by
        rw [SseLineBuffer.push, List.append_nil]
        exact hsse
      simp [chunksFrom, receivedBytes, transportFailure, hnone, feed]
    | ok bytes =>
      -- the read at hand, then the others on the partial line it leaves
      have hsplit := @SseLineBuffer.payloads_append serde.fromUtf8Lossy (sse.buf ++ bytes)
        (receivedBytes reads)
      have hpush : (sse.push (receivedBytes (.ok bytes :: reads))) =
          (⟨sse.buf ++ bytes ++ receivedBytes reads⟩ : SseLineBuffer) := by
        rw [SseLineBuffer.push, receivedBytes, List.append_assoc]
      rw [hpush, hsplit, feed_append, chunksFrom]
      have hrest : Partial serde _ := partial_payloads (sse.push bytes)
      simp only [SseLineBuffer.push] at hrest ⊢
      generalize (⟨sse.buf ++ bytes⟩ : SseLineBuffer).payloads serde.fromUtf8Lossy = here at hrest ⊢
      rcases hfeed : loop.feed s here.1 with ⟨items, next⟩
      cases next with
      | none => simp
      | some t =>
        simp only [Option.elim_some, Option.bind_some, transportFailure]
        rw [ih hrest, List.append_assoc]
        rfl

/-- **What an adapter yields**, by the payloads received. -/
theorem chunks_eq (reads : List Read) :
    loop.chunks serde reads = (loop.feed loop.start (receivedPayloads serde reads)).1 ++
      if (loop.feed loop.start (receivedPayloads serde reads)).2.isSome
      then (transportFailure reads).toList.map fun e => .error (loop.transportError e) else [] :=
  chunksFrom_eq reads rfl

/-- Which payloads a loop gives up at, and which ones end its stream. -/
structure Law (loop : SseLoop σ) (ends refuses : String → Bool) : Prop where
  refused : ∀ s payload, refuses payload = true → ∃ e, loop.translate s payload = .error e
  taken : ∀ s payload, refuses payload = false →
    ∃ out t, loop.translate s payload = .ok (out, ends payload, t)

/-- Without an ending payload the loop gives up exactly at a refused one. -/
theorem Law.feed_spec (law : loop.Law ends refuses) {payloads : List String}
    (hends : ∀ p ∈ payloads, ends p = false) :
    ((∃ e, .error e ∈ (loop.feed s payloads).1) ↔ ∃ p ∈ payloads, refuses p = true) ∧
      ((loop.feed s payloads).2.isSome ↔ ∀ p ∈ payloads, refuses p = false) := by
  induction payloads generalizing s with
  | nil => simp [feed]
  | cons payload rest ih =>
    rw [feed]
    cases hr : refuses payload with
    | true =>
      obtain ⟨e, he⟩ := law.refused s payload hr
      simp [he, hr]
    | false =>
      obtain ⟨out, t, ht⟩ := law.taken s payload hr
      have hgo : ends payload = false := hends payload List.mem_cons_self
      have hrest := ih (s := t) fun p hp => hends p (List.mem_cons_of_mem _ hp)
      simp [ht, hgo, hr, hrest]

theorem Law.chunks_error_iff (law : loop.Law ends refuses) (reads : List Read)
    (hends : ∀ p ∈ receivedPayloads serde reads, ends p = false) :
    (∃ e, .error e ∈ loop.chunks serde reads) ↔
      (transportFailure reads).isSome ∨ ∃ p ∈ receivedPayloads serde reads, refuses p = true := by
  obtain ⟨herr, hsome⟩ := law.feed_spec (s := loop.start) hends
  rw [chunks_eq]
  by_cases hany : ∃ p ∈ receivedPayloads serde reads, refuses p = true
  · obtain ⟨e, he⟩ := herr.2 hany
    exact ⟨fun _ => .inr hany, fun _ => ⟨e, List.mem_append_left _ he⟩⟩
  · have hnone : ∀ p ∈ receivedPayloads serde reads, refuses p = false := fun p hp =>
      Bool.eq_false_iff.2 fun hr => hany ⟨p, hp, hr⟩
    rw [if_pos (hsome.2 hnone)]
    constructor
    · rintro ⟨e, he⟩
      rcases List.mem_append.1 he with he | he
      · exact absurd (herr.1 ⟨e, he⟩) hany
      · cases hfail : transportFailure reads with
        | none => simp [hfail] at he
        | some _ => exact .inl rfl
    · rintro (hfail | hr)
      · obtain ⟨e, he⟩ := Option.isSome_iff_exists.1 hfail
        refine ⟨loop.transportError e, List.mem_append_right _ ?_⟩
        simp [he]
      · exact absurd hr hany

/-- Payloads the loop goes through from one state to another, with the chunks they give. -/
inductive Passes (loop : SseLoop σ) : σ → List String → List ChatCompletionChunk → σ → Prop
  | nil (s : σ) : Passes loop s [] [] s
  | cons {s t u : σ} {payload : String} {rest : List String} {out more : List ChatCompletionChunk}
      (h : loop.translate s payload = .ok (out, false, t)) (hrest : Passes loop t rest more u) :
      Passes loop s (payload :: rest) (out ++ more) u

variable {t u : σ} {payloads rest : List String} {out more : List ChatCompletionChunk}

theorem Passes.one {payload : String} (h : loop.translate s payload = .ok (out, false, t)) :
    Passes loop s [payload] out t := by
  have hcons := Passes.cons h (.nil t)
  rwa [List.append_nil] at hcons

theorem Passes.append (h : Passes loop s payloads out t) (hrest : Passes loop t rest more u) :
    Passes loop s (payloads ++ rest) (out ++ more) u := by
  induction h with
  | nil => exact hrest
  | cons hstep _ ih =>
    rw [List.cons_append, List.append_assoc]
    exact .cons hstep (ih hrest)

variable (loop s) in
/-- Payloads that leave the state as it is. -/
theorem Passes.of_forall₂ {α : Type} {R : α → String → Prop} (give : α → List ChatCompletionChunk)
    {xs : List α} (h : List.Forall₂ R xs payloads)
    (hstep : ∀ x p, R x p → loop.translate s p = .ok (give x, false, s)) :
    Passes loop s payloads (xs.flatMap give) s := by
  induction h with
  | nil => exact .nil s
  | cons hp _ ih => exact .cons (hstep _ _ hp) ih

/-- A payload that gives nothing and changes nothing may stand anywhere. -/
theorem feed_filter {keep : String → Bool}
    (hskip : ∀ s, ∀ p ∈ payloads, keep p = false → loop.translate s p = .ok ([], false, s)) :
    loop.feed s payloads = loop.feed s (payloads.filter keep) := by
  induction payloads generalizing s with
  | nil => rfl
  | cons p rest ih =>
    have hskip' : ∀ s, ∀ q ∈ rest, keep q = false → loop.translate s q = .ok ([], false, s) :=
      fun s q hq => hskip s q (List.mem_cons_of_mem _ hq)
    cases hk : keep p with
    | true =>
      rw [List.filter_cons, if_pos hk, feed, feed]
      cases loop.translate s p with
      | error e => rfl
      | ok r => simp only [ih (s := r.2.2) hskip']
    | false =>
      rw [List.filter_cons, if_neg (Bool.eq_false_iff.1 hk), ← ih hskip', feed,
        hskip s p List.mem_cons_self hk]
      rfl

theorem Passes.feed (h : Passes loop s payloads out t) (rest : List String) :
    loop.feed s (payloads ++ rest) = (out.map .ok ++ (loop.feed t rest).1, (loop.feed t rest).2) := by
  induction h with
  | nil => rfl
  | cons hstep _ ih =>
    rw [List.cons_append, SseLoop.feed, hstep]
    simp [ih]

end SseLoop

/-! ## What a payload says -/

/-- The reader of some texts; the one text it writes is that of the empty object. -/
def Serde.ofTexts (texts : List (String × Value)) : Serde where
  fromStr s :=
    match (texts.find? fun text => text.1 = s).map (·.2) with
    | some v => .ok v
    | none => .error "expected value"
  toString
    | .obj [] => some "\x7b\x7d"
    | _ => none
  chunkFromValue _ := .error "missing field"
  fromUtf8Lossy _ := ""

/-- A payload is the text of a value. -/
def Serde.Says (serde : Serde) (payload : String) (p : Value → Prop) : Prop :=
  ∃ v, serde.fromStr payload = .ok v ∧ p v

def HasType (type : String) (v : Value) : Prop := v.get "type" = some (.str type)

/-- A count, or its absence. -/
def Count (count : Option UInt32) (v : Value) : Prop :=
  v = count.elim .null fun n => .num (.int n.toNat)

theorem count_asU64 {count : Option UInt32} {v : Value} (h : Count count v) :
    v.asU64 = count.map UInt32.toNat := by
  rw [h]
  cases count with
  | none => rfl
  | some n =>
    have hlt := n.toNat_lt
    have hrange : (0 : ℤ) ≤ n.toNat ∧ (n.toNat : ℤ) < 2 ^ 64 := by omega
    simp only [Option.elim_some, Value.asU64]
    rw [if_pos hrange, Int.toNat_natCast]
    rfl

theorem count_asU64AsU32 {count : Option UInt32} {v : Value} (h : Count count v) :
    v.asU64AsU32 = count := by
  rw [Value.asU64AsU32, count_asU64 h]
  cases count with
  | none => rfl
  | some n => exact congrArg some (UInt32.ofNat_toNat ..)

end Routeplane
