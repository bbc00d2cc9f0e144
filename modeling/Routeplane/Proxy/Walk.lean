import Routeplane.Proxy.Attempt

/-!
# The buffered walk

The ordered targets are resolved once, to their shaped requests and ordered keys; those
without an adapter or a key drop out. The walk then tries target after target and key
after key until one wins. It is written over an arbitrary attempt, so that it can be read
both on the attempt loop and on a fixed assignment of outcomes.

* `sequentialWalk`: the walk. `bufferedWalk`: the walk of the attempt loop.
* `sequentialWalk_isSome`: it wins iff some key of some target does.
-/

namespace Routeplane

/-- What a walk remembers for the answer to the client when nothing wins. -/
structure Notes where
  lastError : String := "No providers available"
  /-- A client-class 4xx sticks over later transient failures. -/
  lastClientStatus : Option ℕ := none
  deriving DecidableEq, Repr, Inhabited

def Notes.exhausted (n : Notes) (error : String) (status : Option ℕ) : Notes where
  lastError := error
  lastClientStatus := status.or n.lastClientStatus

structure Winner (ρ : Type) where
  idx : ℕ
  response : ρ
  elapsedMs : ℕ
  hedged : Bool

/-! ## Ready targets -/

section

variable (st : AppState) (k : VirtualKey) (tenant : String) (payload : ChatCompletionRequest)
  (requestSeed : BitVec 64) (health : HealthTracker) (now : ℕ)

/-- Resolve one ordered target, or say why it drops out. -/
def readyTarget (target : TargetPlan) (idx : ℕ) : Except String ReadyTarget :=
  let provider := target.provider
  if !st.knows tenant provider then .error ("Unsupported provider: " ++ provider)
  else
    match ReadyTarget.of? idx target (target.params.apply payload)
        (targetKeyList st k tenant provider health now (targetRngSeed requestSeed idx)) with
    | none => .error ("API key for " ++ provider ++ " not configured")
    | some rt => .ok rt

def readyTargets (targets : List TargetPlan) : List ReadyTarget :=
  targets.zipIdx.filterMap fun (t, i) =>
    (readyTarget st k tenant payload requestSeed health now t i).toOption

/-- The last target that dropped out is the last error so far. -/
def readyNotes (targets : List TargetPlan) : Notes :=
  targets.zipIdx.foldl (fun notes (t, i) =>
    match readyTarget st k tenant payload requestSeed health now t i with
    | .error e => { notes with lastError := e }
    | .ok _ => notes) {}

end

/-! ## The walk -/

section

variable {ρ σ : Type}

/-- Try the keys of a target in order; `verdict` remembers whether any failed on its
provider's account. -/
def walkKeys (attempt : PoolKey → σ → TargetOutcome ρ × σ) :
    List PoolKey → Bool → Notes → σ → Option (ρ × ℕ) × Bool × Notes × σ
  | [], verdict, notes, s => (none, verdict, notes, s)
  | key :: keys, verdict, notes, s =>
    match attempt key s with
    | (.won response elapsedMs, s) => (some (response, elapsedMs), verdict, notes, s)
    | (.exhausted e healthFailure status, s) =>
      walkKeys attempt keys (verdict || healthFailure) (notes.exhausted e status) s

/-- Try the targets in order. A pool that is exhausted with a verdict against its provider is
reported once. -/
def sequentialWalk (attempt : ReadyTarget → PoolKey → σ → TargetOutcome ρ × σ)
    (poolExhausted : ReadyTarget → σ → σ) :
    List ReadyTarget → Notes → σ → Option (Winner ρ) × Notes × σ
  | [], notes, s => (none, notes, s)
  | rt :: rest, notes, s =>
    match walkKeys (attempt rt) rt.keys false notes s with
    | (some (response, elapsedMs), _, notes, s) =>
      (some ⟨rt.idx, response, elapsedMs, false⟩, notes, s)
    | (none, verdict, notes, s) =>
      let isPool := rt.firstKey.1.isSome
      let s := if isPool && verdict then poolExhausted rt s else s
      sequentialWalk attempt poolExhausted rest notes s

end

/-! ## What a walk preserves -/

section

variable {ρ σ : Type} {P : σ → Prop}

theorem walkKeys_preserves {attempt : PoolKey → σ → TargetOutcome ρ × σ} {keys : List PoolKey}
    (hattempt : ∀ key ∈ keys, ∀ s, P s → P (attempt key s).2) (verdict : Bool) (notes : Notes) (s : σ)
    (hs : P s) : P (walkKeys attempt keys verdict notes s).2.2.2 := by
  induction keys generalizing verdict notes s with
  | nil => exact hs
  | cons key keys ih =>
    have hkey := hattempt key List.mem_cons_self s hs
    unfold walkKeys
    split
    · simp_all
    · rename_i e hf status s' heq
      rw [heq] at hkey
      exact ih (fun k hk => hattempt k (List.mem_cons_of_mem _ hk)) _ _ _ hkey

/-- What each attempt and each exhausted pool preserve the walk preserves. -/
theorem sequentialWalk_preserves {attempt : ReadyTarget → PoolKey → σ → TargetOutcome ρ × σ}
    {poolExhausted : ReadyTarget → σ → σ} {ready : List ReadyTarget}
    (hattempt : ∀ rt ∈ ready, ∀ key ∈ rt.keys, ∀ s, P s → P (attempt rt key s).2)
    (hpool : ∀ rt ∈ ready, ∀ s, P s → P (poolExhausted rt s)) (notes : Notes) (s : σ) (hs : P s) :
    P (sequentialWalk attempt poolExhausted ready notes s).2.2 := by
  induction ready generalizing notes s with
  | nil => exact hs
  | cons rt rest ih =>
    have hkeys := walkKeys_preserves (hattempt rt List.mem_cons_self) false notes s hs
    unfold sequentialWalk
    split
    · simp_all
    · rename_i verdict n s' heq
      rw [heq] at hkeys
      refine ih (fun r hr => hattempt r (List.mem_cons_of_mem _ hr))
        (fun r hr => hpool r (List.mem_cons_of_mem _ hr)) _ _ ?_
      split
      · exact hpool rt List.mem_cons_self s' hkeys
      · exact hkeys

end

/-- The one failure an exhausted pool counts. -/
def feedPool (caller : Caller) (rt : ReadyTarget) (w : World) : World :=
  { w with health := w.health.recordFailure caller.tenantId rt.target.provider w.now }.log
    [.fed rt.idx rt.target.provider]

/-- The walk of the attempt loop over the ready targets. -/
def bufferedWalk {ρ : Type} (env : Env ρ) (st : AppState) (caller : Caller) (deadline : Deadline)
    (ready : List ReadyTarget) (notes : Notes) (w : World) : Option (Winner ρ) × Notes × World :=
  sequentialWalk (fun rt key w => attemptTarget env st caller deadline rt key w) (feedPool caller)
    ready notes w

/-- The buffered path over the ordered targets: all are resolved before the first is tried. -/
def bufferedRun {ρ : Type} (env : Env ρ) (st : AppState) (k : VirtualKey) (caller : Caller)
    (deadline : Deadline) (payload : ChatCompletionRequest) (requestSeed : BitVec 64)
    (targets : List TargetPlan) (w : World) : Option (Winner ρ) × Notes × World :=
  bufferedWalk env st caller deadline
    (readyTargets st k caller.tenantId payload requestSeed w.health w.now targets)
    (readyNotes st k caller.tenantId payload requestSeed w.health w.now targets) w

/-! ## When the walk wins -/

section

variable {ρ : Type}

/-- Whether an outcome is a win. -/
def TargetOutcome.isWon : TargetOutcome ρ → Bool
  | .won .. => true
  | .exhausted .. => false

theorem walkKeys_isSome (f : PoolKey → TargetOutcome ρ) (keys : List PoolKey) (verdict : Bool)
    (notes : Notes) : (walkKeys (fun key (_ : Unit) => (f key, ())) keys verdict notes ()).1.isSome ↔
      ∃ key ∈ keys, (f key).isWon := by
  induction keys generalizing verdict notes with
  | nil => simp [walkKeys]
  | cons key keys ih =>
    unfold walkKeys
    cases hf : f key with
    | won r ms => simp [TargetOutcome.isWon, hf]
    | exhausted e hfail status =>
      rw [List.exists_mem_cons_iff]
      simp only [hf, TargetOutcome.isWon, Bool.false_eq_true, false_or]
      exact ih _ _

/-- **With its outcomes given, the walk wins iff some key of some target does.** -/
theorem sequentialWalk_isSome (f : ReadyTarget → PoolKey → TargetOutcome ρ)
    (ready : List ReadyTarget) (notes : Notes) :
    (sequentialWalk (fun rt key (_ : Unit) => (f rt key, ())) (fun _ s => s) ready notes ()).1.isSome
      ↔ ∃ rt ∈ ready, ∃ key ∈ rt.keys, (f rt key).isWon := by
  induction ready generalizing notes with
  | nil => simp [sequentialWalk]
  | cons rt rest ih =>
    have hkeys := walkKeys_isSome (f rt) rt.keys false notes
    rw [List.exists_mem_cons_iff, ← hkeys]
    unfold sequentialWalk
    split
    · rename_i r ms b n s heq
      simp [heq]
    · rename_i v n s heq
      simp only [heq, Option.isSome_none, Bool.false_eq_true, false_or]
      exact ih _

end

end Routeplane
