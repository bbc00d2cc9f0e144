import Routeplane.Router.Health
import Mathlib.Data.List.DropRight

/-!
# The key-pool cooldown cells, one atomic step at a time

The cooldowns of all pool keys share a table of words. A call loads its key's word, then returns
or swaps in another one, and starts over from the word it observes when that has changed. The
steps of different callers come in any order.

* `Phase`: the step a caller takes next. `apply`: one step.
* `deadlinesSince`: what was stamped for a key and neither cleared nor taken over.
-/

namespace Routeplane.KeyCells

open HealthTracker (untilBits cooldownFp cooldownUntil packCooldown)

structure PoolKey where
  tenant : String
  provider : String
  index : ℕ
  deriving DecidableEq, Repr

inductive Op
  | coolKey (untilMs : ℕ)
  | clearKey
  deriving DecidableEq, Repr

/-- The step a caller takes next. -/
inductive Phase
  | idle
  /-- The first load of the word. -/
  | loading (key : PoolKey) (op : Op)
  /-- ... not returned at the word: swap it. -/
  | swapping (key : PoolKey) (op : Op) (cur : ℕ)
  deriving DecidableEq, Repr

/-- The key of a caller's call. -/
def Phase.key : Phase → Option PoolKey
  | .idle => none
  | .loading key _ | .swapping key _ _ => some key

/-- The words with the hash, where each caller is, and the calls in the order they took effect. -/
structure State (ι : Type) where
  tracker : HealthTracker
  caller : ι → Phase
  log : List (PoolKey × Op)

inductive Event (ι : Type)
  | call (i : ι) (key : PoolKey) (op : Op)
  /-- A weak swap fails for no reason. -/
  | miss (i : ι)
  | step (i : ι)
  deriving DecidableEq, Repr

def Event.caller {ι : Type} : Event ι → ι
  | .call i _ _ | .miss i | .step i => i

/-- The key an event brings into play. -/
def Event.key {ι : Type} : Event ι → Option PoolKey
  | .call _ key _ => some key
  | _ => none

/-- The cell of a key and the fingerprint of its owner. -/
def slot (h : HealthTracker) (key : PoolKey) : ℕ × ℕ := h.keySlot key.tenant key.provider key.index

def word (h : HealthTracker) (key : PoolKey) : ℕ := h.keyCooldowns (slot h key).1

def keyCooledUntil (h : HealthTracker) (key : PoolKey) : ℕ :=
  h.keyCooledUntil key.tenant key.provider key.index

/-- The latest deadline the field holds. -/
def untilMask : ℕ := 2 ^ untilBits - 1

/-- What a call that observes `cur` swaps in; none when it returns. -/
def proposal (h : HealthTracker) (key : PoolKey) (cur : ℕ) : Op → Option ℕ
  | .coolKey untilMs =>
    let fp := (slot h key).2
    let untilMs := min untilMs untilMask
    if cooldownFp cur = fp ∧ untilMs ≤ cooldownUntil cur then none
    else some (packCooldown fp untilMs)
  | .clearKey => if cooldownFp cur ≠ (slot h key).2 then none else some 0

/-- The whole call, when nothing comes between its steps. -/
def perform (h : HealthTracker) (call : PoolKey × Op) : HealthTracker :=
  match call with
  | (key, .coolKey untilMs) => h.coolKey key.tenant key.provider key.index untilMs
  | (key, .clearKey) => h.clearKey key.tenant key.provider key.index

section

variable {ι : Type} [DecidableEq ι]

def start (builtins : List String) (keyHash : String → String → ℕ → ℕ) : State ι :=
  ⟨.new builtins keyHash, fun _ => .idle, []⟩

namespace State

def goto (s : State ι) (i : ι) (phase : Phase) : State ι :=
  { s with caller := Function.update s.caller i phase }

/-- The call takes effect, on the words as given. -/
def finish (s : State ι) (i : ι) (tracker : HealthTracker) (call : PoolKey × Op) : State ι :=
  { s.goto i .idle with tracker := tracker, log := s.log ++ [call] }

/-- Look at the word. -/
def observe (s : State ι) (i : ι) (key : PoolKey) (op : Op) : State ι :=
  match proposal s.tracker key (word s.tracker key) op with
  | none => s.finish i s.tracker (key, op)
  | some _ => s.goto i (.swapping key op (word s.tracker key))

end State

def apply (s : State ι) : Event ι → State ι
  | .call i key op =>
    match s.caller i with
    | .idle => s.goto i (.loading key op)
    | _ => s
  | .miss i =>
    match s.caller i with
    | .swapping key op _ => s.observe i key op
    | _ => s
  | .step i =>
    match s.caller i with
    | .idle => s
    | .loading key op => s.observe i key op
    | .swapping key op cur =>
      if word s.tracker key = cur then
        match proposal s.tracker key cur op with
        | some next => s.finish i (s.tracker.setWord (slot s.tracker key).1 next) (key, op)
        | none => s
      else s.observe i key op

end

/-- Whether a call ends what was stamped for `key`: its clear, or the stamp of another key on its
cell. -/
def ends (h : HealthTracker) (key : PoolKey) : PoolKey × Op → Bool
  | (other, .clearKey) => other = key
  | (other, .coolKey _) => other ≠ key ∧ (slot h other).1 = (slot h key).1

/-- The deadline a call stamps for `key`, as the field holds it. -/
def stamp (key : PoolKey) : PoolKey × Op → Option ℕ
  | (_, .clearKey) => none
  | (other, .coolKey untilMs) => if other = key then some (min untilMs untilMask) else none

/-- The deadlines stamped for `key` since its last clear and since its cell was last taken over. -/
def deadlinesSince (h : HealthTracker) (key : PoolKey) (log : List (PoolKey × Op)) : List ℕ :=
  (log.rtakeWhile fun call => !ends h key call).filterMap (stamp key)

/-- The latest of some deadlines, `0` for none. -/
def latest (deadlines : List ℕ) : ℕ := deadlines.foldl max 0

end Routeplane.KeyCells
