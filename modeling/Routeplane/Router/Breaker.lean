import Mathlib.Algebra.Ring.Nat
import Mathlib.Data.Nat.Notation
import Mathlib.Tactic.Common

/-!
# The circuit breaker

`Closed → (failure threshold) → Open → (cooldown elapsed) → HalfOpen → (success
threshold) → Closed`, and back to `Open` on a failed trial. Reading the state is what
moves an expired `Open` to `HalfOpen`; the records look at the stored state only.

* `admits_heal`: reading the state does not change what the breaker admits.
* `heal_heal`: reading twice is reading once.
-/

namespace Routeplane

inductive CircuitState
  | closed
  | halfOpen
  | opened
  deriving DecidableEq, Repr, Inhabited

def defaultFailureThreshold : ℕ := 5

def defaultSuccessThreshold : ℕ := 3

def defaultCooldownMs : ℕ := 30000

structure CircuitBreaker where
  raw : CircuitState := .closed
  failures : ℕ := 0
  successes : ℕ := 0
  openedAt : ℕ := 0
  failureThreshold : ℕ := defaultFailureThreshold
  successThreshold : ℕ := defaultSuccessThreshold
  cooldownMs : ℕ := defaultCooldownMs
  deriving DecidableEq, Repr, Inhabited

namespace CircuitBreaker

def withConfig (failureThreshold successThreshold cooldownMs : ℕ) : CircuitBreaker :=
  { failureThreshold, successThreshold, cooldownMs }

def new : CircuitBreaker :=
  withConfig defaultFailureThreshold defaultSuccessThreshold defaultCooldownMs

/-- The breaker after a read at `now`: an open one past its cooldown turns half-open. -/
def heal (b : CircuitBreaker) (now : ℕ) : CircuitBreaker :=
  if b.raw = .opened ∧ b.cooldownMs ≤ now - b.openedAt then
    { b with raw := .halfOpen, successes := 0 }
  else b

/-- The state a read at `now` reports. -/
def state (b : CircuitBreaker) (now : ℕ) : CircuitState := (b.heal now).raw

/-- May a request be admitted with `inFlight` trials outstanding? -/
def admits (b : CircuitBreaker) (now inFlight : ℕ) : Bool :=
  match b.state now with
  | .closed => true
  | .opened => false
  | .halfOpen => inFlight < b.successThreshold

def openAt (b : CircuitBreaker) (now : ℕ) : CircuitBreaker :=
  { b with raw := .opened, openedAt := now, successes := 0 }

def close (b : CircuitBreaker) : CircuitBreaker :=
  { b with raw := .closed, failures := 0, successes := 0 }

def recordSuccess (b : CircuitBreaker) : CircuitBreaker :=
  match b.raw with
  | .halfOpen =>
    let b := { b with successes := b.successes + 1 }
    if b.successThreshold ≤ b.successes then b.close else b
  | _ => { b with failures := 0 }

def recordFailure (b : CircuitBreaker) (now : ℕ) : CircuitBreaker :=
  match b.raw with
  | .halfOpen => b.openAt now
  | _ =>
    let b := { b with failures := b.failures + 1 }
    if b.failureThreshold ≤ b.failures then b.openAt now else b

variable (b : CircuitBreaker) (now n : ℕ)

theorem heal_heal : (b.heal now).heal now = b.heal now := by
  unfold heal
  split
  · simp
  · rfl

@[simp] theorem state_heal : (b.heal now).state now = b.state now := by
  rw [state, heal_heal, state]

@[simp] theorem successThreshold_heal : (b.heal now).successThreshold = b.successThreshold := by
  unfold heal; split <;> rfl

/-- **Reading the state does not change what the breaker admits.** -/
@[simp] theorem admits_heal : (b.heal now).admits now n = b.admits now n := by
  rw [admits, state_heal, successThreshold_heal, admits]

end CircuitBreaker

end Routeplane
