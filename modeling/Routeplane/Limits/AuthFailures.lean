import Routeplane.Limits.Window

/-!
# Failed authentications

A fixed number of slots counts the failed authentications of every source: a source is hashed to a
slot, and a slot counts in one fixed window at a time. A source whose count has reached the threshold
is refused before its key is looked up.

* `AuthFailureTracker.check`, `recordFailure`: what a request does before and after the lookup.
* `Guarding.apply`: requests are checked, and those let through may fail.
-/

namespace Routeplane.Limits

/-- `u64::div_ceil` by a thousand. -/
def ceilSecs (ms : ℕ) : ℕ := (ms + 999) / 1000

structure AuthFailureConfig where
  threshold : ℕ := 5
  windowMs : ℕ := 60000
  backoffBaseMs : ℕ := 1000
  backoffCapMs : ℕ := 300000
  slots : ℕ := 65536
  deriving DecidableEq, Repr

inductive AuthThrottle
  | allow
  | throttled (retryAfterSecs : ℕ)
  deriving DecidableEq, Repr

def AuthThrottle.isThrottled : AuthThrottle → Bool
  | .allow => false
  | .throttled _ => true

namespace AuthSlot

def countBits : ℕ := 24
def countMask : ℕ := 2 ^ 24 - 1
def epochMask : ℕ := 2 ^ 40 - 1

def pack (epoch count : ℕ) : ℕ := ((epoch &&& epochMask) <<< countBits) ||| (count &&& countMask)

def unpack (p : ℕ) : ℕ × ℕ := (p >>> countBits, p &&& countMask)

theorem and_countMask (n : ℕ) : n &&& countMask = n % 2 ^ 24 :=
  Nat.and_two_pow_sub_one_eq_mod n 24

theorem and_epochMask (n : ℕ) : n &&& epochMask = n % 2 ^ 40 :=
  Nat.and_two_pow_sub_one_eq_mod n 40

theorem unpack_pack {epoch count : ℕ} (hc : count ≤ countMask) :
    unpack (pack epoch count) = (epoch % 2 ^ 40, count) := by
  have hmask : countMask = 2 ^ 24 - 1 := rfl
  have hlt : count < 2 ^ 24 := by omega
  have hor := Nat.shiftLeft_add_eq_or_of_lt hlt (epoch % 2 ^ 40)
  unfold unpack pack
  rw [and_countMask, and_epochMask, and_countMask, show countBits = 24 from rfl,
    Nat.mod_eq_of_lt hlt, ← hor, Nat.shiftLeft_eq, Nat.shiftRight_eq_div_pow]
  refine Prod.ext ?_ ?_
  · show (epoch % 2 ^ 40 * 2 ^ 24 + count) / 2 ^ 24 = epoch % 2 ^ 40
    omega
  · show (epoch % 2 ^ 40 * 2 ^ 24 + count) % 2 ^ 24 = count
    omega

end AuthSlot

namespace AuthFailureConfig

/-- The bounds a tracker keeps its configuration in. -/
structure Sane (cfg : AuthFailureConfig) : Prop where
  threshold_pos : 1 ≤ cfg.threshold
  threshold_le : cfg.threshold ≤ AuthSlot.countMask
  window_pos : 1 ≤ cfg.windowMs
  base_pos : 1 ≤ cfg.backoffBaseMs
  base_le : cfg.backoffBaseMs ≤ cfg.backoffCapMs
  slots_pos : 1 ≤ cfg.slots

def sanitized (cfg : AuthFailureConfig) : AuthFailureConfig where
  threshold := max 1 (min cfg.threshold AuthSlot.countMask)
  windowMs := max cfg.windowMs 1
  backoffBaseMs := max cfg.backoffBaseMs 1
  backoffCapMs := max cfg.backoffCapMs (max cfg.backoffBaseMs 1)
  slots := max 1 (min cfg.slots (1 <<< 20))

theorem sanitized_sane (cfg : AuthFailureConfig) : cfg.sanitized.Sane where
  threshold_pos := le_max_left _ _
  threshold_le := max_le (by decide) (min_le_right _ _)
  window_pos := le_max_right _ _
  base_pos := le_max_right _ _
  base_le := le_max_right _ _
  slots_pos := le_max_left _ _

variable (cfg : AuthFailureConfig)

def epoch (nowMs : ℕ) : ℕ := nowMs / cfg.windowMs

/-- The wait of a source with so many failures: the base, doubled for each one over the threshold,
and capped. -/
def backoffMs (count : ℕ) : ℕ :=
  let overshoot := count - cfg.threshold
  let shift := min overshoot 40
  min (satMul cfg.backoffBaseMs (1 <<< shift)) cfg.backoffCapMs

/-- The same in whole seconds, as it is announced. -/
def retrySecs (count : ℕ) : ℕ := max (ceilSecs (cfg.backoffMs count)) 1

end AuthFailureConfig

/-- The slots of one process, with the process's own hash. -/
structure AuthFailureTracker where
  cfg : AuthFailureConfig
  sane : cfg.Sane
  hasher : String → ℕ
  slots : ℕ → ℕ := fun _ => 0

namespace AuthFailureTracker

def new (cfg : AuthFailureConfig) (hasher : String → ℕ) : AuthFailureTracker :=
  ⟨cfg.sanitized, cfg.sanitized_sane, hasher, fun _ => 0⟩

variable (t : AuthFailureTracker) (source : String) (nowMs : ℕ)

def slotIndex : ℕ := t.hasher source % t.cfg.slots

/-- The failures of a source in the window, nothing if its slot is of another. -/
def currentCount : ℕ :=
  let ep := t.cfg.epoch nowMs &&& AuthSlot.epochMask
  let (e, c) := AuthSlot.unpack (t.slots (t.slotIndex source))
  if e = ep then c else 0

def check : AuthThrottle :=
  let count := t.currentCount source nowMs
  if t.cfg.threshold ≤ count then .throttled (t.cfg.retrySecs count) else .allow

def recordFailure : ℕ × AuthFailureTracker :=
  let ep := t.cfg.epoch nowMs &&& AuthSlot.epochMask
  let (e, c) := AuthSlot.unpack (t.slots (t.slotIndex source))
  let base := if e = ep then c else 0
  let next := min (satAdd base 1) AuthSlot.countMask
  (next, { t with slots := Function.update t.slots (t.slotIndex source) (AuthSlot.pack ep next) })

end AuthFailureTracker

/-! ## Requests -/

/-- The tracker, the time, and the sources of the requests that were let through and have not
failed. -/
structure Guarding where
  tracker : AuthFailureTracker
  clock : ℕ := 0
  inFlight : List String := []

inductive AuthEvent
  | check (source : String) (nowMs : ℕ)
  | fail (source : String) (nowMs : ℕ)
  deriving DecidableEq, Repr

namespace Guarding

variable (σ : Guarding)

def start (cfg : AuthFailureConfig) (hasher : String → ℕ) : Guarding := ⟨.new cfg hasher, 0, []⟩

def apply : AuthEvent → Guarding
  | .check source nowMs =>
    { σ with
      clock := nowMs
      inFlight :=
        if (σ.tracker.check source nowMs).isThrottled then σ.inFlight else source :: σ.inFlight }
  | .fail source nowMs =>
    { tracker := (σ.tracker.recordFailure source nowMs).2
      clock := nowMs
      inFlight := σ.inFlight.erase source }

/-- Time does not go back, and only a request that was let through fails. -/
def Enabled : AuthEvent → Prop
  | .check _ nowMs => σ.clock ≤ nowMs
  | .fail source nowMs => σ.clock ≤ nowMs ∧ source ∈ σ.inFlight

instance : DecidablePred σ.Enabled
  | .check _ _ => inferInstanceAs (Decidable (_ ≤ _))
  | .fail _ _ => inferInstanceAs (Decidable (_ ∧ _))

def run (events : List AuthEvent) : Guarding := events.foldl apply σ

def Runs : Guarding → List AuthEvent → Prop
  | _, [] => True
  | σ, e :: events => σ.Enabled e ∧ Runs (σ.apply e) events

instance decidableRuns : (events : List AuthEvent) → (σ : Guarding) → Decidable (σ.Runs events)
  | [], _ => isTrue trivial
  | e :: events, σ => @instDecidableAnd _ _ _ (decidableRuns events (σ.apply e))

end Guarding

end Routeplane.Limits
