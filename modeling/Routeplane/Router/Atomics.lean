import Routeplane.Router.Breaker
import Mathlib.Logic.Function.Basic

/-!
# The breaker's operations, one atomic step at a time

A breaker is four atomic words that any number of callers read and write. Each of its operations
is a sequence of single loads, stores and swaps, and the steps of different callers come in any
order, while the clock moves on.

* `Phase`: the step a caller takes next. `apply`: one step.
* `observes`: what a step learns of the state word.
-/

namespace Routeplane.Atomics

inductive Op
  | state
  | recordSuccess
  | recordFailure
  deriving DecidableEq, Repr

/-- The step a caller takes next. -/
inductive Phase
  | idle
  /-- `state` has found the word open: the clock. -/
  | readClock
  /-- ... then the time of the opening. -/
  | readOpenedAt (now : ℕ)
  /-- ... which is long enough ago: open to half-open. -/
  | swap (openedAt : ℕ)
  | resetTrials
  /-- ... lost to another caller. -/
  | reload
  | addSuccess
  | clearFailures
  | addFailure
  /-- `open`: the word. -/
  | storeOpen
  /-- ... the clock. -/
  | openClock
  /-- ... the time of the opening. -/
  | storeOpenedAt (now : ℕ)
  /-- ... the successes. -/
  | openReset
  /-- `close`: the word. -/
  | storeClosed
  /-- ... the failures. -/
  | closeFailures
  /-- ... the successes. -/
  | closeSuccesses
  deriving DecidableEq, Repr

/-- The time of an opening by which a caller is about to swap the word. -/
def Phase.decidedBy : Phase → Option ℕ
  | .swap openedAt => some openedAt
  | _ => none

/-- The words of a breaker with its settings, the clock, and where each caller is; beside them,
when the word last turned open. -/
structure State (ι : Type) where
  words : CircuitBreaker
  clock : ℕ
  caller : ι → Phase
  openedSince : Option ℕ

inductive Event (ι : Type)
  /-- A caller enters an operation and loads the word. -/
  | enter (i : ι) (op : Op)
  | step (i : ι)
  | tick (ms : ℕ)
  deriving DecidableEq, Repr

section

variable {ι : Type} [DecidableEq ι]

def start (words : CircuitBreaker) (clock : ℕ) : State ι := ⟨words, clock, fun _ => .idle, none⟩

namespace State

def goto (s : State ι) (i : ι) (ph : Phase) : State ι :=
  { s with caller := Function.update s.caller i ph }

omit [DecidableEq ι] in
def write (s : State ι) (words : CircuitBreaker) : State ι := { s with words := words }

/-- The first step of an operation: load the word. -/
def enter (s : State ι) (i : ι) : Op → State ι
  | .state =>
    match s.words.raw with
    | .opened => s.goto i .readClock
    | _ => s
  | .recordSuccess =>
    match s.words.raw with
    | .halfOpen => s.goto i .addSuccess
    | _ => s.goto i .clearFailures
  | .recordFailure =>
    match s.words.raw with
    | .halfOpen => s.goto i .storeOpen
    | _ => s.goto i .addFailure

/-- Every other step of an operation. -/
def step (s : State ι) (i : ι) : State ι :=
  let b := s.words
  match s.caller i with
  | .idle => s
  | .readClock => s.goto i (.readOpenedAt s.clock)
  | .readOpenedAt now =>
    if b.cooldownMs ≤ now - b.openedAt then s.goto i (.swap b.openedAt) else s.goto i .idle
  | .swap _ =>
    match b.raw with
    | .opened => (s.write { b with raw := .halfOpen }).goto i .resetTrials
    | _ => s.goto i .reload
  | .resetTrials => (s.write { b with successes := 0 }).goto i .idle
  | .reload => s.goto i .idle
  | .addSuccess =>
    (s.write { b with successes := b.successes + 1 }).goto i
      (if b.successThreshold ≤ b.successes + 1 then .storeClosed else .idle)
  | .clearFailures => (s.write { b with failures := 0 }).goto i .idle
  | .addFailure =>
    (s.write { b with failures := b.failures + 1 }).goto i
      (if b.failureThreshold ≤ b.failures + 1 then .storeOpen else .idle)
  | .storeOpen =>
    { (s.write { b with raw := .opened }).goto i .openClock with
      openedSince := if b.raw = .opened then s.openedSince else some s.clock }
  | .openClock => s.goto i (.storeOpenedAt s.clock)
  | .storeOpenedAt now => (s.write { b with openedAt := now }).goto i .openReset
  | .openReset => (s.write { b with successes := 0 }).goto i .idle
  | .storeClosed => (s.write { b with raw := .closed }).goto i .closeFailures
  | .closeFailures => (s.write { b with failures := 0 }).goto i .closeSuccesses
  | .closeSuccesses => (s.write { b with successes := 0 }).goto i .idle

end State

def apply (s : State ι) : Event ι → State ι
  | .enter i op =>
    match s.caller i with
    | .idle => s.enter i op
    | _ => s
  | .step i => s.step i
  | .tick ms => { s with clock := s.clock + ms }

def run (s : State ι) (events : List (Event ι)) : State ι := events.foldl apply s

omit [DecidableEq ι] in
/-- What a step learns of the word: what it loads, or what it makes of it. -/
def observes (s : State ι) : Event ι → Option CircuitState
  | .enter i _ =>
    match s.caller i with
    | .idle => some s.words.raw
    | _ => none
  | .step i =>
    match s.caller i with
    | .swap _ => if s.words.raw = .opened then some .halfOpen else none
    | .reload => some s.words.raw
    | _ => none
  | .tick _ => none

end

end Routeplane.Atomics
