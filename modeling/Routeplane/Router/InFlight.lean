import Routeplane.Router.Atomics
import Routeplane.Router.Health
import Mathlib.Algebra.BigOperators.Group.Finset.Basic
import Mathlib.Data.Fintype.Basic

/-!
# The in-flight gauges, one atomic step at a time

Any number of callers enter providers, probe them, drop their guards and register providers, and
the steps of different callers come in any order. The registry is a snapshot that is swapped whole;
a cell, once made, keeps its gauge, and a guard owns a clone of it. What the breaker answers a
probe is left open.

* `Phase`: the step a caller takes next. `apply`: one step.
* `State.guards`: the live guards of a cell.

Every endpoint asks the tracker whether a provider is available before it calls it: a load of the
gauge and a read of the breaker. A chat request goes on to a probe, which takes a guard and with it a
place in the gauge; a request to another endpoint calls its provider with no guard, and so does the
embedding that a chat request asks for to look into the semantic cache. A streamed chat request drops
its guard with the first chunk, so its call counts until then. The breakers and the gauges take their
own atomic steps, in any order; who records a result with a breaker, and when, is left open.

* `Trials.Visit`: where a request is besides its guard. `Trials.apply`: one step.
* `Trials.State.trials`: the calls under way that were started while the breaker was half-open.
-/

namespace Routeplane.InFlight

/-- The cell of each registered `(owner, provider)`. -/
abbrev Providers := String → String → Option ℕ

/-- The tenant's own cell, else the shared one. -/
def Providers.withHealth (p : Providers) (owner provider : String) : Option ℕ :=
  (p owner provider).or (p globalOwner provider)

/-- `or_insert_with`. -/
def Providers.insert (p : Providers) (owner name : String) (cell : ℕ) : Providers :=
  fun o n => if o = owner ∧ n = name then (p owner name).or (some cell) else p o n

/-- The step a caller takes next. -/
inductive Phase
  | idle
  /-- The cell is found: clone its gauge. -/
  | cloning (cell : ℕ) (probe : Bool)
  /-- `try_enter_probe`: the breaker's state. -/
  | asking (cell : ℕ)
  /-- ... half-open: the gauge. -/
  | loading (cell : ℕ)
  /-- ... under the cap: one more, unless the gauge has moved. -/
  | reserving (cell cur : ℕ)
  /-- `enter_in_flight`, or the probe of a closed breaker. -/
  | adding (cell : ℕ)
  /-- A live guard. -/
  | holding (cell : ℕ)
  /-- `register` of a provider that is not there: the snapshot. -/
  | registering (owner name : String)
  /-- ... and its extended copy, unless another was swapped in. -/
  | swapping (owner name : String) (snapshot : Providers) (version : ℕ)

/-- The registry with its version, the number of cells made so far with the gauge and the success
threshold of each, and where each caller is. -/
structure State (ι : Type) where
  providers : Providers
  version : ℕ
  cells : ℕ
  count : ℕ → ℕ
  successThreshold : ℕ → ℕ
  caller : ι → Phase

inductive Event (ι : Type)
  | enterInFlight (i : ι) (owner provider : String)
  | tryEnterProbe (i : ι) (owner provider : String)
  | register (i : ι) (owner name : String)
  /-- The breaker answers. -/
  | answer (i : ι) (state : CircuitState)
  /-- A weak swap fails for no reason. -/
  | miss (i : ι)
  /-- The caller's next step; the drop, when it has a guard. -/
  | step (i : ι)
  deriving DecidableEq, Repr

/-- The caller an event is about. -/
def Event.caller {ι : Type} : Event ι → ι
  | .enterInFlight i _ _ | .tryEnterProbe i _ _ | .register i _ _ => i
  | .answer i _ | .miss i | .step i => i

/-- More clones of one gauge end the process. -/
def maxRefcount : ℕ := 2 ^ 63 - 1

section

variable {ι : Type}

/-- The built-ins under `globalOwner`, each with a cell of its own. -/
def start (builtins : List String) (successThreshold : ℕ → ℕ) : State ι where
  providers owner name :=
    if owner = globalOwner ∧ name ∈ builtins then some (builtins.idxOf name) else none
  version := 0
  cells := builtins.length
  count _ := 0
  successThreshold := successThreshold
  caller _ := .idle

/-- Whether a caller has a clone of the gauge. -/
def Phase.clones (cell : ℕ) : Phase → ℕ
  | .asking c | .loading c | .reserving c _ | .adding c | .holding c => if c = cell then 1 else 0
  | _ => 0

def Phase.guards (cell : ℕ) : Phase → ℕ
  | .holding c => if c = cell then 1 else 0
  | _ => 0

namespace State

/-- The live guards of a cell. -/
def guards [Fintype ι] (s : State ι) (cell : ℕ) : ℕ := ∑ i, (s.caller i).guards cell

/-- The cell's own reference to its gauge and the callers' clones. -/
def strongCount [Fintype ι] (s : State ι) (cell : ℕ) : ℕ := 1 + ∑ i, (s.caller i).clones cell

variable [DecidableEq ι]

def goto (s : State ι) (i : ι) (phase : Phase) : State ι :=
  { s with caller := Function.update s.caller i phase }

omit [DecidableEq ι] in
def store (s : State ι) (cell count : ℕ) : State ι :=
  { s with count := Function.update s.count cell count }

/-- Find the cell in one load of the snapshot; an unknown provider goes untracked. -/
def withHealth (s : State ι) (i : ι) (owner provider : String) (probe : Bool) : State ι :=
  match s.providers.withHealth owner provider with
  | some cell => s.goto i (.cloning cell probe)
  | none => s

/-- Every step of a call but the first and the breaker's answer. -/
def step [Fintype ι] (s : State ι) (i : ι) : State ι :=
  match s.caller i with
  | .idle | .asking _ => s
  | .cloning cell probe =>
    if s.strongCount cell ≤ maxRefcount then
      s.goto i (if probe then .asking cell else .adding cell)
    else s
  | .loading cell =>
    let cur := s.count cell
    if s.successThreshold cell ≤ cur then s.goto i .idle else s.goto i (.reserving cell cur)
  | .reserving cell cur =>
    if s.count cell = cur then (s.store cell (cur + 1)).goto i (.holding cell)
    else s.goto i (.loading cell)
  | .adding cell => (s.store cell ((s.count cell + 1) % 2 ^ 64)).goto i (.holding cell)
  -- the guard's drop: the subtraction wraps
  | .holding cell => (s.store cell ((s.count cell + (2 ^ 64 - 1)) % 2 ^ 64)).goto i .idle
  | .registering owner name => s.goto i (.swapping owner name s.providers s.version)
  | .swapping owner name snapshot version =>
    if s.version = version then
      { (s.store s.cells 0).goto i .idle with
        providers := snapshot.insert owner name s.cells
        version := version + 1
        cells := s.cells + 1 }
    else s.goto i (.swapping owner name s.providers s.version)

end State

variable [DecidableEq ι] [Fintype ι]

def apply (s : State ι) : Event ι → State ι
  | .enterInFlight i owner provider =>
    match s.caller i with
    | .idle => s.withHealth i owner provider false
    | _ => s
  | .tryEnterProbe i owner provider =>
    match s.caller i with
    | .idle => s.withHealth i owner provider true
    | _ => s
  | .register i owner name =>
    match s.caller i with
    | .idle => if (s.providers owner name).isSome then s else s.goto i (.registering owner name)
    | _ => s
  | .answer i state =>
    match s.caller i, state with
    | .asking _, .opened => s.goto i .idle
    | .asking cell, .closed => s.goto i (.adding cell)
    | .asking cell, .halfOpen => s.goto i (.loading cell)
    | _, _ => s
  | .miss i =>
    match s.caller i with
    | .reserving cell _ => s.goto i (.loading cell)
    | _ => s
  | .step i => s.step i

end

end Routeplane.InFlight

namespace Routeplane.Trials

/-- Where a request is besides its guard. -/
inductive Visit
  | idle
  /-- `is_available`: the gauge is loaded, the breaker's state comes next. -/
  | checking (owner provider : String) (cell inFlight : ℕ) (isChat : Bool)
  | available (owner provider : String) (cell : ℕ) (isChat : Bool)
  /-- A call without a guard, and the breaker's word when it was started. -/
  | calling (cell : ℕ) (startedIn : CircuitState)

structure State (ι : Type) where
  flight : InFlight.State ι
  breakers : ℕ → Atomics.State ι
  visit : ι → Visit
  /-- The breaker's word when a caller last took a guard. -/
  taken : ι → CircuitState

inductive Event (ι : Type)
  /-- A request to chat, or to another endpoint or for an embedding, asks for the provider. -/
  | check (i : ι) (owner provider : String) (isChat : Bool)
  /-- An operation of a breaker, for a check, a probe or a result. -/
  | enter (i : ι) (cell : ℕ) (op : Atomics.Op)
  | breaker (i : ι) (cell : ℕ)
  | tick (ms : ℕ)
  /-- `try_enter_probe`, by a chat request. -/
  | probe (i : ι)
  /-- The next step of a probe or a registration; the end of the call, of one that has a guard. -/
  | gauge (i : ι)
  | miss (i : ι)
  | register (i : ι) (owner name : String)
  /-- A request to another endpoint, or for an embedding, calls its provider. -/
  | dispatch (i : ι)
  | finish (i : ι)
  deriving DecidableEq, Repr

/-- `CircuitBreaker::admits`, of the state that was read. -/
def admitsIn (state : CircuitState) (successThreshold inFlight : ℕ) : Bool :=
  match state with
  | .closed => true
  | .opened => false
  | .halfOpen => inFlight < successThreshold

section

variable {ι : Type}

def start (builtins : List String) (words : ℕ → CircuitBreaker) (clock : ℕ) : State ι where
  flight := InFlight.start builtins fun cell => (words cell).successThreshold
  breakers cell := Atomics.start (words cell) clock
  visit _ := .idle
  taken _ := .closed

/-- What `state` returns, when a step ends it. -/
def stateRead (b : Atomics.State ι) : Atomics.Event ι → Option CircuitState
  | .enter i .state =>
    match b.caller i, b.words.raw with
    | .idle, .closed => some .closed
    | .idle, .halfOpen => some .halfOpen
    | _, _ => none
  | .step i =>
    match b.caller i with
    | .readOpenedAt now =>
      if b.words.cooldownMs ≤ now - b.words.openedAt then none else some .opened
    | .resetTrials => some .halfOpen
    | .reload => some b.words.raw
    | _ => none
  | _ => none

/-- The call of a request without a guard, if it was started while the breaker was half-open. -/
def Visit.trials (cell : ℕ) : Visit → ℕ
  | .calling c .halfOpen => if c = cell then 1 else 0
  | _ => 0

namespace State

/-- A guard that was taken while the breaker was half-open. -/
def guardedTrials (s : State ι) (cell : ℕ) (i : ι) : ℕ :=
  if s.taken i = .halfOpen then (s.flight.caller i).guards cell else 0

/-- The calls to a provider under way that were started while its breaker was half-open, a streamed
one until its first chunk. -/
def trials [Fintype ι] (s : State ι) (cell : ℕ) : ℕ :=
  ∑ i, s.guardedTrials cell i + ∑ i, (s.visit i).trials cell

variable [DecidableEq ι]

def goto (s : State ι) (i : ι) (visit : Visit) : State ι :=
  { s with visit := Function.update s.visit i visit }

variable [Fintype ι]

/-- A step of the gauges; a guard that is taken is taken under the breaker's word. -/
def moveGauge (s : State ι) (i : ι) (e : InFlight.Event ι) : State ι :=
  let flight := InFlight.apply s.flight e
  let taken :=
    match (s.flight.caller i), (flight.caller i) with
    | .holding _, _ => s.taken
    | _, .holding cell => Function.update s.taken i (s.breakers cell).words.raw
    | _, _ => s.taken
  { s with flight, taken }

/-- A probe that asked for the state goes on. -/
def tellProbe (s : State ι) (i : ι) (cell : ℕ) (state : CircuitState) : State ι :=
  match s.flight.caller i with
  | .asking c => if c = cell then s.moveGauge i (.answer i state) else s
  | _ => s

/-- A check that asked for the state is answered. -/
def tellCheck (s : State ι) (i : ι) (cell : ℕ) (state : CircuitState) : State ι :=
  match s.visit i with
  | .checking owner provider c inFlight isChat =>
    if c = cell then
      if admitsIn state (s.breakers c).words.successThreshold inFlight then
        s.goto i (.available owner provider c isChat)
      else s.goto i .idle
    else s
  | _ => s

def moveBreaker (s : State ι) (i : ι) (cell : ℕ) (e : Atomics.Event ι) : State ι :=
  let b := s.breakers cell
  let s := { s with breakers := Function.update s.breakers cell (Atomics.apply b e) }
  match stateRead b e with
  | some state => (s.tellProbe i cell state).tellCheck i cell state
  | none => s

end State

variable [DecidableEq ι] [Fintype ι]

def apply (s : State ι) : Event ι → State ι
  | .check i owner provider isChat =>
    match s.visit i, s.flight.caller i, s.flight.providers.withHealth owner provider with
    | .idle, .idle, some cell =>
      s.goto i (.checking owner provider cell (s.flight.count cell) isChat)
    | _, _, _ => s
  | .enter i cell op => s.moveBreaker i cell (.enter i op)
  | .breaker i cell => s.moveBreaker i cell (.step i)
  | .tick ms => { s with breakers := fun cell => Atomics.apply (s.breakers cell) (.tick ms) }
  | .probe i =>
    match s.visit i with
    | .available owner provider _ true =>
      (s.moveGauge i (.tryEnterProbe i owner provider)).goto i .idle
    | _ => s
  | .gauge i => s.moveGauge i (.step i)
  | .miss i => s.moveGauge i (.miss i)
  | .register i owner name => s.moveGauge i (.register i owner name)
  | .dispatch i =>
    match s.visit i with
    | .available _ _ cell false => s.goto i (.calling cell (s.breakers cell).words.raw)
    | _ => s
  | .finish i =>
    match s.visit i with
    | .calling _ _ => s.goto i .idle
    | _ => s

end

end Routeplane.Trials
