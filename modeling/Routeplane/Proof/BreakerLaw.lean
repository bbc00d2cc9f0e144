import Routeplane.Router.Atomics
import Routeplane.Router.Breaker
import Mathlib.Data.List.Induction
import Mathlib.Data.List.Basic

/-!
# The law of a breaker

What a circuit breaker is for, as a machine of its own: it counts consecutive failures while
closed, stands open for a cooldown that nothing prolongs, and counts successes while half-open.
The breaker of the router is compared with it over whole runs.

Opening a breaker writes its word first and the time of the opening later, and reading its state
takes a load, a second load and a swap. In between, the word and the time may be of two openings.

* `Law.next`: the law. `CircuitBreaker.view`: what of a breaker the law speaks of.
* `follows_law_iff`: a run follows the law iff no failure recorded while open moves the opening.
* `late_failure_prolongs`: a failure of a request already in flight prolongs the cooldown.
* `alone_state`, `alone_recordSuccess`, `alone_recordFailure`: an operation that nobody interrupts
  is the one of `CircuitBreaker`.
* `Inv.apply`: what every step keeps, if no swap is decided on the time of an earlier opening.
* `no_early_halfOpen`: then nobody sees the breaker half-open before its cooldown is over.
* `halfOpen_at_once`: a breaker half-open in the millisecond it was opened.
-/

namespace Routeplane

/-- A result is recorded, or the state is asked for. -/
inductive BreakerEvent
  | success (now : ℕ)
  | failure (now : ℕ)
  | query (now : ℕ)
  deriving DecidableEq, Repr

def BreakerEvent.now : BreakerEvent → ℕ
  | success now | failure now | query now => now

namespace CircuitBreaker

def apply (b : CircuitBreaker) : BreakerEvent → CircuitBreaker
  | .success _ => b.recordSuccess
  | .failure now => b.recordFailure now
  | .query now => b.heal now

def run (b : CircuitBreaker) (events : List BreakerEvent) : CircuitBreaker := events.foldl apply b

end CircuitBreaker

/-! ## The law -/

/-- Closed after some consecutive failures, open since a moment, or half-open after some
successes. -/
inductive Law
  | closed (failures : ℕ)
  | opened (since : ℕ)
  | halfOpen (successes : ℕ)
  deriving DecidableEq, Repr

namespace Law

/-- A threshold of none is met by the first result. -/
def next (failureThreshold successThreshold cooldownMs : ℕ) : Law → BreakerEvent → Law
  | closed _, .success _ => closed 0
  | closed f, .failure now =>
    if f + 1 = max failureThreshold 1 then opened now else closed (f + 1)
  | opened since, .query now => if since + cooldownMs ≤ now then halfOpen 0 else opened since
  | halfOpen s, .success _ =>
    if s + 1 = max successThreshold 1 then closed 0 else halfOpen (s + 1)
  | halfOpen _, .failure now => opened now
  | law, _ => law

end Law

namespace CircuitBreaker

/-- The law's run for the settings of a breaker, from closed. -/
def law (b : CircuitBreaker) (events : List BreakerEvent) : Law :=
  events.foldl (Law.next b.failureThreshold b.successThreshold b.cooldownMs) (.closed 0)

/-- What of a breaker the law speaks of. -/
def view (b : CircuitBreaker) : Law :=
  match b.raw with
  | .closed => .closed b.failures
  | .opened => .opened b.openedAt
  | .halfOpen => .halfOpen b.successes

/-- In every state on the way the breaker is where the law puts it. -/
def FollowsLaw (b : CircuitBreaker) (events : List BreakerEvent) : Prop :=
  ∀ n ≤ events.length, (b.run (events.take n)).view = b.law (events.take n)

/-- A failure recorded while open does not open again: it comes short of the threshold, or at the
very moment of the opening. -/
def Settled (b : CircuitBreaker) : BreakerEvent → Prop
  | .failure now => b.raw = .opened →
      b.failures + 1 < b.failureThreshold ∨ now = b.openedAt
  | _ => True

instance (b : CircuitBreaker) : DecidablePred b.Settled
  | .failure now => inferInstanceAs (Decidable (b.raw = .opened →
      b.failures + 1 < b.failureThreshold ∨ now = b.openedAt))
  | .success _ => .isTrue trivial
  | .query _ => .isTrue trivial

/-- No failure of a run opens the breaker again. -/
def AllSettled (b : CircuitBreaker) (events : List BreakerEvent) : Prop :=
  ∀ n, (h : n < events.length) → (b.run (events.take n)).Settled events[n]

/-! ## One event -/

variable {b : CircuitBreaker} {e : BreakerEvent} {now : ℕ}

@[simp] theorem failureThreshold_apply : (b.apply e).failureThreshold = b.failureThreshold := by
  unfold apply recordSuccess recordFailure heal
  cases e <;> simp only <;> repeat' split
  all_goals rfl

@[simp] theorem successThreshold_apply : (b.apply e).successThreshold = b.successThreshold := by
  unfold apply recordSuccess recordFailure heal
  cases e <;> simp only <;> repeat' split
  all_goals rfl

@[simp] theorem cooldownMs_apply : (b.apply e).cooldownMs = b.cooldownMs := by
  unfold apply recordSuccess recordFailure heal
  cases e <;> simp only <;> repeat' split
  all_goals rfl

/-- A counter is short of its threshold while it counts, and an opening is not in the future. -/
def Counting (b : CircuitBreaker) (now : ℕ) : Prop :=
  match b.raw with
  | .closed => b.failures < max b.failureThreshold 1
  | .opened => b.openedAt ≤ now
  | .halfOpen => b.successes < max b.successThreshold 1

theorem Counting.apply (h : b.Counting now) (hnow : now ≤ e.now) : (b.apply e).Counting e.now := by
  unfold Counting at h
  cases e with
  | success now =>
    unfold CircuitBreaker.apply recordSuccess
    cases hraw : b.raw with
    | halfOpen =>
      rw [hraw] at h
      simp only
      split
      · simp only [Counting, close]
        omega
      · simp only [Counting]
        omega
    | closed =>
      simp only [Counting]
      omega
    | opened =>
      rw [hraw] at h
      simp only [Counting]
      exact Nat.le_trans h hnow
  | failure now =>
    unfold CircuitBreaker.apply recordFailure
    cases hraw : b.raw with
    | halfOpen => simp [Counting, openAt, BreakerEvent.now]
    | closed =>
      rw [hraw] at h
      simp only
      split
      · simp [Counting, openAt, BreakerEvent.now]
      · simp only [Counting]
        omega
    | opened =>
      rw [hraw] at h
      simp only
      split
      · simp [Counting, openAt, BreakerEvent.now]
      · simp only [Counting]
        exact Nat.le_trans h hnow
  | query now =>
    show (b.heal now).Counting now
    unfold heal
    split
    · simp only [Counting]
      omega
    · unfold Counting
      cases hraw : b.raw with
      | halfOpen =>
        rw [hraw] at h
        exact h
      | closed =>
        rw [hraw] at h
        exact h
      | opened =>
        rw [hraw] at h
        exact Nat.le_trans h hnow

/-- **One event keeps to the law iff it is settled.** -/
theorem view_apply_iff (h : b.Counting now) (hnow : now ≤ e.now) :
    (b.apply e).view = Law.next b.failureThreshold b.successThreshold b.cooldownMs b.view e ↔
      b.Settled e := by
  unfold Counting at h
  cases e with
  | success now =>
    refine iff_of_true ?_ trivial
    unfold CircuitBreaker.apply recordSuccess view
    cases hraw : b.raw with
    | halfOpen =>
      simp only [hraw] at h
      simp only [Law.next]
      by_cases hle : b.successThreshold ≤ b.successes + 1
      · have hlast : b.successes + 1 = max b.successThreshold 1 := by omega
        rw [if_pos hle, if_pos hlast]
        rfl
      · have hmore : b.successes + 1 ≠ max b.successThreshold 1 := by omega
        rw [if_neg hle, if_neg hmore]
    | closed => simp [Law.next]
    | opened => simp [Law.next]
  | failure now =>
    unfold CircuitBreaker.apply recordFailure view Settled
    cases hraw : b.raw with
    | halfOpen => simp [openAt, Law.next]
    | closed =>
      simp only [hraw] at h
      simp only [Law.next]
      by_cases hle : b.failureThreshold ≤ b.failures + 1
      · have hlast : b.failures + 1 = max b.failureThreshold 1 := by omega
        rw [if_pos hle, if_pos hlast]
        simp [openAt]
      · have hmore : b.failures + 1 ≠ max b.failureThreshold 1 := by omega
        rw [if_neg hle, if_neg hmore]
        simp
    | opened =>
      -- the law lets nothing recorded here move the opening
      simp only [Law.next]
      by_cases hle : b.failureThreshold ≤ b.failures + 1
      · rw [if_pos hle]
        simp only [openAt, Law.opened.injEq, true_implies]
        omega
      · rw [if_neg hle]
        simp only [true_implies, true_iff]
        omega
  | query now =>
    refine iff_of_true ?_ trivial
    unfold CircuitBreaker.apply heal view
    cases hraw : b.raw with
    | halfOpen => simp [hraw, Law.next]
    | closed => simp [hraw, Law.next]
    | opened =>
      rw [hraw] at h
      have ho : b.openedAt ≤ now := Nat.le_trans h hnow
      simp only [true_and, Law.next]
      by_cases hle : b.cooldownMs ≤ now - b.openedAt
      · rw [if_pos hle, if_pos (by omega)]
      · rw [if_neg hle, if_neg (by omega)]
        simp [hraw]

theorem Counting.mono {later : ℕ} (h : b.Counting now) (hle : now ≤ later) : b.Counting later := by
  unfold Counting at h ⊢
  split
  · rename_i hraw
    rw [hraw] at h
    exact h
  · rename_i hraw
    rw [hraw] at h
    exact Nat.le_trans h hle
  · rename_i hraw
    rw [hraw] at h
    exact h

/-! ## Whole runs -/

/-- Times that never go back. -/
def Clocked (events : List BreakerEvent) : Prop := events.Pairwise fun e e' => e.now ≤ e'.now

section Run

variable {failureThreshold successThreshold cooldownMs : ℕ} {before events : List BreakerEvent}

theorem run_snoc : b.run (events ++ [e]) = (b.run events).apply e := by
  unfold run
  rw [List.foldl_append]
  rfl

theorem law_snoc : b.law (events ++ [e]) =
    Law.next b.failureThreshold b.successThreshold b.cooldownMs (b.law events) e := by
  unfold law
  rw [List.foldl_append]
  rfl

theorem settings_run : (b.run events).failureThreshold = b.failureThreshold ∧
    (b.run events).successThreshold = b.successThreshold ∧
    (b.run events).cooldownMs = b.cooldownMs := by
  induction events using List.reverseRecOn with
  | nil => exact ⟨rfl, rfl, rfl⟩
  | append_singleton events e ih =>
    rw [run_snoc, failureThreshold_apply, successThreshold_apply, cooldownMs_apply]
    exact ih

/-- By induction on the run, one event at a time. -/
theorem counting_run (hclock : Clocked events) (hlast : ∀ e ∈ events, e.now ≤ now) :
    ((withConfig failureThreshold successThreshold cooldownMs).run events).Counting now := by
  induction events using List.reverseRecOn generalizing now with
  | nil =>
    show 0 < max failureThreshold 1
    omega
  | append_singleton events e ih =>
    obtain ⟨hbefore, -, hle⟩ := List.pairwise_append.1 hclock
    have hcount := ih hbefore fun a ha => hle a ha e (List.mem_singleton.2 rfl)
    rw [run_snoc]
    have hnow : e.now ≤ now := hlast e (List.mem_append_right _ (List.mem_singleton.2 rfl))
    exact (hcount.apply (Nat.le_refl _)).mono hnow

/-- One more event on a run that is with the law so far. -/
theorem law_step (hclock : Clocked (before ++ [e]))
    (h : ((withConfig failureThreshold successThreshold cooldownMs).run before).view =
      (withConfig failureThreshold successThreshold cooldownMs).law before) :
    ((withConfig failureThreshold successThreshold cooldownMs).run (before ++ [e])).view =
        (withConfig failureThreshold successThreshold cooldownMs).law (before ++ [e]) ↔
      ((withConfig failureThreshold successThreshold cooldownMs).run before).Settled e := by
  obtain ⟨hbefore, -, hle⟩ := List.pairwise_append.1 hclock
  have hcount : ((withConfig failureThreshold successThreshold cooldownMs).run before).Counting
      e.now :=
    counting_run hbefore fun a ha => hle a ha e (List.mem_singleton.2 rfl)
  obtain ⟨hft, hst, hcd⟩ : (((withConfig failureThreshold successThreshold cooldownMs).run
        before).failureThreshold = _ ∧ _ = _ ∧ _ = _) := settings_run
  rw [run_snoc, law_snoc, ← h, ← view_apply_iff hcount (Nat.le_refl _), hft, hst, hcd]

/-- **A run follows the law iff no failure recorded while open opens again.** -/
theorem follows_law_iff (failureThreshold successThreshold cooldownMs : ℕ)
    (events : List BreakerEvent) (hclock : Clocked events) :
    (withConfig failureThreshold successThreshold cooldownMs).FollowsLaw events ↔
      (withConfig failureThreshold successThreshold cooldownMs).AllSettled events := by
  have hstep : ∀ n, (h : n < events.length) → Clocked (events.take n ++ [events[n]]) := by
    intro n h
    rw [List.take_append_getElem]
    exact List.Pairwise.sublist (List.take_sublist _ _) hclock
  constructor
  · intro hfollows n h
    have hnext := hfollows (n + 1) h
    rw [← List.take_append_getElem h] at hnext
    exact (law_step (hstep n h) (hfollows n (Nat.le_of_lt h))).1 hnext
  · -- by induction on the part of the run gone so far
    intro hsettled n hn
    induction n with
    | zero => rfl
    | succ n ih =>
      have hhere := ih (Nat.le_of_succ_le hn)
      rw [← List.take_append_getElem hn]
      exact (law_step (hstep n hn) hhere).2 (hsettled n hn)

end Run

/-! ## A failure that comes late -/

/-- Five failures at once open the breaker. -/
def fiveFailures : List BreakerEvent := List.replicate 5 (.failure 0)

/-- With no failure between the opening and the first query the breaker keeps to the law. -/
theorem follows_law_undisturbed : new.AllSettled (fiveFailures ++ [.query 30000]) ∧
    new.FollowsLaw (fiveFailures ++ [.query 30000]) := by
  have hclock : Clocked (fiveFailures ++ [.query 30000]) := by
    unfold Clocked
    decide
  have hsettled : new.AllSettled (fiveFailures ++ [.query 30000]) := by
    unfold AllSettled
    decide
  exact ⟨hsettled, (follows_law_iff 5 3 30000 _ hclock).2 hsettled⟩

/-- **A failure of a request already in flight prolongs the cooldown**: recorded 20 seconds after
the opening, it has the breaker open at 30 seconds, when the law has it half-open. -/
theorem late_failure_prolongs :
    ¬ new.FollowsLaw (fiveFailures ++ [.failure 20000, .query 30000]) := by
  intro hfollows
  have hlast := hfollows 7 (by decide)
  exact absurd hlast (by decide)

end CircuitBreaker

end Routeplane

/-! ## An open breaker under concurrent callers -/

namespace Routeplane.Atomics

section

variable {ι : Type} [DecidableEq ι] {s : State ι} {e : Event ι}

/-! ## A caller alone -/

/-- An operation and its steps, five at most. -/
def alone (i : ι) (op : Op) : List (Event ι) := .enter i op :: List.replicate 5 (.step i)

theorem run_alone {i : ι} (h : s.caller i = .idle) (op : Op) :
    run s (alone i op) = (((((s.enter i op).step i).step i).step i).step i).step i := by
  simp [run, alone, apply, h, List.replicate]

theorem alone_state {i : ι} (h : s.caller i = .idle) :
    (run s (alone i .state)).words = s.words.heal s.clock := by
  rw [run_alone h]
  unfold CircuitBreaker.heal
  cases hraw : s.words.raw with
  | opened =>
    simp only [State.enter, hraw]
    by_cases hle : s.words.cooldownMs ≤ s.clock - s.words.openedAt
    · simp [State.step, State.goto, State.write, hle, hraw]
    · simp [State.step, State.goto, hle]
  | closed => simp [State.enter, State.step, hraw, h]
  | halfOpen => simp [State.enter, State.step, hraw, h]

theorem alone_recordSuccess {i : ι} (h : s.caller i = .idle) :
    (run s (alone i .recordSuccess)).words = s.words.recordSuccess := by
  rw [run_alone h]
  unfold CircuitBreaker.recordSuccess
  cases hraw : s.words.raw with
  | halfOpen =>
    simp only [State.enter, hraw]
    by_cases hle : s.words.successThreshold ≤ s.words.successes + 1
    · simp [State.step, State.goto, State.write, hle, CircuitBreaker.close]
    · simp [State.step, State.goto, State.write, hle, hraw]
  | closed => simp [State.enter, State.step, State.goto, State.write, hraw]
  | opened => simp [State.enter, State.step, State.goto, State.write, hraw]

theorem alone_recordFailure {i : ι} (h : s.caller i = .idle) :
    (run s (alone i .recordFailure)).words = s.words.recordFailure s.clock := by
  rw [run_alone h]
  unfold CircuitBreaker.recordFailure
  by_cases hle : s.words.failureThreshold ≤ s.words.failures + 1
  · cases hraw : s.words.raw <;>
      simp [State.enter, State.step, State.goto, State.write, hraw, hle, CircuitBreaker.openAt]
  · cases hraw : s.words.raw <;>
      simp [State.enter, State.step, State.goto, State.write, hraw, hle, CircuitBreaker.openAt]

/-! ## Callers interleaved -/

omit [DecidableEq ι] in
/-- Half-open is seen, or made, no earlier than the cooldown after the latest opening. -/
def NotEarly (s : State ι) (e : Event ι) : Prop :=
  observes s e = some .halfOpen → ∀ since ∈ s.openedSince, since + s.words.cooldownMs ≤ s.clock

omit [DecidableEq ι] in
/-- A swap to half-open is decided on a time that is not older than the latest opening. -/
def Fresh (s : State ι) : Event ι → Prop
  | .step i => ∀ openedAt ∈ (s.caller i).decidedBy, s.words.raw = .opened →
      ∀ since ∈ s.openedSince, since ≤ openedAt
  | _ => True

omit [DecidableEq ι] in
instance (s : State ι) : DecidablePred (Fresh s)
  | .enter _ _ => .isTrue trivial
  | .step i => inferInstanceAs (Decidable (∀ openedAt ∈ (s.caller i).decidedBy,
      s.words.raw = .opened → ∀ since ∈ s.openedSince, since ≤ openedAt))
  | .tick _ => .isTrue trivial

theorem Phase.decidedBy_eq {ph : Phase} {openedAt : ℕ} (h : ph = .swap openedAt) :
    openedAt ∈ ph.decidedBy := by
  subst h
  rfl

/-- Openings lie in the past, a half-open word is past its cooldown, and a caller about to swap
has found the cooldown over for the time it read. -/
structure Inv (s : State ι) : Prop where
  past : ∀ since ∈ s.openedSince, since ≤ s.clock
  due : s.words.raw = .halfOpen → ∀ since ∈ s.openedSince, since + s.words.cooldownMs ≤ s.clock
  read : ∀ i now, s.caller i = .readOpenedAt now → now ≤ s.clock
  decided : ∀ i openedAt, s.caller i = .swap openedAt →
    s.words.cooldownMs = 0 ∨ openedAt + s.words.cooldownMs ≤ s.clock

omit [DecidableEq ι] in
theorem Inv.start (words : CircuitBreaker) (clock : ℕ) : Inv (start words clock : State ι) where
  past since h := by cases h
  due _ since h := by cases h
  read i now h := by cases h
  decided i openedAt h := by cases h

/-- A caller moves on, keeping what its next step relies on. -/
theorem Inv.goto (h : Inv s) (i : ι) {ph : Phase}
    (hread : ∀ now, ph = .readOpenedAt now → now ≤ s.clock)
    (hdecided : ∀ openedAt, ph = .swap openedAt →
      s.words.cooldownMs = 0 ∨ openedAt + s.words.cooldownMs ≤ s.clock) : Inv (s.goto i ph) where
  past := h.past
  due := h.due
  read j now hj := by
    unfold State.goto at hj
    by_cases hji : j = i
    · subst hji
      simp only [Function.update_self] at hj
      exact hread now hj
    · simp only [Function.update_of_ne hji] at hj
      exact h.read j now hj
  decided j openedAt hj := by
    unfold State.goto at hj
    by_cases hji : j = i
    · subst hji
      simp only [Function.update_self] at hj
      exact hdecided openedAt hj
    · simp only [Function.update_of_ne hji] at hj
      exact h.decided j openedAt hj

/-- A caller moves on to a step that relies on nothing it has read. -/
theorem Inv.goto_plain (h : Inv s) (i : ι) {ph : Phase} (hread : ∀ now, ph ≠ .readOpenedAt now)
    (hswap : ∀ openedAt, ph ≠ .swap openedAt) : Inv (s.goto i ph) :=
  h.goto i (fun now hph => absurd hph (hread now)) fun openedAt hph => absurd hph (hswap openedAt)

omit [DecidableEq ι] in
/-- A store that does not turn the word half-open. -/
theorem Inv.write (h : Inv s) {b : CircuitBreaker} (hcd : b.cooldownMs = s.words.cooldownMs)
    (hraw : b.raw = .halfOpen → s.words.raw = .halfOpen) : Inv (s.write b) where
  past := h.past
  due hb since hs := by
    have hover := h.due (hraw hb) since hs
    show since + b.cooldownMs ≤ s.clock
    omega
  read := h.read
  decided i openedAt hi := by
    have hdecided := h.decided i openedAt hi
    show b.cooldownMs = 0 ∨ openedAt + b.cooldownMs ≤ s.clock
    omega

/-- One case for each operation and each state of the word. -/
theorem Inv.enter (h : Inv s) (i : ι) (op : Op) : Inv (s.enter i op) := by
  unfold State.enter
  cases op with
  | state =>
    simp only
    split
    · exact h.goto_plain i (fun _ => Phase.noConfusion) fun _ => Phase.noConfusion
    · exact h
  | recordSuccess =>
    simp only
    split <;> exact h.goto_plain i (fun _ => Phase.noConfusion) fun _ => Phase.noConfusion
  | recordFailure =>
    simp only
    split <;> exact h.goto_plain i (fun _ => Phase.noConfusion) fun _ => Phase.noConfusion

/-- One case for each phase; only the swap needs to be fresh. -/
theorem Inv.step (h : Inv s) (i : ι) (hfresh : Fresh s (.step i)) : Inv (s.step i) := by
  have hplain : ∀ {s' : State ι} {ph : Phase}, Inv s' → (∀ now, ph ≠ .readOpenedAt now) →
      (∀ openedAt, ph ≠ .swap openedAt) → Inv (s'.goto i ph) :=
    fun h' hread hswap => h'.goto_plain i hread hswap
  unfold State.step
  cases hph : s.caller i with
  | idle => exact h
  | readClock =>
    refine h.goto i (fun now heq => ?_) fun openedAt heq => by cases heq
    cases heq
    exact Nat.le_refl _
  | readOpenedAt now =>
    have hnow := h.read i now hph
    simp only
    split
    · rename_i hle
      refine h.goto i (fun now' heq => by cases heq) fun openedAt heq => ?_
      cases heq
      omega
    · exact hplain h (fun _ => Phase.noConfusion) fun _ => Phase.noConfusion
  | swap openedAt =>
    have hdecided := h.decided i openedAt hph
    simp only
    split
    · rename_i hraw
      refine hplain ?_ (fun _ => Phase.noConfusion) fun _ => Phase.noConfusion
      refine ⟨h.past, fun _ since hs => ?_, h.read, h.decided⟩
      have hold : since ≤ openedAt := hfresh openedAt (Phase.decidedBy_eq hph) hraw since hs
      have hpast := h.past since hs
      show since + s.words.cooldownMs ≤ s.clock
      omega
    · exact hplain h (fun _ => Phase.noConfusion) fun _ => Phase.noConfusion
  | storeOpen =>
    -- the one step that may be an opening
    have hopen : Inv (s.write { s.words with raw := .opened }) :=
      h.write rfl fun hraw => by cases hraw
    have hnext : Inv ((s.write { s.words with raw := .opened }).goto i .openClock) :=
      hplain hopen (fun _ => Phase.noConfusion) fun _ => Phase.noConfusion
    refine ⟨fun since hs => ?_, fun hraw => (by cases hraw), hnext.read, hnext.decided⟩
    simp only at hs
    split at hs
    · exact h.past since hs
    · cases hs
      exact Nat.le_refl _
  | openClock =>
    refine h.goto i (fun now heq => by cases heq) fun openedAt heq => by cases heq
  | storeClosed =>
    have hclosed : Inv (s.write { s.words with raw := .closed }) :=
      h.write rfl fun hraw => by cases hraw
    exact hplain hclosed (fun _ => Phase.noConfusion) fun _ => Phase.noConfusion
  | addSuccess =>
    have hcount : Inv (s.write { s.words with successes := s.words.successes + 1 }) :=
      h.write rfl id
    simp only
    split <;> exact hplain hcount (fun _ => Phase.noConfusion) fun _ => Phase.noConfusion
  | addFailure =>
    have hcount : Inv (s.write { s.words with failures := s.words.failures + 1 }) :=
      h.write rfl id
    simp only
    split <;> exact hplain hcount (fun _ => Phase.noConfusion) fun _ => Phase.noConfusion
  | reload => exact hplain h (fun _ => Phase.noConfusion) fun _ => Phase.noConfusion
  | resetTrials | clearFailures | storeOpenedAt | openReset | closeFailures | closeSuccesses =>
    exact hplain (h.write rfl id) (fun _ => Phase.noConfusion) fun _ => Phase.noConfusion

/-- **What every step keeps**, as long as no swap is decided on an earlier opening. -/
theorem Inv.apply (h : Inv s) (hfresh : Fresh s e) : Inv (apply s e) := by
  unfold Atomics.apply
  cases e with
  | enter i op =>
    simp only
    split
    · exact h.enter i op
    · exact h
  | step i => exact h.step i hfresh
  | tick ms =>
    refine ⟨fun since hs => ?_, fun hraw since hs => ?_, fun i now hi => ?_, fun i openedAt hi => ?_⟩
    · have hpast := h.past since hs
      show since ≤ s.clock + ms
      omega
    · have hover := h.due hraw since hs
      show since + s.words.cooldownMs ≤ s.clock + ms
      omega
    · have hread := h.read i now hi
      show now ≤ s.clock + ms
      omega
    · have hdecided := h.decided i openedAt hi
      show s.words.cooldownMs = 0 ∨ openedAt + s.words.cooldownMs ≤ s.clock + ms
      omega

omit [DecidableEq ι] in
/-- A step that sees the word half-open finds it so, or makes it so by a fresh swap. -/
theorem Inv.notEarly (h : Inv s) (hfresh : Fresh s e) : NotEarly s e := by
  intro hsees since hs
  unfold observes at hsees
  cases e with
  | enter i op =>
    simp only at hsees
    split at hsees
    · exact h.due (Option.some.inj hsees) since hs
    · cases hsees
  | step i =>
    simp only at hsees
    split at hsees
    · rename_i openedAt hph
      split at hsees
      · rename_i hraw
        have hdecided := h.decided i openedAt hph
        have hold : since ≤ openedAt := hfresh openedAt (Phase.decidedBy_eq hph) hraw since hs
        have hpast := h.past since hs
        omega
      · cases hsees
    · exact h.due (Option.some.inj hsees) since hs
    · cases hsees
  | tick ms => cases hsees

theorem run_take_succ (s : State ι) {events : List (Event ι)} {n : ℕ} (hn : n < events.length) :
    run s (events.take (n + 1)) = apply (run s (events.take n)) events[n] := by
  unfold run
  rw [← List.take_append_getElem hn, List.foldl_append]
  rfl

/-- **No early half-open.** In every run whose swaps are fresh, nobody sees the breaker half-open
before the cooldown of its latest opening is over. -/
theorem no_early_halfOpen (words : CircuitBreaker) (clock : ℕ) (events : List (Event ι))
    (hfresh : ∀ n, (h : n < events.length) →
      Fresh (run (start words clock) (events.take n)) events[n]) :
    ∀ n, (h : n < events.length) → NotEarly (run (start words clock) (events.take n)) events[n] := by
  have hinv : ∀ n, n ≤ events.length → Inv (run (start words clock) (events.take n)) := by
    intro n
    induction n with
    | zero => exact fun _ => Inv.start words clock
    | succ n ih =>
      intro hn
      rw [run_take_succ _ hn]
      exact (ih (Nat.le_of_lt hn)).apply (hfresh n hn)
  intro n hn
  exact (hinv n (Nat.le_of_lt hn)).notEarly (hfresh n hn)

end

/-! ## Between the two stores -/

/-- Four recorded failures of one caller, and the load and the count of a fifth. -/
def fifthFailure : List (Event Bool) :=
  (List.replicate 4 [.enter true .recordFailure, .step true]).flatten ++
    [.enter true .recordFailure, .step true]

/-- The rest of the fifth failure, the cooldown, and a call of `state`. -/
def afterCooldown : List (Event Bool) :=
  fifthFailure ++ [.step true, .step true, .step true, .step true, .tick 30000,
    .enter false .state, .step false, .step false, .step false, .step false]

/-- With the failures recorded first, the state is half-open when its cooldown is over. -/
theorem no_early_halfOpen_afterCooldown :
    observes (run (start .new 100000) (afterCooldown.take 18)) (.step false) = some .halfOpen ∧
      NotEarly (run (start .new 100000) (afterCooldown.take 18)) (.step false) := by
  have hfresh : ∀ n, (h : n < afterCooldown.length) →
      Fresh (run (start .new 100000) (afterCooldown.take n)) afterCooldown[n] := by
    decide
  exact ⟨by decide, no_early_halfOpen .new 100000 afterCooldown hfresh 18 (by decide)⟩

/-- The word is stored, the time of the opening is not yet, and a call of `state` gets in. -/
def betweenStores : List (Event Bool) :=
  fifthFailure ++ [.step true, .enter false .state, .step false, .step false]

/-- **Half-open at once**: the swap of the second caller is decided on the time 0 of a breaker
that was never opened before, in the millisecond of the opening. -/
theorem halfOpen_at_once :
    ¬ NotEarly (run (start .new 100000) betweenStores) (.step false) := by
  intro h
  have hsees : observes (run (start .new 100000) betweenStores) (.step false) = some .halfOpen := by
    decide
  exact absurd (h hsees 100000 (by decide)) (by decide)

end Routeplane.Atomics
