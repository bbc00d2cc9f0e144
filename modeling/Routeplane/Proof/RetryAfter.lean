import Routeplane.Limits.Calendar
import Routeplane.Proof.Admit
import Routeplane.Proof.Swap

/-!
# What a denial announces

A denial names a limit, when its window ends and how many seconds to wait. The limit is that of a
counter which has reached it, and requests cannot move a counter that has: only a settlement or a
swap changes what the announcement rests on.

* `ScopePolicy.check_eq`: the check asks one counter after the other.
* `LimitGuards.admitRequest_reached`, `admitRequest_denied`: a denial names a counter at its limit,
  and such a counter denies.
* `Live.Inv.quiet_run`: it stays there through any run of requests within its window.
* `retry_after_truthful`: what a denial announces comes true.
-/

namespace Routeplane.Limits

/-! ## The counters of a scope -/

/-- The counters of a scope that a limit is held against. -/
inductive Counter
  | req
  | tokRate
  | costDaily
  | costMonthly
  | tokDaily
  | tokMonthly
  deriving DecidableEq, Repr

namespace Counter

def word (c : Counters) : Counter → ℕ
  | .req => c.req
  | .tokRate => c.tokRate
  | .costDaily => c.costDaily
  | .costMonthly => c.costMonthly
  | .tokDaily => c.tokDaily
  | .tokMonthly => c.tokMonthly

variable (s : ScopePolicy) (nowMs : ℕ)

def limit : Counter → Option ℕ
  | .req => s.requestsPerMin
  | .tokRate => s.tokensPerMin
  | .costDaily => s.costDaily
  | .costMonthly => s.costMonthly
  | .tokDaily => s.tokensDaily
  | .tokMonthly => s.tokensMonthly

def mode : Counter → LimitMode
  | .req | .tokRate => s.rateMode
  | _ => s.budgetMode

def kind : Counter → LimitKind
  | .req => .rateRequests
  | .tokRate => .rateTokens
  | .costDaily | .costMonthly => .budgetCost
  | .tokDaily | .tokMonthly => .budgetTokens

def epoch : Counter → ℕ
  | .req | .tokRate => minuteEpoch nowMs
  | .costDaily | .tokDaily => dayEpoch nowMs s.anchorOffsetMinutes
  | .costMonthly | .tokMonthly => monthEpoch nowMs s.anchorOffsetMinutes

def resetMs : Counter → ℕ
  | .req | .tokRate => minuteResetMs nowMs
  | .costDaily | .tokDaily => dayResetMs nowMs s.anchorOffsetMinutes
  | .costMonthly | .tokMonthly => monthResetMs nowMs s.anchorOffsetMinutes

/-- What the counter reads at a moment. -/
def read (c : Counters) (k : Counter) : ℕ := peek (k.epoch s nowMs) (k.word c)

def breach (k : Counter) (l : ℕ) : Breach :=
  ⟨k.kind, s.scope, s.policyId, l, some (k.resetMs s nowMs), nowMs⟩

/-- A hard limit that the counter has reached. -/
def Reached (c : Counters) (k : Counter) (l : ℕ) : Prop :=
  k.mode s = .hard ∧ k.limit s = some l ∧ l ≤ k.read s nowMs c

end Counter

namespace ScopePolicy

variable {s : ScopePolicy} {c : Counters} {nowMs l : ℕ} {b : Breach} {k : Counter}

/-- What a counter is asked for a breach. -/
def ask (s : ScopePolicy) (c : Counters) (nowMs : ℕ) (k : Counter) : Option Breach :=
  if k.mode s = .hard then reached (k.limit s) (k.read s nowMs c) (k.breach s nowMs) else none

theorem ask_eq_some : s.ask c nowMs k = some b ↔
    ∃ l, k.Reached s nowMs c l ∧ b = k.breach s nowMs l := by
  unfold ask reached Counter.Reached
  constructor
  · intro hb
    split at hb
    · rename_i hmode
      cases hl : k.limit s with
      | none =>
        rw [hl] at hb
        cases hb
      | some l =>
        rw [hl] at hb
        dsimp only at hb
        split at hb
        · rename_i hle
          exact ⟨l, ⟨hmode, rfl, hle⟩, (Option.some.inj hb).symm⟩
        · cases hb
    · cases hb
  · rintro ⟨l, ⟨hmode, hl, hle⟩, rfl⟩
    rw [if_pos hmode, hl]
    exact if_pos hle

theorem isHard_iff (m : LimitMode) : m.isHard = true ↔ m = .hard := by
  cases m with
  | hard => exact iff_of_true (by decide) (by decide)
  | soft => exact iff_of_false (by decide) (by decide)

theorem budgetBreach_daily :
    s.budgetBreach nowMs .budgetCost false = Counter.costDaily.breach s nowMs ∧
      s.budgetBreach nowMs .budgetTokens false = Counter.tokDaily.breach s nowMs := by
  unfold budgetBreach Counter.breach Counter.resetMs
  simp only [Bool.false_eq_true, if_false]
  exact ⟨rfl, rfl⟩

theorem budgetBreach_monthly :
    s.budgetBreach nowMs .budgetCost true = Counter.costMonthly.breach s nowMs ∧
      s.budgetBreach nowMs .budgetTokens true = Counter.tokMonthly.breach s nowMs := by
  unfold budgetBreach Counter.breach Counter.resetMs
  simp only [if_true]
  exact ⟨rfl, rfl⟩

/-- The check asks one counter after the other. -/
theorem check_eq (s : ScopePolicy) (c : Counters) (nowMs : ℕ) :
    s.check c nowMs =
      (s.ask c nowMs .tokRate).orElse fun _ => (s.ask c nowMs .costDaily).orElse
        fun _ => (s.ask c nowMs .costMonthly).orElse
        fun _ => (s.ask c nowMs .tokDaily).orElse fun _ => s.ask c nowMs .tokMonthly := by
  unfold check
  have hrate : s.rateBreach nowMs .rateTokens = Counter.tokRate.breach s nowMs := rfl
  simp only [isHard_iff, hrate, budgetBreach_daily.1, budgetBreach_daily.2,
    budgetBreach_monthly.1, budgetBreach_monthly.2]
  unfold ask Counter.read Counter.mode Counter.limit Counter.epoch Counter.word
  dsimp only
  by_cases hmode : s.budgetMode = .hard
  · simp only [hmode, if_true]
  · simp only [hmode, if_false]
    rfl

theorem check_eq_none : s.check c nowMs = none ↔ ∀ k ≠ Counter.req, s.ask c nowMs k = none := by
  rw [check_eq]
  constructor
  · intro h k hk
    simp only [Option.orElse_eq_or, Option.or_eq_none_iff] at h
    obtain ⟨h1, h2, h3, h4, h5⟩ := h
    cases k with
    | req => exact absurd rfl hk
    | tokRate => exact h1
    | costDaily => exact h2
    | costMonthly => exact h3
    | tokDaily => exact h4
    | tokMonthly => exact h5
  · intro h
    simp only [Option.orElse_eq_or, Option.or_eq_none_iff]
    exact ⟨h _ (by decide), h _ (by decide), h _ (by decide), h _ (by decide), h _ (by decide)⟩

/-- A breach of the check names a counter that has reached its limit. -/
theorem check_reached : ∀ b ∈ s.check c nowMs,
    ∃ (k : Counter) (l : ℕ), k.Reached s nowMs c l ∧ b = k.breach s nowMs l := by
  have hask : ∀ k : Counter, ∀ b ∈ s.ask c nowMs k,
      ∃ (k : Counter) (l : ℕ), k.Reached s nowMs c l ∧ b = k.breach s nowMs l :=
    fun k b hb => ⟨k, ask_eq_some.1 hb⟩
  rw [check_eq]
  exact of_orElse (hask _) (of_orElse (hask _) (of_orElse (hask _) (of_orElse (hask _) (hask _))))

theorem reached_req_iff : (∃ l, Counter.req.Reached s nowMs c l) ↔ s.Full c nowMs := by
  constructor
  · rintro ⟨l, hmode, hl, hle⟩
    exact ⟨hmode, l, hl, hle⟩
  · rintro ⟨hmode, l, hl, hle⟩
    exact ⟨l, hmode, hl, hle⟩

/-- A refusal of the request window changes nothing and names the limit it has reached. -/
theorem consumeRequest_reached (hb : (s.consumeRequest c nowMs).1 = some b) :
    (s.consumeRequest c nowMs).2 = c ∧
      ∃ l, Counter.req.Reached s nowMs c l ∧ b = Counter.req.breach s nowMs l := by
  by_cases hfull : s.Full c nowMs
  · obtain ⟨l, hl, heq⟩ := consumeRequest_full hfull
    obtain ⟨hmode, l', hl', hle⟩ := hfull
    have hsame : l = l' := Option.some.inj (Eq.trans hl.symm hl')
    rw [heq] at hb ⊢
    exact ⟨rfl, l, ⟨hmode, hl, by rw [hsame]; exact hle⟩, (Option.some.inj hb).symm⟩
  · cases hlimit : s.requestsPerMin with
    | none =>
      rw [consumeRequest_none hlimit] at hb
      cases hb
    | some limit =>
      rw [consumeRequest_some hlimit hfull] at hb
      cases hb

/-- A request slot is taken from no other counter. -/
theorem consumeRequest_word (hk : k ≠ .req) :
    k.word (s.consumeRequest c nowMs).2 = k.word c := by
  cases k with
  | req => exact absurd rfl hk
  | tokRate => rfl
  | costDaily => rfl
  | costMonthly => rfl
  | tokDaily => rfl
  | tokMonthly => rfl

end ScopePolicy

/-! ## A denial -/

namespace LimitGuards

variable {g : LimitGuards} {s : ScopeSlot} {ss : List ScopeSlot} {nowMs l : ℕ} {h h' : Heap}
  {b : Breach} {k : Counter}

theorem consumeAll_reached (hb : consumeAll nowMs ss h = (some b, h')) :
    ∃ s ∈ ss, ∃ l, Counter.req.Reached s.policy nowMs (h'.get s) l ∧
      b = Counter.req.breach s.policy nowMs l := by
  induction ss generalizing h with
  | nil => cases hb
  | cons s ss ih =>
    unfold consumeAll at hb
    generalize hc : s.policy.consumeRequest (h.get s) nowMs = x at hb
    obtain ⟨o, c⟩ := x
    cases o with
    | none =>
      obtain ⟨t, ht, hrest⟩ := ih hb
      exact ⟨t, List.mem_cons_of_mem _ ht, hrest⟩
    | some b' =>
      obtain ⟨hbreach, rfl⟩ := Prod.mk.inj hb
      obtain rfl := Option.some.inj hbreach
      obtain ⟨hsame, l, hl, heq⟩ := ScopePolicy.consumeRequest_reached (congrArg Prod.fst hc)
      rw [hc] at hsame
      refine ⟨s, List.mem_cons_self, l, ?_, heq⟩
      rw [Heap.get_set_self, show c = h.get s from hsame]
      exact hl

/-- **A denial names a counter of one of the scopes that has reached its limit.** -/
theorem admitRequest_reached (hd : g.admitRequest nowMs h = (.denied b, h')) :
    ∃ s ∈ g.scopes, ∃ (k : Counter) (l : ℕ), k.Reached s.policy nowMs (h'.get s) l ∧
      b = k.breach s.policy nowMs l := by
  unfold admitRequest at hd
  cases hb : g.firstBreach nowMs h with
  | some b' =>
    rw [hb] at hd
    obtain ⟨hden, rfl⟩ := Prod.mk.inj hd
    obtain rfl := Admission.denied.inj hden
    obtain ⟨s, hs, hcheck⟩ := List.exists_of_findSome?_eq_some hb
    obtain ⟨k, l, hr, heq⟩ := ScopePolicy.check_reached _ hcheck
    exact ⟨s, hs, k, l, hr, heq⟩
  | none =>
    rw [hb] at hd
    dsimp only at hd
    cases hc : consumeAll nowMs g.scopes h with
    | mk o h'' =>
      rw [hc] at hd
      cases o with
      | none => cases hd
      | some b' =>
        obtain ⟨hden, rfl⟩ := Prod.mk.inj hd
        obtain rfl := Admission.denied.inj hden
        obtain ⟨s, hs, l, hr, heq⟩ := consumeAll_reached hc
        exact ⟨s, hs, .req, l, hr, heq⟩

theorem consumeAll_full (hkinds : ss.Pairwise fun s t => s.policy.scope ≠ t.policy.scope)
    (hs : s ∈ ss) (hfull : s.policy.Full (h.get s) nowMs) :
    ∃ b, (consumeAll nowMs ss h).1 = some b := by
  induction ss generalizing h with
  | nil => cases hs
  | cons t ss ih =>
    obtain ⟨hhead, htail⟩ := List.pairwise_cons.1 hkinds
    unfold consumeAll
    generalize hc : t.policy.consumeRequest (h.get t) nowMs = x
    obtain ⟨o, c⟩ := x
    cases o with
    | some b => exact ⟨b, rfl⟩
    | none =>
      rcases List.mem_cons.1 hs with rfl | hs
      · obtain ⟨_, _, heq⟩ := ScopePolicy.consumeRequest_full hfull
        rw [heq] at hc
        cases hc
      · have hother : ¬t.Aliases s := fun ha => hhead s hs ha.1
        refine ih htail hs ?_
        rw [Heap.get_set_of_not_aliases _ _ hother]
        exact hfull

/-- A request that is held to a counter at its limit is denied. -/
theorem admitRequest_denied (hs : s ∈ g.scopes) (hr : k.Reached s.policy nowMs (h.get s) l) :
    (g.admitRequest nowMs h).1.isAllowed = false := by
  unfold admitRequest
  cases hb : g.firstBreach nowMs h with
  | some b => rfl
  | none =>
    have hnone : s.policy.check (h.get s) nowMs = none := List.findSome?_eq_none_iff.1 hb s hs
    by_cases hk : k = .req
    · subst hk
      obtain ⟨b, hfull⟩ := consumeAll_full g.scopes_kinds hs
        (ScopePolicy.reached_req_iff.1 ⟨l, hr⟩)
      generalize consumeAll nowMs g.scopes h = x at hfull
      obtain ⟨o, h'⟩ := x
      obtain rfl : o = some b := hfull
      rfl
    · have hask := ScopePolicy.check_eq_none.1 hnone k hk
      rw [ScopePolicy.ask_eq_some.2 ⟨l, hr, rfl⟩] at hask
      cases hask

end LimitGuards

/-! ## After a denial -/

namespace Counter

/-- The moments at which the window of a counter is a window of the calendar. -/
def Timely (s : ScopePolicy) (nowMs : ℕ) : Counter → Prop
  | .req | .tokRate => True
  | .costDaily | .tokDaily => 0 ≤ shifted nowMs s.anchorOffsetMinutes
  | .costMonthly | .tokMonthly => 0 ≤ shifted nowMs s.anchorOffsetMinutes ∧
      monthIndex nowMs s.anchorOffsetMinutes < lastMonth

variable {s : ScopePolicy} {c : Counters} {k : Counter} {nowMs t l : ℕ}

theorem ends (h : k.Timely s nowMs) : Ends (k.epoch s ·) nowMs (k.resetMs s nowMs) := by
  cases k with
  | req => exact minute_ends nowMs
  | tokRate => exact minute_ends nowMs
  | costDaily => exact day_ends h
  | tokDaily => exact day_ends h
  | costMonthly => exact month_ends h.1 h.2
  | tokMonthly => exact month_ends h.1 h.2

/-- A limit that was reached is reached until the window ends. -/
theorem Reached.until (h : k.Reached s nowMs c l) (hk : k.Timely s nowMs) (hle : nowMs ≤ t)
    (hlt : t < k.resetMs s nowMs) : k.Reached s t c l := by
  obtain ⟨hmode, hl, hread⟩ := h
  have hsame : k.epoch s t = k.epoch s nowMs := (ends hk).before t hle hlt
  refine ⟨hmode, hl, ?_⟩
  unfold read at hread ⊢
  rw [hsame]
  exact hread

/-- A word that counts in one window reads zero in the next. -/
theorem peek_next {e p : ℕ} (h : 0 < peek e p) : peek (e + 1) p = 0 := by
  unfold peek at h ⊢
  rw [and_epochMask] at h ⊢
  dsimp only at h ⊢
  split at h
  · rename_i he
    have hother : e % 2 ^ 24 ≠ (e + 1) % 2 ^ 24 := by omega
    rw [he, if_neg hother]
  · omega

/-- A positive limit that was reached is out of reach once the announced wait is over. -/
theorem Reached.over (h : k.Reached s nowMs c l) (hk : k.Timely s nowMs) (hpos : 0 < l) :
    k.read s (nowMs + 1000 * resetSecs (k.resetMs s nowMs) nowMs) c = 0 := by
  obtain ⟨-, -, hread⟩ := h
  have hends := ends hk
  obtain ⟨hreach, hshort⟩ := resetSecs_spec hends.lt
  have hnext : k.epoch s (nowMs + 1000 * resetSecs (k.resetMs s nowMs) nowMs) =
      k.epoch s nowMs + 1 := hends.after _ hreach hshort
  unfold read at hread ⊢
  rw [hnext]
  exact peek_next (by omega)

end Counter

namespace Live

/-- An event between two moments that neither settles nor swaps. -/
def Quiet (lo hi : ℕ) : Event → Prop
  | .resolve _ _ _ => True
  | .take _ nowMs => lo ≤ nowMs ∧ nowMs ≤ hi
  | .settle _ _ _ _ => False
  | .swap _ => False

instance (lo hi : ℕ) : DecidablePred (Quiet lo hi)
  | .resolve _ _ _ => isTrue trivial
  | .take _ _ => inferInstanceAs (Decidable (_ ∧ _))
  | .settle _ _ _ _ | .swap _ => isFalse id

variable {own : Owners} {σ : Live} {s : ScopeSlot} {k : Counter} {e : Event} {events : List Event}
  {nowMs t l : ℕ}

/-- **One quiet event** leaves a counter that has reached its limit as it is. -/
theorem Inv.quiet_apply (hi : Inv own σ) (he : σ.Enabled e) (hs : s ∈ σ.held)
    (hr : k.Reached s.policy nowMs (σ.heap.get s) l) (hk : k.Timely s.policy nowMs)
    (ht : t < k.resetMs s.policy nowMs) (hq : Quiet nowMs t e) :
    s ∈ (σ.apply e).held ∧ k.word ((σ.apply e).heap.get s) = k.word (σ.heap.get s) := by
  cases e with
  | resolve key tenant m => exact ⟨List.mem_append_right _ hs, rfl⟩
  | settle u nowMs' totalTokens cost => exact hq.elim
  | swap entries => exact hq.elim
  | take u nowMs' =>
    refine ⟨hs, ?_⟩
    show Counter.word ((σ.heap.set u _).get s) k = _
    by_cases ha : u.Aliases s
    · -- the address is the scope's own, so the slot is
      obtain ⟨id, howned⟩ := hi.held s hs
      obtain ⟨id', howned'⟩ := hi.held u he
      rw [ha.2, howned] at howned'
      obtain ⟨-, rfl⟩ := Prod.mk.inj (Option.some.inj howned')
      rw [Heap.get_set_self]
      by_cases hreq : k = .req
      · -- a full window of the minute refuses
        subst hreq
        have hthen := hr.until hk hq.1 (lt_of_le_of_lt hq.2 ht)
        obtain ⟨_, _, heq⟩ :=
          ScopePolicy.consumeRequest_full (ScopePolicy.reached_req_iff.1 ⟨l, hthen⟩)
        rw [heq]
      · exact ScopePolicy.consumeRequest_word hreq
    · rw [Heap.get_set_of_not_aliases _ _ ha]

/-- A counter that has reached its limit is left as it is by any quiet run. -/
theorem Inv.quiet_run (hi : Inv own σ) (hrun : σ.Runs events) (hs : s ∈ σ.held)
    (hr : k.Reached s.policy nowMs (σ.heap.get s) l) (hk : k.Timely s.policy nowMs)
    (ht : t < k.resetMs s.policy nowMs) (hq : ∀ e ∈ events, Quiet nowMs t e) :
    k.Reached s.policy nowMs ((σ.run events).heap.get s) l := by
  induction events generalizing σ own with
  | nil => exact hr
  | cons e events ih =>
    obtain ⟨own', -, hi'⟩ := hi.apply hrun.1
    obtain ⟨hs', hword⟩ := hi.quiet_apply hrun.1 hs hr hk ht (hq e List.mem_cons_self)
    have hr' : k.Reached s.policy nowMs ((σ.apply e).heap.get s) l := by
      unfold Counter.Reached Counter.read at hr ⊢
      rw [hword]
      exact hr
    exact ih hi' hrun.2 hs' hr' fun e he => hq e (List.mem_cons_of_mem _ he)

theorem consumeAll_inv {ss : List ScopeSlot} (hi : Inv own σ) (hs : ∀ s ∈ ss, s ∈ σ.held) :
    Inv own { σ with heap := (consumeAll nowMs ss σ.heap).2 } := by
  induction ss generalizing σ with
  | nil => exact hi
  | cons s ss ih =>
    have hrest : ∀ s ∈ ss, s ∈ σ.held := fun t ht => hs t (List.mem_cons_of_mem _ ht)
    unfold consumeAll
    generalize s.policy.consumeRequest (σ.heap.get s) nowMs = x
    obtain ⟨o, c⟩ := x
    have hset := hi.set (hs s List.mem_cons_self) c
    cases o with
    | some b => exact hset
    | none => exact ih hset hrest

/-- An admission takes slots of scopes the request holds. -/
theorem Inv.decided {g : LimitGuards} {a : Admission} {h : Heap} (hi : Inv own σ)
    (hg : ∀ s ∈ g.scopes, s ∈ σ.held) (ha : g.admitRequest nowMs σ.heap = (a, h)) :
    Inv own { σ with heap := h } := by
  have hheap : (g.admitRequest nowMs σ.heap).2 = h := congrArg Prod.snd ha
  unfold LimitGuards.admitRequest at hheap
  cases hb : g.firstBreach nowMs σ.heap with
  | some b =>
    rw [hb] at hheap
    rw [← hheap]
    exact hi
  | none =>
    have hall : Inv own { σ with heap := (consumeAll nowMs g.scopes σ.heap).2 } :=
      consumeAll_inv hi hg
    rw [hb] at hheap
    dsimp only at hheap
    rw [← hheap]
    generalize consumeAll nowMs g.scopes σ.heap = x at hall
    obtain ⟨o, h'⟩ := x
    cases o with
    | some b => exact hall
    | none => exact hall

/-- What a denial by the counter `k` of `s` announces comes true: `r` is the first moment of
another window; until then, and without settlements and swaps, the limit stays reached and whoever
is held to it is denied; and after the announced wait the counter of a positive limit reads zero. -/
structure Truthful (σ : Live) (s : ScopeSlot) (k : Counter) (l nowMs r wait : ℕ) : Prop where
  least : IsLeast {t | nowMs < t ∧ k.epoch s.policy t ≠ k.epoch s.policy nowMs} r
  persists : ∀ events t, σ.Runs events → (∀ e ∈ events, Quiet nowMs t e) → nowMs ≤ t → t < r →
    l ≤ k.read s.policy t ((σ.run events).heap.get s) ∧
      ∀ g : LimitGuards, s ∈ g.scopes →
        (g.admitRequest t (σ.run events).heap).1.isAllowed = false
  lapses : 0 < l → ∀ events, σ.Runs events → (∀ e ∈ events, Quiet nowMs (r - 1) e) →
    k.read s.policy (nowMs + 1000 * wait) ((σ.run events).heap.get s) = 0

theorem Inv.truthful (hi : Inv own σ) (hs : s ∈ σ.held)
    (hr : k.Reached s.policy nowMs (σ.heap.get s) l) (hk : k.Timely s.policy nowMs) :
    Truthful σ s k l nowMs (k.resetMs s.policy nowMs)
      (resetSecs (k.resetMs s.policy nowMs) nowMs) := by
  have hends := Counter.ends hk
  refine ⟨hends.isLeast, ?_, ?_⟩
  · intro events t hrun hq hle ht
    have hthen := (hi.quiet_run hrun hs hr hk ht hq).until hk hle ht
    exact ⟨hthen.2.2, fun g hg => LimitGuards.admitRequest_denied hg hthen⟩
  · intro hpos events hrun hq
    have hlt : k.resetMs s.policy nowMs - 1 < k.resetMs s.policy nowMs := by
      have hpast := hends.lt
      omega
    exact (hi.quiet_run hrun hs hr hk hlt hq).over hk hpos

end Live

/-- **A denial announces the truth.** In service, whatever came before: every denial of a request
names a counter of one of its scopes that reads at least its hard limit, and its reset and its wait
hold of that counter, for a monthly budget as long as the calendar has a next month. -/
theorem retry_after_truthful (entries : List KeyLimitsInput) (maxReplicas : ℕ) (past : List Event)
    (hpast : (Live.start entries maxReplicas).Runs past) :
    let σ := (Live.start entries maxReplicas).run past
    ∀ (g : LimitGuards) nowMs b h, (∀ s ∈ g.scopes, s ∈ σ.held) →
      g.admitRequest nowMs σ.heap = (.denied b, h) →
      ∃ s ∈ g.scopes, ∃ (k : Counter) (l r wait : ℕ),
        k.mode s.policy = .hard ∧ k.limit s.policy = some l ∧
        l ≤ k.read s.policy nowMs (h.get s) ∧
        b = ⟨k.kind, s.policy.scope, s.policy.policyId, l, some r, nowMs⟩ ∧
        b.retryAfterSecs = some wait ∧
        (k.Timely s.policy nowMs → Live.Truthful { σ with heap := h } s k l nowMs r wait) := by
  obtain ⟨own, hstart⟩ := Live.Inv.start entries maxReplicas
  obtain ⟨own', -, hi⟩ := hstart.run hpast
  intro σ g nowMs b h hg hd
  obtain ⟨s, hs, k, l, hr, rfl⟩ := LimitGuards.admitRequest_reached hd
  refine ⟨s, hs, k, l, _, _, hr.1, hr.2.1, hr.2.2, rfl, rfl, fun hk => ?_⟩
  exact (hi.decided hg hd).truthful (hg s hs) hr hk

/-! ## Where it holds and where not -/

/-- A key with one policy. -/
def oneKey (key tenant : Option LimitPolicy) : List KeyLimitsInput := [⟨"k", "t", ⟨key, tenant, []⟩⟩]

/-- The key's scope, as it is compiled first. -/
def keySlot (p : LimitPolicy) : List ScopeSlot :=
  (ScopePolicy.fromPolicy .key p "key:k" 1).toList.map (⟨·, 0⟩)

/-- A request has its guards and records its usage. -/
def usedBy (p : LimitPolicy) (nowMs totalTokens : ℕ) : Live :=
  (Live.start (oneKey (some p) none) 1).run
    (.resolve "k" "t" none :: (keySlot p).map (.settle · nowMs totalTokens 0))

def askedAt (σ : Live) (nowMs : ℕ) : Admission × Heap :=
  (σ.guardsOf "k" "t" none).admitRequest nowMs σ.heap

/-- A token a month. -/
def monthly : LimitPolicy := { budget := some { tokensMonthly := some 1 } }

/-- The last second of February 2024: the budget is spent, and free again in the next. -/
theorem february_truthful :
    ∃ s ∈ ((usedBy monthly 1709251199000 1).guardsOf "k" "t" none).scopes,
      ∃ (k : Counter) (l r wait : ℕ),
        k.mode s.policy = .hard ∧ k.limit s.policy = some l ∧
        l ≤ k.read s.policy 1709251199000
          ((askedAt (usedBy monthly 1709251199000 1) 1709251199000).2.get s) ∧
        (⟨.budgetTokens, .key, "key:k", 1, some 1709251200000, 1709251199000⟩ : Breach) =
          ⟨k.kind, s.policy.scope, s.policy.policyId, l, some r, 1709251199000⟩ ∧
        some 1 = some wait ∧
        (k.Timely s.policy 1709251199000 →
          Live.Truthful
            { usedBy monthly 1709251199000 1 with
              heap := (askedAt (usedBy monthly 1709251199000 1) 1709251199000).2 }
            s k l 1709251199000 r wait) :=
  retry_after_truthful (oneKey (some monthly) none) 1
    (.resolve "k" "t" none :: (keySlot monthly).map (.settle · 1709251199000 1 0))
    (by decide) ((usedBy monthly 1709251199000 1).guardsOf "k" "t" none) 1709251199000
    ⟨.budgetTokens, .key, "key:k", 1, some 1709251200000, 1709251199000⟩ _
    (by decide) (Prod.ext (by decide) rfl)

/-- Requests of a key and of its tenant in a minute. -/
def perMinute (limit : ℕ) : LimitPolicy := { rate := some { requestsPerMin := some limit } }

def crowded : Live :=
  (Live.start (oneKey (some (perMinute 2)) (some (perMinute 1))) 1).run [.resolve "k" "t" none]

/-- **Three things a denial does not promise.** In the year after the calendar's last, a spent month
resets in 1970; a limit of zero may be announced to be free while usage of the next window is on
record; and a retry may meet another limit than the one announced, which the denied request itself
has used up. -/
theorem retry_after_exceptions :
    (askedAt (usedBy monthly 8210266876800000 1) 8210266876800000).1 =
      .denied ⟨.budgetTokens, .key, "key:k", 1, some 2678400000, 8210266876800000⟩ ∧
    ((askedAt (usedBy { rate := some { tokensPerMin := some 0 } } 60500 5) 59000).1 =
        .denied ⟨.rateTokens, .key, "key:k", 0, some 60000, 59000⟩ ∧
      resetSecs 60000 59000 = 1 ∧
      (keySlot { rate := some { tokensPerMin := some 0 } }).map (fun s =>
        Counter.tokRate.read s.policy (59000 + 1000 * 1)
          ((usedBy { rate := some { tokensPerMin := some 0 } } 60500 5).heap.get s)) = [5]) ∧
    let once := { crowded with heap := (askedAt crowded 0).2 }
    let twice := { once with heap := (askedAt once 1).2 }
    (askedAt once 1).1 =
        .denied ⟨.rateRequests, .tenant, "tenant:t", 1, some 60000, 1⟩ ∧
      (askedAt twice 2).1 = .denied ⟨.rateRequests, .key, "key:k", 2, some 60000, 2⟩ := by
  decide

end Routeplane.Limits
