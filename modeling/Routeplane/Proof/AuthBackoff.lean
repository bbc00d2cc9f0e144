import Routeplane.Limits.AuthFailures

/-!
# What a throttle announces

A source is refused for as long as its window lasts, whatever the wait it was told; and only
requests that were let through count as failures, so a source that fails once after each refusal is
told the first wait again and again.

* `check_keeps_iff`: the announced wait is what is enforced iff it ends with the window.
* `escalates_iff`: longer waits are reached iff there is nothing to reach.
* `auth_backoff_iff`: both.
-/

namespace Routeplane.Limits

namespace AuthFailureTracker

variable {t : AuthFailureTracker} {source : String} {nowMs n r : ℕ}

/-- The start of the window after the one of a moment. -/
def windowEnd (cfg : AuthFailureConfig) (nowMs : ℕ) : ℕ := (cfg.epoch nowMs + 1) * cfg.windowMs

theorem lt_windowEnd (h : 1 ≤ t.cfg.windowMs) (nowMs : ℕ) : nowMs < windowEnd t.cfg nowMs := by
  unfold windowEnd AuthFailureConfig.epoch
  rw [Nat.mul_comm]
  exact Nat.lt_mul_div_succ nowMs h

/-- The moments of a window. -/
theorem epoch_eq_of_lt (hle : nowMs ≤ n) (hlt : n < windowEnd t.cfg nowMs) :
    t.cfg.epoch n = t.cfg.epoch nowMs := by
  have hge : t.cfg.epoch nowMs ≤ t.cfg.epoch n := Nat.div_le_div_right hle
  have hle' : t.cfg.epoch n < t.cfg.epoch nowMs + 1 := Nat.div_lt_of_lt_mul (by
    rw [Nat.mul_comm]
    exact hlt)
  omega

theorem epoch_windowEnd (h : 1 ≤ t.cfg.windowMs) (nowMs : ℕ) :
    t.cfg.epoch (windowEnd t.cfg nowMs) = t.cfg.epoch nowMs + 1 :=
  Nat.mul_div_cancel _ h

theorem check_throttled :
    t.check source nowMs = .throttled r ↔ t.cfg.threshold ≤ t.currentCount source nowMs ∧
      r = t.cfg.retrySecs (t.currentCount source nowMs) := by
  unfold check
  dsimp only
  split
  · rename_i h
    simp [h, eq_comm]
  · rename_i h
    simp [h]

theorem isThrottled_iff :
    (t.check source nowMs).isThrottled = true ↔ t.cfg.threshold ≤ t.currentCount source nowMs := by
  unfold check
  dsimp only
  split
  · rename_i h
    exact iff_of_true rfl h
  · rename_i h
    exact iff_of_false (by decide) h

theorem currentCount_congr (h : t.cfg.epoch n = t.cfg.epoch nowMs) :
    t.currentCount source n = t.currentCount source nowMs := by
  unfold currentCount
  rw [h]

/-- What counts in a window does not in the next. -/
theorem currentCount_next (hpos : 0 < t.currentCount source nowMs)
    (h : t.cfg.epoch n = t.cfg.epoch nowMs + 1) : t.currentCount source n = 0 := by
  unfold currentCount at hpos ⊢
  rw [h]
  simp only [AuthSlot.and_epochMask] at hpos ⊢
  split at hpos
  · rename_i he
    rw [he, if_neg (by omega)]
  · omega

/-- The wait announced at a moment is what is enforced. -/
def Keeps (t : AuthFailureTracker) (source : String) (nowMs r : ℕ) : Prop :=
  (∀ n, nowMs ≤ n → n < nowMs + 1000 * r → (t.check source n).isThrottled = true) ∧
    t.check source (nowMs + 1000 * r) = .allow

/-- **A wait is kept iff it ends with the window.** -/
theorem check_keeps_iff (h : t.check source nowMs = .throttled r) :
    t.Keeps source nowMs r ↔
      nowMs + 1000 * t.cfg.retrySecs (t.currentCount source nowMs) = windowEnd t.cfg nowMs := by
  obtain ⟨hfull, hr⟩ := check_throttled.1 h
  rw [← hr]
  have hpos : 0 < t.currentCount source nowMs := lt_of_lt_of_le t.sane.threshold_pos hfull
  have hlt := lt_windowEnd t.sane.window_pos nowMs
  have hend : t.check source (windowEnd t.cfg nowMs) = .allow := by
    have hzero := currentCount_next hpos (epoch_windowEnd t.sane.window_pos nowMs)
    have hthreshold := t.sane.threshold_pos
    unfold check
    dsimp only
    rw [hzero, if_neg (by omega)]
  have hwithin : ∀ n, nowMs ≤ n → n < windowEnd t.cfg nowMs →
      (t.check source n).isThrottled = true := by
    intro n hle hn
    rw [isThrottled_iff, currentCount_congr (epoch_eq_of_lt hle hn)]
    exact hfull
  constructor
  · rintro ⟨hbefore, hafter⟩
    rcases Nat.lt_trichotomy (nowMs + 1000 * r) (windowEnd t.cfg nowMs) with hearly | heq | hlate
    · have hstill := hwithin _ (by omega) hearly
      rw [hafter] at hstill
      cases hstill
    · exact heq
    · have hopen := hbefore _ (le_of_lt hlt) hlate
      rw [hend] at hopen
      cases hopen
  · intro heq
    rw [← heq] at hwithin hend
    exact ⟨hwithin, hend⟩

/-! ## Counting -/

theorem currentCount_le (t : AuthFailureTracker) (source : String) (nowMs : ℕ) :
    t.currentCount source nowMs ≤ AuthSlot.countMask := by
  unfold currentCount AuthSlot.unpack
  dsimp only
  split
  · rw [AuthSlot.and_countMask]
    have hlt : t.slots (t.slotIndex source) % 2 ^ 24 < 2 ^ 24 := Nat.mod_lt _ (by decide)
    unfold AuthSlot.countMask
    omega
  · exact Nat.zero_le _

/-- A failure counts one, up to what a slot can hold. -/
theorem currentCount_recordFailure (t : AuthFailureTracker) (source : String) (nowMs : ℕ) :
    (t.recordFailure source nowMs).2.currentCount source nowMs =
      min (t.currentCount source nowMs + 1) AuthSlot.countMask := by
  have hle := currentCount_le t source nowMs
  have hnext : (t.recordFailure source nowMs).2 = { t with
      slots := Function.update t.slots (t.slotIndex source)
        (AuthSlot.pack (t.cfg.epoch nowMs &&& AuthSlot.epochMask)
          (min (satAdd (t.currentCount source nowMs) 1) AuthSlot.countMask)) } := rfl
  have hsat : satAdd (t.currentCount source nowMs) 1 = t.currentCount source nowMs + 1 := by
    unfold satAdd u64Max
    unfold AuthSlot.countMask at hle
    omega
  rw [hnext, hsat]
  generalize t.currentCount source nowMs = c at *
  unfold currentCount slotIndex
  dsimp only
  rw [Function.update_self, AuthSlot.unpack_pack (min_le_right _ _), AuthSlot.and_epochMask,
    Nat.mod_mod]
  dsimp only
  rw [if_pos rfl]

end AuthFailureTracker

/-! ## Longer waits -/

namespace AuthFailureConfig

variable {cfg : AuthFailureConfig} {m n : ℕ}

/-- The longest wait. -/
def capSecs (cfg : AuthFailureConfig) : ℕ := max (ceilSecs cfg.backoffCapMs) 1

theorem retrySecs_mono (cfg : AuthFailureConfig) (h : m ≤ n) : cfg.retrySecs m ≤ cfg.retrySecs n := by
  have hshift : min (m - cfg.threshold) 40 ≤ min (n - cfg.threshold) 40 := by omega
  have hpow : 1 <<< min (m - cfg.threshold) 40 ≤ 1 <<< min (n - cfg.threshold) 40 := by
    rw [Nat.one_shiftLeft, Nat.one_shiftLeft]
    exact Nat.pow_le_pow_right (by decide) hshift
  have hmul := Nat.mul_le_mul_left cfg.backoffBaseMs hpow
  unfold retrySecs backoffMs ceilSecs satMul
  dsimp only
  omega

theorem retrySecs_le (cfg : AuthFailureConfig) (n : ℕ) : cfg.retrySecs n ≤ cfg.capSecs := by
  unfold retrySecs capSecs backoffMs ceilSecs
  dsimp only
  omega

end AuthFailureConfig

namespace Guarding

variable {σ : Guarding} {source : String} {nowMs : ℕ} {e : AuthEvent} {events more : List AuthEvent}
  {cfg : AuthFailureConfig} {hasher : String → ℕ}

theorem run_append : σ.run (events ++ more) = (σ.run events).run more := List.foldl_append

theorem runs_append : σ.Runs (events ++ more) ↔ σ.Runs events ∧ (σ.run events).Runs more := by
  induction events generalizing σ with
  | nil => exact ⟨fun h => ⟨trivial, h⟩, fun h => h.2⟩
  | cons e events ih =>
    show σ.Enabled e ∧ (σ.apply e).Runs (events ++ more) ↔
      (σ.Enabled e ∧ (σ.apply e).Runs events) ∧ ((σ.apply e).run events).Runs more
    rw [ih, and_assoc]

theorem run_cfg (σ : Guarding) (events : List AuthEvent) :
    (σ.run events).tracker.cfg = σ.tracker.cfg := by
  induction events generalizing σ with
  | nil => rfl
  | cons e events ih =>
    refine (ih _).trans ?_
    cases e with
    | check source nowMs => rfl
    | fail source nowMs => rfl

/-- So many requests, each let through and failing before the next. -/
def attempts (source : String) (nowMs : ℕ) : ℕ → List AuthEvent
  | 0 => []
  | n + 1 => .check source nowMs :: .fail source nowMs :: attempts source nowMs n

/-- **A source can fail up to the threshold in a window.** -/
theorem attempts_spec (σ : Guarding) (source : String) (nowMs n : ℕ) (hclock : σ.clock ≤ nowMs)
    (hn : σ.tracker.currentCount source nowMs + n ≤ σ.tracker.cfg.threshold) :
    σ.Runs (attempts source nowMs n) ∧ (σ.run (attempts source nowMs n)).clock ≤ nowMs ∧
      (σ.run (attempts source nowMs n)).tracker.currentCount source nowMs =
        σ.tracker.currentCount source nowMs + n := by
  induction n generalizing σ with
  | zero => exact ⟨trivial, hclock, rfl⟩
  | succ n ih =>
    have hopen : ¬(σ.tracker.check source nowMs).isThrottled = true := by
      rw [AuthFailureTracker.isThrottled_iff]
      omega
    have hin : source ∈ (σ.apply (.check source nowMs)).inFlight := by
      show source ∈ if (σ.tracker.check source nowMs).isThrottled = true then _ else _
      rw [if_neg hopen]
      exact List.mem_cons_self
    have hcount := AuthFailureTracker.currentCount_recordFailure σ.tracker source nowMs
    have hroom := σ.tracker.sane.threshold_le
    rw [min_eq_left (by omega)] at hcount
    -- the state after one request that failed
    have hstep := ih ((σ.apply (.check source nowMs)).apply (.fail source nowMs))
      (le_refl _) (by
        show (σ.tracker.recordFailure source nowMs).2.currentCount source nowMs + n ≤
          σ.tracker.cfg.threshold
        omega)
    obtain ⟨hruns, hafter, hsum⟩ := hstep
    refine ⟨⟨hclock, ⟨le_refl _, hin⟩, hruns⟩, hafter, hsum.trans ?_⟩
    show (σ.tracker.recordFailure source nowMs).2.currentCount source nowMs + n = _
    omega

theorem currentCount_start (cfg : AuthFailureConfig) (hasher : String → ℕ) (source : String)
    (nowMs : ℕ) : (start cfg hasher).tracker.currentCount source nowMs = 0 := by
  unfold AuthFailureTracker.currentCount AuthSlot.unpack
  simp [start, AuthFailureTracker.new]

/-- A source that fails again after it was refused is next refused for longer, or for the longest
time there is. -/
def Escalates (cfg : AuthFailureConfig) (hasher : String → ℕ) : Prop :=
  ∀ pre mid source nowMs nowMs' r r',
    (start cfg hasher).Runs (pre ++ .check source nowMs :: (mid ++ [.check source nowMs'])) →
    ((start cfg hasher).run pre).tracker.check source nowMs = .throttled r →
    (∃ n, .fail source n ∈ mid) →
    ((start cfg hasher).run (pre ++ .check source nowMs :: mid)).tracker.check source nowMs' =
      .throttled r' →
    r < r' ∨ r' = cfg.sanitized.capSecs

/-- **Waits escalate iff the first is the longest.** -/
theorem escalates_iff :
    Escalates cfg hasher ↔
      cfg.sanitized.retrySecs cfg.sanitized.threshold = cfg.sanitized.capSecs := by
  have hcfg : ∀ events, ((start cfg hasher).run events).tracker.cfg = cfg.sanitized :=
    run_cfg (start cfg hasher)
  constructor
  · intro hesc
    -- the threshold is reached in one window, and again in the next
    obtain ⟨hruns, hclock, hfull⟩ := attempts_spec (start cfg hasher) "" 0
      cfg.sanitized.threshold (le_refl 0) (by
        rw [currentCount_start, Nat.zero_add]
        exact le_refl _)
    rw [currentCount_start, Nat.zero_add] at hfull
    have hcfg₁ := hcfg (attempts "" 0 cfg.sanitized.threshold)
    have hstart : (start cfg hasher).run (attempts "" 0 cfg.sanitized.threshold ++
        .check "" 0 :: attempts "" cfg.sanitized.windowMs cfg.sanitized.threshold) =
        (((start cfg hasher).run (attempts "" 0 cfg.sanitized.threshold)).apply (.check "" 0)).run
          (attempts "" cfg.sanitized.windowMs cfg.sanitized.threshold) := run_append
    have hsplit : (start cfg hasher).Runs (attempts "" 0 cfg.sanitized.threshold ++
        .check "" 0 :: (attempts "" cfg.sanitized.windowMs cfg.sanitized.threshold ++
          [.check "" cfg.sanitized.windowMs])) ↔ _ := runs_append
    have hesc' := hesc (attempts "" 0 cfg.sanitized.threshold)
      (attempts "" cfg.sanitized.windowMs cfg.sanitized.threshold) "" 0 cfg.sanitized.windowMs
      (cfg.sanitized.retrySecs cfg.sanitized.threshold)
      (cfg.sanitized.retrySecs cfg.sanitized.threshold)
    rw [hsplit, hstart] at hesc'
    have hend := hcfg (attempts "" 0 cfg.sanitized.threshold ++
      .check "" 0 :: attempts "" cfg.sanitized.windowMs cfg.sanitized.threshold)
    rw [hstart] at hend
    generalize (start cfg hasher).run (attempts "" 0 cfg.sanitized.threshold) = σ at *
    have hsane := cfg.sanitized_sane
    have hthreshold := hsane.threshold_pos
    have hnext : (σ.apply (.check "" 0)).tracker.currentCount "" cfg.sanitized.windowMs = 0 := by
      have hpos : 0 < σ.tracker.currentCount "" 0 := by omega
      refine AuthFailureTracker.currentCount_next hpos ?_
      show cfg.sanitized.windowMs / σ.tracker.cfg.windowMs = 0 / σ.tracker.cfg.windowMs + 1
      rw [hcfg₁, Nat.zero_div, Nat.div_self hsane.window_pos]
    obtain ⟨hruns', hclock', hfull'⟩ := attempts_spec (σ.apply (.check "" 0)) ""
      cfg.sanitized.windowMs cfg.sanitized.threshold (Nat.zero_le _) (by
        show (σ.apply (.check "" 0)).tracker.currentCount "" cfg.sanitized.windowMs +
          cfg.sanitized.threshold ≤ σ.tracker.cfg.threshold
        rw [hnext, hcfg₁, Nat.zero_add])
    rw [hnext, Nat.zero_add] at hfull'
    have hfails : ∃ n, .fail "" n ∈ attempts "" cfg.sanitized.windowMs cfg.sanitized.threshold := by
      obtain ⟨k, hk⟩ := Nat.exists_eq_succ_of_ne_zero (Nat.pos_iff_ne_zero.1 hthreshold)
      rw [hk]
      exact ⟨cfg.sanitized.windowMs, List.mem_cons_of_mem _ List.mem_cons_self⟩
    have hwait := hesc'
      ⟨hruns, hclock, runs_append.2 ⟨hruns', hclock', trivial⟩⟩
      (AuthFailureTracker.check_throttled.2 (by rw [hfull, hcfg₁]; exact ⟨le_refl _, rfl⟩))
      hfails
      (AuthFailureTracker.check_throttled.2 (by rw [hfull', hend]; exact ⟨le_refl _, rfl⟩))
    rcases hwait with hlonger | hcap
    · exact absurd hlonger (lt_irrefl _)
    · exact hcap
  · intro hfirst pre mid source nowMs nowMs' r r' _ _ _ hsecond
    right
    obtain ⟨hfull, hr⟩ := AuthFailureTracker.check_throttled.1 hsecond
    rw [hcfg] at hfull hr
    have hge := AuthFailureConfig.retrySecs_mono cfg.sanitized hfull
    rw [← hr, hfirst] at hge
    have hle := AuthFailureConfig.retrySecs_le cfg.sanitized
      (((start cfg hasher).run (pre ++ .check source nowMs :: mid)).tracker.currentCount source
        nowMs')
    omega

end Guarding

/-- **What a throttle announces, and when it is so.** In any process and at any time: the wait a
source is told is what is enforced iff it ends with the window its failures are counted in, and over
any run in which only requests that were let through fail, the waits get longer up to the cap iff the
first is already the cap. -/
theorem auth_backoff_iff (cfg : AuthFailureConfig) (hasher : String → ℕ) :
    (∀ events source nowMs r, (Guarding.start cfg hasher).Runs events →
      let t := ((Guarding.start cfg hasher).run events).tracker
      t.check source nowMs = .throttled r →
      (t.Keeps source nowMs r ↔
        nowMs + 1000 * cfg.sanitized.retrySecs (t.currentCount source nowMs) =
          AuthFailureTracker.windowEnd cfg.sanitized nowMs)) ∧
    (Guarding.Escalates cfg hasher ↔
      cfg.sanitized.retrySecs cfg.sanitized.threshold = cfg.sanitized.capSecs) := by
  refine ⟨fun events source nowMs r _ h => ?_, Guarding.escalates_iff⟩
  have hkeeps := AuthFailureTracker.check_keeps_iff h
  rw [Guarding.run_cfg] at hkeeps
  exact hkeeps

/-- **The default configuration.** Five failures at once: the source is told to wait a second, and is
still refused after that second; and five more failures in the next minute are answered with the
same second. -/
theorem default_backoff_not_kept :
    let start := Guarding.start {} fun _ => 7
    let first := Guarding.attempts "9.9.9.9" 0 5
    let again := first ++ .check "9.9.9.9" 0 :: Guarding.attempts "9.9.9.9" 60000 5
    start.Runs (again ++ [.check "9.9.9.9" 60000]) ∧
      (start.run first).tracker.check "9.9.9.9" 0 = .throttled 1 ∧
      (start.run first).tracker.check "9.9.9.9" (0 + 1000 * 1) = .throttled 1 ∧
      (start.run again).tracker.check "9.9.9.9" 60000 = .throttled 1 := by
  decide +kernel

/-- A window of two seconds and a wait that is the cap: told at its start, the wait is kept. -/
def shortWindow : AuthFailureConfig :=
  { threshold := 2, windowMs := 2000, backoffBaseMs := 2000, backoffCapMs := 2000, slots := 8 }

theorem shortWindow_kept :
    ((Guarding.start shortWindow fun _ => 7).run
      (Guarding.attempts "9.9.9.9" 4000 2)).tracker.Keeps "9.9.9.9" 4000 2 ∧
      Guarding.Escalates shortWindow fun _ => 7 := by
  have hiff := auth_backoff_iff shortWindow fun _ => 7
  have hkept := hiff.1 (Guarding.attempts "9.9.9.9" 4000 2) "9.9.9.9" 4000 2 (by decide +kernel)
    (by decide +kernel)
  exact ⟨hkept.2 (by decide), hiff.2.2 (by decide)⟩

end Routeplane.Limits
