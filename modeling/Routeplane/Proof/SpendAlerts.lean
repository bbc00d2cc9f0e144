import Routeplane.Limits.Settling

/-!
# One alert a window

A settlement adds its cost to the spend of a period, looks at the sum, and claims the alert of the
window at the flag. The flag knows the last window alerted only, so all depends on the order in which
settlements of different windows come to it.

* `SettlePhase.next_cases`, `next_spend`: what a step does to the alerts and to the spend.
* `Settling.Inv.apply`: a step in order keeps the alerts of a period apart.
* `Settling.Due.run`: an alert that is due is claimed, or left by the settlement with another.
* `spend_alert_once`: one alert a window, and none lost.
-/

namespace Routeplane.Limits

/-! ## What has been alerted -/

def Settlement.window (s : ScopePolicy) (p : BudgetPeriod) (x : Settlement) : ℕ :=
  p.epoch x.nowMs s.anchorOffsetMinutes

/-- The window a settlement has claimed the alert of. -/
def Settlement.claimed (s : ScopePolicy) (p : BudgetPeriod) (x : Settlement) : Option ℕ :=
  (x.phase.alert.filter (·.period = p)).map fun _ => x.window s p

/-- The windows whose alert has been claimed. -/
def Settling.claims (s : ScopePolicy) (p : BudgetPeriod) (σ : Settling) : List (Option ℕ) :=
  σ.calls.map (·.claimed s p)

/-- The flag holds the last window alerted, if there is one. -/
def FlagOf (claims : List (Option ℕ)) (flag : ℕ) : Prop :=
  (flag = 0 ∧ ∀ w, some w ∉ claims) ∨
    ∃ w, some w ∈ claims ∧ flag = pack (w &&& epochMask) 1 ∧ ∀ w', some w' ∈ claims → w' ≤ w

section Flag

variable {claims pre post : List (Option ℕ)} {flag w e : ℕ}

theorem fired_pack : Fired e (pack (w &&& epochMask) 1) ↔ SameEpoch w e := by
  unfold Fired SameEpoch
  rw [unpack_pack (by decide), and_epochMask, and_epochMask, Nat.mod_mod]
  simp

theorem not_fired_zero : ¬Fired e 0 := by
  unfold Fired unpack
  simp

/-- A window in order is marked as alerted iff it has been. -/
theorem FlagOf.fired_iff (h : FlagOf claims flag)
    (hord : ∀ w, some w ∈ claims → w ≤ e ∧ (SameEpoch w e → w = e)) :
    Fired e flag ↔ some e ∈ claims := by
  rcases h with ⟨rfl, hnone⟩ | ⟨w, hw, rfl, hlast⟩
  · exact iff_of_false not_fired_zero (hnone e)
  · rw [fired_pack]
    constructor
    · intro hsame
      rw [← (hord w hw).2 hsame]
      exact hw
    · intro he
      have hle := hlast e he
      have hge := (hord w hw).1
      have heq : w = e := by omega
      rw [heq]
      rfl

/-- A window in order that is alerted for the first time is the last alerted. -/
theorem FlagOf.claim (hord : ∀ w, some w ∈ pre ++ none :: post → w ≤ e) :
    FlagOf (pre ++ some e :: post) (pack (e &&& epochMask) 1) := by
  refine Or.inr ⟨e, by simp, rfl, fun w hw => ?_⟩
  rcases List.mem_append.1 hw with hpre | hpost
  · exact hord w (List.mem_append_left _ hpre)
  · rcases List.mem_cons.1 hpost with heq | hrest
    · exact le_of_eq (Option.some.inj heq)
    · exact hord w (List.mem_append_right _ (List.mem_cons_of_mem _ hrest))

theorem count_claim (pre post : List (Option ℕ)) (w e : ℕ) :
    (pre ++ some w :: post).count (some e) =
      (pre ++ none :: post).count (some e) + if w = e then 1 else 0 := by
  by_cases h : w = e
  · subst h
    simp [Nat.add_assoc]
  · simp [h]

end Flag

/-! ## One step -/

namespace SettlePhase

/-- The alert carried into a period is not one of that period. -/
def Sound : SettlePhase → Prop
  | .debitCost .daily a => a = none
  | .debitCost .monthly a => ∀ x ∈ a, x.period = .daily
  | _ => True

variable {s : ScopePolicy} {nowMs totalTokens costMicroUsd : ℕ} {c : Counters} {p q : BudgetPeriod}
  {ph : SettlePhase} {alert : Option SpendAlert}

theorem past_alert (alert : Option SpendAlert) (p : BudgetPeriod) : (past alert p).alert = alert := by
  cases p with
  | daily => exact rfl
  | monthly => exact rfl

theorem past_sound (h : p = .daily → ∀ x ∈ alert, x.period = .daily) : (past alert p).Sound := by
  cases p with
  | daily => exact h rfl
  | monthly => exact trivial

theorem rank_past (alert : Option SpendAlert) (p : BudgetPeriod) :
    (past alert p).rank = (debitCost p none).rank + 3 := by
  cases p with
  | daily => exact rfl
  | monthly => exact rfl

theorem rank_fireAlert (p : BudgetPeriod) (threshold permille : ℕ) :
    (fireAlert p threshold permille).rank = (debitCost p none).rank + 2 := by
  cases p with
  | daily => exact rfl
  | monthly => exact rfl

theorem rank_readCost (p : BudgetPeriod) : (readCost p).rank = (debitCost p none).rank + 1 := by
  cases p with
  | daily => exact rfl
  | monthly => exact rfl

theorem rank_debitCost (p : BudgetPeriod) (alert : Option SpendAlert) :
    (debitCost p alert).rank = (debitCost p none).rank := by
  cases p with
  | daily => exact rfl
  | monthly => exact rfl

theorem rank_debitCost_le (p : BudgetPeriod) (alert : Option SpendAlert) :
    (debitCost p alert).rank ≤ 4 := by
  cases p with
  | daily => exact (by decide : 1 ≤ 4)
  | monthly => exact le_refl 4

/-- A settlement that has claimed an alert of a period has debited its spend. -/
theorem Sound.debited (h : ph.Sound) {a : SpendAlert} (ha : ph.alert = some a) :
    ph.Debited a.period := by
  have hle := rank_debitCost_le a.period none
  unfold Debited
  cases ph with
  | debitRate => cases ha
  | readCost p => cases ha
  | fireAlert p threshold permille => cases ha
  | debitCost p alert =>
    have heq : alert = some a := ha
    subst heq
    cases p with
    | daily => cases h
    | monthly =>
      rw [show a.period = .daily from h a rfl]
      exact (by decide : 1 < 4)
  | debitTokens p alert =>
    have hrank : 7 ≤ (debitTokens p alert).rank := by
      cases p with
      | daily => exact le_refl 7
      | monthly => exact (by decide : 7 ≤ 8)
    omega
  | done alert =>
    have hrank : (done alert).rank = 9 := rfl
    omega

/-- **What one step does to the alerts**: nothing, or it claims one of a window that had none. -/
theorem next_cases (s : ScopePolicy) (nowMs totalTokens costMicroUsd : ℕ) (c : Counters)
    (hs : ph.Sound) :
    (next s nowMs totalTokens costMicroUsd ph c).1.Sound ∧
      ph.rank ≤ (next s nowMs totalTokens costMicroUsd ph c).1.rank ∧
      (((next s nowMs totalTokens costMicroUsd ph c).1.alert = ph.alert ∧
          ∀ p, (next s nowMs totalTokens costMicroUsd ph c).2.flag p = c.flag p) ∨
        (∃ p threshold permille, ph = .fireAlert p threshold permille ∧
          ¬Fired (p.epoch nowMs s.anchorOffsetMinutes) (c.flag p) ∧
          next s nowMs totalTokens costMicroUsd ph c =
            (past (some ⟨s.scope, p, threshold, permille⟩) p,
              c.setFlag (pack (p.epoch nowMs s.anchorOffsetMinutes &&& epochMask) 1) p))) := by
  have hnone : ∀ p : BudgetPeriod, (past none p).Sound := by
    intro p
    refine past_sound fun _ x hx => ?_
    cases hx
  cases ph with
  | debitRate =>
    refine ⟨rfl, Nat.zero_le _, Or.inl ⟨rfl, fun p => ?_⟩⟩
    cases p with
    | daily => exact rfl
    | monthly => exact rfl
  | debitCost p alert =>
    unfold next
    dsimp only
    by_cases hread : (s.costLimit p).isSome ∧ alert = none
    · rw [if_pos hread, hread.2]
      have hrank := rank_readCost p
      exact ⟨trivial, by omega, Or.inl ⟨rfl, fun q => Counters.flag_setSpend _ _ _ _⟩⟩
    · rw [if_neg hread, past_alert, rank_past, rank_debitCost]
      refine ⟨past_sound ?_, by omega, Or.inl ⟨rfl, fun q => Counters.flag_setSpend _ _ _ _⟩⟩
      rintro rfl x hx
      rw [show alert = none from hs] at hx
      cases hx
  | readCost p =>
    have hrank := rank_readCost p
    cases hl : s.costLimit p with
    | none =>
      unfold next
      dsimp only
      rw [hl]
      dsimp only
      rw [past_alert, rank_past]
      exact ⟨hnone p, by omega, Or.inl ⟨rfl, fun _ => rfl⟩⟩
    | some limit =>
      cases hth : s.softThresholdPermille with
      | none =>
        rw [next_readCost_none hth]
        dsimp only
        rw [past_alert, rank_past]
        exact ⟨hnone p, by omega, Or.inl ⟨rfl, fun _ => rfl⟩⟩
      | some threshold =>
        rw [next_readCost hl hth]
        dsimp only
        split
        · rw [past_alert, rank_past]
          exact ⟨hnone p, by omega, Or.inl ⟨rfl, fun _ => rfl⟩⟩
        · refine ⟨trivial, ?_, Or.inl ⟨rfl, fun _ => rfl⟩⟩
          rw [rank_fireAlert]
          omega
  | fireAlert p threshold permille =>
    by_cases hf : Fired (p.epoch nowMs s.anchorOffsetMinutes) (c.flag p)
    · rw [next_fireAlert_again hf]
      dsimp only
      rw [past_alert, rank_past, rank_fireAlert]
      exact ⟨hnone p, by omega, Or.inl ⟨rfl, fun _ => rfl⟩⟩
    · rw [next_fireAlert_first hf]
      dsimp only
      rw [rank_past, rank_fireAlert]
      refine ⟨past_sound ?_, by omega, Or.inr ⟨p, threshold, permille, rfl, hf, rfl⟩⟩
      rintro hp x hx
      obtain rfl := Option.some.inj hx
      exact hp
  | debitTokens p alert =>
    cases p with
    | daily =>
      refine ⟨trivial, (by decide : 7 ≤ 8), Or.inl ⟨rfl, fun q => ?_⟩⟩
      cases q with
      | daily => exact rfl
      | monthly => exact rfl
    | monthly =>
      refine ⟨trivial, (by decide : 8 ≤ 9), Or.inl ⟨rfl, fun q => ?_⟩⟩
      cases q with
      | daily => exact rfl
      | monthly => exact rfl
  | done alert => exact ⟨trivial, le_refl _, Or.inl ⟨rfl, fun _ => rfl⟩⟩

/-- The spend of a period moves when it is debited. -/
theorem next_spend (s : ScopePolicy) (nowMs totalTokens costMicroUsd : ℕ) (c : Counters)
    (ph : SettlePhase) (p : BudgetPeriod) :
    (next s nowMs totalTokens costMicroUsd ph c).2.spend p = c.spend p ∨
      ∃ alert limit, ph = .debitCost p alert ∧ s.costLimit p = some limit ∧
        (next s nowMs totalTokens costMicroUsd ph c).2.spend p =
          Cell.next (debit costMicroUsd) (p.epoch nowMs s.anchorOffsetMinutes) (c.spend p) := by
  cases ph with
  | debitRate =>
    left
    cases p with
    | daily => exact rfl
    | monthly => exact rfl
  | debitCost q alert =>
    have hset : (next s nowMs totalTokens costMicroUsd (.debitCost q alert) c).2 =
        c.setSpend (ScopePolicy.debitIf (s.costLimit q) costMicroUsd
          (q.epoch nowMs s.anchorOffsetMinutes) (c.spend q)) q := rfl
    rw [hset, Counters.spend_setSpend]
    by_cases hq : q = p
    · subst hq
      rw [if_pos rfl]
      cases hl : s.costLimit q with
      | none => exact Or.inl rfl
      | some limit => exact Or.inr ⟨alert, limit, rfl, rfl, rfl⟩
    · rw [if_neg hq]
      exact Or.inl rfl
  | readCost q =>
    left
    unfold next
    dsimp only
    split <;> rfl
  | fireAlert q threshold permille =>
    left
    by_cases hf : Fired (q.epoch nowMs s.anchorOffsetMinutes) (c.flag q)
    · rw [next_fireAlert_again hf]
    · rw [next_fireAlert_first hf]
      exact Counters.spend_setFlag _ _ _ _
  | debitTokens q alert =>
    left
    cases q with
    | daily =>
      cases p with
      | daily => exact rfl
      | monthly => exact rfl
    | monthly =>
      cases p with
      | daily => exact rfl
      | monthly => exact rfl
  | done alert => exact Or.inl rfl

end SettlePhase

/-! ## Any number of settlements -/

namespace Settling

/-- A step on the words of a period comes no earlier in time than those before it, and the packed
epoch can tell its window from theirs. -/
def InOrder (s : ScopePolicy) (p : BudgetPeriod) (σ : Settling) : SettlingEvent → Prop
  | .call _ _ _ => True
  | .act i => ∀ x ∈ σ.calls[i]?, x.phase.ActsOn p → ∀ y ∈ σ.calls, y.phase.Debited p →
      y.window s p ≤ x.window s p ∧
        (SameEpoch (y.window s p) (x.window s p) → y.window s p = x.window s p)

instance (s : ScopePolicy) (p : BudgetPeriod) (σ : Settling) : DecidablePred (InOrder s p σ)
  | .call _ _ _ => isTrue trivial
  | .act i => inferInstanceAs (Decidable (∀ x ∈ σ.calls[i]?, _))

/-- Every event of a run is in order where it happens. -/
def Ordered (s : ScopePolicy) (p : BudgetPeriod) : Settling → List SettlingEvent → Prop
  | _, [] => True
  | σ, e :: events => σ.InOrder s p e ∧ Ordered s p (σ.apply s e) events

instance decidableOrdered (s : ScopePolicy) (p : BudgetPeriod) :
    (events : List SettlingEvent) → (σ : Settling) → Decidable (Ordered s p σ events)
  | [], _ => isTrue trivial
  | e :: events, σ => @instDecidableAnd _ _ _ (decidableOrdered s p events (σ.apply s e))

/-- No window is alerted twice, and the flag knows the last. -/
structure Inv (s : ScopePolicy) (p : BudgetPeriod) (σ : Settling) : Prop where
  sound : ∀ x ∈ σ.calls, x.phase.Sound
  once : ∀ e, (σ.claims s p).count (some e) ≤ 1
  flag : FlagOf (σ.claims s p) (σ.counters.flag p)

variable {s : ScopePolicy} {p : BudgetPeriod} {σ : Settling} {x y : Settlement} {i j e : ℕ}
  {ev : SettlingEvent} {events : List SettlingEvent}

theorem apply_act (hx : σ.calls[i]? = some x) :
    σ.apply s (.act i) =
      { σ with
        counters := (x.phase.next s x.nowMs x.totalTokens x.costMicroUsd σ.counters).2
        calls := σ.calls.set i { x with
          phase := (x.phase.next s x.nowMs x.totalTokens x.costMicroUsd σ.counters).1 } } := by
  unfold apply
  dsimp only
  rw [hx]

theorem apply_act_none (hx : σ.calls[i]? = none) : σ.apply s (.act i) = σ := by
  unfold apply
  dsimp only
  rw [hx]

/-- Where a claim comes from. -/
theorem mem_claims : some e ∈ σ.claims s p ↔
    ∃ x ∈ σ.calls, ∃ a, x.phase.alert = some a ∧ a.period = p ∧ x.window s p = e := by
  unfold claims Settlement.claimed
  constructor
  · intro h
    obtain ⟨x, hx, heq⟩ := List.mem_map.1 h
    obtain ⟨a, ha, hw⟩ := Option.map_eq_some_iff.1 heq
    obtain ⟨halert, hp⟩ := Option.filter_eq_some_iff.1 ha
    exact ⟨x, hx, a, halert, by simpa using hp, hw⟩
  · rintro ⟨x, hx, a, halert, rfl, rfl⟩
    refine List.mem_map.2 ⟨x, hx, ?_⟩
    rw [halert]
    simp

/-- In order, the windows alerted are no later than the one acted on. -/
theorem Inv.claims_le (hi : Inv s p σ) (hord : σ.InOrder s p (.act i)) (hx : σ.calls[i]? = some x)
    (hact : x.phase.ActsOn p) : ∀ w, some w ∈ σ.claims s p →
      w ≤ x.window s p ∧ (SameEpoch w (x.window s p) → w = x.window s p) := by
  intro w hw
  obtain ⟨y, hy, a, halert, hp, rfl⟩ := mem_claims.1 hw
  have hdebited := (hi.sound y hy).debited halert
  rw [hp] at hdebited
  exact hord x hx hact y hy hdebited

/-- A settlement of the list between those before and after it. -/
theorem split_at (hx : σ.calls[i]? = some x) :
    ∃ pre post, σ.calls = pre ++ x :: post ∧ ∀ y, σ.calls.set i y = pre ++ y :: post := by
  obtain ⟨hlt, hget⟩ := List.getElem?_eq_some_iff.1 hx
  refine ⟨σ.calls.take i, σ.calls.drop (i + 1), ?_, fun y => ?_⟩
  · rw [← hget, List.getElem_cons_drop, List.take_append_drop]
  · rw [List.set_eq_take_append_cons_drop, if_pos hlt]

/-- The claims after a step: as before, or with the window's own, which had none. -/
theorem Inv.claims_act (hi : Inv s p σ) (hord : σ.InOrder s p (.act i))
    (hx : σ.calls[i]? = some x) :
    ((σ.apply s (.act i)).claims s p = σ.claims s p ∧
        (σ.apply s (.act i)).counters.flag p = σ.counters.flag p) ∨
      ∃ pre post, σ.claims s p = pre ++ none :: post ∧ some (x.window s p) ∉ σ.claims s p ∧
        (∀ w, some w ∈ σ.claims s p → w ≤ x.window s p) ∧
        (σ.apply s (.act i)).claims s p = pre ++ some (x.window s p) :: post ∧
        (σ.apply s (.act i)).counters.flag p = pack (x.window s p &&& epochMask) 1 := by
  have hmem : x ∈ σ.calls := List.mem_of_getElem? hx
  obtain ⟨pre, post, hcalls, hset⟩ := split_at hx
  obtain ⟨-, -, hcases⟩ := SettlePhase.next_cases s x.nowMs x.totalTokens x.costMicroUsd σ.counters
      (hi.sound x hmem)
  have hclaims : σ.claims s p =
      pre.map (·.claimed s p) ++ x.claimed s p :: post.map (·.claimed s p) := by
    unfold claims
    rw [hcalls, List.map_append, List.map_cons]
  rw [apply_act hx]
  generalize x.phase.next s x.nowMs x.totalTokens x.costMicroUsd σ.counters = after at hcases ⊢
  obtain ⟨ph, c⟩ := after
  have hclaims' : ({ σ with counters := c, calls := σ.calls.set i { x with phase := ph } } :
      Settling).claims s p = pre.map (·.claimed s p) ++
        ({ x with phase := ph } : Settlement).claimed s p :: post.map (·.claimed s p) := by
    unfold claims
    dsimp only
    rw [hset, List.map_append, List.map_cons]
  rw [hclaims', hclaims]
  rcases hcases with ⟨halert, hflag⟩ | ⟨q, threshold, permille, hph, hf, heq⟩
  · left
    have hsame : ({ x with phase := ph } : Settlement).claimed s p = x.claimed s p := by
      unfold Settlement.claimed
      rw [show ({ x with phase := ph } : Settlement).phase.alert = x.phase.alert from halert]
      exact rfl
    rw [hsame]
    exact ⟨rfl, hflag p⟩
  · obtain ⟨rfl, rfl⟩ := Prod.mk.inj heq
    have hold : x.claimed s p = none := by
      unfold Settlement.claimed
      rw [hph]
      exact rfl
    rw [hold]
    by_cases hq : q = p
    · -- the flag was clear, so no settlement has claimed the window
      subst hq
      right
      have hact : x.phase.ActsOn q := by
        rw [hph]
        exact rfl
      have hle := hi.claims_le hord hx hact
      have hnew : some (x.window s q) ∉ σ.claims s q := by
        rw [← hi.flag.fired_iff hle]
        exact hf
      rw [hclaims, hold] at hnew hle
      refine ⟨_, _, rfl, hnew, fun w hw => (hle w hw).1, ?_, ?_⟩
      · unfold Settlement.claimed
        dsimp only
        rw [SettlePhase.past_alert]
        simp only [Option.filter_some, decide_true, if_true, Option.map_some]
        exact rfl
      · dsimp only
        rw [Counters.flag_setFlag, if_pos rfl]
        exact rfl
    · -- the alert is of the other period
      left
      refine ⟨?_, ?_⟩
      · unfold Settlement.claimed
        dsimp only
        rw [SettlePhase.past_alert]
        simp only [Option.filter_some, hq, decide_false, Bool.false_eq_true, if_false,
          Option.map_none]
      · dsimp only
        rw [Counters.flag_setFlag, if_neg hq]

/-- **One event in order** keeps the alerts of a period apart. -/
theorem Inv.apply (hi : Inv s p σ) (hord : σ.InOrder s p ev) : Inv s p (σ.apply s ev) := by
  cases ev with
  | call nowMs totalTokens costMicroUsd =>
    have hclaims : (σ.apply s (.call nowMs totalTokens costMicroUsd)).claims s p =
        σ.claims s p ++ [none] := by
      unfold claims
      exact List.map_append
    refine ⟨fun x hx => ?_, fun e => ?_, ?_⟩
    · rcases List.mem_append.1 hx with hx | hx
      · exact hi.sound x hx
      · rw [List.mem_singleton.1 hx]
        exact trivial
    · rw [hclaims, List.count_append]
      simpa using hi.once e
    · rw [hclaims]
      have hmem : ∀ w, some w ∈ σ.claims s p ++ [none] ↔ some w ∈ σ.claims s p := by
        intro w
        simp
      have hflag := hi.flag
      unfold FlagOf at hflag ⊢
      simp only [hmem]
      exact hflag
  | act i =>
    cases hx : σ.calls[i]? with
    | none =>
      rw [apply_act_none hx]
      exact hi
    | some x =>
      have hsound : ∀ y ∈ (σ.apply s (.act i)).calls, y.phase.Sound := by
        intro y hy
        rw [apply_act hx] at hy
        rcases List.mem_or_eq_of_mem_set hy with hy | rfl
        · exact hi.sound y hy
        · exact (SettlePhase.next_cases s x.nowMs x.totalTokens x.costMicroUsd σ.counters
            (hi.sound x (List.mem_of_getElem? hx))).1
      rcases hi.claims_act hord hx with ⟨hclaims, hflag⟩ |
        ⟨pre, post, hold, hnew, hle, hclaims, hflag⟩
      · refine ⟨hsound, ?_, ?_⟩
        · rw [hclaims]
          exact hi.once
        · rw [hclaims, hflag]
          exact hi.flag
      · refine ⟨hsound, fun e => ?_, ?_⟩
        · rw [hclaims]
          have honce := hi.once e
          rw [hold] at honce hnew
          rw [count_claim]
          by_cases he : x.window s p = e
          · have hzero : (pre ++ none :: post).count (some e) = 0 :=
              List.count_eq_zero.2 (he ▸ hnew)
            rw [hzero, if_pos he]
          · rw [if_neg he]
            exact honce
        · rw [hclaims, hflag]
          rw [hold] at hle
          exact FlagOf.claim hle

/-! ### No alert is lost -/

variable {limit threshold : ℕ}

theorem SettlePhase.debited_debitCost (c : Counters) (nowMs totalTokens costMicroUsd : ℕ)
    (alert : Option SpendAlert) :
    ((SettlePhase.debitCost p alert).next s nowMs totalTokens costMicroUsd c).1.Debited p := by
  unfold SettlePhase.next SettlePhase.Debited
  dsimp only
  split
  · rw [SettlePhase.rank_readCost]
    omega
  · rw [SettlePhase.rank_past]
    omega

/-- A settlement stays in the list, with its moment, and what it has debited stays debited. -/
theorem Inv.stays (hi : Inv s p σ) (hx : σ.calls[i]? = some x) (ev : SettlingEvent) :
    ∃ y, (σ.apply s ev).calls[i]? = some y ∧ y.nowMs = x.nowMs ∧
      ∀ q, x.phase.Debited q → y.phase.Debited q := by
  cases ev with
  | call nowMs totalTokens costMicroUsd =>
    refine ⟨x, ?_, rfl, fun _ h => h⟩
    have hlt := (List.getElem?_eq_some_iff.1 hx).1
    exact (List.getElem?_append_left hlt).trans hx
  | act j =>
    cases hz : σ.calls[j]? with
    | none =>
      rw [apply_act_none hz]
      exact ⟨x, hx, rfl, fun _ h => h⟩
    | some z =>
      rw [apply_act hz]
      by_cases hj : j = i
      · subst hj
        obtain rfl : x = z := Option.some.inj (hx.symm.trans hz)
        have hrank := (SettlePhase.next_cases s x.nowMs x.totalTokens x.costMicroUsd σ.counters
          (hi.sound x (List.mem_of_getElem? hx))).2.1
        refine ⟨_, List.getElem?_set_self (List.getElem?_eq_some_iff.1 hx).1, rfl, fun q hq => ?_⟩
        exact lt_of_lt_of_le hq hrank
      · exact ⟨x, (List.getElem?_set_ne hj).trans hx, rfl, fun _ h => h⟩

/-- What has been claimed stays claimed. -/
theorem Inv.claims_mono (hi : Inv s p σ) (hord : σ.InOrder s p ev) (he : some e ∈ σ.claims s p) :
    some e ∈ (σ.apply s ev).claims s p := by
  cases ev with
  | call nowMs totalTokens costMicroUsd =>
    have hclaims : (σ.apply s (.call nowMs totalTokens costMicroUsd)).claims s p =
        σ.claims s p ++ [none] := List.map_append
    rw [hclaims]
    exact List.mem_append_left _ he
  | act i =>
    cases hx : σ.calls[i]? with
    | none =>
      rw [apply_act_none hx]
      exact he
    | some x =>
      rcases hi.claims_act hord hx with ⟨hclaims, -⟩ | ⟨pre, post, hold, -, -, hclaims, -⟩
      · rw [hclaims]
        exact he
      · rw [hold] at he
        rw [hclaims]
        rcases List.mem_append.1 he with hpre | hpost
        · exact List.mem_append_left _ hpre
        · rcases List.mem_cons.1 hpost with hnone | hrest
          · cases hnone
          · exact List.mem_append_right _ (List.mem_cons_of_mem _ hrest)

/-- The alert of the window a settlement has left at the threshold: about to be looked for, about to
be claimed, or claimed; or left, by a settlement that returns another, to a later one. -/
inductive Due (s : ScopePolicy) (p : BudgetPeriod) (limit threshold : ℕ) (σ : Settling)
    (x : Settlement) : Prop
  | reading (hph : x.phase = .readCost p)
    (h : threshold ≤ consumedPermille (peek (x.window s p) (σ.counters.spend p)) limit ∨
      ∃ y ∈ σ.calls, y.phase.Debited p ∧ x.window s p < y.window s p)
  | firing (t permille : ℕ) (hph : x.phase = .fireAlert p t permille)
  | claimed (h : some (x.window s p) ∈ σ.claims s p)
  | daily (hp : p = .monthly) (hrank : 7 ≤ x.phase.rank) (a : SpendAlert)
    (ha : x.phase.alert = some a) (hd : a.period = .daily)

theorem consumedPermille_mono {a b : ℕ} (h : a ≤ b) (limit : ℕ) :
    consumedPermille a limit ≤ consumedPermille b limit := by
  unfold consumedPermille satMul
  split
  · exact le_refl _
  · refine min_le_min_right _ (Nat.div_le_div_right (min_le_min_right _ ?_))
    omega

/-- **One event in order** loses no alert: a step of another settlement. -/
theorem Due.apply_other (hd : Due s p limit threshold σ x) (hi : Inv s p σ)
    (hord : σ.InOrder s p (.act j)) (hx : σ.calls[i]? = some x) (hy : σ.calls[j]? = some y) :
    Due s p limit threshold (σ.apply s (.act j)) x := by
  cases hd with
  | firing t permille hph => exact .firing t permille hph
  | claimed h => exact .claimed (hi.claims_mono hord h)
  | daily hp hrank a ha hd => exact .daily hp hrank a ha hd
  | reading hph h =>
    refine .reading hph ?_
    rcases h with h | ⟨z, hz, hdebited, hlt⟩
    · have hspend := SettlePhase.next_spend s y.nowMs y.totalTokens y.costMicroUsd σ.counters
        y.phase p
      have hdebited : x.phase.Debited p := by
        unfold SettlePhase.Debited
        rw [hph, SettlePhase.rank_readCost]
        omega
      rw [apply_act hy]
      dsimp only
      rcases hspend with hsame | ⟨alert, l, hdebit, -, hspend⟩
      · rw [hsame]
        exact Or.inl h
      · -- a debit of the same window adds to the spend, one of a later window starts afresh
        have hact : y.phase.ActsOn p := by
          rw [hdebit]
          exact rfl
        have hle := (hord y hy hact x (List.mem_of_getElem? hx) hdebited).1
        rcases Nat.eq_or_lt_of_le hle with heq | hlt
        · left
          have hpeek := peek_debit y.costMicroUsd (y.window s p) (σ.counters.spend p) (x.window s p)
          have hsame : SameEpoch (y.window s p) (x.window s p) := by rw [heq]; exact rfl
          rw [if_pos hsame, ← heq] at hpeek
          have hmask := peek_le (x.window s p) (σ.counters.spend p)
          rw [hspend]
          refine le_trans h (consumedPermille_mono ?_ limit)
          have hw : p.epoch y.nowMs s.anchorOffsetMinutes = x.window s p := heq.symm
          rw [hw, hpeek]
          omega
        · right
          refine ⟨_, List.mem_of_getElem? (List.getElem?_set_self
            (List.getElem?_eq_some_iff.1 hy).1), ?_, hlt⟩
          dsimp only
          rw [hdebit]
          exact SettlePhase.debited_debitCost _ _ _ _ _
    · right
      obtain ⟨k, hk⟩ := List.mem_iff_getElem?.1 hz
      obtain ⟨z', hz', hnow, hstill⟩ := hi.stays hk (.act j)
      refine ⟨z', List.mem_of_getElem? hz', hstill p hdebited, ?_⟩
      have hw : z'.window s p = z.window s p := by
        unfold Settlement.window
        rw [hnow]
      rw [hw]
      exact hlt

/-- A step of the settlement itself: it looks, and claims the alert or finds it claimed. -/
theorem Due.apply_own (hd : Due s p limit threshold σ x) (hi : Inv s p σ)
    (hord : σ.InOrder s p (.act i)) (hx : σ.calls[i]? = some x) (hl : s.costLimit p = some limit)
    (hth : s.softThresholdPermille = some threshold) :
    Due s p limit threshold (σ.apply s (.act i))
      { x with phase := (x.phase.next s x.nowMs x.totalTokens x.costMicroUsd σ.counters).1 } := by
  have hmem : x ∈ σ.calls := List.mem_of_getElem? hx
  cases hd with
  | claimed h => exact .claimed (hi.claims_mono hord h)
  | reading hph h =>
    have hact : x.phase.ActsOn p := by
      rw [hph]
      exact rfl
    rcases h with h | ⟨y, hy, hdebited, hlt⟩
    · refine .firing threshold
        (consumedPermille (peek (x.window s p) (σ.counters.spend p)) limit) ?_
      dsimp only
      rw [hph, SettlePhase.next_readCost hl hth]
      exact if_neg (Nat.not_lt.2 h)
    · have hle := (hord x hx hact y hy hdebited).1
      omega
  | firing t permille hph =>
    have hact : x.phase.ActsOn p := by
      rw [hph]
      exact rfl
    by_cases hf : Fired (x.window s p) (σ.counters.flag p)
    · have hclaimed := (hi.flag.fired_iff (hi.claims_le hord hx hact)).1 hf
      exact .claimed (hi.claims_mono hord hclaimed)
    · refine .claimed (mem_claims.2 ⟨_, ?_, ⟨s.scope, p, t, permille⟩, ?_, rfl, rfl⟩)
      · rw [apply_act hx]
        exact List.mem_of_getElem? (List.getElem?_set_self (List.getElem?_eq_some_iff.1 hx).1)
      · dsimp only
        rw [hph, SettlePhase.next_fireAlert_first hf]
        exact SettlePhase.past_alert _ _
  | daily hp hrank a ha hd =>
    obtain ⟨-, hrank', hcases⟩ := SettlePhase.next_cases s x.nowMs x.totalTokens x.costMicroUsd
      σ.counters (hi.sound x hmem)
    rcases hcases with ⟨halert, -⟩ | ⟨q, t, permille, hph, -⟩
    · exact .daily hp (le_trans hrank hrank') a (halert.trans ha) hd
    · rw [hph] at ha
      cases ha

/-- **Any run in order** loses no alert. -/
theorem Due.run (hd : Due s p limit threshold σ x) (hi : Inv s p σ) (hx : σ.calls[i]? = some x)
    (hord : Ordered s p σ events) (hl : s.costLimit p = some limit)
    (hth : s.softThresholdPermille = some threshold) :
    ∃ y, (σ.run s events).calls[i]? = some y ∧ y.nowMs = x.nowMs ∧
      Due s p limit threshold (σ.run s events) y := by
  induction events generalizing σ x with
  | nil => exact ⟨x, hx, rfl, hd⟩
  | cons ev events ih =>
    have hi' := hi.apply hord.1
    have hnext : ∃ y, (σ.apply s ev).calls[i]? = some y ∧ y.nowMs = x.nowMs ∧
        Due s p limit threshold (σ.apply s ev) y := by
      obtain ⟨y, hy, hnow, -⟩ := hi.stays hx ev
      refine ⟨y, hy, hnow, ?_⟩
      cases ev with
      | call nowMs totalTokens costMicroUsd =>
        obtain rfl : x = y := by
          have hlt := (List.getElem?_eq_some_iff.1 hx).1
          exact Option.some.inj (hx.symm.trans ((List.getElem?_append_left hlt).symm.trans hy))
        cases hd with
        | firing t permille hph => exact .firing t permille hph
        | claimed h => exact .claimed (hi.claims_mono hord.1 h)
        | daily hp hrank a ha hd => exact .daily hp hrank a ha hd
        | reading hph h =>
          refine .reading hph (h.imp id ?_)
          rintro ⟨z, hz, hdebited, hlt⟩
          exact ⟨z, List.mem_append_left _ hz, hdebited, hlt⟩
      | act j =>
        cases hz : σ.calls[j]? with
        | none =>
          rw [apply_act_none hz] at hy ⊢
          obtain rfl := Option.some.inj (hx.symm.trans hy)
          exact hd
        | some z =>
          by_cases hj : j = i
          · subst hj
            have hown := hd.apply_own hi hord.1 hx hl hth
            have hset := List.getElem?_set_self (a := { x with
              phase := (x.phase.next s x.nowMs x.totalTokens x.costMicroUsd σ.counters).1 })
              (List.getElem?_eq_some_iff.1 hx).1
            rw [apply_act hx] at hy
            obtain rfl := Option.some.inj (hset.symm.trans hy)
            exact hown
          · have hother := hd.apply_other hi hord.1 hx hz
            rw [apply_act hz] at hy
            obtain rfl := Option.some.inj (hx.symm.trans ((List.getElem?_set_ne hj).symm.trans hy))
            exact hother
    obtain ⟨y, hy, hnow, hdue⟩ := hnext
    obtain ⟨z, hz, hnow', hdue'⟩ := ih hdue hi' hy hord.2
    exact ⟨z, hz, hnow'.trans hnow, hdue'⟩

theorem Inv.run (hi : Inv s p σ) (hord : Ordered s p σ events) : Inv s p (σ.run s events) := by
  induction events generalizing σ with
  | nil => exact hi
  | cons ev events ih => exact ih (hi.apply hord.1) hord.2

theorem Ordered.append {more : List SettlingEvent} (h : Ordered s p σ (events ++ more)) :
    Ordered s p σ events ∧ Ordered s p (σ.run s events) more := by
  induction events generalizing σ with
  | nil => exact ⟨trivial, h⟩
  | cons ev events ih =>
    obtain ⟨hfirst, hrest⟩ := ih h.2
    exact ⟨⟨h.1, hfirst⟩, hrest⟩

theorem Inv.start : Inv s p {} where
  sound := fun x hx => absurd hx List.not_mem_nil
  once := fun e => Nat.zero_le 1
  flag := by
    refine Or.inl ⟨?_, fun w hw => absurd hw List.not_mem_nil⟩
    cases p with
    | daily => exact rfl
    | monthly => exact rfl

end Settling

/-- **One alert a window, and none lost.** Settlements that act on the words of a period in the order
of their windows claim each window's alert at most once; and one that leaves its window at or above
the threshold has it claimed, by itself or another, when it is done, unless it returns the daily
alert and leaves the monthly one to a later settlement. -/
theorem spend_alert_once (s : ScopePolicy) (p : BudgetPeriod) (events : List SettlingEvent)
    (hord : Settling.Ordered s p {} events) :
    let σ := ({} : Settling).run s events
    (∀ e, (σ.claims s p).count (some e) ≤ 1) ∧
    ∀ pre i post x alert limit threshold, events = pre ++ .act i :: post →
      (({} : Settling).run s pre).calls[i]? = some x → x.phase = .debitCost p alert →
      s.costLimit p = some limit → s.softThresholdPermille = some threshold →
      threshold ≤ consumedPermille
        (peek (x.window s p) ((({} : Settling).run s (pre ++ [.act i])).counters.spend p)) limit →
      ∀ y answer, σ.calls[i]? = some y → y.phase = .done answer →
        some (x.window s p) ∈ σ.claims s p ∨
          (p = .monthly ∧ ∃ a, answer = some a ∧ a.period = .daily) := by
  have hi : Settling.Inv s p {} := Settling.Inv.start
  refine ⟨(hi.run hord).once, ?_⟩
  rintro pre i post x alert limit threshold rfl hx hph hl hth hspend y answer hy hdone
  obtain ⟨hpre, hact, hpost⟩ := hord.append
  have hi' := hi.run hpre
  have hrun : ({} : Settling).run s (pre ++ [.act i]) =
      (({} : Settling).run s pre).apply s (.act i) := List.foldl_append
  have hend : ({} : Settling).run s (pre ++ .act i :: post) =
      ((({} : Settling).run s pre).apply s (.act i)).run s post := List.foldl_append
  rw [hrun] at hspend
  rw [hend] at hy ⊢
  generalize ({} : Settling).run s pre = σ at *
  have hnext : (σ.apply s (.act i)).calls[i]? = some
      { x with phase := (x.phase.next s x.nowMs x.totalTokens x.costMicroUsd σ.counters).1 } := by
    rw [Settling.apply_act hx]
    exact List.getElem?_set_self (List.getElem?_eq_some_iff.1 hx).1
  have hdue : Settling.Due s p limit threshold (σ.apply s (.act i))
      { x with phase := (x.phase.next s x.nowMs x.totalTokens x.costMicroUsd σ.counters).1 } := by
    have hsound := hi'.sound x (List.mem_of_getElem? hx)
    rw [hph] at hsound
    cases alert with
    | none =>
      refine .reading ?_ (Or.inl hspend)
      have hread : (s.costLimit p).isSome = true ∧ (none : Option SpendAlert) = none := by
        rw [hl]
        exact ⟨rfl, rfl⟩
      dsimp only
      rw [hph]
      exact if_pos hread
    | some a =>
      -- only the monthly budget is reached with an alert in hand, the daily one
      cases p with
      | daily => cases hsound
      | monthly =>
        have hpast : (x.phase.next s x.nowMs x.totalTokens x.costMicroUsd σ.counters).1 =
            .debitTokens .daily (some a) := by
          rw [hph]
          exact if_neg fun h => by cases h.2
        rw [hpast]
        exact .daily rfl (le_refl 7) a rfl (hsound a rfl)
  obtain ⟨z, hz, hnow, hdue'⟩ := hdue.run (hi'.apply hact) hnext hpost hl hth
  obtain rfl := Option.some.inj (hz.symm.trans hy)
  have hw : z.window s p = x.window s p := by
    unfold Settlement.window
    rw [hnow]
  cases hdue' with
  | reading hph' h =>
    rw [hdone] at hph'
    cases hph'
  | firing t permille hph' =>
    rw [hdone] at hph'
    cases hph'
  | claimed h =>
    rw [hw] at h
    exact Or.inl h
  | daily hp hrank a ha hd =>
    rw [hdone] at ha
    exact Or.inr ⟨hp, a, ha, hd⟩

/-- A key with cost budgets and a warning at four fifths. -/
def warned (daily monthly : Option ℕ) : ScopePolicy :=
  ⟨.key, "key:k", "key:k", none, none, none, .hard, daily, monthly, none, none, 0, .hard, some 800⟩

/-- A settlement that is not disturbed, at a place of the list. -/
def settled (i nowMs costMicroUsd : ℕ) : List SettlingEvent :=
  .call nowMs 0 costMicroUsd :: List.replicate 7 (.act i)

/-- A settlement of one day is held up at its alert until one of the next day has had its own. -/
def overMidnight : List SettlingEvent :=
  .call 86399999 0 100 :: List.replicate 3 (.act 0) ++ settled 1 86400000 100 ++
    List.replicate 4 (.act 0) ++ settled 2 86400001 100

/-- A day of a warned budget, settled twice: it is alerted, once. -/
theorem two_settlements_one_alert :
    let claims := (({} : Settling).run (warned (some 100) none)
      (settled 0 0 90 ++ settled 1 0 90)).claims (warned (some 100) none) .daily
    (∀ e, claims.count (some e) ≤ 1) ∧ some 0 ∈ claims := by
  have honce := spend_alert_once (warned (some 100) none) .daily
    (settled 0 0 90 ++ settled 1 0 90) (by decide +kernel)
  refine ⟨honce.1, ?_⟩
  have hfirst := honce.2 [.call 0 0 90, .act 0] 0 (List.replicate 5 (.act 0) ++ settled 1 0 90)
    ⟨0, 0, 90, .debitCost .daily none⟩ none 100 800 rfl (by decide) rfl rfl rfl
    (by decide +kernel) ⟨0, 0, 90, .done (some ⟨.key, .daily, 800, 900⟩)⟩ _ (by decide +kernel) rfl
  rcases hfirst with hclaimed | ⟨hmonthly, -⟩
  · exact hclaimed
  · cases hmonthly

/-- **Three ways round.** A settlement held up over midnight has the next day alerted twice; where
each day's first settlement crosses the daily threshold, the month is never alerted, though its
spend was at the threshold from the first; and after 2 ^ 24 days a window is taken for one that has
had its alert. -/
theorem spend_alert_exceptions :
    (({} : Settling).Runs (warned (some 100) none) overMidnight ∧
      (({} : Settling).run (warned (some 100) none) overMidnight).claims
        (warned (some 100) none) .daily = [some 0, some 1, some 1]) ∧
    (({} : Settling).Runs (warned (some 10) (some 10)) (settled 0 0 10 ++ settled 1 86400000 10) ∧
      (({} : Settling).run (warned (some 10) (some 10)) (settled 0 0 10)).counters.costMonthly =
        pack (monthEpoch 0 0) 10 ∧
      (({} : Settling).run (warned (some 10) (some 10))
        (settled 0 0 10 ++ settled 1 86400000 10)).calls.map (·.phase) =
          [.done (some ⟨.key, .daily, 800, 1000⟩), .done (some ⟨.key, .daily, 800, 1000⟩)]) ∧
    (({} : Settling).Runs (warned (some 100) none)
        (settled 0 86400000 100 ++ settled 1 (16777217 * 86400000) 100) ∧
      (({} : Settling).run (warned (some 100) none)
        (settled 0 86400000 100 ++ settled 1 (16777217 * 86400000) 100)).calls.map (·.phase) =
          [.done (some ⟨.key, .daily, 800, 1000⟩), .done none]) := by
  decide +kernel

end Routeplane.Limits
