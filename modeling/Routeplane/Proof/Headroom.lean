import Routeplane.Proof.Admit
import Routeplane.Proof.SpendAlerts
import Routeplane.Proof.Swap
import Routeplane.Proof.Window

/-!
# What the headers promise

An admitted request is told how many more its minute takes, and once a soft budget alert has fired
every response says so. Both are read off counters that other requests and settlements go on changing.

* `remaining_requests_exact`: the next so many requests of the minute are not refused for their rate,
  and where every limit is hard no further one is admitted.
* `alert_then_warning`: an alert is followed by a warning for as long as its window lasts.
-/

namespace Routeplane.Limits

variable {g : LimitGuards} {nowMs : ℕ} {h h' : Heap}

/-! ## One admission -/

theorem Heap.get_set_kind {s t : ScopeSlot} (hkind : s.policy.scope ≠ t.policy.scope) (h : Heap)
    (c : Counters) : (h.set s c).get t = h.get t :=
  Heap.get_set_of_not_aliases h c fun ha => hkind ha.1

/-- **All scopes take the request iff none is full.** -/
theorem consumeAll_fst (nowMs : ℕ) {ss : List ScopeSlot}
    (hkinds : ss.Pairwise fun s t => s.policy.scope ≠ t.policy.scope) (h : Heap) :
    ((consumeAll nowMs ss h).1 = none ↔ ∀ s ∈ ss, ¬s.policy.Full (h.get s) nowMs) ∧
      ∀ b ∈ (consumeAll nowMs ss h).1, b.kind = .rateRequests := by
  induction ss generalizing h with
  | nil => exact ⟨by simp [consumeAll], fun b hb => by cases hb⟩
  | cons s ss ih =>
    obtain ⟨hfirst, hkinds'⟩ := List.pairwise_cons.1 hkinds
    unfold consumeAll
    by_cases hfull : s.policy.Full (h.get s) nowMs
    · obtain ⟨limit, -, heq⟩ := ScopePolicy.consumeRequest_full hfull
      rw [heq]
      simp only
      refine ⟨iff_of_false (fun hn => by cases hn) fun hall => ?_, fun b hb => ?_⟩
      · exact hall s List.mem_cons_self hfull
      · rw [← Option.some.inj hb]
        rfl
    · have hnone : (s.policy.consumeRequest (h.get s) nowMs).1 = none := by
        cases hl : s.policy.requestsPerMin with
        | none => rw [ScopePolicy.consumeRequest_none hl]
        | some limit => rw [ScopePolicy.consumeRequest_some hl hfull]
      generalize s.policy.consumeRequest (h.get s) nowMs = answer at hnone
      obtain ⟨b, c⟩ := answer
      obtain rfl : b = none := hnone
      simp only
      obtain ⟨hiff, hkind⟩ := ih hkinds' (h.set s c)
      refine ⟨hiff.trans ⟨fun hall t ht => ?_, fun hall t ht => ?_⟩, hkind⟩
      · rcases List.mem_cons.1 ht with rfl | ht
        · exact hfull
        · have hsame := Heap.get_set_kind (hfirst t ht) h c
          rw [← hsame]
          exact hall t ht
      · rw [Heap.get_set_kind (hfirst t ht)]
        exact hall t (List.mem_cons_of_mem _ ht)

/-- What an admission comes to: the check refuses, a scope is full, or every scope takes it. -/
inductive Admits (g : LimitGuards) (nowMs : ℕ) (h : Heap) : Admission × Heap → Prop
  | checked {b : Breach} (hkind : b.kind ≠ .rateRequests) : Admits g nowMs h (.denied b, h)
  | full {b : Breach} {h' : Heap} (hkind : b.kind = .rateRequests) {s : ScopeSlot}
      (hs : s ∈ g.scopes) (hfull : s.policy.Full (h.get s) nowMs) : Admits g nowMs h (.denied b, h')
  | taken {h' : Heap} (hroom : ∀ s ∈ g.scopes, ¬s.policy.Full (h.get s) nowMs) :
      Admits g nowMs h (.allowed (g.advisory nowMs h'), h')

theorem admitRequest_admits (g : LimitGuards) (nowMs : ℕ) (h : Heap) :
    Admits g nowMs h (g.admitRequest nowMs h) := by
  unfold LimitGuards.admitRequest
  split
  · rename_i b hb
    exact .checked (LimitGuards.firstBreach_kind b hb)
  · obtain ⟨hiff, hkind⟩ := consumeAll_fst nowMs g.scopes_kinds h
    split
    · rename_i b h' heq
      rw [heq] at hiff hkind
      have hsome : ¬∀ s ∈ g.scopes, ¬s.policy.Full (h.get s) nowMs := fun hall => by
        cases hiff.2 hall
      push Not at hsome
      obtain ⟨s, hs, hfull⟩ := hsome
      exact .full (hkind b rfl) hs hfull
    · rename_i h' heq
      rw [heq] at hiff
      exact .taken (hiff.1 rfl)

/-! ## The tightest headroom -/

/-- The requests a scope still takes in a minute. -/
def ScopePolicy.room (s : ScopePolicy) (c : Counters) (nowMs : ℕ) : Option ℕ :=
  s.requestsPerMin.map fun limit => limit - peek (minuteEpoch nowMs) c.req

/-- The least of two headrooms, where there are any. -/
def tightest : Option ℕ → Option ℕ → Option ℕ
  | none, b => b
  | some a, none => some a
  | some a, some b => some (min a b)

theorem tightest_spec {a b : Option ℕ} {n : ℕ} (hn : tightest a b = some n) :
    (∀ m ∈ a, n ≤ m) ∧ (∀ m ∈ b, n ≤ m) ∧ (a = some n ∨ b = some n) := by
  cases a with
  | none =>
    obtain rfl : b = some n := hn
    simp
  | some x =>
    cases b with
    | none =>
      obtain rfl : x = n := Option.some.inj hn
      simp
    | some y =>
      obtain rfl : min x y = n := Option.some.inj hn
      refine ⟨by simp, by simp, ?_⟩
      rcases min_choice x y with heq | heq <;> simp [heq]

/-! The three parts of what a scope adds. -/

def adviseRequests (limit : Option ℕ) (count nowMs : ℕ) (a : Advisory) : Advisory :=
  match limit with
  | some limit =>
    if ScopePolicy.tighter (limit - count) a.remainingRequests then
      { a with
        remainingRequests := some (limit - count), limitRequests := some limit
        resetRequestsSecs := some (resetSecs (minuteResetMs nowMs) nowMs) }
    else a
  | none => a

def adviseTokens (limit : Option ℕ) (count : ℕ) (a : Advisory) : Advisory :=
  match limit with
  | some limit =>
    if ScopePolicy.tighter (limit - count) a.remainingTokens then
      { a with remainingTokens := some (limit - count), limitTokens := some limit }
    else a
  | none => a

def adviseBudget (limit : Option ℕ) (consumed : ℕ) (a : Advisory) : Advisory :=
  match limit with
  | some l =>
    if ScopePolicy.tighter (l - consumed) a.budgetRemainingMicroUsd then
      { a with budgetRemainingMicroUsd := some (l - consumed) }
    else a
  | none => a

theorem contributeAdvisory_eq (s : ScopePolicy) (c : Counters) (nowMs : ℕ) (a : Advisory) :
    s.contributeAdvisory c nowMs a =
      adviseBudget s.costMonthly (peek (monthEpoch nowMs s.anchorOffsetMinutes) c.costMonthly)
        (adviseBudget s.costDaily (peek (dayEpoch nowMs s.anchorOffsetMinutes) c.costDaily)
          (adviseTokens s.tokensPerMin (peek (minuteEpoch nowMs) c.tokRate)
            (adviseRequests s.requestsPerMin (peek (minuteEpoch nowMs) c.req) nowMs a))) := rfl

@[simp] theorem adviseTokens_remaining (limit : Option ℕ) (count : ℕ) (a : Advisory) :
    (adviseTokens limit count a).remainingRequests = a.remainingRequests := by
  unfold adviseTokens
  cases limit with
  | none => rfl
  | some l =>
    simp only
    split <;> rfl

@[simp] theorem adviseBudget_remaining (limit : Option ℕ) (consumed : ℕ) (a : Advisory) :
    (adviseBudget limit consumed a).remainingRequests = a.remainingRequests := by
  unfold adviseBudget
  cases limit with
  | none => rfl
  | some l =>
    simp only
    split <;> rfl

/-- A scope adds its own headroom. -/
theorem contributeAdvisory_remaining (s : ScopePolicy) (c : Counters) (nowMs : ℕ) (a : Advisory) :
    (s.contributeAdvisory c nowMs a).remainingRequests =
      tightest a.remainingRequests (s.room c nowMs) := by
  rw [contributeAdvisory_eq, adviseBudget_remaining, adviseBudget_remaining, adviseTokens_remaining]
  unfold adviseRequests ScopePolicy.room
  cases s.requestsPerMin with
  | none => cases a.remainingRequests <;> rfl
  | some limit =>
    cases hr : a.remainingRequests with
    | none => simp [ScopePolicy.tighter, tightest]
    | some r =>
      simp only [ScopePolicy.tighter, Option.all_some, decide_eq_true_eq, Option.map_some]
      split
      · rename_i hlt
        simp only [tightest, min_eq_right hlt.le]
      · rename_i hle
        rw [hr, tightest, min_eq_left (by omega)]

/-- **The header is the least room of the scopes.** -/
theorem advisory_remaining {n : ℕ} (hn : (g.advisory nowMs h).remainingRequests = some n) :
    (∀ s ∈ g.scopes, ∀ m ∈ s.policy.room (h.get s) nowMs, n ≤ m) ∧
      ∃ s ∈ g.scopes, s.policy.room (h.get s) nowMs = some n := by
  have hfold : ∀ (ss : List ScopeSlot) (a : Advisory) (n : ℕ),
      (ss.foldl (fun a s => s.policy.contributeAdvisory (h.get s) nowMs a) a).remainingRequests =
        some n →
      (∀ m ∈ a.remainingRequests, n ≤ m) ∧
        (∀ s ∈ ss, ∀ m ∈ s.policy.room (h.get s) nowMs, n ≤ m) ∧
        (a.remainingRequests = some n ∨ ∃ s ∈ ss, s.policy.room (h.get s) nowMs = some n) := by
    intro ss
    induction ss with
    | nil =>
      intro a n hn
      have hn' : a.remainingRequests = some n := hn
      exact ⟨by simp [hn'], by simp, Or.inl hn'⟩
    | cons s ss ih =>
      intro a n hn
      obtain ⟨hle, hrest, hmem⟩ := ih _ n hn
      have hadd := contributeAdvisory_remaining s.policy (h.get s) nowMs a
      -- the tightest of what is there and what the scope adds is bounded by both
      have hparts : (∀ m ∈ a.remainingRequests, n ≤ m) ∧
          ∀ m ∈ s.policy.room (h.get s) nowMs, n ≤ m := by
        rw [hadd] at hle
        cases ha : a.remainingRequests <;> cases hs : s.policy.room (h.get s) nowMs <;>
          simp_all [tightest]
      refine ⟨hparts.1, fun t ht => ?_, ?_⟩
      · rcases List.mem_cons.1 ht with rfl | ht
        · exact hparts.2
        · exact hrest t ht
      · rcases hmem with hmem | ⟨t, ht, hroom⟩
        · rw [hadd] at hmem
          rcases (tightest_spec hmem).2.2 with hmem | hmem
          · exact Or.inl hmem
          · exact Or.inr ⟨s, List.mem_cons_self, hmem⟩
        · exact Or.inr ⟨t, List.mem_cons_of_mem _ ht, hroom⟩
  obtain ⟨-, hle, hmem⟩ := hfold g.scopes {} n hn
  refine ⟨hle, hmem.resolve_left fun hmem => by cases hmem⟩

/-! ## The requests that follow -/

/-- The answers to the requests of a sequence, and the counters after it. -/
def answers (g : LimitGuards) : Heap → List Use → List Admission × Heap
  | h, [] => ([], h)
  | h, .admitRequest nowMs :: uses =>
    let (a, h) := g.admitRequest nowMs h
    let (rest, h) := answers g h uses
    (a :: rest, h)
  | h, .settle nowMs totalTokens costMicroUsd :: uses =>
    answers g (g.settle nowMs h totalTokens costMicroUsd).2 uses

def allowedCount (as : List Admission) : ℕ := as.countP Admission.isAllowed

theorem allowedCount_allowed (a : Advisory) (as : List Admission) :
    allowedCount (.allowed a :: as) = allowedCount as + 1 := List.countP_cons_of_pos rfl

/-- A request of a minute. -/
def Use.In (w : ℕ) : Use → Prop
  | .admitRequest nowMs => minuteEpoch nowMs = w
  | .settle .. => True

/-- What is promised of `n` more requests: none is refused for its rate before that many are admitted,
and where every limit is hard no more are. -/
structure Promised (g : LimitGuards) (n : ℕ) (as : List Admission) : Prop where
  none_before : ∀ pre b post, as = pre ++ .denied b :: post → b.kind = .rateRequests →
    n ≤ allowedCount pre
  no_more : (∀ s ∈ g.scopes, s.policy.requestsPerMin.isSome → s.policy.rateMode = .hard) →
    allowedCount as ≤ n

/-- Settling leaves the request windows alone. -/
theorem settleAll_req (nowMs totalTokens costMicroUsd : ℕ) (ss : List ScopeSlot) (h : Heap)
    (t : ScopeSlot) : ((settleAll nowMs totalTokens costMicroUsd ss h).2.get t).req = (h.get t).req := by
  induction ss generalizing h with
  | nil => rfl
  | cons s ss ih =>
    unfold settleAll
    simp only
    rw [ih]
    by_cases ha : s.Aliases t
    · have hget : h.get s = h.get t := by
        unfold Heap.get
        rw [ha.1, ha.2]
      rw [Heap.get_set_of_aliases _ _ ha, ScopePolicy.settle_req, hget]
    · rw [Heap.get_set_of_not_aliases _ _ ha]

/-- The counters leave room for `n` more in the minute `w`, and no more. -/
structure Leaves (g : LimitGuards) (w n : ℕ) (h : Heap) : Prop where
  room : 0 < n → ∀ s ∈ g.scopes, s.policy.rateMode = .hard → ∀ limit ∈ s.policy.requestsPerMin,
    peek w (h.get s).req + n ≤ limit
  spent : ∃ s ∈ g.scopes, ∃ limit ∈ s.policy.requestsPerMin,
    limit ≤ countMask ∧ limit ≤ peek w (h.get s).req + n

/-- A scope's count grows by one where every scope takes the request. -/
theorem peek_taken {a : Advisory} (hok : g.admitRequest nowMs h = (.allowed a, h')) {s : ScopeSlot}
    (hs : s ∈ g.scopes) {limit : ℕ} (hl : limit ∈ s.policy.requestsPerMin) :
    peek (minuteEpoch nowMs) (h'.get s).req =
      min (peek (minuteEpoch nowMs) (h.get s).req + 1) countMask := by
  have hpeek := LimitGuards.peek_admitRequest g nowMs h s
  rw [hok] at hpeek
  have htaken : g.TakenAt (.done (.allowed a)) s :=
    ⟨s, hs, ⟨rfl, rfl⟩, Option.isSome_iff_exists.2 ⟨limit, hl⟩⟩
  rw [if_pos htaken] at hpeek
  exact hpeek

theorem peek_mono (g : LimitGuards) (nowMs : ℕ) (h : Heap) (s : ScopeSlot) :
    peek (minuteEpoch nowMs) (h.get s).req ≤
      peek (minuteEpoch nowMs) ((g.admitRequest nowMs h).2.get s).req := by
  rw [LimitGuards.peek_admitRequest]
  have hle := peek_le (minuteEpoch nowMs) (h.get s).req
  split
  · omega
  · exact le_rfl

theorem Promised.denied {n : ℕ} {as : List Admission} {b : Breach} (h : Promised g n as)
    (hb : b.kind = .rateRequests → n = 0) : Promised g n (.denied b :: as) where
  none_before pre b' post heq hkind := by
    cases pre with
    | nil =>
      obtain ⟨hhead, -⟩ := List.cons.inj heq
      rw [hb (by rw [Admission.denied.inj hhead]; exact hkind)]
      exact Nat.zero_le _
    | cons a pre =>
      obtain ⟨rfl, htail⟩ := List.cons.inj heq
      exact h.none_before pre b' post htail hkind
  no_more := h.no_more

theorem Promised.allowed {n : ℕ} {as : List Admission} {a : Advisory} (h : Promised g n as) :
    Promised g (n + 1) (.allowed a :: as) where
  none_before pre b' post heq hkind := by
    cases pre with
    | nil => cases (List.cons.inj heq).1
    | cons a' pre =>
      obtain ⟨rfl, htail⟩ := List.cons.inj heq
      have hle := h.none_before pre b' post htail hkind
      have hcount := allowedCount_allowed a pre
      omega
  no_more hhard := by
    have hle := h.no_more hhard
    have hcount := allowedCount_allowed a as
    omega

/-- **What the counters leave is what is promised**, by induction on what follows: each admission
takes one of it, a denial takes none or comes when there is none. -/
theorem Leaves.promised {w n : ℕ} (hl : Leaves g w n h) {uses : List Use}
    (hin : ∀ u ∈ uses, u.In w) : Promised g n (answers g h uses).1 := by
  induction uses generalizing n h with
  | nil =>
    refine ⟨fun pre b post heq => ?_, fun _ => Nat.zero_le _⟩
    have hlen := congrArg List.length heq
    simp [answers] at hlen
  | cons u uses ih =>
    have hin' : ∀ u ∈ uses, u.In w := fun u hu => hin u (List.mem_cons_of_mem _ hu)
    cases u with
    | settle nowMs totalTokens costMicroUsd =>
      have hreq : ∀ s, ((g.settle nowMs h totalTokens costMicroUsd).2.get s).req = (h.get s).req :=
        settleAll_req nowMs totalTokens costMicroUsd g.scopes h
      refine ih (h := (g.settle nowMs h totalTokens costMicroUsd).2) ⟨fun hn s hs => ?_, ?_⟩ hin'
      · rw [hreq]
        exact hl.room hn s hs
      · obtain ⟨s, hs, limit, hlimit, hle⟩ := hl.spent
        refine ⟨s, hs, limit, hlimit, ?_⟩
        rw [hreq]
        exact hle
    | admitRequest nowMs =>
      obtain rfl : minuteEpoch nowMs = w := hin _ List.mem_cons_self
      have hcases := admitRequest_admits g nowMs h
      have hmono := peek_mono g nowMs h
      have htaken : ∀ (a : Advisory) (h' : Heap), g.admitRequest nowMs h = (.allowed a, h') →
          ∀ s ∈ g.scopes, ∀ limit ∈ s.policy.requestsPerMin,
            peek (minuteEpoch nowMs) (h'.get s).req =
              min (peek (minuteEpoch nowMs) (h.get s).req + 1) countMask :=
        fun a h' hok s hs limit hl => peek_taken hok hs hl
      unfold answers
      generalize g.admitRequest nowMs h = answer at hcases hmono htaken
      cases hcases with
      | checked hkind => exact (ih hl hin').denied fun hrate => absurd hrate hkind
      | @full b h' hkind s hs hfull =>
        -- a scope is full only when nothing is left
        have hzero : n = 0 := by
          obtain ⟨hhard, limit, hlimit, hle⟩ := hfull
          by_contra hn
          have := hl.room (Nat.pos_of_ne_zero hn) s hs hhard limit hlimit
          omega
        subst hzero
        refine (ih (h := h') ⟨fun hn => absurd hn (lt_irrefl 0), ?_⟩ hin').denied fun _ => rfl
        obtain ⟨t, ht, limit, hlimit, hle, hspent⟩ := hl.spent
        exact ⟨t, ht, limit, hlimit, hle, hspent.trans (Nat.add_le_add_right (hmono t) 0)⟩
      | @taken h' hroom =>
        have htaken' := htaken _ h' rfl
        cases n with
        | zero =>
          -- the scope with nothing left is no hard one
          refine ⟨fun _ _ _ _ _ => Nat.zero_le _, fun hhard => ?_⟩
          obtain ⟨t, ht, limit, hlimit, -, hspent⟩ := hl.spent
          have hmode := hhard t ht (Option.isSome_iff_exists.2 ⟨limit, hlimit⟩)
          exact absurd ⟨hmode, limit, hlimit, hspent⟩ (hroom t ht)
        | succ n =>
          refine (ih (h := h') ⟨fun hn s hs hhard limit hlimit => ?_, ?_⟩ hin').allowed
          · have hbefore := hl.room (Nat.succ_pos n) s hs hhard limit hlimit
            have hafter := htaken' s hs limit hlimit
            omega
          · obtain ⟨t, ht, limit, hlimit, hle, hspent⟩ := hl.spent
            have hafter := htaken' t ht limit hlimit
            exact ⟨t, ht, limit, hlimit, hle, by omega⟩

/-- The slots a live registry gives out can be counted up to their limits. -/
theorem guardsOf_compiled {entries : List KeyLimitsInput} {maxReplicas : ℕ} {past : List Event}
    (hpast : (Live.start entries maxReplicas).Runs past) {k tenant : String} {model : Option String}
    {s : ScopeSlot}
    (hs : s ∈ (((Live.start entries maxReplicas).run past).guardsOf k tenant model).scopes) :
    s.Compiled := by
  obtain ⟨own, hi⟩ := Live.Inv.start entries maxReplicas
  obtain ⟨own', -, hi'⟩ := hi.run hpast
  obtain ⟨id, hrow⟩ := Live.guardsOf_mem hs
  exact hi'.cover.compiled _ _ _ (hi'.names id s hrow).1

/-- **`remaining_requests` is exact.** A request is admitted by the limits of a running gateway with
`n` left for its minute. Of the requests of that minute that follow, whatever is settled in between,
none is refused for its rate before `n` are admitted; and if every limit is hard, no more than `n`
are. -/
theorem remaining_requests_exact {entries : List KeyLimitsInput} {maxReplicas : ℕ}
    {past : List Event} (hpast : (Live.start entries maxReplicas).Runs past) {k tenant : String}
    {model : Option String} {nowMs n : ℕ} {a : Advisory} {h' : Heap}
    (hok : (((Live.start entries maxReplicas).run past).guardsOf k tenant model).admitRequest nowMs
      ((Live.start entries maxReplicas).run past).heap = (.allowed a, h'))
    (hn : a.remainingRequests = some n) {uses : List Use}
    (hin : ∀ u ∈ uses, u.In (minuteEpoch nowMs)) :
    Promised (((Live.start entries maxReplicas).run past).guardsOf k tenant model) n
      (answers (((Live.start entries maxReplicas).run past).guardsOf k tenant model) h' uses).1 := by
  have hcompiled : ∀ s ∈ (((Live.start entries maxReplicas).run past).guardsOf k tenant
      model).scopes, s.Compiled := fun s hs => guardsOf_compiled hpast hs
  generalize ((Live.start entries maxReplicas).run past).guardsOf k tenant model = g at hok hcompiled ⊢
  generalize ((Live.start entries maxReplicas).run past).heap = h at hok
  have hcases := admitRequest_admits g nowMs h
  rw [hok] at hcases
  cases hcases with
  | taken hroom =>
    obtain ⟨hle, t, ht, hleast⟩ := advisory_remaining hn
    refine Leaves.promised ⟨fun hpos s hs _ limit hlimit => ?_, ?_⟩ hin
    · have hroom : s.policy.room (h'.get s) nowMs =
          some (limit - peek (minuteEpoch nowMs) (h'.get s).req) := by
        unfold ScopePolicy.room
        rw [Option.mem_def.1 hlimit]
        rfl
      have := hle s hs _ hroom
      omega
    · obtain ⟨limit, hlimit, heq⟩ := Option.map_eq_some_iff.1 hleast
      exact ⟨t, ht, limit, hlimit, hcompiled t ht limit hlimit, by omega⟩

/-- A key with three requests a minute. -/
def threeAMinute : Live :=
  .start [{ routeplaneKey := "k", tenantId := "t",
            limits := { key := some { rate := some { requestsPerMin := some 3 } } } }] 1

theorem remaining_requests_exact_three :
    let g := threeAMinute.guardsOf "k" "t" none
    let h' := (g.admitRequest 0 threeAMinute.heap).2
    (g.admitRequest 0 threeAMinute.heap).1 = .allowed (g.advisory 0 h') ∧
      (g.advisory 0 h').remainingRequests = some 2 ∧
      Promised g 2 (answers g h' [.admitRequest 10, .admitRequest 20, .admitRequest 30]).1 := by
  have hok : ((threeAMinute.guardsOf "k" "t" none).admitRequest 0 threeAMinute.heap).1 =
      .allowed ((threeAMinute.guardsOf "k" "t" none).advisory 0
        ((threeAMinute.guardsOf "k" "t" none).admitRequest 0 threeAMinute.heap).2) := by
    decide
  have hn : ((threeAMinute.guardsOf "k" "t" none).advisory 0
      ((threeAMinute.guardsOf "k" "t" none).admitRequest 0 threeAMinute.heap).2).remainingRequests =
        some 2 := by
    decide
  have hpast : threeAMinute.Runs [] := trivial
  refine ⟨hok, hn, remaining_requests_exact hpast (Prod.ext hok rfl) hn ?_⟩
  intro u hu
  simp only [List.mem_cons, List.not_mem_nil, or_false] at hu
  rcases hu with rfl | rfl | rfl <;> rfl

/-! ## Alerts and warnings -/

/-- A settlement adds to the cost of each period once. -/
theorem settleCost_spend (s : ScopePolicy) (nowMs costMicroUsd : ℕ) (p q : BudgetPeriod)
    (alert : Option SpendAlert) (c : Counters) :
    (SettlePhase.settleCost s nowMs costMicroUsd p alert c).2.spend q =
      if p = q then ScopePolicy.debitIf (s.costLimit p) costMicroUsd
        (p.epoch nowMs s.anchorOffsetMinutes) (c.spend p) else c.spend q := by
  unfold SettlePhase.settleCost
  simp only
  split
  · simp only [Counters.spend_setFlag, Counters.spend_setSpend]
  · simp only [Counters.spend_setSpend]

theorem settle_spend (s : ScopePolicy) (c : Counters) (nowMs totalTokens costMicroUsd : ℕ)
    (p : BudgetPeriod) :
    (s.settle c nowMs totalTokens costMicroUsd).2.spend p =
      ScopePolicy.debitIf (s.costLimit p) costMicroUsd (p.epoch nowMs s.anchorOffsetMinutes)
        (c.spend p) := by
  have heq := SettlePhase.settle_eq s c nowMs totalTokens costMicroUsd
  simp only at heq
  rw [heq]
  have hlast : ∀ (c : Counters) (x y : ℕ), ({ c with tokDaily := x, tokMonthly := y } : Counters).spend p =
      c.spend p := by
    intro c x y
    cases p <;> rfl
  have hfirst : ∀ x : ℕ, ({ c with tokRate := x } : Counters).spend p = c.spend p := by
    intro x
    cases p <;> rfl
  rw [hlast]
  cases p with
  | daily =>
    calc _ = _ := (settleCost_spend s nowMs costMicroUsd .monthly .daily _ _).trans (if_neg (by simp))
      _ = _ := (settleCost_spend s nowMs costMicroUsd .daily .daily none _).trans (if_pos rfl)
  | monthly =>
    have hdaily := settleCost_spend s nowMs costMicroUsd .daily .monthly none
      { c with tokRate := ScopePolicy.debitIf s.tokensPerMin totalTokens (minuteEpoch nowMs) c.tokRate }
    rw [if_neg (by simp), hfirst] at hdaily
    have hmonthly := settleCost_spend s nowMs costMicroUsd .monthly .monthly
      (SettlePhase.settleCost s nowMs costMicroUsd .daily none
        { c with
          tokRate := ScopePolicy.debitIf s.tokensPerMin totalTokens (minuteEpoch nowMs) c.tokRate }).1
      (SettlePhase.settleCost s nowMs costMicroUsd .daily none
        { c with
          tokRate := ScopePolicy.debitIf s.tokensPerMin totalTokens (minuteEpoch nowMs) c.tokRate }).2
    rw [if_pos rfl, hdaily] at hmonthly
    exact hmonthly

/-- A budget at or over its threshold. -/
def InZone (s : ScopePolicy) (c : Counters) (p : BudgetPeriod) (epoch permille : ℕ) : Prop :=
  ∃ limit threshold, s.costLimit p = some limit ∧ s.softThresholdPermille = some threshold ∧
    threshold ≤ permille ∧ permille ≤ consumedPermille (peek epoch (c.spend p)) limit

theorem settleCost_alert {s : ScopePolicy} {nowMs costMicroUsd : ℕ} {p : BudgetPeriod}
    {before : Option SpendAlert} {c : Counters} {a : SpendAlert}
    (h : (SettlePhase.settleCost s nowMs costMicroUsd p before c).1 = some a) :
    before = some a ∨ a.period = p ∧ a.scope = s.scope ∧
      InZone s (SettlePhase.settleCost s nowMs costMicroUsd p before c).2 p
        (p.epoch nowMs s.anchorOffsetMinutes) a.consumedPermille := by
  have hspend := settleCost_spend s nowMs costMicroUsd p p before c
  rw [if_pos rfl] at hspend
  unfold InZone
  rw [hspend]
  unfold SettlePhase.settleCost at h
  simp only at h
  split at h
  · rename_i limit hlimit
    simp only [Counters.spend_setSpend, if_pos] at h
    unfold ScopePolicy.maybeSpendAlert at h
    split at h
    · cases h
    · rename_i threshold hthreshold
      simp only at h
      split at h
      · cases h
      · rename_i hzone
        split at h
        · cases h
        · obtain rfl := Option.some.inj h
          exact Or.inr ⟨rfl, rfl, limit, threshold, hlimit, hthreshold, Nat.le_of_not_lt hzone, le_rfl⟩
  · exact Or.inl h

/-- **An alert fires in its zone.** -/
theorem settle_alert {s : ScopePolicy} {c : Counters} {nowMs totalTokens costMicroUsd : ℕ}
    {a : SpendAlert} (h : (s.settle c nowMs totalTokens costMicroUsd).1 = some a) :
    a.scope = s.scope ∧ InZone s (s.settle c nowMs totalTokens costMicroUsd).2 a.period
      (a.period.epoch nowMs s.anchorOffsetMinutes) a.consumedPermille := by
  have heq := SettlePhase.settle_eq s c nowMs totalTokens costMicroUsd
  simp only at heq
  have hzone : ∀ {c' : Counters} {p : BudgetPeriod}, c'.spend p =
      (s.settle c nowMs totalTokens costMicroUsd).2.spend p → ∀ {epoch permille : ℕ},
      InZone s c' p epoch permille →
      InZone s (s.settle c nowMs totalTokens costMicroUsd).2 p epoch permille := by
    intro c' p hsame epoch permille hin
    unfold InZone at hin ⊢
    rw [← hsame]
    exact hin
  have hfirst := settleCost_spend s nowMs costMicroUsd .daily .daily none
    { c with tokRate := ScopePolicy.debitIf s.tokensPerMin totalTokens (minuteEpoch nowMs) c.tokRate }
  rw [heq] at h
  rcases settleCost_alert h with hdaily | ⟨hperiod, hscope, hin⟩
  · rcases settleCost_alert hdaily with hnone | ⟨hperiod, hscope, hin⟩
    · cases hnone
    · refine ⟨hscope, ?_⟩
      rw [hperiod]
      refine hzone ?_ hin
      rw [hfirst, if_pos rfl, settle_spend]
      rfl
  · refine ⟨hscope, ?_⟩
    rw [hperiod]
    refine hzone ?_ hin
    rw [heq]
    rfl

/-- The zone is not left while its window lasts. -/
theorem InZone.settle {s : ScopePolicy} {c : Counters} {p : BudgetPeriod} {epoch permille : ℕ}
    (h : InZone s c p epoch permille) {nowMs : ℕ} (totalTokens costMicroUsd : ℕ)
    (hwindow : p.epoch nowMs s.anchorOffsetMinutes = epoch) :
    InZone s (s.settle c nowMs totalTokens costMicroUsd).2 p epoch permille := by
  obtain ⟨limit, threshold, hlimit, hthreshold, hle, hzone⟩ := h
  refine ⟨limit, threshold, hlimit, hthreshold, hle, hzone.trans (Settling.consumedPermille_mono ?_ limit)⟩
  rw [settle_spend, hlimit, hwindow]
  show _ ≤ peek epoch (Cell.next (debit costMicroUsd) epoch (c.spend p))
  have hsame : SameEpoch epoch epoch := rfl
  rw [peek_debit, if_pos hsame]
  have := peek_le epoch (c.spend p)
  omega

theorem considerWarning_le {s : ScopePolicy} {threshold consumed : ℕ} {limit : Option ℕ}
    {p : BudgetPeriod} {best : Option BudgetWarning} {permille : ℕ}
    (h : (∃ w ∈ best, permille ≤ w.consumedPermille) ∨
      ∃ l ∈ limit, threshold ≤ permille ∧ permille ≤ consumedPermille consumed l) :
    ∃ w ∈ s.considerWarning threshold limit consumed p best, permille ≤ w.consumedPermille := by
  unfold ScopePolicy.considerWarning
  cases limit with
  | none =>
    rcases h with h | ⟨l, hl, -⟩
    · exact h
    · cases hl
  | some l =>
    simp only
    have hnew : ∀ {x : ℕ}, permille ≤ x → ∃ w ∈ (some ⟨s.scope, p, threshold, x⟩ :
        Option BudgetWarning), permille ≤ w.consumedPermille := fun {x} hx => ⟨_, rfl, hx⟩
    split
    · rename_i hout
      rcases h with h | ⟨l', hl, hle, hzone⟩
      · exact h
      · obtain rfl := Option.some.inj hl
        omega
    · split
      · rename_i hall
        rcases h with ⟨w, hw, hle⟩ | ⟨l', hl, -, hzone⟩
        · have hbeats := hall
          rw [Option.mem_def.1 hw, Option.all_some, decide_eq_true_eq] at hbeats
          exact hnew (by omega)
        · obtain rfl := Option.some.inj hl
          exact hnew hzone
      · rename_i hall
        cases best with
        | none => exact absurd rfl hall
        | some w =>
          rw [Option.all_some, decide_eq_true_eq] at hall
          rcases h with ⟨w', hw, hle⟩ | ⟨l', hl, -, hzone⟩
          · exact ⟨w', hw, hle⟩
          · obtain rfl := Option.some.inj hl
            exact ⟨w, rfl, by omega⟩

/-- **In its zone a scope warns**, at least as urgently. -/
theorem InZone.warns {s : ScopePolicy} {c : Counters} {p : BudgetPeriod} {permille : ℕ} {nowMs : ℕ}
    (h : InZone s c p (p.epoch nowMs s.anchorOffsetMinutes) permille) :
    ∃ w ∈ s.warning c nowMs, permille ≤ w.consumedPermille := by
  obtain ⟨limit, threshold, hlimit, hthreshold, hle, hzone⟩ := h
  unfold ScopePolicy.warning
  rw [hthreshold]
  simp only
  cases p with
  | daily => exact considerWarning_le (Or.inl (considerWarning_le (Or.inr ⟨limit, hlimit, hle, hzone⟩)))
  | monthly => exact considerWarning_le (Or.inr ⟨limit, hlimit, hle, hzone⟩)

/-- The warning of a request is the most urgent of its scopes. -/
theorem warning_of_scope {s : ScopeSlot} (hs : s ∈ g.scopes) {permille : ℕ}
    (hw : ∃ w ∈ s.policy.warning (h.get s) nowMs, permille ≤ w.consumedPermille) :
    ∃ w ∈ g.warning nowMs h, permille ≤ w.consumedPermille := by
  have hfold : ∀ (ss : List ScopeSlot) (best : Option BudgetWarning),
      ((∃ w ∈ best, permille ≤ w.consumedPermille) ∨
        ∃ s ∈ ss, ∃ w ∈ s.policy.warning (h.get s) nowMs, permille ≤ w.consumedPermille) →
      ∃ w ∈ ss.foldl (fun best s => (s.policy.warning (h.get s) nowMs).elim best fun w =>
        if best.all (·.consumedPermille < w.consumedPermille) then some w else best) best,
          permille ≤ w.consumedPermille := by
    intro ss
    induction ss with
    | nil =>
      intro best hex
      rcases hex with hbest | ⟨s, hs, -⟩
      · exact hbest
      · cases hs
    | cons t ss ih =>
      intro best hex
      rw [List.foldl_cons]
      refine ih _ ?_
      rcases hex with ⟨w, hw, hle⟩ | ⟨s, hs, hwarn⟩
      · left
        cases hnew : t.policy.warning (h.get t) nowMs with
        | none => exact ⟨w, hw, hle⟩
        | some w' =>
          rw [Option.elim_some]
          split
          · rename_i hall
            rw [Option.mem_def.1 hw, Option.all_some, decide_eq_true_eq] at hall
            exact ⟨w', rfl, by omega⟩
          · exact ⟨w, hw, hle⟩
      · rcases List.mem_cons.1 hs with rfl | hs
        · left
          obtain ⟨w, hw, hle⟩ := hwarn
          rw [Option.mem_def.1 hw, Option.elim_some]
          split
          · exact ⟨w, rfl, hle⟩
          · rename_i hall
            cases best with
            | none => exact absurd rfl hall
            | some w' =>
              rw [Option.all_some, decide_eq_true_eq] at hall
              exact ⟨w', rfl, by omega⟩
        · exact Or.inr ⟨s, hs, hwarn⟩
  have hwarning : g.warning nowMs h =
      g.scopes.foldl (fun best s => (s.policy.warning (h.get s) nowMs).elim best fun w =>
        if best.all (·.consumedPermille < w.consumedPermille) then some w else best) none := by
    unfold LimitGuards.warning
    congr 1
    funext best s
    cases s.policy.warning (h.get s) nowMs <;> rfl
  rw [hwarning]
  exact hfold g.scopes none (Or.inr ⟨s, hs, hw⟩)

/-- Each scope of a request settles on its own. -/
theorem settleAll_get {ss : List ScopeSlot}
    (hkinds : ss.Pairwise fun s t => s.policy.scope ≠ t.policy.scope) (nowMs totalTokens
    costMicroUsd : ℕ) (h : Heap) {s : ScopeSlot} (hs : s ∈ ss) :
    (settleAll nowMs totalTokens costMicroUsd ss h).2.get s =
      (s.policy.settle (h.get s) nowMs totalTokens costMicroUsd).2 := by
  have hother : ∀ (ss : List ScopeSlot) (h : Heap) (t : ScopeSlot),
      (∀ s ∈ ss, s.policy.scope ≠ t.policy.scope) →
      (settleAll nowMs totalTokens costMicroUsd ss h).2.get t = h.get t := by
    intro ss
    induction ss with
    | nil => exact fun h t _ => rfl
    | cons s ss ih =>
      intro h t hne
      unfold settleAll
      simp only
      rw [ih _ t fun s hs => hne s (List.mem_cons_of_mem _ hs),
        Heap.get_set_kind (hne s List.mem_cons_self)]
  induction ss generalizing h with
  | nil => cases hs
  | cons t ss ih =>
    obtain ⟨hfirst, hkinds'⟩ := List.pairwise_cons.1 hkinds
    unfold settleAll
    simp only
    rcases List.mem_cons.1 hs with rfl | hs
    · rw [hother ss _ s fun t ht => (hfirst t ht).symm, Heap.get_set_self]
    · rw [ih hkinds' _ hs, Heap.get_set_kind (hfirst s hs)]

theorem settleAll_alerts {ss : List ScopeSlot}
    (hkinds : ss.Pairwise fun s t => s.policy.scope ≠ t.policy.scope) (nowMs totalTokens
    costMicroUsd : ℕ) (h : Heap) {a : SpendAlert}
    (ha : a ∈ (settleAll nowMs totalTokens costMicroUsd ss h).1) :
    ∃ s ∈ ss, (s.policy.settle (h.get s) nowMs totalTokens costMicroUsd).1 = some a := by
  induction ss generalizing h with
  | nil => cases ha
  | cons t ss ih =>
    obtain ⟨hfirst, hkinds'⟩ := List.pairwise_cons.1 hkinds
    unfold settleAll at ha
    simp only at ha
    rcases List.mem_append.1 ha with ha | ha
    · exact ⟨t, List.mem_cons_self, Option.mem_toList.1 ha⟩
    · obtain ⟨s, hs, heq⟩ := ih hkinds' _ ha
      rw [Heap.get_set_kind (hfirst s hs)] at heq
      exact ⟨s, List.mem_cons_of_mem _ hs, heq⟩

/-- A request window is all that an admission touches. -/
theorem admitRequest_spend (g : LimitGuards) (nowMs : ℕ) (h : Heap) (s : ScopeSlot)
    (p : BudgetPeriod) : ((g.admitRequest nowMs h).2.get s).spend p = (h.get s).spend p := by
  have hone : ∀ (t : ScopeSlot) (h : Heap) (b : Option Breach) (c : Counters),
      t.policy.consumeRequest (h.get t) nowMs = (b, c) →
      ((h.set t c).get s).spend p = (h.get s).spend p := by
    intro t h b c hc
    have hsame : c.spend p = (h.get t).spend p := by
      rw [← (Prod.mk.inj hc).2]
      cases p <;> rfl
    by_cases ha : t.Aliases s
    · have hget : h.get t = h.get s := by
        unfold Heap.get
        rw [ha.1, ha.2]
      rw [Heap.get_set_of_aliases _ _ ha, hsame, hget]
    · rw [Heap.get_set_of_not_aliases _ _ ha]
  have hall : ∀ (ss : List ScopeSlot) (h : Heap),
      ((consumeAll nowMs ss h).2.get s).spend p = (h.get s).spend p := by
    intro ss
    induction ss with
    | nil => exact fun h => rfl
    | cons t ss ih =>
      intro h
      unfold consumeAll
      split
      · rename_i b c hc
        exact hone t h _ c hc
      · rename_i c hc
        rw [ih]
        exact hone t h _ c hc
  have hconsume := hall g.scopes h
  unfold LimitGuards.admitRequest
  split
  · rfl
  · split <;> rename_i heq <;> rw [heq] at hconsume <;> exact hconsume

/-- Usage that is settled in a window of a budget. -/
def Use.Within (s : ScopePolicy) (p : BudgetPeriod) (epoch : ℕ) : Use → Prop
  | .admitRequest _ => True
  | .settle nowMs _ _ => p.epoch nowMs s.anchorOffsetMinutes = epoch

theorem InZone.answers {s : ScopeSlot} (hs : s ∈ g.scopes) {p : BudgetPeriod} {epoch permille : ℕ}
    {uses : List Use} (hin : ∀ u ∈ uses, u.Within s.policy p epoch)
    (hz : InZone s.policy (h.get s) p epoch permille) :
    InZone s.policy ((answers g h uses).2.get s) p epoch permille := by
  induction uses generalizing h with
  | nil => exact hz
  | cons u uses ih =>
    have hin' : ∀ u ∈ uses, u.Within s.policy p epoch := fun u hu => hin u (List.mem_cons_of_mem _ hu)
    cases u with
    | admitRequest nowMs =>
      refine ih (h := (g.admitRequest nowMs h).2) hin' ?_
      unfold InZone at hz ⊢
      rw [admitRequest_spend]
      exact hz
    | settle nowMs totalTokens costMicroUsd =>
      refine ih (h := (g.settle nowMs h totalTokens costMicroUsd).2) hin' ?_
      have hwindow : p.epoch nowMs s.policy.anchorOffsetMinutes = epoch := hin _ List.mem_cons_self
      have hget := settleAll_get g.scopes_kinds nowMs totalTokens costMicroUsd h hs
      unfold LimitGuards.settle
      rw [hget]
      exact hz.settle totalTokens costMicroUsd hwindow

/-- **An alert is followed by warnings.** A settlement fires an alert for one of its scopes. Whatever is
admitted and settled after it, until the window of that budget is over every response has a warning
that is at least as urgent as the alert. -/
theorem alert_then_warning {totalTokens costMicroUsd : ℕ} {a : SpendAlert}
    (ha : a ∈ (g.settle nowMs h totalTokens costMicroUsd).1) :
    ∃ s ∈ g.scopes, a.scope = s.policy.scope ∧ ∀ (uses : List Use) (laterMs : ℕ),
      (∀ u ∈ uses, u.Within s.policy a.period (a.period.epoch nowMs s.policy.anchorOffsetMinutes)) →
      a.period.epoch laterMs s.policy.anchorOffsetMinutes =
        a.period.epoch nowMs s.policy.anchorOffsetMinutes →
      ∃ w ∈ g.warning laterMs (answers g (g.settle nowMs h totalTokens costMicroUsd).2 uses).2,
        a.consumedPermille ≤ w.consumedPermille := by
  obtain ⟨s, hs, halert⟩ := settleAll_alerts g.scopes_kinds nowMs totalTokens costMicroUsd h ha
  obtain ⟨hscope, hz⟩ := settle_alert halert
  refine ⟨s, hs, hscope, fun uses laterMs hin hlater => warning_of_scope hs ?_⟩
  have hget := settleAll_get g.scopes_kinds nowMs totalTokens costMicroUsd h hs
  rw [← hget] at hz
  have hrun := hz.answers hs hin
  rw [← hlater] at hrun
  exact hrun.warns

/-- A daily budget of 1000 micro-USD, with a word when half of it is spent. -/
def halfTold : BudgetLimits where
  costMicroUsdDaily := some 1000
  softThresholdPermille := some 500

def toldAtHalf : Live :=
  .start [{ routeplaneKey := "k", tenantId := "t", limits := { key := some { budget := halfTold } } }] 1

theorem alert_then_warning_half :
    ∃ w ∈ (toldAtHalf.guardsOf "k" "t" none).warning 5000
      ((toldAtHalf.guardsOf "k" "t" none).settle 0 toldAtHalf.heap 10 600).2,
      600 ≤ w.consumedPermille := by
  have ha : (⟨.key, .daily, 500, 600⟩ : SpendAlert) ∈
      ((toldAtHalf.guardsOf "k" "t" none).settle 0 toldAtHalf.heap 10 600).1 := by
    decide +kernel
  obtain ⟨s, -, -, hwarn⟩ := alert_then_warning ha
  have hday : ∀ off : ℤ, dayEpoch 5000 off = dayEpoch 0 off := by
    intro off
    unfold dayEpoch shifted minuteMs dayMs
    omega
  exact hwarn [] 5000 (fun u hu => absurd hu List.not_mem_nil) (hday _)

end Routeplane.Limits
