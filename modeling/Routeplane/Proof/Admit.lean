import Routeplane.Proof.Fleet

/-!
# What an admission consumes

A request takes one slot of each of its scopes in turn, and nothing is given back: a scope that
refuses leaves the slots of the scopes before it taken. A scope's count is the number of requests
that passed it, whether or not a later scope then refused them.

* `passed`, `counted`: the scopes a call has counted against, read off how far it is.
* `denied_admission_consumes`: a denial that cost another scope a slot.
* `admit_counts_passed`: what one call adds to each counter, and what a run of calls does.
-/

namespace Routeplane.Limits

namespace LimitGuards

variable (g : LimitGuards)

/-- The scopes whose local slot a call of the local engine has taken. A request breach names the
scope that refused; any other breach is found before the first slot is taken. -/
def passed : Phase → List ScopeSlot
  | .consuming ss => g.scopes.take (g.scopes.length - ss.length)
  | .done (.allowed _) => g.scopes
  | .done (.denied b) =>
    if b.kind = .rateRequests then g.scopes.takeWhile fun s => s.policy.scope ≠ b.scope else []
  | _ => []

/-- The scopes whose Redis counter a distributed call has added to, the refusing one included. -/
def counted : Phase → List RequestRateSpec
  | .escalating specs => g.requestRateSpecs.take (g.requestRateSpecs.length - specs.length)
  | .done (.allowed _) => g.requestRateSpecs
  | .done (.denied b) =>
    if b.kind = .rateRequests then
      (g.requestRateSpecs.takeWhile fun s => s.scope ≠ b.scope) ++
        g.requestRateSpecs.filter fun s => s.scope = b.scope
    else []
  | _ => []

end LimitGuards

/-! ## The local engine, one action at a time -/

namespace ScopePolicy

section Check

variable {P : Breach → Prop} {x : Option Breach} {y : Unit → Option Breach} {limit : Option ℕ}
  {count : ℕ} {breach : ℕ → Breach}

theorem of_reached (h : ∀ l, P (breach l)) : ∀ b ∈ reached limit count breach, P b := by
  intro b hb
  unfold reached at hb
  cases limit with
  | none => cases hb
  | some l =>
    simp only at hb
    split at hb
    · cases hb
      exact h l
    · cases hb

theorem of_orElse (hx : ∀ b ∈ x, P b) (hy : ∀ b ∈ y (), P b) : ∀ b ∈ x.orElse y, P b := by
  cases x with
  | none => exact hy
  | some a => exact hx

end Check

/-- A breach of the check is not one of the request window. -/
theorem check_kind {s : ScopePolicy} {c : Counters} {nowMs : ℕ} :
    ∀ b ∈ s.check c nowMs, b.kind ≠ .rateRequests := by
  unfold check
  refine of_orElse ?_ ?_
  · split
    · exact of_reached fun _ => by simp [rateBreach]
    · intro b hb
      cases hb
  · split
    · refine of_orElse (of_reached fun _ => by simp [budgetBreach]) ?_
      refine of_orElse (of_reached fun _ => by simp [budgetBreach]) ?_
      refine of_orElse (of_reached fun _ => by simp [budgetBreach]) ?_
      exact of_reached fun _ => by simp [budgetBreach]
    · intro b hb
      cases hb

end ScopePolicy

namespace LimitGuards

variable {g : LimitGuards} {nowMs : ℕ} {h : Heap}

theorem firstBreach_kind : ∀ b ∈ g.firstBreach nowMs h, b.kind ≠ .rateRequests := by
  intro b hb
  obtain ⟨s, -, hs⟩ := List.exists_of_findSome?_eq_some hb
  exact ScopePolicy.check_kind b hs

/-- Where the scopes of a guard split, the ones before are of other kinds. -/
theorem takeWhile_scopes {pre ss : List ScopeSlot} {s : ScopeSlot}
    (hsplit : g.scopes = pre ++ s :: ss) :
    g.scopes.takeWhile (fun t => t.policy.scope ≠ s.policy.scope) = pre := by
  have hkinds := g.scopes_kinds
  rw [hsplit, List.pairwise_append] at hkinds
  have hpre : ∀ t ∈ pre, t.policy.scope ≠ s.policy.scope := fun t ht =>
    hkinds.2.2 t ht s List.mem_cons_self
  rw [hsplit, List.takeWhile_append_of_pos (by simpa using hpre)]
  simp

/-- A call of the local engine: it has not started, is at a scope, or has its answer. -/
def Local (g : LimitGuards) : Phase → Prop
  | .checking => True
  | .consuming ss => ss <:+ g.scopes
  | .done _ => True
  | _ => False

theorem passed_consuming {pre ss : List ScopeSlot} (hsplit : g.scopes = pre ++ ss) :
    g.passed (.consuming ss) = pre := by
  show g.scopes.take (g.scopes.length - ss.length) = pre
  rw [hsplit, List.length_append, Nat.add_sub_cancel, List.take_left']
  rfl

variable {d : DistributedLimiter} {trip : Trip} {r : Redis} {ph : Phase}

variable (d nowMs h trip r) in
/-- **One action of the local engine takes a slot of the next scope, or changes nothing.** -/
theorem next_local (hl : g.Local ph) :
    g.Local (Phase.next d g nowMs trip ph (h, r)).1 ∧
      ((g.passed (Phase.next d g nowMs trip ph (h, r)).1 = g.passed ph ∧
          (Phase.next d g nowMs trip ph (h, r)).2.1 = h) ∨
        ∃ pre s ss, g.scopes = pre ++ s :: ss ∧ g.passed ph = pre ∧
          g.passed (Phase.next d g nowMs trip ph (h, r)).1 = pre ++ [s] ∧
          ¬s.policy.Full (h.get s) nowMs ∧
          (Phase.next d g nowMs trip ph (h, r)).2.1 =
            h.set s (s.policy.consumeRequest (h.get s) nowMs).2) := by
  cases ph with
  | ready => exact hl.elim
  | escalating specs => exact hl.elim
  | checking =>
    simp only [Phase.next]
    cases hb : g.firstBreach nowMs h with
    | some b =>
      have hkind := firstBreach_kind b hb
      refine ⟨trivial, Or.inl ⟨?_, rfl⟩⟩
      simp only [passed, if_neg hkind]
    | none =>
      have hfirst : g.passed (.consuming g.scopes) = [] := passed_consuming rfl
      exact ⟨List.suffix_refl _, Or.inl ⟨hfirst, rfl⟩⟩
  | consuming ss =>
    obtain ⟨pre, hsplit⟩ := hl
    have hpassed : g.passed (.consuming ss) = pre := passed_consuming hsplit.symm
    cases ss with
    | nil =>
      have hall : g.scopes = pre := by rw [← hsplit, List.append_nil]
      refine ⟨trivial, Or.inl ⟨?_, rfl⟩⟩
      rw [hpassed, ← hall]
      rfl
    | cons s ss =>
      by_cases hfull : s.policy.Full (h.get s) nowMs
      · -- the scope refuses: what was taken before it stays taken
        obtain ⟨limit, -, heq⟩ := ScopePolicy.consumeRequest_full hfull
        simp only [Phase.next, heq]
        refine ⟨trivial, Or.inl ⟨?_, h.set_get⟩⟩
        rw [hpassed]
        exact takeWhile_scopes hsplit.symm
      · have hnext : (s.policy.consumeRequest (h.get s) nowMs).1 = none := by
          cases hlimit : s.policy.requestsPerMin with
          | none => rw [ScopePolicy.consumeRequest_none hlimit]
          | some limit => rw [ScopePolicy.consumeRequest_some hlimit hfull]
        have hsplit' : g.scopes = (pre ++ [s]) ++ ss := by
          rw [← hsplit, List.append_assoc]
          rfl
        have hstep : Phase.next d g nowMs trip (.consuming (s :: ss)) (h, r) =
            (.consuming ss, h.set s (s.policy.consumeRequest (h.get s) nowMs).2, r) := by
          simp only [Phase.next]
          generalize s.policy.consumeRequest (h.get s) nowMs = taken at hnext
          obtain ⟨b, c⟩ := taken
          subst hnext
          rfl
        rw [hstep]
        exact ⟨⟨pre ++ [s], hsplit'.symm⟩,
          Or.inr ⟨pre, s, ss, hsplit.symm, hpassed, passed_consuming hsplit', hfull, rfl⟩⟩
  | done a => exact ⟨trivial, Or.inl ⟨rfl, rfl⟩⟩

/-- A request slot has been taken at the place of `t`. -/
def TakenAt (g : LimitGuards) (ph : Phase) (t : ScopeSlot) : Prop :=
  ∃ s ∈ g.passed ph, s.Aliases t ∧ s.policy.requestsPerMin.isSome

instance (g : LimitGuards) (ph : Phase) (t : ScopeSlot) : Decidable (g.TakenAt ph t) :=
  inferInstanceAs (Decidable (∃ s ∈ _, _))

variable (d nowMs h trip r) in
/-- The same for the word of one request window. -/
theorem next_word (hl : g.Local ph) (t : ScopeSlot) :
    ((g.TakenAt (Phase.next d g nowMs trip ph (h, r)).1 t ↔ g.TakenAt ph t) ∧
        ((Phase.next d g nowMs trip ph (h, r)).2.1.get t).req = (h.get t).req) ∨
      ¬g.TakenAt ph t ∧ g.TakenAt (Phase.next d g nowMs trip ph (h, r)).1 t ∧
        ((Phase.next d g nowMs trip ph (h, r)).2.1.get t).req =
          pack (minuteEpoch nowMs &&& epochMask)
            (min (peek (minuteEpoch nowMs) (h.get t).req + 1) countMask) := by
  obtain ⟨-, ⟨hpassed, hheap⟩ | ⟨pre, s, ss, hsplit, hbefore, hafter, hfull, hheap⟩⟩ :=
    next_local nowMs h d trip r hl
  · left
    unfold TakenAt
    rw [hpassed, hheap]
    exact ⟨Iff.rfl, rfl⟩
  · by_cases hat : s.Aliases t ∧ s.policy.requestsPerMin.isSome
    · obtain ⟨halias, hsome⟩ := hat
      obtain ⟨limit, hlimit⟩ := Option.isSome_iff_exists.1 hsome
      have hget : h.get t = h.get s := by
        unfold Heap.get
        rw [halias.1, halias.2]
      right
      unfold TakenAt
      rw [hbefore, hafter, hheap]
      refine ⟨?_, ⟨s, by simp, halias, hsome⟩, ?_⟩
      · -- the scopes before it are elsewhere
        rintro ⟨u, hu, hut, -⟩
        have hkinds := g.scopes_kinds
        rw [hsplit, List.pairwise_append] at hkinds
        exact hkinds.2.2 u hu s List.mem_cons_self (hut.1.trans halias.1.symm)
      · rw [Heap.get_set_of_aliases h _ halias, ScopePolicy.consumeRequest_some hlimit hfull, hget]
    · left
      unfold TakenAt
      rw [hbefore, hafter, hheap]
      constructor
      · simp only [List.mem_append, List.mem_singleton]
        constructor
        · rintro ⟨u, hu | rfl, hut⟩
          · exact ⟨u, hu, hut⟩
          · exact absurd hut hat
        · rintro ⟨u, hu, hut⟩
          exact ⟨u, Or.inl hu, hut⟩
      · by_cases halias : s.Aliases t
        · have hnone : s.policy.requestsPerMin = none := by
            cases hlimit : s.policy.requestsPerMin with
            | none => rfl
            | some limit => exact absurd ⟨halias, by rw [hlimit]; rfl⟩ hat
          rw [ScopePolicy.consumeRequest_none hnone, Heap.set_get]
        · rw [Heap.get_set_of_not_aliases h _ halias]

/-- **What one call of the local engine consumes.** Undisturbed, it adds one to the scopes it passed
and leaves the others; so a denial by the check consumes nothing, and one by a full window what
the scopes before it cost. -/
theorem peek_admitRequest (g : LimitGuards) (nowMs : ℕ) (h : Heap) (t : ScopeSlot) :
    peek (minuteEpoch nowMs) ((g.admitRequest nowMs h).2.get t).req =
      if g.TakenAt (.done (g.admitRequest nowMs h).1) t then
        min (peek (minuteEpoch nowMs) (h.get t).req + 1) countMask
      else peek (minuteEpoch nowMs) (h.get t).req := by
  have hreach : Phase.Reaches ⟨.closed, ""⟩ g nowMs (fun _ => True) (.checking, h, fun _ => none) _ :=
    reaches_checking (default : Trip) trivial h fun _ => none
  have hinv := hreach.invariant
    (fun x : Phase × Heap × Redis => g.Local x.1 ∧
      peek (minuteEpoch nowMs) (x.2.1.get t).req =
        if g.TakenAt x.1 t then min (peek (minuteEpoch nowMs) (h.get t).req + 1) countMask
        else peek (minuteEpoch nowMs) (h.get t).req) ?_ ⟨trivial, ?_⟩
  · exact hinv.2
  · rintro ⟨ph, h', r⟩ trip - ⟨hl, hword⟩
    refine ⟨(next_local nowMs h' _ trip r hl).1, ?_⟩
    rcases next_word nowMs h' ⟨.closed, ""⟩ trip r hl t
      with ⟨hiff, heq⟩ | ⟨hno, hyes, heq⟩
    · simp only [hiff, heq]
      exact hword
    · have hsame : SameEpoch (minuteEpoch nowMs) (minuteEpoch nowMs) := rfl
      rw [if_neg hno] at hword
      rw [if_pos hyes, heq, peek_pack (min_le_right _ _), if_pos hsame, hword]
  · have hnot : ¬g.TakenAt .checking t := by
      rintro ⟨s, hs, -⟩
      exact absurd hs List.not_mem_nil
    rw [if_neg hnot]

end LimitGuards

/-! ## Runs of the local engine -/

variable {ι κ : Type} [DecidableEq ι] [DecidableEq κ]

def Fleet.startAt (ph : Phase) (heaps : κ → Heap) (redis : Redis) : Fleet ι κ :=
  ⟨heaps, redis, fun _ => ph⟩

/-- The fleets reached by actions no call of which is stamped with an older minute than the newest
that has acted, with that newest minute. -/
inductive Fleet.InTime (d : DistributedLimiter) (callers : ι → Caller κ) (start : Fleet ι κ) :
    ℕ → Fleet ι κ → Prop
  | start : InTime d callers start 0 start
  | act {w : ℕ} {f : Fleet ι κ} (i : ι) (trip : Trip) (h : InTime d callers start w f)
      (hw : w ≤ minuteEpoch (callers i).nowMs) :
      InTime d callers start (minuteEpoch (callers i).nowMs) (f.act d callers i trip)

/-- Call `i` has taken a slot of minute `w` at the place of `t` on replica `k`. -/
def Fleet.Took (callers : ι → Caller κ) (f : Fleet ι κ) (k : κ) (t : ScopeSlot) (w : ℕ) (i : ι) :
    Prop :=
  (callers i).replica = k ∧ minuteEpoch (callers i).nowMs = w ∧
    (callers i).guards.TakenAt (f.phase i) t

instance (callers : ι → Caller κ) (f : Fleet ι κ) (k : κ) (t : ScopeSlot) (w : ℕ) :
    DecidablePred (f.Took callers k t w) := fun _ => inferInstanceAs (Decidable (_ ∧ _ ∧ _))

section Count

variable [Fintype ι] {p q : ι → Prop} [DecidablePred p] [DecidablePred q] {i : ι}

omit [DecidableEq ι] in
theorem count_congr (h : ∀ j, q j ↔ p j) :
    (Finset.univ.filter q).card = (Finset.univ.filter p).card := by
  rw [Finset.filter_congr fun j _ => h j]

/-- One more call counts. -/
theorem count_succ (hp : ¬p i) (hq : q i) (h : ∀ j, j ≠ i → (q j ↔ p j)) :
    (Finset.univ.filter q).card = (Finset.univ.filter p).card + 1 := by
  have hinsert : Finset.univ.filter q = insert i (Finset.univ.filter p) := by
    ext j
    simp only [Finset.mem_filter, Finset.mem_univ, true_and, Finset.mem_insert]
    by_cases hj : j = i
    · subst hj
      simp [hq]
    · simp [hj, h j hj]
  rw [hinsert, Finset.card_insert_of_notMem (by simp [hp])]

end Count

section Local

variable {d : DistributedLimiter} {callers : ι → Caller κ} {f : Fleet ι κ} {i : ι} {trip : Trip}
  {heaps : κ → Heap} {redis : Redis} {w : ℕ} {k : κ} {t : ScopeSlot}

theorem act_phase_ne {j : ι} (hj : j ≠ i) : (f.act d callers i trip).phase j = f.phase j := by
  rw [act_phase, Function.update_of_ne hj]

theorem act_heaps_ne (hk : k ≠ (callers i).replica) :
    (f.act d callers i trip).heaps k = f.heaps k := by
  rw [act_heaps, Function.update_of_ne hk]

variable (d trip k t) in
/-- One action, seen from the request window at one place: the calls that took a slot there and
the word stay, or the acting call is a new one and the word counts one more. -/
theorem act_word (hl : (callers i).guards.Local (f.phase i)) :
    ((∀ v j, (f.act d callers i trip).Took callers k t v j ↔ f.Took callers k t v j) ∧
        (((f.act d callers i trip).heaps k).get t).req = ((f.heaps k).get t).req) ∨
      ¬f.Took callers k t (minuteEpoch (callers i).nowMs) i ∧
        (f.act d callers i trip).Took callers k t (minuteEpoch (callers i).nowMs) i ∧
        (((f.act d callers i trip).heaps k).get t).req =
          pack (minuteEpoch (callers i).nowMs &&& epochMask)
            (min (peek (minuteEpoch (callers i).nowMs) ((f.heaps k).get t).req + 1) countMask) := by
  have hphase := act_phase d callers f i trip
  by_cases hk : (callers i).replica = k
  · subst hk
    rcases LimitGuards.next_word (callers i).nowMs (f.heaps (callers i).replica) d trip f.redis
      hl t with ⟨hiff, heq⟩ | ⟨hno, hyes, heq⟩
    · left
      constructor
      · intro v j
        unfold Fleet.Took
        by_cases hj : j = i
        · subst hj
          rw [hphase, Function.update_self, hiff]
        · rw [act_phase_ne hj]
      · rw [act_heaps, Function.update_self]
        exact heq
    · right
      refine ⟨fun htook => hno htook.2.2, ⟨rfl, rfl, ?_⟩, ?_⟩
      · rw [hphase, Function.update_self]
        exact hyes
      · rw [act_heaps, Function.update_self]
        exact heq
  · -- another replica
    left
    constructor
    · intro v j
      unfold Fleet.Took
      by_cases hj : j = i
      · subst hj
        simp only [hk, false_and]
      · rw [act_phase_ne hj]
    · rw [act_heaps_ne (Ne.symm hk)]

/-- Along a run in time: what a window counts is what was taken in its minute, and calls of a
later minute have not acted. -/
structure LocalInv (callers : ι → Caller κ) [Fintype ι] (w : ℕ) (f : Fleet ι κ) : Prop where
  tracks : ∀ i, (callers i).guards.Local (f.phase i)
  waits : ∀ i, w < minuteEpoch (callers i).nowMs → f.phase i = .checking
  counts : ∀ k t i, w ≤ minuteEpoch (callers i).nowMs →
    peek (minuteEpoch (callers i).nowMs) ((f.heaps k).get t).req =
      min (Finset.univ.filter (f.Took callers k t (minuteEpoch (callers i).nowMs))).card countMask

variable [Fintype ι]

omit [DecidableEq κ] in
theorem peek_zero_word (h : ((heaps k).get t).req = 0) (v : ℕ) :
    peek v ((heaps k).get t).req = 0 := by
  rw [h, peek_zero]

omit [DecidableEq ι] [DecidableEq κ] [Fintype ι] in
theorem not_took_of_checking {v : ℕ} {j : ι} (h : f.phase j = .checking) :
    ¬f.Took callers k t v j := by
  rintro ⟨-, -, htaken⟩
  rw [h] at htaken
  obtain ⟨s, hs, -⟩ := htaken
  exact absurd hs List.not_mem_nil

omit [DecidableEq ι] in
theorem LocalInv.start (hfresh : ∀ k t, ((heaps k).get t).req = 0) :
    LocalInv callers 0 (Fleet.startAt .checking heaps redis) where
  tracks _ := trivial
  waits _ _ := rfl
  counts k t i _ := by
    have hnone : Finset.univ.filter ((Fleet.startAt .checking heaps redis).Took callers k t
        (minuteEpoch (callers i).nowMs)) = ∅ :=
      Finset.filter_eq_empty_iff.2 fun _ _ => not_took_of_checking rfl
    rw [hnone, Finset.card_empty, Nat.zero_min]
    exact peek_zero_word (hfresh k t) _

/-- **One action in time.** -/
theorem LocalInv.act
    (hfar : ∀ i j, SameEpoch (minuteEpoch (callers i).nowMs) (minuteEpoch (callers j).nowMs) →
      minuteEpoch (callers i).nowMs = minuteEpoch (callers j).nowMs)
    (hi : LocalInv callers w f) (hw : w ≤ minuteEpoch (callers i).nowMs) :
    LocalInv callers (minuteEpoch (callers i).nowMs) (f.act d callers i trip) where
  tracks j := by
    by_cases hj : j = i
    · subst hj
      rw [act_phase, Function.update_self]
      exact (LimitGuards.next_local _ _ d trip _ (hi.tracks j)).1
    · rw [act_phase_ne hj]
      exact hi.tracks j
  waits j hj := by
    have hne : j ≠ i := by
      rintro rfl
      exact lt_irrefl _ hj
    rw [act_phase_ne hne]
    exact hi.waits j (lt_of_le_of_lt hw hj)
  counts k t j hj := by
    have hbefore := hi.counts k t j (hw.trans hj)
    rcases act_word d trip k t (hi.tracks i) with
      ⟨htook, hword⟩ | ⟨hno, hyes, hword⟩
    · rw [hword, hbefore, count_congr (htook _)]
    · have hothers : ∀ v l, l ≠ i →
          ((f.act d callers i trip).Took callers k t v l ↔ f.Took callers k t v l) := by
        intro v l hl
        unfold Fleet.Took
        rw [act_phase_ne hl]
      rw [hword, peek_pack (min_le_right _ _)]
      rcases Nat.eq_or_lt_of_le hj with heq | hlt
      · -- the minute of the acting call: one more
        have hsame : SameEpoch (minuteEpoch (callers i).nowMs) (minuteEpoch (callers j).nowMs) :=
          congrArg (· % 2 ^ 24) heq
        rw [if_pos hsame, ← heq, count_succ hno hyes (hothers _), hi.counts k t i hw]
        omega
      · -- a later minute: none has taken a slot
        have hne : ¬SameEpoch (minuteEpoch (callers i).nowMs) (minuteEpoch (callers j).nowMs) :=
          fun hsame => absurd (hfar i j hsame) (Nat.ne_of_lt hlt)
        rw [if_neg hne]
        have hnone : Finset.univ.filter ((f.act d callers i trip).Took callers k t
            (minuteEpoch (callers j).nowMs)) = ∅ := by
          refine Finset.filter_eq_empty_iff.2 fun l _ htook => ?_
          have hlate : w < minuteEpoch (callers l).nowMs := by
            rw [htook.2.1]
            omega
          by_cases hl : l = i
          · subst hl
            have := htook.2.1
            omega
          · rw [hothers _ _ hl] at htook
            exact not_took_of_checking (hi.waits l hlate) htook
        rw [hnone, Finset.card_empty, Nat.zero_min]

/-- A run in time, action by action. -/
theorem LocalInv.run (hfresh : ∀ k t, ((heaps k).get t).req = 0)
    (hfar : ∀ i j, SameEpoch (minuteEpoch (callers i).nowMs) (minuteEpoch (callers j).nowMs) →
      minuteEpoch (callers i).nowMs = minuteEpoch (callers j).nowMs)
    (hrun : Fleet.InTime d callers (Fleet.startAt .checking heaps redis) w f) :
    LocalInv callers w f := by
  induction hrun with
  | start => exact LocalInv.start hfresh
  | act i trip _ hw ih => exact ih.act hfar hw

end Local

/-! ## The Redis counters -/

/-- Scopes of different kinds have different counters. -/
theorem counterKey_ne {k l : LimitScope} (hkl : k ≠ l) (keyPrefix i j kind : String) (e : ℕ) :
    counterKey keyPrefix k i kind e ≠ counterKey keyPrefix l j kind e := by
  intro heq
  unfold counterKey at heq
  have hlist := congrArg String.toList heq
  simp only [String.toList_append, List.append_assoc, List.append_cancel_left_eq] at hlist
  cases k <;> cases l <;> simp [LimitScope.header] at hlist hkl

namespace LimitGuards

variable {g : LimitGuards} {nowMs : ℕ} {h : Heap} {d : DistributedLimiter} {trip : Trip}
  {r : Redis} {ph : Phase}

theorem specs_kinds (g : LimitGuards) :
    g.requestRateSpecs.Pairwise fun s t => s.scope ≠ t.scope := by
  unfold requestRateSpecs
  rw [List.pairwise_filterMap]
  refine g.scopes_kinds.imp fun {s t} hne a ha b hb => ?_
  obtain ⟨-, -, rfl⟩ := Option.map_eq_some_iff.1 ha
  obtain ⟨-, -, rfl⟩ := Option.map_eq_some_iff.1 hb
  exact hne

theorem specs_eq_nil (hu : g.isUnlimited = true) : g.requestRateSpecs = [] := by
  unfold requestRateSpecs
  rw [scopes_eq_nil.2 hu]
  rfl

/-- Where the specs of a guard split, no spec before is of the same counter. -/
theorem specKey_ne {pre specs : List RequestRateSpec} {spec : RequestRateSpec}
    (hsplit : g.requestRateSpecs = pre ++ spec :: specs) (d : DistributedLimiter) (nowMs : ℕ) :
    (∀ t ∈ pre, d.specKey nowMs t ≠ d.specKey nowMs spec) ∧
      ∀ t ∈ specs, d.specKey nowMs t ≠ d.specKey nowMs spec := by
  have hkinds := g.specs_kinds
  rw [hsplit, List.pairwise_append, List.pairwise_cons] at hkinds
  obtain ⟨-, ⟨hafter, -⟩, hbefore⟩ := hkinds
  exact ⟨fun t ht => counterKey_ne (hbefore t ht spec List.mem_cons_self) _ _ _ _ _,
    fun t ht => counterKey_ne (hafter t ht).symm _ _ _ _ _⟩

theorem counted_escalating {pre specs : List RequestRateSpec}
    (hsplit : g.requestRateSpecs = pre ++ specs) : g.counted (.escalating specs) = pre := by
  show g.requestRateSpecs.take (g.requestRateSpecs.length - specs.length) = pre
  rw [hsplit, List.length_append, Nat.add_sub_cancel, List.take_left']
  rfl

/-- A scope that refuses has counted the request. -/
theorem counted_over {pre specs : List RequestRateSpec} {spec : RequestRateSpec} {b : Breach}
    (hsplit : g.requestRateSpecs = pre ++ spec :: specs) (hkind : b.kind = .rateRequests)
    (hscope : b.scope = spec.scope) : g.counted (.done (.denied b)) = pre ++ [spec] := by
  have hkinds := g.specs_kinds
  rw [hsplit, List.pairwise_append, List.pairwise_cons] at hkinds
  obtain ⟨-, ⟨hafter, -⟩, hbefore⟩ := hkinds
  have hpre : ∀ t ∈ pre, t.scope ≠ spec.scope := fun t ht =>
    hbefore t ht spec List.mem_cons_self
  have htake : g.requestRateSpecs.takeWhile (fun s => s.scope ≠ b.scope) = pre := by
    rw [hsplit, hscope, List.takeWhile_append_of_pos (by simpa using hpre)]
    simp
  have hfilter : g.requestRateSpecs.filter (fun s => s.scope = b.scope) = [spec] := by
    have hnone : pre.filter (fun s => decide (s.scope = spec.scope)) = [] :=
      List.filter_eq_nil_iff.2 (by simpa using hpre)
    have hrest : specs.filter (fun s => decide (s.scope = spec.scope)) = [] :=
      List.filter_eq_nil_iff.2 (by simpa using fun t ht => (hafter t ht).symm)
    rw [hsplit, hscope, List.filter_append, hnone, List.filter_cons_of_pos (by simp), hrest]
    rfl
  show (if b.kind = .rateRequests then _ else _) = _
  rw [if_pos hkind, htake, hfilter]

/-- A distributed call: only one without scopes uses the local engine. -/
def Shared (g : LimitGuards) : Phase → Prop
  | .ready => True
  | .escalating specs => specs <:+ g.requestRateSpecs
  | .checking => g.isUnlimited
  | .consuming ss => g.isUnlimited ∧ ss = []
  | .done _ => True

variable (d nowMs h r) in
/-- **One action of a distributed call that does not fail counts against the next scope, or changes
nothing.** -/
theorem next_shared (hs : g.Shared ph) (hok : trip.fault = none) :
    g.Shared (Phase.next d g nowMs trip ph (h, r)).1 ∧
      (Phase.next d g nowMs trip ph (h, r)).2.1 = h ∧
      ((g.counted (Phase.next d g nowMs trip ph (h, r)).1 = g.counted ph ∧
          (Phase.next d g nowMs trip ph (h, r)).2.2 = r) ∨
        ∃ pre spec specs, g.requestRateSpecs = pre ++ spec :: specs ∧ g.counted ph = pre ∧
          g.counted (Phase.next d g nowMs trip ph (h, r)).1 = pre ++ [spec] ∧
          (Phase.next d g nowMs trip ph (h, r)).2.2 =
            (redisIncr trip (d.specKey nowMs spec) 1 (windowTtlMs nowMs) r).2) := by
  cases ph with
  | ready =>
    simp only [Phase.next]
    by_cases hu : g.isUnlimited = true
    · rw [if_pos hu]
      exact ⟨hu, rfl, Or.inl ⟨rfl, rfl⟩⟩
    · rw [if_neg hu]
      unfold checkOnly
      cases hb : g.firstBreach nowMs h with
      | some b =>
        have hkind := firstBreach_kind b hb
        refine ⟨trivial, rfl, Or.inl ⟨?_, rfl⟩⟩
        simp only [counted, if_neg hkind]
      | none =>
        have hfirst : g.counted (.escalating g.requestRateSpecs) = [] := counted_escalating rfl
        exact ⟨List.suffix_refl _, rfl, Or.inl ⟨hfirst, rfl⟩⟩
  | escalating specs =>
    obtain ⟨pre, hsplit⟩ := hs
    have hcounted : g.counted (.escalating specs) = pre := counted_escalating hsplit.symm
    cases specs with
    | nil =>
      have hall : g.requestRateSpecs = pre := by rw [← hsplit, List.append_nil]
      refine ⟨trivial, rfl, Or.inl ⟨?_, rfl⟩⟩
      rw [hcounted, ← hall]
      rfl
    | cons spec specs =>
      obtain ⟨reply, hreply⟩ :=
        redisIncr_ok_of_none hok (d.specKey nowMs spec) 1 (windowTtlMs nowMs) r
      -- a refused request has been counted too
      by_cases hover : (spec.hard && decide (spec.limit < reply.1)) = true
      · rw [next_escalating_over hreply hover]
        exact ⟨trivial, rfl, Or.inr ⟨pre, spec, specs, hsplit.symm, hcounted,
          counted_over hsplit.symm rfl rfl, rfl⟩⟩
      · have hsplit' : g.requestRateSpecs = (pre ++ [spec]) ++ specs := by
          rw [← hsplit, List.append_assoc]
          rfl
        rw [next_escalating_pass hreply hover]
        exact ⟨⟨pre ++ [spec], hsplit'.symm⟩, rfl, Or.inr ⟨pre, spec, specs, hsplit.symm, hcounted,
          counted_escalating hsplit', rfl⟩⟩
  | checking =>
    have hnil : g.scopes = [] := scopes_eq_nil.2 hs
    have hnone : g.firstBreach nowMs h = none := by
      unfold firstBreach
      rw [hnil]
      rfl
    simp only [Phase.next, hnone]
    exact ⟨⟨hs, hnil⟩, trivial, Or.inl ⟨rfl, trivial⟩⟩
  | consuming ss =>
    obtain ⟨hu, rfl⟩ := hs
    exact ⟨trivial, rfl, Or.inl ⟨specs_eq_nil hu, rfl⟩⟩
  | done a => exact ⟨trivial, rfl, Or.inl ⟨rfl, rfl⟩⟩

/-- The request has been counted at a Redis counter. -/
def CountedAt (g : LimitGuards) (d : DistributedLimiter) (nowMs : ℕ) (ph : Phase) (key : String) :
    Prop :=
  ∃ spec ∈ g.counted ph, d.specKey nowMs spec = key

instance (g : LimitGuards) (d : DistributedLimiter) (nowMs : ℕ) (ph : Phase) (key : String) :
    Decidable (g.CountedAt d nowMs ph key) :=
  inferInstanceAs (Decidable (∃ spec ∈ _, _))

variable (d nowMs h) in
/-- The same for one counter, which must be alive when it is added to. -/
theorem next_count (hs : g.Shared ph) (hok : trip.fault = none) {key : String}
    (hlive : ¬g.CountedAt d nowMs ph key → ∀ e ∈ r key, e.LiveAt trip.clock) :
    ((g.CountedAt d nowMs (Phase.next d g nowMs trip ph (h, r)).1 key ↔
          g.CountedAt d nowMs ph key) ∧
        (Phase.next d g nowMs trip ph (h, r)).2.2 key = r key) ∨
      ¬g.CountedAt d nowMs ph key ∧
        g.CountedAt d nowMs (Phase.next d g nowMs trip ph (h, r)).1 key ∧
        (Phase.next d g nowMs trip ph (h, r)).2.2.count key = r.count key + 1 := by
  obtain ⟨-, -, ⟨hcounted, hredis⟩ | ⟨pre, spec, specs, hsplit, hbefore, hafter, hredis⟩⟩ :=
    next_shared nowMs h d r hs hok
  · left
    unfold CountedAt
    rw [hcounted, hredis]
    exact ⟨Iff.rfl, rfl⟩
  · by_cases hkey : d.specKey nowMs spec = key
    · subst hkey
      have hno : ¬g.CountedAt d nowMs ph (d.specKey nowMs spec) := by
        unfold CountedAt
        rw [hbefore]
        rintro ⟨t, ht, heq⟩
        exact (specKey_ne hsplit d nowMs).1 t ht heq
      obtain ⟨reply, hreply⟩ :=
        redisIncr_ok_of_none hok (d.specKey nowMs spec) 1 (windowTtlMs nowMs) r
      right
      refine ⟨hno, ?_, ?_⟩
      · unfold CountedAt
        rw [hafter]
        exact ⟨spec, by simp, rfl⟩
      · rw [hredis]
        exact (redisIncr_ok (hlive hno) hreply).2
    · left
      unfold CountedAt
      rw [hbefore, hafter, hredis]
      constructor
      · simp only [List.mem_append, List.mem_singleton]
        constructor
        · rintro ⟨t, ht | rfl, heq⟩
          · exact ⟨t, ht, heq⟩
          · exact absurd heq hkey
        · rintro ⟨t, ht, heq⟩
          exact ⟨t, Or.inl ht, heq⟩
      · exact redisIncr_other (Ne.symm hkey) trip 1 (windowTtlMs nowMs) r

/-- **What one distributed call consumes, when no call fails.** It leaves the local counters alone
and adds one to the Redis counters up to the one that refused. -/
theorem count_admitRequest (d : DistributedLimiter) (g : LimitGuards) (nowMs : ℕ) (trips : ℕ → Trip)
    (h : Heap) (r : Redis) (hok : ∀ n, (trips n).fault = none)
    (hlive : ∀ n key, ∀ e ∈ r key, e.LiveAt (trips n).clock) (key : String) :
    (d.admitRequest g nowMs trips (h, r)).2.1 = h ∧
      (d.admitRequest g nowMs trips (h, r)).2.2.count key = r.count key +
        if g.CountedAt d nowMs (.done (d.admitRequest g nowMs trips (h, r)).1) key then 1 else 0 := by
  have hreach : Phase.Reaches d g nowMs
      (fun trip => trip.fault = none ∧ ∀ key, ∀ e ∈ r key, e.LiveAt trip.clock) (.ready, h, r) _ :=
    reaches_admitRequest (fun n => ⟨hok n, hlive n⟩) (h, r)
  have hinv := hreach.invariant
    (fun x : Phase × Heap × Redis => g.Shared x.1 ∧ x.2.1 = h ∧
      (¬g.CountedAt d nowMs x.1 key → x.2.2 key = r key) ∧
      x.2.2.count key = r.count key + if g.CountedAt d nowMs x.1 key then 1 else 0) ?_ ?_
  · exact ⟨hinv.2.1, hinv.2.2.2⟩
  · rintro ⟨ph, h', r'⟩ trip ⟨hnone, htrip⟩ ⟨hs, rfl, huntouched, hcount⟩
    simp only at hs huntouched hcount
    obtain ⟨hs', hheap, -⟩ := next_shared nowMs h' d r' hs hnone
    refine ⟨hs', hheap, ?_⟩
    rcases next_count nowMs h' d hs hnone
      (fun hno e he => htrip key e (huntouched hno ▸ he)) with ⟨hiff, heq⟩ | ⟨hno, hyes, heq⟩
    · have hsame : (Phase.next d g nowMs trip ph (h', r')).2.2.count key = r'.count key := by
        unfold Redis.count
        rw [heq]
      simp only [hiff, heq, hsame]
      exact ⟨huntouched, hcount⟩
    · refine ⟨fun hn => absurd hyes hn, ?_⟩
      rw [if_neg hno] at hcount
      rw [if_pos hyes, heq, hcount]
  · have hnot : ¬g.CountedAt d nowMs .ready key := by
      rintro ⟨spec, hspec, -⟩
      exact absurd hspec List.not_mem_nil
    refine ⟨trivial, rfl, fun _ => rfl, ?_⟩
    rw [if_neg hnot]
    rfl

end LimitGuards

section Shared

variable {d : DistributedLimiter} {callers : ι → Caller κ} {f g : Fleet ι κ} {heaps : κ → Heap}
  {redis : Redis} {key : String}

/-- The calls that have been counted at a Redis counter. -/
def Fleet.Counted (d : DistributedLimiter) (callers : ι → Caller κ) (f : Fleet ι κ) (key : String)
    (i : ι) : Prop :=
  (callers i).guards.CountedAt d (callers i).nowMs (f.phase i) key

instance (d : DistributedLimiter) (callers : ι → Caller κ) (f : Fleet ι κ) (key : String) :
    DecidablePred (f.Counted d callers key) := fun i =>
  inferInstanceAs (Decidable ((callers i).guards.CountedAt d (callers i).nowMs (f.phase i) key))

/-- Some call acts, over a network on which no call fails and the counter is alive. -/
def Fleet.Acts (d : DistributedLimiter) (callers : ι → Caller κ) (key : String)
    (f g : Fleet ι κ) : Prop :=
  ∃ i trip, Network key false f.redis trip ∧ g = f.act d callers i trip

/-- Along a run without failures: the counter has grown by the calls it has counted. -/
structure SharedInv (d : DistributedLimiter) (callers : ι → Caller κ) [Fintype ι] (key : String)
    (base : ℕ) (f : Fleet ι κ) : Prop where
  tracks : ∀ i, (callers i).guards.Shared (f.phase i)
  counts : f.redis.count key = base + (Finset.univ.filter (f.Counted d callers key)).card

variable [Fintype ι]

omit [DecidableEq ι] [DecidableEq κ] in
theorem SharedInv.start :
    SharedInv d callers key (redis.count key) (Fleet.start heaps redis) where
  tracks _ := trivial
  counts := by
    have hnone : Finset.univ.filter ((Fleet.start heaps redis).Counted d callers key) = ∅ := by
      refine Finset.filter_eq_empty_iff.2 fun i _ => ?_
      rintro ⟨spec, hspec, -⟩
      exact absurd hspec List.not_mem_nil
    rw [hnone]
    rfl

theorem SharedInv.act {base : ℕ} (hi : SharedInv d callers key base f)
    (ha : f.Acts d callers key g) : SharedInv d callers key base g := by
  obtain ⟨i, trip, ⟨hlive, hfault⟩, rfl⟩ := ha
  have hok : trip.fault = none := by
    by_contra hne
    exact Bool.false_ne_true (hfault hne)
  have hothers : ∀ j, j ≠ i →
      ((f.act d callers i trip).Counted d callers key j ↔ f.Counted d callers key j) := by
    intro j hj
    unfold Fleet.Counted
    rw [act_phase_ne hj]
  constructor
  · intro j
    by_cases hj : j = i
    · subst hj
      rw [act_phase, Function.update_self]
      exact (LimitGuards.next_shared _ _ d _ (hi.tracks j) hok).1
    · rw [act_phase_ne hj]
      exact hi.tracks j
  · have hphase := act_phase d callers f i trip
    have hcounts := hi.counts
    rw [act_redis]
    rcases LimitGuards.next_count (callers i).nowMs (f.heaps (callers i).replica) d (hi.tracks i)
      hok (fun _ => hlive) with
      ⟨hiff, heq⟩ | ⟨hno, hyes, heq⟩
    · have hcongr : ∀ j,
          (f.act d callers i trip).Counted d callers key j ↔ f.Counted d callers key j := by
        intro j
        by_cases hj : j = i
        · subst hj
          unfold Fleet.Counted
          rw [hphase, Function.update_self, hiff]
        · exact hothers j hj
      rw [count_congr hcongr, ← hcounts]
      unfold Redis.count
      rw [heq]
    · have hnew : (f.act d callers i trip).Counted d callers key i := by
        unfold Fleet.Counted
        rw [hphase, Function.update_self]
        exact hyes
      have hold : ¬f.Counted d callers key i := hno
      rw [count_succ hold hnew hothers, heq, hcounts]
      omega

theorem SharedInv.run
    (hrun : Relation.ReflTransGen (Fleet.Acts d callers key) (Fleet.start heaps redis) f) :
    SharedInv d callers key (redis.count key) f := by
  induction hrun with
  | refl => exact SharedInv.start
  | tail _ ha ih => exact ih.act ha

end Shared

/-! ## Admission -/

/-- **A request counts at every scope it passed.** One call of either engine, and any run of
overlapping calls: each counter holds the requests that passed it, those a later scope refused
included, and a Redis counter the ones it refused itself too. -/
theorem admit_counts_passed :
    (∀ (g : LimitGuards) (nowMs : ℕ) (h : Heap) (t : ScopeSlot),
      peek (minuteEpoch nowMs) ((g.admitRequest nowMs h).2.get t).req =
        if g.TakenAt (.done (g.admitRequest nowMs h).1) t then
          min (peek (minuteEpoch nowMs) (h.get t).req + 1) countMask
        else peek (minuteEpoch nowMs) (h.get t).req) ∧
    (∀ (d : DistributedLimiter) (g : LimitGuards) (nowMs : ℕ) (trips : ℕ → Trip) (h : Heap)
      (r : Redis), (∀ n, (trips n).fault = none) →
      (∀ n key, ∀ e ∈ r key, e.LiveAt (trips n).clock) → ∀ key : String,
      (d.admitRequest g nowMs trips (h, r)).2.1 = h ∧
        (d.admitRequest g nowMs trips (h, r)).2.2.count key = r.count key +
          if g.CountedAt d nowMs (.done (d.admitRequest g nowMs trips (h, r)).1) key then 1 else 0) ∧
    (∀ (ι κ : Type) [Fintype ι] [DecidableEq ι] [DecidableEq κ] (d : DistributedLimiter)
      (callers : ι → Caller κ) (heaps : κ → Heap) (redis : Redis) (w : ℕ) (f : Fleet ι κ),
      (∀ k t, ((heaps k).get t).req = 0) →
      (∀ i j, SameEpoch (minuteEpoch (callers i).nowMs) (minuteEpoch (callers j).nowMs) →
        minuteEpoch (callers i).nowMs = minuteEpoch (callers j).nowMs) →
      Fleet.InTime d callers (Fleet.startAt .checking heaps redis) w f → ∀ k t,
      peek w ((f.heaps k).get t).req =
        min (Finset.univ.filter (f.Took callers k t w)).card countMask) ∧
    ∀ (ι κ : Type) [Fintype ι] [DecidableEq ι] [DecidableEq κ] (d : DistributedLimiter)
      (callers : ι → Caller κ) (heaps : κ → Heap) (redis : Redis) (key : String)
      (f : Fleet ι κ),
      Relation.ReflTransGen (Fleet.Acts d callers key) (Fleet.start heaps redis) f →
      f.redis.count key = redis.count key +
        (Finset.univ.filter (f.Counted d callers key)).card := by
  refine ⟨LimitGuards.peek_admitRequest, LimitGuards.count_admitRequest, ?_, ?_⟩
  · intro ι κ _ _ _ d callers heaps redis w f hfresh hfar hrun k t
    have hinv := LocalInv.run hfresh hfar hrun
    cases hrun with
    | start =>
      have hnone : Finset.univ.filter ((Fleet.startAt .checking heaps redis).Took callers k t 0) =
          ∅ :=
        Finset.filter_eq_empty_iff.2 fun _ _ => not_took_of_checking rfl
      rw [hnone, Finset.card_empty, Nat.zero_min]
      exact peek_zero_word (hfresh k t) 0
    | act i trip _ _ => exact hinv.counts k t i (le_refl _)
  · intro ι κ _ _ _ d callers heaps redis key f hrun
    exact (SharedInv.run hrun).counts

/-- A tenant of one request a minute refuses the second, which its key, with room for ten, has
counted. -/
theorem denied_admission_consumes :
    ¬∀ (entries : List KeyLimitsInput) (key tenant : String) (before : List ℕ) (nowMs : ℕ)
      (s : ScopeSlot) (b : Breach),
      let (registry, h) := LimitRegistry.buildWithReplicas entries 1 {}
      let g := registry.resolve key tenant
      let h := before.foldl (fun h t => (g.admitRequest t h).2) h
      (g.admitRequest nowMs h).1 = .denied b → s ∈ g.scopes →
        peek (minuteEpoch nowMs) ((g.admitRequest nowMs h).2.get s).req =
          peek (minuteEpoch nowMs) (h.get s).req := by
  intro h
  have hsame := h [⟨"k", "t", ⟨some ⟨none, some { requestsPerMin := some 10 }, none⟩,
    some ⟨none, some { requestsPerMin := some 1 }, none⟩, []⟩⟩] "k" "t" [0] 0
    ⟨⟨.key, "key:k", "key:k", some 10, some 10, none, .hard, none, none, none, none, 0, .hard, none⟩,
      0⟩ ⟨.rateRequests, .tenant, "tenant:t", 1, some 60000, 0⟩
  revert hsame
  decide

end Routeplane.Limits
