import Routeplane.Lib.Rollup
import Routeplane.Lib.Run
import Routeplane.Router.InFlight

/-!
# The gauges count the live guards

* `Inv.moved`: a caller moves on, and the gauges follow the guard it takes or drops.
* `gauges_exact`: in every interleaving a gauge is the number of live guards of its cell, and a
  half-open provider is probed under its threshold.
* `probe_alone`: uninterrupted, a probe does what it does on the tracker.
-/

namespace Routeplane.InFlight

variable {ι : Type} [Fintype ι] {s : State ι} {i : ι}

/-- The cell a caller is concerned with. -/
def Phase.cell : Phase → Option ℕ
  | .cloning c _ | .asking c | .loading c | .reserving c _ | .adding c | .holding c => some c
  | _ => none

/-- The cell a caller has a guard of. -/
def Phase.guard : Phase → Option ℕ
  | .holding c => some c
  | _ => none

/-! ## What a caller counts for -/

theorem Phase.guards_le (phase : Phase) (c : ℕ) : phase.guards c ≤ phase.clones c := by
  cases phase <;> simp [Phase.guards, Phase.clones]

theorem Phase.clones_le_one (phase : Phase) (c : ℕ) : phase.clones c ≤ 1 := by
  cases phase <;> simp only [Phase.clones, Nat.zero_le] <;> split <;> omega

theorem Phase.clones_of_cell {phase : Phase} {c : ℕ} (h : phase.cell ≠ some c) :
    phase.clones c = 0 := by
  cases phase <;> simp_all [Phase.cell, Phase.clones]

theorem Phase.guards_of_guard {phase : Phase} (h : phase.guard = none) (c : ℕ) :
    phase.guards c = 0 := by
  cases phase <;> simp_all [Phase.guard, Phase.guards]

/-! ## The invariant -/

structure Inv (s : State ι) : Prop where
  count_eq : ∀ c, s.count c = s.guards c
  clones_le : ∀ c, ∑ i, (s.caller i).clones c ≤ maxRefcount
  cell_lt : ∀ i c, (s.caller i).cell = some c → c < s.cells
  provider_lt : ∀ o p c, s.providers o p = some c → c < s.cells
  own_cell : ∀ o p o' p' c, s.providers o p = some c → s.providers o' p' = some c →
    o = o' ∧ p = p'
  under_cap : ∀ i c cur, s.caller i = .reserving c cur → cur < s.successThreshold c
  version_le : ∀ i o n snapshot version, s.caller i = .swapping o n snapshot version →
    version ≤ s.version
  snapshot_eq : ∀ i o n snapshot, s.caller i = .swapping o n snapshot s.version →
    snapshot = s.providers

variable (builtins : List String) (successThreshold : ℕ → ℕ)

theorem inv_start : Inv (start builtins successThreshold : State ι) where
  count_eq _ := (Tally.eq_zero fun _ => rfl).symm
  clones_le c := by
    have hzero : ∑ i : ι, Phase.clones c .idle = 0 := Finset.sum_eq_zero fun _ _ => rfl
    exact hzero.le.trans (Nat.zero_le _)
  cell_lt _ _ h := nomatch h
  provider_lt o p c h := by
    simp only [start] at h
    split at h
    · rename_i hp
      obtain rfl := Option.some.inj h
      exact List.idxOf_lt_length_of_mem hp.2
    · exact absurd h (by simp)
  own_cell o p o' p' c h h' := by
    simp only [start] at h h'
    split at h <;> split at h' <;> try contradiction
    rename_i hp hp'
    have hidx : builtins.idxOf p = builtins.idxOf p' := Option.some.inj (h.trans h'.symm)
    exact ⟨hp.1.trans hp'.1.symm, (List.idxOf_inj hp.2).1 hidx⟩
  under_cap _ _ _ h := nomatch h
  version_le _ _ _ _ _ h := nomatch h
  snapshot_eq _ _ _ _ h := nomatch h

/-- A live guard has its clone, and there are never enough clones to wrap a gauge. -/
theorem Inv.guards_lt (h : Inv s) (c : ℕ) : s.guards c < 2 ^ 64 - 1 := by
  have hle : s.guards c ≤ ∑ i, (s.caller i).clones c :=
    Tally.mono (fun phase => phase.guards_le c) s.caller
  have hmax := h.clones_le c
  unfold maxRefcount at hmax
  omega

theorem Inv.guards_pos {c : ℕ} (hi : s.caller i = .holding c) : 0 < s.guards c := by
  have hle := Tally.le (Phase.guards c) s.caller i
  rw [hi] at hle
  simp only [Phase.guards, if_true] at hle
  exact hle

/-- No caller is concerned with a cell that is not made yet. -/
theorem Inv.guards_fresh (h : Inv s) {c : ℕ} (hc : s.cells ≤ c) : s.guards c = 0 := by
  refine Tally.eq_zero fun i => ?_
  have hcell : (s.caller i).cell ≠ some c := fun hi => by
    have hlt := h.cell_lt i c hi
    omega
  have hle := (s.caller i).guards_le c
  have hclones := Phase.clones_of_cell hcell
  omega

/-- Neither end of the gauge's range is met. -/
theorem Inv.add_eq (h : Inv s) (c : ℕ) : (s.count c + 1) % 2 ^ 64 = s.count c + 1 := by
  have hlt := h.guards_lt c
  have hcount := h.count_eq c
  omega

theorem Inv.sub_eq (h : Inv s) {c : ℕ} (hi : s.caller i = .holding c) :
    (s.count c + (2 ^ 64 - 1)) % 2 ^ 64 = s.count c - 1 := by
  have hpos : 0 < s.count c := h.count_eq c ▸ guards_pos hi
  have hlt := h.guards_lt c
  have hcount := h.count_eq c
  omega

variable [DecidableEq ι]

/-- **A caller moves on**: the gauges follow its guard, a clone more is one there is room for. -/
theorem Inv.moved (h : Inv s) {phase : Phase} {count : ℕ → ℕ}
    (hcount : ∀ c, count c + (s.caller i).guards c = s.count c + phase.guards c)
    (hclones : ∀ c, phase.clones c ≤ (s.caller i).clones c ∨ s.strongCount c ≤ maxRefcount)
    (hcell : ∀ c, phase.cell = some c → c < s.cells)
    (hcap : ∀ c cur, phase = .reserving c cur → cur < s.successThreshold c)
    (hsnap : ∀ o n snapshot version, phase = .swapping o n snapshot version →
      snapshot = s.providers ∧ version = s.version) :
    Inv { s.goto i phase with count := count } where
  count_eq c := by
    have htally := Tally.update (Phase.guards c) s.caller i phase
    have hle := Tally.le (Phase.guards c) s.caller i
    have hold := h.count_eq c
    have hnew := hcount c
    unfold State.guards at hold ⊢
    simp only [State.goto]
    omega
  clones_le c := by
    have htally := Tally.update (Phase.clones c) s.caller i phase
    have hle := Tally.le (Phase.clones c) s.caller i
    have hold := h.clones_le c
    have hone := phase.clones_le_one c
    simp only [State.goto]
    rcases hclones c with hkept | hroom
    · omega
    · unfold State.strongCount at hroom
      omega
  cell_lt j c hj := by
    simp only [State.goto, Function.update_apply] at hj
    split at hj
    · exact hcell c hj
    · exact h.cell_lt j c hj
  provider_lt := h.provider_lt
  own_cell := h.own_cell
  under_cap j c cur hj := by
    simp only [State.goto, Function.update_apply] at hj
    split at hj
    · exact hcap c cur hj
    · exact h.under_cap j c cur hj
  version_le j o n snapshot version hj := by
    simp only [State.goto, Function.update_apply] at hj
    split at hj
    · exact (hsnap o n snapshot version hj).2.le
    · exact h.version_le j o n snapshot version hj
  snapshot_eq j o n snapshot hj := by
    simp only [State.goto, Function.update_apply] at hj
    split at hj
    · exact (hsnap o n snapshot _ hj).1
    · exact h.snapshot_eq j o n snapshot hj

/-- A caller without a guard moves to where it has none either, with no new clone. -/
theorem Inv.goto (h : Inv s) {phase : Phase} (hold : (s.caller i).guard = none)
    (hnew : phase.guard = none)
    (hclones : ∀ c, phase.clones c ≤ (s.caller i).clones c ∨ s.strongCount c ≤ maxRefcount)
    (hcell : ∀ c, phase.cell = some c → c < s.cells)
    (hcap : ∀ c cur, phase = .reserving c cur → cur < s.successThreshold c)
    (hsnap : ∀ o n snapshot version, phase = .swapping o n snapshot version →
      snapshot = s.providers ∧ version = s.version) : Inv (s.goto i phase) := by
  have hcount : ∀ c, s.count c + (s.caller i).guards c = s.count c + phase.guards c := by
    intro c
    rw [Phase.guards_of_guard hold, Phase.guards_of_guard hnew]
  exact h.moved hcount hclones hcell hcap hsnap

theorem Inv.withHealth (h : Inv s) {owner provider : String} {probe : Bool}
    (hi : s.caller i = .idle) : Inv (s.withHealth i owner provider probe) := by
  unfold State.withHealth
  split
  · rename_i cell hcell
    have hlt : cell < s.cells := by
      unfold Providers.withHealth at hcell
      cases hown : s.providers owner provider with
      | none => rw [hown] at hcell; exact h.provider_lt globalOwner provider cell hcell
      | some c =>
        rw [hown] at hcell
        obtain rfl : c = cell := Option.some.inj hcell
        exact h.provider_lt owner provider c hown
    refine h.goto (by rw [hi]; rfl) rfl (fun _ => .inl (Nat.zero_le _)) ?_ nofun nofun
    intro c hc
    obtain rfl : cell = c := Option.some.inj hc
    exact hlt
  · exact h

/-- What is there after an insertion was there before, or is new and of the one inserted. -/
theorem Providers.of_insert {providers : Providers} {owner name o p : String} {cell c : ℕ}
    (h : providers.insert owner name cell o p = some c) :
    providers o p = some c ∨ (c = cell ∧ o = owner ∧ p = name) := by
  unfold Providers.insert at h
  split at h
  · rename_i hop
    obtain ⟨rfl, rfl⟩ := hop
    cases hold : providers o p with
    | none =>
      rw [hold] at h
      exact .inr ⟨(Option.some.inj h).symm, rfl, rfl⟩
    | some d =>
      rw [hold] at h
      exact .inl h
  · exact .inl h

/-- The swap of a registration: a new cell at most, and its gauge is new. -/
theorem Inv.swapped (h : Inv s) {owner name : String} {snapshot : Providers}
    (hi : s.caller i = .swapping owner name snapshot s.version) :
    Inv { (s.store s.cells 0).goto i .idle with
      providers := snapshot.insert owner name s.cells
      version := s.version + 1
      cells := s.cells + 1 } := by
  have hsnap : snapshot = s.providers := h.snapshot_eq i _ _ _ hi
  have hidle : Inv (s.goto i .idle) :=
    h.goto (by rw [hi]; rfl) rfl (fun _ => .inl (Nat.zero_le _)) nofun nofun nofun
  have hinsert : ∀ o p c, s.providers.insert owner name s.cells o p = some c →
      s.providers o p = some c ∨ (c = s.cells ∧ o = owner ∧ p = name) :=
    fun _ _ _ => Providers.of_insert
  subst hsnap
  refine ⟨?_, hidle.clones_le, ?_, ?_, ?_, hidle.under_cap, ?_, ?_⟩
  · intro c
    have hcount := hidle.count_eq c
    change Function.update s.count s.cells 0 c = (s.goto i .idle).guards c
    by_cases hc : c = s.cells
    · subst hc
      rw [Function.update_self]
      exact (hidle.guards_fresh (Nat.le_refl _)).symm
    · rw [Function.update_of_ne hc]
      exact hcount
  · intro j c hj
    exact Nat.lt_succ_of_lt (hidle.cell_lt j c hj)
  · intro o p c hc
    rcases hinsert o p c hc with hold | ⟨rfl, -, -⟩
    · exact Nat.lt_succ_of_lt (h.provider_lt o p c hold)
    · exact Nat.lt_succ_self _
  · intro o p o' p' c hc hc'
    -- the new cell is above every cell in use, so only the provider inserted has it
    rcases hinsert o p c hc with hold | ⟨rfl, rfl, rfl⟩ <;>
      rcases hinsert o' p' _ hc' with hold' | ⟨hcells, rfl, rfl⟩
    · exact h.own_cell o p o' p' c hold hold'
    · have hlt := h.provider_lt o p c hold
      omega
    · have hlt := h.provider_lt o' p' _ hold'
      omega
    · exact ⟨rfl, rfl⟩
  · intro j o n snapshot version hj
    exact Nat.le_succ_of_le (hidle.version_le j o n snapshot version hj)
  · -- whoever loaded a snapshot before the swap has an older version
    intro j o n snapshot hj
    have hle := hidle.version_le j _ _ _ _ hj
    change s.version + 1 ≤ s.version at hle
    omega

/-- A slot taken, by a caller that has the clone. -/
theorem Inv.takes (h : Inv s) {cell : ℕ} (hold : (s.caller i).guard = none)
    (hclones : ∀ c, Phase.clones c (.holding cell) ≤ (s.caller i).clones c)
    (hcell : cell < s.cells) :
    Inv ((s.store cell (s.count cell + 1)).goto i (.holding cell)) := by
  refine h.moved (fun c => ?_) (fun c => .inl (hclones c)) ?_ nofun nofun
  · rw [Phase.guards_of_guard hold]
    simp only [State.store, Phase.guards, Function.update_apply]
    by_cases hc : c = cell
    · rw [if_pos hc, if_pos hc.symm, hc]
    · rw [if_neg hc, if_neg (Ne.symm hc)]
  · intro c hc
    obtain rfl : cell = c := Option.some.inj hc
    exact hcell

/-- A guard dropped. -/
theorem Inv.drops (h : Inv s) {cell : ℕ} (hi : s.caller i = .holding cell) :
    Inv ((s.store cell (s.count cell - 1)).goto i .idle) := by
  refine h.moved (fun c => ?_) (fun _ => .inl (Nat.zero_le _)) nofun nofun nofun
  have hpos : 0 < s.count cell := h.count_eq cell ▸ guards_pos hi
  rw [hi]
  simp only [State.store, Phase.guards, Function.update_apply]
  by_cases hc : c = cell
  · rw [if_pos hc, if_pos hc.symm, hc]
    omega
  · rw [if_neg hc, if_neg (Ne.symm hc)]

theorem Inv.step (h : Inv s) (i : ι) : Inv (s.step i) := by
  unfold State.step
  have hcell := h.cell_lt i
  split
  · exact h
  · exact h
  · rename_i cell probe hi
    rw [hi] at hcell
    split
    · rename_i hroom
      refine h.goto (by rw [hi]; rfl) (by cases probe <;> rfl) (fun c => ?_) ?_ ?_ ?_
      · by_cases hc : cell = c
        · exact .inr (hc ▸ hroom)
        · have hnone : Phase.clones c (if probe then .asking cell else .adding cell) = 0 :=
            Phase.clones_of_cell (by cases probe <;> exact fun hsome => hc (Option.some.inj hsome))
          exact .inl (hnone.le.trans (Nat.zero_le _))
      · intro c hc
        exact hcell c (by cases probe <;> exact hc)
      · cases probe <;> exact nofun
      · cases probe <;> exact nofun
    · exact h
  · rename_i cell hi
    rw [hi] at hcell
    simp only
    split
    · exact h.goto (by rw [hi]; rfl) rfl (fun _ => .inl (Nat.zero_le _)) nofun nofun nofun
    · rename_i hcap
      refine h.goto (by rw [hi]; rfl) rfl (fun c => .inl (by rw [hi]; rfl)) hcell ?_ nofun
      intro c cur heq
      obtain ⟨rfl, rfl⟩ := Phase.reserving.inj heq
      exact Nat.lt_of_not_le hcap
  · rename_i cell cur hi
    rw [hi] at hcell
    split
    · rename_i hcur
      rw [← hcur]
      exact h.takes (by rw [hi]; rfl) (fun c => by rw [hi]; rfl) (hcell cell rfl)
    · exact h.goto (by rw [hi]; rfl) rfl (fun c => .inl (by rw [hi]; rfl)) hcell nofun nofun
  · rename_i cell hi
    rw [hi] at hcell
    rw [h.add_eq cell]
    exact h.takes (by rw [hi]; rfl) (fun c => by rw [hi]; rfl) (hcell cell rfl)
  · rename_i cell hi
    rw [h.sub_eq hi]
    exact h.drops hi
  · rename_i owner name hi
    refine h.goto (by rw [hi]; rfl) rfl (fun _ => .inl (Nat.zero_le _)) nofun nofun ?_
    intro o n snapshot version heq
    obtain ⟨-, -, rfl, rfl⟩ := Phase.swapping.inj heq
    exact ⟨rfl, rfl⟩
  · rename_i owner name snapshot version hi
    split
    · rename_i hv
      subst hv
      exact h.swapped hi
    · refine h.goto (by rw [hi]; rfl) rfl (fun _ => .inl (Nat.zero_le _)) nofun nofun ?_
      intro o n snapshot version heq
      obtain ⟨-, -, rfl, rfl⟩ := Phase.swapping.inj heq
      exact ⟨rfl, rfl⟩

/-- **The step lemma.** -/
theorem Inv.apply (h : Inv s) (e : Event ι) : Inv (apply s e) := by
  cases e with
  | enterInFlight i owner provider =>
    simp only [InFlight.apply]
    split
    · rename_i hi
      exact h.withHealth hi
    · exact h
  | tryEnterProbe i owner provider =>
    simp only [InFlight.apply]
    split
    · rename_i hi
      exact h.withHealth hi
    · exact h
  | register i owner name =>
    simp only [InFlight.apply]
    split
    · rename_i hi
      split
      · exact h
      · exact h.goto (by rw [hi]; rfl) rfl (fun _ => .inl (Nat.zero_le _)) nofun nofun nofun
    · exact h
  | answer i state =>
    have hcell := h.cell_lt i
    simp only [InFlight.apply]
    split
    · rename_i hi
      exact h.goto (by rw [hi]; rfl) rfl (fun _ => .inl (Nat.zero_le _)) nofun nofun nofun
    · rename_i cell hi
      rw [hi] at hcell
      exact h.goto (by rw [hi]; rfl) rfl (fun c => .inl (by rw [hi]; rfl)) hcell nofun nofun
    · rename_i cell hi
      rw [hi] at hcell
      exact h.goto (by rw [hi]; rfl) rfl (fun c => .inl (by rw [hi]; rfl)) hcell nofun nofun
    · exact h
  | miss i =>
    have hcell := h.cell_lt i
    simp only [InFlight.apply]
    split
    · rename_i cell cur hi
      rw [hi] at hcell
      exact h.goto (by rw [hi]; rfl) rfl (fun c => .inl (by rw [hi]; rfl)) hcell nofun nofun
    · exact h
  | step i => exact h.step i

/-! ## The law of the gauges -/

/-- What a step may do to the gauges and to the registry. -/
structure Lawful (s : State ι) (e : Event ι) : Prop where
  /-- A half-open provider is entered under its threshold. -/
  capped : ∀ c cur d, s.caller e.caller = .reserving c cur →
    ((apply s e).caller e.caller).guard = some d →
    d = c ∧ (apply s e).count c ≤ s.successThreshold c
  /-- Who takes no guard and drops none, refused or registering, moves no gauge. -/
  silent : (s.caller e.caller).guard = none → ((apply s e).caller e.caller).guard = none →
    ∀ c < s.cells, (apply s e).count c = s.count c
  registered : ∀ o p c, s.providers o p = some c → c < s.cells ∧ (apply s e).providers o p = some c
  dropped : ∀ c, (s.caller e.caller).guard = some c → ((apply s e).caller e.caller).guard = none →
    (apply s e).count c + 1 = s.count c

/-- A gauge and the guards of its cell agree; every provider has a cell of its own. -/
structure Balanced (s : State ι) : Prop where
  count_eq : ∀ c, s.count c = s.guards c
  own_cell : ∀ o p o' p' c, s.providers o p = some c → s.providers o' p' = some c →
    o = o' ∧ p = p'

omit [Fintype ι] in
@[simp] theorem goto_caller (phase : Phase) : (s.goto i phase).caller i = phase :=
  Function.update_self ..

omit [Fintype ι] in
@[simp] theorem withHealth_count (owner provider : String) (probe : Bool) :
    (s.withHealth i owner provider probe).count = s.count := by
  unfold State.withHealth
  split <;> rfl

omit [Fintype ι] in
@[simp] theorem withHealth_providers (owner provider : String) (probe : Bool) :
    (s.withHealth i owner provider probe).providers = s.providers := by
  unfold State.withHealth
  split <;> rfl

theorem count_silent (e : Event ι) (hold : (s.caller e.caller).guard = none)
    (hnew : ((InFlight.apply s e).caller e.caller).guard = none) {c : ℕ} (hc : c < s.cells) :
    (InFlight.apply s e).count c = s.count c := by
  cases e with
  | enterInFlight i owner provider =>
    simp only [InFlight.apply]
    split
    · rw [withHealth_count]
    · rfl
  | tryEnterProbe i owner provider =>
    simp only [InFlight.apply]
    split
    · rw [withHealth_count]
    · rfl
  | register i owner name =>
    simp only [InFlight.apply]
    split
    · split <;> rfl
    · rfl
  | answer i state =>
    simp only [InFlight.apply]
    split <;> rfl
  | miss i =>
    simp only [InFlight.apply]
    split <;> rfl
  | step i =>
    simp only [InFlight.apply, Event.caller, State.step] at hold hnew ⊢
    split at hnew
    · rfl
    · rfl
    · split <;> rfl
    · split <;> rfl
    · split
      · rename_i hcur
        rw [if_pos hcur, goto_caller] at hnew
        exact absurd hnew nofun
      · rfl
    · rw [goto_caller] at hnew
      exact absurd hnew nofun
    · rename_i hi
      rw [hi] at hold
      exact absurd hold nofun
    · rfl
    · -- the new cell's gauge is not yet anybody's
      split
      · exact Function.update_of_ne (Nat.ne_of_lt hc) ..
      · rfl

/-- What is registered stays registered. -/
theorem Inv.registered (h : Inv s) (e : Event ι) {o p : String} {c : ℕ}
    (hc : s.providers o p = some c) : (InFlight.apply s e).providers o p = some c := by
  cases e with
  | enterInFlight i owner provider =>
    simp only [InFlight.apply]
    split
    · rw [withHealth_providers, hc]
    · exact hc
  | tryEnterProbe i owner provider =>
    simp only [InFlight.apply]
    split
    · rw [withHealth_providers, hc]
    · exact hc
  | register i owner name =>
    simp only [InFlight.apply]
    split
    · split <;> exact hc
    · exact hc
  | answer i state =>
    simp only [InFlight.apply]
    split <;> exact hc
  | miss i =>
    simp only [InFlight.apply]
    split <;> exact hc
  | step i =>
    simp only [InFlight.apply, State.step]
    split
    · exact hc
    · exact hc
    · split <;> exact hc
    · split <;> exact hc
    · split <;> exact hc
    · exact hc
    · exact hc
    · exact hc
    · rename_i owner name snapshot version hi
      split
      · rename_i hv
        subst hv
        obtain rfl := h.snapshot_eq i _ _ _ hi
        simp only [Providers.insert]
        split
        · rename_i hop
          obtain ⟨rfl, rfl⟩ := hop
          rw [hc]
          rfl
        · exact hc
      · exact hc

/-- A slot is reserved only below the threshold the caller has compared the gauge with. -/
theorem Inv.capped (h : Inv s) (e : Event ι) {c cur d : ℕ}
    (hi : s.caller e.caller = .reserving c cur)
    (hnew : ((InFlight.apply s e).caller e.caller).guard = some d) :
    d = c ∧ (InFlight.apply s e).count c ≤ s.successThreshold c := by
  have hcap := h.under_cap e.caller c cur hi
  cases e with
  | step i =>
    simp only [Event.caller] at hi hnew
    simp only [InFlight.apply, State.step, hi] at hnew ⊢
    split at hnew
    · rename_i hcur
      rw [if_pos hcur]
      rw [goto_caller] at hnew
      obtain rfl : c = d := Option.some.inj hnew
      refine ⟨rfl, ?_⟩
      simp only [State.goto, State.store, Function.update_self]
      exact hcap
    · rw [goto_caller] at hnew
      exact absurd hnew nofun
  | miss i =>
    simp only [Event.caller] at hi hnew
    simp only [InFlight.apply, hi, goto_caller] at hnew
    exact absurd hnew nofun
  | _ =>
    simp only [Event.caller] at hi hnew
    simp only [InFlight.apply, hi] at hnew
    exact absurd hnew nofun

theorem Inv.dropped (h : Inv s) (e : Event ι) {c : ℕ} (hold : (s.caller e.caller).guard = some c)
    (hnew : ((InFlight.apply s e).caller e.caller).guard = none) :
    (InFlight.apply s e).count c + 1 = s.count c := by
  have hi : s.caller e.caller = .holding c := by
    cases hphase : s.caller e.caller <;> rw [hphase] at hold <;> simp_all [Phase.guard]
  cases e with
  | step i =>
    simp only [Event.caller] at hi
    have hpos : 0 < s.count c := h.count_eq c ▸ guards_pos hi
    simp only [InFlight.apply, State.step, hi, h.sub_eq hi]
    simp only [State.goto, State.store, Function.update_self]
    omega
  | _ =>
    simp only [Event.caller] at hi hnew
    simp only [InFlight.apply, hi] at hnew
    exact absurd hnew nofun

theorem Inv.lawful (h : Inv s) (e : Event ι) : Lawful s e where
  capped _ _ _ hi hnew := h.capped e hi hnew
  silent hold hnew _ hc := count_silent e hold hnew hc
  registered o p c hc := ⟨h.provider_lt o p c hc, h.registered e hc⟩
  dropped _ hold hnew := h.dropped e hold hnew

/-- **The gauges never drift**: in every interleaving of probes, plain enters, drops and
registrations, each gauge is the number of the live guards of its cell, and every step is lawful. -/
theorem gauges_exact (events : List (Event ι)) :
    Run.States InFlight.apply Balanced (start builtins successThreshold) events ∧
      Run.Steps InFlight.apply Lawful (start builtins successThreshold) events := by
  have hinv := inv_start (ι := ι) builtins successThreshold
  have hstep : ∀ (s : State ι) e, Inv s → True → Inv (InFlight.apply s e) :=
    fun s e h _ => h.apply e
  constructor
  · have hstates := Run.Steps.states hstep hinv (Run.Steps.true : Run.Steps _ (fun _ _ => True) _ events)
    exact hstates.mono fun s h => ⟨h.count_eq, h.own_cell⟩
  · exact Run.Steps.imp hstep (fun s e h _ => h.lawful e) hinv Run.Steps.true

/-! ## The tracker's probe -/

/-- The tracker's cells are the registered ones, with their gauges and thresholds. -/
def Mirrors (s : State ι) (h : HealthTracker) : Prop :=
  ∀ o p, (h.providers o p).map (fun c => (c.inFlight, c.breaker.successThreshold)) =
    (s.providers o p).map fun c => (s.count c, s.successThreshold c)

variable {h : HealthTracker} {owner provider : String}

omit [Fintype ι] [DecidableEq ι] in
variable (owner provider) in
theorem Mirrors.heal (hm : Mirrors s h) (now : ℕ) :
    Mirrors s (h.withHealth owner provider (HealthTracker.healCell now)) := by
  intro o p
  rw [HealthTracker.providers_withHealth, ← hm o p]
  split
  · rw [Option.map_map]
    congr 1
    funext c
    simp only [Function.comp_apply, HealthTracker.healCell, CircuitBreaker.heal]
    split <;> rfl
  · rfl

omit [Fintype ι] [DecidableEq ι] in
/-- What the registry resolves to is the number of the cell the tracker resolves to. -/
theorem Mirrors.resolve (hm : Mirrors s h) {c : ℕ}
    (hc : s.providers.withHealth owner provider = some c) :
    ∃ o health, h.resolve owner provider = some o ∧ h.cell owner provider = some health ∧
      s.providers o provider = some c ∧ health.inFlight = s.count c ∧
      health.breaker.successThreshold = s.successThreshold c := by
  have hown := hm owner provider
  have hglobal := hm globalOwner provider
  unfold Providers.withHealth at hc
  unfold HealthTracker.resolve HealthTracker.cell
  cases ht : h.providers owner provider with
  | some health =>
    cases hs : s.providers owner provider with
    | none => simp [ht, hs] at hown
    | some c' =>
      obtain rfl : c' = c := by simpa [hs] using hc
      simp only [ht, hs, Option.map_some, Option.some.injEq, Prod.mk.injEq] at hown
      exact ⟨owner, health, by simp, by simp, hs, hown⟩
  | none =>
    have hs : s.providers owner provider = none := by simpa [ht, eq_comm] using hown
    have hsg : s.providers globalOwner provider = some c := by simpa [hs] using hc
    rw [hsg] at hglobal
    obtain ⟨health, htg, heq⟩ := Option.map_eq_some_iff.1 hglobal
    simp only [Prod.mk.injEq] at heq
    exact ⟨globalOwner, health, by simp [htg], by simp [htg], hsg, heq⟩

omit [Fintype ι] [DecidableEq ι] in
theorem Mirrors.unknown (hm : Mirrors s h) (hc : s.providers.withHealth owner provider = none) :
    h.resolve owner provider = none := by
  unfold Providers.withHealth at hc
  obtain ⟨hown, hglobal⟩ := Option.or_eq_none_iff.1 hc
  have ht := hm owner provider
  have htg := hm globalOwner provider
  rw [hown, Option.map_none, Option.map_eq_none_iff] at ht
  rw [hglobal, Option.map_none, Option.map_eq_none_iff] at htg
  simp [HealthTracker.resolve, ht, htg]

omit [DecidableEq ι] in
/-- One more in the resolved cell. -/
theorem Mirrors.enter (hinv : Inv s) (hm : Mirrors s h) {o : String} {c : ℕ}
    (hr : h.resolve owner provider = some o) (hc : s.providers o provider = some c) :
    Mirrors (s.store c (s.count c + 1))
      (h.withHealth owner provider fun health => { health with inFlight := health.inFlight + 1 }) := by
  intro o' p'
  rw [HealthTracker.providers_withHealth, hr]
  have hold := hm o' p'
  simp only [State.store]
  by_cases hop : o = o' ∧ p' = provider
  · obtain ⟨rfl, rfl⟩ := hop
    rw [if_pos ⟨rfl, rfl⟩, hc]
    rw [hc] at hold
    obtain ⟨health, ht, heq⟩ := Option.map_eq_some_iff.1 hold
    simp only [Prod.mk.injEq] at heq
    simp [ht, heq]
  · rw [if_neg (fun heq => hop ⟨Option.some.inj heq.1, heq.2⟩), hold]
    cases hs : s.providers o' p' with
    | none => rfl
    | some c' =>
      have hne : c' ≠ c := fun heq => hop (by
        have howner := hinv.own_cell o provider o' p' c hc (heq ▸ hs)
        exact ⟨howner.1, howner.2.symm⟩)
      simp [Function.update_of_ne hne]

/-- A probe that nobody interrupts, asking a breaker in the state given. -/
def probeAlone (i : ι) (owner provider : String) (state : CircuitState) : List (Event ι) :=
  [.tryEnterProbe i owner provider, .step i] ++
    match state with
    | .opened => [.answer i .opened]
    | .closed => [.answer i .closed, .step i]
    | .halfOpen => [.answer i .halfOpen, .step i, .step i]

omit [Fintype ι] in
theorem goto_goto (phase phase' : Phase) : (s.goto i phase).goto i phase' = s.goto i phase' := by
  unfold State.goto
  simp only [Function.update_idem]

theorem State.step_loading {c : ℕ} (hi : s.caller i = .loading c) :
    s.step i = if s.successThreshold c ≤ s.count c then s.goto i .idle
      else s.goto i (.reserving c (s.count c)) := by
  simp only [State.step, hi]

/-- The steps up to the breaker's answer. -/
theorem probe_asks {c : ℕ} (hi : s.caller i = .idle)
    (hc : s.providers.withHealth owner provider = some c) (hroom : s.strongCount c ≤ maxRefcount) :
    Run.run InFlight.apply s [.tryEnterProbe i owner provider, .step i] = s.goto i (.asking c) := by
  have hstrong : (s.goto i (.cloning c true)).strongCount c = s.strongCount c := by
    have htally := Tally.update (Phase.clones c) s.caller i (.cloning c true)
    rw [hi] at htally
    unfold State.strongCount
    exact congrArg (1 + ·) htally
  simp only [Run.run, List.foldl, InFlight.apply, hi, State.withHealth, hc, State.step, goto_caller]
  rw [hstrong, if_pos hroom]
  exact goto_goto ..

/-- **Uninterrupted, a probe does to the gauges what it does on the tracker**, and its caller has a
guard when the tracker admits it. -/
theorem probe_alone (hinv : Inv s) (hm : Mirrors s h) (hi : s.caller i = .idle)
    (hroom : ∀ c, s.strongCount c ≤ maxRefcount) (now : ℕ) :
    let t := Run.run InFlight.apply s (probeAlone i owner provider (h.state owner provider now))
    Mirrors t (h.tryEnterProbe owner provider now).2 ∧
      ((t.caller i).guard.isSome ↔ ∃ o, (h.tryEnterProbe owner provider now).1 = .admitted o) := by
  have hself : s.goto i .idle = s := by
    unfold State.goto
    rw [← hi, Function.update_eq_self]
  have hcount : ∀ phase, (s.goto i phase).count = s.count := fun _ => rfl
  cases hc : s.providers.withHealth owner provider with
  | none =>
    -- a provider without health is closed, and nothing is counted for it
    have hr := hm.unknown hc
    have hcell := HealthTracker.cell_of_resolve_none hr
    have hstate : h.state owner provider now = .closed := by
      unfold HealthTracker.state
      rw [hcell]
    have hrun : Run.run InFlight.apply s (probeAlone i owner provider .closed) = s := by
      simp [Run.run, probeAlone, InFlight.apply, State.withHealth, State.step, hi, hc]
    simp only [hstate, hrun, HealthTracker.tryEnterProbe, hr]
    exact ⟨hm, by simp [hi, Phase.guard]⟩
  | some c =>
    obtain ⟨o, health, hr, hcell, hp, hinflight, hthreshold⟩ := hm.resolve hc
    have hstate : h.state owner provider now = health.breaker.state now := by
      unfold HealthTracker.state
      rw [hcell]
    have hentered : Mirrors (s.store c (s.count c + 1)) _ :=
      (hm.heal owner provider now).enter hinv
        (by rw [HealthTracker.resolve_withHealth]; exact hr) hp
    have hasked := probe_asks hi hc (hroom c)
    rw [hstate]
    simp only [HealthTracker.tryEnterProbe, hr, hcell]
    cases hb : health.breaker.state now with
    | opened =>
      have hrun : Run.run InFlight.apply s (probeAlone i owner provider .opened) = s := by
        rw [probeAlone, Run.run_append, hasked]
        simp only [Run.run, List.foldl, InFlight.apply, goto_caller, goto_goto, hself]
      rw [hrun]
      exact ⟨hm.heal _ _ now, by simp [hi, Phase.guard]⟩
    | closed =>
      -- counted without a test of the threshold
      have hrun : Run.run InFlight.apply s (probeAlone i owner provider .closed) =
          (s.store c (s.count c + 1)).goto i (.holding c) := by
        rw [probeAlone, Run.run_append, hasked]
        simp only [Run.run, List.foldl, InFlight.apply, State.step, goto_caller, goto_goto]
        rw [hcount, hinv.add_eq c]
        exact goto_goto (s := s.store c (s.count c + 1)) _ _
      rw [hrun]
      exact ⟨hentered, by simp [Phase.guard]⟩
    | halfOpen =>
      have hrun : Run.run InFlight.apply s (probeAlone i owner provider .halfOpen) =
          if s.successThreshold c ≤ s.count c then s
          else (s.store c (s.count c + 1)).goto i (.holding c) := by
        rw [probeAlone, Run.run_append, hasked]
        have hloaded : InFlight.apply (s.goto i (.asking c)) (.answer i .halfOpen) =
            s.goto i (.loading c) := by
          simp only [InFlight.apply, goto_caller, goto_goto]
        change ((InFlight.apply (s.goto i (.asking c)) (.answer i .halfOpen)).step i).step i = _
        rw [hloaded, State.step_loading (goto_caller ..)]
        -- nobody moves in between, so the exchange finds the count that was read
        change State.step (if s.successThreshold c ≤ s.count c then _ else _) i = _
        split
        · rw [goto_goto, hself]
          simp only [State.step, hi]
        · simp only [State.step, goto_caller, goto_goto]
          rw [hcount, hcount, if_pos rfl]
          exact goto_goto (s := s.store c (s.count c + 1)) _ _
      rw [hrun]
      simp only [hinflight, hthreshold]
      split
      · exact ⟨hm.heal _ _ now, by simp [hi, Phase.guard]⟩
      · exact ⟨hentered, by simp [Phase.guard]⟩

end Routeplane.InFlight
