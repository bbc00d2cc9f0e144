import Routeplane.Proof.Reports
import Mathlib.Tactic.Ring

/-!
# The other reports of a tenant

* `percentile_exact`: a percentile is the least sample that so many samples do not exceed.
* `latency_agrees`: the report on latency and the chargeback have the same samples.
* `timeseries_exact`: a bucket has the attempts of its interval, and no attempt is left out.
* `residency_partition`: every request is counted under its outcome and its region.
* `ledger_follows_log`: the ledger is the log's, row by row.
-/

namespace Routeplane.Usage

open Limits (satAdd u64Max)
open Rollup

/-! ## Latency -/

section Latency

/-- The least sample that `p` percent of the samples do not exceed. -/
structure Percentile (samples : List ℕ) (p v : ℕ) : Prop where
  mem : v ∈ samples
  reached : p * samples.length ≤ 100 * samples.countP fun s => s ≤ v
  least : ∀ x < v, 100 * (samples.countP fun s => s ≤ x) < p * samples.length

/-- The rank of a percentile is the first one that makes up its share. -/
theorem nearestRank_spec {p count : ℕ} (hp : 0 < p) (hp' : p ≤ 100) (hcount : 0 < count) :
    0 < nearestRank p count ∧ nearestRank p count ≤ count ∧
      p * count ≤ 100 * nearestRank p count ∧
      100 * (nearestRank p count - 1) < p * count := by
  have hpos : 0 < p * count := Nat.mul_pos hp hcount
  have hle : p * count ≤ 100 * count := Nat.mul_le_mul_right count hp'
  unfold nearestRank
  omega

variable (samples : List ℕ)

theorem sorted_samples : (samples.mergeSort (· ≤ ·)).Pairwise (· ≤ ·) := by
  have hsorted : (samples.mergeSort fun a b => decide (a ≤ b)).Pairwise
      fun a b => decide (a ≤ b) = true := List.pairwise_mergeSort
    (fun a b c hab hbc => by simp only [decide_eq_true_eq] at hab hbc ⊢; omega)
    (fun a b => by simp only [Bool.or_eq_true, decide_eq_true_eq]; omega) samples
  exact hsorted.imp of_decide_eq_true

/-- The value a percentile's rank leads to. -/
theorem percentile_of_rank {p : ℕ} (hp : 0 < p) (hp' : p ≤ 100) (h : samples ≠ []) :
    Percentile samples p
      ((samples.mergeSort (· ≤ ·)).getD (nearestRank p samples.length - 1) 0) := by
  obtain ⟨hpos, hle, hshare, hbelow⟩ :=
    nearestRank_spec hp hp' (List.length_pos_iff.2 h)
  have hperm : (samples.mergeSort (· ≤ ·)).Perm samples := List.mergeSort_perm ..
  have hlength : nearestRank p samples.length ≤ (samples.mergeSort (· ≤ ·)).length := by
    rw [hperm.length_eq]
    exact hle
  have hindex : nearestRank p samples.length - 1 < (samples.mergeSort (· ≤ ·)).length := by omega
  obtain ⟨hreached, hleast⟩ := least_of_rank (sorted_samples samples) hpos hlength
  rw [List.getD_eq_getElem?_getD, List.getElem?_eq_getElem hindex, Option.getD_some]
  refine ⟨hperm.mem_iff.1 (List.getElem_mem hindex), ?_, fun x hx => ?_⟩
  · rw [hperm.countP_eq] at hreached
    omega
  · have hx := hleast x hx
    rw [hperm.countP_eq] at hx
    omega

/-- A greater share is reached no earlier. -/
theorem Percentile.mono {p q v w : ℕ} (hv : Percentile samples p v) (hw : Percentile samples q w)
    (hpq : p ≤ q) : v ≤ w := by
  by_contra hlt
  have hreached := hw.reached
  have hleast := hv.least w (by omega)
  have hshare := Nat.mul_le_mul_right samples.length hpq
  omega

/-- **A percentile is the least sample that so many samples do not exceed**, the maximum that of all
of them. -/
theorem percentile_exact (h : samples ≠ []) :
    ∃ p50 p95 p99 top, LatencyPercentiles.fromSamples samples =
        ⟨samples.length, some p50, some p95, some p99, some top⟩ ∧
      Percentile samples 50 p50 ∧ Percentile samples 95 p95 ∧ Percentile samples 99 p99 ∧
      Percentile samples 100 top ∧ p50 ≤ p95 ∧ p95 ≤ p99 ∧ p99 ≤ top := by
  have h50 := percentile_of_rank samples (p := 50) (by omega) (by omega) h
  have h95 := percentile_of_rank samples (p := 95) (by omega) (by omega) h
  have h99 := percentile_of_rank samples (p := 99) (by omega) (by omega) h
  have htop := percentile_of_rank samples (p := 100) (by omega) (by omega) h
  have hpos : 0 < samples.length := List.length_pos_iff.2 h
  have hlast : nearestRank 100 samples.length = samples.length := by
    unfold nearestRank
    omega
  rw [hlast] at htop
  refine ⟨_, _, _, _, ?_, h50, h95, h99, htop, h50.mono _ h95 (by omega), h95.mono _ h99 (by omega),
    h99.mono _ htop (by omega)⟩
  unfold LatencyPercentiles.fromSamples
  rw [if_neg (by omega)]

/-- The percentiles of three samples. -/
theorem percentile_exact_three :
    ∃ p50 p95 p99 top, LatencyPercentiles.fromSamples [30, 10, 20] =
        ⟨3, some p50, some p95, some p99, some top⟩ ∧
      Percentile [30, 10, 20] 50 p50 ∧ Percentile [30, 10, 20] 95 p95 ∧
      Percentile [30, 10, 20] 99 p99 ∧ Percentile [30, 10, 20] 100 top ∧ p50 ≤ p95 ∧ p95 ≤ p99 ∧
      p99 ≤ top :=
  percentile_exact [30, 10, 20] (List.cons_ne_nil _ _)

variable (r : PricedRings) (tenantId : Option String)

/-- The fold of a latency report, part by part. -/
theorem latencyStats_eq :
    r.latencyStats tenantId =
      ⟨.fromSamples (timings (r.attempts tenantId)),
        ((r.attempts tenantId).foldl addSamples []).map fun p => (p.1, .fromSamples p.2)⟩ := by
  have hfold : ∀ (events : List PricedUsage) (overall : List ℕ) (perProvider : Assoc String (List ℕ)),
      events.foldl (fun (acc : List ℕ × Assoc String (List ℕ)) e =>
          (acc.1 ++ e.samples, addSamples acc.2 e)) (overall, perProvider) =
        (overall ++ timings events, events.foldl addSamples perProvider) := by
    intro events
    induction events with
    | nil => exact fun overall _ => by simp [timings]
    | cons e events ih =>
      intro overall perProvider
      have htimings : timings (e :: events) = e.samples ++ timings events := List.flatMap_cons
      rw [List.foldl_cons, ih, htimings, ← List.append_assoc, List.foldl_cons]
  unfold PricedRings.latencyStats
  simp only [foldl_attempts r tenantId (fun (acc : List ℕ × Assoc String (List ℕ)) e =>
    (acc.1 ++ e.samples, addSamples acc.2 e)), hfold, List.nil_append]

/-- Events that were not timed give no sample. -/
theorem timings_itemsOf (provider : String) (events : List PricedUsage) :
    timings (itemsOf (fun e => e.latencyMs.map fun _ => e.provider) provider events) =
      timings (events.filter fun e => e.provider = provider) := by
  unfold timings itemsOf
  induction events with
  | nil => rfl
  | cons e events ih =>
    by_cases hp : e.provider = provider
    · have hmine : ((e :: events).filter fun e => e.provider = provider) =
          e :: events.filter fun e => e.provider = provider :=
        List.filter_cons_of_pos (by simpa using hp)
      rw [hmine, List.flatMap_cons, ← ih]
      cases hms : e.latencyMs with
      | none =>
        have hnone : e.samples = [] := by rw [PricedUsage.samples, hms]; rfl
        rw [List.filter_cons_of_neg (by simp [hms]), hnone, List.nil_append]
      | some ms => rw [List.filter_cons_of_pos (by simpa [hms] using hp), List.flatMap_cons]
    · have hother : ((e :: events).filter fun e => e.provider = provider) =
          events.filter fun e => e.provider = provider :=
        List.filter_cons_of_neg (by simpa using hp)
      rw [hother, ← ih, List.filter_cons_of_neg]
      cases e.latencyMs <;> simp [hp]

/-- **The reports on latency agree**: with the chargeback overall, and for a provider the samples are
those of its own attempts. -/
theorem latency_agrees :
    (r.latencyStats tenantId).overall = (r.chargeback tenantId).latency ∧
      ∀ provider, (r.latencyStats tenantId).byProvider.get provider =
        if timings ((r.attempts tenantId).filter fun e => e.provider = provider) = [] then none
        else some (.fromSamples
          (timings ((r.attempts tenantId).filter fun e => e.provider = provider))) := by
  rw [latencyStats_eq, chargeback_eq]
  refine ⟨rfl, fun provider => ?_⟩
  set items := itemsOf (fun e : PricedUsage => e.latencyMs.map fun _ => e.provider) provider
    (r.attempts tenantId) with hitems
  have htimings : timings items =
      timings ((r.attempts tenantId).filter fun e => e.provider = provider) :=
    timings_itemsOf provider _
  have hget : Assoc.get ((r.attempts tenantId).foldl addSamples []) provider =
      if items = [] then none else some (items.foldl (fun samples e => samples ++ e.samples) []) :=
    get_rollup (r.attempts tenantId) provider
  have hall : items.foldl (fun samples e => samples ++ e.samples) [] = timings items := by
    have hfrom : ∀ (events : List PricedUsage) (samples : List ℕ),
        events.foldl (fun samples e => samples ++ e.samples) samples = samples ++ timings events := by
      intro events
      induction events with
      | nil => exact fun samples => by simp [timings]
      | cons e events ih =>
        intro samples
        rw [List.foldl_cons, ih, List.append_assoc]
        rfl
    exact hfrom items []
  have hempty : items = [] ↔ timings items = [] := by
    constructor
    · intro h
      rw [h]
      rfl
    · intro h
      rw [List.eq_nil_iff_forall_not_mem]
      intro e he
      have hsample : e.samples = [] := (List.flatMap_eq_nil_iff.1 h) e he
      have htimed := (List.mem_filter.1 he).2
      unfold PricedUsage.samples at hsample
      rw [Option.toList_eq_nil_iff] at hsample
      simp [hsample] at htimed
  rw [get_mapValues, hget, hall, ← htimings]
  by_cases hnone : items = []
  · rw [if_pos hnone, if_pos (hempty.1 hnone), Option.map_none]
  · rw [if_neg hnone, if_neg (fun h => hnone (hempty.2 h)), Option.map_some]

end Latency

/-! ## Series -/

section Series

/-- A grid has a bucket, of a second at least. -/
def Grid.Proper (g : Grid) : Prop := 1 ≤ g.bucketSecs ∧ 1 ≤ g.bucketCount

theorem ofWindow_proper (now window : ℤ) (bucketCount : ℕ) :
    (Grid.ofWindow now window bucketCount).Proper :=
  ⟨Int.le_max_right _ _, Nat.le_max_right _ _⟩

variable {g : Grid} {timestamp : ℤ}

/-- The time is in the `i`-th bucket: from its start, up to the start of the next. -/
def Grid.inBucket (g : Grid) (i : ℕ) (timestamp : ℤ) : Bool :=
  g.tick i ≤ timestamp && timestamp < g.tick (i + 1)

/-- The index counts the widths from the start. -/
theorem rawIndex_eq (hcovers : g.covers timestamp) :
    g.rawIndex timestamp = (timestamp - g.start) / (nanosPerSec * g.bucketSecs) := by
  obtain ⟨hstart, -⟩ := by simpa [Grid.covers] using hcovers
  have hnonneg : 0 ≤ timestamp - g.start := by omega
  have hnanos : (0 : ℤ) ≤ nanosPerSec := by decide
  rw [Grid.rawIndex, Int.tdiv_eq_ediv_of_nonneg hnonneg, Int.ediv_ediv_of_nonneg hnanos]

theorem width_pos (hg : g.Proper) : 0 < nanosPerSec * g.bucketSecs :=
  Int.mul_pos (by decide) (by have := hg.1; omega)

theorem tick_eq (g : Grid) (i : ℕ) : g.tick i = g.start + i * (nanosPerSec * g.bucketSecs) := by
  unfold Grid.tick
  ring

theorem now_eq (g : Grid) : g.now = g.start + g.bucketCount * (nanosPerSec * g.bucketSecs) := by
  unfold Grid.start Grid.windowSecs
  ring

/-- A covered time lies among the buckets, so holding its index to them changes nothing. -/
theorem rawIndex_mem (hg : g.Proper) (hcovers : g.covers timestamp) :
    0 ≤ g.rawIndex timestamp ∧ g.rawIndex timestamp < g.bucketCount := by
  obtain ⟨hstart, hend⟩ := by simpa [Grid.covers] using hcovers
  have hlast := now_eq g
  rw [rawIndex_eq hcovers]
  refine ⟨Int.ediv_nonneg (by omega) (width_pos hg).le, ?_⟩
  rw [Int.ediv_lt_iff_lt_mul (width_pos hg)]
  omega

theorem index_eq (hg : g.Proper) (hcovers : g.covers timestamp) :
    (g.index timestamp : ℤ) = g.rawIndex timestamp := by
  obtain ⟨hnonneg, hlt⟩ := rawIndex_mem hg hcovers
  unfold Grid.index
  omega

/-- **The index of a time is that of the bucket it is in.** -/
theorem index_eq_iff (hg : g.Proper) (hcovers : g.covers timestamp) (i : ℕ) :
    g.index timestamp = i ↔ g.inBucket i timestamp := by
  have hindex := index_eq hg hcovers
  have hraw := rawIndex_eq hcovers
  have hwidth := width_pos hg
  have hle : (i : ℤ) ≤ g.rawIndex timestamp ↔ g.tick i ≤ timestamp := by
    rw [hraw, Int.le_ediv_iff_mul_le hwidth, tick_eq]
    omega
  have hlt : g.rawIndex timestamp < ((i + 1 : ℕ) : ℤ) ↔ timestamp < g.tick (i + 1) := by
    rw [hraw, Int.ediv_lt_iff_lt_mul hwidth, tick_eq]
    omega
  simp only [Grid.inBucket, Bool.and_eq_true, decide_eq_true_eq, ← hle, ← hlt]
  omega

/-- The buckets cover the window. -/
theorem covers_of_inBucket (hg : g.Proper) {i : ℕ} (hi : i < g.bucketCount)
    (h : g.inBucket i timestamp) : g.covers timestamp := by
  simp only [Grid.inBucket, Bool.and_eq_true, decide_eq_true_eq, tick_eq] at h
  have hwidth := width_pos hg
  have hfirst : 0 ≤ (i : ℤ) * (nanosPerSec * g.bucketSecs) :=
    Int.mul_nonneg (Int.natCast_nonneg i) hwidth.le
  have hlast : ((i + 1 : ℕ) : ℤ) * (nanosPerSec * g.bucketSecs) ≤
      g.bucketCount * (nanosPerSec * g.bucketSecs) :=
    Int.mul_le_mul_of_nonneg_right (by omega) hwidth.le
  have hnow := now_eq g
  simp only [Grid.covers, Bool.and_eq_true, decide_eq_true_eq]
  omega

theorem requests_foldl (events : List PricedUsage) (b : TimeseriesBucket)
    (h : b.requests + events.length ≤ u64Max) :
    (events.foldl TimeseriesBucket.add b).requests = b.requests + events.length := by
  induction events generalizing b with
  | nil => rfl
  | cons e events ih =>
    rw [List.length_cons] at h
    have hadd : (b.add e).requests = b.requests + 1 := by
      have hsat : satAdd b.requests 1 = b.requests + 1 := by
        unfold satAdd
        omega
      unfold TimeseriesBucket.add
      cases e.latencyMs <;> exact hsat
    rw [List.foldl_cons, ih _ (by omega), hadd, List.length_cons]
    omega

variable (r : PricedRings) (tenantId : Option String)

/-- The attempts of an interval. -/
def PricedRings.attemptsIn (g : Grid) (i : ℕ) : List PricedUsage :=
  (r.attempts tenantId).filter fun e => g.inBucket i e.timestamp

/-- The attempts a series is of. -/
def PricedRings.attemptsOver (g : Grid) : List PricedUsage :=
  (r.attempts tenantId).filter fun e => g.covers e.timestamp

/-- The attempts of a bucket, told by their index. -/
theorem filter_index (hg : g.Proper) {i : ℕ} (hi : i < g.bucketCount) :
    ((r.attemptsOver tenantId g).filter fun e => g.index e.timestamp = i) =
      r.attemptsIn tenantId g i := by
  unfold PricedRings.attemptsOver PricedRings.attemptsIn
  rw [List.filter_filter]
  refine List.filter_congr fun e _ => ?_
  rw [Bool.eq_iff_iff, Bool.and_eq_true, decide_eq_true_eq]
  constructor
  · intro h
    exact (index_eq_iff hg h.2 i).1 h.1
  · intro h
    have hcovers := covers_of_inBucket hg hi h
    exact ⟨(index_eq_iff hg hcovers i).2 h, hcovers⟩

/-- The fold of a series, part by part. -/
theorem usageTimeseries_eq (now window : ℤ) (bucketCount : ℕ) :
    r.usageTimeseries tenantId now window bucketCount =
      let g := Grid.ofWindow now window bucketCount
      ⟨g.windowSecs, g.bucketSecs, (r.attemptsOver tenantId g).length,
        ((r.attemptsOver tenantId g).foldl
          (fun bs e => bs.modify (g.index e.timestamp) fun b => b.add e) g.emptyBuckets).map
            TimeseriesBucket.withAverage⟩ := by
  set g := Grid.ofWindow now window bucketCount with hg
  have hfold : ∀ (events : List PricedUsage) (buckets : List TimeseriesBucket) (total : ℕ),
      total + events.length ≤ u64Max →
      events.foldl (fun (acc : List TimeseriesBucket × ℕ) e =>
          (acc.1.modify (g.index e.timestamp) (·.add e), satAdd acc.2 1)) (buckets, total) =
        (events.foldl (fun bs e => bs.modify (g.index e.timestamp) fun b => b.add e) buckets,
          total + events.length) := by
    intro events
    induction events with
    | nil => exact fun _ _ _ => rfl
    | cons e events ih =>
      intro buckets total h
      rw [List.length_cons] at h
      have hsat : satAdd total 1 = total + 1 := by
        unfold satAdd
        omega
      rw [List.foldl_cons, ih _ _ (by simp only [hsat]; omega), hsat, List.length_cons,
        List.foldl_cons]
      simp only [Nat.add_assoc, Nat.add_comm 1]
  have hover : ∀ acc : List TimeseriesBucket × ℕ,
      (r.attempts tenantId).foldl (fun acc e =>
          if g.covers e.timestamp then
            (acc.1.modify (g.index e.timestamp) (·.add e), satAdd acc.2 1)
          else acc) acc =
        (r.attemptsOver tenantId g).foldl (fun (acc : List TimeseriesBucket × ℕ) e =>
          (acc.1.modify (g.index e.timestamp) (·.add e), satAdd acc.2 1)) acc := by
    intro acc
    rw [PricedRings.attemptsOver, List.foldl_filter]
  have hlength : 0 + (r.attemptsOver tenantId g).length ≤ u64Max := by
    have hattempts := length_attempts_le r tenantId
    have hfilter := List.length_filter_le (fun e : PricedUsage => g.covers e.timestamp)
      (r.attempts tenantId)
    unfold maxRetainedEvents at hattempts
    unfold PricedRings.attemptsOver u64Max
    omega
  unfold PricedRings.usageTimeseries
  simp only [← hg, foldl_attempts r tenantId (fun (acc : List TimeseriesBucket × ℕ) e =>
    if g.covers e.timestamp then
      (acc.1.modify (g.index e.timestamp) (·.add e), satAdd acc.2 1)
    else acc), hover, hfold _ _ _ hlength, Nat.zero_add]

/-- **A bucket has the attempts of its interval, and no attempt of the window is left out.** -/
theorem timeseries_exact (now window : ℤ) (bucketCount : ℕ) :
    let g := Grid.ofWindow now window bucketCount
    let series := r.usageTimeseries tenantId now window bucketCount
    series.buckets = (List.range g.bucketCount).map (fun i =>
        ((r.attemptsIn tenantId g i).foldl TimeseriesBucket.add { ts := g.tick i }).withAverage) ∧
      series.totalEventsInWindow = (r.attemptsOver tenantId g).length ∧
      (series.buckets.map TimeseriesBucket.requests).sum = series.totalEventsInWindow ∧
      ∀ e ∈ r.attemptsOver tenantId g,
        0 ≤ g.rawIndex e.timestamp ∧ g.rawIndex e.timestamp < g.bucketCount := by
  intro g series
  have hg : g.Proper := ofWindow_proper now window bucketCount
  have hseries : series = _ := usageTimeseries_eq r tenantId now window bucketCount
  have hcovered : ∀ e ∈ r.attemptsOver tenantId g, g.covers e.timestamp := by
    intro e he
    exact (List.mem_filter.1 he).2
  have hbuckets : series.buckets = (List.range g.bucketCount).map (fun i =>
      ((r.attemptsIn tenantId g i).foldl TimeseriesBucket.add { ts := g.tick i }).withAverage) := by
    rw [hseries]
    refine List.ext_getElem? fun i => ?_
    rw [List.getElem?_map, getElem?_foldl_modify, List.getElem?_map]
    rcases Nat.lt_or_ge i g.bucketCount with hi | hi
    · rw [Grid.emptyBuckets, List.getElem?_map, List.getElem?_range hi]
      simp only [Option.map_some]
      rw [filter_index r tenantId hg hi]
    · rw [List.getElem?_eq_none (by simpa [Grid.emptyBuckets] using hi),
        List.getElem?_eq_none (by simpa using hi)]
      rfl
  refine ⟨hbuckets, by rw [hseries], ?_, fun e he => rawIndex_mem hg (hcovered e he)⟩
  have hcount : (List.range g.bucketCount).map (fun i =>
      (((r.attemptsIn tenantId g i).foldl TimeseriesBucket.add { ts := g.tick i }).withAverage).requests)
      = (List.range g.bucketCount).map fun i =>
        ((r.attemptsOver tenantId g).filter fun e => g.index e.timestamp = i).length := by
    refine List.map_congr_left fun i hi => ?_
    rw [filter_index r tenantId hg (List.mem_range.1 hi)]
    show ((r.attemptsIn tenantId g i).foldl TimeseriesBucket.add { ts := g.tick i }).requests = _
    have hattempts := length_attempts_le r tenantId
    have hfilter := List.length_filter_le (fun e : PricedUsage => g.inBucket i e.timestamp)
      (r.attempts tenantId)
    unfold maxRetainedEvents at hattempts
    rw [requests_foldl]
    · exact Nat.zero_add _
    · unfold PricedRings.attemptsIn u64Max
      simp only
      omega
  have hsum := sum_length_filter (fun e : PricedUsage => g.index e.timestamp) g.bucketCount
    (r.attemptsOver tenantId g) fun e he => by
      obtain ⟨-, hlt⟩ := rawIndex_mem hg (hcovered e he)
      have hindex := index_eq hg (hcovered e he)
      omega
  rw [hbuckets, List.map_map]
  exact ((congrArg List.sum hcount).trans hsum).trans (by rw [hseries])

end Series

/-! ## Residency -/

section Residency

variable (r : PricedRings) (tenantId : Option String)

/-- The requests of a tenant, newest first. -/
def PricedRings.logged : List PricedUsage :=
  (r.recentEventsOwned tenantId).reverse.filter fun e => e.isLoggedAttempt

/-- The fold of a report on residency, part by part. -/
theorem residencyReport_eq (limit : ℕ) :
    r.residencyReport tenantId limit =
      (((r.logged tenantId).foldl (fun (s : ResidencySummaryView) e => s.add e.toUsageRecord)
          { window := (r.recentEventsOwned tenantId).length }).finalize,
        ((r.logged tenantId).take limit).map fun e => .ofEvent e.toUsageRecord) := by
  have hfold : ∀ (events : List PricedUsage) (s : ResidencySummaryView)
      (rows : List ResidencyLedgerRow), rows.length ≤ limit →
      events.foldl (fun (acc : ResidencySummaryView × List ResidencyLedgerRow) e =>
          (acc.1.add e.toUsageRecord,
            if acc.2.length < limit then acc.2 ++ [.ofEvent e.toUsageRecord] else acc.2)) (s, rows) =
        (events.foldl (fun (s : ResidencySummaryView) e => s.add e.toUsageRecord) s,
          rows ++ (events.take (limit - rows.length)).map fun e => .ofEvent e.toUsageRecord) := by
    intro events
    induction events with
    | nil => exact fun _ rows _ => by simp
    | cons e events ih =>
      intro s rows hrows
      rw [List.foldl_cons, List.foldl_cons]
      by_cases hlt : rows.length < limit
      · have hone : limit - rows.length = limit - (rows.length + 1) + 1 := by omega
        simp only [hlt, if_true]
        rw [ih _ _ (by rw [List.length_append, List.length_singleton]; omega), hone,
          List.take_succ_cons, List.map_cons, List.length_append, List.length_singleton,
          List.append_assoc]
        rfl
      · have hfull : limit - rows.length = 0 := by omega
        simp only [hlt, if_false]
        rw [ih _ _ hrows, hfull, List.take_zero, List.take_zero]
  unfold PricedRings.residencyReport PricedRings.logged
  have hskip : ∀ acc : ResidencySummaryView × List ResidencyLedgerRow,
      (r.recentEventsOwned tenantId).reverse.foldl (fun acc e =>
          if e.isLoggedAttempt then
            (acc.1.add e.toUsageRecord,
              if acc.2.length < limit then acc.2 ++ [.ofEvent e.toUsageRecord] else acc.2)
          else acc) acc =
        ((r.recentEventsOwned tenantId).reverse.filter fun e => e.isLoggedAttempt).foldl
          (fun (acc : ResidencySummaryView × List ResidencyLedgerRow) e =>
            (acc.1.add e.toUsageRecord,
              if acc.2.length < limit then acc.2 ++ [.ofEvent e.toUsageRecord] else acc.2)) acc := by
    intro acc
    rw [List.foldl_filter]
  simp only [hskip, hfold _ _ [] (Nat.zero_le _), List.nil_append, List.length_nil, Nat.sub_zero]

/-- A counter of the summary, by what one event adds to it. -/
theorem residency_count {f : ResidencySummaryView → ℕ} {p : UsageRecord → Bool}
    (hadd : ∀ s e, f (s.add e) = f s + if p e then 1 else 0) (hfinal : ∀ s, f s.finalize = f s)
    (hzero : ∀ n, f { window := n } = 0) (limit : ℕ) :
    f (r.residencyReport tenantId limit).1 =
      (r.logged tenantId).countP fun e => p e.toUsageRecord := by
  have hfold : ∀ (es : List PricedUsage) (s : ResidencySummaryView),
      f (es.foldl (fun s e => s.add e.toUsageRecord) s) =
        f s + es.countP fun e => p e.toUsageRecord := by
    intro es
    induction es with
    | nil => exact fun _ => rfl
    | cons e es ih =>
      intro s
      rw [List.foldl_cons, ih, hadd, List.countP_cons]
      omega
  rw [residencyReport_eq, hfinal, hfold, hzero, Nat.zero_add]

/-- The requests of an outcome. -/
def PricedRings.outcomeCount (o : ResidencyOutcome) : ℕ :=
  (r.logged tenantId).countP fun e => e.residencyOutcome = o

/-- What the counters of a summary are. -/
structure Partitioned (s : ResidencySummaryView) : Prop where
  total : s.total = (r.logged tenantId).length
  sovereignRouted : s.sovereignRoutedCount = r.outcomeCount tenantId .sovereignRouted
  blocked : s.blockedCount = r.outcomeCount tenantId .residencyBlocked
  allFailed : s.allFailedCount = r.outcomeCount tenantId .allFailed
  regulated : s.regulatedCount = (r.logged tenantId).countP fun e => e.isRegulated
  outcomes : ∀ o : ResidencyOutcome, (s.byOutcome.get o.label).getD 0 = r.outcomeCount tenantId o
  regions : ∀ region, (s.byRegion.get region).getD 0 =
    (r.logged tenantId).countP fun e => e.region.getD "none" = region

theorem label_injective : Function.Injective ResidencyOutcome.label := by
  intro o o' h
  cases o <;> cases o' <;> first | rfl | exact absurd h (by decide)

theorem get_countUnder {α : Type} (key : α → String) (m : Assoc String ℕ) (a : α) (k : String) :
    ((countUnder key m a).get k).getD 0 = (m.get k).getD 0 + if key a = k then 1 else 0 := by
  simp only [countUnder, put]
  rw [Assoc.get_insert]
  by_cases hk : key a = k
  · rw [if_pos hk, if_pos hk, Option.getD_some, hk]
  · rw [if_neg hk, if_neg hk]
    rfl

/-- Each count of the summary, by what one entry adds to it. -/
theorem partitioned_summary (limit : ℕ) :
    Partitioned r tenantId (r.residencyReport tenantId limit).1 := by
  constructor
  · rw [residency_count r tenantId (f := fun s => s.total) (p := fun _ => true) (fun s e => ?_)
      (fun _ => rfl) (fun _ => rfl)]
    · exact congrFun List.countP_true _
    · cases ho : e.residencyOutcome <;>
        simp [ResidencySummaryView.add, ResidencySummaryView.addOutcome, ho]
  · refine residency_count r tenantId (f := fun s => s.sovereignRoutedCount)
      (p := fun e => e.residencyOutcome = .sovereignRouted) (fun s e => ?_) (fun _ => rfl)
      (fun _ => rfl) limit
    cases ho : e.residencyOutcome <;>
      simp [ResidencySummaryView.add, ResidencySummaryView.addOutcome, ho]
  · refine residency_count r tenantId (f := fun s => s.blockedCount)
      (p := fun e => e.residencyOutcome = .residencyBlocked) (fun s e => ?_) (fun _ => rfl)
      (fun _ => rfl) limit
    cases ho : e.residencyOutcome <;>
      simp [ResidencySummaryView.add, ResidencySummaryView.addOutcome, ho]
  · refine residency_count r tenantId (f := fun s => s.allFailedCount)
      (p := fun e => e.residencyOutcome = .allFailed) (fun s e => ?_) (fun _ => rfl)
      (fun _ => rfl) limit
    cases ho : e.residencyOutcome <;>
      simp [ResidencySummaryView.add, ResidencySummaryView.addOutcome, ho]
  · refine residency_count r tenantId (f := fun s => s.regulatedCount)
      (p := fun e => e.isRegulated) (fun s e => ?_) (fun _ => rfl) (fun _ => rfl) limit
    cases hr : e.isRegulated <;> cases ho : e.residencyOutcome <;>
      simp [ResidencySummaryView.add, ResidencySummaryView.addOutcome, hr, ho]
  · intro o
    refine residency_count r tenantId (f := fun s => (s.byOutcome.get o.label).getD 0)
      (p := fun e => e.residencyOutcome = o) (fun s e => ?_) (fun _ => rfl) (fun _ => rfl) limit
    have hsame : ∀ (s : ResidencySummaryView) o', (s.addOutcome o').byOutcome = s.byOutcome := by
      intro s o'
      cases o' <;> rfl
    simp only [ResidencySummaryView.add, get_countUnder, hsame, label_injective.eq_iff,
      decide_eq_true_eq]
  · intro region
    refine residency_count r tenantId (f := fun s => (s.byRegion.get region).getD 0)
      (p := fun e => e.region.getD "none" = region) (fun s e => ?_) (fun _ => rfl) (fun _ => rfl)
      limit
    have hsame : ∀ (s : ResidencySummaryView) o', (s.addOutcome o').byRegion = s.byRegion := by
      intro s o'
      cases o' <;> rfl
    simp only [ResidencySummaryView.add, get_countUnder, hsame, decide_eq_true_eq]

/-- **Every request is counted under its outcome and its region.** -/
theorem residency_partition (limit : ℕ) :
    Partitioned r tenantId (r.residencyReport tenantId limit).1 ∧
      (r.residencyReport tenantId limit).1.total =
        (r.residencyReport tenantId limit).1.sovereignRoutedCount +
          (r.residencyReport tenantId limit).1.blockedCount +
          (r.residencyReport tenantId limit).1.allFailedCount +
          r.outcomeCount tenantId .notRegulated := by
  have hpart := partitioned_summary r tenantId limit
  refine ⟨hpart, ?_⟩
  rw [hpart.total, hpart.sovereignRouted, hpart.blocked, hpart.allFailed]
  unfold PricedRings.outcomeCount
  induction r.logged tenantId with
  | nil => rfl
  | cons e es ih =>
    rw [List.length_cons, ih, List.countP_cons, List.countP_cons, List.countP_cons, List.countP_cons]
    cases e.residencyOutcome <;> simp <;> omega

/-- A row of the ledger and the row of the log it stands beside. -/
structure SameRequest (row : LogRow) (entry : ResidencyLedgerRow) : Prop where
  id : entry.id = row.id
  timestamp : entry.timestamp = row.timestamp
  model : entry.model = row.model
  virtualKeyName : entry.virtualKeyName = row.virtualKeyName
  requiredRegion : entry.requiredRegion = row.region
  routed : entry.outcome = .sovereignRouted ↔ row.outcome = .success ∧ row.sovereignRouted
  routedRegion : entry.routedRegion =
    if entry.outcome = .sovereignRouted then entry.requiredRegion else none
  blocked : entry.outcome = .residencyBlocked → row.outcome = .blocked
  failed : entry.outcome = .allFailed → row.outcome ≠ .success ∧ entry.regulated

theorem sameRequest_of_settled {e : PricedUsage} (h : e.success → e.error = none) :
    SameRequest (.fromEvent e) (.ofEvent e.toUsageRecord) := by
  cases hs : e.success with
  | true =>
    have hnone := h hs
    refine ⟨rfl, rfl, rfl, rfl, rfl, ?_, ?_, ?_, ?_⟩ <;>
      cases hv : e.sovereignRouted <;>
      simp [LogRow.fromEvent, ResidencyLedgerRow.ofEvent, UsageRecord.residencyOutcome,
        UsageRecord.logOutcome, hs, hnone, hv]
  | false =>
    have hlog : (LogRow.fromEvent e).outcome ≠ .success := by
      simp only [LogRow.fromEvent, UsageRecord.logOutcome, hs, Bool.false_eq_true, if_false]
      split <;> exact nofun
    have hout : (ResidencyLedgerRow.ofEvent e.toUsageRecord).outcome ≠ .sovereignRouted := by
      simp only [ResidencyLedgerRow.ofEvent, UsageRecord.residencyOutcome, hs, Bool.false_eq_true,
        if_false]
      split
      · exact nofun
      · split <;> exact nofun
    refine ⟨rfl, rfl, rfl, rfl, rfl, ⟨fun h => absurd h hout, fun h => absurd h.1 hlog⟩, ?_, ?_, ?_⟩
    · rw [if_neg hout]
      simp [ResidencyLedgerRow.ofEvent, hs]
    · simp only [ResidencyLedgerRow.ofEvent, UsageRecord.residencyOutcome, LogRow.fromEvent,
        UsageRecord.logOutcome, hs, Bool.false_eq_true, if_false]
      intro hblocked
      split at hblocked
      · rename_i herror
        rw [if_pos (.inl herror)]
      · split at hblocked <;> cases hblocked
    · intro hfailed
      refine ⟨hlog, ?_⟩
      simp only [ResidencyLedgerRow.ofEvent, UsageRecord.residencyOutcome, hs, Bool.false_eq_true,
        if_false] at hfailed ⊢
      split at hfailed
      · cases hfailed
      · split at hfailed
        · assumption
        · cases hfailed

/-- The requests of a tenant, in the order the ring received them. -/
def PricedRings.received : List PricedUsage :=
  (r.recentEventsOwned tenantId).filter fun e => e.isLoggedAttempt

theorem logged_eq : r.logged tenantId = (r.received tenantId).reverse :=
  List.filter_reverse

/-- **The ledger is the log's, row by row**: for one limit both show the requests received last, the
last one first, and no other. A request is shown as routed to a region only if it was served
there. -/
theorem ledger_follows_log (limit : ℕ) :
    ∃ older shown, r.received tenantId = older ++ shown ∧
      r.recentEvents tenantId limit = shown.reverse.map LogRow.fromEvent ∧
      (r.residencyReport tenantId limit).2 =
        shown.reverse.map (fun e => .ofEvent e.toUsageRecord) ∧
      shown.length = min limit (r.residencyReport tenantId limit).1.total ∧
      List.Forall₂ SameRequest (r.recentEvents tenantId limit)
        (r.residencyReport tenantId limit).2 := by
  have htotal := (partitioned_summary r tenantId limit).total
  have hlength := congrArg List.length (logged_eq r tenantId)
  rw [List.length_reverse] at hlength
  -- what is shown is the end of what was received
  obtain ⟨older, shown, hsplit, hshown, htake⟩ : ∃ older shown,
      r.received tenantId = older ++ shown ∧
        shown.length = min limit (r.received tenantId).length ∧
        (r.logged tenantId).take limit = shown.reverse := by
    refine ⟨(r.received tenantId).take ((r.received tenantId).length - limit),
      (r.received tenantId).drop ((r.received tenantId).length - limit),
      (List.take_append_drop _ _).symm, ?_, ?_⟩
    · rw [List.length_drop]
      omega
    · rw [logged_eq, List.take_reverse]
  have hlog : r.recentEvents tenantId limit = shown.reverse.map LogRow.fromEvent := by
    rw [← htake]
    rfl
  have hledger : (r.residencyReport tenantId limit).2 =
      shown.reverse.map (fun e => .ofEvent e.toUsageRecord) := by
    rw [residencyReport_eq, ← htake]
  refine ⟨older, shown, hsplit, hlog, hledger, by rw [hshown, htotal, hlength], ?_⟩
  rw [hlog, hledger, List.forall₂_map_left_iff, List.forall₂_map_right_iff, List.forall₂_same]
  intro e he
  refine sameRequest_of_settled ?_
  have hreceived : e ∈ r.received tenantId := by
    rw [hsplit]
    exact List.mem_append_right older (List.mem_reverse.1 he)
  have hevents := (List.mem_filter.1 hreceived).1
  unfold PricedRings.recentEventsOwned at hevents
  split at hevents
  · exact absurd hevents List.not_mem_nil
  · rename_i ring _
    obtain ⟨entry, hentry, rfl⟩ := List.mem_map.1 (List.mem_filter.1 hevents).1
    exact ring.settled entry hentry

end Residency

end Routeplane.Usage
