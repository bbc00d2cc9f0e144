import Mathlib.Data.List.Chain
import Mathlib.Tactic.Common

/-!
# Run lengths

A list is a sequence of maximal runs of equal elements. A run-length code in band writes the element
of a run once, and the rest of it either in full or, above a limit, as a marker: an element that says
how many there are.

* `IsRuns`: the decomposition into maximal runs. `runs`: its computation, `IsRuns.eq_runs`: it is the
  only one.
* `encode`, `decode`: the code. `decode_encode`: it is read back if no element looks like a marker.
* `read_of_mem_decode`: what looks like a marker is never read back.
-/

namespace RunLength

variable {α : Type*}

/-- What the runs stand for. -/
def expand (rs : List (α × ℕ)) : List α := rs.flatMap fun r => List.replicate r.2 r.1

/-- The runs are those of a list, and each is as long as it can be. -/
structure IsRuns (rs : List (α × ℕ)) (xs : List α) : Prop where
  pos : ∀ r ∈ rs, 0 < r.2
  maximal : rs.IsChain fun r s => r.1 ≠ s.1
  expand : expand rs = xs

section Runs

variable [DecidableEq α] {rs : List (α × ℕ)} {x : α} {xs : List α} {n : ℕ}

/-- The runs of `n` more of `x` and of what follows. -/
def runsFrom (x : α) : ℕ → List α → List (α × ℕ)
  | n, [] => [(x, n + 1)]
  | n, y :: ys => if y = x then runsFrom x (n + 1) ys else (x, n + 1) :: runsFrom y 0 ys

def runs : List α → List (α × ℕ)
  | [] => []
  | x :: xs => runsFrom x 0 xs

/-- The run in progress is the first. -/
theorem exists_runsFrom (x : α) (n : ℕ) (xs : List α) :
    ∃ m rest, runsFrom x n xs = (x, m + 1) :: rest := by
  induction xs generalizing n with
  | nil => exact ⟨n, [], rfl⟩
  | cons y ys ih =>
    unfold runsFrom
    split
    · exact ih (n + 1)
    · exact ⟨n, _, rfl⟩

theorem isRuns_runsFrom (x : α) (n : ℕ) (xs : List α) :
    IsRuns (runsFrom x n xs) (List.replicate (n + 1) x ++ xs) := by
  induction xs generalizing x n with
  | nil =>
    refine ⟨fun r hr => ?_, List.isChain_singleton _, ?_⟩
    · rw [List.mem_singleton.1 hr]
      exact Nat.succ_pos n
    · exact List.flatMap_singleton _ _ |>.trans (List.append_nil _).symm
  | cons y ys ih =>
    unfold runsFrom
    split
    · rename_i heq
      have hnext := ih x (n + 1)
      rw [List.replicate_succ', List.append_assoc, List.singleton_append] at hnext
      rw [heq]
      exact hnext
    · rename_i hne
      have hnext := ih y 0
      obtain ⟨m, rest, hrest⟩ := exists_runsFrom y 0 ys
      refine ⟨fun r hr => ?_, ?_, ?_⟩
      · rcases List.mem_cons.1 hr with rfl | hr
        · exact Nat.succ_pos n
        · exact hnext.pos r hr
      · have hchain := hnext.maximal
        rw [hrest] at hchain ⊢
        exact List.isChain_cons_cons.2 ⟨fun h => hne h.symm, hchain⟩
      · show List.replicate (n + 1) x ++ RunLength.expand (runsFrom y 0 ys) = _
        rw [hnext.expand]
        rfl

theorem isRuns_runs (xs : List α) : IsRuns (runs xs) xs := by
  cases xs with
  | nil => exact ⟨fun r hr => absurd hr List.not_mem_nil, .nil, rfl⟩
  | cons x xs => exact isRuns_runsFrom x 0 xs

/-- By induction on the length of the run that is left. -/
theorem runsFrom_replicate (x : α) (n k : ℕ) (xs : List α) :
    runsFrom x n (List.replicate k x ++ xs) = runsFrom x (n + k) xs := by
  induction k generalizing n with
  | zero => rfl
  | succ k ih =>
    show (if x = x then runsFrom x (n + 1) (List.replicate k x ++ xs) else _) = _
    rw [if_pos rfl, ih, Nat.add_right_comm, Nat.add_assoc]

/-- A run that is not continued is the first one. -/
theorem runs_replicate_append (h : xs.head? ≠ some x) (n : ℕ) :
    runs (List.replicate (n + 1) x ++ xs) = (x, n + 1) :: runs xs := by
  show runsFrom x 0 (List.replicate n x ++ xs) = _
  rw [runsFrom_replicate, Nat.zero_add]
  cases xs with
  | nil => rfl
  | cons y ys =>
    have hne : y ≠ x := fun heq => h (congrArg some heq)
    exact if_neg hne

/-- **There is one decomposition into maximal runs.** -/
theorem IsRuns.eq_runs (h : IsRuns rs xs) : rs = runs xs := by
  obtain ⟨hpos, hmaximal, rfl⟩ := h
  induction rs with
  | nil => rfl
  | cons r rest ih =>
    obtain ⟨x, n⟩ := r
    have hn : 0 < n := hpos _ List.mem_cons_self
    obtain ⟨k, rfl⟩ : ∃ k, n = k + 1 := ⟨n - 1, by omega⟩
    have hrest := ih (fun r hr => hpos r (List.mem_cons_of_mem _ hr)) hmaximal.tail
    have hhead : (RunLength.expand rest).head? ≠ some x := by
      cases rest with
      | nil => exact Option.some_ne_none x |>.symm
      | cons s rest =>
        obtain ⟨y, m⟩ := s
        have hm : 0 < m := hpos _ (List.mem_cons_of_mem _ List.mem_cons_self)
        obtain ⟨j, rfl⟩ : ∃ j, m = j + 1 := ⟨m - 1, by omega⟩
        intro heq
        exact (List.isChain_cons_cons.1 hmaximal).1 (Option.some.inj heq).symm
    show _ = runs (List.replicate (k + 1) x ++ RunLength.expand rest)
    rw [runs_replicate_append hhead, ← hrest]

end Runs

/-! ## The code -/

section Code

variable {limit : ℕ} {mark : ℕ → α} {read : α → Option ℕ} {x last : α} {xs : List α}

/-- A run: its element, and the rest of it in full or as a marker. -/
def encodeRun (limit : ℕ) (mark : ℕ → α) (r : α × ℕ) : List α :=
  r.1 :: if r.2 - 1 ≤ limit then List.replicate (r.2 - 1) r.1 else [mark (r.2 - 1)]

def encode (limit : ℕ) (mark : ℕ → α) (rs : List (α × ℕ)) : List α :=
  rs.flatMap (encodeRun limit mark)

/-- A marker repeats the element read last. -/
def decode (read : α → Option ℕ) (last : α) : List α → List α
  | [] => []
  | x :: xs =>
    match read x with
    | some n => List.replicate n last ++ decode read last xs
    | none => x :: decode read x xs

theorem decode_marker {n : ℕ} (h : read x = some n) :
    decode read last (x :: xs) = List.replicate n last ++ decode read last xs := by
  rw [decode, h]

theorem decode_plain (h : read x = none) :
    decode read last (x :: xs) = x :: decode read x xs := by
  rw [decode, h]

theorem decode_replicate (h : read x = none) (n : ℕ) (xs : List α) :
    decode read x (List.replicate n x ++ xs) = List.replicate n x ++ decode read x xs := by
  induction n with
  | zero => rfl
  | succ n ih =>
    rw [List.replicate_succ, List.cons_append, decode_plain h, ih]
    rfl

/-- **What is encoded is read back**, by induction on the runs. -/
theorem decode_encode {rs : List (α × ℕ)} (hmark : ∀ n, limit < n → read (mark n) = some n)
    (hplain : ∀ r ∈ rs, read r.1 = none) (hpos : ∀ r ∈ rs, 0 < r.2) :
    decode read last (encode limit mark rs) = expand rs := by
  induction rs generalizing last with
  | nil => rfl
  | cons r rest ih =>
    obtain ⟨x, n⟩ := r
    have hx : read x = none := hplain _ List.mem_cons_self
    have hn : 0 < n := hpos _ List.mem_cons_self
    have hrest : ∀ last, decode read last (encode limit mark rest) = expand rest := fun last =>
      ih (fun r hr => hplain r (List.mem_cons_of_mem _ hr))
        fun r hr => hpos r (List.mem_cons_of_mem _ hr)
    have hexpand : expand ((x, n) :: rest) = x :: (List.replicate (n - 1) x ++ expand rest) := by
      show List.replicate n x ++ expand rest = _
      rw [← List.cons_append, ← List.replicate_succ, Nat.sub_add_cancel hn]
    rw [hexpand]
    show decode read last (x :: ((if n - 1 ≤ limit then _ else _) ++ encode limit mark rest)) = _
    rw [decode_plain hx]
    by_cases hlimit : n - 1 ≤ limit
    · rw [if_pos hlimit, decode_replicate hx, hrest]
    · rw [if_neg hlimit, List.singleton_append, decode_marker (hmark _ (Nat.lt_of_not_le hlimit)),
        hrest]

/-- Nothing that looks like a marker is read back. -/
theorem read_of_mem_decode (hlast : read last = none) (h : x ∈ decode read last xs) :
    read x = none := by
  induction xs generalizing last with
  | nil => exact absurd h List.not_mem_nil
  | cons y ys ih =>
    cases hy : read y with
    | none =>
      rw [decode_plain hy] at h
      rcases List.mem_cons.1 h with rfl | h
      · exact hy
      · exact ih hy h
    | some n =>
      rw [decode_marker hy] at h
      rcases List.mem_append.1 h with h | h
      · rw [List.eq_of_mem_replicate h]
        exact hlast
      · exact ih hlast h

end Code

end RunLength
