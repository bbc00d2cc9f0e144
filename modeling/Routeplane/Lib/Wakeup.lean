import Mathlib.Algebra.BigOperators.Group.List.Basic
import Mathlib.Algebra.Ring.Nat
import Mathlib.Data.List.Basic
import Mathlib.Tactic.Common

/-!
# A lane of work with a wakeup flag

Callers put work into a lane that one worker serves. A caller that has put work in sets the lane's
flag, and if it was the one to set it sends the worker a token. The worker takes a token, does one
piece of work and keeps the token while it finds more; otherwise it clears the flag and looks once
again. What a caller puts in it has first reserved the weight of from the lane's allowance.

* `Step`: the single steps of callers and worker at one lane.
* `Inv.step`: one token for a flag that is set, and work neither lost, repeated nor reordered.
* `Covered.step`: work that waits is not forgotten, if the worker is careful with stale tokens.
-/

namespace Wakeup

/-- Where the worker is in its turn at a lane. -/
inductive Hand (α : Type*)
  | away
  /-- It has taken a token of the lane ... -/
  | taking
  /-- ... and found no work: the flag is to be cleared. -/
  | stale
  | applying (op : α)
  | dropping (op : α)
  /-- The work is done: is there more? -/
  | finishing
  /-- There is not: the flag is to be cleared ... -/
  | clearing
  /-- ... and the lane looked at again. -/
  | rechecking
  /-- There was: the flag is to be set again. -/
  | rescheduling

namespace Hand

variable {α : Type*}

/-- Whether the worker has the lane's token. -/
def token : Hand α → ℕ
  | taking | stale | applying _ | dropping _ | finishing | clearing => 1
  | away | rechecking | rescheduling => 0

/-- Work that was taken and is not done. -/
def unapplied : Hand α → List α
  | applying op => [op]
  | _ => []

/-- Work that was done and is not let go. -/
def unfinished : Hand α → List α
  | dropping op => [op]
  | _ => []

end Hand

/-- A lane: its work, the flag and the tokens, and what callers are about to do at it. -/
@[ext] structure Lane (α : Type*) where
  queue : List α
  /-- Work found at the end of a turn, for the next. -/
  pending : Option α
  flag : Bool
  /-- Tokens on the way to the worker. -/
  tokens : ℕ
  hand : Hand α
  /-- Callers that have set the flag and not sent the token. -/
  signalling : ℕ
  /-- Callers that have put work in and not tried the flag. -/
  scheduling : ℕ
  /-- What callers have reserved and neither put in nor given back. -/
  reserved : ℕ
  /-- The weight the lane counts. -/
  weight : ℕ
  accepted : List α
  applied : List α
  finished : List α

variable {α : Type*} (cost : α → ℕ) (limit : ℕ)

inductive Step : Lane α → Lane α → Prop
  | stay (l : Lane α) : Step l l
  | reserve (l : Lane α) (c : ℕ) (hfits : l.weight + c ≤ limit) :
      Step l { l with reserved := l.reserved + c, weight := l.weight + c }
  | enqueue (l : Lane α) (op : α) (hheld : cost op ≤ l.reserved) :
      Step l
        { l with
          queue := l.queue ++ [op]
          accepted := l.accepted ++ [op]
          reserved := l.reserved - cost op
          scheduling := l.scheduling + 1 }
  | refuse (l : Lane α) (c : ℕ) (hheld : c ≤ l.reserved) :
      Step l { l with reserved := l.reserved - c, weight := l.weight - c }
  | lose (l : Lane α) (hflag : l.flag = true) :
      Step l { l with scheduling := l.scheduling - 1 }
  | win (l : Lane α) (hflag : l.flag = false) :
      Step l
        { l with flag := true, scheduling := l.scheduling - 1, signalling := l.signalling + 1 }
  | signal (l : Lane α) (hsent : 0 < l.signalling) :
      Step l { l with signalling := l.signalling - 1, tokens := l.tokens + 1 }
  | take (l : Lane α) (hhand : l.hand = .away) (htoken : 0 < l.tokens) :
      Step l { l with tokens := l.tokens - 1, hand := .taking }
  | pick (l : Lane α) (op : α) (hhand : l.hand = .taking) (hpending : l.pending = some op) :
      Step l { l with pending := none, hand := .applying op }
  | pull (l : Lane α) (op : α) (rest : List α) (hhand : l.hand = .taking)
      (hpending : l.pending = none) (hqueue : l.queue = op :: rest) :
      Step l { l with queue := rest, hand := .applying op }
  | miss (l : Lane α) (hhand : l.hand = .taking) (hpending : l.pending = none)
      (hqueue : l.queue = []) : Step l { l with hand := .stale }
  | settle (l : Lane α) (hhand : l.hand = .stale) : Step l { l with flag := false, hand := .away }
  | apply (l : Lane α) (op : α) (hhand : l.hand = .applying op) :
      Step l { l with applied := l.applied ++ [op], hand := .dropping op }
  | drop (l : Lane α) (op : α) (hhand : l.hand = .dropping op) :
      Step l
        { l with
          finished := l.finished ++ [op]
          weight := l.weight - cost op
          hand := .finishing }
  | more (l : Lane α) (op : α) (rest : List α) (hhand : l.hand = .finishing)
      (hqueue : l.queue = op :: rest) :
      Step l
        { l with queue := rest, pending := some op, tokens := l.tokens + 1, hand := .away }
  | done (l : Lane α) (hhand : l.hand = .finishing) (hqueue : l.queue = []) :
      Step l { l with hand := .clearing }
  | clear (l : Lane α) (hhand : l.hand = .clearing) :
      Step l { l with flag := false, hand := .rechecking }
  | found (l : Lane α) (op : α) (rest : List α) (hhand : l.hand = .rechecking)
      (hqueue : l.queue = op :: rest) :
      Step l { l with queue := rest, pending := some op, hand := .rescheduling }
  | idle (l : Lane α) (hhand : l.hand = .rechecking) (hqueue : l.queue = []) :
      Step l { l with hand := .away }
  | rescheduled (l : Lane α) (hhand : l.hand = .rescheduling) (hflag : l.flag = false) :
      Step l { l with flag := true, tokens := l.tokens + 1, hand := .away }
  | taken (l : Lane α) (hhand : l.hand = .rescheduling) (hflag : l.flag = true) :
      Step l { l with hand := .away }

/-- Work that was put in and is not let go, in the order it is served. -/
def Lane.unfinished (l : Lane α) : List α :=
  l.hand.unfinished ++ (l.hand.unapplied ++ (l.pending.toList ++ l.queue))

/-- What holds of a lane whatever callers and worker do. -/
structure Inv (l : Lane α) : Prop where
  token : l.tokens + l.hand.token + l.signalling = if l.flag then 1 else 0
  pending : l.pending ≠ none → l.hand = .away ∨ l.hand = .taking ∨ l.hand = .rescheduling
  order : l.accepted = l.finished ++ l.unfinished
  applied : l.applied = l.finished ++ l.hand.unfinished
  weight : l.weight = l.reserved + (l.unfinished.map cost).sum
  limit : l.weight ≤ limit

variable {cost limit} {l l' : Lane α}

@[simp] theorem token_away : (Hand.away : Hand α).token = 0 := rfl
@[simp] theorem token_taking : (Hand.taking : Hand α).token = 1 := rfl
@[simp] theorem token_stale : (Hand.stale : Hand α).token = 1 := rfl
@[simp] theorem token_applying (op : α) : (Hand.applying op).token = 1 := rfl
@[simp] theorem token_dropping (op : α) : (Hand.dropping op).token = 1 := rfl
@[simp] theorem token_finishing : (Hand.finishing : Hand α).token = 1 := rfl
@[simp] theorem token_clearing : (Hand.clearing : Hand α).token = 1 := rfl
@[simp] theorem token_rechecking : (Hand.rechecking : Hand α).token = 0 := rfl
@[simp] theorem token_rescheduling : (Hand.rescheduling : Hand α).token = 0 := rfl

/-- The worker has a token only while the flag is set. -/
theorem Inv.flag_of_token (h : Inv cost limit l) (htoken : l.hand.token = 1) : l.flag = true := by
  have hone := h.token
  by_contra hflag
  rw [if_neg hflag] at hone
  omega

/-- **One token** for each lane, wherever it is. -/
theorem Inv.tokens_le (h : Inv cost limit l) : l.tokens ≤ 1 := by
  have hone := h.token
  split at hone <;> omega

/-- Work waits in the slot only between turns. -/
theorem Inv.pending_none (h : Inv cost limit l) {hand : Hand α} (hhand : l.hand = hand)
    (hbusy : hand ≠ .away ∧ hand ≠ .taking ∧ hand ≠ .rescheduling) : l.pending = none := by
  by_contra hne
  rcases h.pending hne with heq | heq | heq
  · exact hbusy.1 (hhand.symm.trans heq)
  · exact hbusy.2.1 (hhand.symm.trans heq)
  · exact hbusy.2.2 (hhand.symm.trans heq)

/-- What is about to be let go is counted. -/
theorem Inv.cost_le (h : Inv cost limit l) {op : α} (hhand : l.hand = .dropping op) :
    cost op ≤ l.weight := by
  have hweight := h.weight
  unfold Lane.unfinished at hweight
  rw [hhand] at hweight
  simp only [Hand.unfinished, List.singleton_append, List.map_cons, List.sum_cons] at hweight
  omega

/-- Serving a lane moves work along and changes no list of it. -/
theorem Inv.of_same_work (h : Inv cost limit l) (haccepted : l'.accepted = l.accepted)
    (hfinished : l'.finished = l.finished) (hunfinished : l'.unfinished = l.unfinished)
    (happlied : l'.applied = l'.finished ++ l'.hand.unfinished)
    (hreserved : l'.reserved = l.reserved) (hweight : l'.weight = l.weight)
    (htoken : l'.tokens + l'.hand.token + l'.signalling = if l'.flag then 1 else 0)
    (hpending : l'.pending ≠ none → l'.hand = .away ∨ l'.hand = .taking ∨ l'.hand = .rescheduling) :
    Inv cost limit l' where
  token := htoken
  pending := hpending
  order := by rw [haccepted, hfinished, hunfinished, h.order]
  applied := happlied
  weight := by rw [hweight, hreserved, hunfinished, h.weight]
  limit := by rw [hweight]; exact h.limit

/-- What is put in stands last, and takes its weight from what was reserved for it. -/
theorem Inv.enqueue (h : Inv cost limit l) {op : α} (hheld : cost op ≤ l.reserved) :
    Inv cost limit
      { l with
        queue := l.queue ++ [op]
        accepted := l.accepted ++ [op]
        reserved := l.reserved - cost op
        scheduling := l.scheduling + 1 } := by
  have hunfinished : ({ l with
      queue := l.queue ++ [op]
      accepted := l.accepted ++ [op]
      reserved := l.reserved - cost op
      scheduling := l.scheduling + 1 } : Lane α).unfinished = l.unfinished ++ [op] := by
    unfold Lane.unfinished
    simp only [List.append_assoc]
  have hweight := h.weight
  refine ⟨h.token, h.pending, ?_, h.applied, ?_, h.limit⟩
  · rw [hunfinished, ← List.append_assoc, ← h.order]
  · rw [hunfinished, List.map_append, List.sum_append, List.map_singleton, List.sum_singleton]
    simp only
    omega

/-- What is let go was the first of the unfinished, and its weight goes with it. -/
theorem Inv.drop (h : Inv cost limit l) {op : α} (hhand : l.hand = .dropping op) :
    Inv cost limit
      { l with
        finished := l.finished ++ [op]
        weight := l.weight - cost op
        hand := .finishing } := by
  have hno : l.pending = none := h.pending_none hhand ⟨nofun, nofun, nofun⟩
  have hfirst : l.unfinished = op :: ({ l with
      finished := l.finished ++ [op]
      weight := l.weight - cost op
      hand := .finishing } : Lane α).unfinished := by
    unfold Lane.unfinished
    rw [hhand]
    rfl
  have htoken := h.token
  have happlied := h.applied
  have hweight := h.weight
  have horder := h.order
  rw [hfirst] at hweight horder
  rw [List.map_cons, List.sum_cons] at hweight
  rw [hhand] at htoken happlied
  refine ⟨htoken, fun hne => absurd hno hne, ?_, ?_, ?_, Nat.le_trans (Nat.sub_le _ _) h.limit⟩
  · simp only
    rw [horder, List.append_assoc]
    rfl
  · simp only
    rw [happlied]
    exact (List.append_nil _).symm
  · simp only at hweight ⊢
    omega

/-- **Every step keeps the invariant.** One case for each step; what moves from one place to the
next keeps its place in the order and its weight. -/
theorem Inv.step (h : Inv cost limit l) (hstep : Step cost limit l l') : Inv cost limit l' := by
  have htoken := h.token
  have hpending := h.pending
  have happlied := h.applied
  have hweight := h.weight
  have hlimit := h.limit
  cases hstep with
  | stay => exact h
  | reserve c hfits =>
    refine ⟨htoken, hpending, h.order, happlied, ?_, hfits⟩
    have hsame : l.weight = l.reserved + (l.unfinished.map cost).sum := hweight
    show l.weight + c = l.reserved + c + (l.unfinished.map cost).sum
    omega
  | enqueue op hheld => exact h.enqueue hheld
  | refuse c hheld =>
    refine ⟨htoken, hpending, h.order, happlied, ?_, Nat.le_trans (Nat.sub_le _ _) hlimit⟩
    show l.weight - c = l.reserved - c + (l.unfinished.map cost).sum
    omega
  | lose hflag => exact h.of_same_work rfl rfl rfl happlied rfl rfl htoken hpending
  | win hflag =>
    refine h.of_same_work rfl rfl rfl happlied rfl rfl ?_ hpending
    -- the flag was clear, so the lane had no token anywhere
    rw [hflag, if_neg Bool.false_ne_true] at htoken
    simp only [if_true]
    omega
  | signal hsent =>
    refine h.of_same_work rfl rfl rfl happlied rfl rfl ?_ hpending
    simp only
    omega
  | take hhand htoken' =>
    rw [hhand] at htoken happlied
    refine h.of_same_work rfl rfl ?_ happlied rfl rfl ?_ fun _ => Or.inr (Or.inl rfl)
    · unfold Lane.unfinished
      rw [hhand]
      rfl
    · simp only [token_away, token_taking] at htoken ⊢
      omega
  | pick op hhand hpend =>
    rw [hhand] at htoken happlied
    refine h.of_same_work rfl rfl ?_ happlied rfl rfl htoken fun hne => absurd rfl hne
    unfold Lane.unfinished
    rw [hhand, hpend]
    rfl
  | pull op rest hhand hpend hqueue =>
    rw [hhand] at htoken happlied
    refine h.of_same_work rfl rfl ?_ happlied rfl rfl htoken fun hne => absurd hpend hne
    unfold Lane.unfinished
    rw [hhand, hpend, hqueue]
    rfl
  | miss hhand hpend hqueue =>
    rw [hhand] at htoken happlied
    refine h.of_same_work rfl rfl ?_ happlied rfl rfl htoken fun hne => absurd hpend hne
    unfold Lane.unfinished
    rw [hhand]
    rfl
  | settle hhand =>
    rw [hhand] at htoken happlied
    refine h.of_same_work rfl rfl ?_ happlied rfl rfl ?_ fun _ => Or.inl rfl
    · unfold Lane.unfinished
      rw [hhand]
      rfl
    · simp only [token_away, token_stale, Bool.false_eq_true, if_false] at htoken ⊢
      split at htoken <;> omega
  | apply op hhand =>
    have hno : l.pending = none := h.pending_none hhand ⟨nofun, nofun, nofun⟩
    rw [hhand] at htoken happlied
    refine h.of_same_work rfl rfl ?_ ?_ rfl rfl htoken fun hne => absurd hno hne
    · unfold Lane.unfinished
      rw [hhand]
      rfl
    · simp only
      rw [happlied]
      simp only [Hand.unfinished, List.append_nil]
  | drop op hhand => exact h.drop hhand
  | more op rest hhand hqueue =>
    have hno : l.pending = none := h.pending_none hhand ⟨nofun, nofun, nofun⟩
    rw [hhand] at htoken happlied
    refine h.of_same_work rfl rfl ?_ happlied rfl rfl ?_ fun _ => Or.inl rfl
    · unfold Lane.unfinished
      rw [hhand, hno, hqueue]
      rfl
    · simp only [token_away, token_finishing] at htoken ⊢
      omega
  | done hhand hqueue =>
    have hno : l.pending = none := h.pending_none hhand ⟨nofun, nofun, nofun⟩
    rw [hhand] at htoken happlied
    refine h.of_same_work rfl rfl ?_ happlied rfl rfl htoken fun hne => absurd hno hne
    unfold Lane.unfinished
    rw [hhand]
    rfl
  | clear hhand =>
    have hno : l.pending = none := h.pending_none hhand ⟨nofun, nofun, nofun⟩
    rw [hhand] at htoken happlied
    refine h.of_same_work rfl rfl ?_ happlied rfl rfl ?_ fun hne => absurd hno hne
    · unfold Lane.unfinished
      rw [hhand]
      rfl
    · simp only [token_clearing, token_rechecking, Bool.false_eq_true, if_false] at htoken ⊢
      split at htoken <;> omega
  | found op rest hhand hqueue =>
    have hno : l.pending = none := h.pending_none hhand ⟨nofun, nofun, nofun⟩
    rw [hhand] at htoken happlied
    refine h.of_same_work rfl rfl ?_ happlied rfl rfl htoken fun _ => Or.inr (Or.inr rfl)
    unfold Lane.unfinished
    rw [hhand, hno, hqueue]
    rfl
  | idle hhand hqueue =>
    rw [hhand] at htoken happlied
    refine h.of_same_work rfl rfl ?_ happlied rfl rfl htoken fun _ => Or.inl rfl
    unfold Lane.unfinished
    rw [hhand]
    rfl
  | rescheduled hhand hflag =>
    -- clearing gave the token up, and nobody has set the flag since
    rw [hhand, hflag] at htoken
    rw [hhand] at happlied
    refine h.of_same_work rfl rfl ?_ happlied rfl rfl ?_ fun _ => Or.inl rfl
    · unfold Lane.unfinished
      rw [hhand]
      rfl
    · simp only [token_away, token_rescheduling, Bool.false_eq_true, if_false, if_true] at htoken ⊢
      omega
  | taken hhand hflag =>
    rw [hhand] at htoken happlied
    refine h.of_same_work rfl rfl ?_ happlied rfl rfl htoken fun _ => Or.inl rfl
    unfold Lane.unfinished
    rw [hhand]
    rfl

/-- **Work in the slot is never overwritten**: it stays until its turn. -/
theorem Step.pending_kept (hinv : Inv cost limit l) (hstep : Step cost limit l l') {op : α}
    (hpending : l.pending = some op) :
    l'.pending = some op ∨ l'.pending = none ∧ l'.hand = .applying op := by
  have hbusy : ∀ {hand}, l.hand = hand → hand ≠ .away ∧ hand ≠ .taking ∧ hand ≠ .rescheduling →
      False := by
    intro hand hhand hne
    rw [hinv.pending_none hhand hne] at hpending
    cases hpending
  cases hstep with
  | pick op' hhand hpend =>
    rw [hpending] at hpend
    cases hpend
    exact Or.inr ⟨rfl, rfl⟩
  | more op' rest hhand hqueue => exact (hbusy hhand ⟨nofun, nofun, nofun⟩).elim
  | found op' rest hhand hqueue => exact (hbusy hhand ⟨nofun, nofun, nofun⟩).elim
  | _ => exact Or.inl hpending

/-! ## Work that waits -/

/-- Work that waits has the flag set, or someone about to set it. -/
def Covered (l : Lane α) : Prop :=
  l.queue ≠ [] ∨ l.pending ≠ none →
    l.flag = true ∨ l.hand = .rechecking ∨ l.hand = .rescheduling ∨ 0 < l.scheduling

/-- The flag of a stale token is cleared only while the lane is empty, or before a caller has tried
the flag. -/
def Careful (l l' : Lane α) : Prop :=
  l.hand = .stale → l'.hand ≠ .stale → l.queue = [] ∨ 0 < l.scheduling

theorem Covered.of_flag (h : l.flag = true) : Covered l := fun _ => Or.inl h

/-- Work is covered by what covered it before, where nothing that covers it is given up. -/
theorem Covered.of_same (h : Covered l) (hqueue : l'.queue = l.queue)
    (hpending : l'.pending = l.pending) (hflag : l'.flag = l.flag)
    (hscheduling : l'.scheduling = l.scheduling)
    (hhand : l.hand ≠ .rechecking ∧ l.hand ≠ .rescheduling) : Covered l' := by
  intro hwork
  rw [hqueue, hpending] at hwork
  rw [hflag, hscheduling]
  rcases h hwork with hset | hre | hre | hcaller
  · exact Or.inl hset
  · exact absurd hre hhand.1
  · exact absurd hre hhand.2
  · exact Or.inr (Or.inr (Or.inr hcaller))

/-- **Careful steps keep waiting work covered.** While the worker has the token the flag is set. It
clears the flag at two places: after a turn it looks once again, after a stale token it does not. -/
theorem Covered.step (hinv : Inv cost limit l) (h : Covered l) (hstep : Step cost limit l l')
    (hcareful : Careful l l') : Covered l' := by
  have hset : ∀ {hand}, l.hand = hand → hand.token = 1 → l.flag = true := by
    intro hand hhand htoken
    refine hinv.flag_of_token ?_
    rw [hhand, htoken]
  cases hstep with
  | stay => exact h
  | reserve c hfits => exact h
  | enqueue op hheld =>
    intro _
    exact Or.inr (Or.inr (Or.inr (Nat.succ_pos _)))
  | refuse c hheld => exact h
  | lose hflag => exact Covered.of_flag hflag
  | win hflag => exact Covered.of_flag rfl
  | signal hsent => exact h
  | take hhand htoken =>
    refine h.of_same rfl rfl rfl rfl ?_
    rw [hhand]
    exact ⟨nofun, nofun⟩
  | pick op hhand hpend => exact Covered.of_flag (hset hhand rfl)
  | pull op rest hhand hpend hqueue => exact Covered.of_flag (hset hhand rfl)
  | miss hhand hpend hqueue => exact Covered.of_flag (hset hhand rfl)
  | settle hhand =>
    have hno : l.pending = none := hinv.pending_none hhand ⟨nofun, nofun, nofun⟩
    rcases hcareful hhand nofun with hempty | hcaller
    · rintro (hwork | hwork)
      · exact absurd hempty hwork
      · exact absurd hno hwork
    · exact fun _ => Or.inr (Or.inr (Or.inr hcaller))
  | apply op hhand => exact Covered.of_flag (hset hhand rfl)
  | drop op hhand => exact Covered.of_flag (hset hhand rfl)
  | more op rest hhand hqueue => exact Covered.of_flag (hset hhand rfl)
  | done hhand hqueue => exact Covered.of_flag (hset hhand rfl)
  | clear hhand => exact fun _ => Or.inr (Or.inl rfl)
  | found op rest hhand hqueue => exact fun _ => Or.inr (Or.inr (Or.inl rfl))
  | idle hhand hqueue =>
    have hno : l.pending = none := hinv.pending_none hhand ⟨nofun, nofun, nofun⟩
    rintro (hwork | hwork)
    · exact absurd hqueue hwork
    · exact absurd hno hwork
  | rescheduled hhand hflag => exact Covered.of_flag rfl
  | taken hhand hflag => exact Covered.of_flag hflag

/-- **No work is forgotten.** Between the worker's turns, with no caller at the flag, work that waits
has its token. -/
theorem Covered.tokens_eq (hinv : Inv cost limit l) (h : Covered l) (hhand : l.hand = .away)
    (hscheduling : l.scheduling = 0) (hsignalling : l.signalling = 0)
    (hwork : l.queue ≠ [] ∨ l.pending ≠ none) : l.tokens = 1 := by
  have hone := hinv.token
  rw [hhand, hsignalling] at hone
  rcases h hwork with hflag | hre | hre | hcaller
  · rw [if_pos hflag] at hone
    exact hone
  · rw [hhand] at hre
    cases hre
  · rw [hhand] at hre
    cases hre
  · omega

end Wakeup
