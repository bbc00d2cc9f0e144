import Routeplane.Lib.Run
import Routeplane.Router.KeyCells
import Mathlib.Data.Set.Function

/-!
# The cooldown cells never lie

* `apply_serial`: each step leaves the words, or carries out one whole call on them.
* `cooled_perform`: what one call makes of a key's cooldown.
* `key_cooldowns_exact`: in every interleaving a key's cooldown is the latest deadline stamped for
  it since its last clear and since its cell was last taken over.
-/

namespace Routeplane.KeyCells

open HealthTracker

variable {ι : Type} [DecidableEq ι] {s : State ι} {h : HealthTracker} {x y : PoolKey} {op : Op}

/-! ## The packed word -/

theorem cooldownFp_pack {fp untilMs : ℕ} (hfp : fp < 2 ^ (64 - untilBits)) :
    cooldownFp (packCooldown fp untilMs) = fp := by
  have hpos : 0 < 2 ^ untilBits := by decide
  unfold cooldownFp packCooldown
  rw [Nat.mod_eq_of_lt hfp, Nat.add_comm, Nat.add_mul_div_right _ _ hpos,
    Nat.div_eq_of_lt (Nat.mod_lt _ hpos), Nat.zero_add]

theorem cooldownUntil_pack {fp untilMs : ℕ} (hu : untilMs ≤ untilMask) :
    cooldownUntil (packCooldown fp untilMs) = untilMs := by
  have hlt : untilMs < 2 ^ untilBits := by
    unfold untilMask at hu
    have hpos : 0 < 2 ^ untilBits := by decide
    omega
  unfold cooldownUntil packCooldown
  rw [Nat.mul_add_mod_self_right, Nat.mod_mod, Nat.mod_eq_of_lt hlt]

theorem pack_lt (fp untilMs : ℕ) : packCooldown fp untilMs < 2 ^ 64 := by
  have hfp : fp % 2 ^ (64 - untilBits) < 2 ^ (64 - untilBits) := Nat.mod_lt _ (by decide)
  have huntil : untilMs % 2 ^ untilBits < 2 ^ untilBits := Nat.mod_lt _ (by decide)
  unfold packCooldown
  simp only [untilBits] at hfp huntil ⊢
  omega

theorem slot_fp_lt (h : HealthTracker) (x : PoolKey) : (slot h x).2 < 2 ^ (64 - untilBits) := by
  unfold slot keySlot
  simp only
  split
  · decide
  · exact Nat.mod_lt _ (by decide)

/-- A vacant word is nobody's. -/
theorem slot_fp_pos (h : HealthTracker) (x : PoolKey) : 0 < (slot h x).2 := by
  unfold slot keySlot
  simp only
  split <;> omega

theorem cooldownFp_zero : cooldownFp 0 = 0 := Nat.zero_div _

/-! ## A call on the words -/

theorem perform_coolKey (untilMs : ℕ) : perform h (x, .coolKey untilMs) =
    if cooldownFp (word h x) = (slot h x).2 ∧ min untilMs untilMask ≤ cooldownUntil (word h x)
    then h
    else h.setWord (slot h x).1 (packCooldown (slot h x).2 (min untilMs untilMask)) := rfl

theorem perform_clearKey : perform h (x, .clearKey) =
    if cooldownFp (word h x) = (slot h x).2 then h.setWord (slot h x).1 0 else h := rfl

/-- The whole call is what its loop proposes for the word. -/
theorem perform_eq (op : Op) : perform h (x, op) =
    (proposal h x (word h x) op).elim h (h.setWord (slot h x).1) := by
  cases op with
  | coolKey untilMs =>
    rw [perform_coolKey, proposal]
    split <;> rfl
  | clearKey =>
    rw [perform_clearKey, proposal]
    simp only [ne_eq, ite_not]
    split <;> rfl

theorem keyHash_perform (call : PoolKey × Op) : (perform h call).keyHash = h.keyHash := by
  obtain ⟨x, op⟩ := call
  rw [perform_eq]
  cases proposal h x (word h x) op <;> rfl

theorem slot_congr {h' : HealthTracker} (heq : h'.keyHash = h.keyHash) : slot h' x = slot h x := by
  unfold slot keySlot
  simp only [heq]

theorem cooled_eq : keyCooledUntil h x =
    if cooldownFp (word h x) = (slot h x).2 then cooldownUntil (word h x) else 0 := rfl

theorem word_setWord (i next : ℕ) :
    word (h.setWord i next) x = if (slot h x).1 = i then next else word h x := rfl

theorem slot_setWord (i next : ℕ) : slot (h.setWord i next) x = slot h x := rfl

/-- A key's own call sets or ends its cooldown. -/
theorem cooled_perform_self (op : Op) : keyCooledUntil (perform h (x, op)) x =
    if ends h x (x, op) then 0
    else (stamp x (x, op)).toList.foldl max (keyCooledUntil h x) := by
  cases op with
  | clearKey =>
    simp only [ends, decide_true, if_true]
    rw [perform_clearKey]
    split
    · rw [cooled_eq, word_setWord, if_pos rfl, slot_setWord, cooldownFp_zero,
        if_neg (Nat.ne_of_lt (slot_fp_pos h x))]
    · rename_i hfp
      rw [cooled_eq, if_neg hfp]
  | coolKey untilMs =>
    have hmask : min untilMs untilMask ≤ untilMask := Nat.min_le_right ..
    simp only [ends, stamp, ne_eq, not_true_eq_false, false_and, decide_false,
      Bool.false_eq_true, if_false, if_true, Option.toList_some, List.foldl_cons, List.foldl_nil]
    rw [perform_coolKey]
    split
    · rename_i hlong
      rw [cooled_eq, if_pos hlong.1, Nat.max_eq_left hlong.2]
    · rename_i hshort
      rw [cooled_eq, word_setWord, if_pos rfl, slot_setWord, cooldownFp_pack (slot_fp_lt h x),
        cooldownUntil_pack hmask, if_pos rfl, cooled_eq]
      split
      · -- the word is the key's own and ends earlier, so the new deadline is the later one
        rename_i hfp
        have hlt : cooldownUntil (word h x) < min untilMs untilMask :=
          Nat.lt_of_not_le fun hle => hshort ⟨hfp, hle⟩
        exact (Nat.max_eq_right hlt.le).symm
      · exact (Nat.zero_max _).symm

/-- A call for another key of the cell: whatever it writes, the word is not this key's. -/
theorem cooled_perform_shared (hyx : y ≠ x) (hcell : (slot h y).1 = (slot h x).1)
    (hne : (slot h y).2 ≠ (slot h x).2) (op : Op) : keyCooledUntil (perform h (y, op)) x =
      if ends h x (y, op) then 0
      else (stamp x (y, op)).toList.foldl max (keyCooledUntil h x) := by
  have hword : word h y = word h x := by
    unfold word
    rw [hcell]
  cases op with
  | clearKey =>
    simp only [ends, stamp, hyx, decide_false, Bool.false_eq_true, if_false,
      Option.toList_none, List.foldl_nil]
    rw [perform_clearKey, hword]
    split
    · -- the other's word, cleared: it was not ours before either
      rename_i hfp
      rw [cooled_eq, cooled_eq, word_setWord, if_pos hcell.symm, slot_setWord,
        cooldownFp_zero, if_neg (Nat.ne_of_lt (slot_fp_pos h x)), hfp, if_neg hne]
    · rfl
  | coolKey untilMs =>
    simp only [ends, ne_eq, hyx, not_false_eq_true, hcell, and_self, decide_true, if_true]
    rw [perform_coolKey, hword]
    split
    · rename_i hlong
      rw [cooled_eq, hlong.1, if_neg hne]
    · rw [cooled_eq, word_setWord, if_pos hcell.symm, slot_setWord,
        cooldownFp_pack (slot_fp_lt h y), if_neg hne]

/-- A call at another cell leaves the word as it is. -/
theorem cooled_perform_apart (hyx : y ≠ x) (hcell : (slot h y).1 ≠ (slot h x).1) (op : Op) :
    keyCooledUntil (perform h (y, op)) x =
      if ends h x (y, op) then 0
      else (stamp x (y, op)).toList.foldl max (keyCooledUntil h x) := by
  have hkept : keyCooledUntil (perform h (y, op)) x = keyCooledUntil h x := by
    rw [perform_eq]
    cases proposal h y (word h y) op with
    | none => rfl
    | some next =>
      rw [Option.elim_some, cooled_eq, cooled_eq, word_setWord, if_neg (Ne.symm hcell),
        slot_setWord]
  rw [hkept]
  cases op <;> simp [ends, stamp, hyx, hcell]

/-- **One call and the cooldown of one key.** Keys of one cell have fingerprints of their own. -/
theorem cooled_perform (hown : y ≠ x → (slot h y).1 = (slot h x).1 → (slot h y).2 ≠ (slot h x).2)
    (op : Op) : keyCooledUntil (perform h (y, op)) x =
      if ends h x (y, op) then 0
      else ((stamp x (y, op)).toList.foldl max (keyCooledUntil h x)) := by
  by_cases hyx : y = x
  · subst hyx
    exact cooled_perform_self op
  · by_cases hcell : (slot h y).1 = (slot h x).1
    · exact cooled_perform_shared hyx hcell (hown hyx hcell) op
    · exact cooled_perform_apart hyx hcell op

/-! ## One call after the other -/

theorem latest_append (deadlines more : List ℕ) :
    latest (deadlines ++ more) = more.foldl max (latest deadlines) := List.foldl_append ..

theorem deadlinesSince_snoc (log : List (PoolKey × Op)) (call : PoolKey × Op) :
    deadlinesSince h x (log ++ [call]) =
      if ends h x call then [] else deadlinesSince h x log ++ (stamp x call).toList := by
  unfold deadlinesSince
  rw [List.rtakeWhile_concat]
  cases hends : ends h x call with
  | true => rfl
  | false =>
    rw [if_pos (by rw [Bool.not_false]), List.filterMap_append, if_neg Bool.false_ne_true]
    cases hstamp : stamp x call <;> simp [hstamp]

theorem deadlinesSince_congr {h' : HealthTracker} (heq : h'.keyHash = h.keyHash)
    (log : List (PoolKey × Op)) : deadlinesSince h' x log = deadlinesSince h x log := by
  have hends : ∀ call, ends h' x call = ends h x call := by
    intro call
    obtain ⟨y, op⟩ := call
    cases op <;> simp only [ends, slot_congr heq]
  unfold deadlinesSince
  simp only [hends]

/-- A call takes effect in the step that ends it; no other step writes. -/
theorem observe_serial (s : State ι) (i : ι) (x : PoolKey) (op : Op) :
    ((s.observe i x op).tracker = s.tracker ∧ (s.observe i x op).log = s.log) ∨
      ((s.observe i x op).tracker = perform s.tracker (x, op) ∧
        (s.observe i x op).log = s.log ++ [(x, op)]) := by
  unfold State.observe
  split
  · rename_i hp
    refine .inr ⟨?_, rfl⟩
    rw [perform_eq, hp]
    rfl
  · exact .inl ⟨rfl, rfl⟩

/-- **Every interleaving carries out whole calls, one after the other.** -/
theorem apply_serial (s : State ι) (e : Event ι) :
    ((apply s e).tracker = s.tracker ∧ (apply s e).log = s.log) ∨
      ∃ x op, (s.caller e.caller).key = some x ∧ (apply s e).tracker = perform s.tracker (x, op) ∧
        (apply s e).log = s.log ++ [(x, op)] := by
  have hobserve : ∀ i x op, (s.caller i).key = some x →
      ((s.observe i x op).tracker = s.tracker ∧ (s.observe i x op).log = s.log) ∨
      ∃ x' op', (s.caller i).key = some x' ∧
        (s.observe i x op).tracker = perform s.tracker (x', op') ∧
        (s.observe i x op).log = s.log ++ [(x', op')] := by
    intro i x op hkey
    rcases observe_serial s i x op with hkept | hdone
    · exact .inl hkept
    · exact .inr ⟨x, op, hkey, hdone⟩
  cases e with
  | call i key op =>
    simp only [apply]
    split <;> exact .inl ⟨rfl, rfl⟩
  | miss i =>
    simp only [apply]
    split
    · rename_i x op cur hi
      exact hobserve i x op (by rw [hi]; rfl)
    · exact .inl ⟨rfl, rfl⟩
  | step i =>
    simp only [apply]
    split
    · exact .inl ⟨rfl, rfl⟩
    · rename_i x op hi
      exact hobserve i x op (by rw [hi]; rfl)
    · rename_i x op cur hi
      split
      · rename_i hcur
        split
        · rename_i next hp
          refine .inr ⟨x, op, by simp only [Event.caller, hi, Phase.key], ?_, rfl⟩
          rw [perform_eq, hcur, hp]
          rfl
        · exact .inl ⟨rfl, rfl⟩
      · exact hobserve i x op (by rw [hi]; rfl)

/-! ## The law of the cells -/

/-- What the cells say in a state. -/
structure Truthful (used : Set PoolKey) (s : State ι) : Prop where
  cooled_eq : ∀ x ∈ used, keyCooledUntil s.tracker x = latest (deadlinesSince s.tracker x s.log)
  word_lt : ∀ i, s.tracker.keyCooldowns i < 2 ^ 64

/-- What a step does to the cooldown of other keys, and to the owner of the cell it stamps. -/
structure Lawful (used : Set PoolKey) (s : State ι) (e : Event ι) : Prop where
  others : ∀ x ∈ used, (s.caller e.caller).key ≠ some x →
    keyCooledUntil (apply s e).tracker x = keyCooledUntil s.tracker x ∨
      keyCooledUntil (apply s e).tracker x = 0
  stamped : ∀ x untilMs, (apply s e).log = s.log ++ [(x, .coolKey untilMs)] →
    cooldownFp (word (apply s e).tracker x) = (slot s.tracker x).2 ∧
      min untilMs untilMask ≤ cooldownUntil (word (apply s e).tracker x)

structure Inv (used : Set PoolKey) (s : State ι) : Prop extends Truthful used s where
  slot_inj : Set.InjOn (slot s.tracker) used
  caller_used : ∀ i x, (s.caller i).key = some x → x ∈ used

variable {used : Set PoolKey}

omit [DecidableEq ι] in
/-- Keys of one cell differ in the fingerprint. -/
theorem Inv.own (h : Inv used s) (hx : x ∈ used) (hy : y ∈ used) (hne : y ≠ x)
    (hcell : (slot s.tracker y).1 = (slot s.tracker x).1) :
    (slot s.tracker y).2 ≠ (slot s.tracker x).2 :=
  fun hfp => hne (h.slot_inj hy hx (Prod.ext hcell hfp))

theorem goto_key {i j : ι} {phase : Phase} (h : ((s.goto i phase).caller j).key = some x) :
    (s.caller j).key = some x ∨ phase.key = some x := by
  simp only [State.goto, Function.update_apply] at h
  split at h
  · exact .inr h
  · exact .inl h

theorem observe_key {i j : ι} (hi : (s.caller i).key = some y)
    (h : ((s.observe i y op).caller j).key = some x) :
    (s.caller j).key = some x ∨ (s.caller i).key = some x := by
  unfold State.observe at h
  split at h
  · exact (goto_key h).imp_right nofun
  · exact (goto_key h).imp_right fun hkey => by rw [hi]; exact hkey

/-- A caller's key is the one it had, or the one of the call it enters. -/
theorem apply_key {e : Event ι} {j : ι} (h : ((apply s e).caller j).key = some x) :
    (∃ i, (s.caller i).key = some x) ∨ e.key = some x := by
  have hkept : ∀ {i}, (s.caller j).key = some x ∨ (s.caller i).key = some x →
      (∃ i, (s.caller i).key = some x) ∨ e.key = some x := by
    rintro i (hj | hi)
    · exact .inl ⟨j, hj⟩
    · exact .inl ⟨i, hi⟩
  cases e with
  | call i key op =>
    simp only [apply] at h
    split at h
    · rcases goto_key h with hj | hkey
      · exact .inl ⟨j, hj⟩
      · exact .inr hkey
    · exact .inl ⟨j, h⟩
  | miss i =>
    simp only [apply] at h
    split at h
    · rename_i hi
      exact hkept (observe_key (by rw [hi]; rfl) h)
    · exact .inl ⟨j, h⟩
  | step i =>
    simp only [apply] at h
    split at h
    · exact .inl ⟨j, h⟩
    · rename_i hi
      exact hkept (observe_key (by rw [hi]; rfl) h)
    · rename_i hi
      split at h
      · split at h
        · exact (goto_key h).elim (fun hj => .inl ⟨j, hj⟩) nofun
        · exact .inl ⟨j, h⟩
      · exact hkept (observe_key (by rw [hi]; rfl) h)

theorem word_perform_lt (hlt : ∀ i, h.keyCooldowns i < 2 ^ 64) (i : ℕ) :
    (perform h (x, op)).keyCooldowns i < 2 ^ 64 := by
  rw [perform_eq]
  cases hp : proposal h x (word h x) op with
  | none => exact hlt i
  | some next =>
    have hnext : next < 2 ^ 64 := by
      cases op with
      | coolKey untilMs =>
        simp only [proposal] at hp
        split at hp
        · exact absurd hp nofun
        · rw [← Option.some.inj hp]
          exact pack_lt _ _
      | clearKey =>
        simp only [proposal] at hp
        split at hp
        · exact absurd hp nofun
        · rw [← Option.some.inj hp]
          decide
    change (if i = (slot h x).1 then next else h.keyCooldowns i) < 2 ^ 64
    split
    · exact hnext
    · exact hlt i

/-- **The step lemma**, by the call that takes effect. -/
theorem Inv.apply (h : Inv used s) (e : Event ι) (he : ∀ x, e.key = some x → x ∈ used) :
    Inv used (apply s e) := by
  have hkeys : ∀ i x, ((KeyCells.apply s e).caller i).key = some x → x ∈ used := by
    intro i x hx
    rcases apply_key hx with ⟨j, hj⟩ | hkey
    · exact h.caller_used j x hj
    · exact he x hkey
  rcases apply_serial s e with ⟨htracker, hlog⟩ | ⟨y, op, hkey, htracker, hlog⟩
  · refine ⟨⟨fun x hx => ?_, fun i => ?_⟩, ?_, hkeys⟩
    · rw [htracker, hlog]
      exact h.cooled_eq x hx
    · rw [htracker]
      exact h.word_lt i
    · rw [htracker]
      exact h.slot_inj
  · have hhash : (KeyCells.apply s e).tracker.keyHash = s.tracker.keyHash := by
      rw [htracker, keyHash_perform]
    have hy := h.caller_used _ y hkey
    refine ⟨⟨fun x hx => ?_, fun i => ?_⟩, ?_, hkeys⟩
    · rw [deadlinesSince_congr hhash, hlog, deadlinesSince_snoc, htracker,
        cooled_perform (h.own hx hy), h.cooled_eq x hx]
      split
      · rfl
      · exact (latest_append _ _).symm
    · rw [htracker]
      exact word_perform_lt h.word_lt i
    · have hslot : slot (KeyCells.apply s e).tracker = slot s.tracker :=
        funext fun x => slot_congr hhash
      rw [hslot]
      exact h.slot_inj

theorem Inv.lawful (h : Inv used s) (e : Event ι) : Lawful used s e := by
  constructor
  · intro x hx hother
    rcases apply_serial s e with ⟨htracker, -⟩ | ⟨y, op, hkey, htracker, -⟩
    · exact .inl (by rw [htracker])
    · have hne : y ≠ x := fun heq => hother (heq ▸ hkey)
      rw [htracker, cooled_perform (h.own hx (h.caller_used _ y hkey))]
      split
      · exact .inr rfl
      · have hstamp : stamp x (y, op) = none := by cases op <;> simp [stamp, hne]
        rw [hstamp]
        exact .inl rfl
  · intro x untilMs hlog
    have hmask : min untilMs untilMask ≤ untilMask := Nat.min_le_right ..
    rcases apply_serial s e with ⟨-, hkept⟩ | ⟨y, op, -, htracker, hlog'⟩
    · rw [hkept] at hlog
      have hlen := congrArg List.length hlog
      simp at hlen
    · have hcall : (y, op) = (x, Op.coolKey untilMs) :=
        (List.cons.inj (List.append_cancel_left (hlog'.symm.trans hlog))).1
      obtain ⟨rfl, rfl⟩ := Prod.mk.inj hcall
      rw [htracker, perform_coolKey]
      split
      · rename_i hlong
        exact hlong
      · rw [word_setWord, if_pos rfl, cooldownFp_pack (slot_fp_lt _ _), cooldownUntil_pack hmask]
        exact ⟨rfl, Nat.le_refl _⟩

variable {builtins : List String} {keyHash : String → String → ℕ → ℕ} {events : List (Event ι)}

omit [DecidableEq ι] in
theorem inv_start (hinj : Set.InjOn (slot (.new builtins keyHash)) used) :
    Inv used (start builtins keyHash : State ι) where
  cooled_eq x _ := by
    rw [cooled_eq]
    split <;> rfl
  word_lt _ := by
    have hvacant : 0 < 2 ^ 64 := by decide
    exact hvacant
  slot_inj := hinj
  caller_used _ _ h := nomatch h

/-- **The cooldown cells never lie**: whatever the hash, as long as no two keys in use share cell
and fingerprint, a key's cooldown is the latest deadline stamped for it since its last clear and
since its cell was last taken over, and no call of another key lengthens it. -/
theorem key_cooldowns_exact (hinj : Set.InjOn (slot (.new builtins keyHash)) used)
    (hused : ∀ e ∈ events, ∀ x, e.key = some x → x ∈ used) :
    Run.States KeyCells.apply (Truthful used) (start builtins keyHash) events ∧
      Run.Steps KeyCells.apply (Lawful used) (start builtins keyHash) events := by
  have hcond : Run.Steps KeyCells.apply (fun _ e => ∀ x, e.key = some x → x ∈ used)
      (start builtins keyHash) events :=
    Run.steps_iff.2 fun n hn => hused _ (List.getElem_mem hn)
  have hstart : Inv used (start builtins keyHash : State ι) := inv_start hinj
  constructor
  · have hstates := Run.Steps.states (fun s e h he => h.apply e he) hstart hcond
    exact hstates.mono fun s h => h.toTruthful
  · exact Run.Steps.imp (fun s e h he => h.apply e he) (fun s e h _ => h.lawful e) hstart hcond

/-- Two keys of one cell: the second takes the cell over from the first. -/
theorem key_cooldowns_shared :
    Run.States KeyCells.apply (Truthful {⟨"a", "p", 0⟩, ⟨"b", "p", 0⟩})
      (start [] fun tenant _ _ => if tenant = "a" then 2 ^ 32 else 2 ^ 33)
      [.call (0 : Fin 2) ⟨"a", "p", 0⟩ (.coolKey 5), .step 0, .step 0,
        .call 1 ⟨"b", "p", 0⟩ (.coolKey 3), .step 1, .step 1] ∧
    Run.Steps KeyCells.apply (Lawful {⟨"a", "p", 0⟩, ⟨"b", "p", 0⟩})
      (start [] fun tenant _ _ => if tenant = "a" then 2 ^ 32 else 2 ^ 33)
      [.call (0 : Fin 2) ⟨"a", "p", 0⟩ (.coolKey 5), .step 0, .step 0,
        .call 1 ⟨"b", "p", 0⟩ (.coolKey 3), .step 1, .step 1] := by
  refine key_cooldowns_exact ?_ ?_
  · rintro x (rfl | rfl) y (rfl | rfl) h
    · rfl
    · exact absurd h (by decide)
    · exact absurd h (by decide)
    · rfl
  · intro e he x hx
    simp only [List.mem_cons, List.not_mem_nil, or_false] at he
    rcases he with rfl | rfl | rfl | rfl | rfl | rfl
    · exact .inl (Option.some.inj hx).symm
    · exact absurd hx nofun
    · exact absurd hx nofun
    · exact .inr (Option.some.inj hx).symm
    · exact absurd hx nofun
    · exact absurd hx nofun

end Routeplane.KeyCells
