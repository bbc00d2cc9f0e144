import Mathlib.Algebra.Order.Group.Nat
import Routeplane.Lib.Pattern

/-!
# What a search must find

A search looks from left to right and takes the first match at each place, so it may pass over a match
that starts inside an earlier one. It never comes back with nothing where there is something to find.

* `isMatch_of_mem_run`: where a pattern matches at some place of a text, the search finds a match.
* `Refines`: every match of one pattern is a match of another one; each way to build a pattern keeps
  this.
* `Reads`: a pattern matches some characters wherever they stand.
* `runAll_of_kept`, `forall_runAll`: what passes leave as it was.
* `sizes`: how long the matches are that are written in given characters.
* `hits_kept_of_runAll_eq`: passes that put known characters in the place of unknown ones cannot undo
  each other, so where a text comes back as it was they have replaced nothing.
-/

namespace Pattern

/-! ## A search is complete -/

section Complete

variable {a : Pattern} {pl pl' : Place} {text : List Char}

theorem isMatch_iff : a.isMatch text = true ↔ ∃ h, h ∈ a.findIter text := by
  unfold isMatch
  rw [Bool.not_eq_true', List.isEmpty_eq_false_iff]
  exact ⟨List.exists_mem_of_ne_nil _, fun ⟨_, hh⟩ => List.ne_nil_of_mem hh⟩

theorem eq_of_consumes_nil (h : pl.Consumes [] pl') : pl' = pl := by
  obtain ⟨before, after⟩ := pl
  obtain ⟨before', after'⟩ := pl'
  have hafter := h.after
  have hbefore := h.before
  simp only [List.nil_append, List.reverse_nil] at hafter hbefore
  rw [hafter, hbefore]

/-- A pattern that no match of is empty takes a character. -/
theorem length_lt_of_mem_run (ha : a.alien [] = true) {s t : Found} (h : t ∈ a.run s) :
    t.place.after.length < s.place.after.length := by
  obtain ⟨m, hm, c, hc, -⟩ := exists_alien_of_mem_run a ha h
  have hlen := congrArg List.length hm.after
  have hpos := List.length_pos_of_mem hc
  rw [List.length_append] at hlen
  omega

/-- The search gets to a place where the pattern matches, or finds a match before. By induction on
the text that is left. -/
theorem exists_hit_of_mem_run (ha : a.alien [] = true) {t : Found}
    (ht : t ∈ a.run { place := pl' }) :
    ∀ {n : ℕ} {pl : Place} {m : List Char}, pl.after.length ≤ n → pl.Consumes m pl' →
      ∃ h, Bit.hit h ∈ a.bits n pl
  | 0, pl, m, hn, hm => by
    have hshort := length_lt_of_mem_run ha ht
    have hlen := congrArg List.length hm.after
    rw [List.length_append] at hlen
    have hafter : ({ place := pl' } : Found).place = pl' := rfl
    rw [hafter] at hshort
    omega
  | n + 1, pl, m, hn, hm => by
    have hshort := length_lt_of_mem_run ha ht
    unfold bits
    split
    · rename_i hnil
      have hlen := congrArg List.length hm.after
      rw [hnil, List.length_nil, List.length_append] at hlen
      have hafter : ({ place := pl' } : Found).place = pl' := rfl
      rw [hafter] at hshort
      omega
    · rename_i c cs hcons
      split
      · rename_i s hfirst
        exact ⟨_, List.mem_cons_self⟩
      · rename_i hnone
        cases m with
        | nil =>
          -- the place itself: the first way to match there takes a character too
          have hsame := eq_of_consumes_nil hm
          rw [hsame] at ht
          obtain ⟨u, hu⟩ : ∃ u, a.firstAt pl = some u := by
            unfold firstAt
            cases hrun : a.run { place := pl } with
            | nil =>
              rw [hrun] at ht
              cases ht
            | cons u us => exact ⟨u, rfl⟩
          have hlt := length_lt_of_mem_run ha (List.mem_of_head? hu)
          have hsome : (a.firstAt pl).filter
              (fun s => s.place.after.length < pl.after.length) = some u :=
            Option.filter_eq_some_iff.2 ⟨hu, decide_eq_true hlt⟩
          rw [hsome] at hnone
          cases hnone
        | cons d m =>
          have hafter := hm.after
          rw [hcons, List.cons_append] at hafter
          obtain ⟨rfl, hrest⟩ := List.cons.inj hafter
          have hnext : Place.Consumes ⟨c :: pl.before, cs⟩ m pl' := by
            refine ⟨hrest, ?_⟩
            rw [hm.before, List.reverse_cons, List.append_assoc]
            rfl
          rw [hcons, List.length_cons] at hn
          have hshort : (⟨c :: pl.before, cs⟩ : Place).after.length ≤ n :=
            Nat.le_of_succ_le_succ hn
          obtain ⟨h, hh⟩ := exists_hit_of_mem_run ha ht hshort hnext
          exact ⟨h, List.mem_cons_of_mem _ hh⟩

/-- **A search that could find something finds something.** -/
theorem isMatch_of_mem_run (ha : a.alien [] = true) {t : Found} (ht : t ∈ a.run { place := pl })
    (hwhole : pl.whole = text) : a.isMatch text = true := by
  have hstart : (Place.start text).Consumes pl.before.reverse pl :=
    ⟨hwhole.symm, by rw [List.reverse_reverse]; exact (List.append_nil _).symm⟩
  obtain ⟨h, hh⟩ := exists_hit_of_mem_run ha ht (Nat.le_refl _) hstart
  exact isMatch_iff.2 ⟨h, mem_findIter.2 hh⟩

end Complete

/-! ## A pattern in another one -/

/-- Every match of `a` is a match of `b`. -/
def Refines (a b : Pattern) : Prop := ∀ s t, t ∈ a.run s → t ∈ b.run s

section Refinement

variable {a b c d : Pattern}

theorem Refines.refl (a : Pattern) : Refines a a := fun _ _ h => h

theorem Refines.one {p q : Char → Bool} (h : ∀ c, p c = true → q c = true) :
    Refines (.one p) (.one q) := by
  intro s t ht
  unfold run at ht ⊢
  split at ht
  · cases ht
  · split at ht
    · rename_i hc
      rw [if_pos (h _ hc)]
      exact ht
    · cases ht

theorem Refines.cat (h : Refines a b) (h' : Refines c d) : Refines (.cat a c) (.cat b d) := by
  intro s t ht
  obtain ⟨u, hu, ht⟩ := List.mem_flatMap.1 ht
  exact List.mem_flatMap.2 ⟨u, h s u hu, h' u t ht⟩

theorem Refines.alt (h : Refines a b) (h' : Refines c d) : Refines (.alt a c) (.alt b d) := by
  intro s t ht
  rcases List.mem_append.1 ht with ht | ht
  · exact List.mem_append_left _ (h s t ht)
  · exact List.mem_append_right _ (h' s t ht)

/-- What must be there may be there. -/
theorem Refines.opt (h : Refines a b) : Refines a (.opt b) := by
  intro s t ht
  refine List.mem_flatMap.2 ⟨s, List.mem_singleton_self s, ?_⟩
  exact List.mem_append_left _ (List.mem_flatMap.2 ⟨t, h s t ht, List.mem_singleton_self t⟩)

/-- A pattern finds something wherever one that refines it does. -/
theorem Refines.isMatch {text : List Char} (h : Refines a b) (hb : b.alien [] = true)
    (ha : a.isMatch text = true) : b.isMatch text = true := by
  obtain ⟨m, hm⟩ := isMatch_iff.1 ha
  have hscan := mem_findIter.1 hm
  exact isMatch_of_mem_run hb (h _ _ (isHit_of_mem_scan hscan).mem) (whole_of_mem_scan hscan)

end Refinement

/-! ## Reading a text -/

/-- The pattern matches `m` wherever `m` stands. -/
def Reads (p : Pattern) (m : List Char) : Prop :=
  ∀ before rest group, (⟨⟨m.reverse ++ before, rest⟩, group⟩ : Found) ∈
    p.run ⟨⟨before, m ++ rest⟩, group⟩

section Reading

variable {a b : Pattern} {m m' : List Char} {q : Char → Bool}

theorem Reads.eps : Reads .eps [] := fun _ _ _ => List.mem_singleton_self _

theorem Reads.one {c : Char} (h : q c = true) : Reads (.one q) [c] := by
  intro before rest group
  show _ ∈ (if q c then _ else [])
  rw [if_pos h]
  exact List.mem_singleton_self _

theorem Reads.cat (h : Reads a m) (h' : Reads b m') : Reads (.cat a b) (m ++ m') := by
  intro before rest group
  refine List.mem_flatMap.2 ⟨⟨⟨m.reverse ++ before, m' ++ rest⟩, group⟩, ?_, ?_⟩
  · rw [List.append_assoc]
    exact h before (m' ++ rest) group
  · rw [List.reverse_append, List.append_assoc]
    exact h' (m.reverse ++ before) rest group

/-- What may be there need not be there. -/
theorem Reads.skip {n : Option ℕ} : Reads (.rep a true 0 n) [] := by
  intro before rest group
  refine List.mem_flatMap.2 ⟨_, List.mem_singleton_self _, ?_⟩
  unfold upTo
  split
  · exact List.mem_singleton_self _
  · rw [if_pos rfl]
    exact List.mem_append_right _ (List.mem_singleton_self _)

theorem Reads.exactly (hall : ∀ c ∈ m, q c = true) : Reads (.exactly m.length (.one q)) m := by
  have htimes : ∀ (m : List Char), (∀ c ∈ m, q c = true) → ∀ before rest group,
      (⟨⟨m.reverse ++ before, rest⟩, group⟩ : Found) ∈
        times (Pattern.one q).run m.length ⟨⟨before, m ++ rest⟩, group⟩ := by
    intro m
    induction m with
    | nil => exact fun _ before rest group => List.mem_singleton_self _
    | cons c m ih =>
      intro hall before rest group
      have hfirst := Reads.one (hall c List.mem_cons_self) before (m ++ rest) group
      have hrest := ih (fun d hd => hall d (List.mem_cons_of_mem c hd)) (c :: before) rest group
      have hbefore : (c :: m).reverse ++ before = m.reverse ++ c :: before := by
        rw [List.reverse_cons, List.append_assoc]
        rfl
      rw [hbefore]
      exact List.mem_flatMap.2 ⟨_, hfirst, hrest⟩
  intro before rest group
  refine List.mem_flatMap.2 ⟨_, htimes m hall before rest group, ?_⟩
  have hnone : m.length - m.length = 0 := Nat.sub_self _
  show _ ∈ upTo _ true (m.length - m.length) _
  rw [hnone]
  exact List.mem_singleton_self _

theorem mem_run_seq_append {ps qs : List Pattern} {s t u : Found} (h : t ∈ (seq ps).run s)
    (h' : u ∈ (seq qs).run t) : u ∈ (seq (ps ++ qs)).run s := by
  induction ps generalizing s with
  | nil =>
    rw [List.mem_singleton.1 h] at h'
    exact h'
  | cons p ps ih =>
    obtain ⟨v, hv, ht⟩ := List.mem_flatMap.1 h
    exact List.mem_flatMap.2 ⟨v, hv, ih ht⟩

theorem exists_of_mem_run_seq_append {ps qs : List Pattern} {s u : Found}
    (h : u ∈ (seq (ps ++ qs)).run s) : ∃ t ∈ (seq ps).run s, u ∈ (seq qs).run t := by
  induction ps generalizing s with
  | nil => exact ⟨s, List.mem_singleton_self s, h⟩
  | cons p ps ih =>
    obtain ⟨v, hv, hu⟩ := List.mem_flatMap.1 h
    obtain ⟨t, ht, hu⟩ := ih hu
    exact ⟨t, List.mem_flatMap.2 ⟨v, hv, ht⟩, hu⟩

theorem exists_of_mem_run_one {s t : Found} (h : t ∈ (Pattern.one q).run s) :
    ∃ c cs, s.place.after = c :: cs ∧ q c = true := by
  unfold run at h
  split at h
  · cases h
  · rename_i c cs hafter
    split at h
    · rename_i hc
      exact ⟨c, cs, hafter, hc⟩
    · cases h

theorem mem_run_look {test : Option Char → Option Char → Bool} {s t : Found} :
    t ∈ (look test).run s ↔ t = s ∧ test s.place.before.head? s.place.after.head? = true := by
  unfold run
  split
  · rename_i htest
    exact List.mem_singleton.trans (iff_self_and.2 fun _ => htest)
  · rename_i htest
    exact ⟨fun h => absurd h List.not_mem_nil, fun h => absurd h.2 htest⟩

end Reading

/-! ## What passes leave -/

section Kept

variable {rs : List Rewrite} {text : List Char}

/-- Where every match is put back the text stays. By induction on the passes. -/
theorem runAll_of_kept (h : ∀ r ∈ rs, ∀ m ∈ r.pattern.findIter text, r.put text m = m.text) :
    runAll rs text = text := by
  induction rs with
  | nil => rfl
  | cons r rs ih =>
    have hstep : runAll (r :: rs) text = runAll rs (r.run text) := rfl
    have hrun : r.run text = text := replaceAll_of_forall (h r List.mem_cons_self)
    rw [hstep, hrun]
    exact ih fun q hq => h q (List.mem_cons_of_mem r hq)

/-- What holds of the characters of a text and of what is put holds of what passes make of it. -/
theorem forall_runAll {P : Char → Prop}
    (hput : ∀ r ∈ rs, ∀ text m, (∀ c ∈ m.text, P c) → ∀ c ∈ r.put text m, P c)
    (htext : ∀ c ∈ text, P c) : ∀ c ∈ runAll rs text, P c := by
  induction rs generalizing text with
  | nil => exact htext
  | cons r rs ih =>
    refine ih (fun q hq => hput q (List.mem_cons_of_mem r hq)) fun c hc => ?_
    obtain ⟨b, hb, hc⟩ := List.mem_flatMap.1 hc
    have hbit : ∀ d ∈ b.text, P d := by
      intro d hd
      refine htext d ?_
      rw [← flatMap_text_scan r.pattern text]
      exact List.mem_flatMap.2 ⟨b, hb, hd⟩
    cases b with
    | char d => exact hbit c hc
    | hit m => exact hput r List.mem_cons_self text m hbit c hc

end Kept

/-! ## How long a match is -/

/-- The sums of a number of each list. -/
def sums (xs ys : List ℕ) : List ℕ := xs.flatMap fun x => ys.map fun y => x + y

/-- The sums of `n` of the numbers. -/
def timesSizes (xs : List ℕ) : ℕ → List ℕ
  | 0 => [0]
  | n + 1 => sums xs (timesSizes xs n)

/-- The sums of up to `n` of them. -/
def upToSizes (xs : List ℕ) : ℕ → List ℕ
  | 0 => [0]
  | n + 1 => 0 :: sums xs (upToSizes xs n)

/-- The lengths of the matches that have only characters of `known`, where at most `most` characters
are left. -/
def sizes (known : List Char) (most : ℕ) : Pattern → List ℕ
  | eps => [0]
  | one p => if known.any p then [1] else []
  | look _ => [0]
  | cat a b => sums (a.sizes known most) (b.sizes known most)
  | alt a b => a.sizes known most ++ b.sizes known most
  | rep a _ least n =>
    sums (timesSizes (a.sizes known most) least)
      (upToSizes (a.sizes known most) (n.elim most fun n => n - least))
  | group a => a.sizes known most

section Sizes

variable {known : List Char} {most : ℕ} {f : Found → List Found} {xs : List ℕ}

theorem mem_sums {xs ys : List ℕ} {x y : ℕ} (hx : x ∈ xs) (hy : y ∈ ys) : x + y ∈ sums xs ys :=
  List.mem_flatMap.2 ⟨x, hx, List.mem_map.2 ⟨y, hy, rfl⟩⟩

/-- A step over known characters, as many as one of the numbers. -/
def Sized (known : List Char) (xs : List ℕ) (s t : Found) : Prop :=
  ∃ m, s.place.Consumes m t.place ∧ ((∀ c ∈ m, c ∈ known) → m.length ∈ xs)

theorem Sized.trans {ys : List ℕ} {s t u : Found} (h : Sized known xs s t)
    (h' : Sized known ys t u) : Sized known (sums xs ys) s u := by
  obtain ⟨m, hm, hlen⟩ := h
  obtain ⟨m', hm', hlen'⟩ := h'
  refine ⟨m ++ m', hm.trans hm', fun hall => ?_⟩
  have hboth := List.forall_mem_append.1 hall
  rw [List.length_append]
  exact mem_sums (hlen hboth.1) (hlen' hboth.2)

theorem Sized.refl (hzero : 0 ∈ xs) (s : Found) : Sized known xs s s := ⟨[], .refl _, fun _ => hzero⟩

theorem zero_mem_upToSizes : ∀ n, 0 ∈ upToSizes xs n
  | 0 => List.mem_singleton_self 0
  | _ + 1 => List.mem_cons_self

theorem Sized.left {s t : Found} (h : Sized known xs s t) :
    t.place.after.length ≤ s.place.after.length := by
  obtain ⟨m, hm, -⟩ := h
  have hlen := congrArg List.length hm.after
  rw [List.length_append] at hlen
  omega

theorem sized_times (hf : ∀ s t, s.place.after.length ≤ most → t ∈ f s → Sized known xs s t) :
    ∀ {n : ℕ} {s t : Found}, s.place.after.length ≤ most → t ∈ times f n s →
      Sized known (timesSizes xs n) s t
  | 0, s, t, _, h => by
    rw [List.mem_singleton.1 h]
    exact .refl (List.mem_singleton_self 0) s
  | n + 1, s, t, hs, h => by
    obtain ⟨u, hu, ht⟩ := List.mem_flatMap.1 h
    have hstep := hf s u hs hu
    exact hstep.trans (sized_times hf (hstep.left.trans hs) ht)

theorem sized_upTo {greedy : Bool}
    (hf : ∀ s t, s.place.after.length ≤ most → t ∈ f s → Sized known xs s t) :
    ∀ {n k : ℕ} {s t : Found}, n ≤ k → s.place.after.length ≤ most → t ∈ upTo f greedy n s →
      Sized known (upToSizes xs k) s t
  | 0, k, s, t, _, _, h => by
    rw [List.mem_singleton.1 h]
    exact .refl (zero_mem_upToSizes k) s
  | n + 1, 0, s, t, hk, _, _ => absurd hk (Nat.not_succ_le_zero n)
  | n + 1, k + 1, s, t, hk, hs, h => by
    have hcases : t = s ∨ t ∈ (f s).flatMap (upTo f greedy n) := by
      unfold upTo at h
      split at h
      · rcases List.mem_append.1 h with h | h
        · exact Or.inr h
        · exact Or.inl (List.mem_singleton.1 h)
      · exact List.mem_cons.1 h
    rcases hcases with rfl | h
    · exact .refl (zero_mem_upToSizes _) t
    · obtain ⟨u, hu, ht⟩ := List.mem_flatMap.1 h
      have hstep := hf s u hs hu
      obtain ⟨m, hm, hlen⟩ :=
        hstep.trans (sized_upTo hf (Nat.le_of_succ_le_succ hk) (hstep.left.trans hs) ht)
      exact ⟨m, hm, fun hall => List.mem_cons_of_mem 0 (hlen hall)⟩

/-- **A match in known characters has one of the lengths.** By induction on the pattern. -/
theorem sized_of_mem_run (a : Pattern) : ∀ {s t : Found}, s.place.after.length ≤ most →
    t ∈ a.run s → Sized known (a.sizes known most) s t := by
  induction a with
  | eps =>
    intro s t _ h
    rw [List.mem_singleton.1 h]
    exact .refl (List.mem_singleton_self 0) s
  | one p =>
    intro s t _ h
    unfold run at h
    split at h
    · cases h
    · rename_i c cs hafter
      split at h
      · rename_i hc
        rw [List.mem_singleton.1 h]
        refine ⟨[c], ⟨hafter, rfl⟩, fun hall => ?_⟩
        have hany : known.any p = true :=
          List.any_eq_true.2 ⟨c, hall c (List.mem_singleton_self c), hc⟩
        unfold sizes
        rw [if_pos hany]
        exact List.mem_singleton_self 1
      · cases h
  | look test =>
    intro s t _ h
    unfold run at h
    split at h
    · rw [List.mem_singleton.1 h]
      exact .refl (List.mem_singleton_self 0) s
    · cases h
  | cat a b iha ihb =>
    intro s t hs h
    obtain ⟨u, hu, ht⟩ := List.mem_flatMap.1 h
    have hleft := iha hs hu
    exact hleft.trans (ihb (hleft.left.trans hs) ht)
  | alt a b iha ihb =>
    intro s t hs h
    rcases List.mem_append.1 h with h | h
    · obtain ⟨m, hm, hlen⟩ := iha hs h
      exact ⟨m, hm, fun hall => List.mem_append_left _ (hlen hall)⟩
    · obtain ⟨m, hm, hlen⟩ := ihb hs h
      exact ⟨m, hm, fun hall => List.mem_append_right _ (hlen hall)⟩
  | rep a greedy least n ih =>
    intro s t hs h
    obtain ⟨u, hu, ht⟩ := List.mem_flatMap.1 h
    have hleast := sized_times (fun s t hs h => ih hs h) hs hu
    have hrounds : n.elim u.place.after.length (fun n => n - least) ≤
        n.elim most fun n => n - least := by
      cases n with
      | none => exact hleast.left.trans hs
      | some n => exact Nat.le_refl _
    exact hleast.trans (sized_upTo (fun s t hs h => ih hs h) hrounds (hleast.left.trans hs) ht)
  | group a ih =>
    intro s t hs h
    obtain ⟨u, hu, rfl⟩ := List.mem_map.1 h
    obtain ⟨m, hm, hlen⟩ := ih hs hu
    exact ⟨m, hm, hlen⟩

theorem length_mem_sizes {a : Pattern} {h : Hit} (hh : IsHit a h) (hknown : ∀ c ∈ h.text, c ∈ known)
    (hmost : h.start.after.length ≤ most) : h.text.length ∈ a.sizes known most := by
  have hsized : Sized known (a.sizes known most) _ _ := sized_of_mem_run a hmost hh.mem
  obtain ⟨m, hm, hlen⟩ := hsized
  have htext : h.text = m := hm.upTo_eq
  rw [htext] at hknown ⊢
  exact hlen hknown

end Sizes

/-! ## Passes that shed unknown characters -/

/-- How many characters of a text are not known. -/
def foreign (known text : List Char) : ℕ := text.countP fun c => !known.contains c

/-- A pass that keeps a match or puts known characters in its place, where a match has one that is
not. -/
structure Rewrite.Sheds (known : List Char) (r : Rewrite) : Prop where
  alien : r.pattern.alien known = true
  put : ∀ text m, r.put text m = m.text ∨ ∀ c ∈ r.put text m, c ∈ known

section Shedding

variable {known text : List Char} {r : Rewrite} {rs : List Rewrite}

theorem foreign_append (u v : List Char) : foreign known (u ++ v) = foreign known u + foreign known v :=
  List.countP_append

theorem foreign_pos {c : Char} (hc : c ∈ text) (hnew : c ∉ known) : 0 < foreign known text := by
  refine List.countP_pos_iff.2 ⟨c, hc, ?_⟩
  rw [Bool.not_eq_true']
  exact Bool.eq_false_iff.2 fun h => hnew (List.contains_iff_mem.1 h)

theorem foreign_eq_zero (h : ∀ c ∈ text, c ∈ known) : foreign known text = 0 := by
  refine List.countP_eq_zero.2 fun c hc => ?_
  rw [Bool.not_eq_true', List.contains_iff_mem.2 (h c hc)]
  exact Bool.noConfusion

/-- Replacements do not add a foreign character, and take one away where something is replaced. -/
theorem foreign_put {a : Pattern} {f : Hit → List Char} (ha : a.alien known = true) :
    ∀ {bs : List Bit}, (∀ m, Bit.hit m ∈ bs → IsHit a m) →
      (∀ m, f m = m.text ∨ ∀ c ∈ f m, c ∈ known) →
      foreign known (bs.flatMap (Bit.put f)) ≤ foreign known (bs.flatMap Bit.text) ∧
        (foreign known (bs.flatMap (Bit.put f)) = foreign known (bs.flatMap Bit.text) →
          ∀ m, Bit.hit m ∈ bs → f m = m.text)
  | [], _, _ => ⟨Nat.le_refl _, fun _ m hm => absurd hm List.not_mem_nil⟩
  | b :: bs, hhits, hf => by
    obtain ⟨hle, hkept⟩ := foreign_put ha (fun m hm => hhits m (List.mem_cons_of_mem b hm)) hf
    rw [List.flatMap_cons, List.flatMap_cons, foreign_append, foreign_append]
    cases b with
    | char c =>
      have hsame : foreign known (Bit.put f (.char c)) = foreign known (Bit.text (.char c)) := rfl
      rw [hsame]
      refine ⟨by omega, fun heq m hm => ?_⟩
      rcases List.mem_cons.1 hm with hm | hm
      · cases hm
      · exact hkept (by omega) m hm
    | hit h =>
      have hhit := hhits h List.mem_cons_self
      have hput : Bit.put f (.hit h) = f h := rfl
      have htext : Bit.text (.hit h) = h.text := rfl
      rw [hput, htext]
      rcases hf h with hsame | hknown
      · rw [hsame]
        refine ⟨by omega, fun heq m hm => ?_⟩
        rcases List.mem_cons.1 hm with hm | hm
        · cases hm
          exact hsame
        · exact hkept (by omega) m hm
      · obtain ⟨c, hc, hnew⟩ := exists_alien_of_isHit hhit ha
        have hnone := foreign_eq_zero hknown
        have hsome := foreign_pos hc hnew
        exact ⟨by omega, fun heq => by omega⟩

theorem Rewrite.Sheds.foreign_run (h : r.Sheds known) (text : List Char) :
    foreign known (r.run text) ≤ foreign known text ∧
      (foreign known (r.run text) = foreign known text →
        ∀ m ∈ r.pattern.findIter text, r.put text m = m.text) := by
  have hhits : ∀ m, .hit m ∈ r.pattern.scan text → IsHit r.pattern m :=
    fun m hm => isHit_of_mem_scan hm
  have hput := foreign_put h.alien hhits (h.put text)
  rw [flatMap_text_scan] at hput
  exact ⟨hput.1, fun heq m hm => hput.2 heq m (mem_findIter.1 hm)⟩

theorem foreign_runAll (h : ∀ r ∈ rs, r.Sheds known) (text : List Char) :
    foreign known (runAll rs text) ≤ foreign known text := by
  induction rs generalizing text with
  | nil => exact Nat.le_refl _
  | cons r rs ih =>
    have hstep : runAll (r :: rs) text = runAll rs (r.run text) := rfl
    rw [hstep]
    exact (ih (fun q hq => h q (List.mem_cons_of_mem r hq)) _).trans
      ((h r List.mem_cons_self).foreign_run text).1

/-- **Where a text comes back as it was nothing was replaced.** By induction on the passes: what one
sheds none brings back. -/
theorem hits_kept_of_runAll_eq (h : ∀ r ∈ rs, r.Sheds known) (heq : runAll rs text = text) :
    ∀ r ∈ rs, ∀ m ∈ r.pattern.findIter text, r.put text m = m.text := by
  induction rs with
  | nil => exact fun r hr => absurd hr List.not_mem_nil
  | cons r rs ih =>
    have hstep : runAll (r :: rs) text = runAll rs (r.run text) := rfl
    have hrest : ∀ q ∈ rs, q.Sheds known := fun q hq => h q (List.mem_cons_of_mem r hq)
    obtain ⟨hle, hkept⟩ := (h r List.mem_cons_self).foreign_run text
    have hlater := foreign_runAll hrest (r.run text)
    rw [← hstep, heq] at hlater
    have hsame := hkept (by omega)
    have hrun : r.run text = text := replaceAll_of_forall hsame
    rw [hstep, hrun] at heq
    intro q hq
    rcases List.mem_cons.1 hq with rfl | hq
    · exact hsame
    · exact ih hrest heq q hq

end Shedding

end Pattern
