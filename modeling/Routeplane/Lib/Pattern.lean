import Mathlib.Data.List.Basic
import Mathlib.Data.Nat.Notation
import Mathlib.Tactic.Common

/-!
# Patterns with leftmost-first matching

Regular expressions as a backtracking matcher reads them: the ways to match at a place are tried in
an order, the left alternative before the right one and, for a greedy repetition, more before less;
the first way is the match. Matches are searched from left to right and do not overlap.

A pass puts something in the place of each match of a pattern, and so cuts a text into the characters
it keeps and the stretches it replaces. Passes follow one another, each over what the one before it
left.

* `Pattern.run`: the ways to match at a place, in order.
* `consumes_of_mem_run`: a match is a piece of the text, of characters the pattern allows.
* `exists_alien_of_mem_run`: and one of them is not among some given characters.
* `Pattern.scan`: the text, cut into what is matched and what is not.
* `flatMap_text_scan`: nothing of the text is lost.
* `Rewrite.pieces`, `Rewrite.run_eq`: the pieces, and the pass by them.
* `Apart`: a text in two parts has the pieces of its parts, for each pass.
* `runAll_append`: such a text can be rewritten part by part.
* `runAll_of_quiet`: a text that no pattern matches stays.
* `runLive_eq`, `apart_of_live`: passes that lack a character of every match can be left out.
-/

/-- A place in a text: what is before it, nearest first, and what is after it. -/
structure Place where
  before : List Char
  after : List Char
  deriving DecidableEq, Repr

namespace Place

def start (text : List Char) : Place := ⟨[], text⟩

/-- What is between two places of one text. -/
def upTo (pl stop : Place) : List Char := pl.after.take (pl.after.length - stop.after.length)

/-- The place after the characters `m`. -/
structure Consumes (pl : Place) (m : List Char) (stop : Place) : Prop where
  after : pl.after = m ++ stop.after
  before : stop.before = m.reverse ++ pl.before

theorem Consumes.refl (pl : Place) : pl.Consumes [] pl := ⟨rfl, rfl⟩

theorem Consumes.trans {a b c : Place} {m m' : List Char} (h : a.Consumes m b)
    (h' : b.Consumes m' c) : a.Consumes (m ++ m') c := by
  constructor
  · rw [h.after, h'.after, List.append_assoc]
  · rw [h'.before, h.before, List.reverse_append, List.append_assoc]

/-- The whole text, from its start. -/
def whole (pl : Place) : List Char := pl.before.reverse ++ pl.after

theorem Consumes.whole_eq {a b : Place} {m : List Char} (h : a.Consumes m b) : b.whole = a.whole := by
  unfold whole
  rw [h.before, h.after, List.reverse_append, List.reverse_reverse, List.append_assoc]

theorem Consumes.upTo_eq {a b : Place} {m : List Char} (h : a.Consumes m b) : a.upTo b = m := by
  unfold upTo
  rw [h.after, List.length_append, Nat.add_sub_cancel, List.take_left']
  rfl

end Place

inductive Pattern
  | eps
  | one (p : Char → Bool)
  /-- A test of the characters before and after the place. -/
  | look (test : Option Char → Option Char → Bool)
  | cat (a b : Pattern)
  | alt (a b : Pattern)
  | rep (a : Pattern) (greedy : Bool) (least : ℕ) (most : Option ℕ)
  /-- The part of the match that is captured. -/
  | group (a : Pattern)

/-- Where a match ends, and what it captured. -/
structure Found where
  place : Place
  group : Option (Place × Place) := none

namespace Pattern

/-- `n` times in a row. -/
def times (f : Found → List Found) : ℕ → Found → List Found
  | 0, s => [s]
  | n + 1, s => (f s).flatMap (times f n)

/-- Up to `n` times in a row, more or less of them first. -/
def upTo (f : Found → List Found) (greedy : Bool) : ℕ → Found → List Found
  | 0, s => [s]
  | n + 1, s =>
    if greedy then (f s).flatMap (upTo f greedy n) ++ [s]
    else s :: (f s).flatMap (upTo f greedy n)

/-- The ways to match, in order. Each round of an unbounded repetition takes a character. -/
def run : Pattern → Found → List Found
  | eps, s => [s]
  | one p, s =>
    match s.place.after with
    | [] => []
    | c :: cs => if p c then [{ s with place := ⟨c :: s.place.before, cs⟩ }] else []
  | look test, s => if test s.place.before.head? s.place.after.head? then [s] else []
  | cat a b, s => (a.run s).flatMap b.run
  | alt a b, s => a.run s ++ b.run s
  | rep a greedy least most, s =>
    (times a.run least s).flatMap fun t =>
      upTo a.run greedy (most.elim t.place.after.length fun n => n - least) t
  | group a, s => (a.run s).map fun t => { t with group := some (s.place, t.place) }

/-- The characters a match may have. -/
def allows : Pattern → Char → Bool
  | eps, _ => false
  | one p, c => p c
  | look _, _ => false
  | cat a b, c => a.allows c || b.allows c
  | alt a b, c => a.allows c || b.allows c
  | rep a _ _ _, c => a.allows c
  | group a, c => a.allows c

/-- Every match has a character that is not among `known`. -/
def alien (known : List Char) : Pattern → Bool
  | eps => false
  | one p => known.all fun c => !p c
  | look _ => false
  | cat a b => a.alien known || b.alien known
  | alt a b => a.alien known && b.alien known
  | rep a _ least _ => decide (0 < least) && a.alien known
  | group a => a.alien known

/-! ## What a match is -/

section Facts

attribute [local simp] run

variable {s t : Found} {f : Found → List Found} {n : ℕ} {a : Pattern}

/-- A step that takes allowed characters. -/
def Takes (allowed : Char → Bool) (s t : Found) : Prop :=
  ∃ m, s.place.Consumes m t.place ∧ ∀ c ∈ m, allowed c = true

theorem Takes.refl (allowed : Char → Bool) (s : Found) : Takes allowed s s :=
  ⟨[], .refl _, fun _ hc => absurd hc List.not_mem_nil⟩

theorem Takes.trans {allowed : Char → Bool} {u : Found} (h : Takes allowed s t)
    (h' : Takes allowed t u) : Takes allowed s u := by
  obtain ⟨m, hm, hall⟩ := h
  obtain ⟨m', hm', hall'⟩ := h'
  exact ⟨m ++ m', hm.trans hm', List.forall_mem_append.2 ⟨hall, hall'⟩⟩

theorem Takes.mono {allowed allowed' : Char → Bool} (h : Takes allowed s t)
    (hle : ∀ c, allowed c = true → allowed' c = true) : Takes allowed' s t := by
  obtain ⟨m, hm, hall⟩ := h
  exact ⟨m, hm, fun c hc => hle c (hall c hc)⟩

theorem takes_times {allowed : Char → Bool} (hf : ∀ s t, t ∈ f s → Takes allowed s t) :
    ∀ {n : ℕ} {s t : Found}, t ∈ times f n s → Takes allowed s t
  | 0, s, t, h => by
    rw [List.mem_singleton.1 h]
    exact .refl allowed s
  | n + 1, s, t, h => by
    obtain ⟨u, hu, ht⟩ := List.mem_flatMap.1 h
    exact (hf s u hu).trans (takes_times hf ht)

theorem takes_upTo {allowed : Char → Bool} {greedy : Bool}
    (hf : ∀ s t, t ∈ f s → Takes allowed s t) :
    ∀ {n : ℕ} {s t : Found}, t ∈ upTo f greedy n s → Takes allowed s t
  | 0, s, t, h => by
    rw [List.mem_singleton.1 h]
    exact .refl allowed s
  | n + 1, s, t, h => by
    have hcases : t = s ∨ t ∈ (f s).flatMap (upTo f greedy n) := by
      unfold upTo at h
      split at h
      · rcases List.mem_append.1 h with h | h
        · exact Or.inr h
        · exact Or.inl (List.mem_singleton.1 h)
      · exact List.mem_cons.1 h
    rcases hcases with rfl | h
    · exact .refl allowed t
    · obtain ⟨u, hu, ht⟩ := List.mem_flatMap.1 h
      exact (hf s u hu).trans (takes_upTo hf ht)

/-- **A match is a piece of the text of allowed characters.** By induction on the pattern. -/
theorem takes_of_mem_run (a : Pattern) : ∀ {s t : Found}, t ∈ a.run s → Takes a.allows s t := by
  induction a with
  | eps =>
    intro s t h
    rw [List.mem_singleton.1 h]
    exact .refl _ s
  | one p =>
    intro s t h
    unfold run at h
    split at h
    · cases h
    · rename_i c cs hafter
      split at h
      · rename_i hc
        rw [List.mem_singleton.1 h]
        refine ⟨[c], ⟨hafter, rfl⟩, fun d hd => ?_⟩
        rw [List.mem_singleton.1 hd]
        exact hc
      · cases h
  | look test =>
    intro s t h
    unfold run at h
    split at h
    · rw [List.mem_singleton.1 h]
      exact .refl _ s
    · cases h
  | cat a b iha ihb =>
    intro s t h
    obtain ⟨u, hu, ht⟩ := List.mem_flatMap.1 h
    have hleft : ∀ c, a.allows c = true → (cat a b).allows c = true :=
      fun c hc => Bool.or_eq_true _ _ ▸ Or.inl hc
    have hright : ∀ c, b.allows c = true → (cat a b).allows c = true :=
      fun c hc => Bool.or_eq_true _ _ ▸ Or.inr hc
    exact ((iha hu).mono hleft).trans ((ihb ht).mono hright)
  | alt a b iha ihb =>
    intro s t h
    rcases List.mem_append.1 h with h | h
    · exact (iha h).mono fun c hc => Bool.or_eq_true _ _ ▸ Or.inl hc
    · exact (ihb h).mono fun c hc => Bool.or_eq_true _ _ ▸ Or.inr hc
  | rep a greedy least most ih =>
    intro s t h
    obtain ⟨u, hu, ht⟩ := List.mem_flatMap.1 h
    exact (takes_times (fun s t h => ih h) hu).trans (takes_upTo (fun s t h => ih h) ht)
  | group a ih =>
    intro s t h
    obtain ⟨u, hu, rfl⟩ := List.mem_map.1 h
    obtain ⟨m, hm, hall⟩ := ih hu
    exact ⟨m, hm, hall⟩

/-- A character captures nothing. -/
theorem group_of_mem_one {p : Char → Bool} (h : t ∈ (one p).run s) : t.group = s.group := by
  unfold run at h
  split at h
  · cases h
  · split at h
    · rw [List.mem_singleton.1 h]
    · cases h

theorem consumes_of_mem_run (h : t ∈ a.run s) :
    ∃ m, s.place.Consumes m t.place ∧ ∀ c ∈ m, a.allows c = true := takes_of_mem_run a h

/-- A step that takes a character that is not known. -/
def TakesAlien (known : List Char) (s t : Found) : Prop :=
  ∃ m, s.place.Consumes m t.place ∧ ∃ c ∈ m, c ∉ known

theorem TakesAlien.trans_takes {known : List Char} {allowed : Char → Bool} {u : Found}
    (h : TakesAlien known s t) (h' : Takes allowed t u) : TakesAlien known s u := by
  obtain ⟨m, hm, c, hc, hnew⟩ := h
  obtain ⟨m', hm', -⟩ := h'
  exact ⟨m ++ m', hm.trans hm', c, List.mem_append_left _ hc, hnew⟩

theorem Takes.trans_alien {known : List Char} {allowed : Char → Bool} {u : Found}
    (h : Takes allowed s t) (h' : TakesAlien known t u) : TakesAlien known s u := by
  obtain ⟨m, hm, -⟩ := h
  obtain ⟨m', hm', c, hc, hnew⟩ := h'
  exact ⟨m ++ m', hm.trans hm', c, List.mem_append_right _ hc, hnew⟩

/-- **A match has a character that is not known.** By induction on the pattern. -/
theorem exists_alien_of_mem_run {known : List Char} (a : Pattern) (ha : a.alien known = true) :
    ∀ {s t : Found}, t ∈ a.run s → TakesAlien known s t := by
  induction a with
  | eps => cases ha
  | one p =>
    intro s t h
    unfold run at h
    split at h
    · cases h
    · rename_i c cs hafter
      split at h
      · rename_i hc
        rw [List.mem_singleton.1 h]
        refine ⟨[c], ⟨hafter, rfl⟩, c, List.mem_singleton_self c, fun hknown => ?_⟩
        have hnot := List.all_eq_true.1 ha c hknown
        rw [hc] at hnot
        cases hnot
      · cases h
  | look test => cases ha
  | cat a b iha ihb =>
    intro s t h
    obtain ⟨u, hu, ht⟩ := List.mem_flatMap.1 h
    rcases (Bool.or_eq_true _ _).mp ha with ha | hb
    · exact (iha ha hu).trans_takes (takes_of_mem_run b ht)
    · exact (takes_of_mem_run a hu).trans_alien (ihb hb ht)
  | alt a b iha ihb =>
    intro s t h
    obtain ⟨ha, hb⟩ := (Bool.and_eq_true _ _).mp ha
    rcases List.mem_append.1 h with h | h
    · exact iha ha h
    · exact ihb hb h
  | rep a greedy least most ih =>
    intro s t h
    obtain ⟨hpos, ha⟩ := (Bool.and_eq_true _ _).mp ha
    obtain ⟨u, hu, ht⟩ := List.mem_flatMap.1 h
    obtain ⟨n, rfl⟩ := Nat.exists_eq_succ_of_ne_zero (Nat.pos_iff_ne_zero.1 (of_decide_eq_true hpos))
    obtain ⟨v, hv, hu⟩ := List.mem_flatMap.1 hu
    have hrest := (takes_times (fun s t h => takes_of_mem_run a h) hu).trans
      (takes_upTo (fun s t h => takes_of_mem_run a h) ht)
    exact (ih ha hv).trans_takes hrest
  | group a ih =>
    intro s t h
    obtain ⟨u, hu, rfl⟩ := List.mem_map.1 h
    obtain ⟨m, hm, halien⟩ := ih ha hu
    exact ⟨m, hm, halien⟩

end Facts

/-! ## Searching -/

/-- A match: where it starts, where it ends and what it captured. -/
structure Hit where
  start : Place
  stop : Found

namespace Hit

def text (h : Hit) : List Char := h.start.upTo h.stop.place

/-- What was captured. -/
def captured (h : Hit) : Option (List Char) := h.stop.group.map fun g => g.1.upTo g.2

/-- The part of the match before what was captured. -/
def beforeCapture (h : Hit) : List Char := h.stop.group.elim h.text fun g => h.start.upTo g.1

/-- The part of the match after it. -/
def afterCapture (h : Hit) : List Char := h.stop.group.elim [] fun g => g.2.upTo h.stop.place

end Hit

/-- A character that is not matched, or a match. -/
inductive Bit
  | char (c : Char)
  | hit (h : Hit)

def Bit.text : Bit → List Char
  | .char c => [c]
  | .hit h => h.text

/-- What `f` makes of a piece: it changes the matches only. -/
def Bit.put (f : Hit → List Char) : Bit → List Char
  | .char c => [c]
  | .hit h => f h

/-- The match at a place, if there is one. -/
def firstAt (a : Pattern) (pl : Place) : Option Found := (a.run { place := pl }).head?

/-- The text after a place, cut up in at most `n` steps; a match takes a character at least. -/
def bits (a : Pattern) : ℕ → Place → List Bit
  | 0, _ => []
  | n + 1, pl =>
    match pl.after with
    | [] => []
    | c :: cs =>
      match (a.firstAt pl).filter fun s => s.place.after.length < pl.after.length with
      | some s => .hit ⟨pl, s⟩ :: bits a n s.place
      | none => .char c :: bits a n ⟨c :: pl.before, cs⟩

/-- A text, cut up into its matches and the characters between them. -/
def scan (a : Pattern) (text : List Char) : List Bit := a.bits text.length (.start text)

def findIter (a : Pattern) (text : List Char) : List Hit :=
  (a.scan text).filterMap fun b => match b with | .char _ => none | .hit h => some h

def isMatch (a : Pattern) (text : List Char) : Bool := !(a.findIter text).isEmpty

/-- Each match replaced by what `f` makes of it. -/
def replaceAll (a : Pattern) (f : Hit → List Char) (text : List Char) : List Char :=
  (a.scan text).flatMap (Bit.put f)

/-- Each match replaced by what `f` makes of it, from left to right with a state. -/
def replaceAllM {σ : Type} (a : Pattern) (f : Hit → StateM σ (List Char)) (text : List Char) :
    StateM σ (List Char) :=
  (a.scan text).foldlM (fun out b => match b with
    | .char c => return out ++ [c]
    | .hit h => return out ++ (← f h)) []

section Search

variable {a : Pattern} {text : List Char}

/-- A match found at a place. -/
structure IsHit (a : Pattern) (h : Hit) : Prop where
  mem : h.stop ∈ a.run { place := h.start }
  ne_nil : h.text ≠ []

theorem consumes_of_isHit {h : Hit} (hh : IsHit a h) : h.start.Consumes h.text h.stop.place := by
  obtain ⟨m, hm, -⟩ := consumes_of_mem_run hh.mem
  have htext : h.text = m := hm.upTo_eq
  rw [htext]
  exact hm

theorem allows_of_isHit {h : Hit} (hh : IsHit a h) : ∀ c ∈ h.text, a.allows c = true := by
  obtain ⟨m, hm, hall⟩ := consumes_of_mem_run hh.mem
  have htext : h.text = m := hm.upTo_eq
  rw [htext]
  exact hall

theorem exists_alien_of_isHit {known : List Char} {h : Hit} (hh : IsHit a h)
    (ha : a.alien known = true) : ∃ c ∈ h.text, c ∉ known := by
  obtain ⟨m, hm, halien⟩ := exists_alien_of_mem_run a ha hh.mem
  have htext : h.text = m := hm.upTo_eq
  rw [htext]
  exact halien

/-- The match a search takes at a place. -/
theorem isHit_of_firstAt {pl : Place} {s : Found}
    (h : ((a.firstAt pl).filter fun s => s.place.after.length < pl.after.length) = some s) :
    IsHit a ⟨pl, s⟩ := by
  obtain ⟨hfirst, hlt⟩ := Option.filter_eq_some_iff.1 h
  have hmem : s ∈ a.run { place := pl } := List.mem_of_head? hfirst
  refine ⟨hmem, fun hnil => ?_⟩
  obtain ⟨m, hm, -⟩ := consumes_of_mem_run hmem
  have htext : m = [] := hm.upTo_eq.symm.trans hnil
  have hlen := congrArg List.length hm.after
  rw [htext, List.nil_append] at hlen
  have hlt' := of_decide_eq_true hlt
  simp only at hlen
  omega

theorem isHit_of_mem_bits : ∀ {n : ℕ} {pl : Place} {h : Hit}, .hit h ∈ a.bits n pl → IsHit a h
  | 0, pl, h, hmem => absurd hmem List.not_mem_nil
  | n + 1, pl, h, hmem => by
    unfold bits at hmem
    split at hmem
    · cases hmem
    · split at hmem
      · rename_i s hfirst
        rcases List.mem_cons.1 hmem with heq | hmem
        · cases heq
          exact isHit_of_firstAt hfirst
        · exact isHit_of_mem_bits hmem
      · rcases List.mem_cons.1 hmem with heq | hmem
        · cases heq
        · exact isHit_of_mem_bits hmem

/-- A match is found in the text that is searched. -/
theorem whole_of_mem_bits : ∀ {n : ℕ} {pl : Place} {h : Hit}, .hit h ∈ a.bits n pl →
    h.start.whole = pl.whole
  | 0, pl, h, hmem => absurd hmem List.not_mem_nil
  | n + 1, pl, h, hmem => by
    unfold bits at hmem
    split at hmem
    · cases hmem
    · rename_i c cs hafter
      split at hmem
      · rename_i s hfirst
        rcases List.mem_cons.1 hmem with heq | hmem
        · cases heq
          rfl
        · rw [whole_of_mem_bits hmem]
          exact (consumes_of_isHit (isHit_of_firstAt hfirst)).whole_eq
      · rcases List.mem_cons.1 hmem with heq | hmem
        · cases heq
        · have hstep : pl.Consumes [c] ⟨c :: pl.before, cs⟩ := ⟨hafter, rfl⟩
          rw [whole_of_mem_bits hmem]
          exact hstep.whole_eq

theorem whole_of_mem_scan {h : Hit} (hmem : .hit h ∈ a.scan text) : h.start.whole = text :=
  whole_of_mem_bits hmem

theorem isHit_of_mem_scan {h : Hit} (hmem : .hit h ∈ a.scan text) : IsHit a h :=
  isHit_of_mem_bits hmem

theorem flatMap_text_bits : ∀ {n : ℕ} {pl : Place}, pl.after.length ≤ n →
    (a.bits n pl).flatMap Bit.text = pl.after
  | 0, pl, h => (List.length_eq_zero_iff.1 (Nat.le_zero.1 h)).symm
  | n + 1, pl, h => by
    unfold bits
    split
    · rename_i hafter
      exact hafter.symm
    · rename_i c cs hafter
      split
      · rename_i s hfirst
        have hhit := isHit_of_firstAt hfirst
        have hconsumes := consumes_of_isHit hhit
        have hlt := (Option.filter_eq_some_iff.1 hfirst).2
        have hlt' := of_decide_eq_true hlt
        have hle : s.place.after.length ≤ n := by omega
        rw [List.flatMap_cons, flatMap_text_bits hle]
        exact hconsumes.after.symm
      · rw [hafter, List.length_cons] at h
        rw [List.flatMap_cons, flatMap_text_bits (Nat.le_of_succ_le_succ h), hafter]
        rfl

/-- **Nothing of the text is lost.** -/
theorem flatMap_text_scan (a : Pattern) (text : List Char) :
    (a.scan text).flatMap Bit.text = text := flatMap_text_bits (Nat.le_refl _)

theorem mem_findIter {h : Hit} : h ∈ a.findIter text ↔ .hit h ∈ a.scan text := by
  unfold findIter
  rw [List.mem_filterMap]
  constructor
  · rintro ⟨b, hb, heq⟩
    cases b with
    | char c => cases heq
    | hit h' =>
      cases heq
      exact hb
  · intro hh
    exact ⟨.hit h, hh, rfl⟩

theorem flatMap_congr_text {f : Bit → List Char} {bs : List Bit} (hf : ∀ b ∈ bs, f b = b.text) :
    bs.flatMap f = bs.flatMap Bit.text := by
  induction bs with
  | nil => rfl
  | cons b bs ih =>
    rw [List.flatMap_cons, List.flatMap_cons, hf b List.mem_cons_self,
      ih fun b hb => hf b (List.mem_cons_of_mem _ hb)]

/-- **Where every match is replaced by itself the text stays.** -/
theorem replaceAll_of_forall {f : Hit → List Char} (hf : ∀ h ∈ a.findIter text, f h = h.text) :
    a.replaceAll f text = text := by
  have heach : ∀ b ∈ a.scan text, b.put f = b.text := by
    intro b hb
    cases b with
    | char c => rfl
    | hit h => exact hf h (mem_findIter.2 hb)
  exact (flatMap_congr_text heach).trans (flatMap_text_scan a text)

/-- Replacements of the same lengths make the same text only where they are the same. -/
theorem replaceAll_eq_iff {f g : Hit → List Char}
    (hlen : ∀ h ∈ a.findIter text, (f h).length = (g h).length) :
    a.replaceAll f text = a.replaceAll g text ↔ ∀ h ∈ a.findIter text, f h = g h := by
  have hall : ∀ bs : List Bit, (∀ h, .hit h ∈ bs → (f h).length = (g h).length) →
      (bs.flatMap (Bit.put f) = bs.flatMap (Bit.put g) ↔ ∀ h, .hit h ∈ bs → f h = g h) := by
    intro bs
    induction bs with
    | nil => exact fun _ => iff_of_true rfl fun h hh => absurd hh List.not_mem_nil
    | cons b bs ih =>
      intro hlen
      have hrest := ih fun h hh => hlen h (List.mem_cons_of_mem _ hh)
      rw [List.flatMap_cons, List.flatMap_cons]
      cases b with
      | char c =>
        simp only [Bit.put, List.cons_append, List.nil_append, List.cons.injEq, true_and, hrest,
          List.mem_cons, reduceCtorEq, false_or]
      | hit h =>
        constructor
        · intro heq
          obtain ⟨hhead, htail⟩ := List.append_inj heq (hlen h List.mem_cons_self)
          intro h' hh'
          rcases List.mem_cons.1 hh' with hsame | hh'
          · cases hsame
            exact hhead
          · exact hrest.1 htail h' hh'
        · intro heq
          show f h ++ _ = g h ++ _
          rw [heq h List.mem_cons_self, hrest.2 fun h' hh' => heq h' (List.mem_cons_of_mem _ hh')]
  have hmem : ∀ h, .hit h ∈ a.scan text ↔ h ∈ a.findIter text := fun h => mem_findIter.symm
  unfold replaceAll
  rw [hall _ fun h hh => hlen h ((hmem h).1 hh)]
  simp only [hmem]

end Search

/-! ## Building patterns -/

/-- A character of one of the ranges, or one of the characters `cs`. -/
def within (ranges : List (Char × Char)) (cs : String) (c : Char) : Bool :=
  (ranges.any fun r => decide (r.1 ≤ c) && decide (c ≤ r.2)) || cs.toList.contains c

def oneOf (cs : String) : Pattern := .one (within [] cs)

def lit (s : String) : Pattern := s.toList.foldr (fun c p => .cat (.one fun d => d == c) p) .eps

def seq (ps : List Pattern) : Pattern := ps.foldr .cat .eps

/-- The first of several patterns that matches; one at least is given. -/
def alts : List Pattern → Pattern
  | [] => .look fun _ _ => false
  | [p] => p
  | p :: q :: ps => .alt p (alts (q :: ps))

def opt (p : Pattern) : Pattern := .rep p true 0 (some 1)

def star (p : Pattern) : Pattern := .rep p true 0 none

def lazyStar (p : Pattern) : Pattern := .rep p false 0 none

def atLeast (n : ℕ) (p : Pattern) : Pattern := .rep p true n none

def exactly (n : ℕ) (p : Pattern) : Pattern := .rep p true n (some n)

def range (least most : ℕ) (p : Pattern) : Pattern := .rep p true least (some most)

/-- The pattern with its tests of a character changed. -/
def mapTests (f : (Char → Bool) → Char → Bool) : Pattern → Pattern
  | eps => eps
  | one p => one (f p)
  | look test => look test
  | cat a b => cat (a.mapTests f) (b.mapTests f)
  | alt a b => alt (a.mapTests f) (b.mapTests f)
  | rep a greedy least most => rep (a.mapTests f) greedy least most
  | group a => group (a.mapTests f)

/-! ## Passes of replacements -/

/-- A pattern, and what is put in the place of a match in the text that is read. -/
structure Rewrite where
  pattern : Pattern
  put : List Char → Hit → List Char

/-- A character that is kept, or a stretch that is replaced. -/
inductive Piece
  | kept (c : Char)
  | replaced (old new : List Char)
  deriving DecidableEq, Repr

def Piece.new : Piece → List Char
  | kept c => [c]
  | replaced _ new => new

/-- The pieces of a bit; the characters of a match that is put back are kept. -/
def Bit.pieces (f : Hit → List Char) : Bit → List Piece
  | .char c => [.kept c]
  | .hit h => if f h = h.text then h.text.map .kept else [.replaced h.text (f h)]

theorem flatMap_new_kept (cs : List Char) : (cs.map Piece.kept).flatMap Piece.new = cs := by
  induction cs with
  | nil => rfl
  | cons c cs ih =>
    rw [List.map_cons, List.flatMap_cons, ih]
    rfl

theorem Bit.flatMap_new_pieces (f : Hit → List Char) (b : Bit) :
    (b.pieces f).flatMap Piece.new = b.put f := by
  cases b with
  | char c => rfl
  | hit h =>
    show (if f h = h.text then h.text.map Piece.kept else [.replaced h.text (f h)]).flatMap
      Piece.new = f h
    split
    · rename_i hsame
      rw [flatMap_new_kept]
      exact hsame.symm
    · exact List.append_nil _

namespace Rewrite

variable (r : Rewrite) (text : List Char)

def run : List Char := r.pattern.replaceAll (r.put text) text

def pieces : List Piece := (r.pattern.scan text).flatMap (Bit.pieces (r.put text))

/-- **A pass by its pieces.** -/
theorem run_eq : r.run text = (r.pieces text).flatMap Piece.new := by
  unfold run pieces replaceAll
  rw [List.flatMap_assoc]
  exact List.flatMap_congr fun b _ => (b.flatMap_new_pieces (r.put text)).symm

end Rewrite

/-- All passes, one after the other. -/
def runAll (rs : List Rewrite) (text : List Char) : List Char := rs.foldl (fun out r => r.run out) text

/-- No pass replaces a stretch that reaches over the cut between two texts, nor another one because
of what is beyond it. -/
def Apart : List Rewrite → List Char → List Char → Prop
  | [], _, _ => True
  | r :: rs, u, v => r.pieces (u ++ v) = r.pieces u ++ r.pieces v ∧ Apart rs (r.run u) (r.run v)

section

variable {r : Rewrite} {rs : List Rewrite} {u v text : List Char}

theorem Rewrite.run_append (h : r.pieces (u ++ v) = r.pieces u ++ r.pieces v) :
    r.run (u ++ v) = r.run u ++ r.run v := by
  rw [r.run_eq, r.run_eq, r.run_eq, h, List.flatMap_append]

/-- **A text is rewritten part by part** where the passes are apart. By induction on the passes. -/
theorem runAll_append (h : Apart rs u v) : runAll rs (u ++ v) = runAll rs u ++ runAll rs v := by
  induction rs generalizing u v with
  | nil => rfl
  | cons r rs ih =>
    obtain ⟨hpass, hrest⟩ := h
    have hstep : runAll (r :: rs) (u ++ v) = runAll rs (r.run (u ++ v)) := rfl
    rw [hstep, Rewrite.run_append hpass]
    exact ih hrest

theorem runAll_concat {rs' : List Rewrite} :
    runAll (rs ++ rs') text = runAll rs' (runAll rs text) := List.foldl_append ..

theorem runAll_nil : runAll rs [] = [] := by
  induction rs with
  | nil => rfl
  | cons r rs ih => exact ih

theorem Rewrite.run_of_quiet (h : r.pattern.isMatch text = false) : r.run text = text := by
  have hnone : r.pattern.findIter text = [] := by simpa [isMatch] using h
  refine replaceAll_of_forall fun m hm => ?_
  rw [hnone] at hm
  cases hm

/-- A text that no pattern matches stays. By induction on the passes. -/
theorem runAll_of_quiet (h : ∀ r ∈ rs, r.pattern.isMatch text = false) : runAll rs text = text := by
  induction rs with
  | nil => rfl
  | cons r rs ih =>
    have hstep : runAll (r :: rs) text = runAll rs (r.run text) := rfl
    rw [hstep, Rewrite.run_of_quiet (h r List.mem_cons_self)]
    exact ih fun q hq => h q (List.mem_cons_of_mem r hq)

theorem Rewrite.pieces_of_quiet (h : r.pattern.isMatch text = false) :
    r.pieces text = text.map .kept := by
  have hnone : r.pattern.findIter text = [] := by simpa [isMatch] using h
  have heach : ∀ b ∈ r.pattern.scan text, b.pieces (r.put text) = b.text.map .kept := by
    intro b hb
    cases b with
    | char c => rfl
    | hit m =>
      have hm := mem_findIter.2 hb
      rw [hnone] at hm
      cases hm
  unfold pieces
  rw [List.flatMap_congr heach, ← List.map_flatMap, flatMap_text_scan]

end

/-! ## Passes that lack a character -/

section

variable {a : Pattern} {r : Rewrite} {rs : List Rewrite} {known u v text : List Char}

theorem mem_of_mem_hit {h : Hit} (hmem : h ∈ a.findIter text) : ∀ c ∈ h.text, c ∈ text := by
  intro c hc
  have hscan := mem_findIter.1 hmem
  have hafter := (consumes_of_isHit (isHit_of_mem_scan hscan)).after
  rw [← whole_of_mem_scan hscan]
  unfold Place.whole
  rw [hafter]
  exact List.mem_append_right _ (List.mem_append_left _ hc)

/-- A text that lacks a character of every match has no match. -/
theorem isMatch_of_alien (h : a.alien known = true) (hsub : ∀ c ∈ text, c ∈ known) :
    a.isMatch text = false := by
  unfold isMatch
  cases hfind : a.findIter text with
  | nil => rfl
  | cons m ms =>
    have hmem : m ∈ a.findIter text := by
      rw [hfind]
      exact List.mem_cons_self
    obtain ⟨c, hc, hnew⟩ := exists_alien_of_isHit (isHit_of_mem_scan (mem_findIter.1 hmem)) h
    exact absurd (hsub c (mem_of_mem_hit hmem c hc)) hnew

/-- `runAll` without the passes that the text lacks a character for. -/
def runLive : List Rewrite → List Char → List Char
  | [], text => text
  | r :: rs, text =>
    if r.pattern.alien text.eraseDups then runLive rs text else runLive rs (r.run text)

theorem runLive_eq (rs : List Rewrite) (text : List Char) : runLive rs text = runAll rs text := by
  induction rs generalizing text with
  | nil => rfl
  | cons r rs ih =>
    have hstep : runAll (r :: rs) text = runAll rs (r.run text) := rfl
    rw [hstep]
    unfold runLive
    split
    · rename_i hlacks
      rw [Rewrite.run_of_quiet (isMatch_of_alien hlacks fun c => List.mem_eraseDups.2)]
      exact ih text
    · exact ih _

/-- A test of `Apart` without them. -/
def apartLive : List Rewrite → List Char → List Char → Bool
  | [], _, _ => true
  | r :: rs, u, v =>
    if r.pattern.alien (u ++ v).eraseDups then apartLive rs u v
    else decide (r.pieces (u ++ v) = r.pieces u ++ r.pieces v) && apartLive rs (r.run u) (r.run v)

theorem apart_of_live (h : apartLive rs u v = true) : Apart rs u v := by
  induction rs generalizing u v with
  | nil => trivial
  | cons r rs ih =>
    unfold apartLive at h
    split at h
    · rename_i hlacks
      have hquiet : ∀ text, (∀ c ∈ text, c ∈ u ++ v) → r.pattern.isMatch text = false :=
        fun text hsub => isMatch_of_alien hlacks fun c hc => List.mem_eraseDups.2 (hsub c hc)
      have hall := hquiet (u ++ v) fun c hc => hc
      have hu := hquiet u fun c => List.mem_append_left v
      have hv := hquiet v fun c => List.mem_append_right u
      refine ⟨?_, ?_⟩
      · rw [Rewrite.pieces_of_quiet hall, Rewrite.pieces_of_quiet hu, Rewrite.pieces_of_quiet hv,
          List.map_append]
      · rw [Rewrite.run_of_quiet hu, Rewrite.run_of_quiet hv]
        exact ih h
    · obtain ⟨hpass, hrest⟩ := (Bool.and_eq_true _ _).mp h
      exact ⟨of_decide_eq_true hpass, ih hrest⟩

end

end Pattern
