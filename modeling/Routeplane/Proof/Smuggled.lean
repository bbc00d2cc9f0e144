import Routeplane.Guardrails.Redact

/-!
# What the smuggling pass masks

The pass finds its tokens in a copy without invisible and lookalike characters and masks them in the
text. It is followed from its byte offsets to spans of characters.

A text is sliced by byte offsets. Where these are the offsets of characters, the slice is there, and
it is the one by characters.

* `slice_take`: such a slice.
* `cut`: the place of a character that a recognizer reads, and `map_cut`, that the offset map has it.
* `claimHit_eq`, `splice_eq`: the claims and the splice, by characters.
* `Claimed`: what holds of the spans that are claimed, and `claimed_rows`, that it does after all
  recognizers.
* `smuggled_only`: the spans that are masked, and that the rest of the text is kept.
-/

namespace Routeplane.Guardrails

theorem utf8Size_pos (c : Char) : 0 < c.utf8Size := c.utf8Size_pos

/-! ## Lengths -/

theorem byteLen_append (u v : List Char) : byteLen (u ++ v) = byteLen u + byteLen v := by
  unfold byteLen
  rw [List.map_append, List.sum_append]

theorem byteLen_cons (c : Char) (cs : List Char) : byteLen (c :: cs) = c.utf8Size + byteLen cs := rfl

theorem byteLen_reverse (cs : List Char) : byteLen cs.reverse = byteLen cs := by
  unfold byteLen
  rw [List.map_reverse, List.sum_reverse]

theorem byteLen_pos {cs : List Char} (h : cs ≠ []) : 0 < byteLen cs := by
  obtain ⟨c, cs, rfl⟩ := List.exists_cons_of_ne_nil h
  have hpos := utf8Size_pos c
  rw [byteLen_cons]
  omega

/-- The offsets of characters are in the order of the characters. -/
theorem byteLen_take_lt {text : List Char} {a b : ℕ} (hlt : a < b) (ha : a < text.length) :
    byteLen (text.take a) < byteLen (text.take b) := by
  have hsplit : text.take b = text.take a ++ (text.take b).drop a := by
    have hmin : (text.take b).take a = text.take a := by rw [List.take_take, Nat.min_eq_left hlt.le]
    rw [← hmin, List.take_append_drop]
  have hne : (text.take b).drop a ≠ [] := by
    intro hnil
    have hlen := List.drop_eq_nil_iff.1 hnil
    rw [List.length_take] at hlen
    omega
  have hpos := byteLen_pos hne
  rw [hsplit, byteLen_append]
  omega

theorem byteLen_take_lt_iff (text : List Char) {a b : ℕ} (ha : a ≤ text.length)
    (hb : b ≤ text.length) : byteLen (text.take a) < byteLen (text.take b) ↔ a < b := by
  constructor
  · intro h
    by_contra hle
    rcases Nat.lt_or_eq_of_le (Nat.not_lt.1 hle) with hlt | heq
    · have hin : b < text.length := by omega
      have hback := byteLen_take_lt hlt hin
      omega
    · rw [heq] at h
      omega
  · intro h
    have hlt : a < text.length := by omega
    exact byteLen_take_lt h hlt

theorem byteLen_take_le_iff {text : List Char} {a b : ℕ} (ha : a ≤ text.length)
    (hb : b ≤ text.length) : byteLen (text.take a) ≤ byteLen (text.take b) ↔ a ≤ b := by
  have h := byteLen_take_lt_iff text hb ha
  omega

/-! ## Slices at characters -/

theorem dropBytes_append (u v : List Char) : dropBytes (byteLen u) (u ++ v) = some v := by
  induction u with
  | nil =>
    cases v with
    | nil => rfl
    | cons c cs => rfl
  | cons c u ih =>
    have hpos := utf8Size_pos c
    rw [byteLen_cons]
    show (if c.utf8Size + byteLen u = 0 then _ else if c.utf8Size ≤ c.utf8Size + byteLen u then
      dropBytes (c.utf8Size + byteLen u - c.utf8Size) (u ++ v) else _) = _
    rw [if_neg (by omega), if_pos (by omega), Nat.add_sub_cancel_left, ih]

theorem takeBytes_append (u v : List Char) : takeBytes (byteLen u) (u ++ v) = some u := by
  induction u with
  | nil =>
    cases v with
    | nil => rfl
    | cons c cs => rfl
  | cons c u ih =>
    have hpos := utf8Size_pos c
    rw [byteLen_cons]
    show (if c.utf8Size + byteLen u = 0 then _ else if c.utf8Size ≤ c.utf8Size + byteLen u then
      (takeBytes (c.utf8Size + byteLen u - c.utf8Size) (u ++ v)).map (c :: ·) else _) = _
    rw [if_neg (by omega), if_pos (by omega), Nat.add_sub_cancel_left, ih]
    rfl

/-- **A slice between two characters** is there, and it is the one by characters. -/
theorem slice_take (text : List Char) {a b : ℕ} (hab : a ≤ b) (hb : b ≤ text.length) :
    slice text (byteLen (text.take a)) (byteLen (text.take b)) =
      some ((text.drop a).take (b - a)) := by
  have hle := (byteLen_take_le_iff (by omega) hb).2 hab
  have hmid : text.take b = text.take a ++ (text.drop a).take (b - a) := by
    rw [← List.take_add, Nat.add_sub_cancel' hab]
  have hlen := congrArg byteLen hmid
  rw [byteLen_append] at hlen
  have hdrop : dropBytes (byteLen (text.take a)) text = some (text.drop a) := by
    have h := dropBytes_append (text.take a) (text.drop a)
    rwa [List.take_append_drop] at h
  have htake : takeBytes (byteLen ((text.drop a).take (b - a))) (text.drop a) =
      some ((text.drop a).take (b - a)) := by
    have h := takeBytes_append ((text.drop a).take (b - a)) ((text.drop a).drop (b - a))
    rwa [List.take_append_drop] at h
  have hsub : byteLen (text.take b) - byteLen (text.take a) =
      byteLen ((text.drop a).take (b - a)) := by omega
  unfold slice
  rw [if_neg (by omega), hdrop, hsub]
  exact htake

/-! ## The copy a recognizer reads -/

theorem stripFrom_fst (ob : ℕ) (text : List Char) :
    (stripFrom ob text).1 = normalizeForRecognition text := by
  induction text generalizing ob with
  | nil => rfl
  | cons c cs ih =>
    unfold stripFrom normalizeForRecognition foldConfusables stripInvisible
    rw [List.filter_cons]
    have hrest : (stripFrom (ob + c.utf8Size) cs).1 = List.map foldConfusable
      (cs.filter fun c => !isInvisible c) := ih _
    cases hc : isInvisible c with
    | true =>
      simp only [if_true, Bool.not_true, Bool.false_eq_true, if_false]
      exact hrest
    | false =>
      simp only [Bool.false_eq_true, if_false, Bool.not_false, if_true, List.map_cons]
      rw [hrest]

/-- The place of the `k`-th character that a recognizer reads; past the last one, the end. -/
def cut : ℕ → List Char → ℕ
  | _, [] => 0
  | k, c :: cs =>
    if isInvisible c then cut k cs + 1
    else match k with
      | 0 => 0
      | k + 1 => cut k cs + 1

attribute [local simp] cut

/-- How many characters of a text a recognizer reads. -/
def visible (text : List Char) : ℕ := (stripInvisible text).length

theorem visible_cons (c : Char) (cs : List Char) :
    visible (c :: cs) = visible cs + if isInvisible c then 0 else 1 := by
  unfold visible stripInvisible
  rw [List.filter_cons]
  cases isInvisible c with
  | true => rfl
  | false => rfl

theorem length_normalize (text : List Char) : (normalizeForRecognition text).length = visible text :=
  List.length_map _

theorem cut_le : ∀ (k : ℕ) (text : List Char), cut k text ≤ text.length
  | _, [] => Nat.le_refl _
  | k, c :: cs => by
    unfold cut
    split
    · have h := cut_le k cs
      rw [List.length_cons]
      omega
    · cases k with
      | zero => exact Nat.zero_le _
      | succ k =>
        have h := cut_le k cs
        exact Nat.succ_le_succ h

theorem visible_take_cut : ∀ {k : ℕ} {text : List Char}, k ≤ visible text →
    visible (text.take (cut k text)) = k
  | k, [], h => by
    have hz : visible [] = 0 := rfl
    have hk : k = 0 := by omega
    rw [hk]
    rfl
  | k, c :: cs, h => by
    rw [visible_cons] at h
    unfold cut
    cases hc : isInvisible c with
    | true =>
      rw [hc, if_pos rfl] at h
      rw [if_pos rfl, List.take_succ_cons, visible_cons, hc, visible_take_cut h]
      rfl
    | false =>
      rw [hc] at h
      simp only [Bool.false_eq_true, if_false] at h ⊢
      cases k with
      | zero => rfl
      | succ k =>
        have hrest : visible (cs.take (cut k cs)) = k := visible_take_cut (by omega)
        show visible (List.take (cut k cs + 1) (c :: cs)) = k + 1
        rw [List.take_succ_cons, visible_cons, hc, hrest]
        rfl

/-- There is a character that a recognizer reads at the place of one. -/
theorem getElem?_cut : ∀ {k : ℕ} {text : List Char}, k < visible text →
    ∃ c, text[cut k text]? = some c ∧ isInvisible c = false
  | k, [], h => absurd h (Nat.not_lt_zero k)
  | k, c :: cs, h => by
    rw [visible_cons] at h
    unfold cut
    cases hc : isInvisible c with
    | true =>
      rw [hc, if_pos rfl] at h
      have hlt : k < visible cs := by omega
      obtain ⟨d, hd, hvisible⟩ := getElem?_cut hlt
      rw [if_pos rfl]
      exact ⟨d, hd, hvisible⟩
    | false =>
      rw [hc] at h
      simp only [Bool.false_eq_true, if_false] at h ⊢
      cases k with
      | zero => exact ⟨c, rfl, hc⟩
      | succ k =>
        have hlt : k < visible cs := by omega
        obtain ⟨d, hd, hvisible⟩ := getElem?_cut hlt
        exact ⟨d, hd, hvisible⟩

/-- **The offset map has the place of each character** that a recognizer reads, and the end. By
induction on the text. -/
theorem map_cut : ∀ (ob : ℕ) (text : List Char) {k : ℕ}, k ≤ visible text →
    (stripFrom ob text).2[byteLen ((normalizeForRecognition text).take k)]? =
      some (ob + byteLen (text.take (cut k text)))
  | ob, [], k, h => by
    have hk : k = 0 := Nat.le_zero.1 h
    rw [hk]
    rfl
  | ob, c :: cs, k, h => by
    rw [visible_cons] at h
    have hnormal : normalizeForRecognition (c :: cs) =
        if isInvisible c then normalizeForRecognition cs
        else foldConfusable c :: normalizeForRecognition cs := by
      unfold normalizeForRecognition foldConfusables stripInvisible
      rw [List.filter_cons]
      cases isInvisible c with
      | true => rfl
      | false => rfl
    unfold stripFrom cut
    cases hc : isInvisible c with
    | true =>
      rw [hc, if_pos rfl] at h
      have hrest := map_cut (ob + c.utf8Size) cs (k := k) (by omega)
      rw [hnormal, hc]
      simp only [if_true]
      rw [hrest, List.take_succ_cons, byteLen_cons, Nat.add_assoc]
    | false =>
      rw [hc] at h
      rw [hnormal, hc]
      simp only [Bool.false_eq_true, if_false] at h ⊢
      have hpos := utf8Size_pos (foldConfusable c)
      cases k with
      | zero =>
        rw [List.getElem?_append_left (by rw [List.length_replicate]; exact hpos)]
        exact List.getElem?_replicate_of_lt hpos
      | succ k =>
        have hrest := map_cut (ob + c.utf8Size) cs (k := k) (by omega)
        rw [List.take_succ_cons, byteLen_cons, List.getElem?_append_right
          (by rw [List.length_replicate]; omega), List.length_replicate, Nat.add_sub_cancel_left, hrest]
        show _ = some (ob + byteLen (List.take (cut k cs + 1) (c :: cs)))
        rw [List.take_succ_cons, byteLen_cons, Nat.add_assoc]

/-! ## What the smuggling pass masks -/

open Pattern

/-- The characters of a text that a token takes the place of. -/
structure Span where
  start : ℕ
  stop : ℕ
  token : String
  deriving DecidableEq, Repr

/-- The characters of a span. -/
def Span.text (s : Span) (text : List Char) : List Char :=
  (text.drop s.start).take (s.stop - s.start)

/-- The text from a character on, with each span replaced by its token. -/
def replaceSpans (text : List Char) : ℕ → List Span → List Char
  | cursor, [] => text.drop cursor
  | cursor, s :: spans =>
    (text.drop cursor).take (s.start - cursor) ++ (s.token.toList ++ replaceSpans text s.stop spans)

/-- The span of a match: from its first character on, past its last one and before the next one that
a recognizer reads. -/
structure SpanOf (text : List Char) (m : Hit) (s : Span) : Prop where
  first : ∃ c, text[s.start]? = some c ∧ isInvisible c = false
  start : visible (text.take s.start) = m.start.before.length
  stop : visible (text.take s.stop) = m.stop.place.before.length

/-- A match is hidden: there is an invisible character between two of its own, or one of its own is
a lookalike. -/
def Hidden (text : List Char) (m : Hit) : Prop :=
  ∃ a c, text[a]? = some c ∧ visible (text.take a) < m.stop.place.before.length ∧
    (isInvisible c = true ∧ m.start.before.length < visible (text.take a) ∨
      isInvisible c = false ∧ foldConfusable c ≠ c ∧
        m.start.before.length ≤ visible (text.take a))

/-- A match that passes the test of its recognizer. -/
def Accepted (row : Row) (m : Hit) : Prop := ∀ valid, row.2.1 = some valid → valid m.text = true

section

variable (U : UnicodeTables) (text : List Char)

/-- A match of the `r`-th recognizer stands behind a span. -/
structure Backs (r : ℕ) (m : Hit) (s : Span) : Prop where
  found : ∃ row, (smuggledRows U)[r]? = some row ∧
    m ∈ row.1.findIter (normalizeForRecognition text) ∧ Accepted row m ∧ s.token = row.2.2
  span : SpanOf text m s
  obfuscated : obfuscated (s.text text) = true

/-- Two matches have a character in common. -/
def Meets (m m' : Hit) : Prop :=
  m.start.before.length < m'.stop.place.before.length ∧
    m'.start.before.length < m.stop.place.before.length

end

/-! ## Matches, by characters -/

variable {U : UnicodeTables} {text : List Char}

/-- Where a match lies in the copy. -/
structure Within (text : List Char) (m : Hit) : Prop where
  start : m.start.before.reverse =
    (normalizeForRecognition text).take m.start.before.length
  stop : m.stop.place.before.reverse =
    (normalizeForRecognition text).take m.stop.place.before.length
  lt : m.start.before.length < m.stop.place.before.length
  le : m.stop.place.before.length ≤ visible text

theorem within_of_found {p : Pattern} {m : Hit}
    (hm : m ∈ p.findIter (normalizeForRecognition text)) : Within text m := by
  have hscan := mem_findIter.1 hm
  have hhit := isHit_of_mem_scan hscan
  have hconsumes := consumes_of_isHit hhit
  have hwhole := whole_of_mem_scan hscan
  have hstop : m.stop.place.whole = normalizeForRecognition text := hconsumes.whole_eq.trans hwhole
  have htake : ∀ pl : Place, pl.whole = normalizeForRecognition text →
      pl.before.reverse = (normalizeForRecognition text).take pl.before.length := by
    intro pl hpl
    rw [← hpl, ← List.length_reverse]
    exact List.take_left.symm
  have hpos : 0 < m.text.length := List.length_pos_of_ne_nil hhit.ne_nil
  have hlen := congrArg List.length hconsumes.before
  rw [List.length_append, List.length_reverse] at hlen
  have hall := congrArg List.length hstop
  rw [length_normalize] at hall
  unfold Place.whole at hall
  rw [List.length_append, List.length_reverse] at hall
  exact ⟨htake _ hwhole, htake _ hstop, by omega, by omega⟩

/-- The places of two characters are in the order of the characters. -/
theorem visible_take_mono (text : List Char) {a b : ℕ} (h : a ≤ b) :
    visible (text.take a) ≤ visible (text.take b) := by
  unfold visible stripInvisible
  have hpre : text.take a <+: text.take b := List.take_prefix_take_left h
  exact (hpre.sublist.filter _).length_le

theorem visible_take_succ {a : ℕ} {c : Char} (hc : text[a]? = some c) (hvis : isInvisible c = false) :
    visible (text.take (a + 1)) = visible (text.take a) + 1 := by
  unfold visible stripInvisible
  rw [List.take_add_one, hc, List.filter_append, List.length_append]
  simp [hvis]

theorem cut_lt {i j : ℕ} (hij : i < j) (hj : j ≤ visible text) : cut i text < cut j text := by
  by_contra hle
  have hmono := visible_take_mono text (Nat.not_lt.1 hle)
  rw [visible_take_cut hj, visible_take_cut (by omega)] at hmono
  omega

/-- The span that the pass takes for a match. -/
def spanFor (text : List Char) (row : Row) (m : Hit) : Span :=
  ⟨cut m.start.before.length text, cut m.stop.place.before.length text, row.2.2⟩

theorem spanOf_spanFor {m : Hit} (hm : Within text m) (row : Row) :
    SpanOf text m (spanFor text row m) := by
  have hlt := hm.lt
  have hle := hm.le
  exact ⟨getElem?_cut (by omega), visible_take_cut (by omega), visible_take_cut hle⟩

/-- The span of a hidden match is obfuscated. -/
theorem obfuscated_spanFor {m : Hit} (hm : Within text m) (row : Row) (hhidden : Hidden text m) :
    obfuscated ((spanFor text row m).text text) = true := by
  obtain ⟨a, c, hc, hbefore, hkind⟩ := hhidden
  have hlt := hm.lt
  have hle := hm.le
  -- the character is not before the span
  have hfrom : cut m.start.before.length text ≤ a := by
    by_contra hnot
    have hmono := visible_take_mono text (Nat.succ_le_of_lt (Nat.not_le.1 hnot))
    have hmono' := visible_take_mono text (Nat.le_of_lt (Nat.not_le.1 hnot))
    rw [visible_take_cut (by omega)] at hmono hmono'
    rcases hkind with ⟨-, h⟩ | ⟨hvis, -, h⟩
    · omega
    · rw [visible_take_succ hc hvis] at hmono
      omega
  -- nor after it
  have hto : a < cut m.stop.place.before.length text := by
    by_contra hnot
    have hmono := visible_take_mono text (Nat.not_lt.1 hnot)
    rw [visible_take_cut hle] at hmono
    omega
  have hmem : c ∈ (spanFor text row m).text text := by
    show c ∈ (text.drop (cut m.start.before.length text)).take
      (cut m.stop.place.before.length text - cut m.start.before.length text)
    refine List.mem_of_getElem? (i := a - cut m.start.before.length text) ?_
    rw [List.getElem?_take_of_lt (by omega), List.getElem?_drop, Nat.add_sub_cancel' hfrom, hc]
  unfold obfuscated
  rw [Bool.or_eq_true]
  rcases hkind with ⟨hinvisible, -⟩ | ⟨-, hfold, -⟩
  · exact .inl (List.any_eq_true.2 ⟨c, hmem, hinvisible⟩)
  · exact .inr (List.any_eq_true.2 ⟨c, hmem, bne_iff_ne.2 hfold⟩)

/-- Matches whose spans overlap have a character in common. -/
theorem meets_of_overlap {m m' : Hit} {s s' : Span} (hs : SpanOf text m s) (hs' : SpanOf text m' s')
    (h : s.start < s'.stop) (h' : s'.start < s.stop) : Meets m m' := by
  obtain ⟨c, hc, hvis⟩ := hs.first
  obtain ⟨c', hc', hvis'⟩ := hs'.first
  have hfirst := visible_take_mono text (Nat.succ_le_of_lt h)
  have hsecond := visible_take_mono text (Nat.succ_le_of_lt h')
  rw [Nat.succ_eq_add_one, visible_take_succ hc hvis, hs.start, hs'.stop] at hfirst
  rw [Nat.succ_eq_add_one, visible_take_succ hc' hvis', hs'.start, hs.stop] at hsecond
  exact ⟨by omega, by omega⟩

/-! ## Claims, by characters -/

/-- A span of the text, by its bytes. -/
def toClaim (text : List Char) (s : Span) : Claim :=
  ⟨byteLen (text.take s.start), byteLen (text.take s.stop), s.token⟩

/-- A span that is there and has a character. -/
def InRange (text : List Char) (s : Span) : Prop := s.start < s.stop ∧ s.stop ≤ text.length

def Span.overlaps (s : Span) (start stop : ℕ) : Bool := start < s.stop && s.start < stop

/-- What `claimHit` does, by characters. -/
def claimSpan (text : List Char) (row : Row) (spans : List Span) (m : Hit) : List Span :=
  let s := spanFor text row m
  if row.2.1.any fun valid => !valid m.text then spans
  else if !obfuscated (s.text text) then spans
  else if spans.any fun t => t.overlaps s.start s.stop then spans
  else spans ++ [s]

theorem inRange_spanFor {m : Hit} (hm : Within text m) (row : Row) :
    InRange text (spanFor text row m) := ⟨cut_lt hm.lt hm.le, cut_le _ _⟩

theorem overlaps_toClaim {s t : Span} (hs : InRange text s) (ht : InRange text t) :
    (toClaim text t).overlaps (toClaim text s).start (toClaim text s).stop =
      t.overlaps s.start s.stop := by
  obtain ⟨hs, hs'⟩ := hs
  obtain ⟨ht, ht'⟩ := ht
  have hleft := byteLen_take_lt_iff text (a := s.start) (b := t.stop) (by omega) ht'
  have hright := byteLen_take_lt_iff text (a := t.start) (b := s.stop) (by omega) hs'
  unfold Claim.overlaps Span.overlaps toClaim
  simp only [hleft, hright]

/-- **The offset map gives the span of a match**, and the slice there. -/
theorem claimHit_eq {row : Row} {m : Hit} (hm : Within text m) {spans : List Span}
    (hspans : ∀ s ∈ spans, InRange text s) :
    claimHit text (stripInvisibleWithMap text).2 row (spans.map (toClaim text)) m =
      some ((claimSpan text row spans m).map (toClaim text)) := by
  have hlt := hm.lt
  have hle := hm.le
  have hstart := map_cut 0 text (k := m.start.before.length) (by omega)
  have hstop := map_cut 0 text (k := m.stop.place.before.length) hle
  rw [← hm.start, byteLen_reverse, Nat.zero_add] at hstart
  rw [← hm.stop, byteLen_reverse, Nat.zero_add] at hstop
  have hrange := inRange_spanFor hm row
  have hslice := slice_take text (Nat.le_of_lt hrange.1) hrange.2
  have hany : ((spans.map (toClaim text)).any fun c =>
      c.overlaps (toClaim text (spanFor text row m)).start (toClaim text (spanFor text row m)).stop) =
      spans.any fun t => t.overlaps (spanFor text row m).start (spanFor text row m).stop := by
    rw [List.any_map, Bool.eq_iff_iff, List.any_eq_true, List.any_eq_true]
    refine exists_congr fun t => and_congr_right fun ht => ?_
    exact Bool.eq_iff_iff.1 (overlaps_toClaim hrange (hspans t ht))
  unfold claimHit claimSpan
  cases hvalid : row.2.1.any fun valid => !valid m.text with
  | true => rfl
  | false =>
    have hfind : stripInvisibleWithMap text = stripFrom 0 text := rfl
    simp only [Bool.false_eq_true, if_false, hfind]
    rw [hstart, Option.bind_eq_bind, Option.bind_some, hstop, Option.bind_eq_bind, Option.bind_some]
    have hspan : slice text (byteLen (text.take (cut m.start.before.length text)))
        (byteLen (text.take (cut m.stop.place.before.length text))) =
        some ((spanFor text row m).text text) := hslice
    rw [hspan, Option.bind_some]
    cases obfuscated ((spanFor text row m).text text) with
    | false => rfl
    | true =>
      have hany' : ((spans.map (toClaim text)).any fun c =>
          c.overlaps (byteLen (text.take (cut m.start.before.length text)))
            (byteLen (text.take (cut m.stop.place.before.length text)))) =
          spans.any fun t => t.overlaps (spanFor text row m).start (spanFor text row m).stop := hany
      simp only [Bool.not_true, Bool.false_eq_true, if_false]
      rw [hany']
      split
      · rfl
      · rw [List.map_append]
        rfl

/-! ## All matches -/

/-- The spans claimed by the first `n` recognizers. -/
structure Claimed (U : UnicodeTables) (text : List Char) (n : ℕ) (spans : List Span) : Prop where
  range : ∀ s ∈ spans, InRange text s
  backed : ∀ s ∈ spans, ∃ r < n, ∃ m, Backs U text r m s
  apart : spans.Pairwise fun a b => a.stop ≤ b.start ∨ b.stop ≤ a.start

/-- A match of the `r`-th recognizer meets one that is claimed, by that recognizer or one before. -/
def Covered (U : UnicodeTables) (text : List Char) (spans : List Span) (r : ℕ) (m : Hit) : Prop :=
  ∃ s ∈ spans, ∃ r' ≤ r, ∃ m', Backs U text r' m' s ∧ Meets m m'

/-- What is known after the matches `ms` of the `r`-th recognizer. -/
structure After (U : UnicodeTables) (text : List Char) (row : Row) (r : ℕ) (ms : List Hit)
    (spans spans' : List Span) : Prop where
  claimed : Claimed U text (r + 1) spans'
  kept : ∀ s ∈ spans, s ∈ spans'
  covered : ∀ m ∈ ms, Accepted row m → Hidden text m → Covered U text spans' r m

theorem Covered.mono {spans spans' : List Span} {r : ℕ} {m : Hit} (h : Covered U text spans r m)
    (hkept : ∀ s ∈ spans, s ∈ spans') : Covered U text spans' r m := by
  obtain ⟨s, hs, hrest⟩ := h
  exact ⟨s, hkept s hs, hrest⟩

theorem Claimed.mono {n n' : ℕ} {spans : List Span} (h : Claimed U text n spans) (hle : n ≤ n') :
    Claimed U text n' spans := by
  refine ⟨h.range, fun s hs => ?_, h.apart⟩
  obtain ⟨r, hr, m, hm⟩ := h.backed s hs
  exact ⟨r, by omega, m, hm⟩

theorem backs_spanFor {row : Row} {r : ℕ} (hrow : (smuggledRows U)[r]? = some row) {m : Hit}
    (hm : m ∈ row.1.findIter (normalizeForRecognition text)) (haccepted : Accepted row m)
    (hobfuscated : obfuscated ((spanFor text row m).text text) = true) :
    Backs U text r m (spanFor text row m) :=
  ⟨⟨row, hrow, hm, haccepted, rfl⟩, spanOf_spanFor (within_of_found hm) row, hobfuscated⟩

/-- **One match**: it is claimed, or it is no token, or it meets one that is. -/
theorem after_hit {row : Row} {r : ℕ} (hrow : (smuggledRows U)[r]? = some row) {m : Hit}
    (hm : m ∈ row.1.findIter (normalizeForRecognition text)) {spans : List Span}
    (h : Claimed U text (r + 1) spans) :
    After U text row r [m] spans (claimSpan text row spans m) := by
  have hwithin := within_of_found hm
  have hrange := inRange_spanFor hwithin row
  unfold claimSpan
  dsimp only
  split
  · -- the test of the recognizer fails
    rename_i hinvalid
    refine ⟨h, fun s hs => hs, fun m' hm' haccepted _ => ?_⟩
    rw [List.mem_singleton.1 hm'] at haccepted
    obtain ⟨valid, hvalid, hno⟩ := (Option.any_eq_true _ _).1 hinvalid
    rw [haccepted valid hvalid] at hno
    cases hno
  · rename_i hvalid
    have haccepted : Accepted row m := by
      intro valid hv
      by_contra hno
      exact hvalid ((Option.any_eq_true _ _).2 ⟨valid, hv, by simpa using hno⟩)
    split
    · -- nothing is hidden
      rename_i hplain
      refine ⟨h, fun s hs => hs, fun m' hm' _ hhidden => ?_⟩
      rw [List.mem_singleton.1 hm'] at hhidden
      rw [obfuscated_spanFor hwithin row hhidden] at hplain
      cases hplain
    · rename_i hobfuscated
      have hspan : obfuscated ((spanFor text row m).text text) = true := by simpa using hobfuscated
      split
      · -- another match has a part of it
        rename_i htaken
        refine ⟨h, fun s hs => hs, fun m' hm' _ _ => ?_⟩
        rw [List.mem_singleton.1 hm']
        obtain ⟨s, hs, hover⟩ := List.any_eq_true.1 htaken
        obtain ⟨hleft, hright⟩ := (Bool.and_eq_true _ _).mp hover
        obtain ⟨r', hr', m', hbacks⟩ := h.backed s hs
        have hmeets := meets_of_overlap (spanOf_spanFor hwithin row) hbacks.span
          (of_decide_eq_true hleft) (of_decide_eq_true hright)
        exact ⟨s, hs, r', by omega, m', hbacks, hmeets⟩
      · rename_i hfree
        have hbacks := backs_spanFor hrow hm haccepted hspan
        refine ⟨⟨?_, ?_, ?_⟩, fun s hs => List.mem_append_left _ hs, fun m' hm' _ _ => ?_⟩
        · intro s hs
          rcases List.mem_append.1 hs with hs | hs
          · exact h.range s hs
          · rw [List.mem_singleton.1 hs]
            exact hrange
        · intro s hs
          rcases List.mem_append.1 hs with hs | hs
          · exact h.backed s hs
          · rw [List.mem_singleton.1 hs]
            exact ⟨r, by omega, m, hbacks⟩
        · refine List.pairwise_append.2 ⟨h.apart, List.pairwise_singleton _ _, fun s hs t ht => ?_⟩
          rw [List.mem_singleton.1 ht]
          have hno : ¬ s.overlaps (spanFor text row m).start (spanFor text row m).stop = true :=
            fun hover => hfree (List.any_eq_true.2 ⟨s, hs, hover⟩)
          unfold Span.overlaps at hno
          rw [Bool.and_eq_true, decide_eq_true_eq, decide_eq_true_eq] at hno
          omega
        · rw [List.mem_singleton.1 hm']
          have hlt := hwithin.lt
          exact ⟨_, List.mem_append_right _ (List.mem_singleton_self _), r, Nat.le_refl r, m, hbacks,
            hlt, hlt⟩

/-- **All matches of a recognizer.** By induction on them. -/
theorem after_hits {row : Row} {r : ℕ} (hrow : (smuggledRows U)[r]? = some row) :
    ∀ {ms : List Hit} {spans : List Span},
      (∀ m ∈ ms, m ∈ row.1.findIter (normalizeForRecognition text)) → Claimed U text (r + 1) spans →
      ∃ spans', ms.foldlM (claimHit text (stripInvisibleWithMap text).2 row)
        (spans.map (toClaim text)) = some (spans'.map (toClaim text)) ∧
        After U text row r ms spans spans'
  | [], spans, _, h =>
    ⟨spans, rfl, h, fun _ hs => hs, fun _ hm => absurd hm List.not_mem_nil⟩
  | m :: ms, spans, hms, h => by
    have hm := hms m List.mem_cons_self
    have hone := after_hit hrow hm h
    obtain ⟨spans', hfold, hrest⟩ := after_hits hrow
      (fun m' hm' => hms m' (List.mem_cons_of_mem m hm')) hone.claimed
    refine ⟨spans', ?_, hrest.claimed, fun s hs => hrest.kept s (hone.kept s hs), ?_⟩
    · rw [List.foldlM_cons, claimHit_eq (within_of_found hm) h.range]
      exact hfold
    · intro m' hm' haccepted hhidden
      rcases List.mem_cons.1 hm' with heq | hm'
      · rw [heq] at haccepted hhidden ⊢
        exact (hone.covered m (List.mem_singleton_self m) haccepted hhidden).mono hrest.kept
      · exact hrest.covered m' hm' haccepted hhidden

/-- What is known after all recognizers. -/
structure AllClaimed (U : UnicodeTables) (text : List Char) (spans : List Span) : Prop where
  claimed : Claimed U text (smuggledRows U).length spans
  covered : ∀ r row, (smuggledRows U)[r]? = some row →
    ∀ m ∈ row.1.findIter (normalizeForRecognition text), Accepted row m → Hidden text m →
      Covered U text spans r m

/-- **The recognizers, one after the other.** By induction on the ones to come. -/
theorem claimed_rows : ∀ {rows before : List Row} {spans : List Span},
    smuggledRows U = before ++ rows → Claimed U text before.length spans →
    ∃ spans', rows.foldlM (claimRow text (normalizeForRecognition text)
        (stripInvisibleWithMap text).2) (spans.map (toClaim text)) =
          some (spans'.map (toClaim text)) ∧
      Claimed U text (smuggledRows U).length spans' ∧ (∀ s ∈ spans, s ∈ spans') ∧
      ∀ r row, before.length ≤ r → (smuggledRows U)[r]? = some row →
        ∀ m ∈ row.1.findIter (normalizeForRecognition text), Accepted row m → Hidden text m →
          Covered U text spans' r m
  | [], before, spans, hrows, h => by
    rw [List.append_nil] at hrows
    refine ⟨spans, rfl, hrows ▸ h, fun _ hs => hs, fun r row hle hrow => ?_⟩
    rw [hrows, List.getElem?_eq_none hle] at hrow
    cases hrow
  | row :: rows, before, spans, hrows, h => by
    have hrow : (smuggledRows U)[before.length]? = some row := by
      rw [hrows, List.getElem?_append_right (Nat.le_refl _), Nat.sub_self]
      rfl
    obtain ⟨mid, hfold, hmid⟩ := after_hits hrow (fun m hm => hm) (h.mono (Nat.le_succ _))
    have hnext : smuggledRows U = (before ++ [row]) ++ rows := by
      rw [hrows, List.append_assoc]
      rfl
    have hlen : (before ++ [row]).length = before.length + 1 := List.length_append
    obtain ⟨spans', hrest, hclaimed, hkept, hcovered⟩ := claimed_rows hnext (hlen ▸ hmid.claimed)
    refine ⟨spans', ?_, hclaimed, fun s hs => hkept s (hmid.kept s hs), ?_⟩
    · rw [List.foldlM_cons]
      unfold claimRow
      rw [hfold]
      exact hrest
    · intro r row' hle hrow' m hm haccepted hhidden
      rcases Nat.eq_or_lt_of_le hle with heq | hlt
      · rw [← heq, hrow] at hrow'
        rw [← Option.some.inj hrow'] at hm haccepted
        rw [← heq]
        exact (hmid.covered m hm haccepted hhidden).mono hkept
      · exact hcovered r row' (by omega) hrow' m hm haccepted hhidden

theorem smuggledClaims_eq (U : UnicodeTables) (text : List Char) :
    ∃ spans, smuggledClaims U text = some (spans.map (toClaim text)) ∧ AllClaimed U text spans := by
  have hstart : Claimed U text ([] : List Row).length [] :=
    ⟨fun _ hs => absurd hs List.not_mem_nil, fun _ hs => absurd hs List.not_mem_nil, .nil⟩
  obtain ⟨spans, hfold, hclaimed, -, hcovered⟩ :=
    claimed_rows (List.nil_append (smuggledRows U)).symm hstart
  refine ⟨spans, ?_, hclaimed, fun r row => hcovered r row (Nat.zero_le r)⟩
  unfold smuggledClaims
  have hstripped : (stripInvisibleWithMap text).1 = normalizeForRecognition text :=
    stripFrom_fst 0 text
  show (smuggledRows U).foldlM (claimRow text (stripInvisibleWithMap text).1
    (stripInvisibleWithMap text).2) [] = _
  rw [hstripped]
  exact hfold

/-! ## The splice -/

theorem splice_eq : ∀ {spans : List Span} {cursor : ℕ}, cursor ≤ text.length →
    (∀ s ∈ spans, InRange text s ∧ cursor ≤ s.start) →
    spans.Pairwise (fun a b => a.stop ≤ b.start) →
    splice text (byteLen (text.take cursor)) (spans.map (toClaim text)) =
      some (replaceSpans text cursor spans)
  | [], cursor, hcursor, _, _ => by
    have hall : byteLen (text.take text.length) = byteLen text := by rw [List.take_length]
    have hslice := slice_take text hcursor (Nat.le_refl _)
    rw [hall] at hslice
    have hdrop : (text.drop cursor).take (text.length - cursor) = text.drop cursor := by
      rw [← List.length_drop]
      exact List.take_length
    rw [hdrop] at hslice
    exact hslice
  | s :: spans, cursor, hcursor, hspans, hsorted => by
    obtain ⟨⟨hlt, hle⟩, hfrom⟩ := hspans s List.mem_cons_self
    obtain ⟨hhead, htail⟩ := List.pairwise_cons.1 hsorted
    have hslice := slice_take text hfrom (by omega)
    have hin : ∀ t ∈ spans, InRange text t ∧ s.stop ≤ t.start :=
      fun t ht => ⟨(hspans t (List.mem_cons_of_mem s ht)).1, hhead t ht⟩
    have hrest := splice_eq hle hin htail
    have hbefore : slice text (byteLen (text.take cursor)) (toClaim text s).start =
      some ((text.drop cursor).take (s.start - cursor)) := hslice
    have hafter : splice text (toClaim text s).stop (spans.map (toClaim text)) =
      some (replaceSpans text s.stop spans) := hrest
    rw [List.map_cons]
    unfold splice replaceSpans
    rw [hbefore, hafter, ← List.append_assoc]
    rfl

/-- Sorted spans that are apart follow one another. -/
theorem pairwise_stop_le {spans : List Span} (hrange : ∀ s ∈ spans, InRange text s)
    (hapart : spans.Pairwise fun a b => a.stop ≤ b.start ∨ b.stop ≤ a.start)
    (hsorted : spans.Pairwise fun a b => a.start ≤ b.start) :
    spans.Pairwise fun a b => a.stop ≤ b.start := by
  have hboth := hapart.and hsorted
  refine hboth.imp_of_mem fun {a b} ha hb h => ?_
  have hlt := (hrange a ha).1
  have hlt' := (hrange b hb).1
  obtain ⟨h | h, hle⟩ := h
  · exact h
  · omega

theorem insertionSort_toClaim {spans : List Span} (hrange : ∀ s ∈ spans, InRange text s) :
    (spans.map (toClaim text)).insertionSort (fun a b => a.start ≤ b.start) =
      (spans.insertionSort fun a b => a.start ≤ b.start).map (toClaim text) := by
  refine (List.map_insertionSort _ _ (toClaim text) spans fun a ha b hb => ?_).symm
  have hleft := hrange a ha
  have hright := hrange b hb
  unfold InRange at hleft hright
  exact (byteLen_take_le_iff (by omega) (by omega)).symm

/-! ## The pass -/

/-- A text without invisible and lookalike characters has no hidden match. -/
theorem not_hidden {m : Hit} (hplain : (!containsInvisibleUnicode text && !containsConfusable text)
    = true) : ¬ Hidden text m := by
  obtain ⟨hinvisible, hconfusable⟩ := (Bool.and_eq_true _ _).mp hplain
  rw [Bool.not_eq_true'] at hinvisible hconfusable
  rintro ⟨a, c, hc, -, ⟨hyes, -⟩ | ⟨-, hfold, -⟩⟩
  · exact List.any_eq_false.1 hinvisible c (List.mem_of_getElem? hc) hyes
  · exact List.any_eq_false.1 hconfusable c (List.mem_of_getElem? hc) (bne_iff_ne.2 hfold)

/-- The pass has an answer for every text: what it claims can be spliced. -/
theorem exists_masked_smuggled (U : UnicodeTables) (text : List Char) :
    ∃ out, maskInvisibleSmuggled U text = some out := by
  unfold maskInvisibleSmuggled
  split
  · exact ⟨text, rfl⟩
  obtain ⟨spans, hclaims, hall⟩ := smuggledClaims_eq U text
  have hrange := hall.claimed.range
  have hmem : ∀ s, s ∈ spans.insertionSort (fun a b => a.start ≤ b.start) ↔ s ∈ spans :=
    fun s => List.mem_insertionSort _
  have hsorted : (spans.insertionSort fun a b => a.start ≤ b.start).Pairwise
      fun a b => a.start ≤ b.start := by
    have htotal : Std.Total fun a b : Span => a.start ≤ b.start :=
      ⟨fun a b => Nat.le_total a.start b.start⟩
    have htrans : IsTrans Span fun a b => a.start ≤ b.start := ⟨fun a b c => Nat.le_trans⟩
    exact List.pairwise_insertionSort _ _
  have hapart := ((List.perm_insertionSort (fun a b : Span => a.start ≤ b.start) spans).pairwise_iff
    fun {a b} h => h.symm).2 hall.claimed.apart
  have hsplice := splice_eq (Nat.zero_le _)
    (fun s hs => ⟨hrange s ((hmem s).1 hs), Nat.zero_le _⟩)
    (pairwise_stop_le (fun s hs => hrange s ((hmem s).1 hs)) hapart hsorted)
  rw [hclaims]
  show ∃ out, (if spans.map (toClaim text) = [] then some text else _) = some out
  split
  · exact ⟨text, rfl⟩
  · rw [insertionSort_toClaim hrange]
    exact ⟨_, hsplice⟩

/-- **What is masked is smuggled, what is smuggled is masked, and the rest is kept.** The pass cuts
the text at characters only; it replaces spans that follow one another. Behind each span stands a
match of a recognizer that passes its test, from the first character of the match to past the last
one, with an invisible or a lookalike character in it. A hidden match that passes its test is one of
them, or has a character in common with one of its recognizer or of a recognizer before it. -/
theorem smuggled_only (U : UnicodeTables) (text : List Char) :
    ∃ spans : List Span,
      maskInvisibleSmuggled U text = some (replaceSpans text 0 spans) ∧
      spans.Pairwise (fun a b => a.stop ≤ b.start) ∧
      (∀ s ∈ spans, s.start < s.stop ∧ s.stop ≤ text.length ∧ ∃ r m, Backs U text r m s) ∧
      ∀ r row, (smuggledRows U)[r]? = some row →
        ∀ m ∈ row.1.findIter (normalizeForRecognition text), Accepted row m → Hidden text m →
          Covered U text spans r m := by
  cases hplain : !containsInvisibleUnicode text && !containsConfusable text with
  | true =>
    refine ⟨[], ?_, .nil, fun s hs => absurd hs List.not_mem_nil, ?_⟩
    · unfold maskInvisibleSmuggled
      rw [hplain]
      rfl
    · exact fun r row _ m _ _ hhidden => absurd hhidden (not_hidden hplain)
  | false =>
    obtain ⟨spans, hclaims, hall⟩ := smuggledClaims_eq U text
    have hrange := hall.claimed.range
    have hmem : ∀ s, s ∈ spans.insertionSort (fun a b => a.start ≤ b.start) ↔ s ∈ spans :=
      fun s => List.mem_insertionSort _
    have hperm := List.perm_insertionSort (fun a b : Span => a.start ≤ b.start) spans
    have hsorted : (spans.insertionSort fun a b => a.start ≤ b.start).Pairwise
        fun a b => a.start ≤ b.start := by
      have htotal : Std.Total fun a b : Span => a.start ≤ b.start :=
        ⟨fun a b => Nat.le_total a.start b.start⟩
      have htrans : IsTrans Span fun a b => a.start ≤ b.start :=
        ⟨fun a b c => Nat.le_trans⟩
      exact List.pairwise_insertionSort _ _
    have hapart := (hperm.pairwise_iff fun {a b} h => h.symm).2 hall.claimed.apart
    have hfollow := pairwise_stop_le (fun s hs => hrange s ((hmem s).1 hs)) hapart hsorted
    refine ⟨spans.insertionSort fun a b => a.start ≤ b.start, ?_, hfollow, ?_, ?_⟩
    · have hsplice := splice_eq (Nat.zero_le _)
        (fun s hs => ⟨hrange s ((hmem s).1 hs), Nat.zero_le _⟩) hfollow
      unfold maskInvisibleSmuggled
      rw [hplain, hclaims]
      show (if spans.map (toClaim text) = [] then some text else _) = _
      split
      · rename_i hnil
        rw [List.map_eq_nil_iff.1 hnil]
        rfl
      · rw [insertionSort_toClaim hrange]
        exact hsplice
    · intro s hs
      obtain ⟨hlt, hle⟩ := hrange s ((hmem s).1 hs)
      obtain ⟨r, -, m, hbacks⟩ := hall.claimed.backed s ((hmem s).1 hs)
      exact ⟨hlt, hle, r, m, hbacks⟩
    · intro r row hrow m hm haccepted hhidden
      exact (hall.covered r row hrow m hm haccepted hhidden).mono fun s hs => (hmem s).2 hs

/-- A PAN that starts with a Cyrillic letter is masked; nothing in it is invisible. -/
theorem lookalike_masked :
    maskInvisibleSmuggled asciiTables "АBCPD1234E".toList = some "[PAN_MASKED]".toList ∧
      containsInvisibleUnicode "АBCPD1234E".toList = false := by
  decide

end Routeplane.Guardrails
