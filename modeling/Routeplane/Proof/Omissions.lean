import Routeplane.Rtk.Filters

/-!
# What the filters leave out, they count

The pieces a filter writes stand for the lines it reads: the lines kept are in order, and each run
left out is one marker with its number of lines. Three filters do so only for some texts. A diff's
run of context lines that a line of no known kind ends is counted after that line; so is a listing of
untracked files that an indented line interrupts; and a short run of crates is not kept as it is, and
lost at the end of the output.

* `covers_omitRuns`, `covers_truncated`, `covers_grepFrom`, `covers_dedupLogFrom`: the filters that
  always do.
* `covers_gitDiffFrom_iff`, `covers_gitStatusFrom_iff`, `covers_buildOutputFrom_iff`: the other three.
* `omissions_faithful_iff`: every filter.
* `lost_crate_line`: the lines they get wrong.
-/

namespace Routeplane.Rtk

open Omission

variable {lines run : List String} {line : String}

/-- What is written stands for the lines of the text. -/
def StandsFor (content : String) : Output → Prop
  | .unchanged => True
  | .pieces ps => Covers ps (textLines content)

def Faithful (filter : Filter) (content : String) : Prop :=
  StandsFor content (applyFilter filter content)

/-! ## Filters that always count -/

/-- The lines `run` are left out and not counted yet. -/
theorem covers_omitRuns (skip : String → Bool) (wording : Wording) (lines : List String) :
    ∀ run : List String, Covers (omitRuns skip wording run.length lines) (run ++ lines) := by
  induction lines with
  | nil =>
    intro run
    rw [List.append_nil]
    exact covers_flush wording run
  | cons line lines ih =>
    intro run
    unfold omitRuns
    split
    · have hnext := ih (run ++ [line])
      rw [List.length_append, List.append_assoc] at hnext
      exact hnext
    · exact covers_flush_kept_iff.2 ⟨rfl, ih []⟩

theorem covers_truncated {limit head tail : ℕ} (wording : ℕ → Wording) (hlimit : head + tail ≤ limit)
    (hlong : limit < lines.length) :
    Covers ((lines.take head).map .kept ++
      .omitted (wording lines.length) (lines.length - (head + tail)) ::
        (lines.drop (lines.length - tail)).map .kept) lines := by
  have hsplit : lines = lines.take head ++
      ((lines.drop head).take (lines.length - (head + tail)) ++
        lines.drop (lines.length - tail)) := by
    have hdrop : lines.drop (lines.length - tail) =
        (lines.drop head).drop (lines.length - (head + tail)) := by
      rw [List.drop_drop]
      congr 1
      omega
    rw [hdrop, List.take_append_drop, List.take_append_drop]
  have hlen : ((lines.drop head).take (lines.length - (head + tail))).length =
      lines.length - (head + tail) := by
    rw [List.length_take, List.length_drop]
    omega
  have hne : (lines.drop head).take (lines.length - (head + tail)) ≠ [] := by
    intro hnil
    rw [hnil, List.length_nil] at hlen
    omega
  have hnext : ∀ p ∈ ((lines.drop (lines.length - tail)).map
      (Piece.kept : String → LinePiece)).head?, p.isKept = true := by
    intro p hp
    obtain ⟨line, -, rfl⟩ := List.mem_map.1 (List.mem_of_mem_head? hp)
    rfl
  have htail := covers_map_kept (μ := Wording) (lines.drop (lines.length - tail))
  have hmiddle := (covers_omitted_iff (m := wording lines.length) hne hnext).2 htail
  rw [hlen] at hmiddle
  have hall : Covers _ (lines.take head ++ _) := covers_map_kept_append.2 hmiddle
  rwa [← hsplit] at hall

/-- A file whose matches are left out has had its five. -/
theorem covers_grepFrom (lines : List String) :
    ∀ (currentFile : String) (matchesInFile : ℕ) (run : List String),
      (run = [] ∨ 5 ≤ matchesInFile) →
        Covers (grepFrom currentFile matchesInFile run.length lines) (run ++ lines) := by
  induction lines with
  | nil =>
    intro currentFile matchesInFile run _
    rw [List.append_nil]
    exact covers_flush _ run
  | cons line lines ih =>
    intro currentFile matchesInFile run hrun
    unfold grepFrom
    split
    · exact covers_flush_kept_iff.2 ⟨rfl, ih _ 1 [] (Or.inl rfl)⟩
    · split
      · rename_i hfew
        have hnil : run = [] := hrun.resolve_right (Nat.not_le.2 hfew)
        subst hnil
        exact covers_kept_iff.2 ⟨rfl, ih _ _ [] (Or.inl rfl)⟩
      · rename_i hmany
        have hnext := ih currentFile matchesInFile (run ++ [line]) (Or.inr (Nat.not_lt.1 hmany))
        rw [List.length_append, List.append_assoc] at hnext
        exact hnext

theorem covers_flushRepeats (lastLine : String) (repeatCount : ℕ) (ps : List LinePiece)
    (hnext : ∀ p ∈ ps.head?, p.isKept = true) (h : Covers ps lines) :
    Covers (flushRepeats lastLine repeatCount ++ ps)
      (List.replicate repeatCount lastLine ++ lines) := by
  unfold flushRepeats
  split
  · rename_i hmany
    have hne : List.replicate repeatCount lastLine ≠ [] := by
      intro hnil
      have hzero := (List.replicate_eq_nil_iff _).1 hnil
      omega
    have hmarker := Covers.omitted ("  ... (repeated ", " times)\n") _ hne hnext h
    rw [List.length_replicate] at hmarker
    exact hmarker
  · rw [← List.map_replicate]
    exact covers_map_kept_append.2 h

/-- The copies of the last line are not written yet. -/
theorem covers_dedupLogFrom (lines : List String) :
    ∀ (lastLine : String) (repeatCount : ℕ),
      Covers (dedupLogFrom lastLine repeatCount lines)
        (List.replicate repeatCount lastLine ++ lines) := by
  induction lines with
  | nil =>
    intro lastLine repeatCount
    have hnext : ∀ p ∈ ([] : List LinePiece).head?, p.isKept = true := by
      intro p hp
      cases hp
    have h := covers_flushRepeats lastLine repeatCount [] hnext Covers.nil
    rw [List.append_nil] at h
    exact h
  | cons line lines ih =>
    intro lastLine repeatCount
    unfold dedupLogFrom
    split
    · rename_i hsame
      subst hsame
      have hnext := ih line (repeatCount + 1)
      rw [List.replicate_succ', List.append_assoc] at hnext
      exact hnext
    · refine covers_flushRepeats _ _ _ ?_ (.kept line (ih line 0))
      intro p hp
      rw [← Option.some.inj hp]
      rfl

/-! ## Diffs -/

/-- No two context lines are followed by a line of no known kind. -/
def DiffQuiet (lines : List String) : Prop :=
  ∀ a b c, [a, b, c] <:+: lines → isContextLine a = true → isContextLine b = true →
    isContextLine c = true ∨ isDiffLine c = true

theorem diffQuiet_cons_iff : DiffQuiet (line :: lines) ↔
    (∀ b c, [b, c] <+: lines → isContextLine line = true → isContextLine b = true →
      isContextLine c = true ∨ isDiffLine c = true) ∧ DiffQuiet lines := by
  constructor
  · intro h
    refine ⟨fun b c hpre => h line b c (List.infix_cons_iff.2 (Or.inl ?_)), fun a b c hin =>
      h a b c (List.infix_cons_iff.2 (Or.inr hin))⟩
    exact List.cons_prefix_cons.2 ⟨rfl, hpre⟩
  · rintro ⟨hfirst, hrest⟩ a b c hin
    rcases List.infix_cons_iff.1 hin with hpre | hin
    · obtain ⟨rfl, hrest'⟩ := List.cons_prefix_cons.1 hpre
      exact hfirst b c hrest'
    · exact hrest a b c hin

theorem diffQuiet_nil : DiffQuiet [] := by
  intro a b c hin
  cases List.infix_nil.1 hin

/-- A line that is not context starts afresh. -/
theorem diffQuiet_cons_of_not_context (hline : isContextLine line = false) :
    DiffQuiet (line :: lines) ↔ DiffQuiet lines := by
  rw [diffQuiet_cons_iff]
  refine ⟨fun h => h.2, fun h => ⟨fun b c _ hcontext => ?_, h⟩⟩
  rw [hline] at hcontext
  cases hcontext

theorem diffQuiet_of_all (h : ∀ x ∈ lines, isContextLine x = true) : DiffQuiet lines := by
  intro a b c hin _ _
  exact Or.inl (h c (hin.subset (by simp)))

/-- Two context lines or more need a line of a diff after them. By induction on the run. -/
theorem diffQuiet_run_iff (hline : isContextLine line = false) :
    ∀ {run : List String} {c : String}, isContextLine c = true →
      (∀ x ∈ run, isContextLine x = true) →
        (DiffQuiet (c :: run ++ line :: lines) ↔
          (run = [] ∨ isDiffLine line = true) ∧ DiffQuiet lines)
  | [], c, _, _ => by
    show DiffQuiet (c :: line :: lines) ↔ _
    rw [diffQuiet_cons_iff, diffQuiet_cons_of_not_context hline]
    refine ⟨fun h => ⟨Or.inl rfl, h.2⟩, fun h => ⟨fun b d hpre _ hb => ?_, h.2⟩⟩
    rw [(List.cons_prefix_cons.1 hpre).1, hline] at hb
    cases hb
  | r :: run, c, hc, hrun => by
    obtain ⟨hr, hrun⟩ := List.forall_mem_cons.1 hrun
    have hrest := diffQuiet_run_iff hline hr hrun
    show DiffQuiet (c :: (r :: run ++ line :: lines)) ↔ _
    rw [diffQuiet_cons_iff, hrest]
    cases run with
    | nil =>
      constructor
      · rintro ⟨hfirst, -, hquiet⟩
        have hknown := hfirst r line (List.cons_prefix_cons.2 ⟨rfl, by simp⟩) hc hr
        rw [hline] at hknown
        exact ⟨Or.inr (hknown.resolve_left Bool.false_ne_true), hquiet⟩
      · rintro ⟨hknown, hquiet⟩
        refine ⟨fun b d hpre _ _ => Or.inr ?_, Or.inl rfl, hquiet⟩
        obtain ⟨-, hpre⟩ := List.cons_prefix_cons.1 hpre
        rw [(List.cons_prefix_cons.1 hpre).1]
        exact hknown.resolve_left (List.cons_ne_nil _ _)
    | cons t run =>
      constructor
      · rintro ⟨-, hknown, hquiet⟩
        exact ⟨Or.inr (hknown.resolve_left (List.cons_ne_nil _ _)), hquiet⟩
      · rintro ⟨hknown, hquiet⟩
        refine ⟨fun b d hpre _ _ => Or.inl ?_,
          Or.inr (hknown.resolve_left (List.cons_ne_nil _ _)), hquiet⟩
        obtain ⟨-, hpre⟩ := List.cons_prefix_cons.1 hpre
        rw [(List.cons_prefix_cons.1 hpre).1]
        exact hrun t List.mem_cons_self

/-- A line that is kept is not counted in a run that is left out. -/
theorem not_covers_of_ne {ps : List LinePiece} (hne : run ≠ []) (hline : line ∉ run) :
    ¬ Covers (.kept line :: ps) (run ++ lines) := by
  obtain ⟨r, rest, rfl⟩ := List.exists_cons_of_ne_nil hne
  intro h
  rw [List.cons_append, covers_kept_iff] at h
  rw [h.1] at hline
  exact hline List.mem_cons_self

/-- **What a diff's filter writes stands for its lines exactly when the lines are quiet.** Between
two lines of the diff the first context line is kept and the run after it left out. -/
theorem covers_gitDiffFrom_iff (lines : List String) :
    (Covers (gitDiffFrom false 0 lines) lines ↔ DiffQuiet lines) ∧
      ∀ (c : String) (run : List String), isContextLine c = true →
        (∀ x ∈ run, isContextLine x = true) →
          (Covers (gitDiffFrom true run.length lines) (run ++ lines) ↔
            DiffQuiet (c :: run ++ lines)) := by
  induction lines with
  | nil =>
    refine ⟨⟨fun _ => diffQuiet_nil, fun _ => .nil⟩, fun c run hc hrun => ?_⟩
    rw [List.append_nil, List.append_nil]
    exact ⟨fun _ => diffQuiet_of_all (List.forall_mem_cons.2 ⟨hc, hrun⟩), fun _ => covers_flush _ run⟩
  | cons line lines ih =>
    obtain ⟨ihfresh, ihheld⟩ := ih
    by_cases hdiff : isDiffLine line = true
    · have hcontext : isContextLine line = false := by
        unfold isContextLine
        rw [hdiff]
        rfl
      constructor
      · unfold gitDiffFrom
        rw [if_pos hdiff, diffQuiet_cons_of_not_context hcontext, ← ihfresh]
        exact covers_kept_iff.trans (and_iff_right rfl)
      · intro c run hc hrun
        unfold gitDiffFrom
        rw [if_pos hdiff, covers_flush_kept_iff, diffQuiet_run_iff hcontext hc hrun, ihfresh]
        exact ⟨fun h => ⟨Or.inr hdiff, h.2⟩, fun h => ⟨rfl, h.2⟩⟩
    · by_cases hspace : startsWith " " line = true
      · have hcontext : isContextLine line = true := by
          unfold isContextLine
          rw [Bool.not_eq_true] at hdiff
          rw [hdiff, hspace]
          rfl
        constructor
        · unfold gitDiffFrom
          rw [if_neg hdiff, if_pos hspace]
          have hheld := ihheld line [] hcontext (fun x hx => absurd hx List.not_mem_nil)
          exact (covers_kept_iff.trans (and_iff_right rfl)).trans hheld
        · intro c run hc hrun
          unfold gitDiffFrom
          rw [if_neg hdiff, if_pos hspace]
          have hrun' : ∀ x ∈ run ++ [line], isContextLine x = true := by
            intro x hx
            rcases List.mem_append.1 hx with hx | hx
            · exact hrun x hx
            · rw [List.mem_singleton.1 hx]
              exact hcontext
          have hheld := ihheld c (run ++ [line]) hc hrun'
          rw [List.length_append, List.append_assoc, ← List.cons_append, List.append_assoc] at hheld
          exact hheld
      · have hcontext : isContextLine line = false := by
          unfold isContextLine
          rw [Bool.not_eq_true] at hspace
          rw [hspace, Bool.and_false]
        constructor
        · unfold gitDiffFrom
          rw [if_neg hdiff, if_neg hspace, diffQuiet_cons_of_not_context hcontext, ← ihfresh]
          exact covers_kept_iff.trans (and_iff_right rfl)
        · intro c run hc hrun
          unfold gitDiffFrom
          rw [if_neg hdiff, if_neg hspace, diffQuiet_run_iff hcontext hc hrun]
          cases run with
          | nil =>
            rw [← ihfresh]
            exact (covers_kept_iff.trans (and_iff_right rfl)).trans
              ⟨fun h => ⟨Or.inl rfl, h⟩, fun h => h.2⟩
          | cons r run =>
            -- the line is written before the run is counted
            have hnot : line ∉ r :: run := by
              intro hmem
              rw [hrun line hmem] at hcontext
              cases hcontext
            constructor
            · intro h
              exact absurd h (not_covers_of_ne (List.cons_ne_nil r run) hnot)
            · rintro ⟨hknown, -⟩
              exact absurd (hknown.resolve_left (List.cons_ne_nil r run)) hdiff

/-! ## Untracked files -/

/-- A line of the listing of untracked files: a file, or an indented remark. -/
def inSection (line : String) : Bool := startsWith "\t" line || startsWith " " line

/-- In a listing of untracked files no indented remark comes after the sixth file. -/
def StatusQuiet (lines : List String) : Prop :=
  ∀ pre body remark post, lines = pre ++ untrackedHeader :: body ++ remark :: post →
    (∀ x ∈ body, inSection x = true) → startsWith " " remark = true →
      body.countP (startsWith "\t") ≤ 5

/-- The same of what is left of a listing after `count` files. -/
def SectionQuiet (count : ℕ) (lines : List String) : Prop :=
  ∀ body remark post, lines = body ++ remark :: post → (∀ x ∈ body, inSection x = true) →
    startsWith " " remark = true → count + body.countP (startsWith "\t") ≤ 5

theorem not_space_of_tab (h : startsWith "\t" line = true) : startsWith " " line = false := by
  unfold startsWith at h ⊢
  cases hlist : line.toList with
  | nil => rfl
  | cons c cs =>
    rw [hlist] at h
    have hc : '\t' = c := by simpa using h
    subst hc
    rfl

theorem ne_header_of_inSection (h : inSection line = true) : line ≠ untrackedHeader := by
  rintro rfl
  cases h

theorem statusQuiet_nil : StatusQuiet [] := by
  intro pre body remark post heq
  simp at heq

theorem statusQuiet_cons_of_ne (hne : line ≠ untrackedHeader) :
    StatusQuiet (line :: lines) ↔ StatusQuiet lines := by
  constructor
  · intro h pre body remark post heq
    exact h (line :: pre) body remark post (by rw [heq]; rfl)
  · intro h pre body remark post heq
    cases pre with
    | nil => exact absurd (List.cons.inj heq).1 hne
    | cons x pre => exact h pre body remark post (List.cons.inj heq).2

theorem statusQuiet_header :
    StatusQuiet (untrackedHeader :: lines) ↔ SectionQuiet 0 lines ∧ StatusQuiet lines := by
  constructor
  · intro h
    constructor
    · intro body remark post heq hbody hremark
      rw [Nat.zero_add]
      exact h [] body remark post (by rw [heq]; rfl) hbody hremark
    · intro pre body remark post heq
      exact h (untrackedHeader :: pre) body remark post (by rw [heq]; rfl)
  · rintro ⟨hsection, hrest⟩ pre body remark post heq hbody hremark
    cases pre with
    | nil =>
      have hle := hsection body remark post (List.cons.inj heq).2 hbody hremark
      omega
    | cons x pre => exact hrest pre body remark post (List.cons.inj heq).2 hbody hremark

theorem sectionQuiet_nil (count : ℕ) : SectionQuiet count [] := by
  intro body remark post heq
  simp at heq

theorem sectionQuiet_tab {count : ℕ} (htab : startsWith "\t" line = true) :
    SectionQuiet count (line :: lines) ↔ SectionQuiet (count + 1) lines := by
  constructor
  · intro h body remark post heq hbody hremark
    have hin : inSection line = true := by
      unfold inSection
      rw [htab]
      rfl
    have hle := h (line :: body) remark post (by rw [heq]; rfl)
      (List.forall_mem_cons.2 ⟨hin, hbody⟩) hremark
    rw [List.countP_cons_of_pos htab] at hle
    omega
  · intro h body remark post heq hbody hremark
    cases body with
    | nil =>
      rw [← (List.cons.inj heq).1, not_space_of_tab htab] at hremark
      cases hremark
    | cons x body =>
      obtain ⟨rfl, hlines⟩ := List.cons.inj heq
      have hle := h body remark post hlines (List.forall_mem_cons.1 hbody).2 hremark
      rw [List.countP_cons_of_pos htab]
      omega

theorem sectionQuiet_space {count : ℕ} (htab : startsWith "\t" line = false)
    (hspace : startsWith " " line = true) :
    SectionQuiet count (line :: lines) ↔ count ≤ 5 ∧ SectionQuiet count lines := by
  have hneg : ¬ startsWith "\t" line = true := by simp [htab]
  constructor
  · intro h
    refine ⟨h [] line lines rfl (fun x hx => absurd hx List.not_mem_nil) hspace, ?_⟩
    intro body remark post heq hbody hremark
    have hin : inSection line = true := by
      unfold inSection
      rw [hspace, Bool.or_true]
    have hle := h (line :: body) remark post (by rw [heq]; rfl)
      (List.forall_mem_cons.2 ⟨hin, hbody⟩) hremark
    rwa [List.countP_cons_of_neg hneg] at hle
  · rintro ⟨hcount, h⟩ body remark post heq hbody hremark
    cases body with
    | nil => exact hcount
    | cons x body =>
      obtain ⟨rfl, hlines⟩ := List.cons.inj heq
      rw [List.countP_cons_of_neg hneg]
      exact h body remark post hlines (List.forall_mem_cons.1 hbody).2 hremark

theorem sectionQuiet_other {count : ℕ} (hline : inSection line = false) :
    SectionQuiet count (line :: lines) := by
  intro body remark post heq hbody hremark
  cases body with
  | nil =>
    rw [← (List.cons.inj heq).1] at hremark
    unfold inSection at hline
    rw [hremark, Bool.or_true] at hline
    cases hline
  | cons x body =>
    rw [← (List.cons.inj heq).1] at hbody
    rw [hbody line List.mem_cons_self] at hline
    cases hline

theorem flushUntracked_eq (count : ℕ) :
    flushUntracked count = flush ("\t... (", " more untracked files)\n") (count - 5) := by
  unfold flushUntracked flush
  by_cases h : 5 < count
  · rw [if_pos h, if_pos (by omega)]
  · rw [if_neg h, if_neg (by omega)]

/-- What follows a line that is not of a listing, or ends one. -/
theorem gitStatus_rest_iff (line : String)
    (hfresh : Covers (gitStatusFrom false 0 lines) lines ↔ StatusQuiet lines)
    (hopen : Covers (gitStatusFrom true 0 lines) lines ↔ SectionQuiet 0 lines ∧ StatusQuiet lines) :
    Covers (if line = untrackedHeader then gitStatusFrom true 0 lines else gitStatusFrom false 0 lines)
      lines ↔ StatusQuiet (line :: lines) := by
  split
  · rename_i hheader
    rw [hheader, statusQuiet_header]
    exact hopen
  · rename_i hne
    rw [statusQuiet_cons_of_ne hne]
    exact hfresh

/-- **What the filter of a status writes stands for its lines exactly when its listings are
quiet.** In a listing, `run` is the files after the fifth. -/
theorem covers_gitStatusFrom_iff (lines : List String) :
    (Covers (gitStatusFrom false 0 lines) lines ↔ StatusQuiet lines) ∧
      ∀ (count : ℕ) (run : List String), run.length = count - 5 →
        (∀ x ∈ run, startsWith "\t" x = true) →
          (Covers (gitStatusFrom true count lines) (run ++ lines) ↔
            SectionQuiet count lines ∧ StatusQuiet lines) := by
  induction lines with
  | nil =>
    refine ⟨⟨fun _ => statusQuiet_nil, fun _ => .nil⟩, fun count run hrun _ => ?_⟩
    have hcovers : Covers (gitStatusFrom true count []) (run ++ []) := by
      unfold gitStatusFrom
      rw [if_pos rfl, flushUntracked_eq, ← hrun, List.append_nil]
      exact covers_flush _ run
    exact ⟨fun _ => ⟨sectionQuiet_nil count, statusQuiet_nil⟩, fun _ => hcovers⟩
  | cons line lines ih =>
    obtain ⟨ihfresh, ihopen⟩ := ih
    have hnone : ∀ x ∈ ([] : List String), startsWith "\t" x = true :=
      fun x hx => absurd hx List.not_mem_nil
    have hrest := gitStatus_rest_iff line ihfresh (ihopen 0 [] rfl hnone)
    constructor
    · unfold gitStatusFrom
      rw [← hrest]
      simp only [Bool.false_and, Bool.false_eq_true, if_false, List.nil_append]
      exact covers_kept_iff.trans (and_iff_right rfl)
    · intro count run hrun htabs
      unfold gitStatusFrom
      by_cases htab : startsWith "\t" line = true
      · have hne : line ≠ untrackedHeader := by
          rintro rfl
          cases htab
        rw [if_pos (by simp [htab]), sectionQuiet_tab htab, statusQuiet_cons_of_ne hne]
        by_cases hfew : count + 1 ≤ 5
        · have hnil : run = [] := List.length_eq_zero_iff.1 (by omega)
          subst hnil
          rw [if_pos hfew, ← ihopen (count + 1) [] (by rw [List.length_nil]; omega) hnone]
          exact covers_kept_iff.trans (and_iff_right rfl)
        · have hlen : (run ++ [line]).length = count + 1 - 5 := by
            rw [List.length_append, List.length_singleton]
            omega
          have htabs' : ∀ x ∈ run ++ [line], startsWith "\t" x = true := by
            intro x hx
            rcases List.mem_append.1 hx with hx | hx
            · exact htabs x hx
            · rw [List.mem_singleton.1 hx]
              exact htab
          rw [if_neg hfew, ← ihopen (count + 1) (run ++ [line]) hlen htabs', List.append_assoc]
          exact Iff.rfl
      · rw [if_neg (by simp [htab])]
        rw [Bool.not_eq_true] at htab
        by_cases hspace : startsWith " " line = true
        · have hin : inSection line = true := by
            unfold inSection
            rw [hspace, Bool.or_true]
          have hne := ne_header_of_inSection hin
          rw [sectionQuiet_space htab hspace, statusQuiet_cons_of_ne hne]
          simp only [hspace, Bool.not_true, Bool.and_false, Bool.false_eq_true, if_false, hne,
            List.nil_append]
          cases run with
          | nil =>
            have hfew : count ≤ 5 := by
              rw [List.length_nil] at hrun
              omega
            rw [and_assoc, ← ihopen count [] hrun hnone]
            exact (covers_kept_iff.trans (and_iff_right rfl)).trans (and_iff_right hfew).symm
          | cons r run =>
            -- the remark is written before the run is counted
            have hnot : line ∉ r :: run := by
              intro hmem
              rw [htabs line hmem] at htab
              cases htab
            constructor
            · intro h
              exact absurd h (not_covers_of_ne (List.cons_ne_nil r run) hnot)
            · rintro ⟨⟨hfew, -⟩, -⟩
              rw [List.length_cons] at hrun
              omega
        · rw [Bool.not_eq_true] at hspace
          have hin : inSection line = false := by
            unfold inSection
            rw [htab, hspace]
            rfl
          simp only [hspace, Bool.not_false, Bool.and_true, if_true, flushUntracked_eq]
          rw [← hrun, covers_flush_kept_iff, hrest]
          exact ⟨fun h => ⟨sectionQuiet_other hin, h.2⟩, fun h => ⟨rfl, h.2⟩⟩

/-! ## Builds -/

/-- What a run of crates has to be: long enough for a marker, or copies of the line it is written
as with a line after it. -/
def CratesKept (run : List String) (atEnd : Bool) : Prop :=
  run = [] ∨ 3 < run.length ∨ (atEnd = false ∧ ∀ x ∈ run, x = crateStub)

def BuildQuiet (lines : List String) : Prop := ForRuns isCrateLine CratesKept lines

/-- **What the filter of a build writes stands for its lines exactly when its runs of crates are
kept.** -/
theorem covers_buildOutputFrom_iff (lines : List String) :
    ∀ run : List String, (∀ x ∈ run, isCrateLine x = true) →
      (Covers (buildOutputFrom run.length lines) (run ++ lines) ↔ BuildQuiet (run ++ lines)) := by
  have hnil : ∀ b, CratesKept [] b := fun b => Or.inl rfl
  induction lines with
  | nil =>
    intro run hrun
    rw [List.append_nil]
    unfold BuildQuiet buildOutputFrom
    rw [forRuns_iff_of_all hrun]
    unfold CratesKept
    by_cases hmany : 3 < run.length
    · have hne : run ≠ [] := by
        rintro rfl
        cases hmany
      have hmarker := Covers.omitted crateWording run hne (fun p hp => by cases hp) .nil
      rw [List.append_nil] at hmarker
      rw [if_pos hmany]
      exact ⟨fun _ => Or.inr (Or.inl hmany), fun _ => hmarker⟩
    · rw [if_neg hmany]
      constructor
      · intro h
        cases h
        exact Or.inl rfl
      · rintro (rfl | hlong | ⟨hend, -⟩)
        · exact .nil
        · exact absurd hlong hmany
        · cases hend
  | cons line lines ih =>
    intro run hrun
    unfold buildOutputFrom
    by_cases hcrate : isCrateLine line = true
    · -- a line of the run joins it
      have hrun' : ∀ x ∈ run ++ [line], isCrateLine x = true := by
        intro x hx
        rcases List.mem_append.1 hx with hx | hx
        · exact hrun x hx
        · rw [List.mem_singleton.1 hx]
          exact hcrate
      have hnext := ih (run ++ [line]) hrun'
      rw [List.length_append, List.append_assoc] at hnext
      rw [if_pos hcrate]
      exact hnext
    · -- any other line ends it, and the rest starts with no run
      rw [if_neg hcrate]
      rw [Bool.not_eq_true] at hcrate
      have hrest := ih [] (fun x hx => absurd hx List.not_mem_nil)
      rw [List.nil_append] at hrest
      unfold BuildQuiet at hrest ⊢
      rw [forRuns_append_cons_iff hnil hrun hcrate, ← hrest]
      unfold CratesKept
      by_cases hmany : 3 < run.length
      · have hne : run ≠ [] := by
          rintro rfl
          cases hmany
        have hnext : ∀ p ∈ (Piece.kept line :: buildOutputFrom 0 lines : List LinePiece).head?,
            p.isKept = true := by
          intro p hp
          rw [← Option.some.inj hp]
          rfl
        rw [if_pos hmany, List.singleton_append, covers_omitted_iff hne hnext, covers_kept_iff]
        exact ⟨fun h => ⟨Or.inr (Or.inl hmany), h.2⟩, fun h => ⟨rfl, h.2⟩⟩
      · rw [if_neg hmany, covers_replicate_append_iff, covers_kept_iff]
        constructor
        · rintro ⟨hstub, -, h⟩
          exact ⟨Or.inr (Or.inr ⟨rfl, hstub⟩), h⟩
        · rintro ⟨hkept, h⟩
          refine ⟨?_, rfl, h⟩
          rcases hkept with rfl | hlong | ⟨-, hstub⟩
          · intro x hx
            cases hx
          · exact absurd hlong hmany
          · exact hstub

/-! ## Every filter -/

/-- The texts a filter counts right. -/
def Undisturbed (filter : Filter) (lines : List String) : Prop :=
  match filter with
  | .gitDiff => DiffQuiet lines
  | .gitStatus => StatusQuiet lines
  | .buildOutput => BuildQuiet lines
  | _ => True

theorem faithful_truncated {limit head tail : ℕ} {wording : ℕ → Wording} {content : String}
    (hlimit : head + tail ≤ limit) :
    StandsFor content (truncated limit head tail wording content) := by
  unfold truncated
  by_cases hshort : (textLines content).length ≤ limit
  · simp only [hshort, if_true, StandsFor]
  · simp only [hshort, if_false, StandsFor]
    exact covers_truncated wording hlimit (Nat.lt_of_not_le hshort)

/-- **A filter's markers are faithful exactly for the texts it counts right**, and then the lines
kept and the numbers of the markers add up to the lines of the text. -/
theorem omissions_faithful_iff (filter : Filter) (content : String) :
    (Faithful filter content ↔ Undisturbed filter (textLines content)) ∧
      (Undisturbed filter (textLines content) → ∀ ps, applyFilter filter content = .pieces ps →
        (ps.map Piece.size).sum = (textLines content).length) := by
  have hiff : Faithful filter content ↔ Undisturbed filter (textLines content) := by
    cases filter with
    | gitDiff => exact (covers_gitDiffFrom_iff _).1
    | gitStatus => exact (covers_gitStatusFrom_iff _).1
    | grep => exact iff_of_true (covers_grepFrom _ "" 0 [] (Or.inl rfl)) trivial
    | find => exact iff_of_true (covers_omitRuns _ _ _ []) trivial
    | ls =>
      have hlimit : 20 + 0 ≤ 25 := by decide
      exact iff_of_true (faithful_truncated hlimit : StandsFor content (ls content)) trivial
    | tree => exact iff_of_true (covers_omitRuns _ _ _ []) trivial
    | dedupLog => exact iff_of_true (covers_dedupLogFrom _ "" 0) trivial
    | smartTruncate =>
      have hlimit : 30 + 20 ≤ 60 := by decide
      exact iff_of_true (faithful_truncated hlimit : StandsFor content (smartTruncate content)) trivial
    | readNumbered =>
      have hlimit : 10 + 10 ≤ 30 := by decide
      exact iff_of_true (faithful_truncated hlimit : StandsFor content (readNumbered content)) trivial
    | searchList =>
      have hlimit : 12 + 0 ≤ 15 := by decide
      exact iff_of_true (faithful_truncated hlimit : StandsFor content (searchList content)) trivial
    | buildOutput =>
      exact covers_buildOutputFrom_iff _ [] (fun x hx => absurd hx List.not_mem_nil)
  refine ⟨hiff, fun hquiet ps hps => ?_⟩
  have hfaithful := hiff.2 hquiet
  unfold Faithful at hfaithful
  rw [hps] at hfaithful
  exact sum_size hfaithful

/-- **A build that ends with a crate loses its line**, and a diff's marker comes after a line that
follows the context it counts. -/
theorem lost_crate_line : ¬ Faithful .buildOutput "x\n   Compiling a v1\n" ∧
    ¬ Faithful .gitDiff " a\n b\nindex\n" := by
  constructor
  · have hpieces : applyFilter .buildOutput "x\n   Compiling a v1\n" = .pieces [.kept "x"] := by
      decide
    have hlines : textLines "x\n   Compiling a v1\n" = ["x", "   Compiling a v1"] := by decide
    unfold Faithful StandsFor
    rw [hpieces]
    simp only [hlines]
    intro h
    have hsum := sum_size h
    cases hsum
  · have hpieces : applyFilter .gitDiff " a\n b\nindex\n" =
        .pieces [.kept " a", .kept "index", .omitted diffWording 1] := by decide
    have hlines : textLines " a\n b\nindex\n" = [" a", " b", "index"] := by decide
    unfold Faithful StandsFor
    rw [hpieces]
    simp only [hlines]
    intro h
    have hsecond := (covers_kept_iff.1 (covers_kept_iff.1 h).2).1
    exact absurd hsecond (by decide)

end Routeplane.Rtk
