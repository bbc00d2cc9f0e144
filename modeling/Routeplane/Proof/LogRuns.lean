import Routeplane.Lib.RunLength
import Routeplane.Rtk.Filters

/-!
# A deduplicated log is a run-length code

The filter of repetitive logs writes the line of a run once and the others in full, or as a marker when
there are more than two. Before the first line it takes the empty line for the last one, so a log that
begins with three or more blank lines begins with a marker and no line. A marker is a line as any
other, and a log that has one of its own is not read back.

* `FollowsRunLaw`: each maximal run of the log is written so. `decodeLog`: the markers read back.
* `dedupLog_text`: what is written, as a code of the runs after the leading blank lines.
* `log_runs_iff`: the law holds and the log is read back, up to the two exceptions.
* `blank_log_marker`: three blank lines.
-/

namespace Routeplane.Rtk

open RunLength

variable {content : String} {lines rest : List String} {line : String} {n : ℕ}

/-! ## Lines and markers -/

/-- Each line with its line feed. -/
def unlines (lines : List String) : String := String.join (lines.map fun line => line ++ "\n")

/-- The lines of `rest`, after `line` of the current one; every line has its line feed. -/
def splitLinesFrom : List Char → List Char → List String
  | [], line => if line = [] then [] else [String.ofList line]
  | c :: rest, line =>
    if c = '\n' then String.ofList line :: splitLinesFrom rest []
    else splitLinesFrom rest (line ++ [c])

def splitLines (text : String) : List String := splitLinesFrom text.toList []

/-- The marker of `n` further copies of the line before it. -/
def repeatMarker (n : ℕ) : String := "  ... (repeated " ++ toString n ++ " times)"

/-- The number of a marker the filter may have written. -/
def readMarker (line : String) : Option ℕ :=
  let digits := (line.toList.drop "  ... (repeated ".length).takeWhile Char.isDigit
  let n := Nat.ofDigitChars 10 digits 0
  if 2 < n ∧ line = repeatMarker n then some n else none

/-- The log a text was made of: a marker repeats the line before it. -/
def decodeLog (text : String) : List String := decode readMarker "" (splitLines text)

/-- **The law**: each maximal run of equal lines is its line, followed by the other copies when there
are at most two, and by their marker otherwise. -/
def FollowsRunLaw (content : String) : Prop :=
  ∃ rs, IsRuns rs (textLines content) ∧
    (dedupLog content).text content = unlines (encode 2 repeatMarker rs)

theorem unlines_cons (line : String) (lines : List String) :
    unlines (line :: lines) = line ++ "\n" ++ unlines lines := by
  unfold unlines
  rw [List.map_cons, String.join_cons]

theorem unlines_append (lines rest : List String) :
    unlines (lines ++ rest) = unlines lines ++ unlines rest := by
  unfold unlines
  rw [List.map_append, String.join_append]

theorem splitLinesFrom_line {cs : List Char} (h : '\n' ∉ cs) (rest line : List Char) :
    splitLinesFrom (cs ++ '\n' :: rest) line =
      String.ofList (line ++ cs) :: splitLinesFrom rest [] := by
  induction cs generalizing line with
  | nil =>
    rw [List.append_nil]
    exact if_pos rfl
  | cons c cs ih =>
    have hc : c ≠ '\n' := fun heq => h (heq ▸ List.mem_cons_self)
    have hcs : '\n' ∉ cs := fun hmem => h (List.mem_cons_of_mem _ hmem)
    have hstep : splitLinesFrom (c :: (cs ++ '\n' :: rest)) line =
        splitLinesFrom (cs ++ '\n' :: rest) (line ++ [c]) := if_neg hc
    rw [List.cons_append, hstep, ih hcs, List.append_assoc]
    rfl

/-- **Lines without line feeds are read back.** -/
theorem splitLines_unlines (h : ∀ line ∈ lines, '\n' ∉ line.toList) :
    splitLines (unlines lines) = lines := by
  induction lines with
  | nil => rfl
  | cons line lines ih =>
    have hrest := ih fun line hline => h line (List.mem_cons_of_mem _ hline)
    unfold splitLines at hrest ⊢
    have hchars : (unlines (line :: lines)).toList =
        line.toList ++ '\n' :: (unlines lines).toList := by
      rw [unlines_cons, String.toList_append, String.toList_append, List.append_assoc]
      rfl
    rw [hchars, splitLinesFrom_line (h line List.mem_cons_self), hrest, List.nil_append,
      String.ofList_toList]

/-- A line of a text has no line feed, by induction on the text. -/
theorem not_mem_of_mem_linesFrom {cs current : List Char} (hcurrent : '\n' ∉ current)
    (h : line ∈ linesFrom cs current) : '\n' ∉ line.toList := by
  induction cs generalizing current with
  | nil =>
    unfold linesFrom at h
    split at h
    · exact absurd h List.not_mem_nil
    · rw [List.mem_singleton.1 h, String.toList_ofList]
      exact hcurrent
  | cons c cs ih =>
    unfold linesFrom at h
    split at h
    · rcases List.mem_cons.1 h with rfl | h
      · rw [String.toList_ofList]
        intro hmem
        unfold dropCr at hmem
        split at hmem
        · exact hcurrent (List.dropLast_subset _ hmem)
        · exact hcurrent hmem
      · exact ih List.not_mem_nil h
    · rename_i hc
      refine ih ?_ h
      intro hmem
      rcases List.mem_append.1 hmem with hmem | hmem
      · exact hcurrent hmem
      · exact hc (List.mem_singleton.1 hmem).symm

theorem not_mem_of_mem_textLines (h : line ∈ textLines content) : '\n' ∉ line.toList :=
  not_mem_of_mem_linesFrom List.not_mem_nil h

theorem repeatMarker_toList (n : ℕ) : (repeatMarker n).toList =
    "  ... (repeated ".toList ++ (Nat.toDigits 10 n ++ " times)".toList) := by
  unfold repeatMarker
  rw [String.toList_append, String.toList_append, List.append_assoc]
  show _ ++ ((Nat.repr n).toList ++ _) = _
  rw [Nat.toList_repr]

theorem isDigit_of_mem {c : Char} (h : c ∈ Nat.toDigits 10 n) : c.isDigit = true :=
  Nat.isDigit_of_mem_toDigits (by omega) (by omega) h

theorem not_mem_repeatMarker (n : ℕ) : '\n' ∉ (repeatMarker n).toList := by
  rw [repeatMarker_toList]
  intro h
  rcases List.mem_append.1 h with h | h
  · revert h
    decide
  rcases List.mem_append.1 h with h | h
  · exact absurd (isDigit_of_mem h) (by decide)
  · revert h
    decide

theorem readMarker_repeatMarker (h : 2 < n) : readMarker (repeatMarker n) = some n := by
  have hdigits : ((repeatMarker n).toList.drop "  ... (repeated ".length).takeWhile Char.isDigit =
      Nat.toDigits 10 n := by
    have hlength : "  ... (repeated ".length = "  ... (repeated ".toList.length := rfl
    rw [repeatMarker_toList, hlength, List.drop_left,
      List.takeWhile_append_of_pos fun c hc => isDigit_of_mem hc]
    exact List.append_nil _
  unfold readMarker
  dsimp only
  rw [hdigits, Nat.ofDigitChars_ten_toDigits]
  exact if_pos ⟨h, rfl⟩

theorem readMarker_eq_none (h : ∀ n, 2 < n → line ≠ repeatMarker n) : readMarker line = none := by
  unfold readMarker
  exact if_neg fun hread => h _ hread.1 hread.2

/-! ## What is written -/

/-- The copies of a line that were counted after the line itself. -/
def repeatLines (line : String) (repeatCount : ℕ) : List String :=
  if 2 < repeatCount then [repeatMarker repeatCount] else List.replicate repeatCount line

theorem flushRepeats_text (line : String) (repeatCount : ℕ) :
    String.join ((flushRepeats line repeatCount).map pieceText) =
      unlines (repeatLines line repeatCount) := by
  unfold flushRepeats repeatLines unlines
  split
  · have hmarker : pieceText (.omitted ("  ... (repeated ", " times)\n") repeatCount) =
        repeatMarker repeatCount ++ "\n" := by
      have hend : " times)\n" = " times)" ++ "\n" := rfl
      unfold pieceText repeatMarker
      dsimp only
      rw [hend, ← String.append_assoc]
    rw [List.map_singleton, List.map_singleton, hmarker]
  · rw [List.map_replicate, List.map_replicate]
    rfl

theorem encodeRun_eq (line : String) (n : ℕ) :
    encodeRun 2 repeatMarker (line, n + 1) = line :: repeatLines line n := by
  unfold encodeRun repeatLines
  by_cases h : n ≤ 2
  · simp only [Nat.add_sub_cancel, if_pos h, if_neg (Nat.not_lt.2 h)]
  · simp only [Nat.add_sub_cancel, if_neg h, if_pos (Nat.lt_of_not_le h)]

/-- What follows a line that is written, by induction on the lines: `n` copies of it are counted. -/
theorem dedupLogFrom_text (line : String) (n : ℕ) (lines : List String) :
    line ++ "\n" ++ String.join ((dedupLogFrom line n lines).map pieceText) =
      unlines (encode 2 repeatMarker (runsFrom line n lines)) := by
  induction lines generalizing line n with
  | nil =>
    have hcode : encode 2 repeatMarker (runsFrom line n []) = line :: repeatLines line n :=
      (List.append_nil _).trans (encodeRun_eq line n)
    have hpieces : dedupLogFrom line n [] = flushRepeats line n := rfl
    rw [hcode, unlines_cons, hpieces, flushRepeats_text]
  | cons next lines ih =>
    unfold dedupLogFrom runsFrom
    split
    · exact ih line (n + 1)
    · have hcode : encode 2 repeatMarker ((line, n + 1) :: runsFrom next 0 lines) =
          line :: (repeatLines line n ++ encode 2 repeatMarker (runsFrom next 0 lines)) := by
        show encodeRun 2 repeatMarker (line, n + 1) ++ _ = _
        rw [encodeRun_eq]
        rfl
      have hnext : pieceText (.kept next) = next ++ "\n" := rfl
      rw [hcode, unlines_cons, unlines_append, ← ih next 0, List.map_append, String.join_append,
        flushRepeats_text, List.map_cons, String.join_cons, hnext]

/-- The blank lines a log begins with are counted as copies of a line before it. -/
theorem dedupLogFrom_blank (k : ℕ) (n : ℕ) (rest : List String) :
    dedupLogFrom "" n (List.replicate k "" ++ rest) = dedupLogFrom "" (n + k) rest := by
  induction k generalizing n with
  | zero => rfl
  | succ k ih =>
    show (if "" = "" then dedupLogFrom "" (n + 1) (List.replicate k "" ++ rest) else _) = _
    rw [if_pos rfl, ih, Nat.add_right_comm, Nat.add_assoc]

/-- **What is written**: the leading blank lines, and a code of the runs after them. -/
theorem dedupLog_text {k : ℕ} (hlines : textLines content = List.replicate k "" ++ rest)
    (hrest : rest.head? ≠ some "") :
    (dedupLog content).text content =
      unlines (repeatLines "" k ++ encode 2 repeatMarker (runs rest)) := by
  show String.join ((dedupLogFrom "" 0 (textLines content)).map pieceText) = _
  rw [hlines, dedupLogFrom_blank, Nat.zero_add, unlines_append, ← flushRepeats_text]
  cases rest with
  | nil =>
    have hnil : unlines (encode 2 repeatMarker (runs ([] : List String))) = "" := rfl
    rw [hnil, String.append_empty]
    rfl
  | cons line rest =>
    have hline : line ≠ "" := fun heq => hrest (congrArg some heq)
    have hpieces : dedupLogFrom "" k (line :: rest) =
        flushRepeats "" k ++ .kept line :: dedupLogFrom line 0 rest := if_neg hline
    have hkept : pieceText (.kept line) = line ++ "\n" := rfl
    rw [hpieces, List.map_append, String.join_append, List.map_cons, String.join_cons, hkept,
      dedupLogFrom_text]
    rfl

/-! ## The law -/

/-- The blank lines a list of lines begins with. -/
theorem exists_leading (lines : List String) :
    ∃ k rest, lines = List.replicate k "" ++ rest ∧ rest.head? ≠ some "" := by
  induction lines with
  | nil => exact ⟨0, [], rfl, nofun⟩
  | cons line lines ih =>
    by_cases hline : line = ""
    · obtain ⟨k, rest, heq, hrest⟩ := ih
      refine ⟨k + 1, rest, ?_, hrest⟩
      rw [hline, heq]
      rfl
    · exact ⟨0, line :: lines, rfl, fun h => hline (Option.some.inj h)⟩

theorem blanks_prefix_iff {k : ℕ} (hrest : rest.head? ≠ some "") :
    ["", "", ""] <+: List.replicate k "" ++ rest ↔ 3 ≤ k := by
  constructor
  · intro h
    by_contra hk
    have hcases : k = 0 ∨ k = 1 ∨ k = 2 := by omega
    cases rest with
    | nil =>
      have hle := h.length_le
      rw [List.append_nil, List.length_replicate] at hle
      exact hk hle
    | cons line rest =>
      have hline : line ≠ "" := fun heq => hrest (congrArg some heq)
      rcases hcases with rfl | rfl | rfl <;> simp [Ne.symm hline] at h
  · intro hk
    obtain ⟨j, rfl⟩ : ∃ j, k = 3 + j := ⟨k - 3, by omega⟩
    rw [List.replicate_add, List.append_assoc]
    exact List.prefix_append _ _

theorem unlines_inj {lines lines' : List String} (h : ∀ line ∈ lines, '\n' ∉ line.toList)
    (h' : ∀ line ∈ lines', '\n' ∉ line.toList) (heq : unlines lines = unlines lines') :
    lines = lines' := by
  rw [← splitLines_unlines h, heq, splitLines_unlines h']

/-- A code has the lines of its runs and markers. -/
theorem not_mem_encode {rs : List (String × ℕ)} (h : ∀ r ∈ rs, '\n' ∉ r.1.toList) :
    ∀ line ∈ encode 2 repeatMarker rs, '\n' ∉ line.toList := by
  intro line hline
  obtain ⟨r, hr, hline⟩ := List.mem_flatMap.1 hline
  rcases List.mem_cons.1 hline with rfl | hline
  · exact h r hr
  · split at hline
    · rw [List.eq_of_mem_replicate hline]
      exact h r hr
    · rw [List.mem_singleton.1 hline]
      exact not_mem_repeatMarker _

theorem mem_of_isRuns {rs : List (String × ℕ)} (h : IsRuns rs lines) {r : String × ℕ} (hr : r ∈ rs) :
    r.1 ∈ lines := by
  rw [← h.expand]
  exact List.mem_flatMap.2 ⟨r, hr, List.mem_replicate.2 ⟨Nat.pos_iff_ne_zero.1 (h.pos r hr), rfl⟩⟩

/-- **The law holds and the markers are read back** for exactly the logs that begin with no more than
two blank lines and have no line that is a marker itself. -/
theorem log_runs_iff (content : String) :
    FollowsRunLaw content ∧ decodeLog ((dedupLog content).text content) = textLines content ↔
      ¬["", "", ""] <+: textLines content ∧ ∀ n, 2 < n → repeatMarker n ∉ textLines content := by
  obtain ⟨k, rest, hlines, hrest⟩ := exists_leading (textLines content)
  have htext := dedupLog_text hlines hrest
  have hfree : ∀ rs, IsRuns rs (textLines content) → ∀ r ∈ rs, '\n' ∉ r.1.toList :=
    fun rs hrs r hr => not_mem_of_mem_textLines (mem_of_isRuns hrs hr)
  have hblanks : ["", "", ""] <+: textLines content ↔ 3 ≤ k := by
    rw [hlines]
    exact blanks_prefix_iff hrest
  rw [hblanks]
  constructor
  · rintro ⟨⟨rs, hrs, hlaw⟩, hread⟩
    constructor
    · -- the law starts with the blank line, the code with the marker
      intro hk
      obtain ⟨j, rfl⟩ : ∃ j, k = j + 1 := ⟨k - 1, by omega⟩
      have hruns : rs = ("", j + 1) :: runs rest := by
        rw [hrs.eq_runs, hlines, runs_replicate_append hrest]
      have hcode : repeatLines "" (j + 1) = [repeatMarker (j + 1)] := if_pos hk
      have hrestRuns : ∀ r ∈ runs rest, '\n' ∉ r.1.toList := fun r hr =>
        hfree rs hrs r (hruns ▸ List.mem_cons_of_mem _ hr)
      rw [hlaw, hcode] at htext
      have heq := unlines_inj (not_mem_encode (hfree rs hrs)) (fun line hline => by
        rcases List.mem_append.1 hline with hline | hline
        · rw [List.mem_singleton.1 hline]
          exact not_mem_repeatMarker _
        · exact not_mem_encode hrestRuns line hline) htext
      rw [hruns] at heq
      have hhead : "" = repeatMarker (j + 1) := (List.cons.inj heq).1
      have hchars := congrArg String.toList hhead
      rw [repeatMarker_toList] at hchars
      cases hchars
    · intro n hn hmem
      rw [← hread] at hmem
      have hnone := read_of_mem_decode (by decide) hmem
      rw [readMarker_repeatMarker hn] at hnone
      cases hnone
  · rintro ⟨hk, hmarkers⟩
    have hrs := isRuns_runs (textLines content)
    have hplain : ∀ r ∈ runs (textLines content), readMarker r.1 = none := fun r hr =>
      readMarker_eq_none fun n hn heq => hmarkers n hn (heq ▸ mem_of_isRuns hrs hr)
    -- up to two blank lines are written in full either way
    have hcode : repeatLines "" k ++ encode 2 repeatMarker (runs rest) =
        encode 2 repeatMarker (runs (textLines content)) := by
      rw [hlines]
      cases k with
      | zero => rfl
      | succ j =>
        have hj : ¬2 < j + 1 := by omega
        have hj' : ¬2 < j := by omega
        have hfirst : encodeRun 2 repeatMarker ("", j + 1) = List.replicate (j + 1) "" := by
          rw [encodeRun_eq, repeatLines, if_neg hj']
          rfl
        rw [runs_replicate_append hrest, repeatLines, if_neg hj, ← hfirst]
        rfl
    rw [hcode] at htext
    refine ⟨⟨_, hrs, htext⟩, ?_⟩
    unfold decodeLog
    rw [htext, splitLines_unlines (not_mem_encode (hfree _ hrs)),
      decode_encode (fun n hn => readMarker_repeatMarker hn) hplain hrs.pos]
    exact hrs.expand

/-- Three blank lines are written as a marker with no line before it. -/
theorem blank_log_marker :
    (dedupLog "\n\n\n").text "\n\n\n" = "  ... (repeated 3 times)\n" ∧
      ¬(FollowsRunLaw "\n\n\n" ∧
        decodeLog ((dedupLog "\n\n\n").text "\n\n\n") = textLines "\n\n\n") := by
  have hlines : textLines "\n\n\n" = ["", "", ""] := by decide
  have htext : (dedupLog "\n\n\n").text "\n\n\n" = "  ... (repeated 3 times)\n" := by decide
  refine ⟨htext, ?_⟩
  rintro ⟨⟨rs, hrs, hlaw⟩, -⟩
  have hruns : rs = [("", 3)] := by
    rw [hrs.eq_runs, hlines]
    rfl
  rw [htext, hruns] at hlaw
  revert hlaw
  decide

end Routeplane.Rtk
