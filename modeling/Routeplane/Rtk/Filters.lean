import Routeplane.Lib.Omission
import Routeplane.Types.Text
import Routeplane.Types.Value

/-!
# Tool-result filters

A filter reads the output of a tool line by line and leaves out what a model does not need. Where it
leaves lines out it says how many. The filter for a text is picked by its first kilobyte, and what
the filter writes is taken only if it is shorter and not empty. A read of text that would panic in the
source is `none` here.

* `omitRuns`, `truncated`: the filters that leave out the lines of a kind, or the middle.
* `gitDiff`, `gitStatus`, `grep`, `dedupLog`, `buildOutput`: the others.
* `applyFilter`: the filter of a kind of output.
* `peekOf`, `detectFilter`: the prefix that is looked at, and the filter picked.
* `compress`: one text.
* `compressToolResults`: the tool messages of a request, with the bytes saved.
-/

namespace Routeplane.Rtk

open Omission

inductive Filter
  | gitDiff
  | gitStatus
  | grep
  | find
  | ls
  | tree
  | dedupLog
  | smartTruncate
  | readNumbered
  | searchList
  | buildOutput
  deriving DecidableEq, Repr

/-! ## Lines -/

/-- A line without the carriage return before its line feed. -/
def dropCr (line : List Char) : List Char :=
  if line.getLast? = some '\r' then line.dropLast else line

/-- The lines of `rest`, after `line` of the current one. -/
def linesFrom : List Char → List Char → List String
  | [], line => if line = [] then [] else [String.ofList line]
  | c :: rest, line =>
    if c = '\n' then String.ofList (dropCr line) :: linesFrom rest []
    else linesFrom rest (line ++ [c])

/-- `str::lines`. -/
def textLines (content : String) : List String := linesFrom content.toList []

/-- `str::starts_with`. -/
def startsWith (pre s : String) : Bool := pre.toList.isPrefixOf s.toList

/-- What a marker says before and after its number. -/
abbrev Wording := String × String

abbrev LinePiece := Piece String Wording

/-- A line and its line feed, or a marker with its number. -/
def pieceText : LinePiece → String
  | .kept line => line ++ "\n"
  | .omitted (before, after) n => before ++ toString n ++ after

inductive Output
  | unchanged
  | pieces (ps : List LinePiece)
  deriving DecidableEq

def Output.text (content : String) : Output → String
  | .unchanged => content
  | .pieces ps => String.join (ps.map pieceText)

/-! ## Filters -/

/-- Leave out the lines of a kind, `skipped` of them so far. -/
def omitRuns (skip : String → Bool) (wording : Wording) : ℕ → List String → List LinePiece
  | skipped, [] => flush wording skipped
  | skipped, line :: lines =>
    if skip line then omitRuns skip wording (skipped + 1) lines
    else flush wording skipped ++ .kept line :: omitRuns skip wording 0 lines

/-- More than three levels down. -/
def isDeepPath (line : String) : Bool := 3 < line.toList.count '/'

def find (content : String) : Output :=
  .pieces (omitRuns isDeepPath ("... (", " deeper paths omitted)\n") 0 (textLines content))

def treeIndent : List Char := [' ', '│', '├', '└', '─']

/-- More than four levels down, and not the summary. -/
def isDeepItem (line : String) : Bool :=
  4 < (line.toList.takeWhile fun c => treeIndent.contains c).length / 4 &&
    !containsText line "directories" && !containsText line "files"

def tree (content : String) : Output :=
  .pieces (omitRuns isDeepItem ("    ... (", " items pruned)\n") 0 (textLines content))

/-- Keep the first `head` and the last `tail` lines of more than `limit`. -/
def truncated (limit head tail : ℕ) (wording : ℕ → Wording) (content : String) : Output :=
  let lines := textLines content
  if lines.length ≤ limit then .unchanged
  else
    .pieces ((lines.take head).map .kept ++
      .omitted (wording lines.length) (lines.length - (head + tail)) ::
        (lines.drop (lines.length - tail)).map .kept)

def ls : String → Output := truncated 25 20 0 fun _ => ("... (", " more entries omitted)\n")

def smartTruncate : String → Output :=
  truncated 60 30 20 fun total =>
    ("\n... (", " lines omitted — " ++ toString total ++ " total lines)\n\n")

def readNumbered : String → Output := truncated 30 10 10 fun _ => ("  ... (", " lines omitted)\n")

def searchList : String → Output := truncated 15 12 0 fun _ => ("... (", " more results omitted)\n")

/-- A header or a changed line of a diff. -/
def isDiffLine (line : String) : Bool :=
  startsWith "diff --git" line || startsWith "+++" line || startsWith "---" line ||
    startsWith "@@" line || startsWith "+" line || startsWith "-" line

def isContextLine (line : String) : Bool := !isDiffLine line && startsWith " " line

def diffWording : Wording := ("  ... (", " context lines omitted)\n")

def gitDiffFrom : Bool → ℕ → List String → List LinePiece
  | _, skipped, [] => flush diffWording skipped
  | lastWasContext, skipped, line :: lines =>
    if isDiffLine line then
      flush diffWording skipped ++ .kept line :: gitDiffFrom false 0 lines
    else if startsWith " " line then
      if !lastWasContext then .kept line :: gitDiffFrom true skipped lines
      else gitDiffFrom lastWasContext (skipped + 1) lines
    else .kept line :: gitDiffFrom false skipped lines

def gitDiff (content : String) : Output := .pieces (gitDiffFrom false 0 (textLines content))

def untrackedHeader : String := "Untracked files:"

/-- The marker of the untracked files after the fifth. -/
def flushUntracked (count : ℕ) : List LinePiece :=
  if 5 < count then [.omitted ("\t... (", " more untracked files)\n") (count - 5)] else []

def gitStatusFrom : Bool → ℕ → List String → List LinePiece
  | inUntracked, count, [] => if inUntracked then flushUntracked count else []
  | inUntracked, count, line :: lines =>
    if inUntracked && startsWith "\t" line then
      (if count + 1 ≤ 5 then [.kept line] else []) ++ gitStatusFrom inUntracked (count + 1) lines
    else
      let ends := inUntracked && !startsWith " " line
      (if ends then flushUntracked count else []) ++ .kept line ::
        (if line = untrackedHeader then gitStatusFrom true 0 lines
         else if ends then gitStatusFrom false 0 lines
         else gitStatusFrom inUntracked count lines)

def gitStatus (content : String) : Output := .pieces (gitStatusFrom false 0 (textLines content))

/-- What is before the first colon. -/
def fileOf (line : String) : String := String.ofList (line.toList.takeWhile fun c => c ≠ ':')

def grepWording (file : String) : Wording := ("  ... (", " more matches in " ++ file ++ ")\n")

def grepFrom : String → ℕ → ℕ → List String → List LinePiece
  | currentFile, _, skipped, [] => flush (grepWording currentFile) skipped
  | currentFile, matchesInFile, skipped, line :: lines =>
    if fileOf line ≠ currentFile then
      flush (grepWording currentFile) skipped ++ .kept line :: grepFrom (fileOf line) 1 0 lines
    else if matchesInFile < 5 then
      .kept line :: grepFrom currentFile (matchesInFile + 1) skipped lines
    else grepFrom currentFile matchesInFile (skipped + 1) lines

def grep (content : String) : Output := .pieces (grepFrom "" 0 0 (textLines content))

/-- The copies of a line after its first, or their marker. -/
def flushRepeats (lastLine : String) (repeatCount : ℕ) : List LinePiece :=
  if 2 < repeatCount then [.omitted ("  ... (repeated ", " times)\n") repeatCount]
  else List.replicate repeatCount (.kept lastLine)

def dedupLogFrom : String → ℕ → List String → List LinePiece
  | lastLine, repeatCount, [] => flushRepeats lastLine repeatCount
  | lastLine, repeatCount, line :: lines =>
    if line = lastLine then dedupLogFrom lastLine (repeatCount + 1) lines
    else flushRepeats lastLine repeatCount ++ .kept line :: dedupLogFrom line 0 lines

def dedupLog (content : String) : Output := .pieces (dedupLogFrom "" 0 (textLines content))

def isCrateLine (line : String) : Bool :=
  startsWith "   Compiling " line || startsWith "   Downloading " line

def crateStub : String := "   Compiling ..."

def crateWording : Wording := ("   ... (", " crates compiled)\n")

def buildOutputFrom : ℕ → List String → List LinePiece
  | compiling, [] => if 3 < compiling then [.omitted crateWording compiling] else []
  | compiling, line :: lines =>
    if isCrateLine line then buildOutputFrom (compiling + 1) lines
    else
      (if 3 < compiling then [.omitted crateWording compiling]
       else List.replicate compiling (.kept crateStub)) ++ .kept line :: buildOutputFrom 0 lines

def buildOutput (content : String) : Output := .pieces (buildOutputFrom 0 (textLines content))

def applyFilter : Filter → String → Output
  | .gitDiff => gitDiff
  | .gitStatus => gitStatus
  | .grep => grep
  | .find => find
  | .ls => ls
  | .tree => tree
  | .dedupLog => dedupLog
  | .smartTruncate => smartTruncate
  | .readNumbered => readNumbered
  | .searchList => searchList
  | .buildOutput => buildOutput

/-! ## What is compressed -/

/-- The detection window. -/
def peekBytes : ℕ := 1024

/-- Output longer than this share of the input is not worth it. -/
def maxCompressionRatio : Float := 0.95

/-! ## Picking a filter -/

/-- `str::is_char_boundary`: the end, or not the middle of a character. -/
def isCharBoundary (content : String) (index : ℕ) : Bool :=
  String.Pos.Raw.isValid content ⟨index⟩

/-- `&content[..stop]`, which panics inside a character. -/
def sliceTo (content : String) (stop : ℕ) : Option String :=
  if h : String.Pos.Raw.IsValid content ⟨stop⟩ then some (content.sliceTo ⟨⟨stop⟩, h⟩).copy
  else none

/-- Walk back to a boundary; below zero `end -= 1` would overflow. -/
def floorCharBoundary (content : String) : ℕ → Option ℕ
  | 0 => if isCharBoundary content 0 then some 0 else none
  | stop + 1 =>
    if isCharBoundary content (stop + 1) then some (stop + 1) else floorCharBoundary content stop

def peekOf (content : String) : Option String :=
  if peekBytes < content.utf8ByteSize then
    (floorCharBoundary content peekBytes).bind (sliceTo content)
  else some content

/-- The lines that repeat the one before. -/
def repeats (lines : List String) : ℕ := (lines.zip lines.tail).countP fun (l, next) => l == next

def hasRepetitiveBlocks (peek : String) : Bool :=
  let lines := textLines peek
  10 ≤ lines.length && lines.length / 4 < repeats lines

/-- The filter by what is seen, the more specific ones first. -/
def filterFor (content peek : String) : Option Filter :=
  let lines := textLines peek
  if startsWith "diff --git" peek || (containsText peek "@@ " && containsText peek "+++") then
    some .gitDiff
  else if startsWith "On branch " peek || containsText peek "Changes not staged" then
    some .gitStatus
  else if containsText peek "warning[" || containsText peek "error[E" ||
      containsText peek "Compiling " then
    some .buildOutput
  else if (lines.take 5).any fun l => startsWith "   1\t" l || startsWith "     1\t" l then
    some .readNumbered
  else if (lines.take 5).any fun l => l.toList.contains ':' && containsText l " match" then
    some .grep
  else if startsWith "." peek ||
      (lines.take 10).all fun l => startsWith "./" l || startsWith "/" l then
    some .find
  else if containsText peek "├──" || containsText peek "└──" || containsText peek "│" then
    some .tree
  else if (lines.take 5).any fun l =>
      startsWith "total " l || startsWith "-rw" l || startsWith "drwx" l then
    some .ls
  else if 50 < lines.length && hasRepetitiveBlocks peek then some .dedupLog
  else if 60 ≤ (textLines content).length then some .smartTruncate
  else none

def detectFilter (content : String) : Option (Option Filter) := (peekOf content).map (filterFor content)

/-! ## One text -/

/-- Output that is empty, not shorter, or hardly shorter is dropped. -/
def worthIt (content compressed : String) : Bool :=
  !(compressed.isEmpty || decide (content.utf8ByteSize ≤ compressed.utf8ByteSize) ||
    decide (maxCompressionRatio < compressed.utf8ByteSize.toFloat / content.utf8ByteSize.toFloat))

def compress (content : String) : Option String :=
  if content.utf8ByteSize < 256 then some content
  else
    (detectFilter content).map fun
      | some filter =>
        let compressed := (applyFilter filter content).text content
        if worthIt content compressed then compressed else content
      | none => content

/-! ## A request -/

/-- `value[key] = new` on an object. -/
def setKey (key : String) (v new : Value) : Value :=
  match v with
  | .obj fs => .obj (Fields.insert fs key new)
  | v => v

/-- The field is this string. -/
def keyIs (key text : String) (v : Value) : Bool := (v.get key).bind Value.asStr == some text

/-- A string, compressed if that makes it shorter, and the bytes this saves. -/
def compressText (text : String) : Option (Option String × ℕ) :=
  (compress text).map fun compressed =>
    if compressed.utf8ByteSize < text.utf8ByteSize then
      (some compressed, text.utf8ByteSize - compressed.utf8ByteSize)
    else (none, 0)

def compressBlock (block : Value) : Option (Value × ℕ) :=
  if keyIs "type" "text" block then
    match (block.get "text").bind Value.asStr with
    | some text =>
      (compressText text).map fun
        | (some compressed, saved) => (setKey "text" block (.str compressed), saved)
        | (none, _) => (block, 0)
    | none => some (block, 0)
  else some (block, 0)

/-- Over the items of an array, with `saved` so far. -/
def compressEach (item : Value → Option (Value × ℕ)) :
    ℕ → List Value → Option (List Value × ℕ)
  | saved, [] => some ([], saved)
  | saved, v :: vs => do
    let (v', n) ← item v
    let (vs', total) ← compressEach item (saved + n) vs
    some (v' :: vs', total)

/-- A string, or an array of blocks. -/
def compressContent : Value → Option (Value × ℕ)
  | .str text =>
    (compressText text).map fun
      | (some compressed, saved) => (.str compressed, saved)
      | (none, _) => (.str text, 0)
  | .arr blocks =>
    (compressEach compressBlock 0 blocks).map fun (blocks', saved) => (.arr blocks', saved)
  | content => some (content, 0)

def compressMessage (msg : Value) : Option (Value × ℕ) :=
  if keyIs "role" "tool" msg then
    match msg.get "content" with
    | some content =>
      (compressContent content).map fun (content', saved) => (setKey "content" msg content', saved)
    | none => some (msg, 0)
  else some (msg, 0)

def compressToolResults (messagesJson : Value) : Option (Value × ℕ) :=
  match (messagesJson.get "messages").bind Value.asArray with
  | some messages =>
    (compressEach compressMessage 0 messages).map fun (messages', saved) =>
      (setKey "messages" messagesJson (.arr messages'), saved)
  | none => some (messagesJson, 0)

end Routeplane.Rtk
