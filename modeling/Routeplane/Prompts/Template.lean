import Routeplane.Types.Text

/-!
# Templates

A template is text with tags between braces: `name` substitutes a variable, `#name` and `^name`
open a section that is shown or hidden by it, `/name` closes one, `>reference` includes another
prompt. Three braces substitute too.

* `tokenize`: the tokens of a template, in order.
* `parseNodes`: the tree of the tokens up to the close of the section they are in.
* `parseTemplate`: the tree of a template, or why it is malformed.
-/

namespace Routeplane.Prompts

inductive Token
  | text (t : String)
  | var (name : String)
  | sectionOpen (name : String)
  | invertedOpen (name : String)
  | close (name : String)
  | partialRef (reference : String)
  deriving DecidableEq, Repr

/-- A node of a template's tree; `sect` is a section, shown if its variable is present, or if it is
not when inverted. -/
inductive Node
  | text (t : String)
  | var (name : String)
  | partialRef (reference : String)
  | sect (name : String) (inverted : Bool) (children : List Node)
  deriving Repr

/-! ## Tokens -/

/-- `str::find` of a piece: what is before it and what is after it. -/
def cutAt (piece : List Char) : List Char → Option (List Char × List Char)
  | [] => if piece.isPrefixOf [] then some ([], []) else none
  | c :: cs =>
    if piece.isPrefixOf (c :: cs) then some ([], (c :: cs).drop piece.length)
    else (cutAt piece cs).map fun parts => (c :: parts.1, parts.2)

theorem length_le_of_cutAt {piece : List Char} :
    ∀ {cs before after : List Char}, cutAt piece cs = some (before, after) →
      after.length ≤ cs.length
  | [], before, after, h => by
    unfold cutAt at h
    split at h
    · cases h
      exact Nat.le_refl 0
    · cases h
  | c :: cs, before, after, h => by
    unfold cutAt at h
    split at h
    · cases h
      rw [List.length_drop]
      omega
    · obtain ⟨parts, hcut, heq⟩ := Option.map_eq_some_iff.1 h
      cases heq
      have hrest : parts.2.length ≤ _ := length_le_of_cutAt hcut
      rw [List.length_cons]
      omega

def nonEmpty (s : String) : Except String String :=
  if s = "" then .error "empty mustache tag '\x7b\x7b\x7d\x7d'" else .ok s

/-- The token of what stands between the braces. -/
def classifyTag (inner : String) (triple : Bool) : Except String Token :=
  if triple then (nonEmpty inner).map .var
  else
    match dropHead? ">" inner with
    | some r => (nonEmpty (trimText r)).map .partialRef
    | none =>
      match dropHead? "#" inner with
      | some r => (nonEmpty (trimText r)).map .sectionOpen
      | none =>
        match dropHead? "^" inner with
        | some r => (nonEmpty (trimText r)).map .invertedOpen
        | none =>
          match dropHead? "/" inner with
          | some r => (nonEmpty (trimText r)).map .close
          | none =>
            match dropHead? "&" inner with
            | some r => (nonEmpty (trimText r)).map .var
            | none => (nonEmpty inner).map .var

/-- The text before a tag, if there is any. -/
def flushText (text : List Char) : List Token :=
  if text.isEmpty then [] else [.text (String.ofList text)]

/-- The tokens of `rest`, after the literal text `text`. -/
def tokenizeFrom (rest text : List Char) : Except String (List Token) :=
  match rest with
  | [] => .ok (flushText text)
  | '{' :: '{' :: '{' :: after =>
    match _hcut : cutAt ['}', '}', '}'] after with
    | none => .error "unclosed triple-stache '\x7b\x7b\x7b'"
    | some (inner, remaining) => do
      let token ← classifyTag (trimText (String.ofList inner)) true
      let tokens ← tokenizeFrom remaining []
      return flushText text ++ token :: tokens
  | '{' :: '{' :: after =>
    match _hcut : cutAt ['}', '}'] after with
    | none => .error "unclosed tag '\x7b\x7b'"
    | some (inner, remaining) => do
      let token ← classifyTag (trimText (String.ofList inner)) false
      let tokens ← tokenizeFrom remaining []
      return flushText text ++ token :: tokens
  | c :: rest => tokenizeFrom rest (text ++ [c])
termination_by rest.length
decreasing_by
  · have hle := length_le_of_cutAt _hcut
    simp only [List.length_cons]
    omega
  · have hle := length_le_of_cutAt _hcut
    simp only [List.length_cons]
    omega
  · exact Nat.lt_succ_self _

def tokenize (tpl : String) : Except String (List Token) := tokenizeFrom tpl.toList []

/-! ## The tree -/

/-- What is left of some tokens. -/
abbrev Left (tokens : List Token) := {rest : List Token // rest.length ≤ tokens.length}

theorem Left.length_le {tokens : List Token} (token : Token) (rest : Left tokens) :
    rest.1.length ≤ (token :: tokens).length := Nat.le_succ_of_le rest.2

def Left.skip {tokens : List Token} (token : Token) (rest : Left tokens) : Left (token :: tokens) :=
  ⟨rest.1, rest.length_le token⟩

theorem Left.trans_length_le {tokens : List Token} (token : Token) (rest : Left tokens)
    (rest' : Left rest.1) : rest'.1.length ≤ (token :: tokens).length :=
  rest'.2.trans (rest.length_le token)

def Left.skipAll {tokens : List Token} (token : Token) (rest : Left tokens) (rest' : Left rest.1) :
    Left (token :: tokens) := ⟨rest'.1, rest.trans_length_le token rest'⟩

def Left.none (tokens : List Token) : Left tokens := ⟨[], Nat.zero_le _⟩

def Left.all (tokens : List Token) : Left tokens := ⟨tokens, Nat.le_refl _⟩

/-- The nodes up to the close of the section `close`, or up to the end outside of one. -/
def parseNodes (close : Option String) (tokens : List Token) :
    Except String (List Node × Left tokens) :=
  match tokens with
  | [] =>
    match close with
    | some expected => .error ("unclosed section \x7b\x7b#" ++ expected ++ "\x7d\x7d")
    | none => .ok ([], .none [])
  | .text t :: tokens => do
    let (nodes, rest) ← parseNodes close tokens
    return (.text t :: nodes, rest.skip _)
  | .var n :: tokens => do
    let (nodes, rest) ← parseNodes close tokens
    return (.var n :: nodes, rest.skip _)
  | .partialRef r :: tokens => do
    let (nodes, rest) ← parseNodes close tokens
    return (.partialRef r :: nodes, rest.skip _)
  | .sectionOpen name :: tokens => do
    let (children, rest) ← parseNodes (some name) tokens
    let (nodes, rest') ← parseNodes close rest.1
    return (.sect name false children :: nodes, rest.skipAll _ rest')
  | .invertedOpen name :: tokens => do
    let (children, rest) ← parseNodes (some name) tokens
    let (nodes, rest') ← parseNodes close rest.1
    return (.sect name true children :: nodes, rest.skipAll _ rest')
  | .close n :: tokens =>
    match close with
    | some expected =>
      if expected = n then .ok ([], (Left.all tokens).skip _)
      else .error ("mismatched section close: expected \x7b\x7b/" ++ expected ++
        "\x7d\x7d got \x7b\x7b/" ++ n ++ "\x7d\x7d")
    | none => .error ("unexpected section close \x7b\x7b/" ++ n ++ "\x7d\x7d")
termination_by tokens.length
decreasing_by
  · exact Nat.lt_succ_self _
  · exact Nat.lt_succ_self _
  · exact Nat.lt_succ_self _
  · exact Nat.lt_succ_self _
  · exact Nat.lt_succ_of_le rest.2
  · exact Nat.lt_succ_self _
  · exact Nat.lt_succ_of_le rest.2

def parseTemplate (tpl : String) : Except String (List Node) := do
  let tokens ← tokenize tpl
  let (nodes, _) ← parseNodes none tokens
  return nodes

end Routeplane.Prompts
