import Routeplane.Lib.Fallible
import Routeplane.Prompts.Template

/-!
# The tree of a template's tokens

Reading a tree takes the tokens that the tree has when it is written down again, up to the
close of the section it is in. Those are the sequences whose sections open and close in turn.

* `parses_leaf`, `parses_open`, `parses_close`: what one token is read as.
* `parses_iff`: tokens parse to the tree they are the tokens of.
* `balanced_iff`: they are those of a tree if the sections are nested.
-/

namespace Routeplane.Prompts

open Fallible

/-! ## The tokens of a tree -/

def openToken (name : String) (inverted : Bool) : Token :=
  if inverted then .invertedOpen name else .sectionOpen name

mutual

/-- The tokens a node is read from. -/
def Node.tokens : Node → List Token
  | .text t => [.text t]
  | .var name => [.var name]
  | .partialRef reference => [.partialRef reference]
  | .sect name inverted children => openToken name inverted :: (tokensOf children ++ [.close name])

def tokensOf : List Node → List Token
  | [] => []
  | node :: nodes => node.tokens ++ tokensOf nodes

end

/-- Opens and closes are nested, with the names of the sections open so far, the innermost first. -/
def Balanced : List String → List Token → Prop
  | [], [] => True
  | _ :: _, [] => False
  | opened, .sectionOpen name :: tokens => Balanced (name :: opened) tokens
  | opened, .invertedOpen name :: tokens => Balanced (name :: opened) tokens
  | [], .close _ :: _ => False
  | expected :: opened, .close name :: tokens => expected = name ∧ Balanced opened tokens
  | opened, .text _ :: tokens => Balanced opened tokens
  | opened, .var _ :: tokens => Balanced opened tokens
  | opened, .partialRef _ :: tokens => Balanced opened tokens

section Tree

variable {close : Option String} {tokens rest : List Token} {nodes : List Node} {name : String}

/-- The close a section ends with; outside of one there is none. -/
def closeTokens (close : Option String) : List Token := (close.map Token.close).toList

/-- The tokens parse to the nodes, and the rest is left. -/
def Parses (close : Option String) (tokens : List Token) (nodes : List Node) (rest : List Token) :
    Prop :=
  ∃ left : Left tokens, parseNodes close tokens = .ok (nodes, left) ∧ left.1 = rest

/-- The node of a token that is one by itself. -/
def leafOf : Token → Option Node
  | .text t => some (.text t)
  | .var name => some (.var name)
  | .partialRef reference => some (.partialRef reference)
  | .sectionOpen _ | .invertedOpen _ | .close _ => none

-- The equations of these are derived here once, and not by each lemma below.
attribute [local simp] parseNodes tokensOf Node.tokens closeTokens Balanced

theorem parses_nil : Parses close [] nodes rest ↔ close = none ∧ nodes = [] ∧ rest = [] := by
  cases close with
  | none =>
    constructor
    · rintro ⟨left, h, rfl⟩
      rw [parseNodes] at h
      cases h
      exact ⟨rfl, rfl, rfl⟩
    · rintro ⟨-, rfl, rfl⟩
      exact ⟨.none [], by rw [parseNodes], rfl⟩
  | some expected =>
    refine iff_of_false ?_ ?_
    · rintro ⟨left, h, -⟩
      rw [parseNodes] at h
      cases h
    · rintro ⟨h, -⟩
      cases h

theorem parses_leaf {token : Token} {node : Node} (hleaf : leafOf token = some node) :
    Parses close (token :: tokens) nodes rest ↔
      ∃ nodes', nodes = node :: nodes' ∧ Parses close tokens nodes' rest := by
  have hstep : parseNodes close (token :: tokens) =
      parseNodes close tokens >>= fun r => .ok (node :: r.1, r.2.skip token) := by
    cases token <;> cases hleaf <;> rw [parseNodes] <;> rfl
  constructor
  · rintro ⟨left, h, rfl⟩
    rw [hstep] at h
    obtain ⟨⟨nodes', left'⟩, hrec, h⟩ := bind_eq_ok h
    cases h
    exact ⟨nodes', rfl, left', hrec, rfl⟩
  · rintro ⟨nodes', rfl, left, hrec, rfl⟩
    exact ⟨left.skip token, by rw [hstep, hrec]; rfl, rfl⟩

theorem parses_open {inverted : Bool} :
    Parses close (openToken name inverted :: tokens) nodes rest ↔
      ∃ children rest' nodes', nodes = .sect name inverted children :: nodes' ∧
        Parses (some name) tokens children rest' ∧ Parses close rest' nodes' rest := by
  have hstep : parseNodes close (openToken name inverted :: tokens) =
      parseNodes (some name) tokens >>= fun c => parseNodes close c.2.1 >>= fun r =>
        .ok (.sect name inverted c.1 :: r.1, c.2.skipAll _ r.2) := by
    cases inverted
    · change parseNodes close (.sectionOpen name :: tokens) = _
      rw [parseNodes]
      rfl
    · change parseNodes close (.invertedOpen name :: tokens) = _
      rw [parseNodes]
      rfl
  constructor
  · rintro ⟨left, h, rfl⟩
    rw [hstep] at h
    obtain ⟨⟨children, left₁⟩, hchildren, h⟩ := bind_eq_ok h
    obtain ⟨⟨nodes', left₂⟩, hnodes, h⟩ := bind_eq_ok h
    cases h
    exact ⟨children, left₁.1, nodes', rfl, ⟨left₁, hchildren, rfl⟩, ⟨left₂, hnodes, rfl⟩⟩
  · rintro ⟨children, rest', nodes', rfl, ⟨left₁, hchildren, rfl⟩, ⟨left₂, hnodes, rfl⟩⟩
    refine ⟨left₁.skipAll _ left₂, ?_, rfl⟩
    rw [hstep, hchildren]
    change (parseNodes close left₁.1 >>= fun r =>
      Except.ok (Node.sect name inverted children :: r.1, left₁.skipAll _ r.2)) = _
    rw [hnodes]
    rfl

theorem parses_close :
    Parses close (.close name :: tokens) nodes rest ↔
      close = some name ∧ nodes = [] ∧ rest = tokens := by
  cases close with
  | none =>
    refine iff_of_false ?_ ?_
    · rintro ⟨left, h, -⟩
      rw [parseNodes] at h
      cases h
    · rintro ⟨h, -⟩
      cases h
  | some expected =>
    by_cases hname : expected = name
    · subst hname
      have hstep : parseNodes (some expected) (.close expected :: tokens) =
          .ok ([], (Left.all tokens).skip _) := by
        rw [parseNodes, if_pos rfl]
      constructor
      · rintro ⟨left, h, rfl⟩
        rw [hstep] at h
        cases h
        exact ⟨rfl, rfl, rfl⟩
      · rintro ⟨-, rfl, rfl⟩
        exact ⟨_, hstep, rfl⟩
    · refine iff_of_false ?_ ?_
      · rintro ⟨left, h, -⟩
        rw [parseNodes, if_neg hname] at h
        cases h
      · rintro ⟨h, -⟩
        exact hname (Option.some.inj h)

/-- A token is a leaf, an open or a close. -/
theorem token_cases (token : Token) :
    (∃ node, leafOf token = some node ∧ node.tokens = [token]) ∨
      (∃ name inverted, token = openToken name inverted) ∨ ∃ name, token = .close name := by
  cases token with
  | text t => exact .inl ⟨.text t, rfl, rfl⟩
  | var name => exact .inl ⟨.var name, rfl, rfl⟩
  | partialRef reference => exact .inl ⟨.partialRef reference, rfl, rfl⟩
  | sectionOpen name => exact .inr (.inl ⟨name, false, rfl⟩)
  | invertedOpen name => exact .inr (.inl ⟨name, true, rfl⟩)
  | close name => exact .inr (.inr ⟨name, rfl⟩)

/-- **What is parsed is the tree of the tokens it takes.** -/
theorem tokens_of_parses {n : ℕ} (hn : tokens.length ≤ n) (h : Parses close tokens nodes rest) :
    tokens = tokensOf nodes ++ (closeTokens close ++ rest) := by
  induction n generalizing tokens close nodes rest with
  | zero =>
    obtain rfl := List.length_eq_zero_iff.1 (Nat.le_zero.1 hn)
    obtain ⟨rfl, rfl, rfl⟩ := parses_nil.1 h
    rfl
  | succ n ih =>
    cases tokens with
    | nil =>
      obtain ⟨rfl, rfl, rfl⟩ := parses_nil.1 h
      rfl
    | cons token tokens =>
      have hlen : tokens.length ≤ n := by simpa using hn
      rcases token_cases token with ⟨node, hleaf, hnode⟩ | ⟨name, inverted, rfl⟩ | ⟨name, rfl⟩
      · obtain ⟨nodes', rfl, hrec⟩ := (parses_leaf hleaf).1 h
        rw [tokensOf, hnode, List.append_assoc, ← ih hlen hrec]
        rfl
      · obtain ⟨children, rest', nodes', rfl, hchildren, hnodes⟩ := parses_open.1 h
        have htokens := ih hlen hchildren
        have hlen' : rest'.length ≤ n := by
          have hle := congrArg List.length htokens
          simp only [List.length_append] at hle
          omega
        rw [tokensOf, Node.tokens, htokens, ih hlen' hnodes]
        simp only [closeTokens, Option.map_some, Option.toList_some, List.cons_append,
          List.append_assoc, List.nil_append]
      · obtain ⟨rfl, rfl, rfl⟩ := parses_close.1 h
        rfl

/-- Outside of a section nothing is left. -/
theorem rest_of_parses {n : ℕ} (hn : tokens.length ≤ n) (h : Parses none tokens nodes rest) :
    rest = [] := by
  induction n generalizing tokens nodes with
  | zero =>
    obtain rfl := List.length_eq_zero_iff.1 (Nat.le_zero.1 hn)
    exact (parses_nil.1 h).2.2
  | succ n ih =>
    cases tokens with
    | nil => exact (parses_nil.1 h).2.2
    | cons token tokens =>
      have hlen : tokens.length ≤ n := by simpa using hn
      rcases token_cases token with ⟨node, hleaf, -⟩ | ⟨name, inverted, rfl⟩ | ⟨name, rfl⟩
      · obtain ⟨nodes', -, hrec⟩ := (parses_leaf hleaf).1 h
        exact ih hlen hrec
      · obtain ⟨children, rest', nodes', -, hchildren, hnodes⟩ := parses_open.1 h
        have hlen' : rest'.length ≤ n := by
          have hle := congrArg List.length (tokens_of_parses hlen hchildren)
          simp only [List.length_append] at hle
          omega
        exact ih hlen' hnodes
      · cases (parses_close.1 h).1

/-- A property of the nodes of a tree: those that a token is by itself go alike. -/
theorem nodes_induction {motive : List Node → Prop} (nil : motive [])
    (leaf : ∀ token node nodes, leafOf token = some node → node.tokens = [token] → motive nodes →
      motive (node :: nodes))
    (sect : ∀ name inverted children nodes, motive children → motive nodes →
      motive (.sect name inverted children :: nodes)) : ∀ nodes, motive nodes
  | [] => nil
  | .text t :: nodes => leaf (.text t) _ nodes rfl rfl (nodes_induction nil leaf sect nodes)
  | .var name :: nodes => leaf (.var name) _ nodes rfl rfl (nodes_induction nil leaf sect nodes)
  | .partialRef reference :: nodes =>
    leaf (.partialRef reference) _ nodes rfl rfl (nodes_induction nil leaf sect nodes)
  | .sect name inverted children :: nodes =>
    sect name inverted children nodes (nodes_induction nil leaf sect children)
      (nodes_induction nil leaf sect nodes)

theorem tokensOf_sect (name : String) (inverted : Bool) (children nodes : List Node)
    (tokens : List Token) : tokensOf (.sect name inverted children :: nodes) ++ tokens =
      openToken name inverted :: (tokensOf children ++ .close name :: (tokensOf nodes ++ tokens)) := by
  simp only [tokensOf, Node.tokens, List.cons_append, List.append_assoc, List.nil_append]

/-- **The tokens of a tree parse to it.** -/
theorem parses_tokensOf (hend : close = none → rest = []) :
    Parses close (tokensOf nodes ++ (closeTokens close ++ rest)) nodes rest := by
  induction nodes using nodes_induction generalizing close rest with
  | nil =>
    cases close with
    | none =>
      rw [hend rfl]
      exact parses_nil.2 ⟨rfl, rfl, rfl⟩
    | some name => exact parses_close.2 ⟨rfl, rfl, rfl⟩
  | leaf token node nodes hleaf hnode ih =>
    rw [tokensOf, hnode, List.append_assoc]
    exact (parses_leaf hleaf).2 ⟨nodes, rfl, ih hend⟩
  | sect name inverted children nodes ihchildren ihnodes =>
    have hafter : some name = none → tokensOf nodes ++ (closeTokens close ++ rest) = [] :=
      fun h => by cases h
    rw [tokensOf_sect]
    exact parses_open.2 ⟨children, _, nodes, rfl, ihchildren hafter, ihnodes hend⟩

/-- **A template's tokens parse to a tree if they are its tokens.** -/
theorem parses_iff : Parses none tokens nodes rest ↔ tokens = tokensOf nodes ∧ rest = [] := by
  constructor
  · intro h
    obtain rfl := rest_of_parses le_rfl h
    have htokens := tokens_of_parses le_rfl h
    simp only [closeTokens, Option.map_none, Option.toList_none, List.append_nil] at htokens
    exact ⟨htokens, rfl⟩
  · rintro ⟨rfl, rfl⟩
    have h : Parses none (tokensOf nodes ++ (closeTokens none ++ [])) nodes [] :=
      parses_tokensOf fun _ => rfl
    simpa only [closeTokens, Option.map_none, Option.toList_none, List.append_nil] using h

/-! ## Nested sections -/

theorem balanced_leaf {opened : List String} {token : Token} {node : Node}
    (hleaf : leafOf token = some node) : Balanced opened (token :: tokens) ↔ Balanced opened tokens := by
  cases opened <;> cases token <;> cases hleaf <;> rw [Balanced]

theorem balanced_open {opened : List String} {inverted : Bool} :
    Balanced opened (openToken name inverted :: tokens) ↔ Balanced (name :: opened) tokens := by
  cases inverted
  · change Balanced opened (.sectionOpen name :: tokens) ↔ _
    cases opened <;> rw [Balanced]
  · change Balanced opened (.invertedOpen name :: tokens) ↔ _
    cases opened <;> rw [Balanced]

/-- The tokens of a tree close what they open. -/
theorem balanced_tokensOf {opened : List String} :
    Balanced opened (tokensOf nodes ++ tokens) ↔ Balanced opened tokens := by
  induction nodes using nodes_induction generalizing opened tokens with
  | nil => exact Iff.rfl
  | leaf token node nodes hleaf hnode ih =>
    rw [tokensOf, hnode, List.append_assoc]
    exact (balanced_leaf hleaf).trans ih
  | sect name inverted children nodes ihchildren ihnodes =>
    have hclose : Balanced (name :: opened) (.close name :: (tokensOf nodes ++ tokens)) ↔
        Balanced opened (tokensOf nodes ++ tokens) := by
      rw [Balanced]
      exact and_iff_right rfl
    rw [tokensOf_sect, balanced_open, ihchildren, hclose]
    exact ihnodes

/-- Tokens that close what they open are those of a tree, up to the first close that is not theirs. -/
theorem tree_of_balanced {n : ℕ} (hn : tokens.length ≤ n) {opened : List String}
    (h : Balanced opened tokens) :
    (opened = [] → ∃ nodes, tokens = tokensOf nodes) ∧
      ∀ name outer, opened = name :: outer → ∃ nodes rest,
        tokens = tokensOf nodes ++ .close name :: rest ∧ Balanced outer rest := by
  induction n generalizing tokens opened with
  | zero =>
    obtain rfl := List.length_eq_zero_iff.1 (Nat.le_zero.1 hn)
    cases opened with
    | nil => exact ⟨fun _ => ⟨[], rfl⟩, fun _ _ h => by cases h⟩
    | cons name outer => exact h.elim
  | succ n ih =>
    cases tokens with
    | nil =>
      cases opened with
      | nil => exact ⟨fun _ => ⟨[], rfl⟩, fun _ _ h => by cases h⟩
      | cons name outer => exact h.elim
    | cons token tokens =>
      have hlen : tokens.length ≤ n := by simpa using hn
      rcases token_cases token with ⟨node, hleaf, hnode⟩ | ⟨name, inverted, rfl⟩ | ⟨name, rfl⟩
      · obtain ⟨hnone, hsome⟩ := ih hlen ((balanced_leaf hleaf).1 h)
        refine ⟨fun hopened => ?_, fun name outer hopened => ?_⟩
        · obtain ⟨nodes, rfl⟩ := hnone hopened
          exact ⟨node :: nodes, by rw [tokensOf, hnode]; rfl⟩
        · obtain ⟨nodes, rest, rfl, hrest⟩ := hsome name outer hopened
          exact ⟨node :: nodes, rest, by rw [tokensOf, hnode]; rfl, hrest⟩
      · -- the section that opens here, and then what follows it
        obtain ⟨-, hsome⟩ := ih hlen (balanced_open.1 h)
        obtain ⟨children, rest', rfl, hrest'⟩ := hsome name opened rfl
        have hlen' : rest'.length ≤ n := by
          simp only [List.length_append, List.length_cons] at hlen
          omega
        obtain ⟨hnone, hsome'⟩ := ih hlen' hrest'
        refine ⟨fun hopened => ?_, fun name' outer hopened => ?_⟩
        · obtain ⟨nodes, rfl⟩ := hnone hopened
          refine ⟨.sect name inverted children :: nodes, ?_⟩
          simp only [tokensOf, Node.tokens, List.cons_append, List.append_assoc, List.nil_append]
        · obtain ⟨nodes, rest, rfl, hrest⟩ := hsome' name' outer hopened
          refine ⟨.sect name inverted children :: nodes, rest, ?_, hrest⟩
          simp only [tokensOf, Node.tokens, List.cons_append, List.append_assoc, List.nil_append]
      · cases opened with
        | nil => exact h.elim
        | cons expected outer =>
          have h' : expected = name ∧ Balanced outer tokens := h
          obtain ⟨rfl, hrest⟩ := h'
          refine ⟨fun hopened => (List.cons_ne_nil _ _ hopened).elim, fun name' outer' hopened => ?_⟩
          cases hopened
          exact ⟨[], tokens, rfl, hrest⟩

/-- **The tokens of a tree are those that are nested.** -/
theorem balanced_iff : Balanced [] tokens ↔ ∃ nodes, tokens = tokensOf nodes := by
  constructor
  · intro h
    exact (tree_of_balanced le_rfl h).1 rfl
  · rintro ⟨nodes, rfl⟩
    have h : Balanced [] (tokensOf nodes ++ []) := balanced_tokensOf.2 trivial
    rwa [List.append_nil] at h

end Tree

end Routeplane.Prompts
