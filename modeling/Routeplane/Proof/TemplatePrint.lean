import Routeplane.Proof.TemplateText
import Mathlib.Data.List.Chain

/-!
# Templates print back

A tree is printed token by token: text as it is, a variable as a triple tag with its name
between spaces, any other tag as a double one with its name after a space. A name that ends in
a brace is the one thing this does not keep: the brace closes its tag.

* `clean_of_ok`: the tokens a template can have.
* `piece_ok`: a printed token is a piece, and that of the token.
* `brace_lost`: a name that ends in a brace does not come back.
* `template_exact`: what is accepted, and when it prints back.
-/

namespace Routeplane.Prompts

open Fallible

/-! ## Names -/

section Names

variable {l m name : List Char}

/-- A text without white space at its front has none there when it goes on. -/
theorem dropWhile_append_self (hne : m ≠ []) (h : m.dropWhile isTrimmed = m) :
    (m ++ l).dropWhile isTrimmed = m ++ l := by
  cases m with
  | nil => exact absurd rfl hne
  | cons c m =>
    have hc : ¬isTrimmed c = true := by
      intro hc
      rw [List.dropWhile_cons_of_pos hc] at h
      have hle := (List.dropWhile_suffix (l := m) isTrimmed).length_le
      rw [h, List.length_cons] at hle
      omega
    rw [List.cons_append, List.dropWhile_cons_of_neg hc]

/-- A name that a tag can have: not empty, without white space at its ends, and with no closing braces
of the tag in it. -/
structure IsName (braces name : List Char) : Prop where
  nonempty : name ≠ []
  trimmed : trimChars name = name
  closed : ¬braces <:+: name

theorem IsName.front {braces : List Char} (h : IsName braces name) :
    name.dropWhile isTrimmed = name := by
  have hfront := dropWhile_trimChars name
  rwa [h.trimmed] at hfront

theorem IsName.back {braces : List Char} (h : IsName braces name) :
    name.reverse.dropWhile isTrimmed = name.reverse := by
  have hback := h.trimmed
  rw [trimChars, h.front] at hback
  rw [← List.reverse_inj, hback, List.reverse_reverse]

/-- What a tag with a sigil says, when its name is printed after a space. -/
theorem trimChars_tag {braces blank : List Char} {c : Char} (h : IsName braces name)
    (hc : isTrimmed c = false) (hblank : ∀ b ∈ blank, isTrimmed b = true) :
    trimChars (c :: ' ' :: (name ++ blank)) = c :: ' ' :: name := by
  have hfront : (c :: ' ' :: (name ++ blank)).dropWhile isTrimmed = c :: ' ' :: (name ++ blank) :=
    List.dropWhile_cons_of_neg (by simp [hc])
  have hrev : (c :: ' ' :: (name ++ blank)).reverse =
      blank.reverse ++ (name.reverse ++ [' ', c]) := by
    simp
  have hback : (name.reverse ++ [' ', c]).dropWhile isTrimmed = name.reverse ++ [' ', c] :=
    dropWhile_append_self (by simpa using h.nonempty) h.back
  rw [trimChars, hfront, hrev, List.dropWhile_append_of_pos (by simpa using hblank), hback]
  simp

/-- What a triple tag says, when its name is printed between spaces. -/
theorem trimChars_triple {braces : List Char} (h : IsName braces name) :
    trimChars (' ' :: (name ++ [' '])) = name := by
  have hspace : isTrimmed ' ' = true := by decide
  have hfront : (' ' :: (name ++ [' '])).dropWhile isTrimmed = name ++ [' '] := by
    rw [List.dropWhile_cons_of_pos hspace]
    exact dropWhile_append_self h.nonempty h.front
  rw [trimChars, hfront, List.reverse_append, List.reverse_singleton, List.singleton_append,
    List.dropWhile_cons_of_pos hspace, h.back, List.reverse_reverse]

end Names

/-! ## Tokens as they come from pieces -/

namespace Token

/-- The tokens that a template can have. -/
def Clean : Token → Prop
  | text t => Literal t.toList
  | var name => IsName ['}', '}', '}'] name.toList
  | partialRef name | sectionOpen name | invertedOpen name | close name =>
    IsName ['}', '}'] name.toList

/-- A tag with a sigil whose name ends in a brace. -/
def EndsInBrace : Token → Prop
  | text _ | var _ => False
  | partialRef name | sectionOpen name | invertedOpen name | close name =>
    name.toList.getLast? = some '}'

/-- A token as it is printed: text as it is, a variable as a triple tag with its name between spaces,
any other tag with its name after a space, and `blank` after that. -/
def piece (blank : List Char) : Token → Piece
  | text t => .text t.toList
  | var name => .triple (' ' :: (name.toList ++ [' ']))
  | partialRef name => .tag ('>' :: ' ' :: (name.toList ++ blank))
  | sectionOpen name => .tag ('#' :: ' ' :: (name.toList ++ blank))
  | invertedOpen name => .tag ('^' :: ' ' :: (name.toList ++ blank))
  | close name => .tag ('/' :: ' ' :: (name.toList ++ blank))

end Token

/-- A tree printed token by token. -/
def printNodes (blank : String) (nodes : List Node) : String :=
  String.ofList ((tokensOf nodes).flatMap fun token => (token.piece blank.toList).chars)

section Clean

variable {c : Char} {kind : String → Token} {name : List Char} {piece : Piece}

theorem IsName.ofPair (h : IsName ['}', '}'] name) : IsName ['}', '}', '}'] name :=
  ⟨h.nonempty, h.trimmed, fun hin => h.closed (List.IsInfix.trans ⟨[], ['}'], rfl⟩ hin)⟩

theorem clean_of_kind (hkind : sigilKind c = some kind) (h : IsName ['}', '}'] name) :
    (kind (String.ofList name)).Clean := by
  unfold sigilKind at hkind
  split_ifs at hkind <;> cases hkind
  · simpa only [Token.Clean, String.toList_ofList] using h
  · simpa only [Token.Clean, String.toList_ofList] using h
  · simpa only [Token.Clean, String.toList_ofList] using h
  · simpa only [Token.Clean, String.toList_ofList] using h
  · simpa only [Token.Clean, String.toList_ofList] using h.ofPair

theorem Closed.notInfix {braces inner : List Char} (h : Closed braces inner) : ¬braces <:+: inner :=
  fun hin => h (hin.trans (List.prefix_append inner _).isInfix)

/-- **The tokens of pieces are clean.** -/
theorem clean_of_ok (h : piece.Ok) : piece.token.Clean := by
  cases piece with
  | text t =>
    change Literal (String.ofList t).toList
    rw [String.toList_ofList]
    exact h
  | triple inner =>
    obtain ⟨hclosed, hne⟩ := h
    have hname : IsName ['}', '}', '}'] (trimChars inner) :=
      ⟨hne, trimChars_trimChars inner, fun hin => hclosed.notInfix (hin.trans (trimChars_isInfix inner))⟩
    simpa only [Piece.token, Token.Clean, String.toList_ofList] using hname
  | tag inner =>
    obtain ⟨hclosed, -, hne⟩ := h
    have hsaid : ¬['}', '}'] <:+: trimChars inner :=
      fun hin => hclosed.notInfix (hin.trans (trimChars_isInfix inner))
    have htwice := trimChars_trimChars inner
    rw [Piece.token]
    unfold tagParts at hne ⊢
    cases hinner : trimChars inner with
    | nil =>
      rw [hinner] at hne
      exact absurd rfl hne
    | cons c rest =>
      rw [hinner] at hne hsaid htwice
      cases hkind : sigilKind c with
      | none =>
        have hname : IsName ['}', '}'] (c :: rest) := ⟨List.cons_ne_nil _ _, htwice, hsaid⟩
        simpa only [partsOf, hkind, Token.Clean, String.toList_ofList] using hname.ofPair
      | some kind =>
        simp only [partsOf, hkind] at hne ⊢
        refine clean_of_kind hkind ⟨hne, trimChars_trimChars rest, fun hin => hsaid ?_⟩
        exact hin.trans ((trimChars_isInfix rest).trans (List.suffix_cons c rest).isInfix)

end Clean

/-! ## Printed tokens are pieces -/

section Print

variable {c : Char} {kind : String → Token} {name blank : List Char} {token : Token}

/-- The closing braces of a printed tag come at its end, unless the name ends in one and nothing is
between. -/
theorem closed_tag (h : IsName ['}', '}'] name) (hc : c ≠ '}')
    (hblank : blank = [' '] ∨ (blank = [] ∧ name.getLast? ≠ some '}')) :
    Closed ['}', '}'] (c :: ' ' :: (name ++ blank)) := by
  have hinner : ¬['}', '}'] <:+: c :: ' ' :: name := by
    simp only [List.infix_cons_iff, List.cons_prefix_cons, hc.symm, false_and, false_or,
      (by decide : '}' ≠ ' ')]
    exact h.closed
  change ¬['}', '}'] <:+: (c :: ' ' :: (name ++ blank)) ++ ['}']
  rw [pair_infix_concat]
  rcases hblank with rfl | ⟨rfl, hlast⟩
  · have hsplit : c :: ' ' :: (name ++ [' ']) = (c :: ' ' :: name) ++ [' '] := rfl
    rw [hsplit, pair_infix_concat, List.getLast?_concat]
    rintro ((hin | ⟨-, heq⟩) | ⟨heq, -⟩)
    · exact hinner hin
    · exact absurd heq (by decide)
    · exact absurd (Option.some.inj heq) (by decide)
  · rw [List.append_nil]
    rintro (hin | ⟨heq, -⟩)
    · exact hinner hin
    · refine hlast ?_
      obtain ⟨front, last, rfl⟩ := (List.eq_nil_or_concat' name).resolve_left h.nonempty
      rw [List.getLast?_concat]
      have hsplit : c :: ' ' :: (front ++ [last]) = (c :: ' ' :: front) ++ [last] := rfl
      rwa [hsplit, List.getLast?_concat] at heq

theorem closed_triple (h : IsName ['}', '}', '}'] name) :
    Closed ['}', '}', '}'] (' ' :: (name ++ [' '])) := by
  have hne : '}' ≠ ' ' := by decide
  have hname : ¬['}', '}', '}'] <:+: ' ' :: name := by
    simp only [List.infix_cons_iff, List.cons_prefix_cons, hne, false_and, false_or]
    exact h.closed
  -- read from the end, where the spaces keep the braces apart
  have hrev : ¬['}', '}', '}'] <:+: (' ' :: name).reverse := fun hin =>
    hname (List.reverse_infix.1 hin)
  change ¬['}', '}', '}'] <:+: ' ' :: (name ++ [' ']) ++ ['}', '}']
  intro hin
  have hflip : ['}', '}', '}'] <:+: '}' :: '}' :: ' ' :: (' ' :: name).reverse := by
    have hall := List.reverse_infix.2 hin
    simpa using hall
  simp only [List.infix_cons_iff, List.cons_prefix_cons, hne, false_and, and_false, false_or]
    at hflip
  exact hrev hflip

theorem tagParts_tag (h : IsName ['}', '}'] name) (hkind : sigilKind c = some kind)
    (hc : isTrimmed c = false) (hblank : ∀ b ∈ blank, isTrimmed b = true) :
    tagParts (c :: ' ' :: (name ++ blank)) = (kind, name) := by
  have hspace : isTrimmed ' ' = true := by decide
  have hname : trimChars (' ' :: name) = name := by
    rw [trimChars, List.dropWhile_cons_of_pos hspace]
    exact h.trimmed
  rw [tagParts, trimChars_tag h hc hblank, partsOf, hkind]
  simp only [hname]

/-- **A printed tag is a piece, and that of its token.** -/
theorem tag_ok (h : IsName ['}', '}'] name) (hkind : sigilKind c = some kind)
    (hc : isTrimmed c = false) (hbrace : c ≠ '}' ∧ c ≠ '{')
    (hblank : blank = [' '] ∨ (blank = [] ∧ name.getLast? ≠ some '}')) :
    (Piece.tag (c :: ' ' :: (name ++ blank))).Ok ∧
      (Piece.tag (c :: ' ' :: (name ++ blank))).token = kind (String.ofList name) := by
  have hspaces : ∀ b ∈ blank, isTrimmed b = true := by
    rcases hblank with rfl | ⟨rfl, -⟩
    · intro b hb
      rw [List.mem_singleton.1 hb]
      decide
    · intro b hb
      cases hb
  have hparts := tagParts_tag h hkind hc hspaces
  refine ⟨⟨closed_tag h hbrace.1 hblank, ?_, ?_⟩, ?_⟩
  · exact fun heq => hbrace.2 (Option.some.inj heq)
  · rw [hparts]
    exact h.nonempty
  · rw [Piece.token, hparts]

/-- **A printed token is a piece, and that of the token.** -/
theorem piece_ok (h : token.Clean)
    (hblank : blank = [' '] ∨ (blank = [] ∧ ¬token.EndsInBrace)) :
    (token.piece blank).Ok ∧ (token.piece blank).token = token := by
  have htag : ∀ {c : Char} {kind : String → Token} {name : String},
      IsName ['}', '}'] name.toList → sigilKind c = some kind → isTrimmed c = false →
      c ≠ '}' ∧ c ≠ '{' →
      (blank = [' '] ∨ (blank = [] ∧ name.toList.getLast? ≠ some '}')) →
      (Piece.tag (c :: ' ' :: (name.toList ++ blank))).Ok ∧
        (Piece.tag (c :: ' ' :: (name.toList ++ blank))).token = kind name := by
    intro c kind name hname hkind hc hbrace hblank
    have hok := tag_ok hname hkind hc hbrace hblank
    rwa [String.ofList_toList] at hok
  cases token with
  | text t => exact ⟨h, congrArg Token.text String.ofList_toList⟩
  | var name =>
    have htrim := trimChars_triple h
    refine ⟨⟨closed_triple h, ?_⟩, ?_⟩
    · rw [htrim]
      exact h.nonempty
    · rw [Token.piece, Piece.token, htrim, String.ofList_toList]
  | partialRef name => exact htag h rfl (by decide) (by decide) hblank
  | sectionOpen name => exact htag h rfl (by decide) (by decide) hblank
  | invertedOpen name => exact htag h rfl (by decide) (by decide) hblank
  | close name => exact htag h rfl (by decide) (by decide) hblank

end Print

/-! ## Printing and parsing again -/

section RoundTrip

variable {tokens : List Token} {nodes : List Node} {pieces : List Piece} {blank : List Char}
  {tpl : String}

/-- The tokens of pieces stay apart when they are printed. -/
theorem before_print {p q : Piece} (h : p.Before q) :
    (p.token.piece blank).Before (q.token.piece blank) := by
  have htag : ∀ inner, ∀ t, (Piece.tag inner).token.piece blank ≠ .text t := by
    intro inner t
    rw [Piece.token, tagParts]
    cases trimChars inner with
    | nil => exact fun h => by cases h
    | cons c rest =>
      rw [partsOf]
      cases hkind : sigilKind c with
      | none => exact fun h => by cases h
      | some kind =>
        unfold sigilKind at hkind
        split_ifs at hkind <;> cases hkind <;> exact fun h => by cases h
  have htext : ∀ {t : List Char} {piece : Piece}, (∀ t, piece ≠ .text t) →
      t.getLast? ≠ some '{' → (Piece.text t).Before piece := by
    intro t piece hpiece hlast
    cases piece with
    | text t' => exact absurd rfl (hpiece t')
    | tag inner => exact hlast
    | triple inner => exact hlast
  have hother : ∀ {piece : Piece} (next : Piece), (∀ t, piece ≠ .text t) → piece.Before next := by
    intro piece next hpiece
    cases piece with
    | text t => exact absurd rfl (hpiece t)
    | tag inner => cases next <;> trivial
    | triple inner => cases next <;> trivial
  cases p with
  | text t =>
    have hprint : (Piece.text t).token.piece blank = .text t := congrArg Piece.text String.toList_ofList
    rw [hprint]
    cases q with
    | text t' => exact h.elim
    | tag inner => exact htext (htag inner) h
    | triple inner => exact htext (fun t' heq => by cases heq) h
  | tag inner => exact hother _ (htag inner)
  | triple inner => exact hother _ fun t heq => by cases heq

theorem chain_print (h : pieces.IsChain Piece.Before) :
    (pieces.map fun p => p.token.piece blank).IsChain Piece.Before :=
  List.isChain_map_of_isChain (fun p : Piece => p.token.piece blank) (fun _ _ => before_print) h

/-- **Printed tokens have themselves for tokens**, if no name of a tag ends in a brace or a blank
follows each. -/
theorem tokenize_print (hwritten : Written pieces tpl.toList) (htokens : tokens = pieces.map Piece.token)
    (hblank : ∀ token ∈ tokens, blank = [' '] ∨ (blank = [] ∧ ¬token.EndsInBrace)) :
    tokenize (String.ofList (tokens.flatMap fun token => (token.piece blank).chars)) = .ok tokens := by
  have hpieces : ∀ token ∈ tokens,
      (token.piece blank).Ok ∧ (token.piece blank).token = token := by
    intro token htoken
    refine piece_ok ?_ (hblank token htoken)
    rw [htokens] at htoken
    obtain ⟨piece, hpiece, rfl⟩ := List.mem_map.1 htoken
    exact clean_of_ok (hwritten.ok piece hpiece)
  refine tokenize_iff.2 ⟨tokens.map fun token => token.piece blank, ⟨?_, ?_, ?_⟩, ?_⟩
  · intro piece hpiece
    obtain ⟨token, htoken, rfl⟩ := List.mem_map.1 hpiece
    exact (hpieces token htoken).1
  · rw [htokens, List.map_map]
    exact chain_print hwritten.chain
  · rw [String.toList_ofList, List.flatMap_map]
  · rw [List.map_map]
    have hself : tokens.map (Piece.token ∘ fun token => token.piece blank) = tokens.map id :=
      List.map_congr_left fun token htoken => (hpieces token htoken).2
    rw [hself, List.map_id]

/-- A sigil and what is left of a name once its last brace is taken for one of the tag's. -/
theorem tagParts_short {c : Char} {kind : String → Token} {m : List Char}
    (hkind : sigilKind c = some kind) (hc : isTrimmed c = false) :
    (tagParts (c :: ' ' :: m)).1 = kind ∧ (tagParts (c :: ' ' :: m)).2.length ≤ m.length := by
  have hspace : isTrimmed ' ' = true := by decide
  have hfront : (c :: ' ' :: m).dropWhile isTrimmed = c :: ' ' :: m :=
    List.dropWhile_cons_of_neg (by simp [hc])
  have hpre : trimChars (c :: ' ' :: m) <+: c :: ' ' :: m := by
    have h : trimChars (c :: ' ' :: m) <+: (c :: ' ' :: m).dropWhile isTrimmed :=
      List.rdropWhile_prefix _ _
    rwa [hfront] at h
  rcases List.prefix_cons_iff.1 hpre with hnil | ⟨r, hr, hrest⟩
  · -- the sigil is no white space
    have hall : ((c :: ' ' :: m).dropWhile isTrimmed).rdropWhile isTrimmed = [] := hnil
    rw [hfront, List.rdropWhile_eq_nil_iff] at hall
    have hsigil := hall c List.mem_cons_self
    rw [hc] at hsigil
    cases hsigil
  · rw [tagParts, hr, partsOf, hkind]
    refine ⟨rfl, ?_⟩
    change (trimChars r).length ≤ m.length
    rcases List.prefix_cons_iff.1 hrest with rfl | ⟨t, rfl, ht⟩
    · exact Nat.zero_le _
    · have htrim : trimChars (' ' :: t) = trimChars t := by
        rw [trimChars, List.dropWhile_cons_of_pos hspace]
        rfl
      rw [htrim]
      exact (trimChars_isInfix t).length_le.trans ht.length_le

/-- **A name that ends in a brace does not come back**: the brace closes its tag. -/
theorem brace_lost {c : Char} {kind : String → Token} {name : String} {rest : List Token}
    {acc more : List Char} (hname : IsName ['}', '}'] name.toList)
    (hlast : name.toList.getLast? = some '}') (hkind : sigilKind c = some kind)
    (hinj : ∀ a b, kind a = kind b → a = b) (hc : isTrimmed c = false) (hbrace : c ≠ '}' ∧ c ≠ '{') :
    tokenizeFrom ((Piece.tag (c :: ' ' :: (name.toList ++ []))).chars ++ more) acc ≠
      .ok (flushText acc ++ kind name :: rest) := by
  intro h
  obtain ⟨m, hm⟩ := List.getLast?_eq_some_iff.1 hlast
  have hclosed : Closed ['}', '}'] (c :: ' ' :: m) := by
    change ¬['}', '}'] <:+: c :: ' ' :: (m ++ ['}'])
    rw [← hm]
    simp only [List.infix_cons_iff, List.cons_prefix_cons, hbrace.1.symm, false_and, false_or,
      (by decide : '}' ≠ ' ')]
    exact hname.closed
  have hchars : (Piece.tag (c :: ' ' :: (name.toList ++ []))).chars ++ more =
      '{' :: '{' :: (c :: ' ' :: m ++ (['}', '}'] ++ ('}' :: more))) := by
    rw [hm, Piece.chars]
    simp
  have hhead : (c :: ' ' :: m ++ (['}', '}'] ++ ('}' :: more))).head? ≠ some '{' :=
    fun hhead => hbrace.2 (Option.some.inj hhead)
  rw [hchars] at h
  obtain ⟨inner, after, tokens', heq, hok, -, htokens⟩ := of_tokenizeFrom_tag hhead h
  -- the first closing braces are the name's last one and one of the tag's
  have hinner : inner = c :: ' ' :: m := by
    have hcut : cutAt ['}', '}'] (c :: ' ' :: m ++ (['}', '}'] ++ ('}' :: more))) =
        some (c :: ' ' :: m, '}' :: more) := cutAt_of_closed (List.cons_ne_nil _ _) hclosed
    have hcut' : cutAt ['}', '}'] (inner ++ (['}', '}'] ++ after)) = some (inner, after) :=
      cutAt_of_closed (List.cons_ne_nil _ _) hok.1
    have hsame : c :: ' ' :: m ++ (['}', '}'] ++ ('}' :: more)) =
        inner ++ (['}', '}'] ++ after) := by
      have hrest := (List.cons.inj (List.cons.inj heq).2).2
      exact hrest.trans (List.append_assoc inner ['}', '}'] after)
    rw [hsame, hcut'] at hcut
    exact (Prod.mk.inj (Option.some.inj hcut)).1
  subst hinner
  obtain ⟨hkind', hshort⟩ := tagParts_short (m := m) hkind hc
  have htoken := (List.cons.inj (List.append_cancel_left htokens)).1
  rw [Piece.token, hkind'] at htoken
  have hnames := hinj _ _ htoken
  have hlen := congrArg (fun s : String => s.toList.length) hnames
  simp only [String.toList_ofList, hm, List.length_append, List.length_singleton] at hlen
  omega

/-- Printed without blanks, tokens come back only if no name of a tag ends in a brace. -/
theorem not_endsInBrace_of_tokenize {acc : List Char} (hclean : ∀ token ∈ tokens, token.Clean)
    (hchain : (tokens.map fun token => token.piece []).IsChain Piece.Before)
    (hacc : acc ≠ [] → ∀ t rest, tokens ≠ .text t :: rest)
    (h : tokenizeFrom (tokens.flatMap fun token => (token.piece []).chars) acc =
      .ok (flushText acc ++ tokens)) : ∀ token ∈ tokens, ¬token.EndsInBrace := by
  induction tokens generalizing acc with
  | nil => exact fun token htoken => by cases htoken
  | cons token rest ih =>
    have htoken := hclean token List.mem_cons_self
    have hrest : ∀ token ∈ rest, token.Clean := fun t ht => hclean t (List.mem_cons_of_mem _ ht)
    have hchain' : (rest.map fun token => token.piece []).IsChain Piece.Before :=
      List.isChain_of_isChain_cons hchain
    rw [List.flatMap_cons] at h
    -- a tag that comes back, and then the rest does
    have hnext : ∀ {piece : Piece}, token.piece [] = piece → (∀ acc after, piece.Ok →
        tokenizeFrom (piece.chars ++ after) acc = (tokenizeFrom after []).map fun tokens =>
          flushText acc ++ piece.token :: tokens) → ¬token.EndsInBrace →
        ∀ t ∈ token :: rest, ¬t.EndsInBrace := by
      intro piece hpiece hstep hbrace
      obtain ⟨hok, hself⟩ := piece_ok htoken (.inr ⟨rfl, hbrace⟩)
      rw [hpiece] at h hok hself
      rw [hstep _ _ hok, hself] at h
      obtain ⟨tokens', htokens', heq⟩ := map_eq_ok h
      obtain rfl := (List.cons.inj (List.append_cancel_left heq)).2
      exact List.forall_mem_cons.2 ⟨hbrace, ih hrest hchain' (fun hne => absurd rfl hne) htokens'⟩
    have htag : ∀ {c : Char} {kind : String → Token} {name : String}, token = kind name →
        IsName ['}', '}'] name.toList → token.piece [] = .tag (c :: ' ' :: (name.toList ++ [])) →
        (token.EndsInBrace → name.toList.getLast? = some '}') → sigilKind c = some kind →
        (∀ a b, kind a = kind b → a = b) → isTrimmed c = false → c ≠ '}' ∧ c ≠ '{' →
        ∀ t ∈ token :: rest, ¬t.EndsInBrace := by
      intro c kind name hkindName hname hpiece hends hkind hinj hc hbrace
      refine hnext hpiece (fun acc after hok => tokenizeFrom_tag hok) fun hend => ?_
      rw [hpiece, hkindName] at h
      exact brace_lost hname (hends hend) hkind hinj hc hbrace h
    cases token with
    | text t =>
      have hacc' : acc = [] := by
        by_contra hne
        exact hacc hne t rest rfl
      have hstart : t.toList ≠ [] → ∀ t' more, rest ≠ .text t' :: more := by
        rintro - t' more rfl
        exact (List.isChain_cons_cons.1 hchain).1
      rw [List.map_cons] at hchain
      have hseam := seam_of_chain hchain
      rw [List.flatMap_map] at hseam
      change tokenizeFrom (t.toList ++ _) acc = _ at h
      rw [tokenizeFrom_text htoken.2 hseam, hacc', List.nil_append] at h
      have hflush : flushText [] ++ Token.text t :: rest = flushText t.toList ++ rest := by
        rw [flushText_of_ne htoken.1, String.ofList_toList]
        rfl
      rw [hflush] at h
      exact List.forall_mem_cons.2 ⟨fun hend => hend, ih hrest hchain' hstart h⟩
    | var name => exact hnext rfl (fun acc after hok => tokenizeFrom_triple hok) fun hend => hend
    | partialRef name =>
      exact htag rfl htoken rfl (fun hend => hend) rfl (fun a b => Token.partialRef.inj) (by decide)
        (by decide)
    | sectionOpen name =>
      exact htag rfl htoken rfl (fun hend => hend) rfl (fun a b => Token.sectionOpen.inj) (by decide)
        (by decide)
    | invertedOpen name =>
      exact htag rfl htoken rfl (fun hend => hend) rfl (fun a b => Token.invertedOpen.inj) (by decide)
        (by decide)
    | close name =>
      exact htag rfl htoken rfl (fun hend => hend) rfl (fun a b => Token.close.inj) (by decide)
        (by decide)

/-- **Templates parse exactly, and print back.** A text is accepted if it is literal text and closed
tags that are not empty, and the sections they open and close are nested. What is parsed from it comes
back when it is printed and parsed again, if no partial and no section has a name that ends in a
brace; with a blank after these names too it always does. -/
theorem template_exact (tpl : String) :
    ((∃ nodes, parseTemplate tpl = .ok nodes) ↔
      ∃ pieces, Written pieces tpl.toList ∧ Balanced [] (pieces.map Piece.token)) ∧
    ∀ nodes, parseTemplate tpl = .ok nodes →
      (parseTemplate (printNodes "" nodes) = .ok nodes ↔
        ∀ token ∈ tokensOf nodes, ¬token.EndsInBrace) ∧
      parseTemplate (printNodes " " nodes) = .ok nodes := by
  constructor
  · constructor
    · rintro ⟨nodes, h⟩
      obtain ⟨pieces, hwritten, htokens⟩ := tokenize_iff.1 (parseTemplate_iff.1 h)
      exact ⟨pieces, hwritten, balanced_iff.2 ⟨nodes, htokens.symm⟩⟩
    · rintro ⟨pieces, hwritten, hbalanced⟩
      obtain ⟨nodes, htokens⟩ := balanced_iff.1 hbalanced
      exact ⟨nodes, parseTemplate_iff.2 (tokenize_iff.2 ⟨pieces, hwritten, htokens.symm⟩)⟩
  · intro nodes h
    obtain ⟨pieces, hwritten, htokens⟩ := tokenize_iff.1 (parseTemplate_iff.1 h)
    refine ⟨⟨fun hback => ?_, fun hnames => ?_⟩, ?_⟩
    · have htokenize := parseTemplate_iff.1 hback
      rw [tokenize, printNodes, String.toList_ofList] at htokenize
      have hnone : ([] : List Char) ≠ [] → ∀ t rest, tokensOf nodes ≠ .text t :: rest :=
        fun hne => absurd rfl hne
      refine not_endsInBrace_of_tokenize ?_ ?_ hnone htokenize
      · intro token htoken
        rw [htokens] at htoken
        obtain ⟨piece, hpiece, rfl⟩ := List.mem_map.1 htoken
        exact clean_of_ok (hwritten.ok piece hpiece)
      · rw [htokens, List.map_map]
        exact chain_print hwritten.chain
    · exact parseTemplate_iff.2
        (tokenize_print hwritten htokens fun token htoken => .inr ⟨rfl, hnames token htoken⟩)
    · exact parseTemplate_iff.2 (tokenize_print hwritten htokens fun _ _ => .inl rfl)

/-- A partial whose name ends in a brace. -/
def bracedPartial : String := String.ofList ['{', '{', '>', ' ', 'a', '}', ' ', '}', '}']

/-- **The brace of the name is taken for one of the tag's**, and the tag's last one for text. -/
theorem braced_partial_lost :
    parseTemplate bracedPartial = .ok [.partialRef "a\x7d"] ∧
      parseTemplate (printNodes "" [.partialRef "a\x7d"]) = .ok [.partialRef "a", .text "\x7d"] ∧
      parseTemplate (printNodes "" [.partialRef "a\x7d"]) ≠ parseTemplate bracedPartial := by
  have hparsed : parseTemplate bracedPartial = .ok [.partialRef "a\x7d"] := by
    refine parseTemplate_iff.2 (tokenize_iff.2 ⟨[.tag ['>', ' ', 'a', '}', ' ']], ⟨?_, .singleton _,
      rfl⟩, by decide⟩)
    intro piece hpiece
    rw [List.mem_singleton.1 hpiece]
    exact ⟨by unfold Closed; decide, by decide, by decide⟩
  have hprinted : parseTemplate (printNodes "" [.partialRef "a\x7d"]) =
      .ok [.partialRef "a", .text "\x7d"] := by
    refine parseTemplate_iff.2 (tokenize_iff.2 ⟨[.tag ['>', ' ', 'a'], .text ['}']], ⟨?_,
      .cons_cons trivial (.singleton _), rfl⟩, by decide⟩)
    refine List.forall_mem_cons.2 ⟨⟨by unfold Closed; decide, by decide, by decide⟩, ?_⟩
    exact List.forall_mem_singleton.2 ⟨by decide, by decide⟩
  refine ⟨hparsed, hprinted, fun hsame => ?_⟩
  rw [hparsed, hprinted] at hsame
  exact absurd (congrArg List.length (Except.ok.inj hsame)) (by decide)

end RoundTrip

end Routeplane.Prompts
