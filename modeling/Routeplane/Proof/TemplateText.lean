import Routeplane.Proof.TemplateTree

/-!
# The pieces of a template

A template is literal text and tags. A tag ends with the first closing braces after it, three
opening braces are those of a triple tag, and an opening brace right before a tag is the tag's.

* `cutAt_of_closed`, `closed_of_cutAt`: the first closing braces.
* `tokenizeFrom_pieces`: the tokens of pieces are read off one by one.
* `tokenize_iff`: a text has tokens if it is written as pieces, and then theirs.
* `parseTemplate_iff`: a template parses to the tree its tokens are those of.
-/

namespace Routeplane.Prompts

open Fallible

/-! ## The first closing braces -/

section Cut

variable {piece before after cs : List Char}

/-- In what `before` and the piece make together, the piece is found at the end and not before. -/
def Closed (piece before : List Char) : Prop := ¬piece <:+: before ++ piece.dropLast

theorem Closed.of_cons {c : Char} (h : Closed piece (c :: before)) : Closed piece before :=
  fun hin => h (hin.trans (List.suffix_cons c _).isInfix)

/-- A piece found in `before ++ piece` lies in all of it but the last character. -/
theorem prefix_dropLast (hne : piece ≠ []) {c : Char} (h : piece <+: c :: (before ++ (piece ++ after))) :
    piece <+: c :: (before ++ piece.dropLast) := by
  have hshort : c :: (before ++ piece.dropLast) <+: c :: (before ++ (piece ++ after)) := by
    refine List.prefix_cons_inj _ |>.2 ((List.prefix_append_right_inj before).2 ?_)
    exact piece.dropLast_prefix.trans (List.prefix_append _ _)
  refine List.prefix_of_prefix_length_le h hshort ?_
  have hpos := List.length_pos_iff.2 hne
  rw [List.length_cons, List.length_append, List.length_dropLast]
  omega

/-- **The first closing braces are found.** -/
theorem cutAt_of_closed (hne : piece ≠ []) (h : Closed piece before) :
    cutAt piece (before ++ (piece ++ after)) = some (before, after) := by
  induction before with
  | nil =>
    cases hpiece : piece with
    | nil => exact absurd hpiece hne
    | cons p ps =>
      rw [List.nil_append, List.cons_append, cutAt, if_pos (by simp)]
      simp
  | cons c before ih =>
    have hnot : ¬piece.isPrefixOf (c :: (before ++ (piece ++ after))) = true := by
      intro hpre
      exact h (prefix_dropLast hne (List.isPrefixOf_iff_prefix.1 hpre)).isInfix
    rw [List.cons_append, cutAt, if_neg hnot, ih h.of_cons]
    rfl

theorem closed_of_cutAt (hne : piece ≠ []) (h : cutAt piece cs = some (before, after)) :
    cs = before ++ (piece ++ after) ∧ Closed piece before := by
  have hshort : ¬piece <:+: piece.dropLast := by
    intro hin
    have hle := hin.length_le
    have hpos := List.length_pos_iff.2 hne
    rw [List.length_dropLast] at hle
    omega
  induction cs generalizing before with
  | nil =>
    rw [cutAt] at h
    split at h
    · rename_i hpre
      exact absurd (List.prefix_nil.1 (List.isPrefixOf_iff_prefix.1 hpre)) hne
    · cases h
  | cons c cs ih =>
    rw [cutAt] at h
    split at h
    · rename_i hpre
      cases h
      have hsplit := List.prefix_iff_eq_append.1 (List.isPrefixOf_iff_prefix.1 hpre)
      exact ⟨hsplit.symm, hshort⟩
    · rename_i hpre
      obtain ⟨⟨before', after'⟩, hcut, heq⟩ := Option.map_eq_some_iff.1 h
      cases heq
      obtain ⟨rfl, hclosed⟩ := ih hcut
      refine ⟨rfl, fun hin => ?_⟩
      rw [List.cons_append] at hin
      rcases List.infix_cons_iff.1 hin with hpre' | hin
      · refine hpre (List.isPrefixOf_iff_prefix.2 (hpre'.trans ?_))
        refine List.prefix_cons_inj _ |>.2 ((List.prefix_append_right_inj before').2 ?_)
        exact piece.dropLast_prefix.trans (List.prefix_append _ _)
      · exact hclosed hin

/-- Two of one character meet where a text that ends in it goes on with it. -/
theorem pair_infix_concat {a c : Char} {l : List Char} :
    [a, a] <:+: l ++ [c] ↔ [a, a] <:+: l ∨ (l.getLast? = some a ∧ c = a) := by
  rw [List.infix_concat_iff, or_comm]
  refine or_congr_right ?_
  rw [List.suffix_concat_iff]
  constructor
  · rintro (h | ⟨t, ht, hsuf⟩)
    · cases h
    · have hsplit : [a] ++ [a] = t ++ [c] := ht
      obtain ⟨rfl, hc⟩ := List.append_inj' hsplit rfl
      obtain rfl := List.singleton_inj.1 hc
      obtain ⟨front, rfl⟩ := hsuf
      exact ⟨List.getLast?_concat .., rfl⟩
  · rintro ⟨hlast, rfl⟩
    refine .inr ⟨[c], rfl, ?_⟩
    obtain ⟨front, rfl⟩ := List.getLast?_eq_some_iff.1 hlast
    exact List.suffix_append _ _

end Cut

/-! ## Pieces of a template -/

/-- A stretch of literal text, or a tag by what is between its braces. -/
inductive Piece
  | text (t : List Char)
  | tag (inner : List Char)
  | triple (inner : List Char)

namespace Piece

def chars : Piece → List Char
  | text t => t
  | tag inner => '{' :: '{' :: (inner ++ ['}', '}'])
  | triple inner => '{' :: '{' :: '{' :: (inner ++ ['}', '}', '}'])

end Piece

/-- The kind of a tag, by its sigil. -/
def sigilKind (c : Char) : Option (String → Token) :=
  if '>' = c then some .partialRef
  else if '#' = c then some .sectionOpen
  else if '^' = c then some .invertedOpen
  else if '/' = c then some .close
  else if '&' = c then some .var
  else none

/-- The kind of a tag and the name in it: what it says is a name, or a sigil and a name. -/
def partsOf : List Char → (String → Token) × List Char
  | [] => (.var, [])
  | c :: rest =>
    match sigilKind c with
    | some kind => (kind, trimChars rest)
    | none => (.var, c :: rest)

/-- The same of what stands between the braces, the white space at its ends aside. -/
def tagParts (inner : List Char) : (String → Token) × List Char := partsOf (trimChars inner)

def Piece.token : Piece → Token
  | .text t => .text (String.ofList t)
  | .tag inner => (tagParts inner).1 (String.ofList (tagParts inner).2)
  | .triple inner => .var (String.ofList (trimChars inner))

/-- Literal text: some characters, no two opening braces in a row. -/
def Literal (t : List Char) : Prop := t ≠ [] ∧ ¬['{', '{'] <:+: t

/-- A piece as it may stand in a template: literal text, or a tag that is closed by the first closing
braces in it and is not empty. Three opening braces are those of a triple tag. -/
def Piece.Ok : Piece → Prop
  | .text t => Literal t
  | .tag inner => Closed ['}', '}'] inner ∧ inner.head? ≠ some '{' ∧ (tagParts inner).2 ≠ []
  | .triple inner => Closed ['}', '}', '}'] inner ∧ trimChars inner ≠ []

/-- Texts are not split, and an opening brace before a tag is one of the tag's. -/
def Piece.Before : Piece → Piece → Prop
  | .text _, .text _ => False
  | .text t, _ => t.getLast? ≠ some '{'
  | _, _ => True

/-- A template written as its pieces. -/
structure Written (pieces : List Piece) (tpl : List Char) : Prop where
  ok : ∀ piece ∈ pieces, piece.Ok
  chain : pieces.IsChain Piece.Before
  eq : tpl = pieces.flatMap Piece.chars

/-! ## What a tag is read as -/

section Classify

variable {inner : List Char}

theorem nonEmpty_ofList (name : List Char) (token : String → Token) :
    (nonEmpty (String.ofList name)).map token =
      if name = [] then .error "empty mustache tag '\x7b\x7b\x7d\x7d'"
      else .ok (token (String.ofList name)) := by
  unfold nonEmpty
  by_cases hname : name = []
  · rw [if_pos hname, hname]
    rfl
  · have hne : String.ofList name ≠ "" := by
      intro heq
      exact hname (by rw [← String.toList_ofList (l := name), heq]; rfl)
    rw [if_neg hname, if_neg hne]
    rfl

theorem dropHead?_ofList_cons (sigil c : Char) (rest : List Char) :
    dropHead? (String.ofList [sigil]) (String.ofList (c :: rest)) =
      if sigil = c then some (String.ofList rest) else none := by
  unfold dropHead?
  rw [String.toList_ofList, String.toList_ofList]
  by_cases h : sigil = c
  · rw [if_pos h, if_pos (by simp [h])]
    rfl
  · rw [if_neg h, if_neg (by simp [h])]

theorem dropHead?_ofList_nil (sigil : Char) :
    dropHead? (String.ofList [sigil]) (String.ofList []) = none := by
  unfold dropHead?
  rw [String.toList_ofList, String.toList_ofList]
  rfl

/-- A triple tag is its name. -/
theorem classifyTag_triple (inner : List Char) :
    classifyTag (trimText (String.ofList inner)) true =
      if trimChars inner = [] then .error "empty mustache tag '\x7b\x7b\x7d\x7d'"
      else .ok (Piece.triple inner).token := by
  have htrim : trimText (String.ofList inner) = String.ofList (trimChars inner) := by
    rw [trimText, String.toList_ofList]
  rw [htrim, classifyTag, if_pos rfl, nonEmpty_ofList]
  rfl

/-- **A tag is what its sigil says, with its name.** -/
theorem classifyTag_ofList (said : List Char) :
    classifyTag (String.ofList said) false =
      if (partsOf said).2 = [] then .error "empty mustache tag '\x7b\x7b\x7d\x7d'"
      else .ok ((partsOf said).1 (String.ofList (partsOf said).2)) := by
  have htrim : ∀ l, trimText (String.ofList l) = String.ofList (trimChars l) := fun l => by
    rw [trimText, String.toList_ofList]
  have h1 : ">" = String.ofList ['>'] := rfl
  have h2 : "#" = String.ofList ['#'] := rfl
  have h3 : "^" = String.ofList ['^'] := rfl
  have h4 : "/" = String.ofList ['/'] := rfl
  have h5 : "&" = String.ofList ['&'] := rfl
  unfold classifyTag
  rw [if_neg Bool.false_ne_true]
  cases said with
  | nil =>
    simp only [h1, h2, h3, h4, h5, dropHead?_ofList_nil, nonEmpty_ofList]
    rfl
  | cons c rest =>
    simp only [h1, h2, h3, h4, h5, dropHead?_ofList_cons, partsOf, sigilKind]
    -- the first sigil that the tag starts with decides, here as there
    by_cases hpartial : '>' = c
    · simp only [if_pos hpartial, htrim, nonEmpty_ofList]
    by_cases hopen : '#' = c
    · simp only [if_neg hpartial, if_pos hopen, htrim, nonEmpty_ofList]
    by_cases hinverted : '^' = c
    · simp only [if_neg hpartial, if_neg hopen, if_pos hinverted, htrim, nonEmpty_ofList]
    by_cases hclose : '/' = c
    · simp only [if_neg hpartial, if_neg hopen, if_neg hinverted, if_pos hclose, htrim,
        nonEmpty_ofList]
    by_cases hvar : '&' = c
    · simp only [if_neg hpartial, if_neg hopen, if_neg hinverted, if_neg hclose, if_pos hvar, htrim,
        nonEmpty_ofList]
    · simp only [if_neg hpartial, if_neg hopen, if_neg hinverted, if_neg hclose, if_neg hvar,
        nonEmpty_ofList]

theorem classifyTag_tag (inner : List Char) :
    classifyTag (trimText (String.ofList inner)) false =
      if (tagParts inner).2 = [] then .error "empty mustache tag '\x7b\x7b\x7d\x7d'"
      else .ok (Piece.tag inner).token := by
  have htrim : trimText (String.ofList inner) = String.ofList (trimChars inner) := by
    rw [trimText, String.toList_ofList]
  rw [htrim, classifyTag_ofList]
  rfl

end Classify

/-! ## The tokens of pieces -/

section Tokenize

variable {acc after cs inner : List Char} {tokens : List Token} {c : Char}

-- The equations of `tokenizeFrom` are derived here once, and not by each lemma below.
attribute [local simp] tokenizeFrom

theorem tokenizeFrom_nil (acc : List Char) : tokenizeFrom [] acc = .ok (flushText acc) := by
  rw [tokenizeFrom]

/-- A character that starts no tag is text. -/
theorem tokenizeFrom_char (h : ¬['{', '{'] <+: c :: cs) :
    tokenizeFrom (c :: cs) acc = tokenizeFrom cs (acc ++ [c]) := by
  rw [tokenizeFrom]
  · rintro after rfl rfl
    exact h ⟨'{' :: after, rfl⟩
  · rintro after rfl rfl
    exact h ⟨after, rfl⟩

/-- A triple tag is a token between what is before it and what is after it. -/
theorem tokenizeFrom_triple (hok : (Piece.triple inner).Ok) :
    tokenizeFrom ((Piece.triple inner).chars ++ after) acc =
      (tokenizeFrom after []).map fun tokens =>
        flushText acc ++ (Piece.triple inner).token :: tokens := by
  have hcut : cutAt ['}', '}', '}'] (inner ++ (['}', '}', '}'] ++ after)) = some (inner, after) :=
    cutAt_of_closed (List.cons_ne_nil _ _) hok.1
  have hchars : (Piece.triple inner).chars ++ after =
      '{' :: '{' :: '{' :: (inner ++ (['}', '}', '}'] ++ after)) := by
    rw [← List.append_assoc]
    rfl
  rw [hchars, tokenizeFrom]
  split
  · rename_i hnone
    rw [hcut] at hnone
    cases hnone
  · rename_i inner' remaining hsome
    rw [hcut] at hsome
    cases hsome
    rw [classifyTag_triple, if_neg hok.2]
    cases tokenizeFrom after [] <;> rfl

theorem tokenizeFrom_tag (hok : (Piece.tag inner).Ok) :
    tokenizeFrom ((Piece.tag inner).chars ++ after) acc =
      (tokenizeFrom after []).map fun tokens =>
        flushText acc ++ (Piece.tag inner).token :: tokens := by
  obtain ⟨hclosed, hhead, hname⟩ := hok
  have hcut : cutAt ['}', '}'] (inner ++ (['}', '}'] ++ after)) = some (inner, after) :=
    cutAt_of_closed (List.cons_ne_nil _ _) hclosed
  have hchars : (Piece.tag inner).chars ++ after =
      '{' :: '{' :: (inner ++ (['}', '}'] ++ after)) := by
    rw [← List.append_assoc]
    rfl
  rw [hchars, tokenizeFrom]
  · split
    · rename_i hnone
      rw [hcut] at hnone
      cases hnone
    · rename_i inner' remaining hsome
      rw [hcut] at hsome
      cases hsome
      rw [classifyTag_tag, if_neg hname]
      cases tokenizeFrom after [] <;> rfl
  · -- a third brace would be the first character between the braces
    intro after' heq
    cases inner with
    | nil => cases heq
    | cons c inner =>
      cases heq
      exact hhead rfl

theorem of_tokenizeFrom_triple
    (h : tokenizeFrom ('{' :: '{' :: '{' :: cs) acc = .ok tokens) :
    ∃ inner after tokens', '{' :: '{' :: '{' :: cs = (Piece.triple inner).chars ++ after ∧
      (Piece.triple inner).Ok ∧ tokenizeFrom after [] = .ok tokens' ∧
      tokens = flushText acc ++ (Piece.triple inner).token :: tokens' := by
  rw [tokenizeFrom] at h
  split at h
  · cases h
  · rename_i inner after hcut
    obtain ⟨token, htoken, h⟩ := bind_eq_ok h
    obtain ⟨tokens', htokens, h⟩ := bind_eq_ok h
    rw [classifyTag_triple] at htoken
    split at htoken
    · cases htoken
    · rename_i hname
      obtain ⟨rfl, hclosed⟩ := closed_of_cutAt (List.cons_ne_nil _ _) hcut
      cases htoken
      cases h
      refine ⟨inner, after, tokens', ?_, ⟨hclosed, hname⟩, htokens, rfl⟩
      rw [← List.append_assoc]
      rfl

theorem of_tokenizeFrom_tag (hhead : cs.head? ≠ some '{')
    (h : tokenizeFrom ('{' :: '{' :: cs) acc = .ok tokens) :
    ∃ inner after tokens', '{' :: '{' :: cs = (Piece.tag inner).chars ++ after ∧
      (Piece.tag inner).Ok ∧ tokenizeFrom after [] = .ok tokens' ∧
      tokens = flushText acc ++ (Piece.tag inner).token :: tokens' := by
  rw [tokenizeFrom] at h
  · split at h
    · cases h
    · rename_i inner after hcut
      obtain ⟨token, htoken, h⟩ := bind_eq_ok h
      obtain ⟨tokens', htokens, h⟩ := bind_eq_ok h
      rw [classifyTag_tag] at htoken
      split at htoken
      · cases htoken
      · rename_i hname
        obtain ⟨rfl, hclosed⟩ := closed_of_cutAt (List.cons_ne_nil _ _) hcut
        cases htoken
        cases h
        have hinner : inner.head? ≠ some '{' := by
          cases inner with
          | nil => exact fun h => by cases h
          | cons c inner => exact hhead
        refine ⟨inner, after, tokens', ?_, ⟨hclosed, hinner, hname⟩, htokens, rfl⟩
        rw [← List.append_assoc]
        rfl
  · rintro after rfl
    exact hhead rfl

/-- Literal text is kept for the next token. -/
theorem tokenizeFrom_text {t rest : List Char} (ht : ¬['{', '{'] <:+: t)
    (hseam : t.getLast? = some '{' → rest.head? ≠ some '{') :
    tokenizeFrom (t ++ rest) acc = tokenizeFrom rest (acc ++ t) := by
  induction t generalizing acc with
  | nil => rw [List.nil_append, List.append_nil]
  | cons c t ih =>
    have hchar : ¬['{', '{'] <+: c :: (t ++ rest) := by
      intro hpre
      obtain ⟨hc, hpre'⟩ := List.cons_prefix_cons.1 hpre
      cases t with
      | nil =>
        obtain ⟨more, hmore⟩ := hpre'
        refine hseam (by rw [← hc]; rfl) ?_
        rw [List.nil_append] at hmore
        rw [← hmore]
        rfl
      | cons d t =>
        obtain ⟨hd, -⟩ := List.cons_prefix_cons.1 hpre'
        exact ht ⟨[], t, by rw [← hc, ← hd]; rfl⟩
    have ht' : ¬['{', '{'] <:+: t := fun hin => ht (hin.trans (List.suffix_cons c t).isInfix)
    have hseam' : t.getLast? = some '{' → rest.head? ≠ some '{' := by
      intro hlast
      refine hseam ?_
      rw [List.getLast?_cons, hlast]
      rfl
    rw [List.cons_append, tokenizeFrom_char hchar, ih ht' hseam', List.append_assoc,
      List.singleton_append]

/-- An opening brace at the end of a text does not meet one of the next piece. -/
theorem seam_of_chain {t : List Char} {pieces : List Piece}
    (hchain : (Piece.text t :: pieces).IsChain Piece.Before) :
    t.getLast? = some '{' → (pieces.flatMap Piece.chars).head? ≠ some '{' := by
  intro hlast
  cases pieces with
  | nil => exact fun h => by cases h
  | cons p pieces =>
    have hbefore := (List.isChain_cons_cons.1 hchain).1
    cases p with
    | text t' => exact hbefore.elim
    | tag inner => exact absurd hlast hbefore
    | triple inner => exact absurd hlast hbefore

theorem flushText_of_ne {t : List Char} (ht : t ≠ []) : flushText t = [.text (String.ofList t)] := by
  rw [flushText, if_neg (by simpa using ht)]

/-- **The tokens of pieces are read off one by one.** -/
theorem tokenizeFrom_pieces {pieces : List Piece} (hok : ∀ piece ∈ pieces, piece.Ok)
    (hchain : pieces.IsChain Piece.Before)
    (hacc : acc ≠ [] → ∀ t rest, pieces ≠ .text t :: rest) :
    tokenizeFrom (pieces.flatMap Piece.chars) acc =
      .ok (flushText acc ++ pieces.map Piece.token) := by
  induction pieces generalizing acc with
  | nil => rw [List.flatMap_nil, tokenizeFrom_nil, List.map_nil, List.append_nil]
  | cons piece pieces ih =>
    have hpiece := hok piece List.mem_cons_self
    have hrest : ∀ p ∈ pieces, p.Ok := fun p hp => hok p (List.mem_cons_of_mem _ hp)
    have hafter : tokenizeFrom (pieces.flatMap Piece.chars) [] =
        .ok (flushText [] ++ pieces.map Piece.token) :=
      ih hrest (List.isChain_of_isChain_cons hchain) fun hne => absurd rfl hne
    rw [List.flatMap_cons]
    cases piece with
    | text t =>
      have hacc' : acc = [] := by
        by_contra hne
        exact hacc hne t pieces rfl
      have hseam := seam_of_chain hchain
      have hnext : t ≠ [] → ∀ t' rest, pieces ≠ .text t' :: rest := by
        rintro - t' rest rfl
        exact (List.isChain_cons_cons.1 hchain).1
      rw [hacc', Piece.chars, tokenizeFrom_text hpiece.2 hseam, List.nil_append,
        ih hrest (List.isChain_of_isChain_cons hchain) hnext, flushText_of_ne hpiece.1]
      rfl
    | tag inner =>
      rw [tokenizeFrom_tag hpiece, hafter]
      rfl
    | triple inner =>
      rw [tokenizeFrom_triple hpiece, hafter]
      rfl

/-- What is still to read, after the literal text `acc`, is more text `t` and then pieces. -/
structure ReadAs (acc rest : List Char) (tokens : List Token) (t : List Char)
    (pieces : List Piece) : Prop where
  ok : ∀ piece ∈ pieces, piece.Ok
  chain : pieces.IsChain Piece.Before
  eq : rest = t ++ pieces.flatMap Piece.chars
  tag : ∀ t' more, pieces ≠ .text t' :: more
  literal : ¬['{', '{'] <:+: acc ++ t
  seam : pieces ≠ [] → (acc ++ t).getLast? ≠ some '{'
  tokens : tokens = flushText (acc ++ t) ++ pieces.map Piece.token

theorem ReadAs.written {rest t : List Char} {pieces : List Piece}
    (h : ReadAs [] rest tokens t pieces) :
    ∃ pieces', Written pieces' rest ∧ tokens = pieces'.map Piece.token := by
  have hliteral := h.literal
  have hseam := h.seam
  have htokens := h.tokens
  rw [List.nil_append] at hliteral hseam htokens
  by_cases ht : t = []
  · subst ht
    exact ⟨pieces, ⟨h.ok, h.chain, h.eq⟩, htokens⟩
  · refine ⟨.text t :: pieces, ⟨?_, ?_, h.eq⟩, ?_⟩
    · exact List.forall_mem_cons.2 ⟨⟨ht, hliteral⟩, h.ok⟩
    · cases pieces with
      | nil => exact .singleton _
      | cons p pieces =>
        refine List.isChain_cons_cons.2 ⟨?_, h.chain⟩
        cases p with
        | text t' => exact absurd rfl (h.tag t' pieces)
        | tag inner => exact hseam (List.cons_ne_nil _ _)
        | triple inner => exact hseam (List.cons_ne_nil _ _)
    · rw [htokens, flushText_of_ne ht]
      rfl

/-- A tag before what is read as pieces. -/
theorem readAs_tag {piece : Piece} {tokens' : List Token} (hpiece : piece.Ok)
    (htag : ∀ t, piece ≠ .text t) (hacc : ¬['{', '{'] <:+: acc) (hseam : acc.getLast? ≠ some '{')
    (hafter : ∃ t pieces, ReadAs [] after tokens' t pieces) :
    ∃ t pieces, ReadAs acc (piece.chars ++ after)
      (flushText acc ++ piece.token :: tokens') t pieces := by
  obtain ⟨t, pieces, hread⟩ := hafter
  obtain ⟨pieces', hwritten, rfl⟩ := hread.written
  refine ⟨[], piece :: pieces', List.forall_mem_cons.2 ⟨hpiece, hwritten.ok⟩, ?_, ?_, ?_, ?_, ?_, ?_⟩
  · cases pieces' with
    | nil => exact .singleton _
    | cons p pieces' =>
      refine List.isChain_cons_cons.2 ⟨?_, hwritten.chain⟩
      cases piece with
      | text t => exact absurd rfl (htag t)
      | tag inner => cases p <;> trivial
      | triple inner => cases p <;> trivial
  · rw [List.nil_append, List.flatMap_cons, ← hwritten.eq]
  · intro t' more heq
    exact htag t' (List.cons.inj heq).1
  · rwa [List.append_nil]
  · rw [List.append_nil]
    exact fun _ => hseam
  · rw [List.append_nil, List.map_cons]

/-- A character of text before what is read as more of it. -/
theorem ReadAs.char {t : List Char} {pieces : List Piece}
    (h : ReadAs (acc ++ [c]) cs tokens t pieces) : ReadAs acc (c :: cs) tokens (c :: t) pieces := by
  obtain ⟨hok, hchain, heq, htag, hliteral, hseam, htokens⟩ := h
  have hshift : acc ++ [c] ++ t = acc ++ c :: t := by
    rw [List.append_assoc, List.singleton_append]
  rw [hshift] at hliteral hseam htokens
  exact ⟨hok, hchain, by rw [heq, List.cons_append], htag, hliteral, hseam, htokens⟩

/-- What starts a tag has its token first. -/
theorem of_tokenizeFrom_pair (h : tokenizeFrom ('{' :: '{' :: cs) acc = .ok tokens) :
    ∃ (piece : Piece) (after : List Char) (tokens' : List Token),
      '{' :: '{' :: cs = piece.chars ++ after ∧ piece.Ok ∧ (∀ t, piece ≠ .text t) ∧
      tokenizeFrom after [] = .ok tokens' ∧ tokens = flushText acc ++ piece.token :: tokens' := by
  by_cases hthird : cs.head? = some '{'
  · obtain ⟨cs, rfl⟩ := List.head?_eq_some_iff.1 hthird
    obtain ⟨inner, after, tokens', heq, hok, htokens, rfl⟩ := of_tokenizeFrom_triple h
    exact ⟨_, after, tokens', heq, hok, nofun, htokens, rfl⟩
  · obtain ⟨inner, after, tokens', heq, hok, htokens, rfl⟩ := of_tokenizeFrom_tag hthird h
    exact ⟨_, after, tokens', heq, hok, nofun, htokens, rfl⟩

/-- **What has tokens is text and pieces.** -/
theorem readAs_of_tokenizeFrom {n : ℕ} {rest : List Char} (hn : rest.length ≤ n)
    (hacc : ¬['{', '{'] <:+: acc) (hseam : acc.getLast? = some '{' → rest.head? ≠ some '{')
    (h : tokenizeFrom rest acc = .ok tokens) : ∃ t pieces, ReadAs acc rest tokens t pieces := by
  induction n generalizing rest acc tokens with
  | zero =>
    obtain rfl := List.length_eq_zero_iff.1 (Nat.le_zero.1 hn)
    rw [tokenizeFrom_nil] at h
    cases h
    have htag : ∀ t' more, ([] : List Piece) ≠ .text t' :: more := fun _ _ h => by cases h
    exact ⟨[], [], by simp, .nil, rfl, htag, by rwa [List.append_nil], fun hne => absurd rfl hne,
      by rw [List.append_nil, List.map_nil, List.append_nil]⟩
  | succ n ih =>
    cases rest with
    | nil => exact ih (Nat.zero_le _) hacc hseam h
    | cons c cs =>
      have hlen : cs.length ≤ n := by simpa using hn
      by_cases hpre : ['{', '{'] <+: c :: cs
      · -- a tag, of two braces or of three
        obtain ⟨hc, hpre'⟩ := List.cons_prefix_cons.1 hpre
        obtain ⟨more, hmore⟩ := hpre'
        subst hc
        obtain rfl : '{' :: more = cs := hmore
        have hlast : acc.getLast? ≠ some '{' := fun hlast => hseam hlast rfl
        obtain ⟨piece, after, tokens', heq, hok, htag, htokens, rfl⟩ := of_tokenizeFrom_pair h
        have hafter : after.length ≤ n := by
          have hle := congrArg List.length heq
          have hpos : piece.chars.length ≠ 0 := by
            cases piece with
            | text t => exact absurd rfl (htag t)
            | tag inner => exact Nat.succ_ne_zero _
            | triple inner => exact Nat.succ_ne_zero _
          simp only [List.length_append, List.length_cons] at hle hlen
          omega
        have hfresh := ih hafter (by simp) (fun h => by cases h) htokens
        rw [heq]
        exact readAs_tag hok htag hacc hlast hfresh
      · -- a character of text
        rw [tokenizeFrom_char hpre] at h
        have hacc' : ¬['{', '{'] <:+: acc ++ [c] := by
          rw [pair_infix_concat]
          rintro (hin | ⟨hlast, rfl⟩)
          · exact hacc hin
          · exact hseam hlast rfl
        have hseam' : (acc ++ [c]).getLast? = some '{' → cs.head? ≠ some '{' := by
          rw [List.getLast?_concat]
          rintro hc hhead
          obtain rfl := Option.some.inj hc
          obtain ⟨more, rfl⟩ := List.head?_eq_some_iff.1 hhead
          exact hpre ⟨more, rfl⟩
        obtain ⟨t, pieces, hread⟩ := ih hlen hacc' hseam' h
        exact ⟨c :: t, pieces, hread.char⟩

/-- **A text has tokens if it is written as pieces, and then theirs.** -/
theorem tokenize_iff {tpl : String} :
    tokenize tpl = .ok tokens ↔
      ∃ pieces, Written pieces tpl.toList ∧ tokens = pieces.map Piece.token := by
  constructor
  · intro h
    obtain ⟨t, pieces, hread⟩ :=
      readAs_of_tokenizeFrom le_rfl (by simp) (fun h => by cases h) h
    exact hread.written
  · rintro ⟨pieces, hwritten, rfl⟩
    rw [tokenize, hwritten.eq]
    exact tokenizeFrom_pieces hwritten.ok hwritten.chain fun hne => absurd rfl hne

/-- **A template parses to the tree that its tokens are those of.** -/
theorem parseTemplate_iff {tpl : String} {nodes : List Node} :
    parseTemplate tpl = .ok nodes ↔ tokenize tpl = .ok (tokensOf nodes) := by
  constructor
  · intro h
    obtain ⟨tokens, htokens, h⟩ := bind_eq_ok h
    obtain ⟨⟨nodes', left⟩, hnodes, h⟩ := bind_eq_ok h
    cases h
    rw [htokens, (parses_iff.1 ⟨left, hnodes, rfl⟩).1]
  · intro h
    obtain ⟨left, hnodes, -⟩ : Parses none (tokensOf nodes) nodes [] := parses_iff.2 ⟨rfl, rfl⟩
    rw [parseTemplate, h]
    change (do
      let (nodes, _) ← parseNodes none (tokensOf nodes)
      return nodes) = _
    rw [hnodes]
    rfl

end Tokenize

end Routeplane.Prompts
