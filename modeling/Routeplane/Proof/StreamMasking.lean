import Routeplane.Guardrails.Passes
import Routeplane.Guardrails.Redact
import Routeplane.Lib.Pattern
import Routeplane.Proof.Smuggled

/-!
# A stream masked like the text

A push emits the mask of a part of the text and holds the rest, so the parts make up the text. The
masks of the parts are the mask of the text where each cut leaves its two sides apart. That the mask
of the first part is what the mask of all that is held starts with does not say so: a match that
reaches over the cut may start with a shorter one of the same kind.

The masker replaces stretches of a text. Where none reaches over a cut, and none is there because of
what is beyond the cut, the parts can be masked one by one.

* `rewrites`, `redact_eq`: the masker is a run of rewrites, after the pass over what is hidden.
* `PartsApart`: each pass replaces in the text what it replaces in its parts.
* `masked_append`: such a text is masked part by part.
* `settled`, `push_eq`: what a push takes off.
* `faithful_iff`: what is emitted is what the mask of the text starts with, in every state, where the
  mask divides at each cut.
* `stream_masked`: what holds of every stream, and of those whose cuts leave their sides apart.
* `key_leaks`: a key of which the end is emitted.
-/

namespace Routeplane.Guardrails

open Pattern

def Pass.rewrite (p : Pass) : Rewrite :=
  ⟨p.pattern, fun text m => if p.takes text m then p.token.toList else m.text⟩

section

variable (U : UnicodeTables)

/-- The passes for secrets. -/
def secretRewrites : List Rewrite :=
  let every (p : Pattern) (token : String) : Rewrite := (Pass.of p (fun _ => true) token).rewrite
  [every Recognizer.privateKey "[PRIVATE_KEY_MASKED]",
    ⟨Recognizer.jsonSecret, fun _ => maskJsonSecret⟩,
    (Pass.of (Recognizer.connectionString U) isConnectionString
      "[CONNECTION_STRING_MASKED]").rewrite,
    every (Recognizer.cloudResourceId U) "[CLOUD_RESOURCE_ID_MASKED]",
    (Pass.of Recognizer.schemaDump isSchemaDump "[SCHEMA_DUMP_MASKED]").rewrite,
    every (Recognizer.jwt U) "[JWT_MASKED]", every (Recognizer.openaiKey U) "[OPENAI_KEY_MASKED]",
    every (Recognizer.awsKey U) "[AWS_KEY_MASKED]",
    every (Recognizer.githubToken U) "[GITHUB_TOKEN_MASKED]",
    every (Recognizer.slackToken U) "[SLACK_TOKEN_MASKED]",
    every (Recognizer.stripeKey U) "[STRIPE_KEY_MASKED]",
    every (Recognizer.googleApiKey U) "[GOOGLE_API_KEY_MASKED]",
    every (Recognizer.routeplaneKey U) "[ROUTEPLANE_KEY_MASKED]"]

/-- All passes, in order. -/
def rewrites : List Rewrite := secretRewrites U ++ (personalPasses U).map Pass.rewrite

variable {U}

theorem Pass.run_rewrite (p : Pass) (text : List Char) : p.rewrite.run text = p.run text := rfl

theorem runAll_secretRewrites (text : List Char) :
    runAll (secretRewrites U) text = maskSecrets U text := by
  have hjson : ∀ out, (⟨Recognizer.jsonSecret, fun _ => maskJsonSecret⟩ : Rewrite).run out =
      maskJsonSecrets out := fun out => rfl
  unfold runAll secretRewrites maskSecrets
  simp only [List.foldl_cons, List.foldl_nil, hjson, Pass.run_rewrite, Pass.run_all]
  simp only [Pass.run_of]

theorem runAll_rewrites (text : List Char) : runAll (rewrites U) text =
    (personalPasses U).foldl (fun out p => p.run out) (maskSecrets U text) := by
  unfold rewrites
  rw [runAll_concat, runAll_secretRewrites]
  exact List.foldl_map

/-- The gate in front of the passes asks for each of their patterns. -/
theorem pattern_mem_all : ∀ r ∈ rewrites U, r.pattern ∈ Recognizer.all U := by
  unfold rewrites secretRewrites personalPasses Recognizer.all
  simp only [List.map_cons, List.map_nil, List.cons_append, List.nil_append, List.forall_mem_cons,
    List.not_mem_nil, false_imp_iff, implies_true, and_true]
  simp only [Pass.rewrite, Pass.of, List.mem_cons, true_or, or_true, and_self]

/-! ## What is hidden -/

variable (U)

/-- What the pass over what is hidden claims of a text, from left to right. -/
def hiddenClaims (text : List Char) : List Claim :=
  if !containsInvisibleUnicode text && !containsConfusable text then []
  else ((smuggledClaims U text).getD []).insertionSort fun a b => a.start ≤ b.start

/-- The text after that pass. -/
def unhidden (text : List Char) : List Char := (maskInvisibleSmuggled U text).getD []

/-- The text after all passes. -/
def masked (text : List Char) : List Char := runAll (rewrites U) (unhidden U text)

theorem maskInvisibleSmuggled_eq (text : List Char) :
    maskInvisibleSmuggled U text = some (unhidden U text) := by
  obtain ⟨out, hout⟩ := exists_masked_smuggled U text
  unfold unhidden
  rw [hout]
  rfl

/-- **The masker is a run of rewrites.** Where the gate is shut none of them has a match. -/
theorem redact_eq (text : List Char) : redact U text = some (masked U text) := by
  have hworking := maskInvisibleSmuggled_eq U text
  cases hany : anyPiiOrSecret U (unhidden U text) with
  | true =>
    rw [redact_of_working U hworking hany, ← runAll_rewrites]
    rfl
  | false =>
    have hquiet : masked U text = unhidden U text := by
      refine runAll_of_quiet fun r hr => ?_
      exact Bool.eq_false_iff.2 (List.any_eq_false.1 hany r.pattern (pattern_mem_all r hr))
    unfold redact
    rw [hworking, hquiet]
    show (if (!anyPiiOrSecret U (unhidden U text)) = true then _ else _) = _
    rw [hany]
    rfl

variable {U}

/-! ## Slices of a text in two parts -/

theorem exists_of_dropBytes : ∀ {n : ℕ} {s rest : List Char}, dropBytes n s = some rest →
    ∃ first, s = first ++ rest ∧ byteLen first = n
  | n, [], rest, h => by
    unfold dropBytes at h
    split at h
    · rename_i hn
      cases h
      exact ⟨[], rfl, hn.symm⟩
    · cases h
  | n, c :: cs, rest, h => by
    unfold dropBytes at h
    split at h
    · rename_i hn
      cases h
      exact ⟨[], rfl, hn.symm⟩
    · split at h
      · obtain ⟨first, rfl, hlen⟩ := exists_of_dropBytes h
        refine ⟨c :: first, rfl, ?_⟩
        rw [byteLen_cons]
        omega
      · cases h

theorem exists_of_takeBytes : ∀ {n : ℕ} {s first : List Char}, takeBytes n s = some first →
    ∃ rest, s = first ++ rest ∧ byteLen first = n
  | n, [], first, h => by
    unfold takeBytes at h
    split at h
    · rename_i hn
      cases h
      exact ⟨[], rfl, hn.symm⟩
    · cases h
  | n, c :: cs, first, h => by
    unfold takeBytes at h
    split at h
    · rename_i hn
      cases h
      exact ⟨c :: cs, rfl, hn.symm⟩
    · split at h
      · obtain ⟨more, hmore, rfl⟩ := Option.map_eq_some_iff.1 h
        obtain ⟨rest, rfl, hlen⟩ := exists_of_takeBytes hmore
        refine ⟨rest, rfl, ?_⟩
        rw [byteLen_cons]
        omega
      · cases h

/-- A slice, by what is before and after it. -/
theorem slice_eq_some_iff {s w : List Char} {a b : ℕ} : slice s a b = some w ↔
    ∃ before after, s = before ++ (w ++ after) ∧ byteLen before = a ∧ a + byteLen w = b := by
  constructor
  · intro h
    unfold slice at h
    split at h
    · cases h
    · obtain ⟨rest, hdrop, htake⟩ := Option.bind_eq_some_iff.1 h
      obtain ⟨before, rfl, hbefore⟩ := exists_of_dropBytes hdrop
      obtain ⟨after, rfl, hlen⟩ := exists_of_takeBytes htake
      exact ⟨before, after, rfl, hbefore, by omega⟩
  · rintro ⟨before, after, rfl, rfl, rfl⟩
    unfold slice
    rw [if_neg (by omega), dropBytes_append, Option.bind_some, Nat.add_sub_cancel_left]
    exact takeBytes_append w after

section

variable {u v w x : List Char} {a b : ℕ}

theorem slice_left (h : slice u a b = some w) : slice (u ++ v) a b = some w := by
  obtain ⟨before, after, rfl, hbefore, hlen⟩ := slice_eq_some_iff.1 h
  refine slice_eq_some_iff.2 ⟨before, after ++ v, ?_, hbefore, hlen⟩
  rw [List.append_assoc, List.append_assoc]

theorem slice_right (h : slice v a b = some w) :
    slice (u ++ v) (byteLen u + a) (byteLen u + b) = some w := by
  obtain ⟨before, after, rfl, hbefore, hlen⟩ := slice_eq_some_iff.1 h
  refine slice_eq_some_iff.2 ⟨u ++ before, after, (List.append_assoc ..).symm, ?_, by omega⟩
  rw [byteLen_append, hbefore]

/-- A slice over the cut. -/
theorem slice_over (h : slice u a (byteLen u) = some w) (h' : slice v 0 b = some x) :
    slice (u ++ v) a (byteLen u + b) = some (w ++ x) := by
  obtain ⟨before, after, hu, hbefore, hlen⟩ := slice_eq_some_iff.1 h
  obtain ⟨before', after', hv, hbefore', hlen'⟩ := slice_eq_some_iff.1 h'
  have hall := congrArg byteLen hu
  rw [byteLen_append, byteLen_append] at hall
  have hafter : after = [] := by
    by_contra hne
    have hpos := byteLen_pos hne
    omega
  have hnone : before' = [] := by
    by_contra hne
    have hpos := byteLen_pos hne
    omega
  refine slice_eq_some_iff.2 ⟨before, after', ?_, hbefore, ?_⟩
  · rw [hu, hv, hafter, hnone, List.append_nil, List.nil_append, List.append_assoc,
      List.append_assoc]
  · rw [byteLen_append]
    omega

end

/-! ## Splices of a text in two parts -/

/-- A claim, with its bytes `n` further on. -/
def Claim.shift (n : ℕ) (c : Claim) : Claim := ⟨n + c.start, n + c.stop, c.token⟩

section

variable {u v x y : List Char} {cursor : ℕ}

theorem splice_right {claims : List Claim} (h : splice v cursor claims = some y) :
    splice (u ++ v) (byteLen u + cursor) (claims.map (Claim.shift (byteLen u))) = some y := by
  induction claims generalizing cursor y with
  | nil =>
    show slice (u ++ v) (byteLen u + cursor) (byteLen (u ++ v)) = some y
    rw [byteLen_append]
    exact slice_right h
  | cons c claims ih =>
    obtain ⟨before, hbefore, h⟩ := Option.bind_eq_some_iff.1 h
    obtain ⟨rest, hrest, h⟩ := Option.bind_eq_some_iff.1 h
    refine Option.bind_eq_some_iff.2 ⟨before, slice_right hbefore, ?_⟩
    exact Option.bind_eq_some_iff.2 ⟨rest, ih hrest, h⟩

/-- **A splice is made part by part** where the claims of the text are those of its parts. -/
theorem splice_append {claims claims' : List Claim} (h : splice u cursor claims = some x)
    (h' : splice v 0 claims' = some y) :
    splice (u ++ v) cursor (claims ++ claims'.map (Claim.shift (byteLen u))) = some (x ++ y) := by
  induction claims generalizing cursor x with
  | nil =>
    cases claims' with
    | nil =>
      show slice (u ++ v) cursor (byteLen (u ++ v)) = some (x ++ y)
      rw [byteLen_append]
      exact slice_over h h'
    | cons c claims' =>
      obtain ⟨before, hbefore, h'⟩ := Option.bind_eq_some_iff.1 h'
      obtain ⟨rest, hrest, h'⟩ := Option.bind_eq_some_iff.1 h'
      cases h'
      refine Option.bind_eq_some_iff.2 ⟨x ++ before, slice_over h hbefore, ?_⟩
      refine Option.bind_eq_some_iff.2 ⟨rest, splice_right hrest, ?_⟩
      show some (x ++ before ++ c.token.toList ++ rest) = _
      rw [List.append_assoc x, List.append_assoc x]
  | cons c claims ih =>
    obtain ⟨before, hbefore, h⟩ := Option.bind_eq_some_iff.1 h
    obtain ⟨rest, hrest, h⟩ := Option.bind_eq_some_iff.1 h
    cases h
    refine Option.bind_eq_some_iff.2 ⟨before, slice_left hbefore, ?_⟩
    refine Option.bind_eq_some_iff.2 ⟨rest ++ y, ih hrest, ?_⟩
    show some (before ++ c.token.toList ++ (rest ++ y)) = _
    rw [← List.append_assoc]

end

/-! ## A text in two parts -/

theorem slice_all (text : List Char) : slice text 0 (byteLen text) = some text :=
  slice_eq_some_iff.2 ⟨[], [], (List.append_nil text).symm, rfl, Nat.zero_add _⟩

variable (U)

theorem splice_hiddenClaims (text : List Char) :
    splice text 0 (hiddenClaims U text) = some (unhidden U text) := by
  have hpass := maskInvisibleSmuggled_eq U text
  unfold maskInvisibleSmuggled at hpass
  unfold hiddenClaims
  split at hpass
  · rename_i hplain
    rw [if_pos hplain, ← hpass]
    exact slice_all text
  · rename_i hplain
    obtain ⟨claims, hclaims, hpass⟩ := Option.bind_eq_some_iff.1 hpass
    rw [if_neg hplain, hclaims, Option.getD_some]
    split at hpass
    · rename_i hnil
      rw [hnil, ← hpass]
      exact slice_all text
    · exact hpass

/-- Each pass replaces in a text what it replaces in its parts: nothing that reaches over the cut, and
nothing because of what is beyond it. -/
def PartsApart (u v : List Char) : Prop :=
  hiddenClaims U (u ++ v) = hiddenClaims U u ++ (hiddenClaims U v).map (Claim.shift (byteLen u)) ∧
    Apart (rewrites U) (unhidden U u) (unhidden U v)

variable {U}

/-- **A text is masked part by part** where its parts are apart. -/
theorem masked_append {u v : List Char} (h : PartsApart U u v) :
    masked U (u ++ v) = masked U u ++ masked U v := by
  obtain ⟨hhidden, hpasses⟩ := h
  have hsplice := splice_append (splice_hiddenClaims U u) (splice_hiddenClaims U v)
  rw [← hhidden, splice_hiddenClaims] at hsplice
  unfold masked
  rw [Option.some.inj hsplice]
  exact runAll_append hpasses

theorem partsApart_of_live {u v : List Char}
    (hhidden : hiddenClaims U (u ++ v) =
      hiddenClaims U u ++ (hiddenClaims U v).map (Claim.shift (byteLen u)))
    (hpasses : apartLive (rewrites U) (unhidden U u) (unhidden U v) = true) : PartsApart U u v :=
  ⟨hhidden, apart_of_live hpasses⟩

theorem masked_nil : masked U [] = [] := runAll_nil

end

end Routeplane.Guardrails

/-! ## A stream masked like the text -/

namespace Routeplane.Guardrails.StreamMasker

open Pattern

/-! ## What a push takes off -/

theorem isCharBoundary_walk (s : List Char) (i : ℕ) :
    isCharBoundary s (walkToBoundary s i) = true := by
  induction i with
  | zero =>
    cases s with
    | nil => rfl
    | cons c cs => rfl
  | succ i ih =>
    unfold walkToBoundary
    split
    · rename_i hbound
      exact hbound
    · exact ih

section

variable (mask : Mask) (held : List Char)

/-- What is before the window, up to a character. -/
def splitPoint : ℕ := floorCharBoundary held (byteLen held - streamMaskWindowBytes)

def beforeSplit : List Char := (takeBytes (splitPoint held) held).getD []

/-- The mask of a part is what the mask of the whole starts with. -/
def agrees (part whole : List Char) : Bool :=
  (mask part).any fun p => (mask whole).any fun w => p.isPrefixOf w

/-- What a push takes off the text that is held. -/
def settled : List Char :=
  if byteLen held ≤ streamMaskWindowBytes then []
  else if streamMaskMaxCarryBytes < byteLen held then held
  else if agrees mask (beforeSplit held) held then beforeSplit held
  else []

/-- What is held from then on. -/
def unsettled : List Char := held.drop (settled mask held).length

theorem exists_beforeSplit : ∃ rest, takeBytes (splitPoint held) held = some (beforeSplit held) ∧
    held = beforeSplit held ++ rest ∧ byteLen (beforeSplit held) = splitPoint held := by
  obtain ⟨first, hfirst⟩ := Option.isSome_iff_exists.1 (isCharBoundary_walk held
    (min (byteLen held - streamMaskWindowBytes) (byteLen held)))
  have htake : takeBytes (splitPoint held) held = some first := hfirst
  have hbefore : beforeSplit held = first := by
    unfold beforeSplit
    rw [htake]
    rfl
  obtain ⟨rest, hrest, hlen⟩ := exists_of_takeBytes htake
  rw [hbefore]
  exact ⟨rest, htake, hrest, hlen⟩

theorem settled_isPrefix : settled mask held <+: held := by
  obtain ⟨rest, -, hrest, -⟩ := exists_beforeSplit held
  unfold settled
  split
  · exact List.nil_prefix
  · split
    · exact List.prefix_rfl
    · split
      · exact ⟨rest, hrest.symm⟩
      · exact List.nil_prefix

/-- **Nothing is lost and nothing repeated.** -/
theorem settled_append_unsettled : settled mask held ++ unsettled mask held = held :=
  List.prefix_iff_eq_append.1 (settled_isPrefix mask held)

theorem byteLen_unsettled : byteLen (unsettled mask held) ≤ streamMaskMaxCarryBytes := by
  have hall := congrArg byteLen (settled_append_unsettled mask held)
  rw [byteLen_append] at hall
  by_cases hover : streamMaskMaxCarryBytes < byteLen held
  · -- all is taken off
    have hwindow : ¬byteLen held ≤ streamMaskWindowBytes := by
      unfold streamMaskMaxCarryBytes at hover
      omega
    have hsettled : settled mask held = held := by
      unfold settled
      rw [if_neg hwindow, if_pos hover]
    rw [hsettled] at hall
    omega
  · omega

end

section

variable (f : List Char → List Char)

/-- The mask of a caller whose masking function does not panic. -/
abbrev total : Mask := fun text => some (f text)

variable {f}

/-- What is left of a push, by what it takes off. -/
theorem pushed_eq {held out rest : List Char} (h : settled (total f) held = out)
    (hrest : held = out ++ rest) :
    (some (f out, ⟨rest⟩) : Option (List Char × StreamMasker)) =
      some (f (settled (total f) held), ⟨unsettled (total f) held⟩) := by
  have hdrop : unsettled (total f) held = rest := by
    unfold unsettled
    rw [h, hrest, List.drop_left]
  rw [h, hdrop]

/-- A push that takes nothing off. -/
theorem kept_eq (hnil : f [] = []) {held : List Char} (h : settled (total f) held = []) :
    (some ([], ⟨held⟩) : Option (List Char × StreamMasker)) =
      some (f (settled (total f) held), ⟨unsettled (total f) held⟩) := by
  rw [← pushed_eq h rfl, hnil]

/-- Between the window and the ceiling the two masks decide. -/
theorem settled_of_middle {held : List Char} (hshort : ¬byteLen held ≤ streamMaskWindowBytes)
    (hlong : ¬streamMaskMaxCarryBytes < byteLen held) : settled (total f) held =
      if agrees (total f) (beforeSplit held) held then beforeSplit held else [] := by
  unfold settled
  rw [if_neg hshort, if_neg hlong]

/-- The masks are compared where there is a character before the window. -/
theorem compared_eq (hnil : f [] = []) {held : List Char}
    (hshort : ¬byteLen held ≤ streamMaskWindowBytes)
    (hlong : ¬streamMaskMaxCarryBytes < byteLen held) :
    ((takeBytes (splitPoint held) held).bind fun part =>
      if (f part).isPrefixOf (f held) then
        (dropBytes (splitPoint held) held).map fun rest => (f part, (⟨rest⟩ : StreamMasker))
      else some ([], ⟨held⟩)) =
      some (f (settled (total f) held), ⟨unsettled (total f) held⟩) := by
  obtain ⟨rest, htake, hrest, hlen⟩ := exists_beforeSplit held
  have hcases := @settled_of_middle f held hshort hlong
  have hdrop : dropBytes (splitPoint held) held = some rest := by
    have h := dropBytes_append (beforeSplit held) rest
    rwa [← hrest, hlen] at h
  rw [htake, Option.bind_some]
  by_cases hagree : (f (beforeSplit held)).isPrefixOf (f held) = true
  · rw [if_pos hagree, hdrop]
    exact pushed_eq (hcases.trans (if_pos hagree)) hrest
  · rw [if_neg hagree]
    exact kept_eq hnil (hcases.trans (if_neg hagree))

/-- **A push emits the mask of what it takes off.** -/
theorem push_eq (hnil : f [] = []) {carry chunk held : List Char} (hheld : carry ++ chunk = held) :
    push (total f) ⟨carry⟩ chunk =
      some (f (settled (total f) held), ⟨unsettled (total f) held⟩) := by
  unfold push
  dsimp only
  rw [hheld]
  by_cases hshort : byteLen held ≤ streamMaskWindowBytes
  · rw [if_pos hshort]
    exact kept_eq hnil (if_pos hshort)
  · rw [if_neg hshort]
    by_cases hlong : streamMaskMaxCarryBytes < byteLen held
    · -- the ceiling is passed
      have hall : settled (total f) held = held := by
        unfold settled
        rw [if_neg hshort, if_pos hlong]
      have hsome : held ≠ [] := by
        rintro rfl
        exact hshort (Nat.zero_le _)
      rw [if_pos hlong]
      unfold flush
      rw [if_neg hsome]
      exact pushed_eq hall (List.append_nil held).symm
    · rw [if_neg hlong]
      by_cases hzero : splitPoint held = 0
      · -- there is no character before the window
        obtain ⟨_, -, -, hlen⟩ := exists_beforeSplit held
        have hnone : beforeSplit held = [] := by
          by_contra hne
          have hpos := byteLen_pos hne
          omega
        have hsettled : settled (total f) held = [] := by
          rw [settled_of_middle hshort hlong, hnone]
          split <;> rfl
        rw [if_pos (show floorCharBoundary held _ = 0 from hzero)]
        exact kept_eq hnil hsettled
      · rw [if_neg (show ¬floorCharBoundary held _ = 0 from hzero)]
        refine Eq.trans ?_ (compared_eq hnil hshort hlong)
        show (takeBytes (splitPoint held) held >>= _) = _
        cases takeBytes (splitPoint held) held with
        | none => rfl
        | some part =>
          change (if (f part).isPrefixOf (f held) then
            dropBytes (splitPoint held) held >>= fun rest => some (f part, (⟨rest⟩ : StreamMasker))
            else some ([], ⟨held⟩)) = _
          rw [Option.bind_some]
          split
          · cases dropBytes (splitPoint held) held <;> rfl
          · rfl

theorem flush_eq (hnil : f [] = []) (carry : List Char) :
    flush (total f) ⟨carry⟩ = some (f carry, ⟨[]⟩) := by
  unfold flush
  split
  · rename_i hempty
    have hcarry : carry = [] := hempty
    rw [hcarry, hnil]
  · rfl

end

/-! ## Runs -/

section

variable (mask : Mask)

/-- What the pushes take off, one after the other. -/
def parts : List Char → List (List Char) → List (List Char)
  | _, [] => []
  | carry, chunk :: chunks =>
    settled mask (carry ++ chunk) :: parts (unsettled mask (carry ++ chunk)) chunks

/-- What is held after the pushes. -/
def heldAfter : List Char → List (List Char) → List Char
  | carry, [] => carry
  | carry, chunk :: chunks => heldAfter (unsettled mask (carry ++ chunk)) chunks

/-- At each push that takes a part off, the part and all of the text after it are related. -/
def Cuts (P : List Char → List Char → Prop) : List Char → List (List Char) → Prop
  | _, [] => True
  | carry, chunk :: chunks =>
    P (settled mask (carry ++ chunk)) (unsettled mask (carry ++ chunk) ++ chunks.flatten) ∧
      Cuts P (unsettled mask (carry ++ chunk)) chunks

instance Cuts.decidable (P : List Char → List Char → Prop) [∀ u v, Decidable (P u v)] :
    ∀ carry chunks, Decidable (Cuts mask P carry chunks)
  | _, [] => isTrue trivial
  | carry, chunk :: chunks =>
    @instDecidableAnd _ _ _ (Cuts.decidable P (unsettled mask (carry ++ chunk)) chunks)

variable {mask} {P Q : List Char → List Char → Prop} {carry : List Char} {chunks : List (List Char)}

theorem Cuts.imp (h : Cuts mask P carry chunks) (himp : ∀ u v, P u v → Q u v) :
    Cuts mask Q carry chunks := by
  induction chunks generalizing carry with
  | nil => trivial
  | cons chunk chunks ih => exact ⟨himp _ _ h.1, ih h.2⟩

theorem flatten_parts : (parts mask carry chunks).flatten ++ heldAfter mask carry chunks =
    carry ++ chunks.flatten := by
  induction chunks generalizing carry with
  | nil => exact (List.append_nil carry).symm
  | cons chunk chunks ih =>
    show (settled mask (carry ++ chunk) :: parts mask _ chunks).flatten ++ heldAfter mask _ chunks = _
    rw [List.flatten_cons, List.append_assoc, ih, ← List.append_assoc, settled_append_unsettled,
      List.flatten_cons, List.append_assoc]

theorem byteLen_heldAfter (h : byteLen carry ≤ streamMaskMaxCarryBytes) :
    byteLen (heldAfter mask carry chunks) ≤ streamMaskMaxCarryBytes := by
  induction chunks generalizing carry with
  | nil => exact h
  | cons chunk chunks ih => exact ih (byteLen_unsettled mask (carry ++ chunk))

variable {f : List Char → List Char}

/-- **The outputs are the masks of the parts.** By induction on the chunks. -/
theorem pushAll_eq (hnil : f [] = []) : pushAll (total f) ⟨carry⟩ chunks =
    some ((parts (total f) carry chunks).map f, ⟨heldAfter (total f) carry chunks⟩) := by
  induction chunks generalizing carry with
  | nil => rfl
  | cons chunk chunks ih =>
    unfold pushAll
    rw [push_eq hnil rfl]
    show (pushAll (total f) ⟨unsettled (total f) (carry ++ chunk)⟩ chunks >>= _) = _
    rw [ih]
    rfl

theorem stream_eq (hnil : f [] = []) : stream (total f) chunks =
    some (((parts (total f) [] chunks).map f).flatten ++ f (heldAfter (total f) [] chunks)) := by
  unfold stream
  show (pushAll (total f) ⟨[]⟩ chunks >>= _) = _
  rw [pushAll_eq hnil]
  show (flush (total f) ⟨heldAfter (total f) [] chunks⟩ >>= _) = _
  rw [flush_eq hnil]
  rfl

/-- A mask divides at a cut. -/
def Divides (f : List Char → List Char) (u v : List Char) : Prop := f (u ++ v) = f u ++ f v

/-- In every state the mask of the text is what is emitted and then the mask of what is not. -/
def Faithful (f : List Char → List Char) (carry : List Char) (chunks : List (List Char)) : Prop :=
  ∀ done later, chunks = done ++ later →
    ((parts (total f) carry done).map f).flatten ++ f (heldAfter (total f) carry done ++ later.flatten) =
      f (carry ++ chunks.flatten)

/-- **A stream is faithful where its mask divides at every cut**, and only there. By induction on the
chunks. -/
theorem faithful_iff : Faithful f carry chunks ↔ Cuts (total f) (Divides f) carry chunks := by
  induction chunks generalizing carry with
  | nil =>
    refine iff_of_true (fun done later h => ?_) trivial
    obtain ⟨rfl, rfl⟩ := List.append_eq_nil_iff.1 h.symm
    rfl
  | cons chunk chunks ih =>
    have hwhole : carry ++ (chunk :: chunks).flatten = settled (total f) (carry ++ chunk) ++
        (unsettled (total f) (carry ++ chunk) ++ chunks.flatten) := by
      rw [← List.append_assoc, settled_append_unsettled, List.flatten_cons, List.append_assoc]
    constructor
    · intro h
      have hdivides : Divides f (settled (total f) (carry ++ chunk))
          (unsettled (total f) (carry ++ chunk) ++ chunks.flatten) := by
        have hfirst := h [chunk] chunks rfl
        rw [hwhole] at hfirst
        have hnone : (parts (total f) carry [chunk]).map f =
            [f (settled (total f) (carry ++ chunk))] := rfl
        rw [hnone, List.flatten_singleton] at hfirst
        exact hfirst.symm
      refine ⟨hdivides, ih.1 fun done later hchunks => ?_⟩
      have hmore := h (chunk :: done) later (congrArg (chunk :: ·) hchunks)
      rw [hwhole, hdivides] at hmore
      have hcons : (parts (total f) carry (chunk :: done)).map f =
          f (settled (total f) (carry ++ chunk)) ::
            (parts (total f) (unsettled (total f) (carry ++ chunk)) done).map f := rfl
      rw [hcons, List.flatten_cons, List.append_assoc] at hmore
      exact List.append_cancel_left hmore
    · rintro ⟨hdivides, hrest⟩ done later hchunks
      cases done with
      | nil =>
        rw [List.nil_append] at hchunks
        rw [← hchunks]
        rfl
      | cons first done =>
        obtain ⟨rfl, hlater⟩ := List.cons_eq_cons.1 hchunks
        have hcons : (parts (total f) carry (chunk :: done)).map f =
            f (settled (total f) (carry ++ chunk)) ::
              (parts (total f) (unsettled (total f) (carry ++ chunk)) done).map f := rfl
        have hmore := ih.2 hrest done later hlater
        rw [hwhole, hdivides, hcons, List.flatten_cons, List.append_assoc, ← hmore]
        rfl

end

/-! ## The masker of texts -/

section

variable (U : UnicodeTables)

theorem redact_eq_total : redact U = total (masked U) := funext fun text => redact_eq U text

variable {U} in
theorem map_redact (ps : List (List Char)) :
    ps.map (redact U) = (ps.map (masked U)).map some := by
  rw [List.map_map]
  exact List.map_congr_left fun p _ => redact_eq U p

/-- **A stream and the text.** The text can be in any chunks. After each push the masker holds no more
than the ceiling, no slice of it cuts a character, and what is emitted are the masks of parts that
make up, with what is held, the text so far. If at each push that takes a part off no pass of the
masker replaces a stretch that reaches over the cut, or another one because of what is beyond it, then
the mask of the text is, in every state, what is emitted and then the mask of what is not, and the
stream is the mask of the text. -/
theorem stream_masked (chunks : List (List Char)) :
    (∀ done later, chunks = done ++ later → ∃ (ps outs : List (List Char)) (carry : List Char),
      pushAll (redact U) new done = some (outs, ⟨carry⟩) ∧
      byteLen carry ≤ streamMaskMaxCarryBytes ∧ ps.flatten ++ carry = done.flatten ∧
      ps.map (redact U) = outs.map some ∧
      (Cuts (redact U) (PartsApart U) [] chunks → ∃ rest,
        redact U (carry ++ later.flatten) = some rest ∧
        redact U chunks.flatten = some (outs.flatten ++ rest))) ∧
    (∃ ps outs : List (List Char), stream (redact U) chunks = some outs.flatten ∧
      ps.flatten = chunks.flatten ∧ ps.map (redact U) = outs.map some) ∧
    (Cuts (redact U) (PartsApart U) [] chunks →
      stream (redact U) chunks = redact U chunks.flatten) := by
  have hnil : masked U [] = [] := masked_nil
  have hfaithful : Cuts (redact U) (PartsApart U) [] chunks → Faithful (masked U) [] chunks := by
    intro hcuts
    rw [redact_eq_total] at hcuts
    exact faithful_iff.2 (hcuts.imp fun u v => masked_append)
  refine ⟨fun done later hchunks => ?_, ?_, fun hcuts => ?_⟩
  · refine ⟨parts (redact U) [] done, (parts (redact U) [] done).map (masked U),
      heldAfter (redact U) [] done, ?_, byteLen_heldAfter (Nat.zero_le _), flatten_parts,
      map_redact _, fun hcuts => ?_⟩
    · rw [redact_eq_total]
      exact pushAll_eq hnil
    · refine ⟨_, redact_eq U _, ?_⟩
      have hstate := hfaithful hcuts done later hchunks
      rw [redact_eq_total]
      exact congrArg some hstate.symm
  · refine ⟨parts (redact U) [] chunks ++ [heldAfter (redact U) [] chunks],
      (parts (redact U) [] chunks ++ [heldAfter (redact U) [] chunks]).map (masked U), ?_, ?_,
      map_redact _⟩
    · rw [List.map_append, List.flatten_append, List.map_singleton, List.flatten_singleton,
        redact_eq_total]
      exact stream_eq hnil
    · rw [List.flatten_append, List.flatten_singleton]
      exact flatten_parts
  · have hend := hfaithful hcuts chunks [] (List.append_nil chunks).symm
    rw [List.flatten_nil, List.append_nil] at hend
    rw [redact_eq_total, stream_eq hnil]
    exact congrArg some hend

end

/-! ## A key, whole and cut -/

theorem redact_eq_live (U : UnicodeTables) :
    redact U = total fun text => runLive (rewrites U) (unhidden U text) := by
  funext text
  rw [redact_eq]
  exact congrArg some (runLive_eq _ _).symm

/-- A key of `n` characters after its prefix. -/
def keyOf (n : ℕ) : List Char := "sk-".toList ++ List.replicate n 'a'

/-- `n` characters of four bytes. -/
def faces (n : ℕ) : List Char := List.replicate n '😀'

/-- A key in two chunks is masked: the cut is after it. -/
theorem split_key_masked :
    stream (redact asciiTables) [keyOf 8, List.replicate 8 'a' ++ faces 65] =
      redact asciiTables [keyOf 8, List.replicate 8 'a' ++ faces 65].flatten := by
  refine (stream_masked asciiTables _).2.2 ?_
  have hlive : Cuts (redact asciiTables) (fun u v =>
      hiddenClaims asciiTables (u ++ v) =
        hiddenClaims asciiTables u ++ (hiddenClaims asciiTables v).map (Claim.shift (byteLen u)) ∧
      apartLive (rewrites asciiTables) (unhidden asciiTables u) (unhidden asciiTables v) = true)
      [] [keyOf 8, List.replicate 8 'a' ++ faces 65] := by
    rw [redact_eq_live]
    decide
  exact hlive.imp fun u v h => partsApart_of_live h.1 h.2

/-- The end of a key is emitted, for its first characters make a shorter one: the mask of both is the
same token. The masker never holds more than the ceiling. -/
theorem key_leaks :
    byteLen (keyOf 24 ++ faces 62) ≤ streamMaskMaxCarryBytes ∧
      stream (redact asciiTables) [keyOf 24 ++ faces 62] =
        some ("[OPENAI_KEY_MASKED]aaaaaaaa".toList ++ faces 62) ∧
      redact asciiTables (keyOf 24 ++ faces 62) = some ("[OPENAI_KEY_MASKED]".toList ++ faces 62) := by
  rw [redact_eq_live]
  decide

end Routeplane.Guardrails.StreamMasker
