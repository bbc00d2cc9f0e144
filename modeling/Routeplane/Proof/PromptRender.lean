import Routeplane.Prompts.Render
import Mathlib.Data.Prod.Lex

/-!
# Rendering is bounded and always ends

A frame is a call of the renderer about to process some nodes. Its steps go past a node, into a
section that is shown or into a partial; no run of steps goes on for ever, however the prompts refer
to each other. An error ends every frame it was reached from, so which error a render ends with is
decided by the frames it reaches.

* `wellFounded_step`: every run of steps ends.
* `Renders`: the successful renders, with the partials they expand.
* `cycle_iff`: a render is refused for a cycle exactly when it reaches a blocked partial.
* `render_bounded_ends`: the budgets of a whole prompt.
-/

namespace Routeplane.Prompts

open Fallible

/-- A call of `renderNodes`. -/
structure Frame where
  declared : Assoc String Bool
  depth : ℕ
  nodes : List Node
  st : RenderState

def Frame.render (ctx : RenderCtx) (f : Frame) : Except PromptError RenderState :=
  renderNodes ctx f.declared f.depth f.nodes f.st

/-- The calls and the moves of a frame: past a node, into a section, into a partial. A step into a
partial enters its prompt. -/
inductive Step (ctx : RenderCtx) : Frame → List String → Frame → Prop
  | next {declared : Assoc String Bool} {depth : ℕ} {node : Node} {rest : List Node}
      {st st' : RenderState} (h : renderNodes ctx declared depth [node] st = .ok st') :
    Step ctx ⟨declared, depth, node :: rest, st⟩ [] ⟨declared, depth, rest, st'⟩
  | shown {declared : Assoc String Bool} {depth : ℕ} {name : String} {inverted : Bool}
      {children rest : List Node} {st : RenderState} (h : ctx.shows name inverted = true) :
    Step ctx ⟨declared, depth, .sect name inverted children :: rest, st⟩ []
      ⟨declared, depth, children, st⟩
  | expand {declared : Assoc String Bool} {depth : ℕ} {reference : String} {rest : List Node}
      {resolved : Resolved} {st st' : RenderState} (hdepth : depth + 1 ≤ maxPartialDepth)
      (h : enterPartial ctx reference st = .ok (resolved, st')) :
    Step ctx ⟨declared, depth, .partialRef reference :: rest, st⟩ [resolved.promptId]
      ⟨resolved.version.declared, depth + 1, resolved.version.nodes, st'⟩

/-- The frames reached from a frame, and the prompts entered on the way and not left again. -/
inductive Reached (ctx : RenderCtx) : Frame → List String → Frame → Prop
  | refl {f : Frame} : Reached ctx f [] f
  | head {f g b : Frame} {entered ids : List String} (hstep : Step ctx f entered g)
      (hreach : Reached ctx g ids b) : Reached ctx f (entered ++ ids) b

section Steps

variable {ctx : RenderCtx} {declared : Assoc String Bool} {depth : ℕ} {node : Node}
  {nodes rest children : List Node} {name reference t : String} {inverted : Bool} {resolved : Resolved}
  {st st' st₁ st₂ st₃ : RenderState} {e : PromptError} {f g : Frame} {entered ids : List String}

/-- The levels of partials left, then the size of what is to be walked. -/
noncomputable def Frame.measure (f : Frame) : ℕ × ℕ := (maxPartialDepth - f.depth, sizeOf f.nodes)

theorem measure_lt_of_step (h : Step ctx f entered g) :
    Prod.Lex (· < ·) (· < ·) g.measure f.measure := by
  cases h with
  | next h =>
    refine Prod.Lex.right _ ?_
    simp only [List.cons.sizeOf_spec]
    omega
  | shown h =>
    refine Prod.Lex.right _ ?_
    simp only [List.cons.sizeOf_spec, Node.sect.sizeOf_spec]
    omega
  | expand hdepth h =>
    have hlt : ∀ d, d + 1 ≤ maxPartialDepth → maxPartialDepth - (d + 1) < maxPartialDepth - d := by
      intro d hd
      omega
    exact Prod.Lex.left _ _ (hlt _ hdepth)

variable (ctx) in
/-- **Every run of steps ends**, whatever the registry. -/
theorem wellFounded_step : WellFounded fun g f => ∃ entered, Step ctx f entered g :=
  Subrelation.wf (fun ⟨_, h⟩ => measure_lt_of_step h)
    (InvImage.wf Frame.measure (WellFounded.prod_lex Nat.lt_wfRel.wf Nat.lt_wfRel.wf))

/-! ## What a node does -/

section

-- The equations of `renderNodes` are derived here once, and not by each lemma below.
attribute [local simp] renderNodes

theorem renderNodes_nil : renderNodes ctx declared depth [] st = .ok st := by
  rw [renderNodes]

theorem renderNodes_text : renderNodes ctx declared depth (.text t :: rest) st =
    (st.pushStr t >>= renderNodes ctx declared depth rest) := by
  rw [renderNodes]

theorem renderNodes_var : renderNodes ctx declared depth (.var name :: rest) st =
    (renderVar ctx declared name st >>= renderNodes ctx declared depth rest) := by
  rw [renderNodes]

theorem renderNodes_shown (h : ctx.shows name inverted = true) :
    renderNodes ctx declared depth (.sect name inverted children :: rest) st =
      (renderNodes ctx declared depth children st >>= fun st => checkOutputCap st.out >>= fun _ =>
        renderNodes ctx declared depth rest st) := by
  rw [renderNodes, if_pos h]

theorem renderNodes_hidden (h : ctx.shows name inverted ≠ true) :
    renderNodes ctx declared depth (.sect name inverted children :: rest) st =
      renderNodes ctx declared depth rest st := by
  rw [renderNodes, if_neg h]

theorem renderNodes_deep (h : maxPartialDepth < depth + 1) :
    renderNodes ctx declared depth (.partialRef reference :: rest) st =
      .error (tooDeep reference st) := by
  rw [renderNodes, dif_pos h]

theorem renderNodes_include (h : depth + 1 ≤ maxPartialDepth) :
    renderNodes ctx declared depth (.partialRef reference :: rest) st =
      (enterPartial ctx reference st >>= fun entered =>
        renderNodes ctx entered.1.version.declared (depth + 1) entered.1.version.nodes entered.2 >>=
          fun st => checkOutputCap st.out >>= fun _ =>
            renderNodes ctx declared depth rest { st with stack := st.stack.dropLast }) := by
  rw [renderNodes, dif_neg (Nat.not_lt.2 h)]

end

/-- One node alone. -/
theorem renderNode_text : renderNodes ctx declared depth [.text t] st = st.pushStr t := by
  have hnil : renderNodes ctx declared depth [] = pure := funext fun _ => renderNodes_nil
  rw [renderNodes_text, hnil, bind_pure]

theorem renderNode_var :
    renderNodes ctx declared depth [.var name] st = renderVar ctx declared name st := by
  have hnil : renderNodes ctx declared depth [] = pure := funext fun _ => renderNodes_nil
  rw [renderNodes_var, hnil, bind_pure]

theorem renderNode_shown (h : ctx.shows name inverted = true) :
    renderNodes ctx declared depth [.sect name inverted children] st =
      (renderNodes ctx declared depth children st >>= fun st => checkOutputCap st.out >>= fun _ =>
        .ok st) := by
  rw [renderNodes_shown h]
  simp only [renderNodes_nil]

theorem renderNode_hidden (h : ctx.shows name inverted ≠ true) :
    renderNodes ctx declared depth [.sect name inverted children] st = .ok st := by
  rw [renderNodes_hidden h, renderNodes_nil]

theorem renderNode_include (h : depth + 1 ≤ maxPartialDepth) :
    renderNodes ctx declared depth [.partialRef reference] st =
      (enterPartial ctx reference st >>= fun entered =>
        renderNodes ctx entered.1.version.declared (depth + 1) entered.1.version.nodes entered.2 >>=
          fun st => checkOutputCap st.out >>= fun _ =>
            .ok { st with stack := st.stack.dropLast }) := by
  rw [renderNodes_include h]
  simp only [renderNodes_nil]

theorem checkOutputCap_cases (out : String) :
    checkOutputCap out = .ok () ∨ ∃ m, checkOutputCap out = .error (.tooLarge m) := by
  unfold checkOutputCap ensure
  split
  · exact Or.inl rfl
  · exact Or.inr ⟨_, rfl⟩

/-- A node, then the rest. -/
theorem renderNodes_cons (node : Node) (rest : List Node) (st : RenderState) :
    renderNodes ctx declared depth (node :: rest) st =
      (renderNodes ctx declared depth [node] st >>= renderNodes ctx declared depth rest) := by
  have hnil : (fun st => renderNodes ctx declared depth [] st) = pure :=
    funext fun st => renderNodes_nil
  cases node with
  | text t => simp only [renderNodes_text, hnil, bind_pure]
  | var name => simp only [renderNodes_var, hnil, bind_pure]
  | sect name inverted children =>
    by_cases h : ctx.shows name inverted = true
    · simp only [renderNodes_shown h, hnil, bind_assoc, pure_bind]
    · simp only [renderNodes_hidden h, renderNodes_nil]
      rfl
  | partialRef reference =>
    by_cases h : depth + 1 ≤ maxPartialDepth
    · simp only [renderNodes_include h, hnil, bind_assoc, pure_bind]
    · simp only [renderNodes_deep (Nat.lt_of_not_le h)]
      rfl

/-! ## Errors -/

/-- A frame that stands before a partial that is too deep or is being expanded already. -/
def Blocked (ctx : RenderCtx) (f : Frame) : Prop :=
  ∃ reference rest, f.nodes = .partialRef reference :: rest ∧
    (maxPartialDepth < f.depth + 1 ∨ ∃ resolved,
      ctx.registry.resolve ctx.tenantId reference = .ok resolved ∧ resolved.promptId ∈ f.st.stack)

/-- An error that is not a cycle. -/
def PromptError.isCycle : PromptError → Prop
  | .partialCycle _ => True
  | _ => False

theorem not_isCycle_of_checkOutputCap {out : String} (h : checkOutputCap out = .error e) :
    ¬ e.isCycle := by
  rcases checkOutputCap_cases out with hok | ⟨m, herr⟩
  · rw [hok] at h
    cases h
  · rw [herr] at h
    cases h
    exact id

theorem not_isCycle_of_pushStr (h : st.pushStr t = .error e) : ¬ e.isCycle := by
  rcases bind_eq_error h with h | ⟨_, _, h⟩
  · exact not_isCycle_of_checkOutputCap h
  · cases h

theorem not_isCycle_of_renderVar (h : renderVar ctx declared name st = .error e) : ¬ e.isCycle := by
  unfold renderVar at h
  split at h
  · exact not_isCycle_of_pushStr h
  · split at h
    · cases h
    · split at h
      · rw [← Except.error.inj h]
        exact id
      · cases h

/-- **An error ends the frame it was reached from.** -/
theorem error_of_step (h : Step ctx f entered g) (he : g.render ctx = .error e) :
    f.render ctx = .error e := by
  cases h with
  | next h =>
    unfold Frame.render at he ⊢
    rw [renderNodes_cons, h]
    exact he
  | shown h =>
    unfold Frame.render at he ⊢
    rw [renderNodes_shown h, he]
    rfl
  | expand hdepth h =>
    unfold Frame.render at he ⊢
    rw [renderNodes_include hdepth, h]
    show (renderNodes _ _ _ _ _ >>= _) = _
    rw [he]
    rfl

theorem error_of_reached (h : Reached ctx f ids g) (he : g.render ctx = .error e) :
    f.render ctx = .error e := by
  induction h with
  | refl => exact he
  | head hstep _ ih => exact error_of_step hstep (ih he)

theorem enterPartial_of_mem (hresolved : ctx.registry.resolve ctx.tenantId reference = .ok resolved)
    (hmem : resolved.promptId ∈ st.stack) :
    enterPartial ctx reference st = .error (expandedAlready resolved.promptId st) := by
  unfold enterPartial
  rw [hresolved]
  show (ensure (resolved.promptId ∉ st.stack) _ >>= _) = _
  have hensure : ∀ e : PromptError, ensure (resolved.promptId ∉ st.stack) e = .error e :=
    fun e => if_neg (not_not.2 hmem)
  rw [hensure]
  rfl

/-- Entering a partial finds its prompt, which is not being expanded, or fails. -/
theorem enterPartial_cases (ctx : RenderCtx) (reference : String) (st : RenderState) :
    (∃ resolved, ctx.registry.resolve ctx.tenantId reference = .ok resolved ∧
      resolved.promptId ∉ st.stack ∧ st.includes + 1 ≤ maxPartialExpansions ∧
      enterPartial ctx reference st = .ok (resolved,
        { st with stack := st.stack ++ [resolved.promptId], includes := st.includes + 1 })) ∨
    (∃ resolved, ctx.registry.resolve ctx.tenantId reference = .ok resolved ∧
      resolved.promptId ∈ st.stack ∧
      enterPartial ctx reference st = .error (expandedAlready resolved.promptId st)) ∨
    ∃ e, enterPartial ctx reference st = .error e ∧ ¬ e.isCycle := by
  cases hresolved : ctx.registry.resolve ctx.tenantId reference with
  | error e =>
    refine Or.inr (Or.inr ⟨unresolvedPartial reference e, ?_, id⟩)
    unfold enterPartial
    rw [hresolved]
    rfl
  | ok resolved =>
    by_cases hmem : resolved.promptId ∈ st.stack
    · exact Or.inr (Or.inl ⟨resolved, rfl, hmem, enterPartial_of_mem hresolved hmem⟩)
    · have hnew : ∀ e : PromptError, ensure (resolved.promptId ∉ st.stack) e = .ok () :=
        fun e => if_pos hmem
      by_cases hcount : st.includes + 1 ≤ maxPartialExpansions
      · have hroom : ∀ e : PromptError, ensure (st.includes + 1 ≤ maxPartialExpansions) e = .ok () :=
          fun e => if_pos hcount
        refine Or.inl ⟨resolved, rfl, hmem, hcount, ?_⟩
        unfold enterPartial
        rw [hresolved]
        show (ensure _ _ >>= fun _ => ensure _ _ >>= _) = _
        rw [hnew, hroom]
        rfl
      · have hfull : ∀ e : PromptError,
            ensure (st.includes + 1 ≤ maxPartialExpansions) e = .error e := fun e => if_neg hcount
        refine Or.inr (Or.inr ⟨tooManyPartials, ?_, id⟩)
        unfold enterPartial
        rw [hresolved]
        show (ensure _ _ >>= fun _ => ensure _ _ >>= _) = _
        rw [hnew, hfull]
        rfl

theorem cycle_of_blocked (h : Blocked ctx f) : ∃ m, f.render ctx = .error (.partialCycle m) := by
  obtain ⟨reference, rest, hnodes, hblocked⟩ := h
  unfold Frame.render
  rw [hnodes]
  by_cases hdepth : f.depth + 1 ≤ maxPartialDepth
  · obtain ⟨resolved, hresolved, hmem⟩ := hblocked.resolve_left (Nat.not_lt.2 hdepth)
    rw [renderNodes_include hdepth, enterPartial_of_mem hresolved hmem]
    exact ⟨_, rfl⟩
  · exact ⟨_, renderNodes_deep (Nat.lt_of_not_le hdepth)⟩

/-- What stopped a frame at its first node, if it was a cycle. -/
theorem blocked_of_first (hcycle : e.isCycle)
    (h : renderNodes ctx declared depth [node] st = .error e)
    (ih : ∀ g, (∃ entered, Step ctx ⟨declared, depth, node :: rest, st⟩ entered g) →
      g.render ctx = .error e → ∃ ids b, Reached ctx g ids b ∧ Blocked ctx b) :
    ∃ ids b, Reached ctx ⟨declared, depth, node :: rest, st⟩ ids b ∧ Blocked ctx b := by
  cases node with
  | text t =>
    rw [renderNode_text] at h
    exact absurd hcycle (not_isCycle_of_pushStr h)
  | var name =>
    rw [renderNode_var] at h
    exact absurd hcycle (not_isCycle_of_renderVar h)
  | sect name inverted children =>
    by_cases hshow : ctx.shows name inverted = true
    · rw [renderNode_shown hshow] at h
      rcases bind_eq_error h with h | ⟨st', _, h⟩
      · -- the children were stopped
        obtain ⟨ids, b, hreach, hb⟩ := ih _ ⟨_, .shown hshow⟩ h
        exact ⟨_, b, .head (.shown hshow) hreach, hb⟩
      · rcases bind_eq_error h with h | ⟨_, _, h⟩
        · exact absurd hcycle (not_isCycle_of_checkOutputCap h)
        · cases h
    · rw [renderNode_hidden hshow] at h
      cases h
  | partialRef reference =>
    by_cases hdepth : depth + 1 ≤ maxPartialDepth
    · rw [renderNode_include hdepth] at h
      rcases enterPartial_cases ctx reference st with
        ⟨resolved, _, _, _, hok⟩ | ⟨resolved, hresolved, hmem, _⟩ | ⟨e', herr, hother⟩
      · -- the partial's template was stopped
        have hstep : Step ctx ⟨declared, depth, .partialRef reference :: rest, st⟩ _ _ :=
          .expand hdepth hok
        rw [hok] at h
        rcases bind_eq_error h with h | ⟨st', hentered, h⟩
        · cases h
        · cases hentered
          rcases bind_eq_error h with h | ⟨st'', _, h⟩
          · obtain ⟨ids, b, hreach, hb⟩ := ih _ ⟨_, hstep⟩ h
            exact ⟨_, b, .head hstep hreach, hb⟩
          · rcases bind_eq_error h with h | ⟨_, _, h⟩
            · exact absurd hcycle (not_isCycle_of_checkOutputCap h)
            · cases h
      · exact ⟨_, _, .refl, reference, rest, rfl, Or.inr ⟨resolved, hresolved, hmem⟩⟩
      · rw [herr] at h
        cases h
        exact absurd hcycle hother
    · exact ⟨_, _, .refl, reference, rest, rfl, Or.inl (Nat.lt_of_not_le hdepth)⟩

/-- A cycle was found at a blocked partial. By induction on the steps of the frame. -/
theorem blocked_of_cycle (hcycle : e.isCycle) (h : f.render ctx = .error e) :
    ∃ ids b, Reached ctx f ids b ∧ Blocked ctx b := by
  induction f using (wellFounded_step ctx).induction with
  | _ f ih =>
    obtain ⟨declared, depth, nodes, st⟩ := f
    unfold Frame.render at h
    cases nodes with
    | nil =>
      rw [renderNodes_nil] at h
      cases h
    | cons node rest =>
      rw [renderNodes_cons] at h
      rcases bind_eq_error h with hfirst | ⟨st', hfirst, hrest⟩
      · exact blocked_of_first hcycle hfirst ih
      · obtain ⟨ids, b, hreach, hb⟩ := ih _ ⟨_, .next hfirst⟩ hrest
        exact ⟨_, b, .head (.next hfirst) hreach, hb⟩

/-- **A render is refused for a cycle exactly when it reaches a blocked partial.** -/
theorem cycle_iff : (∃ m, f.render ctx = .error (.partialCycle m)) ↔
    ∃ ids b, Reached ctx f ids b ∧ Blocked ctx b := by
  constructor
  · rintro ⟨m, h⟩
    have hcycle : (PromptError.partialCycle m).isCycle := trivial
    exact blocked_of_cycle hcycle h
  · rintro ⟨ids, b, hreach, hb⟩
    obtain ⟨m, h⟩ := cycle_of_blocked hb
    exact ⟨m, error_of_reached hreach h⟩

end Steps

/-! ## Successful renders -/

/-- The successful renders of some nodes, with the partials they expand: how deep each nests, and
the prompt it stands for. -/
inductive Renders (ctx : RenderCtx) :
    Assoc String Bool → ℕ → List Node → RenderState → RenderState → List (ℕ × String) → Prop
  | nil {declared : Assoc String Bool} {depth : ℕ} {st : RenderState} :
    Renders ctx declared depth [] st st []
  | text {declared : Assoc String Bool} {depth : ℕ} {t : String} {rest : List Node}
      {st st₁ st₂ : RenderState} {xs : List (ℕ × String)} (h : st.pushStr t = .ok st₁)
      (hrest : Renders ctx declared depth rest st₁ st₂ xs) :
    Renders ctx declared depth (.text t :: rest) st st₂ xs
  | var {declared : Assoc String Bool} {depth : ℕ} {name : String} {rest : List Node}
      {st st₁ st₂ : RenderState} {xs : List (ℕ × String)} (h : renderVar ctx declared name st = .ok st₁)
      (hrest : Renders ctx declared depth rest st₁ st₂ xs) :
    Renders ctx declared depth (.var name :: rest) st st₂ xs
  | shown {declared : Assoc String Bool} {depth : ℕ} {name : String} {inverted : Bool}
      {children rest : List Node} {st st₁ st₂ : RenderState} {xs ys : List (ℕ × String)}
      (h : ctx.shows name inverted = true) (hchildren : Renders ctx declared depth children st st₁ xs)
      (hrest : Renders ctx declared depth rest st₁ st₂ ys) :
    Renders ctx declared depth (.sect name inverted children :: rest) st st₂ (xs ++ ys)
  | hidden {declared : Assoc String Bool} {depth : ℕ} {name : String} {inverted : Bool}
      {children rest : List Node} {st st' : RenderState} {xs : List (ℕ × String)}
      (h : ctx.shows name inverted ≠ true) (hrest : Renders ctx declared depth rest st st' xs) :
    Renders ctx declared depth (.sect name inverted children :: rest) st st' xs
  | expanded {declared : Assoc String Bool} {depth : ℕ} {reference : String} {rest : List Node}
      {resolved : Resolved} {st st₁ st₂ st₃ : RenderState} {xs ys : List (ℕ × String)}
      (hdepth : depth + 1 ≤ maxPartialDepth) (h : enterPartial ctx reference st = .ok (resolved, st₁))
      (hnodes : Renders ctx resolved.version.declared (depth + 1) resolved.version.nodes st₁ st₂ xs)
      (hrest : Renders ctx declared depth rest { st₂ with stack := st₂.stack.dropLast } st₃ ys) :
    Renders ctx declared depth (.partialRef reference :: rest) st st₃
      ((depth + 1, resolved.promptId) :: xs ++ ys)

section Renders

variable {ctx : RenderCtx} {declared : Assoc String Bool} {depth : ℕ} {nodes : List Node}
  {reference name t : String} {resolved : Resolved} {st st' st₁ : RenderState}
  {xs : List (ℕ × String)} {f : Frame}

/-- Every successful render is one of them. By induction on the steps of the frame. -/
theorem renders_of_ok (h : f.render ctx = .ok st') :
    ∃ xs, Renders ctx f.declared f.depth f.nodes f.st st' xs := by
  induction f using (wellFounded_step ctx).induction generalizing st' with
  | _ f ih =>
    obtain ⟨declared, depth, nodes, st⟩ := f
    unfold Frame.render at h
    cases nodes with
    | nil =>
      rw [renderNodes_nil] at h
      cases h
      exact ⟨[], .nil⟩
    | cons node rest =>
      rw [renderNodes_cons] at h
      obtain ⟨st₁, hfirst, hrest⟩ := bind_eq_ok h
      obtain ⟨ys, hys⟩ := ih _ ⟨_, .next hfirst⟩ hrest
      cases node with
      | text t =>
        rw [renderNode_text] at hfirst
        exact ⟨ys, .text hfirst hys⟩
      | var name =>
        rw [renderNode_var] at hfirst
        exact ⟨ys, .var hfirst hys⟩
      | sect name inverted children =>
        by_cases hshow : ctx.shows name inverted = true
        · rw [renderNode_shown hshow] at hfirst
          obtain ⟨st₂, hchildren, hend⟩ := bind_eq_ok hfirst
          obtain ⟨_, _, hend⟩ := bind_eq_ok hend
          cases hend
          obtain ⟨xs, hxs⟩ := ih _ ⟨_, .shown hshow⟩ hchildren
          exact ⟨xs ++ ys, .shown hshow hxs hys⟩
        · rw [renderNode_hidden hshow] at hfirst
          cases hfirst
          exact ⟨ys, .hidden hshow hys⟩
      | partialRef reference =>
        by_cases hdepth : depth + 1 ≤ maxPartialDepth
        · rw [renderNode_include hdepth] at hfirst
          obtain ⟨⟨resolved, st₂⟩, henter, hend⟩ := bind_eq_ok hfirst
          obtain ⟨st₃, hnodes, hend⟩ := bind_eq_ok hend
          obtain ⟨_, _, hend⟩ := bind_eq_ok hend
          cases hend
          obtain ⟨xs, hxs⟩ := ih _ ⟨_, .expand hdepth henter⟩ hnodes
          exact ⟨_, .expanded hdepth henter hxs hys⟩
        · rw [renderNodes_deep (Nat.lt_of_not_le hdepth)] at hfirst
          cases hfirst

theorem enterPartial_ok (h : enterPartial ctx reference st = .ok (resolved, st₁)) :
    resolved.promptId ∉ st.stack ∧ st.includes + 1 ≤ maxPartialExpansions ∧
      st₁ = { st with stack := st.stack ++ [resolved.promptId], includes := st.includes + 1 } := by
  rcases enterPartial_cases ctx reference st with
    ⟨r, _, hnew, hroom, hok⟩ | ⟨r, _, _, herr⟩ | ⟨e, herr, _⟩
  · rw [h] at hok
    cases hok
    exact ⟨hnew, hroom, rfl⟩
  · rw [h] at herr
    cases herr
  · rw [h] at herr
    cases herr

/-- A piece of text changes nothing but the text, and keeps it within its cap. -/
theorem pushStr_ok (h : st.pushStr t = .ok st₁) :
    st₁.stack = st.stack ∧ st₁.includes = st.includes ∧
      st₁.out.utf8ByteSize ≤ maxRenderOutputBytes := by
  obtain ⟨_, hcap, h⟩ := bind_eq_ok h
  rw [← Except.ok.inj h]
  exact ⟨rfl, rfl, of_ensure hcap⟩

theorem renderVar_ok (h : renderVar ctx declared name st = .ok st₁) :
    st₁.stack = st.stack ∧ st₁.includes = st.includes ∧
      (st.out.utf8ByteSize ≤ maxRenderOutputBytes → st₁.out.utf8ByteSize ≤ maxRenderOutputBytes) := by
  unfold renderVar at h
  split at h
  · obtain ⟨hstack, hincludes, hcap⟩ := pushStr_ok h
    exact ⟨hstack, hincludes, fun _ => hcap⟩
  · split at h
    · cases h
      exact ⟨rfl, rfl, id⟩
    · split at h
      · cases h
      · cases h
        exact ⟨rfl, rfl, id⟩

/-- **A render puts the stack back as it was.** -/
theorem Renders.stack_eq (h : Renders ctx declared depth nodes st st' xs) : st'.stack = st.stack := by
  induction h with
  | nil => rfl
  | text h _ ih => rw [ih, (pushStr_ok h).1]
  | var h _ ih => rw [ih, (renderVar_ok h).1]
  | shown _ _ _ ihchildren ih => rw [ih, ihchildren]
  | hidden _ _ ih => exact ih
  | expanded _ h _ _ ihnodes ih =>
    rw [ih]
    show List.dropLast _ = _
    rw [ihnodes, (enterPartial_ok h).2.2]
    exact List.dropLast_concat

/-- Each partial expanded is counted. -/
theorem Renders.includes_eq (h : Renders ctx declared depth nodes st st' xs) :
    st'.includes = st.includes + xs.length := by
  induction h with
  | nil => rfl
  | text h _ ih => rw [ih, (pushStr_ok h).2.1]
  | var h _ ih => rw [ih, (renderVar_ok h).2.1]
  | shown _ _ _ ihchildren ih =>
    rw [ih, ihchildren, List.length_append]
    omega
  | hidden _ _ ih => exact ih
  | expanded _ h _ _ ihnodes ih =>
    have hcount := congrArg RenderState.includes (enterPartial_ok h).2.2
    simp only at ih hcount
    rw [ih, ihnodes, hcount, List.length_append, List.length_cons]
    omega

theorem Renders.includes_le (h : Renders ctx declared depth nodes st st' xs)
    (hle : st.includes ≤ maxPartialExpansions) : st'.includes ≤ maxPartialExpansions := by
  induction h with
  | nil => exact hle
  | text h _ ih => exact ih ((pushStr_ok h).2.1.symm ▸ hle)
  | var h _ ih => exact ih ((renderVar_ok h).2.1.symm ▸ hle)
  | shown _ _ _ ihchildren ih => exact ih (ihchildren hle)
  | hidden _ _ ih => exact ih hle
  | expanded _ h _ _ ihnodes ih =>
    obtain ⟨_, hroom, heq⟩ := enterPartial_ok h
    refine ih (ihnodes ?_)
    rw [heq]
    exact hroom

theorem Renders.out_le (h : Renders ctx declared depth nodes st st' xs)
    (hle : st.out.utf8ByteSize ≤ maxRenderOutputBytes) :
    st'.out.utf8ByteSize ≤ maxRenderOutputBytes := by
  induction h with
  | nil => exact hle
  | text h _ ih => exact ih (pushStr_ok h).2.2
  | var h _ ih => exact ih ((renderVar_ok h).2.2 hle)
  | shown _ _ _ ihchildren ih => exact ih (ihchildren hle)
  | hidden _ _ ih => exact ih hle
  | expanded _ h _ _ ihnodes ih =>
    obtain ⟨_, _, heq⟩ := enterPartial_ok h
    refine ih (ihnodes ?_)
    rw [heq]
    exact hle

/-- No partial nests deeper than the limit. -/
theorem Renders.depth_le (h : Renders ctx declared depth nodes st st' xs) :
    ∀ x ∈ xs, depth < x.1 ∧ x.1 ≤ maxPartialDepth := by
  induction h with
  | nil =>
    intro x hx
    cases hx
  | text _ _ ih => exact ih
  | var _ _ ih => exact ih
  | shown _ _ _ ihchildren ih =>
    intro x hx
    exact (List.mem_append.1 hx).elim (ihchildren x) (ih x)
  | hidden _ _ ih => exact ih
  | expanded hdepth _ _ _ ihnodes ih =>
    intro x hx
    rcases List.mem_append.1 hx with hx | hx
    · rcases List.mem_cons.1 hx with rfl | hx
      · exact ⟨Nat.lt_succ_self _, hdepth⟩
      · obtain ⟨hlt, hle⟩ := ihnodes x hx
        exact ⟨Nat.lt_of_succ_lt hlt, hle⟩
    · exact ih x hx

end Renders

/-! ## Reached frames -/

section Chain

variable {ctx : RenderCtx} {f g : Frame} {entered ids : List String}

/-- The stack is the chain of the prompts entered, and the depth their number. -/
theorem chain_of_step (h : Step ctx f entered g) :
    g.st.stack = f.st.stack ++ entered ∧ g.depth = f.depth + entered.length := by
  cases h with
  | next h =>
    obtain ⟨xs, hxs⟩ := renders_of_ok (f := ⟨_, _, _, _⟩) h
    exact ⟨hxs.stack_eq.trans (List.append_nil _).symm, rfl⟩
  | shown h => exact ⟨(List.append_nil _).symm, rfl⟩
  | expand hdepth h =>
    rw [(enterPartial_ok h).2.2]
    exact ⟨rfl, rfl⟩

theorem chain_of_reached (h : Reached ctx f ids g) :
    g.st.stack = f.st.stack ++ ids ∧ g.depth = f.depth + ids.length := by
  induction h with
  | refl => exact ⟨(List.append_nil _).symm, rfl⟩
  | head hstep _ ih =>
    obtain ⟨hstack, hdepth⟩ := chain_of_step hstep
    rw [ih.1, ih.2, hstack, hdepth, List.append_assoc, List.length_append]
    exact ⟨rfl, Nat.add_assoc _ _ _⟩

/-- The budgets hold wherever the walk is. -/
theorem within_of_step (h : Step ctx f entered g)
    (hf : f.depth ≤ maxPartialDepth ∧ f.st.includes ≤ maxPartialExpansions) :
    g.depth ≤ maxPartialDepth ∧ g.st.includes ≤ maxPartialExpansions := by
  cases h with
  | next h =>
    obtain ⟨xs, hxs⟩ := renders_of_ok (f := ⟨_, _, _, _⟩) h
    exact ⟨hf.1, hxs.includes_le hf.2⟩
  | shown h => exact hf
  | expand hdepth h =>
    obtain ⟨_, hroom, heq⟩ := enterPartial_ok h
    rw [heq]
    exact ⟨hdepth, hroom⟩

theorem within_of_reached (h : Reached ctx f ids g)
    (hf : f.depth ≤ maxPartialDepth ∧ f.st.includes ≤ maxPartialExpansions) :
    g.depth ≤ maxPartialDepth ∧ g.st.includes ≤ maxPartialExpansions := by
  induction h with
  | refl => exact hf
  | head hstep _ ih => exact ih (within_of_step hstep hf)

end Chain

/-! ## Whole prompts -/

/-- Where the render of a prompt starts. -/
def rootFrame (resolved : Resolved) : Frame where
  declared := resolved.version.declared
  depth := 0
  nodes := resolved.version.nodes
  st := { stack := [resolved.promptId], includes := 0, out := "" }

section Whole

variable {jsonText : Value → String} {registry : PromptRegistry} {tenantId reference : String}
  {vars : Assoc String Value} {missing : MissingPolicy} {cohortKey : Option String}
  {rendered : Rendered}

/-- What a reference is rendered in. -/
def renderCtx (jsonText : Value → String) (registry : PromptRegistry) (tenantId : String)
    (vars : Assoc String Value) (missing : MissingPolicy) : RenderCtx :=
  { registry, tenantId, vars, missing, jsonText }

theorem renderWithCohort_ok
    (h : registry.renderWithCohort jsonText tenantId reference vars missing cohortKey =
      .ok rendered) :
    ∃ resolved st, registry.resolveWithCohort tenantId reference cohortKey = .ok resolved ∧
      (rootFrame resolved).render (renderCtx jsonText registry tenantId vars missing) = .ok st ∧
      rendered.text = st.out := by
  obtain ⟨resolved, hresolved, h⟩ := bind_eq_ok h
  obtain ⟨st, hst, h⟩ := bind_eq_ok h
  obtain ⟨_, _, h⟩ := bind_eq_ok h
  refine ⟨resolved, st, hresolved, hst, ?_⟩
  rw [← Except.ok.inj h]

theorem not_isCycle_of_okOr {α : Type} {o : Option α} {e e' : PromptError} (he : ¬ e.isCycle)
    (h : okOr o e = .error e') : ¬ e'.isCycle := by
  cases o with
  | none => exact Except.error.inj h ▸ he
  | some a => cases h

/-- A reference that is not found is not a cycle. -/
theorem not_isCycle_of_resolve {e : PromptError}
    (h : registry.resolveWithCohort tenantId reference cohortKey = .error e) : ¬ e.isCycle := by
  rcases bind_eq_error h with h | ⟨prompt, _, h⟩
  · exact not_isCycle_of_okOr id h
  · rcases bind_eq_error h with h | ⟨⟨n, label, variant⟩, _, h⟩
    · unfold PromptRegistry.select at h
      split at h
      · split at h <;> cases h
      · split at h
        · cases h
        · rw [← Except.error.inj h]
          exact id
      · split at h
        · cases h
        · rw [← Except.error.inj h]
          exact id
    · rcases bind_eq_error h with h | ⟨_, _, h⟩
      · exact not_isCycle_of_okOr id h
      · cases h

theorem renderWithCohort_cycle_iff :
    (∃ m, registry.renderWithCohort jsonText tenantId reference vars missing cohortKey =
        .error (.partialCycle m)) ↔
      ∃ resolved, registry.resolveWithCohort tenantId reference cohortKey = .ok resolved ∧
        ∃ m, (rootFrame resolved).render (renderCtx jsonText registry tenantId vars missing) =
          .error (.partialCycle m) := by
  constructor
  · rintro ⟨m, h⟩
    have hcycle : (PromptError.partialCycle m).isCycle := trivial
    rcases bind_eq_error h with h | ⟨resolved, hresolved, h⟩
    · exact absurd hcycle (not_isCycle_of_resolve h)
    · rcases bind_eq_error h with h | ⟨st, _, h⟩
      · exact ⟨resolved, hresolved, m, h⟩
      · rcases bind_eq_error h with h | ⟨_, _, h⟩
        · exact absurd hcycle (not_isCycle_of_checkOutputCap h)
        · cases h
  · rintro ⟨resolved, hresolved, m, h⟩
    refine ⟨m, ?_⟩
    unfold PromptRegistry.renderWithCohort
    rw [hresolved]
    show ((rootFrame resolved).render (renderCtx jsonText registry tenantId vars missing) >>= _) = _
    rw [h]
    rfl

/-- A frame of a whole render stands before a partial that would nest too deep, or whose prompt is
the root's or one of those entered on the way and not left. -/
theorem blocked_iff {resolved : Resolved} {ids : List String} {f : Frame}
    (h : Reached (renderCtx jsonText registry tenantId vars missing) (rootFrame resolved) ids f) :
    Blocked (renderCtx jsonText registry tenantId vars missing) f ↔
      ∃ partialReference rest, f.nodes = .partialRef partialReference :: rest ∧
        (maxPartialDepth < ids.length + 1 ∨ ∃ target,
          registry.resolve tenantId partialReference = .ok target ∧
            target.promptId ∈ resolved.promptId :: ids) := by
  obtain ⟨hstack, hdepth⟩ := chain_of_reached h
  have hzero : f.depth = ids.length := hdepth.trans (Nat.zero_add _)
  have hchain : f.st.stack = resolved.promptId :: ids := hstack
  unfold Blocked
  rw [hzero, hchain]
  exact Iff.rfl

/-- **Rendering is bounded and always ends.** Every run of steps ends. A text rendered keeps to its
cap, and comes of at most 64 partials none of which nests more than three deep; no frame is ever
deeper. A render is refused for a cycle exactly when it reaches a partial that would nest too deep or
stands for a prompt on the chain being expanded. And whatever is rendered, the stack is put back. -/
theorem render_bounded_ends (jsonText : Value → String) (registry : PromptRegistry)
    (tenantId reference : String) (vars : Assoc String Value) (missing : MissingPolicy)
    (cohortKey : Option String) :
    let ctx := renderCtx jsonText registry tenantId vars missing
    (WellFounded fun g f => ∃ entered, Step ctx f entered g) ∧
    (∀ rendered, registry.renderWithCohort jsonText tenantId reference vars missing cohortKey =
      .ok rendered → rendered.text.utf8ByteSize ≤ 262144 ∧
        ∃ resolved st xs, registry.resolveWithCohort tenantId reference cohortKey = .ok resolved ∧
          Renders ctx resolved.version.declared 0 resolved.version.nodes (rootFrame resolved).st st xs ∧
          rendered.text = st.out ∧ xs.length ≤ 64 ∧ ∀ x ∈ xs, x.1 ≤ 3) ∧
    (∀ resolved ids f, Reached ctx (rootFrame resolved) ids f → ids.length ≤ 3 ∧
      f.st.includes ≤ 64) ∧
    ((∃ m, registry.renderWithCohort jsonText tenantId reference vars missing cohortKey =
        .error (.partialCycle m)) ↔
      ∃ resolved ids f, registry.resolveWithCohort tenantId reference cohortKey = .ok resolved ∧
        Reached ctx (rootFrame resolved) ids f ∧
        ∃ partialReference rest, f.nodes = .partialRef partialReference :: rest ∧
          (3 < ids.length + 1 ∨ ∃ target, registry.resolve tenantId partialReference = .ok target ∧
            target.promptId ∈ resolved.promptId :: ids)) ∧
    (∀ declared depth nodes st st', renderNodes ctx declared depth nodes st = .ok st' →
      st'.stack = st.stack) := by
  intro ctx
  refine ⟨wellFounded_step ctx, ?_, ?_, ?_, ?_⟩
  · intro rendered h
    obtain ⟨resolved, st, hresolved, hst, htext⟩ := renderWithCohort_ok h
    obtain ⟨xs, hxs⟩ := renders_of_ok hst
    have hcount : st.includes = 0 + xs.length := hxs.includes_eq
    have hincludes : st.includes ≤ 64 := hxs.includes_le (Nat.zero_le _)
    refine ⟨htext ▸ hxs.out_le (Nat.zero_le _), resolved, st, xs, hresolved, hxs, htext, ?_, ?_⟩
    · omega
    · intro x hx
      exact (hxs.depth_le x hx).2
  · intro resolved ids f h
    have hwithin := within_of_reached h ⟨Nat.zero_le _, Nat.zero_le _⟩
    have hdepth : f.depth = 0 + ids.length := (chain_of_reached h).2
    refine ⟨?_, hwithin.2⟩
    have hle : f.depth ≤ 3 := hwithin.1
    omega
  · rw [renderWithCohort_cycle_iff]
    constructor
    · rintro ⟨resolved, hresolved, hcycle⟩
      obtain ⟨ids, f, hreach, hblocked⟩ := cycle_iff.1 hcycle
      exact ⟨resolved, ids, f, hresolved, hreach, (blocked_iff hreach).1 hblocked⟩
    · rintro ⟨resolved, ids, f, hresolved, hreach, hblocked⟩
      exact ⟨resolved, hresolved, cycle_iff.2 ⟨ids, f, hreach, (blocked_iff hreach).2 hblocked⟩⟩
  · intro declared depth nodes st st' h
    obtain ⟨xs, hxs⟩ := renders_of_ok (f := ⟨declared, depth, nodes, st⟩) h
    exact hxs.stack_eq

end Whole

end Routeplane.Prompts
