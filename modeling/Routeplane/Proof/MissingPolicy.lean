import Routeplane.Proof.PromptRender

/-!
# The missing-variable policies are ordered

What renders under the strict policy renders under the lenient one, and the same way: the strict one
refuses more and puts nothing else.

* `renderVar_lenient`: one variable.
* `renderNodes_lenient`: the nodes of a template.
* `render_lenient`: a whole prompt.
-/

namespace Routeplane.Prompts

open Fallible

/-- The same render under the lenient policy. -/
def RenderCtx.lenient (ctx : RenderCtx) : RenderCtx := { ctx with missing := .empty }

variable {ctx : RenderCtx} {declared : Assoc String Bool} {depth : ℕ} {nodes : List Node}
  {name reference : String} {st st' : RenderState}

theorem renderVar_lenient (h : renderVar ctx declared name st = .ok st') :
    renderVar ctx.lenient declared name st = .ok st' := by
  have hvars : ctx.lenient.vars = ctx.vars := rfl
  unfold renderVar at h ⊢
  rw [hvars]
  cases hget : ctx.vars.get name with
  | some v =>
    rw [hget] at h
    exact h
  | none =>
    rw [hget] at h
    -- nothing is put, whichever policy lets it pass
    have hsame : st = st' := by
      dsimp only at h
      split at h
      · exact Except.ok.inj h
      · split at h
        · cases h
        · exact Except.ok.inj h
    rw [hsame]
    rfl

theorem enterPartial_lenient : enterPartial ctx.lenient reference st = enterPartial ctx reference st :=
  rfl

/-- **What renders under a policy renders the same way under the lenient one.** By induction on the
steps of the frame: past a node, into a section, into a partial. -/
theorem renderNodes_lenient {f : Frame} (h : f.render ctx = .ok st') :
    f.render ctx.lenient = .ok st' := by
  induction f using (wellFounded_step ctx).induction generalizing st' with
  | _ f ih =>
    obtain ⟨declared, depth, nodes, st⟩ := f
    unfold Frame.render at h ⊢
    cases nodes with
    | nil =>
      rw [renderNodes_nil] at h ⊢
      exact h
    | cons node rest =>
      rw [renderNodes_cons] at h ⊢
      obtain ⟨st₁, hfirst, hrest⟩ := bind_eq_ok h
      -- the nodes after the first, from the state it leaves
      have hlater := ih _ ⟨_, .next hfirst⟩ hrest
      have hnode : renderNodes ctx.lenient declared depth [node] st = .ok st₁ := by
        cases node with
        | text t =>
          rw [renderNode_text] at hfirst ⊢
          exact hfirst
        | var name =>
          rw [renderNode_var] at hfirst ⊢
          exact renderVar_lenient hfirst
        | sect name inverted children =>
          by_cases hshow : ctx.shows name inverted = true
          · have hshow' : ctx.lenient.shows name inverted = true := hshow
            rw [renderNode_shown hshow] at hfirst
            obtain ⟨st₂, hchildren, hend⟩ := bind_eq_ok hfirst
            have hinner : renderNodes ctx.lenient declared depth children st = .ok st₂ :=
              ih _ ⟨_, .shown hshow⟩ hchildren
            rw [renderNode_shown hshow', hinner]
            exact hend
          · have hshow' : ctx.lenient.shows name inverted ≠ true := hshow
            rw [renderNode_hidden hshow] at hfirst
            rw [renderNode_hidden hshow']
            exact hfirst
        | partialRef reference =>
          by_cases hdepth : depth + 1 ≤ maxPartialDepth
          · rw [renderNode_include hdepth] at hfirst ⊢
            obtain ⟨⟨resolved, st₂⟩, henter, hend⟩ := bind_eq_ok hfirst
            obtain ⟨st₃, hnodes, hend⟩ := bind_eq_ok hend
            have hinner : renderNodes ctx.lenient resolved.version.declared (depth + 1)
                resolved.version.nodes st₂ = .ok st₃ := ih _ ⟨_, .expand hdepth henter⟩ hnodes
            rw [enterPartial_lenient, henter]
            show (renderNodes ctx.lenient resolved.version.declared (depth + 1)
              resolved.version.nodes st₂ >>= fun _ => _) = _
            rw [hinner]
            exact hend
          · -- too deep under either policy
            rw [renderNodes_deep (Nat.lt_of_not_le hdepth)] at hfirst
            cases hfirst
      rw [hnode]
      exact hlater

/-- **The missing-variable policies are ordered.** A render that succeeds under the strict policy
succeeds under the lenient one with the same result. -/
theorem render_lenient {jsonText : Value → String} {registry : PromptRegistry}
    {tenantId reference : String} {vars : Assoc String Value} {cohortKey : Option String}
    {rendered : Rendered}
    (h : registry.renderWithCohort jsonText tenantId reference vars .error cohortKey =
      .ok rendered) :
    registry.renderWithCohort jsonText tenantId reference vars .empty cohortKey = .ok rendered := by
  unfold PromptRegistry.renderWithCohort at h ⊢
  obtain ⟨resolved, hresolved, h⟩ := bind_eq_ok h
  obtain ⟨st, hst, h⟩ := bind_eq_ok h
  have hnodes := renderNodes_lenient (f := ⟨_, _, _, _⟩) hst
  rw [hresolved]
  show (renderNodes _ resolved.version.declared 0 resolved.version.nodes _ >>= fun _ => _) = _
  have hlenient : renderNodes { registry, tenantId, vars, missing := .empty, jsonText }
      resolved.version.declared 0 resolved.version.nodes
      { stack := [resolved.promptId], includes := 0, out := "" } = .ok st := hnodes
  rw [hlenient]
  exact h

/-! ## One prompt -/

/-- A template that greets, with a name that is optional. -/
def greetVersion : Version where
  version := 1
  template := "hi \x7b\x7bname\x7d\x7d"
  «variables» := []
  defaultModel := none
  defaultParams := none
  nodes := [.text "hi ", .var "name"]
  declared := [("name", false)]

def greetPrompt : StoredPrompt where
  id := "greet"
  name := "Greet"
  description := none
  latestVersion := 1
  labels := []
  variants := []
  versions := [(1, greetVersion)]

def greetRegistry : PromptRegistry := { tenants := [("t", [("greet", greetPrompt)])] }

/-- What the prompt renders as without a name. -/
def greetRendered : Rendered where
  promptId := "greet"
  version := 1
  label := none
  variant := none
  model := none
  params := none
  text := "hi "

theorem greet_strict : greetRegistry.renderWithCohort (fun _ => "") "t" "greet" [] .error none =
    .ok greetRendered := by
  have hresolved : greetRegistry.resolveWithCohort "t" "greet" none =
      .ok ⟨"greet", 1, none, none, greetVersion, greetPrompt⟩ := by rfl
  have hnodes : ∀ ctx : RenderCtx, ctx.vars = [] → ctx.missing = .error →
      renderNodes ctx [("name", false)] 0 [.text "hi ", .var "name"] ⟨["greet"], 0, ""⟩ =
        .ok ⟨["greet"], 0, "hi "⟩ := by
    intro ctx hvars hmissing
    have hvar : ∀ st, renderVar ctx [("name", false)] "name" st = .ok st := by
      intro st
      unfold renderVar
      rw [hvars, hmissing]
      rfl
    have hpush : RenderState.pushStr ⟨["greet"], 0, ""⟩ "hi " = .ok ⟨["greet"], 0, "hi "⟩ := by rfl
    rw [renderNodes_text, hpush]
    show renderNodes ctx [("name", false)] 0 [.var "name"] ⟨["greet"], 0, "hi "⟩ = _
    rw [renderNodes_var, hvar]
    exact renderNodes_nil
  unfold PromptRegistry.renderWithCohort
  rw [hresolved]
  show (renderNodes _ [("name", false)] 0 [.text "hi ", .var "name"] ⟨["greet"], 0, ""⟩ >>=
    fun _ => _) = _
  rw [hnodes _ rfl rfl]
  rfl

theorem render_lenient_greet :
    greetRegistry.renderWithCohort (fun _ => "") "t" "greet" [] .empty none = .ok greetRendered :=
  render_lenient greet_strict

end Routeplane.Prompts
