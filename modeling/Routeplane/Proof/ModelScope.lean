import Routeplane.Lib.FirstMatch
import Routeplane.Proof.Swap
import Mathlib.Data.String.Basic

/-!
# The limiter of a model

A key's model patterns are trimmed, sorted by how specific they are and searched for the first that
the model contains. The map of patterns is walked in no particular order, which the sort keeps among
patterns of one text.

* `configured_perm`: the order of a map changes the order of what it configures alone.
* `Live.Inv.swap_limiter`: the limiter of a model is the first of the sorted patterns, with its previous
  counters where its policy is the same.
* `model_scope_iff`: when the limiter does not depend on the order of the maps.
-/

namespace Routeplane.Limits

open FirstMatch

/-! ## What a file configures -/

/-- A trimmed pattern and its compiled policy. -/
abbrev Spec := String × ScopePolicy

/-- What an entry of a map of patterns configures, if it limits anything. -/
def specOf (k : String) (maxReplicas : ℕ) (entry : String × LimitPolicy) : Option Spec :=
  if (trimText entry.1).isEmpty || entry.2.isEmpty then none
  else (ScopePolicy.fromPolicy .model entry.2 ("model:" ++ k ++ ":" ++ trimText entry.1)
    maxReplicas).map fun p => (trimText entry.1, p)

def specs (k : String) (maxReplicas : ℕ) (patterns : List (String × LimitPolicy)) : List Spec :=
  patterns.filterMap (specOf k maxReplicas)

/-- The patterns configured for a key: those of the last entry for it that has any. -/
def configured (k : String) (maxReplicas : ℕ) : List KeyLimitsInput → List Spec
  | [] => []
  | e :: es =>
    if configured k maxReplicas es ≠ [] then configured k maxReplicas es
    else if e.routeplaneKey = k then specs k maxReplicas e.limits.modelLimits
    else []

theorem configured_cons (k : String) (maxReplicas : ℕ) (e : KeyLimitsInput)
    (es : List KeyLimitsInput) : configured k maxReplicas (e :: es) =
      if configured k maxReplicas es ≠ [] then configured k maxReplicas es
      else if e.routeplaneKey = k then specs k maxReplicas e.limits.modelLimits
      else [] := rfl

/-- The same entry, its map of patterns walked in another order. -/
def SameEntry (e e' : KeyLimitsInput) : Prop :=
  e.limits.modelLimits.Perm e'.limits.modelLimits ∧
    e' = { e with limits := { e.limits with modelLimits := e'.limits.modelLimits } }

/-- The same file, its maps walked in other orders. -/
def Reordered : List KeyLimitsInput → List KeyLimitsInput → Prop := List.Forall₂ SameEntry

section Configured

variable {k : String} {maxReplicas : ℕ} {entries entries' : List KeyLimitsInput} {x : Spec}

theorem configured_perm (h : Reordered entries entries') :
    (configured k maxReplicas entries).Perm (configured k maxReplicas entries') := by
  induction h with
  | nil => exact .refl _
  | @cons e e' es es' hsame _ ih =>
    obtain ⟨hperm, heq⟩ := hsame
    have hkey : e'.routeplaneKey = e.routeplaneKey := congrArg (·.routeplaneKey) heq
    have hempty : configured k maxReplicas es = [] ↔ configured k maxReplicas es' = [] := by
      constructor
      · intro h
        rw [h] at ih
        exact List.nil_perm.1 ih
      · intro h
        rw [h] at ih
        exact List.perm_nil.1 ih
    rw [configured_cons, configured_cons, hkey]
    by_cases h : configured k maxReplicas es = []
    · rw [if_neg (not_not_intro h), if_neg (not_not_intro (hempty.1 h))]
      split
      · exact hperm.filterMap _
      · exact .refl _
    · rw [if_pos h, if_pos (fun h' => h (hempty.2 h'))]
      exact ih

theorem SameEntry.refl (e : KeyLimitsInput) : SameEntry e e := ⟨.refl _, rfl⟩

theorem Reordered.refl (entries : List KeyLimitsInput) : Reordered entries entries :=
  List.forall₂_same.2 fun e _ => .refl e

/-- Some order of the maps meets a configured pattern before the others. -/
theorem exists_reordered_first (hx : x ∈ configured k maxReplicas entries) :
    ∃ entries' rest, Reordered entries entries' ∧
      configured k maxReplicas entries' = x :: rest := by
  induction entries with
  | nil => cases hx
  | cons e es ih =>
    rw [configured_cons] at hx
    split at hx
    · obtain ⟨es', rest, hre, heq⟩ := ih hx
      refine ⟨e :: es', rest, .cons (.refl e) hre, ?_⟩
      have hne : configured k maxReplicas es' ≠ [] := by
        rw [heq]
        exact List.cons_ne_nil _ _
      rw [configured_cons, if_pos hne, heq]
    · rename_i hlater
      split at hx
      · rename_i hkey
        obtain ⟨entry, hentry, hspec⟩ := List.mem_filterMap.1 hx
        have hperm := List.perm_cons_erase hentry
        refine ⟨{ e with limits := { e.limits with
            modelLimits := entry :: e.limits.modelLimits.erase entry } } :: es,
          specs k maxReplicas (e.limits.modelLimits.erase entry),
          .cons ⟨hperm, rfl⟩ (Reordered.refl es), ?_⟩
        rw [configured_cons, if_neg hlater, if_pos hkey]
        exact List.filterMap_cons_some hspec
      · cases hx

end Configured

/-! ## What a build makes of it -/

/-- Longer patterns first, equally long ones in order of their text. -/
def Before (x y : Spec) : Prop :=
  y.1.utf8ByteSize < x.1.utf8ByteSize ∨ (x.1.utf8ByteSize = y.1.utf8ByteSize ∧ x.1 ≤ y.1)

instance : DecidableRel Before := fun _ _ => inferInstanceAs (Decidable (_ ∨ _))

instance : Std.Total Before where
  total x y := by
    unfold Before
    rcases Nat.lt_trichotomy x.1.utf8ByteSize y.1.utf8ByteSize with h | h | h
    · exact Or.inr (Or.inl h)
    · rcases le_total x.1 y.1 with hle | hle
      · exact Or.inl (Or.inr ⟨h, hle⟩)
      · exact Or.inr (Or.inr ⟨h.symm, hle⟩)
    · exact Or.inl (Or.inl h)

instance : IsTrans Spec Before where
  trans x y z hxy hyz := by
    unfold Before at hxy hyz ⊢
    rcases hxy with hxy | ⟨hxy, hxy'⟩
    · rcases hyz with hyz | ⟨hyz, -⟩
      · exact Or.inl (hyz.trans hxy)
      · exact Or.inl (hyz ▸ hxy)
    · rcases hyz with hyz | ⟨hyz, hyz'⟩
      · exact Or.inl (hxy ▸ hyz)
      · exact Or.inr ⟨hxy.trans hyz, hxy'.trans hyz'⟩

theorem Before.text_eq {x y : Spec} (hxy : Before x y) (hyx : Before y x) : x.1 = y.1 := by
  rcases hxy with hlt | ⟨heq, hle⟩
  · rcases hyx with hlt' | ⟨heq', -⟩
    · omega
    · omega
  · rcases hyx with hlt' | ⟨-, hle'⟩
    · omega
    · exact le_antisymm hle hle'

/-- A row as configured. -/
def viewRow (row : String × Scoped .model) : Spec := (row.1, row.2.1.policy)

theorem before_viewRow (a b : String × Scoped .model) :
    Before (viewRow a) (viewRow b) ↔ moreSpecific a b = true := by
  unfold Before viewRow moreSpecific
  simp only [Bool.or_eq_true, Bool.and_eq_true, decide_eq_true_eq, beq_iff_eq]

def rowsOf (snap : RegistrySnapshot) (k : String) : ModelCounterList :=
  (snap.modelCounters k).getD []

section Build

variable {maxReplicas : ℕ}

theorem newSlot_policy (maxReplicas : ℕ) (kind : LimitScope) (policy : LimitPolicy)
    (fallback : String) (h : Heap) :
    (newSlot kind policy fallback maxReplicas h).1.map (fun sc => sc.1.policy) =
      ScopePolicy.fromPolicy kind policy fallback maxReplicas := by
  unfold newSlot
  split
  · rename_i hnone
    exact hnone.symm
  · rename_i p hsome
    exact hsome.symm

theorem modelRows_view (maxReplicas : ℕ) (k : String) (patterns : List (String × LimitPolicy)) :
    ∀ h : Heap,
    (modelRows k maxReplicas patterns h).1.map viewRow = specs k maxReplicas patterns := by
  induction patterns with
  | nil => exact fun _ => rfl
  | cons entry rest ih =>
    intro h
    obtain ⟨pattern, policy⟩ := entry
    unfold specs at ih ⊢
    simp only [modelRows]
    by_cases hskip : ((trimText pattern).isEmpty || policy.isEmpty) = true
    · have hspec : specOf k maxReplicas (pattern, policy) = none := if_pos hskip
      rw [if_pos hskip, List.filterMap_cons_none hspec]
      exact ih h
    · rw [if_neg hskip]
      have hslot := newSlot_policy maxReplicas .model policy
        ("model:" ++ k ++ ":" ++ trimText pattern) h
      have hspec : specOf k maxReplicas (pattern, policy) =
          (ScopePolicy.fromPolicy .model policy ("model:" ++ k ++ ":" ++ trimText pattern)
            maxReplicas).map fun p => (trimText pattern, p) := if_neg hskip
      rw [← hslot] at hspec
      generalize newSlot .model policy ("model:" ++ k ++ ":" ++ trimText pattern) maxReplicas h =
        made at hspec
      obtain ⟨slot, h'⟩ := made
      cases slot with
      | none =>
        rw [List.filterMap_cons_none hspec]
        exact ih h'
      | some sc =>
        rw [List.filterMap_cons_some hspec]
        exact congrArg ((trimText pattern, sc.1.policy) :: ·) (ih h')

theorem specs_of_empty (k : String) {limits : KeyLimits} (h : limits.modelLimitsIsEmpty = true) :
    specs k maxReplicas limits.modelLimits = [] := by
  unfold specs
  rw [List.filterMap_eq_nil_iff]
  intro entry hentry
  have hempty : entry.2.isEmpty = true := by
    unfold KeyLimits.modelLimitsIsEmpty at h
    rcases Bool.or_eq_true_iff.1 h with hnil | hall
    · rw [List.isEmpty_iff.1 hnil] at hentry
      cases hentry
    · exact List.all_eq_true.1 hall entry hentry
  exact if_pos (by rw [hempty, Bool.or_true])

theorem addKey_models (snap : RegistrySnapshot) (e : KeyLimitsInput) (h : Heap) :
    (snap.addKey maxReplicas e h).1.modelCounters = snap.modelCounters := by
  unfold RegistrySnapshot.addKey
  split
  · rfl
  · split <;> rfl

theorem addTenant_models (snap : RegistrySnapshot) (e : KeyLimitsInput) (h : Heap) :
    (snap.addTenant maxReplicas e h).1.modelCounters = snap.modelCounters := by
  unfold RegistrySnapshot.addTenant
  split
  · rfl
  · split
    · rfl
    · split <;> rfl

theorem sort_view (rows : ModelCounterList) :
    (rows.insertionSort fun a b => moreSpecific a b = true).map viewRow =
      (rows.map viewRow).insertionSort Before :=
  List.map_insertionSort _ Before viewRow rows fun a _ b _ => (before_viewRow a b).symm

theorem addModels_view (snap : RegistrySnapshot) (e : KeyLimitsInput) (h : Heap) (k : String) :
    (rowsOf (snap.addModels maxReplicas e h).1 k).map viewRow =
      if e.routeplaneKey = k ∧ specs k maxReplicas e.limits.modelLimits ≠ [] then
        (specs k maxReplicas e.limits.modelLimits).insertionSort Before
      else (rowsOf snap k).map viewRow := by
  unfold RegistrySnapshot.addModels
  by_cases hempty : e.limits.modelLimitsIsEmpty = true
  · rw [if_pos hempty, if_neg (fun h => h.2 (specs_of_empty k hempty))]
  · rw [if_neg hempty]
    have hview := modelRows_view maxReplicas e.routeplaneKey e.limits.modelLimits h
    generalize modelRows e.routeplaneKey maxReplicas e.limits.modelLimits h = made at hview
    obtain ⟨rows, h'⟩ := made
    cases rows with
    | nil =>
      have hno : ¬(e.routeplaneKey = k ∧ specs k maxReplicas e.limits.modelLimits ≠ []) := by
        rintro ⟨rfl, hne⟩
        exact hne hview.symm
      rw [if_neg hno]
    | cons first rest =>
      by_cases hk : e.routeplaneKey = k
      · subst hk
        have hne : specs e.routeplaneKey maxReplicas e.limits.modelLimits ≠ [] := by
          rw [← hview]
          exact List.cons_ne_nil _ _
        rw [if_pos ⟨rfl, hne⟩, ← hview, ← sort_view]
        unfold rowsOf
        simp only [Function.update_self, Option.getD_some]
      · rw [if_neg (fun h => hk h.1)]
        unfold rowsOf
        simp only [Function.update_of_ne (Ne.symm hk)]

theorem addEntry_view (acc : RegistrySnapshot × Heap) (e : KeyLimitsInput) (k : String) :
    (rowsOf (RegistrySnapshot.addEntry maxReplicas e acc).1 k).map viewRow =
      if e.routeplaneKey = k ∧ specs k maxReplicas e.limits.modelLimits ≠ [] then
        (specs k maxReplicas e.limits.modelLimits).insertionSort Before
      else (rowsOf acc.1 k).map viewRow := by
  unfold RegistrySnapshot.addEntry
  by_cases hempty : e.limits.isEmpty = true
  · have hmodels : e.limits.modelLimitsIsEmpty = true := by
      unfold KeyLimits.isEmpty at hempty
      exact (Bool.and_eq_true_iff.1 hempty).2
    rw [if_pos hempty, if_neg (fun h => h.2 (specs_of_empty k hmodels))]
  · rw [if_neg hempty]
    simp only [addModels_view]
    unfold rowsOf
    rw [addTenant_models, addKey_models]

/-- **What a build makes of a file**: for each key its configured patterns, sorted. -/
theorem build_view (maxReplicas : ℕ) (entries : List KeyLimitsInput) (h : Heap) (k : String) :
    (rowsOf (LimitRegistry.buildWithReplicas entries maxReplicas h).1.inner k).map viewRow =
      (configured k maxReplicas entries).insertionSort Before := by
  have hfold : ∀ (entries : List KeyLimitsInput) (acc : RegistrySnapshot × Heap),
      (rowsOf (entries.foldl (fun acc e => RegistrySnapshot.addEntry maxReplicas e acc) acc).1
        k).map viewRow =
        if configured k maxReplicas entries ≠ [] then
          (configured k maxReplicas entries).insertionSort Before
        else (rowsOf acc.1 k).map viewRow := by
    intro entries
    induction entries with
    | nil =>
      intro acc
      exact (if_neg (not_not_intro rfl)).symm
    | cons e es ih =>
      intro acc
      rw [List.foldl_cons, ih, addEntry_view]
      -- the last entry of the key that configures a pattern counts
      rw [configured_cons]
      by_cases hlater : configured k maxReplicas es = []
      · rw [if_neg (not_not_intro hlater), if_neg (not_not_intro hlater)]
        by_cases hk : e.routeplaneKey = k
        · rw [if_pos hk]
          by_cases hne : specs k maxReplicas e.limits.modelLimits = []
          · rw [if_neg (fun h => h.2 hne), if_neg (not_not_intro hne)]
          · rw [if_pos ⟨hk, hne⟩, if_pos hne]
        · rw [if_neg hk, if_neg (fun h => hk h.1), if_neg (not_not_intro rfl)]
      · rw [if_pos hlater, if_pos hlater, if_pos hlater]
  have hall := hfold entries ({}, h)
  by_cases hne : configured k maxReplicas entries = []
  · rw [if_neg (not_not_intro hne)] at hall
    rw [hne]
    exact hall
  · rw [if_pos hne] at hall
    exact hall

end Build

/-! ## The limiter of a model -/

/-- The pattern a model is limited by, and its slot. -/
def Live.limiter (σ : Live) (k servedModel : String) : Option (String × ScopeSlot) :=
  ((rowsOf σ.registry.inner k).find? fun row => containsText servedModel row.1).map fun row =>
    (row.1, row.2.1)

/-- The guard of a request is the slot of its limiter. -/
theorem resolveForModel_model (σ : Live) (k tenantId servedModel : String) :
    (σ.registry.resolveForModel k tenantId servedModel).model.map (·.1) =
      (σ.limiter k servedModel).map (·.2) := by
  unfold LimitRegistry.resolveForModel Live.limiter rowsOf
  cases σ.registry.inner.modelCounters k with
  | none => rfl
  | some rows =>
    simp only [Option.bind_some, Option.getD_some, Option.map_map]
    rfl

theorem preserve_empty (next : RegistrySnapshot) : LimitRegistry.preserve next {} = next := by
  have hid : ∀ {α : Type} (o : Option α), o.map (fun a => a) = o := by
    intro α o
    cases o <;> rfl
  unfold LimitRegistry.preserve
  simp only [hid]

/-- A start is a swap into an empty registry. -/
theorem start_limiter (entries : List KeyLimitsInput) (maxReplicas : ℕ) (k servedModel : String) :
    (Live.start entries maxReplicas).limiter k servedModel =
      ((Live.start [] maxReplicas).swap entries).limiter k servedModel := by
  have hswap : ((Live.start [] maxReplicas).swap entries).registry.inner =
      LimitRegistry.preserve (Live.start entries maxReplicas).registry.inner {} := rfl
  unfold Live.limiter
  rw [hswap, preserve_empty]

/-- A configured pattern that the model contains and no other one the model contains comes before. -/
def Decisive (servedModel : String) (configured : List Spec) (x : Spec) : Prop :=
  x ∈ configured ∧ containsText servedModel x.1 = true ∧
    ∀ y ∈ configured, containsText servedModel y.1 = true → Before x y

/-- The same limiter: one pattern and one policy, and the counters are the same or both new. -/
def SameLimiter (fresh : ℕ) : Option (String × ScopeSlot) → Option (String × ScopeSlot) → Prop :=
  Option.Rel fun a b => a.1 = b.1 ∧ a.2.policy.samePolicy b.2.policy = true ∧
    (a.2 = b.2 ∨ fresh ≤ a.2.addr ∧ fresh ≤ b.2.addr)

/-- What is asked of the limiter of a model once a file is swapped in. -/
structure ModelScopeLaw (σ : Live) (entries : List KeyLimitsInput) (k servedModel : String) :
    Prop where
  resolved : ∀ tenantId,
    ((σ.swap entries).registry.resolveForModel k tenantId servedModel).model.map (·.1) =
      ((σ.swap entries).limiter k servedModel).map (·.2)
  found : (σ.swap entries).limiter k servedModel = none →
    ∀ x ∈ configured k σ.registry.maxReplicas entries, containsText servedModel x.1 = false
  longest : ∀ pat s, (σ.swap entries).limiter k servedModel = some (pat, s) →
    (∃ x ∈ configured k σ.registry.maxReplicas entries, x.1 = pat ∧
      s.policy.samePolicy x.2 = true) ∧ containsText servedModel pat = true ∧
      ∀ y ∈ configured k σ.registry.maxReplicas entries, containsText servedModel y.1 = true →
        y.1.utf8ByteSize ≤ pat.utf8ByteSize
  ordered : ∀ entries', Reordered entries entries' → SameLimiter σ.heap.next
    ((σ.swap entries).limiter k servedModel) ((σ.swap entries').limiter k servedModel)
  preserved : ∀ pat s, (σ.swap entries).limiter k servedModel = some (pat, s) →
    s.addr < σ.heap.next → (σ.rows (.model k pat)).head? = some s

/-- The patterns that trim to the text a model is limited by are configured with one policy. -/
def OneLimit (k servedModel : String) (maxReplicas : ℕ) (entries : List KeyLimitsInput) : Prop :=
  ∀ x y, Decisive servedModel (configured k maxReplicas entries) x →
    Decisive servedModel (configured k maxReplicas entries) y → x.2.samePolicy y.2 = true

namespace Live

variable {own : Owners} {σ : Live} {entries entries' : List KeyLimitsInput}
  {k servedModel pat : String} {s : ScopeSlot} {x : Spec}

/-- **The limiter after a swap**: the first configured pattern of the sort, in a new slot or in the
first one the pattern had before. -/
theorem Inv.swap_limiter (hi : Inv own σ) (entries : List KeyLimitsInput) (k servedModel : String) :
    Option.Rel (fun a x => a.1 = x.1 ∧ ∃ b : ScopeSlot, b.policy = x.2 ∧ σ.heap.next ≤ b.addr ∧
        a.2 = keepFirst (σ.rows (.model k x.1)).head? b)
      ((σ.swap entries).limiter k servedModel)
      (((configured k σ.registry.maxReplicas entries).insertionSort Before).find? fun x =>
        containsText servedModel x.1) := by
  obtain ⟨own', -, hn⟩ := hi.build entries
  have hview := build_view σ.registry.maxReplicas entries σ.heap k
  have hrows : rowsOf (σ.swap entries).registry.inner k =
      (rowsOf (σ.built entries) k).map
        (preserveRow ((σ.registry.inner.modelCounters k).getD [])) := by
    show ((LimitRegistry.preserve (σ.built entries) σ.registry.inner).modelCounters k).getD [] = _
    unfold LimitRegistry.preserve rowsOf
    simp only
    cases (σ.built entries).modelCounters k with
    | none => rfl
    | some rows =>
      cases σ.registry.inner.modelCounters k with
      | none => exact (List.map_id rows).symm
      | some prevRows => rfl
  have hbuilt : rowsOf (σ.built entries) k =
      rowsOf (LimitRegistry.buildWithReplicas entries σ.registry.maxReplicas σ.heap).1.inner k := rfl
  rw [← hbuilt] at hview
  rw [← hview]
  unfold limiter
  rw [hrows, List.find?_map, List.find?_map]
  have hsame : ((fun row : String × Scoped .model => containsText servedModel row.1) ∘
      preserveRow ((σ.registry.inner.modelCounters k).getD [])) =
      fun row => containsText servedModel row.1 := by
    funext row
    exact congrArg (containsText servedModel) (preserveRow_pattern _ row)
  rw [hsame]
  have hsame' : ((fun x : Spec => containsText servedModel x.1) ∘ viewRow) =
      fun row => containsText servedModel row.1 := rfl
  rw [hsame']
  cases hfind : (rowsOf (σ.built entries) k).find? fun row => containsText servedModel row.1 with
  | none => exact .none
  | some row =>
    refine .some ⟨preserveRow_pattern _ row, row.2.1, rfl, ?_, ?_⟩
    · -- a slot that is built is new
      have hmem := List.mem_of_find?_eq_some hfind
      have hslot : row.2.1 ∈ (σ.built entries).rows (.model k row.1) :=
        List.mem_filterMap.2 ⟨row, hmem, if_pos rfl⟩
      exact (hn (.model k row.1) row.2.1 hslot).2
    · show (preserveRow ((σ.registry.inner.modelCounters k).getD []) row).2.1 = _
      rw [preserveRow_val]
      unfold viewRow rows RegistrySnapshot.rows
      rw [head_rows]

theorem keepFirst_samePolicy (first : Option ScopeSlot) (b : ScopeSlot) :
    (keepFirst first b).policy.samePolicy b.policy = true := by
  unfold keepFirst
  cases first with
  | none => exact ScopePolicy.samePolicy_refl _
  | some f =>
    simp only
    split
    · rename_i hsame
      exact ScopePolicy.samePolicy_symm hsame
    · exact ScopePolicy.samePolicy_refl _

/-- The configured pattern a limiter comes of. -/
theorem Inv.limiter_some (hi : Inv own σ)
    (h : (σ.swap entries).limiter k servedModel = some (pat, s)) :
    ∃ x, Decisive servedModel (configured k σ.registry.maxReplicas entries) x ∧ x.1 = pat ∧
      ∃ b : ScopeSlot, b.policy = x.2 ∧ σ.heap.next ≤ b.addr ∧
        s = keepFirst (σ.rows (.model k pat)).head? b := by
  have hrel := hi.swap_limiter entries k servedModel
  rw [h] at hrel
  cases hfind : ((configured k σ.registry.maxReplicas entries).insertionSort Before).find?
      fun x => containsText servedModel x.1 with
  | none =>
    rw [hfind] at hrel
    cases hrel
  | some x =>
    rw [hfind] at hrel
    cases hrel with
    | some hx =>
      obtain ⟨hpat, b, hpolicy, hfresh, hs⟩ := hx
      have htext : pat = x.1 := hpat
      exact ⟨x, rel_of_find?_insertionSort hfind, htext.symm, b, hpolicy, hfresh, htext ▸ hs⟩

theorem Inv.limiter_none (hi : Inv own σ)
    (h : (σ.swap entries).limiter k servedModel = none) :
    ∀ x ∈ configured k σ.registry.maxReplicas entries, containsText servedModel x.1 = false := by
  have hrel := hi.swap_limiter entries k servedModel
  rw [h] at hrel
  cases hfind : ((configured k σ.registry.maxReplicas entries).insertionSort Before).find?
      fun x => containsText servedModel x.1 with
  | some x =>
    rw [hfind] at hrel
    cases hrel
  | none =>
    intro x hx
    have hno := List.find?_eq_none.1 hfind x ((List.mem_insertionSort Before).2 hx)
    exact Bool.eq_false_iff.2 hno

/-- Of the patterns that may come first, the one its map meets first does. -/
theorem Inv.limiter_first (hi : Inv own σ) {rest : List Spec}
    (hfirst : configured k σ.registry.maxReplicas entries = x :: rest)
    (hx : Decisive servedModel (configured k σ.registry.maxReplicas entries) x) :
    ∃ s, (σ.swap entries).limiter k servedModel = some (x.1, s) ∧
      s.policy.samePolicy x.2 = true := by
  have hrel := hi.swap_limiter entries k servedModel
  rw [hfirst] at hrel hx
  obtain ⟨-, hcontains, hbefore⟩ := hx
  have hfind := find?_insertionSort_cons (r := Before) (l := rest) hcontains
    fun y hy hpy => hbefore y (List.mem_cons_of_mem _ hy) hpy
  rw [hfind] at hrel
  cases hlim : (σ.swap entries).limiter k servedModel with
  | none =>
    rw [hlim] at hrel
    cases hrel
  | some a =>
    rw [hlim] at hrel
    cases hrel with
    | some ha =>
      obtain ⟨hpat, b, hpolicy, -, hs⟩ := ha
      refine ⟨a.2, congrArg some (Prod.ext hpat rfl), ?_⟩
      rw [hs, ← hpolicy]
      exact keepFirst_samePolicy _ b

theorem Decisive.perm {l l' : List Spec} (hp : l.Perm l') (h : Decisive servedModel l x) :
    Decisive servedModel l' x :=
  ⟨hp.subset h.1, h.2.1, fun y hy => h.2.2 y (hp.symm.subset hy)⟩

theorem Decisive.text_eq {l : List Spec} {y : Spec} (hx : Decisive servedModel l x)
    (hy : Decisive servedModel l y) : x.1 = y.1 :=
  Before.text_eq (hx.2.2 y hy.1 hy.2.1) (hy.2.2 x hx.1 hx.2.1)

/-- One limit for the text: the limiter is the same in any order of the maps. -/
theorem Inv.sameLimiter (hi : Inv own σ)
    (hone : OneLimit k servedModel σ.registry.maxReplicas entries)
    (hre : Reordered entries entries') : SameLimiter σ.heap.next
      ((σ.swap entries).limiter k servedModel) ((σ.swap entries').limiter k servedModel) := by
  have hperm : (configured k σ.registry.maxReplicas entries).Perm
      (configured k σ.registry.maxReplicas entries') := configured_perm hre
  cases hlim : (σ.swap entries).limiter k servedModel with
  | none =>
    cases hlim' : (σ.swap entries').limiter k servedModel with
    | none => exact .none
    | some a =>
      obtain ⟨x, hx, -⟩ := hi.limiter_some hlim'
      have hno := hi.limiter_none hlim x (hperm.symm.subset hx.1)
      rw [hx.2.1] at hno
      cases hno
  | some a =>
    obtain ⟨x, hx, hxpat, b, hb, hfresh, ha⟩ := hi.limiter_some hlim
    cases hlim' : (σ.swap entries').limiter k servedModel with
    | none =>
      have hno := hi.limiter_none hlim' x (hperm.subset hx.1)
      rw [hx.2.1] at hno
      cases hno
    | some a' =>
      obtain ⟨x', hx', hxpat', b', hb', hfresh', ha'⟩ := hi.limiter_some hlim'
      have hmoved := Decisive.perm hperm.symm hx'
      have htext := Decisive.text_eq hx hmoved
      have hpolicy : b.policy.samePolicy b'.policy = true := by
        rw [hb, hb']
        exact hone x x' hx hmoved
      have hpat : a.1 = a'.1 := by rw [← hxpat, ← hxpat', htext]
      refine .some ⟨hpat, ?_, ?_⟩
      · rw [ha, ha']
        exact ScopePolicy.samePolicy_trans (keepFirst_samePolicy _ b)
          (ScopePolicy.samePolicy_trans hpolicy
            (ScopePolicy.samePolicy_symm (keepFirst_samePolicy _ b')))
      · -- both take the pattern's previous slot, or neither does
        rw [ha, ha', ← hpat]
        unfold keepFirst
        cases (σ.rows (.model k a.1)).head? with
        | none => exact Or.inr ⟨hfresh, hfresh'⟩
        | some f =>
          simp only
          by_cases hkeep : b.policy.samePolicy f.policy = true
          · have hkeep' := ScopePolicy.samePolicy_trans
              (ScopePolicy.samePolicy_symm hpolicy) hkeep
            rw [if_pos hkeep, if_pos hkeep']
            exact Or.inl rfl
          · have hkeep' : ¬b'.policy.samePolicy f.policy = true := fun h' =>
              hkeep (ScopePolicy.samePolicy_trans hpolicy h')
            rw [if_neg hkeep, if_neg hkeep']
            exact Or.inr ⟨hfresh, hfresh'⟩

/-- Two limits for the text: some order of the maps gives each. -/
theorem Inv.oneLimit (hi : Inv own σ)
    (hsame : ∀ entries', Reordered entries entries' → SameLimiter σ.heap.next
      ((σ.swap entries).limiter k servedModel) ((σ.swap entries').limiter k servedModel)) :
    OneLimit k servedModel σ.registry.maxReplicas entries := by
  have hpolicy : ∀ x, Decisive servedModel (configured k σ.registry.maxReplicas entries) x →
      ∃ a, (σ.swap entries).limiter k servedModel = some a ∧
        a.2.policy.samePolicy x.2 = true := by
    intro x hx
    obtain ⟨entries', rest, hre, hfirst⟩ := exists_reordered_first hx.1
    have hx' := Decisive.perm (configured_perm hre) hx
    obtain ⟨s, hlim', hs⟩ := hi.limiter_first hfirst hx'
    have hrel := hsame entries' hre
    rw [hlim'] at hrel
    cases hlim : (σ.swap entries).limiter k servedModel with
    | none =>
      rw [hlim] at hrel
      cases hrel
    | some a =>
      rw [hlim] at hrel
      cases hrel with
      | some ha => exact ⟨a, rfl, ScopePolicy.samePolicy_trans ha.2.1 hs⟩
  intro x y hx hy
  obtain ⟨a, ha, hax⟩ := hpolicy x hx
  obtain ⟨a', ha', hay⟩ := hpolicy y hy
  have heq : a = a' := Option.some_inj.1 (ha.symm.trans ha')
  rw [← heq] at hay
  exact ScopePolicy.samePolicy_trans (ScopePolicy.samePolicy_symm hax) hay

end Live

/-- **When the limiter of a model does not depend on the order of the maps.** In service, from any
start and after any run, whatever file is swapped in: the limiter of a model is one of a longest
pattern and keeps no counters but those of its own pattern; and it is the same in every order of the
maps exactly when the patterns that trim to its text are configured with one policy. -/
theorem model_scope_iff (first : List KeyLimitsInput) (maxReplicas : ℕ) (past : List Event)
    (hpast : (Live.start first maxReplicas).Runs past) (entries : List KeyLimitsInput)
    (k servedModel : String) :
    let σ := (Live.start first maxReplicas).run past
    ModelScopeLaw σ entries k servedModel ↔
      OneLimit k servedModel σ.registry.maxReplicas entries := by
  intro σ
  obtain ⟨own, hstart⟩ := Live.Inv.start first maxReplicas
  obtain ⟨own', -, hi⟩ := hstart.run hpast
  constructor
  · exact fun law => hi.oneLimit law.ordered
  · intro hone
    refine ⟨fun tenantId => resolveForModel_model _ k tenantId servedModel, hi.limiter_none, ?_,
      fun entries' hre => hi.sameLimiter hone hre, ?_⟩
    · intro pat s hlim
      obtain ⟨x, hx, rfl, b, hb, -, hs⟩ := hi.limiter_some hlim
      refine ⟨⟨x, hx.1, rfl, ?_⟩, hx.2.1, ?_⟩
      · rw [hs, ← hb]
        exact Live.keepFirst_samePolicy _ b
      · intro y hy hcontains
        rcases hx.2.2 y hy hcontains with hlt | ⟨heq, -⟩
        · exact Nat.le_of_lt hlt
        · exact Nat.le_of_eq heq.symm
    · intro pat s hlim hold
      obtain ⟨x, -, -, b, -, hfresh, hs⟩ := hi.limiter_some hlim
      cases hhead : (σ.rows (.model k pat)).head? with
      | none =>
        have hb : s = b := by rw [hs, hhead]; rfl
        rw [hb] at hold
        exact absurd hold (Nat.not_lt.2 hfresh)
      | some f =>
        rw [hhead] at hs
        unfold keepFirst at hs
        simp only at hs
        split at hs
        · rw [hs]
        · rw [hs] at hold
          exact absurd hold (Nat.not_lt.2 hfresh)

/-- The limits of the two patterns are swapped in while requests are counted. -/
theorem model_scope_iff_gpt :
    let σ := (Live.start (twoPatterns ("gpt", 5) ("claude", 7)) 1).run
      [.resolve "k" "t" (some "gpt-4"), .take firstPattern 0]
    ModelScopeLaw σ (twoPatterns ("gpt-4", 5) ("gpt", 7)) "k" "gpt-4" ↔
      OneLimit "k" "gpt-4" σ.registry.maxReplicas (twoPatterns ("gpt-4", 5) ("gpt", 7)) :=
  model_scope_iff (twoPatterns ("gpt", 5) ("claude", 7)) 1
    [.resolve "k" "t" (some "gpt-4"), .take firstPattern 0] (by decide)
    (twoPatterns ("gpt-4", 5) ("gpt", 7)) "k" "gpt-4"

/-- Two patterns that trim to one text: the limit of a model is the one its map meets first. -/
theorem map_order_decides_limit :
    ¬∀ (first : List KeyLimitsInput) (maxReplicas : ℕ) (past : List Event),
      (Live.start first maxReplicas).Runs past → ∀ entries k servedModel,
        ModelScopeLaw ((Live.start first maxReplicas).run past) entries k servedModel := by
  intro h
  have hlaw := h [] 1 [] trivial (twoPatterns ("gpt", 5) (" gpt", 7)) "k" "gpt-4"
  have hre : Reordered (twoPatterns ("gpt", 5) (" gpt", 7)) (twoPatterns (" gpt", 7) ("gpt", 5)) :=
    .cons ⟨.swap _ _ _, rfl⟩ .nil
  have hrel := hlaw.ordered _ hre
  have hlimit : ∀ a b : Option (String × ScopeSlot), SameLimiter 0 a b →
      a.map (·.2.policy.requestsPerMin) = b.map (·.2.policy.requestsPerMin) := by
    intro a b hab
    cases hab with
    | none => rfl
    | some hsame =>
      have hpolicy := ScopePolicy.samePolicy_iff.1 hsame.2.1
      exact congrArg some (congrArg (·.requestsPerMin) hpolicy)
  have heq := hlimit _ _ hrel
  revert heq
  decide

end Routeplane.Limits
