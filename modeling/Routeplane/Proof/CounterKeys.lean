import Routeplane.Lib.Separated
import Routeplane.Limits.Distributed
import Routeplane.Proof.Swap

/-!
# The keys of the shared counters

The shared counter of a scope is found by a text made of its kind, its identity and the epoch, with
colons between. The identity of a virtual key or a tenant is its name; that of a model pattern is the
name of its key, a colon and the pattern, and both may have colons of their own.

* `Identified`: every slot of a registry has the identity of its scope, also after swaps.
* `counterKey_inj`: equal keys have equal kinds, identities and epochs.
* `counter_keys_distinct_iff`: different scopes of a registry have different counters, unless the key
  of one model pattern goes on where another pattern starts.
* `split_name_shared`: two such patterns.
-/

namespace Routeplane.Limits

namespace ScopeId

def scope : ScopeId → LimitScope
  | key _ => .key
  | tenant _ => .tenant
  | model _ _ => .model

/-- The identity the registry gives to a scope. -/
def identity : ScopeId → String
  | key routeplaneKey => "key:" ++ routeplaneKey
  | tenant tenantId => "tenant:" ++ tenantId
  | model routeplaneKey pattern => "model:" ++ routeplaneKey ++ ":" ++ pattern

/-- The policy was compiled for the scope. -/
structure Names (id : ScopeId) (p : ScopePolicy) : Prop where
  scope : p.scope = id.scope
  identity : p.identity = id.identity

end ScopeId

/-- Every slot was compiled for the scope it is found under. -/
def Identified (snap : RegistrySnapshot) : Prop := ∀ id, ∀ s ∈ snap.rows id, id.Names s.policy

/-- A registry and its later configurations, which keep the counters they do not change. -/
def LimitRegistry.configured (maxReplicas : ℕ) (first : List KeyLimitsInput)
    (later : List (List KeyLimitsInput)) (h : Heap) : LimitRegistry × Heap :=
  later.foldl (fun acc entries => acc.1.replacePreservingCounters entries acc.2)
    (buildWithReplicas first maxReplicas h)

section Build

variable {snap : RegistrySnapshot} {maxReplicas : ℕ} {e : KeyLimitsInput} {h h' : Heap}

theorem newSlot_names (id : ScopeId) {policy : LimitPolicy} {sc : Scoped id.scope}
    (heq : newSlot id.scope policy id.identity maxReplicas h = (some sc, h')) :
    id.Names sc.1.policy := by
  unfold newSlot at heq
  split at heq
  · cases heq
  · rename_i p hp
    obtain ⟨hscope, -, hidentity⟩ := ScopePolicy.fromPolicy_identity hp
    obtain ⟨hsc, -⟩ := Prod.mk.inj heq
    rw [← Option.some.inj hsc]
    exact ⟨hscope, hidentity⟩

theorem Identified.addKey (hi : Identified snap) :
    Identified (snap.addKey maxReplicas e h).1 := by
  unfold RegistrySnapshot.addKey
  cases e.limits.key with
  | none => exact hi
  | some p =>
    simp only
    split
    · exact hi
    · rename_i sc h' heq
      have hnew := newSlot_names (.key e.routeplaneKey) heq
      intro id s hs
      cases id with
      | tenant t => exact hi _ s hs
      | model k pattern => exact hi _ s hs
      | key k =>
        by_cases hk : k = e.routeplaneKey
        · subst hk
          simp only [RegistrySnapshot.rows, Function.update_self, Option.toList_some,
            List.map_cons, List.map_nil, List.mem_singleton] at hs
          rw [hs]
          exact hnew
        · simp only [RegistrySnapshot.rows, Function.update_of_ne hk] at hs
          exact hi (.key k) s hs

theorem Identified.addTenant (hi : Identified snap) :
    Identified (snap.addTenant maxReplicas e h).1 := by
  unfold RegistrySnapshot.addTenant
  cases e.limits.tenant with
  | none => exact hi
  | some p =>
    simp only
    split
    · exact hi
    split
    · exact hi
    · rename_i sc h' heq
      have hnew := newSlot_names (.tenant e.tenantId) heq
      intro id s hs
      cases id with
      | key k => exact hi _ s hs
      | model k pattern => exact hi _ s hs
      | tenant t =>
        by_cases ht : t = e.tenantId
        · subst ht
          simp only [RegistrySnapshot.rows, Function.update_self, Option.toList_some,
            List.map_cons, List.map_nil, List.mem_singleton] at hs
          rw [hs]
          exact hnew
        · simp only [RegistrySnapshot.rows, Function.update_of_ne ht] at hs
          exact hi (.tenant t) s hs

/-- The rows of a key, by induction on its patterns. -/
theorem modelRows_names (maxReplicas : ℕ) (k : String) (patterns : List (String × LimitPolicy)) (h : Heap) :
    ∀ row ∈ (modelRows k maxReplicas patterns h).1, (ScopeId.model k row.1).Names row.2.1.policy := by
  induction patterns generalizing h with
  | nil => exact fun row hrow => absurd hrow List.not_mem_nil
  | cons entry rest ih =>
    obtain ⟨pattern, policy⟩ := entry
    simp only [modelRows]
    split
    · exact ih h
    split
    · exact ih _
    · rename_i sc h' heq
      have hnew := newSlot_names (.model k (trimText pattern)) heq
      intro row hrow
      rcases List.mem_cons.1 hrow with rfl | hrow
      · exact hnew
      · exact ih _ row hrow

theorem Identified.addModels (hi : Identified snap) :
    Identified (snap.addModels maxReplicas e h).1 := by
  unfold RegistrySnapshot.addModels
  split
  · exact hi
  · have hrows := modelRows_names maxReplicas e.routeplaneKey e.limits.modelLimits h
    generalize modelRows e.routeplaneKey maxReplicas e.limits.modelLimits h = built at hrows
    obtain ⟨rows, h'⟩ := built
    cases rows with
    | nil => exact hi
    | cons first rest =>
      intro id s hs
      cases id with
      | key k => exact hi _ s hs
      | tenant t => exact hi _ s hs
      | model k pattern =>
        by_cases hk : k = e.routeplaneKey
        · subst hk
          simp only [RegistrySnapshot.rows, Function.update_self, Option.getD_some,
            List.mem_filterMap, List.mem_insertionSort] at hs
          obtain ⟨row, hrow, hpattern⟩ := hs
          split at hpattern
          · rename_i heq
            rw [← Option.some.inj hpattern, ← heq]
            exact hrows row hrow
          · cases hpattern
        · simp only [RegistrySnapshot.rows, Function.update_of_ne hk] at hs
          exact hi (.model k pattern) s hs

theorem Identified.addEntry {acc : RegistrySnapshot × Heap} (hi : Identified acc.1) :
    Identified (RegistrySnapshot.addEntry maxReplicas e acc).1 := by
  unfold RegistrySnapshot.addEntry
  split
  · exact hi
  · exact hi.addKey.addTenant.addModels

theorem identified_build (entries : List KeyLimitsInput) (maxReplicas : ℕ) (h : Heap) :
    Identified (LimitRegistry.buildWithReplicas entries maxReplicas h).1.inner := by
  have hfold : ∀ (entries : List KeyLimitsInput) (acc : RegistrySnapshot × Heap),
      Identified acc.1 →
      Identified (entries.foldl (fun acc e => RegistrySnapshot.addEntry maxReplicas e acc) acc).1 := by
    intro entries
    induction entries with
    | nil => exact fun acc hacc => hacc
    | cons e entries ih => exact fun acc hacc => ih _ hacc.addEntry
  refine hfold entries ({}, h) fun id s hs => ?_
  cases id <;> exact absurd hs List.not_mem_nil

/-- A swap gives a scope a slot of its own, of the old configuration or the new. -/
theorem Identified.preserve {next prev : RegistrySnapshot} (hn : Identified next)
    (hp : Identified prev) : Identified (LimitRegistry.preserve next prev) := by
  intro id s hs
  rw [rows_preserve] at hs
  obtain ⟨s', hs', rfl⟩ := List.mem_map.1 hs
  cases hfirst : (prev.rows id).head? with
  | none => exact hn id s' hs'
  | some f =>
    unfold keepFirst
    dsimp only
    split
    · exact hp id f (List.mem_of_head? hfirst)
    · exact hn id s' hs'

/-- **Every registry in service is identified**, by induction on its configurations. -/
theorem identified_configured (maxReplicas : ℕ) (first : List KeyLimitsInput)
    (later : List (List KeyLimitsInput)) (h : Heap) :
    Identified (LimitRegistry.configured maxReplicas first later h).1.inner := by
  have hfold : ∀ (later : List (List KeyLimitsInput)) (acc : LimitRegistry × Heap),
      Identified acc.1.inner →
      Identified (later.foldl (fun acc entries => acc.1.replacePreservingCounters entries acc.2)
        acc).1.inner := by
    intro later
    induction later with
    | nil => exact fun acc hacc => hacc
    | cons entries later ih =>
      exact fun acc hacc => ih _ ((identified_build entries _ _).preserve hacc)
  exact hfold later _ (identified_build first maxReplicas h)

end Build

/-! ## The text of a key -/

section Text

variable {keyPrefix i j kind : String} {k l : LimitScope} {e f : ℕ}

theorem counterKey_toList (keyPrefix : String) (k : LimitScope) (i kind : String) (e : ℕ) :
    (counterKey keyPrefix k i kind e).toList =
      (keyPrefix.toList ++ ':' :: (k.header.toList ++ ':' :: (i.toList ++ ':' :: kind.toList))) ++
        ':' :: Nat.toDigits 10 e := by
  have hcolon : (":" : String).toList = [':'] := rfl
  have hepoch : (toString e).toList = Nat.toDigits 10 e := Nat.toList_repr
  unfold counterKey
  simp only [String.toList_append, hcolon, hepoch, List.append_assoc, List.cons_append,
    List.nil_append]

theorem colon_not_mem_digits (e : ℕ) : ':' ∉ Nat.toDigits 10 e := by
  intro h
  have hdigit := Nat.isDigit_of_mem_toDigits (by omega) (by omega) h
  exact absurd hdigit (by decide)

/-- **Equal keys are of one kind, one identity and one epoch**: the epoch is read from the back, the
kind from the front. -/
theorem counterKey_inj (h : counterKey keyPrefix k i kind e = counterKey keyPrefix l j kind f) :
    k = l ∧ i = j ∧ e = f := by
  have hchars := congrArg String.toList h
  rw [counterKey_toList, counterKey_toList] at hchars
  obtain ⟨hfront, hepoch⟩ :=
    (Separated.append_last_inj (colon_not_mem_digits e) (colon_not_mem_digits f)).1 hchars
  have hnames := (List.cons.inj (List.append_cancel_left hfront)).2
  have hheader : ∀ k : LimitScope, ':' ∉ k.header.toList := by
    intro k
    cases k <;> decide
  obtain ⟨hkinds, hrest⟩ := (Separated.append_inj (hheader k) (hheader l)).1 hnames
  have hscope : k = l := by
    cases k <;> cases l <;> first | rfl | (revert hkinds; decide)
  have hidentity : i = j := String.toList_inj.1 (List.append_cancel_right hrest)
  refine ⟨hscope, hidentity, ?_⟩
  calc e = Nat.ofDigitChars 10 (Nat.toDigits 10 e) 0 := Nat.ofDigitChars_ten_toDigits.symm
    _ = f := by rw [hepoch, Nat.ofDigitChars_ten_toDigits]

/-- Two names with a colon between them are read back, or the first name goes on in the other. -/
theorem split_or_continued {a b c d : List Char} (h : a ++ ':' :: b = c ++ ':' :: d) :
    (a = c ∧ b = d) ∨ (∃ x, c = a ++ ':' :: x ∧ b = x ++ ':' :: d) ∨
      ∃ x, a = c ++ ':' :: x ∧ d = x ++ ':' :: b := by
  rcases List.append_eq_append_iff.1 h with ⟨z, hc, hz⟩ | ⟨z, ha, hz⟩
  · cases z with
    | nil =>
      rw [List.append_nil] at hc
      exact .inl ⟨hc.symm, (List.cons.inj hz).2⟩
    | cons z x =>
      obtain ⟨rfl, hb⟩ := List.cons.inj hz
      exact .inr (.inl ⟨x, hc, hb⟩)
  · cases z with
    | nil =>
      rw [List.append_nil] at ha
      exact .inl ⟨ha, (List.cons.inj hz).2.symm⟩
    | cons z x =>
      obtain ⟨rfl, hd⟩ := List.cons.inj hz
      exact .inr (.inr ⟨x, ha, hd⟩)

end Text

/-! ## The scopes of a registry -/

/-- The name of one key is that of another, a colon and more, and the other's pattern starts with what
is more, followed by a colon and the pattern of the one. -/
def Continues (k p k' p' : String) : Prop := ∃ x, k' = k ++ ":" ++ x ∧ p = x ++ ":" ++ p'

theorem continues_of_toList {k p k' p' : String} {x : List Char}
    (hk : k'.toList = k.toList ++ ':' :: x) (hp : p.toList = x ++ ':' :: p'.toList) :
    Continues k p k' p' := by
  have hjoin : ∀ a b : String, (a ++ ":" ++ b).toList = a.toList ++ ':' :: b.toList := by
    intro a b
    rw [String.toList_append, String.toList_append, List.append_assoc]
    rfl
  refine ⟨String.ofList x, String.toList_inj.1 ?_, String.toList_inj.1 ?_⟩
  · rw [hk, hjoin, String.toList_ofList]
  · rw [hp, hjoin, String.toList_ofList]

theorem Continues.identity_eq {k p k' p' : String} (h : Continues k p k' p') :
    (ScopeId.model k p).identity = (ScopeId.model k' p').identity := by
  obtain ⟨x, rfl, rfl⟩ := h
  unfold ScopeId.identity
  simp only [String.append_assoc]

theorem Continues.ne {k p k' p' : String} (h : Continues k p k' p') :
    ScopeId.model k p ≠ ScopeId.model k' p' := by
  obtain ⟨x, rfl, rfl⟩ := h
  intro heq
  have hkey : k = k ++ ":" ++ x := (ScopeId.model.inj heq).1
  have hlength := congrArg (fun s : String => s.toList.length) hkey
  simp only [String.toList_append, List.length_append] at hlength
  have hcolon : (":" : String).toList.length = 1 := rfl
  omega

/-- Scopes of one kind with one identity are one, or two patterns of which one continues the other. -/
theorem ScopeId.eq_of_identity {id id' : ScopeId} (hscope : id.scope = id'.scope)
    (hidentity : id.identity = id'.identity) :
    id = id' ∨ ∃ k p k' p', Continues k p k' p' ∧
      (id = .model k p ∧ id' = .model k' p' ∨ id = .model k' p' ∧ id' = .model k p) := by
  cases id with
  | key k =>
    cases id' with
    | key k' => exact .inl (congrArg ScopeId.key ((String.append_right_inj "key:").1 hidentity))
    | tenant t => cases hscope
    | model k p => cases hscope
  | tenant t =>
    cases id' with
    | key k => cases hscope
    | tenant t' =>
      exact .inl (congrArg ScopeId.tenant ((String.append_right_inj "tenant:").1 hidentity))
    | model k p => cases hscope
  | model k p =>
    cases id' with
    | key k => cases hscope
    | tenant t => cases hscope
    | model k' p' =>
      have hchars : k.toList ++ ':' :: p.toList = k'.toList ++ ':' :: p'.toList := by
        have hnames := congrArg String.toList hidentity
        unfold ScopeId.identity at hnames
        simp only [String.toList_append, List.append_assoc] at hnames
        exact List.append_cancel_left hnames
      rcases split_or_continued hchars with ⟨hk, hp⟩ | ⟨x, hk, hp⟩ | ⟨x, hk, hp⟩
      · exact .inl (by rw [String.toList_inj.1 hk, String.toList_inj.1 hp])
      · exact .inr ⟨k, p, k', p', continues_of_toList hk hp, .inl ⟨rfl, rfl⟩⟩
      · exact .inr ⟨k', p', k, p, continues_of_toList hk hp, .inr ⟨rfl, rfl⟩⟩

/-- **Different scopes and epochs have different counters** in a registry, whatever it was configured
with, iff none of its model patterns continues another. -/
theorem counter_keys_distinct_iff (maxReplicas : ℕ) (first : List KeyLimitsInput)
    (later : List (List KeyLimitsInput)) (h : Heap) (keyPrefix kind : String) :
    let snap := (LimitRegistry.configured maxReplicas first later h).1.inner
    (∀ id e id' e', ∀ s ∈ snap.rows id, ∀ s' ∈ snap.rows id', (id, e) ≠ (id', e') →
        counterKey keyPrefix s.policy.scope s.policy.identity kind e ≠
          counterKey keyPrefix s'.policy.scope s'.policy.identity kind e') ↔
      ∀ k p k' p', snap.rows (.model k p) ≠ [] → snap.rows (.model k' p') ≠ [] →
        ¬Continues k p k' p' := by
  intro snap
  have hidentified : Identified snap := identified_configured maxReplicas first later h
  constructor
  · intro hdistinct k p k' p' hrows hrows' hcontinues
    obtain ⟨s, hs⟩ := List.exists_mem_of_ne_nil _ hrows
    obtain ⟨s', hs'⟩ := List.exists_mem_of_ne_nil _ hrows'
    have hnames := hidentified _ s hs
    have hnames' := hidentified _ s' hs'
    refine hdistinct _ 0 _ 0 s hs s' hs' (fun heq => hcontinues.ne (congrArg Prod.fst heq)) ?_
    rw [hnames.scope, hnames'.scope, hnames.identity, hnames'.identity, hcontinues.identity_eq]
    rfl
  · intro hapart id e id' e' s hs s' hs' hne heq
    have hnames := hidentified _ s hs
    have hnames' := hidentified _ s' hs'
    rw [hnames.scope, hnames'.scope, hnames.identity, hnames'.identity] at heq
    obtain ⟨hscope, hidentity, hepoch⟩ := counterKey_inj heq
    rcases ScopeId.eq_of_identity hscope hidentity with
      hid | ⟨k, p, k', p', hcontinues, ⟨rfl, rfl⟩ | ⟨rfl, rfl⟩⟩
    · exact hne (Prod.ext hid hepoch)
    · exact hapart k p k' p' (List.ne_nil_of_mem hs) (List.ne_nil_of_mem hs') hcontinues
    · exact hapart k p k' p' (List.ne_nil_of_mem hs') (List.ne_nil_of_mem hs) hcontinues

/-- Two keys, one with a limit for a fine-tuned model, the other with one for its base. -/
def splitNames : List KeyLimitsInput :=
  [⟨"rp", "t1", { modelLimits := [("ft:gpt-4", { rate := some { requestsPerMin := some 10 } })] }⟩,
    ⟨"rp:ft", "t2", { modelLimits := [("gpt-4", { rate := some { requestsPerMin := some 10 } })] }⟩]

/-- Keys of two tenants share a counter. -/
theorem split_name_shared :
    let snap := (LimitRegistry.configured 1 splitNames [] {}).1.inner
    ∃ s ∈ snap.rows (.model "rp" "ft:gpt-4"), ∃ s' ∈ snap.rows (.model "rp:ft" "gpt-4"),
      counterKey "rp:rl" s.policy.scope s.policy.identity "req" 42 =
        counterKey "rp:rl" s'.policy.scope s'.policy.identity "req" 42 := by
  decide

end Routeplane.Limits
