import Routeplane.Prompts.Registry

/-!
# A loaded prompt registry is closed

What a prompt's labels, variants and default point at was checked against its versions when the
file was read, so a reference to a prompt that is there finds a version. A reference ends its id at
the first `@`, and a label that reads as a version pin is never followed.

* `closed_of_loadFromJson`: every prompt of an accepted document is closed.
* `parseReference_bare`, `parseReference_label`, `parseReference_pin`: the three forms of a reference.
* `loaded_registry_closed`: what each form finds.
* `shadowed_label_unresolved`: a label and an id that cannot be used.
-/

namespace Routeplane.Prompts

open Fallible

/-- What a prompt points at is among its versions. -/
structure StoredPrompt.Closed (prompt : StoredPrompt) : Prop where
  latest : (prompt.versions.get prompt.latestVersion).isSome
  labels : ∀ e ∈ prompt.labels, (prompt.versions.get e.2).isSome
  variants : ∀ v ∈ prompt.variants, (prompt.versions.get v.version).isSome

/-- Every prompt is closed and stands under its id. -/
def PromptRegistry.Closed (registry : PromptRegistry) : Prop :=
  ∀ tenantId id prompt, registry.lookup tenantId id = some prompt → prompt.Closed ∧ prompt.id = id

/-! ## What a load leaves -/

section Load

variable {bounds : Bounds} {rec : PromptRecord} {versions : Assoc UInt32 Version}

/-- Versions are numbered from 1. -/
def Numbered (versions : Assoc UInt32 Version) : Prop :=
  versions ≠ [] ∧ versions.Distinct ∧ ∀ e ∈ versions, 1 ≤ e.1 ∧ e.2.version = e.1

theorem loadVersion_ok {id : String} {vrec : VersionRecord} {versions' : Assoc UInt32 Version}
    (h : loadVersion bounds id versions vrec = .ok versions') :
    1 ≤ vrec.version ∧ ∃ v : Version, v.version = vrec.version ∧
      versions' = versions.insert vrec.version v := by
  obtain ⟨_, hnum, h⟩ := bind_eq_ok h
  obtain ⟨_, _, h⟩ := bind_eq_ok h
  obtain ⟨_, _, h⟩ := bind_eq_ok h
  obtain ⟨_, _, h⟩ := bind_eq_ok h
  obtain ⟨nodes, _, h⟩ := bind_eq_ok h
  exact ⟨of_ensure hnum, _, rfl, (Except.ok.inj h).symm⟩

theorem numbered_of_loadVersions (hne : rec.versions ≠ []) (h : loadVersions bounds rec = .ok versions) :
    Numbered versions := by
  have hsome : versions ≠ [] := by
    refine of_foldlM_of_ne_nil (P := fun m => m ≠ []) (fun m vrec m' hm => ?_) hne h
    obtain ⟨_, v, _, rfl⟩ := loadVersion_ok hm
    exact List.cons_ne_nil _ _
  have hkeep : versions.Distinct ∧ ∀ e ∈ versions, 1 ≤ e.1 ∧ e.2.version = e.1 := by
    refine of_foldlM (P := fun m : Assoc UInt32 Version => m.Distinct ∧
      ∀ e ∈ m, 1 ≤ e.1 ∧ e.2.version = e.1) (fun m vrec m' hm hkeep => ?_) h
      ⟨Assoc.Distinct.nil, fun e he => absurd he List.not_mem_nil⟩
    obtain ⟨hnum, v, hv, rfl⟩ := loadVersion_ok hm
    refine ⟨hkeep.1.insert _ _, fun e he => ?_⟩
    rcases List.mem_cons.1 he with rfl | he
    · exact ⟨hnum, hv⟩
    · exact hkeep.2 e (Assoc.mem_remove.1 he).1
  exact ⟨hsome, hkeep⟩

/-- The greatest of some keys is one of them. -/
theorem foldl_greatest_mem (keys : List UInt32) (m : UInt32) :
    keys.foldl (fun m v => if m < v then v else m) m ∈ m :: keys := by
  induction keys generalizing m with
  | nil => exact List.mem_singleton_self m
  | cons v keys ih =>
    rw [List.foldl_cons]
    split
    · exact List.mem_cons_of_mem m (ih v)
    · rcases List.mem_cons.1 (ih m) with heq | hmem
      · rw [heq]
        exact List.mem_cons_self
      · exact List.mem_cons_of_mem m (List.mem_cons_of_mem v hmem)

theorem greatestVersion_mem (h : Numbered versions) :
    greatestVersion versions ∈ versions.map (·.1) := by
  obtain ⟨e, rest, rfl⟩ := List.exists_cons_of_ne_nil h.1
  have hpos : (0 : UInt32) < e.1 := by
    have hone := (h.2.2 e List.mem_cons_self).1
    rw [UInt32.le_iff_toNat_le] at hone
    rw [UInt32.lt_iff_toNat_lt]
    exact hone
  unfold greatestVersion
  rw [List.map_cons, List.foldl_cons, if_pos hpos]
  exact foldl_greatest_mem _ _

theorem isSome_of_key_mem {key : UInt32} (h : key ∈ versions.map (·.1)) :
    (versions.get key).isSome := by
  by_contra hnone
  rw [Option.not_isSome_iff_eq_none] at hnone
  obtain ⟨e, he, rfl⟩ := List.mem_map.1 h
  exact Assoc.get_eq_none_iff.1 hnone e.2 he

theorem isSome_of_loadLatest {latest : UInt32} (hnum : Numbered versions)
    (h : loadLatest rec versions = .ok latest) : (versions.get latest).isSome := by
  unfold loadLatest at h
  split at h
  · obtain ⟨_, hsome, h⟩ := bind_eq_ok h
    rw [← Except.ok.inj h]
    exact of_ensure hsome
  · rw [← Except.ok.inj h]
    exact isSome_of_key_mem (greatestVersion_mem hnum)

theorem isSome_of_checkLabels (h : checkLabels rec versions = .ok ()) :
    ∀ e ∈ rec.labels, (versions.get e.2).isSome := by
  intro e he
  obtain ⟨_, heach, _⟩ := bind_eq_ok h
  obtain ⟨_, _, _, hensure⟩ := exists_of_each_mem heach he
  exact of_ensure hensure

theorem isSome_of_loadVariants {variants : List Variant}
    (h : loadVariants rec versions = .ok variants) :
    ∀ v ∈ variants, (versions.get v.version).isSome := by
  obtain ⟨_, _, h⟩ := bind_eq_ok h
  obtain ⟨loaded, hfold, h⟩ := bind_eq_ok h
  obtain ⟨_, _, h⟩ := bind_eq_ok h
  rw [← Except.ok.inj h]
  refine of_foldlM (P := fun vs : List Variant => ∀ v ∈ vs, (versions.get v.version).isSome)
    (fun vs vrec vs' hstep hkeep => ?_) hfold fun v hv => absurd hv List.not_mem_nil
  obtain ⟨_, _, hstep⟩ := bind_eq_ok hstep
  obtain ⟨_, _, hstep⟩ := bind_eq_ok hstep
  obtain ⟨_, hsome, hstep⟩ := bind_eq_ok hstep
  rw [← Except.ok.inj hstep]
  intro v hv
  rcases List.mem_append.1 hv with hv | hv
  · exact hkeep v hv
  · rw [List.mem_singleton.1 hv]
    exact of_ensure hsome

theorem closed_of_loadPrompt {prompt : StoredPrompt} (h : loadPrompt bounds rec = .ok prompt) :
    prompt.Closed ∧ prompt.id = rec.id := by
  obtain ⟨_, _, h⟩ := bind_eq_ok h
  obtain ⟨_, hne, h⟩ := bind_eq_ok h
  obtain ⟨_, _, h⟩ := bind_eq_ok h
  obtain ⟨versions, hversions, h⟩ := bind_eq_ok h
  obtain ⟨_, hlabels, h⟩ := bind_eq_ok h
  obtain ⟨variants, hvariants, h⟩ := bind_eq_ok h
  obtain ⟨latest, hlatest, h⟩ := bind_eq_ok h
  have hnum := numbered_of_loadVersions (of_ensure hne) hversions
  rw [← Except.ok.inj h]
  exact ⟨⟨isSome_of_loadLatest hnum hlatest, isSome_of_checkLabels hlabels,
    isSome_of_loadVariants hvariants⟩, rfl⟩

/-- One record more keeps a registry closed. -/
theorem closed_of_loadRecord {tenants tenants' : Assoc String (Assoc String StoredPrompt)}
    (h : loadRecord bounds tenants rec = .ok tenants')
    (hclosed : PromptRegistry.Closed ⟨tenants⟩) : PromptRegistry.Closed ⟨tenants'⟩ := by
  obtain ⟨prompt, hprompt, h⟩ := bind_eq_ok h
  obtain ⟨_, _, h⟩ := bind_eq_ok h
  obtain ⟨_, _, h⟩ := bind_eq_ok h
  rw [← Except.ok.inj h]
  obtain ⟨hnew, hid⟩ := closed_of_loadPrompt hprompt
  intro tenantId id stored hlookup
  obtain ⟨entry, hentry, hstored⟩ := Option.bind_eq_some_iff.1 hlookup
  rw [Assoc.get_insert] at hentry
  split at hentry
  · -- the tenant of the record
    rw [← Option.some.inj hentry, Assoc.get_insert] at hstored
    split at hstored
    · rename_i hsame
      rw [← Option.some.inj hstored]
      exact ⟨hnew, hid.trans hsame⟩
    · rename_i htenant _
      refine hclosed tenantId id stored (Option.bind_eq_some_iff.2 ?_)
      rw [← htenant]
      cases hold : tenants.get rec.tenantId with
      | none =>
        rw [hold] at hstored
        cases hstored
      | some old =>
        rw [hold] at hstored
        exact ⟨old, rfl, hstored⟩
  · exact hclosed tenantId id stored (Option.bind_eq_some_iff.2 ⟨entry, hentry, hstored⟩)

/-- **Every prompt of an accepted document is closed.** By induction on the records. -/
theorem closed_of_loadFromJson {fromStr : String → Except String PromptFile}
    {content origin : String} {registry : PromptRegistry}
    (h : PromptRegistry.loadFromJson fromStr content origin bounds = .ok registry) :
    registry.Closed := by
  obtain ⟨file, _, h⟩ := bind_eq_ok h
  obtain ⟨tenants, hfold, h⟩ := bind_eq_ok h
  rw [← Except.ok.inj h]
  refine of_foldlM (P := fun tenants => PromptRegistry.Closed ⟨tenants⟩)
    (fun _ _ _ hstep hkeep => closed_of_loadRecord hstep hkeep) hfold ?_
  intro tenantId id prompt hlookup
  cases hlookup

end Load

/-! ## References -/

theorem splitOnce_none {s : String} (h : '@' ∉ s.toList) : splitOnce '@' s = none := by
  have hspan : s.toList.span (· != '@') = (s.toList, []) := by
    rw [List.span_eq_takeWhile_dropWhile, List.takeWhile_eq_self_iff.2, List.dropWhile_eq_nil_iff.2]
    · intro c hc
      exact bne_iff_ne.2 fun heq => h (heq ▸ hc)
    · intro c hc
      exact bne_iff_ne.2 fun heq => h (heq ▸ hc)
  unfold splitOnce
  rw [hspan]

theorem splitOnce_some {id : String} (h : '@' ∉ id.toList) (sel : String) :
    splitOnce '@' (id ++ "@" ++ sel) = some (id, sel) := by
  refine splitOnce_of_toList ?_ h
  rw [String.toList_append, String.toList_append, List.append_assoc]
  rfl

theorem parseReference_bare {id : String} (h : '@' ∉ id.toList) :
    parseReference id = (id, .latest) := by
  unfold parseReference
  rw [splitOnce_none h]

theorem parseReference_label {id label : String} (h : '@' ∉ id.toList)
    (hlabel : versionPin label = none) :
    parseReference (id ++ "@" ++ label) = (id, .label label) := by
  unfold parseReference
  rw [splitOnce_some h]
  simp only [hlabel]

theorem parseReference_pin {id sel : String} {n : UInt32} (h : '@' ∉ id.toList)
    (hpin : versionPin sel = some n) : parseReference (id ++ "@" ++ sel) = (id, .version n) := by
  unfold parseReference
  rw [splitOnce_some h]
  simp only [hpin]

/-! ## Resolution -/

theorem mem_of_walkArms {K : Type} [Add K] [Div K] [LT K] [DecidableLT K] {weight : Variant → K}
    {u total : K} {v : Variant} {variants : List Variant} :
    ∀ {cumulative : K}, walkArms weight u total cumulative variants = some v → v ∈ variants := by
  induction variants with
  | nil =>
    intro cumulative h
    cases h
  | cons arm variants ih =>
    intro cumulative h
    simp only [walkArms] at h
    split at h
    · rw [Option.some.inj h]
      exact List.mem_cons_self
    · exact List.mem_cons_of_mem _ (ih h)

/-- A split serves one of its arms, whatever the cohort. -/
theorem mem_of_assignVariant {promptId : String} {variants : List Variant}
    {cohortKey : Option String} {v : Variant}
    (h : assignVariant promptId variants cohortKey = some v) : v ∈ variants := by
  unfold assignVariant at h
  split at h
  · cases h
  · rw [← Option.some.inj h]
    exact List.mem_cons_self
  · simp only at h
    split at h
    · rw [← Option.some.inj h]
      exact List.mem_cons_self
    · rcases Option.or_eq_some_iff.1 h with h | ⟨-, h⟩
      · exact mem_of_walkArms h
      · exact List.mem_of_getLast? h

theorem assignVariant_isSome (promptId : String) {variants : List Variant} (hne : variants ≠ [])
    (cohortKey : Option String) : (assignVariant promptId variants cohortKey).isSome := by
  obtain ⟨first, rest, rfl⟩ := List.exists_cons_of_ne_nil hne
  unfold assignVariant
  cases cohortKey with
  | none => rfl
  | some key =>
    simp only
    split
    · rfl
    · rw [Option.isSome_or, Bool.or_eq_true]
      right
      rw [List.getLast?_isSome]
      exact List.cons_ne_nil _ _

section Resolve

variable {registry : PromptRegistry} {tenantId id : String} {prompt : StoredPrompt}

/-- The reference of a selection that a version answers. -/
theorem resolve_of_select {reference : String} {cohortKey : Option String} {selector : Selector}
    {n : UInt32} {label variant : Option String} {version : Version}
    (hparse : parseReference reference = (id, selector))
    (hprompt : registry.lookup tenantId id = some prompt)
    (hselect : PromptRegistry.select prompt reference cohortKey selector = .ok (n, label, variant))
    (hversion : prompt.versions.get n = some version) :
    registry.resolveWithCohort tenantId reference cohortKey =
      .ok { promptId := prompt.id, versionNumber := n, label, variant, version, prompt } := by
  unfold PromptRegistry.resolveWithCohort
  rw [hparse]
  show (okOr (registry.lookup tenantId id) _ >>= _) = _
  rw [hprompt]
  show (PromptRegistry.select prompt reference cohortKey selector >>= _) = _
  rw [hselect]
  show (okOr (prompt.versions.get n) _ >>= _) = _
  rw [hversion]
  rfl

theorem resolve_bare (hprompt : registry.lookup tenantId id = some prompt) (hclosed : prompt.Closed)
    (hid : '@' ∉ id.toList) (cohortKey : Option String) :
    ∃ r, registry.resolveWithCohort tenantId id cohortKey = .ok r ∧ r.prompt = prompt ∧
      prompt.versions.get r.versionNumber = some r.version ∧
      (prompt.variants = [] → r.versionNumber = prompt.latestVersion) ∧
      (prompt.variants ≠ [] → ∃ v ∈ prompt.variants, r.variant = some v.label ∧
        r.versionNumber = v.version) := by
  have hparse := parseReference_bare hid
  cases harm : assignVariant prompt.id prompt.variants cohortKey with
  | none =>
    obtain ⟨version, hversion⟩ := Option.isSome_iff_exists.1 hclosed.latest
    have hselect : PromptRegistry.select prompt id cohortKey .latest =
        .ok (prompt.latestVersion, none, none) := by
      unfold PromptRegistry.select
      rw [harm]
    refine ⟨_, resolve_of_select hparse hprompt hselect hversion, rfl, hversion, fun _ => rfl, ?_⟩
    intro hne
    -- a split that is not empty has an arm for every cohort
    have hsome := assignVariant_isSome prompt.id hne cohortKey
    rw [harm] at hsome
    cases hsome
  | some v =>
    have hmem := mem_of_assignVariant harm
    obtain ⟨version, hversion⟩ := Option.isSome_iff_exists.1 (hclosed.variants v hmem)
    have hselect : PromptRegistry.select prompt id cohortKey .latest =
        .ok (v.version, none, some v.label) := by
      unfold PromptRegistry.select
      rw [harm]
    refine ⟨_, resolve_of_select hparse hprompt hselect hversion, rfl, hversion, ?_,
      fun _ => ⟨v, hmem, rfl, rfl⟩⟩
    intro hnil
    rw [hnil] at hmem
    cases hmem

theorem resolve_label (hprompt : registry.lookup tenantId id = some prompt) (hclosed : prompt.Closed)
    (hid : '@' ∉ id.toList) {label : String} {n : UInt32} (hlabel : prompt.labels.get label = some n)
    (hpin : versionPin label = none) (cohortKey : Option String) :
    ∃ r, registry.resolveWithCohort tenantId (id ++ "@" ++ label) cohortKey = .ok r ∧
      r.prompt = prompt ∧ r.versionNumber = n ∧ r.label = some label ∧
      prompt.versions.get n = some r.version := by
  obtain ⟨version, hversion⟩ :=
    Option.isSome_iff_exists.1 (hclosed.labels _ (Assoc.mem_of_get hlabel))
  have hselect : PromptRegistry.select prompt (id ++ "@" ++ label) cohortKey (.label label) =
      .ok (n, some label, none) := by
    simp only [PromptRegistry.select, hlabel]
  exact ⟨_, resolve_of_select (parseReference_label hid hpin) hprompt hselect hversion, rfl, rfl,
    rfl, hversion⟩

/-- A pinned version is found exactly when it is there. -/
theorem resolve_pin (hprompt : registry.lookup tenantId id = some prompt) (hid : '@' ∉ id.toList)
    {sel : String} {n : UInt32} (hpin : versionPin sel = some n) (cohortKey : Option String) :
    (∀ version, prompt.versions.get n = some version →
      registry.resolveWithCohort tenantId (id ++ "@" ++ sel) cohortKey =
        .ok { promptId := prompt.id, versionNumber := n, label := none, variant := none, version,
              prompt }) ∧
      (prompt.versions.get n = none →
        registry.resolveWithCohort tenantId (id ++ "@" ++ sel) cohortKey =
          .error (.versionNotFound (id ++ "@" ++ sel))) := by
  have hparse := parseReference_pin hid hpin
  constructor
  · intro version hversion
    have hselect : PromptRegistry.select prompt (id ++ "@" ++ sel) cohortKey (.version n) =
        .ok (n, none, none) := by
      simp only [PromptRegistry.select, hversion, Option.isSome_some, if_true]
    exact resolve_of_select hparse hprompt hselect hversion
  · intro hnone
    have hselect : PromptRegistry.select prompt (id ++ "@" ++ sel) cohortKey (.version n) =
        .error (.versionNotFound (id ++ "@" ++ sel)) := by
      simp only [PromptRegistry.select, hnone, Option.isSome_none, Bool.false_eq_true, if_false]
    unfold PromptRegistry.resolveWithCohort
    rw [hparse]
    show (okOr (registry.lookup tenantId id) _ >>= _) = _
    rw [hprompt]
    show (PromptRegistry.select prompt (id ++ "@" ++ sel) cohortKey (.version n) >>= _) = _
    rw [hselect]
    rfl

/-- A version reference that is refused names a version that is not there. -/
theorem absent_of_pin_refused (hprompt : registry.lookup tenantId id = some prompt)
    (hid : '@' ∉ id.toList) {num : List Char} (hne : num ≠ []) (hdigits : num.all Char.isDigit = true)
    {cohortKey : Option String} {e : PromptError}
    (h : registry.resolveWithCohort tenantId (id ++ "@" ++ String.ofList ('v' :: num)) cohortKey =
      .error e) {n : UInt32} (hn : n.toNat = digitsValue num) : prompt.versions.get n = none := by
  have hlt : digitsValue num < 2 ^ 32 := hn ▸ n.toNat_lt
  have hpin : versionPin (String.ofList ('v' :: num)) = some n := by
    unfold versionPin
    rw [String.toList_ofList]
    simp only
    rw [if_pos ⟨hne, hdigits, hlt⟩, ← hn]
    exact congrArg some (UInt32.ofNat_toNat)
  cases hversion : prompt.versions.get n with
  | none => rfl
  | some version =>
    have hok := (resolve_pin hprompt hid hpin cohortKey).1 version hversion
    rw [hok] at h
    cases h

end Resolve

/-- **A loaded registry is closed.** A prompt whose id has no `@` is found under its id, for every
cohort, as its default or as one of its variants; under each label that is not a version pin; and a
version reference is refused only if the version is not there. -/
theorem loaded_registry_closed {fromStr : String → Except String PromptFile}
    {content origin : String} {bounds : Bounds} {registry : PromptRegistry}
    (h : PromptRegistry.loadFromJson fromStr content origin bounds = .ok registry)
    {tenantId id : String} {prompt : StoredPrompt}
    (hprompt : registry.lookup tenantId id = some prompt) (hid : '@' ∉ id.toList)
    (cohortKey : Option String) :
    (∃ r, registry.resolveWithCohort tenantId id cohortKey = .ok r ∧ r.prompt = prompt ∧
      prompt.versions.get r.versionNumber = some r.version ∧
      (prompt.variants = [] → r.versionNumber = prompt.latestVersion) ∧
      (prompt.variants ≠ [] → ∃ v ∈ prompt.variants, r.variant = some v.label ∧
        r.versionNumber = v.version)) ∧
    (∀ label n, prompt.labels.get label = some n → versionPin label = none →
      ∃ r, registry.resolveWithCohort tenantId (id ++ "@" ++ label) cohortKey = .ok r ∧
        r.prompt = prompt ∧ r.versionNumber = n ∧ r.label = some label ∧
        prompt.versions.get n = some r.version) ∧
    (∀ v ∈ prompt.variants, (prompt.versions.get v.version).isSome) ∧
    (∀ num : List Char, num ≠ [] → num.all Char.isDigit = true → ∀ e,
      registry.resolveWithCohort tenantId (id ++ "@" ++ String.ofList ('v' :: num)) cohortKey =
        .error e → ∀ n : UInt32, n.toNat = digitsValue num → prompt.versions.get n = none) := by
  obtain ⟨hclosed, -⟩ := closed_of_loadFromJson h tenantId id prompt hprompt
  refine ⟨resolve_bare hprompt hclosed hid cohortKey, ?_, hclosed.variants, ?_⟩
  · intro label n hlabel hpin
    exact resolve_label hprompt hclosed hid hlabel hpin cohortKey
  · intro num hne hdigits e hrefused n hn
    exact absent_of_pin_refused hprompt hid hne hdigits hrefused hn

/-- A file with a label `v7` on version 1, and a prompt with an `@` in its id. -/
def shadowedFile : PromptFile where
  prompts :=
    [{ tenantId := "t", id := "p", name := "P", labels := [("prod", 1), ("v7", 1)],
       versions := [{ version := 1, template := "hello" }] },
     { tenantId := "t", id := "a@b", name := "Q", versions := [{ version := 1, template := "" }] }]

/-- What a registry holds for the prompts of `shadowedFile`, and whether they are found. -/
def shadowedView (registry : PromptRegistry) : Option UInt32 × Bool × Bool × Bool :=
  ((registry.lookup "t" "p").bind fun prompt => prompt.labels.get "v7",
    (registry.resolve "t" "p@v7").toOption.isSome, (registry.lookup "t" "a@b").isSome,
    (registry.resolve "t" "a@b").toOption.isSome)

/-- **An accepted file whose label `v7` and whose prompt `a@b` are not found**, though both are
there. -/
theorem shadowed_label_unresolved :
    ((PromptRegistry.loadFromJson (fun _ => .ok shadowedFile) "" "" {}).toOption.map shadowedView) =
      some (some 1, false, true, false) := by
  decide +kernel

/-- The registry of `shadowedFile`'s first prompt finds it under its label `prod`. -/
theorem loaded_registry_closed_prod : ∃ registry prompt,
    PromptRegistry.loadFromJson (fun _ => .ok shadowedFile) "" "" {} = .ok registry ∧
      registry.lookup "t" "p" = some prompt ∧ prompt.labels.get "prod" = some 1 ∧
      ∃ r, registry.resolveWithCohort "t" ("p" ++ "@" ++ "prod") (some "cohort") = .ok r ∧
        r.versionNumber = 1 := by
  have hview : ((PromptRegistry.loadFromJson (fun _ => .ok shadowedFile) "" "" {}).toOption.map
      fun registry => (registry.lookup "t" "p").bind fun prompt => prompt.labels.get "prod") =
      some (some 1) := by
    decide +kernel
  cases hload : PromptRegistry.loadFromJson (fun _ => .ok shadowedFile) "" "" {} with
  | error e =>
    rw [hload] at hview
    cases hview
  | ok registry =>
    rw [hload] at hview
    obtain ⟨prompt, hprompt, hlabel⟩ := Option.bind_eq_some_iff.1 (Option.some.inj hview)
    have hall := loaded_registry_closed hload hprompt (by decide) (some "cohort")
    obtain ⟨r, hr, -, hn, -⟩ := hall.2.1 "prod" 1 hlabel (by decide)
    exact ⟨registry, prompt, rfl, hprompt, hlabel, r, hr, hn⟩

end Routeplane.Prompts
