import Routeplane.Lib.FirstMatch
import Routeplane.Providers.Registry
import Mathlib.Data.Finset.Max

/-!
# Model routing to custom providers

A request that names no provider goes to the one its model is indexed under, and that name is then
resolved for the tenant. Each of the two steps prefers the tenant's own entries, on its own: a model
of a global provider may lead to an own provider of the same name that does not list it.

What the indexes of a snapshot hold, in terms of the configurations it was built from. Neither
depends on the order the configurations came in or on the orders the maps are walked in.

* `build_ok`, `exists_build`: a snapshot is built exactly when no owner has a name twice.
* `Indexes.entry`: the entry of an owner and a name.
* `Indexes.wins`: an owner's model is indexed under the first of its providers that list it.
* `routesModels_iff`: when a model always leads to a provider that lists it, and is shown once.
-/

namespace Routeplane.Custom

open Fallible (bind_eq_ok)

/-- The first by name of an owner's providers that list a model. -/
structure Wins (configs : List CustomProviderConfig) (owner model name : String) : Prop where
  listed : ∃ cfg ∈ configs, keyOf cfg = (owner, name) ∧ model ∈ cfg.models
  least : ∀ cfg ∈ configs, ownerOf cfg = owner → model ∈ cfg.models → name ≤ cfg.name

/-- A snapshot holds these configurations, indexed by name and by model. -/
structure Indexes (configs : List CustomProviderConfig) (reg : RuntimeProviders) : Prop where
  keys : (configs.map keyOf).Nodup
  byName : reg.byName.Perm (configs.map fun cfg => (keyOf cfg, entryOf cfg))
  distinct : reg.modelIndex.Distinct
  wins : ∀ owner model name, reg.modelIndex.get (owner, model) = some name ↔
    Wins configs owner model name

section Build

open RuntimeProviders

variable {configs : List CustomProviderConfig} {byName byName' : Assoc OwnedKey CustomProviderEntry}
  {walks : Walks} {reg : RuntimeProviders}

/-- The entries of some configurations, the last one first. -/
def entriesOf (configs : List CustomProviderConfig) : Assoc OwnedKey CustomProviderEntry :=
  (configs.map fun cfg => (keyOf cfg, entryOf cfg)).reverse

theorem entriesOf_cons (cfg : CustomProviderConfig) (configs : List CustomProviderConfig)
    (byName : Assoc OwnedKey CustomProviderEntry) :
    entriesOf (cfg :: configs) ++ byName = entriesOf configs ++ (keyOf cfg, entryOf cfg) :: byName := by
  unfold entriesOf
  rw [List.map_cons, List.reverse_cons, List.append_assoc]
  rfl

theorem addConfig_of_free {cfg : CustomProviderConfig} (h : byName.get (keyOf cfg) = none) :
    addConfig byName cfg = .ok ((keyOf cfg, entryOf cfg) :: byName) := by
  unfold addConfig
  rw [h, Option.isSome_none, if_neg Bool.false_ne_true, Assoc.insert_of_free h]

theorem addConfig_ok {cfg : CustomProviderConfig} (h : addConfig byName cfg = .ok byName') :
    byName.get (keyOf cfg) = none ∧ byName' = (keyOf cfg, entryOf cfg) :: byName := by
  have hfree : byName.get (keyOf cfg) = none := by
    cases hget : byName.get (keyOf cfg) with
    | none => rfl
    | some entry =>
      unfold addConfig at h
      rw [hget, Option.isSome_some, if_pos rfl] at h
      cases h
  rw [addConfig_of_free hfree] at h
  exact ⟨hfree, (Except.ok.inj h).symm⟩

theorem foldlM_addConfig_ok (hd : byName.Distinct) (h : configs.foldlM addConfig byName = .ok byName') :
    byName' = entriesOf configs ++ byName ∧ byName'.Distinct :=
  Assoc.foldlM_fresh (fun _ _ _ hadd => addConfig_ok hadd) hd h

theorem foldlM_addConfig_of_distinct (hd : (entriesOf configs ++ byName).Distinct) :
    configs.foldlM addConfig byName = .ok (entriesOf configs ++ byName) := by
  induction configs generalizing byName with
  | nil => rfl
  | cons cfg configs ih =>
    rw [entriesOf_cons] at hd ⊢
    have hfree : byName.get (keyOf cfg) = none := by
      have hright := hd.sublist (List.sublist_append_right _ _)
      rw [Assoc.get_eq_none_iff]
      intro entry hmem
      exact (List.nodup_cons.1 hright).1 (List.mem_map.2 ⟨_, hmem, rfl⟩)
    rw [List.foldlM_cons, addConfig_of_free hfree]
    exact ih hd

theorem entriesOf_perm (configs : List CustomProviderConfig) :
    (entriesOf configs).Perm (configs.map fun cfg => (keyOf cfg, entryOf cfg)) :=
  List.reverse_perm _

theorem entriesOf_distinct_iff : (entriesOf configs).Distinct ↔ (configs.map keyOf).Nodup := by
  have hkeys : ((configs.map fun cfg => (keyOf cfg, entryOf cfg)).map (·.1)) = configs.map keyOf := by
    rw [List.map_map]
    rfl
  rw [← hkeys]
  exact ((entriesOf_perm configs).map _).nodup_iff

/-! ### The models -/

/-- The models of a key. -/
def modelsOf (byName : Assoc OwnedKey CustomProviderEntry) (key : OwnedKey) : List String :=
  (byName.get key).elim [] (·.config.models)

theorem get_offers (key : OwnedKey) (owner model : String) :
    (offers byName key).get (owner, model) =
      if key.1 = owner ∧ model ∈ modelsOf byName key then some key.2 else none := by
  unfold offers modelsOf
  cases hget : byName.get key with
  | none => simp
  | some entry =>
    show Assoc.get (entry.config.models.map fun m => ((key.1, m), key.2)) (owner, model) = _
    generalize hmodels : entry.config.models = models
    rw [Option.elim_some, hmodels]
    clear hmodels
    induction models with
    | nil => simp
    | cons first models ih =>
      rw [List.map_cons, Assoc.get_cons, ih]
      by_cases howner : key.1 = owner
      · by_cases hmodel : first = model
        · simp [howner, hmodel]
        · have hne : model ≠ first := fun h => hmodel h.symm
          simp [howner, hmodel, hne]
      · simp [howner]

theorem get_flatMap_offers (names : List OwnedKey) (owner model : String) :
    Assoc.get (names.flatMap (offers byName)) (owner, model) =
      (names.find? fun key => key.1 = owner ∧ model ∈ modelsOf byName key).map (·.2) := by
  induction names with
  | nil => rfl
  | cons key names ih =>
    rw [List.flatMap_cons, Assoc.get_append, get_offers, ih]
    by_cases hkey : key.1 = owner ∧ model ∈ modelsOf byName key
    · rw [if_pos hkey, List.find?_cons_of_pos (by simpa using hkey)]
      rfl
    · rw [if_neg hkey, List.find?_cons_of_neg (by simpa using hkey), Option.none_or]

theorem indexModels_eq : indexModels byName =
    Assoc.insertNews [] (((byName.map (·.1)).insertionSort fun a b => toLex a ≤ toLex b).flatMap
      (offers byName)) := by
  have hfold : ∀ (names : List OwnedKey) (index : Assoc OwnedKey String),
      names.foldl (fun index key => index.insertNews (offers byName key)) index =
        index.insertNews (names.flatMap (offers byName)) := by
    intro names
    induction names with
    | nil => exact fun _ => rfl
    | cons key names ih =>
      intro index
      rw [List.foldl_cons, ih, List.flatMap_cons, Assoc.insertNews_insertNews]
  exact hfold _ _

/-- **An owner's model is indexed under the first of its providers that list it.** -/
theorem get_indexModels (owner model name : String) :
    (indexModels byName).get (owner, model) = some name ↔
      (owner, name) ∈ byName.map (·.1) ∧ model ∈ modelsOf byName (owner, name) ∧
        ∀ name', (owner, name') ∈ byName.map (·.1) → model ∈ modelsOf byName (owner, name') →
          name ≤ name' := by
  have hsorted := List.pairwise_insertionSort (fun a b : OwnedKey => toLex a ≤ toLex b)
    (byName.map (·.1))
  have hmem : ∀ key : OwnedKey, key ∈ (byName.map (·.1)).insertionSort
      (fun a b => toLex a ≤ toLex b) ↔ key ∈ byName.map (·.1) := fun key => List.mem_insertionSort _
  have hrefl : ∀ a : OwnedKey, toLex a ≤ toLex a := fun _ => le_refl _
  have hantisymm : ∀ a b : OwnedKey, toLex a ≤ toLex b → toLex b ≤ toLex a → a = b :=
    fun _ _ h h' => toLex.injective (le_antisymm h h')
  rw [indexModels_eq, Assoc.get_insertNews, Assoc.get_nil, Option.none_or, get_flatMap_offers,
    Option.map_eq_some_iff]
  constructor
  · rintro ⟨key, hfind, rfl⟩
    rw [FirstMatch.find?_eq_some_iff_least hrefl hantisymm hsorted] at hfind
    obtain ⟨hkey, hp, hleast⟩ := hfind
    obtain ⟨rfl, hmodel⟩ : key.1 = owner ∧ model ∈ modelsOf byName key := by simpa using hp
    refine ⟨(hmem key).1 hkey, hmodel, ?_⟩
    intro name' hname' hmodel'
    have hle : toLex key ≤ toLex (key.1, name') :=
      hleast (key.1, name') ((hmem _).2 hname') (by simpa using hmodel')
    rcases Prod.Lex.toLex_le_toLex.1 hle with hlt | ⟨-, hle⟩
    · exact absurd hlt (lt_irrefl _)
    · exact hle
  · rintro ⟨hkey, hmodel, hleast⟩
    refine ⟨(owner, name), ?_, rfl⟩
    rw [FirstMatch.find?_eq_some_iff_least hrefl hantisymm hsorted]
    refine ⟨(hmem _).2 hkey, by simpa using hmodel, ?_⟩
    intro key' hkey' hp
    obtain ⟨rfl, hmodel'⟩ : key'.1 = owner ∧ model ∈ modelsOf byName key' := by simpa using hp
    exact Prod.Lex.toLex_le_toLex.2 (.inr ⟨rfl, hleast _ ((hmem _).1 hkey') hmodel'⟩)

theorem indexModels_distinct : (indexModels byName).Distinct := by
  rw [indexModels_eq]
  exact Assoc.Distinct.nil.insertNews _

/-- The index, in terms of the configurations. -/
theorem get_indexModels_iff_wins (hd : byName.Distinct)
    (hp : byName.Perm (configs.map fun cfg => (keyOf cfg, entryOf cfg))) (owner model name : String) :
    (indexModels byName).get (owner, model) = some name ↔ Wins configs owner model name := by
  have hkey : ∀ key, key ∈ byName.map (·.1) ∧ model ∈ modelsOf byName key ↔
      ∃ cfg ∈ configs, keyOf cfg = key ∧ model ∈ cfg.models := by
    intro key
    unfold modelsOf
    constructor
    · rintro ⟨hmem, hmodel⟩
      obtain ⟨e, he, rfl⟩ := List.mem_map.1 hmem
      rw [Assoc.get_of_mem hd he, Option.elim_some] at hmodel
      obtain ⟨cfg, hcfg, rfl⟩ := List.mem_map.1 (hp.subset he)
      exact ⟨cfg, hcfg, rfl, hmodel⟩
    · rintro ⟨cfg, hcfg, rfl, hmodel⟩
      have he : (keyOf cfg, entryOf cfg) ∈ byName :=
        hp.symm.subset (List.mem_map.2 ⟨cfg, hcfg, rfl⟩)
      rw [Assoc.get_of_mem hd he, Option.elim_some]
      exact ⟨List.mem_map.2 ⟨_, he, rfl⟩, hmodel⟩
  rw [get_indexModels]
  constructor
  · rintro ⟨hmem, hmodel, hleast⟩
    refine ⟨(hkey _).1 ⟨hmem, hmodel⟩, ?_⟩
    intro cfg hcfg howner hlisted
    obtain ⟨hmem', hmodel'⟩ := (hkey (owner, cfg.name)).2 ⟨cfg, hcfg, by rw [← howner]; rfl, hlisted⟩
    exact hleast _ hmem' hmodel'
  · rintro ⟨hlisted, hleast⟩
    obtain ⟨hmem, hmodel⟩ := (hkey _).2 hlisted
    refine ⟨hmem, hmodel, ?_⟩
    intro name' hmem' hmodel'
    obtain ⟨cfg, hcfg, hcfgKey, hlisted'⟩ := (hkey _).1 ⟨hmem', hmodel'⟩
    have hname : cfg.name = name' := congrArg Prod.snd hcfgKey
    rw [← hname]
    exact hleast cfg hcfg (congrArg Prod.fst hcfgKey) hlisted'

/-! ### The snapshot -/

/-- **A snapshot is built from configurations in which no owner has a name twice.** -/
theorem build_ok (h : build walks configs = .ok reg) : Indexes configs reg := by
  unfold build at h
  obtain ⟨byName, hfold, h⟩ := bind_eq_ok h
  obtain ⟨heq, hd⟩ := foldlM_addConfig_ok Assoc.Distinct.nil hfold
  rw [List.append_nil] at heq
  subst heq
  rw [← Except.ok.inj h]
  have hperm := entriesOf_perm configs
  refine ⟨entriesOf_distinct_iff.1 hd, (walks.byName.perm _).trans hperm,
    indexModels_distinct.perm (walks.modelIndex.perm _), ?_⟩
  intro owner model name
  rw [Assoc.get_perm indexModels_distinct (walks.modelIndex.perm _)]
  exact get_indexModels_iff_wins hd hperm owner model name

theorem exists_build (walks : Walks) (h : (configs.map keyOf).Nodup) :
    ∃ reg, build walks configs = .ok reg := by
  have hd : (entriesOf configs ++ []).Distinct := by
    rw [List.append_nil]
    exact entriesOf_distinct_iff.2 h
  unfold build
  rw [foldlM_addConfig_of_distinct hd]
  exact ⟨_, rfl⟩

end Build

namespace Indexes

variable {configs : List CustomProviderConfig} {reg : RuntimeProviders}

theorem byName_distinct (h : Indexes configs reg) : reg.byName.Distinct :=
  (entriesOf_distinct_iff.2 h.keys).perm (h.byName.trans (entriesOf_perm configs).symm)

/-- The entry of an owner and a name is the one of its configuration. -/
theorem entry (h : Indexes configs reg) (key : OwnedKey) (entry : CustomProviderEntry) :
    reg.byName.get key = some entry ↔ ∃ cfg ∈ configs, keyOf cfg = key ∧ entryOf cfg = entry := by
  rw [Assoc.get_eq_some_iff h.byName_distinct, h.byName.mem_iff, List.mem_map]
  simp only [Prod.mk.injEq]

/-- A key is looked up in its own configurations. -/
theorem get_congr {configs' : List CustomProviderConfig} {reg' : RuntimeProviders}
    (h : Indexes configs reg) (h' : Indexes configs' reg') {key : OwnedKey}
    (hsame : ∀ cfg, keyOf cfg = key → (cfg ∈ configs ↔ cfg ∈ configs')) :
    reg.byName.get key = reg'.byName.get key := by
  refine Option.ext fun entry => ?_
  rw [h.entry, h'.entry]
  constructor
  · rintro ⟨cfg, hcfg, hkey, hentry⟩
    exact ⟨cfg, (hsame cfg hkey).1 hcfg, hkey, hentry⟩
  · rintro ⟨cfg, hcfg, hkey, hentry⟩
    exact ⟨cfg, (hsame cfg hkey).2 hcfg, hkey, hentry⟩

theorem configs_perm (h : Indexes configs reg) : (reg.byName.map (·.2.config)).Perm configs := by
  have hmap : (configs.map fun cfg => (keyOf cfg, entryOf cfg)).map (·.2.config) = configs := by
    rw [List.map_map]
    exact List.map_id _
  exact hmap ▸ h.byName.map _

theorem configsSorted_perm (h : Indexes configs reg) : reg.configsSorted.Perm configs :=
  (List.perm_insertionSort _ _).trans h.configs_perm

theorem empty : Indexes [] {} where
  keys := List.nodup_nil
  byName := .refl _
  distinct := Assoc.Distinct.nil
  wins := by
    intro owner model name
    constructor
    · exact fun h => absurd h (Option.some_ne_none _).symm
    · rintro ⟨⟨cfg, hcfg, -⟩, -⟩
      exact absurd hcfg List.not_mem_nil

end Indexes

/-! ## Model routing to custom providers -/

variable {configs : List CustomProviderConfig} {reg : RuntimeProviders} {tenantId : String}

/-- The models a tenant is shown lead to a provider that lists them, and each is shown once. -/
structure RoutesModels (reg : RuntimeProviders) (tenantId : String) : Prop where
  serves : ∀ model name, reg.providerForModel tenantId model = some name →
    ∃ entry, reg.entryFor tenantId name = some entry ∧
      reg.adapter tenantId name = some entry.adapter ∧
      reg.apiKey tenantId name = some entry.config.apiKey ∧ model ∈ entry.config.models
  entries : ∀ e ∈ reg.modelEntries tenantId, reg.providerForModel tenantId e.1 = some e.2
  once : ((reg.modelEntries tenantId).map (·.1)).Nodup

/-- What the tenant's own providers have in common with the global ones. -/
structure OwnersApart (configs : List CustomProviderConfig) (tenantId : String) : Prop where
  /-- No model is listed on both sides. -/
  models : ∀ own ∈ configs, ∀ shared ∈ configs, ownerOf own = tenantId →
    ownerOf shared = globalOwner → ∀ model ∈ own.models, model ∉ shared.models
  /-- A global provider with the name of an own one has no model as the first to list it. -/
  names : ∀ own ∈ configs, ∀ shared ∈ configs, ownerOf own = tenantId →
    ownerOf shared = globalOwner → own.name = shared.name → ∀ model ∈ shared.models,
      ∃ other ∈ configs, ownerOf other = globalOwner ∧ other.name < shared.name ∧
        model ∈ other.models

/-- Of the providers that list a model one is the first. -/
theorem exists_wins {owner model : String}
    (h : ∃ cfg ∈ configs, ownerOf cfg = owner ∧ model ∈ cfg.models) :
    ∃ name, Wins configs owner model name := by
  obtain ⟨cfg, hcfg, howner, hmodel⟩ := h
  have hne : (configs.toFinset.filter fun cfg => ownerOf cfg = owner ∧ model ∈ cfg.models).Nonempty :=
    ⟨cfg, by simp [hcfg, howner, hmodel]⟩
  obtain ⟨first, hfirst, hleast⟩ := Finset.exists_min_image _ (fun cfg => cfg.name) hne
  obtain ⟨hmem, hown, hlists⟩ : first ∈ configs ∧ ownerOf first = owner ∧ model ∈ first.models := by
    simpa using hfirst
  refine ⟨first.name, ⟨first, hmem, by rw [← hown]; rfl, hlists⟩, ?_⟩
  intro other hother hown' hlists'
  exact hleast other (by simp [hother, hown', hlists'])

namespace Indexes

theorem get_eq_none (h : Indexes configs reg) {owner model : String}
    (hno : ∀ cfg ∈ configs, ownerOf cfg = owner → model ∉ cfg.models) :
    reg.modelIndex.get (owner, model) = none := by
  rw [Option.eq_none_iff_forall_ne_some]
  intro name hget
  obtain ⟨⟨cfg, hcfg, hkey, hmodel⟩, -⟩ := (h.wins owner model name).1 hget
  exact hno cfg hcfg (congrArg Prod.fst hkey) hmodel

/-- An entry of the index, and the configuration behind it. -/
theorem mem_modelIndex (h : Indexes configs reg) {e : OwnedKey × String} (he : e ∈ reg.modelIndex) :
    reg.modelIndex.get e.1 = some e.2 ∧ ∃ cfg ∈ configs, ownerOf cfg = e.1.1 ∧ e.1.2 ∈ cfg.models := by
  have hget := Assoc.get_of_mem h.distinct he
  obtain ⟨⟨cfg, hcfg, hkey, hmodel⟩, -⟩ := (h.wins e.1.1 e.1.2 e.2).1 hget
  exact ⟨hget, cfg, hcfg, congrArg Prod.fst hkey, hmodel⟩

/-- What a tenant is shown. -/
theorem mem_modelEntries {e : String × String} : e ∈ reg.modelEntries tenantId ↔
    ∃ owner, (owner = tenantId ∨ owner = globalOwner) ∧ ((owner, e.1), e.2) ∈ reg.modelIndex := by
  unfold RuntimeProviders.modelEntries
  rw [List.mem_insertionSort, List.mem_map]
  constructor
  · rintro ⟨⟨⟨owner, model⟩, name⟩, hmem, rfl⟩
    obtain ⟨hmem, howner⟩ := List.mem_filter.1 hmem
    exact ⟨owner, by simpa using howner, hmem⟩
  · rintro ⟨owner, howner, hmem⟩
    exact ⟨((owner, e.1), e.2), List.mem_filter.2 ⟨hmem, by simpa using howner⟩, rfl⟩

/-- A model is indexed under one of the owners a tenant sees only. -/
def OneOwner (reg : RuntimeProviders) (tenantId : String) : Prop :=
  ∀ e ∈ reg.modelIndex, ∀ e' ∈ reg.modelIndex, (e.1.1 = tenantId ∨ e.1.1 = globalOwner) →
    (e'.1.1 = tenantId ∨ e'.1.1 = globalOwner) → e.1.2 = e'.1.2 → e.1.1 = e'.1.1

theorem oneOwner_of_global (reg : RuntimeProviders) : OneOwner reg globalOwner := by
  intro e _ e' _ howner howner' _
  rw [howner.elim id id, howner'.elim id id]

theorem oneOwner_of_apart (h : Indexes configs reg) (hapart : OwnersApart configs tenantId) :
    OneOwner reg tenantId := by
  intro e he e' he' howner howner' hmodel
  obtain ⟨-, cfg, hcfg, hown, hlists⟩ := h.mem_modelIndex he
  obtain ⟨-, cfg', hcfg', hown', hlists'⟩ := h.mem_modelIndex he'
  rcases howner with howner | howner <;> rcases howner' with howner' | howner'
  · rw [howner, howner']
  · rw [hmodel] at hlists
    exact absurd hlists' (hapart.models cfg hcfg cfg' hcfg' (hown.trans howner)
      (hown'.trans howner') _ hlists)
  · rw [← hmodel] at hlists'
    exact absurd hlists (hapart.models cfg' hcfg' cfg hcfg (hown'.trans howner')
      (hown.trans howner) _ hlists')
  · rw [howner, howner']

theorem entries_of_oneOwner (h : Indexes configs reg) (hone : OneOwner reg tenantId) :
    ∀ e ∈ reg.modelEntries tenantId, reg.providerForModel tenantId e.1 = some e.2 := by
  intro e he
  obtain ⟨owner, howner, hmem⟩ := mem_modelEntries.1 he
  have hget := (h.mem_modelIndex hmem).1
  unfold RuntimeProviders.providerForModel
  rcases howner with rfl | rfl
  · rw [hget, Option.some_or]
  · -- what the tenant's own index holds would have the same owner
    cases hown : reg.modelIndex.get (tenantId, e.1) with
    | none => rw [hget, Option.none_or]
    | some name =>
      have heq := hone _ (Assoc.mem_of_get hown) _ hmem (.inl rfl) (.inr rfl) rfl
      have htenant : tenantId = globalOwner := heq
      rw [htenant, hget] at hown
      rw [Option.some_or, ← hown]

theorem once_of_oneOwner (h : Indexes configs reg) (hone : OneOwner reg tenantId) :
    ((reg.modelEntries tenantId).map (·.1)).Nodup := by
  have hperm : ((reg.modelEntries tenantId).map (·.1)).Perm
      ((reg.modelIndex.filter fun e => e.1.1 = tenantId ∨ e.1.1 = globalOwner).map (·.1.2)) := by
    have hsort := (List.perm_insertionSort (fun a b : String × String => toLex a ≤ toLex b)
      ((reg.modelIndex.filter fun e => e.1.1 = tenantId ∨ e.1.1 = globalOwner).map
        fun e => (e.1.2, e.2))).map (·.1)
    rw [List.map_map] at hsort
    exact hsort
  rw [hperm.nodup_iff]
  have hnodup : (reg.modelIndex.filter fun e => e.1.1 = tenantId ∨ e.1.1 = globalOwner).Nodup :=
    (List.Nodup.of_map _ h.distinct).filter _
  refine hnodup.map_on ?_
  intro e he e' he' hmodel
  obtain ⟨hmem, howner⟩ := List.mem_filter.1 he
  obtain ⟨hmem', howner'⟩ := List.mem_filter.1 he'
  have hsame := hone e hmem e' hmem' (by simpa using howner) (by simpa using howner') hmodel
  have hkey : e.1 = e'.1 := Prod.ext hsame hmodel
  have hget := (h.mem_modelIndex hmem).1
  have hget' := (h.mem_modelIndex hmem').1
  rw [hkey, hget', Option.some_inj] at hget
  exact Prod.ext hkey hget.symm

/-- The entry of a configuration that lists a model serves it. -/
theorem serves_of_entry {model name : String} {cfg : CustomProviderConfig}
    (hentry : reg.entryFor tenantId name = some (entryOf cfg)) (hmodel : model ∈ cfg.models) :
    ∃ entry, reg.entryFor tenantId name = some entry ∧
      reg.adapter tenantId name = some entry.adapter ∧
      reg.apiKey tenantId name = some entry.config.apiKey ∧ model ∈ entry.config.models := by
  refine ⟨entryOf cfg, hentry, ?_, ?_, hmodel⟩
  · unfold RuntimeProviders.adapter
    rw [hentry]
    rfl
  · unfold RuntimeProviders.apiKey
    rw [hentry]
    rfl

/-- By who has the model and who has the name. -/
theorem serves_of_apart (h : Indexes configs reg)
    (hor : tenantId = globalOwner ∨ OwnersApart configs tenantId) (model name : String)
    (hroute : reg.providerForModel tenantId model = some name) :
    ∃ entry, reg.entryFor tenantId name = some entry ∧
      reg.adapter tenantId name = some entry.adapter ∧
      reg.apiKey tenantId name = some entry.config.apiKey ∧ model ∈ entry.config.models := by
  unfold RuntimeProviders.providerForModel at hroute
  rcases Option.or_eq_some_iff.1 hroute with hown | ⟨hnone, hshared⟩
  · -- the tenant has the model, and the provider is its own
    obtain ⟨⟨cfg, hcfg, hkey, hmodel⟩, -⟩ := (h.wins _ _ _).1 hown
    refine serves_of_entry ?_ hmodel
    unfold RuntimeProviders.entryFor
    rw [(h.entry _ _).2 ⟨cfg, hcfg, hkey, rfl⟩, Option.some_or]
  · obtain ⟨⟨cfg, hcfg, hkey, hmodel⟩, hleast⟩ := (h.wins _ _ _).1 hshared
    refine serves_of_entry ?_ hmodel
    unfold RuntimeProviders.entryFor
    cases hname : reg.byName.get (tenantId, name) with
    | none => rw [(h.entry _ _).2 ⟨cfg, hcfg, hkey, rfl⟩, Option.none_or]
    | some entry =>
      -- the tenant has the name: the model would be another provider's
      exfalso
      obtain ⟨own, hown, hownKey, -⟩ := (h.entry _ _).1 hname
      rcases hor with rfl | hapart
      · rw [hnone] at hshared
        exact Option.some_ne_none _ hshared.symm
      · have hcfgName : cfg.name = name := congrArg Prod.snd hkey
        have hownName : own.name = name := congrArg Prod.snd hownKey
        obtain ⟨other, hother, howner, hlt, hlists⟩ := hapart.names own hown cfg hcfg
          (congrArg Prod.fst hownKey) (congrArg Prod.fst hkey) (hownName.trans hcfgName.symm)
          model hmodel
        have hle := hleast other hother howner hlists
        rw [hcfgName] at hlt
        exact absurd hlt (not_lt_of_ge hle)

theorem apart_of_routesModels (h : Indexes configs reg) (hne : tenantId ≠ globalOwner)
    (hroutes : RoutesModels reg tenantId) : OwnersApart configs tenantId := by
  have hmodels : ∀ own ∈ configs, ∀ shared ∈ configs, ownerOf own = tenantId →
      ownerOf shared = globalOwner → ∀ model ∈ own.models, model ∉ shared.models := by
    intro own hown shared hshared howner howner' model hmodel hmodel'
    obtain ⟨name, hwins⟩ := exists_wins ⟨own, hown, howner, hmodel⟩
    obtain ⟨name', hwins'⟩ := exists_wins ⟨shared, hshared, howner', hmodel'⟩
    have hmem := Assoc.mem_of_get ((h.wins _ _ _).2 hwins)
    have hmem' := Assoc.mem_of_get ((h.wins _ _ _).2 hwins')
    -- both are shown, so the model is shown twice
    have honce := hroutes.once
    unfold RuntimeProviders.modelEntries at honce
    have hsort := (List.perm_insertionSort (fun a b : String × String => toLex a ≤ toLex b)
      ((reg.modelIndex.filter fun e => e.1.1 = tenantId ∨ e.1.1 = globalOwner).map
        fun e => (e.1.2, e.2))).map (·.1)
    rw [hsort.nodup_iff, List.map_map] at honce
    have heq := List.inj_on_of_nodup_map honce (List.mem_filter.2 ⟨hmem, by simp⟩)
      (List.mem_filter.2 ⟨hmem', by simp⟩) rfl
    exact hne (congrArg (·.1.1) heq)
  refine ⟨hmodels, ?_⟩
  intro own hown shared hshared howner howner' hname model hmodel
  by_contra hfirst
  have hwins : Wins configs globalOwner model shared.name := by
    refine ⟨⟨shared, hshared, by rw [← howner']; rfl, hmodel⟩, ?_⟩
    intro other hother howner'' hlists
    exact not_lt.1 fun hlt => hfirst ⟨other, hother, howner'', hlt, hlists⟩
  have hnone : reg.modelIndex.get (tenantId, model) = none :=
    h.get_eq_none fun cfg hcfg hcfgOwner hlists =>
      hmodels cfg hcfg shared hshared hcfgOwner howner' model hlists hmodel
  have hroute : reg.providerForModel tenantId model = some shared.name := by
    unfold RuntimeProviders.providerForModel
    rw [hnone, (h.wins _ _ _).2 hwins, Option.none_or]
  obtain ⟨entry, hentry, -, -, hlists⟩ := hroutes.serves model shared.name hroute
  have hownEntry : reg.entryFor tenantId shared.name = some (entryOf own) := by
    have hkey : keyOf own = (tenantId, shared.name) := by
      rw [← howner, ← hname]
      rfl
    unfold RuntimeProviders.entryFor
    rw [(h.entry _ _).2 ⟨own, hown, hkey, rfl⟩, Option.some_or]
  rw [hentry, Option.some_inj] at hownEntry
  subst hownEntry
  exact hmodels own hown shared hshared howner howner' model hlists hmodel

end Indexes

/-- **When a model leads to a provider that lists it**: the caller is the global owner, or its own
providers and the global ones share no model, and no name with which a model is indexed. -/
theorem routesModels_iff (walks : Walks) (configs : List CustomProviderConfig)
    (reg : RuntimeProviders) (tenantId : String)
    (hbuild : RuntimeProviders.build walks configs = .ok reg) :
    RoutesModels reg tenantId ↔ tenantId = globalOwner ∨ OwnersApart configs tenantId := by
  have h := build_ok hbuild
  constructor
  · intro hroutes
    by_cases htenant : tenantId = globalOwner
    · exact .inl htenant
    · exact .inr (h.apart_of_routesModels htenant hroutes)
  · intro hor
    have hone : Indexes.OneOwner reg tenantId := by
      rcases hor with rfl | hapart
      · exact Indexes.oneOwner_of_global reg
      · exact h.oneOwner_of_apart hapart
    exact ⟨h.serves_of_apart hor, h.entries_of_oneOwner hone, h.once_of_oneOwner hone⟩

/-- A global provider and a tenant's own of the same name. -/
def sameName : List CustomProviderConfig :=
  [{ name := "shared", baseUrl := "http://vllm.internal:8000", apiKey := "sk-GLOBAL",
     models := ["m1"] },
   { tenantId := some "t_a", name := "shared", baseUrl := "http://own.internal:8000",
     apiKey := "sk-TENANT-A-OWN", models := ["m2"] }]

def straightWalks : Walks := ⟨.straight, .straight⟩

/-- A tenant's provider has the name of a global one, but another global one is the first to list
its model. -/
def earlierName : List CustomProviderConfig :=
  [{ name := "fallback", baseUrl := "http://vllm.internal:8000", apiKey := "sk-GLOBAL",
     models := ["m1"] },
   { name := "shared", baseUrl := "http://vllm.internal:8001", apiKey := "sk-GLOBAL",
     models := ["m1"] },
   { tenantId := some "t_a", name := "shared", baseUrl := "http://own.internal:8000",
     apiKey := "sk-TENANT-A-OWN", models := ["m2", "m3"] }]

/-- Each model leads to a provider that lists it, the tenant's own models to its own. -/
theorem routesModels_beside_own : ∃ reg,
    RuntimeProviders.build straightWalks earlierName = .ok reg ∧ RoutesModels reg "t_a" := by
  have hkeys : (earlierName.map keyOf).Nodup := by decide
  obtain ⟨reg, hbuild⟩ := exists_build straightWalks hkeys
  have hapart : OwnersApart earlierName "t_a" := ⟨by decide, by decide⟩
  exact ⟨reg, hbuild, (routesModels_iff straightWalks earlierName reg "t_a" hbuild).2 (.inr hapart)⟩

/-- The global provider's model leads to the tenant's own provider, which does not list it. -/
theorem unlisted_model : ∃ reg, RuntimeProviders.build straightWalks sameName = .ok reg ∧
    reg.providerForModel "t_a" "m1" = some "shared" ∧
    (reg.entryFor "t_a" "shared").map (·.config.models) = some ["m2"] ∧
    ¬RoutesModels reg "t_a" := by
  refine ⟨_, rfl, by decide, by decide, ?_⟩
  intro hroutes
  obtain ⟨entry, hentry, -, -, hmodel⟩ := hroutes.serves "m1" "shared" (by decide)
  have hmodels := congrArg (Option.map (·.config.models)) hentry
  have hown : entry.config.models = ["m2"] := (Option.some_inj.1 hmodels).symm
  rw [hown] at hmodel
  exact absurd hmodel (by decide)

end Routeplane.Custom
