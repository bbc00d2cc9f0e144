import Routeplane.Proof.ModelRouting
import Routeplane.Providers.Store

/-!
# What a call does to the configurations

`changed` says what a call does to the list of all configurations, up to its order. The store
follows it: after a call the live snapshot indexes the changed configurations, and the file holds
them too unless nothing was written.

* `Indexes.apply`: the store follows `changed`.
* `load_ok`: a start indexes the file as validated.
* `Reads.filter`, `Reads.refl`: what a start makes of the file.
-/

namespace Routeplane.Custom

open Fallible (bind_eq_ok mapM_eq_ok_iff of_mapError)
open FirstMatch

variable {gw : Gateway} {configs configs' : List CustomProviderConfig} {reg : RuntimeProviders}

/-! ## Configurations up to their order -/

theorem Wins.perm {owner model name : String} (hp : configs.Perm configs')
    (h : Wins configs owner model name) : Wins configs' owner model name := by
  obtain ⟨⟨cfg, hcfg, hrest⟩, hleast⟩ := h
  exact ⟨⟨cfg, hp.subset hcfg, hrest⟩, fun cfg hcfg => hleast cfg (hp.symm.subset hcfg)⟩

theorem Indexes.perm (h : Indexes configs reg) (hp : configs.Perm configs') : Indexes configs' reg where
  keys := ((hp.map keyOf).nodup_iff).1 h.keys
  byName := h.byName.trans (hp.map _)
  distinct := h.distinct
  wins := by
    intro owner model name
    rw [h.wins]
    exact ⟨Wins.perm hp, Wins.perm hp.symm⟩

theorem isOwn_iff {tenantId name : String} {cfg : CustomProviderConfig} :
    isOwn tenantId name cfg = true ↔ cfg.name = name ∧ cfg.tenantId = some tenantId := by
  unfold isOwn
  simp

theorem keyOf_of_isOwn {tenantId name : String} {cfg : CustomProviderConfig}
    (h : isOwn tenantId name cfg = true) : keyOf cfg = (tenantId, name) := by
  obtain ⟨hname, htenant⟩ := isOwn_iff.1 h
  unfold keyOf ownerOf
  rw [hname, htenant, Option.getD_some]

/-- A tenant has one provider of a name. -/
theorem eq_of_isOwn {tenantId name : String} {cfg cfg' : CustomProviderConfig}
    (hkeys : (configs.map keyOf).Nodup) (hcfg : cfg ∈ configs) (hcfg' : cfg' ∈ configs)
    (h : isOwn tenantId name cfg = true) (h' : isOwn tenantId name cfg' = true) : cfg = cfg' :=
  List.inj_on_of_nodup_map hkeys hcfg hcfg' ((keyOf_of_isOwn h).trans (keyOf_of_isOwn h').symm)

theorem find?_isOwn_perm {tenantId name : String} (hkeys : (configs.map keyOf).Nodup)
    (hp : configs.Perm configs') :
    configs'.find? (isOwn tenantId name) = configs.find? (isOwn tenantId name) := by
  cases hfind : configs.find? (isOwn tenantId name) with
  | none =>
    rw [List.find?_eq_none] at hfind ⊢
    intro cfg hcfg
    exact hfind cfg (hp.symm.subset hcfg)
  | some cfg =>
    have hown : isOwn tenantId name cfg = true := List.find?_some hfind
    have hmem := List.mem_of_find?_eq_some hfind
    cases hfind' : configs'.find? (isOwn tenantId name) with
    | none => exact absurd hown (List.find?_eq_none.1 hfind' cfg (hp.subset hmem))
    | some cfg' =>
      have hmem' := hp.symm.subset (List.mem_of_find?_eq_some hfind')
      rw [eq_of_isOwn hkeys hmem hmem' hown (List.find?_some hfind')]

theorem pairwise_isOwn (tenantId name : String) (hkeys : (configs.map keyOf).Nodup) :
    configs.Pairwise fun a b => ¬(isOwn tenantId name a = true ∧ isOwn tenantId name b = true) := by
  refine (List.pairwise_map.1 hkeys).imp ?_
  rintro a b hne ⟨ha, hb⟩
  exact hne ((keyOf_of_isOwn ha).trans (keyOf_of_isOwn hb).symm)

/-! ## Calls -/

/-- The configuration an upsert stores, and those it keeps. -/
def setOwn (tenantId now : String) (cfg : CustomProviderConfig) (configs : List CustomProviderConfig) :
    List CustomProviderConfig :=
  { cfg with
    tenantId := some tenantId
    createdAt := (configs.find? (isOwn tenantId cfg.name)).elim (some now) (·.createdAt) } ::
      configs.filter fun cfg' => !isOwn tenantId cfg.name cfg'

/-- The checks of the handler on a valid configuration. -/
def passes (gw : Gateway) (env : Surroundings) (cfg : CustomProviderConfig) : Bool :=
  !(gw.providers.contains cfg.name || cfg.name == "routeplane") && (env.ssrfCheck cfg.baseUrl).toBool

/-- The configuration the handler lets through. -/
def admitted (gw : Gateway) (env : Surroundings) (raw : CustomProviderConfig) :
    Option CustomProviderConfig :=
  (validateAndNormalize gw.parseUrl raw).toOption.filter (passes gw env)

/-- The configurations after a call, when the write goes through and no owner has a name twice. -/
def written (gw : Gateway) (call : Call) (env : Surroundings) (configs : List CustomProviderConfig) :
    Option (List CustomProviderConfig) :=
  match call with
  | .upsert tenantId raw =>
    ((admitted gw env raw).map fun cfg => setOwn tenantId env.now cfg configs).filter fun next =>
      env.io.toBool && decide (next.map keyOf).Nodup
  | .remove tenantId name =>
    if env.io.toBool && configs.any (isOwn tenantId name) then
      some (configs.filter fun cfg => !isOwn tenantId name cfg)
    else none
  | .reload => none

def changed (gw : Gateway) (call : Call) (env : Surroundings) (configs : List CustomProviderConfig) :
    List CustomProviderConfig :=
  (written gw call env configs).getD configs

/-! ### The store follows -/

theorem setOwn_perm (tenantId now : String) (cfg : CustomProviderConfig)
    (hkeys : (configs.map keyOf).Nodup) (hp : configs.Perm configs') :
    (setOwn tenantId now cfg configs').Perm (setOwn tenantId now cfg configs) := by
  unfold setOwn
  rw [find?_isOwn_perm hkeys hp]
  exact (hp.symm.filter _).cons _

theorem upserted_perm (tenantId now : String) (cfg : CustomProviderConfig)
    (hkeys : (configs.map keyOf).Nodup) :
    (upserted tenantId now cfg configs).1.Perm (setOwn tenantId now cfg configs) := by
  unfold upserted setOwn
  cases hfind : configs.find? (isOwn tenantId cfg.name) with
  | some existing => exact replaceFirst_perm hfind (pairwise_isOwn tenantId cfg.name hkeys)
  | none =>
    have hall : (configs.filter fun cfg' => !isOwn tenantId cfg.name cfg') = configs := by
      rw [List.filter_eq_self]
      intro cfg' hcfg'
      simpa using List.find?_eq_none.1 hfind cfg' hcfg'
    rw [hall]
    exact (List.perm_insertionSort _ _).trans (List.perm_append_singleton _ _)

section Follow

variable {walks : Walks} {io : Except String Unit} {s : CustomProviderStore}

theorem persistAndSwap_ok (walks : Walks) (hio : io.toBool = true) (hkeys : (configs.map keyOf).Nodup) :
    ∃ next, CustomProviderStore.persistAndSwap walks io configs = .ok next ∧
      Indexes configs next.shared ∧ next.file = configs := by
  obtain ⟨reg, hbuild⟩ := exists_build walks hkeys
  cases io with
  | error err => cases hio
  | ok u =>
    refine ⟨⟨reg, configs⟩, ?_, build_ok hbuild, rfl⟩
    unfold CustomProviderStore.persistAndSwap
    rw [hbuild]
    rfl

theorem persistAndSwap_toOption (h : ¬(io.toBool = true ∧ (configs.map keyOf).Nodup)) :
    (CustomProviderStore.persistAndSwap walks io configs).toOption = none := by
  unfold CustomProviderStore.persistAndSwap
  cases hbuild : RuntimeProviders.build walks configs with
  | error err => rfl
  | ok reg =>
    cases io with
    | error err => rfl
    | ok u => exact absurd ⟨rfl, (build_ok hbuild).keys⟩ h

theorem upsert_toOption (tenantId now : String) (cfg : CustomProviderConfig) :
    (s.upsert walks io tenantId now cfg).toOption.map (·.1) =
      (CustomProviderStore.persistAndSwap walks io
        (upserted tenantId now cfg s.shared.configsSorted).1).toOption := by
  unfold CustomProviderStore.upsert
  generalize upserted tenantId now cfg s.shared.configsSorted = up
  obtain ⟨next, stored, created⟩ := up
  dsimp only
  cases CustomProviderStore.persistAndSwap walks io next <;> rfl

theorem upsertProvider_toOption (env : Surroundings) (tenantId : String) (raw : CustomProviderConfig) :
    (upsertProvider gw walks env s tenantId raw).toOption =
      (admitted gw env raw).bind fun cfg => (s.upsert walks env.io tenantId env.now cfg).toOption := by
  unfold upsertProvider admitted
  cases validateAndNormalize gw.parseUrl raw with
  | error refusal => rfl
  | ok cfg =>
    show Except.toOption (if _ then _ else _) = (Option.filter (passes gw env) (some cfg)).bind _
    rw [Option.filter_some]
    unfold passes
    split
    case isTrue hreserved =>
      rw [hreserved]
      rfl
    case isFalse hfree =>
      rw [Bool.eq_false_iff.2 hfree]
      cases env.ssrfCheck cfg.baseUrl with
      | error refusal => rfl
      | ok u =>
        show (Except.mapError _ (s.upsert walks env.io tenantId env.now cfg)).toOption =
          (s.upsert walks env.io tenantId env.now cfg).toOption
        cases s.upsert walks env.io tenantId env.now cfg <;> rfl

theorem remove_toOption (tenantId name : String) (h : Indexes configs s.shared) :
    (s.remove walks io tenantId name).toOption.elim s (·.1) =
      if configs.any (isOwn tenantId name) then
        (CustomProviderStore.persistAndSwap walks io
          (s.shared.configsSorted.filter fun cfg => !isOwn tenantId name cfg)).toOption.getD s
      else s := by
  have hany : (s.shared.configsSorted.filter fun cfg => !isOwn tenantId name cfg).length =
      s.shared.configsSorted.length ↔ configs.any (isOwn tenantId name) = false := by
    rw [List.length_filter_eq_length_iff, List.any_eq_false]
    constructor
    · intro hall cfg hcfg
      simpa using hall cfg (h.configsSorted_perm.symm.subset hcfg)
    · intro hall cfg hcfg
      simpa using hall cfg (h.configsSorted_perm.subset hcfg)
  unfold CustomProviderStore.remove
  cases hown : configs.any (isOwn tenantId name) with
  | false =>
    dsimp only
    rw [if_pos (hany.2 hown), if_neg Bool.false_ne_true]
    rfl
  | true =>
    have hne : ¬_ := fun heq => absurd (hany.1 heq) (by simp [hown])
    dsimp only
    rw [if_neg hne, if_pos rfl]
    cases CustomProviderStore.persistAndSwap walks io
      (s.shared.configsSorted.filter fun cfg => !isOwn tenantId name cfg) <;> rfl

end Follow

/-- The store after a call that is not a restart: what was written, or what it was. -/
def Follows (s s' : CustomProviderStore) (next : Option (List CustomProviderConfig)) : Prop :=
  next.elim (s' = s) fun configs => Indexes configs s'.shared ∧ s'.file.Perm configs

theorem follows_persistAndSwap (walks : Walks) (io : Except String Unit) (s : CustomProviderStore)
    {next : List CustomProviderConfig} (hp : configs.Perm next) :
    Follows s ((CustomProviderStore.persistAndSwap walks io configs).toOption.getD s)
      ((some next).filter fun next => io.toBool && decide (next.map keyOf).Nodup) := by
  have hkeys : (configs.map keyOf).Nodup ↔ (next.map keyOf).Nodup := (hp.map keyOf).nodup_iff
  by_cases h : io.toBool = true ∧ (configs.map keyOf).Nodup
  · obtain ⟨s', hok, hindexes, hfile⟩ := persistAndSwap_ok walks h.1 h.2
    have hyes : (io.toBool && decide (next.map keyOf).Nodup) = true := by
      simp [h.1, hkeys.1 h.2]
    rw [hok, Option.filter_some, if_pos hyes]
    exact ⟨hindexes.perm hp, hfile ▸ hp⟩
  · have hno : ¬(io.toBool && decide (next.map keyOf).Nodup) = true := by
      rw [Bool.and_eq_true, decide_eq_true_eq, ← hkeys]
      exact h
    rw [persistAndSwap_toOption h, Option.filter_some, if_neg hno]
    exact rfl

/-- **The store follows the changes of the configurations.** -/
theorem Indexes.apply {s : CustomProviderStore} (h : Indexes configs s.shared) (gw : Gateway)
    (e : Event)
    (hcall : e.call.tenant?.isSome) :
    ∃ s', s.apply gw e = some s' ∧ Follows s s' (written gw e.call e.env configs) := by
  obtain ⟨call, env, walks⟩ := e
  have hsorted := h.configsSorted_perm
  have hkeys : (s.shared.configsSorted.map keyOf).Nodup := (hsorted.map keyOf).nodup_iff.2 h.keys
  cases call with
  | reload => cases hcall
  | upsert tenantId raw =>
    refine ⟨_, rfl, ?_⟩
    rw [upsertProvider_toOption]
    unfold written
    dsimp only
    cases admitted gw env raw with
    | none => exact rfl
    | some cfg =>
      have hnext := (upserted_perm tenantId env.now cfg hkeys).trans
        (setOwn_perm tenantId env.now cfg h.keys hsorted.symm)
      rw [Option.bind_some, Option.map_some]
      have hfollows := follows_persistAndSwap walks env.io s hnext
      rw [← upsert_toOption] at hfollows
      cases hres : (s.upsert walks env.io tenantId env.now cfg).toOption with
      | none =>
        rw [hres] at hfollows
        exact hfollows
      | some res =>
        rw [hres] at hfollows
        exact hfollows
  | remove tenantId name =>
    refine ⟨_, rfl, ?_⟩
    have hdelete : (deleteProvider walks env s tenantId name).toOption.elim s (·.1) =
        (s.remove walks env.io tenantId name).toOption.elim s (·.1) := by
      unfold deleteProvider
      cases s.remove walks env.io tenantId name <;> rfl
    dsimp only
    rw [hdelete, remove_toOption tenantId name h]
    unfold written
    dsimp only
    cases hown : configs.any (isOwn tenantId name) with
    | false =>
      rw [if_neg Bool.false_ne_true, Bool.and_false, if_neg Bool.false_ne_true]
      exact rfl
    | true =>
      have hnext := hsorted.filter fun cfg => !isOwn tenantId name cfg
      have hnodup : ((configs.filter fun cfg => !isOwn tenantId name cfg).map keyOf).Nodup :=
        h.keys.sublist (List.filter_sublist.map keyOf)
      have hfollows := follows_persistAndSwap walks env.io s hnext
      rw [Option.filter_some, decide_eq_true hnodup] at hfollows
      rw [if_pos rfl]
      exact hfollows

/-! ## Starts -/

/-- What a start makes of the entries of a file. -/
def Reads (gw : Gateway) (file read : List CustomProviderConfig) : Prop :=
  List.Forall₂ (fun raw cfg => validateAndNormalize gw.parseUrl raw = .ok cfg) file read

theorem reads_of_mapM {file : List CustomProviderConfig}
    (h : (file.mapM fun cfg => (validateAndNormalize gw.parseUrl cfg).mapError invalidEntry) =
      .ok configs) : Reads gw file configs :=
  (mapM_eq_ok_iff.1 h).imp fun _ _ => of_mapError

/-- **A start indexes the file as validated.** -/
theorem load_ok {walks : Walks} {file : List CustomProviderConfig} {s : CustomProviderStore}
    (h : CustomProviderStore.load gw walks file = .ok s) :
    ∃ configs, Reads gw file configs ∧ Indexes configs s.shared ∧ s.file = file := by
  unfold CustomProviderStore.load at h
  obtain ⟨configs, hread, h⟩ := bind_eq_ok h
  obtain ⟨reg, hbuild, h⟩ := bind_eq_ok h
  rw [← Except.ok.inj h]
  exact ⟨configs, reads_of_mapM hread, build_ok hbuild, rfl⟩

/-- What a filter by owner leaves is read as what it leaves of the entries read. -/
theorem Reads.filter {file read : List CustomProviderConfig} (h : Reads gw file read)
    {p : CustomProviderConfig → Bool} (hp : ∀ a b, a.tenantId = b.tenantId → p a = p b) :
    Reads gw (file.filter p) (read.filter p) := by
  induction h with
  | nil => exact .nil
  | @cons raw cfg file read hvalid hrest ih =>
    have hsame : p raw = p cfg := hp raw cfg (validateAndNormalize_tenantId hvalid).symm
    cases hraw : p raw with
    | true =>
      rw [List.filter_cons_of_pos hraw, List.filter_cons_of_pos (hsame ▸ hraw)]
      exact .cons hvalid ih
    | false =>
      have hno : ¬p raw = true := Bool.eq_false_iff.1 hraw
      rw [List.filter_cons_of_neg hno, List.filter_cons_of_neg (hsame ▸ hno)]
      exact ih

/-- A configuration the validation leaves as it is. -/
def Accepted (gw : Gateway) (cfg : CustomProviderConfig) : Prop :=
  validateAndNormalize gw.parseUrl cfg = .ok cfg

theorem Reads.refl {configs : List CustomProviderConfig} (h : ∀ cfg ∈ configs, Accepted gw cfg) :
    Reads gw configs configs := by
  induction configs with
  | nil => exact .nil
  | cons cfg configs ih =>
    exact .cons (h cfg List.mem_cons_self) (ih fun cfg' h' => h cfg' (List.mem_cons_of_mem _ h'))

theorem Reads.unique {file read read' : List CustomProviderConfig} (h : Reads gw file read)
    (h' : Reads gw file read') : read = read' := by
  induction h generalizing read' with
  | nil =>
    cases h'
    rfl
  | cons hvalid hrest ih =>
    cases h' with
    | cons hvalid' hrest' =>
      rw [hvalid] at hvalid'
      rw [Except.ok.inj hvalid', ih hrest']

theorem Reads.exists_raw {file read : List CustomProviderConfig} (h : Reads gw file read)
    {cfg : CustomProviderConfig} (hcfg : cfg ∈ read) :
    ∃ raw ∈ file, validateAndNormalize gw.parseUrl raw = .ok cfg := by
  induction h with
  | nil => cases hcfg
  | @cons raw first file read hvalid hrest ih =>
    rcases List.mem_cons.1 hcfg with rfl | hcfg
    · exact ⟨raw, List.mem_cons_self, hvalid⟩
    · obtain ⟨raw', hraw', hvalid'⟩ := ih hcfg
      exact ⟨raw', List.mem_cons_of_mem _ hraw', hvalid'⟩

/-- The owner and the creation stamp are not validated. -/
theorem Accepted.stamp {cfg : CustomProviderConfig} (h : Accepted gw cfg)
    (tenantId createdAt : Option String) : Accepted gw { cfg with tenantId, createdAt } := by
  obtain ⟨name, baseUrl, models, hname, hbaseUrl, hkey, hmodels, heq⟩ := validateAndNormalize_parts h
  have hnames : name = cfg.name := congrArg CustomProviderConfig.name heq.symm
  have hurls : baseUrl = cfg.baseUrl := congrArg CustomProviderConfig.baseUrl heq.symm
  have hlists : models = cfg.models := congrArg CustomProviderConfig.models heq.symm
  subst hnames hurls hlists
  unfold Accepted validateAndNormalize
  dsimp only
  rw [hname, hbaseUrl, hkey, hmodels]
  rfl

end Routeplane.Custom
