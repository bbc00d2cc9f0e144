import Routeplane.Proof.ProviderStore

/-!
# Custom providers are isolated by owner

A tenant sees the entries it owns and the operator's. What the registry answers it depends on those
alone, and what it sees is changed by its own calls and by the operator's alone. A restart changes
nothing of what is seen when the base URLs seen are in normal form.

* `sameAnswers_of_visible`: the answers are a function of what is visible.
* `changed_filter`: what a call does to the visible entries.
* `Tracks.run`: a run follows the calls that are seen.
* `owners_isolated`: two runs that agree on what a tenant sees answer it the same, and no call of a
  tenant changes an entry of another owner.
-/

namespace Routeplane.Custom

open Fallible (of_toOption)

variable {gw : Gateway} {configs configs' : List CustomProviderConfig} {reg reg' : RuntimeProviders}
  {tenantId : String}

/-- The tenant's own entries and the operator's. -/
def isVisible (tenantId : String) (cfg : CustomProviderConfig) : Bool :=
  ownerOf cfg == tenantId || ownerOf cfg == globalOwner

def visible (tenantId : String) (configs : List CustomProviderConfig) : List CustomProviderConfig :=
  configs.filter (isVisible tenantId)

theorem isVisible_iff {cfg : CustomProviderConfig} :
    isVisible tenantId cfg = true ↔ ownerOf cfg = tenantId ∨ ownerOf cfg = globalOwner := by
  unfold isVisible
  simp

/-! ## Answers -/

/-- The same answers to a tenant. An own entry and a global one may share a name: their order in the
listing is left open. -/
structure SameAnswers (tenantId : String) (reg reg' : RuntimeProviders) : Prop where
  adapter : ∀ name, reg.adapter tenantId name = reg'.adapter tenantId name
  apiKey : ∀ name, reg.apiKey tenantId name = reg'.apiKey tenantId name
  contains : ∀ name, reg.contains tenantId name = reg'.contains tenantId name
  providerForModel : ∀ model,
    reg.providerForModel tenantId model = reg'.providerForModel tenantId model
  modelEntries : reg.modelEntries tenantId = reg'.modelEntries tenantId
  list : (reg.list tenantId).Perm (reg'.list tenantId)
  listNames : (reg.list tenantId).map (·.name) = (reg'.list tenantId).map (·.name)
  listOrder : ((reg.list tenantId).map (·.name)).Nodup → reg.list tenantId = reg'.list tenantId

section Answers

variable {owner : String}

/-- The entries of an owner are found by its configurations. -/
theorem byName_congr (h : Indexes configs reg) (h' : Indexes configs' reg')
    (hsame : ∀ cfg, ownerOf cfg = owner → (cfg ∈ configs ↔ cfg ∈ configs')) (name : String) :
    reg.byName.get (owner, name) = reg'.byName.get (owner, name) :=
  h.get_congr h' fun cfg hkey => hsame cfg (congrArg Prod.fst hkey)

theorem Wins.congr {model name : String}
    (hsame : ∀ cfg, ownerOf cfg = owner → (cfg ∈ configs ↔ cfg ∈ configs'))
    (h : Wins configs owner model name) : Wins configs' owner model name := by
  obtain ⟨⟨cfg, hcfg, hkey, hmodel⟩, hleast⟩ := h
  refine ⟨⟨cfg, (hsame cfg (congrArg Prod.fst hkey)).1 hcfg, hkey, hmodel⟩, ?_⟩
  intro other hother howner hlists
  exact hleast other ((hsame other howner).2 hother) howner hlists

theorem modelIndex_congr (h : Indexes configs reg) (h' : Indexes configs' reg')
    (hsame : ∀ cfg, ownerOf cfg = owner → (cfg ∈ configs ↔ cfg ∈ configs')) (model : String) :
    reg.modelIndex.get (owner, model) = reg'.modelIndex.get (owner, model) := by
  refine Option.ext fun name => ?_
  rw [h.wins, h'.wins]
  exact ⟨Wins.congr hsame, Wins.congr fun cfg howner => (hsame cfg howner).symm⟩

theorem mem_congr_of_visible (hv : (visible tenantId configs).Perm (visible tenantId configs'))
    (howner : owner = tenantId ∨ owner = globalOwner) (cfg : CustomProviderConfig)
    (hcfg : ownerOf cfg = owner) : cfg ∈ configs ↔ cfg ∈ configs' := by
  have hvisible : isVisible tenantId cfg = true := isVisible_iff.2 (hcfg ▸ howner)
  have hmem := hv.mem_iff (a := cfg)
  unfold visible at hmem
  rw [List.mem_filter, List.mem_filter, hvisible] at hmem
  simpa using hmem

theorem modelEntries_congr (h : Indexes configs reg) (h' : Indexes configs' reg')
    (hv : (visible tenantId configs).Perm (visible tenantId configs')) :
    reg.modelEntries tenantId = reg'.modelEntries tenantId := by
  have hperm : (reg.modelIndex.filter fun e => e.1.1 = tenantId ∨ e.1.1 = globalOwner).Perm
      (reg'.modelIndex.filter fun e => e.1.1 = tenantId ∨ e.1.1 = globalOwner) := by
    rw [List.perm_ext_iff_of_nodup ((List.Nodup.of_map _ h.distinct).filter _)
      ((List.Nodup.of_map _ h'.distinct).filter _)]
    rintro ⟨⟨owner, model⟩, name⟩
    rw [List.mem_filter, List.mem_filter, ← Assoc.get_eq_some_iff h.distinct,
      ← Assoc.get_eq_some_iff h'.distinct]
    refine and_congr_left fun howner => ?_
    have hor : owner = tenantId ∨ owner = globalOwner := by simpa using howner
    rw [modelIndex_congr h h' (mem_congr_of_visible hv hor)]
  have hsorted := fun l => List.pairwise_insertionSort (fun a b : String × String => toLex a ≤ toLex b) l
  have hp := fun l => List.perm_insertionSort (fun a b : String × String => toLex a ≤ toLex b) l
  unfold RuntimeProviders.modelEntries
  refine List.Perm.eq_of_pairwise ?_ (hsorted _) (hsorted _)
    ((hp _).trans ((hperm.map _).trans (hp _).symm))
  intro a b _ _ hab hba
  exact toLex.injective (le_antisymm hab hba)

theorem list_perm (h : Indexes configs reg) :
    (reg.list tenantId).Perm
      (((visible tenantId configs).filter fun cfg => cfg.tenantId.all (· = tenantId)).map viewOf) := by
  have hfilter : (configs.filter fun cfg => cfg.tenantId.all (· = tenantId)) =
      (visible tenantId configs).filter fun cfg => cfg.tenantId.all (· = tenantId) := by
    unfold visible
    rw [List.filter_filter]
    refine List.filter_congr fun cfg _ => ?_
    cases htenant : cfg.tenantId with
    | none =>
      have hvisible : isVisible tenantId cfg = true := by
        rw [isVisible_iff]
        right
        unfold ownerOf
        rw [htenant, Option.getD_none]
      rw [hvisible, Bool.and_true]
    | some owner =>
      by_cases howner : owner = tenantId
      · have hvisible : isVisible tenantId cfg = true := by
          rw [isVisible_iff]
          left
          unfold ownerOf
          rw [htenant, Option.getD_some, howner]
        rw [hvisible, Bool.and_true]
      · simp [howner]
  unfold RuntimeProviders.list
  rw [← hfilter]
  exact (h.configsSorted_perm.filter _).map _

theorem list_sorted (reg : RuntimeProviders) (tenantId : String) :
    (reg.list tenantId).Pairwise fun a b => a.name ≤ b.name := by
  have hsorted : reg.configsSorted.Pairwise fun a b => a.name ≤ b.name :=
    List.pairwise_insertionSort (fun a b : CustomProviderConfig => a.name ≤ b.name) _
  unfold RuntimeProviders.list
  rw [List.pairwise_map]
  exact hsorted.filter _

/-- **The answers are a function of what is visible.** -/
theorem sameAnswers_of_visible (h : Indexes configs reg) (h' : Indexes configs' reg')
    (hv : (visible tenantId configs).Perm (visible tenantId configs')) :
    SameAnswers tenantId reg reg' := by
  have hentry : ∀ name, reg.entryFor tenantId name = reg'.entryFor tenantId name := by
    intro name
    unfold RuntimeProviders.entryFor
    rw [byName_congr h h' (mem_congr_of_visible hv (.inl rfl)),
      byName_congr h h' (mem_congr_of_visible hv (.inr rfl))]
  have hlist : (reg.list tenantId).Perm (reg'.list tenantId) :=
    (list_perm h).trans (((hv.filter _).map _).trans (list_perm h').symm)
  have hnames : (reg.list tenantId).map (·.name) = (reg'.list tenantId).map (·.name) := by
    refine List.Perm.eq_of_pairwise (fun _ _ _ _ hab hba => le_antisymm hab hba)
      ?_ ?_ (hlist.map _)
    · exact List.pairwise_map.2 (list_sorted reg tenantId)
    · exact List.pairwise_map.2 (list_sorted reg' tenantId)
  refine ⟨?_, ?_, ?_, ?_, modelEntries_congr h h' hv, hlist, hnames, ?_⟩
  · intro name
    exact congrArg (Option.map (·.adapter)) (hentry name)
  · intro name
    exact congrArg (Option.map (·.config.apiKey)) (hentry name)
  · intro name
    exact congrArg Option.isSome (hentry name)
  · intro model
    unfold RuntimeProviders.providerForModel
    rw [modelIndex_congr h h' (mem_congr_of_visible hv (.inl rfl)),
      modelIndex_congr h h' (mem_congr_of_visible hv (.inr rfl))]
  · intro hnodup
    refine List.Perm.eq_of_pairwise ?_ (list_sorted reg tenantId) (list_sorted reg' tenantId) hlist
    intro a b ha hb hab hba
    exact List.inj_on_of_nodup_map hnodup ha (hlist.symm.subset hb) (le_antisymm hab hba)

end Answers

/-! ## Calls -/

/-- A call of the tenant, or of the operator's owner. -/
def isSeen (tenantId : String) (call : Call) : Bool :=
  call.tenant? == some tenantId || call.tenant? == some globalOwner

theorem isOwn_ownerOf {owner name : String} {cfg : CustomProviderConfig}
    (h : isOwn owner name cfg = true) : ownerOf cfg = owner := by
  unfold ownerOf
  rw [(isOwn_iff.1 h).2, Option.getD_some]

section Filter

variable {p : CustomProviderConfig → Bool} {owner now name : String} {cfg : CustomProviderConfig}

theorem filter_not_isOwn (h : ∀ cfg, isOwn owner name cfg = true → p cfg = false) :
    (configs.filter fun cfg => !isOwn owner name cfg).filter p = configs.filter p := by
  rw [List.filter_filter]
  refine List.filter_congr fun cfg _ => ?_
  cases hown : isOwn owner name cfg with
  | true => rw [h cfg hown, Bool.false_and]
  | false => rw [Bool.not_false, Bool.and_true]

/-- A filter that passes none of an owner's entries does not see them set. -/
theorem setOwn_filter_of_not (h : ∀ cfg, ownerOf cfg = owner → p cfg = false) :
    (setOwn owner now cfg configs).filter p = configs.filter p := by
  unfold setOwn
  rw [List.filter_cons_of_neg (by simpa using h _ rfl), filter_not_isOwn]
  intro cfg hown
  exact h cfg (isOwn_ownerOf hown)

theorem find?_isOwn_filter (h : ∀ cfg, ownerOf cfg = owner → p cfg = true) :
    (configs.filter p).find? (isOwn owner name) = configs.find? (isOwn owner name) := by
  rw [List.find?_filter]
  refine congrArg (fun q => configs.find? q) (funext fun cfg => ?_)
  cases hown : isOwn owner name cfg with
  | true => simp [h cfg (isOwn_ownerOf hown)]
  | false => simp

/-- A filter that passes all of an owner's entries sees them set. -/
theorem setOwn_filter (h : ∀ cfg, ownerOf cfg = owner → p cfg = true) :
    (setOwn owner now cfg configs).filter p = setOwn owner now cfg (configs.filter p) := by
  unfold setOwn
  rw [List.filter_cons_of_pos (h _ rfl), List.filter_comm, find?_isOwn_filter h]

/-- A key that is set twice is set twice among the entries that pass. -/
theorem setOwn_nodup_filter (hkeys : (configs.map keyOf).Nodup)
    (h : ∀ cfg cfg', keyOf cfg = keyOf cfg' → p cfg = p cfg')
    (hown : ∀ cfg, ownerOf cfg = owner → p cfg = true) :
    ((setOwn owner now cfg configs).map keyOf).Nodup ↔
      ((setOwn owner now cfg (configs.filter p)).map keyOf).Nodup := by
  rw [← setOwn_filter hown]
  constructor
  · exact fun hnodup => hnodup.sublist (List.filter_sublist.map keyOf)
  · intro hnodup
    unfold setOwn at hnodup ⊢
    rw [List.filter_cons_of_pos (hown _ rfl), List.map_cons, List.nodup_cons] at hnodup
    rw [List.map_cons, List.nodup_cons]
    refine ⟨?_, hkeys.sublist (List.filter_sublist.map keyOf)⟩
    intro hmem
    obtain ⟨other, hother, hkey⟩ := List.mem_map.1 hmem
    have hpass : p other = true := (h _ _ hkey).trans (hown _ rfl)
    exact hnodup.1 (List.mem_map.2 ⟨other, List.mem_filter.2 ⟨hother, hpass⟩, hkey⟩)

end Filter

/-- What a call does to the entries of the owners it is not made by. -/
theorem changed_filter_of_not {p : CustomProviderConfig → Bool} (call : Call) (env : Surroundings)
    (h : ∀ owner, call.tenant? = some owner → ∀ cfg, ownerOf cfg = owner → p cfg = false) :
    (changed gw call env configs).filter p = configs.filter p := by
  unfold changed
  cases hwritten : written gw call env configs with
  | none => rfl
  | some next =>
    rw [Option.getD_some]
    cases call with
    | reload => cases hwritten
    | upsert owner raw =>
      obtain ⟨hset, -⟩ := Option.filter_eq_some_iff.1 hwritten
      obtain ⟨cfg, -, rfl⟩ := Option.map_eq_some_iff.1 hset
      exact setOwn_filter_of_not (h owner rfl)
    | remove owner name =>
      unfold written at hwritten
      dsimp only at hwritten
      split at hwritten
      · rw [← Option.some_inj.1 hwritten, filter_not_isOwn]
        intro cfg hown
        exact h owner rfl cfg (isOwn_ownerOf hown)
      · cases hwritten

/-- **What a call does to the visible entries**: all of it when it is seen. -/
theorem changed_filter {p : CustomProviderConfig → Bool} (call : Call) (env : Surroundings)
    (hkeys : (configs.map keyOf).Nodup) (hp : ∀ cfg cfg', keyOf cfg = keyOf cfg' → p cfg = p cfg')
    (h : ∀ owner, call.tenant? = some owner → ∀ cfg, ownerOf cfg = owner → p cfg = true) :
    (changed gw call env configs).filter p = changed gw call env (configs.filter p) := by
  unfold changed written
  cases call with
  | reload => rfl
  | upsert owner raw =>
    have hown := h owner rfl
    dsimp only
    cases admitted gw env raw with
    | none => rfl
    | some cfg =>
      have hnodup : decide ((setOwn owner env.now cfg configs).map keyOf).Nodup =
          decide ((setOwn owner env.now cfg (configs.filter p)).map keyOf).Nodup :=
        decide_eq_decide.2 (setOwn_nodup_filter hkeys hp hown)
      rw [Option.map_some, Option.map_some, Option.filter_some, Option.filter_some, ← hnodup]
      split
      · exact setOwn_filter hown
      · rfl
  | remove owner name =>
    have hany : (configs.filter p).any (isOwn owner name) = configs.any (isOwn owner name) := by
      rw [List.any_filter]
      refine congrArg (fun q => configs.any q) (funext fun cfg => ?_)
      cases hown : isOwn owner name cfg with
      | true => rw [h owner rfl cfg (isOwn_ownerOf hown), Bool.true_and]
      | false => rw [Bool.and_false]
    dsimp only
    rw [hany]
    split
    · rw [Option.getD_some, Option.getD_some, List.filter_comm]
    · rfl

theorem changed_perm (call : Call) (env : Surroundings) (hkeys : (configs.map keyOf).Nodup)
    (hp : configs.Perm configs') :
    (changed gw call env configs).Perm (changed gw call env configs') := by
  unfold changed written
  cases call with
  | reload => exact hp
  | upsert owner raw =>
    dsimp only
    cases admitted gw env raw with
    | none => exact hp
    | some cfg =>
      have hset := setOwn_perm owner env.now cfg hkeys hp
      have hnodup : decide ((setOwn owner env.now cfg configs').map keyOf).Nodup =
          decide ((setOwn owner env.now cfg configs).map keyOf).Nodup :=
        decide_eq_decide.2 (hset.map keyOf).nodup_iff
      rw [Option.map_some, Option.map_some, Option.filter_some, Option.filter_some, hnodup]
      split
      · exact hset.symm
      · exact hp
  | remove owner name =>
    have hany : configs'.any (isOwn owner name) = configs.any (isOwn owner name) := by
      rw [Bool.eq_iff_iff, List.any_eq_true, List.any_eq_true]
      exact ⟨fun ⟨cfg, hcfg, hown⟩ => ⟨cfg, hp.symm.subset hcfg, hown⟩,
        fun ⟨cfg, hcfg, hown⟩ => ⟨cfg, hp.subset hcfg, hown⟩⟩
    dsimp only
    rw [hany]
    split
    · exact hp.filter _
    · exact hp

/-! ## Runs -/

/-- The base URL of an authored configuration is in normal form once it is normalized. -/
def Settles (raw : CustomProviderConfig) : Prop := IsSettled (normalizeBaseUrl raw.baseUrl)

instance : DecidablePred Settles := fun raw =>
  inferInstanceAs (Decidable (IsSettled (normalizeBaseUrl raw.baseUrl)))

def Call.Settles : Call → Prop
  | upsert _ raw => Custom.Settles raw
  | remove _ _ | reload => True

instance : DecidablePred Call.Settles
  | .upsert _ raw => inferInstanceAs (Decidable (Custom.Settles raw))
  | .remove _ _ | .reload => inferInstanceAs (Decidable True)

theorem accepted_of_settles {raw cfg : CustomProviderConfig} (h : Settles raw)
    (hvalid : validateAndNormalize gw.parseUrl raw = .ok cfg) : Accepted gw cfg := by
  have hsettled : IsSettled cfg.baseUrl := by
    rw [validateAndNormalize_baseUrl hvalid]
    exact h
  exact validateAndNormalize_ok hvalid hsettled

theorem changed_accepted (call : Call) (env : Surroundings) (hcall : call.Settles)
    (h : ∀ cfg ∈ configs, Accepted gw cfg) : ∀ cfg ∈ changed gw call env configs, Accepted gw cfg := by
  unfold changed
  cases hwritten : written gw call env configs with
  | none => exact h
  | some next =>
    rw [Option.getD_some]
    cases call with
    | reload => cases hwritten
    | upsert owner raw =>
      obtain ⟨hset, -⟩ := Option.filter_eq_some_iff.1 hwritten
      obtain ⟨cfg, hadmitted, rfl⟩ := Option.map_eq_some_iff.1 hset
      obtain ⟨hvalid, -⟩ := Option.filter_eq_some_iff.1 hadmitted
      have haccepted := accepted_of_settles hcall (of_toOption hvalid)
      intro other hother
      unfold setOwn at hother
      rcases List.mem_cons.1 hother with rfl | hother
      · exact haccepted.stamp _ _
      · exact h other (List.mem_filter.1 hother).1
    | remove owner name =>
      unfold written at hwritten
      dsimp only at hwritten
      split at hwritten
      · rw [← Option.some_inj.1 hwritten]
        exact fun cfg hcfg => h cfg (List.mem_filter.1 hcfg).1
      · cases hwritten

/-- The calls a tenant's answers may depend on, with what their environment answered. -/
def seenCalls (tenantId : String) (es : List Event) : List (Call × Surroundings) :=
  (es.filter fun e => isSeen tenantId e.call).map fun e => (e.call, e.env)

/-- What the calls make of the visible entries. -/
def follow (gw : Gateway) (view : List CustomProviderConfig) (calls : List (Call × Surroundings)) :
    List CustomProviderConfig :=
  calls.foldl (fun view c => changed gw c.1 c.2 view) view

/-- The snapshot shows these entries, and a restart would show them too. -/
structure Tracks (gw : Gateway) (tenantId : String) (view : List CustomProviderConfig)
    (s : CustomProviderStore) : Prop where
  live : ∃ configs, Indexes configs s.shared ∧ (visible tenantId configs).Perm view
  file : ∃ read, Reads gw (visible tenantId s.file) read ∧ read.Perm view

section Runs

variable {view : List CustomProviderConfig} {s s' : CustomProviderStore}

theorem isVisible_congr (a b : CustomProviderConfig) (h : ownerOf a = ownerOf b) :
    isVisible tenantId a = isVisible tenantId b := by
  unfold isVisible
  rw [h]

theorem Reads.visible {file read : List CustomProviderConfig} (h : Reads gw file read) :
    Reads gw (visible tenantId file) (visible tenantId read) :=
  h.filter fun a b htenant => isVisible_congr a b (congrArg (Option.getD · globalOwner) htenant)

theorem visible_changed_of_not_seen {call : Call} (env : Surroundings)
    (h : isSeen tenantId call = false) :
    visible tenantId (changed gw call env configs) = visible tenantId configs := by
  refine changed_filter_of_not call env ?_
  intro owner howner cfg hcfg
  rw [Bool.eq_false_iff]
  intro hvisible
  have hseen : isSeen tenantId call = true := by
    unfold isSeen
    rw [howner]
    rcases isVisible_iff.1 hvisible with hown | hglobal
    · simp [← hown, hcfg]
    · simp [← hglobal, hcfg]
  rw [h] at hseen
  exact Bool.false_ne_true hseen

theorem visible_changed_of_seen {call : Call} (env : Surroundings)
    (hkeys : (configs.map keyOf).Nodup) (h : isSeen tenantId call = true) :
    visible tenantId (changed gw call env configs) =
      changed gw call env (visible tenantId configs) := by
  refine changed_filter call env hkeys
    (fun a b hkey => isVisible_congr a b (congrArg Prod.fst hkey)) ?_
  intro owner howner cfg hcfg
  unfold isSeen at h
  rw [howner] at h
  rw [isVisible_iff, hcfg]
  simpa using h

theorem Tracks.restart (h : Tracks gw tenantId view s) {walks : Walks}
    (hload : CustomProviderStore.load gw walks s.file = .ok s') : Tracks gw tenantId view s' := by
  obtain ⟨configs, hreads, hindexes, hfile⟩ := load_ok hload
  obtain ⟨read, hread, hperm⟩ := h.file
  have heq : visible tenantId configs = read := hreads.visible.unique hread
  exact ⟨⟨configs, hindexes, heq ▸ hperm⟩, ⟨read, hfile ▸ hread, hperm⟩⟩

/-- A call that leads from some visible entries to others. -/
theorem Tracks.written {view' : List CustomProviderConfig} (h : Tracks gw tenantId view s) {e : Event}
    (hcall : e.call.tenant?.isSome) (happly : s.apply gw e = some s')
    (hview : ∀ configs, Indexes configs s.shared → (visible tenantId configs).Perm view →
      (visible tenantId (changed gw e.call e.env configs)).Perm view')
    (haccepted : ∀ cfg ∈ view', Accepted gw cfg) : Tracks gw tenantId view' s' := by
  obtain ⟨configs, hindexes, hperm⟩ := h.live
  obtain ⟨s'', happly', hfollows⟩ := hindexes.apply gw e hcall
  have hsame : s'' = s' := Option.some_inj.1 (happly'.symm.trans happly)
  subst hsame
  have hperm' := hview configs hindexes hperm
  unfold changed at hperm'
  cases hwritten : Custom.written gw e.call e.env configs with
  | none =>
    rw [hwritten] at hperm' hfollows
    have hstore : s'' = s := hfollows
    subst hstore
    obtain ⟨read, hread, hreadPerm⟩ := h.file
    exact ⟨⟨configs, hindexes, hperm'⟩, ⟨read, hread, (hreadPerm.trans hperm.symm).trans hperm'⟩⟩
  | some next =>
    rw [hwritten] at hperm' hfollows
    obtain ⟨hnext, hfile⟩ := hfollows
    have hfilePerm : (visible tenantId s''.file).Perm view' := (hfile.filter _).trans hperm'
    exact ⟨⟨next, hnext, hperm'⟩,
      ⟨_, Reads.refl fun cfg hcfg => haccepted cfg (hfilePerm.subset hcfg), hfilePerm⟩⟩

/-- **A run follows the calls that are seen.** By induction on the events. -/
theorem Tracks.run {es : List Event} (h : Tracks gw tenantId view s)
    (haccepted : ∀ cfg ∈ view, Accepted gw cfg)
    (hsettles : ∀ c ∈ seenCalls tenantId es, c.1.Settles)
    (hrun : Run.run (step gw) (some s) es = some s') :
    Tracks gw tenantId (follow gw view (seenCalls tenantId es)) s' := by
  induction es generalizing s view with
  | nil =>
    have hsame : s = s' := Option.some_inj.1 hrun
    subst hsame
    exact h
  | cons e es ih =>
    have hcons : Run.run (step gw) (s.apply gw e) es = some s' := hrun
    cases happly : s.apply gw e with
    | none =>
      -- a gateway that is down stays down
      rw [happly] at hcons
      have hdown : ∀ es, Run.run (step gw) none es = none := by
        intro es
        induction es with
        | nil => rfl
        | cons e es ih => exact ih
      rw [hdown] at hcons
      cases hcons
    | some next =>
      rw [happly] at hcons
      cases hseen : isSeen tenantId e.call with
      | false =>
        have hcalls : seenCalls tenantId (e :: es) = seenCalls tenantId es := by
          unfold seenCalls
          rw [List.filter_cons_of_neg (by simp [hseen])]
        rw [hcalls] at hsettles ⊢
        refine ih ?_ haccepted hsettles hcons
        cases htenant : e.call.tenant? with
        | none =>
          obtain ⟨call, env, walks⟩ := e
          cases call with
          | upsert owner raw => cases htenant
          | remove owner name => cases htenant
          | reload =>
            unfold CustomProviderStore.apply at happly
            dsimp only at happly
            cases hload : CustomProviderStore.load gw walks s.file with
            | error err =>
              rw [hload] at happly
              cases happly
            | ok loaded =>
              rw [hload] at happly
              have hsame : loaded = next := Option.some_inj.1 happly
              subst hsame
              exact h.restart hload
        | some owner =>
          refine h.written (by rw [htenant]; rfl) happly ?_ haccepted
          intro configs _ hperm
          rw [visible_changed_of_not_seen e.env hseen]
          exact hperm
      | true =>
        have hcalls : seenCalls tenantId (e :: es) = (e.call, e.env) :: seenCalls tenantId es := by
          unfold seenCalls
          rw [List.filter_cons_of_pos (by simpa using hseen), List.map_cons]
        rw [hcalls] at hsettles ⊢
        have hfirst : e.call.Settles := hsettles _ List.mem_cons_self
        have hrest : ∀ c ∈ seenCalls tenantId es, c.1.Settles :=
          fun c hc => hsettles c (List.mem_cons_of_mem _ hc)
        have haccepted' := changed_accepted e.call e.env hfirst haccepted
        have htenant : e.call.tenant?.isSome := by
          unfold isSeen at hseen
          cases hnone : e.call.tenant? with
          | none =>
            rw [hnone] at hseen
            cases hseen
          | some owner => rfl
        refine ih (h.written htenant happly ?_ haccepted') haccepted' hrest hcons
        intro configs hindexes hperm
        rw [visible_changed_of_seen e.env hindexes.keys hseen]
        exact changed_perm e.call e.env (hindexes.keys.sublist (List.filter_sublist.map keyOf)) hperm

end Runs

/-- A store whose snapshot indexes some configurations does so after a run. -/
theorem indexes_run {s s' : CustomProviderStore} {es : List Event}
    (h : ∃ configs, Indexes configs s.shared)
    (hrun : Run.run (step gw) (some s) es = some s') : ∃ configs, Indexes configs s'.shared := by
  let Live (s : Option CustomProviderStore) : Prop :=
    ∀ live, s = some live → ∃ configs, Indexes configs live.shared
  have hstep : ∀ s e, Live s → Live (step gw s e) := by
    intro s e hlive next hnext
    obtain ⟨live, rfl, happly⟩ := Option.bind_eq_some_iff.1 hnext
    obtain ⟨configs, hindexes⟩ := hlive live rfl
    cases hcall : e.call with
    | reload =>
      unfold CustomProviderStore.apply at happly
      rw [hcall] at happly
      cases hload : CustomProviderStore.load gw e.walks live.file with
      | error err =>
        rw [hload] at happly
        cases happly
      | ok loaded =>
        rw [hload] at happly
        obtain ⟨configs', -, hindexes', -⟩ := load_ok hload
        exact ⟨configs', Option.some_inj.1 happly ▸ hindexes'⟩
    | upsert owner raw | remove owner name =>
      obtain ⟨next', happly', hfollows⟩ := hindexes.apply gw e (by rw [hcall]; rfl)
      have hsame : next' = next := Option.some_inj.1 (happly'.symm.trans happly)
      subst hsame
      unfold Follows at hfollows
      cases hwritten : written gw e.call e.env configs with
      | none =>
        rw [hwritten] at hfollows
        exact ⟨configs, hfollows ▸ hindexes⟩
      | some configs' =>
        rw [hwritten] at hfollows
        exact ⟨configs', hfollows.1⟩
  have hlive : ∀ es s, Live s → Live (Run.run (step gw) s es) := by
    intro es
    induction es with
    | nil => exact fun _ hlive => hlive
    | cons e es ih => exact fun s hlive => ih _ (hstep s e hlive)
  have hfirst : Live (some s) := fun live heq => Option.some_inj.1 heq ▸ h
  exact hlive es (some s) hfirst s' hrun

/-! ## Isolation -/

/-- What a tenant is answered, and what it can change. -/
structure Isolated (gw : Gateway) (tenantId : String) : Prop where
  /-- The answers are a function of the tenant's own entries and the global ones. -/
  answers : ∀ walks walks' configs configs' reg reg',
    RuntimeProviders.build walks configs = .ok reg →
    RuntimeProviders.build walks' configs' = .ok reg' →
    (visible tenantId configs).Perm (visible tenantId configs') → SameAnswers tenantId reg reg'
  /-- Runs that agree on these entries at the start and on the calls that set them give the same
  answers, whatever the other tenants do and however often the gateway restarts. -/
  runs : ∀ walks walks' file file' s s' es es' last last',
    CustomProviderStore.load gw walks file = .ok s →
    CustomProviderStore.load gw walks' file' = .ok s' →
    (visible tenantId file).Perm (visible tenantId file') →
    (∀ raw ∈ visible tenantId file, Settles raw) →
    seenCalls tenantId es = seenCalls tenantId es' →
    (∀ c ∈ seenCalls tenantId es, c.1.Settles) →
    Run.run (step gw) (some s) es = some last → Run.run (step gw) (some s') es' = some last' →
    SameAnswers tenantId last.shared last'.shared
  /-- A call of the tenant changes no entry of another owner, and no global one. -/
  confined : ∀ walks file s es live e next,
    CustomProviderStore.load gw walks file = .ok s →
    Run.run (step gw) (some s) es = some live → e.call.tenant? = some tenantId →
    step gw (some live) e = some next → ∀ owner, owner ≠ tenantId ∨ owner = globalOwner → ∀ key,
      next.shared.byName.get (owner, key) = live.shared.byName.get (owner, key) ∧
      next.shared.modelIndex.get (owner, key) = live.shared.modelIndex.get (owner, key)

theorem tracks_load {walks : Walks} {file : List CustomProviderConfig} {s : CustomProviderStore}
    (h : CustomProviderStore.load gw walks file = .ok s)
    (hsettles : ∀ raw ∈ visible tenantId file, Settles raw) :
    ∃ view, Reads gw (visible tenantId file) view ∧ (∀ cfg ∈ view, Accepted gw cfg) ∧
      Tracks gw tenantId view s := by
  obtain ⟨configs, hreads, hindexes, hfile⟩ := load_ok h
  have hview : Reads gw (visible tenantId file) (visible tenantId configs) := hreads.visible
  refine ⟨_, hview, ?_, ⟨configs, hindexes, .refl _⟩, ⟨_, hfile ▸ hview, .refl _⟩⟩
  intro cfg hcfg
  obtain ⟨raw, hraw, hvalid⟩ := hview.exists_raw hcfg
  exact accepted_of_settles (hsettles raw hraw) hvalid

theorem Tracks.perm {view view' : List CustomProviderConfig} {s : CustomProviderStore}
    (h : Tracks gw tenantId view s) (hp : view.Perm view') : Tracks gw tenantId view' s := by
  obtain ⟨⟨configs, hindexes, hconfigs⟩, ⟨read, hread, hreadPerm⟩⟩ := h
  exact ⟨⟨configs, hindexes, hconfigs.trans hp⟩, ⟨read, hread, hreadPerm.trans hp⟩⟩

/-- What a call leaves as it was. -/
theorem confined_step {s s' : CustomProviderStore} {e : Event} (h : Indexes configs s.shared)
    (hcall : e.call.tenant? = some tenantId) (happly : s.apply gw e = some s') {owner : String}
    (howner : owner ≠ tenantId) (key : String) :
    s'.shared.byName.get (owner, key) = s.shared.byName.get (owner, key) ∧
      s'.shared.modelIndex.get (owner, key) = s.shared.modelIndex.get (owner, key) := by
  obtain ⟨s'', happly', hfollows⟩ := h.apply gw e (by rw [hcall]; rfl)
  have hsame : s'' = s' := Option.some_inj.1 (happly'.symm.trans happly)
  subst hsame
  have hrest : (changed gw e.call e.env configs).filter (fun cfg => ownerOf cfg == owner) =
      configs.filter fun cfg => ownerOf cfg == owner := by
    refine changed_filter_of_not e.call e.env ?_
    intro caller hcaller cfg hcfg
    rw [hcall, Option.some_inj] at hcaller
    rw [hcfg, ← hcaller]
    simpa using howner.symm
  unfold changed at hrest
  cases hwritten : written gw e.call e.env configs with
  | none =>
    rw [hwritten] at hfollows
    have hstore : s'' = s := hfollows
    rw [hstore]
    exact ⟨rfl, rfl⟩
  | some next =>
    rw [hwritten] at hfollows hrest
    have hmem : ∀ cfg, ownerOf cfg = owner → (cfg ∈ next ↔ cfg ∈ configs) := by
      intro cfg hcfg
      have hiff := congrArg (cfg ∈ ·) hrest
      simpa [hcfg] using hiff
    exact ⟨byName_congr hfollows.1 h hmem key, modelIndex_congr hfollows.1 h hmem key⟩

/-- **Custom providers are isolated by owner.** -/
theorem owners_isolated (gw : Gateway) (tenantId : String) (htenant : tenantId ≠ globalOwner) :
    Isolated gw tenantId where
  answers := by
    intro walks walks' configs configs' reg reg' hbuild hbuild' hv
    exact sameAnswers_of_visible (build_ok hbuild) (build_ok hbuild') hv
  runs := by
    intro walks walks' file file' s s' es es' last last' hload hload' hfiles hsettles hseen hcalls
      hrun hrun'
    have hsettles' : ∀ raw ∈ visible tenantId file', Settles raw :=
      fun raw hraw => hsettles raw (hfiles.symm.subset hraw)
    obtain ⟨view, hreads, haccepted, htracks⟩ := tracks_load hload hsettles
    obtain ⟨view', hreads', haccepted', htracks'⟩ := tracks_load hload' hsettles'
    -- both runs start from the same entries, up to their order
    obtain ⟨between, hbetween, hperm⟩ := List.perm_comp_forall₂ hfiles hreads'
    have hsame : view = between := hreads.unique hbetween
    have hstart : view'.Perm view := hsame ▸ hperm.symm
    have hlast := htracks.run haccepted hcalls hrun
    have hlast' := (htracks'.perm hstart).run haccepted (hseen ▸ hcalls) hrun'
    rw [← hseen] at hlast'
    obtain ⟨configs, hindexes, hview⟩ := hlast.live
    obtain ⟨configs', hindexes', hview'⟩ := hlast'.live
    exact sameAnswers_of_visible hindexes hindexes' (hview.trans hview'.symm)
  confined := by
    intro walks file s es live e next hload hrun hcall hstep owner howner key
    obtain ⟨configs₀, -, hindexes₀, -⟩ := load_ok hload
    obtain ⟨configs, hindexes⟩ := indexes_run ⟨configs₀, hindexes₀⟩ hrun
    have hne : owner ≠ tenantId := by
      rcases howner with hne | hglobal
      · exact hne
      · exact hglobal ▸ htenant.symm
    exact confined_step hindexes hcall hstep hne key

/-! ### A listing that another tenant's call reorders -/

/-- `url::Url::parse` on the base URLs below. -/
def knownUrls (url : String) : Option Url :=
  [("http://vllm.internal:8000", { scheme := "http", host := some "vllm.internal" }),
   ("http://own.internal:8000", { scheme := "http", host := some "own.internal" })].lookup url

def knownGateway : Gateway := ⟨knownUrls, ["openai"]⟩

def globalShared : CustomProviderConfig :=
  { name := "shared", baseUrl := "http://vllm.internal:8000", apiKey := "sk-GLOBAL",
    models := ["m1"] }

def ownShared (tenantId : String) : CustomProviderConfig :=
  { tenantId := some tenantId, name := "shared", baseUrl := "http://own.internal:8000",
    apiKey := "sk-OWN", models := ["m2"] }

/-- Another tenant sets a provider of its own. -/
def otherUpsert : Event := ⟨.upsert "t_b" (ownShared "t_b"), {}, ⟨.straight, .straight⟩⟩

theorem owners_isolated_known : ∃ s last last',
    CustomProviderStore.load knownGateway ⟨.straight, .straight⟩ [globalShared] = .ok s ∧
      Run.run (step knownGateway) (some s) [] = some last ∧
      Run.run (step knownGateway) (some s) [otherUpsert] = some last' ∧
      last'.shared.apiKey "t_b" "shared" = some "sk-OWN" ∧
      SameAnswers "t_a" last.shared last'.shared := by
  refine ⟨_, _, _, rfl, rfl, rfl, by decide, ?_⟩
  exact (owners_isolated knownGateway "t_a" (by decide)).runs ⟨.straight, .straight⟩
    ⟨.straight, .straight⟩ [globalShared] [globalShared] _ _ [] [otherUpsert] _ _ rfl rfl
    (.refl _) (by decide) rfl (by decide) rfl rfl

/-- The listing of a tenant with an entry that shares its name with a global one depends on the
order the snapshot is walked in, and with it on the calls of others. -/
theorem list_reordered : ∃ s last last',
    CustomProviderStore.load knownGateway ⟨.straight, .straight⟩ [globalShared, ownShared "t_a"] =
      .ok s ∧
      Run.run (step knownGateway) (some s) [] = some last ∧
      Run.run (step knownGateway) (some s) [otherUpsert] = some last' ∧
      otherUpsert.call.tenant? = some "t_b" ∧
      last.shared.list "t_a" ≠ last'.shared.list "t_a" :=
  ⟨_, _, _, rfl, rfl, rfl, rfl, by decide⟩

end Routeplane.Custom
