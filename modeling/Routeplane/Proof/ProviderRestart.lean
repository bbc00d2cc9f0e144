import Routeplane.Proof.OwnerIsolation

/-!
# A restart changes nothing for custom providers

The file is validated again at a start, so what was stored must be left as it is by a second
validation. White space is trimmed once and the slashes after it once, and in that order: a base URL
with white space right before its last slashes is stored with white space at its end, which the next
start trims.

* `settles_iff`: the base URLs that are left as they are.
* `Restartable.step`: a restart answers the same after a call, when it did before.
* `restarts_unchanged_iff`: which configurations a restart leaves as they are.
-/

namespace Routeplane.Custom

open Fallible (bind_eq_ok of_toOption)

variable {gw : Gateway} {configs : List CustomProviderConfig} {s : CustomProviderStore}

/-! ## Base URLs -/

/-- White space stands right before the slashes the trimmed URL ends in. -/
def SpaceBeforeSlashes (baseUrl : String) : Prop :=
  ∃ front c slashes, (trimText baseUrl).toList = front ++ c :: slashes ∧ isTrimmed c = true ∧
    ∀ d ∈ slashes, d = '/'

/-- Text that begins with no white space is trimmed at its end only. -/
theorem trimChars_of_prefix {cs t : List Char} (h : cs <+: trimChars t) :
    trimChars cs = cs.rdropWhile isTrimmed := by
  have hhead : cs.dropWhile isTrimmed = cs := by
    rw [List.dropWhile_eq_self_iff]
    intro hpos
    have hfirst := List.dropWhile_eq_self_iff.1 (dropWhile_trimChars t)
    rw [h.getElem hpos]
    exact hfirst (lt_of_lt_of_le hpos h.length_le)
  unfold trimChars
  rw [hhead]
  rfl

/-- Slashes are dropped up to a character that is none. -/
theorem rdropWhile_slashes {front slashes : List Char} {c : Char} (hc : (c == '/') = false)
    (hslashes : ∀ d ∈ slashes, d = '/') :
    (front ++ c :: slashes).rdropWhile (· == '/') = front ++ [c] := by
  have hall : ∀ d ∈ slashes.reverse, (d == '/') = true :=
    fun d hd => beq_iff_eq.2 (hslashes d (List.mem_reverse.1 hd))
  have hsplit : front ++ c :: slashes = (front ++ [c]) ++ slashes := by simp
  rw [hsplit, List.rdropWhile, List.reverse_append, List.dropWhile_append_of_pos hall,
    List.reverse_append]
  simp [hc]

/-- **A base URL is left as it is unless white space stands before its last slashes.** -/
theorem settles_iff (raw : CustomProviderConfig) : Settles raw ↔ ¬SpaceBeforeSlashes raw.baseUrl := by
  set t := trimChars raw.baseUrl.toList with ht
  set kept := t.rdropWhile (· == '/') with hkept
  have hprefix : kept <+: t := List.rdropWhile_prefix _ _
  have hnormal : normalizeBaseUrl raw.baseUrl = String.ofList kept := by
    unfold normalizeBaseUrl trimEndSlashes trimText
    rw [String.toList_ofList]
  have hagain : normalizeBaseUrl (String.ofList kept) =
      String.ofList ((kept.rdropWhile isTrimmed).rdropWhile (· == '/')) := by
    unfold normalizeBaseUrl trimEndSlashes trimText
    rw [String.toList_ofList, String.toList_ofList, trimChars_of_prefix hprefix]
  have hsettles : Settles raw ↔ (kept.rdropWhile isTrimmed).rdropWhile (· == '/') = kept := by
    unfold Settles IsSettled
    rw [hnormal, hagain, String.ofList_inj]
  have htext : (trimText raw.baseUrl).toList = t := String.toList_ofList
  unfold SpaceBeforeSlashes
  rw [hsettles, htext]
  constructor
  · rintro hsame ⟨front, c, slashes, heq, hspace, hslashes⟩
    -- what is kept ends in that white space, which is dropped
    have hc : (c == '/') = false := by
      rw [beq_eq_false_iff_ne]
      rintro rfl
      exact absurd hspace (by decide)
    have hends : kept = front ++ [c] := by
      rw [hkept, heq]
      exact rdropWhile_slashes hc hslashes
    have hshorter : (kept.rdropWhile isTrimmed).length ≤ front.length := by
      rw [hends, List.rdropWhile_concat_pos _ _ _ hspace]
      exact (List.rdropWhile_prefix _ _).length_le
    have hlength := congrArg List.length hsame
    have hdropped := (List.rdropWhile_prefix (· == '/') (kept.rdropWhile isTrimmed)).length_le
    have hkeptLength : kept.length = front.length + 1 := by
      rw [hends, List.length_append, List.length_singleton]
    omega
  · intro hno
    have hspace : kept.rdropWhile isTrimmed = kept := by
      rw [List.rdropWhile_eq_self_iff]
      intro hne hlast
      refine hno ⟨kept.dropLast, kept.getLast hne, t.rtakeWhile (· == '/'), ?_, hlast, ?_⟩
      · have hkeptSplit : kept.dropLast ++ [kept.getLast hne] = kept := List.dropLast_append_getLast hne
        rw [List.append_cons, hkeptSplit, hkept]
        exact List.rdropWhile_append_rtakeWhile.symm
      · intro d hd
        have hslash := List.mem_rtakeWhile_imp hd
        exact beq_iff_eq.1 hslash
    rw [hspace, hkept]
    exact List.rdropWhile_idempotent _ _

/-- A second validation changes nothing. -/
theorem validated_again_iff {raw cfg : CustomProviderConfig}
    (h : validateAndNormalize gw.parseUrl raw = .ok cfg) :
    validateAndNormalize gw.parseUrl cfg = .ok cfg ↔ ¬SpaceBeforeSlashes raw.baseUrl := by
  rw [← settles_iff]
  constructor
  · intro hagain
    have hfixed : cfg.baseUrl = normalizeBaseUrl cfg.baseUrl := validateAndNormalize_baseUrl hagain
    unfold Settles IsSettled
    rw [← validateAndNormalize_baseUrl h]
    exact hfixed.symm
  · exact fun hsettles => accepted_of_settles hsettles h

/-! ## Starts -/

/-- Every lookup of every tenant is answered the same. -/
structure SameLookups (reg reg' : RuntimeProviders) : Prop where
  /-- The whole entry: base URL, key, models, creation stamp. -/
  entryFor : ∀ tenantId name, reg.entryFor tenantId name = reg'.entryFor tenantId name
  answers : ∀ tenantId, SameAnswers tenantId reg reg'

/-- A start on the file succeeds and answers as the live registry does. -/
def RestartUnchanged (gw : Gateway) (s : CustomProviderStore) : Prop :=
  ∀ walks, ∃ s', CustomProviderStore.load gw walks s.file = .ok s' ∧ SameLookups s.shared s'.shared

theorem sameLookups_of_perm {configs' : List CustomProviderConfig} {reg reg' : RuntimeProviders}
    (h : Indexes configs reg) (h' : Indexes configs' reg') (hp : configs.Perm configs') :
    SameLookups reg reg' where
  entryFor := by
    intro tenantId name
    unfold RuntimeProviders.entryFor
    have hsame : ∀ owner, reg.byName.get (owner, name) = reg'.byName.get (owner, name) :=
      fun owner => byName_congr h h' (fun cfg _ => hp.mem_iff) name
    rw [hsame, hsame]
  answers := fun tenantId => sameAnswers_of_visible h h' (hp.filter _)

/-- By induction on the entries. -/
theorem mapM_of_reads {file read : List CustomProviderConfig} (h : Reads gw file read) :
    (file.mapM fun cfg => (validateAndNormalize gw.parseUrl cfg).mapError invalidEntry) =
      .ok read := by
  induction h with
  | nil => rfl
  | cons hvalid hrest ih =>
    rw [List.mapM_cons, hvalid, ih]
    rfl

theorem load_of_reads {file read : List CustomProviderConfig} (h : Reads gw file read)
    (hkeys : (read.map keyOf).Nodup) (walks : Walks) :
    ∃ s', CustomProviderStore.load gw walks file = .ok s' ∧ Indexes read s'.shared := by
  obtain ⟨reg, hbuild⟩ := exists_build walks hkeys
  refine ⟨⟨reg, file⟩, ?_, build_ok hbuild⟩
  unfold CustomProviderStore.load
  rw [mapM_of_reads h]
  show (RuntimeProviders.build walks read >>= _) = _
  rw [hbuild]
  rfl

/-- The live entries are left as they are by the validation, and the file is read as them. -/
structure Restartable (gw : Gateway) (configs : List CustomProviderConfig) (s : CustomProviderStore) :
    Prop where
  live : Indexes configs s.shared
  accepted : ∀ cfg ∈ configs, Accepted gw cfg
  file : ∃ read, Reads gw s.file read ∧ read.Perm configs

theorem Restartable.load (h : Restartable gw configs s) (walks : Walks) :
    ∃ s', CustomProviderStore.load gw walks s.file = .ok s' ∧ Restartable gw configs s' ∧
      SameLookups s.shared s'.shared := by
  obtain ⟨read, hreads, hperm⟩ := h.file
  have hkeys : (read.map keyOf).Nodup := (hperm.map keyOf).nodup_iff.2 h.live.keys
  obtain ⟨s', hload, hindexes⟩ := load_of_reads hreads hkeys walks
  obtain ⟨_, -, -, hfile⟩ := load_ok hload
  refine ⟨s', hload, ⟨hindexes.perm hperm, h.accepted, read, hfile ▸ hreads, hperm⟩, ?_⟩
  exact sameLookups_of_perm h.live hindexes hperm.symm

theorem Restartable.unchanged (h : Restartable gw configs s) : RestartUnchanged gw s := by
  intro walks
  obtain ⟨s', hload, -, hsame⟩ := h.load walks
  exact ⟨s', hload, hsame⟩

/-- The upserts of a run are of base URLs that are left as they are. -/
def Call.Plain : Call → Prop
  | upsert _ raw => ¬SpaceBeforeSlashes raw.baseUrl
  | remove _ _ | reload => True

theorem Call.Plain.settles {call : Call} (h : call.Plain) : call.Settles := by
  cases call with
  | upsert tenantId raw => exact (settles_iff raw).2 h
  | remove tenantId name => trivial
  | reload => trivial

/-- **A call leaves a gateway that a restart does not change.** -/
theorem Restartable.step (h : Restartable gw configs s) {e : Event} (he : e.call.Plain) :
    ∃ s' configs', s.apply gw e = some s' ∧ Restartable gw configs' s' := by
  cases htenant : e.call.tenant? with
  | none =>
    obtain ⟨call, env, walks⟩ := e
    cases call with
    | upsert tenantId raw => cases htenant
    | remove tenantId name => cases htenant
    | reload =>
      obtain ⟨s', hload, hnext, -⟩ := h.load walks
      refine ⟨s', configs, ?_, hnext⟩
      unfold CustomProviderStore.apply
      dsimp only
      rw [hload]
      rfl
  | some owner =>
    obtain ⟨s', happly, hfollows⟩ := h.live.apply gw e (by rw [htenant]; rfl)
    have haccepted := changed_accepted e.call e.env he.settles h.accepted
    unfold changed at haccepted
    cases hwritten : written gw e.call e.env configs with
    | none =>
      rw [hwritten] at hfollows
      have hsame : s' = s := hfollows
      exact ⟨s', configs, happly, hsame ▸ h⟩
    | some next =>
      rw [hwritten] at hfollows haccepted
      obtain ⟨hindexes, hfile⟩ := hfollows
      have hread : Reads gw s'.file s'.file := Reads.refl fun cfg hcfg =>
        haccepted cfg (hfile.subset hcfg)
      exact ⟨s', next, happly, hindexes, haccepted, s'.file, hread, hfile⟩

/-- By induction on the events. -/
theorem Restartable.run {es : List Event} (h : Restartable gw configs s)
    (hes : ∀ e ∈ es, e.call.Plain) :
    ∃ last configs', Run.run (Custom.step gw) (some s) es = some last ∧
      Restartable gw configs' last := by
  induction es generalizing s configs with
  | nil => exact ⟨s, configs, rfl, h⟩
  | cons e es ih =>
    obtain ⟨next, configs', happly, hnext⟩ := h.step (hes e List.mem_cons_self)
    obtain ⟨last, configs'', hrun, hlast⟩ := ih hnext fun e' he' => hes e' (List.mem_cons_of_mem _ he')
    refine ⟨last, configs'', ?_, hlast⟩
    show Run.run (Custom.step gw) (s.apply gw e) es = some last
    rw [happly]
    exact hrun

theorem restartable_load {walks : Walks} {file : List CustomProviderConfig}
    (h : CustomProviderStore.load gw walks file = .ok s)
    (hfile : ∀ raw ∈ file, ¬SpaceBeforeSlashes raw.baseUrl) : ∃ configs, Restartable gw configs s := by
  obtain ⟨configs, hreads, hindexes, hsame⟩ := load_ok h
  refine ⟨configs, hindexes, ?_, configs, hsame ▸ hreads, .refl _⟩
  intro cfg hcfg
  obtain ⟨raw, hraw, hvalid⟩ := hreads.exists_raw hcfg
  exact accepted_of_settles ((settles_iff raw).2 (hfile raw hraw)) hvalid

/-! ## Upserts that a restart changes -/

/-- What a start reads of an entry of the file. -/
theorem Reads.exists_read {file read : List CustomProviderConfig} (h : Reads gw file read)
    {raw : CustomProviderConfig} (hraw : raw ∈ file) :
    ∃ cfg ∈ read, validateAndNormalize gw.parseUrl raw = .ok cfg := by
  induction h with
  | nil => cases hraw
  | @cons first cfg file read hvalid hrest ih =>
    rcases List.mem_cons.1 hraw with rfl | hraw
    · exact ⟨cfg, List.mem_cons_self, hvalid⟩
    · obtain ⟨cfg', hcfg', hvalid'⟩ := ih hraw
      exact ⟨cfg', List.mem_cons_of_mem _ hcfg', hvalid'⟩

/-- An owner's entry is found before the operator's. -/
theorem entryFor_of_mem {reg : RuntimeProviders} (h : Indexes configs reg)
    {cfg : CustomProviderConfig} (hcfg : cfg ∈ configs) :
    reg.entryFor (ownerOf cfg) cfg.name = some (entryOf cfg) := by
  have hget : reg.byName.get (keyOf cfg) = some (entryOf cfg) :=
    (h.entry (keyOf cfg) (entryOf cfg)).2 ⟨cfg, hcfg, rfl, rfl⟩
  unfold RuntimeProviders.entryFor
  unfold keyOf at hget
  rw [hget]
  rfl

/-- A restart that changes nothing leaves each entry's base URL as it is. -/
theorem settled_of_unchanged (h : RestartUnchanged gw s) (hlive : Indexes configs s.shared)
    (hfile : s.file = configs) {cfg : CustomProviderConfig} (hcfg : cfg ∈ configs)
    (hname : validateName cfg.name = .ok cfg.name) : IsSettled cfg.baseUrl := by
  obtain ⟨s', hload, hsame⟩ := h ⟨.straight, .straight⟩
  obtain ⟨configs', hreads, hindexes, -⟩ := load_ok hload
  obtain ⟨cfg', hcfg', hvalid⟩ := hreads.exists_read (hfile ▸ hcfg)
  have hname' : cfg'.name = cfg.name := by
    obtain ⟨name, _, _, hname', -, -, -, rfl⟩ := validateAndNormalize_parts hvalid
    exact Except.ok.inj (hname'.symm.trans hname)
  have howner : ownerOf cfg' = ownerOf cfg :=
    congrArg (Option.getD · globalOwner) (validateAndNormalize_tenantId hvalid)
  have hentry := hsame.entryFor (ownerOf cfg) cfg.name
  rw [entryFor_of_mem hlive hcfg, ← howner, ← hname', entryFor_of_mem hindexes hcfg'] at hentry
  have hurl : cfg.baseUrl = cfg'.baseUrl :=
    congrArg (fun entry => entry.config.baseUrl) (Option.some_inj.1 hentry)
  unfold IsSettled
  rw [← validateAndNormalize_baseUrl hvalid, ← hurl]

/-- What a saved upsert stores. -/
theorem stored_of_upsertProvider {walks : Walks} {env : Surroundings} {tenantId : String}
    {raw : CustomProviderConfig} {next : CustomProviderStore} {view : ProviderView} {created : Bool}
    (h : upsertProvider gw walks env s tenantId raw = .ok (next, view, created))
    (hlive : Indexes configs s.shared) :
    Indexes next.file next.shared ∧ ∃ cfg createdAt,
      validateAndNormalize gw.parseUrl raw = .ok cfg ∧
      { cfg with tenantId := some tenantId, createdAt } ∈ next.file := by
  have hsorted := hlive.configsSorted_perm
  have hkeys : (s.shared.configsSorted.map keyOf).Nodup := (hsorted.map keyOf).nodup_iff.2 hlive.keys
  have hsaved : (upsertProvider gw walks env s tenantId raw).toOption =
      some (next, view, created) := congrArg Except.toOption h
  rw [upsertProvider_toOption] at hsaved
  obtain ⟨cfg, hadmitted, hupsert⟩ := Option.bind_eq_some_iff.1 hsaved
  obtain ⟨hvalid, -⟩ := Option.filter_eq_some_iff.1 hadmitted
  set configs' := (upserted tenantId env.now cfg s.shared.configsSorted).1 with hconfigs'
  have hnext : CustomProviderStore.persistAndSwap walks env.io configs' = .ok next := by
    refine of_toOption ?_
    rw [hconfigs', ← upsert_toOption, hupsert, Option.map_some]
  unfold CustomProviderStore.persistAndSwap at hnext
  obtain ⟨reg, hbuild, hnext⟩ := bind_eq_ok hnext
  obtain ⟨_, -, hnext⟩ := bind_eq_ok hnext
  have hstore : next = ⟨reg, configs'⟩ := (Except.ok.inj hnext).symm
  subst hstore
  have hmem : (setOwn tenantId env.now cfg s.shared.configsSorted).head (List.cons_ne_nil _ _) ∈
      configs' := (upserted_perm tenantId env.now cfg hkeys).symm.subset List.mem_cons_self
  exact ⟨build_ok hbuild, cfg, _, of_toOption hvalid, hmem⟩

/-! ## Restarts -/

/-- A restart changes nothing for the base URLs that are left as they are, and for no others. -/
structure RestartsUnchanged (gw : Gateway) : Prop where
  /-- The validation accepts what it accepted and leaves it as it is. -/
  again : ∀ raw cfg, validateAndNormalize gw.parseUrl raw = .ok cfg →
    (validateAndNormalize gw.parseUrl cfg = .ok cfg ↔ ¬SpaceBeforeSlashes raw.baseUrl)
  /-- After every run. -/
  runs : ∀ walks file s es, CustomProviderStore.load gw walks file = .ok s →
    (∀ raw ∈ file, ¬SpaceBeforeSlashes raw.baseUrl) → (∀ e ∈ es, e.call.Plain) →
    ∃ last, Run.run (step gw) (some s) es = some last ∧ RestartUnchanged gw last
  /-- After such a run and one upsert that is saved. -/
  upserts : ∀ walks file s es live (e : Event) tenantId raw next view created,
    CustomProviderStore.load gw walks file = .ok s →
    (∀ raw ∈ file, ¬SpaceBeforeSlashes raw.baseUrl) → (∀ e ∈ es, e.call.Plain) →
    Run.run (step gw) (some s) es = some live → e.call = .upsert tenantId raw →
    upsertProvider gw e.walks e.env live tenantId raw = .ok (next, view, created) →
    (RestartUnchanged gw next ↔ ¬SpaceBeforeSlashes raw.baseUrl)

/-- **Which configurations a restart leaves as they are.** -/
theorem restarts_unchanged_iff (gw : Gateway) : RestartsUnchanged gw where
  again := fun _ _ hvalid => validated_again_iff hvalid
  runs := by
    intro walks file s es hload hfile hes
    obtain ⟨configs, hstart⟩ := restartable_load hload hfile
    obtain ⟨last, configs', hrun, hlast⟩ := hstart.run hes
    exact ⟨last, hrun, hlast.unchanged⟩
  upserts := by
    intro walks file s es live e tenantId raw next view created hload hfile hes hrun hcall hsaved
    obtain ⟨configs₀, hstart⟩ := restartable_load hload hfile
    obtain ⟨last, configs, hrun', hlast⟩ := hstart.run hes
    have hsame : last = live := Option.some_inj.1 (hrun'.symm.trans hrun)
    subst hsame
    constructor
    · intro hunchanged
      obtain ⟨hindexes, cfg, createdAt, hvalid, hmem⟩ := stored_of_upsertProvider hsaved hlast.live
      obtain ⟨name, _, _, hname, -, -, -, hcfg⟩ := validateAndNormalize_parts hvalid
      have hname' : validateName cfg.name = .ok cfg.name := by
        rw [hcfg]
        exact validateName_ok hname
      have hsettled := settled_of_unchanged hunchanged hindexes rfl hmem hname'
      rw [← settles_iff]
      unfold Settles
      rw [← validateAndNormalize_baseUrl hvalid]
      exact hsettled
    · intro hplain
      have hcallPlain : e.call.Plain := hcall ▸ hplain
      obtain ⟨next', configs', happly, hnext⟩ := hlast.step hcallPlain
      unfold CustomProviderStore.apply at happly
      rw [hcall] at happly
      dsimp only at happly
      rw [hsaved] at happly
      have hsame : next = next' := Option.some_inj.1 happly
      exact hsame ▸ hnext.unchanged

/-! ### A base URL that a restart changes -/

/-- `url::Url::parse` on the base URLs below; it strips the white space at the ends. -/
def spacedUrls (url : String) : Option Url :=
  [("http://vllm.internal/v1 ", { scheme := "http", host := some "vllm.internal" }),
   ("http://vllm.internal/v1", { scheme := "http", host := some "vllm.internal" })].lookup url

def spacedGateway : Gateway := ⟨spacedUrls, ["openai"]⟩

def spaced (baseUrl : String) : CustomProviderConfig :=
  { name := "vllm", baseUrl, apiKey := "sk-OWN", models := ["m1"] }

def spacedUpsert : Event :=
  ⟨.upsert "t_a" (spaced "http://vllm.internal/v1 /"), {}, ⟨.straight, .straight⟩⟩

/-- The space before the last slash is stored, and dropped at the next start. -/
theorem spaced_url_changed :
    validateAndNormalize spacedUrls (spaced "http://vllm.internal/v1 /") =
        .ok (spaced "http://vllm.internal/v1 ") ∧
      validateAndNormalize spacedUrls (spaced "http://vllm.internal/v1 ") =
        .ok (spaced "http://vllm.internal/v1") ∧
      ∃ live s', Run.run (step spacedGateway) (some {}) [spacedUpsert] = some live ∧
        CustomProviderStore.load spacedGateway ⟨.straight, .straight⟩ live.file = .ok s' ∧
        (live.shared.entryFor "t_a" "vllm").map (·.config.baseUrl) =
          some "http://vllm.internal/v1 " ∧
        (s'.shared.entryFor "t_a" "vllm").map (·.config.baseUrl) =
          some "http://vllm.internal/v1" :=
  ⟨by decide, by decide, _, _, rfl, rfl, by decide, by decide⟩

end Routeplane.Custom
