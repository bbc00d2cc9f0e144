import Routeplane.Auth.Registry

/-!
# Whom a key authenticates

The load keeps, for each key, the last record that has it, and the comparison with every key
of the registry finds what the map holds. So a record is found by its own key when no later
one has the same, and a text that is no record's key is found by nobody.

* `get_loaded`: what a key holds after the load.
* `lookup_eq_get`: the comparison finds it, in whatever order the keys are walked.
* `loaded_registry_faithful`: whom a request authenticates as.
-/

namespace Routeplane.Auth

open Fallible Limits

section Load

variable {keys : List KeyRecord} {m : Assoc String KeyRecord}

/-- The map the load folds the records into. -/
def foldKeys (keys : List KeyRecord) (m : Assoc String KeyRecord) : Assoc String KeyRecord :=
  keys.foldl (fun keys key => keys.insert key.routeplaneKey key) m

theorem distinct_foldKeys (keys : List KeyRecord) (hd : m.Distinct) : (foldKeys keys m).Distinct := by
  induction keys generalizing m with
  | nil => exact hd
  | cons record keys ih => exact ih (hd.insert record.routeplaneKey record)

/-- **A key holds the last record that has it.** -/
theorem get_foldKeys (keys : List KeyRecord) (m : Assoc String KeyRecord) (presented : String) :
    (foldKeys keys m).get presented =
      ((keys.filter fun record => record.routeplaneKey = presented).getLast?).or
        (m.get presented) := by
  induction keys generalizing m with
  | nil => rfl
  | cons record keys ih =>
    have hstep : foldKeys (record :: keys) m =
        foldKeys keys (m.insert record.routeplaneKey record) := rfl
    rw [hstep, ih]
    by_cases hkey : record.routeplaneKey = presented
    · have hfilter : (record :: keys).filter (fun r => r.routeplaneKey = presented) =
          record :: keys.filter fun r => r.routeplaneKey = presented :=
        List.filter_cons_of_pos (by simpa using hkey)
      rw [hfilter, List.getLast?_cons, ← hkey, Assoc.get_insert_self]
      cases (keys.filter fun r => r.routeplaneKey = record.routeplaneKey).getLast? <;> rfl
    · have hfilter : (record :: keys).filter (fun r => r.routeplaneKey = presented) =
          keys.filter fun r => r.routeplaneKey = presented :=
        List.filter_cons_of_neg (by simpa using hkey)
      rw [hfilter, Assoc.get_insert_of_ne (Ne.symm hkey)]

variable {fromStr : String → Except String KeyRegistry} {content origin : String}
  {registry : KeyRegistry} {state : AuthState}

theorem keys_of_loadFromJson (hdoc : fromStr content = .ok registry)
    (hload : AuthState.loadFromJson fromStr content origin = .ok state) :
    state.keys = foldKeys registry.keys [] := by
  unfold AuthState.loadFromJson at hload
  rw [hdoc] at hload
  obtain ⟨loaded, hloaded, hload⟩ := bind_eq_ok hload
  obtain ⟨_, -, hload⟩ := bind_eq_ok hload
  obtain rfl := Except.ok.inj hloaded
  rw [← Except.ok.inj hload]
  rfl

/-- **What a key holds after the load.** -/
theorem get_loaded (hdoc : fromStr content = .ok registry)
    (hload : AuthState.loadFromJson fromStr content origin = .ok state) (presented : String) :
    state.keys.get presented =
      (registry.keys.filter fun record => record.routeplaneKey = presented).getLast? := by
  rw [keys_of_loadFromJson hdoc hload, get_foldKeys, Assoc.get_nil, Option.or_none]

end Load

section Lookup

/-- The comparison with every entry finds what the key holds. -/
theorem foldl_compare {m : Assoc String KeyRecord} (hd : m.Distinct) (presented : String)
    (found : Option KeyRecord) :
    m.foldl (fun found e => if e.1 = presented then some e.2 else found) found =
      (m.get presented).or found := by
  induction m generalizing found with
  | nil => rfl
  | cons e m ih =>
    obtain ⟨hfree, hd'⟩ := List.nodup_cons.1 hd
    rw [List.foldl_cons, ih hd', Assoc.get_cons]
    by_cases hkey : e.1 = presented
    · -- no other entry has the key
      have hnone : Assoc.get m presented = none := by
        refine Assoc.get_eq_none_iff.2 fun val hmem => hfree ?_
        exact List.mem_map.2 ⟨_, hmem, hkey.symm⟩
      rw [if_pos hkey, if_pos hkey, hnone]
      rfl
    · rw [if_neg hkey, if_neg hkey]

/-- **In whatever order the keys are walked, the comparison finds what the key holds.** -/
theorem lookup_eq_get {state : AuthState} (hd : state.keys.Distinct)
    (walk : Assoc.Walk String KeyRecord) (presented : String) :
    state.lookupConstantTime walk presented = state.keys.get presented := by
  have hperm := walk.perm state.keys
  rw [AuthState.lookupConstantTime, foldl_compare (hd.perm hperm), Option.or_none]
  exact Assoc.get_perm hd hperm presented

end Lookup

/-! ## The key of a request -/

/-- A key that a header carries as it is: visible characters, none of them white space at an end, and
at least one. -/
structure Presentable (key : String) : Prop where
  visible : headerToStr key = some key
  trimmed : trimText key = key
  nonempty : key ≠ ""

/-- The key of a request that presents one text and no bearer token. -/
theorem resolve_native {native : Option String} :
    resolveGatewayCredential native none =
      (((native.map trimText).filter fun key => !key.isEmpty).map fun key => (key, .native),
        false) := by
  unfold resolveGatewayCredential
  cases (native.map trimText).filter fun key => !key.isEmpty with
  | none => rfl
  | some key => rfl

section Request

variable {state : AuthState} {walk : Assoc.Walk String KeyRecord}
  {bridge : Option ConsoleAuthBridge} {now : ℕ}

/-- A request with one key is that key's record, if its tenant is served. -/
theorem authMiddleware_native (native : Option String) :
    authMiddleware state walk .allow bridge now native none =
      (((((native.bind headerToStr).map trimText).filter fun key => !key.isEmpty).bind
        (state.lookupConstantTime walk)).elim .unauthorized fun record =>
          if record.lifecycleState.servesTraffic then .authenticated record .native
          else .unauthorized) := by
  have hnone : (none : Option String).bind headerToStr = none := rfl
  unfold authMiddleware
  simp only [hnone, resolve_native]
  cases ((native.bind headerToStr).map trimText).filter fun key => !key.isEmpty with
  | none => rfl
  | some key =>
    simp only [Option.map_some, Option.bind_some]
    cases state.lookupConstantTime walk key with
    | none => rfl
    | some record => rfl

theorem presented_key {key : String} (hkey : Presentable key) :
    ((((some key).bind headerToStr).map trimText).filter fun key => !key.isEmpty) = some key := by
  have hne : (!key.isEmpty) = true := by
    have h := hkey.nonempty
    simpa using h
  rw [Option.bind_some, hkey.visible, Option.map_some, hkey.trimmed, Option.filter_some, if_pos hne]

end Request

/-! ## Whom a request authenticates as -/

/-- Is the request served? -/
def AuthOutcome.Serves : AuthOutcome → Prop
  | .authenticated _ _ | .session _ _ => True
  | .unauthorized | .throttled _ => False

section Faithful

variable {fromStr : String → Except String KeyRegistry} {content origin : String}
  {registry : KeyRegistry} {state : AuthState}

/-- **A loaded registry is faithful.** A record whose key a header carries as it is, and which no
other record has, is whom a request with that key authenticates as, exactly when its tenant is active.
A request whose text is, without the white space around it, no record's key authenticates as nobody. -/
theorem loaded_registry_faithful (hdoc : fromStr content = .ok registry)
    (hload : AuthState.loadFromJson fromStr content origin = .ok state)
    (walk : Assoc.Walk String KeyRecord) (bridge : Option ConsoleAuthBridge) (now : ℕ) :
    (∀ record ∈ registry.keys, Presentable record.routeplaneKey →
      (∀ other ∈ registry.keys, other.routeplaneKey = record.routeplaneKey → other = record) →
      authMiddleware state walk .allow bridge now (some record.routeplaneKey) none =
        if record.lifecycleState.servesTraffic then .authenticated record .native
        else .unauthorized) ∧
    ∀ presented throttle,
      (trimText presented = "" ∨
        ∀ record ∈ registry.keys, record.routeplaneKey ≠ trimText presented) →
      ¬(authMiddleware state walk throttle bridge now (some presented) none).Serves := by
  have hd : state.keys.Distinct := by
    rw [keys_of_loadFromJson hdoc hload]
    exact distinct_foldKeys _ .nil
  refine ⟨fun record hrecord hkey huniq => ?_, fun presented throttle habsent => ?_⟩
  · have hget : state.keys.get record.routeplaneKey = some record := by
      rw [get_loaded hdoc hload]
      set same := registry.keys.filter fun r => r.routeplaneKey = record.routeplaneKey with hsame
      have hmem : record ∈ same := List.mem_filter.2 ⟨hrecord, by simp⟩
      have hne : same ≠ [] := List.ne_nil_of_mem hmem
      rw [List.getLast?_eq_getLast_of_ne_nil hne]
      have hlast := List.mem_filter.1 (List.getLast_mem hne)
      exact congrArg some (huniq _ hlast.1 (by simpa using hlast.2))
    rw [authMiddleware_native, presented_key hkey, Option.bind_some, lookup_eq_get hd, hget]
    rfl
  · cases throttle with
    | throttled secs => exact fun h => h
    | allow =>
      have hnobody : ∀ key, (((some presented).bind headerToStr).map trimText).filter
          (fun key => !key.isEmpty) = some key → state.lookupConstantTime walk key = none := by
        intro key hkey
        obtain ⟨hmap, hne⟩ := Option.filter_eq_some_iff.1 hkey
        obtain ⟨text, htext, rfl⟩ := Option.map_eq_some_iff.1 hmap
        have heq : text = presented := by
          rw [Option.bind_some, headerToStr] at htext
          split at htext
          · exact (Option.some.inj htext).symm
          · cases htext
        rw [heq] at hne ⊢
        have hnot := habsent.resolve_left (by simpa using hne)
        have hfilter : registry.keys.filter
            (fun record => record.routeplaneKey = trimText presented) = [] :=
          List.filter_eq_nil_iff.2 fun record hrecord => by simpa using hnot record hrecord
        rw [lookup_eq_get hd, get_loaded hdoc hload, hfilter]
        rfl
      rw [authMiddleware_native]
      cases hcase : (((some presented).bind headerToStr).map trimText).filter
          fun key => !key.isEmpty with
      | none => exact fun h => h
      | some key =>
        rw [Option.bind_some, hnobody key hcase]
        exact fun h => h

end Faithful

/-! ## A tenant that is suspended, a text with a blank -/

/-- A record with a key and the state of its tenant. -/
def recordOf (key : String) (lifecycleState : TenantState) : KeyRecord where
  routeplaneKey := key
  lifecycleState := lifecycleState
  virtualKey := { name := key, providerKeys := [] }

/-- One active tenant and one that is suspended. -/
def twoTenants : KeyRegistry := ⟨[recordOf "rp_a" .active, recordOf "rp_s" .suspended]⟩

/-- The active one is found by its key. -/
theorem loaded_registry_faithful_active :
    authMiddleware ⟨foldKeys twoTenants.keys []⟩ .straight .allow none 0 (some "rp_a") none =
      .authenticated (recordOf "rp_a" .active) .native := by
  have hload : AuthState.loadFromJson (fun _ => .ok twoTenants) "" "" =
      .ok ⟨foldKeys twoTenants.keys []⟩ := rfl
  exact (loaded_registry_faithful rfl hload .straight none 0).1 (recordOf "rp_a" .active)
    (by decide) ⟨by decide, by decide, by decide⟩ (by decide)

/-- **A record's key is refused while its tenant is suspended, and a text that is no record's key is
taken for the key in it.** -/
theorem suspended_refused_padded_accepted :
    recordOf "rp_s" .suspended ∈ twoTenants.keys ∧
      authMiddleware ⟨foldKeys twoTenants.keys []⟩ .straight .allow none 0 (some "rp_s") none =
        .unauthorized ∧
      (∀ record ∈ twoTenants.keys, record.routeplaneKey ≠ "rp_a ") ∧
      authMiddleware ⟨foldKeys twoTenants.keys []⟩ .straight .allow none 0 (some "rp_a ") none =
        .authenticated (recordOf "rp_a" .active) .native := by
  decide

end Routeplane.Auth
