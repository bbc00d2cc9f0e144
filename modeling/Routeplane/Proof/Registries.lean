import Routeplane.Proof.Durable
import Routeplane.Proof.OwnerIsolation
import Routeplane.Proof.ProviderStore
import Routeplane.Storage.Accounts

/-!
# The two persisted registries

The custom providers and the console accounts as registries of one kind: what their calls plan, what
a start reads, and that neither touches another entry.

* `accounts_lawful`, `providers_lawful`: what the calls and the starts do to the entries.
* `registries_durable`: changes of either registry are atomic and durable.
-/

namespace Routeplane.Storage

open FirstMatch
open Fallible (bind_eq_ok)

/-! ## Accounts -/

section Accounts

variable {accounts : List ConsoleAccount} {s next : Accounts}

/-- A snapshot holds these accounts by their emails. -/
structure Keeps (accounts : List ConsoleAccount) (s : Accounts) : Prop where
  emails : s.byEmail.Distinct
  entries : s.byEmail.Perm (accounts.map fun account => (account.email, account))

theorem addAccount_ok {byEmail byEmail' : Assoc String ConsoleAccount} {account : ConsoleAccount}
    (h : Accounts.addAccount byEmail account = .ok byEmail') :
    byEmail.get account.email = none ∧ byEmail' = (account.email, account) :: byEmail := by
  unfold Accounts.addAccount at h
  split at h
  · cases h
  split at h
  · cases h
  split at h
  · cases h
  case isFalse htaken =>
    have hfree : byEmail.get account.email = none := by simpa using htaken
    rw [Assoc.insert_of_free hfree] at h
    exact ⟨hfree, (Except.ok.inj h).symm⟩

theorem build_keeps (h : Accounts.build accounts = .ok s) : Keeps accounts s := by
  unfold Accounts.build at h
  obtain ⟨byEmail, hfold, h⟩ := bind_eq_ok h
  let entry : ConsoleAccount → String × ConsoleAccount := fun account => (account.email, account)
  have hadd : ∀ m account m', Accounts.addAccount m account = .ok m' →
      Assoc.get m (entry account).1 = none ∧ m' = entry account :: m :=
    fun _ _ _ hadd => addAccount_ok hadd
  obtain ⟨heq, hd⟩ := Assoc.foldlM_fresh hadd Assoc.Distinct.nil hfold
  rw [List.append_nil] at heq
  rw [← Except.ok.inj h]
  refine ⟨hd, ?_⟩
  dsimp only
  rw [heq]
  exact List.reverse_perm _

theorem Keeps.find (h : Keeps accounts s) (email : String) (account : ConsoleAccount) :
    s.find email = some account ↔ account ∈ accounts ∧ account.email = email := by
  unfold Accounts.find
  rw [Assoc.get_eq_some_iff h.emails, h.entries.mem_iff, List.mem_map]
  constructor
  · rintro ⟨other, hother, heq⟩
    obtain ⟨rfl, rfl⟩ := Prod.mk.inj heq
    exact ⟨hother, rfl⟩
  · rintro ⟨hmem, rfl⟩
    exact ⟨account, hmem, rfl⟩

theorem Keeps.sorted_perm (h : Keeps accounts s) : s.sorted.Perm accounts := by
  have hmap := h.entries.map (·.2)
  rw [List.map_map] at hmap
  have hid : accounts.map ((·.2) ∘ fun account => (account.email, account)) = accounts :=
    List.map_id _
  rw [hid] at hmap
  exact (List.perm_insertionSort _ _).trans hmap

/-- An account that is in both lists, or in neither, is found in both or in neither. -/
theorem Keeps.find_congr {accounts' : List ConsoleAccount} {s' : Accounts} (h : Keeps accounts s)
    (h' : Keeps accounts' s') {email : String}
    (hsame : ∀ account, account.email = email → (account ∈ accounts ↔ account ∈ accounts')) :
    s.find email = s'.find email := by
  refine Option.ext fun account => ?_
  rw [h.find, h'.find]
  exact and_congr_left fun hemail => hsame account hemail

/-- A call writes a snapshot of accounts that differ in its own only. -/
theorem AccountCall.plan_ok {call : AccountCall} {file : List ConsoleAccount}
    (h : call.plan s = some (next, file)) :
    Accounts.build file = .ok next ∧
      ∀ account, account.email ≠ call.email → (account ∈ file ↔ account ∈ s.sorted) := by
  have hbuilt : ∀ accounts : List ConsoleAccount,
      (Accounts.build accounts).toOption.map (fun next => (next, accounts)) = some (next, file) →
      Accounts.build file = .ok next ∧ file = accounts := by
    intro accounts hmap
    obtain ⟨built, hbuild, heq⟩ := Option.map_eq_some_iff.1 hmap
    obtain ⟨rfl, rfl⟩ := Prod.mk.inj heq
    exact ⟨Fallible.of_toOption hbuild, rfl⟩
  cases call with
  | create email passwordHash now =>
    unfold AccountCall.plan at h
    dsimp only at h
    split at h
    · cases h
    obtain ⟨hbuild, hfile⟩ := hbuilt _ h
    refine ⟨hbuild, ?_⟩
    intro account hemail
    have hne : account ≠ ⟨email, passwordHash, some now, 0⟩ := by
      rintro rfl
      exact hemail rfl
    rw [hfile, List.mem_insertionSort, List.mem_append, List.mem_singleton, or_iff_left hne]
  | bumpSessionVersion email =>
    unfold AccountCall.plan at h
    obtain ⟨found, hfind, h⟩ := Option.bind_eq_some_iff.1 h
    obtain ⟨hbuild, hfile⟩ := hbuilt _ h
    refine ⟨hbuild, ?_⟩
    intro account hemail
    have hfound := List.find?_some hfind
    have hno : decide (account.email = email) = false := decide_eq_false hemail
    rw [hfile]
    exact mem_replaceFirst_of_not hno hfound

theorem accounts_lawful {json : Json (List ConsoleAccount)} (hjson : json.Sound) :
    Lawful (accountRegistry json) Accounts.find Eq fun s => ∃ accounts, Keeps accounts s where
  load_good := by
    intro boot target live hload
    cases target with
    | none =>
      have hempty : ({} : Accounts) = live := Option.some_inj.1 hload
      exact ⟨[], hempty ▸ build_keeps rfl⟩
    | some bytes =>
      have hread : (json.fromFile bytes >>= Accounts.build).toOption = some live := hload
      obtain ⟨accounts, -, hbuild⟩ := bind_eq_ok (Fallible.of_toOption hread)
      exact ⟨accounts, build_keeps hbuild⟩
  plan_good := by
    intro call live next file _ hplan
    exact ⟨file, build_keeps (AccountCall.plan_ok hplan).1⟩
  frame := by
    rintro call live next file ⟨accounts, hkeeps⟩ hplan key hne
    obtain ⟨hbuild, hothers⟩ := AccountCall.plan_ok hplan
    refine (build_keeps hbuild).find_congr hkeeps ?_
    rintro account rfl
    rw [hothers account hne, hkeeps.sorted_perm.mem_iff]
  reload := by
    intro call live next file boot again _ hplan hload key
    have hbuild := (AccountCall.plan_ok hplan).1
    have hread : (json.fromFile (json.toVecPretty file) >>= Accounts.build).toOption = some again :=
      hload
    obtain ⟨file', hfile, hbuilt⟩ := bind_eq_ok (Fallible.of_toOption hread)
    rw [hjson file file' hfile, hbuild] at hbuilt
    rw [Except.ok.inj hbuilt]
  load_load := by
    intro boot boot' target live again hload hload' key
    rw [Option.some_inj.1 (hload.symm.trans hload')]
  refl := fun _ => rfl
  trans := fun _ _ _ => Eq.trans

end Accounts

/-! ## Custom providers -/

section Providers

open Custom

variable {gw : Gateway} {configs : List CustomProviderConfig} {s next : RuntimeProviders}

/-- A configuration the handler has validated. -/
abbrev Validated (gw : Gateway) :=
  { cfg : CustomProviderConfig // ∃ raw, validateAndNormalize gw.parseUrl raw = .ok cfg }

inductive ProviderCall (gw : Gateway)
  | upsert (walks : Walks) (tenantId now : String) (cfg : Validated gw)
  | remove (walks : Walks) (tenantId name : String)

def ProviderCall.key : ProviderCall gw → OwnedKey
  | upsert _ tenantId _ cfg => (tenantId, cfg.1.name)
  | remove _ tenantId name => (tenantId, name)

/-- The next snapshot and its configurations, as the store makes them when the write succeeds. -/
def ProviderCall.plan (call : ProviderCall gw) (live : RuntimeProviders) :
    Option (RuntimeProviders × List CustomProviderConfig) :=
  let s : CustomProviderStore := { shared := live }
  match call with
  | upsert walks tenantId now cfg =>
    (s.upsert walks (.ok ()) tenantId now cfg.1).toOption.map fun r => (r.1.shared, r.1.file)
  | remove walks tenantId name =>
    (s.remove walks (.ok ()) tenantId name).toOption.bind fun r =>
      if r.2 then some (r.1.shared, r.1.file) else none

/-- A start: an absent file has no providers, an invalid one is refused. -/
def loadProviders (gw : Gateway) (json : Json (List CustomProviderConfig)) (walks : Walks)
    (target : Option Bytes) : Option RuntimeProviders :=
  target.elim (some {}) fun bytes =>
    (json.fromFile bytes).toOption.bind fun file =>
      (CustomProviderStore.load gw walks file).toOption.map (·.shared)

def providerRegistry (gw : Gateway) (json : Json (List CustomProviderConfig)) :
    Registry RuntimeProviders (List CustomProviderConfig) OwnedKey (ProviderCall gw) Walks where
  key := ProviderCall.key
  plan := ProviderCall.plan
  encode := json.toVecPretty
  load := loadProviders gw json

/-- One more validation of an entry. -/
def Revalidates (gw : Gateway) (entry entry' : Option CustomProviderEntry) : Prop :=
  ∃ cfg cfg', validateAndNormalize gw.parseUrl cfg = .ok cfg' ∧ entry = some (entryOf cfg) ∧
    entry' = some (entryOf cfg')

/-- An entry validated any number of times, as restarts do. -/
def Revalidated (gw : Gateway) : Option CustomProviderEntry → Option CustomProviderEntry → Prop :=
  Relation.ReflTransGen (Revalidates gw)

/-- A snapshot of configurations whose names validation leaves as they are. -/
def Named (s : RuntimeProviders) : Prop :=
  ∃ configs, Indexes configs s ∧ ∀ cfg ∈ configs, validateName cfg.name = .ok cfg.name

theorem validateName_of_valid {cfg cfg' : CustomProviderConfig}
    (h : validateAndNormalize gw.parseUrl cfg = .ok cfg') : validateName cfg'.name = .ok cfg'.name := by
  obtain ⟨name, _, _, hname, -, -, -, rfl⟩ := validateAndNormalize_parts h
  exact validateName_ok hname

/-- Validation keeps the key of a configuration with a valid name. -/
theorem keyOf_of_valid {cfg cfg' : CustomProviderConfig} (hname : validateName cfg.name = .ok cfg.name)
    (h : validateAndNormalize gw.parseUrl cfg = .ok cfg') : keyOf cfg' = keyOf cfg := by
  obtain ⟨name, _, _, hname', -, -, -, rfl⟩ := validateAndNormalize_parts h
  rw [hname] at hname'
  unfold keyOf ownerOf
  rw [Except.ok.inj hname']

/-- A write that succeeds swaps in what it wrote. -/
theorem persistAndSwap_saved {walks : Walks} {file : List CustomProviderConfig}
    {store : CustomProviderStore}
    (h : CustomProviderStore.persistAndSwap walks (.ok ()) file = .ok store) :
    Indexes store.file store.shared ∧ store.file = file := by
  unfold CustomProviderStore.persistAndSwap at h
  obtain ⟨reg, hbuild, h⟩ := bind_eq_ok h
  obtain ⟨_, -, h⟩ := bind_eq_ok h
  rw [← Except.ok.inj h]
  exact ⟨build_ok hbuild, rfl⟩

/-- The file has the configurations there were, but for the entries of one key. -/
structure Edits (key : OwnedKey) (configs file : List CustomProviderConfig) : Prop where
  others : ∀ cfg, keyOf cfg ≠ key → (cfg ∈ file ↔ cfg ∈ configs)
  named : (∀ cfg ∈ configs, validateName cfg.name = .ok cfg.name) →
    ∀ cfg ∈ file, validateName cfg.name = .ok cfg.name

/-- One entry is set, -/
theorem edits_setOwn {tenantId now : String} (cfg : Validated gw)
    {file : List CustomProviderConfig} (hperm : file.Perm (setOwn tenantId now cfg.1 configs)) :
    Edits (tenantId, cfg.1.name) configs file where
  others other hother := by
    have hown : isOwn tenantId cfg.1.name other = false :=
      Bool.eq_false_iff.2 fun hown => hother (keyOf_of_isOwn hown)
    rw [hperm.mem_iff]
    unfold setOwn
    rw [List.mem_cons, List.mem_filter, hown]
    constructor
    · rintro (rfl | ⟨hmem, -⟩)
      · exact absurd rfl hother
      · exact hmem
    · exact fun hmem => .inr ⟨hmem, rfl⟩
  named hnames other hother := by
    obtain ⟨cfg, raw, hvalid⟩ := cfg
    have hmem := hperm.subset hother
    unfold setOwn at hmem
    rcases List.mem_cons.1 hmem with rfl | hmem
    · have hname : validateName cfg.name = .ok cfg.name := validateName_of_valid hvalid
      exact hname
    · exact hnames other (List.mem_filter.1 hmem).1

/-- or removed. -/
theorem edits_filter {tenantId name : String} {file : List CustomProviderConfig}
    (hperm : file.Perm (configs.filter fun cfg => !isOwn tenantId name cfg)) :
    Edits (tenantId, name) configs file where
  others other hother := by
    have hown : isOwn tenantId name other = false :=
      Bool.eq_false_iff.2 fun hown => hother (keyOf_of_isOwn hown)
    rw [hperm.mem_iff, List.mem_filter, hown]
    exact and_iff_left rfl
  named hnames other hother := hnames other (List.mem_filter.1 (hperm.subset hother)).1

/-- A call writes a snapshot of configurations that differ in its own entry only. -/
theorem ProviderCall.plan_ok {call : ProviderCall gw} {file : List CustomProviderConfig}
    (hs : Indexes configs s) (h : call.plan s = some (next, file)) :
    Indexes file next ∧ Edits call.key configs file := by
  have hsorted := hs.configsSorted_perm
  have hkeys : (s.configsSorted.map keyOf).Nodup := (hsorted.map keyOf).nodup_iff.2 hs.keys
  cases call with
  | upsert walks tenantId now cfg =>
    obtain ⟨res, hres, heq⟩ := Option.map_eq_some_iff.1 h
    obtain ⟨rfl, rfl⟩ := Prod.mk.inj heq
    have hstore : (CustomProviderStore.persistAndSwap walks (.ok ())
        (upserted tenantId now cfg.1 s.configsSorted).1).toOption = some res.1 := by
      rw [← upsert_toOption (s := { shared := s }), hres, Option.map_some]
    obtain ⟨hindexes, hfile⟩ := persistAndSwap_saved (Fallible.of_toOption hstore)
    have hperm := (upserted_perm tenantId now cfg.1 hkeys).trans
      (setOwn_perm tenantId now cfg.1 hs.keys hsorted.symm)
    rw [← hfile] at hperm
    exact ⟨hindexes, edits_setOwn cfg hperm⟩
  | remove walks tenantId name =>
    obtain ⟨res, hres, h⟩ := Option.bind_eq_some_iff.1 h
    split at h
    case isFalse => cases h
    case isTrue hremoved =>
      obtain ⟨rfl, rfl⟩ := Prod.mk.inj (Option.some_inj.1 h)
      have hok := Fallible.of_toOption hres
      unfold CustomProviderStore.remove at hok
      dsimp only at hok
      split at hok
      · -- nothing was the caller's, so nothing was removed
        rw [← Except.ok.inj hok] at hremoved
        cases hremoved
      obtain ⟨store, hsave, hok⟩ := bind_eq_ok hok
      rw [← Except.ok.inj hok]
      obtain ⟨hindexes, hfile⟩ := persistAndSwap_saved hsave
      have hperm : store.file.Perm (configs.filter fun cfg => !isOwn tenantId name cfg) :=
        hfile ▸ hsorted.filter _
      exact ⟨hindexes, edits_filter hperm⟩

/-- What a start reads, entry by entry. -/
theorem revalidated_of_reads {read : List CustomProviderConfig} {again : RuntimeProviders}
    (hs : Indexes configs s) (hnames : ∀ cfg ∈ configs, validateName cfg.name = .ok cfg.name)
    (hread : Reads gw configs read) (hagain : Indexes read again) (key : OwnedKey) :
    Revalidated gw (s.byName.get key) (again.byName.get key) := by
  have hforward : ∀ {configs read}, Reads gw configs read →
      ∀ cfg ∈ configs, ∃ cfg' ∈ read, validateAndNormalize gw.parseUrl cfg = .ok cfg' := by
    intro configs read hread
    induction hread with
    | nil => exact fun _ hcfg => absurd hcfg List.not_mem_nil
    | @cons cfg cfg' configs read hvalid _ ih =>
      intro other hother
      rcases List.mem_cons.1 hother with rfl | hother
      · exact ⟨cfg', List.mem_cons_self, hvalid⟩
      · obtain ⟨other', hmem, hvalid'⟩ := ih other hother
        exact ⟨other', List.mem_cons_of_mem _ hmem, hvalid'⟩
  cases hget : s.byName.get key with
  | some entry =>
    obtain ⟨cfg, hcfg, hkey, rfl⟩ := (hs.entry key entry).1 hget
    obtain ⟨cfg', hcfg', hvalid⟩ := hforward hread cfg hcfg
    have hkey' : keyOf cfg' = key := (keyOf_of_valid (hnames cfg hcfg) hvalid).trans hkey
    have hget' := (hagain.entry key (entryOf cfg')).2 ⟨cfg', hcfg', hkey', rfl⟩
    exact .single ⟨cfg, cfg', hvalid, rfl, hget'⟩
  | none =>
    have hnone : again.byName.get key = none := by
      rw [Option.eq_none_iff_forall_ne_some]
      intro entry hget'
      obtain ⟨cfg', hcfg', hkey', -⟩ := (hagain.entry key entry).1 hget'
      obtain ⟨cfg, hcfg, hvalid⟩ := hread.exists_raw hcfg'
      have hkey : keyOf cfg = key := (keyOf_of_valid (hnames cfg hcfg) hvalid).symm.trans hkey'
      rw [(hs.entry key (entryOf cfg)).2 ⟨cfg, hcfg, hkey, rfl⟩] at hget
      cases hget
    rw [hnone]
    exact .refl

/-- What a start from a file comes to. -/
theorem loadProviders_ok {json : Json (List CustomProviderConfig)} {walks : Walks} {bytes : Bytes}
    (h : loadProviders gw json walks (some bytes) = some s) :
    ∃ file read, json.fromFile bytes = .ok file ∧ Reads gw file read ∧ Indexes read s := by
  obtain ⟨file, hfile, h⟩ := Option.bind_eq_some_iff.1 h
  obtain ⟨store, hstore, rfl⟩ := Option.map_eq_some_iff.1 h
  have hload : CustomProviderStore.load gw walks file = .ok store := by
    cases hres : CustomProviderStore.load gw walks file with
    | error err =>
      rw [hres] at hstore
      cases hstore
    | ok store' =>
      rw [hres] at hstore
      rw [Option.some_inj.1 hstore]
  have hparsed : json.fromFile bytes = .ok file := by
    cases hres : json.fromFile bytes with
    | error err =>
      rw [hres] at hfile
      cases hfile
    | ok file' =>
      rw [hres] at hfile
      rw [Option.some_inj.1 hfile]
  obtain ⟨read, hread, hindexes, -⟩ := load_ok hload
  exact ⟨file, read, hparsed, hread, hindexes⟩

theorem providers_lawful {json : Json (List CustomProviderConfig)} (hjson : json.Sound) :
    Lawful (providerRegistry gw json) (fun s key => s.byName.get key) (Revalidated gw) Named where
  load_good := by
    intro walks target live hload
    cases target with
    | none =>
      have hempty : ({} : RuntimeProviders) = live := Option.some_inj.1 hload
      exact ⟨[], hempty ▸ Indexes.empty, fun _ hcfg => absurd hcfg List.not_mem_nil⟩
    | some bytes =>
      obtain ⟨file, read, -, hread, hindexes⟩ := loadProviders_ok hload
      refine ⟨read, hindexes, ?_⟩
      intro cfg hcfg
      obtain ⟨raw, -, hvalid⟩ := hread.exists_raw hcfg
      exact validateName_of_valid hvalid
  plan_good := by
    rintro call live next file ⟨configs, hindexes, hnames⟩ hplan
    obtain ⟨hnext, hedits⟩ := ProviderCall.plan_ok hindexes hplan
    exact ⟨file, hnext, hedits.named hnames⟩
  frame := by
    rintro call live next file ⟨configs, hindexes, -⟩ hplan key hne
    obtain ⟨hnext, hedits⟩ := ProviderCall.plan_ok hindexes hplan
    refine hnext.get_congr hindexes ?_
    rintro cfg rfl
    exact hedits.others cfg hne
  reload := by
    rintro call live next file walks again ⟨configs, hindexes, hnames⟩ hplan hload key
    obtain ⟨hnext, hedits⟩ := ProviderCall.plan_ok hindexes hplan
    obtain ⟨file', read, hparsed, hread, hagain⟩ := loadProviders_ok hload
    rw [hjson file file' hparsed] at hread
    exact revalidated_of_reads hnext (hedits.named hnames) hread hagain key
  load_load := by
    intro walks walks' target live again hload hload' key
    have hsame : live.byName.get key = again.byName.get key := by
      cases target with
      | none => rw [Option.some_inj.1 (hload.symm.trans hload')]
      | some bytes =>
        obtain ⟨file, read, hparsed, hread, hindexes⟩ := loadProviders_ok hload
        obtain ⟨file', read', hparsed', hread', hindexes'⟩ := loadProviders_ok hload'
        have hfile : file = file' := Except.ok.inj (hparsed.symm.trans hparsed')
        subst hfile
        rw [hread'.unique hread] at hindexes'
        exact hindexes.get_congr hindexes' fun _ _ => Iff.rfl
    rw [hsame]
    exact .refl
  refl := fun _ => .refl
  trans := fun _ _ _ => .trans

end Providers

/-- **Changes of either registry are atomic and durable.** -/
theorem registries_durable (gw : Custom.Gateway)
    (providers : Json (List Custom.CustomProviderConfig)) (accounts : Json (List ConsoleAccount))
    (hproviders : providers.Sound) (haccounts : accounts.Sound) :
    Durable (providerRegistry gw providers) (fun s key => s.byName.get key) (Revalidated gw) ∧
      Durable (accountRegistry accounts) Accounts.find Eq :=
  ⟨(providers_lawful hproviders).durable, (accounts_lawful haccounts).durable⟩

/-! ### Runs of the account registry -/

def asciiBytes (s : String) : Bytes := s.toList.map fun c => UInt8.ofNat c.toNat

/-- The texts of some files; what is not among them is not read. -/
def Json.table {F : Type} [DecidableEq F] (rows : List (F × Bytes)) : Json F where
  toVecPretty file := (rows.lookup file).getD [0]
  fromFile bytes := ((rows.find? fun row => row.2 = bytes).map (·.1)).elim (.error "invalid JSON") .ok

theorem Json.table_sound {F : Type} [DecidableEq F] {rows : List (F × Bytes)}
    (hzero : ∀ row ∈ rows, row.2 ≠ [0]) (hnodup : (rows.map (·.2)).Nodup) :
    (Json.table rows).Sound := by
  intro file file' hread
  unfold Json.table at hread
  dsimp only at hread
  cases hfind : rows.find? fun row => row.2 = (rows.lookup file).getD [0] with
  | none =>
    rw [hfind] at hread
    cases hread
  | some row =>
    rw [hfind] at hread
    have hmem := List.mem_of_find?_eq_some hfind
    have hbytes : row.2 = (rows.lookup file).getD [0] := by simpa using List.find?_some hfind
    cases hlookup : rows.lookup file with
    | none =>
      rw [hlookup] at hbytes
      exact absurd hbytes (hzero row hmem)
    | some bytes =>
      rw [hlookup, Option.getD_some] at hbytes
      obtain ⟨before, after, hrows, -⟩ := List.lookup_eq_some_iff.1 hlookup
      have hrow : (file, bytes) ∈ rows := by
        rw [hrows]
        exact List.mem_append_right _ List.mem_cons_self
      have hsame := List.inj_on_of_nodup_map hnodup hmem hrow hbytes
      rw [← Except.ok.inj hread, hsame]

theorem Json.table_ne_nil {F : Type} [DecidableEq F] {rows : List (F × Bytes)}
    (hrows : ∀ row ∈ rows, row.2 ≠ []) (file : F) : (Json.table rows).toVecPretty file ≠ [] := by
  show (rows.lookup file).getD [0] ≠ []
  cases hlookup : rows.lookup file with
  | none => exact List.cons_ne_nil _ _
  | some bytes =>
    obtain ⟨before, after, hsplit, -⟩ := List.lookup_eq_some_iff.1 hlookup
    exact hrows (file, bytes) (hsplit ▸ List.mem_append_right _ List.mem_cons_self)

def signedUp (email : String) : ConsoleAccount :=
  ⟨email, "$argon2id$v=19", some "2026-01-01T00:00:00+00:00", 0⟩

def signedUpText (email : String) : Bytes :=
  asciiBytes ("\x7b\n  \"accounts\": [\n    \x7b\n      \"email\": \"" ++ email ++
    "\",\n      \"password_hash\": \"$argon2id$v=19\",\n      \"created_at\": " ++
    "\"2026-01-01T00:00:00+00:00\",\n      \"session_version\": 0\n    \x7d\n  ]\n\x7d")

def accountRows : List (List ConsoleAccount × Bytes) :=
  [([signedUp "a@example.com"], signedUpText "a@example.com"),
   ([signedUp "b@example.com"], signedUpText "b@example.com")]

def accountTexts : Json (List ConsoleAccount) := .table accountRows

def providerTexts : Json (List Custom.CustomProviderConfig) :=
  .table [([], asciiBytes "\x7b\n  \"providers\": []\n\x7d")]

theorem providerTexts_sound : providerTexts.Sound :=
  Json.table_sound (by decide) (by decide)

def signUp (email : String) : AccountCall := .create email "$argon2id$v=19" "2026-01-01T00:00:00+00:00"

/-- A sign-up up to the rename of its file. -/
def signUpSaved : List (Event AccountCall Unit) :=
  [.call 0 (signUp "a@example.com"), .lock 0, .openTemp 0, .disconnect 0, .write 0 1000, .rename 0]

/-- A sign-up whose future is dropped leaves its writer behind; the next one empties the temp file
that the first then moves into place. -/
def cancelled : List (Event AccountCall Unit) :=
  [.call 0 (signUp "a@example.com"), .lock 0, .openTemp 0, .cancel 0, .write 0 1000,
    .call 1 (signUp "b@example.com"), .lock 1, .openTemp 1, .rename 0]

/-- What the runs below come to, evaluated at once on the rows spelled out as bytes. -/
theorem exists_accountRows : ∃ rows, accountRows = rows ∧
    (∀ row ∈ rows, row.2 ≠ []) ∧ (∀ row ∈ rows, row.2 ≠ [0]) ∧ (rows.map (·.2)).Nodup ∧
    (reached (accountRegistry (.table rows)) () none none
      (signUpSaved ++ [.resume 0] ++ [.restart ()])).live =
      some ⟨[("a@example.com", signedUp "a@example.com")]⟩ ∧
    (reached (accountRegistry (.table rows)) () none none signUpSaved).tasks 0 =
      .saving (signUp "a@example.com") ⟨[("a@example.com", signedUp "a@example.com")]⟩ ∧
    (reached (accountRegistry (.table rows)) () none none signUpSaved).writers 0 =
      some (.finished true) ∧
    (reached (accountRegistry (.table rows)) () none none cancelled).disk.read .target =
      some [] := by
  refine ⟨?_, ?_, ?_⟩
  rotate_left
  · simp -implicitDefEqProofs only [accountRows, signedUpText, asciiBytes, String.toList_append,
      -String.reduceAppend]
    rw [String.toList_ofList, String.toList_ofList, String.toList_ofList, String.toList_ofList,
      String.toList_ofList]
  · decide +kernel

theorem account_runs :
    (∀ row ∈ accountRows, row.2 ≠ []) ∧ (∀ row ∈ accountRows, row.2 ≠ [0]) ∧
    (accountRows.map (·.2)).Nodup ∧
    (reached (accountRegistry accountTexts) () none none
      (signUpSaved ++ [.resume 0] ++ [.restart ()])).live =
      some ⟨[("a@example.com", signedUp "a@example.com")]⟩ ∧
    (reached (accountRegistry accountTexts) () none none signUpSaved).tasks 0 =
      .saving (signUp "a@example.com") ⟨[("a@example.com", signedUp "a@example.com")]⟩ ∧
    (reached (accountRegistry accountTexts) () none none signUpSaved).writers 0 =
      some (.finished true) ∧
    (reached (accountRegistry accountTexts) () none none cancelled).disk.read .target = some [] := by
  obtain ⟨rows, hrows, hruns⟩ := exists_accountRows
  simp -implicitDefEqProofs only [accountTexts, hrows]
  exact hruns

theorem accountTexts_sound : accountTexts.Sound :=
  Json.table_sound account_runs.2.1 account_runs.2.2.1

/-- An acknowledged sign-up is there after a restart. -/
theorem registries_durable_signUp : ∃ live,
    (reached (accountRegistry accountTexts) () none none
      (signUpSaved ++ [.resume 0] ++ [.restart ()])).live = some live ∧
    some (signedUp "a@example.com") = live.find "a@example.com" := by
  have hdurable := (registries_durable Custom.knownGateway providerTexts accountTexts
    providerTexts_sound accountTexts_sound).2
  obtain ⟨-, -, -, hlive, htask, hwriter, -⟩ := account_runs
  have hother : Run.Steps (step (accountRegistry accountTexts))
      (OtherEntry (accountRegistry accountTexts)
        ((accountRegistry accountTexts).key (signUp "a@example.com")))
      (reached (accountRegistry accountTexts) () none none (signUpSaved ++ [.resume 0]))
      [.restart ()] :=
    ⟨fun _ _ hevent => (by cases hevent), trivial⟩
  exact ⟨_, hlive, hdurable.kept () none none signUpSaved 0 _ _ (by decide) htask hwriter
    [.restart ()] (by decide) hother _ hlive⟩

/-- Dropping the future of a call can tear the file: it is no serialisation of a snapshot. -/
theorem torn_by_cancel :
    ¬((reached (accountRegistry accountTexts) () none none cancelled).disk.read .target = none ∨
      Serialises (accountRegistry accountTexts)
        ((reached (accountRegistry accountTexts) () none none cancelled).disk.read .target)) := by
  obtain ⟨hrows, -, -, -, -, -, htorn⟩ := account_runs
  have hnonempty : ∀ file, (accountRegistry accountTexts).encode file ≠ [] :=
    Json.table_ne_nil hrows
  rw [htorn]
  rintro (hnone | ⟨call, live, next, file, -, hfile⟩)
  · cases hnone
  · exact hnonempty file (Option.some_inj.1 hfile).symm

end Routeplane.Storage
