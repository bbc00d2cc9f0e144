import Routeplane.Cache.Flush
import Routeplane.Cache.Key

/-!
# Purges are not undone

A key derived after a purge has a later generation than one derived before it, whatever other
purges and derivations are interleaved with both. Whether the keys differ is then a question of
their bytes.

The bytes an exact-cache key is the digest of are a JSON text, the provider names each with a
separator, and a tagged generation. With names free of control characters they are read back one
after the other.

* `utf8_printable`: control bytes come from control characters only.
* `exactKeyGen_separates`: equal bytes are of equal generations, chains and requests.
* `generation_mono`, `generation_lt_of_purge`: generations only grow, and a purge makes one grow.
* `PurgedBetween.key_ne`: the keys differ, if the provider names are printable.
* `purges_hold_iff`: the keys differ unless a provider name spells out the generation.
* `purged_key_returns`: a provider name that does.
-/

namespace Routeplane

/-! ## Bytes of a name -/

/-- An ASCII control character. -/
def isAsciiControl (c : Char) : Bool := c.toNat < 0x20 || c.toNat == 0x7f

/-- A name without control characters. -/
def Printable (name : String) : Prop := ∀ c ∈ name.toList, isAsciiControl c = false

instance : DecidablePred Printable := fun name =>
  List.decidableBAll (fun c => isAsciiControl c = false) name.toList

/-- A byte below `0x20` is the encoding of a character below `0x20`. -/
theorem utf8EncodeChar_low {c : Char} {b : UInt8} (hb : b ∈ String.utf8EncodeChar c)
    (hlow : b.toNat < 0x20) : c.toNat < 0x20 := by
  have hval : c.val.toNat = c.toNat := rfl
  unfold String.utf8EncodeChar at hb
  simp only [hval] at hb
  split at hb
  · simp only [List.mem_singleton] at hb
    subst hb
    simp only [UInt8.toNat_ofNat'] at hlow
    omega
  · -- the bytes of a longer encoding are 0x80 or more
    exfalso
    split at hb
    · simp only [List.mem_cons, List.not_mem_nil, or_false] at hb
      rcases hb with rfl | rfl <;> simp only [UInt8.toNat_ofNat'] at hlow <;> omega
    · split at hb
      · simp only [List.mem_cons, List.not_mem_nil, or_false] at hb
        rcases hb with rfl | rfl | rfl <;> simp only [UInt8.toNat_ofNat'] at hlow <;> omega
      · simp only [List.mem_cons, List.not_mem_nil, or_false] at hb
        rcases hb with rfl | rfl | rfl | rfl <;> simp only [UInt8.toNat_ofNat'] at hlow <;> omega

theorem utf8_eq (s : String) : utf8 s = s.toList.flatMap String.utf8EncodeChar := by
  unfold utf8
  have hbytes : s.toUTF8 = (s.toList.flatMap String.utf8EncodeChar).toByteArray :=
    (String.utf8Encode_toList (b := s)).symm
  rw [hbytes, List.data_toByteArray]

/-- **Control bytes come from control characters**: a printable name has none, normalised. -/
theorem utf8_printable {name : String} (h : Printable name) :
    ∀ b ∈ utf8 (normalizedProvider name), 0x20 ≤ b.toNat := by
  intro b hb
  rw [utf8_eq] at hb
  obtain ⟨c, hc, hbyte⟩ := List.mem_flatMap.1 hb
  by_contra hlow
  have hcontrol : c.toNat < 0x20 := utf8EncodeChar_low hbyte (by omega)
  unfold normalizedProvider asciiLower trimText at hc
  simp only [String.toList_ofList] at hc
  obtain ⟨d, hd, rfl⟩ := List.mem_map.1 hc
  -- lowering a character does not make it a control character
  have hprint := h d ((trimChars_isInfix _).subset hd)
  unfold isAsciiControl at hprint
  simp only [Bool.or_eq_false_iff, decide_eq_false_iff_not] at hprint
  have hlower := toNat_toLower d
  split at hlower <;> omega

/-! ## The key -/

theorem tagged_generationBytes (generation : ℕ) :
    Separated.Tagged 0x1e (generationBytes generation) := by
  unfold generationBytes
  split
  · exact Or.inr ⟨_, rfl⟩
  · exact Or.inl rfl

/-- **The chain and the generation are read back** from what follows the request. -/
theorem chain_generation_inj {chain chain' : List String} {generation generation' : ℕ}
    (hchain : ∀ p ∈ chain, Printable p) (hchain' : ∀ p ∈ chain', Printable p)
    (hg : generation < 2 ^ 64) (hg' : generation' < 2 ^ 64)
    (h : chainBytes chain ++ generationBytes generation =
      chainBytes chain' ++ generationBytes generation') :
    chain.map normalizedProvider = chain'.map normalizedProvider ∧ generation = generation' := by
  have hwords : ∀ c : List String, (∀ p ∈ c, Printable p) →
      ∀ w ∈ (c.map normalizedProvider).map utf8, (0x1f : UInt8) ∉ w ∧ (0x1e : UInt8) ∉ w := by
    intro c hc w hw
    rw [List.map_map] at hw
    obtain ⟨p, hp, rfl⟩ := List.mem_map.1 hw
    have hbytes := utf8_printable (hc p hp)
    exact ⟨fun hmem => absurd (hbytes _ hmem) (by decide),
      fun hmem => absurd (hbytes _ hmem) (by decide)⟩
  rw [chainBytes_eq_join, chainBytes_eq_join] at h
  obtain ⟨hnames, htail⟩ := Separated.join_append_inj (by decide) (hwords chain hchain)
    (hwords chain' hchain') (tagged_generationBytes _) (tagged_generationBytes _) h
  have hinj : Function.Injective utf8 := fun _ _ => utf8_inj
  exact ⟨hinj.list_map hnames, generationBytes_inj hg hg' htail⟩

/-- **The bytes of a key separate requests.** Equal bytes are of one generation, one chain of
normalised names, and requests that differ in `stream` and `user` at most. -/
theorem exactKeyGen_separates {toVec : KeyView → List UInt8} {tenantId tenantId' : String}
    {namespaceName namespaceName' : String} {req req' : ChatCompletionRequest}
    {chain chain' : List String} {generation generation' : ℕ}
    (hvec : Serialises toVec req.keyView req'.keyView) (hfin : req.keyView.Finite)
    (hchain : ∀ p ∈ chain, Printable p) (hchain' : ∀ p ∈ chain', Printable p)
    (hg : generation < 2 ^ 64) (hg' : generation' < 2 ^ 64)
    (h : (exactKeyGen toVec tenantId namespaceName req chain generation).hashed =
      (exactKeyGen toVec tenantId' namespaceName' req' chain' generation').hashed) :
    generation = generation' ∧
      chain.map normalizedProvider = chain'.map normalizedProvider ∧
      { req with stream := req'.stream, user := req'.user } = req' := by
  obtain ⟨hwire, hrest⟩ := (hashed_eq_iff hvec).1 h
  obtain ⟨hnames, hgen⟩ := chain_generation_inj hchain hchain' hg hg' hrest
  exact ⟨hgen, hnames, ChatCompletionRequest.keyView_eq_iff.1 (hwire.eq_of_finite hfin)⟩

def askHi : ChatCompletionRequest :=
  { model := "gpt-4o", messages := [{ role := "user", content := .text "hi" }] }

/-- Its view in JSON. -/
def askHiText : List UInt8 :=
  utf8 "\x7b\"model\":\"gpt-4o\",\"messages\":[\x7b\"role\":\"user\",\"content\":\"hi\"\x7d]\x7d"

theorem askHi_serialises (req : ChatCompletionRequest) (h : req.keyView = askHi.keyView) :
    Serialises (fun _ => askHiText) req.keyView askHi.keyView := by
  rw [h]
  exact ⟨by decide, by decide, fun _ => KeyView.SameWire.refl _, fun _ => rfl⟩

/-- The same from another user, streamed. -/
def streamHi : ChatCompletionRequest := { askHi with stream := some true, user := some "u1" }

/-- The two have one key, under two spellings of the provider. -/
theorem exactKeyGen_separates_user :
    3 = 3 ∧ [" OpenAI"].map normalizedProvider = ["openai"].map normalizedProvider ∧
      { streamHi with stream := none, user := none } = askHi := by
  have hfin : streamHi.keyView.Finite := by
    constructor <;> simp [streamHi, askHi, ChatCompletionRequest.keyView]
  have hchain : chainBytes [" OpenAI"] = chainBytes ["openai"] := by decide
  have hbytes : (exactKeyGen (fun _ => askHiText) "t" "default" streamHi [" OpenAI"] 3).hashed =
      (exactKeyGen (fun _ => askHiText) "t" "default" askHi ["openai"] 3).hashed := by
    unfold exactKeyGen
    rw [hchain]
  exact exactKeyGen_separates (askHi_serialises streamHi rfl) hfin (by decide) (by decide)
    (by decide) (by decide) hbytes

end Routeplane

/-! ## Purges are not undone -/

namespace Routeplane.Cache

open Limits (satAdd u64Max)
open Relation (ReflTransGen)

variable {ι : Type} [DecidableEq ι]

/-- A tenant's cell with the callers that purge. -/
abbrev FlushCell (ι : Type) := Cell.State ι String Scopes (Except FlushError ℕ)

/-- Any interleaving of purges. -/
abbrev Purges (s s' : FlushCell ι) : Prop := ReflTransGen (Cell.Step bumpScopes) s s'

/-! ## What a purge keeps -/

/-- Generations are 64-bit numbers, and there is room for the wildcard. -/
structure Scopes.Inv (m : Scopes) : Prop where
  bounded : ∀ scope, m.generation scope ≤ u64Max
  room : m.length + (if (m.get wildcardNamespace).isNone then 1 else 0) ≤ maxPurgedScopesPerTenant

section Grow

variable {s s' : FlushCell ι} {m : Scopes} {scope scope' : String} {n : ℕ}

theorem Scopes.Inv.nil : Scopes.Inv [] where
  bounded _ := Nat.zero_le _
  room := by decide

theorem Scopes.Inv.next (h : m.Inv) (scope : String) :
    Scopes.Inv (Cell.next bumpScopes scope m) := by
  unfold Cell.next
  rcases bumpScopes_cases scope m with ⟨hbump, hroom⟩ | ⟨hbump, -⟩ | ⟨hbump, -⟩
  · rw [hbump]
    simp only [Option.getD_some]
    refine ⟨fun scope' => ?_, ?_⟩
    · rw [Scopes.generation_insert]
      split
      · exact Nat.min_le_right _ _
      · exact h.bounded scope'
    · have hlength := Assoc.length_insert_le m scope (satAdd (m.generation scope) 1)
      have hold := h.room
      rw [Assoc.get_insert]
      unfold reservedWildcard at hroom
      -- a new scope takes a slot of its own, the wildcard the one kept for it
      by_cases hw : scope = wildcardNamespace
      · rw [if_pos hw]
        subst hw
        simp only [Option.isNone_some, Bool.false_eq_true, if_false]
        simp only [ne_eq, not_true_eq_false, false_and, if_false] at hroom
        split at hlength
        · rename_i hnone
          have hlt := hroom hnone
          omega
        · omega
      · rw [if_neg hw]
        simp only [ne_eq, hw, not_false_eq_true, true_and] at hroom
        split at hlength
        · rename_i hnone
          have hlt := hroom hnone
          split
          · rename_i hwild
            rw [if_pos hwild] at hlt
            omega
          · rename_i hwild
            rw [if_neg hwild] at hlt
            omega
        · omega
  · rw [hbump]
    exact h
  · rw [hbump]
    exact h

/-- A bump lowers no generation. -/
theorem Scopes.Inv.le_next (h : m.Inv) (scope scope' : String) :
    m.generation scope' ≤ Scopes.generation (Cell.next bumpScopes scope m) scope' := by
  unfold Cell.next
  rcases bumpScopes_cases scope m with ⟨hbump, -⟩ | ⟨hbump, -⟩ | ⟨hbump, -⟩
  · rw [hbump]
    simp only [Option.getD_some]
    rw [Scopes.generation_insert]
    split
    · rename_i heq
      subst heq
      have hbounded := h.bounded scope
      unfold satAdd
      omega
    · exact Nat.le_refl _
  · rw [hbump]
    exact Nat.le_refl _
  · rw [hbump]
    exact Nat.le_refl _

/-- A bump that succeeds raises its scope's generation, unless it was at its end. -/
theorem Scopes.Inv.lt_next (hok : (bumpScopes scope m).2 = .ok n)
    (hsat : Scopes.generation (Cell.next bumpScopes scope m) scope < u64Max) :
    m.generation scope < Scopes.generation (Cell.next bumpScopes scope m) scope := by
  unfold Cell.next at hsat ⊢
  rcases bumpScopes_cases scope m with ⟨hbump, -⟩ | ⟨hbump, -⟩ | ⟨hbump, -⟩
  · rw [hbump] at hsat ⊢
    simp only [Option.getD_some] at hsat ⊢
    rw [Scopes.generation_insert, if_pos rfl] at hsat ⊢
    unfold satAdd at hsat ⊢
    omega
  · rw [hbump] at hok
    cases hok
  · rw [hbump] at hok
    cases hok

/-! ## Any interleaving -/

theorem Scopes.Inv.purges (h : Scopes.Inv s.cell) (hrun : Purges s s') : Scopes.Inv s'.cell := by
  induction hrun with
  | refl => exact h
  | tail _ hstep ih =>
    rcases hstep.completes with ⟨hcell, -⟩ | ⟨scope, hcell, -⟩
    · rw [hcell]
      exact ih
    · rw [hcell]
      exact ih.next scope

/-- **Generations only grow.** -/
theorem generation_mono (h : Scopes.Inv s.cell) (hrun : Purges s s') (scope : String) :
    s.cell.generation scope ≤ s'.cell.generation scope := by
  induction hrun with
  | refl => exact Nat.le_refl _
  | tail hrun hstep ih =>
    have hhere := h.purges hrun
    rcases hstep.completes with ⟨hcell, -⟩ | ⟨bumped, hcell, -⟩
    · rw [hcell]
      exact ih
    · rw [hcell]
      exact Nat.le_trans ih (hhere.le_next bumped scope)

/-- **A purge makes a generation grow**: one that was completed between the two states. -/
theorem generation_lt_of_purge (h : Scopes.Inv s.cell) (hrun : Purges s s')
    {seg : List (String × Except FlushError ℕ)} (hlog : s'.log = s.log ++ seg)
    (hpurge : (scope, .ok n) ∈ seg) (hsat : s'.cell.generation scope < u64Max) :
    s.cell.generation scope < s'.cell.generation scope := by
  induction hrun generalizing seg with
  | refl =>
    have hnil : seg = [] := by simpa using hlog
    subst hnil
    cases hpurge
  | tail hrun hstep ih =>
    rename_i mid last
    have hhere := h.purges hrun
    have hgrown := generation_mono h hrun scope
    rcases hstep.completes with ⟨hcell, hsame⟩ | ⟨bumped, hcell, hsnoc⟩
    · rw [hcell] at hsat ⊢
      exact ih (hsame.symm.trans hlog) hpurge hsat
    · rw [hsnoc] at hlog
      rw [hcell] at hsat ⊢
      have hle := hhere.le_next bumped scope
      -- the purge is the last operation, or one before it
      rcases List.eq_nil_or_concat seg with rfl | ⟨front, e, rfl⟩
      · cases hpurge
      · rw [List.concat_eq_append, ← List.append_assoc] at hlog
        obtain ⟨hfront, hlast⟩ := List.append_inj' hlog rfl
        have he : (bumped, (bumpScopes bumped mid.cell).2) = e := (List.cons.inj hlast).1
        rw [List.concat_eq_append, List.mem_append, List.mem_singleton] at hpurge
        rcases hpurge with hearlier | hnow
        · have hlt := ih hfront hearlier (by omega)
          omega
        · rw [← hnow] at he
          obtain ⟨rfl, hok⟩ := Prod.mk.inj he
          have hlt := Scopes.Inv.lt_next hok hsat
          omega

end Grow

/-! ## A purge between two derivations -/

/-- A key derivation with its two loads, a purge that covers its namespace and begins after it,
and a derivation of the same namespace that starts after the purge has returned. -/
structure PurgedBetween (ι : Type) [DecidableEq ι] (namespaceName : String) where
  (early early' began returned late late' : FlushCell ι)
  reached : Purges (Cell.start []) early
  first : Purges early early'
  before : Purges early' began
  purge : Purges began returned
  after : Purges returned late
  second : Purges late late'
  scope : String
  covers : scope = namespaceName ∨ scope = wildcardNamespace
  purged : ∃ seg n, returned.log = began.log ++ seg ∧ (scope, .ok n) ∈ seg

namespace PurgedBetween

variable {namespaceName : String} (t : PurgedBetween ι namespaceName)

def earlyGeneration : ℕ := readEffective t.early.cell t.early'.cell namespaceName

def lateGeneration : ℕ := readEffective t.late.cell t.late'.cell namespaceName

theorem inv_early : t.early.cell.Inv := Scopes.Inv.nil.purges t.reached

theorem inv_began : t.began.cell.Inv := t.inv_early.purges (t.first.trans t.before)

theorem inv_returned : t.returned.cell.Inv := t.inv_began.purges t.purge

/-- **The purge separates the generations.** -/
theorem generation_lt (hsat : t.lateGeneration < u64Max) :
    t.earlyGeneration < t.lateGeneration := by
  obtain ⟨seg, n, hlog, hmem⟩ := t.purged
  -- the wildcard and the namespace, from load to load
  have hwild := generation_mono t.inv_early (t.first.trans t.before) wildcardNamespace
  have hwild' := generation_mono t.inv_returned t.after wildcardNamespace
  have hname := generation_mono (t.inv_early.purges t.first) t.before namespaceName
  have hname' := generation_mono t.inv_returned (t.after.trans t.second) namespaceName
  have hpurgeWild := generation_mono t.inv_began t.purge wildcardNamespace
  have hpurgeName := generation_mono t.inv_began t.purge namespaceName
  have hgrows : t.returned.cell.generation t.scope < u64Max →
      t.began.cell.generation t.scope < t.returned.cell.generation t.scope :=
    generation_lt_of_purge t.inv_began t.purge hlog hmem
  unfold earlyGeneration lateGeneration readEffective at *
  simp only at hsat ⊢
  by_cases hns : namespaceName = wildcardNamespace
  · rw [if_pos hns] at hsat
    rw [if_pos hns, if_pos hns]
    have hscope : t.scope = wildcardNamespace := t.covers.elim (fun h => h.trans hns) id
    rw [hscope] at hgrows
    have hlt := hgrows (by omega)
    omega
  · rw [if_neg hns] at hsat
    rw [if_neg hns, if_neg hns]
    unfold satAdd at hsat ⊢
    rcases t.covers with hscope | hscope
    · rw [hscope] at hgrows
      have hlt := hgrows (by omega)
      omega
    · rw [hscope] at hgrows
      have hlt := hgrows (by omega)
      omega

end PurgedBetween

/-! ## The keys -/

/-- The earlier chain is the later one with names that spell the tag and the later generation, and
the earlier generation is not hashed. -/
structure SpelledOut (early late : ℕ) (req req' : ChatCompletionRequest)
    (chain chain' : List String) : Prop where
  never : early = 0
  sameWire : req.keyView.SameWire req'.keyView
  spelled : chainBytes chain = chainBytes chain' ++ generationBytes late

section Keys

variable {toVec : KeyView → List UInt8} {tenantId namespaceName : String}
  {req req' : ChatCompletionRequest} {chain chain' : List String} {early late : ℕ}

theorem length_generationBytes (h : 0 < late) : (generationBytes late).length = 9 := by
  unfold generationBytes toLeBytes
  rw [if_pos h, List.length_cons, List.length_map, List.length_range]

theorem exactKeyGen_ne_iff (hvec : Serialises toVec req.keyView req'.keyView) (hlt : early < late)
    (hlate : late < 2 ^ 64) :
    exactKeyGen toVec tenantId namespaceName req chain early ≠
        exactKeyGen toVec tenantId namespaceName req' chain' late ↔
      ¬SpelledOut early late req req' chain chain' := by
  have hkey : exactKeyGen toVec tenantId namespaceName req chain early =
        exactKeyGen toVec tenantId namespaceName req' chain' late ↔
      req.keyView.SameWire req'.keyView ∧
        chainBytes chain ++ generationBytes early = chainBytes chain' ++ generationBytes late := by
    have hhashed : (exactKeyGen toVec tenantId namespaceName req chain early).hashed =
          (exactKeyGen toVec tenantId namespaceName req' chain' late).hashed ↔ _ :=
      hashed_eq_iff hvec
    rw [← hhashed, CacheKey.mk.injEq]
    exact ⟨fun h => h.2.2, fun h => ⟨rfl, rfl, h⟩⟩
  rw [ne_eq, hkey, not_iff_not]
  constructor
  · rintro ⟨hwire, heq⟩
    rcases Nat.eq_zero_or_pos early with rfl | hpos
    · refine ⟨rfl, hwire, ?_⟩
      rw [← heq]
      exact (List.append_nil _).symm
    · -- two hashed generations stand at the ends
      have hlength : (generationBytes early).length = (generationBytes late).length := by
        rw [length_generationBytes hpos, length_generationBytes (by omega)]
      have hsame := generationBytes_inj (by omega) hlate (List.append_inj' heq hlength).2
      omega
  · intro h
    refine ⟨h.sameWire, ?_⟩
    rw [h.never, h.spelled]
    exact List.append_nil _

/-- The last byte of a number is its highest. -/
theorem getLast?_toLeBytes (n : ℕ) : (toLeBytes n).getLast? = some (n / 256 ^ 7).toUInt8 := by
  unfold toLeBytes
  rw [List.getLast?_map, List.getLast?_range]
  rfl

/-- Only names with a control character spell out a generation, and only one above `31 * 2 ^ 56`. -/
theorem SpelledOut.extreme (h : SpelledOut early late req req' chain chain') (hlt : early < late)
    (hlate : late < 2 ^ 64) : (∃ p ∈ chain, ¬Printable p) ∧ 31 * 2 ^ 56 ≤ late := by
  have hpos : 0 < late := by omega
  have hspelled := h.spelled
  unfold generationBytes at hspelled
  rw [if_pos hpos] at hspelled
  constructor
  · by_contra hall
    push Not at hall
    have htag : (0x1e : UInt8) ∈ chainBytes chain := by
      rw [hspelled]
      exact List.mem_append_right _ List.mem_cons_self
    unfold chainBytes at htag
    obtain ⟨p, hp, hbyte⟩ := List.mem_flatMap.1 htag
    rcases List.mem_append.1 hbyte with hname | hsep
    · exact absurd (utf8_printable (hall p hp) _ hname) (by decide)
    · cases List.mem_singleton.1 hsep
  · -- the chain ends with the separator, the generation with its highest byte
    have hne : toLeBytes late ≠ [] := by
      unfold toLeBytes
      simp
    rcases List.eq_nil_or_concat chain with rfl | ⟨front, p, rfl⟩
    · have hnil := congrArg List.length hspelled
      rw [List.length_append, List.length_cons] at hnil
      unfold chainBytes at hnil
      simp at hnil
    · have hlast := congrArg List.getLast? hspelled
      unfold chainBytes at hlast
      rw [List.concat_eq_append, List.flatMap_append, List.flatMap_singleton, ← List.append_assoc,
        List.getLast?_append_of_ne_nil _ (List.cons_ne_nil _ _),
        List.getLast?_append_of_ne_nil _ (List.cons_ne_nil _ _), List.getLast?_singleton,
        List.getLast?_cons_of_ne_nil hne, getLast?_toLeBytes] at hlast
      have hbyte : (31 : ℕ) = late / 256 ^ 7 % 256 :=
        congrArg UInt8.toNat (Option.some.inj hlast)
      omega

/-- **A purge separates keys of printable names**, for every request before and after it. -/
theorem PurgedBetween.key_ne (t : PurgedBetween ι namespaceName) (hsat : t.lateGeneration < u64Max)
    (hvec : Serialises toVec req.keyView req'.keyView) (hchain : ∀ p ∈ chain, Printable p) :
    exactKeyGen toVec tenantId namespaceName req chain t.earlyGeneration ≠
      exactKeyGen toVec tenantId namespaceName req' chain' t.lateGeneration := by
  have hlt := t.generation_lt hsat
  have hbound : t.lateGeneration < 2 ^ 64 := by
    unfold u64Max at hsat
    omega
  rw [exactKeyGen_ne_iff hvec hlt hbound]
  intro hspelled
  obtain ⟨⟨p, hp, hcontrol⟩, -⟩ := hspelled.extreme hlt hbound
  exact hcontrol (hchain p hp)

end Keys

/-! ## The purges -/

/-- Operations one after the other keep the invariant. -/
theorem Scopes.Inv.serial {m : Scopes} {log : List (String × Except FlushError ℕ)}
    (h : Cell.Serial bumpScopes [] log m) : m.Inv :=
  h.invariant (p := fun _ m => Scopes.Inv m) Scopes.Inv.nil fun _ _ scope hm => hm.next scope

/-- There is a slot for the wildcard. -/
theorem Scopes.Inv.wildcard_ok {m : Scopes} (h : m.Inv) :
    (bumpScopes wildcardNamespace m).2 ≠ .error .scopeLimit := by
  rcases bumpScopes_cases wildcardNamespace m with ⟨hbump, -⟩ | ⟨-, hnone, hfull⟩ | ⟨hbump, -⟩
  · rw [hbump]
    simp
  · have hroom := h.room
    unfold reservedWildcard at hfull
    rw [if_pos hnone] at hroom
    simp only [ne_eq, not_true_eq_false, false_and, if_false] at hfull
    omega
  · rw [hbump]
    simp

/-- **When purges hold.** A key derived before a purge and one derived after it are different,
unless the earlier chain spells out the later generation. A purge of the wildcard always finds a
slot, and no more than `MAX_PURGED_SCOPES_PER_TENANT` are taken. -/
theorem purges_hold_iff {toVec : KeyView → List UInt8} {req req' : ChatCompletionRequest}
    (hvec : Serialises toVec req.keyView req'.keyView) :
    (∀ (tenantId namespaceName : String) (chain chain' : List String)
      (t : PurgedBetween ι namespaceName), t.lateGeneration < u64Max →
        (exactKeyGen toVec tenantId namespaceName req chain t.earlyGeneration ≠
            exactKeyGen toVec tenantId namespaceName req' chain' t.lateGeneration ↔
          ¬SpelledOut t.earlyGeneration t.lateGeneration req req' chain chain')) ∧
      ∀ s : FlushCell ι, Purges (Cell.start []) s →
        (∀ r, (wildcardNamespace, r) ∈ s.log → r ≠ .error .scopeLimit) ∧
          s.cell.length ≤ maxPurgedScopesPerTenant := by
  constructor
  · intro tenantId namespaceName chain chain' t hsat
    have hbound : t.lateGeneration < 2 ^ 64 := by
      unfold u64Max at hsat
      omega
    exact exactKeyGen_ne_iff hvec (t.generation_lt hsat) hbound
  · intro s hrun
    have hserial := Cell.Step.serial hrun
    constructor
    · intro r hr
      obtain ⟨before, after, hlog⟩ := List.append_of_mem hr
      obtain ⟨m, hbefore, hanswer⟩ := hserial.split hlog
      rw [hanswer]
      exact (Scopes.Inv.serial hbefore).wildcard_ok
    · have hroom := (Scopes.Inv.serial hserial).room
      omega

/-- One caller purges the wildcard again and again. -/
theorem wildcard_purges (n : ℕ) (hn : n ≤ u64Max) : ∃ s : FlushCell Unit,
    Purges (Cell.start []) s ∧ s.busy = (fun _ => none) ∧
      (∀ scope, s.cell.generation scope = if wildcardNamespace = scope then n else 0) ∧
      (0 < n → (wildcardNamespace, .ok n) ∈ s.log) := by
  induction n with
  | zero =>
    refine ⟨Cell.start [], .refl, rfl, fun scope => ?_, fun h => absurd h (Nat.lt_irrefl 0)⟩
    rw [ite_self]
    rfl
  | succ n ih =>
    obtain ⟨s, hrun, hidle, hgen, -⟩ := ih (by omega)
    have hnext : satAdd (s.cell.generation wildcardNamespace) 1 = n + 1 := by
      rw [hgen, if_pos rfl]
      exact Nat.min_eq_left hn
    have hinv := Scopes.Inv.nil.purges hrun
    have hbump : bumpScopes wildcardNamespace s.cell =
        (some (s.cell.insert wildcardNamespace (n + 1)), .ok (n + 1)) := by
      rcases bumpScopes_cases wildcardNamespace s.cell with ⟨hbump, -⟩ | ⟨hbump, -⟩ | ⟨-, hinvalid⟩
      · rw [hnext] at hbump
        exact hbump
      · exact absurd (by rw [hbump]) hinv.wildcard_ok
      · cases hinvalid
    have hpurge := Cell.alone (congrFun hidle ()) (congrArg Prod.fst hbump)
    refine ⟨_, hrun.trans hpurge, hidle, fun scope => ?_, fun _ => ?_⟩
    · simp only
      rw [Scopes.generation_insert, hgen]
      split <;> rfl
    · simp only
      rw [hbump]
      exact List.mem_append_right _ (List.mem_singleton.2 rfl)

/-- Any number of purges of the wildcard, between two derivations. -/
theorem purgedBetween_wildcard {n : ℕ} (hpos : 0 < n) (hn : n ≤ u64Max) :
    ∃ t : PurgedBetween Unit "default", t.earlyGeneration = 0 ∧ t.lateGeneration = n := by
  obtain ⟨s, hrun, -, hgen, hlog⟩ := wildcard_purges n hn
  refine ⟨
    { early := Cell.start [], early' := Cell.start [], began := Cell.start [], returned := s,
      late := s, late' := s, reached := .refl, first := .refl, before := .refl, purge := hrun,
      after := .refl, second := .refl, scope := wildcardNamespace, covers := Or.inr rfl,
      purged := ⟨s.log, n, (List.nil_append _).symm, hlog hpos⟩ }, rfl, ?_⟩
  unfold PurgedBetween.lateGeneration readEffective
  rw [if_neg (by decide), hgen, hgen, if_neg (by decide), if_pos rfl]
  unfold satAdd
  omega

/-- One purge, and the key of the same request is another. -/
theorem purges_hold_iff_once : ∃ t : PurgedBetween Unit "default", t.lateGeneration = 1 ∧
    exactKeyGen (fun _ => askHiText) "t" "default" askHi ["openai"] t.earlyGeneration ≠
      exactKeyGen (fun _ => askHiText) "t" "default" askHi ["openai"] t.lateGeneration := by
  obtain ⟨t, -, hlate⟩ := purgedBetween_wildcard (n := 1) (by decide) (by decide)
  refine ⟨t, hlate, ?_⟩
  refine ((purges_hold_iff (ι := Unit) (askHi_serialises askHi rfl)).1 _ _ _ _ t
    (by rw [hlate]; decide)).2 fun hspelled => ?_
  have hbytes := hspelled.spelled
  rw [hlate] at hbytes
  exact absurd hbytes (by decide)

/-- Purged until the generation reads `aaaaaaa` and a separator, a key derived before is back. -/
theorem purged_key_returns : ∃ t : PurgedBetween Unit "default", t.lateGeneration < u64Max ∧
    Serialises (fun _ => askHiText) askHi.keyView askHi.keyView ∧
      exactKeyGen (fun _ => askHiText) "t" "default" askHi ["openai", "\x1eaaaaaaa"]
          t.earlyGeneration =
        exactKeyGen (fun _ => askHiText) "t" "default" askHi ["openai"] t.lateGeneration := by
  obtain ⟨t, hearly, hlate⟩ :=
    purgedBetween_wildcard (n := 0x1f61616161616161) (by decide) (by decide)
  have hbytes : chainBytes ["openai", "\x1eaaaaaaa"] ++ generationBytes 0 =
      chainBytes ["openai"] ++ generationBytes 0x1f61616161616161 := by decide
  refine ⟨t, by rw [hlate]; decide, askHi_serialises askHi rfl, ?_⟩
  rw [hearly, hlate]
  unfold exactKeyGen
  rw [List.append_assoc, hbytes, ← List.append_assoc]

end Routeplane.Cache
