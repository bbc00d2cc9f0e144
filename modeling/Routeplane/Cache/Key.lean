import Routeplane.Lib.Separated
import Routeplane.Types.Chat
import Routeplane.Types.Text
import Mathlib.Tactic.Tauto

/-!
# The exact-cache key

The key of a request in the exact cache: its tenant and namespace, and a SHA-256 digest of the
request, the provider chain and the flush generation. A digest is represented by the bytes it is
the digest of.

* `KeyView`: what of a request is hashed. `exactKeyGen`: the key.
* `exactKeyGen_eq_iff`: what equal keys of one generation agree in.
* `FlushRegistry.generationEffective`: the generation of a namespace, flush-all included.
-/

namespace Routeplane

/-- The hashed view of a request: everything but `stream` and `user`. -/
structure KeyView where
  model : String
  messages : List Message
  temperature : Option Float32
  topP : Option Float32
  maxTokens : Option UInt32
  maxCompletionTokens : Option UInt32
  stop : Option (List String)
  n : Option UInt32
  presencePenalty : Option Float32
  frequencyPenalty : Option Float32
  tools : Option (List Tool)
  toolChoice : Option Value
  parallelToolCalls : Option Bool
  responseFormat : Option Value
  seed : Option ℤ
  logprobs : Option Bool
  topLogprobs : Option UInt32
  logitBias : Option (List (String × Float32))
  serviceTier : Option String
  reasoningEffort : Option String
  deriving Inhabited

def ChatCompletionRequest.keyView (req : ChatCompletionRequest) : KeyView where
  model := req.model
  messages := req.messages
  temperature := req.temperature
  topP := req.topP
  maxTokens := req.maxTokens
  maxCompletionTokens := req.maxCompletionTokens
  stop := req.stop
  n := req.n
  presencePenalty := req.presencePenalty
  frequencyPenalty := req.frequencyPenalty
  tools := req.tools
  toolChoice := req.toolChoice
  parallelToolCalls := req.parallelToolCalls
  responseFormat := req.responseFormat
  seed := req.seed
  logprobs := req.logprobs
  topLogprobs := req.topLogprobs
  logitBias := req.logitBias
  serviceTier := req.serviceTier
  reasoningEffort := req.reasoningEffort

/-- Two requests have one view iff they differ in `stream` and `user` at most. -/
theorem ChatCompletionRequest.keyView_eq_iff {a b : ChatCompletionRequest} :
    a.keyView = b.keyView ↔ { a with stream := b.stream, user := b.user } = b := by
  obtain ⟨⟩ := a
  obtain ⟨⟩ := b
  simp only [keyView, KeyView.mk.injEq, ChatCompletionRequest.mk.injEq]
  tauto

structure CacheKey where
  tenantId : String
  namespaceName : String
  /-- What the digest is of. -/
  hashed : List UInt8
  deriving DecidableEq, Repr

def utf8 (s : String) : List UInt8 := s.toUTF8.data.toList

/-- The 64-bit number, least significant byte first. -/
def toLeBytes (n : ℕ) : List UInt8 := (List.range 8).map fun i => (n / 256 ^ i).toUInt8

/-- A provider's name as the key and the semantic cache see it. -/
def normalizedProvider (name : String) : String := asciiLower (trimText name)

/-- The chain, each name followed by a separator. -/
def chainBytes (chain : List String) : List UInt8 :=
  chain.flatMap fun p => utf8 (normalizedProvider p) ++ [0x1f]

/-- A generation that was never bumped is not hashed. -/
def generationBytes (generation : ℕ) : List UInt8 :=
  if 0 < generation then 0x1e :: toLeBytes generation else []

/-- The key of a request; `toVec` is `serde_json::to_vec`. -/
def exactKeyGen (toVec : KeyView → List UInt8) (tenantId namespaceName : String)
    (req : ChatCompletionRequest) (chain : List String) (generation : ℕ) : CacheKey where
  tenantId := tenantId
  namespaceName := namespaceName
  hashed := toVec req.keyView ++ [0x1f] ++ chainBytes chain ++ generationBytes generation

/-! ## What a key tells apart -/

/-- A number that is not finite is written `null`. -/
def wireNumber (x : Float32) : Option Float32 := if x.isFinite then some x else none

/-- Two views with one JSON text: they differ at most in numbers that are not finite. -/
structure KeyView.SameWire (v v' : KeyView) : Prop where
  rest : { v with
    temperature := v'.temperature, topP := v'.topP, presencePenalty := v'.presencePenalty,
    frequencyPenalty := v'.frequencyPenalty, logitBias := v'.logitBias } = v'
  temperature : v.temperature.map wireNumber = v'.temperature.map wireNumber
  topP : v.topP.map wireNumber = v'.topP.map wireNumber
  presencePenalty : v.presencePenalty.map wireNumber = v'.presencePenalty.map wireNumber
  frequencyPenalty : v.frequencyPenalty.map wireNumber = v'.frequencyPenalty.map wireNumber
  logitBias : v.logitBias.map (List.map fun b => (b.1, wireNumber b.2)) =
    v'.logitBias.map (List.map fun b => (b.1, wireNumber b.2))

theorem KeyView.SameWire.refl (v : KeyView) : v.SameWire v := ⟨rfl, rfl, rfl, rfl, rfl, rfl⟩

/-- All numbers of a view are finite. -/
structure KeyView.Finite (v : KeyView) : Prop where
  temperature : ∀ x ∈ v.temperature, x.isFinite = true
  topP : ∀ x ∈ v.topP, x.isFinite = true
  presencePenalty : ∀ x ∈ v.presencePenalty, x.isFinite = true
  frequencyPenalty : ∀ x ∈ v.frequencyPenalty, x.isFinite = true
  logitBias : ∀ bs ∈ v.logitBias, ∀ b ∈ bs, b.2.isFinite = true

theorem wireNumber_inj {x y : Float32} (hx : x.isFinite = true) (h : wireNumber x = wireNumber y) :
    x = y := by
  unfold wireNumber at h
  rw [if_pos hx] at h
  split at h
  · exact Option.some.inj h
  · cases h

/-- What is injective where it is applied is so under an option. -/
theorem map_inj_of_mem {α β : Type} {f : α → β} {o o' : Option α}
    (hf : ∀ a ∈ o, ∀ a', f a = f a' → a = a') (h : o.map f = o'.map f) : o = o' := by
  cases o with
  | none =>
    cases o' with
    | none => rfl
    | some a' => cases h
  | some a =>
    cases o' with
    | none => cases h
    | some a' => rw [hf a rfl a' (Option.some.inj h)]

/-- By induction on the biases. -/
theorem logitBias_inj {bs bs' : List (String × Float32)} (hfin : ∀ b ∈ bs, b.2.isFinite = true)
    (h : bs.map (fun b => (b.1, wireNumber b.2)) = bs'.map fun b => (b.1, wireNumber b.2)) :
    bs = bs' := by
  induction bs generalizing bs' with
  | nil => exact (List.map_eq_nil_iff.1 h.symm).symm
  | cons b bs ih =>
    cases bs' with
    | nil => cases h
    | cons b' bs' =>
      obtain ⟨hb, hbs⟩ := List.cons.inj h
      obtain ⟨hname, hnumber⟩ := Prod.mk.inj hb
      have hsame : b = b' :=
        Prod.ext hname (wireNumber_inj (hfin b List.mem_cons_self) hnumber)
      rw [hsame, ih (fun c hc => hfin c (List.mem_cons_of_mem _ hc)) hbs]

/-- **Finite numbers are told apart.** -/
theorem KeyView.SameWire.eq_of_finite {v v' : KeyView} (h : v.SameWire v') (hfin : v.Finite) :
    v = v' := by
  have htemperature := map_inj_of_mem (fun x hx _ => wireNumber_inj (hfin.temperature x hx))
    h.temperature
  have htopP := map_inj_of_mem (fun x hx _ => wireNumber_inj (hfin.topP x hx)) h.topP
  have hpresence := map_inj_of_mem (fun x hx _ => wireNumber_inj (hfin.presencePenalty x hx))
    h.presencePenalty
  have hfrequency := map_inj_of_mem (fun x hx _ => wireNumber_inj (hfin.frequencyPenalty x hx))
    h.frequencyPenalty
  have hbias := map_inj_of_mem (fun bs hbs _ => logitBias_inj (hfin.logitBias bs hbs)) h.logitBias
  have hrest := h.rest
  rw [← htemperature, ← htopP, ← hpresence, ← hfrequency, ← hbias] at hrest
  exact hrest

/-- `serde_json::to_vec` on two views: no control character is written as it is, and two views have
one text iff they differ at most in numbers that are not finite. -/
structure Serialises (toVec : KeyView → List UInt8) (v v' : KeyView) : Prop where
  escaped : 0x1f ∉ toVec v
  escaped' : 0x1f ∉ toVec v'
  faithful : toVec v = toVec v' ↔ v.SameWire v'

/-- **What equal keys of one generation agree in.** -/
theorem exactKeyGen_eq_iff {toVec : KeyView → List UInt8} {tenantId tenantId' : String}
    {namespaceName namespaceName' : String} {req req' : ChatCompletionRequest}
    {chain chain' : List String} {generation : ℕ}
    (hvec : Serialises toVec req.keyView req'.keyView) :
    exactKeyGen toVec tenantId namespaceName req chain generation =
        exactKeyGen toVec tenantId' namespaceName' req' chain' generation ↔
      (tenantId = tenantId' ∧ namespaceName = namespaceName') ∧
        req.keyView.SameWire req'.keyView ∧ chainBytes chain = chainBytes chain' := by
  unfold exactKeyGen
  rw [CacheKey.mk.injEq, ← and_assoc, List.append_cancel_right_eq, List.append_assoc,
    List.append_assoc, List.singleton_append, List.singleton_append,
    Separated.append_inj hvec.escaped hvec.escaped', hvec.faithful]

/-- **What equal hashed bytes agree in**: the request, and what follows the first separator. -/
theorem hashed_eq_iff {toVec : KeyView → List UInt8} {tenantId tenantId' : String}
    {namespaceName namespaceName' : String} {req req' : ChatCompletionRequest}
    {chain chain' : List String} {generation generation' : ℕ}
    (hvec : Serialises toVec req.keyView req'.keyView) :
    (exactKeyGen toVec tenantId namespaceName req chain generation).hashed =
        (exactKeyGen toVec tenantId' namespaceName' req' chain' generation').hashed ↔
      req.keyView.SameWire req'.keyView ∧
        chainBytes chain ++ generationBytes generation =
          chainBytes chain' ++ generationBytes generation' := by
  unfold exactKeyGen
  simp only [List.append_assoc, List.cons_append, List.nil_append]
  rw [Separated.append_inj hvec.escaped hvec.escaped', hvec.faithful]

/-- A 64-bit number is read back from its bytes. -/
theorem toLeBytes_inj {m n : ℕ} (hm : m < 2 ^ 64) (hn : n < 2 ^ 64)
    (h : toLeBytes m = toLeBytes n) : m = n := by
  have hbyte : ∀ i < 8, m / 256 ^ i % 256 = n / 256 ^ i % 256 := by
    intro i hi
    have hmap := List.map_inj_left.1 h i (List.mem_range.2 hi)
    exact congrArg UInt8.toNat hmap
  have hlow : ∀ k ≤ 8, m % 256 ^ k = n % 256 ^ k := by
    intro k
    induction k with
    | zero => exact fun _ => by rw [Nat.pow_zero, Nat.mod_one, Nat.mod_one]
    | succ k ih =>
      intro hk
      rw [Nat.mod_pow_succ, Nat.mod_pow_succ, ih (by omega), hbyte k (by omega)]
  have hall := hlow 8 (Nat.le_refl _)
  rwa [Nat.mod_eq_of_lt (by omega), Nat.mod_eq_of_lt (by omega)] at hall

theorem generationBytes_inj {m n : ℕ} (hm : m < 2 ^ 64) (hn : n < 2 ^ 64)
    (h : generationBytes m = generationBytes n) : m = n := by
  unfold generationBytes at h
  split at h
  · split at h
    · exact toLeBytes_inj hm hn (List.cons.inj h).2
    · cases h
  · split at h
    · cases h
    · omega

theorem utf8_inj {s t : String} (h : utf8 s = utf8 t) : s = t := by
  unfold utf8 at h
  have hdata : s.toUTF8.data = t.toUTF8.data := Array.toList_inj.1 h
  have hbytes : s.toByteArray = t.toByteArray := ByteArray.ext hdata
  exact String.toByteArray_inj.1 hbytes

theorem normalizedProvider_idem (name : String) :
    normalizedProvider (normalizedProvider name) = normalizedProvider name := by
  unfold normalizedProvider asciiLower trimText
  simp only [String.toList_ofList]
  rw [trimChars_map_toLower, trimChars_trimChars, List.map_map]
  congr 2
  exact funext toLower_toLower

/-- A provider name without the separator. -/
def Unsplit (name : String) : Prop := 0x1f ∉ utf8 (normalizedProvider name)

/-- The chain as words with the separator after each. -/
theorem chainBytes_eq_join (chain : List String) :
    chainBytes chain = Separated.join 0x1f ((chain.map normalizedProvider).map utf8) := by
  unfold chainBytes Separated.join
  rw [List.flatMap_map, List.flatMap_map]

/-- **Names without the separator are told apart.** -/
theorem chainBytes_inj {chain chain' : List String} (hc : ∀ p ∈ chain, Unsplit p)
    (hc' : ∀ p ∈ chain', Unsplit p) (h : chainBytes chain = chainBytes chain') :
    chain.map normalizedProvider = chain'.map normalizedProvider := by
  have hwords : ∀ c : List String, (∀ p ∈ c, Unsplit p) →
      ∀ w ∈ (c.map normalizedProvider).map utf8, 0x1f ∉ w := by
    intro c hc w hw
    rw [List.map_map] at hw
    obtain ⟨p, hp, rfl⟩ := List.mem_map.1 hw
    exact hc p hp
  rw [chainBytes_eq_join, chainBytes_eq_join] at h
  have hinj : Function.Injective utf8 := fun _ _ => utf8_inj
  exact hinj.list_map (Separated.join_inj (hwords chain hc) (hwords chain' hc') h)

/-! ## Flush generations -/

def wildcardNamespace : String := "*"

/-- How often each scope was flushed. -/
structure FlushRegistry where
  generation : String → String → ℕ := fun _ _ => 0

/-- The generation of a namespace and of the wildcard together, saturating at 64 bits. -/
def FlushRegistry.generationEffective (r : FlushRegistry) (tenantId namespaceName : String) : ℕ :=
  let wildcard := r.generation tenantId wildcardNamespace
  if namespaceName = wildcardNamespace then wildcard
  else min (r.generation tenantId namespaceName + wildcard) (2 ^ 64 - 1)

end Routeplane
