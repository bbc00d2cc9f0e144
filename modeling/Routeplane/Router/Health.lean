import Routeplane.Router.Breaker

/-!
# Provider health

One breaker, latency average and in-flight gauge per `(owner, provider)` cell. Every
accessor resolves the tenant's own cell first and the shared `globalOwner` cell second, as
provider resolution does, so the breaker follows the adapter. Beside the cells sit the
per-key cooldown words of the key pools.

* `resolve`: which cell `(owner, provider)` means.
* `cell_update`: an update touches the resolved cell and no other.
* `admits_isAvailable`: asking changes no later answer.
-/

namespace Routeplane

/-- The owner of the built-in and operator-global cells. -/
def globalOwner : String := ""

def latencyAlphaMilli : ℕ := 200

/-- Fold a sample into the moving average; the first one seeds it. -/
def foldLatency (prior : Option ℕ) (sample : ℕ) : ℕ :=
  match prior with
  | none => sample
  | some p => (latencyAlphaMilli * sample + (1000 - latencyAlphaMilli) * p) / 1000

structure ProviderHealth where
  breaker : CircuitBreaker := {}
  latency : Option ℕ := none
  inFlight : ℕ := 0
  deriving DecidableEq, Repr, Inhabited

structure HealthTracker where
  providers : String → String → Option ProviderHealth
  keyCooldowns : ℕ → ℕ
  /-- The per-process seeded hash of `(tenant, provider, key index)`. -/
  keyHash : String → String → ℕ → ℕ

instance : Inhabited HealthTracker := ⟨⟨fun _ _ => none, fun _ => 0, fun _ _ _ => 0⟩⟩

inductive ProbeAdmission
  /-- Admitted; the guard returns the slot to the cell of `owner`. -/
  | admitted (owner : String)
  | rejected
  | untracked
  deriving DecidableEq, Repr

namespace HealthTracker

/-- A tracker with the built-ins registered under `globalOwner`. -/
def new (builtins : List String) (keyHash : String → String → ℕ → ℕ) : HealthTracker where
  providers owner name := if owner = globalOwner ∧ name ∈ builtins then some {} else none
  keyCooldowns _ := 0
  keyHash := keyHash

/-- The owner whose cell `(owner, provider)` resolves to: the tenant's own, else the shared one. -/
def resolve (h : HealthTracker) (owner provider : String) : Option String :=
  if (h.providers owner provider).isSome then some owner
  else if (h.providers globalOwner provider).isSome then some globalOwner
  else none

def cell (h : HealthTracker) (owner provider : String) : Option ProviderHealth :=
  (h.providers owner provider).or (h.providers globalOwner provider)

/-- Rewrite the cell of one owner. -/
def modify (h : HealthTracker) (owner provider : String) (f : ProviderHealth → ProviderHealth) :
    HealthTracker :=
  { h with providers := fun o p =>
      if o = owner ∧ p = provider then (h.providers owner provider).map f else h.providers o p }

/-- Rewrite the cell `(owner, provider)` resolves to; an unknown provider is ignored. -/
def withHealth (h : HealthTracker) (owner provider : String)
    (f : ProviderHealth → ProviderHealth) : HealthTracker :=
  match h.resolve owner provider with
  | some o => h.modify o provider f
  | none => h

def healCell (now : ℕ) (c : ProviderHealth) : ProviderHealth :=
  { c with breaker := c.breaker.heal now }

/-- Whether a request may be admitted, without the self-healing the read performs. -/
def admits (h : HealthTracker) (owner provider : String) (now : ℕ) : Bool :=
  match h.cell owner provider with
  | some c => c.breaker.admits now c.inFlight
  | none => true

def isAvailable (h : HealthTracker) (owner provider : String) (now : ℕ) : Bool × HealthTracker :=
  (h.admits owner provider now, h.withHealth owner provider (healCell now))

/-- Admit a probe and reserve its slot in one step. -/
def tryEnterProbe (h : HealthTracker) (owner provider : String) (now : ℕ) :
    ProbeAdmission × HealthTracker :=
  match h.resolve owner provider, h.cell owner provider with
  | some o, some c =>
    let h := h.withHealth owner provider (healCell now)
    let enter := h.withHealth owner provider fun c => { c with inFlight := c.inFlight + 1 }
    match c.breaker.state now with
    | .opened => (.rejected, h)
    | .closed => (.admitted o, enter)
    | .halfOpen =>
      if c.breaker.successThreshold ≤ c.inFlight then (.rejected, h) else (.admitted o, enter)
  | _, _ => (.untracked, h)

/-- Drop the guard of an admitted probe. -/
def leave (h : HealthTracker) (admission : ProbeAdmission) (provider : String) : HealthTracker :=
  match admission with
  | .admitted o => h.modify o provider fun c => { c with inFlight := c.inFlight - 1 }
  | _ => h

def recordSuccess (h : HealthTracker) (owner provider : String) : HealthTracker :=
  h.withHealth owner provider fun c => { c with breaker := c.breaker.recordSuccess }

def recordFailure (h : HealthTracker) (owner provider : String) (now : ℕ) : HealthTracker :=
  h.withHealth owner provider fun c => { c with breaker := c.breaker.recordFailure now }

def recordLatency (h : HealthTracker) (owner provider : String) (ms : ℕ) : HealthTracker :=
  h.withHealth owner provider fun c => { c with latency := some (foldLatency c.latency ms) }

def latencyMs (h : HealthTracker) (owner provider : String) : Option ℕ :=
  (h.cell owner provider).bind (·.latency)

/-- Outstanding requests; an unknown provider reports the maximum and sorts last. -/
def inFlight (h : HealthTracker) (owner provider : String) : ℕ :=
  match h.cell owner provider with
  | some c => c.inFlight
  | none => 2 ^ 64 - 1

def state (h : HealthTracker) (owner provider : String) (now : ℕ) : CircuitState :=
  match h.cell owner provider with
  | some c => c.breaker.state now
  | none => .closed

/-! ## Key cooldowns -/

def keyCooldownCells : ℕ := 65536

def untilBits : ℕ := 42

/-- Pack a fingerprint and an until-stamp into one word. -/
def packCooldown (fp untilMs : ℕ) : ℕ :=
  fp % 2 ^ (64 - untilBits) * 2 ^ untilBits + untilMs % 2 ^ untilBits

def cooldownFp (word : ℕ) : ℕ := word / 2 ^ untilBits

def cooldownUntil (word : ℕ) : ℕ := word % 2 ^ untilBits

/-- The cell of a pool key and the non-zero fingerprint of its owner. -/
def keySlot (h : HealthTracker) (tenant provider : String) (keyIndex : ℕ) : ℕ × ℕ :=
  let hash := h.keyHash tenant provider keyIndex
  let fp := hash / 2 ^ 32 % 2 ^ (64 - untilBits)
  (hash % keyCooldownCells, if fp = 0 then 1 else fp)

/-- The stamp of a pool key, `0` when never cooled or when another key owns the cell. -/
def keyCooledUntil (h : HealthTracker) (tenant provider : String) (keyIndex : ℕ) : ℕ :=
  let (i, fp) := h.keySlot tenant provider keyIndex
  let word := h.keyCooldowns i
  if cooldownFp word = fp then cooldownUntil word else 0

def keyAvailable (h : HealthTracker) (tenant provider : String) (keyIndex now : ℕ) : Bool :=
  h.keyCooledUntil tenant provider keyIndex ≤ now

def setWord (h : HealthTracker) (i word : ℕ) : HealthTracker :=
  { h with keyCooldowns := fun j => if j = i then word else h.keyCooldowns j }

/-- Cool a pool key; its own stamp is only ever extended. -/
def coolKey (h : HealthTracker) (tenant provider : String) (keyIndex untilMs : ℕ) : HealthTracker :=
  let (i, fp) := h.keySlot tenant provider keyIndex
  let untilMs := min untilMs (2 ^ untilBits - 1)
  let cur := h.keyCooldowns i
  if cooldownFp cur = fp ∧ untilMs ≤ cooldownUntil cur then h
  else h.setWord i (packCooldown fp untilMs)

/-- Clear a pool key's own stamp. -/
def clearKey (h : HealthTracker) (tenant provider : String) (keyIndex : ℕ) : HealthTracker :=
  let (i, fp) := h.keySlot tenant provider keyIndex
  if cooldownFp (h.keyCooldowns i) = fp then h.setWord i 0 else h

/-! ## What an operation touches -/

variable {h : HealthTracker} {owner provider o p : String}

theorem cell_of_resolve_some (hr : h.resolve owner provider = some o) :
    h.cell owner provider = h.providers o provider ∧ (h.providers o provider).isSome := by
  unfold resolve at hr
  unfold cell
  split at hr
  · rename_i hs
    obtain rfl : owner = o := by simpa using hr
    obtain ⟨c, hc⟩ := Option.isSome_iff_exists.1 hs
    simp [hc]
  · rename_i hs
    split at hr
    · rename_i hg
      obtain rfl : globalOwner = o := by simpa using hr
      simp only [Option.not_isSome_iff_eq_none] at hs
      simp [hs, hg]
    · exact absurd hr (by simp)

theorem cell_of_resolve_none (hr : h.resolve owner provider = none) :
    h.cell owner provider = none := by
  unfold resolve at hr
  unfold cell
  split at hr
  · exact absurd hr (by simp)
  · rename_i hs
    split at hr
    · exact absurd hr (by simp)
    · rename_i hg
      simp only [Option.not_isSome_iff_eq_none] at hs hg
      simp [hs, hg]

@[simp] theorem modify_keyCooldowns (f : ProviderHealth → ProviderHealth) :
    (h.modify owner provider f).keyCooldowns = h.keyCooldowns := rfl

@[simp] theorem modify_keyHash (f : ProviderHealth → ProviderHealth) :
    (h.modify owner provider f).keyHash = h.keyHash := rfl

@[simp] theorem withHealth_keyHash (f : ProviderHealth → ProviderHealth) :
    (h.withHealth owner provider f).keyHash = h.keyHash := by
  unfold withHealth; split <;> rfl

@[simp] theorem withHealth_keyCooldowns (f : ProviderHealth → ProviderHealth) :
    (h.withHealth owner provider f).keyCooldowns = h.keyCooldowns := by
  unfold withHealth; split <;> rfl

@[simp] theorem keySlot_withHealth (f : ProviderHealth → ProviderHealth) (i : ℕ) :
    (h.withHealth owner provider f).keySlot o p i = h.keySlot o p i := by
  simp [keySlot]

@[simp] theorem keyCooledUntil_withHealth (f : ProviderHealth → ProviderHealth) (i : ℕ) :
    (h.withHealth owner provider f).keyCooledUntil o p i = h.keyCooledUntil o p i := by
  simp [keyCooledUntil]

theorem setWord_withHealth (f : ProviderHealth → ProviderHealth) (i word : ℕ) :
    (h.setWord i word).withHealth owner provider f =
      (h.withHealth owner provider f).setWord i word := by
  unfold withHealth
  change (match h.resolve owner provider with | some o => _ | none => _) = _
  split <;> rfl

/-- The breakers and the key cooldowns are updated independently. -/
theorem clearKey_withHealth (f : ProviderHealth → ProviderHealth) (i : ℕ) :
    (h.clearKey o p i).withHealth owner provider f =
      (h.withHealth owner provider f).clearKey o p i := by
  unfold clearKey
  simp only [keySlot_withHealth, withHealth_keyCooldowns]
  split
  · exact setWord_withHealth f _ _
  · rfl

/-- An update maps every cell by `f` or leaves it. -/
theorem providers_withHealth (f : ProviderHealth → ProviderHealth) :
    (h.withHealth owner provider f).providers o p =
      if h.resolve owner provider = some o ∧ p = provider then (h.providers o p).map f
      else h.providers o p := by
  unfold withHealth
  cases hr : h.resolve owner provider with
  | none => simp
  | some o' =>
    simp only [modify, Option.some.injEq]
    by_cases h1 : o = o' ∧ p = provider
    · obtain ⟨rfl, rfl⟩ := h1; simp
    · rw [if_neg h1, if_neg (fun h2 => h1 ⟨h2.1.symm, h2.2⟩)]

theorem isSome_withHealth (f : ProviderHealth → ProviderHealth) :
    ((h.withHealth owner provider f).providers o p).isSome = (h.providers o p).isSome := by
  rw [providers_withHealth]
  split <;> simp

/-- An update never changes which cell a name means. -/
@[simp] theorem resolve_withHealth (f : ProviderHealth → ProviderHealth) :
    (h.withHealth owner provider f).resolve o p = h.resolve o p := by
  simp only [resolve, isSome_withHealth]

/-- **An update rewrites the resolved cell**, seen under every name that resolves to it. -/
theorem cell_withHealth (f : ProviderHealth → ProviderHealth) :
    (h.withHealth owner provider f).cell o p =
      if h.resolve owner provider = h.resolve o p ∧ p = provider then (h.cell o p).map f
      else h.cell o p := by
  cases hr : h.resolve o p with
  | none =>
    have hn := cell_of_resolve_none hr
    have hn' := cell_of_resolve_none (h := h.withHealth owner provider f) (by simpa using hr)
    simp [hn, hn']
  | some o' =>
    have hs := (cell_of_resolve_some hr).1
    have hs' := (cell_of_resolve_some (h := h.withHealth owner provider f) (by simpa using hr)).1
    rw [hs, hs', providers_withHealth]

/-- Asking heals a breaker, so every cell is as it was or healed. -/
theorem cell_isAvailable (h : HealthTracker) (owner provider o p : String) (now : ℕ) :
    (h.isAvailable owner provider now).2.cell o p = h.cell o p ∨
      (h.isAvailable owner provider now).2.cell o p = (h.cell o p).map (healCell now) := by
  simp only [isAvailable, cell_withHealth]
  split
  · exact .inr rfl
  · exact .inl rfl

/-- **Asking whether a provider is available changes no later answer.** -/
@[simp] theorem admits_isAvailable (now : ℕ) :
    (h.isAvailable owner provider now).2.admits o p now = h.admits o p now := by
  rw [admits, admits]
  rcases cell_isAvailable h owner provider o p now with hc | hc <;> rw [hc]
  cases h.cell o p with
  | none => rfl
  | some c => exact CircuitBreaker.admits_heal _ _ _

@[simp] theorem latencyMs_isAvailable (now : ℕ) :
    (h.isAvailable owner provider now).2.latencyMs o p = h.latencyMs o p := by
  rw [latencyMs, latencyMs]
  rcases cell_isAvailable h owner provider o p now with hc | hc <;> rw [hc]
  cases h.cell o p <;> rfl

@[simp] theorem inFlight_isAvailable (now : ℕ) :
    (h.isAvailable owner provider now).2.inFlight o p = h.inFlight o p := by
  rw [inFlight, inFlight]
  rcases cell_isAvailable h owner provider o p now with hc | hc <;> rw [hc]
  cases h.cell o p <;> rfl

/-! ## What leaves the breakers alone -/

/-- Every cell keeps its breaker: its failure count and its state. -/
def SameBreakers (h h' : HealthTracker) : Prop :=
  ∀ o p, (h'.providers o p).map ProviderHealth.breaker = (h.providers o p).map ProviderHealth.breaker

theorem sameBreakers_recordLatency (ms : ℕ) : h.SameBreakers (h.recordLatency owner provider ms) := by
  intro o p
  unfold recordLatency
  rw [providers_withHealth]
  split
  · rw [Option.map_map]
    rfl
  · rfl

theorem sameBreakers_coolKey (i untilMs : ℕ) :
    h.SameBreakers (h.coolKey owner provider i untilMs) := by
  intro o p
  unfold coolKey
  simp only
  split <;> rfl

theorem SameBreakers.trans {h' h'' : HealthTracker} (h₁ : h.SameBreakers h')
    (h₂ : h'.SameBreakers h'') : h.SameBreakers h'' := fun o p => (h₂ o p).trans (h₁ o p)

/-! ## What leaves the key cooldowns alone -/

/-- `h` has the cooldowns of `h₀` outside some cells. -/
structure Touches (h₀ : HealthTracker) (cells : ℕ → Prop) (h : HealthTracker) : Prop where
  hash_eq : h.keyHash = h₀.keyHash
  word_eq : ∀ j, ¬cells j → h.keyCooldowns j = h₀.keyCooldowns j

section Touches

variable {h₀ : HealthTracker} {cells : ℕ → Prop}

theorem Touches.refl : Touches h₀ cells h₀ := ⟨rfl, fun _ _ => rfl⟩

theorem Touches.keySlot (ht : Touches h₀ cells h) (i : ℕ) : h.keySlot o p i = h₀.keySlot o p i := by
  simp only [HealthTracker.keySlot, ht.hash_eq]

/-- A key whose cell was not touched is cooled as before. -/
theorem Touches.keyCooledUntil (ht : Touches h₀ cells h) {i : ℕ}
    (hi : ¬cells (h₀.keySlot o p i).1) : h.keyCooledUntil o p i = h₀.keyCooledUntil o p i := by
  unfold HealthTracker.keyCooledUntil
  rw [ht.keySlot]
  simp only [ht.word_eq _ hi]

theorem Touches.withHealth (ht : Touches h₀ cells h) (f : ProviderHealth → ProviderHealth) :
    Touches h₀ cells (h.withHealth owner provider f) :=
  ⟨by rw [withHealth_keyHash, ht.hash_eq], fun j hj => by
    rw [withHealth_keyCooldowns, ht.word_eq j hj]⟩

theorem Touches.tryEnterProbe (ht : Touches h₀ cells h) (now : ℕ) :
    Touches h₀ cells (h.tryEnterProbe owner provider now).2 := by
  unfold HealthTracker.tryEnterProbe
  split
  · simp only
    split
    · exact ht.withHealth _
    · exact (ht.withHealth _).withHealth _
    · split
      · exact ht.withHealth _
      · exact (ht.withHealth _).withHealth _
  · exact ht

theorem Touches.leave (ht : Touches h₀ cells h) (probe : ProbeAdmission) :
    Touches h₀ cells (h.leave probe provider) := by
  unfold HealthTracker.leave
  split
  · exact ⟨ht.hash_eq, ht.word_eq⟩
  · exact ht

theorem Touches.setWord (ht : Touches h₀ cells h) {i word : ℕ} (hi : cells i) :
    Touches h₀ cells (h.setWord i word) := by
  refine ⟨ht.hash_eq, fun j hj => ?_⟩
  have hne : j ≠ i := fun h => hj (h ▸ hi)
  simp only [HealthTracker.setWord, if_neg hne]
  exact ht.word_eq j hj

theorem Touches.coolKey (ht : Touches h₀ cells h) {i : ℕ} (hi : cells (h₀.keySlot o p i).1)
    (untilMs : ℕ) : Touches h₀ cells (h.coolKey o p i untilMs) := by
  unfold HealthTracker.coolKey
  rw [ht.keySlot]
  simp only
  split
  · exact ht
  · exact ht.setWord hi

theorem Touches.clearKey (ht : Touches h₀ cells h) {i : ℕ} (hi : cells (h₀.keySlot o p i).1) :
    Touches h₀ cells (h.clearKey o p i) := by
  unfold HealthTracker.clearKey
  rw [ht.keySlot]
  simp only
  split
  · exact ht.setWord hi
  · exact ht

end Touches

end HealthTracker

end Routeplane
