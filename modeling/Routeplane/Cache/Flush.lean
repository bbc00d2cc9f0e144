import Routeplane.Lib.Assoc
import Routeplane.Lib.Cell
import Routeplane.Limits.Window
import Routeplane.Cache.Key

/-!
# Flush generations under concurrent purges

Each registered tenant has one cell with the generations of its purged scopes. A purge bumps one
scope in a compare-and-swap loop on the cell; a key derivation loads the cell twice, for the
wildcard and for the namespace.

* `bumpScopes`: the body of the loop of `FlushRegistry::bump`.
* `readEffective`: the two loads of `FlushRegistry::generation_effective`.
-/

namespace Routeplane.Cache

open Limits (satAdd u64Max)

/-- The purged scopes of a tenant and their generations. -/
abbrev Scopes := Assoc String ℕ

/-- `FlushRegistry::generation`: none is 0. -/
def Scopes.generation (m : Scopes) (scope : String) : ℕ := (m.get scope).getD 0

inductive FlushError
  | invalidNamespace
  | scopeLimit
  | unknownTenant
  deriving DecidableEq, Repr

/-- `MAX_PURGED_SCOPES_PER_TENANT`. -/
def maxPurgedScopesPerTenant : ℕ := 64

def isValidFlushNamespace (scope : String) : Bool :=
  scope == wildcardNamespace ||
    (!scope.isEmpty && decide ((utf8 scope).length ≤ 64) &&
      (utf8 scope).all fun byte =>
        (0x61 ≤ byte && byte ≤ 0x7a) || (0x30 ≤ byte && byte ≤ 0x39) || byte == 0x5f || byte == 0x2d)

/-- The slot kept free for the wildcard until it is first used. -/
def reservedWildcard (m : Scopes) (scope : String) : ℕ :=
  if scope ≠ wildcardNamespace ∧ (m.get wildcardNamespace).isNone then 1 else 0

/-- The body of the loop of `bump`: what to swap in, and the answer. -/
def bumpScopes (scope : String) (m : Scopes) : Option Scopes × Except FlushError ℕ :=
  if isValidFlushNamespace scope then
    let existing := m.get scope
    if existing.isNone ∧ maxPurgedScopesPerTenant ≤ m.length + reservedWildcard m scope then
      (none, .error .scopeLimit)
    else
      let next := satAdd (existing.getD 0) 1
      (some (m.insert scope next), .ok next)
  else (none, .error .invalidNamespace)

/-- The generation of a namespace, the wildcard loaded from `early` and the namespace from `late`. -/
def readEffective (early late : Scopes) (namespaceName : String) : ℕ :=
  let wildcard := early.generation wildcardNamespace
  if namespaceName = wildcardNamespace then wildcard
  else satAdd (late.generation namespaceName) wildcard

/-- The cells of a registry as a snapshot; a tenant that is not registered has none. -/
def snapshot (cells : String → Option Scopes) : FlushRegistry where
  generation tenantId scope := ((cells tenantId).map fun m => m.generation scope).getD 0

/-- **Two loads of one state are a read of the snapshot.** -/
theorem readEffective_snapshot {cells : String → Option Scopes} {tenantId : String} {m : Scopes}
    (h : cells tenantId = some m) (namespaceName : String) :
    readEffective m m namespaceName =
      (snapshot cells).generationEffective tenantId namespaceName := by
  unfold readEffective FlushRegistry.generationEffective snapshot
  simp only [h, Option.map_some, Option.getD_some]
  rfl

/-! ## What a bump does to the scopes -/

/-- The three answers of a bump. -/
theorem bumpScopes_cases (scope : String) (m : Scopes) :
    (bumpScopes scope m =
        (some (m.insert scope (satAdd (m.generation scope) 1)),
          .ok (satAdd (m.generation scope) 1)) ∧
      ((m.get scope).isNone → m.length + reservedWildcard m scope < maxPurgedScopesPerTenant)) ∨
    (bumpScopes scope m = (none, .error .scopeLimit) ∧ (m.get scope).isNone ∧
      maxPurgedScopesPerTenant ≤ m.length + reservedWildcard m scope) ∨
    (bumpScopes scope m = (none, .error .invalidNamespace) ∧
      isValidFlushNamespace scope = false) := by
  unfold bumpScopes
  by_cases hvalid : isValidFlushNamespace scope = true
  · rw [if_pos hvalid]
    simp only
    by_cases hfull : (m.get scope).isNone ∧
        maxPurgedScopesPerTenant ≤ m.length + reservedWildcard m scope
    · rw [if_pos hfull]
      exact Or.inr (Or.inl ⟨rfl, hfull⟩)
    · rw [if_neg hfull]
      refine Or.inl ⟨rfl, fun hnone => ?_⟩
      by_contra hle
      exact hfull ⟨hnone, by omega⟩
  · rw [if_neg hvalid]
    exact Or.inr (Or.inr ⟨rfl, by simpa using hvalid⟩)

theorem Scopes.generation_insert (m : Scopes) (scope scope' : String) (n : ℕ) :
    Scopes.generation (m.insert scope n) scope' =
      if scope = scope' then n else m.generation scope' := by
  unfold generation
  rw [Assoc.get_insert]
  split <;> rfl

end Routeplane.Cache
