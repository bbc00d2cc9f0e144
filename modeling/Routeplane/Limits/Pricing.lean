import Routeplane.Lib.Assoc
import Routeplane.Limits.Window
import Mathlib.Algebra.Ring.Nat
import Mathlib.Data.Nat.Notation
import Mathlib.Tactic.Common

/-!
# The price book

Request cost in integer micro-USD, from rates in micro-USD per million tokens. The first
row whose pattern prices the model wins, most specific first.

The cost is shown in a local currency as well, in whole minor units of it. The currency is the one
a header asks for, else that of the region, else the default of the table.

* `FxRates`: the table, with a row for its default. `FxRates.merged`: with the operator's rows.
* `FxRates.resolve_mem`: the currency of a request is one of the table, at the table's rate.
* `costBreakdownWith`: the cost of a request.
-/

namespace Routeplane

structure PriceRow where
  pattern : String
  promptRate : ℕ
  completionRate : ℕ
  deriving DecidableEq, Repr

def priceBook : List PriceRow :=
  [⟨"gpt-4o-mini", 150000, 600000⟩, ⟨"gpt-4o", 3000000, 10000000⟩,
    ⟨"o1-mini", 1100000, 4400000⟩, ⟨"o1", 15000000, 60000000⟩,
    ⟨"gpt-4-turbo", 10000000, 30000000⟩, ⟨"gpt-3.5", 500000, 1500000⟩,
    ⟨"claude-3-5-haiku", 800000, 4000000⟩, ⟨"claude-3-haiku", 250000, 1250000⟩,
    ⟨"claude-3-opus", 15000000, 75000000⟩, ⟨"claude-3-5-sonnet", 3000000, 15000000⟩,
    ⟨"claude-3", 3000000, 15000000⟩, ⟨"claude", 3000000, 15000000⟩,
    ⟨"gemini-1.5-flash", 75000, 300000⟩, ⟨"gemini-2.0-flash", 100000, 400000⟩,
    ⟨"gemini-1.5-pro", 1250000, 5000000⟩, ⟨"gemini", 1250000, 5000000⟩]

def defaultRate : ℕ × ℕ := (2000000, 6000000)

/-- Patterns this short must sit at a model-id boundary. -/
def shortPatternLen : ℕ := 3

/-- `pat` occurs in `cs` where a model id would carry it: at the start or after a `/`, and
up to the end or a character that cannot continue the id. -/
def occursAtBoundary (pat : List Char) : Option Char → List Char → Bool
  | _, [] => false
  | prev, c :: cs =>
    ((prev == none || prev == some '/') && pat.isPrefixOf (c :: cs) &&
        match (c :: cs).drop pat.length with
        | [] => true
        | next :: _ => !next.isAlphanum) ||
      occursAtBoundary pat (some c) cs

def patternMatches (model pat : String) : Bool :=
  if shortPatternLen < pat.toList.length then
    model.toList.tails.any fun tail => pat.toList.isPrefixOf tail
  else occursAtBoundary pat.toList none model.toList

def priceFor (model : String) : Option (ℕ × ℕ) :=
  (priceBook.find? fun row => patternMatches model row.pattern).map fun row =>
    (row.promptRate, row.completionRate)

/-- The cost of a request; the products saturate at 64 bits. -/
def estimateCostMicroUsd (model : String) (promptTokens completionTokens : UInt32) : ℕ :=
  let (promptRate, completionRate) := (priceFor model).getD defaultRate
  let top := 2 ^ 64 - 1
  let micro := min (min (promptTokens.toNat * promptRate) top +
    min (completionTokens.toNat * completionRate) top) top
  micro / 1000000

/-- A vendor id that merely contains the letters of a short row is not priced by it. -/
example : priceFor "sao10k/l3-lunaris-8b" = none ∧ priceFor "openai/o1-preview" ≠ none := by
  decide

/-! ## Currencies -/

structure CurrencyRate where
  /-- Minor units of the currency to one USD. -/
  minorPerUsd : ℕ
  exponent : ℕ
  deriving DecidableEq, Repr

/-- Rates by currency code, and the currency of each region. The default currency has a rate. -/
structure FxRates where
  rates : Assoc String CurrencyRate
  regionCurrency : Assoc String String
  defaultCurrency : String
  backed : (rates.get defaultCurrency).isSome

/-- An operator's table, its rows in the order they are walked. -/
structure FxRatesConfig where
  rates : Assoc String CurrencyRate := []
  regionCurrency : Assoc String String := []
  defaultCurrency : Option String := none

namespace FxRates

def builtIn : FxRates where
  rates := [("INR", ⟨8300, 2⟩), ("EUR", ⟨92, 2⟩), ("AED", ⟨3672, 2⟩), ("USD", ⟨100, 2⟩)]
  regionCurrency := [("IN", "INR"), ("EU", "EUR"), ("AE", "AED")]
  defaultCurrency := "USD"
  backed := by decide

/-- Rows added to a table, their codes folded. -/
def addRates (fold : String → String) (rates rows : Assoc String CurrencyRate) :
    Assoc String CurrencyRate :=
  rows.foldl (fun m row => m.insert (fold row.1) row.2) rates

theorem isSome_addRates (fold : String → String) (rows rates : Assoc String CurrencyRate)
    {code : String} (h : (rates.get code).isSome) :
    ((addRates fold rates rows).get code).isSome := by
  unfold addRates
  induction rows generalizing rates with
  | nil => exact h
  | cons row rows ih =>
    refine ih (rates.insert (fold row.1) row.2) ?_
    rw [Assoc.get_insert]
    split
    · rfl
    · exact h

section

variable (fold : String → String)

/-- The operator's rows are added to the table or replace its own. A default without a rate is
ignored. Codes are folded to upper case. -/
def merged (t : FxRates) (cfg : FxRatesConfig) : FxRates :=
  let rates := addRates fold t.rates cfg.rates
  let regionCurrency :=
    cfg.regionCurrency.foldl (fun m row => m.insert (fold row.1) (fold row.2)) t.regionCurrency
  let code := (cfg.defaultCurrency.map fold).getD t.defaultCurrency
  if h : (rates.get code).isSome then ⟨rates, regionCurrency, code, h⟩
  else ⟨rates, regionCurrency, t.defaultCurrency, isSome_addRates fold cfg.rates t.rates t.backed⟩

/-- The currency of a region; a configured one need not have a rate. -/
def regionCode (t : FxRates) (region : Option String) : String :=
  (region.bind fun r => t.regionCurrency.get (fold r)).getD t.defaultCurrency

/-- The currency of a request: a known code it asks for, else its region's, else the default. -/
def resolve (t : FxRates) (display region : Option String) : String × CurrencyRate :=
  match display.bind fun code => (t.rates.get (fold code)).map fun rate => (fold code, rate) with
  | some known => known
  | none =>
    let code := t.regionCode fold region
    match t.rates.get code with
    | some rate => (code, rate)
    | none => (t.defaultCurrency, (t.rates.get t.defaultCurrency).getD ⟨100, 2⟩)

/-- **The currency of a request is one of the table, at the table's rate.** -/
theorem resolve_mem (t : FxRates) (display region : Option String) :
    t.rates.get (t.resolve fold display region).1 = some (t.resolve fold display region).2 := by
  unfold resolve
  cases hknown : display.bind fun code =>
      (t.rates.get (fold code)).map fun rate => (fold code, rate) with
  | some known =>
    obtain ⟨code, -, hcode⟩ := Option.bind_eq_some_iff.1 hknown
    obtain ⟨rate, hrate, rfl⟩ := Option.map_eq_some_iff.1 hcode
    exact hrate
  | none =>
    cases hregion : t.rates.get (t.regionCode fold region) with
    | some rate => simp only [hregion]
    | none =>
      -- here the row of the default is needed
      obtain ⟨rate, hdefault⟩ := Option.isSome_iff_exists.1 t.backed
      simp only [hregion, hdefault, Option.getD_some]

end

end FxRates

/-- Whole minor units, rounded down. -/
def microUsdToMinorUnits (microUsd : ℕ) (rate : CurrencyRate) : ℕ :=
  Limits.satMul microUsd rate.minorPerUsd / 1000000

structure CostBreakdown where
  microUsd : ℕ
  currency : String
  minorUnits : ℕ
  region : Option String
  deriving DecidableEq, Repr

def costBreakdownWith (fold : String → String) (rates : FxRates) (display : Option String)
    (model : String) (region : Option String) (promptTokens completionTokens : UInt32) :
    CostBreakdown :=
  let microUsd := estimateCostMicroUsd model promptTokens completionTokens
  let (currency, rate) := rates.resolve fold display region
  ⟨microUsd, currency, microUsdToMinorUnits microUsd rate, region⟩

end Routeplane
