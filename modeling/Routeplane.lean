import Routeplane.Adapters.Anthropic
import Routeplane.Adapters.Assembled
import Routeplane.Adapters.Cohere
import Routeplane.Adapters.Compatible
import Routeplane.Adapters.Gemini
import Routeplane.Adapters.OpenAi
import Routeplane.Adapters.Provider
import Routeplane.Adapters.Sse
import Routeplane.Adapters.Vision
import Routeplane.Auth.Registry
import Routeplane.Cache.Capacity
import Routeplane.Cache.Flush
import Routeplane.Cache.Idempotency
import Routeplane.Cache.Key
import Routeplane.Cache.Lanes
import Routeplane.Cache.StoreRuns
import Routeplane.Endpoints.Handlers
import Routeplane.Endpoints.Messages
import Routeplane.Endpoints.Slice
import Routeplane.Guardrails.Leak
import Routeplane.Guardrails.Passes
import Routeplane.Guardrails.Recognizers
import Routeplane.Guardrails.Redact
import Routeplane.Guardrails.Schema
import Routeplane.Guardrails.Unicode
import Routeplane.Ledger.Entry
import Routeplane.Lib.Addresses
import Routeplane.Lib.Assoc
import Routeplane.Lib.Best
import Routeplane.Lib.Calendar
import Routeplane.Lib.Cell
import Routeplane.Lib.CheckDigit
import Routeplane.Lib.Fallible
import Routeplane.Lib.Files
import Routeplane.Lib.FirstMatch
import Routeplane.Lib.FloatFormats
import Routeplane.Lib.Focus
import Routeplane.Lib.JsonSchema
import Routeplane.Lib.Matches
import Routeplane.Lib.Occurrences
import Routeplane.Lib.Omission
import Routeplane.Lib.Pattern
import Routeplane.Lib.Race
import Routeplane.Lib.RollingHash
import Routeplane.Lib.Rollup
import Routeplane.Lib.Run
import Routeplane.Lib.RunLength
import Routeplane.Lib.Separated
import Routeplane.Lib.Slot
import Routeplane.Lib.Split
import Routeplane.Lib.Turns
import Routeplane.Lib.Wakeup
import Routeplane.Lib.Weighted
import Routeplane.Limits.AuthFailures
import Routeplane.Limits.Calendar
import Routeplane.Limits.Distributed
import Routeplane.Limits.Live
import Routeplane.Limits.Policy
import Routeplane.Limits.Pricing
import Routeplane.Limits.Registry
import Routeplane.Limits.Scope
import Routeplane.Limits.Settling
import Routeplane.Limits.Window
import Routeplane.Observability.Lanes
import Routeplane.Observability.Reports
import Routeplane.Observability.UsageEvent
import Routeplane.Policy.Config
import Routeplane.Policy.Parse
import Routeplane.Policy.RequestJson
import Routeplane.Policy.Shaping
import Routeplane.Prompts.Registry
import Routeplane.Prompts.Render
import Routeplane.Prompts.Template
import Routeplane.Proof.Admit
import Routeplane.Proof.AnthropicFold
import Routeplane.Proof.AuthBackoff
import Routeplane.Proof.BootBudgets
import Routeplane.Proof.BreakerLaw
import Routeplane.Proof.BufferedStream
import Routeplane.Proof.CallBudget
import Routeplane.Proof.Capacity
import Routeplane.Proof.CheckDigits
import Routeplane.Proof.Classified
import Routeplane.Proof.CohereFold
import Routeplane.Proof.ComboPin
import Routeplane.Proof.CounterKeys
import Routeplane.Proof.Credentials
import Routeplane.Proof.Dispatch
import Routeplane.Proof.Durable
import Routeplane.Proof.EndpointResidency
import Routeplane.Proof.EntryRuns
import Routeplane.Proof.EveryTarget
import Routeplane.Proof.Evidence
import Routeplane.Proof.ExactKey
import Routeplane.Proof.Exhausted
import Routeplane.Proof.Fairness
import Routeplane.Proof.Fleet
import Routeplane.Proof.Flush
import Routeplane.Proof.GeminiFold
import Routeplane.Proof.GeminiTurns
import Routeplane.Proof.Headroom
import Routeplane.Proof.Hedge
import Routeplane.Proof.HitCounts
import Routeplane.Proof.Idempotent
import Routeplane.Proof.InFlight
import Routeplane.Proof.KeyCells
import Routeplane.Proof.LaneView
import Routeplane.Proof.Lanes
import Routeplane.Proof.LastGood
import Routeplane.Proof.LeakDetector
import Routeplane.Proof.LogRuns
import Routeplane.Proof.Logout
import Routeplane.Proof.Masking
import Routeplane.Proof.MissingPolicy
import Routeplane.Proof.ModeParity
import Routeplane.Proof.ModelControls
import Routeplane.Proof.ModelGates
import Routeplane.Proof.ModelRouting
import Routeplane.Proof.ModelScope
import Routeplane.Proof.NativeMessages
import Routeplane.Proof.Omissions
import Routeplane.Proof.Order
import Routeplane.Proof.OwnFaults
import Routeplane.Proof.OwnerIsolation
import Routeplane.Proof.Ownership
import Routeplane.Proof.ParamFrame
import Routeplane.Proof.PartMasking
import Routeplane.Proof.PoolOrder
import Routeplane.Proof.PromptClosed
import Routeplane.Proof.PromptRender
import Routeplane.Proof.ProviderRestart
import Routeplane.Proof.ProviderStore
import Routeplane.Proof.RawIdentifiers
import Routeplane.Proof.Reach
import Routeplane.Proof.Registries
import Routeplane.Proof.Replay
import Routeplane.Proof.ReportViews
import Routeplane.Proof.Reports
import Routeplane.Proof.RetryAfter
import Routeplane.Proof.RoutingBounds
import Routeplane.Proof.SchemaCheck
import Routeplane.Proof.Sizes
import Routeplane.Proof.Smuggled
import Routeplane.Proof.SovereignRouting
import Routeplane.Proof.SpendAlerts
import Routeplane.Proof.SseLoop
import Routeplane.Proof.SsrfGuard
import Routeplane.Proof.StreamBody
import Routeplane.Proof.StreamMasking
import Routeplane.Proof.Swap
import Routeplane.Proof.TemplatePrint
import Routeplane.Proof.TemplateText
import Routeplane.Proof.TemplateTree
import Routeplane.Proof.TokenMasking
import Routeplane.Proof.ToolResults
import Routeplane.Proof.Trials
import Routeplane.Proof.Truncation
import Routeplane.Proof.UsageBooks
import Routeplane.Proof.UsageLanes
import Routeplane.Proof.UsageLedger
import Routeplane.Proof.UsageTenants
import Routeplane.Proof.UsageWakeup
import Routeplane.Proof.VariantSplit
import Routeplane.Proof.WalkAlike
import Routeplane.Proof.Walks
import Routeplane.Proof.Window
import Routeplane.Providers.Registry
import Routeplane.Providers.Store
import Routeplane.Proxy.ApiError
import Routeplane.Proxy.Attempt
import Routeplane.Proxy.CachePlan
import Routeplane.Proxy.ConfigPoller
import Routeplane.Proxy.Executors
import Routeplane.Proxy.Gates
import Routeplane.Proxy.Hedge
import Routeplane.Proxy.Idempotent
import Routeplane.Proxy.Keys
import Routeplane.Proxy.Masking
import Routeplane.Proxy.Order
import Routeplane.Proxy.Pipeline
import Routeplane.Proxy.SseBody
import Routeplane.Proxy.Upstream
import Routeplane.Proxy.Walk
import Routeplane.Residency.Classification
import Routeplane.Residency.Engine
import Routeplane.Router.Atomics
import Routeplane.Router.Breaker
import Routeplane.Router.Health
import Routeplane.Router.InFlight
import Routeplane.Router.KeyCells
import Routeplane.Router.Orderings
import Routeplane.Router.Strategy
import Routeplane.Rtk.Filters
import Routeplane.Storage.Accounts
import Routeplane.Storage.Persist
import Routeplane.Types.Chat
import Routeplane.Types.Endpoints
import Routeplane.Types.Text
import Routeplane.Types.Value
