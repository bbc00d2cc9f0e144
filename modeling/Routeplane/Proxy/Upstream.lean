import Routeplane.Adapters.OpenAi
import Routeplane.Adapters.Anthropic
import Routeplane.Adapters.Gemini
import Routeplane.Adapters.Cohere
import Routeplane.Proxy.SseBody

/-!
# A stream from its upstream's bytes to its client

An adapter translates what its upstream sends, the proxy waits for the first chunk and then hands
the chunks on. The upstream's own words for "complete" differ from dialect to dialect; the proxy
sees an end of the chunks only.

* `Dialect.chunks`: what the adapter yields. `streamBody`: the response body after some polls.
* `Dialect.terminal`, `Dialect.refuses`: what a payload is to its dialect.
-/

namespace Routeplane

inductive Dialect
  | openai
  | anthropic
  | gemini
  | cohere
  deriving DecidableEq, Repr

/-- What an adapter has beside the bytes. -/
structure Upstream where
  serde : Serde
  now : ℕ
  geminiId : GeminiStreamId
  cohereStart : CohereStreamState

namespace Dialect

variable (up : Upstream)

def chunks (reads : List Read) : Dialect → List StreamItem
  | openai => openaiSseToChunks up.serde reads
  | anthropic => anthropicSseToChunks up.serde up.now reads
  | gemini => geminiSseToChunks up.serde up.geminiId reads
  | cohere => cohereSseToChunks up.serde up.cohereStart reads

/-- The `type` of a payload. -/
def eventType (payload : String) : Option String :=
  match up.serde.fromStr payload with
  | .ok v => (v.get "type").bind Value.asStr
  | .error _ => none

/-- The upstream's own terminal event. -/
def terminal (payload : String) : Dialect → Bool
  | openai => payload = "[DONE]"
  | anthropic => eventType up payload = some "message_stop"
  | gemini =>
    match up.serde.fromStr payload with
    | .ok v => (GeminiStreamState.candidate v).any fun c => (c.idx "finishReason").asStr.isSome
    | .error _ => false
  | cohere => eventType up payload = some "message-end"

/-- A payload the adapter gives up at. -/
def refuses (payload : String) : Dialect → Bool
  | openai =>
    match parseOpenaiSsePayload up.serde payload with
    | .ok _ => false
    | .error _ => true
  | anthropic =>
    match up.serde.fromStr payload with
    | .ok v => (v.get "type").bind Value.asStr = some "error"
    | .error _ => true
  | gemini =>
    match up.serde.fromStr payload with
    | .ok v => (v.get "error").any fun e => e.asObject.isSome
    | .error _ => true
  | cohere =>
    match up.serde.fromStr payload with
    | .ok _ => false
    | .error _ => true

/-- What the payloads translate to, one after the other. -/
def translated (payloads : List String) : Dialect → List StreamItem
  | openai => ((openaiLoop up.serde).feed () payloads).1
  | anthropic => ((anthropicLoop up.serde up.now).feed {} payloads).1
  | gemini => ((geminiLoop up.serde up.geminiId).feed {} payloads).1
  | cohere => ((cohereLoop up.serde up.cohereStart).feed up.cohereStart payloads).1

end Dialect

/-- The bytes read before the transport fails. -/
def receivedBytes : List Read → List UInt8
  | [] | .error _ :: _ => []
  | .ok bytes :: reads => bytes ++ receivedBytes reads

/-- The payloads of the whole lines received. -/
def receivedPayloads (serde : Serde) (reads : List Read) : List String :=
  ((⟨receivedBytes reads⟩ : SseLineBuffer).payloads serde.fromUtf8Lossy).1

/-- The error the transport fails with, if it does. -/
def transportFailure : List Read → Option String
  | [] => none
  | .error e :: _ => some e
  | .ok _ :: reads => transportFailure reads

/-! ## The body, polled -/

/-- What a body finds that waits for the next chunk. -/
inductive Wake
  | pending
  | ready
  | elapsed
  deriving DecidableEq, Repr

def Wake.next : Wake → List StreamItem → NextItem × List StreamItem
  | .pending, items => (.pending, items)
  | .elapsed, items => (.elapsed, items)
  | .ready, [] => (.ended, [])
  | .ready, r :: items => (.item r, items)

/-- One poll, with the chunks still to come. -/
def pollStream (ctx : StreamContext) (first : ChatCompletionChunk) (s : Body × List StreamItem)
    (wake : Wake) : Body × List StreamItem :=
  match s.1.gen with
  | .awaiting _ | .yielded _ => (poll ctx first s.1 (wake.next s.2).1, (wake.next s.2).2)
  | .created | .terminal _ _ | .finished => (poll ctx first s.1 .pending, s.2)

/-- The body after some polls; there is none unless the first chunk comes. -/
def streamBody (ctx : StreamContext) (items : List StreamItem) (wakes : List Wake) : Option Body :=
  match items with
  | .ok first :: rest => some (wakes.foldl (pollStream ctx first) (⟨.created, {}⟩, rest)).1
  | _ => none

end Routeplane
