import Routeplane.Policy.Shaping
import Routeplane.Proxy.SseBody

/-!
# Masking

The passes that walk the text of a request and of its answer: the text the residency
classifier reads, the masking of the request on its way in, and the masking of a buffered
response on its way out. (The streamed way out is `maskChunk`.) The masking engine is a
function on texts.

* `residencyClassifierText`, `maskMessages`, `maskResponse`: the passes.
* `length_residencyClassifierText`: how long the classified text is.
-/

namespace Routeplane

/-- The text one message gives the classifier: its content and each tool call's function name
and arguments. -/
def classifierText (m : Message) : String :=
  (m.toolCalls.getD []).foldl
    (fun t tc => t ++ "\n" ++ tc.function.name ++ "\n" ++ tc.function.arguments) m.content.asText

/-- The text the sovereign classifier and the injection adjudicator inspect. -/
def residencyClassifierText (messages : List Message) : String :=
  "\n".intercalate (messages.map classifierText)

/-- The masking of one message on its way in: its text parts and its name. -/
def maskMessage (process : String → String) (m : Message) : Message :=
  { m with
    content := m.content.mapText process
    name := m.name.map process }

def maskMessages (process : String → String) (messages : List Message) : List Message :=
  messages.map (maskMessage process)

/-- Token compression of `tool` messages, when the capability is active. -/
def compressToolResults (compress : String → String) (active : Bool) (messages : List Message) :
    List Message :=
  if active then
    messages.map fun m =>
      if m.role = "tool" then { m with content := m.content.mapText compress } else m
  else messages

/-- The request that is forwarded: masked, then compressed. -/
def maskRequest (process compress : String → String) (compression : Bool)
    (payload : ChatCompletionRequest) : ChatCompletionRequest :=
  { payload with
    messages := compressToolResults compress compression (maskMessages process payload.messages) }

/-- The egress pass over one text, shared by the buffered and the streaming path. -/
def postGuardrailText (process : String → String) (advanced : Bool) (text : String) : String :=
  let masked := process text
  if advanced then process masked else masked

/-- The masking of a buffered response: the content and the two passthrough texts. -/
def maskResponse (process : String → String) (advanced : Bool) (r : ChatCompletionResponse) :
    ChatCompletionResponse :=
  let mask := postGuardrailText process advanced
  { r with choices := r.choices.map fun c =>
      { c with message := { c.message with
          content := c.message.content.mapText mask
          reasoningContent := c.message.reasoningContent.map mask
          refusal := c.message.refusal.map mask } } }

/-! ## How long the classified text is -/

theorem length_intercalate (sep : String) (l : List String) :
    (sep.intercalate l).length = (l.map String.length).sum + (l.length - 1) * sep.length := by
  induction l with
  | nil => simp
  | cons t l ih =>
    cases l with
    | nil => simp
    | cons u l =>
      rw [String.intercalate_cons_cons, String.length_append, String.length_append, ih]
      simp only [List.map_cons, List.sum_cons, List.length_cons, Nat.add_sub_cancel]
      rw [Nat.succ_mul]
      omega

/-- The length a tool call adds. -/
def ToolCall.classifiedLength (tc : ToolCall) : ℕ :=
  tc.function.name.length + tc.function.arguments.length + 2

theorem length_classifierText (m : Message) : (classifierText m).length =
    m.content.asText.length + ((m.toolCalls.getD []).map ToolCall.classifiedLength).sum := by
  unfold classifierText
  generalize m.toolCalls.getD [] = calls
  generalize m.content.asText = t
  induction calls generalizing t with
  | nil => simp
  | cons tc calls ih =>
    have hn : "\n".length = 1 := rfl
    rw [List.foldl_cons, ih, List.map_cons, List.sum_cons]
    simp only [String.length_append, hn, ToolCall.classifiedLength]
    omega

theorem length_residencyClassifierText (messages : List Message) :
    (residencyClassifierText messages).length =
      (messages.map fun m => (classifierText m).length).sum + (messages.length - 1) := by
  unfold residencyClassifierText
  have hn : "\n".length = 1 := rfl
  rw [length_intercalate, hn, Nat.mul_one, List.length_map, List.map_map]
  rfl

end Routeplane
