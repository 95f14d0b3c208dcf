import Lumio.Lib.Emit
import Lumio.Proxy.Events
import Lumio.Proxy.Reasoning

/-!
# The stream state

The chunks of a chat stream are turned into the events of a Responses stream: an item is announced when its first
fragment arrives, every fragment is passed on as a delta, and items are finished at boundaries or at the end.
-/

namespace Lumio.Proxy

/-- A text or a reasoning item: the source has one structure for each, with the same fields. -/
structure TextItemState where
  outputIndex : Option Nat := none
  itemId : Text := []
  text : Text := []
  added : Bool := false
  done : Bool := false

abbrev ReasoningItemState := TextItemState

inductive InlineThinkMode where
  | detecting
  | reasoning
  | text
deriving DecidableEq

structure InlineThinkState where
  mode : InlineThinkMode := .detecting
  buffer : Text := []

structure ToolCallState where
  outputIndex : Option Nat := none
  itemId : Text := []
  callId : Text := []
  name : Text := []
  arguments : Text := []
  added : Bool := false
  done : Bool := false

/-- The tools are keyed by the index the upstream gives them. -/
structure ChatSseState where
  responseStarted : Bool := false
  completed : Bool := false
  responseId : Text := "resp_compat".toList
  model : Text := []
  createdAt : Nat := 0
  nextOutputIndex : Nat := 0
  text : TextItemState := {}
  reasoning : ReasoningItemState := {}
  inlineThink : InlineThinkState := {}
  tools : Table Nat ToolCallState := ∅
  outputItems : List (Nat × Item) := []
  latestUsage : Option Value := none
  finishReason : Option Text := none
  toolContext : CodexToolContext := {}
  originalRequest : Option Value := none

/-- A step of the converter, which writes to the stream. -/
abbrev Step := Emit ChatSseState Sse

def pushSse (events : ChatSseState → List Event) : Step := Emit.say fun s => (events s).map .event

namespace ChatSseState

def withRequest (originalRequest : Value) : ChatSseState :=
  { toolContext := buildCodexToolContext (originalRequest.get "tools"), originalRequest := some originalRequest }

/-- The state of a converter that has read nothing, with the request it answers if that is known. -/
def start : Option Value → ChatSseState
  | some request => withRequest request
  | none => {}

def baseResponse (s : ChatSseState) (status : ResponseStatus) (output : List Item) : Response :=
  { id := s.responseId, createdAt := s.createdAt, status, model := s.model, output, usage := s.latestUsage,
    incompleteDetails := false, requestFields := [] }

def completedOutputItems (s : ChatSseState) : List Item :=
  (s.outputItems.mergeSort fun a b => a.1 ≤ b.1).map (·.2)

end ChatSseState

def ensureResponseStarted : Step :=
  Emit.onlyIf (!·.responseStarted) <| Emit.all [
    Emit.update fun s => { s with responseStarted := true },
    pushSse fun s => [.created (s.baseResponse .inProgress []), .inProgress (s.baseResponse .inProgress [])]]

/-! ## Reasoning and text -/

def addReasoning : Step := Emit.all [
  Emit.update fun s => { s with
    nextOutputIndex := s.nextOutputIndex + 1
    reasoning := { s.reasoning with
      outputIndex := some s.nextOutputIndex, itemId := "rs_".toList ++ s.responseId, added := true } },
  pushSse fun s => [
    .itemAdded (s.reasoning.outputIndex.getD 0) (.reasoning s.reasoning.itemId),
    .summaryPartAdded s.reasoning.itemId (s.reasoning.outputIndex.getD 0)]]

def appendReasoning (delta : Text) (s : ChatSseState) : ChatSseState :=
  { s with reasoning := { s.reasoning with text := s.reasoning.text ++ delta } }

def pushReasoningDelta (delta : Text) : Step := Emit.all [
  Emit.onlyIf (!·.reasoning.added) addReasoning,
  Emit.update (appendReasoning delta),
  pushSse fun s => [.summaryTextDelta s.reasoning.itemId (s.reasoning.outputIndex.getD 0) delta]]

def addText : Step := Emit.all [
  Emit.update fun s => { s with
    nextOutputIndex := s.nextOutputIndex + 1
    text := { s.text with
      outputIndex := some s.nextOutputIndex, itemId := s.responseId ++ "_msg".toList, added := true } },
  pushSse fun s => [
    .itemAdded (s.text.outputIndex.getD 0) (.message s.text.itemId),
    .contentPartAdded s.text.itemId (s.text.outputIndex.getD 0)]]

def appendText (delta : Text) (s : ChatSseState) : ChatSseState :=
  { s with text := { s.text with text := s.text.text ++ delta } }

def pushTextDelta (delta : Text) : Step := Emit.all [
  Emit.onlyIf (!·.text.added) addText,
  Emit.update (appendText delta),
  pushSse fun s => [.outputTextDelta s.text.itemId (s.text.outputIndex.getD 0) delta]]

def ChatSseState.reasoningItem (s : ChatSseState) : Item := .reasoning s.reasoning.itemId s.reasoning.text

def finishReasoning : Step := Emit.all [
  Emit.update fun s => { s with
    outputItems := s.outputItems ++ [(s.reasoning.outputIndex.getD 0, s.reasoningItem)]
    reasoning := { s.reasoning with done := true } },
  pushSse fun s =>
    let i := s.reasoning.outputIndex.getD 0
    [.summaryTextDone s.reasoning.itemId i s.reasoning.text, .summaryPartDone s.reasoning.itemId i s.reasoning.text,
      .itemDone i s.reasoningItem]]

def finalizeReasoning : Step := Emit.onlyIf (fun s => s.reasoning.added && !s.reasoning.done) finishReasoning

def ChatSseState.textItem (s : ChatSseState) : Item := .message s.text.itemId [.outputText s.text.text]

def finishText : Step := Emit.all [
  Emit.update fun s => { s with
    outputItems := s.outputItems ++ [(s.text.outputIndex.getD 0, s.textItem)]
    text := { s.text with done := true } },
  pushSse fun s =>
    let i := s.text.outputIndex.getD 0
    [.outputTextDone s.text.itemId i s.text.text, .contentPartDone s.text.itemId i s.text.text,
      .itemDone i s.textItem]]

def finalizeText : Step := Emit.onlyIf (fun s => s.text.added && !s.text.done) finishText

/-! ## Inline think blocks -/

/-- The parts of a think block that are not empty; the block's reasoning is finished at once. -/
def pushThinkBlock (reasoning answer : Text) : Step := Emit.all [
  if reasoning.isEmpty then Emit.skip else Emit.all [pushReasoningDelta reasoning, finalizeReasoning],
  if answer.isEmpty then Emit.skip else pushTextDelta answer]

def ChatSseState.withThink (s : ChatSseState) (mode : InlineThinkMode) (buffer : Text) : ChatSseState :=
  { s with inlineThink := ⟨mode, buffer⟩ }

def drainCompleteInlineThink : Step := fun s =>
  match splitLeadingThinkBlock s.inlineThink.buffer with
  | none => (s, [])
  | some (reasoning, answer) => pushThinkBlock reasoning answer (s.withThink .text [])

def pushContentDelta (delta : Text) : Step := fun s =>
  match s.inlineThink.mode with
  | .text => Emit.all [finalizeReasoning, pushTextDelta delta] s
  | .detecting =>
    match leadingThinkPrefixDecision (s.inlineThink.buffer ++ delta) with
    | .needMore => (s.withThink .detecting (s.inlineThink.buffer ++ delta), [])
    | .reasoning => drainCompleteInlineThink (s.withThink .reasoning (s.inlineThink.buffer ++ delta))
    | .text => Emit.all [finalizeReasoning, pushTextDelta (s.inlineThink.buffer ++ delta)] (s.withThink .text [])
  | .reasoning => drainCompleteInlineThink (s.withThink .reasoning (s.inlineThink.buffer ++ delta))

def flushInlineThinkAtBoundary : Step := fun s =>
  match s.inlineThink.mode with
  | .text => (s, [])
  | .detecting =>
    if s.inlineThink.buffer.isEmpty then (s.withThink .text [], [])
    else Emit.all [finalizeReasoning, pushTextDelta s.inlineThink.buffer] (s.withThink .text [])
  | .reasoning =>
    match splitLeadingThinkBlock s.inlineThink.buffer with
    | some (reasoning, answer) => pushThinkBlock reasoning answer (s.withThink .text [])
    | none =>
      pushThinkBlock ((stripLeadingThinkOpenTag s.inlineThink.buffer).getD s.inlineThink.buffer) []
        (s.withThink .text [])

/-! ## Tool calls -/

structure ToolCallDelta where
  chatIndex : Nat
  id : Option Text
  name : Option Text
  arguments : Text
deriving DecidableEq

def ToolCallDelta.ofValue (toolCall : Value) : ToolCallDelta :=
  let function := (toolCall.get "function").getD .null
  { chatIndex := ((toolCall.get "index").bind Value.asU64).getD 0
    id := toolCall.str "id"
    name := function.str "name"
    arguments := (function.str "arguments").getD [] }

def ToolCallState.merge (state : ToolCallState) (delta : ToolCallDelta) : ToolCallState :=
  { state with
    callId := delta.id.getD state.callId
    name := (delta.name.filter (!·.isEmpty)).getD state.name
    arguments := state.arguments ++ delta.arguments }

def ToolCallState.announce (state : ToolCallState) (chatIndex outputIndex : Nat) : ToolCallState :=
  let callId := if state.callId.isEmpty then "call_".toList ++ Text.ofNat chatIndex else state.callId
  { state with
    added := true
    callId
    name := if state.name.isEmpty then "unknown_tool".toList else state.name
    outputIndex := some outputIndex
    itemId := "fc_".toList ++ callId }

def toolCallAddedItem (context : CodexToolContext) (state : ToolCallState) : AddedItem :=
  if context.isCustomToolProxy state.name then
    .customToolCall ("ctc_".toList ++ state.callId) state.callId (context.originalCustomToolName state.name)
  else
    let (displayName, toolNamespace) := context.openaiNameForFunctionTool state.name
    .functionCall state.itemId state.callId displayName toolNamespace

/-- The input of a custom tool is not passed on in fragments. -/
def toolCallDeltaEvents (context : CodexToolContext) (state : ToolCallState) (outputIndex : Nat) (delta : Text) :
    List Event :=
  if context.isCustomToolProxy state.name then [] else [.argumentsDelta state.itemId outputIndex delta]

def ChatSseState.toolState (s : ChatSseState) (chatIndex : Nat) : ToolCallState := (s.tools.lookup chatIndex).getD {}

def ChatSseState.setTool (s : ChatSseState) (chatIndex : Nat) (tool : ToolCallState) : ChatSseState :=
  { s with tools := s.tools.insert chatIndex tool }

def ChatSseState.announcedTool (s : ChatSseState) (chatIndex : Nat) : ToolCallState :=
  (s.toolState chatIndex).announce chatIndex s.nextOutputIndex

def announceTool (chatIndex : Nat) : Step := fun s =>
  ({ s.setTool chatIndex (s.announcedTool chatIndex) with nextOutputIndex := s.nextOutputIndex + 1 },
    [.event (.itemAdded s.nextOutputIndex (toolCallAddedItem s.toolContext (s.announcedTool chatIndex)))])

/-- The delta events of the tool call at a key, if it has been announced and there is something to pass on. -/
def pushToolArguments (chatIndex : Nat) (delta : Text) : Step := pushSse fun s =>
  if delta.isEmpty || !(s.toolState chatIndex).added then []
  else
    match (s.toolState chatIndex).outputIndex with
    | some outputIndex => toolCallDeltaEvents s.toolContext (s.toolState chatIndex) outputIndex delta
    | none => []

/-- An announcement passes on all the arguments received before it. -/
def tellToolCallDelta (delta : ToolCallDelta) : Step := fun s =>
  let state := s.toolState delta.chatIndex
  if !state.added && (!state.callId.isEmpty || !state.name.isEmpty) then
    Emit.all [announceTool delta.chatIndex, pushToolArguments delta.chatIndex state.arguments] s
  else pushToolArguments delta.chatIndex delta.arguments s

def mergeToolCallDelta (delta : ToolCallDelta) (s : ChatSseState) : ChatSseState :=
  s.setTool delta.chatIndex ((s.toolState delta.chatIndex).merge delta)

def applyToolCallDelta (delta : ToolCallDelta) : Step :=
  Emit.all [Emit.update (mergeToolCallDelta delta), tellToolCallDelta delta]

def pushToolCallDelta (toolCall : Value) : Step := applyToolCallDelta (.ofValue toolCall)

section Finish

variable [SerdeJson]

def responseToolCallItem (context : CodexToolContext) (callId name arguments : Text) : Item :=
  if context.isCustomToolProxy name then
    .customToolCall ("ctc_".toList ++ callId) callId (context.originalCustomToolName name)
      (reconstructCustomToolCallInputWithContext context name arguments)
  else
    let (displayName, toolNamespace) := context.openaiNameForFunctionTool name
    .functionCall ("fc_".toList ++ callId) callId displayName arguments toolNamespace

def toolCallDoneItem (context : CodexToolContext) (state : ToolCallState) : Item :=
  responseToolCallItem context state.callId state.name state.arguments

def toolCallDoneEvent (context : CodexToolContext) (state : ToolCallState) (outputIndex : Nat) : Event :=
  if context.isCustomToolProxy state.name then
    .customInputDelta ("ctc_".toList ++ state.callId) state.callId outputIndex
      (reconstructCustomToolCallInputWithContext context state.name state.arguments)
  else .argumentsDone state.itemId outputIndex state.arguments

def finishTool (chatIndex : Nat) : Step := fun s =>
  let state := s.toolState chatIndex
  let outputIndex := state.outputIndex.getD 0
  let item := toolCallDoneItem s.toolContext state
  ({ s.setTool chatIndex { state with done := true } with outputItems := s.outputItems ++ [(outputIndex, item)] },
    [.event (toolCallDoneEvent s.toolContext state outputIndex), .event (.itemDone outputIndex item)])

def finalizeTool (chatIndex : Nat) : Step :=
  Emit.onlyIf (fun s => ((s.tools.lookup chatIndex).map fun state => !state.done).getD false) <| Emit.all [
    Emit.onlyIf (fun s => !(s.toolState chatIndex).added) (announceTool chatIndex),
    finishTool chatIndex]

def finalizeTools : Step := fun s => Emit.each finalizeTool (s.tools.keys.mergeSort fun a b => a ≤ b) s

/-! ## The ends of a stream -/

def complete : Step := Emit.all [
  pushSse fun s =>
    let status := responseStatus s.finishReason
    [.completed { s.baseResponse status s.completedOutputItems with
      incompleteDetails := status = .incomplete
      requestFields := copyResponseRequestFields s.originalRequest }],
  Emit.say fun _ => [.doneMarker],
  Emit.update fun s => { s with completed := true }]

def finalize : Step :=
  Emit.onlyIf (!·.completed) <| Emit.all [
    ensureResponseStarted, flushInlineThinkAtBoundary, finalizeReasoning, finalizeText, finalizeTools, complete]

def failed (message : Text) (errorType : Option Text) : Step := Emit.all [
  Emit.update fun s => { s with completed := true },
  pushSse fun s => [.failed (s.baseResponse .failed s.completedOutputItems) message (errorType.filter (!·.isEmpty))]]

end Finish

/-! ## Chunks -/

def readChunkHeader (chunk : Value) (s : ChatSseState) : ChatSseState :=
  { s with
    responseId := ((chunk.str "id").map fun id => responseIdFromChatId (some id)).getD s.responseId
    model := (chunk.nonEmptyStr "model").getD s.model
    createdAt := ((chunk.get "created").bind Value.asU64).getD s.createdAt }

def readUsage (chunk : Value) (s : ChatSseState) : ChatSseState :=
  match (chunk.get "usage").filter (!·.isNull) with
  | some usage => { s with latestUsage := some usage }
  | none => s

def pushToolCalls (toolCalls : List Value) : Step := Emit.all [
  flushInlineThinkAtBoundary, finalizeReasoning, Emit.each pushToolCallDelta toolCalls]

def handleDelta (delta : Value) : Step := Emit.all [
  Emit.forSome (extractReasoningFieldText delta) pushReasoningDelta,
  Emit.forSome (delta.nonEmptyStr "content") pushContentDelta,
  Emit.forSome ((delta.get "tool_calls").bind Value.asArray) pushToolCalls]

def readFinishReason (choice : Value) (s : ChatSseState) : ChatSseState :=
  { s with finishReason := (choice.str "finish_reason").or s.finishReason }

def handleChoice (choice : Value) : Step := Emit.all [
  Emit.forSome (choice.get "delta") handleDelta,
  Emit.update (readFinishReason choice)]

def firstChoice (chunk : Value) : Option Value := ((chunk.get "choices").bind Value.asArray).bind List.head?

def handleChatChunk (chunk : Value) : Step := Emit.all [
  Emit.update (readChunkHeader chunk),
  ensureResponseStarted,
  Emit.update (readUsage chunk),
  Emit.forSome (firstChoice chunk) handleChoice]

end Lumio.Proxy
