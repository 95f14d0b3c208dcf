import Lumio.Proxy.Tools

/-!
# Output items and stream events

The items of a response and the events of a Responses stream, each with the data it carries. The usage of a response
is kept as the upstream reported it.
-/

namespace Lumio.Proxy

inductive ContentPart where
  | outputText (text : Text)
  | refusal (refusal : Text)
deriving DecidableEq

/-- A finished output item. The text of a reasoning item stands in `reasoning_content` and in its summary. -/
inductive Item where
  | reasoning (id text : Text)
  | message (id : Text) (content : List ContentPart)
  | functionCall (id callId name arguments toolNamespace : Text)
  | customToolCall (id callId name input : Text)
deriving DecidableEq

/-- An output item as it is announced, in progress and empty. -/
inductive AddedItem where
  | reasoning (id : Text)
  | message (id : Text)
  | functionCall (id callId name toolNamespace : Text)
  | customToolCall (id callId name : Text)
deriving DecidableEq

inductive ResponseStatus where
  | inProgress
  | completed
  | incomplete
  | failed
deriving DecidableEq

def responseStatus (finishReason : Option Text) : ResponseStatus :=
  if finishReason = some "length".toList then .incomplete else .completed

structure Response where
  id : Text
  createdAt : Nat
  status : ResponseStatus
  model : Text
  output : List Item
  usage : Option Value
  /-- Whether `incomplete_details` names `max_output_tokens`. -/
  incompleteDetails : Bool
  requestFields : List (String × Value)

/-- The fields of the request that its response repeats. -/
def copyResponseRequestFields (originalRequest : Option Value) : List (String × Value) :=
  match originalRequest with
  | none => []
  | some request =>
    ["instructions", "max_output_tokens", "parallel_tool_calls", "previous_response_id", "reasoning", "temperature",
      "tool_choice", "tools", "top_p", "metadata"].filterMap fun key => (request.get key).map (key, ·)

def responseIdFromChatId (id : Option Text) : Text :=
  let id := id.getD "compat".toList
  if "resp_".toList.isPrefixOf id then id else "resp_".toList ++ id

inductive Event where
  /-- `response.created` -/
  | created (response : Response)
  /-- `response.in_progress` -/
  | inProgress (response : Response)
  /-- `response.output_item.added` -/
  | itemAdded (outputIndex : Nat) (item : AddedItem)
  /-- `response.reasoning_summary_part.added` -/
  | summaryPartAdded (itemId : Text) (outputIndex : Nat)
  /-- `response.reasoning_summary_text.delta` -/
  | summaryTextDelta (itemId : Text) (outputIndex : Nat) (delta : Text)
  /-- `response.reasoning_summary_text.done` -/
  | summaryTextDone (itemId : Text) (outputIndex : Nat) (text : Text)
  /-- `response.reasoning_summary_part.done` -/
  | summaryPartDone (itemId : Text) (outputIndex : Nat) (text : Text)
  /-- `response.content_part.added` -/
  | contentPartAdded (itemId : Text) (outputIndex : Nat)
  /-- `response.output_text.delta` -/
  | outputTextDelta (itemId : Text) (outputIndex : Nat) (delta : Text)
  /-- `response.output_text.done` -/
  | outputTextDone (itemId : Text) (outputIndex : Nat) (text : Text)
  /-- `response.content_part.done` -/
  | contentPartDone (itemId : Text) (outputIndex : Nat) (text : Text)
  /-- `response.function_call_arguments.delta` -/
  | argumentsDelta (itemId : Text) (outputIndex : Nat) (delta : Text)
  /-- `response.function_call_arguments.done` -/
  | argumentsDone (itemId : Text) (outputIndex : Nat) (arguments : Text)
  /-- `response.custom_tool_call_input.delta` -/
  | customInputDelta (itemId callId : Text) (outputIndex : Nat) (delta : Text)
  /-- `response.output_item.done` -/
  | itemDone (outputIndex : Nat) (item : Item)
  /-- `response.completed` -/
  | completed (response : Response)
  /-- `response.failed` -/
  | failed (response : Response) (message : Text) (errorType : Option Text)

namespace Event

def isTerminal : Event → Bool
  | completed _ | failed .. => true
  | _ => false

def isCreated : Event → Bool
  | created _ => true
  | _ => false

/-- The output index an event carries. -/
def outputIndex : Event → Option Nat
  | itemAdded i _ | summaryPartAdded _ i | summaryTextDelta _ i _ | summaryTextDone _ i _ | summaryPartDone _ i _
  | contentPartAdded _ i | outputTextDelta _ i _ | outputTextDone _ i _ | contentPartDone _ i _
  | argumentsDelta _ i _ | argumentsDone _ i _ | customInputDelta _ _ i _ | itemDone i _ => some i
  | created _ | inProgress _ | completed _ | failed .. => none

def addedIndex : Event → Option Nat
  | itemAdded i _ => some i
  | _ => none

def doneItem : Event → Option (Nat × Item)
  | itemDone i item => some (i, item)
  | _ => none

end Event

/-- What a converter writes: an event, or the line `data: [DONE]` that closes the stream. -/
inductive Sse where
  | event (event : Event)
  | doneMarker

def Sse.toEvent : Sse → Option Event
  | event e => some e
  | doneMarker => none

def eventsOf (output : List Sse) : List Event := output.filterMap Sse.toEvent

@[simp] theorem eventsOf_nil : eventsOf [] = [] := rfl

@[simp] theorem eventsOf_cons (e : Event) (output : List Sse) : eventsOf (.event e :: output) = e :: eventsOf output := rfl

@[simp] theorem eventsOf_append (xs ys : List Sse) : eventsOf (xs ++ ys) = eventsOf xs ++ eventsOf ys :=
  List.filterMap_append

@[simp] theorem eventsOf_map (events : List Event) : eventsOf (events.map .event) = events := by
  induction events with
  | nil => rfl
  | cons e events ih => simpa [eventsOf, Sse.toEvent] using ih

end Lumio.Proxy
