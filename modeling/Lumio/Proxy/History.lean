import Lumio.Proxy.PatchHistory
import Lumio.Proxy.Reasoning

/-!
# The history of a request

The input items of a Responses request become the messages of a chat request. Tool calls and reasoning texts are
buffered, for one assistant message carries several of them, and the buffers are flushed by most of the other items.
-/

namespace Lumio.Proxy

inductive ChatRole where
  | system
  | user
  | assistant
  | tool
deriving DecidableEq

/-- A call of the `tool_calls` of a message, whose type is always `function`. -/
structure ChatToolCall where
  id : Text
  name : Text
  arguments : Text
deriving DecidableEq

/-- A message object. The members that an item does not set are left out of it. -/
structure ChatMessage where
  role : ChatRole
  content : Value
  toolCallId : Option Text := none
  toolCalls : Option (List ChatToolCall) := none
  reasoningContent : Option Text := none

/-! ## Texts and contents -/

def instructionText : Value → Text
  | .string text => text
  | .array parts =>
    Text.join ['\n', '\n'] ((parts.filterMap fun part => (part.str "text").or part.asStr).filter (!·.isEmpty))
  | _ => []

def responsesRoleToChatRole (role : Option Text) : ChatRole :=
  if role = some "developer".toList ∨ role = some "system".toList then .system
  else if role = some "assistant".toList then .assistant
  else if role = some "tool".toList then .tool
  else .user

def textPart (text : Text) : Value := .object [("type", .ofStr "text"), ("text", .string text)]

def imagePart (imageUrl : Value) : Value :=
  let url :=
    match imageUrl with
    | .object members => .object members
    | other => .object [("url", .string (other.asStr.getD []))]
  .object [("type", .ofStr "image_url"), ("image_url", url)]

def inputImage (part : Value) : Option Value :=
  if part.str "type" = some "input_image".toList then part.get "image_url" else none

def chatPart (part : Value) : Option Value :=
  let type := (part.str "type").getD []
  if type = "input_text".toList ∨ type = "output_text".toList ∨ type = "text".toList then
    (part.nonEmptyStr "text").map textPart
  else if type = "refusal".toList then (part.nonEmptyStr "refusal").map textPart
  else (inputImage part).map imagePart

def responsesContentToChatContent : Value → Value
  | .array parts =>
    let chatParts := parts.filterMap chatPart
    if parts.any fun part => (inputImage part).isSome then .array chatParts
    else .string (Text.join ['\n'] (chatParts.filterMap (·.str "text")))
  | content => content

def summaryPartText (part : Value) : Option Text := (part.str "text").or ((part.str "content").or part.asStr)

def summaryText : Value → Option Text
  | .string text => if text.isEmpty then none else some text
  | .array parts => joinParagraphs ((parts.filterMap summaryPartText).filter (!·.isEmpty))
  | _ => none

def extractReasoningSummaryText (value : Value) : Option Text :=
  (firstText ["reasoning_content", "content", "text"] value).or ((value.get "summary").bind summaryText)

def responsesReasoningText (item : Value) : Option Text :=
  (extractReasoningSummaryText item).or (extractReasoningFieldText item)

def responsesHistoryFunctionName (item : Value) : Text :=
  let name := (item.str "name").getD []
  let toolNamespace := (item.str "namespace").getD []
  if name.isEmpty then [] else if toolNamespace.isEmpty then name else flattenNamespaceToolName toolNamespace name

/-! ## What an item is -/

/-- What the converter makes of an item. A `skipped` item is passed over; a `silent` one flushes the calls and says
nothing; a `reasoning` item may have no text. -/
inductive HistoryItem where
  | skipped
  | silent
  | call (call : ChatToolCall)
  | output (callId : Text) (output : Value)
  | reasoning (text : Text)
  | message (role : ChatRole) (content : Value)

/-- A call without an id is passed over. -/
def callItem (call : ChatToolCall) : HistoryItem := if call.id.isEmpty then .skipped else .call call

def outputItem (item : Value) : HistoryItem :=
  let callId := (item.str "call_id").getD []
  if callId.isEmpty then .skipped else .output callId ((item.get "output").getD .null)

/-- The first of some keys that is there gives the text, if it holds one. -/
def firstPresent (values : List (Option Value)) : Text :=
  ((values.foldr Option.or none).bind Value.asStr).getD []

section Items

variable [SerdeJson]

def functionCallItem (item : Value) : HistoryItem :=
  let name := responsesHistoryFunctionName item
  if name.isEmpty then .skipped
  else
    callItem
      { id := firstPresent [item.get "call_id", item.get "id"]
        name := name
        arguments := responsesArgumentsToChat ((item.get "arguments").getD (.object [])) }

def customToolCallItem (item : Value) : HistoryItem :=
  let history := buildCustomToolCallHistory ((item.str "name").getD [])
    (((item.get "input").or (item.get "arguments")).getD .null)
  callItem
    { id := firstPresent [item.get "call_id", item.get "id"], name := history.1, arguments := history.2 }

def toolCallItem (item : Value) : HistoryItem :=
  match item.get "tool_use" with
  | none => .skipped
  | some toolUse =>
    callItem
      { id := firstPresent [toolUse.get "id", item.get "call_id", item.get "id"]
        name := (toolUse.str "name").getD []
        arguments := responsesArgumentsToChat ((toolUse.get "input").getD (.object [])) }

def toolResultItem (item : Value) : HistoryItem :=
  let content := (item.get "content").getD .null
  let callId := firstPresent [content.get "tool_use_id", item.get "tool_call_id", item.get "call_id"]
  if callId.isEmpty then .silent else .output callId ((content.get "content").getD content)

def messageItem (item : Value) : HistoryItem :=
  match item.get "content" with
  | none => .silent
  | some content =>
    let role := responsesRoleToChatRole (item.str "role")
    if content.isNull ∧ role ≠ .assistant then .silent
    else .message role (responsesContentToChatContent content)

def readItem (item : Value) : HistoryItem :=
  match item.str "type" with
  | none => messageItem item
  | some type =>
    if type = "function_call".toList then functionCallItem item
    else if type = "function_call_output".toList ∨ type = "custom_tool_call_output".toList then outputItem item
    else if type = "custom_tool_call".toList then customToolCallItem item
    else if type = "tool_call".toList then toolCallItem item
    else if type = "tool_result".toList then toolResultItem item
    else if type = "reasoning".toList then .reasoning ((responsesReasoningText item).getD [])
    else messageItem item

end Items

/-! ## The messages -/

def orphanToolOutputMessage [SerdeJson] (callId : Text) (output : Value) : ChatMessage :=
  { role := .user
    content := .string ("Function call output (".toList ++ callId ++ "): ".toList ++ responseOutputText output) }

def toolOutputMessage [SerdeJson] (callId : Text) (output : Value) : ChatMessage :=
  { role := .tool, content := .string (responseOutputText output), toolCallId := some callId }

namespace ChatMessage

def calls (message : ChatMessage) : List ChatToolCall := message.toolCalls.getD []

def withContent (message : ChatMessage) : ChatMessage :=
  if message.content.isNull then { message with content := .string [] } else message

def addCall (existing : List ChatToolCall) (call : ChatToolCall) : List ChatToolCall :=
  if !call.id.isEmpty ∧ existing.any (·.id = call.id) then existing else existing ++ [call]

def mergeToolCalls (message : ChatMessage) (incoming : List ChatToolCall) : ChatMessage :=
  { message with toolCalls := some (incoming.foldl addCall message.calls) }.withContent

def appendReasoning (message : ChatMessage) (reasoning : Text) : ChatMessage :=
  if reasoning.isEmpty then message
  else
    let existing := message.reasoningContent.getD []
    { message with
      reasoningContent := some (if existing.isEmpty then reasoning else existing ++ '\n' :: reasoning) }.withContent

end ChatMessage

structure History where
  messages : List ChatMessage := []
  pendingToolCalls : List ChatToolCall := []
  pendingReasoning : List Text := []
  seenToolCallIds : List Text := []

namespace History

def lastAssistant (s : History) : Option ChatMessage := s.messages.getLast?.filter (·.role = .assistant)

def push (s : History) (message : ChatMessage) : History := { s with messages := s.messages ++ [message] }

def replaceLast (s : History) (message : ChatMessage) : History :=
  { s with messages := s.messages.dropLast ++ [message] }

def reasoningText (s : History) : Option Text :=
  if s.pendingReasoning.isEmpty then none else some (Text.join ['\n'] s.pendingReasoning)

def flushToolCalls (s : History) : History :=
  if s.pendingToolCalls.isEmpty then s
  else
    match s.lastAssistant with
    | some last => { s.replaceLast (last.mergeToolCalls s.pendingToolCalls) with pendingToolCalls := [] }
    | none =>
      { s.push
          { role := .assistant, content := .string [], toolCalls := some s.pendingToolCalls
            reasoningContent := s.reasoningText } with
        pendingToolCalls := []
        pendingReasoning := [] }

def flushReasoning (s : History) : History :=
  if s.pendingReasoning.isEmpty then s
  else
    let reasoning := Text.join ['\n'] s.pendingReasoning
    match s.lastAssistant with
    | some last => { s.replaceLast (last.appendReasoning reasoning) with pendingReasoning := [] }
    | none =>
      { s.push { role := .assistant, content := .string [], reasoningContent := some reasoning } with
        pendingReasoning := [] }

def addCall (s : History) (call : ChatToolCall) : History :=
  { s with
    pendingToolCalls := s.pendingToolCalls ++ [call]
    seenToolCallIds := call.id :: s.seenToolCallIds }

def addReasoning (s : History) (text : Text) : History :=
  if text.isEmpty then s else { s with pendingReasoning := s.pendingReasoning ++ [text] }

def addMessage (s : History) (role : ChatRole) (content : Value) : History :=
  let s := s.flushToolCalls
  if role = .assistant then
    if !s.pendingReasoning.isEmpty ∧ s.pendingToolCalls.isEmpty then
      { s.push { role := role, content := content, reasoningContent := s.reasoningText } with pendingReasoning := [] }
    else s.push { role := role, content := content }
  else if !s.pendingReasoning.isEmpty then s.flushToolCalls.flushReasoning.push { role := role, content := content }
  else s.push { role := role, content := content }

variable [SerdeJson]

def addOutput (s : History) (callId : Text) (output : Value) : History :=
  if callId ∉ s.seenToolCallIds then s.flushToolCalls.flushReasoning.push (orphanToolOutputMessage callId output)
  else s.flushToolCalls.push (toolOutputMessage callId output)

def step (s : History) : HistoryItem → History
  | .skipped => s
  | .silent => s.flushToolCalls
  | .call call => s.addCall call
  | .output callId output => s.addOutput callId output
  | .reasoning text => s.addReasoning text
  | .message role content => s.addMessage role content

def appendResponsesItem (s : History) (item : Value) : History := s.step (readItem item)

end History

section Input

variable [SerdeJson]

def appendResponsesInput (messages : List ChatMessage) : Value → List ChatMessage
  | .string text => messages ++ [{ role := .user, content := .string text }]
  | .array items => finish (items.foldl History.appendResponsesItem { messages := messages })
  | .object members => finish (History.appendResponsesItem { messages := messages } (.object members))
  | _ => messages
where
  finish (s : History) : List ChatMessage := s.flushToolCalls.flushReasoning.messages

def instructionMessages (body : Value) : List ChatMessage :=
  match body.get "instructions" with
  | none => []
  | some instructions =>
    let text := instructionText instructions
    if text.isEmpty then [] else [{ role := .system, content := .string text }]

def requestMessages (body : Value) : List ChatMessage :=
  match body.get "input" with
  | none => instructionMessages body
  | some input => appendResponsesInput (instructionMessages body) input

end Input

def convert [SerdeJson] (messages : List ChatMessage) (items : List HistoryItem) : List ChatMessage :=
  (items.foldl History.step { messages := messages }).flushToolCalls.flushReasoning.messages

theorem appendResponsesInput_array [SerdeJson] (messages : List ChatMessage) (items : List Value) :
    appendResponsesInput messages (.array items) = convert messages (items.map readItem) := by
  rw [convert, List.foldl_map]
  rfl

/-! ## Small facts -/

variable (message : ChatMessage) (incoming : List ChatToolCall)

theorem calls_withContent : message.withContent.calls = message.calls := by
  rw [ChatMessage.withContent]
  split <;> rfl

theorem role_withContent : message.withContent.role = message.role := by
  rw [ChatMessage.withContent]
  split <;> rfl

theorem mem_foldl_addCall {id : Text} (existing incoming : List ChatToolCall) :
    id ∈ (incoming.foldl ChatMessage.addCall existing).map (·.id) ↔
      id ∈ existing.map (·.id) ∨ id ∈ incoming.map (·.id) := by
  induction incoming generalizing existing with
  | nil => simp
  | cons call incoming ih =>
    have hadd : id ∈ (ChatMessage.addCall existing call).map (·.id) ↔ id ∈ existing.map (·.id) ∨ id = call.id := by
      rw [ChatMessage.addCall]
      split
      · rename_i hfound
        have hmem : call.id ∈ existing.map (·.id) := by simpa using hfound.2
        exact ⟨.inl, fun h => h.elim (·) (· ▸ hmem)⟩
      · simp
    rw [List.foldl_cons, ih, hadd, List.map_cons, List.mem_cons, or_assoc]

theorem calls_mergeToolCalls :
    (message.mergeToolCalls incoming).calls = incoming.foldl ChatMessage.addCall message.calls := by
  rw [ChatMessage.mergeToolCalls, calls_withContent]
  rfl

theorem role_mergeToolCalls : (message.mergeToolCalls incoming).role = message.role := by
  rw [ChatMessage.mergeToolCalls, role_withContent]

theorem role_appendReasoning (reasoning : Text) : (message.appendReasoning reasoning).role = message.role := by
  rw [ChatMessage.appendReasoning]
  split
  · rfl
  · exact role_withContent _

namespace History

variable {s : History}

theorem lastAssistant_eq_some {last : ChatMessage} (h : s.lastAssistant = some last) :
    last.role = .assistant ∧ s.messages = s.messages.dropLast ++ [last] := by
  obtain ⟨hlast, hrole⟩ := Option.filter_eq_some_iff.mp h
  exact ⟨by simpa using hrole, (List.dropLast_append_getLast? last hlast).symm⟩

theorem lastAssistant_push (s : History) (message : ChatMessage) :
    (s.push message).lastAssistant.isSome = (message.role == .assistant) := by
  simp [lastAssistant, push, Option.filter]
  split <;> simp_all

theorem pendingToolCalls_flush (s : History) : s.flushToolCalls.pendingToolCalls = [] := by
  rw [flushToolCalls]
  split
  · rename_i hempty
    exact List.isEmpty_iff.mp hempty
  · split <;> rfl

theorem flushToolCalls_again (s : History) : s.flushToolCalls.flushToolCalls = s.flushToolCalls := by
  conv_lhs => rw [flushToolCalls, pendingToolCalls_flush]
  rfl

theorem flushReasoning_frame (s : History) :
    s.flushReasoning.pendingToolCalls = s.pendingToolCalls ∧ s.flushReasoning.seenToolCallIds = s.seenToolCallIds := by
  rw [flushReasoning]
  split
  · exact ⟨rfl, rfl⟩
  · dsimp only
    split <;> exact ⟨rfl, rfl⟩

theorem addMessage_assistant (s : History) (content : Value) :
    s.addMessage .assistant content =
      { s.flushToolCalls.push
          { role := .assistant, content := content, reasoningContent := s.flushToolCalls.reasoningText } with
        pendingReasoning := [] } := by
  rw [addMessage, if_pos rfl, pendingToolCalls_flush]
  cases hreasoning : s.flushToolCalls.pendingReasoning with
  | nil => simp [reasoningText, push, hreasoning]
  | cons text texts => simp [push]

theorem addMessage_other (s : History) {role : ChatRole} (hrole : role ≠ .assistant) (content : Value) :
    s.addMessage role content = s.flushToolCalls.flushReasoning.push { role := role, content := content } := by
  rw [addMessage, if_neg hrole, flushToolCalls_again]
  split
  · rfl
  · rename_i hempty
    have hnil : s.flushToolCalls.pendingReasoning.isEmpty = true := by simpa using hempty
    rw [flushReasoning, if_pos hnil]

end History

end Lumio.Proxy
