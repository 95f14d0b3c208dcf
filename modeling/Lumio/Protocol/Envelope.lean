import Lumio.Protocol.Action
import Lumio.Protocol.Error
import Mathlib.Tactic.DeriveCountable
import Mathlib.Logic.Equiv.List
import Mathlib.Data.Countable.Basic

/-!
# Text frames

A control frame is the name of an action, a bar and a JSON envelope. The flow is not written down: a request
has no status, and a success without a request id is a push.
-/

namespace Lumio.Protocol

abbrev ProtocolDecodeError := WorkspaceValidationError
abbrev ProtocolEncodeError := WorkspaceValidationError

/-! ## Errors on the wire -/

structure WorkspaceV2FieldError where
  field : String
  reason : String
deriving DecidableEq

structure WorkspaceV2Error where
  code : WorkspaceV2ErrorCode
  message : String
  retryable : Bool
  fields : List WorkspaceV2FieldError
deriving DecidableEq

def WorkspaceV2Error.validate (error : WorkspaceV2Error) : Except WorkspaceValidationError Unit :=
  if error.message ≠ error.code.message then validationError "error.message" "message_mismatch"
  else if error.retryable ≠ error.code.retryable then validationError "error.retryable" "retryability_mismatch"
  else .ok ()

/-! ## Reading and writing values -/

/-- What the protocol takes from `serde_json`, `serde` and `uuid`: the text of a JSON value and the value of a
text, the text of an identifier, and the JSON values of bodies and errors. -/
class SerdeJson where
  render : Json → List UInt8
  parse : List UInt8 → Option Json
  uuidText : Nat → String
  parseUuid : String → Option Nat
  bodyJson : MessageBody → Json
  bodyOfJson : MessageBodyKind → Json → Option MessageBody
  errorJson : WorkspaceV2Error → Json
  errorOfJson : Json → Option WorkspaceV2Error

/-- Every value reads back from what is written for it, and a derived serialisation writes an object that names
each field once. -/
class LawfulSerdeJson [SerdeJson] : Prop where
  parse_render : ∀ json, SerdeJson.parse (SerdeJson.render json) = some json
  parseUuid_uuidText : ∀ id, SerdeJson.parseUuid (SerdeJson.uuidText id) = some id
  bodyOfJson_bodyJson : ∀ body, SerdeJson.bodyOfJson body.kind (SerdeJson.bodyJson body) = some body
  strictObject_bodyJson : ∀ body, (SerdeJson.bodyJson body).strictObject = true
  errorOfJson_errorJson : ∀ error, SerdeJson.errorOfJson (SerdeJson.errorJson error) = some error
  strictObject_errorJson : ∀ error, (SerdeJson.errorJson error).strictObject = true

/-- The part of a frame after the bar. A member that is missing is `none`, and raw data is kept as the value
that it spells. -/
structure WireEnvelope where
  requestId : Option RequestId
  status : Option Bool
  data : Option Json
  error : Option WorkspaceV2Error

inductive DecodedEnvelope where
  | request (requestId : RequestId) (body : MessageBody)
  | success (requestId : Option RequestId) (body : MessageBody)
  | failure (requestId : Option RequestId) (error : WorkspaceV2Error)
deriving DecidableEq

structure DecodedFrame where
  action : WorkspaceAction
  flow : WorkspaceFlow
  envelope : DecodedEnvelope
deriving DecidableEq

section

variable [SerdeJson]

def requestIdOfJson : Json → Option RequestId
  | .string text =>
    match SerdeJson.parseUuid text with
    | some id => if SerdeJson.uuidText id = text then some id else none
    | none => none
  | _ => none

def boolOfJson : Json → Option Bool
  | .bool value => some value
  | _ => none

/-- The members that are present, in the order of the fields. -/
def WireEnvelope.toJson (envelope : WireEnvelope) : Json :=
  .object ((envelope.requestId.map fun id => ("requestId", Json.string (SerdeJson.uuidText id))).toList ++
    (envelope.status.map fun status => ("status", Json.bool status)).toList ++
    (envelope.data.map fun data => ("data", data)).toList ++
    (envelope.error.map fun error => ("error", SerdeJson.errorJson error)).toList)

/-- A member that may be missing, but is refused if it cannot be read. -/
def presence {α : Type} (read : Json → Option α) (member : Option Json) : Option (Option α) :=
  match member with
  | none => some none
  | some json => (read json).map some

def wireFields : List String := ["requestId", "status", "data", "error"]

def WireEnvelope.ofJson : Json → Option WireEnvelope
  | .object members =>
    if members.all fun member => wireFields.contains member.1 then do
      let requestId ← presence requestIdOfJson (Json.member "requestId" members)
      let status ← presence boolOfJson (Json.member "status" members)
      let data ← presence some (Json.member "data" members)
      let error ← presence SerdeJson.errorOfJson (Json.member "error" members)
      pure ⟨requestId, status, data, error⟩
    else none
  | _ => none

/-! ## Decoding -/

def separatorByte : UInt8 := 124

def parseTextFrame (frame : List UInt8) : Except ProtocolDecodeError (WorkspaceAction × WireEnvelope) :=
  if maxControlFrameBytes < frame.length then validationError "frame" "too_large"
  else
    match frame.idxOf? separatorByte with
    | none => validationError "frame" "missing_separator"
    | some separator =>
      match String.fromUTF8? ⟨(frame.take separator).toArray⟩ with
      | none => validationError "action" "invalid_utf8"
      | some actionText =>
        if !validActionToken actionText then validationError "action" "invalid_token"
        else do
          let action ← WorkspaceAction.fromStr actionText
          match SerdeJson.parse (frame.drop (separator + 1)) with
          | none => validationError "envelope" "invalid_json"
          | some json =>
            match if json.strictObject then WireEnvelope.ofJson json else none with
            | none => validationError "envelope" "invalid_json"
            | some envelope => pure (action, envelope)

def decodeData (action : WorkspaceAction) (flow : WorkspaceFlow) (data : Json) :
    Except ProtocolDecodeError MessageBody :=
  match bodyKindOf action flow with
  | none => validationError "flow" "flow_not_allowed"
  | some kind =>
    match if data.strictObject then SerdeJson.bodyOfJson kind data else none with
    | none => validationError "data" "invalid_json"
    | some body => .ok body

def decodeRequest (action : WorkspaceAction) (envelope : WireEnvelope) : Except ProtocolDecodeError DecodedEnvelope :=
  match envelope.requestId with
  | none => validationError "requestId" "required"
  | some requestId =>
    if envelope.status.isSome then validationError "status" "forbidden_for_request"
    else if envelope.error.isSome then validationError "error" "forbidden_for_request"
    else
      match envelope.data with
      | none => validationError "data" "required"
      | some data => do
        let body ← decodeData action .clientRequest data
        pure (.request requestId body)

def decodeResponse (action : WorkspaceAction) (envelope : WireEnvelope) :
    Except ProtocolDecodeError DecodedEnvelope :=
  match envelope.status with
  | none => validationError "status" "required"
  | some true =>
    match envelope.requestId with
    | none => validationError "requestId" "required_for_response"
    | some requestId =>
      if envelope.error.isSome then validationError "error" "success_forbids_error"
      else
        match envelope.data with
        | none => validationError "data" "success_requires_data"
        | some data => do
          let body ← decodeData action .serverResponse data
          pure (.success (some requestId) body)
  | some false =>
    if envelope.data.isSome then validationError "data" "error_forbids_data"
    else
      match envelope.error with
      | none => validationError "error" "error_requires_error"
      | some error => do
        error.validate
        pure (.failure envelope.requestId error)

def decodePush (action : WorkspaceAction) (envelope : WireEnvelope) : Except ProtocolDecodeError DecodedEnvelope :=
  if envelope.requestId.isSome then validationError "requestId" "forbidden_for_push"
  else
    match envelope.status with
    | some false => validationError "status" "push_requires_success"
    | none => validationError "status" "required"
    | some true =>
      if envelope.error.isSome then validationError "error" "success_forbids_error"
      else
        match envelope.data with
        | none => validationError "data" "success_requires_data"
        | some data => do
          let body ← decodeData action .serverPush data
          pure (.success none body)

def decodeInFlow (action : WorkspaceAction) (envelope : WireEnvelope) :
    WorkspaceFlow → Except ProtocolDecodeError DecodedEnvelope
  | .clientRequest => decodeRequest action envelope
  | .serverResponse => decodeResponse action envelope
  | .serverPush => decodePush action envelope

def decodeParsedFrame (action : WorkspaceAction) (flow : WorkspaceFlow) (envelope : WireEnvelope) :
    Except ProtocolDecodeError DecodedFrame := do
  let decoded ← decodeInFlow action envelope flow
  pure ⟨action, flow, decoded⟩

def decodeTextFrame (frame : List UInt8) (flow : WorkspaceFlow) : Except ProtocolDecodeError DecodedFrame := do
  let (action, envelope) ← parseTextFrame frame
  decodeParsedFrame action flow envelope

def serverFlow (envelope : WireEnvelope) : Except ProtocolDecodeError WorkspaceFlow :=
  match envelope.status, envelope.requestId with
  | some false, _ => .ok .serverResponse
  | some true, some _ => .ok .serverResponse
  | some true, none => .ok .serverPush
  | none, _ => validationError "status" "required"

def decodeServerTextFrame (frame : List UInt8) : Except ProtocolDecodeError DecodedFrame := do
  let (action, envelope) ← parseTextFrame frame
  let flow ← serverFlow envelope
  decodeParsedFrame action flow envelope

/-! ## Encoding -/

def checkBody (action : WorkspaceAction) (flow : WorkspaceFlow) (body : MessageBody) :
    Except ProtocolEncodeError Unit :=
  if !flowAllowed action flow then validationError "flow" "flow_not_allowed"
  else if !bodyAllowed action flow body then validationError "data" "type_mismatch"
  else .ok ()

/-- The text of the body, taken as raw data of the envelope. -/
def rawBody (body : MessageBody) : Except ProtocolEncodeError Json :=
  match SerdeJson.parse (SerdeJson.render (SerdeJson.bodyJson body)) with
  | some data => .ok data
  | none => validationError "data" "serialization_failed"

def assembleFrame (action : String) (envelope : WireEnvelope) : List UInt8 :=
  action.toByteArray.data.toList ++ separatorByte :: SerdeJson.render envelope.toJson

def encodeWire (action : String) (envelope : WireEnvelope) : Except ProtocolEncodeError (List UInt8) :=
  let frame := assembleFrame action envelope
  if maxControlFrameBytes < frame.length then validationError "frame" "too_large" else .ok frame

def encodeRequest (action : WorkspaceAction) (requestId : RequestId) (body : MessageBody) :
    Except ProtocolEncodeError (List UInt8) := do
  checkBody action .clientRequest body
  let data ← rawBody body
  encodeWire action.asStr ⟨some requestId, none, some data, none⟩

/-- Which frames of the server have a request id. -/
def checkCorrelation (flow : WorkspaceFlow) (requestId : Option RequestId) : Except ProtocolEncodeError Unit :=
  match flow, requestId with
  | .clientRequest, _ => validationError "flow" "flow_not_allowed"
  | .serverResponse, none => validationError "requestId" "required_for_response"
  | .serverPush, some _ => validationError "requestId" "forbidden_for_push"
  | .serverResponse, some _ | .serverPush, none => .ok ()

def encodeSuccess (action : WorkspaceAction) (flow : WorkspaceFlow) (requestId : Option RequestId)
    (body : MessageBody) : Except ProtocolEncodeError (List UInt8) := do
  checkCorrelation flow requestId
  checkBody action flow body
  let data ← rawBody body
  encodeWire action.asStr ⟨requestId, some true, some data, none⟩

def encodeFailure (action : WorkspaceAction) (requestId : Option RequestId) (error : WorkspaceV2Error) :
    Except ProtocolEncodeError (List UInt8) := do
  error.validate
  encodeWire action.asStr ⟨requestId, some false, none, some error⟩

/-! ## What is written reads back -/

section

variable [LawfulSerdeJson]

theorem WireEnvelope.ofJson_toJson (envelope : WireEnvelope) : WireEnvelope.ofJson envelope.toJson = some envelope := by
  obtain ⟨requestId, status, data, error⟩ := envelope
  have hid : ∀ id, requestIdOfJson (.string (SerdeJson.uuidText id)) = some id := by
    intro id
    simp [requestIdOfJson, LawfulSerdeJson.parseUuid_uuidText]
  cases requestId <;> cases status <;> cases data <;> cases error <;>
    simp [WireEnvelope.toJson, WireEnvelope.ofJson, wireFields, Json.member, presence, boolOfJson, hid,
      LawfulSerdeJson.errorOfJson_errorJson, List.find?]

omit [SerdeJson] [LawfulSerdeJson] in
theorem strict_of_strictObject {json : Json} (h : json.strictObject = true) : json.strict = true := by
  cases json with
  | object members => exact h
  | _ => cases h

variable {envelope : WireEnvelope} {frame : List UInt8} {action : WorkspaceAction} {body : MessageBody}
  {flow : WorkspaceFlow}

theorem WireEnvelope.strictObject_toJson (hdata : ∀ data, envelope.data = some data → data.strict = true) :
    envelope.toJson.strictObject = true := by
  obtain ⟨requestId, status, data, error⟩ := envelope
  have herror : ∀ error, (SerdeJson.errorJson error).strict = true :=
    fun error => strict_of_strictObject (LawfulSerdeJson.strictObject_errorJson error)
  cases requestId <;> cases status <;> cases data <;> cases error <;>
    simp_all [WireEnvelope.toJson, Json.strictObject, Json.strictMembers, Json.strict]

section

omit [SerdeJson] [LawfulSerdeJson]

theorem separator_not_mem_asStr (action : WorkspaceAction) : separatorByte ∉ action.asStr.toByteArray.data.toList := by
  cases action <;> decide

theorem validActionToken_asStr (action : WorkspaceAction) : validActionToken action.asStr = true := by
  cases action <;> decide

theorem fromUTF8_toByteArray (text : String) : String.fromUTF8? ⟨text.toByteArray.data.toList.toArray⟩ = some text := by
  have hbytes : (⟨text.toByteArray.data.toList.toArray⟩ : ByteArray) = text.toByteArray := by simp
  rw [hbytes]
  exact dif_pos text.isValidUTF8

theorem idxOf_separator {first rest : List UInt8} (h : separatorByte ∉ first) :
    (first ++ separatorByte :: rest).idxOf? separatorByte = some first.length := by
  induction first with
  | nil => simp [List.idxOf?_cons]
  | cons byte first ih =>
    rw [List.mem_cons, not_or] at h
    rw [List.cons_append, List.idxOf?_cons, ih h.2]
    simp [Ne.symm h.1]

end

theorem parseTextFrame_assembleFrame (action : WorkspaceAction)
    (hdata : ∀ data, envelope.data = some data → data.strict = true)
    (hlength : (assembleFrame action.asStr envelope).length ≤ maxControlFrameBytes) :
    parseTextFrame (assembleFrame action.asStr envelope) = .ok (action, envelope) := by
  unfold parseTextFrame
  rw [if_neg (Nat.not_lt.mpr hlength)]
  have hsplit : (action.asStr.toByteArray.data.toList ++ separatorByte :: SerdeJson.render envelope.toJson).drop
      (action.asStr.toByteArray.data.toList.length + 1) = SerdeJson.render envelope.toJson := by
    rw [List.drop_append, List.drop_of_length_le (by omega)]
    simp
  unfold assembleFrame
  rw [idxOf_separator (separator_not_mem_asStr action)]
  simp only [List.take_left, hsplit, fromUTF8_toByteArray, validActionToken_asStr, fromStr_asStr,
    LawfulSerdeJson.parse_render, WireEnvelope.strictObject_toJson hdata, WireEnvelope.ofJson_toJson]
  rfl

omit [LawfulSerdeJson] in
theorem encodeWire_eq_ok {action : String} (h : encodeWire action envelope = .ok frame) :
    frame = assembleFrame action envelope ∧ (assembleFrame action envelope).length ≤ maxControlFrameBytes := by
  unfold encodeWire at h
  simp only at h
  split at h
  · cases h
  · rename_i hlength
    cases h
    exact ⟨rfl, Nat.not_lt.mp hlength⟩

theorem parse_of_encodeWire (hdata : ∀ data, envelope.data = some data → data.strict = true)
    (h : encodeWire action.asStr envelope = .ok frame) : parseTextFrame frame = .ok (action, envelope) := by
  obtain ⟨rfl, hlength⟩ := encodeWire_eq_ok h
  exact parseTextFrame_assembleFrame action hdata hlength

theorem rawBody_eq (body : MessageBody) : rawBody body = .ok (SerdeJson.bodyJson body) := by
  simp only [rawBody, LawfulSerdeJson.parse_render]

omit [SerdeJson] [LawfulSerdeJson] in
theorem bodyAllowed_of_checkBody (h : checkBody action flow body = .ok ()) :
    bodyAllowed action flow body = true := by
  unfold checkBody at h
  split at h
  · cases h
  split at h
  · cases h
  · rename_i hallowed
    simpa using hallowed

theorem decodeData_bodyJson (h : checkBody action flow body = .ok ()) :
    decodeData action flow (SerdeJson.bodyJson body) = .ok body := by
  simp only [decodeData, bodyKindOf_of_bodyAllowed (bodyAllowed_of_checkBody h),
    LawfulSerdeJson.strictObject_bodyJson, if_true, LawfulSerdeJson.bodyOfJson_bodyJson]

theorem strict_bodyJson (body : MessageBody) : (SerdeJson.bodyJson body).strict = true :=
  strict_of_strictObject (LawfulSerdeJson.strictObject_bodyJson body)

omit [LawfulSerdeJson] in
theorem decodeTextFrame_of_parse (h : parseTextFrame frame = .ok (action, envelope)) (flow : WorkspaceFlow) :
    decodeTextFrame frame flow = decodeParsedFrame action flow envelope := by
  simp only [decodeTextFrame, h]
  rfl

omit [LawfulSerdeJson] in
theorem decodeServerTextFrame_of_parse (h : parseTextFrame frame = .ok (action, envelope))
    (hflow : serverFlow envelope = .ok flow) :
    decodeServerTextFrame frame = decodeParsedFrame action flow envelope := by
  have hbind : decodeServerTextFrame frame = serverFlow envelope >>= fun flow => decodeParsedFrame action flow envelope := by
    simp only [decodeServerTextFrame, h]
    rfl
  rw [hbind, hflow]
  rfl

theorem decode_encodeRequest {requestId : RequestId} (h : encodeRequest action requestId body = .ok frame) :
    decodeTextFrame frame .clientRequest = .ok ⟨action, .clientRequest, .request requestId body⟩ := by
  unfold encodeRequest at h
  cases hbody : checkBody action .clientRequest body with
  | error e => rw [hbody] at h; cases h
  | ok =>
    rw [hbody, rawBody_eq] at h
    have hparse := parse_of_encodeWire (by rintro _ ⟨⟩; exact strict_bodyJson body) h
    rw [decodeTextFrame_of_parse hparse]
    simp only [decodeParsedFrame, decodeInFlow, decodeRequest, Option.isSome_none, decodeData_bodyJson hbody]
    rfl

theorem decode_encodeSuccess {action : WorkspaceAction} {flow : WorkspaceFlow} {requestId : Option RequestId}
    {body : MessageBody} {frame : List UInt8} (h : encodeSuccess action flow requestId body = .ok frame) :
    decodeTextFrame frame flow = .ok ⟨action, flow, .success requestId body⟩ ∧
      decodeServerTextFrame frame = .ok ⟨action, flow, .success requestId body⟩ := by
  unfold encodeSuccess at h
  cases hbody : checkBody action flow body with
  | error e =>
    rw [hbody] at h
    cases hcorrelation : checkCorrelation flow requestId <;> rw [hcorrelation] at h <;> cases h
  | ok =>
    rw [hbody, rawBody_eq] at h
    cases hcorrelation : checkCorrelation flow requestId with
    | error e => rw [hcorrelation] at h; cases h
    | ok =>
      rw [hcorrelation] at h
      have hparse := parse_of_encodeWire (by rintro _ ⟨⟩; exact strict_bodyJson body) h
      have hflow : serverFlow ⟨requestId, some true, some (SerdeJson.bodyJson body), none⟩ = .ok flow := by
        cases flow <;> cases requestId <;> first | rfl | cases hcorrelation
      rw [decodeServerTextFrame_of_parse hparse hflow, decodeTextFrame_of_parse hparse, and_self]
      cases flow with
      | clientRequest => cases hcorrelation
      | serverResponse =>
        cases requestId with
        | none => cases hcorrelation
        | some id =>
          simp only [decodeParsedFrame, decodeInFlow, decodeResponse, Option.isSome_none, decodeData_bodyJson hbody]
          rfl
      | serverPush =>
        cases requestId with
        | some id => cases hcorrelation
        | none =>
          simp only [decodeParsedFrame, decodeInFlow, decodePush, Option.isSome_none, decodeData_bodyJson hbody]
          rfl

theorem decode_encodeFailure {requestId : Option RequestId} {error : WorkspaceV2Error}
    (h : encodeFailure action requestId error = .ok frame) :
    decodeTextFrame frame .serverResponse = .ok ⟨action, .serverResponse, .failure requestId error⟩ ∧
      decodeServerTextFrame frame = .ok ⟨action, .serverResponse, .failure requestId error⟩ := by
  unfold encodeFailure at h
  cases hvalid : error.validate with
  | error e => rw [hvalid] at h; cases h
  | ok =>
    rw [hvalid] at h
    have hparse := parse_of_encodeWire (by rintro _ ⟨⟩) h
    rw [decodeServerTextFrame_of_parse hparse rfl, decodeTextFrame_of_parse hparse, and_self]
    simp only [decodeParsedFrame, decodeInFlow, decodeResponse, Option.isSome_none, hvalid]
    rfl

/-! ## Frames that are too long -/

def tooLarge : WorkspaceValidationError := ⟨"frame", "too_large"⟩

section

omit [SerdeJson] [LawfulSerdeJson]

theorem bind_ne_tooLarge {α β : Type} {m : Except WorkspaceValidationError α} {f : α → Except WorkspaceValidationError β}
    (hm : m ≠ .error tooLarge) (hf : ∀ a, f a ≠ .error tooLarge) : (m >>= f) ≠ .error tooLarge := by
  cases m with
  | error e =>
    rintro h
    cases h
    exact hm rfl
  | ok a => exact hf a

theorem validationError_ne_tooLarge {α : Type} {field reason : String} (h : field ≠ "frame" ∨ reason ≠ "too_large") :
    (validationError field reason : Except WorkspaceValidationError α) ≠ .error tooLarge := by
  intro heq
  cases heq
  simp at h

end

omit [LawfulSerdeJson] in
theorem decodeData_ne_tooLarge (action : WorkspaceAction) (flow : WorkspaceFlow) (data : Json) :
    decodeData action flow data ≠ .error tooLarge := by
  unfold decodeData
  split
  · exact validationError_ne_tooLarge (by decide)
  split
  · exact validationError_ne_tooLarge (by decide)
  · nofun

omit [SerdeJson] [LawfulSerdeJson] in
theorem validate_ne_tooLarge (error : WorkspaceV2Error) : error.validate ≠ .error tooLarge := by
  unfold WorkspaceV2Error.validate
  split
  · exact validationError_ne_tooLarge (by decide)
  split
  · exact validationError_ne_tooLarge (by decide)
  · nofun

omit [LawfulSerdeJson] in
theorem decodeParsedFrame_ne_tooLarge (action : WorkspaceAction) (flow : WorkspaceFlow) (envelope : WireEnvelope) :
    decodeParsedFrame action flow envelope ≠ .error tooLarge := by
  unfold decodeParsedFrame
  refine bind_ne_tooLarge ?_ fun _ => nofun
  cases flow with
  | clientRequest =>
    simp only [decodeInFlow, decodeRequest]
    repeat' split
    all_goals first
      | exact validationError_ne_tooLarge (by decide)
      | exact bind_ne_tooLarge (decodeData_ne_tooLarge _ _ _) (fun _ => nofun)
  | serverResponse =>
    simp only [decodeInFlow, decodeResponse]
    repeat' split
    all_goals first
      | exact validationError_ne_tooLarge (by decide)
      | exact bind_ne_tooLarge (decodeData_ne_tooLarge _ _ _) (fun _ => nofun)
      | exact bind_ne_tooLarge (validate_ne_tooLarge _) (fun _ => nofun)
  | serverPush =>
    simp only [decodeInFlow, decodePush]
    repeat' split
    all_goals first
      | exact validationError_ne_tooLarge (by decide)
      | exact bind_ne_tooLarge (decodeData_ne_tooLarge _ _ _) (fun _ => nofun)

omit [SerdeJson] [LawfulSerdeJson] in
theorem serverFlow_ne_tooLarge (envelope : WireEnvelope) : serverFlow envelope ≠ .error tooLarge := by
  unfold serverFlow
  split
  · nofun
  · nofun
  · nofun
  · exact validationError_ne_tooLarge (by decide)

section

omit [LawfulSerdeJson]

theorem parseTextFrame_tooLarge : parseTextFrame frame = .error tooLarge ↔ maxControlFrameBytes < frame.length := by
  unfold parseTextFrame
  split
  · rename_i hlength
    simp [hlength, validationError, tooLarge]
  · rename_i hlength
    simp only [hlength, iff_false]
    split
    · exact validationError_ne_tooLarge (by decide)
    split
    · exact validationError_ne_tooLarge (by decide)
    split
    · exact validationError_ne_tooLarge (by decide)
    refine bind_ne_tooLarge ?_ fun action => ?_
    · unfold WorkspaceAction.fromStr
      split
      · nofun
      · exact validationError_ne_tooLarge (by decide)
    · split
      · exact validationError_ne_tooLarge (by decide)
      split
      · exact validationError_ne_tooLarge (by decide)
      · nofun

theorem decodeTextFrame_tooLarge (flow : WorkspaceFlow) :
    decodeTextFrame frame flow = .error tooLarge ↔ maxControlFrameBytes < frame.length := by
  rw [← parseTextFrame_tooLarge]
  unfold decodeTextFrame
  cases hparse : parseTextFrame frame with
  | error e => exact ⟨fun h => by cases h; rfl, fun h => by cases h; rfl⟩
  | ok parsed => simp [decodeParsedFrame_ne_tooLarge, bind, Except.bind]

theorem decodeServerTextFrame_tooLarge :
    decodeServerTextFrame frame = .error tooLarge ↔ maxControlFrameBytes < frame.length := by
  rw [← parseTextFrame_tooLarge]
  unfold decodeServerTextFrame
  cases hparse : parseTextFrame frame with
  | error e => exact ⟨fun h => by cases h; rfl, fun h => by cases h; rfl⟩
  | ok parsed =>
    have hrest := bind_ne_tooLarge (serverFlow_ne_tooLarge parsed.2)
      fun flow => decodeParsedFrame_ne_tooLarge parsed.1 flow parsed.2
    exact iff_of_false hrest nofun

theorem encodeWire_tooLarge {action : String} :
    encodeWire action envelope = .error tooLarge ↔
      maxControlFrameBytes < (assembleFrame action envelope).length := by
  unfold encodeWire
  simp only
  split
  · rename_i hlength
    simp [hlength, validationError, tooLarge]
  · rename_i hlength
    exact iff_of_false nofun hlength

end

/-- The frame is encoded if its length is allowed, and refused as too long exactly if a decoder refuses it so. -/
structure EncodesIfFits (frame : List UInt8) (encoded : Except ProtocolEncodeError (List UInt8)) : Prop where
  fits : frame.length ≤ maxControlFrameBytes → encoded = .ok frame
  refused : ∀ flow, encoded = .error tooLarge ↔ decodeTextFrame frame flow = .error tooLarge
  serverRefused : encoded = .error tooLarge ↔ decodeServerTextFrame frame = .error tooLarge

omit [LawfulSerdeJson] in
theorem encodeWire_fits (action : String) (envelope : WireEnvelope) :
    EncodesIfFits (assembleFrame action envelope) (encodeWire action envelope) where
  fits hlength := if_neg (Nat.not_lt.mpr hlength)
  refused flow := by rw [encodeWire_tooLarge, decodeTextFrame_tooLarge]
  serverRefused := by rw [encodeWire_tooLarge, decodeServerTextFrame_tooLarge]

omit [SerdeJson] [LawfulSerdeJson] in
theorem checkBody_of_bodyAllowed (h : bodyAllowed action flow body = true) :
    checkBody action flow body = .ok () := by
  simp [checkBody, h, flowAllowed_of_bodyKindOf (bodyKindOf_of_bodyAllowed h)]

def requestFrame (action : WorkspaceAction) (requestId : RequestId) (body : MessageBody) : List UInt8 :=
  assembleFrame action.asStr ⟨some requestId, none, some (SerdeJson.bodyJson body), none⟩

def successFrame (action : WorkspaceAction) (requestId : Option RequestId) (body : MessageBody) : List UInt8 :=
  assembleFrame action.asStr ⟨requestId, some true, some (SerdeJson.bodyJson body), none⟩

def failureFrame (action : WorkspaceAction) (requestId : Option RequestId) (error : WorkspaceV2Error) : List UInt8 :=
  assembleFrame action.asStr ⟨requestId, some false, none, some error⟩

/-- What the constructors allow is encoded unless it is too long, and every frame that is encoded decodes to
what was encoded, in the flow it was encoded for. The encoder refuses as too long the frames that the decoder
refuses as too long. -/
theorem text_frame_round_trip :
    (∀ action requestId body,
      (bodyAllowed action .clientRequest body = true →
        EncodesIfFits (requestFrame action requestId body) (encodeRequest action requestId body)) ∧
      ∀ frame, encodeRequest action requestId body = .ok frame →
        decodeTextFrame frame .clientRequest = .ok ⟨action, .clientRequest, .request requestId body⟩) ∧
    (∀ action flow requestId body,
      (checkCorrelation flow requestId = .ok () → bodyAllowed action flow body = true →
        EncodesIfFits (successFrame action requestId body) (encodeSuccess action flow requestId body)) ∧
      ∀ frame, encodeSuccess action flow requestId body = .ok frame →
        decodeTextFrame frame flow = .ok ⟨action, flow, .success requestId body⟩ ∧
          decodeServerTextFrame frame = .ok ⟨action, flow, .success requestId body⟩) ∧
    (∀ action requestId error,
      (error.validate = .ok () →
        EncodesIfFits (failureFrame action requestId error) (encodeFailure action requestId error)) ∧
      ∀ frame, encodeFailure action requestId error = .ok frame →
        decodeTextFrame frame .serverResponse = .ok ⟨action, .serverResponse, .failure requestId error⟩ ∧
          decodeServerTextFrame frame = .ok ⟨action, .serverResponse, .failure requestId error⟩) ∧
    ∀ action envelope, EncodesIfFits (assembleFrame action envelope) (encodeWire action envelope) := by
  refine ⟨fun action requestId body => ⟨fun hallowed => ?_, fun frame => decode_encodeRequest⟩,
    fun action flow requestId body => ⟨fun hcorrelation hallowed => ?_, fun frame => decode_encodeSuccess⟩,
    fun action requestId error => ⟨fun hvalid => ?_, fun frame => decode_encodeFailure⟩, encodeWire_fits⟩
  · simp only [encodeRequest, checkBody_of_bodyAllowed hallowed, rawBody_eq]
    exact encodeWire_fits _ _
  · simp only [encodeSuccess, hcorrelation, checkBody_of_bodyAllowed hallowed, rawBody_eq]
    exact encodeWire_fits _ _
  · simp only [encodeFailure, hvalid]
    exact encodeWire_fits _ _

end

end

/-! ## A codec for one frame -/

namespace Sample

scoped instance countableChar : Countable Char := Function.Injective.countable fun _ _ => Char.toNat_inj.mp
scoped instance countableString : Countable String := Function.Injective.countable fun _ _ => String.toList_inj.mp

deriving instance Countable for WorkspacePath, WorkspaceEntryKind, WorkspaceMutationKind, WorkspaceSnapshotMode,
  WorkspaceConflictKind, WorkspaceConflictChoice, WorkspaceMutationRejectReason, WorkspaceBlobDirection
deriving instance Countable for WorkspaceFileMetadata
deriving instance Countable for WorkspacePathState, WorkspaceMutation, WorkspaceConflictSide
deriving instance Countable for WorkspaceHelloRequest, WorkspaceHelloResponse, WorkspaceSubscribeRequest,
  WorkspaceSnapshotBeginMessage, WorkspaceSnapshotEntryMessage, WorkspaceSnapshotEndMessage,
  WorkspaceMutationAcceptedMessage, WorkspaceMutationRejectedMessage, WorkspaceEventMessage, WorkspaceAckRequest,
  WorkspaceBlobNeedDownloadRequest, WorkspaceBlobNeedDownloadResponse, WorkspaceBlobNeedUploadPush,
  WorkspaceBlobBeginMessage, WorkspaceBlobEndMessage, WorkspaceConflictCreatedMessage,
  WorkspaceConflictResolvedRequest, WorkspaceConflictResolvedMessage
deriving instance Countable for MessageBody
deriving instance Countable for WorkspaceV2ErrorCode, WorkspaceV2FieldError
deriving instance Countable for WorkspaceV2Error

mutual

def index : Json → Nat
  | .null => Nat.pair 0 0
  | .bool value => Nat.pair 1 (Encodable.encode value)
  | .number value => Nat.pair 2 (Encodable.encode value)
  | .string value => Nat.pair 3 (Encodable.encode (value.toList.map Char.toNat))
  | .array items => Nat.pair 4 (indexItems items)
  | .object members => Nat.pair 5 (indexMembers members)

def indexItems : List Json → Nat
  | [] => 0
  | item :: items => Nat.pair (index item) (indexItems items) + 1

def indexMembers : List (String × Json) → Nat
  | [] => 0
  | (key, value) :: members =>
    Nat.pair (Encodable.encode (key.toList.map Char.toNat)) (Nat.pair (index value) (indexMembers members)) + 1

end

theorem eq_of_codes_eq {a b : String} (h : a.toList.map Char.toNat = b.toList.map Char.toNat) : a = b :=
  String.toList_inj.mp (List.map_injective_iff.mpr (fun _ _ => Char.toNat_inj.mp) h)

mutual

theorem index_injective : ∀ {a b : Json}, index a = index b → a = b
  | .null, b, h => by cases b <;> simp_all [index, Nat.pair_eq_pair]
  | .bool value, b, h => by cases b <;> simp_all [index, Nat.pair_eq_pair]
  | .number value, b, h => by cases b <;> simp_all [index, Nat.pair_eq_pair]
  | .string value, b, h => by
    cases b <;> simp [index, Nat.pair_eq_pair] at h ⊢
    exact eq_of_codes_eq h
  | .array items, b, h => by
    cases b <;> simp [index, Nat.pair_eq_pair] at h ⊢
    exact indexItems_injective h
  | .object members, b, h => by
    cases b <;> simp [index, Nat.pair_eq_pair] at h ⊢
    exact indexMembers_injective h

theorem indexItems_injective : ∀ {a b : List Json}, indexItems a = indexItems b → a = b
  | [], b, h => by cases b <;> simp_all [indexItems]
  | item :: items, b, h => by
    cases b <;> simp [indexItems, Nat.pair_eq_pair] at h ⊢
    exact ⟨index_injective h.1, indexItems_injective h.2⟩

theorem indexMembers_injective : ∀ {a b : List (String × Json)}, indexMembers a = indexMembers b → a = b
  | [], b, h => by cases b <;> simp_all [indexMembers]
  | (key, value) :: members, b, h => by
    rcases b with _ | ⟨⟨key', value'⟩, members'⟩ <;> simp [indexMembers, Nat.pair_eq_pair] at h ⊢
    exact ⟨⟨eq_of_codes_eq h.1, index_injective h.2.1⟩, indexMembers_injective h.2.2⟩

end

def sampleAck : WorkspaceAckRequest := ⟨1, 2, 3⟩

def sampleUuid (digit : String) : String := "00000000-0000-0000-0000-00000000000" ++ digit

def sampleAckJson : Json :=
  .object [("workspaceId", .string (sampleUuid "1")), ("clientId", .string (sampleUuid "2")), ("revision", .string "3")]

def sampleEnvelopeJson : Json :=
  .object [("requestId", .string (sampleUuid "1")), ("status", .bool true), ("data", sampleAckJson)]

def bytesOf (text : String) : List UInt8 := text.toList.map fun c => c.toNat.toUInt8

def sampleAckText : List UInt8 :=
  bytesOf ("\x7b\"workspaceId\":\"" ++ sampleUuid "1" ++ "\",\"clientId\":\"" ++ sampleUuid "2" ++
    "\",\"revision\":\"3\"\x7d")

def sampleEnvelopeText : List UInt8 :=
  bytesOf ("\x7b\"requestId\":\"" ++ sampleUuid "1" ++ "\",\"status\":true,\"data\":") ++ sampleAckText ++ bytesOf "\x7d"

open scoped Classical in
/-- The function with another value at one place. -/
noncomputable def patched {α β : Type} (a : α) (b : β) (f : α → β) (x : α) : β := if x = a then b else f x

theorem patched_injective {α β : Type} {a : α} {b : β} {f : α → β} (hf : Function.Injective f) (hb : ∀ x, f x ≠ b) :
    Function.Injective (patched a b f) := by
  intro x y h
  unfold patched at h
  split at h <;> split at h
  · simp_all
  · exact absurd h.symm (hb y)
  · exact absurd h (hb x)
  · exact hf h

noncomputable def sampleRender : Json → List UInt8 :=
  patched sampleEnvelopeJson sampleEnvelopeText (patched sampleAckJson sampleAckText fun json =>
    0 :: List.replicate (index json) 0)

theorem sampleRender_injective : Function.Injective sampleRender := by
  have hack : sampleAckText.head? = some 123 := by decide +kernel
  have henvelope : sampleEnvelopeText.head? = some 123 := by decide
  have hlength : sampleAckText.length ≠ sampleEnvelopeText.length := by decide +kernel
  have hother : ∀ count (text : List UInt8), text.head? = some 123 → 0 :: List.replicate count 0 ≠ text := by
    rintro count _ htext rfl
    simp at htext
  refine patched_injective (patched_injective ?_ fun json => hother _ _ hack) fun json => ?_
  · intro a b h
    have hcount := congrArg List.length h
    simp only [List.length_cons, List.length_replicate, Nat.add_right_cancel_iff] at hcount
    exact index_injective hcount
  · unfold patched
    split
    · exact fun heq => hlength (congrArg List.length heq)
    · exact hother _ _ henvelope

/-- The text of identifier 1, and a text of its own for any other. -/
def sampleUuidText (id : Nat) : String := if id = 1 then sampleUuid "1" else String.ofList (List.replicate id 'x')

def sampleParseUuid (text : String) : Option Nat := if text = sampleUuid "1" then some 1 else some text.length

theorem sampleParseUuid_text (id : Nat) : sampleParseUuid (sampleUuidText id) = some id := by
  unfold sampleUuidText
  split
  · rename_i hone
    rw [hone, sampleParseUuid, if_pos rfl]
  · have hother : String.ofList (List.replicate id 'x') ≠ sampleUuid "1" := by
      intro heq
      have hzero : '0' ∈ (sampleUuid "1").toList := by decide
      rw [← heq, String.toList_ofList] at hzero
      exact absurd (List.eq_of_mem_replicate hzero) (by decide)
    rw [sampleParseUuid, if_neg hother]
    simp

noncomputable def sampleBodyJson : MessageBody → Json :=
  patched (.ack sampleAck) sampleAckJson fun body =>
    .object [("body", .number ((Countable.exists_injective_nat MessageBody).choose body))]

noncomputable def sampleErrorJson (error : WorkspaceV2Error) : Json :=
  .object [("error", .number ((Countable.exists_injective_nat WorkspaceV2Error).choose error))]

theorem sampleBodyJson_injective : Function.Injective sampleBodyJson := by
  refine patched_injective (fun a b h => ?_) fun body => by simp [sampleAckJson]
  apply (Countable.exists_injective_nat MessageBody).choose_spec
  simpa [Int.ofNat_inj] using h

theorem sampleErrorJson_injective : Function.Injective sampleErrorJson := by
  intro a b h
  apply (Countable.exists_injective_nat WorkspaceV2Error).choose_spec
  simpa [sampleErrorJson, Int.ofNat_inj] using h

open scoped Classical in
noncomputable def readBack {α β : Type} (write : α → β) (text : β) : Option α :=
  if h : ∃ a, write a = text then some h.choose else none

theorem readBack_write {α β : Type} {write : α → β} (h : Function.Injective write) (a : α) :
    readBack write (write a) = some a := by
  have hex : ∃ other, write other = write a := ⟨a, rfl⟩
  have hsame : hex.choose = a := h hex.choose_spec
  exact (dif_pos hex).trans (congrArg some hsame)

noncomputable scoped instance sampleSerde : SerdeJson where
  render := sampleRender
  parse := readBack sampleRender
  uuidText := sampleUuidText
  parseUuid := sampleParseUuid
  bodyJson := sampleBodyJson
  bodyOfJson _ := readBack sampleBodyJson
  errorJson := sampleErrorJson
  errorOfJson := readBack sampleErrorJson

scoped instance sampleSerde_lawful : LawfulSerdeJson where
  parse_render := readBack_write sampleRender_injective
  parseUuid_uuidText := sampleParseUuid_text
  bodyOfJson_bodyJson := readBack_write sampleBodyJson_injective
  strictObject_bodyJson := by
    intro body
    simp only [SerdeJson.bodyJson, sampleBodyJson, patched]
    split
    · decide
    · rfl
  errorOfJson_errorJson := readBack_write sampleErrorJson_injective
  strictObject_errorJson := fun _ => rfl

theorem encode_sampleAck : encodeSuccess .workspaceAck .serverResponse (some 1) (.ack sampleAck) =
    .ok (bytesOf "WorkspaceAck|" ++ sampleEnvelopeText) := by
  have hbody : sampleBodyJson (.ack sampleAck) = sampleAckJson := if_pos rfl
  have hjson : WireEnvelope.toJson ⟨some 1, some true, some (sampleBodyJson (.ack sampleAck)), none⟩ =
      sampleEnvelopeJson := by
    rw [hbody]
    rfl
  have hframe : assembleFrame "WorkspaceAck" ⟨some 1, some true, some (sampleBodyJson (.ack sampleAck)), none⟩ =
      bytesOf "WorkspaceAck|" ++ sampleEnvelopeText := by
    simp only [assembleFrame, hjson, SerdeJson.render, sampleRender, patched, if_true]
    decide +kernel
  have hcheck : checkBody .workspaceAck .serverResponse (.ack sampleAck) = .ok () := by decide
  have hsize : ¬maxControlFrameBytes < (bytesOf "WorkspaceAck|" ++ sampleEnvelopeText).length := by decide +kernel
  have hwire : encodeSuccess .workspaceAck .serverResponse (some 1) (.ack sampleAck) =
      encodeWire "WorkspaceAck" ⟨some 1, some true, some (sampleBodyJson (.ack sampleAck)), none⟩ := by
    simp only [encodeSuccess, checkCorrelation, hcheck, rawBody_eq]
    rfl
  rw [hwire, encodeWire, hframe, if_neg hsize]

/-- The acknowledgement is answered, and the answer is read as what it is. -/
theorem round_trip_of_sampleAck :
    EncodesIfFits (successFrame .workspaceAck (some 1) (.ack sampleAck))
      (encodeSuccess .workspaceAck .serverResponse (some 1) (.ack sampleAck)) ∧
    ∃ frame, encodeSuccess .workspaceAck .serverResponse (some 1) (.ack sampleAck) = .ok frame ∧
      frame = bytesOf "WorkspaceAck|" ++ sampleEnvelopeText ∧
      decodeServerTextFrame frame = .ok ⟨.workspaceAck, .serverResponse, .success (some 1) (.ack sampleAck)⟩ :=
  ⟨(text_frame_round_trip.2.1 _ _ _ _).1 rfl rfl,
    ⟨_, encode_sampleAck, rfl, (text_frame_round_trip.2.1 _ _ _ _).2 _ encode_sampleAck |>.2⟩⟩

end Sample

end Lumio.Protocol
