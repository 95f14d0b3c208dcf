import Lumio.Lib.Utf8
import Lumio.Proxy.Stream

/-!
# The converter

Bytes of a chat stream arrive in pieces of any size. They are decoded, collected in a buffer and cut into blocks at
blank lines; each block is read as an event of the chat stream.
-/

namespace Lumio.Proxy

structure ChatSseToResponsesConverter where
  buffer : Text := []
  utf8Remainder : List UInt8 := []
  state : ChatSseState := {}
  failed : Bool := false

/-! ## Blocks -/

def takeSseBlock (buffer : Text) : Option (Text × Text) :=
  match Text.find ['\n', '\n'] buffer, Text.find ['\r', '\n', '\r', '\n'] buffer with
  | some lf, some crlf =>
    if lf ≤ crlf then some (buffer.take lf, buffer.drop (lf + 2)) else some (buffer.take crlf, buffer.drop (crlf + 4))
  | some lf, none => some (buffer.take lf, buffer.drop (lf + 2))
  | none, some crlf => some (buffer.take crlf, buffer.drop (crlf + 4))
  | none, none => none

/-- Decodes what can be decoded; a character that is cut off waits for the next bytes. -/
def appendUtf8Safe (buffer : Text) (remainder bytes : List UInt8) : Text × List UInt8 :=
  if bytes.isEmpty then (buffer, remainder)
  else
    let combined := remainder ++ bytes
    let (text, rest) := Utf8.decode combined
    match Utf8.front rest with
    | .invalid _ => (buffer ++ text ++ Utf8.fromUtf8Lossy rest, [])
    | _ => (buffer ++ text, rest)

def stripSseField (field line : Text) : Option Text :=
  match (Text.stripPrefix field line).bind (Text.stripPrefix [':']) with
  | none => none
  | some rest => some ((Text.stripPrefix [' '] rest).getD rest)

inductive Block where
  | ignored
  | done
  | error (message : Text) (errorType : Option Text)
  | chunk (chunk : Value)

section Blocks

variable [SerdeJson]

def extractChatSseError (value : Value) : Text × Option Text :=
  let error := (value.get "error").getD value
  let message := error.asStr.or (((error.get "message").or (error.get "detail")).bind Value.asStr)
  (message.getD (SerdeJson.toText error), ((error.get "type").or (error.get "code")).bind Value.asStr)

def readBlock (block : Text) : Block :=
  let lines := Text.lines block
  let eventName := (lines.filterMap (stripSseField "event".toList)).getLast?.map Text.trim
  let dataParts := lines.filterMap (stripSseField "data".toList)
  if dataParts.isEmpty then .ignored
  else
    let data := Text.join ['\n'] dataParts
    if Text.trim data = "[DONE]".toList then .done
    else
      match SerdeJson.fromStr data with
      | none => .ignored
      | some chunk =>
        if eventName = some "error".toList ∨ (chunk.get "error").isSome then
          let (message, errorType) := extractChatSseError chunk
          .error message errorType
        else .chunk chunk

namespace ChatSseToResponsesConverter

def withRequest (originalRequest : Value) : ChatSseToResponsesConverter := { state := .withRequest originalRequest }

/-- A converter that has read nothing, with the request it answers if that is known. -/
def start (originalRequest : Option Value) : ChatSseToResponsesConverter := { state := .start originalRequest }

def run (step : Step) (c : ChatSseToResponsesConverter) : ChatSseToResponsesConverter × List Sse :=
  ({ c with state := (step c.state).1 }, (step c.state).2)

def handleBlock (block : Text) (c : ChatSseToResponsesConverter) : ChatSseToResponsesConverter × List Sse :=
  match readBlock block with
  | .ignored => (c, [])
  | .done => run finalize c
  | .error message errorType => run (Proxy.failed message errorType) { c with failed := true }
  | .chunk chunk => run (handleChatChunk chunk) c

/-- The loop over the complete blocks of the buffer, which an error ends. Every round shortens the buffer. -/
def drain : Nat → ChatSseToResponsesConverter → ChatSseToResponsesConverter × List Sse
  | 0, c => (c, [])
  | fuel + 1, c =>
    match takeSseBlock c.buffer with
    | none => (c, [])
    | some (block, rest) =>
      let c := { c with buffer := rest }
      if (Text.trim block).isEmpty then drain fuel c
      else
        let (c, output) := handleBlock block c
        if c.failed then (c, output) else ((drain fuel c).1, output ++ (drain fuel c).2)

def append (bytes : List UInt8) (c : ChatSseToResponsesConverter) : ChatSseToResponsesConverter :=
  let (buffer, utf8Remainder) := appendUtf8Safe c.buffer c.utf8Remainder bytes
  { c with buffer, utf8Remainder }

def pushBytes (bytes : List UInt8) (c : ChatSseToResponsesConverter) : ChatSseToResponsesConverter × List Sse :=
  drain (c.append bytes).buffer.length (c.append bytes)

/-- The text that is left in the buffer is not read any more. -/
def finish (c : ChatSseToResponsesConverter) : ChatSseToResponsesConverter × List Sse :=
  let c :=
    if c.utf8Remainder.isEmpty then c
    else { c with buffer := c.buffer ++ Utf8.fromUtf8Lossy c.utf8Remainder, utf8Remainder := [] }
  if c.failed then (c, []) else run finalize c

def fail (message : Text) (errorType : Option Text) (c : ChatSseToResponsesConverter) :
    ChatSseToResponsesConverter × List Sse :=
  run (Proxy.failed message errorType) { c with failed := true }

/-- The calls of `push_bytes`, one for each piece. -/
def pushAll (pieces : List (List UInt8)) : Emit ChatSseToResponsesConverter Sse := Emit.each pushBytes pieces

end ChatSseToResponsesConverter

end Blocks

end Lumio.Proxy
