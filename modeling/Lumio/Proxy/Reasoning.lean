import Lumio.Proxy.Value

/-!
# Reasoning texts

Where an upstream model puts its reasoning: in one of several fields of a message or a delta, or in a leading
`<think>` block of the content.
-/

namespace Lumio.Proxy

def thinkOpenTag : Text := "<think>".toList
def thinkCloseTag : Text := "</think>".toList

/-! ## Reasoning fields -/

def firstText (keys : List String) (value : Value) : Option Text := keys.findSome? fun key => value.nonEmptyStr key

def joinParagraphs (texts : List Text) : Option Text :=
  let text := Text.join ['\n', '\n'] texts
  if text.isEmpty then none else some text

mutual

def extractReasoningDetailPartText : Value → Option Text
  | .object members =>
    match firstText ["text", "content", "summary"] (.object members) with
    | some text => some text
    | none => extractParts members
  | _ => none

/-- The texts of the member `parts`. -/
def extractParts : List (String × Value) → Option Text
  | [] => none
  | (key, .array parts) :: members =>
    if key = "parts" then joinParagraphs (extractDetailTexts parts) else extractParts members
  | (key, _) :: members => if key = "parts" then none else extractParts members

def extractDetailTexts : List Value → List Text
  | [] => []
  | part :: parts =>
    ((extractReasoningDetailPartText part).filter (!·.isEmpty)).toList ++ extractDetailTexts parts

end

def extractReasoningDetailsText : Value → Option Text
  | .string text => if text.isEmpty then none else some text
  | .array parts => joinParagraphs (extractDetailTexts parts)
  | .object members => extractReasoningDetailPartText (.object members)
  | _ => none

def extractReasoningFieldText (value : Value) : Option Text :=
  (firstText ["reasoning_content", "reasoning"] value).or
    (((value.get "reasoning").bind (firstText ["content", "text", "summary"])).or
      ((value.get "reasoning_details").bind extractReasoningDetailsText))

/-! ## Inline think blocks -/

def stripThinkAnswerSeparator (text : Text) : Text := text.dropWhile fun c => c == '\r' || c == '\n' || c == '\t' || c == ' '

/-- The trimmed body of a leading think block, and what follows it. -/
def splitLeadingThinkBlock (text : Text) : Option (Text × Text) :=
  match Text.stripPrefix thinkOpenTag (Text.trimStart text) with
  | none => none
  | some body =>
    match Text.find thinkCloseTag body with
    | none => none
    | some close =>
      some (Text.trim (body.take close), stripThinkAnswerSeparator (body.drop (close + thinkCloseTag.length)))

def stripLeadingThinkOpenTag (text : Text) : Option Text :=
  (Text.stripPrefix thinkOpenTag (Text.trimStart text)).map Text.trim

inductive ThinkPrefixDecision where
  | needMore
  | reasoning
  | text
deriving DecidableEq

def leadingThinkPrefixDecision (buffer : Text) : ThinkPrefixDecision :=
  let trimmed := Text.trimStart buffer
  if trimmed.isEmpty then .needMore
  else if thinkOpenTag.isPrefixOf trimmed then .reasoning
  else if trimmed.isPrefixOf thinkOpenTag then .needMore
  else .text

end Lumio.Proxy
