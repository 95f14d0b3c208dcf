import Lumio.Lib.Text

/-!
# JSON values of the proxy

The values of `serde_json`. Reading and printing JSON texts is left to the crate: `SerdeJson` names the two functions,
and a number is known by its text and, where it is one, by its unsigned 64-bit value.
-/

namespace Lumio.Proxy

inductive Value where
  | null
  | bool (value : Bool)
  | number (text : Text) (u64 : Option Nat)
  | string (text : Text)
  | array (items : List Value)
  | object (members : List (String × Value))

class SerdeJson where
  /-- `serde_json::from_str` -/
  fromStr : Text → Option Value
  /-- `serde_json::to_string` -/
  toText : Value → Text

namespace Value

def get (key : String) : Value → Option Value
  | object members => (members.find? (·.1 = key)).map (·.2)
  | _ => none

def asStr : Value → Option Text
  | string text => some text
  | _ => none

def asU64 : Value → Option Nat
  | number _ u64 => u64
  | _ => none

def asArray : Value → Option (List Value)
  | array items => some items
  | _ => none

def isNull : Value → Bool
  | null => true
  | _ => false

/-- The text at a key of an object. -/
def str (key : String) (value : Value) : Option Text := (value.get key).bind asStr

/-- The text at a key of an object, unless it is empty. -/
def nonEmptyStr (key : String) (value : Value) : Option Text := (value.str key).filter (!·.isEmpty)

def ofStr (text : String) : Value := string text.toList

end Value

variable [SerdeJson]

mutual

/-- A JSON text with the members of every object in the order of their keys. -/
def canonicalJsonString : Value → Text
  | .null => "null".toList
  | .bool value => if value then "true".toList else "false".toList
  | .number text _ => text
  | .string text => SerdeJson.toText (.string text)
  | .array items => '[' :: Text.join [','] (canonicalItems items) ++ [']']
  | .object members =>
    let parts := ((canonicalMembers members).mergeSort (fun a b => a.1 ≤ b.1)).map fun (key, text) =>
      SerdeJson.toText (.string key.toList) ++ ':' :: text
    '\x7b' :: Text.join [','] parts ++ ['\x7d']

def canonicalItems : List Value → List Text
  | [] => []
  | item :: items => canonicalJsonString item :: canonicalItems items

def canonicalMembers : List (String × Value) → List (String × Text)
  | [] => []
  | (key, value) :: members => (key, canonicalJsonString value) :: canonicalMembers members

end

/-! ## Tool arguments -/

def responseOutputText : Value → Text
  | .string text => text
  | .null => []
  | other => canonicalJsonString other

def normalizeChatToolArgumentsString (text : Text) : Text :=
  let trimmed := Text.trim text
  if trimmed.isEmpty then ['\x7b', '\x7d']
  else
    match SerdeJson.fromStr trimmed with
    | some (.object _) => trimmed
    | some value => canonicalJsonString (.object [("input", value)])
    | none => canonicalJsonString (.object [("input", .string text)])

def responsesArgumentsToChat : Value → Text
  | .string text => normalizeChatToolArgumentsString text
  | .object members => canonicalJsonString (.object members)
  | .null => ['\x7b', '\x7d']
  | other => canonicalJsonString (.object [("input", other)])

end Lumio.Proxy
