import Mathlib.Data.List.Basic

/-!
# JSON values

What a JSON text spells, with all the members of its objects in order. The protocol refuses a text in which
an object names a member twice, at any depth.
-/

namespace Lumio.Protocol

inductive Json where
  | null
  | bool (value : Bool)
  | number (value : Int)
  | string (value : String)
  | array (items : List Json)
  | object (members : List (String × Json))

mutual

/-- No object in the value names a member twice. -/
def Json.strict : Json → Bool
  | .null | .bool _ | .number _ | .string _ => true
  | .array items => Json.strictItems items
  | .object members => Json.strictMembers [] members

def Json.strictItems : List Json → Bool
  | [] => true
  | item :: items => item.strict && Json.strictItems items

/-- `seen` are the names of the members before. -/
def Json.strictMembers (seen : List String) : List (String × Json) → Bool
  | [] => true
  | (key, value) :: members => !seen.contains key && value.strict && Json.strictMembers (key :: seen) members

end

/-- The texts `strict_json` accepts spell an object. -/
def Json.strictObject : Json → Bool
  | .object members => Json.strictMembers [] members
  | _ => false

/-- The member of an object, which is looked for by its name. -/
def Json.member (key : String) (members : List (String × Json)) : Option Json :=
  (members.find? (·.1 = key)).map (·.2)

end Lumio.Protocol
