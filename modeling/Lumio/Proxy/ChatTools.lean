import Lumio.Proxy.Patch

/-!
# Tools offered upstream

The tools of a request as function tools of a chat request. A custom tool becomes a function of one text, the patch tool
becomes a function for each of its actions, and the functions of a namespace get the name of the namespace in front.
-/

namespace Lumio.Proxy

def Value.isObject : Value → Bool
  | .object _ => true
  | _ => false

def Value.insert (value : Value) (key : String) (new : Value) : Value :=
  match value with
  | .object members => .object (insertMember members key new)
  | other => other

/-- `Map::entry(key).or_insert(new)` -/
def Value.insertNew (value : Value) (key : String) (new : Value) : Value :=
  if (value.get key).isSome then value else value.insert key new

def Value.remove (value : Value) (key : String) : Value :=
  match value with
  | .object members => .object (members.filter (·.1 ≠ key))
  | other => other

/-- What `get_mut` and `as_object_mut` change of the object at a key. -/
def Value.updateObject (value : Value) (key : String) (f : Value → Value) : Value :=
  match value.get key with
  | some (.object members) => value.insert key (f (.object members))
  | _ => value

variable {key : String} (tool : Value)

theorem find?_replaced {key' : String} (hkey : key' ≠ key) (new : Value) (members : List (String × Value)) :
    (members.map fun member => if member.1 = key' then (key', new) else member).find? (·.1 = key) =
      members.find? (·.1 = key) := by
  induction members with
  | nil => rfl
  | cons member members ih =>
    rw [List.map_cons, List.find?_cons, List.find?_cons, ih]
    by_cases hmember : member.1 = key'
    · rw [if_pos hmember, decide_eq_false hkey, decide_eq_false (hmember ▸ hkey)]
    · rw [if_neg hmember]

theorem find?_insertMember_ne {key' : String} (hkey : key' ≠ key) (new : Value) (members : List (String × Value)) :
    (insertMember members key' new).find? (·.1 = key) = members.find? (·.1 = key) := by
  unfold insertMember
  split
  · exact find?_replaced hkey new members
  · rw [List.find?_append, List.find?_cons_of_neg (by simpa using hkey), List.find?_nil, Option.or_none]

theorem find?_insertMember_self (key : String) (new : Value) (members : List (String × Value)) :
    (insertMember members key new).find? (·.1 = key) = some (key, new) := by
  unfold insertMember
  split
  case isTrue hany =>
    induction members with
    | nil => cases hany
    | cons member members ih =>
      rw [List.map_cons, List.find?_cons]
      by_cases hmember : member.1 = key
      · rw [if_pos hmember, decide_eq_true rfl]
      · rw [if_neg hmember, decide_eq_false hmember]
        apply ih
        simpa [hmember] using hany
  case isFalse hany =>
    have hnone : members.find? (·.1 = key) = none := by
      rw [List.find?_eq_none]
      intro member hmember heq
      exact hany (List.any_eq_true.mpr ⟨member, hmember, heq⟩)
    rw [List.find?_append, hnone, Option.none_or, List.find?_cons_of_pos (by simp)]

namespace Value

variable {key key' : String}

theorem get_insert_ne (hkey : key' ≠ key) (value new : Value) : (value.insert key' new).get key = value.get key := by
  cases value with
  | object members => exact congrArg (Option.map Prod.snd) (find?_insertMember_ne hkey new members)
  | _ => rfl

theorem get_insertNew_ne (hkey : key' ≠ key) (value new : Value) :
    (value.insertNew key' new).get key = value.get key := by
  unfold insertNew
  split
  · rfl
  · exact get_insert_ne hkey value new

theorem get_remove_ne (hkey : key' ≠ key) (value : Value) : (value.remove key').get key = value.get key := by
  cases value with
  | object members =>
    simp only [remove, get, List.find?_filter]
    congr 2
    funext member
    by_cases hmember : member.1 = key
    · simp [hmember, Ne.symm hkey]
    · simp [hmember]
  | _ => rfl

theorem get_updateObject {key inner : String} {f : Value → Value} (hf : ∀ value, (f value).get inner = value.get inner)
    (value : Value) : ((value.updateObject key f).get key).bind (·.get inner) = (value.get key).bind (·.get inner) := by
  unfold updateObject
  split
  case h_1 members hget =>
    rw [hget, Option.bind_some, ← hf]
    cases value with
    | object outer =>
      simp only [insert, get, find?_insertMember_self, Option.map_some, Option.bind_some]
    | _ => cases hget
  case h_2 => rfl

end Value

def chatToolName (chatTool : Value) : Option Text := (chatTool.get "function").bind (·.str "name")

def normalizeChatToolParameters (parameters : Value) : Value :=
  (((if parameters.isObject then parameters else .object []).insertNew "type" (.ofStr "object")).insertNew "properties"
    (.object [])).insertNew "required" (.array [])

def functionTool (name description : Text) (parameters : Value) : Value :=
  .object [("type", .ofStr "function"),
    ("function", .object [("name", .string name), ("description", .string description), ("parameters", parameters)])]

/-! ## Custom tools -/

def freeformDescription (name description : Text) : Text :=
  if (Text.trim description).isEmpty then
    "FREEFORM custom tool: ".toList ++ name ++ ". Put only the tool input text here.".toList
  else
    Text.trim description ++ "\n\nThis is a FREEFORM tool. Do not wrap the input in JSON or markdown.".toList

def freeformSchema : Value :=
  .object [("type", .ofStr "object"), ("additionalProperties", .bool false),
    ("properties", .object [("input", .object [("type", .ofStr "string"),
      ("description", .ofStr "Raw freeform input for this custom tool.")])]),
    ("required", .array [.ofStr "input"])]

def genericCustomProxyTool (name description : Text) : Value :=
  functionTool name (freeformDescription name description) freeformSchema

def textSchema (description : String) : Value :=
  .object [("type", .ofStr "string"), ("description", .ofStr description)]

def objectSchema (properties : List (String × Value)) (required : List String) : Value :=
  .object [("type", .ofStr "object"), ("additionalProperties", .bool false), ("properties", .object properties),
    ("required", .array (required.map .ofStr))]

def enumSchema (values : List String) : Value :=
  .object [("type", .ofStr "string"), ("enum", .array (values.map .ofStr))]

def applyPatchHunksSchema : Value :=
  .object [("type", .ofStr "array"),
    ("description", .ofStr "Structured update hunks (required when type=update_file)."),
    ("items", objectSchema [
      ("context", textSchema "Optional @@ context header text."),
      ("lines", .object [("type", .ofStr "array"), ("items", objectSchema [
        ("op", enumSchema ["context", "add", "remove"]),
        ("text", .object [("type", .ofStr "string")])] ["op", "text"])])] ["lines"])]

def applyPatchBatchSchema : Value :=
  objectSchema [("operations", .object [("type", .ofStr "array"),
    ("description", .ofStr "Ordered list of file patch operations."),
    ("items", objectSchema [
      ("type", enumSchema ["add_file", "delete_file", "update_file", "replace_file"]),
      ("path", .object [("type", .ofStr "string")]),
      ("move_to", textSchema "Optional destination path for move operations (update_file only)."),
      ("content", textSchema "Full file content for add_file / replace_file."),
      ("hunks", applyPatchHunksSchema)] ["type", "path"])])] ["operations"]

def CodexPatchProxyAction.schema : CodexPatchProxyAction → Value
  | addFile => objectSchema [("path", textSchema "Target file path."),
      ("content", textSchema "Full file content without patch '+' prefixes.")] ["path", "content"]
  | deleteFile => objectSchema [("path", textSchema "Target file path.")] ["path"]
  | updateFile => objectSchema [("path", textSchema "Target file path."),
      ("move_to", textSchema "Optional destination path for move operations."),
      ("hunks", applyPatchHunksSchema)] ["path", "hunks"]
  | replaceFile => objectSchema [("path", textSchema "Target file path."),
      ("content", textSchema "Full replacement content.")] ["path", "content"]
  | batch => applyPatchBatchSchema

def CodexPatchProxyAction.defaultDescription : CodexPatchProxyAction → Text
  | addFile => "Create one new file by providing a target path and full file content.".toList
  | deleteFile => "Delete one file by providing a target path.".toList
  | updateFile => "Edit one existing file with structured hunks.".toList
  | replaceFile => "Replace one existing file by providing a target path and full new file content.".toList
  | batch => "Edit files by providing structured JSON patch operations.".toList

def patchProxyDescription (description : Text) (action : CodexPatchProxyAction) : Text :=
  if (Text.trim description).isEmpty then action.defaultDescription
  else Text.trim description ++ " (proxy action: ".toList ++ action.suffix ++ [')']

def patchProxyName (name : Text) (action : CodexPatchProxyAction) : Text := name ++ '_' :: action.suffix

def patchActions : List CodexPatchProxyAction := [.addFile, .deleteFile, .updateFile, .replaceFile, .batch]

def applyPatchProxyTools (name description : Text) : List Value :=
  patchActions.map fun action =>
    functionTool (patchProxyName name action) (patchProxyDescription description action) action.schema

/-! ## Function tools and namespaces -/

/-- A tool that has the chat form already keeps it, but for its parameters and the place of `strict`. -/
def nestedFunctionTool (tool : Value) : Value :=
  let strictMoved := match tool.get "strict" with
    | some strict => (tool.updateObject "function" (·.insertNew "strict" strict)).remove "strict"
    | none => tool
  strictMoved.updateObject "function" fun function =>
    function.insert "parameters" (normalizeChatToolParameters ((function.get "parameters").getD (.object [])))

def plainFunctionTool (tool : Value) : Value :=
  let function : List (String × Value) := [("name", .string ((tool.str "name").getD [])),
    ("description", (tool.get "description").getD .null),
    ("parameters", normalizeChatToolParameters ((tool.get "parameters").getD (.object [])))]
  let strict := (tool.get "strict").toList.map fun strict => ("strict", strict)
  .object [("type", .ofStr "function"), ("function", .object (function ++ strict))]

def responsesFunctionToolToChatTool (tool : Value) : Option Value :=
  if tool.str "type" ≠ some "function".toList then none
  else if (tool.get "function").isSome then some (nestedFunctionTool tool)
  else some (plainFunctionTool tool)

def combineNamespaceDescription (namespaceDescription childDescription : Text) : Text :=
  let outer := Text.trim namespaceDescription
  let inner := Text.trim childDescription
  if outer.isEmpty then inner
  else if inner.isEmpty then outer
  else outer ++ ['\n', '\n'] ++ inner

def flattenedChatTool (flat description : Text) (child : Value) : Value :=
  let function : List (String × Value) := [("name", .string flat),
    ("parameters", normalizeChatToolParameters ((child.get "parameters").getD (.object [])))]
  let described := if description.isEmpty then [] else [("description", Value.string description)]
  .object [("type", .ofStr "function"), ("function", .object (function ++ described))]

/-- One function of a namespace, unless a function outside of namespaces has its name. -/
def namespaceChildToChatTool (toolNamespace namespaceDescription : Text) (context : CodexToolContext) (child : Value) :
    Option Value :=
  if child.str "type" ≠ some "function".toList then none
  else
    match child.nonEmptyStr "name" with
    | none => none
    | some name =>
      let flat := flattenNamespaceToolName toolNamespace name
      if !toolNamespace.isEmpty && ((context.functionTools.lookup flat).map (·.toolNamespace.isEmpty)).getD false then
        none
      else
        some (flattenedChatTool flat
          (combineNamespaceDescription namespaceDescription ((child.str "description").getD [])) child)

def namespaceToolToChatTools (namespaceTool : Value) (context : CodexToolContext) : List Value :=
  match (namespaceTool.get "tools").bind Value.asArray with
  | none => []
  | some children =>
    children.filterMap (namespaceChildToChatTool ((namespaceTool.str "name").getD [])
      ((namespaceTool.str "description").getD []) context)

/-! ## All tools -/

def customToolToChatTools (tool : Value) (toolType : Text) : List Value :=
  let name := (tool.nonEmptyStr "name").getD toolType
  let description := (tool.str "description").getD []
  if detectCodexCustomToolKind tool name = .applyPatch then applyPatchProxyTools name description
  else [genericCustomProxyTool name description]

def responsesToolToChatTools (context : CodexToolContext) (tool : Value) : List Value :=
  match tool.asStr.filter (!·.isEmpty) with
  | some name => [genericCustomProxyTool name []]
  | none =>
    let toolType := (tool.str "type").getD []
    if toolType = "function".toList then (responsesFunctionToolToChatTool tool).toList
    else if toolType = "custom".toList || isBuiltInType (some toolType) then customToolToChatTools tool toolType
    else if toolType = "namespace".toList then namespaceToolToChatTools tool context
    else []

def responsesToolsToChatTools (tools : List Value) (context : CodexToolContext) : List Value :=
  tools.flatMap (responsesToolToChatTools context)

/-! ## The names of chat tools -/

theorem chatToolName_applyPatchProxyTools (name description : Text) :
    (applyPatchProxyTools name description).filterMap chatToolName = patchActions.map (patchProxyName name) := rfl

theorem chatToolName_updateObject {f : Value → Value} (hf : ∀ value, (f value).get "name" = value.get "name")
    (tool : Value) : chatToolName (tool.updateObject "function" f) = chatToolName tool := by
  have hget := @Value.get_updateObject "function" _ _ hf tool
  unfold chatToolName Value.str
  rw [← Option.bind_assoc, ← Option.bind_assoc, hget]

theorem chatToolName_remove (hkey : key ≠ "function") (tool : Value) :
    chatToolName (tool.remove key) = chatToolName tool := by
  rw [chatToolName, chatToolName, Value.get_remove_ne hkey]

theorem chatToolName_nestedFunctionTool : chatToolName (nestedFunctionTool tool) = chatToolName tool := by
  rw [nestedFunctionTool, chatToolName_updateObject fun value => Value.get_insert_ne (by decide) value _]
  cases tool.get "strict" with
  | none => rfl
  | some strict =>
    rw [chatToolName_remove (by decide), chatToolName_updateObject]
    exact fun value => Value.get_insertNew_ne (by decide) value strict

end Lumio.Proxy
