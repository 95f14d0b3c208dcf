import Lumio.Lib.Table
import Lumio.Proxy.Value

/-!
# Tools of a request

The tools a request declares, by the names under which the upstream model calls them, and the input of a custom tool
put together again from the arguments of the proxied function call.
-/

namespace Lumio.Proxy

inductive CodexCustomToolKind where
  | raw
  | applyPatch
  | builtIn
deriving DecidableEq

inductive CodexPatchProxyAction where
  | addFile
  | deleteFile
  | updateFile
  | replaceFile
  | batch
deriving DecidableEq

def CodexPatchProxyAction.suffix : CodexPatchProxyAction → Text
  | addFile => "add_file".toList
  | deleteFile => "delete_file".toList
  | updateFile => "update_file".toList
  | replaceFile => "replace_file".toList
  | batch => "batch".toList

structure CodexCustomToolSpec where
  openaiName : Text
  kind : CodexCustomToolKind
  proxyAction : Option CodexPatchProxyAction
deriving DecidableEq

structure CodexFunctionToolSpec where
  toolNamespace : Text
  name : Text
deriving DecidableEq

structure CodexToolContext where
  customTools : Table Text CodexCustomToolSpec := ∅
  functionTools : Table Text CodexFunctionToolSpec := ∅

namespace CodexToolContext

def isCustomToolProxy (context : CodexToolContext) (upstreamName : Text) : Bool :=
  (context.customTools.lookup upstreamName).isSome

def originalCustomToolName (context : CodexToolContext) (upstreamName : Text) : Text :=
  ((context.customTools.lookup upstreamName).map (·.openaiName)).getD upstreamName

/-- The name and the namespace under which the client knows a function tool. -/
def openaiNameForFunctionTool (context : CodexToolContext) (upstreamName : Text) : Text × Text :=
  match context.functionTools.lookup upstreamName with
  | none => (upstreamName, [])
  | some spec => (if spec.name.isEmpty then upstreamName else spec.name, spec.toolNamespace)

end CodexToolContext

/-! ## Reading the tools of a request -/

def proxyActionFromUpstreamName (name : Text) : Option CodexPatchProxyAction :=
  if "_add_file".toList.isSuffixOf name then some .addFile
  else if "_delete_file".toList.isSuffixOf name then some .deleteFile
  else if "_update_file".toList.isSuffixOf name then some .updateFile
  else if "_replace_file".toList.isSuffixOf name then some .replaceFile
  else if "_batch".toList.isSuffixOf name then some .batch
  else none

def flattenNamespaceToolName (toolNamespace name : Text) : Text :=
  if toolNamespace.isEmpty then name
  else if name.isEmpty then toolNamespace
  else if ['_', '_'].isSuffixOf toolNamespace || ['_', '_'].isPrefixOf name then toolNamespace ++ name
  else toolNamespace ++ ['_', '_'] ++ name

def isBuiltInType (toolType : Option Text) : Bool :=
  toolType == some "web_search".toList || toolType == some "local_shell".toList ||
    toolType == some "computer_use".toList

def detectCodexCustomToolKind (tool : Value) (name : Text) : CodexCustomToolKind :=
  if name = "apply_patch".toList then .applyPatch
  else
    match ((tool.get "format").bind (·.get "definition")).bind Value.asStr with
    | some definition =>
      if Text.contains "begin_patch".toList definition && Text.contains "end_patch".toList definition &&
          Text.contains "add_hunk".toList definition then .applyPatch
      else plain
    | none => plain
where
  plain := if isBuiltInType (tool.str "type") then .builtIn else .raw

def CodexToolContext.addCustom (context : CodexToolContext) (name : Text) (spec : CodexCustomToolSpec) :
    CodexToolContext :=
  { context with customTools := context.customTools.insert name spec }

def CodexToolContext.addFunction (context : CodexToolContext) (name : Text) (spec : CodexFunctionToolSpec) :
    CodexToolContext :=
  { context with functionTools := context.functionTools.insert name spec }

def addNamespaceTool (toolNamespace : Text) (context : CodexToolContext) (child : Value) : CodexToolContext :=
  if child.str "type" ≠ some "function".toList then context
  else
    match child.nonEmptyStr "name" with
    | none => context
    | some name =>
      let flat := flattenNamespaceToolName toolNamespace name
      if toolNamespace.isEmpty then context.addFunction flat ⟨toolNamespace, name⟩
      else if ((context.functionTools.lookup flat).map (·.toolNamespace.isEmpty)).getD false then context
      else context.addFunction flat ⟨toolNamespace, name⟩

def addNamespaceToolsToContext (context : CodexToolContext) (namespaceTool : Value) : CodexToolContext :=
  match (namespaceTool.get "tools").bind Value.asArray with
  | none => context
  | some children => children.foldl (addNamespaceTool ((namespaceTool.str "name").getD [])) context

def addCustomTool (context : CodexToolContext) (tool : Value) (name : Text) : CodexToolContext :=
  let kind := detectCodexCustomToolKind tool name
  let context := context.addCustom name ⟨name, kind, none⟩
  if kind = .applyPatch then
    [CodexPatchProxyAction.addFile, .deleteFile, .updateFile, .replaceFile, .batch].foldl
      (fun context action => context.addCustom (name ++ '_' :: action.suffix) ⟨name, .applyPatch, some action⟩) context
  else context

def addTypedTool (context : CodexToolContext) (tool : Value) : CodexToolContext :=
  let toolType := (tool.str "type").getD []
  if toolType = "custom".toList then
    match tool.nonEmptyStr "name" with
    | none => context
    | some name => addCustomTool context tool name
  else if toolType = "function".toList then
    match tool.nonEmptyStr "name" with
    | none => context
    | some name => context.addFunction name ⟨[], name⟩
  else if toolType = "namespace".toList then addNamespaceToolsToContext context tool
  else if isBuiltInType (some toolType) then
    let name := (tool.nonEmptyStr "name").getD toolType
    context.addCustom name ⟨name, .builtIn, none⟩
  else context

/-- A tool given by its name alone is a custom tool, and one action of the patch tool if its name says so. -/
def addTool (context : CodexToolContext) (tool : Value) : CodexToolContext :=
  match tool.asStr.filter (!·.isEmpty) with
  | some name =>
    match proxyActionFromUpstreamName name with
    | some action => context.addCustom name ⟨"apply_patch".toList, .applyPatch, some action⟩
    | none => context.addCustom name ⟨name, .raw, none⟩
  | none => addTypedTool context tool

def buildCodexToolContext (tools : Option Value) : CodexToolContext :=
  match tools.bind Value.asArray with
  | none => {}
  | some tools => tools.foldl addTool {}

/-! ## The input of a custom tool -/

def lineOpPrefix (op : Text) : Text :=
  if op = "add".toList then ['+']
  else if op = "remove".toList || op = "delete".toList then ['-']
  else [' ']

def patchLine (line : Value) : Text :=
  '\n' :: lineOpPrefix ((line.str "op").getD "context".toList) ++ (line.str "text").getD []

def patchHunk (hunk : Value) : Text :=
  let context := (hunk.str "context").getD []
  (if context.isEmpty then "\n@@".toList else "\n@@ ".toList ++ context) ++
    (((hunk.get "lines").bind Value.asArray).getD []).flatMap patchLine

def addedLines (operation : Value) : Text :=
  (Text.lines ((operation.str "content").getD [])).flatMap fun line => '\n' :: '+' :: line

def patchOperation (operation : Value) : Text :=
  let opType := (operation.str "type").getD []
  let path := (operation.str "path").getD []
  if opType = "add_file".toList then "\n*** Add File: ".toList ++ path ++ addedLines operation
  else if opType = "delete_file".toList then "\n*** Delete File: ".toList ++ path
  else if opType = "update_file".toList then
    "\n*** Update File: ".toList ++ path ++
      ((operation.nonEmptyStr "move_to").map ("\n*** Move to: ".toList ++ ·)).getD [] ++
      (((operation.get "hunks").bind Value.asArray).getD []).flatMap patchHunk
  else if opType = "replace_file".toList then
    "\n*** Delete File: ".toList ++ path ++ "\n*** Add File: ".toList ++ path ++ addedLines operation
  else []

def buildApplyPatchText (operations : List Value) : Text :=
  "*** Begin Patch".toList ++ operations.flatMap patchOperation ++ "\n*** End Patch".toList

def patchOperations (action : CodexPatchProxyAction) (value : Value) : List Value :=
  let text (key : String) : String × Value := (key, .string ((value.str key).getD []))
  match action with
  | .addFile => [.object [("type", .ofStr "add_file"), text "path", text "content"]]
  | .deleteFile => [.object [("type", .ofStr "delete_file"), text "path"]]
  | .updateFile =>
    [.object [("type", .ofStr "update_file"), text "path", text "move_to",
      ("hunks", (value.get "hunks").getD (.array []))]]
  | .replaceFile => [.object [("type", .ofStr "replace_file"), text "path", text "content"]]
  | .batch => ((value.get "operations").bind Value.asArray).getD []

section Input

variable [SerdeJson]

def reconstructApplyPatchInput (action : Option CodexPatchProxyAction) (arguments : Text) : Text :=
  match SerdeJson.fromStr arguments with
  | none => arguments
  | some value =>
    let raw := ((value.get "raw_patch").or ((value.get "patch").or (value.get "input"))).bind Value.asStr
    match raw.filter (!·.isEmpty) with
    | some rawPatch => rawPatch
    | none => buildApplyPatchText (patchOperations (action.getD .batch) value)

def reconstructCustomToolCallInput (arguments : Text) : Text :=
  match SerdeJson.fromStr arguments with
  | none => arguments
  | some value => ((value.get "input").map responseOutputText).getD arguments

def reconstructCustomToolCallInputWithContext (context : CodexToolContext) (upstreamName arguments : Text) : Text :=
  match context.customTools.lookup upstreamName with
  | some spec =>
    if spec.kind = .applyPatch then reconstructApplyPatchInput spec.proxyAction arguments
    else reconstructCustomToolCallInput arguments
  | none => reconstructCustomToolCallInput arguments

end Input

end Lumio.Proxy
