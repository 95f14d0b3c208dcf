import Lumio.Proxy.ChatTools
import Lumio.Proxy.Stream

/-!
# Names of the tools upstream

All tools of a request share one name space upstream. `buildCodexToolContext` registers names and
`responsesToolsToChatTools` offers names, each in a pass of its own. This module reads off a list of tools what either
pass does with it, and says for which lists every call of an offered name comes back as a call of the tool that the
name was made for.
-/

namespace Lumio.Proxy

/-! ## The declared tools -/

inductive ToolForm where
  | bare (name : Text)
  | custom (name : Option Text)
  | function
  | nested (toolNamespace : Text) (children : List Value)
  | builtIn (name : Text)
  | unknown

def toolForm (tool : Value) : ToolForm :=
  match tool.asStr.filter (!·.isEmpty) with
  | some name => .bare name
  | none =>
    let toolType := (tool.str "type").getD []
    if toolType = "custom".toList then .custom (tool.nonEmptyStr "name")
    else if toolType = "function".toList then .function
    else if toolType = "namespace".toList then
      .nested ((tool.str "name").getD []) (((tool.get "tools").bind Value.asArray).getD [])
    else if isBuiltInType (some toolType) then .builtIn ((tool.nonEmptyStr "name").getD toolType)
    else .unknown

inductive ToolKind where
  | function
  | custom
deriving DecidableEq

structure Declaration where
  kind : ToolKind
  toolNamespace : Text
  name : Text
deriving DecidableEq

def childName (child : Value) : Option Text :=
  if child.str "type" = some "function".toList then child.nonEmptyStr "name" else none

/-- The name of a function tool, which is inside if the tool has the chat form already. -/
def functionName (tool : Value) : Option Text :=
  match tool.get "function" with
  | some function => function.str "name"
  | none => some ((tool.str "name").getD [])

/-- What a tool that is no namespace declares. -/
def declaredAlone (tool : Value) : Declaration :=
  match toolForm tool with
  | .bare name | .builtIn name => ⟨.custom, [], name⟩
  | .custom name => ⟨.custom, [], name.getD "custom".toList⟩
  | _ => ⟨.function, [], (functionName tool).getD []⟩

def declarations (tool : Value) : List Declaration :=
  match toolForm tool with
  | .nested toolNamespace children => (children.filterMap childName).map fun name => ⟨.function, toolNamespace, name⟩
  | .unknown => []
  | _ => [declaredAlone tool]

def offers (context : CodexToolContext) (tool : Value) : List (Value × Declaration) :=
  match toolForm tool with
  | .nested toolNamespace children =>
    children.filterMap fun child =>
      (namespaceChildToChatTool toolNamespace ((tool.str "description").getD []) context child).map fun chatTool =>
        (chatTool, ⟨.function, toolNamespace, (child.nonEmptyStr "name").getD []⟩)
  | _ => (responsesToolToChatTools context tool).map fun chatTool => (chatTool, declaredAlone tool)

def Declaration.CalledBy (declaration : Declaration) : Item → Prop
  | .functionCall _ _ name _ toolNamespace => declaration = ⟨.function, toolNamespace, name⟩
  | .customToolCall _ _ name _ => declaration = ⟨.custom, [], name⟩
  | _ => False

section Faithful

variable [SerdeJson]

/-- No two chat tools have one name, and a call of a name comes back as a call of the tool it was made for. -/
structure NamedFaithfully (tools : List Value) : Prop where
  distinct : ((responsesToolsToChatTools tools (buildCodexToolContext (some (.array tools)))).filterMap
    chatToolName).Nodup
  back : ∀ tool ∈ tools, ∀ offer ∈ offers (buildCodexToolContext (some (.array tools))) tool, ∀ name,
    chatToolName offer.1 = some name → ∀ callId arguments,
      offer.2.CalledBy (responseToolCallItem (buildCodexToolContext (some (.array tools))) callId name arguments)

end Faithful

/-! ## Names registered and names wanted -/

def bareSpec (name : Text) : CodexCustomToolSpec :=
  match proxyActionFromUpstreamName name with
  | some action => ⟨"apply_patch".toList, .applyPatch, some action⟩
  | none => ⟨name, .raw, none⟩

def customRegistrations (tool : Value) : List (Text × CodexCustomToolSpec) :=
  match toolForm tool with
  | .bare name => [(name, bareSpec name)]
  | .custom (some name) =>
    (name, ⟨name, detectCodexCustomToolKind tool name, none⟩) ::
      if detectCodexCustomToolKind tool name = .applyPatch then
        patchActions.map fun action => (patchProxyName name action, ⟨name, .applyPatch, some action⟩)
      else []
  | .builtIn name => [(name, ⟨name, .builtIn, none⟩)]
  | _ => []

def functionRegistrations (tool : Value) : List (Text × CodexFunctionToolSpec) :=
  match toolForm tool with
  | .function => (tool.nonEmptyStr "name").toList.map fun name => (name, ⟨[], name⟩)
  | .nested toolNamespace children =>
    (children.filterMap childName).map fun name => (flattenNamespaceToolName toolNamespace name, ⟨toolNamespace, name⟩)
  | _ => []

def plainNames (tools : List Value) : List Text :=
  ((tools.flatMap functionRegistrations).filter (·.2.toolNamespace.isEmpty)).map (·.1)

/-- The names that a custom tool wants: its own one, or one for each action of a patch tool. -/
def customNames (tool : Value) (name : Text) : List Text :=
  if detectCodexCustomToolKind tool name = .applyPatch then patchActions.map (patchProxyName name) else [name]

/-- The names that a tool wants upstream. A function of a namespace stands back behind a function outside of them. -/
def wantedNames (plain : List Text) (tool : Value) : List (Text × Declaration) :=
  match toolForm tool with
  | .bare name => [(name, declaredAlone tool)]
  | .custom name => (customNames tool (name.getD "custom".toList)).map fun wanted => (wanted, declaredAlone tool)
  | .builtIn name => (customNames tool name).map fun wanted => (wanted, declaredAlone tool)
  | .function => (functionName tool).toList.map fun name => (name, declaredAlone tool)
  | .nested toolNamespace children =>
    ((children.filterMap childName).filter fun name =>
      toolNamespace.isEmpty || flattenNamespaceToolName toolNamespace name ∉ plain).map fun name =>
        (flattenNamespaceToolName toolNamespace name, ⟨.function, toolNamespace, name⟩)
  | .unknown => []

def wanted (tools : List Value) : List (Text × Declaration) := tools.flatMap (wantedNames (plainNames tools))

/-- No two tools want one name, the last tool that registers the name of a custom tool is that tool or has its name,
and the name of a function is not registered for a custom tool. -/
structure NamesApart (tools : List Value) : Prop where
  distinct : ((wanted tools).map (·.1)).Nodup
  custom : ∀ name declaration, (name, declaration) ∈ wanted tools → declaration.kind = .custom →
    (Table.lastRow name (tools.flatMap customRegistrations)).map (·.openaiName) = some declaration.name
  function : ∀ name declaration, (name, declaration) ∈ wanted tools → declaration.kind = .function →
    name ∉ (tools.flatMap customRegistrations).map (·.1)

/-! ## What a tool registers -/

variable (tools : List Value) (toolNamespace : Text) (tool : Value) (name : Text)

theorem addTool_eq (context : CodexToolContext) (tool : Value) : addTool context tool =
    match toolForm tool with
    | .bare name => context.addCustom name (bareSpec name)
    | .custom none => context
    | .custom (some name) => addCustomTool context tool name
    | .function => (tool.nonEmptyStr "name").toList.foldl (fun context name => context.addFunction name ⟨[], name⟩) context
    | .nested toolNamespace children => children.foldl (addNamespaceTool toolNamespace) context
    | .builtIn name => context.addCustom name ⟨name, .builtIn, none⟩
    | .unknown => context := by
  unfold addTool toolForm
  cases tool.asStr.filter (!·.isEmpty) with
  | some name =>
    unfold bareSpec
    simp only
    cases proxyActionFromUpstreamName name <;> rfl
  | none =>
    unfold addTypedTool
    simp only
    generalize (tool.str "type").getD [] = toolType
    by_cases hcustom : toolType = "custom".toList
    · rw [if_pos hcustom, if_pos hcustom]
      cases tool.nonEmptyStr "name" <;> rfl
    rw [if_neg hcustom, if_neg hcustom]
    by_cases hfunction : toolType = "function".toList
    · rw [if_pos hfunction, if_pos hfunction]
      cases tool.nonEmptyStr "name" <;> rfl
    rw [if_neg hfunction, if_neg hfunction]
    by_cases hnamespace : toolType = "namespace".toList
    · rw [if_pos hnamespace, if_pos hnamespace, addNamespaceToolsToContext]
      cases (tool.get "tools").bind Value.asArray <;> rfl
    rw [if_neg hnamespace, if_neg hnamespace]
    cases isBuiltInType (some toolType) <;> rfl

theorem responsesToolToChatTools_eq (context : CodexToolContext) (tool : Value) :
    responsesToolToChatTools context tool =
      match toolForm tool with
      | .bare name => [genericCustomProxyTool name []]
      | .custom _ => customToolToChatTools tool "custom".toList
      | .function => (responsesFunctionToolToChatTool tool).toList
      | .nested toolNamespace children =>
        children.filterMap (namespaceChildToChatTool toolNamespace ((tool.str "description").getD []) context)
      | .builtIn _ => customToolToChatTools tool ((tool.str "type").getD [])
      | .unknown => [] := by
  unfold responsesToolToChatTools toolForm
  cases tool.asStr.filter (!·.isEmpty) with
  | some name => rfl
  | none =>
    simp only
    generalize (tool.str "type").getD [] = toolType
    by_cases hcustom : toolType = "custom".toList
    · subst hcustom
      rfl
    rw [if_neg hcustom]
    by_cases hfunction : toolType = "function".toList
    · rw [if_pos hfunction, if_pos hfunction]
    rw [if_neg hfunction, if_neg hfunction]
    by_cases hnamespace : toolType = "namespace".toList
    · subst hnamespace
      unfold namespaceToolToChatTools
      cases (tool.get "tools").bind Value.asArray <;> rfl
    rw [if_neg hnamespace, if_neg hnamespace]
    simp only [hcustom, decide_false, Bool.false_or]
    cases isBuiltInType (some toolType) <;> rfl

/-- Puts a function under a name. A function of a namespace leaves the name to one outside of them. -/
def registerFunction (table : Table Text CodexFunctionToolSpec) (row : Text × CodexFunctionToolSpec) :
    Table Text CodexFunctionToolSpec :=
  if row.2.toolNamespace.isEmpty then table.insert row.1 row.2
  else if ((table.lookup row.1).map (·.toolNamespace.isEmpty)).getD false then table
  else table.insert row.1 row.2

theorem addNamespaceTool_eq (context : CodexToolContext) (child : Value) :
    addNamespaceTool toolNamespace context child =
      { context with
        functionTools := ((childName child).toList.map fun name =>
          (flattenNamespaceToolName toolNamespace name, ⟨toolNamespace, name⟩)).foldl registerFunction
            context.functionTools } := by
  unfold addNamespaceTool childName
  by_cases htype : child.str "type" = some "function".toList
  · rw [if_neg (not_not_intro htype), if_pos htype]
    cases child.nonEmptyStr "name" with
    | none => rfl
    | some name =>
      simp only [Option.toList_some, List.map_cons, List.map_nil, List.foldl_cons, List.foldl_nil, registerFunction]
      split
      · rfl
      split <;> rfl
  · rw [if_pos htype, if_neg htype]
    rfl

theorem foldl_addNamespaceTool (children : List Value) : ∀ context : CodexToolContext,
    children.foldl (addNamespaceTool toolNamespace) context =
      { context with
        functionTools := ((children.filterMap childName).map fun name =>
          (flattenNamespaceToolName toolNamespace name, ⟨toolNamespace, name⟩)).foldl registerFunction
            context.functionTools } := by
  induction children with
  | nil => exact fun _ => rfl
  | cons child children ih =>
    intro context
    rw [List.foldl_cons, ih, addNamespaceTool_eq]
    cases h : childName child with
    | none => simp only [List.filterMap_cons_none h, Option.toList_none, List.map_nil, List.foldl_nil]
    | some name =>
      simp only [List.filterMap_cons_some h, Option.toList_some, List.map_cons, List.map_nil, List.foldl_cons,
        List.foldl_nil]

theorem addCustomTool_customTools (context : CodexToolContext) (tool : Value) (name : Text) :
    (addCustomTool context tool name).customTools =
      ((name, (⟨name, detectCodexCustomToolKind tool name, none⟩ : CodexCustomToolSpec)) ::
        if detectCodexCustomToolKind tool name = .applyPatch then
          patchActions.map fun action => (patchProxyName name action, ⟨name, .applyPatch, some action⟩)
        else []).foldl (fun table row => table.insert row.1 row.2) context.customTools := by
  unfold addCustomTool
  generalize detectCodexCustomToolKind tool name = kind
  cases kind <;> rfl

theorem addCustomTool_functionTools (context : CodexToolContext) (tool : Value) (name : Text) :
    (addCustomTool context tool name).functionTools = context.functionTools := by
  unfold addCustomTool
  generalize detectCodexCustomToolKind tool name = kind
  cases kind <;> rfl

theorem addTool_customTools (context : CodexToolContext) (tool : Value) : (addTool context tool).customTools =
    (customRegistrations tool).foldl (fun table row => table.insert row.1 row.2) context.customTools := by
  rw [addTool_eq, customRegistrations]
  cases toolForm tool with
  | bare name => rfl
  | custom name =>
    cases name with
    | none => rfl
    | some name => exact addCustomTool_customTools context tool name
  | function => cases tool.nonEmptyStr "name" <;> rfl
  | nested toolNamespace children => simp only [foldl_addNamespaceTool, List.foldl_nil]
  | builtIn name => rfl
  | unknown => rfl

theorem addTool_functionTools (context : CodexToolContext) (tool : Value) : (addTool context tool).functionTools =
    (functionRegistrations tool).foldl registerFunction context.functionTools := by
  rw [addTool_eq, functionRegistrations]
  cases toolForm tool with
  | bare name => rfl
  | custom name =>
    cases name with
    | none => rfl
    | some name => exact addCustomTool_functionTools context tool name
  | function => cases tool.nonEmptyStr "name" <;> rfl
  | nested toolNamespace children => simp only [foldl_addNamespaceTool]
  | builtIn name => rfl
  | unknown => rfl

theorem foldl_addTool : ∀ context : CodexToolContext, tools.foldl addTool context =
    ⟨(tools.flatMap customRegistrations).foldl (fun table row => table.insert row.1 row.2) context.customTools,
      (tools.flatMap functionRegistrations).foldl registerFunction context.functionTools⟩ := by
  induction tools with
  | nil => exact fun _ => rfl
  | cons tool tools ih =>
    intro context
    rw [List.foldl_cons, ih, addTool_customTools, addTool_functionTools, List.flatMap_cons, List.flatMap_cons,
      List.foldl_append, List.foldl_append]

theorem lookup_customTools :
    (buildCodexToolContext (some (.array tools))).customTools.lookup name =
      Table.lastRow name (tools.flatMap customRegistrations) := by
  have hbuild : buildCodexToolContext (some (.array tools)) = tools.foldl addTool {} := rfl
  rw [hbuild, foldl_addTool, Table.lookup_foldl_insert_rows]
  exact Option.or_none

/-! ## The functions that are found -/

structure Registered (rows : List (Text × CodexFunctionToolSpec)) (table : Table Text CodexFunctionToolSpec) : Prop where
  plain : ∀ row ∈ rows, row.2.toolNamespace.isEmpty → table.lookup row.1 = some ⟨[], row.1⟩
  found : ∀ name spec, table.lookup name = some spec → (name, spec) ∈ rows
  all : ∀ row ∈ rows, table.lookup row.1 ≠ none

def PlainByName (row : Text × CodexFunctionToolSpec) : Prop := row.2.toolNamespace.isEmpty → row.2 = ⟨[], row.1⟩

theorem registered_insert {rows : List (Text × CodexFunctionToolSpec)} {table : Table Text CodexFunctionToolSpec}
    {row : Text × CodexFunctionToolSpec} (h : Registered rows table) (hrow : PlainByName row)
    (hfree : row.2.toolNamespace.isEmpty ∨ ((table.lookup row.1).map (·.toolNamespace.isEmpty)).getD false = false) :
    Registered (rows ++ [row]) (table.insert row.1 row.2) := by
  constructor
  case plain =>
    intro other hother hplain
    by_cases hname : other.1 = row.1
    · rw [hname, AList.lookup_insert, Option.some_inj]
      rcases hfree with hempty | hfree
      · exact hrow hempty
      · rcases List.mem_append.mp hother with hold | hnew
        · rw [← hname, h.plain other hold hplain] at hfree
          simp at hfree
        · rw [List.mem_singleton.mp hnew] at hplain
          exact hrow hplain
    · rw [AList.lookup_insert_ne hname]
      rcases List.mem_append.mp hother with hold | hnew
      · exact h.plain other hold hplain
      · exact absurd (congrArg Prod.fst (List.mem_singleton.mp hnew)) hname
  case found =>
    intro name spec hlookup
    rcases (Table.lookup_insert_iff spec).mp hlookup with ⟨rfl, rfl⟩ | ⟨-, hold⟩
    · exact List.mem_append_right _ (List.mem_singleton_self _)
    · exact List.mem_append_left _ (h.found name spec hold)
  case all =>
    intro other hother
    by_cases hname : other.1 = row.1
    · rw [hname, AList.lookup_insert]
      exact Option.some_ne_none _
    · rw [AList.lookup_insert_ne hname]
      rcases List.mem_append.mp hother with hold | hnew
      · exact h.all other hold
      · exact absurd (congrArg Prod.fst (List.mem_singleton.mp hnew)) hname

theorem registered_skip {rows : List (Text × CodexFunctionToolSpec)} {table : Table Text CodexFunctionToolSpec}
    {row : Text × CodexFunctionToolSpec} (h : Registered rows table) (hrow : row.2.toolNamespace.isEmpty = false)
    (hplain : ((table.lookup row.1).map (·.toolNamespace.isEmpty)).getD false = true) :
    Registered (rows ++ [row]) table := by
  constructor
  case plain =>
    intro other hother hempty
    rcases List.mem_append.mp hother with hold | hnew
    · exact h.plain other hold hempty
    · rw [List.mem_singleton.mp hnew, hrow] at hempty
      cases hempty
  case found => exact fun name spec hlookup => List.mem_append_left _ (h.found name spec hlookup)
  case all =>
    intro other hother
    rcases List.mem_append.mp hother with hold | hnew
    · exact h.all other hold
    · intro hnone
      rw [List.mem_singleton.mp hnew] at hnone
      simp [hnone] at hplain

theorem registered_foldl (rows : List (Text × CodexFunctionToolSpec)) (hrows : ∀ row ∈ rows, PlainByName row) :
    Registered rows (rows.foldl registerFunction ∅) := by
  induction rows using List.reverseRecOn with
  | nil => exact ⟨by simp, by simp, by simp⟩
  | append_singleton rows row ih =>
    have hold := ih fun other hother => hrows other (List.mem_append_left _ hother)
    have hrow := hrows row (List.mem_append_right _ (List.mem_singleton_self _))
    rw [List.foldl_append, List.foldl_cons, List.foldl_nil, registerFunction]
    split
    case isTrue hempty => exact registered_insert hold hrow (.inl hempty)
    case isFalse hempty =>
      split
      case isTrue htaken => exact registered_skip hold (by simpa using hempty) htaken
      case isFalse hfree => exact registered_insert hold hrow (.inr (by simpa using hfree))

theorem plainByName : ∀ row ∈ functionRegistrations tool, PlainByName row := by
  intro row hrow hempty
  unfold functionRegistrations at hrow
  cases hform : toolForm tool with
  | function =>
    rw [hform] at hrow
    obtain ⟨name, -, rfl⟩ := List.mem_map.mp hrow
    rfl
  | nested toolNamespace children =>
    rw [hform] at hrow
    obtain ⟨name, -, rfl⟩ := List.mem_map.mp hrow
    obtain rfl : toolNamespace = [] := List.isEmpty_iff.mp hempty
    rfl
  | bare | custom | builtIn | unknown =>
    rw [hform] at hrow
    cases hrow

theorem registered_functionTools : Registered (tools.flatMap functionRegistrations)
    (buildCodexToolContext (some (.array tools))).functionTools := by
  have hbuild : buildCodexToolContext (some (.array tools)) = tools.foldl addTool {} := rfl
  rw [hbuild, foldl_addTool]
  apply registered_foldl
  intro row hrow
  obtain ⟨tool, -, hrow⟩ := List.mem_flatMap.mp hrow
  exact plainByName tool row hrow

theorem mem_plainNames_iff : name ∈ plainNames tools ↔
    (((buildCodexToolContext (some (.array tools))).functionTools.lookup name).map (·.toolNamespace.isEmpty)).getD false =
      true := by
  have hregistered := registered_functionTools tools
  rw [plainNames, List.mem_map]
  constructor
  · rintro ⟨row, hrow, rfl⟩
    obtain ⟨hmem, hempty⟩ := List.mem_filter.mp hrow
    rw [hregistered.plain row hmem hempty]
    rfl
  · intro hempty
    cases hlookup : (buildCodexToolContext (some (.array tools))).functionTools.lookup name with
    | none =>
      rw [hlookup] at hempty
      cases hempty
    | some spec =>
      rw [hlookup] at hempty
      exact ⟨(name, spec), List.mem_filter.mpr ⟨hregistered.found name spec hlookup, hempty⟩, rfl⟩

/-! ## The names wanted are the names offered -/

variable {context : CodexToolContext} {plain : List Text}

/-- A list of names tells which functions of a table stand outside of namespaces. -/
def CodexToolContext.PlainAt (context : CodexToolContext) (plain : List Text) : Prop :=
  ∀ name, name ∈ plain ↔ ((context.functionTools.lookup name).map (·.toolNamespace.isEmpty)).getD false = true

def offeredName (offer : Value × Declaration) : Option (Text × Declaration) := (chatToolName offer.1).map (·, offer.2)

theorem toolForm_spec :
    match toolForm tool with
    | .custom name => name = tool.nonEmptyStr "name"
    | .function => tool.str "type" = some "function".toList
    | .builtIn name => name = (tool.nonEmptyStr "name").getD ((tool.str "type").getD [])
    | _ => True := by
  unfold toolForm
  cases tool.asStr.filter (!·.isEmpty) with
  | some name => trivial
  | none =>
    simp only
    by_cases hcustom : (tool.str "type").getD [] = "custom".toList
    · rw [if_pos hcustom]
    rw [if_neg hcustom]
    by_cases hfunction : (tool.str "type").getD [] = "function".toList
    · rw [if_pos hfunction]
      cases htype : tool.str "type" with
      | none =>
        rw [htype] at hfunction
        exact absurd hfunction (by decide)
      | some toolType =>
        rw [htype] at hfunction
        exact congrArg some hfunction
    rw [if_neg hfunction]
    by_cases hnamespace : (tool.str "type").getD [] = "namespace".toList
    · rw [if_pos hnamespace]
      trivial
    rw [if_neg hnamespace]
    cases isBuiltInType (some ((tool.str "type").getD []))
    case false => trivial
    case true => rfl

/-- A function of a namespace is offered under its flattened name, unless a function outside of namespaces has it. -/
theorem offeredName_namespaceChild (h : context.PlainAt plain) (toolNamespace description : Text) (child : Value) :
    (((namespaceChildToChatTool toolNamespace description context child).map fun chatTool =>
      (chatTool, (⟨.function, toolNamespace, (child.nonEmptyStr "name").getD []⟩ : Declaration))).bind offeredName) =
      ((childName child).filter fun name =>
        toolNamespace.isEmpty || flattenNamespaceToolName toolNamespace name ∉ plain).map fun name =>
          (flattenNamespaceToolName toolNamespace name, ⟨.function, toolNamespace, name⟩) := by
  unfold namespaceChildToChatTool childName
  by_cases htype : child.str "type" = some "function".toList
  · rw [if_neg (not_not_intro htype), if_pos htype]
    cases child.nonEmptyStr "name" with
    | none => rfl
    | some name =>
      simp only [Option.getD_some]
      have hplain := h (flattenNamespaceToolName toolNamespace name)
      by_cases hmem : flattenNamespaceToolName toolNamespace name ∈ plain
      · rw [hplain.mp hmem, Option.filter_some]
        cases toolNamespace.isEmpty with
        | true =>
          rw [if_neg (by decide), if_pos (by rfl)]
          rfl
        | false =>
          rw [if_pos (by rfl), if_neg (by simp [hmem])]
          rfl
      · rw [Bool.eq_false_iff.mpr (mt hplain.mpr hmem), Bool.and_false, if_neg Bool.false_ne_true, Option.filter_some,
          if_pos (by simp [hmem])]
        rfl
  · rw [if_pos htype, if_neg htype]
    rfl

theorem filterMap_offeredName_alone (declaration : Declaration) (chatTools : List Value) :
    (chatTools.map fun chatTool => (chatTool, declaration)).filterMap offeredName =
      (chatTools.filterMap chatToolName).map (·, declaration) := by
  rw [List.filterMap_map, List.map_filterMap]
  rfl

theorem names_customToolToChatTools (toolType : Text) :
    (customToolToChatTools tool toolType).filterMap chatToolName =
      customNames tool ((tool.nonEmptyStr "name").getD toolType) := by
  unfold customToolToChatTools customNames
  simp only
  split
  · exact chatToolName_applyPatchProxyTools _ _
  · rfl

theorem names_responsesFunctionToolToChatTool (htype : tool.str "type" = some "function".toList) :
    (responsesFunctionToolToChatTool tool).toList.filterMap chatToolName = (functionName tool).toList := by
  unfold responsesFunctionToolToChatTool functionName
  rw [if_neg (not_not_intro htype)]
  cases hfunction : tool.get "function" with
  | none => rfl
  | some function =>
    rw [Option.isSome_some, if_pos rfl, Option.toList_some, List.filterMap_cons, List.filterMap_nil, chatToolName_nestedFunctionTool,
      chatToolName, hfunction, Option.bind_some]
    simp only
    cases function.str "name" <;> rfl

theorem filterMap_offeredName (h : context.PlainAt plain) (tool : Value) :
    (offers context tool).filterMap offeredName = wantedNames plain tool := by
  have hspec := toolForm_spec tool
  have htools := responsesToolToChatTools_eq context tool
  unfold offers wantedNames
  cases hform : toolForm tool with
  | nested toolNamespace children =>
    simp only [List.filterMap_filterMap, List.filter_filterMap, List.map_filterMap, offeredName_namespaceChild h]
  | bare name =>
    rw [hform] at htools
    simp only [htools, filterMap_offeredName_alone]
    rfl
  | custom name =>
    rw [hform] at htools hspec
    simp only [htools, filterMap_offeredName_alone, names_customToolToChatTools, hspec]
  | builtIn name =>
    rw [hform] at htools hspec
    simp only [htools, filterMap_offeredName_alone, names_customToolToChatTools, hspec]
  | function =>
    rw [hform] at htools hspec
    simp only [htools, filterMap_offeredName_alone, names_responsesFunctionToolToChatTool tool hspec]
  | unknown =>
    rw [hform] at htools
    simp only [htools, filterMap_offeredName_alone]
    rfl

theorem offers_chatTools (context : CodexToolContext) (tool : Value) :
    (offers context tool).map (·.1) = responsesToolToChatTools context tool := by
  have htools := responsesToolToChatTools_eq context tool
  unfold offers
  cases hform : toolForm tool with
  | nested toolNamespace children =>
    rw [hform] at htools
    rw [htools, List.map_filterMap]
    apply List.filterMap_congr
    intro child _
    rw [Option.map_map]
    exact Option.map_id'
  | bare | custom | builtIn | function | unknown =>
    simp only [List.map_map, Function.comp_def, List.map_id']

theorem plainAt_build :
    (buildCodexToolContext (some (.array tools))).PlainAt (plainNames tools) := mem_plainNames_iff tools

theorem chatToolNames :
    (responsesToolsToChatTools tools (buildCodexToolContext (some (.array tools)))).filterMap chatToolName =
      (wanted tools).map (·.1) := by
  rw [responsesToolsToChatTools, wanted, List.filterMap_flatMap, List.map_flatMap]
  congr 1
  funext tool
  rw [← offers_chatTools, ← filterMap_offeredName (plainAt_build tools), List.filterMap_map, List.map_filterMap]
  congr 1
  funext offer
  simp only [offeredName, Function.comp_apply, Option.map_map, Function.comp_def, Option.map_id']

theorem mem_wanted_iff (declaration : Declaration) :
    (name, declaration) ∈ wanted tools ↔ ∃ tool ∈ tools,
      ∃ offer ∈ offers (buildCodexToolContext (some (.array tools))) tool,
        chatToolName offer.1 = some name ∧ offer.2 = declaration := by
  simp only [wanted, List.mem_flatMap, ← filterMap_offeredName (plainAt_build tools), List.mem_filterMap, offeredName,
    Option.map_eq_some_iff, Prod.mk.injEq]
  constructor
  · rintro ⟨tool, htool, offer, hoffer, name, hname, rfl, rfl⟩
    exact ⟨tool, htool, offer, hoffer, hname, rfl⟩
  · rintro ⟨tool, htool, offer, hoffer, hname, rfl⟩
    exact ⟨tool, htool, offer, hoffer, name, hname, rfl, rfl⟩

/-! ## What the declarations of wanted names are -/

theorem childName_ne_nil {child : Value} {name : Text} (h : childName child = some name) : name ≠ [] := by
  unfold childName at h
  split at h
  · rw [Value.nonEmptyStr, Option.filter_eq_some_iff] at h
    rintro rfl
    simp at h
  · cases h

/-- A custom tool has no namespace. A function outside of namespaces wants its own name, and one of a namespace wants
the name that it registers. -/
theorem wantedNames_cases {tool : Value} {name : Text} {declaration : Declaration}
    (h : (name, declaration) ∈ wantedNames plain tool) :
    (declaration.kind = .custom ∧ declaration.toolNamespace = []) ∨ declaration = ⟨.function, [], name⟩ ∨
      (declaration.kind = .function ∧ name ∉ plain ∧
        (name, ⟨declaration.toolNamespace, declaration.name⟩) ∈ functionRegistrations tool) := by
  unfold wantedNames at h
  unfold functionRegistrations
  cases hform : toolForm tool with
  | nested toolNamespace children =>
    rw [hform] at h
    obtain ⟨child, hchild, hpair⟩ := List.mem_map.mp h
    obtain ⟨rfl, rfl⟩ := Prod.mk.inj hpair
    obtain ⟨hmem, hfree⟩ := List.mem_filter.mp hchild
    right
    rcases Bool.or_eq_true_iff.mp hfree with hempty | hfree
    · obtain rfl : toolNamespace = [] := List.isEmpty_iff.mp hempty
      exact .inl rfl
    · exact .inr ⟨rfl, of_decide_eq_true hfree, List.mem_map.mpr ⟨child, hmem, rfl⟩⟩
  | function =>
    rw [hform] at h
    obtain ⟨own, hown, hpair⟩ := List.mem_map.mp h
    obtain ⟨rfl, rfl⟩ := Prod.mk.inj hpair
    rw [Option.mem_toList] at hown
    simp only [declaredAlone, hform, hown, Option.getD_some, true_or, or_true]
  | bare own =>
    rw [hform] at h
    obtain ⟨-, rfl⟩ := Prod.mk.inj (List.mem_singleton.mp h)
    simp only [declaredAlone, hform, and_self, true_or]
  | custom own =>
    rw [hform] at h
    obtain ⟨wanted, -, hpair⟩ := List.mem_map.mp h
    obtain ⟨-, rfl⟩ := Prod.mk.inj hpair
    simp only [declaredAlone, hform, and_self, true_or]
  | builtIn own =>
    rw [hform] at h
    obtain ⟨wanted, -, hpair⟩ := List.mem_map.mp h
    obtain ⟨-, rfl⟩ := Prod.mk.inj hpair
    simp only [declaredAlone, hform, and_self, true_or]
  | unknown =>
    rw [hform] at h
    cases h

theorem wanted_of_registered {tool : Value} {name : Text} {spec : CodexFunctionToolSpec}
    (h : (name, spec) ∈ functionRegistrations tool) (hspec : spec.toolNamespace.isEmpty = false) (hfree : name ∉ plain) :
    spec.name ≠ [] ∧ (name, ⟨.function, spec.toolNamespace, spec.name⟩) ∈ wantedNames plain tool := by
  unfold functionRegistrations at h
  unfold wantedNames
  cases hform : toolForm tool with
  | nested toolNamespace children =>
    rw [hform] at h
    obtain ⟨child, hchild, hpair⟩ := List.mem_map.mp h
    obtain ⟨rfl, rfl⟩ := Prod.mk.inj hpair
    constructor
    · obtain ⟨value, -, hvalue⟩ := List.mem_filterMap.mp hchild
      exact childName_ne_nil hvalue
    · apply List.mem_map.mpr
      refine ⟨child, List.mem_filter.mpr ⟨hchild, ?_⟩, rfl⟩
      exact Bool.or_eq_true_iff.mpr (.inr (decide_eq_true hfree))
  | function =>
    rw [hform] at h
    obtain ⟨own, -, hpair⟩ := List.mem_map.mp h
    obtain ⟨-, rfl⟩ := Prod.mk.inj hpair
    cases hspec
  | bare | custom | builtIn | unknown =>
    rw [hform] at h
    cases h

/-! ## Calls of the names -/

section Calls

variable [SerdeJson]

theorem calledBy_iff (context : CodexToolContext) (callId name arguments : Text) (declaration : Declaration) :
    declaration.CalledBy (responseToolCallItem context callId name arguments) ↔
      match context.customTools.lookup name with
      | some spec => declaration = ⟨.custom, [], spec.openaiName⟩
      | none => declaration = ⟨.function, (context.openaiNameForFunctionTool name).2,
          (context.openaiNameForFunctionTool name).1⟩ := by
  unfold responseToolCallItem CodexToolContext.isCustomToolProxy CodexToolContext.originalCustomToolName
  cases hcustom : context.customTools.lookup name with
  | some spec => rfl
  | none => rfl

omit [SerdeJson] in
theorem openaiName_of_wanted {tools : List Value} (hdistinct : ((wanted tools).map (·.1)).Nodup) {name : Text}
    {declaration : Declaration} (h : (name, declaration) ∈ wanted tools) (hkind : declaration.kind = .function) :
    declaration = ⟨.function,
      ((buildCodexToolContext (some (.array tools))).openaiNameForFunctionTool name).2,
      ((buildCodexToolContext (some (.array tools))).openaiNameForFunctionTool name).1⟩ := by
  have hregistered := registered_functionTools tools
  obtain ⟨tool, htool, hwanted⟩ := List.mem_flatMap.mp h
  have hcases := wantedNames_cases hwanted
  unfold CodexToolContext.openaiNameForFunctionTool
  cases hlookup : (buildCodexToolContext (some (.array tools))).functionTools.lookup name with
  | none =>
    rcases hcases with ⟨hcustom, -⟩ | hown | ⟨-, -, hrow⟩
    · cases hcustom.symm.trans hkind
    · exact hown
    · exact absurd hlookup (hregistered.all _ (List.mem_flatMap.mpr ⟨tool, htool, hrow⟩))
  | some spec =>
    have hrow := hregistered.found name spec hlookup
    have hplain := mem_plainNames_iff tools name
    rw [hlookup, Option.map_some, Option.getD_some] at hplain
    cases hempty : spec.toolNamespace.isEmpty with
    | true =>
      rw [hempty] at hplain
      obtain rfl : spec = ⟨[], name⟩ := by
        rw [hregistered.plain (name, spec) hrow hempty] at hlookup
        exact (Option.some.inj hlookup).symm
      rcases hcases with ⟨hcustom, -⟩ | hown | ⟨-, hfree, -⟩
      · cases hcustom.symm.trans hkind
      · rw [hown]
        cases name <;> rfl
      · exact absurd (hplain.mpr rfl) hfree
    | false =>
      rw [hempty] at hplain
      have hfree : name ∉ plainNames tools := fun hmem => Bool.false_ne_true (hplain.mp hmem)
      obtain ⟨other, hother, hregistration⟩ := List.mem_flatMap.mp hrow
      obtain ⟨hname, hmem⟩ := wanted_of_registered hregistration hempty hfree
      have hsame := List.inj_on_of_nodup_map hdistinct h (List.mem_flatMap.mpr ⟨other, hother, hmem⟩) rfl
      rw [(Prod.mk.inj hsame).2]
      have hnonempty : spec.name.isEmpty = false := Bool.eq_false_iff.mpr (mt List.isEmpty_iff.mp hname)
      simp only [hnonempty, Bool.false_eq_true, if_false]

/-- The offered names are pairwise different and every call of one comes back as a call of the declared tool, just when
no two tools want one name and no name is registered for another custom tool. -/
theorem namedFaithfully_iff (tools : List Value) : NamedFaithfully tools ↔ NamesApart tools := by
  constructor
  · intro h
    have hback : ∀ name declaration, (name, declaration) ∈ wanted tools → declaration.CalledBy
        (responseToolCallItem (buildCodexToolContext (some (.array tools))) [] name []) := by
      intro name declaration hmem
      obtain ⟨tool, htool, offer, hoffer, hname, rfl⟩ := (mem_wanted_iff tools name declaration).mp hmem
      exact h.back tool htool offer hoffer name hname [] []
    constructor
    case distinct => exact chatToolNames tools ▸ h.distinct
    case custom =>
      intro name declaration hmem hkind
      have hcalled := (calledBy_iff _ _ _ _ _).mp (hback name declaration hmem)
      rw [lookup_customTools] at hcalled
      cases hlast : Table.lastRow name (tools.flatMap customRegistrations) with
      | none =>
        rw [hlast] at hcalled
        rw [hcalled] at hkind
        cases hkind
      | some spec =>
        rw [hlast] at hcalled
        rw [hcalled]
        rfl
    case function =>
      intro name declaration hmem hkind hcustom
      have hcalled := (calledBy_iff _ _ _ _ _).mp (hback name declaration hmem)
      obtain ⟨spec, hlast⟩ := Option.isSome_iff_exists.mp (Table.lastRow_isSome_iff.mpr hcustom)
      rw [lookup_customTools, hlast] at hcalled
      rw [hcalled] at hkind
      cases hkind
  · intro h
    constructor
    case distinct => exact (chatToolNames tools).symm ▸ h.distinct
    case back =>
      intro tool htool offer hoffer name hname callId arguments
      have hmem := (mem_wanted_iff tools name offer.2).mpr ⟨tool, htool, offer, hoffer, hname, rfl⟩
      rw [calledBy_iff, lookup_customTools]
      cases hkind : offer.2.kind with
      | custom =>
        obtain ⟨spec, hlast, hspec⟩ := Option.map_eq_some_iff.mp (h.custom name offer.2 hmem hkind)
        have hnamespace : offer.2.toolNamespace = [] := by
          obtain ⟨other, -, hwanted⟩ := List.mem_flatMap.mp hmem
          rcases wantedNames_cases hwanted with ⟨-, hempty⟩ | hown | ⟨hfunction, -⟩
          · exact hempty
          · rw [hown]
          · cases hfunction.symm.trans hkind
        have hdeclared : offer.2 = ⟨.custom, [], spec.openaiName⟩ := by rw [hspec, ← hkind, ← hnamespace]
        rw [hlast]
        exact hdeclared
      | function =>
        have hfree := mt Table.lastRow_isSome_iff.mp (h.function name offer.2 hmem hkind)
        rw [Option.not_isSome_iff_eq_none.mp hfree]
        exact openaiName_of_wanted h.distinct hmem hkind

end Calls

def space (toolNamespace name : String) : Value :=
  .object [("type", .ofStr "namespace"), ("name", .ofStr toolNamespace),
    ("tools", .array [.object [("type", .ofStr "function"), ("name", .ofStr name)]])]

/-- Function `b__c` of namespace `a` and function `c` of namespace `a__b`. -/
def twinSpaces : List Value := [space "a" "b__c", space "a__b" "c"]

/-- Two functions of different namespaces are offered under one name. -/
theorem twinSpaces_collide : (twinSpaces.flatMap declarations).Nodup ∧
    ∀ json : SerdeJson, ¬ @NamedFaithfully json twinSpaces := by
  constructor
  · decide +kernel
  · intro json h
    have hnodup := (chatToolNames twinSpaces) ▸ h.distinct
    revert hnodup
    decide +kernel

end Lumio.Proxy
