import Lumio.Lib.Lines
import Lumio.Proxy.Tools

/-!
# Patches of the patch tool

`parseApplyPatchOperations` goes through the lines of a patch once and collects the operation of every section. Its
buffers are flushed at the first line of the next section, so what a section leaves there shows up in a later one.
-/

namespace Lumio.Proxy

/-! ## The parser -/

/-- `Map::insert`, which keeps the place of a key that is there. -/
def insertMember (members : List (String × Value)) (key : String) (value : Value) : List (String × Value) :=
  if members.any (·.1 = key) then members.map fun member => if member.1 = key then (key, value) else member
  else members ++ [(key, value)]

structure PatchParser where
  operations : List Value := []
  current : Option (List (String × Value)) := none
  contentLines : List Text := []
  hunks : List Value := []
  currentHunk : Option (List (String × Value)) := none
  hunkLines : List Value := []

def hunkLine (rawLine : Text) : Value :=
  match rawLine with
  | '+' :: text => line "add" text
  | '-' :: text => line "remove" text
  | ' ' :: text => line "context" text
  | _ => line "context" rawLine
where
  line (op : String) (text : Text) : Value := .object [("op", .ofStr op), ("text", .string text)]

namespace PatchParser

def flushHunk (parser : PatchParser) : PatchParser :=
  match parser.currentHunk with
  | none => parser
  | some hunk =>
    { parser with
      currentHunk := none
      hunkLines := []
      hunks := parser.hunks ++ [Value.object (insertMember hunk "lines" (.array parser.hunkLines))] }

def flushOperation (parser : PatchParser) : PatchParser :=
  match parser.current with
  | none => parser
  | some operation =>
    let opType := ((Value.object operation).str "type").getD []
    let flushed := { parser with current := none, contentLines := [] }
    if opType = "add_file".toList ∨ opType = "replace_file".toList then
      let content := Value.string (Text.join ['\n'] parser.contentLines)
      { flushed with operations := parser.operations ++ [Value.object (insertMember operation "content" content)] }
    else if opType = "update_file".toList then
      { flushed with
        hunks := []
        operations := parser.operations ++ [Value.object (insertMember operation "hunks" (.array parser.hunks))] }
    else { flushed with operations := parser.operations ++ [Value.object operation] }

def flush (parser : PatchParser) : PatchParser := parser.flushHunk.flushOperation

def startOperation (parser : PatchParser) (opType : String) (path : Text) : PatchParser :=
  { parser.flush with current := some [("type", .ofStr opType), ("path", .string path)] }

/-- A line that is no marker is content of the current operation. -/
def readContent (parser : PatchParser) (rawLine : Text) : PatchParser :=
  match parser.current with
  | none => parser
  | some operation =>
    let opType := ((Value.object operation).str "type").getD []
    if opType = "add_file".toList ∨ opType = "replace_file".toList then
      match Text.stripPrefix ['+'] rawLine with
      | some line => { parser with contentLines := parser.contentLines ++ [line] }
      | none => parser
    else if opType = "update_file".toList then
      { parser with hunkLines := parser.hunkLines ++ [hunkLine rawLine] }
    else parser

def readLine (parser : PatchParser) (rawLine : Text) : PatchParser :=
  if rawLine = "*** Begin Patch".toList ∨ rawLine = "*** End Patch".toList then parser
  else
    match Text.stripPrefix "*** Add File: ".toList rawLine with
    | some path => parser.startOperation "add_file" path
    | none =>
      match Text.stripPrefix "*** Delete File: ".toList rawLine with
      | some path => parser.startOperation "delete_file" path
      | none =>
        match Text.stripPrefix "*** Update File: ".toList rawLine with
        | some path => parser.startOperation "update_file" path
        | none =>
          match Text.stripPrefix "*** Move to: ".toList rawLine with
          | some path =>
            { parser with current := parser.current.map (insertMember · "move_to" (.string path)) }
          | none =>
            if "@@".toList.isPrefixOf rawLine then
              { parser.flushHunk with
                currentHunk := some [("context", .string (Text.trim (rawLine.drop 2)))] }
            else parser.readContent rawLine

end PatchParser

def parseApplyPatchOperations (input : Text) : List Value :=
  ((Text.lines input).foldl PatchParser.readLine {}).flush.operations

/-! ## The grammar of a patch -/

inductive LineOp where
  | add
  | remove
  | context
deriving DecidableEq

def LineOp.name : LineOp → String
  | add => "add"
  | remove => "remove"
  | context => "context"

def LineOp.mark : LineOp → Char
  | add => '+'
  | remove => '-'
  | context => ' '

structure HunkLine where
  op : LineOp
  text : Text
deriving DecidableEq

def HunkLine.raw (line : HunkLine) : Text := line.op.mark :: line.text

def HunkLine.toValue (line : HunkLine) : Value :=
  .object [("op", .ofStr line.op.name), ("text", .string line.text)]

/-- The lines of a hunk, and whether the marker of the end of the file stands after them. -/
structure HunkBody where
  lines : List HunkLine
  endOfFile : Bool := false
deriving DecidableEq

def endOfFileMarker : Text := "*** End of File".toList

namespace HunkBody

def raw (body : HunkBody) : List Text :=
  body.lines.map HunkLine.raw ++ if body.endOfFile then [endOfFileMarker] else []

def taken (body : HunkBody) : List HunkLine :=
  body.lines ++ if body.endOfFile then [⟨.context, endOfFileMarker⟩] else []

end HunkBody

structure Hunk where
  context : Text
  body : HunkBody
deriving DecidableEq

def hunkHeader (context : Text) : Text :=
  if context.isEmpty then "@@".toList else "@@ ".toList ++ context

def Hunk.raw (hunk : Hunk) : List Text := hunkHeader hunk.context :: hunk.body.raw

/-- A section of a patch. The lines of `opening` stand before the header of the first hunk, and the file is not moved
if `moveTo` is empty. -/
inductive PatchSection where
  | add (path : Text) (lines : List Text)
  | delete (path : Text)
  | update (path moveTo : Text) (opening : HunkBody) (hunks : List Hunk)
deriving DecidableEq

def moveToLine (moveTo : Text) : List Text :=
  if moveTo.isEmpty then [] else ["*** Move to: ".toList ++ moveTo]

def PatchSection.raw : PatchSection → List Text
  | add path lines => ("*** Add File: ".toList ++ path) :: lines.map ('+' :: ·)
  | delete path => ["*** Delete File: ".toList ++ path]
  | update path moveTo opening hunks =>
    ("*** Update File: ".toList ++ path) :: (moveToLine moveTo ++ opening.raw ++ hunks.flatMap Hunk.raw)

def patchLines (sections : List PatchSection) : List Text :=
  "*** Begin Patch".toList :: sections.flatMap PatchSection.raw ++ ["*** End Patch".toList]

/-! ## What the parser makes of a section -/

structure OperationHunk where
  context : Text
  lines : List HunkLine
deriving DecidableEq

/-- An operation as the parser returns it. A file that stays where it is has an empty `moveTo`. -/
inductive PatchOperation where
  | addFile (path content : Text)
  | deleteFile (path : Text)
  | updateFile (path moveTo : Text) (hunks : List OperationHunk)
deriving DecidableEq

def hunkValue (context : Text) (lines : List Value) : Value :=
  .object [("context", .string context), ("lines", .array lines)]

def OperationHunk.toValue (hunk : OperationHunk) : Value := hunkValue hunk.context (hunk.lines.map HunkLine.toValue)

def operationMembers (opType : String) (path : Text) (members : List (String × Value)) : Value :=
  .object (("type", .ofStr opType) :: ("path", .string path) :: members)

def moveToMember (moveTo : Text) : List (String × Value) :=
  if moveTo.isEmpty then [] else [("move_to", .string moveTo)]

def PatchOperation.toValue : PatchOperation → Value
  | addFile path content => operationMembers "add_file" path [("content", .string content)]
  | deleteFile path => operationMembers "delete_file" path []
  | updateFile path moveTo hunks =>
    operationMembers "update_file" path
      (moveToMember moveTo ++ [("hunks", .array (hunks.map OperationHunk.toValue))])

def Hunk.parsed (hunk : Hunk) : OperationHunk := ⟨Text.trim hunk.context, hunk.body.taken⟩

def hunksAfter (waiting : List HunkLine) : List Hunk → List OperationHunk
  | [] => []
  | hunk :: hunks => ⟨Text.trim hunk.context, waiting ++ hunk.body.taken⟩ :: hunks.map Hunk.parsed

/-- The operation of a section, with the hunk lines that earlier sections left behind. -/
def PatchSection.operation (waiting : List HunkLine) : PatchSection → PatchOperation
  | add path lines => .addFile path (Text.join ['\n'] lines)
  | delete path => .deleteFile path
  | update path moveTo opening hunks => .updateFile path moveTo (hunksAfter (waiting ++ opening.taken) hunks)

def PatchSection.leaves (waiting : List HunkLine) : PatchSection → List HunkLine
  | update _ _ opening [] => waiting ++ opening.taken
  | update _ _ _ (_ :: _) => []
  | _ => waiting

def operationsOf (waiting : List HunkLine) : List PatchSection → List PatchOperation
  | [] => []
  | patchSection :: sections =>
    patchSection.operation waiting :: operationsOf (patchSection.leaves waiting) sections

namespace PatchParser

def resting (operations : List Value) (waiting : List HunkLine) : PatchParser :=
  { operations := operations, hunkLines := waiting.map HunkLine.toValue }

variable {parser : PatchParser} {operations : List Value} {waiting : List HunkLine}

theorem readLine_begin : parser.readLine "*** Begin Patch".toList = parser := if_pos (.inl rfl)

theorem readLine_end : parser.readLine "*** End Patch".toList = parser := if_pos (.inr rfl)

variable (path : Text) (context : Text)

theorem readLine_add :
    parser.readLine ("*** Add File: ".toList ++ path) = parser.startOperation "add_file" path := by
  simp [readLine, Text.stripPrefix]

theorem readLine_delete :
    parser.readLine ("*** Delete File: ".toList ++ path) = parser.startOperation "delete_file" path := by
  simp [readLine, Text.stripPrefix]

theorem readLine_update :
    parser.readLine ("*** Update File: ".toList ++ path) = parser.startOperation "update_file" path := by
  simp [readLine, Text.stripPrefix]

theorem readLine_moveTo :
    parser.readLine ("*** Move to: ".toList ++ path) =
      { parser with current := parser.current.map (insertMember · "move_to" (.string path)) } := by
  simp [readLine, Text.stripPrefix]

theorem readLine_mark (line : HunkLine) : parser.readLine line.raw = parser.readContent line.raw := by
  obtain ⟨op, text⟩ := line
  cases op <;> simp [readLine, Text.stripPrefix, HunkLine.raw, LineOp.mark]

theorem readLine_endOfFile : parser.readLine endOfFileMarker = parser.readContent endOfFileMarker := by
  have hmarker : ¬(endOfFileMarker = "*** Begin Patch".toList ∨ endOfFileMarker = "*** End Patch".toList) := by
    decide
  have hadd : Text.stripPrefix "*** Add File: ".toList endOfFileMarker = none := by decide
  have hdelete : Text.stripPrefix "*** Delete File: ".toList endOfFileMarker = none := by decide
  have hupdate : Text.stripPrefix "*** Update File: ".toList endOfFileMarker = none := by decide
  have hmove : Text.stripPrefix "*** Move to: ".toList endOfFileMarker = none := by decide
  have hheader : ¬"@@".toList.isPrefixOf endOfFileMarker = true := by decide
  rw [readLine, if_neg hmarker, hadd, hdelete, hupdate, hmove]
  exact if_neg hheader

theorem flush_startOperation (h : parser.flush = resting operations waiting) (opType : String) (path : Text) :
    parser.startOperation opType path =
      { operations := operations, hunkLines := waiting.map HunkLine.toValue
        current := some [("type", .ofStr opType), ("path", .string path)] } := by
  rw [startOperation, h]
  rfl

/-! ### Added lines -/

variable {members : List (String × Value)} {hunks hunkLines : List Value} {currentHunk : Option (List (String × Value))}
  {contentLines : List Text}

theorem readLine_added (line : Text) :
    readLine
        { operations := operations, hunkLines := hunkLines, contentLines := contentLines
          current := some (("type", .ofStr "add_file") :: members) } ('+' :: line) =
      { operations := operations, hunkLines := hunkLines, contentLines := contentLines ++ [line]
        current := some (("type", .ofStr "add_file") :: members) } := by
  change readLine _ (HunkLine.raw ⟨.add, line⟩) = _
  rw [readLine_mark, HunkLine.raw, LineOp.mark]
  simp [readContent, Text.stripPrefix, Value.str, Value.get, Value.ofStr, Value.asStr]

theorem readLines_added (lines : List Text) :
    (lines.map ('+' :: ·)).foldl readLine
        { operations := operations, hunkLines := hunkLines, contentLines := contentLines
          current := some (("type", .ofStr "add_file") :: members) } =
      { operations := operations, hunkLines := hunkLines, contentLines := contentLines ++ lines
        current := some (("type", .ofStr "add_file") :: members) } := by
  induction lines generalizing contentLines with
  | nil => simp
  | cons line lines ih => rw [List.map_cons, List.foldl_cons, readLine_added, ih, List.append_assoc]; rfl

/-! ### Hunks -/

def updating (operations : List Value) (members : List (String × Value)) (hunks : List Value)
    (currentHunk : Option (List (String × Value))) (hunkLines : List Value) : PatchParser :=
  { operations, hunks, currentHunk, hunkLines, current := some (("type", .ofStr "update_file") :: members) }

theorem readContent_updating (rawLine : Text) :
    (updating operations members hunks currentHunk hunkLines).readContent rawLine =
      updating operations members hunks currentHunk (hunkLines ++ [hunkLine rawLine]) := by
  simp [readContent, updating, Value.str, Value.get, Value.ofStr, Value.asStr]

theorem hunkLine_raw (line : HunkLine) : hunkLine line.raw = line.toValue := by
  obtain ⟨op, text⟩ := line
  cases op <;> rfl

theorem hunkLine_endOfFile : hunkLine endOfFileMarker = HunkLine.toValue ⟨.context, endOfFileMarker⟩ := by
  obtain ⟨rest, hrest⟩ : ∃ rest, endOfFileMarker = '*' :: rest := ⟨"** End of File".toList, by decide⟩
  rw [hrest]
  rfl

theorem readLines_marked (lines : List HunkLine) :
    (lines.map HunkLine.raw).foldl readLine (updating operations members hunks currentHunk hunkLines) =
      updating operations members hunks currentHunk (hunkLines ++ lines.map HunkLine.toValue) := by
  induction lines generalizing hunkLines with
  | nil => simp
  | cons line lines ih =>
    rw [List.map_cons, List.foldl_cons, readLine_mark, readContent_updating, ih, hunkLine_raw]
    simp

theorem readLines_body (body : HunkBody) :
    body.raw.foldl readLine (updating operations members hunks currentHunk hunkLines) =
      updating operations members hunks currentHunk (hunkLines ++ body.taken.map HunkLine.toValue) := by
  rw [HunkBody.raw, HunkBody.taken, List.foldl_append, readLines_marked]
  cases body.endOfFile with
  | false => simp
  | true =>
    simp only [if_true, List.foldl_cons, List.foldl_nil, List.map_append, List.map_cons, List.map_nil]
    rw [readLine_endOfFile, readContent_updating, hunkLine_endOfFile, List.append_assoc]

theorem trim_space (text : Text) : Text.trim (' ' :: text) = Text.trim text := by
  simp [Text.trim, Text.trimStart, Text.isWhitespace]

theorem readLine_at (parser : PatchParser) (rest : Text) :
    parser.readLine ("@@".toList ++ rest) =
      { parser.flushHunk with currentHunk := some [("context", .string (Text.trim rest))] } := by
  simp [readLine, Text.stripPrefix]

theorem readLine_header (parser : PatchParser) (context : Text) :
    parser.readLine (hunkHeader context) =
      { parser.flushHunk with currentHunk := some [("context", .string (Text.trim context))] } := by
  cases context with
  | nil => simpa [hunkHeader] using readLine_at parser []
  | cons c context => simpa [hunkHeader, trim_space] using readLine_at parser (' ' :: c :: context)

theorem flushHunk_updating :
    (updating operations members hunks (some [("context", .string context)]) hunkLines).flushHunk =
      updating operations members (hunks ++ [hunkValue context hunkLines]) none [] := rfl

theorem readLine_firstHeader :
    (updating operations members hunks none hunkLines).readLine (hunkHeader context) =
      updating operations members hunks (some [("context", .string (Text.trim context))]) hunkLines :=
  readLine_header _ context

theorem readLine_nextHeader (last context : Text) :
    (updating operations members hunks (some [("context", .string last)]) hunkLines).readLine (hunkHeader context) =
      updating operations members (hunks ++ [hunkValue last hunkLines])
        (some [("context", .string (Text.trim context))]) [] :=
  readLine_header _ context

theorem readLines_hunks (later : List Hunk) (context : Text) :
    ((later.flatMap Hunk.raw).foldl readLine
        (updating operations members hunks (some [("context", .string context)]) hunkLines)).flushHunk =
      updating operations members
        (hunks ++ hunkValue context hunkLines :: (later.map Hunk.parsed).map OperationHunk.toValue) none [] := by
  induction later generalizing hunks context hunkLines with
  | nil => exact flushHunk_updating context
  | cons hunk later ih =>
    rw [List.flatMap_cons, List.foldl_append, Hunk.raw, List.foldl_cons, readLine_nextHeader, readLines_body, ih]
    simp [Hunk.parsed, OperationHunk.toValue]

theorem readLines_allHunks (opening : List HunkLine) (all : List Hunk) :
    ((all.flatMap Hunk.raw).foldl readLine
        (updating operations members [] none (opening.map HunkLine.toValue))).flushHunk =
      updating operations members ((hunksAfter opening all).map OperationHunk.toValue) none
        ((if all.isEmpty then opening else []).map HunkLine.toValue) := by
  cases all with
  | nil => rfl
  | cons hunk later =>
    rw [List.flatMap_cons, List.foldl_append, Hunk.raw, List.foldl_cons, readLine_firstHeader, readLines_body,
      readLines_hunks, ← List.map_append]
    rfl

theorem readLines_moveTo (moveTo : Text) :
    (moveToLine moveTo).foldl readLine (updating operations [("path", .string path)] [] none hunkLines) =
      updating operations (("path", .string path) :: moveToMember moveTo) [] none hunkLines := by
  cases moveTo with
  | nil => rfl
  | cons c moveTo =>
    simp only [moveToLine, moveToMember, List.isEmpty_cons, Bool.false_eq_true, if_false, List.foldl_cons,
      List.foldl_nil]
    rw [readLine_moveTo]
    rfl

/-! ### Sections -/

theorem flush_raw (h : parser.flush = resting operations waiting) (patchSection : PatchSection) :
    (patchSection.raw.foldl readLine parser).flush =
      resting (operations ++ [(patchSection.operation waiting).toValue]) (patchSection.leaves waiting) := by
  cases patchSection with
  | add path lines =>
    rw [PatchSection.raw, List.foldl_cons, readLine_add, flush_startOperation h, readLines_added]
    rfl
  | delete path =>
    rw [PatchSection.raw, List.foldl_cons, readLine_delete, flush_startOperation h]
    rfl
  | update path moveTo opening hunks =>
    have hstart : parser.startOperation "update_file" path =
        updating operations [("path", .string path)] [] none (waiting.map HunkLine.toValue) :=
      flush_startOperation h _ _
    rw [PatchSection.raw, List.foldl_cons, readLine_update, hstart, List.foldl_append, List.foldl_append,
      readLines_moveTo, readLines_body, ← List.map_append, flush, readLines_allHunks]
    cases moveTo <;> cases hunks <;> rfl

theorem flush_sections (h : parser.flush = resting operations waiting) (sections : List PatchSection) :
    ((sections.flatMap PatchSection.raw).foldl readLine parser).flush.operations =
      operations ++ (operationsOf waiting sections).map PatchOperation.toValue := by
  induction sections generalizing parser operations waiting with
  | nil => simp [operationsOf, h, resting]
  | cons patchSection sections ih =>
    rw [List.flatMap_cons, List.foldl_append, ih (flush_raw h patchSection), operationsOf, List.map_cons,
      List.append_assoc]
    rfl

end PatchParser

variable {sections : List PatchSection}

theorem parseApplyPatchOperations_eq {input : Text} (h : Text.lines input = patchLines sections) :
    parseApplyPatchOperations input = (operationsOf [] sections).map PatchOperation.toValue := by
  rw [parseApplyPatchOperations, h, patchLines, List.cons_append, List.foldl_cons, PatchParser.readLine_begin,
    List.foldl_append, List.foldl_cons, PatchParser.readLine_end, List.foldl_nil]
  have hstart : PatchParser.flush {} = PatchParser.resting [] [] := rfl
  exact PatchParser.flush_sections hstart sections

/-! ## Operations and their text -/

def OperationHunk.toHunk (hunk : OperationHunk) : Hunk := ⟨hunk.context, { lines := hunk.lines }⟩

def PatchOperation.toSection : PatchOperation → PatchSection
  | addFile path content => .add path (Text.lines content)
  | deleteFile path => .delete path
  | updateFile path moveTo hunks => .update path moveTo { lines := [] } (hunks.map OperationHunk.toHunk)

/-- The text of lines, each after a line feed. -/
def onNewLines (lines : List Text) : Text := lines.flatMap ('\n' :: ·)

@[simp] theorem onNewLines_cons (line : Text) (lines : List Text) :
    onNewLines (line :: lines) = '\n' :: (line ++ onNewLines lines) := rfl

@[simp] theorem onNewLines_append (first second : List Text) :
    onNewLines (first ++ second) = onNewLines first ++ onNewLines second := List.flatMap_append

theorem patchLine_toValue (line : HunkLine) : patchLine line.toValue = '\n' :: line.raw := by
  obtain ⟨op, text⟩ := line
  cases op <;>
    simp [patchLine, HunkLine.toValue, HunkLine.raw, LineOp.mark, LineOp.name, lineOpPrefix, Value.str, Value.get,
      Value.ofStr, Value.asStr]

theorem patchLines_toValue (lines : List HunkLine) :
    (lines.map HunkLine.toValue).flatMap patchLine = onNewLines (lines.map HunkLine.raw) := by
  induction lines with
  | nil => rfl
  | cons line lines ih => simp [patchLine_toValue, ih]

theorem patchHunk_hunkValue (context : Text) (lines : List HunkLine) :
    patchHunk (hunkValue context (lines.map HunkLine.toValue)) =
      onNewLines (hunkHeader context :: lines.map HunkLine.raw) := by
  have hcontext : (hunkValue context (lines.map HunkLine.toValue)).str "context" = some context := rfl
  have hlines : ((hunkValue context (lines.map HunkLine.toValue)).get "lines").bind Value.asArray =
      some (lines.map HunkLine.toValue) := rfl
  rw [patchHunk, hcontext, hlines, Option.getD_some, Option.getD_some, patchLines_toValue, onNewLines_cons]
  cases context <;> simp [hunkHeader]

theorem patchHunks_toValue (hunks : List OperationHunk) :
    (hunks.map OperationHunk.toValue).flatMap patchHunk =
      onNewLines ((hunks.map OperationHunk.toHunk).flatMap Hunk.raw) := by
  induction hunks with
  | nil => rfl
  | cons hunk hunks ih =>
    have hraw : hunk.toHunk.raw = hunkHeader hunk.context :: hunk.lines.map HunkLine.raw := by
      simp [Hunk.raw, OperationHunk.toHunk, HunkBody.raw]
    rw [List.map_cons, List.flatMap_cons, ih, List.map_cons, List.flatMap_cons, onNewLines_append, hraw,
      OperationHunk.toValue, patchHunk_hunkValue]

section Printing

variable {operation : Value} {path : Text} (hpath : operation.str "path" = some path)

include hpath

theorem patchOperation_add {content : Text} (htype : operation.str "type" = some "add_file".toList)
    (hcontent : operation.str "content" = some content) :
    patchOperation operation = onNewLines (PatchSection.add path (Text.lines content)).raw := by
  have hadded : addedLines operation = onNewLines ((Text.lines content).map ('+' :: ·)) := by
    rw [addedLines, hcontent, Option.getD_some, onNewLines, List.flatMap_map]
  rw [patchOperation, htype, hpath, hadded, PatchSection.raw]
  simp

theorem patchOperation_delete (htype : operation.str "type" = some "delete_file".toList) :
    patchOperation operation = onNewLines (PatchSection.delete path).raw := by
  rw [patchOperation, htype, hpath, PatchSection.raw]
  simp [onNewLines]

theorem patchOperation_update {moveTo : Text} {hunks : List OperationHunk}
    (htype : operation.str "type" = some "update_file".toList)
    (hmove : operation.nonEmptyStr "move_to" = if moveTo.isEmpty then none else some moveTo)
    (hhunks : (operation.get "hunks").bind Value.asArray = some (hunks.map OperationHunk.toValue)) :
    patchOperation operation =
      onNewLines (PatchSection.update path moveTo { lines := [] } (hunks.map OperationHunk.toHunk)).raw := by
  rw [patchOperation, htype, hpath, hmove, hhunks, Option.getD_some, Option.getD_some, Option.getD_some,
    patchHunks_toValue, PatchSection.raw]
  cases moveTo <;> simp [moveToLine, HunkBody.raw, onNewLines]

end Printing

theorem patchOperation_toValue (operation : PatchOperation) :
    patchOperation operation.toValue = onNewLines operation.toSection.raw := by
  cases operation with
  | addFile path content => exact patchOperation_add rfl rfl rfl
  | deleteFile path => exact patchOperation_delete rfl rfl
  | updateFile path moveTo hunks =>
    cases moveTo with
    | nil => exact patchOperation_update rfl rfl rfl rfl
    | cons c moveTo => exact patchOperation_update rfl rfl rfl rfl

theorem buildApplyPatchText_eq {operations : List Value}
    (h : operations.flatMap patchOperation = onNewLines (sections.flatMap PatchSection.raw)) :
    buildApplyPatchText operations =
      "*** Begin Patch".toList ++ onNewLines (sections.flatMap PatchSection.raw ++ ["*** End Patch".toList]) := by
  have hend : onNewLines ["*** End Patch".toList] = "\n*** End Patch".toList := by decide
  unfold buildApplyPatchText
  rw [h, onNewLines_append, hend]
  exact List.append_assoc _ _ _

theorem buildApplyPatchText_toValue (operations : List PatchOperation) :
    buildApplyPatchText (operations.map PatchOperation.toValue) =
      "*** Begin Patch".toList ++
        onNewLines ((operations.map PatchOperation.toSection).flatMap PatchSection.raw ++ ["*** End Patch".toList]) := by
  refine buildApplyPatchText_eq ?_
  induction operations with
  | nil => rfl
  | cons operation operations ih => simp [patchOperation_toValue, ih]

/-! ## Sections of plain lines -/

def HunkBody.Plain (body : HunkBody) : Prop := ∀ line ∈ body.lines, Text.IsLine line.text

def PatchSection.Plain : PatchSection → Prop
  | add path lines => Text.IsLine path ∧ ∀ line ∈ lines, Text.IsLine line
  | delete path => Text.IsLine path
  | update path moveTo opening hunks =>
    Text.IsLine path ∧ Text.IsLine moveTo ∧ opening.Plain ∧
      ∀ hunk ∈ hunks, Text.IsLine hunk.context ∧ hunk.body.Plain

theorem HunkBody.Plain.isLine {body : HunkBody} (h : body.Plain) : ∀ line ∈ body.raw, Text.IsLine line := by
  intro line hline
  rcases List.mem_append.mp hline with hchange | hmarker
  · obtain ⟨change, hmem, rfl⟩ := List.mem_map.mp hchange
    have hmark : Text.IsLine [change.op.mark] := by cases change.op <;> decide
    exact Text.isLine_append hmark (h change hmem)
  · cases hend : body.endOfFile with
    | false => simp [hend] at hmarker
    | true =>
      obtain rfl : line = endOfFileMarker := by simpa [hend] using hmarker
      decide

theorem isLine_hunkHeader {context : Text} (h : Text.IsLine context) : Text.IsLine (hunkHeader context) := by
  cases context with
  | nil => exact (by decide : Text.IsLine "@@".toList)
  | cons c context => exact Text.isLine_append (by decide : Text.IsLine "@@ ".toList) h

theorem PatchSection.Plain.isLine {patchSection : PatchSection} (h : patchSection.Plain) :
    ∀ line ∈ patchSection.raw, Text.IsLine line := by
  intro line hline
  cases patchSection with
  | add path lines =>
    rcases List.mem_cons.mp hline with rfl | hadded
    · exact Text.isLine_append (by decide) h.1
    · obtain ⟨content, hmem, rfl⟩ := List.mem_map.mp hadded
      exact Text.isLine_append (by decide : Text.IsLine ['+']) (h.2 content hmem)
  | delete path =>
    obtain rfl := List.mem_singleton.mp hline
    exact Text.isLine_append (by decide) h
  | update path moveTo opening hunks =>
    obtain ⟨hpath, hmove, hopening, hhunks⟩ := h
    rcases List.mem_cons.mp hline with rfl | hrest
    · exact Text.isLine_append (by decide) hpath
    · rcases List.mem_append.mp hrest with hstart | hhunk
      · rcases List.mem_append.mp hstart with hmoved | hopened
        · cases moveTo with
          | nil => simp [moveToLine] at hmoved
          | cons c moveTo =>
            obtain rfl := List.mem_singleton.mp hmoved
            exact Text.isLine_append (by decide) hmove
        · exact hopening.isLine line hopened
      · obtain ⟨hunk, hmem, hraw⟩ := List.mem_flatMap.mp hhunk
        rcases List.mem_cons.mp hraw with rfl | hbody
        · exact isLine_hunkHeader (hhunks hunk hmem).1
        · exact (hhunks hunk hmem).2.isLine line hbody

theorem lines_patchText (h : ∀ patchSection ∈ sections, patchSection.Plain) :
    Text.lines ("*** Begin Patch".toList ++ onNewLines (sections.flatMap PatchSection.raw ++ ["*** End Patch".toList])) =
      patchLines sections := by
  have hbegin : Text.IsLine "*** Begin Patch".toList := by decide
  have hrest : ∀ line ∈ sections.flatMap PatchSection.raw ++ ["*** End Patch".toList], Text.IsLine line := by
    intro line hline
    rcases List.mem_append.mp hline with hsection | hend
    · obtain ⟨patchSection, hmem, hraw⟩ := List.mem_flatMap.mp hsection
      exact (h patchSection hmem).isLine line hraw
    · obtain rfl := List.mem_singleton.mp hend
      decide
  refine Text.lines_flatMap hbegin hrest ?_
  rw [← List.cons_append, List.getLast?_concat]
  decide

/-! ## The text of operations is read back -/

def JoinsLines (content : Text) : Prop :=
  ∃ lines : List Text, (∀ line ∈ lines, Text.IsLine line) ∧ lines.getLast? ≠ some [] ∧ content = Text.join ['\n'] lines

def OperationHunk.Plain (hunk : OperationHunk) : Prop :=
  Text.trim hunk.context = hunk.context ∧ Text.IsLine hunk.context ∧ ∀ line ∈ hunk.lines, Text.IsLine line.text

def PatchOperation.Plain : PatchOperation → Prop
  | addFile path content => Text.IsLine path ∧ JoinsLines content
  | deleteFile path => Text.IsLine path
  | updateFile path moveTo hunks => Text.IsLine path ∧ Text.IsLine moveTo ∧ ∀ hunk ∈ hunks, hunk.Plain

theorem PatchOperation.Plain.toSection {operation : PatchOperation} (h : operation.Plain) :
    operation.toSection.Plain := by
  cases operation with
  | addFile path content =>
    obtain ⟨hpath, lines, hlines, hlast, rfl⟩ := h
    refine ⟨hpath, ?_⟩
    rw [Text.lines_join hlines hlast]
    exact hlines
  | deleteFile path => exact h
  | updateFile path moveTo hunks =>
    obtain ⟨hpath, hmove, hhunks⟩ := h
    refine ⟨hpath, hmove, fun line hline => absurd hline (by simp), fun hunk hhunk => ?_⟩
    obtain ⟨operationHunk, hmem, rfl⟩ := List.mem_map.mp hhunk
    obtain ⟨-, hcontext, hlines⟩ := hhunks operationHunk hmem
    exact ⟨hcontext, hlines⟩

theorem parsed_toHunk {hunk : OperationHunk} (h : hunk.Plain) : hunk.toHunk.parsed = hunk := by
  simp [Hunk.parsed, OperationHunk.toHunk, HunkBody.taken, h.1]

theorem hunksAfter_nil (hunks : List Hunk) : hunksAfter [] hunks = hunks.map Hunk.parsed := by cases hunks <;> rfl

theorem operation_toSection {operation : PatchOperation} (h : operation.Plain) :
    operation.toSection.operation [] = operation ∧ operation.toSection.leaves [] = [] := by
  cases operation with
  | addFile path content =>
    obtain ⟨-, lines, hlines, hlast, rfl⟩ := h
    refine ⟨?_, rfl⟩
    rw [PatchOperation.toSection, Text.lines_join hlines hlast]
    rfl
  | deleteFile path => exact ⟨rfl, rfl⟩
  | updateFile path moveTo hunks =>
    have hhunks : (hunks.map OperationHunk.toHunk).map Hunk.parsed = hunks := by
      rw [List.map_map]
      exact (List.map_congr_left fun hunk hmem => parsed_toHunk (h.2.2 hunk hmem)).trans hunks.map_id
    refine ⟨?_, by cases hunks <;> rfl⟩
    simp only [PatchOperation.toSection, PatchSection.operation, HunkBody.taken]
    rw [List.nil_append, List.nil_append, if_neg Bool.false_ne_true, hunksAfter_nil, hhunks]

theorem operationsOf_toSection {operations : List PatchOperation} (h : ∀ operation ∈ operations, operation.Plain) :
    operationsOf [] (operations.map PatchOperation.toSection) = operations := by
  induction operations with
  | nil => rfl
  | cons operation operations ih =>
    obtain ⟨hoperation, hleaves⟩ := operation_toSection (h operation List.mem_cons_self)
    rw [List.map_cons, operationsOf, hoperation, hleaves, ih fun other hmem => h other (List.mem_cons_of_mem _ hmem)]

/-- Parsing the text of operations gives the operations. -/
theorem parseApplyPatchOperations_build (operations : List PatchOperation)
    (h : ∀ operation ∈ operations, operation.Plain) :
    parseApplyPatchOperations (buildApplyPatchText (operations.map PatchOperation.toValue)) =
      operations.map PatchOperation.toValue := by
  have hplain : ∀ patchSection ∈ operations.map PatchOperation.toSection, patchSection.Plain := by
    intro patchSection hmem
    obtain ⟨operation, hoperation, rfl⟩ := List.mem_map.mp hmem
    exact (h operation hoperation).toSection
  rw [buildApplyPatchText_toValue, parseApplyPatchOperations_eq (lines_patchText hplain), operationsOf_toSection h]

def markerOperations : List PatchOperation :=
  [.addFile "*** End Patch".toList "*** Begin Patch\n\n@@ a".toList, .deleteFile " @@".toList,
    .updateFile "a".toList "*** Move to: b".toList
      [⟨[], [⟨.add, "*** Add File: c".toList⟩, ⟨.context, []⟩]⟩, ⟨"@@ d".toList, [⟨.remove, "*** End Patch".toList⟩]⟩]]

theorem parseApplyPatchOperations_build_markers :
    parseApplyPatchOperations (buildApplyPatchText (markerOperations.map PatchOperation.toValue)) =
      markerOperations.map PatchOperation.toValue := by
  refine parseApplyPatchOperations_build markerOperations fun operation hmem => ?_
  have hcontent : JoinsLines "*** Begin Patch\n\n@@ a".toList :=
    ⟨["*** Begin Patch".toList, [], "@@ a".toList], by decide, by decide, by decide⟩
  have hupdate : ∀ hunk ∈ [OperationHunk.mk [] [⟨.add, "*** Add File: c".toList⟩, ⟨.context, []⟩],
      ⟨"@@ d".toList, [⟨.remove, "*** End Patch".toList⟩]⟩], hunk.Plain := by
    unfold OperationHunk.Plain
    decide
  simp only [markerOperations, List.mem_cons, List.not_mem_nil, or_false] at hmem
  rcases hmem with rfl | rfl | rfl
  · exact ⟨by decide, hcontent⟩
  · exact (by decide : Text.IsLine " @@".toList)
  · exact ⟨by decide, by decide, hupdate⟩

end Lumio.Proxy
