import Lumio.Proxy.Patch

/-!
# The patch tool in the history

A call of the patch tool is sent upstream as a call of one of its proxies. What the client gets back is put together
from the arguments of that call: a patch of one section from the operation parsed out of it, any other from its text.
-/

namespace Lumio.Proxy

def singleApplyPatchAction (opType : Text) : Option CodexPatchProxyAction :=
  if opType = "add_file".toList then some .addFile
  else if opType = "delete_file".toList then some .deleteFile
  else if opType = "update_file".toList then some .updateFile
  else if opType = "replace_file".toList then some .replaceFile
  else none

def buildApplyPatchOperationArguments (operation : Value) (action : CodexPatchProxyAction) : Value :=
  let text (key : String) : String × Value := (key, .string ((operation.str key).getD []))
  match action with
  | .addFile | .replaceFile => .object [text "content", text "path"]
  | .deleteFile => .object [text "path"]
  | .updateFile =>
    .object ([("hunks", (operation.get "hunks").getD (.array [])), text "path"] ++
      ((operation.nonEmptyStr "move_to").map fun moveTo => [("move_to", .string moveTo)]).getD [])
  | .batch => .object [("operations", .array [operation])]

def customToolCall (name input : Text) : Text × Value :=
  if name = "apply_patch".toList ∨ "*** Begin Patch".toList.isPrefixOf input then
    match parseApplyPatchOperations input with
    | [operation] =>
      let action := ((operation.str "type").bind singleApplyPatchAction).getD .batch
      (name ++ '_' :: action.suffix, buildApplyPatchOperationArguments operation action)
    | operations =>
      (name ++ "_batch".toList, .object [("operations", .array operations), ("raw_patch", .string input)])
  else (name, .object [("input", .string input)])

section Json

variable [SerdeJson]

def buildCustomToolCallHistory (name : Text) (input : Value) : Text × Text :=
  let call := customToolCall name (responseOutputText input)
  (call.1, SerdeJson.toText call.2)

/-- The input the client gets for a call of the history: that of the action in the name of the proxied call. -/
def throughHistory (name input : Text) : Text :=
  let call := buildCustomToolCallHistory name (.string input)
  reconstructApplyPatchInput (proxyActionFromUpstreamName call.1) call.2

end Json

variable (name : Text) (path : Text) (context : Text) (operation : PatchOperation)

theorem isSuffixOf_append {pattern ending : Text} (h : pattern <:+ ending ∨ ending <:+ pattern → pattern = ending) :
    pattern.isSuffixOf (name ++ ending) = decide (pattern = ending) := by
  rw [Bool.eq_iff_iff, List.isSuffixOf_iff_suffix, decide_eq_true_eq]
  constructor
  · intro hsuffix
    exact h (List.suffix_or_suffix_of_suffix hsuffix (List.suffix_append name ending))
  · rintro rfl
    exact List.suffix_append name pattern

theorem proxyActionFromUpstreamName_suffix (action : CodexPatchProxyAction) :
    proxyActionFromUpstreamName (name ++ '_' :: action.suffix) = some action := by
  rw [proxyActionFromUpstreamName]
  cases action <;>
    rw [isSuffixOf_append name (by decide), isSuffixOf_append name (by decide),
      isSuffixOf_append name (by decide), isSuffixOf_append name (by decide),
      isSuffixOf_append name (by decide)] <;>
    decide

/-! ## The sections of a text -/

/-- What a section says: the line that opens it, where the file moves, and the hunks by what stands at their header.
Lines without a header are a hunk with nothing at it. -/
structure SectionOutline where
  title : Text
  moves : List Text
  hunks : List (Text × List Text)
deriving DecidableEq

def isSectionTitle (line : Text) : Bool :=
  "*** Add File: ".toList.isPrefixOf line || "*** Delete File: ".toList.isPrefixOf line ||
    "*** Update File: ".toList.isPrefixOf line

def isMoveTo (line : Text) : Bool := "*** Move to: ".toList.isPrefixOf line

def isHunkHeader (line : Text) : Bool := "@@".toList.isPrefixOf line

def isPatchMarker (line : Text) : Bool := line = "*** Begin Patch".toList || line = "*** End Patch".toList

def openingHunk (lines : List Text) : List (Text × List Text) := if lines.isEmpty then [] else [([], lines)]

def sectionOutline (title : Text) (body : List Text) : SectionOutline :=
  let groups := (body.filter (!isMoveTo ·)).underHeadings isHunkHeader
  { title := title
    moves := body.filter isMoveTo
    hunks := openingHunk groups.1 ++ groups.2.map fun (header, lines) => (Text.trim (header.drop 2), lines) }

def patchOutline (text : Text) : List SectionOutline :=
  (((Text.lines text).filter (!isPatchMarker ·)).underHeadings isSectionTitle).2.map fun (title, body) =>
    sectionOutline title body

/-! ### Kinds of lines -/

theorem mark_kind (line : HunkLine) :
    isSectionTitle line.raw = false ∧ isPatchMarker line.raw = false ∧ isMoveTo line.raw = false ∧
      isHunkHeader line.raw = false := by
  obtain ⟨op, text⟩ := line
  cases op <;> simp [isSectionTitle, isPatchMarker, isMoveTo, isHunkHeader, HunkLine.raw, LineOp.mark, List.isPrefixOf]

theorem endOfFile_kind :
    isSectionTitle endOfFileMarker = false ∧ isPatchMarker endOfFileMarker = false ∧ isMoveTo endOfFileMarker = false ∧
      isHunkHeader endOfFileMarker = false := by decide

theorem moveTo_kind :
    isSectionTitle ("*** Move to: ".toList ++ path) = false ∧ isPatchMarker ("*** Move to: ".toList ++ path) = false ∧
      isMoveTo ("*** Move to: ".toList ++ path) = true := by
  simp [isSectionTitle, isPatchMarker, isMoveTo, List.isPrefixOf]

theorem header_eq : ∃ rest, hunkHeader context = '@' :: '@' :: rest ∧ Text.trim rest = Text.trim context := by
  cases context with
  | nil => exact ⟨[], by decide, rfl⟩
  | cons c context => exact ⟨' ' :: c :: context, by simp [hunkHeader], PatchParser.trim_space _⟩

theorem header_kind :
    isSectionTitle (hunkHeader context) = false ∧ isPatchMarker (hunkHeader context) = false ∧
      isMoveTo (hunkHeader context) = false ∧ isHunkHeader (hunkHeader context) = true := by
  obtain ⟨rest, hrest, -⟩ := header_eq context
  rw [hrest]
  simp [isSectionTitle, isPatchMarker, isMoveTo, isHunkHeader, List.isPrefixOf]

theorem trim_header : Text.trim ((hunkHeader context).drop 2) = Text.trim context := by
  obtain ⟨rest, hrest, htrim⟩ := header_eq context
  rw [hrest]
  exact htrim

theorem add_kind :
    isSectionTitle ("*** Add File: ".toList ++ path) = true ∧ isPatchMarker ("*** Add File: ".toList ++ path) = false := by
  simp [isSectionTitle, isPatchMarker]

theorem delete_kind :
    isSectionTitle ("*** Delete File: ".toList ++ path) = true ∧
      isPatchMarker ("*** Delete File: ".toList ++ path) = false := by
  simp [isSectionTitle, isPatchMarker]

theorem update_kind :
    isSectionTitle ("*** Update File: ".toList ++ path) = true ∧
      isPatchMarker ("*** Update File: ".toList ++ path) = false := by
  simp [isSectionTitle, isPatchMarker]

def addTitle (path : Text) : Text := "*** Add File: ".toList ++ path

def deleteTitle (path : Text) : Text := "*** Delete File: ".toList ++ path

def updateTitle (path : Text) : Text := "*** Update File: ".toList ++ path

namespace PatchSection

def title : PatchSection → Text
  | add path _ => addTitle path
  | delete path => deleteTitle path
  | update path _ _ _ => updateTitle path

def body : PatchSection → List Text
  | add _ lines => lines.map ('+' :: ·)
  | delete _ => []
  | update _ moveTo opening hunks => moveToLine moveTo ++ opening.raw ++ hunks.flatMap Hunk.raw

def outline (patchSection : PatchSection) : SectionOutline :=
  match patchSection with
  | add _ lines => ⟨patchSection.title, [], openingHunk (lines.map ('+' :: ·))⟩
  | delete _ => ⟨patchSection.title, [], []⟩
  | update _ moveTo opening hunks =>
    ⟨patchSection.title, moveToLine moveTo,
      openingHunk opening.raw ++ hunks.map fun hunk => (Text.trim hunk.context, hunk.body.raw)⟩

theorem raw_eq (patchSection : PatchSection) : patchSection.raw = patchSection.title :: patchSection.body := by
  cases patchSection <;> rfl

theorem title_kind (patchSection : PatchSection) :
    isSectionTitle patchSection.title = true ∧ isPatchMarker patchSection.title = false := by
  cases patchSection with
  | add path lines => exact add_kind path
  | delete path => exact delete_kind path
  | update path moveTo opening hunks => exact update_kind path

end PatchSection

section Bodies

variable {p : Text → Prop} (hmark : ∀ line : HunkLine, p line.raw) (hend : p endOfFileMarker)

include hmark hend

theorem HunkBody.forall_raw (body : HunkBody) : ∀ line ∈ body.raw, p line := by
  intro line hline
  rcases List.mem_append.mp hline with hchange | hmarker
  · obtain ⟨change, -, rfl⟩ := List.mem_map.mp hchange
    exact hmark change
  · cases hbody : body.endOfFile with
    | false => simp [hbody] at hmarker
    | true =>
      obtain rfl : line = endOfFileMarker := by simpa [hbody] using hmarker
      exact hend

theorem PatchSection.forall_body (hmove : ∀ path, p ("*** Move to: ".toList ++ path)) (hheader : ∀ context, p (hunkHeader context))
    (patchSection : PatchSection) : ∀ line ∈ patchSection.body, p line := by
  intro line hline
  cases patchSection with
  | add path lines =>
    obtain ⟨text, -, rfl⟩ := List.mem_map.mp hline
    exact hmark ⟨.add, text⟩
  | delete path => exact absurd hline (by simp [body])
  | update path moveTo opening hunks =>
    rcases List.mem_append.mp hline with hstart | hhunk
    · rcases List.mem_append.mp hstart with hmoved | hopened
      · cases moveTo with
        | nil => simp [moveToLine] at hmoved
        | cons c moveTo =>
          obtain rfl := List.mem_singleton.mp hmoved
          exact hmove (c :: moveTo)
      · exact opening.forall_raw hmark hend line hopened
    · obtain ⟨hunk, -, hraw⟩ := List.mem_flatMap.mp hhunk
      rcases List.mem_cons.mp hraw with rfl | hbody
      · exact hheader hunk.context
      · exact hunk.body.forall_raw hmark hend line hbody

end Bodies

theorem HunkBody.raw_kind (body : HunkBody) :
    ∀ line ∈ body.raw, isMoveTo line = false ∧ isHunkHeader line = false :=
  body.forall_raw (fun line => (mark_kind line).2.2) endOfFile_kind.2.2

theorem PatchSection.body_kind (patchSection : PatchSection) :
    ∀ line ∈ patchSection.body, isSectionTitle line = false ∧ isPatchMarker line = false :=
  patchSection.forall_body (fun line => ⟨(mark_kind line).1, (mark_kind line).2.1⟩)
    ⟨endOfFile_kind.1, endOfFile_kind.2.1⟩ (fun path => ⟨(moveTo_kind path).1, (moveTo_kind path).2.1⟩)
    (fun context => ⟨(header_kind context).1, (header_kind context).2.1⟩)

/-! ### Outlines of sections -/

theorem underHeadings_hunks (opening : List Text) (hunks : List Hunk) (hopening : ∀ line ∈ opening, isHunkHeader line = false) :
    (opening ++ hunks.flatMap Hunk.raw).underHeadings isHunkHeader =
      (opening, hunks.map fun hunk => (hunkHeader hunk.context, hunk.body.raw)) := by
  have hlayout : hunks.flatMap Hunk.raw =
      (hunks.map fun hunk => (hunkHeader hunk.context, hunk.body.raw)).flatMap fun group => group.1 :: group.2 := by
    rw [List.flatMap_map]
    rfl
  rw [hlayout]
  refine List.underHeadings_layout hopening ?_ ?_
  · intro group hgroup
    obtain ⟨hunk, -, rfl⟩ := List.mem_map.mp hgroup
    exact (header_kind hunk.context).2.2.2
  · intro group hgroup line hline
    obtain ⟨hunk, -, rfl⟩ := List.mem_map.mp hgroup
    exact (hunk.body.raw_kind line hline).2

theorem sectionOutline_eq (patchSection : PatchSection) :
    sectionOutline patchSection.title patchSection.body = patchSection.outline := by
  cases patchSection with
  | add path lines =>
    have hmoves : ∀ line ∈ lines.map ('+' :: ·), isMoveTo line = false ∧ isHunkHeader line = false := by
      intro line hline
      obtain ⟨text, -, rfl⟩ := List.mem_map.mp hline
      exact (mark_kind ⟨.add, text⟩).2.2
    have hgroups := underHeadings_hunks (lines.map ('+' :: ·)) [] fun line hline => (hmoves line hline).2
    have hkeeps : (lines.map ('+' :: ·)).filter (!isMoveTo ·) = lines.map ('+' :: ·) :=
      List.filter_eq_self.mpr fun line hline => by simp [(hmoves line hline).1]
    have hnone : (lines.map ('+' :: ·)).filter isMoveTo = [] :=
      List.filter_eq_nil_iff.mpr fun line hline => by simp [(hmoves line hline).1]
    rw [List.flatMap_nil, List.append_nil] at hgroups
    simp [sectionOutline, PatchSection.body, PatchSection.outline, hkeeps, hnone, hgroups]
  | delete path => rfl
  | update path moveTo opening hunks =>
    have hmoves : ∀ line ∈ moveToLine moveTo, isMoveTo line = true := by
      intro line hline
      cases moveTo with
      | nil => simp [moveToLine] at hline
      | cons c moveTo =>
        obtain rfl := List.mem_singleton.mp hline
        exact (moveTo_kind (c :: moveTo)).2.2
    have hrest : ∀ line ∈ opening.raw ++ hunks.flatMap Hunk.raw, isMoveTo line = false := by
      intro line hline
      rcases List.mem_append.mp hline with hopened | hhunk
      · exact (opening.raw_kind line hopened).1
      · obtain ⟨hunk, -, hraw⟩ := List.mem_flatMap.mp hhunk
        rcases List.mem_cons.mp hraw with rfl | hbody
        · exact (header_kind hunk.context).2.2.1
        · exact (hunk.body.raw_kind line hbody).1
    have hmoved : (moveToLine moveTo ++ (opening.raw ++ hunks.flatMap Hunk.raw)).filter isMoveTo = moveToLine moveTo := by
      rw [List.filter_append, List.filter_eq_self.mpr hmoves,
        List.filter_eq_nil_iff.mpr fun line hline => by simp [hrest line hline], List.append_nil]
    have hkept : (moveToLine moveTo ++ (opening.raw ++ hunks.flatMap Hunk.raw)).filter (!isMoveTo ·) =
        opening.raw ++ hunks.flatMap Hunk.raw := by
      rw [List.filter_append, List.filter_eq_nil_iff.mpr fun line hline => by simp [hmoves line hline],
        List.filter_eq_self.mpr fun line hline => by simp [hrest line hline], List.nil_append]
    have hgroups := underHeadings_hunks opening.raw hunks fun line hline => (opening.raw_kind line hline).2
    simp only [sectionOutline, PatchSection.body, PatchSection.outline, List.append_assoc, hmoved, hkept, hgroups,
      List.map_map]
    congr 2
    exact List.map_congr_left fun hunk _ => by simp [trim_header]

theorem patchOutline_eq {input : Text} {sections : List PatchSection} (h : Text.lines input = patchLines sections) :
    patchOutline input = sections.map PatchSection.outline := by
  have hbegin : isPatchMarker "*** Begin Patch".toList = true := by decide
  have hend : isPatchMarker "*** End Patch".toList = true := by decide
  have hkept : (sections.flatMap PatchSection.raw).filter (!isPatchMarker ·) = sections.flatMap PatchSection.raw := by
    refine List.filter_eq_self.mpr fun line hline => ?_
    obtain ⟨patchSection, -, hraw⟩ := List.mem_flatMap.mp hline
    rw [patchSection.raw_eq] at hraw
    rcases List.mem_cons.mp hraw with rfl | hbody
    · simp [patchSection.title_kind.2]
    · simp [(patchSection.body_kind line hbody).2]
  have hlines : (patchLines sections).filter (!isPatchMarker ·) = sections.flatMap PatchSection.raw := by
    unfold patchLines
    rw [List.cons_append, List.filter_cons_of_neg (by rw [hbegin]; decide), List.filter_append, hkept,
      List.filter_cons_of_neg (by rw [hend]; decide), List.filter_nil, List.append_nil]
  have hlayout : sections.flatMap PatchSection.raw =
      (sections.map fun patchSection => (patchSection.title, patchSection.body)).flatMap fun group =>
        group.1 :: group.2 := by
    rw [List.flatMap_map]
    exact List.flatMap_congr fun patchSection _ => patchSection.raw_eq
  have hgroups : (sections.flatMap PatchSection.raw).underHeadings isSectionTitle =
      ([], sections.map fun patchSection => (patchSection.title, patchSection.body)) := by
    rw [hlayout]
    refine List.underHeadings_flatMap ?_ ?_
    · intro group hgroup
      obtain ⟨patchSection, -, rfl⟩ := List.mem_map.mp hgroup
      exact patchSection.title_kind.1
    · intro group hgroup line hline
      obtain ⟨patchSection, -, rfl⟩ := List.mem_map.mp hgroup
      exact (patchSection.body_kind line hline).1
  rw [patchOutline, h, hlines, hgroups, List.map_map]
  exact List.map_congr_left fun patchSection _ => sectionOutline_eq patchSection

/-! ## A call and back -/

def PatchOperation.action : PatchOperation → CodexPatchProxyAction
  | addFile _ _ => .addFile
  | deleteFile _ => .deleteFile
  | updateFile _ _ _ => .updateFile

theorem singleApplyPatchAction_toValue :
    ((operation.toValue.str "type").bind singleApplyPatchAction).getD .batch = operation.action := by
  cases operation <;> rfl

def PatchOperation.arguments (operation : PatchOperation) : Value :=
  buildApplyPatchOperationArguments operation.toValue operation.action

theorem patchOperations_arguments :
    ∃ rebuilt, patchOperations operation.action operation.arguments = [rebuilt] ∧
      patchOperation rebuilt = onNewLines operation.toSection.raw := by
  cases operation with
  | addFile path content => exact ⟨_, rfl, patchOperation_add rfl rfl rfl⟩
  | deleteFile path => exact ⟨_, rfl, patchOperation_delete rfl rfl⟩
  | updateFile path moveTo hunks =>
    cases moveTo with
    | nil => exact ⟨_, rfl, patchOperation_update rfl rfl rfl rfl⟩
    | cons c moveTo => exact ⟨_, rfl, patchOperation_update rfl rfl rfl rfl⟩

theorem raw_patch_arguments :
    ((operation.arguments.get "raw_patch").or
      ((operation.arguments.get "patch").or (operation.arguments.get "input"))).bind Value.asStr = none := by
  cases operation with
  | addFile path content => rfl
  | deleteFile path => rfl
  | updateFile path moveTo hunks => cases moveTo <;> rfl

variable {input : Text} {sections : List PatchSection}

theorem customToolCall_patch (h : Text.lines input = patchLines sections) :
    customToolCall name input =
      match operationsOf [] sections with
      | [operation] => (name ++ '_' :: operation.action.suffix, operation.arguments)
      | operations =>
        (name ++ '_' :: CodexPatchProxyAction.batch.suffix,
          .object [("operations", .array (operations.map PatchOperation.toValue)), ("raw_patch", .string input)]) := by
  have hbegin : "*** Begin Patch".toList.isPrefixOf input = true := by
    unfold patchLines at h
    exact List.isPrefixOf_iff_prefix.mpr (Text.prefix_of_lines h)
  rw [customToolCall, if_pos (Or.inr hbegin), parseApplyPatchOperations_eq h]
  cases operationsOf [] sections with
  | nil => rfl
  | cons operation operations =>
    cases operations with
    | nil =>
      simp only [List.map_cons, List.map_nil, singleApplyPatchAction_toValue]
      rfl
    | cons next operations => rfl

theorem length_operationsOf (waiting : List HunkLine) (sections : List PatchSection) :
    (operationsOf waiting sections).length = sections.length := by
  induction sections generalizing waiting with
  | nil => rfl
  | cons patchSection sections ih => rw [operationsOf, List.length_cons, List.length_cons, ih]

section Json

variable [SerdeJson] {name : Text}

theorem throughHistory_many (h : Text.lines input = patchLines sections) (hmany : ∀ patchSection, sections ≠ [patchSection])
    (hjson : SerdeJson.fromStr (SerdeJson.toText (customToolCall name input).2) = some (customToolCall name input).2) :
    throughHistory name input = input := by
  have hinput : input ≠ [] := by
    rintro rfl
    unfold patchLines at h
    exact List.cons_ne_nil _ _ h.symm
  have hcall : customToolCall name input = (name ++ '_' :: CodexPatchProxyAction.batch.suffix,
      .object [("operations", .array ((operationsOf [] sections).map PatchOperation.toValue)),
        ("raw_patch", .string input)]) := by
    rw [customToolCall_patch name h]
    split
    · rename_i operation hone
      have hlength := length_operationsOf [] sections
      rw [hone] at hlength
      obtain ⟨patchSection, rfl⟩ := List.length_eq_one_iff.mp hlength.symm
      exact absurd rfl (hmany patchSection)
    · rfl
  rw [throughHistory, buildCustomToolCallHistory, responseOutputText, reconstructApplyPatchInput, hjson, hcall]
  cases input with
  | nil => exact absurd rfl hinput
  | cons c input => rfl

theorem throughHistory_single {patchSection : PatchSection} (h : Text.lines input = patchLines [patchSection])
    (hjson : SerdeJson.fromStr (SerdeJson.toText (customToolCall name input).2) = some (customToolCall name input).2) :
    throughHistory name input =
      "*** Begin Patch".toList ++
        onNewLines ([(patchSection.operation []).toSection].flatMap PatchSection.raw ++ ["*** End Patch".toList]) := by
  have hcall : customToolCall name input =
      (name ++ '_' :: (patchSection.operation []).action.suffix, (patchSection.operation []).arguments) :=
    customToolCall_patch name h
  obtain ⟨rebuilt, hrebuilt, htext⟩ := patchOperations_arguments (patchSection.operation [])
  rw [throughHistory, buildCustomToolCallHistory, responseOutputText, reconstructApplyPatchInput, hjson, hcall]
  simp only [proxyActionFromUpstreamName_suffix, raw_patch_arguments, Option.filter_none, Option.getD_some, hrebuilt]
  exact buildApplyPatchText_eq (by rw [List.flatMap_singleton, htext, List.flatMap_singleton])

end Json

/-! ## What is kept -/

/-- Sections that survive on their own: every hunk line stands under a header, no hunk ends in the marker, and added
lines do not end in an empty one. -/
def PatchSection.Kept : PatchSection → Prop
  | add _ lines => lines.getLast? ≠ some []
  | delete _ => True
  | update _ _ opening hunks => opening.raw = [] ∧ ∀ hunk ∈ hunks, hunk.body.endOfFile = false

theorem HunkBody.raw_eq_nil {body : HunkBody} (h : body.raw = []) : body.taken = [] := by
  obtain ⟨lines, endOfFile⟩ := body
  obtain ⟨hlines, hmarker⟩ := List.append_eq_nil_iff.mp h
  obtain rfl := List.map_eq_nil_iff.mp hlines
  cases endOfFile with
  | false => rfl
  | true => exact absurd hmarker (by simp)

theorem HunkBody.taken_raw_iff (body : HunkBody) :
    body.taken.map HunkLine.raw = body.raw ↔ body.endOfFile = false := by
  obtain ⟨lines, endOfFile⟩ := body
  cases endOfFile with
  | false => simp [taken, raw]
  | true =>
    have hne : HunkLine.raw ⟨.context, endOfFileMarker⟩ ≠ endOfFileMarker := by decide
    simpa [taken, raw] using hne

theorem HunkBody.Plain.taken {body : HunkBody} (h : body.Plain) : ∀ line ∈ body.taken, Text.IsLine line.text := by
  intro line hline
  rcases List.mem_append.mp hline with hlines | hmarker
  · exact h line hlines
  · cases hend : body.endOfFile with
    | false => simp [hend] at hmarker
    | true =>
      obtain rfl : line = ⟨.context, endOfFileMarker⟩ := by simpa [hend] using hmarker
      exact (by decide : Text.IsLine endOfFileMarker)

theorem openingHunk_injective {first second : List Text} : openingHunk first = openingHunk second ↔ first = second := by
  cases first <;> cases second <;> simp [openingHunk]

theorem plain_operation {patchSection : PatchSection} (h : patchSection.Plain) :
    (patchSection.operation []).toSection.Plain := by
  cases patchSection with
  | add path lines => exact ⟨h.1, Text.isLine_lines_join h.2⟩
  | delete path => exact h
  | update path moveTo opening hunks =>
    obtain ⟨hpath, hmove, hopening, hhunks⟩ := h
    refine ⟨hpath, hmove, fun line hline => absurd hline (by simp), fun hunk hmem => ?_⟩
    obtain ⟨operationHunk, hoperation, rfl⟩ := List.mem_map.mp hmem
    cases hunks with
    | nil => exact absurd hoperation (by simp [hunksAfter])
    | cons first later =>
      obtain ⟨hcontext, hfirst⟩ := hhunks first List.mem_cons_self
      rcases List.mem_cons.mp hoperation with rfl | hlater
      · refine ⟨Text.isLine_trim hcontext.1, fun line hline => ?_⟩
        rcases List.mem_append.mp hline with hwaiting | hbody
        · exact hopening.taken line hwaiting
        · exact hfirst.taken line hbody
      · obtain ⟨laterHunk, hlaterMem, rfl⟩ := List.mem_map.mp hlater
        obtain ⟨hlaterContext, hlaterBody⟩ := hhunks laterHunk (List.mem_cons_of_mem _ hlaterMem)
        exact ⟨Text.isLine_trim hlaterContext.1, hlaterBody.taken⟩

def operationHunkOutline (hunk : OperationHunk) : Text × List Text :=
  (Text.trim hunk.context, hunk.lines.map HunkLine.raw)

theorem outline_toSection_update (moveTo : Text) (hunks : List OperationHunk) :
    (PatchOperation.updateFile path moveTo hunks).toSection.outline =
      ⟨updateTitle path, moveToLine moveTo, hunks.map operationHunkOutline⟩ := by
  simp only [PatchOperation.toSection, PatchSection.outline, PatchSection.title, HunkBody.raw, List.map_nil,
    List.map_map]
  congr 1
  exact List.map_congr_left fun hunk _ => by simp [operationHunkOutline, OperationHunk.toHunk]

theorem hunks_outline_iff (hunks : List Hunk) :
    (hunks.map Hunk.parsed).map operationHunkOutline = hunks.map (fun hunk => (Text.trim hunk.context, hunk.body.raw)) ↔
      ∀ hunk ∈ hunks, hunk.body.endOfFile = false := by
  rw [List.map_map, List.map_inj_left]
  refine forall₂_congr fun hunk _ => ?_
  simp only [Function.comp_apply, operationHunkOutline, Hunk.parsed, Text.trim_trim, Prod.mk.injEq, true_and]
  exact hunk.body.taken_raw_iff

theorem outline_operation_iff {patchSection : PatchSection} (h : patchSection.Plain) :
    (patchSection.operation []).toSection.outline = patchSection.outline ↔ patchSection.Kept := by
  cases patchSection with
  | add path lines =>
    have hcons : Function.Injective (fun line : Text => '+' :: line) := fun first second heq => (List.cons.inj heq).2
    simp only [PatchSection.operation, PatchOperation.toSection, PatchSection.outline, PatchSection.title,
      PatchSection.Kept, SectionOutline.mk.injEq, true_and, openingHunk_injective, hcons.list_map.eq_iff]
    exact Text.lines_join_iff h.2
  | delete path => exact iff_of_true rfl trivial
  | update path moveTo opening hunks =>
    rw [PatchSection.operation, outline_toSection_update, List.nil_append]
    simp only [PatchSection.outline, PatchSection.title, PatchSection.Kept, SectionOutline.mk.injEq, true_and]
    constructor
    · intro hhunks
      -- a hunk of its own for the lines before the first header is one more than the operation has
      have hlength : (hunksAfter opening.taken hunks).length = hunks.length := by cases hunks <;> simp [hunksAfter]
      have hopening : opening.raw = [] := by
        by_contra hne
        have hcount := congrArg List.length hhunks
        rw [openingHunk, if_neg (by simpa using hne)] at hcount
        simp [hlength] at hcount
      rw [HunkBody.raw_eq_nil hopening, hunksAfter_nil, hopening] at hhunks
      exact ⟨hopening, (hunks_outline_iff hunks).mp hhunks⟩
    · rintro ⟨hopening, hends⟩
      rw [HunkBody.raw_eq_nil hopening, hunksAfter_nil, hopening]
      exact (hunks_outline_iff hunks).mpr hends

/-- The second text is a patch of the same sections with the same lines in the same hunks. -/
def SamePatch (input output : Text) : Prop :=
  (∃ sections, Text.lines output = patchLines sections) ∧ patchOutline output = patchOutline input

/-- A patch survives the history unless it has one section only, and that one does not. -/
theorem samePatch_throughHistory_iff [SerdeJson] (name : Text) (h : Text.lines input = patchLines sections)
    (hplain : ∀ patchSection ∈ sections, patchSection.Plain)
    (hjson : SerdeJson.fromStr (SerdeJson.toText (customToolCall name input).2) = some (customToolCall name input).2) :
    SamePatch input (throughHistory name input) ↔ ∀ patchSection, sections = [patchSection] → patchSection.Kept := by
  by_cases hmany : ∀ patchSection, sections ≠ [patchSection]
  · rw [throughHistory_many h hmany hjson]
    exact iff_of_true ⟨⟨sections, h⟩, rfl⟩ fun patchSection hone => absurd hone (hmany patchSection)
  · push Not at hmany
    obtain ⟨patchSection, rfl⟩ := hmany
    have hsection := hplain patchSection (List.mem_singleton_self _)
    have hlines : Text.lines (throughHistory name input) = patchLines [(patchSection.operation []).toSection] := by
      rw [throughHistory_single h hjson]
      refine lines_patchText fun other hother => ?_
      obtain rfl := List.mem_singleton.mp hother
      exact plain_operation hsection
    have houtline := outline_operation_iff hsection
    rw [SamePatch, patchOutline_eq hlines, patchOutline_eq h]
    simp only [List.map_cons, List.map_nil, List.cons.injEq, and_true, houtline, forall_eq']
    exact and_iff_right ⟨_, hlines⟩

/-! ## A patch with and one without a header -/

abbrev printing (value : Value) (text : Text) : SerdeJson :=
  { fromStr := fun other => if other = text then some value else none, toText := fun _ => text }

def headedPatch : Text := "*** Begin Patch\n*** Update File: a\n@@ x\n+b\n*** End Patch".toList

def headedSections : List PatchSection := [.update ['a'] [] { lines := [] } [⟨['x'], { lines := [⟨.add, ['b']⟩] }⟩]]

abbrev headedJson : SerdeJson :=
  printing (.object [("hunks", .array [hunkValue ['x'] [HunkLine.toValue ⟨.add, ['b']⟩]]), ("path", .string ['a'])])
    ("\x7b\"hunks\":[\x7b\"context\":\"x\",\"lines\":[\x7b\"op\":\"add\",\"text\":\"b\"\x7d]\x7d]," ++
      "\"path\":\"a\"\x7d").toList

theorem samePatch_throughHistory_iff_headed :
    SamePatch headedPatch (@throughHistory headedJson "apply_patch".toList headedPatch) ↔
      ∀ patchSection, headedSections = [patchSection] → patchSection.Kept := by
  refine @samePatch_throughHistory_iff _ _ headedJson _ (by decide) (fun patchSection hmem => ?_) ?_
  · obtain rfl := List.mem_singleton.mp hmem
    refine ⟨by decide, by decide, fun line hline => absurd hline (by simp), fun hunk hhunk => ?_⟩
    obtain rfl := List.mem_singleton.mp hhunk
    refine ⟨by decide, fun line hline => ?_⟩
    obtain rfl := List.mem_singleton.mp hline
    exact (by decide : Text.IsLine ['b'])
  · rw [customToolCall_patch _ (by decide : Text.lines headedPatch = patchLines headedSections)]
    exact if_pos rfl

def unheadedPatch : Text := "*** Begin Patch\n*** Update File: a\n+b\n*** End Patch".toList

abbrev unheadedJson : SerdeJson :=
  printing (.object [("hunks", .array []), ("path", .string ['a'])]) "\x7b\"hunks\":[],\"path\":\"a\"\x7d".toList

/-- The line before the first header is lost, and the client is sent a patch that changes nothing. -/
theorem throughHistory_drops_line :
    Text.lines unheadedPatch = patchLines [.update ['a'] [] { lines := [⟨.add, ['b']⟩] } []] ∧
      unheadedJson.fromStr (unheadedJson.toText (customToolCall "apply_patch".toList unheadedPatch).2) =
        some (customToolCall "apply_patch".toList unheadedPatch).2 ∧
      @throughHistory unheadedJson "apply_patch".toList unheadedPatch =
        "*** Begin Patch\n*** Update File: a\n*** End Patch".toList ∧
      ¬SamePatch unheadedPatch (@throughHistory unheadedJson "apply_patch".toList unheadedPatch) := by
  have hlines : Text.lines unheadedPatch = patchLines [.update ['a'] [] { lines := [⟨.add, ['b']⟩] } []] := by
    decide
  have hjson : unheadedJson.fromStr (unheadedJson.toText (customToolCall "apply_patch".toList unheadedPatch).2) =
      some (customToolCall "apply_patch".toList unheadedPatch).2 := by
    rw [customToolCall_patch _ hlines]
    exact if_pos rfl
  have houtput : @throughHistory unheadedJson "apply_patch".toList unheadedPatch =
      "*** Begin Patch\n*** Update File: a\n*** End Patch".toList :=
    (@throughHistory_single _ unheadedJson _ _ hlines hjson).trans (by decide)
  refine ⟨hlines, hjson, houtput, ?_⟩
  rw [houtput]
  exact fun hsame => absurd hsame.2 (by decide)

end Lumio.Proxy
