import Lumio.Proxy.Placement

/-!
# Nothing of a history is lost

Every call, every reasoning text, every output and every message item ends up in one message, and those of a kind keep
their order.
-/

namespace Lumio.Proxy

/-! ## Items of each kind, with their positions -/

def taggedCall : HistoryItem × Nat → Option (ChatToolCall × Nat)
  | (.call call, i) => some (call, i)
  | _ => none

def taggedReasoning : HistoryItem × Nat → Option (Text × Nat)
  | (.reasoning text, i) => if text.isEmpty then none else some (text, i)
  | _ => none

def taggedSpoken : HistoryItem × Nat → Option (HistoryItem × Nat)
  | (.output callId output, i) => some (.output callId output, i)
  | (.message role content, i) => some (.message role content, i)
  | _ => none

/-! ## Every item is placed once -/

theorem foldl_collects {σ α β : Type} {step : σ → α → σ} {collected : σ → List β} {value : α → Option β}
    (h : ∀ s a, collected (step s a) = collected s ++ (value a).toList) (s : σ) (as : List α) :
    collected (as.foldl step s) = collected s ++ as.filterMap value := by
  induction as generalizing s with
  | nil => simp
  | cons a as ih =>
    rw [List.foldl_cons, ih, h, List.append_assoc]
    cases hvalue : value a <;> simp [hvalue]

abbrev HistoryPacking := Packing (Option (HistoryItem × Nat)) (ChatToolCall × Nat) (Text × Nat)

def spoken (packing : HistoryPacking) : List (HistoryItem × Nat) := packing.boxes.filterMap (·.label)

variable (packing : HistoryPacking)

@[simp] theorem spoken_packFirsts : spoken (packing.packFirsts none) = spoken packing := by
  rcases packing.packFirsts_cases none with ⟨-, h⟩ | ⟨start, box, -, hboxes, -, h⟩ | ⟨-, -, h⟩
  · rw [h]
  · simp [h, spoken, hboxes, List.filterMap_cons]
  · simp [h, spoken]

@[simp] theorem spoken_packSeconds : spoken (packing.packSeconds none) = spoken packing := by
  rcases packing.packSeconds_cases none with ⟨-, h⟩ | ⟨start, box, -, hboxes, -, h⟩ | ⟨-, -, h⟩
  · rw [h]
  · simp [h, spoken, hboxes, List.filterMap_cons]
  · simp [h, spoken]

@[simp] theorem spoken_openBox (tagged : HistoryItem × Nat) :
    spoken (packing.openBox (some tagged)) = spoken packing ++ [tagged] := by
  simp [spoken, Packing.openBox, Packing.put]

@[simp] theorem spoken_closedBox (tagged : HistoryItem × Nat) :
    spoken (packing.closedBox (some tagged)) = spoken packing ++ [tagged] := by
  simp [spoken, Packing.closedBox, Packing.put]

namespace Placement

variable (p : Placement) (tagged : HistoryItem × Nat)

theorem allFirsts_step : (p.step tagged).packing.allFirsts = p.packing.allFirsts ++ (taggedCall tagged).toList := by
  obtain ⟨item, i⟩ := tagged
  cases item with
  | output callId output => simp only [step, taggedCall]; split <;> simp
  | reasoning text => simp only [step, taggedCall]; split <;> simp
  | message role content => simp only [step, taggedCall]; split <;> simp
  | _ => simp [step, taggedCall]

theorem allSeconds_step :
    (p.step tagged).packing.allSeconds = p.packing.allSeconds ++ (taggedReasoning tagged).toList := by
  obtain ⟨item, i⟩ := tagged
  cases item with
  | output callId output => simp only [step, taggedReasoning]; split <;> simp
  | reasoning text => simp only [step, taggedReasoning]; split <;> simp
  | message role content => simp only [step, taggedReasoning]; split <;> simp
  | _ => simp [step, taggedReasoning]

theorem spoken_step : spoken (p.step tagged).packing = spoken p.packing ++ (taggedSpoken tagged).toList := by
  obtain ⟨item, i⟩ := tagged
  cases item with
  | call call => simp [step, taggedSpoken, Packing.addFirst, spoken]
  | output callId output => simp only [step, taggedSpoken]; split <;> simp
  | reasoning text => simp only [step, taggedSpoken]; split <;> simp [Packing.addSecond, spoken]
  | message role content => simp only [step, taggedSpoken]; split <;> simp
  | _ => simp [step, taggedSpoken]

end Placement

/-- The boxes of an input hold its calls and its reasoning texts, and stand for its outputs and messages, each once and
in order. -/
theorem placed_keeps (items : List HistoryItem) :
    (placed items).flatMap (·.firsts) = items.zipIdx.filterMap taggedCall ∧
      (placed items).flatMap (·.seconds) = items.zipIdx.filterMap taggedReasoning ∧
      (placed items).filterMap (·.label) = items.zipIdx.filterMap taggedSpoken := by
  have hfirsts := @foldl_collects _ _ _ _ (fun p : Placement => p.packing.allFirsts) taggedCall Placement.allFirsts_step {} items.zipIdx
  have hseconds := @foldl_collects _ _ _ _ (fun p : Placement => p.packing.allSeconds) taggedReasoning
    Placement.allSeconds_step {} items.zipIdx
  have hspoken := @foldl_collects _ _ _ _ (fun p : Placement => spoken p.packing) taggedSpoken Placement.spoken_step {} items.zipIdx
  have hpacked : (((Placement.run items).packing.packFirsts none).packSeconds none).allFirsts =
      (Placement.run items).packing.allFirsts := by simp
  have hpackedSeconds : (((Placement.run items).packing.packFirsts none).packSeconds none).allSeconds =
      (Placement.run items).packing.allSeconds := by simp
  have hpackedSpoken : spoken (((Placement.run items).packing.packFirsts none).packSeconds none) =
      spoken (Placement.run items).packing := by simp
  refine ⟨?_, ?_, hpackedSpoken.trans hspoken⟩
  · simpa [Packing.allFirsts, placed] using hpacked.trans hfirsts
  · simpa [Packing.allSeconds, placed] using hpackedSeconds.trans hseconds

/-! ## The items of an input -/

def IsToolCall (item : Value) : Prop :=
  item.str "type" = some "function_call".toList ∨ item.str "type" = some "custom_tool_call".toList ∨
    item.str "type" = some "tool_call".toList ∧ (item.get "tool_use").isSome

def IsToolOutput (item : Value) : Prop :=
  item.str "type" = some "function_call_output".toList ∨ item.str "type" = some "custom_tool_call_output".toList ∨
    item.str "type" = some "tool_result".toList

def IsReasoning (item : Value) : Prop := item.str "type" = some "reasoning".toList

def IsOrdinaryMessage (item : Value) : Prop :=
  ¬IsToolCall item ∧ item.str "type" ≠ some "tool_call".toList ∧ ¬IsToolOutput item ∧ ¬IsReasoning item ∧
    ∃ content, item.get "content" = some content ∧
      (content.isNull = false ∨ responsesRoleToChatRole (item.str "role") = .assistant)

instance : DecidablePred IsToolCall := fun _ => inferInstanceAs (Decidable (_ ∨ _ ∨ _))

def callName (item : Value) : Text :=
  if item.str "type" = some "tool_call".toList then ((item.get "tool_use").bind (·.str "name")).getD []
  else (item.str "name").getD []

def callId (item : Value) : Text :=
  if item.str "type" = some "tool_call".toList then
    firstPresent [(item.get "tool_use").bind (·.get "id"), item.get "call_id", item.get "id"]
  else firstPresent [item.get "call_id", item.get "id"]

def outputId (item : Value) : Text :=
  if item.str "type" = some "tool_result".toList then
    firstPresent [(item.get "content").bind (·.get "tool_use_id"), item.get "tool_call_id", item.get "call_id"]
  else (item.str "call_id").getD []

def outputOf (item : Value) : Value :=
  if item.str "type" = some "tool_result".toList then
    ((item.get "content").bind (·.get "content")).getD ((item.get "content").getD .null)
  else (item.get "output").getD .null

/-- Where the text of a reasoning item may be, and which place counts first. The parts of a summary are paragraphs. -/
def reasoningSources (item : Value) : List Text :=
  ["reasoning_content", "content", "text"].filterMap (item.str ·) ++
    (match item.get "summary" with
      | some (.string text) => [text]
      | some (.array parts) => [Text.join ['\n', '\n'] ((parts.filterMap summaryPartText).filter (!·.isEmpty))]
      | _ => []) ++
    ["reasoning_content", "reasoning"].filterMap (item.str ·) ++
    ["content", "text", "summary"].filterMap (((item.get "reasoning").getD .null).str ·) ++
    ((item.get "reasoning_details").bind extractReasoningDetailsText).toList

/-- The first of the texts that is not empty. -/
def reasoningOf (item : Value) : Text := ((reasoningSources item).find? (!·.isEmpty)).getD []

/-- Calls have names and ids of their own, and outputs say which call they belong to. -/
structure Identified (items : List Value) : Prop where
  named : ∀ item ∈ items, IsToolCall item → callName item ≠ []
  callIds : ∀ item ∈ items, IsToolCall item → callId item ≠ []
  distinct : ((items.filter (IsToolCall ·)).map callId).Nodup
  outputIds : ∀ item ∈ items, IsToolOutput item → outputId item ≠ []

section Reading

variable [SerdeJson] {item : Value}

theorem readItem_of_type {type : Text} (h : item.str "type" = some type) :
    readItem item =
      if type = "function_call".toList then functionCallItem item
      else if type = "function_call_output".toList ∨ type = "custom_tool_call_output".toList then outputItem item
      else if type = "custom_tool_call".toList then customToolCallItem item
      else if type = "tool_call".toList then toolCallItem item
      else if type = "tool_result".toList then toolResultItem item
      else if type = "reasoning".toList then .reasoning ((responsesReasoningText item).getD [])
      else messageItem item := by
  unfold readItem
  rw [h]

variable {call : ChatToolCall}

omit [SerdeJson] in
theorem callItem_of_ne (h : call.id ≠ []) : callItem call = .call call := by
  rw [callItem, if_neg (by simpa using h)]

omit [SerdeJson] in
theorem responsesHistoryFunctionName_ne (h : (item.str "name").getD [] ≠ []) : responsesHistoryFunctionName item ≠ [] := by
  rw [responsesHistoryFunctionName]
  rw [if_neg (by simpa using h)]
  split
  · exact h
  · rename_i hnamespace
    rw [flattenNamespaceToolName, if_neg hnamespace, if_neg (by simpa using h)]
    split <;> simp [h]

theorem readItem_call (hcall : IsToolCall item) (hname : callName item ≠ []) (hid : callId item ≠ []) :
    ∃ call, readItem item = .call call ∧ call.id = callId item := by
  rcases hcall with htype | htype | ⟨htype, huse⟩
  · rw [callName, htype, if_neg (by decide)] at hname
    rw [callId, htype, if_neg (by decide)] at hid ⊢
    rw [readItem_of_type htype, if_pos rfl, functionCallItem]
    rw [if_neg (by simpa using responsesHistoryFunctionName_ne hname), callItem_of_ne hid]
    exact ⟨_, rfl, rfl⟩
  · rw [callId, htype, if_neg (by decide)] at hid ⊢
    rw [readItem_of_type htype, if_neg (by decide), if_neg (by decide), if_pos rfl, customToolCallItem]
    rw [callItem_of_ne hid]
    exact ⟨_, rfl, rfl⟩
  · obtain ⟨toolUse, huse⟩ := Option.isSome_iff_exists.mp huse
    rw [callId, htype, if_pos rfl, huse] at hid ⊢
    rw [readItem_of_type htype, if_neg (by decide), if_neg (by decide), if_neg (by decide),
      if_pos rfl, toolCallItem, huse]
    exact ⟨_, callItem_of_ne hid, rfl⟩

theorem readItem_output (houtput : IsToolOutput item) (hid : outputId item ≠ []) :
    readItem item = .output (outputId item) (outputOf item) := by
  rcases houtput with htype | htype | htype
  · rw [outputId, htype, if_neg (by decide)] at hid ⊢
    rw [outputOf, htype, if_neg (by decide), readItem_of_type htype, if_neg (by decide), if_pos (.inl rfl), outputItem]
    rw [if_neg (by simpa using hid)]
  · rw [outputId, htype, if_neg (by decide)] at hid ⊢
    rw [outputOf, htype, if_neg (by decide), readItem_of_type htype, if_neg (by decide), if_pos (.inr rfl), outputItem]
    rw [if_neg (by simpa using hid)]
  · rw [outputId, htype, if_pos rfl] at hid ⊢
    rw [outputOf, htype, if_pos rfl, readItem_of_type htype, if_neg (by decide), if_neg (by decide), if_neg (by decide),
      if_neg (by decide), if_pos rfl, toolResultItem]
    have hcontent (key : String) : ((item.get "content").getD .null).get key = (item.get "content").bind (·.get key) := by
      cases item.get "content" <;> rfl
    rw [hcontent, hcontent, if_neg (by simpa using hid)]

omit [SerdeJson] in
theorem firstText_eq (keys : List String) (value : Value) :
    firstText keys value = (keys.filterMap (value.str ·)).find? (!·.isEmpty) := by
  induction keys with
  | nil => rfl
  | cons key keys ih =>
    rw [firstText] at ih
    rw [firstText, List.findSome?_cons, ih, Value.nonEmptyStr, List.filterMap_cons]
    cases value.str key with
    | none => rfl
    | some text => cases hempty : text.isEmpty <;> simp [Option.filter, hempty]

omit [SerdeJson] in
theorem responsesReasoningText_eq (item : Value) : (responsesReasoningText item).getD [] = reasoningOf item := by
  have hsummary : (item.get "summary").bind summaryText = (match item.get "summary" with
      | some (.string text) => [text]
      | some (.array parts) => [Text.join ['\n', '\n'] ((parts.filterMap summaryPartText).filter (!·.isEmpty))]
      | _ => []).find? (!·.isEmpty) := by
    have hone (text : Text) : (if text.isEmpty then none else some text) = [text].find? (!·.isEmpty) := by
      cases hempty : text.isEmpty <;> simp [hempty]
    cases item.get "summary" with
    | none => rfl
    | some summary =>
      cases summary with
      | string text => exact hone text
      | array parts => exact hone _
      | _ => rfl
  have hinner : (item.get "reasoning").bind (firstText ["content", "text", "summary"]) =
      (["content", "text", "summary"].filterMap (((item.get "reasoning").getD .null).str ·)).find? (!·.isEmpty) := by
    rw [← firstText_eq]
    cases item.get "reasoning" <;> rfl
  have hlast (details : Option Text) : details.getD [] = (details.toList.find? (!·.isEmpty)).getD [] := by
    cases details with
    | none => rfl
    | some text => cases text <;> rfl
  have hgetD (first rest : Option Text) : (first.or rest).getD [] = first.getD (rest.getD []) := by
    cases first <;> rfl
  rw [reasoningOf, reasoningSources, responsesReasoningText, extractReasoningSummaryText, extractReasoningFieldText, hsummary,
    hinner, firstText_eq, firstText_eq]
  simp only [List.find?_append, Option.or_assoc, hgetD]
  rw [← hlast]

theorem readItem_reasoning (h : IsReasoning item) : readItem item = .reasoning (reasoningOf item) := by
  rw [readItem_of_type h, if_neg (by decide), if_neg (by decide), if_neg (by decide),
    if_neg (by decide), if_neg (by decide), if_pos rfl, responsesReasoningText_eq]

theorem readItem_message (h : IsOrdinaryMessage item) :
    ∃ content, item.get "content" = some content ∧
      readItem item = .message (responsesRoleToChatRole (item.str "role")) (responsesContentToChatContent content) := by
  obtain ⟨hcall, htoolCall, houtput, hreasoning, content, hcontent, hshown⟩ := h
  refine ⟨content, hcontent, ?_⟩
  have hmessage : messageItem item =
      .message (responsesRoleToChatRole (item.str "role")) (responsesContentToChatContent content) := by
    rw [messageItem, hcontent]
    dsimp only
    rw [if_neg]
    rintro ⟨hnull, hrole⟩
    rcases hshown with hfull | hassistant
    · simp [hfull] at hnull
    · exact hrole hassistant
  rw [← hmessage]
  cases htype : item.str "type" with
  | none =>
    unfold readItem
    rw [htype]
  | some type =>
    rw [IsToolCall, htype] at hcall
    rw [IsToolOutput, htype] at houtput
    rw [IsReasoning, htype] at hreasoning
    rw [htype] at htoolCall
    simp only [Option.some.injEq, not_or, not_and, ne_eq] at hcall houtput hreasoning htoolCall
    rw [readItem_of_type htype, if_neg hcall.1, if_neg (not_or.mpr ⟨houtput.1, houtput.2.1⟩), if_neg hcall.2.1,
      if_neg htoolCall, if_neg houtput.2.2, if_neg hreasoning]

omit [SerdeJson] in
theorem callItem_eq_call {read : ChatToolCall} (h : callItem read = .call call) : call = read := by
  rw [callItem] at h
  split at h
  · cases h
  · cases h
    rfl

theorem isToolCall_of_readItem (h : readItem item = .call call) : IsToolCall item ∧ call.id = callId item := by
  have hmessage : messageItem item ≠ .call call := by
    rw [messageItem]
    split
    · simp
    · dsimp only
      split <;> simp
  cases htype : item.str "type" with
  | none =>
    unfold readItem at h
    rw [htype] at h
    exact absurd h hmessage
  | some type =>
    rw [readItem_of_type htype] at h
    split_ifs at h with hfunction houtput hcustom htool hresult hreasoning
    · subst hfunction
      rw [functionCallItem] at h
      split at h
      · cases h
      · rw [callItem_eq_call h, callId, htype, if_neg (by decide)]
        exact ⟨.inl htype, rfl⟩
    · rw [outputItem] at h
      split at h <;> cases h
    · subst hcustom
      rw [customToolCallItem] at h
      rw [callItem_eq_call h, callId, htype, if_neg (by decide)]
      exact ⟨.inr (.inl htype), rfl⟩
    · subst htool
      rw [toolCallItem] at h
      split at h
      · cases h
      · rename_i toolUse huse
        rw [callItem_eq_call h, callId, htype, if_pos rfl, huse]
        exact ⟨.inr (.inr ⟨htype, by rw [huse]; rfl⟩), rfl⟩
    · rw [toolResultItem] at h
      split at h <;> cases h
    · exact absurd h hmessage

theorem callIds_eq {items : List Value} (h : Identified items) (i : Nat) :
    (((items.map readItem).zipIdx i).filterMap taggedCall).map (·.1.id) = (items.filter (IsToolCall ·)).map callId := by
  obtain ⟨hnamed, hids, -, -⟩ := h
  induction items generalizing i with
  | nil => rfl
  | cons item items ih =>
    have htail := ih (i + 1) (fun other hmem => hnamed other (List.mem_cons_of_mem _ hmem))
      (fun other hmem => hids other (List.mem_cons_of_mem _ hmem))
    rw [List.map_cons, List.zipIdx_cons]
    by_cases hcall : IsToolCall item
    · obtain ⟨call, hread, hid⟩ := readItem_call hcall (hnamed item List.mem_cons_self hcall)
        (hids item List.mem_cons_self hcall)
      rw [hread, List.filter_cons_of_pos (by simpa using hcall), List.map_cons, ← htail, ← hid]
      rfl
    · have hnone : taggedCall (readItem item, i) = none := by
        cases hread : readItem item with
        | call call => exact absurd (isToolCall_of_readItem hread).1 hcall
        | _ => rfl
      rw [List.filterMap_cons_none hnone, List.filter_cons_of_neg (by simpa using hcall), htail]

end Reading

/-! ## The whole input -/

/-- Messages that hold the calls and the reasoning texts of an input, and stand for its outputs and messages, each once
and in order. -/
structure Conserved [SerdeJson] (items : List Value) (boxes : List MessageBox) (messages : List ChatMessage) : Prop where
  shown : List.Forall₂ Shows boxes messages
  calls : ∀ item ∈ items, IsToolCall item → ∃ call, readItem item = .call call ∧ call.id = callId item
  callIds : (messages.flatMap (·.calls)).map (·.id) = (items.filter (IsToolCall ·)).map callId
  placedCalls : boxes.flatMap (·.firsts) = (items.map readItem).zipIdx.filterMap taggedCall
  reasoning : ∀ item ∈ items, IsReasoning item → readItem item = .reasoning (reasoningOf item)
  placedReasoning : boxes.flatMap (·.seconds) = (items.map readItem).zipIdx.filterMap taggedReasoning
  outputs : ∀ item ∈ items, IsToolOutput item → readItem item = .output (outputId item) (outputOf item)
  outputTexts : ∀ item ∈ items, IsToolOutput item → ∀ text, outputOf item = .string text →
    ∀ message, Says (.output (outputId item) (outputOf item)) message → ∃ before, message.content = .string (before ++ text)
  ordinary : ∀ item ∈ items, IsOrdinaryMessage item →
    ∃ content, item.get "content" = some content ∧
      readItem item = .message (responsesRoleToChatRole (item.str "role")) (responsesContentToChatContent content)
  placedSpoken : boxes.filterMap (·.label) = (items.map readItem).zipIdx.filterMap taggedSpoken

theorem says_text [SerdeJson] {id text : Text} {message : ChatMessage} (h : Says (.output id (.string text)) message) :
    ∃ before, message.content = .string (before ++ text) := by
  rcases h with rfl | rfl
  · exact ⟨[], rfl⟩
  · exact ⟨"Function call output (".toList ++ id ++ "): ".toList, rfl⟩

theorem calls_of_shown [SerdeJson] {boxes : List MessageBox} {messages : List ChatMessage}
    (h : List.Forall₂ Shows boxes messages) (hnodup : ((boxes.flatMap (·.firsts)).map (·.1.id)).Nodup) :
    messages.flatMap (·.calls) = (boxes.flatMap (·.firsts)).map (·.1) := by
  induction h with
  | nil => rfl
  | cons hshows _ ih =>
    rw [List.flatMap_cons, List.map_append] at hnodup
    obtain ⟨hfirst, hrest, -⟩ := List.nodup_append.mp hnodup
    rw [List.flatMap_cons, List.flatMap_cons, List.map_append, hshows.calls hfirst, ih hrest]

theorem noAssistantLast_instructions (body : Value) : NoAssistantLast (instructionMessages body) := by
  intro last hlast
  rcases instructionMessages_cases body with hmessages | ⟨text, hmessages⟩ <;> rw [hmessages] at hlast
  · cases hlast
  · cases hlast
    simp

/-- A reasoning text of a summary, its call, the output and another text. -/
def reasonedExchange : List Value :=
  [.object [("type", .ofStr "reasoning"), ("summary", .array [.object [("type", .ofStr "summary_text"), ("text", .ofStr "why")]])],
    .object [("type", .ofStr "function_call"), ("call_id", .ofStr "c"), ("name", .ofStr "f"), ("arguments", .ofStr "\x7b\x7d")],
    .object [("type", .ofStr "function_call_output"), ("call_id", .ofStr "c"), ("output", .ofStr "done")],
    .object [("type", .ofStr "reasoning"), ("text", .ofStr "so")]]

/-- Every text of a reasoning item, as a string or in parts of the summary or of the content. -/
def writtenReasoning (item : Value) : List Text :=
  ["reasoning_content", "content", "text", "summary"].filterMap (item.str ·) ++
    ["summary", "content"].flatMap fun key =>
      match item.get key with
      | some (.array parts) => parts.filterMap (·.str "text")
      | _ => []

def KeepsReasoning [SerdeJson] (items : List Value) : Prop :=
  ∀ item ∈ items, IsReasoning item → ∀ text ∈ writtenReasoning item,
    ∃ message ∈ appendResponsesInput [] (.array items), ∃ reasoning, message.reasoningContent = some reasoning ∧ text <:+: reasoning

def doublyReasoned : Value :=
  .object [("type", .ofStr "reasoning"), ("text", .ofStr "a"), ("summary", .array [.object [("text", .ofStr "b")]])]

def reasonedInParts : Value :=
  .object [("type", .ofStr "reasoning"), ("summary", .array []),
    ("content", .array [.object [("type", .ofStr "reasoning_text"), ("text", .ofStr "a")]])]

end Lumio.Proxy
