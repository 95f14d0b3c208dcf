import Lumio.Config.Common
import Lumio.Config.RootKeys
import Lumio.Relay.Settings

/-!
# The configuration of a relay profile

The configuration of a profile is completed with its provider and its model. The model is looked up in the text of the
configuration, and written to its document.
-/

namespace Lumio.Config

open Toml
open Text (trim)
open Relay (RelayProfile RelayProtocol RelayMode)

/-! ## Suffixes of models -/

/-- `str::parse::<u64>` -/
def parseU64 (text : Text) : Option Nat :=
  let digits := (Text.stripPrefix ['+'] text).getD text
  if digits.isEmpty || !digits.all Char.isDigit then none
  else
    let value := digits.foldl (fun value c => 10 * value + (c.toNat - '0'.toNat)) 0
    if value < 2 ^ 64 then some value else none

def parseWindowToken (token : Text) : Option Nat :=
  let parse := fun (number : Text) (multiplier : Nat) =>
    ((parseU64 (trim number)).map fun value => value * multiplier % 2 ^ 64).filter (0 < ·)
  match (trim token).getLast? with
  | none => none
  | some c =>
    if c = 'K' || c = 'k' then parse (trim token).dropLast 1000
    else if c = 'M' || c = 'm' then parse (trim token).dropLast 1000000
    else parse (trim token) 1

/-- Splits a text at the last place where a character stands. -/
def splitLast (c : Char) (text : Text) : Option (Text × Text) :=
  (Text.splitOnce c text.reverse).map fun (after, before) => (before.reverse, after.reverse)

/-- The model without its suffix, and the window that the suffix tells. -/
def parseModelSuffix (raw : Text) : Text × Option Nat :=
  if (trim raw).getLast? = some ']' then
    match splitLast '[' (trim raw).dropLast with
    | none => (trim raw, none)
    | some (slug, inner) =>
      match if (trim slug).isEmpty then none else parseWindowToken (trim inner) with
      | none => (trim raw, none)
      | some window => (trim slug, some window)
  else (trim raw, none)

/-! ## The model of a profile -/

def modelKey : Text := "model".toList

/-- The model is the one of the configuration, or else the one of the profile. -/
def relayProfileModel (profile : RelayProfile) : Text :=
  ((rootKeyString profile.configContents modelKey).filter fun value => !(trim value).isEmpty).getD (trim profile.model)

def firstOfList (modelList : Text) : Option Text :=
  ((modelList.splitOnP fun c => c = '\r' || c = '\n' || c = ',').map trim).find? (!·.isEmpty)

/-- The model that is written: without its suffix, or the first one of the list if there is none. -/
def completedModel (profile : RelayProfile) : Text :=
  let model := relayProfileModel profile
  let model :=
    if (trim model).isEmpty && !(trim profile.modelList).isEmpty then
      match firstOfList profile.modelList with
      | some first => (parseModelSuffix first).1
      | none => model
    else model
  (parseModelSuffix model).1

/-! ## Completing the document -/

def localResponsesProxyBaseUrl : Text := "http://127.0.0.1:57321/v1".toList

def openaiBaseUrlKey : Text := "openai_base_url".toList

def modelProviderKey : Text := "model_provider".toList

def modelProvidersKey : Text := "model_providers".toList

def chatUpstreamBaseUrlKey : Text := "codex_plus_chat_base_url".toList

def asStr : Item → Option Text
  | .scalar (.string value) => some value
  | _ => none

def asTable : Item → Option Table
  | .table entries => some entries
  | _ => none

def stringItem (value : Text) : Item := .scalar (.string value)

def updateRemoteControlOpenaiBaseUrl (enabled : Bool) (doc : Table) : Table :=
  let current := ((Entries.lookup openaiBaseUrlKey doc).bind asStr).map trim
  if enabled then
    if current.all (· = localResponsesProxyBaseUrl) then
      Entries.put openaiBaseUrlKey (stringItem localResponsesProxyBaseUrl) doc
    else doc
  else if current = some localResponsesProxyBaseUrl then Entries.erase openaiBaseUrlKey doc
  else doc

def relayProvider : Text := "custom".toList

def legacyRelayProviders : List Text := ["CodexPlusPlus".toList, "CodexPP".toList]

def reservedModelProviderIds : List Text :=
  ["amazon-bedrock".toList, "openai".toList, "ollama".toList, "lmstudio".toList, "oss".toList, "ollama-chat".toList]

def activeProviderId (doc : Table) : Option Text :=
  (((Entries.lookup modelProviderKey doc).bind asStr).map trim).filter fun provider => !provider.isEmpty

def activeOrDefaultProviderId (doc : Table) : Text :=
  ((activeProviderId doc).filter fun provider =>
    decide (provider ∉ reservedModelProviderIds) && decide (provider ∉ legacyRelayProviders)).getD relayProvider

def retainOnlyProviderTable (provider : Text) (doc : Table) : Table :=
  match (Entries.lookup modelProvidersKey doc).bind asTable with
  | none => doc
  | some providers =>
    Entries.put modelProvidersKey (.table [(provider, (Entries.lookup provider providers).getD (.table []))]) doc

def removeProviderTable (provider : Text) (doc : Table) : Table :=
  match (Entries.lookup modelProvidersKey doc).bind asTable with
  | none => doc
  | some providers =>
    if (Entries.erase provider providers).isEmpty then Entries.erase modelProvidersKey doc
    else Entries.put modelProvidersKey (.table (Entries.erase provider providers)) doc

def isBlankText (item : Option Item) : Bool := ((item.bind asStr).map trim).all List.isEmpty

def codexBaseUrlForProtocol (baseUrl : Text) : RelayProtocol → Text
  | .responses => baseUrl
  | .chatCompletions => localResponsesProxyBaseUrl

def putUnless (given : Bool) (key value : Text) (table : Table) : Table :=
  if given then table else Entries.put key (stringItem value) table

def completedProvider (profile : RelayProfile) (baseUrl apiKey provider : Text) (table : Table) : Table :=
  let table := putUnless (!isBlankText (Entries.lookup "name".toList table)) "name".toList provider table
  let table := putUnless (!isBlankText (Entries.lookup "wire_api".toList table)) "wire_api".toList "responses".toList table
  let table :=
    if profile.relayMode ≠ .pureApi ∧ ((Entries.lookup "requires_openai_auth".toList table).bind fun
        | .scalar (.boolean value) => some value
        | _ => none) = none then
      Entries.put "requires_openai_auth".toList (.scalar (.boolean true)) table
    else table
  let providerBaseUrl := codexBaseUrlForProtocol (trim baseUrl) profile.protocol
  let table := putUnless (trim providerBaseUrl).isEmpty "base_url".toList (trim providerBaseUrl) table
  if profile.relayMode = .pureApi then Entries.erase "experimental_bearer_token".toList table
  else putUnless (trim apiKey).isEmpty "experimental_bearer_token".toList (trim apiKey) table

def ensureProviderTable (provider : Text) (complete : Table → Table) (doc : Table) : Table :=
  let providers := ((Entries.lookup modelProvidersKey doc).bind asTable).getD []
  let table := ((Entries.lookup provider providers).bind asTable).getD []
  Entries.put modelProvidersKey (.table (Entries.put provider (.table (complete table)) providers)) doc

/-- The document of a profile that is completed, before it is printed. The base URL and the key are those of the profile. -/
def completeRelayProfileConfig (profile : RelayProfile) (baseUrl apiKey : Text) (doc : Table) : Table :=
  let doc := updateRemoteControlOpenaiBaseUrl (profile.relayMode = .official && profile.officialMixApiKey) doc
  let provider := activeOrDefaultProviderId doc
  let doc := Entries.put modelProviderKey (stringItem provider) doc
  let doc := putUnless (trim (completedModel profile)).isEmpty modelKey (trim (completedModel profile)) doc
  let doc := retainOnlyProviderTable provider (Entries.erase chatUpstreamBaseUrlKey doc)
  let doc := (legacyRelayProviders.filter (· ≠ provider)).foldl (fun doc legacy => removeProviderTable legacy doc) doc
  ensureProviderTable provider (completedProvider profile baseUrl apiKey provider) doc

/-! ## What is written to the model -/

section Model

variable {key : Text} {doc : Table}

theorem lookup_updateRemoteControl (h : key ≠ openaiBaseUrlKey) (enabled : Bool) (doc : Table) :
    Entries.lookup key (updateRemoteControlOpenaiBaseUrl enabled doc) = Entries.lookup key doc := by
  unfold updateRemoteControlOpenaiBaseUrl
  simp only
  split_ifs
  · exact Entries.lookup_put_ne h _ _
  · rfl
  · exact Entries.lookup_erase_ne h _
  · rfl

theorem lookup_retainOnlyProviderTable (h : key ≠ modelProvidersKey) (provider : Text) (doc : Table) :
    Entries.lookup key (retainOnlyProviderTable provider doc) = Entries.lookup key doc := by
  unfold retainOnlyProviderTable
  split
  · rfl
  · exact Entries.lookup_put_ne h _ _

theorem lookup_removeProviderTable (h : key ≠ modelProvidersKey) (provider : Text) (doc : Table) :
    Entries.lookup key (removeProviderTable provider doc) = Entries.lookup key doc := by
  unfold removeProviderTable
  split
  · rfl
  · split
    · exact Entries.lookup_erase_ne h _
    · exact Entries.lookup_put_ne h _ _

theorem lookup_removeProviderTables (h : key ≠ modelProvidersKey) (providers : List Text) (doc : Table) :
    Entries.lookup key (providers.foldl (fun doc legacy => removeProviderTable legacy doc) doc) =
      Entries.lookup key doc := by
  induction providers generalizing doc with
  | nil => rfl
  | cons provider providers ih => rw [List.foldl_cons, ih, lookup_removeProviderTable h]

theorem lookup_putUnless_self (given : Bool) (key value : Text) (table : Table) :
    Entries.lookup key (putUnless given key value table) =
      if given then Entries.lookup key table else some (stringItem value) := by
  unfold putUnless
  split
  · rfl
  · exact Entries.lookup_put_self _ _ _

theorem modelKey_ne : modelKey ≠ openaiBaseUrlKey ∧ modelKey ≠ modelProviderKey ∧ modelKey ≠ modelProvidersKey ∧
    modelKey ≠ chatUpstreamBaseUrlKey := by decide

theorem lookup_model (profile : RelayProfile) (baseUrl apiKey : Text) (doc : Table) :
    Entries.lookup modelKey (completeRelayProfileConfig profile baseUrl apiKey doc) =
      if (trim (completedModel profile)).isEmpty then Entries.lookup modelKey doc
      else some (stringItem (trim (completedModel profile))) := by
  obtain ⟨hopenai, hprovider, hproviders, hchat⟩ := modelKey_ne
  unfold completeRelayProfileConfig ensureProviderTable
  simp only
  rw [Entries.lookup_put_ne hproviders, lookup_removeProviderTables hproviders, lookup_retainOnlyProviderTable hproviders,
    Entries.lookup_erase_ne hchat, lookup_putUnless_self, Entries.lookup_put_ne hprovider, lookup_updateRemoteControl hopenai]

theorem parseModelSuffix_none {raw : Text} (h : (parseModelSuffix raw).2 = none) : (parseModelSuffix raw).1 = trim raw := by
  unfold parseModelSuffix at h ⊢
  split
  · rename_i hlast
    rw [if_pos hlast] at h
    cases hsplit : splitLast '[' (trim raw).dropLast with
    | none => rfl
    | some parts =>
      rw [hsplit] at h
      simp only at h ⊢
      split at h
      · rfl
      · cases h
  · rfl

theorem completedModel_eq {profile : RelayProfile} {model : Text}
    (hlookup : rootKeyString profile.configContents modelKey = some model) (hblank : (trim model).isEmpty = false)
    (hsuffix : (parseModelSuffix model).2 = none) : completedModel profile = trim model := by
  have hmodel : relayProfileModel profile = model := by
    rw [relayProfileModel, hlookup, Option.filter_some_pos (by simp [hblank])]
    rfl
  unfold completedModel
  simp only [hmodel, hblank, Bool.false_and, Bool.false_eq_true, if_false]
  exact parseModelSuffix_none hsuffix

/-- The model of the configuration, if it names one without a suffix, is not rewritten. -/
def KeepsModel (profile : RelayProfile) (doc : Table) : Prop :=
  ∀ model, Entries.lookup modelKey doc = some (stringItem model) → (trim model).isEmpty = false →
    (parseModelSuffix model).2 = none →
      ∀ baseUrl apiKey, Entries.lookup modelKey (completeRelayProfileConfig profile baseUrl apiKey doc) = some (stringItem model)

/-- There is no white space around the model of the configuration. -/
def ModelIsTrimmed (doc : Table) : Prop :=
  ∀ model, Entries.lookup modelKey doc = some (stringItem model) → (trim model).isEmpty = false →
    (parseModelSuffix model).2 = none → trim model = model

theorem keepsModel_iff {profile : RelayProfile} {doc : Table} (h : AgreesAtRoot profile.configContents modelKey doc) :
    KeepsModel profile doc ↔ ModelIsTrimmed doc := by
  have hwritten : ∀ model, Entries.lookup modelKey doc = some (stringItem model) → (trim model).isEmpty = false →
      (parseModelSuffix model).2 = none → ∀ baseUrl apiKey,
        Entries.lookup modelKey (completeRelayProfileConfig profile baseUrl apiKey doc) = some (stringItem (trim model)) := by
    intro model hlookup hblank hsuffix baseUrl apiKey
    rw [lookup_model, completedModel_eq ((h model).mpr hlookup) hblank hsuffix, Text.trim_trim, hblank,
      if_neg Bool.false_ne_true]
  constructor
  · intro hkeeps model hlookup hblank hsuffix
    have hsame := (hwritten model hlookup hblank hsuffix [] []).symm.trans (hkeeps model hlookup hblank hsuffix [] [])
    simpa [stringItem] using hsame
  · intro htrimmed model hlookup hblank hsuffix baseUrl apiKey
    rw [hwritten model hlookup hblank hsuffix, htrimmed model hlookup hblank hsuffix]

end Model

/-! ## Agreement -/

section Agreement

variable {bare : Text → Scalar → Prop} {text : Text} {expressions : List Expression} {doc : Table}

/-- Root keys are looked up as TOML has them, and the model of a profile is not rewritten. -/
structure AgreesWithToml (profile : RelayProfile) (doc : Table) : Prop where
  keys : ∀ key, IsBareKey key → AgreesAtRoot profile.configContents key doc
  model : KeepsModel profile doc

/-- Every root key is found where it is given, as a plain string, and not found elsewhere. -/
structure ReadsRootKeys (marked : Bool) (expressions : List Expression) (doc : Table) : Prop where
  keys : ∀ key, IsBareKey key → ReadsRootKey key marked expressions
  model : ModelIsTrimmed doc

theorem isBareKey_modelKey : IsBareKey modelKey := ⟨by decide, by decide⟩

/-- The lookup of root keys agrees with TOML, and keeps the model, if every root key is found where it is given, as a plain
string, and not found elsewhere; and only then, if no value before the headers goes over several lines. -/
theorem agrees_with_toml (laws : BareValues bare) (hread : Reads bare text expressions doc) {mark : Text} (hmark : Marks mark)
    {profile : RelayProfile} (hprofile : profile.configContents = mark ++ text) :
    (ReadsRootKeys (!mark.isEmpty) expressions doc → AgreesWithToml profile doc) ∧
      (OnOneLine expressions → AgreesWithToml profile doc → ReadsRootKeys (!mark.isEmpty) expressions doc) := by
  constructor
  · intro h
    have hkeys : ∀ key, IsBareKey key → AgreesAtRoot profile.configContents key doc := by
      intro key hkey
      rw [hprofile]
      exact agrees_of_reads hread hmark hkey (h.keys key hkey)
    exact ⟨hkeys, (keepsModel_iff (hkeys modelKey isBareKey_modelKey)).mpr h.model⟩
  · intro hlines h
    refine ⟨fun key hkey => ?_, (keepsModel_iff (h.keys modelKey isBareKey_modelKey)).mp h.model⟩
    have hagrees := h.keys key hkey
    rw [hprofile] at hagrees
    exact reads_of_agrees laws hread hmark hkey hlines hagrees

/-! ## Examples -/

theorem documentText_single {statement : Statement} (h : ExpressionText bare text statement) :
    DocumentText bare text [⟨text, statement⟩] := by
  have hlast : ∀ expression : Expression, ExpressionText bare expression.text expression.statement →
      DocumentText bare expression.text [expression] := fun _ h => .last h
  exact hlast ⟨text, statement⟩ h

theorem documentText_cons {rest : Text} {statement : Statement} (h : ExpressionText bare text statement)
    (hrest : DocumentText bare rest expressions) :
    DocumentText bare (text ++ ['\n'] ++ rest) (⟨text, statement⟩ :: expressions) := by
  have hline : ∀ expression : Expression, ExpressionText bare expression.text expression.statement →
      DocumentText bare (expression.text ++ ['\n'] ++ rest) (expression :: expressions) := fun _ h => .line h .lf hrest
  exact hline ⟨text, statement⟩ h

theorem reads_single {key : Text} {value : Scalar} (h : ExpressionText bare text (.keyval [] key (.scalar value))) :
    Reads bare text [⟨text, .keyval [] key (.scalar value)⟩] [(key, .scalar value)] := by
  let draft := Draft.empty.set [.key key] (.value (.scalar value))
  have hkeys : ∀ other path, draft.nodeAt ([] ++ [.key other]) path =
      (Entries.lookup other [(key, .scalar value)]).bind (Item.nodeAt path) := by
    intro other path
    rw [Entries.lookup_cons]
    by_cases hother : key = other
    · subst hother
      rw [if_pos rfl, List.nil_append, Draft.nodeAt_value (Draft.set_self _ _ _)]
      rfl
    · have hnone : draft [.key other] = none := by
        have hne : [Step.key other] ≠ [Step.key key] := by simpa using Ne.symm hother
        exact Draft.set_ne hne _ _
      rw [if_neg hother, List.nil_append, Draft.nodeAt_none hnone]
      rfl
  have hdenotes : draft.Denotes [(key, .scalar value)] :=
    fun path => (Draft.nodeAt_table rfl (fun _ => rfl) hkeys path).symm
  exact ⟨documentText_single h, draft, rfl, hdenotes⟩

def noBare : Text → Scalar → Prop := fun _ _ => False

theorem bareValues_noBare : BareValues noBare where
  ne_nil _ _ h := h.elim
  chars _ _ h := h.elim
  first _ _ h := h.elim
  last _ _ h := h.elim
  not_string _ _ h := h.elim

def plainModel : Text := "model = \"gpt\"".toList

def commentedModel : Text := "model = \"gpt\" # the default".toList

def modelStatement : Statement := .keyval [] modelKey (.scalar (.string "gpt".toList))

def modelTable : Table := [(modelKey, .scalar (.string "gpt".toList))]

theorem blank_space : Blank [' '] := by
  intro c hc
  rw [List.mem_singleton.mp hc]
  rfl

theorem keyvalText_model {trail : Text} (htrail : Blank trail) : KeyvalText noBare (plainModel ++ trail) modelStatement := by
  have hvalue : ValueText noBare ('"' :: "gpt".toList ++ ['"']) (.scalar (.string "gpt".toList)) :=
    .string (.basic (.char (by decide) (.char (by decide) (.char (by decide) .nil))))
  exact .keyval (.single (.bare isBareKey_modelKey)) blank_space blank_space hvalue htrail

theorem plainModel_expression : ExpressionText noBare plainModel modelStatement :=
  .keyval Blank.nil (keyvalText_model Blank.nil) .none

theorem commentedModel_expression : ExpressionText noBare commentedModel modelStatement := by
  have hcomment : Comment ('#' :: " the default".toList) := .some (by decide)
  exact .keyval Blank.nil (keyvalText_model blank_space) hcomment

/-! A document with a comment, a value over three lines, the model and a header -/

def tuiKey : Text := "tui".toList

def notificationsKey : Text := "notifications".toList

def windowsKey : Text := "windows".toList

def doneItems : Item := .array [.scalar (.string "done".toList)]

def plainExpressions : List Expression :=
  [⟨"# Codex".toList, .blank⟩, ⟨"tui.notifications = [\n  \"done\"\n]".toList, .keyval [tuiKey] notificationsKey doneItems⟩,
    ⟨plainModel, modelStatement⟩, ⟨"[windows]".toList, .table [] windowsKey⟩]

def plainDocument : Text := "# Codex\ntui.notifications = [\n  \"done\"\n]\nmodel = \"gpt\"\n[windows]".toList

def plainTable : Table :=
  [(tuiKey, .table [(notificationsKey, doneItems)]), (modelKey, .scalar (.string "gpt".toList)), (windowsKey, .table [])]

theorem tuiName : KeyText "tui.notifications".toList [tuiKey] notificationsKey := by
  have htui : IsBareKey tuiKey := ⟨by decide, by decide⟩
  have hnotifications : IsBareKey notificationsKey := ⟨by decide, by decide⟩
  exact .dotted (.bare htui) Blank.nil Blank.nil (.single (.bare hnotifications))

theorem plainDocument_text : DocumentText noBare plainDocument plainExpressions := by
  have hcomment : ExpressionText noBare "# Codex".toList .blank := .blank Blank.nil (.some (by decide))
  have hdone : ValueText noBare "\"done\"".toList (.scalar (.string "done".toList)) :=
    .string (.basic (.char (by decide) (.char (by decide) (.char (by decide) (.char (by decide) .nil)))))
  have hbefore : Gap "\n  ".toList := .line Blank.nil .none .lf (.blank (by unfold Blank; decide))
  have hafter : Gap ['\n'] := .line Blank.nil .none .lf (.blank Blank.nil)
  have hitems : ValueText noBare "[\n  \"done\"\n]".toList doneItems := .array (.last hbefore hdone hafter)
  have hnotifications : ExpressionText noBare "tui.notifications = [\n  \"done\"\n]".toList
      (.keyval [tuiKey] notificationsKey doneItems) :=
    .keyval Blank.nil (.keyval tuiName blank_space blank_space hitems Blank.nil) .none
  have hwindows : IsBareKey windowsKey := ⟨by decide, by decide⟩
  have hheader : ExpressionText noBare "[windows]".toList (.table [] windowsKey) :=
    .table Blank.nil Blank.nil (.single (.bare hwindows)) Blank.nil Blank.nil .none
  have hlines : plainDocument = "# Codex".toList ++ ['\n'] ++ ("tui.notifications = [\n  \"done\"\n]".toList ++ ['\n'] ++
      (plainModel ++ ['\n'] ++ "[windows]".toList)) := by decide +kernel
  rw [hlines]
  exact documentText_cons hcomment (documentText_cons hnotifications
    (documentText_cons plainModel_expression (documentText_single hheader)))

def plainDraft : Draft :=
  (((Draft.empty.set [.key tuiKey] (.table .dotted)).set [.key tuiKey, .key notificationsKey] (.value doneItems)).set
    [.key modelKey] (.value (.scalar (.string "gpt".toList)))).set [.key windowsKey] (.table .explicit)

theorem plainDocument_reads : Reads noBare plainDocument plainExpressions plainTable := by
  have hnames : tuiKey ≠ modelKey ∧ tuiKey ≠ windowsKey ∧ modelKey ≠ windowsKey := by decide
  have htui : ∀ other path, plainDraft.nodeAt ([.key tuiKey] ++ [.key other]) path =
      (Entries.lookup other [(notificationsKey, doneItems)]).bind (Item.nodeAt path) := by
    intro other path
    rw [Entries.lookup_cons]
    by_cases hother : notificationsKey = other
    · subst hother
      have hvalue : plainDraft ([.key tuiKey] ++ [.key notificationsKey]) = some (.value doneItems) := by
        simp [plainDraft, Draft.set]
      rw [if_pos rfl, Draft.nodeAt_value hvalue]
      rfl
    · have hnone : plainDraft ([.key tuiKey] ++ [.key other]) = none := by
        simp [plainDraft, Draft.set, Draft.empty, Ne.symm hother]
      rw [if_neg hother, Draft.nodeAt_none hnone]
      rfl
  have hwindows : ∀ other path, plainDraft.nodeAt ([.key windowsKey] ++ [.key other]) path =
      (Entries.lookup other ([] : Table)).bind (Item.nodeAt path) := by
    intro other path
    have hnone : plainDraft ([.key windowsKey] ++ [.key other]) = none := by
      simp [plainDraft, Draft.set, Draft.empty, Ne.symm hnames.2.1]
    rw [Draft.nodeAt_none hnone]
    rfl
  have hindex : ∀ key i, plainDraft ([.key key] ++ [.index i]) = none := by
    intro key i
    simp [plainDraft, Draft.set, Draft.empty]
  have hkeys : ∀ other path, plainDraft.nodeAt ([] ++ [.key other]) path =
      (Entries.lookup other plainTable).bind (Item.nodeAt path) := by
    intro other path
    rw [plainTable, Entries.lookup_cons, Entries.lookup_cons, Entries.lookup_cons]
    split_ifs with hother hother' hother''
    · subst hother
      exact Draft.nodeAt_table rfl (hindex _) htui path
    · subst hother'
      exact Draft.nodeAt_value rfl path
    · subst hother''
      exact Draft.nodeAt_table rfl (hindex _) hwindows path
    · have hnone : plainDraft ([] ++ [.key other]) = none := by
        simp [plainDraft, Draft.set, Draft.empty, Ne.symm hother, Ne.symm hother', Ne.symm hother'']
      exact Draft.nodeAt_none hnone path
  refine ⟨plainDocument_text, plainDraft, rfl, fun path => ?_⟩
  exact (Draft.nodeAt_table rfl (fun i => by simp [plainDraft, Draft.set, Draft.empty]) hkeys path).symm

theorem plainDocument_readsRootKeys : ReadsRootKeys false plainExpressions plainTable := by
  constructor
  · intro key hkey
    have hplain : ReadsRootKey key false [⟨plainModel, modelStatement⟩, ⟨"[windows]".toList, .table [] windowsKey⟩] := by
      by_cases hmodel : key = modelKey
      · subst hmodel
        exact .plain rfl ⟨[], [' '], [' '], [], '"', Blank.nil, blank_space, blank_space, Blank.nil, .inl rfl,
          by decide, by decide⟩
      · refine .passed rfl ?_ (fun _ => not_spells hkey rfl ?_) (List.forall_mem_nil _) (.header rfl)
        · rintro ⟨value, hstatement⟩
          cases hstatement
          exact hmodel rfl
        · have hscan := scanLine_keyval (.single (.bare isBareKey_modelKey)) blank_space hkey " \"gpt\"".toList
          rwa [if_neg (Ne.symm hmodel)] at hscan
    refine .passed rfl ?_ (fun _ => not_spells hkey rfl rfl) (List.forall_mem_nil _)
      (.passed rfl ?_ (fun _ => not_spells hkey rfl ?_) ?_ hplain)
    · rintro ⟨value, hstatement⟩
      cases hstatement
    · rintro ⟨value, hstatement⟩
      cases hstatement
    · have hscan := scanLine_keyval tuiName blank_space hkey " [".toList
      rwa [if_neg] at hscan
      rintro rfl
      exact absurd hkey.2 (by decide)
    · have hnoEquals : ∀ line ∈ ["\"done\"".toList, "]".toList], Text.startsWith '[' line = false ∧ '=' ∉ line := by decide
      intro line hline
      obtain ⟨hstart, hequals⟩ := hnoEquals line hline
      refine ⟨hstart, ?_⟩
      rintro ⟨-, name, value, rfl, -⟩
      exact hequals (by simp)
  · intro model hlookup _ _
    cases hlookup
    decide

/-- A document in which the model is written plainly is read as TOML, and keeps its model. -/
theorem plainModel_agrees : AgreesWithToml { configContents := plainDocument } plainTable := by
  have hmark : Marks [] := fun _ hc => by cases hc
  exact (agrees_with_toml bareValues_noBare plainDocument_reads hmark rfl).1 plainDocument_readsRootKeys

/-- A comment behind the model is taken for a part of it, and the configuration is completed with that. -/
theorem commentedModel_rewritten :
    Reads noBare commentedModel [⟨commentedModel, modelStatement⟩] modelTable ∧
      ¬AgreesWithToml { configContents := commentedModel } modelTable ∧
      Entries.lookup modelKey (completeRelayProfileConfig { configContents := commentedModel } [] [] modelTable) =
        some (stringItem "\"gpt\" # the default".toList) := by
  refine ⟨reads_single commentedModel_expression, fun h => ?_, ?_⟩
  · have hfound : rootKeyString commentedModel modelKey = some "\"gpt\" # the default".toList := by decide
    have hlookup := (h.keys modelKey isBareKey_modelKey _).mp hfound
    exact absurd hlookup (by simp [modelTable, Entries.lookup_cons])
  · have hwritten : completedModel { configContents := commentedModel } = "\"gpt\" # the default".toList := by decide
    have htrim : trim "\"gpt\" # the default".toList = "\"gpt\" # the default".toList := by decide
    rw [lookup_model, hwritten, htrim]
    rfl

end Agreement

end Lumio.Config
