import Lumio.Desktop.Takeover
import Lumio.Lib.TomlIndex

/-!
# The fields of a takeover

A takeover writes a few fields of the two files. It fails where it has to go through a value that is no table, and
otherwise leaves everything beside its fields alone.
-/

namespace Lumio.Desktop

open Toml Lumio.Proxy

section Fields

variable [ConfigFormats]

open ConfigFormats

def readConfig (existing : Option Bytes) : Option Doc :=
  match existing with
  | some bytes => if (Utf8.decode bytes).2 = [] then parseToml (Utf8.decode bytes).1 else none
  | none => parseToml []

def readAuth (existing : Option Bytes) : Option (List (String × Value)) :=
  match existing with
  | some (b :: bytes) =>
    match fromSlice (b :: bytes) with
    | some (.object members) => some members
    | _ => none
  | _ => some []

def provider (key : String) : List Text := ["model_providers".toList, "lumio".toList, key.toList]

def fields (request : TakeoverRequest) : List (List Text × Text) :=
  [(["model".toList], request.model), (["model_provider".toList], "lumio".toList),
    (provider "name", "Lumio Codex".toList), (provider "base_url", request.baseUrl),
    (provider "wire_api", "responses".toList), (provider "env_key", "OPENAI_API_KEY".toList)]

def fieldPath (field : List Text × Text) : List Step := field.1.map .key

def editConfig (existing : Option Bytes) (request : TakeoverRequest) : Option Doc :=
  (readConfig existing).bind fun doc => (fields request).foldlM (fun doc field => setValue field.1 field.2 doc) doc

variable {existing : Option Bytes} {request : TakeoverRequest} {apiKey : Text}

theorem renderConfig_eq : renderConfig existing request = (editConfig existing request).map docBytes := by
  have hwrite : ∀ doc, ((fields request).foldlM (fun doc field => setValue field.1 field.2 doc) doc).map docBytes = do
      let doc ← setValue ["model".toList] request.model doc
      let doc ← setValue ["model_provider".toList] "lumio".toList doc
      let doc ← setValue (provider "name") "Lumio Codex".toList doc
      let doc ← setValue (provider "base_url") request.baseUrl doc
      let doc ← setValue (provider "wire_api") "responses".toList doc
      let doc ← setValue (provider "env_key") "OPENAI_API_KEY".toList doc
      return docBytes doc := by
    intro doc
    simp only [fields, List.foldlM_cons, List.foldlM_nil, Option.bind_eq_bind, Option.map_bind, Function.comp_def]
    rfl
  simp only [editConfig, Option.map_bind, Function.comp_def, hwrite]
  cases existing with
  | none => rfl
  | some bytes =>
    simp only [readConfig, renderConfig]
    split <;> rfl

/-! ## What is written -/

/-- The tree has the fields, tables on the way to them, and is as before everywhere else. -/
structure OnlyFields (request : TakeoverRequest) (original next : Item) : Prop where
  written : ∀ field ∈ fields request, next.nodeAt (fieldPath field) = some (.scalar (.string field.2))
  ways : ∀ field ∈ fields request, ∀ path, path <+: fieldPath field → path ≠ fieldPath field →
    next.nodeAt path = some .table ∧ ∀ node, original.nodeAt path = some node → node = .table
  others : ∀ path, (∀ field ∈ fields request, ¬fieldPath field <+: path ∧ ¬path <+: fieldPath field) →
    next.nodeAt path = original.nodeAt path

/-- What is relied on of `toml_edit`: the index goes through tables, as `assign` says, and a document that is printed is
read back with the same tree. -/
structure TomlLaws (tree : Doc → Item) (Printed : Doc → Prop) : Prop where
  is_table : ∀ doc, (tree doc).node = .table
  set_value : ∀ path text doc, path ≠ [] →
    (setValue path text doc).map tree = assign (.scalar (.string text)) path (some (tree doc))
  reads_back : ∀ doc, Printed doc → ∃ read, readConfig (some (docBytes doc)) = some read ∧ (tree read).Same (tree doc)

/-- A valid configuration is rendered; what is printed differs in the fields alone; and rendering it again yields the
same tree. -/
structure TakesOverConfig (tree : Doc → Item) (existing : Option Bytes) (request : TakeoverRequest) : Prop where
  completes : ∀ original, readConfig existing = some original → (renderConfig existing request).isSome = true
  only_fields : ∀ original bytes, readConfig existing = some original →
    renderConfig existing request = some bytes →
      ∃ read, readConfig (some bytes) = some read ∧ OnlyFields request (tree original) (tree read)
  again : ∀ bytes, renderConfig existing request = some bytes → ∃ read next reread,
    readConfig (some bytes) = some read ∧ renderConfig (some bytes) request = some next ∧
      readConfig (some next) = some reread ∧ (tree reread).Same (tree read)

structure TakesOverAuth (existing : Option Bytes) (apiKey : Text) : Prop where
  completes : ∀ members, readAuth existing = some members → (renderAuth existing apiKey).isSome = true
  only_key : ∀ members bytes, readAuth existing = some members → renderAuth existing apiKey = some bytes →
    ∃ next, readAuth (some bytes) = some next ∧ ∀ key, Entries.lookup key next =
      if key = "OPENAI_API_KEY" then some (.string apiKey) else Entries.lookup key members
  again : ∀ bytes, renderAuth existing apiKey = some bytes → ∃ next again reread, readAuth (some bytes) = some next ∧
    renderAuth (some bytes) apiKey = some again ∧ readAuth (some again) = some reread ∧
      ∀ key, Entries.lookup key reread = Entries.lookup key next

/-- What stands at the providers, and at Lumio's entry among them, is a table if anything is there. -/
def ProvidersAreTables (original : Item) : Prop :=
  ∀ path ∈ [["model_providers".toList], ["model_providers".toList, "lumio".toList]], ∀ node,
    original.nodeAt (path.map .key) = some node → node = .table

def writesOf (request : TakeoverRequest) : List (List Text × Item) :=
  (fields request).map fun field => (field.1, .scalar (.string field.2))

variable {tree : Doc → Item} {Printed : Doc → Prop}

theorem edit_tree (laws : TomlLaws tree Printed) {writes : List (List Text × Text)}
    (hne : ∀ field ∈ writes, field.1 ≠ []) (doc : Doc) :
    (writes.foldlM (fun doc field => setValue field.1 field.2 doc) doc).map tree =
      assignAll (writes.map fun field => (field.1, .scalar (.string field.2))) (tree doc) := by
  induction writes generalizing doc with
  | nil => rfl
  | cons field writes ih =>
    obtain ⟨hfirst, hrest⟩ := List.forall_mem_cons.mp hne
    rw [List.foldlM_cons, List.map_cons, assignAll, ← laws.set_value _ _ _ hfirst]
    cases setValue field.1 field.2 doc with
    | none => rfl
    | some next => exact ih hrest next

omit [ConfigFormats] in
theorem writesOf_apart (request : TakeoverRequest) :
    (writesOf request).Pairwise fun a b => ¬a.1 <+: b.1 ∧ ¬b.1 <+: a.1 := by
  have hkeys : ((writesOf request).map (·.1)).Pairwise fun a b => ¬a <+: b ∧ ¬b <+: a := by
    change [["model".toList], ["model_provider".toList], provider "name", provider "base_url", provider "wire_api",
      provider "env_key"].Pairwise _
    decide
  exact List.pairwise_map.mp hkeys

theorem editConfig_tree (laws : TomlLaws tree Printed) (request : TakeoverRequest) {original : Doc}
    (h : readConfig existing = some original) :
    (editConfig existing request).map tree = assignAll (writesOf request) (tree original) := by
  rw [editConfig, h, Option.bind_some]
  refine edit_tree laws ?_ original
  intro field hfield
  simp only [fields, provider, List.mem_cons, List.not_mem_nil, or_false] at hfield
  rcases hfield with rfl | rfl | rfl | rfl | rfl | rfl <;> exact List.cons_ne_nil _ _

theorem isSome_editConfig_iff (laws : TomlLaws tree Printed) {original : Doc} (h : readConfig existing = some original) :
    (editConfig existing request).isSome = true ↔ ProvidersAreTables (tree original) := by
  have htop : ∀ node, nodeIn (some (tree original)) [] = some node → node = .table := by
    rintro node ⟨⟩
    exact laws.is_table original
  rw [← Option.isSome_map (f := tree), editConfig_tree laws request h,
    isSome_assignAll_iff ((writesOf_apart request).imp fun h => h.1)]
  constructor
  · intro hclear path hpath node hnode
    have hname := hclear (provider "name", .scalar (.string "Lumio Codex".toList)) (by simp [writesOf, fields])
    refine hname _ node ?_ ?_ hnode
    · rcases List.mem_pair.mp hpath with rfl | rfl <;> exact key_prefix_iff.mpr (by decide)
    · rcases List.mem_pair.mp hpath with rfl | rfl <;> exact fun h => absurd (congrArg List.length h) (by decide)
  · intro hproviders write hwrite path node hprefix hne hnode
    have hpath : path = (write.1.take path.length).map Step.key := by
      rw [List.map_take]
      exact List.prefix_iff_eq_take.mp hprefix
    have hlen : path.length < write.1.length := by
      refine lt_of_le_of_ne (by simpa using hprefix.length_le) fun heq => hne ?_
      exact hprefix.eq_of_length (by simpa using heq)
    have hkeys : write.1.length = 1 ∨ ∃ key, write.1 = provider key := by
      obtain ⟨field, hfield, rfl⟩ := List.mem_map.mp hwrite
      simp only [fields, List.mem_cons, List.not_mem_nil, or_false] at hfield
      rcases hfield with rfl | rfl | rfl | rfl | rfl | rfl
      · exact .inl rfl
      · exact .inl rfl
      all_goals exact .inr ⟨_, rfl⟩
    generalize hn : path.length = n at hpath hlen
    rcases n with _ | n
    · rw [hpath] at hnode
      exact htop node hnode
    · rcases hkeys with hone | ⟨key, hkeys⟩
      · omega
      · rw [hkeys] at hpath hlen
        have hn : n = 0 ∨ n = 1 := by
          have : (provider key).length = 3 := rfl
          omega
        rw [hpath] at hnode
        rcases hn with rfl | rfl
        · exact hproviders _ (List.mem_cons_self ..) node hnode
        · exact hproviders _ (List.mem_cons_of_mem _ (List.mem_cons_self ..)) node hnode

omit [ConfigFormats] in
theorem onlyFields_assignAll {original next : Item} (h : assignAll (writesOf request) original = some next) :
    OnlyFields request original next := by
  have hclear := (isSome_assignAll_iff ((writesOf_apart request).imp fun h => h.1)).mp (Option.isSome_of_eq_some h)
  have hmem : ∀ field ∈ fields request, (field.1, Item.scalar (.string field.2)) ∈ writesOf request :=
    fun field hfield => List.mem_map_of_mem hfield
  refine ⟨fun field hfield => ?_, fun field hfield path hway hne => ⟨?_, ?_⟩, fun path hbeside => ?_⟩
  · rw [nodeAt_assignAll h]
    exact writtenAll_at (writesOf_apart request) (hmem field hfield)
  · rw [nodeAt_assignAll h]
    refine writtenAll_way (fun write hwrite hat => ?_) (.inr ⟨_, hmem field hfield, hway⟩)
    have hprefix : write.1 <+: field.1 := key_prefix_iff.mp (hat.trans hway)
    have hsame : write = (field.1, Item.scalar (.string field.2)) :=
      List.Pairwise.forall_of_forall_of_flip (R := fun a b => a.1 <+: b.1 → a = b) (fun _ _ _ => rfl)
        ((writesOf_apart request).imp fun h hp => absurd hp h.1) ((writesOf_apart request).imp fun h hp => absurd hp h.2)
        hwrite (hmem field hfield) hprefix
    rw [hsame] at hat
    exact hne (hway.eq_of_length_le hat.length_le)
  · exact fun node hnode => hclear _ (hmem field hfield) path node hway hne hnode
  · rw [nodeAt_assignAll h]
    refine writtenAll_beside fun write hwrite => ?_
    obtain ⟨field, hfield, rfl⟩ := List.mem_map.mp hwrite
    exact hbeside field hfield

omit [ConfigFormats] in
theorem lookup_insertMember (key : String) (value : Value) (members : List (String × Value)) (other : String) :
    Entries.lookup other (insertMember key value members) =
      if other = key then some value else Entries.lookup other members := by
  have hput : insertMember key value members = Entries.put key value members := rfl
  rw [hput]
  split
  · rename_i heq
    rw [heq, Entries.lookup_put_self]
  · rename_i hne
    rw [Entries.lookup_put_ne hne]

def editAuth (existing : Option Bytes) (apiKey : Text) : Option (List (String × Value)) :=
  (readAuth existing).map (insertMember "OPENAI_API_KEY" (.string apiKey))

theorem renderAuth_eq :
    renderAuth existing apiKey = (editAuth existing apiKey).map fun members => prettyBytes (.object members) := by
  match existing with
  | none | some [] => rfl
  | some (b :: bytes) =>
    simp only [renderAuth, editAuth, readAuth]
    generalize fromSlice (b :: bytes) = parsed
    cases parsed with
    | none => rfl
    | some value => cases value <;> rfl

theorem takesOverAuth (hjson : ∀ existing members, editAuth existing apiKey = some members →
    readAuth (some (prettyBytes (.object members))) = some members) : TakesOverAuth existing apiKey := by
  have hread : ∀ existing bytes, renderAuth existing apiKey = some bytes →
      ∃ members, editAuth existing apiKey = some members ∧ readAuth (some bytes) = some members := by
    intro existing bytes h
    rw [renderAuth_eq] at h
    obtain ⟨members, hmembers, rfl⟩ := Option.map_eq_some_iff.mp h
    exact ⟨members, hmembers, hjson existing members hmembers⟩
  refine ⟨fun members hmembers => ?_, fun members bytes hmembers h => ?_, fun bytes h => ?_⟩
  · rw [renderAuth_eq, editAuth, hmembers]
    rfl
  · obtain ⟨next, hnext, hback⟩ := hread existing bytes h
    rw [editAuth, hmembers] at hnext
    cases hnext
    exact ⟨_, hback, lookup_insertMember _ _ _⟩
  · obtain ⟨next, hnext, hback⟩ := hread existing bytes h
    have hagain : editAuth (some bytes) apiKey = some (insertMember "OPENAI_API_KEY" (.string apiKey) next) := by
      rw [editAuth, hback]
      rfl
    refine ⟨next, _, _, hback, ?_, hjson _ _ hagain, fun key => ?_⟩
    · rw [renderAuth_eq, hagain]
      rfl
    · obtain ⟨members, -, rfl⟩ := Option.map_eq_some_iff.mp hnext
      rw [lookup_insertMember, lookup_insertMember]
      split <;> rfl

end Fields

/-! ## An example -/

namespace TakeoverSample

def request : TakeoverRequest := ⟨"gpt".toList, "sk".toList, "https://api".toList⟩

def string (text : String) : Item := .scalar (.string text.toList)

def lumio : Item :=
  .inlineTable [("name".toList, string "Lumio Codex"), ("base_url".toList, string "https://api"),
    ("wire_api".toList, string "responses"), ("env_key".toList, string "OPENAI_API_KEY")]

def lumioText : Text :=
  "\x7b name = \"Lumio Codex\", base_url = \"https://api\", wire_api = \"responses\", env_key = \"OPENAI_API_KEY\" \x7d".toList

/-- A configuration with keys and a provider of the user's own, and what the takeover makes of it. -/
def user : Toml.Table :=
  [("model".toList, string "o3"), ("approval".toList, string "never"),
    ("model_providers".toList, .table [("mine".toList, .table [("name".toList, string "m")])])]

def taken : Toml.Table :=
  [("model".toList, string "gpt"), ("approval".toList, string "never"),
    ("model_providers".toList, .table [("mine".toList, .table [("name".toList, string "m")]), ("lumio".toList, lumio)]),
    ("model_provider".toList, string "lumio")]

def fresh : Toml.Table :=
  [("model".toList, string "gpt"), ("model_provider".toList, string "lumio"),
    ("model_providers".toList, .inlineTable [("lumio".toList, lumio)])]

def broken : Toml.Table := [("model_providers".toList, string "none")]

def userText : Text := "model = \"o3\"\napproval = \"never\"\n\n[model_providers.mine]\nname = \"m\"\n".toList

def takenText : Text :=
  "model = \"gpt\"\napproval = \"never\"\nmodel_provider = \"lumio\"\n\n[model_providers]\nlumio = ".toList ++ lumioText ++
    "\n\n[model_providers.mine]\nname = \"m\"\n".toList

def freshText : Text :=
  "model = \"gpt\"\nmodel_provider = \"lumio\"\nmodel_providers = \x7b lumio = ".toList ++ lumioText ++ " \x7d\n".toList

def brokenText : Text := "model_providers = \"none\"\n".toList

def documents : List (Text × Toml.Table) :=
  [([], []), (userText, user), (takenText, taken), (freshText, fresh), (brokenText, broken)]

def ownCredentials : List (String × Value) := [("mine", .string "k".toList)]

def ownBytes : Bytes := Utf8.encode "\x7b\"mine\": \"k\"\x7d".toList

def takenCredentials : List (String × Value) := [("mine", .string "k".toList), ("OPENAI_API_KEY", .string "sk".toList)]

def takenBytes : Bytes := Utf8.encode "\x7b\n  \"mine\": \"k\",\n  \"OPENAI_API_KEY\": \"sk\"\n\x7d".toList

def freshCredentials : List (String × Value) := [("OPENAI_API_KEY", .string "sk".toList)]

def freshBytes : Bytes := Utf8.encode "\x7b\n  \"OPENAI_API_KEY\": \"sk\"\n\x7d".toList

def objects : List (Bytes × List (String × Value)) :=
  [(ownBytes, ownCredentials), (takenBytes, takenCredentials), (freshBytes, freshCredentials)]

abbrev formats : ConfigFormats where
  Doc := Toml.Table
  parseToml text := Entries.lookup text documents
  setValue path text doc := (assign (.scalar (.string text)) path (some (.table doc))).bind Item.tableLike
  docBytes doc := Utf8.encode (if (Entries.lookup "approval".toList doc).isSome then takenText else freshText)
  fromSlice bytes := (Entries.lookup bytes objects).map .object
  prettyBytes value := if (value.get "mine").isSome then takenBytes else freshBytes
  sha256 _ := []
  encodeManifest _ := []
  decodeManifest _ := none

theorem readConfig_text {text : Text} :
    @readConfig formats (some (Utf8.encode text)) = Entries.lookup text documents := by
  simp only [readConfig, Utf8.decode_encode, if_true]
  rfl

theorem mem_documents {existing : Option Bytes} {original : Toml.Table}
    (h : @readConfig formats existing = some original) : original ∈ [[], user, taken, fresh, broken] := by
  have hlookup : ∀ {text : Text}, Entries.lookup text documents = some original →
      original ∈ [[], user, taken, fresh, broken] := by
    intro text hlookup
    exact List.mem_map_of_mem (f := Prod.snd) (Entries.mem_of_lookup hlookup)
  cases existing with
  | none =>
    change Entries.lookup [] documents = some original at h
    exact hlookup h
  | some bytes =>
    simp only [readConfig] at h
    split at h
    · exact hlookup h
    · cases h

theorem texts_nodup : (documents.map (·.1)).Nodup := by decide +kernel

theorem laws : @TomlLaws formats Item.table fun doc => doc = taken ∨ doc = fresh := by
  refine @TomlLaws.mk formats _ _ (fun _ => rfl) (fun path text doc hne => ?_) fun doc hdoc => ?_
  · cases path with
    | nil => exact absurd rfl hne
    | cons key path =>
      change ((assign _ (key :: path) _).bind Item.tableLike).map Item.table = _
      simp only [assign]
      cases assign (.scalar (.string text)) path (Entries.lookup key doc) <;> rfl
  · refine ⟨doc, readConfig_text.trans (Entries.lookup_of_mem texts_nodup ?_), fun _ => rfl⟩
    rcases hdoc with rfl | rfl
    · exact .tail _ (.tail _ (.head _))
    · exact .tail _ (.tail _ (.tail _ (.head _)))

theorem printed (existing : Option Bytes) (doc : Toml.Table)
    (h : @editConfig formats existing request = some doc) : doc = taken ∨ doc = fresh := by
  obtain ⟨original, horiginal, hedit⟩ := Option.bind_eq_some_iff.mp h
  have hmem := mem_documents horiginal
  simp only [List.mem_cons, List.not_mem_nil, or_false] at hmem
  rcases hmem with rfl | rfl | rfl | rfl | rfl
  · exact .inr (Option.some.inj hedit).symm
  · exact .inl (Option.some.inj hedit).symm
  · exact .inl (Option.some.inj hedit).symm
  · exact .inr (Option.some.inj hedit).symm
  · cases hedit

theorem fromSlice_eq (bytes : Bytes) :
    @ConfigFormats.fromSlice formats bytes = (Entries.lookup bytes objects).map Value.object := rfl

theorem readAuth_of_mem {bytes : Bytes} {members : List (String × Value)} (hne : bytes ≠ [])
    (h : (bytes, members) ∈ objects) : @readAuth formats (some bytes) = some members := by
  have hnodup : (objects.map (·.1)).Nodup := by decide +kernel
  cases bytes with
  | nil => exact absurd rfl hne
  | cons b bytes =>
    rw [@readAuth.eq_def formats]
    simp only [fromSlice_eq, Entries.lookup_of_mem hnodup h]
    rfl

theorem printed_auth (existing : Option Bytes) (members : List (String × Value))
    (h : @editAuth formats existing request.apiKey = some members) :
    @readAuth formats (some (@ConfigFormats.prettyBytes formats (.object members))) = some members := by
  have hmem : ∀ original, @readAuth formats existing = some original →
      original ∈ [[], ownCredentials, takenCredentials, freshCredentials] := by
    intro original horiginal
    match existing with
    | none | some [] =>
      cases horiginal
      exact List.mem_cons_self
    | some (b :: bytes) =>
      rw [@readAuth.eq_def formats] at horiginal
      simp only [fromSlice_eq] at horiginal
      cases hlookup : Entries.lookup (b :: bytes) objects with
      | none =>
        rw [hlookup] at horiginal
        cases horiginal
      | some found =>
        rw [hlookup] at horiginal
        cases horiginal
        exact List.mem_cons_of_mem _ (List.mem_map_of_mem (f := Prod.snd) (Entries.mem_of_lookup hlookup))
  obtain ⟨original, horiginal, rfl⟩ := Option.map_eq_some_iff.mp h
  have hmem := hmem original horiginal
  simp only [List.mem_cons, List.not_mem_nil, or_false] at hmem
  rcases hmem with rfl | rfl | rfl | rfl
  · exact readAuth_of_mem (by decide +kernel) (.tail _ (.tail _ (.head _)))
  · exact readAuth_of_mem (by decide +kernel) (.tail _ (.head _))
  · exact readAuth_of_mem (by decide +kernel) (.tail _ (.head _))
  · exact readAuth_of_mem (by decide +kernel) (.tail _ (.tail _ (.head _)))

end TakeoverSample

end Lumio.Desktop
