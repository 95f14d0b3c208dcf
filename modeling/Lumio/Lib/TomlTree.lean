import Lumio.Lib.Toml

/-!
# Statements of a TOML document

The statements of a document are carried out one after the other on a draft of its tree, which tells for every path what
was defined there and how. A table is defined once, by a header or by dotted keys.
-/

namespace Toml

inductive Statement where
  | blank
  | keyval (dotted : List Text) (key : Text) (item : Item)
  | table (parents : List Text) (key : Text)
  | arrayTable (parents : List Text) (key : Text)

/-- How a table was defined: under the header of another table, by a dotted key, or by a header of its own. -/
inductive Origin where
  | implicit
  | dotted
  | explicit
deriving DecidableEq

/-- What is defined at a path. Of an array of tables the index of the last one is known. -/
inductive Entry where
  | value (item : Item)
  | table (origin : Origin)
  | tables (last : Nat)

abbrev Draft := List Step → Option Entry

namespace Draft

def empty : Draft := fun path => if path = [] then some (.table .explicit) else none

def set (path : List Step) (entry : Entry) (draft : Draft) : Draft :=
  fun other => if other = path then some entry else draft other

/-- Goes down a path of keys, into the last table of an array of tables, and defines the tables that are not there. -/
def descend (origin : Origin) (here : List Step) : List Text → Draft → Option (List Step × Draft)
  | [], draft => some (here, draft)
  | key :: keys, draft =>
    match draft (here ++ [Step.key key]) with
    | none => descend origin (here ++ [Step.key key]) keys (draft.set (here ++ [Step.key key]) (.table origin))
    | some (.value _) => none
    | some (.tables last) => descend origin (here ++ [Step.key key, .index last]) keys draft
    | some (.table found) =>
      if origin = .dotted ∧ found = .explicit then none else descend origin (here ++ [Step.key key]) keys draft

def isDotted : Option Entry → Bool
  | some (.table .dotted) => true
  | _ => false

def defineValue (here : List Step) (dotted : List Text) (key : Text) (item : Item) (draft : Draft) : Option Draft :=
  match descend .dotted here dotted draft with
  | none => none
  | some (table, next) =>
    if isDotted (next table) = dotted.isEmpty then none
    else if (next (table ++ [Step.key key])).isSome then none
    else some (next.set (table ++ [Step.key key]) (.value item))

def defineTable (parents : List Text) (key : Text) (draft : Draft) : Option (List Step × Draft) :=
  match descend .implicit [] parents draft with
  | none => none
  | some (parent, next) =>
    match next (parent ++ [Step.key key]) with
    | none => some (parent ++ [Step.key key], next.set (parent ++ [Step.key key]) (.table .explicit))
    | some (.table .implicit) => some (parent ++ [Step.key key], next.set (parent ++ [Step.key key]) (.table .explicit))
    | some _ => none

def defineArrayTable (parents : List Text) (key : Text) (draft : Draft) : Option (List Step × Draft) :=
  match descend .implicit [] parents draft with
  | none => none
  | some (parent, next) =>
    match next (parent ++ [Step.key key]) with
    | none =>
      some (parent ++ [Step.key key, .index 0],
        (next.set (parent ++ [Step.key key]) (.tables 0)).set (parent ++ [Step.key key, .index 0]) (.table .explicit))
    | some (.tables last) =>
      some (parent ++ [Step.key key, .index (last + 1)],
        (next.set (parent ++ [Step.key key]) (.tables (last + 1))).set (parent ++ [Step.key key, .index (last + 1)])
          (.table .explicit))
    | some _ => none

/-- Carries out a statement in the table of the last header. -/
def define (here : List Step) (draft : Draft) : Statement → Option (List Step × Draft)
  | .blank => some (here, draft)
  | .keyval dotted key item => (defineValue here dotted key item draft).map fun next => (here, next)
  | .table parents key => defineTable parents key draft
  | .arrayTable parents key => defineArrayTable parents key draft

def defineAll (here : List Step) (draft : Draft) : List Statement → Option (List Step × Draft)
  | [] => some (here, draft)
  | statement :: statements =>
    match define here draft statement with
    | none => none
    | some (here, draft) => defineAll here draft statements

end Draft

def build (statements : List Statement) : Option Draft := (Draft.defineAll [] .empty statements).map (·.2)

def Entry.node : Entry → Node
  | .value item => item.node
  | .table _ => .table
  | .tables last => .array (last + 1)

/-- What a draft says at a path below another one. -/
def Draft.nodeAt (draft : Draft) (here : List Step) : List Step → Option Node
  | [] => (draft here).map Entry.node
  | step :: path =>
    match draft here with
    | none => none
    | some (.value item) => item.nodeAt (step :: path)
    | some _ => Draft.nodeAt draft (here ++ [step]) path

def Draft.Denotes (draft : Draft) (doc : Table) : Prop := ∀ path, (Item.table doc).nodeAt path = draft.nodeAt [] path

namespace Draft

variable {here : List Step} {draft : Draft}

theorem nodeAt_none (h : draft here = none) (path : List Step) : draft.nodeAt here path = none := by
  cases path with
  | nil => rw [nodeAt, h, Option.map_none]
  | cons step path => rw [nodeAt, h]

theorem nodeAt_value {item : Item} (h : draft here = some (.value item)) (path : List Step) :
    draft.nodeAt here path = item.nodeAt path := by
  cases path with
  | nil =>
    rw [nodeAt, h]
    rfl
  | cons step path => rw [nodeAt, h]

/-- A table is what its keys are. -/
theorem nodeAt_table {origin : Origin} {entries : Table} (h : draft here = some (.table origin))
    (hindex : ∀ i, draft (here ++ [.index i]) = none)
    (hkeys : ∀ key path, draft.nodeAt (here ++ [.key key]) path = (Entries.lookup key entries).bind (Item.nodeAt path))
    (path : List Step) : draft.nodeAt here path = (Item.table entries).nodeAt path := by
  cases path with
  | nil =>
    rw [nodeAt, h]
    rfl
  | cons step path =>
    have hstep : draft.nodeAt here (step :: path) = draft.nodeAt (here ++ [step]) path := by rw [nodeAt, h]
    rw [hstep]
    cases step with
    | key key => exact hkeys key path
    | index i => exact nodeAt_none (hindex i) path

end Draft

/-! ## Where a statement defines something -/

namespace Draft

variable {origin : Origin} {here table path : List Step} {keys : List Text} {key : Text} {item : Item}
  {draft next : Draft} {entry : Entry}

@[simp] theorem set_self (path : List Step) (entry : Entry) (draft : Draft) : draft.set path entry path = some entry :=
  if_pos rfl

theorem set_ne {other : List Step} (h : other ≠ path) (entry : Entry) (draft : Draft) :
    draft.set path entry other = draft other := if_neg h

/-- Going down defines tables only where nothing was defined, and below where it starts. -/
theorem descend_spec (h : descend origin here keys draft = some (table, next)) :
    (∃ rest, table = here ++ rest ∧ keys.length ≤ rest.length) ∧
      ∀ path, next path = draft path ∨
        (draft path = none ∧ next path = some (.table origin) ∧ here.length < path.length ∧ here <+: path) := by
  induction keys generalizing here draft with
  | nil =>
    cases h
    exact ⟨⟨[], (List.append_nil _).symm, le_rfl⟩, fun _ => .inl rfl⟩
  | cons key keys ih =>
    have hdeeper : ∀ {below : List Step} {path : List Step}, here ++ Step.key key :: below <+: path →
        here.length < path.length ∧ here <+: path := by
      intro below path hprefix
      refine ⟨?_, (List.prefix_append here _).trans hprefix⟩
      have hlength := hprefix.length_le
      rw [List.length_append, List.length_cons] at hlength
      omega
    rw [descend] at h
    split at h
    · rename_i hnone
      obtain ⟨⟨rest, rfl, hlength⟩, hpaths⟩ := ih h
      refine ⟨⟨.key key :: rest, by simp, by simpa using hlength⟩, fun path => ?_⟩
      rcases hpaths path with hsame | ⟨hpath, hnext, -, hprefix⟩
      · by_cases hhere : path = here ++ [Step.key key]
        · subst hhere
          rw [hsame, set_self]
          exact .inr ⟨hnone, rfl, by simp, List.prefix_append here _⟩
        · rw [hsame, set_ne hhere]
          exact .inl rfl
      · have hne : path ≠ here ++ [Step.key key] := by
          rintro rfl
          rw [set_self] at hpath
          cases hpath
        rw [set_ne hne] at hpath
        exact .inr ⟨hpath, hnext, hdeeper hprefix⟩
    · cases h
    · rename_i last hlast
      obtain ⟨⟨rest, rfl, hlength⟩, hpaths⟩ := ih h
      refine ⟨⟨.key key :: .index last :: rest, by simp, by simp only [List.length_cons]; omega⟩, fun path => ?_⟩
      rcases hpaths path with hsame | ⟨hpath, hnext, -, hprefix⟩
      · exact .inl hsame
      · exact .inr ⟨hpath, hnext, hdeeper hprefix⟩
    · split at h
      · cases h
      · obtain ⟨⟨rest, rfl, hlength⟩, hpaths⟩ := ih h
        refine ⟨⟨.key key :: rest, by simp, by simpa using hlength⟩, fun path => ?_⟩
        rcases hpaths path with hsame | ⟨hpath, hnext, -, hprefix⟩
        · exact .inl hsame
        · exact .inr ⟨hpath, hnext, hdeeper hprefix⟩

theorem descend_value_iff (h : descend origin here keys draft = some (table, next)) (path : List Step) :
    next path = some (.value item) ↔ draft path = some (.value item) := by
  rcases (descend_spec h).2 path with hsame | ⟨hnone, htable, -⟩
  · rw [hsame]
  · simp [hnone, htable]

theorem defineValue_spec {dotted : List Text} (h : defineValue here dotted key item draft = some next) :
    ∃ (table : List Step) (between : Draft), descend .dotted here dotted draft = some (table, between) ∧
      isDotted (between table) = !dotted.isEmpty ∧ between (table ++ [Step.key key]) = none ∧
      next = between.set (table ++ [Step.key key]) (.value item) := by
  unfold defineValue at h
  split at h
  · cases h
  · rename_i table between hdescend
    split_ifs at h with hmixed hsome
    cases h
    refine ⟨table, between, hdescend, ?_, by simpa using hsome, rfl⟩
    cases hdotted : isDotted (between table) <;> cases hempty : dotted.isEmpty <;> simp_all

theorem defineTable_spec {parents : List Text} (h : defineTable parents key draft = some (here, next)) :
    ∃ (parent : List Step) (between : Draft), descend .implicit [] parents draft = some (parent, between) ∧ here = parent ++ [Step.key key] ∧
      (between here = none ∨ between here = some (.table .implicit)) ∧ next = between.set here (.table .explicit) := by
  unfold defineTable at h
  split at h
  · cases h
  · rename_i parent between hdescend
    split at h
    · rename_i hnone
      cases h
      exact ⟨parent, between, hdescend, rfl, .inl hnone, rfl⟩
    · rename_i himplicit
      cases h
      exact ⟨parent, between, hdescend, rfl, .inr himplicit, rfl⟩
    · cases h

theorem defineArrayTable_spec {parents : List Text} (h : defineArrayTable parents key draft = some (here, next)) :
    ∃ (parent : List Step) (between : Draft) (last : Nat), descend .implicit [] parents draft = some (parent, between) ∧
      here = parent ++ [Step.key key, .index last] ∧
      (between (parent ++ [Step.key key]) = none ∧ last = 0 ∨
        ∃ before, between (parent ++ [Step.key key]) = some (.tables before) ∧ last = before + 1) ∧
      next = (between.set (parent ++ [Step.key key]) (.tables last)).set here (.table .explicit) := by
  unfold defineArrayTable at h
  split at h
  · cases h
  · rename_i parent between hdescend
    split at h
    · rename_i hnone
      cases h
      exact ⟨parent, between, 0, hdescend, rfl, .inl ⟨hnone, rfl⟩, rfl⟩
    · rename_i last htables
      cases h
      exact ⟨parent, between, last + 1, hdescend, rfl, .inr ⟨last, htables, rfl⟩, rfl⟩
    · cases h

theorem define_root_value_iff {statement : Statement} {after : List Step}
    (h : define here draft statement = some (after, next)) (k : Text) (value : Item) :
    next [.key k] = some (.value value) ↔
      draft [.key k] = some (.value value) ∨ (here = [] ∧ statement = .keyval [] k value) := by
  cases statement with
  | blank =>
    cases h
    simp
  | keyval dotted key item =>
    obtain ⟨result, hvalue, hresult⟩ := Option.map_eq_some_iff.mp h
    cases hresult
    obtain ⟨table, between, hdescend, -, hnone, rfl⟩ := defineValue_spec hvalue
    obtain ⟨⟨rest, rfl, hlength⟩, -⟩ := descend_spec hdescend
    rw [← descend_value_iff hdescend]
    by_cases hpath : [Step.key k] = here ++ rest ++ [Step.key key]
    · have hparts : here = [] ∧ rest = [] ∧ k = key := by
        cases here with
        | nil =>
          cases rest with
          | nil => simpa using hpath
          | cons step rest =>
            have hlengths := congrArg List.length hpath
            simp at hlengths
        | cons step here =>
          have hlengths := congrArg List.length hpath
          simp at hlengths
      obtain ⟨rfl, rfl, rfl⟩ := hparts
      have hdotted : dotted = [] := List.length_eq_zero_iff.mp (by simpa using hlength)
      subst hdotted
      have hpathNone : between [.key k] = none := hnone
      have hset : between.set ([] ++ [] ++ [Step.key k]) (.value item) [.key k] = some (.value item) := set_self _ _ _
      rw [hset, hpathNone]
      simp
    · rw [set_ne hpath]
      refine ⟨.inl, ?_⟩
      rintro (hsome | ⟨rfl, hstatement⟩)
      · exact hsome
      · cases hstatement
        cases hdescend
        exact absurd rfl hpath
  | table parents key =>
    obtain ⟨parent, between, hdescend, rfl, hbefore, rfl⟩ := defineTable_spec h
    rw [← descend_value_iff hdescend]
    by_cases hpath : [Step.key k] = parent ++ [Step.key key]
    · rw [hpath, set_self]
      rcases hbefore with hbefore | hbefore <;> simp [hbefore]
    · simp [set_ne hpath]
  | arrayTable parents key =>
    obtain ⟨parent, between, last, hdescend, rfl, hbefore, rfl⟩ := defineArrayTable_spec h
    rw [← descend_value_iff hdescend]
    have hne : [Step.key k] ≠ parent ++ [Step.key key, .index last] := by
      intro hpath
      have hlengths := congrArg List.length hpath
      simp at hlengths
    rw [set_ne hne]
    by_cases hpath : [Step.key k] = parent ++ [Step.key key]
    · rw [hpath, set_self]
      rcases hbefore with ⟨hbefore, -⟩ | ⟨before, hbefore, -⟩ <;> simp [hbefore]
    · simp [set_ne hpath]

end Draft

/-! ## The values of root keys -/

def Statement.isRoot : Statement → Bool
  | .blank => true
  | .keyval .. => true
  | .table .. => false
  | .arrayTable .. => false

variable {after here : List Step} {draft next final : Draft} {statement : Statement} {statements : List Statement}

theorem Draft.define_root (h : define here draft statement = some (after, next)) :
    after = [] ↔ here = [] ∧ statement.isRoot = true := by
  cases statement with
  | blank =>
    cases h
    simp [Statement.isRoot]
  | keyval dotted key item =>
    obtain ⟨result, -, hresult⟩ := Option.map_eq_some_iff.mp h
    cases hresult
    simp [Statement.isRoot]
  | table parents key =>
    obtain ⟨parent, between, -, rfl, -⟩ := defineTable_spec h
    simp [Statement.isRoot]
  | arrayTable parents key =>
    obtain ⟨parent, between, last, -, rfl, -⟩ := defineArrayTable_spec h
    simp [Statement.isRoot]

theorem Draft.defineAll_root_value_iff (h : defineAll here draft statements = some (after, final)) (key : Text)
    (value : Item) :
    final [.key key] = some (.value value) ↔ draft [.key key] = some (.value value) ∨
      (here = [] ∧ .keyval [] key value ∈ statements.takeWhile Statement.isRoot) := by
  induction statements generalizing here draft with
  | nil =>
    cases h
    simp
  | cons statement statements ih =>
    rw [defineAll] at h
    split at h
    · cases h
    · rename_i between next hdefine
      rw [ih h, define_root_value_iff hdefine, define_root hdefine, List.takeWhile_cons]
      constructor
      · rintro ((hdraft | ⟨hhere, rfl⟩) | ⟨⟨hhere, hroot⟩, hmem⟩)
        · exact .inl hdraft
        · exact .inr ⟨hhere, List.mem_cons_self⟩
        · refine .inr ⟨hhere, ?_⟩
          rw [if_pos hroot]
          exact List.mem_cons_of_mem statement hmem
      · rintro (hdraft | ⟨hhere, hmem⟩)
        · exact .inl (.inl hdraft)
        · split at hmem
          · rename_i hroot
            rcases List.mem_cons.mp hmem with rfl | hrest
            · exact .inl (.inr ⟨hhere, rfl⟩)
            · exact .inr ⟨⟨hhere, hroot⟩, hrest⟩
          · cases hmem

theorem build_root_value_iff (h : build statements = some draft) (key : Text) (value : Item) :
    draft [.key key] = some (.value value) ↔ .keyval [] key value ∈ statements.takeWhile Statement.isRoot := by
  obtain ⟨⟨after, final⟩, hall, rfl⟩ := Option.map_eq_some_iff.mp h
  rw [Draft.defineAll_root_value_iff hall]
  simp [Draft.empty]

theorem Draft.define_nil (h : define here draft statement = some (after, next))
    (hroot : draft [] = some (.table .explicit)) : next [] = some (.table .explicit) := by
  have hdescend : ∀ {origin : Origin} {start : List Step} {keys : List Text} {table : List Step} {between : Draft},
      descend origin start keys draft = some (table, between) → between [] = some (.table .explicit) := by
    intro origin start keys table between h
    rcases (descend_spec h).2 [] with hsame | ⟨hnone, -⟩
    · rw [hsame, hroot]
    · rw [hroot] at hnone
      cases hnone
  cases statement with
  | blank =>
    cases h
    exact hroot
  | keyval dotted key item =>
    obtain ⟨result, hvalue, hresult⟩ := Option.map_eq_some_iff.mp h
    cases hresult
    obtain ⟨table, between, hbetween, -, -, rfl⟩ := defineValue_spec hvalue
    rw [set_ne (by simp)]
    exact hdescend hbetween
  | table parents key =>
    obtain ⟨parent, between, hbetween, rfl, -, rfl⟩ := defineTable_spec h
    rw [set_ne (by simp)]
    exact hdescend hbetween
  | arrayTable parents key =>
    obtain ⟨parent, between, last, hbetween, rfl, -, rfl⟩ := defineArrayTable_spec h
    rw [set_ne (by simp), set_ne (by simp)]
    exact hdescend hbetween

theorem Draft.defineAll_nil (h : defineAll here draft statements = some (after, final))
    (hroot : draft [] = some (.table .explicit)) : final [] = some (.table .explicit) := by
  induction statements generalizing here draft with
  | nil =>
    cases h
    exact hroot
  | cons statement statements ih =>
    rw [defineAll] at h
    split at h
    · cases h
    · rename_i hdefine
      exact ih h (define_nil hdefine hroot)

theorem build_nil (h : build statements = some draft) : draft [] = some (.table .explicit) := by
  obtain ⟨⟨after, final⟩, hall, rfl⟩ := Option.map_eq_some_iff.mp h
  exact Draft.defineAll_nil hall rfl

theorem node_eq_scalar_iff {item : Item} {value : Scalar} : item.node = .scalar value ↔ item = .scalar value := by
  cases item <;> simp [Item.node]

/-- A root key of a document is a scalar if and only if it is given that scalar before the first header. -/
theorem Draft.Denotes.scalar_iff {doc : Table} (hdenotes : draft.Denotes doc)
    (hbuild : build statements = some draft) (key : Text) (value : Scalar) :
    Entries.lookup key doc = some (.scalar value) ↔
      .keyval [] key (.scalar value) ∈ statements.takeWhile Statement.isRoot := by
  rw [← build_root_value_iff hbuild]
  have hnode : (Entries.lookup key doc).map Item.node = (draft [.key key]).map Entry.node := by
    have hpath := hdenotes [.key key]
    have hitem : (Item.table doc).nodeAt [.key key] = (Entries.lookup key doc).map Item.node := by
      rw [Item.nodeAt_key, Item.get, Item.tableLike, Option.bind_some]
      cases Entries.lookup key doc <;> rfl
    have hdraft : draft.nodeAt [] [.key key] = (draft [.key key]).map Entry.node := by
      rw [Draft.nodeAt, build_nil hbuild]
      rfl
    rw [← hitem, ← hdraft, hpath]
  constructor
  · intro hlookup
    rw [hlookup] at hnode
    obtain ⟨entry, hentry, hscalar⟩ := Option.map_eq_some_iff.mp hnode.symm
    rw [hentry]
    cases entry with
    | value item => rw [node_eq_scalar_iff.mp hscalar]
    | table origin => cases hscalar
    | tables last => cases hscalar
  · intro hentry
    rw [hentry] at hnode
    obtain ⟨item, hitem, hscalar⟩ := Option.map_eq_some_iff.mp hnode
    rw [hitem, node_eq_scalar_iff.mp hscalar]

/-! ## Root keys are given once -/

/-- The statement gives a value to a key of its table. -/
def Statement.Gives (key : Text) (statement : Statement) : Prop := ∃ item, statement = .keyval [] key item

theorem Draft.define_root_none {key : Text} (h : define [] draft statement = some (after, next))
    (hgives : statement.Gives key) : draft [.key key] = none := by
  obtain ⟨item, rfl⟩ := hgives
  obtain ⟨result, hvalue, -⟩ := Option.map_eq_some_iff.mp h
  obtain ⟨table, between, hdescend, -, hnone, -⟩ := defineValue_spec hvalue
  cases hdescend
  exact hnone

theorem Draft.defineAll_once (h : defineAll [] draft statements = some (after, final)) (key : Text) :
    (statements.takeWhile Statement.isRoot).Pairwise (fun a b => ¬(a.Gives key ∧ b.Gives key)) ∧
      ∀ item, draft [.key key] = some (.value item) →
        ∀ statement ∈ statements.takeWhile Statement.isRoot, ¬statement.Gives key := by
  induction statements generalizing draft with
  | nil => exact ⟨List.Pairwise.nil, fun _ _ _ hmem => by cases hmem⟩
  | cons statement statements ih =>
    rw [defineAll] at h
    split at h
    · cases h
    · rename_i here next hdefine
      rw [List.takeWhile_cons]
      cases hroot : statement.isRoot with
      | false => exact ⟨List.Pairwise.nil, fun _ _ _ hmem => by cases hmem⟩
      | true =>
        obtain rfl : here = [] := (define_root hdefine).mpr ⟨rfl, hroot⟩
        obtain ⟨hpairwise, hgiven⟩ := ih h
        simp only [if_true]
        have hnext : ∀ item, draft [.key key] = some (.value item) → next [.key key] = some (.value item) :=
          fun item hdraft => (define_root_value_iff hdefine key item).mpr (.inl hdraft)
        refine ⟨List.pairwise_cons.mpr ⟨fun other hother hboth => ?_, hpairwise⟩, fun item hdraft other hother => ?_⟩
        · obtain ⟨item, rfl⟩ := hboth.1
          exact hgiven item ((define_root_value_iff hdefine key item).mpr (.inr ⟨rfl, rfl⟩)) other hother hboth.2
        · rcases List.mem_cons.mp hother with rfl | hrest
          · intro hgives
            rw [define_root_none hdefine hgives] at hdraft
            cases hdraft
          · exact hgiven item (hnext item hdraft) other hrest

theorem build_once (h : build statements = some draft) (key : Text) :
    (statements.takeWhile Statement.isRoot).Pairwise (fun a b => ¬(a.Gives key ∧ b.Gives key)) := by
  obtain ⟨⟨after, final⟩, hall, -⟩ := Option.map_eq_some_iff.mp h
  exact (Draft.defineAll_once hall key).1

end Toml
