import Lumio.Lib.Toml

/-!
# Assigning to a place in a document

The mutable index of `toml_edit` finds or makes the tables on the way to a place, and fails at what is no table. What is
written shows at and below the place; everything beside the way stays as it was.
-/

namespace Toml

/-- `item[key]…[key] = value`. What is missing on the way becomes an inline table. -/
def assign (value : Item) : List Text → Option Item → Option Item
  | [], _ => some value
  | key :: keys, none => (assign value keys none).map fun item => .inlineTable [(key, item)]
  | key :: keys, some (.table entries) =>
    (assign value keys (Entries.lookup key entries)).map fun item => .table (Entries.put key item entries)
  | key :: keys, some (.inlineTable entries) =>
    (assign value keys (Entries.lookup key entries)).map fun item => .inlineTable (Entries.put key item entries)
  | _ :: _, some _ => none

def nodeIn (item : Option Item) (path : List Step) : Option Node := item.bind (Item.nodeAt path)

/-- What is found at a path after a value was written, from what was found there before. -/
def written (value : Item) (keys : List Text) (path : List Step) (old : Option Node) : Option Node :=
  if keys.map .key <+: path then value.nodeAt (path.drop keys.length)
  else if path <+: keys.map .key then some .table
  else old

/-- Tables stand all along the way, or nothing does. -/
def Clear (keys : List Text) (item : Option Item) : Prop :=
  ∀ path node, path <+: keys.map .key → path ≠ keys.map .key → nodeIn item path = some node → node = .table

variable {value result : Item} {key : Text} {keys : List Text} {item : Option Item} {entries : Table} {path : List Step}

variable (old : Option Node)

theorem written_nil : written value [] path old = value.nodeAt path := if_pos List.nil_prefix

theorem written_cons_nil : written value (key :: keys) [] old = some .table := by
  rw [written, if_neg (by simp), if_pos List.nil_prefix]

theorem written_cons_self : written value (key :: keys) (.key key :: path) old = written value keys path old := by
  simp [written, List.cons_prefix_cons]

theorem written_cons_ne {step : Step} (h : step ≠ .key key) (old : Option Node) :
    written value (key :: keys) (step :: path) old = old := by
  rw [written, if_neg, if_neg]
  · exact fun hprefix => h (List.cons_prefix_cons.mp hprefix).1
  · exact fun hprefix => h (List.cons_prefix_cons.mp hprefix).1.symm

theorem nodeAt_put {put : Item} (hput : put.tableLike = some (Entries.put key result entries)) {old : Option Item}
    (hold : ∀ k path, nodeIn old (.key k :: path) = nodeIn (Entries.lookup k entries) path)
    (hindex : ∀ i path, nodeIn old (.index i :: path) = none)
    (h : ∀ path, result.nodeAt path = written value keys path (nodeIn (Entries.lookup key entries) path)) :
    ∀ path, put.nodeAt path = written value (key :: keys) path (nodeIn old path) := by
  have htable : put.node = .table ∧ put.elements = none := by cases put <;> cases hput <;> exact ⟨rfl, rfl⟩
  intro path
  match path with
  | [] => rw [written_cons_nil, Item.nodeAt, htable.1]
  | .index i :: path =>
    rw [written_cons_ne (by simp), hindex]
    simp [Item.nodeAt, htable.2]
  | .key k :: path =>
    rw [hold, Item.nodeAt_key, Item.get, hput, Option.bind_some]
    by_cases hk : k = key
    · rw [hk, Entries.lookup_put_self, written_cons_self, Option.bind_some, h]
    · rw [Entries.lookup_put_ne hk, written_cons_ne (by simpa using hk)]
      rfl

theorem nodeAt_assign (h : assign value keys item = some result) :
    ∀ path, result.nodeAt path = written value keys path (nodeIn item path) := by
  induction keys generalizing item result with
  | nil =>
    intro path
    cases h
    rw [written_nil]
  | cons key keys ih =>
    match item with
    | none =>
      obtain ⟨next, hnext, rfl⟩ := Option.map_eq_some_iff.mp h
      have hput : (Item.inlineTable [(key, next)]).tableLike = some (Entries.put key next []) := rfl
      exact nodeAt_put hput (fun _ _ => rfl) (fun _ _ => rfl) (ih hnext)
    | some (.table entries) =>
      obtain ⟨next, hnext, rfl⟩ := Option.map_eq_some_iff.mp h
      exact nodeAt_put rfl (fun _ _ => rfl) (fun _ _ => rfl) (ih hnext)
    | some (.inlineTable entries) =>
      obtain ⟨next, hnext, rfl⟩ := Option.map_eq_some_iff.mp h
      exact nodeAt_put rfl (fun _ _ => rfl) (fun _ _ => rfl) (ih hnext)

theorem clear_cons : Clear (key :: keys) item ↔
    (∀ node, nodeIn item [] = some node → node = .table) ∧ Clear keys (item.bind (Item.get key)) := by
  have hbelow : ∀ path, nodeIn item (.key key :: path) = nodeIn (item.bind (Item.get key)) path := by
    intro path
    cases item <;> rfl
  constructor
  · intro h
    refine ⟨fun node hnode => h [] node List.nil_prefix (by simp) hnode, fun path node hprefix hne hnode => ?_⟩
    refine h (.key key :: path) node (List.cons_prefix_cons.mpr ⟨rfl, hprefix⟩) (by simpa using hne) ?_
    rw [hbelow]
    exact hnode
  · rintro ⟨htop, hclear⟩ path node hprefix hne hnode
    match path with
    | [] => exact htop node hnode
    | step :: path =>
      obtain ⟨rfl, hrest⟩ := List.cons_prefix_cons.mp hprefix
      rw [hbelow] at hnode
      exact hclear path node hrest (by simpa using hne) hnode

theorem isSome_assign_iff : (assign value keys item).isSome = true ↔ Clear keys item := by
  induction keys generalizing item with
  | nil => exact ⟨fun _ path node hprefix hne _ => absurd (List.prefix_nil.mp hprefix) hne, fun _ => rfl⟩
  | cons key keys ih =>
    rw [clear_cons]
    match item with
    | none => simp [assign, nodeIn, ih]
    | some (.table entries) => simp [assign, nodeIn, ih, Item.nodeAt, Item.node, Item.get, Item.tableLike]
    | some (.inlineTable entries) => simp [assign, nodeIn, ih, Item.nodeAt, Item.node, Item.get, Item.tableLike]
    | some (.scalar _) | some (.array _) | some (.arrayOfTables _) =>
      simp [assign, nodeIn, Item.nodeAt, Item.node]

theorem key_prefix_iff {other : List Text} : keys.map Step.key <+: other.map Step.key ↔ keys <+: other := by
  refine ⟨fun h => ?_, fun h => h.map _⟩
  rw [List.prefix_iff_eq_take, List.length_map, ← List.map_take] at h
  exact List.prefix_iff_eq_take.mpr (List.map_injective_iff.mpr (fun _ _ h => Step.key.inj h) h)

theorem clear_assign_iff {other : List Text} (h : assign value keys item = some result) (hapart : ¬keys <+: other) :
    Clear other (some result) ↔ Clear other item := by
  have hclear := isSome_assign_iff.mp (Option.isSome_of_eq_some h)
  have hnode : ∀ path, path <+: other.map .key → path ≠ other.map .key →
      ((∀ node, nodeIn (some result) path = some node → node = .table) ↔
        ∀ node, nodeIn item path = some node → node = .table) := by
    intro path hprefix hne
    have hnot : ¬keys.map Step.key <+: path := fun hkeys => hapart (key_prefix_iff.mp (hkeys.trans hprefix))
    change (∀ node, result.nodeAt path = some node → node = .table) ↔ _
    rw [nodeAt_assign h path, written, if_neg hnot]
    split
    · rename_i hway
      refine ⟨fun _ node hnode => hclear path node hway (fun heq => hnot (heq ▸ List.prefix_refl _)) hnode, ?_⟩
      rintro _ node ⟨⟩
      rfl
    · rfl
  exact ⟨fun hother path node hprefix hne => (hnode path hprefix hne).mp (fun node => hother path node hprefix hne) node,
    fun hother path node hprefix hne => (hnode path hprefix hne).mpr (fun node => hother path node hprefix hne) node⟩

/-! ## Several assignments -/

def assignAll : List (List Text × Item) → Item → Option Item
  | [], item => some item
  | (keys, value) :: writes, item => (assign value keys (some item)).bind (assignAll writes)

theorem isSome_assignAll_iff {writes : List (List Text × Item)} {item : Item}
    (hapart : writes.Pairwise fun a b => ¬a.1 <+: b.1) :
    (assignAll writes item).isSome = true ↔ ∀ write ∈ writes, Clear write.1 (some item) := by
  induction writes generalizing item with
  | nil => simp [assignAll]
  | cons write writes ih =>
    obtain ⟨hfirst, hrest⟩ := List.pairwise_cons.mp hapart
    have hiff : (assign write.2 write.1 (some item)).isSome = true ↔ Clear write.1 (some item) := isSome_assign_iff
    rw [List.forall_mem_cons, ← hiff, assignAll]
    cases hnext : assign write.2 write.1 (some item) with
    | none => simp
    | some next =>
      rw [Option.bind_some, ih hrest]
      simp only [Option.isSome_some, true_and]
      exact forall₂_congr fun other hother => clear_assign_iff hnext (hfirst other hother)

def writtenAll (writes : List (List Text × Item)) (path : List Step) (old : Option Node) : Option Node :=
  writes.foldl (fun old write => written write.2 write.1 path old) old

theorem nodeAt_assignAll {writes : List (List Text × Item)} {item : Item} (h : assignAll writes item = some result) :
    ∀ path, result.nodeAt path = writtenAll writes path (item.nodeAt path) := by
  induction writes generalizing item with
  | nil =>
    intro path
    cases h
    rfl
  | cons write writes ih =>
    obtain ⟨next, hnext, hrest⟩ := Option.bind_eq_some_iff.mp h
    intro path
    rw [ih hrest path, nodeAt_assign hnext path]
    rfl

theorem writtenAll_cases (writes : List (List Text × Item)) (path : List Step) :
    (∀ old, writtenAll writes path old = old) ∨ ∃ node, ∀ old, writtenAll writes path old = node := by
  induction writes with
  | nil => exact .inl fun _ => rfl
  | cons write writes ih =>
    rcases ih with hkept | ⟨node, hfixed⟩
    · by_cases hat : write.1.map Step.key <+: path
      · exact .inr ⟨_, fun old => (hkept _).trans (if_pos hat)⟩
      · by_cases hway : path <+: write.1.map Step.key
        · exact .inr ⟨_, fun old => (hkept _).trans ((if_neg hat).trans (if_pos hway))⟩
        · exact .inl fun old => (hkept _).trans ((if_neg hat).trans (if_neg hway))
    · exact .inr ⟨node, fun old => hfixed _⟩

section Writes

variable {write : List Text × Item} {writes : List (List Text × Item)} {old : Option Node}

theorem writtenAll_beside (h : ∀ write ∈ writes, ¬write.1.map .key <+: path ∧ ¬path <+: write.1.map .key) :
    writtenAll writes path old = old := by
  induction writes generalizing old with
  | nil => rfl
  | cons write writes ih =>
    obtain ⟨hfirst, hrest⟩ := List.forall_mem_cons.mp h
    have hstep : written write.2 write.1 path old = old := (if_neg hfirst.1).trans (if_neg hfirst.2)
    exact (ih hrest).trans hstep

theorem writtenAll_at (hapart : writes.Pairwise fun a b => ¬a.1 <+: b.1 ∧ ¬b.1 <+: a.1) (h : write ∈ writes) :
    writtenAll writes (write.1.map .key) old = some write.2.node := by
  induction writes generalizing old with
  | nil => cases h
  | cons first writes ih =>
    obtain ⟨hfirst, hrest⟩ := List.pairwise_cons.mp hapart
    rcases List.mem_cons.mp h with rfl | h
    · have hbeside := @writtenAll_beside (write.1.map .key) writes (written write.2 write.1 (write.1.map .key) old)
        fun other hother => ⟨fun hp => (hfirst other hother).2 (key_prefix_iff.mp hp),
          fun hp => (hfirst other hother).1 (key_prefix_iff.mp hp)⟩
      refine hbeside.trans ((if_pos (List.prefix_refl _)).trans ?_)
      rw [List.drop_of_length_le (by simp)]
      rfl
    · exact ih hrest h

theorem writtenAll_way (hnone : ∀ write ∈ writes, ¬write.1.map .key <+: path)
    (h : old = some .table ∨ ∃ write ∈ writes, path <+: write.1.map .key) : writtenAll writes path old = some .table := by
  induction writes generalizing old with
  | nil => exact h.resolve_right (by simp)
  | cons first writes ih =>
    obtain ⟨hfirst, hrest⟩ := List.forall_mem_cons.mp hnone
    refine ih hrest ?_
    change (if _ then _ else if _ then _ else _) = _ ∨ _
    rw [if_neg hfirst]
    split
    · exact .inl rfl
    · rename_i hway
      rcases h with h | ⟨write, hwrite, hpath⟩
      · exact .inl h
      · rcases List.mem_cons.mp hwrite with rfl | hwrite
        · exact absurd hpath hway
        · exact .inr ⟨write, hwrite, hpath⟩

end Writes

theorem writtenAll_again (writes : List (List Text × Item)) (path : List Step) (old : Option Node) :
    writtenAll writes path (writtenAll writes path old) = writtenAll writes path old := by
  rcases writtenAll_cases writes path with hkept | ⟨node, hfixed⟩
  · exact hkept _
  · rw [hfixed, hfixed]

end Toml
