import Lumio.Config.Common

/-!
# Reading a profile back

The configuration of a profile is stripped of the common one after it was merged with it, and merged again when the
profile is used the next time. The common configuration is sanitized only when it is merged.
-/

namespace Lumio.Config

open Toml TomlEdit
open Text (trim)

/-! ## What merging and removing do at a key -/

section Keys

variable {key : Text} {target source : Table}

theorem mergeTomlItem_value {item : Item} (h : item.tableLike = none) (target : Item) : mergeTomlItem target item = item := by
  cases item with
  | table entries => cases h
  | inlineTable entries => cases h
  | scalar value => rw [mergeTomlItem]
  | array items => rw [mergeTomlItem]
  | arrayOfTables tables => rw [mergeTomlItem]

theorem mergeTomlItem_table {item target : Item} {entries targetEntries : Table} (h : item.tableLike = some entries)
    (htarget : target.tableLike = some targetEntries) :
    mergeTomlItem target item = withEntries target (mergeTomlTableLike target.isInline targetEntries entries) := by
  cases item with
  | table found =>
    cases h
    rw [mergeTomlItem, htarget]
  | inlineTable found =>
    cases h
    rw [mergeTomlItem, htarget]
  | scalar value => cases h
  | array items => cases h
  | arrayOfTables tables => cases h

theorem mergeTomlItem_replace {target : Item} (htarget : target.tableLike = none) (item : Item) :
    mergeTomlItem target item = item := by
  cases item with
  | table entries => rw [mergeTomlItem, htarget]
  | inlineTable entries => rw [mergeTomlItem, htarget]
  | scalar value => rw [mergeTomlItem]
  | array items => rw [mergeTomlItem]
  | arrayOfTables tables => rw [mergeTomlItem]

def mergedAt (inline : Bool) (target source : Option Item) : Option Item :=
  match source, target with
  | none, target => target
  | some item, some targetItem => some (mergeTomlItem targetItem item)
  | some item, none => some (insertedItem inline item)

theorem mergeTomlTableLike_cons (inline : Bool) (target source : Table) (other : Text) (item : Item) :
    mergeTomlTableLike inline target ((other, item) :: source) = mergeTomlTableLike inline
      (Entries.put other (match Entries.lookup other target with
        | some targetItem => mergeTomlItem targetItem item
        | none => insertedItem inline item) target) source := by
  rw [mergeTomlTableLike]
  cases Entries.lookup other target <;> rfl

theorem lookup_mergeTomlTableLike (hnodup : (source.map (·.1)).Nodup) (inline : Bool) (target : Table) :
    Entries.lookup key (mergeTomlTableLike inline target source) =
      mergedAt inline (Entries.lookup key target) (Entries.lookup key source) := by
  induction source generalizing target with
  | nil =>
    rw [mergeTomlTableLike]
    rfl
  | cons entry source ih =>
    obtain ⟨other, item⟩ := entry
    obtain ⟨hnot, hrest⟩ := List.nodup_cons.mp hnodup
    rw [mergeTomlTableLike_cons, ih hrest, Entries.lookup_cons]
    by_cases hkey : other = key
    · subst hkey
      rw [if_pos rfl, Entries.lookup_put_self, Entries.lookup_eq_none.mpr hnot]
      cases Entries.lookup other target <;> rfl
    · rw [if_neg hkey, Entries.lookup_put_ne (Ne.symm hkey)]

def removedAt (target source : Option Item) : Option Item :=
  match source, target with
  | none, target => target
  | some _, none => none
  | some item, some targetItem => keepItem (removeTomlItem targetItem item)

theorem lookup_removeTomlTableLike (hnodup : (source.map (·.1)).Nodup) (target : Table) :
    Entries.lookup key (removeTomlTableLike target source) =
      removedAt (Entries.lookup key target) (Entries.lookup key source) := by
  induction source generalizing target with
  | nil =>
    rw [removeTomlTableLike]
    rfl
  | cons entry source ih =>
    obtain ⟨other, item⟩ := entry
    obtain ⟨hnot, hrest⟩ := List.nodup_cons.mp hnodup
    rw [removeTomlTableLike, Entries.lookup_cons]
    by_cases hkey : other = key
    · subst hkey
      rw [if_pos rfl]
      cases htarget : Entries.lookup other target with
      | none =>
        simp only
        rw [ih hrest, htarget, Entries.lookup_eq_none.mpr hnot]
        rfl
      | some targetItem =>
        simp only [removedAt]
        cases hkeep : keepItem (removeTomlItem targetItem item) with
        | none =>
          simp only
          rw [ih hrest, Entries.lookup_erase_self, Entries.lookup_eq_none.mpr hnot]
          rfl
        | some next =>
          simp only
          rw [ih hrest, Entries.lookup_put_self, Entries.lookup_eq_none.mpr hnot]
          rfl
    · rw [if_neg hkey]
      cases Entries.lookup other target with
      | none => exact ih hrest target
      | some targetItem =>
        simp only
        cases keepItem (removeTomlItem targetItem item) with
        | none =>
          simp only
          rw [ih hrest, Entries.lookup_erase_ne (Ne.symm hkey)]
        | some next =>
          simp only
          rw [ih hrest, Entries.lookup_put_ne (Ne.symm hkey)]

end Keys

/-! ## What is merged can be taken off -/

theorem removeTomlItem_table {item target : Item} {entries targetEntries : Table} (h : item.tableLike = some entries)
    (htarget : target.tableLike = some targetEntries) :
    removeTomlItem target item =
      if (removeTomlTableLike targetEntries entries).isEmpty then none
      else some (withEntries target (removeTomlTableLike targetEntries entries)) := by
  cases item with
  | table found =>
    cases h
    rw [removeTomlItem, htarget]
  | inlineTable found =>
    cases h
    rw [removeTomlItem, htarget]
  | scalar value => cases h
  | array items => cases h
  | arrayOfTables tables => cases h

theorem keepItem_withEntries {item : Item} {entries : Table} (h : item.tableLike = some entries) (next : Table) :
    keepItem (if next.isEmpty then none else some (withEntries item next)) =
      if next.isEmpty then none else some (withEntries item next) := by
  cases hempty : next.isEmpty with
  | true => rfl
  | false =>
    rw [if_neg Bool.false_ne_true]
    unfold keepItem
    rw [Option.filter_some_pos]
    rw [tableLike_withEntries h]
    simp [hempty]

def Absorbs (target source : Item) : Prop :=
  ∀ keys item, source.find keys = some item →
    (item.tableLike.isSome = true → target.nodeAt (keys.map .key) = some .table) ∧
      (item.tableLike = none → ∀ path, target.nodeAt (keys.map .key ++ path) = item.nodeAt path)

theorem Absorbs.congr {a b source : Item} (hsame : a.Same b) (h : Absorbs b source) : Absorbs a source := by
  intro keys item hfind
  obtain ⟨htable, hvalue⟩ := h keys item hfind
  exact ⟨fun hsome => (hsame _).trans (htable hsome), fun hnone path => (hsame _).trans (hvalue hnone path)⟩

theorem absorbs_self (item : Item) : Absorbs item item := by
  intro keys found hfind
  constructor
  · intro htable
    have hnode := Item.nodeAt_append hfind []
    rw [List.append_nil] at hnode
    rw [hnode, Item.nodeAt, (Item.isSome_tableLike_iff found).mp htable]
  · intro _ path
    exact Item.nodeAt_append hfind path

theorem Absorbs.get {target source item : Item} {key : Text} (h : Absorbs target source)
    (hget : source.get key = some item) : ∃ found, target.get key = some found ∧ Absorbs found item := by
  have hhere := h [key] item (by rw [Item.find, hget]; rfl)
  have hsome : target.nodeAt [.key key] ≠ none := by
    cases hitem : item.tableLike with
    | none =>
      have hnode := hhere.2 hitem []
      rw [List.map_singleton, List.append_nil] at hnode
      rw [hnode]
      exact Option.some_ne_none _
    | some entries =>
      have hnode := hhere.1 (by rw [hitem]; rfl)
      rw [List.map_singleton] at hnode
      rw [hnode]
      exact Option.some_ne_none _
  cases hfound : target.get key with
  | none =>
    rw [Item.nodeAt_key, hfound] at hsome
    exact absurd rfl hsome
  | some found =>
    refine ⟨found, rfl, fun keys inner hfind => ?_⟩
    have hdeep := h (key :: keys) inner (by rw [Item.find, hget]; exact hfind)
    simp only [List.map_cons, List.cons_append, Item.nodeAt_key, hfound, Option.bind_some] at hdeep
    exact hdeep

theorem absorbs_of_same {target source : Item} (h : target.Same source) : Absorbs target source :=
  (absorbs_self source).congr h

theorem absorbs_of_get {target source : Item} (hsource : source.tableLike.isSome = true)
    (htarget : target.node = .table)
    (hget : ∀ key item, source.get key = some item → ∃ found, target.get key = some found ∧ Absorbs found item) :
    Absorbs target source := by
  intro keys item hfind
  cases keys with
  | nil =>
    cases hfind
    constructor
    · intro _
      rw [List.map_nil, Item.nodeAt, htarget]
    · intro hnone
      rw [hnone] at hsource
      cases hsource
  | cons key keys =>
    rw [Item.find] at hfind
    obtain ⟨next, hnext, hinner⟩ := Option.bind_eq_some_iff.mp hfind
    obtain ⟨found, hfound, habsorbs⟩ := hget key next hnext
    have hdeep := habsorbs keys item hinner
    simp only [List.map_cons, List.cons_append, Item.nodeAt_key, hfound, Option.bind_some]
    exact hdeep

theorem absorbs_mergeTomlItem (source : Item) (hread : IsRead source) (target : Item) :
    Absorbs (mergeTomlItem target source) source := by
  induction source using Item.getInduction generalizing target with
  | h source ih =>
    cases hsource : source.tableLike with
    | none =>
      rw [mergeTomlItem_value hsource]
      exact absorbs_self source
    | some entries =>
      cases htarget : target.tableLike with
      | none =>
        rw [mergeTomlItem_replace htarget]
        exact absorbs_self source
      | some targetEntries =>
        rw [mergeTomlItem_table hsource htarget]
        refine absorbs_of_get (by rw [hsource]; rfl) (node_withEntries htarget _) fun key item hget => ?_
        have hlookup : Entries.lookup key entries = some item := by
          rwa [Item.get, hsource] at hget
        rw [get_withEntries htarget, lookup_mergeTomlTableLike (hread.nodup hsource), hlookup]
        cases Entries.lookup key targetEntries with
        | none => exact ⟨_, rfl, absorbs_of_same (insertedItem_same _ item)⟩
        | some targetItem => exact ⟨_, rfl, ih key item hget (hread.get hget) targetItem⟩

theorem restored_same (source : Item) (hread : IsRead source) (target : Item) (habsorbs : Absorbs target source)
    (inline : Bool) :
    ∃ item, mergedAt inline (keepItem (removeTomlItem target source)) (some source) = some item ∧ item.Same target := by
  induction source using Item.getInduction generalizing target inline with
  | h source ih =>
    cases hsource : source.tableLike with
    | none =>
      have hsame : source.Same target := fun path => ((habsorbs [] source rfl).2 hsource path).symm
      cases keepItem (removeTomlItem target source) with
      | none => exact ⟨_, rfl, (insertedItem_same inline source).trans hsame⟩
      | some next =>
        refine ⟨_, rfl, ?_⟩
        rw [mergeTomlItem_value hsource]
        exact hsame
    | some entries =>
      have hnode : target.node = .table := Option.some.inj ((habsorbs [] source rfl).1 (by rw [hsource]; rfl))
      obtain ⟨targetEntries, htarget⟩ := Option.isSome_iff_exists.mp ((Item.isSome_tableLike_iff target).mpr hnode)
      have hgetSource : ∀ key, source.get key = Entries.lookup key entries := fun key => by rw [Item.get, hsource]; rfl
      have hgetTarget : ∀ key, target.get key = Entries.lookup key targetEntries := fun key => by
        rw [Item.get, htarget]; rfl
      have hrest : ∀ key, Entries.lookup key (removeTomlTableLike targetEntries entries) =
          removedAt (target.get key) (source.get key) := fun key => by
        rw [lookup_removeTomlTableLike (hread.nodup hsource), hgetTarget, hgetSource]
      rw [removeTomlItem_table hsource htarget, keepItem_withEntries htarget]
      cases hempty : (removeTomlTableLike targetEntries entries).isEmpty with
      | true =>
        rw [if_pos rfl]
        have hnone : ∀ key, removedAt (target.get key) (source.get key) = none := fun key => by
          rw [← hrest key, List.isEmpty_iff.mp hempty]
          rfl
        -- nothing was left, so the source itself is what is merged
        refine ⟨_, rfl, (insertedItem_same inline source).trans ?_⟩
        refine Item.same_of_get ((Item.isSome_tableLike_iff source).mp (by rw [hsource]; rfl)) hnode fun key path => ?_
        have hnoneKey := hnone key
        cases hget : source.get key with
        | none =>
          rw [hget] at hnoneKey
          rw [show target.get key = none from hnoneKey]
        | some item =>
          obtain ⟨found, hfound, hinner⟩ := habsorbs.get hget
          rw [hget, hfound] at hnoneKey
          obtain ⟨next, hnext, hsame⟩ := ih key item hget (hread.get hget) found hinner false
          rw [show keepItem (removeTomlItem found item) = none from hnoneKey] at hnext
          cases hnext
          rw [hfound]
          exact hsame path
      | false =>
        rw [if_neg Bool.false_ne_true]
        refine ⟨_, rfl, ?_⟩
        rw [mergeTomlItem_table hsource (tableLike_withEntries htarget _)]
        refine Item.same_of_get (node_withEntries (tableLike_withEntries htarget _) _) hnode fun key path => ?_
        rw [get_withEntries (tableLike_withEntries htarget _), lookup_mergeTomlTableLike (hread.nodup hsource), hrest,
          ← hgetSource]
        cases hget : source.get key with
        | none => rfl
        | some item =>
          obtain ⟨found, hfound, hinner⟩ := habsorbs.get hget
          rw [hfound]
          obtain ⟨next, hnext, hsame⟩ := ih key item hget (hread.get hget) found hinner
            (withEntries target (removeTomlTableLike targetEntries entries)).isInline
          simp only [removedAt]
          rw [hnext]
          exact hsame path

theorem mergeTomlItem_congr (source : Item) (hread : IsRead source) {a b : Item} (hsame : a.Same b) :
    (mergeTomlItem a source).Same (mergeTomlItem b source) := by
  induction source using Item.getInduction generalizing a b with
  | h source ih =>
    cases hsource : source.tableLike with
    | none =>
      rw [mergeTomlItem_value hsource, mergeTomlItem_value hsource]
      exact Item.Same.refl source
    | some entries =>
      have hboth := hsame.tableLike
      cases ha : a.tableLike with
      | none =>
        rw [ha, Option.isSome_none] at hboth
        have hb := Option.isSome_eq_false_iff.mp hboth.symm
        rw [Option.isNone_iff_eq_none] at hb
        rw [mergeTomlItem_replace ha, mergeTomlItem_replace hb]
        exact Item.Same.refl source
      | some aEntries =>
        rw [ha, Option.isSome_some] at hboth
        obtain ⟨bEntries, hb⟩ := Option.isSome_iff_exists.mp hboth.symm
        rw [mergeTomlItem_table hsource ha, mergeTomlItem_table hsource hb]
        refine Item.same_of_get (node_withEntries ha _) (node_withEntries hb _) fun key path => ?_
        rw [get_withEntries ha, get_withEntries hb, lookup_mergeTomlTableLike (hread.nodup hsource),
          lookup_mergeTomlTableLike (hread.nodup hsource)]
        have hget : source.get key = Entries.lookup key entries := by rw [Item.get, hsource]; rfl
        have hgetA : a.get key = Entries.lookup key aEntries := by rw [Item.get, ha]; rfl
        have hgetB : b.get key = Entries.lookup key bEntries := by rw [Item.get, hb]; rfl
        rw [← hget, ← hgetA, ← hgetB]
        rcases hsame.get key with ⟨hnoneA, hnoneB⟩ | ⟨x, y, hx, hy, hxy⟩
        · rw [hnoneA, hnoneB]
          cases source.get key with
          | none => rfl
          | some item => exact ((insertedItem_same _ item).trans (insertedItem_same _ item).symm) path
        · rw [hx, hy]
          cases hitem : source.get key with
          | none => exact hxy path
          | some item => exact ih key item hitem (hread.get hitem) hxy path

/-! ## What is taken off -/

def TouchedHere (target source : Item) : Prop :=
  target.tableLike = some [] ∨
    (∃ targetItems items, target = .array targetItems ∧ source = .array items ∧
      (targetItems = [] ∨ ∃ a ∈ targetItems, ∃ b ∈ items, tomlValueIsSubset a b = true)) ∨
    ∃ a b, target = .scalar a ∧ source = .scalar b ∧ a.eq b = true

def Touched (target source : Item) : Prop :=
  ∃ keys a b, target.find keys = some a ∧ source.find keys = some b ∧ TouchedHere a b

/-- Taking a source off leaves the target as it is. -/
def Untouched (target source : Item) : Prop :=
  ∃ next, keepItem (removeTomlItem target source) = some next ∧ next.Same target

theorem length_tomlRemoveArrayItems_le (items target : List Item) :
    (tomlRemoveArrayItems target items).length ≤ target.length := by
  induction items generalizing target with
  | nil => rw [tomlRemoveArrayItems]
  | cons item items ih =>
    rw [tomlRemoveArrayItems]
    split
    · exact (ih _).trans (List.length_eraseIdx_le target _)
    · exact ih target

theorem length_tomlRemoveArrayItems_lt {items target : List Item}
    (h : ∃ a ∈ target, ∃ b ∈ items, tomlValueIsSubset a b = true) :
    (tomlRemoveArrayItems target items).length < target.length := by
  induction items with
  | nil =>
    obtain ⟨-, -, b, hb, -⟩ := h
    cases hb
  | cons item items ih =>
    rw [tomlRemoveArrayItems]
    split
    · rename_i index hfound
      have hlt := (List.findIdx?_eq_some_iff_getElem.mp hfound).1
      have hle := length_tomlRemoveArrayItems_le items (target.eraseIdx index)
      rw [List.length_eraseIdx_of_lt hlt] at hle
      omega
    · rename_i hnone
      apply ih
      obtain ⟨a, ha, b, hb, hsubset⟩ := h
      rcases List.mem_cons.mp hb with rfl | hmem
      · have hno := List.findIdx?_eq_none_iff.mp hnone a ha
        rw [hsubset] at hno
        cases hno
      · exact ⟨a, ha, b, hmem, hsubset⟩

theorem tomlRemoveArrayItems_eq {items target : List Item}
    (h : ∀ a ∈ target, ∀ b ∈ items, tomlValueIsSubset a b = false) : tomlRemoveArrayItems target items = target := by
  induction items with
  | nil => rw [tomlRemoveArrayItems]
  | cons item items ih =>
    have hnone : target.findIdx? (fun targetItem => tomlValueIsSubset targetItem item) = none :=
      List.findIdx?_eq_none_iff.mpr fun a ha => h a ha item List.mem_cons_self
    rw [tomlRemoveArrayItems, hnone]
    exact ih fun a ha b hb => h a ha b (List.mem_cons_of_mem item hb)

theorem untouched_of_eq {target source : Item} (hne : target.tableLike ≠ some [])
    (h : removeTomlItem target source = some target) : Untouched target source :=
  ⟨target, by rw [h, keepItem_some hne], Item.Same.refl target⟩

theorem removeTomlValue_eq {target source : Item} (hsource : source.tableLike = none ∨ target.tableLike = none)
    (h : ¬TouchedHere target source) : removeTomlValue target source = some target := by
  have hscalar : ∀ a b, target = .scalar a → source = .scalar b → a.eq b = false := by
    intro a b ha hb
    by_contra heq
    exact h (.inr (.inr ⟨a, b, ha, hb, by simpa using heq⟩))
  cases source with
  | scalar value =>
    cases target with
    | scalar targetValue => simp [removeTomlValue, tomlValueIsSubset, hscalar targetValue value rfl rfl]
    | array items => simp [removeTomlValue, tomlValueIsSubset]
    | inlineTable entries => simp [removeTomlValue, tomlValueIsSubset]
    | table entries => simp [removeTomlValue, tomlValueIsSubset]
    | arrayOfTables tables => simp [removeTomlValue, tomlValueIsSubset]
  | array items =>
    cases target with
    | array targetItems =>
      have hne : targetItems ≠ [] := fun hnil => h (.inr (.inl ⟨targetItems, items, rfl, rfl, .inl hnil⟩))
      have hsame : tomlRemoveArrayItems targetItems items = targetItems := by
        apply tomlRemoveArrayItems_eq
        intro a ha b hb
        by_contra hsubset
        exact h (.inr (.inl ⟨targetItems, items, rfl, rfl, .inr ⟨a, ha, b, hb, by simpa using hsubset⟩⟩))
      simp [removeTomlValue, hsame, hne]
    | scalar targetValue => simp [removeTomlValue, tomlValueIsSubset]
    | inlineTable entries => simp [removeTomlValue, tomlValueIsSubset]
    | table entries => simp [removeTomlValue, tomlValueIsSubset]
    | arrayOfTables tables => simp [removeTomlValue, tomlValueIsSubset]
  | inlineTable entries =>
    cases target with
    | scalar targetValue => simp [removeTomlValue, tomlValueIsSubset]
    | array items => simp [removeTomlValue, tomlValueIsSubset]
    | inlineTable targetEntries => rcases hsource with h | h <;> cases h
    | table targetEntries => simp [removeTomlValue, tomlValueIsSubset]
    | arrayOfTables tables => simp [removeTomlValue, tomlValueIsSubset]
  | table entries => cases target <;> simp [removeTomlValue, tomlValueIsSubset]
  | arrayOfTables tables => cases target <;> simp [removeTomlValue, tomlValueIsSubset]

theorem Touched.deeper {target source a b : Item} {key : Text} (ha : target.get key = some a) (hb : source.get key = some b)
    (h : Touched a b) : Touched target source := by
  obtain ⟨keys, x, y, hx, hy, hhere⟩ := h
  exact ⟨key :: keys, x, y, by rw [Item.find, ha]; exact hx, by rw [Item.find, hb]; exact hy, hhere⟩

theorem untouched_of_not_touched (source : Item) (hread : IsRead source) (target : Item) (h : ¬Touched target source) :
    Untouched target source := by
  induction source using Item.getInduction generalizing target with
  | h source ih =>
    have hhere : ¬TouchedHere target source := fun hhere => h ⟨[], target, source, rfl, rfl, hhere⟩
    have hne : target.tableLike ≠ some [] := fun hempty => hhere (.inl hempty)
    cases hsource : source.tableLike with
    | none =>
      apply untouched_of_eq hne
      cases source with
      | scalar value =>
        rw [removeTomlItem]
        exact removeTomlValue_eq (.inl rfl) hhere
      | array items =>
        rw [removeTomlItem]
        exact removeTomlValue_eq (.inl rfl) hhere
      | arrayOfTables tables => rw [removeTomlItem]
      | table entries => cases hsource
      | inlineTable entries => cases hsource
    | some entries =>
      cases htarget : target.tableLike with
      | none =>
        apply untouched_of_eq hne
        cases source with
        | table found => rw [removeTomlItem, htarget]
        | inlineTable found =>
          rw [removeTomlItem, htarget]
          exact removeTomlValue_eq (.inr htarget) hhere
        | scalar value => cases hsource
        | array items => cases hsource
        | arrayOfTables tables => cases hsource
      | some targetEntries =>
        have hgetSource : ∀ key, source.get key = Entries.lookup key entries := fun key => by
          rw [Item.get, hsource]; rfl
        have hgetTarget : ∀ key, target.get key = Entries.lookup key targetEntries := fun key => by
          rw [Item.get, htarget]; rfl
        have hrest : ∀ key path, (Entries.lookup key (removeTomlTableLike targetEntries entries)).bind (Item.nodeAt path) =
            (target.get key).bind (Item.nodeAt path) := by
          intro key path
          rw [lookup_removeTomlTableLike (hread.nodup hsource), ← hgetSource, ← hgetTarget]
          cases hb : source.get key with
          | none => rfl
          | some b =>
            cases ha : target.get key with
            | none => rfl
            | some a =>
              obtain ⟨next, hnext, hsame⟩ := ih key b hb (hread.get hb) a fun htouched => h (htouched.deeper ha hb)
              simp only [removedAt, hnext]
              exact hsame path
        have hempty : (removeTomlTableLike targetEntries entries).isEmpty = false := by
          cases targetEntries with
          | nil => exact absurd htarget hne
          | cons entry targetEntries =>
            cases hremove : removeTomlTableLike (entry :: targetEntries) entries with
            | cons next rest => rfl
            | nil =>
              have hnode := hrest entry.1 []
              rw [hremove, hgetTarget, Entries.lookup_cons, if_pos rfl] at hnode
              cases hnode
        refine ⟨withEntries target (removeTomlTableLike targetEntries entries), ?_, ?_⟩
        · rw [removeTomlItem_table hsource htarget, keepItem_withEntries htarget, hempty, if_neg Bool.false_ne_true]
        · refine Item.same_of_get (node_withEntries htarget _) ?_ fun key path => ?_
          · rw [← Item.isSome_tableLike_iff, htarget]
            rfl
          · rw [get_withEntries htarget]
            exact hrest key path

theorem not_untouched_of_here {target source : Item} (h : TouchedHere target source) : ¬Untouched target source := by
  rintro ⟨next, hnext, hsame⟩
  rcases h with hempty | ⟨targetItems, items, rfl, rfl, hitems⟩ | ⟨a, b, rfl, rfl, heq⟩
  · have hnone : keepItem (removeTomlItem target source) = none := by
      cases hsource : source.tableLike with
      | none =>
        have hunchanged : removeTomlItem target source = some target ∨ removeTomlItem target source = none := by
          cases source with
          | scalar value =>
            rw [removeTomlItem]
            cases target <;> simp [removeTomlValue, tomlValueIsSubset, Item.tableLike] at hempty ⊢
          | array items =>
            rw [removeTomlItem]
            cases target <;> simp [removeTomlValue, tomlValueIsSubset, Item.tableLike] at hempty ⊢
          | arrayOfTables tables => exact .inl (by rw [removeTomlItem])
          | table entries => cases hsource
          | inlineTable entries => cases hsource
        rcases hunchanged with hsome | hnone
        · rw [hsome, keepItem_empty hempty]
        · rw [hnone]
          rfl
      | some entries =>
        have hnil : ∀ entries : Table, removeTomlTableLike [] entries = [] := by
          intro entries
          induction entries with
          | nil => rw [removeTomlTableLike]
          | cons entry entries ih => rw [removeTomlTableLike, Entries.lookup_nil]; exact ih
        rw [removeTomlItem_table hsource hempty, hnil]
        rfl
    rw [hnone] at hnext
    cases hnext
  · rw [removeTomlItem, removeTomlValue] at hnext
    split at hnext
    · cases hnext
    · rename_i hrest
      rw [keepItem_some (by simp [Item.tableLike]), Option.some.injEq] at hnext
      subst hnext
      have hlength : (tomlRemoveArrayItems targetItems items).length = targetItems.length := by
        have hnode := Option.some.inj (hsame [])
        exact Node.array.inj hnode
      rcases hitems with rfl | hitems
      · rw [List.length_nil, List.length_eq_zero_iff] at hlength
        rw [hlength] at hrest
        exact hrest rfl
      · have hlt := length_tomlRemoveArrayItems_lt hitems
        omega
  · rw [removeTomlItem, removeTomlValue, tomlValueIsSubset, if_pos heq] at hnext
    · cases hnext
    · rintro targetItems items h
      cases h

theorem untouched_iff (source : Item) (hread : IsRead source) (target : Item) :
    Untouched target source ↔ ¬Touched target source := by
  refine ⟨?_, untouched_of_not_touched source hread target⟩
  rintro huntouched ⟨keys, a, b, ha, hb, hhere⟩
  induction keys generalizing target source with
  | nil =>
    cases ha
    cases hb
    exact not_untouched_of_here hhere huntouched
  | cons key keys ih =>
    rw [Item.find] at ha hb
    obtain ⟨x, hx, ha⟩ := Option.bind_eq_some_iff.mp ha
    obtain ⟨y, hy, hb⟩ := Option.bind_eq_some_iff.mp hb
    obtain ⟨next, hnext, hsame⟩ := huntouched
    refine ih y (hread.get hy) x ?_ ha hb
    cases hsource : source.tableLike with
    | none =>
      rw [Item.get, hsource] at hy
      cases hy
    | some entries =>
      cases htarget : target.tableLike with
      | none =>
        rw [Item.get, htarget] at hx
        cases hx
      | some targetEntries =>
        rw [removeTomlItem_table hsource htarget, keepItem_withEntries htarget] at hnext
        split at hnext
        · cases hnext
        · cases hnext
          have hget : (withEntries target (removeTomlTableLike targetEntries entries)).get key =
              keepItem (removeTomlItem x y) := by
            have hx' : Entries.lookup key targetEntries = some x := by rwa [Item.get, htarget] at hx
            have hy' : Entries.lookup key entries = some y := by rwa [Item.get, hsource] at hy
            rw [get_withEntries htarget, lookup_removeTomlTableLike (hread.nodup hsource), hx', hy']
            rfl
          rcases hsame.get key with ⟨-, hnone⟩ | ⟨found, other, hfound, hother, hinner⟩
          · rw [hx] at hnone
            cases hnone
          · rw [hx] at hother
            cases hother
            exact ⟨found, hget ▸ hfound, hinner⟩

/-! ## Keys of a provider -/

def ProviderSpecific (key : Text) : Prop :=
  key ∈ providerSpecificCommonRootKeys ∨ isProviderCredentialRootKey key = true ∨ key = "model_providers".toList

instance (key : Text) : Decidable (ProviderSpecific key) := inferInstanceAs (Decidable (_ ∨ _ ∨ _))

theorem lookup_removeProviderSpecificCommonKeys (key : Text) (table : Table) :
    Entries.lookup key (removeProviderSpecificCommonKeys table) =
      if ProviderSpecific key then none else Entries.lookup key table := by
  unfold removeProviderSpecificCommonKeys
  simp only
  by_cases hproviders : key = "model_providers".toList
  · rw [if_pos (.inr (.inr hproviders)), hproviders, Entries.lookup_erase_self]
  · rw [Entries.lookup_erase_ne hproviders, lookup_eraseAll, lookup_eraseAll]
    by_cases hlisted : key ∈ providerSpecificCommonRootKeys
    · have hspecific : ProviderSpecific key := .inl hlisted
      rw [if_pos hlisted, if_pos hspecific, ite_self]
    · rw [if_neg hlisted]
      by_cases hcredential : isProviderCredentialRootKey key = true
      · have hspecific : ProviderSpecific key := .inr (.inl hcredential)
        rw [if_pos hspecific]
        split
        · rfl
        · rename_i hmem
          have herased := lookup_eraseAll key providerSpecificCommonRootKeys table
          rw [if_neg hlisted] at herased
          rw [← herased, Entries.lookup_eq_none]
          exact fun hkey => hmem (List.mem_filter.mpr ⟨hkey, hcredential⟩)
      · have hspecific : ¬ProviderSpecific key := fun h => (h.resolve_left hlisted).elim hcredential hproviders
        rw [if_neg hspecific, if_neg fun hmem => hcredential (List.mem_filter.mp hmem).2]

/-! ## The texts -/

section Texts

variable [TomlEdit]

/-- What is relied on of `toml_edit`: a document that is printed is read back with the same tree. -/
structure LawfulTomlEdit (Printed : Table → Prop) : Prop extends ReadsTexts where
  reads_back : ∀ layout doc, Printed doc → fromStr (toText layout doc) = some (canonical doc)

variable {Printed : Table → Prop}

theorem parse_normalizeOptionalToml (laws : LawfulTomlEdit Printed) (layout : Layout) {doc : Table}
    (hprinted : Printed doc) : parseTomlDocument (normalizeOptionalToml layout doc) = some (canonical doc) :=
  parse_normalizeOptional laws.toReadsTexts (laws.reads_back layout doc hprinted)

def commonOf (common : Table) : Table := canonical (removeProviderSpecificCommonKeys common)

theorem merge_eq (laws : LawfulTomlEdit Printed) (layouts : Layout × Layout) {config common : Text} {p c : Table}
    (hconfig : parseTomlDocument config = some p) (hcommon : parseTomlDocument common = some c)
    (hsanitized : Printed (removeProviderSpecificCommonKeys c)) (hmerged : Printed (mergeTomlTableLike false p (commonOf c))) :
    ∃ merged, mergeCommonConfigIntoConfig layouts config common = some merged ∧
      parseTomlDocument merged = some (canonical (mergeTomlTableLike false p (commonOf c))) := by
  have hparse : parseTomlDocument (sanitizeCommonConfigContents layouts.1 common) = some (commonOf c) := by
    rw [sanitizeCommonConfigContents, hcommon]
    exact parse_normalizeOptionalToml laws _ hsanitized
  unfold mergeCommonConfigIntoConfig
  simp only
  split
  · rename_i hblank
    refine ⟨_, rfl, ?_⟩
    rw [parse_ensureTrailingNewline laws.toReadsTexts hconfig, eq_nil_of_blank hblank hparse, mergeTomlTableLike,
      canonical_of_parse laws.toReadsTexts hconfig]
  · rw [hconfig, parse_trim laws.toReadsTexts hparse]
    exact ⟨_, rfl, parse_normalizeOptionalToml laws _ hmerged⟩

theorem strip_eq (laws : LawfulTomlEdit Printed) (layout : Layout) {config common : Text} {t c : Table}
    (hblank : (trim common).isEmpty = false) (hconfig : parseTomlDocument config = some t)
    (hcommon : parseTomlDocument common = some c) (hprinted : Printed (removeTomlTableLike t c)) :
    parseTomlDocument (stripCommonConfigFromConfig layout config common) =
      some (canonical (removeTomlTableLike t c)) := by
  unfold stripCommonConfigFromConfig
  rw [hblank, if_neg Bool.false_ne_true, hconfig, parse_trim laws.toReadsTexts hcommon]
  exact parse_normalizeOptionalToml laws _ hprinted

end Texts

/-! ## Stripping and merging again -/

section Again

variable {p c : Table}

theorem lookup_settled {table : Table} (h : canonical table = table) (key : Text) :
    (Entries.lookup key table).map (settle true false) = Entries.lookup key table := by
  rw [← lookup_canonical, h]

theorem lookup_commonOf (hc : canonical c = c) (key : Text) :
    Entries.lookup key (commonOf c) = if ProviderSpecific key then none else Entries.lookup key c := by
  rw [commonOf, lookup_canonical, lookup_removeProviderSpecificCommonKeys]
  split
  · rfl
  · exact lookup_settled hc key

theorem nodup_commonOf (c : Table) : ((commonOf c).map (·.1)).Nodup := nodup_settleEntries false _

theorem nodup_of_canonical {table : Table} (h : canonical table = table) : (table.map (·.1)).Nodup := by
  rw [← h]
  exact nodup_settleEntries false table

theorem lookup_merged (hp : canonical p = p) (hc : canonical c = c) (key : Text) :
    Entries.lookup key (canonical (mergeTomlTableLike false p (commonOf c))) =
      if ProviderSpecific key then Entries.lookup key p
      else (mergedAt false (Entries.lookup key p) (Entries.lookup key c)).map (settle true false) := by
  rw [lookup_canonical, lookup_mergeTomlTableLike (nodup_commonOf c), lookup_commonOf hc]
  split
  · exact lookup_settled hp key
  · rfl

theorem absorbs_merged (hcommon : canonical (commonOf c) = commonOf c) (p : Table) :
    Absorbs (.table (canonical (mergeTomlTableLike false p (commonOf c)))) (.table (commonOf c)) := by
  have h := absorbs_mergeTomlItem (.table (commonOf c)) (isRead_table hcommon) (.table p)
  rw [mergeTomlItem] at h
  exact h.congr (canonical_same _)

/-- What was merged into a profile is the same after the common configuration is stripped and merged again, if and only
if nothing of the keys of a provider is stripped. -/
theorem same_again_iff (hp : canonical p = p) (hc : canonical c = c) (hcommon : canonical (commonOf c) = commonOf c) :
    (Item.table (canonical (mergeTomlTableLike false
        (canonical (removeTomlTableLike (canonical (mergeTomlTableLike false p (commonOf c))) c)) (commonOf c)))).Same
      (.table (canonical (mergeTomlTableLike false p (commonOf c)))) ↔
    ∀ key target source, ProviderSpecific key → Entries.lookup key p = some target → Entries.lookup key c = some source →
      ¬Touched target source := by
  generalize hmerged : canonical (mergeTomlTableLike false p (commonOf c)) = merged
  have hagain : (Item.table (canonical (mergeTomlTableLike false (canonical (removeTomlTableLike merged c))
      (commonOf c)))).Same (.table (mergeTomlTableLike false (removeTomlTableLike merged c) (commonOf c))) := by
    refine (canonical_same _).trans ?_
    have hcongr := mergeTomlItem_congr (.table (commonOf c)) (isRead_table hcommon)
      (canonical_same (removeTomlTableLike merged c))
    rw [mergeTomlItem, mergeTomlItem] at hcongr
    exact hcongr
  have hlookup : ∀ key, Entries.lookup key (mergeTomlTableLike false (removeTomlTableLike merged c) (commonOf c)) =
      mergedAt false (removedAt (Entries.lookup key merged) (Entries.lookup key c)) (Entries.lookup key (commonOf c)) := by
    intro key
    rw [lookup_mergeTomlTableLike (nodup_of_canonical hcommon), lookup_removeTomlTableLike (nodup_of_canonical hc)]
  have hspecific : ∀ key, ProviderSpecific key → Entries.lookup key merged = Entries.lookup key p := by
    intro key hkey
    rw [← hmerged, lookup_merged hp hc, if_pos hkey]
  constructor
  · intro hsame key target source hkey htarget hsource
    rw [← untouched_iff source (isRead_of_lookup hc hsource)]
    have hget := (hagain.symm.trans hsame).get key
    simp only [Item.get, Item.tableLike, Option.bind_some, hlookup, hspecific key hkey, lookup_commonOf hc, if_pos hkey,
      htarget, hsource] at hget
    rcases hget with ⟨-, hnone⟩ | ⟨next, found, hnext, hfound, hinner⟩
    · cases hnone
    · cases hfound
      exact ⟨next, hnext, hinner⟩
  · intro huntouched
    refine hagain.trans (Item.same_of_get rfl rfl fun key path => ?_)
    simp only [Item.get, Item.tableLike, Option.bind_some, hlookup]
    by_cases hkey : ProviderSpecific key
    · rw [hspecific key hkey, lookup_commonOf hc, if_pos hkey]
      cases hsource : Entries.lookup key c with
      | none => rfl
      | some source =>
        cases htarget : Entries.lookup key p with
        | none => rfl
        | some target =>
          obtain ⟨next, hnext, hsame⟩ := (untouched_iff source (isRead_of_lookup hc hsource) target).mpr
            (huntouched key target source hkey htarget hsource)
          simp only [mergedAt, removedAt, hnext]
          exact hsame path
    · rw [lookup_commonOf hc, if_neg hkey]
      cases hsource : Entries.lookup key c with
      | none => rfl
      | some source =>
        have habsorbs := absorbs_merged hcommon p
        rw [hmerged] at habsorbs
        have hget : (Item.table (commonOf c)).get key = some source := by
          simp only [Item.get, Item.tableLike, Option.bind_some, lookup_commonOf hc, if_neg hkey, hsource]
        obtain ⟨found, hfound, hinner⟩ := habsorbs.get hget
        have hlookupFound : Entries.lookup key merged = some found := hfound
        obtain ⟨next, hnext, hsame⟩ := restored_same source (isRead_of_lookup hc hsource) found hinner false
        rw [hlookupFound]
        simp only [removedAt]
        rw [hnext]
        exact hsame path

end Again

section Texts

variable [TomlEdit]

/-- The layouts of the documents that are printed when a profile is applied, read back and applied again. -/
structure Layouts where
  applied : Layout × Layout
  stripped : Layout
  again : Layout × Layout

/-- A profile that was just applied has the same effective configuration after it was read back. -/
def KeepsEffectiveConfig (layouts : Layouts) (config common : Text) : Prop :=
  ∃ merged again mergedDoc againDoc,
    mergeCommonConfigIntoConfig layouts.applied config common = some merged ∧
      mergeCommonConfigIntoConfig layouts.again (stripCommonConfigFromConfig layouts.stripped merged common) common =
        some again ∧
      parseTomlDocument merged = some mergedDoc ∧ parseTomlDocument again = some againDoc ∧
      (Item.table againDoc).Same (.table mergedDoc)

/-- Nothing of the keys of a provider is taken off a profile by the common configuration. -/
def SharesNothing (config common : Text) : Prop :=
  ∀ p c key target source, parseTomlDocument config = some p → parseTomlDocument common = some c →
    ProviderSpecific key → Entries.lookup key p = some target → Entries.lookup key c = some source →
      ¬Touched target source

/-- The documents that are printed when a profile is applied, read back and applied again. -/
inductive PrintedAgain (p c : Table) : Table → Prop where
  | sanitized : PrintedAgain p c (removeProviderSpecificCommonKeys c)
  | merged : PrintedAgain p c (mergeTomlTableLike false p (commonOf c))
  | stripped : PrintedAgain p c (removeTomlTableLike (canonical (mergeTomlTableLike false p (commonOf c))) c)
  | again : PrintedAgain p c (mergeTomlTableLike false
      (canonical (removeTomlTableLike (canonical (mergeTomlTableLike false p (commonOf c))) c)) (commonOf c))

variable {config common : Text} {p c : Table}

theorem keeps_iff (laws : LawfulTomlEdit (PrintedAgain p c)) (layouts : Layouts)
    (hconfig : parseTomlDocument config = some p) (hcommon : parseTomlDocument common = some c)
    (hblank : (trim common).isEmpty = false) :
    KeepsEffectiveConfig layouts config common ↔ SharesNothing config common := by
  obtain ⟨merged, hmerged, hmergedDoc⟩ := merge_eq laws layouts.applied hconfig hcommon .sanitized .merged
  obtain ⟨again, hagain, hagainDoc⟩ := merge_eq laws layouts.again
    (strip_eq laws layouts.stripped hblank hmergedDoc hcommon .stripped) hcommon .sanitized .again
  have hcommonOf : canonical (commonOf c) = commonOf c :=
    laws.canonical_eq _ _ (laws.reads_back layouts.stripped _ .sanitized)
  have hsame := same_again_iff (canonical_of_parse laws.toReadsTexts hconfig) (canonical_of_parse laws.toReadsTexts hcommon) hcommonOf
  constructor
  · rintro ⟨merged', again', mergedDoc, againDoc, hmerged', hagain', hmergedDoc', hagainDoc', hkept⟩
    rw [hmerged, Option.some.injEq] at hmerged'
    subst hmerged'
    rw [hagain, Option.some.injEq] at hagain'
    subst hagain'
    rw [hmergedDoc, Option.some.injEq] at hmergedDoc'
    rw [hagainDoc, Option.some.injEq] at hagainDoc'
    rw [← hmergedDoc', ← hagainDoc'] at hkept
    intro p' c' key target source hp hc
    rw [hconfig, Option.some.injEq] at hp
    rw [hcommon, Option.some.injEq] at hc
    subst hp hc
    exact hsame.mp hkept key target source
  · intro hshares
    exact ⟨merged, again, _, _, hmerged, hagain, hmergedDoc, hagainDoc,
      hsame.mpr fun key target source => hshares p c key target source hconfig hcommon⟩

theorem keeps_of_blank (laws : LawfulTomlEdit (PrintedAgain p c)) (layouts : Layouts)
    (hconfig : parseTomlDocument config = some p) (hblank : (trim common).isEmpty = true)
    (hcommon : parseTomlDocument common = some c) (hnew : toText layouts.applied.1 [] = [])
    (hrepeats : RepeatsNothing (ensureTrailingNewline config)) : KeepsEffectiveConfig layouts config common := by
  have hnil := eq_nil_of_blank hblank hcommon
  subst hnil
  obtain ⟨merged, hmerged, hmergedDoc⟩ := merge_eq laws layouts.applied hconfig hcommon .sanitized .merged
  have hsanitized : sanitizeCommonConfigContents layouts.applied.1 common = [] := by
    have hkeys : removeProviderSpecificCommonKeys [] = [] := rfl
    rw [sanitizeCommonConfigContents, hcommon]
    simp only [hkeys, normalizeOptionalToml, hnew]
    rfl
  have htext : merged = ensureTrailingNewline config := by
    rw [mergeCommonConfigIntoConfig] at hmerged
    simp only [hsanitized] at hmerged
    exact (Option.some.inj hmerged).symm
  have hstripped : parseTomlDocument (stripCommonConfigFromConfig layouts.stripped merged common) =
      some (canonical (mergeTomlTableLike false p (commonOf []))) := by
    rw [stripCommonConfigFromConfig, if_pos hblank]
    exact parse_normalizeDuplicateTomlText laws.toReadsTexts (htext ▸ hrepeats) hmergedDoc
  have hcanonical := canonical_of_parse laws.toReadsTexts hmergedDoc
  have hprinted : PrintedAgain p [] (mergeTomlTableLike false
      (canonical (mergeTomlTableLike false p (commonOf []))) (commonOf [])) := by
    have h := PrintedAgain.again (p := p) (c := [])
    rwa [removeTomlTableLike, hcanonical] at h
  obtain ⟨again, hagain, hagainDoc⟩ := merge_eq laws layouts.again hstripped hcommon .sanitized hprinted
  refine ⟨merged, again, _, _, hmerged, hagain, hmergedDoc, hagainDoc, ?_⟩
  have hnothing : ∀ table, mergeTomlTableLike false table (commonOf []) = table := by
    intro table
    have hcommonOf : commonOf [] = [] := rfl
    rw [hcommonOf, mergeTomlTableLike]
  rw [hnothing, hcanonical]
  exact Item.Same.refl _

/-- Applying a profile, reading it back and applying it again keeps its effective configuration, if and only if the common
configuration takes nothing off it at the keys of a provider; or, if the common configuration is blank, provided that no
line of the profile is taken for a duplicate. -/
theorem keeps_effective_config (laws : LawfulTomlEdit (PrintedAgain p c)) (layouts : Layouts)
    (hconfig : parseTomlDocument config = some p) (hcommon : parseTomlDocument common = some c) :
    ((trim common).isEmpty = false → (KeepsEffectiveConfig layouts config common ↔ SharesNothing config common)) ∧
      ((trim common).isEmpty = true → toText layouts.applied.1 [] = [] →
        RepeatsNothing (ensureTrailingNewline config) → KeepsEffectiveConfig layouts config common) :=
  ⟨fun hblank => keeps_iff laws layouts hconfig hcommon hblank,
    fun hblank hnew hrepeats => keeps_of_blank laws layouts hconfig hblank hcommon hnew hrepeats⟩

end Texts

/-! ## Merging twice -/

theorem merged_same (source : Item) (hread : IsRead source) (target : Item) (habsorbs : Absorbs target source) :
    (mergeTomlItem target source).Same target := by
  induction source using Item.getInduction generalizing target with
  | h source ih =>
    cases hsource : source.tableLike with
    | none =>
      rw [mergeTomlItem_value hsource]
      exact fun path => ((habsorbs [] source rfl).2 hsource path).symm
    | some entries =>
      have hnode : target.node = .table := Option.some.inj ((habsorbs [] source rfl).1 (by rw [hsource]; rfl))
      obtain ⟨targetEntries, htarget⟩ := Option.isSome_iff_exists.mp ((Item.isSome_tableLike_iff target).mpr hnode)
      rw [mergeTomlItem_table hsource htarget]
      refine Item.same_of_get (node_withEntries htarget _) hnode fun key => ?_
      have hlookup : source.get key = Entries.lookup key entries := by rw [Item.get, hsource]; rfl
      have hfind : target.get key = Entries.lookup key targetEntries := by rw [Item.get, htarget]; rfl
      rw [get_withEntries htarget, lookup_mergeTomlTableLike (hread.nodup hsource), ← hlookup, ← hfind]
      cases hget : source.get key with
      | none => exact fun _ => rfl
      | some item =>
        obtain ⟨found, hfound, hinner⟩ := habsorbs.get hget
        rw [hfound]
        exact ih key item hget (hread.get hget) found hinner

section Texts

variable [TomlEdit]

/-- The documents that are printed when a common configuration is merged twice. -/
inductive PrintedTwice (p c : Table) : Table → Prop where
  | sanitized : PrintedTwice p c (removeProviderSpecificCommonKeys c)
  | merged : PrintedTwice p c (mergeTomlTableLike false p (commonOf c))
  | again : PrintedTwice p c
      (mergeTomlTableLike false (canonical (mergeTomlTableLike false p (commonOf c))) (commonOf c))

/-- No table stands inside of an inline table or an array, where it is not printed. -/
def Printable (doc : Table) : Prop := settleEntries false false doc = doc

/-- Merging the common configuration into a profile that has it already changes nothing, as long as no table is put into
an inline table. -/
theorem merged_twice {config common : Text} {p c : Table}
    (laws : LawfulTomlEdit fun doc => PrintedTwice p c doc ∧ Printable doc)
    (hprintable : ∀ doc, PrintedTwice p c doc → Printable doc) (first second : Layout × Layout) (hconfig : parseTomlDocument config = some p)
    (hcommon : parseTomlDocument common = some c) :
    ∃ merged again mergedDoc againDoc, mergeCommonConfigIntoConfig first config common = some merged ∧
      mergeCommonConfigIntoConfig second merged common = some again ∧ parseTomlDocument merged = some mergedDoc ∧
      parseTomlDocument again = some againDoc ∧ (Item.table againDoc).Same (.table mergedDoc) := by
  have hprinted : ∀ {doc}, PrintedTwice p c doc → PrintedTwice p c doc ∧ Printable doc := fun h => ⟨h, hprintable _ h⟩
  obtain ⟨merged, hmerged, hmergedDoc⟩ := merge_eq laws first hconfig hcommon (hprinted .sanitized) (hprinted .merged)
  obtain ⟨again, hagain, hagainDoc⟩ :=
    merge_eq laws second hmergedDoc hcommon (hprinted .sanitized) (hprinted .again)
  refine ⟨merged, again, _, _, hmerged, hagain, hmergedDoc, hagainDoc, (canonical_same _).trans ?_⟩
  have hread : canonical (commonOf c) = commonOf c :=
    laws.canonical_eq _ _ (laws.reads_back first.1 _ (hprinted .sanitized))
  have hsame := merged_same (.table (commonOf c)) (isRead_table hread) _ (absorbs_merged hread p)
  rwa [mergeTomlItem] at hsame

end Texts

/-! ## An example -/

section Sample

def sampleTable : Table := [("model".toList, .scalar (.string "gpt".toList))]

def sampleCommon : Table := [("network".toList, .inlineTable [("proxy".toList, .scalar (.string "on".toList))])]

def sampleDocs : Nat → Table
  | 0 => []
  | 1 => sampleTable
  | 2 => sampleCommon
  | _ => sampleTable ++ sampleCommon

def sampleText (text : String) (i : Nat) : List (Text × Nat) := [((text ++ "\n").toList, i), (text.toList, i)]

def sampleTexts : List (Text × Nat) :=
  [([], 0), (['\n'], 0)] ++ sampleText "model = \"gpt\"" 1 ++ sampleText "network = \x7b proxy = \"on\" \x7d" 2 ++
    sampleText "model = \"gpt\"\nnetwork = \x7b proxy = \"on\" \x7d" 3

abbrev sampleTomlEdit : TomlEdit := fewDocuments sampleTexts sampleDocs

abbrev sampleConfig : Text := "model = \"gpt\"\n".toList

abbrev sampleCommonConfig : Text := "network = \x7b proxy = \"on\" \x7d\n".toList

theorem sample_readsTexts : @ReadsTexts sampleTomlEdit := by
  have hblank : ∀ entry ∈ sampleTexts, (trim entry.1).isEmpty = true → entry.2 = 0 := by decide +kernel
  refine readsTexts_fewDocuments (fun entry _ => ?_) (fun entry hmem hempty => ?_) (by decide +kernel)
  · obtain ⟨text, i⟩ := entry
    rcases i with _ | _ | _ | i <;> rfl
  · rw [hblank entry hmem hempty]
    rfl

abbrev sampleLayouts : @Layouts sampleTomlEdit := @Layouts.mk sampleTomlEdit ((), ()) () ((), ())

theorem sample_parse : @parseTomlDocument sampleTomlEdit sampleConfig = some sampleTable := by
  rfl

theorem sample_parse_common : @parseTomlDocument sampleTomlEdit sampleCommonConfig = some sampleCommon := by
  rfl

/-- A profile and the common configuration name the same model. The model is stripped from the profile, and not merged
into it again. -/
theorem sample_loses_model : ¬@KeepsEffectiveConfig sampleTomlEdit sampleLayouts sampleConfig sampleConfig := by
  have hblank : (trim sampleConfig).isEmpty = false := by decide +kernel
  have hlawful : @LawfulTomlEdit sampleTomlEdit (PrintedAgain sampleTable sampleTable) := by
    refine @LawfulTomlEdit.mk sampleTomlEdit _ sample_readsTexts fun layout doc hprinted => ?_
    cases hprinted <;> rfl
  rw [@keeps_iff sampleTomlEdit _ _ _ _ hlawful sampleLayouts sample_parse sample_parse hblank]
  intro hshares
  refine hshares sampleTable sampleTable "model".toList _ _ sample_parse sample_parse (by decide +kernel) rfl rfl ?_
  exact ⟨[], _, _, rfl, rfl, .inr (.inr ⟨_, _, rfl, rfl, by decide +kernel⟩)⟩

/-- A profile with a model is kept under a common configuration without one, and under a blank one. -/
theorem sample_keeps_iff : @KeepsEffectiveConfig sampleTomlEdit sampleLayouts sampleConfig sampleCommonConfig ∧
    @KeepsEffectiveConfig sampleTomlEdit sampleLayouts sampleConfig [] := by
  constructor
  · have hlawful : @LawfulTomlEdit sampleTomlEdit (PrintedAgain sampleTable sampleCommon) := by
      refine @LawfulTomlEdit.mk sampleTomlEdit _ sample_readsTexts fun layout doc hprinted => ?_
      cases hprinted <;> rfl
    refine ((@keeps_effective_config sampleTomlEdit _ _ _ _ hlawful sampleLayouts sample_parse sample_parse_common).1
      (by decide +kernel)).mpr fun p c key target source hp hc _ htarget hsource => ?_
    cases sample_parse.symm.trans hp
    cases sample_parse_common.symm.trans hc
    obtain rfl : "model".toList = key :=
      congrArg Prod.fst (List.mem_singleton.mp (Entries.mem_of_lookup htarget)).symm
    cases hsource
  · have hlawful : @LawfulTomlEdit sampleTomlEdit (PrintedAgain sampleTable []) := by
      refine @LawfulTomlEdit.mk sampleTomlEdit _ sample_readsTexts fun layout doc hprinted => ?_
      cases hprinted <;> rfl
    refine (@keeps_effective_config sampleTomlEdit _ _ _ _ hlawful sampleLayouts sample_parse rfl).2 (by decide +kernel) rfl
      ⟨?_, ?_⟩
    · decide +kernel
    · decide +kernel

theorem sample_merged_twice : ∃ merged again mergedDoc againDoc,
    @mergeCommonConfigIntoConfig sampleTomlEdit ((), ()) sampleConfig sampleCommonConfig = some merged ∧
      @mergeCommonConfigIntoConfig sampleTomlEdit ((), ()) merged sampleCommonConfig = some again ∧
      @parseTomlDocument sampleTomlEdit merged = some mergedDoc ∧
      @parseTomlDocument sampleTomlEdit again = some againDoc ∧ (Item.table againDoc).Same (.table mergedDoc) := by
  refine @merged_twice sampleTomlEdit _ _ _ _ (@LawfulTomlEdit.mk sampleTomlEdit _ sample_readsTexts ?_) ?_ _ _
    sample_parse sample_parse_common
  · rintro layout doc ⟨hprinted, -⟩
    cases hprinted <;> rfl
  · intro doc hprinted
    cases hprinted <;> rfl

end Sample

end Lumio.Config
