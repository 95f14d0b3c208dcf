import Lumio.Sync.Streams.Moves
import Lumio.Sync.Run
import Mathlib.Logic.Relation

/-!
# The invariant of the staged stream

Whatever calls are made, in whatever order and with whatever messages, the stored entries are the first
entries of the announced snapshot in the order of their paths, the stored items are in the order of their
revisions with their event indexes counted without a gap, and a stored row keeps its body and never goes
back to an earlier status.
-/

namespace Lumio.Sync

open Lumio.Protocol Prog

/-! ## The invariant -/

/-- The stored entries are the entries with index 0 to n - 1, with n at most the announced count, and their
paths are in strict byte order. -/
structure EntriesOrdered (entries : Table Nat StreamEntryRecord) (announced : Nat) : Prop where
  stored : ∀ index, (∃ row, entries.lookup index = some row) ↔ index < entries.entries.length
  indexed : ∀ {index row}, entries.lookup index = some row → row.body.index = index
  paths : ∀ {i j a b}, entries.lookup i = some a → entries.lookup j = some b → i < j →
    WorkspacePath.Before a.body.entry.path b.body.entry.path
  count : entries.entries.length ≤ announced

/-- The stored items lie inside the stream, each under its own revision. The event indexes among them are
0 to k - 1, in the order of the revisions, where k is the next index of the header. -/
structure ItemsOrdered (items : Table WorkspaceRevision StreamRevisionItemRecord) (active : StreamState) : Prop where
  keyed : ∀ {revision row}, items.lookup revision = some row → row = row.body.row row.status ∧ row.revision = revision
  range : ∀ {revision row}, items.lookup revision = some row →
    active.fromRevision < revision ∧ revision ≤ active.finalRevision
  indexes : ∀ index, (∃ revision row, items.lookup revision = some row ∧ row.eventIndex = some index) ↔
    index < active.nextEventIndex
  ordered : ∀ {r r' a b i j}, items.lookup r = some a → items.lookup r' = some b → a.eventIndex = some i →
    b.eventIndex = some j → r < r' → i < j
  count : items.entries.length ≤ active.expectedEventCount
  next : active.nextEventIndex ≤ active.expectedEventCount

/-- Rows are stored only for the active stream. -/
def StreamInvariant (staged : StagedStream) : Prop :=
  match staged.stream with
  | none => staged.entries = ∅ ∧ staged.items = ∅
  | some active => EntriesOrdered staged.entries active.expectedEntryCount ∧ ItemsOrdered staged.items active

theorem EntriesOrdered.empty (announced : Nat) : EntriesOrdered ∅ announced where
  stored := fun index => by simp
  indexed := fun h => by simp at h
  paths := fun h => by simp at h
  count := Nat.zero_le _

theorem ItemsOrdered.empty {active : StreamState} (h : active.nextEventIndex = 0) : ItemsOrdered ∅ active where
  keyed := fun hrow => by simp at hrow
  range := fun hrow => by simp at hrow
  indexes := fun index => by simp [h]
  ordered := fun hrow => by simp at hrow
  count := Nat.zero_le _
  next := h ▸ Nat.zero_le _

/-! ## One entry or item more -/

namespace EntriesOrdered

variable {entries : Table Nat StreamEntryRecord} {announced : Nat}

variable {index : Nat} {row : StreamEntryRecord}

theorem before_of_last (h : EntriesOrdered entries announced) {previous : StreamEntryRecord} {path : WorkspacePath}
    (hlast : previous ∈ (entries.orderBy fun a b => b.body.index ≤ a.body.index).head?)
    (hpath : WorkspacePath.Before previous.body.entry.path path) (hrow : entries.lookup index = some row) :
    WorkspacePath.Before row.body.entry.path path := by
  obtain ⟨key, hkey⟩ := Table.mem_orderBy_iff.mp (List.mem_of_mem_head? hlast)
  have hle : row.body.index ≤ previous.body.index := by
    have := Table.le_of_head_orderBy (by simp; omega) (by simp; omega) hlast (Table.mem_values_iff.mpr ⟨index, hrow⟩)
    simpa using this
  rw [h.indexed hrow, h.indexed hkey] at hle
  rcases Nat.lt_or_eq_of_le hle with hlt | heq
  · exact (h.paths hrow hkey hlt).trans hpath
  · subst heq
    rw [hrow] at hkey
    obtain rfl := Option.some.inj hkey
    exact hpath

theorem exists_last (hrow : entries.lookup index = some row) :
    ∃ previous, previous ∈ (entries.orderBy fun a b => b.body.index ≤ a.body.index).head? := by
  have hmem : row ∈ entries.orderBy fun a b => b.body.index ≤ a.body.index :=
    Table.mem_orderBy_iff.mpr ⟨index, hrow⟩
  cases hrows : entries.orderBy fun a b => b.body.index ≤ a.body.index with
  | nil => simp [hrows] at hmem
  | cons previous rest => exact ⟨previous, by simp⟩

theorem insert {active : StreamState} (h : EntriesOrdered entries active.expectedEntryCount)
    {entry : WorkspaceSnapshotEntryMessage} (hnext : EntryFollows active entries entry) (status : StreamItemStatus) :
    EntriesOrdered (entries.insert entry.index ⟨entry, status⟩) active.expectedEntryCount where
  stored := by
    intro index
    rw [Table.length_insert_of_none hnext.fresh, ← hnext.index]
    constructor
    · rintro ⟨row, hrow⟩
      rcases (Table.lookup_insert_iff row).mp hrow with ⟨rfl, -⟩ | ⟨-, hold⟩
      · omega
      · have := (h.stored index).mp ⟨row, hold⟩
        have := hnext.index
        omega
    · intro hlt
      by_cases heq : index = entry.index
      · exact ⟨⟨entry, status⟩, (Table.lookup_insert_iff _).mpr (.inl ⟨heq, rfl⟩)⟩
      · obtain ⟨row, hrow⟩ := (h.stored index).mpr (by have := hnext.index; omega)
        exact ⟨row, (Table.lookup_insert_iff _).mpr (.inr ⟨heq, hrow⟩)⟩
  indexed := by
    intro index row hrow
    rcases (Table.lookup_insert_iff row).mp hrow with ⟨rfl, rfl⟩ | ⟨-, hold⟩
    · rfl
    · exact h.indexed hold
  paths := by
    intro i j a b ha hb hij
    rcases (Table.lookup_insert_iff b).mp hb with ⟨rfl, rfl⟩ | ⟨-, hb'⟩
    · rcases (Table.lookup_insert_iff a).mp ha with ⟨rfl, -⟩ | ⟨-, ha'⟩
      · omega
      · obtain ⟨previous, hprevious⟩ := exists_last ha'
        exact h.before_of_last hprevious (hnext.path previous hprevious) ha'
    · rcases (Table.lookup_insert_iff a).mp ha with ⟨rfl, -⟩ | ⟨-, ha'⟩
      · have := (h.stored j).mp ⟨b, hb'⟩
        have := hnext.index
        omega
      · exact h.paths ha' hb' hij
  count := by
    rw [Table.length_insert_of_none hnext.fresh, ← hnext.index]
    exact hnext.announced

theorem setStatus (h : EntriesOrdered entries announced) (hrow : entries.lookup index = some row)
    (status : StreamItemStatus) : EntriesOrdered (entries.insert index { row with status }) announced := by
  -- a row of the new table is a row of the old one up to its status
  have hold : ∀ {i a}, (entries.insert index { row with status }).lookup i = some a →
      ∃ a', entries.lookup i = some a' ∧ a.body = a'.body := by
    intro i a ha
    rcases (Table.lookup_insert_iff a).mp ha with ⟨rfl, rfl⟩ | ⟨-, ha'⟩
    · exact ⟨row, hrow, rfl⟩
    · exact ⟨a, ha', rfl⟩
  refine ⟨?_, ?_, ?_, ?_⟩
  · intro i
    rw [Table.length_insert_of_some hrow, ← h.stored i]
    constructor
    · rintro ⟨a, ha⟩
      obtain ⟨a', ha', -⟩ := hold ha
      exact ⟨a', ha'⟩
    · rintro ⟨a, ha⟩
      by_cases heq : i = index
      · exact ⟨{ row with status }, (Table.lookup_insert_iff _).mpr (.inl ⟨heq, rfl⟩)⟩
      · exact ⟨a, (Table.lookup_insert_iff _).mpr (.inr ⟨heq, ha⟩)⟩
  · intro i a ha
    obtain ⟨a', ha', hbody⟩ := hold ha
    rw [hbody]
    exact h.indexed ha'
  · intro i j a b ha hb hij
    obtain ⟨a', ha', hbody⟩ := hold ha
    obtain ⟨b', hb', hbody'⟩ := hold hb
    rw [hbody, hbody']
    exact h.paths ha' hb' hij
  · rw [Table.length_insert_of_some hrow]
    exact h.count

end EntriesOrdered

theorem StreamState.withItem_header (active : StreamState) (item : StreamRevisionItem) :
    (active.withItem item).fromRevision = active.fromRevision ∧
      (active.withItem item).finalRevision = active.finalRevision ∧
      (active.withItem item).expectedEntryCount = active.expectedEntryCount ∧
      (active.withItem item).expectedEventCount = active.expectedEventCount := by
  unfold StreamState.withItem
  cases item.eventIndex <;> exact ⟨rfl, rfl, rfl, rfl⟩

namespace ItemsOrdered

variable {items : Table WorkspaceRevision StreamRevisionItemRecord} {active : StreamState}

theorem mem_withItem_iff {item : StreamRevisionItem}
    (hindex : ∀ index ∈ item.eventIndex, index = active.nextEventIndex ∧ index < active.expectedEventCount)
    (index : Nat) : index < (active.withItem item).nextEventIndex ↔
      index < active.nextEventIndex ∨ item.eventIndex = some index := by
  unfold StreamState.withItem
  cases hitem : item.eventIndex with
  | none => simp
  | some next =>
    obtain ⟨rfl, -⟩ := hindex next hitem
    simp only [Option.some.injEq]
    omega

theorem insert (h : ItemsOrdered items active) {item : StreamRevisionItem} (hnext : ItemFollows active items item)
    (status : StreamItemStatus) :
    ItemsOrdered (items.insert item.revision (item.row status)) (active.withItem item) := by
  obtain ⟨hfrom, hfinal, -, hexpected⟩ := active.withItem_header item
  have hbelow : ∀ {r a}, items.lookup r = some a → r < item.revision :=
    fun ha => hnext.last _ (Table.mem_keys_iff.mpr ⟨_, ha⟩)
  refine ⟨?_, ?_, ?_, ?_, ?_, ?_⟩
  · intro revision row hrow
    rcases (Table.lookup_insert_iff row).mp hrow with ⟨rfl, rfl⟩ | ⟨-, hold⟩
    · exact ⟨rfl, rfl⟩
    · exact h.keyed hold
  · intro revision row hrow
    rw [hfrom, hfinal]
    rcases (Table.lookup_insert_iff row).mp hrow with ⟨rfl, -⟩ | ⟨-, hold⟩
    · exact ⟨hnext.above, hnext.below⟩
    · exact h.range hold
  · intro index
    rw [mem_withItem_iff hnext.index, ← h.indexes index]
    constructor
    · rintro ⟨revision, row, hrow, hevent⟩
      rcases (Table.lookup_insert_iff row).mp hrow with ⟨-, rfl⟩ | ⟨-, hold⟩
      · exact .inr hevent
      · exact .inl ⟨revision, row, hold, hevent⟩
    · rintro (⟨revision, row, hrow, hevent⟩ | hevent)
      · have hne : revision ≠ item.revision := Nat.ne_of_lt (hbelow hrow)
        exact ⟨revision, row, (Table.lookup_insert_iff _).mpr (.inr ⟨hne, hrow⟩), hevent⟩
      · exact ⟨item.revision, item.row status, (Table.lookup_insert_iff _).mpr (.inl ⟨rfl, rfl⟩), hevent⟩
  · intro r r' a b i j ha hb hi hj hlt
    rcases (Table.lookup_insert_iff b).mp hb with ⟨rfl, rfl⟩ | ⟨-, hb'⟩
    · rcases (Table.lookup_insert_iff a).mp ha with ⟨rfl, -⟩ | ⟨-, ha'⟩
      · exact absurd hlt (Nat.lt_irrefl _)
      · have hold : i < active.nextEventIndex := (h.indexes i).mp ⟨r, a, ha', hi⟩
        obtain ⟨rfl, -⟩ := hnext.index j hj
        exact hold
    · rcases (Table.lookup_insert_iff a).mp ha with ⟨rfl, -⟩ | ⟨-, ha'⟩
      · exact absurd hlt (Nat.lt_asymm (hbelow hb'))
      · exact h.ordered ha' hb' hi hj hlt
  · rw [Table.length_insert_of_none hnext.fresh, hexpected]
    exact hnext.room
  · rw [hexpected]
    apply Nat.le_of_not_lt
    intro hlt
    rcases (mem_withItem_iff hnext.index _).mp hlt with hold | hevent
    · exact absurd h.next (Nat.not_le_of_lt hold)
    · exact absurd (hnext.index _ hevent).2 (Nat.lt_irrefl _)

theorem setStatus (h : ItemsOrdered items active) {revision : WorkspaceRevision} {row : StreamRevisionItemRecord}
    (hrow : items.lookup revision = some row) (status : StreamItemStatus) :
    ItemsOrdered (items.insert revision { row with status }) active := by
  have hold : ∀ {r a}, (items.insert revision { row with status }).lookup r = some a →
      ∃ a', items.lookup r = some a' ∧ a = { a' with status := a.status } := by
    intro r a ha
    rcases (Table.lookup_insert_iff a).mp ha with ⟨rfl, rfl⟩ | ⟨-, ha'⟩
    · exact ⟨row, hrow, rfl⟩
    · exact ⟨a, ha', rfl⟩
  have hevent : ∀ {r a}, (items.insert revision { row with status }).lookup r = some a →
      ∃ a', items.lookup r = some a' ∧ a.eventIndex = a'.eventIndex := by
    intro r a ha
    obtain ⟨a', ha', heq⟩ := hold ha
    exact ⟨a', ha', by rw [heq]⟩
  refine ⟨?_, ?_, ?_, ?_, ?_, h.next⟩
  · intro r a ha
    obtain ⟨a', ha', heq⟩ := hold ha
    obtain ⟨hkeyed, hrevision⟩ := h.keyed ha'
    rw [heq]
    refine ⟨?_, hrevision⟩
    rw [hkeyed]
    rfl
  · intro r a ha
    obtain ⟨a', ha', -⟩ := hold ha
    exact h.range ha'
  · intro index
    rw [← h.indexes index]
    constructor
    · rintro ⟨r, a, ha, hindex⟩
      obtain ⟨a', ha', heq⟩ := hevent ha
      exact ⟨r, a', ha', heq ▸ hindex⟩
    · rintro ⟨r, a, ha, hindex⟩
      by_cases heq : r = revision
      · subst heq
        rw [hrow] at ha
        obtain rfl := Option.some.inj ha
        exact ⟨r, { row with status }, (Table.lookup_insert_iff _).mpr (.inl ⟨rfl, rfl⟩), hindex⟩
      · exact ⟨r, a, (Table.lookup_insert_iff _).mpr (.inr ⟨heq, ha⟩), hindex⟩
  · intro r r' a b i j ha hb hi hj hlt
    obtain ⟨a', ha', ha''⟩ := hevent ha
    obtain ⟨b', hb', hb''⟩ := hevent hb
    exact h.ordered ha' hb' (ha'' ▸ hi) (hb'' ▸ hj) hlt
  · rw [Table.length_insert_of_some hrow]
    exact h.count

end ItemsOrdered

variable {after before : StagedStream}

/-- Every move keeps the invariant. -/
theorem StreamMove.invariant (move : StreamMove before after) (h : StreamInvariant before) :
    StreamInvariant after := by
  cases move with
  | stay => exact h
  | start begin_ hnone =>
    simp only [StreamInvariant, hnone] at h
    obtain ⟨hentries, hitems⟩ := h
    simp only [StreamInvariant, hentries, hitems]
    exact ⟨.empty _, .empty rfl⟩
  | endReceived hstream =>
    simp only [StreamInvariant, hstream] at h
    obtain ⟨hentries, hitems⟩ := h
    exact ⟨hentries, ⟨hitems.keyed, hitems.range, hitems.indexes, hitems.ordered, hitems.count, hitems.next⟩⟩
  | entryStatus hstream hstored hmoves =>
    simp only [StreamInvariant, hstream] at h ⊢
    exact ⟨h.1.setStatus hstored _, h.2⟩
  | entry hstream hmode hnext =>
    simp only [StreamInvariant, hstream] at h ⊢
    exact ⟨h.1.insert hnext _, h.2⟩
  | itemStatus hstream hstored hmoves =>
    simp only [StreamInvariant, hstream] at h ⊢
    exact ⟨h.1, h.2.setStatus hstored _⟩
  | @item active item status hstream hmode hnext =>
    simp only [StreamInvariant, hstream] at h ⊢
    rw [(active.withItem_header item).2.2.1]
    exact ⟨h.1, h.2.insert hnext status⟩

theorem StagedStream.Fresh.invariant {staged : StagedStream} (h : staged.Fresh) : StreamInvariant staged := by
  unfold StreamInvariant
  split
  · exact ⟨h.entries, h.items⟩
  · rename_i active hactive
    rw [h.entries, h.items]
    exact ⟨.empty _, .empty (h.next active hactive)⟩

/-! ## Rows keep their body and advance -/

def StreamItemStatus.rank : StreamItemStatus → Nat
  | .received => 0
  | .waitingBlob => 1
  | .ready => 2
  | .applied | .preserved => 3

/-- Statuses only advance; applied and preserved are final. -/
def StreamItemStatus.Advances (before after : StreamItemStatus) : Prop :=
  after = before ∨ before.settled = false ∧ before.rank < after.rank

theorem StreamItemStatus.Moves.advances {before after : StreamItemStatus} (h : before.Moves after) :
    before.Advances after := by
  obtain ⟨hsettled, hallowed⟩ := h
  revert hsettled hallowed
  unfold StreamItemStatus.Advances
  cases before <;> cases after <;> decide

theorem StreamItemStatus.Advances.trans {a b c : StreamItemStatus} (hab : a.Advances b) (hbc : b.Advances c) :
    a.Advances c := by
  rcases hab with rfl | ⟨ha, hab⟩
  · exact hbc
  · rcases hbc with rfl | ⟨-, hbc⟩
    · exact .inr ⟨ha, hab⟩
    · exact .inr ⟨ha, hab.trans hbc⟩

/-- Every stored row is still there with its body and has only advanced, and every item stored since has a
revision above those stored before. -/
structure RowsAdvance (before after : StagedStream) : Prop where
  entries : ∀ {index row}, before.entries.lookup index = some row →
    ∃ status, after.entries.lookup index = some { row with status } ∧ row.status.Advances status
  items : ∀ {revision row}, before.items.lookup revision = some row →
    ∃ status, after.items.lookup revision = some { row with status } ∧ row.status.Advances status
  newer : ∀ {revision row}, after.items.lookup revision = some row → before.items.lookup revision = none →
    ∀ stored ∈ before.items.keys, stored < revision

theorem RowsAdvance.of_eq (hentries : after.entries = before.entries) (hitems : after.items = before.items) :
    RowsAdvance before after where
  entries := fun h => ⟨_, hentries ▸ h, .inl rfl⟩
  items := fun h => ⟨_, hitems ▸ h, .inl rfl⟩
  newer := fun h hnone => by
    rw [hitems, hnone] at h
    cases h

theorem RowsAdvance.trans {a b c : StagedStream} (hab : RowsAdvance a b) (hbc : RowsAdvance b c) :
    RowsAdvance a c where
  entries := by
    intro index row hrow
    obtain ⟨status, hmid, hadvances⟩ := hab.entries hrow
    obtain ⟨status', hlast, hadvances'⟩ := hbc.entries hmid
    exact ⟨status', hlast, hadvances.trans hadvances'⟩
  items := by
    intro revision row hrow
    obtain ⟨status, hmid, hadvances⟩ := hab.items hrow
    obtain ⟨status', hlast, hadvances'⟩ := hbc.items hmid
    exact ⟨status', hlast, hadvances.trans hadvances'⟩
  newer := by
    intro revision row hrow hnone stored hstored
    cases hmid : b.items.lookup revision with
    | some row' => exact hab.newer hmid hnone stored hstored
    | none =>
      obtain ⟨old, hold⟩ := Table.mem_keys_iff.mp hstored
      obtain ⟨status, hkept, -⟩ := hab.items hold
      exact hbc.newer hrow hmid stored (Table.mem_keys_iff.mpr ⟨_, hkept⟩)

theorem StreamMove.rowsAdvance (move : StreamMove before after) : RowsAdvance before after := by
  cases move with
  | stay => exact .of_eq rfl rfl
  | start begin_ hnone => exact .of_eq rfl rfl
  | endReceived hstream => exact .of_eq rfl rfl
  | @entryStatus active row index status hstream hstored hmoves =>
    refine ⟨?_, fun h => ⟨_, h, .inl rfl⟩, fun h hnone => by simp [hnone] at h⟩
    intro i row' hrow'
    by_cases heq : i = index
    · subst heq
      rw [hstored] at hrow'
      obtain rfl := Option.some.inj hrow'
      exact ⟨status, (Table.lookup_insert_iff _).mpr (.inl ⟨rfl, rfl⟩), hmoves.advances⟩
    · exact ⟨row'.status, (Table.lookup_insert_iff _).mpr (.inr ⟨heq, hrow'⟩), .inl rfl⟩
  | @entry active entry status hstream hmode hnext =>
    refine ⟨?_, fun h => ⟨_, h, .inl rfl⟩, fun h hnone => by simp [hnone] at h⟩
    intro i row hrow
    have hne : i ≠ entry.index := fun heq => by rw [heq, hnext.fresh] at hrow; cases hrow
    exact ⟨row.status, (Table.lookup_insert_iff _).mpr (.inr ⟨hne, hrow⟩), .inl rfl⟩
  | @itemStatus active row revision status hstream hstored hmoves =>
    refine ⟨fun h => ⟨_, h, .inl rfl⟩, ?_, ?_⟩
    · intro r row' hrow'
      by_cases heq : r = revision
      · subst heq
        rw [hstored] at hrow'
        obtain rfl := Option.some.inj hrow'
        exact ⟨status, (Table.lookup_insert_iff _).mpr (.inl ⟨rfl, rfl⟩), hmoves.advances⟩
      · exact ⟨row'.status, (Table.lookup_insert_iff _).mpr (.inr ⟨heq, hrow'⟩), .inl rfl⟩
    · intro r row' hrow' hnone
      rcases (Table.lookup_insert_iff _).mp hrow' with ⟨rfl, -⟩ | ⟨-, hold⟩
      · rw [hstored] at hnone
        cases hnone
      · rw [hold] at hnone
        cases hnone
  | @item active item status hstream hmode hnext =>
    refine ⟨fun h => ⟨_, h, .inl rfl⟩, ?_, ?_⟩
    · intro r row hrow
      have hne : r ≠ item.revision := fun heq => by rw [heq, hnext.fresh] at hrow; cases hrow
      exact ⟨row.status, (Table.lookup_insert_iff _).mpr (.inr ⟨hne, hrow⟩), .inl rfl⟩
    · intro r row hrow hnone
      rcases (Table.lookup_insert_iff _).mp hrow with ⟨rfl, -⟩ | ⟨-, hold⟩
      · exact hnext.last
      · rw [hold] at hnone
        cases hnone

/-! ## A put of another body -/

section Repeated

variable [Env] {db : Db}

theorem putStreamEntry_changed {entry : WorkspaceSnapshotEntryMessage} {row : StreamEntryRecord}
    (hrow : db.entries.lookup entry.index = some row) (hbody : row.body ≠ entry) (status : StreamItemStatus) :
    wp (putStreamEntry entry status) (fun _ _ => False) (fun _ after => after = db) db := by
  refine wp_mono (putStreamEntry_wp entry status db) (fun _ after h => ?_) (fun _ _ h => h)
  have hsame : ∀ {row' : StreamEntryRecord}, db.entries.lookup entry.index = some row' → row'.body ≠ entry := by
    intro row' hrow'
    rw [hrow] at hrow'
    cases hrow'
    exact hbody
  cases h with
  | settled _ hstored hentry => exact hsame hstored hentry
  | moved _ hstored hentry => exact hsame hstored hentry
  | added _ _ hfollows =>
    rw [hfollows.fresh] at hrow
    cases hrow

omit [Env] in
theorem putStreamRevisionItem_changed (h : StreamInvariant db.staged) {item : StreamRevisionItem}
    {revision : WorkspaceRevision} {row : StreamRevisionItemRecord} (hrow : db.items.lookup revision = some row)
    (hsame : revision = item.revision ∨ ∃ index, row.eventIndex = some index ∧ item.eventIndex = some index)
    (hbody : row.body ≠ item) (streamId : StreamId) (status : StreamItemStatus) :
    wp (putStreamRevisionItem streamId item status) (fun _ _ => False) (fun _ after => after = db) db := by
  refine wp_mono (putStreamRevisionItem_wp streamId item status db) (fun _ after hput => ?_) (fun _ _ h => h)
  have hitems : ∀ {active : StreamState}, db.stream = some active → ItemsOrdered db.items active := by
    intro active hactive
    simp only [StreamInvariant, Db.staged, hactive] at h
    exact h.2
  -- a row under the revision of the item has the other body too
  have hchanged : ∀ {active : StreamState} {stored : StreamRevisionItemRecord}, db.stream = some active →
      db.items.lookup item.revision = some stored → stored.body ≠ item := by
    intro active stored hactive hstored heq
    have hstoredRow := ((hitems hactive).keyed hstored).1
    rcases hsame with rfl | ⟨index, hindex, hitem⟩
    · rw [hrow] at hstored
      obtain rfl := Option.some.inj hstored
      exact hbody heq
    · have hstoredIndex : stored.eventIndex = some index := by
        rw [hstoredRow, heq]
        exact hitem
      -- two stored events with one index have one revision
      rcases Nat.lt_trichotomy revision item.revision with hlt | heq' | hgt
      · exact absurd ((hitems hactive).ordered hrow hstored hindex hstoredIndex hlt) (Nat.lt_irrefl _)
      · subst heq'
        rw [hrow] at hstored
        obtain rfl := Option.some.inj hstored
        exact hbody heq
      · exact absurd ((hitems hactive).ordered hstored hrow hstoredIndex hindex hgt) (Nat.lt_irrefl _)
  cases hput with
  | settled hactive hstored _ hbody' => exact hchanged hactive hstored hbody'
  | moved hactive hstored _ hbody' => exact hchanged hactive hstored hbody'
  | added hactive _ _ hfollows =>
    rcases hsame with rfl | ⟨index, hindex, hitem⟩
    · rw [hfollows.fresh] at hrow
      cases hrow
    · have hold := ((hitems hactive).indexes index).mp ⟨revision, row, hrow, hindex⟩
      exact absurd (hfollows.index index hitem).1 (Nat.ne_of_lt hold)

end Repeated

/-! ## Runs -/

section Runs

variable [Env]

inductive StreamStep (allowed : Db → StreamCall → Prop) : Db → Db → Prop where
  | call {db : Db} (call : StreamCall) (h : allowed db call) : StreamStep allowed db (final call.run db)
  | elsewhere {db db' : Db} (h : db'.staged = db.staged) : StreamStep allowed db db'

def StreamRun (allowed : Db → StreamCall → Prop) : Db → Db → Prop := Relation.ReflTransGen (StreamStep allowed)

variable {db db' : Db}

theorem StreamStep.invariant {allowed : Db → StreamCall → Prop} (step : StreamStep allowed db db')
    (h : StreamInvariant db.staged) : StreamInvariant db'.staged := by
  cases step with
  | call call =>
    refine wp_final (R := fun after => StreamInvariant after.staged) (wp_mono (call.run_moves db) ?_ ?_)
    · rintro - after (hmove | ⟨-, hfresh⟩)
      · exact hmove.invariant h
      · exact hfresh.invariant
    · rintro - after rfl
      exact h
  | elsewhere hsame => exact hsame ▸ h

theorem StreamRun.invariant {allowed : Db → StreamCall → Prop} (run : StreamRun allowed db db')
    (h : StreamInvariant db.staged) : StreamInvariant db'.staged := by
  induction run with
  | refl => exact h
  | tail _ step ih => exact step.invariant ih

theorem StreamStep.rowsAdvance (step : StreamStep (fun db call => ¬call.Resets db) db db') :
    RowsAdvance db.staged db'.staged := by
  cases step with
  | call call hkept =>
    refine wp_final (R := fun after => RowsAdvance db.staged after.staged) (wp_mono (call.run_moves db) ?_ ?_)
    · rintro - after (hmove | ⟨hresets, -⟩)
      · exact hmove.rowsAdvance
      · exact absurd hresets hkept
    · rintro - after rfl
      exact .of_eq rfl rfl
  | elsewhere hsame =>
    rw [hsame]
    exact .of_eq rfl rfl

theorem StreamRun.rowsAdvance (run : StreamRun (fun db call => ¬call.Resets db) db db') :
    RowsAdvance db.staged db'.staged := by
  induction run with
  | refl => exact .of_eq rfl rfl
  | tail _ step ih => exact ih.trans step.rowsAdvance

/-- In every state a sequence of calls can reach, the staged stream is in order, its rows only advance as
long as it is the same stream, and a put of another body is refused and changes nothing. -/
theorem staged_stream_in_order {db : Db} (run : StreamRun (fun _ _ => True) Db.initial db) :
    StreamInvariant db.staged ∧
      (∀ db', StreamRun (fun db call => ¬call.Resets db) db db' → RowsAdvance db.staged db'.staged) ∧
      (∀ entry status row, db.entries.lookup entry.index = some row → row.body ≠ entry →
        ∃ e, putStreamEntry entry status db = .error e db) ∧
      (∀ event status revision row, db.items.lookup revision = some row → row.body ≠ .event event →
        (revision = event.revision ∨ row.eventIndex = some event.index) →
        ∃ e, putStreamEvent event status db = .error e db) ∧
      (∀ message status row, db.items.lookup message.revision = some row → row.body ≠ .conflictResolved message →
        ∃ e, putStreamConflictResolved message status db = .error e db) ∧
      ∀ (call : StreamCall) (e : SyncError) (db' : Db), call.run db = .error e db' → db' = db := by
  have hinvariant : StreamInvariant db.staged := run.invariant (⟨rfl, rfl⟩ : StreamInvariant Db.initial.staged)
  refine ⟨hinvariant, fun _ later => later.rowsAdvance, ?_, ?_, ?_, ?_⟩
  · intro entry status row hrow hbody
    obtain ⟨e, after, herror, rfl⟩ := exists_error_of_wp (putStreamEntry_changed hrow hbody status)
    exact ⟨e, herror⟩
  · intro event status revision row hrow hbody hsame
    have hitem : revision = (StreamRevisionItem.event event).revision ∨
        ∃ index, row.eventIndex = some index ∧ (StreamRevisionItem.event event).eventIndex = some index := by
      rcases hsame with hrevision | hindex
      · exact .inl hrevision
      · exact .inr ⟨event.index, hindex, rfl⟩
    have hrefused : wp (putStreamEvent event status) (fun _ _ => False) (fun _ after => after = db) db := by
      unfold putStreamEvent
      split
      · rfl
      split
      · rfl
      · exact putStreamRevisionItem_changed hinvariant hrow hitem hbody event.streamId status
    obtain ⟨e, after, herror, rfl⟩ := exists_error_of_wp hrefused
    exact ⟨e, herror⟩
  · intro message status row hrow hbody
    have hrefused : wp (putStreamConflictResolved message status) (fun _ _ => False) (fun _ after => after = db) db := by
      unfold putStreamConflictResolved
      split
      · rfl
      split
      · rfl
      simp only [wp_bind, wp_get]
      split
      · rfl
      · exact putStreamRevisionItem_changed hinvariant hrow (.inl rfl) hbody _ status
    obtain ⟨e, after, herror, rfl⟩ := exists_error_of_wp hrefused
    exact ⟨e, herror⟩
  · intro call e db' herror
    have hmoves := call.run_moves db
    simpa only [wp, herror] using hmoves

end Runs

open scoped Sample

/-- A snapshot of two entries, the first of which has been staged. -/
def Sample.oneEntry : Db :=
  final (StreamCall.putStreamEntry ⟨1, 7, 0, Sample.missing Sample.pathA 3⟩ .received).run
    (final (StreamCall.beginStream ⟨1, 7, .snapshot, 0, 3, 2, 0, 0⟩).run Db.initial)

theorem staged_stream_of_oneEntry :
    ∃ e, putStreamEntry ⟨1, 7, 0, Sample.missing Sample.pathB 3⟩ .received Sample.oneEntry = .error e Sample.oneEntry := by
  have hrun : StreamRun (fun _ _ => True) Db.initial Sample.oneEntry :=
    (Relation.ReflTransGen.refl.tail (.call _ trivial)).tail (.call _ trivial)
  have hrow : Sample.oneEntry.entries.lookup 0 =
      some ⟨⟨1, 7, 0, Sample.missing Sample.pathA 3⟩, .received⟩ := by decide +kernel
  exact (staged_stream_in_order hrun).2.2.1 ⟨1, 7, 0, Sample.missing Sample.pathB 3⟩ .received _ hrow (by decide)

end Lumio.Sync
