import Lumio.Sync.Store
import Lumio.Protocol.Paths

/-!
# What a call does to the staged stream

The store stages one stream at a time: its header, the entries of a snapshot and the revision items of an
incremental stream. `StreamMove` lists all that a call can do to the three tables; the invariants of the
staged stream are read off it.
-/

namespace Lumio.Sync

open Lumio.Protocol Prog

/-! ## Byte order of paths -/

def WorkspacePath.Before (left right : WorkspacePath) : Prop := right.le left = false

theorem WorkspacePath.Before.trans {a b c : WorkspacePath} (hab : WorkspacePath.Before a b)
    (hbc : WorkspacePath.Before b c) : WorkspacePath.Before a c := by
  have hle : a.le b = true := by
    rcases bytesLe_total a.chars b.chars with h | h
    · exact h
    · exact absurd h (by simpa [WorkspacePath.Before, WorkspacePath.le] using hab)
  apply Bool.eq_false_iff.mpr
  intro hca
  exact absurd (bytesLe_trans hca hle) (by simpa [WorkspacePath.Before, WorkspacePath.le] using hbc)

/-! ## Calls -/

/-- The calls of the store that write the staged stream. A put of a row that is there is an update of its
status. -/
inductive StreamCall where
  | beginStream (begin_ : WorkspaceSnapshotBeginMessage)
  | putStreamEntry (entry : WorkspaceSnapshotEntryMessage) (status : StreamItemStatus)
  | putStreamEvent (event : WorkspaceEventMessage) (status : StreamItemStatus)
  | putStreamConflictResolved (message : WorkspaceConflictResolvedMessage) (status : StreamItemStatus)
  | putStreamConflict (message : WorkspaceConflictCreatedMessage) (streamId : StreamId)
      (status : StreamConflictStatus)
  | setStreamEndReceived
  | clearStream

def StreamCall.run [Env] : StreamCall → TxM Unit
  | .beginStream begin_ => Sync.beginStream begin_
  | .putStreamEntry entry status => do
    let _ ← Sync.putStreamEntry entry status
  | .putStreamEvent event status => do
    let _ ← Sync.putStreamEvent event status
  | .putStreamConflictResolved message status => do
    let _ ← Sync.putStreamConflictResolved message status
  | .putStreamConflict message streamId status => Sync.putStreamConflict message streamId status
  | .setStreamEndReceived => Sync.setStreamEndReceived
  | .clearStream => Sync.clearStream

structure StagedStream where
  stream : Option StreamState
  entries : Table Nat StreamEntryRecord
  items : Table WorkspaceRevision StreamRevisionItemRecord

def Db.staged (db : Db) : StagedStream := ⟨db.stream, db.entries, db.items⟩

def StreamItemStatus.Moves (before after : StreamItemStatus) : Prop :=
  before.settled = false ∧ streamStatusTransitionAllowed before after = true

def StreamRevisionItem.row (item : StreamRevisionItem) (status : StreamItemStatus) : StreamRevisionItemRecord :=
  ⟨item.revision, item, item.eventIndex, status⟩

def StreamState.withItem (active : StreamState) (item : StreamRevisionItem) : StreamState :=
  match item.eventIndex with
  | some index => { active with nextEventIndex := index + 1 }
  | none => active

/-- An entry may be stored next: its index follows the last one and its path comes after the last one. -/
structure EntryFollows (active : StreamState) (entries : Table Nat StreamEntryRecord)
    (entry : WorkspaceSnapshotEntryMessage) : Prop where
  fresh : entries.lookup entry.index = none
  index : entry.index = entries.entries.length
  announced : entry.index < active.expectedEntryCount
  path : ∀ previous ∈ (entries.orderBy fun a b => b.body.index ≤ a.body.index).head?,
    WorkspacePath.Before previous.body.entry.path entry.entry.path

/-- An item may be stored next: its revision is above all stored ones and inside the stream, and its event
index, if it has one, is the next one. -/
structure ItemFollows (active : StreamState) (items : Table WorkspaceRevision StreamRevisionItemRecord)
    (item : StreamRevisionItem) : Prop where
  fresh : items.lookup item.revision = none
  room : items.entries.length < active.expectedEventCount
  above : active.fromRevision < item.revision
  below : item.revision ≤ active.finalRevision
  last : ∀ revision ∈ items.keys, revision < item.revision
  index : ∀ index ∈ item.eventIndex, index = active.nextEventIndex ∧ index < active.expectedEventCount

structure StagedStream.Fresh (staged : StagedStream) : Prop where
  entries : staged.entries = ∅
  items : staged.items = ∅
  next : ∀ active ∈ staged.stream, active.nextEventIndex = 0

/-- The call clears the stream or puts another one in its place. -/
def StreamCall.Resets (db : Db) : StreamCall → Prop
  | .clearStream => True
  | .beginStream begin_ => ∃ active, db.stream = some active ∧ active.streamId ≠ begin_.streamId
  | _ => False

inductive StreamMove : StagedStream → StagedStream → Prop where
  | stay (staged : StagedStream) : StreamMove staged staged
  | start {staged : StagedStream} (begin_ : WorkspaceSnapshotBeginMessage) (none : staged.stream = none) :
      StreamMove staged { staged with stream := some (streamStateFromBegin begin_) }
  | endReceived {staged : StagedStream} {active : StreamState} (stream : staged.stream = some active) :
      StreamMove staged { staged with stream := some { active with endReceived := true } }
  | entryStatus {staged : StagedStream} {active : StreamState} {row : StreamEntryRecord} {index : Nat}
      {status : StreamItemStatus} (stream : staged.stream = some active)
      (stored : staged.entries.lookup index = some row) (moves : row.status.Moves status) :
      StreamMove staged { staged with entries := staged.entries.insert index { row with status } }
  | entry {staged : StagedStream} {active : StreamState} {entry : WorkspaceSnapshotEntryMessage}
      {status : StreamItemStatus} (stream : staged.stream = some active) (mode : active.mode = .snapshot)
      (follows : EntryFollows active staged.entries entry) :
      StreamMove staged { staged with entries := staged.entries.insert entry.index ⟨entry, status⟩ }
  | itemStatus {staged : StagedStream} {active : StreamState} {row : StreamRevisionItemRecord}
      {revision : WorkspaceRevision} {status : StreamItemStatus} (stream : staged.stream = some active)
      (stored : staged.items.lookup revision = some row) (moves : row.status.Moves status) :
      StreamMove staged { staged with items := staged.items.insert revision { row with status } }
  | item {staged : StagedStream} {active : StreamState} {item : StreamRevisionItem} {status : StreamItemStatus}
      (stream : staged.stream = some active) (mode : active.mode = .incremental)
      (follows : ItemFollows active staged.items item) :
      StreamMove staged
        ⟨some (active.withItem item), staged.entries, staged.items.insert item.revision (item.row status)⟩

/-! ## What a put does -/

section Puts

variable {db : Db} {streamId : StreamId} {status : StreamItemStatus}

/-- A put of an entry: the status it answers and the store after it. -/
inductive PutsEntry (entry : WorkspaceSnapshotEntryMessage) (status : StreamItemStatus) (db : Db) :
    StreamItemStatus → Db → Prop where
  | settled {active : StreamState} {row : StreamEntryRecord} (stream : db.stream = some active)
      (stored : db.entries.lookup entry.index = some row) (body : row.body = entry)
      (settled : row.status.settled = true) : PutsEntry entry status db row.status db
  | moved {active : StreamState} {row : StreamEntryRecord} (stream : db.stream = some active)
      (stored : db.entries.lookup entry.index = some row) (body : row.body = entry) (moves : row.status.Moves status) :
      PutsEntry entry status db status { db with entries := db.entries.insert entry.index ⟨entry, status⟩ }
  | added {active : StreamState} (stream : db.stream = some active) (mode : active.mode = .snapshot)
      (follows : EntryFollows active db.entries entry) :
      PutsEntry entry status db status { db with entries := db.entries.insert entry.index ⟨entry, status⟩ }

inductive PutsItem (streamId : StreamId) (item : StreamRevisionItem) (status : StreamItemStatus) (db : Db) :
    StreamItemStatus → Db → Prop where
  | settled {active : StreamState} {row : StreamRevisionItemRecord} (stream : db.stream = some active)
      (stored : db.items.lookup item.revision = some row) (index : row.eventIndex = item.eventIndex)
      (body : row.body = item) (settled : row.status.settled = true) : PutsItem streamId item status db row.status db
  | moved {active : StreamState} {row : StreamRevisionItemRecord} (stream : db.stream = some active)
      (stored : db.items.lookup item.revision = some row) (index : row.eventIndex = item.eventIndex)
      (body : row.body = item) (moves : row.status.Moves status) :
      PutsItem streamId item status db status { db with items := db.items.insert item.revision { row with status } }
  | added {active : StreamState} (stream : db.stream = some active) (same : active.streamId = streamId)
      (mode : active.mode = .incremental) (follows : ItemFollows active db.items item) :
      PutsItem streamId item status db status { db with
        stream := some (active.withItem item), items := db.items.insert item.revision (item.row status) }

theorem putStreamRevisionItem_wp (streamId : StreamId) (item : StreamRevisionItem) (status : StreamItemStatus) (db : Db) :
    wp (putStreamRevisionItem streamId item status) (PutsItem streamId item status db) (fun _ after => after = db) db := by
  simp only [putStreamRevisionItem, wp_bind, wp_get]
  split
  · rfl
  rename_i active hactive
  split
  · rfl
  rename_i hsame
  split
  · rfl
  rename_i hmode
  split
  · rename_i row hrow
    split
    · rfl
    rename_i hindex
    split
    · rfl
    rename_i hbody
    split
    · rename_i hsettled
      exact .settled hactive hrow (not_ne_iff.mp hindex) (not_ne_iff.mp hbody) hsettled
    rename_i hsettled
    split
    · rename_i hallowed
      exact .moved hactive hrow (not_ne_iff.mp hindex) (not_ne_iff.mp hbody) ⟨by simpa using hsettled, hallowed⟩
    · rfl
  · rename_i hfresh
    split
    · rfl
    rename_i hroom
    split
    · rfl
    rename_i hrange
    split
    · rfl
    rename_i hlast
    split
    · rfl
    rename_i hindex
    obtain ⟨habove, hbelow⟩ := not_or.mp hrange
    refine .added hactive (not_ne_iff.mp hsame) (not_ne_iff.mp hmode)
      ⟨hfresh, Nat.lt_of_not_le hroom, Nat.lt_of_not_le habove, Nat.le_of_not_lt hbelow, ?_, ?_⟩
    · intro revision hrevision
      have hnone := List.any_eq_false.mp (Bool.eq_false_iff.mpr hlast) revision hrevision
      exact Nat.lt_of_not_le (by simpa using hnone)
    · intro index hitem
      rw [Option.mem_def.mp hitem] at hindex
      simpa using hindex

variable [Env]

theorem putStreamEntry_wp (entry : WorkspaceSnapshotEntryMessage) (status : StreamItemStatus) (db : Db) :
    wp (putStreamEntry entry status) (PutsEntry entry status db) (fun _ after => after = db) db := by
  unfold putStreamEntry
  split
  · rfl
  split
  · rfl
  simp only [wp_bind, wp_get]
  split
  · rfl
  rename_i active hactive
  split
  · rfl
  split
  · rfl
  rename_i hmode
  split
  · rename_i row hrow
    split
    · rfl
    rename_i hbody
    split
    · rename_i hsettled
      exact .settled hactive hrow (not_ne_iff.mp hbody) hsettled
    rename_i hsettled
    split
    · rename_i hallowed
      exact .moved hactive hrow (not_ne_iff.mp hbody) ⟨by simpa using hsettled, hallowed⟩
    · rfl
  · rename_i hfresh
    split
    · rfl
    rename_i horder
    split
    · rfl
    rename_i hpath
    obtain ⟨hindex, hcount⟩ := not_or.mp horder
    refine .added hactive (not_ne_iff.mp hmode) ⟨hfresh, not_ne_iff.mp hindex, Nat.lt_of_not_le hcount, ?_⟩
    intro previous hprevious
    rw [Option.mem_def.mp hprevious] at hpath
    simpa [WorkspacePath.Before] using hpath

inductive PutsConflict (message : WorkspaceConflictCreatedMessage) (status : StreamConflictStatus) (db : Db) :
    Db → Prop where
  | kept : PutsConflict message status db db
  | stored (valid : message.validate.isOk = true) (workspace : message.workspaceId = Env.workspaceId) :
      PutsConflict message status db
        { db with streamConflicts := db.streamConflicts.insert message.conflictId ⟨message, status⟩ }

theorem putStreamConflict_wp (message : WorkspaceConflictCreatedMessage) (streamId : StreamId)
    (status : StreamConflictStatus) (db : Db) :
    wp (putStreamConflict message streamId status) (fun _ => PutsConflict message status db)
      (fun _ after => after = db) db := by
  unfold putStreamConflict
  split
  · rfl
  rename_i hvalid
  split
  · rfl
  rename_i hworkspace
  have hstored : PutsConflict message status db
      { db with streamConflicts := db.streamConflicts.insert message.conflictId ⟨message, status⟩ } :=
    .stored (Bool.eq_true_of_not_eq_false hvalid) (not_ne_iff.mp hworkspace)
  simp only [wp_bind, wp_get]
  split
  · rfl
  split
  · rfl
  split
  · split
    · rfl
    split
    · exact .kept
    split
    · exact hstored
    · rfl
  · split
    · rfl
    · exact hstored

end Puts

/-! ## Each call makes one move -/

/-- The program makes one move on the staged stream; if it fails, the store is as it was. -/
def MovesStream {α : Type} (m : TxM α) : Prop :=
  ∀ db, wp m (fun _ after => StreamMove db.staged after.staged) (fun _ after => after = db) db

theorem MovesStream.discard {α : Type} {m : TxM α} (h : MovesStream m) : MovesStream (do let _ ← m) := by
  intro db
  exact wp_seq (h db) fun _ _ hmove => hmove

section Calls

variable [Env]

theorem beginStream_moves (begin_ : WorkspaceSnapshotBeginMessage) (db : Db) :
    wp (beginStream begin_)
      (fun _ after => StreamMove db.staged after.staged ∨
        (StreamCall.beginStream begin_).Resets db ∧ after.staged.Fresh)
      (fun _ after => after = db) db := by
  unfold beginStream
  split
  · rfl
  split
  · rfl
  simp only [wp_bind, wp_get]
  split
  · rename_i active hactive
    split
    · split
      · exact .inl (.stay _)
      · rfl
    rename_i hother
    split
    · rfl
    split
    · rfl
    · refine .inr ⟨⟨active, hactive, hother⟩, rfl, rfl, ?_⟩
      intro started hstarted
      obtain rfl := Option.some.inj hstarted
      rfl
  · rename_i hnone
    exact .inl (.start begin_ hnone)

theorem putStreamEntry_movesStream (entry : WorkspaceSnapshotEntryMessage) (status : StreamItemStatus) :
    MovesStream (putStreamEntry entry status) := by
  intro db
  refine wp_mono (putStreamEntry_wp entry status db) (fun _ after h => ?_) (fun _ _ h => h)
  cases h with
  | settled => exact .stay _
  | @moved active row hstream hstored hbody hmoves =>
    have hrow : (⟨entry, status⟩ : StreamEntryRecord) = { row with status } := by rw [← hbody]
    rw [hrow]
    exact .entryStatus hstream hstored hmoves
  | added hstream hmode hfollows => exact .entry hstream hmode hfollows

omit [Env] in
theorem putStreamRevisionItem_movesStream (streamId : StreamId) (item : StreamRevisionItem)
    (status : StreamItemStatus) : MovesStream (putStreamRevisionItem streamId item status) := by
  intro db
  refine wp_mono (putStreamRevisionItem_wp streamId item status db) (fun _ after h => ?_) (fun _ _ h => h)
  cases h with
  | settled => exact .stay _
  | moved hstream hstored _ _ hmoves => exact .itemStatus hstream hstored hmoves
  | added hstream _ hmode hfollows => exact .item hstream hmode hfollows

theorem putStreamEvent_movesStream (event : WorkspaceEventMessage) (status : StreamItemStatus) :
    MovesStream (putStreamEvent event status) := by
  intro db
  unfold putStreamEvent
  split
  · rfl
  split
  · rfl
  · exact putStreamRevisionItem_movesStream _ _ _ db

theorem putStreamConflictResolved_movesStream (message : WorkspaceConflictResolvedMessage)
    (status : StreamItemStatus) : MovesStream (putStreamConflictResolved message status) := by
  intro db
  unfold putStreamConflictResolved
  split
  · rfl
  split
  · rfl
  simp only [wp_bind, wp_get]
  split
  · rfl
  · exact putStreamRevisionItem_movesStream _ _ _ db

theorem putStreamConflict_movesStream (message : WorkspaceConflictCreatedMessage) (streamId : StreamId)
    (status : StreamConflictStatus) : MovesStream (putStreamConflict message streamId status) := by
  intro db
  refine wp_mono (putStreamConflict_wp message streamId status db) (fun _ after h => ?_) (fun _ _ h => h)
  cases h with
  | kept => exact .stay _
  | stored => exact .stay _

omit [Env] in
theorem setStreamEndReceived_movesStream : MovesStream setStreamEndReceived := by
  intro db
  simp only [setStreamEndReceived, wp_bind, wp_get]
  split
  · rfl
  · rename_i active hactive
    exact .endReceived hactive

/-- Each call makes one move on the staged stream, or sets the tables up for a new one; a call that fails
leaves the store as it was. -/
theorem StreamCall.run_moves (call : StreamCall) (db : Db) :
    wp call.run (fun _ after => StreamMove db.staged after.staged ∨ call.Resets db ∧ after.staged.Fresh)
      (fun _ after => after = db) db := by
  have moves : ∀ {α : Type} {m : TxM α}, MovesStream m →
      wp (do let _ ← m) (fun _ after => StreamMove db.staged after.staged ∨ call.Resets db ∧ after.staged.Fresh)
        (fun _ after => after = db) db :=
    fun h => wp_mono (h.discard db) (fun _ _ hmove => .inl hmove) (fun _ _ hsame => hsame)
  cases call with
  | beginStream begin_ => exact beginStream_moves begin_ db
  | putStreamEntry entry status => exact moves (putStreamEntry_movesStream entry status)
  | putStreamEvent event status => exact moves (putStreamEvent_movesStream event status)
  | putStreamConflictResolved message status => exact moves (putStreamConflictResolved_movesStream message status)
  | putStreamConflict message streamId status =>
    exact wp_mono (putStreamConflict_movesStream message streamId status db) (fun _ _ hmove => .inl hmove)
      (fun _ _ hsame => hsame)
  | setStreamEndReceived =>
    exact wp_mono (setStreamEndReceived_movesStream db) (fun _ _ hmove => .inl hmove) (fun _ _ hsame => hsame)
  | clearStream => exact .inr ⟨trivial, rfl, rfl, fun _ h => by cases h⟩

end Calls

end Lumio.Sync
