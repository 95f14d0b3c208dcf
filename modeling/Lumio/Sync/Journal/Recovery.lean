import Lumio.Sync.Journal.Retry
import Lumio.Protocol.Valid

/-!
# The journal rows a new engine accepts

An engine that is opened on a store with journal rows checks each row against the message its commit plan holds,
before it does anything with it. The checks are those of the message itself, and that the rest of the row follows
from it. A row that does not pass makes the open fail.
-/

namespace Lumio.Sync

open Lumio.Protocol Lumio.Fs Prog

/-! ## The checks of a new engine -/

def corruptJournal (field : String) : Except SyncError Unit := .error (.corruptState "apply_journal" field)

def ApplyCommitPlan.validate : ApplyCommitPlan → Except WorkspaceValidationError Unit
  | .snapshotEntry entry => entry.validate
  | .streamEvent event _ | .liveEvent event _ => event.validate
  | .streamConflictResolved message | .liveConflictResolved message => message.validate

def ApplyCommitPlan.isExact [Env] (db : Db) (record : ApplyJournalRecord) : ApplyCommitPlan → Bool
  | .snapshotEntry entry =>
    record.itemKind = .entry && Env.workspaceId = entry.workspaceId && record.streamId = entry.streamId &&
      record.itemKey = .path entry.entry.path
  | .streamEvent event _ | .liveEvent event _ =>
    record.itemKind = .event && Env.workspaceId = event.workspaceId && record.streamId = event.streamId &&
      record.itemKey = .revision event.revision
  | .streamConflictResolved message =>
    record.itemKind = .conflictResolved && Env.workspaceId = message.workspaceId &&
      db.stream.any (·.streamId = record.streamId) && record.itemKey = .revision message.revision
  | .liveConflictResolved message =>
    record.itemKind = .conflictResolved && Env.workspaceId = message.workspaceId &&
      record.streamId = liveApplyStreamId && record.itemKey = .revision message.revision

def Db.validateApplyCommitPlan [Env] (db : Db) (record : ApplyJournalRecord) (plan : ApplyCommitPlan) :
    Except SyncError Unit :=
  if record.applyNamespace ≠ plan.namespace then corruptJournal "apply_namespace"
  else if plan.validate.isOk = false then corruptJournal "commit_json"
  else if plan.isExact db record then .ok ()
  else corruptJournal "commit_json"

def ApplyCommitPlan.expected : ApplyCommitPlan → RemoteApplyOperation × List WorkspacePathState
  | .snapshotEntry entry => (.fromState entry.entry, [entry.entry])
  | .streamEvent event _ | .liveEvent event _ => (.fromEvent event, eventPostStates event)
  | .streamConflictResolved message | .liveConflictResolved message =>
    (.fromState message.pathState, [message.pathState])

def filesystemOperationMatchesRemote : FsOperation → RemoteApplyOperation → Bool
  | .upsertFile path contentHash metadata _, .upsert state =>
    state.kind = .file && path = state.path && state.contentHash = some contentHash && metadata = state.metadata
  | .mkdir path metadata _, .upsert state =>
    state.kind = .directory && path = state.path && metadata = state.metadata
  | .upsertSymlink path contentHash metadata _, .upsert state =>
    state.kind = .symlink && path = state.path && state.contentHash = some contentHash &&
      metadata = state.metadata
  | .delete path _, .delete state => path = state.path && state.kind = .tombstone && state.tombstone
  | .rename path newPath contentHash metadata _ _, .rename oldState newState =>
    path = oldState.path && newPath = newState.path && oldState.kind = .tombstone && oldState.tombstone &&
      newState.kind ≠ .tombstone && !newState.tombstone && contentHash = newState.contentHash &&
      metadata = newState.metadata
  | _, _ => false

def validateApplyRecoveryTuple (operation : RemoteApplyOperation) (filesystemOperation : FsOperation)
    (postStates : List WorkspacePathState) (plan : ApplyCommitPlan) : Except SyncError Unit :=
  if operation ≠ plan.expected.1 then corruptJournal "operation_json"
  else if postStates ≠ plan.expected.2 ∨ postStates.any (·.validate.isOk = false) then
    corruptJournal "postimage_json"
  else if filesystemOperationMatchesRemote filesystemOperation operation then .ok ()
  else corruptJournal "filesystem_operation_json"

def Db.Recovers [Env] (db : Db) (record : ApplyJournalRecord) : Prop :=
  db.validateApplyCommitPlan record record.commitPlan = .ok () ∧
    validateApplyRecoveryTuple record.operation record.filesystemOperation record.postimage record.commitPlan = .ok ()

/-! ## The rows that are written -/

def RemoteItem.validate : RemoteItem → Except WorkspaceValidationError Unit
  | .entry message => message.validate
  | .event message | .liveEvent message => message.validate
  | .conflictResolved message _ => message.validate

def RemoteItem.workspaceId : RemoteItem → WorkspaceId
  | .entry message => message.workspaceId
  | .event message | .liveEvent message => message.workspaceId
  | .conflictResolved message _ => message.workspaceId

/-- The row `applyWithJournal` inserts for a write. -/
def JournaledWrite.record (write : JournaledWrite) (applyId : ApplyId) : ApplyJournalRecord where
  applyId
  streamId := write.streamId
  itemKind := write.itemKind
  itemKey := write.itemKey
  applyNamespace := write.commitPlan.namespace
  operation := write.operationSpec
  filesystemOperation := write.operation
  commitPlan := write.commitPlan
  postimage := write.postStates
  filesystemReceipt := none
  stage := .prepared

/-- A rename that leaves a tombstone behind and arrives as an entry, or an item that is not a rename. -/
def RemoteItem.MovesAway (item : RemoteItem) : Prop :=
  ∀ oldState newState, item.operationSpec = .rename oldState newState →
    oldState.kind = .tombstone ∧ newState.kind ≠ .tombstone

section

variable {F : Type} [Filesystem F] [Env] {item : RemoteItem} {write : JournaledWrite} {db : Db} {applyId : ApplyId}

theorem JournaledWrite.Of.validatesPlan (hof : write.Of item db) (hvalid : item.validate = .ok ())
    (hworkspace : item.workspaceId = Env.workspaceId) :
    db.validateApplyCommitPlan (write.record applyId) (write.record applyId).commitPlan = .ok () := by
  obtain ⟨removeOutbox_, hplan⟩ := hof.commitPlan
  have hstream := hof.streamId
  have hpass : write.commitPlan.validate.isOk = true := by
    have hplanValid : write.commitPlan.validate = .ok () := by
      rw [hplan, ← hvalid]
      cases item with
      | entry message => rfl
      | event message => rfl
      | liveEvent message => rfl
      | conflictResolved message source => cases source <;> rfl
    rw [hplanValid]
    rfl
  have hexact : write.commitPlan.isExact db (write.record applyId) = true := by
    rw [hplan]
    cases item with
    | entry message =>
      simp only [RemoteItem.streamId, Option.some.injEq] at hstream
      simp [RemoteItem.commitPlan, ApplyCommitPlan.isExact, JournaledWrite.record, hof.itemKind, hof.itemKey,
        RemoteItem.itemKind, RemoteItem.itemKey, ← hstream, ← hworkspace, RemoteItem.workspaceId]
    | event message =>
      simp only [RemoteItem.streamId, Option.some.injEq] at hstream
      simp [RemoteItem.commitPlan, ApplyCommitPlan.isExact, JournaledWrite.record, hof.itemKind, hof.itemKey,
        RemoteItem.itemKind, RemoteItem.itemKey, ← hstream, ← hworkspace, RemoteItem.workspaceId]
    | liveEvent message =>
      simp only [RemoteItem.streamId, Option.some.injEq] at hstream
      simp [RemoteItem.commitPlan, ApplyCommitPlan.isExact, JournaledWrite.record, hof.itemKind, hof.itemKey,
        RemoteItem.itemKind, RemoteItem.itemKey, ← hstream, ← hworkspace, RemoteItem.workspaceId]
    | conflictResolved message source =>
      cases source with
      | live =>
        simp only [RemoteItem.streamId, Option.some.injEq] at hstream
        simp [RemoteItem.commitPlan, ApplyCommitPlan.isExact, JournaledWrite.record, hof.itemKind, hof.itemKey,
          RemoteItem.itemKind, RemoteItem.itemKey, ← hstream, ← hworkspace, RemoteItem.workspaceId]
      | stream =>
        simp only [RemoteItem.streamId, Option.map_eq_some_iff] at hstream
        obtain ⟨active, hactive, hid⟩ := hstream
        simp [RemoteItem.commitPlan, ApplyCommitPlan.isExact, JournaledWrite.record, hof.itemKind, hof.itemKey,
          RemoteItem.itemKind, RemoteItem.itemKey, hactive, hid, ← hworkspace, RemoteItem.workspaceId]
  have hrow : (write.record applyId).commitPlan = write.commitPlan := rfl
  have hnamespace : (write.record applyId).applyNamespace = write.commitPlan.namespace := rfl
  simp only [Db.validateApplyCommitPlan, hrow, hnamespace, ne_eq, not_true_eq_false, if_false, hpass,
    Bool.true_eq_false, hexact, if_true]

/-! ## The operations that are written -/

section

omit [Env]

theorem operationForState_matches {post : WorkspacePathState} (hvalid : post.validate = .ok ())
    (observed : Option ObservedEntry) :
    Returns (fun found => ∀ operation, found = some operation →
      filesystemOperationMatchesRemote operation (.fromState post) = true)
      (operationForState (F := F) post observed) := by
  have htombstone := WorkspacePathState.tombstone_of_validate hvalid
  unfold operationForState
  refine .after fun expected => ?_
  cases hkind : post.kind with
  | file =>
    dsimp only
    split
    · rename_i contentHash hhash
      refine .pure fun operation hfound => ?_
      cases hfound
      simp [RemoteApplyOperation.fromState, filesystemOperationMatchesRemote, hkind, hhash]
    · exact .throw _
  | directory =>
    refine .pure fun operation hfound => ?_
    cases hfound
    simp [RemoteApplyOperation.fromState, filesystemOperationMatchesRemote, hkind]
  | symlink =>
    dsimp only
    split
    · rename_i contentHash hhash
      refine .pure fun operation hfound => ?_
      cases hfound
      simp [RemoteApplyOperation.fromState, filesystemOperationMatchesRemote, hkind, hhash]
    · exact .throw _
  | tombstone =>
    refine .pure fun operation hfound => ?_
    split at hfound
    · cases hfound
    · cases hfound
      simp [RemoteApplyOperation.fromState, filesystemOperationMatchesRemote, hkind, htombstone]

theorem RemoteApplyOperation.fromState_ne_rename (state oldState newState : WorkspacePathState) :
    RemoteApplyOperation.fromState state ≠ .rename oldState newState := by
  unfold RemoteApplyOperation.fromState
  split <;> nofun

theorem operationForEvent_matches {event : WorkspaceEventMessage} (hvalid : event.validate = .ok ())
    (observed : List (WorkspacePath × Option ObservedEntry)) :
    Returns (fun found => ∀ operation, found = some operation →
      (filesystemOperationMatchesRemote operation (.fromEvent event) = true ↔ (RemoteItem.event event).MovesAway))
      (operationForEvent (F := F) event observed) := by
  obtain ⟨hstate, hstates⟩ := WorkspaceEventMessage.states_of_validate hvalid
  unfold operationForEvent
  split
  · rename_i hkind
    have hspec : RemoteApplyOperation.fromEvent event = .fromState event.pathState := by
      unfold RemoteApplyOperation.fromEvent
      split
      · rename_i hrename _ _
        exact absurd hrename hkind
      · rfl
    have hmoves : (RemoteItem.event event).MovesAway := fun oldState newState hrename =>
      absurd (hspec.symm.trans hrename) (RemoteApplyOperation.fromState_ne_rename _ _ _)
    refine fun engine => wp_mono (operationForState_matches hstate _ engine) (fun found _ hfound operation h => ?_)
      (fun _ _ h => h)
    rw [hspec]
    exact iff_of_true (hfound operation h) hmoves
  · rename_i hkind
    have hrename := not_not.mp hkind
    obtain ⟨oldState, newState, hold, hnew, holdValid, hnewValid, hpath, hnewPath⟩ := hstates hrename
    have hspec : RemoteApplyOperation.fromEvent event = .rename oldState newState := by
      simp only [RemoteApplyOperation.fromEvent, hrename, hold, hnew]
    have hmoves : (RemoteItem.event event).MovesAway ↔
        oldState.kind = .tombstone ∧ newState.kind ≠ .tombstone := by
      constructor
      · exact fun h => h oldState newState hspec
      · intro h oldState' newState' hrename'
        cases hspec.symm.trans hrename'
        exact h
    have holdTombstone := WorkspacePathState.tombstone_of_validate holdValid
    have hnewTombstone := WorkspacePathState.tombstone_of_validate hnewValid
    simp only [hnewPath]
    split
    · exact .pure fun _ => nofun
    · refine .after fun sourceExpected => .after fun targetExpected => ?_
      simp only [hnew]
      refine .pure fun operation hfound => ?_
      cases hfound
      rw [hspec, hmoves]
      simp [filesystemOperationMatchesRemote, hpath, holdTombstone, hnewTombstone]

end

def RemoteItem.Expects (item : RemoteItem) (found : Option FsOperation) : Prop :=
  ∀ operation, found = some operation →
    (filesystemOperationMatchesRemote operation item.operationSpec = true ↔ item.MovesAway)

omit [Env] in
theorem RemoteItem.expects_none : item.Expects none := fun _ => nofun

omit [Env] in
theorem RemoteItem.expects_state {post : WorkspacePathState} (hvalid : post.validate = .ok ())
    (hspec : item.operationSpec = .fromState post) (observed : Option ObservedEntry) :
    Returns item.Expects (operationForState (F := F) post observed) := by
  have hmoves : item.MovesAway := fun oldState newState hrename =>
    absurd (hspec.symm.trans hrename) (RemoteApplyOperation.fromState_ne_rename _ _ _)
  refine fun engine => wp_mono (operationForState_matches hvalid observed engine)
    (fun found _ hfound operation h => ?_) (fun _ _ h => h)
  rw [hspec]
  exact iff_of_true (hfound operation h) hmoves

/-- The operation an item is found to need is the one recovery expects, for a rename as far as its states are those
of a rename. -/
theorem RemoteItem.operation_expected (hvalid : item.validate = .ok ()) :
    Returns item.Expects (item.operation (F := F)) := by
  cases item with
  | entry message =>
    refine .after fun engine => .after fun observed => .after fun postMatches => .after fun baselineMatches => ?_
    split
    · exact .pure RemoteItem.expects_none
    split
    · exact .pure RemoteItem.expects_none
    split
    · exact .pure RemoteItem.expects_none
    · exact RemoteItem.expects_state hvalid rfl observed
  | event message =>
    refine .after fun engine => .after fun receiptMatch => ?_
    split
    · exact .pure RemoteItem.expects_none
    refine .after fun _ => ?_
    split
    · exact .pure RemoteItem.expects_none
    refine .after fun observed => .after fun postMatches => .after fun baselineMatches => ?_
    split
    · exact .pure RemoteItem.expects_none
    split
    · exact .pure RemoteItem.expects_none
    · exact operationForEvent_matches hvalid observed
  | liveEvent message =>
    refine .after fun engine => .after fun receiptMatch => ?_
    split
    · exact .pure RemoteItem.expects_none
    refine .after fun _ => .after fun observed => .after fun postMatches => ?_
    split
    · exact .pure RemoteItem.expects_none
    refine .after fun baselineMatches => ?_
    split
    · exact .pure RemoteItem.expects_none
    · exact operationForEvent_matches hvalid observed
  | conflictResolved message source =>
    have hstate : message.pathState.validate = .ok () := by
      simp only [RemoteItem.validate, WorkspaceConflictResolvedMessage.validate, refuse_eq_ok] at hvalid
      exact hvalid.2.2
    refine .after fun receiptMatch => ?_
    split
    · exact .pure RemoteItem.expects_none
    refine .after fun cleanup => .after fun engine => ?_
    dsimp only
    split
    · exact .pure RemoteItem.expects_none
    split
    · exact .pure RemoteItem.expects_none
    refine .after fun observed => .after fun postMatches => ?_
    split
    · exact .pure RemoteItem.expects_none
    refine .after fun baselineMatches => ?_
    split
    · exact .pure RemoteItem.expects_none
    refine (@RemoteItem.expects_state F _ (.conflictResolved message source) _ hstate rfl observed).bind
      fun found hfound => ?_
    cases found with
    | none => exact .pure RemoteItem.expects_none
    | some operation => exact .after fun _ => .pure hfound

omit [Filesystem F] [Env] in
theorem RemoteItem.postStates_valid (item : RemoteItem) (hvalid : item.validate = .ok ()) :
    ∀ state ∈ item.postStates, state.validate = .ok () := by
  have hevent : ∀ message : WorkspaceEventMessage, message.validate = .ok () →
      ∀ state ∈ eventPostStates message, state.validate = .ok () := by
    intro message hmessage state hmem
    obtain ⟨hstate, hstates⟩ := WorkspaceEventMessage.states_of_validate hmessage
    unfold eventPostStates at hmem
    split at hmem
    · rename_i hrename
      obtain ⟨oldState, newState, hold, hnew, holdValid, hnewValid, -, -⟩ := hstates hrename
      simp only [hold, hnew, Option.toList_some, List.mem_append, List.mem_singleton] at hmem
      rcases hmem with rfl | rfl
      · exact holdValid
      · exact hnewValid
    · rw [List.mem_singleton.mp hmem]
      exact hstate
  intro state hmem
  cases item with
  | entry message => rw [List.mem_singleton.mp hmem]; exact hvalid
  | event message => exact hevent message hvalid state hmem
  | liveEvent message => exact hevent message hvalid state hmem
  | conflictResolved message source =>
    rw [List.mem_singleton.mp hmem]
    simp only [RemoteItem.validate, WorkspaceConflictResolvedMessage.validate, refuse_eq_ok] at hvalid
    exact hvalid.2.2

omit [Env] in
theorem JournaledWrite.Of.validatesTuple (hof : write.Of item db) (hvalid : item.validate = .ok ())
    (hoperation : item.Expects (some write.operation)) :
    validateApplyRecoveryTuple write.operationSpec write.operation write.postStates write.commitPlan = .ok () ↔
      item.MovesAway := by
  obtain ⟨removeOutbox_, hplan⟩ := hof.commitPlan
  have hexpected : write.commitPlan.expected = (item.operationSpec, item.postStates) := by
    rw [hplan]
    cases item with
    | entry message => rfl
    | event message => rfl
    | liveEvent message => rfl
    | conflictResolved message source => cases source <;> rfl
  have hstates : (item.postStates.any (·.validate.isOk = false)) = false := by
    rw [List.any_eq_false]
    intro state hmem
    simp [item.postStates_valid hvalid state hmem, Except.isOk, Except.toBool]
  rw [← hoperation write.operation rfl]
  simp only [validateApplyRecoveryTuple, hexpected, hof.operationSpec, hof.postStates, ne_eq, not_true_eq_false,
    if_false, hstates, false_or, Bool.false_eq_true]
  split <;> simp [*, corruptJournal]

/-- The row of an item that comes to its write passes the checks of recovery exactly if a rename among the items
leaves a tombstone behind and arrives as an entry. -/
theorem written_journal_recoverable {engine reached : Engine F} {operation : FsOperation}
    (hvalid : item.validate = .ok ()) (hworkspace : item.workspaceId = Env.workspaceId)
    (hfound : item.operation engine = .ok (some operation) reached) :
    ∃ (write : JournaledWrite) (commit : ApplyReceipt → EngineM F Unit), write.operation = operation ∧
      write.Of item reached.db ∧ item.apply engine = write.run commit reached ∧
        ∀ db, putApplyJournal (write.record (Env.uuid reached.draws)) reached.db = .ok () db →
          (db.Recovers (write.record (Env.uuid reached.draws)) ↔ item.MovesAway) := by
  have hdb : reached.db = engine.db := Keeps.of_ok item.operation_keeps hfound
  have hwrites := item.writesUnder engine engine.db.applyJournals
  rw [hfound] at hwrites
  obtain ⟨write, commit, rfl, hof, hrun⟩ := hwrites
  have hself : reached.withJournals engine.db.applyJournals = reached := by rw [← hdb]; rfl
  rw [hself] at hrun
  refine ⟨write, commit, rfl, hof, hrun, fun db hput => ?_⟩
  have hofAfter : write.Of item db := by
    have hafter := wp_of_ok putApplyJournal_wp hput
    refine { hof with streamId := ?_ }
    rw [← hof.streamId, hafter]
    rfl
  have hexpects : item.Expects (some write.operation) := Returns.of_ok (item.operation_expected hvalid) hfound
  exact ⟨fun h => (hofAfter.validatesTuple hvalid hexpects).mp h.2,
    fun h => ⟨hofAfter.validatesPlan hvalid hworkspace, (hofAfter.validatesTuple hvalid hexpects).mpr h⟩⟩

end

/-! ## A rename that leaves an entry behind -/

section

open scoped Sample

theorem written_journal_recoverable_madeDirectory :
    ∃ (reached : Engine Disk) (write : JournaledWrite),
      write.operation = .mkdir Sample.pathDX zeroMetadata .missing ∧
        ∀ db, putApplyJournal (write.record (Env.uuid reached.draws)) reached.db = .ok () db →
          db.Recovers (write.record (Env.uuid reached.draws)) := by
  have hfound : decide (wp (RemoteItem.operation (.liveEvent Sample.madeDirectory))
      (fun operation _ => operation = some (.mkdir Sample.pathDX zeroMetadata .missing)) (fun _ _ => False)
      Sample.fileInTheWay) = true := by decide +kernel
  obtain ⟨_, reached, hrun, rfl⟩ := exists_ok_of_decide hfound
  obtain ⟨write, commit, hoperation, -, -, hrecovers⟩ :=
    @written_journal_recoverable _ _ _ (.liveEvent Sample.madeDirectory) _ _ _ (by decide) rfl hrun
  exact ⟨reached, write, hoperation, fun db hput => (hrecovers db hput).mpr fun _ _ => nofun⟩

/-- Client 2 has moved `a` to `d/x`, and the event reports a file at both paths. -/
def Sample.keptRename : WorkspaceEventMessage where
  workspaceId := 1
  streamId := 7
  index := 0
  revision := 5
  operationId := 105
  originClientId := 2
  mutation := ⟨1, 2, 105, Sample.pathA, 4, .rename, none, zeroMetadata, some Sample.pathDX, some 0⟩
  pathState := Sample.file Sample.pathDX 5 [1]
  oldPathState := some (Sample.file Sample.pathA 5 [1])
  newPathState := some (Sample.file Sample.pathDX 5 [1])

example : Sample.keptRename.validate = .ok () := by decide

def Sample.sharedFile : Engine Disk :=
  ((Sample.engine.after (.edit ((Disk.empty.create Sample.pathA .file [1]).create Sample.pathD .file [1]))).after
    (.blobAvailable (contentDigest [1]) 1 [1])).after (.event (Sample.writing Sample.pathA 4 [1]))

/-- The row of a rename to below the file `d`, which the writer has refused: a new engine refuses the row. -/
theorem keptRename_unrecoverable :
    ¬∀ (item : RemoteItem) (engine : Engine Disk), item.validate = .ok () → item.workspaceId = Env.workspaceId →
      engine.db.applyJournals.values = [] → ∀ row ∈ (final item.apply engine).db.applyJournals.values,
        (final item.apply engine).db.Recovers row := by
  intro h
  have hrow : ((final (RemoteItem.apply (.liveEvent Sample.keptRename)) Sample.sharedFile).db.applyJournals.values.any
      fun row => (validateApplyRecoveryTuple row.operation row.filesystemOperation row.postimage row.commitPlan).isOk =
        false) = true := by decide +kernel
  have hempty : Sample.sharedFile.db.applyJournals.values = [] := by decide +kernel
  obtain ⟨row, hmem, hrefused⟩ := List.any_eq_true.mp hrow
  have hrecovers := (h (.liveEvent Sample.keptRename) Sample.sharedFile (by decide) rfl hempty row hmem).2
  rw [hrecovers] at hrefused
  cases hrefused

end

end Lumio.Sync
