import Lumio.Sync.Engine.Resolutions
import Lumio.Fs.Writer

/-!
# Runs of the engine

A run is a sequence of calls of the engine's entry points, in any order, with changes of the workspace by
others in between. A call that fails is a step like any other.
-/

namespace Lumio.Sync

open Lumio.Protocol Lumio.Fs Prog

inductive Call (F : Type) where
  | event (message : WorkspaceEventMessage)
  | snapshotBegin (message : WorkspaceSnapshotBeginMessage)
  | snapshotEntry (message : WorkspaceSnapshotEntryMessage)
  | workspaceEvent (message : WorkspaceEventMessage)
  | conflictCreated (message : WorkspaceConflictCreatedMessage)
  | conflictResolved (message : WorkspaceConflictResolvedMessage)
  | snapshotEnd (message : WorkspaceSnapshotEndMessage)
  | blobAvailable (hash : WorkspaceContentHash) (size : Nat) (bytes : List Nat)
  | resumeInboundWork (commandLimit : Nat) (reissueWaiting : Bool)
  | pendingCommands (limit : Nat)
  | ackConfirmed (message : WorkspaceAckRequest)
  | mutationAccepted (accepted : WorkspaceMutationAcceptedMessage)
  | mutationRejected (rejected : WorkspaceMutationRejectedMessage)
  | blobUploaded (operationId : OperationId)
  | recordLocalChanges (changes : List FsChange)
  | prepareConnectionAttempt
  | resolveConflict (conflictId : ConflictId) (conflictRevision : WorkspaceConflictRevision)
      (choice : WorkspaceConflictChoice)
  | queueConflictResolution (request : WorkspaceConflictResolvedRequest)
  | conflictResolutionAccepted (message : WorkspaceConflictResolvedMessage)
  | conflictResolutionRejected (operationId : OperationId) (code : WorkspaceV2ErrorCode)
  | close
  /-- The workspace is changed by others. -/
  | edit (files : F)

section

variable {F : Type} [Filesystem F] [Env]

def close : EngineM F Unit := modify fun engine => { engine with closed := true }

/-- A call without commands. -/
def silently (call : EngineM F Unit) : EngineM F (List SyncCommand) := do
  call
  pure []

def Call.run : Call F → EngineM F (List SyncCommand)
  | .event message => Sync.event message
  | .snapshotBegin message => silently (Sync.snapshotBegin message)
  | .snapshotEntry message => Sync.snapshotEntry message
  | .workspaceEvent message => Sync.workspaceEvent message
  | .conflictCreated message => Sync.conflictCreated message
  | .conflictResolved message => Sync.conflictResolved message
  | .snapshotEnd message => Sync.snapshotEnd message
  | .blobAvailable hash size bytes => Sync.blobAvailable hash size bytes
  | .resumeInboundWork commandLimit reissueWaiting => Sync.resumeInboundWork commandLimit reissueWaiting
  | .pendingCommands limit => Sync.pendingCommands limit
  | .ackConfirmed message => silently (Sync.ackConfirmed message)
  | .mutationAccepted accepted => Sync.mutationAccepted accepted
  | .mutationRejected rejected => silently (Sync.mutationRejected rejected)
  | .blobUploaded operationId => silently (Sync.blobUploaded operationId)
  | .recordLocalChanges changes => silently (Sync.recordLocalChanges changes)
  | .prepareConnectionAttempt => silently Sync.prepareConnectionAttempt
  | .resolveConflict conflictId conflictRevision choice => silently do
      let _ ← Sync.resolveConflict conflictId conflictRevision choice
  | .queueConflictResolution request => silently (Sync.queueConflictResolution request)
  | .conflictResolutionAccepted message => silently (Sync.conflictResolutionAccepted message)
  | .conflictResolutionRejected operationId code => Sync.conflictResolutionRejected operationId code
  | .close => silently Sync.close
  | .edit files => silently (modify fun engine => { engine with files })

def Engine.after (engine : Engine F) (call : Call F) : Engine F := final call.run engine

inductive Run (Allowed : Engine F → Call F → Prop) : Engine F → Engine F → Prop where
  | refl (engine : Engine F) : Run Allowed engine engine
  | step {first engine : Engine F} {call : Call F} (run : Run Allowed first engine) (allowed : Allowed engine call) :
      Run Allowed first (engine.after call)

/-- What holds at the start and is kept by every allowed call holds along the run. -/
theorem Run.invariant {Allowed : Engine F → Call F → Prop} {I : Engine F → Prop} {first last : Engine F}
    (run : Run Allowed first last) (hfirst : I first)
    (hstep : ∀ engine call, I engine → Allowed engine call → I (engine.after call)) : I last := by
  induction run with
  | refl => exact hfirst
  | step run allowed ih => exact hstep _ _ ih allowed

end

/-! ## A small workspace -/

namespace Sample

/-- A client with the default limits, in a workspace it shares with client 2. -/
scoped instance client : Env where
  workspaceId := 1
  clientId := 1
  limits := ⟨64, 262144, 256, 4194304⟩
  uuid draw := 1000 + draw
  nowMs draw := draw
  entryLength _ := 100
  itemLength _ := 100

theorem pathA_valid : pathError ['a'] = none := by decide

theorem pathB_valid : pathError ['b'] = none := by decide

def pathA : WorkspacePath := ⟨['a'], pathA_valid⟩

def pathB : WorkspacePath := ⟨['b'], pathB_valid⟩

def engine : Engine Disk := .initial .empty [] []

def missing (path : WorkspacePath) (revision : WorkspaceRevision) : WorkspacePathState :=
  ⟨path, revision, .tombstone, none, zeroMetadata, true⟩

def file (path : WorkspacePath) (revision : WorkspaceRevision) (content : List Nat) : WorkspacePathState :=
  ⟨path, revision, .file, some (contentDigest content), ⟨content.length, 0, false⟩, false⟩

def event (state : WorkspacePathState) (kind : WorkspaceMutationKind) : WorkspaceEventMessage where
  workspaceId := 1
  streamId := 7
  index := 0
  revision := state.pathRevision
  operationId := 100 + state.pathRevision
  originClientId := 2
  mutation := ⟨1, 2, 100 + state.pathRevision, state.path, 0, kind, state.contentHash, state.metadata, none, none⟩
  pathState := state
  oldPathState := none
  newPathState := none

def deletion (path : WorkspacePath) (revision : WorkspaceRevision) : WorkspaceEventMessage :=
  event (missing path revision) .delete

def writing (path : WorkspacePath) (revision : WorkspaceRevision) (content : List Nat) : WorkspaceEventMessage :=
  event (file path revision content) .upsertFile

/-- A snapshot of one deletion has been received, and a later event waits for its content. -/
def waitingEngine : Engine Disk :=
  (((engine.after (.snapshotBegin ⟨1, 7, .snapshot, 0, 3, 1, 0, 0⟩)).after
    (.snapshotEntry ⟨1, 7, 0, missing pathA 3⟩)).after (.snapshotEnd ⟨1, 7, .snapshot, 1, 3⟩)).after
    (.event (writing pathB 5 [1, 2, 3]))

end Sample

end Lumio.Sync
