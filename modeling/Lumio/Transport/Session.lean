import Lumio.Sync.Run

/-!
# The session of a connection

The session reads frames and hands them to the engine. Live messages that arrive before a stream is acknowledged
are deferred, and a drain tick hands a bounded number of them over once the acknowledgement is confirmed. The
queue of outbound commands, the transfers of blobs and the tracking of requests are left out: they can end a
connection, but they touch nothing of what is modelled.
-/

namespace Lumio.Transport

open Lumio.Protocol Lumio.Fs Lumio.Sync Prog

inductive TransportError where
  | protocol
  | resourceLimit
  | engine (error : SyncError)
deriving DecidableEq

/-- A message that other clients' work brings about. -/
inductive DeferredLiveMessage where
  | event (message : WorkspaceEventMessage)
  | conflictCreated (message : WorkspaceConflictCreatedMessage)
  | conflictResolved (message : WorkspaceConflictResolvedMessage)
deriving DecidableEq

structure StreamState where
  begin_ : WorkspaceSnapshotBeginMessage
  endReceived : Bool
deriving DecidableEq

inductive SessionPhase where
  | awaitingSubscribe
  | streaming (stream : StreamState)
  | online
deriving DecidableEq

structure SessionLimits where
  deferredEventCapacity : Nat

structure Session (F : Type) where
  engine : Engine F
  phase : SessionPhase
  deferredEvents : List DeferredLiveMessage
  deferredEventsReady : Bool
  deferredUntilAckRevision : Option WorkspaceRevision
  refreshRequested : Bool

/-- A session whose hello has been answered and whose subscription is on its way. -/
def Session.new {F : Type} (engine : Engine F) : Session F where
  engine
  phase := .awaitingSubscribe
  deferredEvents := []
  deferredEventsReady := false
  deferredUntilAckRevision := none
  refreshRequested := false

abbrev SessionM (F : Type) := EStateM TransportError (Session F)

/-- A frame of the server. The resolution of a conflict that answers a request of this client is no live message
and is left out. -/
inductive Frame where
  | snapshotBegin (message : WorkspaceSnapshotBeginMessage)
  | snapshotEntry (message : WorkspaceSnapshotEntryMessage)
  | snapshotEnd (message : WorkspaceSnapshotEndMessage)
  | live (message : DeferredLiveMessage)
  | mutationAccepted (message : WorkspaceMutationAcceptedMessage)
  | mutationRejected (message : WorkspaceMutationRejectedMessage)
  | ack (message : WorkspaceAckRequest)

section

variable {F : Type} [Filesystem F] [Env]

/-- A call of the engine, whose failure ends the session. -/
def engineCall {α : Type} (call : EngineM F α) : SessionM F α := fun session =>
  match call session.engine with
  | .ok a engine => .ok a { session with engine }
  | .error error engine => .error (.engine error) { session with engine }

/-- What the engine worker does with an event: it belongs to the stored stream if that is an incremental one. -/
def processWorkspaceEvent (message : WorkspaceEventMessage) : EngineM F (List SyncCommand) := do
  let db := (← get).db
  match db.activeStreamMode with
  | some .incremental => workspaceEvent message
  | some .snapshot | none => event message

def handOver : DeferredLiveMessage → EngineM F (List SyncCommand)
  | .event message => processWorkspaceEvent message
  | .conflictCreated message => conflictCreated message
  | .conflictResolved message => conflictResolved message

/-! ## Deferring -/

/-- Whether a live message has to wait. The creation of a conflict does not wait for a snapshot. -/
def Session.defers (session : Session F) (message : DeferredLiveMessage) : Bool :=
  let streaming := session.engine.db.activeStreamMode = some .snapshot
  session.deferredUntilAckRevision.isSome ||
    match message with
    | .event _ | .conflictResolved _ => streaming
    | .conflictCreated _ => false

def deferLiveMessage (limits : SessionLimits) (message : DeferredLiveMessage) : SessionM F Unit := do
  let session ← get
  if limits.deferredEventCapacity ≤ session.deferredEvents.length then throw .resourceLimit
  else set { session with deferredEvents := session.deferredEvents ++ [message] }

def handleLive (limits : SessionLimits) (message : DeferredLiveMessage) : SessionM F (List DeferredLiveMessage) := do
  let session ← get
  if session.defers message then do
    deferLiveMessage limits message
    pure []
  else do
    let _ ← engineCall (handOver message)
    pure [message]

/-! ## The end of a stream -/

def refreshStreamCompletion : SessionM F Unit := do
  let session ← get
  match session.phase with
  | .streaming ⟨begin_, true⟩ => do
    engineCall ensureOpen
    let db := session.engine.db
    if db.completedStreamAckRevision = some begin_.finalRevision then set { session with phase := .online }
    else if begin_.finalRevision ≤ db.cursor.lastAckRevision ∧ db.activeStreamMode = none then
      set { session with
        phase := .online
        deferredUntilAckRevision :=
          if session.deferredUntilAckRevision = some begin_.finalRevision then none
          else session.deferredUntilAckRevision
        deferredEventsReady := !session.deferredEvents.isEmpty }
    else pure ()
  | _ => pure ()

def handleSnapshotEnd (message : WorkspaceSnapshotEndMessage) : SessionM F Unit := do
  let session ← get
  match session.phase with
  | .streaming stream => do
    let _ ← engineCall (snapshotEnd message)
    modify fun session => { session with
      phase := .streaming { stream with endReceived := true }
      deferredUntilAckRevision := session.engine.db.activeStreamMode.map fun _ => message.finalRevision }
    refreshStreamCompletion
  | .online =>
    -- the end may be sent again while the acknowledgement is on its way
    if session.deferredUntilAckRevision = some message.finalRevision then do
      let _ ← engineCall (snapshotEnd message)
    else throw .protocol
  | .awaitingSubscribe => throw .protocol

def handleAck (message : WorkspaceAckRequest) : SessionM F Unit := do
  engineCall (ackConfirmed message)
  modify fun session =>
    if session.deferredUntilAckRevision = some message.revision ∧ session.engine.db.activeStreamMode = none then
      { session with
        deferredUntilAckRevision := none
        deferredEventsReady := !session.deferredEvents.isEmpty }
    else session

def handleSnapshotBegin (message : WorkspaceSnapshotBeginMessage) : SessionM F Unit := do
  match message.validate with
  | .error _ => throw .protocol
  | .ok () => do
    modify fun session => { session with phase := .streaming ⟨message, false⟩ }
    engineCall (snapshotBegin message)

/-- A frame, and the live messages it hands to the engine. -/
def handleFrame (limits : SessionLimits) : Frame → SessionM F (List DeferredLiveMessage)
  | .snapshotBegin message => do handleSnapshotBegin message; pure []
  | .snapshotEntry message => do let _ ← engineCall (snapshotEntry message); pure []
  | .snapshotEnd message => do handleSnapshotEnd message; pure []
  | .live message => handleLive limits message
  | .mutationAccepted message => do let _ ← engineCall (mutationAccepted message); pure []
  | .mutationRejected message => do engineCall (mutationRejected message); pure []
  | .ack message => do handleAck message; pure []

/-! ## Draining -/

def drainDeferred : Nat → SessionM F (List DeferredLiveMessage)
  | 0 => pure []
  | items + 1 => do
    let session ← get
    if !session.deferredEventsReady then pure []
    else
      match session.deferredEvents with
      | [] => do
        set { session with deferredEventsReady := false }
        pure []
      | message :: rest => do
        set { session with deferredEvents := rest }
        let _ ← engineCall (handOver message)
        let later ← drainDeferred items
        pure (message :: later)

/-- A drain tick with the items its budget has left for deferred messages, and how many commands it polls for. -/
def drainOutbound (items fetchLimit : Nat) : SessionM F (List DeferredLiveMessage) := do
  let session ← get
  if session.refreshRequested then do
    set { session with phase := .awaitingSubscribe, refreshRequested := false }
    pure []
  else do
    refreshStreamCompletion
    let handed ← drainDeferred items
    onlyIf (fetchLimit ≠ 0) do
      let _ ← engineCall (pendingCommands fetchLimit)
      refreshStreamCompletion
    pure handed

/-! ## Runs -/

/-- The calls others make to the engine while the session lives: transfers of blobs, polls and local work. -/
def background : Call F → Bool
  | .blobAvailable .. | .resumeInboundWork .. | .pendingCommands .. | .blobUploaded .. | .recordLocalChanges ..
  | .resolveConflict .. | .edit .. => true
  | _ => false

inductive SessionEvent (F : Type) where
  | frame (frame : Frame)
  | drain (items fetchLimit : Nat)
  /-- A request of this client failed in a way that asks for a new subscription. -/
  | requestRefresh
  | call (call : Call F) (h : background call = true)

def SessionEvent.run (limits : SessionLimits) : SessionEvent F → SessionM F (List DeferredLiveMessage)
  | .frame received => handleFrame limits received
  | .drain items fetchLimit => drainOutbound items fetchLimit
  | .requestRefresh => do
    modify fun session => { session with refreshRequested := true }
    pure []
  | .call made _ => do
    modify fun session => { session with engine := session.engine.after made }
    pure []

/-- The live messages an event brings. -/
def SessionEvent.arrives : SessionEvent F → List DeferredLiveMessage
  | .frame (.live message) => [message]
  | _ => []

/-- The runs of a session whose connection stays up, with the live messages that have arrived and those that have
been handed to the engine. -/
inductive SessionRun (limits : SessionLimits) (Allowed : Session F → SessionEvent F → Prop) (first : Session F) :
    List DeferredLiveMessage → List DeferredLiveMessage → Session F → Prop where
  | refl : SessionRun limits Allowed first [] [] first
  | step {arrived handed handed' : List DeferredLiveMessage} {session session' : Session F} {event : SessionEvent F}
      (run : SessionRun limits Allowed first arrived handed session) (allowed : Allowed session event)
      (up : event.run limits session = .ok handed' session') :
      SessionRun limits Allowed first (arrived ++ event.arrives) (handed ++ handed') session'

/-- The events one after the other, and all the live messages they hand to the engine. -/
def runEvents (limits : SessionLimits) : List (SessionEvent F) → SessionM F (List DeferredLiveMessage)
  | [] => pure []
  | event :: events => do
    let handed ← event.run limits
    let later ← runEvents limits events
    pure (handed ++ later)

end

end Lumio.Transport
