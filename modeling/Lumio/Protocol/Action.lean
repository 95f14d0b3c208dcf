import Lumio.Protocol.Message
import Lumio.Protocol.Json

/-!
# Actions and message bodies

Which body an action carries in each flow. `serde_json` and the derived serialisation of the message types
are a parameter; that a value reads back from what was written for it is their law.
-/

namespace Lumio.Protocol

abbrev RequestId := Nat
abbrev TransferId := Nat

def maxControlFrameBytes : Nat := 65536
def maxActionBytes : Nat := 64

inductive WorkspaceBlobDirection where
  | upload
  | download
deriving DecidableEq

structure WorkspaceHelloRequest where
  protocolVersion : String
  clientId : ClientId
  clientVersion : String
  capabilities : List String
deriving DecidableEq

structure WorkspaceHelloResponse where
  protocolVersion : String
  serverVersion : String
  maxControlFrameBytes : Nat
  maxBinaryChunkBytes : Nat
  maxBlobBytes : Nat
  maxTransfersPerConnection : Nat
  heartbeatSeconds : Nat
deriving DecidableEq

structure WorkspaceSubscribeRequest where
  workspaceId : WorkspaceId
  clientId : ClientId
  lastAckRevision : WorkspaceRevision
deriving DecidableEq

structure WorkspaceBlobNeedUploadPush where
  workspaceId : WorkspaceId
  direction : WorkspaceBlobDirection
  operationId : OperationId
  contentHash : WorkspaceContentHash
  size : Nat
deriving DecidableEq

structure WorkspaceBlobNeedDownloadRequest where
  workspaceId : WorkspaceId
  direction : WorkspaceBlobDirection
  operationId : Option OperationId
  contentHash : WorkspaceContentHash
  size : Option Nat
deriving DecidableEq

structure WorkspaceBlobNeedDownloadResponse where
  workspaceId : WorkspaceId
  direction : WorkspaceBlobDirection
  operationId : Option OperationId
  contentHash : WorkspaceContentHash
  size : Nat
deriving DecidableEq

structure WorkspaceBlobBeginMessage where
  workspaceId : WorkspaceId
  transferId : TransferId
  direction : WorkspaceBlobDirection
  contentHash : WorkspaceContentHash
  size : Nat
  chunkSize : Nat
  chunkCount : Nat
deriving DecidableEq

structure WorkspaceBlobEndMessage where
  workspaceId : WorkspaceId
  transferId : TransferId
  direction : WorkspaceBlobDirection
  contentHash : WorkspaceContentHash
  size : Nat
  chunkCount : Nat
deriving DecidableEq

/-! ## The registry -/

inductive WorkspaceFlow where
  | clientRequest
  | serverResponse
  | serverPush
deriving DecidableEq

inductive WorkspaceAction where
  | workspaceHello
  | workspaceSubscribe
  | workspaceSnapshotBegin
  | workspaceSnapshotEntry
  | workspaceSnapshotEnd
  | workspaceMutation
  | workspaceMutationAccepted
  | workspaceMutationRejected
  | workspaceEvent
  | workspaceAck
  | workspaceBlobNeed
  | workspaceBlobBegin
  | workspaceBlobEnd
  | workspaceConflictCreated
  | workspaceConflictResolved
deriving DecidableEq

inductive MessageBodyKind where
  | helloRequest
  | helloResponse
  | subscribeRequest
  | snapshotBegin
  | snapshotEntry
  | snapshotEnd
  | mutation
  | mutationAccepted
  | mutationRejected
  | event
  | ack
  | blobNeedDownloadRequest
  | blobNeedDownloadResponse
  | blobNeedUploadPush
  | blobBegin
  | blobEnd
  | conflictCreated
  | conflictResolvedRequest
  | conflictResolved
deriving DecidableEq

inductive MessageBody where
  | helloRequest (body : WorkspaceHelloRequest)
  | helloResponse (body : WorkspaceHelloResponse)
  | subscribeRequest (body : WorkspaceSubscribeRequest)
  | snapshotBegin (body : WorkspaceSnapshotBeginMessage)
  | snapshotEntry (body : WorkspaceSnapshotEntryMessage)
  | snapshotEnd (body : WorkspaceSnapshotEndMessage)
  | mutation (body : WorkspaceMutation)
  | mutationAccepted (body : WorkspaceMutationAcceptedMessage)
  | mutationRejected (body : WorkspaceMutationRejectedMessage)
  | event (body : WorkspaceEventMessage)
  | ack (body : WorkspaceAckRequest)
  | blobNeedDownloadRequest (body : WorkspaceBlobNeedDownloadRequest)
  | blobNeedDownloadResponse (body : WorkspaceBlobNeedDownloadResponse)
  | blobNeedUploadPush (body : WorkspaceBlobNeedUploadPush)
  | blobBegin (body : WorkspaceBlobBeginMessage)
  | blobEnd (body : WorkspaceBlobEndMessage)
  | conflictCreated (body : WorkspaceConflictCreatedMessage)
  | conflictResolvedRequest (body : WorkspaceConflictResolvedRequest)
  | conflictResolved (body : WorkspaceConflictResolvedMessage)
deriving DecidableEq

def MessageBody.kind : MessageBody → MessageBodyKind
  | .helloRequest _ => .helloRequest
  | .helloResponse _ => .helloResponse
  | .subscribeRequest _ => .subscribeRequest
  | .snapshotBegin _ => .snapshotBegin
  | .snapshotEntry _ => .snapshotEntry
  | .snapshotEnd _ => .snapshotEnd
  | .mutation _ => .mutation
  | .mutationAccepted _ => .mutationAccepted
  | .mutationRejected _ => .mutationRejected
  | .event _ => .event
  | .ack _ => .ack
  | .blobNeedDownloadRequest _ => .blobNeedDownloadRequest
  | .blobNeedDownloadResponse _ => .blobNeedDownloadResponse
  | .blobNeedUploadPush _ => .blobNeedUploadPush
  | .blobBegin _ => .blobBegin
  | .blobEnd _ => .blobEnd
  | .conflictCreated _ => .conflictCreated
  | .conflictResolvedRequest _ => .conflictResolvedRequest
  | .conflictResolved _ => .conflictResolved

namespace WorkspaceAction

def all : List WorkspaceAction :=
  [workspaceHello, workspaceSubscribe, workspaceSnapshotBegin, workspaceSnapshotEntry, workspaceSnapshotEnd,
    workspaceMutation, workspaceMutationAccepted, workspaceMutationRejected, workspaceEvent, workspaceAck,
    workspaceBlobNeed, workspaceBlobBegin, workspaceBlobEnd, workspaceConflictCreated, workspaceConflictResolved]

def asStr : WorkspaceAction → String
  | workspaceHello => "WorkspaceHello"
  | workspaceSubscribe => "WorkspaceSubscribe"
  | workspaceSnapshotBegin => "WorkspaceSnapshotBegin"
  | workspaceSnapshotEntry => "WorkspaceSnapshotEntry"
  | workspaceSnapshotEnd => "WorkspaceSnapshotEnd"
  | workspaceMutation => "WorkspaceMutation"
  | workspaceMutationAccepted => "WorkspaceMutationAccepted"
  | workspaceMutationRejected => "WorkspaceMutationRejected"
  | workspaceEvent => "WorkspaceEvent"
  | workspaceAck => "WorkspaceAck"
  | workspaceBlobNeed => "WorkspaceBlobNeed"
  | workspaceBlobBegin => "WorkspaceBlobBegin"
  | workspaceBlobEnd => "WorkspaceBlobEnd"
  | workspaceConflictCreated => "WorkspaceConflictCreated"
  | workspaceConflictResolved => "WorkspaceConflictResolved"

def fromStr (text : String) : Except WorkspaceValidationError WorkspaceAction :=
  match all.find? (·.asStr = text) with
  | some action => .ok action
  | none => validationError "action" "unknown_action"

end WorkspaceAction

structure ActionFlowSpec where
  action : WorkspaceAction
  flow : WorkspaceFlow
  bodyKind : MessageBodyKind
deriving DecidableEq

def actionFlowSpecs : List ActionFlowSpec :=
  [⟨.workspaceHello, .clientRequest, .helloRequest⟩, ⟨.workspaceHello, .serverResponse, .helloResponse⟩,
    ⟨.workspaceSubscribe, .clientRequest, .subscribeRequest⟩,
    ⟨.workspaceSnapshotBegin, .serverPush, .snapshotBegin⟩,
    ⟨.workspaceSnapshotEntry, .serverPush, .snapshotEntry⟩,
    ⟨.workspaceSnapshotEnd, .serverPush, .snapshotEnd⟩,
    ⟨.workspaceMutation, .clientRequest, .mutation⟩,
    ⟨.workspaceMutationAccepted, .serverResponse, .mutationAccepted⟩,
    ⟨.workspaceMutationRejected, .serverResponse, .mutationRejected⟩,
    ⟨.workspaceEvent, .serverPush, .event⟩,
    ⟨.workspaceAck, .clientRequest, .ack⟩, ⟨.workspaceAck, .serverResponse, .ack⟩,
    ⟨.workspaceBlobNeed, .clientRequest, .blobNeedDownloadRequest⟩,
    ⟨.workspaceBlobNeed, .serverResponse, .blobNeedDownloadResponse⟩,
    ⟨.workspaceBlobNeed, .serverPush, .blobNeedUploadPush⟩,
    ⟨.workspaceBlobBegin, .clientRequest, .blobBegin⟩, ⟨.workspaceBlobBegin, .serverResponse, .blobBegin⟩,
    ⟨.workspaceBlobBegin, .serverPush, .blobBegin⟩,
    ⟨.workspaceBlobEnd, .clientRequest, .blobEnd⟩, ⟨.workspaceBlobEnd, .serverResponse, .blobEnd⟩,
    ⟨.workspaceBlobEnd, .serverPush, .blobEnd⟩,
    ⟨.workspaceConflictCreated, .serverPush, .conflictCreated⟩,
    ⟨.workspaceConflictResolved, .clientRequest, .conflictResolvedRequest⟩,
    ⟨.workspaceConflictResolved, .serverResponse, .conflictResolved⟩,
    ⟨.workspaceConflictResolved, .serverPush, .conflictResolved⟩]

def isAsciiAlphabetic (c : Char) : Bool := ('a' ≤ c && c ≤ 'z') || ('A' ≤ c && c ≤ 'Z')

def isAsciiAlphanumeric (c : Char) : Bool := isAsciiAlphabetic c || ('0' ≤ c && c ≤ '9')

def validActionToken (action : String) : Bool :=
  action.utf8ByteSize ≤ maxActionBytes &&
    match action.toList with
    | [] => false
    | first :: rest => isAsciiAlphabetic first && rest.all isAsciiAlphanumeric

def flowAllowed (action : WorkspaceAction) (flow : WorkspaceFlow) : Bool :=
  actionFlowSpecs.any fun spec => spec.action = action && spec.flow = flow

def bodyAllowed (action : WorkspaceAction) (flow : WorkspaceFlow) (body : MessageBody) : Bool :=
  actionFlowSpecs.any fun spec => spec.action = action && spec.flow = flow && spec.bodyKind = body.kind

/-- The type that the body of an action in a flow is read as. -/
def bodyKindOf (action : WorkspaceAction) (flow : WorkspaceFlow) : Option MessageBodyKind :=
  (actionFlowSpecs.find? fun spec => spec.action = action && spec.flow = flow).map (·.bodyKind)

theorem bodyKindOf_of_bodyAllowed {action : WorkspaceAction} {flow : WorkspaceFlow} {body : MessageBody}
    (h : bodyAllowed action flow body = true) : bodyKindOf action flow = some body.kind := by
  have hunique : ∀ spec ∈ actionFlowSpecs, bodyKindOf spec.action spec.flow = some spec.bodyKind := by decide
  obtain ⟨spec, hmem, hspec⟩ := List.any_eq_true.mp h
  simp only [Bool.and_eq_true, decide_eq_true_eq] at hspec
  obtain ⟨⟨rfl, rfl⟩, hkind⟩ := hspec
  rw [hunique spec hmem, hkind]

theorem flowAllowed_of_bodyKindOf {action : WorkspaceAction} {flow : WorkspaceFlow} {kind : MessageBodyKind}
    (h : bodyKindOf action flow = some kind) : flowAllowed action flow = true := by
  obtain ⟨spec, hspec, -⟩ := Option.map_eq_some_iff.mp h
  exact List.any_eq_true.mpr ⟨spec, List.mem_of_find?_eq_some hspec, by simpa using List.find?_some hspec⟩

theorem fromStr_asStr (action : WorkspaceAction) : WorkspaceAction.fromStr action.asStr = .ok action := by
  cases action <;> decide

end Lumio.Protocol
