import Lumio.Lib.Machine
import Lumio.Lib.Table
import Lumio.Protocol.Envelope
import Lumio.Protocol.Replies
import Mathlib.Data.Finset.Card

/-!
# The requests of one connection

The tracker knows the requests in flight, the answers that were checked and not yet used, the last answers that were
used, and every request id of the connection. Time is a number.
-/

namespace Lumio.Transport.Wire

open Lumio.Protocol

inductive TransportErrorCode where
  | authenticationRejected
  | forbidden
  | network
  | protocol
  | core
  | filesystem
  | resourceLimit
deriving DecidableEq

structure TransportError where
  code : TransportErrorCode
  retryable : Bool
deriving DecidableEq

def maxInFlightRequests : Nat := 64
def maxRequestIdsPerConnection : Nat := 4096
def maxCompletedRequestReceipts : Nat := 256

/-! ## Expected responses -/

inductive ExpectedResponse where
  | hello
  | mutation (workspaceId : WorkspaceId) (clientId : ClientId) (operationId : OperationId)
  | ack (request : WorkspaceAckRequest)
  | blobNeedDownload (workspaceId : WorkspaceId) (operationId : Option OperationId) (contentHash : WorkspaceContentHash)
      (size : Nat)
  | blobBeginUpload (begin_ : WorkspaceBlobBeginMessage)
  | blobEndUpload (end_ : WorkspaceBlobEndMessage)
  | blobEndDownload (end_ : WorkspaceBlobEndMessage)
  | conflictResolved (request : WorkspaceConflictResolvedRequest)
deriving DecidableEq

namespace ExpectedResponse

def failureAction : ExpectedResponse → WorkspaceAction
  | hello => .workspaceHello
  | mutation _ _ _ => .workspaceMutation
  | ack _ => .workspaceAck
  | blobNeedDownload _ _ _ _ => .workspaceBlobNeed
  | blobBeginUpload _ => .workspaceBlobBegin
  | blobEndUpload _ | blobEndDownload _ => .workspaceBlobEnd
  | conflictResolved _ => .workspaceConflictResolved

def isOk (result : Except WorkspaceValidationError Unit) : Bool := result.toBool

def matchesSuccess (expected : ExpectedResponse) (action : WorkspaceAction) (body : MessageBody) : Bool :=
  match expected, action, body with
  | hello, .workspaceHello, .helloResponse message => isOk message.validate
  | mutation workspaceId clientId operationId, .workspaceMutationAccepted, .mutationAccepted message =>
    isOk message.validate && message.workspaceId = workspaceId && message.clientId = clientId &&
      message.operationId = operationId
  | mutation workspaceId clientId operationId, .workspaceMutationRejected, .mutationRejected message =>
    isOk message.validate && message.workspaceId = workspaceId && message.clientId = clientId &&
      message.operationId = operationId
  | ack request, .workspaceAck, .ack message => message = request
  | blobNeedDownload workspaceId operationId contentHash size, .workspaceBlobNeed, .blobNeedDownloadResponse message =>
    isOk message.validate && message.workspaceId = workspaceId && message.operationId = operationId &&
      message.contentHash = contentHash && message.size = size
  | blobBeginUpload begin_, .workspaceBlobBegin, .blobBegin message => isOk message.validate && message = begin_
  | blobEndUpload end_, .workspaceBlobEnd, .blobEnd message => isOk message.validate && message = end_
  | blobEndDownload end_, .workspaceBlobEnd, .blobEnd message => isOk message.validate && message = end_
  | conflictResolved request, .workspaceConflictResolved, .conflictResolved message =>
    isOk message.validate && message.workspaceId = request.workspaceId &&
      message.resolvedByClientId = request.clientId && message.operationId = request.operationId &&
      message.conflictId = request.conflictId && message.conflictRevision = request.conflictRevision &&
      message.choice = request.choice && message.pathState.path = request.path &&
      message.pathState.contentHash = request.contentHash && message.pathState.metadata = request.metadata &&
      message.pathState.tombstone = decide (request.choice = .delete)
  | _, _, _ => false

end ExpectedResponse

/-! ## The tracker -/

structure InFlight where
  expected : ExpectedResponse
  sentAt : Nat

structure RequestTracker where
  entries : Table RequestId InFlight := ∅
  validated : Table RequestId DecodedFrame := ∅
  completed : Table RequestId DecodedFrame := ∅
  completedOrder : List RequestId := []
  perConnectionIds : Finset RequestId := ∅

def answeredRequest (frame : DecodedFrame) : Option RequestId :=
  match frame.envelope with
  | .success requestId _ | .failure requestId _ => requestId
  | .request _ _ => none

def ExpectedResponse.accepts (expected : ExpectedResponse) (frame : DecodedFrame) : Bool :=
  match frame.envelope with
  | .success _ body => expected.matchesSuccess frame.action body
  | .failure _ _ => frame.action = expected.failureAction
  | .request _ _ => false

def refused {α : Type} : Except TransportError α := .error ⟨.protocol, false⟩

namespace RequestTracker

def inFlight (tracker : RequestTracker) : Nat := tracker.entries.entries.length

def track (tracker : RequestTracker) (requestId : RequestId) (expected : ExpectedResponse) (sentAt : Nat) :
    Except TransportError RequestTracker :=
  if maxInFlightRequests ≤ tracker.inFlight ∨ maxRequestIdsPerConnection ≤ tracker.perConnectionIds.card then
    .error ⟨.resourceLimit, false⟩
  else if requestId ∈ tracker.perConnectionIds then refused
  else
    .ok { tracker with
      perConnectionIds := insert requestId tracker.perConnectionIds
      entries := tracker.entries.insert requestId ⟨expected, sentAt⟩ }

/-- The id of a request that has no answer, such as a subscription. -/
def reserveUntrackedId (tracker : RequestTracker) (requestId : RequestId) : Except TransportError RequestTracker :=
  if maxRequestIdsPerConnection ≤ tracker.perConnectionIds.card then .error ⟨.resourceLimit, false⟩
  else if requestId ∈ tracker.perConnectionIds then refused
  else .ok { tracker with perConnectionIds := insert requestId tracker.perConnectionIds }

/-- The check of an answer to a request in flight, which remembers the answer. -/
def validateInFlight (tracker : RequestTracker) (requestId : RequestId) (frame : DecodedFrame) :
    Except TransportError (RequestId × RequestTracker) :=
  match tracker.entries.lookup requestId with
  | none => refused
  | some entry =>
    if !entry.expected.accepts frame then refused
    else if !(tracker.validated.lookup requestId).all (· = frame) then refused
    else .ok (requestId, { tracker with validated := tracker.validated.insert requestId frame })

def validate (tracker : RequestTracker) (frame : DecodedFrame) : Except TransportError (RequestId × RequestTracker) :=
  if frame.flow ≠ .serverResponse then refused
  else
    match answeredRequest frame with
    | none => refused
    | some requestId =>
      match tracker.completed.lookup requestId with
      | some completed => if completed = frame then .ok (requestId, tracker) else refused
      | none => tracker.validateInFlight requestId frame

def evict : List RequestId → Table RequestId DecodedFrame → List RequestId × Table RequestId DecodedFrame
  | [], completed => ([], completed)
  | requestId :: order, completed =>
    if maxCompletedRequestReceipts < (requestId :: order).length then evict order (completed.erase requestId)
    else (requestId :: order, completed)

/-- The use of an answer that was checked. A request without one is forgotten all the same. -/
def complete (tracker : RequestTracker) (requestId : RequestId) : Except TransportError ExpectedResponse × RequestTracker :=
  match tracker.entries.lookup requestId with
  | none => (refused, tracker)
  | some entry =>
    match tracker.validated.lookup requestId with
    | none => (refused, { tracker with entries := tracker.entries.erase requestId })
    | some frame =>
      let kept := evict (tracker.completedOrder ++ [requestId]) (tracker.completed.insert requestId frame)
      (.ok entry.expected,
        { tracker with
          entries := tracker.entries.erase requestId
          validated := tracker.validated.erase requestId
          completed := kept.2
          completedOrder := kept.1 })

def cancelUnsent (tracker : RequestTracker) (requestId : RequestId) : RequestTracker :=
  { tracker with
    entries := tracker.entries.erase requestId
    validated := tracker.validated.erase requestId }

end RequestTracker

/-! ## Runs of the tracker -/

inductive TrackerCall where
  | track (requestId : RequestId) (expected : ExpectedResponse) (sentAt : Nat)
  | reserveUntrackedId (requestId : RequestId)
  /-- A text frame of the server is read, and checked if it is a response. -/
  | receive (data : List UInt8)
  | complete (requestId : RequestId)
  | cancelUnsent (requestId : RequestId)

inductive TrackerAnswer where
  | done
  | response (requestId : RequestId)
  | push
  | expected (expected : ExpectedResponse)
  | error (error : TransportError)
deriving DecidableEq

def answerOf {α : Type} (old : RequestTracker) (result : Except TransportError α) (next : α → RequestTracker × TrackerAnswer) :
    RequestTracker × TrackerAnswer :=
  match result with
  | .ok value => next value
  | .error error => (old, .error error)

variable [SerdeJson]

def RequestTracker.receive (tracker : RequestTracker) (data : List UInt8) : RequestTracker × TrackerAnswer :=
  match decodeServerTextFrame data with
  | .error _ => (tracker, .error ⟨.protocol, false⟩)
  | .ok frame =>
    if frame.flow = .serverResponse then
      answerOf tracker (tracker.validate frame) fun (requestId, tracker) => (tracker, .response requestId)
    else (tracker, .push)

/-- The tracker as a machine that answers the calls of its session. -/
def trackerMachine : Machine RequestTracker TrackerCall TrackerAnswer where
  step tracker
    | .track requestId expected sentAt =>
      answerOf tracker (tracker.track requestId expected sentAt) fun tracker => (tracker, .done)
    | .reserveUntrackedId requestId =>
      answerOf tracker (tracker.reserveUntrackedId requestId) fun tracker => (tracker, .done)
    | .receive data => tracker.receive data
    | .complete requestId =>
      match tracker.complete requestId with
      | (.ok expected, tracker) => (tracker, .expected expected)
      | (.error error, tracker) => (tracker, .error error)
    | .cancelUnsent requestId => (tracker.cancelUnsent requestId, .done)

end Lumio.Transport.Wire
