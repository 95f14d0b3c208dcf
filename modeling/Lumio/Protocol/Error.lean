import Lumio.Protocol.Value

/-!
# Error codes of the protocol
-/

namespace Lumio.Protocol

inductive WorkspaceV2ErrorCode where
  | invalidFrame
  | invalidJson
  | unknownAction
  | unauthenticated
  | forbidden
  | invalidRequest
  | invalidRevision
  | invalidHash
  | invalidPath
  | workspaceNotFound
  | workspaceLimitExceeded
  | clientNotRegistered
  | staleBaseRevision
  | operationReused
  | blobRequired
  | blobNotFound
  | blobHashMismatch
  | blobSizeMismatch
  | blobTransferOutOfOrder
  | blobLimitExceeded
  | conflictNotFound
  | conflictRevisionStale
  | serverBusy
  | internal
deriving DecidableEq

namespace WorkspaceV2ErrorCode

def message : WorkspaceV2ErrorCode → String
  | invalidFrame => "invalid control frame"
  | invalidJson => "invalid JSON payload"
  | unknownAction => "unknown workspace action"
  | unauthenticated => "authentication required"
  | forbidden => "workspace access forbidden"
  | invalidRequest => "invalid request"
  | invalidRevision => "invalid workspace revision"
  | invalidHash => "invalid content hash"
  | invalidPath => "path must be a canonical workspace-relative POSIX path"
  | workspaceNotFound => "workspace not found"
  | workspaceLimitExceeded => "workspace limit exceeded"
  | clientNotRegistered => "client not registered"
  | staleBaseRevision => "base revision is stale"
  | operationReused => "operation identifier was reused"
  | blobRequired => "blob upload required"
  | blobNotFound => "blob not found"
  | blobHashMismatch => "blob hash mismatch"
  | blobSizeMismatch => "blob size mismatch"
  | blobTransferOutOfOrder => "blob transfer is out of order"
  | blobLimitExceeded => "blob transfer limit exceeded"
  | conflictNotFound => "conflict not found"
  | conflictRevisionStale => "conflict revision is stale"
  | serverBusy => "server is busy"
  | internal => "internal server error"

def retryable : WorkspaceV2ErrorCode → Bool
  | serverBusy | internal => true
  | _ => false

end WorkspaceV2ErrorCode

end Lumio.Protocol
