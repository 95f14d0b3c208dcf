import Lumio.Protocol.Action

/-!
# Checks of the messages about connections and blobs
-/

namespace Lumio.Protocol

def fullChunkBytes : Nat := 1048576

def validateBlobSize (size : Nat) : Except WorkspaceValidationError Unit :=
  if maxBlobBytes < size then validationError "size" "limit_exceeded" else .ok ()

def blobChunkCount (size : Nat) : Nat := if size = 0 then 0 else (size - 1) / fullChunkBytes + 1

def WorkspaceHelloResponse.validate (hello : WorkspaceHelloResponse) : Except WorkspaceValidationError Unit :=
  if hello.protocolVersion ≠ "2" ∨ hello.serverVersion = "" then validationError "hello" "invalid_version"
  else if hello.maxControlFrameBytes ≠ 65536 ∨ hello.maxBinaryChunkBytes ≠ fullChunkBytes ∨
      hello.maxBlobBytes ≠ Protocol.maxBlobBytes ∨ hello.maxTransfersPerConnection ≠ 4 ∨ hello.heartbeatSeconds ≠ 25 then
    validationError "hello" "invalid_limits"
  else .ok ()

def WorkspaceBlobNeedUploadPush.validate (need : WorkspaceBlobNeedUploadPush) : Except WorkspaceValidationError Unit :=
  if need.direction ≠ .upload then validationError "direction" "must_be_upload" else validateBlobSize need.size

def WorkspaceBlobNeedDownloadResponse.validate (response : WorkspaceBlobNeedDownloadResponse) :
    Except WorkspaceValidationError Unit :=
  if response.direction ≠ .download then validationError "direction" "must_be_download"
  else if response.operationId.isSome then validationError "operationId" "must_be_null"
  else validateBlobSize response.size

def WorkspaceBlobBeginMessage.validate (begin_ : WorkspaceBlobBeginMessage) : Except WorkspaceValidationError Unit := do
  validateBlobSize begin_.size
  if begin_.chunkSize ≠ fullChunkBytes then validationError "chunkSize" "must_equal_limit"
  if begin_.chunkCount ≠ blobChunkCount begin_.size then validationError "chunkCount" "arithmetic_mismatch"

def WorkspaceBlobEndMessage.validate (end_ : WorkspaceBlobEndMessage) : Except WorkspaceValidationError Unit := do
  validateBlobSize end_.size
  if end_.chunkCount ≠ blobChunkCount end_.size then validationError "chunkCount" "arithmetic_mismatch"

end Lumio.Protocol
