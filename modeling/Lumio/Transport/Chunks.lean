import Lumio.Protocol.Binary
import Lumio.Transport.Requests

/-!
# The chunks of a blob

An upload sends the chunks of a blob one at a time, as the budget of a drain tick has room, and then the end of the
transfer. A download checks the chunks that arrive against its own counters. The file of an upload is the bytes that are
left to read, and the staging file of a download the bytes that were written.
-/

namespace Lumio.Transport.Wire

open Lumio.Protocol
open Lumio.Protocol.Binary (Crates WorkspaceBlobHeader blobHeaderLen encodeBinaryFrameOwned decodeBinaryFrame
  downloadDirection)

abbrev BlobHash := Vector UInt8 32

structure BlobEnd where
  workspaceId : WorkspaceId
  transferId : Binary.TransferId
  direction : WorkspaceBlobDirection
  contentHash : BlobHash
  size : Nat
  chunkCount : Nat
deriving DecidableEq

def BlobEnd.validate (end_ : BlobEnd) : Except WorkspaceValidationError Unit := do
  validateBlobSize end_.size
  if end_.chunkCount ≠ blobChunkCount end_.size then validationError "chunkCount" "arithmetic_mismatch"

def chunkCount (size : Nat) : Nat := if size = 0 then 0 else (size - 1) / fullChunkBytes + 1

/-- A step of the codec, whose refusal ends the session. -/
def codec {α : Type} (step : Binary.Codec α) : Checked TransportError α :=
  ExceptT.mk (step.run.map fun result => result.mapError fun _ => ⟨.protocol, false⟩)

/-! ## Sending -/

inductive UploadPhase where
  | awaitingBeginResponse
  | streaming
  | readyForEnd
  | awaitingEndResponse
deriving DecidableEq

structure UploadTransfer where
  workspaceId : WorkspaceId
  transferId : Binary.TransferId
  contentHash : BlobHash
  size : Nat
  file : List UInt8
  phase : UploadPhase := .awaitingBeginResponse
  nextChunkIndex : Nat := 0
  nextOffset : Nat := 0
  /-- The bytes that the hasher has seen. -/
  hashed : List UInt8 := []

/-- What one drain tick leaves for an upload: its bytes, and whether a request can be sent. -/
structure Tick where
  bytes : Nat
  requestFits : Bool

inductive Emission where
  | chunk (frame : List UInt8)
  | blobEnd (message : BlobEnd)

section Sending

variable [Crates]

/-- At its end the file has no more bytes, and has the announced hash. -/
def checkContent (upload : UploadTransfer) : Checked TransportError Unit :=
  if upload.file ≠ [] then throw ⟨.filesystem, false⟩
  else if Crates.hash upload.hashed ≠ upload.contentHash then throw ⟨.filesystem, false⟩
  else pure ()

def advanceStreaming (upload : UploadTransfer) (bytes : Nat) :
    Checked TransportError (UploadTransfer × Option Emission) :=
  if upload.nextOffset = upload.size then do
    checkContent upload
    pure ({ upload with phase := .readyForEnd }, none)
  else
    let payloadLen := min (upload.size - upload.nextOffset) fullChunkBytes
    if bytes < blobHeaderLen + payloadLen then pure (upload, none)
    else if upload.file.length < payloadLen then throw ⟨.filesystem, false⟩
    else do
      let payload := upload.file.take payloadLen
      let read := { upload with file := upload.file.drop payloadLen, hashed := upload.hashed ++ payload }
      let finalChunk := decide (upload.nextOffset + payloadLen = upload.size)
      if finalChunk then checkContent read
      let frame ← codec (encodeBinaryFrameOwned .upload finalChunk upload.transferId
        (UInt64.ofNat upload.nextChunkIndex) (UInt64.ofNat upload.nextOffset) payload)
      if bytes < frame.length then pure (read, none)
      else
        pure ({ read with
          nextOffset := upload.nextOffset + payloadLen
          nextChunkIndex := upload.nextChunkIndex + 1
          phase := if finalChunk then .readyForEnd else .streaming }, some (.chunk frame))

def advanceEnd (upload : UploadTransfer) (requestFits : Bool) : UploadTransfer × Option Emission :=
  if requestFits then
    ({ upload with phase := .awaitingEndResponse },
      some (.blobEnd ⟨upload.workspaceId, upload.transferId, .upload, upload.contentHash, upload.size,
        chunkCount upload.size⟩))
  else (upload, none)

def advanceUpload (upload : UploadTransfer) (tick : Tick) : Checked TransportError (UploadTransfer × Option Emission) :=
  match upload.phase with
  | .readyForEnd => pure (advanceEnd upload tick.requestFits)
  | .streaming => advanceStreaming upload tick.bytes
  | .awaitingBeginResponse | .awaitingEndResponse => pure (upload, none)

def runUpload : UploadTransfer → List Tick → Checked TransportError (UploadTransfer × List Emission)
  | upload, [] => pure (upload, [])
  | upload, tick :: ticks => do
    let (upload, emission) ← advanceUpload upload tick
    let (upload, emissions) ← runUpload upload ticks
    pure (upload, emission.toList ++ emissions)

end Sending

/-! ## Receiving -/

inductive DownloadPhase where
  | receiving
  | readyForEnd
  | awaitingEndResponse
deriving DecidableEq

structure DownloadTransfer where
  workspaceId : WorkspaceId
  transferId : Binary.TransferId
  contentHash : BlobHash
  size : Nat
  chunkCount : Nat
  phase : DownloadPhase := .receiving
  nextChunkIndex : Nat := 0
  nextOffset : Nat := 0
  /-- The bytes that were handed to the import of the blob. -/
  received : List UInt8 := []

def DownloadTransfer.new (workspaceId : WorkspaceId) (transferId : Binary.TransferId) (contentHash : BlobHash) (size : Nat) :
    DownloadTransfer := { workspaceId, transferId, contentHash, size, chunkCount := Wire.chunkCount size }

def validateSequence (header : WorkspaceBlobHeader) (expectedIndex expectedOffset : Nat) (isLast : Bool) :
    Except WorkspaceValidationError Unit :=
  if header.payloadLen = 0 then validationError "payloadLength" "empty_payload_forbidden"
  else if header.chunkIndex.toNat ≠ expectedIndex then validationError "chunkIndex" "out_of_order"
  else if header.offset.toNat ≠ expectedOffset then validationError "offset" "out_of_order"
  else if header.finalChunk ≠ isLast then validationError "final" "flag_mismatch"
  else if !isLast ∧ header.payloadLen ≠ Binary.blobChunkBytes then validationError "payloadLength" "non_final_must_be_full"
  else if header.payloadLen > Binary.blobChunkBytes then validationError "payloadLength" "limit_exceeded"
  else .ok ()

/-- The checks of a chunk that was read. Sums are of 64-bit numbers and checked. -/
def receiveChunk (download : DownloadTransfer) (header : WorkspaceBlobHeader) (payload : List UInt8) :
    Except TransportError DownloadTransfer :=
  if header.direction ≠ .download then refused
  else if header.transferId ≠ download.transferId then refused
  else if download.phase ≠ .receiving then refused
  else
    let nextOffset := download.nextOffset + payload.length
    if 2 ^ 64 ≤ nextOffset then refused
    else if download.size < nextOffset then refused
    else
      let isLast := decide (nextOffset = download.size)
      match validateSequence header download.nextChunkIndex download.nextOffset isLast with
      | .error _ => refused
      | .ok () =>
        let nextIndex := download.nextChunkIndex + 1
        if 2 ^ 64 ≤ nextIndex then refused
        else if download.chunkCount < nextIndex ∨ (isLast ∧ nextIndex ≠ download.chunkCount) then refused
        else
          .ok { download with
            nextChunkIndex := nextIndex
            nextOffset := nextOffset
            received := download.received ++ payload }

def handleBinaryFrame [Crates] (download : DownloadTransfer) (data : List UInt8) :
    Checked TransportError DownloadTransfer := do
  let (header, payload) ← codec (decodeBinaryFrame data)
  ExceptT.mk (some (receiveChunk download header payload))

def handleEnd (download : DownloadTransfer) (end_ : BlobEnd) : Except TransportError DownloadTransfer :=
  match end_.validate with
  | .error _ => refused
  | .ok () =>
    if end_.direction ≠ .download ∨ end_.transferId ≠ download.transferId ∨ download.phase ≠ .receiving ∨
        download.workspaceId ≠ end_.workspaceId ∨ download.contentHash ≠ end_.contentHash ∨
        download.size ≠ end_.size ∨ download.chunkCount ≠ end_.chunkCount ∨ download.nextOffset ≠ end_.size ∨
        download.nextChunkIndex ≠ end_.chunkCount then refused
    else .ok { download with phase := .readyForEnd }

def receive [Crates] (download : DownloadTransfer) : Emission → Checked TransportError DownloadTransfer
  | .chunk frame => handleBinaryFrame download frame
  | .blobEnd message => ExceptT.mk (some (handleEnd download message))

def receiveAll [Crates] (download : DownloadTransfer) (emissions : List Emission) : Checked TransportError DownloadTransfer :=
  emissions.foldlM receive download

end Lumio.Transport.Wire
