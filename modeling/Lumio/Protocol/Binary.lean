import Lumio.Lib.Bytes
import Lumio.Protocol.Action

/-!
# Binary frames

A blob chunk travels as a 64-byte header and its payload. The BLAKE3 hash and the UUID texts are parameters: the
codec uses the first 16 bytes of the hash, and relies on a UUID's text reading back as that UUID.
-/

namespace Lumio.Protocol.Binary

open Bytes Checked

abbrev Uuid := Vector UInt8 16

/-- What the codec takes from the crates `uuid` and `blake3`. -/
class Crates where
  uuidToString : Uuid → String
  uuidParseStr : String → Option Uuid
  hash : List UInt8 → Vector UInt8 32

/-- The text of a UUID reads back as that UUID. -/
class LawfulUuid [Crates] : Prop where
  parse_toString : ∀ id, Crates.uuidParseStr (Crates.uuidToString id) = some id

def Uuid.isNil (id : Uuid) : Bool := id == Vector.replicate 16 0

structure TransferId where
  asUuid : Uuid
deriving DecidableEq

def TransferId.parse [Crates] (value : String) : Except WorkspaceValidationError TransferId :=
  match Crates.uuidParseStr value with
  | some parsed =>
    if Crates.uuidToString parsed = value then .ok ⟨parsed⟩ else validationError "transferId" "invalid_uuid"
  | none => validationError "transferId" "invalid_uuid"

def blobHeaderLen : Nat := 64
def blobChunkBytes : UInt32 := 1048576

def blobMagic : List UInt8 := [0x46, 0x4e, 0x53, 0x32]
def blobVersion : UInt8 := 0x02
def uploadDirection : UInt8 := 0x01
def downloadDirection : UInt8 := 0x02
def finalChunkFlag : UInt8 := 0x01

structure WorkspaceBlobHeader where
  direction : WorkspaceBlobDirection
  finalChunk : Bool
  transferId : TransferId
  chunkIndex : UInt64
  offset : UInt64
  payloadLen : UInt32
  chunkDigest : Vector UInt8 16
deriving DecidableEq

/-- The errors are the program's own; `none` is a panic of an indexing operation. -/
abbrev Codec (α : Type) := Checked WorkspaceValidationError α

def refuse {α : Type} (field reason : String) : Codec α := throw ⟨field, reason⟩

def refuseIf (p : Prop) [Decidable p] (field reason : String) : Codec Unit := if p then refuse field reason else pure ()

theorem refuseIf_run_ok {p : Prop} [Decidable p] {field reason : String} :
    (refuseIf p field reason).run = some (.ok ()) ↔ ¬ p := by
  unfold refuseIf
  split
  · rename_i h; simp [refuse, h]
  · rename_i h; simp [h]

theorem refuseIf_safe {p : Prop} [Decidable p] (field reason : String) : Safe (refuseIf p field reason) := by
  unfold refuseIf
  split
  · exact .throw _
  · exact .pure _

theorem run_bind_refuseIf_eq_ok {β : Type} {p : Prop} [Decidable p] {field reason : String} {f : Unit → Codec β}
    {b : β} : (refuseIf p field reason >>= f).run = some (.ok b) ↔ ¬ p ∧ (f ()).run = some (.ok b) := by
  rw [run_bind_eq_ok]
  constructor
  · rintro ⟨⟨⟩, hp, hf⟩
    exact ⟨refuseIf_run_ok.mp hp, hf⟩
  · rintro ⟨hp, hf⟩
    exact ⟨(), refuseIf_run_ok.mpr hp, hf⟩

def validatePayloadLen (payloadLen : Nat) : Codec Unit :=
  if payloadLen = 0 then refuse "payloadLength" "empty_payload_forbidden"
  else if payloadLen > blobChunkBytes.toNat then refuse "payloadLength" "limit_exceeded"
  else pure ()

theorem validatePayloadLen_run_ok {n : Nat} :
    (validatePayloadLen n).run = some (.ok ()) ↔ 0 < n ∧ n ≤ 1048576 := by
  have hlimit : blobChunkBytes.toNat = 1048576 := rfl
  unfold validatePayloadLen
  split
  · rename_i h; simp [refuse, h]
  · split
    · rename_i h; simp [refuse]; omega
    · rename_i h; simp; omega

def directionByte : WorkspaceBlobDirection → UInt8
  | .upload => uploadDirection
  | .download => downloadDirection

def flagsByte (finalChunk : Bool) : UInt8 := (if finalChunk then 1 else 0) * finalChunkFlag

/-- The header written over the buffer, which holds the payload from byte 64 on. -/
def writeHeader (direction : WorkspaceBlobDirection) (finalChunk : Bool) (transferId : TransferId)
    (chunkIndex offset : UInt64) (payloadLen : Nat) (chunkDigest : Vector UInt8 16) (frame : List UInt8) :
    Option (List UInt8) := do
  let frame ← copyFromSlice frame 0 4 blobMagic
  let frame ← setAt frame 4 blobVersion
  let frame ← setAt frame 5 (directionByte direction)
  let frame ← setAt frame 6 (flagsByte finalChunk)
  let frame ← setAt frame 7 (UInt8.ofNat blobHeaderLen)
  let frame ← copyFromSlice frame 8 24 transferId.asUuid.toList
  let frame ← copyFromSlice frame 24 32 (ofNat 8 chunkIndex.toNat)
  let frame ← copyFromSlice frame 32 40 (ofNat 8 offset.toNat)
  let frame ← copyFromSlice frame 40 44 (ofNat 4 (UInt32.ofNat payloadLen).toNat)
  copyFromSlice frame 48 64 chunkDigest.toList

section Codec

variable [Crates]

def computeBlobDigest (payload : List UInt8) : Vector UInt8 32 × Vector UInt8 16 :=
  let full := Crates.hash payload
  (full, full.take 16)

def encodeBinaryFrameOwned (direction : WorkspaceBlobDirection) (finalChunk : Bool) (transferId : TransferId)
    (chunkIndex offset : UInt64) (payload : List UInt8) : Codec (List UInt8) := do
  refuseIf (Uuid.isNil transferId.asUuid) "transferId" "invalid_uuid"
  validatePayloadLen payload.length
  let payloadLen := payload.length
  let (_, chunkDigest) := computeBlobDigest payload
  let frame := payload ++ List.replicate blobHeaderLen 0
  let frame ← access (copyWithin frame 0 payloadLen blobHeaderLen)
  let frame ← access (copyFromSlice frame 0 blobHeaderLen (List.replicate blobHeaderLen 0))
  access (writeHeader direction finalChunk transferId chunkIndex offset payloadLen chunkDigest frame)

def encodeBinaryFrame (direction : WorkspaceBlobDirection) (finalChunk : Bool) (transferId : TransferId)
    (chunkIndex offset : UInt64) (payload : List UInt8) : Codec (List UInt8) :=
  encodeBinaryFrameOwned direction finalChunk transferId chunkIndex offset payload

def decodeDirection (byte : UInt8) : Codec WorkspaceBlobDirection :=
  if byte = uploadDirection then pure .upload
  else if byte = downloadDirection then pure .download
  else refuse "direction" "invalid_enum"

def decodeTransferId (bytes : List UInt8) : Codec TransferId := do
  let transferUuid ← access (toArray 16 bytes)
  refuseIf (Uuid.isNil transferUuid) "transferId" "invalid_uuid"
  ExceptT.mk (some (TransferId.parse (Crates.uuidToString transferUuid)))

def decodeBinaryFrame (frame : List UInt8) : Codec (WorkspaceBlobHeader × List UInt8) := do
  refuseIf (frame.length < blobHeaderLen) "header" "invalid_length"
  let magic ← access (slice frame 0 4)
  refuseIf (magic ≠ blobMagic) "magic" "invalid"
  let version ← access (byteAt frame 4)
  refuseIf (version ≠ blobVersion) "version" "invalid"
  let direction ← decodeDirection (← access (byteAt frame 5))
  let flags ← access (byteAt frame 6)
  refuseIf (flags &&& ~~~finalChunkFlag ≠ 0) "flags" "reserved_bits"
  let finalChunk := decide (flags &&& finalChunkFlag ≠ 0)
  let headerLength ← access (byteAt frame 7)
  refuseIf (headerLength.toNat ≠ blobHeaderLen) "headerLength" "invalid"
  let transferId ← decodeTransferId (← access (slice frame 8 24))
  let chunkIndex := UInt64.ofNat (toNat (← access (slice frame 24 32)))
  let offset := UInt64.ofNat (toNat (← access (slice frame 32 40)))
  let payloadLen := UInt32.ofNat (toNat (← access (slice frame 40 44)))
  refuseIf (payloadLen = 0) "payloadLength" "empty_payload_forbidden"
  refuseIf (payloadLen > blobChunkBytes) "payloadLength" "limit_exceeded"
  refuseIf (frame.length ≠ blobHeaderLen + payloadLen.toNat) "payloadLength" "frame_mismatch"
  let reserved ← access (slice frame 44 48)
  refuseIf (reserved ≠ [0, 0, 0, 0]) "reserved" "non_zero"
  let payload ← access (slice frame blobHeaderLen frame.length)
  let (_, expectedDigest) := computeBlobDigest payload
  let chunkDigest ← access (toArray 16 (← access (slice frame 48 64)))
  refuseIf (chunkDigest ≠ expectedDigest) "chunkDigest" "mismatch"
  return (⟨direction, finalChunk, transferId, chunkIndex, offset, payloadLen, chunkDigest⟩, payload)

/-! ## What the encoder writes -/

/-- The image of a chunk: the header fields in order, the reserved bytes zero, then the payload. -/
def image (direction : WorkspaceBlobDirection) (finalChunk : Bool) (transferId : TransferId)
    (chunkIndex offset : UInt64) (payload : List UInt8) : List UInt8 :=
  blobMagic ++ ([blobVersion, directionByte direction, flagsByte finalChunk, UInt8.ofNat blobHeaderLen] ++
    (transferId.asUuid.toList ++ (ofNat 8 chunkIndex.toNat ++ (ofNat 8 offset.toNat ++
      (ofNat 4 payload.length ++ (List.replicate 4 0 ++ ((computeBlobDigest payload).2.toList ++ payload)))))))

variable {direction : WorkspaceBlobDirection} {finalChunk : Bool} {transferId : TransferId}
  {chunkIndex offset : UInt64} {payload frame : List UInt8}

structure Accepted (transferId : TransferId) (payload : List UInt8) : Prop where
  notNil : Uuid.isNil transferId.asUuid = false
  notEmpty : 0 < payload.length
  withinLimit : payload.length ≤ 1048576

variable (payload) in
omit [Crates] in
theorem blank_header : (do
    let frame ← copyWithin (payload ++ List.replicate blobHeaderLen 0) 0 payload.length blobHeaderLen
    copyFromSlice frame 0 blobHeaderLen (List.replicate blobHeaderLen 0)) =
      some (List.replicate blobHeaderLen (0 : UInt8) ++ payload) := by
  have hmove : copyWithin (payload ++ List.replicate blobHeaderLen 0) 0 payload.length blobHeaderLen =
      some ((payload ++ List.replicate blobHeaderLen 0).take blobHeaderLen ++ payload) := by
    have hpart : slice (payload ++ List.replicate blobHeaderLen (0 : UInt8)) 0 payload.length = some payload := by
      exact slice_middle List.length_nil (Nat.zero_add _)
    simp only [copyWithin, hpart, Option.bind_eq_bind, Option.bind_some, copyFromSlice]
    rw [if_pos ⟨by omega, by simp [Nat.add_comm], by omega⟩, List.drop_eq_nil_of_le (by simp [Nat.add_comm]),
      List.append_nil]
  have hlen : ((payload ++ List.replicate blobHeaderLen (0 : UInt8)).take blobHeaderLen).length = blobHeaderLen := by
    simp
  rw [hmove, Option.bind_eq_bind, Option.bind_some, copyFromSlice,
    if_pos ⟨by omega, by simp [hlen], by simp⟩, List.drop_left' hlen]
  simp

theorem writeHeader_blank (hlen : payload.length ≤ 1048576) :
    writeHeader direction finalChunk transferId chunkIndex offset payload.length (computeBlobDigest payload).2
      (List.replicate blobHeaderLen 0 ++ payload) =
        some (image direction finalChunk transferId chunkIndex offset payload) := by
  have hcast : (UInt32.ofNat payload.length).toNat = payload.length :=
    UInt32.toNat_ofNat_of_lt (by unfold UInt32.size; omega)
  unfold writeHeader
  rw [hcast, ← List.nil_append (List.replicate blobHeaderLen 0 ++ payload)]
  rw [Option.bind_eq_bind, copyFromSlice_blank 0 60, Option.bind_some, setAt_blank 59, Option.bind_some,
    setAt_blank 58, Option.bind_some, setAt_blank 57, Option.bind_some, setAt_blank 56, Option.bind_some,
    copyFromSlice_blank 0 40, Option.bind_some, copyFromSlice_blank 0 32, Option.bind_some,
    copyFromSlice_blank 0 24, Option.bind_some, copyFromSlice_blank 0 20, Option.bind_some,
    copyFromSlice_blank 4 0]
  · simp [image]
  all_goals simp [blobMagic, blobHeaderLen]

theorem encodeBinaryFrame_run (h : Accepted transferId payload) :
    (encodeBinaryFrame direction finalChunk transferId chunkIndex offset payload).run =
      some (.ok (image direction finalChunk transferId chunkIndex offset payload)) := by
  have hblank := blank_header payload
  obtain ⟨moved, hmoved, hfilled⟩ := Option.bind_eq_some_iff.mp hblank
  unfold encodeBinaryFrame encodeBinaryFrameOwned
  rw [run_bind_of_ok (refuseIf_run_ok.mpr (by simp [h.notNil])),
    run_bind_of_ok (validatePayloadLen_run_ok.mpr ⟨h.notEmpty, h.withinLimit⟩)]
  rw [run_bind_access hmoved, run_bind_access hfilled, run_access, writeHeader_blank h.withinLimit, Option.map_some]

theorem accepted_of_encodeBinaryFrame
    (h : (encodeBinaryFrame direction finalChunk transferId chunkIndex offset payload).run = some (.ok frame)) :
    Accepted transferId payload := by
  unfold encodeBinaryFrame encodeBinaryFrameOwned at h
  obtain ⟨_, hnil, h⟩ := run_bind_eq_ok.mp h
  obtain ⟨_, hlen, _⟩ := run_bind_eq_ok.mp h
  have hlen := validatePayloadLen_run_ok.mp hlen
  exact ⟨by simpa using refuseIf_run_ok.mp hnil, hlen.1, hlen.2⟩

/-! ## What the decoder reads -/

def headerOf (direction : WorkspaceBlobDirection) (finalChunk : Bool) (transferId : TransferId)
    (chunkIndex offset : UInt64) (payload : List UInt8) : WorkspaceBlobHeader :=
  ⟨direction, finalChunk, transferId, chunkIndex, offset, UInt32.ofNat payload.length, (computeBlobDigest payload).2⟩

theorem decodeTransferId_run [LawfulUuid] (h : Uuid.isNil transferId.asUuid = false) :
    (decodeTransferId transferId.asUuid.toList).run = some (.ok transferId) := by
  unfold decodeTransferId
  rw [run_bind_access (toArray_toList _), run_bind_of_ok (refuseIf_run_ok.mpr (by simp [h])), ExceptT.run_mk,
    TransferId.parse, LawfulUuid.parse_toString]
  simp

omit [Crates] in
theorem decodeDirection_run : (decodeDirection (directionByte direction)).run = some (.ok direction) := by
  cases direction <;> rfl

theorem length_image : (image direction finalChunk transferId chunkIndex offset payload).length =
    blobHeaderLen + payload.length := by
  simp [image, blobMagic, blobHeaderLen]
  omega

theorem image_fields (hframe : frame = image direction finalChunk transferId chunkIndex offset payload) :
    slice frame 0 4 = some blobMagic ∧ byteAt frame 4 = some blobVersion ∧
      byteAt frame 5 = some (directionByte direction) ∧ byteAt frame 6 = some (flagsByte finalChunk) ∧
      byteAt frame 7 = some (UInt8.ofNat blobHeaderLen) ∧ slice frame 8 24 = some transferId.asUuid.toList ∧
      slice frame 24 32 = some (ofNat 8 chunkIndex.toNat) ∧ slice frame 32 40 = some (ofNat 8 offset.toNat) ∧
      slice frame 40 44 = some (ofNat 4 payload.length) ∧ slice frame 44 48 = some [0, 0, 0, 0] ∧
      slice frame 48 64 = some (computeBlobDigest payload).2.toList := by
  rw [hframe]
  simp only [image, blobMagic, List.cons_append, List.nil_append]
  refine ⟨?_, rfl, rfl, rfl, rfl, ?_, ?_, ?_, ?_, ?_, ?_⟩
  · simp [slice]
  all_goals simp [slice_append_right, slice_append_left, slice_cons]
  all_goals simp [slice]

theorem image_payload (hframe : frame = image direction finalChunk transferId chunkIndex offset payload) :
    slice frame blobHeaderLen frame.length = some payload := by
  rw [hframe]
  simp only [image, ← List.append_assoc]
  exact slice_tail (by simp [blobMagic, blobHeaderLen])

omit [Crates] in
theorem flagsByte_reserved (finalChunk : Bool) : flagsByte finalChunk &&& ~~~finalChunkFlag = 0 := by
  cases finalChunk <;> decide

omit [Crates] in
theorem flagsByte_final (finalChunk : Bool) :
    decide (flagsByte finalChunk &&& finalChunkFlag ≠ 0) = finalChunk := by
  cases finalChunk <;> decide

theorem decodeBinaryFrame_image [LawfulUuid] (h : Accepted transferId payload)
    (hframe : frame = image direction finalChunk transferId chunkIndex offset payload) :
    (decodeBinaryFrame frame).run =
      some (.ok (headerOf direction finalChunk transferId chunkIndex offset payload, payload)) := by
  obtain ⟨hmagic, hversion, hdirection, hflags, hheader, hid, hindex, hoffset, hlength, hreserved, hdigest⟩ :=
    image_fields hframe
  have hpayload := image_payload hframe
  have hsize : frame.length = blobHeaderLen + payload.length := by rw [hframe, length_image]
  have hpos := h.notEmpty
  have hlimit := h.withinLimit
  have hcast : (UInt32.ofNat payload.length).toNat = payload.length :=
    UInt32.toNat_ofNat_of_lt (by unfold UInt32.size; omega)
  have hnum : toNat (ofNat 4 payload.length) = payload.length := toNat_ofNat_of_lt (by omega)
  have hindexNum : UInt64.ofNat (toNat (ofNat 8 chunkIndex.toNat)) = chunkIndex := by
    rw [toNat_ofNat_of_lt chunkIndex.toNat_lt, UInt64.ofNat_toNat]
  have hoffsetNum : UInt64.ofNat (toNat (ofNat 8 offset.toNat)) = offset := by
    rw [toNat_ofNat_of_lt offset.toNat_lt, UInt64.ofNat_toNat]
  have hzero : UInt32.ofNat payload.length ≠ 0 := by
    intro hz
    rw [hz] at hcast
    simp at hcast
    omega
  have hle : ¬ UInt32.ofNat payload.length > blobChunkBytes := by
    rw [gt_iff_lt, UInt32.lt_iff_toNat_lt, hcast]
    exact Nat.not_lt.mpr hlimit
  unfold decodeBinaryFrame
  rw [run_bind_of_ok (refuseIf_run_ok.mpr (by omega)), run_bind_access hmagic,
    run_bind_of_ok (refuseIf_run_ok.mpr (by simp)), run_bind_access hversion,
    run_bind_of_ok (refuseIf_run_ok.mpr (by simp)), run_bind_access hdirection,
    run_bind_of_ok decodeDirection_run, run_bind_access hflags,
    run_bind_of_ok (refuseIf_run_ok.mpr (by simp [flagsByte_reserved])), run_bind_access hheader,
    run_bind_of_ok (refuseIf_run_ok.mpr (by decide)), run_bind_access hid,
    run_bind_of_ok (decodeTransferId_run h.notNil), run_bind_access hindex, run_bind_access hoffset,
    run_bind_access hlength, hnum, run_bind_of_ok (refuseIf_run_ok.mpr hzero), run_bind_of_ok (refuseIf_run_ok.mpr hle),
    run_bind_of_ok (refuseIf_run_ok.mpr (by rw [hcast]; simp [hsize])), run_bind_access hreserved,
    run_bind_of_ok (refuseIf_run_ok.mpr (by simp)), run_bind_access hpayload, run_bind_access hdigest,
    run_bind_access (toArray_toList _), run_bind_of_ok (refuseIf_run_ok.mpr (by simp)), flagsByte_final, hindexNum,
    hoffsetNum]
  rfl

/-! ## What the decoder accepts -/

variable {bytes : List UInt8}

omit [Crates] in
theorem length_of_access {i j : Nat} (h : (access (slice frame i j) : Codec (List UInt8)).run = some (.ok bytes)) :
    bytes.length = j - i := by
  rw [run_access, Option.map_eq_some_iff] at h
  obtain ⟨_, h, heq⟩ := h
  cases heq
  exact length_of_slice h

omit [Crates] in
theorem decodeDirection_safe (byte : UInt8) : Safe (decodeDirection byte) := by
  unfold decodeDirection
  split
  · exact .pure _
  · split
    · exact .pure _
    · exact .throw _

theorem decodeTransferId_safe (h : bytes.length = 16) : Safe (decodeTransferId bytes) := by
  unfold decodeTransferId
  refine .bind (.access (toArray_isSome h)) fun _ _ => .bind (refuseIf_safe _ _) fun _ _ => ?_
  simp [Safe]

omit [Crates] in
theorem decodeDirection_inv {byte : UInt8} (h : (decodeDirection byte).run = some (.ok direction)) :
    byte = directionByte direction := by
  unfold decodeDirection at h
  split at h
  · cases h; assumption
  · split at h
    · cases h; assumption
    · cases h

theorem decodeTransferId_inv [LawfulUuid] (h : (decodeTransferId bytes).run = some (.ok transferId)) :
    bytes = transferId.asUuid.toList ∧ Uuid.isNil transferId.asUuid = false := by
  unfold decodeTransferId at h
  simp only [run_bind_access_eq_ok, run_bind_refuseIf_eq_ok, ExceptT.run_mk, TransferId.parse,
    LawfulUuid.parse_toString] at h
  obtain ⟨id, harray, hnil, hid⟩ := h
  cases hid
  exact ⟨(toList_of_toArray harray).symm, by simpa using hnil⟩

omit [Crates] in
theorem flagsByte_inv {flags : UInt8} (h : ¬ flags &&& ~~~finalChunkFlag ≠ 0) :
    flags = flagsByte (decide (flags &&& finalChunkFlag ≠ 0)) := by
  rcases flags with ⟨bits⟩
  revert bits
  decide +kernel

omit [Crates] in
theorem digits64 {digits : List UInt8} (h : digits.length = 8) :
    ofNat 8 (UInt64.ofNat (toNat digits)).toNat = digits := by
  have hlt : toNat digits < 2 ^ 64 := by simpa [h] using toNat_lt digits
  rw [UInt64.toNat_ofNat_of_lt' hlt]
  exact ofNat_toNat_of_length h

theorem decodeBinaryFrame_inv [LawfulUuid] {header : WorkspaceBlobHeader}
    (h : (decodeBinaryFrame frame).run = some (.ok (header, payload))) :
    Accepted header.transferId payload ∧
      frame = image header.direction header.finalChunk header.transferId header.chunkIndex header.offset payload := by
  unfold decodeBinaryFrame at h
  simp only [run_bind_access_eq_ok, run_bind_refuseIf_eq_ok] at h
  obtain ⟨hmin, magic, hmagic, hmagicEq, version, hversion, hversionEq, dirByte, hdirByte, h⟩ := h
  obtain ⟨direction, hdirection, h⟩ := run_bind_eq_ok.mp h
  simp only [run_bind_access_eq_ok, run_bind_refuseIf_eq_ok] at h
  obtain ⟨flags, hflags, hflagsEq, hlen, hheaderLen, hheaderLenEq, id, hid, h⟩ := h
  obtain ⟨transferId, htransfer, h⟩ := run_bind_eq_ok.mp h
  simp only [run_bind_access_eq_ok, run_bind_refuseIf_eq_ok] at h
  obtain ⟨index, hindex, off, hoffset, num, hnum, hzero, hlimit, hsize, reserved, hreserved, hreservedEq,
    body, hbody, digestBytes, hdigestBytes, digest, hdigest, hdigestEq, h⟩ := h
  cases h
  obtain ⟨hidEq, hnotNil⟩ := decodeTransferId_inv htransfer
  have hdigestList := toList_of_toArray hdigest
  -- The frame is put together again from its parts.
  have h8 : frame.take 8 = magic ++ [version, dirByte, flags, hlen] := by
    have h := take_append_slice hmagic
    rw [← take_append_byteAt hheaderLen, ← take_append_byteAt hflags, ← take_append_byteAt hdirByte,
      ← take_append_byteAt hversion, ← h]
    simp
  have h64 : frame.take 64 = frame.take 8 ++ (id ++ (index ++ (off ++ (num ++ (reserved ++ digestBytes))))) := by
    rw [← take_append_slice hdigestBytes, ← take_append_slice hreserved, ← take_append_slice hnum,
      ← take_append_slice hoffset, ← take_append_slice hindex, ← take_append_slice hid]
    simp only [List.append_assoc]
  have hbodyEq : payload = frame.drop 64 := by
    obtain ⟨_, _, hbodyEq⟩ := slice_eq_some hbody
    rw [hbodyEq, List.take_length]
    rfl
  -- The numbers are read back from the digits they were read from.
  have hindexEq := digits64 (length_of_slice hindex)
  have hoffsetEq := digits64 (length_of_slice hoffset)
  have hnumLt : toNat num < 2 ^ 32 := by simpa [length_of_slice hnum] using toNat_lt num
  have hnumCast : (UInt32.ofNat (toNat num)).toNat = toNat num := UInt32.toNat_ofNat_of_lt hnumLt
  have hnumPos : 0 < toNat num := by
    rcases Nat.eq_zero_or_pos (toNat num) with hz | hpos
    · exact absurd (by rw [hz]; rfl) hzero
    · exact hpos
  have hnumLe : toNat num ≤ 1048576 := by
    rw [gt_iff_lt, UInt32.lt_iff_toNat_lt, hnumCast] at hlimit
    exact Nat.not_lt.mp hlimit
  have hpayloadLen : payload.length = toNat num := by
    rw [hnumCast] at hsize
    rw [hbodyEq, List.length_drop, not_not.mp hsize]
    simp [blobHeaderLen]
  have hnumEq : ofNat 4 payload.length = num := by
    rw [hpayloadLen]
    exact ofNat_toNat_of_length (length_of_slice hnum)
  have hheaderByte : hlen = UInt8.ofNat blobHeaderLen := by
    rw [← not_not.mp hheaderLenEq, UInt8.ofNat_toNat]
  refine ⟨⟨hnotNil, by omega, by omega⟩, ?_⟩
  rw [← List.take_append_drop 64 frame, ← hbodyEq, h64, h8, image, hindexEq, hoffsetEq, hnumEq, ← hidEq,
    ← flagsByte_inv hflagsEq, ← decodeDirection_inv hdirection, ← hheaderByte, not_not.mp hmagicEq,
    not_not.mp hversionEq, not_not.mp hreservedEq, ← not_not.mp hdigestEq, hdigestList]
  simp only [List.append_assoc]
  rfl

theorem decodeBinaryFrame_safe (frame : List UInt8) : Safe (decodeBinaryFrame frame) := by
  unfold decodeBinaryFrame
  refine .bind (refuseIf_safe _ _) fun _ hmin => ?_
  have hmin := refuseIf_run_ok.mp hmin
  have hlen : 64 ≤ frame.length := Nat.not_lt.mp hmin
  refine .bind (.access (slice_isSome (by omega) (by omega))) fun _ _ => ?_
  refine .bind (refuseIf_safe _ _) fun _ _ => ?_
  refine .bind (.access (byteAt_isSome (by omega))) fun _ _ => ?_
  refine .bind (refuseIf_safe _ _) fun _ _ => ?_
  refine .bind (.access (byteAt_isSome (by omega))) fun _ _ => ?_
  refine .bind (decodeDirection_safe _) fun _ _ => ?_
  refine .bind (.access (byteAt_isSome (by omega))) fun _ _ => ?_
  refine .bind (refuseIf_safe _ _) fun _ _ => ?_
  refine .bind (.access (byteAt_isSome (by omega))) fun _ _ => ?_
  refine .bind (refuseIf_safe _ _) fun _ _ => ?_
  refine .bind (.access (slice_isSome (by omega) (by omega))) fun _ hid => ?_
  refine .bind (decodeTransferId_safe (length_of_access hid)) fun _ _ => ?_
  refine .bind (.access (slice_isSome (by omega) (by omega))) fun _ _ => ?_
  refine .bind (.access (slice_isSome (by omega) (by omega))) fun _ _ => ?_
  refine .bind (.access (slice_isSome (by omega) (by omega))) fun _ _ => ?_
  refine .bind (refuseIf_safe _ _) fun _ _ => ?_
  refine .bind (refuseIf_safe _ _) fun _ _ => ?_
  refine .bind (refuseIf_safe _ _) fun _ _ => ?_
  refine .bind (.access (slice_isSome (by omega) (by omega))) fun _ _ => ?_
  refine .bind (refuseIf_safe _ _) fun _ _ => ?_
  refine .bind (.access (slice_isSome hlen le_rfl)) fun _ _ => ?_
  refine .bind (.access (slice_isSome (by omega) (by omega))) fun _ hdigest => ?_
  refine .bind (.access (toArray_isSome (length_of_access hdigest))) fun _ _ => ?_
  exact .bind (refuseIf_safe _ _) fun _ _ => .pure _

/-- Encoder and decoder are inverse to each other on the accepted chunks and frames, and every other byte string is
refused with an error. -/
theorem binary_frame_bijection [LawfulUuid] :
    (∀ direction finalChunk transferId chunkIndex offset payload frame,
      (encodeBinaryFrame direction finalChunk transferId chunkIndex offset payload).run = some (.ok frame) →
      (decodeBinaryFrame frame).run =
        some (.ok (⟨direction, finalChunk, transferId, chunkIndex, offset, UInt32.ofNat payload.length,
          (computeBlobDigest payload).2⟩, payload))) ∧
    (∀ frame header payload, (decodeBinaryFrame frame).run = some (.ok (header, payload)) →
      (encodeBinaryFrame header.direction header.finalChunk header.transferId header.chunkIndex header.offset
        payload).run = some (.ok frame)) ∧
    ∀ frame, (¬ ∃ direction finalChunk transferId chunkIndex offset payload,
      (encodeBinaryFrame direction finalChunk transferId chunkIndex offset payload).run = some (.ok frame)) →
      ∃ error, (decodeBinaryFrame frame).run = some (.error error) := by
  have hback : ∀ frame header payload, (decodeBinaryFrame frame).run = some (.ok (header, payload)) →
      (encodeBinaryFrame header.direction header.finalChunk header.transferId header.chunkIndex header.offset
        payload).run = some (.ok frame) := by
    intro frame header payload h
    obtain ⟨haccepted, hframe⟩ := decodeBinaryFrame_inv h
    rw [encodeBinaryFrame_run haccepted, ← hframe]
  refine ⟨?_, hback, ?_⟩
  · intro direction finalChunk transferId chunkIndex offset payload frame h
    have haccepted := accepted_of_encodeBinaryFrame h
    rw [encodeBinaryFrame_run haccepted] at h
    cases h
    exact decodeBinaryFrame_image haccepted rfl
  · intro frame hno
    rcases hrun : (decodeBinaryFrame frame).run with _ | (error | ⟨header, payload⟩)
    · exact absurd hrun (decodeBinaryFrame_safe frame)
    · exact ⟨error, rfl⟩
    · exact absurd ⟨_, _, _, _, _, _, hback _ _ _ hrun⟩ hno

end Codec

/-! ## A frame of one zero byte -/

def hexOfByte (byte : UInt8) : List Char := [Nat.digitChar (byte.toNat / 16), Nat.digitChar (byte.toNat % 16)]

def hexValue (c : Char) : Nat := if c.isDigit then c.toNat - 48 else c.toNat - 87

def bytesOfHex : List Char → List UInt8
  | high :: low :: rest => UInt8.ofNat (16 * hexValue high + hexValue low) :: bytesOfHex rest
  | _ => []

/-- The hyphenated text of a UUID, in lower case. -/
def hyphenated (id : Uuid) : String :=
  let part (i j : Nat) := ((id.toList.take j).drop i).flatMap hexOfByte
  String.ofList (part 0 4 ++ '-' :: part 4 6 ++ '-' :: part 6 8 ++ '-' :: part 8 10 ++ '-' :: part 10 16)

def parseHyphenated (text : String) : Option Uuid := toArray 16 (bytesOfHex (text.toList.filter (· != '-')))

theorem hexOfByte_back (byte : UInt8) :
    UInt8.ofNat (16 * hexValue (Nat.digitChar (byte.toNat / 16)) + hexValue (Nat.digitChar (byte.toNat % 16))) = byte ∧
      (hexOfByte byte).filter (· != '-') = hexOfByte byte := by
  rcases byte with ⟨bits⟩
  revert bits
  decide +kernel

theorem bytesOfHex_hex (bytes : List UInt8) : bytesOfHex (bytes.flatMap hexOfByte) = bytes := by
  induction bytes with
  | nil => rfl
  | cons byte bytes ih =>
    simp only [List.flatMap_cons, hexOfByte, List.cons_append, List.nil_append, bytesOfHex, ih,
      (hexOfByte_back byte).1]

theorem filter_hex (bytes : List UInt8) :
    (bytes.flatMap hexOfByte).filter (· != '-') = bytes.flatMap hexOfByte := by
  induction bytes with
  | nil => rfl
  | cons byte bytes ih => rw [List.flatMap_cons, List.filter_append, (hexOfByte_back byte).2, ih]

theorem parseHyphenated_hyphenated (id : Uuid) : parseHyphenated (hyphenated id) = some id := by
  have hjoin : ∀ i j, i ≤ j → id.toList.take i ++ (id.toList.take j).drop i = id.toList.take j := by
    intro i j hij
    rw [show id.toList.take i = (id.toList.take j).take i by rw [List.take_take, Nat.min_eq_left hij],
      List.take_append_drop]
  have hwhole : id.toList.take 16 = id.toList := List.take_of_length_le (by simp)
  have hparts : (hyphenated id).toList.filter (· != '-') = id.toList.flatMap hexOfByte := by
    simp only [hyphenated, String.toList_ofList, List.filter_append, List.filter_cons, filter_hex]
    simp only [bne_self_eq_false, Bool.false_eq_true, if_false, ← List.flatMap_append, List.drop_zero]
    rw [hjoin 4 6 (by omega), hjoin 6 8 (by omega), hjoin 8 10 (by omega), hjoin 10 16 (by omega), hwhole]
  rw [parseHyphenated, hparts, bytesOfHex_hex, toArray_toList]

scoped instance sampleCrates : Crates where
  uuidToString := hyphenated
  uuidParseStr := parseHyphenated
  hash _ := #v[0x2d, 0x3a, 0xde, 0xdf, 0xf1, 0x1b, 0x61, 0xf1, 0x4c, 0x88, 0x6e, 0x35, 0xaf, 0xa0, 0x36, 0x73,
    0x6d, 0xcd, 0x87, 0xa7, 0x4d, 0x27, 0xb5, 0xc1, 0x51, 0x02, 0x25, 0xd0, 0xf5, 0x92, 0xe2, 0x13]

scoped instance sampleCrates_lawful : LawfulUuid where
  parse_toString := parseHyphenated_hyphenated

def sampleTransferId : TransferId := ⟨#v[0, 0, 0, 0, 0, 0, 0, 0, 0, 0, 0, 0, 0, 0, 0, 1]⟩

theorem binary_frame_of_zero :
    ∃ frame header, (encodeBinaryFrame .upload true sampleTransferId 3 3145728 [0]).run = some (.ok frame) ∧
      frame.length = 65 ∧ (decodeBinaryFrame frame).run = some (.ok (header, [0])) ∧ header.chunkIndex = 3 := by
  have haccepted : Accepted sampleTransferId [0] := ⟨by decide, by decide, by decide⟩
  exact ⟨_, _, encodeBinaryFrame_run haccepted, rfl,
    binary_frame_bijection.1 _ _ _ _ _ _ _ (encodeBinaryFrame_run haccepted), rfl⟩

end Lumio.Protocol.Binary
