import Lumio.Lib.Pieces
import Lumio.Transport.Chunks

/-!
# Both sides of a transfer agree on its chunks

An upload and a download of one blob are run side by side. They keep their counters apart and stand at the same place
after every drain tick.
-/

namespace Lumio.Transport.Wire

open Lumio.Protocol Checked
open Lumio.Protocol.Binary (Crates LawfulUuid WorkspaceBlobHeader blobHeaderLen encodeBinaryFrameOwned decodeBinaryFrame
  downloadDirection image headerOf Accepted)

theorem chunkCount_eq (size : Nat) : chunkCount size = Pieces.count fullChunkBytes size := rfl

theorem fullChunk_pos : 0 < fullChunkBytes := by decide

/-- The frame as the other side of a download would send it: only the byte of the direction is another one. -/
def Emission.asDownload : Emission → Emission
  | .chunk frame => .chunk (frame.set 5 downloadDirection)
  | .blobEnd message => .blobEnd { message with direction := .download }

def Emission.isChunk : Emission → Bool
  | .chunk _ => true
  | .blobEnd _ => false

def Emission.payload : Emission → List UInt8
  | .chunk frame => frame.drop blobHeaderLen
  | .blobEnd _ => []

/-- There is room for a full chunk and for a request. -/
def Tick.Ample (tick : Tick) : Prop := blobHeaderLen + fullChunkBytes ≤ tick.bytes ∧ tick.requestFits = true

instance : DecidablePred Tick.Ample := fun _ => inferInstanceAs (Decidable (_ ∧ _))

def UploadTransfer.left (upload : UploadTransfer) : Nat :=
  match upload.phase with
  | .awaitingBeginResponse | .streaming => chunkCount upload.size - upload.nextChunkIndex + 2
  | .readyForEnd => 1
  | .awaitingEndResponse => 0

structure Sent (blob : List UInt8) (ticks : List Tick) (upload upload' : UploadTransfer) (emissions : List Emission) :
    Prop where
  transfer : upload'.transferId = upload.transferId
  chunks : upload'.nextChunkIndex = upload.nextChunkIndex + emissions.countP Emission.isChunk
  bytes : blob.take upload'.nextOffset = blob.take upload.nextOffset ++ emissions.flatMap Emission.payload
  left : upload'.left ≤ upload.left - ticks.countP fun tick => decide tick.Ample

def startUpload [Crates] (workspaceId : WorkspaceId) (transferId : Binary.TransferId) (blob : List UInt8) : UploadTransfer :=
  { workspaceId, transferId, contentHash := Crates.hash blob, size := blob.length, file := blob, phase := .streaming }

/-- How far the two sides have come: the same chunks, the end that is due, or the end that is announced. -/
inductive Stage : UploadTransfer → DownloadTransfer → Prop where
  | chunks {upload download} : upload.phase = .streaming → download.phase = .receiving → Stage upload download
  | ready {upload download} : upload.phase = .readyForEnd → upload.nextOffset = upload.size →
      download.phase = .receiving → Stage upload download
  | ended {upload download} : upload.phase = .awaitingEndResponse → upload.nextOffset = upload.size →
      download.phase = .readyForEnd → Stage upload download

/-- The two sides of a transfer, each with its own counters, at the same place of a blob. -/
structure InStep [Crates] (blob : List UInt8) (upload : UploadTransfer) (download : DownloadTransfer) : Prop where
  workspace : upload.workspaceId = download.workspaceId
  transfer : upload.transferId = download.transferId
  hash : upload.contentHash = Crates.hash blob ∧ download.contentHash = Crates.hash blob
  size : upload.size = blob.length ∧ download.size = blob.length
  count : download.chunkCount = chunkCount blob.length
  index : upload.nextChunkIndex = download.nextChunkIndex
  offset : upload.nextOffset = download.nextOffset
  place : Pieces.At fullChunkBytes blob.length upload.nextChunkIndex upload.nextOffset
  file : upload.file = blob.drop upload.nextOffset
  hashed : upload.hashed = blob.take upload.nextOffset
  received : download.received = blob.take upload.nextOffset
  stage : Stage upload download

theorem codec_run_ok {α : Type} {step : Binary.Codec α} {a : α} (h : step.run = some (.ok a)) :
    (codec step).run = some (.ok a) := by
  rw [codec, ExceptT.run_mk, h]
  rfl

theorem codec_run_eq_ok {α : Type} {step : Binary.Codec α} {a : α} (h : (codec step).run = some (.ok a)) :
    step.run = some (.ok a) := by
  rw [codec, ExceptT.run_mk] at h
  obtain ⟨result, hresult, hok⟩ := Option.map_eq_some_iff.mp h
  cases result with
  | error error => cases hok
  | ok value =>
    cases hok
    exact hresult

section Agreement

variable [Crates] {blob payload : List UInt8} {upload : UploadTransfer} {download : DownloadTransfer}
  {transferId : Binary.TransferId}

theorem inStep_start (workspaceId : WorkspaceId) (transferId : Binary.TransferId) (blob : List UInt8) :
    InStep blob (startUpload workspaceId transferId blob)
      (.new workspaceId transferId (Crates.hash blob) blob.length) where
  workspace := rfl
  transfer := rfl
  hash := ⟨rfl, rfl⟩
  size := ⟨rfl, rfl⟩
  count := rfl
  index := rfl
  offset := rfl
  place := Pieces.at_start _ _
  file := rfl
  hashed := rfl
  received := rfl
  stage := .chunks rfl rfl

omit [Crates] in
theorem toNat_ofNat64 {n : Nat} (h : n < 2 ^ 64) : (UInt64.ofNat n).toNat = n := UInt64.toNat_ofNat_of_lt' h

/-! ## One chunk -/

/-- What makes a chunk the next one of a download. -/
structure Next (download : DownloadTransfer) (payload : List UInt8) : Prop where
  place : Pieces.At fullChunkBytes download.size download.nextChunkIndex download.nextOffset
  limit : download.size ≤ maxBlobBytes
  count : download.chunkCount = chunkCount download.size
  notEmpty : 0 < payload.length
  withinChunk : payload.length ≤ fullChunkBytes
  fits : download.nextOffset + payload.length ≤ download.size
  full : download.nextOffset + payload.length ≠ download.size → payload.length = fullChunkBytes

def DownloadTransfer.push (download : DownloadTransfer) (payload : List UInt8) : DownloadTransfer :=
  { download with
    nextChunkIndex := download.nextChunkIndex + 1
    nextOffset := download.nextOffset + payload.length
    received := download.received ++ payload }

omit [Crates] in
theorem Next.place_push (h : Next download payload) : Pieces.At fullChunkBytes download.size
    (download.nextChunkIndex + 1) (download.nextOffset + payload.length) :=
  h.place.step h.notEmpty h.withinChunk h.fits h.full

theorem receiveChunk_next (h : Next download payload) (hphase : download.phase = .receiving) :
    receiveChunk download (headerOf .download (decide (download.nextOffset + payload.length = download.size))
      download.transferId (UInt64.ofNat download.nextChunkIndex) (UInt64.ofNat download.nextOffset) payload) payload =
        .ok (download.push payload) := by
  have hplace := h.place_push
  have hlimit : maxBlobBytes < 2 ^ 64 := by decide
  have hsize := h.limit
  have hfits := h.fits
  have hcount : chunkCount download.size ≤ download.size := Pieces.count_le _ _
  have hindex : download.nextChunkIndex + 1 ≤ chunkCount download.size := hplace.index_le fullChunk_pos
  have hlast : download.nextOffset + payload.length = download.size →
      download.nextChunkIndex + 1 = chunkCount download.size := by
    intro hend
    rw [hend] at hplace
    exact hplace.index_eq
  have hwithin := h.withinChunk
  have hpayload : (UInt32.ofNat payload.length).toNat = payload.length :=
    UInt32.toNat_ofNat_of_lt (by unfold UInt32.size; unfold fullChunkBytes at hwithin; omega)
  have hsequence : validateSequence (headerOf .download
      (decide (download.nextOffset + payload.length = download.size)) download.transferId
      (UInt64.ofNat download.nextChunkIndex) (UInt64.ofNat download.nextOffset) payload) download.nextChunkIndex
      download.nextOffset (decide (download.nextOffset + payload.length = download.size)) = .ok () := by
    have hnonzero : UInt32.ofNat payload.length ≠ 0 := by
      intro hzero
      rw [hzero] at hpayload
      exact absurd hpayload.symm h.notEmpty.ne'
    have hfull : ¬((!decide (download.nextOffset + payload.length = download.size)) = true ∧
        UInt32.ofNat payload.length ≠ Binary.blobChunkBytes) := by
      rintro ⟨hnot, hne⟩
      rw [h.full (by simpa using hnot)] at hne
      exact hne rfl
    have hle : ¬UInt32.ofNat payload.length > Binary.blobChunkBytes := by
      rw [gt_iff_lt, UInt32.lt_iff_toNat_lt, hpayload]
      exact Nat.not_lt.mpr hwithin
    unfold validateSequence headerOf
    rw [if_neg hnonzero, if_neg (not_not_intro (toNat_ofNat64 (by omega))),
      if_neg (not_not_intro (toNat_ofNat64 (by omega))), if_neg (not_not_intro rfl), if_neg hfull, if_neg hle]
  have hcounted : ¬(download.chunkCount < download.nextChunkIndex + 1 ∨
      (decide (download.nextOffset + payload.length = download.size) = true ∧
        download.nextChunkIndex + 1 ≠ download.chunkCount)) := by
    rw [h.count]
    rintro (hlt | ⟨hend, hne⟩)
    · omega
    · exact hne (hlast (of_decide_eq_true hend))
  generalize hheader : headerOf .download (decide (download.nextOffset + payload.length = download.size))
    download.transferId (UInt64.ofNat download.nextChunkIndex) (UInt64.ofNat download.nextOffset) payload = header
    at hsequence
  have hdirection : header.direction = .download := hheader ▸ rfl
  have htransfer : header.transferId = download.transferId := hheader ▸ rfl
  unfold receiveChunk
  rw [if_neg (not_not_intro hdirection), if_neg (not_not_intro htransfer), if_neg (not_not_intro hphase)]
  simp only [hsequence]
  rw [if_neg (by omega), if_neg (by omega), if_neg (by omega), if_neg hcounted]
  rfl

theorem handleBinaryFrame_next [LawfulUuid] {payload : List UInt8} (h : Next download payload)
    (hphase : download.phase = .receiving) (hid : Binary.Uuid.isNil download.transferId.asUuid = false) :
    (handleBinaryFrame download (image .download (decide (download.nextOffset + payload.length = download.size))
      download.transferId (UInt64.ofNat download.nextChunkIndex) (UInt64.ofNat download.nextOffset) payload)).run =
        some (.ok (download.push payload)) := by
  have haccepted : Accepted download.transferId payload := ⟨hid, h.notEmpty, h.withinChunk⟩
  unfold handleBinaryFrame
  rw [run_bind_of_ok (codec_run_ok (Binary.decodeBinaryFrame_image haccepted rfl)), ExceptT.run_mk,
    receiveChunk_next h hphase]

/-! ## One drain tick -/

theorem checkContent_ok (hfile : upload.file = []) (hhash : Crates.hash upload.hashed = upload.contentHash) :
    (checkContent upload).run = some (.ok ()) := by
  rw [checkContent, if_neg (not_not_intro hfile), if_neg (not_not_intro hhash)]
  rfl

def UploadTransfer.push (upload : UploadTransfer) (payload : List UInt8) : UploadTransfer :=
  { upload with
    file := upload.file.drop payload.length
    hashed := upload.hashed ++ payload
    nextOffset := upload.nextOffset + payload.length
    nextChunkIndex := upload.nextChunkIndex + 1
    phase := if upload.nextOffset + payload.length = upload.size then .readyForEnd else .streaming }

def UploadTransfer.nextPayload (upload : UploadTransfer) : List UInt8 :=
  upload.file.take (min (upload.size - upload.nextOffset) fullChunkBytes)

theorem InStep.length_file (h : InStep blob upload download) : upload.file.length = upload.size - upload.nextOffset := by
  rw [h.file, List.length_drop, h.size.1]

theorem InStep.length_payload (h : InStep blob upload download) :
    upload.nextPayload.length = min (upload.size - upload.nextOffset) fullChunkBytes := by
  rw [UploadTransfer.nextPayload, List.length_take, h.length_file]
  omega

theorem InStep.next (h : InStep blob upload download) (hsize : blob.length ≤ maxBlobBytes)
    (hlt : upload.nextOffset < upload.size) : Next download upload.nextPayload := by
  have hlength := h.length_payload
  have hfull := fullChunk_pos
  have hupload := h.size.1
  have hdownload := h.size.2
  have hoffset := h.offset
  constructor
  case place => rw [hdownload, ← h.index, ← hoffset]; exact h.place
  case limit => omega
  case count => rw [h.count, hdownload]
  case notEmpty => omega
  case withinChunk => omega
  case fits => omega
  case full => omega

theorem InStep.take_push (h : InStep blob upload download) :
    blob.take upload.nextOffset ++ upload.nextPayload =
      blob.take (upload.nextOffset + upload.nextPayload.length) := by
  have hlength : upload.nextPayload.length ≤ min (upload.size - upload.nextOffset) fullChunkBytes := by
    rw [h.length_payload]
  have htake : (blob.drop upload.nextOffset).take upload.nextPayload.length = upload.nextPayload := by
    rw [UploadTransfer.nextPayload, ← h.file, List.length_take, ← List.take_take, List.take_length]
  rw [List.take_add, htake]

theorem InStep.drop_push (h : InStep blob upload download) :
    upload.file.drop upload.nextPayload.length = blob.drop (upload.nextOffset + upload.nextPayload.length) := by
  rw [h.file, List.drop_drop]

theorem encodeBinaryFrameOwned_next (h : Next download payload)
    (hid : Binary.Uuid.isNil transferId.asUuid = false) (finalChunk : Bool) (chunkIndex offset : UInt64) :
    (encodeBinaryFrameOwned .upload finalChunk transferId chunkIndex offset payload).run =
      some (.ok (image .upload finalChunk transferId chunkIndex offset payload)) :=
  Binary.encodeBinaryFrame_run ⟨hid, h.notEmpty, h.withinChunk⟩

theorem advanceStreaming_chunk (h : InStep blob upload download) (hsize : blob.length ≤ maxBlobBytes)
    (hid : Binary.Uuid.isNil upload.transferId.asUuid = false) (hlt : upload.nextOffset < upload.size) {bytes : Nat}
    (hroom : blobHeaderLen + upload.nextPayload.length ≤ bytes) :
    (advanceStreaming upload bytes).run = some (.ok (upload.push upload.nextPayload,
      some (.chunk (image .upload (decide (upload.nextOffset + upload.nextPayload.length = upload.size)) upload.transferId
        (UInt64.ofNat upload.nextChunkIndex) (UInt64.ofNat upload.nextOffset) upload.nextPayload)))) := by
  have hlength := h.length_payload
  have hfile := h.length_file
  have htake := h.take_push
  have hdrop := h.drop_push
  have hencode := encodeBinaryFrameOwned_next (h.next hsize hlt) hid
  have hpayload : upload.file.take upload.nextPayload.length = upload.nextPayload := by
    rw [hlength]
    rfl
  have hcontent : upload.nextOffset + upload.nextPayload.length = upload.size →
      (checkContent { upload with
        file := upload.file.drop upload.nextPayload.length
        hashed := upload.hashed ++ upload.nextPayload }).run = some (.ok ()) := by
    intro hend
    rw [hend, h.size.1] at htake hdrop
    apply checkContent_ok
    · rw [hdrop, List.drop_length]
    · rw [h.hashed, htake, List.take_length, h.hash.1]
  unfold advanceStreaming
  rw [if_neg hlt.ne]
  simp only [← hlength]
  rw [if_neg (by omega), if_neg (by omega), hpayload]
  by_cases hend : upload.nextOffset + upload.nextPayload.length = upload.size
  · simp only [decide_eq_true hend, if_true]
    rw [run_bind_of_ok (hcontent hend), run_bind_of_ok (codec_run_ok (hencode _ _ _)), if_neg (by
      rw [Binary.length_image]
      omega), UploadTransfer.push, if_pos hend]
    rfl
  · simp only [decide_eq_false hend, Bool.false_eq_true, if_false]
    rw [run_bind_of_ok (codec_run_ok (hencode _ _ _)), if_neg (by
      rw [Binary.length_image]
      omega), UploadTransfer.push, if_neg hend]
    rfl

theorem InStep.push (h : InStep blob upload download) (hsize : blob.length ≤ maxBlobBytes)
    (hlt : upload.nextOffset < upload.size) (hphase : download.phase = .receiving) :
    InStep blob (upload.push upload.nextPayload) (download.push upload.nextPayload) := by
  have hplace := (h.next hsize hlt).place_push
  rw [← h.index, ← h.offset, h.size.2] at hplace
  constructor
  case workspace => exact h.workspace
  case transfer => exact h.transfer
  case hash => exact h.hash
  case size => exact h.size
  case count => exact h.count
  case index => exact congrArg (· + 1) h.index
  case offset => exact congrArg (· + upload.nextPayload.length) h.offset
  case place => exact hplace
  case file => exact h.drop_push
  case hashed => rw [UploadTransfer.push, h.hashed]; exact h.take_push
  case received => rw [DownloadTransfer.push, h.received]; exact h.take_push
  case stage =>
    by_cases hend : upload.nextOffset + upload.nextPayload.length = upload.size
    · exact .ready (if_pos hend) hend hphase
    · exact .chunks (if_neg hend) hphase

theorem receiveAll_append {download download' : DownloadTransfer} {earlier later : List Emission}
    (h : (receiveAll download earlier).run = some (.ok download')) :
    receiveAll download (earlier ++ later) = receiveAll download' later := by
  have hearlier : earlier.foldlM receive download = pure download' := ExceptT.ext (by rw [ExceptT.run_pure]; exact h)
  rw [receiveAll, List.foldlM_append, hearlier, pure_bind]
  rfl

theorem receiveAll_one {download download' : DownloadTransfer} {emission : Emission}
    (h : (receive download emission).run = some (.ok download')) :
    (receiveAll download [emission]).run = some (.ok download') := by
  rw [receiveAll, List.foldlM_cons, run_bind_of_ok h]
  rfl

theorem handleEnd_due (h : InStep blob upload download) (hsize : blob.length ≤ maxBlobBytes)
    (hend : upload.nextOffset = upload.size) (hphase : download.phase = .receiving) :
    handleEnd download ⟨upload.workspaceId, upload.transferId, .download, upload.contentHash, upload.size,
      chunkCount upload.size⟩ = .ok { download with phase := .readyForEnd } := by
  have hplace := h.place
  have hupload := h.size.1
  have hdownload := h.size.2
  rw [hend, hupload] at hplace
  have hindex : download.nextChunkIndex = chunkCount upload.size := by
    rw [← h.index, hplace.index_eq, hupload, chunkCount_eq]
  have hvalid : BlobEnd.validate ⟨upload.workspaceId, upload.transferId, .download, upload.contentHash, upload.size,
      chunkCount upload.size⟩ = .ok () := by
    simp only [BlobEnd.validate, validateBlobSize]
    rw [if_neg (by omega)]
    exact if_neg (not_not_intro rfl)
  unfold handleEnd
  rw [hvalid]
  simp only
  rw [if_neg]
  rintro (hd | ht | hp | hw | hc | hs | hn | ho | hi)
  · exact hd rfl
  · exact ht h.transfer
  · exact hp hphase
  · exact hw h.workspace.symm
  · exact hc (h.hash.2.trans h.hash.1.symm)
  · exact hs (hdownload.trans hupload.symm)
  · exact hn (by rw [h.count, hupload])
  · exact ho (by rw [← h.offset, hend])
  · exact hi hindex

omit [Crates] in
theorem Sent.none {tick : Tick} {phase : UploadPhase}
    (h : ({ upload with phase } : UploadTransfer).left ≤ upload.left - [tick].countP fun tick => decide tick.Ample) :
    Sent blob [tick] upload { upload with phase } [] where
  transfer := rfl
  chunks := rfl
  bytes := (List.append_nil _).symm
  left := h

omit [Crates] in
theorem Sent.trans {upload₁ upload₂ upload₃ : UploadTransfer} {ticks₁ ticks₂ : List Tick}
    {emissions₁ emissions₂ : List Emission} (h₁ : Sent blob ticks₁ upload₁ upload₂ emissions₁)
    (h₂ : Sent blob ticks₂ upload₂ upload₃ emissions₂) :
    Sent blob (ticks₁ ++ ticks₂) upload₁ upload₃ (emissions₁ ++ emissions₂) := by
  constructor
  case transfer => exact h₂.transfer.trans h₁.transfer
  case chunks => rw [h₂.chunks, h₁.chunks, List.countP_append, Nat.add_assoc]
  case bytes => rw [h₂.bytes, h₁.bytes, List.flatMap_append, List.append_assoc]
  case left =>
    have hleft₁ := h₁.left
    have hleft₂ := h₂.left
    rw [List.countP_append]
    omega

theorem payload_image (direction : WorkspaceBlobDirection) (finalChunk : Bool) (chunkIndex offset : UInt64) :
    (Emission.chunk (image direction finalChunk transferId chunkIndex offset payload)).payload = payload := by
  simp only [Emission.payload, image, ← List.append_assoc]
  exact List.drop_left' (by simp [Binary.blobMagic, blobHeaderLen])

theorem InStep.sent_chunk (h : InStep blob upload download) (hsize : blob.length ≤ maxBlobBytes)
    (hlt : upload.nextOffset < upload.size) (hup : upload.phase = .streaming) (tick : Tick) (finalChunk : Bool)
    (chunkIndex offset : UInt64) : Sent blob [tick] upload (upload.push upload.nextPayload)
      [.chunk (image .upload finalChunk transferId chunkIndex offset upload.nextPayload)] := by
  constructor
  case transfer => rfl
  case chunks => rfl
  case bytes =>
    rw [List.flatMap_singleton, payload_image]
    exact h.take_push.symm
  case left =>
    have hindex : upload.nextChunkIndex + 1 ≤ chunkCount upload.size := by
      have hplace := (h.next hsize hlt).place_push.index_le fullChunk_pos
      rw [← h.index, h.size.2, ← h.size.1] at hplace
      exact hplace
    have hone := List.countP_le_length (p := fun tick : Tick => decide tick.Ample) (l := [tick])
    have hleft : upload.left = chunkCount upload.size - upload.nextChunkIndex + 2 := by
      simp only [UploadTransfer.left, hup]
    have hpush : (upload.push upload.nextPayload).left ≤ chunkCount upload.size - (upload.nextChunkIndex + 1) + 2 := by
      simp only [UploadTransfer.left, UploadTransfer.push]
      split <;> omega
    simp only [List.length_singleton] at hone
    omega

theorem inStep_tick [LawfulUuid] (h : InStep blob upload download) (hsize : blob.length ≤ maxBlobBytes)
    (hid : Binary.Uuid.isNil upload.transferId.asUuid = false) (tick : Tick) :
    ∃ upload' emission download', (advanceUpload upload tick).run = some (.ok (upload', emission)) ∧
      (receiveAll download (emission.toList.map Emission.asDownload)).run = some (.ok download') ∧
        InStep blob upload' download' ∧ Sent blob [tick] upload upload' emission.toList := by
  have hlength := h.length_payload
  have hfile := h.length_file
  have hone : ([tick].countP fun tick => decide tick.Ample) ≤ 1 := List.countP_le_length
  cases h.stage with
  | chunks hup hdown =>
    have hadvance : advanceUpload upload tick = advanceStreaming upload tick.bytes := by
      simp only [advanceUpload, hup]
    have hleft : upload.left = chunkCount upload.size - upload.nextChunkIndex + 2 := by
      simp only [UploadTransfer.left, hup]
    rw [hadvance]
    by_cases hend : upload.nextOffset = upload.size
    · -- the whole blob is sent, and its hash is the announced one
      have hcontent : (checkContent upload).run = some (.ok ()) := by
        apply checkContent_ok
        · rw [h.file, hend, h.size.1, List.drop_length]
        · rw [h.hashed, hend, h.size.1, List.take_length, h.hash.1]
      refine ⟨{ upload with phase := .readyForEnd }, none, download, ?_, rfl, ?_, .none ?_⟩
      · rw [advanceStreaming, if_pos hend, run_bind_of_ok hcontent]
        rfl
      · exact { h with stage := .ready rfl hend hdown }
      · simp only [UploadTransfer.left, hup]
        omega
    · have hlt : upload.nextOffset < upload.size := by
        rcases h.place with ⟨hlt, -⟩ | ⟨heq, -⟩
        · rw [h.size.1]
          exact hlt
        · exact absurd (heq.trans h.size.1.symm) hend
      by_cases hroom : tick.bytes < blobHeaderLen + upload.nextPayload.length
      · have hscant : ¬tick.Ample := by
          rintro ⟨hbytes, -⟩
          omega
        refine ⟨upload, none, download, ?_, rfl, h, .none ?_⟩
        · rw [advanceStreaming, if_neg hend, ← hlength]
          simp only
          rw [if_pos hroom]
          rfl
        · simp [hscant]
      · have haccepted := handleBinaryFrame_next (h.next hsize hlt) hdown (h.transfer ▸ hid)
        rw [← h.offset, ← h.index, ← h.transfer, h.size.2, ← h.size.1] at haccepted
        refine ⟨_, _, _, advanceStreaming_chunk h hsize hid hlt (Nat.not_lt.mp hroom), receiveAll_one haccepted,
          h.push hsize hlt hdown, h.sent_chunk hsize hlt hup tick _ _ _⟩
  | ready hup hend hdown =>
    have hadvance : advanceUpload upload tick = pure (advanceEnd upload tick.requestFits) := by
      simp only [advanceUpload, hup]
    rw [hadvance]
    cases hfits : tick.requestFits with
    | false =>
      have hscant : ¬tick.Ample := by
        rintro ⟨-, hample⟩
        rw [hfits] at hample
        cases hample
      exact ⟨upload, none, download, rfl, rfl, h, .none (by simp [hscant])⟩
    | true =>
      refine ⟨_, _, { download with phase := .readyForEnd }, rfl, receiveAll_one ?_,
        { h with stage := .ended rfl hend rfl }, ⟨rfl, rfl, (List.append_nil _).symm, Nat.zero_le _⟩⟩
      exact congrArg some (handleEnd_due h hsize hend hdown)
  | ended hup hend hdown =>
    have hadvance : advanceUpload upload tick = pure (upload, none) := by
      simp only [advanceUpload, hup]
    have hleft : upload.left = 0 := by simp only [UploadTransfer.left, hup]
    rw [hadvance]
    exact ⟨upload, none, download, rfl, rfl, h, .none (by
      show upload.left ≤ _
      omega)⟩

theorem runUpload_cons {tick : Tick} {ticks : List Tick} {upload₁ upload₂ : UploadTransfer} {emission : Option Emission}
    {emissions : List Emission} (hadvance : (advanceUpload upload tick).run = some (.ok (upload₁, emission)))
    (hrun : (runUpload upload₁ ticks).run = some (.ok (upload₂, emissions))) :
    (runUpload upload (tick :: ticks)).run = some (.ok (upload₂, emission.toList ++ emissions)) := by
  rw [runUpload, run_bind_of_ok hadvance]
  simp only
  rw [run_bind_of_ok hrun]
  rfl

theorem inStep_run [LawfulUuid] (hsize : blob.length ≤ maxBlobBytes) (ticks : List Tick)
    (h : InStep blob upload download) (hid : Binary.Uuid.isNil upload.transferId.asUuid = false) :
    ∃ upload' emissions download', (runUpload upload ticks).run = some (.ok (upload', emissions)) ∧
      (receiveAll download (emissions.map Emission.asDownload)).run = some (.ok download') ∧
        InStep blob upload' download' ∧ Sent blob ticks upload upload' emissions := by
  induction ticks generalizing upload download with
  | nil => exact ⟨upload, [], download, rfl, rfl, h, ⟨rfl, rfl, (List.append_nil _).symm, le_rfl⟩⟩
  | cons tick ticks ih =>
    obtain ⟨upload₁, emission, download₁, hadvance, hreceive, hstep, hsent⟩ := inStep_tick h hsize hid tick
    obtain ⟨upload₂, emissions, download₂, hrun, hreceives, hsteps, hsents⟩ := ih hstep (hsent.transfer ▸ hid)
    refine ⟨upload₂, emission.toList ++ emissions, download₂, runUpload_cons hadvance hrun, ?_, hsteps,
      hsent.trans hsents⟩
    · rw [List.map_append, receiveAll_append hreceive]
      exact hreceives

/-! ## What a download accepts -/

omit [Crates] in
theorem refused_ne_ok {α : Type} {a : α} : (refused : Except TransportError α) ≠ .ok a := by
  intro h
  cases h

omit [Crates] in
theorem validateSequence_full {header : WorkspaceBlobHeader} {expectedIndex expectedOffset : Nat} {isLast : Bool}
    (h : validateSequence header expectedIndex expectedOffset isLast = .ok ()) (hlast : isLast = false) :
    header.payloadLen = Binary.blobChunkBytes := by
  unfold validateSequence at h
  -- the payload length, the index, the offset and the flag have their own checks
  split at h
  · cases h
  split at h
  · cases h
  split at h
  · cases h
  split at h
  · cases h
  split at h
  · cases h
  · rename_i hfull
    by_contra hne
    exact hfull ⟨by rw [hlast]; rfl, hne⟩

variable {download' : DownloadTransfer}

omit [Crates] in
theorem receiveChunk_inv {header : WorkspaceBlobHeader} (h : receiveChunk download header payload = .ok download') :
    download.nextOffset + payload.length ≤ download.size ∧
      (download.nextOffset + payload.length ≠ download.size → header.payloadLen = Binary.blobChunkBytes) ∧
        download' = download.push payload := by
  unfold receiveChunk at h
  -- the direction, the transfer, the phase and the overflow of the offset
  split at h
  · exact absurd h refused_ne_ok
  split at h
  · exact absurd h refused_ne_ok
  split at h
  · exact absurd h refused_ne_ok
  simp only at h
  split at h
  · exact absurd h refused_ne_ok
  split at h
  · exact absurd h refused_ne_ok
  rename_i hsize
  split at h
  · exact absurd h refused_ne_ok
  rename_i hsequence
  split at h
  · exact absurd h refused_ne_ok
  split at h
  · exact absurd h refused_ne_ok
  cases h
  exact ⟨Nat.not_lt.mp hsize, fun hne => validateSequence_full hsequence (decide_eq_false hne), rfl⟩

theorem handleBinaryFrame_inv [LawfulUuid] {frame : List UInt8}
    (h : (handleBinaryFrame download frame).run = some (.ok download')) :
    ∃ payload, (Emission.chunk frame).payload = payload ∧ 0 < payload.length ∧ payload.length ≤ fullChunkBytes ∧
      download.nextOffset + payload.length ≤ download.size ∧
        (download.nextOffset + payload.length ≠ download.size → payload.length = fullChunkBytes) ∧
          download' = download.push payload := by
  obtain ⟨⟨header, payload⟩, hdecode, hreceive⟩ := run_bind_eq_ok.mp h
  have hdecode := codec_run_eq_ok hdecode
  obtain ⟨haccepted, hframe⟩ := Binary.decodeBinaryFrame_inv hdecode
  rw [Binary.decodeBinaryFrame_image haccepted hframe] at hdecode
  have hlen : header.payloadLen = UInt32.ofNat payload.length := by
    have hheader := (Prod.mk.inj (Except.ok.inj (Option.some.inj hdecode))).1
    exact (congrArg WorkspaceBlobHeader.payloadLen hheader).symm
  obtain ⟨hfits, hfull, hpush⟩ := receiveChunk_inv (Option.some.inj hreceive)
  refine ⟨payload, ?_, haccepted.notEmpty, haccepted.withinLimit, hfits, ?_, hpush⟩
  · rw [hframe, payload_image]
  · intro hne
    have hcast : (UInt32.ofNat payload.length).toNat = payload.length := by
      have hlimit := haccepted.withinLimit
      exact UInt32.toNat_ofNat_of_lt (by unfold UInt32.size; omega)
    rw [← hcast, ← hlen, hfull hne]
    rfl

theorem handleBinaryFrame_direction {frame : List UInt8} {header : WorkspaceBlobHeader}
    (hdecode : (decodeBinaryFrame frame).run = some (.ok (header, payload))) (h : header.direction ≠ .download) :
    (handleBinaryFrame download frame).run = some (.error ⟨.protocol, false⟩) := by
  rw [handleBinaryFrame, run_bind_of_ok (codec_run_ok hdecode), ExceptT.run_mk, receiveChunk, if_pos h]
  rfl

/-- The bytes of the chunks that a download takes, none of them short before the last. -/
structure Taken (download download' : DownloadTransfer) (payloads : List (List UInt8)) : Prop where
  index : download'.nextChunkIndex = download.nextChunkIndex + payloads.length
  offset : download'.nextOffset = download.nextOffset + (payloads.map List.length).sum
  received : download'.received = download.received ++ payloads.flatten
  bounds : ∀ payload ∈ payloads, 0 < payload.length ∧ payload.length ≤ fullChunkBytes
  full : ∀ payload ∈ payloads.dropLast, payload.length = fullChunkBytes
  fits : payloads ≠ [] → download'.nextOffset ≤ download.size
  same : download' = { download with
    nextChunkIndex := download'.nextChunkIndex
    nextOffset := download'.nextOffset
    received := download'.received }

omit [Crates] in
theorem Taken.pos {payloads : List (List UInt8)} (h : Taken download download' payloads) (hne : payloads ≠ []) :
    download.nextOffset < download.size := by
  have hfits := h.fits hne
  have hoffset := h.offset
  obtain ⟨first, rest, rfl⟩ := List.exists_cons_of_ne_nil hne
  have hpos := (h.bounds first List.mem_cons_self).1
  simp only [List.map_cons, List.sum_cons] at hoffset
  omega

theorem receiveAll_inv [LawfulUuid] (frames : List (List UInt8))
    (h : (receiveAll download (frames.map Emission.chunk)).run = some (.ok download')) :
    Taken download download' (frames.map fun frame => (Emission.chunk frame).payload) := by
  induction frames generalizing download with
  | nil =>
    cases h
    exact ⟨rfl, rfl, (List.append_nil _).symm, nofun, nofun, nofun, rfl⟩
  | cons frame frames ih =>
    rw [List.map_cons, receiveAll, List.foldlM_cons] at h
    obtain ⟨next, hframe, hframes⟩ := run_bind_eq_ok.mp h
    have htaken := ih hframes
    obtain ⟨payload, hpayload, hpos, hwithin, hfits, hfull, rfl⟩ := handleBinaryFrame_inv hframe
    rw [List.map_cons, hpayload]
    constructor
    case index =>
      rw [htaken.index, List.length_cons, DownloadTransfer.push, Nat.add_assoc, Nat.add_comm 1]
    case offset =>
      rw [htaken.offset, List.map_cons, List.sum_cons, DownloadTransfer.push, Nat.add_assoc]
    case received => rw [htaken.received, List.flatten_cons, DownloadTransfer.push, List.append_assoc]
    case bounds =>
      intro other hother
      rcases List.mem_cons.mp hother with rfl | hother
      · exact ⟨hpos, hwithin⟩
      · exact htaken.bounds other hother
    case full =>
      intro other hother
      by_cases hlast : (frames.map fun frame => (Emission.chunk frame).payload) = []
      · rw [hlast] at hother
        cases hother
      · rw [List.dropLast_cons_of_ne_nil hlast] at hother
        rcases List.mem_cons.mp hother with rfl | hother
        · -- after a short chunk there is no room for the next one
          have hroom := htaken.pos hlast
          exact hfull (Nat.ne_of_lt hroom)
        · exact htaken.full other hother
    case fits =>
      intro _
      by_cases hlast : (frames.map fun frame => (Emission.chunk frame).payload) = []
      · have hoffset := htaken.offset
        rw [hlast] at hoffset
        rw [hoffset]
        exact hfits
      · exact htaken.fits hlast
    case same => exact htaken.same

omit [Crates] in
theorem handleEnd_inv {end_ : BlobEnd} (h : handleEnd download end_ = .ok download') :
    download.nextOffset = download.size ∧ download.nextChunkIndex = download.chunkCount ∧
      download'.received = download.received := by
  unfold handleEnd at h
  split at h
  · exact absurd h refused_ne_ok
  split at h
  · exact absurd h refused_ne_ok
  · rename_i hsame
    cases h
    simp only [not_or, not_not] at hsame
    obtain ⟨-, -, -, -, -, hsize, hcount, hoffset, hindex⟩ := hsame
    exact ⟨hoffset.trans hsize.symm, hindex.trans hcount.symm, rfl⟩

end Agreement

/-- Whatever each drain tick has room for, the frames of an upload are the chunks of its blob in order, and are accepted
one after the other once their byte of the direction says that they are downloaded. Every sequence of frames that is
accepted up to an accepted end has the number of chunks and the bytes that were announced, and no short chunk before the
last. -/
theorem transfer_agrees [Crates] [LawfulUuid] (workspaceId : WorkspaceId) (transferId : Binary.TransferId) :
    (∀ blob : List UInt8, blob.length ≤ maxBlobBytes → Binary.Uuid.isNil transferId.asUuid = false →
      ∀ ticks, ∃ upload emissions download,
        (runUpload (startUpload workspaceId transferId blob) ticks).run = some (.ok (upload, emissions)) ∧
        (receiveAll (.new workspaceId transferId (Crates.hash blob) blob.length)
          (emissions.map Emission.asDownload)).run = some (.ok download) ∧
        emissions.flatMap Emission.payload = blob.take upload.nextOffset ∧
        download.received = emissions.flatMap Emission.payload ∧
        (upload.phase ≠ .streaming → download.received = blob ∧
          emissions.countP Emission.isChunk = chunkCount blob.length) ∧
        (chunkCount blob.length + 2 ≤ (ticks.countP fun tick => decide tick.Ample) →
          upload.phase = .awaitingEndResponse ∧ download.phase = .readyForEnd)) ∧
    ∀ contentHash size (frames : List (List UInt8)) end_ download,
      (receiveAll (.new workspaceId transferId contentHash size)
        (frames.map Emission.chunk ++ [Emission.blobEnd end_])).run = some (.ok download) →
      frames.length = chunkCount size ∧
        (∀ frame ∈ frames.dropLast, (Emission.chunk frame).payload.length = fullChunkBytes) ∧
        (∀ frame ∈ frames, 0 < (Emission.chunk frame).payload.length ∧
          (Emission.chunk frame).payload.length ≤ fullChunkBytes) ∧
        download.received = frames.flatMap (fun frame => (Emission.chunk frame).payload) ∧
        download.received.length = size := by
  constructor
  · intro blob hsize hid ticks
    obtain ⟨upload, emissions, download, hrun, hreceive, hstep, hsent⟩ :=
      inStep_run hsize ticks (inStep_start workspaceId transferId blob) hid
    have hbytes : emissions.flatMap Emission.payload = blob.take upload.nextOffset := hsent.bytes.symm
    have hchunks : upload.nextChunkIndex = emissions.countP Emission.isChunk :=
      hsent.chunks.trans (Nat.zero_add _)
    refine ⟨upload, emissions, download, hrun, hreceive, hbytes, hstep.received.trans hbytes.symm, ?_, ?_⟩
    · intro hphase
      have hend : upload.nextOffset = blob.length := by
        cases hstep.stage with
        | chunks hup hdown => exact absurd hup hphase
        | ready hup hend hdown => exact hend.trans hstep.size.1
        | ended hup hend hdown => exact hend.trans hstep.size.1
      have hplace := hstep.place
      rw [hend] at hplace
      refine ⟨?_, ?_⟩
      · rw [hstep.received, hend, List.take_length]
      · rw [← hchunks, hplace.index_eq, chunkCount_eq]
    · intro hample
      have hleft : upload.left = 0 := by
        have hleft := hsent.left
        have hstart : (startUpload workspaceId transferId blob).left = chunkCount blob.length + 2 := rfl
        omega
      cases hstep.stage with
      | chunks hup hdown =>
        simp only [UploadTransfer.left, hup] at hleft
        omega
      | ready hup hend hdown =>
        simp only [UploadTransfer.left, hup] at hleft
        omega
      | ended hup hend hdown => exact ⟨hup, hdown⟩
  · intro contentHash size frames end_ download h
    rw [receiveAll, List.foldlM_append] at h
    obtain ⟨last, hframes, hend⟩ := run_bind_eq_ok.mp h
    have htaken := receiveAll_inv frames hframes
    rw [List.foldlM_cons] at hend
    obtain ⟨final, hend, hfinal⟩ := run_bind_eq_ok.mp hend
    cases hfinal
    obtain ⟨hoffset, hindex, hreceived⟩ := handleEnd_inv (Option.some.inj hend)
    have hsame := htaken.same
    have hsize : last.size = size := by rw [hsame]; rfl
    have hcount : last.chunkCount = chunkCount size := by rw [hsame]; rfl
    have hlast : last.received = frames.flatMap fun frame => (Emission.chunk frame).payload := by
      rw [htaken.received, ← List.flatMap_def]
      rfl
    refine ⟨?_, ?_, ?_, hreceived.trans hlast, ?_⟩
    · have hframes := htaken.index
      rw [hindex, hcount, List.length_map] at hframes
      rw [hframes]
      exact (Nat.zero_add _).symm
    · intro frame hframe
      apply htaken.full
      rw [← List.map_dropLast]
      exact List.mem_map_of_mem hframe
    · intro frame hframe
      exact htaken.bounds _ (List.mem_map_of_mem hframe)
    · have hbytes := htaken.offset
      rw [hreceived, htaken.received, ← hsize, ← hoffset, hbytes, List.length_append, List.length_flatten]
      rfl

/-! ## A blob of one zero byte -/

namespace Sample

open Binary (sampleCrates sampleCrates_lawful sampleTransferId)

def blobWorkspace : WorkspaceId := 7

abbrev zeroDownload : DownloadTransfer :=
  .new blobWorkspace sampleTransferId (@Crates.hash sampleCrates [0]) 1

abbrev zeroFrame (direction : WorkspaceBlobDirection) : List UInt8 :=
  @image sampleCrates direction true sampleTransferId 0 0 [0]

abbrev zeroEnd : BlobEnd :=
  ⟨blobWorkspace, sampleTransferId, .download, @Crates.hash sampleCrates [0], 1, 1⟩

def ampleTick : Tick := ⟨2097152, true⟩

theorem zero_next : Next zeroDownload [0] where
  place := Pieces.at_start _ _
  limit := by decide
  count := rfl
  notEmpty := by decide
  withinChunk := by decide
  fits := by decide
  full := fun hne => absurd rfl hne

theorem transfer_of_zero :
    (∃ upload emissions download,
      (@runUpload sampleCrates (@startUpload sampleCrates blobWorkspace sampleTransferId [0])
        [ampleTick, ⟨64, false⟩, ampleTick, ampleTick]).run = some (.ok (upload, emissions)) ∧
      (@receiveAll sampleCrates zeroDownload (emissions.map Emission.asDownload)).run = some (.ok download) ∧
      download.received = [0] ∧ emissions.countP Emission.isChunk = 1 ∧ download.phase = .readyForEnd) ∧
    ∃ download, (@receiveAll sampleCrates zeroDownload ([zeroFrame .download].map Emission.chunk ++ [Emission.blobEnd zeroEnd])).run =
      some (.ok download) ∧ [zeroFrame .download].length = chunkCount 1 ∧ download.received.length = 1 := by
  constructor
  · obtain ⟨upload, emissions, download, hrun, hreceive, -, -, hphase, hample⟩ :=
      (@transfer_agrees sampleCrates sampleCrates_lawful blobWorkspace sampleTransferId).1 [0] (by decide) (by decide)
        [ampleTick, ⟨64, false⟩, ampleTick, ampleTick]
    obtain ⟨hended, hready⟩ := hample (by decide)
    obtain ⟨hreceived, hchunks⟩ := hphase (by rw [hended]; decide)
    exact ⟨upload, emissions, download, hrun, hreceive, hreceived, hchunks, hready⟩
  · have hchunk : (@receive sampleCrates zeroDownload (.chunk (zeroFrame .download))).run =
        some (.ok (zeroDownload.push [0])) :=
      @handleBinaryFrame_next sampleCrates zeroDownload sampleCrates_lawful [0] zero_next rfl (by decide)
    have hend : handleEnd (zeroDownload.push [0]) zeroEnd = .ok { zeroDownload.push [0] with phase := .readyForEnd } := by
      unfold handleEnd
      rw [show zeroEnd.validate = .ok () from rfl]
      exact if_neg (by decide +kernel)
    have hrun : (@receiveAll sampleCrates zeroDownload
        ([zeroFrame .download].map Emission.chunk ++ [Emission.blobEnd zeroEnd])).run =
          some (.ok { zeroDownload.push [0] with phase := .readyForEnd }) := by
      rw [List.map_singleton, @receiveAll_append sampleCrates _ (zeroDownload.push [0]) _ _ (@receiveAll_one sampleCrates _ _ _ hchunk)]
      exact @receiveAll_one sampleCrates _ _ _ (congrArg some hend)
    obtain ⟨hcount, -, -, -, hlength⟩ :=
      (@transfer_agrees sampleCrates sampleCrates_lawful blobWorkspace sampleTransferId).2 _ _ _ _ _ hrun
    exact ⟨_, hrun, hcount, hlength⟩

/-- The frame is refused as the upload sends it: a download takes no frame whose direction is the upload's. -/
theorem zero_frame_refused : ∃ upload,
    (@runUpload sampleCrates (@startUpload sampleCrates blobWorkspace sampleTransferId [0]) [ampleTick]).run =
      some (.ok (upload, [.chunk (zeroFrame .upload)])) ∧
    (@handleBinaryFrame sampleCrates zeroDownload (zeroFrame .upload)).run = some (.error ⟨.protocol, false⟩) := by
  have hdecode := @Binary.decodeBinaryFrame_image sampleCrates .upload true sampleTransferId 0 0 [0] _
    sampleCrates_lawful ⟨by decide, by decide, by decide⟩ rfl
  refine ⟨(@startUpload sampleCrates blobWorkspace sampleTransferId [0]).push [0], ?_, ?_⟩
  · have hchunk : (@advanceUpload sampleCrates (@startUpload sampleCrates blobWorkspace sampleTransferId [0])
        ampleTick).run = some (.ok ((@startUpload sampleCrates blobWorkspace sampleTransferId [0]).push [0],
          some (.chunk (zeroFrame .upload)))) :=
      @advanceStreaming_chunk sampleCrates [0] _ _ (@inStep_start sampleCrates blobWorkspace sampleTransferId [0])
        (by decide) (by decide) (by decide) 2097152 (by decide)
    exact @runUpload_cons sampleCrates _ ampleTick [] _ _ _ _ hchunk rfl
  · exact @handleBinaryFrame_direction sampleCrates _ _ _ _ hdecode nofun

end Sample

end Lumio.Transport.Wire
