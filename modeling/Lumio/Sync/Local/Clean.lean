import Lumio.Sync.Engine.Basic
import Lumio.Fs.Writer

/-!
# Clean paths

The scanner leaves a path alone when the entry it describes there matches the stored state. The handlers of remote
items ask `baselineMatchesObserved` instead, which compares the metadata as observed.
-/

namespace Lumio.Sync

open Prog Lumio.Protocol Lumio.Fs

/-- The scanner's test: the entry described from an observation matches the stored state. -/
def ScansClean (engine : Engine Disk) (state : WorkspacePathState) (observed : ObservedEntry) : Prop :=
  wp (desiredEntryFromObserved observed) (fun entry _ => remoteMatchesEntry state entry = true)
    (fun _ _ => False) engine

def MatchesBaseline (engine : Engine Disk) (state : WorkspacePathState) (observed : ObservedEntry) : Prop :=
  wp (baselineMatchesObserved (some state) (some observed)) (fun holds _ => holds = true) (fun _ _ => False) engine

section

variable {engine : Engine Disk} {node : Node} {path : WorkspacePath}

/-! ## What is described of an entry -/

theorem inspect_eq_ok {disk : Disk} {observed : ObservedEntry} (h : disk.inspect path = .ok (some observed)) :
    ∃ node, disk.node path = some node ∧ observed = node.observe path := by
  simp only [Disk.inspect] at h
  split at h
  · cases h
  · simp only [Except.ok.injEq, Option.map_eq_some_iff] at h
    obtain ⟨node, hnode, rfl⟩ := h
    exact ⟨node, hnode, rfl⟩

theorem desiredEntry_directory (h : node.kind = .directory) :
    desiredEntryFromObserved (F := Disk) (node.observe path) = pure ⟨path, .directory, none, zeroMetadata⟩ := by
  simp [desiredEntryFromObserved, Node.observe, h]

variable {hash : WorkspaceContentHash}

theorem desiredEntry_content (hnode : engine.files.node path = some node) (hhash : node.contentHash = some hash) :
    desiredEntryFromObserved (node.observe path) engine = .ok ⟨path, node.kind, some hash, node.metadata⟩
      { engine with files := { engine.files with blobs := node.content :: engine.files.blobs } } := by
  have hkind : node.kind ≠ .directory := by
    intro hkind
    simp [Node.contentHash, hkind] at hhash
  simp [desiredEntryFromObserved, Node.observe, hkind, bind, EStateM.bind, pure, EStateM.pure, writeFiles,
    Filesystem.stageWorkspaceEntry, Disk.stageWorkspaceEntry, hnode, hhash]

theorem desiredEntry_tombstone (hnode : engine.files.node path = some node) (h : node.kind = .tombstone) :
    desiredEntryFromObserved (node.observe path) engine = .error (.filesystem .contentMismatch) engine := by
  have hhash : node.contentHash = none := by simp [Node.contentHash, h]
  simp [desiredEntryFromObserved, Node.observe, h, bind, EStateM.bind, writeFiles,
    Filesystem.stageWorkspaceEntry, Disk.stageWorkspaceEntry, hnode, hhash]

theorem observedContentHash_content (hnode : engine.files.node path = some node)
    (hhash : node.contentHash = some hash) :
    observedContentHash (node.observe path) engine = .ok (some hash)
      { engine with files := { engine.files with blobs := node.content :: engine.files.blobs } } := by
  have hkind : (node.observe path).kind ≠ .directory := by
    intro hkind
    simp only [Node.observe] at hkind
    simp [Node.contentHash, hkind] at hhash
  simp only [observedContentHash, if_neg hkind, bind, EStateM.bind, desiredEntry_content hnode hhash]
  rfl

/-! ## The two tests -/

theorem remoteMatchesEntry_iff {state : WorkspacePathState} {entry : LocalDesiredEntry} :
    remoteMatchesEntry state entry = true ↔ state.path = entry.path ∧ state.kind = entry.kind ∧
      state.contentHash = entry.contentHash ∧ state.metadata = entry.metadata ∧
      state.tombstone = (entry.kind == .tombstone) := by
  simp [remoteMatchesEntry, and_assoc]

theorem observe_metadata_eq_zero (h : node.kind = .directory) :
    (node.observe path).metadata = zeroMetadata ↔ (node.observe path).metadata.modifiedAtMs = 0 := by
  simp [Node.observe, Node.metadata, zeroMetadata, h]

variable {state : WorkspacePathState}

theorem directory_matchesBaseline (h : node.kind = .directory)
    (hmatches : remoteMatchesEntry state ⟨path, .directory, none, zeroMetadata⟩ = true) :
    MatchesBaseline engine state (node.observe path) ↔ (node.observe path).metadata.modifiedAtMs = 0 := by
  obtain ⟨-, hkind, hhash, hmetadata, htombstone⟩ := remoteMatchesEntry_iff.mp hmatches
  rw [← observe_metadata_eq_zero h]
  have hobserved : (node.observe path).kind = .directory := h
  by_cases hzero : (node.observe path).metadata = zeroMetadata
  · simp [MatchesBaseline, baselineMatchesObserved, observedContentHash, hkind, hhash, hmetadata, htombstone,
      hobserved, hzero]
  · simp [MatchesBaseline, baselineMatchesObserved, hkind, hmetadata, htombstone, hobserved, hzero]

theorem content_matchesBaseline (hnode : engine.files.node path = some node) (hhash : node.contentHash = some hash)
    (hmatches : remoteMatchesEntry state ⟨path, node.kind, some hash, node.metadata⟩ = true) :
    MatchesBaseline engine state (node.observe path) := by
  obtain ⟨-, hkind, hstored, hmetadata, htombstone⟩ := remoteMatchesEntry_iff.mp hmatches
  have hnotTombstone : node.kind ≠ .tombstone := by
    intro htombstone
    simp [Node.contentHash, htombstone] at hhash
  have hfalse : state.tombstone = false := by
    rw [htombstone]
    exact beq_eq_false_iff_ne.mpr hnotTombstone
  simp only at hkind hmetadata hstored
  have hsame : ¬((node.observe path).kind ≠ state.kind ∨ (node.observe path).metadata ≠ state.metadata) := by
    simp [Node.observe, hkind, hmetadata]
  simp only [MatchesBaseline, baselineMatchesObserved, hkind, hnotTombstone, hfalse, Bool.false_eq_true, or_self,
    if_false]
  rw [← hkind, if_neg hsame]
  simp [wp, bind, EStateM.bind, observedContentHash_content hnode hhash, pure, EStateM.pure, hstored]

variable {scanned : Engine Disk} {observed : ObservedEntry}

theorem ScansClean.described (hnode : scanned.files.node path = some node)
    (hclean : ScansClean scanned state (node.observe path)) :
    (node.kind = .directory ∧ remoteMatchesEntry state ⟨path, .directory, none, zeroMetadata⟩ = true) ∨
      ∃ hash, node.kind ≠ .directory ∧ node.contentHash = some hash ∧
        remoteMatchesEntry state ⟨path, node.kind, some hash, node.metadata⟩ = true := by
  cases hkind : node.kind with
  | directory =>
    simp only [ScansClean, desiredEntry_directory hkind, wp_pure] at hclean
    exact .inl ⟨rfl, hclean⟩
  | tombstone => simp only [ScansClean, wp, desiredEntry_tombstone hnode hkind] at hclean
  | file | symlink =>
    have hhash : node.contentHash = some (contentDigest node.content) := by simp [Node.contentHash, hkind]
    simp only [ScansClean, wp, desiredEntry_content hnode hhash, hkind] at hclean
    exact .inr ⟨_, by simp, hhash, hclean⟩

/-- An entry that the scanner finds unchanged matches the baseline, unless it is a directory with a modification
time: the scanner describes a directory without its metadata, and the baseline is compared with the observed one. -/
theorem clean_matchesBaseline_iff (hobserved : scanned.files.inspect path = .ok (some observed))
    (hsame : engine.files.node path = scanned.files.node path) (hclean : ScansClean scanned state observed) :
    MatchesBaseline engine state observed ↔ (observed.kind = .directory → observed.metadata.modifiedAtMs = 0) := by
  obtain ⟨node, hnode, rfl⟩ := inspect_eq_ok hobserved
  rw [hnode] at hsame
  rcases hclean.described hnode with ⟨hkind, hmatches⟩ | ⟨hash, hkind, hhash, hmatches⟩
  · have hdirectory : (node.observe path).kind = .directory := hkind
    simp only [directory_matchesBaseline hkind hmatches, hdirectory, forall_const]
  · have hnotDirectory : (node.observe path).kind ≠ .directory := hkind
    simp only [content_matchesBaseline hsame hhash hmatches, hnotDirectory, false_implies]

end

/-! ## A directory that has just been made -/

namespace Sample

def photos : WorkspacePath := ⟨['p', 'h', 'o', 't', 'o', 's'], by decide⟩

/-- A workspace with one directory, made at the given nanosecond. -/
def withPhotos (madeAtNs : Int) : Engine Disk :=
  .initial ({ Disk.empty with clock := madeAtNs }.create photos .directory []) [] []

def photosObserved (madeAtNs : Int) : ObservedEntry :=
  Node.observe ⟨.directory, [], false, madeAtNs, madeAtNs, 0⟩ photos

def photosState : WorkspacePathState := ⟨photos, 4, .directory, none, zeroMetadata, false⟩

end Sample

theorem Sample.photos_clean (madeAtNs : Int) :
    ScansClean (Sample.withPhotos madeAtNs) Sample.photosState (Sample.photosObserved madeAtNs) := by
  simp only [ScansClean, Sample.photosObserved, desiredEntry_directory, wp_pure]
  decide

theorem clean_matchesBaseline_iff_photos :
    MatchesBaseline (Sample.withPhotos 999999) Sample.photosState (Sample.photosObserved 999999) :=
  (@clean_matchesBaseline_iff _ Sample.photos _ _ _ rfl rfl (Sample.photos_clean 999999)).mpr (by decide)

/-- A directory made in the year 2026 is clean for the scanner and not as the baseline has it. -/
theorem clean_directory_diverges :
    ¬∀ (scanned engine : Engine Disk) (path : WorkspacePath) (observed : ObservedEntry) (state : WorkspacePathState),
      scanned.files.inspect path = .ok (some observed) → engine.files.node path = scanned.files.node path →
        ScansClean scanned state observed → MatchesBaseline engine state observed := by
  intro h
  have hmatches := h (Sample.withPhotos 1767225600000000000) (Sample.withPhotos 1767225600000000000) Sample.photos
    (Sample.photosObserved 1767225600000000000) Sample.photosState rfl rfl (Sample.photos_clean _)
  have hzero := (directory_matchesBaseline rfl (by decide)).mp hmatches
  exact absurd hzero (by decide)

end Lumio.Sync
