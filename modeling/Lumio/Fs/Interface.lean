import Lumio.Protocol.Message

/-!
# What the engine sees of the workspace

The types of the filesystem crate, and the operations through which the engine uses it. The engine is
modelled over any implementation of these operations, each of which may fail.
-/

namespace Lumio.Fs

open Lumio.Protocol

abbrev ApplyId := Nat

inductive FsError where
  | io (operation : String)
  | contentMismatch
  | sizeMismatch
  | pathEscape
  | pathCollision (path : WorkspacePath)
  | unsupportedSymlink
  | invalidRule (index : Nat) (reason : String)
deriving DecidableEq

structure FileFingerprint where
  fileId : Nat
  size : Nat
  modifiedAtNs : Int
  changedAtNs : Int
deriving DecidableEq

structure ObservedEntry where
  path : WorkspacePath
  kind : WorkspaceEntryKind
  metadata : WorkspaceFileMetadata
  fingerprint : FileFingerprint
  /-- The bytes of the target of a symbolic link. -/
  symlinkTarget : Option (List Nat)
deriving DecidableEq

structure DirectorySnapshotEntry where
  relativePath : List Char
  kind : WorkspaceEntryKind
  contentHash : Option WorkspaceContentHash
  metadata : WorkspaceFileMetadata
  fingerprint : FileFingerprint
deriving DecidableEq

/-- The entries below a directory. The digest the program keeps beside them is a function of them. -/
structure DirectorySnapshot where
  entries : List DirectorySnapshotEntry
deriving DecidableEq

inductive ExpectedEntry where
  | missing
  | present (kind : WorkspaceEntryKind) (contentHash : Option WorkspaceContentHash)
      (directorySnapshot : Option DirectorySnapshot) (fingerprint : FileFingerprint)
deriving DecidableEq

inductive FsOperation where
  | upsertFile (path : WorkspacePath) (contentHash : WorkspaceContentHash) (metadata : WorkspaceFileMetadata)
      (expected : ExpectedEntry)
  | mkdir (path : WorkspacePath) (metadata : WorkspaceFileMetadata) (expected : ExpectedEntry)
  | upsertSymlink (path : WorkspacePath) (contentHash : WorkspaceContentHash) (metadata : WorkspaceFileMetadata)
      (expected : ExpectedEntry)
  | delete (path : WorkspacePath) (expected : ExpectedEntry)
  | rename (path newPath : WorkspacePath) (contentHash : Option WorkspaceContentHash)
      (metadata : WorkspaceFileMetadata) (sourceExpected targetExpected : ExpectedEntry)
deriving DecidableEq

structure ApplyReceipt where
  applyId : ApplyId
  touched : List WorkspacePath
  postimages : List (Option ObservedEntry)
  postimageHashes : List (Option WorkspaceContentHash)
  cleanupName : Option (List Char)
deriving DecidableEq

inductive ApplyObservation where
  | preimage
  | postimage
  | diverged
deriving DecidableEq

inductive FsChange where
  | create (path : WorkspacePath)
  | update (path : WorkspacePath)
  | delete (path : WorkspacePath)
  | rename (source target : WorkspacePath)
  | rescanRequired
deriving DecidableEq

structure ContentDescriptor where
  contentHash : WorkspaceContentHash
  metadata : WorkspaceFileMetadata
deriving DecidableEq

structure WorkspaceScan where
  entries : List ObservedEntry
  complete : Bool

/-- A workspace with its synchronisation rules and its content cache. The writing operations return the
workspace they leave behind also when they fail. -/
class Filesystem (F : Type) where
  inspect : F → WorkspacePath → Except FsError (Option ObservedEntry)
  directorySnapshot : F → WorkspacePath → Except FsError DirectorySnapshot
  scan : F → Except FsError WorkspaceScan
  included : F → WorkspacePath → Bool → Bool
  contentAvailable : F → WorkspaceContentHash → Nat → Except FsError Bool
  stageWorkspaceEntry : F → WorkspacePath → Except FsError ContentDescriptor × F
  importBlob : F → WorkspaceContentHash → Nat → List Nat → Except FsError Unit × F
  apply : F → ApplyId → FsOperation → Except FsError ApplyReceipt × F
  observe : F → ApplyId → FsOperation → Except FsError ApplyObservation
  finalize : F → ApplyReceipt → Except FsError Unit × F
  abandon : F → ApplyId → FsOperation → Except FsError Unit × F

/-- What the engine relies on: an entry is reported under the path that was asked for. -/
class LawfulFilesystem (F : Type) [Filesystem F] : Prop where
  inspect_path : ∀ (files : F) (path : WorkspacePath) (entry : ObservedEntry),
    Filesystem.inspect files path = .ok (some entry) → entry.path = path

end Lumio.Fs
