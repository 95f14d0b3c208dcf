import Lumio.Fs.Interface
import Mathlib.Data.List.Sort

/-!
# A workspace on disk

The entries below the root with their content and times, and the content cache beside them. Every write to an
entry takes a tick of the clock, and a write to a directory's list of names is seen in the times of the directory.
-/

namespace Lumio.Fs

open Lumio.Protocol

/-- The digest of a content. An injective encoding stands for BLAKE3. -/
def contentDigest (content : List Nat) : WorkspaceContentHash :=
  content.foldl (fun digest byte => digest * 257 + byte + 1) 0

structure Node where
  kind : WorkspaceEntryKind
  /-- The bytes of a file or of the target of a symbolic link. -/
  content : List Nat
  executable : Bool
  modifiedAtNs : Int
  changedAtNs : Int
  fileId : Nat
deriving DecidableEq

def Node.contentHash (node : Node) : Option WorkspaceContentHash :=
  match node.kind with
  | .file | .symlink => some (contentDigest node.content)
  | .directory | .tombstone => none

def Node.metadata (node : Node) : WorkspaceFileMetadata where
  size := if node.kind = .directory then 0 else node.content.length
  modifiedAtMs := max 0 (node.modifiedAtNs / 1000000)
  executable := node.kind = .file && node.executable

def Node.observe (node : Node) (path : WorkspacePath) : ObservedEntry where
  path
  kind := node.kind
  metadata := node.metadata
  fingerprint := ⟨node.fileId, node.content.length, node.modifiedAtNs, node.changedAtNs⟩
  symlinkTarget := if node.kind = .symlink then some node.content else none

structure Disk where
  node : WorkspacePath → Option Node
  /-- The paths that have ever had an entry. -/
  known : List WorkspacePath
  blobs : List (List Nat)
  clock : Int
  nextFileId : Nat

/-- An empty workspace with an empty cache. -/
def Disk.empty : Disk := ⟨fun _ => none, [], [], 0, 0⟩

/-! ## Paths -/

def WorkspacePath.ancestors (path : WorkspacePath) : List WorkspacePath :=
  (List.range path.chars.length).filterMap fun i =>
    if path.chars[i]? = some '/' then (WorkspacePath.parse (path.chars.take i)).toOption else none

def WorkspacePath.parent (path : WorkspacePath) : Option WorkspacePath := (ancestors path).getLast?

def siblingPath (path : WorkspacePath) (leaf : List Char) : Except FsError WorkspacePath :=
  let value := match WorkspacePath.parent path with
    | none => leaf
    | some parent => parent.chars ++ '/' :: leaf
  match WorkspacePath.parse value with
  | .ok sibling => .ok sibling
  | .error _ => .error .pathEscape

/-- Where a path below `source` is after the move of `source` to `target`. -/
def relocate (source target path : WorkspacePath) : Option WorkspacePath :=
  if path = source then some target
  else if pathIsDescendant path source then
    (WorkspacePath.parse (target.chars ++ path.chars.drop source.chars.length)).toOption
  else none

/-! ## Reading -/

namespace Disk

variable (disk : Disk)

def kindAt (path : WorkspacePath) : Option WorkspaceEntryKind := (disk.node path).map (·.kind)

/-- The entry at a path. A path does not lead through a symbolic link. -/
def inspect (path : WorkspacePath) : Except FsError (Option ObservedEntry) :=
  if (WorkspacePath.ancestors path).any fun ancestor => disk.kindAt ancestor = some .symlink then
    .error .unsupportedSymlink
  else .ok ((disk.node path).map (·.observe path))

def paths : List WorkspacePath :=
  (disk.known.dedup.filter fun path => (disk.node path).isSome).insertionSort fun a b => a.le b

def relativeEntry (directory path : WorkspacePath) : Option DirectorySnapshotEntry :=
  (disk.node path).map fun node =>
    ⟨path.chars.drop (directory.chars.length + 1), node.kind, node.contentHash, node.metadata,
      (node.observe path).fingerprint⟩

def directorySnapshot (path : WorkspacePath) : Except FsError DirectorySnapshot :=
  if disk.kindAt path = some .directory then
    .ok ⟨(disk.paths.filter (pathIsDescendant · path)).filterMap (disk.relativeEntry path)⟩
  else .error .contentMismatch

/-- Whether the rules of the workspace include a path: all but the working artifacts of the writer. -/
def included (path : WorkspacePath) : Bool :=
  (path.chars.splitOn '/').all fun segment => !(".fns-".toList.isPrefixOf segment)

def scan : WorkspaceScan :=
  ⟨((disk.paths.filter included).filterMap fun path => (disk.node path).map (·.observe path)), true⟩

def openBlob (hash : WorkspaceContentHash) : Option (List Nat) := disk.blobs.find? (contentDigest · = hash)

def contentAvailable (hash : WorkspaceContentHash) (size : Nat) : Bool :=
  (disk.openBlob hash).any (·.length = size)

/-! ## The content cache -/

def stageWorkspaceEntry (path : WorkspacePath) : Except FsError ContentDescriptor × Disk :=
  match disk.node path with
  | none => (.error (.io "stage missing entry"), disk)
  | some node =>
    match node.contentHash with
    | none => (.error .contentMismatch, disk)
    | some hash => (.ok ⟨hash, node.metadata⟩, { disk with blobs := node.content :: disk.blobs })

def importBlob (hash : WorkspaceContentHash) (size : Nat) (bytes : List Nat) : Except FsError Unit × Disk :=
  if bytes.length ≠ size then (.error .sizeMismatch, disk)
  else if contentDigest bytes ≠ hash then (.error .contentMismatch, disk)
  else (.ok (), { disk with blobs := bytes :: disk.blobs })

/-! ## Writing -/

def put (path : WorkspacePath) (node : Node) : Disk where
  node := Function.update disk.node path (some node)
  known := path :: disk.known
  blobs := disk.blobs
  clock := disk.clock + 1
  nextFileId := disk.nextFileId + 1

/-- A directory whose list of names has changed. -/
def touch (directory : Option WorkspacePath) : Disk :=
  match directory with
  | none => disk
  | some directory =>
    match disk.node directory with
    | none => disk
    | some node =>
      let touched := { node with modifiedAtNs := disk.clock, changedAtNs := disk.clock }
      { disk with node := Function.update disk.node directory (some touched) }

def create (path : WorkspacePath) (kind : WorkspaceEntryKind) (content : List Nat) : Disk :=
  (disk.put path ⟨kind, content, false, disk.clock, disk.clock, disk.nextFileId⟩).touch (WorkspacePath.parent path)

def adjust (path : WorkspacePath) (change : Node → Node) : Disk :=
  match disk.node path with
  | none => disk
  | some node =>
    let changed := { change node with changedAtNs := disk.clock }
    { disk with node := Function.update disk.node path (some changed), clock := disk.clock + 1 }

def remove (path : WorkspacePath) : Disk :=
  let left := { disk with
    node := fun other => if other = path ∨ pathIsDescendant other path then none else disk.node other
    clock := disk.clock + 1 }
  left.touch (WorkspacePath.parent path)

def move (source target : WorkspacePath) : Disk :=
  let moved := { disk with
    node := fun other =>
      match relocate target source other with
      | some origin => disk.node origin
      | none => if other = source ∨ pathIsDescendant other source then none else disk.node other
    known := disk.known ++ disk.known.filterMap (relocate source target)
    clock := disk.clock + 1 }
  let moved := moved.adjust target id
  (moved.touch (WorkspacePath.parent source)).touch (WorkspacePath.parent target)

end Disk

end Lumio.Fs
