import Mathlib.Data.List.Basic
import Mathlib.Algebra.Ring.Nat

/-!
# Values of the workspace protocol

Identifiers are the numbers their UUIDs spell, revisions are natural numbers, and a required nullable
field of the wire format is an `Option`.
-/

namespace Lumio.Protocol

abbrev WorkspaceId := Nat
abbrev ClientId := Nat
abbrev OperationId := Nat
abbrev StreamId := Nat
abbrev ConflictId := Nat
abbrev WorkspaceRevision := Nat
abbrev WorkspaceConflictRevision := Nat

/-- The 256-bit BLAKE3 digest a content hash spells. -/
abbrev WorkspaceContentHash := Nat

def maxBlobBytes : Nat := 5368709120

structure WorkspaceValidationError where
  field : String
  reason : String
deriving DecidableEq

def validationError {α : Type} (field reason : String) : Except WorkspaceValidationError α :=
  .error ⟨field, reason⟩

/-! ## Paths -/

/-- The Windows device names, which no segment may have before its first dot. -/
def isDeviceName (base : List Char) : Bool :=
  base == "CON".toList || base == "PRN".toList || base == "AUX".toList || base == "NUL".toList ||
    (base.length == 4 && (base.take 3 == "COM".toList || base.take 3 == "LPT".toList) &&
      (base.drop 3).all fun c => '1' ≤ c && c ≤ '9')

def isUnsafeCharacter (c : Char) : Bool :=
  c.toNat ≤ 0x1f || (0x7f ≤ c.toNat && c.toNat ≤ 0x9f) || "<>:\"|?*".toList.contains c

/-- Why a segment is refused, in the order in which the parser looks. -/
def segmentError (segment : List Char) : Option String :=
  if segment.isEmpty || segment == ['.'] || segment == ['.', '.'] then some "invalid_segment"
  else if segment.getLast? == some '.' || segment.getLast? == some ' ' then some "windows_unsafe_suffix"
  else if segment.any isUnsafeCharacter then some "unsafe_character"
  else if isDeviceName ((segment.takeWhile (· != '.')).map Char.toUpper) then some "windows_device_name"
  else none

/-- Why a text is not a workspace path. The normalisation check (NFC) of the parser is left out, so the
paths here are a superset of the program's. -/
def pathError (chars : List Char) : Option String :=
  if chars.isEmpty || 4096 < (chars.map Char.utf8Size).sum then some "invalid_length_or_utf8"
  else if chars.head? == some '/' || chars.getLast? == some '/' ||
      (chars.zip chars.tail).contains ('/', '/') || chars.contains '\\' then
    some "not_relative_posix"
  else (chars.splitOn '/').findSome? segmentError

/-- A relative POSIX path, as the list of its characters. -/
structure WorkspacePath where
  chars : List Char
  parsed : pathError chars = none
deriving DecidableEq

def WorkspacePath.parse (chars : List Char) : Except WorkspaceValidationError WorkspacePath :=
  match h : pathError chars with
  | none => .ok ⟨chars, h⟩
  | some reason => validationError "path" reason

/-- Byte order of UTF-8 texts, which is the order of their code points. -/
def bytesLe : List Char → List Char → Bool
  | [], _ => true
  | _ :: _, [] => false
  | a :: as, b :: bs => a.toNat < b.toNat || (a.toNat == b.toNat && bytesLe as bs)

def WorkspacePath.le (left right : WorkspacePath) : Bool := bytesLe left.chars right.chars

/-! ## Entries -/

inductive WorkspaceEntryKind where
  | file
  | directory
  | symlink
  | tombstone
deriving DecidableEq

inductive WorkspaceMutationKind where
  | upsertFile
  | mkdir
  | upsertSymlink
  | delete
  | rename
deriving DecidableEq

inductive WorkspaceSnapshotMode where
  | snapshot
  | incremental
deriving DecidableEq

inductive WorkspaceConflictKind where
  | content
  | deleteModify
  | rename
  | binary
deriving DecidableEq

inductive WorkspaceConflictChoice where
  | current
  | incoming
  | merged
  | delete
deriving DecidableEq

inductive WorkspaceMutationRejectReason where
  | staleBaseRevision
  | operationReused
  | blobRequired
  | conflictCreated
deriving DecidableEq

structure WorkspaceFileMetadata where
  size : Nat
  modifiedAtMs : Int
  executable : Bool
deriving DecidableEq

def WorkspaceFileMetadata.validate (metadata : WorkspaceFileMetadata) (kind : WorkspaceEntryKind) :
    Except WorkspaceValidationError Unit :=
  if maxBlobBytes < metadata.size then validationError "metadata.size" "limit_exceeded"
  else if metadata.modifiedAtMs < 0 || 253402300799999 < metadata.modifiedAtMs then
    validationError "metadata.modifiedAtMs" "out_of_range"
  else if (kind = .directory ∨ kind = .tombstone) ∧ metadata.size ≠ 0 then
    validationError "metadata.size" "must_be_zero"
  else if (kind = .directory ∨ kind = .tombstone) ∧ metadata.executable then
    validationError "metadata.executable" "must_be_false"
  else .ok ()

def zeroMetadata : WorkspaceFileMetadata := ⟨0, 0, false⟩

end Lumio.Protocol
