import Lumio.Fs.Rules
import Lumio.Fs.Writer

/-!
# A workspace under rules

The disk with the synchronisation rules of a client: they decide which entries a scan reports and which
directories it enters.
-/

namespace Lumio.Fs

open Lumio.Protocol

structure RuledDisk (rules : SyncRules) where
  disk : Disk

namespace RuledDisk

variable {rules : SyncRules} {α : Type}

def lift (operation : Disk → Except FsError α × Disk) (ruled : RuledDisk rules) : Except FsError α × RuledDisk rules :=
  ((operation ruled.disk).1, ⟨(operation ruled.disk).2⟩)

/-- An entry that a scan reports: it is included, and the scan enters the directories above it. -/
def scanned (rules : SyncRules) (entry : ObservedEntry) : Bool :=
  (rules.decide entry.path (entry.kind = .directory)).included &&
    (WorkspacePath.ancestors entry.path).all fun directory => rules.shouldDescend directory

def scan (ruled : RuledDisk rules) : WorkspaceScan :=
  ⟨(ruled.disk.paths.filterMap fun path => (ruled.disk.node path).map (·.observe path)).filter (scanned rules), true⟩

end RuledDisk

instance {rules : SyncRules} : Filesystem (RuledDisk rules) where
  inspect ruled := Filesystem.inspect ruled.disk
  directorySnapshot ruled := Filesystem.directorySnapshot ruled.disk
  scan ruled := .ok ruled.scan
  included _ path isDir := (rules.decide path isDir).included
  contentAvailable ruled := Filesystem.contentAvailable ruled.disk
  stageWorkspaceEntry ruled path := RuledDisk.lift (Filesystem.stageWorkspaceEntry · path) ruled
  importBlob ruled hash size bytes := RuledDisk.lift (Filesystem.importBlob · hash size bytes) ruled
  apply ruled applyId operation := RuledDisk.lift (Filesystem.apply · applyId operation) ruled
  observe ruled := Filesystem.observe ruled.disk
  finalize ruled receipt := RuledDisk.lift (Filesystem.finalize · receipt) ruled
  abandon ruled applyId operation := RuledDisk.lift (Filesystem.abandon · applyId operation) ruled

instance {rules : SyncRules} : LawfulFilesystem (RuledDisk rules) where
  inspect_path ruled path entry h := LawfulFilesystem.inspect_path ruled.disk path entry h

/-! ## The default rules -/

def literalGlob (pattern : List Char) : GlobMatcher := fun text => text = pattern || pattern = "**".toList

@[reducible] def literalGlobs : GlobBuilder := ⟨fun pattern => some (literalGlob pattern)⟩

def defaultRules : SyncRules :=
  let compiled (patterns : List String) := patterns.map fun pattern => literalGlob pattern.toList
  { hardInternal := compiled hardInternalExcludes
    hardEnvSecrets := compiled (hardSecretExcludes.take envSecretPatternCount)
    hardOtherSecrets := compiled (hardSecretExcludes.drop envSecretPatternCount)
    userExcludes := []
    userIncludes := []
    defaultExcludes := compiled defaultExcludes
    defaultIncludes := compiled defaultIncludes
    userIncludePrefixes := []
    protectSecrets := true }

example : @SyncRules.compile literalGlobs .default = .ok defaultRules := rfl

end Lumio.Fs
