import Lumio.Fs.Disk

/-!
# The writer

`apply` brings one operation to the workspace. A replaced or deleted entry is kept under a working name of its
own until `finalize`, and a renamed one passes through such a name. Every write may be the last before a crash:
`writes` counts those that are still to happen, and `none` is a writer that is not interrupted.
-/

namespace Lumio.Fs

open Lumio.Protocol

inductive Interrupt where
  | failed (error : FsError)
  | crashed
deriving DecidableEq

structure Writing where
  disk : Disk
  /-- How many writes happen before the crash. -/
  writes : Option Nat

abbrev WriterM := EStateM Interrupt Writing

def fail {α : Type} (error : FsError) : WriterM α := throw (.failed error)

/-- A write, unless the crash comes first. -/
def write (change : Disk → Disk) : WriterM Unit := do
  let writing ← get
  match writing.writes with
  | some 0 => throw .crashed
  | some (writes + 1) => set { writing with disk := change writing.disk, writes := some writes }
  | none => set { writing with disk := change writing.disk }

def look {α : Type} (read : Disk → Except FsError α) : WriterM α := do
  match read (← get).disk with
  | .ok a => pure a
  | .error error => fail error

def attempt (step : WriterM Unit) : WriterM Unit := fun writing =>
  match step writing with
  | .error (.failed _) writing => .ok () writing
  | result => result

def attempted (step : WriterM Unit) : WriterM Bool := fun writing =>
  match step writing with
  | .ok _ writing => .ok true writing
  | .error (.failed _) writing => .ok false writing
  | .error .crashed writing => .error .crashed writing

/-! ## Primitive steps -/

def renameNoreplace (source target : WorkspacePath) (error : FsError) : WriterM Unit := do
  let disk := (← get).disk
  if (disk.node source).isNone ∨ (disk.node target).isSome ∨ pathIsDescendant target source ∨
      (WorkspacePath.parent target).any fun parent => disk.kindAt parent ≠ some .directory then
    fail error
  else write (·.move source target)

def removeEntry (path : WorkspacePath) : WriterM Unit := do
  if ((← get).disk.node path).isNone then fail (.io "stat workspace cleanup entry") else write (·.remove path)

def removeIfExists (path : WorkspacePath) : WriterM Unit := do
  if ((← get).disk.node path).isNone then pure () else removeEntry path

def restoreIfMissing (backup destination : WorkspacePath) : WriterM Unit := do
  let disk := (← get).disk
  if (disk.node destination).isNone ∧ (disk.node backup).isSome then
    attempt (renameNoreplace backup destination (.io "rename"))
  else pure ()

/-- The times of an entry, to the millisecond. -/
def setEntryMtime (path : WorkspacePath) (modifiedAtMs : Int) : WriterM Unit :=
  write (·.adjust path fun node => { node with modifiedAtNs := modifiedAtMs * 1000000 })

def setEntryMetadata (path : WorkspacePath) (kind : WorkspaceEntryKind) (metadata : WorkspaceFileMetadata) :
    WriterM Unit := do
  match kind with
  | .file => write (·.adjust path fun node => { node with executable := metadata.executable })
  | _ => pure ()
  setEntryMtime path metadata.modifiedAtMs

def openParent (path : WorkspacePath) (createMissing : Bool) : WriterM Unit :=
  (WorkspacePath.ancestors path).forM fun ancestor => do
    match (← get).disk.kindAt ancestor with
    | some .directory => pure ()
    | some .symlink => fail .unsupportedSymlink
    | some _ => fail .contentMismatch
    | none => if createMissing then write (·.create ancestor .directory []) else fail .contentMismatch

/-! ## Working names -/

def applyIdChars (applyId : ApplyId) : List Char := Nat.toDigits 16 applyId

def temporaryName (applyId : ApplyId) : List Char := ".fns-tmp-".toList ++ applyIdChars applyId
def tombName (applyId : ApplyId) : List Char := ".fns-delete-".toList ++ applyIdChars applyId
def renameName (applyId : ApplyId) : List Char := ".fns-rename-".toList ++ applyIdChars applyId

/-! ## Comparing entries -/

def matchesHash (observed : ObservedEntry) (path : WorkspacePath) (expected : Option WorkspaceContentHash) :
    Disk → Bool := fun disk =>
  match expected with
  | none => true
  | some expected => ((disk.node path).bind Node.contentHash) = some expected && observed.kind ≠ .directory

def matchesDirectorySnapshot (path : WorkspacePath) (observed : ObservedEntry) (expected : Option DirectorySnapshot) :
    Disk → Bool := fun disk =>
  if observed.kind ≠ .directory then expected.isNone
  else
    match expected, disk.directorySnapshot path with
    | some expected, .ok snapshot => snapshot = expected
    | _, _ => false

def matchesExpected (path : WorkspacePath) (expected : ExpectedEntry) (strictFingerprint : Bool) : WriterM Bool := do
  match ← look (·.inspect path), expected with
  | none, expected => pure (expected = .missing)
  | some _, .missing => pure false
  | some observed, .present kind contentHash directorySnapshot fingerprint => do
    let disk := (← get).disk
    let fingerprintMatches :=
      if strictFingerprint then observed.fingerprint = fingerprint
      else observed.fingerprint.fileId = fingerprint.fileId ∧ observed.fingerprint.size = fingerprint.size ∧
        observed.fingerprint.modifiedAtNs = fingerprint.modifiedAtNs
    pure (observed.kind = kind && fingerprintMatches &&
      matchesDirectorySnapshot path observed directorySnapshot disk && matchesHash observed path contentHash disk)

def matchesStagedExpected (path : WorkspacePath) (expected : ExpectedEntry) : WriterM Bool := do
  match ← look (·.inspect path), expected with
  | some observed, .present kind contentHash directorySnapshot fingerprint => do
    let disk := (← get).disk
    pure (observed.kind = kind && observed.fingerprint.fileId = fingerprint.fileId &&
      observed.fingerprint.size = fingerprint.size &&
      matchesDirectorySnapshot path observed directorySnapshot disk && matchesHash observed path contentHash disk)
  | _, _ => pure false

def matchesSnapshot (path : WorkspacePath) (snapshot : ObservedEntry) (contentHash : Option WorkspaceContentHash)
    (directorySnapshot : Option DirectorySnapshot) : WriterM Bool := do
  match ← look (·.inspect path) with
  | none => pure false
  | some observed => do
    let disk := (← get).disk
    pure (observed.kind = snapshot.kind && observed.metadata = snapshot.metadata &&
      observed.fingerprint.fileId = snapshot.fingerprint.fileId &&
      observed.fingerprint.size = snapshot.fingerprint.size &&
      observed.fingerprint.modifiedAtNs = snapshot.fingerprint.modifiedAtNs &&
      observed.symlinkTarget = snapshot.symlinkTarget &&
      matchesDirectorySnapshot path observed directorySnapshot disk && matchesHash observed path contentHash disk)

def matchesLive (path : WorkspacePath) (kind : WorkspaceEntryKind) (contentHash : Option WorkspaceContentHash)
    (metadata : WorkspaceFileMetadata) : WriterM Bool := do
  match ← look (·.inspect path) with
  | none => pure false
  | some observed =>
    pure (observed.kind = kind && observed.metadata = metadata &&
      matchesHash observed path contentHash (← get).disk)

def ExpectedEntry.contentHash : ExpectedEntry → Option WorkspaceContentHash
  | .missing => none
  | .present _ contentHash _ _ => contentHash

def ExpectedEntry.directorySnapshot : ExpectedEntry → Option DirectorySnapshot
  | .missing => none
  | .present _ _ directorySnapshot _ => directorySnapshot

def ExpectedEntry.kind : ExpectedEntry → Option WorkspaceEntryKind
  | .missing => none
  | .present kind _ _ _ => some kind

/-! ## Receipts -/

def receiptSingle (applyId : ApplyId) (path : WorkspacePath) (postimage : ObservedEntry)
    (contentHash : Option WorkspaceContentHash) (cleanup : Option WorkspacePath) : ApplyReceipt :=
  ⟨applyId, [path], [some postimage], [contentHash], cleanup.map (·.chars)⟩

def FsOperation.matchesPreimage : FsOperation → WriterM Bool
  | .upsertFile path _ _ expected | .mkdir path _ expected | .upsertSymlink path _ _ expected
  | .delete path expected => matchesExpected path expected true
  | .rename path newPath _ _ sourceExpected targetExpected => do
    if ← matchesExpected path sourceExpected true then matchesExpected newPath targetExpected true else pure false

def parentOpens (path : WorkspacePath) (disk : Disk) : Bool :=
  (WorkspacePath.ancestors path).all fun ancestor => disk.kindAt ancestor = some .directory

def FsOperation.matchesPostimage (applyId : ApplyId) : FsOperation → WriterM Bool
  | .upsertFile path contentHash metadata _ => matchesLive path .file (some contentHash) metadata
  | .mkdir path metadata _ => matchesLive path .directory none metadata
  | .upsertSymlink path contentHash metadata _ => matchesLive path .symlink (some contentHash) metadata
  | .delete path expected => do
    if !parentOpens path (← get).disk then pure false
    else do
      let tomb ← look fun _ => siblingPath path (tombName applyId)
      match ← look (·.inspect path) with
      | some _ => pure false
      | none =>
        if ((← get).disk.node tomb).isNone then pure false else matchesExpected tomb expected false
  | .rename path newPath contentHash metadata sourceExpected _ =>
    match sourceExpected.kind with
    | none => pure false
    | some kind => do
      match ← look (·.inspect path) with
      | some _ => pure false
      | none => matchesLive newPath kind contentHash metadata

def tombOf (applyId : ApplyId) (path : WorkspacePath) (expected : ExpectedEntry) : WriterM (Option WorkspacePath) :=
  match expected with
  | .missing => pure none
  | .present .. => do
    let tomb ← look fun _ => siblingPath path (tombName applyId)
    pure (some tomb)

def inspectPresent (path : WorkspacePath) : WriterM ObservedEntry := do
  match ← look (·.inspect path) with
  | some observed => pure observed
  | none => fail .contentMismatch

/-- The receipt of an operation whose outcome is on the disk already. -/
def FsOperation.receiptForPostimage (applyId : ApplyId) : FsOperation → WriterM ApplyReceipt
  | .upsertFile path contentHash _ expected | .upsertSymlink path contentHash _ expected => do
    let observed ← inspectPresent path
    let tomb ← tombOf applyId path expected
    pure (receiptSingle applyId path observed (some contentHash) tomb)
  | .mkdir path _ _ => do
    let observed ← inspectPresent path
    pure (receiptSingle applyId path observed none none)
  | .delete path _ => do
    let tomb ← look fun _ => siblingPath path (tombName applyId)
    pure ⟨applyId, [path], [none], [none], some tomb.chars⟩
  | .rename path newPath contentHash _ _ targetExpected => do
    let observed ← inspectPresent newPath
    let tomb ← tombOf applyId newPath targetExpected
    pure ⟨applyId, [path, newPath], [none, some observed], [none, contentHash], tomb.map (·.chars)⟩

/-! ## Files and links -/

def discard {α : Type} (temporary : WorkspacePath) (error : FsError) : WriterM α := do
  attempt (removeIfExists temporary)
  fail error

def copyBlobToTemp (temporary : WorkspacePath) (expected : WorkspaceContentHash) (metadata : WorkspaceFileMetadata) :
    WriterM Unit := do
  match (← get).disk.openBlob expected with
  | none => fail (.io "open content cache")
  | some content => do
    write (·.create temporary .file [])
    write (·.adjust temporary fun node => { node with content })
    if content.length ≠ metadata.size then discard temporary .contentMismatch
    else do
      write (·.adjust temporary fun node => { node with executable := metadata.executable })
      setEntryMtime temporary metadata.modifiedAtMs

/-- The backup of a replaced entry, which must be the entry that was there before. -/
def backUp (temporary destination backup : WorkspacePath) (preimage : ObservedEntry)
    (preimageHash : Option WorkspaceContentHash) : WriterM Unit := do
  if ← matchesSnapshot backup preimage preimageHash none then pure ()
  else do
    restoreIfMissing backup destination
    discard temporary .contentMismatch

/-- Moves the temporary file to its place. A replaced entry is compared without a snapshot of the entries below
it, which no directory passes. -/
def renameChecked (applyId : ApplyId) (temporary destination : WorkspacePath) (expected : ExpectedEntry)
    (preimage : Option ObservedEntry) : WriterM (Option WorkspacePath) := do
  match expected with
  | .missing =>
    if ((← get).disk.node destination).isSome then discard temporary .contentMismatch
    else do
      renameNoreplace temporary destination (.io "commit workspace staging")
      pure none
  | .present _ preimageHash _ _ => do
    if !(← matchesExpected destination expected true) then discard temporary .contentMismatch
    else do
      let backup ← look fun _ => siblingPath destination (tombName applyId)
      if ((← get).disk.node backup).isSome then discard temporary .contentMismatch
      else do
        renameNoreplace destination backup .contentMismatch
        match preimage with
        | none => do
          restoreIfMissing backup destination
          discard temporary .contentMismatch
        | some preimage => do
          backUp temporary destination backup preimage preimageHash
          let baseline ← inspectPresent backup
          backUp temporary destination backup baseline preimageHash
          renameNoreplace temporary destination (.io "commit workspace staging")
          pure (some backup)

/-- The last part of the writing of a file or of a link, whose temporary entry is complete. -/
def commitTemporary (applyId : ApplyId) (path temporary : WorkspacePath) (contentHash : WorkspaceContentHash)
    (expected : ExpectedEntry) : WriterM ApplyReceipt := do
  if !(← matchesExpected path expected true) then discard temporary .contentMismatch
  else do
    let preimage ← look (·.inspect path)
    let cleanup ← renameChecked applyId temporary path expected preimage
    let postimage ← inspectPresent path
    pure (receiptSingle applyId path postimage (some contentHash) cleanup)

def applyFile (applyId : ApplyId) (path : WorkspacePath) (contentHash : WorkspaceContentHash)
    (metadata : WorkspaceFileMetadata) (expected : ExpectedEntry) : WriterM ApplyReceipt := do
  openParent path true
  let temporary ← look fun _ => siblingPath path (temporaryName applyId)
  removeIfExists temporary
  copyBlobToTemp temporary contentHash metadata
  commitTemporary applyId path temporary contentHash expected

/-- Whether a link target stays below the root, from a directory of the given depth. -/
def targetStaysInside : Nat → List (List Nat) → Bool
  | _, [] => true
  | depth, [] :: rest | depth, [46] :: rest => targetStaysInside depth rest
  | 0, [46, 46] :: _ => false
  | depth + 1, [46, 46] :: rest => targetStaysInside depth rest
  | depth, _ :: rest => targetStaysInside (depth + 1) rest

def validateRelativeTarget (path : WorkspacePath) (target : List Nat) : Bool :=
  target.head? ≠ some 47 && targetStaysInside (WorkspacePath.ancestors path).length (target.splitOn 47)

def applySymlink (applyId : ApplyId) (path : WorkspacePath) (contentHash : WorkspaceContentHash)
    (metadata : WorkspaceFileMetadata) (expected : ExpectedEntry) : WriterM ApplyReceipt := do
  openParent path true
  match (← get).disk.openBlob contentHash with
  | none => fail (.io "open content cache")
  | some target =>
    if target.length ≠ metadata.size ∨ 4096 < target.length then fail .sizeMismatch
    else if target.contains 0 then fail .contentMismatch
    else if !validateRelativeTarget path target then fail .pathEscape
    else do
      let temporary ← look fun _ => siblingPath path (temporaryName applyId)
      removeIfExists temporary
      write (·.create temporary .symlink target)
      setEntryMtime temporary metadata.modifiedAtMs
      commitTemporary applyId path temporary contentHash expected

/-- Continues an upsert that was interrupted between its two renames. -/
def resumeUpsert (applyId : ApplyId) (path : WorkspacePath) (contentHash : WorkspaceContentHash)
    (metadata : WorkspaceFileMetadata) (expected : ExpectedEntry) (kind : WorkspaceEntryKind) :
    WriterM ApplyReceipt := do
  if expected = .missing ∨ (← look (·.inspect path)).isSome then fail .contentMismatch
  else do
    openParent path true
    let temporary ← look fun _ => siblingPath path (temporaryName applyId)
    let tomb ← look fun _ => siblingPath path (tombName applyId)
    if !(← matchesStagedExpected tomb expected) then fail .contentMismatch
    else if !(← matchesLive temporary kind (some contentHash) metadata) then fail .contentMismatch
    else do
      renameNoreplace temporary path (.io "resume workspace staging")
      if !(← matchesLive path kind (some contentHash) metadata) then fail .contentMismatch
      else do
        let postimage ← inspectPresent path
        pure (receiptSingle applyId path postimage (some contentHash) (some tomb))

/-! ## Directories and deletions -/

def applyMkdir (applyId : ApplyId) (path : WorkspacePath) (metadata : WorkspaceFileMetadata)
    (expected : ExpectedEntry) : WriterM ApplyReceipt := do
  openParent path true
  if !(← matchesExpected path expected true) then fail .contentMismatch
  else do
    match expected with
    | .missing => write (·.create path .directory [])
    | .present .. =>
      if (← get).disk.kindAt path ≠ some .directory then fail .contentMismatch else pure ()
    setEntryMetadata path .directory metadata
    let postimage ← inspectPresent path
    pure (receiptSingle applyId path postimage none none)

def applyDelete (applyId : ApplyId) (path : WorkspacePath) (expected : ExpectedEntry) : WriterM ApplyReceipt := do
  let preimage ← inspectPresent path
  if !(← matchesExpected path expected true) then fail .contentMismatch
  else do
    let tomb ← look fun _ => siblingPath path (tombName applyId)
    if ((← get).disk.node tomb).isSome then fail .contentMismatch
    else do
      renameNoreplace path tomb (.io "stage workspace delete")
      if !(← matchesSnapshot tomb preimage expected.contentHash expected.directorySnapshot) then do
        restoreIfMissing tomb path
        fail .contentMismatch
      else pure ⟨applyId, [path], [none], [none], some tomb.chars⟩

/-! ## Renames -/

structure RenamePaths where
  source : WorkspacePath
  target : WorkspacePath
  sourceBackup : WorkspacePath
  targetBackup : WorkspacePath

def restoreSourceIfMissing (paths : RenamePaths) (moved : WorkspacePath) (kind : WorkspaceEntryKind)
    (metadata : WorkspaceFileMetadata) : WriterM Unit := do
  let disk := (← get).disk
  if (disk.node moved).isSome ∧ (disk.node paths.source).isNone then
    attempt do
      renameNoreplace moved paths.source (.io "rename")
      attempt (setEntryMetadata paths.source kind metadata)
  else pure ()

/-- Undoes a rename whose source is at `moved`, and fails. -/
def undoRename {α : Type} (paths : RenamePaths) (moved : WorkspacePath) (kind : WorkspaceEntryKind)
    (metadata : WorkspaceFileMetadata) (error : FsError) : WriterM α := do
  restoreSourceIfMissing paths moved kind metadata
  restoreIfMissing paths.targetBackup paths.target
  fail error

/-- The preimage of one end of a rename: at its place, or under its working name when it is staged. -/
def renamePreimage (path backup : WorkspacePath) (staged : Bool) (expected : ExpectedEntry) :
    WriterM (Option ObservedEntry) := do
  if staged then
    if ← matchesStagedExpected backup expected then do
      let observed ← inspectPresent backup
      pure (some observed)
    else fail .contentMismatch
  else if ← matchesExpected path expected true then look (·.inspect path)
  else fail .contentMismatch

def stageTarget (paths : RenamePaths) (staged : Bool) (expected : ExpectedEntry) (preimage : Option ObservedEntry) :
    WriterM Unit := do
  match preimage with
  | none => pure ()
  | some preimage => do
    if staged then pure ()
    else do
      renameNoreplace paths.target paths.targetBackup .contentMismatch
      if ← matchesSnapshot paths.targetBackup preimage expected.contentHash expected.directorySnapshot then pure ()
      else do
        restoreIfMissing paths.targetBackup paths.target
        fail .contentMismatch
    let baseline ← inspectPresent paths.targetBackup
    if ← matchesSnapshot paths.targetBackup baseline expected.contentHash expected.directorySnapshot then pure ()
    else do
      restoreIfMissing paths.targetBackup paths.target
      fail .contentMismatch

def stageSource (paths : RenamePaths) (staged : Bool) (kind : WorkspaceEntryKind) (expected : ExpectedEntry)
    (preimage : ObservedEntry) : WriterM Unit := do
  if staged then pure ()
  else do
    if !(← attempted (renameNoreplace paths.source paths.sourceBackup .contentMismatch)) then do
      restoreIfMissing paths.targetBackup paths.target
      fail (.io "stage workspace rename source")
    else if ← matchesSnapshot paths.sourceBackup preimage expected.contentHash expected.directorySnapshot then pure ()
    else undoRename paths paths.sourceBackup kind preimage.metadata .contentMismatch

/-- The tomb of a replaced target is removed at once, and left to `finalize` if that fails. -/
def cleanUpTarget (paths : RenamePaths) (replaced : Bool) : WriterM (Option WorkspacePath) := do
  if !replaced then pure none
  else if ((← get).disk.node paths.targetBackup).isNone then pure (some paths.targetBackup)
  else do
    removeEntry paths.targetBackup
    pure none

def resumeRename (applyId : ApplyId) (paths : RenamePaths) (kind : WorkspaceEntryKind)
    (contentHash : Option WorkspaceContentHash) (metadata : WorkspaceFileMetadata) : WriterM ApplyReceipt := do
  setEntryMetadata paths.target kind metadata
  if !(← matchesLive paths.target kind contentHash metadata) then fail .contentMismatch
  else do
    let cleanup ← cleanUpTarget paths ((← get).disk.node paths.targetBackup).isSome
    let observed ← look (·.inspect paths.target)
    pure ⟨applyId, [paths.source, paths.target], [none, observed], [none, contentHash], cleanup.map (·.chars)⟩

def commitRename (applyId : ApplyId) (paths : RenamePaths) (kind : WorkspaceEntryKind)
    (contentHash : Option WorkspaceContentHash) (metadata : WorkspaceFileMetadata) (preimage : ObservedEntry)
    (replaced : Bool) : WriterM ApplyReceipt := do
  setEntryMetadata paths.sourceBackup kind metadata
  if !(← matchesLive paths.sourceBackup kind contentHash metadata) then
    undoRename paths paths.sourceBackup kind preimage.metadata .contentMismatch
  else if !(← attempted (renameNoreplace paths.sourceBackup paths.target .contentMismatch)) then
    undoRename paths paths.sourceBackup kind preimage.metadata (.io "rename workspace entry")
  else if !(← matchesLive paths.target kind contentHash metadata) then
    undoRename paths paths.target kind preimage.metadata .contentMismatch
  else do
    let cleanup ← cleanUpTarget paths replaced
    let observed ← inspectPresent paths.target
    pure ⟨applyId, [paths.source, paths.target], [none, some observed], [none, contentHash], cleanup.map (·.chars)⟩

def renameCommitted (paths : RenamePaths) (kind : WorkspaceEntryKind) (contentHash : Option WorkspaceContentHash)
    (expected : ExpectedEntry) : WriterM Bool := do
  match ← look (·.inspect paths.target) with
  | none => pure false
  | some observed =>
    let disk := (← get).disk
    pure (observed.kind = kind && matchesDirectorySnapshot paths.target observed expected.directorySnapshot disk &&
      matchesHash observed paths.target contentHash disk)

def applyRename (applyId : ApplyId) (path newPath : WorkspacePath) (contentHash : Option WorkspaceContentHash)
    (metadata : WorkspaceFileMetadata) (sourceExpected targetExpected : ExpectedEntry) : WriterM ApplyReceipt := do
  if path = newPath then fail .contentMismatch
  else do
    openParent path false
    openParent newPath true
    let sourceBackup ← look fun _ => siblingPath path (renameName applyId)
    let targetBackup ← look fun _ => siblingPath newPath (tombName applyId)
    let paths : RenamePaths := ⟨path, newPath, sourceBackup, targetBackup⟩
    let disk := (← get).disk
    let sourceStaged := (disk.node sourceBackup).isSome
    let targetStaged := (disk.node targetBackup).isSome
    match sourceExpected.kind with
    | none => fail .contentMismatch
    | some kind => do
      let committed ← if !sourceStaged && (disk.node path).isNone then
          renameCommitted paths kind contentHash sourceExpected
        else pure false
      if committed then resumeRename applyId paths kind contentHash metadata
      else do
        match ← renamePreimage path sourceBackup sourceStaged sourceExpected with
        | none => fail .contentMismatch
        | some sourcePreimage => do
          let targetPreimage ← renamePreimage newPath targetBackup targetStaged targetExpected
          stageTarget paths targetStaged targetExpected targetPreimage
          stageSource paths sourceStaged kind sourceExpected sourcePreimage
          commitRename applyId paths kind contentHash metadata sourcePreimage targetPreimage.isSome

/-! ## The writer -/

/-- Where neither the outcome nor what comes before it is on the disk. -/
def FsOperation.resume (applyId : ApplyId) : FsOperation → WriterM ApplyReceipt
  | .upsertFile path contentHash metadata expected => resumeUpsert applyId path contentHash metadata expected .file
  | .upsertSymlink path contentHash metadata expected =>
    resumeUpsert applyId path contentHash metadata expected .symlink
  | .mkdir .. | .delete .. => fail .contentMismatch
  | .rename path newPath contentHash metadata sourceExpected targetExpected =>
    applyRename applyId path newPath contentHash metadata sourceExpected targetExpected

def FsOperation.perform (applyId : ApplyId) : FsOperation → WriterM ApplyReceipt
  | .upsertFile path contentHash metadata expected => applyFile applyId path contentHash metadata expected
  | .mkdir path metadata expected => applyMkdir applyId path metadata expected
  | .upsertSymlink path contentHash metadata expected => applySymlink applyId path contentHash metadata expected
  | .delete path expected => applyDelete applyId path expected
  | .rename path newPath contentHash metadata sourceExpected targetExpected =>
    applyRename applyId path newPath contentHash metadata sourceExpected targetExpected

def apply (applyId : ApplyId) (operation : FsOperation) : WriterM ApplyReceipt := do
  if ← operation.matchesPreimage then operation.perform applyId
  else if ← operation.matchesPostimage applyId then operation.receiptForPostimage applyId
  else operation.resume applyId

/-- Working names in the directory of a path, other than those the operation itself uses. -/
def unrelatedArtifact (applyId : ApplyId) (temporary tomb rename : Bool) (path : WorkspacePath) (disk : Disk) : Bool :=
  parentOpens path disk && disk.paths.any fun other =>
    let name := (other.chars.splitOn '/').getLastD []
    WorkspacePath.parent other = WorkspacePath.parent path &&
      [".fns-tmp-".toList, ".fns-delete-".toList, ".fns-rename-".toList].any (·.isPrefixOf name) &&
      !(temporary && name = temporaryName applyId || tomb && name = tombName applyId ||
        rename && name = renameName applyId)

def FsOperation.hasUnrelatedArtifact (applyId : ApplyId) (disk : Disk) : FsOperation → Bool
  | .upsertFile path _ _ expected | .upsertSymlink path _ _ expected =>
    unrelatedArtifact applyId true (expected ≠ .missing) false path disk
  | .mkdir path _ _ => unrelatedArtifact applyId false false false path disk
  | .delete path _ => unrelatedArtifact applyId false true false path disk
  | .rename path newPath _ _ _ targetExpected =>
    unrelatedArtifact applyId false (targetExpected ≠ .missing) true path disk ||
      unrelatedArtifact applyId false (targetExpected ≠ .missing) true newPath disk

def observe (applyId : ApplyId) (operation : FsOperation) : WriterM ApplyObservation := do
  if operation.hasUnrelatedArtifact applyId (← get).disk then pure .diverged
  else if ← operation.matchesPreimage then pure .preimage
  else if ← operation.matchesPostimage applyId then pure .postimage
  else pure .diverged

def finalize (receipt : ApplyReceipt) : WriterM Unit := do
  match receipt.cleanupName with
  | none => pure ()
  | some name =>
    match WorkspacePath.parse name with
    | .error _ => fail .pathEscape
    | .ok path =>
      if (path.chars.splitOn '/').getLastD [] ≠ tombName receipt.applyId then fail .pathEscape
      else removeIfExists path

/-- Puts a working name back to its place, or removes it if the place is taken. -/
def restoreOrRemove (backup destination : WorkspacePath) (error : FsError) : WriterM Unit := do
  let disk := (← get).disk
  if (disk.node backup).isNone then pure ()
  else if (disk.node destination).isNone then renameNoreplace backup destination error
  else removeIfExists backup

def abandon (applyId : ApplyId) : FsOperation → WriterM Unit
  | .upsertFile path _ _ _ | .upsertSymlink path _ _ _ => do
    openParent path true
    let temporary ← look fun _ => siblingPath path (temporaryName applyId)
    let tomb ← look fun _ => siblingPath path (tombName applyId)
    removeIfExists temporary
    restoreOrRemove tomb path (.io "restore abandoned workspace apply")
  | .delete path _ => do
    openParent path true
    let tomb ← look fun _ => siblingPath path (tombName applyId)
    restoreOrRemove tomb path (.io "restore abandoned workspace delete")
  | .rename path newPath _ _ _ _ => do
    openParent path true
    openParent newPath true
    let sourceBackup ← look fun _ => siblingPath path (renameName applyId)
    let targetBackup ← look fun _ => siblingPath newPath (tombName applyId)
    restoreOrRemove sourceBackup path (.io "restore abandoned rename source")
    restoreOrRemove targetBackup newPath (.io "restore abandoned rename target")
  | .mkdir .. => pure ()

/-! ## The workspace of an engine -/

def WriterM.uninterrupted {α : Type} (run : WriterM α) (disk : Disk) : Except FsError α × Disk :=
  match run ⟨disk, none⟩ with
  | .ok a writing => (.ok a, writing.disk)
  | .error (.failed error) writing => (.error error, writing.disk)
  | .error .crashed writing => (.error (.io "crash"), writing.disk)

instance : Filesystem Disk where
  inspect := Disk.inspect
  directorySnapshot := Disk.directorySnapshot
  scan disk := .ok disk.scan
  included _ path _ := Disk.included path
  contentAvailable disk hash size := .ok (disk.contentAvailable hash size)
  stageWorkspaceEntry := Disk.stageWorkspaceEntry
  importBlob := Disk.importBlob
  apply disk applyId operation := (apply applyId operation).uninterrupted disk
  observe disk applyId operation := ((observe applyId operation).uninterrupted disk).1
  finalize disk receipt := (finalize receipt).uninterrupted disk
  abandon disk applyId operation := (abandon applyId operation).uninterrupted disk

instance : LawfulFilesystem Disk where
  inspect_path disk path entry h := by
    simp only [Filesystem.inspect, Disk.inspect] at h
    split at h
    · cases h
    · simp only [Except.ok.injEq, Option.map_eq_some_iff] at h
      obtain ⟨node, -, rfl⟩ := h
      rfl

end Lumio.Fs
