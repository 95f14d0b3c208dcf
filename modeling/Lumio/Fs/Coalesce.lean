import Lumio.Fs.Rules
import Lumio.Lib.Table
import Lumio.Lib.Prog
import Mathlib.Data.List.MinMax
import Mathlib.Data.List.Destutter
import Mathlib.Data.Finset.Card

/-!
# Coalescing watcher events

Raw events are held back in four buffers until they have been quiet for a while, and flushed as changes: a
path by its latest events, two halves of a rename as one. A bound on the paths held keeps the buffers
small; beyond it everything is dropped and a rescan is asked for.
-/

namespace Lumio.Fs

open Lumio.Protocol Prog

abbrev Instant := Nat

inductive NativeWatchKind where
  | create
  | modify
  | remove
  | renameFrom
  | renameTo
  | renameBoth
deriving DecidableEq

/-- An event of the operating system. A path that is no UTF-8 text is `none`. -/
structure NormalizedWatchEvent where
  kind : NativeWatchKind
  paths : List (Option (List Char))
  renameCookie : Option Nat
  observedAt : Instant

inductive CoalescePush where
  | accepted
  | rescanRequired
deriving DecidableEq

structure EntrySignature where
  kind : WorkspaceEntryKind
  contentHash : Option WorkspaceContentHash
  size : Nat
deriving DecidableEq

structure PriorEntryLookup where
  signature : WorkspacePath → Option EntrySignature
  observed : WorkspacePath → Option ObservedEntry

inductive PendingKind where
  | create
  | modify
  | remove
deriving DecidableEq

structure PendingPath where
  kind : PendingKind
  lastSeen : Instant
deriving DecidableEq

structure RenameHalf where
  path : WorkspacePath
  kind : NativeWatchKind
  observedAt : Instant
deriving DecidableEq

structure PendingRename where
  source : WorkspacePath
  target : WorkspacePath
  observedAt : Instant
deriving DecidableEq

inductive PathKey where
  | accepted (path : WorkspacePath)
  | ignored

structure Suppression where
  missing : Bool
  kind : WorkspaceEntryKind
  size : Nat
  executable : Bool
  fingerprint : FileFingerprint
  hash : Option WorkspaceContentHash
  expiresAt : Instant

structure EventCoalescer where
  debounce : Nat
  rename : Nat
  capacity : Nat
  pending : Table WorkspacePath PendingPath
  occupied : Finset WorkspacePath
  cookieHalves : Table Nat RenameHalf
  unmatchedRenames : List RenameHalf
  directRenames : List PendingRename
  suppressions : Table WorkspacePath Suppression
  rescanRequired : Bool
  rules : SyncRules

def EventCoalescer.withRules (debounce rename capacity : Nat) (rules : SyncRules) : EventCoalescer where
  debounce := debounce
  rename := rename
  capacity := capacity
  pending := ∅
  occupied := ∅
  cookieHalves := ∅
  unmatchedRenames := []
  directRenames := []
  suppressions := ∅
  rescanRequired := false
  rules := rules

abbrev CoalesceM := EStateM FsError EventCoalescer

def ready (now seen : Instant) (window : Nat) : Bool := seen ≤ now && window ≤ now - seen

def withinWindow (left right : Instant) (window : Nat) : Bool :=
  if right ≤ left then left - right ≤ window else right - left ≤ window

def isDescendant (path parent : WorkspacePath) : Bool := path = parent || pathIsDescendant path parent

namespace EventCoalescer

/-! ## Receiving events -/

/-- A path the coalescer cannot read is `none`. -/
def pathKey (self : EventCoalescer) (path : Option (List Char)) : Option PathKey :=
  match path.map WorkspacePath.parse with
  | some (.ok path) => some (if self.rules.acceptsWatched path then .accepted path else .ignored)
  | _ => none

def pruneSuppressions (now : Instant) : CoalesceM Unit :=
  modify fun self => { self with suppressions := self.suppressions.keep fun _ suppression => now < suppression.expiresAt }

def clearPending : CoalesceM Unit :=
  modify fun self => { self with
    pending := ∅
    occupied := ∅
    cookieHalves := ∅
    unmatchedRenames := []
    directRenames := [] }

def requireRescan : CoalesceM CoalescePush := do
  clearPending
  modify fun self => { self with rescanRequired := true }
  pure .rescanRequired

def reservePaths (paths : List WorkspacePath) : CoalesceM Bool := do
  let self ← get
  let additional := (paths.filter (· ∉ self.occupied)).length
  if self.capacity < self.occupied.card + additional + self.suppressions.entries.length then pure false
  else do
    set { self with occupied := self.occupied ∪ paths.toFinset }
    pure true

def hasRenameSlot (self : EventCoalescer) : Bool :=
  self.suppressions.entries.length + self.pending.entries.length + self.cookieHalves.entries.length +
    self.unmatchedRenames.length + self.directRenames.length < self.capacity

def PendingKind.ofWatch : NativeWatchKind → Option PendingKind
  | .create => some .create
  | .modify => some .modify
  | .remove => some .remove
  | .renameFrom | .renameTo | .renameBoth => none

/-- What a path waits as after another event. A path created and removed again is forgotten. -/
def PendingKind.fold : PendingKind → PendingKind → Option PendingKind
  | .create, .modify => some .create
  | .create, .remove => none
  | .remove, .create => some .modify
  | .remove, .modify => some .modify
  | .modify, .remove => some .remove
  | previous, _ => some previous

def recordPath (path : WorkspacePath) (kind : NativeWatchKind) (observedAt : Instant) : CoalesceM Unit := do
  let self ← get
  match PendingKind.ofWatch kind with
  | none => pure ()
  | some next =>
    match self.pending.lookup path with
    | none => set { self with pending := self.pending.insert path ⟨next, observedAt⟩ }
    | some previous =>
      match PendingKind.fold previous.kind next with
      | none => set { self with occupied := self.occupied.erase path, pending := self.pending.erase path }
      | some kind => set { self with pending := self.pending.insert path ⟨kind, observedAt⟩ }

def reserveAndRecord (path : WorkspacePath) (kind : NativeWatchKind) (observedAt : Instant) :
    CoalesceM CoalescePush := do
  if ← reservePaths [path] then do
    recordPath path kind observedAt
    pure .accepted
  else requireRescan

def pushUnmatched (half : RenameHalf) : CoalesceM Bool := do
  let self ← get
  match self.unmatchedRenames.findIdx? fun previous => previous.path = half.path && previous.kind = half.kind with
  | some index => do
    set { self with unmatchedRenames := self.unmatchedRenames.modify index fun previous =>
      { previous with observedAt := max previous.observedAt half.observedAt } }
    pure true
  | none =>
    if self.hasRenameSlot then do
      set { self with unmatchedRenames := self.unmatchedRenames ++ [half] }
      pure true
    else pure false

def pairOf (previous half : RenameHalf) : PendingRename :=
  if previous.kind = .renameFrom then ⟨previous.path, half.path, max previous.observedAt half.observedAt⟩
  else ⟨half.path, previous.path, max previous.observedAt half.observedAt⟩

def pushCookieHalf (cookie : Nat) (half : RenameHalf) : CoalesceM CoalescePush := do
  let self ← get
  match self.cookieHalves.lookup cookie with
  | none =>
    if self.hasRenameSlot then do
      set { self with cookieHalves := self.cookieHalves.insert cookie half }
      pure .accepted
    else requireRescan
  | some previous =>
    if previous.kind = half.kind || !withinWindow previous.observedAt half.observedAt self.rename then do
      set { self with cookieHalves := self.cookieHalves.erase cookie }
      let pushed ← pushUnmatched previous
      let self ← get
      if pushed && self.hasRenameSlot then do
        set { self with cookieHalves := self.cookieHalves.insert cookie half }
        pure .accepted
      else requireRescan
    else do
      set { self with
        cookieHalves := self.cookieHalves.erase cookie
        directRenames := self.directRenames ++ [pairOf previous half] }
      pure .accepted

def pushRenameBoth (event : NormalizedWatchEvent) : CoalesceM CoalescePush := do
  let self ← get
  match event.paths with
  | [first, second] =>
    match self.pathKey first, self.pathKey second with
    | some (.accepted source), some (.accepted target) => do
      if ← reservePaths [source, target] then do
        let self ← get
        if self.hasRenameSlot then do
          let rename : PendingRename := ⟨source, target, event.observedAt⟩
          set { self with directRenames := self.directRenames ++ [rename] }
          pure .accepted
        else requireRescan
      else requireRescan
    | some (.accepted path), some .ignored => reserveAndRecord path .remove event.observedAt
    | some .ignored, some (.accepted path) => reserveAndRecord path .create event.observedAt
    | some .ignored, some .ignored => pure .accepted
    | _, _ => requireRescan
  | _ => requireRescan

def pushRenameHalf (event : NormalizedWatchEvent) : CoalesceM CoalescePush := do
  let self ← get
  match event.paths with
  | [path] =>
    match self.pathKey path with
    | none => requireRescan
    | some .ignored => pure .accepted
    | some (.accepted path) => do
      if ← reservePaths [path] then
        let half : RenameHalf := ⟨path, event.kind, event.observedAt⟩
        match event.renameCookie with
        | some cookie => pushCookieHalf cookie half
        | none => do
          if ← pushUnmatched half then pure .accepted else requireRescan
      else requireRescan
  | _ => requireRescan

def pushPaths (kind : NativeWatchKind) (observedAt : Instant) : List (Option (List Char)) → CoalesceM CoalescePush
  | [] => pure .accepted
  | path :: paths => do
    let self ← get
    match self.pathKey path with
    | none => requireRescan
    | some .ignored => pushPaths kind observedAt paths
    | some (.accepted path) => do
      match ← reserveAndRecord path kind observedAt with
      | .rescanRequired => pure .rescanRequired
      | .accepted => pushPaths kind observedAt paths

def push (clock : Instant) (event : NormalizedWatchEvent) : CoalesceM CoalescePush := do
  pruneSuppressions clock
  let self ← get
  if self.rescanRequired then pure .rescanRequired
  else
    match event.kind with
    | .renameBoth => pushRenameBoth event
    | .renameFrom | .renameTo => pushRenameHalf event
    | .create | .modify | .remove => pushPaths event.kind event.observedAt event.paths

/-! ## Flushing -/

abbrev Changes := Table WorkspacePath FsChange

def isSuppressed (path : WorkspacePath) (now : Instant) (prior : PriorEntryLookup) : CoalesceM Bool := do
  let self ← get
  match self.suppressions.lookup path with
  | none => pure false
  | some suppression =>
    if suppression.expiresAt ≤ now then do
      set { self with suppressions := self.suppressions.erase path }
      pure false
    else if suppression.missing then pure (prior.signature path).isNone
    else
      match prior.signature path with
      | none => pure false
      | some current =>
        if current.kind = suppression.kind && current.size = suppression.size &&
            (suppression.hash.isNone || current.contentHash = suppression.hash) then
          match prior.observed path with
          | none => pure false
          | some observed =>
            pure (observed.kind = suppression.kind && observed.metadata.size = suppression.size &&
              observed.metadata.executable = suppression.executable &&
              observed.fingerprint = suppression.fingerprint)
        else pure false

def release (paths : List WorkspacePath) : CoalesceM Unit :=
  modify fun self => { self with occupied := self.occupied \ paths.toFinset }

def PendingKind.change (path : WorkspacePath) : PendingKind → FsChange
  | .create => .create path
  | .modify => .update path
  | .remove => .delete path

def flushPath (now : Instant) (prior : PriorEntryLookup) (changes : Changes) (path : WorkspacePath) :
    CoalesceM Changes := do
  let self ← get
  match self.pending.lookup path with
  | none => pure changes
  | some pending => do
    set { self with pending := self.pending.erase path }
    release [path]
    if ← isSuppressed path now prior then pure changes
    else pure (changes.insert path (PendingKind.change path pending.kind))

def readyPaths (self : EventCoalescer) (now : Instant) : List WorkspacePath :=
  (self.pending.keys.filter fun path => (self.pending.lookup path).any fun pending =>
    ready now pending.lastSeen self.debounce).insertionSort fun a b => a.le b

def readyHalves (self : EventCoalescer) (now : Instant) : List RenameHalf :=
  (self.cookieHalves.values ++ self.unmatchedRenames).filter fun half => ready now half.observedAt self.rename

/-- Takes the halves out whose other half has not come in time. -/
def takeHalves (now : Instant) : CoalesceM (List RenameHalf) := do
  let self ← get
  set { self with
    cookieHalves := self.cookieHalves.keep fun _ half => !ready now half.observedAt self.rename
    unmatchedRenames := self.unmatchedRenames.filter fun half => !ready now half.observedAt self.rename }
  pure (self.readyHalves now)

/-- The halves that are each other's only candidates by content, as pairs of positions. -/
def pairHalves (window : Nat) (prior : PriorEntryLookup) (sources targets : List RenameHalf) : List (Nat × Nat) :=
  sources.zipIdx.filterMap fun (source, sourceIndex) =>
    match prior.signature source.path with
    | none => none
    | some signature =>
      match targets.zipIdx.filter fun (target, _) => prior.signature target.path = some signature &&
          withinWindow source.observedAt target.observedAt window with
      | [(_, targetIndex)] =>
        if (sources.filter fun other => prior.signature other.path = some signature).length = 1 then
          some (sourceIndex, targetIndex)
        else none
      | _ => none

/-- The second path is looked at only if the first is suppressed. -/
def bothSuppressed (source target : WorkspacePath) (now : Instant) (prior : PriorEntryLookup) : CoalesceM Bool := do
  if ← isSuppressed source now prior then isSuppressed target now prior else pure false

/-- Emits a rename, which stands for all changes at and below its ends. -/
def flushRename (now : Instant) (prior : PriorEntryLookup) (released : List WorkspacePath) (changes : Changes)
    (source target : WorkspacePath) : CoalesceM Changes := do
  release released
  let kept := changes.keep fun path _ => !isDescendant path source && !isDescendant path target
  if ← bothSuppressed source target now prior then pure kept else pure (kept.insert source (.rename source target))

def flushHalf (now : Instant) (prior : PriorEntryLookup) (change : WorkspacePath → FsChange) (changes : Changes)
    (half : RenameHalf) : CoalesceM Changes := do
  release [half.path]
  if ← isSuppressed half.path now prior then pure changes else pure (changes.insert half.path (change half.path))

/-- The halves whose positions are not among the paired ones. -/
def unpaired (halves : List RenameHalf) (paired : List Nat) : List RenameHalf :=
  (halves.zipIdx.filter fun (_, index) => !paired.contains index).map (·.1)

def flushPair (now : Instant) (prior : PriorEntryLookup) (sources targets : List RenameHalf) (changes : Changes)
    (pair : Nat × Nat) : CoalesceM Changes :=
  match sources[pair.1]?, targets[pair.2]? with
  | some source, some target => flushRename now prior [source.path, target.path] changes source.path target.path
  | _, _ => pure changes

def flushTaken (now : Instant) (prior : PriorEntryLookup) (window : Nat) (changes : Changes)
    (halves : List RenameHalf) : CoalesceM Changes := do
  let sources := halves.filter (·.kind = .renameFrom)
  let targets := halves.filter (·.kind = .renameTo)
  let pairs := pairHalves window prior sources targets
  let changes ← pairs.foldlM (flushPair now prior sources targets) changes
  let changes ← (unpaired sources (pairs.map (·.1))).foldlM (flushHalf now prior .delete) changes
  (unpaired targets (pairs.map (·.2))).foldlM (flushHalf now prior .create) changes

def flushHalves (now : Instant) (prior : PriorEntryLookup) (changes : Changes) : CoalesceM Changes := do
  let self ← get
  let halves ← takeHalves now
  flushTaken now prior self.rename changes halves

/-- The first rename whose target another one takes further. -/
def chainedPair (renames : List (WorkspacePath × WorkspacePath)) : Option (Nat × Nat) :=
  (List.range renames.length).findSome? fun left =>
    (List.range renames.length).findSome? fun right =>
      if left ≠ right && (renames[left]?).map (·.2) = (renames[right]?).map (·.1) then some (left, right) else none

/-- Joins chained renames until none is left. Each round drops a rename, so `fuel` rounds are enough for as
many renames. -/
def joinChains : Nat → List (WorkspacePath × WorkspacePath) → List (WorkspacePath × WorkspacePath)
  | 0, renames => renames
  | fuel + 1, renames =>
    match chainedPair renames with
    | none => renames
    | some (left, right) =>
      match renames[left]?, renames[right]? with
      | some (source, _), some (_, target) => joinChains fuel ((renames.set left (source, target)).eraseIdx right)
      | _, _ => renames

def collapseRenames (renames : List (WorkspacePath × WorkspacePath)) : List (WorkspacePath × WorkspacePath) :=
  let sorted := (joinChains renames.length renames).insertionSort fun a b =>
    if a.1 = b.1 then a.2.le b.2 else a.1.le b.1
  (sorted.destutter (· ≠ ·)).filter fun (source, target) => source ≠ target

def readyRenames (self : EventCoalescer) (now : Instant) : List (WorkspacePath × WorkspacePath) :=
  (self.directRenames.filter fun rename => ready now rename.observedAt self.debounce).map
    fun rename => (rename.source, rename.target)

def endsOf (renames : List (WorkspacePath × WorkspacePath)) : List WorkspacePath :=
  renames.map (·.1) ++ renames.map (·.2)

/-- Emits a collapsed rename. The ends of all the renames it may stand for are released with it. -/
def flushCollapsed (now : Instant) (prior : PriorEntryLookup) (raw : List WorkspacePath) (changes : Changes)
    (rename : WorkspacePath × WorkspacePath) : CoalesceM Changes :=
  flushRename now prior (rename.1 :: rename.2 :: raw) changes rename.1 rename.2

def flushDirect (now : Instant) (prior : PriorEntryLookup) (changes : Changes) : CoalesceM Changes := do
  let self ← get
  let renames := self.readyRenames now
  set { self with directRenames := self.directRenames.filter fun rename => !ready now rename.observedAt self.debounce }
  (collapseRenames renames).foldlM (flushCollapsed now prior (endsOf renames)) changes

def flushBuffers (now : Instant) (prior : PriorEntryLookup) : CoalesceM Changes := do
  let self ← get
  let changes ← (self.readyPaths now).foldlM (flushPath now prior) ∅
  let changes ← flushHalves now prior changes
  flushDirect now prior changes

def flushReady (now : Instant) (prior : PriorEntryLookup) : CoalesceM (List FsChange) := do
  pruneSuppressions now
  let self ← get
  if self.rescanRequired then do
    clearPending
    modify fun self => { self with rescanRequired := false }
    pure [.rescanRequired]
  else do
    let changes ← flushBuffers now prior
    pure ((changes.keys.insertionSort fun a b => a.le b).filterMap changes.lookup)

/-! ## Suppressing the echo of an applied change -/

def syntheticSuppressionFingerprint : FileFingerprint := ⟨0, 0, 0, 0⟩

def oldestSuppression (self : EventCoalescer) : Option WorkspacePath :=
  (self.suppressions.keys.insertionSort fun a b => a.le b).argmin fun path =>
    (self.suppressions.lookup path).elim 0 (·.expiresAt)

def suppressionOf (observed : Option ObservedEntry) (hash : Option WorkspaceContentHash) (expiresAt : Instant) :
    Suppression where
  missing := observed.isNone
  kind := observed.elim .tombstone (·.kind)
  size := observed.elim 0 (·.metadata.size)
  executable := observed.any (·.metadata.executable)
  fingerprint := observed.elim syntheticSuppressionFingerprint (·.fingerprint)
  hash := hash
  expiresAt := expiresAt

def suppressPath (path : WorkspacePath) (suppression : Suppression) : CoalesceM Unit := do
  let self ← get
  let alreadyTracked := (self.suppressions.lookup path).isSome
  if !alreadyTracked && self.capacity ≤ self.occupied.card + self.suppressions.entries.length then
    match self.oldestSuppression with
    | none => pure ()
    | some oldest => set { self with suppressions := (self.suppressions.erase oldest).insert path suppression }
  else set { self with suppressions := self.suppressions.insert path suppression }

def suppress (clock : Instant) (receipt : ApplyReceipt) : CoalesceM Unit := do
  pruneSuppressions clock
  let self ← get
  forM receipt.touched.zipIdx fun (path, index) =>
    suppressPath path (suppressionOf (receipt.postimages[index]?).join (receipt.postimageHashes[index]?).join
      (clock + self.rename))

end EventCoalescer

end Lumio.Fs
