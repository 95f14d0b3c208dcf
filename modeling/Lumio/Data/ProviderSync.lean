import Lumio.Data.Catalog
import Lumio.Data.GlobalState
import Lumio.Lib.Commit

/-!
# Provider sync

A sync rewrites rollout files, then updates databases one after the other, repairs their catalogues, and writes the
global state file. When a step after the rollout files fails, the rollout files are put back; what has been committed
to databases and to the state file stays.
-/

namespace Lumio.Data

open Proxy (Value SerdeJson)

structure Home where
  rollouts : Text → Option Text
  databases : Text → Option Database
  globalState : Option Text
  globalStateBak : Option Text

/-- How a write of a text ends. A file that is locked is left alone; another failure may leave anything but the text. -/
inductive WriteOutcome (text : Text) where
  | ok
  | locked
  | failed (left : Text) (incomplete : left ≠ text)

def WriteOutcome.isOk {text : Text} : WriteOutcome text → Bool
  | ok => true
  | _ => false

def WriteOutcome.isFailed {text : Text} : WriteOutcome text → Bool
  | failed .. => true
  | _ => false

structure Faults where
  /-- Up to the first read: the home directory, the provider or the lock. -/
  start : Bool
  read : Text → Option IoFault
  /-- Reading databases and the state file before the first write. -/
  count : Bool
  backup : Bool
  rollout : Text → (text : Text) → WriteOutcome text
  restore : Text → (text : Text) → WriteOutcome text
  update : Text → Bool
  collect : Bool
  repair : Text → Bool
  loadState : Bool
  state : (text : Text) → WriteOutcome text
  stateBak : (text : Text) → WriteOutcome text
  prune : Bool

/-- Where files and databases are, and the clock. -/
structure Setting where
  targetProvider : Text
  rolloutFiles : List Text
  databasePaths : List Text
  print : Value → Text
  now : Int
  files_nodup : rolloutFiles.Nodup
  paths_nodup : databasePaths.Nodup

inductive ProviderSyncStatus where
  | disabled
  | skipped
  | synced
deriving DecidableEq

/-! ## Rollout files -/

/-- Writes the changes in order. A locked file is passed over; another failure ends the sync at once. -/
def applySessionChanges (write : Text → (text : Text) → WriteOutcome text) :
    List SessionChange → (Text → Option Text) → (Text → Option Text) × Option (List SessionChange)
  | [], files => (files, some [])
  | change :: changes, files =>
    match write change.path change.nextText with
    | .ok =>
      let (files, applied) :=
        applySessionChanges write changes (Function.update files change.path (some change.nextText))
      (files, applied.map (change :: ·))
    | .locked => applySessionChanges write changes files
    | .failed left _ => (Function.update files change.path (some left), none)

def restoreSessionChanges (write : Text → (text : Text) → WriteOutcome text) :
    List SessionChange → (Text → Option Text) → (Text → Option Text)
  | [], files => files
  | change :: changes, files =>
    match write change.path change.originalText with
    | .ok => restoreSessionChanges write changes (Function.update files change.path (some change.originalText))
    | .locked => files
    | .failed left _ => Function.update files change.path (some left)

/-! ## Databases and the state file -/

section Stores

variable (setting : Setting) (faults : Faults)

def updateStep (facts : ThreadFacts) (path : Text) : Option Database → Option (Option Database)
  | none => some none
  | some db => if faults.update path then none else some (some (applySqliteUpdate facts db))

def repairStep (threads : List CatalogRepairThread) (path : Text) : Option Database → Option (Option Database)
  | none => some none
  | some db => if faults.repair path then none else (repairDatabase threads setting.now db).map some

def applySqliteUpdateForPaths (facts : ThreadFacts) (databases : Text → Option Database) :
    (Text → Option Database) × Bool :=
  commitEach (updateStep faults facts) setting.databasePaths databases

def repairThreads (databases : Text → Option Database) : Option (List CatalogRepairThread) :=
  (collectCatalogRepairThreads setting.targetProvider (setting.databasePaths.filterMap databases)).map Table.values

def repairMissingLocalThreadCatalogRows (databases : Text → Option Database) : (Text → Option Database) × Bool :=
  if faults.collect then (databases, false)
  else
    match repairThreads setting databases with
    | none => (databases, false)
    | some [] => (databases, true)
    | some threads => commitEach (repairStep setting faults threads) setting.databasePaths databases

variable [SerdeJson]

def applyGlobalStateUpdate (home : Home) : Home × Bool :=
  match if faults.loadState then none else loadGlobalState home.globalState with
  | none => (home, false)
  | some state =>
    match updatedGlobalState setting.print state with
    | none => (home, true)
    | some text =>
      match faults.state text with
      | .locked => (home, false)
      | .failed left _ => ({ home with globalState := some left }, false)
      | .ok =>
        match faults.stateBak text with
        | .ok => ({ home with globalState := some text, globalStateBak := some text }, true)
        | .locked => ({ home with globalState := some text }, false)
        | .failed left _ => ({ home with globalState := some text, globalStateBak := some left }, false)

def applyStores (facts : ThreadFacts) (home : Home) : Home × Bool :=
  let updated := applySqliteUpdateForPaths setting faults facts home.databases
  if !updated.2 then ({ home with databases := updated.1 }, false)
  else
    let repaired := repairMissingLocalThreadCatalogRows setting faults updated.1
    if !repaired.2 then ({ home with databases := repaired.1 }, false)
    else
      let written := applyGlobalStateUpdate setting faults { home with databases := repaired.1 }
      (written.1, written.2 && !faults.prune)

/-! ## The whole sync -/

structure SyncPlan where
  changes : List SessionChange
  facts : ThreadFacts
  upToDate : Bool

def SyncPlan.rewriteChanges (plan : SyncPlan) : List SessionChange := plan.changes.filter (·.rewriteNeeded)

omit [SerdeJson] in
def threadFacts (changes : List SessionChange) (projectless : List Text) : ThreadFacts :=
  { targetProvider := setting.targetProvider
    userEventThreadIds := ((changes.filter (·.hasUserEvent)).filterMap (·.threadId)).dedup
    cwdByThreadId := (changes.filterMap fun change =>
        match change.threadId, change.cwd with
        | some threadId, some cwd => if threadId ∈ projectless then none else some (threadId, cwd)
        | _, _ => none).foldl (fun t entry => t.insert entry.1 entry.2) ∅ }

/-- The missing rows of one catalogue; `none` if its host id is not a text. -/
def missingCatalogRows (threads : List CatalogRepairThread) (db : Database) : Option Nat :=
  if !catalogSupportsRepair db then some 0
  else (localCatalogHostId db).map fun hostId =>
    threads.countP fun thread => !localCatalogContainsThread db hostId thread.id

def countMissingLocalThreadCatalogRows (databases : Text → Option Database) : Option Nat :=
  match repairThreads setting databases with
  | none => none
  | some [] => some 0
  | some threads => ((setting.databasePaths.filterMap databases).mapM (missingCatalogRows threads)).map List.sum

def preparePlan (home : Home) : Option SyncPlan := do
  let changes ← collectSessionChanges faults.read home.rollouts setting.targetProvider setting.rolloutFiles
  let projectless ← loadProjectlessThreadIds home.globalState
  let facts := threadFacts setting changes projectless
  let databases := setting.databasePaths.filterMap home.databases
  let missing ← countMissingLocalThreadCatalogRows setting home.databases
  let state ← loadGlobalState home.globalState
  return {
    changes, facts
    upToDate := (changes.all fun change => !change.rewriteNeeded) &&
      (databases.map (countSqliteUpdates facts)).sum = 0 && missing = 0 && countGlobalStateUpdates state = 0 }

def applyPlan (plan : SyncPlan) (home : Home) : Home × ProviderSyncStatus :=
  match applySessionChanges faults.rollout plan.rewriteChanges home.rollouts with
  | (rollouts, none) => ({ home with rollouts }, .skipped)
  | (rollouts, some applied) =>
    match applyStores setting faults plan.facts { home with rollouts } with
    | (home, true) => (home, .synced)
    | (home, false) =>
      ({ home with rollouts := restoreSessionChanges faults.restore applied home.rollouts }, .skipped)

def runProviderSyncWithTarget (home : Home) : Home × ProviderSyncStatus :=
  if faults.start then (home, .skipped)
  else
    match preparePlan setting faults home with
    | none => (home, .skipped)
    | some plan =>
      if faults.count then (home, .skipped)
      else if plan.upToDate then (home, .synced)
      else if faults.backup then (home, .skipped)
      else applyPlan setting faults plan home

end Stores

end Lumio.Data
