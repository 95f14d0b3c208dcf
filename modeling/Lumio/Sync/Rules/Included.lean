import Lumio.Fs.Rules
import Lumio.Sync.Lemmas.Steps

/-!
# Operations that the rules include

What it means for a change, an intent and a mutation to stay within the synchronisation rules, and how that is
carried from one to the other.
-/

namespace Lumio.Sync

open Lumio.Protocol Lumio.Fs Prog

class StagingFilesystem (F : Type) [Filesystem F] : Prop where
  inspect_staged : ∀ (files : F) (path : WorkspacePath),
    Filesystem.inspect (Filesystem.stageWorkspaceEntry files path).2 = Filesystem.inspect files

/-- A workspace under fixed rules: they decide what is included, and a scan reports only what they include. -/
class RuledFilesystem (F : Type) [Filesystem F] (rules : SyncRules) : Prop where
  included_eq : ∀ (files : F) (path : WorkspacePath) (isDir : Bool),
    Filesystem.included files path isDir = (rules.decide path isDir).included
  scan_included : ∀ (files : F) (scan : WorkspaceScan), Filesystem.scan files = .ok scan →
    ∀ entry ∈ scan.entries, (rules.decide entry.path (entry.kind = .directory)).included = true

section

variable (rules : SyncRules)

def Includes (path : WorkspacePath) (isDir : Bool) : Prop := (rules.decide path isDir).included = true

/-- The path is included as a directory or as something else. The source of a rename is gone when the rename is
recorded, so its kind is not known. -/
def EitherIncluded (path : WorkspacePath) : Prop := Includes rules path true ∨ Includes rules path false

/-- The entry is included with its kind. A mutation without content is read as one of a directory, so an entry
without content is included as a directory as well. -/
structure EntryIncluded (path : WorkspacePath) (kind : WorkspaceEntryKind)
    (contentHash : Option WorkspaceContentHash) : Prop where
  ofKind : Includes rules path (kind = .directory)
  ofContent : Includes rules path (kind = .directory || contentHash.isNone)

def DesiredOperation.Included : DesiredOperation → Prop
  | .upsert entry => EntryIncluded rules entry.path entry.kind entry.contentHash
  | .delete _ => True
  | .rename source target kind contentHash _ =>
    EitherIncluded rules source ∧ EntryIncluded rules target kind contentHash

def MutationIncluded (mutation : WorkspaceMutation) : Prop :=
  match mutation.kind with
  | .upsertFile => EntryIncluded rules mutation.path .file mutation.contentHash
  | .upsertSymlink => EntryIncluded rules mutation.path .symlink mutation.contentHash
  | .mkdir => EntryIncluded rules mutation.path .directory none
  | .delete => True
  | .rename =>
    EitherIncluded rules mutation.path ∧
      ∃ target, mutation.newPath = some target ∧ Includes rules target mutation.contentHash.isNone

structure Db.Ruled (db : Db) : Prop where
  mutations : ∀ operationId row mutation, db.outbox.lookup operationId = some row →
    row.body = .mutation mutation → MutationIncluded rules mutation
  intents : ∀ path row, db.localIntents.lookup path = some row → (desiredFromIntent row.intent).Included rules

end

variable {rules : SyncRules}

theorem Db.Ruled.initial : Db.initial.Ruled rules := by
  refine ⟨fun operationId row mutation h => ?_, fun path row h => ?_⟩
  · simp [Db.initial] at h
  · simp [Db.initial] at h

/-! ## From one operation to another -/

theorem EntryIncluded.directory {path : WorkspacePath} (h : Includes rules path true) :
    EntryIncluded rules path .directory none := ⟨by simpa using h, by simpa using h⟩

theorem EntryIncluded.of_content {path : WorkspacePath} {kind : WorkspaceEntryKind}
    {contentHash : Option WorkspaceContentHash} (h : Includes rules path (kind = .directory))
    (hcontent : kind ≠ .directory → contentHash.isSome = true) : EntryIncluded rules path kind contentHash := by
  refine ⟨h, ?_⟩
  by_cases hkind : kind = .directory
  · simpa [hkind] using h
  · obtain ⟨hash, rfl⟩ := Option.isSome_iff_exists.mp (hcontent hkind)
    simpa [hkind] using h

theorem mutationForDesired_included {desired : DesiredOperation} (h : desired.Included rules)
    (workspaceId : WorkspaceId) (clientId : ClientId) (operationId : OperationId) (states : PathStates) :
    MutationIncluded rules (mutationForDesired desired workspaceId clientId operationId states) := by
  cases desired with
  | upsert entry =>
    obtain ⟨path, kind, contentHash, metadata⟩ := entry
    obtain ⟨hkind, hcontent⟩ := h
    cases kind with
    | file => exact ⟨hkind, hcontent⟩
    | symlink => exact ⟨hkind, hcontent⟩
    | directory => exact .directory hkind
    | tombstone => trivial
  | delete path => trivial
  | rename source target kind contentHash metadata =>
    obtain ⟨hsource, hkind, hcontent⟩ := h
    refine ⟨hsource, target, rfl, ?_⟩
    by_cases hdir : kind = .directory
    · simpa [mutationForDesired, hdir] using hcontent
    · simpa [mutationForDesired, hdir] using hcontent

theorem desiredFromMutation_included {mutation : WorkspaceMutation} (h : MutationIncluded rules mutation)
    (renameKind : Option WorkspaceEntryKind)
    (hkind : mutation.kind = .rename → ∀ kind ∈ renameKind, ∀ target ∈ mutation.newPath,
      Includes rules target (kind = .directory)) : (desiredFromMutation mutation renameKind).Included rules := by
  unfold MutationIncluded at h
  unfold desiredFromMutation
  cases hmutation : mutation.kind with
  | upsertFile =>
    rw [hmutation] at h
    exact h
  | upsertSymlink =>
    rw [hmutation] at h
    exact h
  | mkdir =>
    rw [hmutation] at h
    exact h
  | delete => trivial
  | rename =>
    rw [hmutation] at h
    obtain ⟨hsource, target, htarget, hincluded⟩ := h
    rw [htarget]
    dsimp only
    have htargetKind : Includes rules target
        (renameKind.getD (if mutation.contentHash.isNone then .directory else .file) = .directory) := by
      cases renameKind with
      | none => cases hhash : mutation.contentHash <;> simpa [hhash] using hincluded
      | some kind => exact hkind hmutation kind rfl target htarget
    generalize renameKind.getD (if mutation.contentHash.isNone then .directory else .file) = kind at htargetKind ⊢
    split
    · rename_i hdir
      rw [hdir] at htargetKind ⊢
      exact ⟨hsource, .directory (by simpa using htargetKind)⟩
    · rename_i hdir
      refine ⟨hsource, htargetKind, ?_⟩
      simpa [hdir] using hincluded

theorem mergeDeferredDesired_included {current incoming : DesiredOperation} (hcurrent : current.Included rules)
    (hincoming : incoming.Included rules) : (mergeDeferredDesired current incoming).Included rules := by
  unfold mergeDeferredDesired
  split
  · split
    · rename_i entry htarget
      exact ⟨hcurrent.1, htarget ▸ hincoming⟩
    · exact hincoming
  · split
    · exact ⟨hcurrent.1, hincoming.2⟩
    · exact hincoming
  · split
    · trivial
    · exact hincoming
  · exact hincoming

theorem replacementDesiredAgainstStates_included {desired : DesiredOperation} (h : desired.Included rules)
    (states : PathStates) : (replacementDesiredAgainstStates desired states).Included rules := by
  cases desired with
  | rename source target kind contentHash metadata =>
    simp only [replacementDesiredAgainstStates]
    split
    · exact h
    · exact h.2
  | upsert entry => exact h
  | delete path => exact h

/-! ## Operations read from the store -/

theorem expandOperations_subset (available : List DesiredOperation)
    {closure : List WorkspacePath × List DesiredOperation} (h : ∀ operation ∈ closure.2, operation ∈ available) :
    ∀ operation ∈ (expandOperations available closure).2, operation ∈ available := by
  refine List.foldlRecOn (motive := fun closure : List WorkspacePath × List DesiredOperation =>
    ∀ other ∈ closure.2, other ∈ available) available _ h fun closure hclosure first hfirst other hother => ?_
  obtain ⟨intersecting, operations⟩ := closure
  dsimp only at hother
  split at hother
  · exact hclosure other hother
  · rcases List.mem_append.mp hother with hother | hother
    · exact hclosure other hother
    · rw [List.mem_singleton.mp hother]
      exact hfirst

theorem closeOperations_subset (available : List DesiredOperation) (fuel : Nat) :
    ∀ {closure : List WorkspacePath × List DesiredOperation}, (∀ operation ∈ closure.2, operation ∈ available) →
      ∀ operation ∈ (closeOperations available fuel closure).2, operation ∈ available := by
  induction fuel with
  | zero => exact fun h => h
  | succ fuel ih =>
    intro closure h
    simp only [closeOperations]
    split
    · exact expandOperations_subset available h
    · exact ih (expandOperations_subset available h)

namespace Db.Ruled

variable {db : Db}

theorem localIntentRecords (h : db.Ruled rules) {record : LocalIntentRecord} (hrecord : record ∈ db.localIntentRecords) :
    (desiredFromIntent record.intent).Included rules := by
  obtain ⟨path, hlookup⟩ := Table.mem_orderBy_iff.mp hrecord
  exact h.intents path record hlookup

variable {touched : List WorkspacePath}

theorem deferredOperations (h : db.Ruled rules) {operation : DesiredOperation}
    (hoperation : operation ∈ db.deferredOperations touched) : operation.Included rules := by
  have hmem := mem_dedupOperations ((List.mem_insertionSort _).mp hoperation)
  obtain ⟨record, hrecord, rfl⟩ := List.mem_map.mp hmem
  exact h.localIntentRecords (List.mem_of_mem_filter hrecord)

theorem deferredOperationsIntersecting (h : db.Ruled rules) {operation : DesiredOperation}
    (hoperation : operation ∈ db.deferredOperationsIntersecting touched) : operation.Included rules := by
  have hmem := mem_dedupOperations
    (closeOperations_subset _ _ (by simp) operation ((List.mem_insertionSort _).mp hoperation))
  obtain ⟨record, hrecord, rfl⟩ := List.mem_map.mp hmem
  exact h.localIntentRecords hrecord

theorem compactDeferred (h : db.Ruled rules) {incoming merged : DesiredOperation}
    {existingPaths : List WorkspacePath} (hincoming : incoming.Included rules)
    (hmerged : db.compactDeferred incoming touched = some (merged, existingPaths)) : merged.Included rules := by
  unfold Db.compactDeferred at hmerged
  split at hmerged
  · cases hmerged
  · cases hmerged
    refine List.foldlRecOn _ _ hincoming fun merged hmerged current hcurrent => ?_
    exact mergeDeferredDesired_included (h.deferredOperations hcurrent) hmerged

end Db.Ruled

end Lumio.Sync
