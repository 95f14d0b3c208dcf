import Lumio.Sync.Paths.Items

/-!
# Revisions of path states

The store puts a path state without comparing it with the one that is there. So the revision of a path goes
back exactly where a message is processed whose states are older than the stored ones. Along the runs that
process no stale message no revision goes back.
-/

namespace Lumio.Sync

open Lumio.Protocol Lumio.Fs Prog

section

variable {F : Type} [Filesystem F] [Env]

/-- No state that processing the message puts is older than the one stored for its path. -/
def Fresh (engine : Engine F) (item : Processing) : Prop :=
  ∀ state ∈ item.posts engine.db, ∀ old ∈ engine.db.pathStates.lookup state.path,
    old.pathRevision ≤ state.pathRevision

omit [Filesystem F] in
instance (engine : Engine F) (item : Processing) : Decidable (Fresh engine item) :=
  inferInstanceAs (Decidable (∀ state ∈ item.posts engine.db, ∀ old ∈ engine.db.pathStates.lookup state.path,
    old.pathRevision ≤ state.pathRevision))

/-- The stored paths that the snapshot of the stream does not have. -/
def Db.unlistedPaths (db : Db) : List WorkspacePath :=
  db.pathStates.keys.filter fun path => !db.snapshotStreamContainsPath path

/-! ## What a unit of work writes -/

def Work.posts (db : Db) : Work → List WorkspacePathState
  | .process item => item.posts db
  | _ => []

/-- The paths whose rows the work drops: a rejection that knows no state, or a full snapshot. -/
def Work.drops (db : Db) : Work → List WorkspacePath
  | .process item => item.drops db
  | .reconcile => db.unlistedPaths
  | _ => []

/-- The rows of the paths and the entries of the stream, in which a reconciliation looks paths up. -/
structure Unlisted (db : Db) (engine : Engine F) : Prop where
  entries : engine.db.entries = db.entries
  rows : Rewrites [] db.unlistedPaths db.pathStates engine.db.pathStates

omit [Filesystem F] [Env] in
theorem Unlisted.of_core {db : Db} {s t : Engine F} (h : t.core = s.core) (hs : Unlisted db s) : Unlisted db t := by
  have hentries : t.core.db.entries = s.core.db.entries := by rw [h]
  exact ⟨Eq.trans hentries hs.entries, hs.rows.trans (.of_eq (Engine.pathStates_of_core h))⟩

theorem reconcilePath_unlisted {db : Db} {path : WorkspacePath} (hpath : path ∈ db.pathStates.keys) (s : Engine F)
    (hs : Unlisted db s) : wp (reconcilePath path) (fun _ => Unlisted db) (fun _ => Unlisted db) s := by
  have quiet {m : EngineM F Unit} (h : Keeps Engine.core m) {t : Engine F} (ht : Unlisted db t) :
      wp m (fun _ => Unlisted db) (fun _ => Unlisted db) t :=
    wp_mono (h t) (fun _ _ hcore => ht.of_core hcore) fun _ _ hcore => ht.of_core hcore
  unfold Sync.reconcilePath
  rw [wp_bind, wp_get]
  dsimp only
  split
  · exact hs
  rename_i hcontains
  have hlisted : s.db.snapshotStreamContainsPath path = db.snapshotStreamContainsPath path := by
    rw [Db.snapshotStreamContainsPath, hs.entries]
    rfl
  have hunlisted : path ∈ db.unlistedPaths := List.mem_filter.mpr ⟨hpath, by simpa [hlisted] using hcontains⟩
  have hremoved : Unlisted db { s with db := { s.db with pathStates := s.db.pathStates.erase path } } :=
    ⟨hs.entries, hs.rows.trans (.erase hunlisted)⟩
  rw [wp_bind, wp_transaction]
  refine quiet (.bind (inspect_keeps _) fun observed => ?_) hremoved
  cases observed with
  | none => exact .pure _
  | some observed => exact .bind (desiredFromCurrent_keeps _) fun _ => queueDesiredWithStates_keeps _ _

theorem reconcileFullSnapshot_writes (s : Engine F) :
    wp (reconcileFullSnapshot (F := F)) (fun _ t => Rewrites [] s.db.unlistedPaths s.db.pathStates t.db.pathStates)
      (fun _ t => Rewrites [] s.db.unlistedPaths s.db.pathStates t.db.pathStates) s := by
  unfold Sync.reconcileFullSnapshot
  rw [wp_bind, wp_get]
  dsimp only
  rw [wp_bind]
  have hpaths : wp (forM (sortPaths s.db.pathStates.keys) (reconcilePath (F := F))) (fun _ => Unlisted s.db)
      (fun _ => Unlisted s.db) s :=
    wp_forM ⟨rfl, .of_eq rfl⟩ fun path hpath t ht => reconcilePath_unlisted (mem_of_mem_sortPaths hpath) t ht
  refine wp_mono hpaths (fun _ t ht => ?_) fun _ _ ht => ht.rows
  have hentries : Keeps Engine.core (do
      let entries ← scanComplete (F := F)
      forM entries reconcileEntry) := by
    refine .bind scanComplete_keeps fun entries => .forM fun observed => ?_
    unfold Sync.reconcileEntry
    grind
  exact wp_mono (hentries t) (fun _ _ h => (ht.of_core h).rows) fun _ _ h => (ht.of_core h).rows

omit [Filesystem F] [Env] in
theorem finishStreamTx_writes (active : StreamState) (plans : List ConflictGenerationReplacementPlan) :
    WritesTx [] [] (finishStreamTx active plans) := by
  unfold Sync.finishStreamTx
  refine .bind (.of_core .get) fun db => .bind (.of_core (forTx_keeps applyConflictGenerationReplacement_keeps))
    fun _ => .bind (.of_core replaceAuthoritativeConflicts_keeps) fun _ => ?_
  refine .bind (.of_content (setLastAppliedRevision_content _)) fun _ =>
    .bind (.of_content clearPendingSegmentAck_content) fun _ => ?_
  split
  · exact .of_content (setPendingAck_content _)
  · exact .of_content clearStream_content

theorem finishStream_writes (active : StreamState) : Writes [] [] (finishStream (F := F) active) := by
  unfold Sync.finishStream
  exact .bind (.of_core authoritativeConflictGenerationReplacementPlans_keeps) fun plans =>
    .transaction (finishStreamTx_writes _ _)

theorem Work.run_writes (work : Work) (s : Engine F) :
    Rewrites (work.posts s.db) (work.drops s.db) s.db.pathStates (final work.run s).db.pathStates := by
  have core {m : EngineM F Unit} (h : Keeps Engine.core m) : Rewrites [] [] s.db.pathStates (final m s).db.pathStates :=
    (Writes.of_core h).final s
  cases work with
  | process item => exact wp_final (item.run_writes s)
  | settle message source => exact Moves.final (settleExactConflictResolutionReplay_writes _ _) s
  | supersede message cleanup => exact Moves.final (commitSupersededLiveConflictResolution_writes _ _) s
  | reconcile => exact wp_final (reconcileFullSnapshot_writes s)
  | finish active => exact Moves.final (finishStream_writes _) s
  | materialize => exact core materializeLocalIntents_keeps
  | replay limit => exact core (.bind (transaction_keeps (pendingOutboxReplay_keeps _)) fun _ => .pure _)
  | openConflict message => exact core (transaction_keeps (putConflict_keeps _))
  | replaceConflict message existing => exact core (replaceConflict_keeps _ _)
  | upload operationId => exact core (blobUploaded_keeps _)
  | record changes => exact core (recordLocalChanges_keeps _)
  | reconnect => exact core prepareConnectionAttempt_keeps
  | resolve conflictId conflictRevision choice => exact core (.bind (resolveConflict_keeps _ _ _) fun _ => .pure _)
  | queue request => exact core (queueConflictResolution_keeps _)
  | accept message => exact core (conflictResolutionAccepted_keeps _)
  | reject operationId code => exact core (.bind (conflictResolutionRejected_keeps _ _) fun _ => .pure _)

/-! ## Runs -/

/-- Every message of the run is fresh when it is processed. -/
def AllFresh (works : List (Engine F × Work)) : Prop := ∀ unit ∈ works, ∀ item, unit.2 = .process item → Fresh unit.1 item

omit [Filesystem F] in
theorem AllFresh.single {engine : Engine F} {item : Processing} (h : Fresh engine item) :
    AllFresh [(engine, .process item)] := by
  intro unit hunit other hother
  rw [List.mem_singleton.mp hunit] at hother ⊢
  exact Work.process.inj hother ▸ h

def droppedPaths (works : List (Engine F × Work)) : List WorkspacePath := works.flatMap fun unit => unit.2.drops unit.1.db

theorem Traced.le_revision {first last : Engine F} {works : List (Engine F × Work)} (run : Traced first works last) :
    AllFresh works → ∀ path ∉ droppedPaths works, ∀ old, first.db.pathStates.lookup path = some old →
      ∃ new, last.db.pathStates.lookup path = some new ∧ old.pathRevision ≤ new.pathRevision := by
  refine run.run_rel (R := fun s works t => AllFresh works → ∀ path ∉ droppedPaths works, ∀ old,
    s.db.pathStates.lookup path = some old →
      ∃ new, t.db.pathStates.lookup path = some new ∧ old.pathRevision ≤ new.pathRevision) ?_ ?_ ?_
  · intro s t hstaged _ path _ old hold
    exact ⟨old, by rw [Db.pathStates_of_content hstaged.content, hold], le_rfl⟩
  · intro s work _ hfresh path hkept old hold
    refine (work.run_writes s).le_of_fresh hold (by simpa [droppedPaths] using hkept) fun state hstate hpath => ?_
    cases work with
    | process item =>
      exact hfresh _ (List.mem_singleton_self _) item rfl state hstate old (by rw [hpath]; exact hold)
    | _ => cases hstate
  · intro s t u before after hbefore hafter hfresh path hkept old hold
    rw [droppedPaths, List.flatMap_append, List.mem_append, not_or] at hkept
    obtain ⟨middle, hmiddle, hle⟩ :=
      hbefore (fun unit hunit => hfresh unit (List.mem_append_left _ hunit)) path hkept.1 old hold
    obtain ⟨new, hnew, hle'⟩ :=
      hafter (fun unit hunit => hfresh unit (List.mem_append_right _ hunit)) path hkept.2 middle hmiddle
    exact ⟨new, hnew, hle.trans hle'⟩

/-- Every run of calls does some units of work in turn, and in a run that processes no stale message a path that
is stored and not dropped stays stored, with a revision that does not go back. -/
theorem stored_revisions_never_go_back :
    (∀ first last : Engine F, Run (fun _ _ => True) first last → ∃ works, Traced first works last) ∧
    ∀ (first last : Engine F) (works : List (Engine F × Work)), Traced first works last → AllFresh works →
      ∀ (path : WorkspacePath) (old : WorkspacePathState), path ∉ droppedPaths works →
        first.db.pathStates.lookup path = some old →
          ∃ new, last.db.pathStates.lookup path = some new ∧ old.pathRevision ≤ new.pathRevision :=
  ⟨fun _ _ run => run.traced, fun _ _ _ run hfresh path old hkept hold => run.le_revision hfresh path hkept old hold⟩

end

/-! ## An acceptance that a newer event has overtaken -/

section

open scoped Sample

/-- Client 1 has written a file and sent it, and a write of the same content by client 2 has arrived. -/
def overtakenAcceptance : Engine Disk :=
  (((Sample.engine.after (.edit (Disk.empty.create Sample.pathA .file [1]))).after
    (.recordLocalChanges [.create Sample.pathA])).after (.pendingCommands 8)).after
      (.event (Sample.writing Sample.pathA 5 [1]))

/-- The answer to the mutation of client 1. -/
def acceptanceAt (revision : WorkspaceRevision) : WorkspaceMutationAcceptedMessage :=
  ⟨1, 1, 1000, revision, Sample.file Sample.pathA revision [1], none, none⟩

/-- An acceptance that is newer than the event. -/
theorem stored_revisions_of_acceptance :
    ∃ new, (overtakenAcceptance.after (.mutationAccepted (acceptanceAt 6))).db.pathStates.lookup Sample.pathA = some new ∧
      5 ≤ new.pathRevision := by
  have hwork : Does (Call.mutationAccepted (F := Disk) (acceptanceAt 6)).run overtakenAcceptance
      [(overtakenAcceptance, .process (.accepted (acceptanceAt 6)))] :=
    (Does.work overtakenAcceptance (.process (.accepted (acceptanceAt 6))) trivial).answered
  have hfresh : AllFresh [(overtakenAcceptance, .process (.accepted (acceptanceAt 6)))] := .single (by decide +kernel)
  have hstored : overtakenAcceptance.db.pathStates.lookup Sample.pathA = some (Sample.file Sample.pathA 5 [1]) := by
    decide +kernel
  exact stored_revisions_never_go_back.2 _ _ _ (Traced.refl.step hwork) hfresh _ _
    (by simp [droppedPaths, Work.drops, Processing.drops]) hstored

theorem not_revisionsKept_overtakenAcceptance :
    ¬ ∀ (engine : Engine Disk) (accepted : WorkspaceMutationAcceptedMessage) (path : WorkspacePath)
      (old new : WorkspacePathState), Run (fun _ _ => True) Sample.engine engine →
        engine.db.pathStates.lookup path = some old →
          (engine.after (.mutationAccepted accepted)).db.pathStates.lookup path = some new →
            old.pathRevision ≤ new.pathRevision := by
  intro h
  have hrun : Run (fun _ _ => True) Sample.engine overtakenAcceptance :=
    ((((Run.refl _).step trivial).step trivial).step trivial).step trivial
  have hbefore : overtakenAcceptance.db.pathStates.lookup Sample.pathA =
      some (Sample.file Sample.pathA 5 [1]) := by decide +kernel
  have hafter : (overtakenAcceptance.after (.mutationAccepted (acceptanceAt 4))).db.pathStates.lookup Sample.pathA =
      some (Sample.file Sample.pathA 4 [1]) := by decide +kernel
  have hle := h overtakenAcceptance (acceptanceAt 4) Sample.pathA _ _ hrun hbefore hafter
  exact absurd hle (by decide)

end

end Lumio.Sync
