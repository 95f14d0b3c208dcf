import Lumio.Sync.Lemmas.Composes
import Lumio.Sync.Lemmas.Content
import Lumio.Sync.Run
import Mathlib.Data.List.Dedup
import Mathlib.Logic.Relation

/-!
# Runs of the engine in single steps

A call of the engine may process many messages. Here every call is broken down into the units of work that it
does: one message is processed, a stream is finished, intents are turned into mutations, and so on. What every
unit keeps is kept along every run.
-/

namespace Lumio.Sync

open Lumio.Protocol Lumio.Fs Prog

inductive Processing where
  | accepted (message : WorkspaceMutationAcceptedMessage)
  | rejected (message : WorkspaceMutationRejectedMessage)
  | liveEvent (message : WorkspaceEventMessage)
  | streamEvent (message : WorkspaceEventMessage)
  | snapshotEntry (message : WorkspaceSnapshotEntryMessage)
  | resolution (message : WorkspaceConflictResolvedMessage) (source : ConflictResolutionSource)

/-! ## Deferred operations -/

theorem desiredFromIntent_intentForPath (desired : DesiredOperation) :
    desiredFromIntent desired.intentForPath = desired := by cases desired <;> rfl

theorem mem_dedupOperations {operations : List DesiredOperation} {operation : DesiredOperation}
    (h : operation ∈ dedupOperations operations) : operation ∈ operations := by
  have hseen : ∀ other ∈ dedupOperations operations, other ∈ operations := by
    refine List.foldlRecOn (motive := fun seen => ∀ other ∈ seen, other ∈ operations) operations _ (by simp)
      fun seen hseen first hfirst other hother => ?_
    split at hother
    · exact hseen other hother
    · rcases List.mem_append.mp hother with hother | hother
      · exact hseen other hother
      · rw [List.mem_singleton.mp hother]
        exact hfirst
  exact hseen operation h

theorem mem_of_mem_sortPaths {paths : List WorkspacePath} {path : WorkspacePath} (h : path ∈ sortPaths paths) :
    path ∈ paths := (List.mem_insertionSort _).mp (List.mem_dedup.mp h)

/-! ## Staging -/

section

variable [Env]

structure StreamConflictRecord.Valid (conflictId : ConflictId) (staged : StreamConflictRecord) : Prop where
  conflictId : staged.created.conflictId = conflictId
  workspaceId : staged.created.workspaceId = Env.workspaceId
  valid : staged.created.validate.isOk = true

/-- The content stays, and a conflict is staged only if it is valid. -/
structure Staging (before after : Db) : Prop where
  content : after.content = before.content
  staged : ∀ conflictId staged, after.streamConflicts.lookup conflictId = some staged →
    before.streamConflicts.lookup conflictId = some staged ∨ staged.Valid conflictId

theorem Staging.refl (db : Db) : Staging db db := ⟨rfl, fun _ _ h => .inl h⟩

theorem Staging.trans {a b c : Db} (hab : Staging a b) (hbc : Staging b c) : Staging a c := by
  refine ⟨hbc.content.trans hab.content, fun conflictId staged h => ?_⟩
  rcases hbc.staged conflictId staged h with h | h
  · exact hab.staged conflictId staged h
  · exact .inr h

theorem Staging.of_retained {a b : Db} (h : b.retained = a.retained) : Staging a b := by
  have hstaged : b.retained.streamConflicts = a.retained.streamConflicts := by rw [h]
  refine ⟨OfRetained.of_retained _ _ h, fun conflictId staged hlookup => .inl ?_⟩
  rw [show b.streamConflicts = a.streamConflicts from hstaged] at hlookup
  exact hlookup

theorem clearStream_stages : Moves Staging clearStream := by
  refine fun db => ⟨rfl, fun conflictId staged h => ?_⟩
  simp at h

theorem beginStream_stages (begin_ : WorkspaceSnapshotBeginMessage) : Moves Staging (beginStream begin_) := by
  intro db
  unfold beginStream
  split
  · exact .refl db
  split
  · exact .refl db
  simp only [wp_bind, wp_get]
  split
  · split
    · split
      · exact .refl db
      · exact .refl db
    split
    · exact .refl db
    split
    · exact .refl db
    · exact wp_seq (clearStream_stages db) fun _ t h => h.trans (.of_retained rfl)
  · exact .of_retained rfl

theorem putStreamConflict_stages (message : WorkspaceConflictCreatedMessage) (streamId : StreamId)
    (status : StreamConflictStatus) : Moves Staging (putStreamConflict message streamId status) := by
  intro db
  refine wp_mono (putStreamConflict_wp message streamId status db) (fun _ after h => ?_) (fun _ after h => h ▸ .refl db)
  cases h with
  | kept => exact .refl db
  | stored hvalid hworkspace =>
    refine ⟨rfl, fun conflictId staged h => ?_⟩
    rcases (Table.lookup_insert_iff staged).mp h with ⟨rfl, rfl⟩ | ⟨-, hold⟩
    · exact .inr ⟨rfl, hworkspace, hvalid⟩
    · exact .inl hold

end

section

variable {F : Type} [Filesystem F] [Env]

def Processing.run : Processing → EngineM F Unit
  | .accepted message => do
    let _ ← mutationAccepted message
  | .rejected message => mutationRejected message
  | .liveEvent message => applyLiveEvent message
  | .streamEvent message => applyEvent message
  | .snapshotEntry message => applySnapshotEntry message
  | .resolution message source => applyConflictResolvedFrom message source

def finishStream (active : StreamState) : EngineM F Unit := do
  let plans ← authoritativeConflictGenerationReplacementPlans
  transaction (finishStreamTx active plans)

def openConflict (message : WorkspaceConflictCreatedMessage) : EngineM F Unit :=
  transaction (putConflict ⟨message, .manual, none, none⟩)

inductive Work where
  | process (item : Processing)
  | settle (message : WorkspaceConflictResolvedMessage) (source : ConflictResolutionSource)
  | supersede (message : WorkspaceConflictResolvedMessage) (cleanup : ConflictCleanup)
  | reconcile
  | finish (active : StreamState)
  | materialize
  | replay (limit : Nat)
  | openConflict (message : WorkspaceConflictCreatedMessage)
  | replaceConflict (message : WorkspaceConflictCreatedMessage) (existing : ConflictRecord)
  | upload (operationId : OperationId)
  | record (changes : List FsChange)
  | reconnect
  | resolve (conflictId : ConflictId) (conflictRevision : WorkspaceConflictRevision)
      (choice : WorkspaceConflictChoice)
  | queue (request : WorkspaceConflictResolvedRequest)
  | accept (message : WorkspaceConflictResolvedMessage)
  | reject (operationId : OperationId) (code : WorkspaceV2ErrorCode)

def Work.run : Work → EngineM F Unit
  | .process item => item.run
  | .settle message source => settleExactConflictResolutionReplay message source
  | .supersede message cleanup => commitSupersededLiveConflictResolution message cleanup
  | .reconcile => reconcileFullSnapshot
  | .finish active => finishStream active
  | .materialize => materializeLocalIntents
  | .replay limit => do
    let _ ← transaction (pendingOutboxReplay limit)
  | .openConflict message => Sync.openConflict message
  | .replaceConflict message existing => Sync.replaceConflict message existing
  | .upload operationId => blobUploaded operationId
  | .record changes => recordLocalChanges changes
  | .reconnect => prepareConnectionAttempt
  | .resolve conflictId conflictRevision choice => do
    let _ ← resolveConflict conflictId conflictRevision choice
  | .queue request => queueConflictResolution request
  | .accept message => conflictResolutionAccepted message
  | .reject operationId code => do
    let _ ← conflictResolutionRejected operationId code

/-- What the calls have checked before they turn to the work. -/
def Work.Ready (db : Db) : Work → Prop
  | .supersede message cleanup =>
    db.conflictCleanupOperations message = .ok cleanup ∧ cleanup.preserveNewerGeneration = true
  | .openConflict message => db.conflicts.lookup message.conflictId = none
  | .replaceConflict message existing => db.conflicts.lookup message.conflictId = some existing
  | _ => True

/-- The single steps of the calls: the content of the store is left alone, or a unit of work is done that is
allowed in the state before it. -/
inductive Step (Allowed : Engine F → Work → Prop) : Engine F → Engine F → Prop where
  | stage {s t : Engine F} (h : Staging s.db t.db) : Step Allowed s t
  | work (s : Engine F) (work : Work) (ready : work.Ready s.db) (allowed : Allowed s work) :
      Step Allowed s (final work.run s)

/-- The runs in single steps whose every unit of work is allowed. -/
def Steps (Allowed : Engine F → Work → Prop) : Engine F → Engine F → Prop := Relation.ReflTransGen (Step Allowed)

def AnySteps : Engine F → Engine F → Prop := Steps fun _ _ => True

/-! ## The work of a program -/

variable {α β : Type}

/-- The units of work that a program does from a state, in turn, each with the state before it. Apart from them
the content of the store is left alone. -/
inductive Does : {α : Type} → EngineM F α → Engine F → List (Engine F × Work) → Prop where
  | quiet {α : Type} {m : EngineM F α} {s : Engine F} (h : Staging s.db (final m s).db) : Does m s []
  | work (s : Engine F) (work : Work) (ready : work.Ready s.db) : Does work.run s [(s, work)]
  | answered {α : Type} {m : EngineM F α} {s : Engine F} {works : List (Engine F × Work)}
      (h : Does (do let _ ← m) s works) : Does m s works
  | andThen {α β : Type} {m : EngineM F α} {f : α → EngineM F β} {s t : Engine F} {a : α}
      {before after : List (Engine F × Work)} (hm : Does m s before) (hok : m s = .ok a t) (hf : Does (f a) t after) :
      Does (m >>= f) s (before ++ after)
  | fails {α β : Type} {m : EngineM F α} {f : α → EngineM F β} {s t : Engine F} {error : SyncError}
      {works : List (Engine F × Work)} (hm : Does m s works) (herror : m s = .error error t) : Does (m >>= f) s works

/-- What holds of staging and of each unit of work, and of two runs in turn, holds of what a program does. -/
theorem Does.run_rel {R : Engine F → List (Engine F × Work) → Engine F → Prop} {m : EngineM F α} {s : Engine F}
    {works : List (Engine F × Work)} (h : Does m s works) (hstage : ∀ s t, Staging s.db t.db → R s [] t)
    (hwork : ∀ s work, work.Ready s.db → R s [(s, work)] (final work.run s))
    (happend : ∀ s t u before after, R s before t → R t after u → R s (before ++ after) u) : R s works (final m s) := by
  induction h with
  | quiet h => exact hstage _ _ h
  | work s work ready => exact hwork s work ready
  | answered _ ih => rwa [final_discard] at ih
  | @andThen _ _ m f s t a before after _ hok _ ihm ihf =>
    have hfinal : final (m >>= f) s = final (f a) t := by simp only [final, bind_of_ok hok]
    have hmiddle : final m s = t := by simp only [final, hok]
    rw [hmiddle] at ihm
    rw [hfinal]
    exact happend _ _ _ _ _ ihm ihf
  | @fails _ _ m f s t _ _ _ herror ih =>
    have hfinal : final (m >>= f) s = final m s := by simp only [final, bind_of_error herror, herror]
    rwa [hfinal]

theorem Does.steps {Allowed : Engine F → Work → Prop} {m : EngineM F α} {s : Engine F} {works : List (Engine F × Work)}
    (h : Does m s works) (hall : ∀ unit ∈ works, Allowed unit.1 unit.2) : Steps Allowed s (final m s) := by
  refine h.run_rel (R := fun s works t => (∀ unit ∈ works, Allowed unit.1 unit.2) → Steps Allowed s t)
    (fun _ _ h _ => .single (.stage h)) (fun s work ready hall => ?_) (fun _ _ _ _ _ hs ht hall => ?_) hall
  · exact .single (.work s work ready (hall _ (List.mem_singleton_self _)))
  · exact .trans (hs fun unit hunit => hall unit (List.mem_append_left _ hunit))
      (ht fun unit hunit => hall unit (List.mem_append_right _ hunit))

theorem Does.before_pure {m : EngineM F α} {s : Engine F} {works : List (Engine F × Work)} (h : Does m s works)
    (b : β) : Does (m >>= fun _ => pure b) s works := by
  cases hrun : m s with
  | ok a t =>
    have hpure : Does (pure b : EngineM F β) t [] := .quiet (.refl _)
    have hboth : Does (m >>= fun _ => pure b) s (works ++ []) := h.andThen hrun hpure
    rwa [List.append_nil] at hboth
  | error e t => exact h.fails hrun

/-! ## The calls -/

/-- From every state, the program does some units of work. -/
def Divides (m : EngineM F α) : Prop := ∀ s, ∃ works, Does m s works

namespace Calls

theorem bind {m : EngineM F α} {f : α → EngineM F β} (hm : Divides m) (hf : ∀ a, Divides (f a)) : Divides (m >>= f) := by
  intro s
  obtain ⟨before, hbefore⟩ := hm s
  cases hrun : m s with
  | ok a t =>
    obtain ⟨after, hafter⟩ := hf a t
    exact ⟨_, hbefore.andThen hrun hafter⟩
  | error e t => exact ⟨_, hbefore.fails hrun⟩

variable {m : EngineM F α} (message : WorkspaceConflictResolvedMessage) (work : InboundWork) (commandLimit : Nat)
  (reissueWaiting : Bool)

theorem quiet (h : Moves (fun s t : Engine F => Staging s.db t.db) m) : Divides m := fun s => ⟨[], .quiet (h.final s)⟩

theorem reads (h : Keeps Engine.ledger m) : Divides m := by
  refine quiet (Moves.mono h fun s t hst => ?_)
  have hdb : t.ledger.db = s.ledger.db := by rw [hst]
  exact .of_retained (congrArg Db.retained hdb)

/-- A program that reads the engine may go on as the state has it. -/
theorem with_state {f : Engine F → EngineM F α} (h : ∀ s, ∃ works, Does (f s) s works) : Divides (get >>= f) := by
  intro s
  obtain ⟨works, hworks⟩ := h s
  exact ⟨_, (Does.quiet (.refl s.db) : Does (get : EngineM F (Engine F)) s []).andThen get_apply hworks⟩

theorem one (work : Work) (h : ∀ db, work.Ready db) : Divides (work.run (F := F)) := fun s => ⟨_, .work s work (h s.db)⟩

theorem one_of (work : Work) (h : ∀ db, work.Ready db) (hrun : work.run = (do let _ ← m)) : Divides m := by
  intro s
  have hwork : Does (F := F) work.run s [(s, work)] := .work s work (h s.db)
  rw [hrun] at hwork
  exact ⟨_, hwork.answered⟩

theorem stage {m : TxM α} (h : Moves Staging m) : Divides (transaction (F := F) m) := by
  refine quiet fun s => ?_
  rw [wp_transaction]
  exact wp_mono (h s.db) (fun _ _ hdb => hdb) (fun _ _ _ => .refl _)

theorem retain {m : TxM α} (h : Keeps Db.retained m) : Divides (transaction (F := F) m) :=
  stage (Moves.mono h fun _ _ => .of_retained)

theorem onlyIf {m : EngineM F Unit} (hm : Divides m) (condition : Bool) : Divides (onlyIf condition m) := by
  cases condition with
  | true => exact hm
  | false => exact reads (.pure _)

theorem with_read {γ : Type} {check : Db → Except SyncError γ} {f : γ → EngineM F α}
    (h : ∀ s value, check s.db = .ok value → ∃ works, Does (f value) s works) : Divides (readDb check >>= f) := by
  intro s
  cases hcheck : check s.db with
  | ok value =>
    have hrun : readDb check s = .ok value s := by simp only [readDb, hcheck]
    have hread : Does (readDb check) s [] := .quiet (by rw [final, hrun]; exact .refl _)
    obtain ⟨works, hworks⟩ := h s value hcheck
    exact ⟨_, hread.andThen hrun hworks⟩
  | error e =>
    have hrun : readDb check s = .error e s := by simp only [readDb, hcheck]
    have hread : Does (readDb check) s [] := .quiet (by rw [final, hrun]; exact .refl _)
    exact ⟨_, hread.fails hrun⟩

theorem process (item : Processing) : Divides (item.run (F := F)) := one (.process item) fun _ => trivial

theorem settle (source : ConflictResolutionSource) :
    Divides (settleExactConflictResolutionReplay (F := F) message source) := one (.settle message source) fun _ => trivial

theorem mutationAccepted (accepted : WorkspaceMutationAcceptedMessage) : Divides (mutationAccepted (F := F) accepted) := by
  exact one_of (.process (.accepted accepted)) (fun _ => trivial) rfl

theorem after_set (hm : Divides m) {s t : Engine F} (h : t.db = s.db) :
    ∃ works, Does (do set t; m) s works := by
  obtain ⟨works, hworks⟩ := hm t
  have hset : Does (set t : EngineM F PUnit) s [] := .quiet (.of_retained (congrArg Db.retained h))
  exact ⟨_, hset.andThen rfl hworks⟩

/-! ### The work loop -/

omit [Filesystem F] [Env] in
theorem popLiveItem_db (serializedBytes : Nat) : Keeps Engine.db (popLiveItem (F := F) serializedBytes) := by
  intro s
  simp only [popLiveItem, wp_bind, wp_get]
  split
  · rfl
  · split <;> rfl

theorem of_db (h : Keeps Engine.db m) : Divides m :=
  quiet (Moves.mono h fun _ _ hdb => .of_retained (congrArg Db.retained hdb))

theorem resumeLiveStep : Divides (resumeLiveStep (F := F) work commandLimit reissueWaiting) := by
  unfold Sync.resumeLiveStep
  refine bind (reads .get) fun engine => ?_
  cases engine.pendingLiveEvents with
  | nil => exact reads (.pure _)
  | cons pending rest =>
    dsimp only
    split
    · exact reads (.pure _)
    refine bind (reads (missingContent_keeps _)) fun content => ?_
    split
    · exact reads (.pure _)
    have hpop : Divides (popLiveItem (F := F) pending.serializedBytes) := of_db (popLiveItem_db _)
    cases pending.message with
    | event message => exact bind (process (.liveEvent message)) fun _ => bind hpop fun _ => reads (.pure _)
    | conflictResolved message =>
      exact bind (process (.resolution message .live)) fun _ => bind hpop fun _ => reads (.pure _)

theorem composes : Composes (Engine.ledger (F := F)) (fun {_} m => Divides m) := ⟨reads, bind⟩

theorem resumeStreamStep : Divides (resumeStreamStep (F := F) work commandLimit reissueWaiting) := by
  refine composes.resumeStreamStep (fun record work => ?_) (fun event status work => ?_) fun message status work => ?_
  · exact composes.resumeStreamEntry (fun _ => retain (putStreamEntry_content _ _)) (process (.snapshotEntry record.body))
  · exact composes.resumeStreamEvent (fun _ => retain (putStreamEvent_content _ _)) (process (.streamEvent event))
  · exact composes.resumeStreamConflictResolved (fun _ => retain (putStreamConflictResolved_content _ _)) (settle _ _)
      (process (.resolution message .stream))

theorem finishStreamIfReady : Divides (finishStreamIfReady (F := F)) := by
  unfold Sync.finishStreamIfReady
  refine bind (reads .get) fun engine => ?_
  dsimp only
  split
  · exact reads (.pure _)
  rename_i active _
  split
  · exact reads (.pure _)
  split
  · exact reads (.pure _)
  split
  · exact reads (.pure _)
  refine bind (onlyIf (one .reconcile fun _ => trivial) _) fun _ => ?_
  have hfinish : Divides (finishStream (F := F) active) := one (.finish active) fun _ => trivial
  have h := bind hfinish fun _ => bind (one .materialize fun _ => trivial) fun _ => reads (.pure true)
  rwa [finishStream, bind_assoc] at h

omit [Filesystem F] in
theorem advanceSegmentAckIfStalled_retained (s : Engine F) :
    wp (advanceSegmentAckIfStalled (F := F)) (fun _ t => Staging s.db t.db) (fun _ t => Staging s.db t.db) s := by
  simp only [advanceSegmentAckIfStalled, wp_bind, wp_get]
  repeat' split
  all_goals exact .of_retained rfl

theorem resumeInboundWork : Divides (resumeInboundWork (F := F) commandLimit reissueWaiting) := by
  unfold Sync.resumeInboundWork
  refine with_state fun s => ?_
  have hadvance : Divides (advanceSegmentAckIfStalled (F := F)) := quiet advanceSegmentAckIfStalled_retained
  have hloop := composes.resumeLoop (F := F) (fun work => resumeStreamStep work commandLimit reissueWaiting)
    fun work => resumeLiveStep work commandLimit reissueWaiting
  exact after_set (bind (hloop _ _ _ _ _) fun work => bind finishStreamIfReady fun _ => bind hadvance fun _ =>
    reads (.pure _)) rfl

/-! ### Entry points -/

theorem enqueueLiveMessage (message : StreamRevisionItem) : Divides (enqueueLiveMessage (F := F) message) := by
  unfold Sync.enqueueLiveMessage
  refine with_state fun s => ?_
  split
  · split
    · exact reads (.throw _) s
    · exact resumeInboundWork _ _ s
  split
  · exact reads (.throw _) s
  dsimp only
  split
  · exact reads (.throw _) s
  exact after_set (resumeInboundWork _ _) rfl

theorem checked {result : Except WorkspaceValidationError Unit} {condition : Bool} {invalid mismatch : SyncError}
    (hm : Divides m) :
    Divides (do
      ensureOpen
      requireValid result invalid
      requireThat condition mismatch
      m) :=
  bind (reads ensureOpen_keeps) fun _ => bind (reads (requireValid_keeps _ _)) fun _ =>
    bind (reads (requireThat_keeps _ _)) fun _ => hm

theorem markLiveEventApplied (revision : WorkspaceRevision) :
    Divides (markLiveEventApplied (F := F) revision) := by
  unfold Sync.markLiveEventApplied
  refine bind (reads .get) fun engine => ?_
  dsimp only
  split
  · exact reads (.pure _)
  · exact retain (.bind (.onlyIf (setLastAppliedRevision_content _) _) fun _ => .onlyIf (setPendingAck_content _) _)

theorem event (message : WorkspaceEventMessage) : Divides (event (F := F) message) := by
  refine checked (bind (reads (readDb_keeps _)) fun receiptMatch => bind (reads .get) fun engine => ?_)
  cases receiptMatch with
  | exact =>
    dsimp only
    split
    · exact bind (markLiveEventApplied _) fun _ => reads (.pure _)
    · exact enqueueLiveMessage _
  | missing =>
    dsimp only
    split
    · exact reads (.throw _)
    · exact enqueueLiveMessage _

theorem snapshotBegin (message : WorkspaceSnapshotBeginMessage) : Divides (snapshotBegin (F := F) message) := by
  refine checked (bind (reads .get) fun engine => bind (stage (beginStream_stages _)) fun _ => ?_)
  have hclear : Keeps Engine.db (modify fun engine : Engine F => { engine with
      pendingLiveEvents := []
      pendingLiveSerializedBytes := 0
      nextInboundSource := .stream } : EngineM F Unit) := .modify fun _ => rfl
  exact onlyIf (of_db hclear) _

theorem snapshotEntry (message : WorkspaceSnapshotEntryMessage) : Divides (snapshotEntry (F := F) message) := by
  refine checked (bind (reads (statusForState_keeps _)) fun status =>
    bind (retain (putStreamEntry_content _ _)) fun staged => ?_)
  split
  · exact reads (.pure _)
  · exact bind (resumeInboundWork _ _) fun _ => reads (.pure _)

theorem workspaceEvent (message : WorkspaceEventMessage) : Divides (workspaceEvent (F := F) message) := by
  refine checked (bind (reads .get) fun engine => ?_)
  dsimp only
  split
  · exact reads (.throw _)
  split
  · exact reads (.throw _)
  split
  · exact reads (.pure _)
  refine bind (reads (readDb_keeps _)) fun receiptMatch => ?_
  split
  · exact bind (retain (putStreamEvent_content _ _)) fun _ => resumeInboundWork _ _
  refine bind (reads (eventIsDiverged_keeps _)) fun diverged => ?_
  split
  · exact bind (reads (.pure _)) fun _ => bind (retain (putStreamEvent_content _ _)) fun _ =>
      bind (resumeInboundWork _ _) fun _ => reads (.pure _)
  · exact bind (reads (statusForState_keeps _)) fun _ => bind (retain (putStreamEvent_content _ _)) fun _ =>
      bind (resumeInboundWork _ _) fun _ => reads (.pure _)

theorem conflictCreated (message : WorkspaceConflictCreatedMessage) :
    Divides (conflictCreated (F := F) message) := by
  refine checked (with_state fun s => ?_)
  dsimp only
  split
  · exact bind (stage (putStreamConflict_stages _ _ _)) (fun _ => resumeInboundWork _ _) s
  split
  · rename_i existing hstored
    exact ⟨_, Does.before_pure (.work s (.replaceConflict message existing) hstored) _⟩
  · rename_i habsent
    exact ⟨_, Does.before_pure (.work s (.openConflict message) habsent) _⟩

theorem conflictResolvedLive : Divides (conflictResolvedLive (F := F) message) := by
  unfold Sync.conflictResolvedLive
  refine bind (reads (readDb_keeps _)) fun receiptMatch => bind (reads .get) fun engine => ?_
  split
  · exact bind (settle _ _) fun _ => reads (.pure _)
  split
  · refine with_read fun s cleanup hcleanup => ?_
    split
    · rename_i hnewer
      exact ⟨_, Does.before_pure (.work s (.supersede message cleanup) ⟨hcleanup, hnewer⟩) _⟩
    · exact reads (.throw _) s
  · exact enqueueLiveMessage _

theorem conflictResolvedStream (active : StreamState) :
    Divides (conflictResolvedStream (F := F) message active) := by
  unfold Sync.conflictResolvedStream
  refine bind (reads .get) fun engine => ?_
  dsimp only
  split
  · exact reads (.throw _)
  · exact bind (reads (readDb_keeps _)) fun _ => bind (onlyIf (settle _ _) _) fun _ => reads (.pure _)
  · exact reads (.pure _)
  refine bind (reads (readDb_keeps _)) fun receiptMatch => ?_
  split
  · exact bind (settle _ _) fun _ => resumeInboundWork _ _
  · exact bind (reads (statusForState_keeps _)) fun _ =>
      bind (retain (putStreamConflictResolved_content _ _)) fun _ =>
        bind (resumeInboundWork _ _) fun _ => reads (.pure _)

theorem conflictResolved : Divides (conflictResolved (F := F) message) := by
  refine checked (bind (reads .get) fun engine => ?_)
  split
  · exact conflictResolvedLive _
  · exact conflictResolvedStream _ _

theorem snapshotEnd (message : WorkspaceSnapshotEndMessage) : Divides (snapshotEnd (F := F) message) := by
  unfold Sync.snapshotEnd
  refine bind (reads ensureOpen_keeps) fun _ => bind (reads .get) fun engine => ?_
  split
  · exact reads (.throw _)
  · exact bind (reads (requireValid_keeps _ _)) fun _ =>
      bind (retain setStreamEndReceived_content) fun _ => resumeInboundWork _ _

theorem ackConfirmed (message : WorkspaceAckRequest) : Divides (ackConfirmed (F := F) message) := by
  unfold Sync.ackConfirmed
  refine bind (reads ensureOpen_keeps) fun _ => bind (reads (validateIdentity_keeps _ _)) fun _ =>
    bind (reads .get) fun engine => ?_
  dsimp only
  split
  · split
    · exact reads (.pure _)
    split
    · exact retain (.bind (setLastAckRevision_content _) fun _ => clearPendingSegmentAck_content)
    · exact reads (.throw _)
  split
  · exact reads (.throw _)
  have keeps : ∀ {m : TxM Unit}, Keeps Db.retained m → Moves Staging m := fun h => Moves.mono h fun _ _ => .of_retained
  refine stage (.bind Staging.trans (keeps (setLastAckRevision_content _)) fun _ => ?_)
  have hclear : Moves Staging (do
      clearPendingAck
      clearPendingSegmentAck
      clearStream) :=
    .bind Staging.trans (keeps clearPendingAck_content) fun _ =>
      .bind Staging.trans (keeps clearPendingSegmentAck_content) fun _ => clearStream_stages
  cases decide (message.revision = _) with
  | true => exact hclear
  | false => exact fun db => .refl db

theorem pendingCommands (limit : Nat) : Divides (pendingCommands (F := F) limit) := by
  unfold Sync.pendingCommands
  refine bind (reads ensureOpen_keeps) fun _ => ?_
  split
  · exact reads (.pure _)
  refine bind (resumeInboundWork _ _) fun inbound => ?_
  split
  · exact reads (.pure _)
  refine bind (reads .get) fun engine => bind (onlyIf (one .materialize fun _ => trivial) _) fun _ => ?_
  refine bind (one_of (.replay _) (fun _ => trivial) rfl) fun records => bind (reads .get) fun _ => ?_
  exact bind (reads (readDb_keeps _)) fun _ => reads (.pure _)

theorem silently {call : EngineM F Unit} (h : Divides call) : Divides (silently call) :=
  bind h fun _ => reads (.pure _)

theorem call (call : Call F) : Divides call.run := by
  cases call with
  | event message => exact event message
  | snapshotBegin message => exact silently (snapshotBegin message)
  | snapshotEntry message => exact snapshotEntry message
  | workspaceEvent message => exact workspaceEvent message
  | conflictCreated message => exact conflictCreated message
  | conflictResolved message => exact conflictResolved message
  | snapshotEnd message => exact snapshotEnd message
  | blobAvailable hash size bytes =>
    exact bind (reads ensureOpen_keeps) fun _ => bind (reads (writeFiles_keeps _)) fun _ => resumeInboundWork _ _
  | resumeInboundWork commandLimit reissueWaiting => exact resumeInboundWork _ _
  | pendingCommands limit => exact pendingCommands limit
  | ackConfirmed message => exact silently (ackConfirmed message)
  | mutationAccepted accepted => exact mutationAccepted accepted
  | mutationRejected rejected => exact silently (process (.rejected rejected))
  | blobUploaded operationId => exact silently (one (.upload operationId) fun _ => trivial)
  | recordLocalChanges changes => exact silently (one (.record changes) fun _ => trivial)
  | prepareConnectionAttempt => exact silently (one .reconnect fun _ => trivial)
  | resolveConflict conflictId conflictRevision choice =>
    exact silently (one (.resolve conflictId conflictRevision choice) fun _ => trivial)
  | queueConflictResolution request => exact silently (one (.queue request) fun _ => trivial)
  | conflictResolutionAccepted message => exact silently (one (.accept message) fun _ => trivial)
  | conflictResolutionRejected operationId code => exact one_of (.reject operationId code) (fun _ => trivial) rfl
  | close => exact silently (of_db (.modify fun _ => rfl))
  | edit files => exact silently (of_db (.modify fun _ => rfl))

end Calls

/-- A run of calls, with the units of work that the calls did. -/
inductive Traced (first : Engine F) : List (Engine F × Work) → Engine F → Prop where
  | refl : Traced first [] first
  | step {engine : Engine F} {works more : List (Engine F × Work)} {call : Call F} (run : Traced first works engine)
      (does : Does call.run engine more) : Traced first (works ++ more) (engine.after call)

theorem Run.traced {Allowed : Engine F → Call F → Prop} {first last : Engine F} (run : Run Allowed first last) :
    ∃ works, Traced first works last := by
  induction run with
  | refl => exact ⟨[], .refl⟩
  | @step engine call _ _ ih =>
    obtain ⟨works, htraced⟩ := ih
    obtain ⟨more, hmore⟩ := Calls.call call engine
    exact ⟨_, htraced.step hmore⟩

theorem Traced.run_rel {R : Engine F → List (Engine F × Work) → Engine F → Prop} {first last : Engine F}
    {works : List (Engine F × Work)} (h : Traced first works last) (hstage : ∀ s t, Staging s.db t.db → R s [] t)
    (hwork : ∀ s work, work.Ready s.db → R s [(s, work)] (final work.run s))
    (happend : ∀ s t u before after, R s before t → R t after u → R s (before ++ after) u) : R first works last := by
  induction h with
  | refl => exact hstage _ _ (.refl _)
  | step _ does ih => exact happend _ _ _ _ _ ih (does.run_rel hstage hwork happend)

/-- A run whose units of work are all allowed is one in allowed steps. -/
theorem Traced.steps {Allowed : Engine F → Work → Prop} {first last : Engine F} {works : List (Engine F × Work)}
    (h : Traced first works last) (hall : ∀ unit ∈ works, Allowed unit.1 unit.2) : Steps Allowed first last := by
  induction h with
  | refl => exact .refl
  | step _ does ih =>
    exact .trans (ih fun unit hunit => hall unit (List.mem_append_left _ hunit))
      (does.steps fun unit hunit => hall unit (List.mem_append_right _ hunit))

/-- Every run of calls is a run in single steps. -/
theorem Run.steps {Allowed : Engine F → Call F → Prop} {first last : Engine F} (run : Run Allowed first last) :
    AnySteps first last := by
  obtain ⟨works, htraced⟩ := run.traced
  exact htraced.steps fun _ _ => trivial

/-- What holds at the start and is kept by every step holds along the run. -/
theorem Steps.invariant {Allowed : Engine F → Work → Prop} {I : Engine F → Prop} {first last : Engine F}
    (steps : Steps Allowed first last) (hfirst : I first) (hstep : ∀ s t, I s → Step Allowed s t → I t) : I last := by
  induction steps with
  | refl => exact hfirst
  | tail _ step ih => exact hstep _ _ ih step

end

end Lumio.Sync
