import Lumio.Sync.Snapshot.Waiting

/-!
# Stability of a finished snapshot

While a finished snapshot waits for its acknowledgement, each round of the inbound work reconciles the store with
the snapshot again: the path states and the workspace entries at paths the snapshot does not have are dropped and
queued as new, those that a mutation accepted in the meantime has recorded included. At a path the snapshot has
nothing is dropped and nothing is queued.
-/

namespace Lumio.Sync

open Lumio.Protocol Lumio.Fs Prog

/-! ## Operations and their paths -/

theorem mutationPaths_mutationForDesired (desired : DesiredOperation) (workspaceId : WorkspaceId)
    (clientId : ClientId) (operationId : OperationId) (states : PathStates) :
    mutationPaths (mutationForDesired desired workspaceId clientId operationId states) = desired.paths := by
  cases desired <;> rfl

theorem mem_localIntentRecords {db : Db} {row : LocalIntentRecord} (h : row ∈ db.localIntentRecords) :
    ∃ key, db.localIntents.lookup key = some row := Table.mem_orderBy_iff.mp h

theorem mem_deferredOperations {db : Db} {touched : List WorkspacePath} {operation : DesiredOperation}
    (h : operation ∈ db.deferredOperations touched) :
    ∃ key row, db.localIntents.lookup key = some row ∧ desiredFromIntent row.intent = operation := by
  unfold Db.deferredOperations sortDesiredOperations at h
  rw [List.mem_insertionSort] at h
  obtain ⟨row, hrow, rfl⟩ := List.mem_map.mp (mem_dedupOperations h)
  obtain ⟨key, hkey⟩ := mem_localIntentRecords (List.mem_filter.mp hrow).1
  exact ⟨key, row, hkey, rfl⟩

/-! ## Transactions of a round -/

section

variable {active : StreamState} {path : WorkspacePath} {base : Db}

theorem conflictsReplaced_foldl {db : Db} {rows : List (Sigma fun _ : ConflictId => StreamConflictRecord)}
    (hrows : ∀ row ∈ rows, db.streamConflicts.lookup row.1 = some row.2)
    (hids : ∀ conflictId staged, db.streamConflicts.lookup conflictId = some staged →
      staged.created.conflictId = conflictId) (old : Table ConflictId ConflictRecord) :
    ∀ conflicts : Table ConflictId ConflictRecord, Db.conflictsReplaced { db with conflicts } →
      Db.conflictsReplaced { db with conflicts := rows.foldl (fun conflicts staged =>
        if (old.lookup staged.1).isSome then conflicts
        else conflicts.insert staged.1 ⟨staged.2.created, .manual, none, none⟩) conflicts } := by
  induction rows with
  | nil => exact fun conflicts h => h
  | cons row rows ih =>
    intro conflicts h
    rw [List.foldl_cons]
    refine ih (fun other hmem => hrows other (List.mem_cons_of_mem _ hmem)) _ ?_
    split
    · exact h
    have hstaged := hrows row List.mem_cons_self
    intro conflictId conflict hlookup
    rcases (Table.lookup_insert_iff conflict).mp hlookup with ⟨rfl, rfl⟩ | ⟨-, hold⟩
    · exact ⟨hids _ _ hstaged, by simp only [hstaged]⟩
    · exact h conflictId conflict hold

theorem replaceAuthoritativeConflicts_steady : Maintains (Steady active path base) replaceAuthoritativeConflicts := by
  intro db hdb
  simp only [replaceAuthoritativeConflicts, wp_bind, wp_get]
  split
  · exact hdb
  rw [wp_set]
  have hids := hdb.waiting.stagedIds
  refine ⟨{ hdb.waiting with conflicts := ?_ }, hdb.contained, hdb.stored, fun hbase => ⟨(hdb.quiet hbase).1, ?_⟩⟩
  · refine conflictsReplaced_foldl (fun row hrow => Table.lookup_eq_some_iff.mpr hrow) hids _ _ ?_
    intro conflictId conflict hlookup
    obtain ⟨hmapped, hkept⟩ := Table.lookup_keep.mp hlookup
    obtain ⟨existing, hexisting, rfl⟩ := Table.lookup_mapRows.mp hmapped
    cases hstaged : db.streamConflicts.lookup conflictId with
    | some staged => exact ⟨hids _ _ hstaged, rfl⟩
    | none =>
      have hid := (hdb.waiting.conflicts conflictId existing hexisting).1
      simp only [hstaged, Option.isSome_none, Bool.false_or] at hkept ⊢
      split
      · exact ⟨hid, by assumption⟩
      · rename_i hnone
        rw [if_neg hnone] at hkept
        exact absurd hkept hnone
  · intro operationId row mutation hrow
    exact (hdb.quiet hbase).2 operationId row mutation (Table.lookup_keep.mp hrow).1

theorem pendingOutboxReplay_steady (limit : Nat) : Maintains (Steady active path base) (pendingOutboxReplay limit) := by
  intro db hdb
  simp only [pendingOutboxReplay, wp_bind, wp_get, wp_set, wp_pure]
  refine hdb.of_outbox fun _ operationId row mutation hrow hbody _ => ?_
  have hfold : ∀ (rows : List OutboxRecord) (outbox : Table OperationId OutboxRecord) (row : OutboxRecord),
      (rows.foldl (fun outbox (row : OutboxRecord) => Table.modify row.operationId dispatchRow outbox)
        outbox).lookup operationId = some row →
      ∃ row', outbox.lookup operationId = some row' ∧ row'.body = row.body := by
    intro rows
    induction rows with
    | nil => exact fun outbox row h => ⟨row, h, rfl⟩
    | cons first rows ih =>
      intro outbox row h
      obtain ⟨row', hrow', hbody'⟩ := ih _ _ h
      obtain ⟨old, hold, hcases⟩ := Table.lookup_modify hrow'
      refine ⟨old, hold, ?_⟩
      rw [← hbody']
      rcases hcases with rfl | rfl
      · rfl
      · unfold dispatchRow
        split <;> rfl
  obtain ⟨row', hrow', hbody'⟩ := hfold _ _ _ hrow
  exact ⟨row', hrow', hbody'.trans hbody⟩

theorem finishStreamTx_steady : Maintains (Steady active path base) (finishStreamTx active []) := by
  intro db hdb
  unfold finishStreamTx
  rw [wp_bind, wp_get]
  simp only [hdb.waiting.unacknowledged, if_true]
  refine Maintains.bind (forTx_steady (by simp)) (fun _ => .bind replaceAuthoritativeConflicts_steady fun _ => ?_) db hdb
  have hcursor : ∀ {m : TxM Unit}, Keeps Db.steadyPart m → Maintains (Steady active path base) m := steady_of_steadyPart
  refine .bind (hcursor ?_) fun _ => .bind (hcursor (.modify fun _ => rfl)) fun _ => hcursor ?_
  · intro db
    simp only [setLastAppliedRevision, wp_bind, wp_get]
    split <;> rfl
  · intro db
    simp only [setPendingAck, wp_bind, wp_get]
    split <;> rfl

end

/-! ## Programs of a round -/

section

variable {F : Type} {active : StreamState} {path : WorkspacePath} {base : Db}

/-- A steady store and an empty live queue. -/
structure SteadyEngine (active : StreamState) (path : WorkspacePath) (base : Db) (engine : Engine F) : Prop where
  db : Steady active path base engine.db
  queue : engine.pendingLiveEvents = []

namespace SteadyEngine

variable {α : Type}

theorem of_ledger {s t : Engine F} (h : t.ledger = s.ledger) (hs : SteadyEngine active path base s) :
    SteadyEngine active path base t := by
  simp only [Engine.ledger, Engine.mk.injEq] at h
  exact ⟨h.1 ▸ hs.db, h.2.2.2.2.2.1.trans hs.queue⟩

theorem of_keeps {m : EngineM F α} (h : Keeps Engine.ledger m) : Maintains (SteadyEngine active path base) m :=
  .of_keeps h fun _ _ => of_ledger

theorem transaction {body : TxM α} (h : Maintains (Steady active path base) body) :
    Maintains (SteadyEngine active path base) (transaction (F := F) body) := by
  intro engine hengine
  refine wp_transaction_of ?_ fun _ => hengine
  exact wp_mono (h engine.db hengine.db) (fun _ _ hdb => ⟨hdb, hengine.queue⟩) (fun _ _ _ => trivial)

end SteadyEngine

variable [Env]

theorem nextMutations_paths (desired : List DesiredOperation) (states : PathStates) :
    Returns (fun mutations => ∀ next ∈ mutations, ∃ operation ∈ desired, mutationPaths next.1 = operation.paths)
      (nextMutations (F := F) desired states) := by
  induction desired with
  | nil => exact .pure (by simp)
  | cons operation rest ih =>
    unfold nextMutations
    have hrest : ∀ {mutations : List (WorkspaceMutation × Int)},
        (∀ next ∈ mutations, ∃ operation ∈ rest, mutationPaths next.1 = operation.paths) →
          ∀ next ∈ mutations, ∃ other ∈ operation :: rest, mutationPaths next.1 = other.paths := by
      intro mutations h next hnext
      obtain ⟨other, hother, hpaths⟩ := h next hnext
      exact ⟨other, List.mem_cons_of_mem _ hother, hpaths⟩
    split
    · exact fun s => wp_mono (ih s) (fun _ _ => hrest) (fun _ _ h => h)
    · refine .after fun operationId => .after fun timestamp => .bind ih fun next hnext => .pure ?_
      rintro first (_ | ⟨_, hmem⟩)
      · exact ⟨operation, List.mem_cons_self, mutationPaths_mutationForDesired _ _ _ _ _⟩
      · exact hrest hnext first hmem

theorem queueDesiredWithStates_steady {desired : DesiredOperation} (h : path ∉ desired.paths) (states : PathStates) :
    Maintains (SteadyEngine active path base) (queueDesiredWithStates (F := F) desired states) := by
  unfold queueDesiredWithStates
  refine .bind (SteadyEngine.of_keeps .get) fun engine => ?_
  dsimp only
  split
  · split
    · exact .pure _
    · refine .bind (SteadyEngine.of_keeps (.mapM fun _ => nextTimestamp_keeps)) fun timestamps => ?_
      refine SteadyEngine.transaction (forTx_steady fun next _ => putLocalIntent_steady ?_)
      rwa [desiredFromIntent_intentForPath]
  · refine .bind (SteadyEngine.of_keeps nextOperationId_keeps) fun operationId =>
      .bind (SteadyEngine.of_keeps nextTimestamp_keeps) fun timestamp => ?_
    refine SteadyEngine.transaction (enqueueMutationAt_steady fun _ => ?_)
    rwa [mutationPaths_mutationForDesired]

theorem materializeLocalIntent_steady {record : LocalIntentRecord}
    (h : base.noIntent path → path ∉ (desiredFromIntent record.intent).paths) (conflictPaths : List WorkspacePath)
    (states : PathStates) :
    Maintains (SteadyEngine active path base) (materializeLocalIntent (F := F) conflictPaths states record) := by
  unfold materializeLocalIntent
  dsimp only
  split
  · exact .pure _
  split
  · exact SteadyEngine.transaction (removeLocalIntent_steady _)
  refine .bind (SteadyEngine.of_keeps .get) fun engine => ?_
  split
  · exact .pure _
  refine .bind (SteadyEngine.of_keeps nextOperationId_keeps) fun operationId =>
    .bind (SteadyEngine.of_keeps nextTimestamp_keeps) fun timestamp => SteadyEngine.transaction ?_
  refine .bind (enqueueMutationAt_steady fun hbase => ?_) fun _ => forTx_steady fun key _ => removeLocalIntent_steady key
  rw [mutationPaths_mutationForDesired]
  exact h hbase

theorem materializeLocalIntents_steady :
    Maintains (SteadyEngine active path base) (materializeLocalIntents (F := F)) := by
  unfold materializeLocalIntents
  refine .get_bind fun engine hengine => ?_
  refine Maintains.forM (fun record hrecord => materializeLocalIntent_steady (fun hbase => ?_) _ _) engine hengine
  obtain ⟨key, hkey⟩ := mem_localIntentRecords hrecord
  exact (hengine.db.quiet hbase).1 key record hkey

variable [Filesystem F]

omit [Env] in
theorem desiredFromCurrent_paths [LawfulFilesystem F] (other : WorkspacePath) :
    Returns (fun desired => desired.paths = [other]) (desiredFromCurrent (F := F) other) := by
  intro s
  unfold desiredFromCurrent inspect
  simp only [wp_bind, wp_get]
  cases hinspect : Filesystem.inspect s.files other with
  | error e => exact trivial
  | ok observed =>
    cases observed with
    | none => exact rfl
    | some entry =>
      have hpath := LawfulFilesystem.inspect_path _ _ _ hinspect
      have hentry : Returns (fun desired => desired.path = other) (desiredEntryFromObserved (F := F) entry) := by
        unfold desiredEntryFromObserved
        split
        · exact .pure hpath
        · exact .after fun descriptor => .pure hpath
      exact (hentry.bind fun desired hdesired => .pure (by simp [DesiredOperation.paths, hdesired])) s

theorem reconcilePath_steady [LawfulFilesystem F] (other : WorkspacePath) :
    Maintains (SteadyEngine active path base) (reconcilePath (F := F) other) := by
  unfold reconcilePath
  refine .get_bind fun engine hengine => ?_
  dsimp only
  split
  · exact hengine
  rename_i hmissing
  have hne : path ≠ other := by
    rintro rfl
    exact hmissing hengine.db.contained
  refine Maintains.bind (SteadyEngine.transaction (removePathState_steady hne)) (fun _ => ?_) engine hengine
  refine .bind (SteadyEngine.of_keeps (inspect_keeps _)) fun observed => ?_
  cases observed with
  | none => exact .pure _
  | some observed =>
    intro s hs
    rw [wp_bind]
    refine wp_mono (wp_and (desiredFromCurrent_paths other s) (desiredFromCurrent_keeps (π := Engine.ledger) other s))
      ?_ fun _ t ht => .of_ledger ht.2 hs
    rintro desired t ⟨hpaths, hledger⟩
    refine queueDesiredWithStates_steady ?_ _ t (.of_ledger hledger hs)
    simpa [hpaths] using hne

theorem reconcileEntry_steady (observed : ObservedEntry) :
    Maintains (SteadyEngine active path base) (reconcileEntry (F := F) observed) := by
  unfold reconcileEntry
  refine .get_bind fun engine hengine => ?_
  dsimp only
  split
  · exact hengine
  rename_i hmissing
  have hne : path ≠ observed.path := by
    rintro rfl
    exact hmissing hengine.db.contained
  have hentry : Returns (fun entry => entry.path = observed.path) (desiredEntryFromObserved (F := F) observed) := by
    unfold desiredEntryFromObserved
    split
    · exact .pure rfl
    · exact .after fun descriptor => .pure rfl
  rw [wp_bind]
  refine wp_mono (wp_and (hentry engine) (desiredEntryFromObserved_keeps (π := Engine.ledger) observed engine)) ?_
    fun _ t ht => .of_ledger ht.2 hengine
  rintro entry t ⟨hpath, hledger⟩
  refine queueDesiredWithStates_steady ?_ _ t (.of_ledger hledger hengine)
  simpa [DesiredOperation.paths, hpath] using hne

theorem reconcileFullSnapshot_steady [LawfulFilesystem F] :
    Maintains (SteadyEngine active path base) (reconcileFullSnapshot (F := F)) := by
  unfold reconcileFullSnapshot
  refine .bind (SteadyEngine.of_keeps .get) fun engine => ?_
  refine .bind (.forM fun other _ => reconcilePath_steady other) fun _ => ?_
  exact .bind (SteadyEngine.of_keeps scanComplete_keeps) fun entries =>
    .forM fun observed _ => reconcileEntry_steady observed

variable {s : Engine F} (commandLimit : Nat) (reissueWaiting : Bool)

theorem replacementPlans_nil (hreplaced : s.db.conflictsReplaced) (conflicts : List ConflictRecord)
    (hstored : ∀ conflict ∈ conflicts, ∃ conflictId, s.db.conflicts.lookup conflictId = some conflict) :
    wp (replacementPlans conflicts) (fun plans t => plans = [] ∧ t = s) (fun _ t => t = s) s := by
  induction conflicts with
  | nil => exact ⟨rfl, rfl⟩
  | cons conflict rest ih =>
    have hrest := ih fun other hother => hstored other (List.mem_cons_of_mem _ hother)
    obtain ⟨conflictId, hlookup⟩ := hstored conflict List.mem_cons_self
    obtain ⟨hid, hgeneration⟩ := hreplaced conflictId conflict hlookup
    unfold replacementPlans
    rw [wp_bind, wp_get]
    dsimp only
    rw [hid]
    cases hstaged : s.db.streamConflicts.lookup conflictId with
    | none =>
      -- kept for its outstanding resolution
      simp only [hstaged] at hgeneration
      simpa only [Option.map_none, Option.isNone_none, hgeneration, and_self, if_true] using hrest
    | some staged =>
      simp only [hstaged] at hgeneration
      have hplan : wp (conflictGenerationReplacementPlan (F := F) conflict.created (some staged.created))
          (fun plan t => plan = none ∧ t = s) (fun _ t => t = s) s := by
        unfold conflictGenerationReplacementPlan
        rw [wp_bind, wp_get]
        simp [hgeneration]
      simp only [Option.map_some, Option.isNone_some, Bool.false_eq_true, false_and, if_false, wp_bind]
      refine wp_mono hplan ?_ fun _ _ h => h
      rintro plan t ⟨rfl, rfl⟩
      refine wp_seq hrest ?_
      rintro plans t ⟨rfl, rfl⟩
      exact ⟨rfl, rfl⟩

theorem finishStreamIfReady_steady [LawfulFilesystem F] :
    Maintains (SteadyEngine active path base) (finishStreamIfReady (F := F)) := by
  unfold finishStreamIfReady
  refine .get_bind fun engine hengine => ?_
  simp only [hengine.db.waiting.stored, hengine.db.waiting.mode]
  split
  · exact hengine
  split
  · exact hengine
  split
  · exact hengine
  refine Maintains.bind (.onlyIf reconcileFullSnapshot_steady _) (fun _ => ?_) engine hengine
  intro s hs
  have hplans : wp (authoritativeConflictGenerationReplacementPlans (F := F)) (fun plans t => plans = [] ∧ t = s)
      (fun _ t => t = s) s := by
    unfold authoritativeConflictGenerationReplacementPlans
    rw [wp_bind, wp_get]
    exact replacementPlans_nil hs.db.waiting.conflicts _ fun conflict hmem => Table.mem_orderBy_iff.mp hmem
  rw [wp_bind]
  refine wp_mono hplans ?_ fun _ t ht => ht ▸ hs
  rintro plans t ⟨rfl, rfl⟩
  exact Maintains.bind (SteadyEngine.transaction finishStreamTx_steady)
    (fun _ => .bind materializeLocalIntents_steady fun _ => .pure _) t hs

/-! ## The work loop does nothing -/

omit [Env] in
theorem Waiting.pendingStreamEntry {db : Db} (h : Waiting active db) : db.pendingStreamEntry = none := by
  have hready := h.ready
  simp only [Db.streamItemsReady, h.mode, Db.streamTableSummary, Bool.and_eq_true] at hready
  have hsettled : ∀ record ∈ db.entries.values, record.status.settled = true := by
    intro record hmem
    have hnil := List.length_eq_zero_iff.mp (of_decide_eq_true hready.1.2)
    simpa using List.filter_eq_nil_iff.mp hnil record hmem
  unfold Db.pendingStreamEntry
  rw [List.head?_eq_none_iff, List.filter_eq_nil_iff]
  intro record hmem
  have hvalue : record ∈ db.entries.values := Table.mem_values_iff.mpr (Table.mem_orderBy_iff.mp hmem)
  simp [hsettled record hvalue]

theorem resumeStreamStep_waiting (h : Waiting active s.db) (work : InboundWork) (commandLimit : Nat)
    (reissueWaiting : Bool) :
    wp (resumeStreamStep work commandLimit reissueWaiting) (fun _ t => t = s) (fun _ t => t = s) s := by
  unfold resumeStreamStep
  rw [wp_bind, wp_get]
  simp only [h.stored, h.mode, h.pendingStreamEntry]
  split <;> rfl

theorem resumeLoop_waiting (h : Waiting active s.db) (hqueue : s.pendingLiveEvents = []) (commandLimit : Nat)
    (reissueWaiting : Bool) (fuel : Nat) :
    ∀ (source : InboundWorkSource) (streamUnavailable liveUnavailable : Bool) (work : InboundWork),
      wp (resumeLoop commandLimit reissueWaiting fuel source streamUnavailable liveUnavailable work)
        (fun _ t => t = s) (fun _ t => t = s) s := by
  induction fuel with
  | zero => exact fun _ _ _ _ => rfl
  | succ fuel ih =>
    intro source streamUnavailable liveUnavailable work
    unfold resumeLoop
    split
    · rfl
    cases source with
    | stream =>
      dsimp only
      split
      · exact ih _ _ _ _
      refine wp_seq (resumeStreamStep_waiting h _ _ _) ?_
      rintro result t rfl
      exact ih _ _ _ _
    | live =>
      dsimp only
      split
      · exact ih _ _ _ _
      simp only [resumeLiveStep, wp_bind, wp_get, hqueue, wp_pure]
      exact ih _ _ _ _

theorem resumeInboundWork_steady [LawfulFilesystem F] :
    Maintains (SteadyEngine active path base) (resumeInboundWork (F := F) commandLimit reissueWaiting) := by
  intro s hs
  unfold resumeInboundWork
  rw [wp_bind, wp_get]
  dsimp only
  rw [wp_bind, wp_set, wp_bind]
  have hturned : SteadyEngine active path base { s with nextInboundSource := s.nextInboundSource.other } :=
    ⟨hs.db, hs.queue⟩
  refine wp_mono (resumeLoop_waiting hturned.db.waiting hturned.queue _ _ _ _ _ _ _) ?_ fun _ t ht => ht ▸ hturned
  rintro work t rfl
  refine Maintains.bind finishStreamIfReady_steady (fun _ => .bind ?_ fun _ => .pure _) _ hturned
  intro u hu
  simp only [advanceSegmentAckIfStalled, wp_bind, wp_get, hu.db.waiting.stored, hu.db.waiting.mode]
  split
  · exact hu
  · simpa using hu

/-! ## Calls -/

theorem pendingCommands_steady [LawfulFilesystem F] (limit : Nat) :
    Maintains (SteadyEngine active path base) (pendingCommands (F := F) limit) := by
  unfold pendingCommands
  refine .bind (SteadyEngine.of_keeps ensureOpen_keeps) fun _ => ?_
  split
  · exact .pure _
  refine .bind (resumeInboundWork_steady _ _) fun inbound => ?_
  split
  · exact .pure _
  refine .bind (SteadyEngine.of_keeps .get) fun engine => .bind (.onlyIf materializeLocalIntents_steady _) fun _ => ?_
  refine .bind (SteadyEngine.transaction (pendingOutboxReplay_steady _)) fun records => ?_
  exact .bind (SteadyEngine.of_keeps .get) fun _ => .bind (SteadyEngine.of_keeps (readDb_keeps _)) fun _ => .pure _

omit [Env] [Filesystem F] in
theorem recordMutationAppliedOperation_steady (originClientId : ClientId) (operationId : OperationId)
    (revision : WorkspaceRevision) (bodyDigest : AppliedOperationResult) (mutation : WorkspaceMutation) :
    Maintains (Steady active path base)
      (recordMutationAppliedOperation originClientId operationId revision bodyDigest mutation) := by
  refine steady_of_steadyPart ?_
  unfold recordMutationAppliedOperation
  split
  · exact .throw _
  split
  · exact .throw _
  · intro db
    simp only [recordAppliedOperation, wp_bind, wp_get]
    split
    · split <;> rfl
    · rfl

omit [Filesystem F] in
theorem mutationAccepted_steady (accepted : WorkspaceMutationAcceptedMessage) :
    Maintains (SteadyEngine active path base) (mutationAccepted (F := F) accepted) := by
  unfold mutationAccepted
  refine .bind (SteadyEngine.of_keeps ensureOpen_keeps) fun _ =>
    .bind (SteadyEngine.of_keeps (requireValid_keeps _ _)) fun _ => ?_
  refine .bind (SteadyEngine.of_keeps (readDb_keeps _)) fun receiptMatch =>
    .bind (SteadyEngine.of_keeps (validateIdentity_keeps _ _)) fun _ => ?_
  split
  · exact .pure _
  refine .bind (SteadyEngine.of_keeps (outstandingMutation_keeps _)) fun mutation =>
    .bind (SteadyEngine.of_keeps (readDb_keeps _)) fun _ => .get_bind fun engine hengine => ?_
  dsimp only
  rw [wp_bind]
  refine wp_mono (wp_and (nextMutations_paths _ _ engine) (nextMutations_keeps (π := Engine.ledger) _ _ engine)) ?_
    fun _ t ht => .of_ledger ht.2 hengine
  rintro next t ⟨hnext, hledger⟩
  refine Maintains.bind (SteadyEngine.transaction ?_) (fun _ => .pure _) t (.of_ledger hledger hengine)
  refine .bind (forTx_steady fun state _ => putPathState_steady state) fun _ => .bind (removeOutbox_steady _) fun _ => ?_
  refine .bind (recordMutationAppliedOperation_steady _ _ _ _ _) fun _ =>
    .bind (forTx_steady fun key _ => removeLocalIntent_steady key) fun _ => ?_
  refine forTx_steady fun promoted hpromoted => enqueueMutationAt_steady fun hbase => ?_
  -- a promoted intent does not name the path
  obtain ⟨operation, hoperation, hpaths⟩ := hnext promoted hpromoted
  obtain ⟨key, row, hrow, rfl⟩ := mem_deferredOperations hoperation
  rw [hpaths]
  exact (hengine.db.quiet hbase).1 key row hrow

/-- The calls made while the snapshot waits: work, polls, changes of the workspace by others, and acceptances of
mutations at paths the snapshot has. -/
def Calm (snapshot : Db) (_ : Engine F) : Call F → Prop
  | .resumeInboundWork _ _ | .pendingCommands _ | .edit _ => True
  | .mutationAccepted accepted => ∀ state ∈ acceptedStates accepted, snapshot.snapshotStreamContainsPath state.path
  | _ => False

theorem SteadyEngine.after [LawfulFilesystem F] {snapshot : Db} {engine : Engine F} {call : Call F}
    (h : SteadyEngine active path base engine) (hcalm : Calm snapshot engine call) :
    SteadyEngine active path base (engine.after call) := by
  cases call with
  | resumeInboundWork commandLimit reissueWaiting => exact (resumeInboundWork_steady _ _).final h
  | pendingCommands limit => exact (pendingCommands_steady _).final h
  | mutationAccepted accepted => exact (mutationAccepted_steady _).final h
  | edit files => exact ⟨h.db, h.queue⟩
  | _ => exact hcalm.elim

theorem SteadyEngine.run [LawfulFilesystem F] {snapshot : Db} {first last : Engine F}
    (run : Run (Calm snapshot) first last) (h : SteadyEngine active path base first) :
    SteadyEngine active path base last :=
  run.invariant h fun _ _ hs hcalm => hs.after hcalm

omit [Filesystem F] [Env] in
theorem SteadyEngine.refl {engine : Engine F} (waiting : Waiting active engine.db)
    (queue : engine.pendingLiveEvents = []) (contained : engine.db.snapshotStreamContainsPath path = true) :
    SteadyEngine active path engine.db engine :=
  ⟨⟨waiting, contained, id, fun h => ⟨h, fun _ row _ hrow hbody _ => ⟨row, hrow, hbody⟩⟩⟩, queue⟩

/-- While a finished snapshot waits for its acknowledgement, a path state that an acceptance has recorded at a path
of the snapshot stays recorded, and no mutation on that path is added, unless a deferred change names it. -/
theorem completed_snapshot_stable [LawfulFilesystem F] {first middle last : Engine F}
    {accepted : WorkspaceMutationAcceptedMessage} {state : WorkspacePathState} (waiting : Waiting active first.db)
    (queue : first.pendingLiveEvents = []) (before : Run (Calm first.db) first middle)
    (calm : Calm first.db middle (.mutationAccepted accepted))
    (after : Run (Calm first.db) (middle.after (.mutationAccepted accepted)) last)
    (hstate : state ∈ acceptedStates accepted) :
    (((middle.after (.mutationAccepted accepted)).db.pathStates.lookup state.path).isSome →
      (last.db.pathStates.lookup state.path).isSome) ∧
    ((middle.after (.mutationAccepted accepted)).db.noIntent state.path →
      (middle.after (.mutationAccepted accepted)).db.noneAdded last.db state.path) := by
  have hfirst := SteadyEngine.refl waiting queue (calm state hstate)
  have hrecorded := (hfirst.run before).after calm
  have hlast := (SteadyEngine.refl hrecorded.db.waiting hrecorded.queue hrecorded.db.contained).run after
  exact ⟨hlast.db.stored, fun hquiet => (hlast.db.quiet hquiet).2⟩

end

/-! ## A file that the snapshot does not have -/

section

open scoped Sample

theorem Waiting.of_noConflicts {active : StreamState} {db : Db} (stored : db.stream = some active)
    (complete : active.mode = .snapshot ∧ active.endReceived = true ∧ db.streamItemsReady active = true ∧
      db.cursor.lastAckRevision < active.finalRevision)
    (staged : db.streamConflicts.entries = []) (conflicts : db.conflicts.entries = []) : Waiting active db := by
  obtain ⟨mode, ended, ready, unacknowledged⟩ := complete
  refine ⟨stored, mode, ended, ready, unacknowledged, fun conflictId staged_ h => ?_, fun conflictId conflict h => ?_⟩
  · rw [Table.lookup_of_nil staged] at h
    cases h
  · rw [Table.lookup_of_nil conflicts] at h
    cases h

def Sample.withFile : Engine Disk := Sample.engine.after (.edit (Disk.empty.create Sample.pathA .file [1]))

/-- A full snapshot in which `a` is deleted has been received and applied. -/
def preservedSnapshot : Engine Disk :=
  ((Sample.withFile.after (.snapshotBegin ⟨1, 7, .snapshot, 0, 3, 1, 0, 0⟩)).after
    (.snapshotEntry ⟨1, 7, 0, Sample.missing Sample.pathA 3⟩)).after (.snapshotEnd ⟨1, 7, .snapshot, 1, 3⟩)

/-- A full snapshot without any entry has been received and applied, and the file `a` has been sent. -/
def emptySnapshot : Engine Disk :=
  ((Sample.withFile.after (.snapshotBegin ⟨1, 7, .snapshot, 0, 3, 0, 0, 0⟩)).after
    (.snapshotEnd ⟨1, 7, .snapshot, 0, 3⟩)).after (.pendingCommands 8)

/-- The reply to the mutation with which client 1 sends `a`. -/
def acceptedFile : WorkspaceMutationAcceptedMessage :=
  ⟨1, 1, 1000, 4, Sample.file Sample.pathA 4 [1], none, none⟩

theorem completed_snapshot_stable_of_preserved :
    ((((preservedSnapshot.after (.pendingCommands 8)).after (.mutationAccepted acceptedFile)).after
      (.resumeInboundWork 8 true)).db.pathStates.lookup Sample.pathA).isSome := by
  have hwaiting : Waiting ⟨7, .snapshot, 0, 3, 1, 0, 0, 0, true⟩ preservedSnapshot.db :=
    .of_noConflicts (by decide +kernel) (by decide +kernel) (by decide +kernel) (by decide +kernel)
  have hcalm : ∀ state ∈ acceptedStates acceptedFile,
      preservedSnapshot.db.snapshotStreamContainsPath state.path = true := by decide +kernel
  have hbefore : Run (Calm preservedSnapshot.db) preservedSnapshot (preservedSnapshot.after (.pendingCommands 8)) :=
    (Run.refl _).step trivial
  have hafter : Run (Calm preservedSnapshot.db)
      ((preservedSnapshot.after (.pendingCommands 8)).after (.mutationAccepted acceptedFile))
      (((preservedSnapshot.after (.pendingCommands 8)).after (.mutationAccepted acceptedFile)).after
        (.resumeInboundWork 8 true)) := (Run.refl _).step trivial
  have hstate : Sample.file Sample.pathA 4 [1] ∈ acceptedStates acceptedFile := by decide
  exact (completed_snapshot_stable hwaiting (by decide +kernel) hbefore hcalm hafter hstate).1 (by decide +kernel)

theorem not_stable_emptySnapshot :
    ¬ ∀ (engine : Engine Disk) (active : StreamState) (accepted : WorkspaceMutationAcceptedMessage)
      (path : WorkspacePath), Run (fun _ _ => True) Sample.engine engine → Waiting active engine.db →
        engine.pendingLiveEvents = [] →
          ((engine.after (.mutationAccepted accepted)).db.pathStates.lookup path).isSome →
            (((engine.after (.mutationAccepted accepted)).after (.resumeInboundWork 8 true)).db.pathStates.lookup
              path).isSome := by
  intro h
  have hrun : Run (fun _ _ => True) Sample.engine emptySnapshot :=
    ((((Run.refl _).step trivial).step trivial).step trivial).step trivial
  have hwaiting : Waiting ⟨7, .snapshot, 0, 3, 0, 0, 0, 0, true⟩ emptySnapshot.db :=
    .of_noConflicts (by decide +kernel) (by decide +kernel) (by decide +kernel) (by decide +kernel)
  have hkept := h emptySnapshot _ acceptedFile Sample.pathA hrun hwaiting (by decide +kernel) (by decide +kernel)
  exact absurd hkept (by decide +kernel)

end

end Lumio.Sync
