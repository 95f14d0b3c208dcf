import Lumio.Sync.Paths.Items

/-!
# The effect of applying an operation

A mutation reaches the engine as the reply to the client that sent it, as a live event and as an event of a
stream. Whichever comes first puts the same path states and the same receipt; once the receipt is there, the
others change nothing of the content of the store.
-/

namespace Lumio.Sync

open Lumio.Protocol Lumio.Fs Prog

def PathStates.putAll (states : PathStates) (posts : List WorkspacePathState) : PathStates :=
  posts.foldl (fun states state => states.insert state.path state) states

def eventRecord (event : WorkspaceEventMessage) : AppliedOperationRecord :=
  ⟨event.originClientId, event.operationId, event.revision, .mutationResult (appliedEventDigest event) event.mutation⟩

def acceptedRecord (mutation : WorkspaceMutation) (accepted : WorkspaceMutationAcceptedMessage) :
    AppliedOperationRecord :=
  ⟨accepted.clientId, accepted.operationId, accepted.revision,
    .mutationResult (appliedAcceptanceDigest mutation accepted) mutation⟩

def AppliedOperationRecord.key (record : AppliedOperationRecord) : ClientId × OperationId :=
  (record.originClientId, record.operationId)

structure Applied (posts : List WorkspacePathState) (record : AppliedOperationRecord) (before after : Db) : Prop where
  pathStates : after.pathStates = before.pathStates.putAll posts
  receipts : after.appliedOperations = before.appliedOperations.insert record.key record

def Engine.content {F : Type} (engine : Engine F) : Db := engine.db.content

theorem Db.content_of_exceptJournals {a b : Db} (h : a.exceptJournals = b.exceptJournals) :
    a.content = b.content := by
  have hcontent : ∀ db : Db, db.content = db.exceptJournals.content := fun _ => rfl
  rw [hcontent a, hcontent b, h]

theorem Engine.db_of_exceptJournals {F : Type} {s t : Engine F} (h : s.exceptJournals = t.exceptJournals) :
    s.db.exceptJournals = t.db.exceptJournals := by
  have hdb : s.exceptJournals.db = t.exceptJournals.db := by rw [h]
  exact hdb

section

variable {posts : List WorkspacePathState} {record : AppliedOperationRecord} {a b c : Db}

theorem Applied.of_before (h : b.exceptJournals = a.exceptJournals) (happlied : Applied posts record b c) :
    Applied posts record a c := by
  simp only [Db.exceptJournals, Db.mk.injEq] at h
  obtain ⟨-, -, -, -, -, hpaths, hreceipts, -⟩ := h
  exact ⟨hpaths ▸ happlied.pathStates, hreceipts ▸ happlied.receipts⟩

theorem Applied.of_content (h : c.content = b.content) (happlied : Applied posts record a b) :
    Applied posts record a c := by
  simp only [Db.content, Db.mk.injEq] at h
  obtain ⟨-, -, -, -, -, hpaths, hreceipts, -⟩ := h
  exact ⟨hpaths.trans happlied.pathStates, hreceipts.trans happlied.receipts⟩

/-! ## Transactions -/

def Db.applied (db : Db) : PathStates × Table (ClientId × OperationId) AppliedOperationRecord :=
  (db.pathStates, db.appliedOperations)

theorem applied_of_core {α : Type} {m : TxM α} (h : Keeps Db.core m) : Keeps Db.applied m := by
  refine h.comp fun s t hst => ?_
  have hcore : ∀ db : Db, db.applied = db.core.applied := fun _ => rfl
  rw [hcore s, hcore t, hst]

theorem applied_of_content {α : Type} {m : TxM α} (h : Keeps Db.content m) : Keeps Db.applied m := by
  refine h.comp fun s t hst => ?_
  have hcontent : ∀ db : Db, db.applied = db.content.applied := fun _ => rfl
  rw [hcontent s, hcontent t, hst]

theorem Applied.of_applied (h : c.applied = b.applied) (happlied : Applied posts record a b) :
    Applied posts record a c := by
  simp only [Db.applied, Prod.mk.injEq] at h
  exact ⟨h.1.trans happlied.pathStates, h.2.trans happlied.receipts⟩

theorem wp_putPosts (posts : List WorkspacePathState) (db : Db) :
    wp (forTx posts putPathState) (fun _ db' => db' = { db with pathStates := db.pathStates.putAll posts })
      (fun _ _ => True) db := by
  unfold forTx
  induction posts generalizing db with
  | nil => rfl
  | cons state posts ih =>
    rw [List.forM_cons, wp_bind]
    have hput : wp (putPathState state)
        (fun _ db' => db' = { db with pathStates := db.pathStates.insert state.path state }) (fun _ _ => True) db := by
      unfold putPathState
      split
      · trivial
      · rfl
    refine wp_mono hput ?_ fun _ _ h => h
    rintro _ db' rfl
    exact ih _

theorem wp_recordMutation {originClientId : ClientId} {operationId : OperationId} {revision : WorkspaceRevision}
    {bodyDigest : AppliedOperationResult} {mutation : WorkspaceMutation} {db : Db}
    (hmissing : db.appliedOperations.lookup (originClientId, operationId) = none) :
    wp (recordMutationAppliedOperation originClientId operationId revision bodyDigest mutation)
      (fun _ db' => db' = { db with
        appliedOperations := db.appliedOperations.insert (originClientId, operationId)
          (.mk originClientId operationId revision (.mutationResult bodyDigest mutation)) }) (fun _ _ => True) db := by
  unfold recordMutationAppliedOperation
  split
  · trivial
  split
  · trivial
  simp only [recordAppliedOperation, wp_bind, wp_get, hmissing]
  rfl

theorem wp_commitEvent {event : WorkspaceEventMessage} {rest : TxM Unit} {db : Db}
    (hmissing : db.appliedOperations.lookup (eventRecord event).key = none) (hrest : Keeps Db.applied rest) :
    wp (do
      forTx posts putPathState
      recordMutationAppliedOperation event.originClientId event.operationId event.revision (appliedEventDigest event)
        event.mutation
      rest) (fun _ db' => Applied posts (eventRecord event) db db') (fun _ _ => True) db := by
  refine wp_seq (wp_putPosts posts db) ?_
  rintro _ db' rfl
  refine wp_seq (wp_recordMutation hmissing) ?_
  rintro _ db' rfl
  exact wp_mono (hrest _) (fun _ _ h => Applied.of_applied h ⟨rfl, rfl⟩) fun _ _ _ => trivial

end

/-! ## Events -/

def AtMostApplied (posts : List WorkspacePathState) (record : AppliedOperationRecord) (before after : Db) : Prop :=
  after.content = before.content ∨ Applied posts record before after

/-- The program applies the operation, from any engine that differs from `s` in its journals only. -/
def Applies {F : Type} (s : Engine F) (posts : List WorkspacePathState) (record : AppliedOperationRecord)
    (m : EngineM F Unit) : Prop :=
  ∀ t, t.exceptJournals = s.exceptJournals → wp m (fun _ u => Applied posts record s.db u.db)
    (fun _ u => AtMostApplied posts record s.db u.db) t

section

variable {F α : Type} {posts : List WorkspacePathState} {record : AppliedOperationRecord}
  {event : WorkspaceEventMessage} {s : Engine F}

theorem Applies.after {m : EngineM F α} {f : α → EngineM F Unit} (hm : Keeps Engine.exceptJournals m)
    (hf : ∀ a, Applies s posts record (f a)) : Applies s posts record (m >>= f) := fun _ h =>
  hm.wp_bind (fun a u hu => hf a u (hu.trans h)) fun _ _ hu =>
    .inl (Db.content_of_exceptJournals (Engine.db_of_exceptJournals (hu.trans h)))

theorem Applies.of_commit {body : TxM Unit}
    (hbody : ∀ db, db.appliedOperations.lookup record.key = none →
      wp body (fun _ db' => Applied posts record db db') (fun _ _ => True) db)
    (hmissing : s.db.appliedOperations.lookup record.key = none) : Applies s posts record (transaction body) := by
  intro t h
  have hdb := Engine.db_of_exceptJournals h
  have hmissing' : t.db.appliedOperations.lookup record.key = none := by
    have hreceipts : t.db.exceptJournals.appliedOperations = s.db.exceptJournals.appliedOperations := by rw [hdb]
    exact hreceipts ▸ hmissing
  refine wp_transaction_of ?_ fun _ => .inl (Db.content_of_exceptJournals hdb)
  exact wp_mono (hbody t.db hmissing') (fun _ _ happlied => happlied.of_before hdb) fun _ _ h => h

theorem Applies.finished [Filesystem F] [Env] {streamId : StreamId} {itemKind : ApplyItemKind} {itemKey : ApplyItemKey}
    {operationSpec : RemoteApplyOperation} {postStates : List WorkspacePathState} {commitPlan : ApplyCommitPlan}
    {operation : FsOperation} {commit : ApplyReceipt → EngineM F Unit}
    (hcommit : ∀ receipt, Applies s posts record (commit receipt)) :
    Applies s posts record (do
      let receipt ← applyWithJournal streamId itemKind itemKey operationSpec postStates commitPlan operation
      commit receipt
      finishApplyJournal receipt) := by
  refine .after (applyWithJournal_keeps _ _ _ _ _ _ _) fun receipt t h => wp_seq (hcommit receipt t h) fun _ u hu => ?_
  have hkeeps : Keeps Engine.exceptJournals (finishApplyJournal (F := F) receipt) := finishApplyJournal_keeps _
  have hcontent : ∀ v : Engine F, v.exceptJournals = u.exceptJournals → v.db.content = u.db.content := fun _ hv =>
    Db.content_of_exceptJournals (Engine.db_of_exceptJournals hv)
  exact wp_mono (hkeeps u) (fun _ v hv => hu.of_content (hcontent v hv)) fun _ v hv => .inr (hu.of_content (hcontent v hv))

variable (hmissing : s.db.appliedOperations.lookup (eventRecord event).key = none)

include hmissing

theorem transaction_applies {rest : TxM Unit} (hrest : Keeps Db.applied rest) :
    Applies s posts (eventRecord event) (transaction (do
      forTx posts putPathState
      recordMutationAppliedOperation event.originClientId event.operationId event.revision (appliedEventDigest event)
        event.mutation
      rest)) := .of_commit (fun _ hmissing => wp_commitEvent hmissing hrest) hmissing

theorem eventReceiptMatch_of_missing : s.db.eventReceiptMatch event = .ok .missing := by
  have hlookup : s.db.appliedOperations.lookup (event.originClientId, event.operationId) = none := hmissing
  simp only [Db.eventReceiptMatch, hlookup]

theorem commitLiveEventWithJournal_applies (removeOutbox_ : Bool) (applyId : Option ApplyId) :
    Applies s posts (eventRecord event) (commitLiveEventWithJournal event posts removeOutbox_ applyId) := by
  refine transaction_applies hmissing ?_
  exact .bind (applied_of_core (.onlyIf (removeOutbox_keeps _) _)) fun _ =>
    .bind (applied_of_content (setLastAppliedRevision_content _)) fun _ =>
      .bind (applied_of_content (setPendingAck_content _)) fun _ => applied_of_core (commitJournal_keeps _)

variable [Env]

theorem commitEventWithJournal_applies (status : StreamItemStatus) (removeOutbox_ : Bool) (applyId : Option ApplyId) :
    Applies s posts (eventRecord event) (commitEventWithJournal event status posts removeOutbox_ applyId) := by
  refine transaction_applies hmissing ?_
  exact .bind (applied_of_core (.onlyIf (removeOutbox_keeps _) _)) fun _ =>
    .bind (applied_of_content (.onlyIf (setLastAppliedRevision_content _) _)) fun _ =>
      .bind (applied_of_content (putStreamEvent_content _ _)) fun _ => applied_of_core (commitJournal_keeps _)

variable [Filesystem F]

theorem preserved_applies {rest : TxM Unit} (hrest : Keeps Db.applied rest)
    (observed : List (WorkspacePath × Option ObservedEntry)) (removeOutbox_ : Bool) :
    Applies s posts (eventRecord event) (do
      let replacements ← preservedReplacements event observed posts
      transaction do
        forTx posts putPathState
        recordMutationAppliedOperation event.originClientId event.operationId event.revision
          (appliedEventDigest event) event.mutation
        onlyIf removeOutbox_ (removeOutbox event.operationId)
        forTx replacements.settledPaths removeLocalIntent
        forTx replacements.mutations fun (mutation, timestamp) => enqueueMutationAt mutation timestamp
        rest) := by
  refine .after (preservedReplacements_keeps _ _ _) fun replacements => transaction_applies hmissing ?_
  refine .bind (applied_of_core (.onlyIf (removeOutbox_keeps _) _)) fun _ =>
    .bind (applied_of_core (forTx_keeps removeLocalIntent_keeps)) fun _ => ?_
  exact .bind (applied_of_core (forTx_keeps fun next => enqueueMutationAt_keeps next.1 next.2)) fun _ => hrest

theorem applyLiveEvent_applied :
    wp (applyLiveEvent event) (fun _ t => Applied (eventPostStates event) (eventRecord event) s.db t.db)
      (fun _ t => AtMostApplied (eventPostStates event) (eventRecord event) s.db t.db) s := by
  unfold applyLiveEvent
  rw [wp_bind, wp_get]
  dsimp only
  rw [wp_bind]
  refine wp_readDb (fun receiptMatch hmatch => ?_) fun _ => .inl rfl
  rw [eventReceiptMatch_of_missing hmissing] at hmatch
  cases hmatch
  simp only [reduceCtorEq, if_false]
  refine Applies.after (readDb_keeps _) (fun _ => ?_) s rfl
  refine .after (observedForEvent_keeps _) fun observed => .after (eventPostMatches_keeps _ _) fun postMatches => ?_
  split
  · exact commitLiveEventWithJournal_applies hmissing _ _
  refine .after (eventBaselineMatches_keeps _ _) fun baselineMatches => ?_
  split
  · exact preserved_applies hmissing (.bind (applied_of_content (setLastAppliedRevision_content _)) fun _ =>
      applied_of_content (setPendingAck_content _)) _ _
  refine .after (operationForEvent_keeps _ _) fun operation => ?_
  cases operation with
  | none => exact commitLiveEventWithJournal_applies hmissing _ _
  | some operation => exact .finished fun receipt => commitLiveEventWithJournal_applies hmissing _ _

theorem applyEvent_applied :
    wp (applyEvent event) (fun _ t => Applied (eventPostStates event) (eventRecord event) s.db t.db)
      (fun _ t => AtMostApplied (eventPostStates event) (eventRecord event) s.db t.db) s := by
  unfold applyEvent
  rw [wp_bind, wp_get]
  dsimp only
  rw [wp_bind]
  refine wp_readDb (fun receiptMatch hmatch => ?_) fun _ => .inl rfl
  rw [eventReceiptMatch_of_missing hmissing] at hmatch
  cases hmatch
  simp only [reduceCtorEq, if_false]
  refine Applies.after (readDb_keeps _) (fun _ => ?_) s rfl
  split
  · exact commitEventWithJournal_applies hmissing _ _ _
  refine .after (observedForEvent_keeps _) fun observed => .after (eventPostMatches_keeps _ _) fun postMatches =>
    .after (eventBaselineMatches_keeps _ _) fun baselineMatches => ?_
  split
  · exact commitEventWithJournal_applies hmissing _ _ _
  split
  · exact preserved_applies hmissing (.bind (applied_of_content (putStreamEvent_content _ _)) fun _ => .pure _) _ _
  refine .after (operationForEvent_keeps _ _) fun operation => ?_
  cases operation with
  | none => exact commitEventWithJournal_applies hmissing _ _ _
  | some operation => exact .finished fun receipt => commitEventWithJournal_applies hmissing _ _ _

end

end Lumio.Sync
