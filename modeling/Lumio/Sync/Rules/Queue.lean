import Lumio.Sync.Rules.Included

/-!
# Queueing within the rules

The outbox and the intents stay within the rules where only included operations are queued: an intent becomes
the mutation that it stands for, a mutation that is refused becomes the change it asked for, and two changes of one
path are merged into one.
-/

namespace Lumio.Sync

open Lumio.Protocol Lumio.Fs Prog

variable {rules : SyncRules}

/-! ## Transactions -/

def Db.queues (db : Db) : Table OperationId OutboxRecord × Table WorkspacePath LocalIntentRecord :=
  (db.outbox, db.localIntents)

instance : OfOutward Db.queues where
  of_outward a b h := by
    have hqueues : ∀ db : Db, db.queues = db.outward.queues := fun _ => rfl
    rw [hqueues a, hqueues b, h]

theorem Db.Ruled.of_queues {a b : Db} (h : a.Ruled rules) (hsame : b.queues = a.queues) : b.Ruled rules := by
  have houtbox : b.outbox = a.outbox := congrArg Prod.fst hsame
  have hintents : b.localIntents = a.localIntents := congrArg Prod.snd hsame
  refine ⟨fun operationId row mutation hrow => ?_, fun path row hrow => ?_⟩
  · rw [houtbox] at hrow
    exact h.mutations operationId row mutation hrow
  · rw [hintents] at hrow
    exact h.intents path row hrow

def RuledTx (rules : SyncRules) {α : Type} (m : TxM α) : Prop := Maintains (Db.Ruled rules) m

namespace RuledTx

variable {α β : Type}

theorem bind {m : TxM α} {f : α → TxM β} (hm : RuledTx rules m) (hf : ∀ a, RuledTx rules (f a)) :
    RuledTx rules (m >>= f) := Maintains.bind hm hf

theorem of_queues {m : TxM α} (h : Keeps Db.queues m) : RuledTx rules m :=
  Maintains.of_keeps h fun _ _ hsame hruled => hruled.of_queues hsame

theorem pure (a : α) : RuledTx rules (pure a) := Maintains.pure a

theorem throw (e : SyncError) : RuledTx rules (throw e : TxM α) := Maintains.throw e

theorem onlyIf {m : TxM Unit} (hm : RuledTx rules m) (condition : Bool) : RuledTx rules (onlyIf condition m) :=
  Maintains.onlyIf hm condition

theorem forTx {xs : List α} {step : α → TxM Unit} (h : ∀ x ∈ xs, RuledTx rules (step x)) :
    RuledTx rules (forTx xs step) := Maintains.forM h

theorem of_restaged {m : TxM α} (h : Moves Restaged m) : RuledTx rules m := by
  intro db hdb
  have hafter : ∀ after, Restaged db after → after.Ruled rules := by
    intro after hrestaged
    have hintents := congrArg Db.localIntents hrestaged.rest
    refine ⟨fun operationId row mutation hrow hbody => ?_, fun path row hrow => ?_⟩
    · obtain ⟨old, hold, hsame⟩ := hrestaged.rows hrow
      exact hdb.mutations operationId old mutation hold (hsame ▸ hbody)
    · rw [show after.localIntents = db.localIntents from hintents] at hrow
      exact hdb.intents path row hrow
  exact wp_mono (h db) (fun _ => hafter) (fun _ => hafter)

variable (operationId : OperationId) (createdAtMs : Int)

theorem removeOutbox : RuledTx rules (removeOutbox operationId) :=
  of_restaged (removeOutbox_restages operationId)

theorem setOutboxStage (stage : OutboxStage) :
    RuledTx rules (setOutboxStage operationId stage) := of_restaged (setOutboxStage_restages operationId stage)

theorem removeLocalIntent (path : WorkspacePath) : RuledTx rules (removeLocalIntent path) := by
  refine fun db hdb => ⟨hdb.mutations, fun other row hrow => ?_⟩
  exact hdb.intents other row (Table.lookup_erase_iff.mp hrow).2

theorem putLocalIntent (path : WorkspacePath) {intent : LocalIntent} (updatedAtMs : Int)
    (h : (desiredFromIntent intent).Included rules) : RuledTx rules (putLocalIntent path intent updatedAtMs) := by
  refine fun db hdb => ⟨hdb.mutations, fun other row hrow => ?_⟩
  rcases (Table.lookup_insert_iff row).mp hrow with ⟨-, rfl⟩ | ⟨-, hold⟩
  · exact h
  · exact hdb.intents other row hold

theorem putLocalIntents {desired : DesiredOperation} (paths : List WorkspacePath) (updatedAtMs : Int)
    (h : desired.Included rules) :
    RuledTx rules (Sync.forTx paths fun path => Sync.putLocalIntent path desired.intentForPath updatedAtMs) :=
  forTx fun path _ => putLocalIntent path updatedAtMs (by rw [desiredFromIntent_intentForPath]; exact h)

theorem removeConflict (conflictId : ConflictId) : RuledTx rules (removeConflict conflictId) :=
  of_queues (.modify fun _ => rfl)

theorem setConflictStatus (conflictId : ConflictId) (status : ConflictStatus) :
    RuledTx rules (setConflictStatus conflictId status) := of_queues (.modify fun _ => rfl)

theorem enqueueOutbox {body : OutboxBody}
    (h : ∀ mutation, body = .mutation mutation → MutationIncluded rules mutation) :
    RuledTx rules (enqueueOutbox operationId body createdAtMs) := by
  intro db hdb
  have insert : ∀ row : OutboxRecord, row.body = body →
      Db.Ruled rules { db with outbox := db.outbox.insert operationId row } := by
    intro row hrow
    refine ⟨fun id after mutation hlookup hbody => ?_, hdb.intents⟩
    rcases (Table.lookup_insert_iff after).mp hlookup with ⟨-, rfl⟩ | ⟨-, hold⟩
    · exact h mutation (hrow ▸ hbody)
    · exact hdb.mutations id after mutation hold hbody
  simp only [Sync.enqueueOutbox, wp_bind, wp_get]
  split
  · split
    · exact hdb
    split
    · exact hdb
    · exact insert _ rfl
  · exact insert _ rfl

variable [Env]

theorem enqueueMutationAt {mutation : WorkspaceMutation} (h : MutationIncluded rules mutation) :
    RuledTx rules (enqueueMutationAt mutation createdAtMs) := by
  unfold Sync.enqueueMutationAt
  split
  · exact .throw _
  split
  · exact .throw _
  · refine enqueueOutbox _ _ fun other hother => ?_
    cases hother
    exact h

theorem enqueueAll {next : List (WorkspaceMutation × Int)} (h : ∀ item ∈ next, MutationIncluded rules item.1) :
    RuledTx rules (Sync.forTx next fun (mutation, timestamp) => Sync.enqueueMutationAt mutation timestamp) :=
  forTx fun item hitem => enqueueMutationAt item.2 (h item hitem)

theorem enqueueConflictResolution (request : WorkspaceConflictResolvedRequest) (createdAtMs : Int) :
    RuledTx rules (enqueueConflictResolution request createdAtMs) := by
  unfold Sync.enqueueConflictResolution
  split
  · exact .throw _
  split
  · exact .throw _
  · refine enqueueOutbox _ _ fun mutation hmutation => ?_
    cases hmutation

theorem putConflict (conflict : ConflictRecord) : RuledTx rules (putConflict conflict) := by
  unfold Sync.putConflict
  split
  · exact .throw _
  split
  · exact .throw _
  · exact of_queues (.modify fun _ => rfl)

end RuledTx

/-! ## Programs -/

/-- A program that keeps the outbox and the intents within the rules. -/
def RuledM (rules : SyncRules) {F α : Type} (m : EngineM F α) : Prop := Maintains (fun s => s.db.Ruled rules) m

namespace RuledM

variable {F α β : Type}

theorem bind {m : EngineM F α} {f : α → EngineM F β} (hm : RuledM rules m) (hf : ∀ a, RuledM rules (f a)) :
    RuledM rules (m >>= f) := Maintains.bind hm hf

theorem bind_returns {P : α → Prop} {m : EngineM F α} {f : α → EngineM F β} (hm : RuledM rules m)
    (hreturns : Returns P m) (hf : ∀ a, P a → RuledM rules (f a)) : RuledM rules (m >>= f) :=
  Maintains.bind_returns hm hreturns hf

theorem read {f : Engine F → EngineM F β} (hf : ∀ s, s.db.Ruled rules → RuledM rules (f s)) :
    RuledM rules (get >>= f) := Maintains.get_bind fun s hs => hf s hs s hs

theorem reads {m : EngineM F α} (h : Keeps Engine.exceptJournals m) : RuledM rules m := by
  refine Maintains.of_keeps h fun s t hst hruled => hruled.of_queues ?_
  have hdb : t.exceptJournals.db = s.exceptJournals.db := by rw [hst]
  have hqueues : ∀ e : Engine F, e.db.queues = e.exceptJournals.db.queues := fun _ => rfl
  rw [hqueues t, hqueues s, hdb]

theorem transaction {body : TxM α} (h : RuledTx rules body) : RuledM rules (transaction (F := F) body) := by
  intro engine hengine
  rw [wp_transaction]
  exact wp_mono (h engine.db hengine) (fun _ _ hdb => hdb) (fun _ _ _ => hengine)

theorem forM {γ : Type} {f : γ → EngineM F PUnit} {xs : List γ} (h : ∀ x ∈ xs, RuledM rules (f x)) :
    RuledM rules (forM xs f) := Maintains.forM h

variable [Env]

theorem nextMutations_returns {desired : List DesiredOperation}
    (h : ∀ operation ∈ desired, operation.Included rules) (states : PathStates) :
    Returns (fun next => ∀ item ∈ next, MutationIncluded rules item.1) (nextMutations (F := F) desired states) := by
  induction desired with
  | nil => exact .pure (by simp)
  | cons operation rest ih =>
    have hrest := ih fun other hother => h other (by simp [hother])
    unfold nextMutations
    split
    · exact hrest
    refine .after fun operationId => .after fun timestamp => hrest.bind fun next hnext => .pure fun item hitem => ?_
    rcases List.mem_cons.mp hitem with rfl | hitem
    · exact mutationForDesired_included (h operation (by simp)) _ _ _ _
    · exact hnext item hitem

/-! ### Local changes -/

variable {desired : DesiredOperation}

theorem recordDesired (h : desired.Included rules) : RuledM rules (recordDesired (F := F) desired) := by
  refine read fun engine hengine => ?_
  dsimp only
  split
  · split
    · exact reads (.pure _)
    split
    · exact bind (reads nextOperationId_keeps) fun _ => bind (reads nextTimestamp_keeps) fun _ =>
        transaction (.bind (.removeOutbox _) fun _ =>
          .bind (.enqueueMutationAt _ (mutationForDesired_included h _ _ _ _)) fun _ =>
            .forTx fun path _ => .removeLocalIntent path)
    · exact bind (reads nextTimestamp_keeps) fun _ => transaction (.putLocalIntents _ _ h)
  split
  · rename_i merged existingPaths hmerged
    exact bind (reads nextTimestamp_keeps) fun _ =>
      transaction (.bind (.forTx fun path _ => .removeLocalIntent path) fun _ =>
        .putLocalIntents _ _ (hengine.compactDeferred h hmerged))
  split
  · exact transaction (.forTx fun path _ => .removeLocalIntent path)
  · exact bind (reads nextOperationId_keeps) fun _ => bind (reads (requireValid_keeps _ _)) fun _ =>
      bind (reads nextTimestamp_keeps) fun _ =>
        transaction (.bind (.enqueueMutationAt _ (mutationForDesired_included h _ _ _ _)) fun _ =>
          .forTx fun path _ => .removeLocalIntent path)

theorem deferDesired (h : desired.Included rules) : RuledM rules (deferDesired (F := F) desired) :=
  bind (reads nextTimestamp_keeps) fun _ => transaction (.putLocalIntents _ _ h)

theorem queueDesiredWithStates (h : desired.Included rules) (states : PathStates) :
    RuledM rules (queueDesiredWithStates (F := F) desired states) := by
  refine bind (reads .get) fun engine => ?_
  dsimp only
  split
  · split
    · exact reads (.pure _)
    · refine bind (reads (.mapM fun _ => nextTimestamp_keeps)) fun _ => transaction (.forTx fun item _ => ?_)
      exact .putLocalIntent _ _ (by rw [desiredFromIntent_intentForPath]; exact h)
  · exact bind (reads nextOperationId_keeps) fun _ => bind (reads nextTimestamp_keeps) fun _ =>
      transaction (.enqueueMutationAt _ (mutationForDesired_included h _ _ _ _))

theorem materializeLocalIntent (conflictPaths : List WorkspacePath) (states : PathStates)
    {record : LocalIntentRecord} (h : (desiredFromIntent record.intent).Included rules) :
    RuledM rules (materializeLocalIntent (F := F) conflictPaths states record) := by
  unfold Sync.materializeLocalIntent
  dsimp only
  split
  · exact reads (.pure _)
  split
  · exact transaction (.removeLocalIntent _)
  refine bind (reads .get) fun engine => ?_
  split
  · exact reads (.pure _)
  · exact bind (reads nextOperationId_keeps) fun _ => bind (reads nextTimestamp_keeps) fun _ =>
      transaction (.bind (.enqueueMutationAt _ (mutationForDesired_included h _ _ _ _)) fun _ =>
        .forTx fun path _ => .removeLocalIntent path)

theorem materializeLocalIntents : RuledM rules (materializeLocalIntents (F := F)) :=
  read fun _ hengine => forM fun _ hrecord => materializeLocalIntent _ _ (hengine.localIntentRecords hrecord)

/-! ### Replies to mutations -/

omit [Env] in
theorem outstandingMutation {operationId : OperationId} {f : WorkspaceMutation → EngineM F β}
    (hf : ∀ mutation, MutationIncluded rules mutation → RuledM rules (f mutation)) :
    RuledM rules (outstandingMutation operationId >>= f) := by
  intro s hs
  simp only [Sync.outstandingMutation, wp_bind, wp_get]
  split
  · exact hs
  rename_i record hrecord
  split
  · exact hs
  rename_i mutation hmutation
  unfold OutboxRecord.mutation? at hmutation
  split at hmutation
  · rename_i body hbody
    cases hmutation
    exact hf mutation (hs.mutations operationId record mutation hrecord hbody) s hs
  · cases hmutation

theorem mutationAccepted (accepted : WorkspaceMutationAcceptedMessage) :
    RuledM rules (mutationAccepted (F := F) accepted) := by
  refine bind (reads ensureOpen_keeps) fun _ => bind (reads (requireValid_keeps _ _)) fun _ =>
    bind (reads (readDb_keeps _)) fun receiptMatch => bind (reads (validateIdentity_keeps _ _)) fun _ => ?_
  split
  · exact reads (.pure _)
  refine outstandingMutation fun mutation _ => bind (reads (readDb_keeps _)) fun _ => read fun engine hengine => ?_
  refine bind_returns (reads (nextMutations_keeps _ _))
    (nextMutations_returns (fun operation hoperation => hengine.deferredOperations hoperation) _) fun next hnext => ?_
  refine bind (transaction (.bind (.forTx fun state _ => .of_queues (putPathState_outward state)) fun _ =>
    .bind (.removeOutbox _) fun _ => ?_)) fun _ => reads (.pure _)
  exact .bind (.of_queues (recordMutationAppliedOperation_outward _ _ _ _ _)) fun _ =>
    .bind (.forTx fun path _ => .removeLocalIntent path) fun _ => .enqueueAll hnext

omit [Env] in
theorem stale_included {mutation : WorkspaceMutation} {db : Db} (h : MutationIncluded rules mutation)
    (hdb : db.Ruled rules) : ∀ operation ∈ (match db.deferredOperations (mutationPaths mutation) with
      | [] => [desiredFromMutation mutation none]
      | intents => intents), operation.Included rules := by
  intro operation hoperation
  split at hoperation
  · rw [List.mem_singleton.mp hoperation]
    exact desiredFromMutation_included h none (by simp)
  · exact hdb.deferredOperations hoperation

theorem reconcileStale {mutation : WorkspaceMutation} (h : MutationIncluded rules mutation)
    (current : Option WorkspacePathState) : RuledM rules (reconcileStale (F := F) mutation current) := by
  unfold Sync.reconcileStale
  split
  · exact reads (.throw _)
  refine read fun engine hengine => ?_
  refine bind_returns (reads (nextMutations_keeps _ _)) (nextMutations_returns (stale_included h hengine) _) fun next hnext => ?_
  refine transaction (.bind ?_ fun _ => .bind (.removeOutbox _) fun _ =>
    .bind (.forTx fun path _ => .removeLocalIntent path) fun _ => .enqueueAll hnext)
  cases current with
  | none => exact .of_queues (removePathState_outward _)
  | some state => exact .of_queues (putPathState_outward state)

theorem mutationRejected (rejected : WorkspaceMutationRejectedMessage) :
    RuledM rules (mutationRejected (F := F) rejected) := by
  refine bind (reads ensureOpen_keeps) fun _ => bind (reads (requireValid_keeps _ _)) fun _ =>
    bind (reads (validateIdentity_keeps _ _)) fun _ => ?_
  split
  · exact reads (.throw _)
  refine outstandingMutation fun mutation hmutation => ?_
  split
  · split
    · exact reads (.throw _)
    · exact transaction (.setOutboxStage _ _)
  · exact transaction (.setOutboxStage _ _)
  · exact reconcileStale hmutation _
  · exact reads (.throw _)

omit [Env] in
theorem blobUploaded (operationId : OperationId) : RuledM rules (blobUploaded (F := F) operationId) := by
  refine bind (reads ensureOpen_keeps) fun _ => bind (reads .get) fun engine => ?_
  dsimp only
  split
  · exact reads (.throw _)
  split
  · exact transaction (.setOutboxStage _ _)
  · exact reads (.pure _)
  · exact reads (.throw _)
  · exact reads (.throw _)

omit [Env] in
theorem prepareConnectionAttempt : RuledM rules (prepareConnectionAttempt (F := F)) :=
  bind (reads ensureOpen_keeps) fun _ => transaction (.of_restaged replayAwaitingBlobMutations_restages)

end RuledM

end Lumio.Sync
