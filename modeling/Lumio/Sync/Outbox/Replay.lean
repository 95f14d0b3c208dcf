import Lumio.Sync.Run

/-!
# The order of replay

The outbox is a table: what is handed to the transport first is decided by the creation times the rows
carry and, among equal times, by their operation ids. This module compares that order with the order in
which the operations were enqueued.
-/

namespace Lumio.Sync

open Lumio.Protocol Prog

/-- The operation is handed out no later than the other: it was created earlier, or at the same time under a
smaller id. -/
def OutboxRecord.replaysBefore (left right : OutboxRecord) : Bool :=
  left.createdAtMs < right.createdAtMs ||
    (left.createdAtMs == right.createdAtMs && left.operationId ≤ right.operationId)

theorem replaysBefore_total (a b : OutboxRecord) : a.replaysBefore b = true ∨ b.replaysBefore a = true := by
  simp only [OutboxRecord.replaysBefore, Bool.or_eq_true, decide_eq_true_eq, Bool.and_eq_true, beq_iff_eq]
  rcases lt_trichotomy a.createdAtMs b.createdAtMs with h | h | h
  · exact .inl (.inl h)
  · rcases Nat.le_total a.operationId b.operationId with hid | hid
    · exact .inl (.inr ⟨h, hid⟩)
    · exact .inr (.inr ⟨h.symm, hid⟩)
  · exact .inr (.inl h)

variable {a b : OutboxRecord} {queue : List OutboxRecord} {db : Db}

theorem replaysBefore_trans {c : OutboxRecord} (hab : a.replaysBefore b = true) (hbc : b.replaysBefore c = true) :
    a.replaysBefore c = true := by
  simp only [OutboxRecord.replaysBefore, Bool.or_eq_true, decide_eq_true_eq, Bool.and_eq_true, beq_iff_eq] at *
  rcases hab with hab | ⟨hab, hid⟩
  · exact .inl (by rcases hbc with h | ⟨h, -⟩ <;> omega)
  · rcases hbc with hbc | ⟨hbc, hid'⟩
    · exact .inl (by omega)
    · exact .inr ⟨by omega, hid.trans hid'⟩

theorem replaysBefore_antisymm (hab : a.replaysBefore b = true) (hba : b.replaysBefore a = true) :
    a.operationId = b.operationId := by
  simp only [OutboxRecord.replaysBefore, Bool.or_eq_true, decide_eq_true_eq, Bool.and_eq_true, beq_iff_eq] at *
  rcases hab with hab | ⟨hab, hid⟩
  · rcases hba with h | ⟨h, -⟩ <;> omega
  · rcases hba with hba | ⟨hba, hid'⟩
    · omega
    · exact le_antisymm hid hid'

/-! ## Enqueues -/

/-- One call of `enqueue_outbox_tx`. -/
structure Enqueue where
  operationId : OperationId
  body : OutboxBody
  createdAtMs : Int

def Enqueue.record (call : Enqueue) : OutboxRecord := ⟨call.operationId, call.body, .queued, call.createdAtMs⟩

def Enqueue.run (call : Enqueue) : TxM Unit := enqueueOutbox call.operationId call.body call.createdAtMs

def enqueueAll (db : Db) (calls : List Enqueue) : Db :=
  calls.foldl (fun db call => final call.run db) { db with outbox := ∅ }

/-- A queue that remembers the order of arrival. An operation enqueued again with the same body stays where
it is; with another body it arrives anew. -/
def arrive (queue : List OutboxRecord) (call : Enqueue) : List OutboxRecord :=
  if queue.any fun row => row.operationId = call.operationId && row.body = call.body then queue
  else (queue.filter fun row => row.operationId ≠ call.operationId) ++ [call.record]

def arrivals (calls : List Enqueue) : List OutboxRecord := calls.foldl arrive []

/-- What `pending_outbox_replay` hands to the transport. -/
def handedOut (db : Db) (limit : Nat) : List OperationId :=
  match pendingOutboxReplay limit db with
  | .ok rows _ => rows.map (·.operationId)
  | .error _ _ => []

structure Queued (outbox : Table OperationId OutboxRecord) (queue : List OutboxRecord) : Prop where
  rows : ∀ {id row}, outbox.lookup id = some row ↔ row ∈ queue ∧ row.operationId = id
  nodup : (queue.map (·.operationId)).Nodup
  queued : ∀ row ∈ queue, row.stage = .queued

theorem Queued.empty : Queued ∅ [] where
  rows := by simp
  nodup := by simp
  queued := by simp

theorem Queued.unique {outbox : Table OperationId OutboxRecord} (h : Queued outbox queue) (ha : a ∈ queue)
    (hb : b ∈ queue) (hid : a.operationId = b.operationId) : a = b := by
  have hla : outbox.lookup b.operationId = some a := h.rows.mpr ⟨ha, hid⟩
  have hlb : outbox.lookup b.operationId = some b := h.rows.mpr ⟨hb, rfl⟩
  exact Option.some.inj (hla.symm.trans hlb)

theorem Queued.insert {outbox : Table OperationId OutboxRecord} (h : Queued outbox queue) (call : Enqueue) :
    Queued (outbox.insert call.operationId call.record)
      ((queue.filter fun row => row.operationId ≠ call.operationId) ++ [call.record]) where
  rows := by
    intro id row
    rw [Table.lookup_insert_iff, h.rows]
    simp only [List.mem_append, List.mem_filter, List.mem_singleton, decide_eq_true_eq, ne_eq]
    constructor
    · rintro (⟨rfl, rfl⟩ | ⟨hne, hmem, rfl⟩)
      · exact ⟨.inr rfl, rfl⟩
      · exact ⟨.inl ⟨hmem, hne⟩, rfl⟩
    · rintro ⟨⟨hmem, hne⟩ | rfl, rfl⟩
      · exact .inr ⟨hne, hmem, rfl⟩
      · exact .inl ⟨rfl, rfl⟩
  nodup := by
    rw [List.map_append, List.nodup_append]
    refine ⟨h.nodup.sublist (List.filter_sublist.map _), by simp, ?_⟩
    intro id hid id' hid'
    obtain ⟨row, hrow, rfl⟩ := List.mem_map.mp hid
    obtain rfl : id' = call.operationId := by simpa [Enqueue.record] using hid'
    simpa using (List.mem_filter.mp hrow).2
  queued := by
    intro row hrow
    rcases List.mem_append.mp hrow with hold | hnew
    · exact h.queued row (List.mem_filter.mp hold).1
    · obtain rfl := List.mem_singleton.mp hnew
      rfl

theorem Queued.enqueue (h : Queued db.outbox queue) (call : Enqueue) :
    Queued (final call.run db).outbox (arrive queue call) := by
  refine wp_final (R := fun after : Db => Queued after.outbox (arrive queue call)) ?_
  simp only [Enqueue.run, enqueueOutbox, wp_bind, wp_get, arrive]
  have hany : (queue.any fun row => row.operationId = call.operationId && row.body = call.body) = true ↔
      ∃ row, db.outbox.lookup call.operationId = some row ∧ row.body = call.body := by
    simp only [List.any_eq_true, Bool.and_eq_true, decide_eq_true_eq, h.rows, and_assoc]
  split
  · rename_i existing hstored
    obtain ⟨hmem, hid⟩ := h.rows.mp hstored
    by_cases hbody : existing.body = call.body
    · simp only [hbody, if_true, wp_pure, hany.mpr ⟨existing, hstored, hbody⟩]
      exact h
    · have hnone : ¬∃ row, db.outbox.lookup call.operationId = some row ∧ row.body = call.body := by
        rintro ⟨row, hrow, hrowBody⟩
        rw [hstored] at hrow
        obtain rfl := Option.some.inj hrow
        exact hbody hrowBody
      have hrecord : ({ existing with body := call.body, createdAtMs := call.createdAtMs } : OutboxRecord) =
          call.record := by
        rw [Enqueue.record, ← h.queued existing hmem, ← hid]
      rw [if_neg hbody, if_neg (not_ne_iff.mpr (h.queued existing hmem)), if_neg (mt hany.mp hnone), hrecord]
      exact h.insert call
  · rename_i hstored
    have hnone : ¬∃ row, db.outbox.lookup call.operationId = some row ∧ row.body = call.body := by
      rintro ⟨row, hrow, -⟩
      rw [hstored] at hrow
      cases hrow
    rw [if_neg (mt hany.mp hnone)]
    exact h.insert call

theorem Queued.enqueueAll (db : Db) (calls : List Enqueue) : Queued (enqueueAll db calls).outbox (arrivals calls) := by
  unfold Sync.enqueueAll arrivals
  generalize hstart : { db with outbox := ∅ } = start
  have hempty : Queued start.outbox [] := hstart ▸ Queued.empty
  clear hstart
  generalize [] = queue at hempty ⊢
  induction calls generalizing start queue with
  | nil => exact hempty
  | cons call calls ih => exact ih _ _ (hempty.enqueue call)

/-! ## Replay -/

theorem Queued.outboxRecords (h : Queued db.outbox queue) :
    db.outboxRecords = queue.insertionSort fun a b => a.replaysBefore b := by
  have : Std.Total fun a b : OutboxRecord => a.replaysBefore b = true := ⟨replaysBefore_total⟩
  have : IsTrans OutboxRecord fun a b => a.replaysBefore b = true := ⟨fun _ _ _ => replaysBefore_trans⟩
  have hnodup : db.outbox.values.Nodup := by
    have hkeys := Table.map_values_of_keyed (t := db.outbox) fun hrow => (h.rows.mp hrow).2
    exact List.Nodup.of_map _ (hkeys ▸ db.outbox.keys_nodup)
  have hperm : db.outbox.values.Perm queue := by
    apply (List.perm_ext_iff_of_nodup hnodup h.nodup.of_map).mpr
    intro row
    rw [Table.mem_values_iff]
    simp only [h.rows, exists_and_left, exists_eq', and_true]
  have hrows : db.outboxRecords.Pairwise fun a b => a.replaysBefore b = true := List.pairwise_insertionSort _ _
  have hqueue : (queue.insertionSort fun a b => a.replaysBefore b).Pairwise fun a b => a.replaysBefore b = true :=
    List.pairwise_insertionSort _ _
  have hsorted : db.outboxRecords.Perm db.outbox.values := List.perm_insertionSort _ _
  have hqueueSorted := List.perm_insertionSort (fun a b : OutboxRecord => a.replaysBefore b = true) queue
  refine List.Perm.eq_of_pairwise ?_ hrows hqueue ((hsorted.trans hperm).trans hqueueSorted.symm)
  intro a b ha hb hab hba
  have ha' : a ∈ queue := hperm.mem_iff.mp (hsorted.mem_iff.mp ha)
  have hb' : b ∈ queue := hqueueSorted.mem_iff.mp hb
  exact h.unique ha' hb' (replaysBefore_antisymm hab hba)

theorem dispatchRow_operationId (row : OutboxRecord) : (dispatchRow row).operationId = row.operationId := by
  unfold dispatchRow
  split <;> rfl

theorem Queued.handedOut (h : Queued db.outbox queue) (limit : Nat) :
    handedOut db limit = ((queue.insertionSort fun a b => a.replaysBefore b).map (·.operationId)).take limit := by
  have hall : (db.outboxRecords.filter fun row => row.stage = .queued || row.stage = .dispatched) = db.outboxRecords := by
    apply List.filter_eq_self.mpr
    intro row hrow
    rw [h.outboxRecords, List.mem_insertionSort] at hrow
    simp [h.queued row hrow]
  have hrows : ∃ after, pendingOutboxReplay limit db = .ok ((db.outboxRecords.take limit).map dispatchRow) after := by
    apply Exists.intro
    rw [← hall]
    rfl
  obtain ⟨after, hafter⟩ := hrows
  simp only [Sync.handedOut, hafter, List.map_map, Function.comp_def, dispatchRow_operationId, h.outboxRecords,
    List.map_take]

theorem eq_of_operationIds_eq {P : OutboxRecord → Prop} (unique : ∀ a b, P a → P b → a.operationId = b.operationId → a = b) :
    ∀ {left right : List OutboxRecord}, (∀ a ∈ left, P a) → (∀ b ∈ right, P b) →
      left.map (·.operationId) = right.map (·.operationId) → left = right
  | [], [], _, _, _ => rfl
  | [], _ :: _, _, _, h => by simp at h
  | _ :: _, [], _, _, h => by simp at h
  | a :: left, b :: right, hleft, hright, h => by
    simp only [List.map_cons, List.cons.injEq, List.forall_mem_cons] at h hleft hright
    rw [unique a b hleft.1 hright.1 h.1, eq_of_operationIds_eq unique hleft.2 hright.2 h.2]

/-- What is handed out is sorted by creation time and operation id. It comes in the order in which it was
enqueued exactly when that order is the sorted one: when no operation has an earlier creation time than one
enqueued before it, and of two with one creation time the later has the greater id. -/
theorem replay_in_enqueue_order_iff (db : Db) (calls : List Enqueue) :
    (∀ limit, handedOut (enqueueAll db calls) limit =
        (((arrivals calls).insertionSort fun a b => a.replaysBefore b).map (·.operationId)).take limit) ∧
      ((∀ limit, handedOut (enqueueAll db calls) limit = ((arrivals calls).map (·.operationId)).take limit) ↔
        (arrivals calls).Pairwise fun a b => a.replaysBefore b = true) := by
  have h := Queued.enqueueAll db calls
  refine ⟨h.handedOut, ?_⟩
  simp only [h.handedOut]
  constructor
  · intro hfifo
    have hids := hfifo (arrivals calls).length
    rw [List.take_of_length_le (by simp), List.take_of_length_le (by simp)] at hids
    have hsame := eq_of_operationIds_eq (fun _ _ => h.unique) (fun _ => (List.mem_insertionSort _).mp)
      (fun _ hb => hb) hids
    have : Std.Total fun a b : OutboxRecord => a.replaysBefore b = true := ⟨replaysBefore_total⟩
    have : IsTrans OutboxRecord fun a b => a.replaysBefore b = true := ⟨fun _ _ _ => replaysBefore_trans⟩
    rw [← hsame]
    exact List.pairwise_insertionSort _ _
  · intro hsorted limit
    rw [hsorted.insertionSort_eq]

/-- A directory and a file in it, enqueued in one millisecond: the file has the smaller id. -/
def sameMillisecond : List Enqueue :=
  [⟨2, .mutation ⟨1, 1, 2, Sample.pathA, 0, .mkdir, none, zeroMetadata, none, none⟩, 5⟩,
    ⟨1, .mutation ⟨1, 1, 1, ⟨['a', '/', 'b'], by decide⟩, 0, .upsertFile, some 9, ⟨1, 0, false⟩, none, none⟩, 5⟩]

theorem not_fifo_sameMillisecond :
    ¬ ∀ (calls : List Enqueue) (limit : Nat),
      handedOut (enqueueAll Db.initial calls) limit = ((arrivals calls).map (·.operationId)).take limit := by
  intro h
  have hfile : handedOut (enqueueAll Db.initial sameMillisecond) 1 = [1] := by decide +kernel
  have harrived : ((arrivals sameMillisecond).map (·.operationId)).take 1 = [2] := by decide +kernel
  have := h sameMillisecond 1
  rw [hfile, harrived] at this
  exact absurd this (by decide)

end Lumio.Sync
