import Lumio.Sync.Run
import Mathlib.Logic.Relation
import Mathlib.Logic.Equiv.List
import Mathlib.Data.Countable.Basic

/-!
# Outbox rows as they are stored

A row of the outbox table holds the JSON text of its operation beside the digest of that text. The rest of
the development reads a row as the operation its text spells; this module is about the texts: which rows
the store can read back, and when a text may change.
-/

namespace Lumio.Sync

open Lumio.Protocol Prog

/-- What the store takes from `serde_json` and BLAKE3: the JSON text of an operation, reading a text back as
one of the two kinds of operation, and the digest of a text. -/
class BodyCodec where
  mutationJson : WorkspaceMutation → List UInt8
  resolutionJson : WorkspaceConflictResolvedRequest → List UInt8
  parseMutation : List UInt8 → Option WorkspaceMutation
  parseResolution : List UInt8 → Option WorkspaceConflictResolvedRequest
  digest : List UInt8 → Nat

/-- A text reads back as the operation it was written for, and a resolution has no reading as a mutation: it
lacks the fields `basePathRevision` and `kind`. -/
class LawfulBodyCodec [BodyCodec] : Prop where
  parse_mutationJson : ∀ mutation, BodyCodec.parseMutation (BodyCodec.mutationJson mutation) = some mutation
  parse_resolutionJson : ∀ request, BodyCodec.parseResolution (BodyCodec.resolutionJson request) = some request
  parseMutation_resolutionJson : ∀ request, BodyCodec.parseMutation (BodyCodec.resolutionJson request) = none

namespace Outbox

structure OutboxRow where
  clientId : ClientId
  operationId : OperationId
  workspaceId : WorkspaceId
  bodyJson : List UInt8
  bodyDigest : Nat
  stage : OutboxStage
  createdAtMs : Int
deriving DecidableEq

abbrev Rows := Table OperationId OutboxRow

abbrev RowsM := EStateM SyncError Rows

section Store

variable [BodyCodec]

def OutboxRow.decodedBody (row : OutboxRow) : Option OutboxBody :=
  match BodyCodec.parseMutation row.bodyJson with
  | some mutation => some (.mutation mutation)
  | none => (BodyCodec.parseResolution row.bodyJson).map .conflictResolution

def OutboxRow.names (row : OutboxRow) : OutboxBody → Bool
  | .mutation mutation =>
    mutation.validate.isOk && mutation.workspaceId = row.workspaceId && mutation.clientId = row.clientId &&
      mutation.operationId = row.operationId
  | .conflictResolution request =>
    request.validate.isOk && request.workspaceId = row.workspaceId && request.clientId = row.clientId &&
      request.operationId = row.operationId

/-- What `row_to_outbox` checks before it returns the row. -/
def OutboxRow.readable (row : OutboxRow) : Bool :=
  row.bodyDigest = BodyCodec.digest row.bodyJson && row.decodedBody.any row.names

def rowToOutbox (row : OutboxRow) : RowsM OutboxRow :=
  if row.readable then pure row else throw .storageUnavailable

variable [Env]

def enqueueOutbox (operationId : OperationId) (workspaceId : WorkspaceId) (bodyJson : List UInt8)
    (createdAtMs : Int) : RowsM OutboxRow := do
  let bodyDigest := BodyCodec.digest bodyJson
  let rows ← get
  match rows.lookup operationId with
  | some stored => do
    let existing ← rowToOutbox stored
    if existing.workspaceId ≠ workspaceId ∨ existing.bodyDigest ≠ bodyDigest then
      if existing.stage ≠ .queued then throw .operationChanged
      else
        let replaced := { existing with workspaceId, bodyJson, bodyDigest, createdAtMs }
        set (rows.insert operationId replaced)
        pure replaced
    else pure existing
  | none =>
    let row : OutboxRow := ⟨Env.clientId, operationId, workspaceId, bodyJson, bodyDigest, .queued, createdAtMs⟩
    set (rows.insert operationId row)
    pure row

def enqueueMutation (mutation : WorkspaceMutation) (createdAtMs : Int) : RowsM OutboxRow :=
  if mutation.validate.isOk = false then throw (.protocolInvariant "invalid_mutation")
  else if mutation.workspaceId ≠ Env.workspaceId ∨ mutation.clientId ≠ Env.clientId then
    throw (.protocolInvariant "outbox_identity_mismatch")
  else
    enqueueOutbox mutation.operationId mutation.workspaceId (BodyCodec.mutationJson mutation) createdAtMs

def enqueueConflictResolution (request : WorkspaceConflictResolvedRequest) (createdAtMs : Int) : RowsM OutboxRow :=
  if request.validate.isOk = false then throw (.protocolInvariant "invalid_conflict_resolution")
  else if request.workspaceId ≠ Env.workspaceId ∨ request.clientId ≠ Env.clientId then
    throw (.protocolInvariant "outbox_identity_mismatch")
  else
    enqueueOutbox request.operationId request.workspaceId (BodyCodec.resolutionJson request) createdAtMs

/-- The update every dispatch makes: `SET stage = 'dispatched' … AND stage = 'queued'`. -/
def dispatch (row : OutboxRow) : OutboxRow := if row.stage = .queued then { row with stage := .dispatched } else row

def markDispatched (operationId : OperationId) : RowsM Unit := modify (Table.modify operationId dispatch)

def inOrder (rows : Rows) : List OutboxRow :=
  rows.orderBy fun a b =>
    a.createdAtMs < b.createdAtMs || (a.createdAtMs == b.createdAtMs && a.operationId ≤ b.operationId)

def dispatchNext : RowsM (Option OutboxRow) := do
  let rows ← get
  match ((inOrder rows).filter fun row => row.stage = .queued).head? with
  | none => pure none
  | some stored => do
    let selected ← rowToOutbox stored
    set (Table.modify selected.operationId dispatch rows)
    pure (some { selected with stage := .dispatched })

def pendingOutbox : Nat → RowsM (List OutboxRow)
  | 0 => pure []
  | limit + 1 => do
    match ← dispatchNext with
    | none => pure []
    | some record => do
      let records ← pendingOutbox limit
      pure (record :: records)

def pendingOutboxReplay (limit : Nat) : RowsM (List OutboxRow) := do
  let rows ← get
  let records := ((inOrder rows).filter fun row => row.stage = .queued || row.stage = .dispatched).take limit
  if records.all OutboxRow.readable then do
    set (records.foldl (fun rows record => Table.modify record.operationId dispatch rows) rows)
    pure (records.map dispatch)
  else throw (.corruptState "outbox" "body_json")

def setOutboxStage (operationId : OperationId) (stage : OutboxStage) : RowsM Unit := do
  let rows ← get
  match rows.lookup operationId with
  | none => throw (.protocolInvariant "outbox_not_found")
  | some stored => do
    let existing ← rowToOutbox stored
    if outboxStageTransitionAllowed existing.stage stage then
      set (Table.modify operationId (fun row => { row with stage }) rows)
    else throw (.protocolInvariant "outbox_stage_regression")

def replayAwaitingBlobMutations : RowsM Unit :=
  modify fun rows => rows.mapRows fun _ row => if row.stage = .awaitingBlob then { row with stage := .dispatched } else row

def removeOutbox (operationId : OperationId) : RowsM Unit := modify fun rows => rows.erase operationId

/-- The deletions that select their rows by the stored text: those of superseded resolutions and of an event
adopted from an earlier version. -/
def removeMatching (condition : OutboxRow → Bool) : RowsM Unit :=
  modify fun rows => rows.keep fun _ row => !condition row

inductive Call where
  | enqueueMutation (mutation : WorkspaceMutation) (createdAtMs : Int)
  | enqueueConflictResolution (request : WorkspaceConflictResolvedRequest) (createdAtMs : Int)
  | markDispatched (operationId : OperationId)
  | dispatchNext
  | pendingOutbox (limit : Nat)
  | pendingOutboxReplay (limit : Nat)
  | setOutboxStage (operationId : OperationId) (stage : OutboxStage)
  | replayAwaitingBlobMutations
  | removeOutbox (operationId : OperationId)
  | removeMatching (condition : OutboxRow → Bool)

def Call.run : Call → RowsM Unit
  | .enqueueMutation mutation createdAtMs => do
    let _ ← Outbox.enqueueMutation mutation createdAtMs
  | .enqueueConflictResolution request createdAtMs => do
    let _ ← Outbox.enqueueConflictResolution request createdAtMs
  | .markDispatched operationId => Outbox.markDispatched operationId
  | .dispatchNext => do
    let _ ← Outbox.dispatchNext
  | .pendingOutbox limit => do
    let _ ← Outbox.pendingOutbox limit
  | .pendingOutboxReplay limit => do
    let _ ← Outbox.pendingOutboxReplay limit
  | .setOutboxStage operationId stage => Outbox.setOutboxStage operationId stage
  | .replayAwaitingBlobMutations => Outbox.replayAwaitingBlobMutations
  | .removeOutbox operationId => Outbox.removeOutbox operationId
  | .removeMatching condition => Outbox.removeMatching condition

def Run : Rows → Rows → Prop := Relation.ReflTransGen fun before after => ∃ call : Call, after = final call.run before

end Store

/-! ## What a call does to a row -/

section Moves

variable [BodyCodec] [Env]

/-- A row the store wrote: it can be read back, and its columns and digest belong to its text. -/
structure Sound (id : OperationId) (row : OutboxRow) : Prop where
  operationId : row.operationId = id
  clientId : row.clientId = Env.clientId
  workspaceId : row.workspaceId = Env.workspaceId
  readable : row.readable = true

/-- A row after a call: the same row in a stage that is not `queued` again, or a queued row with a new text. -/
def RowMove (id : OperationId) (before after : OutboxRow) : Prop :=
  (∃ stage, after = { before with stage } ∧ (before.stage ≠ .queued → stage ≠ .queued)) ∨
    before.stage = .queued ∧ Sound id after

/-- Each row left by a call was moved or is new. -/
def Touches (before after : Rows) : Prop :=
  ∀ id row, after.lookup id = some row →
    (∃ old, before.lookup id = some old ∧ RowMove id old row) ∨ before.lookup id = none ∧ Sound id row

def Restages (before after : Rows) : Prop :=
  ∀ id row, after.lookup id = some row →
    ∃ old stage, before.lookup id = some old ∧ row = { old with stage } ∧ (old.stage ≠ .queued → stage ≠ .queued)

variable (rows : Rows)

omit [BodyCodec] [Env] in
theorem Restages.refl : Restages rows rows :=
  fun _ row h => ⟨row, row.stage, h, rfl, id⟩

omit [BodyCodec] [Env] in
theorem Restages.trans {a b c : Rows} (hab : Restages a b) (hbc : Restages b c) : Restages a c := by
  intro id row hrow
  obtain ⟨mid, stage, hmid, rfl, hstage⟩ := hbc id row hrow
  obtain ⟨old, stage', hold, rfl, hstage'⟩ := hab id mid hmid
  exact ⟨old, stage, hold, rfl, fun h => hstage (hstage' h)⟩

theorem Restages.touches {before after : Rows} (h : Restages before after) : Touches before after := by
  intro id row hrow
  obtain ⟨old, stage, hold, rfl, hstage⟩ := h id row hrow
  exact .inl ⟨old, hold, .inl ⟨stage, rfl, hstage⟩⟩

section

omit [BodyCodec] [Env]

theorem restages_modify (id : OperationId) {f : OutboxRow → OutboxRow}
    (h : ∀ row, ∃ stage, f row = { row with stage } ∧ (row.stage ≠ .queued → stage ≠ .queued)) :
    Restages rows (Table.modify id f rows) := by
  intro id' row hrow
  obtain ⟨old, hold, rfl | rfl⟩ := Table.lookup_modify hrow
  · exact ⟨row, row.stage, hold, rfl, fun h => h⟩
  · obtain ⟨stage, hstage, hqueued⟩ := h old
    exact ⟨old, stage, hold, hstage, hqueued⟩

theorem dispatch_restages (row : OutboxRow) :
    ∃ stage, dispatch row = { row with stage } ∧ (row.stage ≠ .queued → stage ≠ .queued) := by
  unfold dispatch
  split
  · exact ⟨.dispatched, rfl, fun _ => by decide⟩
  · exact ⟨row.stage, rfl, fun h => h⟩

theorem restages_dispatchAll (records : List OutboxRow) (rows : Rows) :
    Restages rows (records.foldl (fun rows record => Table.modify record.operationId dispatch rows) rows) := by
  induction records generalizing rows with
  | nil => exact .refl rows
  | cons record records ih =>
    exact (restages_modify rows record.operationId dispatch_restages).trans (ih _)

end

/-! ## Each call -/

section

omit [Env]

theorem wp_rowToOutbox {row : OutboxRow} {Q : OutboxRow → Rows → Prop} {E : SyncError → Rows → Prop} {rows : Rows}
    (hQ : row.readable = true → Q row rows) (hE : E .storageUnavailable rows) : wp (rowToOutbox row) Q E rows := by
  unfold rowToOutbox
  split
  · rename_i h
    exact hQ h
  · exact hE

theorem dispatchNext_restages : Prog.Moves Restages dispatchNext := by
  intro rows
  simp only [dispatchNext, wp_bind, wp_get]
  split
  · exact .refl rows
  · rename_i stored _
    rw [wp_bind]
    apply wp_rowToOutbox
    · intro _
      exact restages_modify rows stored.operationId dispatch_restages
    · exact .refl rows

theorem pendingOutbox_restages (limit : Nat) : Prog.Moves Restages (pendingOutbox limit) := by
  induction limit with
  | zero => exact fun rows => .refl rows
  | succ limit ih =>
    apply Prog.Moves.bind (fun hab hbc => hab.trans hbc) dispatchNext_restages
    intro record
    cases record with
    | none => exact fun rows => .refl rows
    | some record =>
      apply Prog.Moves.bind (fun hab hbc => hab.trans hbc) ih
      exact fun _ rows => .refl rows

theorem pendingOutboxReplay_restages (limit : Nat) : Prog.Moves Restages (pendingOutboxReplay limit) := by
  intro rows
  simp only [pendingOutboxReplay, wp_bind, wp_get]
  split
  · exact restages_dispatchAll _ rows
  · exact .refl rows

theorem setOutboxStage_restages (operationId : OperationId) (stage : OutboxStage) :
    Prog.Moves Restages (setOutboxStage operationId stage) := by
  intro rows
  simp only [setOutboxStage, wp_bind, wp_get]
  split
  · exact .refl rows
  rename_i stored hstored
  rw [wp_bind]
  apply wp_rowToOutbox _ (.refl rows)
  intro _
  split
  · rename_i hallowed
    intro id row hrow
    unfold Table.modify at hrow
    rw [hstored] at hrow
    rcases (Table.lookup_insert_iff row).mp hrow with ⟨rfl, rfl⟩ | ⟨-, hold⟩
    · refine ⟨stored, stage, hstored, rfl, fun hleft => ?_⟩
      intro hqueued
      subst hqueued
      revert hleft hallowed
      cases stored.stage <;> decide
    · exact ⟨row, row.stage, hold, rfl, fun h => h⟩
  · exact .refl rows

end

theorem enqueueOutbox_touches {operationId : OperationId} {bodyJson : List UInt8} (createdAtMs : Int)
    (hsound : ∀ row : OutboxRow, row.clientId = Env.clientId → row.operationId = operationId →
      row.workspaceId = Env.workspaceId → row.bodyJson = bodyJson → row.bodyDigest = BodyCodec.digest bodyJson →
      Sound operationId row) {rows : Rows} (hrows : ∀ id row, rows.lookup id = some row → Sound id row) :
    wp (enqueueOutbox operationId Env.workspaceId bodyJson createdAtMs) (fun _ => Touches rows)
      (fun _ => Touches rows) rows := by
  have same : Touches rows rows := (Restages.refl rows).touches
  simp only [enqueueOutbox, wp_bind, wp_get]
  split
  · rename_i stored hstored
    rw [wp_bind]
    apply wp_rowToOutbox _ same
    intro _
    split
    · split
      · exact same
      rename_i hqueued
      intro id row hrow
      rcases (Table.lookup_insert_iff row).mp hrow with ⟨rfl, rfl⟩ | ⟨-, hold⟩
      · have hold := hrows id stored hstored
        have hnew := hsound { stored with workspaceId := Env.workspaceId, bodyJson, bodyDigest := BodyCodec.digest bodyJson, createdAtMs }
          hold.clientId hold.operationId rfl rfl rfl
        exact .inl ⟨stored, hstored, .inr ⟨not_ne_iff.mp hqueued, hnew⟩⟩
      · exact same id row hold
    · exact same
  · rename_i hnone
    intro id row hrow
    rcases (Table.lookup_insert_iff row).mp hrow with ⟨rfl, rfl⟩ | ⟨-, hold⟩
    · exact .inr ⟨hnone, hsound _ rfl rfl rfl rfl rfl⟩
    · exact same id row hold

section Lawful

variable [LawfulBodyCodec]

variable {rows : Rows}

theorem enqueueMutation_touches (mutation : WorkspaceMutation) (createdAtMs : Int)
    (hrows : ∀ id row, rows.lookup id = some row → Sound id row) :
    wp (enqueueMutation mutation createdAtMs) (fun _ => Touches rows) (fun _ => Touches rows) rows := by
  have same : Touches rows rows := (Restages.refl rows).touches
  unfold enqueueMutation
  split
  · exact same
  rename_i hvalid
  split
  · exact same
  rename_i hidentity
  obtain ⟨hworkspace, hclient⟩ := not_or.mp hidentity
  rw [not_ne_iff.mp hworkspace]
  apply enqueueOutbox_touches createdAtMs _ hrows
  intro row hrowClient hrowId hrowWorkspace hjson hdigest
  refine ⟨hrowId, hrowClient, hrowWorkspace, ?_⟩
  have hbody : row.decodedBody = some (.mutation mutation) := by
    rw [OutboxRow.decodedBody, hjson, LawfulBodyCodec.parse_mutationJson]
  simp [OutboxRow.readable, hbody, OutboxRow.names, hdigest, hjson, hrowClient, hrowId, hrowWorkspace,
    not_ne_iff.mp hworkspace, not_ne_iff.mp hclient, Bool.eq_true_of_not_eq_false hvalid]

theorem enqueueConflictResolution_touches (request : WorkspaceConflictResolvedRequest) (createdAtMs : Int)
    (hrows : ∀ id row, rows.lookup id = some row → Sound id row) :
    wp (enqueueConflictResolution request createdAtMs) (fun _ => Touches rows) (fun _ => Touches rows) rows := by
  have same : Touches rows rows := (Restages.refl rows).touches
  unfold enqueueConflictResolution
  split
  · exact same
  rename_i hvalid
  split
  · exact same
  rename_i hidentity
  obtain ⟨hworkspace, hclient⟩ := not_or.mp hidentity
  rw [not_ne_iff.mp hworkspace]
  apply enqueueOutbox_touches createdAtMs _ hrows
  intro row hrowClient hrowId hrowWorkspace hjson hdigest
  refine ⟨hrowId, hrowClient, hrowWorkspace, ?_⟩
  have hbody : row.decodedBody = some (.conflictResolution request) := by
    rw [OutboxRow.decodedBody, hjson, LawfulBodyCodec.parseMutation_resolutionJson,
      LawfulBodyCodec.parse_resolutionJson, Option.map_some]
  simp [OutboxRow.readable, hbody, OutboxRow.names, hdigest, hjson, hrowClient, hrowId, hrowWorkspace,
    not_ne_iff.mp hworkspace, not_ne_iff.mp hclient, Bool.eq_true_of_not_eq_false hvalid]

theorem Call.run_touches (call : Call) (hrows : ∀ id row, rows.lookup id = some row → Sound id row) :
    Touches rows (final call.run rows) := by
  have restages : ∀ {α : Type} {m : RowsM α}, Prog.Moves Restages m → Touches rows (final m rows) :=
    fun h => (h.final rows).touches
  cases call with
  | enqueueMutation mutation createdAtMs =>
    rw [Call.run, final_discard]
    exact wp_final (enqueueMutation_touches mutation createdAtMs hrows)
  | enqueueConflictResolution request createdAtMs =>
    rw [Call.run, final_discard]
    exact wp_final (enqueueConflictResolution_touches request createdAtMs hrows)
  | markDispatched operationId => exact (restages_modify rows operationId dispatch_restages).touches
  | dispatchNext =>
    rw [Call.run, final_discard]
    exact restages dispatchNext_restages
  | pendingOutbox limit =>
    rw [Call.run, final_discard]
    exact restages (pendingOutbox_restages limit)
  | pendingOutboxReplay limit =>
    rw [Call.run, final_discard]
    exact restages (pendingOutboxReplay_restages limit)
  | setOutboxStage operationId stage => exact restages (setOutboxStage_restages operationId stage)
  | replayAwaitingBlobMutations =>
    rw [Call.run, Outbox.replayAwaitingBlobMutations, final_modify]
    apply Restages.touches
    intro id row hrow
    obtain ⟨old, hold, rfl⟩ := Table.lookup_mapRows.mp hrow
    by_cases hstage : old.stage = .awaitingBlob
    · exact ⟨old, .dispatched, hold, by rw [if_pos hstage], fun _ => by decide⟩
    · exact ⟨old, old.stage, hold, by rw [if_neg hstage], fun h => h⟩
  | removeOutbox operationId =>
    rw [Call.run, Outbox.removeOutbox, final_modify]
    apply Restages.touches
    intro id row hrow
    by_cases hid : id = operationId
    · subst hid
      simp at hrow
    · rw [AList.lookup_erase_ne hid] at hrow
      exact ⟨row, row.stage, hrow, rfl, fun h => h⟩
  | removeMatching condition =>
    rw [Call.run, Outbox.removeMatching, final_modify]
    apply Restages.touches
    intro id row hrow
    exact ⟨row, row.stage, (Table.lookup_keep.mp hrow).1, rfl, fun h => h⟩

/-! ## Whole runs -/

omit [LawfulBodyCodec] in
theorem Sound.restage {id : OperationId} {row : OutboxRow} (h : Sound id row) (stage : OutboxStage) :
    Sound id { row with stage } :=
  ⟨h.operationId, h.clientId, h.workspaceId, h.readable⟩

theorem Run.sound {before after : Rows} (run : Run before after)
    (h : ∀ id row, before.lookup id = some row → Sound id row) :
    ∀ id row, after.lookup id = some row → Sound id row := by
  induction run with
  | refl => exact h
  | tail _ step ih =>
    obtain ⟨call, rfl⟩ := step
    intro id row hrow
    rcases call.run_touches ih id row hrow with ⟨old, hold, ⟨stage, rfl, -⟩ | ⟨-, hnew⟩⟩ | ⟨-, hnew⟩
    · exact (ih id old hold).restage stage
    · exact hnew
    · exact hnew

/-- A row that has left the queue stays as it is, up to its stage, until it is removed. -/
theorem Run.kept {before after : Rows} (run : Run before after)
    (hrows : ∀ id row, before.lookup id = some row → Sound id row) {id : OperationId} {row : OutboxRow}
    (hrow : before.lookup id = some row) (hleft : row.stage ≠ .queued) :
    (∃ between, Run before between ∧ Run between after ∧ between.lookup id = none) ∨
      ∃ stage, after.lookup id = some { row with stage } ∧ stage ≠ .queued := by
  induction run with
  | refl => exact .inr ⟨row.stage, hrow, hleft⟩
  | @tail between after run step ih =>
    rcases ih with ⟨gone, hbefore, hafter, hnone⟩ | ⟨stage, hkept, hstage⟩
    · exact .inl ⟨gone, hbefore, hafter.tail step, hnone⟩
    cases hlast : after.lookup id with
    | none => exact .inl ⟨after, run.tail step, .refl, hlast⟩
    | some last =>
      obtain ⟨call, rfl⟩ := step
      rcases call.run_touches (Run.sound run hrows) id last hlast with ⟨old, hold, hmove⟩ | ⟨hnone, -⟩
      · rw [hkept] at hold
        obtain rfl := Option.some.inj hold
        rcases hmove with ⟨stage', rfl, hnext⟩ | ⟨hqueued, -⟩
        · exact .inr ⟨stage', rfl, hnext hstage⟩
        · exact absurd hqueued hstage
      · rw [hkept] at hnone
        cases hnone

/-- In every state a sequence of calls reaches, each row's text spells an operation with the ids of the row
and carries its digest; and a row that has left the queue keeps its text and digest, and does not return to
the queue, until it is removed. -/
theorem outbox_rows_immutable {rows : Rows} (run : Run ∅ rows) :
    (∀ id row, rows.lookup id = some row → row.operationId = id ∧ row.bodyDigest = BodyCodec.digest row.bodyJson ∧
      ∃ body, row.decodedBody = some body ∧ row.names body = true) ∧
      ∀ after, Run rows after → ∀ id row, rows.lookup id = some row → row.stage ≠ .queued →
        (∃ between, Run rows between ∧ Run between after ∧ between.lookup id = none) ∨
          ∃ stage, after.lookup id = some { row with stage } ∧ stage ≠ .queued := by
  have hsound : ∀ id row, rows.lookup id = some row → Sound id row := run.sound fun id row h => by simp at h
  refine ⟨?_, fun after later id row hrow hleft => later.kept hsound hrow hleft⟩
  intro id row hrow
  have h := hsound id row hrow
  have hreadable := h.readable
  rw [OutboxRow.readable, Bool.and_eq_true, decide_eq_true_eq] at hreadable
  refine ⟨h.operationId, hreadable.1, ?_⟩
  cases hbody : row.decodedBody with
  | none => simp [hbody] at hreadable
  | some body => exact ⟨body, rfl, by simpa [hbody] using hreadable.2⟩

end Lawful

end Moves

/-! ## A codec -/

section Codec

theorem injective_of_fields {α β : Type} [Countable β] (f : α → β) (hf : ∀ a b, f a = f b → a = b) :
    ∃ index : α → Nat, Function.Injective index :=
  have := Function.Injective.countable hf
  Countable.exists_injective_nat α

instance : Countable WorkspacePath :=
  Function.Injective.countable (f := fun path : WorkspacePath => path.chars.map Char.toNat) fun a b h => by
    cases a
    cases b
    simpa [WorkspacePath.mk.injEq, List.map_inj_right fun _ _ => Char.toNat_inj.mp] using h

theorem exists_mutation_index : ∃ index : WorkspaceMutation → Nat, Function.Injective index := by
  apply injective_of_fields fun m : WorkspaceMutation =>
    ((m.workspaceId, m.clientId, m.operationId, m.path, m.basePathRevision, m.kind.ctorIdx, m.contentHash),
      m.metadata.size, m.metadata.modifiedAtMs, m.metadata.executable, m.newPath, m.targetBasePathRevision)
  rintro ⟨_, _, _, _, _, kind, _, ⟨_, _, _⟩, _, _⟩ ⟨_, _, _, _, _, kind', _, ⟨_, _, _⟩, _, _⟩ h
  cases kind <;> cases kind' <;> simp_all [WorkspaceMutationKind.ctorIdx]

theorem exists_resolution_index : ∃ index : WorkspaceConflictResolvedRequest → Nat, Function.Injective index := by
  apply injective_of_fields fun r : WorkspaceConflictResolvedRequest =>
    ((r.workspaceId, r.clientId, r.operationId, r.conflictId, r.conflictRevision, r.choice.ctorIdx, r.path),
      r.contentHash, r.metadata.size, r.metadata.modifiedAtMs, r.metadata.executable)
  rintro ⟨_, _, _, _, _, choice, _, _, ⟨_, _, _⟩⟩ ⟨_, _, _, _, _, choice', _, _, ⟨_, _, _⟩⟩ h
  cases choice <;> cases choice' <;> simp_all [WorkspaceConflictChoice.ctorIdx]

def sampleMkdir : WorkspaceMutation := ⟨1, 1, 2, Sample.pathA, 0, .mkdir, none, zeroMetadata, none, none⟩

def sampleText : List UInt8 :=
  123 :: (("\"workspaceId\":\"00000000-0000-0000-0000-000000000001\"," ++
    "\"clientId\":\"00000000-0000-0000-0000-000000000001\"," ++
    "\"operationId\":\"00000000-0000-0000-0000-000000000002\"," ++
    "\"path\":\"a\",\"basePathRevision\":\"0\",\"kind\":\"mkdir\",\"contentHash\":null," ++
    "\"metadata\":\x7b\"size\":0,\"modifiedAtMs\":0,\"executable\":false\x7d\x7d").toList.map
      fun c => c.toNat.toUInt8)

noncomputable def sampleMutationText (mutation : WorkspaceMutation) : List UInt8 :=
  if mutation = sampleMkdir then sampleText
  else 1 :: List.replicate (exists_mutation_index.choose mutation) 0

noncomputable def sampleResolutionText (request : WorkspaceConflictResolvedRequest) : List UInt8 :=
  2 :: List.replicate (exists_resolution_index.choose request) 0

theorem sampleMutationText_injective : Function.Injective sampleMutationText := by
  intro a b h
  unfold sampleMutationText at h
  split at h <;> split at h
  · simp_all
  · cases h
  · cases h
  · simp only [List.cons.injEq, true_and] at h
    have hlength := congrArg List.length h
    simp only [List.length_replicate] at hlength
    exact exists_mutation_index.choose_spec hlength

theorem sampleResolutionText_injective : Function.Injective sampleResolutionText := by
  intro a b h
  have hlength := congrArg List.length h
  simp only [sampleResolutionText, List.length_cons, List.length_replicate, Nat.add_right_cancel_iff] at hlength
  exact exists_resolution_index.choose_spec hlength

open scoped Classical in
noncomputable scoped instance sampleCodec : BodyCodec where
  mutationJson := sampleMutationText
  resolutionJson := sampleResolutionText
  parseMutation text := if h : ∃ mutation, sampleMutationText mutation = text then some h.choose else none
  parseResolution text := if h : ∃ request, sampleResolutionText request = text then some h.choose else none
  digest text := text.foldl (fun sum byte => 256 * sum + byte.toNat) 0

scoped instance sampleCodec_lawful : LawfulBodyCodec where
  parse_mutationJson := by
    intro mutation
    have h : ∃ other, sampleMutationText other = sampleMutationText mutation := ⟨mutation, rfl⟩
    have hsame : h.choose = mutation := sampleMutationText_injective h.choose_spec
    exact (dif_pos h).trans (congrArg some hsame)
  parse_resolutionJson := by
    intro request
    have h : ∃ other, sampleResolutionText other = sampleResolutionText request := ⟨request, rfl⟩
    have hsame : h.choose = request := sampleResolutionText_injective h.choose_spec
    exact (dif_pos h).trans (congrArg some hsame)
  parseMutation_resolutionJson := by
    intro request
    have h : ¬∃ mutation, sampleMutationText mutation = sampleResolutionText request := by
      rintro ⟨mutation, h⟩
      unfold sampleMutationText at h
      split at h <;> cases h
    exact dif_neg h

open scoped Sample

theorem outbox_row_of_sampleMkdir :
    ∃ row, (final (Call.enqueueMutation sampleMkdir 5).run ∅ : Rows).lookup 2 = some row ∧
      row.bodyJson = sampleText ∧ row.bodyDigest = BodyCodec.digest row.bodyJson ∧
      ∃ body, row.decodedBody = some body ∧ row.names body = true := by
  have hrow : (final (Call.enqueueMutation sampleMkdir 5).run ∅ : Rows).lookup 2 =
      some ⟨1, 2, 1, sampleMutationText sampleMkdir, BodyCodec.digest (sampleMutationText sampleMkdir), .queued, 5⟩ := rfl
  have hrun : Run ∅ (final (Call.enqueueMutation sampleMkdir 5).run ∅) := .single ⟨_, rfl⟩
  obtain ⟨-, hdigest, hbody⟩ := (outbox_rows_immutable hrun).1 2 _ hrow
  exact ⟨_, hrow, by simp [sampleMutationText], hdigest, hbody⟩

end Codec

end Outbox

end Lumio.Sync
