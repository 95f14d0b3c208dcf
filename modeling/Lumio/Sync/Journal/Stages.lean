import Lumio.Lib.Machine
import Lumio.Sync.Run
import Mathlib.Data.List.Induction

/-!
# The stages of a journal row

The rows of the apply journal are put, moved from stage to stage and removed by separate operations, each with guards
of its own. A row is inserted before anything is written, and the operations take it through the stages in order.
-/

namespace Lumio.Sync

open Lumio.Protocol Lumio.Fs

/-! ## The operations on the journal -/

inductive JournalCall where
  | put (record : ApplyJournalRecord)
  | setFilesystemApplied (applyId : ApplyId) (receipt : ApplyReceipt)
  | setStage (applyId : ApplyId) (stage : ApplyStage)
  | remove (applyId : ApplyId)

def JournalCall.body : JournalCall → TxM Unit
  | put record => putApplyJournal record
  | setFilesystemApplied applyId receipt => setApplyFilesystemApplied applyId receipt
  | setStage applyId stage => setApplyStage applyId stage
  | remove applyId => removeApplyJournal applyId

def journal : Machine Db JournalCall (Except SyncError Unit) where
  step db call :=
    match call.body db with
    | .ok _ after => (after, .ok ())
    | .error e _ => (db, .error e)

/-- A row that is inserted is at the first stage and has no receipt. -/
def Prepares (db : Db) : JournalCall → Prop
  | .put record => db.applyJournals.lookup record.applyId = none →
      record.stage = .prepared ∧ record.filesystemReceipt = none
  | _ => True

instance (db : Db) (call : JournalCall) : Decidable (Prepares db call) :=
  match call with
  | .put record => inferInstanceAs (Decidable (db.applyJournals.lookup record.applyId = none →
      record.stage = .prepared ∧ record.filesystemReceipt = none))
  | .setFilesystemApplied _ _ | .setStage _ _ | .remove _ => inferInstanceAs (Decidable True)

def ApplyStage.rank : ApplyStage → Nat
  | .prepared => 0
  | .filesystemStarted => 1
  | .filesystemApplied => 2
  | .databaseCommitted => 3
  | .finalized => 4

/-- The rows differ in stage and receipt only: they are about the same item, operation and plan. -/
def SameItem (row row' : ApplyJournalRecord) : Prop :=
  { row' with stage := row.stage, filesystemReceipt := row.filesystemReceipt } = row

/-! ## One operation -/

section

variable {db : Db} {call : JournalCall} {applyId : ApplyId} {row row' : ApplyJournalRecord}

/-- What an operation may make of a row. -/
inductive Advances (row : ApplyJournalRecord) : ApplyJournalRecord → Prop where
  | stays : Advances row row
  | moves {stage : ApplyStage} (allowed : applyStageTransitionAllowed row.stage stage = true) :
      Advances row { row with stage }
  | applies (receipt : ApplyReceipt) (started : row.stage = .filesystemStarted) :
      Advances row { row with filesystemReceipt := some receipt, stage := .filesystemApplied }

theorem Advances.sameItem (h : Advances row row') : SameItem row row' := by
  cases h <;> rfl

theorem Advances.rank (h : Advances row row') : row.stage.rank ≤ row'.stage.rank := by
  cases h with
  | stays => exact Nat.le_refl _
  | @moves stage allowed =>
    cases hstage : row.stage <;> cases stage <;> simp_all [applyStageTransitionAllowed, ApplyStage.rank]
  | applies receipt started => simp [started, ApplyStage.rank]

/-- A row has a receipt exactly from the stage on at which the workspace has been written. -/
def Receipted (row : ApplyJournalRecord) : Prop :=
  row.filesystemReceipt.isSome = true ↔ ApplyStage.filesystemApplied.rank ≤ row.stage.rank

theorem Advances.receipted (h : Advances row row') (hrow : Receipted row) : Receipted row' := by
  cases h with
  | stays => exact hrow
  | @moves stage allowed =>
    unfold Receipted at *
    cases hstage : row.stage <;> cases stage <;> simp_all [applyStageTransitionAllowed, ApplyStage.rank]
  | applies receipt started => simp [Receipted, ApplyStage.rank]

theorem Advances.applied (h : Advances row row') (hbefore : row.stage.rank < ApplyStage.filesystemApplied.rank)
    (hafter : ApplyStage.filesystemApplied.rank ≤ row'.stage.rank) : row'.stage = .filesystemApplied := by
  cases h with
  | stays => omega
  | @moves stage allowed =>
    cases hstage : row.stage <;> cases stage <;> simp_all [applyStageTransitionAllowed, ApplyStage.rank]
  | applies receipt started => rfl

theorem lookup_insert_cases {table : Table ApplyId ApplyJournalRecord} {other : ApplyId} {new : ApplyJournalRecord}
    (h : (table.insert other new).lookup applyId = some row') :
    (applyId = other ∧ row' = new) ∨ table.lookup applyId = some row' := by
  rcases (Table.lookup_insert_iff _).mp h with h | ⟨-, h⟩
  · exact .inl h
  · exact .inr h

theorem journal_step_cases (hafter : (journal.step db call).1.applyJournals.lookup applyId = some row') :
    (∃ row, db.applyJournals.lookup applyId = some row ∧ Advances row row') ∨
      (db.applyJournals.lookup applyId = none ∧ call = .put row' ∧ row'.applyId = applyId) := by
  have stays (h : db.applyJournals.lookup applyId = some row') :
      ∃ row, db.applyJournals.lookup applyId = some row ∧ Advances row row' := ⟨row', h, .stays⟩
  cases call with
  | put record =>
    simp only [journal, JournalCall.body, putApplyJournal, bind, EStateM.bind, Prog.get_apply] at hafter
    cases hstored : db.applyJournals.lookup record.applyId with
    | some existing =>
      simp only [hstored] at hafter
      split_ifs at hafter with hchanged hallowed
      · exact .inl (stays hafter)
      · rcases lookup_insert_cases hafter with ⟨rfl, rfl⟩ | hkept
        · rw [not_not] at hchanged
          have hadvances : Advances existing { existing with stage := row'.stage } := .moves hallowed
          rw [hchanged] at hadvances
          exact .inl ⟨existing, hstored, hadvances⟩
        · exact .inl (stays hkept)
      · exact .inl (stays hafter)
    | none =>
      simp only [hstored] at hafter
      split_ifs at hafter with hother
      · exact .inl (stays hafter)
      · rcases lookup_insert_cases hafter with ⟨rfl, rfl⟩ | hkept
        · exact .inr ⟨hstored, rfl, rfl⟩
        · exact .inl (stays hkept)
  | setFilesystemApplied other receipt =>
    simp only [journal, JournalCall.body, setApplyFilesystemApplied, bind, EStateM.bind, Prog.get_apply] at hafter
    cases hstored : db.applyJournals.lookup other with
    | none =>
      simp only [hstored] at hafter
      exact .inl (stays hafter)
    | some current =>
      simp only [hstored] at hafter
      split_ifs at hafter with happlied hsame hstarted
      · exact .inl (stays hafter)
      · exact .inl (stays hafter)
      · exact .inl (stays hafter)
      · rcases lookup_insert_cases hafter with ⟨rfl, rfl⟩ | hkept
        · exact .inl ⟨current, hstored, .applies receipt (not_not.mp hstarted)⟩
        · exact .inl (stays hkept)
  | setStage other stage =>
    simp only [journal, JournalCall.body, setApplyStage, bind, EStateM.bind, Prog.get_apply] at hafter
    cases hstored : db.applyJournals.lookup other with
    | none =>
      simp only [hstored] at hafter
      exact .inl (stays hafter)
    | some current =>
      simp only [hstored] at hafter
      split_ifs at hafter with hmissing hallowed
      · exact .inl (stays hafter)
      · rcases lookup_insert_cases hafter with ⟨rfl, rfl⟩ | hkept
        · exact .inl ⟨current, hstored, .moves hallowed⟩
        · exact .inl (stays hkept)
      · exact .inl (stays hafter)
  | remove other => exact .inl (stays (Table.lookup_erase_iff.mp hafter).2)

end

/-! ## The life of a row -/

/-- A row is there from the first state of the run to the last, and comes from `first` to `last`. -/
inductive Lives (applyId : ApplyId) : Db → List JournalCall → ApplyJournalRecord → ApplyJournalRecord → Prop where
  | here {db : Db} {row : ApplyJournalRecord} (stored : db.applyJournals.lookup applyId = some row) :
      Lives applyId db [] row row
  | step {db : Db} {call : JournalCall} {calls : List JournalCall} {row next last : ApplyJournalRecord}
      (stored : db.applyJournals.lookup applyId = some row) (rest : Lives applyId (journal.step db call).1 calls next last) :
      Lives applyId db (call :: calls) row last

section

variable {db : Db} {calls : List JournalCall} {applyId : ApplyId} {first last : ApplyJournalRecord}

theorem Lives.stored (h : Lives applyId db calls first last) : db.applyJournals.lookup applyId = some first := by
  cases h with
  | here stored => exact stored
  | step stored rest => exact stored

theorem Lives.advances {call : JournalCall} {row next : ApplyJournalRecord}
    (stored : db.applyJournals.lookup applyId = some row)
    (rest : Lives applyId (journal.step db call).1 calls next last) : Advances row next := by
  rcases journal_step_cases rest.stored with ⟨before, hbefore, hadvances⟩ | ⟨hnone, -, -⟩
  · rw [stored] at hbefore
    cases hbefore
    exact hadvances
  · rw [stored] at hnone
    cases hnone

theorem Lives.sameItem (h : Lives applyId db calls first last) : SameItem first last := by
  induction h with
  | here stored => rfl
  | step stored rest ih =>
    have hnext := (Lives.advances stored rest).sameItem
    unfold SameItem at *
    rw [← ih] at hnext
    exact hnext

theorem Lives.rank (h : Lives applyId db calls first last) : first.stage.rank ≤ last.stage.rank := by
  induction h with
  | here stored => exact Nat.le_refl _
  | step stored rest ih => exact Nat.le_trans (Lives.advances stored rest).rank ih

theorem Lives.receipted (h : Lives applyId db calls first last) (hfirst : Receipted first) : Receipted last := by
  induction h with
  | here stored => exact hfirst
  | step stored rest ih => exact ih ((Lives.advances stored rest).receipted hfirst)

theorem Lives.through (h : Lives applyId db calls first last)
    (hfirst : first.stage.rank < ApplyStage.filesystemApplied.rank)
    (hlast : ApplyStage.filesystemApplied.rank ≤ last.stage.rank) :
    ∃ pre post between, calls = pre ++ post ∧ Lives applyId db pre first between ∧
      Lives applyId (journal.run db pre) post between last ∧ between.stage = .filesystemApplied := by
  induction h with
  | here stored => omega
  | @step db call calls row next last stored rest ih =>
    have hadvances := Lives.advances stored rest
    by_cases hnext : next.stage.rank < ApplyStage.filesystemApplied.rank
    · obtain ⟨pre, post, between, rfl, hpre, hpost, happlied⟩ := ih hnext hlast
      exact ⟨call :: pre, post, between, rfl, .step stored hpre, hpost, happlied⟩
    · exact ⟨[call], calls, next, rfl, .step stored (.here rest.stored), rest,
        hadvances.applied hfirst (Nat.le_of_not_lt hnext)⟩

theorem Lives.snoc {call : JournalCall} {next : ApplyJournalRecord} (h : Lives applyId db calls first last)
    (hnext : (journal.step (journal.run db calls) call).1.applyJournals.lookup applyId = some next) :
    Lives applyId db (calls ++ [call]) first next := by
  induction h with
  | here stored => exact .step stored (.here hnext)
  | step stored rest ih => exact .step stored (ih hnext)

theorem exists_life (hempty : db.applyJournals = ∅) {row : ApplyJournalRecord}
    (hrow : (journal.run db calls).applyJournals.lookup applyId = some row) :
    ∃ (pre : List JournalCall) (inserted : ApplyJournalRecord) (post : List JournalCall), calls = pre ++ .put inserted :: post ∧ inserted.applyId = applyId ∧
      (journal.run db pre).applyJournals.lookup applyId = none ∧
        Lives applyId (journal.step (journal.run db pre) (.put inserted)).1 post inserted row := by
  induction calls using List.reverseRecOn generalizing row with
  | nil =>
    rw [Machine.run, hempty] at hrow
    cases hrow
  | append_singleton calls call ih =>
    rw [Machine.run_append] at hrow
    rcases journal_step_cases hrow with ⟨before, hbefore, -⟩ | ⟨hnone, rfl, hid⟩
    · obtain ⟨pre, inserted, post, rfl, hid, hnone, hlives⟩ := ih hbefore
      refine ⟨pre, inserted, post ++ [call], by simp, hid, hnone, hlives.snoc ?_⟩
      rw [Machine.run_append] at hrow
      exact hrow
    · exact ⟨calls, row, [], rfl, hid, hnone, .here hrow⟩

structure Staged (db : Db) (calls : List JournalCall) (applyId : ApplyId) (row : ApplyJournalRecord) : Prop where
  /-- There is a receipt exactly once the workspace has been written. -/
  receipted : Receipted row
  /-- The row was inserted at the first stage, and nothing but its stage and its receipt has changed since. -/
  inserted : ∃ (pre : List JournalCall) (inserted : ApplyJournalRecord) (post : List JournalCall), calls = pre ++ .put inserted :: post ∧ inserted.applyId = applyId ∧
    inserted.stage = .prepared ∧ SameItem inserted row ∧
      Lives applyId (journal.step (journal.run db pre) (.put inserted)).1 post inserted row
  /-- Where the database has been committed, the row has been at the stage of the write, ever since it is there. -/
  through : ApplyStage.databaseCommitted.rank ≤ row.stage.rank → ∃ pre post applied, calls = pre ++ post ∧
    Lives applyId (journal.run db pre) post applied row ∧ applied.stage = .filesystemApplied

/-- In every run of the journal from an empty one in which rows are inserted at the first stage, the stage of a row
never falls back and the rest of it never changes while it is there; it has a receipt exactly from the write on, and
is committed only after the write. -/
theorem journal_staged (hempty : db.applyJournals = ∅) (hmeets : journal.Meets Prepares db calls) :
    (∀ applyId row, (journal.run db calls).applyJournals.lookup applyId = some row → Staged db calls applyId row) ∧
      ∀ pre life post, calls = pre ++ life ++ post → ∀ applyId first last,
        Lives applyId (journal.run db pre) life first last →
          first.stage.rank ≤ last.stage.rank ∧ SameItem first last := by
  refine ⟨fun applyId row hrow => ?_, fun pre life post _ applyId first last h => ⟨h.rank, h.sameItem⟩⟩
  obtain ⟨pre, inserted, post, rfl, hid, hnone, hlives⟩ := exists_life hempty hrow
  have hprepared : Prepares (journal.run db pre) (.put inserted) :=
    hmeets (journal.entry (journal.run db pre) (.put inserted)) (by simp [Machine.log_append, Machine.log])
  obtain ⟨hstage, hreceipt⟩ := hprepared (by rw [hid]; exact hnone)
  have hfresh : Receipted inserted := by simp [Receipted, hreceipt, hstage, ApplyStage.rank]
  refine ⟨hlives.receipted hfresh, ⟨pre, inserted, post, rfl, hid, hstage, hlives.sameItem, hlives⟩, fun hcommitted => ?_⟩
  obtain ⟨before, after, applied, rfl, -, hrest, happlied⟩ := hlives.through
    (by simp [hstage, ApplyStage.rank]) (Nat.le_trans (by decide) hcommitted)
  refine ⟨pre ++ JournalCall.put inserted :: before, after, applied, by simp, ?_, happlied⟩
  rw [Machine.run_append]
  exact hrest

end

/-! ## A deletion from the first stage to the last -/

section

open scoped Sample

def Sample.deletionRow : ApplyJournalRecord where
  applyId := 9
  streamId := 7
  itemKind := .event
  itemKey := .revision 5
  applyNamespace := .liveEvent
  operation := .fromEvent (Sample.deletion Sample.pathA 5)
  filesystemOperation := .delete Sample.pathA .missing
  commitPlan := .liveEvent (Sample.deletion Sample.pathA 5) false
  postimage := [Sample.missing Sample.pathA 5]
  filesystemReceipt := none
  stage := .prepared

/-- The deletion is journaled, made in the workspace and committed. -/
def Sample.deletionCalls : List JournalCall :=
  [.put Sample.deletionRow, .setStage 9 .filesystemStarted,
    .setFilesystemApplied 9 ⟨9, [Sample.pathA], [none], [none], none⟩, .setStage 9 .databaseCommitted]

theorem journal_staged_deletion :
    ∃ row, (journal.run Db.initial Sample.deletionCalls).applyJournals.lookup 9 = some row ∧
      row.stage = .databaseCommitted ∧ Staged Db.initial Sample.deletionCalls 9 row := by
  have hmeets : journal.Meets Prepares Db.initial Sample.deletionCalls := by decide +kernel
  have hstored : ((journal.run Db.initial Sample.deletionCalls).applyJournals.lookup 9).any
      (·.stage = .databaseCommitted) = true := by
    decide +kernel
  cases hrow : (journal.run Db.initial Sample.deletionCalls).applyJournals.lookup 9 with
  | none =>
    rw [hrow] at hstored
    cases hstored
  | some row =>
    rw [hrow] at hstored
    exact ⟨row, rfl, of_decide_eq_true hstored, (journal_staged rfl hmeets).1 9 row hrow⟩

end

end Lumio.Sync
