import Lumio.Sync.Journal.Items

/-!
# Delivering an item again after its write has failed

A write to the workspace that fails leaves its journal row behind, and nothing but the end of a write takes a row
away in an open engine. The item can be delivered again as long as it does not come to a write, and another stream
can be begun only where no stream is stored.
-/

namespace Lumio.Sync

open Lumio.Protocol Lumio.Fs Prog

section

variable {F : Type} [Filesystem F] [Env]

/-! ## The row a failed write leaves behind -/

/-- A journal row of the item of a write, of an attempt that did not get past its write. -/
structure ApplyJournalRecord.LeftBy (row : ApplyJournalRecord) (write : JournaledWrite) : Prop where
  streamId : row.streamId = write.streamId
  itemKind : row.itemKind = write.itemKind
  itemKey : row.itemKey = write.itemKey
  stage : row.stage = .filesystemStarted

omit [Env] in
theorem setApplyStage_wp {applyId : ApplyId} {stage : ApplyStage} {db : Db} {row : ApplyJournalRecord}
    (hrow : db.applyJournals.lookup applyId = some row) :
    wp (setApplyStage applyId stage) (fun _ after => after = { db with
        applyJournals := db.applyJournals.insert applyId { row with stage } })
      (fun error _ => ∀ e, error ≠ .filesystem e) db := by
  simp only [setApplyStage, wp_bind, wp_get, hrow]
  split
  · simp
  · split
    · rfl
    · simp

variable {engine : Engine F}

theorem JournaledWrite.run_fails {write : JournaledWrite} {commit : ApplyReceipt → EngineM F Unit} {left : Engine F}
    {e : FsError} (hwrite : (Filesystem.apply engine.files (Env.uuid engine.draws) write.operation).1 = .error e)
    (hrun : write.run commit engine = .error (.filesystem e) left) :
    left.db.stream = engine.db.stream ∧ ∃ row ∈ left.db.applyJournals.values, row.LeftBy write := by
  have hwp : wp (write.run commit) (fun _ _ => False) (fun error left => error = .filesystem e →
      left.db.stream = engine.db.stream ∧ ∃ row ∈ left.db.applyJournals.values, row.LeftBy write) engine := by
    simp only [JournaledWrite.run, applyWithJournal, wp_bind, wp_get, wp_set, wp_transaction]
    refine wp_mono putApplyJournal_wp (fun _ db hput => ?_) (fun error _ herror h => absurd h (herror e))
    subst hput
    refine wp_mono (setApplyStage_wp (AList.lookup_insert _)) (fun _ db hstage => ?_)
      (fun error _ herror h => absurd h (herror e))
    subst hstage
    simp only [wp, writeFiles]
    cases happly : Filesystem.apply engine.files (Env.uuid engine.draws) write.operation with
    | mk result files =>
      rw [happly] at hwrite
      dsimp only at hwrite
      subst hwrite
      exact fun _ => ⟨rfl, _, Table.mem_values_iff.mpr ⟨_, AList.lookup_insert _⟩, rfl, rfl, rfl, rfl⟩
  exact wp_of_error hwp hrun rfl

theorem JournaledWrite.run_refused {write : JournaledWrite} {commit : ApplyReceipt → EngineM F Unit}
    {engine : Engine F} {row : ApplyJournalRecord} {earlier : JournaledWrite}
    (hrow : row ∈ engine.db.applyJournals.values) (hleft : row.LeftBy earlier)
    (hstream : earlier.streamId = write.streamId) (hkind : earlier.itemKind = write.itemKind)
    (hkey : earlier.itemKey = write.itemKey)
    (hfresh : engine.db.applyJournals.lookup (Env.uuid engine.draws) = none) :
    write.run commit engine = .error .operationChanged { engine with draws := engine.draws + 1 } := by
  have hany : (engine.db.applyJournals.values.any fun other => other.streamId = write.streamId &&
      other.itemKind = write.itemKind && other.itemKey = write.itemKey) = true :=
    List.any_eq_true.mpr ⟨row, hrow, by
      simp [hleft.streamId, hleft.itemKind, hleft.itemKey, hstream, hkind, hkey]⟩
  apply eq_error_of_wp
  simp only [JournaledWrite.run, applyWithJournal, wp_bind, wp_get, wp_set, wp_transaction, putApplyJournal,
    hfresh, hany]
  exact ⟨rfl, trivial⟩

/-! ## The begin of a stream -/

section

omit [Filesystem F]

theorem beginStream_succeeds_iff {begin_ : WorkspaceSnapshotBeginMessage} {db : Db} :
    Succeeds (beginStream begin_) db ↔
      begin_.validate.isOk = true ∧ begin_.workspaceId = Env.workspaceId ∧
        ∀ active, db.stream = some active →
          (active.streamId = begin_.streamId → streamBeginMatches active begin_ = true) ∧
            (active.streamId ≠ begin_.streamId → begin_.fromRevision = db.cursor.lastAckRevision ∧
              db.applyJournals.entries = []) := by
  unfold Succeeds beginStream
  split
  · rename_i hvalid
    simp [hvalid]
  rename_i hvalid
  have hvalid : begin_.validate.isOk = true := by simpa using hvalid
  split
  · rename_i hworkspace
    simp [hworkspace]
  rename_i hworkspace
  simp only [wp_bind, wp_get, hvalid, not_not.mp hworkspace, true_and]
  cases hstream : db.stream with
  | none => simp
  | some active =>
    simp only [Option.some.injEq, forall_eq']
    split
    · rename_i hid
      simp only [hid, forall_const, ne_eq, not_true_eq_false, false_implies, and_true]
      split
      · simp [*]
      · simp [*]
    · rename_i hid
      simp only [hid, false_implies, ne_eq, not_false_eq_true, forall_const, true_and]
      split
      · simp [*]
      · split
        · simp [*]
        · simp_all [clearStream]

theorem snapshotBegin_succeeds_iff {begin_ : WorkspaceSnapshotBeginMessage} :
    Succeeds (snapshotBegin begin_) engine ↔ engine.closed = false ∧ Succeeds (beginStream begin_) engine.db := by
  have hbegin := @beginStream_succeeds_iff _ begin_ engine.db
  cases hclosed : engine.closed with
  | true => simp [Succeeds, snapshotBegin, ensureOpen, hclosed]
  | false =>
    cases hvalid : begin_.validate with
    | error e =>
      have hrefused : ¬Succeeds (beginStream begin_) engine.db := by simp [hbegin, hvalid, Except.isOk, Except.toBool]
      simpa [Succeeds, snapshotBegin, ensureOpen, requireValid, hclosed, hvalid] using hrefused
    | ok u =>
      by_cases hworkspace : begin_.workspaceId = Env.workspaceId
      · simp [Succeeds, snapshotBegin, ensureOpen, requireValid, requireThat, hclosed, hvalid, hworkspace, wp_onlyIf]
      · have hrefused : ¬Succeeds (beginStream begin_) engine.db := by simp [hbegin, hworkspace]
        simpa [Succeeds, snapshotBegin, ensureOpen, requireValid, requireThat, hclosed, hvalid, hworkspace]
          using hrefused

theorem snapshotBegin_succeeds_of_row {begin_ : WorkspaceSnapshotBeginMessage}
    (hrow : engine.db.applyJournals.entries ≠ []) (hcause : Succeeds (snapshotBegin begin_) (engine.withJournals ∅)) :
    Succeeds (snapshotBegin begin_) engine ↔
      ∀ active, engine.db.stream = some active → active.streamId = begin_.streamId := by
  rw [snapshotBegin_succeeds_iff, beginStream_succeeds_iff] at hcause ⊢
  obtain ⟨hopen, hvalid, hworkspace, hstored⟩ := hcause
  constructor
  · rintro ⟨-, -, -, hstored'⟩ active hactive
    by_contra hother
    exact hrow ((hstored' active hactive).2 hother).2
  · intro hsame
    refine ⟨hopen, hvalid, hworkspace, fun active hactive => ⟨(hstored active hactive).1, fun hother => ?_⟩⟩
    exact absurd (hsame active hactive) hother

end

/-! ## Delivering again -/

instance : StagingFree (Engine.draws (F := F)) := ⟨fun _ _ => rfl⟩

structure FailedAttempt (item : RemoteItem) (first left : Engine F) (e : FsError) : Prop where
  write : ∃ operation reached, item.operation first = .ok (some operation) reached ∧
    (Filesystem.apply reached.files (Env.uuid reached.draws) operation).1 = .error e
  outcome : item.apply first = .error (.filesystem e) left

/-- Whether an item has an operation to write: it is not settled yet, and the workspace shows what the client knows
of its paths but not what the item makes of them. -/
def RemoteItem.NeedsWrite (item : RemoteItem) (engine : Engine F) : Prop :=
  ∃ operation reached, item.operation engine = .ok (some operation) reached

theorem FailedAttempt.leaves_row {item : RemoteItem} {first left : Engine F} {e : FsError}
    (h : FailedAttempt item first left e) :
    ∃ write : JournaledWrite, write.Of item left.db ∧ ∃ row ∈ left.db.applyJournals.values, row.LeftBy write := by
  obtain ⟨operation, reached, hfound, hwrite⟩ := h.write
  have hdb : reached.db = first.db := Keeps.of_ok item.operation_keeps hfound
  have hwrites := item.writesUnder first first.db.applyJournals
  rw [hfound] at hwrites
  obtain ⟨write, commit, rfl, hof, hrun⟩ := hwrites
  have hself : reached.withJournals first.db.applyJournals = reached := by rw [← hdb]; rfl
  have hattempt : write.run commit reached = .error (.filesystem e) left := by
    rw [← hself, ← hrun]
    exact h.outcome
  obtain ⟨hstream, hrow⟩ := JournaledWrite.run_fails hwrite hattempt
  refine ⟨write, { hof with streamId := ?_ }, hrow⟩
  rw [← hof.streamId]
  unfold RemoteItem.streamId
  rw [hstream]

/-- After a failed write the item can be delivered again exactly while it has no operation to write, and another
stream can be begun exactly while none is stored; `engine` is any later state with the same journal and stream. -/
theorem retried_after_failed_write {item : RemoteItem} {first left engine : Engine F} {e : FsError}
    (hfail : FailedAttempt item first left e) (hjournal : engine.db.applyJournals = left.db.applyJournals)
    (hstream : engine.db.stream = left.db.stream)
    (hfresh : engine.db.applyJournals.lookup (Env.uuid engine.draws) = none) :
    (Succeeds item.apply (engine.withJournals ∅) → (Succeeds item.apply engine ↔ ¬item.NeedsWrite engine)) ∧
    ∀ begin_, Succeeds (snapshotBegin begin_) (engine.withJournals ∅) →
      (Succeeds (snapshotBegin begin_) engine ↔
        ∀ active, engine.db.stream = some active → active.streamId = begin_.streamId) := by
  obtain ⟨earlier, hearlier, row, hrow, hleft⟩ := hfail.leaves_row
  rw [← hjournal] at hrow
  constructor
  · intro hcause
    have hwrites := item.writesUnder engine
    cases hfound : item.operation engine with
    | ok operation reached =>
      cases operation with
      | none =>
        have hblind := hwrites ∅
        rw [hfound] at hblind
        refine iff_of_true ((succeeds_of_changed hblind).mp hcause) ?_
        rintro ⟨operation, reached', hneeded⟩
        cases hfound.symm.trans hneeded
      | some operation =>
        have hdb : reached.db = engine.db := Keeps.of_ok item.operation_keeps hfound
        have hdraws : reached.draws = engine.draws := Keeps.of_ok item.operation_keeps hfound
        have hrun := hwrites engine.db.applyJournals
        rw [hfound] at hrun
        obtain ⟨write, commit, -, hof, hrun⟩ := hrun
        have hself : reached.withJournals engine.db.applyJournals = reached := by rw [← hdb]; rfl
        rw [hself] at hrun
        have hid : earlier.streamId = write.streamId := by
          have hsame : item.streamId left.db = item.streamId reached.db := by
            unfold RemoteItem.streamId
            rw [hdb, hstream]
          exact Option.some.inj (hearlier.streamId.symm.trans (hsame.trans hof.streamId))
        have hrefused := @JournaledWrite.run_refused _ _ _ write commit reached _ _
          (hdb ▸ hrow) hleft hid (hearlier.itemKind.trans hof.itemKind.symm)
          (hearlier.itemKey.trans hof.itemKey.symm) (by rw [hdb, hdraws]; exact hfresh)
        refine iff_of_false (not_succeeds_of_error (hrun.trans hrefused)) ?_
        exact not_not.mpr ⟨operation, reached, hfound⟩
    | error error reached =>
      have hblind := hwrites ∅
      rw [hfound] at hblind
      refine iff_of_true ((succeeds_of_changed hblind).mp hcause) ?_
      rintro ⟨operation, reached', hneeded⟩
      cases hfound.symm.trans hneeded
  · intro begin_ hcause
    refine snapshotBegin_succeeds_of_row (fun hempty => ?_) hcause
    simp only [Table.values, hempty, List.map_nil, List.not_mem_nil] at hrow

end

/-! ## A directory in the place of a file -/

section

open scoped Sample

theorem Sample.pathD_valid : pathError ['d'] = none := by decide

def Sample.pathD : WorkspacePath := ⟨['d'], Sample.pathD_valid⟩

def Sample.pathDX : WorkspacePath := ⟨['d', '/', 'x'], by decide⟩

def Sample.madeDirectory : WorkspaceEventMessage :=
  Sample.event ⟨Sample.pathDX, 5, .directory, none, zeroMetadata, false⟩ .mkdir

example : Sample.madeDirectory.validate = .ok () := by decide

def Sample.fileInTheWay : Engine Disk := Sample.engine.after (.edit (Disk.empty.create Sample.pathD .file [1]))

/-- The engine after the attempt at the directory, from which the file has been removed since. -/
def Sample.wayCleared : Engine Disk :=
  { final (RemoteItem.liveEvent Sample.madeDirectory).apply Sample.fileInTheWay with files := .empty }

theorem Sample.madeDirectory_fails : ∃ left, FailedAttempt (.liveEvent Sample.madeDirectory) Sample.fileInTheWay left
    .contentMismatch ∧ Sample.wayCleared = { left with files := .empty } := by
  have hfound : decide (wp (RemoteItem.operation (.liveEvent Sample.madeDirectory))
      (fun operation reached => operation = some (.mkdir Sample.pathDX zeroMetadata .missing) ∧
        (Filesystem.apply reached.files (Env.uuid reached.draws)
          (.mkdir Sample.pathDX zeroMetadata .missing)).1 = .error .contentMismatch)
      (fun _ _ => False) Sample.fileInTheWay) = true := by decide +kernel
  obtain ⟨operation, reached, hrun, rfl, hwrite⟩ := exists_ok_of_decide hfound
  have houtcome : wp (RemoteItem.apply (.liveEvent Sample.madeDirectory)) (fun _ _ => False)
      (fun e _ => e = .filesystem .contentMismatch) Sample.fileInTheWay := by decide +kernel
  unfold wp at houtcome
  cases happly : RemoteItem.apply (.liveEvent Sample.madeDirectory) Sample.fileInTheWay with
  | ok u left => simp only [happly] at houtcome
  | error e left =>
    simp only [happly] at houtcome
    subst houtcome
    refine ⟨left, ⟨⟨_, reached, hrun, hwrite⟩, happly⟩, ?_⟩
    simp only [Sample.wayCleared, final, happly]

theorem Sample.wayCleared_without_row :
    Succeeds (RemoteItem.apply (.liveEvent Sample.madeDirectory)) (Sample.wayCleared.withJournals ∅) := by
  decide +kernel

/-- The directory is delivered again after the file is gone, and refused for the row of the first attempt. -/
theorem retried_after_failed_write_madeDirectory :
    ¬Succeeds (RemoteItem.apply (.liveEvent Sample.madeDirectory)) Sample.wayCleared := by
  obtain ⟨left, hfail, hcleared⟩ := Sample.madeDirectory_fails
  have hretried := (@retried_after_failed_write _ _ _ _ _ _ Sample.wayCleared _ hfail (by rw [hcleared])
    (by rw [hcleared]) (by decide +kernel)).1 Sample.wayCleared_without_row
  have hneeds : decide (wp (RemoteItem.operation (.liveEvent Sample.madeDirectory))
      (fun operation _ => operation = some (.mkdir Sample.pathDX zeroMetadata .missing)) (fun _ _ => False)
      Sample.wayCleared) = true := by decide +kernel
  obtain ⟨_, reached, hrun, rfl⟩ := exists_ok_of_decide hneeds
  exact fun hsucceeds => hretried.mp hsucceeds ⟨_, reached, hrun⟩

theorem Sample.wayCleared_with_row :
    ¬Succeeds (RemoteItem.apply (.liveEvent Sample.madeDirectory)) Sample.wayCleared := by
  decide +kernel

theorem failed_write_wedges_madeDirectory :
    ¬∀ (item : RemoteItem) (first left : Engine Disk) (e : FsError) (files : Disk), FailedAttempt item first left e →
      Succeeds item.apply ({ left with files }.withJournals ∅) → Succeeds item.apply { left with files } := by
  intro h
  obtain ⟨left, hfail, hcleared⟩ := Sample.madeDirectory_fails
  have hcause := Sample.wayCleared_without_row
  have hrefused := Sample.wayCleared_with_row
  rw [hcleared] at hcause hrefused
  exact hrefused (h _ _ left _ .empty hfail hcause)

example : decide (wp (Sync.event Sample.madeDirectory) (fun _ _ => False) (fun e _ => e = .operationChanged)
    ((Sample.fileInTheWay.after (.event Sample.madeDirectory)).after (.edit .empty))) = true := by decide +kernel

end

end Lumio.Sync
