import Lumio.Sync.Rules.Captures
import Lumio.Sync.Local.Changes

/-!
# Changes whose path is gone

A change is recorded some time after it happened, and the path it names may be gone by then. The recording answers
with an error and leaves out the changes that follow. Where the engine looks at a path for itself, it takes one
without an entry for deleted.
-/

namespace Lumio.Sync

open Lumio.Protocol Lumio.Fs Prog

/-- Whatever a run of `m` throws satisfies `P`. -/
def Throws {ε σ α : Type} (P : ε → Prop) (m : EStateM ε σ α) : Prop := ∀ s, wp m (fun _ _ => True) (fun e _ => P e) s

section Throws

variable {ε σ α β γ : Type} {P : ε → Prop} {m : EStateM ε σ α} {f : α → EStateM ε σ β}

theorem Throws.pure (a : α) : Throws P (Pure.pure a : EStateM ε σ α) := fun _ => trivial

theorem Throws.throw {e : ε} (h : P e) : Throws P (MonadExcept.throw e : EStateM ε σ α) := fun _ => h

theorem Throws.get : Throws P (MonadState.get : EStateM ε σ σ) := fun _ => trivial

theorem Throws.modify (g : σ → σ) : Throws P (modify g : EStateM ε σ PUnit) := fun _ => trivial

theorem Throws.bind (hm : Throws P m) (hf : ∀ a, Throws P (f a)) : Throws P (m >>= f) := by
  intro s
  exact wp_seq (hm s) fun a t _ => hf a t

theorem Throws.forM {f : γ → EStateM ε σ PUnit} {xs : List γ} (h : ∀ x, Throws P (f x)) : Throws P (forM xs f) := by
  induction xs with
  | nil => exact .pure _
  | cons x xs ih =>
    rw [List.forM_cons]
    exact .bind (h x) fun _ => ih

theorem Throws.mapM {f : γ → EStateM ε σ β} : ∀ {xs : List γ}, (∀ x, Throws P (f x)) → Throws P (xs.mapM f)
  | [], _ => by
    rw [List.mapM_nil]
    exact .pure _
  | x :: xs, h => by
    rw [List.mapM_cons]
    exact .bind (h x) fun _ => .bind (Throws.mapM h) fun _ => .pure _

theorem Throws.of_error {e : ε} {s t : σ} (h : Throws P m) (hm : m s = .error e t) : P e := wp_of_error (h s) hm

end Throws

def expectedPath : FsChange → Option WorkspacePath
  | .create path | .update path | .rename _ path => some path
  | .delete _ | .rescanRequired => none

def vanished : List FsError := [.io "observe local change", .io "observe local rename target"]

def Unrelated (e : SyncError) : Prop := ∀ v ∈ vanished, e ≠ .filesystem v

/-- The errors of the workspace itself are others than those of the recording, and what a scan reports is there. -/
class ReportingFilesystem (F : Type) [Filesystem F] : Prop where
  inspect_error : ∀ (files : F) (path : WorkspacePath) (e : FsError),
    Filesystem.inspect files path = .error e → e ∉ vanished
  stage_error : ∀ (files : F) (path : WorkspacePath) (e : FsError),
    (Filesystem.stageWorkspaceEntry files path).1 = .error e → e ∉ vanished
  scan_error : ∀ (files : F) (e : FsError), Filesystem.scan files = .error e → e ∉ vanished
  scan_there : ∀ (files : F) (scan : WorkspaceScan), Filesystem.scan files = .ok scan →
    ∀ entry ∈ scan.entries, Filesystem.inspect files entry.path ≠ .ok none

/-! ## Recording without this error -/

section

variable {F : Type} [Filesystem F]

/-- As `desiredFromChange`, with a change whose path is gone taken for a deletion. -/
def desiredOrDeletion (change : FsChange) : EngineM F DesiredOperation :=
  match change with
  | .create path | .update path => desiredFromCurrent path
  | .rename source target => do
    match ← inspect target with
    | none => pure (.delete source)
    | some observed => do
      let entry ← desiredEntryFromObserved observed
      pure (.rename source target entry.kind entry.contentHash entry.metadata)
  | .delete _ | .rescanRequired => desiredFromChange change

variable [Env]

/-- As `recordLocalChange`, with a change whose path is gone recorded as a deletion. -/
def recordChangeOrDeletion (change : FsChange) : EngineM F Unit := do
  match ← admitLocalChange change with
  | none => pure ()
  | some admitted => do
    let desired ← desiredOrDeletion admitted
    recordOrDefer desired

def tolerantPass : List FsChange → EngineM F (List FsChange)
  | [] => pure []
  | .rescanRequired :: rest => do
    let found ← scanChanges
    let later ← tolerantPass rest
    pure (found ++ later)
  | change :: rest => do
    recordChangeOrDeletion change
    tolerantPass rest

/-- The recording of local changes in which a change whose path is gone counts as a deletion. -/
def recordChangesOrDeletions (changes : List FsChange) : EngineM F Unit := do
  ensureOpen
  let found ← tolerantPass changes
  let _ ← tolerantPass found

/-! ## Where it makes a difference -/

omit [Env] in
def Vanishes (engine : Engine F) (change : FsChange) : Prop :=
  wp (admitLocalChange change) (fun admitted _ => ∃ change ∈ admitted, ∃ path ∈ expectedPath change,
    engine.view path = .ok none) (fun _ _ => False) engine

def NoneVanishes : List FsChange → Engine F → Prop
  | [], _ => True
  | .rescanRequired :: rest, engine => wp scanChanges (fun _ => NoneVanishes rest) (fun _ _ => True) engine
  | change :: rest, engine =>
    ¬Vanishes engine change ∧ wp (recordLocalChange change) (fun _ => NoneVanishes rest) (fun _ _ => True) engine

end

/-! ## One change -/

section

variable {F : Type} [Filesystem F] {engine : Engine F} {change : FsChange}

theorem inspect_run (engine : Engine F) (path : WorkspacePath) : inspect path engine =
    match engine.view path with
    | .ok observed => .ok observed engine
    | .error e => .error (.filesystem e) engine := by
  simp only [inspect, bind, EStateM.bind, get_apply, readFiles, Engine.view]
  cases Filesystem.inspect engine.files path <;> rfl

theorem desiredFromChange_eq (h : ∀ path ∈ expectedPath change, engine.view path ≠ .ok none) :
    desiredFromChange change engine = desiredOrDeletion change engine := by
  have upsert : ∀ path, engine.view path ≠ .ok none →
      desiredFromChange (.create path) engine = desiredFromCurrent path engine := by
    intro path hpath
    simp only [desiredFromChange, desiredFromCurrent, bind, EStateM.bind, inspect_run]
    cases hview : engine.view path with
    | error e => rfl
    | ok observed =>
      cases observed with
      | none => exact absurd hview hpath
      | some observed => rfl
  cases change with
  | create path | update path => exact upsert path (h path rfl)
  | delete path | rescanRequired => rfl
  | rename source target =>
    simp only [desiredFromChange, desiredOrDeletion, bind, EStateM.bind, inspect_run]
    cases hview : engine.view target with
    | error e => rfl
    | ok observed =>
      cases observed with
      | none => exact absurd hview (h target rfl)
      | some observed => rfl

theorem desiredFromChange_vanished {path : WorkspacePath} (hpath : path ∈ expectedPath change)
    (h : engine.view path = .ok none) :
    ∃ e ∈ vanished, desiredFromChange change engine = .error (.filesystem e) engine := by
  cases change with
  | create other | update other =>
    cases hpath
    refine ⟨.io "observe local change", by simp [vanished], ?_⟩
    simp only [desiredFromChange, bind, EStateM.bind, inspect_run, h]
    rfl
  | rename source target =>
    cases hpath
    refine ⟨.io "observe local rename target", by simp [vanished], ?_⟩
    simp only [desiredFromChange, bind, EStateM.bind, inspect_run, h]
    rfl
  | delete other | rescanRequired => cases hpath

variable [Env]

theorem recordLocalChange_eq (h : ¬Vanishes engine change) :
    recordLocalChange change engine = recordChangeOrDeletion change engine := by
  have hkept := admitLocalChange_keeps (π := fun engine : Engine F => engine) change
  cases hrun : admitLocalChange change engine with
  | error e t =>
    rw [recordLocalChange, recordChangeOrDeletion, bind_of_error hrun, bind_of_error hrun]
  | ok admitted t =>
    obtain rfl := hkept.of_ok hrun
    rw [recordLocalChange, recordChangeOrDeletion, bind_of_ok hrun, bind_of_ok hrun]
    cases admitted with
    | none => rfl
    | some admitted =>
      have hfound : ∀ path ∈ expectedPath admitted, t.view path ≠ .ok none := by
        intro path hpath hview
        refine h ?_
        simp only [Vanishes, wp, hrun]
        exact ⟨admitted, rfl, path, hpath, hview⟩
      simp only [bind, EStateM.bind, desiredFromChange_eq hfound]

theorem recordLocalChange_vanished (h : Vanishes engine change) :
    ∃ e ∈ vanished, recordLocalChange change engine = .error (.filesystem e) engine := by
  unfold Vanishes wp at h
  have hkept := admitLocalChange_keeps (π := fun engine : Engine F => engine) change
  cases hrun : admitLocalChange change engine with
  | error e t => simp only [hrun] at h
  | ok admitted t =>
    obtain rfl := hkept.of_ok hrun
    simp only [hrun] at h
    obtain ⟨other, rfl, path, hpath, hview⟩ := h
    obtain ⟨e, he, hfails⟩ := desiredFromChange_vanished hpath hview
    refine ⟨e, he, ?_⟩
    rw [recordLocalChange, bind_of_ok hrun]
    exact bind_of_error hfails

end

/-! ## The errors of the other recording -/

section

variable {F : Type} [Filesystem F] [ReportingFilesystem F]

variable {P : SyncError → Prop} (change : FsChange) (desired : DesiredOperation)

section

omit [Filesystem F] [ReportingFilesystem F]

theorem transaction_throws {α : Type} {body : TxM α} (h : Throws P body) : Throws P (transaction (F := F) body) := by
  intro engine
  have hbody := h engine.db
  unfold wp at hbody ⊢
  simp only [transaction]
  cases hrun : body engine.db <;> simp_all

theorem forTx_throws {α : Type} {xs : List α} {step : α → TxM Unit} (h : ∀ x, Throws P (step x)) :
    Throws P (forTx xs step) := .forM h

theorem unrelated_protocolInvariant (reason : String) : Unrelated (.protocolInvariant reason) := by
  simp [Unrelated]

end

theorem inspect_throws (path : WorkspacePath) : Throws Unrelated (inspect (F := F) path) := by
  intro engine
  simp only [wp, inspect_run]
  cases hview : engine.view path with
  | ok observed => trivial
  | error e =>
    have herror := ReportingFilesystem.inspect_error engine.files path e hview
    intro v hv heq
    cases heq
    exact herror hv

theorem desiredEntryFromObserved_throws (observed : ObservedEntry) :
    Throws Unrelated (desiredEntryFromObserved (F := F) observed) := by
  unfold desiredEntryFromObserved
  split
  · exact .pure _
  refine .bind (fun engine => ?_) fun _ => .pure _
  simp only [wp, writeFiles]
  cases hstage : Filesystem.stageWorkspaceEntry engine.files observed.path with
  | mk result files =>
    cases result with
    | ok descriptor => trivial
    | error e =>
      have herror := ReportingFilesystem.stage_error engine.files observed.path e (by rw [hstage])
      intro v hv heq
      cases heq
      exact herror hv

theorem admitLocalChange_throws : Throws Unrelated (admitLocalChange (F := F) change) := by
  have synced : ∀ path, Throws Unrelated (pathIsSynced (F := F) path) := fun path =>
    .bind (inspect_throws path) fun _ => .bind .get fun _ => .pure _
  cases change with
  | create path | update path | delete path => exact .bind (synced path) fun _ => .pure _
  | rename source target => exact .bind (synced source) fun _ => .bind (synced target) fun _ => .pure _
  | rescanRequired => exact .pure _

theorem desiredOrDeletion_throws : Throws Unrelated (desiredOrDeletion (F := F) change) := by
  have current : ∀ path, Throws Unrelated (desiredFromCurrent (F := F) path) := by
    intro path
    refine .bind (inspect_throws path) fun observed => ?_
    cases observed with
    | none => exact .pure _
    | some observed => exact .bind (desiredEntryFromObserved_throws observed) fun _ => .pure _
  cases change with
  | create path | update path => exact current path
  | delete path => exact .pure _
  | rename source target =>
    refine .bind (inspect_throws target) fun observed => ?_
    cases observed with
    | none => exact .pure _
    | some observed => exact .bind (desiredEntryFromObserved_throws observed) fun _ => .pure _
  | rescanRequired => exact .throw (unrelated_protocolInvariant _)

omit [Filesystem F] [ReportingFilesystem F] in
theorem ensureOpen_throws : Throws Unrelated (ensureOpen (F := F)) := by
  refine .bind .get fun engine => ?_
  split
  · exact .throw (unrelated_protocolInvariant _)
  · exact .pure _

theorem scanChanges_throws : Throws Unrelated (scanChanges (F := F)) := by
  refine .bind ensureOpen_throws fun _ => .bind (.bind .get fun engine => .bind (fun reached => ?_) fun scan => ?_)
    fun entries => .bind (.mapM desiredEntryFromObserved_throws) fun _ => .bind .get fun _ => .pure _
  · unfold wp
    cases hscan : Filesystem.scan engine.files with
    | ok scan => trivial
    | error e =>
      have herror := ReportingFilesystem.scan_error engine.files e hscan
      intro v hv heq
      cases heq
      exact herror hv
  · split
    · exact .pure _
    · exact .throw (by simp [Unrelated])

variable [Env]

section

omit [Filesystem F] [ReportingFilesystem F]

theorem nextOperationId_throws : Throws P (nextOperationId (F := F)) := by
  refine .bind .get fun engine => ?_
  split <;> exact .bind (fun _ => trivial) fun _ => .pure _

theorem nextTimestamp_throws : Throws P (nextTimestamp (F := F)) := by
  refine .bind .get fun engine => ?_
  split <;> exact .bind (fun _ => trivial) fun _ => .pure _

end

theorem enqueueMutationAt_throws (mutation : WorkspaceMutation) (createdAtMs : Int) :
    Throws Unrelated (enqueueMutationAt mutation createdAtMs) := by
  unfold enqueueMutationAt
  split
  · exact .throw (unrelated_protocolInvariant _)
  split
  · exact .throw (unrelated_protocolInvariant _)
  refine .bind .get fun db => ?_
  split
  · split
    · exact .pure _
    · split
      · exact .throw (by simp [Unrelated])
      · exact fun _ => trivial
  · exact fun _ => trivial

omit [Env] in
theorem putLocalIntents_throws (paths : List WorkspacePath) (intent : WorkspacePath → LocalIntent) (updatedAtMs : Int) :
    Throws Unrelated (forTx paths fun path => putLocalIntent path (intent path) updatedAtMs) :=
  forTx_throws fun _ => .modify _

omit [Env] in
theorem removeLocalIntents_throws (paths : List WorkspacePath) : Throws Unrelated (forTx paths removeLocalIntent) :=
  forTx_throws fun _ => .modify _

section

omit [Filesystem F] [ReportingFilesystem F]

theorem deferDesired_throws : Throws Unrelated (deferDesired (F := F) desired) :=
  .bind nextTimestamp_throws fun _ => transaction_throws (putLocalIntents_throws _ _ _)

theorem recordDesired_throws : Throws Unrelated (recordDesired (F := F) desired) := by
  refine .bind .get fun engine => ?_
  dsimp only
  split
  · split
    · exact .pure _
    · split
      · exact .bind nextOperationId_throws fun _ => .bind nextTimestamp_throws fun _ => transaction_throws
          (.bind (.modify _) fun _ => .bind (enqueueMutationAt_throws _ _) fun _ => removeLocalIntents_throws _)
      · exact .bind nextTimestamp_throws fun _ => transaction_throws (putLocalIntents_throws _ _ _)
  · split
    · exact .bind nextTimestamp_throws fun _ => transaction_throws
        (.bind (removeLocalIntents_throws _) fun _ => putLocalIntents_throws _ _ _)
    · split
      · exact transaction_throws (removeLocalIntents_throws _)
      · refine .bind nextOperationId_throws fun operationId => .bind ?_ fun _ => .bind nextTimestamp_throws fun _ =>
          transaction_throws (.bind (enqueueMutationAt_throws _ _) fun _ => removeLocalIntents_throws _)
        unfold requireValid
        split
        · exact .pure _
        · exact .throw (unrelated_protocolInvariant _)

theorem recordOrDefer_throws : Throws Unrelated (recordOrDefer (F := F) desired) := by
  refine .bind .get fun engine => ?_
  dsimp only
  split
  · split
    · exact .pure _
    · exact deferDesired_throws desired
  · exact recordDesired_throws desired

end

theorem recordChangeOrDeletion_throws : Throws Unrelated (recordChangeOrDeletion (F := F) change) := by
  refine .bind (admitLocalChange_throws change) fun admitted => ?_
  cases admitted with
  | none => exact .pure _
  | some admitted => exact .bind (desiredOrDeletion_throws admitted) fun desired => recordOrDefer_throws desired

theorem tolerantPass_throws (changes : List FsChange) : Throws Unrelated (tolerantPass (F := F) changes) := by
  induction changes with
  | nil => exact .pure _
  | cons change rest ih =>
    cases change with
    | rescanRequired => exact .bind scanChanges_throws fun _ => .bind ih fun _ => .pure _
    | _ => exact .bind (recordChangeOrDeletion_throws _) fun _ => ih

end

/-! ## The batch -/

section

variable {F : Type} [Filesystem F] [ReportingFilesystem F] [Env] {engine : Engine F}

variable {change : FsChange}

section

omit [ReportingFilesystem F]

theorem recordPass_cons (h : change ≠ .rescanRequired) (rest : List FsChange) :
    recordPass (F := F) (change :: rest) = recordLocalChange change >>= fun _ => recordPass rest := by
  cases change with
  | rescanRequired => exact absurd rfl h
  | _ => rfl

theorem tolerantPass_cons (h : change ≠ .rescanRequired) (rest : List FsChange) :
    tolerantPass (F := F) (change :: rest) = recordChangeOrDeletion change >>= fun _ => tolerantPass rest := by
  cases change with
  | rescanRequired => exact absurd rfl h
  | _ => rfl

theorem noneVanishes_cons (h : change ≠ .rescanRequired) (rest : List FsChange) :
    NoneVanishes (change :: rest) engine ↔ ¬Vanishes engine change ∧
      wp (recordLocalChange change) (fun _ => NoneVanishes rest) (fun _ _ => True) engine := by
  cases change with
  | rescanRequired => exact absurd rfl h
  | _ => exact Iff.rfl

theorem recordPass_eq {changes : List FsChange} (h : NoneVanishes changes engine) :
    recordPass changes engine = tolerantPass changes engine := by
  induction changes generalizing engine with
  | nil => rfl
  | cons change rest ih =>
    by_cases hscan : change = .rescanRequired
    · subst hscan
      simp only [recordPass, tolerantPass, NoneVanishes] at h ⊢
      cases hrun : scanChanges engine with
      | error e t => rw [bind_of_error hrun, bind_of_error hrun]
      | ok found t =>
        have hrest : NoneVanishes rest t := by simpa only [wp, hrun] using h
        rw [bind_of_ok hrun, bind_of_ok hrun]
        simp only [bind, EStateM.bind, ih hrest]
    · rw [noneVanishes_cons hscan] at h
      rw [recordPass_cons hscan, tolerantPass_cons hscan]
      have hstep := recordLocalChange_eq h.1
      cases hrun : recordLocalChange change engine with
      | error e t => rw [bind_of_error hrun, bind_of_error (hstep ▸ hrun)]
      | ok a t =>
        have hrest : NoneVanishes rest t := by simpa only [wp, hrun] using h.2
        rw [bind_of_ok hrun, bind_of_ok (hstep ▸ hrun), ih hrest]

theorem recordPass_vanished {changes : List FsChange} (h : ¬NoneVanishes changes engine) :
    ∃ e ∈ vanished, ∃ after, recordPass changes engine = .error (.filesystem e) after := by
  induction changes generalizing engine with
  | nil => exact absurd trivial h
  | cons change rest ih =>
    by_cases hscan : change = .rescanRequired
    · subst hscan
      simp only [recordPass, NoneVanishes] at h ⊢
      cases hrun : scanChanges engine with
      | error e t => exact absurd (by simp only [wp, hrun]) h
      | ok found t =>
        simp only [wp, hrun] at h
        obtain ⟨e, he, after, hfails⟩ := ih h
        exact ⟨e, he, after, by rw [bind_of_ok hrun, bind_of_error hfails]⟩
    · rw [noneVanishes_cons hscan] at h
      rw [recordPass_cons hscan]
      by_cases hvanishes : Vanishes engine change
      · obtain ⟨e, he, hfails⟩ := recordLocalChange_vanished hvanishes
        exact ⟨e, he, engine, bind_of_error hfails⟩
      · cases hrun : recordLocalChange change engine with
        | error e t => exact absurd ⟨hvanishes, by simp only [wp, hrun]⟩ h
        | ok a t =>
          have hrest : ¬NoneVanishes rest t := fun hnone => h ⟨hvanishes, by simpa only [wp, hrun] using hnone⟩
          obtain ⟨e, he, after, hfails⟩ := ih hrest
          exact ⟨e, he, after, by rw [bind_of_ok hrun, hfails]⟩

end

end

/-! ## What the recording sees -/

section

variable {F : Type} [Filesystem F]

instance [StagingFilesystem F] : StagingFree (Engine.view (F := F)) where
  of_staged engine path := StagingFilesystem.inspect_staged engine.files path

@[grind .] theorem transaction_view {α : Type} (body : TxM α) : Keeps Engine.view (transaction (F := F) body) := by
  intro engine
  simp only [transaction, wp]
  cases body engine.db <;> rfl

variable [Env]

@[grind .] theorem nextTimestamp_view : Keeps Engine.view (nextTimestamp (F := F)) := by
  intro engine
  simp only [nextTimestamp, wp_bind, wp_get]
  split <;> rfl

@[grind .] theorem nextOperationId_view : Keeps Engine.view (nextOperationId (F := F)) := by
  intro engine
  simp only [nextOperationId, wp_bind, wp_get]
  split <;> rfl

@[grind .] theorem recordDesired_view (desired : DesiredOperation) :
    Keeps Engine.view (recordDesired (F := F) desired) := by
  unfold recordDesired
  refine .bind .get fun engine => ?_
  dsimp only
  split
  · split
    · exact .pure _
    · split <;> grind
  · split
    · grind
    · split <;> grind

theorem recordLocalChange_view [StagingFilesystem F] (change : FsChange) :
    Keeps Engine.view (recordLocalChange (F := F) change) := by
  refine .bind (admitLocalChange_keeps change) fun admitted => ?_
  cases admitted with
  | none => exact .pure _
  | some admitted =>
    refine .bind (desiredFromChange_keeps admitted) fun desired => .bind .get fun engine => ?_
    dsimp only
    split
    · split
      · exact .pure _
      · exact .bind nextTimestamp_view fun _ => transaction_view _
    · exact recordDesired_view desired

/-! ## The changes of a scan -/

omit [Env] in
def Present (engine : Engine F) (changes : List FsChange) : Prop :=
  ∀ change ∈ changes, ∀ path ∈ expectedPath change, engine.view path ≠ .ok none

omit [Env] in
theorem changesBetween_expects {remote : PathStates} {current : List LocalDesiredEntry} {change : FsChange}
    (h : change ∈ changesBetween remote current) :
    ∀ path ∈ expectedPath change, ∃ entry ∈ current, entry.path = path := by
  rw [Scan.changesBetween_eq, List.mem_append, List.mem_map, Scan.mem_single] at h
  rcases h with (⟨entry, hentry, rfl⟩ | ⟨entry, hentry, rfl⟩ | ⟨gone, -, rfl⟩) | ⟨pair, hpair, rfl⟩
  · exact fun path hpath => ⟨entry, (Scan.mem_created.mp hentry).1, Option.some.inj hpath⟩
  · exact fun path hpath => ⟨entry, (Scan.mem_updates.mp hentry).1, Option.some.inj hpath⟩
  · exact fun path hpath => nomatch hpath
  · obtain ⟨_, entry, hjoins⟩ := Scan.joins_of_mem (Scan.mem_renamed.mp hpair)
    exact fun path hpath => ⟨entry, hjoins.mem, hjoins.target.trans (Option.some.inj hpath)⟩

variable [StagingFilesystem F] [ReportingFilesystem F]

variable (engine : Engine F)

omit [Env] [StagingFilesystem F] in
theorem scanComplete_there :
    wp scanComplete (fun entries after => after = engine ∧ ∀ entry ∈ entries, engine.view entry.path ≠ .ok none)
      (fun _ _ => True) engine := by
  simp only [scanComplete, wp_bind, wp_get]
  cases hscan : Filesystem.scan engine.files with
  | error e => trivial
  | ok scan =>
    have hthere := ReportingFilesystem.scan_there engine.files scan hscan
    simp only [readFiles, wp_pure]
    split
    · exact ⟨rfl, hthere⟩
    · trivial

omit [Env] in
theorem scanChanges_present : wp scanChanges (fun found after => Present after found) (fun _ _ => True) engine := by
  unfold scanChanges
  refine ensureOpen_keeps.wp_check (fun _ => ?_) fun _ => trivial
  refine wp_seq_any (scanComplete_there engine) fun entries after h => ?_
  obtain ⟨rfl, hthere⟩ := h
  rw [wp_bind]
  have hstaged := wp_and (@Returns.mapM _ _ _ _ _ _ entries (fun entry _ => desiredEntryFromObserved_path (F := F) entry) after)
    ((Keeps.mapM fun entry => desiredEntryFromObserved_keeps (π := Engine.view) entry) after)
  refine wp_mono hstaged (fun staged reached hreached => ?_) fun _ _ _ => trivial
  intro change hchange path hpath
  obtain ⟨entry, hentry, rfl⟩ := changesBetween_expects hchange path hpath
  obtain ⟨observed, hobserved, hsame⟩ := hreached.1 entry ((List.mem_insertionSort _).mp hentry)
  rw [hreached.2, hsame]
  exact hthere observed hobserved

omit [Env] [StagingFilesystem F] [ReportingFilesystem F] in
theorem Present.of_view {s t : Engine F} {changes : List FsChange} (h : Present s changes) (hview : t.view = s.view) :
    Present t changes := by
  intro change hchange
  rw [hview]
  exact h change hchange

theorem recordPass_present (changes : List FsChange) (engine : Engine F) :
    wp (recordPass changes) (fun found after => Present after found ∧ after.view = engine.view) (fun _ _ => True)
      engine := by
  induction changes generalizing engine with
  | nil => exact ⟨fun change hchange => absurd hchange List.not_mem_nil, rfl⟩
  | cons change rest ih =>
    by_cases hscan : change = .rescanRequired
    · subst hscan
      simp only [recordPass, wp_bind]
      refine wp_mono (wp_and (scanChanges_present engine) (scanChanges_keeps (π := Engine.view) engine))
        (fun found t ht => ?_) fun _ _ _ => trivial
      refine wp_seq (ih t) fun later after hafter => ⟨fun other hother => ?_, hafter.2.trans ht.2⟩
      rcases List.mem_append.mp hother with hfound | hlater
      · exact ht.1.of_view hafter.2 other hfound
      · exact hafter.1 other hlater
    · rw [recordPass_cons hscan]
      exact (recordLocalChange_view change).wp_bind
        (fun _ t ht => wp_mono (ih t) (fun _ _ h => ⟨h.1, h.2.trans ht⟩) fun _ _ h => h) fun _ _ _ => trivial

/-! ## The whole recording -/

omit [Env] [StagingFilesystem F] [ReportingFilesystem F] in
theorem admitLocalChange_expects (change : FsChange) :
    Returns (fun admitted => ∀ half ∈ admitted, ∀ path ∈ expectedPath half, path ∈ expectedPath change)
      (admitLocalChange (F := F) change) := by
  have whole : ∀ synced : Bool, ∀ half ∈ (if synced then some change else none),
      ∀ path ∈ expectedPath half, path ∈ expectedPath change := by
    intro synced half hhalf path hpath
    cases synced with
    | true => cases hhalf; exact hpath
    | false => cases hhalf
  cases change with
  | create path | update path | delete path => exact .after fun synced => .pure (whole synced)
  | rescanRequired => exact .pure (whole true)
  | rename source target =>
    refine .after fun sourceSynced => .after fun targetSynced => .pure ?_
    intro half hhalf path hpath
    cases sourceSynced <;> cases targetSynced <;> cases hhalf
    · exact hpath
    · cases hpath
    · exact hpath

omit [ReportingFilesystem F] in
theorem noneVanishes_of_present {changes : List FsChange} {engine : Engine F} (h : Present engine changes) :
    NoneVanishes changes engine := by
  induction changes generalizing engine with
  | nil => trivial
  | cons change rest ih =>
    have hrest : Present engine rest := fun other hother => h other (by simp [hother])
    by_cases hscan : change = .rescanRequired
    · subst hscan
      exact wp_mono (scanChanges_keeps (π := Engine.view) engine) (fun _ t ht => ih (hrest.of_view ht))
        fun _ _ _ => trivial
    rw [noneVanishes_cons hscan]
    refine ⟨fun hvanishes => ?_, ?_⟩
    · have hadmitted := wp_and hvanishes (admitLocalChange_expects change engine)
      obtain ⟨admitted, _, -, ⟨half, hhalf, path, hpath, hgone⟩, hexpects⟩ :=
        exists_ok_of_wp (wp_mono hadmitted (fun _ _ h => h) fun _ _ h => h.1)
      exact h change (by simp) path (hexpects half hhalf path hpath) hgone
    · exact wp_mono (recordLocalChange_view change engine) (fun _ t ht => ih (hrest.of_view ht))
        fun _ _ _ => trivial

/-- Recording local changes ends as if every change whose path is gone were a deletion, exactly if no change of the
batch vanishes before the recording comes to it. The changes that a scan finds never do. -/
theorem recordLocalChanges_eq_iff (engine : Engine F) (changes : List FsChange) :
    recordLocalChanges changes engine = recordChangesOrDeletions changes engine ↔
      engine.closed = true ∨ NoneVanishes changes engine := by
  by_cases hclosed : engine.closed = true
  · have hrefused : ensureOpen engine = .error (.protocolInvariant "engine_closed") engine := by
      simp [ensureOpen, bind, EStateM.bind, get_apply, hclosed]
      rfl
    simp only [recordLocalChanges, recordChangesOrDeletions, bind_of_error hrefused, hclosed, true_or]
  have hopen : ensureOpen engine = .ok () engine := by
    simp [ensureOpen, bind, EStateM.bind, get_apply, hclosed, pure, EStateM.pure]
  simp only [recordLocalChanges, recordChangesOrDeletions, bind_of_ok hopen, hclosed, false_or, Bool.false_eq_true]
  constructor
  · intro heq
    by_contra hvanishes
    obtain ⟨e, he, after, hfails⟩ := recordPass_vanished hvanishes
    rw [bind_of_error hfails] at heq
    have hthrows : Throws Unrelated (tolerantPass changes >>= fun found => tolerantPass found >>= fun _ =>
        (Pure.pure () : EngineM F Unit)) :=
      .bind (tolerantPass_throws changes) fun found => .bind (tolerantPass_throws found) fun _ => .pure _
    exact absurd rfl (hthrows.of_error heq.symm e he)
  · intro hnone
    have hfirst := recordPass_eq hnone
    cases hrun : recordPass changes engine with
    | error e t => rw [bind_of_error hrun, bind_of_error (hfirst.symm.trans hrun)]
    | ok found t =>
      have hpresent := wp_of_ok (recordPass_present changes engine) hrun
      have hsecond := recordPass_eq (noneVanishes_of_present hpresent.1)
      rw [bind_of_ok hrun, bind_of_ok (hfirst.symm.trans hrun)]
      simp only [bind, EStateM.bind, hsecond]

end

/-! ## A workspace on disk -/

theorem stageWorkspaceEntry_node (disk : Disk) (path : WorkspacePath) :
    (disk.stageWorkspaceEntry path).2.node = disk.node := by
  simp only [Disk.stageWorkspaceEntry]
  split
  · rfl
  · split <;> rfl

theorem inspect_congr {a b : Disk} (h : a.node = b.node) : a.inspect = b.inspect := by
  cases a
  cases b
  cases h
  rfl

instance : StagingFilesystem Disk where
  inspect_staged disk path := inspect_congr (stageWorkspaceEntry_node disk path)

instance : ReportingFilesystem Disk where
  inspect_error disk path e h := by
    simp only [Filesystem.inspect, Disk.inspect] at h
    split at h
    · cases h
      decide
    · cases h
  stage_error disk path e h := by
    simp only [Filesystem.stageWorkspaceEntry, Disk.stageWorkspaceEntry] at h
    split at h
    · cases h
      decide
    · split at h <;> cases h
      decide
  scan_error disk e h := by cases h
  scan_there disk scan hscan entry hentry hgone := by
    cases hscan
    obtain ⟨path, -, hpath⟩ := List.mem_filterMap.mp hentry
    cases hnode : disk.node path with
    | none => simp [hnode] at hpath
    | some node =>
      obtain rfl : node.observe path = entry := by simpa [hnode] using hpath
      simp only [Filesystem.inspect, Disk.inspect] at hgone
      split at hgone
      · cases hgone
      · simp [Node.observe, hnode] at hgone

open scoped Sample

theorem recordLocalChanges_eq_iff_rescan :
    recordLocalChanges [.rescanRequired, .delete Sample.pathA] Sample.engine =
      recordChangesOrDeletions [.rescanRequired, .delete Sample.pathA] Sample.engine ↔
        Sample.engine.closed = true ∨ NoneVanishes [.rescanRequired, .delete Sample.pathA] Sample.engine :=
  recordLocalChanges_eq_iff Sample.engine [.rescanRequired, .delete Sample.pathA]

/-- A file is gone again when the batch with its creation is recorded. -/
theorem recordLocalChanges_vanished :
    ¬∀ (engine : Engine Disk) (changes : List FsChange),
      recordLocalChanges changes engine = recordChangesOrDeletions changes engine := by
  intro h
  have hfails : wp (recordLocalChanges [.create Sample.pathA]) (fun _ _ => False) (fun _ _ => True)
      Sample.engine := by
    decide +kernel
  have hrecords : wp (recordChangesOrDeletions [.create Sample.pathA]) (fun _ _ => True) (fun _ _ => False)
      Sample.engine := by
    decide +kernel
  unfold wp at hfails hrecords
  rw [h] at hfails
  cases hrun : recordChangesOrDeletions [.create Sample.pathA] Sample.engine with
  | ok a t => simp only [hrun] at hfails
  | error e t => simp only [hrun] at hrecords

end Lumio.Sync
