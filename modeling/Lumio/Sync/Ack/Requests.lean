import Lumio.Sync.Ack.Safety

/-!
# What is asked to be acknowledged

`pendingCommands` asks for at most one acknowledgement, that of the cursor in the state it leaves behind.
-/

namespace Lumio.Sync

open Lumio.Protocol Lumio.Fs Prog

def SyncCommand.acks : SyncCommand → Bool
  | .sendAck _ => true
  | _ => false

def NoAck (commands : List SyncCommand) : Prop := ∀ command ∈ commands, command.acks = false

section

variable {F : Type} [Filesystem F] [Env]

omit [Env] in
theorem NoAck.append {first second : List SyncCommand} (hfirst : NoAck first) (hsecond : NoAck second) :
    NoAck (first ++ second) := by
  intro command hmem
  obtain hmem | hmem := List.mem_append.mp hmem
  · exact hfirst command hmem
  · exact hsecond command hmem

theorem NoAck.pushDownload {commands : List SyncCommand} (h : NoAck commands) (limit : Nat)
    (operationId : Option OperationId) (hash : WorkspaceContentHash) (size : Nat) :
    NoAck (pushDownload commands limit operationId hash size) := by
  unfold Sync.pushDownload
  dsimp only
  split
  · exact h
  · exact h.append (by simp [NoAck, SyncCommand.acks])

variable (work : InboundWork) (commandLimit : Nat) (reissueWaiting : Bool)

theorem NoAck.waiting (h : NoAck work.commands) (commandLimit : Nat) (reissueWaiting : Bool)
    (operationId : Option OperationId) (content : WorkspaceContentHash × Nat) :
    NoAck (work.waiting commandLimit reissueWaiting operationId content).commands := by
  unfold InboundWork.waiting
  split
  · exact h.pushDownload _ _ _ _
  · exact h

theorem resumeLiveStep_noAck {work : InboundWork} (h : NoAck work.commands) (commandLimit : Nat)
    (reissueWaiting : Bool) :
    Returns (fun result => NoAck result.2.commands) (resumeLiveStep (F := F) work commandLimit reissueWaiting) := by
  unfold resumeLiveStep
  refine .after fun engine => ?_
  split
  · exact .pure h
  split
  · exact .pure h
  dsimp only
  refine .after fun missing => ?_
  split
  · refine .pure (NoAck.waiting _ ?_ _ _ _ _)
    exact h
  · split <;> exact .after fun _ => .after fun _ => .pure h

theorem resumeStreamEntry_noAck (record : StreamEntryRecord) (work : InboundWork) (h : NoAck work.commands)
    (commandLimit : Nat) (reissueWaiting : Bool) : Returns (fun result => NoAck result.2.commands)
      (resumeStreamEntry (F := F) record work commandLimit reissueWaiting) := by
  unfold resumeStreamEntry
  refine .after fun missing => ?_
  split
  · exact .after fun _ => .pure (NoAck.waiting _ h _ _ _ _)
  · exact .after fun _ => .after fun _ => .pure h

theorem resumeStreamEvent_noAck (event : WorkspaceEventMessage) (status : StreamItemStatus) (work : InboundWork)
    (h : NoAck work.commands) (commandLimit : Nat) (reissueWaiting : Bool) :
    Returns (fun result => NoAck result.2.commands)
      (resumeStreamEvent (F := F) event status work commandLimit reissueWaiting) := by
  unfold resumeStreamEvent
  refine .after fun receiptMatch => ?_
  split
  · exact .after fun _ => .pure h
  split
  · exact .after fun _ => .pure h
  refine .after fun missing => ?_
  split
  · exact .after fun _ => .pure (NoAck.waiting _ h _ _ _ _)
  · exact .after fun _ => .after fun _ => .pure h

theorem resumeStreamConflictResolved_noAck (message : WorkspaceConflictResolvedMessage) (status : StreamItemStatus)
    (work : InboundWork) (h : NoAck work.commands) (commandLimit : Nat) (reissueWaiting : Bool) :
    Returns (fun result => NoAck result.2.commands)
      (resumeStreamConflictResolved (F := F) message status work commandLimit reissueWaiting) := by
  unfold resumeStreamConflictResolved
  refine .after fun receiptMatch => ?_
  split
  · exact .after fun _ => .pure h
  refine .after fun missing => ?_
  split
  · exact .after fun _ => .pure (NoAck.waiting _ h _ _ _ _)
  · exact .after fun _ => .after fun _ => .pure h

theorem resumeStreamStep_noAck {work : InboundWork} (h : NoAck work.commands) (commandLimit : Nat)
    (reissueWaiting : Bool) : Returns (fun result => NoAck result.2.commands)
      (resumeStreamStep (F := F) work commandLimit reissueWaiting) := by
  unfold resumeStreamStep
  refine .after fun engine => ?_
  dsimp only
  split
  · exact .pure h
  split
  · exact .pure h
  split
  · split
    · exact .pure h
    split
    · exact .pure h
    · refine resumeStreamEntry_noAck _ _ ?_ _ _
      exact h
  · split
    · exact .pure h
    split
    · exact .pure h
    split
    · refine resumeStreamEvent_noAck _ _ _ ?_ _ _
      exact h
    · refine resumeStreamConflictResolved_noAck _ _ _ ?_ _ _
      exact h

theorem resumeLoop_noAck (fuel : Nat) :
    ∀ (source : InboundWorkSource) (streamUnavailable liveUnavailable : Bool) {work : InboundWork},
      NoAck work.commands → Returns (fun work => NoAck work.commands)
        (resumeLoop (F := F) commandLimit reissueWaiting fuel source streamUnavailable liveUnavailable work) := by
  induction fuel with
  | zero => exact fun _ _ _ _ h => .pure h
  | succ fuel ih =>
    intro source streamUnavailable liveUnavailable work h
    unfold resumeLoop
    split
    · exact .pure h
    split
    · split
      · exact ih _ _ _ h
      · exact (resumeStreamStep_noAck h _ _).bind fun _ h => ih _ _ _ h
    · split
      · exact ih _ _ _ h
      · exact (resumeLiveStep_noAck h _ _).bind fun _ h => ih _ _ _ h

theorem resumeInboundWork_noAck : Returns NoAck (resumeInboundWork (F := F) commandLimit reissueWaiting) := by
  unfold resumeInboundWork
  refine .after fun engine => ?_
  dsimp only
  refine .after fun _ => ?_
  refine (resumeLoop_noAck _ _ _ _ _ _ (by simp [NoAck])).bind fun work h => ?_
  exact .after fun _ => .after fun _ => .pure h

/-! ## The poll -/

section

omit [Env]

theorem outboxCommand_noAck (records : List OutboxRecord) : NoAck (records.map outboxCommand) := by
  intro command hmem
  obtain ⟨record, -, rfl⟩ := List.mem_map.mp hmem
  unfold outboxCommand
  split <;> rfl

theorem uploadCommand_acks {record : OutboxRecord} {command : SyncCommand} (h : uploadCommand record = .ok command) :
    command.acks = false := by
  simp only [uploadCommand] at h
  split at h
  · cases h
    rfl
  · cases h

theorem uploadCommand_noAck : ∀ {records : List OutboxRecord} {uploads : List SyncCommand},
    records.mapM uploadCommand = .ok uploads → NoAck uploads
  | [], uploads, h => by
    cases h
    simp [NoAck]
  | record :: records, uploads, h => by
    rw [List.mapM_cons] at h
    cases hfirst : uploadCommand record with
    | error e => simp [hfirst, bind, Except.bind] at h
    | ok first =>
      cases hrest : records.mapM uploadCommand with
      | error e => simp [hfirst, hrest, bind, Except.bind] at h
      | ok rest =>
        simp only [hfirst, hrest, bind, Except.bind, pure, Except.pure, Except.ok.injEq] at h
        subst h
        intro command hmem
        obtain rfl | hmem := List.mem_cons.mp hmem
        · exact uploadCommand_acks hfirst
        · exact uploadCommand_noAck hrest command hmem

end

def WorkspaceCursor.asks (cursor : WorkspaceCursor) (revision : WorkspaceRevision) : Prop :=
  cursor.pendingAckRevision.or cursor.pendingSegmentAckRevision = some revision

theorem asks_of_ackCommand {cursor : WorkspaceCursor} {ack : WorkspaceAckRequest}
    (h : .sendAck ack ∈ ackCommand cursor) : cursor.asks ack.revision := by
  unfold ackCommand at h
  split at h
  · rename_i revision hrevision
    cases List.mem_singleton.mp h
    exact hrevision
  · cases h

omit [Env] in
theorem NoAck.asks {commands : List SyncCommand} (h : NoAck commands) {ack : WorkspaceAckRequest}
    (hmem : .sendAck ack ∈ commands) : False := by
  have := h _ hmem
  cases this

theorem pendingCommands_asks (limit : Nat) (s : Engine F) :
    wp (pendingCommands limit)
      (fun commands t => ∀ ack, .sendAck ack ∈ commands → t.db.cursor.asks ack.revision) (fun _ _ => True) s := by
  unfold pendingCommands
  refine wp_seq_any (Returns.any ensureOpen s) fun _ t _ => ?_
  split
  · simp
  refine wp_seq_any (resumeInboundWork_noAck limit true t) fun inbound u hinbound => ?_
  split
  · exact fun ack hmem => (hinbound.asks hmem).elim
  rw [wp_bind, wp_get]
  refine wp_seq_any (Returns.any _ u) fun _ v _ => ?_
  refine wp_seq_any (Returns.any _ v) fun records w _ => ?_
  dsimp only
  rw [wp_bind, wp_get, wp_bind]
  refine wp_readDb (fun uploads huploads => ?_) (fun _ => trivial)
  have hcommands : NoAck ((inbound ++ records.map outboxCommand) ++ uploads) :=
    (hinbound.append (outboxCommand_noAck records)).append (uploadCommand_noAck huploads)
  rw [wp_pure]
  split
  · intro ack hmem
    obtain hmem | hmem := List.mem_append.mp hmem
    · exact (hcommands.asks hmem).elim
    · exact asks_of_ackCommand hmem
  · exact fun ack hmem => (hcommands.asks hmem).elim

/-! ## Safety -/

def Db.StreamSettled (db : Db) : Prop :=
  (∀ entry ∈ db.entries.values, entry.status.settled) ∧ ∀ item ∈ db.items.values, item.status.settled

omit [Env] in
theorem Db.StreamSettled.of_unsettled {db : Db} (h : db.unsettled = 0) : db.StreamSettled := by
  obtain ⟨hentries, hitems⟩ := Nat.add_eq_zero_iff.mp h
  constructor
  · intro entry hmem
    have := Table.count_eq_zero_iff.mp hentries entry hmem
    simpa using this
  · intro item hmem
    have := Table.count_eq_zero_iff.mp hitems item hmem
    simpa using this

omit [Env] in
omit [Filesystem F] in
theorem AckSafe.asked {engine : Engine F} (h : AckSafe engine.ack) {revision : WorkspaceRevision}
    (hasks : engine.db.cursor.asks revision) : engine.db.StreamSettled ∧
      ∀ pending ∈ engine.pendingLiveEvents, pending.message.revision ≤ revision →
        Processed engine.db.appliedOperations pending.message := by
  constructor
  · refine .of_unsettled ?_
    by_contra hne
    obtain ⟨hpending, hsegment, -⟩ := h.quiet (Nat.pos_of_ne_zero hne)
    have hpending : engine.db.cursor.pendingAckRevision = none := hpending
    have hsegment : engine.db.cursor.pendingSegmentAckRevision = none := hsegment
    rw [WorkspaceCursor.asks, hpending, hsegment] at hasks
    cases hasks
  · intro pending hmem hle
    by_contra hnot
    have happlied := h.applied pending.message (List.mem_map.mpr ⟨pending, hmem, rfl⟩) hnot
    have hbound : revision ≤ engine.db.cursor.lastAppliedRevision := by
      unfold WorkspaceCursor.asks at hasks
      obtain hsome | ⟨-, hsome⟩ := Option.or_eq_some_iff.mp hasks
      · exact h.pending revision hsome
      · exact h.segment revision hsome
    exact absurd (Nat.lt_of_lt_of_le happlied (hle.trans hbound)) (Nat.lt_irrefl _)

omit [Env] in
omit [Filesystem F] in
theorem AckSafe.cleared {engine after : Engine F} (h : AckSafe engine.ack) {message : WorkspaceAckRequest}
    (hconfirm : Confirm engine.ack message.revision after.ack) (hstream : engine.db.stream.isSome)
    (hcleared : after.db.stream = none) : engine.db.StreamSettled := by
  have hfinal : after.ack.store.final = none := by simp [Engine.ack, Db.ack, hcleared]
  have hstored : engine.ack.store.final ≠ none := by
    intro hnone
    simp only [Engine.ack, Db.ack, Option.map_eq_none_iff] at hnone
    rw [hnone] at hstream
    cases hstream
  generalize hview : after.ack = view at hconfirm hfinal
  cases hconfirm with
  | nothing => exact absurd hfinal hstored
  | segment => exact absurd hfinal hstored
  | partly => exact absurd hfinal hstored
  | pending waiting acked applied =>
    refine .of_unsettled ?_
    by_contra hne
    have hquiet := (h.quiet (Nat.pos_of_ne_zero hne)).1
    rw [hquiet] at waiting
    cases waiting

/-- In the state of the engine, a revision is asked to be acknowledged only when everything up to it is
processed, and a confirmation clears the stored stream only when all its rows are. -/
def Engine.AcknowledgesSafely (engine : Engine F) : Prop :=
  (∀ limit commands after ack, pendingCommands limit engine = .ok commands after → .sendAck ack ∈ commands →
    after.db.StreamSettled ∧ ∀ pending ∈ after.pendingLiveEvents, pending.message.revision ≤ ack.revision →
      Processed after.db.appliedOperations pending.message) ∧
  ∀ message after, ackConfirmed message engine = .ok () after → engine.db.stream.isSome →
    after.db.stream = none → engine.db.StreamSettled

/-- Acknowledgements are safe along every run of allowed calls. -/
theorem acknowledgement_safe {files : F} {operationIds : List OperationId} {timestamps : List Int}
    {engine : Engine F} (run : Run AckAllowed (Engine.initial files operationIds timestamps) engine) :
    engine.AcknowledgesSafely := by
  have hsafe := AckSafe.run run
  constructor
  · intro limit commands after ack hpoll hmem
    have hmoved := wp_of_ok (pendingCommands_working limit engine) hpoll
    exact (hsafe.moves hmoved).asked (wp_of_ok (pendingCommands_asks limit engine) hpoll ack hmem)
  · intro message after hconfirm hstream hcleared
    have hview := wp_of_ok (ackConfirmed_wp engine message) hconfirm
    exact hsafe.cleared hview hstream hcleared

end

section

open scoped Sample

/-- The revision of the stream is asked to be acknowledged while a later event waits. -/
theorem acknowledgement_safe_of_event :
    (∃ commands after, pendingCommands 8 Sample.waitingEngine = .ok commands after ∧ .sendAck ⟨1, 1, 3⟩ ∈ commands ∧
      after.db.stream.isSome ∧
      after.pendingLiveEvents.map (·.message) = [.event (Sample.writing Sample.pathB 5 [1, 2, 3])]) ∧
    Sample.waitingEngine.AcknowledgesSafely := by
  constructor
  · have hrun : decide (wp (pendingCommands 8) (fun commands after => .sendAck ⟨1, 1, 3⟩ ∈ commands ∧
        after.db.stream.isSome ∧
        after.pendingLiveEvents.map (·.message) = [.event (Sample.writing Sample.pathB 5 [1, 2, 3])])
        (fun _ _ => False) Sample.waitingEngine) = true := by decide +kernel
    exact exists_ok_of_decide hrun
  · refine acknowledgement_safe (.step (.step (.step (.step (.refl _) False.elim) fun _ => ?_) False.elim) ⟨?_, .inr ⟨?_, ?_⟩⟩)
    · exact ⟨by decide +kernel, by decide +kernel, rfl⟩
    · decide +kernel
    · decide +kernel
    · decide +kernel

/-- After revision 5 a live event of revision 4 is queued for its content, and revision 5 is asked to be
acknowledged all the same. -/
def overtakenEngine : Engine Disk :=
  (Sample.engine.after (.event (Sample.deletion Sample.pathA 5))).after
    (.event (Sample.writing Sample.pathB 4 [1, 2, 3]))

theorem not_acknowledgesSafely_overtakenEngine :
    Run (fun _ _ => True) Sample.engine overtakenEngine ∧ ¬overtakenEngine.AcknowledgesSafely := by
  constructor
  · exact .step (.step (.refl _) trivial) trivial
  · rintro ⟨hpoll, -⟩
    have hrun : decide (wp (pendingCommands 8) (fun commands after => .sendAck ⟨1, 1, 5⟩ ∈ commands ∧
        after.pendingLiveEvents.map (·.message) = [.event (Sample.writing Sample.pathB 4 [1, 2, 3])] ∧
        after.db.appliedOperations.lookup (2, 104) = none) (fun _ _ => False) overtakenEngine) = true := by
      decide +kernel
    obtain ⟨commands, after, hok, hask, hqueue, hnone⟩ := exists_ok_of_decide hrun
    have hmem : StreamRevisionItem.event (Sample.writing Sample.pathB 4 [1, 2, 3]) ∈
        after.pendingLiveEvents.map (·.message) := by simp [hqueue]
    obtain ⟨pending, hpending, hmessage⟩ := List.mem_map.mp hmem
    have hprocessed := (hpoll 8 commands after _ hok hask).2 pending hpending (by rw [hmessage]; decide)
    rw [hmessage] at hprocessed
    obtain ⟨record, hrecord, -⟩ := hprocessed
    cases hnone.symm.trans hrecord

end

end Lumio.Sync
