import Lumio.Sync.Ack.Calls

/-!
# What a run never takes back

The applied and the acknowledged revision never go back, receipts stay as they are, and only a confirmation moves the
acknowledged revision.
-/

namespace Lumio.Sync

open Lumio.Protocol Lumio.Fs

structure AckStore.Forward (before after : AckStore) : Prop where
  applied : before.cursor.lastAppliedRevision ≤ after.cursor.lastAppliedRevision
  acked : after.cursor.lastAckRevision = before.cursor.lastAckRevision
  receipts : Receipts.Grow before.receipts after.receipts

namespace AckStore.Forward

theorem refl (store : AckStore) : store.Forward store := ⟨le_rfl, rfl, .refl _⟩

theorem trans {a b c : AckStore} (hab : a.Forward b) (hbc : b.Forward c) : a.Forward c :=
  ⟨hab.applied.trans hbc.applied, hbc.acked.trans hab.acked, hab.receipts.trans hbc.receipts⟩

theorem raised {before after : AckStore} {revision : WorkspaceRevision}
    (h : before.cursor.Raised after.cursor revision) (grow : Receipts.Grow before.receipts after.receipts) :
    before.Forward after := by
  refine ⟨?_, h.lastAck, grow⟩
  obtain hsame | ⟨hlt, hrevision⟩ := h.lastApplied
  · exact Nat.le_of_eq hsame.symm
  · exact hrevision ▸ Nat.le_of_lt hlt

theorem move {before after : AckView} (h : Move before after) : before.store.Forward after.store := by
  cases h with
  | liveEvent missing applied grow processed => exact ⟨applied, rfl, grow⟩
  | liveResolution applied grow processed => exact ⟨Nat.le_of_lt applied, rfl, grow⟩
  | raise raised grow processed => exact .raised raised grow
  | pop processed => exact .refl _
  | row pos row =>
    have hlastAck := congrArg WorkspaceCursor.lastAckRevision row.cursor
    exact ⟨row.applied, hlastAck, row.receipts⟩
  | finish applied needsAck => exact ⟨applied, rfl, .refl _⟩
  | drop applied acked => exact ⟨applied, rfl, .refl _⟩
  | segment idle => exact ⟨le_rfl, rfl, .refl _⟩

theorem moves {before after : AckView} (h : Relation.ReflTransGen Move before after) :
    before.store.Forward after.store := by
  induction h with
  | refl => exact .refl _
  | tail _ hmove ih => exact ih.trans (.move hmove)

variable {F : Type} [Env]

theorem deliver {s : Engine F} {call : Call F} {view : AckView} (h : Deliver s call view) :
    s.ack.store.Forward view.store := by
  cases h with
  | nothing => exact .refl _
  | queueEvent order => exact .refl _
  | replayEvent raised ahead => exact .raised raised.1 raised.2.2.2
  | queueResolution idle order fresh => exact .refl _
  | replayResolution idle raised ahead => exact .raised raised.1 raised.2.2.2
  | stage cursor final grow stored new =>
    refine ⟨?_, congrArg WorkspaceCursor.lastAckRevision cursor, grow⟩
    rw [cursor]
  | start rows => exact ⟨le_rfl, rfl, .refl _⟩
  | finishing stored => exact ⟨le_rfl, rfl, .refl _⟩
  | accept grow => exact ⟨le_rfl, rfl, grow⟩

end AckStore.Forward

structure CursorProgress {F : Type} (calls : List (Call F)) (before after : AckStore) : Prop where
  applied : before.cursor.lastAppliedRevision ≤ after.cursor.lastAppliedRevision
  receipts : Receipts.Grow before.receipts after.receipts
  acked : after.cursor.lastAckRevision = before.cursor.lastAckRevision ∨
    ∃ message, Call.ackConfirmed message ∈ calls ∧ after.cursor.lastAckRevision = message.revision ∧
      before.cursor.lastAckRevision < message.revision ∧ message.revision ≤ after.cursor.lastAppliedRevision

section

variable {F : Type}

theorem AckStore.Forward.progress {before after : AckStore} (h : before.Forward after) (calls : List (Call F)) :
    CursorProgress calls before after := ⟨h.applied, h.receipts, .inl h.acked⟩

theorem CursorProgress.confirm {view view' : AckView} {message : WorkspaceAckRequest}
    (h : Confirm view message.revision view') :
    CursorProgress [Call.ackConfirmed (F := F) message] view.store view'.store := by
  cases h with
  | nothing => exact (AckStore.Forward.refl _).progress _
  | segment idle segment acked applied =>
    exact ⟨le_rfl, .refl _, .inr ⟨message, List.mem_singleton_self _, rfl, acked, applied⟩⟩
  | partly waiting below acked applied =>
    exact ⟨le_rfl, .refl _, .inr ⟨message, List.mem_singleton_self _, rfl, acked, applied⟩⟩
  | pending waiting acked applied =>
    exact ⟨le_rfl, .refl _, .inr ⟨message, List.mem_singleton_self _, rfl, acked, applied⟩⟩

variable [Filesystem F] [Env]

theorem Engine.progress_after (engine : Engine F) (call : Call F) :
    CursorProgress [call] engine.db.ack (engine.after call).db.ack := by
  obtain ⟨view, hdeliver, hmoves⟩ | ⟨message, rfl, hconfirm⟩ := engine.effect_after call
  · exact ((AckStore.Forward.deliver hdeliver).trans (.moves hmoves)).progress _
  · exact .confirm hconfirm

omit [Filesystem F] [Env] in
theorem CursorProgress.trans {a b c : AckStore} {first rest : List (Call F)} (hab : CursorProgress first a b)
    (hbc : CursorProgress rest b c) : CursorProgress (first ++ rest) a c := by
  refine ⟨hab.applied.trans hbc.applied, hab.receipts.trans hbc.receipts, ?_⟩
  obtain hsame | ⟨message, hmem, hrevision, hacked, happlied⟩ := hbc.acked
  · rw [hsame]
    obtain hsame | ⟨message, hmem, hrevision, hacked, happlied⟩ := hab.acked
    · exact .inl hsame
    · exact .inr ⟨message, List.mem_append_left _ hmem, hrevision, hacked, happlied.trans hbc.applied⟩
  · refine .inr ⟨message, List.mem_append_right _ hmem, hrevision, ?_, happlied⟩
    obtain hsame | ⟨_, -, hmiddle, hbefore, -⟩ := hab.acked
    · exact hsame ▸ hacked
    · exact (hbefore.trans_eq hmiddle.symm).trans hacked

/-- Whatever is called, in whatever order and with whatever result, the cursor only goes forward, receipts stay, and a new
acknowledged revision is one that was confirmed and is applied. -/
theorem acked_when_confirmed (calls : List (Call F)) (engine : Engine F) :
    CursorProgress calls engine.db.ack (calls.foldl Engine.after engine).db.ack := by
  induction calls generalizing engine with
  | nil => exact (AckStore.Forward.refl _).progress _
  | cons call calls ih => exact (engine.progress_after call).trans (ih _)

end

end Lumio.Sync
