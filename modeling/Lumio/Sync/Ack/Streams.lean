import Lumio.Sync.Ack.Cursor
import Lumio.Sync.Ack.Progress

/-!
# The stored stream between its begin and its acknowledgement

While no live event is queued, a call that neither begins nor ends a stream leaves the stored one alone, but for a
stream that has ended: it asks for its acknowledgement, or is dropped as acknowledged already.
-/

namespace Lumio.Sync

open Lumio.Protocol Lumio.Fs Prog

theorem final_of_move {before after : AckView} (hmove : Move before after) (hidle : before.store.final = none) :
    after.store.final = none := by
  cases hmove with
  | liveEvent missing applied grow processed => exact hidle
  | liveResolution applied grow processed => exact hidle
  | raise raised grow processed => exact hidle
  | pop processed => exact hidle
  | row pos row => exact row.final.trans hidle
  | finish applied needsAck => cases hidle
  | drop applied acked => rfl
  | segment idle => cases hidle

theorem final_of_moves {before after : AckView} (hmoves : Relation.ReflTransGen Move before after)
    (hidle : before.store.final = none) : after.store.final = none := by
  induction hmoves with
  | refl => exact hidle
  | tail _ hmove ih => exact final_of_move hmove ih

/-- The stored stream while no live event is queued and an outstanding acknowledgement can be confirmed. -/
structure AckView.Streams (view : AckView) (final : StreamFinal) : Prop where
  final : view.store.final = some final
  queue : view.queue = []
  ordered : view.store.cursor.Ordered

/-- The stream stays, and at most asks for its acknowledgement, or it has ended and is dropped as acknowledged. -/
inductive AckView.Carried (before : AckView) (final : StreamFinal) (after : AckView) : Prop where
  | kept (streams : after.Streams final)
      (pending : after.store.cursor.pendingAckRevision = before.store.cursor.pendingAckRevision ∨
        after.store.cursor.pendingAckRevision = some final.revision)
  | dropped (idle : after.store.final = none) (received : final.received = true)
      (acked : final.revision ≤ after.store.cursor.lastAckRevision)

theorem AckView.Streams.move {before after : AckView} {final : StreamFinal} (h : before.Streams final)
    (hmove : Move before after) : before.Carried final after := by
  have hordered : after.store.cursor.Ordered := by
    have hview : CursorView before := ⟨h.ordered, by simp [h.queue]⟩
    exact (hview.move hmove).ordered
  cases hmove with
  | liveEvent missing applied grow processed => cases h.queue
  | liveResolution applied grow processed => cases h.queue
  | raise raised grow processed => cases h.queue
  | pop processed => cases h.queue
  | row pos row =>
    have hpending := congrArg WorkspaceCursor.pendingAckRevision row.cursor
    exact .kept ⟨row.final.trans h.final, h.queue, hordered⟩ (.inl hpending)
  | finish applied needsAck =>
    cases h.final
    exact .kept ⟨rfl, h.queue, hordered⟩ (.inr rfl)
  | drop applied acked =>
    cases h.final
    exact .dropped rfl rfl acked
  | segment idle => exact .kept ⟨h.final, h.queue, hordered⟩ (.inl rfl)

theorem AckView.Streams.moves {before after : AckView} {final : StreamFinal} (h : before.Streams final)
    (hmoves : Relation.ReflTransGen Move before after) : before.Carried final after := by
  induction hmoves with
  | refl => exact .kept h (.inl rfl)
  | tail _ hmove ih =>
    cases ih with
    | kept streams pending =>
      cases streams.move hmove with
      | kept streams' pending' => exact .kept streams' (pending'.elim (fun hsame => hsame ▸ pending) .inr)
      | dropped idle received acked => exact .dropped idle received acked
    | dropped idle received acked =>
      exact .dropped (final_of_move hmove idle) received (acked.trans_eq (AckStore.Forward.move hmove).acked.symm)

section

variable {F : Type} [Filesystem F] [Env]

omit [Filesystem F] [Env] in
theorem stream_eq_none_iff {engine : Engine F} : engine.db.stream = none ↔ engine.ack.store.final = none := by
  simp [Engine.ack, Db.ack]

/-- What a call leaves of the stored stream that neither begins nor ends one. -/
structure Carries (before after : AckView) : Prop where
  idle : before.store.final = none → after.store.final = none
  acked : after.store.cursor.lastAckRevision = before.store.cursor.lastAckRevision
  streams : ∀ final, before.Streams final → before.Carried final after

omit [Env] in
theorem Carries.of_eq {before after : AckView} (h : after = before) : Carries before after := by
  subst h
  exact ⟨fun hidle => hidle, rfl, fun _ hstreams => .kept hstreams (.inl rfl)⟩

/-- The calls that neither begin nor end a stream and confirm nothing. A live event is no call for a stored one. -/
def Handles (engine : Engine F) : Call F → Prop
  | .snapshotBegin _ | .snapshotEnd _ | .ackConfirmed _ => False
  | .event _ => engine.db.stream = none
  | _ => True

omit [Filesystem F] in
theorem AckView.Streams.delivered {s t : Engine F} {call : Call F} {final : StreamFinal} (h : s.ack.Streams final)
    (hdelivered : Delivered s call t) (hcall : Handles s call) : s.ack.Carried final t.ack := by
  obtain ⟨view, hdeliver, hmoves⟩ := hdelivered
  have hsame : view.Streams final → view.store.cursor.pendingAckRevision = s.ack.store.cursor.pendingAckRevision →
      s.ack.Carried final t.ack := by
    intro hview hpending
    cases hview.moves hmoves with
    | kept streams pending => exact .kept streams (hpending ▸ pending)
    | dropped idle received acked => exact .dropped idle received acked
  have hstored : s.ack.store.final ≠ none := by simp [h.final]
  cases hdeliver with
  | nothing => exact hsame h rfl
  | queueEvent order => exact absurd (stream_eq_none_iff.mp hcall) hstored
  | replayEvent raised ahead => exact absurd (stream_eq_none_iff.mp hcall) hstored
  | queueResolution idle order fresh => exact absurd idle hstored
  | replayResolution idle raised ahead => exact absurd idle hstored
  | @stage _ after cursor hfinal grow stored new =>
    have hordered : after.cursor.Ordered := cursor ▸ h.ordered
    exact hsame ⟨hfinal.trans h.final, h.queue, hordered⟩ (congrArg WorkspaceCursor.pendingAckRevision cursor)
  | start rows => exact hcall.elim
  | finishing stored => exact hcall.elim
  | accept grow => exact hsame ⟨h.final, h.queue, h.ordered⟩ rfl

omit [Filesystem F] in
theorem Carries.of_delivered {s t : Engine F} {call : Call F} (h : Delivered s call t) (hcall : Handles s call) :
    Carries s.ack t.ack := by
  refine ⟨fun hidle => ?_, ?_, fun final hstreams => hstreams.delivered h hcall⟩
  · obtain ⟨view, hdeliver, hmoves⟩ := h
    refine final_of_moves hmoves ?_
    cases hdeliver with
    | nothing => exact hidle
    | queueEvent order => exact hidle
    | replayEvent raised ahead => exact raised.2.1.trans hidle
    | queueResolution idle order fresh => exact hidle
    | replayResolution idle raised ahead => exact raised.2.1.trans hidle
    | stage cursor final grow stored new => exact absurd hidle stored
    | start rows => exact hcall.elim
    | finishing stored => exact hcall.elim
    | accept grow => exact hidle
  · obtain ⟨view, hdeliver, hmoves⟩ := h
    exact ((AckStore.Forward.deliver hdeliver).trans (.moves hmoves)).acked

/-- Programs of the engine that leave of the stored stream what such calls do. -/
def CarriesM {α : Type} (m : EngineM F α) (s : Engine F) : Prop :=
  wp m (fun _ t => Carries s.ack t.ack) (fun _ t => Carries s.ack t.ack) s

omit [Filesystem F] in
theorem Carries.of_effect {s t : Engine F} {call : Call F} (h : s.Effect call t) (hcall : Handles s call) :
    Carries s.ack t.ack := by
  rcases h with hdelivered | ⟨message, rfl, -⟩
  · exact .of_delivered hdelivered hcall
  · exact hcall.elim

theorem CarriesM.run {s : Engine F} (call : Call F) (hcall : Handles s call) : CarriesM call.run s :=
  wp_mono (Call.run_wp s call) (fun _ _ h => .of_effect h hcall) (fun _ _ h => .of_effect h hcall)

omit [Filesystem F] [Env] in
theorem CarriesM.of_ack {α : Type} {m : EngineM F α} (h : Keeps Engine.ack m) (s : Engine F) : CarriesM m s :=
  wp_mono (h s) (fun _ _ => .of_eq) (fun _ _ => .of_eq)

/-! ## The begin and the acknowledgement -/

omit [Filesystem F] in
theorem snapshotBegin_streams {s : Engine F} (message : WorkspaceSnapshotBeginMessage) (hordered : s.db.cursor.Ordered)
    (hagain : ∀ active ∈ s.db.stream, active.streamId = message.streamId →
      active.endReceived = false ∧ s.pendingLiveEvents = []) :
    wp (snapshotBegin message) (fun _ t => t.ack.Streams ⟨message.finalRevision, false⟩) (fun _ _ => True) s := by
  unfold snapshotBegin
  refine wp_validated ?_ (fun _ => trivial)
  rw [wp_bind, wp_get]
  dsimp only
  rw [wp_bind]
  refine wp_transaction_of ?_ (fun _ => trivial)
  unfold beginStream
  split
  · trivial
  split
  · trivial
  rw [wp_bind, wp_get]
  split
  · rename_i existing hexisting
    split
    · rename_i hid
      split
      · rename_i hmatches
        obtain ⟨hended, hqueue⟩ := hagain existing hexisting hid
        have hfinal : existing.finalRevision = message.finalRevision := by
          simp only [streamBeginMatches, Bool.and_eq_true, decide_eq_true_eq] at hmatches
          exact hmatches.1.1.1.2
        rw [wp_pure, wp_onlyIf]
        refine ⟨fun hnew => ?_, fun _ => ⟨?_, by simp [Engine.ack, hqueue], hordered⟩⟩
        · simp [hexisting, hid] at hnew
        · simp [Engine.ack, Db.ack, hexisting, hended, hfinal]
      · trivial
    rename_i hid
    split
    · trivial
    split
    · trivial
    simp only [clearStream, wp_bind, wp_modify, wp_onlyIf]
    refine ⟨fun _ => ⟨rfl, rfl, hordered⟩, fun hold => ?_⟩
    simp [hexisting, hid] at hold
  · rename_i hidle
    rw [wp_set, wp_onlyIf]
    refine ⟨fun _ => ⟨rfl, rfl, hordered⟩, fun hold => ?_⟩
    simp [hidle] at hold

section

omit [Env]

theorem Confirm.idle {view view' : AckView} {revision : WorkspaceRevision} (h : Confirm view revision view')
    (hidle : view.store.final = none) : view'.store.final = none := by
  cases h with
  | nothing => exact hidle
  | segment idle segment acked applied => exact hidle
  | partly waiting below acked applied => exact hidle
  | pending waiting acked applied => rfl

theorem Confirm.acked {view view' : AckView} {revision : WorkspaceRevision} (h : Confirm view revision view') :
    view.store.cursor.lastAckRevision ≤ view'.store.cursor.lastAckRevision := by
  cases h with
  | nothing => exact le_rfl
  | segment idle segment acked applied => exact Nat.le_of_lt acked
  | partly waiting below acked applied => exact Nat.le_of_lt acked
  | pending waiting acked applied => exact Nat.le_of_lt acked

theorem AckView.Streams.confirm {view view' : AckView} {final : StreamFinal} {revision : WorkspaceRevision}
    (h : view.Streams final) (hconfirm : Confirm view revision view') :
    (view'.Streams final ∧ view'.store.cursor.pendingAckRevision = view.store.cursor.pendingAckRevision) ∨
      view'.store.final = none ∧ view.store.cursor.pendingAckRevision = some revision := by
  have hordered := h.ordered.confirm hconfirm
  cases hconfirm with
  | nothing => exact .inl ⟨h, rfl⟩
  | segment idle segment acked applied => exact .inl ⟨⟨h.final, h.queue, hordered⟩, rfl⟩
  | partly waiting below acked applied => exact .inl ⟨⟨h.final, h.queue, hordered⟩, rfl⟩
  | pending waiting acked applied => exact .inr ⟨rfl, waiting⟩

end

end

end Lumio.Sync
