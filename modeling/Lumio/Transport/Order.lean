import Lumio.Sync.Ack.Streams
import Lumio.Transport.Session

/-!
# The order of live messages

Live messages reach the engine in the order of their arrival as long as none of them is handed over directly
while earlier ones are deferred. A deferred message never waits for nothing as long as a stored stream is cleared
by its own acknowledgement only: it is released, or a stream or its acknowledgement is still to come.
-/

namespace Lumio.Transport

open Lumio.Protocol Lumio.Fs Lumio.Sync Prog

section

variable {F : Type} [Filesystem F] [Env]

theorem CarriesM.handOver {s : Engine F} {message : DeferredLiveMessage}
    (hmode : s.db.activeStreamMode = some .snapshot → ∀ event, message ≠ .event event) :
    CarriesM (handOver message) s := by
  cases message with
  | event message =>
    unfold CarriesM
    simp only [Transport.handOver, processWorkspaceEvent, wp_bind, wp_get]
    split
    · exact CarriesM.run (.workspaceEvent message) trivial
    · rename_i hsnapshot
      exact absurd rfl (hmode hsnapshot message)
    · rename_i hnone
      exact CarriesM.run (.event message) (by simpa [Handles, Db.activeStreamMode] using hnone)
  | conflictCreated message => exact CarriesM.run (.conflictCreated message) trivial
  | conflictResolved message => exact CarriesM.run (.conflictResolved message) trivial

/-! ## What a deferred message waits for -/

/-- The awaited acknowledgement and the stored stream in each phase: a stream is stored until its end has been
received and its acknowledgement is confirmed, or until it is dropped as acknowledged already. -/
def SessionPhase.Placed (final : Option StreamFinal) (cursor : WorkspaceCursor) (awaited : Option WorkspaceRevision) :
    SessionPhase → Prop
  | .awaitingSubscribe => True
  | .streaming ⟨begin_, false⟩ => final = some ⟨begin_.finalRevision, false⟩ ∨ final = none ∧ awaited = none
  | .streaming ⟨begin_, true⟩ =>
    final = some ⟨begin_.finalRevision, true⟩ ∧ awaited = some begin_.finalRevision ∨
      final = none ∧ (awaited = none ∨
        awaited = some begin_.finalRevision ∧ begin_.finalRevision ≤ cursor.lastAckRevision)
  | .online =>
    (∃ revision, final = some ⟨revision, true⟩ ∧ awaited = some revision ∧
      cursor.pendingAckRevision = some revision) ∨ final = none ∧ awaited = none

/-- The next drain tick hands deferred messages over: they are released, or the stream has been acknowledged. -/
def Session.Released (session : Session F) : Prop :=
  session.deferredEventsReady = true ∨ ∃ begin_, session.phase = .streaming ⟨begin_, true⟩ ∧
    session.engine.db.stream = none ∧ begin_.finalRevision ≤ session.engine.db.cursor.lastAckRevision

structure Session.Sound (session : Session F) : Prop where
  placed : session.phase.Placed session.engine.ack.store.final session.engine.ack.store.cursor
    session.deferredUntilAckRevision
  ready : session.deferredEventsReady = true → session.engine.ack.store.final = none
  quiet : session.phase ≠ .awaitingSubscribe → ∀ final, session.engine.ack.store.final = some final →
    session.engine.ack.Streams final
  waiting : session.deferredEvents ≠ [] → session.Released ∨ session.phase = .awaitingSubscribe ∨
    session.engine.ack.store.final ≠ none ∨ session.deferredUntilAckRevision.isSome

variable {s : Session F} (limits : SessionLimits) (items : Nat)

section

omit [Filesystem F] [Env]

theorem SessionPhase.Placed.carried {phase : SessionPhase} {before after : AckView} {awaited : Option WorkspaceRevision}
    (h : phase.Placed before.store.final before.store.cursor awaited) (hcarries : Carries before after)
    (hquiet : phase ≠ .awaitingSubscribe → ∀ final, before.store.final = some final → before.Streams final) :
    phase.Placed after.store.final after.store.cursor awaited ∧
      (phase = .awaitingSubscribe ∨ after.store.final ≠ none ∨ awaited.isSome ∨ before.store.final = none) := by
  cases phase with
  | awaitingSubscribe => exact ⟨trivial, .inl rfl⟩
  | online =>
    rcases h with ⟨revision, hfinal, hawaited, hpending⟩ | ⟨hidle, hawaited⟩
    · have hstreams := hquiet (by simp) _ hfinal
      cases hcarries.streams _ hstreams with
      | kept streams pending =>
        have hpending' : after.store.cursor.pendingAckRevision = some revision :=
          pending.elim (fun hsame => hsame.trans hpending) fun hsome => hsome
        exact ⟨.inl ⟨revision, streams.final, hawaited, hpending'⟩, .inr (.inl (by simp [streams.final]))⟩
      | dropped idle received acked =>
        -- the acknowledgement that is outstanding is past the acknowledged revision
        have hlt := (hstreams.ordered.pending revision hpending).1
        rw [hcarries.acked] at acked
        exact absurd hlt (Nat.not_lt.mpr acked)
    · exact ⟨.inr ⟨hcarries.idle hidle, hawaited⟩, .inr (.inr (.inr hidle))⟩
  | streaming stream =>
    obtain ⟨begin_, ended⟩ := stream
    cases ended with
    | false =>
      rcases h with hfinal | ⟨hidle, hawaited⟩
      · cases hcarries.streams _ (hquiet (by simp) _ hfinal) with
        | kept streams pending => exact ⟨.inl streams.final, .inr (.inl (by simp [streams.final]))⟩
        | dropped idle received acked => cases received
      · exact ⟨.inr ⟨hcarries.idle hidle, hawaited⟩, .inr (.inr (.inr hidle))⟩
    | true =>
      rcases h with ⟨hfinal, hawaited⟩ | ⟨hidle, hawaited⟩
      · have hsome : awaited.isSome := by simp [hawaited]
        cases hcarries.streams _ (hquiet (by simp) _ hfinal) with
        | kept streams pending => exact ⟨.inl ⟨streams.final, hawaited⟩, .inr (.inr (.inl hsome))⟩
        | dropped idle received acked => exact ⟨.inr ⟨idle, .inr ⟨hawaited, acked⟩⟩, .inr (.inr (.inl hsome))⟩
      · refine ⟨.inr ⟨hcarries.idle hidle, hawaited.imp_right fun h => ⟨h.1, ?_⟩⟩, .inr (.inr (.inr hidle))⟩
        rw [hcarries.acked]
        exact h.2

theorem Session.Released.engine {engine : Engine F} (h : s.Released) (hcarries : Carries s.engine.ack engine.ack) :
    ({ s with engine } : Session F).Released := by
  rcases h with hready | ⟨begin_, hphase, hidle, hacked⟩
  · exact .inl hready
  · refine .inr ⟨begin_, hphase, stream_eq_none_iff.mpr (hcarries.idle (stream_eq_none_iff.mp hidle)), ?_⟩
    exact hacked.trans_eq hcarries.acked.symm

theorem Session.Sound.engine {engine : Engine F} (h : s.Sound) (hcarries : Carries s.engine.ack engine.ack) :
    ({ s with engine } : Session F).Sound := by
  obtain ⟨hplaced, hstays⟩ := h.placed.carried hcarries h.quiet
  refine ⟨hplaced, fun hready => hcarries.idle (h.ready hready), fun hphase final hfinal => ?_, fun hne => ?_⟩
  · cases hbefore : s.engine.ack.store.final with
    | none =>
      rw [show (({ s with engine } : Session F).engine.ack.store.final) = none from hcarries.idle hbefore] at hfinal
      cases hfinal
    | some before =>
      cases hcarries.streams _ (h.quiet hphase _ hbefore) with
      | kept streams pending =>
        cases streams.final.symm.trans hfinal
        exact streams
      | dropped idle received acked => cases idle.symm.trans hfinal
  · rcases h.waiting hne with hreleased | hphase | hstored | hawaited
    · exact .inl (hreleased.engine hcarries)
    · exact .inr (.inl hphase)
    · rcases hstays with hphase | hstored' | hawaited | hidle
      · exact .inr (.inl hphase)
      · exact .inr (.inr (.inl hstored'))
      · exact .inr (.inr (.inr hawaited))
      · exact absurd hidle hstored
    · exact .inr (.inr (.inr hawaited))

theorem wp_engineCall {α : Type} {m : EngineM F α} {Q : α → Session F → Prop} {E : TransportError → Session F → Prop} :
    wp (engineCall m) Q E s ↔
      wp m (fun a engine => Q a { s with engine }) (fun e engine => E (.engine e) { s with engine }) s.engine := by
  simp only [wp, engineCall]
  cases m s.engine <;> rfl

end

/-- A program that hands over the messages it returns, after what was deferred has been extended. -/
def Hands (new : List DeferredLiveMessage) (m : SessionM F (List DeferredLiveMessage)) (s : Session F) : Prop :=
  wp m (fun handed t => t.Sound ∧ handed ++ t.deferredEvents = s.deferredEvents ++ new) (fun _ _ => True) s

def Leaves {α : Type} (m : SessionM F α) (s : Session F) : Prop :=
  wp m (fun _ t => t.Sound ∧ t.deferredEvents = s.deferredEvents) (fun _ _ => True) s

section

omit [Filesystem F] [Env]

theorem Leaves.engineCall {α : Type} {m : EngineM F α} (hm : CarriesM m s.engine) (h : s.Sound) :
    Leaves (engineCall m) s := by
  unfold Leaves
  rw [wp_engineCall]
  exact wp_mono hm (fun _ _ hcarries => ⟨h.engine hcarries, rfl⟩) (fun _ _ _ => trivial)

theorem Leaves.hands {α : Type} {m : SessionM F α} (h : Leaves m s) : Hands [] (do let _ ← m; pure []) s := by
  unfold Hands
  exact wp_seq_any h fun _ t ht => ⟨ht.1, by simp [ht.2]⟩

theorem completed_eq_some {db : Db} {revision : WorkspaceRevision} (h : db.completedStreamAckRevision = some revision) :
    db.ack.final = some ⟨revision, true⟩ ∧ db.cursor.pendingAckRevision = some revision := by
  unfold Db.completedStreamAckRevision at h
  split at h
  · cases h
  rename_i active hactive
  split at h
  · rename_i hcomplete
    cases h
    simp only [Bool.and_eq_true, decide_eq_true_eq] at hcomplete
    exact ⟨by simp [Db.ack, hactive, hcomplete.1.1.1.1], hcomplete.2⟩
  · cases h

theorem refreshStreamCompletion_leaves (h : s.Sound) : Leaves refreshStreamCompletion s := by
  unfold Leaves refreshStreamCompletion
  rw [wp_bind, wp_get]
  split
  · rename_i begin_ hphase
    have hcheck : Keeps (fun engine : Engine F => engine) ensureOpen := ensureOpen_keeps
    rw [wp_bind, wp_engineCall]
    refine wp_mono (hcheck s.engine) (fun _ engine hengine => ?_) (fun _ _ _ => trivial)
    have hsame : ({ s with engine } : Session F) = s := by rw [show engine = s.engine from hengine]
    dsimp only
    rw [hsame]
    have hplaced := h.placed
    rw [hphase] at hplaced
    have hquiet := h.quiet (by simp [hphase])
    split
    · rename_i hcompleted
      rw [wp_set]
      obtain ⟨hfinal, hpending⟩ := completed_eq_some hcompleted
      have hfinal : s.engine.ack.store.final = some ⟨begin_.finalRevision, true⟩ := hfinal
      rcases hplaced with ⟨-, hawaited⟩ | ⟨hidle, -⟩
      · exact ⟨⟨.inl ⟨_, hfinal, hawaited, hpending⟩, h.ready, fun _ => hquiet,
          fun _ => .inr (.inr (.inl (by simp [hfinal])))⟩, rfl⟩
      · cases hidle.symm.trans hfinal
    split
    · rename_i hacked
      rw [wp_set]
      have hidle : s.engine.ack.store.final = none :=
        stream_eq_none_iff.mp (by simpa [Db.activeStreamMode] using hacked.2)
      refine ⟨⟨.inr ⟨hidle, ?_⟩, fun _ => hidle, fun _ => hquiet, fun hne => .inl (.inl (by simpa using hne))⟩, rfl⟩
      rcases hplaced with ⟨hfinal, -⟩ | ⟨-, hawaited⟩
      · cases hidle.symm.trans hfinal
      · split
        · rfl
        · rename_i hother
          exact hawaited.resolve_right fun h => hother h.1
    · exact ⟨h, rfl⟩
  · exact ⟨h, rfl⟩

theorem activeStreamMode_of_idle {engine : Engine F} (h : engine.ack.store.final = none) :
    engine.db.activeStreamMode = none := by
  simp [Db.activeStreamMode, stream_eq_none_iff.mpr h]

theorem final_of_stream {engine : Engine F} {active : Sync.StreamState} (h : engine.db.stream = some active) :
    engine.ack.store.final = some ⟨active.finalRevision, active.endReceived⟩ := by
  simp [Engine.ack, Db.ack, h]

end

/-- The end leaves the stored stream as ended, and the work after it may drop it. -/
theorem snapshotEnd_leaves (message : WorkspaceSnapshotEndMessage) (h : s.Sound) (hphase : s.phase ≠ .awaitingSubscribe) :
    wp (snapshotEnd message) (fun _ engine => ∃ active, s.engine.db.stream = some active ∧
        message.finalRevision = active.finalRevision ∧
        AckView.Carried ⟨{ s.engine.ack.store with final := some ⟨active.finalRevision, true⟩ }, s.engine.ack.queue⟩
          ⟨active.finalRevision, true⟩ engine.ack ∧
        engine.ack.store.cursor.lastAckRevision = s.engine.ack.store.cursor.lastAckRevision)
      (fun _ _ => True) s.engine := by
  refine wp_mono (snapshotEnd_ends s.engine message) (fun _ engine hend => ?_) (fun _ _ _ => trivial)
  obtain ⟨active, hactive, hfinal, hmoves⟩ := hend
  have hstreams := h.quiet hphase _ (final_of_stream hactive)
  have hended : AckView.Streams
      ⟨{ s.engine.ack.store with final := some ⟨active.finalRevision, true⟩ }, s.engine.ack.queue⟩
      ⟨active.finalRevision, true⟩ := ⟨rfl, hstreams.queue, hstreams.ordered⟩
  exact ⟨active, hactive, hfinal, hended.moves hmoves, (AckStore.Forward.moves hmoves).acked⟩

omit [Filesystem F] [Env] in
/-- The session after the end of the stored stream. -/
theorem Session.Sound.ended {engine : Engine F} {stream : StreamState} {active : Sync.StreamState} (h : s.Sound)
    (hphase : s.phase = .streaming stream) (hactive : s.engine.db.stream = some active)
    (hcarried : AckView.Carried
      ⟨{ s.engine.ack.store with final := some ⟨active.finalRevision, true⟩ }, s.engine.ack.queue⟩
      ⟨active.finalRevision, true⟩ engine.ack) :
    ({ s with
      engine
      phase := .streaming { stream with endReceived := true }
      deferredUntilAckRevision := engine.db.activeStreamMode.map fun _ => active.finalRevision } : Session F).Sound := by
  have hstored := final_of_stream hactive
  have hfinal : active.finalRevision = stream.begin_.finalRevision := by
    have hplaced := h.placed
    obtain ⟨begin_, ended⟩ := stream
    rw [hphase, hstored] at hplaced
    cases ended with
    | false =>
      rcases hplaced with hfinal | ⟨hidle, -⟩
      · exact congrArg StreamFinal.revision (Option.some.inj hfinal)
      · cases hidle
    | true =>
      rcases hplaced with ⟨hfinal, -⟩ | ⟨hidle, -⟩
      · exact congrArg StreamFinal.revision (Option.some.inj hfinal)
      · cases hidle
  have hready : ¬ s.deferredEventsReady = true := fun hready => by cases hstored.symm.trans (h.ready hready)
  cases hcarried with
  | kept streams pending =>
    have hmode : (engine.db.activeStreamMode.map fun _ => active.finalRevision) = some active.finalRevision := by
      cases hstream : engine.db.stream with
      | none => cases streams.final.symm.trans (stream_eq_none_iff.mp hstream)
      | some after => simp [Db.activeStreamMode, hstream]
    rw [hmode]
    refine ⟨.inl ⟨?_, congrArg some hfinal⟩, fun h => absurd h hready, fun _ final hother => ?_,
      fun _ => .inr (.inr (.inr rfl))⟩
    · rw [← hfinal]
      exact streams.final
    · cases streams.final.symm.trans hother
      exact streams
  | dropped idle received acked =>
    have hstream := stream_eq_none_iff.mpr idle
    rw [activeStreamMode_of_idle idle]
    refine ⟨.inr ⟨idle, .inl rfl⟩, fun h => absurd h hready, fun _ final hother => ?_, fun _ => .inl (.inr ?_)⟩
    · cases idle.symm.trans hother
    · exact ⟨stream.begin_, rfl, hstream, hfinal ▸ acked⟩

theorem handleSnapshotEnd_leaves (message : WorkspaceSnapshotEndMessage) (h : s.Sound) :
    Leaves (handleSnapshotEnd message) s := by
  unfold Leaves handleSnapshotEnd
  rw [wp_bind, wp_get]
  split
  · rename_i stream hphase
    rw [wp_bind, wp_engineCall]
    refine wp_mono (snapshotEnd_leaves message h (by simp [hphase])) (fun _ engine hend => ?_) (fun _ _ _ => trivial)
    obtain ⟨active, hactive, hfinal, hcarried, hacked⟩ := hend
    rw [wp_bind, wp_modify]
    have hended := h.ended hphase hactive hcarried
    rw [← hfinal] at hended
    exact refreshStreamCompletion_leaves hended
  · rename_i hphase
    split
    · rw [wp_bind, wp_engineCall]
      refine wp_mono (snapshotEnd_leaves message h (by simp [hphase])) (fun _ engine hend => ?_) (fun _ _ _ => trivial)
      obtain ⟨active, hactive, hfinal, hcarried, hacked⟩ := hend
      -- the end of the stored stream has been received before
      have hstored := final_of_stream hactive
      have hended : active.endReceived = true := by
        have hplaced := h.placed
        rw [hphase, hstored] at hplaced
        rcases hplaced with ⟨revision, hfinal, -⟩ | ⟨hidle, -⟩
        · exact congrArg StreamFinal.received (Option.some.inj hfinal)
        · cases hidle
      rw [hended] at hstored
      rw [← hstored] at hcarried
      refine ⟨h.engine ⟨fun hidle => absurd hidle (by simp [hstored]), hacked, fun final hstreams => ?_⟩, rfl⟩
      cases hstored.symm.trans hstreams.final
      exact hcarried
    · trivial
  · trivial

omit [Filesystem F] [Env] in
theorem SessionPhase.Placed.forward {phase : SessionPhase} {final : Option StreamFinal} {before after : WorkspaceCursor}
    {awaited : Option WorkspaceRevision} (h : phase.Placed final before awaited)
    (hpending : final ≠ none → after.pendingAckRevision = before.pendingAckRevision)
    (hacked : before.lastAckRevision ≤ after.lastAckRevision) : phase.Placed final after awaited := by
  cases phase with
  | awaitingSubscribe => trivial
  | online =>
    refine h.imp_left fun hstored => ?_
    obtain ⟨revision, hfinal, hawaited, hbefore⟩ := hstored
    exact ⟨revision, hfinal, hawaited, (hpending (by simp [hfinal])).trans hbefore⟩
  | streaming stream =>
    obtain ⟨begin_, ended⟩ := stream
    cases ended with
    | false => exact h
    | true => exact h.imp_right fun hidle => ⟨hidle.1, hidle.2.imp_right fun h => ⟨h.1, h.2.trans hacked⟩⟩

omit [Env] in
theorem SessionPhase.Placed.idle (phase : SessionPhase) (cursor : WorkspaceCursor) : phase.Placed none cursor none := by
  cases phase with
  | awaitingSubscribe => trivial
  | online => exact .inr ⟨rfl, rfl⟩
  | streaming stream =>
    obtain ⟨begin_, ended⟩ := stream
    cases ended with
    | false => exact .inr ⟨rfl, rfl⟩
    | true => exact .inr ⟨rfl, .inl rfl⟩

omit [Filesystem F] in
theorem handleAck_leaves (message : WorkspaceAckRequest) (h : s.Sound)
    (hallowed : s.engine.db.stream.isSome → s.engine.db.cursor.pendingAckRevision = some message.revision →
      s.phase = .awaitingSubscribe ∨ s.deferredUntilAckRevision = some message.revision) :
    Leaves (handleAck message) s := by
  unfold Leaves handleAck
  rw [wp_bind, wp_engineCall]
  refine wp_mono (ackConfirmed_wp s.engine message) (fun _ engine hconfirm => ?_) (fun _ _ _ => trivial)
  rw [wp_modify]
  split
  · rename_i hreleased
    have hidle : engine.ack.store.final = none :=
      stream_eq_none_iff.mp (by simpa [Db.activeStreamMode] using hreleased.2)
    refine ⟨⟨?_, fun _ => hidle, fun _ final hfinal => ?_, fun hne => .inl (.inl (by simpa using hne))⟩, rfl⟩
    · simp only [hidle]
      exact .idle _ _
    · cases hidle.symm.trans hfinal
  rename_i hkept
  refine ⟨?_, rfl⟩
  by_cases hphase : s.phase = .awaitingSubscribe
  · refine ⟨by simp only [hphase]; trivial, fun hready => hconfirm.idle (h.ready hready), fun hne => absurd hphase hne,
      fun _ => .inr (.inl hphase)⟩
  cases hfinal : s.engine.ack.store.final with
  | none =>
    have hidle := hconfirm.idle hfinal
    have hplaced := h.placed
    rw [hfinal] at hplaced
    refine ⟨?_, fun _ => hidle, fun _ final hother => ?_, fun hne => ?_⟩
    · simp only [hidle]
      exact hplaced.forward (fun hne => absurd rfl hne) hconfirm.acked
    · cases hidle.symm.trans hother
    · rcases h.waiting hne with (hready | ⟨begin_, hbegin, -, hacked⟩) | hawaiting | hstored | hawaited
      · exact .inl (.inl hready)
      · exact .inl (.inr ⟨begin_, hbegin, stream_eq_none_iff.mpr hidle, hacked.trans hconfirm.acked⟩)
      · exact absurd hawaiting hphase
      · exact absurd hfinal hstored
      · exact .inr (.inr (.inr hawaited))
  | some final =>
    have hstreams := h.quiet hphase _ hfinal
    rcases hstreams.confirm hconfirm with ⟨hstreams', hpending⟩ | ⟨hidle, hpending⟩
    · have hplaced := h.placed
      rw [hfinal] at hplaced
      refine ⟨?_, fun hready => ?_, fun _ other hother => ?_, fun _ => .inr (.inr (.inl (by simp [hstreams'.final])))⟩
      · simp only [hstreams'.final]
        exact hplaced.forward (fun _ => hpending) hconfirm.acked
      · cases hfinal.symm.trans (h.ready hready)
      · cases hstreams'.final.symm.trans hother
        exact hstreams'
    · -- the stored stream is cleared, so it is the awaited acknowledgement
      have hstored : s.engine.db.stream.isSome := by
        rw [Option.isSome_iff_ne_none]
        intro hnone
        cases hfinal.symm.trans (stream_eq_none_iff.mp hnone)
      have hawaited := (hallowed hstored hpending).resolve_left hphase
      exact absurd ⟨hawaited, activeStreamMode_of_idle hidle⟩ hkept

omit [Filesystem F] in
theorem handleSnapshotBegin_leaves (message : WorkspaceSnapshotBeginMessage) (hready : s.deferredEventsReady = false)
    (hordered : s.engine.db.cursor.Ordered)
    (hagain : ∀ active ∈ s.engine.db.stream, active.streamId = message.streamId →
      active.endReceived = false ∧ s.engine.pendingLiveEvents = []) :
    Leaves (handleSnapshotBegin message) s := by
  unfold Leaves handleSnapshotBegin
  split
  · trivial
  · rw [wp_bind, wp_modify, wp_engineCall]
    refine wp_mono (snapshotBegin_streams message hordered hagain) (fun _ engine hstreams => ?_) (fun _ _ _ => trivial)
    refine ⟨⟨.inl hstreams.final, fun h => ?_, fun _ final hfinal => ?_,
      fun _ => .inr (.inr (.inl (by simp [hstreams.final])))⟩, rfl⟩
    · cases hready.symm.trans h
    · cases hstreams.final.symm.trans hfinal
      exact hstreams

/-! ## Handing over -/

/-- A live message that arrives while earlier ones are deferred is deferred too. A stream begins when no released
message is left and an outstanding acknowledgement can be confirmed, and not again when live events are queued or
its end has been received. And once it has begun, it is cleared by the acknowledgement that the session awaits. -/
def OrderAllowed (session : Session F) : SessionEvent F → Prop
  | .frame (.live message) => session.deferredEvents = [] ∨ session.defers message
  | .frame (.snapshotBegin message) =>
    session.deferredEventsReady = false ∧ session.engine.db.cursor.Ordered ∧
      ∀ active ∈ session.engine.db.stream, active.streamId = message.streamId →
        active.endReceived = false ∧ session.engine.pendingLiveEvents = []
  | .frame (.ack message) =>
    session.engine.db.stream.isSome → session.engine.db.cursor.pendingAckRevision = some message.revision →
      session.phase = .awaitingSubscribe ∨ session.deferredUntilAckRevision = some message.revision
  | _ => True

instance instDecidableOrdered (cursor : WorkspaceCursor) : Decidable cursor.Ordered :=
  decidable_of_iff (cursor.lastAckRevision ≤ cursor.lastAppliedRevision ∧
    ∀ revision ∈ cursor.pendingAckRevision, cursor.lastAckRevision < revision ∧ revision ≤ cursor.lastAppliedRevision)
    ⟨fun h => ⟨h.1, h.2⟩, fun h => ⟨h.acked, h.pending⟩⟩

instance instDecidableOrderAllowed (session : Session F) : (event : SessionEvent F) → Decidable (OrderAllowed session event)
  | .frame (.live message) => inferInstanceAs (Decidable (session.deferredEvents = [] ∨ session.defers message))
  | .frame (.snapshotBegin message) => inferInstanceAs (Decidable (session.deferredEventsReady = false ∧
      session.engine.db.cursor.Ordered ∧ ∀ active ∈ session.engine.db.stream, active.streamId = message.streamId →
        active.endReceived = false ∧ session.engine.pendingLiveEvents = []))
  | .frame (.ack message) => inferInstanceAs (Decidable (session.engine.db.stream.isSome →
      session.engine.db.cursor.pendingAckRevision = some message.revision →
        session.phase = .awaitingSubscribe ∨ session.deferredUntilAckRevision = some message.revision))
  | .frame (.snapshotEntry _) | .frame (.snapshotEnd _) | .frame (.mutationAccepted _) | .frame (.mutationRejected _)
  | .drain _ _ | .requestRefresh | .call _ _ => inferInstanceAs (Decidable True)

theorem handleLive_hands (message : DeferredLiveMessage) (h : s.Sound)
    (hallowed : s.deferredEvents = [] ∨ s.defers message) : Hands [message] (handleLive limits message) s := by
  unfold Hands handleLive
  rw [wp_bind, wp_get]
  split
  · rename_i hdefers
    simp only [deferLiveMessage, wp_bind, wp_get]
    split
    · trivial
    · rw [wp_set, wp_pure]
      refine ⟨⟨h.placed, h.ready, h.quiet, fun _ => ?_⟩, by simp⟩
      -- a message is deferred for an acknowledgement or for a stored snapshot
      cases hawaited : s.deferredUntilAckRevision with
      | some revision => exact .inr (.inr (.inr rfl))
      | none =>
        refine .inr (.inr (.inl fun hidle => ?_))
        have hmode : s.engine.db.activeStreamMode = none := activeStreamMode_of_idle hidle
        cases message <;> simp [Session.defers, hawaited, hmode] at hdefers
  · rename_i hdirect
    have hempty : s.deferredEvents = [] := hallowed.resolve_right (by simpa using hdirect)
    have hcarries : CarriesM (handOver message) s.engine := by
      refine CarriesM.handOver fun hsnapshot event hevent => hdirect ?_
      simp [Session.defers, hevent, hsnapshot]
    refine wp_seq_any (Leaves.engineCall hcarries h) fun _ t ht => ⟨ht.1, ?_⟩
    rw [ht.2, hempty]
    simp

theorem drainDeferred_hands : ∀ {s : Session F}, s.Sound → Hands [] (drainDeferred items) s := by
  induction items with
  | zero => exact fun h => ⟨h, by simp⟩
  | succ items ih =>
    intro s h
    unfold Hands drainDeferred
    rw [wp_bind, wp_get]
    split
    · exact ⟨h, by simp⟩
    rename_i hready
    have hready : s.deferredEventsReady = true := by simpa using hready
    split
    · rename_i hempty
      rw [wp_bind, wp_set, wp_pure]
      exact ⟨⟨h.placed, fun hready => absurd hready (by simp), h.quiet, fun hne => absurd hempty hne⟩, by simp⟩
    · rename_i message rest hqueue
      rw [wp_bind, wp_set, wp_bind]
      have hrest : ({ s with deferredEvents := rest } : Session F).Sound :=
        ⟨h.placed, h.ready, h.quiet, fun _ => .inl (.inl hready)⟩
      -- no stream is stored while messages are released
      have hcarries : CarriesM (handOver message) s.engine := by
        refine CarriesM.handOver fun hsnapshot => ?_
        cases (activeStreamMode_of_idle (h.ready hready)).symm.trans hsnapshot
      refine wp_mono (Leaves.engineCall hcarries hrest) (fun _ t ht => ?_) (fun _ _ _ => trivial)
      refine wp_seq_any (ih ht.1) fun later u hu => ⟨hu.1, ?_⟩
      have hlater : later ++ u.deferredEvents = rest := by simpa [ht.2] using hu.2
      simp [hlater, hqueue]

theorem drainOutbound_hands (fetchLimit : Nat) (h : s.Sound) : Hands [] (drainOutbound items fetchLimit) s := by
  unfold Hands drainOutbound
  rw [wp_bind, wp_get]
  split
  · rw [wp_bind, wp_set, wp_pure]
    exact ⟨⟨trivial, h.ready, fun hne => absurd rfl hne, fun _ => .inr (.inl rfl)⟩, by simp⟩
  · refine wp_seq_any (refreshStreamCompletion_leaves h) fun _ t ht => ?_
    refine wp_seq_any (drainDeferred_hands items ht.1) fun handed u hu => ?_
    have hhanded : handed ++ u.deferredEvents = s.deferredEvents := by simpa [ht.2] using hu.2
    rw [wp_bind, wp_onlyIf]
    constructor
    · intro _
      rw [wp_bind]
      have hpoll := Leaves.engineCall (CarriesM.run (.pendingCommands fetchLimit) trivial) hu.1
      refine wp_mono hpoll (fun _ v hv => ?_) (fun _ _ _ => trivial)
      refine wp_mono (refreshStreamCompletion_leaves hv.1) (fun _ w hw => ⟨hw.1, ?_⟩) (fun _ _ _ => trivial)
      rw [hw.2, hv.2, hhanded, List.append_nil]
    · exact fun _ => ⟨hu.1, by rw [hhanded, List.append_nil]⟩

theorem handleFrame_hands (frame : Frame) (h : s.Sound) (hallowed : OrderAllowed s (.frame frame)) :
    Hands (SessionEvent.frame (F := F) frame).arrives (handleFrame limits frame) s := by
  cases frame with
  | snapshotBegin message => exact (handleSnapshotBegin_leaves message hallowed.1 hallowed.2.1 hallowed.2.2).hands
  | snapshotEntry message => exact (Leaves.engineCall (CarriesM.run (.snapshotEntry message) trivial) h).hands
  | snapshotEnd message => exact (handleSnapshotEnd_leaves message h).hands
  | live message => exact handleLive_hands limits message h hallowed
  | mutationAccepted message =>
    exact (Leaves.engineCall (CarriesM.run (.mutationAccepted message) trivial) h).hands
  | mutationRejected message => exact (Leaves.engineCall (.of_ack (mutationRejected_ack message) _) h).hands
  | ack message => exact (handleAck_leaves message h hallowed).hands

theorem SessionEvent.run_hands (event : SessionEvent F) (h : s.Sound) (hallowed : OrderAllowed s event) :
    Hands event.arrives (event.run limits) s := by
  cases event with
  | frame frame => exact handleFrame_hands limits frame h hallowed
  | drain items fetchLimit => exact drainOutbound_hands items fetchLimit h
  | requestRefresh =>
    unfold Hands SessionEvent.run
    rw [wp_bind, wp_modify, wp_pure]
    exact ⟨⟨h.placed, h.ready, h.quiet, h.waiting⟩, by simp [SessionEvent.arrives]⟩
  | call call hcall =>
    unfold Hands SessionEvent.run
    rw [wp_bind, wp_modify, wp_pure]
    have hhandles : Handles s.engine call := by
      cases call <;> trivial
    exact ⟨h.engine (.of_effect (s.engine.effect_after call) hhandles), by simp [SessionEvent.arrives]⟩

/-! ## Released messages -/

theorem drainDeferred_takes : ∀ {s : Session F}, s.deferredEventsReady = true ∨ s.deferredEvents = [] →
    wp (drainDeferred items) (fun handed _ => handed = s.deferredEvents.take items) (fun _ _ => True) s := by
  induction items with
  | zero => exact fun _ => by simp [drainDeferred]
  | succ items ih =>
    intro s hready
    unfold drainDeferred
    rw [wp_bind, wp_get]
    split
    · rename_i hidle
      rcases hready with hready | hempty
      · simp [hready] at hidle
      · simp [hempty]
    rename_i hready
    split
    · rename_i hempty
      simp [hempty]
    · rename_i message rest hqueue
      rw [wp_bind, wp_set, wp_bind, wp_engineCall]
      refine wp_mono (Returns.any _ _) (fun _ engine _ => ?_) (fun _ _ _ => trivial)
      refine wp_seq_any (ih (.inl (by simpa using hready))) fun later t hlater => ?_
      rw [wp_pure, hlater, hqueue, List.take_succ_cons]

omit [Filesystem F] [Env] in
theorem refreshStreamCompletion_ready (hreleased : s.Released) :
    wp refreshStreamCompletion (fun _ t => t.deferredEvents = s.deferredEvents ∧
      (t.deferredEventsReady = true ∨ t.deferredEvents = [])) (fun _ _ => True) s := by
  unfold refreshStreamCompletion
  rw [wp_bind, wp_get]
  split
  · rename_i begin_ hphase
    have hcheck : Keeps (fun engine : Engine F => engine) ensureOpen := ensureOpen_keeps
    rw [wp_bind, wp_engineCall]
    refine wp_mono (hcheck s.engine) (fun _ engine hengine => ?_) (fun _ _ _ => trivial)
    have hsame : engine = s.engine := hengine
    subst hsame
    dsimp only
    split
    · rename_i hcompleted
      refine ⟨rfl, .inl ?_⟩
      rcases hreleased with hready | ⟨-, -, hidle, -⟩
      · exact hready
      · cases (completed_eq_some hcompleted).1.symm.trans (stream_eq_none_iff.mp hidle)
    split
    · refine ⟨rfl, ?_⟩
      cases hqueue : s.deferredEvents with
      | nil => exact .inr rfl
      | cons message rest => exact .inl rfl
    · rename_i hwaiting
      refine ⟨rfl, .inl ?_⟩
      rcases hreleased with hready | ⟨other, hother, hidle, hacked⟩
      · exact hready
      · cases hphase.symm.trans hother
        exact absurd ⟨hacked, activeStreamMode_of_idle (stream_eq_none_iff.mp hidle)⟩ hwaiting
  · rename_i hphase
    refine ⟨rfl, .inl ?_⟩
    rcases hreleased with hready | ⟨begin_, hbegin, -⟩
    · exact hready
    · exact absurd hbegin (hphase begin_)

theorem drainOutbound_takes (fetchLimit : Nat) (hreleased : s.Released) (hrefresh : s.refreshRequested = false) :
    wp (drainOutbound items fetchLimit) (fun handed _ => handed = s.deferredEvents.take items) (fun _ _ => True) s := by
  unfold drainOutbound
  rw [wp_bind, wp_get]
  simp only [hrefresh, Bool.false_eq_true, if_false]
  refine wp_seq_any (refreshStreamCompletion_ready hreleased) fun _ t ht => ?_
  refine wp_seq_any (drainDeferred_takes items ht.2) fun handed u hhanded => ?_
  rw [ht.1] at hhanded
  exact wp_seq_any (Returns.any _ u) fun _ _ _ => hhanded

omit [Filesystem F] in
theorem handleAck_releases {revision : WorkspaceRevision} (h : s.Sound) (hphase : s.phase = .online)
    (hawaited : s.deferredUntilAckRevision = some revision) (hopen : s.engine.closed = false) :
    ∃ t, handleAck ⟨Env.workspaceId, Env.clientId, revision⟩ s = .ok () t ∧
      t.deferredEventsReady = !s.deferredEvents.isEmpty := by
  have hplaced := h.placed
  rw [hphase] at hplaced
  rcases hplaced with ⟨stored, hfinal, hstored, hpending⟩ | ⟨-, hnone⟩
  · obtain rfl := Option.some.inj (hawaited.symm.trans hstored)
    have hordered := (h.quiet (by simp [hphase]) _ hfinal).ordered
    obtain ⟨engine, hconfirm, hcleared⟩ := ackConfirmed_of_ordered hordered hpending hopen
    have hwp : wp (handleAck (F := F) ⟨Env.workspaceId, Env.clientId, revision⟩)
        (fun _ t => t.deferredEventsReady = !s.deferredEvents.isEmpty) (fun _ _ => False) s := by
      unfold handleAck
      rw [wp_bind, wp_engineCall]
      have hmode : engine.db.activeStreamMode = none := by simp [Db.activeStreamMode, hcleared]
      have hconfirmed : wp (ackConfirmed ⟨Env.workspaceId, Env.clientId, revision⟩) (fun _ u => u = engine)
          (fun _ _ => False) s.engine := by
        unfold wp
        rw [hconfirm]
      refine wp_mono hconfirmed ?_ fun _ _ h => h
      rintro _ u rfl
      rw [wp_modify]
      simp [hawaited, hmode]
    obtain ⟨_, t, hok, hready⟩ := exists_ok_of_wp hwp
    exact ⟨t, hok, hready⟩
  · cases hawaited.symm.trans hnone

/-! ## Runs -/

/-- What a deferred message that is not released waits for. -/
inductive Session.Awaits (session : Session F) : Prop where
  /-- The answer to the subscription. -/
  | subscription (phase : session.phase = .awaitingSubscribe)
  /-- The end of the stored stream. -/
  | ending {begin_ : WorkspaceSnapshotBeginMessage} {active : Sync.StreamState}
      (phase : session.phase = .streaming ⟨begin_, false⟩) (stored : session.engine.db.stream = some active)
      (final : active.finalRevision = begin_.finalRevision) (running : active.endReceived = false)
  /-- The items of the stored stream that are missing, and then its acknowledgement. -/
  | items {begin_ : WorkspaceSnapshotBeginMessage} {active : Sync.StreamState}
      (phase : session.phase = .streaming ⟨begin_, true⟩) (stored : session.engine.db.stream = some active)
      (final : active.finalRevision = begin_.finalRevision) (ended : active.endReceived = true)
      (awaited : session.deferredUntilAckRevision = some active.finalRevision)
  /-- The acknowledgement of the stored stream, which is the outstanding one. -/
  | acknowledgement {active : Sync.StreamState} (phase : session.phase = .online)
      (stored : session.engine.db.stream = some active)
      (awaited : session.deferredUntilAckRevision = some active.finalRevision)
      (pending : session.engine.db.cursor.pendingAckRevision = some active.finalRevision)

/-- The messages handed over and those deferred are those that arrived, in their order. A deferred message is
released, or waits for a stream or its acknowledgement, which can still come; a drain tick hands over the released
messages its budget has items for; and the acknowledgement awaited online is accepted and releases the others. -/
structure Delivers (arrived handed : List DeferredLiveMessage) (session : Session F) : Prop where
  order : handed ++ session.deferredEvents = arrived
  waiting : session.deferredEvents ≠ [] → session.Released ∨ session.Awaits
  drains : session.Released → session.refreshRequested = false → ∀ items fetchLimit handed' session',
    drainOutbound items fetchLimit session = .ok handed' session' → handed' = session.deferredEvents.take items
  confirms : ∀ revision, session.phase = .online → session.deferredUntilAckRevision = some revision →
    session.engine.closed = false → ∃ session', handleAck ⟨Env.workspaceId, Env.clientId, revision⟩ session =
      .ok () session' ∧ session'.deferredEventsReady = !session.deferredEvents.isEmpty

section

omit [Filesystem F] [Env]

theorem stream_of_final {engine : Engine F} {final : StreamFinal} (h : engine.ack.store.final = some final) :
    ∃ active, engine.db.stream = some active ∧ active.finalRevision = final.revision ∧
      active.endReceived = final.received := by
  obtain ⟨active, hactive, rfl⟩ := Option.map_eq_some_iff.mp h
  exact ⟨active, hactive, rfl, rfl⟩

theorem Session.Sound.awaits (h : s.Sound) (hdeferred : s.deferredEvents ≠ []) : s.Released ∨ s.Awaits := by
  have hwaiting := h.waiting hdeferred
  have hplaced := h.placed
  cases hphase : s.phase with
  | awaitingSubscribe => exact .inr (.subscription hphase)
  | online =>
    rw [hphase] at hplaced
    rcases hplaced with ⟨revision, hfinal, hawaited, hpending⟩ | ⟨hidle, hawaited⟩
    · obtain ⟨active, hactive, rfl, -⟩ := stream_of_final hfinal
      exact .inr (.acknowledgement hphase hactive hawaited hpending)
    · exact .inl (by simpa [hphase, hidle, hawaited] using hwaiting)
  | streaming stream =>
    obtain ⟨begin_, ended⟩ := stream
    rw [hphase] at hplaced
    cases ended with
    | false =>
      rcases hplaced with hfinal | ⟨hidle, hawaited⟩
      · obtain ⟨active, hactive, hrevision, hrunning⟩ := stream_of_final hfinal
        exact .inr (.ending hphase hactive hrevision hrunning)
      · exact .inl (by simpa [hphase, hidle, hawaited] using hwaiting)
    | true =>
      rcases hplaced with ⟨hfinal, hawaited⟩ | ⟨hidle, hawaited⟩
      · obtain ⟨active, hactive, hrevision, hended⟩ := stream_of_final hfinal
        exact .inr (.items hphase hactive hrevision hended (hrevision ▸ hawaited))
      · rcases hawaited with hawaited | ⟨-, hacked⟩
        · exact .inl (by simpa [hphase, hidle, hawaited] using hwaiting)
        · exact .inl (.inr ⟨begin_, hphase, stream_eq_none_iff.mpr hidle, hacked⟩)

end

theorem SessionRun.sound {limits : SessionLimits} {engine : Engine F} {arrived handed : List DeferredLiveMessage}
    {session : Session F} (run : SessionRun limits OrderAllowed (.new engine) arrived handed session) :
    session.Sound ∧ handed ++ session.deferredEvents = arrived := by
  induction run with
  | refl =>
    refine ⟨⟨trivial, fun hready => ?_, fun hphase => absurd rfl hphase, fun hne => absurd rfl hne⟩, rfl⟩
    cases hready
  | @step arrived handed handed' s t event run allowed up ih =>
    have hstep := wp_of_ok (SessionEvent.run_hands limits event ih.1 allowed) up
    refine ⟨hstep.1, ?_⟩
    rw [List.append_assoc, hstep.2, ← List.append_assoc, ih.2]

/-- Each event of the list is allowed in the state it meets. -/
def AllowedAlong (limits : SessionLimits) (Allowed : Session F → SessionEvent F → Prop) :
    List (SessionEvent F) → Session F → Prop
  | [], _ => True
  | event :: events, session => Allowed session event ∧
      match event.run limits session with
      | .ok _ next => AllowedAlong limits Allowed events next
      | .error _ _ => False

instance instDecidableAllowedAlong (limits : SessionLimits) (Allowed : Session F → SessionEvent F → Prop)
    [∀ session event, Decidable (Allowed session event)] :
    (events : List (SessionEvent F)) → (session : Session F) → Decidable (AllowedAlong limits Allowed events session)
  | [], _ => isTrue trivial
  | event :: events, session =>
    have : Decidable (match event.run limits session with
        | .ok _ next => AllowedAlong limits Allowed events next
        | .error _ _ => False) :=
      match event.run limits session with
      | .ok _ next => instDecidableAllowedAlong limits Allowed events next
      | .error _ _ => isFalse id
    inferInstanceAs (Decidable (_ ∧ _))

/-- A list of events that are allowed one after the other continues a run, if it leaves the connection up. -/
theorem SessionRun.append {limits : SessionLimits} {Allowed : Session F → SessionEvent F → Prop} {first : Session F} :
    ∀ {events : List (SessionEvent F)} {arrived handed later : List DeferredLiveMessage} {s t : Session F},
      SessionRun limits Allowed first arrived handed s → AllowedAlong limits Allowed events s →
      runEvents limits events s = .ok later t →
      SessionRun limits Allowed first (arrived ++ events.flatMap SessionEvent.arrives) (handed ++ later) t
  | [], arrived, handed, later, s, t, run, _, h => by
    cases h
    simpa using run
  | event :: events, arrived, handed, later, s, t, run, hallowed, h => by
    have hwp : wp (runEvents limits (event :: events)) (fun later' t' => later' = later ∧ t' = t)
        (fun _ _ => False) s := by
      unfold wp
      rw [h]
      exact ⟨rfl, rfl⟩
    rw [runEvents, wp_bind] at hwp
    obtain ⟨handed', s', hfirst, hrest⟩ := exists_ok_of_wp hwp
    simp only [wp_bind] at hrest
    obtain ⟨later', t', hlater, rfl, rfl⟩ := exists_ok_of_wp hrest
    have hallowed' := hallowed.2
    rw [hfirst] at hallowed'
    have hrun := append (run.step hallowed.1 hfirst) hallowed' hlater
    simpa [List.append_assoc] using hrun

end

section

open scoped Sample

def beginning : List (SessionEvent Disk) := [.frame (.snapshotBegin ⟨1, 7, .snapshot, 0, 3, 0, 0, 0⟩)]

def ending : List (SessionEvent Disk) :=
  [.frame (.snapshotEnd ⟨1, 7, .snapshot, 0, 3⟩), .drain 0 0, .frame (.ack ⟨1, 1, 3⟩)]

end

end Lumio.Transport
