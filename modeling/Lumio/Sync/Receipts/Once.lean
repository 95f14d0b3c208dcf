import Lumio.Sync.Receipts.Apply

/-!
# Exactly one effect for each operation

The reply to a mutation, its live event and its stream event are processed in any order and any number of times.
The first that takes effect decides the content of the store, and path states and receipt do not depend on which
one it was. What differs is the rest of the outbox: an acceptance promotes the deferred changes of its paths at
once, an event leaves them to be materialised later, and a live event may keep local content.
-/

namespace Lumio.Sync

open Lumio.Protocol Lumio.Fs Prog

inductive Channel where
  | acceptance
  | live
  | stream
deriving DecidableEq

structure OperationMessages where
  accepted : WorkspaceMutationAcceptedMessage
  live : WorkspaceEventMessage
  stream : WorkspaceEventMessage
  sameStream : eventRecord stream = eventRecord live
  sameAccepted : acceptedRecord live.mutation accepted = eventRecord live

def OperationMessages.record (messages : OperationMessages) : AppliedOperationRecord := eventRecord messages.live

def OperationMessages.posts (messages : OperationMessages) : List WorkspacePathState := eventPostStates messages.live

/-! ## The three messages agree -/

section

variable (messages : OperationMessages)

theorem OperationMessages.stream_posts : eventPostStates messages.stream = messages.posts := by
  have h := messages.sameStream
  simp only [eventRecord, appliedEventDigest, AppliedOperationRecord.mk.injEq,
    AppliedOperationReceipt.mutationResult.injEq, AppliedOperationResult.mk.injEq] at h
  obtain ⟨-, -, -, ⟨hmutation, hpath, hold, hnew⟩, -⟩ := h
  simp only [OperationMessages.posts, eventPostStates, hmutation, hpath, hold, hnew]

theorem OperationMessages.putAll_accepted {states : PathStates}
    (hshape : validateAcceptanceShape messages.live.mutation messages.accepted = .ok ()) :
    states.putAll (acceptedStates messages.accepted) = states.putAll messages.posts := by
  have h := messages.sameAccepted
  simp only [acceptedRecord, eventRecord, appliedEventDigest, appliedAcceptanceDigest, AppliedOperationRecord.mk.injEq,
    AppliedOperationReceipt.mutationResult.injEq, AppliedOperationResult.mk.injEq] at h
  obtain ⟨-, -, -, ⟨-, hpath, hold, hnew⟩, -⟩ := h
  simp only [OperationMessages.posts, eventPostStates, acceptedStates, hpath, hold, hnew]
  unfold validateAcceptanceShape at hshape
  simp only [hpath, hold, hnew] at hshape
  split at hshape
  · rename_i hrename
    simp only [hrename, if_true]
    split at hshape
    · rename_i old new expectedNew hold' hnew' hexpected
      split at hshape
      · cases hshape
      · rename_i hnot
        obtain ⟨-, -, hsame⟩ : old.path = _ ∧ new.path = _ ∧ messages.live.pathState = new := by tauto
        simp [PathStates.putAll, hold', hnew', hsame, AList.insert_insert]
    · cases hshape
  · rename_i hrename
    split at hshape
    · cases hshape
    · rename_i hnot
      simp only [not_or, Bool.not_eq_true, Option.isSome_eq_false_iff, Option.isNone_iff_eq_none] at hnot
      simp only [hrename, if_false, hnot.1, hnot.2.1, Option.toList_none, List.nil_append]

end

/-! ## The first delivery -/

section

variable {F : Type} [Env] (messages : OperationMessages)

theorem mutationAccepted_applied {s : Engine F}
    (hmissing : s.db.appliedOperations.lookup messages.record.key = none)
    (hrow : ∀ row, s.db.outbox.lookup messages.accepted.operationId = some row →
      row.body = .mutation messages.live.mutation) :
    wp (mutationAccepted messages.accepted) (fun _ t => Applied messages.posts messages.record s.db t.db)
      (fun _ t => AtMostApplied messages.posts messages.record s.db t.db) s := by
  have same : AtMostApplied messages.posts messages.record s.db s.db := .inl rfl
  have hkey : messages.record = acceptedRecord messages.live.mutation messages.accepted := messages.sameAccepted.symm
  unfold mutationAccepted
  refine Keeps.wp_check ensureOpen_keeps (fun _ => ?_) fun _ => same
  refine Keeps.wp_check (requireValid_keeps _ _) (fun _ => ?_) fun _ => same
  rw [wp_bind]
  refine wp_readDb (fun receiptMatch hmatch => ?_) fun _ => same
  have hreceipt : receiptMatch = .missing := by
    have hlookup : s.db.appliedOperations.lookup (messages.accepted.clientId, messages.accepted.operationId) = none := by
      rw [hkey] at hmissing
      exact hmissing
    simp only [Db.mutationAcceptanceMatch, hlookup] at hmatch
    split at hmatch
    · cases hmatch
    · cases hmatch
      rfl
  subst hreceipt
  rw [wp_bind]
  unfold validateIdentity
  split
  · exact same
  rename_i hidentity
  have hclient : messages.accepted.clientId = Env.clientId := by tauto
  rw [wp_pure]
  simp only [reduceCtorEq, if_false]
  rw [wp_bind]
  refine wp_outstandingMutation (fun mutation hmutation => ?_) fun _ => same
  obtain rfl : mutation = messages.live.mutation := by
    obtain ⟨row, hlookup, hbody⟩ := Option.bind_eq_some_iff.mp hmutation
    simp only [OutboxRecord.mutation?, hrow row hlookup, Option.some.injEq] at hbody
    exact hbody.symm
  rw [wp_bind]
  refine wp_readDb (fun _ hshape => ?_) fun _ => same
  rw [wp_bind, wp_get]
  have hnext : Keeps Engine.exceptJournals (nextMutations (F := F)
      (s.db.deferredOperations (mutationPaths messages.live.mutation))
      (s.db.pathStates.putAll (acceptedStates messages.accepted))) := nextMutations_keeps _ _
  refine hnext.wp_bind (fun next t ht => ?_) fun _ t ht =>
    .inl (Db.content_of_exceptJournals (Engine.db_of_exceptJournals ht))
  have hdb := Engine.db_of_exceptJournals ht
  rw [wp_bind]
  refine wp_transaction_of ?_ fun _ => .inl (Db.content_of_exceptJournals hdb)
  refine wp_seq (wp_putPosts _ t.db) ?_
  rintro _ db rfl
  simp only [removeOutbox, wp_bind, wp_modify]
  have hmissing' : t.db.appliedOperations.lookup (Env.clientId, messages.accepted.operationId) = none := by
    have hreceipts : t.db.exceptJournals.appliedOperations = s.db.exceptJournals.appliedOperations := by rw [hdb]
    rw [hkey] at hmissing
    rw [← hclient]
    exact hreceipts ▸ hmissing
  refine wp_mono (wp_recordMutation hmissing') ?_ fun _ _ h => h
  rintro _ db rfl
  have hrest : Keeps Db.applied (do
      forTx (pathsForDesiredOperations (mutationPaths messages.live.mutation)
        (s.db.deferredOperations (mutationPaths messages.live.mutation))) removeLocalIntent
      forTx next fun item => enqueueMutationAt item.1 item.2) :=
    .bind (applied_of_core (forTx_keeps removeLocalIntent_keeps)) fun _ =>
      applied_of_core (forTx_keeps fun next => enqueueMutationAt_keeps next.1 next.2)
  refine wp_mono (hrest _) (fun _ db h => ?_) fun _ _ _ => trivial
  have happlied : Applied messages.posts messages.record t.db db := by
    refine Applied.of_applied h ⟨messages.putAll_accepted hshape, ?_⟩
    rw [hkey, acceptedRecord, AppliedOperationRecord.key, hclient]
  exact happlied.of_before hdb

end

/-! ## Later deliveries -/

section

variable {db : Db} {record : AppliedOperationRecord}

theorem eventReceiptMatch_of_record {event : WorkspaceEventMessage}
    (hrecord : db.appliedOperations.lookup (event.originClientId, event.operationId) = some record) :
    db.eventReceiptMatch event = .error .operationChanged ∨
    (db.eventReceiptMatch event = .ok .exact ∧ record.revision = event.revision ∧
      record.receipt = (eventRecord event).receipt) := by
  simp only [Db.eventReceiptMatch, hrecord]
  split
  · exact .inl rfl
  rename_i hrevision
  simp only [ne_eq, Decidable.not_not] at hrevision
  cases hreceipt : record.receipt with
  | conflictResolution message => exact .inl rfl
  | mutationResult bodyDigest mutation =>
    dsimp only
    split
    · exact .inl rfl
    rename_i hsame
    simp only [ne_eq, not_or, Decidable.not_not] at hsame
    exact .inr ⟨rfl, hrevision, by rw [hsame.1, hsame.2]; rfl⟩

theorem mutationAcceptanceMatch_of_record {accepted : WorkspaceMutationAcceptedMessage}
    (hrecord : db.appliedOperations.lookup (accepted.clientId, accepted.operationId) = some record) :
    db.mutationAcceptanceMatch accepted = .error .operationChanged ∨
    (db.mutationAcceptanceMatch accepted = .ok .exact ∧
      ∃ mutation, record.revision = accepted.revision ∧
        record.receipt = (acceptedRecord mutation accepted).receipt) := by
  simp only [Db.mutationAcceptanceMatch, hrecord]
  split
  · exact .inl rfl
  rename_i hrevision
  simp only [ne_eq, Decidable.not_not] at hrevision
  cases hreceipt : record.receipt with
  | conflictResolution message => exact .inl rfl
  | mutationResult bodyDigest mutation =>
    dsimp only
    split
    · exact .inl rfl
    rename_i hsame
    have hmatches : receiptMatchesAcceptance record accepted = true := by
      simp only [Bool.not_eq_true', not_or, Bool.not_eq_false] at hsame
      exact hsame.2
    simp only [receiptMatchesAcceptance, hreceipt, Bool.and_eq_true, decide_eq_true_eq] at hmatches
    exact .inr ⟨rfl, mutation, hrevision, by rw [hmatches.2]; rfl⟩

end

section

variable {F : Type} [Filesystem F] [Env] (messages : OperationMessages)

section

omit [Filesystem F] [Env]

theorem transaction_content {α : Type} {body : TxM α} (h : Keeps Db.content body) :
    Keeps Engine.content (transaction (F := F) body) := by
  intro engine
  rw [wp_transaction]
  exact wp_mono (h engine.db) (fun _ _ hdb => hdb) (fun _ _ _ => rfl)

theorem markLiveEventApplied_content (revision : WorkspaceRevision) :
    Keeps Engine.content (markLiveEventApplied (F := F) revision) := by
  unfold markLiveEventApplied
  refine .bind .get fun engine => ?_
  dsimp only
  split
  · exact .pure _
  · exact transaction_content (.bind (.onlyIf (setLastAppliedRevision_content _) _) fun _ =>
      .onlyIf (setPendingAck_content _) _)

end

def OperationMessages.process : Channel → EngineM F Unit
  | .acceptance => (Processing.accepted messages.accepted).run
  | .live => (Processing.liveEvent messages.live).run
  | .stream => (Processing.streamEvent messages.stream).run

omit [Env] in
theorem OperationMessages.accepted_key :
    (messages.accepted.clientId, messages.accepted.operationId) = messages.record.key := by
  rw [OperationMessages.record, ← messages.sameAccepted]
  rfl

omit [Env] in
theorem OperationMessages.stream_key :
    (messages.stream.originClientId, messages.stream.operationId) = messages.record.key := by
  rw [OperationMessages.record, ← messages.sameStream]
  rfl

variable {s : Engine F} {record : AppliedOperationRecord}

theorem OperationMessages.process_applied (channel : Channel)
    (hmissing : s.db.appliedOperations.lookup messages.record.key = none)
    (hrow : ∀ row, s.db.outbox.lookup messages.accepted.operationId = some row →
      row.body = .mutation messages.live.mutation) :
    wp (messages.process channel) (fun _ t => Applied messages.posts messages.record s.db t.db)
      (fun _ t => AtMostApplied messages.posts messages.record s.db t.db) s := by
  cases channel with
  | acceptance =>
    rw [OperationMessages.process, Processing.run, wp_bind]
    exact mutationAccepted_applied messages hmissing hrow
  | live => exact applyLiveEvent_applied hmissing
  | stream =>
    have hmissing' : s.db.appliedOperations.lookup (eventRecord messages.stream).key = none := by
      rw [messages.sameStream]
      exact hmissing
    have happlied := applyEvent_applied hmissing'
    rw [messages.stream_posts, messages.sameStream] at happlied
    exact happlied

theorem OperationMessages.process_content (channel : Channel)
    (hrecord : s.db.appliedOperations.lookup messages.record.key = some record) :
    wp (messages.process channel) (fun _ t => t.db.content = s.db.content) (fun _ t => t.db.content = s.db.content)
      s := by
  cases channel with
  | acceptance =>
    rw [OperationMessages.process, Processing.run, wp_bind]
    rw [← messages.accepted_key] at hrecord
    rcases mutationAcceptanceMatch_of_record hrecord with hchanged | ⟨hexact, -⟩
    · unfold mutationAccepted
      refine Keeps.wp_check ensureOpen_keeps (fun _ => ?_) fun _ => rfl
      refine Keeps.wp_check (requireValid_keeps _ _) (fun _ => ?_) fun _ => rfl
      rw [wp_bind]
      refine wp_readDb (fun receiptMatch hmatch => ?_) fun _ => rfl
      rw [hchanged] at hmatch
      cases hmatch
    · exact wp_mono (mutationAccepted_exact hexact) (fun _ t ht => by rw [ht]; rfl) fun _ t ht => by rw [ht]
  | live =>
    rw [OperationMessages.process, Processing.run]
    unfold applyLiveEvent
    rw [wp_bind, wp_get]
    dsimp only
    rw [wp_bind]
    refine wp_readDb (fun receiptMatch hmatch => ?_) fun _ => rfl
    rcases eventReceiptMatch_of_record hrecord with hchanged | ⟨hexact, -⟩
    · rw [hchanged] at hmatch
      cases hmatch
    · rw [hexact] at hmatch
      cases hmatch
      exact markLiveEventApplied_content _ s
  | stream =>
    rw [← messages.stream_key] at hrecord
    rw [OperationMessages.process, Processing.run]
    unfold applyEvent
    rw [wp_bind, wp_get]
    dsimp only
    rw [wp_bind]
    refine wp_readDb (fun receiptMatch hmatch => ?_) fun _ => rfl
    rcases eventReceiptMatch_of_record hrecord with hchanged | ⟨hexact, -⟩
    · rw [hchanged] at hmatch
      cases hmatch
    · rw [hexact] at hmatch
      cases hmatch
      simp only [if_true, wp_bind]
      exact transaction_content (putStreamEvent_content _ _) s

/-! ## Runs of deliveries -/

def OperationMessages.deliverAll : List Channel → Engine F → Engine F
  | [], s => s
  | channel :: rest, s => deliverAll rest (final (messages.process channel) s)

def OperationMessages.firstApplied : List Channel → Engine F → Option (Engine F)
  | [], _ => none
  | channel :: rest, s =>
    match messages.process channel s with
    | .ok _ t => some t
    | .error _ t =>
      if (t.db.appliedOperations.lookup messages.record.key).isSome then some t else firstApplied rest t

theorem OperationMessages.deliverAll_content (deliveries : List Channel) (s : Engine F)
    (hrecord : s.db.appliedOperations.lookup messages.record.key = some record) :
    (messages.deliverAll deliveries s).db.content = s.db.content := by
  induction deliveries generalizing s with
  | nil => rfl
  | cons channel rest ih =>
    have hsame := wp_final (messages.process_content channel hrecord)
    have hreceipts : (final (messages.process channel) s).db.content.appliedOperations =
        s.db.content.appliedOperations := by rw [hsame]
    rw [OperationMessages.deliverAll]
    refine (ih _ ?_).trans hsame
    exact hreceipts ▸ hrecord

/-- The deliveries of an operation have the effect of the first that takes effect, and path states and receipt
do not depend on its channel. -/
theorem OperationMessages.deliverAll_once (deliveries : List Channel) (s : Engine F)
    (hmissing : s.db.appliedOperations.lookup messages.record.key = none)
    (hrow : ∀ row, s.db.outbox.lookup messages.accepted.operationId = some row →
      row.body = .mutation messages.live.mutation) :
    match messages.firstApplied deliveries s with
    | none => (messages.deliverAll deliveries s).db.content = s.db.content
    | some t => (messages.deliverAll deliveries s).db.content = t.db.content ∧
        Applied messages.posts messages.record s.db t.db := by
  induction deliveries generalizing s with
  | nil => rfl
  | cons channel rest ih =>
    have hprocess := messages.process_applied channel hmissing hrow
    rw [OperationMessages.deliverAll, OperationMessages.firstApplied]
    have hinserted : ∀ {t : Engine F}, Applied messages.posts messages.record s.db t.db →
        t.db.appliedOperations.lookup messages.record.key = some messages.record := by
      intro t happlied
      rw [happlied.receipts, AList.lookup_insert]
    cases hrun : messages.process channel s with
    | ok result t =>
      have happlied := wp_of_ok hprocess hrun
      simp only [final, hrun]
      exact ⟨messages.deliverAll_content rest t (hinserted happlied), happlied⟩
    | error e t =>
      have hatMost := wp_of_error hprocess hrun
      simp only [final, hrun]
      rcases hatMost with hsame | happlied
      · have hfields : t.db.pathStates = s.db.pathStates ∧ t.db.appliedOperations = s.db.appliedOperations ∧
            t.db.outbox = s.db.outbox := by
          simp only [Db.content, Db.mk.injEq] at hsame
          tauto
        obtain ⟨hpaths, hreceipts, houtbox⟩ := hfields
        rw [hreceipts, hmissing]
        simp only [Option.isSome_none, Bool.false_eq_true, if_false]
        have hrest := ih t (hreceipts ▸ hmissing) (houtbox ▸ hrow)
        cases hfirst : messages.firstApplied rest t with
        | none =>
          simp only [hfirst] at hrest
          exact hrest.trans hsame
        | some u =>
          simp only [hfirst] at hrest
          exact ⟨hrest.1, hpaths ▸ hrest.2.pathStates, hreceipts ▸ hrest.2.receipts⟩
      · simp only [hinserted happlied, Option.isSome_some, if_true]
        exact ⟨messages.deliverAll_content rest t (hinserted happlied), happlied⟩

/-! ## Changed replays -/

section

omit [Filesystem F] [Env]

theorem wp_ensureOpen {α : Type} {m : EngineM F α} {Q : α → Engine F → Prop} {E : SyncError → Engine F → Prop}
    (hopen : s.closed = false) (h : wp m Q E s) :
    wp (do
      ensureOpen
      m) Q E s := by
  simp only [ensureOpen, wp_bind, wp_get, hopen, Bool.false_eq_true, if_false, wp_pure]
  exact h

theorem wp_requireValid {α : Type} {m : EngineM F α} {Q : α → Engine F → Prop} {E : SyncError → Engine F → Prop}
    {result : Except WorkspaceValidationError Unit} {error : SyncError} (hvalid : result = .ok ()) (h : wp m Q E s) :
    wp (do
      requireValid result error
      m) Q E s := by
  simp only [requireValid, hvalid, wp_bind, wp_pure]
  exact h

theorem wp_readDb_error {α β : Type} {check : Db → Except SyncError α} {f : α → EngineM F β} {e : SyncError}
    (h : check s.db = .error e) : wp (readDb check >>= f) (fun _ _ => False) (fun e' t => e' = e ∧ t = s) s := by
  rw [wp_bind]
  simp only [readDb, wp, h, and_self]

end

omit [Filesystem F] in
theorem mutationAccepted_changed {accepted : WorkspaceMutationAcceptedMessage} (hopen : s.closed = false)
    (hvalid : accepted.validate = .ok ())
    (hrecord : s.db.appliedOperations.lookup (accepted.clientId, accepted.operationId) = some record)
    (hchanged : ∀ mutation, ¬(record.revision = accepted.revision ∧
      record.receipt = (acceptedRecord mutation accepted).receipt)) :
    mutationAccepted accepted s = .error .operationChanged s := by
  refine eq_error_of_wp ?_
  unfold mutationAccepted
  refine wp_ensureOpen hopen (wp_requireValid hvalid (wp_readDb_error ?_))
  rcases mutationAcceptanceMatch_of_record hrecord with herror | ⟨-, mutation, hsame⟩
  · exact herror
  · exact absurd hsame (hchanged mutation)

theorem event_changed {message : WorkspaceEventMessage} (hopen : s.closed = false)
    (hvalid : message.validate = .ok ()) (hworkspace : message.workspaceId = Env.workspaceId)
    (hrecord : s.db.appliedOperations.lookup (message.originClientId, message.operationId) = some record)
    (hchanged : ¬(record.revision = message.revision ∧ record.receipt = (eventRecord message).receipt)) :
    event message s = .error .operationChanged s := by
  refine eq_error_of_wp ?_
  unfold event
  refine wp_ensureOpen hopen (wp_requireValid hvalid ?_)
  simp only [requireThat, hworkspace, decide_true, if_true, wp_bind, wp_pure]
  rcases eventReceiptMatch_of_record hrecord with herror | ⟨-, hsame⟩
  · simpa only [wp_bind] using wp_readDb_error herror
  · exact absurd hsame hchanged

/-- A stream event whose result is not that of the stored receipt is refused, unless the stored stream has a row of
its revision that decides first. -/
theorem workspaceEvent_changed {message : WorkspaceEventMessage} (hopen : s.closed = false)
    (hvalid : message.validate = .ok ()) (hworkspace : message.workspaceId = Env.workspaceId)
    (hrecord : s.db.appliedOperations.lookup (message.originClientId, message.operationId) = some record)
    (hchanged : ¬(record.revision = message.revision ∧ record.receipt = (eventRecord message).receipt))
    (hrow : ∀ row, s.db.storedItem message.streamId message.revision = some row →
      row.eventIndex = some message.index ∧ (row.body = .event message → row.status.settled = false)) :
    workspaceEvent message s = .error .operationChanged s := by
  have hreceipt : s.db.eventReceiptMatch message = .error .operationChanged := by
    rcases eventReceiptMatch_of_record hrecord with herror | ⟨-, hsame⟩
    · exact herror
    · exact absurd hsame hchanged
  refine eq_error_of_wp ?_
  unfold workspaceEvent
  refine wp_ensureOpen hopen (wp_requireValid hvalid ?_)
  simp only [requireThat, hworkspace, decide_true, if_true]
  rw [wp_bind, wp_pure, wp_bind, wp_get]
  cases hstored : s.db.storedItem message.streamId message.revision with
  | none =>
    simp only [Option.any_none, Bool.false_eq_true, if_false, repeatsStored]
    exact wp_readDb_error hreceipt
  | some row =>
    obtain ⟨hindex, hsettled⟩ := hrow row hstored
    simp only [Option.any_some, hindex, ne_eq, not_true_eq_false, decide_false, Bool.false_eq_true, if_false,
      repeatsStored]
    by_cases hbody : row.body = .event message
    · simp only [hbody, not_true_eq_false, if_false, Option.any_some, hsettled hbody, Bool.false_eq_true]
      exact wp_readDb_error hreceipt
    · simp only [hbody, not_false_eq_true, if_true]
      exact ⟨rfl, rfl⟩

/-- Exactly one effect. The deliveries of an operation, in any order and any number of times, leave the content of
the store as the first that takes effect leaves it; path states and receipt are then the same whichever channel it
was. A delivery with the identity of a stored receipt and another result is refused and changes nothing. -/
theorem exactly_once_effect (deliveries : List Channel) (s : Engine F)
    (hmissing : s.db.appliedOperations.lookup messages.record.key = none)
    (hrow : ∀ row, s.db.outbox.lookup messages.accepted.operationId = some row →
      row.body = .mutation messages.live.mutation) :
    (match messages.firstApplied deliveries s with
      | none => (messages.deliverAll deliveries s).db.content = s.db.content
      | some t => (messages.deliverAll deliveries s).db.content = t.db.content ∧
          Applied messages.posts messages.record s.db t.db) ∧
    ∀ (t : Engine F) (record : AppliedOperationRecord), t.closed = false →
      (∀ accepted : WorkspaceMutationAcceptedMessage, accepted.validate = .ok () →
        t.db.appliedOperations.lookup (accepted.clientId, accepted.operationId) = some record →
        (∀ mutation, ¬(record.revision = accepted.revision ∧
          record.receipt = (acceptedRecord mutation accepted).receipt)) →
          mutationAccepted accepted t = .error .operationChanged t) ∧
      ∀ message : WorkspaceEventMessage, message.validate = .ok () → message.workspaceId = Env.workspaceId →
        t.db.appliedOperations.lookup (message.originClientId, message.operationId) = some record →
        ¬(record.revision = message.revision ∧ record.receipt = (eventRecord message).receipt) →
          event message t = .error .operationChanged t ∧
          ((∀ row, t.db.storedItem message.streamId message.revision = some row →
            row.eventIndex = some message.index ∧ (row.body = .event message → row.status.settled = false)) →
              workspaceEvent message t = .error .operationChanged t) := by
  refine ⟨messages.deliverAll_once deliveries s hmissing hrow, fun t record hopen => ⟨?_, ?_⟩⟩
  · intro accepted hvalid hrecord hchanged
    exact mutationAccepted_changed hopen hvalid hrecord hchanged
  · intro message hvalid hworkspace hrecord hchanged
    exact ⟨event_changed hopen hvalid hworkspace hrecord hchanged,
      workspaceEvent_changed hopen hvalid hworkspace hrecord hchanged⟩

end

/-! ## A change made while the mutation was on its way -/

section

open scoped Sample

/-- Client 1 has sent the file `a` and has changed it again; an incremental stream has begun. -/
def changedInFlight : Engine Disk :=
  (((((Sample.engine.after (.edit (Disk.empty.create Sample.pathA .file [1]))).after
    (.recordLocalChanges [.create Sample.pathA])).after (.pendingCommands 8)).after
      (.edit (Disk.empty.create Sample.pathA .file [1, 2]))).after (.recordLocalChanges [.update Sample.pathA])).after
        (.snapshotBegin ⟨1, 7, .incremental, 0, 4, 0, 1, 0⟩)

/-- The result of the mutation with which client 1 has sent `a`, as reply and as event. -/
def sentFile : OperationMessages :=
  let mutation : WorkspaceMutation :=
    ⟨1, 1, 1000, Sample.pathA, 0, .upsertFile, some (contentDigest [1]), ⟨1, 0, false⟩, none, none⟩
  let event : WorkspaceEventMessage := ⟨1, 7, 0, 4, 1000, 1, mutation, Sample.file Sample.pathA 4 [1], none, none⟩
  ⟨⟨1, 1, 1000, 4, Sample.file Sample.pathA 4 [1], none, none⟩, event, event, rfl, rfl⟩

/-- The event of the stream first, then the reply twice. -/
theorem exactly_once_effect_of_sentFile :
    ((sentFile.deliverAll [.stream, .acceptance, .acceptance] changedInFlight).db.pathStates.lookup
      Sample.pathA).map (·.pathRevision) = some 4 := by
  have hrow : ∀ row, changedInFlight.db.outbox.lookup 1000 = some row →
      row.body = .mutation sentFile.live.mutation := by
    have hbody : (changedInFlight.db.outbox.lookup 1000).map (·.body) =
        some (.mutation sentFile.live.mutation) := by decide +kernel
    intro row hlookup
    rw [hlookup] at hbody
    exact Option.some.inj hbody
  have honce := (exactly_once_effect sentFile [.stream, .acceptance, .acceptance] changedInFlight
    (by decide +kernel) hrow).1
  have hfirst : (sentFile.firstApplied [.stream, .acceptance, .acceptance] changedInFlight).isSome := by
    decide +kernel
  obtain ⟨t, ht⟩ := Option.isSome_iff_exists.mp hfirst
  simp only [ht] at honce
  obtain ⟨hcontent, happlied⟩ := honce
  rw [Db.pathStates_of_content hcontent, happlied.pathStates]
  decide +kernel

/-- The outbox depends on the channel: an acceptance promotes the change made in between, the event of a stream
leaves it deferred. -/
theorem not_sameOutbox_sentFile :
    ¬ ∀ (engine : Engine Disk) (messages : OperationMessages), Run (fun _ _ => True) Sample.engine engine →
      messages.live.validate = .ok () → messages.accepted.validate = .ok () →
        (engine.db.outbox.lookup messages.accepted.operationId).map (·.body) =
          some (.mutation messages.live.mutation) →
          (messages.deliverAll [.stream, .acceptance] engine).db.outbox.entries.length =
            (messages.deliverAll [.acceptance] engine).db.outbox.entries.length := by
  intro h
  have hrun : Run (fun _ _ => True) Sample.engine changedInFlight :=
    ((((((Run.refl _).step trivial).step trivial).step trivial).step trivial).step trivial).step trivial
  have hsame := h changedInFlight sentFile hrun (by decide) (by decide) (by decide +kernel)
  exact absurd hsame (by decide +kernel)

end

end Lumio.Sync
