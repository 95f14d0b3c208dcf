import Lumio.Sync.Conflicts.Frame

/-!
# The conflicts and their resolutions

A conflict carries a resolution exactly while one is outstanding, and every resolution in the outbox is the one
its conflict carries. This is kept by everything the engine does.
-/

namespace Lumio.Sync

open Lumio.Protocol Lumio.Fs Prog

/-- The candidate that belongs to the resolution of a conflict: the content of a merged one. -/
def ConflictRecord.candidate (conflict : ConflictRecord) : Option WorkspaceContentHash :=
  conflict.resolution.bind fun request => if request.choice = .merged then request.contentHash else none

section

variable [Env]

/-- A row of the conflicts under its key, with a resolution exactly while one is outstanding. -/
structure ConflictRecord.Sound (conflictId : ConflictId) (conflict : ConflictRecord) : Prop where
  conflictId : conflict.created.conflictId = conflictId
  workspaceId : conflict.created.workspaceId = Env.workspaceId
  valid : conflict.created.validate.isOk = true
  pending : conflict.resolution.isSome ↔ conflict.status = .resolving ∨ conflict.status = .refreshRequired
  candidate : conflict.candidateHash = conflict.candidate
  decoded : decodePendingResolution conflict = .ok conflict.resolution

/-- The store is sound: so is every conflict and every staged one, and every resolution in the outbox is the one
its conflict carries. -/
structure Db.ConflictsSound (db : Db) : Prop where
  conflicts : ∀ {conflictId conflict}, db.conflicts.lookup conflictId = some conflict → conflict.Sound conflictId
  staged : ∀ {conflictId staged}, db.streamConflicts.lookup conflictId = some staged → staged.Valid conflictId
  rows : ∀ {operationId row request}, db.outbox.lookup operationId = some row →
    row.body = .conflictResolution request → operationId = request.operationId ∧
      ∃ conflict, db.conflicts.lookup request.conflictId = some conflict ∧ conflict.resolution = some request

def Db.noResolution (db : Db) (conflictId : ConflictId) : Prop :=
  ∀ operationId row request, db.outbox.lookup operationId = some row → row.body = .conflictResolution request →
    request.conflictId ≠ conflictId

theorem Db.ConflictsSound.initial : Db.initial.ConflictsSound where
  conflicts h := by simp [Db.initial] at h
  staged h := by simp [Db.initial] at h
  rows h := by simp [Db.initial] at h

omit [Env] in
theorem Db.noResolution.sheds {a b : Db} {conflictId : ConflictId} (h : a.noResolution conflictId)
    (hsheds : Sheds a b) : b.noResolution conflictId := by
  intro operationId row request hrow hbody
  obtain ⟨old, hold, holdBody⟩ := hsheds.rows hrow hbody
  exact h _ _ _ hold holdBody

theorem Db.ConflictsSound.sheds {a b : Db} (h : a.ConflictsSound) (hsheds : Sheds a b) : b.ConflictsSound where
  conflicts hlookup := h.conflicts (hsheds.conflicts ▸ hlookup)
  staged hlookup := h.staged (hsheds.staged ▸ hlookup)
  rows hrow hbody := by
    obtain ⟨old, hold, holdBody⟩ := hsheds.rows hrow hbody
    rw [hsheds.conflicts]
    exact h.rows hold holdBody

theorem Db.ConflictsSound.staging {a b : Db} (h : a.ConflictsSound) (hstaging : Staging a b) :
    b.ConflictsSound := by
  have hconflicts : b.content.conflicts = a.content.conflicts := by rw [hstaging.content]
  have houtbox : b.content.outbox = a.content.outbox := by rw [hstaging.content]
  refine ⟨fun hlookup => h.conflicts (hconflicts ▸ hlookup), fun hlookup => ?_, fun hrow hbody => ?_⟩
  · rcases hstaging.staged _ _ hlookup with hold | hvalid
    · exact h.staged hold
    · exact hvalid
  · obtain ⟨hid, conflict, hconflict, hresolution⟩ := h.rows (houtbox ▸ hrow) hbody
    exact ⟨hid, conflict, hconflicts ▸ hconflict, hresolution⟩

theorem ConflictRecord.Sound.manual {message : WorkspaceConflictCreatedMessage}
    (workspaceId : message.workspaceId = Env.workspaceId) (valid : message.validate.isOk = true) :
    ConflictRecord.Sound message.conflictId ⟨message, .manual, none, none⟩ :=
  ⟨rfl, workspaceId, valid, by simp, rfl, rfl⟩

/-! ## Storing a conflict -/

theorem putConflict_sound {conflict : ConflictRecord} {db : Db}
    (hconflicts : ∀ {conflictId stored}, db.conflicts.lookup conflictId = some stored → stored.Sound conflictId)
    (hstaged : ∀ {conflictId staged}, db.streamConflicts.lookup conflictId = some staged → staged.Valid conflictId)
    (hsound : conflict.created.workspaceId = Env.workspaceId → conflict.created.validate.isOk = true →
      conflict.Sound conflict.created.conflictId)
    (hrows : ∀ {operationId row request}, db.outbox.lookup operationId = some row →
      row.body = .conflictResolution request → operationId = request.operationId ∧
        (request.conflictId = conflict.created.conflictId ∧ conflict.resolution = some request ∨
          request.conflictId ≠ conflict.created.conflictId ∧
            ∃ stored, db.conflicts.lookup request.conflictId = some stored ∧ stored.resolution = some request)) :
    wp (putConflict conflict) (fun _ => Db.ConflictsSound) (fun _ _ => True) db := by
  unfold putConflict
  split
  · trivial
  rename_i hworkspace
  split
  · trivial
  rename_i hvalid
  refine ⟨fun {conflictId stored} hlookup => ?_, hstaged, fun {operationId row request} hrow hbody => ?_⟩
  · rcases (Table.lookup_insert_iff stored).mp hlookup with ⟨rfl, rfl⟩ | ⟨-, hold⟩
    · exact hsound (not_ne_iff.mp hworkspace) (Bool.eq_true_of_not_eq_false hvalid)
    · exact hconflicts hold
  · obtain ⟨hid, ⟨hsame, hresolution⟩ | ⟨hother, stored, hstored, hresolution⟩⟩ := hrows hrow hbody
    · exact ⟨hid, conflict, by rw [hsame]; simp, hresolution⟩
    · exact ⟨hid, stored, (AList.lookup_insert_ne hother).trans hstored, hresolution⟩

theorem putConflict_sound_of_noResolution {message : WorkspaceConflictCreatedMessage} {db : Db}
    (h : db.ConflictsSound) (hrows : db.noResolution message.conflictId) :
    wp (putConflict ⟨message, .manual, none, none⟩) (fun _ => Db.ConflictsSound) (fun _ _ => True) db := by
  refine putConflict_sound h.conflicts h.staged .manual fun hrow hbody => ?_
  obtain ⟨hid, hstored⟩ := h.rows hrow hbody
  exact ⟨hid, .inr ⟨hrows _ _ _ hrow hbody, hstored⟩⟩

theorem Db.ConflictsSound.noResolution_of_erase {db : Db} {conflictId : ConflictId} {conflict : ConflictRecord}
    (h : db.ConflictsSound) (hconflict : db.conflicts.lookup conflictId = some conflict) :
    wp (forTx (conflict.resolution.map (·.operationId)).toList removeOutbox)
      (fun _ t => t.noResolution conflictId) (fun _ _ => True) db := by
  have hrow : ∀ {operationId row request}, db.outbox.lookup operationId = some row →
      row.body = .conflictResolution request → request.conflictId = conflictId →
        conflict.resolution = some request ∧ operationId = request.operationId := by
    intro operationId row request hrow hbody hid
    obtain ⟨hoperation, stored, hstored, hresolution⟩ := h.rows hrow hbody
    rw [hid, hconflict] at hstored
    obtain rfl := Option.some.inj hstored
    exact ⟨hresolution, hoperation⟩
  cases hresolution : conflict.resolution with
  | none =>
    intro operationId row request hlookup hbody hid
    rw [(hrow hlookup hbody hid).1] at hresolution
    cases hresolution
  | some request =>
    intro operationId row other hlookup hbody hid
    obtain ⟨hne, hold⟩ := Table.lookup_erase_iff.mp hlookup
    obtain ⟨hsame, hoperation⟩ := hrow hold hbody hid
    rw [hsame] at hresolution
    obtain rfl := Option.some.inj hresolution
    exact hne hoperation

end

/-! ## Programs that leave the conflicts alone -/

section

variable {α β : Type}

theorem ShedsTx.wp_bind {P : Db → Prop} (hP : ∀ {a b}, P a → Sheds a b → P b) {m : TxM α} {f : α → TxM β}
    {Q : β → Db → Prop} {db : Db} (hm : ShedsTx m) (h : P db) (hf : ∀ a t, P t → wp (f a) Q (fun _ _ => True) t) :
    wp (m >>= f) Q (fun _ _ => True) db := by
  rw [Prog.wp_bind]
  exact wp_mono (hm db) (fun a t ht => hf a t (hP h ht)) (fun _ _ _ => trivial)

variable [Env]

theorem ShedsTx.sound {m : TxM α} {db : Db} (hm : ShedsTx m) (h : db.ConflictsSound) :
    wp m (fun _ => Db.ConflictsSound) (fun _ _ => True) db :=
  wp_mono (hm db) (fun _ _ ht => h.sheds ht) (fun _ _ _ => trivial)

variable {F : Type}

def Engine.Sound (engine : Engine F) : Prop := engine.db.ConflictsSound

theorem Engine.Sound.of_db {s t : Engine F} (h : s.Sound) (ht : t.db = s.db) : t.Sound := by
  unfold Engine.Sound
  rw [ht]
  exact h

theorem ShedsM.sound {m : EngineM F α} (hm : ShedsM m) : Maintains Engine.Sound m :=
  fun s h => wp_mono (hm s) (fun _ _ ht => h.sheds ht) (fun _ _ ht => h.sheds ht)

theorem wp_transaction_sound {body : TxM α} {s : Engine F} (h : s.Sound)
    (hbody : wp body (fun _ => Db.ConflictsSound) (fun _ _ => True) s.db) :
    wp (transaction body) (fun _ => Engine.Sound) (fun _ => Engine.Sound) s :=
  wp_transaction_of hbody fun _ => h

/-! ## A new generation of a conflict -/

omit [Env] in
theorem applyConflictGenerationReplacement_sheds (plan : ConflictGenerationReplacementPlan) :
    ShedsTx (applyConflictGenerationReplacement plan) :=
  .bind (.removeOutbox _) fun _ => .bind (.forTx .removeLocalIntent) fun _ =>
    .forTx fun row => .putLocalIntent row.1 row.2 _

theorem openConflict_sound {message : WorkspaceConflictCreatedMessage} {s : Engine F} (h : s.Sound)
    (absent : s.db.conflicts.lookup message.conflictId = none) :
    wp (openConflict message) (fun _ => Engine.Sound) (fun _ => Engine.Sound) s := by
  refine wp_transaction_sound h (putConflict_sound_of_noResolution h ?_)
  intro operationId row request hrow hbody hid
  obtain ⟨-, conflict, hconflict, -⟩ := h.rows hrow hbody
  rw [hid, absent] at hconflict
  cases hconflict

variable [Filesystem F]

theorem replaceConflict_sound {message : WorkspaceConflictCreatedMessage} {existing : ConflictRecord} {s : Engine F}
    (h : s.Sound) (stored : s.db.conflicts.lookup message.conflictId = some existing) :
    wp (replaceConflict message existing) (fun _ => Engine.Sound) (fun _ => Engine.Sound) s := by
  unfold replaceConflict
  split
  · split
    · exact h
    · exact h
  rw [wp_bind]
  refine wp_readDb (fun prior hprior => ?_) fun _ => h
  rw [(h.conflicts stored).decoded] at hprior
  obtain rfl := Except.ok.inj hprior
  refine Keeps.wp_bind (π := Engine.db) (conflictGenerationReplacementPlan_keeps _ _) (fun plan t ht => ?_)
    (fun _ t ht => h.of_db ht)
  have hsound : t.Sound := h.of_db ht
  rw [wp_bind, wp_get]
  dsimp only
  split
  · exact hsound
  refine wp_transaction_sound hsound ?_
  rw [← ht] at stored
  refine wp_seq_any (wp_and (hsound.noResolution_of_erase stored) (ShedsTx.sound (.forTx .removeOutbox) hsound))
    fun _ db hdb => ?_
  refine ShedsTx.wp_bind (P := fun db => db.noResolution message.conflictId ∧ db.ConflictsSound)
    (fun hP hsheds => ⟨hP.1.sheds hsheds, hP.2.sheds hsheds⟩) (.forTx applyConflictGenerationReplacement_sheds) hdb
    (fun _ db hdb => ?_)
  exact putConflict_sound_of_noResolution hdb.2 hdb.1

/-! ## Settling a conflict -/

/-- The resolutions of the conflict in the outbox are among those the cleanup removes. -/
def Cleans (conflictId : ConflictId) (cleanup : ConflictCleanup) (db : Db) : Prop :=
  cleanup.removeConflict = true → ∀ operationId row request, db.outbox.lookup operationId = some row →
    row.body = .conflictResolution request → request.conflictId = conflictId →
      cleanup.resolutionOperationId = some operationId

omit [Env] in
theorem Cleans.sheds {a b : Db} {conflictId : ConflictId} {cleanup : ConflictCleanup} (h : Cleans conflictId cleanup a)
    (hsheds : Sheds a b) : Cleans conflictId cleanup b := by
  intro hremove operationId row request hrow hbody hid
  obtain ⟨old, hold, holdBody⟩ := hsheds.rows hrow hbody
  exact h hremove _ _ _ hold holdBody hid

theorem cleanupConflictResolution_sound {conflictId : ConflictId} {cleanup : ConflictCleanup} {db : Db}
    (h : db.ConflictsSound) (hcleans : Cleans conflictId cleanup db) :
    wp (cleanupConflictResolution conflictId cleanup) (fun _ => Db.ConflictsSound) (fun _ _ => True) db := by
  unfold cleanupConflictResolution
  rw [wp_bind]
  have hgone : wp (forTx cleanup.resolutionOperationId.toList removeOutbox)
      (fun _ t => cleanup.removeConflict = true → t.noResolution conflictId) (fun _ _ => True) db := by
    cases hoperation : cleanup.resolutionOperationId with
    | none =>
      intro hremove operationId row request hrow hbody hid
      have hfound := hcleans hremove _ _ _ hrow hbody hid
      rw [hoperation] at hfound
      cases hfound
    | some operation =>
      intro hremove operationId row request hrow hbody hid
      obtain ⟨hne, hold⟩ := Table.lookup_erase_iff.mp hrow
      have hfound := hcleans hremove _ _ _ hold hbody hid
      rw [hoperation] at hfound
      exact hne (Option.some.inj hfound).symm
  refine wp_mono (wp_and hgone (ShedsTx.sound (.forTx .removeOutbox) h)) (fun _ db hdb => ?_) (fun _ _ _ => trivial)
  refine ShedsTx.wp_bind
    (P := fun db => (cleanup.removeConflict = true → db.noResolution conflictId) ∧ db.ConflictsSound)
    (fun hP hsheds => ⟨fun hremove => (hP.1 hremove).sheds hsheds, hP.2.sheds hsheds⟩) (.forTx .removeOutbox) hdb
    (fun _ db hdb => ?_)
  rw [wp_onlyIf]
  refine ⟨fun hremove => ?_, fun _ => hdb.2⟩
  have hnone := hdb.1 hremove
  rw [removeConflict, wp_modify]
  refine ⟨fun hlookup => hdb.2.conflicts (Table.lookup_erase_iff.mp hlookup).2, hdb.2.staged, fun hrow hbody => ?_⟩
  obtain ⟨hid, conflict, hconflict, hresolution⟩ := hdb.2.rows hrow hbody
  exact ⟨hid, conflict, Table.lookup_erase_iff.mpr ⟨hnone _ _ _ hrow hbody, hconflict⟩, hresolution⟩

theorem conflictCleanupOperations_cleans {db : Db} {message : WorkspaceConflictResolvedMessage}
    {cleanup : ConflictCleanup} (h : db.ConflictsSound) (hcleanup : db.conflictCleanupOperations message = .ok cleanup) :
    Cleans message.conflictId cleanup db ∧
      (cleanup.preserveNewerGeneration = true → cleanup.removeConflict = false) := by
  unfold Db.conflictCleanupOperations at hcleanup
  cases hwitness : db.validateLocalConflictResolutionOperation message with
  | error e =>
    rw [hwitness] at hcleanup
    cases hcleanup
  | ok witness =>
    rw [hwitness] at hcleanup
    simp only [bind, Except.bind] at hcleanup
    split at hcleanup
    · cases hcleanup
      exact ⟨fun hremove => absurd hremove Bool.false_ne_true, fun _ => rfl⟩
    rename_i conflict hconflict
    split at hcleanup
    · cases hcleanup
      exact ⟨fun hremove => absurd hremove Bool.false_ne_true, fun _ => rfl⟩
    rw [(h.conflicts hconflict).decoded] at hcleanup
    simp only at hcleanup
    split at hcleanup
    · cases hcleanup
    split at hcleanup
    · cases hcleanup
    split at hcleanup
    · cases hcleanup
    cases hcleanup
    refine ⟨fun _ operationId row request hrow hbody hid => ?_, fun hnewer => by cases hnewer⟩
    obtain ⟨hoperation, stored, hstored, hresolution⟩ := h.rows hrow hbody
    rw [hid, hconflict] at hstored
    obtain rfl := Option.some.inj hstored
    simp [hresolution, hoperation]

omit [Env] in
theorem cleanupConflictResolution_sheds {conflictId : ConflictId} {cleanup : ConflictCleanup}
    (hkeep : cleanup.removeConflict = false) : ShedsTx (cleanupConflictResolution conflictId cleanup) := by
  refine .bind (.forTx .removeOutbox) fun _ => .bind (.forTx .removeOutbox) fun _ => ?_
  rw [hkeep]
  exact .pure _

omit [Env] in
theorem recordConflictAppliedOperation_sheds (originClientId : ClientId) (operationId : OperationId)
    (revision : WorkspaceRevision) (bodyDigest : WorkspaceConflictResolvedMessage) :
    ShedsTx (recordConflictAppliedOperation originClientId operationId revision bodyDigest) :=
  .of_tables (recordAppliedOperation_outward _)

omit [Filesystem F] in
theorem commitConflictResolvedWithJournal_sound (message : WorkspaceConflictResolvedMessage)
    (status : StreamItemStatus) (source : ConflictResolutionSource) (applyId : Option ApplyId) :
    Maintains Engine.Sound (commitConflictResolvedWithJournal (F := F) message status source applyId) := by
  intro s h
  unfold commitConflictResolvedWithJournal
  rw [wp_bind]
  refine wp_readDb (fun _ _ => ?_) fun _ => h
  rw [wp_bind]
  refine wp_readDb (fun cleanup hcleanup => ?_) fun _ => h
  have hcleans := (conflictCleanupOperations_cleans h hcleanup).1
  refine wp_transaction_sound h ?_
  refine ShedsTx.wp_bind (P := fun db => db.ConflictsSound ∧ Cleans message.conflictId cleanup db)
    (fun hP hsheds => ⟨hP.1.sheds hsheds, hP.2.sheds hsheds⟩) (.onlyIf (.putPathState _) _) ⟨h, hcleans⟩ fun _ db hdb => ?_
  refine ShedsTx.wp_bind (P := fun db => db.ConflictsSound ∧ Cleans message.conflictId cleanup db)
    (fun hP hsheds => ⟨hP.1.sheds hsheds, hP.2.sheds hsheds⟩) (recordConflictAppliedOperation_sheds _ _ _ _) hdb
    fun _ db hdb => ?_
  refine wp_seq (cleanupConflictResolution_sound hdb.1 hdb.2) fun _ db hdb => ?_
  exact ShedsTx.sound (.bind (.of_tables (commitResolutionSource_content _ _ _ _)) fun _ => .commitJournal _) hdb

omit [Filesystem F] in
theorem commitSupersededConflictResolution_sheds {message : WorkspaceConflictResolvedMessage}
    {cleanup : ConflictCleanup} (hkeep : cleanup.removeConflict = false) :
    ShedsM (commitSupersededConflictResolution (F := F) message cleanup) :=
  .transaction (.bind (recordConflictAppliedOperation_sheds _ _ _ _) fun _ =>
    .bind (cleanupConflictResolution_sheds hkeep) fun _ =>
      .bind (.of_tables (putStreamConflictResolved_content _ _)) fun _ => .pure _)

omit [Env] in
omit [Filesystem F] in
theorem commitSupersededLiveConflictResolution_sheds {message : WorkspaceConflictResolvedMessage}
    {cleanup : ConflictCleanup} (hkeep : cleanup.removeConflict = false) :
    ShedsM (commitSupersededLiveConflictResolution (F := F) message cleanup) :=
  .bind (.reads .get) fun _ => .transaction (.bind (recordConflictAppliedOperation_sheds _ _ _ _) fun _ =>
    .bind (cleanupConflictResolution_sheds hkeep) fun _ =>
      .bind (.onlyIf (.of_tables (setLastAppliedRevision_content _)) _) fun _ =>
        .onlyIf (.of_tables (setPendingAck_content _)) _)

omit [Env] in
theorem map_prod_eq_ok {ε α β : Type} {b b' : β} {a : α} {result : Except ε α}
    (h : (b, ·) <$> result = .ok (b', a)) : b = b' ∧ result = .ok a := by
  cases result with
  | error e => cases h
  | ok a' =>
    cases h
    exact ⟨rfl, rfl⟩

theorem replayCleanup_planned {db : Db} {message : WorkspaceConflictResolvedMessage} {cleanup : ConflictCleanup}
    (h : db.replayCleanup message = .ok (true, cleanup)) : db.conflictCleanupOperations message = .ok cleanup := by
  unfold Db.replayCleanup at h
  dsimp only at h
  split at h
  · exact (map_prod_eq_ok h).2
  · cases (map_prod_eq_ok h).1

omit [Filesystem F] in
theorem settleExactConflictResolutionReplay_sound (message : WorkspaceConflictResolvedMessage)
    (source : ConflictResolutionSource) :
    Maintains Engine.Sound (settleExactConflictResolutionReplay (F := F) message source) := by
  intro s h
  unfold settleExactConflictResolutionReplay
  rw [wp_bind]
  refine wp_readDb (fun settled hsettled => ?_) fun _ => h
  obtain ⟨matchingConflict, cleanup⟩ := settled
  simp only [wp_bind, wp_get]
  refine wp_transaction_sound h ?_
  have hrest : ∀ db : Db, db.ConflictsSound → wp (do
      Prog.onlyIf (!matchingConflict) (forTx cleanup.resolutionOperationId.toList removeOutbox)
      settleResolutionSource message s.db.cursor source) (fun _ => Db.ConflictsSound) (fun _ _ => True) db :=
    fun db hdb => ShedsTx.sound (.bind (.onlyIf (.forTx .removeOutbox) _) fun _ =>
      .of_tables (settleResolutionSource_content _ _ _)) hdb
  rw [wp_bind, wp_onlyIf]
  refine ⟨fun hmatching => ?_, fun _ => hrest _ h⟩
  subst hmatching
  have hcleanup := replayCleanup_planned hsettled
  exact wp_mono (cleanupConflictResolution_sound h (conflictCleanupOperations_cleans h hcleanup).1)
    (fun _ db hdb => hrest db hdb) (fun _ _ h => h)

theorem applyConflictResolvedFrom_sound (message : WorkspaceConflictResolvedMessage)
    (source : ConflictResolutionSource) :
    Maintains Engine.Sound (applyConflictResolvedFrom (F := F) message source) := by
  intro s h
  unfold applyConflictResolvedFrom
  rw [wp_bind]
  refine wp_readDb (fun receiptMatch _ => ?_) fun _ => h
  split
  · exact settleExactConflictResolutionReplay_sound message source s h
  rw [wp_bind]
  refine wp_readDb (fun cleanup hcleanup => ?_) fun _ => h
  simp only [wp_bind, wp_get]
  have reads : ∀ {α : Type} {m : EngineM F α}, Keeps Engine.exceptJournals m → Maintains Engine.Sound m :=
    fun hm => (ShedsM.reads hm).sound
  split
  · rename_i hnewer
    have hkeep := (conflictCleanupOperations_cleans h hcleanup).2 hnewer
    cases source with
    | stream => exact (commitSupersededConflictResolution_sheds hkeep).sound s h
    | live => exact (commitSupersededLiveConflictResolution_sheds hkeep).sound s h
  split
  · exact h
  refine Maintains.bind (reads (inspect_keeps _)) (fun observed => ?_) s h
  refine .bind (reads (observedMatchesPost_keeps _ _)) fun postMatches => ?_
  split
  · exact commitConflictResolvedWithJournal_sound _ _ _ _
  refine .bind (reads (baselineMatchesObserved_keeps _ _)) fun baselineMatches => ?_
  split
  · exact .bind (reads (desiredFromCurrent_keeps _)) fun desired =>
      .bind (ShedsM.queueDesiredWithStates _ _).sound fun _ => commitConflictResolvedWithJournal_sound _ _ _ _
  refine .bind (reads (operationForState_keeps _ _)) fun operation => ?_
  cases operation with
  | none => exact commitConflictResolvedWithJournal_sound _ _ _ _
  | some operation =>
    refine .bind (reads ?_) fun streamId => .bind (reads (applyWithJournal_keeps _ _ _ _ _ _ _)) fun receipt =>
      .bind (commitConflictResolvedWithJournal_sound _ _ _ _) fun _ => reads (finishApplyJournal_keeps _)
    unfold resolutionStreamId
    grind

end

end Lumio.Sync
