import Lumio.Sync.Conflicts.Table

/-!
# The conflicts after every step

Queueing a resolution, its answers and the end of a stream keep the store sound as well, so the conflicts can
be listed in every state the engine reaches.
-/

namespace Lumio.Sync

open Lumio.Protocol Lumio.Fs Prog

/-! ## The end of a stream -/

structure ConflictsReplaced (before after : Db) : Prop where
  staged : ∀ {conflictId staged}, before.streamConflicts.lookup conflictId = some staged →
    ∃ conflict, after.conflicts.lookup conflictId = some conflict ∧ conflict.created = staged.created
  superseded : ∀ {conflictId existing staged request operationId row},
    before.conflicts.lookup conflictId = some existing → before.streamConflicts.lookup conflictId = some staged →
      resolutionOvertaken existing staged = true → existing.resolution = some request →
        after.outbox.lookup operationId = some row → row.body ≠ .conflictResolution request
  dropped : ∀ {conflictId existing}, before.conflicts.lookup conflictId = some existing →
    before.streamConflicts.lookup conflictId = none → existing.resolution = none →
      after.conflicts.lookup conflictId = none
  kept : ∀ {conflictId existing}, before.conflicts.lookup conflictId = some existing →
    before.streamConflicts.lookup conflictId = none → existing.resolution.isSome →
      after.conflicts.lookup conflictId = some { existing with status := .refreshRequired }

/-- The row of a conflict after the staged conflicts have taken the place of the stored ones. -/
def Db.authoritativeConflict (db : Db) (conflictId : ConflictId) : Option ConflictRecord :=
  match db.streamConflicts.lookup conflictId, db.conflicts.lookup conflictId with
  | some staged, some existing => some (replacedConflict existing staged)
  | some staged, none => some ⟨staged.created, .manual, none, none⟩
  | none, some existing => if existing.resolution.isSome then some { existing with status := .refreshRequired } else none
  | none, none => none

def Db.overtakesRow (db : Db) (row : OutboxRecord) : Bool :=
  db.conflicts.values.any fun existing =>
    (db.streamConflicts.lookup existing.created.conflictId).any fun staged =>
      resolutionOvertaken existing staged &&
        existing.resolution.any fun resolution => row.body = .conflictResolution resolution

theorem replaceAuthoritativeConflicts_spec (db : Db) :
    wp replaceAuthoritativeConflicts
      (fun _ after => (∀ conflictId, after.conflicts.lookup conflictId = db.authoritativeConflict conflictId) ∧
        (∀ operationId row, after.outbox.lookup operationId = some row ↔
          db.outbox.lookup operationId = some row ∧ db.overtakesRow row = false) ∧
        after.streamConflicts = db.streamConflicts ∧
        ∀ conflictId existing staged, db.conflicts.lookup conflictId = some existing →
          db.streamConflicts.lookup existing.created.conflictId = some staged →
            existing.created.conflictRevision = staged.created.conflictRevision → existing.created = staged.created)
      (fun _ _ => True) db := by
  simp only [replaceAuthoritativeConflicts, wp_bind, wp_get]
  split
  · trivial
  rename_i hchanged
  refine ⟨fun conflictId => ?_, fun operationId row => ?_, rfl, fun conflictId existing staged hexisting hstaged hrevision => ?_⟩
  · refine (Table.lookup_foldl_insert (p := fun id => (db.conflicts.lookup id).isSome)
      (f := fun staged : StreamConflictRecord => ConflictRecord.mk staged.created .manual none none)
      db.streamConflicts.nodupKeys _).trans ?_
    rw [show db.streamConflicts.entries.dlookup conflictId = db.streamConflicts.lookup conflictId from rfl]
    unfold Db.authoritativeConflict
    have hkept : ∀ {table : Table ConflictId ConflictRecord} {p : ConflictId → ConflictRecord → Bool}
        {conflict : ConflictRecord}, table.lookup conflictId = some conflict → p conflictId conflict = true →
          (table.keep p).lookup conflictId = some conflict := fun h hp => Table.lookup_keep.mpr ⟨h, hp⟩
    cases hstaged : db.streamConflicts.lookup conflictId with
    | some staged =>
      cases hexisting : db.conflicts.lookup conflictId with
      | none => simp
      | some existing =>
        simp only [Option.isSome_some, if_true]
        refine hkept (Table.lookup_mapRows.mpr ⟨existing, hexisting, ?_⟩) (by simp [hstaged])
        simp only [hstaged]
    | none =>
      cases hexisting : db.conflicts.lookup conflictId with
      | none =>
        simp only
        rw [Option.eq_none_iff_forall_not_mem]
        intro conflict hconflict
        obtain ⟨hmapped, -⟩ := Table.lookup_keep.mp hconflict
        obtain ⟨existing, hstored, -⟩ := Table.lookup_mapRows.mp hmapped
        rw [hexisting] at hstored
        cases hstored
      | some existing =>
        simp only
        split
        · rename_i hresolution
          refine hkept (Table.lookup_mapRows.mpr ⟨existing, hexisting, ?_⟩) (by simpa using Or.inr hresolution)
          simp only [hstaged, hresolution, if_true]
        · rename_i hresolution
          rw [Option.eq_none_iff_forall_not_mem]
          intro conflict hconflict
          obtain ⟨hmapped, hp⟩ := Table.lookup_keep.mp hconflict
          obtain ⟨stored, hstored, rfl⟩ := Table.lookup_mapRows.mp hmapped
          rw [hexisting] at hstored
          obtain rfl := Option.some.inj hstored
          simp [hstaged, hresolution] at hp
  · refine Table.lookup_keep.trans ?_
    simp only [Db.overtakesRow, Bool.not_eq_true']
  · by_contra hne
    apply hchanged
    rw [List.any_eq_true]
    refine ⟨existing, Table.mem_values_iff.mpr ⟨conflictId, hexisting⟩, ?_⟩
    simp [hstaged, hrevision, hne]

section

variable [Env]

omit [Env] in
theorem overtakesRow_of_resolution {db : Db} {conflictId : ConflictId} {existing : ConflictRecord}
    {staged : StreamConflictRecord} {request : WorkspaceConflictResolvedRequest} {row : OutboxRecord}
    (hkeyed : existing.created.conflictId = conflictId) (hexisting : db.conflicts.lookup conflictId = some existing)
    (hstaged : db.streamConflicts.lookup conflictId = some staged)
    (hovertaken : resolutionOvertaken existing staged = true) (hresolution : existing.resolution = some request)
    (hbody : row.body = .conflictResolution request) : db.overtakesRow row = true := by
  refine List.any_eq_true.mpr ⟨existing, Table.mem_values_iff.mpr ⟨conflictId, hexisting⟩, ?_⟩
  rw [hkeyed, hstaged]
  simp [hovertaken, hresolution, hbody]

omit [Env] in
theorem replaceAuthoritativeConflicts_replaces {db : Db}
    (hkeyed : ∀ {conflictId existing}, db.conflicts.lookup conflictId = some existing →
      existing.created.conflictId = conflictId) :
    wp replaceAuthoritativeConflicts (fun _ after => ConflictsReplaced db after) (fun _ _ => True) db := by
  refine wp_mono (replaceAuthoritativeConflicts_spec db) (fun _ after hafter => ?_) (fun _ _ h => h)
  obtain ⟨hconflicts, houtbox, -, -⟩ := hafter
  refine ⟨fun {conflictId staged} hstaged => ?_, ?_, ?_, ?_⟩
  · rw [hconflicts, Db.authoritativeConflict, hstaged]
    cases db.conflicts.lookup conflictId with
    | none => exact ⟨_, rfl, rfl⟩
    | some existing => exact ⟨_, rfl, rfl⟩
  · intro conflictId existing staged request operationId row hexisting hstaged hovertaken hresolution hrow hbody
    have hkept := ((houtbox operationId row).mp hrow).2
    rw [overtakesRow_of_resolution (hkeyed hexisting) hexisting hstaged hovertaken hresolution hbody] at hkept
    cases hkept
  · intro conflictId existing hexisting hstaged hresolution
    simp [hconflicts, Db.authoritativeConflict, hstaged, hexisting, hresolution]
  · intro conflictId existing hexisting hstaged hresolution
    simp [hconflicts, Db.authoritativeConflict, hstaged, hexisting, hresolution]

theorem ConflictRecord.Sound.restatus {conflictId : ConflictId} {conflict : ConflictRecord}
    (h : conflict.Sound conflictId) {status : ConflictStatus}
    (hpending : conflict.resolution.isSome ↔ status = .resolving ∨ status = .refreshRequired) :
    ConflictRecord.Sound conflictId { conflict with status } :=
  ⟨h.conflictId, h.workspaceId, h.valid, hpending, h.candidate, h.decoded⟩

theorem replacedConflict_sound {conflictId : ConflictId} {existing : ConflictRecord} {staged : StreamConflictRecord}
    (hexisting : existing.Sound conflictId) (hstaged : staged.Valid conflictId)
    (hsame : existing.created.conflictRevision = staged.created.conflictRevision →
      existing.created = staged.created) : (replacedConflict existing staged).Sound conflictId := by
  cases hovertaken : resolutionOvertaken existing staged with
  | true =>
    have hmanual : replacedConflict existing staged = ⟨staged.created, .manual, none, none⟩ := by
      simp [replacedConflict, hovertaken]
    rw [hmanual, ← hstaged.conflictId]
    exact .manual hstaged.workspaceId hstaged.valid
  | false =>
    simp only [resolutionOvertaken, Bool.or_eq_false_iff, decide_eq_false_iff_not, not_not] at hovertaken
    have hstatus : replacedConflict existing staged =
        { existing with status := if existing.resolution.isNone then .manual else .resolving } := by
      simp [replacedConflict, resolutionOvertaken, hovertaken.2, hsame hovertaken.1]
    rw [hstatus]
    apply hexisting.restatus
    cases existing.resolution <;> simp

theorem replaceAuthoritativeConflicts_sound {db : Db} (h : db.ConflictsSound) :
    wp replaceAuthoritativeConflicts (fun _ => Db.ConflictsSound) (fun _ _ => True) db := by
  refine wp_mono (replaceAuthoritativeConflicts_spec db) (fun _ after hafter => ?_) (fun _ _ h => h)
  obtain ⟨hconflicts, houtbox, hstagedSame, hsame⟩ := hafter
  refine ⟨fun {conflictId conflict} hlookup => ?_, fun hlookup => h.staged (hstagedSame ▸ hlookup), ?_⟩
  · rw [hconflicts, Db.authoritativeConflict] at hlookup
    split at hlookup
    · rename_i staged existing hstaged hexisting
      obtain rfl := Option.some.inj hlookup
      have hsound := h.conflicts hexisting
      exact replacedConflict_sound hsound (h.staged hstaged)
        (hsame conflictId existing staged hexisting (by rw [hsound.conflictId]; exact hstaged))
    · rename_i staged hstaged hnone
      obtain rfl := Option.some.inj hlookup
      have hvalid := h.staged hstaged
      rw [← hvalid.conflictId]
      exact .manual hvalid.workspaceId hvalid.valid
    · rename_i existing hstaged hexisting
      split at hlookup
      · rename_i hresolution
        obtain rfl := Option.some.inj hlookup
        exact (h.conflicts hexisting).restatus (by simp [hresolution])
      · cases hlookup
    · cases hlookup
  · -- a resolution that stays in the outbox is neither overtaken nor that of a dropped conflict
    intro operationId row request hrow hbody
    obtain ⟨hold, hkept⟩ := (houtbox operationId row).mp hrow
    obtain ⟨hoperation, existing, hexisting, hresolution⟩ := h.rows hold hbody
    refine ⟨hoperation, ?_⟩
    rw [hconflicts, Db.authoritativeConflict, hexisting]
    cases hstaged : db.streamConflicts.lookup request.conflictId with
    | none =>
      refine ⟨{ existing with status := .refreshRequired }, ?_, hresolution⟩
      simp [hresolution]
    | some staged =>
      refine ⟨replacedConflict existing staged, rfl, ?_⟩
      have hovertaken : resolutionOvertaken existing staged = false := by
        by_contra hovertaken
        rw [overtakesRow_of_resolution (h.conflicts hexisting).conflictId hexisting hstaged
          (Bool.eq_true_of_not_eq_false hovertaken) hresolution hbody] at hkept
        cases hkept
      simp [replacedConflict, hovertaken, hresolution]

theorem wp_staging_sound {α : Type} {m : TxM α} {db : Db} (hm : Moves Staging m) (h : db.ConflictsSound) :
    wp m (fun _ => Db.ConflictsSound) (fun _ _ => True) db :=
  wp_mono (hm db) (fun _ _ ht => h.staging ht) (fun _ _ _ => trivial)

theorem finishStreamTx_sound (active : StreamState) (plans : List ConflictGenerationReplacementPlan) {db : Db}
    (h : db.ConflictsSound) :
    wp (finishStreamTx active plans) (fun _ => Db.ConflictsSound) (fun _ _ => True) db := by
  unfold finishStreamTx
  rw [wp_bind, wp_get]
  refine ShedsTx.wp_bind Db.ConflictsSound.sheds (.forTx applyConflictGenerationReplacement_sheds) h fun _ db h => ?_
  refine wp_seq (replaceAuthoritativeConflicts_sound h) fun _ db h => ?_
  have keeps : ∀ {m : TxM Unit}, Keeps Db.retained m → Moves Staging m := fun h => Moves.mono h fun _ _ => .of_retained
  refine wp_staging_sound ?_ h
  refine .bind Staging.trans (keeps (setLastAppliedRevision_content _)) fun _ =>
    .bind Staging.trans (keeps clearPendingSegmentAck_content) fun _ => ?_
  split
  · exact keeps (setPendingAck_content _)
  · exact clearStream_stages

variable {F : Type} [Filesystem F]

theorem finishStream_sound (active : StreamState) : Maintains Engine.Sound (finishStream (F := F) active) := by
  unfold finishStream
  refine .bind (ShedsM.reads authoritativeConflictGenerationReplacementPlans_keeps).sound fun plans => ?_
  exact fun s h => wp_transaction_sound h (finishStreamTx_sound active plans h)

/-! ## Resolutions -/

omit [Env] [Filesystem F] in
theorem contentHash_of_merged {request : WorkspaceConflictResolvedRequest} {created : WorkspaceConflictCreatedMessage}
    (hfits : (request.validateAgainst created).isOk = true) (hmerged : request.choice = .merged) :
    request.contentHash.isSome = true := by
  by_contra hnone
  have hinvalid : request.validate.isOk = false := by
    simp only [Bool.not_eq_true, Option.isSome_eq_false_iff] at hnone
    simp [WorkspaceConflictResolvedRequest.validate, hmerged, hnone, validationError, Except.isOk, Except.toBool]
  have hmisfit : (request.validateAgainst created).isOk = false := by
    unfold WorkspaceConflictResolvedRequest.validateAgainst
    rw [hmerged]
    simp only [bind, Except.bind, validationError]
    repeat' split
    all_goals first | rfl | exact hinvalid
  rw [hfits] at hmisfit
  cases hmisfit

theorem ConflictRecord.Sound.resolving {conflictId : ConflictId} {conflict : ConflictRecord}
    {request : WorkspaceConflictResolvedRequest} {candidateHash : Option WorkspaceContentHash}
    (h : conflict.Sound conflictId) (hworkspace : request.workspaceId = Env.workspaceId)
    (hclient : request.clientId = Env.clientId) (hid : request.conflictId = conflictId)
    (hfits : (request.validateAgainst conflict.created).isOk = true)
    (hcandidate : candidateHash = if request.choice = .merged then request.contentHash else none) :
    ConflictRecord.Sound conflictId ⟨conflict.created, .resolving, candidateHash, some request⟩ := by
  refine ⟨h.conflictId, h.workspaceId, h.valid, by simp, hcandidate, ?_⟩
  simp only [decodePendingResolution, hworkspace, h.workspaceId, hclient, hid, h.conflictId, hfits, ne_eq,
    not_true_eq_false, Bool.true_eq_false, or_self, if_false]
  by_cases hmerged : request.choice = .merged
  · obtain ⟨hash, hhash⟩ := Option.isSome_iff_exists.mp (contentHash_of_merged hfits hmerged)
    simp [hmerged, hcandidate, hhash]
  · simp [hmerged, hcandidate]

omit [Env] in
theorem candidateForRequest_wp (conflict : ConflictRecord) (request : WorkspaceConflictResolvedRequest)
    (s : Engine F) : wp (candidateForRequest conflict request)
      (fun candidate t => t = s ∧
        candidate = if request.choice = .merged then request.contentHash else conflict.candidateHash)
      (fun _ t => t = s) s := by
  unfold candidateForRequest
  split
  · split
    · rfl
    · rename_i hash hhash
      refine Keeps.wp_check (contentAvailable_keeps _ _) (fun available => ?_) fun _ => rfl
      split
      · exact ⟨rfl, hhash.symm⟩
      · rfl
  · exact ⟨rfl, rfl⟩

omit [Filesystem F] in
theorem enqueueConflictResolution_wp (request : WorkspaceConflictResolvedRequest) (createdAtMs : Int) (db : Db) :
    wp (enqueueConflictResolution request createdAtMs)
      (fun _ t => t.conflicts = db.conflicts ∧ t.streamConflicts = db.streamConflicts ∧
        ∀ {operationId row other}, t.outbox.lookup operationId = some row → row.body = .conflictResolution other →
          (operationId = request.operationId ∧ other = request) ∨ db.outbox.lookup operationId = some row)
      (fun _ _ => True) db := by
  have insert : ∀ row : OutboxRecord, row.body = .conflictResolution request →
      ∀ {operationId : OperationId} {after : OutboxRecord} {other : WorkspaceConflictResolvedRequest},
        (db.outbox.insert request.operationId row).lookup operationId = some after →
          after.body = .conflictResolution other →
            (operationId = request.operationId ∧ other = request) ∨ db.outbox.lookup operationId = some after := by
    intro row hrow operationId after other hlookup hbody
    rcases (Table.lookup_insert_iff after).mp hlookup with ⟨rfl, rfl⟩ | ⟨-, hold⟩
    · rw [hrow] at hbody
      cases hbody
      exact .inl ⟨rfl, rfl⟩
    · exact .inr hold
  unfold enqueueConflictResolution
  split
  · trivial
  split
  · trivial
  simp only [enqueueOutbox, wp_bind, wp_get]
  split
  · split
    · exact ⟨rfl, rfl, fun hrow _ => .inr hrow⟩
    split
    · trivial
    · exact ⟨rfl, rfl, insert _ rfl⟩
  · exact ⟨rfl, rfl, insert _ rfl⟩

theorem queueConflictResolution_sound (request : WorkspaceConflictResolvedRequest) :
    Maintains Engine.Sound (queueConflictResolution (F := F) request) := by
  intro s h
  unfold queueConflictResolution
  refine Keeps.wp_check ensureOpen_keeps (fun _ => ?_) fun _ => h
  refine Keeps.wp_check (requireValid_keeps _ _) (fun _ => ?_) fun _ => h
  rw [wp_bind]
  unfold validateIdentity
  split
  · exact h
  rename_i hidentity
  obtain ⟨hworkspace, hclient⟩ := not_or.mp hidentity
  rw [wp_pure, wp_bind, wp_get]
  dsimp only
  split
  · exact h
  rename_i conflict hconflict
  have hstored := h.conflicts hconflict
  rw [wp_bind]
  refine wp_readDb (fun stored hcheck => ?_) fun _ => h
  split
  · exact h
  rename_i hnew
  obtain ⟨hfits, hnone⟩ : (request.validateAgainst conflict.created).isOk = true ∧ conflict.resolution = none := by
    unfold Db.checkConflictResolution at hcheck
    split at hcheck
    · cases hcheck
    rename_i hfits
    refine ⟨by rw [hfits]; rfl, ?_⟩
    split at hcheck
    · split at hcheck
      · cases hcheck
      · cases hcheck
        exact absurd rfl hnew
    · rename_i hnone
      exact hnone
  rw [wp_bind]
  refine wp_mono (candidateForRequest_wp conflict request s) (fun candidate t ht => ?_) (fun _ t ht => ?_)
  · obtain ⟨rfl, hcandidate⟩ := ht
    have hnoCandidate : conflict.candidateHash = none := by
      rw [hstored.candidate, ConflictRecord.candidate, hnone]
      rfl
    rw [hnoCandidate] at hcandidate
    refine Keeps.wp_bind (π := Engine.db) storeNow_keeps (fun createdAtMs u hu => ?_) fun _ u hu => h.of_db hu
    refine wp_transaction_sound (h.of_db hu) ?_
    rw [hu]
    refine wp_seq (enqueueConflictResolution_wp request createdAtMs t.db) fun _ db hdb => ?_
    obtain ⟨hconflicts, hstagedSame, hrows⟩ := hdb
    refine putConflict_sound (fun hlookup => h.conflicts (hconflicts ▸ hlookup))
      (fun hlookup => h.staged (hstagedSame ▸ hlookup)) (fun _ _ => ?_) fun hrow hbody => ?_
    · rw [hstored.conflictId]
      exact hstored.resolving (not_ne_iff.mp hworkspace) (not_ne_iff.mp hclient) rfl hfits hcandidate
    · rw [hstored.conflictId, hconflicts]
      rcases hrows hrow hbody with ⟨rfl, rfl⟩ | hold
      · exact ⟨rfl, .inl ⟨rfl, rfl⟩⟩
      · obtain ⟨hoperation, other, hother, hresolution⟩ := h.rows hold hbody
        refine ⟨hoperation, .inr ⟨fun hsame => ?_, other, hother, hresolution⟩⟩
        rw [hsame, hconflict] at hother
        obtain rfl := Option.some.inj hother
        rw [hnone] at hresolution
        cases hresolution
  · rw [ht]
    exact h

omit [Filesystem F] in
theorem reads_sound {α : Type} {m : EngineM F α} (h : Keeps Engine.exceptJournals m) : Maintains Engine.Sound m :=
  (ShedsM.reads h).sound

theorem resolveConflict_sound (conflictId : ConflictId) (conflictRevision : WorkspaceConflictRevision)
    (choice : WorkspaceConflictChoice) :
    Maintains Engine.Sound (resolveConflict (F := F) conflictId conflictRevision choice) := by
  refine .bind (reads_sound ensureOpen_keeps) fun _ => .bind (reads_sound .get) fun engine => ?_
  dsimp only
  split
  · exact .throw _
  refine .bind (reads_sound (readDb_keeps _)) fun created => ?_
  split
  · exact .throw _
  split
  · exact .throw _
  · exact .throw _
  · exact .throw _
  · refine .bind (reads_sound (conflictResolutionProposal_keeps _ _)) fun proposal => ?_
    refine .bind (reads_sound (readDb_keeps _)) fun existing => ?_
    split
    · exact .throw _
    split
    · exact .bind (queueConflictResolution_sound _) fun _ => .pure _
    · exact .throw _
  · refine .bind (reads_sound (conflictResolutionProposal_keeps _ _)) fun proposal => ?_
    split
    · exact .throw _
    · exact .bind (reads_sound nextOperationId_keeps) fun _ => .bind (queueConflictResolution_sound _) fun _ => .pure _

omit [Filesystem F] in
theorem conflictResolutionAccepted_sound (message : WorkspaceConflictResolvedMessage) :
    Maintains Engine.Sound (conflictResolutionAccepted (F := F) message) :=
  .bind (reads_sound ensureOpen_keeps) fun _ => .bind (reads_sound (requireValid_keeps _ _)) fun _ =>
    .bind (reads_sound (requireThat_keeps _ _)) fun _ => .bind (reads_sound (readDb_keeps _)) fun _ =>
      (ShedsM.transaction (.forTx .removeOutbox)).sound

theorem setConflictStatus_sound {db : Db} {conflictId : ConflictId} {conflict : ConflictRecord} (h : db.ConflictsSound)
    (hconflict : db.conflicts.lookup conflictId = some conflict) (hresolution : conflict.resolution.isSome) :
    wp (setConflictStatus conflictId .refreshRequired) (fun _ => Db.ConflictsSound) (fun _ _ => True) db := by
  rw [setConflictStatus, wp_modify]
  refine ⟨fun {otherId other} hlookup => ?_, h.staged, fun {operationId row request} hrow hbody => ?_⟩
  · rw [Table.lookup_modify_eq] at hlookup
    split at hlookup
    · rename_i hid
      rw [hconflict] at hlookup
      obtain rfl := Option.some.inj hlookup
      rw [hid]
      exact (h.conflicts hconflict).restatus (by simp [hresolution])
    · exact h.conflicts hlookup
  · obtain ⟨hoperation, stored, hstored, hcarried⟩ := h.rows hrow hbody
    refine ⟨hoperation, ?_⟩
    rw [Table.lookup_modify_eq]
    split
    · rename_i hid
      rw [hid] at hstored
      rw [hstored]
      exact ⟨_, rfl, hcarried⟩
    · exact ⟨stored, hstored, hcarried⟩

omit [Filesystem F] in
theorem conflictResolutionRejected_sound (operationId : OperationId) (code : WorkspaceV2ErrorCode) :
    Maintains Engine.Sound (conflictResolutionRejected (F := F) operationId code) := by
  intro s h
  unfold conflictResolutionRejected
  refine Keeps.wp_check ensureOpen_keeps (fun _ => ?_) fun _ => h
  rw [wp_bind, wp_get]
  dsimp only
  split
  · split
    · exact h
    · exact h
  rename_i record hrecord
  rw [wp_bind]
  refine wp_readDb (fun request hrequest => ?_) fun _ => h
  have hbody : record.body = .conflictResolution request := by
    unfold outstandingResolution at hrequest
    split at hrequest
    · cases hrequest
    · rename_i hbody
      cases hrequest
      exact hbody
  have hstale : wp (do
      transaction (F := F) (do
        removeOutbox operationId
        setConflictStatus request.conflictId .refreshRequired)
      pure ([] : List SyncCommand)) (fun _ => Engine.Sound) (fun _ => Engine.Sound) s := by
    obtain ⟨-, conflict, hconflict, hresolution⟩ := h.rows hrecord hbody
    rw [wp_bind]
    refine wp_transaction_sound h ?_
    refine ShedsTx.wp_bind (P := fun db => db.ConflictsSound ∧ db.conflicts.lookup request.conflictId = some conflict)
      (fun hP hsheds => ⟨hP.1.sheds hsheds, by rw [hsheds.conflicts]; exact hP.2⟩) (.removeOutbox _) ⟨h, hconflict⟩
      fun _ db hdb => ?_
    exact setConflictStatus_sound hdb.1 hdb.2 (by rw [hresolution]; rfl)
  split
  · split
    · exact h
    · exact Maintains.bind (ShedsM.transaction (.setOutboxStage _ _)).sound (fun _ => .pure _) s h
  · exact hstale
  · exact hstale
  · exact h

/-! ## Every step -/

theorem Processing.sound (item : Processing) : Maintains Engine.Sound (item.run (F := F)) := by
  cases item with
  | accepted message => exact .bind (ShedsM.mutationAccepted message).sound fun _ => .pure _
  | rejected message => exact (ShedsM.mutationRejected message).sound
  | liveEvent message => exact (ShedsM.applyLiveEvent message).sound
  | streamEvent message => exact (ShedsM.applyEvent message).sound
  | snapshotEntry message => exact (ShedsM.applySnapshotEntry message).sound
  | resolution message source => exact applyConflictResolvedFrom_sound message source

theorem Work.sound {s : Engine F} (h : s.Sound) (work : Work) (ready : work.Ready s.db) : (final work.run s).Sound := by
  cases work with
  | process item => exact item.sound.final h
  | settle message source => exact (settleExactConflictResolutionReplay_sound message source).final h
  | supersede message cleanup =>
    have hkeep := (conflictCleanupOperations_cleans h ready.1).2 ready.2
    exact (commitSupersededLiveConflictResolution_sheds hkeep).sound.final h
  | reconcile => exact ShedsM.reconcileFullSnapshot.sound.final h
  | finish active => exact (finishStream_sound active).final h
  | materialize => exact ShedsM.materializeLocalIntents.sound.final h
  | replay limit =>
    exact (Maintains.bind (ShedsM.transaction (.pendingOutboxReplay limit)).sound fun _ => .pure _).final h
  | openConflict message => exact wp_final (openConflict_sound h ready)
  | replaceConflict message existing => exact wp_final (replaceConflict_sound h ready)
  | upload operationId => exact (ShedsM.blobUploaded operationId).sound.final h
  | record changes => exact (ShedsM.recordLocalChanges changes).sound.final h
  | reconnect => exact ShedsM.prepareConnectionAttempt.sound.final h
  | resolve conflictId conflictRevision choice =>
    exact (Maintains.bind (resolveConflict_sound conflictId conflictRevision choice) fun _ => .pure _).final h
  | queue request => exact (queueConflictResolution_sound request).final h
  | accept message => exact (conflictResolutionAccepted_sound message).final h
  | reject operationId code =>
    exact (Maintains.bind (conflictResolutionRejected_sound operationId code) fun _ => .pure _).final h

theorem Step.sound {Allowed : Engine F → Work → Prop} {s t : Engine F} (h : s.Sound) (step : Step Allowed s t) :
    t.Sound := by
  cases step with
  | stage hstaging => exact h.staging hstaging
  | work work ready => exact work.sound h ready

/-! ## Listing -/

section

omit [Filesystem F]

theorem ConflictRecord.Sound.view {conflictId : ConflictId} {conflict : ConflictRecord}
    (h : conflict.Sound conflictId) : ∃ view, conflictView conflictId conflict = .ok view := by
  have hcreated : decodeConflictCreated conflictId conflict = .ok conflict.created := by
    simp [decodeConflictCreated, h.valid, h.workspaceId, h.conflictId]
  have hstatus : ¬(decide (conflict.status = .resolving) ≠ conflict.resolution.isSome ∧
      conflict.status ≠ .refreshRequired) := by
    rintro ⟨hdiffers, hrefresh⟩
    apply hdiffers
    rw [Bool.eq_iff_iff, h.pending, decide_eq_true_eq]
    simp [hrefresh]
  simp only [conflictView, hcreated, h.decoded, bind, Except.bind, if_neg hstatus]
  exact ⟨_, rfl⟩

theorem conflictViews_ok {rows : List (ConflictId × ConflictRecord)} (h : ∀ row ∈ rows, row.2.Sound row.1) :
    ∃ views, conflictViews rows = .ok views := by
  induction rows with
  | nil => exact ⟨[], rfl⟩
  | cons row rest ih =>
    obtain ⟨view, hview⟩ := (h row (by simp)).view
    obtain ⟨views, hviews⟩ := ih fun other hother => h other (by simp [hother])
    refine ⟨view :: views, ?_⟩
    simp only [conflictViews, hview, hviews, bind, Except.bind]
    rfl

theorem listConflicts_ok {s : Engine F} (h : s.Sound) (hopen : s.closed = false) :
    ∃ views, listConflicts s = .ok views s := by
  obtain ⟨views, hviews⟩ : ∃ views, conflictViews s.db.conflictRows = .ok views := by
    apply conflictViews_ok
    intro row hrow
    rw [Db.conflictRows, List.mem_insertionSort, List.mem_map] at hrow
    obtain ⟨⟨conflictId, conflict⟩, hmem, rfl⟩ := hrow
    exact h.conflicts (Table.lookup_eq_some_iff.mpr hmem)
  refine ⟨views.insertionSort fun a b => a.conflictId ≤ b.conflictId, ?_⟩
  simp [listConflicts, ensureOpen, readDb, hopen, hviews, bind, EStateM.bind, get_apply,
    pure, EStateM.pure]

end

/-- Every run of a new engine is a run in single steps, and in every state those reach: the conflicts can be listed
while the engine is open; a conflict carries a resolution exactly while it is resolving or needs a refresh, with the
candidate of that resolution; a resolution in the outbox is the one its conflict carries; and when the conflicts of a
finished stream take the place of the stored ones, they do so as `ConflictsReplaced` says. -/
theorem conflict_table_consistent (files : F) (operationIds : List OperationId) (timestamps : List Int) :
    (∀ engine, Run (fun _ _ => True) (Engine.initial files operationIds timestamps) engine →
      AnySteps (Engine.initial files operationIds timestamps) engine) ∧
    ∀ engine, AnySteps (Engine.initial files operationIds timestamps) engine →
      (engine.closed = false → ∃ views, listConflicts engine = .ok views engine) ∧
      (∀ conflictId conflict, engine.db.conflicts.lookup conflictId = some conflict →
        (conflict.resolution.isSome ↔ conflict.status = .resolving ∨ conflict.status = .refreshRequired) ∧
          conflict.candidateHash = conflict.candidate) ∧
      (∀ operationId row request conflict, engine.db.outbox.lookup operationId = some row →
        row.body = .conflictResolution request → engine.db.conflicts.lookup request.conflictId = some conflict →
          conflict.resolution = some request) ∧
      ∀ before after, before.conflicts = engine.db.conflicts → before.streamConflicts = engine.db.streamConflicts →
        replaceAuthoritativeConflicts before = .ok () after → ConflictsReplaced before after := by
  refine ⟨fun engine run => run.steps, fun engine steps => ?_⟩
  have h : engine.Sound := Steps.invariant steps Db.ConflictsSound.initial fun _ _ h step => step.sound h
  refine ⟨listConflicts_ok h, fun conflictId conflict hconflict => ?_, ?_, ?_⟩
  · have hsound := h.conflicts hconflict
    exact ⟨hsound.pending, hsound.candidate⟩
  · intro operationId row request conflict hrow hbody hconflict
    obtain ⟨-, stored, hstored, hresolution⟩ := h.rows hrow hbody
    rw [hconflict] at hstored
    obtain rfl := Option.some.inj hstored
    exact hresolution
  · intro before after hconflicts _ hrun
    have hreplaces : wp replaceAuthoritativeConflicts (fun _ after => ConflictsReplaced before after)
        (fun _ _ => True) before := by
      refine replaceAuthoritativeConflicts_replaces fun hexisting => ?_
      rw [hconflicts] at hexisting
      exact (h.conflicts hexisting).conflictId
    simpa only [wp, hrun] using hreplaces

end

/-! ## A conflict that is being resolved -/

section

open scoped Sample

def sampleSide (revision : WorkspaceRevision) (content : List Nat) : WorkspaceConflictSide :=
  ⟨some Sample.pathA, revision, some (contentDigest content), ⟨content.length, 0, false⟩, false⟩

def sampleConflict : WorkspaceConflictCreatedMessage :=
  ⟨1, 9, 1, Sample.pathA, .content, sampleSide 1 [1], sampleSide 2 [2], sampleSide 1 [3], 77⟩

def resolvingEngine : Engine Disk :=
  (Sample.engine.after (.conflictCreated sampleConflict)).after (.resolveConflict 9 1 .current)

theorem conflict_table_of_resolvingEngine :
    (∃ row request conflict, resolvingEngine.db.outbox.lookup 1000 = some row ∧
      row.body = .conflictResolution request ∧ resolvingEngine.db.conflicts.lookup 9 = some conflict ∧
        conflict.status = .resolving ∧ conflict.resolution = some request) ∧
      ∃ views, listConflicts resolvingEngine = .ok views resolvingEngine := by
  have hrun : Run (fun _ _ => True) Sample.engine resolvingEngine := ((Run.refl _).step trivial).step trivial
  have h := conflict_table_consistent Disk.empty [] []
  obtain ⟨hlist, -, hrows, -⟩ := h.2 resolvingEngine (h.1 resolvingEngine hrun)
  let request : WorkspaceConflictResolvedRequest :=
    ⟨1, 1, 1000, 9, 1, .current, Sample.pathA, some (contentDigest [2]), ⟨1, 0, false⟩⟩
  have hrow : resolvingEngine.db.outbox.lookup 1000 =
      some ⟨1000, .conflictResolution request, .queued, 1⟩ := by decide +kernel
  have hconflict : resolvingEngine.db.conflicts.lookup 9 =
      some ⟨sampleConflict, .resolving, none, some request⟩ := by decide +kernel
  have hopen : resolvingEngine.closed = false := by decide +kernel
  exact ⟨⟨_, request, _, hrow, rfl, hconflict, rfl, hrows _ _ _ _ hrow rfl hconflict⟩, hlist hopen⟩

end

end Lumio.Sync
