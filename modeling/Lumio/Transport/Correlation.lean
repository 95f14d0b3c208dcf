import Lumio.Transport.Requests

/-!
# Every request is answered at most once

The answers that are used over a run of the tracker: one for a request at most, and each of them checked against what
the request expects. A response that is still remembered changes nothing when it comes again.
-/

namespace Lumio.Transport.Wire

open Lumio.Protocol

structure Completion where
  requestId : RequestId
  expected : ExpectedResponse
  frame : DecodedFrame

/-- The answer is a response to the request, and one that it expects. -/
structure Completion.Answered (completion : Completion) : Prop where
  response : completion.frame.flow = .serverResponse
  request : answeredRequest completion.frame = some completion.requestId
  accepted : completion.expected.accepts completion.frame = true

abbrev TrackerEntry := Machine.Entry RequestTracker TrackerCall TrackerAnswer

def issued (entry : TrackerEntry) : Option RequestId :=
  match entry.call, entry.answer with
  | .track requestId _ _, .done | .reserveUntrackedId requestId, .done => some requestId
  | _, _ => none

def completion (entry : TrackerEntry) : Option Completion :=
  match entry.call, entry.answer with
  | .complete requestId, .expected expected =>
    (entry.before.validated.lookup requestId).map fun frame => ⟨requestId, expected, frame⟩
  | _, _ => none

/-- What holds of a tracker, the ids that were taken and the requests that were completed. -/
structure Tracks (tracker : RequestTracker) (ids : List RequestId) (done : List Completion) : Prop where
  bounded : tracker.inFlight ≤ maxInFlightRequests
  mem_ids : ∀ requestId, requestId ∈ tracker.perConnectionIds ↔ requestId ∈ ids
  ids_nodup : ids.Nodup
  entry_mem : ∀ requestId entry, tracker.entries.lookup requestId = some entry → requestId ∈ ids
  validated : ∀ requestId frame, tracker.validated.lookup requestId = some frame →
    ∃ entry, tracker.entries.lookup requestId = some entry ∧ Completion.Answered ⟨requestId, entry.expected, frame⟩
  done_mem : ∀ c ∈ done, c.requestId ∈ ids ∧ tracker.entries.lookup c.requestId = none
  done_once : (done.map (·.requestId)).Nodup
  done_answered : ∀ c ∈ done, c.Answered
  order_nodup : tracker.completedOrder.Nodup
  mem_order : ∀ requestId, requestId ∈ tracker.completedOrder ↔ (tracker.completed.lookup requestId).isSome
  order_done : ∀ requestId ∈ tracker.completedOrder, requestId ∈ done.map (·.requestId)

theorem tracks_new : Tracks {} [] [] := by
  constructor <;> simp [RequestTracker.inFlight]

section Steps

variable {tracker tracker' : RequestTracker} {ids : List RequestId} {done : List Completion} {requestId : RequestId}

/-! ## New requests -/

theorem track_cases {expected : ExpectedResponse} {sentAt : Nat} (h : tracker.track requestId expected sentAt = .ok tracker') :
    tracker.inFlight < maxInFlightRequests ∧ requestId ∉ tracker.perConnectionIds ∧
      tracker' = { tracker with
        perConnectionIds := insert requestId tracker.perConnectionIds
        entries := tracker.entries.insert requestId ⟨expected, sentAt⟩ } := by
  unfold RequestTracker.track at h
  split at h
  case isTrue => cases h
  case isFalse hroom =>
    split at h
    case isTrue => cases h
    case isFalse hnew => exact ⟨by omega, hnew, (Except.ok.inj h).symm⟩

theorem reserve_cases (h : tracker.reserveUntrackedId requestId = .ok tracker') :
    requestId ∉ tracker.perConnectionIds ∧
      tracker' = { tracker with perConnectionIds := insert requestId tracker.perConnectionIds } := by
  unfold RequestTracker.reserveUntrackedId at h
  split at h
  · cases h
  · split at h
    case isTrue => cases h
    case isFalse hnew => exact ⟨hnew, (Except.ok.inj h).symm⟩

theorem Tracks.reserve (h : Tracks tracker ids done) (hnew : requestId ∉ tracker.perConnectionIds) :
    Tracks { tracker with perConnectionIds := insert requestId tracker.perConnectionIds } (ids ++ [requestId]) done where
  bounded := h.bounded
  mem_ids other := by simp only [Finset.mem_insert, h.mem_ids, List.mem_append, List.mem_singleton, or_comm]
  ids_nodup := by
    rw [← List.concat_eq_append, List.nodup_concat]
    exact ⟨mt (h.mem_ids requestId).mpr hnew, h.ids_nodup⟩
  entry_mem other entry hentry := List.mem_append_left _ (h.entry_mem other entry hentry)
  validated := h.validated
  done_mem c hc := ⟨List.mem_append_left _ (h.done_mem c hc).1, (h.done_mem c hc).2⟩
  done_once := h.done_once
  done_answered := h.done_answered
  order_nodup := h.order_nodup
  mem_order := h.mem_order
  order_done := h.order_done

theorem Tracks.insert (h : Tracks tracker ids done) (entry : InFlight) (hroom : tracker.inFlight < maxInFlightRequests)
    (hmem : requestId ∈ ids) (hidle : tracker.entries.lookup requestId = none)
    (hfresh : requestId ∉ done.map (·.requestId)) :
    Tracks { tracker with entries := tracker.entries.insert requestId entry } ids done where
  bounded := by
    have hlength : (tracker.entries.insert requestId entry).entries.length ≤ tracker.inFlight + 1 :=
      Table.length_insert_le
    exact hlength.trans hroom
  mem_ids := h.mem_ids
  ids_nodup := h.ids_nodup
  entry_mem other found hfound := by
    rcases (Table.lookup_insert_iff found).mp hfound with ⟨rfl, -⟩ | ⟨-, hold⟩
    · exact hmem
    · exact h.entry_mem other found hold
  validated other frame hframe := by
    obtain ⟨found, hfound, hanswered⟩ := h.validated other frame hframe
    have hne : other ≠ requestId := by
      rintro rfl
      rw [hidle] at hfound
      cases hfound
    exact ⟨found, (AList.lookup_insert_ne hne).trans hfound, hanswered⟩
  done_mem c hc := by
    refine ⟨(h.done_mem c hc).1, ?_⟩
    have hne : c.requestId ≠ requestId := fun heq => hfresh (heq ▸ List.mem_map_of_mem hc)
    exact (AList.lookup_insert_ne hne).trans (h.done_mem c hc).2
  done_once := h.done_once
  done_answered := h.done_answered
  order_nodup := h.order_nodup
  mem_order := h.mem_order
  order_done := h.order_done

theorem Tracks.track {expected : ExpectedResponse} {sentAt : Nat} (h : Tracks tracker ids done)
    (hstep : tracker.track requestId expected sentAt = .ok tracker') : Tracks tracker' (ids ++ [requestId]) done := by
  obtain ⟨hroom, hnew, rfl⟩ := track_cases hstep
  have hfresh : requestId ∉ ids := mt (h.mem_ids requestId).mpr hnew
  apply (h.reserve hnew).insert ⟨expected, sentAt⟩ hroom
  · exact List.mem_append_right _ (List.mem_singleton_self _)
  · cases hidle : tracker.entries.lookup requestId with
    | none => rfl
    | some entry => exact absurd (h.entry_mem requestId entry hidle) hfresh
  · intro hdone
    obtain ⟨c, hc, rfl⟩ := List.mem_map.mp hdone
    exact hfresh (h.done_mem c hc).1

/-! ## Requests that are given up -/

theorem lookup_erase_of_none {ν : Type} {table : Table RequestId ν} {other : RequestId} (h : table.lookup other = none) :
    (table.erase requestId).lookup other = none := by
  by_cases heq : other = requestId
  · rw [heq, AList.lookup_erase]
  · rw [AList.lookup_erase_ne heq, h]

/-- An entry is taken out, with the answer that it validated. -/
theorem Tracks.drop (h : Tracks tracker ids done) {validated : Table RequestId DecodedFrame}
    (hvalidated : ∀ other frame, validated.lookup other = some frame →
      other ≠ requestId ∧ tracker.validated.lookup other = some frame) :
    Tracks { tracker with entries := tracker.entries.erase requestId, validated } ids done where
  bounded := Table.length_erase_le.trans h.bounded
  mem_ids := h.mem_ids
  ids_nodup := h.ids_nodup
  entry_mem other entry hentry := h.entry_mem other entry (Table.lookup_erase_iff.mp hentry).2
  validated other frame hframe := by
    obtain ⟨hne, hold⟩ := hvalidated other frame hframe
    obtain ⟨entry, hentry, hanswered⟩ := h.validated other frame hold
    exact ⟨entry, Table.lookup_erase_iff.mpr ⟨hne, hentry⟩, hanswered⟩
  done_mem c hc := ⟨(h.done_mem c hc).1, lookup_erase_of_none (h.done_mem c hc).2⟩
  done_once := h.done_once
  done_answered := h.done_answered
  order_nodup := h.order_nodup
  mem_order := h.mem_order
  order_done := h.order_done

theorem Tracks.forget (h : Tracks tracker ids done) (hnone : tracker.validated.lookup requestId = none) :
    Tracks { tracker with entries := tracker.entries.erase requestId } ids done := by
  refine h.drop fun other frame hframe => ⟨?_, hframe⟩
  rintro rfl
  rw [hnone] at hframe
  cases hframe

theorem Tracks.cancel (h : Tracks tracker ids done) : Tracks (tracker.cancelUnsent requestId) ids done :=
  h.drop fun _ _ hframe => Table.lookup_erase_iff.mp hframe

/-! ## Answers -/

variable {frame : DecodedFrame}

/-- A frame that passes is the remembered one of a completed request, or an answer that a request in flight expects. -/
theorem validate_cases (h : tracker.validate frame = .ok (requestId, tracker')) :
    frame.flow = .serverResponse ∧ answeredRequest frame = some requestId ∧
      ((tracker.completed.lookup requestId = some frame ∧ tracker' = tracker) ∨
        ∃ entry, tracker.entries.lookup requestId = some entry ∧ entry.expected.accepts frame = true ∧
          tracker' = { tracker with validated := tracker.validated.insert requestId frame }) := by
  unfold RequestTracker.validate at h
  split at h
  case isTrue => cases h
  case isFalse hflow =>
    split at h
    case h_1 => cases h
    case h_2 answered hanswered =>
      split at h
      case h_1 completed hcompleted =>
        split at h
        case isFalse => cases h
        case isTrue hsame =>
          obtain ⟨rfl, rfl⟩ := Prod.mk.inj (Except.ok.inj h)
          exact ⟨not_not.mp hflow, hanswered, .inl ⟨hsame ▸ hcompleted, rfl⟩⟩
      case h_2 =>
        unfold RequestTracker.validateInFlight at h
        split at h
        case h_1 => cases h
        case h_2 entry hentry =>
          split at h
          case isTrue => cases h
          case isFalse haccepts =>
            split at h
            case isTrue => cases h
            case isFalse =>
              obtain ⟨rfl, rfl⟩ := Prod.mk.inj (Except.ok.inj h)
              exact ⟨not_not.mp hflow, hanswered, .inr ⟨entry, hentry, by simpa using haccepts, rfl⟩⟩

theorem Tracks.validate (h : Tracks tracker ids done) (hstep : tracker.validate frame = .ok (requestId, tracker')) :
    Tracks tracker' ids done := by
  obtain ⟨hflow, hanswered, ⟨-, rfl⟩ | ⟨entry, hentry, haccepts, rfl⟩⟩ := validate_cases hstep
  · exact h
  · refine { h with validated := ?_ }
    intro other found hfound
    rcases (Table.lookup_insert_iff found).mp hfound with ⟨rfl, rfl⟩ | ⟨-, hold⟩
    · exact ⟨entry, hentry, hflow, hanswered, haccepts⟩
    · exact h.validated other found hold

/-! ## Completed requests -/

theorem Tracks.remember {c : Completion} (h : Tracks tracker ids done) (hmem : c.requestId ∈ ids)
    (hidle : tracker.entries.lookup c.requestId = none) (hfresh : c.requestId ∉ done.map (·.requestId))
    (hanswered : c.Answered) :
    Tracks { tracker with
      completed := tracker.completed.insert c.requestId c.frame
      completedOrder := tracker.completedOrder ++ [c.requestId] } ids (done ++ [c]) where
  bounded := h.bounded
  mem_ids := h.mem_ids
  ids_nodup := h.ids_nodup
  entry_mem := h.entry_mem
  validated := h.validated
  done_mem other hother := by
    rcases List.mem_append.mp hother with hold | hnew
    · exact h.done_mem other hold
    · rw [List.mem_singleton.mp hnew]
      exact ⟨hmem, hidle⟩
  done_once := by
    rw [List.map_append, List.map_singleton, ← List.concat_eq_append, List.nodup_concat]
    exact ⟨hfresh, h.done_once⟩
  done_answered other hother := by
    rcases List.mem_append.mp hother with hold | hnew
    · exact h.done_answered other hold
    · rw [List.mem_singleton.mp hnew]
      exact hanswered
  order_nodup := by
    rw [← List.concat_eq_append, List.nodup_concat]
    exact ⟨fun hold => hfresh (h.order_done _ hold), h.order_nodup⟩
  mem_order other := by
    rw [List.mem_append, List.mem_singleton, h.mem_order]
    by_cases heq : other = c.requestId
    · rw [heq, AList.lookup_insert]
      simp
    · simp [heq, AList.lookup_insert_ne heq]
  order_done other hother := by
    rw [List.map_append, List.mem_append, List.map_singleton]
    exact (List.mem_append.mp hother).imp_left (h.order_done other)

theorem evict_keeps (order : List RequestId) : ∀ completed : Table RequestId DecodedFrame, order.Nodup →
    (∀ other, other ∈ order ↔ (completed.lookup other).isSome) →
      (RequestTracker.evict order completed).1 <:+ order ∧
        ∀ other, other ∈ (RequestTracker.evict order completed).1 ↔
          ((RequestTracker.evict order completed).2.lookup other).isSome := by
  induction order with
  | nil => exact fun completed _ hmem => ⟨List.suffix_refl _, hmem⟩
  | cons oldest order ih =>
    intro completed hnodup hmem
    unfold RequestTracker.evict
    split
    case isFalse => exact ⟨List.suffix_refl _, hmem⟩
    case isTrue =>
      obtain ⟨hoff, hrest⟩ := List.nodup_cons.mp hnodup
      have hleft : ∀ other, other ∈ order ↔ ((completed.erase oldest).lookup other).isSome := by
        intro other
        by_cases heq : other = oldest
        · rw [heq, AList.lookup_erase]
          simp [hoff]
        · rw [AList.lookup_erase_ne heq, ← hmem, List.mem_cons, or_iff_right heq]
      obtain ⟨hsuffix, hkept⟩ := ih (completed.erase oldest) hrest hleft
      exact ⟨hsuffix.trans (List.suffix_cons oldest order), hkept⟩

theorem Tracks.evict (h : Tracks tracker ids done) :
    Tracks { tracker with
      completed := (RequestTracker.evict tracker.completedOrder tracker.completed).2
      completedOrder := (RequestTracker.evict tracker.completedOrder tracker.completed).1 } ids done := by
  obtain ⟨hsuffix, hkept⟩ := evict_keeps tracker.completedOrder tracker.completed h.order_nodup h.mem_order
  exact { h with
    order_nodup := h.order_nodup.sublist hsuffix.sublist
    mem_order := hkept
    order_done := fun other hother => h.order_done other (hsuffix.subset hother) }

theorem complete_cases (tracker : RequestTracker) (requestId : RequestId) :
    (tracker.complete requestId = (refused, tracker)) ∨
    (tracker.validated.lookup requestId = none ∧
      tracker.complete requestId = (refused, { tracker with entries := tracker.entries.erase requestId })) ∨
    ∃ entry frame, tracker.entries.lookup requestId = some entry ∧ tracker.validated.lookup requestId = some frame ∧
      tracker.complete requestId = (.ok entry.expected,
        { tracker.cancelUnsent requestId with
          completed := (RequestTracker.evict (tracker.completedOrder ++ [requestId])
            (tracker.completed.insert requestId frame)).2
          completedOrder := (RequestTracker.evict (tracker.completedOrder ++ [requestId])
            (tracker.completed.insert requestId frame)).1 }) := by
  unfold RequestTracker.complete
  cases hentry : tracker.entries.lookup requestId with
  | none => exact .inl rfl
  | some entry =>
    cases hframe : tracker.validated.lookup requestId with
    | none => exact .inr (.inl ⟨rfl, rfl⟩)
    | some frame => exact .inr (.inr ⟨entry, frame, rfl, rfl, rfl⟩)

theorem Tracks.complete {entry : InFlight} (h : Tracks tracker ids done)
    (hentry : tracker.entries.lookup requestId = some entry)
    (hframe : tracker.validated.lookup requestId = some frame) :
    Tracks { tracker.cancelUnsent requestId with
      completed := (RequestTracker.evict (tracker.completedOrder ++ [requestId])
        (tracker.completed.insert requestId frame)).2
      completedOrder := (RequestTracker.evict (tracker.completedOrder ++ [requestId])
        (tracker.completed.insert requestId frame)).1 } ids (done ++ [⟨requestId, entry.expected, frame⟩]) := by
  have hanswered : Completion.Answered ⟨requestId, entry.expected, frame⟩ := by
    obtain ⟨found, hfound, hanswered⟩ := h.validated requestId frame hframe
    rw [hentry] at hfound
    cases hfound
    exact hanswered
  have hfresh : requestId ∉ done.map (·.requestId) := by
    intro hdone
    obtain ⟨c, hc, rfl⟩ := List.mem_map.mp hdone
    rw [(h.done_mem c hc).2] at hentry
    cases hentry
  have hremembered := Tracks.remember (c := ⟨requestId, entry.expected, frame⟩) h.cancel
    (h.entry_mem requestId entry hentry) (AList.lookup_erase _ _) hfresh hanswered
  exact hremembered.evict

end Steps

/-! ## Runs -/

section Runs

variable [SerdeJson]

/-- What a connection does with the answers of the server, whatever it is sent. -/
structure Correlated (tracker : RequestTracker) (log : List TrackerEntry) : Prop where
  bounded : tracker.inFlight ≤ maxInFlightRequests
  issuedOnce : (log.filterMap issued).Nodup
  completedOnce : ((log.filterMap completion).map (·.requestId)).Nodup
  answered : ∀ c ∈ log.filterMap completion, c.Answered
  orderOnce : tracker.completedOrder.Nodup
  sameIds : ∀ requestId, requestId ∈ tracker.completedOrder ↔ (tracker.completed.lookup requestId).isSome
  repeated : ∀ data frame requestId, decodeServerTextFrame data = .ok frame → frame.flow = .serverResponse →
    answeredRequest frame = some requestId → tracker.completed.lookup requestId = some frame →
      tracker.receive data = (tracker, .response requestId)
  rejected : ∀ data frame requestId, decodeServerTextFrame data = .ok frame → frame.flow = .serverResponse →
    answeredRequest frame = some requestId →
      requestId ∈ (log.filterMap completion).map (·.requestId) ∨ tracker.entries.lookup requestId = none →
        tracker.completed.lookup requestId ≠ some frame → tracker.receive data = (tracker, .error ⟨.protocol, false⟩)

theorem step_receive (tracker : RequestTracker) (data : List UInt8) :
    trackerMachine.step tracker (.receive data) = tracker.receive data := rfl

theorem receive_cases (tracker : RequestTracker) (data : List UInt8) :
    (∃ error, tracker.receive data = (tracker, .error error)) ∨ tracker.receive data = (tracker, .push) ∨
      ∃ frame requestId tracker', tracker.validate frame = .ok (requestId, tracker') ∧
        tracker.receive data = (tracker', .response requestId) := by
  unfold RequestTracker.receive
  cases decodeServerTextFrame data with
  | error error => exact .inl ⟨_, rfl⟩
  | ok frame =>
    simp only
    split
    case isFalse => exact .inr (.inl rfl)
    case isTrue =>
      cases hvalidate : tracker.validate frame with
      | error error => exact .inl ⟨error, rfl⟩
      | ok result => exact .inr (.inr ⟨frame, result.1, result.2, hvalidate, rfl⟩)

theorem tracks_log {tracker tracker' : RequestTracker} {log : List TrackerEntry} {call : TrackerCall}
    {answer : TrackerAnswer} (hstep : trackerMachine.step tracker call = (tracker', answer))
    (h : Tracks tracker' (log.filterMap issued ++ (issued ⟨tracker, call, answer⟩).toList)
      (log.filterMap completion ++ (completion ⟨tracker, call, answer⟩).toList)) :
    Tracks (trackerMachine.step tracker call).1 ((log ++ [trackerMachine.entry tracker call]).filterMap issued)
      ((log ++ [trackerMachine.entry tracker call]).filterMap completion) := by
  have hentry : trackerMachine.entry tracker call = ⟨tracker, call, answer⟩ := by rw [Machine.entry, hstep]
  have hone : ∀ {β : Type} (f : TrackerEntry → Option β) (entry : TrackerEntry),
      [entry].filterMap f = (f entry).toList := by
    intro β f entry
    cases hf : f entry <;> simp [hf]
  rw [List.filterMap_append, List.filterMap_append, hentry, hone, hone, hstep]
  exact h

theorem tracks_log_quiet {tracker tracker' : RequestTracker} {log : List TrackerEntry} {call : TrackerCall}
    {answer : TrackerAnswer} (hstep : trackerMachine.step tracker call = (tracker', answer))
    (hissued : issued ⟨tracker, call, answer⟩ = none) (hcompletion : completion ⟨tracker, call, answer⟩ = none)
    (h : Tracks tracker' (log.filterMap issued) (log.filterMap completion)) :
    Tracks (trackerMachine.step tracker call).1 ((log ++ [trackerMachine.entry tracker call]).filterMap issued)
      ((log ++ [trackerMachine.entry tracker call]).filterMap completion) := by
  apply tracks_log hstep
  rw [hissued, hcompletion, Option.toList_none, List.append_nil, Option.toList_none, List.append_nil]
  exact h

theorem tracks_step {tracker : RequestTracker} {log : List TrackerEntry} (call : TrackerCall)
    (h : Tracks tracker (log.filterMap issued) (log.filterMap completion)) :
    Tracks (trackerMachine.step tracker call).1 ((log ++ [trackerMachine.entry tracker call]).filterMap issued)
      ((log ++ [trackerMachine.entry tracker call]).filterMap completion) := by
  cases call with
  | track requestId expected sentAt =>
    cases hresult : tracker.track requestId expected sentAt with
    | error error =>
      have hstep : trackerMachine.step tracker (.track requestId expected sentAt) = (tracker, .error error) := by
        simp only [trackerMachine, answerOf, hresult]
      exact tracks_log_quiet hstep rfl rfl h
    | ok tracker' =>
      have hstep : trackerMachine.step tracker (.track requestId expected sentAt) = (tracker', .done) := by
        simp only [trackerMachine, answerOf, hresult]
      apply tracks_log hstep
      rw [completion, Option.toList_none, List.append_nil]
      exact h.track hresult
  | reserveUntrackedId requestId =>
    cases hresult : tracker.reserveUntrackedId requestId with
    | error error =>
      have hstep : trackerMachine.step tracker (.reserveUntrackedId requestId) = (tracker, .error error) := by
        simp only [trackerMachine, answerOf, hresult]
      exact tracks_log_quiet hstep rfl rfl h
    | ok tracker' =>
      obtain ⟨hnew, rfl⟩ := reserve_cases hresult
      have hstep := congrArg (answerOf tracker · fun next => (next, TrackerAnswer.done)) hresult
      apply @tracks_log _ _ _ _ (.reserveUntrackedId requestId) _ hstep
      rw [completion, Option.toList_none, List.append_nil]
      exact h.reserve hnew
  | receive data =>
    rcases receive_cases tracker data with ⟨error, hstep⟩ | hstep | ⟨frame, requestId, tracker', hvalidate, hstep⟩
    · exact @tracks_log_quiet _ _ _ _ (.receive data) _ hstep rfl rfl h
    · exact @tracks_log_quiet _ _ _ _ (.receive data) _ hstep rfl rfl h
    · exact @tracks_log_quiet _ _ _ _ (.receive data) _ hstep rfl rfl (h.validate hvalidate)
  | complete requestId =>
    rcases complete_cases tracker requestId with hresult | ⟨hnone, hresult⟩ | ⟨entry, frame, hentry, hframe, hresult⟩
    · have hstep : trackerMachine.step tracker (.complete requestId) = (tracker, .error ⟨.protocol, false⟩) := by
        simp only [trackerMachine, hresult, refused]
      exact tracks_log_quiet hstep rfl rfl h
    · have hstep : trackerMachine.step tracker (.complete requestId) =
          ({ tracker with entries := tracker.entries.erase requestId }, .error ⟨.protocol, false⟩) := by
        simp only [trackerMachine, hresult, refused]
      exact tracks_log_quiet hstep rfl rfl (h.forget hnone)
    · have hnext := h.complete hentry hframe
      generalize hafter : ({ tracker.cancelUnsent requestId with
        completed := (RequestTracker.evict (tracker.completedOrder ++ [requestId])
          (tracker.completed.insert requestId frame)).2
        completedOrder := (RequestTracker.evict (tracker.completedOrder ++ [requestId])
          (tracker.completed.insert requestId frame)).1 } : RequestTracker) = tracker' at hnext hresult
      have hstep : trackerMachine.step tracker (.complete requestId) = (tracker', .expected entry.expected) := by
        simp only [trackerMachine, hresult]
      have hdone : completion ⟨tracker, .complete requestId, .expected entry.expected⟩ =
          some ⟨requestId, entry.expected, frame⟩ := by
        simp only [completion, hframe, Option.map_some]
      apply tracks_log hstep
      rw [hdone, issued, Option.toList_none, List.append_nil]
      exact hnext
  | cancelUnsent requestId => exact @tracks_log_quiet _ _ _ _ (.cancelUnsent requestId) _ rfl rfl rfl h.cancel

theorem tracks_run (calls : List TrackerCall) :
    Tracks (trackerMachine.run {} calls) ((trackerMachine.log {} calls).filterMap issued)
      ((trackerMachine.log {} calls).filterMap completion) := by
  apply Machine.invariant (C := fun _ _ => True)
    (I := fun tracker log => Tracks tracker (log.filterMap issued) (log.filterMap completion))
  · exact fun _ _ call _ h => tracks_step call h
  · exact fun _ _ => trivial
  · exact tracks_new

theorem receive_repeated {tracker : RequestTracker} {data : List UInt8} {frame : DecodedFrame} {requestId : RequestId}
    (hdecode : decodeServerTextFrame data = .ok frame) (hflow : frame.flow = .serverResponse)
    (hanswered : answeredRequest frame = some requestId) (hremembered : tracker.completed.lookup requestId = some frame) :
    tracker.receive data = (tracker, .response requestId) := by
  have hvalidate : tracker.validate frame = .ok (requestId, tracker) := by
    rw [RequestTracker.validate, if_neg (not_not_intro hflow)]
    simp only [hanswered, hremembered, if_true]
  unfold RequestTracker.receive
  rw [hdecode]
  simp only [hflow, if_true, hvalidate, answerOf]

theorem receive_rejected {tracker : RequestTracker} {data : List UInt8} {frame : DecodedFrame} {requestId : RequestId}
    (hdecode : decodeServerTextFrame data = .ok frame) (hflow : frame.flow = .serverResponse)
    (hanswered : answeredRequest frame = some requestId) (hidle : tracker.entries.lookup requestId = none)
    (hother : tracker.completed.lookup requestId ≠ some frame) :
    tracker.receive data = (tracker, .error ⟨.protocol, false⟩) := by
  have hvalidate : tracker.validate frame = refused := by
    rw [RequestTracker.validate, if_neg (not_not_intro hflow)]
    simp only [hanswered]
    cases hcompleted : tracker.completed.lookup requestId with
    | none => simp only [RequestTracker.validateInFlight, hidle]
    | some completed =>
      have hne : completed ≠ frame := fun heq => hother (heq ▸ hcompleted)
      simp only [if_neg hne]
  unfold RequestTracker.receive
  rw [hdecode]
  simp only [hflow, if_true, hvalidate, answerOf, refused]

/-- Over every run of the tracker a request is completed once at most, and by an answer that it expects. A frame that
reads as the remembered response of its request changes nothing, and any other frame for a request that is completed or
unknown is refused. -/
theorem requests_correlated (calls : List TrackerCall) :
    Correlated (trackerMachine.run {} calls) (trackerMachine.log {} calls) := by
  have h := tracks_run calls
  constructor
  case bounded => exact h.bounded
  case issuedOnce => exact h.ids_nodup
  case completedOnce => exact h.done_once
  case answered => exact h.done_answered
  case orderOnce => exact h.order_nodup
  case sameIds => exact h.mem_order
  case repeated => exact fun _ _ _ => receive_repeated
  case rejected =>
    intro data frame requestId hdecode hflow hanswered hidle hother
    apply receive_rejected hdecode hflow hanswered _ hother
    rcases hidle with hdone | hidle
    · obtain ⟨c, hc, rfl⟩ := List.mem_map.mp hdone
      exact (h.done_mem c hc).2
    · exact hidle

/-- A frame for a completed request whose bytes were not received before is refused. -/
def RefusesOtherBytes (tracker : RequestTracker) (log : List TrackerEntry) : Prop :=
  ∀ data frame requestId, decodeServerTextFrame data = .ok frame → answeredRequest frame = some requestId →
    requestId ∈ (log.filterMap completion).map (·.requestId) →
      (∀ entry ∈ log, ∀ seen, entry.call = .receive seen → seen ≠ data) →
        ∃ error, tracker.receive data = (tracker, .error error)

theorem decode_space (hspace : ∀ text, SerdeJson.parse (text ++ [32]) = SerdeJson.parse text) {action text : List UInt8}
    (hbar : separatorByte ∉ action) (hlength : (action ++ separatorByte :: text).length < maxControlFrameBytes) :
    decodeServerTextFrame (action ++ separatorByte :: (text ++ [32])) =
      decodeServerTextFrame (action ++ separatorByte :: text) := by
  have hparse : parseTextFrame (action ++ separatorByte :: (text ++ [32])) =
      parseTextFrame (action ++ separatorByte :: text) := by
    have hdrop : ∀ rest : List UInt8, (action ++ separatorByte :: rest).drop (action.length + 1) = rest := by
      intro rest
      rw [List.drop_append, List.drop_of_length_le (by omega)]
      simp
    have hlonger : (action ++ separatorByte :: (text ++ [32])).length ≤ maxControlFrameBytes := by
      simp only [List.length_append, List.length_cons, List.length_nil] at hlength ⊢
      omega
    unfold parseTextFrame
    rw [if_neg (Nat.not_lt.mpr hlonger), if_neg (Nat.not_lt.mpr hlength.le), idxOf_separator hbar, idxOf_separator hbar]
    simp only [List.take_left, hdrop, hspace]
  unfold decodeServerTextFrame
  rw [hparse]

end Runs

/-! ## A response that is written in another way -/

namespace Sample

open Lumio.Protocol.Sample

def withoutSpaces (text : List UInt8) : List UInt8 := (text.reverse.dropWhile (· = 32)).reverse

/-- The sample reader, which ignores spaces at the end. -/
noncomputable abbrev spacedSerde : SerdeJson :=
  { sampleSerde with parse := fun text => readBack sampleRender (withoutSpaces text) }

theorem withoutSpaces_append (text : List UInt8) : withoutSpaces (text ++ [32]) = withoutSpaces text := by
  rw [withoutSpaces, withoutSpaces, List.reverse_append, List.reverse_singleton, List.singleton_append,
    List.dropWhile_cons_of_pos (by decide)]

theorem withoutSpaces_concat {text : List UInt8} {last : UInt8} (h : last ≠ 32) :
    withoutSpaces (text ++ [last]) = text ++ [last] := by
  rw [withoutSpaces, List.reverse_append, List.reverse_singleton, List.singleton_append,
    List.dropWhile_cons_of_neg (by simpa using h), List.reverse_cons, List.reverse_reverse]

theorem withoutSpaces_render (json : Json) : withoutSpaces (sampleRender json) = sampleRender json := by
  unfold sampleRender patched
  split
  · exact withoutSpaces_concat (by decide)
  split
  · decide +kernel
  · simp only
    rw [← List.replicate_succ, List.replicate_succ', withoutSpaces_concat (by decide)]

theorem spacedSerde_lawful : @LawfulSerdeJson spacedSerde :=
  @LawfulSerdeJson.mk spacedSerde
    (fun json => (congrArg (readBack sampleRender) (withoutSpaces_render json)).trans
      (readBack_write sampleRender_injective json))
    sampleSerde_lawful.parseUuid_uuidText sampleSerde_lawful.bodyOfJson_bodyJson sampleSerde_lawful.strictObject_bodyJson
    sampleSerde_lawful.errorOfJson_errorJson sampleSerde_lawful.strictObject_errorJson

def ackFrame : DecodedFrame := ⟨.workspaceAck, .serverResponse, .success (some 1) (.ack sampleAck)⟩

def ackBytes : List UInt8 := bytesOf "WorkspaceAck|" ++ sampleEnvelopeText

theorem encodeSuccess_spaced (action : WorkspaceAction) (flow : WorkspaceFlow) (requestId : Option RequestId)
    (body : MessageBody) :
    @encodeSuccess spacedSerde action flow requestId body = @encodeSuccess sampleSerde action flow requestId body := by
  unfold encodeSuccess
  rw [@rawBody_eq spacedSerde spacedSerde_lawful, @rawBody_eq sampleSerde sampleSerde_lawful]
  rfl

theorem decode_ackBytes : @decodeServerTextFrame spacedSerde ackBytes = .ok ackFrame :=
  (@decode_encodeSuccess spacedSerde spacedSerde_lawful _ _ _ _ _
    ((encodeSuccess_spaced _ _ _ _).trans encode_sampleAck)).2

theorem decode_spacedAckBytes : @decodeServerTextFrame spacedSerde (ackBytes ++ [32]) = .ok ackFrame := by
  have haction : bytesOf "WorkspaceAck|" = bytesOf "WorkspaceAck" ++ [separatorByte] := by decide +kernel
  have hsplit : ackBytes = bytesOf "WorkspaceAck" ++ separatorByte :: sampleEnvelopeText := by
    rw [ackBytes, haction, List.append_assoc, List.singleton_append]
  have hspaced : ackBytes ++ [32] = bytesOf "WorkspaceAck" ++ separatorByte :: (sampleEnvelopeText ++ [32]) := by
    rw [hsplit, List.append_assoc, List.cons_append]
  rw [hspaced, @decode_space spacedSerde _ _ _ (by decide +kernel) (by decide +kernel), ← hsplit]
  · exact decode_ackBytes
  · exact fun text => congrArg (readBack sampleRender) (withoutSpaces_append text)

def acknowledged : List TrackerCall := [.track 1 (.ack sampleAck) 0, .receive ackBytes, .complete 1]

/-- The tracker while the acknowledgement is in flight, with its answer checked, and completed. -/
def sentTracker : RequestTracker :=
  { entries := (∅ : Table RequestId InFlight).insert 1 ⟨.ack sampleAck, 0⟩, perConnectionIds := {1} }

def answeredTracker : RequestTracker := { sentTracker with validated := (∅ : Table RequestId DecodedFrame).insert 1 ackFrame }

def completedTracker : RequestTracker :=
  { completed := (∅ : Table RequestId DecodedFrame).insert 1 ackFrame, completedOrder := [1], perConnectionIds := {1} }

theorem track_sampleAck :
    (@trackerMachine spacedSerde).step {} (.track 1 (.ack sampleAck) 0) = (sentTracker, .done) := rfl

theorem receive_ackBytes :
    (@trackerMachine spacedSerde).step sentTracker (.receive ackBytes) = (answeredTracker, .response 1) := by
  have haccepts : (ExpectedResponse.ack sampleAck).accepts ackFrame = true := by decide
  have hentry : sentTracker.entries.lookup 1 = some ⟨.ack sampleAck, 0⟩ := rfl
  have hvalidate : sentTracker.validate ackFrame = .ok (1, answeredTracker) := by
    have hinFlight : sentTracker.validate ackFrame = sentTracker.validateInFlight 1 ackFrame := rfl
    rw [hinFlight, RequestTracker.validateInFlight, hentry]
    simp only [haccepts]
    rfl
  rw [@step_receive spacedSerde]
  unfold RequestTracker.receive
  rw [decode_ackBytes]
  simp only [hvalidate, answerOf]
  rfl

theorem complete_sampleAck :
    (@trackerMachine spacedSerde).step answeredTracker (.complete 1) = (completedTracker, .expected (.ack sampleAck)) := rfl

theorem run_acknowledged : (@trackerMachine spacedSerde).run {} acknowledged = completedTracker := by
  simp only [acknowledged, Machine.run, track_sampleAck, receive_ackBytes, complete_sampleAck]

theorem log_acknowledged : (@trackerMachine spacedSerde).log {} acknowledged =
    [⟨{}, .track 1 (.ack sampleAck) 0, .done⟩, ⟨sentTracker, .receive ackBytes, .response 1⟩,
      ⟨answeredTracker, .complete 1, .expected (.ack sampleAck)⟩] := by
  simp only [acknowledged, Machine.log, Machine.entry, track_sampleAck, receive_ackBytes, complete_sampleAck]

/-- The answer comes again with a space at the end, which is other bytes, and is not refused. -/
theorem spacedAnswer_not_refused : ∃ calls, ¬ @RefusesOtherBytes spacedSerde
    ((@trackerMachine spacedSerde).run {} calls) ((@trackerMachine spacedSerde).log {} calls) := by
  refine ⟨acknowledged, fun h => ?_⟩
  rw [run_acknowledged, log_acknowledged] at h
  have hlonger : ackBytes ≠ ackBytes ++ [32] := by simp
  obtain ⟨error, hrefused⟩ := h (ackBytes ++ [32]) ackFrame 1 decode_spacedAckBytes rfl (by decide) (by
    intro entry hentry seen hseen
    simp only [List.mem_cons, List.not_mem_nil, or_false] at hentry
    rcases hentry with rfl | rfl | rfl
    · cases hseen
    · cases hseen
      exact hlonger
    · cases hseen)
  rw [@receive_repeated spacedSerde _ _ _ _ decode_spacedAckBytes rfl rfl rfl] at hrefused
  cases hrefused

end Sample

end Lumio.Transport.Wire
