import Lumio.Sync.Inbound.Queue

/-!
# The inbound work budget

A call of the work loop examines items of the stored stream and of the live queue within one budget. The history
of a call lists the items it examined; from it follow the bounds of a call, and that of two calls in a row one
begins with each source.
-/

namespace Lumio.Sync

open Lumio.Protocol Lumio.Fs Prog

def InboundWorkLimits.validate (limits : InboundWorkLimits) : Except SyncError InboundWorkLimits :=
  if limits.maxItemsPerCall = 0 ∨ limits.maxSerializedBytesPerCall = 0 ∨ limits.maxPendingLiveItems = 0 ∨
      limits.maxPendingLiveSerializedBytes = 0 then
    .error (.invalidConfiguration "invalid_inbound_work_limits")
  else .ok limits

theorem InboundWorkLimits.items_pos {limits : InboundWorkLimits} (h : limits.validate = .ok limits) :
    0 < limits.maxItemsPerCall := by
  by_contra hzero
  rw [InboundWorkLimits.validate, if_pos (.inl (by omega))] at h
  cases h

/-! ## Histories -/

structure Examined where
  source : InboundWorkSource
  serializedBytes : Nat
  budget : InboundWorkBudget
  processed : Bool

section

variable {F : Type} [Filesystem F] [Env]

def resumeSource (source : InboundWorkSource) (work : InboundWork) (commandLimit : Nat) (reissueWaiting : Bool) :
    EngineM F (ResumeStep × InboundWork) :=
  match source with
  | .stream => resumeStreamStep work commandLimit reissueWaiting
  | .live => resumeLiveStep work commandLimit reissueWaiting

omit [Filesystem F] in
def Engine.offered (engine : Engine F) : InboundWorkSource → Option Nat
  | .live => engine.pendingLiveEvents.head?.map (·.serializedBytes)
  | .stream =>
    match engine.db.stream with
    | none => none
    | some active =>
      match active.mode with
      | .snapshot => engine.db.pendingStreamEntry.map fun record => Env.entryLength record.body
      | .incremental => engine.db.pendingStreamRevisionItem.map fun record => Env.itemLength record.body

structure Unavailable where
  stream : Bool
  live : Bool

def Unavailable.has (unavailable : Unavailable) : InboundWorkSource → Bool
  | .stream => unavailable.stream
  | .live => unavailable.live

def Unavailable.after (unavailable : Unavailable) (source : InboundWorkSource) (step : ResumeStep) : Unavailable :=
  match source with
  | .stream => { unavailable with stream := step ≠ .progressed }
  | .live => { unavailable with live := step ≠ .progressed }

/-- The history of the work loop: the items it examines, in order, up to the loop's own end or to an error. -/
inductive Drains (commandLimit : Nat) (reissueWaiting : Bool) : InboundWorkSource → Unavailable → InboundWork →
    Engine F → List Examined → Except SyncError InboundWork → Engine F → Prop where
  /-- The budget is used up, or both sources are given up. -/
  | finished {source unavailable work s} (h : work.budget.remainingItems = 0 ∨
        (unavailable.stream = true ∧ unavailable.live = true)) :
      Drains commandLimit reissueWaiting source unavailable work s [] (.ok work) s
  /-- It is the turn of a source that is given up. -/
  | skipped {source unavailable work s history outcome t} (h : unavailable.has source = true)
      (rest : Drains commandLimit reissueWaiting source.other unavailable work s history outcome t) :
      Drains commandLimit reissueWaiting source unavailable work s history outcome t
  /-- The source offers nothing, or an item that does not fit. -/
  | refused {source unavailable work s step history outcome t} (h : unavailable.has source = false)
      (run : resumeSource source work commandLimit reissueWaiting s = .ok (step, work) s) (idle : step ≠ .progressed)
      (rest : Drains commandLimit reissueWaiting source.other (unavailable.after source step) work s history outcome t) :
      Drains commandLimit reissueWaiting source unavailable work s history outcome t
  /-- The item that the source offers is examined. -/
  | examined {source unavailable work s bytes step work' s' history outcome t} (h : unavailable.has source = false)
      (offered : s.offered source = some bytes) (taken : work.budget.consume bytes = some work'.budget)
      (run : resumeSource source work commandLimit reissueWaiting s = .ok (step, work') s')
      (rest : Drains commandLimit reissueWaiting source.other (unavailable.after source step) work' s' history
        outcome t) :
      Drains commandLimit reissueWaiting source unavailable work s
        (⟨source, bytes, work'.budget, step = .progressed⟩ :: history) outcome t
  /-- The item that the source offers is examined, and the call fails. -/
  | failed {source unavailable work s bytes budget e t} (h : unavailable.has source = false)
      (offered : s.offered source = some bytes) (taken : work.budget.consume bytes = some budget)
      (run : resumeSource source work commandLimit reissueWaiting s = .error e t) :
      Drains commandLimit reissueWaiting source unavailable work s [⟨source, bytes, budget, false⟩] (.error e) t

/-! ## One step -/

variable {s t : Engine F} {source : InboundWorkSource} {budget : InboundWorkBudget} {bytes : Nat}
  {limits : InboundWorkLimits} (commandLimit : Nat) (work : InboundWork) (reissueWaiting : Bool)

omit [Filesystem F] in
@[simp] theorem InboundWork.waiting_budget (commandLimit : Nat) (reissueWaiting : Bool)
    (operationId : Option OperationId) (content : WorkspaceContentHash × Nat) :
    (work.waiting commandLimit reissueWaiting operationId content).budget = work.budget := by
  unfold InboundWork.waiting
  split <;> rfl

/-- A program that works on an item leaves the budget alone. -/
abbrev KeepsBudget (work : InboundWork) (m : EngineM F (ResumeStep × InboundWork)) : Prop :=
  Returns (fun result => result.2.budget = work.budget) m

theorem resumeStreamEntry_budget (record : StreamEntryRecord) (work : InboundWork) (commandLimit : Nat)
    (reissueWaiting : Bool) : KeepsBudget (F := F) work (resumeStreamEntry record work commandLimit reissueWaiting) := by
  unfold resumeStreamEntry
  refine .after fun missing => ?_
  split
  · exact .after fun _ => .pure (work.waiting_budget _ _ _ _)
  · exact .after fun _ => .after fun _ => .pure rfl

theorem resumeStreamEvent_budget (event : WorkspaceEventMessage) (status : StreamItemStatus) (work : InboundWork)
    (commandLimit : Nat) (reissueWaiting : Bool) :
    KeepsBudget (F := F) work (resumeStreamEvent event status work commandLimit reissueWaiting) := by
  unfold resumeStreamEvent
  refine .after fun receiptMatch => ?_
  split
  · exact .after fun _ => .pure rfl
  split
  · exact .after fun _ => .pure rfl
  refine .after fun missing => ?_
  split
  · exact .after fun _ => .pure (work.waiting_budget _ _ _ _)
  · exact .after fun _ => .after fun _ => .pure rfl

theorem resumeStreamConflictResolved_budget (message : WorkspaceConflictResolvedMessage) (status : StreamItemStatus)
    (work : InboundWork) (commandLimit : Nat) (reissueWaiting : Bool) :
    KeepsBudget (F := F) work (resumeStreamConflictResolved message status work commandLimit reissueWaiting) := by
  unfold resumeStreamConflictResolved
  refine .after fun receiptMatch => ?_
  split
  · exact .after fun _ => .pure rfl
  refine .after fun missing => ?_
  split
  · exact .after fun _ => .pure (work.waiting_budget _ _ _ _)
  · exact .after fun _ => .after fun _ => .pure rfl

/-- A step refuses and changes nothing, or it takes the item that its source offers out of the budget. -/
def Takes (source : InboundWorkSource) (work : InboundWork) (s : Engine F) (result : ResumeStep × InboundWork)
    (t : Engine F) : Prop :=
  (result.1 ≠ .progressed ∧ result.2 = work ∧ t = s) ∨
    ∃ bytes, s.offered source = some bytes ∧ work.budget.consume bytes = some result.2.budget

omit [Filesystem F] in
theorem Takes.refused {work : InboundWork} {step : ResumeStep} (h : step ≠ .progressed) :
    Takes source work s (step, work) s := .inl ⟨h, rfl, rfl⟩

omit [Filesystem F] in
theorem wp_taken {work : InboundWork} (offered : s.offered source = some bytes)
    (taken : work.budget.consume bytes = some budget) {m : EngineM F (ResumeStep × InboundWork)}
    (h : KeepsBudget { work with budget } m) :
    wp m (fun result t => Takes source work s result t)
      (fun _ _ => ∃ bytes budget, s.offered source = some bytes ∧ work.budget.consume bytes = some budget) s := by
  refine wp_mono (h s) (fun result t hbudget => .inr ⟨bytes, offered, ?_⟩) (fun _ _ _ => ⟨bytes, budget, offered, taken⟩)
  rw [taken, hbudget]

theorem resumeSource_takes (source : InboundWorkSource) (work : InboundWork) (commandLimit : Nat)
    (reissueWaiting : Bool) (s : Engine F) :
    wp (resumeSource source work commandLimit reissueWaiting) (fun result t => Takes source work s result t)
      (fun _ _ => ∃ bytes budget, s.offered source = some bytes ∧ work.budget.consume bytes = some budget) s := by
  cases source with
  | live =>
    simp only [resumeSource, resumeLiveStep]
    rw [wp_bind, wp_get]
    split
    · exact .refused (by decide)
    rename_i pending rest hqueue
    split
    · exact .refused (by decide)
    rename_i budget hbudget
    refine wp_taken (by simp [Engine.offered, hqueue]) hbudget ?_
    refine .after fun missing => ?_
    split
    · exact .pure (InboundWork.waiting_budget _ _ _ _ _)
    · split
      · exact .after fun _ => .after fun _ => .pure rfl
      · exact .after fun _ => .after fun _ => .pure rfl
  | stream =>
    simp only [resumeSource, resumeStreamStep]
    rw [wp_bind, wp_get]
    split
    · exact .refused (by decide)
    rename_i active hactive
    split
    · exact .refused (by decide)
    split
    · rename_i hmode
      split
      · exact .refused (by decide)
      rename_i record hrecord
      split
      · exact .refused (by decide)
      rename_i budget hbudget
      exact wp_taken (by simp [Engine.offered, hactive, hmode, hrecord]) hbudget (resumeStreamEntry_budget _ _ _ _)
    · rename_i hmode
      split
      · exact .refused (by decide)
      rename_i record hrecord
      split
      · exact .refused (by decide)
      rename_i budget hbudget
      refine wp_taken (by simp [Engine.offered, hactive, hmode, hrecord]) hbudget ?_
      split
      · exact resumeStreamEvent_budget _ _ _ _ _
      · exact resumeStreamConflictResolved_budget _ _ _ _ _

/-! ## The loop -/

omit [Filesystem F] [Env] in
theorem InboundWorkBudget.remainingItems_of_consume {after : InboundWorkBudget}
    (h : budget.consume bytes = some after) (positive : budget.remainingItems ≠ 0) :
    after.remainingItems + 1 = budget.remainingItems := by
  unfold InboundWorkBudget.consume at h
  split at h
  · cases h
  split at h
  · cases h
  cases h
  simp only [InboundWorkBudget.remainingItems] at positive ⊢
  omega

def Unavailable.left (unavailable : Unavailable) : Nat := (!unavailable.stream).toNat + (!unavailable.live).toNat

/-- A bound on the rounds that are left: each examines an item, gives up a source, or passes the turn to a source
that is not given up. -/
def roundsLeft (source : InboundWorkSource) (unavailable : Unavailable) (work : InboundWork) : Nat :=
  2 * (work.budget.remainingItems + unavailable.left) + (unavailable.has source).toNat

omit [Filesystem F] [Env] in
theorem roundsLeft_skipped {source : InboundWorkSource} {unavailable : Unavailable} {work : InboundWork}
    (hgiven : unavailable.has source = true) (hopen : ¬(unavailable.stream = true ∧ unavailable.live = true)) :
    roundsLeft source.other unavailable work < roundsLeft source unavailable work := by
  obtain ⟨stream, live⟩ := unavailable
  cases source <;> cases stream <;> cases live <;>
    simp_all [roundsLeft, Unavailable.has, Unavailable.left, InboundWorkSource.other]

omit [Filesystem F] in
theorem roundsLeft_taken {unavailable : Unavailable} {work : InboundWork} {result : ResumeStep × InboundWork}
    (available : unavailable.has source = false) (positive : work.budget.remainingItems ≠ 0)
    (takes : Takes source work s result t) :
    roundsLeft source.other (unavailable.after source result.1) result.2 < roundsLeft source unavailable work := by
  have hleft : (unavailable.after source result.1).left ≤ unavailable.left := by
    obtain ⟨stream, live⟩ := unavailable
    cases source <;> cases stream <;> cases live <;> cases result.1 <;> simp_all [Unavailable.has, Unavailable.left, Unavailable.after]
  have hbit : ((unavailable.after source result.1).has source.other).toNat ≤ 1 := Bool.toNat_le _
  rcases takes with ⟨hstep, hwork, -⟩ | ⟨bytes, -, htaken⟩
  · have hless : (unavailable.after source result.1).left + 1 = unavailable.left := by
      obtain ⟨stream, live⟩ := unavailable
      cases source <;> cases stream <;> cases live <;> simp_all [Unavailable.has, Unavailable.left, Unavailable.after]
    rw [roundsLeft, roundsLeft, hwork]
    omega
  · have hitems := InboundWorkBudget.remainingItems_of_consume htaken positive
    rw [roundsLeft, roundsLeft]
    omega

theorem resumeLoop_succ (fuel : Nat) (source : InboundWorkSource) (unavailable : Unavailable) (work : InboundWork) :
    resumeLoop (F := F) commandLimit reissueWaiting (fuel + 1) source unavailable.stream unavailable.live work =
      if work.budget.remainingItems = 0 ∨ (unavailable.stream = true ∧ unavailable.live = true) then pure work
      else if unavailable.has source then
        resumeLoop commandLimit reissueWaiting fuel source.other unavailable.stream unavailable.live work
      else
        resumeSource source work commandLimit reissueWaiting >>= fun result =>
          resumeLoop commandLimit reissueWaiting fuel source.other (unavailable.after source result.1).stream
            (unavailable.after source result.1).live result.2 := by
  cases source <;> rfl

theorem resumeLoop_drains (fuel : Nat) :
    ∀ (source : InboundWorkSource) (unavailable : Unavailable) (work : InboundWork) (s : Engine F),
      roundsLeft source unavailable work ≤ fuel →
      wp (resumeLoop commandLimit reissueWaiting fuel source unavailable.stream unavailable.live work)
        (fun work' t => ∃ history, Drains commandLimit reissueWaiting source unavailable work s history (.ok work') t)
        (fun e t => ∃ history, Drains commandLimit reissueWaiting source unavailable work s history (.error e) t) s := by
  induction fuel with
  | zero =>
    intro source unavailable work s hrounds
    have hnone : work.budget.remainingItems = 0 := by
      rw [roundsLeft] at hrounds
      omega
    exact ⟨[], .finished (.inl hnone)⟩
  | succ fuel ih =>
    intro source unavailable work s hrounds
    rw [resumeLoop_succ]
    split
    · rename_i hend
      exact ⟨[], .finished hend⟩
    rename_i hopen
    rw [not_or] at hopen
    split
    · rename_i hgiven
      have hless := @roundsLeft_skipped _ _ work hgiven hopen.2
      exact wp_mono (ih source.other unavailable work s (by omega)) (fun _ _ ⟨history, h⟩ => ⟨history, .skipped hgiven h⟩)
        (fun _ _ ⟨history, h⟩ => ⟨history, .skipped hgiven h⟩)
    rename_i havailable
    rw [Bool.not_eq_true] at havailable
    have htakes := resumeSource_takes source work commandLimit reissueWaiting s
    rw [wp_bind]
    unfold wp at htakes ⊢
    cases hrun : resumeSource source work commandLimit reissueWaiting s with
    | error e t =>
      rw [hrun] at htakes
      obtain ⟨bytes, budget, hoffered, htaken⟩ := htakes
      exact ⟨_, .failed havailable hoffered htaken hrun⟩
    | ok result t =>
      rw [hrun] at htakes
      have hless := roundsLeft_taken havailable hopen.1 htakes
      have hrest := ih source.other (unavailable.after source result.1) result.2 t (by omega)
      rcases htakes with ⟨hstep, hwork, rfl⟩ | ⟨bytes, hoffered, htaken⟩
      · obtain ⟨step, work'⟩ := result
        obtain rfl : work' = work := hwork
        have hrefused : resumeSource source work' commandLimit reissueWaiting t = .ok (step, work') t := hrun
        exact wp_mono hrest (fun _ _ ⟨history, h⟩ => ⟨history, .refused havailable hrefused hstep h⟩)
          (fun _ _ ⟨history, h⟩ => ⟨history, .refused havailable hrefused hstep h⟩)
      · exact wp_mono hrest (fun _ _ ⟨_, h⟩ => ⟨_, .examined havailable hoffered htaken hrun h⟩)
          (fun _ _ ⟨_, h⟩ => ⟨_, .examined havailable hoffered htaken hrun h⟩)

theorem resumeLoop_enough (fuel : Nat) :
    ∀ (source : InboundWorkSource) (unavailable : Unavailable) (work : InboundWork) (s : Engine F),
      roundsLeft source unavailable work ≤ fuel →
      resumeLoop commandLimit reissueWaiting (fuel + 1) source unavailable.stream unavailable.live work s =
        resumeLoop commandLimit reissueWaiting fuel source unavailable.stream unavailable.live work s := by
  induction fuel with
  | zero =>
    intro source unavailable work s hrounds
    have hnone : work.budget.remainingItems = 0 := by
      rw [roundsLeft] at hrounds
      omega
    rw [resumeLoop_succ, if_pos (.inl hnone)]
    rfl
  | succ fuel ih =>
    intro source unavailable work s hrounds
    conv_lhs => rw [resumeLoop_succ]
    conv_rhs => rw [resumeLoop_succ]
    split
    · rfl
    rename_i hopen
    rw [not_or] at hopen
    split
    · rename_i hgiven
      have hless := @roundsLeft_skipped _ _ work hgiven hopen.2
      exact ih source.other unavailable work s (by omega)
    rename_i havailable
    rw [Bool.not_eq_true] at havailable
    have htakes := resumeSource_takes source work commandLimit reissueWaiting s
    cases hrun : resumeSource source work commandLimit reissueWaiting s with
    | error e t => exact (bind_of_error hrun).trans (bind_of_error hrun).symm
    | ok result t =>
      have hless := roundsLeft_taken havailable hopen.1 (wp_of_ok htakes hrun)
      have hrest := ih source.other (unavailable.after source result.1) result.2 t (by omega)
      refine (bind_of_ok hrun).trans (hrest.trans ?_)
      exact Eq.symm (bind_of_ok (m := resumeSource source work commandLimit reissueWaiting) hrun)

/-! ## The bounds of a call -/

/-- The items fit a budget of bytes, or the first alone exceeds it and the others take nothing. -/
def FitBytes (limit : Nat) (sizes : List Nat) : Prop :=
  sizes.sum ≤ limit ∨ ∃ first rest, sizes = first :: rest ∧ limit < first ∧ rest.sum = 0

structure Within (limits : InboundWorkLimits) (budget : InboundWorkBudget) (sizes : List Nat) : Prop where
  maxItems : budget.maxItems = limits.maxItemsPerCall
  maxBytes : budget.maxSerializedBytes = limits.maxSerializedBytesPerCall
  usedItems : budget.usedItems = sizes.length
  usedBytes : budget.usedSerializedBytes = sizes.sum
  items : sizes.length ≤ limits.maxItemsPerCall
  fit : FitBytes limits.maxSerializedBytesPerCall sizes

section

omit [Filesystem F] [Env]

theorem Within.new (limits : InboundWorkLimits) : Within limits (.new limits) [] :=
  ⟨rfl, rfl, rfl, rfl, Nat.zero_le _, .inl (Nat.zero_le _)⟩

theorem Within.consume {after : InboundWorkBudget} {sizes : List Nat} (h : Within limits budget sizes)
    (taken : budget.consume bytes = some after) : Within limits after (sizes ++ [bytes]) := by
  obtain ⟨maxItems, maxBytes, usedItems, usedBytes, items, fit⟩ := h
  unfold InboundWorkBudget.consume at taken
  split at taken
  · cases taken
  rename_i hroom
  split at taken
  · cases taken
  rename_i hfits
  cases taken
  refine ⟨maxItems, maxBytes, by simp [usedItems], by simp [usedBytes], ?_, ?_⟩
  · simp only [List.length_append, List.length_singleton]
    omega
  rw [not_and_or, Nat.not_lt, InboundWorkBudget.remainingSerializedBytes] at hfits
  cases sizes with
  | nil =>
    -- the first item may be larger than the budget
    by_cases hlarge : bytes ≤ limits.maxSerializedBytesPerCall
    · exact .inl (by simpa using hlarge)
    · exact .inr ⟨bytes, [], rfl, Nat.lt_of_not_le hlarge, rfl⟩
  | cons first rest =>
    have hnotFirst : budget.allowsOversizedFirstItem = false := by
      simp [InboundWorkBudget.allowsOversizedFirstItem, usedItems]
    have hsmall : bytes ≤ budget.maxSerializedBytes - budget.usedSerializedBytes := by
      rcases hfits with hsmall | hoversized
      · exact hsmall
      · simp [hnotFirst] at hoversized
    rw [maxBytes, usedBytes] at hsmall
    rcases fit with hsum | ⟨first', rest', heq, hlarge, hzero⟩
    · left
      rw [List.sum_append, List.sum_singleton]
      omega
    · obtain ⟨rfl, rfl⟩ : first = first' ∧ rest = rest' := by simpa using heq
      refine .inr ⟨first, rest ++ [bytes], rfl, hlarge, ?_⟩
      simp only [List.sum_cons, List.sum_append, List.sum_nil] at hsmall ⊢
      omega

end

theorem Drains.within {commandLimit : Nat} {reissueWaiting : Bool} {unavailable : Unavailable} {work : InboundWork}
    {history : List Examined} {outcome : Except SyncError InboundWork}
    (h : Drains commandLimit reissueWaiting source unavailable work s history outcome t) :
    ∀ {earlier : List Nat}, Within limits work.budget earlier →
      (∀ examined ∈ history, examined.budget.usedItems ≤ examined.budget.maxItems) ∧
      ∃ budget, Within limits budget (earlier ++ history.map (·.serializedBytes)) := by
  induction h with
  | finished _ => exact fun hwithin => ⟨by simp, _, by simpa using hwithin⟩
  | skipped _ _ ih => exact ih
  | refused _ _ _ _ ih => exact ih
  | examined _ _ taken _ _ ih =>
    intro earlier hwithin
    have hnext := hwithin.consume taken
    obtain ⟨hbudgets, budget, hrest⟩ := ih hnext
    refine ⟨?_, budget, by simpa [List.append_assoc] using hrest⟩
    rintro examined (_ | ⟨_, hlater⟩)
    · simp only [hnext.usedItems, hnext.maxItems]
      exact hnext.items
    · exact hbudgets examined hlater
  | failed _ _ taken _ =>
    intro earlier hwithin
    have hnext := hwithin.consume taken
    refine ⟨?_, _, hnext⟩
    rintro examined (_ | ⟨_, hlater⟩)
    · simp only [hnext.usedItems, hnext.maxItems]
      exact hnext.items
    · cases hlater

omit [Filesystem F] [Env] in
def Engine.turned (s : Engine F) : Engine F := { s with nextInboundSource := s.nextInboundSource.other }

abbrev Engine.Examines (s : Engine F) (commandLimit : Nat) (reissueWaiting : Bool) (history : List Examined)
    (outcome : Except SyncError InboundWork) (t : Engine F) : Prop :=
  Drains commandLimit reissueWaiting s.nextInboundSource ⟨false, false⟩ ⟨.new Env.limits, []⟩ s.turned history outcome t

def afterLoop (outcome : Except SyncError InboundWork) : EngineM F (List SyncCommand) :=
  match outcome with
  | .error e => throw e
  | .ok work => do
    let _ ← finishStreamIfReady
    advanceSegmentAckIfStalled
    pure work.commands

omit [Filesystem F] [Env] in
theorem roundsLeft_new (source : InboundWorkSource) (limits : InboundWorkLimits) (commands : List SyncCommand) :
    roundsLeft source ⟨false, false⟩ ⟨.new limits, commands⟩ = resumeRounds limits := by
  cases source <;> rfl

theorem resumeInboundWork_examines (s : Engine F) (commandLimit : Nat) (reissueWaiting : Bool) :
    ∃ history outcome t, s.Examines commandLimit reissueWaiting history outcome t ∧
      resumeInboundWork commandLimit reissueWaiting s = afterLoop outcome t := by
  have hloop := resumeLoop_drains commandLimit reissueWaiting (resumeRounds Env.limits) s.nextInboundSource
    ⟨false, false⟩ ⟨.new Env.limits, []⟩ s.turned (Nat.le_of_eq (roundsLeft_new _ _ _))
  have hstart : resumeInboundWork commandLimit reissueWaiting s =
      (resumeLoop commandLimit reissueWaiting (resumeRounds Env.limits) s.nextInboundSource false false
        ⟨.new Env.limits, []⟩ >>= fun work => afterLoop (.ok work)) s.turned := rfl
  unfold wp at hloop
  cases hrun : resumeLoop commandLimit reissueWaiting (resumeRounds Env.limits) s.nextInboundSource false false
      ⟨.new Env.limits, []⟩ s.turned with
  | ok work t =>
    rw [hrun] at hloop
    obtain ⟨history, hdrains⟩ := hloop
    exact ⟨history, .ok work, t, hdrains, hstart.trans (bind_of_ok hrun)⟩
  | error e t =>
    rw [hrun] at hloop
    obtain ⟨history, hdrains⟩ := hloop
    exact ⟨history, .error e, t, hdrains, hstart.trans (bind_of_error hrun)⟩

/-! ## The turn of the sources -/

theorem resumeLiveStep_turn (commandLimit : Nat) (reissueWaiting : Bool) :
    Keeps Engine.nextInboundSource (resumeLiveStep (F := F) work commandLimit reissueWaiting) := by
  have hfeed : ∀ {α : Type} {m : EngineM F α}, Keeps Engine.feed m → Keeps Engine.nextInboundSource m :=
    fun h => h.comp fun s t hst => congrArg Feed.nextInboundSource hst
  have hpop : ∀ bytes, Keeps Engine.nextInboundSource (popLiveItem (F := F) bytes) := by
    intro bytes s
    simp only [popLiveItem, wp_bind, wp_get]
    split
    · rfl
    · split <;> rfl
  unfold resumeLiveStep
  refine .bind .get fun engine => ?_
  split
  · exact .pure _
  split
  · exact .pure _
  refine .bind (missingContent_keeps _) fun missing => ?_
  split
  · exact .pure _
  split
  · exact .bind (hfeed (applyLiveEvent_feed _)) fun _ => .bind (hpop _) fun _ => .pure _
  · exact .bind (hfeed (applyConflictResolvedFrom_feed _ _)) fun _ => .bind (hpop _) fun _ => .pure _

theorem resumeInboundWork_turn (s : Engine F) (commandLimit : Nat) (reissueWaiting : Bool) :
    wp (resumeInboundWork commandLimit reissueWaiting) (fun _ t => t.nextInboundSource = s.nextInboundSource.other)
      (fun _ t => t.nextInboundSource = s.nextInboundSource.other) s := by
  unfold resumeInboundWork
  rw [wp_bind, wp_get, wp_bind, wp_set]
  have hloop := (Composes.keeps (Engine.nextInboundSource (F := F))).resumeLoop
    (fun work => (resumeStreamStep_feed work commandLimit reissueWaiting).comp fun _ _ h => congrArg Feed.nextInboundSource h)
    fun work => resumeLiveStep_turn work commandLimit reissueWaiting
  refine (hloop _ _ _ _ _).bind (fun work => ?_) s.turned
  exact Keeps.comp (.bind finishStreamIfReady_feed fun _ => .bind advanceSegmentAckIfStalled_feed fun _ => .pure _)
    fun _ _ h => congrArg Feed.nextInboundSource h

/-! ## Ready heads -/

omit [Env] in
def ContentReady (files : F) (required : Option (WorkspaceContentHash × Nat)) : Prop :=
  ∀ content ∈ required, Filesystem.contentAvailable files content.1 content.2 = .ok true

def Engine.HeadReady (s : Engine F) : InboundWorkSource → Prop
  | .live => ∃ pending ∈ s.pendingLiveEvents.head?, ContentReady s.files pending.message.required
  | .stream => ∃ active ∈ s.db.stream,
      match active.mode with
      | .snapshot => ∃ record ∈ s.db.pendingStreamEntry, ContentReady s.files (requiredContent record.body.entry)
      | .incremental => ∃ record ∈ s.db.pendingStreamRevisionItem,
          match record.body with
          | .event event => record.status = .ready ∨ ContentReady s.files (requiredContent event.pathState)
          | .conflictResolved message => ContentReady s.files (requiredContent message.pathState)

omit [Env] in
theorem missingContent_ready {required : Option (WorkspaceContentHash × Nat)} (h : ContentReady s.files required) :
    missingContent required s = .ok none s := by
  cases required with
  | none => rfl
  | some content =>
    have havailable := h content rfl
    have hread : contentAvailable content.1 content.2 s = .ok true s := by
      unfold contentAvailable
      refine (bind_of_ok (m := get) (a := s) (t := s) rfl).trans ?_
      simp only [havailable, readFiles]
      rfl
    unfold missingContent
    refine (bind_of_ok hread).trans ?_
    rfl

omit [Filesystem F] [Env] in
theorem InboundWorkBudget.consume_first (positive : 0 < limits.maxItemsPerCall) (bytes : Nat) :
    ∃ budget, (InboundWorkBudget.new limits).consume bytes = some budget := by
  have hroom : ¬(InboundWorkBudget.new limits).usedItems = (InboundWorkBudget.new limits).maxItems := by
    simp only [InboundWorkBudget.new]
    omega
  have hfirst : (InboundWorkBudget.new limits).allowsOversizedFirstItem = true := rfl
  exact ⟨_, by rw [InboundWorkBudget.consume, if_neg hroom, if_neg (by simp [hfirst])]⟩

theorem Engine.HeadReady.progresses {s : Engine F} {source : InboundWorkSource} (ready : s.HeadReady source)
    {work : InboundWork} (first : work.budget = .new Env.limits) (positive : 0 < Env.limits.maxItemsPerCall)
    (commandLimit : Nat) (reissueWaiting : Bool) :
    wp (resumeSource source work commandLimit reissueWaiting) (fun result _ => result.1 = .progressed)
      (fun _ _ => True) s := by
  have hroom : work.budget.remainingItems ≠ 0 := by
    simp only [first, InboundWorkBudget.remainingItems, InboundWorkBudget.new]
    omega
  -- once the content is there, every branch that returns has made progress
  have hdone : ∀ {required : Option (WorkspaceContentHash × Nat)} {f : Option (WorkspaceContentHash × Nat) →
      EngineM F (ResumeStep × InboundWork)}, ContentReady s.files required →
      Returns (fun result => result.1 = .progressed) (f none) →
      wp (missingContent required >>= f) (fun result _ => result.1 = .progressed) (fun _ _ => True) s := by
    intro required f hready hreturns
    have hrun := bind_of_ok (f := f) (missingContent_ready hready)
    unfold wp
    rw [hrun]
    exact hreturns s
  have hpure : ∀ {α : Type} (m : EngineM F α) (result : ResumeStep × InboundWork), result.1 = .progressed →
      Returns (fun result => result.1 = .progressed) (m >>= fun _ => pure result) :=
    fun _ _ h => .after fun _ => .pure h
  cases source with
  | live =>
    obtain ⟨pending, hpending, hready⟩ := ready
    obtain ⟨rest, hqueue⟩ : ∃ rest, s.pendingLiveEvents = pending :: rest := by
      cases hevents : s.pendingLiveEvents with
      | nil => simp [hevents] at hpending
      | cons head rest =>
        rw [hevents] at hpending
        cases hpending
        exact ⟨rest, rfl⟩
    obtain ⟨budget, hbudget⟩ := InboundWorkBudget.consume_first positive pending.serializedBytes
    simp only [resumeSource, resumeLiveStep]
    rw [wp_bind, wp_get]
    simp only [hqueue, first, hbudget]
    refine hdone hready ?_
    dsimp only
    split
    · exact .after fun _ => .after fun _ => .pure rfl
    · exact .after fun _ => .after fun _ => .pure rfl
  | stream =>
    obtain ⟨active, hactive, hhead⟩ := ready
    have hstream : s.db.stream = some active := hactive
    simp only [resumeSource, resumeStreamStep]
    rw [wp_bind, wp_get]
    simp only [hstream, if_neg hroom]
    cases hmode : active.mode with
    | snapshot =>
      simp only [hmode] at hhead
      obtain ⟨record, hrecord, hready⟩ := hhead
      obtain ⟨budget, hbudget⟩ := InboundWorkBudget.consume_first positive (Env.entryLength record.body)
      have hpending : s.db.pendingStreamEntry = some record := hrecord
      simp only [hpending, first, hbudget]
      refine hdone hready ?_
      exact .after fun _ => .after fun _ => .pure rfl
    | incremental =>
      simp only [hmode] at hhead
      obtain ⟨record, hrecord, hready⟩ := hhead
      obtain ⟨budget, hbudget⟩ := InboundWorkBudget.consume_first positive (Env.itemLength record.body)
      have hpending : s.db.pendingStreamRevisionItem = some record := hrecord
      simp only [hpending, first, hbudget]
      cases hbody : record.body with
      | event event =>
        simp only [hbody] at hready
        dsimp only
        unfold resumeStreamEvent
        rw [wp_bind]
        refine wp_readDb (fun receiptMatch _ => ?_) (fun _ => trivial)
        split
        · exact hpure _ _ rfl s
        split
        · exact hpure _ _ rfl s
        rename_i hstatus
        refine hdone (hready.resolve_left hstatus) ?_
        exact .after fun _ => .after fun _ => .pure rfl
      | conflictResolved message =>
        simp only [hbody] at hready
        dsimp only
        unfold resumeStreamConflictResolved
        rw [wp_bind]
        refine wp_readDb (fun receiptMatch _ => ?_) (fun _ => trivial)
        split
        · exact hpure _ _ rfl s
        refine hdone hready ?_
        exact .after fun _ => .after fun _ => .pure rfl

theorem processes_of_ready {commandLimit : Nat} {reissueWaiting : Bool} {history : List Examined}
    {work : InboundWork} (positive : 0 < Env.limits.maxItemsPerCall) (ready : s.HeadReady s.nextInboundSource)
    (h : s.Examines commandLimit reissueWaiting history (.ok work) t) :
    ∃ examined ∈ history, examined.processed = true := by
  have hready : s.turned.HeadReady s.nextInboundSource := ready
  have hprogress := @Engine.HeadReady.progresses _ _ _ _ _ hready ⟨.new Env.limits, []⟩ rfl positive commandLimit reissueWaiting
  cases h with
  | finished hend =>
    rcases hend with hitems | ⟨hstream, -⟩
    · simp only [InboundWorkBudget.remainingItems, InboundWorkBudget.new] at hitems
      omega
    · cases hstream
  | skipped hgiven _ => cases hsource : s.nextInboundSource <;> simp [hsource, Unavailable.has] at hgiven
  | refused _ run idle _ => exact absurd (wp_of_ok hprogress run) idle
  | examined _ _ _ run _ =>
    have hstep := wp_of_ok hprogress run
    exact ⟨_, List.mem_cons_self, by simpa using hstep⟩

/-! ## Two calls in a row -/

/-- A call in between that does not work on the inbound sources: it leaves the turn alone, or begins a stream. -/
def Engine.TakesNoTurn (s : Engine F) (call : Call F) : Prop :=
  (s.after call).nextInboundSource = s.nextInboundSource ∨ ∃ message, call = .snapshotBegin message

omit [Filesystem F] in
/-- The start of a stream leaves the feed alone, or empties the queue and gives the stream the first turn. -/
theorem snapshotBegin_feed (s : Engine F) (message : WorkspaceSnapshotBeginMessage) :
    wp (snapshotBegin message) (fun _ t => t.feed = s.feed ∨ t.feed = ⟨[], 0, .stream⟩)
      (fun _ t => t.feed = s.feed ∨ t.feed = ⟨[], 0, .stream⟩) s := by
  unfold snapshotBegin
  refine ensureOpen_keeps.wp_check (fun _ => ?_) (fun _ => .inl rfl)
  refine (requireValid_keeps _ _).wp_check (fun _ => ?_) (fun _ => .inl rfl)
  refine (requireThat_keeps _ _).wp_check (fun _ => ?_) (fun _ => .inl rfl)
  rw [wp_bind, wp_get]
  refine (transaction_feed _).wp_bind (fun _ t ht => ?_) (fun _ _ ht => .inl ht)
  rw [wp_onlyIf]
  exact ⟨fun _ => .inr rfl, fun _ => .inl ht⟩

theorem turn_of_gap (run : Run (fun e call => e.TakesNoTurn call ∧ (e.after call).HeadReady source) s t)
    (turn : s.nextInboundSource = source) : t.nextInboundSource = source := by
  refine Run.invariant (I := fun e : Engine F => e.nextInboundSource = source) run turn ?_
  rintro e call he ⟨hkeeps, hready⟩
  rcases hkeeps with hsame | ⟨message, rfl⟩
  · exact hsame.trans he
  have hbegun : (e.after (.snapshotBegin message)).feed = e.feed ∨
      (e.after (.snapshotBegin message)).feed = ⟨[], 0, .stream⟩ :=
    wp_final (wp_silently (snapshotBegin_feed e message))
  rcases hbegun with hsame | hstarted
  · exact (congrArg Feed.nextInboundSource hsame).trans he
  have hturn : (e.after (.snapshotBegin message)).nextInboundSource = .stream := congrArg Feed.nextInboundSource hstarted
  cases source with
  | stream => exact hturn
  | live =>
    -- the start of a stream empties the live queue, whose head was to stay ready
    obtain ⟨pending, hpending, -⟩ := hready
    have hempty : (e.after (.snapshotBegin message)).pendingLiveEvents = [] :=
      congrArg Feed.pendingLiveEvents hstarted
    rw [hempty] at hpending
    cases hpending

/-- The bounds of a call: its loop ends by itself, it examines no more items than the limit, and no more bytes than
the limit unless the first item alone exceeds it, and its counters never underflow. -/
def Engine.CallBounded (s : Engine F) (commandLimit : Nat) (reissueWaiting : Bool) : Prop :=
  (∀ rounds, resumeRounds Env.limits ≤ rounds →
    resumeLoop commandLimit reissueWaiting rounds s.nextInboundSource false false ⟨.new Env.limits, []⟩ s.turned =
      resumeLoop commandLimit reissueWaiting (resumeRounds Env.limits) s.nextInboundSource false false
        ⟨.new Env.limits, []⟩ s.turned) ∧
  ∃ history outcome t, s.Examines commandLimit reissueWaiting history outcome t ∧
    resumeInboundWork commandLimit reissueWaiting s = afterLoop outcome t ∧
    history.length ≤ Env.limits.maxItemsPerCall ∧
    FitBytes Env.limits.maxSerializedBytesPerCall (history.map (·.serializedBytes)) ∧
    ∀ examined ∈ history, examined.budget.usedItems ≤ examined.budget.maxItems

theorem Engine.callBounded (s : Engine F) (commandLimit : Nat) (reissueWaiting : Bool) :
    s.CallBounded commandLimit reissueWaiting := by
  constructor
  · intro rounds hrounds
    induction rounds, hrounds using Nat.le_induction with
    | base => rfl
    | succ rounds hrounds ih =>
      have henough := resumeLoop_enough commandLimit reissueWaiting rounds s.nextInboundSource ⟨false, false⟩
        ⟨.new Env.limits, []⟩ s.turned (Nat.le_trans (Nat.le_of_eq (roundsLeft_new _ _ _)) hrounds)
      exact henough.trans ih
  · obtain ⟨history, outcome, t, hexamines, hresult⟩ := resumeInboundWork_examines s commandLimit reissueWaiting
    obtain ⟨hbudgets, budget, hwithin⟩ := hexamines.within (Within.new Env.limits)
    exact ⟨history, outcome, t, hexamines, hresult, by simpa using hwithin.items, by simpa using hwithin.fit, hbudgets⟩

def Engine.Processes (s : Engine F) (commandLimit : Nat) (reissueWaiting : Bool) : Prop :=
  ∃ history work t, s.Examines commandLimit reissueWaiting history (.ok work) t ∧
    ∃ examined ∈ history, examined.processed = true

theorem processes_of_ok {commandLimit : Nat} {reissueWaiting : Bool} {commands : List SyncCommand}
    (positive : 0 < Env.limits.maxItemsPerCall) (ready : s.HeadReady s.nextInboundSource)
    (h : resumeInboundWork commandLimit reissueWaiting s = .ok commands t) :
    s.Processes commandLimit reissueWaiting := by
  obtain ⟨history, outcome, mid, hexamines, hresult⟩ := resumeInboundWork_examines s commandLimit reissueWaiting
  cases outcome with
  | ok work => exact ⟨history, work, mid, hexamines, processes_of_ready positive ready hexamines⟩
  | error e =>
    rw [hresult] at h
    cases h

end

section

namespace Sample.Tight

/-- A client that examines one item in a call. -/
scoped instance oneItem : Env := { Sample.client with limits := ⟨1, 262144, 256, 4194304⟩ }

end Sample.Tight

open scoped Sample.Tight

/-- The live queue has the turn and its head waits for content; the content of the staged entry has arrived. -/
def blockedEngine : Engine Disk :=
  ((((Sample.engine.after (.snapshotBegin ⟨1, 7, .snapshot, 0, 3, 1, 0, 0⟩)).after
    (.snapshotEntry ⟨1, 7, 0, Sample.file Sample.pathB 3 [1, 2, 3]⟩)).after
    (.event (Sample.writing Sample.pathA 5 [9]))).after (.resumeInboundWork 8 true)).after
    (.edit { Disk.empty with blobs := [[1, 2, 3]] })

theorem headReady_of_snapshot {s : Engine Disk} (active : StreamState) (record : StreamEntryRecord)
    (h : s.db.stream = some active ∧ active.mode = .snapshot ∧ s.db.pendingStreamEntry = some record)
    (hready : ContentReady s.files (requiredContent record.body.entry)) : s.HeadReady .stream := by
  obtain ⟨hstream, hmode, hentry⟩ := h
  refine ⟨active, hstream, ?_⟩
  rw [hmode]
  exact ⟨record, hentry, hready⟩

end

end Lumio.Sync
