import Lumio.Relay.Candidates

/-!
# Fairness of the rotation

While the settings stay as they are, the selections of an aggregate go around its schedule, wherever they start, and a
conversation stays with its relay.
-/

namespace Lumio.Relay

abbrev SelectorEntry := Machine.Entry GlobalSelector SelectorCall SelectorAnswer

inductive RotationCall where
  | select (context : RotationContext)
  | peek
  | recordEvent (event : RotationEvent)

def RotationCall.under (settings : BackendSettings) : RotationCall → SelectorCall
  | .select context => .select settings context
  | .peek => .probe settings
  | .recordEvent event => .record settings event

def selection (entry : SelectorEntry) : Option Text :=
  match entry.call, entry.answer with
  | .select _ _, some (.ok relay) => some relay.id
  | _, _ => none

def selectionFor (conversationId : Text) (entry : SelectorEntry) : Option RelayProfile :=
  match entry.call, entry.answer with
  | .select _ context, some (.ok relay) => if context.conversationId = some conversationId then some relay else none
  | _, _ => none

def current (aggregate : AggregateRelayProfile) (global : GlobalSelector) : RelayRotationSelector :=
  (global.filter (·.aggregate = aggregate)).getD { aggregate }

section Current

variable {settings : BackendSettings} {aggregate : AggregateRelayProfile} {global : GlobalSelector}

theorem current_aggregate : (current aggregate global).aggregate = aggregate := by
  unfold current
  cases hfilter : global.filter (·.aggregate = aggregate) with
  | none => rfl
  | some selector => simpa using (Option.filter_eq_some_iff.mp hfilter).2

theorem current_some {selector : RelayRotationSelector} (h : selector.aggregate = aggregate) :
    current aggregate (some selector) = selector := by
  rw [current, Option.filter_some_pos (by simpa using h)]
  rfl

theorem currentSelector_eq_current (hactive : settings.activeAggregateRelayProfile = some aggregate)
    (hvalid : validateAggregateMembers settings aggregate = .ok ()) :
    currentSelector settings aggregate global = .ok (current aggregate global) := by
  unfold currentSelector current
  cases global.filter (·.aggregate = aggregate) with
  | some selector => rfl
  | none =>
    simp only [RelayRotationSelector.fromSettings, activeAggregate_eq hactive, bind, Except.bind, hvalid]
    rfl

theorem select_of_valid (hvalid : validateAggregateMembers settings aggregate = .ok ())
    {selector : RelayRotationSelector} (haggregate : selector.aggregate = aggregate) (context : RotationContext) :
    selector.select settings context =
      ((selector.nextMember context).1, memberRelay settings aggregate (selector.nextMember context).2) := by
  unfold RelayRotationSelector.select
  rw [haggregate]
  simp only [hvalid]

variable (hactive : settings.activeAggregateRelayProfile = some aggregate)
  (hvalid : validateAggregateMembers settings aggregate = .ok ())

include hactive hvalid

theorem step_select (context : RotationContext) :
    current aggregate (selectorMachine.step global (.select settings context)).1 =
        ((current aggregate global).nextMember context).1 ∧
      (selectorMachine.step global (.select settings context)).2 =
        some (memberRelay settings aggregate ((current aggregate global).nextMember context).2) := by
  have hrequest : selectRelayForRequest settings context global =
      (some ((current aggregate global).nextMember context).1,
        memberRelay settings aggregate ((current aggregate global).nextMember context).2) := by
    unfold selectRelayForRequest
    rw [hactive]
    simp only [currentSelector_eq_current hactive hvalid, select_of_valid hvalid current_aggregate]
  constructor
  · show current aggregate (selectRelayForRequest settings context global).1 = _
    rw [hrequest]
    exact current_some ((nextMember_aggregate context).trans current_aggregate)
  · show some (selectRelayForRequest settings context global).2 = _
    rw [hrequest]

theorem step_probe : current aggregate (selectorMachine.step global (.probe settings)).1 = current aggregate global ∧
    (selectorMachine.step global (.probe settings)).2 = some ((current aggregate global).peek settings) := by
  have hprobe : selectRelayForProbe settings global =
      (some (current aggregate global), (current aggregate global).peek settings) := by
    unfold selectRelayForProbe
    rw [hactive]
    simp only [currentSelector_eq_current hactive hvalid]
  constructor
  · show current aggregate (selectRelayForProbe settings global).1 = _
    rw [hprobe]
    exact current_some current_aggregate
  · show some (selectRelayForProbe settings global).2 = _
    rw [hprobe]

omit hvalid in
theorem step_record (hstrategy : aggregate.strategy ≠ .failover) (event : RotationEvent) :
    current aggregate (selectorMachine.step global (.record settings event)).1 = current aggregate global := by
  show current aggregate (recordRelayRequestEvent settings event global) = _
  unfold recordRelayRequestEvent
  rw [hactive]
  simp only
  cases global with
  | none => rfl
  | some selector =>
    by_cases haggregate : selector.aggregate = aggregate
    · have hsame : selector.recordEvent event = selector := by
        unfold RelayRotationSelector.recordEvent
        rw [if_neg]
        rintro ⟨-, hfailover, -⟩
        exact hstrategy (haggregate ▸ hfailover)
      rw [Option.map_some, hsame]
    · have hother : (selector.recordEvent event).aggregate = selector.aggregate := by
        unfold RelayRotationSelector.recordEvent
        split <;> rfl
      rw [Option.map_some, current, current, Option.filter_some_neg (by simpa [hother] using haggregate),
        Option.filter_some_neg (by simpa using haggregate)]

end Current

/-! ## Going around -/

/-- A strategy that goes around a list: each selection takes the element at an index and moves the index on. -/
structure GoesAround (aggregate : AggregateRelayProfile) (ids : List Text) (index : RelayRotationSelector → Nat) :
    Prop where
  next : ∀ (selector : RelayRotationSelector) (context : RotationContext), selector.aggregate = aggregate →
    (selector.nextMember context).2 = cyclic ids (index selector) ∧
      index (selector.nextMember context).1 = (index selector + 1) % ids.length
  notFailover : aggregate.strategy ≠ .failover

section Around

variable {settings : BackendSettings} {aggregate : AggregateRelayProfile} {ids : List Text}
  {index : RelayRotationSelector → Nat}

theorem goesAround_weighted (h : aggregate.strategy = .weightedRoundRobin) :
    GoesAround aggregate (RelayRotationSelector.weightedSchedule { aggregate }) (·.weightedIndex) where
  next := by
    intro selector context haggregate
    have hschedule : RelayRotationSelector.weightedSchedule { aggregate } = selector.weightedSchedule := by
      rw [← haggregate]
      rfl
    unfold RelayRotationSelector.nextMember
    rw [haggregate, h, hschedule]
    exact ⟨rfl, rfl⟩
  notFailover := by
    rw [h]
    nofun

theorem goesAround_request (h : aggregate.strategy = .requestRoundRobin) :
    GoesAround aggregate (aggregate.members.map (·.relayId)) (·.requestIndex) where
  next := by
    intro selector context haggregate
    unfold RelayRotationSelector.nextMember
    rw [haggregate, h, List.length_map, ← haggregate]
    exact ⟨rfl, rfl⟩
  notFailover := by
    rw [h]
    nofun

theorem selections_eq (hactive : settings.activeAggregateRelayProfile = some aggregate)
    (hvalid : validateAggregateMembers settings aggregate = .ok ()) (haround : GoesAround aggregate ids index)
    (hmembers : ∀ relayId ∈ ids, relayId ∈ aggregate.members.map (·.relayId)) (hpos : 0 < ids.length)
    (calls : List RotationCall) (global : GlobalSelector) :
    ∃ count, (selectorMachine.log global (calls.map (·.under settings))).filterMap selection =
      (List.range count).map fun offset => cyclic ids (index (current aggregate global) + offset) := by
  induction calls generalizing global with
  | nil => exact ⟨0, rfl⟩
  | cons call calls ih =>
    obtain ⟨count, hcount⟩ := ih (selectorMachine.step global (call.under settings)).1
    rw [List.map_cons, Machine.log, List.filterMap_cons]
    cases call with
    | select context =>
      obtain ⟨hnext, hanswer⟩ := @step_select _ _ global hactive hvalid context
      obtain ⟨hid, hindex⟩ := haround.next (current aggregate global) context current_aggregate
      obtain ⟨relay, hrelay, hrelayId⟩ := memberRelay_of_valid hvalid
        (hmembers _ (cyclic_mem hpos (index (current aggregate global))))
      have hselection : selection (selectorMachine.entry global (RotationCall.under settings (.select context))) =
          some (cyclic ids (index (current aggregate global))) := by
        simp only [selection, Machine.entry, RotationCall.under, hanswer, hid, hrelay, hrelayId]
      rw [hselection]
      refine ⟨count + 1, ?_⟩
      simp only
      rw [hcount, List.range_succ_eq_map, List.map_cons, List.map_map]
      congr 1
      apply List.map_congr_left
      intro offset _
      show cyclic ids (index (current aggregate
        (selectorMachine.step global (.select settings context)).1) + offset) = _
      rw [hnext, hindex, Function.comp_apply, Nat.succ_eq_add_one, ← cyclic_mod, Nat.mod_add_mod, cyclic_mod]
      congr 1
      omega
    | peek =>
      obtain ⟨hsame, hanswer⟩ := @step_probe _ _ global hactive hvalid
      refine ⟨count, ?_⟩
      show (selectorMachine.log (selectorMachine.step global (.probe settings)).1 _).filterMap selection = _
      rw [← hsame]
      exact hcount
    | recordEvent event =>
      have hsame := @step_record _ _ global hactive haround.notFailover event
      refine ⟨count, ?_⟩
      show (selectorMachine.log (selectorMachine.step global (.record settings event)).1 _).filterMap selection = _
      rw [← hsame]
      exact hcount

theorem window_eq_rotate {count start : Nat} {selections : List Text}
    (h : selections = (List.range count).map fun offset => cyclic ids (start + offset)) (skipped : Nat)
    (hlength : skipped + ids.length ≤ selections.length) :
    (selections.drop skipped).take ids.length = ids.rotate (start + skipped) := by
  rw [← map_cyclic_eq_rotate]
  subst h
  rw [List.length_map, List.length_range] at hlength
  apply List.ext_getElem
  · rw [List.length_take, List.length_drop, List.length_map, List.length_map, List.length_range, List.length_range]
    omega
  · intro place hwindow hwalk
    rw [List.getElem_take, List.getElem_drop, List.getElem_map, List.getElem_map, List.getElem_range, List.getElem_range,
      Nat.add_assoc]

end Around

/-! ## Conversations -/

section Conversations

variable {settings : BackendSettings} {aggregate : AggregateRelayProfile}

/-- The relays that were selected for conversations are the ones that the conversations are assigned to. -/
def Sticks (settings : BackendSettings) (aggregate : AggregateRelayProfile) (global : GlobalSelector)
    (log : List SelectorEntry) : Prop :=
  ∀ conversationId, ∀ relay ∈ log.filterMap (selectionFor conversationId), ∃ relayId,
    (current aggregate global).conversationAssignments.lookup conversationId = some relayId ∧
      memberRelay settings aggregate relayId = .ok relay

variable {conversationId : Text}

theorem nextMember_conversation {selector : RelayRotationSelector}
    (hstrategy : selector.aggregate.strategy = .conversationRoundRobin) {context : RotationContext}
    (hcontext : context.conversationId = some conversationId) :
    (selector.nextMember context).1.conversationAssignments.lookup conversationId =
      some (selector.nextMember context).2 := by
  unfold RelayRotationSelector.nextMember
  rw [hstrategy]
  simp only [RelayRotationSelector.selectForConversation, hcontext]
  split
  · rename_i hknown
    exact hknown
  · exact AList.lookup_insert _

theorem nextMember_keeps {selector : RelayRotationSelector} (context : RotationContext) {relayId : Text}
    (h : selector.conversationAssignments.lookup conversationId = some relayId) :
    (selector.nextMember context).1.conversationAssignments.lookup conversationId = some relayId := by
  unfold RelayRotationSelector.nextMember
  cases selector.aggregate.strategy with
  | failover => exact h
  | requestRoundRobin => exact h
  | weightedRoundRobin => exact h
  | conversationRoundRobin =>
    simp only [RelayRotationSelector.selectForConversation]
    split
    · exact h
    · split
      · exact h
      · rename_i _ other _ _ hother
        have hne : conversationId ≠ other := by
          rintro rfl
          rw [hother] at h
          cases h
        exact (AList.lookup_insert_ne hne).trans h

theorem selectionFor_cases {entry : SelectorEntry} {relay : RelayProfile}
    (h : selectionFor conversationId entry = some relay) :
    ∃ settings context, entry.call = .select settings context ∧ context.conversationId = some conversationId ∧
      entry.answer = some (.ok relay) := by
  unfold selectionFor at h
  split at h
  · rename_i settings context found hcall hanswer
    split at h
    · rename_i hcontext
      cases h
      exact ⟨settings, context, hcall, hcontext, hanswer⟩
    · cases h
  · cases h

variable (hactive : settings.activeAggregateRelayProfile = some aggregate)
  (hvalid : validateAggregateMembers settings aggregate = .ok ())

include hactive hvalid

theorem step_sticks (hstrategy : aggregate.strategy = .conversationRoundRobin) {global : GlobalSelector}
    {past : List SelectorEntry} (h : Sticks settings aggregate global past) (call : RotationCall) :
    Sticks settings aggregate (selectorMachine.step global (call.under settings)).1
      (past ++ [selectorMachine.entry global (call.under settings)]) := by
  have hnotFailover : aggregate.strategy ≠ .failover := by
    rw [hstrategy]
    nofun
  intro conversationId relay hmem
  rw [List.filterMap_append, List.mem_append] at hmem
  cases call with
  | select context =>
    obtain ⟨hnext, hanswer⟩ := @step_select _ _ global hactive hvalid context
    show ∃ relayId, (current aggregate (selectorMachine.step global
      (.select settings context)).1).conversationAssignments.lookup conversationId = some relayId ∧ _
    rw [hnext]
    rcases hmem with hmem | hmem
    · obtain ⟨relayId, hassigned, hrelay⟩ := h conversationId relay hmem
      exact ⟨relayId, nextMember_keeps context hassigned, hrelay⟩
    · obtain ⟨entry, hentry, hselected⟩ := List.mem_filterMap.mp hmem
      rw [List.mem_singleton.mp hentry] at hselected
      obtain ⟨_, _, hcall, hcontext, hselected⟩ := selectionFor_cases hselected
      cases hcall
      refine ⟨((current aggregate global).nextMember context).2, ?_, ?_⟩
      · exact nextMember_conversation (current_aggregate ▸ hstrategy) hcontext
      · exact Option.some.inj (hanswer.symm.trans hselected)
  | peek =>
    have hsame := (@step_probe _ _ global hactive hvalid).1
    rcases hmem with hmem | hmem
    · show ∃ relayId, (current aggregate (selectorMachine.step global
        (.probe settings)).1).conversationAssignments.lookup conversationId = some relayId ∧ _
      rw [hsame]
      exact h conversationId relay hmem
    · cases hmem
  | recordEvent event =>
    have hsame := @step_record _ _ global hactive hnotFailover event
    rcases hmem with hmem | hmem
    · show ∃ relayId, (current aggregate (selectorMachine.step global
        (.record settings event)).1).conversationAssignments.lookup conversationId = some relayId ∧ _
      rw [hsame]
      exact h conversationId relay hmem
    · cases hmem

theorem run_sticks (hstrategy : aggregate.strategy = .conversationRoundRobin) (calls : List RotationCall) :
    ∀ (global : GlobalSelector) (past : List SelectorEntry), Sticks settings aggregate global past →
      Sticks settings aggregate (selectorMachine.run global (calls.map (·.under settings)))
        (past ++ selectorMachine.log global (calls.map (·.under settings))) := by
  induction calls with
  | nil =>
    intro global past h
    rw [List.map_nil, Machine.log, List.append_nil]
    exact h
  | cons call calls ih =>
    intro global past h
    have hrest := ih _ _ (step_sticks hactive hvalid hstrategy h call)
    rwa [List.append_assoc, List.singleton_append] at hrest

end Conversations

/-! ## The rotation -/

theorem count_weightedSchedule (members : List AggregateRelayMember) (relayId : Text) :
    (members.flatMap fun member => List.replicate (max member.weight 1) member.relayId).count relayId =
      ((members.filter (·.relayId = relayId)).map fun member => max member.weight 1).sum := by
  induction members with
  | nil => rfl
  | cons member members ih =>
    rw [List.flatMap_cons, List.count_append, ih, List.count_replicate, List.filter_cons]
    by_cases heq : member.relayId = relayId
    · simp [heq]
    · simp [heq]

/-- Looking ahead shows what the next selection takes, unless it is for a conversation that is assigned. -/
theorem probe_eq_select {settings : BackendSettings} {aggregate : AggregateRelayProfile}
    (hactive : settings.activeAggregateRelayProfile = some aggregate)
    (hvalid : validateAggregateMembers settings aggregate = .ok ()) (global : GlobalSelector)
    (context : RotationContext) (hunknown : ∀ conversationId, context.conversationId = some conversationId →
      (current aggregate global).conversationAssignments.lookup conversationId = none) :
    (selectorMachine.step global (.probe settings)).2 = (selectorMachine.step global (.select settings context)).2 := by
  rw [(step_probe hactive hvalid).2, (step_select hactive hvalid context).2]
  congr 1
  unfold RelayRotationSelector.peek RelayRotationSelector.nextMember
  rw [current_aggregate]
  simp only [bind, Except.bind, hvalid]
  cases aggregate.strategy with
  | failover => rfl
  | requestRoundRobin => rfl
  | weightedRoundRobin => rfl
  | conversationRoundRobin =>
    simp only [RelayRotationSelector.selectForConversation]
    cases hcontext : context.conversationId with
    | none => rfl
    | some conversationId =>
      simp only [hunknown conversationId hcontext]
      rfl

theorem select_succeeds {settings : BackendSettings} {aggregate : AggregateRelayProfile}
    (hactive : settings.activeAggregateRelayProfile = some aggregate)
    (hvalid : validateAggregateMembers settings aggregate = .ok ()) {global : GlobalSelector}
    (hassigned : AllAssigned global) (context : RotationContext) :
    ∃ relay, (selectRelayForRequest settings context global).2 = .ok relay := by
  have hpos : 0 < (current aggregate global).aggregate.members.length := by
    rw [current_aggregate]
    exact validate_nonempty hvalid
  have hcurrent := currentSelector_assigned hassigned (currentSelector_eq_current hactive hvalid)
  have hmember := nextMember_mem hpos hcurrent context
  rw [RelayRotationSelector.memberIds, current_aggregate] at hmember
  obtain ⟨relay, hrelay, -⟩ := memberRelay_of_valid hvalid hmember
  exact ⟨relay, (Option.some.inj (step_select hactive hvalid context).2).trans hrelay⟩

/-- Whatever the shared selector was used for before, the uses of it under settings that stay as they are select fairly:
every selection succeeds, any window of the weights' sum of weighted selections has each relay as often as the weights of
its members say, any window of one request for each member has each member, a conversation keeps its relay, and looking
ahead shows the next selection. -/
theorem rotation_fair (earlier : List SelectorCall) (settings : BackendSettings) (aggregate : AggregateRelayProfile)
    (hactive : settings.activeAggregateRelayProfile = some aggregate)
    (hvalid : validateAggregateMembers settings aggregate = .ok ()) (calls : List RotationCall) :
    let start := selectorMachine.run none earlier
    let log := selectorMachine.log start (calls.map (·.under settings))
    (aggregate.strategy = .weightedRoundRobin → ∀ skipped window,
      window = (aggregate.members.map fun member => max member.weight 1).sum →
      skipped + window ≤ (log.filterMap selection).length →
      ∀ relayId, (((log.filterMap selection).drop skipped).take window).count relayId =
        ((aggregate.members.filter (·.relayId = relayId)).map fun member => max member.weight 1).sum) ∧
    (aggregate.strategy = .requestRoundRobin → ∀ skipped,
      skipped + aggregate.members.length ≤ (log.filterMap selection).length →
      (((log.filterMap selection).drop skipped).take aggregate.members.length).Perm
        (aggregate.members.map (·.relayId))) ∧
    (aggregate.strategy = .conversationRoundRobin → ∀ conversationId,
      ∀ first ∈ log.filterMap (selectionFor conversationId), ∀ second ∈ log.filterMap (selectionFor conversationId),
        first = second) ∧
    (∀ context, ∃ relay,
      (selectRelayForRequest settings context (selectorMachine.run start (calls.map (·.under settings)))).2 = .ok relay) ∧
    ∀ context, (∀ conversationId, context.conversationId = some conversationId →
        (current aggregate (selectorMachine.run start (calls.map (·.under settings)))).conversationAssignments.lookup
          conversationId = none) →
      (selectRelayForProbe settings (selectorMachine.run start (calls.map (·.under settings)))).2 =
        (selectRelayForRequest settings context (selectorMachine.run start (calls.map (·.under settings)))).2 := by
  intro start log
  have hpos := validate_nonempty hvalid
  refine ⟨?_, ?_, ?_, fun context => ?_, ?_⟩
  · intro hstrategy skipped window hwindow hlength relayId
    have hsum : window = (RelayRotationSelector.weightedSchedule { aggregate }).length := by
      rw [hwindow, RelayRotationSelector.weightedSchedule, List.length_flatMap]
      simp
    obtain ⟨count, hcount⟩ := selections_eq hactive hvalid (goesAround_weighted hstrategy)
      (fun _ h => @weightedSchedule_subset { aggregate } _ h)
      (@weightedSchedule_pos { aggregate } hpos) calls start
    rw [hsum] at hlength ⊢
    rw [window_eq_rotate hcount skipped hlength, (List.rotate_perm _ _).count_eq]
    exact count_weightedSchedule aggregate.members relayId
  · intro hstrategy skipped hlength
    obtain ⟨count, hcount⟩ := selections_eq hactive hvalid (goesAround_request hstrategy) (fun _ h => h)
      (by rw [List.length_map]; exact hpos) calls start
    have hmembers : aggregate.members.length = (aggregate.members.map (·.relayId)).length := (List.length_map _).symm
    rw [hmembers] at hlength ⊢
    rw [window_eq_rotate hcount skipped hlength]
    exact List.rotate_perm _ _
  · intro hstrategy conversationId first hfirst second hsecond
    have hsticks := run_sticks hactive hvalid hstrategy calls start [] (fun _ _ h => by cases h)
    rw [List.nil_append] at hsticks
    obtain ⟨firstId, hfirstId, hfirstRelay⟩ := hsticks conversationId first hfirst
    obtain ⟨secondId, hsecondId, hsecondRelay⟩ := hsticks conversationId second hsecond
    rw [hfirstId] at hsecondId
    cases hsecondId
    rw [hfirstRelay] at hsecondRelay
    exact Except.ok.inj hsecondRelay
  · refine select_succeeds hactive hvalid ?_ context
    show AllAssigned (selectorMachine.run (selectorMachine.run none earlier) _)
    rw [← selectorMachine.run_append]
    exact run_assigned _
  · intro context hunknown
    exact Option.some.inj (probe_eq_select hactive hvalid _ context hunknown)

def weightedAggregate : AggregateRelayProfile :=
  { sampleAggregate with strategy := .weightedRoundRobin, members := [⟨['a'], 2⟩, ⟨['b'], 0⟩] }

def weightedSettings : BackendSettings := { sampleSettings with aggregateRelayProfiles := [weightedAggregate] }

theorem weighted_window :
    ((((selectorMachine.log none ((List.replicate 5 (RotationCall.select {})).map (·.under weightedSettings))).filterMap
      selection).drop 1).take 3).count ['a'] =
        ((weightedAggregate.members.filter (·.relayId = ['a'])).map fun member => max member.weight 1).sum :=
  (rotation_fair [] weightedSettings weightedAggregate (by decide +kernel) (by rfl) (List.replicate 5 (.select {}))).1 rfl 1 3
    rfl (by decide +kernel) ['a']

end Lumio.Relay
