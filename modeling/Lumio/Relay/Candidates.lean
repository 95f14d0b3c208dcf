import Lumio.Lib.Machine
import Lumio.Relay.Failover
import Mathlib.Data.List.Rotate

/-!
# The candidates of a request

A request tries the relay that was selected and then the fallbacks of it. Whatever the shared selector was used for
before, these are the members of the aggregate, in their order around from the selected one.
-/

namespace Lumio.Relay

inductive SelectorCall where
  | select (settings : BackendSettings) (context : RotationContext)
  | probe (settings : BackendSettings)
  | record (settings : BackendSettings) (event : RotationEvent)

abbrev SelectorAnswer := Option (Except SelectionError RelayProfile)

def selectorMachine : Machine GlobalSelector SelectorCall SelectorAnswer where
  step global
    | .select settings context =>
      ((selectRelayForRequest settings context global).1, some (selectRelayForRequest settings context global).2)
    | .probe settings => ((selectRelayForProbe settings global).1, some (selectRelayForProbe settings global).2)
    | .record settings event => (recordRelayRequestEvent settings event global, none)

/-! ## Members -/

def Assigned (selector : RelayRotationSelector) : Prop :=
  ∀ conversationId relayId, selector.conversationAssignments.lookup conversationId = some relayId →
    relayId ∈ selector.memberIds

section Members

variable {settings : BackendSettings} {aggregate : AggregateRelayProfile} {selector : RelayRotationSelector}

theorem cyclic_mem {ids : List Text} (hpos : 0 < ids.length) (index : Nat) : cyclic ids index ∈ ids := by
  rw [cyclic_eq hpos]
  exact List.get_mem ids _

theorem memberIdAt_mem (hpos : 0 < selector.aggregate.members.length) (index : Nat) :
    selector.memberIdAt index ∈ selector.memberIds := by
  apply cyclic_mem
  rw [RelayRotationSelector.memberIds, List.length_map]
  exact hpos

theorem weightedSchedule_subset {relayId : Text} (h : relayId ∈ selector.weightedSchedule) :
    relayId ∈ selector.memberIds := by
  obtain ⟨member, hmember, hid⟩ := List.mem_flatMap.mp h
  rw [List.eq_of_mem_replicate hid]
  exact List.mem_map_of_mem hmember

theorem weightedSchedule_pos (hpos : 0 < selector.aggregate.members.length) : 0 < selector.weightedSchedule.length := by
  obtain ⟨member, hmember⟩ := List.exists_mem_of_length_pos hpos
  apply List.length_pos_of_mem (a := member.relayId)
  refine List.mem_flatMap.mpr ⟨member, hmember, List.mem_replicate.mpr ⟨?_, rfl⟩⟩
  omega

theorem nextMember_mem (hpos : 0 < selector.aggregate.members.length) (hassigned : Assigned selector)
    (context : RotationContext) : (selector.nextMember context).2 ∈ selector.memberIds := by
  unfold RelayRotationSelector.nextMember
  cases selector.aggregate.strategy with
  | failover => exact memberIdAt_mem hpos _
  | requestRoundRobin => exact memberIdAt_mem hpos _
  | weightedRoundRobin => exact weightedSchedule_subset (cyclic_mem (weightedSchedule_pos hpos) _)
  | conversationRoundRobin =>
    simp only [RelayRotationSelector.selectForConversation]
    split
    · exact memberIdAt_mem hpos _
    · split
      · rename_i hknown
        exact hassigned _ _ hknown
      · exact memberIdAt_mem hpos _

theorem nextMember_aggregate (context : RotationContext) :
    (selector.nextMember context).1.aggregate = selector.aggregate := by
  unfold RelayRotationSelector.nextMember
  cases selector.aggregate.strategy with
  | failover => rfl
  | requestRoundRobin => rfl
  | weightedRoundRobin => rfl
  | conversationRoundRobin =>
    simp only [RelayRotationSelector.selectForConversation]
    split
    · rfl
    · split <;> rfl

theorem nextMember_assigned (hpos : 0 < selector.aggregate.members.length) (hassigned : Assigned selector)
    (context : RotationContext) : Assigned (selector.nextMember context).1 := by
  unfold RelayRotationSelector.nextMember
  cases selector.aggregate.strategy with
  | failover => exact hassigned
  | requestRoundRobin => exact hassigned
  | weightedRoundRobin => exact hassigned
  | conversationRoundRobin =>
    simp only [RelayRotationSelector.selectForConversation]
    split
    · exact hassigned
    · split
      · exact hassigned
      · intro other relayId hother
        rcases (Table.lookup_insert_iff relayId).mp hother with ⟨-, rfl⟩ | ⟨-, hold⟩
        · exact memberIdAt_mem hpos _
        · exact hassigned other relayId hold

theorem select_assigned (hassigned : Assigned selector) (context : RotationContext) :
    Assigned (selector.select settings context).1 := by
  unfold RelayRotationSelector.select
  split
  · exact hassigned
  · rename_i hvalid
    exact nextMember_assigned (validate_nonempty hvalid) hassigned context

theorem recordEvent_assigned (hassigned : Assigned selector) (event : RotationEvent) :
    Assigned (selector.recordEvent event) := by
  unfold RelayRotationSelector.recordEvent
  split <;> exact hassigned

end Members

/-! ## The shared selector -/

def AllAssigned (global : GlobalSelector) : Prop := ∀ selector, global = some selector → Assigned selector

section Shared

variable {settings : BackendSettings} {aggregate : AggregateRelayProfile} {global : GlobalSelector}

theorem fromSettings_assigned {selector : RelayRotationSelector}
    (h : RelayRotationSelector.fromSettings settings = .ok selector) : Assigned selector := by
  unfold RelayRotationSelector.fromSettings at h
  cases haggregate : activeAggregate settings with
  | error e => rw [haggregate] at h; cases h
  | ok aggregate =>
    rw [haggregate] at h
    cases hvalid : validateAggregateMembers settings aggregate with
    | error e => simp only [bind, Except.bind, hvalid] at h; cases h
    | ok _ =>
      simp only [bind, Except.bind, hvalid] at h
      cases h
      intro conversationId relayId hlookup
      cases hlookup

theorem currentSelector_assigned (h : AllAssigned global) {selector : RelayRotationSelector}
    (hcurrent : currentSelector settings aggregate global = .ok selector) : Assigned selector := by
  unfold currentSelector at hcurrent
  split at hcurrent
  · rename_i found hfound
    cases hcurrent
    exact h _ (Option.eq_some_of_filter_eq_some hfound)
  · exact fromSettings_assigned hcurrent

theorem step_assigned (h : AllAssigned global) (call : SelectorCall) :
    AllAssigned (selectorMachine.step global call).1 := by
  cases call with
  | select settings context =>
    show AllAssigned (selectRelayForRequest settings context global).1
    unfold selectRelayForRequest
    split
    · nofun
    · split
      · exact h
      · rename_i hcurrent
        intro selector hselector
        cases hselector
        exact select_assigned (currentSelector_assigned h hcurrent) context
  | probe settings =>
    show AllAssigned (selectRelayForProbe settings global).1
    unfold selectRelayForProbe
    split
    · nofun
    · split
      · exact h
      · rename_i hcurrent
        intro selector hselector
        cases hselector
        exact currentSelector_assigned h hcurrent
  | record settings event =>
    show AllAssigned (recordRelayRequestEvent settings event global)
    unfold recordRelayRequestEvent
    split
    · nofun
    · intro selector hselector
      obtain ⟨old, hold, rfl⟩ := Option.map_eq_some_iff.mp hselector
      exact recordEvent_assigned (h old hold) event

theorem run_assigned (calls : List SelectorCall) : AllAssigned (selectorMachine.run none calls) :=
  selectorMachine.invariant (C := fun _ _ => True) (I := fun global _ => AllAssigned global)
    (fun _ _ call _ h => step_assigned h call) (fun _ _ => trivial) nofun

end Shared

/-! ## The candidates -/

section Candidates

variable {settings : BackendSettings} {aggregate : AggregateRelayProfile}

theorem forM_ok_mem {α ε : Type} {f : α → Except ε Unit} {xs : List α} (h : xs.forM f = .ok ()) {x : α} (hx : x ∈ xs) :
    f x = .ok () := by
  induction xs with
  | nil => cases hx
  | cons first rest ih =>
    have h : (f first).bind (fun _ => rest.forM f) = .ok () := h
    cases hfirst : f first with
    | error e => rw [hfirst] at h; cases h
    | ok _ =>
      rw [hfirst] at h
      rcases List.mem_cons.mp hx with rfl | hx
      · exact hfirst
      · exact ih h hx

theorem memberRelay_of_valid (hvalid : validateAggregateMembers settings aggregate = .ok ()) {relayId : Text}
    (hmem : relayId ∈ aggregate.members.map (·.relayId)) :
    ∃ relay, memberRelay settings aggregate relayId = .ok relay ∧ relay.id = relayId := by
  obtain ⟨member, hmember, rfl⟩ := List.mem_map.mp hmem
  have hvalidMember : validateMember settings aggregate.id member = .ok () := by
    unfold validateAggregateMembers at hvalid
    split at hvalid
    · cases hvalid
    · exact forM_ok_mem hvalid hmember
  have hfound : (relayProfileById settings member.relayId).isSome = true := by
    unfold validateMember relayById at hvalidMember
    split at hvalidMember
    · cases hvalidMember
    · rename_i relay hrelay
      rw [relayProfileById, List.find?_isSome]
      exact ⟨relay, List.mem_reverse.mp (List.mem_of_find?_eq_some hrelay), by simpa using List.find?_some hrelay⟩
  obtain ⟨relay, hrelay⟩ := Option.isSome_iff_exists.mp hfound
  have hmember : memberRelay settings aggregate member.relayId = .ok relay := by
    rw [memberRelay, hrelay]
  exact ⟨relay, hmember, memberRelay_id hmember⟩

theorem mapM_memberRelay_ok (hvalid : validateAggregateMembers settings aggregate = .ok ()) {f : Nat → Text}
    {offsets : List Nat} (hmem : ∀ offset, f offset ∈ aggregate.members.map (·.relayId)) :
    ∃ relays, offsets.mapM (fun offset => memberRelay settings aggregate (f offset)) = .ok relays := by
  induction offsets with
  | nil => exact ⟨[], rfl⟩
  | cons offset offsets ih =>
    obtain ⟨relay, hrelay, -⟩ := memberRelay_of_valid hvalid (hmem offset)
    obtain ⟨relays, hrelays⟩ := ih
    refine ⟨relay :: relays, ?_⟩
    rw [List.mapM_cons, hrelay]
    simp only [bind, Except.bind, pure, Except.pure] at hrelays ⊢
    rw [hrelays]

theorem fallbackRelaysAfter_ok (hactive : settings.activeAggregateRelayProfile = some aggregate)
    (hvalid : validateAggregateMembers settings aggregate = .ok ()) (relayId : Text) :
    ∃ relays, fallbackRelaysAfter settings relayId = .ok relays := by
  have hpos : 0 < (aggregate.members.map (·.relayId)).length := by
    rw [List.length_map]
    exact validate_nonempty hvalid
  obtain ⟨relays, hrelays⟩ := @mapM_memberRelay_ok _ aggregate hvalid _
    (List.range ((aggregate.members.map (·.relayId)).length - 1))
    fun offset => cyclic_mem hpos
      ((((aggregate.members.map (·.relayId)).idxOf? relayId).map (· + 1)).getD 0 + offset)
  refine ⟨relays, ?_⟩
  unfold fallbackRelaysAfter
  rw [hactive]
  simp only [hvalid]
  exact hrelays

theorem currentSelector_aggregate (hactive : settings.activeAggregateRelayProfile = some aggregate)
    (hvalid : validateAggregateMembers settings aggregate = .ok ()) (global : GlobalSelector) :
    ∃ selector, currentSelector settings aggregate global = .ok selector ∧ selector.aggregate = aggregate := by
  unfold currentSelector
  split
  · rename_i found hfound
    exact ⟨found, rfl, by simpa using (Option.filter_eq_some_iff.mp hfound).2⟩
  · refine ⟨{ aggregate }, ?_, rfl⟩
    unfold RelayRotationSelector.fromSettings
    rw [activeAggregate_eq hactive]
    simp only [bind, Except.bind, hvalid]
    rfl

theorem map_cyclic_eq_rotate (ids : List Text) (start : Nat) :
    (List.range ids.length).map (fun offset => cyclic ids (start + offset)) = ids.rotate start := by
  apply List.ext_getElem
  · rw [List.length_map, List.length_range, List.length_rotate]
  · intro index hindex hrotate
    have hpos : 0 < ids.length := by
      rw [List.length_rotate] at hrotate
      omega
    rw [List.getElem_map, List.getElem_range, cyclic_eq hpos, List.getElem_rotate, List.get_eq_getElem]
    congr 1
    rw [Nat.add_comm]

/-- Whatever the selector was used for before, a request has each member of a valid aggregate once among its candidates,
in the order of the members around from the selected one. -/
theorem candidates_eq_rotate (calls : List SelectorCall) (settings : BackendSettings)
    (aggregate : AggregateRelayProfile) (context : RotationContext)
    (hactive : settings.activeAggregateRelayProfile = some aggregate)
    (hvalid : validateAggregateMembers settings aggregate = .ok ())
    (hnodup : (aggregate.members.map (·.relayId)).Nodup) :
    ∃ relay rest start,
      (selectRelayForRequest settings context (selectorMachine.run none calls)).2 = .ok relay ∧
      fallbackRelaysAfter settings relay.id = .ok rest ∧
      start < aggregate.members.length ∧
      (relay :: rest).map (·.id) = (aggregate.members.map (·.relayId)).rotate start ∧
      ∀ member ∈ aggregate.members, ((relay :: rest).map (·.id)).count member.relayId = 1 := by
  have hpos := validate_nonempty hvalid
  obtain ⟨selector, hcurrent, haggregate⟩ := currentSelector_aggregate hactive hvalid (selectorMachine.run none calls)
  have hassigned := currentSelector_assigned (run_assigned calls) hcurrent
  have hmem := nextMember_mem (haggregate ▸ hpos) hassigned context
  rw [RelayRotationSelector.memberIds, haggregate] at hmem
  obtain ⟨relay, hrelay, hid⟩ := memberRelay_of_valid hvalid hmem
  obtain ⟨start, hstart, hget⟩ := List.mem_iff_getElem.mp hmem
  have hcyclic : relay.id = cyclic (aggregate.members.map (·.relayId)) start := by
    rw [hid, ← hget, cyclic_eq (Nat.zero_lt_of_lt hstart), List.get_eq_getElem]
    congr 1
    exact (Nat.mod_eq_of_lt hstart).symm
  rw [List.length_map] at hstart
  obtain ⟨rest, hrest⟩ := fallbackRelaysAfter_ok hactive hvalid relay.id
  have hids : (relay :: rest).map (·.id) = (aggregate.members.map (·.relayId)).rotate start := by
    rw [← map_cyclic_eq_rotate, List.length_map, ← Nat.succ_pred_eq_of_pos hpos, List.range_succ_eq_map, List.map_cons,
      List.map_cons, Nat.add_zero, hcyclic, List.map_map]
    congr 1
    rw [hcyclic] at hrest
    rw [fallbackRelaysAfter_ids hactive hnodup hstart hrest]
    apply List.map_congr_left
    intro offset _
    rw [Function.comp_apply, Nat.add_assoc, Nat.add_comm 1, Nat.succ_eq_add_one]
  refine ⟨relay, rest, start, ?_, hrest, hstart, hids, ?_⟩
  · unfold selectRelayForRequest
    rw [hactive]
    simp only [hcurrent, RelayRotationSelector.select, haggregate, hvalid]
    exact hrelay
  · intro member hmember
    rw [hids]
    exact List.count_eq_one_of_mem (List.nodup_rotate.mpr hnodup)
      (List.mem_rotate.mpr (List.mem_map_of_mem hmember))

end Candidates

theorem candidates_after_failure : ∃ relay rest start,
    (selectRelayForRequest sampleSettings {} (selectorMachine.run none
      [.select sampleSettings {}, .record sampleSettings .failure])).2 = .ok relay ∧
    fallbackRelaysAfter sampleSettings relay.id = .ok rest ∧
    start < sampleAggregate.members.length ∧
    (relay :: rest).map (·.id) = (sampleAggregate.members.map (·.relayId)).rotate start ∧
    ∀ member ∈ sampleAggregate.members, ((relay :: rest).map (·.id)).count member.relayId = 1 :=
  candidates_eq_rotate [.select sampleSettings {}, .record sampleSettings .failure] sampleSettings sampleAggregate {}
    (by decide +kernel) (by rfl) (by decide +kernel)

end Lumio.Relay
