import Lumio.Lib.Emit
import Lumio.Relay.Rotation

/-!
# Concurrent requests under failover

Every request selects a relay, tries it and then its fallbacks, and reports each answer to the shared selector. The
reports do not name the relay, so a report is counted against the member that is current when it is recorded.
-/

namespace Lumio.Relay

/-- Where a request stands: it waits for a relay, has an answer that is not reported yet, or has returned. -/
inductive Request where
  | sending (relay : RelayProfile) (rest : List RelayProfile)
  | answered (relay : RelayProfile) (event : RotationEvent) (rest : List RelayProfile)
  | finished

def Request.candidates : Request → List RelayProfile
  | sending relay rest | answered relay _ rest => relay :: rest
  | finished => []

/-- After a report the request goes on with the next candidate, unless it has succeeded or there is none. -/
def Request.next (event : RotationEvent) : List RelayProfile → Request
  | relay :: rest => if event = .failure then .sending relay rest else .finished
  | [] => .finished

structure World where
  global : GlobalSelector := none
  requests : Table Nat Request := ∅

inductive Action where
  /-- A request comes in, selects a relay and lists its fallbacks. -/
  | open (request : Nat) (context : RotationContext)
  /-- The relay answers with success, or with an error status or not at all. -/
  | answer (request : Nat) (event : RotationEvent)
  /-- The request ends before it is sent: the relay or the request is not usable. -/
  | abandon (request : Nat)
  /-- The answer is reported to the selector. -/
  | record (request : Nat)
  /-- A request for models or transcriptions looks at the current relay. -/
  | probe

/-- What a history tells about a request. -/
inductive Note where
  | selected (request : Nat)
  | failed (request : Nat)
deriving DecidableEq

def World.set (w : World) (request : Nat) (state : Request) : World :=
  { w with requests := w.requests.insert request state }

section Steps

variable (settings : BackendSettings)

def openRequest (request : Nat) (context : RotationContext) : Emit World Note := fun w =>
  let selected := selectRelayForRequest settings context w.global
  match selected.2 with
  | .error _ => (({ w with global := selected.1 } : World).set request .finished, [])
  | .ok relay =>
    match fallbackRelaysAfter settings relay.id with
    | .error _ => (({ w with global := selected.1 } : World).set request .finished, [])
    | .ok rest => (({ w with global := selected.1 } : World).set request (.sending relay rest), [.selected request])

def recordAnswer (request : Nat) (event : RotationEvent) (rest : List RelayProfile) : Emit World Note := fun w =>
  (({ w with global := recordRelayRequestEvent settings event w.global } : World).set request (.next event rest),
    if event = .failure then [.failed request] else [])

def step : Action → Emit World Note
  | .open request context, w =>
    match w.requests.lookup request with
    | none => openRequest settings request context w
    | some _ => (w, [])
  | .answer request event, w =>
    match w.requests.lookup request with
    | some (.sending relay rest) => (w.set request (.answered relay event rest), [])
    | _ => (w, [])
  | .abandon request, w =>
    match w.requests.lookup request with
    | some (.sending ..) => (w.set request .finished, [])
    | _ => (w, [])
  | .record request, w =>
    match w.requests.lookup request with
    | some (.answered _ event rest) => recordAnswer settings request event rest w
    | _ => (w, [])
  | .probe, w => ({ w with global := (selectRelayForProbe settings w.global).1 }, [])

def run (actions : List Action) : World × List Note := Emit.each (step settings) actions {}

/-- If the step moves the failover index, it reports a failure of the member that the index leaves. -/
def MovesOffFailed (w : World) (action : Action) : Prop :=
  ∀ selector, w.global = some selector →
    ((step settings action w).1.global.map (·.failoverIndex)) ≠ some selector.failoverIndex →
    ∃ request relay rest, action = .record request ∧
      w.requests.lookup request = some (.answered relay .failure rest) ∧
      relay.id = selector.memberIdAt selector.failoverIndex

end Steps

/-- How many failures of others have been recorded since a request selected its relay. -/
def othersSince (request : Nat) (notes : List Note) : Nat :=
  notes.foldl (fun n note =>
    match note with
    | .selected other => if other = request then 0 else n
    | .failed other => if other = request then n else n + 1) 0

/-- If the step reports a failure, the failures of other requests since the selection go around all members. -/
def RecordsInTurn (count : Nat) (w : World) (notes : List Note) (action : Action) : Prop :=
  ∀ request relay rest, action = .record request →
    w.requests.lookup request = some (.answered relay .failure rest) → count ∣ othersSince request notes

/-! ## Candidates -/

section Candidates

variable {settings : BackendSettings} {aggregate : AggregateRelayProfile}

theorem memberRelay_id {relayId : Text} {relay : RelayProfile} (h : memberRelay settings aggregate relayId = .ok relay) :
    relay.id = relayId := by
  unfold memberRelay at h
  split at h
  · rename_i found hfound
    cases h
    simpa using List.find?_some hfound
  · cases h

theorem mapM_memberRelay {f : Nat → Text} {offsets : List Nat} {relays : List RelayProfile}
    (h : offsets.mapM (fun offset => memberRelay settings aggregate (f offset)) = .ok relays) :
    relays.map (·.id) = offsets.map f := by
  induction offsets generalizing relays with
  | nil => cases h; rfl
  | cons offset offsets ih =>
    rw [List.mapM_cons] at h
    cases hfirst : memberRelay settings aggregate (f offset) with
    | error e => rw [hfirst] at h; cases h
    | ok relay =>
      rw [hfirst] at h
      cases hrest : offsets.mapM (fun offset => memberRelay settings aggregate (f offset)) with
      | error e => simp only [hrest] at h; cases h
      | ok rest =>
        simp only [hrest] at h
        cases h
        rw [List.map_cons, List.map_cons, memberRelay_id hfirst, ih hrest]

theorem cyclic_mod (ids : List Text) (i : Nat) : cyclic ids (i % ids.length) = cyclic ids i := by
  rw [cyclic, Nat.mod_mod, cyclic]

variable {ids : List Text} {selector : RelayRotationSelector}

theorem cyclic_eq (hpos : 0 < ids.length) (i : Nat) :
    cyclic ids i = ids.get ⟨i % ids.length, Nat.mod_lt _ hpos⟩ := by
  rw [cyclic, List.getElem?_eq_getElem (Nat.mod_lt _ hpos)]
  rfl

theorem cyclic_inj (hnodup : ids.Nodup) (hpos : 0 < ids.length) {i j : Nat} :
    cyclic ids i = cyclic ids j ↔ i % ids.length = j % ids.length := by
  rw [cyclic_eq hpos, cyclic_eq hpos, List.get_eq_getElem, List.get_eq_getElem, hnodup.getElem_inj_iff]

theorem idxOf_cyclic (hnodup : ids.Nodup) {i : Nat} (hi : i < ids.length) : ids.idxOf? (cyclic ids i) = some i := by
  have hpos : 0 < ids.length := Nat.zero_lt_of_lt hi
  have hget : cyclic ids i = ids[i] := by
    rw [cyclic_eq hpos, List.get_eq_getElem]
    congr 1
    exact Nat.mod_eq_of_lt hi
  rw [hget, List.idxOf?_eq_some_iff]
  refine ⟨hi, rfl, fun j hj hsame => ?_⟩
  have hplace := hnodup.getElem_inj_iff.mp hsame
  omega

theorem fallbackRelaysAfter_ids (hactive : settings.activeAggregateRelayProfile = some aggregate)
    (hnodup : (aggregate.members.map (·.relayId)).Nodup) {index : Nat} (hindex : index < aggregate.members.length)
    {relays : List RelayProfile}
    (h : fallbackRelaysAfter settings (cyclic (aggregate.members.map (·.relayId)) index) = .ok relays) :
    relays.map (·.id) =
      (List.range (aggregate.members.length - 1)).map
        fun offset => cyclic (aggregate.members.map (·.relayId)) (index + 1 + offset) := by
  unfold fallbackRelaysAfter at h
  rw [hactive] at h
  dsimp only at h
  cases hvalid : validateAggregateMembers settings aggregate with
  | error e => rw [hvalid] at h; cases h
  | ok _ =>
    rw [hvalid, idxOf_cyclic hnodup (by simpa using hindex)] at h
    have hids := mapM_memberRelay h
    rwa [List.length_map] at hids

/-! ## Selecting -/

theorem validate_nonempty (h : validateAggregateMembers settings aggregate = .ok ()) : 0 < aggregate.members.length := by
  unfold validateAggregateMembers at h
  split at h
  · cases h
  · rename_i hempty
    exact List.length_pos_iff.mpr fun hnil => hempty (by rw [hnil]; rfl)

theorem activeAggregate_eq (hactive : settings.activeAggregateRelayProfile = some aggregate) :
    activeAggregate settings = .ok aggregate := by
  have hfind : settings.aggregateRelayProfiles.find? (·.id = aggregate.id) = some aggregate := by
    have hfound := hactive
    unfold BackendSettings.activeAggregateRelayProfile at hfound
    split at hfound
    · cases hfound
    · dsimp only at hfound
      generalize (if (Text.trim settings.activeAggregateRelayId).isEmpty then _ else _ : Text) = activeId at hfound
      split at hfound
      · cases hfound
      · split at hfound
        · cases hfound
        · have hid : aggregate.id = activeId := by simpa using List.find?_some hfound
          rw [hid]
          exact hfound
  unfold activeAggregate
  rw [hactive]
  simp only [hfind]

theorem fromSettings_eq (hactive : settings.activeAggregateRelayProfile = some aggregate)
    (h : RelayRotationSelector.fromSettings settings = .ok selector) :
    selector = { aggregate } ∧ 0 < aggregate.members.length := by
  unfold RelayRotationSelector.fromSettings at h
  rw [activeAggregate_eq hactive] at h
  have hmade : (validateAggregateMembers settings aggregate).bind (fun _ => .ok ({ aggregate } : RelayRotationSelector)) =
      .ok selector := h
  cases hvalid : validateAggregateMembers settings aggregate with
  | error e => rw [hvalid] at hmade; cases hmade
  | ok _ =>
    rw [hvalid] at hmade
    cases hmade
    exact ⟨rfl, validate_nonempty hvalid⟩

def SelectorFor (aggregate : AggregateRelayProfile) (selector : RelayRotationSelector) : Prop :=
  selector.aggregate = aggregate ∧ selector.failoverIndex < aggregate.members.length

theorem currentSelector_for (hactive : settings.activeAggregateRelayProfile = some aggregate)
    {global : GlobalSelector} (hglobal : ∀ selector, global = some selector → SelectorFor aggregate selector)
    (h : currentSelector settings aggregate global = .ok selector) :
    SelectorFor aggregate selector ∧ ∀ old, global = some old → selector = old := by
  unfold currentSelector at h
  cases global with
  | none =>
    obtain ⟨rfl, hpos⟩ := fromSettings_eq hactive h
    exact ⟨⟨rfl, hpos⟩, fun old hold => by cases hold⟩
  | some old =>
    have hold := hglobal old rfl
    rw [Option.filter_some_pos (by simpa using hold.1)] at h
    cases h
    exact ⟨hold, fun _ heq => by cases heq; rfl⟩

theorem select_failover (settings : BackendSettings) (context : RotationContext)
    (hstrategy : selector.aggregate.strategy = .failover) :
    (selector.select settings context).1 = selector ∧
      ∀ relay, (selector.select settings context).2 = .ok relay →
        relay.id = selector.memberIdAt selector.failoverIndex := by
  have hnext : selector.nextMember context = (selector, selector.memberIdAt selector.failoverIndex) := by
    unfold RelayRotationSelector.nextMember
    rw [hstrategy]
  unfold RelayRotationSelector.select
  rw [hnext]
  split
  · exact ⟨rfl, fun relay h => by cases h⟩
  · exact ⟨rfl, fun relay => memberRelay_id⟩

/-- What looking at the shared selector does to it: the first look makes it, and then it stays. -/
structure Settled (aggregate : AggregateRelayProfile) (before after : GlobalSelector) : Prop where
  fits : ∀ selector, after = some selector → SelectorFor aggregate selector
  kept : ∀ selector, before = some selector → after = some selector

section Look

variable {global : GlobalSelector} (hactive : settings.activeAggregateRelayProfile = some aggregate)
  (hglobal : ∀ selector, global = some selector → SelectorFor aggregate selector)

include hactive hglobal

theorem settled_current {selector : RelayRotationSelector}
    (h : currentSelector settings aggregate global = .ok selector) : Settled aggregate global (some selector) := by
  obtain ⟨hfor, hkept⟩ := currentSelector_for hactive hglobal h
  exact ⟨fun other hother => by cases hother; exact hfor, fun old hold => by rw [hkept old hold]⟩

theorem selectRelayForProbe_settled : Settled aggregate global (selectRelayForProbe settings global).1 := by
  unfold selectRelayForProbe
  rw [hactive]
  dsimp only
  cases hcurrent : currentSelector settings aggregate global with
  | error e => exact ⟨hglobal, fun _ h => h⟩
  | ok selector => exact settled_current hactive hglobal hcurrent

theorem selectRelayForRequest_settled (hstrategy : aggregate.strategy = .failover) (context : RotationContext) :
    Settled aggregate global (selectRelayForRequest settings context global).1 ∧
      ∀ relay, (selectRelayForRequest settings context global).2 = .ok relay →
        ∃ selector, (selectRelayForRequest settings context global).1 = some selector ∧
          relay.id = selector.memberIdAt selector.failoverIndex := by
  unfold selectRelayForRequest
  rw [hactive]
  dsimp only
  cases hcurrent : currentSelector settings aggregate global with
  | error e => exact ⟨⟨hglobal, fun _ h => h⟩, fun relay h => by cases h⟩
  | ok selector =>
    have hfor := (currentSelector_for hactive hglobal hcurrent).1
    obtain ⟨hsame, hrelay⟩ := select_failover settings context (by rw [hfor.1]; exact hstrategy)
    dsimp only
    rw [hsame]
    exact ⟨settled_current hactive hglobal hcurrent, fun relay h => ⟨selector, rfl, hrelay relay h⟩⟩

end Look

end Candidates

/-! ## The histories of requests -/

section History

variable {request : Nat} {notes : List Note}

theorem othersSince_selected_self : othersSince request (notes ++ [Note.selected request]) = 0 := by
  simp [othersSince, List.foldl_append]

theorem othersSince_selected {other : Nat} (h : other ≠ request) :
    othersSince request (notes ++ [Note.selected other]) = othersSince request notes := by
  simp [othersSince, List.foldl_append, h]

theorem othersSince_failed_self : othersSince request (notes ++ [Note.failed request]) = othersSince request notes := by
  simp [othersSince, List.foldl_append]

theorem othersSince_failed {other : Nat} (h : other ≠ request) :
    othersSince request (notes ++ [Note.failed other]) = othersSince request notes + 1 := by
  simp [othersSince, List.foldl_append, h]

end History

/-- The candidates follow one another in the list of members, and the first stands as many places before the failover
index as there are failures that the request does not know of. -/
def Walks (ids : List Text) (index others : Nat) (candidates : List RelayProfile) : Prop :=
  ∃ start, candidates.map (·.id) = (List.range candidates.length).map (fun j => cyclic ids (start + j)) ∧
    (start + others) % ids.length = index

section Walks

variable {ids : List Text} {index others : Nat} {relay : RelayProfile} {rest : List RelayProfile}

theorem Walks.start (hindex : index < ids.length) (hid : relay.id = cyclic ids index)
    (hrest : rest.map (·.id) = (List.range (ids.length - 1)).map fun offset => cyclic ids (index + 1 + offset)) :
    Walks ids index 0 (relay :: rest) := by
  have hlength : rest.length = ids.length - 1 := by
    simpa using congrArg List.length hrest
  refine ⟨index, ?_, by rw [Nat.add_zero, Nat.mod_eq_of_lt hindex]⟩
  rw [List.map_cons, List.length_cons, List.range_succ_eq_map, List.map_cons, List.map_map, hid, hrest, hlength]
  congr 1
  apply List.map_congr_left
  intro j _
  simp only [Function.comp_apply, Nat.succ_eq_add_one]
  congr 1
  omega

theorem Walks.head (h : Walks ids index others (relay :: rest)) :
    ∃ start, relay.id = cyclic ids start ∧ (start + others) % ids.length = index := by
  obtain ⟨start, hids, hindex⟩ := h
  rw [List.length_cons, List.range_succ_eq_map, List.map_cons, List.map_cons] at hids
  exact ⟨start, (List.cons.inj hids).1, hindex⟩

theorem Walks.other {candidates : List RelayProfile} (h : Walks ids index others candidates) :
    Walks ids ((index + 1) % ids.length) (others + 1) candidates := by
  obtain ⟨start, hids, hindex⟩ := h
  refine ⟨start, hids, ?_⟩
  rw [← hindex, ← Nat.add_assoc, Nat.mod_add_mod]

theorem Walks.tail (h : Walks ids index others (relay :: rest)) : Walks ids ((index + 1) % ids.length) others rest := by
  obtain ⟨start, hids, hindex⟩ := h
  rw [List.length_cons, List.range_succ_eq_map, List.map_cons, List.map_cons, List.map_map] at hids
  refine ⟨start + 1, ?_, ?_⟩
  · rw [(List.cons.inj hids).2]
    apply List.map_congr_left
    intro j _
    simp only [Function.comp_apply, Nat.succ_eq_add_one]
    congr 1
    omega
  · rw [← hindex, Nat.mod_add_mod]
    congr 1
    omega

theorem Walks.current_iff (hnodup : ids.Nodup) (hpos : 0 < ids.length) (h : Walks ids index others (relay :: rest)) :
    relay.id = cyclic ids index ↔ ids.length ∣ others := by
  obtain ⟨start, hid, hindex⟩ := h.head
  rw [hid, ← hindex, cyclic_mod, cyclic_inj hnodup hpos]
  constructor
  · intro heq
    have hzero := Nat.sub_mod_eq_zero_of_mod_eq heq.symm
    rw [Nat.add_sub_cancel_left] at hzero
    exact Nat.dvd_of_mod_eq_zero hzero
  · rintro ⟨k, rfl⟩
    rw [Nat.add_mul_mod_self_left]

end Walks

/-! ## Every reachable state -/

/-- What holds in every state of a run: the selector is in range, and every open request walks along the members. -/
structure Tracked (aggregate : AggregateRelayProfile) (w : World) (notes : List Note) : Prop where
  selector : ∀ selector, w.global = some selector → SelectorFor aggregate selector
  request : ∀ request state, w.requests.lookup request = some state → state.candidates ≠ [] →
    ∃ selector, w.global = some selector ∧
      Walks (aggregate.members.map (·.relayId)) selector.failoverIndex (othersSince request notes) state.candidates

section Tracked

variable {settings : BackendSettings} {aggregate : AggregateRelayProfile} {w : World} {notes : List Note}

theorem Tracked.set {request : Nat} {state : Request} {global : GlobalSelector} {more : List Note}
    (h : Tracked aggregate w notes) (hglobal : Settled aggregate w.global global)
    (hmore : ∀ other, other ≠ request → othersSince other (notes ++ more) = othersSince other notes)
    (hstate : state.candidates ≠ [] → ∃ selector, global = some selector ∧
      Walks (aggregate.members.map (·.relayId)) selector.failoverIndex (othersSince request (notes ++ more))
        state.candidates) :
    Tracked aggregate (({ w with global } : World).set request state) (notes ++ more) := by
  refine ⟨hglobal.fits, fun other state' hlookup hopen => ?_⟩
  by_cases heq : other = request
  · subst heq
    rw [World.set, AList.lookup_insert] at hlookup
    cases hlookup
    exact hstate hopen
  · rw [World.set, AList.lookup_insert_ne heq] at hlookup
    obtain ⟨selector, hselector, hwalks⟩ := h.request other state' hlookup hopen
    exact ⟨selector, hglobal.kept selector hselector, by rw [hmore other heq]; exact hwalks⟩

theorem Tracked.same (h : Tracked aggregate w notes) : Settled aggregate w.global w.global :=
  ⟨h.selector, fun _ hselector => hselector⟩

variable (hactive : settings.activeAggregateRelayProfile = some aggregate)
  (hnodup : (aggregate.members.map (·.relayId)).Nodup) (hstrategy : aggregate.strategy = .failover)

include hactive hnodup hstrategy in
theorem Tracked.openRequest (h : Tracked aggregate w notes) (request : Nat) (context : RotationContext) :
    Tracked aggregate (openRequest settings request context w).1
      (notes ++ (openRequest settings request context w).2) := by
  obtain ⟨hsettled, hrelay⟩ := selectRelayForRequest_settled hactive h.selector hstrategy context
  unfold Relay.openRequest
  dsimp only
  split
  · exact h.set hsettled (fun _ _ => by rw [List.append_nil]) fun hopen => absurd rfl hopen
  · rename_i relay hselected
    obtain ⟨selector, hselector, hid⟩ := hrelay relay hselected
    have hfor := hsettled.fits selector hselector
    have hids : selector.memberIds = aggregate.members.map (·.relayId) := by
      rw [RelayRotationSelector.memberIds, hfor.1]
    rw [RelayRotationSelector.memberIdAt, hids] at hid
    split
    · exact h.set hsettled (fun _ _ => by rw [List.append_nil]) fun hopen => absurd rfl hopen
    · rename_i rest hfallbacks
      rw [hid] at hfallbacks
      have hrest := fallbackRelaysAfter_ids hactive hnodup hfor.2 hfallbacks
      refine h.set hsettled (fun other hne => othersSince_selected fun heq => hne heq.symm) fun _ => ?_
      rw [othersSince_selected_self]
      refine ⟨selector, hselector, .start ?_ hid ?_⟩
      · simpa using hfor.2
      · simpa using hrest

include hactive hstrategy in
theorem recordRelayRequestEvent_failure {selector : RelayRotationSelector} (hfor : SelectorFor aggregate selector) :
    recordRelayRequestEvent settings .failure (some selector) =
      some { selector with failoverIndex := (selector.failoverIndex + 1) % aggregate.members.length } := by
  have hnonempty : (!selector.aggregate.members.isEmpty) = true := by
    have hpos := Nat.zero_lt_of_lt hfor.2
    rw [hfor.1]
    cases hmembers : aggregate.members with
    | nil => rw [hmembers] at hpos; cases hpos
    | cons member members => rfl
  unfold recordRelayRequestEvent RelayRotationSelector.recordEvent
  rw [hactive]
  dsimp only
  rw [Option.map_some, if_pos ⟨rfl, hfor.1 ▸ hstrategy, hnonempty⟩, hfor.1]

include hactive in
theorem recordRelayRequestEvent_success (global : GlobalSelector) :
    recordRelayRequestEvent settings .success global = global := by
  unfold recordRelayRequestEvent RelayRotationSelector.recordEvent
  rw [hactive]
  cases global <;> simp

include hactive hstrategy in
theorem Tracked.recordAnswer (h : Tracked aggregate w notes) {request : Nat} {relay : RelayProfile}
    {event : RotationEvent} {rest : List RelayProfile}
    (hanswered : w.requests.lookup request = some (.answered relay event rest)) :
    Tracked aggregate (recordAnswer settings request event rest w).1
      (notes ++ (recordAnswer settings request event rest w).2) := by
  unfold Relay.recordAnswer
  cases event with
  | success =>
    rw [recordRelayRequestEvent_success hactive]
    refine h.set h.same (fun _ _ => by simp) fun hopen => absurd ?_ hopen
    cases rest <;> rfl
  | failure =>
    obtain ⟨selector, hselector, hwalks⟩ := h.request request _ hanswered (by simp [Request.candidates])
    have hfor := h.selector selector hselector
    have hnext := recordRelayRequestEvent_failure hactive hstrategy hfor
    have hlength : (aggregate.members.map (·.relayId)).length = aggregate.members.length := List.length_map ..
    rw [hselector, hnext, if_pos rfl]
    constructor
    · intro selector' hselector'
      cases hselector'
      exact ⟨hfor.1, Nat.mod_lt _ (Nat.zero_lt_of_lt hfor.2)⟩
    · intro other state hlookup hopen
      refine ⟨_, rfl, ?_⟩
      dsimp only
      rw [← hlength]
      by_cases heq : other = request
      · subst heq
        rw [World.set, AList.lookup_insert] at hlookup
        cases hlookup
        rw [othersSince_failed_self]
        cases rest with
        | nil => exact absurd rfl hopen
        | cons relay' rest => exact hwalks.tail
      · rw [World.set, AList.lookup_insert_ne heq] at hlookup
        obtain ⟨selector', hselector', hwalks'⟩ := h.request other state hlookup hopen
        cases hselector.symm.trans hselector'
        rw [othersSince_failed fun h' => heq h'.symm]
        exact hwalks'.other

variable (action : Action)

include hactive hnodup hstrategy in
theorem step_tracked : Emit.Maintains (Tracked aggregate) (step settings action) := by
  intro w notes h
  have hidle : Tracked aggregate w (notes ++ []) := by rwa [List.append_nil]
  cases action with
  | «open» request context =>
    simp only [step]
    split
    · exact h.openRequest hactive hnodup hstrategy request context
    · exact hidle
  | answer request event =>
    simp only [step]
    split
    · rename_i relay rest hlookup
      refine h.set h.same (fun _ _ => by rw [List.append_nil]) fun _ => ?_
      rw [List.append_nil]
      exact h.request request (.sending relay rest) hlookup (by simp [Request.candidates])
    · exact hidle
  | abandon request =>
    simp only [step]
    split
    · exact h.set h.same (fun _ _ => by rw [List.append_nil]) fun hopen => absurd rfl hopen
    · exact hidle
  | record request =>
    simp only [step]
    split
    · rename_i relay event rest hlookup
      exact h.recordAnswer hactive hstrategy hlookup
    · exact hidle
  | probe =>
    have hsettled := selectRelayForProbe_settled hactive h.selector
    simp only [step, List.append_nil]
    refine ⟨hsettled.fits, fun request state hlookup hopen => ?_⟩
    obtain ⟨selector, hselector, hwalks⟩ := h.request request state hlookup hopen
    exact ⟨selector, hsettled.kept selector hselector, hwalks⟩

include hactive hnodup hstrategy in
theorem run_tracked (actions : List Action) : Tracked aggregate (run settings actions).1 (run settings actions).2 := by
  have hstart : Tracked aggregate {} [] := by
    constructor
    · intro selector h
      cases h
    · intro request state h
      rw [AList.lookup_empty] at h
      cases h
  exact Emit.Maintains.each (fun action _ => step_tracked hactive hnodup hstrategy action) {} [] hstart

include hactive hstrategy in
theorem step_index (h : Tracked aggregate w notes) {selector : RelayRotationSelector} (hselector : w.global = some selector)
    (action : Action) :
    (step settings action w).1.global.map (·.failoverIndex) = some selector.failoverIndex ∨
      ∃ request relay rest, action = .record request ∧
        w.requests.lookup request = some (.answered relay .failure rest) := by
  have hidle : w.global.map (·.failoverIndex) = some selector.failoverIndex := by rw [hselector]; rfl
  cases action with
  | «open» request context =>
    have hkept := (selectRelayForRequest_settled hactive h.selector hstrategy context).1.kept selector hselector
    refine .inl ?_
    simp only [step]
    split
    · unfold openRequest
      dsimp only
      rw [hkept]
      split
      · rfl
      · split <;> rfl
    · exact hidle
  | answer request event =>
    refine .inl ?_
    simp only [step]
    split
    · exact hidle
    · exact hidle
  | abandon request =>
    refine .inl ?_
    simp only [step]
    split
    · exact hidle
    · exact hidle
  | record request =>
    simp only [step]
    split
    · rename_i relay event rest hlookup
      cases event with
      | success =>
        refine .inl ?_
        unfold recordAnswer
        rw [recordRelayRequestEvent_success hactive]
        exact hidle
      | failure => exact .inr ⟨request, relay, rest, rfl, hlookup⟩
    · exact .inl hidle
  | probe =>
    have hkept := (selectRelayForProbe_settled hactive h.selector).kept selector hselector
    refine .inl ?_
    simp only [step]
    rw [hkept]
    rfl

omit hactive hnodup hstrategy in
theorem succ_mod_ne {index count : Nat} (hindex : index < count) (hcount : count ≠ 1) : (index + 1) % count ≠ index := by
  by_cases hlast : index + 1 = count
  · rw [hlast, Nat.mod_self]
    omega
  · rw [Nat.mod_eq_of_lt (by omega)]
    omega

include hactive hnodup hstrategy in
theorem movesOffFailed_iff (h : Tracked aggregate w notes) (action : Action) :
    MovesOffFailed settings w action ↔ RecordsInTurn aggregate.members.length w notes action := by
  have hlength : (aggregate.members.map (·.relayId)).length = aggregate.members.length := List.length_map ..
  -- both sides say the same of a report of a failure
  have hreport : ∀ {request relay rest selector}, w.global = some selector →
      w.requests.lookup request = some (.answered relay .failure rest) →
      (relay.id = selector.memberIdAt selector.failoverIndex ↔
        aggregate.members.length ∣ othersSince request notes) := by
    intro request relay rest selector hselector hanswered
    obtain ⟨selector', hselector', hwalks⟩ := h.request request _ hanswered (by simp [Request.candidates])
    cases hselector.symm.trans hselector'
    have hfor := h.selector selector hselector
    have hids : selector.memberIds = aggregate.members.map (·.relayId) := by
      rw [RelayRotationSelector.memberIds, hfor.1]
    rw [RelayRotationSelector.memberIdAt, hids, ← hlength]
    exact hwalks.current_iff hnodup (by rw [hlength]; exact Nat.zero_lt_of_lt hfor.2)
  constructor
  · rintro hmoves request relay rest rfl hanswered
    obtain ⟨selector, hselector, -⟩ := h.request request _ hanswered (by simp [Request.candidates])
    have hfor := h.selector selector hselector
    by_cases hone : aggregate.members.length = 1
    · rw [hone]
      exact Nat.one_dvd _
    · have hmoved : (step settings (.record request) w).1.global.map (·.failoverIndex) ≠ some selector.failoverIndex := by
        simp only [step, hanswered, recordAnswer, hselector, recordRelayRequestEvent_failure hactive hstrategy hfor]
        exact fun hsame => succ_mod_ne hfor.2 hone (Option.some.inj hsame)
      obtain ⟨request', relay', rest', hsame, hanswered', hid⟩ := hmoves selector hselector hmoved
      cases hsame
      exact (hreport hselector hanswered').mp hid
  · intro hturn selector hselector hmoved
    rcases step_index hactive hstrategy h hselector action with hsame | ⟨request, relay, rest, rfl, hanswered⟩
    · exact absurd hsame hmoved
    · exact ⟨request, relay, rest, rfl, hanswered,
        (hreport hselector hanswered).mpr (hturn request relay rest rfl hanswered)⟩

end Tracked

/-- In every run of any number of requests, the failover index moves only off members that have failed, exactly if every
failure is reported after a number of failures of other requests that goes around all members. -/
theorem failover_moves_off_failed (settings : BackendSettings) (aggregate : AggregateRelayProfile)
    (hactive : settings.activeAggregateRelayProfile = some aggregate) (hstrategy : aggregate.strategy = .failover)
    (hnodup : (aggregate.members.map (·.relayId)).Nodup) (actions : List Action) :
    (∀ pre action post, actions = pre ++ action :: post → MovesOffFailed settings (run settings pre).1 action) ↔
      ∀ pre action post, actions = pre ++ action :: post →
        RecordsInTurn aggregate.members.length (run settings pre).1 (run settings pre).2 action := by
  constructor
  · intro h pre action post hsplit
    exact (movesOffFailed_iff hactive hnodup hstrategy (run_tracked hactive hnodup hstrategy pre) action).mp
      (h pre action post hsplit)
  · intro h pre action post hsplit
    exact (movesOffFailed_iff hactive hnodup hstrategy (run_tracked hactive hnodup hstrategy pre) action).mpr
      (h pre action post hsplit)

/-! ## Samples -/

def sampleRelay (id : String) : RelayProfile :=
  { id := id.toList, baseUrl := "http://relay".toList, apiKey := "key".toList }

def sampleAggregate : AggregateRelayProfile :=
  { id := "agg".toList, name := "agg".toList, members := [⟨['a'], 1⟩, ⟨['b'], 1⟩, ⟨['c'], 1⟩] }

def sampleSettings : BackendSettings :=
  { relayProfiles := [sampleRelay "a", sampleRelay "b", sampleRelay "c",
      { id := "agg".toList, relayMode := .aggregate }]
    activeRelayId := "agg".toList
    aggregateRelayProfiles := [sampleAggregate] }

def oneRequest : List Action :=
  [.open 1 {}, .answer 1 .failure, .record 1, .answer 1 .success, .record 1]

theorem failover_of_oneRequest :
    (sampleSettings.activeAggregateRelayProfile = some sampleAggregate ∧ sampleAggregate.strategy = .failover ∧
      (sampleAggregate.members.map (·.relayId)).Nodup) ∧
    ((∀ pre action post, oneRequest = pre ++ action :: post →
        MovesOffFailed sampleSettings (run sampleSettings pre).1 action) ↔
      ∀ pre action post, oneRequest = pre ++ action :: post →
        RecordsInTurn 3 (run sampleSettings pre).1 (run sampleSettings pre).2 action) := by
  have hactive : sampleSettings.activeAggregateRelayProfile = some sampleAggregate := by decide +kernel
  have hnodup : (sampleAggregate.members.map (·.relayId)).Nodup := by decide +kernel
  exact ⟨⟨hactive, rfl, hnodup⟩, failover_moves_off_failed sampleSettings sampleAggregate hactive rfl hnodup oneRequest⟩

def bothFail : List Action := [.open 1 {}, .open 2 {}, .answer 1 .failure, .answer 2 .failure, .record 1]

/-- The second report moves the index off the second relay, which nobody has tried. -/
theorem second_failure_skips_member :
    ¬ ∀ (pre : List Action) (action : Action) (post : List Action), bothFail ++ [Action.record 2] = pre ++ action :: post →
      MovesOffFailed sampleSettings (run sampleSettings pre).1 action := by
  intro h
  have hindex : (run sampleSettings bothFail).1.global.map
      (fun selector => (selector.failoverIndex, selector.memberIdAt selector.failoverIndex)) = some (1, ['b']) := by
    decide +kernel
  have hrelay : ((run sampleSettings bothFail).1.requests.lookup 2).map
      (fun state => state.candidates.head?.map (·.id)) = some (some ['a']) := by
    decide +kernel
  have hnext : (step sampleSettings (.record 2) (run sampleSettings bothFail).1).1.global.map (·.failoverIndex) =
      some 2 := by
    decide +kernel
  obtain ⟨selector, hselector, heq⟩ := Option.map_eq_some_iff.mp hindex
  obtain ⟨hone, hmember⟩ := Prod.mk.inj heq
  obtain ⟨request, relay, rest, hrequest, hanswered, hid⟩ :=
    h bothFail (.record 2) [] rfl selector hselector (by rw [hnext, hone]; decide)
  cases hrequest
  rw [hanswered] at hrelay
  rw [hmember] at hid
  simp only [Request.candidates, Option.map_some, List.head?_cons, hid] at hrelay
  cases hrelay

end Lumio.Relay
