import Lumio.Lib.Table
import Lumio.Relay.Settings

/-!
# Rotation over the members of an aggregate

The selector keeps an index for each strategy. One selector is shared by all requests, and is made anew when the active
aggregate changes.
-/

namespace Lumio.Relay

inductive SelectionError where
  | noActiveAggregate
  | emptyAggregateMembers (aggregateId : Text)
  | unknownMemberRelay (aggregateId relayId : Text)
  | invalidMemberRelay (aggregateId relayId : Text)
deriving DecidableEq

structure RotationContext where
  conversationId : Option Text := none

inductive RotationEvent where
  | success
  | failure
deriving DecidableEq

structure RelayRotationSelector where
  aggregate : AggregateRelayProfile
  failoverIndex : Nat := 0
  requestIndex : Nat := 0
  weightedIndex : Nat := 0
  conversationAssignments : Table Text Text := ∅

/-! ## Settings -/

def activeAggregate (settings : BackendSettings) : Except SelectionError AggregateRelayProfile :=
  match settings.activeAggregateRelayProfile with
  | none => .error .noActiveAggregate
  | some active =>
    match settings.aggregateRelayProfiles.find? (·.id = active.id) with
    | none => .error .noActiveAggregate
    | some aggregate => .ok aggregate

def relayProfileById (settings : BackendSettings) (relayId : Text) : Option RelayProfile :=
  settings.relayProfiles.find? (·.id = relayId)

/-- The map of profiles by id: of two profiles with one id it has the later one. -/
def relayById (settings : BackendSettings) (relayId : Text) : Option RelayProfile :=
  settings.relayProfiles.reverse.find? (·.id = relayId)

def validateMember (settings : BackendSettings) (aggregateId : Text) (member : AggregateRelayMember) :
    Except SelectionError Unit :=
  match relayById settings member.relayId with
  | none => .error (.unknownMemberRelay aggregateId member.relayId)
  | some relay =>
    if (Text.trim relay.baseUrl).isEmpty || (Text.trim relay.apiKey).isEmpty then
      .error (.invalidMemberRelay aggregateId member.relayId)
    else .ok ()

def validateAggregateMembers (settings : BackendSettings) (aggregate : AggregateRelayProfile) :
    Except SelectionError Unit :=
  if aggregate.members.isEmpty then .error (.emptyAggregateMembers aggregate.id)
  else aggregate.members.forM (validateMember settings aggregate.id)

def memberRelay (settings : BackendSettings) (aggregate : AggregateRelayProfile) (relayId : Text) :
    Except SelectionError RelayProfile :=
  match relayProfileById settings relayId with
  | some relay => .ok relay
  | none => .error (.unknownMemberRelay aggregate.id relayId)

/-! ## The selector -/

def cyclic (ids : List Text) (index : Nat) : Text := (ids[index % ids.length]?).getD []

namespace RelayRotationSelector

def fromSettings (settings : BackendSettings) : Except SelectionError RelayRotationSelector := do
  let aggregate ← activeAggregate settings
  validateAggregateMembers settings aggregate
  return { aggregate }

def memberIds (selector : RelayRotationSelector) : List Text := selector.aggregate.members.map (·.relayId)

def memberIdAt (selector : RelayRotationSelector) (index : Nat) : Text := cyclic selector.memberIds index

def weightedSchedule (selector : RelayRotationSelector) : List Text :=
  selector.aggregate.members.flatMap fun member => List.replicate (max member.weight 1) member.relayId

def selectNextRequest (selector : RelayRotationSelector) : RelayRotationSelector × Text :=
  ({ selector with requestIndex := (selector.requestIndex + 1) % selector.aggregate.members.length },
    selector.memberIdAt selector.requestIndex)

def selectNextWeighted (selector : RelayRotationSelector) : RelayRotationSelector × Text :=
  ({ selector with weightedIndex := (selector.weightedIndex + 1) % selector.weightedSchedule.length },
    cyclic selector.weightedSchedule selector.weightedIndex)

def selectForConversation (conversationId : Option Text) (selector : RelayRotationSelector) :
    RelayRotationSelector × Text :=
  match conversationId with
  | none => selector.selectNextRequest
  | some conversationId =>
    match selector.conversationAssignments.lookup conversationId with
    | some relayId => (selector, relayId)
    | none =>
      let (selector, relayId) := selector.selectNextRequest
      ({ selector with conversationAssignments := selector.conversationAssignments.insert conversationId relayId },
        relayId)

def nextMember (context : RotationContext) (selector : RelayRotationSelector) : RelayRotationSelector × Text :=
  match selector.aggregate.strategy with
  | .failover => (selector, selector.memberIdAt selector.failoverIndex)
  | .conversationRoundRobin => selector.selectForConversation context.conversationId
  | .requestRoundRobin => selector.selectNextRequest
  | .weightedRoundRobin => selector.selectNextWeighted

def select (settings : BackendSettings) (context : RotationContext) (selector : RelayRotationSelector) :
    RelayRotationSelector × Except SelectionError RelayProfile :=
  match validateAggregateMembers settings selector.aggregate with
  | .error e => (selector, .error e)
  | .ok () =>
    ((selector.nextMember context).1, memberRelay settings selector.aggregate (selector.nextMember context).2)

def peek (settings : BackendSettings) (selector : RelayRotationSelector) : Except SelectionError RelayProfile := do
  validateAggregateMembers settings selector.aggregate
  memberRelay settings selector.aggregate <|
    match selector.aggregate.strategy with
    | .failover => selector.memberIdAt selector.failoverIndex
    | .conversationRoundRobin | .requestRoundRobin => selector.memberIdAt selector.requestIndex
    | .weightedRoundRobin => cyclic selector.weightedSchedule selector.weightedIndex

def recordEvent (event : RotationEvent) (selector : RelayRotationSelector) : RelayRotationSelector :=
  if event = .failure ∧ selector.aggregate.strategy = .failover ∧ !selector.aggregate.members.isEmpty then
    { selector with failoverIndex := (selector.failoverIndex + 1) % selector.aggregate.members.length }
  else selector

end RelayRotationSelector

/-! ## The shared selector -/

abbrev GlobalSelector := Option RelayRotationSelector

/-- The selector for the active aggregate, made anew if there is none or if it is for another aggregate. -/
def currentSelector (settings : BackendSettings) (aggregate : AggregateRelayProfile) (global : GlobalSelector) :
    Except SelectionError RelayRotationSelector :=
  match global.filter (·.aggregate = aggregate) with
  | some selector => .ok selector
  | none => RelayRotationSelector.fromSettings settings

def selectRelayForRequest (settings : BackendSettings) (context : RotationContext) (global : GlobalSelector) :
    GlobalSelector × Except SelectionError RelayProfile :=
  match settings.activeAggregateRelayProfile with
  | none => (none, .ok settings.activeRelayProfile)
  | some aggregate =>
    match currentSelector settings aggregate global with
    | .error e => (global, .error e)
    | .ok selector => (some (selector.select settings context).1, (selector.select settings context).2)

def selectRelayForProbe (settings : BackendSettings) (global : GlobalSelector) :
    GlobalSelector × Except SelectionError RelayProfile :=
  match settings.activeAggregateRelayProfile with
  | none => (none, .ok settings.activeRelayProfile)
  | some aggregate =>
    match currentSelector settings aggregate global with
    | .error e => (global, .error e)
    | .ok selector => (some selector, selector.peek settings)

def fallbackRelaysAfter (settings : BackendSettings) (relayId : Text) : Except SelectionError (List RelayProfile) :=
  match settings.activeAggregateRelayProfile with
  | none => .ok []
  | some aggregate => do
    validateAggregateMembers settings aggregate
    let ids := aggregate.members.map (·.relayId)
    let startIndex := ((ids.idxOf? relayId).map (· + 1)).getD 0
    (List.range (ids.length - 1)).mapM fun offset =>
      memberRelay settings aggregate (cyclic ids (startIndex + offset))

def recordRelayRequestEvent (settings : BackendSettings) (event : RotationEvent) (global : GlobalSelector) :
    GlobalSelector :=
  match settings.activeAggregateRelayProfile with
  | none => none
  | some _ => global.map (·.recordEvent event)

end Lumio.Relay
