import Lumio.Lib.Text

/-!
# Relay settings

The part of the backend settings that describes relays: single profiles, and aggregates that rotate over them.
-/

namespace Lumio.Relay

inductive RelayProtocol where
  | responses
  | chatCompletions
deriving DecidableEq

inductive RelayMode where
  | official
  | mixedApi
  | pureApi
  | aggregate
deriving DecidableEq

inductive RelayModelInsertMode where
  | modelCatalog
  | patch
deriving DecidableEq

structure RelayContextSelection where
  mcpServers : List Text := []
  skills : List Text := []
  plugins : List Text := []
deriving DecidableEq

def defaultRelayBaseUrl : Text := []

def defaultActiveRelayId : Text := "default".toList

structure RelayProfile where
  id : Text := "default".toList
  name : Text := "默认中转".toList
  model : Text := []
  baseUrl : Text := defaultRelayBaseUrl
  upstreamBaseUrl : Text := []
  apiKey : Text := []
  protocol : RelayProtocol := .responses
  relayMode : RelayMode := .official
  officialMixApiKey : Bool := false
  testModel : Text := []
  configContents : Text := []
  authContents : Text := []
  useCommonConfig : Bool := true
  contextSelection : RelayContextSelection := {}
  contextSelectionInitialized : Bool := false
  contextWindow : Text := []
  autoCompactLimit : Text := []
  modelInsertMode : RelayModelInsertMode := .patch
  modelList : Text := []
  modelWindows : Text := []
  modelVlm : Text := []
  vlmApiKey : Text := []
  vlmModel : Text := []
  vlmBaseUrl : Text := []
  userAgent : Text := []
  sub2apiEnabled : Bool := false
  sub2apiMultiplier : Text := []
deriving DecidableEq

inductive AggregateRelayStrategy where
  | failover
  | conversationRoundRobin
  | requestRoundRobin
  | weightedRoundRobin
deriving DecidableEq

structure AggregateRelayMember where
  relayId : Text
  weight : Nat := 1
deriving DecidableEq

structure AggregateRelayProfile where
  id : Text
  name : Text
  strategy : AggregateRelayStrategy := .failover
  members : List AggregateRelayMember := []
deriving DecidableEq

structure BackendSettings where
  relayBaseUrl : Text := defaultRelayBaseUrl
  relayApiKey : Text := []
  relayProfiles : List RelayProfile := [{}]
  activeRelayId : Text := defaultActiveRelayId
  aggregateRelayProfiles : List AggregateRelayProfile := []
  activeAggregateRelayId : Text := []

namespace BackendSettings

variable (settings : BackendSettings)

/-- A profile made from the base URL and the key of older settings. -/
def legacyRelayProfile (id : Text) (relayMode : RelayMode) (officialMixApiKey : Bool) : RelayProfile :=
  { id, relayMode, officialMixApiKey
    baseUrl := if settings.relayBaseUrl.isEmpty then defaultRelayBaseUrl else settings.relayBaseUrl
    upstreamBaseUrl := if settings.relayBaseUrl.isEmpty then defaultRelayBaseUrl else settings.relayBaseUrl
    apiKey := settings.relayApiKey }

def activeRelayProfile : RelayProfile :=
  if settings.activeRelayId = defaultActiveRelayId ∧ settings.relayProfiles = [{}] ∧
      (!settings.relayApiKey.isEmpty ∨ settings.relayBaseUrl ≠ defaultRelayBaseUrl) then
    settings.legacyRelayProfile defaultActiveRelayId .mixedApi true
  else
    match settings.relayProfiles.find? (·.id = settings.activeRelayId) with
    | some profile => profile
    | none =>
      settings.legacyRelayProfile
        (if settings.activeRelayId.isEmpty then defaultActiveRelayId else settings.activeRelayId) .official false

def activeAggregateRelayProfile : Option AggregateRelayProfile :=
  match settings.relayProfiles.find? (·.id = settings.activeRelayId) with
  | none => none
  | some activeRelay =>
    let activeAggregateId :=
      if (Text.trim settings.activeAggregateRelayId).isEmpty then activeRelay.id
      else Text.trim settings.activeAggregateRelayId
    if activeRelay.relayMode ≠ .aggregate then none
    else if activeAggregateId ≠ activeRelay.id then none
    else settings.aggregateRelayProfiles.find? (·.id = activeAggregateId)

end BackendSettings

end Lumio.Relay
