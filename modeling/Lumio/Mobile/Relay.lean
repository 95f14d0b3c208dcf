import Lumio.Lib.Machine
import Lumio.Lib.Table
import Lumio.Lib.Text

/-!
# The relay between a host and its clients

A connection registers a role in a room and then has its messages forwarded to the other role. Every section that holds
the lock is one step; the message itself is handed over after the lock is released. Channels are numbered in the order
of their creation.
-/

namespace Lumio.Mobile

inductive Role where
  | host
  | client
deriving DecidableEq

def Role.opposite : Role → Role
  | .host => .client
  | .client => .host

structure Registration where
  role : Role
  room : Text
  token : Text
deriving DecidableEq

inductive Message where
  | text (text : Text)
  | binary (bytes : List UInt8)
  | ping (bytes : List UInt8)
  | pong (bytes : List UInt8)
  | close
deriving DecidableEq

def messageLen : Message → Nat
  | .text text => text.byteLength
  | .binary bytes => bytes.length
  | .ping bytes => bytes.length
  | .pong bytes => bytes.length
  | .close => 0

def u64Max : Nat := 2 ^ 64 - 1

def saturatingAdd (a b : Nat) : Nat := min (a + b) u64Max

structure RoomState where
  token : Text
  host : Option Nat
  client : Option Nat
  forwardedMessages : Nat
  forwardedBytes : Nat
deriving DecidableEq

namespace RoomState

def new (token : Text) : RoomState := ⟨token, none, none, 0, 0⟩

def senderFor (room : RoomState) : Role → Option Nat
  | .host => room.host
  | .client => room.client

def setSender (room : RoomState) (role : Role) (sender : Nat) : RoomState :=
  match role with
  | .host => { room with host := some sender }
  | .client => { room with client := some sender }

def clearSender (room : RoomState) : Role → RoomState
  | .host => { room with host := none }
  | .client => { room with client := none }

def isEmpty (room : RoomState) : Bool := room.host.isNone && room.client.isNone

def forwarded (room : RoomState) (bytes : Nat) : RoomState :=
  { room with
    forwardedMessages := saturatingAdd room.forwardedMessages 1
    forwardedBytes := saturatingAdd room.forwardedBytes bytes }

end RoomState

structure RelayState where
  rooms : Table Text RoomState
  totalConnections : Nat
  activeConnections : Nat
  forwardedMessages : Nat
  forwardedBytes : Nat

/-- A connection is counted before its token is looked at. -/
def RelayState.counted (s : RelayState) : RelayState :=
  { s with
    totalConnections := saturatingAdd s.totalConnections 1
    activeConnections := saturatingAdd s.activeConnections 1 }

def RelayState.entry (s : RelayState) (registration : Registration) : RoomState :=
  (s.rooms.lookup registration.room).getD (.new registration.token)

/-- Answers with the channel that is displaced, if any; a wrong token is refused. -/
def registerPeer (s : RelayState) (registration : Registration) (sender : Nat) : RelayState × Option (Option Nat) :=
  if (s.entry registration).token ≠ registration.token then (s.counted, none)
  else
    ({ s.counted with
        rooms := s.rooms.insert registration.room ((s.entry registration).setSender registration.role sender) },
      some ((s.entry registration).senderFor registration.role))

def forwardMessage (s : RelayState) (peer : Registration) (message : Message) : RelayState × Option Nat :=
  match s.rooms.lookup peer.room with
  | none =>
    ({ s with
        forwardedMessages := saturatingAdd s.forwardedMessages 1
        forwardedBytes := saturatingAdd s.forwardedBytes (messageLen message) }, none)
  | some room =>
    ({ s with
        forwardedMessages := saturatingAdd s.forwardedMessages 1
        forwardedBytes := saturatingAdd s.forwardedBytes (messageLen message)
        rooms := s.rooms.insert peer.room (room.forwarded (messageLen message)) },
      (room.forwarded (messageLen message)).senderFor peer.role.opposite)

/-- The room without its peer, if the channel is still the one in the room. -/
def RoomState.without (room : RoomState) (role : Role) (sender : Nat) : RoomState :=
  if room.senderFor role = some sender then room.clearSender role else room

def unregisterPeer (s : RelayState) (peer : Registration) (sender : Nat) : RelayState :=
  match s.rooms.lookup peer.room with
  | none => { s with activeConnections := s.activeConnections - 1 }
  | some room =>
    if (room.without peer.role sender).isEmpty then
      { s with activeConnections := s.activeConnections - 1, rooms := s.rooms.erase peer.room }
    else
      { s with
        activeConnections := s.activeConnections - 1
        rooms := s.rooms.insert peer.room (room.without peer.role sender) }

/-! ## Connections -/

inductive Phase where
  | reading
  | sending (target : Nat) (message : Message)
  | ended
deriving DecidableEq

structure Peer where
  registration : Registration
  phase : Phase
deriving DecidableEq

def Peer.isOpen (p : Peer) : Bool := p.phase ≠ .ended

structure World where
  relay : RelayState
  peers : Table Nat Peer
  next : Nat

inductive Event where
  | connect (registration : Registration)
  /-- The handler of a connection reads a message. -/
  | receive (id : Nat) (message : Message)
  /-- It hands the message over. -/
  | send (id : Nat)
  /-- The stream of messages ends. -/
  | disconnect (id : Nat)
  | readError (id : Nat)
deriving DecidableEq

inductive Outcome where
  | registered (id : Nat) (displaced : Option Nat)
  | refused
  | forwarded
  | delivered (sender receiver : Nat) (message : Message)
  | ended
  | ignored
deriving DecidableEq

namespace World

def initial : World := ⟨⟨∅, 0, 0, 0, 0⟩, ∅, 0⟩

/-- The end of the loop of a handler. -/
def leave (w : World) (id : Nat) (registration : Registration) : World :=
  { w with
    relay := unregisterPeer w.relay registration id
    peers := w.peers.insert id ⟨registration, .ended⟩ }

def connect (w : World) (registration : Registration) : World × Outcome :=
  match registerPeer w.relay registration w.next with
  | (relay, none) => ({ w with relay := relay }, .refused)
  | (relay, some displaced) =>
    (⟨relay, w.peers.insert w.next ⟨registration, .reading⟩, w.next + 1⟩, .registered w.next displaced)

def receive (w : World) (id : Nat) (registration : Registration) (message : Message) : World × Outcome :=
  if message = .close then (w.leave id registration, .ended)
  else
    match forwardMessage w.relay registration message with
    | (relay, none) => ({ w with relay := relay }, .forwarded)
    | (relay, some target) =>
      ({ w with relay := relay, peers := w.peers.insert id ⟨registration, .sending target message⟩ }, .forwarded)

/-- A read error leaves the handler at once. -/
def step (w : World) : Event → World × Outcome
  | .connect registration => w.connect registration
  | .receive id message =>
    match w.peers.lookup id with
    | some ⟨registration, .reading⟩ => w.receive id registration message
    | _ => (w, .ignored)
  | .send id =>
    match w.peers.lookup id with
    | some ⟨registration, .sending target message⟩ =>
      ({ w with peers := w.peers.insert id ⟨registration, .reading⟩ }, .delivered id target message)
    | _ => (w, .ignored)
  | .disconnect id =>
    match w.peers.lookup id with
    | some ⟨registration, .reading⟩ => (w.leave id registration, .ended)
    | _ => (w, .ignored)
  | .readError id =>
    match w.peers.lookup id with
    | some ⟨registration, .reading⟩ => ({ w with peers := w.peers.insert id ⟨registration, .ended⟩ }, .ended)
    | _ => (w, .ignored)

end World

def relayMachine : Machine World Event Outcome := ⟨World.step⟩

abbrev RelayEntry := Machine.Entry World Event Outcome

end Lumio.Mobile
