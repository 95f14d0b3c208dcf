import Lumio.Mobile.Rooms

/-!
# What a connection hands over

A handler passes on what it has read, in order and at most once, and only to the opposite role of the room of that name.
-/

namespace Lumio.Mobile

open World

def Event.read (id : Nat) (answer : Outcome) : Event → List Message
  | .receive other message => if other = id ∧ answer ≠ .ignored then [message] else []
  | _ => []

def Outcome.handed (id : Nat) : Outcome → List Message
  | .delivered sender _ message => if sender = id then [message] else []
  | _ => []

def Phase.waiting : Phase → List Message
  | .sending _ message => [message]
  | _ => []

namespace World

/-- The message that a handler has read and not handed over yet. -/
def waiting (w : World) (id : Nat) : List Message := (w.peers.lookup id).elim [] (·.phase.waiting)

/-- A handler sends to a connection of the opposite role, in a room of the same name. -/
def Addressed (w : World) : Prop :=
  ∀ id registration target message, w.peers.lookup id = some ⟨registration, .sending target message⟩ →
    ∃ q, w.registrationOf target = some q ∧ q.room = registration.room ∧ q.role = registration.role.opposite

end World

section Steps

variable {w : World} {id : Nat} {registration : Registration} {phase : Phase}

theorem waiting_insert (relay : RelayState) (next other : Nat) (p : Peer) :
    World.waiting ⟨relay, w.peers.insert id p, next⟩ other = if other = id then p.phase.waiting else w.waiting other := by
  unfold World.waiting
  split
  · rename_i hid
    rw [hid, AList.lookup_insert]
    rfl
  · rename_i hid
    rw [AList.lookup_insert_ne hid]

theorem waiting_of_lookup (h : w.peers.lookup id = some ⟨registration, phase⟩) : w.waiting id = phase.waiting := by
  rw [World.waiting, h]
  rfl

/-- What a step does to the handlers. -/
inductive World.Handles (w : World) (event : Event) : World × Outcome → Prop where
  | keeps {relay next answer} (quiet : ∀ id, answer.handed id = []) : w.Handles event (⟨relay, w.peers, next⟩, answer)
  | rests {id registration phase relay next answer} (quiet : ∀ id, answer.handed id = []) (idle : phase.waiting = [])
      (known : w.registrationOf id ∈ [none, some registration]) :
      w.Handles event (⟨relay, w.peers.insert id ⟨registration, phase⟩, next⟩, answer)
  | reads {id registration message target relay next} (arrived : event = .receive id message)
      (known : w.registrationOf id = some registration)
      (seat : w.relay.occupant registration.room registration.role.opposite = some target) :
      w.Handles event (⟨relay, w.peers.insert id ⟨registration, .sending target message⟩, next⟩, .forwarded)
  | hands {id registration message target relay next}
      (sending : w.peers.lookup id = some ⟨registration, .sending target message⟩) :
      w.Handles event (⟨relay, w.peers.insert id ⟨registration, .reading⟩, next⟩, .delivered id target message)

theorem registrationOf_of_lookup (h : w.peers.lookup id = some ⟨registration, phase⟩) :
    w.registrationOf id = some registration := by
  rw [registrationOf, h]
  rfl

theorem Seated.step_handles (hw : Seated w) (event : Event) : w.Handles event (w.step event) := by
  have hends : ∀ {id registration relay next}, w.peers.lookup id = some ⟨registration, .reading⟩ →
      w.Handles event (⟨relay, w.peers.insert id ⟨registration, .ended⟩, next⟩, .ended) := fun hp =>
    .rests (fun _ => rfl) rfl (by simp [registrationOf_of_lookup hp])
  cases event with
  | connect registration =>
    simp only [World.step, World.connect]
    split
    · exact .keeps fun _ => rfl
    · exact .rests (fun _ => rfl) rfl (by simp [registrationOf, hw.fresh w.next le_rfl])
  | receive id message =>
    simp only [World.step]
    split
    · rename_i registration hp
      have hseat := (forwardMessage_keeps w.relay registration message).2.2.2
      simp only [World.receive]
      split
      · exact hends hp
      split
      · exact .keeps fun _ => rfl
      · rename_i hforward
        rw [hforward] at hseat
        exact .reads rfl (registrationOf_of_lookup hp) hseat.symm
    · exact .keeps fun _ => rfl
  | send id =>
    simp only [World.step]
    split
    · rename_i hp
      exact .hands hp
    · exact .keeps fun _ => rfl
  | disconnect id =>
    simp only [World.step]
    split
    · rename_i hp
      exact hends hp
    · exact .keeps fun _ => rfl
  | readError id =>
    simp only [World.step]
    split
    · rename_i hp
      exact hends hp
    · exact .keeps fun _ => rfl

/-- What is handed over was waiting, and what waits then was waiting before or has been read. -/
theorem Seated.step_waiting (hw : Seated w) (event : Event) (id : Nat) :
    ((w.step event).2.handed id ++ (w.step event).1.waiting id).Sublist
      (w.waiting id ++ event.read id (w.step event).2) := by
  have hhandles := hw.step_handles event
  generalize w.step event = result at hhandles
  cases hhandles with
  | keeps quiet =>
    rw [quiet id]
    exact List.sublist_append_left _ _
  | rests quiet idle known =>
    rw [quiet id, List.nil_append, waiting_insert]
    split
    · exact idle ▸ List.nil_sublist _
    · exact List.sublist_append_left _ _
  | reads arrived known seat =>
    rw [waiting_insert, arrived]
    split
    · rename_i hid
      simp [Outcome.handed, Event.read, Phase.waiting, hid]
    · exact List.sublist_append_left _ _
  | @hands other registration message target relay next sending =>
    refine List.Sublist.trans ?_ (List.sublist_append_left _ _)
    rw [waiting_insert]
    by_cases hid : id = other
    · rw [hid, waiting_of_lookup sending]
      simp [Outcome.handed, Phase.waiting]
    · simp [Outcome.handed, hid, Ne.symm hid]

theorem World.Addressed.insert (h : w.Addressed) (hknown : w.registrationOf id ∈ [none, some registration])
    (hphase : ∀ target message, phase = .sending target message → ∃ q, w.registrationOf target = some q ∧
      q.room = registration.room ∧ q.role = registration.role.opposite) (relay : RelayState) (next : Nat) :
    World.Addressed ⟨relay, w.peers.insert id ⟨registration, phase⟩, next⟩ := by
  have hkept : ∀ target q, w.registrationOf target = some q →
      World.registrationOf ⟨relay, w.peers.insert id ⟨registration, phase⟩, next⟩ target = some q := by
    intro target q hq
    obtain rfl | hne := eq_or_ne target id
    · rw [hq] at hknown
      obtain rfl : q = registration := by simpa using hknown
      simp [registrationOf]
    · rw [registrationOf, AList.lookup_insert_ne hne]
      exact hq
  intro other registration' target message hp
  have htarget : ∃ q, w.registrationOf target = some q ∧ q.room = registration'.room ∧
      q.role = registration'.role.opposite := by
    obtain ⟨rfl, hpeer⟩ | ⟨hne, hp⟩ := (Table.lookup_insert_iff _).mp hp
    · cases hpeer
      exact hphase target message rfl
    · exact h other registration' target message hp
  obtain ⟨q, hq, hroom⟩ := htarget
  exact ⟨q, hkept target q hq, hroom⟩

theorem World.Addressed.step (h : w.Addressed) (hw : Seated w) (event : Event) : (w.step event).1.Addressed := by
  have hhandles := hw.step_handles event
  generalize w.step event = result at hhandles
  cases hhandles with
  | keeps quiet => exact h
  | rests quiet idle known =>
    refine h.insert known (fun _ _ hsending => ?_) _ _
    rw [hsending] at idle
    cases idle
  | reads arrived known seat =>
    refine h.insert (by simp [known]) (fun _ _ hsending => ?_) _ _
    cases hsending
    obtain ⟨token, -, hseat⟩ := hw.seats _ _ _ seat
    exact ⟨_, hseat, rfl, rfl⟩
  | hands sending =>
    refine h.insert (by simp [registrationOf_of_lookup sending]) (fun _ _ hsending => ?_) _ _
    cases hsending

end Steps

/-- What becomes of the messages in a run: each handler passes on what it has read in order and at most once, to connections
of the opposite role that have registered the same room. -/
structure PassedOn (log : List RelayEntry) : Prop where
  inOrder : ∀ id, (log.flatMap fun e => e.answer.handed id).Sublist (log.flatMap fun e => e.call.read id e.answer)
  across : ∀ e ∈ log, ∀ sender receiver message, e.answer = .delivered sender receiver message →
    ∃ p q, e.before.registrationOf sender = some p ∧ e.before.registrationOf receiver = some q ∧
      q.room = p.room ∧ q.role = p.role.opposite

/-- Whatever connections come, go, fail and displace each other, messages are passed on in order, at most once and only
across a room. -/
theorem passed_on (events : List Event) : PassedOn (relayMachine.log .initial events) := by
  have hmeets : relayMachine.Meets (fun _ _ => True) .initial events := fun _ _ => trivial
  refine (Machine.invariant (I := fun w past => Seated w ∧ w.Addressed ∧ PassedOn past ∧ ∀ id,
    ((past.flatMap fun e => e.answer.handed id) ++ w.waiting id).Sublist
      (past.flatMap fun e => e.call.read id e.answer)) ?_ hmeets ?_).2.2.1
  · rintro w past event - ⟨hw, haddressed, hpast, hwaiting⟩
    have hnext : ∀ id, (((past ++ [relayMachine.entry w event]).flatMap fun e => e.answer.handed id) ++
        (w.step event).1.waiting id).Sublist
          ((past ++ [relayMachine.entry w event]).flatMap fun e => e.call.read id e.answer) := by
      intro id
      rw [List.flatMap_append, List.flatMap_append, List.flatMap_singleton, List.flatMap_singleton, List.append_assoc]
      refine ((hw.step_waiting event id).append_left _).trans ?_
      rw [← List.append_assoc]
      exact (hwaiting id).append_right _
    refine ⟨hw.step event, haddressed.step hw event, ⟨fun id => ?_, fun e he => ?_⟩, hnext⟩
    · exact (List.sublist_append_left _ _).trans (hnext id)
    · rcases List.mem_append.mp he with he | he
      · exact hpast.across e he
      · intro sender receiver message hdelivered
        rw [List.mem_singleton.mp he] at hdelivered ⊢
        obtain ⟨rfl, registration, hp⟩ := sending_of_delivered hdelivered
        obtain ⟨q, hq, hroom⟩ := haddressed sender registration receiver message hp
        exact ⟨registration, q, registrationOf_of_lookup hp, hq, hroom⟩
  · refine ⟨Seated.initial, fun id registration target message hp => ?_,
      ⟨fun _ => .refl _, fun e he => absurd he List.not_mem_nil⟩, fun _ => .refl _⟩
    cases hp

end Lumio.Mobile
