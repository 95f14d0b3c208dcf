import Lumio.Mobile.Rooms

/-!
# The counter of connections and the rooms that exist

Both follow the connections as long as every connection that was counted also leaves through `unregisterPeer`.
-/

namespace Lumio.Mobile

open RelayState World

structure Bookkeeping (w : World) : Prop where
  counter : w.relay.activeConnections = w.peers.count Peer.isOpen
  rooms : ∀ name, (∃ token, w.relay.tokenOf name = some token) ↔
    ∃ id p role, w.peers.lookup id = some p ∧ p.isOpen = true ∧ w.relay.occupant name role = some id
  seats : ∀ name role id, w.relay.occupant name role = some id →
    ∃ p, w.peers.lookup id = some p ∧ p.isOpen = true ∧ p.registration.room = name ∧ p.registration.role = role

/-- Nobody comes with a wrong token, nobody is lost by a read error, and there are fewer connections than can be
counted. -/
def Orderly (w : World) : Event → Prop
  | .connect registration =>
    (∀ token ∈ w.relay.tokenOf registration.room, token = registration.token) ∧ w.peers.count Peer.isOpen < u64Max
  | .readError id => ∀ p ∈ w.peers.lookup id, p.phase ≠ .reading
  | _ => True

instance (w : World) (event : Event) : Decidable (Orderly w event) :=
  match event with
  | .connect registration => inferInstanceAs (Decidable ((∀ token ∈ w.relay.tokenOf registration.room,
      token = registration.token) ∧ w.peers.count Peer.isOpen < u64Max))
  | .readError id => inferInstanceAs (Decidable (∀ p ∈ w.peers.lookup id, p.phase ≠ .reading))
  | .receive _ _ => inferInstanceAs (Decidable True)
  | .send _ => inferInstanceAs (Decidable True)
  | .disconnect _ => inferInstanceAs (Decidable True)

namespace Bookkeeping

variable {w : World} {id : Nat} {registration : Registration}

theorem mk' (counter : w.relay.activeConnections = w.peers.count Peer.isOpen)
    (full : ∀ name token, w.relay.tokenOf name = some token → ∃ role id, w.relay.occupant name role = some id)
    (seats : ∀ name role id, w.relay.occupant name role = some id →
      ∃ p, w.peers.lookup id = some p ∧ p.isOpen = true ∧ p.registration.room = name ∧ p.registration.role = role) :
    Bookkeeping w := by
  refine ⟨counter, fun name => ⟨?_, ?_⟩, seats⟩
  · rintro ⟨token, htoken⟩
    obtain ⟨role, id, hseat⟩ := full name token htoken
    obtain ⟨p, hp, hopen, -⟩ := seats name role id hseat
    exact ⟨id, p, role, hp, hopen, hseat⟩
  · rintro ⟨id, p, role, -, -, hseat⟩
    exact tokenOf_of_occupant hseat

theorem occupied (h : Bookkeeping w) {name token : Text} (htoken : w.relay.tokenOf name = some token) :
    ∃ role id, w.relay.occupant name role = some id := by
  obtain ⟨id, p, role, -, -, hseat⟩ := (h.rooms name).mp ⟨token, htoken⟩
  exact ⟨role, id, hseat⟩

theorem connect (h : Bookkeeping w) (hw : Seated w) (hcompatible : ∀ token ∈ w.relay.tokenOf registration.room, token = registration.token)
    (hfew : w.peers.count Peer.isOpen < u64Max) : Bookkeeping (w.connect registration).1 := by
  unfold World.connect
  rcases registerPeer_cases w.relay registration w.next with
    ⟨-, token, htoken, hwrong⟩ | ⟨displaced, hanswer, -, hactive, htokens, hseats⟩
  · exact absurd (hcompatible token htoken) hwrong
  · split
    · rename_i relay hrefused
      rw [hrefused] at hanswer
      cases hanswer
    · rename_i relay displaced' hregistered
      rw [hregistered] at hactive htokens hseats
      have hfresh := hw.fresh w.next (Nat.le_refl _)
      refine mk' ?_ (fun name token htoken => ?_) fun name role id hseat => ?_
      · change relay.activeConnections = _
        rw [hactive, Table.count_insert_of_none hfresh, h.counter, saturatingAdd]
        simp only [Peer.isOpen]
        have hmin : min (w.peers.count Peer.isOpen + 1) u64Max = w.peers.count Peer.isOpen + 1 := Nat.min_eq_left hfew
        simpa using hmin
      · by_cases hname : name = registration.room
        · exact ⟨registration.role, w.next, by rw [hseats, if_pos ⟨hname, rfl⟩]⟩
        · rw [htokens, if_neg hname] at htoken
          obtain ⟨role, id, hseat⟩ := h.occupied htoken
          exact ⟨role, id, by rw [hseats, if_neg fun hsame => hname hsame.1]; exact hseat⟩
      · rw [hseats] at hseat
        split at hseat
        · rename_i hsame
          cases hseat
          exact ⟨⟨registration, .reading⟩, AList.lookup_insert _, rfl, hsame.1.symm, hsame.2.symm⟩
        · obtain ⟨p, hp, hrest⟩ := h.seats name role id hseat
          have hne : id ≠ w.next := Nat.ne_of_lt (hw.lt_next hp)
          exact ⟨p, by rw [AList.lookup_insert_ne hne]; exact hp, hrest⟩

theorem move (h : Bookkeeping w) {phase : Phase} (phase' : Phase) (hp : w.peers.lookup id = some ⟨registration, phase⟩)
    (hphase : phase ≠ .ended) (hphase' : phase' ≠ .ended) {relay : RelayState}
    (hactive : relay.activeConnections = w.relay.activeConnections) (htokens : ∀ name, relay.tokenOf name = w.relay.tokenOf name)
    (hseats : ∀ name role, relay.occupant name role = w.relay.occupant name role) :
    Bookkeeping { w with relay := relay, peers := w.peers.insert id ⟨registration, phase'⟩ } := by
  refine mk' ?_ (fun name token htoken => ?_) fun name role other hseat => ?_
  · have hcount := Table.count_insert_of_some (p := Peer.isOpen) (v := ⟨registration, phase'⟩) hp
    simp only [Peer.isOpen, ne_eq, hphase, hphase', not_false_eq_true, decide_true, if_true] at hcount
    change relay.activeConnections = _
    rw [hactive, h.counter]
    exact (Nat.add_right_cancel hcount).symm
  · obtain ⟨role, other, hseat⟩ := h.occupied ((htokens name).symm.trans htoken)
    exact ⟨role, other, (hseats name role).trans hseat⟩
  · obtain ⟨p, hother, hrest⟩ := h.seats name role other ((hseats name role).symm.trans hseat)
    by_cases hid : other = id
    · subst hid
      rw [hp] at hother
      cases hother
      exact ⟨⟨registration, phase'⟩, AList.lookup_insert _, by simp [Peer.isOpen, hphase'], hrest.2⟩
    · exact ⟨p, by rw [AList.lookup_insert_ne hid]; exact hother, hrest⟩

theorem leave (h : Bookkeeping w) (hp : w.peers.lookup id = some ⟨registration, .reading⟩) :
    Bookkeeping (w.leave id registration) := by
  refine mk' ?_ (fun name token htoken => ?_) fun name role other hseat => ?_
  · have hcount := Table.count_insert_of_some (p := Peer.isOpen) (v := ⟨registration, .ended⟩) hp
    simp only [Peer.isOpen, ne_eq, reduceCtorEq, not_false_eq_true, not_true_eq_false, decide_true, decide_false, if_true,
      Bool.false_eq_true, if_false] at hcount
    change (unregisterPeer w.relay registration id).activeConnections = _
    rw [activeConnections_unregisterPeer, h.counter]
    exact (Nat.eq_sub_of_add_eq hcount).symm
  · by_cases hname : name = registration.room
    · subst hname
      exact (tokenOf_unregisterPeer _ _ _ htoken).2
    · have htoken' : w.relay.tokenOf name = some token := (tokenOf_unregisterPeer_ne _ _ _ hname).symm.trans htoken
      obtain ⟨role, other, hseat⟩ := h.occupied htoken'
      refine ⟨role, other, ?_⟩
      rw [World.leave, occupant_unregisterPeer, if_neg fun hsame => hname hsame.1]
      exact hseat
  · rw [World.leave, occupant_unregisterPeer] at hseat
    split at hseat
    · cases hseat
    · rename_i hstays
      obtain ⟨p, hother, hopen, hroom, hrole⟩ := h.seats name role other hseat
      have hne : other ≠ id := by
        rintro rfl
        rw [hp] at hother
        cases hother
        exact hstays ⟨hroom.symm, hrole.symm, hseat⟩
      exact ⟨p, by rw [World.leave, AList.lookup_insert_ne hne]; exact hother, hopen, hroom, hrole⟩

theorem relay (h : Bookkeeping w) {relay : RelayState} (hactive : relay.activeConnections = w.relay.activeConnections)
    (htokens : ∀ name, relay.tokenOf name = w.relay.tokenOf name)
    (hseats : ∀ name role, relay.occupant name role = w.relay.occupant name role) :
    Bookkeeping { w with relay := relay } := by
  constructor
  · exact hactive.trans h.counter
  · intro name
    simp only [htokens, hseats]
    exact h.rooms name
  · intro name role other hseat
    exact h.seats name role other ((hseats name role).symm.trans hseat)

theorem receive (h : Bookkeeping w) (hp : w.peers.lookup id = some ⟨registration, .reading⟩) (message : Message) :
    Bookkeeping (w.receive id registration message).1 := by
  unfold World.receive
  split
  · exact h.leave hp
  · obtain ⟨hactive, htokens, hseats, -⟩ := forwardMessage_keeps w.relay registration message
    split
    · rename_i relay hforward
      rw [hforward] at hactive htokens hseats
      exact h.relay hactive htokens hseats
    · rename_i relay target hforward
      rw [hforward] at hactive htokens hseats
      exact h.move (.sending target message) hp nofun nofun hactive htokens hseats

theorem step (h : Bookkeeping w) (hw : Seated w) {event : Event} (hevent : Orderly w event) :
    Bookkeeping (w.step event).1 := by
  cases event with
  | connect registration => exact h.connect hw hevent.1 hevent.2
  | receive id message =>
    simp only [World.step]
    split
    · rename_i registration hp
      exact h.receive hp message
    · exact h
  | send id =>
    simp only [World.step]
    split
    · rename_i registration target message hp
      exact h.move .reading hp (by simp) (by simp) rfl (fun _ => rfl) fun _ _ => rfl
    · exact h
  | disconnect id =>
    simp only [World.step]
    split
    · rename_i registration hp
      exact h.leave hp
    · exact h
  | readError id =>
    simp only [World.step]
    split
    · rename_i registration hp
      exact absurd rfl (hevent _ hp)
    · exact h

theorem of_all_ended (h : Bookkeeping w) (hended : ∀ id p, w.peers.lookup id = some p → p.isOpen = false) :
    w.relay.activeConnections = 0 ∧ (∀ name, w.relay.tokenOf name = none) ∧
      ∀ registration, (w.connect registration).2 = .registered w.next none := by
  have hnone : ∀ name, w.relay.rooms.lookup name = none := by
    intro name
    cases hroom : w.relay.rooms.lookup name with
    | none => rfl
    | some room =>
      obtain ⟨id, p, role, hp, hopen, -⟩ := (h.rooms name).mp ⟨room.token, by rw [tokenOf, hroom]; rfl⟩
      rw [hended id p hp] at hopen
      cases hopen
  refine ⟨?_, fun name => by rw [tokenOf, hnone]; rfl, fun registration => ?_⟩
  · rw [h.counter, Table.count_eq_zero_iff]
    intro p hp
    obtain ⟨id, hid⟩ := Table.mem_values_iff.mp hp
    exact hended id p hid
  · have hentry : w.relay.entry registration = .new registration.token := by
      rw [RelayState.entry, hnone]
      rfl
    simp only [World.connect, registerPeer, hentry, RoomState.new, ne_eq, not_true_eq_false, if_false]
    cases registration.role <;> rfl

theorem initial : Bookkeeping World.initial := by
  refine mk' rfl (fun name token h => ?_) fun name role id h => ?_
  · cases h
  · cases h

end Bookkeeping

/-- In every orderly run the books are right, and once all connections have ended nothing is left. -/
theorem relay_bookkeeping (events : List Event) (horderly : relayMachine.Meets Orderly .initial events) :
    Bookkeeping (relayMachine.run .initial events) ∧
      ((∀ id p, (relayMachine.run .initial events).peers.lookup id = some p → p.isOpen = false) →
        (relayMachine.run .initial events).relay.activeConnections = 0 ∧
        (∀ name, (relayMachine.run .initial events).relay.tokenOf name = none) ∧
        ∀ registration, ((relayMachine.run .initial events).connect registration).2 =
          .registered (relayMachine.run .initial events).next none) := by
  have hbooks : Bookkeeping (relayMachine.run .initial events) := by
    refine (Machine.invariant (C := Orderly) (I := fun w _ => Seated w ∧ Bookkeeping w) ?_ horderly
      ⟨Seated.initial, Bookkeeping.initial⟩).2
    intro w past event hevent ⟨hw, hbooks⟩
    exact ⟨hw.step event, hbooks.step hw hevent⟩
  exact ⟨hbooks, hbooks.of_all_ended⟩

/-- A host is displaced, and both hosts leave. -/
theorem relay_bookkeeping_after_displacement :
    Bookkeeping (relayMachine.run .initial (displacedHost [.disconnect 1, .disconnect 0])) :=
  (relay_bookkeeping _ (by decide +kernel)).1

/-- The only connection ends with a read error: its room and the counter stay. -/
theorem read_error_keeps_room :
    ¬ Bookkeeping (relayMachine.run .initial [.connect ⟨.host, "room".toList, "old".toList⟩, .readError 0]) := by
  intro h
  exact absurd h.counter (by decide +kernel)

/-- A connection with a wrong token is counted for ever. -/
example : (relayMachine.run .initial [.connect ⟨.host, "room".toList, "old".toList⟩,
    .connect ⟨.client, "room".toList, "wrong".toList⟩, .disconnect 0]).relay.activeConnections = 1 := by
  decide +kernel

end Lumio.Mobile
