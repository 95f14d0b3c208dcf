import Lumio.Mobile.Relay

/-!
# Rooms and who is in them

A seat of a room holds the channel of the connection that registered it last. Messages are forwarded by the name of the
room and the role alone, so what is promised of them depends on the connections that have been displaced.
-/

namespace Lumio.Mobile

/-! ## Seats -/

namespace RoomState

variable {room : RoomState} {role role' : Role} {id id' : Nat}

theorem senderFor_setSender : (room.setSender role id).senderFor role' = if role' = role then some id else room.senderFor role' := by
  cases role <;> cases role' <;> rfl

theorem token_setSender : (room.setSender role id).token = room.token := by
  cases role <;> rfl

theorem senderFor_forwarded (bytes : Nat) : (room.forwarded bytes).senderFor role = room.senderFor role := by
  cases role <;> rfl

theorem token_without : (room.without role id).token = room.token := by
  unfold without
  split
  · cases role <;> rfl
  · rfl

theorem senderFor_without : (room.without role id).senderFor role' = some id' ↔
    room.senderFor role' = some id' ∧ ¬ (role' = role ∧ id' = id) := by
  unfold without
  split
  · rename_i hsame
    cases role <;> cases role' <;> simp_all [senderFor, clearSender]
  · rename_i hother
    constructor
    · intro h
      refine ⟨h, ?_⟩
      rintro ⟨rfl, rfl⟩
      exact hother h
    · exact fun h => h.1

theorem isEmpty_eq_false : room.isEmpty = false ↔ ∃ role id, room.senderFor role = some id := by
  obtain ⟨token, host, client, messages, bytes⟩ := room
  constructor
  · intro h
    cases host with
    | some id => exact ⟨.host, id, rfl⟩
    | none =>
      cases client with
      | some id => exact ⟨.client, id, rfl⟩
      | none => cases h
  · rintro ⟨role, id, h⟩
    cases role with
    | host =>
      cases h
      rfl
    | client =>
      cases h
      cases host <;> rfl

end RoomState

namespace RelayState

def occupant (s : RelayState) (room : Text) (role : Role) : Option Nat := (s.rooms.lookup room).bind (·.senderFor role)

def tokenOf (s : RelayState) (room : Text) : Option Text := (s.rooms.lookup room).map (·.token)

variable {s : RelayState} {registration : Registration} {id : Nat}

theorem tokenOf_of_occupant {name : Text} {role : Role} (h : s.occupant name role = some id) :
    ∃ token, s.tokenOf name = some token := by
  obtain ⟨room, hroom, -⟩ := Option.bind_eq_some_iff.mp h
  exact ⟨room.token, by rw [tokenOf, hroom]; rfl⟩

end RelayState

open RelayState

section Steps

variable (s : RelayState) (registration : Registration) (id : Nat)

theorem registerPeer_cases :
    (registerPeer s registration id = (s.counted, none) ∧
      ∃ token, s.tokenOf registration.room = some token ∧ token ≠ registration.token) ∨
    ∃ displaced, (registerPeer s registration id).2 = some displaced ∧
      (∀ token, s.tokenOf registration.room = some token → token = registration.token) ∧
      (registerPeer s registration id).1.activeConnections = saturatingAdd s.activeConnections 1 ∧
      (∀ name, (registerPeer s registration id).1.tokenOf name =
        if name = registration.room then some registration.token else s.tokenOf name) ∧
      ∀ name role, (registerPeer s registration id).1.occupant name role =
        if name = registration.room ∧ role = registration.role then some id else s.occupant name role := by
  unfold registerPeer
  split
  · rename_i hwrong
    refine .inl ⟨rfl, ?_⟩
    cases hroom : s.rooms.lookup registration.room with
    | none => simp [RelayState.entry, hroom, RoomState.new] at hwrong
    | some room => exact ⟨room.token, by simp [tokenOf, hroom], by simpa [RelayState.entry, hroom] using hwrong⟩
  · rename_i htoken
    rw [not_not] at htoken
    refine .inr ⟨_, rfl, fun token htokens => ?_, rfl, fun name => ?_, fun name role => ?_⟩
    · cases hroom : s.rooms.lookup registration.room with
      | none => simp [tokenOf, hroom] at htokens
      | some room =>
        simp only [tokenOf, hroom, Option.map_some, Option.some.injEq] at htokens
        simp only [RelayState.entry, hroom, Option.getD_some] at htoken
        rw [← htokens, htoken]
    · by_cases hname : name = registration.room
      · subst hname
        simp [tokenOf, RoomState.token_setSender, htoken]
      · simp [tokenOf, AList.lookup_insert_ne hname, hname]
    · by_cases hname : name = registration.room
      · subst hname
        simp only [occupant, AList.lookup_insert, Option.bind_some, RoomState.senderFor_setSender, true_and]
        by_cases hrole : role = registration.role
        · simp [hrole]
        · simp only [hrole, if_false, RelayState.entry]
          cases s.rooms.lookup registration.room with
          | none => cases role <;> rfl
          | some room => rfl
      · simp [occupant, AList.lookup_insert_ne hname, hname]

theorem forwardMessage_keeps (message : Message) :
    (forwardMessage s registration message).1.activeConnections = s.activeConnections ∧
      (∀ name, (forwardMessage s registration message).1.tokenOf name = s.tokenOf name) ∧
      (∀ name role, (forwardMessage s registration message).1.occupant name role = s.occupant name role) ∧
      (forwardMessage s registration message).2 = s.occupant registration.room registration.role.opposite := by
  unfold forwardMessage
  split
  · rename_i hnone
    exact ⟨rfl, fun _ => rfl, fun _ _ => rfl, by simp [occupant, hnone]⟩
  · rename_i room hroom
    refine ⟨rfl, fun name => ?_, fun name role => ?_, by simp [occupant, hroom, RoomState.senderFor_forwarded]⟩
    · by_cases hname : name = registration.room
      · subst hname
        simp [tokenOf, hroom, RoomState.forwarded]
      · simp [tokenOf, AList.lookup_insert_ne hname]
    · by_cases hname : name = registration.room
      · subst hname
        simp [occupant, hroom, RoomState.senderFor_forwarded]
      · simp [occupant, AList.lookup_insert_ne hname]

theorem occupant_unregisterPeer (name : Text) (role : Role) : (unregisterPeer s registration id).occupant name role =
    if name = registration.room ∧ role = registration.role ∧ s.occupant name role = some id then none
    else s.occupant name role := by
  unfold unregisterPeer
  split
  · rename_i hnone
    by_cases hname : name = registration.room
    · subst hname
      simp [occupant, hnone]
    · simp [occupant, hname]
  · rename_i room hroom
    have hseat : (room.without registration.role id).senderFor role =
        if role = registration.role ∧ room.senderFor role = some id then none else room.senderFor role := by
      apply Option.ext
      intro other
      rw [RoomState.senderFor_without]
      by_cases hrole : role = registration.role
      · subst hrole
        by_cases hsame : room.senderFor registration.role = some id
        · simp [hsame, eq_comm]
        · simp only [true_and, hsame, if_false, and_iff_left_iff_imp]
          rintro hother rfl
          exact hsame hother
      · simp [hrole]
    split
    · rename_i hempty
      by_cases hname : name = registration.room
      · subst hname
        have hleft : (room.without registration.role id).senderFor role = none := by
          cases hsender : (room.without registration.role id).senderFor role with
          | none => rfl
          | some other =>
            have hfull := RoomState.isEmpty_eq_false.mpr ⟨role, other, hsender⟩
            rw [hempty] at hfull
            cases hfull
        simp only [occupant, AList.lookup_erase, Option.bind_none, hroom, Option.bind_some, true_and]
        rw [← hseat, hleft]
      · simp [occupant, AList.lookup_erase_ne hname, hname]
    · by_cases hname : name = registration.room
      · subst hname
        simp only [occupant, AList.lookup_insert, Option.bind_some, hroom, true_and]
        exact hseat
      · simp [occupant, AList.lookup_insert_ne hname, hname]

theorem tokenOf_unregisterPeer_ne {name : Text} (hname : name ≠ registration.room) :
    (unregisterPeer s registration id).tokenOf name = s.tokenOf name := by
  unfold unregisterPeer
  split
  · rfl
  · split
    · simp [tokenOf, AList.lookup_erase_ne hname]
    · simp [tokenOf, AList.lookup_insert_ne hname]

theorem tokenOf_unregisterPeer {token : Text} (h : (unregisterPeer s registration id).tokenOf registration.room = some token) :
    s.tokenOf registration.room = some token ∧
      ∃ role other, (unregisterPeer s registration id).occupant registration.room role = some other := by
  unfold unregisterPeer at h ⊢
  split at h
  · rename_i hnone
    simp [tokenOf, hnone] at h
  · rename_i room hroom
    split at h
    · simp [tokenOf] at h
    · rename_i hfull
      simp only [Bool.not_eq_true] at hfull
      simp only [tokenOf, AList.lookup_insert, Option.map_some, RoomState.token_without] at h
      obtain ⟨role, other, hsender⟩ := RoomState.isEmpty_eq_false.mp hfull
      refine ⟨by rw [tokenOf, hroom]; exact h, role, other, ?_⟩
      simp [hfull, occupant, hsender]

theorem activeConnections_unregisterPeer :
    (unregisterPeer s registration id).activeConnections = s.activeConnections - 1 := by
  unfold unregisterPeer
  split
  · rfl
  · split <;> rfl

end Steps

/-! ## Who may be heard -/

namespace World

variable {w w' : World} {id : Nat} {registration : Registration} {phase phase' : Phase}

def registrationOf (w : World) (id : Nat) : Option Registration := (w.peers.lookup id).map (·.registration)

/-- No connection that came later has registered the same role of the same room. -/
def Latest (w : World) (id : Nat) (registration : Registration) : Prop :=
  ∀ row ∈ w.peers.entries, row.2.registration.room = registration.room → row.2.registration.role = registration.role →
    row.1 ≤ id

theorem latest_iff : w.Latest id registration ↔ ∀ other q, w.registrationOf other = some q → q.room = registration.room →
    q.role = registration.role → other ≤ id := by
  constructor
  · intro h other q hq hroom hrole
    obtain ⟨p, hp, rfl⟩ := Option.map_eq_some_iff.mp hq
    exact h ⟨other, p⟩ (Table.lookup_eq_some_iff.mp hp) hroom hrole
  · rintro h ⟨other, p⟩ hmem hroom hrole
    exact h other p.registration (by rw [registrationOf, Table.lookup_eq_some_iff.mpr hmem]; rfl) hroom hrole

def moved (w : World) (id : Nat) (registration : Registration) (phase : Phase) : Table Nat Peer :=
  w.peers.insert id ⟨registration, phase⟩

theorem registrationOf_moved (h : w.peers.lookup id = some ⟨registration, phase⟩)
    (hpeers : ∀ other, w'.peers.lookup other = (w.moved id registration phase').lookup other) (other : Nat) :
    w'.registrationOf other = w.registrationOf other := by
  rw [registrationOf, hpeers, moved, registrationOf]
  by_cases hid : other = id
  · subst hid
    rw [AList.lookup_insert, h]
    rfl
  · rw [AList.lookup_insert_ne hid]

theorem latest_congr (h : ∀ other, w'.registrationOf other = w.registrationOf other) :
    w'.Latest id registration ↔ w.Latest id registration := by
  rw [latest_iff, latest_iff]
  simp only [h]

end World

open World

structure Seated (w : World) : Prop where
  fresh : ∀ id, w.next ≤ id → w.peers.lookup id = none
  seats : ∀ name role id, w.relay.occupant name role = some id →
    ∃ token, w.relay.tokenOf name = some token ∧ w.registrationOf id = some ⟨role, name, token⟩
  latest : ∀ id p, w.peers.lookup id = some p → p.phase ≠ .ended → w.Latest id p.registration →
    w.relay.occupant p.registration.room p.registration.role = some id
  sending : ∀ id p target message, w.peers.lookup id = some p → p.phase = .sending target message →
    w.Latest id p.registration →
    w.registrationOf target = some ⟨p.registration.role.opposite, p.registration.room, p.registration.token⟩

namespace Seated

variable {w w' : World} {id : Nat} {registration : Registration} {phase phase' : Phase}

theorem lt_next (h : Seated w) {p : Peer} (hp : w.peers.lookup id = some p) : id < w.next := by
  by_contra hle
  rw [h.fresh id (Nat.le_of_not_lt hle)] at hp
  cases hp

theorem move (h : Seated w) (hp : w.peers.lookup id = some ⟨registration, phase⟩) (hphase : phase ≠ .ended)
    (hnext : w'.next = w.next)
    (hpeers : ∀ other, w'.peers.lookup other = (w.moved id registration phase').lookup other)
    (htokens : ∀ name role other, w'.relay.occupant name role = some other → w'.relay.tokenOf name = w.relay.tokenOf name)
    (hseats : ∀ name role other, w'.relay.occupant name role = some other → w.relay.occupant name role = some other)
    (hkept : ∀ name role other, w.relay.occupant name role = some other → other ≠ id ∨ phase' ≠ .ended →
      w'.relay.occupant name role = some other)
    (hsending : ∀ target message, phase' = .sending target message → w.Latest id registration →
      w.registrationOf target = some ⟨registration.role.opposite, registration.room, registration.token⟩) :
    Seated w' := by
  have hregistration := registrationOf_moved hp hpeers
  constructor
  · intro other hother
    rw [hnext] at hother
    have hne : other ≠ id := by
      have hlt := h.lt_next hp
      omega
    rw [hpeers, moved, AList.lookup_insert_ne hne]
    exact h.fresh other hother
  · intro name role other hseat
    rw [htokens name role other hseat, hregistration]
    exact h.seats name role other (hseats name role other hseat)
  · intro other p hother hopen hlatest
    rw [latest_congr hregistration] at hlatest
    rw [hpeers] at hother
    rcases (Table.lookup_insert_iff p).mp hother with ⟨rfl, rfl⟩ | ⟨hne, hother⟩
    · exact hkept _ _ _ (h.latest other ⟨registration, phase⟩ hp hphase hlatest) (.inr hopen)
    · exact hkept _ _ _ (h.latest other p hother hopen hlatest) (.inl hne)
  · intro other p target message hother hsends hlatest
    rw [latest_congr hregistration] at hlatest
    rw [hregistration]
    rw [hpeers] at hother
    rcases (Table.lookup_insert_iff p).mp hother with ⟨rfl, rfl⟩ | ⟨hne, hother⟩
    · exact hsending target message hsends hlatest
    · exact h.sending other p target message hother hsends hlatest

theorem leave (h : Seated w) (hp : w.peers.lookup id = some ⟨registration, .reading⟩) : Seated (w.leave id registration) := by
  refine h.move hp nofun rfl (fun _ => rfl) (fun name role other hseat => ?_) (fun name role other hseat => ?_)
    (fun name role other hseat hother => ?_) nofun
  · by_cases hname : name = registration.room
    · subst hname
      obtain ⟨token, htoken⟩ := tokenOf_of_occupant hseat
      exact htoken.trans (tokenOf_unregisterPeer _ _ _ htoken).1.symm
    · exact tokenOf_unregisterPeer_ne _ _ _ hname
  · rw [World.leave, occupant_unregisterPeer] at hseat
    split at hseat
    · cases hseat
    · exact hseat
  · have hne : other ≠ id := by
      rcases hother with hne | hended
      · exact hne
      · exact absurd rfl hended
    rw [World.leave, occupant_unregisterPeer, if_neg ?_]
    · exact hseat
    · rintro ⟨-, -, hsame⟩
      rw [hseat] at hsame
      exact hne (Option.some.inj hsame)

theorem receive (h : Seated w) (hp : w.peers.lookup id = some ⟨registration, .reading⟩) (message : Message) :
    Seated (w.receive id registration message).1 := by
  unfold World.receive
  split
  · exact h.leave hp
  · obtain ⟨-, htokens, hseats, htarget⟩ := forwardMessage_keeps w.relay registration message
    have hkept : ∀ {relay : RelayState} (phase' : Phase) {peers : Table Nat Peer},
        (forwardMessage w.relay registration message).1 = relay →
        (∀ other, peers.lookup other = (w.moved id registration phase').lookup other) →
        (∀ target message, phase' = .sending target message → w.Latest id registration →
          w.registrationOf target = some ⟨registration.role.opposite, registration.room, registration.token⟩) →
        Seated { w with relay := relay, peers := peers } := by
      rintro relay phase' peers rfl hpeers hsending
      refine h.move hp nofun rfl hpeers (fun name _ _ _ => htokens name) (fun name role other hseat => ?_)
        (fun name role other hseat _ => ?_) hsending
      · rw [← hseats]
        exact hseat
      · rw [← hseat]
        exact hseats name role
    split
    · rename_i relay hforward
      refine hkept .reading (by rw [hforward]) (fun other => ?_) nofun
      rw [moved]
      by_cases hid : other = id
      · rw [hid, AList.lookup_insert, hp]
      · rw [AList.lookup_insert_ne hid]
    · rename_i relay target hforward
      refine hkept _ (by rw [hforward]) (fun _ => rfl) fun target' message' hphase hlatest => ?_
      cases hphase
      -- the sender is in its seat, so its token is the token of the room
      obtain ⟨token, htoken, hsender⟩ := h.seats _ _ _ (h.latest id _ hp nofun hlatest)
      have htoken' : token = registration.token := by
        rw [registrationOf, hp] at hsender
        exact (congrArg Registration.token (Option.some.inj hsender)).symm
      rw [hforward] at htarget
      obtain ⟨token', htoken'', htarget'⟩ := h.seats _ _ _ htarget.symm
      rw [htoken] at htoken''
      rw [htarget', ← Option.some.inj htoken'', htoken']

theorem connect (h : Seated w) (registration : Registration) : Seated (w.connect registration).1 := by
  unfold World.connect
  rcases registerPeer_cases w.relay registration w.next with
    ⟨hrefused, -⟩ | ⟨displaced, hanswer, hcompatible, -, htokens, hseats⟩
  · rw [hrefused]
    exact ⟨h.fresh, h.seats, h.latest, h.sending⟩
  · split
    · rename_i relay hrefused
      rw [hrefused] at hanswer
      cases hanswer
    · rename_i relay displaced' hregistered
      rw [hregistered] at htokens hseats
      have hregistration : ∀ other, (⟨relay, w.peers.insert w.next ⟨registration, .reading⟩, w.next + 1⟩ : World).registrationOf other =
          if other = w.next then some registration else w.registrationOf other := by
        intro other
        by_cases hnext : other = w.next
        · rw [hnext, if_pos rfl, registrationOf, AList.lookup_insert]
          rfl
        · simp [registrationOf, AList.lookup_insert_ne hnext, hnext]
      have hknown : ∀ {other q}, w.registrationOf other = some q → other ≠ w.next := by
        intro other q hq
        obtain ⟨p, hp, -⟩ := Option.map_eq_some_iff.mp hq
        exact Nat.ne_of_lt (h.lt_next hp)
      -- what is still the latest was so before, and has another seat than the new connection
      have hlatest : ∀ {other q}, other < w.next →
          (⟨relay, w.peers.insert w.next ⟨registration, .reading⟩, w.next + 1⟩ : World).Latest other q →
          w.Latest other q ∧ ¬ (q.room = registration.room ∧ q.role = registration.role) := by
        intro other q hlt hlatest
        rw [latest_iff] at hlatest
        refine ⟨latest_iff.mpr fun old r hr hroom hrole => ?_, fun hsame => ?_⟩
        · refine hlatest old r ?_ hroom hrole
          rw [hregistration, if_neg (hknown hr), hr]
        · have hle := hlatest w.next registration (by rw [hregistration, if_pos rfl]) hsame.1.symm hsame.2.symm
          omega
      constructor
      · intro other hother
        have hne : other ≠ w.next := by
          change w.next + 1 ≤ other at hother
          omega
        rw [AList.lookup_insert_ne hne]
        exact h.fresh other (by change w.next + 1 ≤ other at hother; omega)
      · intro name role other hseat
        rw [hseats] at hseat
        rw [htokens, hregistration]
        split at hseat
        · rename_i hsame
          obtain ⟨rfl, rfl⟩ := hsame
          cases hseat
          exact ⟨registration.token, by rw [if_pos rfl], by rw [if_pos rfl]⟩
        · obtain ⟨token, htoken, hother⟩ := h.seats name role other hseat
          rw [if_neg (hknown hother)]
          by_cases hname : name = registration.room
          · subst hname
            rw [hcompatible token htoken] at hother
            exact ⟨registration.token, by rw [if_pos rfl], hother⟩
          · exact ⟨token, by rw [if_neg hname, htoken], hother⟩
      · intro other p hp hopen hlatest'
        rw [hseats]
        rcases (Table.lookup_insert_iff p).mp hp with ⟨rfl, rfl⟩ | ⟨hne, hp⟩
        · rw [if_pos ⟨rfl, rfl⟩]
        · obtain ⟨hbefore, hother⟩ := hlatest (h.lt_next hp) hlatest'
          rw [if_neg hother]
          exact h.latest other p hp hopen hbefore
      · intro other p target message hp hphase hlatest'
        rw [hregistration]
        rcases (Table.lookup_insert_iff p).mp hp with ⟨rfl, rfl⟩ | ⟨hne, hp⟩
        · cases hphase
        · have htarget := h.sending other p target message hp hphase (hlatest (h.lt_next hp) hlatest').1
          rw [if_neg (hknown htarget)]
          exact htarget

theorem step (h : Seated w) (event : Event) : Seated (w.step event).1 := by
  cases event with
  | connect registration => exact h.connect registration
  | receive id message =>
    simp only [World.step]
    split
    · rename_i registration hp
      exact h.receive hp message
    · exact h
  | send id =>
    simp only [World.step]
    split
    · rename_i registration target message hp
      exact h.move hp nofun rfl (fun _ => rfl) (fun _ _ _ _ => rfl) (fun _ _ _ hseat => hseat)
        (fun _ _ _ hseat _ => hseat) nofun
    · exact h
  | disconnect id =>
    simp only [World.step]
    split
    · rename_i registration hp
      exact h.leave hp
    · exact h
  | readError id =>
    simp only [World.step]
    split
    · rename_i registration hp
      exact h.move hp nofun rfl (fun _ => rfl) (fun _ _ _ _ => rfl) (fun _ _ _ hseat => hseat)
        (fun _ _ _ hseat _ => hseat) nofun
    · exact h

theorem initial : Seated World.initial := by
  constructor
  · exact fun _ _ => rfl
  · intro name role id h
    cases h
  · intro id p hp
    cases hp
  · intro id p target message hp
    cases hp

end Seated

/-- A message reaches only the opposite seat of a room that its sender has registered with the same token, while the
sender sits in its own seat. -/
def RoomsIsolated (log : List RelayEntry) : Prop :=
  ∀ e ∈ log, ∀ sender receiver message, e.answer = .delivered sender receiver message →
    ∃ p q, e.before.peers.lookup sender = some p ∧ e.before.peers.lookup receiver = some q ∧
      q.registration.room = p.registration.room ∧ q.registration.token = p.registration.token ∧
      q.registration.role = p.registration.role.opposite ∧
      e.before.relay.occupant p.registration.room p.registration.role = some sender

/-- A connection hands nothing over once a later one has registered the same seat. -/
def HeedsDisplacement (w : World) : Event → Prop
  | .send id => ∀ p ∈ w.peers.lookup id, w.Latest id p.registration
  | _ => True

instance (w : World) (event : Event) : Decidable (HeedsDisplacement w event) :=
  match event with
  | .send id => inferInstanceAs (Decidable (∀ p ∈ w.peers.lookup id, ∀ row ∈ w.peers.entries,
      row.2.registration.room = p.registration.room → row.2.registration.role = p.registration.role → row.1 ≤ id))
  | .connect _ => inferInstanceAs (Decidable True)
  | .receive _ _ => inferInstanceAs (Decidable True)
  | .disconnect _ => inferInstanceAs (Decidable True)
  | .readError _ => inferInstanceAs (Decidable True)

theorem sending_of_delivered {w : World} {event : Event} {sender receiver : Nat} {message : Message}
    (h : (w.step event).2 = .delivered sender receiver message) :
    event = .send sender ∧ ∃ registration, w.peers.lookup sender = some ⟨registration, .sending receiver message⟩ := by
  cases event with
  | connect registration =>
    simp only [World.step, World.connect] at h
    split at h <;> cases h
  | receive id m =>
    simp only [World.step] at h
    split at h
    · simp only [World.receive] at h
      split at h
      · cases h
      · split at h <;> cases h
    · cases h
  | send id =>
    simp only [World.step] at h
    split at h
    · rename_i registration target m hp
      cases h
      exact ⟨rfl, registration, hp⟩
    · cases h
  | disconnect id =>
    simp only [World.step] at h
    split at h <;> cases h
  | readError id =>
    simp only [World.step] at h
    split at h <;> cases h

/-- As long as displaced connections hand nothing over, rooms are isolated. -/
theorem rooms_isolated (events : List Event) (hheeds : relayMachine.Meets HeedsDisplacement .initial events) :
    RoomsIsolated (relayMachine.log .initial events) := by
  refine (Machine.invariant (C := HeedsDisplacement) (I := fun w past => Seated w ∧ RoomsIsolated past) ?_ hheeds
    ⟨Seated.initial, fun e he => absurd he List.not_mem_nil⟩).2
  intro w past event hevent ⟨hw, hpast⟩
  refine ⟨hw.step event, fun e he => ?_⟩
  rcases List.mem_append.mp he with he | he
  · exact hpast e he
  · intro sender receiver message hdelivered
    rw [List.mem_singleton.mp he] at hdelivered ⊢
    obtain ⟨rfl, registration, hp⟩ := sending_of_delivered hdelivered
    have hlatest : w.Latest sender registration := hevent _ hp
    obtain ⟨q, hq, hregistration⟩ :=
      Option.map_eq_some_iff.mp (hw.sending sender _ receiver message hp rfl hlatest)
    refine ⟨_, q, hp, hq, ?_, ?_, ?_, hw.latest sender _ hp nofun hlatest⟩
    · rw [hregistration]
    · rw [hregistration]
    · rw [hregistration]

/-- A host, its displacement and a message of the first host, with what happens in between. -/
def displacedHost (between : List Event) : List Event :=
  ([.connect ⟨.host, "room".toList, "old".toList⟩, .connect ⟨.host, "room".toList, "old".toList⟩] : List Event) ++ between

/-- The second host talks to a client. -/
theorem rooms_isolated_after_displacement :
    RoomsIsolated (relayMachine.log .initial (displacedHost
      [.connect ⟨.client, "room".toList, "old".toList⟩, .receive 1 (.text "hello".toList), .send 1])) :=
  rooms_isolated _ (by decide +kernel)

/-- The second host leaves, and the room is opened anew under another token: the first host is heard in it. -/
theorem displaced_host_heard :
    ¬ RoomsIsolated (relayMachine.log .initial (displacedHost
      [.disconnect 1, .connect ⟨.client, "room".toList, "new".toList⟩, .receive 0 (.text "hello".toList), .send 0])) := by
  intro h
  have hlast : relayMachine.entry (relayMachine.run .initial (displacedHost
      [.disconnect 1, .connect ⟨.client, "room".toList, "new".toList⟩, .receive 0 (.text "hello".toList)])) (.send 0) ∈
      relayMachine.log .initial (displacedHost
        [.disconnect 1, .connect ⟨.client, "room".toList, "new".toList⟩, .receive 0 (.text "hello".toList), .send 0]) :=
    List.mem_of_getLast? rfl
  obtain ⟨p, q, hp, hq, -, htoken, -⟩ := h _ hlast 0 2 (.text "hello".toList) (by decide +kernel)
  have hold : some p.registration.token = some "old".toList :=
    (congrArg (Option.map fun p : Peer => p.registration.token) hp).symm
  have hnew : some q.registration.token = some "new".toList :=
    (congrArg (Option.map fun p : Peer => p.registration.token) hq).symm
  rw [htoken, hold] at hnew
  exact absurd hnew (by decide)

end Lumio.Mobile
