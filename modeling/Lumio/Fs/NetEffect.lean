import Lumio.Fs.Coalesce

/-!
# What a path waits as

The events of one path are folded into one pending change as they come in. If they fit some history of the path, the
pending change is what the history amounts to.
-/

namespace Lumio.Fs

open Lumio.Protocol Prog

/-- Whether the path exists after the event, if the event fits. -/
def NativeWatchKind.fits : NativeWatchKind → Bool → Option Bool
  | .create, false => some true
  | .modify, true => some true
  | .remove, true => some false
  | _, _ => none

/-- Whether a path exists after the events, if they fit a history that starts with the path there or not. -/
def existsAfter (present : Bool) : List NativeWatchKind → Option Bool
  | [] => some present
  | kind :: rest => (kind.fits present).bind fun next => existsAfter next rest

def netEffect (touched : Bool) : Bool → Bool → Option PendingKind
  | false, false => none
  | false, true => some .create
  | true, false => some .remove
  | true, true => if touched then some .modify else none

def netPending (before after : Bool) : List (NativeWatchKind × Instant) → Option PendingPath
  | [] => none
  | e :: events => (netEffect true before after).map fun kind => ⟨kind, ((e :: events).getLast (by simp)).2⟩

namespace EventCoalescer

variable {self : EventCoalescer} {path : WorkspacePath} {before present next touched : Bool} {kind : NativeWatchKind}

def SameElsewhere (path : WorkspacePath) (self after : EventCoalescer) : Prop :=
  ∀ other, other ≠ path → after.pending.lookup other = self.pending.lookup other

theorem SameElsewhere.trans {a b c : EventCoalescer} (hab : SameElsewhere path a b) (hbc : SameElsewhere path b c) :
    SameElsewhere path a c := fun other hne => (hbc other hne).trans (hab other hne)

theorem sameElsewhere_insert (waiting : PendingPath) :
    SameElsewhere path self { self with pending := self.pending.insert path waiting } :=
  fun _ hne => AList.lookup_insert_ne hne

theorem fold_netEffect (hfits : kind.fits present = some next) (htouched : touched = false → before = present) :
    ∃ event, PendingKind.ofWatch kind = some event ∧
      match netEffect touched before present with
      | none => netEffect true before next = some event
      | some waiting => PendingKind.fold waiting event = netEffect true before next := by
  cases kind <;> cases present <;> cases hfits
  all_goals cases touched <;> cases before <;> simp_all [PendingKind.ofWatch, netEffect, PendingKind.fold]

theorem recordPath_step (hpending : (self.pending.lookup path).map (·.kind) = netEffect touched before present)
    (htouched : touched = false → before = present) (hfits : kind.fits present = some next) (observedAt : Instant) :
    wp (recordPath path kind observedAt)
      (fun _ after => after.pending.lookup path = (netEffect true before next).map (fun waits => ⟨waits, observedAt⟩) ∧
        SameElsewhere path self after) (fun _ _ => False) self := by
  obtain ⟨event, hevent, hfold⟩ := fold_netEffect hfits htouched
  simp only [recordPath, wp_bind, wp_get, hevent]
  cases hlookup : self.pending.lookup path with
  | none =>
    rw [hlookup] at hpending
    rw [← hpending] at hfold
    refine ⟨?_, sameElsewhere_insert _⟩
    rw [AList.lookup_insert, show netEffect true before next = some event from hfold]
    rfl
  | some previous =>
    rw [hlookup] at hpending
    rw [← hpending] at hfold
    have hkind : PendingKind.fold previous.kind event = netEffect true before next := hfold
    simp only [hkind]
    cases hnet : netEffect true before next with
    | none => exact ⟨AList.lookup_erase _ _, fun _ hne => AList.lookup_erase_ne hne⟩
    | some waits => exact ⟨AList.lookup_insert _, sameElsewhere_insert _⟩

theorem recordPaths_wp (events : List (NativeWatchKind × Instant)) :
    ∀ {self : EventCoalescer} {present after : Bool} {earlier : List (NativeWatchKind × Instant)},
      self.pending.lookup path = netPending before present earlier → (earlier = [] → before = present) →
      existsAfter present (events.map (·.1)) = some after →
      wp (forM events fun e => recordPath path e.1 e.2)
        (fun _ reached => reached.pending.lookup path = netPending before after (earlier ++ events) ∧
          SameElsewhere path self reached) (fun _ _ => False) self := by
  induction events with
  | nil =>
    intro self present after earlier hpending _ hfits
    cases hfits
    exact ⟨by rw [List.append_nil]; exact hpending, fun _ _ => rfl⟩
  | cons e events ih =>
    intro self present after earlier hpending hstart hfits
    obtain ⟨next, hnext, hrest⟩ := Option.bind_eq_some_iff.mp hfits
    have hkind : (self.pending.lookup path).map (·.kind) = netEffect (!earlier.isEmpty) before present := by
      rw [hpending]
      cases earlier with
      | nil =>
        obtain rfl := hstart rfl
        cases before <;> rfl
      | cons first earlier => cases before <;> cases present <;> rfl
    have htouched : (!earlier.isEmpty) = false → before = present := fun h => hstart (by simpa using h)
    rw [List.forM_cons]
    refine wp_seq (recordPath_step hkind htouched hnext e.2) fun _ reached hreached => ?_
    have hwaits : reached.pending.lookup path = netPending before next (earlier ++ [e]) := by
      rw [hreached.1]
      cases earlier <;> simp [netPending]
    have hrun := @ih reached next after (earlier ++ [e]) hwaits (by simp) hrest
    rw [List.append_assoc] at hrun
    exact wp_mono hrun (fun _ _ h => ⟨h.1, hreached.2.trans h.2⟩) (fun _ _ h => h)

/-- The pending change of events that fit a history is what the history amounts to. -/
theorem pending_net_effect {after : Bool} (events : List (NativeWatchKind × Instant))
    (hnew : self.pending.lookup path = none) (hfits : existsAfter before (events.map (·.1)) = some after) :
    wp (forM events fun e => recordPath path e.1 e.2)
      (fun _ reached => reached.pending.lookup path = netPending before after events ∧ SameElsewhere path self reached)
      (fun _ _ => False) self :=
  @recordPaths_wp path before events self before after [] hnew (fun _ => rfl) hfits

abbrev notes : WorkspacePath := ⟨['n'], by decide⟩

def quiet : EventCoalescer := withRules 200 500 8 ⟨[], [], [], [], [], [], [fun _ => true], [], true⟩

/-- A file that was there is removed and made again. -/
theorem pending_net_effect_remade :
    wp (forM [(NativeWatchKind.remove, 1), (.create, 2)] fun e => recordPath notes e.1 e.2)
      (fun _ reached => reached.pending.lookup notes = some ⟨.modify, 2⟩ ∧ SameElsewhere notes quiet reached)
      (fun _ _ => False) quiet :=
  @pending_net_effect quiet notes true true [(.remove, 1), (.create, 2)] rfl rfl

end EventCoalescer

end Lumio.Fs
