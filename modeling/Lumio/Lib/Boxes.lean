import Mathlib.Data.List.Basic
import Mathlib.Data.List.Nodup

/-!
# Packing things into boxes

Things of two kinds wait and are packed into boxes that are put down one after another. First things go to the last box
if it is open, and else to a new one, which takes the waiting second things as well; second things go to the last box if
it is open, or to a new one. Nothing is lost and the order of each kind is kept, but a first and a second thing that
waited together may come to lie in different boxes.
-/

structure Box (ι α β : Type) where
  label : ι
  opened : Bool
  firsts : List α := []
  seconds : List β := []

structure Packing (ι α β : Type) where
  boxes : List (Box ι α β) := []
  firsts : List α := []
  seconds : List β := []

namespace Packing

variable {ι α β : Type} (made : ι)

def lastOpen (p : Packing ι α β) : Option (Box ι α β) := p.boxes.getLast?.filter (·.opened)

def put (p : Packing ι α β) (box : Box ι α β) : Packing ι α β := { p with boxes := p.boxes ++ [box] }

def replaceLast (p : Packing ι α β) (box : Box ι α β) : Packing ι α β := { p with boxes := p.boxes.dropLast ++ [box] }

def packFirsts (p : Packing ι α β) : Packing ι α β :=
  if p.firsts.isEmpty then p
  else
    match p.lastOpen with
    | some box => { p.replaceLast { box with firsts := box.firsts ++ p.firsts } with firsts := [] }
    | none => { p.put { label := made, opened := true, firsts := p.firsts, seconds := p.seconds } with
                firsts := []
                seconds := [] }

def packSeconds (p : Packing ι α β) : Packing ι α β :=
  if p.seconds.isEmpty then p
  else
    match p.lastOpen with
    | some box => { p.replaceLast { box with seconds := box.seconds ++ p.seconds } with seconds := [] }
    | none => { p.put { label := made, opened := true, seconds := p.seconds } with seconds := [] }

/-- Puts down an open box, which takes the second things. -/
def openBox (p : Packing ι α β) (label : ι) : Packing ι α β :=
  { p.put { label := label, opened := true, seconds := p.seconds } with seconds := [] }

def closedBox (p : Packing ι α β) (label : ι) : Packing ι α β := p.put { label := label, opened := false }

def addFirst (p : Packing ι α β) (a : α) : Packing ι α β := { p with firsts := p.firsts ++ [a] }

def addSecond (p : Packing ι α β) (b : β) : Packing ι α β := { p with seconds := p.seconds ++ [b] }

variable {p : Packing ι α β} {box : Box ι α β} {a : α} {b : β}

theorem lastOpen_eq_some : p.lastOpen = some box ↔ ∃ start, p.boxes = start ++ [box] ∧ box.opened = true := by
  rw [lastOpen, Option.filter_eq_some_iff, List.getLast?_eq_some_iff, exists_and_right]

theorem lastOpen_concat (start : List (Box ι α β)) (firsts : List α) (seconds : List β) :
    (Packing.mk (start ++ [box]) firsts seconds).lastOpen = if box.opened then some box else none := by
  simp [lastOpen, Option.filter]

theorem packFirsts_cases (p : Packing ι α β) :
    (p.firsts = [] ∧ p.packFirsts made = p) ∨
      (∃ start box, p.firsts ≠ [] ∧ p.boxes = start ++ [box] ∧ box.opened = true ∧
        p.packFirsts made = ⟨start ++ [{ box with firsts := box.firsts ++ p.firsts }], [], p.seconds⟩) ∨
      (p.firsts ≠ [] ∧ p.lastOpen = none ∧
        p.packFirsts made = ⟨p.boxes ++ [⟨made, true, p.firsts, p.seconds⟩], [], []⟩) := by
  rw [packFirsts]
  split
  · rename_i hempty
    exact .inl ⟨List.isEmpty_iff.mp hempty, rfl⟩
  · rename_i hne
    split
    · rename_i box hlast
      obtain ⟨start, hboxes, hopen⟩ := lastOpen_eq_some.mp hlast
      exact .inr (.inl ⟨start, box, by simpa using hne, hboxes, hopen, by simp [replaceLast, hboxes]⟩)
    · rename_i hlast
      exact .inr (.inr ⟨by simpa using hne, hlast, rfl⟩)

theorem packSeconds_cases (p : Packing ι α β) :
    (p.seconds = [] ∧ p.packSeconds made = p) ∨
      (∃ start box, p.seconds ≠ [] ∧ p.boxes = start ++ [box] ∧ box.opened = true ∧
        p.packSeconds made = ⟨start ++ [{ box with seconds := box.seconds ++ p.seconds }], p.firsts, []⟩) ∨
      (p.seconds ≠ [] ∧ p.lastOpen = none ∧
        p.packSeconds made = ⟨p.boxes ++ [⟨made, true, [], p.seconds⟩], p.firsts, []⟩) := by
  rw [packSeconds]
  split
  · rename_i hempty
    exact .inl ⟨List.isEmpty_iff.mp hempty, rfl⟩
  · rename_i hne
    split
    · rename_i box hlast
      obtain ⟨start, hboxes, hopen⟩ := lastOpen_eq_some.mp hlast
      exact .inr (.inl ⟨start, box, by simpa using hne, hboxes, hopen, by simp [replaceLast, hboxes]⟩)
    · rename_i hlast
      exact .inr (.inr ⟨by simpa using hne, hlast, rfl⟩)

variable {made}

@[simp] theorem firsts_packFirsts (p : Packing ι α β) : (p.packFirsts made).firsts = [] := by
  rcases p.packFirsts_cases made with ⟨hnil, h⟩ | ⟨start, box, -, -, -, h⟩ | ⟨-, -, h⟩
  · rw [h, hnil]
  · rw [h]
  · rw [h]

@[simp] theorem firsts_packSeconds (p : Packing ι α β) : (p.packSeconds made).firsts = p.firsts := by
  rcases p.packSeconds_cases made with ⟨-, h⟩ | ⟨start, box, -, -, -, h⟩ | ⟨-, -, h⟩ <;> rw [h]

@[simp] theorem seconds_packSeconds (p : Packing ι α β) : (p.packSeconds made).seconds = [] := by
  rcases p.packSeconds_cases made with ⟨hnil, h⟩ | ⟨start, box, -, -, -, h⟩ | ⟨-, -, h⟩
  · rw [h, hnil]
  · rw [h]
  · rw [h]

/-! ## Nothing is lost -/

def allFirsts (p : Packing ι α β) : List α := p.boxes.flatMap (·.firsts) ++ p.firsts

def allSeconds (p : Packing ι α β) : List β := p.boxes.flatMap (·.seconds) ++ p.seconds

@[simp] theorem allFirsts_packFirsts (p : Packing ι α β) : (p.packFirsts made).allFirsts = p.allFirsts := by
  rcases p.packFirsts_cases made with ⟨-, h⟩ | ⟨start, box, -, hboxes, -, h⟩ | ⟨-, -, h⟩
  · rw [h]
  · simp [h, allFirsts, hboxes]
  · simp [h, allFirsts]

@[simp] theorem allSeconds_packFirsts (p : Packing ι α β) : (p.packFirsts made).allSeconds = p.allSeconds := by
  rcases p.packFirsts_cases made with ⟨-, h⟩ | ⟨start, box, -, hboxes, -, h⟩ | ⟨-, -, h⟩
  · rw [h]
  · simp [h, allSeconds, hboxes]
  · simp [h, allSeconds]

@[simp] theorem allFirsts_packSeconds (p : Packing ι α β) : (p.packSeconds made).allFirsts = p.allFirsts := by
  rcases p.packSeconds_cases made with ⟨-, h⟩ | ⟨start, box, -, hboxes, -, h⟩ | ⟨-, -, h⟩
  · rw [h]
  · simp [h, allFirsts, hboxes]
  · simp [h, allFirsts]

@[simp] theorem allSeconds_packSeconds (p : Packing ι α β) : (p.packSeconds made).allSeconds = p.allSeconds := by
  rcases p.packSeconds_cases made with ⟨-, h⟩ | ⟨start, box, -, hboxes, -, h⟩ | ⟨-, -, h⟩
  · rw [h]
  · simp [h, allSeconds, hboxes]
  · simp [h, allSeconds]

@[simp] theorem allFirsts_openBox (p : Packing ι α β) (label : ι) : (p.openBox label).allFirsts = p.allFirsts := by
  simp [openBox, put, allFirsts]

@[simp] theorem allSeconds_openBox (p : Packing ι α β) (label : ι) : (p.openBox label).allSeconds = p.allSeconds := by
  simp [openBox, put, allSeconds]

@[simp] theorem allFirsts_closedBox (p : Packing ι α β) (label : ι) : (p.closedBox label).allFirsts = p.allFirsts := by
  simp [closedBox, put, allFirsts]

@[simp] theorem allSeconds_closedBox (p : Packing ι α β) (label : ι) :
    (p.closedBox label).allSeconds = p.allSeconds := by
  simp [closedBox, put, allSeconds]

@[simp] theorem allFirsts_addFirst (p : Packing ι α β) (a : α) : (p.addFirst a).allFirsts = p.allFirsts ++ [a] := by
  simp [addFirst, allFirsts]

@[simp] theorem allSeconds_addFirst (p : Packing ι α β) (a : α) : (p.addFirst a).allSeconds = p.allSeconds := rfl

@[simp] theorem allFirsts_addSecond (p : Packing ι α β) (b : β) : (p.addSecond b).allFirsts = p.allFirsts := rfl

@[simp] theorem allSeconds_addSecond (p : Packing ι α β) (b : β) :
    (p.addSecond b).allSeconds = p.allSeconds ++ [b] := by
  simp [addSecond, allSeconds]

/-! ## What lies together -/

def Together (p : Packing ι α β) (a : α) (b : β) : Prop := ∃ box ∈ p.boxes, a ∈ box.firsts ∧ b ∈ box.seconds

/-- The second thing waits, and the first one too or it lies in an open box at the end. -/
def Waiting (p : Packing ι α β) (a : α) (b : β) : Prop :=
  b ∈ p.seconds ∧ (a ∈ p.firsts ∨ ∃ box, p.lastOpen = some box ∧ a ∈ box.firsts)

def Apart (p : Packing ι α β) (a : α) (b : β) : Prop :=
  ∃ earlier box next later, p.boxes = earlier ++ box :: next :: later ∧ a ∈ box.firsts ∧ b ∉ box.seconds

theorem Together.packFirsts (h : p.Together a b) : (p.packFirsts made).Together a b := by
  obtain ⟨box, hbox, ha, hb⟩ := h
  rcases p.packFirsts_cases made with ⟨-, hp⟩ | ⟨start, last, -, hboxes, -, hp⟩ | ⟨-, -, hp⟩
  · rw [hp]
    exact ⟨box, hbox, ha, hb⟩
  · rw [hboxes] at hbox
    rw [hp]
    rcases List.mem_append.mp hbox with hstart | hlast
    · exact ⟨box, List.mem_append_left _ hstart, ha, hb⟩
    · obtain rfl := List.mem_singleton.mp hlast
      exact ⟨_, List.mem_append_right _ List.mem_cons_self, List.mem_append_left _ ha, hb⟩
  · exact hp ▸ ⟨box, List.mem_append_left _ hbox, ha, hb⟩

theorem Together.packSeconds (h : p.Together a b) : (p.packSeconds made).Together a b := by
  obtain ⟨box, hbox, ha, hb⟩ := h
  rcases p.packSeconds_cases made with ⟨-, hp⟩ | ⟨start, last, -, hboxes, -, hp⟩ | ⟨-, -, hp⟩
  · rw [hp]
    exact ⟨box, hbox, ha, hb⟩
  · rw [hboxes] at hbox
    rw [hp]
    rcases List.mem_append.mp hbox with hstart | hlast
    · exact ⟨box, List.mem_append_left _ hstart, ha, hb⟩
    · obtain rfl := List.mem_singleton.mp hlast
      exact ⟨_, List.mem_append_right _ List.mem_cons_self, ha, List.mem_append_left _ hb⟩
  · exact hp ▸ ⟨box, List.mem_append_left _ hbox, ha, hb⟩

theorem Waiting.packFirsts (made : ι) (h : p.Waiting a b) :
    if p.lastOpen.isSome ∨ p.firsts = [] then (p.packFirsts made).Waiting a b else (p.packFirsts made).Together a b := by
  obtain ⟨hb, ha⟩ := h
  rcases p.packFirsts_cases made with ⟨hnil, hp⟩ | ⟨start, box, -, hboxes, hopen, hp⟩ | ⟨hne, hlast, hp⟩
  · rw [if_pos (.inr hnil), hp]
    exact ⟨hb, ha⟩
  · have hlast : p.lastOpen = some box := lastOpen_eq_some.mpr ⟨start, hboxes, hopen⟩
    rw [if_pos (.inl (by rw [hlast]; rfl)), hp]
    refine ⟨hb, .inr ⟨_, lastOpen_eq_some.mpr ⟨start, rfl, hopen⟩, ?_⟩⟩
    rcases ha with hwaits | ⟨other, hother, hin⟩
    · exact List.mem_append_right _ hwaits
    · obtain rfl := Option.some.inj (hlast.symm.trans hother)
      exact List.mem_append_left _ hin
  · rw [if_neg (by simp [hlast, hne]), hp]
    refine ⟨_, List.mem_append_right _ List.mem_cons_self, ?_, hb⟩
    rcases ha with hwaits | ⟨box, hbox, -⟩
    · exact hwaits
    · simp [hlast] at hbox

theorem Waiting.packSeconds (h : p.Waiting a b) (hfirsts : p.firsts = []) : (p.packSeconds made).Together a b := by
  obtain ⟨hb, ha⟩ := h
  obtain ⟨box, hlast, ha⟩ := ha.resolve_left (by simp [hfirsts])
  obtain ⟨start, hboxes, -⟩ := lastOpen_eq_some.mp hlast
  rcases p.packSeconds_cases made with ⟨hnil, -⟩ | ⟨start', box', -, hboxes', -, hp⟩ | ⟨-, hnone, -⟩
  · simp [hnil] at hb
  · obtain ⟨rfl, hbox⟩ := List.append_inj' (hboxes.symm.trans hboxes') rfl
    obtain rfl := (List.cons.inj hbox).1
    rw [hp]
    exact ⟨_, List.mem_append_right _ List.mem_cons_self, ha, List.mem_append_right _ hb⟩
  · simp [hnone] at hlast

theorem Waiting.apart (h : p.Waiting a b) (hfirsts : p.firsts = []) (hnodup : p.allSeconds.Nodup) (box : Box ι α β) :
    (p.put box).Apart a b := by
  obtain ⟨hb, ha⟩ := h
  obtain ⟨last, hlast, ha⟩ := ha.resolve_left (by simp [hfirsts])
  obtain ⟨start, hboxes, -⟩ := lastOpen_eq_some.mp hlast
  refine ⟨start, last, box, [], by simp [put, hboxes], ha, fun hin => ?_⟩
  have hdisjoint := List.disjoint_of_nodup_append hnodup
  exact hdisjoint (List.mem_flatMap.mpr ⟨last, by simp [hboxes], hin⟩) hb

theorem Apart.put (h : p.Apart a b) (box : Box ι α β) : (p.put box).Apart a b := by
  obtain ⟨earlier, inner, next, later, hboxes, hpair⟩ := h
  exact ⟨earlier, inner, next, later ++ [box], by simp [Packing.put, hboxes], hpair⟩

theorem Apart.of_last {start : List (Box ι α β)} {last last' : Box ι α β} {firsts firsts' : List α}
    {seconds seconds' : List β} (h : Apart ⟨start ++ [last], firsts, seconds⟩ a b) :
    Apart ⟨start ++ [last'], firsts', seconds'⟩ a b := by
  obtain ⟨earlier, inner, next, later, hboxes, hpair⟩ := h
  rcases List.eq_nil_or_concat later with rfl | ⟨middle, end_, rfl⟩
  · have hsplit : start ++ [last] = (earlier ++ [inner]) ++ [next] := by simpa using hboxes
    obtain ⟨rfl, -⟩ := List.append_inj' hsplit rfl
    exact ⟨earlier, inner, last', [], by simp, hpair⟩
  · have hsplit : start ++ [last] = (earlier ++ inner :: next :: middle) ++ [end_] := by simpa using hboxes
    obtain ⟨rfl, -⟩ := List.append_inj' hsplit rfl
    exact ⟨earlier, inner, next, middle ++ [last'], by simp, hpair⟩

theorem Apart.packFirsts (h : p.Apart a b) : (p.packFirsts made).Apart a b := by
  rcases p.packFirsts_cases made with ⟨-, hp⟩ | ⟨start, last, -, hboxes, -, hp⟩ | ⟨-, -, hp⟩
  · rwa [hp]
  · obtain ⟨boxes, firsts, seconds⟩ := p
    subst hboxes
    exact hp ▸ h.of_last
  · exact hp ▸ h.put _

theorem Apart.packSeconds (h : p.Apart a b) : (p.packSeconds made).Apart a b := by
  rcases p.packSeconds_cases made with ⟨-, hp⟩ | ⟨start, last, -, hboxes, -, hp⟩ | ⟨-, -, hp⟩
  · rwa [hp]
  · obtain ⟨boxes, firsts, seconds⟩ := p
    subst hboxes
    exact hp ▸ h.of_last
  · exact hp ▸ h.put _

theorem Apart.not_together (h : p.Apart a b) (hnodup : p.allFirsts.Nodup) : ¬p.Together a b := by
  obtain ⟨earlier, inner, next, later, hboxes, ha, hb⟩ := h
  rintro ⟨box, hbox, hin, hwith⟩
  have hfirsts : (earlier.flatMap (·.firsts) ++ (inner.firsts ++ (next :: later).flatMap (·.firsts))).Nodup := by
    have hall := (List.nodup_append.mp hnodup).1
    rwa [hboxes, List.flatMap_append, List.flatMap_cons] at hall
  have hbefore := List.disjoint_of_nodup_append hfirsts
  have hafter := List.disjoint_of_nodup_append (List.nodup_append.mp hfirsts).2.1
  rw [hboxes] at hbox
  rcases List.mem_append.mp hbox with hearlier | hrest
  · exact hbefore (List.mem_flatMap.mpr ⟨box, hearlier, hin⟩) (List.mem_append_left _ ha)
  · rcases List.mem_cons.mp hrest with rfl | hlater
    · exact hb hwith
    · exact hafter ha (List.mem_flatMap.mpr ⟨box, hlater, hin⟩)

end Packing
