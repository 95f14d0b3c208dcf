import Lumio.Proxy.Conservation

/-!
# Reasoning and its calls

Reasoning that stands directly before a run of calls belongs into the message of these calls. Calls that join a message
already there leave the reasoning behind: it follows them if the next message is one of the user, and goes astray if
the next one is a tool result or another message of the assistant.
-/

namespace Lumio.Proxy

def isCallItem : HistoryItem × Nat → Bool
  | (.call _, _) => true
  | _ => false

def isReasoningItem : HistoryItem × Nat → Bool
  | (.reasoning _, _) => true
  | _ => false

def leaders (before : List (HistoryItem × Nat)) : List (Text × Nat) :=
  ((before.reverse.dropWhile isCallItem).takeWhile isReasoningItem).filterMap taggedReasoning

def Leads (items : List (HistoryItem × Nat)) (call : ChatToolCall × Nat) (reasoning : Text × Nat) : Prop :=
  ∃ (before after : List (HistoryItem × Nat)), items = before ++ (HistoryItem.call call.1, call.2) :: after ∧ reasoning ∈ leaders before

/-- Reasoning lies in the box of the calls it leads. -/
def KeepsGroups (items : List HistoryItem) : Prop :=
  ∀ call reasoning, Leads items.zipIdx call reasoning →
    ∃ box ∈ placed items, call ∈ box.firsts ∧ reasoning ∈ box.seconds

variable {before : List (HistoryItem × Nat)} {call : ChatToolCall × Nat} {reasoning : Text × Nat} {i : Nat}

variable {tagged : HistoryItem × Nat} (text : Text)

theorem leads_append :
    Leads (before ++ [tagged]) call reasoning ↔
      Leads before call reasoning ∨ tagged = (.call call.1, call.2) ∧ reasoning ∈ leaders before := by
  constructor
  · rintro ⟨start, after, hsplit, hleads⟩
    rcases concat_split.mp hsplit with ⟨rfl, htagged, -⟩ | ⟨middle, -, hstart⟩
    · exact .inr ⟨htagged.symm, hleads⟩
    · exact .inl ⟨start, middle, hstart, hleads⟩
  · rintro (⟨start, after, rfl, hleads⟩ | ⟨rfl, hleads⟩)
    · exact ⟨start, after ++ [tagged], by simp, hleads⟩
    · exact ⟨before, [], rfl, hleads⟩

theorem Leads.append (h : Leads before call reasoning) (after : List (HistoryItem × Nat)) :
    Leads (before ++ after) call reasoning := by
  obtain ⟨start, middle, rfl, hleads⟩ := h
  exact ⟨start, middle ++ after, by simp, hleads⟩

theorem leaders_call (callItem : ChatToolCall) : leaders (before ++ [(HistoryItem.call callItem, i)]) = leaders before := by
  have hcall : isCallItem (.call callItem, i) = true := rfl
  simp [leaders, hcall]

def lastReasoning (before : List (HistoryItem × Nat)) : List (Text × Nat) :=
  (before.reverse.takeWhile isReasoningItem).filterMap taggedReasoning

theorem leaders_reasoning :
    leaders (before ++ [(HistoryItem.reasoning text, i)]) = (taggedReasoning (.reasoning text, i)).toList ++ lastReasoning before := by
  have hreasoning : isReasoningItem (.reasoning text, i) = true := rfl
  cases h : taggedReasoning (.reasoning text, i) <;>
    simp [leaders, lastReasoning, isCallItem, hreasoning, h]

theorem lastReasoning_reasoning :
    lastReasoning (before ++ [(HistoryItem.reasoning text, i)]) =
      (taggedReasoning (.reasoning text, i)).toList ++ lastReasoning before := by
  have hreasoning : isReasoningItem (.reasoning text, i) = true := rfl
  cases h : taggedReasoning (.reasoning text, i) <;> simp [lastReasoning, hreasoning, h]

theorem lastReasoning_other (h : isReasoningItem tagged = false) : lastReasoning (before ++ [tagged]) = [] := by
  simp [lastReasoning, h]

theorem leaders_other (hcall : isCallItem tagged = false) (hreasoning : isReasoningItem tagged = false) :
    leaders (before ++ [tagged]) = [] := by
  simp [leaders, hcall, hreasoning]

/-! ## What the items say about groups -/

/-- What the items so far say about reasoning that waits: whether the last message is one of the assistant, whether
calls wait, whether the items end in reasoning texts, whether reasoning stands before the calls at the end, and whether
reasoning waits whose call has come. -/
structure Grouping where
  attached : Bool := false
  pending : Bool := false
  ends : Bool := false
  led : Bool := false
  group : Bool := false
  seen : List Text := []
deriving DecidableEq

namespace Grouping

/-- Calls that make a message of their own take the reasoning along. -/
def flush (g : Grouping) : Grouping :=
  if g.pending then { g with pending := false, attached := true, group := g.group && g.attached } else g

/-- After an item that is neither reasoning nor a call. -/
def cut (g : Grouping) : Grouping := { g with ends := false, led := false }

def step (g : Grouping) : HistoryItem → Grouping
  | .skipped => g.cut
  | .silent => g.flush.cut
  | .call call =>
    { g with pending := true, ends := false, group := g.group || g.led, seen := call.id :: g.seen }
  | .output callId _ =>
    if callId ∈ g.seen then { g.flush.cut with attached := false }
    else { g.flush.cut with attached := false, group := false }
  | .reasoning text =>
    { g with ends := !text.isEmpty || g.ends, led := !text.isEmpty || g.ends }
  | .message role _ => { g.flush.cut with attached := role == .assistant, group := false }

/-- No reasoning waits for a message that holds its call while a tool result or another message of the assistant
follows. -/
def Allows (g : Grouping) : HistoryItem → Prop
  | .output callId _ => callId ∈ g.seen → g.flush.group = false
  | .message role _ => role = .assistant → g.flush.group = false
  | _ => True

def Stays (g : Grouping) : List HistoryItem → Prop
  | [] => True
  | item :: items => g.Allows item ∧ (g.step item).Stays items

instance (g : Grouping) : (item : HistoryItem) → Decidable (g.Allows item)
  | .output callId _ => inferInstanceAs (Decidable (callId ∈ g.seen → g.flush.group = false))
  | .message role _ => inferInstanceAs (Decidable (role = .assistant → g.flush.group = false))
  | .skipped | .silent | .call _ | .reasoning _ => isTrue trivial

instance decidableStays : (g : Grouping) → (items : List HistoryItem) → Decidable (g.Stays items)
  | _, [] => isTrue trivial
  | g, item :: items =>
    match (inferInstance : Decidable (g.Allows item)), decidableStays (g.step item) items with
    | isTrue hallows, isTrue hstays => isTrue ⟨hallows, hstays⟩
    | isFalse hallows, _ => isFalse fun h => hallows h.1
    | _, isFalse hstays => isFalse fun h => hstays h.2

end Grouping

/-! ## The packing keeps to them -/

structure Pairs (leads : ChatToolCall × Nat → Text × Nat → Prop) (packing : HistoryPacking) (g : Grouping) : Prop where
  attached : packing.lastOpen.isSome = g.attached
  pending : packing.firsts.isEmpty = !g.pending
  pairs : ∀ call reasoning, leads call reasoning →
    packing.Together call reasoning ∨ g.group = true ∧ packing.Waiting call reasoning
  group : g.group = true → ∃ call reasoning, leads call reasoning ∧ packing.Waiting call reasoning

variable {leads : ChatToolCall × Nat → Text × Nat → Prop} {packing : HistoryPacking} {g : Grouping}

theorem lastOpen_packFirsts (packing : HistoryPacking) (hne : packing.firsts ≠ []) :
    (packing.packFirsts none).lastOpen.isSome = true := by
  rcases packing.packFirsts_cases none with ⟨hnil, -⟩ | ⟨start, box, -, -, hopen, h⟩ | ⟨-, -, h⟩
  · exact absurd hnil hne
  · rw [h, Packing.lastOpen_concat, if_pos hopen]
    rfl
  · rw [h, Packing.lastOpen_concat, if_pos rfl]
    rfl

theorem Pairs.flush (h : Pairs leads packing g) : Pairs leads (packing.packFirsts none) g.flush := by
  cases hpending : g.pending with
  | false =>
    have hnil : packing.firsts = [] := by simpa [hpending] using h.pending
    have hsame : packing.packFirsts none = packing := by rw [Packing.packFirsts, hnil]; rfl
    have hflush : g.flush = g := by rw [Grouping.flush, hpending]; rfl
    rwa [hsame, hflush]
  | true =>
    have hne : packing.firsts ≠ [] := by simpa [hpending] using h.pending
    have hflush : g.flush = { g with pending := false, attached := true, group := g.group && g.attached } := by
      rw [Grouping.flush, hpending]; rfl
    rw [hflush]
    refine ⟨lastOpen_packFirsts packing hne, by simp, fun call reasoning hleads => ?_, fun hgroup => ?_⟩
    · rcases h.pairs call reasoning hleads with htogether | ⟨hgroup, hwaiting⟩
      · exact .inl htogether.packFirsts
      · have hpacked := hwaiting.packFirsts none
        cases hattached : g.attached with
        | true =>
          rw [if_pos (.inl (h.attached.trans hattached))] at hpacked
          exact .inr ⟨by simp [hgroup], hpacked⟩
        | false =>
          rw [if_neg (by simp [h.attached, hattached, hne])] at hpacked
          exact .inl hpacked
    · obtain ⟨hwaits, hattached⟩ := (Bool.and_eq_true _ _).mp hgroup
      obtain ⟨call, reasoning, hleads, hwaiting⟩ := h.group hwaits
      have hpacked := hwaiting.packFirsts none
      rw [if_pos (.inl (h.attached.trans hattached))] at hpacked
      exact ⟨call, reasoning, hleads, hpacked⟩

theorem Pairs.put (h : Pairs leads packing g) (hgroup : g.group = false) {box : MessageBox} {packing' : HistoryPacking}
    (hboxes : packing'.boxes = packing.boxes ++ [box]) (hfirsts : packing'.firsts = packing.firsts) :
    Pairs leads packing' { g with attached := box.opened } := by
  refine ⟨?_, by rw [hfirsts]; exact h.pending, fun call reasoning hleads => ?_, fun hwaits => ?_⟩
  · rw [Packing.lastOpen, hboxes, List.getLast?_concat]
    cases hopen : box.opened <;> simp [Option.filter, hopen]
  · rcases h.pairs call reasoning hleads with ⟨inner, hinner, hpair⟩ | ⟨hwaits, -⟩
    · exact .inl ⟨inner, hboxes ▸ List.mem_append_left _ hinner, hpair⟩
    · simp [hgroup] at hwaits
  · simp [hgroup] at hwaits

theorem Pairs.flushReasoning (h : Pairs leads packing g) (hfirsts : packing.firsts = []) (call : ChatToolCall × Nat)
    (reasoning : Text × Nat) (hleads : leads call reasoning) : (packing.packSeconds none).Together call reasoning := by
  rcases h.pairs call reasoning hleads with htogether | ⟨-, hwaiting⟩
  · exact htogether.packSeconds
  · exact hwaiting.packSeconds hfirsts

theorem Pairs.congr {leads' : ChatToolCall × Nat → Text × Nat → Prop} (h : Pairs leads packing g)
    (hleads : ∀ call reasoning, leads' call reasoning ↔ leads call reasoning) {g' : Grouping}
    (hattached : g'.attached = g.attached) (hpending : g'.pending = g.pending) (hgroup : g'.group = g.group) :
    Pairs leads' packing g' := by
  have hsame : leads' = leads := funext fun call => funext fun reasoning => propext (hleads call reasoning)
  subst hsame
  exact ⟨hattached ▸ h.attached, hpending ▸ h.pending, hgroup ▸ h.pairs, hgroup ▸ h.group⟩

structure Tracks (before : List (HistoryItem × Nat)) (p : Placement) (g : Grouping) : Prop where
  pairs : Pairs (Leads before) p.packing g
  seen : p.seen = g.seen
  ends : (lastReasoning before).isEmpty = !g.ends
  led : (leaders before).isEmpty = !g.led
  last : ∀ text ∈ lastReasoning before, text ∈ p.packing.seconds
  leading : ∀ text ∈ leaders before, text ∈ p.packing.seconds

variable {p : Placement}

theorem Tracks.cut (hcall : isCallItem tagged = false) (hreasoning : isReasoningItem tagged = false) {p' : Placement}
    {g' : Grouping} (hpairs : Pairs (Leads before) p'.packing g') (hseen : p'.seen = g'.seen)
    (hends : g'.ends = false) (hled : g'.led = false) : Tracks (before ++ [tagged]) p' g' := by
  have hleads : ∀ call reasoning, Leads (before ++ [tagged]) call reasoning ↔ Leads before call reasoning := by
    intro call reasoning
    rw [leads_append]
    refine or_iff_left ?_
    rintro ⟨rfl, -⟩
    simp [isCallItem] at hcall
  refine ⟨hpairs.congr hleads rfl rfl rfl, hseen, ?_, ?_, ?_, ?_⟩
  · rw [lastReasoning_other hreasoning, hends]
    rfl
  · rw [leaders_other hcall hreasoning, hled]
    rfl
  · simp [lastReasoning_other hreasoning]
  · simp [leaders_other hcall hreasoning]

theorem Tracks.addCall (h : Tracks before p g) (callItem : ChatToolCall) (i : Nat) :
    Tracks (before ++ [(HistoryItem.call callItem, i)]) (p.step (.call callItem, i)) (g.step (.call callItem)) := by
  refine ⟨⟨h.pairs.attached, by simp [Placement.step, Packing.addFirst, Grouping.step], ?_, ?_⟩, ?_, ?_, ?_, ?_, ?_⟩
  · intro call reasoning hleads
    rcases leads_append.mp hleads with hbefore | ⟨htagged, hleading⟩
    · rcases h.pairs.pairs call reasoning hbefore with htogether | ⟨hgroup, htext, hcall⟩
      · exact .inl htogether
      · exact .inr ⟨by simp [Grouping.step, hgroup], htext, hcall.imp_left (List.mem_append_left _)⟩
    · obtain ⟨hcall, hi⟩ := Prod.mk.inj htagged
      obtain rfl : callItem = call.1 := by simpa using hcall
      have hled : g.led = true := by
        cases hled : g.led with
        | true => rfl
        | false =>
          have hempty := h.led
          rw [hled, Bool.not_false, List.isEmpty_iff] at hempty
          simp [hempty] at hleading
      exact .inr ⟨by simp [Grouping.step, hled], h.leading reasoning hleading,
        .inl (List.mem_append_right _ (by simp [hi]))⟩
  · intro hgroup
    rcases (Bool.or_eq_true _ _).mp hgroup with hwaits | hled
    · obtain ⟨call, reasoning, hleads, htext, hcall⟩ := h.pairs.group hwaits
      exact ⟨call, reasoning, hleads.append _, htext, hcall.imp_left (List.mem_append_left _)⟩
    · have hne : leaders before ≠ [] := by
        have hempty := h.led
        rw [hled] at hempty
        simpa using hempty
      obtain ⟨reasoning, rest, hleaders⟩ := List.exists_cons_of_ne_nil hne
      have hleading : reasoning ∈ leaders before := hleaders ▸ List.mem_cons_self
      exact ⟨(callItem, i), reasoning, leads_append.mpr (.inr ⟨rfl, hleading⟩), h.leading reasoning hleading,
        .inl (List.mem_append_right _ List.mem_cons_self)⟩
  · exact congrArg (callItem.id :: ·) h.seen
  · rw [lastReasoning_other rfl]
    rfl
  · rw [leaders_call]
    exact h.led
  · rw [lastReasoning_other rfl]
    simp
  · rw [leaders_call]
    exact h.leading

theorem Tracks.addReasoning (h : Tracks before p g) (text : Text) (i : Nat) :
    Tracks (before ++ [(HistoryItem.reasoning text, i)]) (p.step (.reasoning text, i)) (g.step (.reasoning text)) := by
  have hleads : ∀ call reasoning, Leads (before ++ [(HistoryItem.reasoning text, i)]) call reasoning ↔
      Leads before call reasoning := fun call reasoning => by rw [leads_append]; exact or_iff_left (by simp)
  rw [Placement.step]
  cases hempty : text.isEmpty with
  | true =>
    have hnone : taggedReasoning (.reasoning text, i) = none := by rw [taggedReasoning, if_pos hempty]
    refine ⟨h.pairs.congr hleads rfl rfl rfl, h.seen, ?_, ?_, ?_, ?_⟩
    · rw [lastReasoning_reasoning, hnone]
      simpa [Grouping.step, hempty] using h.ends
    · rw [leaders_reasoning, hnone]
      simpa [Grouping.step, hempty] using h.ends
    · rw [lastReasoning_reasoning, hnone]
      exact h.last
    · rw [leaders_reasoning, hnone]
      exact h.last
  | false =>
    have hsome : taggedReasoning (.reasoning text, i) = some (text, i) := by
      rw [taggedReasoning, if_neg (by simp [hempty])]
    have hadded : ∀ added ∈ (text, i) :: lastReasoning before, added ∈ p.packing.seconds ++ [(text, i)] := by
      intro added hmem
      rcases List.mem_cons.mp hmem with rfl | hlast
      · exact List.mem_append_right _ List.mem_cons_self
      · exact List.mem_append_left _ (h.last added hlast)
    have hpairs : Pairs (Leads before) (p.packing.addSecond (text, i)) g := by
      refine ⟨h.pairs.attached, h.pairs.pending, fun call reasoning hbefore => ?_, fun hgroup => ?_⟩
      · rcases h.pairs.pairs call reasoning hbefore with htogether | ⟨hgroup, htext, hcall⟩
        · exact .inl htogether
        · exact .inr ⟨hgroup, List.mem_append_left _ htext, hcall⟩
      · obtain ⟨call, reasoning, hbefore, htext, hcall⟩ := h.pairs.group hgroup
        exact ⟨call, reasoning, hbefore, List.mem_append_left _ htext, hcall⟩
    rw [if_neg Bool.false_ne_true]
    refine ⟨hpairs.congr hleads rfl rfl rfl, h.seen, ?_, ?_, ?_, ?_⟩
    · rw [lastReasoning_reasoning, hsome]
      simp [Grouping.step, hempty]
    · rw [leaders_reasoning, hsome]
      simp [Grouping.step, hempty]
    · rw [lastReasoning_reasoning, hsome]
      exact hadded
    · rw [leaders_reasoning, hsome]
      exact hadded

theorem Pairs.close (h : Pairs leads packing g) (tagged : HistoryItem × Nat) :
    Pairs leads (((packing.packFirsts none).packSeconds none).closedBox (some tagged))
      { g.flush with attached := false, group := false } := by
  have hflush := h.flush
  have htogether := hflush.flushReasoning (by simp)
  have hall : Pairs leads ((packing.packFirsts none).packSeconds none)
      { g.flush with attached := ((packing.packFirsts none).packSeconds none).lastOpen.isSome, group := false } :=
    ⟨rfl, by simpa using hflush.pending, fun call reasoning hleads => .inl (htogether call reasoning hleads), by simp⟩
  have hboxes : (((packing.packFirsts none).packSeconds none).closedBox (some tagged)).boxes =
      ((packing.packFirsts none).packSeconds none).boxes ++ [{ label := some tagged, opened := false }] := rfl
  exact hall.put rfl hboxes rfl

theorem Grouping.seen_flush (g : Grouping) : g.flush.seen = g.seen := by
  rw [flush]
  split <;> rfl

theorem Tracks.step (h : Tracks before p g) {item : HistoryItem} (hallows : g.Allows item) (i : Nat) :
    Tracks (before ++ [(item, i)]) (p.step (item, i)) (g.step item) := by
  have hseen : p.seen = g.flush.seen := h.seen.trans g.seen_flush.symm
  cases item with
  | skipped => exact .cut rfl rfl (h.pairs.congr (fun _ _ => .rfl) rfl rfl rfl) h.seen rfl rfl
  | silent => exact .cut rfl rfl (h.pairs.flush.congr (fun _ _ => .rfl) rfl rfl rfl) hseen rfl rfl
  | call call => exact h.addCall call i
  | reasoning text => exact h.addReasoning text i
  | output callId output =>
    rw [Placement.step, Grouping.step, ← h.seen]
    by_cases hmem : callId ∈ p.seen
    · have hgroup : g.flush.group = false := hallows (h.seen ▸ hmem)
      have hboxes : ((p.packing.packFirsts none).closedBox (some (.output callId output, i))).boxes =
          (p.packing.packFirsts none).boxes ++ [{ label := some (.output callId output, i), opened := false }] := rfl
      have hput := h.pairs.flush.put hgroup hboxes rfl
      rw [if_neg (not_not.mpr hmem), if_pos hmem]
      exact .cut rfl rfl (hput.congr (fun _ _ => .rfl) rfl rfl rfl) hseen rfl rfl
    · rw [if_pos hmem, if_neg hmem]
      exact .cut rfl rfl ((h.pairs.close (.output callId output, i)).congr (fun _ _ => .rfl) rfl rfl rfl) hseen rfl rfl
  | message role content =>
    rw [Placement.step, Grouping.step]
    by_cases hrole : role = .assistant
    · have hgroup : g.flush.group = false := hallows hrole
      have hboxes : ((p.packing.packFirsts none).openBox (some (.message role content, i))).boxes =
          (p.packing.packFirsts none).boxes ++ [{ label := some (.message role content, i), opened := true
                                                  seconds := (p.packing.packFirsts none).seconds }] := rfl
      have hput := h.pairs.flush.put hgroup hboxes rfl
      rw [if_pos hrole]
      exact .cut rfl rfl (hput.congr (fun _ _ => .rfl) (by simp [hrole]) rfl hgroup.symm) hseen rfl rfl
    · rw [if_neg hrole]
      exact .cut rfl rfl ((h.pairs.close (.message role content, i)).congr (fun _ _ => .rfl) (by simp [hrole]) rfl rfl)
        hseen rfl rfl

/-! ## What goes astray stays there -/

theorem Placement.apart_step (h : p.packing.Apart call reasoning) (tagged : HistoryItem × Nat) :
    (p.step tagged).packing.Apart call reasoning := by
  obtain ⟨item, i⟩ := tagged
  cases item with
  | skipped => exact h
  | silent => exact h.packFirsts
  | call call => exact h
  | output callId output =>
    rw [step]
    split
    · exact h.packFirsts.packSeconds.put _
    · exact h.packFirsts.put _
  | reasoning text =>
    rw [step]
    split <;> exact h
  | message role content =>
    simp only [step]
    split
    · exact h.packFirsts.put _
    · exact h.packFirsts.packSeconds.put _

theorem Placement.apart_foldl (h : p.packing.Apart call reasoning) (items : List (HistoryItem × Nat)) :
    (items.foldl Placement.step p).packing.Apart call reasoning := by
  induction items generalizing p with
  | nil => exact h
  | cons tagged items ih => exact ih (Placement.apart_step h tagged)

theorem Tracks.parts (h : Tracks before p g) {item : HistoryItem} (hallows : ¬g.Allows item) (i : Nat)
    (hnodup : p.packing.allSeconds.Nodup) :
    ∃ call reasoning, Leads before call reasoning ∧ (p.step (item, i)).packing.Apart call reasoning := by
  have hwaits : g.flush.group = true → ∃ call reasoning, Leads before call reasoning ∧
      ∀ box, ((p.packing.packFirsts none).put box).Apart call reasoning := by
    intro hgroup
    obtain ⟨call, reasoning, hleads, hwaiting⟩ := h.pairs.flush.group hgroup
    exact ⟨call, reasoning, hleads, hwaiting.apart (by simp) (by simpa using hnodup)⟩
  cases item with
  | output callId output =>
    rw [Grouping.Allows, Classical.not_imp, Bool.not_eq_false] at hallows
    obtain ⟨call, reasoning, hleads, hparts⟩ := hwaits hallows.2
    refine ⟨call, reasoning, hleads, ?_⟩
    rw [Placement.step, h.seen, if_neg (not_not.mpr hallows.1)]
    exact hparts _
  | message role content =>
    rw [Grouping.Allows, Classical.not_imp, Bool.not_eq_false] at hallows
    obtain ⟨call, reasoning, hleads, hparts⟩ := hwaits hallows.2
    refine ⟨call, reasoning, hleads, ?_⟩
    rw [Placement.step, if_pos hallows.1]
    exact hparts _
  | skipped => exact absurd trivial hallows
  | silent => exact absurd trivial hallows
  | call call => exact absurd trivial hallows
  | reasoning text => exact absurd trivial hallows

/-! ## Whole inputs -/

theorem nodup_tagged {α : Type} {value : HistoryItem × Nat → Option (α × Nat)} {items : List (HistoryItem × Nat)}
    (hposition : ∀ tagged x, value tagged = some x → x.2 = tagged.2) (hnodup : (items.map (·.2)).Nodup) :
    (items.filterMap value).Nodup := by
  induction items with
  | nil => simp
  | cons tagged items ih =>
    obtain ⟨hnew, hrest⟩ := List.nodup_cons.mp hnodup
    cases hvalue : value tagged with
    | none => rw [List.filterMap_cons_none hvalue]; exact ih hrest
    | some x =>
      rw [List.filterMap_cons_some hvalue]
      refine List.nodup_cons.mpr ⟨fun hmem => hnew ?_, ih hrest⟩
      obtain ⟨other, hother, hsame⟩ := List.mem_filterMap.mp hmem
      change tagged.2 ∈ _
      rw [← hposition tagged x hvalue, hposition other x hsame]
      exact List.mem_map_of_mem hother

theorem nodup_placed {items : List (HistoryItem × Nat)} (hnodup : (items.map (·.2)).Nodup) :
    (items.foldl Placement.step {}).packing.allFirsts.Nodup ∧ (items.foldl Placement.step {}).packing.allSeconds.Nodup := by
  have hfirsts := @foldl_collects _ _ _ _ (fun p : Placement => p.packing.allFirsts) taggedCall Placement.allFirsts_step {}
    items
  have hseconds := @foldl_collects _ _ _ _ (fun p : Placement => p.packing.allSeconds) taggedReasoning
    Placement.allSeconds_step {} items
  refine ⟨?_, ?_⟩
  · rw [hfirsts]
    refine nodup_tagged (fun tagged x hvalue => ?_) hnodup
    obtain ⟨item, i⟩ := tagged
    cases item <;> simp only [taggedCall, reduceCtorEq, Option.some.injEq] at hvalue
    rw [← hvalue]
  · rw [hseconds]
    refine nodup_tagged (fun tagged x hvalue => ?_) hnodup
    obtain ⟨item, i⟩ := tagged
    cases item with
    | reasoning text =>
      rw [taggedReasoning] at hvalue
      split at hvalue
      · cases hvalue
      · rw [← Option.some.inj hvalue]
    | _ => cases hvalue

def finished (p : Placement) : HistoryPacking := (p.packing.packFirsts none).packSeconds none

theorem Tracks.stays_iff (after : List (HistoryItem × Nat))
    (h : Tracks before (before.foldl Placement.step {}) g) (hnodup : ((before ++ after).map (·.2)).Nodup) :
    (∀ call reasoning, Leads (before ++ after) call reasoning →
        (finished ((before ++ after).foldl Placement.step {})).Together call reasoning) ↔
      g.Stays (after.map (·.1)) := by
  induction after generalizing before g with
  | nil =>
    refine iff_of_true (fun call reasoning hleads => ?_) trivial
    rw [List.append_nil] at hleads ⊢
    exact h.pairs.flush.flushReasoning (by simp) call reasoning hleads
  | cons tagged after ih =>
    obtain ⟨item, i⟩ := tagged
    have happend : before ++ (item, i) :: after = (before ++ [(item, i)]) ++ after := by simp
    have hfold : (before ++ [(item, i)]).foldl Placement.step {} = (before.foldl Placement.step {}).step (item, i) := by
      rw [List.foldl_append]
      rfl
    by_cases hallows : g.Allows item
    · have hnext := ih (hfold ▸ h.step hallows i) (happend ▸ hnodup)
      rw [happend, hnext, List.map_cons, Grouping.Stays]
      exact (and_iff_right hallows).symm
    · refine iff_of_false (fun htogether => ?_) fun hstays => hallows hstays.1
      have hbefore : (before.map (·.2)).Nodup := by
        rw [List.map_append] at hnodup
        exact (List.nodup_append.mp hnodup).1
      obtain ⟨call, reasoning, hleads, hparts⟩ := h.parts hallows i (nodup_placed hbefore).2
      -- the pair is apart for good, though the calls of all boxes are different ones
      have hapart : (finished ((before ++ (item, i) :: after).foldl Placement.step {})).Apart call reasoning := by
        rw [happend, List.foldl_append, hfold]
        exact (Placement.apart_foldl hparts after).packFirsts.packSeconds
      refine hapart.not_together ?_ (htogether call reasoning (hleads.append _))
      rw [finished, Packing.allFirsts_packSeconds, Packing.allFirsts_packFirsts]
      exact (nodup_placed hnodup).1

theorem keepsGroups_iff (items : List HistoryItem) : KeepsGroups items ↔ Grouping.Stays {} items := by
  have hempty : Tracks [] ([].foldl Placement.step {}) {} := by
    refine ⟨⟨rfl, rfl, fun call reasoning hleads => ?_, by simp⟩, rfl, rfl, rfl, by simp [lastReasoning], by simp [leaders]⟩
    obtain ⟨before, after, hsplit, -⟩ := hleads
    simp at hsplit
  have hnodup : (([] ++ items.zipIdx).map fun tagged : HistoryItem × Nat => tagged.2).Nodup := by
    rw [List.nil_append]
    exact (List.zipIdx_map_snd 0 items).symm ▸ List.nodup_range'
  have hstays := hempty.stays_iff items.zipIdx hnodup
  rw [List.zipIdx_map_fst, List.nil_append] at hstays
  exact hstays

/-- A reasoning text lies in one box, so that one which lies in the box of its calls is in no later message. -/
theorem nodup_seconds (items : List HistoryItem) : ((placed items).flatMap (·.seconds)).Nodup := by
  have hnodup : (items.zipIdx.map (·.2)).Nodup := by
    rw [List.zipIdx_map_snd]
    exact List.nodup_range'
  have hpacked : (((Placement.run items).packing.packFirsts none).packSeconds none).allSeconds =
      (Placement.run items).packing.allSeconds := by simp
  have hplaced : (placed items).flatMap (·.seconds) = (Placement.run items).packing.allSeconds := by
    simpa [Packing.allSeconds, placed] using hpacked
  rw [hplaced]
  exact (nodup_placed hnodup).2

/-- The messages are those of the boxes, a reasoning text is in one of them, and it is in the message of the calls it
leads exactly if no item of the input parts them. -/
theorem appendResponsesInput_keepsGroups_iff [SerdeJson] (body : Value) (items : List Value) :
    (∃ messages, appendResponsesInput (instructionMessages body) (.array items) = instructionMessages body ++ messages ∧
      List.Forall₂ Shows (placed (items.map readItem)) messages) ∧
    ((placed (items.map readItem)).flatMap (·.seconds)).Nodup ∧
    (KeepsGroups (items.map readItem) ↔ Grouping.Stays {} (items.map readItem)) := by
  obtain ⟨messages, hmessages, hshows⟩ := shows_placed (noAssistantLast_instructions body) (items.map readItem)
  exact ⟨⟨messages, by rw [appendResponsesInput_array, hmessages], hshows⟩, nodup_seconds _, keepsGroups_iff _⟩

/-- Words of the assistant, reasoning, a call and its result. -/
def strayReasoning : List Value :=
  [.object [("type", .ofStr "message"), ("role", .ofStr "assistant"), ("content", .ofStr "ok")],
    .object [("type", .ofStr "reasoning"), ("text", .ofStr "r")],
    .object [("type", .ofStr "function_call"), ("call_id", .ofStr "c"), ("name", .ofStr "f"), ("arguments", .ofStr "\x7b\x7d")],
    .object [("type", .ofStr "function_call_output"), ("call_id", .ofStr "c"), ("output", .ofStr "done")]]

/-- The call joins the words, and the reasoning comes in a message after the result. -/
theorem strayReasoning_parted :
    (@appendResponsesInput emptyObjectJson [] (.array strayReasoning)).map
        (fun message => (message.role, message.calls.map (·.id), message.reasoningContent)) =
      [(.assistant, [['c']], none), (.tool, [], none), (.assistant, [], some ['r'])] ∧
      ¬KeepsGroups (strayReasoning.map (@readItem emptyObjectJson)) := by
  refine ⟨by decide +kernel, ?_⟩
  rw [keepsGroups_iff]
  decide +kernel

end Lumio.Proxy
