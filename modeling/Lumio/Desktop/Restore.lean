import Lumio.Desktop.Takeover

/-!
# What a restore brings back

While a file holds a write of Lumio, its slot has what the file held before. A slot that outlives an interrupted
takeover or restore is not written again; if the user has edited the file since, it brings back the wrong bytes.
-/

namespace Lumio.Desktop

namespace SnapshotSlot

def original (slot : SnapshotSlot) : Option (Option Bytes) :=
  match slot.recorded with
  | some .present => some slot.content
  | some .absent => some none
  | none => none

@[simp] theorem original_empty : empty.original = none := rfl

variable {slot : SnapshotSlot}

theorem original_eq_none_iff : slot.original = none ↔ slot.recorded = none := by
  unfold original
  split <;> simp_all

theorem original_of_content {bytes : Bytes} (h : slot.content = some bytes) : slot.original = some (some bytes) := by
  simp [original, recorded, h]

theorem original_mark (h : slot.original = none) :
    ({ slot with absent := true } : SnapshotSlot).original = some none := by
  have hcontent : slot.content = none := by
    cases hcontent : slot.content with
    | none => rfl
    | some bytes => simp [original, recorded, hcontent] at h
  simp [original, recorded, hcontent]

end SnapshotSlot

namespace TakeoverWorld

/-- An operation that writes a file which holds no write of Lumio finds the bytes of the file in its slot, if anything
is there. -/
def SlotFresh (s : TakeoverWorld) : FileOp → Prop
  | .writeFile f _ | .writeBack f _ | .removeFile f =>
    s.before f = none → (s.disk.slot f).original = none ∨ (s.disk.slot f).original = some (s.disk.file f)
  | _ => True

instance (s : TakeoverWorld) (op : FileOp) : Decidable (s.SlotFresh op) :=
  match op with
  | .writeFile f _ | .writeBack f _ | .removeFile f => inferInstanceAs (Decidable (s.before f = none →
      (s.disk.slot f).original = none ∨ (s.disk.slot f).original = some (s.disk.file f)))
  | .writeSnapshot _ _ | .markAbsent _ | .writeManifest _ | .removeManifest | .removeSnapshot _ | .removeMarker _ =>
    inferInstanceAs (Decidable True)

def Recorded (s : TakeoverWorld) : Prop := ∀ f o, s.before f = some o → (s.disk.slot f).original = some o

def Fine (s : TakeoverWorld) : FileOp → Prop
  | .writeSnapshot f _ | .markAbsent f => (s.disk.slot f).original = none
  | .writeFile f _ => s.before f = none → (s.disk.slot f).original = some (s.disk.file f)
  | .removeSnapshot f | .removeMarker f => s.before f = none
  | .writeManifest _ | .writeBack _ _ | .removeFile _ | .removeManifest => True

variable {s : TakeoverWorld} {f g : TakeoverFile} {operations : List FileOp}

theorem Recorded.execute (h : s.Recorded) {op : FileOp} (hfine : s.Fine op) : (s.execute op).Recorded := by
  intro g o hbefore
  cases op with
  | writeSnapshot f bytes | markAbsent f =>
    -- the slot was empty, so the file holds no write of Lumio
    have hne : g ≠ f := by
      rintro rfl
      simp only [Fine] at hfine
      rw [h g o hbefore] at hfine
      cases hfine
    simpa [TakeoverWorld.execute, setSlot, Function.update_of_ne hne] using h g o hbefore
  | writeFile f bytes =>
    by_cases heq : g = f
    · subst heq
      simp only [TakeoverWorld.execute, setFile, setBefore, Function.update_self, Option.some.injEq] at hbefore ⊢
      subst hbefore
      cases hold : s.before g with
      | none => exact hfine hold
      | some o => exact h g o hold
    · simp only [TakeoverWorld.execute, setFile, setBefore, Function.update_of_ne heq] at hbefore ⊢
      exact h g o hbefore
  | writeBack f bytes | removeFile f =>
    by_cases heq : g = f
    · subst heq
      simp [TakeoverWorld.execute, setFile, setBefore] at hbefore
    · simp only [TakeoverWorld.execute, setFile, setBefore, Function.update_of_ne heq] at hbefore ⊢
      exact h g o hbefore
  | removeSnapshot f | removeMarker f =>
    have hne : g ≠ f := by
      rintro rfl
      simp only [TakeoverWorld.execute, setSlot] at hbefore
      rw [hfine] at hbefore
      cases hbefore
    simpa [TakeoverWorld.execute, setSlot, Function.update_of_ne hne] using h g o hbefore
  | writeManifest bytes | removeManifest => exact h g o hbefore

def AllFine : TakeoverWorld → List FileOp → Prop
  | _, [] => True
  | s, op :: ops => s.Fine op ∧ AllFine (s.execute op) ops

theorem Recorded.executeAll (h : s.Recorded) (hfine : s.AllFine operations) : (s.executeAll operations).Recorded := by
  induction operations generalizing s with
  | nil => exact h
  | cons op ops ih => exact ih (h.execute hfine.1) hfine.2

theorem executeAll_append (s : TakeoverWorld) (ops more : List FileOp) :
    s.executeAll (ops ++ more) = (s.executeAll ops).executeAll more := List.foldl_append ..

theorem allFine_append {ops more : List FileOp} :
    s.AllFine (ops ++ more) ↔ s.AllFine ops ∧ (s.executeAll ops).AllFine more := by
  induction ops generalizing s with
  | nil => simp [AllFine, TakeoverWorld.executeAll]
  | cons op ops ih =>
    simp only [List.cons_append, AllFine, ih, and_assoc]
    rfl

theorem AllFine.take (h : s.AllFine operations) (n : Nat) : s.AllFine (operations.take n) := by
  rw [← List.take_append_drop n operations] at h
  exact (allFine_append.mp h).1

/-! ## A takeover -/

theorem recordOnce_fine (hslot : (s.disk.slot f).recordOnce f (s.disk.file f) = operations) :
    s.AllFine operations ∧ (s.executeAll operations).disk.file = s.disk.file ∧ (s.executeAll operations).before = s.before ∧
      (∀ g, g ≠ f → (s.executeAll operations).disk.slot g = s.disk.slot g) ∧
      ((s.executeAll operations).disk.slot f).original = some (((s.disk.slot f).original).getD (s.disk.file f)) := by
  subst hslot
  unfold SnapshotSlot.recordOnce
  split
  · rename_i hrecorded
    refine ⟨trivial, rfl, rfl, fun _ _ => rfl, ?_⟩
    cases horiginal : (s.disk.slot f).original with
    | none =>
      rw [SnapshotSlot.original_eq_none_iff.mp horiginal] at hrecorded
      cases hrecorded
    | some o => exact horiginal
  · rename_i hrecorded
    have hnone : (s.disk.slot f).original = none := by
      rw [SnapshotSlot.original_eq_none_iff]
      simpa using hrecorded
    cases hfile : s.disk.file f with
    | some bytes =>
      refine ⟨⟨hnone, trivial⟩, rfl, rfl, fun g hg => ?_, ?_⟩
      · simp [TakeoverWorld.executeAll, TakeoverWorld.execute, setSlot, Function.update_of_ne hg]
      · simp [TakeoverWorld.executeAll, TakeoverWorld.execute, setSlot, hnone, SnapshotSlot.original_of_content]
    | none =>
      refine ⟨⟨hnone, trivial⟩, rfl, rfl, fun g hg => ?_, ?_⟩
      · simp [TakeoverWorld.executeAll, TakeoverWorld.execute, setSlot, Function.update_of_ne hg]
      · simp [TakeoverWorld.executeAll, TakeoverWorld.execute, setSlot, hnone, SnapshotSlot.original_mark hnone]

theorem records_fine (s : TakeoverWorld)
    (hops : (s.disk.slot .config).recordOnce .config (s.disk.file .config) ++
      (s.disk.slot .auth).recordOnce .auth (s.disk.file .auth) = operations) :
    s.AllFine operations ∧ (s.executeAll operations).disk.file = s.disk.file ∧
      (s.executeAll operations).before = s.before ∧
      ∀ f, ((s.executeAll operations).disk.slot f).original = some (((s.disk.slot f).original).getD (s.disk.file f)) := by
  obtain ⟨hfine, hfile, hbefore, hother, horiginal⟩ := recordOnce_fine (s := s) (f := .config) rfl
  subst hops
  generalize (s.disk.slot .config).recordOnce .config (s.disk.file .config) = ops at *
  have hauth := hother .auth (by simp)
  rw [← hauth, ← hfile]
  obtain ⟨hfine', hfile', hbefore', hother', horiginal'⟩ := recordOnce_fine (s := s.executeAll ops) (f := .auth) rfl
  rw [executeAll_append]
  refine ⟨allFine_append.mpr ⟨hfine, hfine'⟩, hfile', hbefore'.trans hbefore, fun f => ?_⟩
  cases f with
  | config => rw [hother' .config (by simp), horiginal, hfile]
  | auth => rw [horiginal', hauth]

theorem writes_fine {configOutput authOutput manifest : Bytes} {n : Nat}
    (h : ∀ f bytes, .writeFile f bytes ∈ [FileOp.writeFile .config configOutput, .writeFile .auth authOutput,
      .writeManifest manifest].take n → s.Fine (.writeFile f bytes)) :
    s.AllFine ([FileOp.writeFile .config configOutput, .writeFile .auth authOutput, .writeManifest manifest].take n) := by
  match n with
  | 0 => trivial
  | 1 => exact ⟨h .config _ (by simp), trivial⟩
  | n + 2 =>
    have hauth : (s.execute (.writeFile .config configOutput)).Fine (.writeFile .auth authOutput) := by
      simpa [Fine, TakeoverWorld.execute, setFile, setBefore] using h .auth authOutput (by simp)
    refine ⟨h .config _ (by simp), hauth, ?_⟩
    cases n with
    | zero => trivial
    | succ n =>
      have hmanifest : ∀ t : TakeoverWorld, t.AllFine [.writeManifest manifest] := fun _ => ⟨trivial, trivial⟩
      exact (hmanifest _).take (n + 1)

/-! ## A restore -/

theorem executeAll_restoreRecorded (s : TakeoverWorld) (f : TakeoverFile) :
    s.executeAll (s.disk.restoreRecorded f) =
      match (s.disk.slot f).original with
      | some o => (s.setBefore f none).setFile f o
      | none => s := by
  unfold TakeoverDisk.restoreRecorded SnapshotSlot.original
  cases hrecorded : (s.disk.slot f).recorded with
  | none => rfl
  | some state =>
    cases state with
    | absent => rfl
    | present =>
      cases hcontent : (s.disk.slot f).content with
      | none => simp [SnapshotSlot.recorded, hcontent] at hrecorded
      | some bytes =>
        simp only [SnapshotSlot.restoreOne, hcontent]
        rfl

theorem restoreRecorded_fine (s t : TakeoverWorld) (f : TakeoverFile) : t.AllFine (s.disk.restoreRecorded f) := by
  unfold TakeoverDisk.restoreRecorded
  split
  · rename_i state hrecorded
    cases state with
    | absent => exact ⟨trivial, trivial⟩
    | present =>
      cases hcontent : (s.disk.slot f).content with
      | none => simp [SnapshotSlot.restoreOne, hcontent, AllFine]
      | some bytes => simp [SnapshotSlot.restoreOne, hcontent, AllFine, Fine]
  · trivial

theorem restoreRecorded_slotFresh {o : Option Bytes} (horiginal : (s.disk.slot f).original = some o)
    (h : ∀ op ∈ s.disk.restoreRecorded f, s.SlotFresh op) (hbefore : s.before f = none) : o = s.disk.file f := by
  suffices hfresh : (s.disk.slot f).original = none ∨ (s.disk.slot f).original = some (s.disk.file f) by
    rcases hfresh with hnone | hsome
    · rw [horiginal] at hnone
      cases hnone
    · rw [horiginal] at hsome
      exact Option.some.inj hsome
  unfold TakeoverDisk.restoreRecorded at h
  cases hrecorded : (s.disk.slot f).recorded with
  | none => exact .inl (SnapshotSlot.original_eq_none_iff.mpr hrecorded)
  | some state =>
    simp only [hrecorded] at h
    cases state with
    | absent => exact h (.removeFile f) (by simp [SnapshotSlot.restoreOne]) hbefore
    | present =>
      cases hcontent : (s.disk.slot f).content with
      | none => simp [SnapshotSlot.recorded, hcontent] at hrecorded
      | some bytes => exact h (.writeBack f bytes) (by simp [SnapshotSlot.restoreOne, hcontent]) hbefore

def restored (s : TakeoverWorld) (f : TakeoverFile) : TakeoverWorld :=
  match (s.disk.slot f).original with
  | some o => (s.setBefore f none).setFile f o
  | none => s

theorem restored_slot (s : TakeoverWorld) (f : TakeoverFile) : (s.restored f).disk.slot = s.disk.slot := by
  unfold restored
  split <;> rfl

theorem restored_file (s : TakeoverWorld) (f g : TakeoverFile) : (s.restored f).disk.file g =
    if g = f then ((s.disk.slot f).original).getD (s.disk.file f) else s.disk.file g := by
  unfold restored
  by_cases heq : g = f
  · subst heq
    split <;> simp_all [setFile, setBefore]
  · split <;> simp [setFile, setBefore, heq]

theorem restored_before (h : s.Recorded) (f g : TakeoverFile) :
    (s.restored f).before g = if g = f then none else s.before g := by
  unfold restored
  by_cases heq : g = f
  · subst heq
    split
    · simp [setFile, setBefore]
    · rename_i hnone
      cases hbefore : s.before g with
      | none => simp
      | some o =>
        rw [h g o hbefore] at hnone
        cases hnone
  · split <;> simp [setFile, setBefore, heq]

theorem restored_recorded (h : s.Recorded) (f : TakeoverFile) : (s.restored f).Recorded := by
  intro g o hbefore
  rw [restored_before h] at hbefore
  split at hbefore
  · cases hbefore
  · rw [restored_slot]
    exact h g o hbefore

theorem executeAll_restored (s : TakeoverWorld) :
    s.executeAll (s.disk.restoreRecorded .config ++ s.disk.restoreRecorded .auth) =
      (s.restored .config).restored .auth := by
  have hauth : s.disk.restoreRecorded .auth = (s.restored .config).disk.restoreRecorded .auth := by
    simp only [TakeoverDisk.restoreRecorded, restored_slot]
  rw [executeAll_append, executeAll_restoreRecorded, hauth]
  exact executeAll_restoreRecorded (s.restored .config) .auth

def discards : List FileOp :=
  .removeManifest :: (SnapshotSlot.discard .config ++ SnapshotSlot.discard .auth)

theorem discards_fine (h : ∀ f, s.before f = none) : s.AllFine discards :=
  ⟨trivial, h _, h _, h _, h _, trivial⟩

theorem executeAll_discards_file (s : TakeoverWorld) : (s.executeAll discards).disk.file = s.disk.file := rfl

theorem finish_eq (n : Nat) (done : TakeoverOutcome) (all : Option (List FileOp)) :
    finish n done all = .failed ∨ finish n done all = .stopped ∨ finish n done all = done := by
  cases all with
  | none => exact .inl rfl
  | some all =>
    simp only [finish]
    split
    · exact .inr (.inr rfl)
    · exact .inr (.inl rfl)

end TakeoverWorld

section Formats

variable [ConfigFormats]

namespace TakeoverWorld

variable {s : TakeoverWorld} {f : TakeoverFile} {operations : List FileOp}

/-- No call writes a file that the user has edited since its slot was written. -/
def SlotsFresh (s : TakeoverWorld) (e : TakeoverEvent) : Prop := ∀ op ∈ s.reached e, s.SlotFresh op

instance (s : TakeoverWorld) (e : TakeoverEvent) : Decidable (s.SlotsFresh e) :=
  inferInstanceAs (Decidable (∀ op ∈ s.reached e, s.SlotFresh op))

theorem Recorded.applyTakeover (h : s.Recorded) {request : TakeoverRequest} {now : Text} {n : Nat}
    (hfresh : s.SlotsFresh (.applyTakeover request now n)) :
    (s.executeAll (s.reached (.applyTakeover request now n))).Recorded := by
  simp only [SlotsFresh, reached] at hfresh ⊢
  cases hall : s.disk.applyTakeover request now with
  | none => simpa [TakeoverWorld.executeAll] using h
  | some all =>
    simp only [hall, Option.getD_some] at hfresh ⊢
    simp only [TakeoverDisk.applyTakeover, Option.bind_eq_bind, Option.bind_eq_some_iff, Option.pure_def,
      Option.some.injEq] at hall
    obtain ⟨configOutput, -, authOutput, -, rfl⟩ := hall
    generalize hrecords : (s.disk.slot .config).recordOnce .config (s.disk.file .config) ++
      (s.disk.slot .auth).recordOnce .auth (s.disk.file .auth) = records at hfresh ⊢
    obtain ⟨hfine, hfile, hbefore, horiginal⟩ := records_fine s hrecords
    rw [List.take_append] at hfresh ⊢
    refine h.executeAll (allFine_append.mpr ⟨hfine.take n, ?_⟩)
    rcases Nat.lt_or_ge n records.length with hlt | hge
    · rw [Nat.sub_eq_zero_of_le hlt.le, List.take_zero]
      trivial
    · rw [List.take_of_length_le hge]
      refine writes_fine fun f bytes hmem hnone => ?_
      rw [horiginal, hfile]
      rw [hbefore] at hnone
      rcases hfresh _ (List.mem_append_right _ hmem) hnone with hslot | hslot
      · rw [hslot]
        rfl
      · rw [hslot]
        rfl

theorem Recorded.restore (h : s.Recorded) (n : Nat) : (s.executeAll (s.reached (.restore n))).Recorded := by
  simp only [reached]
  cases hall : s.disk.restore with
  | none => simpa [TakeoverWorld.executeAll] using h
  | some all =>
    simp only [TakeoverDisk.restore] at hall
    split at hall
    · cases hall
    · cases hall
      rw [Option.getD_some]
      refine h.executeAll (AllFine.take (allFine_append.mpr ⟨allFine_append.mpr ⟨restoreRecorded_fine .., restoreRecorded_fine ..⟩, ?_⟩) n)
      rw [executeAll_restored]
      refine discards_fine fun f => ?_
      rw [restored_before (restored_recorded h .config), restored_before h]
      cases f <;> simp

theorem Recorded.step (h : s.Recorded) {e : TakeoverEvent} (hfresh : s.SlotsFresh e) : (s.step e).1.Recorded := by
  cases e with
  | applyTakeover request now n => exact h.applyTakeover hfresh
  | restore n => exact h.restore n
  | checkTakeover => exact h
  | edit f content =>
    simp only [TakeoverWorld.step]
    split
    · exact h
    · exact h

theorem event_of_restored {e : TakeoverEvent} (h : (s.step e).2 = .restored) :
    ∃ n, e = .restore n ∧ finish n .restored s.disk.restore = .restored := by
  cases e with
  | restore n => exact ⟨n, rfl, h⟩
  | applyTakeover request now n =>
    rcases finish_eq n .applied (s.disk.applyTakeover request now) with heq | heq | heq <;>
    · rw [TakeoverWorld.step, heq] at h
      cases h
  | checkTakeover => cases h
  | edit f content =>
    simp only [TakeoverWorld.step] at h
    split at h <;> cases h

theorem checkTakeover_of_health {e : TakeoverEvent} {health : TakeoverHealth} (h : (s.step e).2 = .health health) :
    s.disk.checkTakeover = health := by
  cases e with
  | checkTakeover => exact TakeoverOutcome.health.inj h
  | applyTakeover request now n =>
    rcases finish_eq n .applied (s.disk.applyTakeover request now) with heq | heq | heq <;>
    · rw [TakeoverWorld.step, heq] at h
      cases h
  | restore n =>
    rcases finish_eq n .restored s.disk.restore with heq | heq | heq <;>
    · rw [TakeoverWorld.step, heq] at h
      cases h
  | edit f content =>
    simp only [TakeoverWorld.step] at h
    split at h <;> cases h

theorem restored_of_finish (h : s.Recorded) {n : Nat} (hfresh : s.SlotsFresh (.restore n))
    (hdone : finish n .restored s.disk.restore = .restored) (f : TakeoverFile) :
    (s.executeAll (s.reached (.restore n))).disk.file f = (s.before f).getD (s.disk.file f) := by
  simp only [SlotsFresh, reached] at hfresh ⊢
  cases hall : s.disk.restore with
  | none => simp [hall, finish] at hdone
  | some all =>
    simp only [hall, finish] at hdone
    split at hdone
    · rename_i hn
      rw [hall, Option.getD_some, List.take_of_length_le hn] at hfresh
      rw [Option.getD_some, List.take_of_length_le hn]
      simp only [TakeoverDisk.restore] at hall
      split at hall
      · cases hall
      · cases hall
        have hfile : (s.executeAll (s.disk.restoreRecorded .config ++ s.disk.restoreRecorded .auth ++
            .removeManifest :: (SnapshotSlot.discard .config ++ SnapshotSlot.discard .auth))).disk.file f =
            ((s.disk.slot f).original).getD (s.disk.file f) := by
          rw [executeAll_append, executeAll_restored]
          refine (congrFun (executeAll_discards_file _) f).trans ?_
          simp only [restored_file, restored_slot]
          cases f <;> rfl
        rw [hfile]
        cases hbefore : s.before f with
        | some o =>
          rw [h f o hbefore]
        | none =>
          cases horiginal : (s.disk.slot f).original with
          | none => rfl
          | some o =>
            refine restoreRecorded_slotFresh horiginal (fun op hop => hfresh op ?_) hbefore
            cases f <;> simp [hop]
    · cases hdone

end TakeoverWorld

/-- A restore that succeeds brings both files back, and what is reported as not applied holds no write of Lumio. -/
def RestoresKept (log : List (Machine.Entry TakeoverWorld TakeoverEvent TakeoverOutcome)) : Prop :=
  ∀ e ∈ log, (e.answer = .restored → ∀ f,
      (takeoverMachine.step e.before e.call).1.disk.file f = (e.before.before f).getD (e.before.disk.file f)) ∧
    (e.answer = .health .notApplied → ∀ f, e.before.before f = none)

instance (log : List (Machine.Entry TakeoverWorld TakeoverEvent TakeoverOutcome)) : Decidable (RestoresKept log) :=
  inferInstanceAs (Decidable (∀ e ∈ log, (e.answer = .restored → ∀ f,
      (takeoverMachine.step e.before e.call).1.disk.file f = (e.before.before f).getD (e.before.disk.file f)) ∧
    (e.answer = .health .notApplied → ∀ f, e.before.before f = none)))

theorem notApplied_unrecorded {d : TakeoverDisk} (h : d.checkTakeover = .notApplied) (f : TakeoverFile) :
    (d.slot f).original = none := by
  simp only [TakeoverDisk.checkTakeover] at h
  split at h
  · split at h
    · cases h
    · rename_i hnone
      rw [SnapshotSlot.original_eq_none_iff]
      cases f <;> simp_all
  · split at h
    · cases h
    · split at h <;> cases h

/-- As long as no call writes a file that the user has edited since its slot was written, restores bring back what the
files held. -/
theorem restores_kept (files : TakeoverFile → Option Bytes) (events : List TakeoverEvent)
    (hfresh : takeoverMachine.Meets TakeoverWorld.SlotsFresh (.initial files) events) :
    RestoresKept (takeoverMachine.log (.initial files) events) := by
  refine (Machine.invariant (M := takeoverMachine) (I := fun s log => s.Recorded ∧ RestoresKept log) ?_ hfresh ⟨?_, ?_⟩).2
  · intro s past e he hs
    refine ⟨hs.1.step he, fun x hx => ?_⟩
    rcases List.mem_append.mp hx with hx | hx
    · exact hs.2 x hx
    · rw [List.mem_singleton.mp hx]
      refine ⟨fun hanswer => ?_, fun hanswer f => ?_⟩
      · obtain ⟨n, rfl, hdone⟩ := TakeoverWorld.event_of_restored hanswer
        exact TakeoverWorld.restored_of_finish hs.1 he hdone
      · have hhealth := TakeoverWorld.checkTakeover_of_health hanswer
        cases hbefore : s.before f with
        | none => exact hbefore
        | some o =>
          have hsome := hs.1 f o hbefore
          rw [notApplied_unrecorded hhealth f] at hsome
          cases hsome
  · intro f o hbefore
    cases hbefore
  · exact fun e he => absurd he List.not_mem_nil

end Formats

/-! ## A slot that outlives a crash -/

def asciiBytes (text : Text) : Bytes := text.map fun c => UInt8.ofNat c.toNat

/-- Configurations that keep their text and get a line for each value. -/
scoped instance plainFormats : ConfigFormats where
  Doc := Text
  parseToml := some
  setValue path value doc := some (doc ++ Text.join ['.'] path ++ " = ".toList ++ value ++ ['\n'])
  docBytes := asciiBytes
  fromSlice _ := none
  prettyBytes value := asciiBytes
    ("\x7b\n  \"OPENAI_API_KEY\": \"".toList ++ (value.str "OPENAI_API_KEY").getD [] ++ "\"\n\x7d".toList)
  sha256 bytes := bytes.map fun b => Char.ofNat b.toNat
  encodeManifest manifest := asciiBytes manifest.model
  decodeManifest bytes := some ⟨[], [], [], bytes.map fun b => Char.ofNat b.toNat⟩

def sampleTakeover : TakeoverRequest := ⟨"m".toList, "k".toList, "u".toList⟩

def sampleFiles : TakeoverFile → Option Bytes
  | .config => some (asciiBytes "# mine\n".toList)
  | .auth => none

/-- A takeover stops after so many operations; the user edits the configuration; a takeover and a restore run through. -/
def interruptedTakeover (operations : Nat) (edit : List TakeoverEvent) : List TakeoverEvent :=
  .applyTakeover sampleTakeover [] operations :: edit ++
    ([.applyTakeover sampleTakeover [] 9, .restore 9, .checkTakeover] : List TakeoverEvent)

theorem restores_kept_unedited :
    RestoresKept (takeoverMachine.log (.initial sampleFiles) (interruptedTakeover 3 [])) :=
  restores_kept _ _ (by decide +kernel)

/-- After one operation the slot of the configuration is written and the configuration is not. -/
theorem restore_loses_edit : ¬ RestoresKept (takeoverMachine.log (.initial sampleFiles)
    (interruptedTakeover 1 [.edit .config (some (asciiBytes "# mine too\n".toList))])) := by
  decide +kernel

example : (takeoverMachine.log (.initial sampleFiles) (interruptedTakeover 3 [])).map (·.answer) =
    [.stopped, .applied, .restored, .health .notApplied] := by
  decide +kernel

end Lumio.Desktop
