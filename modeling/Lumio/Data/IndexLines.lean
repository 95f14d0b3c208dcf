import Lumio.Data.IndexCleanup
import Lumio.Data.Records

/-!
# Which lines a cleanup takes out of the index

A cleanup compares the id of a line without the white space around it with the ids of the conversations as they are, and of
locked rollout files it knows the names only.
-/

namespace Lumio.Data

open Proxy (Value SerdeJson)

section Sources

variable {α : Type} {find : α → Except Stop (List Text)} {xs : List α} {ids : List Text} {id : Text}

theorem collectAll_ok (h : collectAll find xs = .ok ids) : ∀ x ∈ xs, ∃ found, find x = .ok found := by
  induction xs generalizing ids with
  | nil => exact fun x hx => absurd hx List.not_mem_nil
  | cons x xs ih =>
    simp only [collectAll] at h
    cases hfind : find x with
    | error stop =>
      rw [hfind] at h
      cases h
    | ok found =>
      rw [hfind] at h
      cases hmore : collectAll find xs with
      | error stop =>
        rw [hmore] at h
        cases h
      | ok more =>
        intro y hy
        rcases List.mem_cons.mp hy with rfl | hy
        · exact ⟨found, hfind⟩
        · exact ih hmore y hy

theorem mem_collectAll (h : collectAll find xs = .ok ids) : id ∈ ids ↔ ∃ x ∈ xs, ∃ found, find x = .ok found ∧ id ∈ found := by
  induction xs generalizing ids with
  | nil =>
    cases h
    simp
  | cons x xs ih =>
    simp only [collectAll] at h
    cases hfind : find x with
    | error stop =>
      rw [hfind] at h
      cases h
    | ok found =>
      rw [hfind] at h
      cases hmore : collectAll find xs with
      | error stop =>
        rw [hmore] at h
        cases h
      | ok more =>
        rw [hmore] at h
        cases h
        simp [hfind, ih hmore]

theorem mem_columnIds {cells : List Cell} (h : columnIds cells = some ids) (hid : id ≠ []) : id ∈ ids ↔ Cell.text id ∈ cells := by
  induction cells generalizing ids with
  | nil =>
    cases h
    simp
  | cons cell cells ih =>
    cases cell with
    | null => simpa using ih h
    | other => cases h
    | text text =>
      obtain ⟨more, hmore, hids⟩ := Option.map_eq_some_iff.mp h
      have hmem := ih hmore
      by_cases htext : text.isEmpty
      · rw [if_pos htext] at hids
        rw [List.isEmpty_iff] at htext
        simp [← hids, hmem, htext, hid]
      · rw [if_neg htext] at hids
        simp [← hids, hmem]

def ReferenceDatabase.Refers (db : ReferenceDatabase) (id : Text) : Prop :=
  ∃ column ∈ threadColumns, ∃ cells, db.column column.1 column.2 = some cells ∧ Cell.text id ∈ cells

theorem mem_sqliteThreadIds {db : ReferenceDatabase} (h : sqliteThreadIds db = .ok ids) (hid : id ≠ []) :
    id ∈ ids ↔ db.Refers id := by
  unfold sqliteThreadIds at h
  split at h
  · cases h
  · rw [mem_collectAll h]
    refine exists_congr fun column => and_congr_right fun hcolumn => ?_
    obtain ⟨found, hfound⟩ := collectAll_ok h column hcolumn
    simp only [hfound, Except.ok.injEq, exists_eq_left']
    cases hcells : db.column column.1 column.2 with
    | none =>
      rw [hcells] at hfound
      cases hfound
      simp
    | some cells =>
      rw [hcells] at hfound
      simp only [Option.map_some] at hfound
      cases hids : columnIds cells with
      | none =>
        rw [hids] at hfound
        cases hfound
      | some ids =>
        rw [hids] at hfound
        cases hfound
        simp [mem_columnIds hids hid]

end Sources

section Living

variable [SerdeJson] {home : CodexHome} {live : List Text} {id : Text} {file : SessionFile}

/-- A rollout file is that of a conversation by its name or by a session record in it. -/
def SessionFile.Of (file : SessionFile) (id : Text) : Prop :=
  rolloutThreadIdFromFilename file.name = some (some id) ∨ id ∈ sessionMetaIds file.text

def Living (home : CodexHome) (id : Text) : Prop :=
  (∃ files, home.sessionFiles = some files ∧ ∃ file ∈ files, isRolloutFile file = true ∧ file.Of id) ∨
    ∃ db ∈ home.databases, db.Refers id

def LockedOnly (home : CodexHome) (live : List Text) (id : Text) : Prop :=
  id ∉ live ∧ ∃ files, home.sessionFiles = some files ∧
    ∃ file ∈ files, isRolloutFile file = true ∧ file.fault = some .locked ∧ id ∈ sessionMetaIds file.text

theorem mem_rolloutIds {ids : List Text} (h : rolloutIds file = .ok ids) :
    (id ∈ ids → file.Of id) ∧ (file.Of id → id ∈ ids ∨ (file.fault = some .locked ∧ id ∈ sessionMetaIds file.text)) := by
  unfold rolloutIds at h
  unfold SessionFile.Of
  cases hname : rolloutThreadIdFromFilename file.name with
  | none =>
    rw [hname] at h
    cases h
  | some named =>
    rw [hname] at h
    cases hfault : file.fault with
    | none =>
      rw [hfault] at h
      cases h
      simp
    | some fault =>
      rw [hfault] at h
      cases fault with
      | failed => cases h
      | locked =>
        cases h
        simp
        exact fun h => .inl h

theorem living_iff (h : collectLiveThreadIds home = .ok live) (hid : id ≠ []) : Living home id ↔ id ∈ live ∨ LockedOnly home live id := by
  unfold collectLiveThreadIds at h
  cases hfiles : home.sessionFiles with
  | none =>
    rw [hfiles] at h
    cases h
  | some files =>
    rw [hfiles] at h
    cases hrollouts : collectAll rolloutIds (files.filter isRolloutFile) with
    | error stop =>
      simp only [hrollouts] at h
      cases h
    | ok ids =>
      simp only [hrollouts] at h
      cases hrows : collectAll sqliteThreadIds home.databases with
      | error stop =>
        rw [hrows] at h
        cases h
      | ok more =>
        rw [hrows] at h
        cases h
        have hmore : id ∈ more ↔ ∃ db ∈ home.databases, db.Refers id := by
          rw [mem_collectAll hrows]
          refine exists_congr fun db => and_congr_right fun hdb => ?_
          obtain ⟨found, hfound⟩ := collectAll_ok hrows db hdb
          simp only [hfound, Except.ok.injEq, exists_eq_left']
          exact mem_sqliteThreadIds hfound hid
        have hids := @mem_collectAll _ _ _ _ id hrollouts
        unfold Living LockedOnly
        rw [List.mem_append, hmore, hfiles]
        simp only [Option.some.injEq, exists_eq_left']
        constructor
        · rintro (⟨file, hfile, hname, hof⟩ | hdb)
          · have hmem : file ∈ files.filter isRolloutFile := List.mem_filter.mpr ⟨hfile, hname⟩
            obtain ⟨found, hfound⟩ := collectAll_ok hrollouts file hmem
            by_cases hlive : id ∈ ids ∨ ∃ db ∈ home.databases, db.Refers id
            · exact .inl hlive
            · rcases (mem_rolloutIds hfound).2 hof with hin | ⟨hlocked, hin⟩
              · exact .inl (.inl (hids.mpr ⟨file, hmem, found, hfound, hin⟩))
              · exact .inr ⟨hlive, file, hfile, hname, hlocked, hin⟩
          · exact .inl (.inr hdb)
        · rintro ((hin | hdb) | ⟨-, file, hfile, hname, -, hin⟩)
          · obtain ⟨file, hmem, found, hfound, hin⟩ := hids.mp hin
            obtain ⟨hfile, hname⟩ := List.mem_filter.mp hmem
            exact .inl ⟨file, hfile, hname, (mem_rolloutIds hfound).1 hin⟩
          · exact .inr hdb
          · exact .inl ⟨file, hfile, hname, .inr hin⟩

end Living

/-! ## Lines and what is left -/

section Index

variable [SerdeJson] {segment text : Text} {candidate : SessionIndexCleanupCandidate} {confirmed : List Text}

def segmentId (segment : Text) : Option Text := (SerdeJson.fromStr (splitLineEnding segment).1).bind (Value.str "id")

theorem segmentCandidate_id (h : segmentCandidate segment = some candidate) :
    ∃ id, segmentId segment = some id ∧ candidate.id = Text.trim id ∧ Text.trim id ≠ [] := by
  unfold segmentCandidate knownSessionIndexCandidate at h
  unfold segmentId
  split at h
  · rename_i members hline
    split at h
    · obtain ⟨id, hid, h⟩ := Option.bind_eq_some_iff.mp h
      obtain ⟨threadName, -, h⟩ := Option.bind_eq_some_iff.mp h
      obtain ⟨updatedAt, -, h⟩ := Option.bind_eq_some_iff.mp h
      split at h
      · cases h
      · rename_i hblank
        cases h
        refine ⟨id, ?_, rfl, ?_⟩
        · rw [hline]
          exact hid
        · intro hnil
          rw [hnil] at hblank
          exact hblank rfl
    · cases h
  · cases h

/-- A line of the known shape whose id is confirmed; white space around ids does not count. -/
def IsConfirmed (confirmed : List Text) (segment : Text) : Prop :=
  ∃ candidate, segmentCandidate segment = some candidate ∧ candidate.id ∈ confirmed.map Text.trim

theorem isSelected_iff : isSelected (selectedIds confirmed) segment = true ↔ IsConfirmed confirmed segment := by
  unfold isSelected IsConfirmed
  cases hcandidate : segmentCandidate segment with
  | none => simp
  | some candidate =>
    obtain ⟨id, -, hid, hne⟩ := segmentCandidate_id hcandidate
    simp [selectedIds, hid, hne]

instance (confirmed : List Text) (segment : Text) : Decidable (IsConfirmed confirmed segment) :=
  decidable_of_iff _ isSelected_iff

def confirmedLines (confirmed : List Text) (text : Text) : List Text :=
  (Text.splitInclusive text).filter fun segment => decide (IsConfirmed confirmed segment)

def remaining (confirmed : List Text) (text : Text) : Text :=
  ((Text.splitInclusive text).filter fun segment => !decide (IsConfirmed confirmed segment)).flatten

theorem foldl_unselected (confirmed segments : List Text) (nextText : Text) (removedEntries : Nat) :
    segments.foldl (fun (nextText, removedEntries) segment =>
      if isSelected (selectedIds confirmed) segment then (nextText, removedEntries + 1)
      else (nextText ++ (splitLineEnding segment).1 ++ (splitLineEnding segment).2, removedEntries)) (nextText, removedEntries) =
    (nextText ++ (segments.filter fun segment => !decide (IsConfirmed confirmed segment)).flatten,
      removedEntries + (segments.filter fun segment => decide (IsConfirmed confirmed segment)).length) := by
  induction segments generalizing nextText removedEntries with
  | nil => simp
  | cons segment segments ih =>
    have hselected := @isSelected_iff _ segment confirmed
    rw [List.foldl_cons]
    by_cases hconfirmed : IsConfirmed confirmed segment
    · dsimp only
      rw [if_pos (hselected.mpr hconfirmed), ih]
      simp [hconfirmed]
      omega
    · dsimp only
      rw [if_neg (mt hselected.mp hconfirmed), ih]
      simp [hconfirmed, splitLineEnding_append]

theorem filteredSessionIndexText_eq (plan : SessionIndexPlan) (confirmed : List Text) :
    filteredSessionIndexText plan (selectedIds confirmed) =
      (remaining confirmed plan.originalText, (confirmedLines confirmed plan.originalText).length) := by
  exact (foldl_unselected confirmed _ [] 0).trans (by simp [remaining, confirmedLines])

theorem remaining_nothing (h : confirmedLines confirmed text = []) : remaining confirmed text = text := by
  have hall : (Text.splitInclusive text).filter (fun segment => !decide (IsConfirmed confirmed segment)) = Text.splitInclusive text := by
    rw [List.filter_eq_self]
    intro segment hsegment
    have hnone := List.filter_eq_nil_iff.mp h segment hsegment
    simpa using hnone
  rw [remaining, hall, Text.flatten_splitInclusive]

end Index

/-! ## Whole cleanups -/

section Cleanups

variable [SerdeJson] {sha256Hex : List UInt8 → Text} {around : Surroundings} {expected text : Text} {confirmed live : List Text}
  {bytes : List UInt8} {plan : SessionIndexPlan}

structure Writable (around : Surroundings) (bytes : List UInt8) : Prop where
  backup : around.backupFault = none
  unchanged : around.meanwhile = some bytes
  stopped : (around.ownHome && around.started) = false
  write : around.writeFails = false

/-- What a cleanup asks for before it takes out a line: the index of the preview, and confirmed lines of which it has not found
the conversations. -/
structure Accepted (sha256Hex : List UInt8 → Text) (around : Surroundings) (expected : Text) (confirmed live : List Text)
    (bytes : List UInt8) (text : Text) : Prop where
  stopped : (around.ownHome && around.running) = false
  lock : around.lockHeld = false
  collected : collectLiveThreadIds around.home = .ok live
  index : around.index = .bytes bytes
  decoded : Utf8.decode bytes = (text, [])
  preview : sha256Hex bytes = expected
  candidates : ∀ id ∈ selectedIds confirmed,
    id ∉ live ∧ ∃ segment ∈ Text.splitInclusive text, ∃ candidate, segmentCandidate segment = some candidate ∧ candidate.id = id
  writable : confirmedLines confirmed text ≠ [] → Writable around bytes

/-- What is meant: the confirmed lines are taken out and nothing else, none of them is that of a living conversation, and a
cleanup that fails or finds another index than that of the preview writes nothing. -/
structure RemovesDead (sha256Hex : List UInt8 → Text) (around : Surroundings) (expected : Text) (confirmed : List Text) : Prop where
  exact : ∀ n backup, (applySessionIndexCleanup sha256Hex around expected confirmed).outcome = .ok n backup →
    ∃ bytes text, around.index = .bytes bytes ∧ Utf8.decode bytes = (text, []) ∧
      Utf8.decode ((applySessionIndexCleanup sha256Hex around expected confirmed).written.getD bytes) = (remaining confirmed text, []) ∧
      n = (confirmedLines confirmed text).length ∧
      ∀ segment ∈ confirmedLines confirmed text, ∀ id, segmentId segment = some id → ¬Living around.home id
  error : ∀ error backup, (applySessionIndexCleanup sha256Hex around expected confirmed).outcome = .error error backup →
    (applySessionIndexCleanup sha256Hex around expected confirmed).written = none
  changed : ∀ bytes, around.index = .bytes bytes → sha256Hex bytes ≠ expected →
    (applySessionIndexCleanup sha256Hex around expected confirmed).written = none
  current : ∀ bytes, around.index = .bytes bytes → around.meanwhile ≠ some bytes →
    (applySessionIndexCleanup sha256Hex around expected confirmed).written = none

def IsRefusal (cleanup : Cleanup) : Prop := cleanup.written = none ∧ ∀ n backup, cleanup.outcome ≠ .ok n backup

def pruned (confirmed : List Text) (text : Text) : Cleanup :=
  if confirmedLines confirmed text = [] then ⟨.ok 0 false, none⟩
  else ⟨.ok (confirmedLines confirmed text).length true, some (Utf8.encode (remaining confirmed text))⟩

omit [SerdeJson] in
theorem isRefusal_refuse (error : CleanupError) (backup : Bool) : IsRefusal (refuse error backup) := ⟨rfl, nofun⟩

theorem replaceIndex_cases (around : Surroundings) (plan : SessionIndexPlan) (confirmed : List Text) :
    ((confirmedLines confirmed plan.originalText ≠ [] → Writable around plan.originalBytes) ∧
        replaceIndex around plan (selectedIds confirmed) = pruned confirmed plan.originalText) ∨
      (¬(confirmedLines confirmed plan.originalText ≠ [] → Writable around plan.originalBytes) ∧
        IsRefusal (replaceIndex around plan (selectedIds confirmed))) := by
  unfold replaceIndex pruned
  rw [filteredSessionIndexText_eq]
  by_cases hnothing : confirmedLines confirmed plan.originalText = []
  · simp [hnothing]
  · have hlength : (confirmedLines confirmed plan.originalText).length ≠ 0 := by simpa using hnothing
    rw [if_neg hnothing, forall_prop_of_true hnothing]
    simp only [if_neg hlength]
    split
    · rename_i made hbackup
      refine .inr ⟨fun h => ?_, isRefusal_refuse _ _⟩
      have := h.backup
      rw [hbackup] at this
      cases this
    · rename_i hbackup
      split
      · rename_i hmeanwhile
        refine .inr ⟨fun h => ?_, isRefusal_refuse _ _⟩
        have := h.unchanged
        rw [hmeanwhile] at this
        cases this
      · rename_i currentBytes hmeanwhile
        split_ifs with hchanged hstarted hwrite
        · refine .inr ⟨fun h => hchanged ?_, isRefusal_refuse _ _⟩
          exact Option.some.inj (hmeanwhile.symm.trans h.unchanged)
        · refine .inr ⟨fun h => ?_, isRefusal_refuse _ _⟩
          rw [h.stopped] at hstarted
          cases hstarted
        · refine .inr ⟨fun h => ?_, isRefusal_refuse _ _⟩
          rw [h.write] at hwrite
          cases hwrite
        · refine .inl ⟨⟨hbackup, ?_, Bool.eq_false_iff.mpr hstarted, Bool.eq_false_iff.mpr hwrite⟩, rfl⟩
          rw [hmeanwhile, not_not.mp hchanged]

theorem planSessionIndexCleanup_ok {index : IndexRead} (h : planSessionIndexCleanup live index = .ok plan) :
    index = .bytes plan.originalBytes ∧ Utf8.decode plan.originalBytes = (plan.originalText, []) ∧
      ∀ id, id ∈ plan.candidates.map SessionIndexCleanupCandidate.id ↔
        id ∉ live ∧ ∃ segment ∈ Text.splitInclusive plan.originalText, ∃ candidate,
          segmentCandidate segment = some candidate ∧ candidate.id = id := by
  unfold planSessionIndexCleanup at h
  split at h
  · cases h
  · cases h
  · split at h
    · rename_i originalText hdecode
      cases h
      refine ⟨rfl, hdecode, fun id => ?_⟩
      simp only [List.mem_map, List.mem_filter, List.mem_filterMap, decide_eq_true_eq]
      constructor
      · rintro ⟨candidate, ⟨⟨segment, hsegment, hcandidate⟩, hlive⟩, rfl⟩
        exact ⟨hlive, segment, hsegment, candidate, hcandidate, rfl⟩
      · rintro ⟨hlive, segment, hsegment, candidate, hcandidate, rfl⟩
        exact ⟨candidate, ⟨⟨segment, hsegment, hcandidate⟩, hlive⟩, rfl⟩
    · cases h

theorem planSessionIndexCleanup_decoded (h : Utf8.decode bytes = (text, [])) :
    ∃ plan, planSessionIndexCleanup live (.bytes bytes) = .ok plan := by
  unfold planSessionIndexCleanup
  simp only [h]
  exact ⟨_, rfl⟩

theorem apply_cases (sha256Hex : List UInt8 → Text) (around : Surroundings) (expected : Text) (confirmed : List Text) :
    (∃ live bytes text, Accepted sha256Hex around expected confirmed live bytes text ∧
        applySessionIndexCleanup sha256Hex around expected confirmed = pruned confirmed text) ∨
      ((∀ live bytes text, ¬Accepted sha256Hex around expected confirmed live bytes text) ∧
        IsRefusal (applySessionIndexCleanup sha256Hex around expected confirmed)) := by
  unfold applySessionIndexCleanup
  split
  · rename_i hrunning
    refine .inr ⟨fun live bytes text h => ?_, isRefusal_refuse _ _⟩
    rw [h.stopped] at hrunning
    cases hrunning
  rename_i hrunning
  split
  · rename_i hlock
    refine .inr ⟨fun live bytes text h => ?_, isRefusal_refuse _ _⟩
    rw [h.lock] at hlock
    cases hlock
  rename_i hlock
  split
  · rename_i hcollect
    refine .inr ⟨fun live bytes text h => ?_, rfl, nofun⟩
    exact absurd (hcollect.symm.trans h.collected) nofun
  · rename_i hcollect
    refine .inr ⟨fun live bytes text h => ?_, isRefusal_refuse _ _⟩
    exact absurd (hcollect.symm.trans h.collected) nofun
  rename_i live hcollect
  split
  · rename_i error hplan
    refine .inr ⟨fun other bytes text h => ?_, isRefusal_refuse _ _⟩
    rw [h.index] at hplan
    obtain ⟨plan, hdecoded⟩ := @planSessionIndexCleanup_decoded _ _ live _ h.decoded
    exact absurd (hplan.symm.trans hdecoded) nofun
  rename_i plan hplan
  obtain ⟨hindex, hdecode, hcandidates⟩ := planSessionIndexCleanup_ok hplan
  -- what was read is all an acceptance can be about
  have hsame {other : List Text} {bytes : List UInt8} {text : Text}
      (h : Accepted sha256Hex around expected confirmed other bytes text) :
      other = live ∧ bytes = plan.originalBytes ∧ text = plan.originalText := by
    have hbytes := h.index.symm.trans hindex
    have hlive := h.collected.symm.trans hcollect
    cases hbytes
    cases hlive
    exact ⟨rfl, rfl, congrArg Prod.fst (h.decoded.symm.trans hdecode)⟩
  split_ifs with hpreview hmissing
  · refine .inr ⟨fun other bytes text h => hpreview ?_, isRefusal_refuse _ _⟩
    obtain ⟨rfl, rfl, rfl⟩ := hsame h
    exact h.preview
  · refine .inr ⟨fun other bytes text h => ?_, isRefusal_refuse _ _⟩
    obtain ⟨rfl, rfl, rfl⟩ := hsame h
    obtain ⟨id, hid, hcandidate⟩ := hmissing
    exact hcandidate ((hcandidates id).mpr (h.candidates id hid))
  · rw [not_not] at hpreview
    push Not at hmissing
    rcases replaceIndex_cases around plan confirmed with ⟨hwritable, heq⟩ | ⟨hwritable, hrefusal⟩
    · refine .inl ⟨live, plan.originalBytes, plan.originalText, ?_, heq⟩
      exact
        { stopped := Bool.eq_false_iff.mpr hrunning
          lock := Bool.eq_false_iff.mpr hlock
          collected := hcollect
          index := hindex
          decoded := hdecode
          preview := hpreview
          candidates := fun id hid => (hcandidates id).mp (hmissing id hid)
          writable := hwritable }
    · refine .inr ⟨fun other bytes text h => hwritable ?_, hrefusal⟩
      obtain ⟨rfl, rfl, rfl⟩ := hsame h
      exact h.writable

theorem confirmedLines_spec {segment : Text} (hsegment : segment ∈ confirmedLines confirmed text) {id : Text}
    (hid : segmentId segment = some id) : Text.trim id ∈ selectedIds confirmed ∧ id ≠ [] := by
  obtain ⟨-, hconfirmed⟩ := List.mem_filter.mp hsegment
  obtain ⟨candidate, hcandidate, hin⟩ := of_decide_eq_true hconfirmed
  obtain ⟨raw, hraw, htrim, hne⟩ := segmentCandidate_id hcandidate
  cases hid.symm.trans hraw
  rw [htrim] at hin
  refine ⟨List.mem_filter.mpr ⟨hin, by simpa using hne⟩, ?_⟩
  rintro rfl
  exact hne rfl

theorem Accepted.not_found {segment id : Text} (h : Accepted sha256Hex around expected confirmed live bytes text)
    (hsegment : segment ∈ confirmedLines confirmed text) (hid : segmentId segment = some id) : Text.trim id ∉ live :=
  (h.candidates _ (confirmedLines_spec hsegment hid).1).1

theorem Accepted.apply (h : Accepted sha256Hex around expected confirmed live bytes text) :
    applySessionIndexCleanup sha256Hex around expected confirmed = pruned confirmed text := by
  rcases apply_cases sha256Hex around expected confirmed with ⟨other, bytes', text', hother, heq⟩ | ⟨hnone, -⟩
  · have hbytes := h.index.symm.trans hother.index
    cases hbytes
    have htext := h.decoded.symm.trans hother.decoded
    cases htext
    exact heq
  · exact absurd h (hnone live bytes text)

theorem pruned_outcome (confirmed : List Text) (text : Text) :
    ∃ backup, (pruned confirmed text).outcome = .ok (confirmedLines confirmed text).length backup := by
  unfold pruned
  split
  · rename_i hnothing
    exact ⟨false, by rw [hnothing]; rfl⟩
  · exact ⟨true, rfl⟩

theorem pruned_written (hdecode : Utf8.decode bytes = (text, [])) :
    Utf8.decode ((pruned confirmed text).written.getD bytes) = (remaining confirmed text, []) := by
  unfold pruned
  split
  · rename_i hnothing
    rw [remaining_nothing hnothing]
    exact hdecode
  · exact Utf8.decode_encode _

/-- A cleanup does what is meant exactly if the ids of the confirmed lines are found as they are written or not at all: none of
them has white space around it while a conversation has the same id, and none is known from locked rollout files only. -/
theorem removesDead_iff (sha256Hex : List UInt8 → Text) (around : Surroundings) (expected : Text) (confirmed : List Text) :
    RemovesDead sha256Hex around expected confirmed ↔
      ∀ live bytes text, Accepted sha256Hex around expected confirmed live bytes text →
        ∀ segment ∈ confirmedLines confirmed text, ∀ id, segmentId segment = some id →
          (id ∈ live → Text.trim id = id) ∧ ¬LockedOnly around.home live id := by
  constructor
  · intro h live bytes text haccepted segment hsegment id hid
    obtain ⟨backup, houtcome⟩ := pruned_outcome confirmed text
    rw [← haccepted.apply] at houtcome
    obtain ⟨bytes', text', hindex, hdecode, -, -, hliving⟩ := h.exact _ _ houtcome
    cases haccepted.index.symm.trans hindex
    cases haccepted.decoded.symm.trans hdecode
    have hdead := hliving segment hsegment id hid
    rw [living_iff haccepted.collected (confirmedLines_spec hsegment hid).2, not_or] at hdead
    exact ⟨fun hlive => absurd hlive hdead.1, hdead.2⟩
  · intro h
    rcases apply_cases sha256Hex around expected confirmed with ⟨live, bytes, text, haccepted, heq⟩ | ⟨-, hwritten, hok⟩
    · constructor
      · intro n backup houtcome
        obtain ⟨backup', hpruned⟩ := pruned_outcome confirmed text
        rw [heq, hpruned] at houtcome
        cases houtcome
        refine ⟨bytes, text, haccepted.index, haccepted.decoded, ?_, rfl, fun segment hsegment id hid => ?_⟩
        · rw [heq]
          exact pruned_written haccepted.decoded
        · rw [living_iff haccepted.collected (confirmedLines_spec hsegment hid).2]
          rintro (hlive | hlocked)
          · have htrim := (h live bytes text haccepted segment hsegment id hid).1 hlive
            have hfound := haccepted.not_found hsegment hid
            rw [htrim] at hfound
            exact hfound hlive
          · exact (h live bytes text haccepted segment hsegment id hid).2 hlocked
      · intro error backup houtcome
        obtain ⟨backup', hpruned⟩ := pruned_outcome confirmed text
        rw [heq, hpruned] at houtcome
        cases houtcome
      · intro bytes' hindex hchanged
        cases haccepted.index.symm.trans hindex
        exact absurd haccepted.preview hchanged
      · intro bytes' hindex hchanged
        cases haccepted.index.symm.trans hindex
        by_cases hnothing : confirmedLines confirmed text = []
        · rw [heq, pruned, if_pos hnothing]
        · exact absurd (haccepted.writable hnothing).unchanged hchanged
    · constructor
      · exact fun n backup houtcome => absurd houtcome (hok n backup)
      · exact fun _ _ _ => hwritten
      · exact fun _ _ _ => hwritten
      · exact fun _ _ _ => hwritten

end Cleanups

/-! ## White space around an id -/

section Run

def paddedLine : Text := "\x7b\"id\":\" a \",\"thread_name\":\"Plan\",\"updated_at\":\"2026-07-12\"\x7d".toList

abbrev paddedLineJson : SerdeJson where
  fromStr text :=
    if text = paddedLine then
      some (.object [("id", .string " a ".toList), ("thread_name", .string "Plan".toList), ("updated_at", .string "2026-07-12".toList)])
    else none
  toText _ := []

def paddedIndex : List UInt8 := Utf8.encode (paddedLine ++ ['\n'])

def paddedDigest : Text := "9b64640191c77aa478e9cb04dc81a74d9332a13d7eb2db41fc71cffe40d4ee66".toList

/-- A conversation whose id begins and ends with a space, with a row in `threads` and a line in the index. -/
def paddedThread : Surroundings where
  home :=
    { sessionFiles := some []
      databases := [{ fails := false, column := fun table column =>
        if table = "threads" ∧ column = "id" then some [.text " a ".toList] else none }] }
  ownHome := false
  running := false
  lockHeld := false
  index := .bytes paddedIndex
  backupFault := none
  meanwhile := some paddedIndex
  started := false
  writeFails := false

/-- The line is taken out although the row is there. -/
theorem padded_thread_removed : ¬@RemovesDead paddedLineJson (fun _ => paddedDigest) paddedThread paddedDigest ["a".toList] := by
  have houtcome : (@applySessionIndexCleanup paddedLineJson (fun _ => paddedDigest) paddedThread paddedDigest ["a".toList]).outcome =
      .ok 1 true := by decide +kernel
  have hsegment : paddedLine ++ ['\n'] ∈ @confirmedLines paddedLineJson ["a".toList] (paddedLine ++ ['\n']) := by decide +kernel
  have hid : @segmentId paddedLineJson (paddedLine ++ ['\n']) = some " a ".toList := by decide +kernel
  have hliving : @Living paddedLineJson paddedThread.home " a ".toList :=
    .inr ⟨_, List.mem_cons_self, ("threads", "id"), List.mem_cons_self, [.text " a ".toList], rfl, List.mem_cons_self⟩
  intro h
  obtain ⟨bytes, text, hindex, hdecode, -, -, hdead⟩ := @RemovesDead.exact paddedLineJson _ _ _ _ h 1 true houtcome
  cases hindex
  cases (Utf8.decode_encode (paddedLine ++ ['\n'])).symm.trans hdecode
  exact hdead _ hsegment _ hid hliving

end Run

end Lumio.Data
