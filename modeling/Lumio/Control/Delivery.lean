import Lumio.Control.Mail

/-!
# Delivery of the outbox

As long as only lost messages are taken back, a message that is being sent has at most one worker, so the result of a
worker is the last word on its message.
-/

namespace Lumio.Control

open OutboxMail

variable {s : Outbox} {log : List MailEntry} {id w : Nat} {m : OutboxMail} {d : Drain}

/-! ## Workers and what they hold -/

structure Holding (s : Outbox) : Prop where
  keyed : ∀ {id m}, s.rows.lookup id = some m → m.id = id
  fresh : ∀ id, s.nextId ≤ id → s.rows.lookup id = none
  drains : ∀ w, s.nextDrain ≤ w → s.drains.lookup w = none
  held : ∀ {w d id}, s.drains.lookup w = some d → id ∈ d.queue.map (·.id) →
    ∃ m, s.rows.lookup id = some m ∧ m.status = .sending
  nodup : ∀ {w d}, s.drains.lookup w = some d → (d.queue.map (·.id)).Nodup
  apart : ∀ {w w' d d' id}, s.drains.lookup w = some d → s.drains.lookup w' = some d' → id ∈ d.queue.map (·.id) →
    id ∈ d'.queue.map (·.id) → w = w'
  limit : ∀ {id m}, s.rows.lookup id = some m → m.attempts ≤ 5 ∧ (m.status = .pending → m.attempts ≤ 4)

structure Counting (s : Outbox) (log : List MailEntry) : Prop where
  counted : ∀ {id m}, s.rows.lookup id = some m → timesHanded log id ≤ m.attempts
  waiting : ∀ {w d id m}, s.drains.lookup w = some d → id ∈ d.unhanded.map (·.id) → s.rows.lookup id = some m →
    timesHanded log id + 1 ≤ m.attempts
  unknown : ∀ {id}, s.rows.lookup id = none → timesHanded log id = 0
  final : ∀ e ∈ log, ∀ id, e.answer = .sent id → ∃ m, s.rows.lookup id = some m ∧ m.status = .sent
  last : log.Pairwise fun e later => ∀ id, e.answer = .sent id → later.answer ≠ .handed id

theorem mem_queue_of_unhanded (h : id ∈ d.unhanded.map (·.id)) : id ∈ d.queue.map (·.id) := by
  obtain ⟨x, hx, hxid⟩ := List.mem_map.mp h
  refine List.mem_map.mpr ⟨x, ?_, hxid⟩
  unfold Drain.unhanded at hx
  split at hx
  · exact List.mem_of_mem_tail hx
  · exact hx

variable {locked : List Nat} {now before : Int}

theorem mem_claimPending (h : m ∈ s.claimPending now locked) :
    ∃ id, s.rows.lookup id = some m ∧ m.claimable now = true := by
  obtain ⟨hmem, hclaimable⟩ := List.mem_filter.mp (List.mem_of_mem_take h)
  rw [Bool.and_eq_true] at hclaimable
  obtain ⟨id, hid⟩ := Table.mem_orderBy_iff.mp hmem
  exact ⟨id, hid, hclaimable.1⟩

theorem claimable_pending (h : m.claimable now = true) : m.status = .pending := by
  rw [claimable, Bool.and_eq_true, decide_eq_true_eq] at h
  exact h.1

theorem nodup_claimPending (h : Holding s) (now : Int) (locked : List Nat) :
    ((s.claimPending now locked).map (·.id)).Nodup := by
  have hall : ((s.rows.orderBy fun a b => a.createdAt ≤ b.createdAt).map (·.id)).Nodup := by
    have hperm : (s.rows.orderBy fun a b => a.createdAt ≤ b.createdAt).Perm s.rows.values := List.perm_insertionSort _ _
    rw [(hperm.map (·.id)).nodup_iff, Table.map_values_of_keyed h.keyed]
    exact s.rows.nodupKeys
  exact hall.sublist (((List.take_sublist _ _).trans List.filter_sublist).map _)

theorem lookup_claim {m' : OutboxMail} : (s.claim now locked).rows.lookup id = some m' ↔
    ∃ m, s.rows.lookup id = some m ∧
      m' = if id ∈ (s.claimPending now locked).map (·.id) then m.claimed now else m :=
  Table.lookup_mapRows

theorem lookup_requeue {m' : OutboxMail} : (s.requeue before).rows.lookup id = some m' ↔
    ∃ m, s.rows.lookup id = some m ∧ m' = if m.stale before then m.requeued else m :=
  Table.lookup_mapRows

theorem pending_of_claimed (h : Holding s) (hm : s.rows.lookup id = some m)
    (hid : id ∈ (s.claimPending now locked).map (·.id)) : m.status = .pending := by
  obtain ⟨m', hm', rfl⟩ := List.mem_map.mp hid
  obtain ⟨id', hlookup, hclaimable⟩ := mem_claimPending hm'
  have hid' := h.keyed hlookup
  subst hid'
  rw [hm] at hlookup
  cases hlookup
  exact claimable_pending hclaimable

theorem stale_sending (h : m.stale before = true) : m.status = .sending := by
  rw [stale, Bool.and_eq_true, decide_eq_true_eq] at h
  exact h.1

/-! ## Claims -/

theorem Holding.claim (h : Holding s) (now : Int) (locked : List Nat) : Holding (s.claim now locked) := by
  have hdrain : ∀ {w d}, (s.claim now locked).drains.lookup w = some d →
      (w = s.nextDrain ∧ d = ⟨(s.claimPending now locked).map (·.message), false⟩) ∨
        (w ≠ s.nextDrain ∧ s.drains.lookup w = some d) := fun hd => (Table.lookup_insert_iff _).mp hd
  have hids : ((s.claimPending now locked).map (·.message)).map (·.id) = (s.claimPending now locked).map (·.id) := by
    rw [List.map_map]
    rfl
  -- what a worker holds is not pending
  have hdisjoint : ∀ {w d id}, s.drains.lookup w = some d → id ∈ d.queue.map (·.id) →
      id ∉ (s.claimPending now locked).map (·.id) := by
    intro w d id hd hid hclaimed
    obtain ⟨m, hm, hsending⟩ := h.held hd hid
    rw [pending_of_claimed h hm hclaimed] at hsending
    cases hsending
  constructor
  · intro id m' hm'
    obtain ⟨m, hm, rfl⟩ := lookup_claim.mp hm'
    have hid := h.keyed hm
    split
    · exact hid
    · exact hid
  · intro id hid
    cases hrow : (s.claim now locked).rows.lookup id with
    | none => rfl
    | some m' =>
      obtain ⟨m, hm, -⟩ := lookup_claim.mp hrow
      rw [h.fresh id hid] at hm
      cases hm
  · intro w hw
    have hne : w ≠ s.nextDrain := by
      change s.nextDrain + 1 ≤ w at hw
      omega
    rw [Outbox.claim, AList.lookup_insert_ne hne]
    exact h.drains w (by change s.nextDrain + 1 ≤ w at hw; omega)
  · intro w d id hd hid
    rcases hdrain hd with ⟨-, rfl⟩ | ⟨-, hd⟩
    · rw [hids] at hid
      obtain ⟨m, hm, rfl⟩ := List.mem_map.mp hid
      obtain ⟨id', hlookup, -⟩ := mem_claimPending hm
      have hid' := h.keyed hlookup
      subst hid'
      exact ⟨m.claimed now, lookup_claim.mpr ⟨m, hlookup, by rw [if_pos hid]⟩, rfl⟩
    · obtain ⟨m, hm, hsending⟩ := h.held hd hid
      exact ⟨m, lookup_claim.mpr ⟨m, hm, by rw [if_neg (hdisjoint hd hid)]⟩, hsending⟩
  · intro w d hd
    rcases hdrain hd with ⟨-, rfl⟩ | ⟨-, hd⟩
    · rw [hids]
      exact nodup_claimPending h now locked
    · exact h.nodup hd
  · intro w w' d d' id hd hd' hid hid'
    rcases hdrain hd with ⟨rfl, rfl⟩ | ⟨-, hd⟩
    · rcases hdrain hd' with ⟨rfl, -⟩ | ⟨-, hd'⟩
      · rfl
      · rw [hids] at hid
        exact absurd hid (hdisjoint hd' hid')
    · rcases hdrain hd' with ⟨rfl, rfl⟩ | ⟨-, hd'⟩
      · rw [hids] at hid'
        exact absurd hid' (hdisjoint hd hid)
      · exact h.apart hd hd' hid hid'
  · intro id m' hm'
    obtain ⟨m, hm, rfl⟩ := lookup_claim.mp hm'
    split
    · rename_i hclaimed
      have hfour := (h.limit hm).2 (pending_of_claimed h hm hclaimed)
      exact ⟨by simp only [claimed]; omega, nofun⟩
    · exact h.limit hm

theorem Counting.claim (h : Counting s log) (hs : Holding s) (now : Int) (locked : List Nat) :
    Counting (s.claim now locked) log := by
  constructor
  · intro id m' hm'
    obtain ⟨m, hm, rfl⟩ := lookup_claim.mp hm'
    have hcount := h.counted hm
    split
    · simp only [claimed]
      omega
    · exact hcount
  · intro w d id m' hd hid hm'
    obtain ⟨m, hm, rfl⟩ := lookup_claim.mp hm'
    rcases (Table.lookup_insert_iff _).mp hd with ⟨-, rfl⟩ | ⟨-, hd⟩
    · have hclaimed : id ∈ (s.claimPending now locked).map (·.id) := by
        simpa [Drain.unhanded, OutboxMail.message] using hid
      rw [if_pos hclaimed]
      exact Nat.succ_le_succ (h.counted hm)
    · have hwaiting := h.waiting hd hid hm
      split
      · simp only [claimed]
        omega
      · exact hwaiting
  · intro id hnone
    refine h.unknown ?_
    cases hrow : s.rows.lookup id with
    | none => rfl
    | some m =>
      rw [lookup_claim.mpr ⟨m, hrow, rfl⟩] at hnone
      cases hnone
  · intro e he id hsent
    obtain ⟨m, hm, hstatus⟩ := h.final e he id hsent
    refine ⟨m, lookup_claim.mpr ⟨m, hm, ?_⟩, hstatus⟩
    rw [if_neg]
    intro hclaimed
    rw [pending_of_claimed hs hm hclaimed] at hstatus
    cases hstatus
  · exact h.last

/-! ## Deliveries -/

theorem timesHanded_append (log : List MailEntry) (e : MailEntry) (id : Nat) :
    timesHanded (log ++ [e]) id = timesHanded log id + if e.answer = .handed id then 1 else 0 := by
  simp [timesHanded, List.countP_append, List.countP_cons]

theorem Counting.quiet (h : Counting s log) {e : MailEntry} (hhanded : ∀ id, e.answer ≠ .handed id)
    (hsent : ∀ id, e.answer ≠ .sent id) : Counting s (log ++ [e]) := by
  have htimes : ∀ id, timesHanded (log ++ [e]) id = timesHanded log id := by
    intro id
    rw [timesHanded_append, if_neg (hhanded id), Nat.add_zero]
  constructor
  · intro id m hm
    rw [htimes]
    exact h.counted hm
  · intro w d id m hd hid hm
    rw [htimes]
    exact h.waiting hd hid hm
  · intro id hnone
    rw [htimes]
    exact h.unknown hnone
  · intro e' he' id hid
    rcases List.mem_append.mp he' with he' | he'
    · exact h.final e' he' id hid
    · rw [List.mem_singleton.mp he'] at hid
      exact absurd hid (hsent id)
  · refine List.pairwise_append.mpr ⟨h.last, List.pairwise_singleton _ _, fun e' _ later hlater id _ => ?_⟩
    rw [List.mem_singleton.mp hlater]
    exact hhanded id

theorem Holding.enqueue (h : Holding s) (toEmail template : Text) (createdAt : Int) :
    Holding (s.step (.enqueue toEmail template createdAt)).1 := by
  have hkept : ∀ {id m}, s.rows.lookup id = some m →
      (s.step (.enqueue toEmail template createdAt)).1.rows.lookup id = some m := by
    intro id m hm
    refine (AList.lookup_insert_ne ?_).trans hm
    rintro rfl
    rw [h.fresh _ (Nat.le_refl _)] at hm
    cases hm
  constructor
  · intro id m hm
    rcases (Table.lookup_insert_iff _).mp hm with ⟨rfl, rfl⟩ | ⟨-, hm⟩
    · rfl
    · exact h.keyed hm
  · intro id hid
    change s.nextId + 1 ≤ id at hid
    refine (AList.lookup_insert_ne ?_).trans (h.fresh id ?_) <;> omega
  · exact h.drains
  · intro w d id hd hid
    obtain ⟨m, hm, hsending⟩ := h.held hd hid
    exact ⟨m, hkept hm, hsending⟩
  · exact h.nodup
  · exact h.apart
  · intro id m hm
    rcases (Table.lookup_insert_iff _).mp hm with ⟨-, rfl⟩ | ⟨-, hm⟩
    · exact ⟨Nat.zero_le _, fun _ => Nat.zero_le _⟩
    · exact h.limit hm

theorem Counting.enqueue (h : Counting s log) (hs : Holding s) (toEmail template : Text) (createdAt : Int) :
    Counting (s.step (.enqueue toEmail template createdAt)).1 log := by
  have hnew := h.unknown (hs.fresh s.nextId (Nat.le_refl _))
  constructor
  · intro id m hm
    rcases (Table.lookup_insert_iff _).mp hm with ⟨rfl, rfl⟩ | ⟨-, hm⟩
    · exact Nat.le_of_eq hnew
    · exact h.counted hm
  · intro w d id m hd hid hm
    rcases (Table.lookup_insert_iff _).mp hm with ⟨rfl, rfl⟩ | ⟨-, hm⟩
    · -- nobody holds a message that did not exist
      obtain ⟨m, hm, -⟩ := hs.held hd (mem_queue_of_unhanded hid)
      rw [hs.fresh _ (Nat.le_refl _)] at hm
      cases hm
    · exact h.waiting hd hid hm
  · intro id hnone
    refine h.unknown ?_
    by_cases hid : id = s.nextId
    · rw [hid]
      exact hs.fresh _ (Nat.le_refl _)
    · exact (AList.lookup_insert_ne hid).symm.trans hnone
  · intro e he id hsent
    obtain ⟨m, hm, hstatus⟩ := h.final e he id hsent
    refine ⟨m, (AList.lookup_insert_ne ?_).trans hm, hstatus⟩
    rintro rfl
    rw [hs.fresh _ (Nat.le_refl _)] at hm
    cases hm
  · exact h.last

theorem Holding.narrow (h : Holding s) {drains : Table Nat Drain}
    (hdrains : ∀ {w d}, drains.lookup w = some d → ∃ d', s.drains.lookup w = some d' ∧ d.queue.Sublist d'.queue) :
    Holding { s with drains := drains } := by
  constructor
  · exact h.keyed
  · exact h.fresh
  · intro w hw
    cases hd : drains.lookup w with
    | none => rfl
    | some d =>
      obtain ⟨d', hd', -⟩ := hdrains hd
      rw [h.drains w hw] at hd'
      cases hd'
  · intro w d id hd hid
    obtain ⟨d', hd', hsub⟩ := hdrains hd
    exact h.held hd' ((hsub.map _).subset hid)
  · intro w d hd
    obtain ⟨d', hd', hsub⟩ := hdrains hd
    exact (h.nodup hd').sublist (hsub.map _)
  · intro w w' d₁ d₂ id hd₁ hd₂ hid₁ hid₂
    obtain ⟨d₁', hd₁', hsub₁⟩ := hdrains hd₁
    obtain ⟨d₂', hd₂', hsub₂⟩ := hdrains hd₂
    exact h.apart hd₁' hd₂' ((hsub₁.map _).subset hid₁) ((hsub₂.map _).subset hid₂)
  · exact h.limit

theorem Holding.hand (h : Holding s) {m : OutboxMessage} {rest : List OutboxMessage} {b b' : Bool}
    (hd : s.drains.lookup w = some ⟨m :: rest, b⟩) : Holding { s with drains := s.drains.insert w ⟨m :: rest, b'⟩ } := by
  refine h.narrow fun {w' d} hd' => ?_
  rcases (Table.lookup_insert_iff _).mp hd' with ⟨rfl, rfl⟩ | ⟨-, hd'⟩
  · exact ⟨_, hd, List.Sublist.refl _⟩
  · exact ⟨d, hd', List.Sublist.refl _⟩

theorem Counting.hand (h : Counting s log) (hs : Holding s) {m : OutboxMessage} {rest : List OutboxMessage}
    (hd : s.drains.lookup w = some ⟨m :: rest, false⟩) {e : MailEntry} (he : e.answer = .handed m.id) :
    Counting { s with drains := s.drains.insert w ⟨m :: rest, true⟩ } (log ++ [e]) := by
  have hhead : m.id ∈ (m :: rest).map (·.id) := List.mem_map.mpr ⟨m, List.mem_cons_self .., rfl⟩
  obtain ⟨row, hrow, hsending⟩ := hs.held hd hhead
  have htimes : ∀ id, timesHanded (log ++ [e]) id = timesHanded log id + if id = m.id then 1 else 0 := by
    intro id
    rw [timesHanded_append, he]
    simp [eq_comm]
  constructor
  · intro id r hr
    rw [htimes]
    split
    · rename_i hid
      subst hid
      exact h.waiting hd (by simp [Drain.unhanded]) hr
    · exact h.counted hr
  · intro w' d id r hd' hid hr
    rw [htimes]
    -- the others hold other messages, and this worker does not hold the message twice
    rcases (Table.lookup_insert_iff _).mp hd' with ⟨rfl, rfl⟩ | ⟨hne, hd'⟩
    · simp only [Drain.unhanded, if_true, List.tail_cons] at hid
      have hnodup := hs.nodup hd
      simp only [List.map_cons, List.nodup_cons] at hnodup
      have hother : id ≠ m.id := by
        rintro rfl
        exact hnodup.1 hid
      rw [if_neg hother]
      exact h.waiting hd (by simp only [Drain.unhanded, Bool.false_eq_true, if_false, List.map_cons]; exact List.mem_cons_of_mem _ hid) hr
    · have hother : id ≠ m.id := by
        rintro rfl
        exact hne (hs.apart hd' hd (mem_queue_of_unhanded hid) hhead)
      rw [if_neg hother]
      exact h.waiting hd' hid hr
  · intro id hnone
    rw [htimes, if_neg]
    · exact h.unknown hnone
    · rintro rfl
      rw [hrow] at hnone
      cases hnone
  · intro e' he' id hsent
    rcases List.mem_append.mp he' with he' | he'
    · exact h.final e' he' id hsent
    · rw [List.mem_singleton.mp he', he] at hsent
      cases hsent
  · refine List.pairwise_append.mpr ⟨h.last, List.pairwise_singleton _ _, fun e' he' later hlater id hsent hhanded => ?_⟩
    rw [List.mem_singleton.mp hlater, he] at hhanded
    cases hhanded
    obtain ⟨r, hr, hstatus⟩ := h.final e' he' _ hsent
    rw [hrow] at hr
    cases hr
    rw [hsending] at hstatus
    cases hstatus

/-! ## Results -/

section Record

variable {m : OutboxMessage} {rest : List OutboxMessage} {f : OutboxMail → OutboxMail}

theorem lookup_record {row : OutboxMail} (h : s.rows.lookup m.id = some row) (id : Nat) :
    (s.record w m rest f).rows.lookup id = if id = m.id then some (f row) else s.rows.lookup id := by
  rw [Outbox.record, Table.lookup_modify_eq, h]
  rfl

theorem Holding.record (h : Holding s) (hd : s.drains.lookup w = some ⟨m :: rest, true⟩) (hf : ∀ row, (f row).id = row.id)
    (hattempts : ∀ row, (f row).attempts = row.attempts) (hpending : ∀ row, (f row).status = .pending → row.attempts ≤ 4) :
    Holding (s.record w m rest f) := by
  have hhead : m.id ∈ (m :: rest).map (·.id) := List.mem_map.mpr ⟨m, List.mem_cons_self .., rfl⟩
  obtain ⟨row, hrow, -⟩ := h.held hd hhead
  have hnarrow : Holding { s with drains := s.drains.insert w ⟨rest, false⟩ } := by
    refine h.narrow fun {w' d} hd' => ?_
    rcases (Table.lookup_insert_iff _).mp hd' with ⟨rfl, rfl⟩ | ⟨-, hd'⟩
    · exact ⟨_, hd, List.sublist_cons_self _ _⟩
    · exact ⟨d, hd', List.Sublist.refl _⟩
  constructor
  · intro id r hr
    rw [lookup_record hrow] at hr
    split at hr
    · rename_i hid
      cases hr
      rw [hf, hid]
      exact h.keyed hrow
    · exact h.keyed hr
  · intro id hid
    rw [lookup_record hrow, if_neg]
    · exact h.fresh id hid
    · rintro rfl
      rw [h.fresh _ hid] at hrow
      cases hrow
  · exact hnarrow.drains
  · -- nobody else holds the message, and the rest of the queue is others
    intro w' d id hd' hid
    obtain ⟨r, hr, hsending⟩ := hnarrow.held hd' hid
    refine ⟨r, ?_, hsending⟩
    rw [lookup_record hrow, if_neg]
    · exact hr
    · rintro rfl
      rcases (Table.lookup_insert_iff _).mp hd' with ⟨rfl, rfl⟩ | ⟨hne, hd'⟩
      · have hnodup := h.nodup hd
        simp only [List.map_cons, List.nodup_cons] at hnodup
        exact hnodup.1 hid
      · exact hne (h.apart hd' hd hid hhead)
  · exact hnarrow.nodup
  · exact hnarrow.apart
  · intro id r hr
    rw [lookup_record hrow] at hr
    split at hr
    · cases hr
      rw [hattempts]
      exact ⟨(h.limit hrow).1, hpending row⟩
    · exact h.limit hr

theorem Counting.record (h : Counting s log) (hs : Holding s) (hd : s.drains.lookup w = some ⟨m :: rest, true⟩)
    (hattempts : ∀ row, (f row).attempts = row.attempts) {e : MailEntry} (hhanded : ∀ id, e.answer ≠ .handed id)
    (hsent : ∀ id, e.answer = .sent id → id = m.id ∧ ∀ row, (f row).status = .sent) :
    Counting (s.record w m rest f) (log ++ [e]) := by
  have hhead : m.id ∈ (m :: rest).map (·.id) := List.mem_map.mpr ⟨m, List.mem_cons_self .., rfl⟩
  obtain ⟨row, hrow, hsending⟩ := hs.held hd hhead
  have htimes : ∀ id, timesHanded (log ++ [e]) id = timesHanded log id := by
    intro id
    rw [timesHanded_append, if_neg (hhanded id), Nat.add_zero]
  have hattempts' : ∀ {id r}, (s.record w m rest f).rows.lookup id = some r →
      ∃ r', s.rows.lookup id = some r' ∧ r.attempts = r'.attempts := by
    intro id r hr
    rw [lookup_record hrow] at hr
    split at hr
    · rename_i hid
      cases hr
      exact ⟨row, by rw [hid]; exact hrow, hattempts row⟩
    · exact ⟨r, hr, rfl⟩
  constructor
  · intro id r hr
    obtain ⟨r', hr', heq⟩ := hattempts' hr
    rw [htimes, heq]
    exact h.counted hr'
  · intro w' d id r hd' hid hr
    obtain ⟨r', hr', heq⟩ := hattempts' hr
    rw [htimes, heq]
    rcases (Table.lookup_insert_iff _).mp hd' with ⟨rfl, rfl⟩ | ⟨-, hd'⟩
    · exact h.waiting hd hid hr'
    · exact h.waiting hd' hid hr'
  · intro id hnone
    rw [htimes]
    refine h.unknown ?_
    rw [lookup_record hrow] at hnone
    split at hnone
    · cases hnone
    · exact hnone
  · intro e' he' id hid
    rw [lookup_record hrow]
    rcases List.mem_append.mp he' with he' | he'
    · -- what was sent before is not the message of this worker
      obtain ⟨r, hr, hstatus⟩ := h.final e' he' id hid
      refine ⟨r, ?_, hstatus⟩
      rw [if_neg]
      · exact hr
      · rintro rfl
        rw [hrow] at hr
        cases hr
        rw [hsending] at hstatus
        cases hstatus
    · rw [List.mem_singleton.mp he'] at hid
      obtain ⟨rfl, hstatus⟩ := hsent id hid
      exact ⟨f row, by rw [if_pos rfl], hstatus row⟩
  · refine List.pairwise_append.mpr ⟨h.last, List.pairwise_singleton _ _, fun e' _ later hlater id _ => ?_⟩
    rw [List.mem_singleton.mp hlater]
    exact hhanded id

end Record

/-! ## All events together -/

theorem Holding.requeue (h : Holding s) (hlost : TakesBackLost s (.requeue before)) :
    Holding (s.requeue before) := by
  have hkept : ∀ {w d id m}, s.drains.lookup w = some d → id ∈ d.queue.map (·.id) → s.rows.lookup id = some m →
      m.stale before = false := by
    intro w d id m hd hid hm
    cases hstale : m.stale before with
    | false => rfl
    | true =>
      have hnone := (hlost ⟨id, m⟩ (Table.lookup_eq_some_iff.mp hm) hstale).2
      exact absurd hid (hnone ⟨w, d⟩ (Table.lookup_eq_some_iff.mp hd))
  constructor
  · intro id r hr
    obtain ⟨m, hm, rfl⟩ := lookup_requeue.mp hr
    have hid := h.keyed hm
    split
    · exact hid
    · exact hid
  · intro id hid
    cases hrow : (s.requeue before).rows.lookup id with
    | none => rfl
    | some r =>
      obtain ⟨m, hm, -⟩ := lookup_requeue.mp hrow
      rw [h.fresh id hid] at hm
      cases hm
  · exact h.drains
  · intro w d id hd hid
    obtain ⟨m, hm, hsending⟩ := h.held hd hid
    exact ⟨m, lookup_requeue.mpr ⟨m, hm, by rw [hkept hd hid hm]; rfl⟩, hsending⟩
  · exact h.nodup
  · exact h.apart
  · intro id r hr
    obtain ⟨m, hm, rfl⟩ := lookup_requeue.mp hr
    have hlimit := h.limit hm
    split
    · rename_i hstale
      have hfew := (hlost ⟨id, m⟩ (Table.lookup_eq_some_iff.mp hm) hstale).1
      exact ⟨hlimit.1, fun _ => Nat.le_of_lt_succ hfew⟩
    · exact hlimit

theorem Counting.requeue (h : Counting s log) (before : Int) : Counting (s.requeue before) log := by
  have hattempts : ∀ {id r}, (s.requeue before).rows.lookup id = some r →
      ∃ m, s.rows.lookup id = some m ∧ r.attempts = m.attempts := by
    intro id r hr
    obtain ⟨m, hm, rfl⟩ := lookup_requeue.mp hr
    refine ⟨m, hm, ?_⟩
    split <;> rfl
  constructor
  · intro id r hr
    obtain ⟨m, hm, heq⟩ := hattempts hr
    rw [heq]
    exact h.counted hm
  · intro w d id r hd hid hr
    obtain ⟨m, hm, heq⟩ := hattempts hr
    rw [heq]
    exact h.waiting hd hid hm
  · intro id hnone
    refine h.unknown ?_
    cases hrow : s.rows.lookup id with
    | none => rfl
    | some m =>
      rw [lookup_requeue.mpr ⟨m, hrow, rfl⟩] at hnone
      cases hnone
  · intro e he id hsent
    obtain ⟨m, hm, hstatus⟩ := h.final e he id hsent
    refine ⟨m, lookup_requeue.mpr ⟨m, hm, ?_⟩, hstatus⟩
    rw [if_neg]
    intro hstale
    rw [stale_sending hstale] at hstatus
    cases hstatus
  · exact h.last

theorem Counting.narrow (h : Counting s log) {drains : Table Nat Drain}
    (hdrains : ∀ {w d}, drains.lookup w = some d → s.drains.lookup w = some d) : Counting { s with drains := drains } log :=
  ⟨h.counted, fun hd => h.waiting (hdrains hd), h.unknown, h.final, h.last⟩

theorem delivery_step (hs : Holding s) (h : Counting s log) {event : MailEvent} (hevent : TakesBackLost s event) :
    Holding (s.step event).1 ∧ Counting (s.step event).1 (log ++ [outboxMachine.entry s event]) := by
  cases event with
  | enqueue toEmail template createdAt =>
    exact ⟨hs.enqueue toEmail template createdAt, (h.enqueue hs toEmail template createdAt).quiet nofun nofun⟩
  | claim now locked => exact ⟨hs.claim now locked, (h.claim hs now locked).quiet nofun nofun⟩
  | hand w =>
    simp only [outboxMachine, Machine.entry, Outbox.step]
    split
    · rename_i m rest hd
      exact ⟨hs.hand hd, h.hand hs hd rfl⟩
    · exact ⟨hs, h.quiet nofun nofun⟩
  | succeed w now =>
    simp only [outboxMachine, Machine.entry, Outbox.step]
    split
    · rename_i m rest hd
      refine ⟨hs.record hd (fun _ => rfl) (fun _ => rfl) nofun, h.record (f := markSent now) hs hd (fun _ => rfl) ?_ ?_⟩
      · exact nofun
      · intro id hid
        cases hid
        exact ⟨rfl, fun _ => rfl⟩
    · exact ⟨hs, h.quiet nofun nofun⟩
  | fail w reason =>
    simp only [outboxMachine, Machine.entry, Outbox.step]
    split
    · rename_i m rest hd
      refine ⟨hs.record hd (fun _ => rfl) (fun _ => rfl) fun row hpending => ?_,
        h.record (f := markFailed reason) hs hd (fun _ => rfl) ?_ ?_⟩
      · simp only [markFailed] at hpending
        split at hpending
        · cases hpending
        · omega
      · exact nofun
      · exact nofun
    · exact ⟨hs, h.quiet nofun nofun⟩
  | crash w =>
    have herase : ∀ {w' d}, (s.drains.erase w).lookup w' = some d → s.drains.lookup w' = some d := fun hd =>
      (Table.lookup_erase_iff.mp hd).2
    exact ⟨hs.narrow fun {_ d} hd => ⟨d, herase hd, List.Sublist.refl _⟩, (h.narrow herase).quiet nofun nofun⟩
  | requeue before => exact ⟨hs.requeue hevent, (h.requeue before).quiet nofun nofun⟩

/-! ## Nothing is stuck -/

/-- What is being sent has the instant of its claim. -/
structure Dated (s : Outbox) : Prop where
  keyed : ∀ {id m}, s.rows.lookup id = some m → m.id = id
  dated : ∀ {id m}, s.rows.lookup id = some m → m.status = .sending → m.lastAttemptAt.isSome = true

theorem Dated.step (h : Dated s) (event : MailEvent) : Dated (s.step event).1 := by
  have hrecord : ∀ (w : Nat) (m : OutboxMessage) (rest : List OutboxMessage) (f : OutboxMail → OutboxMail),
      (∀ row, (f row).id = row.id) → (∀ row, (f row).status ≠ .sending) → Dated (s.record w m rest f) := by
    intro w m rest f hid hstatus
    constructor
    · intro id row hrow
      obtain ⟨old, hold, rfl | rfl⟩ := Table.lookup_modify hrow
      · exact h.keyed hold
      · rw [hid]
        exact h.keyed hold
    · intro id row hrow hsending
      obtain ⟨old, hold, rfl | rfl⟩ := Table.lookup_modify hrow
      · exact h.dated hold hsending
      · exact absurd hsending (hstatus old)
  cases event with
  | enqueue toEmail template createdAt =>
    constructor
    · intro id m hm
      rcases (Table.lookup_insert_iff _).mp hm with ⟨rfl, rfl⟩ | ⟨-, hm⟩
      · rfl
      · exact h.keyed hm
    · intro id m hm hsending
      rcases (Table.lookup_insert_iff _).mp hm with ⟨-, rfl⟩ | ⟨-, hm⟩
      · cases hsending
      · exact h.dated hm hsending
  | claim now locked =>
    constructor
    · intro id r hr
      obtain ⟨m, hm, rfl⟩ := lookup_claim.mp hr
      have hid := h.keyed hm
      split
      · exact hid
      · exact hid
    · intro id r hr hsending
      obtain ⟨m, hm, rfl⟩ := lookup_claim.mp hr
      split at hsending
      · rw [if_pos ‹_›]
        rfl
      · rw [if_neg ‹_›]
        exact h.dated hm hsending
  | hand w =>
    simp only [Outbox.step]
    split
    · exact ⟨h.keyed, h.dated⟩
    · exact h
  | succeed w now =>
    simp only [Outbox.step]
    split
    · exact hrecord _ _ _ _ (fun _ => rfl) nofun
    · exact h
  | fail w reason =>
    simp only [Outbox.step]
    split
    · refine hrecord _ _ _ _ (fun _ => rfl) fun row hsending => ?_
      simp only [markFailed] at hsending
      split at hsending <;> cases hsending
    · exact h
  | crash w => exact ⟨h.keyed, h.dated⟩
  | requeue before =>
    constructor
    · intro id r hr
      obtain ⟨m, hm, rfl⟩ := lookup_requeue.mp hr
      have hid := h.keyed hm
      split
      · exact hid
      · exact hid
    · intro id r hr hsending
      obtain ⟨m, hm, rfl⟩ := lookup_requeue.mp hr
      split at hsending
      · cases hsending
      · rw [if_neg ‹_›]
        exact h.dated hm hsending

theorem claims_reach (now : Int) (n : Nat) : ∀ {s : Outbox}, Dated s → s.rows.count (claimable now) ≤ n →
    s.rows.lookup id = some m → m.claimable now = true →
    ∃ events m', (outboxMachine.run s events).rows.lookup id = some m' ∧ m'.status = .sending := by
  induction n with
  | zero =>
    intro s _ hcount hm hclaimable
    have hpos := Table.count_pos_of_mem (p := claimable now) (Table.mem_values_iff.mpr ⟨id, hm⟩) hclaimable
    omega
  | succ n ih =>
    intro s hs hcount hm hclaimable
    by_cases hclaimed : id ∈ (s.claimPending now []).map (·.id)
    · exact ⟨[.claim now []], m.claimed now, lookup_claim.mpr ⟨m, hm, by rw [if_pos hclaimed]⟩, rfl⟩
    · -- the claim takes others, so that fewer are left
      have hqueue : m ∈ (s.rows.orderBy fun a b => a.createdAt ≤ b.createdAt).filter fun m =>
          m.claimable now && !([] : List Nat).contains m.id :=
        List.mem_filter.mpr ⟨Table.mem_orderBy_iff.mpr ⟨id, hm⟩, by simp [hclaimable]⟩
      obtain ⟨first, hfirst⟩ : ∃ first, first ∈ s.claimPending now [] := by
        cases hlist : (s.rows.orderBy fun a b => a.createdAt ≤ b.createdAt).filter fun m =>
            m.claimable now && !([] : List Nat).contains m.id with
        | nil =>
          rw [hlist] at hqueue
          cases hqueue
        | cons first rest => exact ⟨first, by rw [Outbox.claimPending, hlist]; exact List.mem_cons_self ..⟩
      obtain ⟨other, hother, hothers⟩ := mem_claimPending hfirst
      have hin : other ∈ (s.claimPending now []).map (·.id) :=
        List.mem_map.mpr ⟨first, hfirst, hs.keyed hother⟩
      have hfewer : (s.claim now []).rows.count (claimable now) < s.rows.count (claimable now) := by
        refine Table.count_mapRows_lt (fun k v hv => ?_) hother hothers ?_
        · split at hv
          · cases hv
          · exact hv
        · rw [if_pos hin]
          rfl
      obtain ⟨events, m', hm', hstatus⟩ := ih (hs.step (.claim now [])) (by change (s.claim now []).rows.count _ ≤ n; omega)
        (lookup_claim.mpr ⟨m, hm, by rw [if_neg hclaimed]⟩) hclaimable
      exact ⟨.claim now [] :: events, m', hm', hstatus⟩

theorem Dated.neverStuck (h : Dated s) : NeverStuck s := by
  intro id m hm hsent hfailed
  cases hstatus : m.status with
  | pending =>
    obtain ⟨now, hnow⟩ : ∃ now, m.claimable now = true := by
      cases hlast : m.lastAttemptAt with
      | none => exact ⟨0, by simp [claimable, hstatus, hlast]⟩
      | some last =>
        refine ⟨last + min m.attempts 6 * 300 + 1, ?_⟩
        simp only [claimable, hstatus, hlast, decide_true, Bool.true_and, decide_eq_true_eq]
        omega
    obtain ⟨events, m', hm', hsending⟩ := claims_reach now _ h (Nat.le_refl _) hm hnow
    exact ⟨events, m', hm', by rw [hsending]; decide⟩
  | sending =>
    obtain ⟨last, hlast⟩ := Option.isSome_iff_exists.mp (h.dated hm hstatus)
    have hstale : m.stale (last + 1) = true := by
      simp only [stale, hstatus, hlast, decide_true, Bool.true_and, decide_eq_true_eq]
      omega
    exact ⟨[.requeue (last + 1)], m.requeued, lookup_requeue.mpr ⟨m, hm, by rw [hstale]; rfl⟩, nofun⟩
  | sent => exact absurd hstatus hsent
  | failed => exact absurd hstatus hfailed

/-! ## Delivery -/

/-- As long as only lost messages are taken back, every message is delivered at most once after it is recorded as sent,
and at most five times; and nothing is ever stuck. -/
theorem outbox_delivery (events : List MailEvent) (hlost : outboxMachine.Meets TakesBackLost .initial events) :
    DeliversOnce (outboxMachine.log .initial events) (outboxMachine.run .initial events) ∧
      NeverStuck (outboxMachine.run .initial events) := by
  have hstart : Holding .initial := ⟨nofun, fun _ _ => rfl, fun _ _ => rfl, nofun, nofun, nofun, nofun⟩
  have hcounting : Counting .initial [] := ⟨nofun, nofun, fun _ => rfl, nofun, List.Pairwise.nil⟩
  have hdated : Dated .initial := ⟨nofun, nofun⟩
  obtain ⟨hholding, hcounted, hdated'⟩ := Machine.invariant (C := TakesBackLost) (M := outboxMachine)
    (I := fun s past => Holding s ∧ Counting s past ∧ Dated s) (fun s past event hevent hs => by
      obtain ⟨hnext, hnext'⟩ := delivery_step hs.1 hs.2.1 hevent
      exact ⟨hnext, hnext', hs.2.2.step event⟩) hlost ⟨hstart, hcounting, hdated⟩
  refine ⟨⟨hcounted.final, hcounted.last, fun id => ?_⟩, hdated'.neverStuck⟩
  cases hrow : (outboxMachine.run .initial events).rows.lookup id with
  | none =>
    rw [hcounted.unknown hrow]
    exact Nat.zero_le _
  | some m => exact Nat.le_trans (hcounted.counted hrow) (hholding.limit hrow).1

def claimedOnce : List MailEvent := [.enqueue "a@b.c".toList "verify".toList 0, .claim 0 [], .hand 0]

/-- The worker is lost, the message is taken back and sent by another worker. -/
theorem outbox_delivery_after_crash :
    DeliversOnce
        (outboxMachine.log .initial
          (claimedOnce ++ ([.crash 0, .requeue 700, .claim 700 [], .hand 1, .succeed 1 701] : List MailEvent)))
        (outboxMachine.run .initial
          (claimedOnce ++ ([.crash 0, .requeue 700, .claim 700 [], .hand 1, .succeed 1 701] : List MailEvent))) ∧
      NeverStuck (outboxMachine.run .initial
        (claimedOnce ++ ([.crash 0, .requeue 700, .claim 700 [], .hand 1, .succeed 1 701] : List MailEvent))) :=
  outbox_delivery _ (by decide +kernel)

/-- The first worker is only slow: its failure is recorded over the success of the second, and the message is sent again. -/
theorem late_failure_resends :
    ¬ DeliversOnce
      (outboxMachine.log .initial (claimedOnce ++
        ([.requeue 700, .claim 700 [], .hand 1, .succeed 1 701, .fail 0 [], .claim 2000 [], .hand 2] : List MailEvent)))
      (outboxMachine.run .initial (claimedOnce ++
        ([.requeue 700, .claim 700 [], .hand 1, .succeed 1 701, .fail 0 [], .claim 2000 [], .hand 2] : List MailEvent))) := by
  intro h
  have hanswers : ((outboxMachine.log .initial (claimedOnce ++
      ([.requeue 700, .claim 700 [], .hand 1, .succeed 1 701, .fail 0 [], .claim 2000 [], .hand 2] :
        List MailEvent))).map (·.answer)) =
      [.done, .done, .handed 0, .done, .done, .handed 0, .sent 0, .failed 0, .done, .handed 0] := by
    decide +kernel
  have hlast : ((outboxMachine.log .initial (claimedOnce ++
      ([.requeue 700, .claim 700 [], .hand 1, .succeed 1 701, .fail 0 [], .claim 2000 [], .hand 2] :
        List MailEvent))).map (·.answer)).Pairwise
      fun a b => ∀ id, a = .sent id → b ≠ .handed id := List.pairwise_map.mpr h.last
  rw [hanswers] at hlast
  simp at hlast

end Lumio.Control
