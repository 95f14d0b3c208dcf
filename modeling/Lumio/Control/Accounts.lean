import Lumio.Control.Settlement

/-!
# Accounts over whole runs

The ledger of subscriptions in every state that is reached, and what the notifications of payments have to do with the
purchases in it.
-/

namespace Lumio.Control

open RowStore

abbrev BillingEntry := Machine.Entry BillingState BillingTurn BillingOutcome

theorem Chained.last {events : List SubscriptionEvent} : ∀ {start finish : Option Int},
    Chained start events finish → finish = (events.getLast?.map (·.after)).getD start := by
  induction events with
  | nil =>
    intro start finish h
    exact Eq.symm h
  | cons e events ih =>
    intro start finish h
    rw [ih h.2]
    cases events with
    | nil => rfl
    | cons _ _ => simp [List.getLast?_cons]

/-! ## What a log says -/

def trialOf (e : BillingEntry) : Option (Text × Int) :=
  match e.answer with
  | .committed t (.activated result) =>
    match t.call with
    | .settle input _ _ => if result.trialGranted then some (input.deviceId, input.userId) else none
    | _ => none
  | _ => none

structure LedgerSound (log : List BillingEntry) (s : BillingStore) : Prop where
  /-- The events of a user form a chain, and the last one says when the subscription expires. -/
  chain : ∀ userId, Chained none (s.eventsOf userId) (s.expiresOf userId)
  last : ∀ userId, s.expiresOf userId = ((s.eventsOf userId).getLast?.map (·.after)).getD none
  bonus : ∀ userId, s.bonusOf userId = s.bonusEvents userId
  attributed : ∀ userId, s.bonusOf userId = s.attributedTo userId
  trials : ∀ userId, (s.eventsOf userId).countP (·.type = .trialGranted) ≤ 1
  devices : ∀ x ∈ log.filterMap trialOf, ∀ y ∈ log.filterMap trialOf, x.1 ≠ [] → x.1 = y.1 → x.2 = y.2
  bonuses : ∀ id, s.refCount .inviteBonus (.attribution id) ≤ 1
  purchases : ∀ orderNo, s.refCount .purchase (.order orderNo) ≤ 1
  revocations : ∀ orderNo, s.refCount .refundRevoke (.order orderNo) ≤ 1

/-- A paid notification of the right amount that a line of the log acknowledges. -/
def acknowledged (e : BillingEntry) : Option Notification :=
  match e.answer with
  | .committed t .ok =>
    match t.call with
    | .handleWebhook _ (some n) _ =>
      match e.before.committed.orders.lookup n.orderNo with
      | some order => if n.paid ∧ n.amount = order.amountCents then some n else none
      | none => none
    | _ => none
  | _ => none

def notified (e : BillingEntry) : Option Notification :=
  match e.call with
  | .advance i _ =>
    match e.before.running[i]? with
    | some t =>
      match t.call with
      | .handleWebhook _ n _ => n
      | _ => none
    | none => none
  | _ => none

/-- No paid notification of the right amount has its turn when the order has failed already. -/
def PaidInTime (log : List BillingEntry) : Prop :=
  ∀ e ∈ log, ∀ n ∈ notified e, n.paid = true → ∀ order ∈ e.before.committed.orders.lookup n.orderNo,
    n.amount = order.amountCents → order.status ≠ .failed

instance (log : List BillingEntry) : Decidable (PaidInTime log) :=
  inferInstanceAs (Decidable (∀ e ∈ log, ∀ n ∈ notified e, n.paid = true →
    ∀ order ∈ e.before.committed.orders.lookup n.orderNo, n.amount = order.amountCents → order.status ≠ .failed))

def CreditedOnce (s : BillingStore) (orderNo : Text) : Prop :=
  s.refCount .purchase (.order orderNo) = 1 ∧ ∃ e ∈ s.events, e.type = .purchase ∧ e.ref = some (.order orderNo) ∧
    ∃ order ∈ s.orders.lookup orderNo, e.userId = order.userId ∧ e.daysDelta = order.periodMonths * 30

def PaymentsCredited (log : List BillingEntry) (s : BillingStore) : Prop :=
  (∀ n ∈ log.filterMap acknowledged, CreditedOnce s n.orderNo) ∧
    ∀ e ∈ s.events, e.type = .purchase → ∃ n ∈ log.filterMap acknowledged, e.ref = some (.order n.orderNo)

theorem acknowledged_iff {e : BillingEntry} {n : Notification} : acknowledged e = some n ↔ ∃ t channel now order,
    e.answer = .committed t .ok ∧ t.call = .handleWebhook channel (some n) now ∧
      e.before.committed.orders.lookup n.orderNo = some order ∧ n.paid = true ∧ n.amount = order.amountCents := by
  constructor
  · intro h
    unfold acknowledged at h
    split at h
    · rename_i t hanswer
      split at h
      · rename_i channel n' now hcall
        split at h
        · rename_i order horder
          split at h
          · rename_i hpaid
            cases h
            exact ⟨t, channel, now, order, hanswer, hcall, horder, hpaid.1, hpaid.2⟩
          · cases h
        · cases h
      · cases h
    · cases h
  · rintro ⟨t, channel, now, order, hanswer, hcall, horder, hpaid, hamount⟩
    simp only [acknowledged, hanswer, hcall, horder, hpaid, hamount, and_self, if_true]

theorem BillingStore.Valid.creditedOnce {s : BillingStore} (h : s.Valid) {orderNo : Text} {order : Order}
    (horder : s.orders.lookup orderNo = some order) (hstatus : order.status = .paid ∨ order.status = .refunded) :
    CreditedOnce s orderNo := by
  have hcounts := h.refCounts horder
  have hone : s.refCount .purchase (.order orderNo) = 1 := by
    rcases hstatus with hstatus | hstatus <;>
      simp only [hstatus, BillingStore.booked, Option.some.injEq, Prod.mk.injEq] at hcounts <;> exact hcounts.1.symm
  obtain ⟨e, he, hmatch⟩ := List.countP_pos_iff.mp (Nat.lt_of_lt_of_eq Nat.zero_lt_one hone.symm)
  simp only [Bool.and_eq_true, decide_eq_true_eq] at hmatch
  obtain ⟨order', horder', huser, hdays⟩ := h.orders.credited e he hmatch.1 orderNo hmatch.2
  exact ⟨hone, e, he, hmatch.1, hmatch.2, order', horder', huser, hdays⟩

section Calls

variable [BillingSetup]

open BillingSetup

theorem billing_initial_sound : billingRows.Sound billingContract ⟨.initial, []⟩ := by
  have hbooks : BillingStore.initial.Books :=
    ⟨fun _ => rfl, fun _ => rfl, fun _ => Nat.zero_le _, fun _ _ => Nat.zero_le _, fun _ h => absurd h List.not_mem_nil⟩
  refine ⟨⟨hbooks, ⟨fun _ => rfl, ?_, fun _ _ => rfl⟩, ⟨fun _ => rfl, ?_⟩⟩, fun _ h => absurd h List.not_mem_nil,
    fun _ h => absurd h List.not_mem_nil, List.Pairwise.nil⟩
  · intro id a ha
    cases ha
  · exact fun _ h => absurd h List.not_mem_nil

theorem billing_after_evolves {s : BillingStore} {answer : BillingOutcome} (h : billingContract.Promised s answer) :
    s.Evolves (billingRows.after s answer) := by
  cases answer with
  | committed t answer => exact h.2.1
  | moved | waits | asked _ _ _ | rolledBack _ _ | aborted _ => exact .refl s

/-! ## The ledger -/

def Claimed (s : BillingStore) (log : List BillingEntry) : Prop :=
  ∀ x ∈ log.filterMap trialOf, x.1 ≠ [] → s.fingerprints.lookup ⟨"device".toList, hashToken x.1⟩ = some x.2

theorem claimed_of_trialOf {s : BillingStore} {e : BillingEntry} {x : Text × Int}
    (h : billingContract.Promised s e.answer) (hx : trialOf e = some x) (hne : x.1 ≠ []) :
    (billingRows.after s e.answer).fingerprints.lookup ⟨"device".toList, hashToken x.1⟩ = some x.2 := by
  unfold trialOf at hx
  split at hx
  · rename_i t result hanswer
    split at hx
    · rename_i input cfg now hcall
      split at hx
      · rename_i hgranted
        cases hx
        rw [hanswer] at h ⊢
        exact h.2.2.device input cfg now result hcall rfl hgranted hne
      · cases hx
    · cases hx
  · cases hx

theorem Claimed.step {s : BillingStore} {log : List BillingEntry} {e : BillingEntry} (h : Claimed s log)
    (hpromised : billingContract.Promised s e.answer) : Claimed (billingRows.after s e.answer) (log ++ [e]) := by
  refine Machine.forall_filterMap_append (fun x hx hne => ?_) fun x hx hne => claimed_of_trialOf hpromised hx hne
  obtain ⟨_, hstill, rfl⟩ := (billing_after_evolves hpromised).fingerprints _ _ (h x hx hne)
  exact hstill

/-- However first logins, payments and refunds interleave, statement by statement, the ledger is right. -/
theorem ledger_sound (turns : List BillingTurn) :
    LedgerSound (billingMachine.log ⟨.initial, []⟩ turns) (billingMachine.run ⟨.initial, []⟩ turns).committed := by
  have hvalid := (interleaved_sound billingProgram_keeps turns billing_initial_sound).1.inv
  have hclaimed : Claimed (billingMachine.run ⟨.initial, []⟩ turns).committed
      (billingMachine.log ⟨.initial, []⟩ turns) := by
    refine interleaved_history billingProgram_keeps (I := Claimed) ?_ turns billing_initial_sound nofun
    intro past s turn answer _ _ hanswer hpast
    exact hpast.step (e := ⟨s, turn, answer⟩) hanswer
  refine ⟨hvalid.books.chain, fun userId => (hvalid.books.chain userId).last, hvalid.books.bonus, hvalid.attributed.total,
    hvalid.books.trials, ?_, fun _ => hvalid.books.refs _ _, fun _ => hvalid.books.refs _ _, fun _ => hvalid.books.refs _ _⟩
  intro x hx y hy hne heq
  have hx' := hclaimed x hx hne
  have hy' := hclaimed y hy (heq ▸ hne)
  rw [heq, hy'] at hx'
  exact (Option.some.inj hx').symm

/-! ## Payments -/

/-- What the log and the tables say of payments. -/
structure Payments (s : BillingStore) (log : List BillingEntry) : Prop where
  settled : ∀ e ∈ log, ∀ n, acknowledged e = some n →
    (∃ order, e.before.committed.orders.lookup n.orderNo = some order ∧ order.status = .failed) ∨
      ∃ order, s.orders.lookup n.orderNo = some order ∧ (order.status = .paid ∨ order.status = .refunded)
  justified : ∀ e ∈ s.events, e.type = .purchase → ∃ n ∈ log.filterMap acknowledged, e.ref = some (.order n.orderNo)

theorem Payments.step {s : BillingStore} {log : List BillingEntry} {e : BillingEntry} (h : Payments s log)
    (hbefore : e.before.committed = s) (hpromised : billingContract.Promised s e.answer) :
    Payments (billingRows.after s e.answer) (log ++ [e]) := by
  constructor
  · intro e' he' n hn
    rcases List.mem_append.mp he' with he' | he'
    · rcases h.settled e' he' n hn with hfailed | ⟨order, horder, hstatus⟩
      · exact .inl hfailed
      · -- a paid order stays paid or is refunded
        obtain ⟨order', horder', -, -, -, hstep⟩ := (billing_after_evolves hpromised).orders _ _ horder
        refine .inr ⟨order', horder', ?_⟩
        rcases hstatus with hstatus | hstatus
        · rw [hstatus] at hstep
          exact hstep
        · rw [hstatus] at hstep
          exact .inr hstep
    · rw [List.mem_singleton.mp he'] at hn ⊢
      obtain ⟨t, channel, now, order, hanswer, hcall, horder, hpaid, hamount⟩ := acknowledged_iff.mp hn
      rw [hanswer] at hpromised ⊢
      obtain ⟨order, order', horder, horder', hstatus⟩ := hpromised.2.2.acknowledged channel n now hcall rfl hpaid
      rw [hbefore]
      rcases hstatus with hfailed | hstatus
      · exact .inl ⟨order, horder, hfailed⟩
      · exact .inr ⟨order', horder', hstatus⟩
  · intro ev hev htype
    rw [List.filterMap_append]
    have hold : ev ∈ s.events → ∃ n ∈ log.filterMap acknowledged ++ [e].filterMap acknowledged,
        ev.ref = some (.order n.orderNo) := by
      intro hev
      obtain ⟨n, hn, href⟩ := h.justified ev hev htype
      exact ⟨n, List.mem_append_left _ hn, href⟩
    cases hanswer : e.answer with
    | committed t answer =>
      rw [hanswer] at hev hpromised
      rcases hpromised.2.2.purchases ev hev htype with hev | hnew
      · exact hold hev
      · obtain ⟨channel, n, now, order, hcall, hpaid, rfl, href, horder, hamount⟩ := hnew
        have hn : acknowledged e = some n :=
          acknowledged_iff.mpr ⟨t, channel, now, order, hanswer, hcall, by rw [hbefore]; exact horder, hpaid, hamount⟩
        exact ⟨n, List.mem_append_right _ (by simp [hn]), href⟩
    | moved | waits | asked _ _ _ | rolledBack _ _ | aborted _ =>
      rw [hanswer] at hev
      exact hold hev

theorem notified_of_acknowledged {e : BillingEntry} {n : Notification}
    (hanswer : e.answer = (billingMachine.step e.before e.call).2) (hn : acknowledged e = some n) : notified e = some n := by
  obtain ⟨t, channel, now, order, hcommitted, hcall, -⟩ := acknowledged_iff.mp hn
  obtain ⟨i, response, hturn, hrunning, -⟩ := running_of_committed (hanswer.symm.trans hcommitted)
  simp only [notified, hturn, hrunning, hcall]

/-- As long as no payment comes after a failure of its order, every acknowledged payment is credited once. -/
theorem payments_credited (turns : List BillingTurn) (hintime : PaidInTime (billingMachine.log ⟨.initial, []⟩ turns)) :
    PaymentsCredited (billingMachine.log ⟨.initial, []⟩ turns) (billingMachine.run ⟨.initial, []⟩ turns).committed := by
  have hvalid := (interleaved_sound billingProgram_keeps turns billing_initial_sound).1.inv
  have hpayments : Payments (billingMachine.run ⟨.initial, []⟩ turns).committed
      (billingMachine.log ⟨.initial, []⟩ turns) := by
    refine interleaved_history billingProgram_keeps (I := Payments) ?_ turns billing_initial_sound ⟨?_, ?_⟩
    · intro past s turn answer _ _ hanswer hpast
      exact hpast.step (e := ⟨s, turn, answer⟩) rfl hanswer
    · exact fun e he => absurd he List.not_mem_nil
    · exact fun e he => absurd he List.not_mem_nil
  refine ⟨fun n hn => ?_, hpayments.justified⟩
  obtain ⟨e, he, hn⟩ := List.mem_filterMap.mp hn
  rcases hpayments.settled e he n hn with ⟨order, horder, hfailed⟩ | ⟨order, horder, hstatus⟩
  · obtain ⟨t, channel, now, order', -, -, horder', hpaid, hamount⟩ := acknowledged_iff.mp hn
    rw [horder] at horder'
    cases horder'
    exact absurd hfailed (hintime e he n (notified_of_acknowledged (Machine.answer_eq he) hn) hpaid order horder hamount)
  · exact hvalid.creditedOnce horder hstatus

end Calls

/-! ## A payment after a failure -/

/-- Hashes that keep the text, and a provider for every channel. -/
scoped instance plainBilling : BillingSetup where
  hashToken text := 'h' :: text
  hashToken_ne_nil _ := List.cons_ne_nil _ _
  channelRegistered _ := true

def oneByOne (response : RefundResponse) (calls : List BillingCall) : List BillingTurn :=
  calls.flatMap fun call => .start call :: List.replicate 10 (.advance 0 response)

def sampleOrder (notifications : List Bool) : List BillingCall :=
  .register 1 none :: .checkout "A1".toList 1 990 "card".toList ::
    notifications.map fun paid => .handleWebhook "card".toList (some ⟨"A1".toList, "T".toList, paid, 990⟩) 0

/-- The notification of a payment arrives twice. -/
theorem payments_credited_twice_notified :
    (billingMachine.log ⟨.initial, []⟩ (oneByOne .error (sampleOrder [true, true]))).filterMap acknowledged ≠ [] ∧
      PaymentsCredited (billingMachine.log ⟨.initial, []⟩ (oneByOne .error (sampleOrder [true, true])))
        (billingMachine.run ⟨.initial, []⟩ (oneByOne .error (sampleOrder [true, true]))).committed :=
  ⟨by decide +kernel, payments_credited _ (by decide +kernel)⟩

/-- An attempt to pay fails, the next one succeeds: it is acknowledged, and no day is credited. -/
theorem payment_after_failure_lost :
    ¬ PaymentsCredited (billingMachine.log ⟨.initial, []⟩ (oneByOne .error (sampleOrder [false, true])))
      (billingMachine.run ⟨.initial, []⟩ (oneByOne .error (sampleOrder [false, true]))).committed := by
  intro h
  have hcredited := h.1 ⟨"A1".toList, "T".toList, true, 990⟩ (by decide +kernel)
  exact absurd hcredited.1 (by decide +kernel)

end Lumio.Control
