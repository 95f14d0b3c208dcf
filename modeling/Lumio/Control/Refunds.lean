import Lumio.Control.Accounts

/-!
# Refunds over whole runs

The provider is asked in the middle of a transaction. What it has executed and what is committed agree as long as no
transaction fails after a success of the provider.
-/

namespace Lumio.Control

open RowStore

abbrev BillingRunning :=
  Tx.Running BillingStore BillingKey BillingWrite RefundRequest RefundResponse BillingAnswer BillingCall

/-! ## What a log says -/

def executed (e : BillingEntry) : Option Text :=
  match e.answer with
  | .asked _ request response => if response.succeeded then some request.orderNo else none
  | _ => none

def refundFailed (e : BillingEntry) : Prop :=
  ∃ t allowed orderNo reason refundId now, t.call = .refundOrder allowed orderNo reason refundId now ∧
    ((∃ error, e.answer = .committed t (.error error)) ∨ (∃ answer, e.answer = .rolledBack t answer) ∨ e.answer = .aborted t)

structure Untouched (s t : BillingStore) : Prop where
  orders : ∀ orderNo, t.orders.lookup orderNo = s.orders.lookup orderNo
  subscriptions : t.subscriptions = s.subscriptions
  events : t.events = s.events

theorem executed_iff {e : BillingEntry} {orderNo : Text} : executed e = some orderNo ↔ ∃ t request response,
    e.answer = .asked t request response ∧ response.succeeded = true ∧ request.orderNo = orderNo := by
  unfold executed
  split
  · rename_i t request response hanswer
    constructor
    · intro h
      split at h
      · rename_i hsucceeded
        exact ⟨t, request, response, hanswer, hsucceeded, Option.some.inj h⟩
      · cases h
    · rintro ⟨t', request', response', hanswer', hsucceeded, rfl⟩
      rw [hanswer] at hanswer'
      cases hanswer'
      rw [if_pos hsucceeded]
  · rename_i hother
    constructor
    · nofun
    · rintro ⟨t, request, response, hanswer, -⟩
      exact absurd hanswer (hother t request response)

theorem BillingStore.Valid.revoked_iff {s : BillingStore} (h : s.Valid) (orderNo : Text) :
    0 < s.refCount .refundRevoke (.order orderNo) ↔
      ∃ order, s.orders.lookup orderNo = some order ∧ order.status = .refunded := by
  have hcounts := h.orders.counts orderNo
  cases horder : s.orders.lookup orderNo with
  | none =>
    rw [horder] at hcounts
    simp only [Option.map_none, BillingStore.booked, Option.some.injEq, Prod.mk.injEq] at hcounts
    simp [← hcounts.2]
  | some order =>
    rw [horder] at hcounts
    cases hstatus : order.status <;>
      simp only [Option.map_some, hstatus, BillingStore.booked, Option.some.injEq, Prod.mk.injEq, reduceCtorEq] at hcounts <;>
      simp [← hcounts.2, hstatus]

section Calls

variable [BillingSetup]

structure RefundsSafe (log : List BillingEntry) (s : BillingStore) : Prop where
  leaves : ∀ e ∈ log, ∀ orderNo order, e.before.committed.orders.lookup orderNo = some order → order.status = .paid →
    ∃ order', (billingMachine.step e.before e.call).1.committed.orders.lookup orderNo = some order' ∧
      (order'.status = .paid ∨ order'.status = .refunded)
  revoked : ∀ orderNo, 0 < s.refCount .refundRevoke (.order orderNo) ↔
    ∃ order, s.orders.lookup orderNo = some order ∧ order.status = .refunded
  failed : ∀ e ∈ log, refundFailed e → Untouched e.before.committed (billingMachine.step e.before e.call).1.committed
  once : (log.filterMap executed).Nodup

def FinishesRefunds (s : BillingState) : BillingTurn → Prop
  | .abort i => ∀ t ∈ s.running[i]?, ∀ x ∈ t.done.asked, x.2.succeeded = false
  | _ => True

instance (s : BillingState) (turn : BillingTurn) : Decidable (FinishesRefunds s turn) :=
  match turn with
  | .abort i => inferInstanceAs (Decidable (∀ t ∈ s.running[i]?, ∀ x ∈ t.done.asked, x.2.succeeded = false))
  | .start _ => inferInstanceAs (Decidable True)
  | .advance _ _ => inferInstanceAs (Decidable True)

structure Executions (s : BillingState) (log : List BillingEntry) : Prop where
  kept : ∀ orderNo ∈ log.filterMap executed,
    (∃ order, s.committed.orders.lookup orderNo = some order ∧ order.status = .refunded) ∨
      ∃ t ∈ s.running, .order orderNo ∈ t.done.locked ∧ ∃ x ∈ t.done.asked, x.1.orderNo = orderNo ∧ x.2.succeeded = true
  once : (log.filterMap executed).Nodup

theorem promised_of_asked {s : BillingState} {turn : BillingTurn} {t : BillingRunning} {request : RefundRequest}
    {response : RefundResponse}
    (h : billingContract.Promised s.committed ((billingRows.interleaved billingProgram).step s turn).2)
    (hanswer : (billingMachine.entry s turn).answer = .asked t request response) :
    billingContract.Asks t.call t.since s.committed t.done request response := by
  have heq : ((billingRows.interleaved billingProgram).step s turn).2 = .asked t request response := hanswer
  rw [heq] at h
  exact h

theorem billing_step_committed (s : BillingState) (turn : BillingTurn) :
    (billingMachine.step s turn).1.committed = billingRows.after s.committed (billingMachine.step s turn).2 :=
  step_committed s turn

theorem Executions.step {s : BillingState} {log : List BillingEntry} (h : Executions s log)
    (hs : billingRows.Sound billingContract s) (turn : BillingTurn) (hturn : FinishesRefunds s turn) :
    Executions (billingMachine.step s turn).1 (log ++ [billingMachine.entry s turn]) := by
  obtain ⟨-, hpromised⟩ := step_sound billingProgram_keeps hs turn
  have hcommitted := @step_committed _ _ _ _ _ _ _ billingRows billingProgram _ s turn
  have hevolves := billing_after_evolves hpromised
  rw [← hcommitted] at hevolves
  constructor
  · refine Machine.forall_filterMap_append (fun orderNo hmem => ?_) fun orderNo hexecuted => ?_
    · rcases h.kept orderNo hmem with ⟨order, horder, hrefunded⟩ | ⟨t, ht, hlocked, x, hx, hno, hsucceeded⟩
      · obtain ⟨order', horder', -, -, -, hstep⟩ := hevolves.orders _ _ horder
        rw [hrefunded] at hstep
        exact .inl ⟨order', horder', hstep⟩
      · rcases @goes_on_or_ends _ _ _ _ _ _ _ billingRows billingProgram _ _ _ ht turn with
          ⟨t', ht', hlocked', hasked'⟩ | ⟨answer, hend⟩ | ⟨answer, hend⟩ | hend
        · exact .inr ⟨t', ht', hlocked' _ hlocked, x, hasked' x hx, hno, hsucceeded⟩
        · -- the commit has marked the order as refunded
          rw [hend] at hpromised hcommitted
          obtain ⟨order, horder, hrefunded⟩ := hpromised.2.2.executed x hx hsucceeded
          rw [hno] at horder
          refine .inl ⟨order, ?_, hrefunded⟩
          rw [← horder]
          exact congrArg (fun c => c.orders.lookup orderNo) hcommitted
        · rw [hend] at hpromised
          rw [hpromised.2 x hx] at hsucceeded
          cases hsucceeded
        · obtain ⟨i, rfl, hi⟩ := running_of_aborted hend
          rw [hturn t hi x hx] at hsucceeded
          cases hsucceeded
    · obtain ⟨t, request, response, hanswer, hsucceeded, rfl⟩ := executed_iff.mp hexecuted
      obtain ⟨i, hi, t', ht', hdone⟩ := @running_of_asked _ _ _ _ _ _ _ billingRows billingProgram _ _ _ _ _ _ hanswer
      have hasks := promised_of_asked hpromised hanswer
      refine .inr ⟨t', ht', ?_, (request, response), ?_, rfl, hsucceeded⟩
      · rw [hdone]
        exact hasks.2.1
      · rw [hdone]
        simp [Tx.Done.exchanged]
  · rw [List.filterMap_append, List.nodup_append]
    refine ⟨h.once, ?_, fun orderNo hold other hnew heq => ?_⟩
    · cases hexecuted : executed (billingMachine.entry s turn) <;> simp [hexecuted]
    · -- the order is paid and held by who asks, so nobody else has asked about it
      obtain ⟨e, he, hexecuted⟩ := List.mem_filterMap.mp hnew
      rw [List.mem_singleton.mp he] at hexecuted
      obtain ⟨t, request, response, hanswer, hsucceeded, rfl⟩ := executed_iff.mp hexecuted
      obtain ⟨i, hi, -⟩ := @running_of_asked _ _ _ _ _ _ _ billingRows billingProgram _ _ _ _ _ _ hanswer
      obtain ⟨hnothing, hlocked, order, horder, hpaid⟩ := promised_of_asked hpromised hanswer
      rcases h.kept orderNo hold with ⟨order', horder', hrefunded⟩ | ⟨t', ht', hlocked', x, hx, -⟩
      · rw [heq, horder] at horder'
        cases horder'
        rw [hpaid] at hrefunded
        cases hrefunded
      · rw [heq] at hlocked'
        obtain rfl := hs.holder hi ht' hlocked hlocked'
        rw [hnothing] at hx
        cases hx

theorem untouched_of_failed {s : BillingState} {turn : BillingTurn}
    (hpromised : billingContract.Promised s.committed (billingMachine.step s turn).2)
    (hfailed : refundFailed (billingMachine.entry s turn)) :
    Untouched s.committed (billingMachine.step s turn).1.committed := by
  obtain ⟨t, allowed, orderNo, reason, refundId, now, hcall, hend⟩ := hfailed
  rw [billing_step_committed]
  rcases hend with ⟨error, hend⟩ | ⟨answer, hend⟩ | hend
  · replace hend : (billingMachine.step s turn).2 = .committed t (.error error) := hend
    rw [hend] at hpromised ⊢
    obtain ⟨horders, hsubscriptions, hevents⟩ :=
      hpromised.2.2.declined allowed orderNo reason refundId now error hcall rfl
    exact ⟨horders, hsubscriptions, hevents⟩
  · replace hend : (billingMachine.step s turn).2 = .rolledBack t answer := hend
    rw [hend]
    exact ⟨fun _ => rfl, rfl, rfl⟩
  · replace hend : (billingMachine.step s turn).2 = .aborted t := hend
    rw [hend]
    exact ⟨fun _ => rfl, rfl, rfl⟩

/-- As long as every refund that the provider has executed is carried through, refunds are safe. -/
theorem refunds_safe (turns : List BillingTurn) (hfinishes : billingMachine.Meets FinishesRefunds ⟨.initial, []⟩ turns) :
    RefundsSafe (billingMachine.log ⟨.initial, []⟩ turns) (billingMachine.run ⟨.initial, []⟩ turns).committed := by
  obtain ⟨hsound, hpromised⟩ := interleaved_sound billingProgram_keeps turns billing_initial_sound
  have hexecutions : Executions (billingMachine.run ⟨.initial, []⟩ turns) (billingMachine.log ⟨.initial, []⟩ turns) := by
    refine (Machine.invariant (C := FinishesRefunds)
      (I := fun s past => billingRows.Sound billingContract s ∧ Executions s past) ?_ hfinishes
      ⟨billing_initial_sound, ⟨fun _ h => absurd h List.not_mem_nil, List.nodup_nil⟩⟩).2
    intro s past turn hturn hs
    exact ⟨(step_sound billingProgram_keeps hs.1 turn).1, hs.2.step hs.1 turn hturn⟩
  refine ⟨?_, hsound.inv.revoked_iff, ?_, hexecutions.once⟩
  · intro e he orderNo order horder hpaid
    have hevolves := billing_after_evolves (hpromised e he).2
    have hanswer := Machine.answer_eq he
    rw [hanswer, ← billing_step_committed] at hevolves
    obtain ⟨order', horder', -, -, -, hstep⟩ := hevolves.orders _ _ horder
    rw [hpaid] at hstep
    exact ⟨order', horder', hstep⟩
  · intro e he hfailed
    have hanswer := Machine.answer_eq he
    have hpromised' := (hpromised e he).2
    rw [hanswer] at hpromised'
    refine untouched_of_failed hpromised' ?_
    have hentry : e = billingMachine.entry e.before e.call := by
      obtain ⟨before, call, answer⟩ := e
      exact congrArg (Machine.Entry.mk before call) hanswer
    rw [hentry] at hfailed
    exact hfailed

end Calls

/-! ## A refund that is executed twice -/

/-- A paid order is refunded: the provider answers, and the transaction goes on for some turns. -/
def refundTurns (refundId : Int) (response : RefundResponse) (turns : Nat) : List BillingTurn :=
  .start (.refundOrder true "A1".toList [] refundId 0) :: List.replicate turns (.advance 0 response)

/-- The provider declines, then it refunds. -/
theorem refunds_safe_after_decline :
    RefundsSafe
      (billingMachine.log ⟨.initial, []⟩ (oneByOne .error (sampleOrder [true]) ++
        refundTurns 1 (.answered [] false) 7 ++ refundTurns 2 (.answered [] true) 10))
      (billingMachine.run ⟨.initial, []⟩ (oneByOne .error (sampleOrder [true]) ++
        refundTurns 1 (.answered [] false) 7 ++ refundTurns 2 (.answered [] true) 10)).committed :=
  refunds_safe _ (by decide +kernel)

/-- The provider refunds, the database gives up the transaction, and the order is refunded again. -/
theorem refund_executed_twice :
    ¬ RefundsSafe
      (billingMachine.log ⟨.initial, []⟩ (oneByOne .error (sampleOrder [true]) ++
        refundTurns 1 (.answered [] true) 5 ++ ([.abort 0] : List BillingTurn) ++ refundTurns 2 (.answered [] true) 10))
      (billingMachine.run ⟨.initial, []⟩ (oneByOne .error (sampleOrder [true]) ++
        refundTurns 1 (.answered [] true) 5 ++ ([.abort 0] : List BillingTurn) ++ refundTurns 2 (.answered [] true) 10)).committed := by
  intro h
  exact absurd h.once (by decide +kernel)

end Lumio.Control
