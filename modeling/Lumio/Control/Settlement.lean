import Lumio.Control.Ledger

/-!
# Settlements, payments and refunds side by side

What the calls promise each other. From this follows that the ledger is right in every state that an interleaving
reaches.
-/

namespace Lumio.Control

open RowStore

def RefundResponse.succeeded : RefundResponse → Bool
  | .answered _ succeeded => succeeded
  | .error => false

abbrev BillingDone := Tx.Done BillingKey BillingWrite RefundRequest RefundResponse

/-- Above the writes of the transaction so far, the row is as it was read and the event is not there. -/
structure Ready (s : BillingStore) (ws : List BillingWrite) (g : Grant) (sub : Subscription) (now : Int) : Prop where
  row : (billingRows.view s ws).subscriptions.lookup g.userId = some sub
  fresh : (billingRows.view s ws).hasEvent (g.event sub now) = false

structure Grant.Held (g : Grant) (sub : Subscription) (now : Int) (locked : List BillingKey) : Prop where
  row : .subscription g.userId ∈ locked
  indexes : ∀ k ∈ (g.event sub now).indexes, k ∈ locked

theorem Ready.same {s t : BillingStore} {ws : List BillingWrite} {g : Grant} {sub : Subscription} {now : Int}
    {locked : List BillingKey} (h : Ready s ws g sub now) (hheld : g.Held sub now locked) (hsame : ∀ k ∈ locked, k.Same s t) :
    Ready t ws g sub now := by
  have hrow : (billingRows.view t ws).subscriptions.lookup g.userId = (billingRows.view s ws).subscriptions.lookup g.userId :=
    (hsame _ hheld.row).view ws
  exact ⟨hrow.trans h.row, hasEvent_same (fun k hk => (hsame k (hheld.indexes k hk)).view ws) h.fresh⟩

theorem view_credit {d d' : BillingDone} {g : Grant} {sub : Subscription} {now : Int}
    (h : d.Grown d' [.event (g.event sub now), .subscription g.userId (g.update sub now sub)]) (s : BillingStore) :
    billingRows.view s d'.writes = (billingRows.view s d.writes).credit g sub now := by
  rw [h.writes, view, List.foldl_append]
  rfl

def refundWrites (orderNo : Text) (refundId : Int) (refunding order : Order) (r r' : Refund) : List BillingWrite :=
  [.order orderNo refunding, .refund refundId r, .refund refundId r', .order orderNo order]

theorem view_refundWrites (t : BillingStore) (orderNo : Text) (refundId : Int) (refunding order : Order) (r r' : Refund) :
    billingRows.view t (refundWrites orderNo refundId refunding order r r') =
      { t with
        orders := t.orders.insert orderNo order
        refunds := (t.refunds.insert refundId r).insert refundId r' } := by
  simp [view, refundWrites, billingRows, AList.insert_insert]

section Calls

variable [BillingSetup]

open BillingSetup

/-- What a call has done when it commits, between the state before and the state after. -/
structure BillingPromise (call : BillingCall) (s t : BillingStore) (asked : List (RefundRequest × RefundResponse))
    (answer : BillingAnswer) : Prop where
  /-- A purchase is credited for a notification of its amount. -/
  purchases : ∀ e ∈ t.events, e.type = .purchase → e ∈ s.events ∨ ∃ channel n now order,
    call = .handleWebhook channel (some n) now ∧ n.paid = true ∧ answer = .ok ∧ e.ref = some (.order n.orderNo) ∧
      s.orders.lookup n.orderNo = some order ∧ n.amount = order.amountCents
  /-- An order that has been paid is credited, unless it had failed before. -/
  acknowledged : ∀ channel n now, call = .handleWebhook channel (some n) now → answer = .ok → n.paid = true →
    ∃ order order', s.orders.lookup n.orderNo = some order ∧ t.orders.lookup n.orderNo = some order' ∧
      (order.status = .failed ∨ order'.status = .paid ∨ order'.status = .refunded)
  device : ∀ input cfg now result, call = .settle input cfg now → answer = .activated result →
    result.trialGranted = true → input.deviceId ≠ [] →
      t.fingerprints.lookup ⟨"device".toList, hashToken input.deviceId⟩ = some input.userId
  executed : ∀ x ∈ asked, x.2.succeeded = true →
    ∃ order, t.orders.lookup x.1.orderNo = some order ∧ order.status = .refunded
  /-- A refund that fails leaves everything as it was. -/
  declined : ∀ allowed orderNo reason refundId now e, call = .refundOrder allowed orderNo reason refundId now →
    answer = .error e → (∀ no, t.orders.lookup no = s.orders.lookup no) ∧ t.subscriptions = s.subscriptions ∧
      t.events = s.events

/-- While a transaction holds locks, the tables evolve and the locked rows stay. The provider is asked about an order
that is paid and held. -/
def billingContract :
    Contract BillingStore BillingKey BillingWrite RefundRequest RefundResponse BillingAnswer BillingCall where
  Inv := BillingStore.Valid
  Rely locked s t := s.Evolves t ∧ ∀ k ∈ locked, k.Same s t
  Commits call _ s d answer := (billingRows.view s d.writes).Valid ∧ s.Evolves (billingRows.view s d.writes) ∧
    BillingPromise call s (billingRows.view s d.writes) d.asked answer
  RollsBack _ _ _ d answer := (∃ e, answer = .error e) ∧ ∀ x ∈ d.asked, x.2.succeeded = false
  Asks _ _ s d request _ := d.asked = [] ∧ .order request.orderNo ∈ d.locked ∧
    ∃ order, s.orders.lookup request.orderNo = some order ∧ order.status = .paid

section Safe

variable {call : BillingCall} {since s t u : BillingStore} {d d' : BillingDone} {more : List BillingWrite}

theorem rely_trans (h : billingContract.Rely d.locked s t) (hgrown : d.Grown d' more)
    (h' : billingContract.Rely d'.locked t u) : billingContract.Rely d.locked s u :=
  ⟨h.1.trans h'.1, fun k hk => (h.2 k hk).trans (h'.2 k (hgrown.locked k hk))⟩

theorem safe_rollback {e : BillingError} (h : ∀ x ∈ d.asked, x.2.succeeded = false) :
    billingRows.Safe billingContract call since (.rollback (.error e)) s d := fun _ _ _ => ⟨⟨e, rfl⟩, h⟩

theorem safe_rollback_unasked {e : BillingError} (h : d.asked = []) :
    billingRows.Safe billingContract call since (.rollback (.error e)) s d := by
  refine safe_rollback ?_
  rw [h]
  simp

/-! ## Changes of a subscription -/

theorem safe_applyDays {g : Grant} {now : Int} {settled : BillingTx} {next : Int → BillingTx}
    (hmissing : ∀ t, t.Valid → billingContract.Rely d.locked s t →
      (billingRows.view t d.writes).subscriptions.lookup g.userId = none → ∀ x ∈ d.asked, x.2.succeeded = false)
    (hsettled : ∀ t d' sub, t.Valid → billingContract.Rely d.locked s t → d.Grown d' [] →
      (billingRows.view t d.writes).hasEvent (g.event sub now) = true →
      billingRows.Safe billingContract call since settled t d')
    (hnext : ∀ t d' sub, t.Valid → billingContract.Rely d.locked s t →
      d.Grown d' [.event (g.event sub now), .subscription g.userId (g.update sub now sub)] → g.Held sub now d'.locked →
      Ready t d.writes g sub now →
      billingRows.Safe billingContract call since (next (extendFrom sub.expiresAt now g.days)) t d') :
    billingRows.Safe billingContract call since (applyDays g now settled next) s d := by
  refine safe_lock _ _ fun t ht hrely => ?_
  split
  · rename_i hnone
    exact safe_rollback (hmissing t ht hrely hnone)
  · rename_i sub hrow
    have hgrown := Tx.Done.Grown.holding d [BillingKey.subscription g.userId]
    have hlocked : BillingKey.subscription g.userId ∈ (d.holding [BillingKey.subscription g.userId]).locked := by
      simp [Tx.Done.holding]
    refine safe_insert _ _ (fun u hu hrely' hpresent => ?_) fun u hu hrely' hfresh => ?_
    · refine hsettled u _ sub hu (rely_trans hrely hgrown hrely') ?_ hpresent
      exact hgrown.trans (.holding _ _)
    · refine safe_exec _ _ fun v ws hv hrely'' hws => ?_
      have hgrown' := hgrown.trans (Tx.Done.Grown.wrote (d.holding [BillingKey.subscription g.userId])
        ((g.event sub now).indexes ++ billingRows.rows (.event (g.event sub now))) [BillingWrite.event (g.event sub now)])
      have hrow' : (billingRows.view v d.writes).subscriptions.lookup g.userId = some sub := by
        have hsame := (hrely'.2 _ hlocked).trans (hrely''.2 _ (by simp [Tx.Done.wrote, hlocked]))
        exact Eq.trans (hsame.view d.writes) hrow
      have hready : Ready v d.writes g sub now := by
        refine ⟨hrow', hasEvent_same (fun k hk => ?_) hfresh⟩
        exact (hrely''.2 k (by simp [Tx.Done.wrote, hk])).view d.writes
      have hseen : (billingRows.view v (d.writes ++ [BillingWrite.event (g.event sub now)])).subscriptions.lookup g.userId = some sub := by
        rw [view, List.foldl_append]
        exact hrow'
      simp only [Tx.Done.wrote, Tx.Done.holding, BillingStore.updateSubscription, hseen] at hws
      subst hws
      refine hnext v _ sub hv (rely_trans (rely_trans hrely hgrown hrely') hgrown' hrely'') ?_ ⟨?_, fun k hk => ?_⟩ hready
      · exact hgrown'.trans (.wrote _ _ _)
      · simp [Tx.Done.wrote, hlocked]
      · simp [Tx.Done.wrote, hk]

/-! ## Users and orders -/

theorem promise_plain (hevents : t.events = s.events) (hcall : (∃ userId inviter, call = .register userId inviter) ∨
    ∃ orderNo userId amountCents channel, call = .checkout orderNo userId amountCents channel) :
    BillingPromise call s t [] .ok := by
  refine ⟨fun e he _ => .inl (hevents ▸ he), ?_, ?_, nofun, ?_⟩
  · rcases hcall with ⟨_, _, rfl⟩ | ⟨_, _, _, _, rfl⟩ <;> exact nofun
  · exact nofun
  · exact nofun

theorem safe_createAttribution {userId : Int} {inviter : Option (Int × Int)} (hasked : d.asked = [])
    (hview : ∀ t, t.Valid → (∀ k ∈ d.locked, k.Same s t) → (billingRows.view t d.writes).Valid ∧
      t.Evolves (billingRows.view t d.writes) ∧ (billingRows.view t d.writes).events = t.events) :
    billingRows.Safe billingContract (.register userId inviter) since (createAttribution userId inviter) s d := by
  have hnothing : ∀ x ∈ d.asked, x.2.succeeded = false := by simp [hasked]
  cases inviter with
  | none =>
    intro t ht hrely
    obtain ⟨hvalid, hevolves, hevents⟩ := hview t ht hrely.2
    refine ⟨hvalid, hevolves, ?_⟩
    rw [hasked]
    exact promise_plain hevents (.inl ⟨_, _, rfl⟩)
  | some row =>
    rw [createAttribution]
    split
    · exact safe_rollback hnothing
    · refine safe_insert _ _ (fun t ht hrely _ => safe_rollback hnothing) fun t ht hrely hfresh u hu hrely' => ?_
      rw [Bool.or_eq_false_iff, Option.isSome_eq_false_iff, Option.isNone_iff_eq_none] at hfresh
      have hgrown := Tx.Done.Grown.wrote d
        ([BillingKey.attribution row.1, .invitee userId] ++
          billingRows.rows (.attribution row.1 ⟨row.2, userId, .registered, false, 0, none⟩))
        [BillingWrite.attribution row.1 ⟨row.2, userId, .registered, false, 0, none⟩]
      obtain ⟨hvalid, hevolves, hevents⟩ := hview u hu (rely_trans hrely hgrown hrely').2
      have hnone : (billingRows.view u d.writes).attributions.lookup row.1 = none := by
        have hsame := (hrely'.2 (.attribution row.1) (by simp [Tx.Done.wrote])).view d.writes
        exact Eq.trans hsame hfresh.1
      simp only [billingContract, Tx.Done.wrote, view, List.foldl_append, hasked]
      exact ⟨hvalid.attribution hnone rfl, ⟨hevolves.events, hevolves.orders, hevolves.fingerprints⟩,
        promise_plain hevents (.inl ⟨_, _, rfl⟩)⟩

theorem safe_register (userId : Int) (inviter : Option (Int × Int)) (since : BillingStore) :
    billingRows.Safe billingContract (.register userId inviter) since (register userId inviter) since .nothing := by
  refine safe_insert _ _ (fun s hs _ _ => safe_rollback nofun) fun s hs hrely hnew => ?_
  refine safe_insert _ _ (fun t ht hrely' _ => safe_createAttribution rfl fun u hu hsame => ?_)
    fun t ht hrely' habsent => safe_createAttribution rfl fun u hu hsame => ?_
  · exact ⟨hu.of_tables rfl rfl rfl rfl, ⟨List.prefix_refl _, .refl OrderStep.refl _, .refl (fun _ => rfl) _⟩, rfl⟩
  · have hnone : u.subscriptions.lookup userId = none := by
      have hrow : u.subscriptions.lookup userId = t.subscriptions.lookup userId :=
        hsame (.subscription userId) (by simp [Tx.Done.wrote])
      rw [hrow]
      simpa [Tx.Done.wrote, Tx.Done.nothing, view, billingRows] using habsent
    exact ⟨(hu.subscription hnone).of_tables rfl rfl rfl rfl, ⟨List.prefix_refl _, .refl OrderStep.refl _, .refl (fun _ => rfl) _⟩, rfl⟩

theorem safe_checkout (orderNo : Text) (userId amountCents : Int) (channel : Text) (since : BillingStore) :
    billingRows.Safe billingContract (.checkout orderNo userId amountCents channel) since
      (checkout orderNo userId amountCents channel) since .nothing := by
  refine safe_insert _ _ (fun s hs _ _ => safe_rollback_unasked rfl) fun s hs hrely hnew t ht hrely' => ?_
  have hnone : t.orders.lookup orderNo = none := by
    have hrow : t.orders.lookup orderNo = s.orders.lookup orderNo := hrely'.2 (.order orderNo) (by simp [Tx.Done.wrote])
    rw [hrow]
    simpa [Tx.Done.nothing, view] using hnew
  refine ⟨ht.order hnone (by simp) rfl, ⟨List.prefix_refl _, .insert OrderStep.refl fun old hold => ?_,
    .refl (fun _ => rfl) _⟩, promise_plain rfl (.inr ⟨_, _, _, _, rfl⟩)⟩
  rw [hnone] at hold
  cases hold

/-! ## Payments -/

variable {order : Order}

theorem safe_recorded {channel : Text} {n : Notification} {now : Int} {answer : BillingAnswer}
    (hlocked : .order n.orderNo ∈ d.locked) (hasked : d.asked = []) (hwrites : d.writes = [])
    (horder : s.orders.lookup n.orderNo = some order) (hs : s.Valid)
    (hanswer : answer = .ok → n.paid = true → order.status ≠ .pending) :
    billingRows.Safe billingContract (.handleWebhook channel (some n) now) since (.commit answer) s d := by
  intro t ht hrely
  have hsame : t.orders.lookup n.orderNo = s.orders.lookup n.orderNo := hrely.2 _ hlocked
  simp only [billingContract, hwrites, hasked]
  refine ⟨ht, .refl t, fun e he _ => .inl he, ?_, nofun, nofun, nofun⟩
  intro channel' n' now' hcall hok hpaid
  cases hcall
  refine ⟨order, order, hsame.trans horder, hsame.trans horder, ?_⟩
  have hcounts := hs.refCounts horder
  cases hstatus : order.status with
  | pending => exact absurd hstatus (hanswer hok hpaid)
  | paid => exact .inr (.inl rfl)
  | refunding =>
    rw [hstatus] at hcounts
    cases hcounts
  | refunded => exact .inr (.inr rfl)
  | failed => exact .inl rfl

theorem safe_creditPurchase {channel : Text} {n : Notification} {now : Int} {order' : Order} (hasked : d.asked = [])
    (hwrites : d.writes = [.order n.orderNo order']) (hlocked : .order n.orderNo ∈ d.locked)
    (horder : s.orders.lookup n.orderNo = some order) (hpending : order.status = .pending) (hpaid : n.paid = true)
    (hamount : n.amount = order.amountCents) (hstep : OrderStep order order') (hstatus : order'.status = .paid) :
    billingRows.Safe billingContract (.handleWebhook channel (some n) now) since
      (creditPurchase order.userId n.orderNo order.periodMonths now (.commit .ok)) s d := by
  have hkept : ∀ t, billingContract.Rely d.locked s t → t.orders.lookup n.orderNo = some order := fun t hrely =>
    Eq.trans (hrely.2 _ hlocked) horder
  refine safe_applyDays (fun _ _ _ _ => by simp [hasked]) (fun t d' sub ht hrely _ hpresent => ?_)
    fun t d' sub ht hrely hgrown hheld hready u hu hrely' => ?_
  · -- a pending order has no purchase yet
    have hcounts := ht.refCounts (hkept t hrely)
    simp only [hpending, BillingStore.booked, Option.some.injEq, Prod.mk.injEq] at hcounts
    rw [hwrites] at hpresent
    have hfresh := BillingStore.hasEvent_of_refCount (g := .purchase order.userId n.orderNo order.periodMonths)
      sub now rfl (fun h => by cases h) hcounts.1.symm
    exact absurd (hpresent.symm.trans hfresh) (by decide)
  · have hready' := hready.same hheld hrely'.2
    have horder' := hkept u (rely_trans hrely hgrown hrely')
    rw [hwrites] at hready'
    have hvalid := hu.charge (g := .purchase order.userId n.orderNo order.periodMonths) horder' hstep.1 hstep.2.2.1
      ⟨rfl, rfl, fun _ => rfl⟩ (.inl ⟨rfl, hpending, hstatus⟩) hready'.row hready'.fresh
    simp only [billingContract, hgrown.writes, hgrown.asked, hwrites, hasked]
    refine ⟨hvalid, ⟨List.prefix_append _ _, .insert OrderStep.refl fun old hold => ?_, .refl (fun _ => rfl) _⟩, ?_, ?_,
      by simp, by simp, by simp⟩
    · rw [horder'] at hold
      cases hold
      exact hstep
    · intro e he _
      rcases List.mem_append.mp he with he | he
      · exact .inl he
      · rw [List.mem_singleton.mp he]
        exact .inr ⟨channel, n, now, order, rfl, hpaid, rfl, rfl, horder', hamount⟩
    · intro channel' n' now' hcall _ _
      cases hcall
      exact ⟨order, order', horder', AList.lookup_insert _, .inr (.inl hstatus)⟩

theorem safe_handleWebhook (channel : Text) (notification : Option Notification) (now : Int) (since : BillingStore) :
    billingRows.Safe billingContract (.handleWebhook channel notification now) since
      (handleWebhook channel notification now) since .nothing := by
  unfold handleWebhook
  split
  · exact safe_rollback_unasked rfl
  · split
    · exact safe_rollback_unasked rfl
    · rename_i n
      refine safe_lock _ _ fun s hs hrely => ?_
      split
      · exact safe_rollback_unasked rfl
      · rename_i order horder
        replace horder : s.orders.lookup n.orderNo = some order := horder
        have hlocked : BillingKey.order n.orderNo ∈ (Tx.Done.nothing.holding [BillingKey.order n.orderNo] : BillingDone).locked := by
          simp [Tx.Done.holding]
        split
        · rename_i hunpaid
          split
          · rename_i hpending
            refine safe_exec _ _ fun t ws ht hrely' hws => ?_
            have horder' : t.orders.lookup n.orderNo = some order := Eq.trans (hrely'.2 _ hlocked) horder
            obtain rfl := (BillingStore.updateOrderStatus_eq horder' .failed none none).symm.trans hws
            intro u hu hrely''
            have horder'' : u.orders.lookup n.orderNo = some order :=
              Eq.trans (hrely''.2 (.order n.orderNo) (by simp [Tx.Done.wrote, hlocked])) horder'
            refine ⟨hu.order horder'' (fun o ho => ?_) ?_, ⟨List.prefix_refl _, .insert OrderStep.refl fun old hold => ?_,
              .refl (fun _ => rfl) _⟩, fun e he _ => .inl he, fun channel' n' now' hcall _ hpaid => ?_, by simp,
              fun _ h => (by cases h), by simp⟩
            · cases ho
              exact ⟨rfl, rfl⟩
            · simp [hpending, BillingStore.booked]
            · rw [horder''] at hold
              cases hold
              exact ⟨rfl, rfl, rfl, by simp [hpending, StatusStep]⟩
            · cases hcall
              simp [hpaid] at hunpaid
          · exact safe_recorded hlocked rfl rfl horder hs fun _ hpaid => by simp [hpaid] at hunpaid
        · rename_i hpaid
          simp only [Bool.not_eq_true, Bool.not_eq_false'] at hpaid
          split
          · rename_i hstatus
            exact safe_recorded hlocked rfl rfl horder hs fun _ _ => hstatus
          · rename_i hpending
            rw [not_not] at hpending
            split
            · exact safe_recorded hlocked rfl rfl horder hs (by simp)
            · rename_i hamount
              rw [not_not] at hamount
              refine safe_exec _ _ fun t ws ht hrely' hws => ?_
              have horder' : t.orders.lookup n.orderNo = some order := Eq.trans (hrely'.2 _ hlocked) horder
              obtain rfl := (BillingStore.updateOrderStatus_eq horder' .paid (some n.txnId) (some now)).symm.trans hws
              refine safe_creditPurchase rfl rfl ?_ horder' hpending hpaid hamount ⟨rfl, rfl, rfl, ?_⟩ rfl
              · simp [Tx.Done.wrote, hlocked]
              · simp [hpending, StatusStep]

/-! ## Refunds -/

theorem safe_completeRefund {orderNo : Text} {refundId : Int} {refunding : Order} {r : Refund} {p : Text}
    {status : OrderStatus} {completed : RefundStatus} {next : BillingTx}
    (hwrites : d.writes = [.order orderNo refunding, .refund refundId r])
    (hnext : ∀ t d', t.Valid → billingContract.Rely d.locked s t →
      d.Grown d' [.refund refundId { r with status := completed, providerRefundId := p },
        .order orderNo { refunding with status := status }] →
      billingRows.Safe billingContract call since next t d') :
    billingRows.Safe billingContract call since (.exec (BillingStore.completeRefund refundId completed p) fun _ =>
      .exec (BillingStore.updateOrderStatus orderNo status none none) fun _ => next) s d := by
  refine safe_exec _ _ fun t ws ht hrely hws => ?_
  simp only [hwrites, BillingStore.completeRefund, view, billingRows, List.foldl, AList.lookup_insert] at hws
  subst hws
  refine safe_exec _ _ fun u ws hu hrely' hws => ?_
  simp only [Tx.Done.wrote, hwrites, BillingStore.updateOrderStatus, view, billingRows, List.foldl, List.cons_append,
    List.nil_append, AList.lookup_insert, Option.none_or] at hws
  subst hws
  have hgrown := Tx.Done.Grown.wrote d
    ([BillingWrite.refund refundId { r with status := completed, providerRefundId := p }].flatMap billingRows.rows)
    [.refund refundId { r with status := completed, providerRefundId := p }]
  exact hnext u _ hu (rely_trans hrely hgrown hrely') (hgrown.trans (.wrote _ _ _))

theorem safe_finishRefund {allowed : Bool} {orderNo reason : Text} {refundId now : Int} {refunding : Order}
    {r : Refund} {request : RefundRequest} {response : RefundResponse} (hrequest : request.orderNo = orderNo)
    (hasked : d.asked = [(request, response)]) (hwrites : d.writes = [.order orderNo refunding, .refund refundId r])
    (hlocked : .order orderNo ∈ d.locked) (horder : s.orders.lookup orderNo = some order)
    (hpaid : order.status = .paid) (hrefunding : refunding = { order with status := .refunding }) :
    billingRows.Safe billingContract (.refundOrder allowed orderNo reason refundId now) since
      (finishRefund order orderNo refundId now response) s d := by
  have hkept : ∀ t, billingContract.Rely d.locked s t → t.orders.lookup orderNo = some order := fun t hrely =>
    Eq.trans (hrely.2 _ hlocked) horder
  cases response with
  | error => exact safe_rollback (by simp [hasked, RefundResponse.succeeded])
  | answered p succeeded =>
    cases succeeded with
    | false =>
      -- the row of the order is written as it was
      refine safe_completeRefund hwrites fun t d' ht hrely hgrown u hu hrely' => ?_
      have horder' := hkept u (rely_trans hrely hgrown hrely')
      have hrestored : ({ refunding with status := .paid } : Order) = order := by
        rw [hrefunding, ← hpaid]
      have hd : d'.writes = refundWrites orderNo refundId refunding order r
          { r with status := .failed, providerRefundId := p } := by
        rw [hgrown.writes, hwrites, hrestored]
        rfl
      simp only [billingContract, hd, view_refundWrites, hgrown.asked, hasked]
      have hvalid := @BillingStore.Valid.order _ hu _ _ order horder' (fun o ho => by cases ho; exact ⟨rfl, rfl⟩) rfl
      refine ⟨hvalid.of_tables rfl rfl rfl rfl, ⟨List.prefix_refl _, .insert OrderStep.refl fun old hold => ?_,
        .refl (fun _ => rfl) _⟩, fun e he _ => .inl he, by simp, by simp, ?_, ?_⟩
      · rw [horder'] at hold
        cases hold
        exact .refl _
      · simp [RefundResponse.succeeded]
      · intro _ _ _ _ _ _ _ _
        refine ⟨fun no => ?_, rfl, rfl⟩
        by_cases heq : no = orderNo
        · rw [heq, AList.lookup_insert, horder']
        · exact AList.lookup_insert_ne heq
    | true =>
      refine safe_completeRefund hwrites fun t d' ht hrely hgrown => ?_
      have hd : d'.writes = refundWrites orderNo refundId refunding { refunding with status := .refunded } r
          { r with status := .succeeded, providerRefundId := p } := by
        rw [hgrown.writes, hwrites]
        rfl
      refine safe_applyDays (fun u hu hrely' hnone => ?_) (fun u d'' sub hu hrely' _ hpresent => ?_)
        fun u d'' sub hu hrely' hgrown' hheld hready v hv hrely'' => ?_
      · have hsub := hu.subscribed_of_paid (hkept u (rely_trans hrely hgrown hrely')) hpaid
        rw [hd, view_refundWrites] at hnone
        replace hnone : u.subscriptions.lookup order.userId = none := hnone
        rw [hnone] at hsub
        cases hsub
      · -- a paid order has not been revoked
        have hcounts := hu.refCounts (hkept u (rely_trans hrely hgrown hrely'))
        simp only [hpaid, BillingStore.booked, Option.some.injEq, Prod.mk.injEq] at hcounts
        have hfresh := BillingStore.hasEvent_of_refCount (g := .revoke order.userId orderNo order.periodMonths)
          sub now rfl (fun h => by cases h) hcounts.2.symm
        rw [hd, view_refundWrites] at hpresent
        exact absurd (hpresent.symm.trans hfresh) (by decide)
      · have hready' := hready.same hheld hrely''.2
        have horder' := hkept v (rely_trans (rely_trans hrely hgrown hrely') (hgrown.trans hgrown') hrely'')
        rw [hd] at hready'
        obtain ⟨hrow, hfresh⟩ := hready'
        rw [view_refundWrites] at hrow hfresh
        have hvalid := @BillingStore.Valid.charge _ (.revoke order.userId orderNo order.periodMonths) _ _ hv _ _
          { refunding with status := .refunded } horder' (by rw [hrefunding]) (by rw [hrefunding])
          ⟨rfl, rfl, fun h => by cases h⟩ (.inr ⟨rfl, hpaid, rfl⟩) hrow hfresh
        have hview : billingRows.view v d''.writes = { v.credit (.revoke order.userId orderNo order.periodMonths) sub now with
            orders := v.orders.insert orderNo { refunding with status := .refunded }
            refunds := (v.refunds.insert refundId r).insert refundId
              { r with status := .succeeded, providerRefundId := p } } := by
          rw [view_credit hgrown', hd, view_refundWrites]
          rfl
        simp only [billingContract, hview, hgrown'.asked, hgrown.asked, hasked]
        refine ⟨hvalid.of_tables rfl rfl rfl rfl, ⟨List.prefix_append _ _, .insert OrderStep.refl fun old hold => ?_,
          .refl (fun _ => rfl) _⟩, fun e he htype => ?_, by simp, by simp, fun x hx _ => ?_, by simp⟩
        · rw [horder'] at hold
          cases hold
          rw [hrefunding]
          exact ⟨rfl, rfl, rfl, by simp [hpaid, StatusStep]⟩
        · rcases List.mem_append.mp he with he | he
          · exact .inl he
          · rw [List.mem_singleton.mp he] at htype
            cases htype
        · rw [List.mem_singleton.mp hx, hrequest]
          exact ⟨_, AList.lookup_insert _, rfl⟩

theorem safe_refundOrder (allowed : Bool) (orderNo reason : Text) (refundId now : Int) (since : BillingStore) :
    billingRows.Safe billingContract (.refundOrder allowed orderNo reason refundId now) since
      (refundOrder allowed orderNo reason refundId now) since .nothing := by
  unfold refundOrder
  split
  · exact safe_rollback_unasked rfl
  · refine safe_lock _ _ fun s hs hrely => ?_
    split
    · exact safe_rollback_unasked rfl
    · rename_i order horder
      replace horder : s.orders.lookup orderNo = some order := horder
      split
      · exact safe_rollback_unasked rfl
      · rename_i hpaid
        rw [not_not] at hpaid
        have hlocked : BillingKey.order orderNo ∈ (Tx.Done.nothing.holding [BillingKey.order orderNo] : BillingDone).locked := by
          simp [Tx.Done.holding]
        refine safe_exec _ _ fun t ws ht hrely' hws => ?_
        have horder' : t.orders.lookup orderNo = some order := Eq.trans (hrely'.2 _ hlocked) horder
        obtain rfl := (BillingStore.updateOrderStatus_eq horder' .refunding none none).symm.trans hws
        refine safe_insert _ _ (fun u hu hrely'' _ => safe_rollback_unasked rfl) fun u hu hrely'' _ => ?_
        dsimp only
        have horder'' : u.orders.lookup orderNo = some order :=
          Eq.trans (hrely''.2 (.order orderNo) (by simp [Tx.Done.wrote, hlocked])) horder'
        split
        · exact safe_rollback_unasked rfl
        · intro v response hv hheld
          have hkept : v.orders.lookup orderNo = some order :=
            Eq.trans (hheld.2 (.order orderNo) (by simp [Tx.Done.wrote, hlocked])) horder''
          refine ⟨⟨rfl, by simp [Tx.Done.wrote, hlocked], order, hkept, hpaid⟩, ?_⟩
          refine safe_finishRefund rfl rfl rfl ?_ hkept hpaid rfl
          simp [Tx.Done.wrote, Tx.Done.exchanged, hlocked]

/-! ## First logins -/

structure Settled (input : ActivationInput) (claimed : Bool) (s t : BillingStore) : Prop where
  valid : t.Valid
  evolves : s.Evolves t
  purchases : ∀ e ∈ t.events, e.type = .purchase → e ∈ s.events
  device : claimed = true → input.deviceId ≠ [] →
    t.fingerprints.lookup ⟨"device".toList, hashToken input.deviceId⟩ = some input.userId

structure Settling (input : ActivationInput) (claimed : Bool) (s : BillingStore) (d : BillingDone) : Prop where
  asked : d.asked = []
  view : ∀ t, t.Valid → billingContract.Rely d.locked s t → Settled input claimed t (billingRows.view t d.writes)

variable {input : ActivationInput} {cfg : OpsConfig} {now : Int} {result : ActivationResult} {claimed : Bool}

theorem Settling.weaken (h : Settling input claimed s d) : Settling input false s d := by
  refine ⟨h.asked, fun t ht hrely => ?_⟩
  obtain ⟨hvalid, hevolves, hpurchases, -⟩ := h.view t ht hrely
  exact ⟨hvalid, hevolves, hpurchases, nofun⟩

theorem Settling.grown (h : Settling input claimed s d) (hrely : billingContract.Rely d.locked s t)
    (hgrown : d.Grown d' []) : Settling input claimed t d' := by
  refine ⟨hgrown.asked.trans h.asked, fun u hu hrely' => ?_⟩
  rw [hgrown.writes, List.append_nil]
  exact h.view u hu (rely_trans hrely hgrown hrely')

theorem safe_activated (h : Settling input result.trialGranted s d) :
    billingRows.Safe billingContract (.settle input cfg now) since (.commit (.activated result)) s d := by
  intro t ht hrely
  obtain ⟨hvalid, hevolves, hpurchases, hdevice⟩ := h.view t ht hrely
  refine ⟨hvalid, hevolves, fun e he htype => .inl (hpurchases e he htype), nofun, ?_, ?_, nofun⟩
  · intro input' cfg' now' result' hcall hanswer hgranted hne
    cases hcall
    cases hanswer
    exact hdevice hgranted hne
  · simp [h.asked]

theorem safe_activate {id : Int} {a : Attribution} (hasked : d.asked = []) (hlocked : .attribution id ∈ d.locked)
    (ha : (billingRows.view s d.writes).attributions.lookup id = some a)
    (hview : ∀ t, t.Valid → billingContract.Rely d.locked s t →
      (billingRows.view t d.writes).attributions.lookup id = some a →
      Settled input result.trialGranted t (billingRows.apply (billingRows.view t d.writes) (.attribution id { a with
        stage := .activated
        trialGranted := result.trialGranted
        inviterBonusDays := result.inviterBonusDays
        activatedAt := some now }))) :
    billingRows.Safe billingContract (.settle input cfg now) since (activate id result now) s d := by
  have hkept : ∀ t, billingContract.Rely d.locked s t →
      (billingRows.view t d.writes).attributions.lookup id = some a := fun t hrely =>
    Eq.trans ((hrely.2 _ hlocked).view d.writes) ha
  refine safe_exec _ _ fun t ws ht hrely hws => ?_
  simp only [BillingStore.markAttributionActivated, hkept t hrely] at hws
  subst hws
  have hgrown := Tx.Done.Grown.wrote d
    ([BillingWrite.attribution id { a with
        stage := .activated
        trialGranted := result.trialGranted
        inviterBonusDays := result.inviterBonusDays
        activatedAt := some now }].flatMap billingRows.rows)
    [.attribution id { a with
        stage := .activated
        trialGranted := result.trialGranted
        inviterBonusDays := result.inviterBonusDays
        activatedAt := some now }]
  refine safe_activated ⟨hasked, fun u hu hrely' => ?_⟩
  have hrely'' := rely_trans hrely hgrown hrely'
  rw [hgrown.writes, RowStore.view, List.foldl_append]
  exact hview u hu hrely'' (hkept u hrely'')

theorem safe_bonus {id : Int} {a : Attribution} (h : Settling input result.trialGranted s d)
    (hlocked : .attribution id ∈ d.locked) (ha : (billingRows.view s d.writes).attributions.lookup id = some a)
    (hstage : a.stage = .registered) :
    billingRows.Safe billingContract (.settle input cfg now) since
      (applyDays (.bonus id a.inviterUserId cfg.inviteRewardDays) now (activate id result now) fun _ =>
        .query (fun s => s.users.lookup a.inviterUserId) fun
          | none => .rollback (.error .notFound)
          | some _ => activate id { result with inviterBonusDays := cfg.inviteRewardDays } now) s d := by
  have hkept : ∀ t, billingContract.Rely d.locked s t →
      (billingRows.view t d.writes).attributions.lookup id = some a := fun t hrely =>
    Eq.trans ((hrely.2 _ hlocked).view d.writes) ha
  refine safe_applyDays (fun _ _ _ _ => by simp [h.asked]) (fun t d' sub ht hrely _ hpresent => ?_)
    fun t d' sub ht hrely hgrown hheld hready => ?_
  · -- an attribution that is not activated has no bonus
    have hcount := ((h.view t ht hrely).valid.attributed.registered id a (hkept t hrely) hstage).2
    have hfresh := BillingStore.hasEvent_of_refCount (g := .bonus id a.inviterUserId cfg.inviteRewardDays)
      sub now rfl nofun hcount
    exact absurd (hpresent.symm.trans hfresh) (by decide)
  · have hasked : d'.asked = [] := hgrown.asked.trans h.asked
    refine safe_query _ _ fun u hu hrely' => ?_
    split
    · exact safe_rollback (by simp [hasked])
    · have hrely'' := rely_trans hrely hgrown hrely'
      refine safe_activate (a := a) hasked (hgrown.locked _ hlocked) ?_ fun v hv held _ => ?_
      · rw [view_credit hgrown]
        exact hkept u hrely''
      · have hrelies := rely_trans hrely hgrown ⟨hrely'.1.trans held.1, fun k hk => (hrely'.2 k hk).trans (held.2 k hk)⟩
        obtain ⟨hvalid, hevolves, hpurchases, hdevice⟩ := h.view v hv hrelies
        obtain ⟨hrow, hfresh⟩ := (hready.same hheld hrely'.2).same hheld held.2
        rw [view_credit hgrown]
        refine ⟨hvalid.bonus (hkept v hrelies) hstage rfl rfl rfl hrow hfresh,
          ⟨hevolves.events.trans (List.prefix_append _ _), hevolves.orders, hevolves.fingerprints⟩, fun e he htype => ?_,
          hdevice⟩
        rcases List.mem_append.mp he with he | he
        · exact hpurchases e he htype
        · rw [List.mem_singleton.mp he] at htype
          cases htype

theorem safe_settleInviterBonus (h : Settling input result.trialGranted s d) (hbonus : result.inviterBonusDays = 0) :
    billingRows.Safe billingContract (.settle input cfg now) since (settleInviterBonus input.userId cfg result now) s d := by
  intro t ht hrely
  simp only [RowStore.taken, List.flatMap_nil, List.append_nil]
  split
  · rename_i hnone
    rw [hnone]
    exact safe_activated (h.grown hrely (by simpa [Tx.Done.wrote, Tx.Done.holding] using Tx.Done.Grown.holding d []))
  · rename_i id a hfound
    rw [hfound]
    have hgrown : d.Grown (d.wrote [BillingKey.attribution id] []) [] := .wrote _ _ _
    have hlocked : BillingKey.attribution id ∈ (d.wrote [BillingKey.attribution id] []).locked := by
      simp [Tx.Done.wrote]
    have ha : (billingRows.view t (d.wrote [BillingKey.attribution id] []).writes).attributions.lookup id = some a := by
      rw [hgrown.writes, List.append_nil]
      exact BillingStore.lookup_of_attributionByInvitee hfound
    have h' := h.grown hrely hgrown
    simp only [Option.map_some, Option.toList_some]
    generalize d.wrote [BillingKey.attribution id] [] = d' at hlocked ha h'
    clear h hrely hgrown
    split
    · exact safe_activated h'
    · rename_i hstage
      replace hstage : a.stage = .registered := by
        cases hs : a.stage with
        | registered => rfl
        | activated => exact absurd hs hstage
      split
      · exact safe_bonus h' hlocked ha hstage
      · refine safe_activate h'.asked hlocked ha fun u hu hrely' ha' => ?_
        obtain ⟨hvalid, hevolves, hpurchases, hdevice⟩ := h'.view u hu hrely'
        exact ⟨hvalid.activate ha' hstage rfl rfl hbonus, ⟨hevolves.events, hevolves.orders, hevolves.fingerprints⟩,
          hpurchases, hdevice⟩

theorem safe_trial (h : Settling input true s d) :
    billingRows.Safe billingContract (.settle input cfg now) since
      (applyDays (.trial input.userId cfg.inviteTrialDays) now
        (settleInviterBonus input.userId cfg ⟨false, none, true, 0⟩ now) fun expiresAt =>
          .exec (BillingStore.markTrialGranted input.userId now) fun _ =>
            settleInviterBonus input.userId cfg ⟨true, some expiresAt, false, 0⟩ now) s d := by
  refine safe_applyDays (fun _ _ _ _ => by simp [h.asked]) (fun t d' sub ht hrely hgrown _ => ?_)
    fun t d' sub ht hrely hgrown hheld hready => ?_
  · exact safe_settleInviterBonus (h.grown hrely hgrown).weaken rfl
  · refine safe_exec _ _ fun u ws hu hrely' hws => ?_
    refine safe_settleInviterBonus ⟨hgrown.asked.trans h.asked, fun v hv held => ?_⟩ rfl
    have hmarked := Tx.Done.Grown.wrote d' (ws.flatMap billingRows.rows) ws
    have hrely'' := rely_trans hrely' hmarked held
    have hrelies := rely_trans hrely hgrown hrely''
    obtain ⟨hvalid, hevolves, hpurchases, hdevice⟩ := h.view v hv hrelies
    obtain ⟨hrow, hfresh⟩ := hready.same hheld hrely''.2
    have htrial := hvalid.trial hrow hfresh rfl
    have hsettled : Settled input true v ((billingRows.view v d.writes).credit (.trial input.userId cfg.inviteTrialDays) sub now) := by
      refine ⟨htrial, ⟨hevolves.events.trans (List.prefix_append _ _), hevolves.orders, hevolves.fingerprints⟩,
        fun e he htype => ?_, hdevice⟩
      rcases List.mem_append.mp he with he | he
      · exact hpurchases e he htype
      · rw [List.mem_singleton.mp he] at htype
        cases htype
    rw [hmarked.writes, RowStore.view, List.foldl_append]
    change Settled input true v (List.foldl _ (billingRows.view v d'.writes) _)
    rw [view_credit hgrown]
    -- the mark is a write to `users`, or nothing
    simp only [BillingStore.markTrialGranted] at hws
    split at hws
    · subst hws
      exact ⟨hsettled.valid.of_tables rfl rfl rfl rfl, ⟨hsettled.evolves.events, hsettled.evolves.orders,
        hsettled.evolves.fingerprints⟩, hsettled.purchases, hsettled.device⟩
    · subst hws
      exact hsettled

theorem safe_claim {next : Bool → BillingTx} (hasked : d.asked = []) (hwrites : d.writes = [])
    (hfalse : ∀ t d', Settling input false t d' → billingRows.Safe billingContract call since (next false) t d')
    (htrue : ∀ t d', Settling input true t d' → billingRows.Safe billingContract call since (next true) t d') :
    billingRows.Safe billingContract call since (claimTrialFingerprints input.userId next (fingerprintsOf input)) s d := by
  unfold fingerprintsOf
  split
  · rename_i hnone
    refine htrue s d ⟨hasked, fun t ht _ => ?_⟩
    rw [hwrites]
    exact ⟨ht, .refl t, fun e he _ => he, fun _ hne => absurd (List.isEmpty_iff.mp hnone) hne⟩
  · have hhash : (hashToken input.deviceId).isEmpty = false := by
      rw [List.isEmpty_eq_false_iff]
      exact hashToken_ne_nil _
    simp only [claimTrialFingerprints, hhash, Bool.false_eq_true, if_false]
    generalize hfp : (⟨"device".toList, hashToken input.deviceId⟩ : TrialFingerprint) = fp
    refine safe_insert _ _ (fun t ht hrely _ => ?_) fun t ht hrely habsent => ?_
    · have hheld : (d.holding [BillingKey.fingerprint fp]).writes = [] := hwrites
      refine safe_query _ _ fun u hu hrely' => ?_
      rw [hheld]
      split
      · exact safe_rollback (by simp [Tx.Done.holding, hasked])
      · rename_i owner howner
        replace howner : u.fingerprints.lookup fp = some owner := howner
        split
        · refine hfalse u _ ⟨hasked, fun v hv _ => ?_⟩
          rw [hheld]
          exact ⟨hv, .refl v, fun e he _ => he, by simp⟩
        · rename_i heq
          rw [not_not] at heq
          refine htrue u _ ⟨hasked, fun v hv hrely'' => ?_⟩
          rw [hheld]
          refine ⟨hv, .refl v, fun e he _ => he, fun _ _ => ?_⟩
          obtain ⟨_, hstill, rfl⟩ := hrely''.1.fingerprints fp owner howner
          rw [hfp, ← heq]
          exact hstill
    · refine htrue t _ ⟨hasked, fun v hv hrely' => ?_⟩
      have hsame : v.fingerprints.lookup fp = t.fingerprints.lookup fp :=
        hrely'.2 (.fingerprint fp) (by simp [Tx.Done.wrote])
      have hnone : v.fingerprints.lookup fp = none := by
        rw [hsame]
        simpa [hwrites, RowStore.view] using habsent
      simp only [Tx.Done.wrote, hwrites, List.nil_append]
      refine ⟨hv.of_tables rfl rfl rfl rfl, ⟨List.prefix_refl _, .refl OrderStep.refl _, .insert (fun _ => rfl) fun old hold => ?_⟩,
        fun e he _ => he, fun _ _ => ?_⟩
      · rw [hnone] at hold
        cases hold
      · rw [hfp]
        exact AList.lookup_insert _

theorem safe_settleFirstAppLogin (input : ActivationInput) (cfg : OpsConfig) (now : Int) (since : BillingStore) :
    billingRows.Safe billingContract (.settle input cfg now) since (settleFirstAppLogin input cfg now) since .nothing := by
  refine safe_lock _ _ fun s hs hrely => ?_
  have h : Settling input false s (Tx.Done.nothing.holding [BillingKey.user input.userId]) :=
    ⟨rfl, fun t ht _ => ⟨ht, .refl t, fun e he _ => he, nofun⟩⟩
  split
  · exact safe_rollback nofun
  · split
    · exact safe_claim rfl rfl (fun t d' h' => safe_settleInviterBonus h' rfl) fun t d' h' => safe_trial h'
    · exact safe_settleInviterBonus h rfl

end Safe

/-! ## All calls together -/

theorem billingProgram_keeps : billingRows.Keeps billingContract billingProgram where
  refl _ c _ := ⟨.refl c, fun k _ => BillingKey.same_refl c k⟩
  trans h h' := ⟨h.1.trans h'.1, fun k hk => (h.2 k hk).trans (h'.2 k hk)⟩
  inv _ h := h.1
  guarantee _ h hrows hfree := by
    refine ⟨h.2.1, fun k hk => BillingKey.same_view _ fun w hw hin => ?_⟩
    exact hfree k (hrows w hw k hin) hk
  safe call c _ := by
    cases call with
    | register userId inviter => exact safe_register userId inviter c
    | checkout orderNo userId amountCents channel => exact safe_checkout orderNo userId amountCents channel c
    | handleWebhook channel notification now => exact safe_handleWebhook channel notification now c
    | refundOrder allowed orderNo reason refundId now => exact safe_refundOrder allowed orderNo reason refundId now c
    | settle input cfg now => exact safe_settleFirstAppLogin input cfg now c

end Calls

end Lumio.Control
