import Lumio.Lib.Table
import Lumio.Lib.Text
import Lumio.Lib.Transactions

/-!
# Subscriptions, orders and invitations

Every change of a subscription goes through `applyDays`, which writes one event and the row. Days come from the trial
at the first login to the application, from invitations and from orders; a refund takes those of its order back.
Instants are integers, in nanoseconds.
-/

namespace Lumio.Control

class BillingSetup where
  hashToken : Text → Text
  /-- Hexadecimal of SHA-256 is not empty. -/
  hashToken_ne_nil : ∀ text, hashToken text ≠ []
  /-- A payment provider is registered for the channel. -/
  channelRegistered : Text → Bool

/-! ## Tables -/

inductive SubscriptionKind where
  | trial
  | paid
deriving DecidableEq

/-- A user has one row. -/
structure Subscription where
  kind : Option SubscriptionKind
  expiresAt : Option Int
  trialExpiresAt : Option Int
  bonusDaysTotal : Int
deriving DecidableEq

inductive EventType where
  | trialGranted
  | inviteBonus
  | purchase
  | refundRevoke
deriving DecidableEq

inductive EventRef where
  | order (orderNo : Text)
  | attribution (id : Int)
deriving DecidableEq

structure SubscriptionEvent where
  userId : Int
  type : EventType
  daysDelta : Int
  before : Option Int
  after : Option Int
  ref : Option EventRef
  note : Text
deriving DecidableEq

inductive OrderStatus where
  | pending
  | paid
  | refunding
  | refunded
  | failed
deriving DecidableEq

structure Order where
  userId : Int
  amountCents : Int
  channel : Text
  periodMonths : Int
  status : OrderStatus
  providerTxnId : Option Text
  paidAt : Option Int
deriving DecidableEq

inductive RefundStatus where
  | pending
  | succeeded
  | failed
deriving DecidableEq

structure Refund where
  orderNo : Text
  amountCents : Int
  status : RefundStatus
  providerRefundId : Text
deriving DecidableEq

inductive ReferralStage where
  | registered
  | activated
deriving DecidableEq

structure Attribution where
  inviterUserId : Int
  inviteeUserId : Int
  stage : ReferralStage
  trialGranted : Bool
  inviterBonusDays : Int
  activatedAt : Option Int
deriving DecidableEq

structure TrialFingerprint where
  kind : Text
  valueHash : Text
deriving DecidableEq

/-- Of a user, the instant of the trial is all that matters here. -/
structure BillingStore where
  users : Table Int (Option Int)
  subscriptions : Table Int Subscription
  events : List SubscriptionEvent
  attributions : Table Int Attribution
  fingerprints : Table TrialFingerprint Int
  orders : Table Text Order
  refunds : Table Int Refund

inductive BillingKey where
  | user (id : Int)
  | subscription (userId : Int)
  | trialEvent (userId : Int)
  | refEvent (type : EventType) (ref : EventRef)
  | attribution (id : Int)
  | invitee (userId : Int)
  | fingerprint (fp : TrialFingerprint)
  | order (orderNo : Text)
  | refund (id : Int)
deriving DecidableEq

inductive BillingWrite where
  | user (id : Int) (trialGrantedAt : Option Int)
  | subscription (userId : Int) (row : Subscription)
  | event (e : SubscriptionEvent)
  | attribution (id : Int) (row : Attribution)
  | fingerprint (fp : TrialFingerprint) (userId : Int)
  | order (orderNo : Text) (row : Order)
  | refund (id : Int) (row : Refund)
deriving DecidableEq

/-- The unique indexes of `subscription_events`. -/
def SubscriptionEvent.indexes (e : SubscriptionEvent) : List BillingKey :=
  (if e.type = .trialGranted then [BillingKey.trialEvent e.userId] else []) ++
    match e.ref with
    | some ref => [BillingKey.refEvent e.type ref]
    | none => []

def billingRows : RowStore BillingStore BillingKey BillingWrite where
  apply s
    | .user id trialGrantedAt => { s with users := s.users.insert id trialGrantedAt }
    | .subscription userId row => { s with subscriptions := s.subscriptions.insert userId row }
    | .event e => { s with events := s.events ++ [e] }
    | .attribution id row => { s with attributions := s.attributions.insert id row }
    | .fingerprint fp userId => { s with fingerprints := s.fingerprints.insert fp userId }
    | .order orderNo row => { s with orders := s.orders.insert orderNo row }
    | .refund id row => { s with refunds := s.refunds.insert id row }
  rows
    | .user id _ => [.user id]
    | .subscription userId _ => [.subscription userId]
    | .event e => e.indexes
    | .attribution id row => [.attribution id, .invitee row.inviteeUserId]
    | .fingerprint fp _ => [.fingerprint fp]
    | .order orderNo _ => [.order orderNo]
    | .refund id _ => [.refund id]

/-! ## Statements -/

def day : Int := 24 * 60 * 60 * 1000000000

/-- From the expiry on if it is still to come, else from now on. -/
def extendFrom (current : Option Int) (now : Int) (days : Int) : Int :=
  match current with
  | some current => if now < current then current + days * day else now + days * day
  | none => now + days * day

namespace BillingStore

def hasEvent (s : BillingStore) (e : SubscriptionEvent) : Bool :=
  s.events.any fun old =>
    (e.type = .trialGranted && old.type = .trialGranted && old.userId = e.userId) ||
      (e.ref.isSome && old.type = e.type && old.ref = e.ref)

def updateOrderStatus (orderNo : Text) (status : OrderStatus) (txnId : Option Text) (paidAt : Option Int)
    (s : BillingStore) : List BillingWrite :=
  match s.orders.lookup orderNo with
  | some order =>
    [.order orderNo { order with
      status := status
      providerTxnId := txnId.or order.providerTxnId
      paidAt := paidAt.or order.paidAt }]
  | none => []

def completeRefund (id : Int) (status : RefundStatus) (providerRefundId : Text) (s : BillingStore) :
    List BillingWrite :=
  match s.refunds.lookup id with
  | some refund => [.refund id { refund with status := status, providerRefundId := providerRefundId }]
  | none => []

def markTrialGranted (userId now : Int) (s : BillingStore) : List BillingWrite :=
  match s.users.lookup userId with
  | some _ => [.user userId (some now)]
  | none => []

def attributionByInvitee (s : BillingStore) (inviteeId : Int) : Option (Int × Attribution) :=
  (s.attributions.entries.find? fun row => row.2.inviteeUserId = inviteeId).map fun row => (row.1, row.2)

def markAttributionActivated (id : Int) (trialGranted : Bool) (bonusDays now : Int) (s : BillingStore) :
    List BillingWrite :=
  match s.attributions.lookup id with
  | some row =>
    [.attribution id { row with
      stage := .activated
      trialGranted := trialGranted
      inviterBonusDays := bonusDays
      activatedAt := some now }]
  | none => []

end BillingStore

/-! ## Calls -/

/-- A notification whose signature is right. -/
structure Notification where
  orderNo : Text
  txnId : Text
  paid : Bool
  amount : Int
deriving DecidableEq

structure RefundRequest where
  orderNo : Text
  refundId : Int
  amountCents : Int
  reason : Text
deriving DecidableEq

inductive RefundResponse where
  | error
  | answered (providerRefundId : Text) (succeeded : Bool)
deriving DecidableEq

structure OpsConfig where
  inviteTrialDays : Int
  inviteRewardDays : Int
deriving DecidableEq

structure ActivationInput where
  userId : Int
  deviceId : Text
deriving DecidableEq

structure ActivationResult where
  trialGranted : Bool
  trialExpiresAt : Option Int
  trialDeniedReuse : Bool
  inviterBonusDays : Int
deriving DecidableEq

inductive BillingError where
  | notFound
  | forbidden
  | invalidParams
  | orderNotRefundable
  | refundDeclined
  | paymentAmountMismatch
  | failure
deriving DecidableEq

inductive BillingAnswer where
  | error (e : BillingError)
  | ok
  | refunded
  | activated (result : ActivationResult)
deriving DecidableEq

/-- A call, with the instant it happens at and the ids that the database draws. `settle` is what the exchange of a code
does at the first login to the application. -/
inductive BillingCall where
  | register (userId : Int) (inviter : Option (Int × Int))
  | checkout (orderNo : Text) (userId amountCents : Int) (channel : Text)
  | handleWebhook (channel : Text) (notification : Option Notification) (now : Int)
  | refundOrder (allowed : Bool) (orderNo reason : Text) (refundId now : Int)
  | settle (input : ActivationInput) (cfg : OpsConfig) (now : Int)
deriving DecidableEq

abbrev BillingTx := Tx BillingStore BillingKey BillingWrite RefundRequest RefundResponse BillingAnswer

/-- A change of a subscription: days, the kind they give, and what the event says. -/
structure Grant where
  userId : Int
  days : Int
  kind : Option SubscriptionKind
  type : EventType
  ref : Option EventRef
  note : Text
deriving DecidableEq

namespace Grant

def event (g : Grant) (sub : Subscription) (now : Int) : SubscriptionEvent :=
  ⟨g.userId, g.type, g.days, sub.expiresAt, some (extendFrom sub.expiresAt now g.days), g.ref, g.note⟩

/-- A trial does not replace a paid subscription. -/
def kindUpdate (g : Grant) (sub : Subscription) : Option SubscriptionKind :=
  match g.kind with
  | some kind => if kind = .paid ∨ sub.kind ≠ some .paid then some kind else none
  | none => none

def update (g : Grant) (sub : Subscription) (now : Int) (row : Subscription) : Subscription :=
  { kind := (g.kindUpdate sub).or row.kind
    expiresAt := some (extendFrom sub.expiresAt now g.days)
    trialExpiresAt := if g.kind = some .trial then some (extendFrom sub.expiresAt now g.days) else row.trialExpiresAt
    bonusDaysTotal := row.bonusDaysTotal + if g.type = .inviteBonus then g.days else 0 }

def trial (userId days : Int) : Grant :=
  ⟨userId, days, some .trial, .trialGranted, none, "首次登录 APP 发放免费试用".toList⟩

def bonus (id inviterUserId days : Int) : Grant :=
  ⟨inviterUserId, days, some .paid, .inviteBonus, some (.attribution id), "邀请奖励".toList⟩

def purchase (userId : Int) (orderNo : Text) (months : Int) : Grant :=
  ⟨userId, months * 30, some .paid, .purchase, some (.order orderNo), "包月订阅付款".toList⟩

def revoke (userId : Int) (orderNo : Text) (months : Int) : Grant :=
  ⟨userId, -months * 30, none, .refundRevoke, some (.order orderNo), "退款扣回订阅时长".toList⟩

end Grant

def BillingStore.updateSubscription (g : Grant) (sub : Subscription) (now : Int) (s : BillingStore) :
    List BillingWrite :=
  match s.subscriptions.lookup g.userId with
  | some row => [.subscription g.userId (g.update sub now row)]
  | none => []

/-- The event and the row. If the event has been settled before, nothing is written. -/
def applyDays (g : Grant) (now : Int) (settled : BillingTx) (next : Int → BillingTx) : BillingTx :=
  .lock (.subscription g.userId) (fun s => s.subscriptions.lookup g.userId) fun
    | none => .rollback (.error .notFound)
    | some sub =>
      .insert (g.event sub now).indexes (fun s => s.hasEvent (g.event sub now)) (.event (g.event sub now)) fun
        | false => settled
        | true =>
          .exec (BillingStore.updateSubscription g sub now) fun _ => next (extendFrom sub.expiresAt now g.days)

def creditPurchase (userId : Int) (orderNo : Text) (months now : Int) (next : BillingTx) : BillingTx :=
  applyDays (.purchase userId orderNo months) now next fun _ => next

def revokePurchaseDays (userId : Int) (orderNo : Text) (months now : Int) (next : BillingTx) : BillingTx :=
  applyDays (.revoke userId orderNo months) now next fun _ => next

/-- The attribution of a new user, if somebody has invited them: its id and the inviter. -/
def createAttribution (userId : Int) : Option (Int × Int) → BillingTx
  | none => .commit .ok
  | some (id, inviterUserId) =>
    if inviterUserId = userId then .rollback (.error .failure)
    else
      .insert [.attribution id, .invitee userId]
        (fun s => (s.attributions.lookup id).isSome || (s.attributionByInvitee userId).isSome)
        (.attribution id ⟨inviterUserId, userId, .registered, false, 0, none⟩) fun
          | false => .rollback (.error .failure)
          | true => .commit .ok

def register (userId : Int) (inviter : Option (Int × Int)) : BillingTx :=
  .insert [.user userId] (fun s => (s.users.lookup userId).isSome) (.user userId none) fun
    | false => .rollback (.error .failure)
    | true =>
      .insert [.subscription userId] (fun s => (s.subscriptions.lookup userId).isSome)
        (.subscription userId ⟨none, none, none, 0⟩) fun _ => createAttribution userId inviter

/-- The claim on fingerprints goes on with whether the trial may be granted. -/
def claimTrialFingerprints (userId : Int) (next : Bool → BillingTx) : List TrialFingerprint → BillingTx
  | [] => next true
  | fp :: fps =>
    if fp.valueHash.isEmpty then claimTrialFingerprints userId next fps
    else
      .insert [.fingerprint fp] (fun s => (s.fingerprints.lookup fp).isSome) (.fingerprint fp userId) fun
        | true => claimTrialFingerprints userId next fps
        | false =>
          .query (fun s => s.fingerprints.lookup fp) fun
            | none => .rollback (.error .notFound)
            | some owner => if owner ≠ userId then next false else claimTrialFingerprints userId next fps

def activate (id : Int) (result : ActivationResult) (now : Int) : BillingTx :=
  .exec (BillingStore.markAttributionActivated id result.trialGranted result.inviterBonusDays now) fun _ =>
    .commit (.activated result)

/-- The result so far holds no bonus. -/
def settleInviterBonus (inviteeId : Int) (cfg : OpsConfig) (result : ActivationResult) (now : Int) : BillingTx :=
  .statement (fun s => ((s.attributionByInvitee inviteeId).map fun row => .attribution row.1).toList) (fun _ => [])
    fun s =>
      match s.attributionByInvitee inviteeId with
      | none => .commit (.activated result)
      | some (id, attribution) =>
        if attribution.stage = .activated then .commit (.activated result)
        else if 0 < cfg.inviteRewardDays then
          applyDays (.bonus id attribution.inviterUserId cfg.inviteRewardDays) now (activate id result now) fun _ =>
            .query (fun s => s.users.lookup attribution.inviterUserId) fun
              | none => .rollback (.error .notFound)
              | some _ => activate id { result with inviterBonusDays := cfg.inviteRewardDays } now
        else activate id result now

def checkout (orderNo : Text) (userId amountCents : Int) (channel : Text) : BillingTx :=
  .insert [.order orderNo] (fun s => (s.orders.lookup orderNo).isSome)
    (.order orderNo ⟨userId, amountCents, channel, 1, .pending, none, none⟩) fun
      | false => .rollback (.error .failure)
      | true => .commit .ok

section Calls

variable [BillingSetup]

open BillingSetup

def fingerprintsOf (input : ActivationInput) : List TrialFingerprint :=
  if input.deviceId.isEmpty then [] else [⟨"device".toList, hashToken input.deviceId⟩]

def settleFirstAppLogin (input : ActivationInput) (cfg : OpsConfig) (now : Int) : BillingTx :=
  .lock (.user input.userId) (fun s => s.users.lookup input.userId) fun
    | none => .rollback (.error .notFound)
    | some trialGrantedAt =>
      if trialGrantedAt.isNone ∧ 0 < cfg.inviteTrialDays then
        claimTrialFingerprints input.userId (fun
          | false => settleInviterBonus input.userId cfg ⟨false, none, true, 0⟩ now
          | true =>
            applyDays (.trial input.userId cfg.inviteTrialDays) now
              (settleInviterBonus input.userId cfg ⟨false, none, true, 0⟩ now) fun expiresAt =>
                .exec (BillingStore.markTrialGranted input.userId now) fun _ =>
                  settleInviterBonus input.userId cfg ⟨true, some expiresAt, false, 0⟩ now)
          (fingerprintsOf input)
      else settleInviterBonus input.userId cfg ⟨false, none, trialGrantedAt.isSome, 0⟩ now

/-- A notification about an order that is not pending is only recorded. -/
def handleWebhook (channel : Text) (notification : Option Notification) (now : Int) : BillingTx :=
  if !channelRegistered channel then .rollback (.error .notFound)
  else
    match notification with
    | none => .rollback (.error .forbidden)
    | some n =>
      .lock (.order n.orderNo) (fun s => s.orders.lookup n.orderNo) fun
        | none => .rollback (.error .notFound)
        | some order =>
          if !n.paid then
            if order.status = .pending then
              .exec (BillingStore.updateOrderStatus n.orderNo .failed none none) fun _ => .commit .ok
            else .commit .ok
          else if order.status ≠ .pending then .commit .ok
          else if n.amount ≠ order.amountCents then .commit (.error .paymentAmountMismatch)
          else
            .exec (BillingStore.updateOrderStatus n.orderNo .paid (some n.txnId) (some now)) fun _ =>
              creditPurchase order.userId n.orderNo order.periodMonths now (.commit .ok)

def finishRefund (order : Order) (orderNo : Text) (refundId now : Int) : RefundResponse → BillingTx
  | .error => .rollback (.error .failure)
  | .answered providerRefundId true =>
    .exec (BillingStore.completeRefund refundId .succeeded providerRefundId) fun _ =>
      .exec (BillingStore.updateOrderStatus orderNo .refunded none none) fun _ =>
        revokePurchaseDays order.userId orderNo order.periodMonths now (.commit .refunded)
  | .answered providerRefundId false =>
    .exec (BillingStore.completeRefund refundId .failed providerRefundId) fun _ =>
      .exec (BillingStore.updateOrderStatus orderNo .paid none none) fun _ => .commit (.error .refundDeclined)

/-- The provider is asked in the middle of the transaction. -/
def refundOrder (allowed : Bool) (orderNo reason : Text) (refundId now : Int) : BillingTx :=
  if !allowed then .rollback (.error .forbidden)
  else
    .lock (.order orderNo) (fun s => s.orders.lookup orderNo) fun
      | none => .rollback (.error .notFound)
      | some order =>
        if order.status ≠ .paid then .rollback (.error .orderNotRefundable)
        else
          .exec (BillingStore.updateOrderStatus orderNo .refunding none none) fun _ =>
            .insert [.refund refundId] (fun s => (s.refunds.lookup refundId).isSome)
              (.refund refundId ⟨orderNo, order.amountCents, .pending, []⟩) fun
                | false => .rollback (.error .failure)
                | true =>
                  if !channelRegistered order.channel then .rollback (.error .invalidParams)
                  else .ask ⟨orderNo, refundId, order.amountCents, reason⟩ (finishRefund order orderNo refundId now)

def billingProgram : BillingCall → BillingTx
  | .register userId inviter => register userId inviter
  | .checkout orderNo userId amountCents channel => checkout orderNo userId amountCents channel
  | .handleWebhook channel notification now => handleWebhook channel notification now
  | .refundOrder allowed orderNo reason refundId now => refundOrder allowed orderNo reason refundId now
  | .settle input cfg now => settleFirstAppLogin input cfg now

abbrev BillingState := Tx.Shared BillingStore BillingKey BillingWrite RefundRequest RefundResponse BillingAnswer BillingCall

abbrev BillingTurn := Tx.Turn RefundResponse BillingCall

abbrev BillingOutcome := Tx.Outcome BillingStore BillingKey BillingWrite RefundRequest RefundResponse BillingAnswer BillingCall

def billingMachine : Machine BillingState BillingTurn BillingOutcome := billingRows.interleaved billingProgram

end Calls

def BillingStore.initial : BillingStore := ⟨∅, ∅, [], ∅, ∅, ∅, ∅⟩

end Lumio.Control
