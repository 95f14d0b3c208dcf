import Lumio.Control.Billing

/-!
# The ledger of subscriptions

What holds of the tables between transactions: the events of a user form a chain that ends at the expiry of the row,
the totals of bonus days agree, and an order has the events that its status asks for.
-/

namespace Lumio.Control

open RowStore

/-! ## What holds of the tables -/

def Chained : Option Int → List SubscriptionEvent → Option Int → Prop
  | start, [], finish => start = finish
  | start, e :: events, finish => e.before = start ∧ Chained e.after events finish

theorem Chained.append {events : List SubscriptionEvent} {e : SubscriptionEvent} : ∀ {start : Option Int},
    Chained start events e.before → Chained start (events ++ [e]) e.after := by
  induction events with
  | nil =>
    intro start h
    exact ⟨Eq.symm h, rfl⟩
  | cons first events ih =>
    intro start h
    exact ⟨h.1, ih h.2⟩

namespace BillingStore

def eventsOf (s : BillingStore) (userId : Int) : List SubscriptionEvent := s.events.filter (·.userId = userId)

def expiresOf (s : BillingStore) (userId : Int) : Option Int := (s.subscriptions.lookup userId).bind (·.expiresAt)

def bonusOf (s : BillingStore) (userId : Int) : Int := ((s.subscriptions.lookup userId).map (·.bonusDaysTotal)).getD 0

def bonusEvents (s : BillingStore) (userId : Int) : Int :=
  (((s.eventsOf userId).filter (·.type = .inviteBonus)).map (·.daysDelta)).sum

def attributedTo (s : BillingStore) (userId : Int) : Int :=
  ((s.attributions.values.filter (·.inviterUserId = userId)).map (·.inviterBonusDays)).sum

def refCount (s : BillingStore) (type : EventType) (ref : EventRef) : Nat :=
  s.events.countP fun e => e.type = type && e.ref = some ref

structure Books (s : BillingStore) : Prop where
  chain : ∀ userId, Chained none (s.eventsOf userId) (s.expiresOf userId)
  bonus : ∀ userId, s.bonusOf userId = s.bonusEvents userId
  trials : ∀ userId, (s.eventsOf userId).countP (·.type = .trialGranted) ≤ 1
  refs : ∀ type ref, s.refCount type ref ≤ 1
  subscribed : ∀ e ∈ s.events, (s.subscriptions.lookup e.userId).isSome = true

structure Attributed (s : BillingStore) : Prop where
  total : ∀ userId, s.bonusOf userId = s.attributedTo userId
  registered : ∀ id a, s.attributions.lookup id = some a → a.stage = .registered →
    a.inviterBonusDays = 0 ∧ s.refCount .inviteBonus (.attribution id) = 0
  absent : ∀ id, s.attributions.lookup id = none → s.refCount .inviteBonus (.attribution id) = 0

/-- How many purchases and revocations an order has, by its status. No transaction leaves it `refunding`. -/
def booked : Option OrderStatus → Option (Nat × Nat)
  | none => some (0, 0)
  | some .pending => some (0, 0)
  | some .failed => some (0, 0)
  | some .paid => some (1, 0)
  | some .refunded => some (1, 1)
  | some .refunding => none

structure Orders (s : BillingStore) : Prop where
  counts : ∀ orderNo, booked ((s.orders.lookup orderNo).map (·.status)) =
    some (s.refCount .purchase (.order orderNo), s.refCount .refundRevoke (.order orderNo))
  credited : ∀ e ∈ s.events, e.type = .purchase → ∀ orderNo, e.ref = some (.order orderNo) →
    ∃ order, s.orders.lookup orderNo = some order ∧ e.userId = order.userId ∧ e.daysDelta = order.periodMonths * 30

structure Valid (s : BillingStore) : Prop where
  books : s.Books
  attributed : s.Attributed
  orders : s.Orders

end BillingStore

/-! ## Changes of a subscription -/

def BillingStore.credit (s : BillingStore) (g : Grant) (sub : Subscription) (now : Int) : BillingStore :=
  { s with
    events := s.events ++ [g.event sub now]
    subscriptions := s.subscriptions.insert g.userId (g.update sub now sub) }

namespace BillingStore

variable {s : BillingStore} {g : Grant} {sub : Subscription} {now : Int}

theorem hasEvent_eq_false {e : SubscriptionEvent} : s.hasEvent e = false ↔ ∀ old ∈ s.events,
    ¬ (e.type = .trialGranted ∧ old.type = .trialGranted ∧ old.userId = e.userId) ∧
      ¬ (e.ref.isSome = true ∧ old.type = e.type ∧ old.ref = e.ref) := by
  simp only [hasEvent, List.any_eq_false, Bool.or_eq_true, Bool.and_eq_true, decide_eq_true_eq, not_or, and_assoc]

theorem refCount_credit (s : BillingStore) (g : Grant) (sub : Subscription) (now : Int) (type : EventType)
    (ref : EventRef) : (s.credit g sub now).refCount type ref =
    s.refCount type ref + if g.type = type ∧ g.ref = some ref then 1 else 0 := by
  simp [refCount, credit, Grant.event, List.countP_append, List.countP_cons]

variable {a a' : Attribution} {id : Int} {t : BillingStore} {orderNo : Text} (userId : Int)

theorem eventsOf_credit : (s.credit g sub now).eventsOf userId =
    if g.userId = userId then s.eventsOf userId ++ [g.event sub now] else s.eventsOf userId := by
  simp only [eventsOf, credit, List.filter_append, List.filter_cons, List.filter_nil, Grant.event, decide_eq_true_eq]
  split <;> simp

theorem bonusOf_credit (now : Int) (hrow : s.subscriptions.lookup g.userId = some sub) (userId : Int) :
    (s.credit g sub now).bonusOf userId =
      s.bonusOf userId + if g.userId = userId ∧ g.type = .inviteBonus then g.days else 0 := by
  by_cases heq : g.userId = userId
  · subst heq
    simp [bonusOf, credit, hrow, Grant.update]
  · simp [bonusOf, credit, AList.lookup_insert_ne (Ne.symm heq), heq]

theorem Books.credit (h : s.Books) (hrow : s.subscriptions.lookup g.userId = some sub)
    (hfresh : s.hasEvent (g.event sub now) = false) : (s.credit g sub now).Books := by
  rw [hasEvent_eq_false] at hfresh
  constructor
  · intro userId
    rw [eventsOf_credit]
    by_cases heq : g.userId = userId
    · subst heq
      have hchain := h.chain g.userId
      rw [expiresOf, hrow] at hchain
      rw [if_pos rfl, expiresOf, BillingStore.credit, AList.lookup_insert]
      exact hchain.append (e := g.event sub now)
    · rw [if_neg heq, expiresOf, BillingStore.credit, AList.lookup_insert_ne (Ne.symm heq)]
      exact h.chain userId
  · intro userId
    rw [bonusOf_credit now hrow, h.bonus userId, bonusEvents, bonusEvents, eventsOf_credit]
    by_cases heq : g.userId = userId
    · subst heq
      by_cases htype : g.type = .inviteBonus
      · simp [List.filter_append, Grant.event, htype]
      · simp [List.filter_append, Grant.event, htype]
    · simp [heq]
  · intro userId
    rw [eventsOf_credit]
    split
    · rename_i heq
      rw [List.countP_append]
      by_cases htype : g.type = .trialGranted
      · have hzero : (s.eventsOf userId).countP (·.type = .trialGranted) = 0 := by
          rw [List.countP_eq_zero]
          intro old hold htrial
          obtain ⟨hmem, huser⟩ := List.mem_filter.mp hold
          refine (hfresh old hmem).1 ⟨htype, of_decide_eq_true htrial, ?_⟩
          rw [of_decide_eq_true huser]
          exact heq.symm
        rw [hzero]
        simp [Grant.event, htype]
      · simp only [Grant.event, List.countP_cons, htype, decide_false, Bool.false_eq_true, if_false, List.countP_nil]
        exact h.trials userId
    · exact h.trials userId
  · intro type ref
    rw [refCount_credit]
    split
    · rename_i heq
      obtain ⟨rfl, href⟩ := heq
      have hzero : s.refCount g.type ref = 0 := by
        rw [refCount, List.countP_eq_zero]
        intro old hold hsame
        rw [Bool.and_eq_true, decide_eq_true_eq, decide_eq_true_eq] at hsame
        exact (hfresh old hold).2 ⟨by rw [Grant.event, href]; rfl, hsame.1, by rw [Grant.event, href]; exact hsame.2⟩
      omega
    · exact h.refs type ref
  · intro e he
    have hkeep : ∀ userId, (s.subscriptions.lookup userId).isSome = true →
        ((s.credit g sub now).subscriptions.lookup userId).isSome = true := by
      intro userId hsome
      by_cases heq : userId = g.userId
      · rw [heq, BillingStore.credit, AList.lookup_insert]
        rfl
      · rw [BillingStore.credit, AList.lookup_insert_ne heq]
        exact hsome
    rcases List.mem_append.mp he with he | he
    · exact hkeep _ (h.subscribed e he)
    · rw [List.mem_singleton.mp he]
      exact hkeep _ (by rw [Grant.event, hrow]; rfl)

/-! ## Attributions -/

theorem attributedTo_eq : s.attributedTo userId =
    s.attributions.sumBy fun a => if a.inviterUserId = userId then a.inviterBonusDays else 0 := by
  rw [attributedTo, Table.sumBy]
  induction s.attributions.values with
  | nil => rfl
  | cons a rest ih =>
    by_cases heq : a.inviterUserId = userId
    · simp [heq, ih]
    · simp [heq, ih]

theorem Attributed.credit (h : s.Attributed) (hrow : s.subscriptions.lookup g.userId = some sub)
    (htype : g.type ≠ .inviteBonus) : (s.credit g sub now).Attributed := by
  constructor
  · intro userId
    rw [bonusOf_credit now hrow, h.total userId]
    simp [htype, BillingStore.credit, attributedTo]
  · intro id a ha hstage
    rw [refCount_credit]
    simpa [htype] using h.registered id a ha hstage
  · intro id ha
    rw [refCount_credit]
    simpa [htype] using h.absent id ha

theorem Attributed.activate (h : s.Attributed) (ha : s.attributions.lookup id = some a)
    (hstage : a.stage = .registered) (hinviter : a'.inviterUserId = a.inviterUserId)
    (hactivated : a'.stage = .activated) (hattributions : t.attributions = s.attributions.insert id a')
    (hbonus : ∀ userId, t.bonusOf userId = s.bonusOf userId + if a.inviterUserId = userId then a'.inviterBonusDays else 0)
    (hcounts : ∀ id', id' ≠ id → t.refCount .inviteBonus (.attribution id') = s.refCount .inviteBonus (.attribution id')) :
    t.Attributed := by
  obtain ⟨hzero, -⟩ := h.registered id a ha hstage
  constructor
  · intro userId
    rw [hbonus, h.total, attributedTo_eq, attributedTo_eq, hattributions, Table.sumBy_insert_of_some ha, hinviter, hzero]
    split <;> omega
  · intro id' b hb hregistered
    rw [hattributions] at hb
    rcases (Table.lookup_insert_iff b).mp hb with ⟨-, rfl⟩ | ⟨hne, hb⟩
    · rw [hactivated] at hregistered
      cases hregistered
    · rw [hcounts id' hne]
      exact h.registered id' b hb hregistered
  · intro id' hnone
    rw [hattributions] at hnone
    by_cases heq : id' = id
    · subst heq
      rw [AList.lookup_insert] at hnone
      cases hnone
    · rw [AList.lookup_insert_ne heq] at hnone
      rw [hcounts id' heq]
      exact h.absent id' hnone

/-! ## Orders -/

theorem Orders.credit (h : s.Orders) (hpurchase : g.type ≠ .purchase) (hrevoke : g.type ≠ .refundRevoke) :
    (s.credit g sub now).Orders := by
  constructor
  · intro orderNo
    rw [refCount_credit, refCount_credit]
    simp only [hpurchase, hrevoke, false_and, if_false, Nat.add_zero]
    exact h.counts orderNo
  · intro e he htype orderNo href
    rcases List.mem_append.mp he with he | he
    · exact h.credited e he htype orderNo href
    · rw [List.mem_singleton.mp he] at htype
      exact absurd htype hpurchase

theorem Orders.move (h : s.Orders) {old : Option Order} {order : Order} (hold : s.orders.lookup orderNo = old)
    (horders : t.orders = s.orders.insert orderNo order)
    (hkeeps : ∀ o, old = some o → order.userId = o.userId ∧ order.periodMonths = o.periodMonths)
    (hbooked : booked (some order.status) =
      some (t.refCount .purchase (.order orderNo), t.refCount .refundRevoke (.order orderNo)))
    (hcounts : ∀ other, other ≠ orderNo →
      t.refCount .purchase (.order other) = s.refCount .purchase (.order other) ∧
        t.refCount .refundRevoke (.order other) = s.refCount .refundRevoke (.order other))
    (hevents : ∀ e ∈ t.events, e.type = .purchase → e ∈ s.events ∨
      e.ref = some (.order orderNo) ∧ e.userId = order.userId ∧ e.daysDelta = order.periodMonths * 30) :
    t.Orders := by
  constructor
  · intro other
    rw [horders]
    by_cases heq : other = orderNo
    · subst heq
      rw [AList.lookup_insert]
      exact hbooked
    · rw [AList.lookup_insert_ne heq, (hcounts other heq).1, (hcounts other heq).2]
      exact h.counts other
  · intro e he htype other href
    rw [horders]
    rcases hevents e he htype with he | ⟨hsame, huser, hdays⟩
    · obtain ⟨o, ho, huser, hdays⟩ := h.credited e he htype other href
      by_cases heq : other = orderNo
      · subst heq
        obtain ⟨hu, hm⟩ := hkeeps o (hold.symm.trans ho)
        exact ⟨order, AList.lookup_insert _, by rw [hu]; exact huser, by rw [hm]; exact hdays⟩
      · exact ⟨o, by rw [AList.lookup_insert_ne heq]; exact ho, huser, hdays⟩
    · rw [href] at hsame
      cases hsame
      exact ⟨order, AList.lookup_insert _, huser, hdays⟩

/-! ## All tables together -/

theorem Valid.of_tables (h : s.Valid) (hsubscriptions : t.subscriptions = s.subscriptions)
    (hevents : t.events = s.events) (hattributions : t.attributions = s.attributions) (horders : t.orders = s.orders) :
    t.Valid := by
  cases s
  cases t
  cases hsubscriptions
  cases hevents
  cases hattributions
  cases horders
  exact ⟨⟨h.books.chain, h.books.bonus, h.books.trials, h.books.refs, h.books.subscribed⟩,
    ⟨h.attributed.total, h.attributed.registered, h.attributed.absent⟩, ⟨h.orders.counts, h.orders.credited⟩⟩

theorem Valid.trial (h : s.Valid) (hrow : s.subscriptions.lookup g.userId = some sub)
    (hfresh : s.hasEvent (g.event sub now) = false) (htype : g.type = .trialGranted) : (s.credit g sub now).Valid :=
  ⟨h.books.credit hrow hfresh, h.attributed.credit hrow (by rw [htype]; decide),
    h.orders.credit (by rw [htype]; decide) (by rw [htype]; decide)⟩

theorem Valid.bonus (h : s.Valid) {days : Int} (ha : s.attributions.lookup id = some a)
    (hstage : a.stage = .registered) (hinviter : a'.inviterUserId = a.inviterUserId)
    (hactivated : a'.stage = .activated) (hdays : a'.inviterBonusDays = days)
    (hrow : s.subscriptions.lookup a.inviterUserId = some sub)
    (hfresh : s.hasEvent ((Grant.bonus id a.inviterUserId days).event sub now) = false) :
    ({ s.credit (.bonus id a.inviterUserId days) sub now with
      attributions := s.attributions.insert id a' } : BillingStore).Valid := by
  have hbooks := h.books.credit hrow hfresh
  have horders : (s.credit (.bonus id a.inviterUserId days) sub now).Orders := h.orders.credit (by simp [Grant.bonus]) (by simp [Grant.bonus])
  refine ⟨⟨hbooks.chain, hbooks.bonus, hbooks.trials, hbooks.refs, hbooks.subscribed⟩, ?_,
    ⟨horders.counts, horders.credited⟩⟩
  refine h.attributed.activate ha hstage hinviter hactivated rfl (fun userId => ?_) fun id' hne => ?_
  · have hbonus := bonusOf_credit (g := .bonus id a.inviterUserId days) now hrow userId
    simp only [Grant.bonus, and_true] at hbonus
    rw [hdays]
    exact hbonus
  · have hcount := refCount_credit s (.bonus id a.inviterUserId days) sub now .inviteBonus (.attribution id')
    simp only [Grant.bonus, Option.some.injEq, EventRef.attribution.injEq, true_and, Ne.symm hne, if_false,
      Nat.add_zero] at hcount
    exact hcount

theorem Valid.activate (h : s.Valid) (ha : s.attributions.lookup id = some a) (hstage : a.stage = .registered)
    (hinviter : a'.inviterUserId = a.inviterUserId) (hactivated : a'.stage = .activated)
    (hdays : a'.inviterBonusDays = 0) :
    ({ s with attributions := s.attributions.insert id a' } : BillingStore).Valid := by
  refine ⟨⟨h.books.chain, h.books.bonus, h.books.trials, h.books.refs, h.books.subscribed⟩, ?_,
    ⟨h.orders.counts, h.orders.credited⟩⟩
  refine h.attributed.activate ha hstage hinviter hactivated rfl (fun userId => ?_) fun _ _ => rfl
  rw [hdays]
  simp [bonusOf]

theorem Valid.attribution (h : s.Valid) (hnone : s.attributions.lookup id = none) (hdays : a.inviterBonusDays = 0) :
    ({ s with attributions := s.attributions.insert id a } : BillingStore).Valid := by
  refine ⟨⟨h.books.chain, h.books.bonus, h.books.trials, h.books.refs, h.books.subscribed⟩, ⟨?_, ?_, ?_⟩,
    ⟨h.orders.counts, h.orders.credited⟩⟩
  · intro userId
    rw [attributedTo_eq, Table.sumBy_insert_of_none hnone, hdays, ite_self, Int.zero_add, ← attributedTo_eq]
    exact h.attributed.total userId
  · intro id' b hb hstage
    rcases (Table.lookup_insert_iff b).mp hb with ⟨rfl, rfl⟩ | ⟨-, hb⟩
    · exact ⟨hdays, h.attributed.absent id' hnone⟩
    · exact h.attributed.registered id' b hb hstage
  · intro id' hnone'
    by_cases heq : id' = id
    · subst heq
      rw [AList.lookup_insert] at hnone'
      cases hnone'
    · rw [AList.lookup_insert_ne heq] at hnone'
      exact h.attributed.absent id' hnone'

theorem Valid.subscription (h : s.Valid) {userId : Int} (hnone : s.subscriptions.lookup userId = none) :
    ({ s with subscriptions := s.subscriptions.insert userId ⟨none, none, none, 0⟩ } : BillingStore).Valid := by
  have hexpires : ∀ u, ({ s with subscriptions := s.subscriptions.insert userId ⟨none, none, none, 0⟩ } :
      BillingStore).expiresOf u = s.expiresOf u := by
    intro u
    by_cases heq : u = userId
    · subst heq
      simp [expiresOf, hnone]
    · simp only [expiresOf, AList.lookup_insert_ne heq]
  have hbonus : ∀ u, ({ s with subscriptions := s.subscriptions.insert userId ⟨none, none, none, 0⟩ } :
      BillingStore).bonusOf u = s.bonusOf u := by
    intro u
    by_cases heq : u = userId
    · subst heq
      simp [bonusOf, hnone]
    · simp only [bonusOf, AList.lookup_insert_ne heq]
  refine ⟨⟨?_, ?_, h.books.trials, h.books.refs, ?_⟩, ⟨?_, h.attributed.registered, h.attributed.absent⟩,
    ⟨h.orders.counts, h.orders.credited⟩⟩
  · intro u
    rw [hexpires u]
    exact h.books.chain u
  · intro u
    rw [hbonus u]
    exact h.books.bonus u
  · intro e he
    by_cases heq : e.userId = userId
    · rw [heq, AList.lookup_insert]
      rfl
    · rw [AList.lookup_insert_ne heq]
      exact h.books.subscribed e he
  · intro u
    rw [hbonus u]
    exact h.attributed.total u

theorem Valid.order (h : s.Valid) {orderNo : Text} {old : Option Order} {order : Order}
    (hold : s.orders.lookup orderNo = old)
    (hkeeps : ∀ o, old = some o → order.userId = o.userId ∧ order.periodMonths = o.periodMonths)
    (hbooked : booked (some order.status) = booked (old.map (·.status))) :
    ({ s with orders := s.orders.insert orderNo order } : BillingStore).Valid := by
  refine ⟨⟨h.books.chain, h.books.bonus, h.books.trials, h.books.refs, h.books.subscribed⟩,
    ⟨h.attributed.total, h.attributed.registered, h.attributed.absent⟩, ?_⟩
  refine h.orders.move hold rfl hkeeps ?_ (fun _ _ => ⟨rfl, rfl⟩) fun e he _ => .inl he
  rw [hbooked, ← hold]
  exact h.orders.counts orderNo

theorem Valid.charge (h : s.Valid) {orderNo : Text} {old order : Order} (hold : s.orders.lookup orderNo = some old)
    (huser : order.userId = old.userId) (hmonths : order.periodMonths = old.periodMonths)
    (hg : g.userId = old.userId ∧ g.ref = some (.order orderNo) ∧ (g.type = .purchase → g.days = old.periodMonths * 30))
    (htypes : g.type = .purchase ∧ old.status = .pending ∧ order.status = .paid ∨
      g.type = .refundRevoke ∧ old.status = .paid ∧ order.status = .refunded)
    (hrow : s.subscriptions.lookup g.userId = some sub) (hfresh : s.hasEvent (g.event sub now) = false) :
    ({ s.credit g sub now with orders := s.orders.insert orderNo order } : BillingStore).Valid := by
  obtain ⟨hguser, href, hdays⟩ := hg
  have hbooks := h.books.credit hrow hfresh
  have hattributed : (s.credit g sub now).Attributed := by
    refine h.attributed.credit hrow ?_
    rcases htypes with ⟨htype, -⟩ | ⟨htype, -⟩
    · rw [htype]
      decide
    · rw [htype]
      decide
  refine ⟨⟨hbooks.chain, hbooks.bonus, hbooks.trials, hbooks.refs, hbooks.subscribed⟩,
    ⟨hattributed.total, hattributed.registered, hattributed.absent⟩, ?_⟩
  have hcounts := h.orders.counts orderNo
  rw [hold] at hcounts
  refine h.orders.move hold rfl (fun o ho => ?_) ?_ (fun other hne => ?_) fun e he htype => ?_
  · cases ho
    exact ⟨huser, hmonths⟩
  · have hpurchase := refCount_credit s g sub now .purchase (.order orderNo)
    have hrevoke := refCount_credit s g sub now .refundRevoke (.order orderNo)
    rcases htypes with ⟨htype, hpending, hpaid⟩ | ⟨htype, hpaid, hrefunded⟩
    · simp only [hpending, Option.map_some, booked, Option.some.injEq, Prod.mk.injEq] at hcounts
      simp only [htype, href, reduceCtorEq, false_and, true_and, if_true, if_false] at hpurchase hrevoke
      rw [hpaid, booked]
      change some (1, 0) = some ((s.credit g sub now).refCount .purchase (.order orderNo),
        (s.credit g sub now).refCount .refundRevoke (.order orderNo))
      rw [hpurchase, hrevoke, ← hcounts.1, ← hcounts.2]
    · simp only [hpaid, Option.map_some, booked, Option.some.injEq, Prod.mk.injEq] at hcounts
      simp only [htype, href, reduceCtorEq, false_and, true_and, if_true, if_false] at hpurchase hrevoke
      rw [hrefunded, booked]
      change some (1, 1) = some ((s.credit g sub now).refCount .purchase (.order orderNo),
        (s.credit g sub now).refCount .refundRevoke (.order orderNo))
      rw [hpurchase, hrevoke, ← hcounts.1, ← hcounts.2]
  · have hother : ∀ type, (s.credit g sub now).refCount type (.order other) = s.refCount type (.order other) := by
      intro type
      rw [refCount_credit, href]
      simp [Ne.symm hne]
    exact ⟨hother .purchase, hother .refundRevoke⟩
  · rcases List.mem_append.mp he with he | he
    · exact .inl he
    · rw [List.mem_singleton.mp he] at htype ⊢
      exact .inr ⟨href, hguser.trans huser.symm, by rw [hmonths]; exact hdays htype⟩

theorem hasEvent_of_refCount (sub : Subscription) (now : Int) {ref : EventRef} (href : g.ref = some ref)
    (htype : g.type ≠ .trialGranted) (h : s.refCount g.type ref = 0) : s.hasEvent (g.event sub now) = false := by
  rw [refCount, List.countP_eq_zero] at h
  rw [hasEvent_eq_false]
  intro old hold
  constructor
  · rintro ⟨htrial, -⟩
    exact htype htrial
  · rintro ⟨-, hsame, hsameRef⟩
    have hne := h old hold
    rw [Bool.and_eq_true, decide_eq_true_eq, decide_eq_true_eq] at hne
    exact hne ⟨hsame, hsameRef.trans href⟩

theorem lookup_of_attributionByInvitee {inviteeId : Int} (h : s.attributionByInvitee inviteeId = some (id, a)) :
    s.attributions.lookup id = some a := by
  obtain ⟨row, hfind, heq⟩ := Option.map_eq_some_iff.mp h
  cases heq
  exact Table.lookup_eq_some_iff.mpr (List.mem_of_find?_eq_some hfind)

theorem updateOrderStatus_eq {order : Order} (h : s.orders.lookup orderNo = some order) (status : OrderStatus)
    (txnId : Option Text) (paidAt : Option Int) :
    updateOrderStatus orderNo status txnId paidAt s = [.order orderNo { order with
      status := status
      providerTxnId := txnId.or order.providerTxnId
      paidAt := paidAt.or order.paidAt }] := by
  simp only [updateOrderStatus, h]

theorem Valid.refCounts (h : s.Valid) {order : Order} (horder : s.orders.lookup orderNo = some order) :
    booked (some order.status) =
      some (s.refCount .purchase (.order orderNo), s.refCount .refundRevoke (.order orderNo)) := by
  have hcounts := h.orders.counts orderNo
  rwa [horder] at hcounts

theorem Valid.subscribed_of_paid (h : s.Valid) {order : Order} (horder : s.orders.lookup orderNo = some order)
    (hpaid : order.status = .paid) : (s.subscriptions.lookup order.userId).isSome = true := by
  have hcounts := h.refCounts horder
  simp only [hpaid, booked, Option.some.injEq, Prod.mk.injEq] at hcounts
  have hpos : 0 < s.refCount .purchase (.order orderNo) := by omega
  obtain ⟨e, he, hmatch⟩ := List.countP_pos_iff.mp hpos
  simp only [Bool.and_eq_true, decide_eq_true_eq] at hmatch
  obtain ⟨order', horder', huser, -⟩ := h.orders.credited e he hmatch.1 orderNo hmatch.2
  rw [horder] at horder'
  cases horder'
  rw [← huser]
  exact h.books.subscribed e he

end BillingStore

/-! ## What one call leaves to the others -/

def StatusStep : OrderStatus → OrderStatus → Prop
  | .pending, status => status = .pending ∨ status = .paid ∨ status = .refunded ∨ status = .failed
  | .paid, status => status = .paid ∨ status = .refunded
  | .refunding, status => status = .refunding
  | .refunded, status => status = .refunded
  | .failed, status => status = .failed

theorem StatusStep.refl (a : OrderStatus) : StatusStep a a := by
  cases a <;> simp [StatusStep]

theorem StatusStep.trans {a b c : OrderStatus} (h : StatusStep a b) (h' : StatusStep b c) : StatusStep a c := by
  cases a <;> cases b <;> simp_all [StatusStep]
  all_goals rcases h' with rfl | rfl <;> simp

def OrderStep (a b : Order) : Prop :=
  b.userId = a.userId ∧ b.amountCents = a.amountCents ∧ b.periodMonths = a.periodMonths ∧ StatusStep a.status b.status

theorem OrderStep.refl (a : Order) : OrderStep a a := ⟨rfl, rfl, rfl, .refl _⟩

theorem OrderStep.trans (a b c : Order) (h : OrderStep a b) (h' : OrderStep b c) : OrderStep a c :=
  ⟨h'.1.trans h.1, h'.2.1.trans h.2.1, h'.2.2.1.trans h.2.2.1, h.2.2.2.trans h'.2.2.2⟩

/-- Events and claims stay, and orders move on. -/
structure BillingStore.Evolves (s t : BillingStore) : Prop where
  events : s.events <+: t.events
  orders : Table.Evolves OrderStep s.orders t.orders
  fingerprints : Table.Evolves Eq s.fingerprints t.fingerprints

theorem BillingStore.Evolves.refl (s : BillingStore) : s.Evolves s :=
  ⟨List.prefix_refl _, .refl OrderStep.refl _, .refl (fun _ => rfl) _⟩

theorem BillingStore.Evolves.trans {s t u : BillingStore} (h : s.Evolves t) (h' : t.Evolves u) : s.Evolves u :=
  ⟨h.events.trans h'.events, h.orders.trans OrderStep.trans h'.orders,
    h.fingerprints.trans (fun _ _ _ => Eq.trans) h'.fingerprints⟩

def BillingKey.Same (s t : BillingStore) : BillingKey → Prop
  | .user id => t.users.lookup id = s.users.lookup id
  | .subscription userId => t.subscriptions.lookup userId = s.subscriptions.lookup userId
  | .trialEvent userId => (∀ e ∈ s.events, ¬ (e.type = .trialGranted ∧ e.userId = userId)) →
      ∀ e ∈ t.events, ¬ (e.type = .trialGranted ∧ e.userId = userId)
  | .refEvent type ref => (∀ e ∈ s.events, ¬ (e.type = type ∧ e.ref = some ref)) →
      ∀ e ∈ t.events, ¬ (e.type = type ∧ e.ref = some ref)
  | .attribution id => t.attributions.lookup id = s.attributions.lookup id
  | .invitee _ => True
  | .fingerprint fp => t.fingerprints.lookup fp = s.fingerprints.lookup fp
  | .order orderNo => t.orders.lookup orderNo = s.orders.lookup orderNo
  | .refund id => t.refunds.lookup id = s.refunds.lookup id

namespace BillingKey

theorem same_refl (s : BillingStore) (k : BillingKey) : k.Same s s := by
  cases k <;> simp [Same]

variable {k : BillingKey} {s t : BillingStore}

theorem Same.trans {u : BillingStore} (h : k.Same s t) (h' : k.Same t u) : k.Same s u := by
  cases k with
  | trialEvent userId => exact fun habsent => h' (h habsent)
  | refEvent type ref => exact fun habsent => h' (h habsent)
  | invitee userId => trivial
  | user _ | subscription _ | attribution _ | fingerprint _ | order _ | refund _ => exact Eq.trans h' h

theorem same_event {e : SubscriptionEvent} (h : k ∉ e.indexes) : k.Same s { s with events := s.events ++ [e] } := by
  cases k with
  | trialEvent userId =>
    intro habsent old hold
    rcases List.mem_append.mp hold with hold | hold
    · exact habsent old hold
    · rw [List.mem_singleton.mp hold]
      rintro ⟨htype, rfl⟩
      exact h (by simp [SubscriptionEvent.indexes, htype])
  | refEvent type ref =>
    intro habsent old hold
    rcases List.mem_append.mp hold with hold | hold
    · exact habsent old hold
    · rw [List.mem_singleton.mp hold]
      rintro ⟨rfl, href⟩
      exact h (by simp [SubscriptionEvent.indexes, href])
  | invitee userId => trivial
  | user _ | subscription _ | attribution _ | fingerprint _ | order _ | refund _ => exact rfl

theorem same_apply {w : BillingWrite} (h : k ∉ billingRows.rows w) : k.Same s (billingRows.apply s w) := by
  cases w with
  | event e => exact same_event h
  | user _ _ | subscription _ _ | attribution _ _ | fingerprint _ _ | order _ _ | refund _ _ =>
    cases k <;> first
      | exact rfl
      | exact trivial
      | exact fun habsent => habsent
      | exact AList.lookup_insert_ne fun heq => h (by simp [billingRows, heq])

theorem same_view {ws : List BillingWrite} (s : BillingStore) (h : ∀ w ∈ ws, k ∉ billingRows.rows w) :
    k.Same s (billingRows.view s ws) := by
  induction ws generalizing s with
  | nil => exact same_refl s k
  | cons w ws ih =>
    have hhead := same_apply (s := s) (h w (by simp))
    exact hhead.trans (ih (billingRows.apply s w) fun w' hw' => h w' (by simp [hw']))

theorem Same.event {e : SubscriptionEvent} (h : k.Same s t) :
    k.Same { s with events := s.events ++ [e] } { t with events := t.events ++ [e] } := by
  cases k with
  | trialEvent userId =>
    intro habsent old hold
    rcases List.mem_append.mp hold with hold | hold
    · exact h (fun old hold => habsent old (List.mem_append_left _ hold)) old hold
    · exact habsent old (List.mem_append_right _ hold)
  | refEvent type ref =>
    intro habsent old hold
    rcases List.mem_append.mp hold with hold | hold
    · exact h (fun old hold => habsent old (List.mem_append_left _ hold)) old hold
    · exact habsent old (List.mem_append_right _ hold)
  | invitee userId => trivial
  | user _ | subscription _ | attribution _ | fingerprint _ | order _ | refund _ => exact h

theorem Same.view (h : k.Same s t) (ws : List BillingWrite) :
    k.Same (billingRows.view s ws) (billingRows.view t ws) := by
  induction ws generalizing s t with
  | nil => exact h
  | cons w ws ih =>
    refine ih (s := billingRows.apply s w) (t := billingRows.apply t w) ?_
    cases w with
    | event e => exact h.event
    | user _ _ | subscription _ _ | attribution _ _ | fingerprint _ _ | order _ _ | refund _ _ =>
      cases k <;> first
        | exact h
        | exact Table.lookup_insert_congr h _

end BillingKey

theorem hasEvent_same {s t : BillingStore} {e : SubscriptionEvent} (hsame : ∀ k ∈ e.indexes, k.Same s t)
    (h : s.hasEvent e = false) : t.hasEvent e = false := by
  rw [BillingStore.hasEvent_eq_false] at h ⊢
  intro old hold
  constructor
  · rintro ⟨htype, htrial⟩
    have hkeep := hsame (.trialEvent e.userId) (by simp [SubscriptionEvent.indexes, htype])
    exact hkeep (fun other hother hmatch => (h other hother).1 ⟨htype, hmatch⟩) old hold htrial
  · rintro ⟨hsome, htype, href⟩
    obtain ⟨ref, hsome⟩ := Option.isSome_iff_exists.mp hsome
    have hkeep := hsame (.refEvent e.type ref) (by simp [SubscriptionEvent.indexes, hsome])
    refine hkeep (fun other hother hmatch => (h other hother).2 ?_) old hold ⟨htype, href.trans hsome⟩
    exact ⟨by rw [hsome]; rfl, hmatch.1, hmatch.2.trans hsome.symm⟩

end Lumio.Control
