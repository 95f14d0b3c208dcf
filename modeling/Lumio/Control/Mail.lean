import Lumio.Lib.Machine
import Lumio.Lib.Table
import Lumio.Lib.Text

/-!
# The outbox of e-mails

Workers claim a batch of messages, hand them to the sender one after the other and record each result, in three separate
steps. A maintenance job takes back messages whose worker seems to be gone.
-/

namespace Lumio.Control

inductive MailStatus where
  | pending
  | sending
  | sent
  | failed
deriving DecidableEq

/-- A row of `email_outbox`. Instants are seconds. -/
structure OutboxMail where
  id : Nat
  toEmail : Text
  template : Text
  status : MailStatus
  attempts : Nat
  lastError : Text
  createdAt : Int
  sentAt : Option Int
  lastAttemptAt : Option Int
deriving DecidableEq

structure OutboxMessage where
  id : Nat
  toEmail : Text
  template : Text
deriving DecidableEq

namespace OutboxMail

def message (m : OutboxMail) : OutboxMessage := ⟨m.id, m.toEmail, m.template⟩

/-- The pause grows by five minutes with every attempt, up to half an hour. -/
def claimable (now : Int) (m : OutboxMail) : Bool :=
  m.status = .pending &&
    match m.lastAttemptAt with
    | none => true
    | some last => last < now - min m.attempts 6 * 300

def claimed (now : Int) (m : OutboxMail) : OutboxMail :=
  { m with status := .sending, lastAttemptAt := some now, attempts := m.attempts + 1 }

def markSent (now : Int) (m : OutboxMail) : OutboxMail := { m with status := .sent, sentAt := some now, lastError := [] }

def markFailed (reason : Text) (m : OutboxMail) : OutboxMail :=
  { m with lastError := reason, status := if 5 ≤ m.attempts then .failed else .pending }

def stale (before : Int) (m : OutboxMail) : Bool :=
  m.status = .sending &&
    match m.lastAttemptAt with
    | none => false
    | some last => last < before

def requeued (m : OutboxMail) : OutboxMail := { m with status := .pending }

end OutboxMail

/-- One `DrainOnce` under way: what it has still to deliver, and whether the first of it has been handed over. -/
structure Drain where
  queue : List OutboxMessage
  handed : Bool
deriving DecidableEq

def Drain.unhanded (d : Drain) : List OutboxMessage := if d.handed then d.queue.tail else d.queue

structure Outbox where
  rows : Table Nat OutboxMail
  nextId : Nat
  drains : Table Nat Drain
  nextDrain : Nat

/-- `locked` are the rows that the claims of other workers hold at that moment. -/
inductive MailEvent where
  | enqueue (toEmail template : Text) (createdAt : Int)
  | claim (now : Int) (locked : List Nat)
  | hand (drain : Nat)
  | succeed (drain : Nat) (now : Int)
  | fail (drain : Nat) (reason : Text)
  | crash (drain : Nat)
  | requeue (staleBefore : Int)
deriving DecidableEq

inductive MailOutcome where
  | done
  | handed (id : Nat)
  | sent (id : Nat)
  | failed (id : Nat)
deriving DecidableEq

namespace Outbox

def initial : Outbox := ⟨∅, 0, ∅, 0⟩

def batch : Nat := 20

def claimPending (s : Outbox) (now : Int) (locked : List Nat) : List OutboxMail :=
  ((s.rows.orderBy fun a b => a.createdAt ≤ b.createdAt).filter fun m =>
    m.claimable now && !locked.contains m.id).take batch

def claim (s : Outbox) (now : Int) (locked : List Nat) : Outbox :=
  { s with
    rows := s.rows.mapRows fun id m => if id ∈ (s.claimPending now locked).map (·.id) then m.claimed now else m
    drains := s.drains.insert s.nextDrain ⟨(s.claimPending now locked).map (·.message), false⟩
    nextDrain := s.nextDrain + 1 }

def record (s : Outbox) (drain : Nat) (m : OutboxMessage) (rest : List OutboxMessage) (f : OutboxMail → OutboxMail) : Outbox :=
  { s with rows := s.rows.modify m.id f, drains := s.drains.insert drain ⟨rest, false⟩ }

def requeue (s : Outbox) (staleBefore : Int) : Outbox :=
  { s with rows := s.rows.mapRows fun _ m => if m.stale staleBefore then m.requeued else m }

def step (s : Outbox) : MailEvent → Outbox × MailOutcome
  | .enqueue toEmail template createdAt =>
    ({ s with
        rows := s.rows.insert s.nextId ⟨s.nextId, toEmail, template, .pending, 0, [], createdAt, none, none⟩
        nextId := s.nextId + 1 }, .done)
  | .claim now locked => (s.claim now locked, .done)
  | .hand drain =>
    match s.drains.lookup drain with
    | some ⟨m :: rest, false⟩ => ({ s with drains := s.drains.insert drain ⟨m :: rest, true⟩ }, .handed m.id)
    | _ => (s, .done)
  | .succeed drain now =>
    match s.drains.lookup drain with
    | some ⟨m :: rest, true⟩ => (s.record drain m rest (.markSent now), .sent m.id)
    | _ => (s, .done)
  | .fail drain reason =>
    match s.drains.lookup drain with
    | some ⟨m :: rest, true⟩ => (s.record drain m rest (.markFailed reason), .failed m.id)
    | _ => (s, .done)
  | .crash drain => ({ s with drains := s.drains.erase drain }, .done)
  | .requeue staleBefore => (s.requeue staleBefore, .done)

end Outbox

def outboxMachine : Machine Outbox MailEvent MailOutcome := ⟨Outbox.step⟩

abbrev MailEntry := Machine.Entry Outbox MailEvent MailOutcome

/-! ## What is promised -/

def timesHanded (log : List MailEntry) (id : Nat) : Nat := log.countP fun e => e.answer = .handed id

/-- What was recorded as sent stays so and is not handed over again, and nothing is handed over more than five times. -/
structure DeliversOnce (log : List MailEntry) (s : Outbox) : Prop where
  final : ∀ e ∈ log, ∀ id, e.answer = .sent id → ∃ m, s.rows.lookup id = some m ∧ m.status = .sent
  last : log.Pairwise fun e later => ∀ id, e.answer = .sent id → later.answer ≠ .handed id
  limit : ∀ id, timesHanded log id ≤ 5

def NeverStuck (s : Outbox) : Prop :=
  ∀ id m, s.rows.lookup id = some m → m.status ≠ .sent → m.status ≠ .failed →
    ∃ events m', (outboxMachine.run s events).rows.lookup id = some m' ∧ m'.status ≠ m.status

/-- A message is taken back only if no worker that lives has it, and if it has been claimed less than five times. -/
def TakesBackLost (s : Outbox) : MailEvent → Prop
  | .requeue staleBefore => ∀ row ∈ s.rows.entries, row.2.stale staleBefore = true →
      row.2.attempts < 5 ∧ ∀ d ∈ s.drains.entries, row.1 ∉ d.2.queue.map (·.id)
  | _ => True

instance (s : Outbox) (event : MailEvent) : Decidable (TakesBackLost s event) :=
  match event with
  | .requeue staleBefore => inferInstanceAs (Decidable (∀ row ∈ s.rows.entries, row.2.stale staleBefore = true →
      row.2.attempts < 5 ∧ ∀ d ∈ s.drains.entries, row.1 ∉ d.2.queue.map (·.id)))
  | .enqueue _ _ _ => inferInstanceAs (Decidable True)
  | .claim _ _ => inferInstanceAs (Decidable True)
  | .hand _ => inferInstanceAs (Decidable True)
  | .succeed _ _ => inferInstanceAs (Decidable True)
  | .fail _ _ => inferInstanceAs (Decidable True)
  | .crash _ => inferInstanceAs (Decidable True)

end Lumio.Control
