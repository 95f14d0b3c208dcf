import Lumio.Control.Identities
import Lumio.Control.RateLimit
import Lumio.Control.Status
import Lumio.Lib.Prog

/-!
# Attempts to sign in

Wrong passwords and wrong verification codes are counted in the transaction that then refuses the call. Instants are
nanoseconds.
-/

namespace Lumio.Control.Attempts

open Lowercase Prog

structure User where
  email : Text
  passwordHash : Text
  status : AccountStatus
  emailVerifiedAt : Option Int
  lockedUntil : Option Int
  failedLoginCount : Nat
  lastActiveAt : Option Int
deriving DecidableEq

def User.isLocked (now : Int) (u : User) : Bool :=
  match u.lockedUntil with
  | some until_ => now < until_
  | none => false

def User.lockRemaining (now : Int) (u : User) : Int :=
  match u.lockedUntil with
  | some until_ => if now < until_ then timeSub until_ now else 0
  | none => 0

inductive VerificationPurpose where
  | signup
  | emailChange
deriving DecidableEq

structure VerificationCode where
  userId : Int
  purpose : VerificationPurpose
  targetEmail : Text
  codeHash : Text
  expiresAt : Int
  attemptsUsed : Int
  maxAttempts : Int
  consumedAt : Option Int
deriving DecidableEq

def VerificationCode.attemptsRemaining (c : VerificationCode) : Int := max (c.maxAttempts - c.attemptsUsed) 0

structure Db where
  users : Table Int User
  codes : Table Int VerificationCode
  activity : List (Int × Int)
  sessions : List Int
  outbox : List (Text × Text)

inductive Failure where
  | rateLimited (retry : Int)
  | invalidCredentials
  | accountLocked (remaining : Int)
  | accountDisabled
  | emailUnverified
  | emailTaken
  | codeExpired
  | codeInvalid (remaining : Int)
  | internal
deriving DecidableEq

/-- What `Hasher.Verify` says: the hash may also be no hash. -/
inductive Verdict where
  | fits
  | mismatch
  | malformed
deriving DecidableEq

/-- How passwords are compared with their hashes, how codes are hashed, and how an address is shown. -/
class Credentials where
  verify : Text → Text → Verdict
  hashCode : Text → Text
  maskEmail : Text → Text

abbrev TxM := EStateM Failure Db

/-- `InTx`: an error of the function is returned, and what it has written is rolled back. -/
def inTx {ε σ α : Type} (fn : EStateM ε σ α) : EStateM ε σ α := fun s =>
  match fn s with
  | .ok a t => .ok a t
  | .error e _ => .error e s

/-- `LoginFailureThreshold` -/
def loginFailureThreshold : Nat := 5

def loginLockDuration : Int := 15 * minute

def ruleLoginByIP : Rule := ⟨10, minute⟩

def ruleLoginByEmail : Rule := ⟨10, 5 * minute⟩

section Queries

variable [Lowercase]

def Db.getUserByEmail (email : Text) (db : Db) : Option (Int × User) :=
  (db.users.entries.find? fun row => lower row.2.email = lower (normalizeEmail email)).map fun row => (row.1, row.2)

end Queries

def Db.getActiveVerificationCode (userId : Int) (purpose : VerificationPurpose) (db : Db) : Option (Int × VerificationCode) :=
  (db.codes.entries.find? fun row => row.2.userId = userId ∧ row.2.purpose = purpose ∧ row.2.consumedAt = none).map
    fun row => (row.1, row.2)

def User.fail (now : Int) (u : User) : User :=
  { u with
    failedLoginCount := u.failedLoginCount + 1
    lockedUntil := if loginFailureThreshold ≤ u.failedLoginCount + 1 then some (now + loginLockDuration) else u.lockedUntil }

def recordLoginFailure (id now : Int) : TxM User := do
  match (← get).users.lookup id with
  | none => throw .internal
  | some u => do
    modify fun db => { db with users := db.users.insert id (u.fail now) }
    pure (u.fail now)

def updateUser (id : Int) (f : User → User) : TxM Unit := modify fun db => { db with users := db.users.modify id f }

def clearLoginFailures (id now : Int) : TxM Unit :=
  updateUser id fun u => { u with failedLoginCount := 0, lockedUntil := none, lastActiveAt := some now }

def activateUser (id now : Int) : TxM Unit :=
  updateUser id fun u =>
    { u with status := .active, emailVerifiedAt := some now, failedLoginCount := 0, lockedUntil := none }

def recordActivity (id now : Int) : TxM Unit :=
  modify fun db => { db with activity := if (id, now / (24 * hour)) ∈ db.activity then db.activity else (id, now / (24 * hour)) :: db.activity }

def issueSession (id : Int) : TxM Unit := modify fun db => { db with sessions := id :: db.sessions }

def incrementVerificationAttempts (id : Int) : TxM Int := do
  match (← get).codes.lookup id with
  | none => throw .internal
  | some c => do
    modify fun db => { db with codes := db.codes.insert id { c with attemptsUsed := c.attemptsUsed + 1 } }
    pure (max (c.maxAttempts - (c.attemptsUsed + 1)) 0)

def consumeVerificationCode (id now : Int) : TxM Unit :=
  modify fun db =>
    { db with codes := db.codes.modify id fun c => if c.consumedAt = none then { c with consumedAt := some now } else c }

def enqueueEmail (email template : Text) : TxM Unit := modify fun db => { db with outbox := (email, template) :: db.outbox }

section Calls

variable [Lowercase] [Credentials]

open Credentials

/-- The transaction of `Login`. -/
def loginTx (email password : Text) (now : Int) : TxM Unit := do
  match (← get).getUserByEmail email with
  | none => throw .invalidCredentials
  | some (id, u) =>
    if u.isLocked now then throw (.accountLocked (u.lockRemaining now))
    else if u.status = .disabled then throw .accountDisabled
    else
      match verify password u.passwordHash with
      | .malformed => throw .internal
      | .mismatch => do
        let updated ← recordLoginFailure id now
        if updated.isLocked now then throw (.accountLocked (updated.lockRemaining now)) else throw .invalidCredentials
      | .fits =>
        if u.status = .pendingEmail then throw .emailUnverified
        else do
          clearLoginFailures id now
          recordActivity id now
          issueSession id

def checkCode (userId : Int) (purpose : VerificationPurpose) (code : Text) (now : Int)
    (next : Int → VerificationCode → TxM Unit) : TxM Unit := do
  match (← get).getActiveVerificationCode userId purpose with
  | none => throw .codeExpired
  | some (id, record) =>
    if record.expiresAt ≤ now ∨ record.attemptsRemaining = 0 then throw .codeExpired
    else if record.codeHash ≠ hashCode code then do
      let remaining ← incrementVerificationAttempts id
      if remaining = 0 then throw .codeExpired else throw (.codeInvalid remaining)
    else next id record

/-- The transaction of `VerifyEmail`. -/
def verifyEmailTx (email code : Text) (now : Int) : TxM Unit := do
  match (← get).getUserByEmail email with
  | none => throw .codeExpired
  | some (userId, u) =>
    if u.status = .disabled then throw .accountDisabled
    else
      checkCode userId .signup code now fun id _ => do
        consumeVerificationCode id now
        activateUser userId now
        recordActivity userId now
        issueSession userId

def Db.emailTaken (userId : Int) (email : Text) (db : Db) : Bool :=
  db.users.entries.any fun row => row.1 ≠ userId && lower row.2.email = lower email

def updateEmail (userId : Int) (email : Text) (now : Int) : TxM Unit := do
  if (← get).emailTaken userId (normalizeEmail email) then throw .emailTaken
  else updateUser userId fun u => { u with email := normalizeEmail email, emailVerifiedAt := some now }

/-- The transaction of `ConfirmEmailChange`. -/
def confirmEmailChangeTx (userId : Int) (code : Text) (now : Int) : TxM Unit :=
  checkCode userId .emailChange code now fun id record => do
    match (← get).users.lookup userId with
    | none => throw .internal
    | some previous => do
      consumeVerificationCode id now
      updateEmail userId record.targetEmail now
      enqueueEmail previous.email (maskEmail record.targetEmail)

/-! ## The service -/

structure Service where
  limiter : Limiter
  db : Db

inductive Call where
  | login (email password ip : Text) (now : Int)
  | verifyEmail (email code : Text) (now : Int)
  | confirmEmailChange (userId : Int) (code : Text) (now : Int)

abbrev Answer := Except Failure Unit

def runTx (fn : TxM Unit) (s : Service) : Service × Answer :=
  match inTx fn s.db with
  | .ok _ db => ({ s with db }, .ok ())
  | .error e db => ({ s with db }, .error e)

def loginKeyIP (ip : Text) : Text := "login:ip:".toList ++ ip

def loginKeyEmail (email : Text) : Text := "login:email:".toList ++ normalizeEmail email

def login (email password ip : Text) (now : Int) (s : Service) : Service × Answer :=
  match allow now (loginKeyIP ip) ruleLoginByIP s.limiter with
  | (limiter, false, retry) => ({ s with limiter }, .error (.rateLimited retry))
  | (limiter, true, _) =>
    match allow now (loginKeyEmail email) ruleLoginByEmail limiter with
    | (limiter, false, retry) => ({ s with limiter }, .error (.rateLimited retry))
    | (limiter, true, _) =>
      match runTx (loginTx (normalizeEmail email) password now) { s with limiter } with
      | (s, .ok _) => ({ s with limiter := reset (loginKeyEmail email) s.limiter }, .ok ())
      | (s, .error e) => (s, .error e)

def step (s : Service) : Call → Service × Answer
  | .login email password ip now => login email password ip now s
  | .verifyEmail email code now => runTx (verifyEmailTx email code now) s
  | .confirmEmailChange userId code now => runTx (confirmEmailChangeTx userId code now) s

def machine : Machine Service Call Answer := ⟨step⟩

abbrev LogEntry := Machine.Entry Service Call Answer

/-! ## What is compared -/

def Call.now : Call → Int
  | .login _ _ _ now => now
  | .verifyEmail _ _ now => now
  | .confirmEmailChange _ _ now => now

/-- The account whose password a call of `Login` compares, and what comes of it. -/
def loginCheck (email password : Text) (now : Int) (db : Db) : Option (Int × Verdict) :=
  match db.getUserByEmail email with
  | none => none
  | some (id, u) => if u.isLocked now ∨ u.status = .disabled then none else some (id, verify password u.passwordHash)

def passwordCheck (s : Service) : Call → Option (Int × Verdict)
  | .login email password ip now =>
    if (allow now (loginKeyIP ip) ruleLoginByIP s.limiter).2.1 ∧
        (allow now (loginKeyEmail email) ruleLoginByEmail (allow now (loginKeyIP ip) ruleLoginByIP s.limiter).1).2.1 then
      loginCheck (normalizeEmail email) password now s.db
    else none
  | _ => none

def activeCheck (userId : Int) (purpose : VerificationPurpose) (code : Text) (now : Int) (db : Db) : Option (Int × Bool) :=
  match db.getActiveVerificationCode userId purpose with
  | none => none
  | some (id, record) =>
    if record.expiresAt ≤ now ∨ record.attemptsRemaining = 0 then none else some (id, record.codeHash == hashCode code)

def codeCheck (s : Service) : Call → Option (Int × Bool)
  | .login .. => none
  | .verifyEmail email code now =>
    match s.db.getUserByEmail email with
    | none => none
    | some (userId, u) => if u.status = .disabled then none else activeCheck userId .signup code now s.db
  | .confirmEmailChange userId code now => activeCheck userId .emailChange code now s.db

def WrongPassword (s : Service) (call : Call) (id : Int) : Prop := passwordCheck s call = some (id, .mismatch)

def WrongCode (s : Service) (call : Call) (id : Int) : Prop := codeCheck s call = some (id, false)

instance (s : Service) (call : Call) (id : Int) : Decidable (WrongPassword s call id) := inferInstanceAs (Decidable (_ = _))

instance (s : Service) (call : Call) (id : Int) : Decidable (WrongCode s call id) := inferInstanceAs (Decidable (_ = _))

def passwordChecks (id : Int) (log : List LogEntry) : List (Verdict × Int) :=
  log.filterMap fun e =>
    match passwordCheck e.before e.call with
    | some (user, verdict) => if user = id then some (verdict, e.call.now) else none
    | none => none

/-- Every wrong password and every wrong code is counted; an account with five wrong passwords in a row is locked, and an
issued code is compared with no more wrong ones than its attempts. -/
structure Remembered (s : Service) (log : List LogEntry) : Prop where
  passwords : ∀ e ∈ log, ∀ id, WrongPassword e.before e.call id →
    ∃ u u', e.before.db.users.lookup id = some u ∧ (step e.before e.call).1.db.users.lookup id = some u' ∧
      u'.failedLoginCount = u.failedLoginCount + 1
  codes : ∀ e ∈ log, ∀ id, WrongCode e.before e.call id →
    ∃ c c', e.before.db.codes.lookup id = some c ∧ (step e.before e.call).1.db.codes.lookup id = some c' ∧
      c'.attemptsUsed = c.attemptsUsed + 1
  locked : ∀ (pre : List LogEntry) (e : LogEntry) (post : List LogEntry) id verdict older recent last,
    log = pre ++ e :: post →
    passwordCheck e.before e.call = some (id, verdict) → passwordChecks id pre = older ++ recent →
    recent.length = loginFailureThreshold → (∀ check ∈ recent, check.1 = .mismatch) → recent.getLast? = some last →
    last.2 + loginLockDuration ≤ e.call.now
  bounded : ∀ id c, s.db.codes.lookup id = some c →
    (log.filter fun e => decide (WrongCode e.before e.call id)).length ≤ c.maxAttempts.toNat

end Calls

/-! ## Programs that throw -/

section Fails

variable {ε σ α β : Type} {m : EStateM ε σ α} {f : α → EStateM ε σ β} {s : σ}

def Fails (m : EStateM ε σ α) (s : σ) : Prop := wp m (fun _ _ => False) (fun _ _ => True) s

theorem Fails.throw (e : ε) (s : σ) : Fails (MonadExcept.throw e : EStateM ε σ α) s := trivial

theorem Fails.ite {c : Prop} [Decidable c] {m' : EStateM ε σ α} (h : Fails m s) (h' : Fails m' s) :
    Fails (if c then m else m') s := by
  split_ifs
  · exact h
  · exact h'

theorem Fails.bind (hf : ∀ a t, Fails (f a) t) : Fails (m >>= f) s := by
  unfold Fails
  rw [wp_bind]
  unfold wp
  cases m s with
  | ok a t => exact hf a t
  | error e t => trivial

theorem inTx_of_fails (h : Fails m s) : ∃ e, inTx m s = .error e s := by
  unfold Fails wp at h
  cases hm : m s with
  | ok a t =>
    rw [hm] at h
    cases h
  | error e t => exact ⟨e, by rw [inTx, hm]⟩

theorem runTx_of_fails {fn : TxM Unit} {s : Service} (h : Fails fn s.db) :
    (runTx fn s).1 = s ∧ ∃ e, (runTx fn s).2 = .error e := by
  obtain ⟨e, herror⟩ := inTx_of_fails h
  rw [runTx, herror]
  exact ⟨rfl, e, rfl⟩

end Fails

/-! ## Wrong attempts are rolled back -/

section Rollback

variable [Lowercase] [Credentials] {s : Service} {db : Db} {call : Call} {id now userId : Int} {email password code : Text}
  {purpose : VerificationPurpose} {next : Int → VerificationCode → TxM Unit}

theorem loginTx_fails (h : loginCheck email password now db = some (id, .mismatch)) : Fails (loginTx email password now) db := by
  unfold loginCheck at h
  split at h
  · cases h
  · rename_i id' u huser
    split_ifs at h with hrefused
    rw [not_or] at hrefused
    simp only [Option.some.injEq, Prod.mk.injEq] at h
    unfold Fails loginTx
    rw [wp_bind, wp_get, huser]
    simp only [hrefused.1, hrefused.2, h.2, if_false, Bool.false_eq_true]
    exact Fails.bind fun _ _ => .ite (.throw _ _) (.throw _ _)

omit [Lowercase] in
theorem checkCode_fails (h : activeCheck userId purpose code now db = some (id, false)) :
    Fails (checkCode userId purpose code now next) db := by
  unfold activeCheck at h
  split at h
  · cases h
  · rename_i id' record hrecord
    split_ifs at h with hover
    simp only [Option.some.injEq, Prod.mk.injEq, beq_eq_false_iff_ne] at h
    unfold Fails checkCode
    rw [wp_bind, wp_get, hrecord]
    simp only [hover, h.2, if_false, if_true, ne_eq, not_false_eq_true]
    exact Fails.bind fun _ _ => .ite (.throw _ _) (.throw _ _)

theorem step_of_wrongPassword (h : WrongPassword s call id) : (step s call).1.db = s.db := by
  cases call with
  | login email password ip now =>
    simp only [WrongPassword, passwordCheck] at h
    split_ifs at h with hallowed
    rcases hip : allow now (loginKeyIP ip) ruleLoginByIP s.limiter with ⟨limiter, allowed, retry⟩
    rw [hip] at hallowed
    obtain ⟨rfl, hemail⟩ := hallowed
    rcases hby : allow now (loginKeyEmail email) ruleLoginByEmail limiter with ⟨limiter', allowed', retry'⟩
    rw [hby] at hemail
    obtain rfl : allowed' = true := hemail
    rcases hrun : runTx (loginTx (normalizeEmail email) password now) { s with limiter := limiter' } with ⟨s', answer⟩
    obtain ⟨hsame, e, herror⟩ := runTx_of_fails (s := { s with limiter := limiter' }) (loginTx_fails h)
    rw [hrun] at hsame herror
    obtain rfl : s' = { s with limiter := limiter' } := hsame
    obtain rfl : answer = .error e := herror
    simp only [step, login, hip, hby, hrun]
  | verifyEmail => cases h
  | confirmEmailChange => cases h

theorem step_of_wrongCode (h : WrongCode s call id) : (step s call).1.db = s.db := by
  cases call with
  | login => cases h
  | verifyEmail email code now =>
    simp only [WrongCode, codeCheck] at h
    have hfails : Fails (verifyEmailTx email code now) s.db := by
      split at h
      · cases h
      · rename_i userId u huser
        split_ifs at h with hdisabled
        unfold Fails verifyEmailTx
        rw [wp_bind, wp_get, huser]
        simp only [hdisabled, if_false]
        exact checkCode_fails h
    exact congrArg Service.db (runTx_of_fails hfails).1
  | confirmEmailChange userId code now =>
    have hfails : Fails (confirmEmailChangeTx userId code now) s.db := checkCode_fails h
    exact congrArg Service.db (runTx_of_fails hfails).1

/-- Attempts are remembered in the runs in which there is nothing to remember. -/
theorem remembered_iff (s : Service) (calls : List Call) : Remembered s (machine.log s calls) ↔
    ∀ e ∈ machine.log s calls, ∀ id, ¬WrongPassword e.before e.call id ∧ ¬WrongCode e.before e.call id := by
  constructor
  · intro h e he id
    constructor
    · intro hwrong
      obtain ⟨u, u', hu, hu', hcount⟩ := h.passwords e he id hwrong
      rw [step_of_wrongPassword hwrong, hu] at hu'
      cases hu'
      omega
    · intro hwrong
      obtain ⟨c, c', hc, hc', hcount⟩ := h.codes e he id hwrong
      rw [step_of_wrongCode hwrong, hc] at hc'
      cases hc'
      omega
  · intro h
    constructor
    · exact fun e he id hwrong => absurd hwrong (h e he id).1
    · exact fun e he id hwrong => absurd hwrong (h e he id).2
    · intro pre e post id verdict older recent last hlog _ hchecks hlength hmismatch hlast
      exfalso
      have hmem : last ∈ passwordChecks id pre := by
        rw [hchecks]
        exact List.mem_append_right _ (List.mem_of_getLast? hlast)
      obtain ⟨entry, hentry, hcheck⟩ := List.mem_filterMap.mp hmem
      split at hcheck
      · rename_i user found hfound
        split_ifs at hcheck with huser
        have hwrong := hmismatch last (List.mem_of_getLast? hlast)
        cases hcheck
        subst huser
        have hfound' : found = .mismatch := hwrong
        rw [hfound'] at hfound
        refine (h entry ?_ user).1 hfound
        rw [hlog]
        exact List.mem_append_left _ hentry
      · cases hcheck
    · intro id c _
      have hnone : (machine.log s calls).filter (fun e => decide (WrongCode e.before e.call id)) = [] := by
        rw [List.filter_eq_nil_iff]
        intro e he hwrong
        exact (h e he id).2 (of_decide_eq_true hwrong)
      rw [hnone]
      exact Nat.zero_le _

end Rollback

/-! ## Five wrong passwords -/

section Sample

abbrev plainLowercase : Lowercase := ⟨id, id⟩

abbrev plainCredentials : Credentials := ⟨fun password hash => if password = hash then .fits else .mismatch, id, id⟩

def oneUser : Service where
  limiter := newWithClock 0
  db :=
    { users := AList.insert 1 ⟨['a'], ['r'], .active, some 0, none, 0, none⟩ ∅
      codes := ∅
      activity := []
      sessions := []
      outbox := [] }

def loginSecond (password : Text) (second : Int) : Call := .login ['a'] password ['i'] (second * 1000000000)

/-- Five wrong passwords, and then the right one. -/
def guesses : List Call :=
  [loginSecond ['w'] 1, loginSecond ['w'] 2, loginSecond ['w'] 3, loginSecond ['w'] 4, loginSecond ['w'] 5, loginSecond ['r'] 6]

def isOk : Answer → Bool
  | .ok _ => true
  | .error _ => false

/-- The sixth call signs in, and the first wrong password was not counted. -/
theorem guesses_not_remembered :
    ((@machine plainLowercase plainCredentials).log oneUser guesses).map (fun e => isOk e.answer) =
        [false, false, false, false, false, true] ∧
      ¬@Remembered plainLowercase plainCredentials oneUser ((@machine plainLowercase plainCredentials).log oneUser guesses) := by
  refine ⟨by decide +kernel, fun h => ?_⟩
  obtain ⟨u, u', hu, hu', hcount⟩ := @Remembered.passwords plainLowercase plainCredentials _ _ h
    ((@machine plainLowercase plainCredentials).entry oneUser (loginSecond ['w'] 1)) List.mem_cons_self 1 (by decide +kernel)
  have hbefore : oneUser.db.users.lookup 1 = some ⟨['a'], ['r'], .active, some 0, none, 0, none⟩ := by decide +kernel
  have hafter : (@step plainLowercase plainCredentials oneUser (loginSecond ['w'] 1)).1.db.users.lookup 1 =
      some ⟨['a'], ['r'], .active, some 0, none, 0, none⟩ := by decide +kernel
  have hu : oneUser.db.users.lookup 1 = some u := hu
  have hu' : (@step plainLowercase plainCredentials oneUser (loginSecond ['w'] 1)).1.db.users.lookup 1 = some u' := hu'
  rw [hbefore] at hu
  rw [hafter] at hu'
  cases hu
  cases hu'
  cases hcount

end Sample

end Lumio.Control.Attempts
