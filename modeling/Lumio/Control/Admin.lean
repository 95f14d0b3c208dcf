import Lumio.Lib.Machine
import Lumio.Lib.Rows
import Lumio.Lib.Text

/-!
# Administrator accounts

Login with a password, the second factor, and its enrolment. Instants are integers, in nanoseconds.
-/

namespace Lumio.Control

inductive PasswordCheck where
  | ok
  | mismatch
  | invalid
deriving DecidableEq

class Security where
  /-- `Hasher.Verify`, of a password and an encoded hash. -/
  verify : Text → Text → PasswordCheck
  hashToken : Text → Text
  encrypt : Text → Text
  decrypt : Text → Option Text
  /-- `totp.Validate`, of a code and a secret, at the clock of the host. -/
  totpValidate : Int → Text → Text → Bool
  /-- `lower` of the database. -/
  lower : Text → Text

inductive AdminStatus where
  | active
  | disabled
deriving DecidableEq

structure Admin where
  id : Int
  email : Text
  passwordHash : Text
  totpSecretEnc : Option Text
  totpEnabledAt : Option Int
  status : AdminStatus
  failedLoginCount : Nat
  lockedUntil : Option Int
deriving DecidableEq

def Admin.totpEnabled (admin : Admin) : Bool := admin.totpEnabledAt.isSome && admin.totpSecretEnc.isSome

structure AdminSession where
  id : Nat
  adminId : Int
  tokenHash : Text
  mfaPassed : Bool
  expiresAt : Int
  revokedAt : Option Int
deriving DecidableEq

structure AdminStore where
  admins : List Admin
  sessions : List AdminSession
  /-- The primary key of `admin_sessions`. -/
  ids_nodup : (sessions.map (·.id)).Nodup

def adminLoginFailureThreshold : Nat := 5

/-- Fifteen minutes. -/
def adminLoginLockDuration : Int := 15 * 60 * 1000000000

/-- `LockedUntil` lies after the instant: what is left of the lock. -/
def Admin.lockRemaining (admin : Admin) (now : Int) : Option Int :=
  match admin.lockedUntil with
  | some lockedUntil => if now < lockedUntil then some (lockedUntil - now) else none
  | none => none

/-! ## Statements -/

namespace AdminStore

def getAdminByID (s : AdminStore) (id : Int) : Option Admin := s.admins.find? (·.id = id)

def updateAdmin (s : AdminStore) (id : Int) (f : Admin → Admin) : AdminStore :=
  { s with admins := updateWhere (·.id = id) f s.admins }

def updateSession (s : AdminStore) (id : Nat) (f : AdminSession → AdminSession) (hf : ∀ session, (f session).id = session.id) :
    AdminStore :=
  { s with
    sessions := updateWhere (·.id = id) f s.sessions
    ids_nodup := by rw [map_updateWhere hf]; exact s.ids_nodup }

def setAdminTOTP (s : AdminStore) (id : Int) (secretEnc : Text) (enabledAt : Option Int) : AdminStore :=
  s.updateAdmin id fun a => { a with totpSecretEnc := some secretEnc, totpEnabledAt := enabledAt }

def recordAdminLoginFailure (s : AdminStore) (id : Int) (threshold : Nat) (lockFor now : Int) : AdminStore :=
  s.updateAdmin id fun a => { a with
    failedLoginCount := a.failedLoginCount + 1
    lockedUntil := if threshold ≤ a.failedLoginCount + 1 then some (now + lockFor) else a.lockedUntil }

def clearAdminLoginFailures (s : AdminStore) (id : Int) : AdminStore :=
  s.updateAdmin id fun a => { a with failedLoginCount := 0, lockedUntil := none }

/-- `none` if the id or the hash is taken. -/
def createAdminSession (s : AdminStore) (session : AdminSession) : Option AdminStore :=
  if h : ∃ other ∈ s.sessions, other.id = session.id ∨ other.tokenHash = session.tokenHash then none
  else some { s with
    sessions := s.sessions ++ [session]
    ids_nodup := by
      rw [List.map_append, List.map_singleton, List.nodup_append]
      refine ⟨s.ids_nodup, List.nodup_singleton _, fun id hid other hother heq => h ?_⟩
      obtain ⟨old, hold, rfl⟩ := List.mem_map.mp hid
      rw [List.mem_singleton.mp hother] at heq
      exact ⟨old, hold, .inl heq⟩ }

def getAdminSessionByHash (s : AdminStore) (tokenHash : Text) (now : Int) : Option AdminSession :=
  s.sessions.find? fun session =>
    session.tokenHash = tokenHash && session.revokedAt.isNone && decide (now < session.expiresAt)

def markAdminSessionMFAPassed (s : AdminStore) (id : Nat) : AdminStore :=
  s.updateSession id (fun session => { session with mfaPassed := true }) fun _ => rfl

def revokeAdminSession (s : AdminStore) (id : Nat) (now : Int) : AdminStore :=
  s.updateSession id (fun session => { session with revokedAt := some now }) fun _ => rfl

end AdminStore

/-! ## Calls -/

inductive AdminError where
  | invalidCredentials
  | accountLocked (remaining : Int)
  | accountDisabled
  | unauthorized
  | mfaInvalid
  | mfaRequired
  | invalidParams
  | notFound
  | failure
deriving DecidableEq

inductive AdminAnswer where
  | error (e : AdminError)
  | loggedIn (sessionId : Nat) (adminId : Int) (mfaRequired : Bool)
  | ok
deriving DecidableEq

inductive AdminCall where
  | login (email password : Text) (token : Text) (sessionId : Nat) (ttl now : Int)
  | verifyTOTP (token code : Text) (clock now : Int)
  | setupTOTP (adminId : Int) (secret : Text)
  | enableTOTP (adminId : Int) (code : Text) (clock now : Int)
  | logout (sessionId : Nat) (now : Int)
deriving DecidableEq

section Calls

variable [Security]

namespace AdminStore

def getAdminByEmail (s : AdminStore) (email : Text) : Option Admin := s.admins.find? (·.email = Security.lower email)

def newSession (admin : Admin) (token : Text) (sessionId : Nat) (ttl now : Int) : AdminSession :=
  { id := sessionId
    adminId := admin.id
    tokenHash := Security.hashToken token
    mfaPassed := !admin.totpEnabled
    expiresAt := now + ttl
    revokedAt := none }

/-- A right password clears the count of failures, also that of wrong codes. -/
def adminLogin (s : AdminStore) (email password token : Text) (sessionId : Nat) (ttl now : Int) :
    AdminStore × AdminAnswer :=
  match s.getAdminByEmail email with
  | none => (s, .error .invalidCredentials)
  | some admin =>
    match admin.lockRemaining now with
    | some remaining => (s, .error (.accountLocked remaining))
    | none =>
      if admin.status ≠ .active then (s, .error .accountDisabled)
      else
        match Security.verify password admin.passwordHash with
        | .invalid => (s, .error .failure)
        | .mismatch =>
          (s.recordAdminLoginFailure admin.id adminLoginFailureThreshold adminLoginLockDuration now,
            .error .invalidCredentials)
        | .ok =>
          match (s.clearAdminLoginFailures admin.id).createAdminSession
              (newSession admin token sessionId ttl now) with
          | none => (s.clearAdminLoginFailures admin.id, .error .failure)
          | some next => (next, .loggedIn sessionId admin.id admin.totpEnabled)

/-- What stands before the check of a code: the half session, its administrator and the secret. -/
def codeCheck (s : AdminStore) (token : Text) (now : Int) : Except AdminAnswer (AdminSession × Admin × Text) :=
  match s.getAdminSessionByHash (Security.hashToken token) now with
  | none => .error (.error .unauthorized)
  | some session =>
    if session.mfaPassed then .error .ok
    else
      match s.getAdminByID session.adminId with
      | none => .error (.error .notFound)
      | some admin =>
        match admin.lockRemaining now with
        | some remaining => .error (.error (.accountLocked remaining))
        | none =>
          if !admin.totpEnabled then .error (.error .mfaInvalid)
          else
            match admin.totpSecretEnc.bind Security.decrypt with
            | none => .error (.error .failure)
            | some secret => .ok (session, admin, secret)

def adminVerifyTOTP (s : AdminStore) (token code : Text) (clock now : Int) : AdminStore × AdminAnswer :=
  match s.codeCheck token now with
  | .error answer => (s, answer)
  | .ok (session, admin, secret) =>
    if Security.totpValidate clock code secret then
      ((s.clearAdminLoginFailures admin.id).markAdminSessionMFAPassed session.id, .ok)
    else
      (s.recordAdminLoginFailure admin.id adminLoginFailureThreshold adminLoginLockDuration now, .error .mfaInvalid)

def authenticateAdmin (s : AdminStore) (token : Text) (now : Int) : Except AdminError (Admin × Nat) :=
  if token.isEmpty then .error .unauthorized
  else
    match s.getAdminSessionByHash (Security.hashToken token) now with
    | none => .error .unauthorized
    | some session =>
      if !session.mfaPassed then .error .mfaRequired
      else
        match s.getAdminByID session.adminId with
        | none => .error .notFound
        | some admin => if admin.status ≠ .active then .error .accountDisabled else .ok (admin, session.id)

/-- The new secret replaces the old one and is not enabled yet. -/
def adminSetupTOTP (s : AdminStore) (adminId : Int) (secret : Text) : AdminStore × AdminAnswer :=
  match s.getAdminByID adminId with
  | none => (s, .error .notFound)
  | some _ => (s.setAdminTOTP adminId (Security.encrypt secret) none, .ok)

def adminEnableTOTP (s : AdminStore) (adminId : Int) (code : Text) (clock now : Int) : AdminStore × AdminAnswer :=
  match s.getAdminByID adminId with
  | none => (s, .error .notFound)
  | some admin =>
    match admin.totpSecretEnc with
    | none => (s, .error .invalidParams)
    | some secretEnc =>
      match Security.decrypt secretEnc with
      | none => (s, .error .failure)
      | some secret =>
        if Security.totpValidate clock code secret then (s.setAdminTOTP adminId secretEnc (some now), .ok)
        else (s, .error .mfaInvalid)

def adminLogout (s : AdminStore) (sessionId : Nat) (now : Int) : AdminStore × AdminAnswer :=
  (s.revokeAdminSession sessionId now, .ok)

end AdminStore

def adminMachine : Machine AdminStore AdminCall AdminAnswer where
  step s
    | .login email password token sessionId ttl now => s.adminLogin email password token sessionId ttl now
    | .verifyTOTP token code clock now => s.adminVerifyTOTP token code clock now
    | .setupTOTP adminId secret => s.adminSetupTOTP adminId secret
    | .enableTOTP adminId code clock now => s.adminEnableTOTP adminId code clock now
    | .logout sessionId now => s.adminLogout sessionId now

end Calls

end Lumio.Control
