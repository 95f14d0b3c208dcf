import Lumio.Lib.Machine
import Lumio.Lib.Text

/-!
# The signed-in session of the desktop

Calls with an access token, logins, new API keys and sign-outs work on one session. Each takes the lock of the state
for a single read or write, and none holds it while it waits for the network or writes the credential file. Only
renewals exclude each other.
-/

namespace Lumio.Desktop

structure StoredCredentials where
  accessToken : Text
  refreshToken : Text
  apiKey : Option Text
  email : Text
deriving DecidableEq

inductive Purpose where
  | renewal
  | login
  | apiKey
deriving DecidableEq

inductive SessionTask where
  | readAccess
  | calling (accessToken : Text)
  | expired (staleAccessToken : Text)
  | readAgain (staleAccessToken : Text)
  | readRefresh
  | refreshing (refreshToken : Text)
  | readEmail (accessToken refreshToken : Text)
  | readApiKey (purpose : Purpose) (accessToken refreshToken email : Text)
  | replace (purpose : Purpose) (credentials : StoredCredentials)
  | readState (purpose : Purpose)
  | save (purpose : Purpose) (credentials : StoredCredentials)
  | callAgain
  | setApiKey (apiKey : Text)
  | forget
  | removeFile
deriving DecidableEq

inductive SessionCall where
  | withAccessToken
  | adoptTokens (accessToken refreshToken email : Text)
  | setApiKey (apiKey : Text)
  | clear
deriving DecidableEq

inductive Response where
  | ok
  | failed
  | sessionExpired
  | renewed (accessToken refreshToken : Text)
deriving DecidableEq

/-- `issued` and `refused` are no part of the program: the refresh tokens that have come from the server, and those that
it has not renewed. -/
structure AuthSession where
  state : Option StoredCredentials
  file : Option StoredCredentials
  tasks : List SessionTask
  issued : List Text
  refused : List Text

inductive SessionTurn where
  | start (call : SessionCall)
  | advance (i : Nat) (response : Response)
deriving DecidableEq

inductive SessionOutcome where
  | started
  | moved
  | waits
  | sent (refreshToken : Text)
  | ended
  | signedOut
deriving DecidableEq

namespace SessionTask

def renewing : SessionTask → Bool
  | .readAgain _ | .readRefresh | .refreshing _ | .readEmail _ _ => true
  | .readApiKey purpose _ _ _ | .replace purpose _ | .readState purpose | .save purpose _ => purpose = .renewal
  | _ => false

def calls (task : SessionTask) : Bool :=
  match task with
  | .readAccess | .calling _ | .expired _ | .callAgain => true
  | _ => task.renewing

def ofCall : SessionCall → SessionTask
  | .withAccessToken => .readAccess
  | .adoptTokens accessToken refreshToken email => .readApiKey .login accessToken refreshToken email
  | .setApiKey apiKey => .setApiKey apiKey
  | .clear => .forget

end SessionTask

namespace AuthSession

/-- The file is read once, when the process starts. -/
def new (file : Option StoredCredentials) : AuthSession := ⟨file, file, [], file.toList.map (·.refreshToken), []⟩

def become (s : AuthSession) (i : Nat) (task : SessionTask) : AuthSession := { s with tasks := s.tasks.set i task }

def finish (s : AuthSession) (i : Nat) : AuthSession := { s with tasks := s.tasks.eraseIdx i }

/-- After the file is written. A renewal gives its lock back and makes its call again. -/
def afterSave (s : AuthSession) (i : Nat) : Purpose → AuthSession × SessionOutcome
  | .renewal => (s.become i .callAgain, .moved)
  | .login | .apiKey => (s.finish i, .ended)

def advance (s : AuthSession) (i : Nat) (response : Response) : SessionTask → AuthSession × SessionOutcome
  | .readAccess =>
    match s.state with
    | some state => (s.become i (.calling state.accessToken), .moved)
    | none => (s.finish i, .ended)
  | .calling accessToken =>
    match response with
    | .sessionExpired => (s.become i (.expired accessToken), .moved)
    | _ => (s.finish i, .ended)
  | .expired stale =>
    if s.tasks.any SessionTask.renewing then (s, .waits) else (s.become i (.readAgain stale), .moved)
  | .readAgain stale =>
    match s.state with
    | some state => (s.become i (if state.accessToken = stale then .readRefresh else .callAgain), .moved)
    | none => (s.finish i, .ended)
  | .readRefresh =>
    match s.state with
    | some state => (s.become i (.refreshing state.refreshToken), .sent state.refreshToken)
    | none => (s.finish i, .ended)
  | .refreshing refreshToken =>
    match response with
    | .renewed accessToken next => ({ s.become i (.readEmail accessToken next) with issued := next :: s.issued }, .moved)
    | _ => ({ s.finish i with refused := refreshToken :: s.refused }, .ended)
  | .readEmail accessToken refreshToken =>
    (s.become i (.readApiKey .renewal accessToken refreshToken ((s.state.map (·.email)).getD [])), .moved)
  | .readApiKey purpose accessToken refreshToken email =>
    (s.become i (.replace purpose ⟨accessToken, refreshToken, s.state.bind (·.apiKey), email⟩), .moved)
  | .replace purpose credentials =>
    ({ s.become i (.readState purpose) with state := some credentials }, .moved)
  | .readState purpose =>
    match s.state with
    | some state => (s.become i (.save purpose state), .moved)
    | none => s.afterSave i purpose
  | .save purpose credentials => { s with file := some credentials }.afterSave i purpose
  | .callAgain => (s.finish i, .ended)
  | .setApiKey apiKey =>
    match s.state with
    | some state => ({ s.become i (.readState .apiKey) with state := some { state with apiKey := some apiKey } }, .moved)
    | none => (s.finish i, .ended)
  | .forget => ({ s.become i .removeFile with state := none }, .moved)
  | .removeFile => ({ s.finish i with file := none }, .signedOut)

def step (s : AuthSession) : SessionTurn → AuthSession × SessionOutcome
  | .start call =>
    ({ s with
        tasks := s.tasks ++ [SessionTask.ofCall call]
        issued := match call with
          | .adoptTokens _ refreshToken _ => refreshToken :: s.issued
          | _ => s.issued }, .started)
  | .advance i response =>
    match s.tasks[i]? with
    | some task => s.advance i response task
    | none => (s, .waits)

end AuthSession

def authMachine : Machine AuthSession SessionTurn SessionOutcome := ⟨AuthSession.step⟩

abbrev AuthEntry := Machine.Entry AuthSession SessionTurn SessionOutcome

/-! ## What a log says -/

def sentToken (e : AuthEntry) : Option Text :=
  match e.answer with
  | .sent refreshToken => some refreshToken
  | _ => none

def signedOut (log : List AuthEntry) : Bool :=
  log.foldl (fun out e =>
    match e.answer, e.call with
    | .signedOut, _ => true
    | _, .start (.adoptTokens _ _ _) => false
    | _, _ => out) false

def AuthSession.turnOf (s : AuthSession) : SessionTurn → Option SessionTask
  | .start _ => none
  | .advance i _ => s.tasks[i]?

/-- A step of a call with an access token leaves an API key in the state, and the file gets what the state has. -/
def keepsApiKey (e : AuthEntry) : Prop :=
  ∀ task, e.before.turnOf e.call = some task → task.calls = true →
    (∀ key, e.before.state.bind (·.apiKey) = some key →
      (authMachine.step e.before e.call).1.state.bind (·.apiKey) = some key) ∧
    ((authMachine.step e.before e.call).1.file = e.before.file ∨
      (authMachine.step e.before e.call).1.file = (authMachine.step e.before e.call).1.state)

/-- Between operations the state and the file agree, and after a sign-out both are empty; renewals keep the API key; and
every refresh token is sent once. -/
structure SessionKept (log : List AuthEntry) (s : AuthSession) : Prop where
  agree : s.tasks = [] → s.state = s.file
  final : signedOut log = true → s.tasks = [] → s.state = none ∧ s.file = none
  keys : ∀ e ∈ log, keepsApiKey e
  once : (log.filterMap sentToken).Nodup

def SessionTask.comingLogin : SessionTask → Bool
  | .readApiKey purpose _ _ _ | .replace purpose _ => purpose ≠ .renewal
  | _ => false

/-- A step that writes finds the state as its operation read it: a renewal finds the API key it has read, who saves finds
the state it saves, and who removes the file finds no state and no login that is still to come. -/
def AuthSession.finds (s : AuthSession) (response : Response) : SessionTask → Bool
  | .readRefresh =>
    match s.state with
    | some state => state.refreshToken ∉ s.refused
    | none => true
  | .refreshing _ =>
    match response with
    | .renewed _ next => next ∉ s.issued
    | _ => true
  | .replace .renewal credentials => s.state.map (·.apiKey) = some credentials.apiKey
  | .save _ credentials => s.state = some credentials
  | .removeFile => s.state = none && s.tasks.all fun task => !task.comingLogin
  | _ => true

/-- No step is disturbed, the server issues every refresh token once, and one that it did not renew is not sent again. -/
def AuthSession.undisturbed (s : AuthSession) : SessionTurn → Bool
  | .start (.adoptTokens _ refreshToken _) => refreshToken ∉ s.issued
  | .start _ => true
  | .advance i response =>
    match s.tasks[i]? with
    | some task => s.finds response task
    | none => true

end Lumio.Desktop
