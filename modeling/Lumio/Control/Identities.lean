import Lumio.Control.Sessions

/-!
# Federated identities

A request with a token of the account centre is mapped to a local account: by the mapping that exists, by claiming the
account with the same address, or by opening a new one. All of it is one transaction on the tables `users` and
`sub2api_identities`. The migration tool writes the same two rows.
-/

namespace Lumio.Control

structure UpstreamIdentity where
  id : Text
  email : Text
  active : Bool
deriving DecidableEq

structure LocalUser where
  email : Text
  status : UserStatus
  sub2apiUserId : Option Text
deriving DecidableEq

structure IdentityRow where
  userId : Int
  email : Text
  linkedAt : Int
  lastSeenAt : Int
deriving DecidableEq

structure IdentityStore where
  users : Table Int LocalUser
  identities : Table Text IdentityRow

/-- Rows, and the entries of the unique indexes: addresses and upstream ids of users, users of mappings. -/
inductive IdentityKey where
  | user (id : Int)
  | email (lowered : Text)
  | sub2api (id : Text)
  | identity (id : Text)
  | identityUser (userId : Int)
deriving DecidableEq

inductive IdentityWrite where
  | user (id : Int) (row : LocalUser)
  | identity (id : Text) (row : IdentityRow)
deriving DecidableEq

inductive IdentityError where
  | accountDisabled
  | notFound
  | uniqueViolation
  | foreignKeyViolation
  | commitRolledBack
deriving DecidableEq

inductive IdentityAnswer where
  | principal (userId : Int) (email : Text)
  | linked
  | failed (error : IdentityError)
deriving DecidableEq

/-- The id of a new account comes from a sequence. A call that fails with a unique violation is made a second time; the
second time is a call of its own. -/
inductive IdentityCall where
  | authenticateSub2API (identity : UpstreamIdentity) (newId : Int) (now : Int)
  | linkIdentity (remoteId : Text) (userId : Int) (email : Text) (now : Int)
deriving DecidableEq

abbrev IdentityTx := Tx IdentityStore IdentityKey IdentityWrite Empty Unit IdentityAnswer

/-- How a character is lowered, and how the database lowers a text. -/
class Lowercase where
  toLower : Char → Char
  lower : Text → Text

section Calls

variable [Lowercase]

open Lowercase

def normalizeEmail (email : Text) : Text := (Text.trim email).map toLower

def LocalUser.keys (id : Int) (row : LocalUser) : List IdentityKey :=
  [IdentityKey.user id, .email (lower row.email)] ++ (row.sub2apiUserId.map IdentityKey.sub2api).toList

def identityRows : RowStore IdentityStore IdentityKey IdentityWrite where
  apply s
    | .user id row => { s with users := s.users.insert id row }
    | .identity id row => { s with identities := s.identities.insert id row }
  rows
    | .user id row => row.keys id
    | .identity id row => [.identity id, .identityUser row.userId]

/-! ## Statements -/

namespace IdentityStore

def getUserByEmail (s : IdentityStore) (email : Text) : Option (Int × LocalUser) :=
  (s.users.entries.find? fun row => lower row.2.email = lower (normalizeEmail email)).map fun row => (row.1, row.2)

def emailTaken (s : IdentityStore) (userId : Int) (email : Text) : Bool :=
  s.users.entries.any fun row => row.1 ≠ userId && lower row.2.email = lower email

def sub2apiTaken (s : IdentityStore) (userId : Int) (sub2apiUserId : Text) : Bool :=
  s.users.entries.any fun row => row.1 ≠ userId && row.2.sub2apiUserId = some sub2apiUserId

/-- An `UPDATE` of a row that is there runs into a unique index. -/
def updateFails (s : IdentityStore) (userId : Int) (taken : Bool) : Bool := (s.users.lookup userId).isSome && taken

def userLinked (s : IdentityStore) (userId : Int) : Bool := s.identities.values.any fun row => row.userId = userId

def userKeys (s : IdentityStore) (userId : Int) : List IdentityKey :=
  match s.users.lookup userId with
  | some row => row.keys userId
  | none => []

def activateUser (userId : Int) (s : IdentityStore) : List IdentityWrite :=
  match s.users.lookup userId with
  | some row => [.user userId { row with status := .active }]
  | none => []

def touchIdentity (sub2apiUserId : Text) (now : Int) (s : IdentityStore) : List IdentityWrite :=
  match s.identities.lookup sub2apiUserId with
  | some row => [.identity sub2apiUserId { row with lastSeenAt := now }]
  | none => []

/-- Why `INSERT INTO sub2api_identities … ON CONFLICT (sub2api_user_id) DO UPDATE` fails. -/
def insertFailure (s : IdentityStore) (sub2apiUserId : Text) (userId : Int) : Option IdentityError :=
  match s.identities.lookup sub2apiUserId with
  | some _ => none
  | none =>
    if s.userLinked userId then some .uniqueViolation
    else if (s.users.lookup userId).isNone then some .foreignKeyViolation
    else none

/-- A mapping that is there keeps its user. -/
def upsertIdentity (sub2apiUserId : Text) (fresh : IdentityRow) (refresh : IdentityRow → IdentityRow)
    (s : IdentityStore) : List IdentityWrite :=
  match s.identities.lookup sub2apiUserId with
  | some row => [.identity sub2apiUserId (refresh row)]
  | none =>
    match s.insertFailure sub2apiUserId fresh.userId with
    | some _ => []
    | none => [.identity sub2apiUserId fresh]

def upsertKeys (sub2apiUserId : Text) (userId : Int) (s : IdentityStore) : List IdentityKey :=
  match s.identities.lookup sub2apiUserId with
  | some _ => [.identity sub2apiUserId]
  | none => [.identity sub2apiUserId, .identityUser userId]

def setSub2api (userId : Int) (sub2apiUserId : Text) (s : IdentityStore) : List IdentityWrite :=
  match s.users.lookup userId with
  | some row =>
    if s.sub2apiTaken userId sub2apiUserId then []
    else [.user userId { row with sub2apiUserId := some sub2apiUserId }]
  | none => []

def setEmail (userId : Int) (email : Text) (s : IdentityStore) : List IdentityWrite :=
  match s.users.lookup userId with
  | some row => if s.emailTaken userId email then [] else [.user userId { row with email := email }]
  | none => []

end IdentityStore

/-! ## Transactions -/

/-- Both statements of `LinkIdentity`; they go on with the error of the one that fails. -/
def linkRows (sub2apiUserId : Text) (fresh : IdentityRow) (refresh : IdentityRow → IdentityRow)
    (next : Option IdentityError → IdentityTx) : IdentityTx :=
  .statement (IdentityStore.upsertKeys sub2apiUserId fresh.userId)
    (IdentityStore.upsertIdentity sub2apiUserId fresh refresh) fun seen =>
      match seen.insertFailure sub2apiUserId fresh.userId with
      | some error => next (some error)
      | none =>
        .statement (fun seen => seen.userKeys fresh.userId ++ [IdentityKey.sub2api sub2apiUserId])
          (IdentityStore.setSub2api fresh.userId sub2apiUserId) fun seen =>
            if seen.updateFails fresh.userId (seen.sub2apiTaken fresh.userId sub2apiUserId) then
              next (some .uniqueViolation)
            else next none

def linkIdentity (sub2apiUserId : Text) (userId : Int) (email : Text) (now : Int)
    (next : Option IdentityError → IdentityTx) : IdentityTx :=
  linkRows sub2apiUserId ⟨userId, email, now, now⟩ (fun row => { row with email := email, lastSeenAt := now }) next

/-- `UpdateEmail` goes on with whether nobody else has the address. -/
def updateEmail (userId : Int) (email : Text) (next : Bool → IdentityTx) : IdentityTx :=
  .statement (fun seen => seen.userKeys userId ++ [IdentityKey.email (lower (normalizeEmail email))])
    (IdentityStore.setEmail userId (normalizeEmail email)) fun seen =>
      next (!seen.updateFails userId (seen.emailTaken userId (normalizeEmail email)))

/-- The account follows the upstream address. A unique violation is no error of the function, but the database accepts
no further statement of the transaction, and its commit is a rollback. -/
def syncFederatedEmail (userId : Int) (user : LocalUser) (upstreamEmail : Text)
    (next : LocalUser → IdentityTx) : IdentityTx :=
  if normalizeEmail upstreamEmail = [] ∨ normalizeEmail upstreamEmail = normalizeEmail user.email then next user
  else updateEmail userId (normalizeEmail upstreamEmail) fun updated =>
    if updated then next { user with email := normalizeEmail upstreamEmail }
    else .rollback (.failed .commitRolledBack)

/-- A disabled account is mapped and refused. -/
def admitUser (userId : Int) (user : LocalUser) : IdentityAnswer :=
  if user.status = .disabled then .failed .accountDisabled else .principal userId user.email

def finishLink (userId : Int) (user : LocalUser) : Option IdentityError → IdentityTx
  | none => .commit (admitUser userId user)
  | some error => .rollback (.failed error)

def provisionFederatedUser (identity : UpstreamIdentity) (newId : Int) (now : Int) : IdentityTx :=
  .insert [.user newId, .email (lower (normalizeEmail identity.email))]
    (fun s => (s.users.lookup newId).isSome || s.emailTaken newId (normalizeEmail identity.email))
    (.user newId ⟨normalizeEmail identity.email, .pendingEmail, none⟩) fun inserted =>
      if inserted then
        .exec (IdentityStore.activateUser newId) fun _ =>
          linkIdentity identity.id newId identity.email now fun
            | some error => .rollback (.failed error)
            | none => .query (fun s => s.users.lookup newId) fun
                | some user => .commit (admitUser newId user)
                | none => .rollback (.failed .notFound)
      else .rollback (.failed .uniqueViolation)

def authenticateSub2API (identity : UpstreamIdentity) (newId : Int) (now : Int) : IdentityTx :=
  if identity.active = false then .rollback (.failed .accountDisabled)
  else
    .query (fun s => s.identities.lookup identity.id) fun
      | some mapping => .query (fun s => s.users.lookup mapping.userId) fun
          | some user => .exec (IdentityStore.touchIdentity identity.id now) fun _ =>
            syncFederatedEmail mapping.userId user identity.email fun user => .commit (admitUser mapping.userId user)
          | none => .rollback (.failed .notFound)
      | none =>
        if identity.email = [] then provisionFederatedUser identity newId now
        else .query (fun s => s.getUserByEmail identity.email) fun
          | some existing =>
            linkIdentity identity.id existing.1 identity.email now (finishLink existing.1 existing.2)
          | none => provisionFederatedUser identity newId now

def identityProgram : IdentityCall → IdentityTx
  | .authenticateSub2API identity newId now => authenticateSub2API identity newId now
  | .linkIdentity remoteId userId email now =>
    linkRows remoteId ⟨userId, email, now, now⟩ (fun row => { row with email := email }) fun
      | some error => .rollback (.failed error)
      | none => .commit .linked

abbrev IdentityShared :=
  Tx.Shared IdentityStore IdentityKey IdentityWrite Empty Unit IdentityAnswer IdentityCall

abbrev IdentityRunning :=
  Tx.Running IdentityStore IdentityKey IdentityWrite Empty Unit IdentityAnswer IdentityCall

abbrev IdentityTurn := Tx.Turn Unit IdentityCall

abbrev IdentityOutcome :=
  Tx.Outcome IdentityStore IdentityKey IdentityWrite Empty Unit IdentityAnswer IdentityCall

abbrev IdentityEntry := Machine.Entry IdentityShared IdentityTurn IdentityOutcome

def identityMachine : Machine IdentityShared IdentityTurn IdentityOutcome := identityRows.interleaved identityProgram

def IdentityStore.initial (users : Table Int LocalUser) : IdentityStore :=
  ⟨users.mapRows fun _ user => { user with sub2apiUserId := none }, ∅⟩

end Calls

end Lumio.Control
