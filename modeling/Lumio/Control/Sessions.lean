import Lumio.Lib.Table
import Lumio.Lib.Text
import Lumio.Lib.Transactions

/-!
# Sessions

A login opens a session family. A family has refresh tokens, each of which is exchanged for the next. The desktop
application gets its family for an authorization code that the user has approved.
-/

namespace Lumio.Control

class SessionSetup where
  hashToken : Text → Text
  /-- The code challenge of a verifier: SHA-256 in base64url. -/
  codeChallenge : Text → Text
  refreshTokenTTL : Int
  sessionAbsoluteTTL : Int

/-- Five minutes. -/
def authorizationCodeTTL : Int := 5 * 60 * 1000000000

/-! ## Tables -/

inductive UserStatus where
  | pendingEmail
  | active
  | disabled
deriving DecidableEq

inductive SessionClient where
  | web
  | app
deriving DecidableEq

inductive RevokeReason where
  | userLogout
  | userRevoke
  | revokeOthers
  | passwordChange
  | passwordReset
  | adminDisable
  | reuseDetected
  | accountDeleted
deriving DecidableEq

structure OAuthClient where
  redirectURIPatterns : List Text
  scopes : List Text
deriving DecidableEq

structure AuthorizationCode where
  clientId : Text
  userId : Int
  redirectURI : Text
  scope : Text
  codeChallenge : Text
  expiresAt : Int
  consumedAt : Option Int
deriving DecidableEq

structure SessionFamily where
  userId : Int
  client : SessionClient
  oauthClient : Text
  createdAt : Int
  lastSeenAt : Int
  revokedAt : Option Int
  revokedReason : Option RevokeReason
deriving DecidableEq

structure RefreshToken where
  familyId : Nat
  tokenHash : Text
  expiresAt : Int
  usedAt : Option Int
  replacedById : Option Nat
  revokedAt : Option Int
deriving DecidableEq

structure SessionStore where
  clients : Table Text OAuthClient
  users : Table Int UserStatus
  codes : Table Text AuthorizationCode
  families : Table Nat SessionFamily
  tokens : Table Nat RefreshToken

/-- Rows, and the entries of the unique index of token hashes. -/
inductive SessionKey where
  | user (id : Int)
  | code (hash : Text)
  | family (id : Nat)
  | token (id : Nat)
  | tokenHash (hash : Text)
deriving DecidableEq

inductive SessionWrite where
  | user (id : Int) (row : UserStatus)
  | code (hash : Text) (row : AuthorizationCode)
  | family (id : Nat) (row : SessionFamily)
  | token (id : Nat) (row : RefreshToken)
deriving DecidableEq

def sessionRows : RowStore SessionStore SessionKey SessionWrite where
  apply s
    | .user id row => { s with users := s.users.insert id row }
    | .code hash row => { s with codes := s.codes.insert hash row }
    | .family id row => { s with families := s.families.insert id row }
    | .token id row => { s with tokens := s.tokens.insert id row }
  rows
    | .user id _ => [.user id]
    | .code hash _ => [.code hash]
    | .family id _ => [.family id]
    | .token id row => [.token id, .tokenHash row.tokenHash]

/-! ## Statements -/

namespace SessionStore

/-- A row of `refresh_tokens`, with what the join with its family adds. -/
structure TokenRecord where
  id : Nat
  familyId : Nat
  userId : Int
  expiresAt : Int
  usedAt : Option Int
  revokedAt : Option Int
deriving DecidableEq

/-- A used token is found too: that it is presented again is a sign of a leak. -/
def getRefreshTokenByHash (s : SessionStore) (hash : Text) : Option TokenRecord :=
  match s.tokens.entries.find? fun row => row.2.tokenHash = hash with
  | none => none
  | some row =>
    match s.families.lookup row.2.familyId with
    | none => none
    | some family =>
      some { id := row.1
             familyId := row.2.familyId
             userId := family.userId
             expiresAt := row.2.expiresAt
             usedAt := row.2.usedAt
             revokedAt := row.2.revokedAt.or family.revokedAt }

def getActiveSessionFamily (s : SessionStore) (id : Nat) : Option SessionFamily :=
  (s.families.lookup id).filter fun family => family.revokedAt.isNone

def hasAppSession (s : SessionStore) (userId : Int) : Bool :=
  s.families.values.any fun family => family.userId = userId && family.client = .app

/-- The code that `ConsumeAuthorizationCode` updates. -/
def openCode (s : SessionStore) (hash : Text) (now : Int) : Option AuthorizationCode :=
  (s.codes.lookup hash).filter fun code => code.consumedAt.isNone && decide (now < code.expiresAt)

def consumeAuthorizationCode (hash : Text) (now : Int) (s : SessionStore) : List SessionWrite :=
  match s.openCode hash now with
  | some code => [.code hash { code with consumedAt := some now }]
  | none => []

def revokeSessionFamily (id : Nat) (reason : RevokeReason) (now : Int) (s : SessionStore) : List SessionWrite :=
  match s.getActiveSessionFamily id with
  | some family => [.family id { family with revokedAt := some now, revokedReason := some reason }]
  | none => []

def touchSessionFamily (id : Nat) (now : Int) (s : SessionStore) : List SessionWrite :=
  match s.families.lookup id with
  | some family => [.family id { family with lastSeenAt := now }]
  | none => []

def markRefreshTokenUsed (id replacedBy : Nat) (now : Int) (s : SessionStore) : List SessionWrite :=
  match s.tokens.lookup id with
  | some token =>
    if token.usedAt.isNone then [.token id { token with usedAt := some now, replacedById := some replacedBy }] else []
  | none => []

def hashPresent (s : SessionStore) (hash : Text) : Bool := s.tokens.values.any fun token => token.tokenHash = hash

/-- The families that `RevokeUserSessions` selects. -/
def userSessions (s : SessionStore) (userId : Int) (exempt : Option Nat) : List Nat :=
  (s.families.entries.filter fun row =>
    row.2.userId = userId && row.2.revokedAt.isNone && decide (exempt ≠ some row.1)).map (·.1)

def revokeUserSession (userId : Int) (reason : RevokeReason) (now : Int) (id : Nat) (s : SessionStore) :
    List SessionWrite :=
  match s.getActiveSessionFamily id with
  | some family =>
    if family.userId = userId then
      [.family id { family with revokedAt := some now, revokedReason := some reason }]
    else []
  | none => []

def setUserStatus (userId : Int) (status : UserStatus) (s : SessionStore) : List SessionWrite :=
  match s.users.lookup userId with
  | some _ => [.user userId status]
  | none => []

end SessionStore

/-! ## Authorization requests -/

def matchRedirectPattern (pattern uri : Text) : Bool :=
  if '*' ∉ pattern then pattern == uri else Text.pathMatch pattern uri

namespace OAuthClient

def allowsRedirectURI (client : OAuthClient) (uri : Text) : Bool :=
  client.redirectURIPatterns.any fun pattern => matchRedirectPattern pattern uri

def allowsScope (client : OAuthClient) (scope : Text) : Bool := scope.fields.all fun s => client.scopes.contains s

end OAuthClient

structure AuthorizeRequest where
  clientId : Text
  redirectURI : Text
  scope : Text
  codeChallenge : Text
  codeChallengeMethod : Text
deriving DecidableEq

inductive SessionError where
  | sessionExpired
  | accountDisabled
  | notFound
  | resetLinkInvalid
  | oauthInvalidRequest (message : Text)
  | oauthInvalidGrant
  | failure
deriving DecidableEq

/-- `none` if the request is accepted. -/
def validateAuthorizeRequest (client : Option OAuthClient) (req : AuthorizeRequest) : Option SessionError :=
  match client with
  | none => some (.oauthInvalidRequest "未知的 client_id".toList)
  | some client =>
    if !client.allowsRedirectURI req.redirectURI then some (.oauthInvalidRequest "redirect_uri 未注册".toList)
    else if req.codeChallengeMethod ≠ "S256".toList then
      some (.oauthInvalidRequest "code_challenge_method 必须为 S256".toList)
    else if req.codeChallenge.byteLength < 43 then some (.oauthInvalidRequest "code_challenge 无效".toList)
    else if req.scope.isEmpty then some (.oauthInvalidRequest "缺少 scope".toList)
    else if !client.allowsScope req.scope then some (.oauthInvalidRequest "scope 超出客户端权限".toList)
    else none

def scopeForClient : SessionClient → Text
  | .app => "profile workspace offline_access".toList
  | .web => "profile".toList

/-! ## Calls -/

structure AccessClaims where
  userId : Int
  sessionId : Nat
  scope : Text
  issuedAt : Int
deriving DecidableEq

structure TokenPair where
  accessToken : AccessClaims
  refreshToken : Text
  sessionId : Nat
deriving DecidableEq

structure Principal where
  userId : Int
  sessionId : Nat
  client : SessionClient
  scope : Text
deriving DecidableEq

structure ExchangeInput where
  code : Text
  codeVerifier : Text
  clientId : Text
  redirectURI : Text
deriving DecidableEq

inductive SessionAnswer where
  | error (e : SessionError)
  | ok
  | approved (code : Text)
  | tokens (pair : TokenPair)
  | exchanged (pair : TokenPair) (hadAppSession : Bool)
  | principal (p : Principal)
  | revoked (count : Nat)
deriving DecidableEq

structure Draw where
  familyId : Nat
  tokenId : Nat
  refreshToken : Text
deriving DecidableEq

/-- A call, with the instant it happens at and the values it draws. `resetPassword` comes with the user of the link
and `deleteAccount` with one whose request is old enough. -/
inductive SessionCall where
  | login (userId : Int) (draw : Draw) (now : Int)
  | approve (req : AuthorizeRequest) (userId : Int) (code : Text) (now : Int)
  | exchangeCode (input : ExchangeInput) (draw : Draw) (now : Int)
  | refreshSession (token : Text) (draw : Draw) (now : Int)
  | authenticateAccess (claims : Option AccessClaims)
  | logout (sessionId : Nat) (now : Int)
  | revokeSession (userId : Int) (sessionId : Nat) (now : Int)
  | revokeOtherSessions (userId : Int) (current : Nat) (now : Int)
  | revokeToken (token : Text) (now : Int)
  | changePassword (userId : Int) (current : Nat) (now : Int)
  | resetPassword (userId : Option Int) (now : Int)
  | setUserDisabled (userId : Int) (disabled : Bool) (now : Int)
  | deleteAccount (userId : Int) (now : Int)
deriving DecidableEq

abbrev SessionTx := Tx SessionStore SessionKey SessionWrite Empty Unit SessionAnswer

/-- An insertion whose key is taken fails the transaction. -/
def insertOrFail (keys : List SessionKey) (present : SessionStore → Bool) (write : SessionWrite) (next : SessionTx) :
    SessionTx :=
  .insert keys present write fun inserted => if inserted then next else .rollback (.error .failure)

/-- `RevokeUserSessions`: the rows are selected at once, then locked, checked again and changed one by one. -/
def revokeEach (userId : Int) (reason : RevokeReason) (now : Int) (next : Nat → SessionTx) : List Nat → Nat → SessionTx
  | [], count => next count
  | id :: ids, count =>
    .exec (SessionStore.revokeUserSession userId reason now id) fun n =>
      revokeEach userId reason now next ids (count + n)

def revokeUserSessions (userId : Int) (exempt : Option Nat) (reason : RevokeReason) (now : Int)
    (next : Nat → SessionTx) : SessionTx :=
  .query (fun s => s.userSessions userId exempt) fun ids => revokeEach userId reason now next ids 0

def newSessionFamily (userId : Int) (client : SessionClient) (oauthClient : Text) (now : Int) : SessionFamily :=
  { userId := userId
    client := client
    oauthClient := oauthClient
    createdAt := now
    lastSeenAt := now
    revokedAt := none
    revokedReason := none }

section Calls

variable [SessionSetup]

open SessionSetup

def verifyPKCE (codeVerifier challenge : Text) : Bool :=
  if codeVerifier.byteLength < 43 || 128 < codeVerifier.byteLength then false
  else codeChallenge codeVerifier == challenge

def newRefreshToken (familyId : Nat) (token : Text) (now : Int) : RefreshToken :=
  { familyId := familyId
    tokenHash := hashToken token
    expiresAt := now + refreshTokenTTL
    usedAt := none
    replacedById := none
    revokedAt := none }

def createRefreshToken (id familyId : Nat) (token : Text) (now : Int) (next : SessionTx) : SessionTx :=
  insertOrFail [.token id, .tokenHash (hashToken token)]
    (fun s => (s.tokens.lookup id).isSome || s.hashPresent (hashToken token))
    (.token id (newRefreshToken familyId token now)) next

def issueSession (userId : Int) (client : SessionClient) (oauthClient scope : Text) (draw : Draw) (now : Int)
    (next : TokenPair → SessionTx) : SessionTx :=
  insertOrFail [.family draw.familyId] (fun s => (s.families.lookup draw.familyId).isSome)
    (.family draw.familyId (newSessionFamily userId client oauthClient now))
    (createRefreshToken draw.tokenId draw.familyId draw.refreshToken now
      (next { accessToken := ⟨userId, draw.familyId, scope, now⟩
              refreshToken := draw.refreshToken
              sessionId := draw.familyId }))

/-- The end of a login on the website, after the password or the code of the mail has been checked. -/
def login (userId : Int) (draw : Draw) (now : Int) : SessionTx :=
  issueSession userId .web [] (scopeForClient .web) draw now fun pair => .commit (.tokens pair)

def approve (req : AuthorizeRequest) (userId : Int) (code : Text) (now : Int) : SessionTx :=
  .query (fun s => validateAuthorizeRequest (s.clients.lookup req.clientId) req) fun
    | some e => .rollback (.error e)
    | none =>
      insertOrFail [.code (hashToken code)] (fun s => (s.codes.lookup (hashToken code)).isSome)
        (.code (hashToken code) { clientId := req.clientId
                                  userId := userId
                                  redirectURI := req.redirectURI
                                  scope := req.scope
                                  codeChallenge := req.codeChallenge
                                  expiresAt := now + authorizationCodeTTL
                                  consumedAt := none })
        (.commit (.approved code))

/-- What follows once the code is consumed: it has to be the code of this client, and the family carries the scope
that was approved. -/
def redeem (input : ExchangeInput) (record : AuthorizationCode) (draw : Draw) (now : Int) : SessionTx :=
  if record.clientId ≠ input.clientId || record.redirectURI ≠ input.redirectURI then
    .rollback (.error .oauthInvalidGrant)
  else if !verifyPKCE input.codeVerifier record.codeChallenge then .rollback (.error .oauthInvalidGrant)
  else
    .query (fun s => s.users.lookup record.userId) fun
      | none => .rollback (.error .failure)
      | some .disabled => .rollback (.error .accountDisabled)
      | some .pendingEmail => .rollback (.error .oauthInvalidGrant)
      | some .active =>
        .query (fun s => s.hasAppSession record.userId) fun hadAppSession =>
          issueSession record.userId .app record.clientId record.scope draw now fun pair =>
            .commit (.exchanged pair hadAppSession)

def exchangeCode (input : ExchangeInput) (draw : Draw) (now : Int) : SessionTx :=
  .statement (fun _ => []) (SessionStore.consumeAuthorizationCode (hashToken input.code) now) fun s =>
    match s.openCode (hashToken input.code) now with
    | none => .rollback (.error .oauthInvalidGrant)
    | some record => redeem input record draw now

/-- Of two exchanges of a token only one marks it as used; the other changes no row. -/
def replaceToken (record : SessionStore.TokenRecord) (family : SessionFamily) (draw : Draw) (now : Int) : SessionTx :=
  .exec (SessionStore.markRefreshTokenUsed record.id draw.tokenId now) fun changed =>
    if changed = 0 then .rollback (.error .sessionExpired)
    else
      .exec (SessionStore.touchSessionFamily record.familyId now) fun _ =>
        .commit (.tokens
          { accessToken := ⟨family.userId, record.familyId, scopeForClient family.client, now⟩
            refreshToken := draw.refreshToken
            sessionId := record.familyId })

/-- The exchange of a token that is neither used nor revoked. -/
def rotate (record : SessionStore.TokenRecord) (draw : Draw) (now : Int) : SessionTx :=
  .query (fun s => s.getActiveSessionFamily record.familyId) fun
    | none => .rollback (.error .sessionExpired)
    | some family =>
      if family.createdAt + sessionAbsoluteTTL < now then .rollback (.error .sessionExpired)
      else
        .query (fun s => s.users.lookup family.userId) fun
          | none => .rollback (.error .failure)
          | some status =>
            if status ≠ .active then .rollback (.error .accountDisabled)
            else
              createRefreshToken draw.tokenId record.familyId draw.refreshToken now
                (replaceToken record family draw now)

/-- The revocation after a reuse is committed, although the call fails. -/
def refreshSession (token : Text) (draw : Draw) (now : Int) : SessionTx :=
  if token.isEmpty then .rollback (.error .sessionExpired)
  else
    .query (fun s => s.getRefreshTokenByHash (hashToken token)) fun
      | none => .rollback (.error .sessionExpired)
      | some record =>
        if record.usedAt.isSome then
          .exec (SessionStore.revokeSessionFamily record.familyId .reuseDetected now) fun _ =>
            .commit (.error .sessionExpired)
        else if record.revokedAt.isSome || !decide (now < record.expiresAt) then .rollback (.error .sessionExpired)
        else rotate record draw now

/-- The claims are those of a token whose signature is right and which has not expired. -/
def authenticateAccess : Option AccessClaims → SessionTx
  | none => .rollback (.error .sessionExpired)
  | some claims =>
    .query (fun s => s.getActiveSessionFamily claims.sessionId) fun
      | none => .rollback (.error .sessionExpired)
      | some family =>
        .query (fun s => s.users.lookup family.userId) fun
          | none => .rollback (.error .sessionExpired)
          | some .disabled => .rollback (.error .accountDisabled)
          | some .pendingEmail => .rollback (.error .sessionExpired)
          | some .active => .commit (.principal ⟨family.userId, claims.sessionId, family.client, claims.scope⟩)

def logout (sessionId : Nat) (now : Int) : SessionTx :=
  .exec (SessionStore.revokeSessionFamily sessionId .userLogout now) fun _ => .commit .ok

def revokeSession (userId : Int) (sessionId : Nat) (now : Int) : SessionTx :=
  .query (fun s => s.getActiveSessionFamily sessionId) fun
    | none => .rollback (.error .notFound)
    | some family =>
      if family.userId ≠ userId then .rollback (.error .notFound)
      else
        .exec (SessionStore.revokeSessionFamily sessionId .userRevoke now) fun changed =>
          if changed = 0 then .rollback (.error .failure) else .commit .ok

def revokeOtherSessions (userId : Int) (current : Nat) (now : Int) : SessionTx :=
  revokeUserSessions userId (some current) .revokeOthers now fun count => .commit (.revoked count)

def revokeToken (token : Text) (now : Int) : SessionTx :=
  .query (fun s => s.getRefreshTokenByHash (hashToken token)) fun
    | none => .commit .ok
    | some record => .exec (SessionStore.revokeSessionFamily record.familyId .userLogout now) fun _ => .commit .ok

def changePassword (userId : Int) (current : Nat) (now : Int) : SessionTx :=
  .query (fun s => s.users.lookup userId) fun
    | none => .rollback (.error .failure)
    | some _ => revokeUserSessions userId (some current) .passwordChange now fun _ => .commit .ok

def resetPassword (userId : Option Int) (now : Int) : SessionTx :=
  match userId with
  | none => .rollback (.error .resetLinkInvalid)
  | some userId => revokeUserSessions userId none .passwordReset now fun _ => .commit .ok

def setUserDisabled (userId : Int) (disabled : Bool) (now : Int) : SessionTx :=
  .query (fun s => s.users.lookup userId) fun
    | none => .rollback (.error .notFound)
    | some _ =>
      if disabled then
        .exec (SessionStore.setUserStatus userId .disabled) fun _ =>
          revokeUserSessions userId none .adminDisable now fun _ => .commit .ok
      else .exec (SessionStore.setUserStatus userId .active) fun _ => .commit .ok

def deleteAccount (userId : Int) (now : Int) : SessionTx :=
  .exec (SessionStore.setUserStatus userId .disabled) fun _ =>
    revokeUserSessions userId none .accountDeleted now fun _ => .commit .ok

def sessionProgram : SessionCall → SessionTx
  | .login userId draw now => login userId draw now
  | .approve req userId code now => approve req userId code now
  | .exchangeCode input draw now => exchangeCode input draw now
  | .refreshSession token draw now => refreshSession token draw now
  | .authenticateAccess claims => authenticateAccess claims
  | .logout sessionId now => logout sessionId now
  | .revokeSession userId sessionId now => revokeSession userId sessionId now
  | .revokeOtherSessions userId current now => revokeOtherSessions userId current now
  | .revokeToken token now => revokeToken token now
  | .changePassword userId current now => changePassword userId current now
  | .resetPassword userId now => resetPassword userId now
  | .setUserDisabled userId disabled now => setUserDisabled userId disabled now
  | .deleteAccount userId now => deleteAccount userId now

abbrev SessionState := Tx.Shared SessionStore SessionKey SessionWrite Empty Unit SessionAnswer SessionCall

abbrev SessionTurn := Tx.Turn Unit SessionCall

abbrev SessionOutcome := Tx.Outcome SessionStore SessionKey SessionWrite Empty Unit SessionAnswer SessionCall

def sessionMachine : Machine SessionState SessionTurn SessionOutcome := sessionRows.interleaved sessionProgram

end Calls

def SessionStore.initial (clients : Table Text OAuthClient) (users : Table Int UserStatus) : SessionStore :=
  ⟨clients, users, ∅, ∅, ∅⟩

end Lumio.Control
