import Lumio.Control.Identities
import Lumio.Control.Ledger
import Lumio.Lib.Alone

/-!
# Signing in with an upstream identity

A request that is let in with a token of the account centre approves the authorization of the desktop application, the
application exchanges the code, and uses what it gets. The three parts of the database are the tables that each of the calls
uses; they share the table `users`.
-/

namespace Lumio.Control

/-- What `CreateUser` and a foreign key see to: a user is created with a subscription, and an inviter is a user. -/
structure BillingStore.Complete (b : BillingStore) : Prop where
  subscribed : ∀ id, (b.users.lookup id).isSome → (b.subscriptions.lookup id).isSome
  invited : ∀ id a, b.attributions.lookup id = some a → (b.users.lookup a.inviterUserId).isSome

structure Database where
  identity : IdentityStore
  sessions : SessionStore
  billing : BillingStore
  /-- There is one table of users. -/
  statuses : ∀ id, sessions.users.lookup id = (identity.users.lookup id).map (·.status)
  registered : ∀ id, (billing.users.lookup id).isSome = (identity.users.lookup id).isSome
  complete : billing.Complete

/-- A sign-in of the application: the request that is approved, the verifier behind its challenge, the values that are drawn,
and the instants. -/
structure SignIn where
  req : AuthorizeRequest
  codeVerifier : Text
  code : Text
  draw : Draw
  deviceId : Text
  cfg : OpsConfig
  approvedAt : Int
  exchangedAt : Int

/-! ## Upstream identities -/

def IdentityStore.SameStatuses (s s' : IdentityStore) : Prop :=
  ∀ id, (s'.users.lookup id).map (·.status) = (s.users.lookup id).map (·.status)

namespace IdentityStore

variable {s s' s'' : IdentityStore} {id : Int} {row row' : LocalUser}

theorem SameStatuses.refl (s : IdentityStore) : s.SameStatuses s := fun _ => rfl

theorem SameStatuses.trans (h : s.SameStatuses s') (h' : s'.SameStatuses s'') : s.SameStatuses s'' :=
  fun id => (h' id).trans (h id)

theorem SameStatuses.update (hrow : s.users.lookup id = some row) (hstatus : row'.status = row.status) :
    s.SameStatuses { s with users := s.users.insert id row' } := by
  intro other
  by_cases heq : other = id
  · subst heq
    rw [AList.lookup_insert, hrow, Option.map_some, Option.map_some, hstatus]
  · rw [AList.lookup_insert_ne heq]

theorem principal_of_admitUser {userId : Int} {user : LocalUser} {email : Text} (h : admitUser userId user = .principal id email) :
    id = userId ∧ user.status ≠ .disabled := by
  unfold admitUser at h
  split_ifs at h with hdisabled
  cases h
  exact ⟨rfl, hdisabled⟩

end IdentityStore

section Upstream

variable [Lowercase]

def IdentityStore.mapped (s : IdentityStore) (identity : UpstreamIdentity) : Option (Int × LocalUser) :=
  match s.identities.lookup identity.id with
  | some mapping => (s.users.lookup mapping.userId).map (mapping.userId, ·)
  | none => if identity.email = [] then none else s.getUserByEmail identity.email

def IdentityStore.admitted (s : IdentityStore) (identity : UpstreamIdentity) (newId now : Int) : Option (Int × IdentityStore) :=
  match identityRows.alone (authenticateSub2API identity newId now) s with
  | some (.principal userId _, s') => some (userId, s')
  | _ => none

namespace IdentityStore

variable {s s' s'' start : IdentityStore} {answer : IdentityAnswer}

variable (sub2apiUserId : Text)

theorem sameStatuses_setSub2api (userId : Int) (sub2apiUserId : Text) :
    s.SameStatuses (identityRows.view s (setSub2api userId sub2apiUserId s)) := by
  unfold setSub2api
  split
  · rename_i row hrow
    split
    · exact .refl s
    · exact .update hrow rfl
  · exact .refl s

theorem sameStatuses_setEmail (userId : Int) (email : Text) :
    s.SameStatuses (identityRows.view s (setEmail userId email s)) := by
  unfold setEmail
  split
  · rename_i row hrow
    split
    · exact .refl s
    · exact .update hrow rfl
  · exact .refl s

theorem users_touchIdentity (now : Int) :
    (identityRows.view s (touchIdentity sub2apiUserId now s)).users = s.users := by
  unfold touchIdentity
  split <;> rfl

theorem users_upsertIdentity (fresh : IdentityRow) (refresh : IdentityRow → IdentityRow) :
    (identityRows.view s (upsertIdentity sub2apiUserId fresh refresh s)).users = s.users := by
  unfold upsertIdentity
  split
  · rfl
  · split <;> rfl

theorem lookup_of_getUserByEmail {email : Text} {found : Int × LocalUser} (h : s.getUserByEmail email = some found) :
    s.users.lookup found.1 = some found.2 := by
  obtain ⟨row, hfind, rfl⟩ := Option.map_eq_some_iff.mp h
  exact Table.lookup_eq_some_iff.mpr (List.mem_of_find?_eq_some hfind)

theorem aloneFrom_linkIdentity {sub2apiUserId email : Text} {userId now : Int} {next : Option IdentityError → IdentityTx}
    (h : identityRows.aloneFrom start (linkIdentity sub2apiUserId userId email now next) s = some (answer, s'')) :
    ∃ outcome s', s.SameStatuses s' ∧ identityRows.aloneFrom start (next outcome) s' = some (answer, s'') := by
  rw [linkIdentity, linkRows, RowStore.aloneFrom_statement] at h
  have hfirst : s.SameStatuses (identityRows.view s (upsertIdentity sub2apiUserId ⟨userId, email, now, now⟩
      (fun row => { row with email := email, lastSeenAt := now }) s)) := by
    intro id
    rw [users_upsertIdentity]
  split at h
  · exact ⟨_, _, hfirst, h⟩
  · rw [RowStore.aloneFrom_statement] at h
    have hsecond := hfirst.trans (sameStatuses_setSub2api userId sub2apiUserId)
    split at h
    · exact ⟨_, _, hsecond, h⟩
    · exact ⟨_, _, hsecond, h⟩

/-- The status of an account that is let in: that of the account the identity was mapped to, or active. -/
def statusOf (s : IdentityStore) (identity : UpstreamIdentity) : UserStatus :=
  match s.mapped identity with
  | some found => found.2.status
  | none => .active

def LetIn (s : IdentityStore) (identity : UpstreamIdentity) (userId : Int) (s' : IdentityStore) : Prop :=
  (s'.users.lookup userId).map (·.status) = some (s.statusOf identity) ∧ s.statusOf identity ≠ .disabled

variable {identity : UpstreamIdentity} {newId now userId : Int} {email : Text}

theorem letIn_provisioned (hmapped : s.mapped identity = none)
    (h : identityRows.aloneFrom s (provisionFederatedUser identity newId now) s = some (.principal userId email, s')) :
    s.LetIn identity userId s' := by
  have hstatus : s.statusOf identity = .active := by rw [statusOf, hmapped]
  rw [LetIn, hstatus]
  refine ⟨?_, by decide⟩
  cases hpresent : (s.users.lookup newId).isSome || s.emailTaken newId (normalizeEmail identity.email) with
  | true =>
    rw [provisionFederatedUser, RowStore.aloneFrom_insert_present (by exact hpresent)] at h
    cases h
  | false =>
    rw [provisionFederatedUser, RowStore.aloneFrom_insert_absent (by exact hpresent)] at h
    simp only [if_true, RowStore.aloneFrom_exec] at h
    obtain ⟨outcome, linked, hsame, h⟩ := aloneFrom_linkIdentity h
    cases outcome with
    | some error => cases h
    | none =>
      rw [RowStore.aloneFrom_query] at h
      have hactive := hsame newId
      simp only [activateUser, identityRows, AList.lookup_insert, RowStore.view, List.foldl_cons, List.foldl_nil,
        Option.map_some] at hactive
      split at h
      · rename_i user huser
        cases hadmitted : admitUser newId user with
        | principal id address =>
          obtain ⟨rfl, -⟩ := principal_of_admitUser hadmitted
          rw [hadmitted] at h
          cases h
          exact hactive
        | linked => rw [hadmitted] at h; cases h
        | failed error => rw [hadmitted] at h; cases h
      · cases h

theorem letIn_admitted {account : Int} {user : LocalUser} (hstatus : s.statusOf identity = user.status)
    (hlookup : (s''.users.lookup account).map (·.status) = some user.status)
    (h : some (admitUser account user, s'') = some (.principal userId email, s')) : s.LetIn identity userId s' := by
  obtain ⟨hadmitted, rfl⟩ := Prod.mk.inj (Option.some.inj h)
  obtain ⟨rfl, hdisabled⟩ := principal_of_admitUser hadmitted
  rw [LetIn, hstatus]
  exact ⟨hlookup, hdisabled⟩

theorem letIn_synced {account : Int} {user : LocalUser} (hstatus : s.statusOf identity = user.status)
    (hlookup : s''.users.lookup account = some user)
    (h : identityRows.aloneFrom s (syncFederatedEmail account user identity.email fun user => .commit (admitUser account user)) s'' =
      some (.principal userId email, s')) : s.LetIn identity userId s' := by
  unfold syncFederatedEmail at h
  split at h
  · exact letIn_admitted hstatus (by rw [hlookup]; rfl) h
  · rw [updateEmail, RowStore.aloneFrom_statement] at h
    split at h
    · refine @letIn_admitted _ _ _ _ _ _ _ _ { user with email := normalizeEmail identity.email } hstatus ?_ h
      rw [sameStatuses_setEmail, hlookup]
      rfl
    · cases h

/-- An account that is let in has the status of the account that the identity was mapped to before; a new one is active. -/
theorem letIn_of_admitted (h : s.admitted identity newId now = some (userId, s')) : s.LetIn identity userId s' := by
  unfold admitted at h
  split at h
  · rename_i id email final hrun
    cases h
    rw [RowStore.alone, authenticateSub2API] at hrun
    split at hrun
    · cases hrun
    · rw [RowStore.aloneFrom_query] at hrun
      split at hrun
      · rename_i mapping hmapping
        rw [RowStore.aloneFrom_query] at hrun
        split at hrun
        · rename_i user huser
          have hmapped : s.mapped identity = some (mapping.userId, user) := by simp only [mapped, hmapping, huser, Option.map_some]
          refine letIn_synced (by rw [statusOf, hmapped]) ?_ hrun
          rw [users_touchIdentity, huser]
        · cases hrun
      · rename_i hmapping
        split at hrun
        · rename_i hemail
          exact letIn_provisioned (by simp only [mapped, hmapping, hemail, if_true]) hrun
        · rename_i hemail
          rw [RowStore.aloneFrom_query] at hrun
          split at hrun
          · rename_i existing hexisting
            have hmapped : s.mapped identity = some existing := by simp only [mapped, hmapping, hemail, hexisting, if_false]
            obtain ⟨outcome, linked, hsame, hrun⟩ := aloneFrom_linkIdentity hrun
            cases outcome with
            | some error => cases hrun
            | none =>
              refine letIn_admitted (by rw [statusOf, hmapped]) ?_ hrun
              rw [hsame, lookup_of_getUserByEmail hexisting]
              rfl
          · rename_i hnone
            exact letIn_provisioned (by simp only [mapped, hmapping, hemail, hnone, if_false]) hrun
  · cases h

end IdentityStore

end Upstream

/-! ## Sessions -/

section Sessions

variable [SessionSetup]

open SessionSetup

def SessionStore.approved (t : SessionStore) (userId : Int) (i : SignIn) : Option SessionStore :=
  match sessionRows.alone (approve i.req userId i.code i.approvedAt) t with
  | some (.approved _, t') => some t'
  | _ => none

def SessionStore.accessed (t : SessionStore) (pair : TokenPair) : Option Principal :=
  match sessionRows.alone (authenticateAccess (some pair.accessToken)) t with
  | some (.principal p, _) => some p
  | _ => none

/-- The request is valid, the verifier belongs to its challenge, the code has not expired and what is drawn is new. -/
structure SignIn.Valid (i : SignIn) (t : SessionStore) : Prop where
  request : validateAuthorizeRequest (t.clients.lookup i.req.clientId) i.req = none
  verifier : verifyPKCE i.codeVerifier i.req.codeChallenge = true
  atOnce : i.exchangedAt < i.approvedAt + authorizationCodeTTL
  code : t.codes.lookup (hashToken i.code) = none
  family : t.families.lookup i.draw.familyId = none
  token : t.tokens.lookup i.draw.tokenId = none
  refreshToken : t.hashPresent (hashToken i.draw.refreshToken) = false

namespace SignIn

variable {i : SignIn} {t : SessionStore} {userId : Int}

def record (i : SignIn) (userId : Int) : AuthorizationCode :=
  { clientId := i.req.clientId
    userId
    redirectURI := i.req.redirectURI
    scope := i.req.scope
    codeChallenge := i.req.codeChallenge
    expiresAt := i.approvedAt + authorizationCodeTTL
    consumedAt := none }

def pair (i : SignIn) (userId : Int) : TokenPair :=
  { accessToken := ⟨userId, i.draw.familyId, i.req.scope, i.exchangedAt⟩
    refreshToken := i.draw.refreshToken
    sessionId := i.draw.familyId }

def principal (i : SignIn) (userId : Int) : Principal := ⟨userId, i.draw.familyId, .app, i.req.scope⟩

def coded (i : SignIn) (userId : Int) (t : SessionStore) : SessionStore :=
  { t with codes := t.codes.insert (hashToken i.code) (i.record userId) }

def opened (i : SignIn) (userId : Int) (t : SessionStore) : SessionStore :=
  { t with
    codes := (i.coded userId t).codes.insert (hashToken i.code) { i.record userId with consumedAt := some i.exchangedAt }
    families := t.families.insert i.draw.familyId (newSessionFamily userId .app i.req.clientId i.exchangedAt)
    tokens := t.tokens.insert i.draw.tokenId (newRefreshToken i.draw.familyId i.draw.refreshToken i.exchangedAt) }

theorem approved_eq (h : i.Valid t) (userId : Int) : t.approved userId i = some (i.coded userId t) := by
  have hrun : sessionRows.alone (approve i.req userId i.code i.approvedAt) t = some (.approved i.code, i.coded userId t) := by
    simp only [RowStore.alone, approve, RowStore.aloneFrom_query, h.request, insertOrFail]
    rw [RowStore.aloneFrom_insert_absent (by rw [h.code]; rfl)]
    rfl
  rw [SessionStore.approved, hrun]

theorem openCode_coded (h : i.Valid t) (userId : Int) :
    (i.coded userId t).openCode (hashToken i.code) i.exchangedAt = some (i.record userId) := by
  rw [SessionStore.openCode, coded, AList.lookup_insert, Option.filter_some, if_pos]
  simp only [record, Option.isNone_none, Bool.true_and]
  exact decide_eq_true h.atOnce

theorem exchange_reaches (h : i.Valid t) (userId : Int) :
    sessionRows.alone (exchangeCode ⟨i.code, i.codeVerifier, i.req.clientId, i.req.redirectURI⟩ i.draw i.exchangedAt) (i.coded userId t) =
      sessionRows.aloneFrom (i.coded userId t) (redeem ⟨i.code, i.codeVerifier, i.req.clientId, i.req.redirectURI⟩ (i.record userId)
        i.draw i.exchangedAt) { t with
          codes := (i.coded userId t).codes.insert (hashToken i.code) { i.record userId with consumedAt := some i.exchangedAt } } := by
  have hwrites : SessionStore.consumeAuthorizationCode (hashToken i.code) i.exchangedAt (i.coded userId t) =
      [.code (hashToken i.code) { i.record userId with consumedAt := some i.exchangedAt }] := by
    rw [SessionStore.consumeAuthorizationCode, openCode_coded h]
  rw [RowStore.alone, exchangeCode, RowStore.aloneFrom_statement, hwrites, openCode_coded h]
  rfl

theorem accessed_opened (huser : t.users.lookup userId = some .active) :
    (i.opened userId t).accessed (i.pair userId) = some (i.principal userId) := by
  have hfamily : (i.opened userId t).getActiveSessionFamily i.draw.familyId =
      some (newSessionFamily userId .app i.req.clientId i.exchangedAt) := by
    rw [SessionStore.getActiveSessionFamily, opened, AList.lookup_insert]
    rfl
  have hrun : sessionRows.alone (authenticateAccess (some (i.pair userId).accessToken)) (i.opened userId t) =
      some (.principal (i.principal userId), i.opened userId t) := by
    have hstatus : (i.opened userId t).users.lookup userId = some .active := huser
    simp only [RowStore.alone, authenticateAccess, RowStore.aloneFrom_query, pair, hfamily, newSessionFamily, hstatus]
    rfl
  rw [SessionStore.accessed, hrun]

end SignIn

end Sessions

/-! ## Settlements -/

namespace BillingStore

variable {start b b' : BillingStore} {g : Grant} {userId id : Int} {cfg : OpsConfig} {now : Int} {settled : BillingTx}
  {next : Int → BillingTx} {result : ActivationResult}

def Ending (start : BillingStore) (tx : BillingTx) (b : BillingStore) : Prop :=
  ∃ result final, billingRows.aloneFrom start tx b = some (.activated result, final)

/-- Nobody has lost a subscription, and users and attributions are the same, but for the instant of a trial. -/
structure Extends (b b' : BillingStore) : Prop where
  users : ∀ id, (b'.users.lookup id).isSome = (b.users.lookup id).isSome
  attributions : b'.attributions = b.attributions
  subscriptions : ∀ id, (b.subscriptions.lookup id).isSome → (b'.subscriptions.lookup id).isSome

theorem Extends.refl (b : BillingStore) : b.Extends b := ⟨fun _ => rfl, rfl, fun _ h => h⟩

theorem Complete.extends (h : b.Complete) (hextends : b.Extends b') : b'.Complete := by
  refine ⟨fun id hid => ?_, fun id a ha => ?_⟩
  · rw [hextends.users] at hid
    exact hextends.subscriptions id (h.subscribed id hid)
  · rw [hextends.attributions] at ha
    rw [hextends.users]
    exact h.invited id a ha

theorem ending_applyDays (h : b.Complete) (huser : (b.users.lookup g.userId).isSome) (hsettled : Ending start settled b)
    (hnext : ∀ expiresAt b', b.Extends b' → Ending start (next expiresAt) b') : Ending start (applyDays g now settled next) b := by
  unfold Ending applyDays
  rw [RowStore.aloneFrom_lock]
  obtain ⟨sub, hsub⟩ := Option.isSome_iff_exists.mp (h.subscribed _ huser)
  simp only [hsub]
  cases hpresent : b.hasEvent (g.event sub now) with
  | true =>
    rw [RowStore.aloneFrom_insert_present (by exact hpresent)]
    exact hsettled
  | false =>
    rw [RowStore.aloneFrom_insert_absent (by exact hpresent)]
    simp only [RowStore.aloneFrom_exec]
    refine hnext _ _ ⟨fun id => ?_, ?_, fun id hid => ?_⟩
    · simp only [updateSubscription, billingRows, hsub, RowStore.view, List.foldl_cons, List.foldl_nil]
    · simp only [updateSubscription, billingRows, hsub, RowStore.view, List.foldl_cons, List.foldl_nil]
    · simp only [updateSubscription, billingRows, hsub, RowStore.view, List.foldl_cons, List.foldl_nil]
      by_cases heq : id = g.userId
      · subst heq
        rw [AList.lookup_insert]
        rfl
      · rw [AList.lookup_insert_ne heq]
        exact hid

theorem ending_activate : Ending start (activate id result now) b := ⟨_, _, rfl⟩

theorem ending_settleInviterBonus (h : b.Complete) : Ending start (settleInviterBonus userId cfg result now) b := by
  unfold Ending settleInviterBonus
  rw [RowStore.aloneFrom_statement]
  split
  · exact ⟨_, _, rfl⟩
  · rename_i id attribution hattribution
    have hinviter := h.invited id attribution (lookup_of_attributionByInvitee hattribution)
    split
    · exact ⟨_, _, rfl⟩
    · split
      · refine ending_applyDays h hinviter ending_activate fun _ b' hextends => ?_
        unfold Ending
        rw [RowStore.aloneFrom_query]
        have hinviter' : (b'.users.lookup attribution.inviterUserId).isSome := by
          rw [hextends.users]
          exact hinviter
        obtain ⟨trial, htrial⟩ := Option.isSome_iff_exists.mp hinviter'
        simp only [htrial]
        exact ending_activate
      · exact ending_activate

section Claims

variable {claim : Bool → BillingTx}

theorem ending_claimTrialFingerprints (fps : List TrialFingerprint)
    (hnext : ∀ granted b', b.Extends b' → Ending start (claim granted) b') :
    Ending start (claimTrialFingerprints userId claim fps) b := by
  induction fps generalizing b with
  | nil => exact hnext true b (.refl b)
  | cons fp fps ih =>
    rw [claimTrialFingerprints]
    split
    · exact ih hnext
    · cases hpresent : (b.fingerprints.lookup fp).isSome with
      | true =>
        obtain ⟨owner, howner⟩ := Option.isSome_iff_exists.mp hpresent
        rw [Ending, RowStore.aloneFrom_insert_present (by exact hpresent)]
        simp only [RowStore.aloneFrom_query, howner]
        split
        · exact hnext false b (.refl b)
        · exact ih hnext
      | false =>
        rw [Ending, RowStore.aloneFrom_insert_absent (by exact hpresent)]
        exact ih fun granted b' hextends => hnext granted b' ⟨hextends.users, hextends.attributions, hextends.subscriptions⟩

end Claims

end BillingStore

section Settlements

variable [BillingSetup]

def BillingStore.settles (b : BillingStore) (userId : Int) (i : SignIn) : Bool :=
  match billingRows.alone (settleFirstAppLogin ⟨userId, i.deviceId⟩ i.cfg i.exchangedAt) b with
  | some (.activated _, _) => true
  | _ => false

theorem BillingStore.Complete.settles {b : BillingStore} (h : b.Complete) {userId : Int} (huser : (b.users.lookup userId).isSome)
    (i : SignIn) : b.settles userId i = true := by
  have hending : Ending b (settleFirstAppLogin ⟨userId, i.deviceId⟩ i.cfg i.exchangedAt) b := by
    unfold Ending settleFirstAppLogin
    rw [RowStore.aloneFrom_lock]
    obtain ⟨trialGrantedAt, htrial⟩ := Option.isSome_iff_exists.mp huser
    simp only [htrial]
    split
    · refine ending_claimTrialFingerprints _ fun granted b' hextends => ?_
      have hcomplete := h.extends hextends
      cases granted with
      | false => exact ending_settleInviterBonus hcomplete
      | true =>
        have huser' : (b'.users.lookup userId).isSome := by
          rw [hextends.users]
          exact huser
        refine ending_applyDays hcomplete huser' (ending_settleInviterBonus hcomplete) fun expiresAt b'' hextends' => ?_
        unfold Ending
        rw [RowStore.aloneFrom_exec]
        refine ending_settleInviterBonus ((hcomplete.extends hextends').extends ⟨fun id => ?_, ?_, fun _ hid => ?_⟩)
        all_goals unfold markTrialGranted; split
        · rename_i old hold
          simp only [billingRows, RowStore.view, List.foldl_cons, List.foldl_nil]
          by_cases heq : id = userId
          · subst heq
            rw [AList.lookup_insert, hold]
            rfl
          · rw [AList.lookup_insert_ne heq]
        · rfl
        · rfl
        · rfl
        · exact hid
        · exact hid
    · exact ending_settleInviterBonus h
  obtain ⟨result, final, hrun⟩ := hending
  rw [BillingStore.settles, RowStore.alone, hrun]

end Settlements

/-! ## The exchange -/

section Exchange

variable [SessionSetup] [BillingSetup]

open SessionSetup

/-- The settlement is part of the exchange: if it fails, so does the exchange. -/
def SessionStore.exchanged (t : SessionStore) (b : BillingStore) (userId : Int) (i : SignIn) :
    Option (TokenPair × SessionStore) :=
  match sessionRows.alone (exchangeCode ⟨i.code, i.codeVerifier, i.req.clientId, i.req.redirectURI⟩ i.draw i.exchangedAt) t with
  | some (.exchanged pair hadAppSession, t') => if hadAppSession || b.settles userId i then some (pair, t') else none
  | _ => none

/-- The authorization, the exchange of its code and the use of its tokens, one after the other. -/
def Database.signedIn (db : Database) (userId : Int) (i : SignIn) : Option Principal :=
  (db.sessions.approved userId i).bind fun t =>
    (t.exchanged db.billing userId i).bind fun (pair, t') => t'.accessed pair

namespace SignIn

variable {i : SignIn} {t : SessionStore} {userId : Int} {status : UserStatus}

theorem exchanged_active (h : i.Valid t) (huser : t.users.lookup userId = some .active) {b : BillingStore}
    (hsettles : b.settles userId i = true) :
    (i.coded userId t).exchanged b userId i = some (i.pair userId, i.opened userId t) := by
  have hrun : ∃ had, sessionRows.alone (exchangeCode ⟨i.code, i.codeVerifier, i.req.clientId, i.req.redirectURI⟩ i.draw i.exchangedAt)
      (i.coded userId t) = some (.exchanged (i.pair userId) had, i.opened userId t) := by
    refine ⟨t.hasAppSession userId, ?_⟩
    have hfamily : (t.families.lookup i.draw.familyId).isSome = false := by rw [h.family]; rfl
    have htoken : ((t.tokens.lookup i.draw.tokenId).isSome || t.hashPresent (hashToken i.draw.refreshToken)) = false := by
      rw [h.token, h.refreshToken]
      rfl
    rw [exchange_reaches h, redeem, if_neg (by simp [record]), if_neg (by simp [record, h.verifier])]
    simp only [RowStore.aloneFrom_query, record, huser, issueSession, insertOrFail, createRefreshToken]
    rw [RowStore.aloneFrom_insert_absent (by exact hfamily)]
    simp only [if_true]
    rw [RowStore.aloneFrom_insert_absent (by exact htoken)]
    rfl
  obtain ⟨had, hrun⟩ := hrun
  simp only [SessionStore.exchanged, hrun, hsettles, Bool.or_true, if_true]

theorem exchanged_inactive (h : i.Valid t) (huser : t.users.lookup userId = some status) (hstatus : status ≠ .active)
    (b : BillingStore) : (i.coded userId t).exchanged b userId i = none := by
  have hrun : ∃ e, sessionRows.alone (exchangeCode ⟨i.code, i.codeVerifier, i.req.clientId, i.req.redirectURI⟩ i.draw i.exchangedAt)
      (i.coded userId t) = some (.error e, i.coded userId t) := by
    rw [exchange_reaches h, redeem, if_neg (by simp [record]), if_neg (by simp [record, h.verifier])]
    simp only [RowStore.aloneFrom_query, record, huser]
    cases status with
    | active => exact absurd rfl hstatus
    | pendingEmail => exact ⟨_, rfl⟩
    | disabled => exact ⟨_, rfl⟩
  obtain ⟨e, hrun⟩ := hrun
  simp only [SessionStore.exchanged, hrun]

theorem signedIn_eq {db : Database} (h : i.Valid db.sessions) (huser : db.sessions.users.lookup userId = some status) :
    db.signedIn userId i = if status = .active then some (i.principal userId) else none := by
  rw [Database.signedIn, approved_eq h, Option.bind_some]
  split
  · rename_i hactive
    subst hactive
    have hregistered : (db.billing.users.lookup userId).isSome := by
      rw [db.registered]
      have hstatuses := db.statuses userId
      rw [huser] at hstatuses
      obtain ⟨user, hlookup, -⟩ := Option.map_eq_some_iff.mp hstatuses.symm
      rw [hlookup]
      rfl
    rw [exchanged_active h huser (db.complete.settles hregistered i), Option.bind_some]
    exact accessed_opened huser
  · rename_i hinactive
    rw [exchanged_inactive h huser hinactive, Option.bind_none]

end SignIn

end Exchange

/-- An identity that is let in can finish signing in exactly if the account it was mapped to, if there was one, does not
still wait for its address to be verified. -/
theorem signedIn_iff [Lowercase] [SessionSetup] [BillingSetup] {before : IdentityStore} {after : Database}
    {identity : UpstreamIdentity} {newId now userId : Int} {i : SignIn}
    (hadmitted : before.admitted identity newId now = some (userId, after.identity)) (hvalid : i.Valid after.sessions) :
    (∃ p, after.signedIn userId i = some p ∧ p.userId = userId) ↔
      ∀ account, before.mapped identity = some account → account.2.status ≠ .pendingEmail := by
  obtain ⟨hstatus, hdisabled⟩ := IdentityStore.letIn_of_admitted hadmitted
  have hlookup : after.sessions.users.lookup userId = some (before.statusOf identity) := by
    rw [after.statuses, hstatus]
  rw [SignIn.signedIn_eq hvalid hlookup]
  cases hmapped : before.mapped identity with
  | none =>
    have hactive : before.statusOf identity = .active := by rw [IdentityStore.statusOf, hmapped]
    rw [hactive, if_pos rfl]
    exact ⟨fun _ _ h => (by cases h), fun _ => ⟨_, rfl, rfl⟩⟩
  | some account =>
    have haccount : before.statusOf identity = account.2.status := by rw [IdentityStore.statusOf, hmapped]
    rw [haccount] at hdisabled ⊢
    constructor
    · rintro ⟨p, hp, -⟩ _ h hpending
      cases h
      rw [hpending] at hp
      cases hp
    · intro h
      have hactive : account.2.status = .active := by
        cases hcase : account.2.status with
        | active => rfl
        | pendingEmail => exact absurd hcase (h account rfl)
        | disabled => exact absurd hcase hdisabled
      rw [if_pos hactive]
      exact ⟨_, rfl, rfl⟩

/-! ## An account of the older registration -/

namespace SignIn

abbrev plainLowering : Lowercase := ⟨id, id⟩

abbrev plainTokens : SessionSetup := ⟨id, id, 0, 0⟩

theorem plainHash_ne_nil (text : Text) : 'h' :: text ≠ [] := List.cons_ne_nil _ _

abbrev plainPayments : BillingSetup := ⟨fun text => 'h' :: text, plainHash_ne_nil, fun _ => true⟩

def client : OAuthClient := ⟨["app://callback".toList], ["profile".toList]⟩

def verifier : Text := List.replicate 43 'v'

def attempt : SignIn where
  req := ⟨"desktop".toList, "app://callback".toList, "profile".toList, verifier, "S256".toList⟩
  codeVerifier := verifier
  code := "code".toList
  draw := ⟨1, 1, "refresh".toList⟩
  deviceId := "device".toList
  cfg := ⟨7, 7⟩
  approvedAt := 0
  exchangedAt := 1

def upstream : UpstreamIdentity := ⟨"42".toList, "a@b.c".toList, true⟩

theorem lookup_single {ν : Type} {id : Int} (h : id ≠ 1) (v : ν) : (AList.insert 1 v (∅ : Table Int ν)).lookup id = none :=
  (AList.lookup_insert_ne h).trans rfl

def withAccount (user : LocalUser) (identities : Table Text IdentityRow) : Database where
  identity := ⟨AList.insert 1 user ∅, identities⟩
  sessions := .initial (AList.insert "desktop".toList client ∅) (AList.insert 1 user.status ∅)
  billing := ⟨AList.insert 1 none ∅, AList.insert 1 ⟨none, none, none, 0⟩ ∅, [], ∅, ∅, ∅, ∅⟩
  statuses id := by
    by_cases heq : id = 1
    · subst heq
      rfl
    · simp only [SessionStore.initial, lookup_single heq, Option.map_none]
  registered id := by
    by_cases heq : id = 1
    · subst heq
      rfl
    · rw [lookup_single heq, lookup_single heq]
      rfl
  complete := by
    refine ⟨fun id hid => ?_, fun _ _ h => by cases h⟩
    by_cases heq : id = 1
    · subst heq
      rfl
    · rw [lookup_single heq] at hid
      cases hid

theorem attempt_valid (user : LocalUser) (identities : Table Text IdentityRow) :
    @Valid plainTokens attempt (withAccount user identities).sessions :=
  have hrequest : validateAuthorizeRequest (some client) attempt.req = none := by decide +kernel
  @Valid.mk plainTokens _ _ hrequest (by decide +kernel) (by decide) rfl rfl rfl rfl

def mappedRow : IdentityRow := ⟨1, "a@b.c".toList, 5, 5⟩

end SignIn

open SignIn in
/-- A new account finishes signing in. -/
theorem signedIn_new : (∃ p, @Database.signedIn plainTokens plainPayments
    (withAccount ⟨"a@b.c".toList, .active, some "42".toList⟩ (AList.insert "42".toList mappedRow ∅)) 1 attempt = some p ∧ p.userId = 1) ↔
    ∀ account, @IdentityStore.mapped plainLowering ⟨∅, ∅⟩ upstream = some account → account.2.status ≠ .pendingEmail :=
  @signedIn_iff plainLowering plainTokens plainPayments ⟨∅, ∅⟩ _ upstream 1 5 1 attempt rfl (attempt_valid _ _)

open SignIn in
/-- An account that never had its address verified is let in, and cannot finish. -/
theorem pending_account_cannot_finish :
    ∃ (before : IdentityStore) (after : Database) (userId : Int),
      @IdentityStore.admitted plainLowering before upstream 2 5 = some (userId, after.identity) ∧
        @Valid plainTokens attempt after.sessions ∧
        ¬∃ p, @Database.signedIn plainTokens plainPayments after userId attempt = some p := by
  refine ⟨⟨AList.insert 1 ⟨"a@b.c".toList, .pendingEmail, none⟩ ∅, ∅⟩,
    withAccount ⟨"a@b.c".toList, .pendingEmail, some "42".toList⟩ (AList.insert "42".toList mappedRow ∅), 1, rfl,
    attempt_valid _ _, ?_⟩
  rintro ⟨p, hp⟩
  rw [@signedIn_eq plainTokens plainPayments _ _ _ _ (attempt_valid _ _) rfl] at hp
  cases hp

end Lumio.Control
