import Lumio.Control.Rotation

/-!
# Scopes of access tokens

An authorization code carries the scope that the user has approved. The exchange of the code issues an access token
for that scope; a refresh issues one for everything that the client may have.
-/

namespace Lumio.Control

open RowStore

theorem scopeForClient_fields (client : SessionClient) :
    ∀ s ∈ (scopeForClient client).fields, s ∈ (scopeForClient .app).fields := by
  cases client <;> decide +kernel

section Calls

variable [SessionSetup]

open SessionSetup

/-! ## What a log says -/

def approval (e : SessionEntry) : Option (Text × Text) :=
  match e.answer with
  | .committed t (.approved code) =>
    match t.call with
    | .approve req _ _ _ => some (hashToken code, req.scope)
    | _ => none
  | _ => none

def codeExchange (e : SessionEntry) : Option (Text × TokenPair) :=
  match e.answer with
  | .committed t (.exchanged pair _) =>
    match t.call with
    | .exchangeCode input _ _ => some (hashToken input.code, pair)
    | _ => none
  | _ => none

def issued (e : SessionEntry) : Option TokenPair :=
  match e.answer with
  | .committed _ (.tokens pair) => some pair
  | .committed _ (.exchanged pair _) => some pair
  | _ => none

/-- The family of the token that a refresh presents, at the turn at which it is about to issue tokens. -/
def refreshing (e : SessionEntry) : Option Nat :=
  match e.call with
  | .advance i _ =>
    match e.before.running[i]? with
    | some t =>
      match t.call, t.rest with
      | .refreshSession token _ _, .commit (.tokens _) =>
        (e.before.committed.getRefreshTokenByHash (hashToken token)).map (·.familyId)
      | _, _ => none
    | none => none
  | _ => none

/-- A code opens one family at most, and the access tokens of that family stay within the approved scope. -/
def ScopesKept (log : List SessionEntry) : Prop :=
  ((log.filterMap codeExchange).map (·.1)).Nodup ∧
    ∀ a ∈ log.filterMap approval, ∀ x ∈ log.filterMap codeExchange, x.1 = a.1 →
      ∀ pair ∈ log.filterMap issued, pair.sessionId = x.2.sessionId → ∀ s ∈ pair.accessToken.scope.fields, s ∈ a.2.fields

/-- No refresh comes to issue tokens for the family of a code that was approved for less than everything. -/
def RefreshesInFull (log : List SessionEntry) : Prop :=
  ∀ a ∈ log.filterMap approval, ∀ x ∈ log.filterMap codeExchange, x.1 = a.1 →
    ∀ familyId ∈ log.filterMap refreshing, familyId = x.2.sessionId → ∀ s ∈ (scopeForClient .app).fields, s ∈ a.2.fields

instance (log : List SessionEntry) : Decidable (ScopesKept log) :=
  inferInstanceAs (Decidable (((log.filterMap codeExchange).map (·.1)).Nodup ∧
    ∀ a ∈ log.filterMap approval, ∀ x ∈ log.filterMap codeExchange, x.1 = a.1 →
      ∀ pair ∈ log.filterMap issued, pair.sessionId = x.2.sessionId →
        ∀ s ∈ pair.accessToken.scope.fields, s ∈ a.2.fields))

instance (log : List SessionEntry) : Decidable (RefreshesInFull log) :=
  inferInstanceAs (Decidable (∀ a ∈ log.filterMap approval, ∀ x ∈ log.filterMap codeExchange, x.1 = a.1 →
    ∀ familyId ∈ log.filterMap refreshing, familyId = x.2.sessionId →
      ∀ s ∈ (scopeForClient .app).fields, s ∈ a.2.fields))

def opening (e : SessionEntry) : Option TokenPair :=
  match e.answer with
  | .committed t (.tokens pair) =>
    match t.call with
    | .login _ _ _ => some pair
    | _ => none
  | .committed _ (.exchanged pair _) => some pair
  | _ => none

section Promised

variable {c : SessionStore} {e : SessionEntry}

variable {pair : TokenPair}

theorem exchanged_call {since s t : SessionStore} {call : SessionCall} {had : Bool}
    (h : Promise since s t call (.exchanged pair had)) : ∃ input draw now, call = .exchangeCode input draw now := by
  cases call with
  | exchangeCode input draw now => exact ⟨input, draw, now, rfl⟩
  | authenticateAccess claims =>
    cases claims with
    | none => exact h.elim
    | some claims => exact h.elim
  | _ => exact h.elim

theorem approval_promised (h : sessionContract.Promised c e.answer) {a : Text × Text} (ha : approval e = some a) :
    ∃ row, (sessionRows.after c e.answer).codes.lookup a.1 = some row ∧ row.scope = a.2 := by
  simp only [approval] at ha
  split at ha
  · rename_i t code hanswer
    split at ha
    · rename_i req userId code' now hcall
      cases ha
      rw [hanswer] at h ⊢
      obtain ⟨-, -, hpromise⟩ := h
      rw [hcall] at hpromise
      obtain ⟨rfl, -, hrow⟩ := hpromise
      exact hrow
    · cases ha
  · cases ha

theorem codeExchange_promised (h : sessionContract.Promised c e.answer) {x : Text × TokenPair}
    (hx : codeExchange e = some x) : opening e = some x.2 ∧ Opened c (sessionRows.after c e.answer) x.2 ∧
      Consumed c (sessionRows.after c e.answer) x.1 x.2.accessToken.scope := by
  simp only [codeExchange] at hx
  split at hx
  · rename_i t pair had hanswer
    split at hx
    · rename_i input draw now hcall
      cases hx
      rw [hanswer] at h
      obtain ⟨-, -, hpromise⟩ := h
      rw [hcall] at hpromise
      simp only [opening, hanswer]
      exact ⟨trivial, hpromise⟩
    · cases hx
  · cases hx

theorem opening_promised (h : sessionContract.Promised c e.answer) (hpair : opening e = some pair) :
    Opened c (sessionRows.after c e.answer) pair := by
  simp only [opening] at hpair
  split at hpair
  · rename_i t pair' hanswer
    split at hpair
    · rename_i userId draw now hcall
      cases hpair
      rw [hanswer] at h ⊢
      obtain ⟨-, -, hpromise⟩ := h
      rw [hcall] at hpromise
      exact hpromise
    · cases hpair
  · rename_i t pair' had hanswer
    cases hpair
    rw [hanswer] at h ⊢
    obtain ⟨-, -, hpromise⟩ := h
    obtain ⟨input, draw, now, hcall⟩ := exchanged_call hpromise
    rw [hcall] at hpromise
    exact hpromise.1
  · cases hpair

theorem issued_promised (h : sessionContract.Promised c e.answer) (hpair : issued e = some pair) :
    opening e = some pair ∨ ∃ x, refreshed e = some x ∧ x.2 = pair := by
  simp only [issued] at hpair
  split at hpair
  · rename_i t pair' hanswer
    cases hpair
    rw [hanswer] at h
    obtain ⟨-, -, hpromise⟩ := h
    cases hcall : t.call with
    | login userId draw now => exact .inl (by simp only [opening, hanswer, hcall])
    | refreshSession token draw now => exact .inr ⟨(token, pair), by simp only [refreshed, hanswer, hcall], rfl⟩
    | authenticateAccess claims =>
      rw [hcall] at hpromise
      cases claims with
      | none => exact hpromise.elim
      | some claims => exact hpromise.elim
    | _ =>
      rw [hcall] at hpromise
      exact hpromise.elim
  · rename_i t pair' had hanswer
    cases hpair
    exact .inl (by simp only [opening, hanswer])
  · cases hpair

end Promised

/-! ## Every interleaving -/

structure Approvals (s : SessionStore) (log : List SessionEntry) : Prop where
  approved : ∀ a ∈ log.filterMap approval, ∃ row, s.codes.lookup a.1 = some row ∧ row.scope = a.2
  consumed : ∀ x ∈ log.filterMap codeExchange, ∃ row, s.codes.lookup x.1 = some row ∧
    row.consumedAt.isSome = true ∧ row.scope = x.2.accessToken.scope
  once : ((log.filterMap codeExchange).map (·.1)).Nodup
  families : ∀ pair ∈ log.filterMap opening, (s.families.lookup pair.sessionId).isSome = true
  distinct : ((log.filterMap opening).map (·.sessionId)).Nodup

theorem Approvals.step {s : SessionStore} {log : List SessionEntry} {e : SessionEntry} (h : Approvals s log)
    (hpromised : sessionContract.Promised s e.answer) : Approvals (sessionRows.after s e.answer) (log ++ [e]) := by
  have hevolves := after_evolves hpromised
  constructor
  · refine Machine.forall_filterMap_append (fun a ha => ?_) fun a ha => approval_promised hpromised ha
    obtain ⟨row, hrow, hscope⟩ := h.approved a ha
    obtain ⟨row', hrow', hstep⟩ := hevolves.codes _ _ hrow
    exact ⟨row', hrow', hstep.1.trans hscope⟩
  · refine Machine.forall_filterMap_append (fun x hx => ?_) fun x hx => ?_
    · obtain ⟨row, hrow, hconsumed, hscope⟩ := h.consumed x hx
      obtain ⟨row', hrow', hstep⟩ := hevolves.codes _ _ hrow
      exact ⟨row', hrow', hstep.2 hconsumed, hstep.1.trans hscope⟩
    · obtain ⟨-, -, code, code', hcode, -, hscope, hcode', hconsumed⟩ := codeExchange_promised hpromised hx
      obtain ⟨row, hrow, hstep⟩ := hevolves.codes _ _ hcode
      rw [hcode'] at hrow
      cases hrow
      exact ⟨code', hcode', hconsumed, hstep.1.trans hscope⟩
  · -- a code that was exchanged is consumed
    refine Machine.nodup_filterMap_append h.once fun x hx y hy heq => ?_
    obtain ⟨-, -, code, -, hcode, hopen, -⟩ := codeExchange_promised hpromised hx
    obtain ⟨row, hrow, hconsumed, -⟩ := h.consumed y hy
    rw [heq, hcode] at hrow
    cases hrow
    rw [hopen] at hconsumed
    cases hconsumed
  · refine Machine.forall_filterMap_append (fun pair hpair => ?_) fun pair hpair => (opening_promised hpromised hpair).2.1
    obtain ⟨family, hfamily⟩ := Option.isSome_iff_exists.mp (h.families pair hpair)
    obtain ⟨family', hfamily', -⟩ := hevolves.families _ _ hfamily
    rw [hfamily']
    rfl
  · refine Machine.nodup_filterMap_append h.distinct fun pair hpair other hother heq => ?_
    have hnone := (opening_promised hpromised hpair).1
    have hsome := h.families other hother
    rw [heq, hnone] at hsome
    cases hsome

theorem refreshing_of_refreshed {s : SessionStore} {e : SessionEntry} {x : Text × TokenPair} (hs : s.Valid)
    (hbefore : e.before.committed = s) (hanswer : e.answer = (sessionMachine.step e.before e.call).2)
    (hpromised : sessionContract.Promised s e.answer) (hx : refreshed e = some x) :
    refreshing e = some x.2.sessionId := by
  obtain ⟨t, draw, now, hcommitted, hcall, hrotated⟩ := rotated_of_refreshed hpromised hx
  obtain ⟨i, response, hturn, hrunning, hrest⟩ := running_of_committed (hanswer.symm.trans hcommitted)
  obtain ⟨id, row, hrow, hhash, hfamily, -⟩ := hrotated.fresh
  simp only [refreshing, hturn, hrunning, hcall, hrest, hbefore]
  cases hrecord : s.getRefreshTokenByHash (hashToken x.1) with
  | none => exact absurd hhash (SessionStore.getRefreshTokenByHash_eq_none hs.keyed hrecord hrow)
  | some record =>
    obtain ⟨row', family, hrow', hhash', hfamily', -⟩ := SessionStore.getRefreshTokenByHash_eq_some hrecord
    obtain rfl := hs.keyed.hashes _ _ _ _ hrow hrow' (hhash.trans hhash'.symm)
    rw [hrow] at hrow'
    cases hrow'
    rw [Option.map_some, ← hfamily', hfamily]

/-- As long as only families that were approved in full are refreshed, no access token exceeds its approval, and
every code opens one family at most. -/
theorem scopes_kept (clients : Table Text OAuthClient) (users : Table Int UserStatus) (turns : List SessionTurn)
    (hfull : RefreshesInFull (sessionMachine.log ⟨.initial clients users, []⟩ turns)) :
    ScopesKept (sessionMachine.log ⟨.initial clients users, []⟩ turns) := by
  have hstart := initial_sound clients users
  have hpromised := (interleaved_sound sessionProgram_keeps turns hstart).2
  have happrovals : Approvals (sessionMachine.run ⟨.initial clients users, []⟩ turns).committed
      (sessionMachine.log ⟨.initial clients users, []⟩ turns) := by
    refine interleaved_history sessionProgram_keeps (I := Approvals) ?_ turns hstart ⟨?_, ?_, List.nodup_nil, ?_, List.nodup_nil⟩
    · intro past s turn answer hs _ hanswer hpast
      exact hpast.step (e := ⟨s, turn, answer⟩) hanswer
    · exact fun a ha => absurd ha List.not_mem_nil
    · exact fun x hx => absurd hx List.not_mem_nil
    · exact fun pair hpair => absurd hpair List.not_mem_nil
  refine ⟨happrovals.once, fun a ha x hx heq pair hpair hsession s hs => ?_⟩
  obtain ⟨e, he, hissued⟩ := List.mem_filterMap.mp hpair
  obtain ⟨hbefore, hanswer⟩ := hpromised e he
  rcases issued_promised hanswer hissued with hopening | ⟨y, hy, rfl⟩
  · -- the family was opened once, by the exchange of the code
    have hmem : pair ∈ (sessionMachine.log ⟨.initial clients users, []⟩ turns).filterMap opening :=
      List.mem_filterMap.mpr ⟨e, he, hopening⟩
    obtain ⟨e', he', hx'⟩ := List.mem_filterMap.mp hx
    have hmem' : x.2 ∈ (sessionMachine.log ⟨.initial clients users, []⟩ turns).filterMap opening :=
      List.mem_filterMap.mpr ⟨e', he', (codeExchange_promised (hpromised e' he').2 hx').1⟩
    obtain rfl := List.inj_on_of_nodup_map happrovals.distinct hmem hmem' hsession
    obtain ⟨row, hrow, hscope⟩ := happrovals.approved a ha
    obtain ⟨row', hrow', -, hscope'⟩ := happrovals.consumed x hx
    rw [heq, hrow] at hrow'
    cases hrow'
    rwa [← hscope', hscope] at hs
  · obtain ⟨t, draw, now, -, -, hrotated⟩ := rotated_of_refreshed hanswer hy
    obtain ⟨client, hscope⟩ := hrotated.scope
    have hrefreshing := refreshing_of_refreshed hbefore.inv rfl (Machine.answer_eq he) hanswer hy
    rw [hscope] at hs
    exact hfull a ha x hx heq _ (List.mem_filterMap.mpr ⟨e, he, hrefreshing⟩) hsession s (scopeForClient_fields client s hs)

end Calls

/-! ## A refresh of less than everything -/

/-- Hashes that keep the text. -/
scoped instance plainSetup : SessionSetup where
  hashToken := id
  codeChallenge := id
  refreshTokenTTL := 100
  sessionAbsoluteTTL := 100

def sampleRequest (scope : Text) : AuthorizeRequest where
  clientId := "cchaven-desktop".toList
  redirectURI := "http://127.0.0.1:5000/callback".toList
  scope := scope
  codeChallenge := List.replicate 43 'a'
  codeChallengeMethod := "S256".toList

def sampleSessions : SessionState :=
  ⟨.initial
    (AList.singleton "cchaven-desktop".toList
      ⟨["http://127.0.0.1:*/callback".toList], ["profile".toList, "workspace".toList, "offline_access".toList]⟩)
    (AList.singleton 1 .active), []⟩

/-- A code is approved for a scope and exchanged, and the token it gives is refreshed. -/
def approveExchangeRefresh (scope : Text) : List SessionTurn :=
  .start (.approve (sampleRequest scope) 1 "code".toList 0) :: (List.replicate 3 (.advance 0 ()) : List SessionTurn) ++
    (.start (.exchangeCode ⟨"code".toList, List.replicate 43 'a', "cchaven-desktop".toList,
      "http://127.0.0.1:5000/callback".toList⟩ ⟨1, 1, "first".toList⟩ 0) :: List.replicate 6 (.advance 0 ()) : List SessionTurn) ++
    (.start (.refreshSession "first".toList ⟨0, 2, "second".toList⟩ 0) :: List.replicate 7 (.advance 0 ()) :
      List SessionTurn)

theorem scopes_kept_in_full :
    ScopesKept (sessionMachine.log sampleSessions (approveExchangeRefresh "offline_access profile workspace".toList)) :=
  scopes_kept _ _ _ (by decide +kernel)

/-- The user approves the profile; the refreshed token may use the workspace. -/
theorem refresh_exceeds_approval :
    ¬ ScopesKept (sessionMachine.log sampleSessions (approveExchangeRefresh "profile".toList)) := by
  decide +kernel

example : ((sessionMachine.log sampleSessions (approveExchangeRefresh "profile".toList)).filterMap issued).map
    (·.accessToken.scope) = ["profile".toList, "profile workspace offline_access".toList] := by
  decide +kernel

end Lumio.Control
