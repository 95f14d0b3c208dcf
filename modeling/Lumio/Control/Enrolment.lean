import Lumio.Control.SecondFactor

/-!
# Enrolment of the second factor

A session that a login creates while the second factor is enabled is a half session until a code has been verified on
it. The second factor stays enabled as long as no enrolment is started again.
-/

namespace Lumio.Control

section Calls

variable [Security]

/-! ## Sessions -/

inductive SessionsChange (s : AdminStore) : AdminCall → AdminAnswer → List AdminSession → Prop where
  | kept (c : AdminCall) {answer : AdminAnswer} (other : ∀ id a mfa, answer ≠ .loggedIn id a mfa) :
      SessionsChange s c answer s.sessions
  | loggedIn {email password token : Text} {sessionId : Nat} {ttl now : Int} {admin : Admin}
      (found : s.getAdminByEmail email = some admin)
      (right : rightPassword admin.id s (.login email password token sessionId ttl now) = true)
      (fresh : ∀ session ∈ s.sessions, session.id ≠ sessionId) :
      SessionsChange s (.login email password token sessionId ttl now)
        (.loggedIn sessionId admin.id admin.totpEnabled)
        (s.sessions ++ [AdminStore.newSession admin token sessionId ttl now])
  | verified {token code : Text} {clock now : Int} {session : AdminSession} {admin : Admin} {secret : Text}
      (checked : s.codeCheck token now = .ok (session, admin, secret))
      (valid : Security.totpValidate clock code secret = true) :
      SessionsChange s (.verifyTOTP token code clock now) .ok (s.markAdminSessionMFAPassed session.id).sessions
  | revoked (sessionId : Nat) (now : Int) :
      SessionsChange s (.logout sessionId now) .ok (s.revokeAdminSession sessionId now).sessions

theorem codeCheck_error {s : AdminStore} {token : Text} {now : Int} {answer : AdminAnswer}
    (h : s.codeCheck token now = .error answer) : ∀ id a mfa, answer ≠ .loggedIn id a mfa := by
  unfold AdminStore.codeCheck at h
  split at h
  · cases h
    exact nofun
  · split at h
    · cases h
      exact nofun
    · split at h
      · cases h
        exact nofun
      · split at h
        · cases h
          exact nofun
        · split at h
          · cases h
            exact nofun
          · split at h
            · cases h
              exact nofun
            · cases h

theorem sessions_step (s : AdminStore) (c : AdminCall) :
    SessionsChange s c (adminMachine.step s c).2 (adminMachine.step s c).1.sessions := by
  cases c with
  | login email password token sessionId ttl now =>
    simp only [adminMachine, AdminStore.adminLogin]
    split
    · exact .kept _ (by simp)
    · rename_i admin hfound
      split
      · exact .kept _ (by simp)
      · rename_i hunlocked
        split
        · exact .kept _ (by simp)
        · rename_i hactive
          split
          · exact .kept _ (by simp)
          · exact .kept _ (by simp)
          · rename_i hright
            split
            · exact .kept _ (by simp)
            · rename_i next hcreated
              unfold AdminStore.createAdminSession at hcreated
              split at hcreated
              · cases hcreated
              · rename_i hfresh
                cases hcreated
                refine .loggedIn hfound ?_ fun session hsession heq => hfresh ?_
                · simp [rightPassword, hfound, hunlocked, hright, not_not.mp hactive]
                · exact ⟨session, hsession, .inl heq⟩
  | verifyTOTP token code clock now =>
    simp only [adminMachine, AdminStore.adminVerifyTOTP]
    split
    · rename_i answer hchecked
      exact .kept _ (codeCheck_error hchecked)
    · rename_i session admin secret hchecked
      split
      · rename_i hvalid
        exact .verified hchecked hvalid
      · exact .kept _ (by simp)
  | setupTOTP adminId secret =>
    simp only [adminMachine, AdminStore.adminSetupTOTP]
    split <;> exact .kept _ (by simp)
  | enableTOTP adminId code clock now =>
    simp only [adminMachine, AdminStore.adminEnableTOTP]
    split
    · exact .kept _ (by simp)
    · split
      · exact .kept _ (by simp)
      · split
        · exact .kept _ (by simp)
        · split <;> exact .kept _ (by simp)
  | logout sessionId now => exact .revoked sessionId now

/-! ## The second factor stays on -/

def Enrolled (a : Int) (s : AdminStore) : Prop := ∀ admin ∈ s.admins, admin.id = a → admin.totpEnabled = true

/-- A login with the right password does not fall into an enrolment that has been started again and not completed. -/
def OutsideEnrolment (a : Int) (s : AdminStore) (c : AdminCall) : Prop := rightPassword a s c = true → Enrolled a s

instance (a : Int) (s : AdminStore) : Decidable (Enrolled a s) :=
  inferInstanceAs (Decidable (∀ admin ∈ s.admins, admin.id = a → admin.totpEnabled = true))

instance (a : Int) (s : AdminStore) (c : AdminCall) : Decidable (OutsideEnrolment a s c) :=
  inferInstanceAs (Decidable (rightPassword a s c = true → Enrolled a s))

/-- A code valid for the enabled secret of the administrator has been verified on the session, with success. -/
def Verified (a : Int) (sessionId : Nat) (log : List (Machine.Entry AdminStore AdminCall AdminAnswer)) : Prop :=
  ∃ e ∈ log, ∃ token code clock now session admin secret, e.call = .verifyTOTP token code clock now ∧ e.answer = .ok ∧
    e.before.getAdminSessionByHash (Security.hashToken token) now = some session ∧ session.id = sessionId ∧
    e.before.getAdminByID a = some admin ∧ admin.totpEnabled = true ∧
    admin.totpSecretEnc.bind Security.decrypt = some secret ∧ Security.totpValidate clock code secret = true

theorem Verified.mono {a : Int} {sessionId : Nat} {log : List (Machine.Entry AdminStore AdminCall AdminAnswer)}
    (h : Verified a sessionId log) (more : List (Machine.Entry AdminStore AdminCall AdminAnswer)) :
    Verified a sessionId (log ++ more) := by
  obtain ⟨e, he, hrest⟩ := h
  exact ⟨e, List.mem_append_left _ he, hrest⟩

def SecondFactorKept (a : Int) (s : AdminStore) (calls : List AdminCall) : Prop :=
  ∀ e ∈ adminMachine.log s calls, ∀ sessionId mfaRequired, e.answer = .loggedIn sessionId a mfaRequired →
    ∀ token now admin, (adminMachine.run s calls).authenticateAdmin token now = .ok (admin, sessionId) →
      Verified a sessionId (adminMachine.log s calls)

/-- What holds along a run from a state with some sessions: those of the administrator that have passed are among them
or have been verified, and no login reuses an id. -/
structure HalfSessions (a : Int) (old : List Nat) (s : AdminStore)
    (log : List (Machine.Entry AdminStore AdminCall AdminAnswer)) : Prop where
  passed : ∀ session ∈ s.sessions, session.adminId = a → session.mfaPassed = true →
    session.id ∈ old ∨ Verified a session.id log
  known : ∀ id ∈ old, id ∈ s.sessions.map (·.id)
  logins : ∀ e ∈ log, ∀ sessionId mfaRequired, e.answer = .loggedIn sessionId a mfaRequired →
    sessionId ∉ old ∧ sessionId ∈ s.sessions.map (·.id) ∧ ∀ session ∈ s.sessions, session.id = sessionId → session.adminId = a

section Step

variable {a : Int} {old : List Nat} {s t : AdminStore} {log : List (Machine.Entry AdminStore AdminCall AdminAnswer)}
  {e : Machine.Entry AdminStore AdminCall AdminAnswer}

theorem HalfSessions.update (h : HalfSessions a old s log) {p : AdminSession → Bool} {f : AdminSession → AdminSession}
    (hsessions : t.sessions = updateWhere p f s.sessions) (hid : ∀ session, (f session).id = session.id)
    (howner : ∀ session, (f session).adminId = session.adminId)
    (hpassed : ∀ session ∈ s.sessions, p session = true → session.adminId = a → (f session).mfaPassed = true →
      session.mfaPassed = true ∨ Verified a session.id (log ++ [e]))
    (hother : ∀ id owner mfa, e.answer ≠ .loggedIn id owner mfa) : HalfSessions a old t (log ++ [e]) := by
  have hids : t.sessions.map (·.id) = s.sessions.map (·.id) := by
    rw [hsessions]
    exact map_updateWhere hid
  constructor
  · intro session hsession ha hmfa
    rw [hsessions] at hsession
    obtain ⟨before, hbefore, rfl⟩ := mem_updateWhere.mp hsession
    cases hp : p before with
    | true =>
      simp only [hp, if_true, hid, howner] at ha hmfa ⊢
      rcases hpassed before hbefore hp ha hmfa with hmfa | hverified
      · exact (h.passed before hbefore ha hmfa).imp id fun hverified => hverified.mono _
      · exact .inr hverified
    | false =>
      simp only [hp, Bool.false_eq_true, if_false] at ha hmfa ⊢
      exact (h.passed before hbefore ha hmfa).imp id fun hverified => hverified.mono _
  · intro id hmem
    rw [hids]
    exact h.known id hmem
  · intro line hline sessionId mfaRequired hanswer
    rcases List.mem_append.mp hline with hline | hline
    · obtain ⟨hnew, hmem, hown⟩ := h.logins line hline sessionId mfaRequired hanswer
      refine ⟨hnew, by rwa [hids], fun session hsession heq => ?_⟩
      rw [hsessions] at hsession
      obtain ⟨before, hbefore, rfl⟩ := mem_updateWhere.mp hsession
      split at heq
      · rename_i hp
        rw [if_pos hp, howner]
        exact hown before hbefore (by rwa [hid] at heq)
      · rename_i hp
        rw [if_neg hp]
        exact hown before hbefore heq
    · rw [List.mem_singleton.mp hline] at hanswer
      exact absurd hanswer (hother _ _ _)

theorem HalfSessions.login (h : HalfSessions a old s log) {session : AdminSession} {owner : Int} {mfaRequired : Bool}
    (hsessions : t.sessions = s.sessions ++ [session]) (hfresh : ∀ other ∈ s.sessions, other.id ≠ session.id)
    (hanswer : e.answer = .loggedIn session.id owner mfaRequired) (howner : session.adminId = owner)
    (hhalf : owner = a → session.mfaPassed = false) : HalfSessions a old t (log ++ [e]) := by
  have hnew : session.id ∉ s.sessions.map (·.id) := by
    intro hmem
    obtain ⟨other, hother, heq⟩ := List.mem_map.mp hmem
    exact hfresh other hother heq
  constructor
  · intro other hother ha hmfa
    rw [hsessions] at hother
    rcases List.mem_append.mp hother with hother | hother
    · exact (h.passed other hother ha hmfa).imp id fun hverified => hverified.mono _
    · rw [List.mem_singleton.mp hother] at ha hmfa
      rw [hhalf (howner.symm.trans ha)] at hmfa
      cases hmfa
  · intro id hmem
    rw [hsessions, List.map_append]
    exact List.mem_append_left _ (h.known id hmem)
  · intro line hline sessionId required hline_answer
    rw [hsessions, List.map_append]
    rcases List.mem_append.mp hline with hline | hline
    · obtain ⟨hold, hmem, hown⟩ := h.logins line hline sessionId required hline_answer
      refine ⟨hold, List.mem_append_left _ hmem, fun other hother heq => ?_⟩
      rcases List.mem_append.mp hother with hother | hother
      · exact hown other hother heq
      · rw [List.mem_singleton.mp hother] at heq
        rw [← heq] at hmem
        exact absurd hmem hnew
    · rw [List.mem_singleton.mp hline, hanswer] at hline_answer
      obtain ⟨rfl, rfl, -⟩ := AdminAnswer.loggedIn.inj hline_answer
      refine ⟨fun hmem => hnew (h.known _ hmem), by simp, fun other hother heq => ?_⟩
      rcases List.mem_append.mp hother with hother | hother
      · exact absurd heq (hfresh other hother)
      · rw [List.mem_singleton.mp hother]
        exact howner

theorem HalfSessions.step {c : AdminCall} (hprotected : OutsideEnrolment a s c) (h : HalfSessions a old s log) :
    HalfSessions a old (adminMachine.step s c).1 (log ++ [adminMachine.entry s c]) := by
  have hchange := sessions_step s c
  generalize hanswer : (adminMachine.step s c).2 = answer at hchange
  generalize hsessions : (adminMachine.step s c).1.sessions = sessions at hchange
  cases hchange with
  | kept _ hother =>
    refine h.update (p := fun _ => false) (f := id) ?_ (fun _ => rfl) (fun _ => rfl) (fun _ _ hp => absurd hp (by simp)) ?_
    · rw [hsessions, updateWhere_of_none fun _ _ => rfl]
    · intro id owner mfa
      change (adminMachine.step s c).2 ≠ _
      rw [hanswer]
      exact hother id owner mfa
  | @loggedIn email password token sessionId ttl now admin hfound hright hfresh =>
    refine h.login hsessions hfresh hanswer rfl fun heq => ?_
    have henabled := hprotected (heq ▸ hright) admin (List.mem_of_find?_eq_some hfound) heq
    change (!admin.totpEnabled) = false
    rw [henabled]
    rfl
  | @verified token code clock now session admin secret hchecked hvalid =>
    obtain ⟨hsession, -, howner, henabled, hsecret⟩ := codeCheck_admin hchecked
    refine h.update (p := fun other => other.id = session.id) (f := fun other => { other with mfaPassed := true })
      hsessions (fun _ => rfl) (fun _ => rfl) (fun other hother hp ha _ => .inr ?_) ?_
    · have hmem : session ∈ s.sessions := List.mem_of_find?_eq_some hsession
      obtain rfl : other = session :=
        List.inj_on_of_nodup_map s.ids_nodup hother hmem (of_decide_eq_true hp)
      rw [ha] at howner
      exact ⟨adminMachine.entry s (.verifyTOTP token code clock now), by simp, token, code, clock, now, other, admin,
        secret, rfl, hanswer, hsession, rfl, howner, henabled, hsecret, hvalid⟩
    · intro id owner mfa
      change (adminMachine.step s _).2 ≠ _
      rw [hanswer]
      exact nofun
  | revoked sessionId now =>
    refine h.update (p := fun other => other.id = sessionId) (f := fun other => { other with revokedAt := some now })
      hsessions (fun _ => rfl) (fun _ => rfl) (fun other _ _ _ hmfa => .inl hmfa) ?_
    intro id owner mfa
    change (adminMachine.step s _).2 ≠ _
    rw [hanswer]
    exact nofun

end Step

theorem authenticateAdmin_session {s : AdminStore} {token : Text} {now : Int} {admin : Admin} {sessionId : Nat}
    (h : s.authenticateAdmin token now = .ok (admin, sessionId)) :
    ∃ session ∈ s.sessions, session.id = sessionId ∧ session.mfaPassed = true := by
  unfold AdminStore.authenticateAdmin at h
  split at h
  · cases h
  · split at h
    · cases h
    · rename_i session hsession
      split at h
      · cases h
      · rename_i hpassed
        split at h
        · cases h
        · split at h
          · cases h
          · cases h
            exact ⟨session, List.mem_of_find?_eq_some hsession, rfl, by simpa using hpassed⟩

/-- If no login with the right password falls into an enrolment, every session that a login creates passes only after
a code has been verified on it. -/
theorem second_factor_kept (a : Int) (s : AdminStore) (calls : List AdminCall)
    (hmeets : adminMachine.Meets (OutsideEnrolment a) s calls) : SecondFactorKept a s calls := by
  intro e he sessionId mfaRequired hanswer token now admin hauthenticated
  have hhalf : HalfSessions a (s.sessions.map (·.id)) (adminMachine.run s calls) (adminMachine.log s calls) := by
    refine Machine.invariant (fun s log c hc hlog => hlog.step hc) hmeets ?_
    exact ⟨fun session hsession _ _ => .inl (List.mem_map.mpr ⟨session, hsession, rfl⟩), fun _ hid => hid,
      fun e he => absurd he List.not_mem_nil⟩
  obtain ⟨hnew, -, howner⟩ := hhalf.logins e he sessionId mfaRequired hanswer
  obtain ⟨session, hsession, hid, hpassed⟩ := authenticateAdmin_session hauthenticated
  rcases hhalf.passed session hsession (howner session hsession hid) hpassed with hold | hverified
  · rw [hid] at hold
    exact absurd hold hnew
  · rwa [hid] at hverified

end Calls

/-! ## An enrolment that is not completed -/

/-- Without an enrolment, the session of a login passes after the right code. -/
theorem second_factor_kept_of_login :
    SecondFactorKept 1 sampleAdmins [sampleLogin 1, .verifyTOTP (Text.ofNat 1) "secret".toList 0 0] :=
  second_factor_kept 1 sampleAdmins _ (by decide +kernel)

/-- An enrolment is started again; the next login needs no code. -/
theorem abandoned_enrolment_drops_second_factor :
    Enrolled 1 sampleAdmins ∧ ¬ SecondFactorKept 1 sampleAdmins [.setupTOTP 1 "other".toList, sampleLogin 1] := by
  refine ⟨by decide +kernel, fun hkept => ?_⟩
  obtain ⟨e, he, token, code, clock, now, session, admin, secret, hcall, -⟩ :=
    hkept (adminMachine.entry (adminMachine.run sampleAdmins [.setupTOTP 1 "other".toList]) (sampleLogin 1))
      (by simp [Machine.log, Machine.run]) 1 false (by decide +kernel) (Text.ofNat 1) 0
      { sampleAdmin with totpSecretEnc := some "other".toList, totpEnabledAt := none } (by decide +kernel)
  simp only [Machine.log, List.mem_cons, List.not_mem_nil, or_false] at he
  rcases he with rfl | rfl
  · cases hcall
  · cases hcall

end Lumio.Control
