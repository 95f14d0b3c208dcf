import Lumio.Control.Admin

/-!
# The second factor of administrators

Wrong codes are counted with wrong passwords, and a right password starts the count again. A new enrolment switches the
second factor off until it is completed.
-/

namespace Lumio.Control

section Calls

variable [Security]

/-! ## What a call changes -/

section Cases

variable {s : AdminStore} {c : AdminCall}

/-- The statements on the table of administrators: failures are counted or cleared, or an enrolment is written. -/
inductive AdminsChange (s : AdminStore) : AdminCall → List Admin → Prop where
  | kept (c : AdminCall) : AdminsChange s c s.admins
  | failed {c : AdminCall} (id now : Int) : AdminsChange s c
      (s.recordAdminLoginFailure id adminLoginFailureThreshold adminLoginLockDuration now).admins
  | loggedIn {email password token : Text} {sessionId : Nat} {ttl now : Int} {admin : Admin}
      (found : s.getAdminByEmail email = some admin) (unlocked : admin.lockRemaining now = none)
      (active : admin.status = .active) (right : Security.verify password admin.passwordHash = .ok) :
      AdminsChange s (.login email password token sessionId ttl now) (s.clearAdminLoginFailures admin.id).admins
  | verified {token code : Text} {clock now : Int} {session : AdminSession} {admin : Admin} {secret : Text}
      (checked : s.codeCheck token now = .ok (session, admin, secret))
      (valid : Security.totpValidate clock code secret = true) :
      AdminsChange s (.verifyTOTP token code clock now) (s.clearAdminLoginFailures admin.id).admins
  | setup (adminId : Int) (secret : Text) : AdminsChange s (.setupTOTP adminId secret)
      (s.setAdminTOTP adminId (Security.encrypt secret) none).admins
  | enabled {adminId : Int} {code : Text} {clock now : Int} (secretEnc : Text) :
      AdminsChange s (.enableTOTP adminId code clock now) (s.setAdminTOTP adminId secretEnc (some now)).admins

theorem admins_step (s : AdminStore) (c : AdminCall) : AdminsChange s c (adminMachine.step s c).1.admins := by
  cases c with
  | login email password token sessionId ttl now =>
    simp only [adminMachine, AdminStore.adminLogin]
    split
    · exact .kept _
    · rename_i admin hfound
      split
      · exact .kept _
      · rename_i hunlocked
        split
        · exact .kept _
        · rename_i hactive
          split
          · exact .kept _
          · exact .failed _ _
          · rename_i hright
            have hlogin : AdminsChange s (.login email password token sessionId ttl now)
                (s.clearAdminLoginFailures admin.id).admins :=
              .loggedIn hfound hunlocked (by simpa using hactive) hright
            split
            · exact hlogin
            · rename_i next hcreated
              unfold AdminStore.createAdminSession at hcreated
              split at hcreated
              · cases hcreated
              · cases hcreated
                exact hlogin
  | verifyTOTP token code clock now =>
    simp only [adminMachine, AdminStore.adminVerifyTOTP]
    split
    · exact .kept _
    · rename_i session admin secret hchecked
      split
      · rename_i hvalid
        exact .verified hchecked hvalid
      · exact .failed _ _
  | setupTOTP adminId secret =>
    simp only [adminMachine, AdminStore.adminSetupTOTP]
    split
    · exact .kept _
    · exact .setup adminId secret
  | enableTOTP adminId code clock now =>
    simp only [adminMachine, AdminStore.adminEnableTOTP]
    split
    · exact .kept _
    · split
      · exact .kept _
      · split
        · exact .kept _
        · split
          · exact .enabled _
          · exact .kept _
  | logout sessionId now => exact .kept _

end Cases

/-! ## Counting wrong codes -/

def wrongCode (a : Int) (s : AdminStore) : AdminCall → Bool
  | .verifyTOTP token code clock now =>
    match s.codeCheck token now with
    | .ok (_, admin, secret) => admin.id = a && !Security.totpValidate clock code secret
    | .error _ => false
  | _ => false

def wrongCodes (a : Int) (log : List (Machine.Entry AdminStore AdminCall AdminAnswer)) : Nat :=
  log.countP fun e => wrongCode a e.before e.call

def rightCode (a : Int) (s : AdminStore) : AdminCall → Bool
  | .verifyTOTP token code clock now =>
    match s.codeCheck token now with
    | .ok (_, admin, secret) => admin.id = a && Security.totpValidate clock code secret
    | .error _ => false
  | _ => false

def rightPassword (a : Int) (s : AdminStore) : AdminCall → Bool
  | .login email password _ _ _ now =>
    match s.getAdminByEmail email with
    | some admin => admin.id = a && (admin.lockRemaining now).isNone && admin.status = .active &&
        Security.verify password admin.passwordHash = .ok
    | none => false
  | _ => false

def AdminStore.failures (s : AdminStore) (a : Int) : Nat := ((s.getAdminByID a).map (·.failedLoginCount)).getD 0

def OnlyWrongCodes (a : Int) (s : AdminStore) (c : AdminCall) : Prop := rightCode a s c = false

def KeepsFailures (a : Int) (s : AdminStore) (c : AdminCall) : Prop := rightPassword a s c = true → s.failures a = 0

instance (a : Int) (s : AdminStore) (c : AdminCall) : Decidable (OnlyWrongCodes a s c) :=
  inferInstanceAs (Decidable (rightCode a s c = false))

instance (a : Int) (s : AdminStore) (c : AdminCall) : Decidable (KeepsFailures a s c) :=
  inferInstanceAs (Decidable (rightPassword a s c = true → s.failures a = 0))

/-- When as many wrong codes as the threshold have been checked, the last of them locks the account. -/
def WrongCodesBounded (a : Int) (s : AdminStore) (calls : List AdminCall) : Prop :=
  ∀ (pre : List AdminCall) token code clock now (post : List AdminCall),
    calls = pre ++ AdminCall.verifyTOTP token code clock now :: post →
    wrongCode a (adminMachine.run s pre) (.verifyTOTP token code clock now) = true →
    adminLoginFailureThreshold ≤ wrongCodes a (adminMachine.log s (pre ++ [AdminCall.verifyTOTP token code clock now])) →
    ((adminMachine.run s (pre ++ [AdminCall.verifyTOTP token code clock now])).getAdminByID a).bind (·.lockedUntil) =
      some (now + adminLoginLockDuration)

section Counting

variable {s : AdminStore} {a : Int}

omit [Security] in
theorem getAdminByID_updateAdmin {f : Admin → Admin} (hf : ∀ admin, (f admin).id = admin.id) (id : Int) :
    (s.updateAdmin id f).getAdminByID a = (s.getAdminByID a).map fun admin => if admin.id = id then f admin else admin := by
  unfold AdminStore.getAdminByID AdminStore.updateAdmin
  rw [find?_updateWhere fun admin => by rw [hf]]
  simp only [decide_eq_true_eq]

variable {admin : Admin}

section

omit [Security]

theorem id_of_getAdminByID (h : s.getAdminByID a = some admin) : admin.id = a := by
  simpa using List.find?_some h

theorem failures_of_admins {t : AdminStore} (h : t.admins = s.admins) : t.failures a = s.failures a := by
  unfold AdminStore.failures AdminStore.getAdminByID
  rw [h]

theorem failures_le_updateAdmin {f : Admin → Admin} (hf : ∀ admin, (f admin).id = admin.id)
    (hle : ∀ admin, admin.failedLoginCount ≤ (f admin).failedLoginCount) (id : Int) :
    s.failures a ≤ (s.updateAdmin id f).failures a := by
  unfold AdminStore.failures
  rw [getAdminByID_updateAdmin hf]
  cases s.getAdminByID a with
  | none => exact Nat.le_refl _
  | some admin =>
    simp only [Option.map_some, Option.getD_some]
    split
    · exact hle admin
    · exact Nat.le_refl _

theorem failures_clear_of_ne {id : Int} (h : id ≠ a) : (s.clearAdminLoginFailures id).failures a = s.failures a := by
  unfold AdminStore.failures AdminStore.clearAdminLoginFailures
  rw [getAdminByID_updateAdmin fun _ => by rfl]
  cases hfound : s.getAdminByID a with
  | none => rfl
  | some admin =>
    have hne : admin.id ≠ id := by
      rw [id_of_getAdminByID hfound]
      exact h.symm
    simp [hne]

end

theorem codeCheck_admin {token : Text} {now : Int} {session : AdminSession} {secret : Text}
    (h : s.codeCheck token now = .ok (session, admin, secret)) :
    s.getAdminSessionByHash (Security.hashToken token) now = some session ∧ session.mfaPassed = false ∧
      s.getAdminByID session.adminId = some admin ∧ admin.totpEnabled = true ∧
      admin.totpSecretEnc.bind Security.decrypt = some secret := by
  unfold AdminStore.codeCheck at h
  split at h
  · cases h
  · rename_i found hsession
    split at h
    · cases h
    · rename_i hhalf
      split at h
      · cases h
      · rename_i owner howner
        split at h
        · cases h
        · split at h
          · cases h
          · rename_i henabled
            split at h
            · cases h
            · rename_i plain hplain
              cases h
              exact ⟨hsession, by simpa using hhalf, howner, by simpa using henabled, hplain⟩

theorem step_of_wrongCode {token code : Text} {clock now : Int}
    (h : wrongCode a s (.verifyTOTP token code clock now) = true) :
    ∃ admin, s.getAdminByID a = some admin ∧ (adminMachine.step s (.verifyTOTP token code clock now)).1 =
      s.recordAdminLoginFailure a adminLoginFailureThreshold adminLoginLockDuration now := by
  simp only [wrongCode] at h
  simp only [adminMachine, AdminStore.adminVerifyTOTP]
  split at h
  · rename_i session admin secret hchecked
    obtain ⟨hid, hwrong⟩ : admin.id = a ∧ Security.totpValidate clock code secret = false := by simpa using h
    have hfound := (codeCheck_admin hchecked).2.2.1
    have howner := id_of_getAdminByID hfound
    rw [← howner, hid] at hfound
    refine ⟨admin, hfound, ?_⟩
    simp only [hchecked, hwrong, hid, Bool.false_eq_true, if_false]
  · cases h

omit [Security] in
theorem failures_record (h : s.getAdminByID a = some admin) (now : Int) :
    (s.recordAdminLoginFailure a adminLoginFailureThreshold adminLoginLockDuration now).failures a = s.failures a + 1 := by
  have hid := id_of_getAdminByID h
  unfold AdminStore.failures AdminStore.recordAdminLoginFailure
  rw [getAdminByID_updateAdmin fun _ => by rfl, h]
  simp [hid]

theorem failures_step {c : AdminCall} (hkeeps : KeepsFailures a s c) (hwrong : OnlyWrongCodes a s c) :
    s.failures a + (if wrongCode a s c then 1 else 0) ≤ (adminMachine.step s c).1.failures a := by
  split
  · rename_i hcode
    cases c with
    | verifyTOTP token code clock now =>
      obtain ⟨admin, hfound, hstep⟩ := step_of_wrongCode hcode
      rw [hstep, failures_record hfound]
    | login | setupTOTP | enableTOTP | logout => cases hcode
  · rw [Nat.add_zero]
    have hchange := admins_step s c
    generalize hnext : (adminMachine.step s c).1 = t at hchange
    generalize hadmins : t.admins = rows at hchange
    cases hchange with
    | kept => exact Nat.le_of_eq (failures_of_admins hadmins).symm
    | failed id now =>
      rw [failures_of_admins (t := t) hadmins]
      apply failures_le_updateAdmin
      · exact fun _ => rfl
      · exact fun _ => Nat.le_succ _
    | @loggedIn email password token sessionId ttl now admin hfound hunlocked hactive hright =>
      rw [failures_of_admins (t := t) hadmins]
      by_cases hid : admin.id = a
      · rw [hkeeps (by simp [rightPassword, hfound, hid, hunlocked, hactive, hright])]
        exact Nat.zero_le _
      · rw [failures_clear_of_ne hid]
    | @verified token code clock now session admin secret hchecked hvalid =>
      rw [failures_of_admins (t := t) hadmins]
      by_cases hid : admin.id = a
      · have hright : rightCode a s (.verifyTOTP token code clock now) = true := by simp [rightCode, hchecked, hid, hvalid]
        rw [hwrong] at hright
        cases hright
      · rw [failures_clear_of_ne hid]
    | setup adminId secret =>
      rw [failures_of_admins (t := t) hadmins]
      apply failures_le_updateAdmin
      · exact fun _ => rfl
      · exact fun _ => Nat.le_refl _
    | enabled secretEnc =>
      rw [failures_of_admins (t := t) hadmins]
      apply failures_le_updateAdmin
      · exact fun _ => rfl
      · exact fun _ => Nat.le_refl _

theorem wrongCodes_le_failures {calls : List AdminCall}
    (hmeets : adminMachine.Meets (fun s c => KeepsFailures a s c ∧ OnlyWrongCodes a s c) s calls) :
    wrongCodes a (adminMachine.log s calls) ≤ (adminMachine.run s calls).failures a := by
  refine Machine.invariant (I := fun s log => wrongCodes a log ≤ s.failures a) (fun s past c hc hpast => ?_) hmeets
    (Nat.zero_le _)
  have hstep := failures_step hc.1 hc.2
  have hcount : wrongCodes a (past ++ [adminMachine.entry s c]) =
      wrongCodes a past + if wrongCode a s c then 1 else 0 := by
    unfold wrongCodes
    rw [List.countP_append, List.countP_singleton]
    rfl
  omega

end Counting

/-- As long as no login clears a count that is not zero, the threshold bounds the wrong codes. -/
theorem wrong_codes_bounded (a : Int) (s : AdminStore) (calls : List AdminCall)
    (hwrong : adminMachine.Meets (OnlyWrongCodes a) s calls) (hkeeps : adminMachine.Meets (KeepsFailures a) s calls) :
    WrongCodesBounded a s calls := by
  intro pre token code clock now post hcalls hcode hcount
  have hmeets : adminMachine.Meets (fun s c => KeepsFailures a s c ∧ OnlyWrongCodes a s c) s pre := by
    intro e he
    have hmem : e ∈ adminMachine.log s calls := by
      rw [hcalls, Machine.log_append]
      exact List.mem_append_left _ he
    exact ⟨hkeeps e hmem, hwrong e hmem⟩
  have hle := wrongCodes_le_failures hmeets
  obtain ⟨admin, hfound, hstep⟩ := step_of_wrongCode hcode
  have hfailures : (adminMachine.run s pre).failures a = admin.failedLoginCount := by
    unfold AdminStore.failures
    rw [hfound]
    rfl
  have hreached : adminLoginFailureThreshold ≤ admin.failedLoginCount + 1 := by
    rw [Machine.log_append, wrongCodes, List.countP_append] at hcount
    have hlast : List.countP (fun e => wrongCode a e.before e.call) (adminMachine.log (adminMachine.run s pre)
        [.verifyTOTP token code clock now]) ≤ 1 := List.countP_le_length
    unfold wrongCodes at hle
    omega
  rw [Machine.run_append]
  change ((adminMachine.step (adminMachine.run s pre) (.verifyTOTP token code clock now)).1.getAdminByID a).bind _ = _
  rw [hstep]
  unfold AdminStore.recordAdminLoginFailure
  rw [getAdminByID_updateAdmin fun _ => by rfl, hfound]
  simp [id_of_getAdminByID hfound, hreached]

end Calls

/-! ## Guesses after logins -/

/-- Passwords, codes and tokens that stand for themselves. -/
scoped instance plainSecurity : Security where
  verify password hash := if password = hash then .ok else .mismatch
  hashToken token := token
  encrypt secret := secret
  decrypt secret := some secret
  totpValidate _ code secret := code = secret
  lower email := email

def sampleAdmin : Admin where
  id := 1
  email := "root".toList
  passwordHash := "password".toList
  totpSecretEnc := some "secret".toList
  totpEnabledAt := some 0
  status := .active
  failedLoginCount := 0
  lockedUntil := none

def sampleAdmins : AdminStore := ⟨[sampleAdmin], [], List.nodup_nil⟩

def sampleLogin (n : Nat) : AdminCall := .login "root".toList "password".toList (Text.ofNat n) n 1000 0

def sampleGuess (n : Nat) : AdminCall := .verifyTOTP (Text.ofNat n) "guess".toList 0 0

/-- After one login, the fifth guess locks the account. -/
theorem wrong_codes_bounded_of_oneLogin :
    WrongCodesBounded 1 sampleAdmins (sampleLogin 1 :: List.replicate 5 (sampleGuess 1)) :=
  wrong_codes_bounded 1 sampleAdmins _ (by decide +kernel) (by decide +kernel)

/-- With a login before every guess, five guesses do not lock the account. -/
theorem login_before_every_guess :
    adminMachine.Meets (OnlyWrongCodes 1) sampleAdmins
        ((List.range 5).flatMap fun n => [sampleLogin n, sampleGuess n]) ∧
      ¬ WrongCodesBounded 1 sampleAdmins ((List.range 5).flatMap fun n => [sampleLogin n, sampleGuess n]) := by
  refine ⟨by decide +kernel, fun hbounded => ?_⟩
  have hlocked := hbounded (((List.range 4).flatMap fun n => [sampleLogin n, sampleGuess n]) ++ [sampleLogin 4])
    (Text.ofNat 4) "guess".toList 0 0 [] (by decide +kernel) (by decide +kernel) (by decide +kernel)
  exact absurd hlocked (by decide +kernel)

end Lumio.Control
