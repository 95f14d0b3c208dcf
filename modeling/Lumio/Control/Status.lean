import Lumio.Lib.Machine
import Lumio.Lib.Table
import Lumio.Lib.Text

/-!
# The status of an account

Every operation writes the row of a user with one `UPDATE`. Verification looks at the row before it writes, and the job
that ends deleted accounts selects them all before it disables them one by one.
-/

namespace Lumio.Control

inductive AccountStatus where
  | pendingEmail
  | active
  | disabled
deriving DecidableEq

/-- Instants are seconds. -/
structure Account where
  status : AccountStatus
  emailVerifiedAt : Option Int
  deletionRequestedAt : Option Int
  disabledAt : Option Int
  disabledByAdminId : Option Nat
  disabledReason : Option Text
deriving DecidableEq

namespace Account

def created : Account := ⟨.pendingEmail, none, none, none, none, none⟩

def activateUser (now : Int) (a : Account) : Account := { a with status := .active, emailVerifiedAt := some now }

def setUserDisabled (disabled : Bool) (adminId : Option Nat) (reason : Text) (now : Int) (a : Account) : Account :=
  if disabled then
    { a with status := .disabled, disabledAt := some now, disabledByAdminId := adminId, disabledReason := some reason }
  else { a with status := .active, disabledAt := none, disabledByAdminId := none, disabledReason := none }

def setDeletionRequested (at_ : Option Int) (a : Account) : Account := { a with deletionRequestedAt := at_ }

end Account

def accountDeletionGracePeriod : Int := 7 * 24 * 60 * 60

def Account.deletionDue (now : Int) (a : Account) : Bool :=
  match a.deletionRequestedAt with
  | some requested => requested ≤ now - accountDeletionGracePeriod
  | none => false

/-- A run of `ExpireDeletedAccounts`: the instant it began and the accounts it has still to disable. -/
structure ExpiryJob where
  now : Int
  ids : List Nat
deriving DecidableEq

/-- `verifying` are the verifications whose code was right and that have not written yet. -/
structure Accounts where
  users : Table Nat Account
  nextId : Nat
  verifying : List Nat
  jobs : Table Nat ExpiryJob
  nextJob : Nat

inductive AccountEvent where
  | register
  | provisionFederatedUser (now : Int)
  | checkCode (id : Nat) (right : Bool)
  | verifyEmail (id : Nat) (now : Int)
  | setUserDisabled (id : Nat) (disabled : Bool) (adminId : Nat) (reason : Text) (now : Int)
  | requestAccountDeletion (id : Nat) (now : Int)
  | cancelAccountDeletion (id : Nat)
  | selectDeleted (now : Int)
  | disableDeleted (job : Nat)
  | abandon (job : Nat)
deriving DecidableEq

inductive AccountOutcome where
  | done
  | refused
  | expired (id : Nat) (now : Int)
deriving DecidableEq

namespace Accounts

def initial : Accounts := ⟨∅, 0, [], ∅, 0⟩

def insertUser (s : Accounts) (a : Account) : Accounts :=
  { s with users := s.users.insert s.nextId a, nextId := s.nextId + 1 }

def update (s : Accounts) (id : Nat) (f : Account → Account) : Accounts := { s with users := s.users.modify id f }

def selectDeleted (s : Accounts) (now : Int) : List Nat :=
  (s.users.entries.filter fun row => row.2.deletionDue now && row.2.status ≠ .disabled).map (·.1)

def step (s : Accounts) : AccountEvent → Accounts × AccountOutcome
  | .register => (s.insertUser .created, .done)
  | .provisionFederatedUser now => (s.insertUser (Account.created.activateUser now), .done)
  | .checkCode id right =>
    match s.users.lookup id with
    | some a => if a.status = .disabled ∨ right = false then (s, .refused) else ({ s with verifying := id :: s.verifying }, .done)
    | none => (s, .refused)
  | .verifyEmail id now =>
    if id ∈ s.verifying then
      ({ s.update id (.activateUser now) with verifying := s.verifying.erase id }, .done)
    else (s, .refused)
  | .setUserDisabled id disabled adminId reason now =>
    match s.users.lookup id with
    | some _ => (s.update id (.setUserDisabled disabled (some adminId) reason now), .done)
    | none => (s, .refused)
  | .requestAccountDeletion id now =>
    match s.users.lookup id with
    | some _ => (s.update id (.setDeletionRequested (some now)), .done)
    | none => (s, .refused)
  | .cancelAccountDeletion id => (s.update id (.setDeletionRequested none), .done)
  | .selectDeleted now =>
    ({ s with jobs := s.jobs.insert s.nextJob ⟨now, s.selectDeleted now⟩, nextJob := s.nextJob + 1 }, .done)
  | .disableDeleted job =>
    match s.jobs.lookup job with
    | some ⟨now, id :: ids⟩ =>
      ({ s.update id (.setUserDisabled true none "用户申请注销，冷静期已满".toList now) with
          jobs := s.jobs.insert job ⟨now, ids⟩ }, .expired id now)
    | _ => (s, .done)
  | .abandon job => ({ s with jobs := s.jobs.erase job }, .done)

end Accounts

def accountMachine : Machine Accounts AccountEvent AccountOutcome := ⟨Accounts.step⟩

abbrev AccountEntry := Machine.Entry Accounts AccountEvent AccountOutcome

/-- Only verified accounts are active, and only accounts with a request that is due have been ended. -/
structure StatusKept (log : List AccountEntry) (s : Accounts) : Prop where
  verified : ∀ id a, s.users.lookup id = some a → a.status = .active → a.emailVerifiedAt.isSome = true
  due : ∀ e ∈ log, ∀ id now, e.answer = .expired id now →
    ∃ a, e.before.users.lookup id = some a ∧ a.deletionDue now = true

/-- An account that is enabled has been verified, and a request is neither made nor withdrawn between the selection of
its account and its end. -/
def StatusRespected (s : Accounts) : AccountEvent → Prop
  | .setUserDisabled id false _ _ _ => ∀ a ∈ s.users.lookup id, a.emailVerifiedAt.isSome = true
  | .requestAccountDeletion id _ => ∀ job ∈ s.jobs.entries, id ∉ job.2.ids
  | .cancelAccountDeletion id => ∀ job ∈ s.jobs.entries, id ∉ job.2.ids
  | _ => True

instance (s : Accounts) (event : AccountEvent) : Decidable (StatusRespected s event) :=
  match event with
  | .setUserDisabled id false _ _ _ => inferInstanceAs (Decidable (∀ a ∈ s.users.lookup id, a.emailVerifiedAt.isSome = true))
  | .setUserDisabled _ true _ _ _ => inferInstanceAs (Decidable True)
  | .requestAccountDeletion id _ => inferInstanceAs (Decidable (∀ job ∈ s.jobs.entries, id ∉ job.2.ids))
  | .cancelAccountDeletion id => inferInstanceAs (Decidable (∀ job ∈ s.jobs.entries, id ∉ job.2.ids))
  | .register => inferInstanceAs (Decidable True)
  | .provisionFederatedUser _ => inferInstanceAs (Decidable True)
  | .checkCode _ _ => inferInstanceAs (Decidable True)
  | .verifyEmail _ _ => inferInstanceAs (Decidable True)
  | .selectDeleted _ => inferInstanceAs (Decidable True)
  | .disableDeleted _ => inferInstanceAs (Decidable True)
  | .abandon _ => inferInstanceAs (Decidable True)

/-! ## What the tables keep -/

/-- Active accounts are verified, and what a job has selected is due. -/
structure Lawful (s : Accounts) : Prop where
  fresh : ∀ id, s.nextId ≤ id → s.users.lookup id = none
  verified : ∀ {id a}, s.users.lookup id = some a → a.status = .active → a.emailVerifiedAt.isSome = true
  selected : ∀ {job j id}, s.jobs.lookup job = some j → id ∈ j.ids →
    ∃ a, s.users.lookup id = some a ∧ a.deletionDue j.now = true

namespace Lawful

variable {s : Accounts} {id : Nat}

theorem insertUser (h : Lawful s) {a : Account} (ha : a.status = .active → a.emailVerifiedAt.isSome = true) :
    Lawful (s.insertUser a) := by
  constructor
  · intro id hid
    change s.nextId + 1 ≤ id at hid
    refine (AList.lookup_insert_ne ?_).trans (h.fresh id ?_) <;> omega
  · intro id b hb
    rcases (Table.lookup_insert_iff b).mp hb with ⟨-, rfl⟩ | ⟨-, hb⟩
    · exact ha
    · exact h.verified hb
  · intro job j id hj hid
    obtain ⟨b, hb, hdue⟩ := h.selected hj hid
    refine ⟨b, (AList.lookup_insert_ne ?_).trans hb, hdue⟩
    rintro rfl
    rw [h.fresh _ (Nat.le_refl _)] at hb
    cases hb

theorem update (h : Lawful s) {f : Account → Account}
    (hverified : ∀ a, s.users.lookup id = some a → (f a).status = .active → (f a).emailVerifiedAt.isSome = true)
    (hselected : ∀ a job j, s.users.lookup id = some a → s.jobs.lookup job = some j → id ∈ j.ids →
      (f a).deletionRequestedAt = a.deletionRequestedAt) : Lawful (s.update id f) := by
  constructor
  · intro other hother
    rw [Accounts.update, Table.lookup_modify_eq]
    split
    · rename_i heq
      rw [heq] at hother
      rw [h.fresh id hother]
      rfl
    · exact h.fresh other hother
  · intro other b hb hactive
    rw [Accounts.update, Table.lookup_modify_eq] at hb
    split at hb
    · obtain ⟨a, ha, rfl⟩ := Option.map_eq_some_iff.mp hb
      exact hverified a ha hactive
    · exact h.verified hb hactive
  · intro job j other hj hother
    obtain ⟨a, ha, hdue⟩ := h.selected hj hother
    rw [Accounts.update, Table.lookup_modify_eq]
    split
    · rename_i heq
      subst heq
      refine ⟨f a, by rw [ha]; rfl, ?_⟩
      rw [Account.deletionDue, hselected a job j ha hj hother]
      exact hdue
    · exact ⟨a, ha, hdue⟩

theorem step (h : Lawful s) {event : AccountEvent} (hevent : StatusRespected s event) : Lawful (s.step event).1 := by
  cases event with
  | register => exact h.insertUser nofun
  | provisionFederatedUser now => exact h.insertUser fun _ => rfl
  | checkCode id right =>
    simp only [Accounts.step]
    split
    · split
      · exact h
      · exact ⟨h.fresh, h.verified, h.selected⟩
    · exact h
  | verifyEmail id now =>
    simp only [Accounts.step]
    split
    · have hupdate : Lawful (s.update id (.activateUser now)) := h.update (fun _ _ _ => rfl) fun _ _ _ _ _ _ => rfl
      exact ⟨hupdate.fresh, hupdate.verified, hupdate.selected⟩
    · exact h
  | setUserDisabled id disabled adminId reason now =>
    simp only [Accounts.step]
    split
    · refine h.update (fun a ha hactive => ?_) fun a _ _ _ _ _ => ?_
      · cases disabled with
        | true => cases hactive
        | false => exact hevent a ha
      · cases disabled <;> rfl
    · exact h
  | requestAccountDeletion id now =>
    simp only [Accounts.step]
    split
    · refine h.update (fun a ha => h.verified (a := a) ha) fun a job j _ hj hid => ?_
      exact absurd hid (hevent ⟨job, j⟩ (Table.lookup_eq_some_iff.mp hj))
    · exact h
  | cancelAccountDeletion id =>
    refine h.update (fun a ha => h.verified (a := a) ha) fun a job j _ hj hid => ?_
    exact absurd hid (hevent ⟨job, j⟩ (Table.lookup_eq_some_iff.mp hj))
  | selectDeleted now =>
    refine ⟨h.fresh, h.verified, fun {job j id} hj hid => ?_⟩
    rcases (Table.lookup_insert_iff j).mp hj with ⟨-, rfl⟩ | ⟨-, hj⟩
    · obtain ⟨row, hrow, rfl⟩ := List.mem_map.mp hid
      obtain ⟨hmem, hdue⟩ := List.mem_filter.mp hrow
      rw [Bool.and_eq_true] at hdue
      exact ⟨row.2, Table.lookup_eq_some_iff.mpr hmem, hdue.1⟩
    · exact h.selected hj hid
  | disableDeleted job =>
    simp only [Accounts.step]
    split
    · rename_i now id ids hj
      have hupdate : Lawful (s.update id (.setUserDisabled true none "用户申请注销，冷静期已满".toList now)) :=
        h.update nofun fun _ _ _ _ _ _ => rfl
      refine ⟨hupdate.fresh, hupdate.verified, fun {job' j id'} hj' hid' => ?_⟩
      rcases (Table.lookup_insert_iff j).mp hj' with ⟨-, rfl⟩ | ⟨-, hj'⟩
      · exact hupdate.selected (j := ⟨now, id :: ids⟩) hj (List.mem_cons_of_mem _ hid')
      · exact hupdate.selected hj' hid'
    · exact h
  | abandon job =>
    exact ⟨h.fresh, h.verified, fun hj hid => h.selected (Table.lookup_erase_iff.mp hj).2 hid⟩

end Lawful

theorem selected_of_expired {s : Accounts} {event : AccountEvent} {id : Nat} {now : Int}
    (h : (s.step event).2 = .expired id now) : ∃ job ids, s.jobs.lookup job = some ⟨now, id :: ids⟩ := by
  cases event with
  | disableDeleted job =>
    simp only [Accounts.step] at h
    split at h
    · rename_i now' id' ids hj
      cases h
      exact ⟨job, ids, hj⟩
    · cases h
  | checkCode _ _ | setUserDisabled _ _ _ _ _ | requestAccountDeletion _ _ | verifyEmail _ _ =>
    simp only [Accounts.step] at h
    split at h <;> first
      | cases h
      | split at h <;> cases h
  | register | provisionFederatedUser _ | cancelAccountDeletion _ | selectDeleted _ | abandon _ => cases h

/-- As long as enabling and requests respect what is under way, the status of every account is right. -/
theorem status_kept (events : List AccountEvent) (hrespected : accountMachine.Meets StatusRespected .initial events) :
    StatusKept (accountMachine.log .initial events) (accountMachine.run .initial events) := by
  have hstart : Lawful .initial := ⟨fun _ _ => rfl, nofun, nofun⟩
  obtain ⟨hlawful, hdue⟩ := Machine.invariant (M := accountMachine) (C := StatusRespected)
    (I := fun s past => Lawful s ∧ ∀ e ∈ past, ∀ id now, e.answer = .expired id now →
      ∃ a, e.before.users.lookup id = some a ∧ a.deletionDue now = true) (fun s past event hevent hs => by
      refine ⟨hs.1.step hevent, fun e he id now hexpired => ?_⟩
      rcases List.mem_append.mp he with he | he
      · exact hs.2 e he id now hexpired
      · rw [List.mem_singleton.mp he] at hexpired ⊢
        obtain ⟨job, ids, hj⟩ := selected_of_expired hexpired
        exact hs.1.selected hj (List.mem_cons_self ..)) hrespected ⟨hstart, nofun⟩
  exact ⟨fun id a ha => hlawful.verified ha, hdue⟩

/-- A verified account asks to be deleted, and a week later it is. -/
theorem status_kept_deleted :
    StatusKept
      (accountMachine.log .initial [.register, .checkCode 0 true, .verifyEmail 0 0, .requestAccountDeletion 0 10,
        .selectDeleted 700000, .disableDeleted 0])
      (accountMachine.run .initial [.register, .checkCode 0 true, .verifyEmail 0 0, .requestAccountDeletion 0 10,
        .selectDeleted 700000, .disableDeleted 0]) :=
  status_kept _ (by decide +kernel)

/-- An account that was never verified is disabled and enabled again. -/
theorem enabled_without_verification :
    ¬ StatusKept
      (accountMachine.log .initial [.register, .setUserDisabled 0 true 1 [] 0, .setUserDisabled 0 false 1 [] 5])
      (accountMachine.run .initial [.register, .setUserDisabled 0 true 1 [] 0, .setUserDisabled 0 false 1 [] 5]) := by
  intro h
  exact absurd (h.verified 0 ⟨.active, none, none, none, none, none⟩ (by decide +kernel) rfl) (by decide)

/-- A request is withdrawn after the job has selected the account. -/
example : ((accountMachine.run .initial [.register, .requestAccountDeletion 0 10, .selectDeleted 700000,
    .cancelAccountDeletion 0, .disableDeleted 0]).users.lookup 0).map (·.status) = some .disabled := by
  decide +kernel

end Lumio.Control
