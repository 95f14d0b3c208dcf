import Lumio.Control.Identities

/-!
# Mappings of upstream identities

A mapping never changes and belongs to one account alone, and the column of `users` that repeats it agrees. A request
of an identity that is mapped is let in, except when the account centre has moved it to an address that another local
account has.
-/

namespace Lumio.Control

open RowStore Tx

/-! ## What every commit keeps -/

namespace IdentityStore

variable {s t u : IdentityStore}

/-- The mappings and the column of `users` say the same. -/
structure Valid (s : IdentityStore) : Prop where
  mapped : ∀ sid row, s.identities.lookup sid = some row →
    ∃ user, s.users.lookup row.userId = some user ∧ user.sub2apiUserId = some sid
  linked : ∀ id user sid, s.users.lookup id = some user → user.sub2apiUserId = some sid →
    ∃ row, s.identities.lookup sid = some row ∧ row.userId = id

structure Evolves (s t : IdentityStore) : Prop where
  mappings : s.identities.Evolves (fun row row' => row'.userId = row.userId) t.identities
  users : s.users.Evolves (fun user user' => user'.status = user.status) t.users

theorem Evolves.refl (s : IdentityStore) : Evolves s s := ⟨fun _ row hrow => ⟨row, hrow, rfl⟩, fun _ user huser => ⟨user, huser, rfl⟩⟩

theorem Evolves.trans (h : Evolves s t) (h' : Evolves t u) : Evolves s u :=
  ⟨h.mappings.trans (fun _ _ _ h h' => h'.trans h) h'.mappings, h.users.trans (fun _ _ _ h h' => h'.trans h) h'.users⟩

variable {sid : Text}

theorem Valid.injective (h : s.Valid) {sid' : Text} {row row' : IdentityRow}
    (hrow : s.identities.lookup sid = some row) (hrow' : s.identities.lookup sid' = some row')
    (heq : row.userId = row'.userId) : sid = sid' := by
  obtain ⟨user, huser, hsid⟩ := h.mapped sid row hrow
  obtain ⟨user', huser', hsid'⟩ := h.mapped sid' row' hrow'
  rw [heq, huser'] at huser
  cases huser
  rw [hsid'] at hsid
  exact (Option.some.inj hsid).symm

theorem sub2apiTaken_eq_false {id : Int} {user : LocalUser} (h : s.sub2apiTaken id sid = false) {id' : Int}
    (huser : s.users.lookup id' = some user) (hsid : user.sub2apiUserId = some sid) : id' = id := by
  by_contra hne
  have := List.any_eq_false.mp h ⟨id', user⟩ (Table.lookup_eq_some_iff.mp huser)
  simp [hne, hsid] at this

theorem userLinked_eq_false {id : Int} {row : IdentityRow} (h : s.userLinked id = false)
    (hrow : s.identities.lookup sid = some row) : row.userId ≠ id := by
  have := List.any_eq_false.mp h row (Table.mem_values_iff.mpr ⟨sid, hrow⟩)
  simpa using this

theorem initial_valid (users : Table Int LocalUser) : (initial users).Valid := by
  refine ⟨fun sid row hrow => ?_, fun id user sid hid hsid => ?_⟩
  · cases hrow
  · obtain ⟨old, -, rfl⟩ := Table.lookup_mapRows.mp hid
    cases hsid

end IdentityStore

/-! ## What a request is owed -/

/-- The account that a request is owed: its identity is active and mapped, and the account is not disabled. -/
def owed (s : IdentityStore) : IdentityCall → Option Int
  | .authenticateSub2API identity _ _ =>
    if identity.active then
      match s.identities.lookup identity.id with
      | some row =>
        match s.users.lookup row.userId with
        | some user => if user.status = .disabled then none else some row.userId
        | none => none
      | none => none
    else none
  | .linkIdentity _ _ _ _ => none

section Owed

variable {since s t : IdentityStore} {identity : UpstreamIdentity} {newId now : Int} {mapping : IdentityRow}
  {user user' : LocalUser}

theorem owed_mapped (hevolves : since.Evolves s) (hevolves' : s.Evolves t)
    (hmapping : s.identities.lookup identity.id = some mapping) (huser : t.users.lookup mapping.userId = some user)
    {userId : Int} (howed : owed since (.authenticateSub2API identity newId now) = some userId) :
    userId = mapping.userId ∧ user.status ≠ .disabled := by
  simp only [owed] at howed
  split at howed
  · split at howed
    · rename_i row hrow
      split at howed
      · rename_i old hold
        split at howed
        · cases howed
        · rename_i hstatus
          cases howed
          obtain ⟨row', hrow', hsame⟩ := hevolves.mappings _ _ hrow
          rw [hmapping] at hrow'
          cases hrow'
          obtain ⟨old', hold', hsame'⟩ := (hevolves.trans hevolves').users _ _ hold
          rw [← hsame, huser] at hold'
          cases hold'
          rw [hsame']
          exact ⟨hsame.symm, hstatus⟩
      · cases howed
    · cases howed
  · cases howed

theorem admit_of_owed (hevolves : since.Evolves s) (hevolves' : s.Evolves t)
    (hmapping : s.identities.lookup identity.id = some mapping) (huser : t.users.lookup mapping.userId = some user)
    (hstatus : user'.status = user.status) (userId : Int)
    (howed : owed since (.authenticateSub2API identity newId now) = some userId) :
    ∃ email, admitUser mapping.userId user' = .principal userId email := by
  obtain ⟨rfl, hactive⟩ := owed_mapped hevolves hevolves' hmapping huser howed
  refine ⟨user'.email, ?_⟩
  rw [admitUser, hstatus, if_neg hactive]

end Owed

section Calls

variable [Lowercase]

open Lowercase

namespace IdentityStore

variable {s t u : IdentityStore} {locked : List IdentityKey} {id : Int} {sid : Text} {user user' : LocalUser}
  {row row' : IdentityRow}

structure Kept (locked : List IdentityKey) (s t : IdentityStore) : Prop where
  valid : t.Valid
  evolves : Evolves s t
  freed : ∀ id user, s.users.lookup id = some user → ∃ user', t.users.lookup id = some user' ∧
    (lower user'.email = lower user.email ∨ .email (lower user.email) ∈ locked)

theorem Kept.refl (h : s.Valid) : Kept locked s s := ⟨h, .refl s, fun _ user huser => ⟨user, huser, .inl rfl⟩⟩

theorem Kept.trans (h : Kept locked s t) (h' : Kept locked t u) : Kept locked s u := by
  refine ⟨h'.valid, h.evolves.trans h'.evolves, fun id user huser => ?_⟩
  obtain ⟨user', huser', hemail⟩ := h.freed id user huser
  obtain ⟨user'', huser'', hemail'⟩ := h'.freed id user' huser'
  refine ⟨user'', huser'', ?_⟩
  rcases hemail with hemail | hemail
  · rw [hemail] at hemail'
    exact hemail'
  · exact .inr hemail

theorem Kept.mono {more : List IdentityKey} (h : Kept locked s t) (hsub : ∀ k ∈ locked, k ∈ more) : Kept more s t := by
  refine ⟨h.valid, h.evolves, fun id user huser => ?_⟩
  obtain ⟨user', huser', hemail⟩ := h.freed id user huser
  exact ⟨user', huser', hemail.imp_right (hsub _)⟩

theorem Kept.putIdentity (h : s.Valid) (hrow : s.identities.lookup sid = some row) (huser : row'.userId = row.userId) :
    Kept locked s { s with identities := s.identities.insert sid row' } := by
  refine ⟨⟨fun sid' row'' h' => ?_, fun id user sid' hid hsid => ?_⟩, ⟨?_, fun _ user hid => ⟨user, hid, rfl⟩⟩,
    fun _ user hid => ⟨user, hid, .inl rfl⟩⟩
  · rcases (Table.lookup_insert_iff _).mp h' with ⟨rfl, rfl⟩ | ⟨-, h'⟩
    · rw [huser]
      exact h.mapped _ _ hrow
    · exact h.mapped _ _ h'
  · obtain ⟨old, hold, holdUser⟩ := h.linked id user sid' hid hsid
    by_cases heq : sid' = sid
    · subst heq
      rw [hrow] at hold
      cases hold
      exact ⟨row', by simp, huser.trans holdUser⟩
    · exact ⟨old, by simp [AList.lookup_insert_ne heq, hold], holdUser⟩
  · refine .insert (fun _ => rfl) fun old hold => ?_
    rw [hrow] at hold
    cases hold
    exact huser

theorem Kept.putUser (h : s.Valid) (hid : s.users.lookup id = some user) (hsid : user'.sub2apiUserId = user.sub2apiUserId)
    (hstatus : user'.status = user.status) (hemail : user'.email = user.email ∨ .email (lower user.email) ∈ locked) :
    Kept locked s { s with users := s.users.insert id user' } := by
  refine ⟨⟨fun sid row hrow => ?_, fun id' user'' sid hid' hsid' => ?_⟩, ⟨fun _ row hrow => ⟨row, hrow, rfl⟩, ?_⟩, fun id' old hold => ?_⟩
  · obtain ⟨old, hold, holdSid⟩ := h.mapped sid row hrow
    by_cases heq : row.userId = id
    · rw [heq, hid] at hold
      cases hold
      exact ⟨user', by rw [heq]; exact AList.lookup_insert _, hsid.trans holdSid⟩
    · exact ⟨old, by simp [AList.lookup_insert_ne heq, hold], holdSid⟩
  · rcases (Table.lookup_insert_iff _).mp hid' with ⟨rfl, rfl⟩ | ⟨-, hid'⟩
    · exact h.linked _ user sid hid (hsid.symm.trans hsid')
    · exact h.linked _ _ sid hid' hsid'
  · refine .insert (fun _ => rfl) fun old hold => ?_
    rw [hid] at hold
    cases hold
    exact hstatus
  · by_cases heq : id' = id
    · subst heq
      rw [hid] at hold
      cases hold
      exact ⟨user', by simp, hemail.imp_left (congrArg lower)⟩
    · exact ⟨old, by simp [AList.lookup_insert_ne heq, hold], .inl rfl⟩

theorem Kept.newUser (h : s.Valid) (hid : s.users.lookup id = none) (hsid : user.sub2apiUserId = none) :
    Kept locked s { s with users := s.users.insert id user } := by
  have hne : ∀ {id' old}, s.users.lookup id' = some old → id' ≠ id := by
    rintro id' old hold rfl
    rw [hid] at hold
    cases hold
  refine ⟨⟨fun sid row hrow => ?_, fun id' user' sid hid' hsid' => ?_⟩, ⟨fun _ row hrow => ⟨row, hrow, rfl⟩, ?_⟩, fun id' old hold => ?_⟩
  · obtain ⟨old, hold, holdSid⟩ := h.mapped sid row hrow
    exact ⟨old, by simp [AList.lookup_insert_ne (hne hold), hold], holdSid⟩
  · rcases (Table.lookup_insert_iff _).mp hid' with ⟨rfl, rfl⟩ | ⟨-, hid'⟩
    · rw [hsid] at hsid'
      cases hsid'
    · exact h.linked _ _ sid hid' hsid'
  · refine .insert (fun _ => rfl) fun old hold => ?_
    exact absurd rfl (hne hold)
  · exact ⟨old, by simp [AList.lookup_insert_ne (hne hold), hold], .inl rfl⟩

theorem Kept.link (h : s.Valid) (hrow : s.identities.lookup sid = none)
    (hfree : ∀ sid' row', s.identities.lookup sid' = some row' → row'.userId ≠ id) (hid : s.users.lookup id = some user)
    (huser : row.userId = id) : Kept locked s
      ⟨s.users.insert id { user with sub2apiUserId := some sid }, s.identities.insert sid row⟩ := by
  refine ⟨⟨fun sid' row' hrow' => ?_, fun id' user' sid' hid' hsid' => ?_⟩, ⟨?_, ?_⟩, fun id' old hold => ?_⟩
  · rcases (Table.lookup_insert_iff _).mp hrow' with ⟨rfl, rfl⟩ | ⟨-, hrow'⟩
    · exact ⟨_, by rw [huser]; exact AList.lookup_insert _, rfl⟩
    · obtain ⟨old, hold, holdSid⟩ := h.mapped sid' row' hrow'
      exact ⟨old, by simp [AList.lookup_insert_ne (hfree _ _ hrow'), hold], holdSid⟩
  · rcases (Table.lookup_insert_iff _).mp hid' with ⟨rfl, rfl⟩ | ⟨hne, hid'⟩
    · cases hsid'
      exact ⟨row, AList.lookup_insert _, huser⟩
    · obtain ⟨old, hold, holdUser⟩ := h.linked id' user' sid' hid' hsid'
      have hsne : sid' ≠ sid := by
        rintro rfl
        rw [hrow] at hold
        cases hold
      exact ⟨old, by simp [AList.lookup_insert_ne hsne, hold], holdUser⟩
  · refine .insert (fun _ => rfl) fun old hold => ?_
    rw [hrow] at hold
    cases hold
  · refine .insert (fun _ => rfl) fun old hold => ?_
    rw [hid] at hold
    cases hold
    rfl
  · by_cases heq : id' = id
    · subst heq
      rw [hid] at hold
      cases hold
      exact ⟨_, AList.lookup_insert _, .inl rfl⟩
    · exact ⟨old, by simp [AList.lookup_insert_ne heq, hold], .inl rfl⟩

end IdentityStore

/-! ## The contract -/

namespace IdentityStore

variable {s t u : IdentityStore} {locked : List IdentityKey} {ws : List IdentityWrite} {id : Int} {sid : Text}
  {row : IdentityRow}

structure Framed (locked : List IdentityKey) (s t : IdentityStore) : Prop where
  users : ∀ id, .user id ∈ locked → t.users.lookup id = s.users.lookup id
  identities : ∀ sid, .identity sid ∈ locked → t.identities.lookup sid = s.identities.lookup sid
  unclaimed : ∀ id, .identityUser id ∈ locked → (∀ sid row, s.identities.lookup sid = some row → row.userId ≠ id) →
    ∀ sid row, t.identities.lookup sid = some row → row.userId ≠ id
  owners : ∀ address, .email address ∈ locked → ∀ id user, s.users.lookup id = some user → lower user.email = address →
    ∃ user', t.users.lookup id = some user' ∧ lower user'.email = address

theorem Framed.refl (s : IdentityStore) : Framed locked s s :=
  ⟨fun _ _ => rfl, fun _ _ => rfl, fun _ _ h => h, fun _ _ _ user huser haddress => ⟨user, huser, haddress⟩⟩

theorem Framed.trans (h : Framed locked s t) (h' : Framed locked t u) : Framed locked s u := by
  refine ⟨fun id hk => (h'.users id hk).trans (h.users id hk), fun sid hk => (h'.identities sid hk).trans (h.identities sid hk),
    fun id hk hfree => h'.unclaimed id hk (h.unclaimed id hk hfree), fun address hk id user huser haddress => ?_⟩
  obtain ⟨user', huser', haddress'⟩ := h.owners address hk id user huser haddress
  exact h'.owners address hk id user' huser' haddress'

theorem view_append (s : IdentityStore) (ws vs : List IdentityWrite) :
    identityRows.view s (ws ++ vs) = identityRows.view (identityRows.view s ws) vs := List.foldl_append ..

theorem view_users_eq (h : t.users.lookup id = s.users.lookup id) (ws : List IdentityWrite) :
    (identityRows.view t ws).users.lookup id = (identityRows.view s ws).users.lookup id := by
  induction ws generalizing s t with
  | nil => exact h
  | cons w ws ih =>
    cases w with
    | user id' row => exact ih (Table.lookup_insert_congr h row)
    | identity sid row => exact ih h

theorem view_users_isSome (h : (s.users.lookup id).isSome = true → (t.users.lookup id).isSome = true)
    (ws : List IdentityWrite) (hs : ((identityRows.view s ws).users.lookup id).isSome = true) :
    ((identityRows.view t ws).users.lookup id).isSome = true := by
  induction ws generalizing s t with
  | nil => exact h hs
  | cons w ws ih =>
    cases w with
    | user id' row =>
      refine ih (s := { s with users := s.users.insert id' row }) (fun hsome => ?_) hs
      by_cases heq : id = id'
      · subst heq
        simp [identityRows]
      · simp only [identityRows, AList.lookup_insert_ne heq] at hsome ⊢
        exact h hsome
    | identity sid row => exact ih (s := { s with identities := s.identities.insert sid row }) h hs

theorem view_users_of_not_mem (hw : ∀ row, .user id row ∉ ws) :
    (identityRows.view s ws).users.lookup id = s.users.lookup id := by
  induction ws generalizing s with
  | nil => rfl
  | cons w ws ih =>
    rw [view, List.foldl_cons]
    refine (ih fun row hrow => hw row (List.mem_cons_of_mem _ hrow)).trans ?_
    cases w with
    | user id' row =>
      refine AList.lookup_insert_ne ?_
      rintro rfl
      exact hw row (List.mem_cons_self ..)
    | identity sid row => rfl

theorem view_identities_of_not_mem (hw : ∀ row, .identity sid row ∉ ws) :
    (identityRows.view s ws).identities.lookup sid = s.identities.lookup sid := by
  induction ws generalizing s with
  | nil => rfl
  | cons w ws ih =>
    rw [view, List.foldl_cons]
    refine (ih fun row hrow => hw row (List.mem_cons_of_mem _ hrow)).trans ?_
    cases w with
    | user id row => rfl
    | identity sid' row =>
      refine AList.lookup_insert_ne ?_
      rintro rfl
      exact hw row (List.mem_cons_self ..)

theorem mem_of_view_identities (h : (identityRows.view s ws).identities.lookup sid = some row) :
    s.identities.lookup sid = some row ∨ .identity sid row ∈ ws := by
  induction ws generalizing s with
  | nil => exact .inl h
  | cons w ws ih =>
    rcases ih h with h | h
    · cases w with
      | user id row' => exact .inl h
      | identity sid' row' =>
        rcases (Table.lookup_insert_iff _).mp h with ⟨rfl, rfl⟩ | ⟨-, h⟩
        · exact .inr (List.mem_cons_self ..)
        · exact .inl h
    · exact .inr (List.mem_cons_of_mem _ h)

theorem Framed.view {mine : List IdentityKey} (hrows : ∀ w ∈ ws, ∀ k ∈ identityRows.rows w, k ∈ mine)
    (happart : ∀ k ∈ mine, k ∉ locked) (hkept : Kept mine s (identityRows.view s ws)) :
    Framed locked s (identityRows.view s ws) := by
  refine ⟨fun id hk => ?_, fun sid hk => ?_, fun id hk hfree sid row hrow huser => ?_,
    fun address hk id user huser haddress => ?_⟩
  · refine view_users_of_not_mem fun row hw => ?_
    exact happart _ (hrows _ hw (.user id) (List.mem_cons_self ..)) hk
  · refine view_identities_of_not_mem fun row hw => ?_
    exact happart _ (hrows _ hw (.identity sid) (List.mem_cons_self ..)) hk
  · rcases mem_of_view_identities hrow with h | h
    · exact hfree sid row h huser
    · subst huser
      exact happart _ (hrows _ h (.identityUser row.userId) (by simp [identityRows])) hk
  · obtain ⟨user', huser', hemail⟩ := hkept.freed id user huser
    rcases hemail with hemail | hemail
    · exact ⟨user', huser', hemail.trans haddress⟩
    · rw [haddress] at hemail
      exact absurd hk (happart _ hemail)

end IdentityStore

def collides (s : IdentityStore) (userId : Int) : IdentityCall → Bool
  | .authenticateSub2API identity _ _ => s.emailTaken userId (normalizeEmail (normalizeEmail identity.email))
  | .linkIdentity _ _ _ _ => false

def touched : List IdentityWrite → Bool
  | [.identity _ _] => true
  | _ => false

def identityContract : Contract IdentityStore IdentityKey IdentityWrite Empty Unit IdentityAnswer IdentityCall where
  Inv := IdentityStore.Valid
  Rely locked s t := s.Evolves t ∧ IdentityStore.Framed locked s t
  Commits call since c d answer := IdentityStore.Kept d.locked c (identityRows.view c d.writes) ∧
    ∀ userId, owed since call = some userId → ∃ email, answer = .principal userId email
  RollsBack call since c d _ := ∀ userId, owed since call = some userId →
    touched d.writes = true ∧ collides c userId call = true
  Asks _ _ _ _ _ _ := True

/-! ## Programs -/

abbrev IdentityDone := Done IdentityKey IdentityWrite Empty Unit

theorem identityRely_refl (locked : List IdentityKey) (s : IdentityStore) : identityContract.Rely locked s s := ⟨.refl s, .refl s⟩

theorem identityRely_trans {locked : List IdentityKey} {s t u : IdentityStore} (h : identityContract.Rely locked s t)
    (h' : identityContract.Rely locked t u) : identityContract.Rely locked s u := ⟨h.1.trans h'.1, h.2.trans h'.2⟩

theorem identityRely_mono {locked more : List IdentityKey} {s t : IdentityStore} (hsub : ∀ k ∈ locked, k ∈ more)
    (h : identityContract.Rely more s t) : identityContract.Rely locked s t :=
  ⟨h.1, fun id hk => h.2.users id (hsub _ hk), fun sid hk => h.2.identities sid (hsub _ hk),
    fun id hk => h.2.unclaimed id (hsub _ hk), fun address hk => h.2.owners address (hsub _ hk)⟩

def Committable (c : IdentityStore) (d : IdentityDone) : Prop :=
  ∀ c', c'.Valid → identityContract.Rely d.locked c c' →
    IdentityStore.Kept d.locked c' (identityRows.view c' d.writes)

section Programs

variable {call : IdentityCall} {since c c' : IdentityStore} {d d' : IdentityDone} {more : List IdentityWrite}
  {id : Int} {sid : Text} {user user' : LocalUser} {row row' : IdentityRow}

theorem Committable.extend (h : Committable c d) (hrely : identityContract.Rely d.locked c c') (hgrown : d.Grown d' more)
    (hmore : ∀ c'', c''.Valid → identityContract.Rely d'.locked c' c'' → (identityRows.view c'' d.writes).Valid →
      IdentityStore.Kept d'.locked (identityRows.view c'' d.writes)
        (identityRows.view (identityRows.view c'' d.writes) more)) : Committable c' d' := by
  intro c'' hinv hrely'
  have hbase := h c'' hinv (identityRely_trans hrely (identityRely_mono hgrown.locked hrely'))
  rw [hgrown.writes, IdentityStore.view_append]
  exact (hbase.mono hgrown.locked).trans (hmore c'' hinv hrely' hbase.valid)

theorem Committable.putIdentity (h : Committable c d) (hrely : identityContract.Rely d.locked c c')
    (hgrown : d.Grown d' [.identity sid row']) (hwrites : ∀ sid row, .identity sid row ∉ d.writes)
    (hlocked : .identity sid ∈ d'.locked) (hrow : c'.identities.lookup sid = some row)
    (huser : row'.userId = row.userId) : Committable c' d' := by
  refine h.extend hrely hgrown fun c'' _ hrely' hvalid => ?_
  refine IdentityStore.Kept.putIdentity hvalid ?_ huser
  rw [IdentityStore.view_identities_of_not_mem (hwrites sid), hrely'.2.identities sid hlocked, hrow]

theorem Committable.putUser (h : Committable c d) (hrely : identityContract.Rely d.locked c c')
    (hgrown : d.Grown d' [.user id user']) (hlocked : .user id ∈ d'.locked)
    (hid : (identityRows.view c' d.writes).users.lookup id = some user) (hsid : user'.sub2apiUserId = user.sub2apiUserId)
    (hstatus : user'.status = user.status) (hemail : user'.email = user.email ∨ .email (lower user.email) ∈ d'.locked) :
    Committable c' d' := by
  refine h.extend hrely hgrown fun c'' _ hrely' hvalid => ?_
  refine IdentityStore.Kept.putUser hvalid ?_ hsid hstatus hemail
  rw [IdentityStore.view_users_eq (hrely'.2.users id hlocked), hid]

theorem safe_identityRollback {answer : IdentityAnswer} (howed : owed since call = none) :
    identityRows.Safe identityContract call since (.rollback answer) c d := by
  intro c' _ _ userId huser
  rw [howed] at huser
  cases huser

theorem safe_identityCommit {answer : IdentityAnswer} (h : Committable c d)
    (howed : ∀ userId, owed since call = some userId → ∃ email, answer = .principal userId email) :
    identityRows.Safe identityContract call since (.commit answer) c d :=
  fun c' hinv hrely => ⟨h c' hinv hrely, howed⟩

theorem keys_locked {s : IdentityStore} (h : s.users.lookup id = some user) {keys : List IdentityKey}
    {writes : IdentityStore → List IdentityWrite} {ws : List IdentityWrite} {k : IdentityKey} (hk : k ∈ user.keys id) :
    k ∈ (d.wrote (identityRows.taken (fun seen => seen.userKeys id ++ keys) writes s) ws).locked := by
  simp [Done.wrote, taken, IdentityStore.userKeys, h, hk]

variable {next : Option IdentityError → IdentityTx}

/-- The second statement, after a mapping that was there: its user has the upstream id, and nobody else does. -/
theorem safe_setSub2api_again (h : Committable c d) (hinv : c'.Valid) (hrely : identityContract.Rely d.locked c c')
    (hrow : (identityRows.view c' d.writes).identities.lookup sid = some row)
    (hfails : ∀ error c' d', identityRows.Safe identityContract call since (next (some error)) c' d')
    (hlinked : ∀ c' d', Committable c' d' → identityRows.Safe identityContract call since (next none) c' d') :
    identityRows.Safe identityContract call since
      (if (identityRows.view c' d.writes).updateFails id ((identityRows.view c' d.writes).sub2apiTaken id sid) then
        next (some .uniqueViolation) else next none) c'
      (d.wrote (identityRows.taken (fun seen => seen.userKeys id ++ [IdentityKey.sub2api sid]) (IdentityStore.setSub2api id sid)
        (identityRows.view c' d.writes)) (IdentityStore.setSub2api id sid (identityRows.view c' d.writes))) := by
  cases huser : (identityRows.view c' d.writes).users.lookup id with
  | none =>
    simp only [IdentityStore.updateFails, huser, Option.isSome_none, Bool.false_and, Bool.false_eq_true, ↓reduceIte]
    refine hlinked _ _ (h.extend hrely (.wrote ..) fun c'' _ _ hvalid => ?_)
    simp only [IdentityStore.setSub2api, huser]
    exact .refl hvalid
  | some user =>
    cases htaken : (identityRows.view c' d.writes).sub2apiTaken id sid with
    | true =>
      simp only [IdentityStore.updateFails, huser, Option.isSome_some, Bool.and_self, ↓reduceIte]
      exact hfails ..
    | false =>
      have hsid : user.sub2apiUserId = some sid := by
        obtain ⟨owner, howner, hsid⟩ := (h c' hinv hrely).valid.mapped _ _ hrow
        rw [IdentityStore.sub2apiTaken_eq_false htaken howner hsid, huser] at howner
        cases howner
        exact hsid
      simp only [IdentityStore.updateFails, Bool.and_false, Bool.false_eq_true, ↓reduceIte]
      have hset : IdentityStore.setSub2api id sid (identityRows.view c' d.writes) =
          [.user id { user with sub2apiUserId := some sid }] := by simp [IdentityStore.setSub2api, huser, htaken]
      rw [hset]
      exact hlinked _ _ (h.putUser hrely (.wrote ..) (keys_locked huser (List.mem_cons_self ..)) huser hsid.symm rfl (.inl rfl))

theorem safe_setSub2api_new {fresh : IdentityRow} {c'' : IdentityStore}
    (hwrites : ∀ sid row, .identity sid row ∉ d.writes) (h : Committable c d)
    (hrely : identityContract.Rely d.locked c c') (hrow : c'.identities.lookup sid = none)
    (hfree : ∀ sid' row', c'.identities.lookup sid' = some row' → row'.userId ≠ fresh.userId)
    (hsome : ((identityRows.view c' d.writes).users.lookup fresh.userId).isSome = true)
    (hgrown : d.Grown d' [.identity sid fresh]) (hlocked : .identity sid ∈ d'.locked)
    (hclaimed : .identityUser fresh.userId ∈ d'.locked) (hrely' : identityContract.Rely d'.locked c' c'')
    (hfails : ∀ error c' d', identityRows.Safe identityContract call since (next (some error)) c' d')
    (hlinked : ∀ c' d', Committable c' d' → identityRows.Safe identityContract call since (next none) c' d') :
    identityRows.Safe identityContract call since
      (if (identityRows.view c'' d'.writes).updateFails fresh.userId
          ((identityRows.view c'' d'.writes).sub2apiTaken fresh.userId sid) then
        next (some .uniqueViolation) else next none) c''
      (d'.wrote (identityRows.taken (fun seen => seen.userKeys fresh.userId ++ [IdentityKey.sub2api sid])
        (IdentityStore.setSub2api fresh.userId sid) (identityRows.view c'' d'.writes))
        (IdentityStore.setSub2api fresh.userId sid (identityRows.view c'' d'.writes))) := by
  have hsame : ∀ c, (identityRows.view c d'.writes).users = (identityRows.view c d.writes).users := by
    intro c
    rw [hgrown.writes, IdentityStore.view_append]
    rfl
  -- the account is still there
  have hsome' : ((identityRows.view c'' d.writes).users.lookup fresh.userId).isSome = true := by
    refine IdentityStore.view_users_isSome (fun hold => ?_) d.writes hsome
    obtain ⟨old, hold⟩ := Option.isSome_iff_exists.mp hold
    obtain ⟨new, hnew, -⟩ := hrely'.1.users _ _ hold
    rw [hnew]
    rfl
  obtain ⟨user, huser⟩ := Option.isSome_iff_exists.mp hsome'
  rw [← hsame] at huser
  cases htaken : (identityRows.view c'' d'.writes).sub2apiTaken fresh.userId sid with
  | true =>
    simp only [IdentityStore.updateFails, huser, Option.isSome_some, Bool.and_self, ↓reduceIte]
    exact hfails ..
  | false =>
    simp only [IdentityStore.updateFails, Bool.and_false, Bool.false_eq_true, ↓reduceIte]
    have hset : IdentityStore.setSub2api fresh.userId sid (identityRows.view c'' d'.writes) =
        [.user fresh.userId { user with sub2apiUserId := some sid }] := by simp [IdentityStore.setSub2api, huser, htaken]
    rw [hset]
    generalize hd : d'.wrote _ _ = d₂
    have hgrown' : d'.Grown d₂ [.user fresh.userId { user with sub2apiUserId := some sid }] := hd ▸ Done.Grown.wrote ..
    have hlocked' : .user fresh.userId ∈ d₂.locked := hd ▸ keys_locked huser (List.mem_cons_self ..)
    refine hlinked _ _ (h.extend (identityRely_trans hrely (identityRely_mono hgrown.locked hrely')) (hgrown.trans hgrown') ?_)
    intro c₃ _ hrely₃ hvalid
    have hrely₁ := identityRely_trans hrely' (identityRely_mono hgrown'.locked hrely₃)
    refine IdentityStore.Kept.link hvalid ?_ (fun sid' row' hrow' => ?_) ?_ rfl
    · rw [IdentityStore.view_identities_of_not_mem (hwrites sid), hrely₁.2.identities sid hlocked, hrow]
    · rw [IdentityStore.view_identities_of_not_mem (hwrites sid')] at hrow'
      exact hrely₁.2.unclaimed _ hclaimed hfree sid' row' hrow'
    · rw [IdentityStore.view_users_eq (hrely₃.2.users _ hlocked'), ← hsame, huser]

theorem safe_linkRows {fresh : IdentityRow} {refresh : IdentityRow → IdentityRow}
    (hrefresh : ∀ row, (refresh row).userId = row.userId) (hwrites : ∀ sid row, .identity sid row ∉ d.writes)
    (h : Committable c d)
    (hfails : ∀ error c' d', identityRows.Safe identityContract call since (next (some error)) c' d')
    (hlinked : ∀ c' d', Committable c' d' → identityRows.Safe identityContract call since (next none) c' d') :
    identityRows.Safe identityContract call since (linkRows sid fresh refresh next) c d := by
  intro c₁ _ hrely₁
  have hseen : (identityRows.view c₁ d.writes).identities.lookup sid = c₁.identities.lookup sid :=
    IdentityStore.view_identities_of_not_mem (hwrites sid)
  cases hrow : c₁.identities.lookup sid with
  | some row =>
    rw [hrow] at hseen
    simp only [IdentityStore.upsertIdentity, IdentityStore.insertFailure, hseen]
    generalize hd₁ : d.wrote _ _ = d₁
    have hgrown : d.Grown d₁ [.identity sid (refresh row)] := hd₁ ▸ Done.Grown.wrote ..
    have hlocked : .identity sid ∈ d₁.locked := by
      rw [← hd₁]
      simp [Done.wrote, taken, IdentityStore.upsertKeys, hseen]
    intro c₂ hinv₂ hrely₂
    have hseen₂ : (identityRows.view c₂ d₁.writes).identities.lookup sid = some (refresh row) := by
      rw [hgrown.writes, IdentityStore.view_append]
      exact AList.lookup_insert _
    exact safe_setSub2api_again (h.putIdentity hrely₁ hgrown hwrites hlocked hrow (hrefresh row)) hinv₂ hrely₂ hseen₂
      hfails hlinked
  | none =>
    rw [hrow] at hseen
    cases hfailure : (identityRows.view c₁ d.writes).insertFailure sid fresh.userId with
    | some error =>
      simp only [hfailure]
      exact hfails ..
    | none =>
      obtain ⟨hlinked', hsome⟩ : (identityRows.view c₁ d.writes).userLinked fresh.userId = false ∧
          ((identityRows.view c₁ d.writes).users.lookup fresh.userId).isSome = true := by
        simp only [IdentityStore.insertFailure, hseen] at hfailure
        split at hfailure
        · cases hfailure
        · rename_i hlinked'
          split at hfailure
          · cases hfailure
          · rename_i hnone
            exact ⟨by simpa using hlinked', by simpa [Option.isSome_iff_ne_none] using hnone⟩
      simp only [hfailure, IdentityStore.upsertIdentity, hseen]
      generalize hd₁ : d.wrote _ _ = d₁
      have hgrown : d.Grown d₁ [.identity sid fresh] := hd₁ ▸ Done.Grown.wrote ..
      have hlocked : .identity sid ∈ d₁.locked ∧ .identityUser fresh.userId ∈ d₁.locked := by
        rw [← hd₁]
        simp [Done.wrote, taken, IdentityStore.upsertKeys, hseen]
      intro c₂ _ hrely₂
      refine safe_setSub2api_new hwrites h hrely₁ hrow (fun sid' row' hrow' => ?_) hsome hgrown hlocked.1 hlocked.2 hrely₂
        hfails hlinked
      rw [← IdentityStore.view_identities_of_not_mem (hwrites sid')] at hrow'
      exact IdentityStore.userLinked_eq_false hlinked' hrow'

theorem Committable.nothing (c : IdentityStore) : Committable c .nothing := fun _ hinv _ => .refl hinv

theorem Committable.rely (h : Committable c d) (hrely : identityContract.Rely d.locked c c') : Committable c' d :=
  fun c'' hinv hrely' => h c'' hinv (identityRely_trans hrely hrely')

theorem safe_provisionFederatedUser (howed : owed since call = none) (identity : UpstreamIdentity) (newId now : Int) :
    identityRows.Safe identityContract call since (provisionFederatedUser identity newId now) c .nothing := by
  refine safe_insert _ _ (fun c₁ _ _ _ => safe_identityRollback howed) fun c₁ _ _ hpresent => ?_
  have hnone : c₁.users.lookup newId = none := by
    obtain ⟨hnone, -⟩ := Bool.or_eq_false_iff.mp hpresent
    simpa [identityRows, view, Done.nothing] using hnone
  generalize hd₁ : Done.wrote _ _ _ = d₁
  have hwrites : d₁.writes = [.user newId ⟨normalizeEmail identity.email, .pendingEmail, none⟩] := by
    rw [← hd₁]
    rfl
  have hlocked : .user newId ∈ d₁.locked := by
    rw [← hd₁]
    simp [Done.wrote]
  simp only [↓reduceIte]
  refine safe_exec _ _ fun c₂ ws _ hrely₂ hws => ?_
  have hws : ws = [.user newId ⟨normalizeEmail identity.email, .active, none⟩] := by
    rw [← hws, hwrites]
    simp [IdentityStore.activateUser, view, identityRows]
  generalize hd₂ : Done.wrote _ _ _ = d₂
  have hgrown : d₁.Grown d₂ ws := hd₂ ▸ Done.Grown.wrote ..
  have hcommit : Committable c₂ d₂ := by
    intro c' hinv hrely
    have hnone' : c'.users.lookup newId = none := by
      rw [hrely.2.users _ (hgrown.locked _ hlocked), hrely₂.2.users _ hlocked, hnone]
    rw [hgrown.writes, hwrites, hws]
    simp only [view, List.cons_append, List.nil_append, List.foldl_cons, List.foldl_nil, identityRows, AList.insert_insert]
    exact .newUser hinv hnone' rfl
  refine safe_linkRows (fun _ => rfl) ?_ hcommit (fun error c' d' => safe_identityRollback howed) fun c' d' hcommit' => ?_
  · intro sid row hmem
    rw [hgrown.writes, hwrites, hws] at hmem
    simp at hmem
  · refine safe_query _ _ fun c'' _ hrely => ?_
    split
    · refine safe_identityCommit (hcommit'.rely hrely) fun userId huser => ?_
      rw [howed] at huser
      cases huser
    · exact safe_identityRollback howed

theorem emailTaken_iff {s : IdentityStore} {email : Text} : s.emailTaken id email = true ↔
    ∃ id' user, s.users.lookup id' = some user ∧ id' ≠ id ∧ lower user.email = lower email := by
  simp only [IdentityStore.emailTaken, List.any_eq_true, Bool.and_eq_true, decide_eq_true_eq]
  constructor
  · rintro ⟨⟨id', user⟩, hmem, hne, hemail⟩
    exact ⟨id', user, Table.lookup_eq_some_iff.mpr hmem, hne, hemail⟩
  · rintro ⟨id', user, huser, hne, hemail⟩
    exact ⟨⟨id', user⟩, Table.lookup_eq_some_iff.mp huser, hne, hemail⟩

theorem emailTaken_rely {email : Text} (h : c.emailTaken id email = true) (hrely : identityContract.Rely d.locked c c')
    (hlocked : .email (lower email) ∈ d.locked) : c'.emailTaken id email = true := by
  obtain ⟨id', user, huser, hne, hemail⟩ := emailTaken_iff.mp h
  obtain ⟨user', huser', hemail'⟩ := hrely.2.owners _ hlocked id' user huser hemail
  exact emailTaken_iff.mpr ⟨id', user', huser', hne, hemail'⟩

section Mapped

variable {identity : UpstreamIdentity} {newId now : Int} {mapping : IdentityRow}

theorem safe_syncFederatedEmail (h : Committable c d) (hwrites : d.writes = [.identity sid row])
    (hid : c.users.lookup mapping.userId = some user')
    (howed : ∀ userId, owed since (.authenticateSub2API identity newId now) = some userId → userId = mapping.userId)
    (hadmitted : ∀ user' : LocalUser, user'.status = user.status → ∀ userId,
      owed since (.authenticateSub2API identity newId now) = some userId →
        ∃ email, admitUser mapping.userId user' = .principal userId email) :
    identityRows.Safe identityContract (.authenticateSub2API identity newId now) since
      (syncFederatedEmail mapping.userId user identity.email fun user => .commit (admitUser mapping.userId user)) c d := by
  unfold syncFederatedEmail
  split
  · exact safe_identityCommit h (hadmitted user rfl)
  · intro c₁ hinv₁ hrely₁
    have hsame : (identityRows.view c₁ d.writes).users = c₁.users := by
      rw [hwrites]
      rfl
    obtain ⟨user₁, huser₁, -⟩ := hrely₁.1.users _ _ hid
    have huser : (identityRows.view c₁ d.writes).users.lookup mapping.userId = some user₁ := by rw [hsame, huser₁]
    have hsame' : (identityRows.view c₁ d.writes).emailTaken mapping.userId (normalizeEmail (normalizeEmail identity.email)) =
        c₁.emailTaken mapping.userId (normalizeEmail (normalizeEmail identity.email)) := by
      simp only [IdentityStore.emailTaken, hsame]
    cases htaken : c₁.emailTaken mapping.userId (normalizeEmail (normalizeEmail identity.email)) with
    | true =>
      -- the statement fails, and with it the commit
      rw [htaken] at hsame'
      simp only [IdentityStore.updateFails, huser, hsame', Option.isSome_some, Bool.and_self, Bool.not_true,
        Bool.false_eq_true, ↓reduceIte]
      intro c₂ _ hrely₂ userId huserId
      rw [howed userId huserId]
      have hnone : IdentityStore.setEmail mapping.userId (normalizeEmail (normalizeEmail identity.email))
          (identityRows.view c₁ d.writes) = [] := by simp [IdentityStore.setEmail, huser, hsame']
      refine ⟨?_, emailTaken_rely htaken hrely₂ ?_⟩
      · rw [Done.wrote, hnone, hwrites]
        rfl
      · simp [Done.wrote, taken]
    | false =>
      rw [htaken] at hsame'
      simp only [IdentityStore.updateFails, hsame', Bool.and_false, Bool.not_false, ↓reduceIte]
      have hset : IdentityStore.setEmail mapping.userId (normalizeEmail (normalizeEmail identity.email))
          (identityRows.view c₁ d.writes) =
          [.user mapping.userId { user₁ with email := normalizeEmail (normalizeEmail identity.email) }] := by
        simp [IdentityStore.setEmail, huser, hsame']
      rw [hset]
      refine safe_identityCommit (h.putUser hrely₁ (.wrote ..) (keys_locked huser (List.mem_cons_self ..)) huser rfl rfl (.inr ?_)) ?_
      · exact keys_locked huser (by simp [LocalUser.keys])
      · exact hadmitted _ rfl

end Mapped

theorem safe_authenticateSub2API (identity : UpstreamIdentity) (newId now : Int) :
    identityRows.Safe identityContract (.authenticateSub2API identity newId now) c
      (authenticateSub2API identity newId now) c .nothing := by
  unfold authenticateSub2API
  split
  · rename_i hactive
    exact safe_identityRollback (by simp [owed, hactive])
  · have hseen : ∀ c, identityRows.view c (Done.nothing : IdentityDone).writes = c := fun _ => rfl
    refine safe_query _ _ fun c₁ hinv₁ hrely₁ => ?_
    cases hmapping : c₁.identities.lookup identity.id with
    | none =>
      have howed : owed c (.authenticateSub2API identity newId now) = none := by
        have hnone : c.identities.lookup identity.id = none := by
          cases hrow : c.identities.lookup identity.id with
          | none => rfl
          | some row =>
            obtain ⟨row', hrow', -⟩ := hrely₁.1.mappings _ _ hrow
            rw [hmapping] at hrow'
            cases hrow'
        simp [owed, hnone]
      rw [hseen, hmapping]
      dsimp only
      split
      · exact safe_provisionFederatedUser howed _ _ _
      · refine safe_query _ _ fun c₂ _ _ => ?_
        split
        · refine safe_linkRows (fun _ => rfl) (fun _ _ => List.not_mem_nil) (.nothing c₂) (fun error c' d' => safe_identityRollback howed) ?_
          intro c' d' hcommit
          refine safe_identityCommit hcommit fun userId huser => ?_
          rw [howed] at huser
          cases huser
        · exact safe_provisionFederatedUser howed _ _ _
    | some mapping =>
      rw [hseen, hmapping]
      refine safe_query _ _ fun c₂ hinv₂ hrely₂ => ?_
      obtain ⟨old, hold, -⟩ := hinv₁.mapped _ _ hmapping
      obtain ⟨user, huser, -⟩ := hrely₂.1.users _ _ hold
      rw [hseen, huser]
      refine safe_exec _ _ fun c₃ ws hinv₃ hrely₃ hws => ?_
      obtain ⟨row, hrow, hsame⟩ := (hrely₂.1.trans hrely₃.1).mappings _ _ hmapping
      obtain ⟨user', huser', -⟩ := hrely₃.1.users _ _ huser
      have hws : ws = [.identity identity.id { row with lastSeenAt := now }] := by
        rw [← hws, hseen]
        simp only [IdentityStore.touchIdentity, hrow]
      subst hws
      refine safe_syncFederatedEmail ((Committable.nothing c₃).putIdentity (identityRely_refl _ _) (.wrote ..)
        (fun _ _ => List.not_mem_nil) ?_ hrow rfl) rfl huser' ?_ ?_
      · simp [Done.wrote, identityRows]
      · intro userId howed
        exact (owed_mapped hrely₁.1 hrely₂.1 hmapping huser howed).1
      · intro user'' hstatus
        exact admit_of_owed hrely₁.1 hrely₂.1 hmapping huser hstatus

theorem safe_identityProgram (call : IdentityCall) :
    identityRows.Safe identityContract call c (identityProgram call) c .nothing := by
  cases call with
  | authenticateSub2API identity newId now => exact safe_authenticateSub2API identity newId now
  | linkIdentity remoteId userId email now =>
    rw [identityProgram]
    refine safe_linkRows (fun _ => rfl) (fun _ _ => List.not_mem_nil) (.nothing c) ?_ ?_
    · intro error c' d'
      exact safe_identityRollback rfl
    · intro c' d' hcommit
      exact safe_identityCommit hcommit fun userId huser => by cases huser

end Programs

theorem identityProgram_keeps : identityRows.Keeps identityContract identityProgram where
  refl locked c _ := identityRely_refl locked c
  trans := identityRely_trans
  inv _ h := h.1.valid
  guarantee _ h hrows happart := ⟨h.1.evolves, .view hrows happart h.1⟩
  safe call _ _ := safe_identityProgram call

/-! ## Every interleaving -/

def settled (e : IdentityEntry) : Option (Int × Option Int) :=
  match e.answer with
  | .committed t (.principal userId _) => (owed t.since t.call).map fun id => (id, some userId)
  | .committed t _ => (owed t.since t.call).map fun id => (id, none)
  | .rolledBack t _ => (owed t.since t.call).map fun id => (id, none)
  | _ => none

/-- Mappings never change, belong to one account each, and agree with `users`; and a request that has the database to
itself ends. -/
structure MappingsStand (start : IdentityShared) (turns : List IdentityTurn) : Prop where
  stable : ∀ e ∈ identityMachine.log start turns,
    e.before.committed.identities.Evolves (fun row row' => row'.userId = row.userId)
      (identityMachine.run start turns).committed.identities
  injective : ∀ sid sid' row row', (identityMachine.run start turns).committed.identities.lookup sid = some row →
    (identityMachine.run start turns).committed.identities.lookup sid' = some row' → row.userId = row'.userId → sid = sid'
  agrees : ∀ sid id, (∃ row, (identityMachine.run start turns).committed.identities.lookup sid = some row ∧ row.userId = id) ↔
    ∃ user, (identityMachine.run start turns).committed.users.lookup id = some user ∧ user.sub2apiUserId = some sid
  ends : ∀ t, (identityMachine.run start turns).running = [t] →
    Ends identityMachine (identityMachine.run start turns).committed () t

/-- And a request of a mapped identity gets its account. -/
structure MappingsKept (start : IdentityShared) (turns : List IdentityTurn) : Prop extends MappingsStand start turns where
  admitted : ∀ x ∈ (identityMachine.log start turns).filterMap settled, x.2 = some x.1

/-- The request that has the turn is about to take an address, and another account has it. -/
def collision (e : IdentityEntry) : Bool :=
  match e.call with
  | .advance i _ =>
    match e.before.running[i]? with
    | some t =>
      match owed t.since t.call, t.rest with
      | some _, .commit _ => false
      | some userId, _ => touched t.done.writes && collides e.before.committed userId t.call
      | none, _ => false
    | none => false
  | _ => false

def AddressesFree (log : List IdentityEntry) : Prop := ∀ e ∈ log, collision e = false

instance (log : List IdentityEntry) : Decidable (AddressesFree log) :=
  inferInstanceAs (Decidable (∀ e ∈ log, collision e = false))

theorem initial_identities_sound (users : Table Int LocalUser) :
    identityRows.Sound identityContract ⟨IdentityStore.initial users, []⟩ :=
  ⟨IdentityStore.initial_valid users, fun _ h => absurd h List.not_mem_nil, fun _ h => absurd h List.not_mem_nil, .nil⟩

theorem after_identities_evolves {c : IdentityStore} {answer : IdentityOutcome}
    (h : identityContract.Promised c answer) : c.Evolves (identityRows.after c answer) := by
  cases answer with
  | committed t answer => exact h.1.evolves
  | _ => exact .refl c

theorem settled_promised {e : IdentityEntry} (hpromised : identityContract.Promised e.before.committed e.answer)
    (hanswer : e.answer = (identityMachine.step e.before e.call).2) (hfree : collision e = false) {x : Int × Option Int}
    (hx : settled e = some x) : x.2 = some x.1 := by
  cases hcase : e.answer with
  | committed t answer =>
    rw [hcase] at hpromised
    have howed : (owed t.since t.call).map (fun id => (id, some id)) = some x := by
      cases hcall : owed t.since t.call with
      | none => cases answer <;> simp [settled, hcase, hcall] at hx
      | some userId =>
        obtain ⟨email, rfl⟩ := hpromised.2 userId hcall
        simpa [settled, hcase, hcall] using hx
    obtain ⟨id, -, rfl⟩ := Option.map_eq_some_iff.mp howed
    rfl
  | rolledBack t answer =>
    simp only [settled, hcase] at hx
    obtain ⟨userId, howed, rfl⟩ := Option.map_eq_some_iff.mp hx
    rw [hcase] at hpromised
    obtain ⟨htouched, hcollides⟩ := hpromised userId howed
    obtain ⟨i, response, hturn, hrunning, hrest⟩ := running_of_rolledBack (hanswer.symm.trans hcase)
    simp [collision, hturn, hrunning, howed, hrest, htouched, hcollides] at hfree
  | moved => simp [settled, hcase] at hx
  | waits => simp [settled, hcase] at hx
  | asked t request response => cases request
  | aborted t => simp [settled, hcase] at hx

theorem mappings_stand (users : Table Int LocalUser) (turns : List IdentityTurn) :
    MappingsStand ⟨.initial users, []⟩ turns := by
  have hstart := initial_identities_sound users
  have hsound := (interleaved_sound identityProgram_keeps turns hstart).1
  constructor
  · refine interleaved_history identityProgram_keeps (I := fun c log => ∀ e ∈ log,
      e.before.committed.identities.Evolves (fun row row' => row'.userId = row.userId) c.identities) ?_ turns hstart ?_
    · intro past s turn answer _ _ hpromised hpast e he
      have hevolves := (after_identities_evolves hpromised).mappings
      rcases List.mem_append.mp he with he | he
      · exact (hpast e he).trans (fun _ _ _ h h' => h'.trans h) hevolves
      · rw [List.mem_singleton.mp he]
        exact hevolves
    · exact fun e he => absurd he List.not_mem_nil
  · exact fun sid sid' row row' => hsound.inv.injective
  · intro sid id
    constructor
    · rintro ⟨row, hrow, rfl⟩
      exact hsound.inv.mapped sid row hrow
    · rintro ⟨user, huser, hsid⟩
      exact hsound.inv.linked id user sid huser hsid
  · exact fun t _ => alone_ends t _ ()

/-- Mappings stand in every run. As long as no request is about to take an address of another account, every request
of a mapped identity gets its account. -/
theorem mappings_kept (users : Table Int LocalUser) (turns : List IdentityTurn) :
    MappingsStand ⟨.initial users, []⟩ turns ∧
      (AddressesFree (identityMachine.log ⟨.initial users, []⟩ turns) → MappingsKept ⟨.initial users, []⟩ turns) := by
  have hstand := mappings_stand users turns
  refine ⟨hstand, fun hfree => ⟨hstand, fun x hx => ?_⟩⟩
  have hlog := (interleaved_sound identityProgram_keeps turns (initial_identities_sound users)).2
  obtain ⟨e, he, hx⟩ := List.mem_filterMap.mp hx
  exact settled_promised (hlog e he).2 (Machine.answer_eq he) (hfree e he) hx

end Calls

/-! ## An address that another account has -/

scoped instance asciiLowercase : Lowercase where
  toLower := Char.toLower
  lower := List.map Char.toLower

def sampleUsers : Table Int LocalUser :=
  (AList.singleton 1 ⟨"a@x".toList, .active, none⟩).insert 2 ⟨"b@x".toList, .active, none⟩

/-- An upstream identity claims the account with its address, and comes again with a new address. -/
def moveTo (email : Text) : List IdentityTurn :=
  .start (.authenticateSub2API ⟨"u".toList, "a@x".toList, true⟩ 7 0) ::
    (List.replicate 5 (.advance 0 ()) : List IdentityTurn) ++
    (.start (.authenticateSub2API ⟨"u".toList, email, true⟩ 8 1) :: List.replicate 5 (.advance 0 ()) : List IdentityTurn)

theorem mappings_kept_moving : MappingsKept ⟨.initial sampleUsers, []⟩ (moveTo "C@x ".toList) :=
  (mappings_kept _ _).2 (by decide +kernel)

/-- The address of the second account keeps the owner of the first out. -/
theorem taken_address_locks_out : ¬ MappingsKept ⟨.initial sampleUsers, []⟩ (moveTo "b@x".toList) :=
  fun h => absurd h.admitted (by decide +kernel)

example : (identityMachine.log ⟨.initial sampleUsers, []⟩ (moveTo "C@x ".toList)).filterMap settled = [(1, some 1)] := by
  decide +kernel

end Lumio.Control
