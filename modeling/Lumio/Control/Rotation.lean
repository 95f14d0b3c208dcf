import Lumio.Control.Sessions

/-!
# Rotation of refresh tokens

What the calls on sessions promise each other, and what follows for every interleaving: a refresh token is exchanged
once, a family has one unused token at most, a token that is presented again costs the family, and a revocation is for
good.
-/

namespace Lumio.Control

open RowStore

/-! ## What holds of the tables -/

structure SessionStore.Keyed (s : SessionStore) : Prop where
  hashes : ∀ i j a b, s.tokens.lookup i = some a → s.tokens.lookup j = some b → a.tokenHash = b.tokenHash → i = j
  owned : ∀ i token, s.tokens.lookup i = some token → ∃ family, s.families.lookup token.familyId = some family

def OneUnused (tokens : Table Nat RefreshToken) : Prop :=
  ∀ i j a b, tokens.lookup i = some a → tokens.lookup j = some b → a.familyId = b.familyId → a.usedAt = none →
    b.usedAt = none → i = j

structure SessionStore.Valid (s : SessionStore) : Prop where
  keyed : s.Keyed
  unused : OneUnused s.tokens

def CodeStep (a b : AuthorizationCode) : Prop :=
  b.scope = a.scope ∧ (a.consumedAt.isSome = true → b.consumedAt.isSome = true)

def FamilyStep (a b : SessionFamily) : Prop :=
  b.client = a.client ∧ (a.revokedAt.isSome = true → b.revokedAt.isSome = true)

def TokenStep (a b : RefreshToken) : Prop :=
  b.familyId = a.familyId ∧ b.tokenHash = a.tokenHash ∧ (a.usedAt.isSome = true → b.usedAt.isSome = true)

structure SessionStore.Evolves (s t : SessionStore) : Prop where
  codes : Table.Evolves CodeStep s.codes t.codes
  families : Table.Evolves FamilyStep s.families t.families
  tokens : Table.Evolves TokenStep s.tokens t.tokens

theorem CodeStep.refl (a : AuthorizationCode) : CodeStep a a := ⟨rfl, id⟩

theorem CodeStep.trans (a b c : AuthorizationCode) (h : CodeStep a b) (h' : CodeStep b c) : CodeStep a c :=
  ⟨h'.1.trans h.1, h'.2 ∘ h.2⟩

theorem FamilyStep.refl (a : SessionFamily) : FamilyStep a a := ⟨rfl, id⟩

theorem FamilyStep.trans (a b c : SessionFamily) (h : FamilyStep a b) (h' : FamilyStep b c) : FamilyStep a c :=
  ⟨h'.1.trans h.1, h'.2 ∘ h.2⟩

theorem TokenStep.refl (a : RefreshToken) : TokenStep a a := ⟨rfl, rfl, id⟩

theorem TokenStep.trans (a b c : RefreshToken) (h : TokenStep a b) (h' : TokenStep b c) : TokenStep a c :=
  ⟨h'.1.trans h.1, h'.2.1.trans h.2.1, h'.2.2 ∘ h.2.2⟩

namespace SessionStore

variable {s t u : SessionStore}

theorem Evolves.refl (s : SessionStore) : s.Evolves s :=
  ⟨.refl CodeStep.refl _, .refl FamilyStep.refl _, .refl TokenStep.refl _⟩

theorem Evolves.trans (h : s.Evolves t) (h' : t.Evolves u) : s.Evolves u :=
  ⟨h.codes.trans CodeStep.trans h'.codes, h.families.trans FamilyStep.trans h'.families,
    h.tokens.trans TokenStep.trans h'.tokens⟩

def Revoked (s : SessionStore) (familyId : Nat) : Prop :=
  ∃ family, s.families.lookup familyId = some family ∧ family.revokedAt.isSome = true

def Used (s : SessionStore) (hash : Text) (familyId : Nat) : Prop :=
  ∃ id token, s.tokens.lookup id = some token ∧ token.tokenHash = hash ∧ token.familyId = familyId ∧
    token.usedAt.isSome = true

variable {familyId id : Nat} {hash : Text}

theorem Revoked.evolves (h : s.Revoked familyId) (hevolves : s.Evolves t) : t.Revoked familyId := by
  obtain ⟨family, hfamily, hrevoked⟩ := h
  obtain ⟨family', hfamily', hstep⟩ := hevolves.families _ _ hfamily
  exact ⟨family', hfamily', hstep.2 hrevoked⟩

theorem Used.evolves (h : s.Used hash familyId) (hevolves : s.Evolves t) : t.Used hash familyId := by
  obtain ⟨id, token, htoken, rfl, rfl, hused⟩ := h
  obtain ⟨token', htoken', hfamily, hhash, hstep⟩ := hevolves.tokens _ _ htoken
  exact ⟨id, token', htoken', hhash, hfamily, hstep hused⟩

theorem getActiveSessionFamily_eq_some {family : SessionFamily} :
    s.getActiveSessionFamily id = some family ↔ s.families.lookup id = some family ∧ family.revokedAt = none := by
  simp [getActiveSessionFamily, Option.filter_eq_some_iff]

theorem revoked_of_not_active {family : SessionFamily} (hfamily : s.families.lookup id = some family)
    (h : s.getActiveSessionFamily id = none) : s.Revoked id := by
  refine ⟨family, hfamily, ?_⟩
  cases hrevoked : family.revokedAt with
  | none =>
    rw [getActiveSessionFamily_eq_some.mpr ⟨hfamily, hrevoked⟩] at h
    cases h
  | some _ => rfl

theorem getRefreshTokenByHash_eq_some {record : TokenRecord} (h : s.getRefreshTokenByHash hash = some record) :
    ∃ token family, s.tokens.lookup record.id = some token ∧
      token.tokenHash = hash ∧ token.familyId = record.familyId ∧ token.usedAt = record.usedAt ∧
      s.families.lookup record.familyId = some family ∧ record.revokedAt = token.revokedAt.or family.revokedAt := by
  simp only [getRefreshTokenByHash] at h
  split at h
  · cases h
  · rename_i row hrow
    split at h
    · cases h
    · rename_i family hfamily
      cases h
      have hhash := List.find?_some hrow
      exact ⟨row.2, family, Table.lookup_eq_some_iff.mpr (List.mem_of_find?_eq_some hrow), of_decide_eq_true hhash, rfl,
        rfl, hfamily, rfl⟩

theorem getRefreshTokenByHash_eq_none (hkeyed : s.Keyed) (h : s.getRefreshTokenByHash hash = none)
    {token : RefreshToken} (htoken : s.tokens.lookup id = some token) : token.tokenHash ≠ hash := by
  simp only [getRefreshTokenByHash] at h
  split at h
  · rename_i hnone
    intro heq
    have := List.find?_eq_none.mp hnone ⟨id, token⟩ (Table.lookup_eq_some_iff.mp htoken)
    simp [heq] at this
  · rename_i row hrow
    obtain ⟨family, hfamily⟩ := hkeyed.owned row.1 row.2 (Table.lookup_eq_some_iff.mpr (List.mem_of_find?_eq_some hrow))
    rw [hfamily] at h
    cases h

theorem Used.record (h : s.Used hash familyId) (hkeyed : s.Keyed) {record : TokenRecord}
    (hrecord : s.getRefreshTokenByHash hash = some record) :
    record.usedAt.isSome = true ∧ record.familyId = familyId := by
  obtain ⟨id, token, htoken, hhash, rfl, hused⟩ := h
  obtain ⟨token', family, htoken', hhash', hfamily, hused', -⟩ := getRefreshTokenByHash_eq_some hrecord
  obtain rfl := hkeyed.hashes _ _ _ _ htoken htoken' (hhash.trans hhash'.symm)
  rw [htoken] at htoken'
  cases htoken'
  exact ⟨hused' ▸ hused, hfamily.symm⟩

theorem hashPresent_eq_false : s.hashPresent hash = false ↔
    ∀ id token, s.tokens.lookup id = some token → token.tokenHash ≠ hash := by
  simp only [hashPresent, List.any_eq_false, decide_eq_true_eq, Table.mem_values_iff]
  constructor
  · intro h id token htoken
    exact h token ⟨id, htoken⟩
  · rintro h token ⟨id, htoken⟩
    exact h id token htoken

end SessionStore

variable {s : SessionStore} {ws : List SessionWrite}

theorem openCode_eq_some {hash : Text} {now : Int} {code : AuthorizationCode} (h : s.openCode hash now = some code) :
    s.codes.lookup hash = some code ∧ code.consumedAt = none := by
  simp only [SessionStore.openCode, Option.filter_eq_some_iff, Bool.and_eq_true, Option.isNone_iff_eq_none] at h
  exact ⟨h.1, h.2.1⟩

theorem not_used_of_record {since : SessionStore} {hash : Text} {record : SessionStore.TokenRecord} (hs : s.Valid)
    (hevolves : since.Evolves s) (hrecord : s.getRefreshTokenByHash hash = some record)
    (hunused : record.usedAt = none) (familyId : Nat) : ¬ since.Used hash familyId := by
  intro hused
  obtain ⟨hrecorded, -⟩ := (hused.evolves hevolves).record hs.keyed hrecord
  rw [hunused] at hrecorded
  cases hrecorded

/-! ## What one call leaves to the others -/

def SessionKey.Same (s t : SessionStore) : SessionKey → Prop
  | .user id => t.users.lookup id = s.users.lookup id
  | .code hash => t.codes.lookup hash = s.codes.lookup hash
  | .family id => t.families.lookup id = s.families.lookup id
  | .token id => t.tokens.lookup id = s.tokens.lookup id
  | .tokenHash hash => s.hashPresent hash = false → t.hashPresent hash = false

theorem SessionKey.Same.trans {t u : SessionStore} : ∀ {k : SessionKey}, k.Same s t → k.Same t u → k.Same s u
  | .user _, h, h' => Eq.trans h' h
  | .code _, h, h' => Eq.trans h' h
  | .family _, h, h' => Eq.trans h' h
  | .token _, h, h' => Eq.trans h' h
  | .tokenHash _, h, h' => fun hfree => h' (h hfree)

theorem same_refl (s : SessionStore) : ∀ k : SessionKey, k.Same s s
  | .user _ => rfl
  | .code _ => rfl
  | .family _ => rfl
  | .token _ => rfl
  | .tokenHash _ => id

theorem same_apply {w : SessionWrite} {k : SessionKey} (h : k ∉ sessionRows.rows w) :
    k.Same s (sessionRows.apply s w) := by
  cases w with
  | user id row =>
    cases k with
    | user id' => exact AList.lookup_insert_ne fun heq => h (by simp [sessionRows, heq])
    | code _ | family _ | token _ => exact rfl
    | tokenHash _ => exact fun hfree => hfree
  | code hash row =>
    cases k with
    | code hash' => exact AList.lookup_insert_ne fun heq => h (by simp [sessionRows, heq])
    | user _ | family _ | token _ => exact rfl
    | tokenHash _ => exact fun hfree => hfree
  | family id row =>
    cases k with
    | family id' => exact AList.lookup_insert_ne fun heq => h (by simp [sessionRows, heq])
    | user _ | code _ | token _ => exact rfl
    | tokenHash _ => exact fun hfree => hfree
  | token id row =>
    cases k with
    | token id' => exact AList.lookup_insert_ne fun heq => h (by simp [sessionRows, heq])
    | user _ | code _ | family _ => exact rfl
    | tokenHash hash =>
      intro hfree
      rw [SessionStore.hashPresent_eq_false] at hfree ⊢
      intro id' token htoken
      rcases (Table.lookup_insert_iff token).mp htoken with ⟨-, rfl⟩ | ⟨-, hold⟩
      · intro heq
        exact h (by simp [sessionRows, heq])
      · exact hfree id' token hold

theorem same_view {k : SessionKey} (s : SessionStore) (h : ∀ w ∈ ws, k ∉ sessionRows.rows w) :
    k.Same s (sessionRows.view s ws) := by
  induction ws generalizing s with
  | nil => exact same_refl s k
  | cons w ws ih =>
    have hhead := same_apply (s := s) (h w (by simp))
    exact hhead.trans (ih (sessionRows.apply s w) fun w' hw' => h w' (by simp [hw']))

/-! ## Exchanges in a log -/

abbrev SessionEntry := Machine.Entry SessionState SessionTurn SessionOutcome

/-- The exchange that a line of the log commits: the token that was presented, and what it was exchanged for. -/
def refreshed (e : SessionEntry) : Option (Text × TokenPair) :=
  match e.answer with
  | .committed t (.tokens pair) =>
    match t.call with
    | .refreshSession token _ _ => some (token, pair)
    | _ => none
  | _ => none

theorem refreshed_eq_some {e : SessionEntry} {x : Text × TokenPair} (h : refreshed e = some x) :
    ∃ t draw now, e.answer = .committed t (.tokens x.2) ∧ t.call = .refreshSession x.1 draw now := by
  simp only [refreshed] at h
  split at h
  · rename_i t pair hanswer
    split at h
    · rename_i token draw now hcall
      cases h
      exact ⟨t, draw, now, hanswer, hcall⟩
    · cases h
  · cases h

/-! ## Writes -/

namespace SessionStore

variable {s : SessionStore}

theorem Valid.putUser (h : s.Valid) (id : Int) (row : UserStatus) :
    ({ s with users := s.users.insert id row } : SessionStore).Valid := ⟨⟨h.keyed.hashes, h.keyed.owned⟩, h.unused⟩

theorem Keyed.putFamily (h : s.Keyed) (id : Nat) (row : SessionFamily) :
    ({ s with families := s.families.insert id row } : SessionStore).Keyed := by
  refine ⟨h.hashes, fun i token htoken => ?_⟩
  obtain ⟨family, hfamily⟩ := h.owned i token htoken
  by_cases heq : token.familyId = id
  · exact ⟨row, by rw [heq]; exact AList.lookup_insert s.families⟩
  · exact ⟨family, by rw [← hfamily]; exact AList.lookup_insert_ne heq⟩

variable {id : Nat}

theorem Evolves.putFamily {row : SessionFamily} (hstep : ∀ old, s.families.lookup id = some old → FamilyStep old row) :
    s.Evolves { s with families := s.families.insert id row } :=
  ⟨.refl CodeStep.refl _, .insert FamilyStep.refl hstep, .refl TokenStep.refl _⟩

theorem Keyed.putToken (h : s.Keyed) {row : RefreshToken}
    (hhash : ∀ i other, s.tokens.lookup i = some other → other.tokenHash = row.tokenHash → i = id)
    (howned : ∃ family, s.families.lookup row.familyId = some family) :
    ({ s with tokens := s.tokens.insert id row } : SessionStore).Keyed := by
  constructor
  · intro i j a b ha hb heq
    rcases (Table.lookup_insert_iff a).mp ha with ⟨rfl, rfl⟩ | ⟨-, ha'⟩
    · rcases (Table.lookup_insert_iff b).mp hb with ⟨rfl, rfl⟩ | ⟨-, hb'⟩
      · rfl
      · exact (hhash j b hb' heq.symm).symm
    · rcases (Table.lookup_insert_iff b).mp hb with ⟨rfl, rfl⟩ | ⟨-, hb'⟩
      · exact hhash i a ha' heq
      · exact h.hashes i j a b ha' hb' heq
  · intro i token htoken
    rcases (Table.lookup_insert_iff token).mp htoken with ⟨-, rfl⟩ | ⟨-, htoken⟩
    · exact howned
    · exact h.owned i token htoken

theorem Evolves.putToken {row : RefreshToken} (hstep : ∀ old, s.tokens.lookup id = some old → TokenStep old row) :
    s.Evolves { s with tokens := s.tokens.insert id row } :=
  ⟨.refl CodeStep.refl _, .refl FamilyStep.refl _, .insert TokenStep.refl hstep⟩

theorem Evolves.putCode {hash : Text} {row : AuthorizationCode}
    (hstep : ∀ old, s.codes.lookup hash = some old → CodeStep old row) :
    s.Evolves { s with codes := s.codes.insert hash row } :=
  ⟨.insert CodeStep.refl hstep, .refl FamilyStep.refl _, .refl TokenStep.refl _⟩

end SessionStore

def SessionWrite.Revokes (s : SessionStore) : SessionWrite → Prop
  | .user _ _ => True
  | .family id row => row.revokedAt.isSome = true ∧ ∃ old, s.families.lookup id = some old ∧ row.client = old.client
  | .code _ _ => False
  | .token _ _ => False

theorem SessionWrite.Revokes.apply_iff {w w' : SessionWrite} (h : w.Revokes s) :
    w'.Revokes (sessionRows.apply s w) ↔ w'.Revokes s := by
  cases w' with
  | user id row => exact Iff.rfl
  | family id' row' =>
    cases w with
    | user id row => exact Iff.rfl
    | family id row =>
      obtain ⟨-, old, hold, hclient⟩ := h
      simp only [Revokes, sessionRows]
      by_cases heq : id' = id
      · subst heq
        simp [hold, hclient]
      · rw [AList.lookup_insert_ne heq]
    | code hash row => exact h.elim
    | token id row => exact h.elim
  | code hash row => exact Iff.rfl
  | token id row => exact Iff.rfl

theorem revokes_view {w' : SessionWrite} (h : ∀ w ∈ ws, w.Revokes s) :
    w'.Revokes (sessionRows.view s ws) ↔ w'.Revokes s := by
  induction ws generalizing s with
  | nil => exact Iff.rfl
  | cons w ws ih =>
    have hw := h w (by simp)
    exact (ih fun w'' hw'' => hw.apply_iff.mpr (h w'' (by simp [hw'']))).trans hw.apply_iff

theorem view_revokes (hs : s.Valid) (h : ∀ w ∈ ws, w.Revokes s) :
    (sessionRows.view s ws).Valid ∧ s.Evolves (sessionRows.view s ws) := by
  induction ws generalizing s with
  | nil => exact ⟨hs, .refl s⟩
  | cons w ws ih =>
    have hw := h w (by simp)
    have hstep : (sessionRows.apply s w).Valid ∧ s.Evolves (sessionRows.apply s w) := by
      cases w with
      | user id row =>
        exact ⟨hs.putUser id row, .refl CodeStep.refl _, .refl FamilyStep.refl _, .refl TokenStep.refl _⟩
      | family id row =>
        obtain ⟨hrevoked, old, hold, hclient⟩ := hw
        refine ⟨⟨hs.keyed.putFamily id row, hs.unused⟩, .putFamily fun old' hold' => ?_⟩
        rw [hold] at hold'
        cases hold'
        exact ⟨hclient, fun _ => hrevoked⟩
      | code hash row => exact hw.elim
      | token id row => exact hw.elim
    obtain ⟨hvalid, hevolves⟩ := ih hstep.1 fun w' hw' => hw.apply_iff.mpr (h w' (by simp [hw']))
    exact ⟨hvalid, hstep.2.trans hevolves⟩

theorem view_opened (hs : s.Valid) {familyId tokenId : Nat} (family : SessionFamily) (token : RefreshToken)
    (hfamily : s.families.lookup familyId = none) (htoken : s.tokens.lookup tokenId = none)
    (hhash : s.hashPresent token.tokenHash = false) (howner : token.familyId = familyId) :
    (sessionRows.view s [.family familyId family, .token tokenId token]).Valid ∧
      s.Evolves (sessionRows.view s [.family familyId family, .token tokenId token]) := by
  have hevolves : s.Evolves { s with families := s.families.insert familyId family } := by
    refine .putFamily fun old hold => ?_
    rw [hfamily] at hold
    cases hold
  have hfree := SessionStore.hashPresent_eq_false.mp hhash
  refine ⟨⟨(hs.keyed.putFamily familyId family).putToken ?_ ?_, ?_⟩, hevolves.trans (.putToken fun old hold => ?_)⟩
  · intro i other hother heq
    exact absurd heq (hfree i other hother)
  · exact ⟨family, by rw [howner]; exact AList.lookup_insert s.families⟩
  · -- no token of the new family was there before
    have hnone : ∀ i other, s.tokens.lookup i = some other → other.familyId ≠ familyId := by
      intro i other hother heq
      obtain ⟨owner, howned⟩ := hs.keyed.owned i other hother
      rw [heq, hfamily] at howned
      cases howned
    intro i j a b ha hb heq hausable hbusable
    rcases (Table.lookup_insert_iff a).mp ha with ⟨rfl, rfl⟩ | ⟨-, ha'⟩
    · rcases (Table.lookup_insert_iff b).mp hb with ⟨rfl, rfl⟩ | ⟨-, hb'⟩
      · rfl
      · exact absurd (heq.symm.trans howner) (hnone j b hb')
    · rcases (Table.lookup_insert_iff b).mp hb with ⟨rfl, rfl⟩ | ⟨-, hb'⟩
      · exact absurd (heq.trans howner) (hnone i a ha')
      · exact hs.unused i j a b ha' hb' heq hausable hbusable
  · rw [htoken] at hold
    cases hold

theorem view_rotated (hs : s.Valid) {id nextId familyId : Nat} {row : RefreshToken} {family : SessionFamily}
    (next used : RefreshToken) (touched : SessionFamily) (hrow : s.tokens.lookup id = some row)
    (hunused : row.usedAt = none) (howner : row.familyId = familyId) (hnextId : s.tokens.lookup nextId = none)
    (hhash : s.hashPresent next.tokenHash = false) (hnext : next.familyId = familyId)
    (hused : TokenStep row used ∧ used.usedAt.isSome = true) (hfamily : s.families.lookup familyId = some family)
    (htouched : FamilyStep family touched) :
    (sessionRows.view s [.token nextId next, .token id used, .family familyId touched]).Valid ∧
      s.Evolves (sessionRows.view s [.token nextId next, .token id used, .family familyId touched]) ∧
      (sessionRows.view s [.token nextId next, .token id used, .family familyId touched]).Used row.tokenHash familyId := by
  obtain ⟨hstep, hisUsed⟩ := hused
  have hne : id ≠ nextId := by
    rintro rfl
    rw [hrow] at hnextId
    cases hnextId
  have hfree := SessionStore.hashPresent_eq_false.mp hhash
  have hkeyed : ({ s with tokens := s.tokens.insert nextId next } : SessionStore).Keyed :=
    hs.keyed.putToken (fun i other hother heq => absurd heq (hfree i other hother)) ⟨family, hnext ▸ hfamily⟩
  have hrow' : ({ s with tokens := s.tokens.insert nextId next } : SessionStore).tokens.lookup id = some row := by
    rw [← hrow]
    exact AList.lookup_insert_ne hne
  refine ⟨⟨(hkeyed.putToken ?_ ?_).putFamily _ _, ?_⟩, ?_, ?_⟩
  · intro i other hother heq
    exact hkeyed.hashes i id other row hother hrow' (heq.trans hstep.2.1)
  · exact ⟨family, by rw [hstep.1, howner]; exact hfamily⟩
  · -- the only unused token of the family was the one that is used now
    have hold : ∀ i a, ((s.tokens.insert nextId next).insert id used).lookup i = some a → a.usedAt = none →
        (i = nextId ∧ a = next) ∨ (i ≠ id ∧ s.tokens.lookup i = some a) := by
      intro i a ha hausable
      rcases (Table.lookup_insert_iff a).mp ha with ⟨-, rfl⟩ | ⟨hi, ha'⟩
      · rw [hausable] at hisUsed
        cases hisUsed
      · rcases (Table.lookup_insert_iff a).mp ha' with ⟨rfl, rfl⟩ | ⟨-, ha''⟩
        · exact .inl ⟨rfl, rfl⟩
        · exact .inr ⟨hi, ha''⟩
    have hother : ∀ i a, i ≠ id → s.tokens.lookup i = some a → a.usedAt = none → a.familyId ≠ next.familyId := by
      intro i a hi ha hausable heq
      exact hi (hs.unused i id a row ha hrow (heq.trans (hnext.trans howner.symm)) hausable hunused)
    intro i j a b ha hb heq hausable hbusable
    rcases hold i a ha hausable with ⟨rfl, rfl⟩ | ⟨hi, ha'⟩
    · rcases hold j b hb hbusable with ⟨rfl, -⟩ | ⟨hj, hb'⟩
      · rfl
      · exact absurd heq.symm (hother j b hj hb' hbusable)
    · rcases hold j b hb hbusable with ⟨rfl, rfl⟩ | ⟨hj, hb'⟩
      · exact absurd heq (hother i a hi ha' hausable)
      · exact hs.unused i j a b ha' hb' heq hausable hbusable
  · have hfirst : s.Evolves { s with tokens := s.tokens.insert nextId next } := by
      refine .putToken fun old hold => ?_
      rw [hnextId] at hold
      cases hold
    have hsecond : SessionStore.Evolves { s with tokens := s.tokens.insert nextId next }
        { s with tokens := (s.tokens.insert nextId next).insert id used } := by
      refine .putToken fun old hold => ?_
      rw [hrow'] at hold
      cases hold
      exact hstep
    refine (hfirst.trans hsecond).trans (.putFamily fun old hold => ?_)
    rw [← Option.some.inj (hfamily.symm.trans hold)]
    exact htouched
  · exact ⟨id, used, AList.lookup_insert _, hstep.2.1, hstep.1.trans howner, hisUsed⟩

/-! ## Revocations -/

def Revoking (s : SessionStore) (d : Tx.Done SessionKey SessionWrite Empty Unit) : Prop :=
  ∀ w ∈ d.writes, w.Revokes s ∧ ∀ k ∈ sessionRows.rows w, k ∈ d.locked

section Revoking

variable {call : SessionCall} {since s t : SessionStore} {d : Tx.Done SessionKey SessionWrite Empty Unit}

theorem Revoking.nothing (s : SessionStore) : Revoking s .nothing := fun _ hw => absurd hw List.not_mem_nil

theorem Revoking.same (h : Revoking s d) (hsame : ∀ k ∈ d.locked, k.Same s t) : Revoking t d := by
  intro w hw
  obtain ⟨hrevokes, hrows⟩ := h w hw
  refine ⟨?_, hrows⟩
  cases w with
  | user id row => trivial
  | family id row =>
    obtain ⟨hrevoked, old, hold, hclient⟩ := hrevokes
    have hfamily : t.families.lookup id = s.families.lookup id := hsame (.family id) (hrows _ (by simp [sessionRows]))
    exact ⟨hrevoked, old, hfamily.trans hold, hclient⟩
  | code hash row => exact hrevokes.elim
  | token id row => exact hrevokes.elim

theorem Revoking.wrote (h : Revoking s d) {writes : SessionStore → List SessionWrite}
    (hwrites : ∀ seen, ∀ w ∈ writes seen, w.Revokes seen) :
    Revoking s (d.wrote (sessionRows.taken (fun _ => []) writes (sessionRows.view s d.writes))
      (writes (sessionRows.view s d.writes))) := by
  intro w hw
  simp only [Tx.Done.wrote, taken, List.nil_append, List.mem_append] at hw ⊢
  rcases hw with hw | hw
  · obtain ⟨hrevokes, hrows⟩ := h w hw
    exact ⟨hrevokes, fun k hk => .inl (hrows k hk)⟩
  · refine ⟨(revokes_view fun w' hw' => (h w' hw').1).mp (hwrites _ w hw), fun k hk => .inr ?_⟩
    exact List.mem_flatMap.mpr ⟨w, hw, hk⟩

theorem revokes_of_active {id : Nat} {family : SessionFamily} {reason : RevokeReason} {now : Int}
    (h : s.getActiveSessionFamily id = some family) :
    (SessionWrite.family id { family with revokedAt := some now, revokedReason := some reason }).Revokes s :=
  ⟨rfl, family, (SessionStore.getActiveSessionFamily_eq_some.mp h).1, rfl⟩

theorem revokes_revokeSessionFamily (id : Nat) (reason : RevokeReason) (now : Int) (s : SessionStore) :
    ∀ w ∈ SessionStore.revokeSessionFamily id reason now s, w.Revokes s := by
  intro w hw
  simp only [SessionStore.revokeSessionFamily] at hw
  split at hw
  · rename_i family hfamily
    rw [List.mem_singleton.mp hw]
    exact revokes_of_active hfamily
  · cases hw

theorem revokes_revokeUserSession (userId : Int) (reason : RevokeReason) (now : Int) (id : Nat) (s : SessionStore) :
    ∀ w ∈ SessionStore.revokeUserSession userId reason now id s, w.Revokes s := by
  intro w hw
  simp only [SessionStore.revokeUserSession] at hw
  split at hw
  · rename_i family hfamily
    split at hw
    · rw [List.mem_singleton.mp hw]
      exact revokes_of_active hfamily
    · cases hw
  · cases hw

theorem revokes_setUserStatus (userId : Int) (status : UserStatus) (s : SessionStore) :
    ∀ w ∈ SessionStore.setUserStatus userId status s, w.Revokes s := by
  intro w hw
  simp only [SessionStore.setUserStatus] at hw
  split at hw
  · rw [List.mem_singleton.mp hw]
    trivial
  · cases hw

end Revoking

section Calls

variable [SessionSetup]

open SessionSetup

/-- A family that a call opens, under a new id. -/
def Opened (s t : SessionStore) (pair : TokenPair) : Prop :=
  s.families.lookup pair.sessionId = none ∧ (t.families.lookup pair.sessionId).isSome = true ∧
    pair.accessToken.sessionId = pair.sessionId

def Consumed (s t : SessionStore) (hash scope : Text) : Prop :=
  ∃ code code', s.codes.lookup hash = some code ∧ code.consumedAt = none ∧ code.scope = scope ∧
    t.codes.lookup hash = some code' ∧ code'.consumedAt.isSome = true

/-- An exchange uses a token that is not used, of a family that was not revoked when the call started. -/
structure Rotated (token : Text) (since s t : SessionStore) (pair : TokenPair) : Prop where
  presented : token ≠ []
  fresh : ∃ id row, s.tokens.lookup id = some row ∧ row.tokenHash = hashToken token ∧ row.familyId = pair.sessionId ∧
    row.usedAt = none
  used : t.Used (hashToken token) pair.sessionId
  active : ¬ since.Revoked pair.sessionId
  unused : ∀ familyId, ¬ since.Used (hashToken token) familyId
  scope : ∃ client, pair.accessToken.scope = scopeForClient client

/-- What a call has done when it commits, between the state before and the state after. -/
def Promise (since s t : SessionStore) : SessionCall → SessionAnswer → Prop
  | .login _ _ _, .tokens pair => Opened s t pair
  | .approve req _ code _, .approved code' => code' = code ∧ s.codes.lookup (hashToken code) = none ∧
      ∃ row, t.codes.lookup (hashToken code) = some row ∧ row.scope = req.scope
  | .exchangeCode input _ _, .exchanged pair _ =>
    Opened s t pair ∧ Consumed s t (hashToken input.code) pair.accessToken.scope
  | .refreshSession token _ _, .tokens pair => Rotated token since s t pair
  | .refreshSession token _ _, .error _ => ∀ familyId, since.Used (hashToken token) familyId → t.Revoked familyId
  | .refreshSession _ _ _, _ => False
  | .authenticateAccess (some claims), .principal _ => ¬ since.Revoked claims.sessionId
  | _, .ok => True
  | _, .revoked _ => True
  | _, _ => False

/-- A call that rolls back fails. A refresh does so only if its token was not used before it started. -/
def Declined (since : SessionStore) : SessionCall → SessionAnswer → Prop
  | .refreshSession token _ _, .error _ => token ≠ [] → ∀ familyId, ¬ since.Used (hashToken token) familyId
  | _, .error _ => True
  | _, _ => False

def sessionContract : Contract SessionStore SessionKey SessionWrite Empty Unit SessionAnswer SessionCall where
  Inv := SessionStore.Valid
  Rely locked s t := s.Evolves t ∧ ∀ k ∈ locked, k.Same s t
  Commits call since s d answer := (sessionRows.view s d.writes).Valid ∧ s.Evolves (sessionRows.view s d.writes) ∧
    Promise since s (sessionRows.view s d.writes) call answer
  RollsBack call since _ _ answer := Declined since call answer
  Asks _ _ _ _ request _ := request.elim

/-! ## The calls keep their promises -/

section Safe

variable {call : SessionCall} {since s t : SessionStore} {d : Tx.Done SessionKey SessionWrite Empty Unit}

theorem safe_revoked (h : Revoking s d) {answer : SessionAnswer}
    (hpromise : ∀ t, t.Valid → sessionContract.Rely d.locked s t → Promise since t (sessionRows.view t d.writes) call answer) :
    sessionRows.Safe sessionContract call since (.commit answer) s d := by
  intro t ht hrely
  obtain ⟨hvalid, hevolves⟩ := view_revokes ht fun w hw => (h.same hrely.2 w hw).1
  exact ⟨hvalid, hevolves, hpromise t ht hrely⟩

variable {next : Nat → SessionTx} {draw : Draw} {locked : List SessionKey} (userId : Int) (now : Int)

theorem safe_revoke (h : Revoking s d) {writes : SessionStore → List SessionWrite}
    (hwrites : ∀ seen, ∀ w ∈ writes seen, w.Revokes seen)
    (hnext : ∀ t d n, Revoking t d → sessionRows.Safe sessionContract call since (next n) t d) :
    sessionRows.Safe sessionContract call since (.exec writes next) s d := by
  intro t ht hrely
  exact hnext _ _ _ ((h.same hrely.2).wrote hwrites)

theorem safe_revokeEach {userId : Int} {reason : RevokeReason} {now : Int}
    (hnext : ∀ t d n, Revoking t d → sessionRows.Safe sessionContract call since (next n) t d) (ids : List Nat) :
    ∀ s d count, Revoking s d →
      sessionRows.Safe sessionContract call since (revokeEach userId reason now next ids count) s d := by
  induction ids with
  | nil => exact hnext
  | cons id ids ih =>
    intro s d count h
    exact safe_revoke h (revokes_revokeUserSession userId reason now id) fun t d n ht => ih t d (count + n) ht

theorem safe_revokeUserSessions {userId : Int} {exempt : Option Nat} {reason : RevokeReason} {now : Int}
    (h : Revoking s d) (hnext : ∀ t d n, Revoking t d → sessionRows.Safe sessionContract call since (next n) t d) :
    sessionRows.Safe sessionContract call since (revokeUserSessions userId exempt reason now next) s d := by
  refine safe_query _ _ fun t ht hrely => ?_
  exact safe_revokeEach hnext _ t d 0 (h.same hrely.2)

theorem safe_insertOrFail {keys : List SessionKey} {present : SessionStore → Bool} {write : SessionWrite}
    {next : SessionTx} (hdeclined : Declined since call (.error .failure))
    (hnext : ∀ t, t.Valid → sessionContract.Rely d.locked s t → present (sessionRows.view t d.writes) = false →
      sessionRows.Safe sessionContract call since next t (d.wrote (keys ++ sessionRows.rows write) [write])) :
    sessionRows.Safe sessionContract call since (insertOrFail keys present write next) s d := by
  intro t ht hrely
  cases hpresent : present (sessionRows.view t d.writes) with
  | true =>
    simp only [hpresent]
    exact fun _ _ _ => hdeclined
  | false =>
    have := hnext t ht hrely hpresent
    simpa [hpresent, taken] using this

structure Free (s : SessionStore) (draw : Draw) (locked : List SessionKey) : Prop where
  family : s.families.lookup draw.familyId = none
  token : s.tokens.lookup draw.tokenId = none
  hash : s.hashPresent (hashToken draw.refreshToken) = false
  locked : .family draw.familyId ∈ locked ∧ .token draw.tokenId ∈ locked ∧ .tokenHash (hashToken draw.refreshToken) ∈ locked

theorem Free.same (h : Free s draw locked) (hsame : ∀ k ∈ locked, k.Same s t) : Free t draw locked := by
  obtain ⟨hfamily, htoken, hhash⟩ := h.locked
  exact ⟨Eq.trans (hsame _ hfamily) h.family, Eq.trans (hsame _ htoken) h.token, hsame _ hhash h.hash, h.locked⟩

theorem safe_issueSession {userId : Int} {client : SessionClient} {oauthClient scope : Text} {now : Int}
    {next : TokenPair → SessionTx} (hdeclined : Declined since call (.error .failure))
    (hview : ∀ s, (sessionRows.view s d.writes).families = s.families ∧ (sessionRows.view s d.writes).tokens = s.tokens)
    (hnext : ∀ t d', sessionContract.Rely d.locked s t → Free t draw d'.locked →
      d'.writes = d.writes ++ [SessionWrite.family draw.familyId (newSessionFamily userId client oauthClient now),
        .token draw.tokenId (newRefreshToken draw.familyId draw.refreshToken now)] →
      (∀ k ∈ d.locked, k ∈ d'.locked) →
      sessionRows.Safe sessionContract call since
        (next ⟨⟨userId, draw.familyId, scope, now⟩, draw.refreshToken, draw.familyId⟩) t d') :
    sessionRows.Safe sessionContract call since (issueSession userId client oauthClient scope draw now next) s d := by
  refine safe_insertOrFail hdeclined fun t ht hrely hfamily => safe_insertOrFail hdeclined fun u hu hrely' htoken => ?_
  simp only [(hview t).1, Option.isSome_eq_false_iff, Option.isNone_iff_eq_none] at hfamily
  simp only [Tx.Done.wrote, view, List.foldl_append, List.foldl_cons, List.foldl_nil, Bool.or_eq_false_iff] at htoken
  obtain ⟨htoken, hhash⟩ := htoken
  have htokens : (sessionRows.apply (List.foldl sessionRows.apply u d.writes)
      (.family draw.familyId (newSessionFamily userId client oauthClient now))).tokens = u.tokens := (hview u).2
  have hfamily' : u.families.lookup draw.familyId = t.families.lookup draw.familyId :=
    hrely'.2 (.family draw.familyId) (by simp [Tx.Done.wrote])
  refine hnext u _ ⟨hrely.1.trans hrely'.1, fun k hk => ?_⟩ ⟨hfamily'.trans hfamily, ?_, ?_, ?_⟩ ?_ ?_
  · exact (hrely.2 k hk).trans (hrely'.2 k (by simp [Tx.Done.wrote, hk]))
  · rw [htokens, Option.isSome_eq_false_iff, Option.isNone_iff_eq_none] at htoken
    exact htoken
  · rw [SessionStore.hashPresent, htokens] at hhash
    exact hhash
  · simp [Tx.Done.wrote]
  · simp [Tx.Done.wrote]
  · intro k hk
    simp [Tx.Done.wrote, hk]

theorem opened_view (hs : s.Valid) (hfree : Free s draw locked) (family : SessionFamily) (now : Int)
    (claims : AccessClaims) (hclaims : claims.sessionId = draw.familyId) :
    ∀ u, u = sessionRows.view s [.family draw.familyId family,
        .token draw.tokenId (newRefreshToken draw.familyId draw.refreshToken now)] →
      u.Valid ∧ s.Evolves u ∧ Opened s u ⟨claims, draw.refreshToken, draw.familyId⟩ := by
  rintro u rfl
  obtain ⟨hvalid, hevolves⟩ := view_opened hs family (newRefreshToken draw.familyId draw.refreshToken now) hfree.family
    hfree.token hfree.hash rfl
  refine ⟨hvalid, hevolves, hfree.family, ?_, hclaims⟩
  change ((s.families.insert draw.familyId family).lookup draw.familyId).isSome = true
  rw [AList.lookup_insert]
  rfl

theorem safe_login (draw : Draw) (now : Int) (since : SessionStore) :
    sessionRows.Safe sessionContract (.login userId draw now) since (login userId draw now) since .nothing := by
  refine safe_issueSession trivial (fun s => ⟨rfl, rfl⟩) ?_
  intro t d hrely hfree hwrites hlocked u hu hrely'
  exact opened_view hu (hfree.same hrely'.2) _ now _ rfl _ (by rw [hwrites]; rfl)

theorem safe_approve (req : AuthorizeRequest) (userId : Int) (code : Text) (now : Int) (since : SessionStore) :
    sessionRows.Safe sessionContract (.approve req userId code now) since (approve req userId code now) since
      .nothing := by
  refine safe_query _ _ fun s hs hrely => ?_
  split
  · exact fun _ _ _ => trivial
  · refine safe_insertOrFail trivial fun t ht hrely' hfree u hu hrely'' => ?_
    have hnone : u.codes.lookup (hashToken code) = none := by
      have hsame : u.codes.lookup (hashToken code) = t.codes.lookup (hashToken code) :=
        hrely''.2 (.code (hashToken code)) (by simp [Tx.Done.wrote])
      rw [hsame]
      simpa [Tx.Done.nothing, view] using hfree
    refine ⟨⟨⟨hu.keyed.hashes, hu.keyed.owned⟩, hu.unused⟩, .putCode fun old hold => ?_, rfl, hnone, _,
      AList.lookup_insert u.codes, rfl⟩
    rw [hnone] at hold
    cases hold

theorem redeemed_view {hash : Text} {record : AuthorizationCode} (hs : s.Valid) (hfree : Free s draw locked)
    (hrecord : s.codes.lookup hash = some record) (hopen : record.consumedAt = none) (family : SessionFamily)
    (now : Int) (claims : AccessClaims) (hclaims : claims.sessionId = draw.familyId)
    (hscope : record.scope = claims.scope) :
    ∀ u, u = sessionRows.view s [.code hash { record with consumedAt := some now }, .family draw.familyId family,
        .token draw.tokenId (newRefreshToken draw.familyId draw.refreshToken now)] →
      u.Valid ∧ s.Evolves u ∧ Opened s u ⟨claims, draw.refreshToken, draw.familyId⟩ ∧ Consumed s u hash claims.scope := by
  rintro u rfl
  have hconsume : s.Evolves { s with codes := s.codes.insert hash { record with consumedAt := some now } } := by
    refine .putCode fun old hold => ?_
    rw [hrecord] at hold
    cases hold
    exact ⟨rfl, fun _ => rfl⟩
  obtain ⟨hvalid, hevolves, hopened⟩ :=
    opened_view (s := { s with codes := s.codes.insert hash { record with consumedAt := some now } })
      ⟨⟨hs.keyed.hashes, hs.keyed.owned⟩, hs.unused⟩ ⟨hfree.family, hfree.token, hfree.hash, hfree.locked⟩ family now
      claims hclaims _ rfl
  exact ⟨hvalid, hconsume.trans hevolves, hopened, record, _, hrecord, hopen, hscope, AList.lookup_insert s.codes, rfl⟩

theorem safe_redeem {input : ExchangeInput} {record : AuthorizationCode} {now : Int}
    (hrecord : s.codes.lookup (hashToken input.code) = some record) (hopen : record.consumedAt = none)
    (hwrites : d.writes = [.code (hashToken input.code) { record with consumedAt := some now }])
    (hlocked : .code (hashToken input.code) ∈ d.locked) :
    sessionRows.Safe sessionContract (.exchangeCode input draw now) since (redeem input record draw now) s d := by
  unfold redeem
  split
  · exact fun _ _ _ => trivial
  · split
    · exact fun _ _ _ => trivial
    · refine safe_query _ _ fun t ht hrely => ?_
      split
      · exact fun _ _ _ => trivial
      · exact fun _ _ _ => trivial
      · exact fun _ _ _ => trivial
      · refine safe_query _ _ fun t' ht' hrely' => safe_issueSession trivial ?_ ?_
        · intro u
          rw [hwrites]
          exact ⟨rfl, rfl⟩
        · intro u d' hrely'' hfree hwrites' hmore v hv hagree
          have hcode : v.codes.lookup (hashToken input.code) = some record := by
            have hsame := (((hrely.2 _ hlocked).trans (hrely'.2 _ hlocked)).trans (hrely''.2 _ hlocked)).trans
              (hagree.2 _ (hmore _ hlocked))
            exact Eq.trans hsame hrecord
          exact redeemed_view hv (hfree.same hagree.2) hcode hopen _ now _ rfl rfl _ (by rw [hwrites', hwrites]; rfl)

theorem safe_exchangeCode (input : ExchangeInput) (draw : Draw) (now : Int) (since : SessionStore) :
    sessionRows.Safe sessionContract (.exchangeCode input draw now) since (exchangeCode input draw now) since
      .nothing := by
  intro s hs hrely
  dsimp only
  split
  · exact fun _ _ _ => trivial
  · rename_i record hrecord
    change s.openCode (hashToken input.code) now = some record at hrecord
    obtain ⟨hcode, hopen⟩ := openCode_eq_some hrecord
    have hconsume : SessionStore.consumeAuthorizationCode (hashToken input.code) now s =
        [.code (hashToken input.code) { record with consumedAt := some now }] := by
      simp only [SessionStore.consumeAuthorizationCode, hrecord]
    refine safe_redeem hcode hopen ?_ ?_
    · exact hconsume
    · change _ ∈ [] ++ ([] ++ (SessionStore.consumeAuthorizationCode (hashToken input.code) now s).flatMap sessionRows.rows)
      rw [hconsume]
      simp [sessionRows]

theorem safe_authenticateAccess (claims : Option AccessClaims) (since : SessionStore) :
    sessionRows.Safe sessionContract (.authenticateAccess claims) since (authenticateAccess claims) since .nothing := by
  cases claims with
  | none => exact fun _ _ _ => trivial
  | some claims =>
    rw [authenticateAccess]
    refine safe_query _ _ fun s hs hrely => ?_
    split
    · exact fun _ _ _ => trivial
    · rename_i family hfamily
      refine safe_query _ _ fun t ht hrely' => ?_
      split
      · exact fun _ _ _ => trivial
      · exact fun _ _ _ => trivial
      · exact fun _ _ _ => trivial
      · refine safe_revoked (.nothing t) fun u hu hrely'' hrevoked => ?_
        obtain ⟨hlookup, hactive⟩ := SessionStore.getActiveSessionFamily_eq_some.mp hfamily
        obtain ⟨family', hlookup', hrevoked'⟩ := hrevoked.evolves hrely.1
        have hsame := Eq.trans hlookup.symm hlookup'
        cases hsame
        rw [hactive] at hrevoked'
        cases hrevoked'

theorem safe_replaceToken {token : Text} {now : Int} {record : SessionStore.TokenRecord}
    {family current : SessionFamily} {row : RefreshToken} (hpresented : token ≠ [])
    (hdeclined : ∀ familyId, ¬ since.Used (hashToken token) familyId) (hactive : ¬ since.Revoked record.familyId)
    (hrow : s.tokens.lookup record.id = some row) (hhash : row.tokenHash = hashToken token)
    (howner : row.familyId = record.familyId) (hfamily : s.families.lookup record.familyId = some family)
    (hfree : s.tokens.lookup draw.tokenId = none) (hfreeHash : s.hashPresent (hashToken draw.refreshToken) = false)
    (hwrites : d.writes = [.token draw.tokenId (newRefreshToken record.familyId draw.refreshToken now)])
    (hid : .token draw.tokenId ∈ d.locked) (hindex : .tokenHash (hashToken draw.refreshToken) ∈ d.locked) :
    sessionRows.Safe sessionContract (.refreshSession token draw now) since (replaceToken record current draw now) s d := by
  refine safe_exec _ _ fun t ws ht hrely hmark => ?_
  obtain ⟨row', hrow', howner', hhash', -⟩ := hrely.1.tokens _ _ hrow
  have hfree' : t.tokens.lookup draw.tokenId = none := Eq.trans (hrely.2 _ hid) hfree
  have hne : record.id ≠ draw.tokenId := by
    intro heq
    rw [← heq, hrow'] at hfree'
    cases hfree'
  have hseen : (sessionRows.view t d.writes).tokens.lookup record.id = some row' := by
    rw [hwrites, ← hrow']
    exact AList.lookup_insert_ne hne
  simp only [SessionStore.markRefreshTokenUsed, hseen] at hmark
  cases hused : row'.usedAt with
  | some _ =>
    simp only [hused, Option.isNone_some, Bool.false_eq_true, if_false] at hmark
    subst hmark
    exact fun _ _ _ _ => hdeclined
  | none =>
    simp only [hused, Option.isNone_none, if_true] at hmark
    subst hmark
    rw [if_neg (by simp)]
    refine safe_exec _ _ fun u ws hu hrely' htouch => ?_
    obtain ⟨family', hfamily', -⟩ := (hrely.1.trans hrely'.1).families _ _ hfamily
    have hseen' : (sessionRows.view u (d.writes ++ [SessionWrite.token record.id
        { row' with usedAt := some now, replacedById := some draw.tokenId }])).families.lookup record.familyId =
          some family' := by
      rw [hwrites]
      exact hfamily'
    simp only [Tx.Done.wrote, SessionStore.touchSessionFamily, hseen'] at htouch
    subst htouch
    intro v hv hrely''
    -- the rows stay as they were when they were locked
    have hrow'' : v.tokens.lookup record.id = some row' := by
      have h₁ : u.tokens.lookup record.id = t.tokens.lookup record.id :=
        hrely'.2 (.token record.id) (by simp [Tx.Done.wrote, sessionRows])
      have h₂ : v.tokens.lookup record.id = u.tokens.lookup record.id :=
        hrely''.2 (.token record.id) (by simp [Tx.Done.wrote, sessionRows])
      rw [h₂, h₁, hrow']
    have hfamily'' : v.families.lookup record.familyId = some family' := by
      have h : v.families.lookup record.familyId = u.families.lookup record.familyId :=
        hrely''.2 (.family record.familyId) (by simp [Tx.Done.wrote, sessionRows])
      rw [h, hfamily']
    have hfree'' : v.tokens.lookup draw.tokenId = none := by
      have h₁ : u.tokens.lookup draw.tokenId = t.tokens.lookup draw.tokenId :=
        hrely'.2 (.token draw.tokenId) (by simp [Tx.Done.wrote, hid])
      have h₂ : v.tokens.lookup draw.tokenId = u.tokens.lookup draw.tokenId :=
        hrely''.2 (.token draw.tokenId) (by simp [Tx.Done.wrote, hid])
      rw [h₂, h₁, hfree']
    have hfreeHash'' : v.hashPresent (hashToken draw.refreshToken) = false :=
      hrely''.2 (.tokenHash (hashToken draw.refreshToken)) (by simp [Tx.Done.wrote, hindex])
        (hrely'.2 (.tokenHash (hashToken draw.refreshToken)) (by simp [Tx.Done.wrote, hindex]) (hrely.2 _ hindex hfreeHash))
    have howner'' : row'.familyId = record.familyId := howner'.trans howner
    obtain ⟨hvalid, hevolves, hisUsed⟩ := view_rotated hv (newRefreshToken record.familyId draw.refreshToken now)
      { row' with usedAt := some now, replacedById := some draw.tokenId } { family' with lastSeenAt := now } hrow'' hused
      howner'' hfree'' hfreeHash'' rfl ⟨⟨rfl, rfl, fun _ => rfl⟩, rfl⟩ hfamily'' ⟨rfl, id⟩
    simp only [sessionContract, Tx.Done.wrote, hwrites, List.cons_append, List.nil_append]
    exact ⟨hvalid, hevolves, hpresented, ⟨record.id, row', hrow'', hhash'.trans hhash, howner'', hused⟩,
      hhash'.trans hhash ▸ hisUsed, hactive, hdeclined, current.client, rfl⟩

theorem safe_rotate {token : Text} {now : Int} {record : SessionStore.TokenRecord} (hs : s.Valid)
    (hpresented : token ≠ []) (hevolves : since.Evolves s)
    (hrecord : s.getRefreshTokenByHash (hashToken token) = some record) (hunused : record.usedAt = none)
    (hunrevoked : record.revokedAt = none) :
    sessionRows.Safe sessionContract (.refreshSession token draw now) since (rotate record draw now) s .nothing := by
  have hdeclined := not_used_of_record hs hevolves hrecord hunused
  obtain ⟨row, family, hrow, hhash, hfamily, -, hlookup, hrevokedAt⟩ :=
    SessionStore.getRefreshTokenByHash_eq_some hrecord
  have hactive : ¬ since.Revoked record.familyId := by
    intro hrevoked
    obtain ⟨family', hlookup', hrevoked'⟩ := hrevoked.evolves hevolves
    rw [hlookup] at hlookup'
    cases hlookup'
    rw [hunrevoked, eq_comm, Option.or_eq_none_iff] at hrevokedAt
    rw [hrevokedAt.2] at hrevoked'
    cases hrevoked'
  refine safe_query _ _ fun t ht hrely => ?_
  split
  · exact fun _ _ _ _ => hdeclined
  · rename_i current hcurrent
    split
    · exact fun _ _ _ _ => hdeclined
    · refine safe_query _ _ fun t' ht' hrely' => ?_
      split
      · exact fun _ _ _ _ => hdeclined
      · split
        · exact fun _ _ _ _ => hdeclined
        · refine safe_insertOrFail (fun _ => hdeclined) fun u hu hrely'' hfree => ?_
          have hevolved : s.Evolves u := (hrely.1.trans hrely'.1).trans hrely''.1
          rw [Bool.or_eq_false_iff, Option.isSome_eq_false_iff, Option.isNone_iff_eq_none] at hfree
          obtain ⟨row', hrow', hfamily', hhash', -⟩ := hevolved.tokens _ _ hrow
          obtain ⟨family', hlookup', -⟩ := hevolved.families _ _ hlookup
          refine safe_replaceToken hpresented hdeclined hactive hrow' (hhash'.trans hhash) (hfamily'.trans hfamily) hlookup'
            hfree.1 hfree.2 rfl ?_ ?_
          · simp [Tx.Done.wrote]
          · simp [Tx.Done.wrote]

theorem safe_refreshSession (token : Text) (draw : Draw) (now : Int) (since : SessionStore) :
    sessionRows.Safe sessionContract (.refreshSession token draw now) since (refreshSession token draw now) since
      .nothing := by
  unfold refreshSession
  split
  · rename_i hempty
    exact fun _ _ _ hpresented => absurd (List.isEmpty_iff.mp hempty) hpresented
  · rename_i hpresented
    refine safe_query _ _ fun s hs hrely => ?_
    split
    · rename_i hnone
      intro t ht hrely' _ familyId hused
      obtain ⟨id, row, hrow, hhash, -⟩ := hused.evolves hrely.1
      exact SessionStore.getRefreshTokenByHash_eq_none hs.keyed hnone hrow hhash
    · rename_i record hrecord
      replace hrecord : s.getRefreshTokenByHash (hashToken token) = some record := hrecord
      split
      · -- reuse: the family is revoked, or has been already
        obtain ⟨row, family, hrow, hhash, hfamily, -, hlookup, -⟩ := SessionStore.getRefreshTokenByHash_eq_some hrecord
        refine safe_exec _ _ fun t ws ht hrely' hws => ?_
        replace hws : SessionStore.revokeSessionFamily record.familyId .reuseDetected now t = ws := hws
        have hrevoking : Revoking t (Tx.Done.nothing.wrote (ws.flatMap sessionRows.rows) ws) := by
          have := (Revoking.nothing t).wrote (revokes_revokeSessionFamily record.familyId .reuseDetected now)
          rw [← hws]
          exact this
        refine safe_revoked hrevoking fun u hu hrely'' familyId hused => ?_
        obtain ⟨-, rfl⟩ := (hused.evolves hrely.1).record hs.keyed hrecord
        obtain ⟨family', hlookup', -⟩ := hrely'.1.families _ _ hlookup
        cases hactive : t.getActiveSessionFamily record.familyId with
        | none =>
          simp only [SessionStore.revokeSessionFamily, hactive] at hws
          subst hws
          exact (SessionStore.revoked_of_not_active hlookup' hactive).evolves hrely''.1
        | some active =>
          simp only [SessionStore.revokeSessionFamily, hactive] at hws
          subst hws
          exact ⟨_, AList.lookup_insert u.families, rfl⟩
      · rename_i hunused
        rw [Bool.not_eq_true, Option.isSome_eq_false_iff, Option.isNone_iff_eq_none] at hunused
        split
        · exact fun _ _ _ _ => not_used_of_record hs hrely.1 hrecord hunused
        · rename_i hvalid
          simp only [Bool.or_eq_true, not_or, Bool.not_eq_true, Option.isSome_eq_false_iff,
            Option.isNone_iff_eq_none] at hvalid
          refine safe_rotate hs (fun hempty => hpresented (List.isEmpty_iff.mpr hempty)) hrely.1 hrecord hunused hvalid.1

theorem safe_logout (sessionId : Nat) (now : Int) (since : SessionStore) :
    sessionRows.Safe sessionContract (.logout sessionId now) since (logout sessionId now) since .nothing :=
  safe_revoke (.nothing since) (revokes_revokeSessionFamily sessionId .userLogout now) fun _ _ _ ht =>
    safe_revoked ht fun _ _ _ => trivial

theorem safe_revokeSession (sessionId : Nat) (now : Int) (since : SessionStore) :
    sessionRows.Safe sessionContract (.revokeSession userId sessionId now) since (revokeSession userId sessionId now)
      since .nothing := by
  refine safe_query _ _ fun s hs hrely => ?_
  split
  · exact fun _ _ _ => trivial
  · split
    · exact fun _ _ _ => trivial
    · refine safe_revoke (.nothing s) (revokes_revokeSessionFamily sessionId .userRevoke now) fun t d n ht => ?_
      split
      · exact fun _ _ _ => trivial
      · exact safe_revoked ht fun _ _ _ => trivial

theorem safe_revokeToken (token : Text) (now : Int) (since : SessionStore) :
    sessionRows.Safe sessionContract (.revokeToken token now) since (revokeToken token now) since .nothing := by
  refine safe_query _ _ fun s hs hrely => ?_
  split
  · exact safe_revoked (.nothing s) fun _ _ _ => trivial
  · rename_i record hrecord
    exact safe_revoke (.nothing s) (revokes_revokeSessionFamily record.familyId .userLogout now) fun _ _ _ ht =>
      safe_revoked ht fun _ _ _ => trivial

theorem safe_changePassword (current : Nat) (now : Int) (since : SessionStore) :
    sessionRows.Safe sessionContract (.changePassword userId current now) since (changePassword userId current now)
      since .nothing := by
  refine safe_query _ _ fun s hs hrely => ?_
  split
  · exact fun _ _ _ => trivial
  · exact safe_revokeUserSessions (.nothing s) fun _ _ _ ht => safe_revoked ht fun _ _ _ => trivial

theorem safe_resetPassword (userId : Option Int) (now : Int) (since : SessionStore) :
    sessionRows.Safe sessionContract (.resetPassword userId now) since (resetPassword userId now) since .nothing := by
  unfold resetPassword
  split
  · exact fun _ _ _ => trivial
  · exact safe_revokeUserSessions (.nothing since) fun _ _ _ ht => safe_revoked ht fun _ _ _ => trivial

theorem safe_setUserDisabled (disabled : Bool) (now : Int) (since : SessionStore) :
    sessionRows.Safe sessionContract (.setUserDisabled userId disabled now) since (setUserDisabled userId disabled now)
      since .nothing := by
  refine safe_query _ _ fun s hs hrely => ?_
  split
  · exact fun _ _ _ => trivial
  · split
    · refine safe_revoke (.nothing s) (revokes_setUserStatus userId .disabled) fun t d n ht => ?_
      exact safe_revokeUserSessions ht fun _ _ _ ht => safe_revoked ht fun _ _ _ => trivial
    · exact safe_revoke (.nothing s) (revokes_setUserStatus userId .active) fun t d n ht =>
        safe_revoked ht fun _ _ _ => trivial

theorem safe_deleteAccount (since : SessionStore) :
    sessionRows.Safe sessionContract (.deleteAccount userId now) since (deleteAccount userId now) since .nothing := by
  refine safe_revoke (.nothing since) (revokes_setUserStatus userId .disabled) fun t d n ht => ?_
  exact safe_revokeUserSessions ht fun _ _ _ ht => safe_revoked ht fun _ _ _ => trivial

end Safe

theorem sessionProgram_keeps : sessionRows.Keeps sessionContract sessionProgram where
  refl locked s _ := ⟨.refl s, fun k _ => same_refl s k⟩
  trans h h' := ⟨h.1.trans h'.1, fun k hk => (h.2 k hk).trans (h'.2 k hk)⟩
  inv _ h := h.1
  guarantee _ h hrows hfree := ⟨h.2.1, fun k hk => same_view _ fun w hw hkw => hfree k (hrows w hw k hkw) hk⟩
  safe call s hs := by
    cases call with
    | login userId draw now => exact safe_login userId draw now s
    | approve req userId code now => exact safe_approve req userId code now s
    | exchangeCode input draw now => exact safe_exchangeCode input draw now s
    | refreshSession token draw now => exact safe_refreshSession token draw now s
    | authenticateAccess claims => exact safe_authenticateAccess claims s
    | logout sessionId now => exact safe_logout sessionId now s
    | revokeSession userId sessionId now => exact safe_revokeSession userId sessionId now s
    | revokeOtherSessions userId current now =>
      exact safe_revokeUserSessions (.nothing s) fun _ _ _ ht => safe_revoked ht fun _ _ _ => trivial
    | revokeToken token now => exact safe_revokeToken token now s
    | changePassword userId current now => exact safe_changePassword userId current now s
    | resetPassword userId now => exact safe_resetPassword userId now s
    | setUserDisabled userId disabled now => exact safe_setUserDisabled userId disabled now s
    | deleteAccount userId now => exact safe_deleteAccount userId now s

/-! ## Every interleaving -/

def Ends (e : SessionEntry) (call : SessionCall) (since : SessionStore) (answer : SessionAnswer) : Prop :=
  ∃ t, (e.answer = .committed t answer ∨ e.answer = .rolledBack t answer) ∧ t.call = call ∧ t.since = since

/-- What is required of a log that has led to a state. Where a call starts after something has been committed, this is
so in the state that was committed when it started. -/
structure RotationSafe (log : List SessionEntry) (s : SessionStore) : Prop where
  /-- A token is exchanged once at most. -/
  once : ((log.filterMap refreshed).map fun x => hashToken x.1).Nodup
  unused : OneUnused s.tokens
  /-- A token that an exchange had used before the call started costs the family. -/
  replayed : ∀ x ∈ log.filterMap refreshed, ∀ e ∈ log, ∀ draw now since answer,
    Ends e (.refreshSession x.1 draw now) since answer → ∀ familyId, since.Used (hashToken x.1) familyId →
      s.Revoked familyId ∧ ∃ error, answer = .error error
  durable : ∀ e ∈ log, ∀ familyId, e.before.committed.Revoked familyId → s.Revoked familyId
  /-- No call succeeds for a family that was revoked before it started. -/
  refresh : ∀ e ∈ log, ∀ token draw now since pair, Ends e (.refreshSession token draw now) since (.tokens pair) →
    ∀ id row, e.before.committed.tokens.lookup id = some row → row.tokenHash = hashToken token →
      ¬ since.Revoked row.familyId
  access : ∀ e ∈ log, ∀ claims since p, Ends e (.authenticateAccess (some claims)) since (.principal p) →
    ¬ since.Revoked claims.sessionId

section Promised

variable {c : SessionStore} {e : SessionEntry}

theorem after_evolves (h : sessionContract.Promised c e.answer) : c.Evolves (sessionRows.after c e.answer) := by
  cases hanswer : e.answer with
  | committed t answer =>
    rw [hanswer] at h
    exact h.2.1
  | moved | waits | asked _ _ _ | rolledBack _ _ | aborted _ => exact .refl c

theorem rotated_of_refreshed (h : sessionContract.Promised c e.answer) {x : Text × TokenPair} (hx : refreshed e = some x) :
    ∃ t draw now, e.answer = .committed t (.tokens x.2) ∧ t.call = .refreshSession x.1 draw now ∧
      Rotated x.1 t.since c (sessionRows.after c e.answer) x.2 := by
  obtain ⟨t, draw, now, hanswer, hcall⟩ := refreshed_eq_some hx
  rw [hanswer] at h
  obtain ⟨-, -, hpromise⟩ := h
  rw [hcall] at hpromise
  exact ⟨t, draw, now, hanswer, hcall, by rw [hanswer]; exact hpromise⟩

variable {since : SessionStore}

theorem revoked_of_replayed (h : sessionContract.Promised c e.answer) {token : Text} {draw : Draw} {now : Int}
    {answer : SessionAnswer} {familyId : Nat} (hends : Ends e (.refreshSession token draw now) since answer)
    (hpresented : token ≠ []) (hused : since.Used (hashToken token) familyId) :
    (sessionRows.after c e.answer).Revoked familyId ∧ ∃ error, answer = .error error := by
  obtain ⟨t, hanswer | hanswer, hcall, rfl⟩ := hends
  · rw [hanswer] at h ⊢
    obtain ⟨-, -, hpromise⟩ := h
    rw [hcall] at hpromise
    cases answer with
    | error error => exact ⟨hpromise familyId hused, error, rfl⟩
    | tokens pair => exact absurd hused (hpromise.unused familyId)
    | ok | approved _ | exchanged _ _ | principal _ | revoked _ => exact hpromise.elim
  · rw [hanswer] at h
    change Declined t.since t.call answer at h
    rw [hcall] at h
    cases answer with
    | error error => exact absurd hused (h hpresented familyId)
    | ok | tokens _ | approved _ | exchanged _ _ | principal _ | revoked _ => exact h.elim

theorem active_of_refreshed (h : sessionContract.Promised c e.answer) (hc : c.Valid) {token : Text} {draw : Draw}
    {now : Int} {pair : TokenPair} (hends : Ends e (.refreshSession token draw now) since (.tokens pair)) {id : Nat}
    {row : RefreshToken} (hrow : c.tokens.lookup id = some row) (hhash : row.tokenHash = hashToken token) :
    ¬ since.Revoked row.familyId := by
  obtain ⟨t, hanswer | hanswer, hcall, rfl⟩ := hends
  · rw [hanswer] at h
    obtain ⟨-, -, hpromise⟩ := h
    rw [hcall] at hpromise
    obtain ⟨id', row', hrow', hhash', hfamily', -⟩ := hpromise.fresh
    obtain rfl := hc.keyed.hashes _ _ _ _ hrow hrow' (hhash.trans hhash'.symm)
    rw [hrow] at hrow'
    cases hrow'
    rw [hfamily']
    exact hpromise.active
  · rw [hanswer] at h
    change Declined t.since t.call _ at h
    rw [hcall] at h
    exact h.elim

theorem active_of_authenticated (h : sessionContract.Promised c e.answer) {claims : AccessClaims} {p : Principal}
    (hends : Ends e (.authenticateAccess (some claims)) since (.principal p)) :
    ¬ since.Revoked claims.sessionId := by
  obtain ⟨t, hanswer | hanswer, hcall, rfl⟩ := hends
  · rw [hanswer] at h
    obtain ⟨-, -, hpromise⟩ := h
    rw [hcall] at hpromise
    exact hpromise
  · rw [hanswer] at h
    change Declined t.since t.call _ at h
    rw [hcall] at h
    exact h.elim

end Promised

/-- What the log and what is committed say of each other. -/
structure History (s : SessionStore) (log : List SessionEntry) : Prop where
  used : ∀ x ∈ log.filterMap refreshed, x.1 ≠ [] ∧ s.Used (hashToken x.1) x.2.sessionId
  once : ((log.filterMap refreshed).map fun x => hashToken x.1).Nodup
  revoked : ∀ e ∈ log, ∀ token draw now since answer, Ends e (.refreshSession token draw now) since answer →
    token ≠ [] → ∀ familyId, since.Used (hashToken token) familyId → s.Revoked familyId ∧ ∃ error, answer = .error error
  durable : ∀ e ∈ log, ∀ familyId, e.before.committed.Revoked familyId → s.Revoked familyId

theorem History.step {s : SessionStore} {log : List SessionEntry} {e : SessionEntry} (h : History s log) (hs : s.Valid)
    (hbefore : e.before.committed = s) (hpromised : sessionContract.Promised s e.answer) :
    History (sessionRows.after s e.answer) (log ++ [e]) := by
  have hevolves := after_evolves hpromised
  constructor
  · refine Machine.forall_filterMap_append (fun x hx => ?_) fun x hx => ?_
    · obtain ⟨hpresented, hused⟩ := h.used x hx
      exact ⟨hpresented, hused.evolves hevolves⟩
    · obtain ⟨t, draw, now, -, -, hrotated⟩ := rotated_of_refreshed hpromised hx
      exact ⟨hrotated.presented, hrotated.used⟩
  · -- the token was unused, so no exchange before has used it
    refine Machine.nodup_filterMap_append h.once fun x hx y hy heq => ?_
    obtain ⟨t, draw, now, -, -, hrotated⟩ := rotated_of_refreshed hpromised hx
    obtain ⟨id, row, hrow, hhash, -, hunused⟩ := hrotated.fresh
    obtain ⟨id', row', hrow', hhash', -, hused⟩ := (h.used y hy).2
    obtain rfl := hs.keyed.hashes _ _ _ _ hrow hrow' (by rw [hhash, hhash', heq])
    rw [hrow] at hrow'
    cases hrow'
    rw [hunused] at hused
    cases hused
  · intro e' he' token draw now since answer hends hpresented familyId hused
    rcases List.mem_append.mp he' with he' | he'
    · obtain ⟨hrevoked, herror⟩ := h.revoked e' he' token draw now since answer hends hpresented familyId hused
      exact ⟨hrevoked.evolves hevolves, herror⟩
    · rw [List.mem_singleton.mp he'] at hends
      exact revoked_of_replayed hpromised hends hpresented hused
  · intro e' he' familyId hrevoked
    rcases List.mem_append.mp he' with he' | he'
    · exact (h.durable e' he' familyId hrevoked).evolves hevolves
    · rw [List.mem_singleton.mp he', hbefore] at hrevoked
      exact hrevoked.evolves hevolves

theorem initial_sound (clients : Table Text OAuthClient) (users : Table Int UserStatus) :
    sessionRows.Sound sessionContract ⟨.initial clients users, []⟩ := by
  refine ⟨⟨⟨?_, ?_⟩, ?_⟩, ?_, ?_, List.Pairwise.nil⟩
  · intro i j a b ha
    cases ha
  · intro i token htoken
    cases htoken
  · intro i j a b ha
    cases ha
  · intro t ht
    cases ht
  · intro t ht
    cases ht

/-- However the calls interleave, statement by statement, rotation is safe. -/
theorem refresh_rotation_safe (clients : Table Text OAuthClient) (users : Table Int UserStatus) (turns : List SessionTurn) :
    RotationSafe (sessionMachine.log ⟨.initial clients users, []⟩ turns)
      (sessionMachine.run ⟨.initial clients users, []⟩ turns).committed := by
  have hstart := initial_sound clients users
  obtain ⟨hsound, hpromised⟩ := interleaved_sound sessionProgram_keeps turns hstart
  have hhistory : History (sessionMachine.run ⟨.initial clients users, []⟩ turns).committed
      (sessionMachine.log ⟨.initial clients users, []⟩ turns) := by
    refine interleaved_history sessionProgram_keeps (I := History) ?_ turns hstart ⟨?_, List.nodup_nil, ?_, ?_⟩
    · intro past s turn answer hs _ hanswer hpast
      exact hpast.step (e := ⟨s, turn, answer⟩) hs.inv rfl hanswer
    · intro x hx
      cases hx
    · intro e he
      cases he
    · intro e he
      cases he
  refine ⟨hhistory.once, hsound.inv.unused, ?_, hhistory.durable, ?_, ?_⟩
  · intro x hx e he draw now since answer hends
    exact hhistory.revoked e he x.1 draw now since answer hends (hhistory.used x hx).1
  · intro e he token draw now since pair hends id row hrow hhash
    obtain ⟨hbefore, hanswer⟩ := hpromised e he
    exact active_of_refreshed hanswer hbefore.inv hends hrow hhash
  · intro e he claims since p hends
    exact active_of_authenticated (hpromised e he).2 hends

end Calls

end Lumio.Control
