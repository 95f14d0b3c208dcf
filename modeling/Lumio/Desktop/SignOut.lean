import Lumio.Desktop.Session
import Mathlib.Data.List.Perm.Basic
import Mathlib.Data.List.Nodup

/-!
# Operations that disturb each other

A renewal that is under way when the user signs out brings the credentials back, and one that is under way when an API
key is stored overwrites it. As long as every write finds the state as it was read, the session is kept.
-/

namespace Lumio.Desktop

namespace SessionTask

def settles (state : Option StoredCredentials) : SessionTask → Bool
  | .readState _ => state.isSome
  | .save _ credentials => state = some credentials
  | .removeFile => state = none
  | _ => false

def coming : SessionTask → List Text
  | .readEmail _ refreshToken | .readApiKey _ _ refreshToken _ => [refreshToken]
  | .replace _ credentials => [credentials.refreshToken]
  | _ => []

def awaits (refreshToken : Text) : SessionTask → Bool
  | .refreshing sent => sent = refreshToken
  | .readEmail _ _ => true
  | .readApiKey purpose _ _ _ | .replace purpose _ => purpose = .renewal
  | _ => false

theorem renewing_of_awaits {task : SessionTask} {refreshToken : Text} (h : task.awaits refreshToken = true) :
    task.renewing = true := by
  cases task <;> simp_all [awaits, renewing]

end SessionTask

/-- How state, file, operations and refresh tokens stand to each other; `out` after a sign-out. -/
structure Orderly (state file : Option StoredCredentials) (tasks : List SessionTask) (issued refused sent : List Text)
    (out : Bool) : Prop where
  settled : state = file ∨ ∃ t ∈ tasks, t.settles state = true
  gone : out = true → state = none ∧ ∀ t ∈ tasks, t.comingLogin = false
  gate : tasks.countP SessionTask.renewing ≤ 1
  distinct : ((state.map (·.refreshToken)).toList ++ tasks.flatMap SessionTask.coming).Nodup
  known : ∀ r ∈ (state.map (·.refreshToken)).toList ++ tasks.flatMap SessionTask.coming, r ∈ issued
  sentKnown : ∀ r ∈ sent, r ∈ issued
  unsent : ∀ r ∈ tasks.flatMap SessionTask.coming, r ∉ sent
  once : sent.Nodup
  awaited : ∀ c, state = some c → c.refreshToken ∈ sent →
    c.refreshToken ∈ refused ∨ ∃ t ∈ tasks, t.awaits c.refreshToken = true

namespace Orderly

variable {state file : Option StoredCredentials} {tasks rest : List SessionTask} {issued refused sent : List Text}
  {out : Bool} {t t' : SessionTask} {c : StoredCredentials}

theorem perm (h : Orderly state file tasks issued refused sent out) (hperm : tasks.Perm rest) :
    Orderly state file rest issued refused sent out := by
  have hflat := hperm.flatMap_right SessionTask.coming
  constructor
  · exact h.settled.imp_right fun ⟨t, ht, hsettles⟩ => ⟨t, hperm.mem_iff.mp ht, hsettles⟩
  · exact fun hout => ⟨(h.gone hout).1, fun t ht => (h.gone hout).2 t (hperm.mem_iff.mpr ht)⟩
  · rw [← hperm.countP_eq]
    exact h.gate
  · exact (hflat.append_left _).nodup_iff.mp h.distinct
  · exact fun r hr => h.known r ((hflat.append_left _).mem_iff.mpr hr)
  · exact h.sentKnown
  · exact fun r hr => h.unsent r (hflat.mem_iff.mpr hr)
  · exact h.once
  · intro c hc hsent
    exact (h.awaited c hc hsent).imp_right fun ⟨t, ht, hawaits⟩ => ⟨t, hperm.mem_iff.mp ht, hawaits⟩

theorem move (h : Orderly state file (t :: rest) issued refused sent out)
    (hsettles : t.settles state = true → t'.settles state = true) (hlogin : t'.comingLogin = true → t.comingLogin = true)
    (hrenewing : t'.renewing = true → t.renewing = true ∨ rest.countP SessionTask.renewing = 0)
    (hcoming : t'.coming = t.coming) (hawaits : ∀ r, t.awaits r = true → t'.awaits r = true) :
    Orderly state file (t' :: rest) issued refused sent out := by
  constructor
  · rcases h.settled with hsame | ⟨u, hu, hsettled⟩
    · exact .inl hsame
    · rcases List.mem_cons.mp hu with rfl | hu
      · exact .inr ⟨t', List.mem_cons_self .., hsettles hsettled⟩
      · exact .inr ⟨u, List.mem_cons_of_mem _ hu, hsettled⟩
  · intro hout
    obtain ⟨hnone, hlogins⟩ := h.gone hout
    refine ⟨hnone, fun u hu => ?_⟩
    rcases List.mem_cons.mp hu with rfl | hu
    · cases hcase : u.comingLogin with
      | false => rfl
      | true =>
        have := hlogins t (List.mem_cons_self ..)
        rw [hlogin hcase] at this
        cases this
    · exact hlogins u (List.mem_cons_of_mem _ hu)
  · have hgate := h.gate
    rw [List.countP_cons] at hgate ⊢
    cases hcase : t'.renewing with
    | false => simp only [Bool.false_eq_true, ↓reduceIte]; omega
    | true =>
      rcases hrenewing hcase with hrenewing | hnone
      · simpa [hrenewing] using hgate
      · simp [hnone]
  · simpa only [List.flatMap_cons, hcoming] using h.distinct
  · simpa only [List.flatMap_cons, hcoming] using h.known
  · exact h.sentKnown
  · simpa only [List.flatMap_cons, hcoming] using h.unsent
  · exact h.once
  · intro c hc hsent
    refine (h.awaited c hc hsent).imp_right fun ⟨u, hu, hawaits'⟩ => ?_
    rcases List.mem_cons.mp hu with rfl | hu
    · exact ⟨t', List.mem_cons_self .., hawaits _ hawaits'⟩
    · exact ⟨u, List.mem_cons_of_mem _ hu, hawaits'⟩

theorem leave (h : Orderly state file (t :: rest) issued refused sent out)
    (hsettles : t.settles state = true → state = file) (hawaits : ∀ r, t.awaits r = true → r ∈ refused) :
    Orderly state file rest issued refused sent out := by
  have hsub : ((state.map (·.refreshToken)).toList ++ rest.flatMap SessionTask.coming).Sublist
      ((state.map (·.refreshToken)).toList ++ (t :: rest).flatMap SessionTask.coming) := by
    rw [List.flatMap_cons]
    exact (List.Sublist.refl _).append (List.sublist_append_right ..)
  constructor
  · rcases h.settled with hsame | ⟨u, hu, hsettled⟩
    · exact .inl hsame
    · rcases List.mem_cons.mp hu with rfl | hu
      · exact .inl (hsettles hsettled)
      · exact .inr ⟨u, hu, hsettled⟩
  · exact fun hout => ⟨(h.gone hout).1, fun u hu => (h.gone hout).2 u (List.mem_cons_of_mem _ hu)⟩
  · have hgate := h.gate
    rw [List.countP_cons] at hgate
    omega
  · exact h.distinct.sublist hsub
  · exact fun r hr => h.known r (hsub.subset hr)
  · exact h.sentKnown
  · exact fun r hr => h.unsent r (by rw [List.flatMap_cons]; exact List.mem_append_right _ hr)
  · exact h.once
  · intro c hc hsent
    rcases h.awaited c hc hsent with hrefused | ⟨u, hu, hawaits'⟩
    · exact .inl hrefused
    rcases List.mem_cons.mp hu with rfl | hu
    · exact .inl (hawaits _ hawaits')
    · exact .inr ⟨u, hu, hawaits'⟩

theorem drop (h : Orderly state file (t :: rest) issued refused sent out) (hsettles : t.settles state = false)
    (hawaits : ∀ r, t.awaits r = false) : Orderly state file rest issued refused sent out :=
  h.leave (fun hs => absurd hs (by simp [hsettles])) fun r hr => absurd hr (by simp [hawaits])

theorem not_awaits (h : Orderly state file (t :: rest) issued refused sent out) (ht : t.renewing = true) :
    ∀ u ∈ rest, ∀ r, u.awaits r = false := by
  have hgate := h.gate
  rw [List.countP_cons, ht] at hgate
  have hzero : rest.countP SessionTask.renewing = 0 := by simp only [↓reduceIte] at hgate; omega
  intro u hu r
  cases hcase : u.awaits r with
  | false => rfl
  | true => exact absurd (SessionTask.renewing_of_awaits hcase) (List.countP_eq_zero.mp hzero u hu)

theorem send (h : Orderly (some c) file (.readRefresh :: rest) issued refused sent out) (hfresh : c.refreshToken ∉ refused) :
    Orderly (some c) file (.refreshing c.refreshToken :: rest) issued refused (sent ++ [c.refreshToken]) out := by
  have hunsent : c.refreshToken ∉ sent := by
    intro hsent
    rcases h.awaited c rfl hsent with hrefused | ⟨u, hu, hawaits⟩
    · exact hfresh hrefused
    · rcases List.mem_cons.mp hu with rfl | hu
      · cases hawaits
      · rw [h.not_awaits rfl u hu] at hawaits
        cases hawaits
  have hmove : Orderly (some c) file (.refreshing c.refreshToken :: rest) issued refused sent out :=
    h.move (fun h => h) (fun h => h) (fun _ => .inl rfl) rfl (fun _ h => by cases h)
  refine { hmove with sentKnown := ?_, unsent := ?_, once := ?_, awaited := ?_ }
  · intro r hr
    rcases List.mem_append.mp hr with hr | hr
    · exact h.sentKnown r hr
    · rw [List.mem_singleton.mp hr]
      exact h.known _ (by simp)
  · intro r hr hsent
    rcases List.mem_append.mp hsent with hsent | hsent
    · exact hmove.unsent r hr hsent
    · -- the state has a token that no task brings
      have hdistinct := hmove.distinct
      rw [List.nodup_append] at hdistinct
      exact hdistinct.2.2 c.refreshToken (by simp) r hr (List.mem_singleton.mp hsent).symm
  · rw [List.nodup_append]
    refine ⟨h.once, List.nodup_singleton _, fun r hr r' hr' heq => hunsent ?_⟩
    rw [← List.mem_singleton.mp hr', ← heq]
    exact hr
  · intro c' hc _
    cases hc
    exact .inr ⟨.refreshing c.refreshToken, List.mem_cons_self .., by simp [SessionTask.awaits]⟩

theorem renewed {r accessToken next : Text} (h : Orderly state file (.refreshing r :: rest) issued refused sent out)
    (hnew : next ∉ issued) :
    Orderly state file (.readEmail accessToken next :: rest) (next :: issued) refused sent out := by
  have hcoming : (SessionTask.readEmail accessToken next :: rest).flatMap SessionTask.coming =
      next :: rest.flatMap SessionTask.coming := rfl
  have hold : (SessionTask.refreshing r :: rest).flatMap SessionTask.coming = rest.flatMap SessionTask.coming := rfl
  have hdistinct := h.distinct
  have hknown := h.known
  rw [hold] at hdistinct hknown
  constructor
  · rcases h.settled with hsame | ⟨u, hu, hsettled⟩
    · exact .inl hsame
    · rcases List.mem_cons.mp hu with rfl | hu
      · cases hsettled
      · exact .inr ⟨u, List.mem_cons_of_mem _ hu, hsettled⟩
  · intro hout
    obtain ⟨hnone, hlogins⟩ := h.gone hout
    exact ⟨hnone, List.forall_mem_cons.mpr ⟨rfl, fun u hu => hlogins u (List.mem_cons_of_mem _ hu)⟩⟩
  · simpa [List.countP_cons, SessionTask.renewing] using h.gate
  · rw [hcoming]
    refine (List.perm_middle.nodup_iff).mpr (List.nodup_cons.mpr ⟨fun hr => hnew (hknown next hr), hdistinct⟩)
  · intro r' hr'
    rw [hcoming] at hr'
    rcases List.mem_cons.mp (List.perm_middle.mem_iff.mp hr') with rfl | hr'
    · exact List.mem_cons_self ..
    · exact List.mem_cons_of_mem _ (hknown r' hr')
  · exact fun r' hr' => List.mem_cons_of_mem _ (h.sentKnown r' hr')
  · intro r' hr' hsent
    rw [hcoming] at hr'
    rcases List.mem_cons.mp hr' with rfl | hr'
    · exact hnew (h.sentKnown _ hsent)
    · exact h.unsent r' hr' hsent
  · exact h.once
  · exact fun c hc hsent => .inr ⟨_, List.mem_cons_self .., rfl⟩

theorem refuse {r : Text} (h : Orderly state file (.refreshing r :: rest) issued refused sent out) :
    Orderly state file rest issued (r :: refused) sent out := by
  have hmore : Orderly state file (.refreshing r :: rest) issued (r :: refused) sent out :=
    { h with awaited := fun c hc hsent => (h.awaited c hc hsent).imp_left (List.mem_cons_of_mem _) }
  refine hmore.leave (fun hsettled => by cases hsettled) fun r' hawaits => ?_
  rw [SessionTask.awaits, decide_eq_true_eq] at hawaits
  rw [← hawaits]
  exact List.mem_cons_self ..

theorem replace {purpose : Purpose} (h : Orderly state file (.replace purpose c :: rest) issued refused sent out)
    (hthere : purpose = .renewal → state ≠ none) :
    Orderly (some c) file (.readState purpose :: rest) issued refused sent out := by
  have hsub : ((some c).map (·.refreshToken)).toList ++ (SessionTask.readState purpose :: rest).flatMap SessionTask.coming =
      (SessionTask.replace purpose c :: rest).flatMap SessionTask.coming := rfl
  constructor
  · exact .inr ⟨_, List.mem_cons_self .., rfl⟩
  · intro hout
    obtain ⟨hnone, hlogins⟩ := h.gone hout
    have hlogin := hlogins _ (List.mem_cons_self ..)
    simp only [SessionTask.comingLogin, decide_eq_false_iff_not, ne_eq, Decidable.not_not] at hlogin
    exact absurd hnone (hthere hlogin)
  · have hgate := h.gate
    rw [List.countP_cons] at hgate ⊢
    exact hgate
  · rw [hsub]
    exact (List.nodup_append.mp h.distinct).2.1
  · intro r hr
    rw [hsub] at hr
    exact h.known r (List.mem_append_right _ hr)
  · exact h.sentKnown
  · intro r hr
    exact h.unsent r (by rw [List.flatMap_cons]; exact List.mem_append_right _ hr)
  · exact h.once
  · intro c' hc hsent
    cases hc
    exact absurd hsent (h.unsent _ (by simp [SessionTask.coming]))

theorem setApiKey {apiKey : Text} (h : Orderly (some c) file (.setApiKey apiKey :: rest) issued refused sent out) :
    Orderly (some { c with apiKey := some apiKey }) file (.readState .apiKey :: rest) issued refused sent out := by
  refine { settled := .inr ⟨_, List.mem_cons_self .., rfl⟩, gone := ?_, gate := ?_, distinct := h.distinct, known := h.known,
           sentKnown := h.sentKnown, unsent := h.unsent, once := h.once, awaited := ?_ }
  · intro hout
    cases (h.gone hout).1
  · simpa [List.countP_cons, SessionTask.renewing] using h.gate
  · intro c' hc hsent
    cases hc
    refine (h.awaited c rfl hsent).imp_right fun ⟨u, hu, hawaits⟩ => ?_
    rcases List.mem_cons.mp hu with rfl | hu
    · cases hawaits
    · exact ⟨u, List.mem_cons_of_mem _ hu, hawaits⟩

theorem forget (h : Orderly state file (.forget :: rest) issued refused sent out) :
    Orderly none file (.removeFile :: rest) issued refused sent out := by
  have hcoming := (List.nodup_append.mp h.distinct).2.1
  refine { settled := .inr ⟨_, List.mem_cons_self .., rfl⟩, gone := ?_, gate := ?_, distinct := ?_, known := ?_,
           sentKnown := h.sentKnown, unsent := h.unsent, once := h.once, awaited := fun c hc => by cases hc }
  · intro hout
    exact ⟨rfl, List.forall_mem_cons.mpr ⟨rfl, fun u hu => (h.gone hout).2 u (List.mem_cons_of_mem _ hu)⟩⟩
  · simpa [List.countP_cons, SessionTask.renewing] using h.gate
  · exact hcoming
  · exact fun r hr => h.known r (List.mem_append_right _ hr)

theorem removeFile (h : Orderly none file (.removeFile :: rest) issued refused sent out)
    (hlogins : ∀ u ∈ rest, u.comingLogin = false) : Orderly none none rest issued refused sent true := by
  have hmore : Orderly none none (.removeFile :: rest) issued refused sent true :=
    { h with settled := .inl rfl, gone := fun _ => ⟨rfl, List.forall_mem_cons.mpr ⟨rfl, hlogins⟩⟩ }
  exact hmore.leave (fun _ => rfl) fun _ hawaits => by cases hawaits

theorem start (h : Orderly state file tasks issued refused sent out) (hidle : t.renewing = false)
    (hcoming : t.coming = []) (hlogin : t.comingLogin = false) :
    Orderly state file (t :: tasks) issued refused sent out := by
  constructor
  · exact h.settled.imp_right fun ⟨u, hu, hsettled⟩ => ⟨u, List.mem_cons_of_mem _ hu, hsettled⟩
  · exact fun hout => ⟨(h.gone hout).1, List.forall_mem_cons.mpr ⟨hlogin, (h.gone hout).2⟩⟩
  · simpa [List.countP_cons, hidle] using h.gate
  · simpa only [List.flatMap_cons, hcoming, List.nil_append] using h.distinct
  · simpa only [List.flatMap_cons, hcoming, List.nil_append] using h.known
  · exact h.sentKnown
  · simpa only [List.flatMap_cons, hcoming, List.nil_append] using h.unsent
  · exact h.once
  · intro c hc hsent
    exact (h.awaited c hc hsent).imp_right fun ⟨u, hu, hawaits⟩ => ⟨u, List.mem_cons_of_mem _ hu, hawaits⟩

theorem saved {purpose : Purpose} (h : Orderly state file (.save purpose c :: rest) issued refused sent out) :
    Orderly state state (.callAgain :: rest) issued refused sent out := by
  have hsame : Orderly state state (.save purpose c :: rest) issued refused sent out := { h with settled := .inl rfl }
  exact (hsame.leave (fun _ => rfl) fun _ hawaits => by cases hawaits).start rfl rfl rfl

theorem startLogin {accessToken refreshToken email : Text} (h : Orderly state file tasks issued refused sent out)
    (hnew : refreshToken ∉ issued) :
    Orderly state file (.readApiKey .login accessToken refreshToken email :: tasks) (refreshToken :: issued) refused sent
      false := by
  have hcoming : (SessionTask.readApiKey .login accessToken refreshToken email :: tasks).flatMap SessionTask.coming =
      refreshToken :: tasks.flatMap SessionTask.coming := rfl
  constructor
  · exact h.settled.imp_right fun ⟨u, hu, hsettled⟩ => ⟨u, List.mem_cons_of_mem _ hu, hsettled⟩
  · intro hout
    cases hout
  · simpa [List.countP_cons, SessionTask.renewing] using h.gate
  · rw [hcoming]
    exact (List.perm_middle.nodup_iff).mpr (List.nodup_cons.mpr ⟨fun hr => hnew (h.known _ hr), h.distinct⟩)
  · intro r hr
    rw [hcoming] at hr
    rcases List.mem_cons.mp (List.perm_middle.mem_iff.mp hr) with rfl | hr
    · exact List.mem_cons_self ..
    · exact List.mem_cons_of_mem _ (h.known r hr)
  · exact fun r hr => List.mem_cons_of_mem _ (h.sentKnown r hr)
  · intro r hr hsent
    rw [hcoming] at hr
    rcases List.mem_cons.mp hr with rfl | hr
    · exact hnew (h.sentKnown _ hsent)
    · exact h.unsent r hr hsent
  · exact h.once
  · intro c hc hsent
    exact (h.awaited c hc hsent).imp_right fun ⟨u, hu, hawaits⟩ => ⟨u, List.mem_cons_of_mem _ hu, hawaits⟩

end Orderly

/-! ## Every interleaving -/

namespace AuthSession

variable {s : AuthSession} {i : Nat} {t t' : SessionTask} {response : Response} {sent : List Text} {out : Bool}

def sentBy : SessionOutcome → List Text
  | .sent refreshToken => [refreshToken]
  | _ => []

def Orders (s : AuthSession) (sent : List Text) (out : Bool) : Prop :=
  Orderly s.state s.file s.tasks s.issued s.refused sent out

theorem tasks_perm (ht : s.tasks[i]? = some t) (t' : SessionTask) :
    (t :: s.tasks.eraseIdx i).Perm s.tasks ∧ (t' :: s.tasks.eraseIdx i).Perm (s.tasks.set i t') := by
  obtain ⟨hi, rfl⟩ := List.getElem?_eq_some_iff.mp ht
  exact ⟨List.getElem_cons_eraseIdx_perm hi, (List.set_perm_cons_eraseIdx hi t').symm⟩

/-- The session after a step, with what the step has sent and whether it was a sign-out. -/
def Advanced (r : AuthSession × SessionOutcome) (sent : List Text) (out : Bool) : Prop :=
  r.1.Orders (sent ++ sentBy r.2) (if r.2 = .signedOut then true else out)

theorem advanced_become (ht : s.tasks[i]? = some t)
    (h : Orderly s.state s.file (t' :: s.tasks.eraseIdx i) s.issued s.refused sent out) :
    Advanced (s.become i t', .moved) sent out := by
  simpa [Advanced, Orders, sentBy, become] using h.perm (tasks_perm ht t').2

theorem advanced_finish (h : Orderly s.state s.file (s.tasks.eraseIdx i) s.issued s.refused sent out) :
    Advanced (s.finish i, .ended) sent out := by
  simpa [Advanced, Orders, sentBy, finish] using h

theorem advanced_afterSave (ht : s.tasks[i]? = some t) (purpose : Purpose)
    (h : Orderly s.state s.file (.callAgain :: s.tasks.eraseIdx i) s.issued s.refused sent out) :
    Advanced (s.afterSave i purpose) sent out := by
  cases purpose with
  | renewal => exact advanced_become ht h
  | login | apiKey => exact advanced_finish (h.drop rfl fun _ => rfl)

theorem advance_advanced (ht : s.tasks[i]? = some t) (hfinds : s.finds response t = true) (h : s.Orders sent out) :
    Advanced (s.advance i response t) sent out := by
  have hcons : Orderly s.state s.file (t :: s.tasks.eraseIdx i) s.issued s.refused sent out := h.perm (tasks_perm ht t).1.symm
  cases t with
  | readAccess =>
    cases hstate : s.state with
    | some state =>
      simp only [advance, hstate]
      exact advanced_become ht (hcons.move (fun h => by cases h) (fun h => by cases h) (fun h => by cases h) rfl
        fun _ h => by cases h)
    | none =>
      simp only [advance, hstate]
      exact advanced_finish (hcons.drop rfl fun _ => rfl)
  | calling accessToken =>
    cases response with
    | sessionExpired =>
      exact advanced_become ht (hcons.move (fun h => by cases h) (fun h => by cases h) (fun h => by cases h) rfl
        fun _ h => by cases h)
    | ok | failed | renewed _ _ => exact advanced_finish (hcons.drop rfl fun _ => rfl)
  | expired stale =>
    simp only [advance]
    split
    · simpa [Advanced, sentBy] using h
    · rename_i hfree
      refine advanced_become ht (hcons.move (fun h => by cases h) (fun h => by cases h) (fun _ => .inr ?_) rfl
        fun _ h => by cases h)
      rw [List.countP_eq_zero]
      intro u hu hrenewing
      exact hfree (List.any_eq_true.mpr ⟨u, List.mem_of_mem_eraseIdx hu, hrenewing⟩)
  | readAgain stale =>
    cases hstate : s.state with
    | some state =>
      simp only [advance, hstate]
      refine advanced_become ht ?_
      split
      · exact hcons.move (fun h => by cases h) (fun h => by cases h) (fun _ => .inl rfl) rfl fun _ h => by cases h
      · exact hcons.move (fun h => by cases h) (fun h => by cases h) (fun h => by cases h) rfl fun _ h => by cases h
    | none =>
      simp only [advance, hstate]
      exact advanced_finish (hcons.drop rfl fun _ => rfl)
  | readRefresh =>
    cases hstate : s.state with
    | some state =>
      rw [hstate] at hcons
      simp only [finds, hstate, decide_eq_true_eq] at hfinds
      have hsend := (hcons.send hfinds).perm (tasks_perm ht (.refreshing state.refreshToken)).2
      simp only [advance, hstate]
      simpa [Advanced, Orders, sentBy, become, hstate] using hsend
    | none =>
      simp only [advance, hstate]
      exact advanced_finish (hcons.drop rfl fun _ => rfl)
  | refreshing refreshToken =>
    cases response with
    | renewed accessToken next =>
      simp only [finds, decide_eq_true_eq] at hfinds
      have hrenewed : Orderly s.state s.file (s.tasks.set i (.readEmail accessToken next)) (next :: s.issued) s.refused sent out :=
        (hcons.renewed hfinds).perm (tasks_perm ht _).2
      simpa [advance, Advanced, Orders, sentBy, become] using hrenewed
    | ok | failed | sessionExpired =>
      simpa [advance, Advanced, Orders, sentBy, finish] using hcons.refuse
  | readEmail accessToken refreshToken =>
    exact advanced_become ht (hcons.move (fun h => by cases h) (fun h => by cases h) (fun _ => .inl rfl) rfl
      fun _ _ => rfl)
  | readApiKey purpose accessToken refreshToken email =>
    exact advanced_become ht (hcons.move (fun h => by cases h) (fun h => h) (fun h => .inl h) rfl fun _ h => h)
  | replace purpose credentials =>
    have hthere : purpose = .renewal → s.state ≠ none := by
      rintro rfl hnone
      simp [finds, hnone] at hfinds
    have hreplace := (hcons.replace hthere).perm (tasks_perm ht (.readState purpose)).2
    simpa [advance, Advanced, Orders, sentBy, become] using hreplace
  | readState purpose =>
    cases hstate : s.state with
    | some state =>
      simp only [advance, hstate]
      refine advanced_become ht (hcons.move (fun _ => ?_) (fun h => by cases h) (fun h => .inl h) rfl fun _ h => by cases h)
      simp [SessionTask.settles, hstate]
    | none =>
      simp only [advance, hstate]
      refine advanced_afterSave ht purpose (hcons.move (fun h => ?_) (fun h => by cases h) (fun h => by cases h) rfl
        fun _ h => by cases h)
      simp [SessionTask.settles, hstate] at h
  | save purpose credentials =>
    simp only [finds, decide_eq_true_eq] at hfinds
    have hsaved := hcons.saved
    rw [hfinds] at hsaved
    refine advanced_afterSave (s := { s with file := some credentials }) ht purpose ?_
    simpa only [hfinds] using hsaved
  | callAgain => exact advanced_finish (hcons.drop rfl fun _ => rfl)
  | setApiKey apiKey =>
    cases hstate : s.state with
    | some state =>
      rw [hstate] at hcons
      have hset := (hcons.setApiKey).perm (tasks_perm ht (.readState .apiKey)).2
      simp only [advance, hstate]
      simpa [Advanced, Orders, sentBy, become] using hset
    | none =>
      simp only [advance, hstate]
      exact advanced_finish (hcons.drop rfl fun _ => rfl)
  | forget =>
    have hforget := hcons.forget.perm (tasks_perm ht .removeFile).2
    simpa [advance, Advanced, Orders, sentBy, become] using hforget
  | removeFile =>
    simp only [finds, Bool.and_eq_true, decide_eq_true_eq, List.all_eq_true, Bool.not_eq_true'] at hfinds
    obtain ⟨hstate, hlogins⟩ := hfinds
    rw [hstate] at hcons
    have hremoved := hcons.removeFile fun u hu => hlogins u (List.mem_of_mem_eraseIdx hu)
    simpa [advance, Advanced, Orders, sentBy, finish, hstate] using hremoved

theorem sentToken_entry (s : AuthSession) (turn : SessionTurn) :
    [authMachine.entry s turn].filterMap sentToken = sentBy (s.step turn).2 := by
  simp only [List.filterMap_cons, List.filterMap_nil, Machine.entry, sentToken, authMachine]
  cases (s.step turn).2 <;> rfl

theorem signedOut_start {past : List AuthEntry} {call : SessionCall}
    (hcall : ∀ accessToken refreshToken email, call ≠ .adoptTokens accessToken refreshToken email) :
    signedOut (past ++ [authMachine.entry s (.start call)]) = signedOut past := by
  simp only [signedOut, List.foldl_append, List.foldl_cons, List.foldl_nil, Machine.entry, authMachine, step]
  cases call with
  | adoptTokens accessToken refreshToken email => exact absurd rfl (hcall accessToken refreshToken email)
  | withAccessToken | setApiKey apiKey | clear => rfl

theorem step_orders {past : List AuthEntry} {turn : SessionTurn} (hturn : s.undisturbed turn = true)
    (h : s.Orders (past.filterMap sentToken) (signedOut past)) :
    (s.step turn).1.Orders ((past ++ [authMachine.entry s turn]).filterMap sentToken)
      (signedOut (past ++ [authMachine.entry s turn])) := by
  rw [List.filterMap_append, sentToken_entry]
  cases turn with
  | start call =>
    simp only [sentBy, step, List.append_nil]
    have hend : ∀ t, (t :: s.tasks).Perm (s.tasks ++ [t]) := fun t => (List.perm_append_singleton t s.tasks).symm
    cases call with
    | adoptTokens accessToken refreshToken email =>
      simp only [undisturbed, decide_eq_true_eq] at hturn
      have hout : signedOut (past ++ [authMachine.entry s (.start (.adoptTokens accessToken refreshToken email))]) = false := by
        simp [signedOut, Machine.entry, authMachine, step]
      rw [hout]
      exact (h.startLogin hturn).perm (hend _)
    | withAccessToken =>
      rw [signedOut_start (by simp)]
      exact (h.start rfl rfl rfl).perm (hend .readAccess)
    | setApiKey apiKey =>
      rw [signedOut_start (by simp)]
      exact (h.start rfl rfl rfl).perm (hend (.setApiKey apiKey))
    | clear =>
      rw [signedOut_start (by simp)]
      exact (h.start rfl rfl rfl).perm (hend .forget)
  | advance i response =>
    have hout : signedOut (past ++ [authMachine.entry s (.advance i response)]) =
        if (s.step (.advance i response)).2 = .signedOut then true else signedOut past := by
      simp only [signedOut, List.foldl_append, List.foldl_cons, List.foldl_nil, Machine.entry, authMachine]
      cases (s.step (.advance i response)).2 <;> rfl
    rw [hout]
    cases ht : s.tasks[i]? with
    | none => simpa [step, ht, sentBy] using h
    | some t =>
      simp only [undisturbed, ht] at hturn
      simp only [step, ht]
      exact advance_advanced ht hturn h

theorem afterSave_same (s : AuthSession) (i : Nat) (purpose : Purpose) :
    (s.afterSave i purpose).1.state = s.state ∧ (s.afterSave i purpose).1.file = s.file := by
  cases purpose <;> exact ⟨rfl, rfl⟩

theorem step_keepsApiKey {turn : SessionTurn} (hturn : s.undisturbed turn = true) :
    keepsApiKey (authMachine.entry s turn) := by
  intro task htask hcalls
  cases turn with
  | start call => cases htask
  | advance i response =>
    have ht : s.tasks[i]? = some task := htask
    simp only [undisturbed, ht] at hturn
    have hsame : ∀ r : AuthSession × SessionOutcome, r.1.state = s.state ∧ r.1.file = s.file →
        (∀ key, s.state.bind (·.apiKey) = some key → r.1.state.bind (·.apiKey) = some key) ∧
          (r.1.file = s.file ∨ r.1.file = r.1.state) := by
      rintro r ⟨hstate, hfile⟩
      rw [hstate]
      exact ⟨fun _ h => h, .inl hfile⟩
    simp only [Machine.entry, authMachine, step, ht]
    cases task with
    | replace purpose credentials =>
      simp only [SessionTask.calls, SessionTask.renewing, decide_eq_true_eq] at hcalls
      subst hcalls
      simp only [finds, decide_eq_true_eq] at hturn
      obtain ⟨state, hstate, hkey⟩ := Option.map_eq_some_iff.mp hturn
      simp only [hstate, advance, Option.bind_some, hkey]
      exact ⟨fun _ h => h, .inl rfl⟩
    | save purpose credentials =>
      simp only [finds, decide_eq_true_eq] at hturn
      obtain ⟨hstate, hfile⟩ := afterSave_same { s with file := some credentials } i purpose
      simp only [advance, hstate, hfile]
      exact ⟨fun _ h => h, .inr hturn.symm⟩
    | readState purpose =>
      refine hsame _ ?_
      simp only [advance]
      split
      · exact ⟨rfl, rfl⟩
      · exact afterSave_same s i purpose
    | setApiKey apiKey => cases hcalls
    | forget => cases hcalls
    | removeFile => cases hcalls
    | refreshing refreshToken =>
      refine hsame _ ?_
      cases response <;> exact ⟨rfl, rfl⟩
    | calling accessToken =>
      refine hsame _ ?_
      cases response <;> exact ⟨rfl, rfl⟩
    | expired stale =>
      refine hsame _ ?_
      simp only [advance]
      split <;> exact ⟨rfl, rfl⟩
    | readAccess | readAgain stale | readRefresh =>
      refine hsame _ ?_
      cases hstate : s.state <;> simp [advance, hstate, become, finish]
    | readEmail accessToken refreshToken | readApiKey purpose accessToken refreshToken email | callAgain =>
      exact hsame _ ⟨rfl, rfl⟩

theorem new_orders (file : Option StoredCredentials) : (new file).Orders [] false := by
  refine ⟨.inl rfl, nofun, Nat.zero_le _, ?_, ?_, nofun, nofun, List.nodup_nil, fun c _ hsent => nomatch hsent⟩
  · cases file <;> simp [new]
  · cases file <;> simp [new]

end AuthSession

/-- As long as no step is disturbed, the session is kept. -/
theorem session_kept (file : Option StoredCredentials) (turns : List SessionTurn)
    (hturns : authMachine.Meets (fun s turn => s.undisturbed turn = true) (.new file) turns) :
    SessionKept (authMachine.log (.new file) turns) (authMachine.run (.new file) turns) := by
  obtain ⟨horders, hkeys⟩ := Machine.invariant (M := authMachine)
    (I := fun s log => s.Orders (log.filterMap sentToken) (signedOut log) ∧ ∀ e ∈ log, keepsApiKey e) (fun s past turn hturn hs =>
      ⟨AuthSession.step_orders hturn hs.1, fun e he => by
        rcases List.mem_append.mp he with he | he
        · exact hs.2 e he
        · rw [List.mem_singleton.mp he]
          exact AuthSession.step_keepsApiKey hturn⟩)
    hturns ⟨AuthSession.new_orders file, fun e he => absurd he List.not_mem_nil⟩
  have hagree : (authMachine.run (.new file) turns).tasks = [] →
      (authMachine.run (.new file) turns).state = (authMachine.run (.new file) turns).file := by
    intro htasks
    rcases horders.settled with hsame | ⟨t, ht, -⟩
    · exact hsame
    · rw [htasks] at ht
      cases ht
  refine ⟨hagree, fun hout htasks => ?_, hkeys, horders.once⟩
  have hnone := (horders.gone hout).1
  exact ⟨hnone, (hagree htasks).symm.trans hnone⟩

/-! ## A renewal that is disturbed -/

def sampleCredentials : StoredCredentials := ⟨"a".toList, "r".toList, none, "u@x".toList⟩

/-- A call renews its token; other operations run through after the refresh token was sent. -/
def renewalAround (between : List SessionTurn) : List SessionTurn :=
  ([.start .withAccessToken, .advance 0 .ok, .advance 0 .sessionExpired, .advance 0 .ok, .advance 0 .ok,
      .advance 0 .ok] : List SessionTurn) ++
    between ++ (.advance 0 (.renewed "b".toList "s".toList) :: List.replicate 6 (.advance 0 .ok) : List SessionTurn)

def storeApiKey : List SessionTurn := .start (.setApiKey "k".toList) :: List.replicate 3 (.advance 1 .ok)

def signOut : List SessionTurn := .start .clear :: List.replicate 2 (.advance 1 .ok)

theorem session_kept_around_setApiKey :
    SessionKept (authMachine.log (.new (some sampleCredentials)) (renewalAround storeApiKey))
      (authMachine.run (.new (some sampleCredentials)) (renewalAround storeApiKey)) :=
  session_kept _ _ (by decide +kernel)

/-- A renewal under way brings back what a sign-out has removed. -/
theorem renewal_undoes_signOut :
    ¬ SessionKept (authMachine.log (.new (some sampleCredentials)) (renewalAround signOut))
      (authMachine.run (.new (some sampleCredentials)) (renewalAround signOut)) :=
  fun h => absurd (h.final (by decide +kernel) (by decide +kernel)) (by decide +kernel)

example : (authMachine.run (.new (some sampleCredentials)) (renewalAround signOut)).file =
    some ⟨"b".toList, "s".toList, none, []⟩ := by
  decide +kernel

end Lumio.Desktop
