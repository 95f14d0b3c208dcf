import Lumio.Lib.Machine
import Mathlib.Data.List.Perm.Basic

/-!
# Transactions side by side

A transaction is a program of statements on a shared state. A statement sees what is committed and what its own
transaction has written. It locks the rows it writes, and waits while another transaction holds one of them. What a
transaction has written reaches the others when it commits.
-/

/-- What is left of a transaction. A statement is a function of what it sees; the answer to a request comes from
outside. -/
inductive Tx (σ κ ω ε δ ρ : Type) where
  | statement (locks : σ → List κ) (writes : σ → List ω) (next : σ → Tx σ κ ω ε δ ρ)
  | ask (request : ε) (next : δ → Tx σ κ ω ε δ ρ)
  | commit (answer : ρ)
  | rollback (answer : ρ)

/-- What a write does, and the rows and the entries of unique indexes that it occupies. -/
structure RowStore (σ κ ω : Type) where
  apply : σ → ω → σ
  rows : ω → List κ

structure Tx.Done (κ ω ε δ : Type) where
  locked : List κ
  writes : List ω
  asked : List (ε × δ)

namespace Tx

variable {σ κ ω ε δ ρ ι : Type}

structure Running (σ κ ω ε δ ρ ι : Type) where
  call : ι
  since : σ
  done : Done κ ω ε δ
  rest : Tx σ κ ω ε δ ρ

structure Shared (σ κ ω ε δ ρ ι : Type) where
  committed : σ
  running : List (Running σ κ ω ε δ ρ ι)

/-- What happens next: a call starts, the transaction at a position moves on, or the database gives it up. -/
inductive Turn (δ ι : Type) where
  | start (call : ι)
  | advance (i : Nat) (response : δ)
  | abort (i : Nat)

inductive Outcome (σ κ ω ε δ ρ ι : Type) where
  | moved
  | waits
  | asked (t : Running σ κ ω ε δ ρ ι) (request : ε) (response : δ)
  | committed (t : Running σ κ ω ε δ ρ ι) (answer : ρ)
  | rolledBack (t : Running σ κ ω ε δ ρ ι) (answer : ρ)
  | aborted (t : Running σ κ ω ε δ ρ ι)

end Tx

namespace Tx

variable {σ κ ω ε δ ρ α : Type}

def query (read : σ → α) (next : α → Tx σ κ ω ε δ ρ) : Tx σ κ ω ε δ ρ :=
  .statement (fun _ => []) (fun _ => []) fun seen => next (read seen)

def lock (row : κ) (read : σ → α) (next : α → Tx σ κ ω ε δ ρ) : Tx σ κ ω ε δ ρ :=
  .statement (fun _ => [row]) (fun _ => []) fun seen => next (read seen)

/-- An update goes on with the number of rows it has changed. -/
def exec (writes : σ → List ω) (next : Nat → Tx σ κ ω ε δ ρ) : Tx σ κ ω ε δ ρ :=
  .statement (fun _ => []) writes fun seen => next (writes seen).length

/-- An insertion waits for the keys it needs, and fails if one of them is there. -/
def insert (keys : List κ) (present : σ → Bool) (write : ω) (next : Bool → Tx σ κ ω ε δ ρ) : Tx σ κ ω ε δ ρ :=
  .statement (fun _ => keys) (fun seen => if present seen then [] else [write]) fun seen => next (!present seen)

end Tx

namespace Tx.Done

variable {κ ω ε δ : Type}

def nothing : Done κ ω ε δ := ⟨[], [], []⟩

def wrote (d : Done κ ω ε δ) (locks : List κ) (writes : List ω) : Done κ ω ε δ :=
  { d with locked := d.locked ++ locks, writes := d.writes ++ writes }

def holding (d : Done κ ω ε δ) (locks : List κ) : Done κ ω ε δ := { d with locked := d.locked ++ locks }

def exchanged (d : Done κ ω ε δ) (request : ε) (response : δ) : Done κ ω ε δ :=
  { d with asked := d.asked ++ [(request, response)] }

/-- More writes and more locks, and nothing asked. -/
structure Grown (d d' : Done κ ω ε δ) (more : List ω) : Prop where
  writes : d'.writes = d.writes ++ more
  asked : d'.asked = d.asked
  locked : ∀ k ∈ d.locked, k ∈ d'.locked

theorem Grown.holding (d : Done κ ω ε δ) (locks : List κ) : Grown d (d.holding locks) [] :=
  ⟨by simp [Done.holding], rfl, fun k hk => by simp [Done.holding, hk]⟩

theorem Grown.wrote (d : Done κ ω ε δ) (locks : List κ) (writes : List ω) : Grown d (d.wrote locks writes) writes :=
  ⟨rfl, rfl, fun k hk => by simp [Done.wrote, hk]⟩

theorem Grown.trans {d d' d'' : Done κ ω ε δ} {more more' : List ω} (h : Grown d d' more) (h' : Grown d' d'' more') :
    Grown d d'' (more ++ more') :=
  ⟨by rw [h'.writes, h.writes, List.append_assoc], h'.asked.trans h.asked, fun k hk => h'.locked k (h.locked k hk)⟩

end Tx.Done

namespace RowStore

open Tx

variable {σ κ ω ε δ ρ ι : Type} (D : RowStore σ κ ω)

def view (committed : σ) (writes : List ω) : σ := writes.foldl D.apply committed

/-- The rows that a statement needs: those it asks for and those it writes. -/
def taken (locks : σ → List κ) (writes : σ → List ω) (seen : σ) : List κ := locks seen ++ (writes seen).flatMap D.rows

section Step

variable [DecidableEq κ]

def advance (s : Shared σ κ ω ε δ ρ ι) (i : Nat) (response : δ) : Shared σ κ ω ε δ ρ ι × Outcome σ κ ω ε δ ρ ι :=
  match s.running[i]? with
  | none => (s, .waits)
  | some t =>
    match t.rest with
    | .statement locks writes next =>
      if ∃ other ∈ s.running.eraseIdx i,
          ∃ k ∈ D.taken locks writes (D.view s.committed t.done.writes), k ∈ other.done.locked then (s, .waits)
      else
        ({ s with running := s.running.set i { t with
            done := t.done.wrote (D.taken locks writes (D.view s.committed t.done.writes))
              (writes (D.view s.committed t.done.writes))
            rest := next (D.view s.committed t.done.writes) } }, .moved)
    | .ask request next =>
      ({ s with running := s.running.set i { t with done := t.done.exchanged request response, rest := next response } },
        .asked t request response)
    | .commit answer =>
      (⟨D.view s.committed t.done.writes, s.running.eraseIdx i⟩, .committed t answer)
    | .rollback answer => ({ s with running := s.running.eraseIdx i }, .rolledBack t answer)

/-- The transactions of calls, interleaved statement by statement. -/
def interleaved (program : ι → Tx σ κ ω ε δ ρ) : Machine (Shared σ κ ω ε δ ρ ι) (Turn δ ι) (Outcome σ κ ω ε δ ρ ι) where
  step s
    | .start call => ({ s with running := s.running ++ [⟨call, s.committed, .nothing, program call⟩] }, .moved)
    | .advance i response => D.advance s i response
    | .abort i =>
      match s.running[i]? with
      | none => (s, .waits)
      | some t => ({ s with running := s.running.eraseIdx i }, .aborted t)

end Step

/-! ## Rely and guarantee -/

/-- What calls promise each other. While a transaction holds locks, the others change what is committed only as `Rely`
allows; a transaction that commits, gives up or asks something does so with its postcondition. -/
structure Contract (σ κ ω ε δ ρ ι : Type) where
  Inv : σ → Prop
  Rely : List κ → σ → σ → Prop
  Commits : ι → σ → σ → Done κ ω ε δ → ρ → Prop
  RollsBack : ι → σ → σ → Done κ ω ε δ → ρ → Prop
  Asks : ι → σ → σ → Done κ ω ε δ → ε → δ → Prop

variable (C : Contract σ κ ω ε δ ρ ι)

/-- A rest of a transaction is safe if it ends as promised, whatever the others do between its statements. -/
def Safe (call : ι) (since : σ) : Tx σ κ ω ε δ ρ → σ → Done κ ω ε δ → Prop
  | .statement locks writes next, c, d => ∀ c', C.Inv c' → C.Rely d.locked c c' →
      Safe call since (next (D.view c' d.writes)) c'
        (d.wrote (D.taken locks writes (D.view c' d.writes)) (writes (D.view c' d.writes)))
  | .ask request next, c, d => ∀ c' response, C.Inv c' → C.Rely d.locked c c' →
      C.Asks call since c' d request response ∧ Safe call since (next response) c' (d.exchanged request response)
  | .commit answer, c, d => ∀ c', C.Inv c' → C.Rely d.locked c c' → C.Commits call since c' d answer
  | .rollback answer, c, d => ∀ c', C.Inv c' → C.Rely d.locked c c' → C.RollsBack call since c' d answer

variable {c since : σ} {call : ι} {d : Done κ ω ε δ}

theorem safe_query {α : Type} {read : σ → α} {next : α → Tx σ κ ω ε δ ρ} (h : ∀ c', C.Inv c' → C.Rely d.locked c c' →
      D.Safe C call since (next (read (D.view c' d.writes))) c' d) : D.Safe C call since (.query read next) c d := by
  intro c' hinv hrely
  simpa [Tx.query, taken, Done.wrote] using h c' hinv hrely

theorem safe_exec {writes : σ → List ω} {next : Nat → Tx σ κ ω ε δ ρ}
    (h : ∀ c' ws, C.Inv c' → C.Rely d.locked c c' → writes (D.view c' d.writes) = ws →
      D.Safe C call since (next ws.length) c' (d.wrote (ws.flatMap D.rows) ws)) :
    D.Safe C call since (.exec writes next) c d := by
  intro c' hinv hrely
  exact h c' _ hinv hrely rfl

theorem safe_lock {α : Type} {row : κ} {read : σ → α} {next : α → Tx σ κ ω ε δ ρ}
    (h : ∀ c', C.Inv c' → C.Rely d.locked c c' →
      D.Safe C call since (next (read (D.view c' d.writes))) c' (d.holding [row])) :
    D.Safe C call since (.lock row read next) c d := by
  intro c' hinv hrely
  simpa [taken, Done.wrote, Done.holding] using h c' hinv hrely

theorem safe_insert {keys : List κ} {present : σ → Bool} {write : ω} {next : Bool → Tx σ κ ω ε δ ρ}
    (hpresent : ∀ c', C.Inv c' → C.Rely d.locked c c' → present (D.view c' d.writes) = true →
      D.Safe C call since (next false) c' (d.holding keys))
    (habsent : ∀ c', C.Inv c' → C.Rely d.locked c c' → present (D.view c' d.writes) = false →
      D.Safe C call since (next true) c' (d.wrote (keys ++ D.rows write) [write])) :
    D.Safe C call since (.insert keys present write next) c d := by
  intro c' hinv hrely
  cases h : present (D.view c' d.writes) with
  | true => simpa [h, taken, Done.wrote, Done.holding] using hpresent c' hinv hrely h
  | false => simpa [h, taken] using habsent c' hinv hrely h

/-- The programs keep the contract. -/
structure Keeps (program : ι → Tx σ κ ω ε δ ρ) : Prop where
  refl : ∀ locked c, C.Inv c → C.Rely locked c c
  trans : ∀ {locked a b c}, C.Rely locked a b → C.Rely locked b c → C.Rely locked a c
  inv : ∀ {call since c d answer}, C.Inv c → C.Commits call since c d answer → C.Inv (D.view c d.writes)
  guarantee : ∀ {call since c d answer locked}, C.Inv c → C.Commits call since c d answer →
    (∀ w ∈ d.writes, ∀ k ∈ D.rows w, k ∈ d.locked) → (∀ k ∈ d.locked, k ∉ locked) → C.Rely locked c (D.view c d.writes)
  safe : ∀ call c, C.Inv c → D.Safe C call c (program call) c .nothing

/-- What holds of all transactions together. -/
structure Sound (s : Shared σ κ ω ε δ ρ ι) : Prop where
  inv : C.Inv s.committed
  safe : ∀ t ∈ s.running, D.Safe C t.call t.since t.rest s.committed t.done
  rows : ∀ t ∈ s.running, ∀ w ∈ t.done.writes, ∀ k ∈ D.rows w, k ∈ t.done.locked
  apart : s.running.Pairwise fun a b => ∀ k ∈ a.done.locked, k ∉ b.done.locked

def Contract.Promised (c : σ) : Outcome σ κ ω ε δ ρ ι → Prop
  | .moved => True
  | .waits => True
  | .asked t request response => C.Asks t.call t.since c t.done request response
  | .committed t answer => C.Commits t.call t.since c t.done answer
  | .rolledBack t answer => C.RollsBack t.call t.since c t.done answer
  | .aborted _ => True

def after (c : σ) : Outcome σ κ ω ε δ ρ ι → σ
  | .committed t _ => D.view c t.done.writes
  | _ => c

section Sound

variable {D C} {program : ι → Tx σ κ ω ε δ ρ} {call : ι} {since c c' : σ} {d : Done κ ω ε δ}
  {s : Shared σ κ ω ε δ ρ ι} {t : Running σ κ ω ε δ ρ ι} {i : Nat}

theorem Safe.rely (hk : D.Keeps C program) {rest : Tx σ κ ω ε δ ρ} (h : D.Safe C call since rest c d)
    (hrely : C.Rely d.locked c c') : D.Safe C call since rest c' d := by
  cases rest with
  | statement locks writes next =>
    intro c'' hinv hrely'
    exact h c'' hinv (hk.trans hrely hrely')
  | ask request next =>
    intro c'' response hinv hrely'
    exact h c'' response hinv (hk.trans hrely hrely')
  | commit answer =>
    intro c'' hinv hrely'
    exact h c'' hinv (hk.trans hrely hrely')
  | rollback answer =>
    intro c'' hinv hrely'
    exact h c'' hinv (hk.trans hrely hrely')

theorem Sound.split (h : D.Sound C s) (ht : s.running[i]? = some t) : t ∈ s.running ∧
    (∀ other ∈ s.running.eraseIdx i, ∀ k ∈ t.done.locked, k ∉ other.done.locked) ∧
    (s.running.eraseIdx i).Pairwise fun a b => ∀ k ∈ a.done.locked, k ∉ b.done.locked := by
  obtain ⟨hi, rfl⟩ := List.getElem?_eq_some_iff.mp ht
  have hperm := List.getElem_cons_eraseIdx_perm hi
  have hpair := (hperm.pairwise_iff fun hab k hb ha => hab k ha hb).mpr h.apart
  obtain ⟨hhead, htail⟩ := List.pairwise_cons.mp hpair
  exact ⟨List.getElem_mem hi, hhead, htail⟩

theorem Sound.holder (h : D.Sound C s) (ht : s.running[i]? = some t) {other : Running σ κ ω ε δ ρ ι}
    (hother : other ∈ s.running) {k : κ} (hk : k ∈ t.done.locked) (hk' : k ∈ other.done.locked) : other = t := by
  obtain ⟨hi, rfl⟩ := List.getElem?_eq_some_iff.mp ht
  rcases List.mem_cons.mp ((List.getElem_cons_eraseIdx_perm hi).mem_iff.mpr hother) with rfl | hmem
  · rfl
  · exact absurd hk' ((h.split ht).2.1 other hmem k hk)

theorem Sound.erase (h : D.Sound C s) (ht : s.running[i]? = some t) :
    D.Sound C { s with running := s.running.eraseIdx i } := by
  constructor
  · exact h.inv
  · intro other hother
    exact h.safe other (List.mem_of_mem_eraseIdx hother)
  · intro other hother
    exact h.rows other (List.mem_of_mem_eraseIdx hother)
  · exact (h.split ht).2.2

theorem Sound.set (h : D.Sound C s) (ht : s.running[i]? = some t) {t' : Running σ κ ω ε δ ρ ι}
    (hsafe : D.Safe C t'.call t'.since t'.rest s.committed t'.done) (hrows : ∀ w ∈ t'.done.writes, ∀ k ∈ D.rows w, k ∈ t'.done.locked)
    (hfree : ∀ other ∈ s.running.eraseIdx i, ∀ k ∈ t'.done.locked, k ∉ other.done.locked) :
    D.Sound C { s with running := s.running.set i t' } := by
  have hpair := (h.split ht).2.2
  obtain ⟨hi, -⟩ := List.getElem?_eq_some_iff.mp ht
  have hperm := List.set_perm_cons_eraseIdx hi t'
  have hmem : ∀ other ∈ s.running.set i t', other = t' ∨ other ∈ s.running.eraseIdx i := fun other hother =>
    List.mem_cons.mp (hperm.mem_iff.mp hother)
  constructor
  · exact h.inv
  · intro other hother
    rcases hmem other hother with rfl | hother
    · exact hsafe
    · exact h.safe other (List.mem_of_mem_eraseIdx hother)
  · intro other hother
    rcases hmem other hother with rfl | hother
    · exact hrows
    · exact h.rows other (List.mem_of_mem_eraseIdx hother)
  · exact (hperm.pairwise_iff fun hab k hb ha => hab k ha hb).mpr (List.pairwise_cons.mpr ⟨hfree, hpair⟩)

/-- A transaction comes to its end, by its own turns alone. -/
def Ends (M : Machine (Shared σ κ ω ε δ ρ ι) (Turn δ ι) (Outcome σ κ ω ε δ ρ ι)) (c : σ) (response : δ)
    (t : Running σ κ ω ε δ ρ ι) : Prop :=
  ∃ n, ∃ e ∈ M.log ⟨c, [t]⟩ (List.replicate n (.advance 0 response)), ∃ t' answer, t'.call = t.call ∧ t'.since = t.since ∧
    (e.answer = .committed t' answer ∨ e.answer = .rolledBack t' answer)

theorem Ends.step {M : Machine (Shared σ κ ω ε δ ρ ι) (Turn δ ι) (Outcome σ κ ω ε δ ρ ι)} {response : δ}
    {t u : Running σ κ ω ε δ ρ ι} (hnext : (M.step ⟨c, [t]⟩ (.advance 0 response)).1 = ⟨c, [u]⟩)
    (hcall : u.call = t.call) (hsince : u.since = t.since) (h : Ends M c response u) : Ends M c response t := by
  obtain ⟨n, e, he, t', answer, hcall', hsince', hanswer⟩ := h
  refine ⟨n + 1, e, ?_, t', answer, hcall'.trans hcall, hsince'.trans hsince, hanswer⟩
  rw [List.replicate_succ, Machine.log, hnext]
  exact List.mem_cons_of_mem _ he

variable [DecidableEq κ]

theorem advance_sound (hk : D.Keeps C program) (h : D.Sound C s) (response : δ) :
    D.Sound C (D.advance s i response).1 ∧ C.Promised s.committed (D.advance s i response).2 := by
  unfold advance
  split
  · exact ⟨h, trivial⟩
  · rename_i t ht
    obtain ⟨hmem, hapart, -⟩ := h.split ht
    have hsafe := h.safe t hmem
    have hrows := h.rows t hmem
    have hrefl := hk.refl t.done.locked s.committed h.inv
    split
    · rename_i locks writes next hrest
      split
      · exact ⟨h, trivial⟩
      · rename_i hfree
        rw [hrest] at hsafe
        refine ⟨h.set ht (hsafe s.committed h.inv hrefl) ?_ ?_, trivial⟩
        · intro w hw k hk
          simp only [Done.wrote, taken, List.mem_append] at hw ⊢
          rcases hw with hw | hw
          · exact .inl (hrows w hw k hk)
          · exact .inr (.inr (List.mem_flatMap.mpr ⟨w, hw, hk⟩))
        · intro other hother k hk hlocked
          rcases List.mem_append.mp hk with hk | hk
          · exact hapart other hother k hk hlocked
          · exact hfree ⟨other, hother, k, hk, hlocked⟩
    · rename_i request next hrest
      rw [hrest] at hsafe
      obtain ⟨hasks, hnext⟩ := hsafe s.committed response h.inv hrefl
      exact ⟨h.set ht hnext hrows hapart, hasks⟩
    · rename_i answer hrest
      rw [hrest] at hsafe
      have hcommits := hsafe s.committed h.inv hrefl
      have herased := h.erase ht
      refine ⟨⟨hk.inv h.inv hcommits, ?_, herased.rows, herased.apart⟩, hcommits⟩
      intro other hother
      exact (herased.safe other hother).rely hk (hk.guarantee h.inv hcommits hrows (hapart other hother))
    · rename_i answer hrest
      rw [hrest] at hsafe
      exact ⟨h.erase ht, hsafe s.committed h.inv hrefl⟩

theorem step_sound (hk : D.Keeps C program) (h : D.Sound C s) (turn : Turn δ ι) :
    D.Sound C ((D.interleaved program).step s turn).1 ∧
      C.Promised s.committed ((D.interleaved program).step s turn).2 := by
  cases turn with
  | start call =>
    refine ⟨⟨h.inv, ?_, ?_, ?_⟩, trivial⟩
    · intro t ht
      rcases List.mem_append.mp ht with ht | ht
      · exact h.safe t ht
      · rw [List.mem_singleton.mp ht]
        exact hk.safe call s.committed h.inv
    · intro t ht
      rcases List.mem_append.mp ht with ht | ht
      · exact h.rows t ht
      · rw [List.mem_singleton.mp ht]
        simp [Done.nothing]
    · refine List.pairwise_append.mpr ⟨h.apart, List.pairwise_singleton _ _, fun a _ b hb k _ => ?_⟩
      rw [List.mem_singleton.mp hb]
      simp [Done.nothing]
  | advance i response => exact advance_sound hk h response
  | abort i =>
    simp only [interleaved]
    split
    · exact ⟨h, trivial⟩
    · rename_i t ht
      exact ⟨h.erase ht, trivial⟩

variable {turn : Turn δ ι}

theorem running_of_committed {answer : ρ} (h : ((D.interleaved program).step s turn).2 = .committed t answer) :
    ∃ i response, turn = .advance i response ∧ s.running[i]? = some t ∧ t.rest = .commit answer := by
  cases turn with
  | start call => cases h
  | advance i response =>
    simp only [interleaved, advance] at h
    split at h
    · cases h
    · rename_i t' ht
      split at h
      · split at h
        · cases h
        · cases h
      · cases h
      · rename_i hrest
        cases h
        exact ⟨i, response, rfl, ht, hrest⟩
      · cases h
  | abort i =>
    simp only [interleaved] at h
    split at h
    · cases h
    · cases h

theorem running_of_rolledBack {answer : ρ} (h : ((D.interleaved program).step s turn).2 = .rolledBack t answer) :
    ∃ i response, turn = .advance i response ∧ s.running[i]? = some t ∧ t.rest = .rollback answer := by
  cases turn with
  | start call => cases h
  | advance i response =>
    simp only [interleaved, advance] at h
    split at h
    · cases h
    · rename_i t' ht
      split at h
      · split at h
        · cases h
        · cases h
      · cases h
      · cases h
      · rename_i answer' hrest
        cases h
        exact ⟨i, response, rfl, ht, hrest⟩
  | abort i =>
    simp only [interleaved] at h
    split at h
    · cases h
    · cases h

theorem goes_on_or_ends (ht : t ∈ s.running) (turn : Turn δ ι) :
    (∃ t' ∈ ((D.interleaved program).step s turn).1.running, (∀ k ∈ t.done.locked, k ∈ t'.done.locked) ∧
      ∀ x ∈ t.done.asked, x ∈ t'.done.asked) ∨
    (∃ answer, ((D.interleaved program).step s turn).2 = .committed t answer) ∨
    (∃ answer, ((D.interleaved program).step s turn).2 = .rolledBack t answer) ∨
    ((D.interleaved program).step s turn).2 = .aborted t := by
  have hsame : ∀ {running : List (Running σ κ ω ε δ ρ ι)}, t ∈ running →
      ∃ t' ∈ running, (∀ k ∈ t.done.locked, k ∈ t'.done.locked) ∧ ∀ x ∈ t.done.asked, x ∈ t'.done.asked :=
    fun hmem => ⟨t, hmem, fun _ hk => hk, fun _ hx => hx⟩
  -- a transaction is the one whose turn it is, or one of the others
  have hsplit : ∀ {i mine}, s.running[i]? = some mine → t = mine ∨ t ∈ s.running.eraseIdx i := by
    intro i mine hmine
    obtain ⟨hi, rfl⟩ := List.getElem?_eq_some_iff.mp hmine
    exact List.mem_cons.mp ((List.getElem_cons_eraseIdx_perm hi).mem_iff.mpr ht)
  have hset : ∀ {i mine mine'}, s.running[i]? = some mine → (∀ k ∈ mine.done.locked, k ∈ mine'.done.locked) →
      (∀ x ∈ mine.done.asked, x ∈ mine'.done.asked) → ∃ t' ∈ s.running.set i mine',
        (∀ k ∈ t.done.locked, k ∈ t'.done.locked) ∧ ∀ x ∈ t.done.asked, x ∈ t'.done.asked := by
    intro i mine mine' hmine hlocked hasked
    obtain ⟨hi, -⟩ := List.getElem?_eq_some_iff.mp hmine
    have hperm := List.set_perm_cons_eraseIdx hi mine'
    rcases hsplit hmine with rfl | hmem
    · exact ⟨mine', hperm.mem_iff.mpr (List.mem_cons_self ..), hlocked, hasked⟩
    · exact hsame (hperm.mem_iff.mpr (List.mem_cons_of_mem _ hmem))
  cases turn with
  | start call => exact .inl (hsame (List.mem_append_left _ ht))
  | advance i response =>
    simp only [interleaved, advance]
    split
    · exact .inl (hsame ht)
    · rename_i mine hmine
      split
      · split
        · exact .inl (hsame ht)
        · exact .inl (hset hmine (fun k hk => by simp [Done.wrote, hk]) fun _ hx => hx)
      · exact .inl (hset hmine (fun _ hk => hk) fun x hx => by simp [Done.exchanged, hx])
      · rename_i answer hrest
        rcases hsplit hmine with rfl | hmem
        · exact .inr (.inl ⟨answer, rfl⟩)
        · exact .inl (hsame hmem)
      · rename_i answer hrest
        rcases hsplit hmine with rfl | hmem
        · exact .inr (.inr (.inl ⟨answer, rfl⟩))
        · exact .inl (hsame hmem)
  | abort i =>
    simp only [interleaved]
    split
    · exact .inl (hsame ht)
    · rename_i mine hmine
      rcases hsplit hmine with rfl | hmem
      · exact .inr (.inr (.inr rfl))
      · exact .inl (hsame hmem)

theorem running_of_asked {turn : Turn δ ι} {request : ε} {response : δ}
    (h : ((D.interleaved program).step s turn).2 = .asked t request response) :
    ∃ i : Nat, s.running[i]? = some t ∧ ∃ t' ∈ ((D.interleaved program).step s turn).1.running,
      t'.done = t.done.exchanged request response := by
  cases turn with
  | start call => cases h
  | advance i response' =>
    simp only [interleaved, advance] at h ⊢
    split at h
    · cases h
    · rename_i mine hmine
      obtain ⟨hi, -⟩ := List.getElem?_eq_some_iff.mp hmine
      split at h
      · split at h
        · cases h
        · cases h
      · rename_i request' next hrest
        cases h
        refine ⟨i, hmine, { t with done := t.done.exchanged request response, rest := next response }, ?_, rfl⟩
        exact (List.set_perm_cons_eraseIdx hi _).mem_iff.mpr (List.mem_cons_self ..)
      · cases h
      · cases h
  | abort i =>
    simp only [interleaved] at h
    split at h
    · cases h
    · cases h

theorem running_of_aborted (h : ((D.interleaved program).step s turn).2 = .aborted t) :
    ∃ i, turn = .abort i ∧ s.running[i]? = some t := by
  cases turn with
  | start call => cases h
  | advance i response =>
    simp only [interleaved, advance] at h
    split at h
    · cases h
    · split at h
      · split at h
        · cases h
        · cases h
      · cases h
      · cases h
      · cases h
  | abort i =>
    simp only [interleaved] at h
    split at h
    · cases h
    · rename_i mine hmine
      cases h
      exact ⟨i, rfl, hmine⟩

theorem alone_ends (t : Running σ κ ω ε δ ρ ι) (c : σ) (response : δ) : Ends (D.interleaved program) c response t := by
  obtain ⟨call, since, done, rest⟩ := t
  induction rest generalizing done with
  | statement locks writes next ih =>
    refine Ends.step (u := ⟨call, since, _, next (D.view c done.writes)⟩) ?_ rfl rfl (ih (D.view c done.writes)
      (done.wrote (D.taken locks writes (D.view c done.writes)) (writes (D.view c done.writes))))
    simp [interleaved, advance]
  | ask request next ih =>
    exact Ends.step (u := ⟨call, since, _, next response⟩) rfl rfl rfl (ih response (done.exchanged request response))
  | commit answer => exact ⟨1, _, List.mem_singleton_self _, ⟨call, since, done, .commit answer⟩, answer, rfl, rfl, .inl rfl⟩
  | rollback answer =>
    exact ⟨1, _, List.mem_singleton_self _, ⟨call, since, done, .rollback answer⟩, answer, rfl, rfl, .inr rfl⟩

theorem step_committed (s : Shared σ κ ω ε δ ρ ι) (turn : Turn δ ι) :
    ((D.interleaved program).step s turn).1.committed =
      D.after s.committed ((D.interleaved program).step s turn).2 := by
  cases turn with
  | start call => rfl
  | advance i response =>
    simp only [interleaved, advance]
    split
    · rfl
    · split
      · split <;> rfl
      · rfl
      · rfl
      · rfl
  | abort i =>
    simp only [interleaved]
    split <;> rfl

theorem interleaved_sound (hk : D.Keeps C program) (turns : List (Turn δ ι)) (h : D.Sound C s) :
    D.Sound C ((D.interleaved program).run s turns) ∧
      ∀ e ∈ (D.interleaved program).log s turns, D.Sound C e.before ∧ C.Promised e.before.committed e.answer := by
  refine Machine.invariant (I := fun s past => D.Sound C s ∧
      ∀ e ∈ past, D.Sound C e.before ∧ C.Promised e.before.committed e.answer)
    (C := fun _ _ => True) ?_ (fun _ _ => trivial) ⟨h, fun e he => absurd he List.not_mem_nil⟩
  intro s past turn _ hs
  obtain ⟨hnext, hpromised⟩ := step_sound hk hs.1 turn
  refine ⟨hnext, fun e he => ?_⟩
  rcases List.mem_append.mp he with he | he
  · exact hs.2 e he
  · rw [List.mem_singleton.mp he]
    exact ⟨hs.1, hpromised⟩

theorem interleaved_history (hk : D.Keeps C program)
    {I : σ → List (Machine.Entry (Shared σ κ ω ε δ ρ ι) (Turn δ ι) (Outcome σ κ ω ε δ ρ ι)) → Prop}
    (hstep : ∀ past s turn answer, D.Sound C s → ((D.interleaved program).step s turn).2 = answer →
      C.Promised s.committed answer → I s.committed past →
      I (D.after s.committed answer) (past ++ [⟨s, turn, answer⟩]))
    (turns : List (Turn δ ι)) (h : D.Sound C s) (hstart : I s.committed []) :
    I ((D.interleaved program).run s turns).committed ((D.interleaved program).log s turns) := by
  refine (Machine.invariant (I := fun s past => D.Sound C s ∧ I s.committed past)
    (C := fun _ _ => True) ?_ (fun _ _ => trivial) ⟨h, hstart⟩).2
  intro s past turn _ hs
  obtain ⟨hnext, hpromised⟩ := step_sound hk hs.1 turn
  refine ⟨hnext, ?_⟩
  rw [step_committed]
  exact hstep past s turn _ hs.1 rfl hpromised hs.2

end Sound

end RowStore
