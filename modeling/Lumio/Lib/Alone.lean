import Lumio.Lib.Transactions

/-!
# A transaction on its own

Nothing else is under way: every statement sees what was committed before the transaction and what the transaction itself has
written.
-/

namespace RowStore

open Tx

variable {σ κ ω ε δ ρ ι α : Type} (D : RowStore σ κ ω)

/-- The answer and what is committed then, from what a statement sees. A transaction that asks something is not on its
own. -/
def aloneFrom (start : σ) : Tx σ κ ω ε δ ρ → σ → Option (ρ × σ)
  | .statement _ writes next, seen => aloneFrom start (next seen) (D.view seen (writes seen))
  | .ask _ _, _ => none
  | .commit answer, seen => some (answer, seen)
  | .rollback answer, _ => some (answer, start)

def alone (tx : Tx σ κ ω ε δ ρ) (committed : σ) : Option (ρ × σ) := D.aloneFrom committed tx committed

section Statements

variable {D} {start seen : σ}

@[simp] theorem aloneFrom_commit (answer : ρ) : D.aloneFrom start (.commit answer : Tx σ κ ω ε δ ρ) seen = some (answer, seen) := rfl

@[simp] theorem aloneFrom_rollback (answer : ρ) : D.aloneFrom start (.rollback answer : Tx σ κ ω ε δ ρ) seen = some (answer, start) :=
  rfl

theorem aloneFrom_statement (locks : σ → List κ) (writes : σ → List ω) (next : σ → Tx σ κ ω ε δ ρ) :
    D.aloneFrom start (.statement locks writes next) seen = D.aloneFrom start (next seen) (D.view seen (writes seen)) := rfl

@[simp] theorem aloneFrom_query (read : σ → α) (next : α → Tx σ κ ω ε δ ρ) :
    D.aloneFrom start (.query read next) seen = D.aloneFrom start (next (read seen)) seen := rfl

@[simp] theorem aloneFrom_lock (row : κ) (read : σ → α) (next : α → Tx σ κ ω ε δ ρ) :
    D.aloneFrom start (.lock row read next) seen = D.aloneFrom start (next (read seen)) seen := rfl

@[simp] theorem aloneFrom_exec (writes : σ → List ω) (next : Nat → Tx σ κ ω ε δ ρ) :
    D.aloneFrom start (.exec writes next) seen =
      D.aloneFrom start (next (writes seen).length) (D.view seen (writes seen)) := rfl

theorem aloneFrom_insert_absent {keys : List κ} {present : σ → Bool} {write : ω} {next : Bool → Tx σ κ ω ε δ ρ}
    (h : present seen = false) :
    D.aloneFrom start (.insert keys present write next) seen = D.aloneFrom start (next true) (D.apply seen write) := by
  simp [Tx.insert, aloneFrom, h, view]

theorem aloneFrom_insert_present {keys : List κ} {present : σ → Bool} {write : ω} {next : Bool → Tx σ κ ω ε δ ρ}
    (h : present seen = true) :
    D.aloneFrom start (.insert keys present write next) seen = D.aloneFrom start (next false) seen := by
  simp [Tx.insert, aloneFrom, h, view]

end Statements

end RowStore
