/-
Ledgers: resources that are acquired and released.

A log says in which order resources were acquired and released. A
component accounts for its log if what it held before and what it
acquired is, each resource as often, what it released and what it still
holds (`Accounts`). Logs are appended and their accounts composed; at the
end, everything acquired has been released exactly if nothing is held.

A resource that is released is taken once from the outstanding ones, so
that a resource acquired twice counts twice.
-/
import Mathlib.Data.List.Perm.Basic

namespace Lib

open List

universe u

/-- An entry of a log. -/
inductive LedgerEntry (α : Type u) where
  | acquire (a : α)
  | release (a : α)
  deriving DecidableEq

namespace Ledger

variable {α : Type u}

/-- What the log acquires. -/
def acquired (log : List (LedgerEntry α)) : List α :=
  log.filterMap fun
    | .acquire a => some a
    | .release _ => none

/-- What it releases. -/
def released (log : List (LedgerEntry α)) : List α :=
  log.filterMap fun
    | .acquire _ => none
    | .release a => some a

variable [DecidableEq α]

/-- One entry, on what is outstanding. -/
def enter (held : List α) : LedgerEntry α → List α
  | .acquire a => a :: held
  | .release a => held.erase a

/-- What is outstanding after the log. -/
def outstanding (held : List α) (log : List (LedgerEntry α)) : List α :=
  log.foldl enter held

/-- The log leads from what is held before to what is held after. -/
structure Accounts (held : List α) (log : List (LedgerEntry α)) (held' : List α) : Prop where
  balanced : (acquired log ++ held).Perm (released log ++ held')
  outstanding : ∀ p, p.Perm held → (outstanding p log).Perm held'

variable {held held' held'' : List α} {log log' : List (LedgerEntry α)}

/-- Nothing happens. -/
theorem Accounts.of_perm (h : held.Perm held') : Accounts held [] held' :=
  ⟨h, fun _ hp => hp.trans h⟩

theorem Accounts.acquire (a : α) (held : List α) :
    Accounts held [.acquire a] (a :: held) := ⟨.refl _, fun _ hp => hp.cons a⟩

theorem Accounts.release {a : α} (h : held.Perm (a :: held')) :
    Accounts held [.release a] held' := by
  refine ⟨h, fun p hp => ?_⟩
  have herase := (hp.trans h).erase a
  rw [erase_cons_head] at herase
  exact herase

theorem Accounts.append (h : Accounts held log held') (h' : Accounts held' log' held'') :
    Accounts held (log ++ log') held'' := by
  constructor
  · unfold acquired released
    rw [filterMap_append, filterMap_append, append_assoc, append_assoc]
    -- what the first log leaves is what the second starts from
    have hswap : (acquired log ++ (acquired log' ++ held)).Perm
        (acquired log' ++ (acquired log ++ held)) := by
      rw [← append_assoc, ← append_assoc]
      exact perm_append_comm.append_right held
    have hback : (acquired log' ++ (released log ++ held')).Perm
        (released log ++ (acquired log' ++ held')) := by
      rw [← append_assoc, ← append_assoc]
      exact perm_append_comm.append_right held'
    exact hswap.trans ((h.balanced.append_left _).trans (hback.trans (h'.balanced.append_left _)))
  · intro p hp
    unfold Ledger.outstanding
    rw [foldl_append]
    exact h'.outstanding _ (h.outstanding p hp)

/-- Everything acquired is released, each as often, if and only if
nothing is held. -/
theorem Accounts.settled_iff (h : Accounts [] log held) :
    (acquired log).Perm (released log) ↔ held = [] := by
  have hbalanced := h.balanced
  rw [append_nil] at hbalanced
  constructor
  · intro hperm
    have hlength := hbalanced.length_eq
    rw [length_append, hperm.length_eq] at hlength
    exact eq_nil_of_length_eq_zero (by omega)
  · rintro rfl
    rwa [append_nil] at hbalanced

end Ledger

end Lib
