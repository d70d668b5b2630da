/-
Sums over a keyed table: how two tables that differ under one key differ
in the sum of their entries.
-/
import DiffKV.Lib.Table
import Mathlib.Algebra.BigOperators.Group.Finset.Basic

namespace Lib.Table

open List

variable {κ α M : Type*} {key : α → κ} [DecidableEq κ] [AddCommMonoid M]

/-- A sum over a table, taken over keys. -/
theorem sum_eq_sum_find (t : Table key) {K : Finset κ}
    (hK : ∀ a ∈ t.entries, key a ∈ K) (f : α → M) :
    (t.entries.map f).sum = ∑ k ∈ K, (t.find k).elim 0 f := by
  have hfind : t.entries.map f = (t.entries.map key).map fun k => (t.find k).elim 0 f := by
    rw [map_map]
    refine map_congr_left fun a ha => ?_
    simp [find_of_mem ha]
  rw [hfind, ← sum_toFinset _ t.nodup]
  refine Finset.sum_subset (fun k hk => ?_) fun k _ hk => ?_
  · obtain ⟨a, ha, rfl⟩ := mem_map.1 (mem_toFinset.1 hk)
    exact hK a ha
  · have hnone : t.find k = none := find_eq_none_iff.2 fun a ha hka =>
      hk (mem_toFinset.2 (hka ▸ mem_map_of_mem ha))
    rw [hnone, Option.elim_none]

/-- The sums over two tables that differ under one key. -/
theorem sum_add_find {s t : Table key} {k : κ}
    (h : ∀ k', k' ≠ k → t.find k' = s.find k') (f : α → M) :
    (t.entries.map f).sum + (s.find k).elim 0 f = (s.entries.map f).sum + (t.find k).elim 0 f := by
  let K : Finset κ := (k :: (s.entries ++ t.entries).map key).toFinset
  have hk : k ∈ K := mem_toFinset.2 mem_cons_self
  have hkeys : ∀ a ∈ s.entries ++ t.entries, key a ∈ K := fun a ha =>
    mem_toFinset.2 (mem_cons_of_mem _ (mem_map_of_mem ha))
  rw [sum_eq_sum_find s (fun a ha => hkeys a (mem_append_left _ ha)) f,
    sum_eq_sum_find t (fun a ha => hkeys a (mem_append_right _ ha)) f,
    ← Finset.add_sum_erase K _ hk, ← Finset.add_sum_erase K _ hk,
    Finset.sum_congr rfl fun k' hk' => by
      rw [h k' (Finset.ne_of_mem_erase hk')],
    add_right_comm, add_right_comm ((s.find k).elim 0 f),
    add_comm ((t.find k).elim 0 f)]

end Lib.Table
