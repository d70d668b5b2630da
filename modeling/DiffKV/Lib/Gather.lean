/-
Loops that gather entries into a map and may stop with an error.

What such a computation does is said once for every map it may start
from: it either ends with the keys it is to add, or stops with an error
it may stop with. A loop whose rounds are of this kind is of this kind,
so nested loops need no induction of their own. A computation that has no
outcome at all does not gather anything.
-/
import DiffKV.Lib.Table

namespace Lib

open List

universe u v

variable {κ : Type u} [DecidableEq κ] {β : Type u} {ε : Type u} {α : Type v}
  {T T' : κ → Prop} {E E' : ε → Prop}

/-- From any map, `run` adds the keys of `T` or stops with an error of
`E`. -/
def Gathers (run : Map κ β → ExceptT ε Option (Map κ β)) (T : κ → Prop) (E : ε → Prop) : Prop :=
  ∀ m, (∃ m', run m = pure m' ∧ ∀ k, m'.contains k = true ↔ m.contains k = true ∨ T k)
    ∨ ∃ e, run m = throw e ∧ E e

namespace Gathers

theorem congr {run : Map κ β → ExceptT ε Option (Map κ β)}
    (h : Gathers run T E) (hT : ∀ k, T k ↔ T' k) (hE : ∀ e, E e → E' e) : Gathers run T' E' := by
  intro m
  rcases h m with ⟨m', hrun, hkeys⟩ | ⟨e, hrun, he⟩
  · exact .inl ⟨m', hrun, fun k => by rw [hkeys, hT]⟩
  · exact .inr ⟨e, hrun, hE e he⟩

/-- Nothing is gathered. -/
theorem nothing (hT : ∀ k, ¬ T k) : Gathers (pure : Map κ β → ExceptT ε Option (Map κ β)) T E :=
  fun m => .inl ⟨m, rfl, fun k => (or_iff_left (hT k)).symm⟩

/-- A loop gathers what its rounds gather. -/
theorem foldlM {step : Map κ β → α → ExceptT ε Option (Map κ β)}
    {T : α → κ → Prop} {E : α → ε → Prop} {l : List α}
    (h : ∀ x ∈ l, Gathers (step · x) (T x) (E x)) :
    Gathers (fun m => l.foldlM step m) (fun k => ∃ x ∈ l, T x k) (fun e => ∃ x ∈ l, E x e) := by
  induction l with
  | nil => exact nothing fun k ⟨x, hx, _⟩ => not_mem_nil hx
  | cons x l ih =>
    intro m
    have hrest := ih fun y hy => h y (mem_cons_of_mem _ hy)
    simp only [foldlM_cons]
    rcases h x mem_cons_self m with ⟨m₁, hrun, hkeys⟩ | ⟨e, hrun, he⟩
    · rw [show step m x = pure m₁ from hrun, pure_bind]
      rcases hrest m₁ with ⟨m₂, hrun₂, hkeys₂⟩ | ⟨e, hrun₂, y, hy, he⟩
      · refine .inl ⟨m₂, hrun₂, fun k => ?_⟩
        simp only [hkeys₂, hkeys, mem_cons, exists_eq_or_imp, or_assoc]
      · exact .inr ⟨e, hrun₂, y, mem_cons_of_mem _ hy, he⟩
    · rw [show step m x = throw e from hrun]
      exact .inr ⟨e, rfl, x, mem_cons_self, he⟩

end Gathers

end Lib
