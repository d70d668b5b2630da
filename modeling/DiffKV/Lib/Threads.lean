/-
Threads as the list of the places where they stand: a step replaces one
element.
-/
import Mathlib.Data.List.Basic

namespace Lib

open List

variable {α : Type*} {l : List α} {i : Nat} {a b c : α}

/-- Replacing one element changes a count by that element. -/
theorem countP_set_add {p : α → Bool} (h : l[i]? = some a) (b : α) :
    (l.set i b).countP p + (p a).toNat = l.countP p + (p b).toNat := by
  obtain ⟨hlt, rfl⟩ := List.getElem?_eq_some_iff.1 h
  have hpos : p l[i] = true → 0 < l.countP p := fun hp =>
    countP_pos_iff.2 ⟨_, getElem_mem hlt, hp⟩
  rw [countP_set hlt]
  cases hp : p l[i] with
  | false => cases p b <;> simp
  | true =>
    have hone := hpos hp
    cases p b <;> simp <;> omega

/-- A lock that is taken only where it is free has one holder at most;
`rest` counts its holders among other threads. -/
theorem holders_set {p : α → Bool} {rest : Nat} (h : l[i]? = some a) (hone : l.countP p + rest ≤ 1)
    (htake : p b = true → p a = true ∨ l.countP p + rest = 0) :
    (l.set i b).countP p + rest ≤ 1 := by
  have hcount := countP_set_add (p := p) h b
  cases hb : p b with
  | false =>
    rw [hb] at hcount
    simp only [Bool.toNat_false] at hcount
    omega
  | true =>
    rcases htake hb with ha | hfree
    · rw [ha, hb] at hcount
      omega
    · rw [hb] at hcount
      simp only [Bool.toNat_true] at hcount
      omega

/-- The others stay. -/
theorem mem_set_of_ne (h : l[i]? = some a) (hc : c ∈ l) (hne : c ≠ a) : c ∈ l.set i b := by
  obtain ⟨k, hk⟩ := mem_iff_getElem?.1 hc
  refine mem_iff_getElem?.2 ⟨k, ?_⟩
  rw [getElem?_set_ne, hk]
  rintro rfl
  rw [h] at hk
  exact hne (Option.some.inj hk).symm

end Lib
