/-
Batches: items are taken from the front of a list until their
accumulated size reaches a limit.

Sizes are of any type with an addition and an order, so that the sums may
be those of machine words. `fill` is the loop, `ShortestFill` says what
it returns. `ShortestFill.toNat` is the bridge between 64-bit sums and
true ones: they agree as long as the true ones fit.
-/
import Mathlib.Algebra.Group.Nat.Defs
import Mathlib.Data.List.Infix
import Mathlib.Tactic.Common

namespace Lib

open List

section Batch

variable {α β : Type*} [Add β]

/-- The accumulated size of the items, from a start on. -/
def accumulate (size : α → β) (start : β) (l : List α) : β :=
  l.foldl (fun s a => s + size a) start

/-- The items up to the first at which the accumulated size reaches the
limit, all of them if none does. -/
def fill [LE β] [DecidableLE β] (size : α → β) (limit : β) : β → List α → List α
  | _, [] => []
  | acc, a :: l =>
    if limit ≤ acc + size a then [a]
    else a :: fill size limit (acc + size a) l

/-- `p` is the shortest part of the front of `l` that reaches the limit,
with at least one item; all of `l` if no part does. -/
structure ShortestFill [LE β] (size : α → β) (limit start : β) (l p : List α) : Prop where
  front : p <+: l
  sufficient : p = l ∨ limit ≤ accumulate size start p
  shortest : ∀ q, q <+: p → q ≠ [] → q ≠ p → ¬ limit ≤ accumulate size start q

variable [LE β] [DecidableLE β]

theorem shortestFill (size : α → β) (limit : β) (l : List α) :
    ∀ start, ShortestFill size limit start l (fill size limit start l) := by
  induction l with
  | nil =>
    intro start
    refine ⟨prefix_rfl, .inl rfl, fun q hq hne _ => ?_⟩
    exact absurd (prefix_nil.1 hq) hne
  | cons a l ih =>
    intro start
    unfold fill
    split
    case isTrue hlimit =>
      refine ⟨⟨l, rfl⟩, .inr hlimit, fun q hq hne hall => ?_⟩
      rcases prefix_cons_iff.1 hq with rfl | ⟨t, rfl, ht⟩
      · exact absurd rfl hne
      · exact absurd (prefix_nil.1 ht ▸ rfl) hall
    case isFalse hlimit =>
      obtain ⟨hfront, hsufficient, hshortest⟩ := ih (start + size a)
      refine ⟨prefix_cons_inj a |>.2 hfront, ?_, ?_⟩
      · exact hsufficient.imp (congrArg (a :: ·)) id
      · intro q hq hne hall
        rcases prefix_cons_iff.1 hq with rfl | ⟨t, rfl, ht⟩
        · exact absurd rfl hne
        · by_cases hnil : t = []
          · subst hnil
            exact hlimit
          · exact hshortest t ht hnil fun heq => hall (heq ▸ rfl)

end Batch

section Words

variable {α : Type*}

theorem le_accumulate (size : α → Nat) (start : Nat) (l : List α) :
    start ≤ accumulate size start l := by
  induction l generalizing start with
  | nil => exact Nat.le_refl start
  | cons a l ih => exact Nat.le_trans (Nat.le_add_right ..) (ih _)

theorem accumulate_le_of_prefix (size : α → Nat) (start : Nat) {p l : List α} (h : p <+: l) :
    accumulate size start p ≤ accumulate size start l := by
  obtain ⟨rest, rfl⟩ := h
  unfold accumulate
  rw [foldl_append]
  exact le_accumulate size _ rest

/-- A true sum that fits into a word is the sum of the words. -/
theorem accumulate_toNat (size : α → UInt64) (start : UInt64) (l : List α)
    (h : accumulate (fun a => (size a).toNat) start.toNat l < 2 ^ 64) :
    (accumulate size start l).toNat = accumulate (fun a => (size a).toNat) start.toNat l := by
  induction l generalizing start with
  | nil => rfl
  | cons a l ih =>
    have hfirst : (start + size a).toNat = start.toNat + (size a).toNat := by
      have hle := le_accumulate (fun a => (size a).toNat) (start.toNat + (size a).toNat) l
      exact Nat.mod_eq_of_lt (Nat.lt_of_le_of_lt hle h)
    have hrest := ih (start + size a)
    rw [hfirst] at hrest
    exact hrest h

/-- As long as the true sums fit, a batch of words is one of numbers. -/
theorem ShortestFill.toNat {size : α → UInt64} {limit start : UInt64}
    {l p : List α} (h : ShortestFill size limit start l p)
    (hfits : accumulate (fun a => (size a).toNat) start.toNat l < 2 ^ 64) :
    ShortestFill (fun a => (size a).toNat) limit.toNat start.toNat l p := by
  have hsum : ∀ q, q <+: l → (limit ≤ accumulate size start q
      ↔ limit.toNat ≤ accumulate (fun a => (size a).toNat) start.toNat q) := by
    intro q hq
    have hle := accumulate_le_of_prefix (fun a => (size a).toNat) start.toNat hq
    rw [UInt64.le_iff_toNat_le, accumulate_toNat size start q (by omega)]
  refine ⟨h.front, h.sufficient.imp_right (hsum p h.front).1, ?_⟩
  intro q hq hne hall
  rw [← hsum q (hq.trans h.front)]
  exact h.shortest q hq hne hall

end Words

end Lib
