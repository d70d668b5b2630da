/-
Merging lists, and the queue a merge takes its next element from.

`Merges le ls out` says that `out` takes the elements of the lists `ls`
one at a time, from the front of one of them, and no other list has a
smaller one in front. What the order of the lists themselves is does not
matter, nor which of several smallest elements is taken.

`PriorityQueue` is a queue as far as a merge depends on it: what is in
it, and that the element taken out is a smallest one.
-/
import Mathlib.Data.List.Sort

namespace Lib

open List

-- ==== merges

/-- `out` is a merge of the lists. -/
inductive Merges {α : Type*} (le : α → α → Prop) : List (List α) → List α → Prop where
  | nil {ls} (h : ∀ l ∈ ls, l = []) : Merges le ls []
  | cons {ls a l rest out} (h : ls.Perm ((a :: l) :: rest))
      (hmin : ∀ m ∈ rest, ∀ b ∈ m.head?, le a b)
      (tail : Merges le (l :: rest) out) : Merges le ls (a :: out)

namespace Merges

variable {α : Type*} {le : α → α → Prop} {ls ls' : List (List α)} {out : List α}

variable (h : Merges le ls out)
include h

theorem of_perm (hp : ls'.Perm ls) : Merges le ls' out := by
  cases h with
  | nil h => exact .nil fun l hl => h l (hp.subset hl)
  | cons h hmin tail => exact .cons (hp.trans h) hmin tail

/-- A list that has run out adds nothing. -/
theorem nil_cons : Merges le ([] :: ls) out := by
  induction h with
  | nil h =>
    refine .nil fun l hl => ?_
    rcases mem_cons.1 hl with rfl | hl
    · rfl
    · exact h l hl
  | cons h hmin _ ih =>
    refine .cons ((h.cons []).trans (.swap _ _ _)) ?_ (ih.of_perm (.swap _ _ _))
    intro m hm
    rcases mem_cons.1 hm with rfl | hm
    · exact fun b hb => nomatch hb
    · exact hmin m hm

theorem append_nils {ns : List (List α)} (hn : ∀ l ∈ ns, l = []) : Merges le (ns ++ ls) out := by
  induction ns with
  | nil => exact h
  | cons l ns ih =>
    rw [hn l mem_cons_self]
    exact (ih fun l hl => hn l (mem_cons_of_mem _ hl)).nil_cons

/-- Every element is put out as often as it is there. -/
theorem perm : out.Perm ls.flatten := by
  induction h with
  | nil h => rw [flatten_eq_nil_iff.2 h]
  | cons h _ _ ih => exact (ih.cons _).trans h.flatten.symm

/-- Every list is put out in its own order. -/
theorem sublist {m : List α} (hm : m ∈ ls) : m.Sublist out := by
  induction h generalizing m with
  | nil h => rw [h m hm]
  | @cons ls a l rest out h _ _ ih =>
    rcases mem_cons.1 (h.subset hm) with rfl | hm
    · exact (ih mem_cons_self).cons_cons a
    · exact (ih (mem_cons_of_mem _ hm)).cons a

/-- Of sorted lists, the merge is sorted. -/
theorem pairwise (htrans : ∀ a b c, le a b → le b c → le a c)
    (hsorted : ∀ m ∈ ls, m.Pairwise le) : out.Pairwise le := by
  induction h with
  | nil => exact .nil
  | @cons ls a l rest out h hmin tail ih =>
    have hfirst : (a :: l).Pairwise le := hsorted _ (h.symm.subset mem_cons_self)
    have hothers : ∀ m ∈ rest, m.Pairwise le := fun m hm =>
      hsorted m (h.symm.subset (mem_cons_of_mem _ hm))
    refine pairwise_cons.2 ⟨fun b hb => ?_, ih fun m hm => ?_⟩
    · -- what is left lies behind the front of its list
      obtain ⟨m, hm, hb⟩ := mem_flatten.1 (tail.perm.subset hb)
      rcases mem_cons.1 hm with rfl | hm
      · exact (pairwise_cons.1 hfirst).1 b hb
      · cases m with
        | nil => cases hb
        | cons c m =>
          have hac : le a c := hmin _ hm c rfl
          rcases mem_cons.1 hb with rfl | hb
          · exact hac
          · exact htrans a c b hac ((pairwise_cons.1 (hothers _ hm)).1 b hb)
    · rcases mem_cons.1 hm with rfl | hm
      · exact (pairwise_cons.1 hfirst).2
      · exact hothers m hm

end Merges

-- ==== queue

universe u

/-- `std::priority_queue`: elements with the smallest key come first. -/
structure PriorityQueue {α : Type u} {β : Type*} [LinearOrder β] (key : α → β) where
  Heap : Type u
  empty : Heap
  push : α → Heap → Heap
  pop : Heap → Option (α × Heap)
  elems : Heap → List α
  elems_empty : elems empty = []
  elems_push : ∀ a h, (elems (push a h)).Perm (a :: elems h)
  elems_of_pop_none : ∀ {h}, pop h = none → elems h = []
  elems_pop : ∀ {h a h'}, pop h = some (a, h') → (elems h).Perm (a :: elems h')
  pop_le : ∀ {h a h'}, pop h = some (a, h') → ∀ b ∈ elems h', key a ≤ key b

namespace PriorityQueue

variable {α : Type u} {β : Type*} [LinearOrder β]

/-- A queue that keeps its elements in order. -/
def sorted (key : α → β) : PriorityQueue key where
  Heap := { l : List α // l.Pairwise fun a b => key a ≤ key b }
  empty := ⟨[], .nil⟩
  push a l := ⟨l.1.orderedInsert (fun a b => key a ≤ key b) a,
    have : Std.Total fun a b => key a ≤ key b := ⟨fun a b => le_total _ _⟩
    have : IsTrans α fun a b => key a ≤ key b := ⟨fun _ _ _ => le_trans⟩
    l.2.orderedInsert a l.1⟩
  pop l :=
    match l with
    | ⟨[], _⟩ => none
    | ⟨a :: l, h⟩ => some (a, ⟨l, (pairwise_cons.1 h).2⟩)
  elems l := l.1
  elems_empty := rfl
  elems_push a l := perm_orderedInsert _ a l.1
  elems_of_pop_none := by
    rintro ⟨l, h⟩ hpop
    cases l with
    | nil => rfl
    | cons a l => cases hpop
  elems_pop := by
    rintro ⟨l, h⟩ a l' hpop
    cases l with
    | nil => cases hpop
    | cons a l =>
      cases hpop
      exact .refl _
  pop_le := by
    rintro ⟨l, h⟩ a l' hpop
    cases l with
    | nil => cases hpop
    | cons a l =>
      cases hpop
      exact (pairwise_cons.1 h).1

end PriorityQueue

end Lib
