/-
Cutting intervals into runs.

An element starts and stops at points of a linear order. A run is a
sequence of elements each of which starts after the one before it has
stopped. `firstFit` goes through the elements in the order they start
and appends each to the first run it fits behind, or begins a new run
with it.

Where a run is begun, the last elements of all the runs before it and
the new element have a point in common: the start of the new one. No
two elements of a run have one. So `firstFit` needs as many runs as
there are elements over one point, and no cut into runs has fewer.
-/
import Mathlib.Algebra.GroupWithZero.Nat
import Mathlib.Data.List.Chain
import Mathlib.Data.List.Perm.Basic

namespace Lib

open List

universe u v

/-- A sequence that is not empty. -/
structure Run (β : Type v) where
  front : List β
  back : β

namespace Run

variable {β : Type v}

/-- The elements. -/
def toList (r : Run β) : List β := r.front ++ [r.back]

/-- `push_back`. -/
def push (r : Run β) (x : β) : Run β := { front := r.toList, back := x }

/-- `size`. -/
def size (r : Run β) : Nat := r.toList.length

end Run

section

variable {α : Type u} {β : Type v} (start stop : β → α)

/-- Each element starts after the one before it has stopped. -/
def Successive [LT α] (l : List β) : Prop :=
  l.IsChain fun a b => stop a < start b

/-- The element is there at a point. -/
def Over [LE α] (k : α) (x : β) : Prop := start x ≤ k ∧ k ≤ stop x

instance [LE α] [DecidableLE α] (k : α) : DecidablePred (Over start stop k) :=
  fun _ => inferInstanceAs (Decidable (_ ∧ _))

/-- Append an element to the first run it fits behind. -/
def place [LT α] [DecidableLT α] (x : β) : List (Run β) → List (Run β)
  | [] => [{ front := [], back := x }]
  | r :: rs =>
    if stop r.back < start x then r.push x :: rs else r :: place x rs

/-- The runs of a list of elements. -/
def firstFit [LT α] [DecidableLT α] (xs : List β) : List (Run β) :=
  xs.foldl (fun runs x => place start stop x runs) []

end

variable {α : Type u} {β : Type v} {start stop : β → α} {x : β} {xs : List β}
variable {runs : List (Run β)}

/-- The elements of all the runs. -/
def elements (runs : List (Run β)) : List β := runs.flatMap Run.toList

-- ==== any order

section

variable [LT α] [DecidableLT α]

/-- No element is lost, and none is there twice. -/
theorem elements_place : (elements (place start stop x runs)).Perm (x :: elements runs) := by
  induction runs with
  | nil => exact .refl _
  | cons r rs ih =>
    unfold place
    split
    · show (r.toList ++ [x] ++ elements rs).Perm (x :: (r.toList ++ elements rs))
      rw [append_assoc]
      exact perm_middle
    · exact (ih.append_left r.toList).trans perm_middle

theorem successive_place (h : ∀ r ∈ runs, Successive start stop r.toList) :
    ∀ r ∈ place start stop x runs, Successive start stop r.toList := by
  induction runs with
  | nil => simp [place, Run.toList, Successive]
  | cons r rs ih =>
    obtain ⟨hr, hrs⟩ := forall_mem_cons.1 h
    unfold place
    split
    case isTrue hfits =>
      have hpush : Successive start stop (r.toList ++ [x]) := isChain_append.2 ⟨hr, .singleton x, by
          simpa [Run.toList] using hfits⟩
      exact forall_mem_cons.2 ⟨hpush, hrs⟩
    case isFalse => exact forall_mem_cons.2 ⟨hr, ih hrs⟩

/-- A run is begun only where every run is in the way. -/
theorem length_place (start stop : β → α) (x : β) (runs : List (Run β)) :
    (place start stop x runs).length = runs.length
      ∨ (place start stop x runs).length = runs.length + 1
        ∧ ∀ r ∈ runs, ¬ stop r.back < start x := by
  induction runs with
  | nil => exact .inr ⟨rfl, by simp⟩
  | cons r rs ih =>
    unfold place
    split
    case isTrue => exact .inl rfl
    case isFalse hfits =>
      obtain h | ⟨h, hall⟩ := ih
      · exact .inl (by simp [h])
      · exact .inr ⟨by simp [h], forall_mem_cons.2 ⟨hfits, hall⟩⟩

theorem firstFit_concat :
    firstFit start stop (xs ++ [x]) = place start stop x (firstFit start stop xs) := by
  simp [firstFit]

theorem elements_firstFit (start stop : β → α) (xs : List β) :
    (elements (firstFit start stop xs)).Perm xs := by
  induction xs using reverseRecOn with
  | nil => exact .refl _
  | append_singleton xs x ih =>
    rw [firstFit_concat]
    exact elements_place.trans ((ih.cons x).trans (perm_append_singleton x xs).symm)

theorem successive_firstFit : ∀ r ∈ firstFit start stop xs, Successive start stop r.toList := by
  induction xs using reverseRecOn with
  | nil => simp [firstFit]
  | append_singleton xs x ih =>
    rw [firstFit_concat]
    exact successive_place ih

/-- Elements that follow each other are one run. -/
theorem firstFit_of_successive (h : Successive start stop xs)
    (hne : xs ≠ []) : (firstFit start stop xs).map Run.toList = [xs] := by
  induction xs using reverseRecOn with
  | nil => exact absurd rfl hne
  | append_singleton xs x ih =>
    obtain ⟨hxs, -, hlast⟩ := isChain_append.1 h
    rw [firstFit_concat]
    by_cases hempty : xs = []
    · rw [hempty]
      rfl
    · obtain ⟨r, hr, rfl⟩ := map_eq_singleton_iff.1 (ih hxs hempty)
      have hlt : stop r.back < start x := hlast r.back (by simp [Run.toList]) x (by simp)
      rw [hr, place, if_pos hlt]
      rfl

theorem length_elements : (elements runs).length = (runs.map Run.size).sum := by
  simp only [elements, length_flatMap]
  rfl

end

-- ==== linear orders

section

variable [LT α] [LE α] [Std.IsLinearOrder α] [Std.LawfulOrderLT α]
variable {l : List β} {k : α}

/-- In a run everything stops before what comes later starts. -/
theorem Successive.pairwise (h : Successive start stop l) (hle : ∀ x ∈ l, start x ≤ stop x) :
    l.Pairwise fun a b => stop a < start b := by
  induction l with
  | nil => exact .nil
  | cons x l ih =>
    have hl := ih h.tail fun y hy => hle y (mem_cons_of_mem x hy)
    refine pairwise_cons.2 ⟨?_, hl⟩
    cases l with
    | nil => simp
    | cons y l =>
      have hxy : stop x < start y := (isChain_cons_cons.1 h).1
      have hy : start y ≤ stop y := hle y (by simp)
      refine forall_mem_cons.2 ⟨hxy, fun z hz => ?_⟩
      have hyz := (pairwise_cons.1 hl).1 z hz
      exact Std.lt_trans hxy (Std.lt_of_le_of_lt hy hyz)

variable [DecidableLE α]

/-- A run has at most one element over a point. -/
theorem Successive.countP_le (h : Successive start stop l) (hle : ∀ x ∈ l, start x ≤ stop x) :
    l.countP (Over start stop k) ≤ 1 := by
  have hpair := h.pairwise hle
  clear h hle
  induction l with
  | nil => exact Nat.zero_le 1
  | cons x l ih =>
    obtain ⟨hx, hl⟩ := pairwise_cons.1 hpair
    by_cases hk : Over start stop k x
    · have hnone : l.countP (Over start stop k) = 0 := by
        refine countP_eq_zero.2 fun y hy => ?_
        have hky : k < start y := Std.lt_of_le_of_lt hk.2 (hx y hy)
        simp [Over, Std.not_le.2 hky]
      simp [hk, hnone]
    · simpa [countP_cons, hk] using ih hl

/-- No cut into runs has fewer runs than there are elements over a
point. -/
theorem countP_flatten_le {cut : List (List β)} (hcut : ∀ l ∈ cut, Successive start stop l)
    (hle : ∀ x ∈ cut.flatten, start x ≤ stop x) :
    cut.flatten.countP (Over start stop k) ≤ cut.length := by
  induction cut with
  | nil => exact Nat.le_refl 0
  | cons l cut ih =>
    obtain ⟨hl, hrest⟩ := forall_mem_cons.1 hcut
    obtain ⟨hlel, hlerest⟩ := forall_mem_append.1 hle
    have hone := hl.countP_le (k := k) hlel
    have htail := ih hrest hlerest
    rw [flatten_cons, countP_append, length_cons]
    omega

omit [Std.IsLinearOrder α] [Std.LawfulOrderLT α] [LT α] in
theorem length_le_countP_elements (h : ∀ r ∈ runs, Over start stop k r.back) :
    runs.length ≤ (elements runs).countP (Over start stop k) := by
  induction runs with
  | nil => exact Nat.le_refl 0
  | cons r rs ih =>
    obtain ⟨hr, hrs⟩ := forall_mem_cons.1 h
    have hpos : 0 < r.toList.countP (Over start stop k) :=
      countP_pos_iff.2 ⟨r.back, by simp [Run.toList], by simpa using hr⟩
    have htail := ih hrs
    simp only [elements, flatMap_cons, countP_append, length_cons] at *
    omega

variable [DecidableLT α]

/-- All the runs have an element over one point. -/
theorem firstFit_over (point : α) (hle : ∀ x ∈ xs, start x ≤ stop x)
    (hsorted : xs.Pairwise fun a b => ¬ start b < start a) :
    ∃ k, (firstFit start stop xs).length ≤ xs.countP (Over start stop k) := by
  induction xs using reverseRecOn with
  | nil => exact ⟨point, Nat.le_refl 0⟩
  | append_singleton xs x ih =>
    obtain ⟨hxs, -, hbefore⟩ := pairwise_append.1 hsorted
    obtain ⟨hlexs, hlex⟩ := forall_mem_append.1 hle
    rw [firstFit_concat]
    obtain hlen | ⟨hlen, hall⟩ := length_place start stop x (firstFit start stop xs)
    · obtain ⟨k, hk⟩ := ih hlexs hxs
      refine ⟨k, ?_⟩
      rw [hlen, countP_append]
      omega
    · -- every run is in the way of `x`, so all of them are there where it starts
      have hover : ∀ r ∈ firstFit start stop xs, Over start stop (start x) r.back := by
        intro r hr
        have hmem : r.back ∈ xs := (elements_firstFit start stop xs).mem_iff.1
          (mem_flatMap.2 ⟨r, hr, by simp [Run.toList]⟩)
        exact ⟨Std.not_lt.1 (hbefore _ hmem x (by simp)), Std.not_lt.1 (hall r hr)⟩
      have hcount := length_le_countP_elements hover
      have hx : Over start stop (start x) x := ⟨Std.le_refl _, hlex x (by simp)⟩
      refine ⟨start x, ?_⟩
      rw [hlen, countP_append, ← (elements_firstFit start stop xs).countP_eq]
      simp only [countP_singleton, hx, decide_true, if_true]
      omega

end

end Lib
