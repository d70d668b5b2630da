/-
Writers that append to files of their own.

A writer has at most one file open, under a name that was not issued
before. It may come to grief with its file: then it still has it open but
appends no more. So a file that was issued changes by appends of the one
writer that has it open, and a file nobody can append to stays as it is,
for good.

The state is known through a view. `Acts` is what one writer may do,
`Grows` what is left of it for somebody who does not know which writer it
was; `Acts.trans` puts a turn together from its parts, `Grows.trans` a
run from its turns.
-/
import Mathlib.Tactic.Common

namespace Lib

open List

/-- What is seen of a state `σ` with writers `ι` and files of `α` under
names `κ`. -/
structure Writers (σ ι κ α : Type*) where
  /-- the names handed out so far -/
  issued : σ → κ → Prop
  /-- the file a writer has open -/
  holds : σ → ι → Option κ
  /-- it can still append to it -/
  sound : σ → ι → Prop
  file : σ → κ → Option (List α)
  /-- what an append may leave -/
  within : List α → Prop

namespace Writers

variable {σ ι κ α : Type*} {V : Writers σ ι κ α} {s t u : σ} {i : ι} {n : κ}

/-- One writer has acted. -/
structure Acts (V : Writers σ ι κ α) (i : ι) (s t : σ) : Prop where
  issued : ∀ n, V.issued s n → V.issued t n
  others : ∀ j, j ≠ i → V.holds t j = V.holds s j ∧ (V.sound t j ↔ V.sound s j)
  own : ∀ n, V.holds t i = some n →
    (V.holds s i = some n ∧ (V.sound t i → V.sound s i)) ∨ (¬ V.issued s n ∧ V.issued t n)
  file : ∀ n l, V.issued s n → V.file s n = some l → ∃ tail,
    V.file t n = some (l ++ tail)
      ∧ (tail = [] ∨ ((V.holds s i = some n ∧ V.sound s i) ∧ V.within (l ++ tail)))

/-- Open files are issued, and no two writers have the same one open. -/
structure Apart (V : Writers σ ι κ α) (s : σ) : Prop where
  issued : ∀ {i n}, V.holds s i = some n → V.issued s n
  apart : ∀ {i j n}, V.holds s i = some n → V.holds s j = some n → i = j

/-- Some writer can append to the file. -/
def Appendable (V : Writers σ ι κ α) (s : σ) (n : κ) : Prop :=
  ∃ i, V.holds s i = some n ∧ V.sound s i

/-- From a state to a later one. -/
structure Grows (V : Writers σ ι κ α) (s t : σ) : Prop where
  issued : ∀ n, V.issued s n → V.issued t n
  appendable : ∀ n, V.issued s n → V.Appendable t n → V.Appendable s n
  file : ∀ n l, V.issued s n → V.file s n = some l → ∃ tail,
    V.file t n = some (l ++ tail) ∧ (tail = [] ∨ (V.Appendable s n ∧ V.within (l ++ tail)))

-- ==== a turn

/-- Nothing is seen of what was done. -/
theorem Acts.of_unseen (hissued : ∀ n, V.issued s n → V.issued t n)
    (hholds : ∀ j, V.holds t j = V.holds s j) (hsound : ∀ j, V.sound t j ↔ V.sound s j)
    (hfile : ∀ n, V.file t n = V.file s n) : V.Acts i s t where
  issued := hissued
  others j _ := ⟨hholds j, hsound j⟩
  own n hn := .inl ⟨hholds i ▸ hn, (hsound i).1⟩
  file n l _ hl := ⟨[], by rw [hfile, hl, append_nil], .inl rfl⟩

theorem Acts.trans (h : V.Acts i s t) (h' : V.Acts i t u) : V.Acts i s u where
  issued n hn := h'.issued n (h.issued n hn)
  others j hj := ⟨(h'.others j hj).1.trans (h.others j hj).1,
    (h'.others j hj).2.trans (h.others j hj).2⟩
  own n hn := by
    rcases h'.own n hn with ⟨hn, hsound⟩ | ⟨hfresh, hissued⟩
    · rcases h.own n hn with ⟨hn, hsound'⟩ | ⟨hfresh, hissued⟩
      · exact .inl ⟨hn, fun hu => hsound' (hsound hu)⟩
      · exact .inr ⟨hfresh, h'.issued n hissued⟩
    · exact .inr ⟨fun hs => hfresh (h.issued n hs), hissued⟩
  file n l hn hl := by
    obtain ⟨tail, ht, htail⟩ := h.file n l hn hl
    obtain ⟨tail', hu, htail'⟩ := h'.file n _ (h.issued n hn) ht
    refine ⟨tail ++ tail', by rw [hu, append_assoc], ?_⟩
    rcases htail' with rfl | ⟨⟨hopen, hsound⟩, hwithin⟩
    · rw [append_nil]
      exact htail
    · refine .inr ⟨?_, by rwa [← append_assoc]⟩
      -- the writer had the file open before: its name was issued
      rcases h.own n hopen with ⟨hs, hback⟩ | ⟨hfresh, -⟩
      · exact ⟨hs, hback hsound⟩
      · exact absurd hn hfresh

theorem Acts.apart (h : V.Acts i s t) (hs : V.Apart s) : V.Apart t := by
  -- a file open later was open before, or is a new one of writer `i`
  have hback : ∀ {j n}, V.holds t j = some n →
      V.holds s j = some n ∨ (j = i ∧ ¬ V.issued s n ∧ V.issued t n) := by
    intro j n hn
    by_cases hj : j = i
    · subst hj
      exact (h.own n hn).imp (·.1) fun h => ⟨rfl, h⟩
    · exact .inl ((h.others j hj).1 ▸ hn)
  constructor
  · intro j n hn
    rcases hback hn with hn | ⟨-, -, hn⟩
    · exact h.issued n (hs.issued hn)
    · exact hn
  · intro j k n hj hk
    rcases hback hj with hj | ⟨rfl, hfresh, -⟩
    · rcases hback hk with hk | ⟨rfl, hfresh, -⟩
      · exact hs.apart hj hk
      · exact absurd (hs.issued hj) hfresh
    · rcases hback hk with hk | ⟨rfl, -⟩
      · exact absurd (hs.issued hk) hfresh
      · rfl

/-- The open files of the other writers are as they were. -/
theorem Acts.file_other (h : V.Acts i s t) (hs : V.Apart s) {j : ι}
    (hj : j ≠ i) (hn : V.holds s j = some n) {l : List α}
    (hl : V.file s n = some l) : V.file t n = some l := by
  obtain ⟨tail, ht, rfl | ⟨⟨hi, -⟩, -⟩⟩ := h.file n l (hs.issued hn) hl
  · rwa [append_nil] at ht
  · exact absurd (hs.apart hn hi) hj

-- ==== a run

theorem Acts.grows (h : V.Acts i s t) : V.Grows s t where
  issued := h.issued
  appendable n hn := by
    rintro ⟨j, hj, hsound⟩
    by_cases hi : j = i
    · subst hi
      rcases h.own n hj with ⟨hs, hback⟩ | ⟨hfresh, -⟩
      · exact ⟨j, hs, hback hsound⟩
      · exact absurd hn hfresh
    · exact ⟨j, (h.others j hi).1 ▸ hj, (h.others j hi).2.1 hsound⟩
  file n l hn hl := by
    obtain ⟨tail, ht, htail⟩ := h.file n l hn hl
    exact ⟨tail, ht, htail.imp_right fun h => ⟨⟨i, h.1⟩, h.2⟩⟩

theorem Grows.refl (s : σ) : V.Grows s s where
  issued _ := id
  appendable _ _ := id
  file _ l _ hl := ⟨[], by rw [hl, append_nil], .inl rfl⟩

theorem Grows.trans (h : V.Grows s t) (h' : V.Grows t u) : V.Grows s u where
  issued n hn := h'.issued n (h.issued n hn)
  appendable n hn hu := h.appendable n hn (h'.appendable n (h.issued n hn) hu)
  file n l hn hl := by
    obtain ⟨tail, ht, htail⟩ := h.file n l hn hl
    obtain ⟨tail', hu, htail'⟩ := h'.file n _ (h.issued n hn) ht
    refine ⟨tail ++ tail', by rw [hu, append_assoc], ?_⟩
    rcases htail' with rfl | ⟨hopen, hwithin⟩
    · rw [append_nil]
      exact htail
    · exact .inr ⟨h.appendable n hn hopen, by rwa [← append_assoc]⟩

/-- A file that nobody can append to stays. -/
theorem Grows.file_eq (h : V.Grows s t) (hn : V.issued s n)
    (hclosed : ¬ V.Appendable s n) {l : List α} (hl : V.file s n = some l) :
    V.file t n = some l := by
  obtain ⟨tail, ht, rfl | ⟨hopen, -⟩⟩ := h.file n l hn hl
  · rwa [append_nil] at ht
  · exact absurd hopen hclosed

/-- A file within the bounds stays within them. -/
theorem Grows.file_within (h : V.Grows s t) (hn : V.issued s n) {l : List α}
    (hl : V.file s n = some l) (hwithin : V.within l) :
    ∃ tail, V.file t n = some (l ++ tail) ∧ V.within (l ++ tail) := by
  obtain ⟨tail, ht, rfl | ⟨-, htail⟩⟩ := h.file n l hn hl
  · exact ⟨[], ht, by rwa [append_nil]⟩
  · exact ⟨tail, ht, htail⟩

end Writers

end Lib
