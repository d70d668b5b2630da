/-
A store whose index points at the locations of records, and a collector
that moves records away from some locations and then gives these up.

An index entry is written in two steps: the record is stored first and
its location becomes pending, and some time later the location is
written to the index. A location is `usable` while the index may hold
it.

`Sound` is what makes every read succeed. The collector's argument is
`Covers`: where the index points at the locations it collects, it has not
dealt with the key yet; and none of them is pending. Once it has dealt
with all, they can be given up.
-/
import Mathlib.Data.Set.Basic

namespace Lib

/-- Keys `K`, values `V`, locations `L`. -/
structure Store (K V L : Type*) where
  index : K → Option L
  record : L → Option (K × V)
  usable : Set L
  pending : K → L → Prop

namespace Store

variable {K V L : Type*} {s t : Store K V L}

/-- The location is that of a record of the key, and usable. -/
def Holds (s : Store K V L) (k : K) (l : L) : Prop :=
  (∃ v, s.record l = some (k, v)) ∧ l ∈ s.usable

/-- What the index points at it may. -/
def Sound (s : Store K V L) : Prop :=
  ∀ ⦃k l⦄, s.index k = some l → s.Holds k l

/-- So is what it is about to point at. -/
def Ready (s : Store K V L) : Prop :=
  ∀ ⦃k l⦄, s.pending k l → s.Holds k l

/-- Nothing is pending at the locations `inputs`. -/
def Avoids (s : Store K V L) (inputs : Set L) : Prop :=
  ∀ ⦃k l⦄, s.pending k l → l ∉ inputs

/-- A collector of `inputs` has yet to deal with the keys that point
there. -/
def Covers (s : Store K V L) (inputs : Set L) (unseen : K → L → Prop) :
    Prop :=
  ∀ ⦃k l⦄, s.index k = some l → l ∈ inputs → unseen k l

/-- What one step may do: write pending locations to the index, store
records and make their locations pending, give up the locations `lost`,
and erase records at locations that are not usable. -/
structure Step (s t : Store K V L) (lost : Set L) : Prop where
  index : ∀ {k l}, t.index k = some l → s.index k = some l ∨ s.pending k l
  pending : ∀ {k l}, t.pending k l → s.pending k l ∨ t.Holds k l
  record : ∀ {l r}, s.record l = some r → l ∈ s.usable → t.record l = some r
  usable : ∀ {l}, l ∈ s.usable → l ∈ t.usable ∨ l ∈ lost

variable {lost inputs : Set L} {unseen unseen' : K → L → Prop} {k : K} {l : L}

theorem Holds.step (h : s.Holds k l) (hstep : Step s t lost) (hl : l ∉ lost) : t.Holds k l := by
  obtain ⟨⟨v, hv⟩, hu⟩ := h
  exact ⟨⟨v, hstep.record hv hu⟩, (hstep.usable hu).resolve_right hl⟩

/-- Pending locations stay ready if none of those given up is pending. -/
theorem Ready.step (h : s.Ready) (hstep : Step s t lost) (hlost : s.Avoids lost) : t.Ready := by
  intro k l hl
  rcases hstep.pending hl with hp | hnew
  · exact (h hp).step hstep (hlost hp)
  · exact hnew

/-- The index stays sound if the collector of the locations given up has
dealt with all of them. -/
theorem Sound.step (h : s.Sound) (hready : s.Ready) (hstep : Step s t lost)
    (havoid : s.Avoids lost) (hcover : s.Covers lost fun _ _ => False) : t.Sound := by
  intro k l hl
  rcases hstep.index hl with hs | hp
  · exact (h hs).step hstep fun hin => hcover hs hin
  · exact (hready hp).step hstep (havoid hp)

/-- A collector keeps clear of pending locations while no new one is
among its own. -/
theorem Avoids.step (h : s.Avoids inputs)
    (hnew : ∀ {k l}, t.pending k l → s.pending k l ∨ l ∉ inputs) : t.Avoids inputs := by
  intro k l hl
  rcases hnew hl with hp | hn
  · exact h hp
  · exact hn

/-- The index comes to point at no more of the collected locations: only
pending ones are written to it. -/
theorem Covers.step (h : s.Covers inputs unseen) (hstep : Step s t lost)
    (havoid : s.Avoids inputs) : t.Covers inputs unseen := by
  intro k l hl hin
  rcases hstep.index hl with hs | hp
  · exact h hs hin
  · exact absurd hin (havoid hp)

/-- The collector has dealt with a key once it no longer points
there. -/
theorem Covers.see (h : s.Covers inputs unseen)
    (hsee : ∀ {k l}, s.index k = some l → l ∈ inputs → unseen k l →
      unseen' k l) : s.Covers inputs unseen' :=
  fun _ _ hl hin => hsee hl hin (h hl hin)

end Store

end Lib
