/-
Blob records and the files they are appended to
(`src/blob_file_builder.{h,cc}`, `BlobRecord` of `src/blob_format.h`).

The bytes of a record on disk are not modelled: a file is the list of
its records, each under the handle the builder gave it, and its size.
`encodedSize` is the size `BlobEncoder` reports for a record, after
compression. A read of a handle returns the record appended under it.
-/
import DiffKV.Format

namespace DiffKV

open Lib List

/-- `BlobRecord`. -/
structure BlobRecord where
  key : UserKey
  value : Bytes
  deriving DecidableEq, Repr

/-- `BlobRecord::size`. -/
def BlobRecord.size (r : BlobRecord) : Nat :=
  r.key.bytes.length + r.value.length

/-- A blob file, up to its footer. The records lie one behind the other,
so no two have the same offset. -/
structure BlobFile where
  records : List (BlobHandle × BlobRecord)
  size : UInt64
  rising : (records.map (·.1.offset)).Pairwise (· < ·)
  below : ∀ p ∈ records, p.1.offset < size

namespace BlobFile

variable {h : BlobHandle} {r : BlobRecord} {f f' : BlobFile}

/-- The file `BlobFileBuilder()` leaves: a header. -/
def header : BlobFile where
  records := []
  size := kBlobHeaderSize
  rising := List.Pairwise.nil
  below := fun _ h => nomatch h

/-- The handle the next record gets. -/
def nextHandle (encodedSize : BlobRecord → UInt64) (f : BlobFile) (r : BlobRecord) : BlobHandle :=
  { offset := f.size, size := encodedSize r }

/-- `BlobFileBuilder::Add`; `none` where the file would outgrow its
64-bit size. -/
def add (encodedSize : BlobRecord → UInt64) (f : BlobFile)
    (r : BlobRecord) : Option (BlobHandle × BlobFile) :=
  if h : f.size < f.size + encodedSize r then
    some (f.nextHandle encodedSize r,
      { records := f.records ++ [(f.nextHandle encodedSize r, r)]
        size := f.size + encodedSize r
        rising := by
          rw [List.map_append, List.pairwise_append]
          refine ⟨f.rising, List.pairwise_singleton .., ?_⟩
          intro o ho o' ho'
          obtain ⟨p, hp, rfl⟩ := List.mem_map.1 ho
          rw [List.map_singleton, List.mem_singleton] at ho'
          subst ho'
          exact f.below p hp
        below := by
          intro p hp
          rcases List.mem_append.1 hp with hp | hp
          · exact UInt64.lt_trans (f.below p hp) h
          · rw [List.mem_singleton] at hp
            subst hp
            exact h })
  else none

/-- The record a read of the handle returns. -/
def find (f : BlobFile) (h : BlobHandle) : Option BlobRecord :=
  (f.records.find? (·.1 = h)).map Prod.snd

/-- `BlobFileBuilder::NumEntries`. -/
def numEntries (f : BlobFile) : UInt64 := f.records.length.toUInt64

/-- `GetFileSize()` once `BlobFileBuilder::Finish` appended the
footer. -/
def finishedSize (f : BlobFile) : UInt64 := f.size + kBlobFooterSize

/-- `smallest_key_` and `largest_key_` after one more key. The empty key
counts as none yet. -/
def extendRange (cmp : UserKey → UserKey → Ordering)
    (range : UserKey × UserKey) (key : UserKey) : UserKey × UserKey :=
  let range := if range.1.isEmpty then (key, key) else range
  if cmp key range.2 = .gt then (range.1, key)
  else if cmp key range.1 = .lt then (key, range.2)
  else range

/-- `GetSmallestKey()` and `GetLargestKey()`. -/
def keyRange (cmp : UserKey → UserKey → Ordering) (f : BlobFile) : UserKey × UserKey :=
  f.records.foldl (fun range p => extendRange cmp range p.2.key) (UserKey.empty, UserKey.empty)

-- ==== lookups

theorem mem_of_find (hr : f.find h = some r) : (h, r) ∈ f.records := by
  obtain ⟨p, hp, rfl⟩ := Option.map_eq_some_iff.1 hr
  have hkey : p.1 = h := by simpa using find?_some hp
  subst hkey
  exact mem_of_find?_eq_some hp

/-- Each record is found under its own handle. -/
theorem find_of_mem (hr : (h, r) ∈ f.records) : f.find h = some r := by
  have hrising := pairwise_map.1 f.rising
  unfold find
  generalize f.records = records at hr hrising ⊢
  induction records with
  | nil => cases hr
  | cons p ps ih =>
    obtain ⟨hlt, hps⟩ := pairwise_cons.1 hrising
    rcases mem_cons.1 hr with rfl | hmem
    · rw [find?_cons_of_pos (by simp)]
      rfl
    · rw [find?_cons_of_neg]
      · exact ih hmem hps
      · intro hh
        have hp : p.1 = h := by simpa using hh
        have hself := hlt (h, r) hmem
        rw [hp] at hself
        exact absurd hself (UInt64.lt_irrefl _)

/-- A new handle finds nothing yet. -/
theorem find_nextHandle (encodedSize : BlobRecord → UInt64) (f : BlobFile)
    (r : BlobRecord) : f.find (f.nextHandle encodedSize r) = none := by
  cases hf : f.find (f.nextHandle encodedSize r) with
  | none => rfl
  | some r' =>
    have hlt : f.size < f.size := f.below _ (mem_of_find hf)
    exact absurd hlt (UInt64.lt_irrefl _)

/-- The handle `add` hands out found nothing. -/
theorem find_of_add {encodedSize : BlobRecord → UInt64}
    (hadd : f.add encodedSize r = some (h, f')) : f.find h = none := by
  unfold add at hadd
  split at hadd
  · cases hadd
    exact find_nextHandle encodedSize f r
  · cases hadd

/-- What an appended record changes: its own handle. -/
theorem find_add {encodedSize : BlobRecord → UInt64}
    (hadd : f.add encodedSize r = some (h, f')) (h' : BlobHandle) :
    f'.find h' = if h' = h then some r else f.find h' := by
  unfold add at hadd
  split at hadd
  case isFalse => cases hadd
  case isTrue hlt =>
    cases hadd
    by_cases hh : h' = f.nextHandle encodedSize r
    · have hnone := find_nextHandle encodedSize f r
      rw [find, Option.map_eq_none_iff] at hnone
      rw [if_pos hh, hh, find, find?_append, hnone]
      simp
    · rw [if_neg hh, find, find, find?_append]
      have : find? (fun p => decide (p.1 = h')) [(f.nextHandle encodedSize r, r)] = none := by
        simp [Ne.symm hh]
      rw [this, Option.or_none]

end BlobFile

end DiffKV
