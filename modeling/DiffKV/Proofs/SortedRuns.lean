/-
`CountSortedRun` is exact: first fit in the order of the smallest keys
takes as many runs as there are files over one key.
-/
import DiffKV.SortedRuns
import Mathlib.Order.Bounds.Basic

namespace DiffKV

open Lib List

/-- Each file of the list starts after the one before it ends. -/
abbrev SortedRun (files : List BlobFileMeta) : Prop :=
  Successive (fun f : BlobFileMeta => f.smallestKey.bytes) (·.largestKey.bytes) files

/-- The key is in the file's closed range. -/
abbrev BlobFileMeta.Spans (key : Bytes) (f : BlobFileMeta) : Prop :=
  Over (·.smallestKey.bytes) (·.largestKey.bytes) key f

/-- Sizes that fit an `int` are reported as they are. -/
theorem sum_toInt_ofNat {sizes : List Nat} (h : sizes.sum < 2 ^ 31) :
    (sizes.map fun n => (Int32.ofNat n).toInt).sum = (sizes.sum : Int) := by
  induction sizes with
  | nil => rfl
  | cons n sizes ih =>
    rw [sum_cons] at h
    have hn : (Int32.ofNat n).toInt = n := Int32.toInt_ofNat_of_lt (by omega)
    rw [map_cons, sum_cons, ih (by omega), hn, sum_cons]
    omega

/-- **Sorted runs.** The runs are sequences of files one after the other,
each file is in one of them, and no cut of the files into such sequences
has fewer: there is a key that as many files span. Their sizes, as `int`s,
sum up to the number of the files if that is one. -/
theorem countSortedRun_exact (sort : List BlobFileMeta → List BlobFileMeta)
    (files : List BlobFileMeta) (hperm : (sort files).Perm files)
    (hsorted : (sort files).Pairwise fun f g =>
      ¬ g.smallestKey.bytes < f.smallestKey.bytes)
    (hkeys : ∀ f ∈ files, f.smallestKey.bytes ≤ f.largestKey.bytes) :
    let runs := sortedRuns (sort files)
    (∀ s ∈ runs, SortedRun s.toList) ∧ (runs.flatMap Run.toList).Perm files
      ∧ (∀ cut : List (List BlobFileMeta), (∀ s ∈ cut, SortedRun s) →
          cut.flatten.Perm files → runs.length ≤ cut.length)
      ∧ IsGreatest {n | ∃ key, n = files.countP (BlobFileMeta.Spans key)} runs.length
      ∧ countSortedRun sort files = runs.map (fun s => Int32.ofNat s.size)
      ∧ (runs.map Run.size).sum = files.length
      ∧ (files.length < 2 ^ 31 →
          ((countSortedRun sort files).map Int32.toInt).sum = (files.length : Int)) := by
  intro runs
  have hruns : (elements runs).Perm files := (elements_firstFit _ _ _).trans hperm
  have hchains : ∀ s ∈ runs, SortedRun s.toList := successive_firstFit
  have hkeys' : ∀ f ∈ sort files, f.smallestKey.bytes ≤ f.largestKey.bytes :=
    fun f hf => hkeys f (hperm.mem_iff.1 hf)
  -- a key of as many files as there are runs, and no key of more
  obtain ⟨key, hover⟩ := firstFit_over [] hkeys' hsorted
  rw [hperm.countP_eq] at hover
  have hbound : ∀ (cut : List (List BlobFileMeta)) (k : Bytes),
      (∀ s ∈ cut, SortedRun s) → cut.flatten.Perm files →
        files.countP (BlobFileMeta.Spans k) ≤ cut.length := by
    intro cut k hcut hflat
    rw [← hflat.countP_eq]
    exact countP_flatten_le hcut fun f hf => hkeys f (hflat.mem_iff.1 hf)
  have hself : ∀ k, files.countP (BlobFileMeta.Spans k) ≤ runs.length := by
    intro k
    have h := hbound (runs.map Run.toList) k (by simpa using hchains) hruns
    rwa [length_map] at h
  have hsum : (runs.map Run.size).sum = files.length := by
    rw [← length_elements, hruns.length_eq]
  refine ⟨hchains, hruns, ?_, ⟨⟨key, ?_⟩, ?_⟩, rfl, hsum, ?_⟩
  · exact fun cut hcut hflat => Nat.le_trans hover (hbound cut key hcut hflat)
  · exact Nat.le_antisymm hover (hself key)
  · rintro n ⟨k, rfl⟩
    exact hself k
  · intro hlt
    rw [← hsum] at hlt ⊢
    rw [← sum_toInt_ofNat hlt, countSortedRun, map_map, map_map]
    rfl

/-- A file of the keys from one to another. -/
def fileOver (smallest largest : UserKey) : BlobFileMeta :=
  { fileNumber := 1, fileSize := 100, smallestKey := smallest,
    largestKey := largest }

/-- The first and the last go into one run. -/
def overlapping : List BlobFileMeta :=
  [fileOver (.byte 1) (.byte 3), fileOver (.byte 2) (.byte 5), fileOver (.byte 4) (.byte 6)]

theorem countSortedRun_overlapping :
    countSortedRun id overlapping = [2, 1]
      ∧ IsGreatest {n | ∃ key, n = overlapping.countP
        (BlobFileMeta.Spans key)} 2 :=
  ⟨by decide +kernel, (countSortedRun_exact id overlapping (.refl _)
    (by decide +kernel) (by decide +kernel)).2.2.2.1⟩

/-- The key of so many zeros. -/
def zeros (i : Fin (2 ^ 31)) : UserKey where
  bytes := List.replicate i 0
  fits := by
    rw [List.length_replicate]
    omega

/-- Files of one key each. -/
def manyFiles : List BlobFileMeta :=
  (List.finRange (2 ^ 31)).map fun i => fileOver (zeros i) (zeros i)

theorem zeros_lt {i j : Nat} (h : i < j) : replicate i (0 : UInt8) < replicate j 0 := by
  induction i generalizing j with
  | zero =>
    cases j with
    | zero => omega
    | succ j => exact nil_lt_cons 0 _
  | succ i ih =>
    cases j with
    | zero => omega
    | succ j =>
      rw [replicate_succ, replicate_succ, cons_lt_cons_self]
      exact ih (by omega)

theorem countSortedRun_wraps :
    SortedRun manyFiles ∧ manyFiles.length = 2 ^ 31 ∧ countSortedRun id manyFiles = [-2 ^ 31] := by
  have hrun : SortedRun manyFiles := by
    refine List.Pairwise.isChain (pairwise_map.2 ?_)
    exact (pairwise_lt_finRange _).imp fun h => zeros_lt h
  have hlen : manyFiles.length = 2 ^ 31 := by
    rw [manyFiles, length_map, length_finRange]
  refine ⟨hrun, hlen, ?_⟩
  have hne : manyFiles ≠ [] := ne_nil_of_length_pos (by rw [hlen]; decide)
  obtain ⟨s, hs, hlist⟩ := map_eq_singleton_iff.1 (firstFit_of_successive hrun hne)
  rw [countSortedRun, id, sortedRuns, hs, map_singleton, Run.size, hlist, hlen]
  decide

end DiffKV
