/-
What the GC picker takes.

The loop of `PickBlobGC` goes on after its batch is full, to see how much
there is left; `pickLoop_fill` and `pickLoop_full` say what it leaves in
its variables, from any state on. The batch is the shortest front of the
eligible files that reaches the maximal size, in the 64-bit arithmetic of
`batch_size`, which is that of numbers as long as the eligible files have
fewer than 2^64 bytes.
-/
import DiffKV.GcFiles
import DiffKV.Lib.Batch

namespace DiffKV

open Lib List BlobFileMeta Option

namespace BlobStorage

variable {s : BlobStorage}

/-- A file GC may take: in the normal state and, where compactions merge
sorted files, not sorted. -/
def Eligible (s : BlobStorage) (file : BlobFileMeta) : Prop :=
  file.state = .kNormal ∧ (s.cfOptions.levelMerge = true → file.fileType ≠ kSorted)

instance (s : BlobStorage) (file : BlobFileMeta) : Decidable (s.Eligible file) :=
  inferInstanceAs (Decidable (_ ∧ _))

/-- The files of the scores that GC may take. -/
def eligible (s : BlobStorage) (scores : List GCScore) : List BlobFileMeta :=
  (scores.filterMap fun score => s.findFile score.fileNumber).filter fun file => s.Eligible file

theorem noNeedGC_eq_false_iff {file : BlobFileMeta} :
    s.noNeedGC file = false ↔ s.Eligible file := by
  unfold noNeedGC Eligible
  simp

theorem eligible_cons {score : GCScore} {file : BlobFileMeta}
    (hfile : s.findFile score.fileNumber = some file) (rest : List GCScore) :
    s.eligible (score :: rest)
      = if s.noNeedGC file then s.eligible rest else file :: s.eligible rest := by
  unfold eligible
  rw [filterMap_cons_some (f := fun e : GCScore =>
    s.findFile e.fileNumber) hfile]
  cases hneed : s.noNeedGC file with
  | true =>
    have hnot : ¬ s.Eligible file := by
      rw [← noNeedGC_eq_false_iff, hneed]
      decide
    exact filter_cons_of_neg (by simpa using hnot)
  | false =>
    have heligible := noNeedGC_eq_false_iff.1 hneed
    exact filter_cons_of_pos (by simpa using heligible)

/-- Once the batch is full the loop leaves it as it is. -/
theorem pickLoop_full (options : GcBatchOptions) (st : PickState)
    (hfull : st.stopPicking = true) (scores : List GCScore)
    (hscored : ∀ e ∈ scores, (s.findFile e.fileNumber).isSome = true) :
    ∃ st', s.pickLoop options st scores = some st'
      ∧ st'.blobFiles = st.blobFiles ∧ st'.batchSize = st.batchSize := by
  induction scores with
  | nil => exact ⟨st, rfl, rfl, rfl⟩
  | cons score rest ih =>
    obtain ⟨hfirst, hrest⟩ := forall_mem_cons.1 hscored
    obtain ⟨file, hfile⟩ := isSome_iff_exists.1 hfirst
    unfold pickLoop
    rw [hfile]
    dsimp only
    split
    case isTrue => exact ih hrest
    case isFalse =>
      rw [hfull]
      simp only [Bool.not_true, Bool.false_eq_true, if_false]
      split
      · exact ⟨_, rfl, rfl, rfl⟩
      · exact ih hrest

/-- Until then it fills the batch with the eligible files. -/
theorem pickLoop_fill (options : GcBatchOptions) (st : PickState)
    (hroom : st.stopPicking = false) (scores : List GCScore)
    (hscored : ∀ e ∈ scores, (s.findFile e.fileNumber).isSome = true) :
    ∃ st', s.pickLoop options st scores = some st'
      ∧ st'.blobFiles = st.blobFiles ++ fill fileSize
        options.maxGcBatchSize st.batchSize (s.eligible scores)
      ∧ st'.batchSize = accumulate fileSize st.batchSize
        (fill fileSize options.maxGcBatchSize st.batchSize (s.eligible scores)) := by
  induction scores generalizing st with
  | nil => exact ⟨st, rfl, (append_nil _).symm, rfl⟩
  | cons score rest ih =>
    obtain ⟨hfirst, hrest⟩ := forall_mem_cons.1 hscored
    obtain ⟨file, hfile⟩ := isSome_iff_exists.1 hfirst
    unfold pickLoop
    rw [hfile, eligible_cons hfile]
    dsimp only
    cases hneed : s.noNeedGC file with
    | true => exact ih st hroom hrest
    | false =>
      rw [if_neg Bool.false_ne_true, if_neg Bool.false_ne_true, hroom]
      unfold fill
      by_cases hlimit : options.maxGcBatchSize ≤ st.batchSize + file.fileSize
      case pos =>
        -- the file that fills the batch
        rw [if_pos hlimit]
        exact pickLoop_full options _ (decide_eq_true hlimit) rest hrest
      case neg =>
        rw [if_neg hlimit]
        obtain ⟨st', hloop, hfiles, hsize⟩ := ih { st with
            blobFiles := st.blobFiles ++ [file]
            batchSize := st.batchSize + file.fileSize
            stopPicking := decide (st.batchSize + file.fileSize ≥ options.maxGcBatchSize) }
          (decide_eq_false hlimit) hrest
        refine ⟨st', hloop, ?_, hsize⟩
        rw [hfiles, append_assoc]
        rfl

/-- What marking does to the files. -/
theorem findFile_markFilesBeingGC (s : BlobStorage) (inputs : List UInt64) (n : UInt64) :
    (s.markFilesBeingGC inputs).findFile n
      = if n ∈ inputs then (s.findFile n).map (·.fileStateTransit .kGCBegin) else s.findFile n := by
  induction inputs generalizing s with
  | nil => rfl
  | cons k inputs ih =>
    have hstep : (s.markFilesBeingGC (k :: inputs)).findFile n
        = ((s.transit k .kGCBegin).markFilesBeingGC inputs).findFile n := rfl
    rw [hstep, ih, findFile_transit]
    by_cases hk : n = k
    · -- marking twice is marking once
      rw [if_pos hk, if_pos (mem_cons.2 (.inl hk))]
      split
      · rw [Option.map_map]
        rfl
      · rfl
    · rw [if_neg hk]
      simp only [mem_cons, hk, false_or]

/-- **The batch.** `PickBlobGC` returns nothing and leaves the files as
they are, or it takes the eligible files in the order of the scores up to
the first at which `batch_size` reaches `max_gc_batch_size`, all of them
if it never does; it is then at least `min_gc_batch_size`, and these
files and no others are marked. `batch_size` is a 64-bit sum; where the
eligible files have fewer than 2^64 bytes, the same holds of the sizes as
numbers. -/
theorem pickBlobGC_takes_shortest (options : GcBatchOptions) (s : BlobStorage)
    (hscored : ∀ e ∈ s.gcScore, (s.findFile e.fileNumber).isSome = true)
    (_htarget : 0 < s.cfOptions.blobFileTargetSize) :
    s.pickAndMark options = some (none, s)
      ∨ ∃ files triggerNext marked, s.pickAndMark options = some (some (files, triggerNext), marked)
        ∧ files ≠ []
        ∧ ShortestFill BlobFileMeta.fileSize options.maxGcBatchSize 0 (s.eligible s.gcScore) files
        ∧ options.minGcBatchSize ≤ accumulate BlobFileMeta.fileSize 0 files
        ∧ (accumulate (fun f : BlobFileMeta => f.fileSize.toNat) 0 (s.eligible s.gcScore) < 2 ^ 64 →
          ShortestFill (fun f : BlobFileMeta => f.fileSize.toNat)
            options.maxGcBatchSize.toNat 0 (s.eligible s.gcScore) files
          ∧ options.minGcBatchSize.toNat
            ≤ accumulate (fun f : BlobFileMeta => f.fileSize.toNat) 0 files)
        ∧ ∀ n, marked.findFile n = if n ∈ files.map BlobFileMeta.fileNumber then
              (s.findFile n).map fun f => { f with state := .kBeingGC }
            else s.findFile n := by
  obtain ⟨st, hloop, hfiles, hsize⟩ := pickLoop_fill options {} rfl s.gcScore hscored
  unfold pickAndMark pickBlobGC
  rw [hloop]
  dsimp only
  cases hdeclines : s.declines options st with
  | true => exact .inl rfl
  | false =>
    have hfill : st.blobFiles = fill fileSize
        options.maxGcBatchSize 0 (s.eligible s.gcScore) := hfiles
    have hshortest := shortestFill fileSize options.maxGcBatchSize (s.eligible s.gcScore) 0
    rw [← hfill] at hshortest
    have hsum : st.batchSize = accumulate fileSize 0 st.blobFiles := by
      rw [hsize, hfill]
    unfold declines at hdeclines
    simp only [Bool.or_eq_false_iff, isEmpty_eq_false_iff,
      decide_eq_false_iff_not, UInt64.not_lt] at hdeclines
    have hmin := hsum ▸ hdeclines.1.2
    refine .inr ⟨st.blobFiles, st.maybeContinueNextTime, _, rfl,
      hdeclines.1.1, hshortest, hmin, ?_, findFile_markFilesBeingGC s _⟩
    intro hfits
    refine ⟨hshortest.toNat hfits, ?_⟩
    have hle := accumulate_le_of_prefix (fun f : BlobFileMeta => f.fileSize.toNat) 0 hshortest.front
    have htrue := accumulate_toNat fileSize 0 st.blobFiles (Nat.lt_of_le_of_lt hle hfits)
    rw [UInt64.le_iff_toNat_le, htrue] at hmin
    exact hmin

end BlobStorage

/-- A storage with three files that GC may take, scored. -/
def threeSized (size : UInt64) : BlobStorage :=
  { ((({ dbOptions := {}, cfOptions := {} } : BlobStorage).addBlobFile
      { fileNumber := 1, fileSize := size, state := .kNormal }).addBlobFile
      { fileNumber := 2, fileSize := size, state := .kNormal }).addBlobFile
      { fileNumber := 3, fileSize := size, state := .kNormal } with
    gcScore := [{ fileNumber := 1, score := 0 },
      { fileNumber := 2, score := 0 }, { fileNumber := 3, score := 0 }] }

/-- Of three files of 600 MiB, two make up the default batch of 1 GiB. -/
theorem threeSized_picks_two :
    ∃ files triggerNext marked,
      (threeSized (600 * 2 ^ 20)).pickAndMark {} = some (some (files, triggerNext), marked)
      ∧ files.map BlobFileMeta.fileNumber = [1, 2]
      ∧ ShortestFill (fun f : BlobFileMeta => f.fileSize.toNat) (2 ^ 30) 0
        ((threeSized (600 * 2 ^ 20)).eligible (threeSized (600 * 2 ^ 20)).gcScore) files
      ∧ marked.findFile 3 = (threeSized (600 * 2 ^ 20)).findFile 3 := by
  have hpicks : ((threeSized (600 * 2 ^ 20)).pickAndMark {}).map
      (fun r => r.1.map fun p => p.1.map fileNumber) = some (some [1, 2]) := by decide +kernel
  rcases BlobStorage.pickBlobGC_takes_shortest {}
      (threeSized (600 * 2 ^ 20)) (by decide +kernel) (by decide +kernel) with
    hnone | ⟨files, triggerNext, marked, hsome, -, -, -, hfits, hmarked⟩
  · rw [hnone] at hpicks
    cases hpicks
  · rw [hsome, map_some, map_some, some.injEq, some.injEq] at hpicks
    refine ⟨files, triggerNext, marked, hsome, hpicks, (hfits (by decide +kernel)).1, ?_⟩
    rw [hmarked, if_neg]
    rw [hpicks]
    decide

/-- Three files of 2^63 bytes: the first two have 2^64 bytes, more than
the maximum, but `batch_size` is 0 after them and the third is taken
too. -/
theorem threeSized_picks_all :
    ((threeSized (2 ^ 63)).pickAndMark { maxGcBatchSize := 2 ^ 64 - 1, minGcBatchSize := 1 }).map
        (fun r => r.1.map fun p => p.1.map BlobFileMeta.fileNumber) = some (some [1, 2, 3])
      ∧ (2 ^ 64 - 1 : UInt64).toNat
        ≤ accumulate (fun f : BlobFileMeta => f.fileSize.toNat) 0
          (((threeSized (2 ^ 63)).eligible (threeSized (2 ^ 63)).gcScore).take 2) := by
  decide +kernel

end DiffKV
