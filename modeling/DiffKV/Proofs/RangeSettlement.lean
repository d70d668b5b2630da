/-
What `DeleteFilesInRanges` charges to the blob files.

The bytes of the dropped tables are added to the counters of their files
directly. With `level_merge` on, the same bytes also go into an edit: a
file without live data is deleted, any other is updated. The edit is left
at the column family an edit has by default, so its updates are added a
second time to the files of that family, and its deletions have to be of
live files there. `DeleteBlobFilesInRanges` has just retired the files
inside the ranges; one of them among the deletions makes the whole edit
fail, which nobody notices.
-/
import DiffKV.RangeDeletion
import DiffKV.Proofs.Accounting
import DiffKV.Proofs.RangeCharges
import DiffKV.Proofs.RangeSelection

namespace DiffKV

open Lib BlobFileMeta Option BlobFileSet SizeDiff ChargeState

-- ==== the file set

namespace BlobFileSet

variable {C : Coding} {fs : BlobFileSet} {cfId : UInt32} {st : BlobStorage}
  {env : RangeSettleEnv} {sizes : BlobFilesSize}

/-- The file set once the loop is through. -/
def charged (fs : BlobFileSet) (env : RangeSettleEnv) (cfId : UInt32)
    (sizes : BlobFilesSize) : BlobFileSet :=
  match fs.columnFamilies.lookup cfId with
  | none => fs
  | some s =>
    let a := ChargeState.settle env s sizes
    fs.onStorage cfId fun _ =>
      { a.storage with stats := a.storage.stats.sub .LIVE_BLOB_SIZE a.delta }

/-- The edit the loop builds. -/
def settleEdit (fs : BlobFileSet) (env : RangeSettleEnv) (cfId : UInt32)
    (sizes : BlobFilesSize) : VersionEdit :=
  match fs.columnFamilies.lookup cfId with
  | none => {}
  | some s => (ChargeState.settle env s sizes).edit

theorem settleRanges_eq (hst : fs.columnFamilies.lookup cfId = some st) :
    settleRanges C env fs cfId sizes = if st.cfOptions.levelMerge then
          ((fs.charged env cfId sizes).logAndApply C (fs.settleEdit env cfId sizes) env.io).2
        else (fs.charged env cfId sizes).onStorage cfId (·.computeGCScore) := by
  unfold settleRanges settleEdit charged getBlobStorage
  rw [hst]
  rfl

theorem file_charged (hst : fs.columnFamilies.lookup cfId = some st) (i : UInt32) (n : UInt64) :
    (fs.charged env cfId sizes).file i n = if i = cfId then (fs.file i n).map fun m =>
          (sizes.lookup n).elim m (m.settled env st.cfOptions ·) else fs.file i n := by
  unfold charged
  rw [hst]
  rw [file_onStorage]
  split
  case isFalse => rfl
  case isTrue hi =>
    rw [hi, file_of_lookup hst, hst]
    exact findFile_settle ..

/-- The end of the call applies the edit or only charges the files. -/
theorem settleRanges_cases (env : RangeSettleEnv) (sizes : BlobFilesSize)
    (hst : fs.columnFamilies.lookup cfId = some st) :
    ((st.cfOptions.levelMerge = true
        ∧ (fs.charged env cfId sizes).Admits (fs.settleEdit env cfId sizes) ∧ env.io = .ok)
      ∧ settleRanges C env fs cfId sizes
        = ((fs.charged env cfId sizes).logAndApply C (fs.settleEdit env cfId sizes) .ok).2)
    ∨ (¬ (st.cfOptions.levelMerge = true
        ∧ (fs.charged env cfId sizes).Admits (fs.settleEdit env cfId sizes) ∧ env.io = .ok)
      ∧ ∀ i n, (settleRanges C env fs cfId sizes).file i n
        = (fs.charged env cfId sizes).file i n) := by
  rw [settleRanges_eq hst]
  by_cases hmerge : st.cfOptions.levelMerge = true
  case neg =>
    refine .inr ⟨fun h => hmerge h.1, fun i n => ?_⟩
    rw [if_neg hmerge, file_onStorage]
    split <;> rfl
  case pos =>
    rw [if_pos hmerge]
    by_cases happlies : (fs.charged env cfId sizes).Admits
        (fs.settleEdit env cfId sizes) ∧ env.io = .ok
    · rw [happlies.2]
      exact .inl ⟨⟨hmerge, happlies.1, rfl⟩, rfl⟩
    · exact .inr ⟨fun h => happlies h.2, fun i n =>
        file_of_not_applied happlies i n⟩

-- ---- the counters

/-- The counter of a file. -/
def counter (fs : BlobFileSet) (i : UInt32) (n : UInt64) : Option UInt64 :=
  (fs.file i n).map (·.discardableSize)

theorem counter_charged (hst : fs.columnFamilies.lookup cfId = some st) (i : UInt32) (n : UInt64) :
    (fs.charged env cfId sizes).counter i n
      = if i = cfId then (fs.counter i n).map (· + sizeOf sizes n) else fs.counter i n := by
  unfold counter SizeDiff.sizeOf
  rw [file_charged hst]
  split
  case isFalse => rfl
  case isTrue =>
    rw [map_map, map_map]
    congr 1
    funext m
    cases sizes.lookup n with
    | none => simp
    | some d =>
      show (m.settled env st.cfOptions d).discardableSize = _
      unfold settled
      dsimp only
      split <;> rfl

/-- An applied edit that adds no file. -/
theorem counter_edit {e : VersionEdit} (hadd : e.addedFiles = [])
    (h : fs.Admits e) (i : UInt32) (n : UInt64) :
    (fs.logAndApply C e .ok).2.counter i n
      = if i = e.columnFamilyId then (fs.counter i n).map
          (· + (e.updatedDiscardableSize.lookup n).getD 0) else fs.counter i n := by
  unfold counter
  rw [file_deletion hadd h]
  split
  case isFalse => rfl
  case isTrue =>
    rw [map_map, map_map]
    congr 1
    funext m
    unfold edited
    split <;> rfl

-- ---- the deletions

/-- The file is left without live data once it is charged. -/
def Emptied (fs : BlobFileSet) (cfId : UInt32) (sizes : BlobFilesSize) (n : UInt64) : Prop :=
  ∃ d m, sizes.lookup n = some d ∧ fs.file cfId n = some m
    ∧ (m.addDiscardableSize d).noLiveData = true

/-- Charging a file does not retire it. -/
theorem live_charged (env : RangeSettleEnv) (sizes : BlobFilesSize)
    (hst : fs.columnFamilies.lookup cfId = some st) (i : UInt32) (n : UInt64) :
    ((fs.charged env cfId sizes).live i n).isSome = (fs.live i n).isSome := by
  unfold live
  rw [file_charged hst]
  split
  case isFalse => rfl
  case isTrue =>
    cases fs.file i n with
    | none => rfl
    | some m =>
      cases sizes.lookup n with
      | none => rfl
      | some d =>
        have hsettled := m.settled_isObsolete env st.cfOptions d
        cases hm : m.isObsolete <;> simp [hsettled, hm]

@[simp] theorem addedFiles_settleEdit : (fs.settleEdit env cfId sizes).addedFiles = [] := by
  unfold settleEdit
  split
  · rfl
  · exact addedFiles_settle ..

/-- The edit is never told its column family. -/
@[simp] theorem columnFamilyId_settleEdit : (fs.settleEdit env cfId sizes).columnFamilyId = 0 := by
  unfold settleEdit
  split
  · rfl
  · exact columnFamilyId_settle ..

theorem nodup_settleEdit : ((fs.settleEdit env cfId sizes).deletedFiles.map Prod.fst).Nodup := by
  unfold settleEdit
  split
  · exact List.nodup_nil
  · exact nodup_deleted_settle ..

theorem lookup_charged_isSome (env : RangeSettleEnv) (cfId : UInt32)
    (sizes : BlobFilesSize) (i : UInt32) :
    ((fs.charged env cfId sizes).columnFamilies.lookup i).isSome
      = (fs.columnFamilies.lookup i).isSome := by
  unfold charged
  split
  · rfl
  · rw [lookup_onStorage]
    split <;> simp

/-- What the edit deletes. -/
theorem mem_deleted_settleEdit (env : RangeSettleEnv) (sizes : BlobFilesSize)
    (hst : fs.columnFamilies.lookup cfId = some st)
    (hmerge : st.cfOptions.levelMerge = true) (n : UInt64) :
    n ∈ (fs.settleEdit env cfId sizes).deletedFiles.map Prod.fst ↔ fs.Emptied cfId sizes n := by
  unfold settleEdit Emptied
  rw [hst, file_of_lookup hst]
  simp only [mem_deleted_settle, emptied, hmerge, Bool.true_and]

/-- The edit passes the checks if every file it deletes is a live one of
the default column family, should that be open. -/
theorem admits_settleEdit_iff (hst : fs.columnFamilies.lookup cfId = some st)
    (hmerge : st.cfOptions.levelMerge = true) :
    (fs.charged env cfId sizes).Admits (fs.settleEdit env cfId sizes)
      ↔ ((fs.columnFamilies.lookup 0).isSome = true →
        ∀ n, fs.Emptied cfId sizes n → (fs.live 0 n).isSome = true) := by
  rw [admits_deletion_live_iff addedFiles_settleEdit,
    columnFamilyId_settleEdit, and_iff_right nodup_settleEdit, lookup_charged_isSome]
  simp only [mem_deleted_settleEdit env sizes hst hmerge, live_charged env sizes hst]

/-- What the edit adds to the counter of a file once more. -/
theorem updated_settleEdit (env : RangeSettleEnv) (sizes : BlobFilesSize)
    (hst : fs.columnFamilies.lookup cfId = some st)
    (hmerge : st.cfOptions.levelMerge = true) (n : UInt64) :
    ((fs.settleEdit env cfId sizes).updatedDiscardableSize.lookup n).getD 0
      = if (fs.file cfId n).any fun m => !(m.addDiscardableSize (sizeOf sizes n)).noLiveData then
          sizeOf sizes n
        else 0 := by
  unfold settleEdit SizeDiff.sizeOf
  rw [hst, file_of_lookup hst]
  rw [lookup_updated_settle]
  cases sizes.lookup n with
  | none => simp
  | some d =>
    cases st.findFile n with
    | none => rfl
    | some m =>
      show (m.update env st.cfOptions d).getD 0 = _
      unfold update
      dsimp only
      rw [hmerge, any_some, getD_some]
      cases hn : (m.addDiscardableSize d).noLiveData with
      | true => simp
      | false =>
        by_cases hd : d > 0
        · simp [hd]
        · have hzero : d = 0 := UInt64.le_zero_iff.1 (UInt64.not_lt.1 hd)
          rw [hzero]
          split <;> simp

-- ---- after the range edit

/-- A storage keeps its options over an edit. -/
theorem cfOptions_logAndApply (hst : fs.columnFamilies.lookup cfId = some st)
    (e : VersionEdit) (io : ManifestIO) :
    ∃ st', (fs.logAndApply C e io).2.columnFamilies.lookup cfId = some st'
      ∧ st'.cfOptions = st.cfOptions := by
  rcases lookup_logAndApply_cases (C := C) fs e io cfId with
    hsame | ⟨st', -, -, -, hst', hafter⟩
  · exact ⟨st, hsame.trans hst, rfl⟩
  · cases hst.symm.trans hst'
    exact ⟨_, hafter, (CFEditCollector.apply_options st).2.1⟩

section Ranges

variable {files : List UInt64} (hadm : fs.Admits (rangeEdit cfId files))

include hadm

/-- Retiring a file leaves its account. -/
theorem exists_file_rangeEdit (i : UInt32) (n : UInt64) (P : BlobFileMeta → Prop)
    (hP : ∀ m, P (m.fileStateTransit .kDelete) ↔ P m) :
    (∃ m, (fs.logAndApply C (rangeEdit cfId files) .ok).2.file i n = some m ∧ P m)
      ↔ ∃ m, fs.file i n = some m ∧ P m := by
  rw [file_rangeEdit hadm]
  split
  case isFalse => rfl
  case isTrue =>
    cases fs.file i n with
    | none => simp
    | some m => by_cases hn : n ∈ files <;> simp [hn, hP]

/-- So does whether one that keeps live data is charged. -/
theorem unsettled_rangeEdit (n : UInt64) :
    (∀ m, (fs.logAndApply C (rangeEdit cfId files) .ok).2.file cfId n = some m →
      (m.addDiscardableSize (sizeOf sizes n)).noLiveData = false → sizeOf sizes n = 0)
    ↔ ∀ m, fs.file cfId n = some m → (m.addDiscardableSize (sizeOf sizes n)).noLiveData = false →
      sizeOf sizes n = 0 := by
  have hkept := exists_file_rangeEdit (C := C) hadm cfId n
    (fun m => (m.addDiscardableSize (sizeOf sizes n)).noLiveData = false) fun _ => Iff.rfl
  simp only [← and_imp, ← exists_imp, hkept]

theorem emptied_rangeEdit (n : UInt64) :
    (fs.logAndApply C (rangeEdit cfId files) .ok).2.Emptied cfId sizes n
      ↔ fs.Emptied cfId sizes n := by
  refine exists_congr fun d => ?_
  simp only [exists_and_left]
  refine and_congr_right fun _ => ?_
  exact exists_file_rangeEdit hadm cfId n
    (fun m => (m.addDiscardableSize d).noLiveData = true) fun _ => Iff.rfl

theorem counter_rangeEdit (i : UInt32) (n : UInt64) :
    (fs.logAndApply C (rangeEdit cfId files) .ok).2.counter i n = fs.counter i n := by
  unfold counter
  rw [file_rangeEdit hadm]
  split
  case isFalse => rfl
  case isTrue =>
    rw [map_map]
    congr 1
    funext m
    by_cases hn : n ∈ files <;> simp [hn, fileStateTransit]

theorem live_rangeEdit (i : UInt32) (n : UInt64) :
    ((fs.logAndApply C (rangeEdit cfId files) .ok).2.live i n).isSome = true
      ↔ (fs.live i n).isSome = true ∧ ¬ (i = cfId ∧ n ∈ files) := by
  rw [live_isSome_iff, live_isSome_iff, file_rangeEdit hadm]
  by_cases hi : i = cfId
  case neg => simp [hi]
  case pos =>
    cases fs.file i n with
    | none => simp
    | some m =>
      by_cases hn : n ∈ files <;> simp [hi, hn, isObsolete, fileStateTransit, FileState.next]

end Ranges

-- ==== the edit as a whole

/-- The edit passes the checks; applied, it leaves every file without
live data obsolete and every other update in the counter of its file. -/
structure Applicable (C : Coding) (env : RangeSettleEnv) (fs : BlobFileSet)
    (cfId : UInt32) (sizes : BlobFilesSize) : Prop where
  admitted : (fs.charged env cfId sizes).Admits (fs.settleEdit env cfId sizes)
  retired : ∀ n, fs.Emptied cfId sizes n →
    ((fs.charged env cfId sizes).logAndApply C
      (fs.settleEdit env cfId sizes) .ok).2.obsolete cfId n = true
  recorded : ∀ n d, (fs.settleEdit env cfId sizes).updatedDiscardableSize.lookup n = some d →
    ((fs.charged env cfId sizes).logAndApply C (fs.settleEdit env cfId sizes) .ok).2.counter cfId n
      = ((fs.charged env cfId sizes).counter cfId n).map (· + d)

/-- What the edit takes, with `files` about to be retired. In the default
column family every file left without live data is live and not among
them. In any other column family all of those are obsolete or among them,
and are live in the default one if that is open, and nothing is charged
to a file that keeps live data. -/
def Settles (fs : BlobFileSet) (cfId : UInt32) (files : List UInt64)
    (sizes : BlobFilesSize) : Prop :=
  if cfId = 0 then
    ∀ n, fs.Emptied cfId sizes n → (fs.live 0 n).isSome = true ∧ n ∉ files
  else
    (∀ n, fs.Emptied cfId sizes n → ((fs.live cfId n).isSome = true → n ∈ files)
      ∧ ((fs.columnFamilies.lookup 0).isSome = true → (fs.live 0 n).isSome = true))
    ∧ ∀ n m, fs.file cfId n = some m →
      (m.addDiscardableSize (SizeDiff.sizeOf sizes n)).noLiveData = false →
      SizeDiff.sizeOf sizes n = 0

theorem Emptied.file_isSome {n : UInt64} (h : fs.Emptied cfId sizes n) :
    ∃ m, fs.file cfId n = some m := by
  obtain ⟨_, m, -, hm, -⟩ := h
  exact ⟨m, hm⟩

theorem applicable_default (hst : fs.columnFamilies.lookup 0 = some st)
    (hmerge : st.cfOptions.levelMerge = true) :
    Applicable C env fs 0 sizes ↔ ∀ n, fs.Emptied 0 sizes n → (fs.live 0 n).isSome = true := by
  have hopen : (fs.columnFamilies.lookup 0).isSome = true := by
    rw [hst]
    rfl
  constructor
  · intro h
    exact (admits_settleEdit_iff hst hmerge).1 h.admitted hopen
  · intro h
    have hadm : (fs.charged env 0 sizes).Admits (fs.settleEdit env 0 sizes) :=
      (admits_settleEdit_iff hst hmerge).2 fun _ => h
    refine ⟨hadm, fun n hn => ?_, fun n d hd => ?_⟩
    · have hdeleted := (mem_deleted_settleEdit env sizes hst hmerge n).2 hn
      obtain ⟨m, hm⟩ := hn.file_isSome
      unfold obsolete
      rw [file_deletion addedFiles_settleEdit hadm, columnFamilyId_settleEdit,
        if_pos rfl, file_charged hst, if_pos rfl, hm]
      simp only [map_some, any_some]
      unfold edited
      rw [if_pos hdeleted]
      rfl
    · rw [counter_edit addedFiles_settleEdit hadm, columnFamilyId_settleEdit,
        if_pos rfl, hd, getD_some]

/-- An edit of the default column family is none of this one. -/
theorem file_settleEdit_other (hne : cfId ≠ 0)
    (hadm : (fs.charged env cfId sizes).Admits (fs.settleEdit env cfId sizes)) (n : UInt64) :
    ((fs.charged env cfId sizes).logAndApply C (fs.settleEdit env cfId sizes) .ok).2.file cfId n
      = (fs.charged env cfId sizes).file cfId n := by
  rw [file_deletion addedFiles_settleEdit hadm, columnFamilyId_settleEdit, if_neg hne]

theorem obsolete_iff_not_live {i : UInt32} {n : UInt64} (h : ∃ m, fs.file i n = some m) :
    fs.obsolete i n = true ↔ ¬ (fs.live i n).isSome = true := by
  obtain ⟨m, hm⟩ := h
  rw [live_isSome_iff]
  unfold obsolete
  rw [hm]
  simp

/-- The counters as charged take an update once more only if it is of
nothing. -/
theorem recorded_iff (env : RangeSettleEnv) (sizes : BlobFilesSize)
    (hst : fs.columnFamilies.lookup cfId = some st) (hmerge : st.cfOptions.levelMerge = true) :
    (∀ n d, (fs.settleEdit env cfId sizes).updatedDiscardableSize.lookup n = some d →
      (fs.charged env cfId sizes).counter cfId n
        = ((fs.charged env cfId sizes).counter cfId n).map (· + d))
    ↔ ∀ n m, fs.file cfId n = some m → (m.addDiscardableSize (sizeOf sizes n)).noLiveData = false →
      sizeOf sizes n = 0 := by
  have hvalue := updated_settleEdit env sizes hst hmerge
  constructor
  · intro h n m hm hlive
    have hn := hvalue n
    rw [hm, any_some, hlive, Bool.not_false, if_pos rfl] at hn
    cases hd : (fs.settleEdit env cfId sizes).updatedDiscardableSize.lookup n with
    | none =>
      rw [hd] at hn
      exact hn.symm
    | some d =>
      rw [hd, getD_some] at hn
      have hcounter := h n d hd
      unfold counter at hcounter
      rw [file_charged hst, if_pos rfl, hm] at hcounter
      rw [← hn]
      exact UInt64.left_eq_add.1 (some.inj hcounter)
  · intro h n d hd
    have hn := hvalue n
    rw [hd, getD_some] at hn
    have hzero : d = 0 := by
      rw [hn]
      split
      case isFalse => rfl
      case isTrue hany =>
        obtain ⟨m, hm, hlive⟩ := (any_eq_true ..).1 hany
        exact h n m hm (by simpa using hlive)
    rw [hzero]
    simp

theorem applicable_other (hne : cfId ≠ 0) (hst : fs.columnFamilies.lookup cfId = some st)
    (hmerge : st.cfOptions.levelMerge = true) :
    Applicable C env fs cfId sizes ↔ fs.Settles cfId [] sizes := by
  unfold Settles
  rw [if_neg hne]
  -- once the edit is admitted, the rest is about the files as charged
  have hretired : ∀ n, fs.Emptied cfId sizes n →
      ((fs.charged env cfId sizes).obsolete cfId n = true ↔ ¬ (fs.live cfId n).isSome = true) := by
    intro n hn
    obtain ⟨m, hm⟩ := hn.file_isSome
    rw [← live_charged env sizes hst]
    refine obsolete_iff_not_live ?_
    rw [file_charged hst, if_pos rfl, hm]
    exact ⟨_, rfl⟩
  have hrecorded := recorded_iff env sizes hst hmerge
  constructor
  · rintro ⟨hadm, hret, hrec⟩
    have hopen := (admits_settleEdit_iff hst hmerge).1 hadm
    unfold obsolete at hret
    unfold counter at hrec
    simp only [file_settleEdit_other hne hadm] at hret hrec
    refine ⟨fun n hn => ⟨fun hlive => ?_, fun h0 => hopen h0 n hn⟩, hrecorded.1 hrec⟩
    exact absurd hlive ((hretired n hn).1 (hret n hn))
  · rintro ⟨hfiles, hzero⟩
    have hadm : (fs.charged env cfId sizes).Admits (fs.settleEdit env cfId sizes) :=
      (admits_settleEdit_iff hst hmerge).2 fun h0 n hn => (hfiles n hn).2 h0
    refine ⟨hadm, fun n hn => ?_, fun n d hd => ?_⟩
    · unfold obsolete
      rw [file_settleEdit_other hne hadm]
      exact (hretired n hn).2 fun hlive =>
        List.not_mem_nil ((hfiles n hn).1 hlive)
    · unfold counter
      rw [file_settleEdit_other hne hadm]
      exact hrecorded.2 hzero n d hd

/-- What the edit takes, before and after the files are retired. -/
theorem settles_rangeEdit {files : List UInt64} (hadm : fs.Admits (rangeEdit cfId files)) :
    (fs.logAndApply C (rangeEdit cfId files) .ok).2.Settles cfId [] sizes
      ↔ fs.Settles cfId files sizes := by
  have hopen := lookup_isSome_logAndApply (C := C) fs (rangeEdit cfId files) .ok 0
  unfold Settles
  simp only [emptied_rangeEdit hadm, live_rangeEdit hadm, hopen, unsettled_rangeEdit hadm]
  by_cases hcf : cfId = 0
  · simp [hcf]
  · simp [hcf, Ne.symm hcf]

/-- **The accounting edit.** With `level_merge` on and the files inside
the ranges retired, the edit of `DeleteFilesInRanges` passes the checks,
retires every file left without live data and records every other update,
exactly if the file set settles it. -/
theorem settleEdit_applicable_iff {ranges : List BlobStorage.RangePtr}
    {includeEnd : Bool} {files : List UInt64} {q : SequenceNumber}
    {io : ManifestIO} {s : Status} {fs' : BlobFileSet}
    (hst : fs.columnFamilies.lookup cfId = some st) (hmerge : st.cfOptions.levelMerge = true)
    (hfiles : st.getBlobFilesInRanges ranges includeEnd = some files)
    (hcall : fs.deleteBlobFilesInRanges C cfId ranges includeEnd q io = some (s, fs'))
    (hok : s.isOk = true) (env : RangeSettleEnv) (sizes : BlobFilesSize) :
    Applicable C env fs' cfId sizes ↔ fs.Settles cfId files sizes := by
  have hlog : fs.logAndApply C (rangeEdit cfId files) io = (s, fs') :=
    some.inj ((deleteBlobFilesInRanges_eq hst hfiles q io).symm.trans hcall)
  have hstatus : (fs.logAndApply C (rangeEdit cfId files) io).1.isOk = true := by
    rw [hlog]
    exact hok
  obtain ⟨hadm, rfl⟩ := logAndApply_isOk_iff.1 hstatus
  obtain rfl : (fs.logAndApply C (rangeEdit cfId files) .ok).2 = fs' := congrArg Prod.snd hlog
  obtain ⟨st', hst', hoptions⟩ := cfOptions_logAndApply (C := C) hst (rangeEdit cfId files) .ok
  rw [← hoptions] at hmerge
  rw [← settles_rangeEdit (C := C) hadm]
  by_cases hne : cfId = 0
  · subst hne
    rw [applicable_default hst' hmerge]
    unfold Settles
    simp
  · exact applicable_other hne hst' hmerge

end BlobFileSet

/-- The files 1 to 3 and 5 to 7, of 60 bytes of data each, under
`level_merge`. -/
def mergedTwoKeyed : BlobStorage :=
  (({ dbOptions := {}, cfOptions := { levelMerge := true }
      } : BlobStorage).addBlobFile (keyedFile 1 1 3)).addBlobFile
    (keyedFile 2 5 7)

/-- A file set with the two files in its default column family. -/
def holdsMerged : BlobFileSet where
  columnFamilies := Table.empty.insert 0 mergedTwoKeyed
  nextFileNumber := 3

theorem lookup_holdsMerged : holdsMerged.columnFamilies.lookup 0 = some mergedTwoKeyed := rfl

/-- It with the first file retired. -/
def firstRetired : BlobFileSet :=
  (holdsMerged.logAndApply base128 (BlobFileSet.rangeEdit 0 [1]) .ok).2

theorem lookup_firstRetired :
    ∃ st, firstRetired.columnFamilies.lookup 0 = some st
      ∧ st.cfOptions = mergedTwoKeyed.cfOptions :=
  cfOptions_logAndApply lookup_holdsMerged (rangeEdit 0 [1]) .ok

/-- The range from 1 to 4. -/
def firstRange : BlobStorage.RangePtr := ⟨some (.byte 1), some (.byte 4)⟩

theorem select_firstRange : mergedTwoKeyed.getBlobFilesInRanges [firstRange] true = some [1] := by
  decide +kernel

theorem deleteFirst :
    holdsMerged.deleteBlobFilesInRanges base128 0 [firstRange] true 0 .ok
      = some (.ok, firstRetired) := by
  refine congrArg some (Prod.ext ?_ rfl)
  decide +kernel

/-- The first file lies in the range and loses some of its bytes, the
second loses its last. -/
theorem settleEdit_applicable :
    BlobFileSet.Applicable base128 {} firstRetired 0 ((Table.empty.insert 1 10).insert 2 60) := by
  refine (settleEdit_applicable_iff lookup_holdsMerged rfl
    select_firstRange deleteFirst rfl {} _).2 ?_
  unfold BlobFileSet.Settles
  rw [if_pos rfl]
  rintro n ⟨d, m, hd, hm, hno⟩
  rw [Table.lookup_insert, Table.lookup_insert] at hd
  split at hd
  case isTrue hn =>
    subst hn
    exact ⟨by decide +kernel, by decide⟩
  case isFalse =>
    split at hd
    case isFalse => cases hd
    case isTrue hn =>
      subst hn
      cases hd
      have hfirst : holdsMerged.file 0 1 = some (keyedFile 1 1 3) := by
        decide +kernel
      cases hfirst.symm.trans hm
      revert hno
      decide +kernel

/-- Both lose their last bytes: the first, retired already, makes the edit
fail, and the second stays live without live data. -/
theorem settleEdit_refused :
    let sizes : BlobFilesSize := (Table.empty.insert 1 60).insert 2 60
    holdsMerged.deleteBlobFilesInRanges base128 0 [firstRange] true 0 .ok = some (.ok, firstRetired)
      ∧ ¬ BlobFileSet.Applicable base128 {} firstRetired 0 sizes ∧ firstRetired.Emptied 0 sizes 2
      ∧ ((settleRanges base128 {} firstRetired 0 sizes).live 0 2).isSome = true := by
  intro sizes
  obtain ⟨st', hst', hoptions⟩ := lookup_firstRetired
  have hmerge : st'.cfOptions.levelMerge = true := by
    rw [hoptions]
    rfl
  have hfirst : firstRetired.Emptied 0 sizes 1 :=
    ⟨60, { keyedFile 1 1 3 with state := .kObsolete }, by decide +kernel,
      by decide +kernel, by decide +kernel⟩
  have hsecond : firstRetired.Emptied 0 sizes 2 :=
    ⟨60, keyedFile 2 5 7, by decide +kernel, by decide +kernel, by decide +kernel⟩
  have hrefused : ¬ (firstRetired.charged {} 0 sizes).Admits
      (firstRetired.settleEdit {} 0 sizes) := by
    intro hadm
    have hlive := (admits_settleEdit_iff hst' hmerge).1 hadm (by decide +kernel) 1 hfirst
    revert hlive
    decide +kernel
  refine ⟨deleteFirst, fun h => hrefused h.admitted, hsecond, ?_⟩
  rcases settleRanges_cases (C := base128) {} sizes hst' with
    ⟨⟨-, hadm, -⟩, -⟩ | ⟨-, hfile⟩
  · exact absurd hadm hrefused
  · unfold live
    rw [hfile]
    show ((firstRetired.charged {} 0 sizes).live 0 2).isSome = true
    rw [live_charged {} sizes hst']
    decide +kernel

end DiffKV
