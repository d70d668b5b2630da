/-
The blob storage of one column family (`src/blob_storage.{h,cc}`) and
the options it reads (`include/titan/options.h`).

A `BlobFileMeta` is owned by the storage's `files_` and referred to
elsewhere by pointer; here the other views (`blob_ranges_`,
`obsolete_files_`, `gc_score_`) hold the file number, and a state change
through a pointer is a change of the entry in `files`. `files` is keyed
by the number its entries carry, which is the assertion of `FindFile`.

Unordered maps are tables; the order of their entries is one of the
orders the hash map may iterate in.
-/
import DiffKV.Format
import DiffKV.Lib.Bounds
import DiffKV.Lib.Table

namespace DiffKV

open Lib Table

-- ==== options

/-- The `TitanDBOptions` that the modelled code reads. -/
structure TitanDBOptions where
  sepBeforeFlush : Bool := false
  numForegroundBuilders : Nat := 1

/-- `BytewiseComparator()`. -/
def bytewiseCompare (a b : UserKey) : Ordering :=
  compareOfLessAndEq a.bytes b.bytes

instance bytes_transCmp : Std.TransCmp fun a b : Bytes => compareOfLessAndEq a b := by
  apply Std.TransOrd.compareOfLessAndEq_of_antisymm_of_trans_of_total_of_not_le
  · exact List.le_antisymm
  · exact List.le_trans
  · exact List.le_total
  · exact List.not_le

instance : Std.TransCmp bytewiseCompare where
  eq_swap := bytes_transCmp.eq_swap
  isLE_trans := bytes_transCmp.isLE_trans

instance : Std.LawfulEqCmp bytewiseCompare where
  compare_self := Std.ReflCmp.compare_self
  eq_of_compare {a b} h := by
    have hbytes : a.bytes = b.bytes := compareOfLessAndEq_eq_eq
      List.le_refl (fun {x y} => List.not_le) |>.1 h
    cases a
    cases b
    cases hbytes
    rfl

/-- The `TitanCFOptions` that the modelled code reads. -/
structure TitanCFOptions where
  minBlobSize : Nat := 128
  midBlobSize : Nat := 4096
  blobFileTargetSize : Nat := 256 * 2 ^ 20
  mergeSmallFileThreshold : UInt64 := 2 ^ 20
  blobFileDiscardableRatio : Float := 0.5
  levelMerge : Bool := false
  numLevels : Nat := 7
  comparator : UserKey → UserKey → Ordering := bytewiseCompare

-- ==== stats

/-- `TitanInternalStats::StatsType`. -/
inductive StatsType where
  | LIVE_BLOB_SIZE | NUM_LIVE_BLOB_FILE | NUM_OBSOLETE_BLOB_FILE
  | LIVE_BLOB_FILE_SIZE | OBSOLETE_BLOB_FILE_SIZE
  | NUM_DISCARDABLE_RATIO_LE0 | NUM_DISCARDABLE_RATIO_LE20
  | NUM_DISCARDABLE_RATIO_LE50 | NUM_DISCARDABLE_RATIO_LE80
  | NUM_DISCARDABLE_RATIO_LE100
  deriving DecidableEq, Repr

/-- The counters of one column family. -/
abbrev InternalStats := StatsType → UInt64

/-- `AddStats`. -/
def InternalStats.add (st : InternalStats) (t : StatsType) (n : UInt64) :
    InternalStats :=
  fun t' => if t' = t then st t' + n else st t'

/-- `SubStats`. -/
def InternalStats.sub (st : InternalStats) (t : StatsType) (n : UInt64) :
    InternalStats :=
  fun t' => if t' = t then st t' - n else st t'

/-- `BlobFileMeta::GetDiscardableRatioLevel`. Its last two branches
return the same bucket. -/
def BlobFileMeta.getDiscardableRatioLevel (m : BlobFileMeta) : StatsType :=
  let ratio := m.getDiscardableRatio
  if ratio == 0 then .NUM_DISCARDABLE_RATIO_LE0
  else if ratio ≤ 0.2 then .NUM_DISCARDABLE_RATIO_LE20
  else if ratio ≤ 0.5 then .NUM_DISCARDABLE_RATIO_LE50
  else if ratio ≤ 0.8 then .NUM_DISCARDABLE_RATIO_LE80
  else .NUM_DISCARDABLE_RATIO_LE100

-- ==== the structure

/-- `GCScore`. -/
structure GCScore where
  fileNumber : UInt64
  score : Float

/-- The files of a storage, filed under their number. -/
abbrev FileTable := Table BlobFileMeta.fileNumber

/-- `BlobStorage`. -/
structure BlobStorage where
  dbOptions : TitanDBOptions
  cfOptions : TitanCFOptions
  files : FileTable := Table.empty
  /-- the numbers `building_files_` holds a reader for -/
  buildingFiles : Table (id : UInt64 → UInt64) := Table.empty
  /-- smallest key and file number, in comparator order -/
  blobRanges : List (UserKey × UInt64) := []
  gcScore : List GCScore := []
  obsoleteFiles : List (UInt64 × SequenceNumber) := []
  destroyed : Bool := false
  stats : InternalStats := fun _ => 0
  levelBlobSize : List UInt64 :=
    List.replicate (cfOptions.numLevels + 1) 0

namespace BlobStorage

/-- `BlobStorage::FindFile`. -/
def findFile (s : BlobStorage) (number : UInt64) : Option BlobFileMeta :=
  s.files.find number

/-- `BlobStorage::FindBuildingFile` finds a reader. -/
def findBuildingFile (s : BlobStorage) (number : UInt64) : Bool :=
  s.buildingFiles.contains number

-- ---- adding files

/-- `std::multimap::emplace`: behind the entries of an equal key. -/
def insertRange (cmp : UserKey → UserKey → Ordering)
    (e : UserKey × UInt64) : List (UserKey × UInt64) → List (UserKey × UInt64)
  | [] => [e]
  | x :: xs =>
    if cmp e.1 x.1 = .lt then e :: x :: xs else x :: insertRange cmp e xs

/-- The slot of `level_blob_size_` that counts a file. -/
def levelSlot (s : BlobStorage) (file : BlobFileMeta) : Nat :=
  if file.fileType = kSorted then file.fileLevel.toNat
  else s.cfOptions.numLevels

/-- `BlobStorage::AddBlobFile`. -/
def addBlobFile (s : BlobStorage) (file : BlobFileMeta) : BlobStorage :=
  { s with
    files := s.files.emplace file
    blobRanges := insertRange s.cfOptions.comparator
      (file.smallestKey, file.fileNumber) s.blobRanges
    stats := (s.stats.add .LIVE_BLOB_FILE_SIZE file.fileSize).add .NUM_LIVE_BLOB_FILE 1
    levelBlobSize := s.levelBlobSize.modify (s.levelSlot file) (· + file.fileSize)
    buildingFiles :=
      if s.dbOptions.sepBeforeFlush then
        s.buildingFiles.erase file.fileNumber
      else s.buildingFiles }

/-- `BlobStorage::AddBuildingFile`, the reader opened. -/
def addBuildingFile (s : BlobStorage) (number : UInt64) : BlobStorage :=
  { s with buildingFiles := s.buildingFiles.emplace number }

-- ---- retiring files

/-- A state change delivered to the file filed under `number`. -/
def transit (s : BlobStorage) (number : UInt64) (event : FileEvent) :
    BlobStorage :=
  { s with
    files := s.files.modify number (·.fileStateTransit event) fun _ => rfl }

/-- `BlobStorage::MarkFileObsoleteLocked`. -/
def markFileObsoleteLocked (s : BlobStorage) (file : BlobFileMeta)
    (obsoleteSequence : SequenceNumber) : BlobStorage :=
  { s.transit file.fileNumber .kDelete with
    obsoleteFiles := s.obsoleteFiles ++ [(file.fileNumber, obsoleteSequence)]
    stats := ((((s.stats.sub .LIVE_BLOB_SIZE (file.fileSize - file.discardableSize)).sub
        .LIVE_BLOB_FILE_SIZE file.fileSize).sub
        .NUM_LIVE_BLOB_FILE 1).add
        .OBSOLETE_BLOB_FILE_SIZE file.fileSize).add
        .NUM_OBSOLETE_BLOB_FILE 1
    levelBlobSize := s.levelBlobSize.modify (s.levelSlot file) (· - file.fileSize) }

/-- `BlobStorage::MarkFileObsolete`; `none` where it returns false. -/
def markFileObsolete (s : BlobStorage) (number : UInt64)
    (obsoleteSequence : SequenceNumber) : Option BlobStorage :=
  match s.files.find number with
  | none => none
  | some file => some (s.markFileObsoleteLocked file obsoleteSequence)

/-- `BlobStorage::RemoveFile`; its result is only asserted by its
caller. -/
def removeFile (s : BlobStorage) (number : UInt64) : BlobStorage :=
  match s.files.find number with
  | none => s
  | some file =>
    { s with
      blobRanges := s.blobRanges.eraseP fun e =>
        s.cfOptions.comparator e.1 file.smallestKey == .eq && e.2 == file.fileNumber
      stats := (s.stats.sub .OBSOLETE_BLOB_FILE_SIZE file.fileSize).sub .NUM_OBSOLETE_BLOB_FILE 1
      files := s.files.erase number }

/-- `BlobStorage::GetObsoleteFiles`: the files removed, and the storage
without them. -/
def getObsoleteFiles (s : BlobStorage) (oldestSequence : SequenceNumber) :
    List UInt64 × BlobStorage :=
  let removed := (s.obsoleteFiles.filter fun f => oldestSequence > f.2).map
    Prod.fst
  (removed,
    { removed.foldl removeFile s with
      obsoleteFiles := s.obsoleteFiles.filter fun f =>
        ¬ oldestSequence > f.2 })

-- ---- ranges of files

/-- `RangePtr`: a missing end stands for the minimum or the maximum. -/
structure RangePtr where
  start : Option UserKey
  limit : Option UserKey

/-- Where the loop of `GetBlobFilesInRanges` starts: `lower_bound`, as a
position in `blobRanges`. -/
def lowerBound (s : BlobStorage) : Option UserKey → Nat
  | none => 0
  | some start =>
    s.blobRanges.findIdx fun e => s.cfOptions.comparator e.1 start ≠ .lt

/-- Where it ends: `upper_bound`. -/
def upperBound (s : BlobStorage) : Option UserKey → Nat
  | none => s.blobRanges.length
  | some limit =>
    s.blobRanges.findIdx fun e => s.cfOptions.comparator limit e.1 = .lt

/-- The tests the loop makes of a file. Only the largest key is compared
with the end of the range; files of the old version have none. -/
def inRange (s : BlobStorage) (includeEnd : Bool) (limit : Option UserKey)
    (file : BlobFileMeta) : Bool :=
  !file.isObsolete &&
    match limit with
    | none => true
    | some limit =>
      let order := s.cfOptions.comparator file.largestKey limit
      file.largestKey ≠ UserKey.empty && (if includeEnd then order ≠ .gt else order = .lt)

/-- One round of `GetBlobFilesInRanges`; `none` where the iterator starts
behind its end and is moved past the last file. -/
def getBlobFilesInRange (s : BlobStorage) (includeEnd : Bool)
    (range : RangePtr) : Option (List UInt64) :=
  let first := s.lowerBound range.start
  let last := s.upperBound range.limit
  if first ≤ last then
    some (((((s.blobRanges.take last).drop first).filterMap fun e =>
      s.findFile e.2).filter (s.inRange includeEnd range.limit)).map BlobFileMeta.fileNumber)
  else none

/-- The loop of one round, entry by entry: those it comes by; `none` where
it goes past the last one. -/
def walkRange (s : BlobStorage) (range : RangePtr) : Option (List (UserKey × UInt64)) :=
  let first := s.lowerBound range.start
  scan (s.blobRanges.drop first) first (s.upperBound range.limit)

/-- `BlobStorage::GetBlobFilesInRanges`. A file of two ranges is listed
twice. -/
def getBlobFilesInRanges (s : BlobStorage) (ranges : List RangePtr)
    (includeEnd : Bool) : Option (List UInt64) :=
  (ranges.mapM (s.getBlobFilesInRange includeEnd)).map List.flatten

-- ---- GC scores

/-- The score `ComputeGCScore` gives a file. -/
def gcScoreOf (s : BlobStorage) (file : BlobFileMeta) : GCScore :=
  { fileNumber := file.fileNumber
    score :=
      if file.fileSize < s.cfOptions.mergeSmallFileThreshold then
        s.cfOptions.blobFileDiscardableRatio
      else file.getDiscardableRatio }

/-- The files `ComputeGCScore` scores. -/
def scored (s : BlobStorage) (file : BlobFileMeta) : Bool :=
  !(file.isObsolete
    || (s.cfOptions.levelMerge
      && (file.fileType == kSorted
        || file.getDiscardableRatio < s.cfOptions.blobFileDiscardableRatio)))

/-- `BlobStorage::ComputeGCScore`. -/
def computeGCScore (s : BlobStorage) : BlobStorage :=
  { s with
    gcScore := ((s.files.entries.filter s.scored).map s.gcScoreOf).mergeSort
      fun a b =>
        if s.cfOptions.levelMerge then !decide (a.score < b.score)
        else a.fileNumber ≤ b.fileNumber }

-- ---- other operations

/-- `BlobStorage::MarkAllFilesForGC`. -/
def markAllFilesForGC (s : BlobStorage) : BlobStorage :=
  { s with
    files := s.files.map (fun f => { f with gcMark := true }.fileStateTransit .kDbRestart)
      fun _ => rfl
    stats := s.files.entries.foldl (fun st f => st.add f.getDiscardableRatioLevel 1) s.stats }

/-- `BlobStorage::MarkDestroyed`. -/
def markDestroyed (s : BlobStorage) : BlobStorage :=
  { s with destroyed := true }

/-- `BlobStorage::MaybeRemove`. -/
def maybeRemove (s : BlobStorage) : Bool :=
  s.destroyed && s.obsoleteFiles.isEmpty

-- ==== lookups

section

variable (s : BlobStorage) (n k : UInt64)

@[simp] theorem findFile_addBlobFile (m : BlobFileMeta) :
    (s.addBlobFile m).findFile n
      = if m.fileNumber = n then (s.findFile n).or (some m) else s.findFile n :=
  find_emplace ..

theorem findBuildingFile_addBlobFile (m : BlobFileMeta) :
    (s.addBlobFile m).findBuildingFile n
      = if s.dbOptions.sepBeforeFlush = true ∧ n = m.fileNumber then false
        else s.findBuildingFile n := by
  unfold findBuildingFile addBlobFile contains
  by_cases hsep : s.dbOptions.sepBeforeFlush = true
  · rw [if_pos hsep, find_erase]
    by_cases hn : n = m.fileNumber
    · rw [if_pos hn, if_pos ⟨hsep, hn⟩]
      rfl
    · rw [if_neg hn, if_neg fun h => hn h.2]
  · rw [if_neg hsep, if_neg fun h => hsep h.1]

/-- No file being built is forgotten for a new one. -/
theorem findBuildingFile_addBuildingFile (h : s.findBuildingFile n = true) :
    (s.addBuildingFile k).findBuildingFile n = true := by
  unfold findBuildingFile addBuildingFile contains at *
  rw [find_emplace]
  split
  · cases hf : s.buildingFiles.find n with
    | none => rfl
    | some _ => rfl
  · exact h

theorem findFile_transit (e : FileEvent) :
    (s.transit k e).findFile n
      = if n = k then (s.findFile n).map (·.fileStateTransit e) else s.findFile n :=
  find_modify s.files k (·.fileStateTransit e) (fun _ => rfl) n

theorem findFile_markFileObsoleteLocked (m : BlobFileMeta) (q : SequenceNumber) :
    (s.markFileObsoleteLocked m q).findFile n = if n = m.fileNumber then
          (s.findFile n).map (·.fileStateTransit .kDelete)
        else s.findFile n :=
  findFile_transit s n m.fileNumber .kDelete

@[simp] theorem findFile_computeGCScore : s.computeGCScore.findFile n = s.findFile n := rfl

theorem findFile_removeFile :
    (s.removeFile k).findFile n = if n = k then none else s.findFile n := by
  unfold removeFile
  cases hf : s.files.find k with
  | none =>
    by_cases hn : n = k
    · rw [if_pos hn, hn]
      exact hf
    · rw [if_neg hn]
  | some m => exact find_erase ..

/-- A file is gone after a list of removals exactly when it was listed. -/
theorem findFile_foldl_removeFile (l : List UInt64) :
    (l.foldl removeFile s).findFile n = if n ∈ l then none else s.findFile n := by
  induction l generalizing s with
  | nil => simp
  | cons k l ih =>
    rw [List.foldl_cons, ih, findFile_removeFile]
    by_cases hn : n = k <;> simp [hn]

theorem findFile_getObsoleteFiles (q : SequenceNumber) :
    (s.getObsoleteFiles q).2.findFile n
      = if n ∈ (s.getObsoleteFiles q).1 then none else s.findFile n :=
  findFile_foldl_removeFile ..

end

end BlobStorage

end DiffKV
