/-
What the base DB's notifications do to the blob files
(`src/blob_file_size_collector.cc`, `src/db_impl.cc`).

A collector sums up, for every table, the bytes its blob indexes refer
to in each blob file. When a flush or a compaction is done, the sums of
the tables that came and went are charged to the files as discardable
bytes. With `level_merge` on, a sorted file whose counter has reached
its data size is deleted on the spot.

The tables of a notification are known by name. Ordered maps are tables
too: no result here depends on the order of their entries. Left out are
the log lines, the counts of marked files, and the scheduling of GC jobs
and blocked writers at the end of `OnCompactionCompleted`. The options
of range merging are a record of their own, and `std::sort` is a
parameter.
-/
import DiffKV.TableBuilder

namespace DiffKV

open Lib

-- ==== the size collector

/-- `std::map<uint64_t, uint64_t>`: bytes by file number. -/
abbrev BlobFilesSize := Map UInt64 UInt64

namespace BlobFileSizeCollector

variable (C : Coding)

/-- `BlobFileSizeCollector::Encode`. -/
def encode (sizes : BlobFilesSize) : Bytes :=
  C.putVarint32 (UInt32.ofNat sizes.entries.length)
    ++ sizes.entries.flatMap fun f => C.putVarint64 f.1 ++ C.putVarint64 f.2

/-- The loop of `Decode`. What was read before a failure stays in the
map. -/
def decodeFiles : Nat → Bytes → BlobFilesSize → Bool × BlobFilesSize
  | 0, _, sizes => (true, sizes)
  | num + 1, src, sizes =>
    match C.getVarint64 src with
    | none => (false, sizes)
    | some (fileNumber, src) =>
      match C.getVarint64 src with
      | none => (false, sizes)
      | some (size, src) =>
        decodeFiles num src (sizes.insert fileNumber size)

/-- `BlobFileSizeCollector::Decode`, into an empty map. -/
def decode (src : Bytes) : Bool × BlobFilesSize :=
  match C.getVarint32 src with
  | none => (false, Table.empty)
  | some (num, src) => decodeFiles C num.toNat src Table.empty

/-- `BlobFileSizeCollector::AddUserKey`. -/
def addUserKey (sizes : BlobFilesSize) (e : InternalEntry) : Status × BlobFilesSize :=
  if e.type ≠ .kTypeBlobIndex then (.ok, sizes)
  else
    match BlobIndex.decodeFrom C e.value with
    | .error s => (s, sizes)
    | .ok (index, _) =>
      match sizes.lookup index.fileNumber with
      | none =>
        (.ok, sizes.insert index.fileNumber index.blobHandle.size)
      | some size =>
        (.ok, sizes.insert index.fileNumber (size + index.blobHandle.size))

/-- `BlobFileSizeCollector::Finish`: the property, if there is one. -/
def finish (sizes : BlobFilesSize) : Option Bytes :=
  if sizes.entries.isEmpty then none else some (encode C sizes)

/-- The collector over the entries of a table. -/
def collect (entries : List InternalEntry) : BlobFilesSize :=
  entries.foldl (fun sizes e => (addUserKey C sizes e).2) Table.empty

end BlobFileSizeCollector

-- ==== flushes

/-- `BlobFileMeta::NoLiveData`. -/
def BlobFileMeta.noLiveData (m : BlobFileMeta) : Bool :=
  m.discardableSize = m.fileSize - kBlobHeaderSize - kBlobFooterSize

/-- `AddDiscardableSize` of the file filed under `number`. -/
def BlobStorage.charge (s : BlobStorage) (number amount : UInt64) :
    BlobStorage :=
  { s with
    files := s.files.modify number (·.addDiscardableSize amount) fun _ => rfl }

/-- `FlushJobInfo`: the collected property of the new table, if it has
one. -/
structure FlushJobInfo where
  cfId : UInt32
  property : Option Bytes

/-- What `OnFlushCompleted` adds to the counter of a file. -/
def BlobFileMeta.flushDiscardable (m : BlobFileMeta) (size : UInt64) :
    UInt64 :=
  if m.discardableSize = 0 then
    m.fileSize - size - kBlobHeaderSize - kBlobFooterSize
  else -size

/-- One file of the loop of `OnFlushCompleted`, with `delta`. -/
def flushFile (acc : BlobStorage × UInt64) (f : UInt64 × UInt64) : BlobStorage × UInt64 :=
  match acc.1.findFile f.1 with
  | none => acc
  | some file =>
    let discardable := file.flushDiscardable f.2
    let delta := acc.2 + discardable
    let s := { acc.1 with stats := acc.1.stats.sub .LIVE_BLOB_SIZE delta }
    ((s.charge f.1 discardable).transit f.1 .kFlushCompleted, delta)

/-- `TitanDBImpl::OnFlushCompleted`. A property that does not decode is
only asserted against: the files read so far are charged. -/
def onFlushCompleted (C : Coding) (fs : BlobFileSet) (info : FlushJobInfo) :
    BlobFileSet :=
  match info.property with
  | none => fs
  | some src =>
    let sizes := (BlobFileSizeCollector.decode C src).2
    fs.onStorage info.cfId fun s => (sizes.entries.foldl flushFile (s, 0)).1

-- ==== compactions

/-- `CompactionJobInfo`: the tables by name, and for those with known
properties the collected one, if it is there. -/
structure CompactionJobInfo where
  cfId : UInt32
  status : Status := .ok
  inputFiles : List String
  outputFiles : List String
  tableProperties : Map String (Option Bytes)
  outputLevel : Int := 0

/-- The `TitanCFOptions` of range merging. -/
structure RangeMergeOptions where
  rangeMerge : Bool := false
  maxSortedRuns : Int := 10

/-- `blob_files_size_diff`, `inputs` and `outputs`. -/
structure SizeDiff where
  diff : Map UInt64 Int64 := Table.empty
  inputs : Table (id : UInt64 → UInt64) := Table.empty
  outputs : Table (id : UInt64 → UInt64) := Table.empty

namespace SizeDiff

/-- The size of one file in one table. The product is one of unsigned
integers, as `coefficient` is converted. -/
def addFile (coefficient : UInt64) (output : Bool) (d : SizeDiff)
    (f : UInt64 × UInt64) : SizeDiff :=
  { diff := d.diff.insert f.1 (((d.diff.lookup f.1).getD 0).toUInt64 + coefficient * f.2).toInt64
    inputs := if output then d.inputs else d.inputs.emplace f.1
    outputs :=
      if output && !d.inputs.contains f.1 then d.outputs.emplace f.1
      else d.outputs }

/-- The body of the loop of `calc_bfs`. -/
def addTable (C : Coding) (info : CompactionJobInfo) (coefficient : UInt64)
    (output : Bool) (d : SizeDiff) (name : String) : SizeDiff :=
  match info.tableProperties.lookup name with
  | none => d
  | some none => d
  | some (some src) =>
    match BlobFileSizeCollector.decode C src with
    | (false, _) => d
    | (true, sizes) => sizes.entries.foldl (addFile coefficient output) d

/-- Both calls of `calc_bfs`. -/
def calcBfs (C : Coding) (info : CompactionJobInfo) : SizeDiff :=
  info.outputFiles.foldl (addTable C info 1 true)
    (info.inputFiles.foldl (addTable C info (-1) false) {})

end SizeDiff

/-- The loop over `outputs`: the status is not OK where the source
returns early. -/
def completeOutputs (s : BlobStorage) : List UInt64 → Bool × BlobStorage
  | [] => (true, s)
  | number :: rest =>
    match s.findFile number with
    | none => (false, s)
    | some _ => completeOutputs (s.transit number .kCompactionCompleted) rest

/-- What the loop over `blob_files_size_diff` carries. -/
structure ChargeState where
  storage : BlobStorage
  delta : UInt64 := 0
  edit : VersionEdit := {}
  /-- the numbers of `files` -/
  files : List UInt64 := []

namespace ChargeState

/-- A file counts as a sorted run. -/
def countsAsRun (countSortedRun : Bool) (s : BlobStorage) (m : BlobFileMeta) : Bool :=
  countSortedRun && m.fileType = kSorted
    && decide (m.fileLevel.toInt32.toInt ≥ (s.cfOptions.numLevels : Int) - 2)

/-- `AddDiscardableSize` and the ratio counters. -/
def chargeFile (a : ChargeState) (m : BlobFileMeta) (amount : UInt64) :
    ChargeState :=
  let before := m.getDiscardableRatioLevel
  let after := (m.addDiscardableSize amount).getDiscardableRatioLevel
  let s := a.storage.charge m.fileNumber amount
  { a with
    delta := if !m.isObsolete then a.delta + amount else a.delta
    storage :=
      if before ≠ after then
        { s with stats := (s.stats.add after 1).sub before 1 }
      else s }

/-- The part under `level_merge`, of a file already charged. -/
def settleFile (latest : SequenceNumber) (countSortedRun : Bool)
    (a : ChargeState) (m : BlobFileMeta) : ChargeState :=
  if m.noLiveData && m.fileType = kSorted then
    { a with edit := a.edit.deleteBlobFile m.fileNumber latest }
  else
    { a with
      storage :=
        if m.fileType = kSorted && decide (m.getDiscardableRatio
            > a.storage.cfOptions.blobFileDiscardableRatio) then
          a.storage.transit m.fileNumber .kNeedGC
        else a.storage
      files :=
        if countsAsRun countSortedRun a.storage m then
          a.files ++ [m.fileNumber]
        else a.files }

/-- One entry of `blob_files_size_diff`. -/
def step (latest : SequenceNumber) (countSortedRun : Bool) (a : ChargeState)
    (f : UInt64 × Int64) : ChargeState :=
  match a.storage.findFile f.1 with
  | none => a
  | some m =>
    if f.2 ≥ 0 then
      if countsAsRun countSortedRun a.storage m then
        { a with files := a.files ++ [m.fileNumber] }
      else a
    else
      let amount := (-f.2).toUInt64
      let a := a.chargeFile m amount
      if a.storage.cfOptions.levelMerge then
        a.settleFile latest countSortedRun (m.addDiscardableSize amount)
      else a

end ChargeState

-- ==== range merging

/-- An end of a blob file: the smallest if the flag is set. -/
abbrev BlobEnd := BlobFileMeta × Bool

/-- The key of an end. -/
def BlobEnd.key (e : BlobEnd) : UserKey :=
  if e.2 then e.1.smallestKey else e.1.largestKey

/-- `blob_ends_cmp`: whether the one end is to stand before the other. A
file is known by its number. -/
def blobEndsCmp (end1 end2 : BlobEnd) : Bool :=
  match bytewiseCompare end1.key end2.key with
  | .lt => true
  | .gt => false
  | .eq =>
    if end1.1.fileNumber = end2.1.fileNumber then end1.2
    else !end1.2 && end2.2

/-- `blob_ends`, before it is sorted. -/
def blobEnds (files : List BlobFileMeta) : List BlobEnd :=
  files.flatMap fun m => [(m, true), (m, false)]

/-- The sweep of `MarkFileIfNeedMerge` over the sorted ends: the numbers
of the files it marks. `started` is `tmp`. -/
def sweepEnds (maxSortedRuns : Int) : Int → Int → Map UInt64 Int → List BlobEnd → List UInt64
  | _, _, _, [] => []
  | curAdd, curRemove, started, (m, true) :: ends =>
    sweepEnds maxSortedRuns (curAdd + 1) curRemove (started.insert m.fileNumber curRemove) ends
  | curAdd, curRemove, started, (m, false) :: ends =>
    let rest := sweepEnds maxSortedRuns curAdd (curRemove + 1) started ends
    match started.lookup m.fileNumber with
    | none => rest
    | some removed =>
      if curAdd - removed > maxSortedRuns && m.state ≠ .kObsolete
          && m.state ≠ .kToMerge && m.state ≠ .kToGC then
        m.fileNumber :: rest
      else rest

/-- `TitanDBImpl::MarkFileIfNeedMerge`, with `std::sort` of the ends. -/
def BlobStorage.markFileIfNeedMerge (sortEnds : List BlobEnd → List BlobEnd)
    (maxSortedRuns : Int) (s : BlobStorage) (files : List UInt64) :
    BlobStorage :=
  let ends := (files.filterMap s.findFile).flatMap fun m =>
    [(m, true), (m, false)]
  (sweepEnds maxSortedRuns 0 0 Table.empty (sortEnds ends)).foldl
    (fun s n => s.transit n .kNeedMerge) s

-- ==== OnCompactionCompleted

/-- What `OnCompactionCompleted` takes from the rest of the DB. -/
structure CompactionEnv where
  rangeMerge : RangeMergeOptions := {}
  sortEnds : List BlobEnd → List BlobEnd := id
  /-- `GetLatestSequenceNumber` -/
  latest : SequenceNumber := 0
  /-- of the `LogAndApply` at the end -/
  io : ManifestIO := .ok

/-- The charging of one storage, after the outputs. -/
def chargeStorage (env : CompactionEnv) (info : CompactionJobInfo)
    (diff : Map UInt64 Int64) (s : BlobStorage) : ChargeState :=
  let countSortedRun := s.cfOptions.levelMerge && env.rangeMerge.rangeMerge
    && decide ((s.cfOptions.numLevels : Int) - 2 ≤ info.outputLevel)
  let a := diff.entries.foldl (ChargeState.step env.latest countSortedRun)
    { storage := s }
  { a with
    storage := { a.storage with
      stats := a.storage.stats.sub .LIVE_BLOB_SIZE a.delta } }

/-- `TitanDBImpl::OnCompactionCompleted`, with the edit it issues. The
edit is left at the column family an edit has by default. -/
def onCompactionCompleted (C : Coding) (env : CompactionEnv)
    (fs : BlobFileSet) (info : CompactionJobInfo) :
    VersionEdit × BlobFileSet :=
  if !info.status.isOk then ({}, fs)
  else
    let d := SizeDiff.calcBfs C info
    match fs.getBlobStorage info.cfId with
    | none => ({}, fs)
    | some s =>
      match completeOutputs s d.outputs.entries with
      | (false, s) => ({}, fs.onStorage info.cfId fun _ => s)
      | (true, s) =>
        let a := chargeStorage env info d.diff s
        let fs := fs.onStorage info.cfId fun _ => a.storage
        if s.cfOptions.levelMerge then
          let fs := (fs.logAndApply C a.edit env.io).2
          (a.edit, fs.onStorage info.cfId fun s => s.markFileIfNeedMerge
            env.sortEnds env.rangeMerge.maxSortedRuns a.files)
        else (a.edit, fs)

end DiffKV
