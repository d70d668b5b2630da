/-
The states of blob files under all who change them: GC jobs
(`src/blob_gc_picker.cc`, `src/blob_gc.cc`, `BackgroundGC` of
`src/db_impl_gc.cc`), flush and compaction notifications, range deletion
and column family drops.

A step is a section under the DB mutex. A GC job has three: it picks its
input files; it installs its output files; and, in one section,
`Finish` deletes the inputs, unless the job failed or the column family
was dropped, and `ReleaseGcFiles` lets go of all its files. In between,
the mutex is free.

A `BlobGC` object holds its files by pointer; here it holds their
numbers, and a state change through a pointer is a change of the file
under that number. A file that has been purged in the meantime is not
there to be changed.

`built` is a history variable: the files that flushes and compactions
have built and whose completion has not been reported.
-/
import DiffKV.Notifications
import DiffKV.Lib.Machine

namespace DiffKV

open Lib

-- ==== the picker

/-- The batch sizes of `TitanCFOptions`. -/
structure GcBatchOptions where
  maxGcBatchSize : UInt64 := 2 ^ 30
  minGcBatchSize : UInt64 := 512 * 2 ^ 20

/-- The variables of the loop of `PickBlobGC`. -/
structure PickState where
  blobFiles : List BlobFileMeta := []
  batchSize : UInt64 := 0
  stopPicking : Bool := false
  maybeContinueNextTime : Bool := false

namespace BlobStorage

variable (options : GcBatchOptions)

/-- A file that `PickBlobGC` skips: `CheckBlobFile` fails, or the file is
left to compactions. -/
def noNeedGC (s : BlobStorage) (file : BlobFileMeta) : Bool :=
  file.state ≠ .kNormal
    || (s.cfOptions.levelMerge && file.fileType == kSorted)

/-- The loop of `PickBlobGC`. A score of a file that is not there is
`none`: the log line that says the file is skipped reads it. -/
def pickLoop (s : BlobStorage) : PickState → List GCScore → Option PickState
  | st, [] => some st
  | st, score :: rest =>
    match s.findFile score.fileNumber with
    | none => none
    | some file =>
      if s.noNeedGC file then s.pickLoop st rest
      else if !st.stopPicking then
        let batchSize := st.batchSize + file.fileSize
        s.pickLoop { st with
          blobFiles := st.blobFiles ++ [file]
          batchSize
          stopPicking := batchSize ≥ options.maxGcBatchSize } rest
      else if rest.length > 2 ^ 30 / s.cfOptions.blobFileTargetSize then
        some { st with maybeContinueNextTime := true }
      else s.pickLoop st rest

/-- The files are not worth a job. -/
def declines (s : BlobStorage) (st : PickState) : Bool :=
  st.blobFiles.isEmpty || st.batchSize < options.minGcBatchSize
    || match st.blobFiles with
      | [file] => file.fileSize ≤ s.cfOptions.mergeSmallFileThreshold && !file.gcMark
      | _ => false

/-- `BasicBlobGCPicker::PickBlobGC`: the files and whether to go on with
another job, if there is a job; `none` where the loop reads a missing
file. -/
def pickBlobGC (s : BlobStorage) : Option (Option (List BlobFileMeta × Bool)) :=
  match s.pickLoop options {} s.gcScore with
  | none => none
  | some st =>
    if s.declines options st then some none
    else some (some (st.blobFiles, st.maybeContinueNextTime))

end BlobStorage

-- ==== BlobGC

/-- `BlobGC`. -/
structure BlobGC where
  cfId : UInt32
  inputs : List UInt64
  outputs : List UInt64 := []
  triggerNext : Bool := false
  released : Bool := false

/-- The files a `BlobGC` object refers to. -/
def BlobGC.files (gc : BlobGC) : List UInt64 := gc.inputs ++ gc.outputs

/-- What `ReleaseGcFiles` does to an input. -/
def BlobFileMeta.releaseInput (m : BlobFileMeta) : BlobFileMeta :=
  { m with gcMark := false }.fileStateTransit .kGCCompleted

namespace BlobStorage

/-- `BlobGC::MarkFilesBeingGC`. -/
def markFilesBeingGC (s : BlobStorage) (inputs : List UInt64) :
    BlobStorage :=
  inputs.foldl (fun s n => s.transit n .kGCBegin) s

/-- `PickBlobGC` with the constructor of the `BlobGC` it returns, which
marks the files. -/
def pickAndMark (options : GcBatchOptions) (s : BlobStorage) :
    Option (Option (List BlobFileMeta × Bool) × BlobStorage) :=
  (s.pickBlobGC options).map fun
    | none => (none, s)
    | some (files, triggerNext) =>
      (some (files, triggerNext), s.markFilesBeingGC (files.map BlobFileMeta.fileNumber))

/-- One input of the loop of `ReleaseGcFiles`. -/
def releaseInput (s : BlobStorage) (n : UInt64) : BlobStorage :=
  { s with
    files := s.files.modify n BlobFileMeta.releaseInput fun _ => rfl }

/-- `BlobGC::ReleaseGcFiles`. -/
def releaseGcFiles (s : BlobStorage) (gc : BlobGC) : BlobStorage :=
  gc.outputs.foldl (fun s n => s.transit n .kGCCompleted) (gc.inputs.foldl releaseInput s)

end BlobStorage

/-- The edit of `DeleteInputBlobFiles`. -/
def BlobGC.deleteEdit (gc : BlobGC) (obsoleteSequence : SequenceNumber) :
    VersionEdit :=
  gc.inputs.foldl (fun e n => e.deleteBlobFile n obsoleteSequence)
    (({} : VersionEdit).setColumnFamilyID gc.cfId)

/-- The edit of `BatchFinishFiles` for the files that
`InstallOutputBlobFiles` has made. -/
def BlobGC.installEdit (gc : BlobGC) (files : List BlobFileMeta) :
    VersionEdit :=
  (files.map (·.fileStateTransit .kGCOutput)).foldl VersionEdit.addBlobFile
    (({} : VersionEdit).setColumnFamilyID gc.cfId)

-- ==== the end of range deletion

/-- What the end of `TitanDBImpl::DeleteFilesInRanges` takes from the rest
of the DB. -/
structure RangeSettleEnv where
  highLevelBlobDiscardableRatio : Float := 0.7
  /-- `GetLatestSequenceNumber` -/
  latest : SequenceNumber := 0
  /-- of the `LogAndApply` at the end -/
  io : ManifestIO := .ok

/-- One file of the loop over `blob_files_discardable_size`. -/
def ChargeState.settleRange (env : RangeSettleEnv) (a : ChargeState)
    (f : UInt64 × UInt64) : ChargeState :=
  match a.storage.findFile f.1 with
  | none => a
  | some m =>
    let a := a.chargeFile m f.2
    let m := m.addDiscardableSize f.2
    let options := a.storage.cfOptions
    let ratio :=
      if m.fileLevel.toInt32.toInt = (options.numLevels : Int) - 1 then
        options.blobFileDiscardableRatio
      else env.highLevelBlobDiscardableRatio
    if !options.levelMerge then a
    else if m.noLiveData then
      { a with edit := a.edit.deleteBlobFile m.fileNumber env.latest }
    else if m.getDiscardableRatio > ratio then
      { a with
        edit := a.edit.updateBlobFile f.1 f.2
        storage := a.storage.transit f.1 .kNeedGC }
    else if f.2 > 0 then
      { a with edit := a.edit.updateBlobFile f.1 f.2 }
    else a

/-- The end of `TitanDBImpl::DeleteFilesInRanges`, after the blob files in
the ranges are deleted: the bytes of the deleted tables are charged to
their blob files. -/
def settleRanges (C : Coding) (env : RangeSettleEnv) (fs : BlobFileSet)
    (cfId : UInt32) (sizes : BlobFilesSize) : BlobFileSet :=
  match fs.getBlobStorage cfId with
  | none => fs
  | some s =>
    let a := sizes.entries.foldl (ChargeState.settleRange env)
      { storage := s }
    let fs := fs.onStorage cfId fun _ => { a.storage with
      stats := a.storage.stats.sub .LIVE_BLOB_SIZE a.delta }
    if s.cfOptions.levelMerge then (fs.logAndApply C a.edit env.io).2
    else fs.onStorage cfId (·.computeGCScore)

-- ==== the machine

/-- The file set, the `BlobGC` objects in the order they were made, and
the files built and not yet reported. -/
structure GcFiles where
  fileSet : BlobFileSet
  gcs : List BlobGC := []
  built : List (UInt32 × UInt64) := []

namespace GcFiles

/-- The steps of the machine. -/
inductive Act where
  | fileSet (op : FileSetOp)
  | pick (cfId : UInt32) (options : GcBatchOptions)
  /-- `InstallOutputBlobFiles` of the `j`-th object, the files as they are
  constructed -/
  | installOutputs (j : Nat) (files : List BlobFileMeta) (io : ManifestIO)
  /-- the end of the `j`-th job, with `DeleteInputBlobFiles` or not -/
  | finish (j : Nat) (deletion : Option (SequenceNumber × ManifestIO))
  | computeGCScore (cfId : UInt32)
  | flushCompleted (info : FlushJobInfo)
  | compactionCompleted (env : CompactionEnv) (info : CompactionJobInfo)
  | settleRanges (env : RangeSettleEnv) (cfId : UInt32) (sizes : BlobFilesSize)

/-- The files an operation adds to a storage that wait for a flush or a
compaction to complete. -/
def newlyBuilt (fs fs' : BlobFileSet) : FileSetOp → List (UInt32 × UInt64)
  | .logAndApply edit _ =>
    ((edit.addedFiles.filter (·.state = .kPendingLSM)).map fun m =>
      (edit.columnFamilyId, m.fileNumber)).filter fun x =>
        (fs.file x.1 x.2).isNone && (fs'.file x.1 x.2).isSome
  | _ => []

/-- The files a flush reports. -/
def flushed (C : Coding) (info : FlushJobInfo) : List UInt64 :=
  match info.property with
  | none => []
  | some src =>
    (BlobFileSizeCollector.decode C src).2.entries.map Prod.fst

/-- The files that only the outputs of a compaction refer to. -/
def outputOnly (C : Coding) (info : CompactionJobInfo) : List UInt64 :=
  (SizeDiff.calcBfs C info).outputs.entries

/-- `built` once files of a column family are reported. -/
def report (built : List (UInt32 × UInt64)) (cfId : UInt32)
    (numbers : List UInt64) : List (UInt32 × UInt64) :=
  built.filter fun x => !(x.1 == cfId && numbers.contains x.2)

variable (C : Coding)

/-- `BackgroundGC` up to the job: pick the files and mark them. -/
def pick (s : GcFiles) (cfId : UInt32) (options : GcBatchOptions) : Option GcFiles :=
  if s.fileSet.obsoleteColumns.contains cfId then some s
  else
    match s.fileSet.getBlobStorage cfId with
    | none => some s
    | some storage =>
      match storage.pickBlobGC options with
      | none => none
      | some none => some s
      | some (some (files, triggerNext)) =>
        let inputs := files.map BlobFileMeta.fileNumber
        some { s with
          fileSet := s.fileSet.onStorage cfId (·.markFilesBeingGC inputs)
          gcs := s.gcs ++ [{ cfId, inputs, triggerNext }] }

/-- `InstallOutputBlobFiles`, its files finished. -/
def installOutputs (s : GcFiles) (j : Nat) (gc : BlobGC)
    (files : List BlobFileMeta) (io : ManifestIO) : GcFiles :=
  let (status, fileSet) :=
    s.fileSet.logAndApply C (gc.installEdit files) io
  { s with
    fileSet
    gcs :=
      if status.isOk then
        s.gcs.set j { gc with
          outputs := gc.outputs ++ files.map BlobFileMeta.fileNumber }
      else s.gcs }

/-- `DeleteInputBlobFiles`, if it is called. -/
def deleteInputs (fs : BlobFileSet) (gc : BlobGC) :
    Option (SequenceNumber × ManifestIO) → BlobFileSet
  | none => fs
  | some (obsoleteSequence, io) =>
    (fs.logAndApply C (gc.deleteEdit obsoleteSequence) io).2

/-- The end of a job. -/
def finish (s : GcFiles) (j : Nat) (gc : BlobGC)
    (deletion : Option (SequenceNumber × ManifestIO)) : GcFiles :=
  { s with
    fileSet := (deleteInputs C s.fileSet gc deletion).onStorage gc.cfId (·.releaseGcFiles gc)
    gcs := s.gcs.set j { gc with released := true } }

/-- One step. -/
def step (s : GcFiles) : Act → Option GcFiles
  | .fileSet op =>
    (s.fileSet.act C op).map fun fileSet =>
      { s with fileSet, built := s.built ++ newlyBuilt s.fileSet fileSet op }
  | .pick cfId options => s.pick cfId options
  | .installOutputs j files io =>
    match s.gcs[j]? with
    | none => none
    | some gc =>
      if gc.released then none
      else some (s.installOutputs C j gc files io)
  | .finish j deletion =>
    match s.gcs[j]? with
    | none => none
    | some gc =>
      if gc.released then none else some (s.finish C j gc deletion)
  | .computeGCScore cfId =>
    some { s with
      fileSet := s.fileSet.onStorage cfId (·.computeGCScore) }
  | .flushCompleted info =>
    some { s with
      fileSet := onFlushCompleted C s.fileSet info
      built := report s.built info.cfId (flushed C info) }
  | .compactionCompleted env info =>
    some { s with
      fileSet := (onCompactionCompleted C env s.fileSet info).2
      built :=
        if info.status.isOk then
          report s.built info.cfId (outputOnly C info)
        else s.built }
  | .settleRanges env cfId sizes =>
    some { s with fileSet := settleRanges C env s.fileSet cfId sizes }

end GcFiles

end DiffKV
