/-
One garbage collection job (`src/blob_gc_job.{h,cc}`, `BlobGC` of
`src/blob_gc.{h,cc}`, `BackgroundGC` of `src/db_impl_gc.cc`).

A job reads every record of its input files. For each it asks the LSM
tree whether the key still points at it (`discardEntry`), and if so
copies the record and points the key at the copy. With
`sep_before_flush` and no `level_merge` the copy goes through the
`ForegroundBuilder` and the key is written at once; otherwise the job
has output files of its own, and the keys are written after those are
installed.

The job's steps are those between which other threads can act. What the
base DB and the file system answer are arguments.
-/
import DiffKV.Foreground

namespace DiffKV

open Lib

/-- The job relocates through the `ForegroundBuilder`. -/
def Config.foregroundGC (cfg : Config) : Bool :=
  cfg.dbOptions.sepBeforeFlush && !cfg.cfOptions.levelMerge

namespace Db

variable (cfg : Config)

-- ==== pick

/-- The records of a file, as the iterators return them. -/
def recordsOf (db : Db) (number : UInt64) : List (BlobIndex × BlobRecord) :=
  match db.disk.lookup number with
  | none => []
  | some file =>
    file.records.map fun p =>
      ({ fileNumber := number, blobHandle := p.1 }, p.2)

/-- `BasicBlobGCPicker::CheckBlobFile`. -/
def checkBlobFile (db : Db) (number : UInt64) : Bool :=
  match db.fileSet.file cfg.cfId number with
  | none => false
  | some file => file.state = .kNormal

/-- Deliver an event to files of the storage. -/
def transitFiles (db : Db) (numbers : List UInt64) (event : FileEvent) : Db :=
  { db with
    fileSet := db.fileSet.onStorage cfg.cfId fun storage =>
      numbers.foldl (fun storage n => storage.transit n event) storage }

/-- A job over any files `PickBlobGC` may choose, its records in the
order `todo` of the merge iterator. -/
def gcPick (db : Db) (inputs : List UInt64) (todo : List (BlobIndex × BlobRecord)) : Option Db :=
  if inputs ≠ [] ∧ inputs.Nodup ∧ inputs.all (db.checkBlobFile cfg)
      ∧ todo.isPerm (inputs.flatMap db.recordsOf) then
    some { db.transitFiles cfg inputs .kGCBegin with
      jobs := db.jobs ++ [{ inputs, todo }] }
  else none

-- ==== DoRunGC

/-- `BlobGCJob::DiscardEntry`. -/
def discardEntry (db : Db) (key : UserKey) (blobIndex : BlobIndex) : Except Status Bool :=
  match db.lsm.lookup key with
  | none => .ok true
  | some entry =>
    if !entry.isBlobIndex then .ok true
    else
      match BlobIndex.decodeFrom cfg.coding entry.value with
      | .error s => .error s
      | .ok (otherBlobIndex, _) => .ok (blobIndex ≠ otherBlobIndex)

/-- `GarbageCollectionWriteCallback::Callback`, which no write of the job
is given. -/
def callback (db : Db) (key : UserKey) (blobIndex : BlobIndex) : Status :=
  match db.lsm.lookup key with
  | none => .busy "key deleted"
  | some entry =>
    if !entry.isBlobIndex then .busy "key overwritten with other value"
    else
      match BlobIndex.decodeFrom cfg.coding entry.value with
      | .error s => s
      | .ok (otherBlobIndex, _) =>
        if blobIndex = otherBlobIndex then .ok
        else .busy "key overwritten with other blob"

/-- The output file the next record goes to: the open one, or a new one
if there is none or it has reached its target size. -/
def outputFile (db : Db) (job : GcJob) (created : Bool) :
    Option (Except Status (UInt64 × GcJob) × Db) :=
  match job.outputs.getLast? with
  | some number =>
    if job.fileSize < cfg.cfOptions.blobFileTargetSize then
      some (.ok (number, job), db)
    else newOutput
  | none => newOutput
where
  /-- a new output file -/
  newOutput : Option (Except Status (UInt64 × GcJob) × Db) :=
    match db.newFile created with
    | none => none
    | some (.error s, db) => some (.error s, db)
    | some (.ok number, db) =>
      some (.ok (number, { job with outputs := job.outputs ++ [number], fileSize := 0 }), db)

/-- A live record goes to an output file of the job. -/
def addOutput (db : Db) (job : GcJob) (index : BlobIndex)
    (record : BlobRecord) (created : Bool) : Option (GcJob × Db) :=
  match db.outputFile cfg job created with
  | none => none
  | some (.error s, db) => some ({ job with status := s, stage := .release }, db)
  | some (.ok (number, job), db) =>
    match db.append cfg number record with
    | none => none
    | some (newIndex, db) =>
      let rewrite : RewriteBatch := {
        batch := [(record.key, LsmEntry.ofIndex cfg.coding newIndex)]
        key := record.key
        blobIndex := index }
      some ({ job with
        fileSize := job.fileSize + record.size
        rewriteBatches := job.rewriteBatches ++ [rewrite]
        relocated := job.relocated ++ [rewrite] }, db)

/-- One round of the loop of `DoRunGC`, up to the point where a live
record is relocated through the `ForegroundBuilder`; or the end of the
loop. `BackgroundGC` only calls `Finish` if the status is OK. -/
def gcCheck (db : Db) (job : GcJob) (shutingDown created : Bool) : Option (GcJob × Db) :=
  match job.todo with
  | [] =>
    let stage :=
      if !job.status.isOk then .release
      else if cfg.foregroundGC then .deleteInputs
      else .install
    some ({ job with stage }, db)
  | (index, record) :: todo =>
    if shutingDown then
      some ({ job with status := .shutdownInProgress, stage := .release }, db)
    else
      match db.discardEntry cfg record.key index with
      | .error s => some ({ job with status := s, stage := .release }, db)
      | .ok true => some ({ job with todo, status := .ok }, db)
      | .ok false =>
        let job := { job with todo, status := .ok }
        if cfg.foregroundGC then
          some ({ job with stage := .add index record }, db)
        else db.addOutput cfg job index record created

/-- `builder_->Add` of a live record. A failure is only printed. -/
def gcAdd (db : Db) (job : GcJob) (index : BlobIndex) (record : BlobRecord)
    (created : Bool) : Option (GcJob × Db) :=
  match db.builderAdd cfg record.key record.value created with
  | none => none
  | some (.ok batch, db) =>
    some ({ job with stage := .write index record batch }, db)
  | some (.error _, db) =>
    some ({ job with stage := .run, missed := job.missed ++ [index] }, db)

/-- `base_db_->Write` of its batch. The status goes to `s`, which the
next `DiscardEntry` assigns. The batch of an empty key is empty. -/
def gcWrite (db : Db) (job : GcJob) (index : BlobIndex) (record : BlobRecord)
    (batch : WriteBatch) (s : Status) : GcJob × Db :=
  let job := { job with stage := .run, status := s }
  if s.isOk && !batch.isEmpty then
    ({ job with
        relocated := job.relocated ++ [{ batch, key := record.key, blobIndex := index }] },
      db.write batch)
  else ({ job with missed := job.missed ++ [index] }, db)

-- ==== Finish

/-- The file `InstallOutputBlobFiles` makes of an output file. -/
def outputMeta (db : Db) (number : UInt64) : BlobFileMeta :=
  let file := (db.disk.lookup number).getD BlobFile.header
  let range := file.keyRange cfg.cfOptions.comparator
  ({ fileNumber := number
     fileSize := file.finishedSize
     fileEntries := 0
     fileLevel := 0
     smallestKey := range.1
     largestKey := range.2
     fileType :=
       if cfg.dbOptions.sepBeforeFlush then kUnSorted else kSorted }
    : BlobFileMeta).fileStateTransit .kGCOutput

/-- What the file system answers in `InstallOutputBlobFiles`. -/
structure InstallIO where
  /-- `Finish()` of the builder of a file -/
  finish : UInt64 → Status := fun _ => .ok
  deleteFile : UInt64 → Status := fun _ => .ok

/-- `BlobGCJob::InstallOutputBlobFiles`. -/
def installOutputBlobFiles (db : Db) (job : GcJob) (io : InstallIO) : Status × Db :=
  if (Status.firstFailure io.finish job.outputs).isOk then
    db.batchFinishFiles cfg (job.outputs.map (db.outputMeta cfg))
  else db.batchDeleteFiles job.outputs io.deleteFile

/-- What a round of `RewriteValidKeyToLSM` meets. -/
inductive RewriteIO where
  | isDropped
  | shutingDown
  /-- the status of `db_impl->Write` -/
  | write (s : Status)
  deriving DecidableEq, Repr

/-- The status a round leaves in `s`. -/
def RewriteIO.status : RewriteIO → Status
  | isDropped => .aborted "Column family drop"
  | shutingDown => .shutdownInProgress
  | write s => s

/-- The loop goes on after the round. -/
def RewriteIO.continues (io : RewriteIO) : Bool :=
  io.status.isOk || io.status.isBusy

/-- One round of the loop of `RewriteValidKeyToLSM`. -/
def rewriteOne (db : Db) (rewrite : RewriteBatch) (io : RewriteIO) : Db :=
  if io.status.isOk then db.write rewrite.batch else db

/-- `BlobGCJob::RewriteValidKeyToLSM`; `io` is what each round meets, by
the number of batches left. -/
def rewriteValidKeyToLSM (io : Nat → RewriteIO) (s : Status) (db : Db) :
    List RewriteBatch → Status × Db
  | [] => (if s.isBusy then .ok else s, db)
  | rewrite :: rest =>
    let round := io (rest.length + 1)
    let db := db.rewriteOne rewrite round
    if round.continues then
      rewriteValidKeyToLSM io round.status db rest
    else (round.status, db)

/-- The edit of `DeleteInputBlobFiles`. -/
def deleteEdit (inputs : List UInt64) (obsoleteSequence : SequenceNumber) :
    VersionEdit :=
  inputs.foldl (fun e n => e.deleteBlobFile n obsoleteSequence)
    (({} : VersionEdit).setColumnFamilyID cfg.cfId)

/-- `BlobGCJob::DeleteInputBlobFiles`. -/
def deleteInputBlobFiles (db : Db) (job : GcJob) : Status × Db :=
  let (s, fileSet) := db.fileSet.logAndApply cfg.coding
    (deleteEdit cfg job.inputs db.seq) .ok
  (s, { db with fileSet })

/-- What `Finish` meets. -/
structure FinishIO where
  install : InstallIO := {}
  rewrite : Nat → RewriteIO := fun _ => .write .ok
  /-- `IsDropped()` after the rewrites -/
  isDropped : Bool := false

/-- `BlobGCJob::Finish`. -/
def finish (db : Db) (job : GcJob) (io : FinishIO) : Status × Db :=
  let (s, db) :=
    if cfg.foregroundGC then (.ok, db)
    else
      let (s, db) := db.installOutputBlobFiles cfg job io.install
      if s.isOk then
        rewriteValidKeyToLSM io.rewrite .ok db job.rewriteBatches
      else (s, db)
  if s.isOk && !io.isDropped then db.deleteInputBlobFiles cfg job
  else (s, db)

-- ---- the same, in steps

/-- The step through `InstallOutputBlobFiles`. -/
def gcInstall (db : Db) (job : GcJob) (io : InstallIO) : GcJob × Db :=
  let (status, db) := db.installOutputBlobFiles cfg job io
  ({ job with
      status
      stage := if status.isOk then .rewrite job.rewriteBatches else .release }, db)

/-- One round of `RewriteValidKeyToLSM`, or its end. -/
def gcRewrite (db : Db) (job : GcJob) (io : RewriteIO) : List RewriteBatch → GcJob × Db
  | [] => ({ job with stage := .deleteInputs }, db)
  | rewrite :: rest =>
    ({ job with
        status := io.status
        stage := if io.continues then .rewrite rest else .release
        missed :=
          if io.status.isOk then job.missed
          else job.missed ++ [rewrite.blobIndex] },
      db.rewriteOne rewrite io)

/-- The step through `DeleteInputBlobFiles`, unless the column family was
dropped. -/
def gcDelete (db : Db) (job : GcJob) (isDropped : Bool) : GcJob × Db :=
  if isDropped then ({ job with stage := .release }, db)
  else
    let (status, db) := db.deleteInputBlobFiles cfg job
    ({ job with status, stage := .release, deleted := status.isOk }, db)

/-- `BlobGC::ReleaseGcFiles`; output files that were not installed are
not in the storage. -/
def releaseGcFiles (db : Db) (job : GcJob) : Db :=
  db.transitFiles cfg (job.inputs ++ job.outputs) .kGCCompleted

end Db

end DiffKV
