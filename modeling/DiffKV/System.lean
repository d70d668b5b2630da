/-
The database as a state machine: the steps of user writes, memtable
seals, flush completions, GC jobs, snapshots and purges, in any order.

A step is what runs without another thread in between that could see or
change what it reads: a request of a foreground builder, a write of the
base DB, a section under the mutex. A purge has two steps
(`src/db_impl_files.cc`): it reads the oldest snapshot's sequence number
before it takes the mutex.
-/
import DiffKV.GcJob
import DiffKV.Lib.Machine

namespace DiffKV

open Lib

/-- What a step of a GC job meets. Each stage reads its own part. -/
structure GcIO where
  shutingDown : Bool := false
  /-- a new file can be created -/
  created : Bool := true
  /-- the status of `base_db_->Write` -/
  write : Status := .ok
  install : Db.InstallIO := {}
  rewrite : Db.RewriteIO := .write .ok
  isDropped : Bool := false

/-- The steps of the machine. -/
inductive Action where
  | putAdd (key : UserKey) (value : Bytes) (created : Bool)
  | putWrite (i : Nat)
  | delete (key : UserKey)
  /-- a request for a flush, of those `OnMemTableSealed` makes -/
  | flushShard (b : Nat)
  /-- `OnFlushCompleted`; the sizes it updates only steer the picker -/
  | flushCompleted (numbers : List UInt64)
  | gcPick (inputs : List UInt64) (todo : List (BlobIndex × BlobRecord))
  | gcStep (j : Nat) (io : GcIO)
  | takeSnapshot
  | releaseSnapshot (i : Nat)
  | purgeRead
  | purgeApply (i : Nat)

namespace Db

variable (cfg : Config)

/-- The next step of a job. -/
def gcStep (db : Db) (job : GcJob) (io : GcIO) : Option (GcJob × Db) :=
  match job.stage with
  | .run => db.gcCheck cfg job io.shutingDown io.created
  | .add index record => db.gcAdd cfg job index record io.created
  | .write index record batch =>
    some (db.gcWrite job index record batch io.write)
  | .install => some (db.gcInstall cfg job io.install)
  | .rewrite rest => some (db.gcRewrite job io.rewrite rest)
  | .deleteInputs => some (db.gcDelete cfg job io.isDropped)
  | .release => some ({ job with stage := .done }, db.releaseGcFiles cfg job)
  | .done => none

/-- `GetOldestSnapshotSequence`: the list is in the order the snapshots
were taken. -/
def getOldestSnapshotSequence (db : Db) : SequenceNumber :=
  db.snapshots.head?.getD kMaxSequenceNumber

/-- The second half of `PurgeObsoleteFilesImpl`. -/
def purge (db : Db) (oldestSequence : SequenceNumber) : Db :=
  let (files, _, fileSet) := db.fileSet.getObsoleteFiles oldestSequence
  { db with fileSet, disk := files.foldl Table.erase db.disk }

/-- One step of the machine. -/
def step (db : Db) : Action → Option Db
  | .putAdd key value created => db.putAdd cfg key value created
  | .putWrite i => db.putWrite i
  | .delete key => some (db.delete key)
  | .flushShard b => some (db.flushShard cfg b)
  | .flushCompleted numbers =>
    some (db.transitFiles cfg numbers .kFlushCompleted)
  | .gcPick inputs todo => db.gcPick cfg inputs todo
  | .gcStep j io =>
    match db.jobs[j]? with
    | none => none
    | some job =>
      match db.gcStep cfg job io with
      | none => none
      | some (job, db) => some { db with jobs := db.jobs.set j job }
  | .takeSnapshot => some { db with snapshots := db.snapshots ++ [db.seq] }
  | .releaseSnapshot i => some { db with snapshots := db.snapshots.eraseIdx i }
  | .purgeRead =>
    some { db with
      purges := db.purges ++ [db.getOldestSnapshotSequence] }
  | .purgeApply i =>
    match db.purges[i]? with
    | none => none
    | some oldestSequence =>
      some { db.purge oldestSequence with
        purges := db.purges.eraseIdx i }

-- ==== file status

/-- The file `n` is still being built. -/
def building (db : Db) (n : UInt64) : Bool :=
  db.fileSet.building cfg.cfId n

/-- The file `n` is in the storage. -/
def installed (db : Db) (n : UInt64) : Bool :=
  (db.fileSet.file cfg.cfId n).isSome

/-- The file `n` is in the storage and not obsolete. -/
def live (db : Db) (n : UInt64) : Bool :=
  (db.fileSet.live cfg.cfId n).isSome

/-- A blob index may point into the file `n`. -/
def usable (db : Db) (n : UInt64) : Bool :=
  db.building cfg n || db.live cfg n

/-- The state after a run. -/
abbrev exec : Db → List Action → Option Db := Lib.exec (step cfg)

end Db

end DiffKV
