/-
What keeps the books of a column family: every act on its storage that a
counter of `TitanInternalStats` could follow, in the order the code's
loops take them (`src/db_impl.cc`, `src/blob_storage.cc`,
`src/table_builder.cc`, `src/edit_collector.h`).
-/
import DiffKV.GcFiles

namespace DiffKV

open Lib

/-- The storage of a column family, and the `delta` of the loop that is at
work on it. -/
structure Books where
  storage : BlobStorage
  delta : UInt64 := 0

/-- What is done to the books in one go: a call, or a part of the body of
a loop. -/
inductive StorageAct where
  /-- `AddStats` of `AddBlob`, of a table builder or in the foreground -/
  | addBlob (valueSize : UInt64)
  | addBlobFile (file : BlobFileMeta)
  | markFileObsolete (file : UInt64 × SequenceNumber)
  | applyUpdate (discardable : UInt64 × UInt64)
  | removeFile (number : UInt64)
  /-- `obsolete_files_` after `GetObsoleteFiles` -/
  | keepObsolete (files : List (UInt64 × SequenceNumber))
  | computeGCScore
  | transit (number : UInt64) (event : FileEvent)
  | releaseInput (number : UInt64)
  /-- a loop begins -/
  | begin
  | flushFile (f : UInt64 × UInt64)
  /-- of a compaction or a range deletion -/
  | chargeFile (f : UInt64 × UInt64)
  /-- `SubStats` of the `delta`, after the loop -/
  | subDelta

namespace Books

/-- One act. -/
def act (a : Books) : StorageAct → Books
  | .addBlob valueSize =>
    { a with storage := { a.storage with
        stats := a.storage.stats.add .LIVE_BLOB_SIZE valueSize } }
  | .addBlobFile file => { a with storage := a.storage.addBlobFile file }
  | .markFileObsolete file =>
    { a with
      storage := (a.storage.markFileObsolete file.1 file.2).getD a.storage }
  | .applyUpdate discardable =>
    { a with storage := CFEditCollector.applyUpdate a.storage discardable }
  | .removeFile number => { a with storage := a.storage.removeFile number }
  | .keepObsolete files =>
    { a with storage := { a.storage with obsoleteFiles := files } }
  | .computeGCScore => { a with storage := a.storage.computeGCScore }
  | .transit number event =>
    { a with storage := a.storage.transit number event }
  | .releaseInput number =>
    { a with storage := a.storage.releaseInput number }
  | .begin => { a with delta := 0 }
  | .flushFile f =>
    let (storage, delta) := DiffKV.flushFile (a.storage, a.delta) f
    { storage, delta }
  | .chargeFile f =>
    match a.storage.findFile f.1 with
    | none => a
    | some m =>
      let c := ChargeState.chargeFile { storage := a.storage, delta := a.delta }
        m f.2
      { storage := c.storage, delta := c.delta }
  | .subDelta =>
    { a with storage := { a.storage with
        stats := a.storage.stats.sub .LIVE_BLOB_SIZE a.delta } }

/-- A run of acts. -/
def run (a : Books) (acts : List StorageAct) : Books := acts.foldl act a

end Books

/-- The books within a charging loop. -/
def ChargeState.books (c : ChargeState) : Books :=
  { storage := c.storage, delta := c.delta }

end DiffKV
