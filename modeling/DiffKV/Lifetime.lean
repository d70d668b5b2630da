/-
The parts of a `TitanDBImpl` object from its construction to its
destruction (`Open`, `Close`, `CloseImpl` and the destructor of
`src/db_impl.cc`, `PurgeObsoleteFilesImpl` of `src/db_impl_files.cc`,
`GetOldestSnapshotSequence` of `src/db_impl.h`, and `TitanDB::Open` of
`src/db.cc`).

`Open` makes the parts one after the other and may return in between;
`TitanDB::Open` then deletes the object, and the destructor calls
`Close`. A part that is held by a smart pointer, or by a pointer with an
initializer, is there or not. `db_impl_` has no initializer: until the
end of a successful `Open` its value is indeterminate.

A use of a part that is not there ends the run (`Misuse`). `Close` also
waits for the GC jobs that are running; that it gets through is not a
question here, and `DumpStats` needs no part that may be missing.
-/
import DiffKV.Format

namespace DiffKV

/-- A raw pointer without an initializer. -/
inductive RawPointer where
  | indeterminate | null | object
  deriving DecidableEq, Repr

/-- What is used that is not there. -/
inductive Misuse where
  /-- a member of `*db_impl_` -/
  | dbImpl (value : RawPointer)
  /-- a member of `*blob_file_set_` -/
  | blobFileSet
  /-- `join` of a builder thread that was joined before -/
  | joinedThread
  deriving DecidableEq, Repr

/-- `ForegroundBuilder`: whether each thread of `pool_` can be joined. -/
structure BuilderThreads where
  joinable : List Bool

/-- The parts of a `TitanDBImpl` that `Close` uses. -/
structure TitanDBParts where
  lock : Bool := false
  blobFileSet : Bool := false
  db : Bool := false
  dbImpl : RawPointer := .indeterminate
  builders : List BuilderThreads := []
  threadPurgeObsolete : Bool := false
  shutingDown : Bool := false

/-- The options that decide which parts there are. -/
structure LifetimeOptions where
  sepBeforeFlush : Bool := false
  numForegroundBuilders : Nat := 1
  numColumnFamilies : Nat := 1
  purgeObsoleteFilesPeriodSec : Nat := 10

/-- The outcomes of the calls `Open` makes. -/
structure OpenCalls where
  createDbDir : Status := .ok
  /-- OK where the options bring a log -/
  createLogger : Status := .ok
  createTitanDir : Status := .ok
  lockFile : Status := .ok
  /-- the base DB opened for the ids of the column families -/
  initOpen : Status := .ok
  initClose : Status := .ok
  fileSetOpen : Status := .ok
  baseOpen : Status := .ok

namespace TitanDBParts

variable (options : LifetimeOptions)

/-- `ForegroundBuilder::Init`. -/
def initBuilder : BuilderThreads where
  joinable := List.replicate options.numForegroundBuilders true

/-- `TitanDBImpl::Open`, from an object as constructed. -/
def «open» (calls : OpenCalls) : Status × TitanDBParts :=
  let p : TitanDBParts := {}
  if !calls.createDbDir.isOk then (calls.createDbDir, p)
  else if !calls.createLogger.isOk then (calls.createLogger, p)
  else if !calls.createTitanDir.isOk then (calls.createTitanDir, p)
  else if !calls.lockFile.isOk then (calls.lockFile, p)
  else
    let p := { p with lock := true, blobFileSet := true }
    -- the base DB of the first `Open` is deleted whatever its `Close` says
    if !calls.initOpen.isOk then (calls.initOpen, p)
    else if !calls.initClose.isOk then (calls.initClose, p)
    else
      -- the builders start before the status is looked at
      let p :=
        if options.sepBeforeFlush then
          { p with
            builders := List.replicate options.numColumnFamilies (initBuilder options) }
        else p
      if !calls.fileSetOpen.isOk then (calls.fileSetOpen, p)
      else if !calls.baseOpen.isOk then (calls.baseOpen, p)
      else (calls.baseOpen, { p with db := true, dbImpl := .object })

/-- `StartBackgroundTasks`. -/
def startBackgroundTasks (p : TitanDBParts) : TitanDBParts :=
  { p with
    threadPurgeObsolete := p.threadPurgeObsolete
      || decide (options.purgeObsoleteFilesPeriodSec > 0) }

/-- `PurgeObsoleteFiles`, by what it uses: `GetOldestSnapshotSequence`
locks the mutex of the base DB, and the file set is asked for the files. -/
def purgeObsoleteFiles (p : TitanDBParts) : Except Misuse Unit :=
  if p.dbImpl ≠ .object then .error (.dbImpl p.dbImpl)
  else if !p.blobFileSet then .error .blobFileSet
  else .ok ()

/-- `CloseImpl`. -/
def closeImpl (p : TitanDBParts) : TitanDBParts :=
  { p with shutingDown := true, threadPurgeObsolete := false }

/-- `ForegroundBuilder::Finish`: every thread is joined. -/
def finishBuilder (b : BuilderThreads) : Except Misuse BuilderThreads :=
  if b.joinable.all id then .ok { joinable := b.joinable.map fun _ => false }
  else .error .joinedThread

/-- `TitanDBImpl::Close`. -/
def close (p : TitanDBParts) : Except Misuse TitanDBParts := do
  p.purgeObsoleteFiles
  let p := p.closeImpl
  let p := if p.db then { p with db := false, dbImpl := .null } else p
  let builders ← p.builders.mapM finishBuilder
  return { p with builders, lock := false }

/-- `Close` so many times. -/
def closeTimes : Nat → TitanDBParts → Except Misuse TitanDBParts
  | 0, p => .ok p
  | n + 1, p => p.close.bind (closeTimes n)

/-- The life of an object: `TitanDB::Open`, so many calls of `Close` if it
succeeds, and the destructor, which calls `Close` once more. -/
def lifetime (calls : OpenCalls) (closes : Nat) : Except Misuse TitanDBParts :=
  let (s, p) := TitanDBParts.open options calls
  if s.isOk then closeTimes (closes + 1) (p.startBackgroundTasks options)
  else p.close

end TitanDBParts

end DiffKV
