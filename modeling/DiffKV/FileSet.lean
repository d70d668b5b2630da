/-
The set of all blob files and its manifest (`src/blob_file_set.{h,cc}`).

A manifest file is the list of the records appended to it. The log
format of the base DB is not modelled: what a reader makes of a file is
the list of its `ReadRecord` calls, each with the corruptions it
reported and the record it returned, and a file read back intact is
`LogReader.intact`.

I/O that can fail is an argument: `ManifestIO` is the outcome of one
append and sync, `OpenIO` that of writing a new manifest, `RecoverIO`
everything `Recover` meets on disk.
-/
import DiffKV.EditCollector

namespace DiffKV

open Lib

-- ==== the manifest

/-- The manifest file being written. -/
structure Manifest where
  fileNumber : UInt64
  records : List Bytes := []

/-- What becomes of a record given to `AddRecord` and of the sync after
it. A failed append may have put the whole record into the file. -/
inductive ManifestIO where
  | ok
  | addRecordFailed (written : Bool) (msg : String)
  | syncFailed (msg : String)
  deriving DecidableEq, Repr

namespace ManifestIO

/-- `manifest_->AddRecord(record)`. -/
def addRecord : ManifestIO → Status
  | ok => .ok
  | addRecordFailed _ msg => .ioError msg
  | syncFailed _ => .ok

/-- `SyncTitanManifest(...)`. -/
def sync : ManifestIO → Status
  | ok => .ok
  | addRecordFailed _ msg => .ioError msg
  | syncFailed msg => .ioError msg

/-- The record's bytes reached the file. -/
def written : ManifestIO → Bool
  | ok => true
  | addRecordFailed w _ => w
  | syncFailed _ => true

end ManifestIO

/-- The outcomes of the steps of `OpenManifest`. -/
structure OpenIO where
  newWritableFile : Status := .ok
  /-- by the number of records already written -/
  addRecord : Nat → Status := fun _ => .ok
  sync : Status := .ok
  setCurrentFile : Status := .ok

-- ==== the file set

/-- `BlobFileSet`. -/
structure BlobFileSet where
  dbOptions : TitanDBOptions := {}
  columnFamilies : Storages := Table.empty
  obsoleteColumns : Table (id : UInt32 → UInt32) := Table.empty
  nextFileNumber : UInt64 := 1
  manifest : Option Manifest := none
  obsoleteManifests : List UInt64 := []

namespace BlobFileSet

/-- `BlobFileSet::GetBlobStorage`. -/
def getBlobStorage (fs : BlobFileSet) (cfId : UInt32) : Option BlobStorage :=
  fs.columnFamilies.lookup cfId

/-- `BlobFileSet::NewFileNumber`. -/
def newFileNumber (fs : BlobFileSet) : UInt64 × BlobFileSet :=
  (fs.nextFileNumber, { fs with nextFileNumber := fs.nextFileNumber + 1 })

/-- `BlobFileSet::AddColumnFamilies`. -/
def addColumnFamilies (fs : BlobFileSet)
    (columnFamilies : List (UInt32 × TitanCFOptions)) : BlobFileSet :=
  { fs with
    columnFamilies := columnFamilies.foldl
      (fun t cf => t.emplace (cf.1, { dbOptions := fs.dbOptions, cfOptions := cf.2 }))
      fs.columnFamilies }

-- ---- WriteSnapshot

/-- The record of one column family: every file that is not obsolete. -/
def snapshotOf (cf : UInt32 × BlobStorage) : VersionEdit :=
  (cf.2.files.entries.filter fun f => !f.isObsolete).foldl
    VersionEdit.addBlobFile (({} : VersionEdit).setColumnFamilyID cf.1)

/-- The records of `WriteSnapshot`: the global information, then the
column families. -/
def snapshotEdits (fs : BlobFileSet) : List VersionEdit :=
  ({} : VersionEdit).setNextFileNumber fs.nextFileNumber :: fs.columnFamilies.entries.map snapshotOf

/-- `BlobFileSet::WriteSnapshot`, with the records written. -/
def writeSnapshot (C : Coding) (io : OpenIO) (fs : BlobFileSet) : Status × List Bytes :=
  Status.forEach
    (fun records (edit : VersionEdit) =>
      (io.addRecord records.length, records ++ [edit.encodeTo C]))
    [] fs.snapshotEdits

/-- `BlobFileSet::OpenManifest`. -/
def openManifest (C : Coding) (io : OpenIO) (fs : BlobFileSet)
    (fileNumber : UInt64) : Status × BlobFileSet :=
  if !io.newWritableFile.isOk then (io.newWritableFile, fs)
  else
    let (s, records) := writeSnapshot C io fs
    let s := if s.isOk then io.sync else s
    let s := if s.isOk then io.setCurrentFile else s
    if s.isOk then
      (s, { fs with manifest := some { fileNumber, records } })
    else
      (s, { fs with
        manifest := none
        obsoleteManifests := fs.obsoleteManifests ++ [fileNumber] })

-- ---- LogAndApply

/-- Append to the manifest file. -/
def appendRecord (fs : BlobFileSet) (record : Bytes) : BlobFileSet :=
  { fs with
    manifest := fs.manifest.map fun m =>
      { m with records := m.records ++ [record] } }

/-- `BlobFileSet::LogAndApply`. -/
def logAndApply (C : Coding) (fs : BlobFileSet) (edit : VersionEdit)
    (io : ManifestIO) : Status × BlobFileSet :=
  let edit := edit.setNextFileNumber fs.nextFileNumber
  let record := edit.encodeTo C
  let (s, collector) := ({} : EditCollector).addEdit edit
  if !s.isOk then (s, fs)
  else
    let (s, collector) := collector.seal fs.columnFamilies
    if !s.isOk then (s, fs)
    else
      let fs := if io.written then fs.appendRecord record else fs
      if !io.addRecord.isOk then (io.addRecord, fs)
      else if !io.sync.isOk then (io.sync, fs)
      else
        let (s, _, storages) := collector.apply fs.columnFamilies
        (s, { fs with columnFamilies := storages })

-- ---- column families

/-- The edit `DropColumnFamilies` logs for one column family. -/
def dropEdit (cf : UInt32 × BlobStorage) (obsoleteSequence : SequenceNumber) :
    VersionEdit :=
  (cf.2.files.entries.filter fun f => !f.isObsolete).foldl
    (fun e f => e.deleteBlobFile f.fileNumber obsoleteSequence)
    (({} : VersionEdit).setColumnFamilyID cf.1)

/-- One round of the loop of `BlobFileSet::DropColumnFamilies`. -/
def dropColumnFamily (C : Coding) (obsoleteSequence : SequenceNumber)
    (fs : BlobFileSet) (cf : UInt32 × ManifestIO) : Status × BlobFileSet :=
  match fs.columnFamilies.lookup cf.1 with
  | none => (.notFound "invalid column family", fs)
  | some storage =>
    let (s, fs) := fs.logAndApply C
      (dropEdit (cf.1, storage) obsoleteSequence) cf.2
    if s.isOk then
      (s, { fs with obsoleteColumns := fs.obsoleteColumns.emplace cf.1 })
    else (s, fs)

/-- `BlobFileSet::DropColumnFamilies`. -/
def dropColumnFamilies (C : Coding) (fs : BlobFileSet) (columnFamilies : List (UInt32 × ManifestIO))
    (obsoleteSequence : SequenceNumber) : Status × BlobFileSet :=
  Status.forEach (dropColumnFamily C obsoleteSequence) fs columnFamilies

/-- `BlobFileSet::MaybeDestroyColumnFamily`. -/
def maybeDestroyColumnFamily (fs : BlobFileSet) (cfId : UInt32) : Status × BlobFileSet :=
  let fs := { fs with obsoleteColumns := fs.obsoleteColumns.erase cfId }
  match fs.columnFamilies.lookup cfId with
  | none => (.notFound "invalid column family", fs)
  | some storage =>
    let storage := storage.markDestroyed
    (.ok, { fs with
      columnFamilies :=
        if storage.maybeRemove then fs.columnFamilies.erase cfId
        else fs.columnFamilies.insert cfId storage })

/-- The edit of `DeleteBlobFilesInRanges`. It takes over no obsolete
sequence, so that of a deleted file is the default of `DeleteBlobFile`. -/
def rangeEdit (cfId : UInt32) (files : List UInt64) : VersionEdit :=
  files.foldl (fun e n => e.deleteBlobFile n 0) (({} : VersionEdit).setColumnFamilyID cfId)

/-- `BlobFileSet::DeleteBlobFilesInRanges`; `none` where the selection of
the files is undefined. -/
def deleteBlobFilesInRanges (C : Coding) (fs : BlobFileSet) (cfId : UInt32)
    (ranges : List BlobStorage.RangePtr) (includeEnd : Bool)
    (_obsoleteSequence : SequenceNumber) (io : ManifestIO) :
    Option (Status × BlobFileSet) :=
  match fs.columnFamilies.lookup cfId with
  | none => some (.notFound "invalid column family", fs)
  | some storage =>
    match storage.getBlobFilesInRanges ranges includeEnd with
    | none => none
    | some files => some (fs.logAndApply C (rangeEdit cfId files) io)

/-- One round of the loop of `BlobFileSet::GetObsoleteFiles`: the blob
files handed out so far and the column families. -/
def getObsoleteFilesOf (oldestSequence : SequenceNumber)
    (acc : List UInt64 × BlobFileSet) (cfId : UInt32) :
    List UInt64 × BlobFileSet :=
  let (files, fs) := acc
  if fs.obsoleteColumns.contains cfId then (files, fs)
  else
    match fs.columnFamilies.lookup cfId with
    | none => (files, fs)
    | some storage =>
      let (removed, storage) := storage.getObsoleteFiles oldestSequence
      (files ++ removed,
        { fs with
          columnFamilies :=
            if storage.maybeRemove then fs.columnFamilies.erase cfId
            else fs.columnFamilies.insert cfId storage })

/-- `BlobFileSet::GetObsoleteFiles`: the blob files and the manifests to
delete. -/
def getObsoleteFiles (fs : BlobFileSet) (oldestSequence : SequenceNumber) :
    List UInt64 × List UInt64 × BlobFileSet :=
  let (files, fs') := (fs.columnFamilies.entries.map Prod.fst).foldl
    (getObsoleteFilesOf oldestSequence) ([], fs)
  (files, fs.obsoleteManifests, { fs' with obsoleteManifests := [] })

end BlobFileSet

-- ==== recovery

/-- One `ReadRecord` call: the corruptions it reports while looking for
the next record, and the record, if it finds one. -/
structure ReadCall where
  reported : List Status := []
  record : Option Bytes

/-- The calls a log reader answers; past the last one it reports nothing
and returns false. -/
abbrev LogReader := List ReadCall

/-- The reader of a file whose records are read back as appended. -/
def LogReader.intact (records : List Bytes) : LogReader :=
  records.map fun r => { record := some r }

/-- `LogReporter::Corruption`, for the corruptions of one call. -/
def LogReader.report (s : Status) (reported : List Status) : Status :=
  reported.foldl (fun s e => if s.isOk then e else s) s

/-- The loop of `Recover` over the records. It leaves its status in a
variable that the code after it assigns again. -/
def LogReader.collect (C : Coding) (collector : EditCollector) (s : Status) :
    LogReader → Except Status (Status × EditCollector)
  | [] => .ok (s, collector)
  | call :: reader =>
    let s := report s call.reported
    match call.record with
    | none => .ok (s, collector)
    | some record =>
      if !s.isOk then .ok (s, collector)
      else
        match VersionEdit.decodeInto C record with
        | .error e => .error e
        | .ok edit =>
          let (s, collector) := collector.addEdit edit
          if !s.isOk then .error s
          else collect C collector s reader

/-- The types of the files `Recover` purges, and the rest. -/
inductive FileType where
  | kBlobFile | kDescriptorFile | other
  deriving DecidableEq, Repr

/-- What `Recover` finds on disk, and the outcomes of its writes. -/
structure RecoverIO where
  /-- `ReadFileToString` of the file `CURRENT` -/
  current : Except Status Bytes
  newSequentialFile : Status := .ok
  reader : LogReader
  openManifest : OpenIO := {}
  /-- the names in the directory that `ParseFileName` understands -/
  children : List (UInt64 × FileType) := []

namespace BlobFileSet

/-- The second block of `Recover`: read the edits, seal and apply them,
and take over the next file number. The status the loop ends with is
overwritten by that of `Seal`. -/
def recoverEdits (C : Coding) (fs : BlobFileSet) (reader : LogReader) : Status × BlobFileSet :=
  match reader.collect C {} .ok with
  | .error s => (s, fs)
  | .ok (_, collector) =>
    let (s, collector) := collector.seal fs.columnFamilies
    if !s.isOk then (s, fs)
    else
      let (s, collector, storages) := collector.apply fs.columnFamilies
      let fs := { fs with columnFamilies := storages }
      if !s.isOk then (s, fs)
      else
        match collector.getNextFileNumber with
        | .error s => (s, fs)
        | .ok next => (.ok, { fs with nextFileNumber := next })

/-- The files alive at the end of `Recover`. -/
def aliveFiles (fs : BlobFileSet) : List UInt64 :=
  fs.columnFamilies.entries.flatMap fun cf =>
    cf.2.files.entries.map BlobFileMeta.fileNumber

/-- The children `Recover` deletes. -/
def purgedAtStart (alive : List UInt64) (children : List (UInt64 × FileType)) :
    List (UInt64 × FileType) :=
  children.filter fun f =>
    !alive.contains f.1 && (f.2 = .kBlobFile || f.2 = .kDescriptorFile)

/-- The last part of `Recover`: mark the files for GC, open a new
manifest, and purge what is not alive. -/
def recoverFinish (C : Coding) (io : OpenIO)
    (children : List (UInt64 × FileType)) (fs : BlobFileSet) :
    Status × BlobFileSet × List (UInt64 × FileType) :=
  let fs := { fs with
    columnFamilies := fs.columnFamilies.mapVal fun st =>
      st.markAllFilesForGC.computeGCScore }
  let (number, fs) := fs.newFileNumber
  let (s, fs) := fs.openManifest C io number
  if !s.isOk then (s, fs, [])
  else
    -- delete obsoleted files at reopen
    let fs := { fs with
      columnFamilies := fs.columnFamilies.mapVal fun st =>
        (st.getObsoleteFiles kMaxSequenceNumber).2 }
    (.ok, fs, purgedAtStart (number :: fs.aliveFiles) children)

/-- `BlobFileSet::Recover`: its status, the file set, and the files it
deleted. -/
def recover (C : Coding) (io : RecoverIO) (fs : BlobFileSet) :
    Status × BlobFileSet × List (UInt64 × FileType) :=
  match io.current with
  | .error s => (s, fs, [])
  | .ok manifest =>
    -- the newline is byte 10
    if manifest.getLast? ≠ some 10 then
      (.corruption "CURRENT file does not end with newline", fs, [])
    else if !io.newSequentialFile.isOk then (io.newSequentialFile, fs, [])
    else
      let (s, fs) := fs.recoverEdits C io.reader
      if !s.isOk then (s, fs, [])
      else fs.recoverFinish C io.openManifest io.children

/-- `BlobFileSet::Open` on a file set just constructed; `io` is absent
where there is no file `CURRENT`. -/
def «open» (C : Coding) (dbOptions : TitanDBOptions)
    (columnFamilies : List (UInt32 × TitanCFOptions))
    (io : Except OpenIO RecoverIO) :
    Status × BlobFileSet × List (UInt64 × FileType) :=
  let fs := ({ dbOptions } : BlobFileSet).addColumnFamilies columnFamilies
  match io with
  | .ok io => fs.recover C io
  | .error io =>
    let (number, fs) := fs.newFileNumber
    let (s, fs) := fs.openManifest C io number
    (s, fs, [])

end BlobFileSet

-- ==== operations

/-- What is done to a file set under the DB mutex. -/
inductive FileSetOp where
  | logAndApply (edit : VersionEdit) (io : ManifestIO)
  | dropColumnFamilies (columnFamilies : List (UInt32 × ManifestIO))
      (obsoleteSequence : SequenceNumber)
  | maybeDestroyColumnFamily (cfId : UInt32)
  | deleteBlobFilesInRanges (cfId : UInt32) (ranges : List BlobStorage.RangePtr) (includeEnd : Bool)
      (obsoleteSequence : SequenceNumber) (io : ManifestIO)
  | getObsoleteFiles (oldestSequence : SequenceNumber)

/-- The file set after the operation. -/
def BlobFileSet.act (C : Coding) (fs : BlobFileSet) : FileSetOp → Option BlobFileSet
  | .logAndApply edit io => some (fs.logAndApply C edit io).2
  | .dropColumnFamilies columnFamilies obsoleteSequence =>
    some (fs.dropColumnFamilies C columnFamilies obsoleteSequence).2
  | .maybeDestroyColumnFamily cfId =>
    some (fs.maybeDestroyColumnFamily cfId).2
  | .deleteBlobFilesInRanges cfId ranges includeEnd obsoleteSequence io =>
    (fs.deleteBlobFilesInRanges C cfId ranges includeEnd obsoleteSequence io).map Prod.snd
  | .getObsoleteFiles oldestSequence =>
    some (fs.getObsoleteFiles oldestSequence).2.2

-- ==== runs of LogAndApply calls

/-- One `LogAndApply` call: the value of the file number counter when it
is made (other threads take numbers in between), the edit, and what
becomes of its record. -/
structure LogCall where
  next : UInt64
  edit : VersionEdit
  io : ManifestIO := .ok

namespace BlobFileSet

/-- The file set with its counter at `next`. -/
def atNext (fs : BlobFileSet) (next : UInt64) : BlobFileSet :=
  { fs with nextFileNumber := next }

/-- One call. -/
def call (C : Coding) (fs : BlobFileSet) (c : LogCall) : Status × BlobFileSet :=
  (fs.atNext c.next).logAndApply C c.edit c.io

/-- A run of calls. -/
def calls (C : Coding) (fs : BlobFileSet) (cs : List LogCall) :
    BlobFileSet :=
  cs.foldl (fun fs c => (fs.call C c).2) fs

/-- The checks `LogAndApply` makes before it touches the manifest. -/
def admits (fs : BlobFileSet) (edit : VersionEdit) : Bool :=
  let (s, collector) := ({} : EditCollector).addEdit
    (edit.setNextFileNumber fs.nextFileNumber)
  s.isOk && (collector.seal fs.columnFamilies).1.isOk

/-- The edit a call puts into the manifest, if it puts one there. -/
def loggedBy (fs : BlobFileSet) (c : LogCall) : List VersionEdit :=
  if c.io.written && fs.admits c.edit then
    [c.edit.setNextFileNumber c.next]
  else []

/-- The edits a run puts into the manifest. -/
def logged (C : Coding) (fs : BlobFileSet) : List LogCall → List VersionEdit
  | [] => []
  | c :: cs => fs.loggedBy c ++ logged C (fs.call C c).2 cs

/-- The records of the manifest. -/
def records (fs : BlobFileSet) : List Bytes :=
  (fs.manifest.map Manifest.records).getD []

/-- The file set a new process constructs, with the same column families
opened. -/
def reopened (fs : BlobFileSet) : BlobFileSet :=
  ({ dbOptions := fs.dbOptions } : BlobFileSet).addColumnFamilies
    (fs.columnFamilies.entries.map fun cf => (cf.1, cf.2.cfOptions))

/-- The file set just after its manifest was opened: the records are
those of `WriteSnapshot`. -/
def snapshotted (C : Coding) (fs : BlobFileSet) (number : UInt64) :
    BlobFileSet :=
  (fs.openManifest C {} number).2

/-- The file `n` of column family `i`. -/
def file (fs : BlobFileSet) (i : UInt32) (n : UInt64) : Option BlobFileMeta :=
  (fs.columnFamilies.lookup i).bind (·.findFile n)

theorem file_of_lookup {fs : BlobFileSet} {i : UInt32} {st : BlobStorage}
    (hst : fs.columnFamilies.lookup i = some st) (n : UInt64) : fs.file i n = st.findFile n := by
  rw [file, hst]
  rfl

/-- The file, unless it is obsolete. -/
def live (fs : BlobFileSet) (i : UInt32) (n : UInt64) : Option BlobFileMeta :=
  (fs.file i n).filter (!·.isObsolete)

/-- The file `n` of column family `i` is still being built. -/
def building (fs : BlobFileSet) (i : UInt32) (n : UInt64) : Bool :=
  (fs.columnFamilies.lookup i).any (·.findBuildingFile n)

/-- The obsolete files of all column families, with their obsolete
sequences. -/
def obsoleteEntries (fs : BlobFileSet) : List (UInt64 × SequenceNumber) :=
  fs.columnFamilies.entries.flatMap (·.2.obsoleteFiles)

end BlobFileSet

end DiffKV
