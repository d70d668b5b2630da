/-
`ForegroundBuilder` (`src/table_builder.{h,cc}`) when calls fail, down to
the bytes of its files.

`handleRequest` drops the status of `BlobFileBuilder::Add`, and takes a
request with an empty key for one of `Flush`. A `BlobFileBuilder` keeps
its first error: later records are not appended, and their handles stay
as they were constructed. What the file system and the other parts of the
database answer is an argument of each request. `Foreground.lean` has the
case in which no append fails.

A file is the bytes appended to it, those in the buffer of its writer
included. Of an append that fails any number of bytes may have reached
the file, but `GetFileSize` counts none of them. A worker serves one
request at a time, so one request is one step; `Flush` is one request to
each worker. A function returns `none` where the process aborts and where
a 64-bit counter would wrap round. Statistics are left out.
-/
import DiffKV.Foreground
import DiffKV.BlobRead

namespace DiffKV

open Lib

/-- What an append meets: its status and, if that is not OK, how many of
the bytes have reached the file. -/
structure AppendOutcome where
  status : Status := .ok
  reached : Nat := 0

/-- `WritableFileWriter::Append`. -/
def AppendOutcome.append (io : AppendOutcome) (file data : Bytes) : Bytes :=
  file ++ if io.status.isOk then data else data.take io.reached

/-- What a request meets. -/
structure RequestIO where
  /-- `blob_file_manager_->NewFile` -/
  newFile : Status := .ok
  /-- the append of a header, by the constructor of `BlobFileBuilder` -/
  appendHeader : AppendOutcome := {}
  /-- the append of the record -/
  append : AppendOutcome := {}
  /-- the append of a footer -/
  appendFooter : Status := .ok
  /-- the flush behind it -/
  flush : Status := .ok
  /-- `WriteBatchInternal::PutBlobIndex` -/
  putBlobIndex : Status := .ok
  /-- the `Sync` and `Close` of `BatchFinishFiles` -/
  sync : Status := .ok
  /-- the manifest, in `BatchFinishFiles` -/
  manifest : ManifestIO := .ok

/-- What a `ForegroundBuilder` is constructed with. -/
structure ForegroundConfig where
  codec : Codec
  /-- `std::hash<std::string>` -/
  hash : UserKey → Nat
  cfId : UInt32 := 0
  dbOptions : TitanDBOptions := {}
  cfOptions : TitanCFOptions := {}
  /-- `cf_options_.blob_file_compression` -/
  compression : CompressionType := .kNoCompression

namespace ForegroundConfig

variable (cfg : ForegroundConfig)

/-- `BlobEncoder::EncodeRecord` of a foreground builder's file. -/
def encodeRecord (record : BlobRecord) : EncodedRecord :=
  cfg.codec.encodeRecord cfg.compression
    (BlobWriter.foregroundBuilder.onlyValue cfg.cfOptions) record

/-- What the database without failures is configured with. -/
def config : Config where
  coding := cfg.codec.coding
  hash := cfg.hash
  encodedSize record := (cfg.encodeRecord record).getEncodedSize
  cfId := cfg.cfId
  dbOptions := cfg.dbOptions
  cfOptions := cfg.cfOptions

end ForegroundConfig

/-- `handle_[b]` and `builder_[b]`, whose file is in the directory. -/
structure ForegroundFile where
  number : UInt64
  /-- `GetFileSize()`: what was appended without an error -/
  fileSize : UInt64
  /-- `status_` of the builder -/
  status : Status
  numEntries : UInt64 := 0
  keyRange : UserKey × UserKey := (UserKey.empty, UserKey.empty)

/-- A worker: `handle_[b]`, `builder_[b]` and `finished_files_[b]`. -/
structure ForegroundWorker where
  file : Option ForegroundFile := none
  finished : List BlobFileMeta := []

/-- `ForegroundBuilder`, with the file set and the directory it works
on. -/
structure ForegroundBuilder where
  fileSet : BlobFileSet
  dir : BlobDir
  workers : List ForegroundWorker

/-- A request in the queue of a worker. -/
inductive ForegroundRequest where
  | add (key : UserKey) (value : Bytes) (io : RequestIO)
  | flush (b : Nat) (io : RequestIO)

namespace ForegroundBuilder

variable (cfg : ForegroundConfig)

/-- `Init`. -/
def init (fileSet : BlobFileSet) (dir : BlobDir) : ForegroundBuilder where
  fileSet := fileSet
  dir := dir
  workers := List.replicate cfg.dbOptions.numForegroundBuilders {}

/-- The open file of a worker. -/
def openAt (s : ForegroundBuilder) (b : Nat) : Option ForegroundFile :=
  s.workers[b]?.bind (·.file)

/-- Change a worker. -/
def onWorker (s : ForegroundBuilder) (b : Nat)
    (f : ForegroundWorker → ForegroundWorker) : ForegroundBuilder :=
  { s with workers := s.workers.modify b f }

-- ==== files

/-- The file `FinishBlob` makes of an open one. -/
def finishedMeta (file : ForegroundFile) (fileSize : UInt64) : BlobFileMeta :=
  ({ fileNumber := file.number
     fileSize := fileSize
     fileEntries := file.numEntries
     fileLevel := 0
     smallestKey := file.keyRange.1
     largestKey := file.keyRange.2
     fileType := BlobWriter.foregroundBuilder.fileType cfg.dbOptions }
    : BlobFileMeta).fileStateTransit .kReset

/-- `ForegroundBuilder::FinishBlob`: it aborts unless `Finish` of the
`BlobFileBuilder` returns OK. -/
def finishBlob (s : ForegroundBuilder) (b : Nat) (io : RequestIO) : Option ForegroundBuilder :=
  match s.openAt b with
  | none => some s
  | some file =>
    let fileSize := file.fileSize + kBlobFooterSize
    if file.status.isOk && io.appendFooter.isOk && io.flush.isOk
        && decide (file.fileSize < fileSize) then
      some ({ s with
          dir := s.dir.insert file.number (BlobFileBuilder.finish cfg.codec
            ((s.dir.lookup file.number).getD [])) }.onWorker b fun w =>
        { file := none
          finished := w.finished ++ [finishedMeta cfg file fileSize] })
    else none

/-- `FileManager::BatchFinishFiles`. -/
def batchFinishFiles (s : ForegroundBuilder) (files : List BlobFileMeta)
    (io : RequestIO) : Status × ForegroundBuilder :=
  if io.sync.isOk then
    let (status, fileSet) := s.fileSet.logAndApply cfg.codec.coding
      (Db.finishEdit cfg.config files) io.manifest
    (status, { s with fileSet })
  else (io.sync, s)

/-- What `handleRequest` does with a request for a flush. It ignores the
status of `BatchFinishFiles`. -/
def flushWorker (s : ForegroundBuilder) (b : Nat) (io : RequestIO) : Option ForegroundBuilder :=
  match s.finishBlob cfg b io with
  | none => none
  | some s =>
    match s.workers[b]? with
    | none => none
    | some w =>
      if w.finished.isEmpty then some s
      else
        some ((s.batchFinishFiles cfg w.finished io).2.onWorker b fun w =>
          { w with finished := [] })

/-- A new file: `NewFile`, the `BlobFileBuilder` and `AddBuildingFile`.
Without a storage it aborts. -/
def newFile (s : ForegroundBuilder) (b : Nat) (io : RequestIO) :
    Option (Except Status ForegroundFile × ForegroundBuilder) :=
  let (number, fileSet) := s.fileSet.newFileNumber
  if number < fileSet.nextFileNumber then
    if io.newFile.isOk then
      if (fileSet.getBlobStorage cfg.cfId).isSome then
        let file : ForegroundFile :=
          { number
            fileSize :=
              if io.appendHeader.status.isOk then kBlobHeaderSize else 0
            status := io.appendHeader.status }
        some (.ok file,
          { s with
            fileSet := fileSet.addBuildingFile cfg.cfId number
            dir := s.dir.insert number (io.appendHeader.append [] encodeFileHeader)
            }.onWorker b fun w => { w with file := some file })
      else none
    else some (.error io.newFile, { s with fileSet })
  else none

/-- The open file of a worker, a new one if it has none. -/
def openFile (s : ForegroundBuilder) (b : Nat) (io : RequestIO) :
    Option (Except Status ForegroundFile × ForegroundBuilder) :=
  match s.workers[b]? with
  | none => none
  | some w =>
    match w.file with
    | some file => some (.ok file, s)
    | none => s.newFile cfg b io

/-- An open file after the append of a record. -/
def afterAppend (file : ForegroundFile) (record : BlobRecord) (status : Status) : ForegroundFile :=
  if status.isOk then
    { file with
      fileSize := file.fileSize + UInt64.ofNat (cfg.encodeRecord record).bytes.length
      status := status
      numEntries := file.numEntries + 1
      keyRange := BlobFile.extendRange cfg.cfOptions.comparator file.keyRange record.key }
  else { file with status }

/-- `BlobFileBuilder::Add` on the open file of a worker. A handle is
constructed as zeros. -/
def addRecord (s : ForegroundBuilder) (b : Nat) (file : ForegroundFile)
    (record : BlobRecord) (io : RequestIO) :
    Option (BlobHandle × ForegroundBuilder) :=
  if !file.status.isOk then some ({ offset := 0, size := 0 }, s)
  else
    let encoded := cfg.encodeRecord record
    if file.fileSize.toNat + encoded.bytes.length < 2 ^ 64 then
      some ({ offset := file.fileSize, size := encoded.getEncodedSize },
        { s with
          dir := s.dir.insert file.number (io.append.append
            ((s.dir.lookup file.number).getD []) encoded.bytes)
          }.onWorker b fun w =>
            { w with
              file := some (afterAppend cfg file record io.append.status) })
    else none

/-- `FinishBlob` if the open file has reached its target size. -/
def rollOver (s : ForegroundBuilder) (b : Nat) (io : RequestIO) : Option ForegroundBuilder :=
  match s.openAt b with
  | none => some s
  | some file =>
    if file.fileSize.toNat ≥ cfg.cfOptions.blobFileTargetSize then
      s.finishBlob cfg b io
    else some s

-- ==== requests

/-- What `handleRequest` does with a request to add a record: the status
and the batch. -/
def handleAdd (s : ForegroundBuilder) (b : Nat) (record : BlobRecord)
    (io : RequestIO) : Option ((Status × WriteBatch) × ForegroundBuilder) :=
  match s.openFile cfg b io with
  | none => none
  | some (.error status, s) => some ((status, []), s)
  | some (.ok file, s) =>
    match s.addRecord cfg b file record io with
    | none => none
    | some (blobHandle, s) =>
      match s.rollOver cfg b io with
      | none => none
      | some s =>
        let index : BlobIndex := { fileNumber := file.number, blobHandle }
        some ((io.putBlobIndex,
          if io.putBlobIndex.isOk then
            [(record.key, LsmEntry.ofIndex cfg.codec.coding index)]
          else []), s)

/-- `ForegroundBuilder::Add`, with the batch it was given empty. -/
def add (s : ForegroundBuilder) (key : UserKey) (value : Bytes)
    (io : RequestIO) : Option ((Status × WriteBatch) × ForegroundBuilder) :=
  if !cfg.config.separates value then some ((.invalidArgument "", []), s)
  else if key.isEmpty then
    (s.flushWorker cfg (cfg.config.shardOf key) io).map ((.ok, []), ·)
  else s.handleAdd cfg (cfg.config.shardOf key) { key, value } io

/-- A request is served. -/
def step (s : ForegroundBuilder) : ForegroundRequest → Option ForegroundBuilder
  | .add key value io => (s.add cfg key value io).map Prod.snd
  | .flush b io => s.flushWorker cfg b io

end ForegroundBuilder

end DiffKV
