/-
Reading a blob record through the storage, down to the bytes:
`BlobStorage::Get`, `ReadBuildingFile` and `NewPrefetcher`
(`src/blob_storage.cc`), `BlobFileCache` (`src/blob_file_cache.cc`) and
`BlobFilePrefetcher` (`src/blob_file_reader.cc`).

Neither a record nor its file says which layout the record was written
in. A reader works it out from the option `level_merge` of the current
open and the file type in the manifest; each of the three writers
chooses on its own. `BlobWriter` collects the writers' choices.
-/
import DiffKV.BlobFileBytes
import DiffKV.Db

namespace DiffKV

open Lib

/-- The blob files of a directory, by number. -/
abbrev BlobDir := Map UInt64 Bytes

-- ==== writers

/-- The code that appends records to blob files. -/
inductive BlobWriter where
  /-- `TitanTableBuilder::AddBlob` and `FinishBlobFile` -/
  | tableBuilder
  /-- `ForegroundBuilder::handleRequest` and `FinishBlob` -/
  | foregroundBuilder
  /-- `BlobGCJob::DoRunGC` and `InstallOutputBlobFiles` -/
  | gcJob
  deriving DecidableEq, Repr

namespace BlobWriter

/-- The layout of the records a writer adds: `record.only_value`. Only
the table builder sets it. -/
def onlyValue (cfOptions : TitanCFOptions) : BlobWriter → Bool
  | tableBuilder => cfOptions.levelMerge
  | foregroundBuilder => false
  | gcJob => false

/-- The type a writer gives its files. -/
def fileType (dbOptions : TitanDBOptions) : BlobWriter → UInt32
  | tableBuilder => kSorted
  | foregroundBuilder => kUnSorted
  | gcJob => if dbOptions.sepBeforeFlush then kUnSorted else kSorted

end BlobWriter

-- ==== readers

/-- `BlobFilePrefetcher`: an open file and the layout to read it in. -/
structure BlobFilePrefetcher where
  file : Bytes
  onlyValue : Bool

/-- `BlobFilePrefetcher::Get` and `PointGet`. -/
def BlobFilePrefetcher.get (K : Codec) (p : BlobFilePrefetcher)
    (handle : BlobHandle) : Except Status BlobRecord :=
  (BlobFileReader.get K p.file p.onlyValue none handle).1

/-- `BlobFileCache::FindFile`: the file opened. -/
def BlobDir.findFile (K : Codec) (dir : BlobDir) (number fileSize : UInt64) : Except Status Bytes :=
  match dir.lookup number with
  | none => .error (.ioError "No such file or directory")
  | some file =>
    let s := BlobFileReader.openFile K file fileSize
    if s.isOk then .ok file else .error s

namespace BlobStorage

variable (K : Codec) (dir : BlobDir)

/-- The layout `Get` and `NewPrefetcher` read a file in. -/
def onlyValue (s : BlobStorage) (file : BlobFileMeta) : Bool :=
  s.cfOptions.levelMerge && file.fileType = kSorted

/-- `BlobStorage::ReadBuildingFile`, into a record as constructed. -/
def readBuildingFile (s : BlobStorage) (index : BlobIndex) : Except Status BlobRecord :=
  if s.findBuildingFile index.fileNumber then
    match dir.lookup index.fileNumber with
    | none => .error (.ioError "No such file or directory")
    | some file =>
      (BlobFileReader.readRecord K file false index.blobHandle).map Prod.fst
  else
    .error (.corruption ("File " ++ toString index.fileNumber.toNat ++ " not exist"))

/-- `BlobStorage::Get`. -/
def get (s : BlobStorage) (index : BlobIndex) : Except Status BlobRecord :=
  match s.findFile index.fileNumber with
  | none =>
    if s.dbOptions.sepBeforeFlush then s.readBuildingFile K dir index
    else
      .error (.corruption ("Missing blob file: " ++ toString index.fileNumber.toNat))
  | some m =>
    match dir.findFile K m.fileNumber m.fileSize with
    | .error e => .error e
    | .ok file =>
      (BlobFileReader.get K file (s.onlyValue m) none index.blobHandle).1

/-- `BlobStorage::NewPrefetcher`. -/
def newPrefetcher (s : BlobStorage) (number : UInt64) : Except Status BlobFilePrefetcher :=
  match s.findFile number with
  | none =>
    .error (.corruption ("Missing blob wfile: " ++ toString number.toNat))
  | some m =>
    match dir.findFile K m.fileNumber m.fileSize with
    | .error e => .error e
    | .ok file => .ok { file, onlyValue := s.onlyValue m }

/-- `NewPrefetcher` and a read through the prefetcher. -/
def prefetch (s : BlobStorage) (index : BlobIndex) : Except Status BlobRecord :=
  match s.newPrefetcher K dir index.fileNumber with
  | .error e => .error e
  | .ok p => p.get K index.blobHandle

/-- An installed file reads the same both ways. -/
theorem prefetch_eq_get {s : BlobStorage} {index : BlobIndex}
    {m : BlobFileMeta} (hm : s.findFile index.fileNumber = some m) :
    s.prefetch K dir index = s.get K dir index := by
  unfold prefetch newPrefetcher get
  rw [hm]
  dsimp only
  cases dir.findFile K m.fileNumber m.fileSize <;> rfl

end BlobStorage

end DiffKV
