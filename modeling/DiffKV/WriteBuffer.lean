/-
Reading a file that is being written, through the buffer of its
`WritableFileWriter` (`ForegroundBuilder` of `src/table_builder.{h,cc}`,
`BlobFileBuilder` of `src/blob_file_builder.cc`,
`BlobStorage::ReadBuildingFile` of `src/blob_storage.cc`).

`BlobFileBuilder` appends the header of a file and then each record, with
the record's own header, in one append. The writer of a foreground
builder's file has a buffer of 4 KiB. `ReadBuildingFile` opens the file a
second time, so it finds what the writer has written out and no more.
`FinishBlob` flushes the writer.
-/
import DiffKV.Foreground
import DiffKV.Lib.BufferedWriter

namespace DiffKV

open Lib

/-- `env_options_.writable_file_max_buffer_size` of `ForegroundBuilder`. -/
def writableFileMaxBufferSize : Nat := 4 * 1024

namespace BlobFile

/-- The appends of records. -/
def recordSizes (records : List (BlobHandle × BlobRecord)) : List Nat :=
  records.map (·.1.size.toNat)

/-- The writer of a file that holds the given records. -/
def writerOf (records : List (BlobHandle × BlobRecord)) :
    BufferedWriter writableFileMaxBufferSize :=
  (BufferedWriter.empty.append kBlobHeaderSize.toNat).appendAll (recordSizes records)

end BlobFile

namespace Db

variable (cfg : Config)

/-- The file is the open one of a foreground builder. -/
def isOpen (db : Db) (n : UInt64) : Bool :=
  db.shards.any (·.handle = some n)

/-- The bytes a second reader of the file finds. -/
def visibleSize (db : Db) (n : UInt64) (file : BlobFile) : Nat :=
  if db.isOpen n then (BlobFile.writerOf file.records).written
  else file.size.toNat

/-- `BlobStorage::ReadBuildingFile`, the file in `building_files_`. -/
def readBuildingFile (db : Db) (index : BlobIndex) : Except Status BlobRecord :=
  match db.disk.lookup index.fileNumber with
  | none => .error (.ioError "No such file or directory")
  | some file =>
    let size := index.blobHandle.size.toNat
    let actual := min size
      (db.visibleSize index.fileNumber file - index.blobHandle.offset.toNat)
    if size ≠ actual then
      .error (.corruption ("ReadRecord actual size: " ++ toString actual
        ++ " not equal to blob size " ++ toString size))
    else db.readFile index

/-- `BlobStorage::Get`. -/
def storageGetVisible (db : Db) (storage : BlobStorage) (index : BlobIndex) :
    Except Status BlobRecord :=
  let number := toString index.fileNumber.toNat
  match storage.findFile index.fileNumber with
  | some _ => db.readFile index
  | none =>
    if cfg.dbOptions.sepBeforeFlush then
      if storage.findBuildingFile index.fileNumber then
        db.readBuildingFile index
      else .error (.corruption ("File " ++ number ++ " not exist"))
    else .error (.corruption ("Missing blob file: " ++ number))

/-- `TitanDBImpl::GetImpl` at the latest sequence number. -/
def getVisible (db : Db) (key : UserKey) : Except Status Bytes :=
  match db.lsm.lookup key with
  | none => .error (.notFound "")
  | some entry =>
    if !entry.isBlobIndex then .ok entry.value
    else
      match BlobIndex.decodeFrom cfg.coding entry.value with
      | .error s => .error s
      | .ok (index, _) =>
        match db.storage cfg with
        | none =>
          .error (.notFound ("Column family id: " ++ toString cfg.cfId.toNat ++ " not Found."))
        | some storage =>
          (db.storageGetVisible cfg storage index).map (·.value)

end Db

end DiffKV
