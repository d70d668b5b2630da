/-
The write and the read path of the database: `ForegroundBuilder`
(`src/table_builder.cc`), Put, Delete and Get (`src/db_impl.cc`), and
`BlobStorage::Get`.

With `sep_before_flush` a Put first appends its value to a file of one
of the foreground builders and then writes the blob index it got to the
base DB. A builder serves its requests one at a time, so one request is
one step here. A request with an empty key asks for a flush.
-/
import DiffKV.Db

namespace DiffKV

open Lib

-- ==== ForegroundBuilder

namespace Config

variable (cfg : Config)

/-- The test at the head of `ForegroundBuilder::Add`. -/
def separates (value : Bytes) : Bool :=
  !(value.length < cfg.cfOptions.minBlobSize
    || (cfg.cfOptions.levelMerge && value.length < cfg.cfOptions.midBlobSize))

/-- The builder that serves a key. -/
def shardOf (key : UserKey) : Nat :=
  if cfg.dbOptions.numForegroundBuilders > 1 then
    cfg.hash key % cfg.dbOptions.numForegroundBuilders
  else 0

/-- The builders `Init` starts. -/
def initShards : List Shard :=
  List.replicate (max 1 cfg.dbOptions.numForegroundBuilders) {}

end Config

namespace Db

variable (cfg : Config)

/-- Replace one builder. -/
def setShard (db : Db) (b : Nat) (shard : Shard) : Db :=
  { db with shards := db.shards.set b shard }

/-- The file `FinishBlob` makes of an open one. -/
def finishedMeta (number : UInt64) (file : BlobFile) : BlobFileMeta :=
  let range := file.keyRange cfg.cfOptions.comparator
  ({ fileNumber := number
     fileSize := file.finishedSize
     fileEntries := file.numEntries
     fileLevel := 0
     smallestKey := range.1
     largestKey := range.2
     fileType := kUnSorted } : BlobFileMeta).fileStateTransit .kReset

/-- `ForegroundBuilder::FinishBlob`. -/
def finishBlob (db : Db) (b : Nat) : Db :=
  match db.shards[b]? with
  | none => db
  | some shard =>
    match shard.handle with
    | none => db
    | some number =>
      match db.disk.lookup number with
      | none => db
      | some file =>
        db.setShard b {
          handle := none
          finished := shard.finished ++ [finishedMeta cfg number file] }

/-- What `handleRequest` does with a request for a flush. It ignores the
status of `BatchFinishFiles`. -/
def flushShard (db : Db) (b : Nat) : Db :=
  let db := db.finishBlob cfg b
  match db.shards[b]? with
  | none => db
  | some shard =>
    if shard.finished.isEmpty then db
    else
      ((db.batchFinishFiles cfg shard.finished).2).setShard b { shard with finished := [] }

/-- `ForegroundBuilder::Flush`. -/
def flush (db : Db) : Db :=
  (List.range db.shards.length).foldl (flushShard cfg) db

/-- The number of the open file of builder `b`, a new one if it has
none. -/
def openFile (db : Db) (b : Nat) (created : Bool) : Option (Except Status UInt64 × Db) :=
  match db.shards[b]? with
  | none => none
  | some shard =>
    match shard.handle with
    | some number => some (.ok number, db)
    | none =>
      match db.newFile created with
      | none => none
      | some (.error s, db) => some (.error s, db)
      | some (.ok number, db) =>
        some (.ok number,
          { db with
            fileSet := db.fileSet.addBuildingFile cfg.cfId number
            }.setShard b { shard with handle := some number })

/-- `FinishBlob` if the open file has reached its target size. -/
def rollOver (db : Db) (b : Nat) (number : UInt64) : Db :=
  match db.disk.lookup number with
  | none => db
  | some file =>
    if file.size.toNat ≥ cfg.cfOptions.blobFileTargetSize then
      db.finishBlob cfg b
    else db

/-- What `handleRequest` does with a request to add a record. -/
def addRecord (db : Db) (b : Nat) (record : BlobRecord) (created : Bool) :
    Option (Except Status WriteBatch × Db) :=
  match db.openFile cfg b created with
  | none => none
  | some (.error s, db) => some (.error s, db)
  | some (.ok number, db) =>
    match db.append cfg number record with
    | none => none
    | some (index, db) =>
      some (.ok [(record.key, LsmEntry.ofIndex cfg.coding index)], db.rollOver cfg b number)

/-- `ForegroundBuilder::Add`: the batch it fills, or its status. -/
def builderAdd (db : Db) (key : UserKey) (value : Bytes) (created : Bool) :
    Option (Except Status WriteBatch × Db) :=
  if !cfg.separates value then some (.error (.invalidArgument ""), db)
  else if key.isEmpty then
    some (.ok [], db.flushShard cfg (cfg.shardOf key))
  else db.addRecord cfg (cfg.shardOf key) { key, value } created

-- ==== writes

/-- `TitanDBImpl::Put` up to its write to the base DB. -/
def putAdd (db : Db) (key : UserKey) (value : Bytes) (created : Bool) : Option Db :=
  let inLine : WriteBatch := [(key, { value })]
  if cfg.dbOptions.sepBeforeFlush then
    match db.builderAdd cfg key value created with
    | none => none
    | some (result, db) =>
      let batch := match result with
        | .ok batch => batch
        | .error _ => inLine
      some { db with puts := db.puts ++ [{ key, value, batch }] }
  else some { db with puts := db.puts ++ [{ key, value, batch := inLine }] }

/-- The write of the Put `i` to the base DB. -/
def putWrite (db : Db) (i : Nat) : Option Db :=
  match db.puts[i]? with
  | none => none
  | some put => some { db.write put.batch with puts := db.puts.eraseIdx i }

/-- `TitanDBImpl::Delete`. -/
def delete (db : Db) (key : UserKey) : Db :=
  { db with lsm := db.lsm.erase key, seq := db.seq + 1 }

-- ==== reads

/-- A read of a blob file through the file cache, or through the reader
of a file being built. -/
def readFile (db : Db) (index : BlobIndex) : Except Status BlobRecord :=
  match db.disk.lookup index.fileNumber with
  | none => .error (.ioError "No such file or directory")
  | some file =>
    match file.find index.blobHandle with
    | none => .error (.corruption "BlobRecord")
    | some record => .ok record

/-- `BlobStorage::Get`. -/
def storageGet (db : Db) (storage : BlobStorage) (index : BlobIndex) : Except Status BlobRecord :=
  let number := toString index.fileNumber.toNat
  match storage.findFile index.fileNumber with
  | some _ => db.readFile index
  | none =>
    if cfg.dbOptions.sepBeforeFlush then
      if storage.findBuildingFile index.fileNumber then db.readFile index
      else .error (.corruption ("File " ++ number ++ " not exist"))
    else .error (.corruption ("Missing blob file: " ++ number))

/-- `TitanDBImpl::GetImpl` at the latest sequence number. -/
def getImpl (db : Db) (key : UserKey) : Except Status Bytes :=
  match db.lsm.lookup key with
  | none => .error (.notFound "")
  | some entry =>
    if !entry.isBlobIndex then .ok entry.value
    else
      match BlobIndex.decodeFrom cfg.coding entry.value with
      | .error s => .error s
      | .ok (index, _) =>
        match db.storage cfg with
        | none =>
          .error (.notFound ("Column family id: " ++ toString cfg.cfId.toNat ++ " not Found."))
        | some storage => (db.storageGet cfg storage index).map (·.value)

end Db

end DiffKV
