/-
Opening and closing a database (`TitanDBImpl::Open` and `Close` of
`src/db_impl.cc`).

A crash loses the memory of the process; what a new one finds is the
base DB, the directory and the manifest. The base DB recovers every
write it acknowledged. `Close` purges, and sends the foreground builders
the request that ends their threads, upon which these return: what they
have open or finished is lost as it is by a crash.
-/
import DiffKV.System

namespace DiffKV

open Lib

namespace Db

variable (cfg : Config)

/-- The foreground builders `Open` starts. -/
def openShards : List Shard :=
  if cfg.dbOptions.sepBeforeFlush then cfg.initShards else []

/-- `Open` where there is no database yet. -/
def create : Db where
  fileSet := (BlobFileSet.open cfg.coding cfg.dbOptions [(cfg.cfId, cfg.cfOptions)] (.error {})).2.1
  shards := openShards cfg

/-- What `Recover` finds: a `CURRENT` file that ends with a newline, the
manifest as it was written, and the blob files. -/
def recoverIO (db : Db) : RecoverIO where
  current := .ok [10]
  reader := LogReader.intact db.fileSet.records
  children := db.disk.entries.map fun p => (p.1, .kBlobFile)

/-- `Open` of the database a process has left behind, with the same
options. -/
def reopen (db : Db) : Status × Db :=
  let (s, fileSet, deleted) := db.fileSet.reopened.recover cfg.coding
    db.recoverIO
  (s, {
    lsm := db.lsm
    seq := db.seq
    fileSet
    disk := (deleted.map Prod.fst).foldl Table.erase db.disk
    shards := openShards cfg })

/-- What `Close` does to the files before the process ends. -/
def close (db : Db) : Db := db.purge db.getOldestSnapshotSequence

end Db

-- ==== a small database

/-- Every value of a byte or more goes to a blob file. -/
def Config.small : Config where
  coding := base128
  hash _ := 0
  encodedSize r := (r.size + 1).toUInt64
  dbOptions := { sepBeforeFlush := true }
  cfOptions := { minBlobSize := 1 }

/-- The same, but GC jobs have output files of their own. -/
def Config.smallMerge : Config :=
  { Config.small with
    cfOptions := { minBlobSize := 1, midBlobSize := 1, levelMerge := true } }

/-- The first record of the file `n`, where key and value have one
byte. -/
def BlobIndex.first (n : UInt64) : BlobIndex where
  fileNumber := n
  blobHandle := { offset := kBlobHeaderSize, size := 3 }

/-- A key is written, its file is installed, and a GC job picks it. -/
def putAndPick : List Action :=
  [.putAdd (.byte 1) [7] true, .putWrite 0, .flushShard 0,
    .gcPick [2] [(.first 2, { key := .byte 1, value := [7] })]]

end DiffKV
