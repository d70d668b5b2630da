/-
The blob cache the readers of all files share (`BlobFileReader` of
`src/blob_file_reader.cc`): the key of a record is the prefix of its file
and the record's offset. The cache may drop an entry at any time.
-/
import DiffKV.BlobFileBytes

namespace DiffKV

open Lib

/-- `options.blob_cache`, which the files share: the plain bytes of
records by key. -/
abbrev SharedCache := Bytes → Option Bytes

/-- `GenerateCachePrefix`: a file without a unique id takes a new id of
the cache. -/
def generateCachePrefix (C : Coding) (uniqueId : Bytes) (newId : UInt64) :
    Bytes :=
  if uniqueId.isEmpty then C.putVarint64 newId else uniqueId

/-- `EncodeBlobCache`. -/
def encodeBlobCache (C : Coding) (cachePrefix : Bytes) (offset : UInt64) :
    Bytes :=
  cachePrefix ++ C.putVarint64 offset

/-- `BlobFileReader::Get` with the shared cache. -/
def BlobFileReader.getShared (K : Codec) (file : Bytes) (onlyValue : Bool)
    (cachePrefix : Bytes) (cache : SharedCache) (handle : BlobHandle) :
    Except Status BlobRecord × SharedCache :=
  let cacheKey := encodeBlobCache K.coding cachePrefix handle.offset
  match cache cacheKey with
  | some blob => (BlobRecord.decodeInto K.coding onlyValue blob, cache)
  | none =>
    match readRecord K file onlyValue handle with
    | .error s => (.error s, cache)
    | .ok (r, blob) =>
      (.ok r, fun key => if key = cacheKey then some blob else cache key)

/-- A finished blob file, and what its reader's cache prefix is made
of. -/
structure FinishedFile where
  uniqueId : Bytes
  newId : UInt64 := 0
  type : CompressionType
  onlyValue : Bool
  records : List BlobRecord

namespace FinishedFile

variable (K : Codec) (f : FinishedFile)

/-- The bytes of the file. -/
def file : Bytes := (BlobFileBuilder.build K f.type f.onlyValue f.records).2

/-- The handles the builder returned. -/
def handles : List BlobHandle :=
  (BlobFileBuilder.build K f.type f.onlyValue f.records).1

/-- `cache_prefix_` of the file's reader. -/
def cachePrefix : Bytes := generateCachePrefix K.coding f.uniqueId f.newId

/-- The key of the record at an offset. -/
def cacheKey (offset : UInt64) : Bytes :=
  encodeBlobCache K.coding (f.cachePrefix K) offset

/-- `Get` without a cache. -/
def getUncached (handle : BlobHandle) : Except Status BlobRecord :=
  (BlobFileReader.get K (f.file K) f.onlyValue none handle).1

end FinishedFile

/-- A `Get`, and the keys the cache has let go of since the one before. -/
structure CachedGet (ι : Type) where
  dropped : Bytes → Bool := fun _ => false
  file : ι
  handle : BlobHandle

/-- What the calls return, one after the other. -/
def serve {ι : Type} (K : Codec) (files : ι → FinishedFile) :
    SharedCache → List (CachedGet ι) → List (Except Status BlobRecord)
  | _, [] => []
  | cache, c :: calls =>
    let f := files c.file
    let (result, cache) := BlobFileReader.getShared K (f.file K) f.onlyValue
      (f.cachePrefix K) (fun key => if c.dropped key then none else cache key)
      c.handle
    result :: serve K files cache calls

end DiffKV
