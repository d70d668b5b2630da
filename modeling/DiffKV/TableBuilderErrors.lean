/-
`TitanTableBuilder` (`src/table_builder.cc`) when calls fail.

Errors live in three places: `status_`, the base builder and the open
`BlobFileBuilder`. `status()` looks at them in this order, and after the
first error every `Add` returns at once. What the file system, the blob
manager and the base builder answer is an argument of each call;
`TitanTableBuilder` of `TableBuilder.lean` is the case in which none of
them fails.

A failed append leaves the file as it was, and so does a failed
`DeleteFile`. The base builder keeps a non-OK status, as the
`BlobFileBuilder` does. `ParseInternalKey` is a parameter.
-/
import DiffKV.TableBuilder

namespace DiffKV

open Lib

/-- `ParseInternalKey`. -/
abbrev ParseInternalKey := Bytes → Option (UserKey × SequenceNumber × ValueType)

/-- What a call of `Add` meets: the storage as it is by then, and the
status of each call that can fail. -/
structure AddIO where
  storage : BlobStorage
  /-- `storage->Get` -/
  get : Status := .ok
  /-- `storage->NewPrefetcher` -/
  newPrefetcher : Status := .ok
  /-- `Get` of the prefetcher -/
  prefetcherGet : Status := .ok
  /-- `blob_manager_->NewFile` -/
  newFile : Status := .ok
  /-- the append of a header, by the constructor of `BlobFileBuilder` -/
  appendHeader : Status := .ok
  /-- the append of a record -/
  append : Status := .ok
  /-- the append of a footer and its flush -/
  appendFooter : Status := .ok
  /-- `blob_manager_->DeleteFile` -/
  deleteFile : Status := .ok
  /-- `base_builder_->status()` once it was given an entry -/
  base : Status := .ok

/-- A call of `Add`. -/
structure AddCall where
  /-- the internal key -/
  key : Bytes
  value : Bytes
  io : AddIO

/-- What `Finish` meets. -/
structure TableFinishIO where
  /-- `base_builder_->Finish()` -/
  base : Status := .ok
  appendFooter : Status := .ok
  deleteFile : Status := .ok
  /-- `blob_manager_->BatchFinishFiles` -/
  batchFinishFiles : BlobFileSet → List BlobFileMeta → Status × BlobFileSet

/-- No call of `Finish` fails, and the blob manager is that of
`TitanDBImpl`. -/
def TableFinishIO.faultless (cfg : TableBuilderConfig) : TableFinishIO where
  batchFinishFiles fileSet files :=
    fileSet.logAndApply cfg.codec.coding (TitanTableBuilder.installEdit cfg files) .ok

/-- A call that fails with the status, unless that is OK. -/
def Status.failing {α : Type*} (s : Status) (result : Except Status α) : Except Status α :=
  if s.isOk then result else .error s

/-- `TitanTableBuilder`, with the statuses of the other two builders. -/
structure FallibleTableBuilder where
  /-- its `status` is `status_` -/
  builder : TitanTableBuilder
  /-- `base_builder_->status()` -/
  baseStatus : Status := .ok
  /-- `blob_builder_->status()`, while there is a `blob_builder_` -/
  blobStatus : Status := .ok
  /-- `blob_handle_` was not handed to `DeleteFile` while the
  `blob_builder_` stayed -/
  hasHandle : Bool := true

namespace FallibleTableBuilder

variable (cfg : TableBuilderConfig)

/-- `TitanTableBuilder::status`. -/
def status (b : FallibleTableBuilder) : Status :=
  if !b.builder.status.isOk then b.builder.status
  else if !b.baseStatus.isOk then b.baseStatus
  else if b.builder.blob.isSome then b.blobStatus
  else .ok

/-- `TitanTableBuilder::ok`. -/
def ok (b : FallibleTableBuilder) : Bool := b.status.isOk

/-- The status of a builder after a call: the first error stays. -/
def keepError (before after : Status) : Status :=
  if before.isOk then after else before

/-- `status_ = status`. -/
def setStatus (b : FallibleTableBuilder) (status : Status) :
    FallibleTableBuilder :=
  { b with builder := { b.builder with status } }

/-- `base_builder_->Add`. -/
def emit (b : FallibleTableBuilder) (io : AddIO) (e : InternalEntry) :
    FallibleTableBuilder :=
  { b with
    builder := b.builder.emit e
    baseStatus := keepError b.baseStatus io.base }

-- ==== blob files

/-- The head of `AddBlob`: `NewFile`, unless a file is open. The number
is taken before the file is made. -/
def openBlobFile (b : FallibleTableBuilder) (io : AddIO) :
    FallibleTableBuilder :=
  match b.builder.blob with
  | some _ => b
  | none =>
    if io.newFile.isOk then
      let (blob, builder) := b.builder.openBlobFile
      { b with
        builder :=
          if io.appendHeader.isOk then builder
          else { builder with dir := builder.dir.insert blob.number [] }
        blobStatus := io.appendHeader
        hasHandle := true }
    else
      { b with
        builder := { b.builder with
          fileSet := b.builder.fileSet.newFileNumber.2
          status := io.newFile } }

/-- `BlobFileBuilder::Add`. -/
def appendRecord (b : FallibleTableBuilder) (io : AddIO) (blob : OpenBlobFile)
    (record : BlobRecord) : BlobHandle × FallibleTableBuilder :=
  if !b.blobStatus.isOk then ({ offset := 0, size := 0 }, b)
  else
    let (handle, file) := BlobFileBuilder.add cfg.codec cfg.compression
      (BlobWriter.tableBuilder.onlyValue cfg.cfOptions)
      ((b.builder.dir.lookup blob.number).getD []) record
    (handle,
      if io.append.isOk then
        { b with
          builder := { b.builder with
            dir := b.builder.dir.insert blob.number file
            blob := some { blob with
              numEntries := blob.numEntries + 1
              keyRange := BlobFile.extendRange cfg.cfOptions.comparator blob.keyRange record.key } }
          blobStatus := io.append }
      else { b with blobStatus := io.append })

/-- `TitanTableBuilder::FinishBlobFile`. If the builder is not OK the
file is deleted and its handle given away, but the `blob_builder_` stays:
a second call then takes the number of a handle that is gone. -/
def finishBlobFile (b : FallibleTableBuilder)
    (appendFooter deleteFile : Status) : Option FallibleTableBuilder :=
  match b.builder.blob with
  | none => some b
  | some blob =>
    let b := { b with blobStatus := keepError b.blobStatus appendFooter }
    if b.ok then
      some { b with builder := b.builder.finishBlobFile cfg }
    else if b.hasHandle then
      some { b with
        builder := { b.builder with
          status := deleteFile
          dir :=
            if deleteFile.isOk then b.builder.dir.erase blob.number
            else b.builder.dir }
        hasHandle := false }
    else none

/-- `TitanTableBuilder::AddBlob`: the encoded index, empty if the record
was not added. -/
def addBlob (b : FallibleTableBuilder) (io : AddIO) (key : UserKey)
    (value : Bytes) : Option (Bytes × FallibleTableBuilder) :=
  if !b.ok then some ([], b)
  else
    let b := b.openBlobFile io
    match b.builder.blob with
    | none => some ([], b)
    | some blob =>
      let (blobHandle, b) := b.appendRecord cfg io blob { key, value }
      if !b.ok then some ([], b)
      else
        let index : BlobIndex := { fileNumber := blob.number, blobHandle }
        let file := (b.builder.dir.lookup blob.number).getD []
        if file.length ≥ cfg.cfOptions.blobFileTargetSize then
          (b.finishBlobFile cfg io.appendFooter io.deleteFile).map
            (index.encodeTo cfg.codec.coding, ·)
        else some (index.encodeTo cfg.codec.coding, b)

-- ==== `Add`

/-- `Add` replaces the index by its value. -/
def ingests (e : InternalEntry) : Bool :=
  e.type = .kTypeBlobIndex && cfg.blobRunMode = .kFallback

/-- `Add` writes the value to a blob file. -/
def separates (e : InternalEntry) : Bool :=
  e.type = .kTypeValue && decide (e.value.length ≥ cfg.cfOptions.minBlobSize)
    && cfg.blobRunMode = .kNormal

/-- `Add` may merge the value into a new blob file. -/
def merges (e : InternalEntry) : Bool :=
  e.type = .kTypeBlobIndex && cfg.cfOptions.levelMerge
    && (decide (cfg.targetLevel ≥ cfg.mergeLevel) || cfg.mergeLowLevel)
    && cfg.blobRunMode = .kNormal

/-- The branch of `Add` for indexes in the fallback mode. -/
def ingest (b : FallibleTableBuilder) (io : AddIO) (e : InternalEntry) :
    FallibleTableBuilder :=
  match BlobIndex.decodeFrom cfg.codec.coding e.value with
  | .error status => b.setStatus status
  | .ok (index, _) =>
    match io.get.failing (io.storage.get cfg.codec b.builder.dir index) with
    | .ok record =>
      b.emit io { e with type := .kTypeValue, value := record.value }
    | .error _ => b.emit io e

/-- The branch of `Add` for large values: nothing is written to the table
if `AddBlob` failed. -/
def separate (b : FallibleTableBuilder) (io : AddIO) (e : InternalEntry) :
    Option FallibleTableBuilder :=
  (b.addBlob cfg io e.userKey e.value).map fun (index, b) =>
    if b.ok then b.emit io { e with type := .kTypeBlobIndex, value := index }
    else b

/-- The prefetcher of a file, made once. -/
def prefetcher (b : FallibleTableBuilder) (io : AddIO) (number : UInt64) :
    Except Status (BlobFilePrefetcher × TitanTableBuilder) :=
  match b.builder.mergingFiles.lookup number with
  | some p => .ok (p, b.builder)
  | none =>
    io.newPrefetcher.failing (b.builder.prefetcher cfg io.storage number)

/-- A record that is to be merged: if `AddBlob` failed, the old index
goes to the table. -/
def mergeRecord (b : FallibleTableBuilder) (io : AddIO) (e : InternalEntry)
    (value : Bytes) : Option FallibleTableBuilder :=
  (b.addBlob cfg io e.userKey value).map fun (index, b) =>
    if b.ok then b.emit io { e with type := .kTypeBlobIndex, value := index }
    else b.emit io e

/-- The branch of `Add` that merges a value into a new blob file. -/
def merge (b : FallibleTableBuilder) (io : AddIO) (e : InternalEntry) :
    Option FallibleTableBuilder :=
  match BlobIndex.decodeFrom cfg.codec.coding e.value with
  | .error status => some (b.setStatus status)
  | .ok (index, _) =>
    let (file, builder) := b.builder.encounter io.storage index.fileNumber
    let b := { b with builder }
    if TitanTableBuilder.shouldMerge cfg file then
      match b.prefetcher cfg io index.fileNumber with
      | .error status => some ((b.setStatus status).emit io e)
      | .ok (p, builder) =>
        let b := { b with builder }
        match io.prefetcherGet.failing
            (p.get cfg.codec index.blobHandle) with
        | .ok record => b.mergeRecord cfg io e record.value
        | .error _ => some (b.emit io e)
    else some (b.emit io e)

/-- `TitanTableBuilder::Add`. -/
def add (parse : ParseInternalKey) (b : FallibleTableBuilder) (c : AddCall) :
    Option FallibleTableBuilder :=
  if !b.ok then some b
  else
    match parse c.key with
    | none => some (b.setStatus (.corruption ""))
    | some (userKey, sequence, type) =>
      let e : InternalEntry := { userKey, sequence, type, value := c.value }
      if ingests cfg e then some (b.ingest cfg c.io e)
      else if separates cfg e then b.separate cfg c.io e
      else if merges cfg e then b.merge cfg c.io e
      else some (b.emit c.io e)

/-- `TitanTableBuilder::Finish`; the status it returns is that of the
builder it leaves. -/
def finish (b : FallibleTableBuilder) (io : TableFinishIO) : Option FallibleTableBuilder :=
  let b := { b with baseStatus := keepError b.baseStatus io.base }
  match b.finishBlobFile cfg io.appendFooter io.deleteFile with
  | none => none
  | some b =>
    let (status, fileSet) :=
      io.batchFinishFiles b.builder.fileSet b.builder.finishedBlobs
    some { b with builder := { b.builder with fileSet, status } }

end FallibleTableBuilder

end DiffKV
