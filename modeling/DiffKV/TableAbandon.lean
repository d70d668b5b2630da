/-
`TitanTableBuilder::Abandon`, and what a builder asks of its blob manager
(`src/table_builder.cc`, `FileManager` of `src/db_impl.cc`).

`NewFile` enters the number of a file into `pending_outputs_`, and
`DeleteFile` takes it out again. The calls a builder makes are the log of
a ledger over file numbers; a `NewFile` that fails makes no file and is
not in the log. The functions here follow the branches of those of
`TableBuilderErrors.lean` that make a call.

Finished files and their handles stay in `finished_blobs_` until
`Finish`.
-/
import DiffKV.TableBuilderErrors
import DiffKV.Lib.Ledger

namespace DiffKV

open Lib

/-- A call of the blob manager for a file. -/
abbrev ManagerCall := LedgerEntry UInt64

/-- `NewFile`, which returns a handle of the file. -/
abbrev ManagerCall.newFile (number : UInt64) : ManagerCall := .acquire number

/-- `DeleteFile`. -/
abbrev ManagerCall.deleteFile (number : UInt64) : ManagerCall :=
  .release number

namespace FallibleTableBuilder

variable (cfg : TableBuilderConfig)

/-- The call of `openBlobFile`. -/
def openCalls (b : FallibleTableBuilder) (io : AddIO) : List ManagerCall :=
  match b.builder.blob with
  | some _ => []
  | none =>
    if io.newFile.isOk then [.newFile b.builder.openBlobFile.1.number]
    else []

/-- The call of `finishBlobFile`. -/
def finishCalls (b : FallibleTableBuilder) (appendFooter : Status) : List ManagerCall :=
  match b.builder.blob with
  | none => []
  | some blob =>
    let b := { b with blobStatus := keepError b.blobStatus appendFooter }
    if b.ok then []
    else if b.hasHandle then [.deleteFile blob.number]
    else []

/-- The calls of `addBlob`. -/
def addBlobCalls (b : FallibleTableBuilder) (io : AddIO) (key : UserKey)
    (value : Bytes) : List ManagerCall :=
  if !b.ok then []
  else
    b.openCalls io ++
      let b := b.openBlobFile io
      match b.builder.blob with
      | none => []
      | some blob =>
        let (_, b) := b.appendRecord cfg io blob { key, value }
        if !b.ok then []
        else
          let file := (b.builder.dir.lookup blob.number).getD []
          if file.length ≥ cfg.cfOptions.blobFileTargetSize then
            b.finishCalls io.appendFooter
          else []

/-- The calls of `merge`: those of the `AddBlob` in `mergeRecord`. -/
def mergeCalls (b : FallibleTableBuilder) (io : AddIO) (e : InternalEntry) : List ManagerCall :=
  match BlobIndex.decodeFrom cfg.codec.coding e.value with
  | .error _ => []
  | .ok (index, _) =>
    let (file, builder) := b.builder.encounter io.storage index.fileNumber
    let b := { b with builder }
    if TitanTableBuilder.shouldMerge cfg file then
      match b.prefetcher cfg io index.fileNumber with
      | .error _ => []
      | .ok (p, builder) =>
        let b := { b with builder }
        match io.prefetcherGet.failing
            (p.get cfg.codec index.blobHandle) with
        | .ok record => b.addBlobCalls cfg io e.userKey record.value
        | .error _ => []
    else []

/-- The calls of `add`. -/
def addCalls (parse : ParseInternalKey) (b : FallibleTableBuilder)
    (c : AddCall) : List ManagerCall :=
  if !b.ok then []
  else
    match parse c.key with
    | none => []
    | some (userKey, sequence, type) =>
      let e : InternalEntry := { userKey, sequence, type, value := c.value }
      if ingests cfg e then []
      else if separates cfg e then
        b.addBlobCalls cfg c.io e.userKey e.value
      else if merges cfg e then b.mergeCalls cfg c.io e
      else []

/-- `TitanTableBuilder::Abandon`, with the status of `DeleteFile`; `none`
where it takes the number of a handle that is gone. -/
def abandon (b : FallibleTableBuilder) (deleteFile : Status) : Option FallibleTableBuilder :=
  match b.builder.blob with
  | none => some b
  | some blob =>
    if b.hasHandle then
      some { b with
        builder := { b.builder with
          status := deleteFile
          dir :=
            if deleteFile.isOk then b.builder.dir.erase blob.number
            else b.builder.dir }
        hasHandle := false }
    else none

/-- The call of `abandon`. -/
def abandonCalls (b : FallibleTableBuilder) : List ManagerCall :=
  match b.builder.blob with
  | none => []
  | some blob => if b.hasHandle then [.deleteFile blob.number] else []

end FallibleTableBuilder

end DiffKV
