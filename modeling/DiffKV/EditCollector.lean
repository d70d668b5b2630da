/-
Edits collected into a batch, checked against the storages and applied
to them (`src/edit_collector.h`).

The collector serves two callers. `LogAndApply` passes it one edit;
recovery passes it every record of a manifest and applies the sum.
What the batch may hold is decided in two places: `AddEdit` compares an
edit with the edits before it, `Seal` compares the batch with the files
the storages hold.
-/
import DiffKV.Storage
import DiffKV.VersionEdit

namespace DiffKV

open Lib

-- ==== one column family

/-- `EditCollector::CFEditCollector`. -/
structure CFEditCollector where
  addedFiles : FileTable := Table.empty
  deletedFiles : Map UInt64 SequenceNumber := Table.empty
  updatedDiscardableSize : Map UInt64 UInt64 := Table.empty

/-- `"Blob file " + ToString(number) + what`. -/
def blobFileError (number : UInt64) (what : String) : Status :=
  .corruption ("Blob file " ++ toString number ++ what)

namespace CFEditCollector

/-- `CFEditCollector::AddFile`. -/
def addFile (c : CFEditCollector) (file : BlobFileMeta) : Status × CFEditCollector :=
  if c.addedFiles.contains file.fileNumber then
    (blobFileError file.fileNumber " has been added twice", c)
  else (.ok, { c with addedFiles := c.addedFiles.emplace file })

/-- `CFEditCollector::DeleteFile`. -/
def deleteFile (c : CFEditCollector) (file : UInt64 × SequenceNumber) : Status × CFEditCollector :=
  if c.deletedFiles.contains file.1 then
    (blobFileError file.1 " has been deleted twice", c)
  else (.ok, { c with deletedFiles := c.deletedFiles.emplace file })

/-- `CFEditCollector::UpdateFile`: `emplace` keeps the amount already
collected for a file. -/
def updateFile (c : CFEditCollector) (discardable : UInt64 × UInt64) :
    CFEditCollector :=
  { c with
    updatedDiscardableSize := c.updatedDiscardableSize.emplace discardable }

/-- The check `Seal` makes of one added file. -/
def sealAdded (storage : BlobStorage) (file : BlobFileMeta) : Status :=
  match storage.findFile file.fileNumber with
  | none => .ok
  | some blob =>
    if blob.isObsolete then
      blobFileError file.fileNumber " has been deleted before"
    else blobFileError file.fileNumber " has been added before"

/-- The check `Seal` makes of one deleted file. -/
def sealDeleted (c : CFEditCollector) (storage : BlobStorage)
    (file : UInt64 × SequenceNumber) : Status :=
  if c.addedFiles.contains file.1 then .ok
  else
    match storage.findFile file.1 with
    | none => blobFileError file.1 " doesn't exist before"
    | some blob =>
      if blob.isObsolete then
        blobFileError file.1 " has been deleted already"
      else .ok

/-- `CFEditCollector::Seal`. -/
def «seal» (c : CFEditCollector) (storage : BlobStorage) : Status :=
  let s := Status.firstFailure (sealAdded storage) c.addedFiles.entries
  if s.isOk then
    Status.firstFailure (c.sealDeleted storage) c.deletedFiles.entries
  else s

/-- The first loop of `Apply`: files added and not deleted again. -/
def applyAdded (c : CFEditCollector) (storage : BlobStorage) : BlobStorage :=
  (c.addedFiles.entries.filter fun f =>
    !c.deletedFiles.contains f.fileNumber).foldl
    BlobStorage.addBlobFile storage

/-- One round of the second loop of `Apply`. -/
def applyDelete (c : CFEditCollector) (storage : BlobStorage)
    (file : UInt64 × SequenceNumber) : Status × BlobStorage :=
  if c.addedFiles.contains file.1 then (.ok, storage)
  else
    match storage.markFileObsolete file.1 file.2 with
    | some storage' => (.ok, storage')
    | none =>
      (.notFound ("Invalid file number " ++ toString file.1), storage)

/-- One round of the third loop of `Apply`. -/
def applyUpdate (storage : BlobStorage) (discardable : UInt64 × UInt64) :
    BlobStorage :=
  { storage with
    files := storage.files.modify discardable.1 (·.addDiscardableSize discardable.2) fun _ => rfl }

/-- `CFEditCollector::Apply`. -/
def apply (c : CFEditCollector) (storage : BlobStorage) : Status × BlobStorage :=
  let (s, storage) := Status.forEach c.applyDelete (c.applyAdded storage)
    c.deletedFiles.entries
  if s.isOk then
    (.ok, (c.updatedDiscardableSize.entries.foldl applyUpdate storage).computeGCScore)
  else (s, storage)

end CFEditCollector

-- ==== the collector

/-- `EditCollector`. -/
structure EditCollector where
  status : Status := .ok
  isSealed : Bool := false
  hasNextFileNumber : Bool := false
  nextFileNumber : UInt64 := 0
  columnFamilies : Map UInt32 CFEditCollector := Table.empty

/-- The storages of the opened column families, as `BlobFileSet` has
them. -/
abbrev Storages := Map UInt32 BlobStorage

namespace EditCollector

/-- `column_families_[cf_id]`, created empty where missing. -/
def cf (c : EditCollector) (cfId : UInt32) : CFEditCollector :=
  (c.columnFamilies.lookup cfId).getD {}

/-- `c` with the collector of one column family replaced. -/
def setCf (c : EditCollector) (cfId : UInt32) (x : CFEditCollector) :
    EditCollector :=
  { c with columnFamilies := c.columnFamilies.insert cfId x }

/-- `status_ = collector.AddFile(file)`. -/
def addFile (cfId : UInt32) (c : EditCollector) (file : BlobFileMeta) : Status × EditCollector :=
  let (s, x) := (c.cf cfId).addFile file
  (s, { c.setCf cfId x with status := s })

/-- `status_ = collector.DeleteFile(file.first, file.second)`. -/
def deleteFile (cfId : UInt32) (c : EditCollector)
    (file : UInt64 × SequenceNumber) : Status × EditCollector :=
  let (s, x) := (c.cf cfId).deleteFile file
  (s, { c.setCf cfId x with status := s })

/-- `collector.UpdateFile(discardable.first, discardable.second)`. -/
def updateFile (cfId : UInt32) (c : EditCollector)
    (discardable : UInt64 × UInt64) : EditCollector :=
  c.setCf cfId ((c.cf cfId).updateFile discardable)

/-- The last part of `AddEdit`. -/
def addNextFileNumber (c : EditCollector) : Option UInt64 → Status × EditCollector
  | none => (.ok, c)
  | some next =>
    if next < c.nextFileNumber then
      let s := Status.corruption ("Edit has a smaller next file number "
        ++ toString next ++ " than current " ++ toString c.nextFileNumber)
      (s, { c with status := s })
    else
      (.ok, { c with nextFileNumber := next, hasNextFileNumber := true })

/-- `EditCollector::AddEdit`. -/
def addEdit (c : EditCollector) (edit : VersionEdit) : Status × EditCollector :=
  if c.isSealed then
    (.incomplete "Should be not called after Sealed() is called", c)
  else
    let cfId := edit.columnFamilyId
    let c := c.setCf cfId (c.cf cfId)
    let (s, c) := Status.forEach (addFile cfId) c edit.addedFiles
    if !s.isOk then (s, c)
    else
      let (s, c) := Status.forEach (deleteFile cfId) c edit.deletedFiles
      if !s.isOk then (s, c)
      else
        let c := edit.updatedDiscardableSize.entries.foldl
          (updateFile cfId) c
        c.addNextFileNumber edit.nextFileNumber

/-- One round of the loop of `Seal`; a column family that is not open
is skipped. -/
def sealCf (storages : Storages) (x : UInt32 × CFEditCollector) : Status :=
  match storages.lookup x.1 with
  | none => .ok
  | some storage => x.2.seal storage

/-- `EditCollector::Seal`. -/
def «seal» (c : EditCollector) (storages : Storages) : Status × EditCollector :=
  if !c.status.isOk then (c.status, c)
  else
    let s := Status.firstFailure (sealCf storages) c.columnFamilies.entries
    if s.isOk then (.ok, { c with isSealed := true })
    else (s, { c with status := s })

/-- One round of the loop of `Apply`. -/
def applyCf (storages : Storages) (x : UInt32 × CFEditCollector) : Status × Storages :=
  match storages.lookup x.1 with
  | none => (.ok, storages)
  | some storage =>
    let (s, storage) := x.2.apply storage
    (s, storages.insert x.1 storage)

/-- `EditCollector::Apply`. -/
def apply (c : EditCollector) (storages : Storages) : Status × EditCollector × Storages :=
  if !c.status.isOk then (c.status, c, storages)
  else if !c.isSealed then
    (.incomplete "Should be not called until Sealed() is called", c, storages)
  else
    let (s, storages) := Status.forEach applyCf storages
      c.columnFamilies.entries
    (s, { c with status := s }, storages)

/-- `EditCollector::GetNextFileNumber`. -/
def getNextFileNumber (c : EditCollector) : Except Status UInt64 :=
  if !c.status.isOk then .error c.status
  else if c.hasNextFileNumber then .ok c.nextFileNumber
  else .error (.corruption "No next file number in manifest file")

end EditCollector

end DiffKV
