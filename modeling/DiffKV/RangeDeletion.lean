/-
`TitanDBImpl::DeleteFilesInRanges` (`src/db_impl.cc`).

The call first goes through the current version of the base DB and keeps
the properties of the tables that will be dropped. The base DB then drops
its tables, `DeleteBlobFilesInRanges` retires the blob files inside the
ranges, and the bytes the dropped tables referred to are charged to their
blob files.

A version is what the base DB answers to the questions the code asks of
it. Files outside the levels of a version are not there to be read:
asking for them is undefined. Left out are the references counted on the
version, the statistics of the DB, and the scheduling of GC jobs at the
end.
-/
import DiffKV.GcFiles

namespace DiffKV

open Lib

-- ==== versions

/-- `FileMetaData`: a table by the name of its file. -/
structure FileMetaData where
  fname : String
  largest : UserKey
  beingCompacted : Bool := false
  deriving DecidableEq

/-- `Version` and its `VersionStorageInfo`, as the base DB answers. -/
structure Version where
  userComparator : UserKey → UserKey → Ordering := bytewiseCompare
  /-- `LevelFiles` -/
  levelFiles : List (List FileMetaData)
  numNonEmptyLevels : Nat
  overlapInLevel : Nat → BlobStorage.RangePtr → Bool
  getCleanInputsWithinInterval : Nat → BlobStorage.RangePtr → List FileMetaData
  /-- of a table, the collected property if it has one -/
  getTableProperties : FileMetaData → Status × Option (Option Bytes)
  /-- every level that holds a file counts -/
  level_lt : ∀ {level files}, levelFiles[level]? = some files → files ≠ [] →
    level < numNonEmptyLevels
  /-- clean inputs are files of their level, which the range overlaps -/
  clean : ∀ {level range file}, file ∈ getCleanInputsWithinInterval level range →
    (∃ files, levelFiles[level]? = some files ∧ file ∈ files) ∧ overlapInLevel level range = true

/-- `TablePropertiesCollection`, with the collected property of every
table. -/
abbrev TablePropertiesCollection := Map String (Option Bytes)

/-- What the collection gives: no result where it is undefined, the status
where it returns early. -/
abbrev CollectResult := ExceptT Status Option TablePropertiesCollection

namespace Version

variable (v : Version) (includeEnd : Bool)

/-- The table ends where the range does. -/
def endsAt (range : BlobStorage.RangePtr) (file : FileMetaData) : Bool :=
  match range.limit with
  | none => false
  | some limit => v.userComparator file.largest limit = .eq

/-- `GetTableProperties` of a table not seen before. Where there is no
error and no properties either, the status returned is OK. -/
def readProperties (props : TablePropertiesCollection) (file : FileMetaData) : CollectResult :=
  match v.getTableProperties file with
  | (s, some property) =>
    if s.isOk then pure (props.insert file.fname property) else throw s
  | (s, none) => throw s

/-- One table among the clean inputs of a range. -/
def collectFile (range : BlobStorage.RangePtr)
    (props : TablePropertiesCollection) (file : FileMetaData) : CollectResult :=
  if file.beingCompacted then pure props
  else if !includeEnd && v.endsAt range file then pure props
  else if props.contains file.fname then pure props
  else v.readProperties props file

/-- The test by which the `i`-th range skips a level: it asks for the
level with the number of the range. -/
def skips (i : Nat) (range : BlobStorage.RangePtr) : Option Bool :=
  (v.levelFiles[i]?).map fun files =>
    files.isEmpty || !v.overlapInLevel i range

/-- One level for the `i`-th range. -/
def collectLevel (i : Nat) (range : BlobStorage.RangePtr)
    (props : TablePropertiesCollection) (level : Nat) : CollectResult :=
  match v.skips i range with
  | none => ExceptT.mk none
  | some true => pure props
  | some false =>
    (v.getCleanInputsWithinInterval level range).foldlM (v.collectFile includeEnd range) props

/-- The loop over the levels, without level 0. -/
def collectRange (props : TablePropertiesCollection)
    (range : BlobStorage.RangePtr × Nat) : CollectResult :=
  (List.range' 1 (v.numNonEmptyLevels - 1)).foldlM (v.collectLevel includeEnd range.2 range.1) props

/-- The loop over the ranges. -/
def collect (ranges : List BlobStorage.RangePtr) : CollectResult :=
  ranges.zipIdx.foldlM (v.collectRange includeEnd) Table.empty

end Version

-- ==== the sizes

/-- The sizes of one table added to `blob_files_discardable_size`. -/
def addDiscardableSizes (C : Coding) (sizes : BlobFilesSize) : Option Bytes → BlobFilesSize
  | none => sizes
  | some src =>
    match BlobFileSizeCollector.decode C src with
    | (false, _) => sizes
    | (true, sstBlobFilesSize) =>
      sstBlobFilesSize.entries.foldl (fun sizes f =>
        sizes.insert f.1 ((sizes.lookup f.1).getD 0 + f.2)) sizes

/-- `blob_files_discardable_size`. -/
def discardableSizes (C : Coding) (props : TablePropertiesCollection) :
    BlobFilesSize :=
  props.entries.foldl (fun sizes p => addDiscardableSizes C sizes p.2) Table.empty

-- ==== the call

/-- What `DeleteFilesInRanges` takes from the rest of the DB. -/
structure RangeDeletionEnv where
  version : Version
  /-- of the base DB's own `DeleteFilesInRanges` -/
  baseStatus : Status := .ok
  /-- of the `LogAndApply` of `DeleteBlobFilesInRanges` -/
  io : ManifestIO := .ok
  settle : RangeSettleEnv := {}

/-- `TitanDBImpl::DeleteFilesInRanges`; `none` where it is undefined. -/
def deleteFilesInRanges (C : Coding) (env : RangeDeletionEnv)
    (fs : BlobFileSet) (cfId : UInt32) (ranges : List BlobStorage.RangePtr)
    (includeEnd : Bool) : Option (Status × BlobFileSet) :=
  match (env.version.collect includeEnd ranges).run with
  | none => none
  | some (.error s) => some (s, fs)
  | some (.ok props) =>
    if !env.baseStatus.isOk then some (env.baseStatus, fs)
    else
      match fs.deleteBlobFilesInRanges C cfId ranges includeEnd
          env.settle.latest env.io with
      | none => none
      | some (s, fs) =>
        if !s.isOk then some (s, fs)
        else
          match fs.getBlobStorage cfId with
          | none =>
            some (.notFound s!"Column family id: {cfId} not Found.", fs)
          | some _ =>
            some (s, settleRanges C env.settle fs cfId (discardableSizes C props))

end DiffKV
