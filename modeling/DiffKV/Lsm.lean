/-
The base DB as far as the blob files see it: the tables of the current
version, and the notifications on their way.

The base DB installs a new version first and notifies afterwards, with
no lock held in between, so any number of notifications may be pending
and they are delivered in any order. A reopen loses the pending ones,
and the discardable sizes, which are not in the manifest, start again
from zero.
-/
import DiffKV.Notifications
import DiffKV.Lib.Machine

namespace DiffKV

open Lib

variable {C : Coding}

/-- A table of the base DB. Its blob indexes decode and point at
records, and it refers to fewer files than the property can count. -/
structure Sst (C : Coding) where
  name : String
  entries : List InternalEntry
  indexed : ∀ e ∈ entries, e.type = .kTypeBlobIndex → ∃ index rest,
    BlobIndex.decodeFrom C e.value = .ok (index, rest) ∧ index.blobHandle.size ≠ 0
  countable : (BlobFileSizeCollector.collect C entries).entries.length < 2 ^ 32

namespace Sst

/-- The property its collector leaves. -/
def property (t : Sst C) : Option Bytes :=
  BlobFileSizeCollector.finish C (BlobFileSizeCollector.collect C t.entries)

end Sst

/-- A notification. -/
inductive Note (C : Coding) where
  | flush (table : Sst C)
  | compaction (inputs outputs : List (Sst C)) (outputLevel : Int)

namespace Note

/-- The argument of `OnFlushCompleted`. -/
def flushInfo (cfId : UInt32) (table : Sst C) : FlushJobInfo :=
  { cfId, property := table.property }

/-- The argument of `OnCompactionCompleted`. -/
def compactionInfo (cfId : UInt32) (inputs outputs : List (Sst C))
    (outputLevel : Int) : CompactionJobInfo where
  cfId := cfId
  inputFiles := inputs.map (·.name)
  outputFiles := outputs.map (·.name)
  tableProperties := (inputs ++ outputs).foldl
    (fun props t => props.insert t.name t.property) Table.empty
  outputLevel := outputLevel

/-- The notification is delivered: the edit it issues, and the file set
after it. -/
def deliver (cfId : UInt32) (env : CompactionEnv) (fs : BlobFileSet) :
    Note C → VersionEdit × BlobFileSet
  | flush table => ({}, onFlushCompleted C fs (flushInfo cfId table))
  | compaction inputs outputs outputLevel =>
    onCompactionCompleted C env fs (compactionInfo cfId inputs outputs outputLevel)

end Note

/-- One column family: its blob files, the tables of the current version
and the pending notifications. -/
structure Lsm (C : Coding) where
  fileSet : BlobFileSet
  version : List (Sst C) := []
  pending : List (Note C) := []

namespace Lsm

/-- What happens to it. -/
inductive Event (C : Coding) where
  /-- a flush: the table builder installs its blob files, the base DB
  its table -/
  | flush (table : Sst C) (files : List BlobFileMeta)
  /-- a compaction, which leaves the tables `rest` -/
  | compact (inputs outputs rest : List (Sst C)) (files : List BlobFileMeta) (outputLevel : Int)
  | deliver (k : Nat) (env : CompactionEnv)
  /-- the file set a new process has recovered -/
  | reopen (fileSet : BlobFileSet)

/-- `TitanTableBuilder::Finish` installs its blob files. -/
def install (cfId : UInt32) (s : Lsm C) (files : List BlobFileMeta) :
    BlobFileSet :=
  (s.fileSet.logAndApply C { columnFamilyId := cfId, addedFiles := files } .ok).2

/-- One step. -/
def step (cfId : UInt32) (s : Lsm C) : Event C → Option (Lsm C)
  | .flush table files => some {
      fileSet := s.install cfId files
      version := table :: s.version
      pending := s.pending ++ [.flush table] }
  | .compact inputs outputs rest files outputLevel => some {
      fileSet := s.install cfId files
      version := outputs ++ rest
      pending := s.pending ++ [.compaction inputs outputs outputLevel] }
  | .deliver k env =>
    match s.pending[k]? with
    | none => none
    | some note => some { s with
        fileSet := (note.deliver cfId env s.fileSet).2
        pending := s.pending.eraseIdx k }
  | .reopen fileSet => some { s with fileSet, pending := [] }

end Lsm

end DiffKV
