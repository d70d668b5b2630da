/-
`BlobFileMergeIterator` (`src/blob_file_iterator.cc`): the records of all
inputs of a GC job in the order of their keys, and what `DoRunGC`
(`src/blob_gc_job.cc`) makes of the status it ends with.

The heap and `current_` hold pointers into `blob_file_iterators_`. Each
iterator is reachable through one of them at a time, and the vector is
not read again, so they hold the iterators themselves here.
-/
import DiffKV.BlobFileBytes
import DiffKV.Lib.Merge
import Mathlib.Data.List.Lex

namespace DiffKV

open Lib

/-- `BlobFileIterator::key`. -/
def BlobFileIterator.key (it : BlobFileIterator) : UserKey :=
  it.curBlobRecord.key

/-- `BytewiseComparator`, the comparator if none is set. -/
def bytewiseComparator : LinearOrder UserKey :=
  LinearOrder.lift' (fun k => k.bytes.map UInt8.toNat) fun k k' h => by
    have hbytes : k.bytes = k'.bytes :=
      List.map_injective_iff.2 (fun _ _ => UInt8.toNat_inj.1) h
    cases k
    cases k'
    cases hbytes
    rfl

section comparator

-- the comparator of the column family
variable [LinearOrder UserKey] (Q : PriorityQueue BlobFileIterator.key)

/-- `BlobFileMergeIterator`; `ownStatus` is its field `status_`. -/
structure BlobFileMergeIterator where
  ownStatus : Status
  blobFileIterators : List BlobFileIterator
  minHeap : Q.Heap
  current : Option BlobFileIterator

namespace BlobFileMergeIterator

variable {Q}

/-- `BlobFileMergeIterator()`. -/
def create (iterators : List BlobFileIterator) : BlobFileMergeIterator Q where
  ownStatus := .ok
  blobFileIterators := iterators
  minHeap := Q.empty
  current := none

/-- `BlobFileMergeIterator::status`. -/
def status (m : BlobFileMergeIterator Q) : Status :=
  match m.current with
  | none => m.ownStatus
  | some it => if it.status.isOk then m.ownStatus else it.status

/-- `BlobFileMergeIterator::Valid`. -/
def isValid (m : BlobFileMergeIterator Q) : Bool :=
  match m.current with
  | none => false
  | some it => m.status.isOk && it.isValid && it.status.isOk

variable (K : Codec)

/-- An iterator that stands on a record goes to the heap. -/
def pushValid (it : BlobFileIterator) (heap : Q.Heap) : Q.Heap :=
  if it.status.isOk && it.isValid then Q.push it heap else heap

/-- `BlobFileMergeIterator::SeekToFirst`. -/
def seekToFirst (m : BlobFileMergeIterator Q) : BlobFileMergeIterator Q :=
  let iterators := m.blobFileIterators.map (BlobFileIterator.seekToFirst K)
  let heap := iterators.foldl (fun heap it => pushValid it heap) m.minHeap
  match Q.pop heap with
  | some (it, heap) =>
    { m with
      blobFileIterators := iterators
      minHeap := heap
      current := some it }
  | none =>
    { m with
      blobFileIterators := iterators
      minHeap := heap
      ownStatus := .aborted "No iterator is valid" }

/-- `BlobFileMergeIterator::Next`; called on a valid iterator only. -/
def next (m : BlobFileMergeIterator Q) : BlobFileMergeIterator Q :=
  match m.current with
  | none => m
  | some it =>
    let heap := pushValid (it.next K) m.minHeap
    match Q.pop heap with
    | some (it, heap) => { m with minHeap := heap, current := some it }
    | none => { m with minHeap := heap, current := none }

/-- The loop `for (; it.Valid(); it.Next())` from here visits these
records at these places and leaves the iterator in this state. -/
inductive Yields : BlobFileMergeIterator Q → List (BlobIndex × BlobRecord) →
    BlobFileMergeIterator Q → Prop where
  | done {m} (h : m.isValid = false) : Yields m [] m
  | more {m it items m'} (h : m.isValid = true) (hcur : m.current = some it)
      (rest : Yields (m.next K) items m') :
      Yields m ((it.getBlobIndex, it.curBlobRecord) :: items) m'

/-- What `DoRunGC` returns, from the status its loop over the records
left. -/
def doRunGCStatus (m : BlobFileMergeIterator Q) (s : Status) : Status :=
  if m.status.isOk && s.isOk then s
  else if !m.status.isOk then m.status
  else s

end BlobFileMergeIterator

end comparator

end DiffKV
