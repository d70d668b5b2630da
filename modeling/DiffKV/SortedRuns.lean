/-
The sorted runs of the files a level merge reads (`CountSortedRun` of
`src/blob_storage.cc`). Keys are `std::string`s there, in the order of
their bytes.
-/
import DiffKV.Storage
import DiffKV.Lib.Runs

namespace DiffKV

open Lib

/-- The runs `CountSortedRun` collects in `ss`, of files already sorted. -/
def sortedRuns (files : List BlobFileMeta) : List (Run BlobFileMeta) :=
  firstFit (·.smallestKey.bytes) (·.largestKey.bytes) files

/-- `CountSortedRun`, with `std::sort`. -/
def countSortedRun (sort : List BlobFileMeta → List BlobFileMeta)
    (files : List BlobFileMeta) : List Int32 :=
  (sortedRuns (sort files)).map fun s => Int32.ofNat s.size

end DiffKV
