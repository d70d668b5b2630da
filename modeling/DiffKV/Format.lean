/-
The blob format (`src/blob_format.{h,cc}`): the values that travel
between the base DB, the blob files and the manifest, and the life
cycle of a blob file's in-memory metadata.

Machine integers keep their width (`UInt64`, `UInt32`), so a field
always fits its varint and sums wrap where the C++ ones do. Sequence
numbers are `Nat`: nothing here computes with them beyond comparison
and increment.

Assertions are not modelled as checks. They are compiled out of a
release build, so `fileStateTransit` and `addDiscardableSize` do what
the code after the assertion does, whatever the state.
-/
import DiffKV.Lib.Coding
import Mathlib.Data.UInt

namespace DiffKV

open Lib Option

-- ==== status

/-- `rocksdb::Status`: the code and its message. -/
inductive Status where
  | ok
  | notFound (msg : String)
  | corruption (msg : String)
  | invalidArgument (msg : String)
  | ioError (msg : String)
  | incomplete (msg : String)
  | shutdownInProgress
  | aborted (msg : String)
  | busy (msg : String)
  deriving DecidableEq, Repr

namespace Status

/-- `Status::ok()`. -/
def isOk : Status → Bool
  | ok => true
  | _ => false

/-- `Status::IsBusy()`. -/
def isBusy : Status → Bool
  | busy _ => true
  | _ => false

/-- `Status::ToString()`. -/
def toString : Status → String
  | ok => "OK"
  | notFound msg => "NotFound: " ++ msg
  | corruption msg => "Corruption: " ++ msg
  | invalidArgument msg => "Invalid argument: " ++ msg
  | ioError msg => "IO error: " ++ msg
  | incomplete msg => "Result incomplete: " ++ msg
  | shutdownInProgress => "Shutdown in progress: "
  | aborted msg => "Operation aborted: " ++ msg
  | busy msg => "Resource busy: " ++ msg

@[simp] theorem isOk_ok : isOk ok = true := rfl

theorem isOk_iff {s : Status} : s.isOk = true ↔ s = ok := by
  cases s <;> simp [isOk]

theorem eq_ok_of_isOk {s : Status} (h : s.isOk = true) : s = ok := isOk_iff.1 h

/-- The status is `Corruption`. -/
def IsCorruption (s : Status) : Prop := ∃ msg, s = corruption msg

theorem IsCorruption.isOk {s : Status} (h : s.IsCorruption) : s.isOk = false := by
  obtain ⟨msg, rfl⟩ := h
  rfl

/-- The loop `for (x : xs) { s = f(x); if (!s.ok()) return s; }` with
the state `f` works on passed along. -/
def forEach {σ α : Type*} (f : σ → α → Status × σ) (st : σ) : List α → Status × σ
  | [] => (ok, st)
  | x :: xs =>
    if (f st x).1.isOk then forEach f (f st x).2 xs else f st x

@[simp] theorem forEach_nil {σ α : Type*} (f : σ → α → Status × σ)
    (st : σ) : forEach f st [] = (ok, st) := rfl

theorem forEach_cons {σ α : Type*} (f : σ → α → Status × σ) (st : σ) (x : α) (xs : List α) :
    forEach f st (x :: xs) = if (f st x).1.isOk then forEach f (f st x).2 xs else f st x := rfl

/-- A state-free loop: the first failure, or OK. -/
def firstFailure {α : Type*} (f : α → Status) : List α → Status
  | [] => ok
  | x :: xs => if (f x).isOk then firstFailure f xs else f x

/-- The loop returns OK exactly when no element fails. -/
theorem firstFailure_isOk {α : Type*} (f : α → Status) (l : List α) :
    (firstFailure f l).isOk = true ↔ ∀ x ∈ l, (f x).isOk = true := by
  induction l with
  | nil => simp [firstFailure]
  | cons x xs ih =>
    by_cases hx : (f x).isOk = true
    · simp [firstFailure, hx, ih]
    · simp [firstFailure, hx]

end Status

-- ==== keys

/-- A user key. The base DB refuses longer ones, so the length always
fits the 32-bit prefix it is written behind. -/
structure UserKey where
  bytes : Bytes
  fits : bytes.length < 2 ^ 32
  deriving DecidableEq, Repr

namespace UserKey

/-- The empty key. -/
def empty : UserKey := ⟨[], by decide⟩

/-- A key of one byte. -/
def byte (b : UInt8) : UserKey where
  bytes := [b]
  fits := by rw [List.length_singleton]; decide

/-- `Slice::empty()`. -/
def isEmpty (k : UserKey) : Bool := k.bytes.isEmpty

/-- Write a key behind its length. -/
def put (C : Coding) (k : UserKey) : Bytes := C.putLengthPrefixedSlice k.bytes

/-- Read a length-prefixed key. -/
def get (C : Coding) (src : Bytes) : Option (UserKey × Bytes) :=
  match h : C.getLengthPrefixedSlice src with
  | none => none
  | some (s, rest) => some (⟨s, C.getLengthPrefixed_length h⟩, rest)

@[simp] theorem get_put (C : Coding) (k : UserKey) (rest : Bytes) :
    get C (put C k ++ rest) = some (k, rest) := by
  have hp := C.getLengthPrefixed_put k.fits rest
  unfold get put
  split
  case h_1 h => rw [hp] at h; cases h
  case h_2 s tail h =>
    rw [hp] at h
    cases h
    rfl

theorem get_shortens {C : Coding} {src rest : Bytes} {k : UserKey}
    (h : get C src = some (k, rest)) : rest.length < src.length := by
  unfold get at h
  split at h
  case h_1 => cases h
  case h_2 s tail hg =>
    cases h
    exact C.getLengthPrefixed_shortens hg

end UserKey

/-- `SequenceNumber`. -/
abbrev SequenceNumber := Nat

/-- `kMaxSequenceNumber`: eight bits of the internal key are the value
type. -/
def kMaxSequenceNumber : SequenceNumber := 2 ^ 56 - 1

-- ==== handle and index

/-- `BlobHandle`: where a record lies in its file. -/
structure BlobHandle where
  offset : UInt64
  size : UInt64
  deriving DecidableEq, Repr, Inhabited

namespace BlobHandle

/-- `BlobHandle::EncodeTo`. -/
def encodeTo (C : Coding) (h : BlobHandle) : Bytes :=
  C.putVarint64 h.offset ++ C.putVarint64 h.size

/-- `BlobHandle::DecodeFrom`. -/
def decodeFrom (C : Coding) (src : Bytes) : Except Status (BlobHandle × Bytes) :=
  match C.getVarint64 src with
  | none => .error (.corruption "BlobHandle")
  | some (offset, src) =>
    match C.getVarint64 src with
    | none => .error (.corruption "BlobHandle")
    | some (size, src) => .ok (⟨offset, size⟩, src)

@[simp] theorem decodeFrom_encodeTo (C : Coding) (h : BlobHandle)
    (rest : Bytes) : decodeFrom C (encodeTo C h ++ rest) = .ok (h, rest) := by
  simp [decodeFrom, encodeTo, List.append_assoc]

end BlobHandle

/-- `BlobIndex`: the file and the place in it that an LSM entry names. -/
structure BlobIndex where
  fileNumber : UInt64
  blobHandle : BlobHandle
  deriving DecidableEq, Repr, Inhabited

namespace BlobIndex

/-- `BlobIndex::kBlobRecord`. -/
def kBlobRecord : UInt8 := 1

/-- `BlobIndex::EncodeTo`. -/
def encodeTo (C : Coding) (i : BlobIndex) : Bytes :=
  kBlobRecord :: (C.putVarint64 i.fileNumber ++ i.blobHandle.encodeTo C)

/-- `BlobIndex::DecodeFrom`. -/
def decodeFrom (C : Coding) : Bytes → Except Status (BlobIndex × Bytes)
  | [] => .error (.corruption "BlobIndex")
  | type :: src =>
    if type ≠ kBlobRecord then .error (.corruption "BlobIndex")
    else
      match C.getVarint64 src with
      | none => .error (.corruption "BlobIndex")
      | some (fileNumber, src) =>
        match BlobHandle.decodeFrom C src with
        | .error _ =>
          .error (.corruption "BlobIndex: Corruption: BlobHandle")
        | .ok (blobHandle, src) => .ok (⟨fileNumber, blobHandle⟩, src)

@[simp] theorem decodeFrom_encodeTo_append (C : Coding) (i : BlobIndex)
    (rest : Bytes) : decodeFrom C (encodeTo C i ++ rest) = .ok (i, rest) := by
  simp [decodeFrom, encodeTo, List.append_assoc]

@[simp] theorem decodeFrom_encodeTo (C : Coding) (i : BlobIndex) :
    decodeFrom C (encodeTo C i) = .ok (i, []) := by
  have h := decodeFrom_encodeTo_append C i []
  rwa [List.append_nil] at h

end BlobIndex

-- ==== file metadata

/-- `BlobFileMeta::FileEvent`. -/
inductive FileEvent where
  | kInit | kFlushCompleted | kCompactionCompleted | kGCCompleted | kGCBegin
  | kGCOutput | kFlushOrCompactionOutput | kDbRestart | kDelete | kNeedMerge
  | kReset | kNeedGC
  deriving DecidableEq, Repr

/-- `BlobFileMeta::FileState`. -/
inductive FileState where
  | kInit | kNormal | kPendingLSM | kBeingGC | kPendingGC | kObsolete
  | kToMerge | kToGC
  deriving DecidableEq, Repr

/-- `kSorted`: written by a table builder, in key order. -/
def kSorted : UInt32 := 0

/-- `kUnSorted`: written by the foreground builder, in arrival order. -/
def kUnSorted : UInt32 := 1

/-- `kBlobHeaderSize`. -/
def kBlobHeaderSize : UInt64 := 8

/-- `kBlobFooterSize`: a padded block handle of 20 bytes, magic number
and checksum. -/
def kBlobFooterSize : UInt64 := 20 + 8 + 4

/-- `kRecordHeaderSize`. -/
def kRecordHeaderSize : Nat := 9

/-- `BlobFileMeta`. The first seven fields are persistent; the defaults
are those of `BlobFileMeta()` (value-initialised, so the fields without
an initialiser are zero). -/
structure BlobFileMeta where
  fileNumber : UInt64 := 0
  fileSize : UInt64 := 0
  fileEntries : UInt64 := 0
  fileType : UInt32 := kUnSorted
  fileLevel : UInt32 := 0
  smallestKey : UserKey := UserKey.empty
  largestKey : UserKey := UserKey.empty
  state : FileState := .kInit
  discardableSize : UInt64 := 0
  gcMark : Bool := false
  deriving DecidableEq, Repr

/-- The state change of `FileStateTransit`, with the assertions compiled
out. -/
def FileState.next : FileState → FileEvent → FileState
  | s, .kFlushCompleted => if s = .kPendingLSM then .kNormal else s
  | s, .kGCCompleted => if s = .kObsolete then s else .kNormal
  | _, .kCompactionCompleted => .kNormal
  | _, .kGCBegin => .kBeingGC
  | _, .kGCOutput => .kPendingGC
  | _, .kFlushOrCompactionOutput => .kPendingLSM
  | _, .kDbRestart => .kNormal
  | _, .kDelete => .kObsolete
  | s, .kNeedMerge => if s = .kToGC ∨ s = .kObsolete then s else .kToMerge
  | _, .kReset => .kNormal
  | s, .kNeedGC => if s = .kObsolete then s else .kToGC
  | s, .kInit => s

namespace BlobFileMeta

variable {C : Coding} {src rest : Bytes} {m : BlobFileMeta}

/-- `BlobFileMeta::is_obsolete`. -/
def isObsolete (m : BlobFileMeta) : Bool := m.state = .kObsolete

/-- `BlobFileMeta::FileStateTransit`. -/
def fileStateTransit (m : BlobFileMeta) (event : FileEvent) : BlobFileMeta :=
  { m with state := m.state.next event }

/-- `BlobFileMeta::AddDiscardableSize`, modulo 2^64. -/
def addDiscardableSize (m : BlobFileMeta) (n : UInt64) : BlobFileMeta :=
  { m with discardableSize := m.discardableSize + n }

/-- `BlobFileMeta::GetDiscardableRatio`. -/
def getDiscardableRatio (m : BlobFileMeta) : Float :=
  m.discardableSize.toFloat / m.fileSize.toFloat

/-- What the manifest keeps of a file: every in-memory field is as a
fresh `BlobFileMeta` has it. -/
def persistent (m : BlobFileMeta) : BlobFileMeta :=
  { m with state := .kInit, discardableSize := 0, gcMark := false }

@[simp] theorem fileStateTransit_number (m : BlobFileMeta) (e : FileEvent) :
    (m.fileStateTransit e).fileNumber = m.fileNumber := rfl

/-- Deleting twice is deleting once. -/
@[simp] theorem fileStateTransit_kDelete_twice (m : BlobFileMeta) :
    (m.fileStateTransit .kDelete).fileStateTransit .kDelete = m.fileStateTransit .kDelete := rfl

@[simp] theorem fileStateTransit_persistent (m : BlobFileMeta)
    (e : FileEvent) : (m.fileStateTransit e).persistent = m.persistent := rfl

@[simp] theorem addDiscardableSize_number (m : BlobFileMeta) (n : UInt64) :
    (m.addDiscardableSize n).fileNumber = m.fileNumber := rfl

@[simp] theorem addDiscardableSize_persistent (m : BlobFileMeta)
    (n : UInt64) : (m.addDiscardableSize n).persistent = m.persistent := rfl

@[simp] theorem addDiscardableSize_isObsolete (m : BlobFileMeta)
    (n : UInt64) : (m.addDiscardableSize n).isObsolete = m.isObsolete := rfl

@[simp] theorem persistent_number (m : BlobFileMeta) : m.persistent.fileNumber = m.fileNumber := rfl

@[simp] theorem persistent_isObsolete (m : BlobFileMeta) : m.persistent.isObsolete = false := rfl

@[simp] theorem persistent_persistent (m : BlobFileMeta) :
    m.persistent.persistent = m.persistent := rfl

@[simp] theorem persistent_discardableSize (m : BlobFileMeta) :
    m.persistent.discardableSize = 0 := rfl

-- ---- the manifest codec

/-- `BlobFileMeta::EncodeTo`. -/
def encodeTo (C : Coding) (m : BlobFileMeta) : Bytes :=
  C.putVarint64 m.fileNumber ++ C.putVarint64 m.fileSize
    ++ C.putVarint64 m.fileEntries ++ C.putVarint32 m.fileType
    ++ C.putVarint32 m.fileLevel ++ m.smallestKey.put C ++ m.largestKey.put C

/-- `BlobFileMeta::DecodeFromLegacy`. -/
def decodeFromLegacy (C : Coding) (src : Bytes) : Except Status (BlobFileMeta × Bytes) :=
  match C.getVarint64 src with
  | none => .error (.corruption "BlobFileMeta decode legacy failed")
  | some (fileNumber, src) =>
    match C.getVarint64 src with
    | none => .error (.corruption "BlobFileMeta decode legacy failed")
    | some (fileSize, src) => .ok ({ fileNumber, fileSize }, src)

/-- The five numbers at the head of a version-2 file record. -/
def decodeNumbers (C : Coding) (src : Bytes) : Option (BlobFileMeta × Bytes) := do
  let (fileNumber, src) ← C.getVarint64 src
  let (fileSize, src) ← C.getVarint64 src
  let (fileEntries, src) ← C.getVarint64 src
  let (fileType, src) ← C.getVarint32 src
  let (fileLevel, src) ← C.getVarint32 src
  return ({ fileNumber, fileSize, fileEntries, fileType, fileLevel }, src)

/-- `BlobFileMeta::DecodeFrom`. -/
def decodeFrom (C : Coding) (src : Bytes) : Except Status (BlobFileMeta × Bytes) :=
  match decodeNumbers C src with
  | none => .error (.corruption "BlobFileMeta decode failed")
  | some (m, src) =>
    match UserKey.get C src with
    | none => .error (.corruption "BlobSmallestKey Decode failed")
    | some (smallestKey, src) =>
      match UserKey.get C src with
      | none => .error (.corruption "BlobLargestKey decode failed")
      | some (largestKey, src) =>
        .ok ({ m with smallestKey, largestKey }, src)

/-- Reading back a file record gives what the manifest keeps of the
file. -/
@[simp] theorem decodeFrom_encodeTo (C : Coding) (m : BlobFileMeta) (rest : Bytes) :
    decodeFrom C (encodeTo C m ++ rest) = .ok (m.persistent, rest) := by
  simp [decodeFrom, decodeNumbers, encodeTo, List.append_assoc, persistent]

/-- A legacy file record consumes input. -/
theorem decodeFromLegacy_shortens (h : decodeFromLegacy C src = .ok (m, rest)) :
    rest.length < src.length := by
  unfold decodeFromLegacy at h
  split at h
  case h_1 => cases h
  case h_2 n src₁ h₁ =>
    split at h
    case h_1 => cases h
    case h_2 sz src₂ h₂ =>
      cases h
      exact Nat.lt_trans (C.get64_shortens h₂) (C.get64_shortens h₁)

/-- The numbers of a file record consume input. -/
theorem decodeNumbers_shortens (h : decodeNumbers C src = some (m, rest)) :
    rest.length < src.length := by
  simp only [decodeNumbers, bind_eq_bind, bind_eq_some_iff,
    pure_def, some.injEq, Prod.mk.injEq, Prod.exists] at h
  obtain ⟨_, _, h₁, _, _, h₂, _, _, h₃, _, _, h₄, _, _, h₅, -, rfl⟩ := h
  have l₁ := C.get64_shortens h₁
  have l₂ := C.get64_shortens h₂
  have l₃ := C.get64_shortens h₃
  have l₄ := C.get32_shortens h₄
  have l₅ := C.get32_shortens h₅
  omega

/-- A version-2 file record consumes input. -/
theorem decodeFrom_shortens (h : decodeFrom C src = .ok (m, rest)) : rest.length < src.length := by
  unfold decodeFrom at h
  split at h
  case h_1 => cases h
  case h_2 m₀ src₁ h₁ =>
    split at h
    case h_1 => cases h
    case h_2 k src₂ h₂ =>
      split at h
      case h_1 => cases h
      case h_2 k' src₃ h₃ =>
        cases h
        have l₁ := decodeNumbers_shortens h₁
        have l₂ := UserKey.get_shortens h₂
        have l₃ := UserKey.get_shortens h₃
        omega

end BlobFileMeta

end DiffKV
