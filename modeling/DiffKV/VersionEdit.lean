/-
Version edits (`src/version_edit.{h,cc}`): one record of the manifest,
and its codec.

`decodeFrom` is the tag-driven loop of the source. Each turn of it
consumes at least the tag, so the input's length is fuel enough; the
equation `decodeFrom_field` states the loop without the fuel and is what
every proof about decoding uses.

What a decoded edit keeps of the encoded one is `persisted`: the
in-memory fields of the added files and the obsolete sequences of the
deleted ones do not travel.
-/
import DiffKV.Format
import DiffKV.Lib.Table

namespace DiffKV

open Lib List BlobFileMeta

variable {src : Bytes} {e : VersionEdit}

/-- `VersionEdit`. The flag `has_next_file_number_` and its value are
one option; `updated_discardable_size_` is a map, so an edit names a
file at most once there. -/
structure VersionEdit where
  nextFileNumber : Option UInt64 := none
  columnFamilyId : UInt32 := 0
  addedFiles : List BlobFileMeta := []
  deletedFiles : List (UInt64 × SequenceNumber) := []
  updatedDiscardableSize : Map UInt64 UInt64 := Table.empty

namespace VersionEdit

-- ==== building an edit

/-- `VersionEdit::SetNextFileNumber`. -/
def setNextFileNumber (e : VersionEdit) (v : UInt64) : VersionEdit :=
  { e with nextFileNumber := some v }

/-- `VersionEdit::SetColumnFamilyID`. -/
def setColumnFamilyID (e : VersionEdit) (v : UInt32) : VersionEdit :=
  { e with columnFamilyId := v }

/-- `VersionEdit::AddBlobFile`. -/
def addBlobFile (e : VersionEdit) (file : BlobFileMeta) : VersionEdit :=
  { e with addedFiles := e.addedFiles ++ [file] }

/-- `VersionEdit::UpdateBlobFile`: `emplace`, so a second update of the
same file in one edit is dropped. -/
def updateBlobFile (e : VersionEdit) (number size : UInt64) : VersionEdit :=
  { e with updatedDiscardableSize :=
      e.updatedDiscardableSize.emplace (number, size) }

/-- `VersionEdit::DeleteBlobFile`. -/
def deleteBlobFile (e : VersionEdit) (number : UInt64)
    (obsoleteSequence : SequenceNumber) : VersionEdit :=
  { e with deletedFiles := e.deletedFiles ++ [(number, obsoleteSequence)] }

-- ==== tags

/-- `kNextFileNumber`. -/
def kNextFileNumber : UInt32 := 1

/-- `kColumnFamilyID`. -/
def kColumnFamilyID : UInt32 := 10

/-- `kAddedBlobFile`: the legacy record. -/
def kAddedBlobFile : UInt32 := 11

/-- `kDeletedBlobFile`. -/
def kDeletedBlobFile : UInt32 := 12

/-- `kAddedBlobFileV2`. -/
def kAddedBlobFileV2 : UInt32 := 13

/-- `kUpdateDiscardableSize`. -/
def kUpdateDiscardableSize : UInt32 := 14

-- ==== codec

section

variable (C : Coding)

/-- `VersionEdit::EncodeTo`. -/
def encodeTo (e : VersionEdit) : Bytes :=
  (match e.nextFileNumber with
    | some n => C.putVarint32 kNextFileNumber ++ C.putVarint64 n
    | none => [])
  ++ (C.putVarint32 kColumnFamilyID ++ C.putVarint32 e.columnFamilyId)
  ++ e.addedFiles.flatMap (fun file =>
      C.putVarint32 kAddedBlobFileV2 ++ file.encodeTo C)
  -- the obsolete sequence is not persistent
  ++ e.deletedFiles.flatMap (fun file =>
      C.putVarint32 kDeletedBlobFile ++ C.putVarint64 file.1)
  ++ e.updatedDiscardableSize.entries.flatMap (fun file =>
      C.putVarint32 kUpdateDiscardableSize ++ (C.putVarint64 file.1 ++ C.putVarint64 file.2))

/-- One turn of the decoding loop: a tag and its field. -/
def decodeField (e : VersionEdit) (src : Bytes) : Except String (VersionEdit × Bytes) :=
  match C.getVarint32 src with
  | none => .error "invalid tag"
  | some (tag, src) =>
    if tag = kNextFileNumber then
      match C.getVarint64 src with
      | some (n, src) => .ok (e.setNextFileNumber n, src)
      | none => .error "next file number"
    else if tag = kColumnFamilyID then
      match C.getVarint32 src with
      | some (n, src) => .ok (e.setColumnFamilyID n, src)
      | none => .error "column family id"
    else if tag = kAddedBlobFile then
      match BlobFileMeta.decodeFromLegacy C src with
      | .ok (file, src) => .ok (e.addBlobFile file, src)
      | .error s => .error s.toString
    else if tag = kAddedBlobFileV2 then
      match BlobFileMeta.decodeFrom C src with
      | .ok (file, src) => .ok (e.addBlobFile file, src)
      | .error s => .error s.toString
    else if tag = kDeletedBlobFile then
      match C.getVarint64 src with
      | some (n, src) => .ok (e.deleteBlobFile n 0, src)
      | none => .error "deleted blob file"
    else if tag = kUpdateDiscardableSize then
      match C.getVarint64 src with
      | some (n, src) =>
        match C.getVarint64 src with
        | some (size, src) => .ok (e.updateBlobFile n size, src)
        | none => .error "update discardable size"
      | none => .error "update discardable size"
    else .error "unknown tag"

/-- The decoding loop, cut off after `fuel` turns. -/
def decodeLoop : Nat → VersionEdit → Bytes → Except Status VersionEdit
  | _, e, [] => .ok e
  | 0, _, _ :: _ => .error (.corruption "VersionEdit: invalid tag")
  | fuel + 1, e, b :: src =>
    match decodeField C e (b :: src) with
    | .error msg => .error (.corruption ("VersionEdit: " ++ msg))
    | .ok (e', src') => decodeLoop fuel e' src'

/-- `VersionEdit::DecodeFrom` into the edit `e`. It ends only on an
error or with nothing left, so `DecodeInto` adds no check. -/
def decodeFrom (e : VersionEdit) (src : Bytes) : Except Status VersionEdit :=
  decodeLoop C src.length e src

/-- `DecodeInto` a fresh edit. -/
def decodeInto (src : Bytes) : Except Status VersionEdit :=
  decodeFrom C {} src

end

-- ==== the loop

section

variable {m : BlobFileMeta} {e' : VersionEdit} {src' rest : Bytes} {fuel : Nat} {s : Status}

variable {C : Coding}

/-- A decoded field leaves less input than it found: the tag alone is a
byte. -/
theorem decodeField_shortens (h : decodeField C e src = .ok (e', src')) :
    src'.length < src.length := by
  unfold decodeField at h
  split at h
  case h_1 => cases h
  case h_2 tag tail htag =>
    have hlt := C.get32_shortens htag
    refine Nat.lt_trans ?_ hlt
    split at h
    · split at h
      case h_1 hg => cases h; exact C.get64_shortens hg
      case h_2 => cases h
    split at h
    · split at h
      case h_1 hg => cases h; exact C.get32_shortens hg
      case h_2 => cases h
    split at h
    · split at h
      case h_1 hg => cases h; exact decodeFromLegacy_shortens hg
      case h_2 => cases h
    split at h
    · split at h
      case h_1 hg => cases h; exact decodeFrom_shortens hg
      case h_2 => cases h
    split at h
    · split at h
      case h_1 hg => cases h; exact C.get64_shortens hg
      case h_2 => cases h
    split at h
    · split at h
      case h_1 hg =>
        split at h
        case h_1 hg' =>
          cases h
          exact Nat.lt_trans (C.get64_shortens hg') (C.get64_shortens hg)
        case h_2 => cases h
      case h_2 => cases h
    · cases h

/-- Fuel beyond the input's length changes nothing. -/
theorem decodeLoop_fuel :
    ∀ (n : Nat) (src : Bytes) (e : VersionEdit) (fuel : Nat), src.length ≤ n → src.length ≤ fuel →
      decodeLoop C fuel e src = decodeLoop C src.length e src := by
  intro n
  induction n with
  | zero =>
    intro src e fuel hn _
    obtain rfl := eq_nil_of_length_eq_zero (Nat.le_zero.1 hn)
    cases fuel <;> rfl
  | succ n ih =>
    intro src e fuel hn hf
    cases src with
    | nil => cases fuel <;> rfl
    | cons b tail =>
      cases fuel with
      | zero => simp at hf
      | succ fuel =>
        rw [length_cons] at hn hf ⊢
        unfold decodeLoop
        cases hd : decodeField C e (b :: tail) with
        | error msg => rfl
        | ok p =>
          obtain ⟨e', src'⟩ := p
          have hlt := decodeField_shortens hd
          rw [length_cons] at hlt
          -- both sides go on from the same, shorter input
          show decodeLoop C fuel e' src' = decodeLoop C tail.length e' src'
          rw [ih src' e' fuel (by omega) (by omega), ih src' e' tail.length (by omega) (by omega)]

@[simp] theorem decodeFrom_nil (e : VersionEdit) : decodeFrom C e [] = .ok e := rfl

/-- One turn of the loop, without the fuel. -/
theorem decodeFrom_field (h : decodeField C e src = .ok (e', src')) :
    decodeFrom C e src = decodeFrom C e' src' := by
  have hlt := decodeField_shortens h
  cases src with
  | nil => simp at hlt
  | cons b tail =>
    rw [length_cons] at hlt
    unfold decodeFrom
    rw [length_cons, decodeLoop, h]
    exact decodeLoop_fuel src'.length src' e' tail.length (Nat.le_refl _) (by omega)

-- ==== round trips

/-- What the manifest keeps of an edit. -/
def persisted (e : VersionEdit) : VersionEdit :=
  { e with
    addedFiles := e.addedFiles.map BlobFileMeta.persistent
    deletedFiles := e.deletedFiles.map fun file => (file.1, 0) }

theorem decodeFrom_next (e : VersionEdit) (n : UInt64) (rest : Bytes) :
    decodeFrom C e (C.putVarint32 kNextFileNumber ++ C.putVarint64 n ++ rest)
      = decodeFrom C (e.setNextFileNumber n) rest :=
  decodeFrom_field (by simp [decodeField])

theorem decodeFrom_cf (e : VersionEdit) (n : UInt32) (rest : Bytes) :
    decodeFrom C e (C.putVarint32 kColumnFamilyID ++ (C.putVarint32 n ++ rest))
      = decodeFrom C (e.setColumnFamilyID n) rest :=
  decodeFrom_field (by
    simp [decodeField, kColumnFamilyID, kNextFileNumber])

private theorem decodeFrom_addedOne (e : VersionEdit) (m : BlobFileMeta) (rest : Bytes) :
    decodeFrom C e (C.putVarint32 kAddedBlobFileV2 ++ m.encodeTo C ++ rest)
      = decodeFrom C (e.addBlobFile m.persistent) rest :=
  decodeFrom_field (by
    simp [decodeField, kAddedBlobFileV2, kAddedBlobFile, kColumnFamilyID, kNextFileNumber])

private theorem decodeFrom_deletedOne (e : VersionEdit) (n : UInt64) (rest : Bytes) :
    decodeFrom C e (C.putVarint32 kDeletedBlobFile ++ C.putVarint64 n ++ rest)
      = decodeFrom C (e.deleteBlobFile n 0) rest :=
  decodeFrom_field (by
    simp [decodeField, kDeletedBlobFile, kAddedBlobFileV2, kAddedBlobFile,
      kColumnFamilyID, kNextFileNumber])

private theorem decodeFrom_updatedOne (e : VersionEdit) (n a : UInt64) (rest : Bytes) :
    decodeFrom C e
        (C.putVarint32 kUpdateDiscardableSize ++ (C.putVarint64 n ++ C.putVarint64 a) ++ rest)
      = decodeFrom C (e.updateBlobFile n a) rest :=
  decodeFrom_field (by
    simp [decodeField, kUpdateDiscardableSize, kDeletedBlobFile,
      kAddedBlobFileV2, kAddedBlobFile, kColumnFamilyID, kNextFileNumber])

theorem decodeFrom_added (files : List BlobFileMeta) :
    ∀ (e : VersionEdit) (rest : Bytes), decodeFrom C e (files.flatMap (fun file =>
          C.putVarint32 kAddedBlobFileV2 ++ file.encodeTo C) ++ rest) = decodeFrom C { e with
            addedFiles := e.addedFiles ++ files.map persistent }
          rest := by
  induction files with
  | nil => intro e rest; simp
  | cons m files ih =>
    intro e rest
    rw [flatMap_cons, append_assoc]
    rw [decodeFrom_addedOne, ih]
    simp [addBlobFile]

theorem decodeFrom_deleted (files : List (UInt64 × SequenceNumber)) :
    ∀ (e : VersionEdit) (rest : Bytes), decodeFrom C e (files.flatMap (fun file =>
          C.putVarint32 kDeletedBlobFile ++ C.putVarint64 file.1) ++ rest) = decodeFrom C { e with
            deletedFiles := e.deletedFiles ++ files.map fun file => (file.1, 0) } rest := by
  induction files with
  | nil => intro e rest; simp
  | cons m files ih =>
    intro e rest
    rw [flatMap_cons, append_assoc]
    rw [decodeFrom_deletedOne, ih]
    simp [deleteBlobFile]

theorem decodeFrom_updated (files : List (UInt64 × UInt64)) :
    ∀ (e : VersionEdit) (rest : Bytes), decodeFrom C e (files.flatMap (fun file =>
          C.putVarint32 kUpdateDiscardableSize
            ++ (C.putVarint64 file.1 ++ C.putVarint64 file.2)) ++ rest)
        = decodeFrom C { e with
            updatedDiscardableSize :=
              files.foldl Table.emplace e.updatedDiscardableSize } rest := by
  induction files with
  | nil => intro e rest; simp
  | cons m files ih =>
    intro e rest
    rw [flatMap_cons, append_assoc]
    rw [decodeFrom_updatedOne, ih]
    simp [updateBlobFile]

private theorem decodeLoop_error (h : decodeLoop C fuel e src = .error s) : s.isOk = false := by
  induction fuel generalizing e src with
  | zero =>
    cases src with
    | nil => cases h
    | cons b src =>
      cases h
      rfl
  | succ fuel ih =>
    cases src with
    | nil => cases h
    | cons b src =>
      unfold decodeLoop at h
      split at h
      case h_1 =>
        cases h
        rfl
      case h_2 => exact ih h

/-- A record that does not decode is a failure. -/
theorem decodeInto_error (h : decodeInto C src = .error s) : s.isOk = false := decodeLoop_error h

/-- Decoding a logged record gives back what the manifest keeps of the
edit. -/
@[simp] theorem decodeInto_encodeTo (e : VersionEdit) :
    decodeInto C (e.encodeTo C) = .ok e.persisted := by
  unfold decodeInto encodeTo
  have hnext : ∀ rest : Bytes, decodeFrom C {} ((match e.nextFileNumber with
          | some n => C.putVarint32 kNextFileNumber ++ C.putVarint64 n
          | none => []) ++ rest)
        = decodeFrom C { nextFileNumber := e.nextFileNumber } rest := by
    intro rest
    cases hn : e.nextFileNumber with
    | none => rfl
    | some n => exact decodeFrom_next {} n rest
  rw [append_assoc, append_assoc, append_assoc,
    append_assoc, hnext, decodeFrom_cf, decodeFrom_added, decodeFrom_deleted]
  rw [← append_nil (flatMap _ e.updatedDiscardableSize.entries), decodeFrom_updated, decodeFrom_nil]
  simp [setColumnFamilyID, persisted, Table.foldl_emplace_entries]

-- ==== decoded edits

/-- A decoded file is as the manifest keeps it. -/
private theorem persistent_of_decodeFrom
    (h : BlobFileMeta.decodeFrom C src = .ok (m, rest)) : m.persistent = m := by
  unfold BlobFileMeta.decodeFrom at h
  split at h
  case h_1 => cases h
  case h_2 m₀ src₁ hnumbers =>
    -- the keys do not matter, and the numbers start from a fresh file
    have hm₀ : m₀.persistent = m₀ := by
      simp only [decodeNumbers, Option.bind_eq_bind,
        Option.bind_eq_some_iff, Option.pure_def, Option.some.injEq,
        Prod.mk.injEq, Prod.exists] at hnumbers
      obtain ⟨_, _, -, _, _, -, _, _, -, _, _, -, _, _, -, rfl, -⟩ := hnumbers
      rfl
    split at h
    case h_1 => cases h
    case h_2 =>
      split at h
      case h_1 => cases h
      case h_2 =>
        cases h
        rw [← hm₀]
        rfl

private theorem persistent_of_decodeFromLegacy (h : decodeFromLegacy C src = .ok (m, rest)) :
    m.persistent = m := by
  unfold decodeFromLegacy at h
  split at h
  case h_1 => cases h
  case h_2 =>
    split at h
    case h_1 => cases h
    case h_2 =>
      cases h
      rfl

private theorem persisted_addBlobFile (he : e.persisted = e) (hm : m.persistent = m) :
    (e.addBlobFile m).persisted = e.addBlobFile m := by
  have hfiles := congrArg addedFiles he
  have hdeleted := congrArg deletedFiles he
  unfold persisted at hfiles hdeleted
  unfold persisted addBlobFile
  dsimp only at hfiles hdeleted ⊢
  rw [map_append, hfiles, hdeleted, map_singleton, hm]

private theorem persisted_deleteBlobFile (n : UInt64) (he : e.persisted = e) :
    (e.deleteBlobFile n 0).persisted = e.deleteBlobFile n 0 := by
  have hfiles := congrArg addedFiles he
  have hdeleted := congrArg deletedFiles he
  unfold persisted at hfiles hdeleted
  unfold persisted deleteBlobFile
  dsimp only at hfiles hdeleted ⊢
  rw [map_append, hfiles, hdeleted, map_singleton]

/-- A decoded field adds nothing that the manifest would not keep. -/
theorem persisted_decodeField (he : e.persisted = e)
    (h : decodeField C e src = .ok (e', src')) : e'.persisted = e' := by
  -- the fields that `persisted` leaves alone
  have hother : ∀ next cf updated,
      ({ e with nextFileNumber := next, columnFamilyId := cf,
                updatedDiscardableSize := updated } : VersionEdit).persisted
        = { e with nextFileNumber := next, columnFamilyId := cf,
                   updatedDiscardableSize := updated } := by
    intro next cf updated
    have hfiles := congrArg addedFiles he
    have hdeleted := congrArg deletedFiles he
    unfold persisted at hfiles hdeleted ⊢
    dsimp only at hfiles hdeleted ⊢
    rw [hfiles, hdeleted]
  unfold decodeField at h
  split at h
  case h_1 => cases h
  case h_2 tag tail _ =>
    split at h
    · split at h
      case h_1 n rest _ =>
        cases h
        exact hother (some n) e.columnFamilyId e.updatedDiscardableSize
      case h_2 => cases h
    split at h
    · split at h
      case h_1 n rest _ =>
        cases h
        exact hother e.nextFileNumber n e.updatedDiscardableSize
      case h_2 => cases h
    split at h
    · split at h
      case h_1 hm =>
        cases h
        exact persisted_addBlobFile he (persistent_of_decodeFromLegacy hm)
      case h_2 => cases h
    split at h
    · split at h
      case h_1 hm =>
        cases h
        exact persisted_addBlobFile he (persistent_of_decodeFrom hm)
      case h_2 => cases h
    split at h
    · split at h
      case h_1 n rest _ =>
        cases h
        exact persisted_deleteBlobFile n he
      case h_2 => cases h
    split at h
    · split at h
      case h_1 n rest _ =>
        split at h
        case h_1 size rest' _ =>
          cases h
          exact hother e.nextFileNumber e.columnFamilyId
            (e.updatedDiscardableSize.emplace (n, size))
        case h_2 => cases h
      case h_2 => cases h
    · cases h

private theorem persisted_decodeLoop (he : e.persisted = e)
    (h : decodeLoop C fuel e src = .ok e') : e'.persisted = e' := by
  induction fuel generalizing e src with
  | zero =>
    cases src with
    | nil =>
      cases h
      exact he
    | cons b src => cases h
  | succ fuel ih =>
    cases src with
    | nil =>
      cases h
      exact he
    | cons b src =>
      unfold decodeLoop at h
      split at h
      case h_1 => cases h
      case h_2 hfield => exact ih (persisted_decodeField he hfield) h

end

/-- **The codec of manifest records.** Decoding an encoded edit gives
back what the manifest keeps of it, and whatever a record decodes to,
the same comes back after encoding it anew. -/
theorem edit_codec (C : Coding) :
    (∀ e : VersionEdit, decodeInto C (e.encodeTo C) = .ok e.persisted)
      ∧ ∀ (src : Bytes) (e : VersionEdit), decodeInto C src = .ok e →
        decodeInto C (e.encodeTo C) = .ok e := by
  refine ⟨fun e => decodeInto_encodeTo e, fun src e h => ?_⟩
  have hkept : e.persisted = e := persisted_decodeLoop rfl h
  rw [decodeInto_encodeTo, hkept]

/-- A legacy record of file 7 and two updates of its discardable size,
of which the first counts. -/
def legacyRecord : Bytes := [11, 7, 100, 14, 7, 5, 14, 7, 9]

theorem edit_codec_legacyRecord :
    ∃ e : VersionEdit, decodeInto base128 legacyRecord = .ok e
      ∧ e.addedFiles = [{ fileNumber := 7, fileSize := 100 }]
      ∧ e.updatedDiscardableSize.entries = [(7, 5)]
      ∧ decodeInto base128 (e.encodeTo base128) = .ok e := by
  obtain ⟨e, he, hfiles, hupdated⟩ : ∃ e,
      decodeInto base128 legacyRecord = .ok e
        ∧ e.addedFiles = [{ fileNumber := 7, fileSize := 100 }]
        ∧ e.updatedDiscardableSize.entries = [(7, 5)] :=
    ⟨_, rfl, by decide, by decide⟩
  exact ⟨e, he, hfiles, hupdated, (edit_codec base128).2 legacyRecord e he⟩

end VersionEdit

end DiffKV
