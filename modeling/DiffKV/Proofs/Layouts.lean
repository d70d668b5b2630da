/-
Who reads a record in the layout it was written in.

Reading decodes the encoding of the record in the layout the reader
takes it for (`get_installed`, `get_building`), so everything turns on
one comparison of two flags. In the wrong layout a record is either
refused or read as other bytes, never as its own value: a key-layout
record taken for a bare value comes back longer by its key and the two
lengths, and a bare value that happens to parse as a key-layout record
comes back shorter.
-/
import DiffKV.BlobRead
import DiffKV.Proofs.BlobFileBytes
import DiffKV.Proofs.Reopen

namespace DiffKV

open Lib List BlobFileSet BlobStorage Table BlobFileBuilder

variable {K : Codec}

-- ==== the wrong layout

namespace BlobRecord

variable {C : Coding} {r : BlobRecord} {writtenAs readAs : Bool}

/-- A bare value that parses as a key-layout record loses its front. -/
theorem value_length_lt_of_decodeInto {src : Bytes}
    (h : decodeInto C false src = .ok r) : r.value.length < src.length := by
  unfold decodeInto decodeFrom at h
  simp only [Bool.false_eq_true, if_false] at h
  cases hk : UserKey.get C src with
  | none => rw [hk] at h; cases h
  | some p =>
    obtain ⟨key, rest⟩ := p
    have hkey := UserKey.get_shortens hk
    rw [hk] at h
    simp only at h
    cases hv : C.getLengthPrefixedSlice rest with
    | none => rw [hv] at h; cases h
    | some q =>
      obtain ⟨value, rest'⟩ := q
      rw [hv] at h
      simp only at h
      split at h
      case isFalse => cases h
      case isTrue =>
        cases h
        have hle := C.getLengthPrefixed_value_length hv
        show value.length < src.length
        omega

/-- A key-layout record is longer than its value. -/
theorem value_length_lt_encodeTo (r : BlobRecord) :
    r.value.length < (r.encodeTo C false).length := by
  have hkey := C.put32_length_pos (UInt32.ofNat r.key.bytes.length)
  have hvalue := C.length_le_putLengthPrefixed r.value
  show _ < (r.key.put C ++ C.putLengthPrefixedSlice r.value).length
  rw [length_append, UserKey.put, Coding.putLengthPrefixedSlice, length_append]
  omega

/-- The value as the reader has it is the value as written. -/
def ReadsSame (C : Coding) (writtenAs readAs : Bool) (r : BlobRecord) : Prop :=
  ∃ r', decodeInto C readAs (r.encodeTo C writtenAs) = .ok r' ∧ r'.value = r.value

/-- The reader has other bytes for the value. -/
def ReadsOther (C : Coding) (writtenAs readAs : Bool) (r : BlobRecord) :
    Prop :=
  ∃ r', decodeInto C readAs (r.encodeTo C writtenAs) = .ok r' ∧ r'.value ≠ r.value

/-- A record is read as written exactly in its own layout. -/
theorem readsSame_iff (hr : (r.encodeTo C writtenAs).length < 2 ^ 32) :
    r.ReadsSame C writtenAs readAs ↔ writtenAs = readAs := by
  constructor
  · rintro ⟨r', hdecode, hvalue⟩
    by_contra hne
    cases writtenAs <;> cases readAs
    · exact hne rfl
    · cases hdecode
      have hlt := value_length_lt_encodeTo (C := C) r
      rw [show (r.encodeTo C false) = r.value from hvalue] at hlt
      omega
    · have hlt := value_length_lt_of_decodeInto hdecode
      rw [hvalue] at hlt
      exact absurd hlt (Nat.lt_irrefl _)
    · exact hne rfl
  · rintro rfl
    exact ⟨_, decodeInto_encodeTo C hr, stored_value ..⟩

/-- A record is read as other bytes if it was written with its key and
is taken for a bare value, or is a bare value that parses. -/
theorem readsOther_iff (hr : (r.encodeTo C writtenAs).length < 2 ^ 32) :
    r.ReadsOther C writtenAs readAs
      ↔ (writtenAs = false ∧ readAs = true)
        ∨ (writtenAs = true ∧ readAs = false ∧ ∃ r', decodeInto C false r.value = .ok r') := by
  have hsame : writtenAs = readAs → ¬ r.ReadsOther C writtenAs readAs := by
    rintro rfl ⟨r', hdecode, hne⟩
    rw [decodeInto_encodeTo C hr] at hdecode
    cases hdecode
    exact hne (stored_value ..)
  have hother : writtenAs ≠ readAs →
      (r.ReadsOther C writtenAs readAs
        ↔ ∃ r', decodeInto C readAs (r.encodeTo C writtenAs) = .ok r') := by
    intro hne
    constructor
    · rintro ⟨r', hdecode, -⟩
      exact ⟨r', hdecode⟩
    · rintro ⟨r', hdecode⟩
      exact ⟨r', hdecode, fun hvalue =>
        hne ((readsSame_iff hr).1 ⟨r', hdecode, hvalue⟩)⟩
  cases writtenAs <;> cases readAs
  · simpa using hsame rfl
  · rw [hother (by decide)]
    exact ⟨fun _ => .inl ⟨rfl, rfl⟩, fun _ => ⟨_, rfl⟩⟩
  · rw [hother (by decide)]
    refine ⟨fun h => .inr ⟨rfl, rfl, h⟩, fun h => ?_⟩
    rcases h with h | ⟨-, -, h⟩
    · cases h.1
    · exact h
  · simpa using hsame rfl

end BlobRecord

-- ==== through the storage

section storage

variable {type : CompressionType} {writtenAs : Bool} {dir : BlobDir}
  {s : BlobStorage} {index : BlobIndex} {r : BlobRecord} {m : BlobFileMeta}
  {body : Bytes}

/-- A read out of an installed file, in the layout the storage takes the
file for. -/
theorem get_eq_readRecord (hm : s.findFile index.fileNumber = some m)
    (hfile : dir.lookup index.fileNumber = some (finish K body))
    (hsize : m.fileSize = UInt64.ofNat (finish K body).length)
    (hlen : (finish K body).length < 2 ^ 64) :
    s.get K dir index = (BlobFileReader.readRecord K (finish K body) (s.onlyValue m)
      index.blobHandle).map Prod.fst := by
  have hnumber : m.fileNumber = index.fileNumber := key_of_find hm
  have hopen : dir.findFile K m.fileNumber m.fileSize = .ok (finish K body) := by
    unfold BlobDir.findFile
    rw [hnumber, hfile, hsize]
    dsimp only
    rw [openFile_finish K hlen, Status.isOk_ok, if_pos rfl]
  unfold BlobStorage.get
  rw [hm]
  dsimp only
  rw [hopen]
  dsimp only
  unfold BlobFileReader.get
  cases BlobFileReader.readRecord K (finish K body) (s.onlyValue m) index.blobHandle <;> rfl

/-- Out of an installed file, a record is decoded in the layout the
storage takes the file for. -/
theorem get_installed (hm : s.findFile index.fileNumber = some m)
    (hfile : dir.lookup index.fileNumber = some (finish K body))
    (hsize : m.fileSize = UInt64.ofNat (finish K body).length)
    (hlen : (finish K body).length < 2 ^ 64)
    (hplaced : Placed K type writtenAs (finish K body) index.blobHandle r)
    (hr : (r.encodeTo K.coding writtenAs).length < 2 ^ 32) :
    s.get K dir index = BlobRecord.decodeInto K.coding (s.onlyValue m)
      (r.encodeTo K.coding writtenAs) := by
  rw [get_eq_readRecord hm hfile hsize hlen, hplaced.readRecord_as hlen hr (s.onlyValue m)]
  cases BlobRecord.decodeInto K.coding (s.onlyValue m) (r.encodeTo K.coding writtenAs) <;> rfl

/-- Out of a file being built, a record is decoded in the key layout. -/
theorem get_building {file : Bytes} (hnone : s.findFile index.fileNumber = none)
    (hsep : s.dbOptions.sepBeforeFlush = true)
    (hbuilding : s.findBuildingFile index.fileNumber = true)
    (hfile : dir.lookup index.fileNumber = some file) (hlen : file.length < 2 ^ 64)
    (hplaced : Placed K type writtenAs file index.blobHandle r)
    (hr : (r.encodeTo K.coding writtenAs).length < 2 ^ 32) :
    s.get K dir index = BlobRecord.decodeInto K.coding false (r.encodeTo K.coding writtenAs) := by
  have hread := hplaced.readRecord_as hlen hr false
  unfold BlobStorage.get
  rw [hnone]
  rw [if_pos hsep, readBuildingFile, if_pos hbuilding, hfile]
  dsimp only
  rw [hread]
  cases BlobRecord.decodeInto K.coding false (r.encodeTo K.coding writtenAs) <;> rfl

end storage

-- ==== the three writers

/-- The record is where a writer put it: in a file that is installed
under the type the writer gives its files, or, for the foreground
builder, in a file still being built. `options` are those the writer ran
with; the option `level_merge` was the same as now. -/
inductive Stored (K : Codec) (type : CompressionType) (s : BlobStorage)
    (dir : BlobDir) (options : TitanDBOptions) :
    BlobWriter → BlobIndex → BlobRecord → Prop where
  | installed {w : BlobWriter} {index : BlobIndex} {r : BlobRecord}
      {m : BlobFileMeta} {body : Bytes}
      (hm : s.findFile index.fileNumber = some m)
      (htype : m.fileType = w.fileType options)
      (hfile : dir.lookup index.fileNumber = some (BlobFileBuilder.finish K body))
      (hsize : m.fileSize = UInt64.ofNat (BlobFileBuilder.finish K body).length)
      (hlen : (BlobFileBuilder.finish K body).length < 2 ^ 64)
      (hplaced : Placed K type (w.onlyValue s.cfOptions)
        (BlobFileBuilder.finish K body) index.blobHandle r) :
      Stored K type s dir options w index r
  | building {index : BlobIndex} {r : BlobRecord} {file : Bytes}
      (hnone : s.findFile index.fileNumber = none)
      (hsep : s.dbOptions.sepBeforeFlush = true)
      (hbuilding : s.findBuildingFile index.fileNumber = true)
      (hfile : dir.lookup index.fileNumber = some file)
      (hlen : file.length < 2 ^ 64)
      (hplaced : Placed K type (BlobWriter.foregroundBuilder.onlyValue s.cfOptions) file
        index.blobHandle r) :
      Stored K type s dir options .foregroundBuilder index r

/-- The one combination whose layout the readers get wrong. -/
def BlobWriter.Mislabels (options : TitanDBOptions)
    (cfOptions : TitanCFOptions) (w : BlobWriter) : Prop :=
  w = .gcJob ∧ cfOptions.levelMerge = true ∧ options.sepBeforeFlush = false

/-- A writer's layout is the one the readers work out, except for that
combination. -/
theorem BlobWriter.onlyValue_eq_iff (options : TitanDBOptions)
    (cfOptions : TitanCFOptions) (w : BlobWriter) :
    w.onlyValue cfOptions = (cfOptions.levelMerge && w.fileType options = kSorted)
      ↔ ¬ w.Mislabels options cfOptions := by
  unfold Mislabels
  cases hmerge : cfOptions.levelMerge <;>
    cases hsep : options.sepBeforeFlush <;> cases w <;>
    simp [onlyValue, fileType, hmerge, hsep, kSorted, kUnSorted]

/-- A record and the bytes of a file that holds it alone, written in the
given layout. -/
def soleRecord : BlobRecord := { key := UserKey.byte 1, value := [0, 1, 7] }

def soleFile (onlyValue : Bool) : Bytes :=
  (BlobFileBuilder.build trailingZeros .kNoCompression onlyValue [soleRecord]).2

/-- Where the record lies in it. -/
def soleIndex (onlyValue : Bool) : BlobIndex where
  fileNumber := 5
  blobHandle :=
    { offset := 8
      size := (trailingZeros.encodeRecord .kNoCompression onlyValue soleRecord).getEncodedSize }

/-- A directory with that file, under the number 5. -/
def soleDir (onlyValue : Bool) : BlobDir :=
  Table.empty.insert 5 (soleFile onlyValue)

/-- A storage with `level_merge` on that has it installed as a sorted
file. -/
def soleStorage (onlyValue : Bool) : BlobStorage :=
  ({ dbOptions := {}, cfOptions := { levelMerge := true } }
    : BlobStorage).addBlobFile
      { fileNumber := 5
        fileSize := UInt64.ofNat (soleFile onlyValue).length
        fileType := kSorted }

theorem placed_soleRecord (onlyValue : Bool) :
    Placed trailingZeros .kNoCompression onlyValue (soleFile onlyValue)
      (soleIndex onlyValue).blobHandle soleRecord :=
  (placed_add create soleRecord).append _

/-- The file a GC job installs with `level_merge` on and
`sep_before_flush` off. -/
theorem stored_gcOutput :
    Stored trailingZeros .kNoCompression (soleStorage false) (soleDir false)
      {} .gcJob (soleIndex false) soleRecord :=
  .installed rfl rfl rfl rfl (by decide +kernel) (placed_soleRecord false)

/-- Open one column family on what the process before has left: its
manifest as written and its blob files. -/
def openAgain (K : Codec) (cfId : UInt32) (left : BlobFileSet × BlobDir)
    (options : TitanDBOptions × TitanCFOptions) :
    Status × BlobFileSet × BlobDir :=
  let (s, fs, deleted) := BlobFileSet.open K.coding options.1
    [(cfId, options.2)]
    (.ok {
      current := .ok [10]
      reader := .intact left.1.records
      children := left.2.entries.map fun p => (p.1, .kBlobFile) })
  (s, fs, (deleted.map Prod.fst).foldl Table.erase left.2)

/-- What is open after each of a series of opens. -/
def openSeries (K : Codec) (cfId : UInt32) :
    BlobFileSet × BlobDir → List (TitanDBOptions × TitanCFOptions) → List (BlobFileSet × BlobDir)
  | _, [] => []
  | left, options :: rest =>
    let opened := (openAgain K cfId left options).2
    opened :: openSeries K cfId opened rest

/-- A sorted file, finished and live, with its bytes in the directory. -/
structure HasFile (K : Codec) (cfId : UInt32) (n : UInt64) (body : Bytes)
    (state : BlobFileSet × BlobDir) : Prop where
  logged : ∃ es, Tracks K.coding state.1 es
  file : ∃ m, state.1.live cfId n = some m ∧ m.fileType = kSorted
    ∧ m.fileSize = UInt64.ofNat (BlobFileBuilder.finish K body).length
  bytes : state.2.lookup n = some (BlobFileBuilder.finish K body)

/-- Opening again finds the file, under the new options. -/
theorem HasFile.openAgain {cfId : UInt32} {n : UInt64} {body : Bytes}
    {left : BlobFileSet × BlobDir} (h : HasFile K cfId n body left)
    (options : TitanDBOptions × TitanCFOptions) :
    HasFile K cfId n body (openAgain K cfId left options).2
      ∧ ∃ st, (openAgain K cfId left options).2.1.getBlobStorage cfId
          = some st ∧ st.cfOptions = options.2 := by
  obtain ⟨es, hes⟩ := h.logged
  obtain ⟨m, hm, htype, hsize⟩ := h.file
  let fs₀ : BlobFileSet := ({ dbOptions := options.1 }
    : BlobFileSet).addColumnFamilies [(cfId, options.2)]
  have hlookup₀ : ∀ i, fs₀.columnFamilies.lookup i = if cfId = i then
          some { dbOptions := options.1, cfOptions := options.2 }
        else none := by
    intro i
    rw [lookup_addColumnFamilies]
    by_cases hi : cfId = i <;> simp [hi]
  have h₀ : left.1.Reopens fs₀ := by
    refine ⟨fun i st hst => ?_, fun i hi => ?_⟩
    · rw [hlookup₀] at hst
      split at hst
      case isTrue => cases hst; rfl
      case isFalse => cases hst
    · rw [hlookup₀] at hi
      split at hi
      case isFalse => cases hi
      case isTrue heq =>
        subst heq
        obtain ⟨st, hst, -⟩ := file_ne_none_iff.1
          (file_of_live (by rw [hm]; exact Option.some_ne_none m))
        rw [hst]
        rfl
  obtain ⟨fs', deleted, heq, hrec, hdel⟩ := hes.recover h₀
    (left.2.entries.map fun p => (p.1, .kBlobFile))
  have hopen : DiffKV.openAgain K cfId left options
      = (.ok, fs', (deleted.map Prod.fst).foldl erase left.2) := by
    have hrun : BlobFileSet.open K.coding options.1 [(cfId, options.2)]
        (.ok {
          current := .ok [10]
          reader := .intact left.1.records
          children := left.2.entries.map fun p => (p.1, .kBlobFile) })
          = (.ok, fs', deleted) := heq
    unfold DiffKV.openAgain
    rw [hrun]
  have hcf : (fs₀.columnFamilies.lookup cfId).isSome = true := by
    rw [hlookup₀, if_pos rfl]
    rfl
  -- the file is there with its type and its size
  have hfile : ∃ m', fs'.file cfId n = some m' ∧ m'.persistent = m.persistent := by
    have hp := hrec.files cfId hcf n
    rw [hm] at hp
    obtain ⟨m', hm', hpersist⟩ := Option.map_eq_some_iff.1 hp
    exact ⟨m', hm', hpersist⟩
  obtain ⟨m', hm', hpersist⟩ := hfile
  have hkept : n ∉ deleted.map Prod.fst := by
    intro hmem
    obtain ⟨d, hd, rfl⟩ := mem_map.1 hmem
    rw [hdel d hd cfId] at hm'
    cases hm'
  rw [hopen]
  refine ⟨⟨hrec.logged, ⟨m', ?_, ?_, ?_⟩, ?_⟩, ?_⟩
  · exact (hrec.live cfId n).trans hm'
  · exact (congrArg BlobFileMeta.fileType hpersist).trans htype
  · exact (congrArg BlobFileMeta.fileSize hpersist).trans hsize
  · show ((deleted.map Prod.fst).foldl erase left.2).lookup n = _
    rw [lookup_foldl_erase, if_neg hkept]
    exact h.bytes
  · obtain ⟨st, hst⟩ := Option.isSome_iff_exists.1 ((hrec.opened cfId).trans hcf)
    obtain ⟨st₀, hst₀, -, hoptions⟩ := hrec.options cfId st hst
    rw [hlookup₀, if_pos rfl] at hst₀
    cases hst₀
    exact ⟨st, hst, hoptions⟩

/-- Whatever `Get` or a prefetcher returns under the index is the
value. -/
def NeverAltered (K : Codec) (cfId : UInt32) (index : BlobIndex)
    (value : Bytes) (state : BlobFileSet × BlobDir) : Prop :=
  ∀ st, state.1.getBlobStorage cfId = some st → ∀ r',
    st.get K state.2 index = .ok r' ∨ st.prefetch K state.2 index = .ok r' → r'.value = value

/-- Values written under one setting of `level_merge` may be read under
another: the setting is the same, or it went from on to off and the
value does not parse as a record with a key. -/
def KeepsValue (C : Coding) (written : TitanCFOptions) (r : BlobRecord)
    (options : TitanCFOptions) : Prop :=
  written.levelMerge = options.levelMerge
    ∨ (written.levelMerge = true ∧ ∀ r', BlobRecord.decodeInto C false r.value ≠ .ok r')

section series

variable {type : CompressionType} {cfId : UInt32} {index : BlobIndex}
  {r : BlobRecord} {body : Bytes} {written : TitanCFOptions}
  {state : BlobFileSet × BlobDir}

/-- In one open, both ways of reading decode the record in the layout
the current setting of `level_merge` stands for. -/
theorem HasFile.read (h : HasFile K cfId index.fileNumber body state)
    (hlen : (finish K body).length < 2 ^ 64)
    (hplaced : Placed K type (BlobWriter.tableBuilder.onlyValue written)
      (finish K body) index.blobHandle r)
    (hr : (r.encodeTo K.coding (BlobWriter.tableBuilder.onlyValue written)).length < 2 ^ 32)
    {st : BlobStorage} (hst : state.1.getBlobStorage cfId = some st) :
    st.get K state.2 index = BlobRecord.decodeInto K.coding
        st.cfOptions.levelMerge (r.encodeTo K.coding written.levelMerge)
      ∧ st.prefetch K state.2 index = st.get K state.2 index := by
  obtain ⟨m, hm, htype, hsize⟩ := h.file
  have hfind : st.findFile index.fileNumber = some m := by
    have hfile := (Option.filter_eq_some_iff.1 hm).1
    unfold BlobFileSet.file at hfile
    rwa [show state.1.columnFamilies.lookup cfId = some st from hst] at hfile
  have hget := get_installed hfind h.bytes hsize hlen hplaced hr
  have hflag : st.onlyValue m = st.cfOptions.levelMerge := by
    unfold onlyValue
    rw [htype]
    simp
  rw [hflag] at hget
  exact ⟨hget, prefetch_eq_get K state.2 hfind⟩

/-- In one open, the value is safe exactly if its setting of
`level_merge` reads it in its own layout or refuses it. -/
theorem HasFile.neverAltered_iff (h : HasFile K cfId index.fileNumber body state)
    (hlen : (finish K body).length < 2 ^ 64)
    (hplaced : Placed K type (BlobWriter.tableBuilder.onlyValue written)
      (finish K body) index.blobHandle r)
    (hr : (r.encodeTo K.coding (BlobWriter.tableBuilder.onlyValue written)).length < 2 ^ 32)
    {st : BlobStorage} (hst : state.1.getBlobStorage cfId = some st) :
    NeverAltered K cfId index r.value state ↔ KeepsValue K.coding written r st.cfOptions := by
  obtain ⟨hget, hprefetch⟩ := h.read hlen hplaced hr hst
  have hsafe : NeverAltered K cfId index r.value state
      ↔ ¬ r.ReadsOther K.coding written.levelMerge st.cfOptions.levelMerge := by
    constructor
    · rintro hnever ⟨r', hdecode, hne⟩
      exact hne (hnever st hst r' (.inl (hget.trans hdecode)))
    · intro hnot st' hst' r' hread
      cases hst.symm.trans hst'
      rw [hprefetch, or_self] at hread
      by_contra hne
      exact hnot ⟨r', hget.symm.trans hread, hne⟩
  have hother : r.ReadsOther K.coding written.levelMerge
      st.cfOptions.levelMerge ↔ _ := BlobRecord.readsOther_iff hr
  rw [hsafe, hother]
  unfold KeepsValue
  cases written.levelMerge <;> cases st.cfOptions.levelMerge <;> simp

/-- **Values across option changes.** A record of the table builder is
returned as written or refused, by `Get` and by a prefetcher, in every
open of a series, exactly if each open has a setting of `level_merge`
that keeps the value. -/
theorem values_across_opens_iff {left : BlobFileSet × BlobDir}
    (h : HasFile K cfId index.fileNumber body left)
    (hlen : (BlobFileBuilder.finish K body).length < 2 ^ 64)
    (hplaced : Placed K type (BlobWriter.tableBuilder.onlyValue written)
      (BlobFileBuilder.finish K body) index.blobHandle r)
    (hr : (r.encodeTo K.coding (BlobWriter.tableBuilder.onlyValue written)).length < 2 ^ 32)
    (series : List (TitanDBOptions × TitanCFOptions)) :
    (∀ state ∈ openSeries K cfId left series, NeverAltered K cfId index r.value state)
      ↔ ∀ options ∈ series, KeepsValue K.coding written r options.2 := by
  induction series generalizing left with
  | nil => simp [openSeries]
  | cons options rest ih =>
    obtain ⟨hopened, st, hst, hoptions⟩ := h.openAgain options
    have hone := hopened.neverAltered_iff hlen hplaced hr hst
    rw [hoptions] at hone
    rw [openSeries, forall_mem_cons, forall_mem_cons, hone, ih hopened]

end series

/-- A file set that has the file of `soleFile` as a sorted one, its
manifest just written. -/
def soleFileSet (onlyValue : Bool) : BlobFileSet :=
  ({ dbOptions := {}
     columnFamilies := Table.empty.insert 0 (soleStorage onlyValue)
     nextFileNumber := 6 } : BlobFileSet).snapshotted base128 4

theorem hasFile_sole :
    HasFile trailingZeros 0 (soleIndex true).fileNumber
      (addAll trailingZeros .kNoCompression true create [soleRecord]).2
      (soleFileSet true, soleDir true) where
  logged := ⟨_, tracks_snapshot _ 4⟩
  file := ⟨_, rfl, rfl, rfl⟩
  bytes := rfl

/-- A value written with `level_merge` on, which with the option off
reads as a record of an empty key: it comes back without its front. -/
theorem value_altered_by_reopen :
    ∃ state ∈ openSeries trailingZeros 0 (soleFileSet true, soleDir true)
        [({}, { levelMerge := false })],
      ∃ st, state.1.getBlobStorage 0 = some st ∧ soleRecord.value = [0, 1, 7]
        ∧ st.get trailingZeros state.2 (soleIndex true)
          = .ok { key := UserKey.empty, value := [7] } := by
  obtain ⟨hopened, st, hst, hoptions⟩ := hasFile_sole.openAgain ({}, { levelMerge := false })
  have hread := (@HasFile.read trailingZeros .kNoCompression 0
    (soleIndex true) soleRecord _ { levelMerge := true } _ hopened
    (by decide +kernel) (placed_soleRecord true) (by decide +kernel) st hst).1
  rw [hoptions] at hread
  exact ⟨_, mem_cons_self, st, hst, rfl, hread⟩

/-- Two later opens with the option as it was. -/
def sameOptions : List (TitanDBOptions × TitanCFOptions) :=
  [({}, { levelMerge := true }), ({ sepBeforeFlush := true }, { levelMerge := true })]

/-- In both of them the value stays. -/
theorem value_kept_by_reopens :
    (openSeries trailingZeros 0 (soleFileSet true, soleDir true) sameOptions).length = 2
      ∧ ∀ state ∈ openSeries trailingZeros 0 (soleFileSet true, soleDir true) sameOptions,
        NeverAltered trailingZeros 0 (soleIndex true) [0, 1, 7] state := by
  refine ⟨rfl, (values_across_opens_iff (r := soleRecord) hasFile_sole (by decide +kernel)
    (show Placed trailingZeros .kNoCompression
      (BlobWriter.tableBuilder.onlyValue { levelMerge := true }) _ _ _
      from placed_soleRecord true) (by decide +kernel) _).2 ?_⟩
  intro options hmem
  refine .inl ?_
  rcases mem_cons.1 hmem with rfl | hmem
  · rfl
  · cases mem_singleton.1 hmem
    rfl

end DiffKV
