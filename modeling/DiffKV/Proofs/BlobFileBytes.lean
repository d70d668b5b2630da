/-
Writer, reader and iterator of a blob file agree on its bytes.

`Placed` is the common ground: the encoding of a record lies in the file
where its handle says. Building a file places every record and later
appends keep it placed; reading a placed record returns it, in the
layout it was written in; and the iterator, which knows no handle, finds
the same places by the sizes in the record headers.

`Represents` ties the bytes to the record-level model of a blob file:
every record that model keeps under a handle is placed there.
-/
import DiffKV.BlobFileBytes

namespace DiffKV

open Lib List UInt64 BlobRecord BlobFileBuilder BlobFileReader

variable {file pre : Bytes} {r : BlobRecord} {h : BlobHandle}
  {reader : RandomAccessFileReader} {records : List BlobRecord}

-- ==== reading at a place

/-- A read that starts where a piece of the file starts returns the
piece. -/
theorem readAt_append {mid post : Bytes} {offset : UInt64} {n : Nat}
    (hoffset : offset.toNat = pre.length) (hn : n = mid.length) :
    readAt (pre ++ (mid ++ post)) offset n = mid := by
  unfold readAt
  rw [hoffset, drop_left, hn, take_left]

theorem toNat_ofNat_lt {n : Nat} (hn : n < 2 ^ 64) : (ofNat n).toNat = n := by
  exact Nat.mod_eq_of_lt hn

section placed

variable {K : Codec} {type : CompressionType} {onlyValue : Bool} {h' : BlobHandle} {r' : BlobRecord}

theorem encodeRecord_bytes_length :
    (K.encodeRecord type onlyValue r).bytes.length
      = kRecordHeaderSize + (K.encodeRecord type onlyValue r).record.length := by
  rw [EncodedRecord.bytes, length_append, Codec.encodeRecord_header_length]

theorem getEncodedSize_eq :
    (K.encodeRecord type onlyValue r).getEncodedSize
      = ofNat (K.encodeRecord type onlyValue r).bytes.length := by
  rw [encodeRecord_bytes_length]
  rfl

/-- The encoding of the record lies in the file where the handle
points. -/
def Placed (K : Codec) (type : CompressionType) (onlyValue : Bool)
    (file : Bytes) (h : BlobHandle) (r : BlobRecord) : Prop :=
  ∃ pre post, file = pre ++ ((K.encodeRecord type onlyValue r).bytes ++ post)
    ∧ h.offset = UInt64.ofNat pre.length
    ∧ h.size = (K.encodeRecord type onlyValue r).getEncodedSize

variable (hp : Placed K type onlyValue file h r)
include hp

/-- Appending to the file moves nothing. -/
theorem Placed.append (tail : Bytes) : Placed K type onlyValue (file ++ tail) h r := by
  obtain ⟨pre, post, rfl, hoffset, hsize⟩ := hp
  refine ⟨pre, post ++ tail, ?_, hoffset, hsize⟩
  simp only [append_assoc]

omit hp in
/-- The record just added is placed. -/
theorem placed_add (file : Bytes) (r : BlobRecord) :
    Placed K type onlyValue (add K type onlyValue file r).2 (add K type onlyValue file r).1 r :=
  ⟨file, [], by rw [append_nil]; rfl, rfl, rfl⟩

/-- Reading a placed record decodes what `EncodeRecord` made of it. -/
theorem Placed.readRecord_decode (hfile : file.length < 2 ^ 64) (readAs : Bool) :
    readRecord K file readAs h
      = (K.decodeRecord (K.headerOf type onlyValue r) readAs
          (K.encodeRecord type onlyValue r).record).map
        fun p => (p.1, Codec.plain (K.encodeRecord type onlyValue r).record p.2) := by
  obtain ⟨pre, post, rfl, hoffset, hsize⟩ := hp
  simp only [length_append] at hfile
  have hoff : h.offset.toNat = pre.length := by
    rw [hoffset]
    exact toNat_ofNat_lt (by omega)
  have hsz : h.size.toNat = (K.encodeRecord type onlyValue r).bytes.length := by
    rw [hsize, getEncodedSize_eq]
    exact toNat_ofNat_lt (by omega)
  have hread : readAt (pre ++ ((K.encodeRecord type onlyValue r).bytes ++ post))
      h.offset h.size.toNat = (K.encodeRecord type onlyValue r).bytes := readAt_append hoff hsz
  have hheader : Codec.decodeHeader ((K.encodeRecord type onlyValue r).header
      ++ (K.encodeRecord type onlyValue r).record)
        = .ok (K.headerOf type onlyValue r, (K.encodeRecord type onlyValue r).record) :=
    K.decodeHeader_encodeRecord _
  unfold readRecord
  simp only [hread]
  rw [if_neg (not_not.2 (by rw [hsize, getEncodedSize_eq]))]
  simp only [EncodedRecord.bytes, hheader]
  cases K.decodeRecord (K.headerOf type onlyValue r) readAs
    (K.encodeRecord type onlyValue r).record <;> rfl

/-- Reading a placed record decodes its encoding, in the layout the
reader takes it for. -/
theorem Placed.readRecord_as (hfile : file.length < 2 ^ 64)
    (hr : (r.encodeTo K.coding onlyValue).length < 2 ^ 32) (readAs : Bool) :
    readRecord K file readAs h
      = (decodeInto K.coding readAs (r.encodeTo K.coding onlyValue)).map
        fun r' => (r', r.encodeTo K.coding onlyValue) := by
  obtain ⟨buffer, hdecode, hplain⟩ : ∃ buffer,
      K.decodeRecord (K.headerOf type onlyValue r) readAs
          ((K.encodeRecord type onlyValue r).record ++ []) = _
      ∧ Codec.plain (K.encodeRecord type onlyValue r).record buffer
          = r.encodeTo K.coding onlyValue :=
    K.decodeRecord_encodeRecord readAs hr []
  rw [append_nil] at hdecode
  rw [hp.readRecord_decode hfile, hdecode]
  cases decodeInto K.coding readAs (r.encodeTo K.coding onlyValue) with
  | error e => rfl
  | ok r' => exact congrArg (fun blob => Except.ok (r', blob)) hplain

/-- A placed record is read back in the layout it was written in. -/
theorem Placed.readRecord (hfile : file.length < 2 ^ 64)
    (hr : (r.encodeTo K.coding onlyValue).length < 2 ^ 32) :
    readRecord K file onlyValue h = .ok (r.stored onlyValue, r.encodeTo K.coding onlyValue) := by
  rw [hp.readRecord_as hfile hr, decodeInto_encodeTo K.coding hr]
  rfl

/-- Two records placed at one offset have one handle: the header there
tells the size. -/
theorem Placed.handle_eq (hp' : Placed K type onlyValue file h' r') (hfile : file.length < 2 ^ 64)
    (hr : (r.encodeTo K.coding onlyValue).length < 2 ^ 32)
    (hr' : (r'.encodeTo K.coding onlyValue).length < 2 ^ 32)
    (hoffset : h.offset = h'.offset) : h = h' := by
  obtain ⟨pre, post, hsplit, hoff, hsize⟩ := hp
  obtain ⟨pre', post', hsplit', hoff', hsize'⟩ := hp'
  have hlen := congrArg length hsplit
  have hlen' := congrArg length hsplit'
  simp only [length_append] at hlen hlen'
  have hpre : pre.length = pre'.length := by
    have heq := congrArg toNat (hoff.symm.trans (hoffset.trans hoff'))
    rwa [toNat_ofNat_lt (by omega), toNat_ofNat_lt (by omega)] at heq
  have htail : (K.encodeRecord type onlyValue r).bytes ++ post
      = (K.encodeRecord type onlyValue r').bytes ++ post' :=
    (append_inj (hsplit.symm.trans hsplit') hpre).2
  -- both headers are read off the same bytes
  have hheader := congrArg Codec.decodeHeader htail
  simp only [EncodedRecord.bytes, append_assoc,
    Codec.decodeHeader_encodeRecord, Except.ok.injEq, Prod.mk.injEq] at hheader
  have hrecord := congrArg (fun x : RecordHeader => x.recordSize.toNat) hheader.1
  simp only [K.headerOf_recordSize hr, K.headerOf_recordSize hr'] at hrecord
  have hsizes : h.size = h'.size := by
    rw [hsize, hsize', getEncodedSize_eq, getEncodedSize_eq,
      encodeRecord_bytes_length, encodeRecord_bytes_length, hrecord]
  cases h
  cases h'
  simp only at hoffset hsizes
  rw [hoffset, hsizes]

end placed

-- ==== the whole file

/-- The handles lie one behind the other from `start` to `stop`. -/
def Contiguous (start : UInt64) : List BlobHandle → UInt64 → Prop
  | [], stop => start = stop
  | h :: hs, stop => h.offset = start ∧ Contiguous (start + h.size) hs stop

section build

variable (K : Codec) (type : CompressionType) (onlyValue : Bool) {body : Bytes}

/-- The bytes `Add` appends for a list of records. -/
def recordBytes (records : List BlobRecord) : Bytes :=
  records.flatMap fun r => (K.encodeRecord type onlyValue r).bytes

theorem recordBytes_append (rs rs' : List BlobRecord) :
    recordBytes K type onlyValue (rs ++ rs')
      = recordBytes K type onlyValue rs ++ recordBytes K type onlyValue rs' :=
  flatMap_append

/-- Every record takes its bytes. -/
theorem recordBytes_length_pos (h : records ≠ []) :
    0 < (recordBytes K type onlyValue records).length := by
  obtain ⟨r, rs, rfl⟩ := exists_cons_of_ne_nil h
  rw [recordBytes, flatMap_cons, length_append, encodeRecord_bytes_length, kRecordHeaderSize]
  omega

open BlobFileBuilder

theorem addAll_file (file : Bytes) (records : List BlobRecord) :
    (addAll K type onlyValue file records).2 = file ++ recordBytes K type onlyValue records := by
  induction records generalizing file with
  | nil => exact (append_nil file).symm
  | cons r rs ih =>
    show (addAll K type onlyValue (add K type onlyValue file r).2 rs).2 = _
    rw [ih]
    simp only [add, recordBytes, flatMap_cons, append_assoc]

theorem addAll_length (file : Bytes) (records : List BlobRecord) :
    (addAll K type onlyValue file records).1.length = records.length := by
  induction records generalizing file with
  | nil => rfl
  | cons r rs ih => exact congrArg Nat.succ (ih _)

theorem addAll_contiguous (file : Bytes) (records : List BlobRecord) :
    Contiguous (ofNat file.length) (addAll K type onlyValue file records).1
      (ofNat (addAll K type onlyValue file records).2.length) := by
  induction records generalizing file with
  | nil => exact rfl
  | cons r rs ih =>
    refine ⟨rfl, ?_⟩
    have hnext : ofNat file.length
        + (K.encodeRecord type onlyValue r).getEncodedSize
          = ofNat (add K type onlyValue file r).2.length := by
      rw [getEncodedSize_eq, ← ofNat_add, ← length_append]
      rfl
    show Contiguous (ofNat file.length + (K.encodeRecord type onlyValue r).getEncodedSize) _ _
    rw [hnext]
    exact ih _

/-- Every record of the list ends up placed under its handle. -/
theorem addAll_placed {p : BlobHandle × BlobRecord}
    (hp : p ∈ (addAll K type onlyValue file records).1.zip records) :
    Placed K type onlyValue (addAll K type onlyValue file records).2 p.1 p.2 := by
  induction records generalizing file with
  | nil => simp [addAll] at hp
  | cons r rs ih =>
    rcases mem_cons.1 hp with rfl | hp
    · show Placed K type onlyValue
        (addAll K type onlyValue (add K type onlyValue file r).2 rs).2 _ _
      rw [addAll_file]
      exact (placed_add file r).append _
    · exact ih hp

-- the footer of a finished file, as the reader and the iterator find it

theorem footer_offset (body : Bytes) :
    ofNat (finish K body).length - kBlobFooterSize = ofNat body.length := by
  have hsize : ofNat kBlobFooterSize.toNat = kBlobFooterSize := rfl
  rw [finish, length_append, Codec.encodeFooter_length, ofNat_add, hsize, UInt64.add_sub_cancel]

theorem readAt_footer (hfile : (finish K body).length < 2 ^ 64) :
    readAt (finish K body) (ofNat (finish K body).length - kBlobFooterSize) kBlobFooterSize.toNat
      = K.encodeFooter BlockHandle.null := by
  have hbody : body.length < 2 ^ 64 := by
    rw [finish, length_append] at hfile
    omega
  rw [footer_offset]
  have hread := @readAt_append body (K.encodeFooter BlockHandle.null) []
    _ kBlobFooterSize.toNat (toNat_ofNat_lt hbody) (K.encodeFooter_length _).symm
  rwa [append_nil] at hread

/-- A finished file opens. -/
theorem openFile_finish (hfile : (finish K body).length < 2 ^ 64) :
    openFile K (finish K body) (ofNat (finish K body).length) = .ok := by
  have hlong : ¬ ofNat (finish K body).length < kBlobFooterSize := by
    rw [lt_iff_toNat_lt, toNat_ofNat_lt hfile, finish, length_append, Codec.encodeFooter_length]
    omega
  unfold openFile
  rw [if_neg hlong, readAt_footer K hfile, Codec.decodeFooter_encode]
  rfl

end build

-- ==== cache

/-- The cache holds nothing but plain bytes of the placed records. A
cache that lost entries still does. -/
def Filled (K : Codec) (onlyValue : Bool)
    (placed : List (BlobHandle × BlobRecord)) : Option BlobCache → Prop
  | none => True
  | some entries => ∀ offset blob, entries offset = some blob →
      ∃ p ∈ placed, p.1.offset = offset ∧ blob = p.2.encodeTo K.coding onlyValue

/-- A read of a placed record returns it, from the cache or from the
file, and leaves the cache as it should be. -/
theorem get_placed {K : Codec} {type : CompressionType} {onlyValue : Bool}
    {placed : List (BlobHandle × BlobRecord)} (hfile : file.length < 2 ^ 64)
    (hplaced : ∀ p ∈ placed, Placed K type onlyValue file p.1 p.2)
    (hsize : ∀ p ∈ placed, (p.2.encodeTo K.coding onlyValue).length < 2 ^ 32)
    {cache : Option BlobCache} (hcache : Filled K onlyValue placed cache) (hmem : (h, r) ∈ placed) :
    (get K file onlyValue cache h).1 = .ok (r.stored onlyValue)
      ∧ Filled K onlyValue placed (get K file onlyValue cache h).2 := by
  have hread := (hplaced _ hmem).readRecord hfile (hsize _ hmem)
  unfold BlobFileReader.get
  split
  case h_1 blob hblob =>
    -- a hit: the entry is that of the record, as it has the same offset
    obtain ⟨entries, rfl, hentry⟩ := Option.bind_eq_some_iff.1 hblob
    obtain ⟨⟨h', r'⟩, hmem', hoffset, rfl⟩ := hcache _ _ hentry
    have hhandle : h' = h :=
      (hplaced _ hmem').handle_eq (hplaced _ hmem) hfile (hsize _ hmem') (hsize _ hmem) hoffset
    subst hhandle
    have hread' := (hplaced _ hmem').readRecord hfile (hsize _ hmem')
    have hsame : r'.encodeTo K.coding onlyValue = r.encodeTo K.coding onlyValue := by
      have heq := hread'.symm.trans hread
      simp only [Except.ok.injEq, Prod.mk.injEq] at heq
      exact heq.2
    refine ⟨?_, hcache⟩
    rw [hsame]
    exact decodeInto_encodeTo K.coding (hsize _ hmem)
  case h_2 =>
    rw [hread]
    refine ⟨rfl, ?_⟩
    cases cache with
    | none => exact trivial
    | some entries =>
      intro offset blob hentry
      simp only at hentry
      split at hentry
      case isTrue hoffset =>
        cases hentry
        exact ⟨(h, r), hmem, hoffset.symm, rfl⟩
      case isFalse => exact hcache offset blob hentry

-- ==== iterator

/-- Reads that end within the first `n` bytes of the file return what is
there. -/
def RandomAccessFileReader.Serves (reader : RandomAccessFileReader)
    (file : Bytes) (n : Nat) : Prop :=
  ∀ offset k, offset.toNat + k ≤ n → reader.read offset k = .ok (readAt file offset k)

theorem RandomAccessFileReader.serves_ofBytes (file : Bytes) (n : Nat) :
    (RandomAccessFileReader.ofBytes file).Serves file n := fun _ _ _ => rfl

namespace BlobFileIterator

variable {s : Status} {offset : UInt64} {post : Bytes}

variable {K : Codec} {type : CompressionType} {it : BlobFileIterator}

/-- A record that cannot be read leaves an error. -/
theorem isOk_of_readRecordAt_error
    (h : readRecordAt K reader offset = .error s) : s.isOk = false := by
  unfold readRecordAt at h
  split at h
  case h_1 hs =>
    cases h
    exact reader.failed _ _ _ hs
  case h_2 =>
    split at h
    case h_1 hs =>
      cases h
      exact Codec.decodeHeader_error hs
    case h_2 =>
      split at h
      case h_1 hs =>
        cases h
        exact reader.failed _ _ _ hs
      case h_2 =>
        split at h
        case h_1 hs =>
          cases h
          exact K.decodeRecord_error hs
        case h_2 => cases h

/-- A record that can be read is read from where it lies. -/
theorem readRecordAt_placed (hfile : file = pre ++ ((K.encodeRecord type false r).bytes ++ post))
    (hlen : file.length < 2 ^ 64)
    (hserve : reader.Serves file (pre ++ (K.encodeRecord type false r).bytes).length)
    (hoffset : offset = ofNat pre.length) (hr : (r.encodeTo K.coding false).length < 2 ^ 32) :
    readRecordAt K reader offset = .ok (K.headerOf type false r, r) := by
  have hsplit := congrArg length hfile
  simp only [length_append, encodeRecord_bytes_length] at hsplit hserve
  have hoff : offset.toNat = pre.length := by
    rw [hoffset]
    exact toNat_ofNat_lt (by omega)
  have hheaderAt : reader.read offset kRecordHeaderSize
      = .ok (K.encodeRecord type false r).header := by
    rw [hserve _ _ (by omega), hfile, EncodedRecord.bytes, append_assoc]
    exact congrArg Except.ok (readAt_append hoff K.encodeRecord_header_length.symm)
  have hheader : Codec.decodeHeader (K.encodeRecord type false r).header
      = .ok (K.headerOf type false r, []) := by
    have hdecode : Codec.decodeHeader ((K.encodeRecord type false r).header ++ []) = _ :=
      K.decodeHeader_encodeRecord []
    rwa [append_nil] at hdecode
  have hrecordSize : (K.headerOf type false r).recordSize.toNat
      = (K.encodeRecord type false r).record.length := K.headerOf_recordSize hr
  have hbehind : (offset + ofNat kRecordHeaderSize).toNat
      = (pre ++ (K.encodeRecord type false r).header).length := by
    rw [hoffset, ← ofNat_add, length_append, Codec.encodeRecord_header_length]
    exact toNat_ofNat_lt (by omega)
  have hrecordAt : reader.read (offset + ofNat kRecordHeaderSize)
      (K.headerOf type false r).recordSize.toNat = .ok (K.encodeRecord type false r).record := by
    have hwithin : (offset + ofNat kRecordHeaderSize).toNat
        + (K.headerOf type false r).recordSize.toNat
          ≤ pre.length + (kRecordHeaderSize + (K.encodeRecord type false r).record.length) := by
      rw [hbehind, hrecordSize, length_append, Codec.encodeRecord_header_length]
      omega
    rw [hserve _ _ hwithin, hfile, EncodedRecord.bytes, append_assoc, ← append_assoc]
    exact congrArg Except.ok (readAt_append hbehind hrecordSize)
  obtain ⟨buffer, hdecode, -⟩ : ∃ buffer,
      K.decodeRecord (K.headerOf type false r) false
          ((K.encodeRecord type false r).record ++ []) = _ ∧ _ :=
    K.decodeRecord_encodeRecord false hr []
  rw [append_nil, decodeInto_encodeTo K.coding hr] at hdecode
  unfold readRecordAt
  simp only [hheaderAt, hheader, hrecordAt, hdecode, Except.map]
  rfl

theorem prefetchAndGet_error (hgo : ¬ it.iterateOffset ≥ it.endOfBlobRecord)
    (hfail : readRecordAt K it.file it.iterateOffset = .error s) :
    prefetchAndGet K it = { it with status := s } := by
  rw [prefetchAndGet, if_neg hgo, getBlobRecord, hfail]

/-- The size of a record, as its header gives it. -/
theorem headerOf_size (hr : (r.encodeTo K.coding false).length < 2 ^ 32) :
    ofNat kRecordHeaderSize + (K.headerOf type false r).recordSize.toUInt64
      = (K.encodeRecord type false r).getEncodedSize := by
  have hrecordSize : (K.headerOf type false r).recordSize.toNat
      = (K.encodeRecord type false r).record.length := K.headerOf_recordSize hr
  have hwide : (K.headerOf type false r).recordSize.toUInt64
      = ofNat (K.encodeRecord type false r).record.length := by
    rw [← hrecordSize]
    apply UInt64.toNat_inj.1
    have hlt := (K.headerOf type false r).recordSize.toNat_lt
    rw [UInt32.toNat_toUInt64, toNat_ofNat_lt (by omega)]
  rw [hwide, ← ofNat_add]
  rfl

/-- The iterator stands before a record: it reads the record and moves
behind it. -/
theorem getBlobRecord_at (hfile : file = pre ++ ((K.encodeRecord type false r).bytes ++ post))
    (hlen : file.length < 2 ^ 64) (hserve : it.file.Serves file
      (pre ++ (K.encodeRecord type false r).bytes).length)
    (hoffset : it.iterateOffset = ofNat pre.length)
    (hr : (r.encodeTo K.coding false).length < 2 ^ 32) : getBlobRecord K it = { it with
      status := .ok
      curBlobRecord := r
      curRecordOffset := ofNat pre.length
      curRecordSize := (K.encodeRecord type false r).getEncodedSize
      iterateOffset := ofNat (pre ++ (K.encodeRecord type false r).bytes).length
      valid := true } := by
  have hnext : it.iterateOffset + (K.encodeRecord type false r).getEncodedSize
      = ofNat (pre ++ (K.encodeRecord type false r).bytes).length := by
    rw [hoffset, getEncodedSize_eq, ← ofNat_add, length_append]
  unfold getBlobRecord
  rw [readRecordAt_placed hfile hlen hserve hoffset hr]
  simp only [headerOf_size hr, hnext]
  rw [← hoffset]

/-- From before the first of some records, the iterator visits them all,
each under the handle it was added with. Its status is the one it finds
behind them, where it visits nothing more. -/
theorem yields_records (records : List BlobRecord)
    (hfile : file = pre ++ (recordBytes K type false records ++ post))
    (hlen : file.length < 2 ^ 64) (hserve : it.file.Serves file
      (pre ++ recordBytes K type false records).length)
    (hoffset : it.iterateOffset = ofNat pre.length)
    (hend : (pre ++ recordBytes K type false records).length
      ≤ it.endOfBlobRecord.toNat) (hstatus : it.status = .ok)
    (hsize : ∀ r ∈ records, (r.encodeTo K.coding false).length < 2 ^ 32)
    (hrest : ∀ it' : BlobFileIterator, it'.file = it.file →
      it'.endOfBlobRecord = it.endOfBlobRecord → it'.status = .ok →
      it'.iterateOffset = ofNat (pre ++ recordBytes K type false records).length →
      Yields K (prefetchAndGet K it') [] s) :
    Yields K (prefetchAndGet K it)
      (((addAll K type false pre records).1.zip records).map
        fun p => ({ fileNumber := it.fileNumber, blobHandle := p.1 }, p.2))
      s := by
  induction records generalizing it pre with
  | nil =>
    refine hrest it rfl rfl hstatus ?_
    rw [hoffset]
    simp [recordBytes]
  | cons r rs ih =>
    have hbytes : recordBytes K type false (r :: rs)
        = (K.encodeRecord type false r).bytes ++ recordBytes K type false rs := flatMap_cons
    rw [hbytes] at hfile hend hserve hrest
    rw [append_assoc] at hfile
    rw [← append_assoc] at hend hserve hrest
    have hsplit := congrArg length hfile
    simp only [length_append, encodeRecord_bytes_length, kRecordHeaderSize] at hsplit
    have hgo : ¬ it.iterateOffset ≥ it.endOfBlobRecord := by
      simp only [length_append, encodeRecord_bytes_length, kRecordHeaderSize] at hend
      rw [hoffset, ge_iff_le, le_iff_toNat_le, toNat_ofNat_lt (by omega)]
      omega
    have hget := getBlobRecord_at hfile hlen
      (fun offset k hk => hserve offset k (hk.trans (by simp only [length_append]; omega)))
      hoffset (hsize r mem_cons_self)
    rw [prefetchAndGet, if_neg hgo, hget]
    refine Yields.more rfl ?_
    -- behind the record, the rest of the file is that of the others
    exact ih (hfile.trans (append_assoc _ _ _).symm) hserve rfl hend rfl
      (fun r' hr' => hsize r' (mem_cons_of_mem _ hr')) hrest

/-- Seeking to the front of a file whose header and footer can be read
starts behind the header. -/
theorem seekToFirst_reads (fileNumber : UInt64) {fileSize : UInt64}
    (hheader : reader.read 0 kBlobHeaderSize.toNat = .ok encodeFileHeader)
    (hfooter : reader.read (fileSize - kBlobFooterSize) kBlobFooterSize.toNat
      = .ok (K.encodeFooter BlockHandle.null)) :
    seekToFirst K (create reader fileNumber fileSize)
      = prefetchAndGet K { create reader fileNumber fileSize with
          status := .ok
          init := true
          endOfBlobRecord := fileSize - kBlobFooterSize
          iterateOffset := kBlobHeaderSize } := by
  simp only [seekToFirst, initIterator, create, hheader, hfooter,
    decodeFileHeader_encode, Codec.decodeFooter_encode, BlockHandle.null,
    Status.isOk_ok, if_true, if_false, Bool.false_eq_true, sub_zero]

end BlobFileIterator

namespace BlobFileBuilder

variable {K : Codec} {type : CompressionType} {onlyValue : Bool}

theorem addAll_take (file : Bytes) (records : List BlobRecord) (k : Nat) :
    (addAll K type onlyValue file (records.take k)).1
      = (addAll K type onlyValue file records).1.take k := by
  induction records generalizing file k with
  | nil =>
    rw [take_nil]
    exact take_nil.symm
  | cons r rs ih =>
    cases k with
    | zero => rfl
    | succ k => exact congrArg (cons _) (ih _ k)

theorem build_file (records : List BlobRecord) :
    (build K type onlyValue records).2
      = create ++ (recordBytes K type onlyValue records ++ K.encodeFooter BlockHandle.null) := by
  show finish K (addAll K type onlyValue create records).2 = _
  rw [addAll_file, finish, append_assoc]

theorem build_end (records : List BlobRecord) :
    ofNat (build K type onlyValue records).2.length - kBlobFooterSize
      = ofNat (create ++ recordBytes K type onlyValue records).length := by
  show ofNat (finish K (addAll K type onlyValue create records).2).length - kBlobFooterSize = _
  rw [footer_offset, addAll_file]

end BlobFileBuilder

/-- A reader of a built file that reads back its first `k` records. If
there is another one, it cannot be read. -/
structure ReadableTo (K : Codec) (type : CompressionType)
    (records : List BlobRecord) (reader : RandomAccessFileReader) (k : Nat) :
    Prop where
  serves : reader.Serves (BlobFileBuilder.build K type false records).2
    (BlobFileBuilder.create ++ recordBytes K type false (records.take k)).length
  footer : reader.read
      (UInt64.ofNat (BlobFileBuilder.build K type false records).2.length
        - kBlobFooterSize) kBlobFooterSize.toNat
    = .ok (K.encodeFooter BlockHandle.null)
  stops : k < records.length → ∃ s,
    BlobFileIterator.readRecordAt K reader
      (UInt64.ofNat (BlobFileBuilder.create ++ recordBytes K type false
        (records.take k)).length) = .error s

/-- What the iterator returns for the records of a built file. -/
def builtItems (K : Codec) (type : CompressionType) (fileNumber : UInt64)
    (records : List BlobRecord) : List (BlobIndex × BlobRecord) :=
  ((BlobFileBuilder.build K type false records).1.zip records).map fun p =>
    ({ fileNumber := fileNumber, blobHandle := p.1 }, p.2)

namespace ReadableTo

variable {K : Codec} {type : CompressionType} {k : Nat}

/-- The file as it was built can be read to its end. -/
theorem built (hfits : (build K type false records).2.length < 2 ^ 64) :
    ReadableTo K type records (build K type false records).2 records.length where
  serves := RandomAccessFileReader.serves_ofBytes _ _
  footer := congrArg Except.ok (readAt_footer K hfits)
  stops h := absurd h (Nat.lt_irrefl _)

/-- The iterator visits the records that can be read. It ends with OK
exactly if these are all. -/
theorem yields (h : ReadableTo K type records reader k)
    (hsize : ∀ r ∈ records, (r.encodeTo K.coding false).length < 2 ^ 32)
    (hfits : (build K type false records).2.length < 2 ^ 64) (fileNumber : UInt64) :
    ∃ s, BlobFileIterator.Yields K
        (BlobFileIterator.seekToFirst K (BlobFileIterator.create reader
          fileNumber (ofNat (build K type false records).2.length)))
        ((builtItems K type fileNumber records).take k) s
      ∧ (s.isOk = true ↔ records.length ≤ k) := by
  have hcut : recordBytes K type false records
      = recordBytes K type false (records.take k) ++ recordBytes K type false (records.drop k) := by
    rw [← recordBytes_append, take_append_drop]
  have hfile : (build K type false records).2
      = create ++ (recordBytes K type false (records.take k)
        ++ (recordBytes K type false (records.drop k) ++ K.encodeFooter BlockHandle.null)) := by
    rw [build_file, hcut, append_assoc]
  have hlength := congrArg length hfile
  simp only [length_append] at hlength
  have hend : (ofNat (build K type false
      records).2.length - kBlobFooterSize).toNat
        = (create ++ recordBytes K type false (records.take k)).length
        + (recordBytes K type false (records.drop k)).length := by
    rw [build_end, hcut, ← append_assoc,
      toNat_ofNat_lt (by simp only [length_append]; omega), length_append]
  have hheader : reader.read 0 kBlobHeaderSize.toNat = .ok encodeFileHeader := by
    have hwithin : (0 : UInt64).toNat + kBlobHeaderSize.toNat
        ≤ (create ++ recordBytes K type false (records.take k)).length := by
      rw [length_append, create, encodeFileHeader_length]
      exact Nat.le_trans (Nat.le_of_eq (Nat.zero_add _)) (Nat.le_add_right _ _)
    rw [h.serves _ _ hwithin, hfile]
    exact congrArg Except.ok (@readAt_append [] encodeFileHeader _ 0 _ rfl
      encodeFileHeader_length.symm)
  have hitems : (builtItems K type fileNumber records).take k
      = ((addAll K type false create (records.take k)).1.zip (records.take k)).map fun p =>
            ({ fileNumber := fileNumber, blobHandle := p.1 }, p.2) := by
    rw [addAll_take, zip, ← take_zipWith, map_take]
    rfl
  rw [BlobFileIterator.seekToFirst_reads fileNumber hheader h.footer, hitems]
  -- behind the readable records stands the footer or a broken record
  by_cases hk : k < records.length
  · obtain ⟨s, hs⟩ := h.stops hk
    have hbad := BlobFileIterator.isOk_of_readRecordAt_error hs
    refine ⟨s, BlobFileIterator.yields_records (records.take k) hfile hfits
      h.serves rfl (by rw [hend]; exact Nat.le_add_right _ _) rfl
      (fun r hr => hsize r (mem_of_mem_take hr)) ?_, ?_⟩
    · intro it' hreader hstop _ hoffset
      have hmore := recordBytes_length_pos K type false (show records.drop k ≠ [] by simpa using hk)
      have hgo : ¬ it'.iterateOffset ≥ it'.endOfBlobRecord := by
        rw [hstop, hoffset, ge_iff_le, le_iff_toNat_le, hend,
          toNat_ofNat_lt (by simp only [length_append]; omega)]
        omega
      have hfail : BlobFileIterator.readRecordAt K it'.file it'.iterateOffset = .error s := by
        rw [hreader, hoffset]
        exact hs
      rw [BlobFileIterator.prefetchAndGet_error hgo hfail]
      exact .done (by simp [BlobFileIterator.isValid, hbad])
    · simp only [hbad, Bool.false_eq_true, false_iff]
      omega
  · have hnone : records.drop k = [] := drop_eq_nil_of_le (by omega)
    refine ⟨.ok, BlobFileIterator.yields_records (records.take k) hfile hfits
      h.serves rfl (by rw [hend]; exact Nat.le_add_right _ _) rfl
      (fun r hr => hsize r (mem_of_mem_take hr)) ?_, ?_⟩
    · intro it' _ hstop hstatus hoffset
      have hover : it'.iterateOffset ≥ it'.endOfBlobRecord := by
        rw [hstop, hoffset, ge_iff_le, le_iff_toNat_le, hend, hnone,
          toNat_ofNat_lt (by simp only [length_append]; omega)]
        exact Nat.le_refl _
      rw [BlobFileIterator.prefetchAndGet, if_pos hover, ← hstatus]
      exact .done rfl
    · simp only [Status.isOk_ok, true_iff]
      omega

end ReadableTo

-- ==== the file

/-- A file built from records of one layout. Its handles lie one behind
the other between header and footer; it opens; every handle reads back
its record, with the cache or without; and in the key layout the
iterator visits the records in order, each at its handle. -/
theorem built_file_reads_back (K : Codec) (type : CompressionType)
    (onlyValue : Bool) (records : List BlobRecord)
    (hsize : ∀ r ∈ records, (r.encodeTo K.coding onlyValue).length < 2 ^ 32)
    (hfits : (BlobFileBuilder.build K type onlyValue records).2.length < 2 ^ 64)
    (fileNumber : UInt64) :
    let handles := (BlobFileBuilder.build K type onlyValue records).1
    let file := (BlobFileBuilder.build K type onlyValue records).2
    let fileSize := UInt64.ofNat file.length
    handles.length = records.length
      ∧ Contiguous kBlobHeaderSize handles (fileSize - kBlobFooterSize)
      ∧ BlobFileReader.openFile K file fileSize = .ok
      ∧ (∀ cache, Filled K onlyValue (handles.zip records) cache →
          ∀ p ∈ handles.zip records,
            (BlobFileReader.get K file onlyValue cache p.1).1 = .ok (p.2.stored onlyValue)
              ∧ Filled K onlyValue (handles.zip records)
                  (BlobFileReader.get K file onlyValue cache p.1).2)
      ∧ (onlyValue = false →
          BlobFileIterator.Yields K
            (BlobFileIterator.seekToFirst K (BlobFileIterator.create file fileNumber fileSize))
            ((handles.zip records).map fun p =>
              ({ fileNumber := fileNumber, blobHandle := p.1 }, p.2))
            .ok) := by
  intro handles file fileSize
  have hheader : ofNat create.length = kBlobHeaderSize := by
    rfl
  have hplaced : ∀ p ∈ handles.zip records, Placed K type onlyValue file p.1 p.2 := fun p hp =>
    (addAll_placed K type onlyValue hp).append _
  refine ⟨addAll_length K type onlyValue _ records, ?_, openFile_finish K hfits, ?_, ?_⟩
  · show Contiguous kBlobHeaderSize handles (ofNat
      (finish K (addAll K type onlyValue create records).2).length - kBlobFooterSize)
    rw [footer_offset, ← hheader]
    exact addAll_contiguous K type onlyValue _ records
  · intro cache hcache p hp
    exact get_placed hfits hplaced (fun q hq => hsize q.2 (of_mem_zip hq).2) hcache hp
  · intro hkeys
    subst hkeys
    obtain ⟨s, hyields, hs⟩ := (ReadableTo.built hfits).yields hsize hfits fileNumber
    have hall : (builtItems K type fileNumber records).take records.length
        = builtItems K type fileNumber records := take_of_length_le (by
        rw [builtItems, length_map, length_zip]
        exact Nat.min_le_right _ _)
    rw [hall, Status.isOk_iff.1 (hs.2 (Nat.le_refl _))] at hyields
    exact hyields

/-- A codec that stores a run of zeros at the end as its length. -/
def trailingZeros : Codec where
  coding := base128
  put64_length_le v := putBase128_length_le 10 v.toNat
  crc32cExtend crc data := data.foldl (fun c b => c + b.toUInt32) crc
  tryCompress _ input :=
    let rest := (input.reverse.dropWhile (· = 0)).reverse
    let n := UInt8.ofNat (input.length - rest.length)
    if rest ++ List.replicate n.toNat 0 = input then some (n :: rest) else none
  tryUncompress _ input :=
    match input with
    | [] => none
    | n :: rest => some (rest ++ List.replicate n.toNat 0)
  uncompress_compress := by
    intro type input output h
    simp only at h
    split at h
    case isFalse => cases h
    case isTrue hrest =>
      cases h
      exact congrArg some hrest

/-- Two records, of which only the second compresses well. -/
def twoRecords : List BlobRecord :=
  [{ key := ⟨[1], by decide⟩, value := [7, 8, 9] },
    { key := ⟨[2], by decide⟩, value := List.replicate 40 0 }]

theorem twoRecords_read_back :
    (BlobFileBuilder.build trailingZeros .kSnappyCompression false
        twoRecords).1 = [⟨8, 15⟩, ⟨23, 13⟩]
      ∧ (BlobFileReader.get trailingZeros
          (BlobFileBuilder.build trailingZeros .kSnappyCompression false
            twoRecords).2 false none ⟨23, 13⟩).1
        = .ok { key := ⟨[2], by decide⟩, value := List.replicate 40 0 } := by
  have hhandles : (build trailingZeros .kSnappyCompression
      false twoRecords).1 = [⟨8, 15⟩, ⟨23, 13⟩] := by decide +kernel
  refine ⟨hhandles, ?_⟩
  have hread := (built_file_reads_back trailingZeros .kSnappyCompression false
    twoRecords (by decide +kernel) (by decide +kernel) 5).2.2.2.1 none trivial
    (⟨23, 13⟩, { key := ⟨[2], by decide⟩, value := replicate 40 0 })
  exact (hread (by decide +kernel)).1

-- ==== the record-level model

/-- The bytes hold what the record-level model of the file says: it has
their size, and its records are placed. -/
structure Represents (K : Codec) (type : CompressionType) (onlyValue : Bool)
    (f : BlobFile) (file : Bytes) : Prop where
  size : f.size = UInt64.ofNat file.length
  placed : ∀ p ∈ f.records, Placed K type onlyValue file p.1 p.2

namespace Represents

variable {K : Codec} {type : CompressionType} {onlyValue : Bool} {f f' : BlobFile}

theorem header : Represents K type onlyValue BlobFile.header create where
  size := by
    rfl
  placed := fun _ hp => nomatch hp

/-- `Add` gives the same handle in both models. -/
theorem add (hf : Represents K type onlyValue f file)
    (hadd : f.add (fun r => (K.encodeRecord type onlyValue r).getEncodedSize) r = some (h, f')) :
    (add K type onlyValue file r).1 = h
      ∧ Represents K type onlyValue f' (add K type onlyValue file r).2 := by
  unfold BlobFile.add at hadd
  split at hadd
  case isFalse => cases hadd
  case isTrue =>
    obtain ⟨rfl, rfl⟩ := hadd
    have hhandle : (add K type onlyValue file r).1
        = f.nextHandle (fun r => (K.encodeRecord type onlyValue r).getEncodedSize) r := by
      rw [BlobFile.nextHandle, hf.size]
      rfl
    refine ⟨hhandle, ?_, ?_⟩
    · show f.size + (K.encodeRecord type onlyValue r).getEncodedSize = _
      rw [hf.size, getEncodedSize_eq, ← ofNat_add, ← length_append]
      rfl
    · intro p hp
      rcases mem_append.1 hp with hp | hp
      · exact (hf.placed p hp).append _
      · rw [mem_singleton] at hp
        subst hp
        rw [← hhandle]
        exact placed_add file r

/-- What the record-level model finds under a handle, the bytes give. -/
theorem find (hf : Represents K type onlyValue f file) (hlen : file.length < 2 ^ 64)
    (hr : (r.encodeTo K.coding onlyValue).length < 2 ^ 32) (hfind : f.find h = some r) :
    readRecord K file onlyValue h = .ok (r.stored onlyValue, r.encodeTo K.coding onlyValue) :=
  (hf.placed _ (BlobFile.mem_of_find hfind)).readRecord hlen hr

end Represents

end DiffKV
