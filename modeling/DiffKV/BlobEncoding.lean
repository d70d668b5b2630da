/-
The bytes of a blob file (`BlobEncoder`, `BlobDecoder`, `BlobRecord`,
`BlobFileHeader` and `BlobFileFooter` of `src/blob_format.{h,cc}`, and
`Compress`, `Uncompress` of `src/util.cc`).

A record has two layouts. The key layout writes key and value, each
behind its length; the value-only layout writes the bare value, with
nothing to tell where it ends but the size in the record's header. The
flag `only_value` of the C++ record is the argument `onlyValue` here:
writer and reader each bring their own.

What the code takes from the base DB is a `Codec`: varints, the running
checksum and one compressor per compression type. Of a compressor only
this is assumed: what it compressed, it restores.

A record's checksum is written and never compared: the comparison in
`BlobDecoder::DecodeRecord` is commented out.
-/
import DiffKV.BlobFile

namespace DiffKV

open Lib List

variable {onlyValue : Bool} {type : CompressionType} {src : Bytes} {r : BlobRecord}

-- ==== compression

/-- `rocksdb::CompressionType`. A header's byte is cast to it unchecked,
so a value may be none of the named ones. -/
inductive CompressionType where
  | kNoCompression
  | kSnappyCompression
  | kZlibCompression
  | kBZip2Compression
  | kLZ4Compression
  | kLZ4HCCompression
  | kXpressCompression
  | kZSTD
  | kZSTDNotFinalCompression
  | unrecognized (code : UInt8)
  deriving DecidableEq, Repr

namespace CompressionType

/-- The byte a header stores. -/
def code : CompressionType → UInt8
  | kNoCompression => 0
  | kSnappyCompression => 1
  | kZlibCompression => 2
  | kBZip2Compression => 3
  | kLZ4Compression => 4
  | kLZ4HCCompression => 5
  | kXpressCompression => 6
  | kZSTD => 7
  | kZSTDNotFinalCompression => 0x40
  | unrecognized code => code

/-- `static_cast<CompressionType>`. -/
def ofCode (code : UInt8) : CompressionType :=
  if code = 0 then kNoCompression
  else if code = 1 then kSnappyCompression
  else if code = 2 then kZlibCompression
  else if code = 3 then kBZip2Compression
  else if code = 4 then kLZ4Compression
  else if code = 5 then kLZ4HCCompression
  else if code = 6 then kXpressCompression
  else if code = 7 then kZSTD
  else if code = 0x40 then kZSTDNotFinalCompression
  else unrecognized code

/-- The types `Compress` and `Uncompress` have a case for, with the name
the case gives in its error. -/
def algorithm : CompressionType → Option String
  | kNoCompression => none
  | kSnappyCompression => some "Snappy"
  | kZlibCompression => some "Zlib"
  | kBZip2Compression => some "Bzip2"
  | kLZ4Compression => some "LZ4"
  | kLZ4HCCompression => some "LZ4HC"
  | kXpressCompression => some "Xpress"
  | kZSTD => some "ZSTD"
  | kZSTDNotFinalCompression => some "ZSTD"
  | unrecognized _ => none

/-- A type with an algorithm survives its byte, and so does the type of
bytes stored as they are. -/
theorem ofCode_code (h : type = kNoCompression ∨ type.algorithm ≠ none) :
    ofCode type.code = type := by
  cases type <;> first | rfl | simp [algorithm] at h

end CompressionType

/-- What the blob format takes from the base DB. -/
structure Codec where
  coding : Coding
  put64_length_le : ∀ v, (coding.putVarint64 v).length ≤ 10
  /-- `crc32c::Extend`. -/
  crc32cExtend : UInt32 → Bytes → UInt32
  /-- `Snappy_Compress` and its siblings; `none` where the type is not
  supported. -/
  tryCompress : CompressionType → Bytes → Option Bytes
  /-- `Snappy_Uncompress` and its siblings. -/
  tryUncompress : CompressionType → Bytes → Option Bytes
  uncompress_compress : ∀ {type input output},
    tryCompress type input = some output → tryUncompress type output = some input

/-- `GoodCompressionRatio`. -/
def goodCompressionRatio (compressedSize rawSize : Nat) : Bool :=
  compressedSize < rawSize - rawSize / 8

namespace Codec

variable (K : Codec)

/-- `crc32c::Value`. -/
def crc32cValue (data : Bytes) : UInt32 := K.crc32cExtend 0 data

/-- `Compress`: the bytes to store and the type they are stored under. -/
def compress (type : CompressionType) (input : Bytes) : Bytes × CompressionType :=
  if type = .kNoCompression then (input, type)
  else
    match type.algorithm, K.tryCompress type input with
    | some _, some output =>
      if goodCompressionRatio output.length input.length then (output, type)
      else (input, .kNoCompression)
    | _, _ => (input, .kNoCompression)

/-- `Uncompress`. -/
def uncompress (type : CompressionType) (input : Bytes) : Except Status Bytes :=
  match type.algorithm with
  | none => .error (.corruption "bad compression type")
  | some name =>
    match K.tryUncompress type input with
    | none => .error (.corruption ("Corrupted compressed blob: " ++ name))
    | some output => .ok output

/-- The outcomes of `Compress`: stored as is, or compressed under a type
that restores the input, in fewer bytes. -/
theorem compress_cases (type : CompressionType) (input : Bytes) :
    K.compress type input = (input, .kNoCompression)
      ∨ ∃ output, K.compress type input = (output, type) ∧ type ≠ .kNoCompression
          ∧ type.algorithm ≠ none ∧ output.length < input.length
          ∧ K.uncompress type output = .ok input := by
  unfold compress
  split
  case isTrue h => exact Or.inl (by rw [h])
  case isFalse hno =>
    split
    case h_2 => exact Or.inl rfl
    case h_1 name output halg hout =>
      split
      case isFalse => exact Or.inl rfl
      case isTrue hratio =>
        have hlt : output.length < input.length := by
          simp only [goodCompressionRatio, decide_eq_true_eq] at hratio
          omega
        refine Or.inr ⟨output, rfl, hno, by rw [halg]; simp, hlt, ?_⟩
        simp only [uncompress, halg, K.uncompress_compress hout]

end Codec

-- ==== records

namespace BlobRecord

/-- `BlobRecord::EncodeTo`. -/
def encodeTo (C : Coding) (onlyValue : Bool) (r : BlobRecord) : Bytes :=
  if onlyValue then r.value
  else r.key.put C ++ C.putLengthPrefixedSlice r.value

/-- `BlobRecord::DecodeFrom`. The value-only layout takes all there is
and leaves the key as it was. -/
def decodeFrom (C : Coding) (onlyValue : Bool) (src : Bytes) : Except Status (BlobRecord × Bytes) :=
  if onlyValue then .ok ({ key := UserKey.empty, value := src }, [])
  else
    match UserKey.get C src with
    | none => .error (.corruption "BlobRecord")
    | some (key, src) =>
      match C.getLengthPrefixedSlice src with
      | none => .error (.corruption "BlobRecord")
      | some (value, src) => .ok ({ key := key, value := value }, src)

/-- `DecodeInto` at a record: nothing may be left over. -/
def decodeInto (C : Coding) (onlyValue : Bool) (src : Bytes) : Except Status BlobRecord :=
  match decodeFrom C onlyValue src with
  | .error s => .error s
  | .ok (r, rest) => if rest.isEmpty then .ok r else .error (.corruption "")

theorem decodeInto_corruption {C : Coding} {s : Status}
    (h : decodeInto C onlyValue src = .error s) : s.IsCorruption := by
  unfold decodeInto at h
  split at h
  case h_1 s' hs =>
    cases h
    unfold decodeFrom at hs
    split at hs
    · cases hs
    · split at hs
      · cases hs
        exact ⟨_, rfl⟩
      · split at hs <;> cases hs
        exact ⟨_, rfl⟩
  case h_2 =>
    split at h <;> cases h
    exact ⟨_, rfl⟩

/-- What a record keeps of itself in a layout. -/
def stored (onlyValue : Bool) (r : BlobRecord) : BlobRecord :=
  if onlyValue then { key := UserKey.empty, value := r.value } else r

@[simp] theorem stored_value (onlyValue : Bool) (r : BlobRecord) :
    (r.stored onlyValue).value = r.value := by
  unfold stored
  split <;> rfl

/-- A record read back in the layout it was written in. -/
theorem decodeInto_encodeTo (C : Coding) (hr : (r.encodeTo C onlyValue).length < 2 ^ 32) :
    decodeInto C onlyValue (r.encodeTo C onlyValue) = .ok (r.stored onlyValue) := by
  cases onlyValue with
  | true => rfl
  | false =>
    simp only [encodeTo, Bool.false_eq_true, if_false, length_append] at hr
    have hvalue : r.value.length < 2 ^ 32 := by
      have hle := C.length_le_putLengthPrefixed r.value
      omega
    have hput := C.getLengthPrefixed_put hvalue []
    rw [append_nil] at hput
    simp only [decodeInto, decodeFrom, encodeTo, Bool.false_eq_true, if_false,
      UserKey.get_put, hput, stored, isEmpty_nil, if_true]

end BlobRecord

-- ==== encoder and decoder

/-- What `BlobEncoder::EncodeRecord` leaves in the encoder. -/
structure EncodedRecord where
  header : Bytes
  record : Bytes

namespace EncodedRecord

/-- The header and the record, as a file stores them. -/
def bytes (e : EncodedRecord) : Bytes := e.header ++ e.record

/-- `BlobEncoder::GetEncodedSize`. -/
def getEncodedSize (e : EncodedRecord) : UInt64 :=
  UInt64.ofNat (kRecordHeaderSize + e.record.length)

end EncodedRecord

/-- The fields `BlobDecoder::DecodeHeader` reads. -/
structure RecordHeader where
  crc : UInt32
  recordSize : UInt32
  compression : CompressionType

namespace Codec

variable (K : Codec) {s : Status}

/-- `BlobEncoder::EncodeRecord`. -/
def encodeRecord (type : CompressionType) (onlyValue : Bool) (r : BlobRecord) : EncodedRecord :=
  let stored := K.compress type (r.encodeTo K.coding onlyValue)
  let tail := putFixed32 (UInt32.ofNat stored.1.length) ++ [stored.2.code]
  let crc := K.crc32cExtend (K.crc32cValue tail) stored.1
  { header := putFixed32 crc ++ tail, record := stored.1 }

/-- `BlobDecoder::DecodeHeader`. -/
def decodeHeader (src : Bytes) : Except Status (RecordHeader × Bytes) :=
  match getFixed32 src with
  | none => .error (.corruption "BlobHeader")
  | some (crc, src) =>
    match getFixed32 src with
    | some (recordSize, compression :: src) =>
      .ok ({ crc := crc
             recordSize := recordSize
             compression := CompressionType.ofCode compression }, src)
    | _ => .error (.corruption "BlobHeader")

/-- `BlobDecoder::DecodeRecord`: the record and, if it was compressed,
the buffer it was restored to. -/
def decodeRecord (h : RecordHeader) (onlyValue : Bool) (src : Bytes) :
    Except Status (BlobRecord × Option Bytes) :=
  let input := src.take h.recordSize.toNat
  if h.compression = .kNoCompression then
    match BlobRecord.decodeInto K.coding onlyValue input with
    | .error s => .error s
    | .ok r => .ok (r, none)
  else
    match K.uncompress h.compression input with
    | .error s => .error s
    | .ok buffer =>
      match BlobRecord.decodeInto K.coding onlyValue buffer with
      | .error s => .error s
      | .ok r => .ok (r, some buffer)

theorem decodeHeader_error (h : decodeHeader src = .error s) : s.isOk = false := by
  unfold decodeHeader at h
  split at h
  · cases h
    rfl
  · split at h <;> cases h
    rfl

theorem uncompress_corruption {input : Bytes}
    (h : K.uncompress type input = .error s) : s.IsCorruption := by
  unfold uncompress at h
  split at h
  · cases h
    exact ⟨_, rfl⟩
  · split at h <;> cases h
    exact ⟨_, rfl⟩

theorem decodeRecord_error {header : RecordHeader}
    (h : K.decodeRecord header onlyValue src = .error s) : s.isOk = false := by
  unfold decodeRecord at h
  simp only at h
  split at h
  · split at h
    case h_1 hs =>
      cases h
      exact (BlobRecord.decodeInto_corruption hs).isOk
    case h_2 => cases h
  · split at h
    case h_1 hs =>
      cases h
      exact (K.uncompress_corruption hs).isOk
    case h_2 =>
      split at h
      case h_1 hs =>
        cases h
        exact (BlobRecord.decodeInto_corruption hs).isOk
      case h_2 => cases h

@[simp] theorem encodeRecord_header_length :
    (K.encodeRecord type onlyValue r).header.length = kRecordHeaderSize := by
  simp [encodeRecord, kRecordHeaderSize]

/-- Compression never makes a record longer. -/
theorem encodeRecord_record_length_le :
    (K.encodeRecord type onlyValue r).record.length ≤ (r.encodeTo K.coding onlyValue).length := by
  show (K.compress type (r.encodeTo K.coding onlyValue)).1.length ≤ _
  rcases K.compress_cases type (r.encodeTo K.coding onlyValue) with
    h | ⟨output, h, -, -, hlt, -⟩
  · rw [h]
  · rw [h]
    exact Nat.le_of_lt hlt

/-- The header's fields, as the decoder reads them. -/
def headerOf (type : CompressionType) (onlyValue : Bool) (r : BlobRecord) :
    RecordHeader :=
  let stored := K.compress type (r.encodeTo K.coding onlyValue)
  let tail := putFixed32 (UInt32.ofNat stored.1.length) ++ [stored.2.code]
  { crc := K.crc32cExtend (K.crc32cValue tail) stored.1
    recordSize := UInt32.ofNat stored.1.length
    compression := stored.2 }

/-- A header comes back, whatever follows it. -/
theorem decodeHeader_encodeRecord (rest : Bytes) :
    decodeHeader ((K.encodeRecord type onlyValue r).header ++ rest)
      = .ok (K.headerOf type onlyValue r, rest) := by
  have hcode : CompressionType.ofCode
      (K.compress type (r.encodeTo K.coding onlyValue)).2.code
        = (K.compress type (r.encodeTo K.coding onlyValue)).2 := by
    apply CompressionType.ofCode_code
    rcases K.compress_cases type (r.encodeTo K.coding onlyValue) with
      h | ⟨output, h, -, halg, -, -⟩
    · exact Or.inl (by rw [h])
    · exact Or.inr (by rw [h]; exact halg)
  simp only [decodeHeader, encodeRecord, headerOf, append_assoc,
    getFixed32_put, singleton_append, hcode]

/-- The size field of the header is the record's own. -/
theorem headerOf_recordSize (hr : (r.encodeTo K.coding onlyValue).length < 2 ^ 32) :
    (K.headerOf type onlyValue r).recordSize.toNat
      = (K.encodeRecord type onlyValue r).record.length := by
  have hle : (K.encodeRecord type onlyValue r).record.length ≤ _ := K.encodeRecord_record_length_le
  show (UInt32.ofNat (K.encodeRecord type onlyValue r).record.length).toNat = _
  exact Nat.mod_eq_of_lt (by omega)

/-- The bytes a record was decoded from: what the buffer holds, or the
input itself. -/
def plain (src : Bytes) (buffer : Option Bytes) : Bytes := buffer.getD src

/-- Out of its stored bytes a record is decoded from its own encoding,
whatever layout the reader takes it for. -/
theorem decodeRecord_encodeRecord (readAs : Bool)
    (hr : (r.encodeTo K.coding onlyValue).length < 2 ^ 32) (rest : Bytes) :
    ∃ buffer,
      K.decodeRecord (K.headerOf type onlyValue r) readAs
          ((K.encodeRecord type onlyValue r).record ++ rest)
        = (BlobRecord.decodeInto K.coding readAs (r.encodeTo K.coding onlyValue)).map (·, buffer)
      ∧ plain (K.encodeRecord type onlyValue r).record buffer = r.encodeTo K.coding onlyValue := by
  have htake : ((K.encodeRecord type onlyValue r).record ++ rest).take
      (K.headerOf type onlyValue r).recordSize.toNat
        = (K.encodeRecord type onlyValue r).record := by
    rw [K.headerOf_recordSize hr, take_left]
  unfold decodeRecord
  simp only [htake]
  rcases K.compress_cases type (r.encodeTo K.coding onlyValue) with
    h | ⟨output, h, hno, -, -, hout⟩
  · have hrecord : (K.encodeRecord type onlyValue r).record = r.encodeTo K.coding onlyValue := by
      show (K.compress type _).1 = _
      rw [h]
    have hcompression : (K.headerOf type onlyValue r).compression = .kNoCompression := by
      show (K.compress type _).2 = _
      rw [h]
    refine ⟨none, ?_, hrecord⟩
    rw [if_pos hcompression, hrecord]
    cases BlobRecord.decodeInto K.coding readAs (r.encodeTo K.coding onlyValue) <;> rfl
  · have hrecord : (K.encodeRecord type onlyValue r).record = output := by
      show (K.compress type _).1 = _
      rw [h]
    have hcompression : (K.headerOf type onlyValue r).compression = type := by
      show (K.compress type _).2 = _
      rw [h]
    refine ⟨some (r.encodeTo K.coding onlyValue), ?_, rfl⟩
    rw [hcompression, if_neg hno, hrecord, hout]
    dsimp only
    cases BlobRecord.decodeInto K.coding readAs (r.encodeTo K.coding onlyValue) <;> rfl

end Codec

-- ==== header and footer

/-- `BlobFileHeader::kHeaderMagicNumber`. -/
def kHeaderMagicNumber : UInt32 := 0x2be0a614

/-- `BlobFileHeader::kVersion1`. -/
def kVersion1 : UInt32 := 1

/-- `BlobFileFooter::kFooterMagicNumber`. -/
def kFooterMagicNumber : UInt64 := 0x2be0a6148e39edc6

/-- `rocksdb::BlockHandle`. -/
structure BlockHandle where
  offset : UInt64
  size : UInt64
  deriving DecidableEq, Repr

/-- `BlockHandle::NullBlockHandle()`. -/
def BlockHandle.null : BlockHandle := { offset := 0, size := 0 }

/-- `BlobFileHeader::EncodeTo` of a default header. -/
def encodeFileHeader : Bytes :=
  putFixed32 kHeaderMagicNumber ++ putFixed32 kVersion1

/-- `BlobFileHeader::DecodeFrom`. -/
def decodeFileHeader (src : Bytes) : Status :=
  match getFixed32 src with
  | none =>
    .corruption "Blob file header magic number missing or mismatched."
  | some (magic, src) =>
    if magic ≠ kHeaderMagicNumber then
      .corruption "Blob file header magic number missing or mismatched."
    else
      match getFixed32 src with
      | none => .corruption "Blob file header version missing or invalid."
      | some (version, _) =>
        if version ≠ kVersion1 then
          .corruption "Blob file header version missing or invalid."
        else .ok

@[simp] theorem encodeFileHeader_length : encodeFileHeader.length = kBlobHeaderSize.toNat := by
  rfl

theorem decodeFileHeader_encode : decodeFileHeader encodeFileHeader = .ok := by
  have hversion := getFixed32_put kVersion1 []
  rw [append_nil] at hversion
  simp [decodeFileHeader, encodeFileHeader, hversion]

namespace Codec

variable (K : Codec)

/-- A block handle padded to its longest encoding. -/
def paddedHandle (handle : BlockHandle) : Bytes :=
  (K.coding.putVarint64 handle.offset ++ K.coding.putVarint64 handle.size
      ++ List.replicate 20 0).take 20

/-- The part of the footer its checksum covers. -/
def footerBody (handle : BlockHandle) : Bytes :=
  K.paddedHandle handle ++ putFixed64 kFooterMagicNumber

/-- `BlobFileFooter::EncodeTo`. -/
def encodeFooter (handle : BlockHandle) : Bytes :=
  K.footerBody handle ++ putFixed32 (K.crc32cValue (K.footerBody handle))

/-- `BlockHandle::DecodeFrom`. -/
def decodeBlockHandle (src : Bytes) : Option BlockHandle :=
  match K.coding.getVarint64 src with
  | none => none
  | some (offset, src) =>
    match K.coding.getVarint64 src with
    | none => none
    | some (size, _) => some { offset := offset, size := size }

/-- `BlobFileFooter::DecodeFrom`: the status, the handle it leaves in
the footer, and what it leaves of the input. -/
def decodeFooter (src : Bytes) : Status × BlockHandle × Bytes :=
  match K.decodeBlockHandle src with
  | none =>
    (.corruption "BlobFileFooter: Corruption: bad block handle", BlockHandle.null, [])
  | some handle =>
    match getFixed64 (src.drop 20) with
    | none => (.corruption "BlobFileFooter: magic number", handle, [])
    | some (magic, rest) =>
      if magic ≠ kFooterMagicNumber then
        (.corruption "BlobFileFooter: magic number", handle, rest)
      else
        match getFixed32 rest with
        | none => (.corruption "BlobFileFooter: checksum", handle, rest)
        | some (checksum, rest) =>
          if K.crc32cValue (src.take 28) ≠ checksum then
            (.corruption "BlobFileFooter: checksum", handle, rest)
          else (.ok, handle, rest)

variable (handle : BlockHandle)

theorem paddedHandle_length : (K.paddedHandle handle).length = 20 := by
  unfold paddedHandle
  rw [length_take, length_append, length_replicate]
  omega

theorem footerBody_length : (K.footerBody handle).length = 28 := by
  rw [footerBody, length_append, paddedHandle_length, putFixed64_length]

@[simp] theorem encodeFooter_length : (K.encodeFooter handle).length = kBlobFooterSize.toNat := by
  rw [encodeFooter, length_append, footerBody_length, putFixed32_length]
  rfl

/-- Both varints fit the padded length, so the handle is read off its
front. -/
theorem decodeBlockHandle_padded (rest : Bytes) :
    K.decodeBlockHandle (K.paddedHandle handle ++ rest) = some handle := by
  have hoffset := K.put64_length_le handle.offset
  have hsize := K.put64_length_le handle.size
  have hpad : K.paddedHandle handle
      = K.coding.putVarint64 handle.offset ++ (K.coding.putVarint64 handle.size
          ++ (replicate 20 (0 : UInt8)).take (20
              - (K.coding.putVarint64 handle.offset
                  ++ K.coding.putVarint64 handle.size).length)) := by
    unfold paddedHandle
    rw [take_append, take_of_length_le, append_assoc]
    rw [length_append]
    omega
  unfold decodeBlockHandle
  rw [hpad, append_assoc, Coding.get_put64]
  simp only [append_assoc, Coding.get_put64]

/-- A footer comes back. -/
theorem decodeFooter_encode : K.decodeFooter (K.encodeFooter handle) = (.ok, handle, []) := by
  have hhandle : K.decodeBlockHandle (K.encodeFooter handle) = some handle := by
    rw [encodeFooter, footerBody, append_assoc]
    exact K.decodeBlockHandle_padded handle _
  have hdrop : (K.encodeFooter handle).drop 20
      = putFixed64 kFooterMagicNumber ++ putFixed32 (K.crc32cValue (K.footerBody handle)) := by
    rw [encodeFooter, footerBody, append_assoc]
    exact drop_left' (K.paddedHandle_length handle)
  have htake : (K.encodeFooter handle).take 28 = K.footerBody handle :=
    take_left' (K.footerBody_length handle)
  have hchecksum := getFixed32_put (K.crc32cValue (K.footerBody handle)) []
  rw [append_nil] at hchecksum
  unfold decodeFooter
  rw [hhandle, hdrop, htake]
  simp only [getFixed64_put, hchecksum, ne_eq, not_true_eq_false, if_false]

end Codec

end DiffKV
