/-
The decoders of `src/blob_format.cc` with the bytes they touch:
`BlobDecoder::DecodeHeader` and `DecodeRecord`, and
`BlobFileFooter::DecodeFrom`.

The readers of the base DB check that a slice is long enough. Three
places do not go through them: the checksum of a header is computed over
five bytes before anything has asked whether they are there; a record is
cut off by the size in its header; and the padding of a footer is skipped
by pointer arithmetic. The result is `none` where one of these leaves the
slice, and that of `BlobEncoding.lean` elsewhere.
-/
import DiffKV.BlobFileBytes

namespace DiffKV

open Lib

namespace BlobDecoder

/-- `BlobDecoder::DecodeHeader`. -/
def decodeHeader (src : Bytes) : Option (Except Status (RecordHeader × Bytes)) :=
  match getFixed32 src with
  | none => some (.error (.corruption "BlobHeader"))
  | some (_, rest) =>
    -- `crc32c::Value(src->data(), kRecordHeaderSize - 4)`
    if kRecordHeaderSize - 4 ≤ rest.length then some (Codec.decodeHeader src)
    else none

variable (K : Codec)

/-- `BlobDecoder::DecodeRecord`. -/
def decodeRecord (h : RecordHeader) (onlyValue : Bool) (src : Bytes) :
    Option (Except Status (BlobRecord × Option Bytes)) :=
  -- `Slice input(src->data(), record_size_)`
  if h.recordSize.toNat ≤ src.length then some (K.decodeRecord h onlyValue src)
  else none

/-- `DecodeHeader` on one slice, and then `DecodeRecord` on another. -/
def decode (onlyValue : Bool) (header body : Bytes) : Option (Except Status BlobRecord) :=
  match decodeHeader header with
  | none => none
  | some (.error s) => some (.error s)
  | some (.ok (h, _)) =>
    (decodeRecord K h onlyValue body).map (·.map Prod.fst)

end BlobDecoder

namespace BlobFileFooter

variable (K : Codec)

/-- What `BlockHandle::DecodeFrom` leaves of its input. -/
def afterHandle (src : Bytes) : Option Bytes :=
  match K.coding.getVarint64 src with
  | none => none
  | some (_, src) =>
    match K.coding.getVarint64 src with
    | none => none
    | some (_, rest) => some rest

/-- `BlobFileFooter::DecodeFrom`. -/
def decodeFrom (src : Bytes) : Option (Status × BlockHandle × Bytes) :=
  match afterHandle K src with
  | none => some (K.decodeFooter src)
  | some rest =>
    -- `remove_prefix(data + kEncodedLength - 12 - src->data())`
    if src.length - rest.length ≤ 20 ∧ 20 ≤ src.length then
      some (K.decodeFooter src)
    else none

end BlobFileFooter

end DiffKV
