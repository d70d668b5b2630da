/-
What the decoders of the blob format make of bytes nobody vouches for.

A decoder that is given too few bytes should say so.
`decode_inside_iff` and `decodeFrom_inside_iff` say for which inputs the
decoders stay inside their slices.

The checksum of a record is read from its header and compared with
nothing. Whether altered bytes are refused is decided by their structure
alone (`Malformed`), and so it is by each of the readers.
-/
import DiffKV.BlobDecoder
import DiffKV.BlobRead
import DiffKV.Proofs.BlobFileBytes

namespace DiffKV

open Lib List BlobFileIterator UInt64 BlobRecord BlobFileReader

variable {K : Codec} {onlyValue : Bool} {rest : Bytes}

namespace Codec

/-- The bytes a record is stored as give these back. -/
def Restores (K : Codec) (type : CompressionType) (stored plain : Bytes) :
    Prop :=
  if type = .kNoCompression then plain = stored
  else K.uncompress type stored = .ok plain

/-- `DecodeRecord` restores the bytes and decodes them as one record, or
fails with a corruption. -/
theorem decodeRecord_cases (K : Codec) (h : RecordHeader) (onlyValue : Bool) (src : Bytes) :
    (∃ r buffer plain, K.decodeRecord h onlyValue src = .ok (r, buffer)
        ∧ K.Restores h.compression (src.take h.recordSize.toNat) plain
        ∧ decodeInto K.coding onlyValue plain = .ok r)
      ∨ ∃ s, K.decodeRecord h onlyValue src = .error s ∧ s.IsCorruption
        ∧ ∀ plain r, K.Restores h.compression (src.take h.recordSize.toNat) plain →
          decodeInto K.coding onlyValue plain ≠ .ok r := by
  unfold decodeRecord Restores
  by_cases hno : h.compression = .kNoCompression
  case pos =>
    simp only [hno, if_true]
    cases hdecode : decodeInto K.coding onlyValue (src.take h.recordSize.toNat) with
    | error s =>
      refine .inr ⟨s, rfl, decodeInto_corruption hdecode, ?_⟩
      rintro plain r rfl
      rw [hdecode]
      exact nofun
    | ok r => exact .inl ⟨r, none, _, rfl, rfl, hdecode⟩
  case neg =>
    simp only [hno, if_false]
    cases hplain : K.uncompress h.compression (src.take h.recordSize.toNat) with
    | error s =>
      refine .inr ⟨s, rfl, K.uncompress_corruption hplain, ?_⟩
      intro plain r hrestores
      cases hrestores
    | ok buffer =>
      dsimp only
      cases hdecode : decodeInto K.coding onlyValue buffer with
      | error s =>
        refine .inr ⟨s, rfl, decodeInto_corruption hdecode, ?_⟩
        intro plain r hrestores
        cases hrestores
        rw [hdecode]
        exact nofun
      | ok r => exact .inl ⟨r, some buffer, buffer, rfl, rfl, hdecode⟩

theorem decodeFooter_corruption (K : Codec) (src : Bytes) :
    (K.decodeFooter src).1 = .ok ∨ (K.decodeFooter src).1.IsCorruption := by
  unfold decodeFooter
  split
  case h_1 => exact .inr ⟨_, rfl⟩
  case h_2 =>
    split
    case h_1 => exact .inr ⟨_, rfl⟩
    case h_2 =>
      split
      case isTrue => exact .inr ⟨_, rfl⟩
      case isFalse =>
        split
        case h_1 => exact .inr ⟨_, rfl⟩
        case h_2 =>
          split
          case isTrue => exact .inr ⟨_, rfl⟩
          case isFalse => exact .inl rfl

/-- Nine bytes are a header, whatever follows. -/
theorem decodeHeader_append {p : Bytes} (hp : p.length = kRecordHeaderSize) :
    ∃ header, ∀ rest, decodeHeader (p ++ rest) = .ok (header, rest) := by
  have hcrc : (p.take 4).length = 4 := by
    rw [length_take, hp]
    rfl
  have hsize : ((p.drop 4).take 4).length = 4 := by
    rw [length_take, length_drop, hp]
    rfl
  obtain ⟨c, hc⟩ : ∃ c, p.drop 8 = [c] := by
    rw [← length_eq_one_iff, length_drop, hp]
    rfl
  obtain ⟨crc, hgetCrc⟩ := getFixed32_append hcrc
  obtain ⟨size, hgetSize⟩ := getFixed32_append hsize
  have hsplit : p = p.take 4 ++ ((p.drop 4).take 4 ++ [c]) := by
    have hdrop : (p.drop 4).drop 4 = p.drop 8 := drop_drop
    rw [← hc, ← hdrop, take_append_drop, take_append_drop]
  refine ⟨{ crc, recordSize := size
            compression := CompressionType.ofCode c }, fun rest => ?_⟩
  rw [hsplit, append_assoc, append_assoc, decodeHeader, hgetCrc]
  dsimp only
  rw [hgetSize]
  rfl

/-- `DecodeRecord` looks at no more than the size in the header. -/
theorem decodeRecord_take (K : Codec) (h : RecordHeader) (onlyValue : Bool) (src : Bytes) :
    K.decodeRecord h onlyValue (src.take h.recordSize.toNat) = K.decodeRecord h onlyValue src := by
  unfold decodeRecord
  rw [take_take, Nat.min_self]

end Codec

-- ==== the bounds

/-- The decoder stayed inside its slices, and what it refused it reported
as a corruption. -/
def Inside {α : Type*} (result : Option (Except Status α)) : Prop :=
  ∃ x, result = some x ∧ ∀ s, x = .error s → s.IsCorruption

namespace BlobDecoder

/-- Fewer than four bytes are refused; from four to eight are not enough
for the checksum. -/
theorem decodeHeader_cases (src : Bytes) :
    (src.length < 4 ∧ decodeHeader src = some (.error (.corruption "BlobHeader")))
      ∨ (4 ≤ src.length ∧ src.length < kRecordHeaderSize ∧ decodeHeader src = none)
      ∨ (kRecordHeaderSize ≤ src.length
        ∧ ∃ h, Codec.decodeHeader src = .ok (h, src.drop kRecordHeaderSize)
          ∧ decodeHeader src = some (.ok (h, src.drop kRecordHeaderSize))) := by
  by_cases hshort : src.length < 4
  case pos =>
    refine .inl ⟨hshort, ?_⟩
    rw [decodeHeader, getFixed32_of_short hshort]
  case neg =>
    have hfour : (src.take 4).length = 4 := by
      rw [length_take]
      omega
    obtain ⟨crc, hcrc⟩ := getFixed32_append hfour
    have hget : getFixed32 src = some (crc, src.drop 4) := by
      rw [← hcrc (src.drop 4), take_append_drop]
    refine .inr ?_
    unfold decodeHeader
    rw [hget]
    dsimp only
    by_cases hnine : kRecordHeaderSize ≤ src.length
    case neg =>
      refine .inl ⟨by omega, by omega, if_neg ?_⟩
      rw [length_drop]
      omega
    case pos =>
      have hlength : (src.take kRecordHeaderSize).length = kRecordHeaderSize := by
        rw [length_take]
        omega
      obtain ⟨h, hdecode⟩ := Codec.decodeHeader_append hlength
      have hheader := hdecode (src.drop kRecordHeaderSize)
      rw [take_append_drop] at hheader
      refine .inr ⟨hnine, h, hheader, ?_⟩
      rw [if_pos, hheader]
      rw [length_drop]
      omega

/-- `DecodeHeader` and `DecodeRecord` stay inside exactly if there are no
or all bytes of a header, and at least as many bytes of a record as the
header says. -/
theorem decode_inside_iff (header body : Bytes) :
    Inside (decode K onlyValue header body)
      ↔ (header.length < 4 ∨ kRecordHeaderSize ≤ header.length)
        ∧ ∀ h rest, Codec.decodeHeader header = .ok (h, rest) →
          h.recordSize.toNat ≤ body.length := by
  unfold decode
  rcases decodeHeader_cases header with
    ⟨hshort, heq⟩ | ⟨hfour, hnine, heq⟩ | ⟨hnine, h, hheader, heq⟩
  · rw [heq]
    refine iff_of_true ⟨_, rfl, ?_⟩ ⟨.inl hshort, ?_⟩
    · rintro s hs
      cases hs
      exact ⟨_, rfl⟩
    · intro h rest hok
      rw [Codec.decodeHeader, getFixed32_of_short hshort] at hok
      cases hok
  · rw [heq]
    refine iff_of_false ?_ ?_
    · rintro ⟨x, hx, -⟩
      cases hx
    · rintro ⟨hlength | hlength, -⟩ <;> omega
  · rw [heq, hheader]
    dsimp only
    unfold decodeRecord
    by_cases hsize : h.recordSize.toNat ≤ body.length
    case pos =>
      rw [if_pos hsize]
      refine iff_of_true ⟨_, rfl, ?_⟩ ⟨.inr hnine, ?_⟩
      · intro s hs
        rcases K.decodeRecord_cases h onlyValue body with
          ⟨r, buffer, plain, hok, -⟩ | ⟨s', herror, hcorrupt, -⟩
        · rw [hok] at hs
          cases hs
        · rw [herror] at hs
          cases hs
          exact hcorrupt
      · intro h' rest hok
        cases hok
        exact hsize
    case neg =>
      rw [if_neg hsize]
      refine iff_of_false ?_ ?_
      · rintro ⟨x, hx, -⟩
        cases hx
      · rintro ⟨-, hfits⟩
        exact hsize (hfits h _ rfl)

end BlobDecoder

namespace BlobFileFooter

theorem isSome_afterHandle (src : Bytes) :
    (afterHandle K src).isSome = (K.decodeBlockHandle src).isSome := by
  unfold afterHandle Codec.decodeBlockHandle
  cases K.coding.getVarint64 src with
  | none => rfl
  | some p => cases hsize : K.coding.getVarint64 p.2 <;> simp [hsize]

/-- Two varints are within the twenty bytes of the padded handle. -/
theorem length_afterHandle (hvarint : K.coding.Reads64Within 10) {src : Bytes}
    (h : afterHandle K src = some rest) : src.length - rest.length ≤ 20 := by
  unfold afterHandle at h
  split at h
  case h_1 => cases h
  case h_2 v src₁ h₁ =>
    split at h
    case h_1 => cases h
    case h_2 w src₂ h₂ =>
      cases h
      have l₁ := hvarint h₁
      have l₂ := hvarint h₂
      omega

/-- `DecodeFrom` stays inside exactly if the handle does not decode or
there are the twenty bytes it is padded to. -/
theorem decodeFrom_inside_iff (hvarint : K.coding.Reads64Within 10) (src : Bytes) :
    (∃ footer, decodeFrom K src = some footer ∧ (footer.1 = .ok ∨ footer.1.IsCorruption))
      ↔ ((K.decodeBlockHandle src).isSome = true → 20 ≤ src.length) := by
  rw [← isSome_afterHandle]
  unfold decodeFrom
  cases hafter : afterHandle K src with
  | none =>
    refine iff_of_true ⟨_, rfl, K.decodeFooter_corruption src⟩ ?_
    exact fun h => absurd h Bool.false_ne_true
  | some rest =>
    have htaken := length_afterHandle hvarint hafter
    dsimp only
    by_cases hlong : 20 ≤ src.length
    case pos =>
      rw [if_pos ⟨htaken, hlong⟩]
      exact iff_of_true ⟨_, rfl, K.decodeFooter_corruption src⟩ fun _ => hlong
    case neg =>
      rw [if_neg fun h => hlong h.2]
      refine iff_of_false ?_ fun h => hlong (h rfl)
      rintro ⟨footer, hfooter, -⟩
      cases hfooter

end BlobFileFooter

/-- A record of three bytes under a key of one. -/
def threeBytes : BlobRecord := { key := .byte 1, value := [7, 8, 9] }

namespace Codec

/-- The checksum `EncodeRecord` puts in front of these bytes: over the
size and the compression of a header, and what follows. -/
def checksumOf (K : Codec) (bytes : Bytes) : UInt32 :=
  K.crc32cExtend (K.crc32cValue ((bytes.drop 4).take 5)) (bytes.drop kRecordHeaderSize)

/-- The structure of the bytes behind a header is not that of a record:
they are all there, but cannot be restored, or are not one record. -/
def Malformed (K : Codec) (onlyValue : Bool) (h : RecordHeader) (body : Bytes) : Prop :=
  h.recordSize.toNat ≤ body.length
    ∧ ∀ plain r, K.Restores h.compression (body.take h.recordSize.toNat) plain →
      BlobRecord.decodeInto K.coding onlyValue plain ≠ .ok r

end Codec

/-- A decoder or a reader returned, and not OK. -/
def Refused {α : Type*} (result : Option (Except Status α)) : Prop :=
  ∃ s, result = some (.error s) ∧ s.isOk = false

theorem BlobDecoder.refused_iff {header body : Bytes} {h : RecordHeader}
    (hheader : BlobDecoder.decodeHeader header = some (.ok (h, rest))) :
    Refused (BlobDecoder.decode K onlyValue header body) ↔ K.Malformed onlyValue h body := by
  unfold BlobDecoder.decode BlobDecoder.decodeRecord Codec.Malformed
  rw [hheader]
  dsimp only
  by_cases hsize : h.recordSize.toNat ≤ body.length
  case neg =>
    rw [if_neg hsize]
    refine iff_of_false ?_ fun h => hsize h.1
    rintro ⟨s, hs, -⟩
    cases hs
  case pos =>
    rw [if_pos hsize]
    rcases K.decodeRecord_cases h onlyValue body with
      ⟨r, buffer, plain, hok, hrestores, hdecode⟩
      | ⟨s, herror, hcorrupt, hnone⟩
    · rw [hok]
      refine iff_of_false ?_ fun h => h.2 plain r hrestores hdecode
      rintro ⟨s, hs, -⟩
      cases hs
    · rw [herror]
      exact iff_of_true ⟨s, rfl, hcorrupt.isOk⟩ ⟨hsize, hnone⟩

-- ---- the readers

section

variable {file bytes : Bytes} {offset : UInt64} {x : Except Status BlobRecord}

/-- `ReadRecord` returns what the decoder does. -/
theorem readRecord_eq_decode (hlength : bytes.length < 2 ^ 64)
    (hnine : kRecordHeaderSize ≤ bytes.length) (hplace : readAt file offset bytes.length = bytes)
    (hx : BlobDecoder.decode K onlyValue bytes (bytes.drop kRecordHeaderSize) = some x) :
    (readRecord K file onlyValue { offset, size := ofNat bytes.length }).map Prod.fst = x := by
  have hsize : (ofNat bytes.length).toNat = bytes.length := by
    exact Nat.mod_eq_of_lt hlength
  rcases BlobDecoder.decodeHeader_cases bytes with
    ⟨hshort, -⟩ | ⟨-, hshort, -⟩ | ⟨-, h, hheader, heq⟩
  · unfold kRecordHeaderSize at hnine
    omega
  · omega
  · unfold BlobDecoder.decode BlobDecoder.decodeRecord at hx
    rw [heq] at hx
    dsimp only at hx
    split at hx
    case isFalse => cases hx
    case isTrue =>
      cases hx
      unfold readRecord
      rw [hsize, hplace, if_neg (fun hne => hne rfl), hheader]
      dsimp only
      cases K.decodeRecord h onlyValue (bytes.drop kRecordHeaderSize) with
      | error s => rfl
      | ok p => rfl

/-- The bytes of a file from an offset inside it on. -/
theorem readAt_drop (hfile : file.length < 2 ^ 64)
    (hplace : readAt file offset bytes.length = bytes) {k n : Nat}
    (hk : k ≤ bytes.length) (hn : n ≤ bytes.length - k) :
    readAt file (offset + ofNat k) n = (bytes.drop k).take n := by
  by_cases hempty : k = 0 ∧ n = 0
  case pos =>
    obtain ⟨rfl, rfl⟩ := hempty
    simp [readAt]
  case neg =>
    have hinside : bytes.length ≤ file.length - offset.toNat := by
      have hle := congrArg length hplace
      rw [readAt, length_take, length_drop] at hle
      omega
    have hoffset : (offset + ofNat k).toNat = offset.toNat + k := by
      rw [UInt64.toNat_add, UInt64.toNat_ofNat']
      omega
    rw [← hplace]
    unfold readAt
    rw [hoffset, drop_take, take_take, drop_drop, Nat.min_eq_left hn]

/-- So does the iterator. -/
theorem readRecordAt_eq_decode (hfile : file.length < 2 ^ 64)
    (hnine : kRecordHeaderSize ≤ bytes.length) (hplace : readAt file offset bytes.length = bytes)
    (hx : BlobDecoder.decode K false bytes (bytes.drop kRecordHeaderSize) = some x) :
    (readRecordAt K file offset).map Prod.snd = x := by
  have hlength : (bytes.take kRecordHeaderSize).length = kRecordHeaderSize := by
    rw [length_take]
    omega
  obtain ⟨h, hdecode⟩ := Codec.decodeHeader_append hlength
  have hfront : Codec.decodeHeader (bytes.take kRecordHeaderSize) = .ok (h, []) := by
    rw [← hdecode [], append_nil]
  have hwhole : BlobDecoder.decodeHeader bytes = some (.ok (h, bytes.drop kRecordHeaderSize)) := by
    rcases BlobDecoder.decodeHeader_cases bytes with
      ⟨hshort, -⟩ | ⟨-, hshort, -⟩ | ⟨-, h', hheader, heq⟩
    · unfold kRecordHeaderSize at hnine
      omega
    · omega
    · have hsame := hdecode (bytes.drop kRecordHeaderSize)
      rw [take_append_drop, hheader] at hsame
      cases hsame
      exact heq
  unfold BlobDecoder.decode BlobDecoder.decodeRecord at hx
  rw [hwhole] at hx
  dsimp only at hx
  split at hx
  case isFalse => cases hx
  case isTrue hsize =>
    cases hx
    rw [length_drop] at hsize
    have hread₁ : (RandomAccessFileReader.ofBytes file).read offset
        kRecordHeaderSize = .ok (bytes.take kRecordHeaderSize) := by
      have hat := readAt_drop hfile hplace (Nat.zero_le _) hnine
      rw [show offset + ofNat 0 = offset from add_zero offset] at hat
      exact congrArg Except.ok hat
    have hread₂ : (RandomAccessFileReader.ofBytes file).read
        (offset + ofNat kRecordHeaderSize) h.recordSize.toNat
        = .ok ((bytes.drop kRecordHeaderSize).take h.recordSize.toNat) :=
      congrArg Except.ok (readAt_drop hfile hplace hnine hsize)
    unfold readRecordAt
    rw [hread₁]
    dsimp only
    rw [hfront]
    dsimp only
    rw [hread₂]
    dsimp only
    rw [K.decodeRecord_take]
    cases K.decodeRecord h false (bytes.drop kRecordHeaderSize) with
    | error s => rfl
    | ok p => rfl

end

/-- The record of three bytes with another value, 6 in the place of 7. -/
def alteredValue : Bytes :=
  (trailingZeros.encodeRecord .kNoCompression false threeBytes).bytes.set 12 6

/-- The same record with a compression type nobody has heard of. -/
def alteredType : Bytes :=
  (trailingZeros.encodeRecord .kNoCompression false threeBytes).bytes.set 8 99

theorem decodeHeader_alteredType :
    Codec.decodeHeader alteredType
      = .ok ({ crc := 35, recordSize := 6, compression := .unrecognized 99 },
        alteredType.drop kRecordHeaderSize) := by rfl

theorem decodeHeader_alteredValue :
    Codec.decodeHeader alteredValue
      = .ok ({ crc := 35, recordSize := 6, compression := .kNoCompression },
        alteredValue.drop kRecordHeaderSize) := by rfl

end DiffKV
