/-
Where `IterateForPrev` places the iterator: before the record around the
offset, so that `Next` visits that record and all behind it.

The loop knows no handle. It walks over the records by the sizes in their
headers and steps back over the last one if it has gone too far.
-/
import DiffKV.Proofs.BlobFileBytes

namespace DiffKV

open Lib List UInt64 BlobFileBuilder

namespace BlobFileIterator

variable {K : Codec} {type : CompressionType} {file pre post : Bytes}
  {records : List BlobRecord} {it : BlobFileIterator} {offset : UInt64}

/-- A record that can be read has a header that can. -/
theorem header_of_readRecordAt {reader : RandomAccessFileReader} {h : RecordHeader} {r : BlobRecord}
    (hread : readRecordAt K reader offset = .ok (h, r)) :
    ∃ buffer rest, reader.read offset kRecordHeaderSize = .ok buffer
      ∧ Codec.decodeHeader buffer = .ok (h, rest) := by
  unfold readRecordAt at hread
  split at hread
  case h_1 => cases hread
  case h_2 buffer hbuffer =>
    split at hread
    case h_1 => cases hread
    case h_2 h' rest hheader =>
      split at hread
      case h_1 => cases hread
      case h_2 =>
        split at hread <;> cases hread
        exact ⟨buffer, rest, hbuffer, hheader⟩

/-- From before the first of some records that lie around the offset, the
loop finds the one that does. -/
theorem iterateForPrevLoop_records {rounds : Nat} {totalLength : UInt64}
    (hrounds : records.length < rounds)
    (hfile : file = pre ++ (recordBytes K type false records ++ post))
    (hlen : file.length < 2 ^ 64) (hreader : it.file = file)
    (hat : it.iterateOffset = ofNat pre.length)
    (hsize : ∀ r ∈ records, (r.encodeTo K.coding false).length < 2 ^ 32)
    (hle : pre.length ≤ offset.toNat)
    (hlt : offset.toNat < (pre ++ recordBytes K type false records).length) :
    ∃ done r rest, records = done ++ r :: rest
      ∧ (pre ++ recordBytes K type false done).length ≤ offset.toNat
      ∧ offset.toNat < (pre ++ recordBytes K type false (done ++ [r])).length
      ∧ iterateForPrevLoop offset rounds it totalLength = some { it with
        iterateOffset := ofNat (pre ++ recordBytes K type false done).length
        valid := false } := by
  induction records generalizing rounds totalLength it pre with
  | nil =>
    rw [recordBytes, flatMap_nil, append_nil] at hlt
    omega
  | cons r rs ih =>
    obtain ⟨n, rfl⟩ : ∃ n, rounds = n + 1 := ⟨rounds - 1, by omega⟩
    -- the place behind the first record
    obtain ⟨mid, hmid⟩ : ∃ mid, mid = pre ++ (K.encodeRecord type false r).bytes := ⟨_, rfl⟩
    have hcons : ∀ rs, pre ++ recordBytes K type false (r :: rs)
        = mid ++ recordBytes K type false rs := by
      intro rs
      rw [recordBytes, flatMap_cons, hmid, append_assoc]
      rfl
    have hr := hsize r mem_cons_self
    have hfile' : file = mid ++ (recordBytes K type false rs ++ post) := by
      rw [hfile, ← append_assoc, hcons, append_assoc]
    rw [hcons] at hlt
    have hread := readRecordAt_placed (by rw [hfile', hmid, append_assoc]) hlen
      (hreader ▸ RandomAccessFileReader.serves_ofBytes file _) hat hr
    obtain ⟨buffer, rest, hbuffer, hheader⟩ := header_of_readRecordAt hread
    have hnext : it.iterateOffset + (K.encodeRecord type false r).getEncodedSize
        = ofNat mid.length := by
      rw [hat, getEncodedSize_eq, ← ofNat_add, hmid, length_append]
    have hoffset : it.iterateOffset.toNat = pre.length := by
      rw [hat, toNat_ofNat_lt (by rw [hfile, length_append] at hlen; omega)]
    unfold iterateForPrevLoop
    by_cases hgo : it.iterateOffset < offset
    · rw [if_pos hgo, hbuffer]
      simp only [hheader, headerOf_size hr, hnext]
      by_cases hover : offset.toNat < mid.length
      · -- one too far
        obtain ⟨n, rfl⟩ : ∃ m, n = m + 1 := ⟨n - 1, by rw [length_cons] at hrounds; omega⟩
        have hgt : ofNat mid.length > offset := by
          rw [gt_iff_lt, lt_iff_toNat_lt, toNat_ofNat_lt]
          · exact hover
          · rw [hfile', length_append] at hlen
            omega
        have hback : ofNat mid.length - (K.encodeRecord type false r).getEncodedSize
            = ofNat pre.length := by
          rw [← hnext, hat, UInt64.add_sub_cancel]
        refine ⟨[], r, rs, rfl, ?_, ?_, ?_⟩
        · simpa [recordBytes] using hle
        · simpa [hmid, recordBytes] using hover
        · unfold iterateForPrevLoop
          rw [if_neg (UInt64.lt_asymm hgt), if_pos hgt, hback]
          simp [recordBytes]
      · -- not far enough
        obtain ⟨it', hit⟩ : ∃ it', it' = { it with iterateOffset := ofNat mid.length } := ⟨_, rfl⟩
        obtain ⟨done, r', rest, rfl, hdone, hafter, hloop⟩ := ih (Nat.lt_of_succ_lt_succ hrounds)
          hfile' (hit ▸ hreader : it'.file = _) (by rw [hit])
          (fun r' hr' => hsize r' (mem_cons_of_mem _ hr')) (Nat.le_of_not_lt hover) hlt
        refine ⟨r :: done, r', rest, rfl, ?_, ?_, ?_⟩
        · rwa [hcons]
        · rwa [cons_append, hcons]
        · rw [hcons, ← hit, hloop, hit]
    · have hstop : ¬ it.iterateOffset > offset :=
        fun hgt => Nat.not_lt.2 (hoffset ▸ hle) (lt_iff_toNat_lt.1 hgt)
      refine ⟨[], r, rs, rfl, ?_, ?_, ?_⟩
      · simpa [recordBytes] using hle
      · have hpos := recordBytes_length_pos K type false (show [r] ≠ [] by simp)
        have hge := mt lt_iff_toNat_lt.2 hgo
        rw [nil_append, length_append]
        omega
      · rw [if_neg hgo, if_neg hstop, hat]
        simp [recordBytes]

/-- An iterator of the built file, at whatever place. -/
structure Over (K : Codec) (type : CompressionType) (records : List BlobRecord)
    (it : BlobFileIterator) : Prop where
  file : it.file = (build K type false records).2
  fileSize : it.fileSize = ofNat (build K type false records).2.length
  ends : it.init = true → it.endOfBlobRecord = it.fileSize - kBlobFooterSize

/-- The offset behind some records at the front of a file. -/
def behind (K : Codec) (type : CompressionType) (records : List BlobRecord) : Nat :=
  (BlobFileBuilder.create ++ recordBytes K type false records).length

theorem addAll_append (file : Bytes) (done rest : List BlobRecord) :
    (addAll K type false file (done ++ rest)).1 = (addAll K type false file done).1
      ++ (addAll K type false (file ++ recordBytes K type false done) rest).1 := by
  induction done generalizing file with
  | nil => simp [addAll, recordBytes]
  | cons r rs ih =>
    have hbytes : file ++ recordBytes K type false (r :: rs)
        = (add K type false file r).2 ++ recordBytes K type false rs := by
      simp [recordBytes, add]
    rw [hbytes]
    exact congrArg (cons _) (ih _)

variable (hfits : (build K type false records).2.length < 2 ^ 64)
include hfits

theorem toNat_behind : (ofNat (behind K type records)).toNat = behind K type records := by
  refine toNat_ofNat_lt ?_
  rw [build_file, ← append_assoc, length_append] at hfits
  exact Nat.lt_of_le_of_lt (Nat.le_add_right _ _) hfits

/-- The end of the records is known, or found out. -/
theorem Over.ready (hit : Over K type records it) :
    ∃ it', (if it.init then (true, it) else initIterator K it) = (true, it')
      ∧ it'.file = it.file ∧ it'.fileNumber = it.fileNumber
      ∧ it'.endOfBlobRecord.toNat = behind K type records := by
  have hend : (it.fileSize - kBlobFooterSize).toNat = behind K type records := by
    rw [hit.fileSize, build_end]
    exact toNat_behind hfits
  cases hinit : it.init with
  | true => exact ⟨it, rfl, rfl, rfl, hit.ends hinit ▸ hend⟩
  | false =>
    have hheader : it.file.read 0 kBlobHeaderSize.toNat = .ok encodeFileHeader := by
      rw [hit.file, build_file]
      exact congrArg Except.ok (@readAt_append [] encodeFileHeader _ 0 _ rfl
        encodeFileHeader_length.symm)
    have hfooter : it.file.read (it.fileSize - kBlobFooterSize) kBlobFooterSize.toNat
        = .ok (K.encodeFooter BlockHandle.null) := by
      rw [hit.file, hit.fileSize]
      exact (ReadableTo.built hfits).footer
    simp only [initIterator, hheader, hfooter, decodeFileHeader_encode,
      Codec.decodeFooter_encode, BlockHandle.null, Status.isOk_ok, if_true, sub_zero]
    exact ⟨_, rfl, rfl, rfl, hend⟩

/-- From before some of the records, `Next` visits the rest of them. -/
theorem yields_rest {done rest : List BlobRecord} (hrecords : records = done ++ rest)
    (hsize : ∀ r ∈ records, (r.encodeTo K.coding false).length < 2 ^ 32)
    (hfile : it.file = (build K type false records).2)
    (hend : it.endOfBlobRecord.toNat = behind K type records) (hstatus : it.status = .ok)
    (hat : it.iterateOffset = ofNat (behind K type done)) :
    Yields K (it.next K) ((builtItems K type it.fileNumber records).drop done.length) .ok := by
  have hbytes : ∀ rs, BlobFileBuilder.create ++ recordBytes K type false done
      ++ (recordBytes K type false rest ++ rs)
        = BlobFileBuilder.create ++ (recordBytes K type false records ++ rs) := by
    intro rs
    rw [hrecords, recordBytes_append]
    simp only [append_assoc]
  have hlast := (congrArg length (hbytes [])).symm
  simp only [append_nil] at hlast
  have hitems : (builtItems K type it.fileNumber records).drop done.length
      = ((addAll K type false (BlobFileBuilder.create ++ recordBytes K type false done)
          rest).1.zip rest).map fun p =>
            ({ fileNumber := it.fileNumber, blobHandle := p.1 }, p.2) := by
    have hlength : done.length = (addAll K type false BlobFileBuilder.create done).1.length :=
      (addAll_length K type false _ done).symm
    rw [builtItems, ← map_drop, build, hrecords, addAll_append, zip_append hlength.symm]
    rw [drop_left' (by rw [length_zip, ← hlength, Nat.min_self])]
  rw [hitems]
  refine yields_records rest ((build_file records).trans (hbytes _).symm) hfits
    (hfile ▸ RandomAccessFileReader.serves_ofBytes _ _) hat (hend ▸ hlast.ge) hstatus
    (fun r hr => hsize r (hrecords ▸ mem_append_right done hr)) ?_
  intro it' _ hstop hstatus' hoffset
  have hover : it'.iterateOffset ≥ it'.endOfBlobRecord := by
    rw [ge_iff_le, le_iff_toNat_le, hstop, hend, hoffset, ← hlast]
    exact (toNat_behind hfits).ge
  rw [prefetchAndGet, if_pos hover, ← hstatus']
  exact .done rfl

end BlobFileIterator

open BlobFileIterator

/-- On a built file `IterateForPrev` refuses an offset behind the records.
For any other one, `Next` visits the record around the offset and all the
records behind it, at their handles, and no other. -/
theorem iterateForPrev_visits (K : Codec) (type : CompressionType) (records : List BlobRecord)
    (hsize : ∀ r ∈ records, (r.encodeTo K.coding false).length < 2 ^ 32)
    (hfits : (build K type false records).2.length < 2 ^ 64)
    {it : BlobFileIterator} (hit : Over K type records it) (offset : UInt64) {rounds : Nat}
    (hrounds : records.length < rounds) :
    ∃ it', iterateForPrev K rounds it offset = some it'
      ∧ (behind K type records ≤ offset.toNat → it'.status = .invalidArgument "Out of bound")
      ∧ (offset.toNat < behind K type records → ∃ done rest, records = done ++ rest
        ∧ (done = [] ∨ behind K type done ≤ offset.toNat)
        ∧ (∀ r ∈ rest.head?, offset.toNat < behind K type (done ++ [r]))
        ∧ Yields K (it'.next K)
          ((builtItems K type it.fileNumber records).drop done.length) .ok) := by
  obtain ⟨it₁, hready, hfile, hnumber, hend⟩ := hit.ready hfits
  have hcond : offset ≥ it₁.endOfBlobRecord ↔ behind K type records ≤ offset.toNat := by
    rw [ge_iff_le, le_iff_toNat_le, hend]
  unfold iterateForPrev
  rw [hready]
  dsimp only
  rw [if_pos rfl]
  by_cases hout : behind K type records ≤ offset.toNat
  · rw [if_pos (hcond.2 hout)]
    exact ⟨_, rfl, fun _ => rfl, fun hlt => absurd hlt (Nat.not_lt.2 hout)⟩
  obtain ⟨it₀, hit₀⟩ : ∃ it₀, it₀ = { it₁ with status := .ok, iterateOffset := kBlobHeaderSize } :=
    ⟨_, rfl⟩
  obtain ⟨done, rest, hrecords, hdone, hrest, hloop⟩ : ∃ done rest, records = done ++ rest
      ∧ (done = [] ∨ behind K type done ≤ offset.toNat)
      ∧ (∀ r ∈ rest.head?, offset.toNat < behind K type (done ++ [r]))
      ∧ iterateForPrevLoop offset rounds it₀ 0
        = some { it₀ with iterateOffset := ofNat (behind K type done), valid := false } := by
    by_cases hle : kBlobHeaderSize ≤ offset
    · obtain ⟨done, r, rest, hrecords, hdone, hafter, hloop⟩ := iterateForPrevLoop_records hrounds
        (build_file records) hfits (hit₀ ▸ hfile.trans hit.file : it₀.file = _) (hit₀ ▸ rfl) hsize
        (le_iff_toNat_le.1 hle) (Nat.lt_of_not_le hout)
      refine ⟨done, r :: rest, hrecords, .inr hdone, fun r' hr' => ?_, hloop⟩
      cases hr'
      exact hafter
    · -- the offset is in the header of the file
      have hlt := UInt64.not_le.1 hle
      refine ⟨[], records, rfl, .inl rfl, fun r _ => ?_, ?_⟩
      · refine Nat.lt_of_lt_of_le (lt_iff_toNat_lt.1 hlt) ?_
        rw [behind, length_append]
        exact Nat.le_add_right _ _
      · obtain ⟨n, rfl⟩ : ∃ n, rounds = n + 1 := ⟨rounds - 1, by omega⟩
        rw [iterateForPrevLoop, hit₀]
        simp only [if_neg (UInt64.lt_asymm hlt), if_pos hlt, gt_iff_lt, sub_zero]
        rfl
  rw [if_neg (mt hcond.1 hout), ← hit₀, hloop]
  refine ⟨_, rfl, fun hge => absurd hge hout, fun _ => ⟨done, rest, hrecords, hdone, hrest, ?_⟩⟩
  rw [← hnumber]
  subst hit₀
  exact yields_rest hfits hrecords hsize (hfile.trans hit.file) hend rfl rfl

/-- An offset within the second of two records. -/
theorem iterateForPrev_intoSecond :
    let file := (build trailingZeros .kSnappyCompression false twoRecords).2
    ∃ it' done rest, iterateForPrev trailingZeros 3
        (BlobFileIterator.create file 5 (ofNat file.length)) 24 = some it'
      ∧ twoRecords = done ++ rest ∧ Yields trailingZeros (it'.next trailingZeros)
        ((builtItems trailingZeros .kSnappyCompression 5 twoRecords).drop done.length) .ok := by
  intro file
  have hover : Over trailingZeros .kSnappyCompression twoRecords
      (BlobFileIterator.create file 5 (ofNat file.length)) := ⟨rfl, rfl, nofun⟩
  obtain ⟨it', hseek, -, hvisits⟩ := iterateForPrev_visits trailingZeros .kSnappyCompression
    twoRecords (by decide +kernel) (by decide +kernel) hover 24 (show 2 < 3 by decide)
  obtain ⟨done, rest, hrecords, -, -, hyields⟩ := hvisits (by decide +kernel)
  exact ⟨it', done, rest, hseek, hrecords, hyields⟩

end DiffKV
