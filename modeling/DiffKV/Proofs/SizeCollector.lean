/-
The property a table carries says what its blob indexes refer to.

The collector's map sends every file some index points into to the sum
of the sizes of those indexes, modulo 2^64; written to the property and
read back it is the same map.
-/
import DiffKV.Notifications

namespace DiffKV

open Lib List Table UInt64 BlobFileSizeCollector BlobIndex

namespace BlobFileSizeCollector

variable {n : UInt64} {entries : List InternalEntry}

variable {C : Coding}

-- ==== the codec

theorem decodeFiles_encode (l : List (UInt64 × UInt64)) :
    ∀ (sizes : BlobFilesSize) (rest : Bytes), ((sizes.entries ++ l).map Prod.fst).Nodup →
      ∃ sizes', decodeFiles C l.length
          (l.flatMap (fun f => C.putVarint64 f.1 ++ C.putVarint64 f.2) ++ rest)
          sizes = (true, sizes') ∧ sizes'.entries = sizes.entries ++ l := by
  induction l with
  | nil =>
    intro sizes rest _
    exact ⟨sizes, rfl, (append_nil _).symm⟩
  | cons f l ih =>
    intro sizes rest hnodup
    have hnew : sizes.entries.filter (fun a => a.1 ≠ f.1) = sizes.entries := by
      rw [filter_eq_self]
      intro a ha
      rw [map_append, nodup_append] at hnodup
      simpa using hnodup.2.2 a.1 (mem_map_of_mem ha) f.1 (by simp)
    have hentries : (sizes.insert f.1 f.2).entries = sizes.entries ++ [f] := by
      rw [entries_insert, hnew]
    obtain ⟨sizes', hdecode, hsizes'⟩ := ih (sizes.insert f.1 f.2) rest
      (by rw [hentries, append_assoc]; exact hnodup)
    refine ⟨sizes', ?_, ?_⟩
    · rw [length_cons, flatMap_cons, append_assoc, append_assoc]
      unfold decodeFiles
      rw [C.get_put64]
      dsimp only
      rw [C.get_put64]
      exact hdecode
    · rw [hsizes', hentries, append_assoc]
      rfl

/-- A property reads back as the map it was written from. -/
theorem decode_encode {sizes : BlobFilesSize} (h : sizes.entries.length < 2 ^ 32) :
    decode C (encode C sizes) = (true, sizes) := by
  obtain ⟨sizes', hdecode, hsizes'⟩ := decodeFiles_encode (C := C)
    sizes.entries empty [] sizes.nodup
  have hnum : (UInt32.ofNat sizes.entries.length).toNat = sizes.entries.length := by
    exact Nat.mod_eq_of_lt h
  unfold decode encode
  rw [C.get_put32]
  dsimp only
  rw [hnum]
  rw [append_nil] at hdecode
  rw [hdecode]
  exact congrArg (Prod.mk true) (Table.ext hsizes')

-- ==== the sums

/-- The bytes an entry refers to in the file `n`. -/
def refBytes (C : Coding) (n : UInt64) (e : InternalEntry) : Nat :=
  if e.type = .kTypeBlobIndex then
    match BlobIndex.decodeFrom C e.value with
    | .error _ => 0
    | .ok (index, _) =>
      if index.fileNumber = n then index.blobHandle.size.toNat else 0
  else 0

/-- The entry refers to a record of the file `n`. -/
def Refers (C : Coding) (n : UInt64) (e : InternalEntry) : Prop :=
  e.type = .kTypeBlobIndex ∧ ∃ index rest,
    BlobIndex.decodeFrom C e.value = .ok (index, rest) ∧ index.fileNumber = n

theorem addUserKey_lookup (sizes : BlobFilesSize) (e : InternalEntry) (n : UInt64) :
    ((addUserKey C sizes e).2.lookup n).getD 0 = (sizes.lookup n).getD 0 + ofNat (refBytes C n e)
      ∧ ((addUserKey C sizes e).2.lookup n ≠ none ↔ sizes.lookup n ≠ none ∨ Refers C n e) := by
  unfold addUserKey refBytes Refers
  by_cases htype : e.type = .kTypeBlobIndex
  case neg => simp [htype]
  case pos =>
    simp only [htype, ne_eq, not_true_eq_false, if_false, if_true, true_and]
    cases hindex : decodeFrom C e.value with
    | error s => simp
    | ok p =>
      obtain ⟨index, rest⟩ := p
      dsimp only
      cases hlookup : sizes.lookup index.fileNumber with
      | none =>
        rw [lookup_insert]
        by_cases hn : n = index.fileNumber
        · subst hn
          simp [hlookup]
        · simp [hn, Ne.symm hn]
      | some size =>
        rw [lookup_insert]
        by_cases hn : n = index.fileNumber
        · subst hn
          simp [hlookup]
        · simp [hn, Ne.symm hn]

/-- The collected map: sums modulo 2^64, for the files referred to. -/
theorem collect_lookup (entries : List InternalEntry) (n : UInt64) :
    ((collect C entries).lookup n).getD 0 = ofNat (entries.map (refBytes C n)).sum
      ∧ ((collect C entries).lookup n ≠ none ↔ ∃ e ∈ entries, Refers C n e) := by
  have hloop : ∀ (l : List InternalEntry) (sizes : BlobFilesSize),
      ((l.foldl (fun sizes e => (addUserKey C sizes e).2) sizes).lookup n).getD 0
        = (sizes.lookup n).getD 0 + ofNat (l.map (refBytes C n)).sum
      ∧ ((l.foldl (fun sizes e => (addUserKey C sizes e).2) sizes).lookup n ≠ none
        ↔ sizes.lookup n ≠ none ∨ ∃ e ∈ l, Refers C n e) := by
    intro l
    induction l with
    | nil => simp
    | cons e l ih =>
      intro sizes
      obtain ⟨hsum, hrefers⟩ := addUserKey_lookup (C := C) sizes e n
      obtain ⟨hsum', hrefers'⟩ := ih (addUserKey C sizes e).2
      refine ⟨?_, ?_⟩
      · rw [foldl_cons, hsum', hsum, map_cons, sum_cons, ofNat_add, add_assoc]
      · rw [foldl_cons, hrefers', hrefers, or_assoc, exists_mem_cons_iff]
  have h := hloop entries empty
  simpa [collect] using h

-- ==== the property

/-- The file the entry refers to, if it is a blob index that decodes. -/
def referredFile (C : Coding) (e : InternalEntry) : Option UInt64 :=
  if e.type = .kTypeBlobIndex then
    match BlobIndex.decodeFrom C e.value with
    | .error _ => none
    | .ok (index, _) => some index.fileNumber
  else none

theorem refers_iff {e : InternalEntry} : Refers C n e ↔ referredFile C e = some n := by
  unfold Refers referredFile
  by_cases htype : e.type = .kTypeBlobIndex
  case neg => simp [htype]
  case pos =>
    cases hindex : decodeFrom C e.value with
    | error s => simp [htype]
    | ok p =>
      obtain ⟨index, rest⟩ := p
      simp [htype]

theorem exists_refers_iff :
    (∃ e ∈ entries, Refers C n e) ↔ n ∈ entries.filterMap (referredFile C) := by
  simp only [refers_iff, mem_filterMap]

/-- The collected map has the files referred to, and no other. -/
theorem mem_keys_collect :
    n ∈ (collect C entries).entries.map Prod.fst ↔ n ∈ entries.filterMap (referredFile C) := by
  rw [mem_keys_iff, ← Option.ne_none_iff_isSome, (collect_lookup entries n).2, exists_refers_iff]

/-- It has as many entries as there are files referred to. -/
theorem length_collect (entries : List InternalEntry) :
    (collect C entries).entries.length = (entries.filterMap (referredFile C)).dedup.length := by
  have hnodup : ((collect C entries).entries.map Prod.fst).Nodup := (collect C entries).nodup
  have hperm : ((collect C entries).entries.map Prod.fst).Perm
      (entries.filterMap (referredFile C)).dedup := by
    refine (perm_ext_iff_of_nodup hnodup (nodup_dedup _)).2 ?_
    intro n
    rw [mem_keys_collect, mem_dedup]
  rw [← hperm.length_eq, length_map]

/-- Where every blob index decodes, the map is empty exactly if there is
none. -/
theorem collect_eq_nil_iff
    (hdecode : ∀ e ∈ entries, e.type = .kTypeBlobIndex → ∃ p, decodeFrom C e.value = .ok p) :
    (collect C entries).entries = [] ↔ ∀ e ∈ entries, e.type ≠ .kTypeBlobIndex := by
  rw [← map_eq_nil_iff (f := Prod.fst), eq_nil_iff_forall_not_mem]
  simp only [mem_keys_collect, mem_filterMap]
  constructor
  · intro hnone e he htype
    obtain ⟨⟨index, rest⟩, hindex⟩ := hdecode e he htype
    refine hnone index.fileNumber ⟨e, he, ?_⟩
    rw [← refers_iff]
    exact ⟨htype, index, rest, hindex, rfl⟩
  · rintro hnone n ⟨e, he, hrefers⟩
    rw [← refers_iff] at hrefers
    exact hnone e he hrefers.1

/-- **The property of a table.** It is there exactly if the table has a
blob index, and it reads back as the sums modulo 2^64 of the sizes, file
by file. -/
theorem property_exact (entries : List InternalEntry)
    (hdecode : ∀ e ∈ entries, e.type = .kTypeBlobIndex →
      ∃ p, BlobIndex.decodeFrom C e.value = .ok p)
    (hcount : (entries.filterMap (referredFile C)).dedup.length ≤ 2 ^ 32 - 1) :
    (finish C (collect C entries) = none ↔ ∀ e ∈ entries, e.type ≠ .kTypeBlobIndex)
      ∧ ∀ src, finish C (collect C entries) = some src →
        ∃ sizes, decode C src = (true, sizes)
          ∧ ∀ n, sizes.lookup n = if n ∈ entries.filterMap (referredFile C) then
                some (UInt64.ofNat (entries.map (refBytes C n)).sum)
              else none := by
  unfold finish
  refine ⟨?_, ?_⟩
  · rw [← collect_eq_nil_iff hdecode, ← List.isEmpty_iff]
    cases (collect C entries).entries.isEmpty <;> simp
  · intro src hsrc
    split at hsrc
    case isTrue => cases hsrc
    case isFalse =>
      cases hsrc
      have hlength : (collect C entries).entries.length < 2 ^ 32 := by
        rw [length_collect]
        omega
      refine ⟨collect C entries, decode_encode hlength, ?_⟩
      intro n
      obtain ⟨hsum, hrefers⟩ := collect_lookup (C := C) entries n
      rw [exists_refers_iff] at hrefers
      cases hlookup : (collect C entries).lookup n with
      | none =>
        rw [if_neg fun hmem => hrefers.2 hmem hlookup]
      | some size =>
        rw [if_pos (hrefers.1 (by rw [hlookup]; exact nofun)), ← hsum, hlookup, Option.getD_some]

end BlobFileSizeCollector

/-- Two blob indexes into the file 5 and one into the file 6, around a
value. -/
def threeIndexes : List InternalEntry :=
  let index (n size : UInt64) : Bytes :=
    BlobIndex.encodeTo base128 ⟨n, { offset := 8, size }⟩
  [{ userKey := .byte 1, sequence := 1, type := .kTypeBlobIndex,
     value := index 5 15 },
    { userKey := .byte 2, sequence := 2, type := .kTypeValue, value := [7] },
    { userKey := .byte 3, sequence := 3, type := .kTypeBlobIndex,
      value := index 6 20 },
    { userKey := .byte 4, sequence := 4, type := .kTypeBlobIndex,
      value := index 5 (-10) }]

/-- Their property gives 5 bytes to the file 5, modulo 2^64, and 20 to the
file 6. -/
theorem property_threeIndexes :
    ∃ src sizes, BlobFileSizeCollector.finish base128
        (BlobFileSizeCollector.collect base128 threeIndexes) = some src
      ∧ BlobFileSizeCollector.decode base128 src = (true, sizes)
      ∧ sizes.lookup 5 = some 5 ∧ sizes.lookup 6 = some 20 ∧ sizes.lookup 7 = none := by
  have hdecode : ∀ e ∈ threeIndexes, e.type = .kTypeBlobIndex →
      ∃ p, decodeFrom base128 e.value = .ok p := by
    unfold threeIndexes
    simp only [forall_mem_cons]
    refine ⟨fun _ => ⟨_, decodeFrom_encodeTo ..⟩, fun h => ?_, fun _ => ⟨_, decodeFrom_encodeTo ..⟩,
      fun _ => ⟨_, decodeFrom_encodeTo ..⟩, by simp⟩
    cases h
  obtain ⟨hnone, hsome⟩ := property_exact threeIndexes hdecode (by decide +kernel)
  cases hsrc : finish base128 (collect base128 threeIndexes) with
  | none =>
    have hfirst := hnone.1 hsrc _ (mem_cons_self ..)
    exact absurd rfl hfirst
  | some src =>
    obtain ⟨sizes, hsizes, hlookup⟩ := hsome src hsrc
    refine ⟨src, sizes, rfl, hsizes, ?_, ?_, ?_⟩
    · rw [hlookup]
      decide +kernel
    · rw [hlookup]
      decide +kernel
    · rw [hlookup]
      decide +kernel

end DiffKV
