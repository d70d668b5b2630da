/-
The key range a blob file is recorded under.

The builder keeps the smallest and the largest key of what it was given,
and takes an empty smallest key for "none yet". Added, the empty key can
become the smallest one; the next key then starts both bounds anew, and
what was added before no longer counts. `keptKeys` are the keys since the
last such start: the range is always theirs, and so it is that of the
whole file exactly if they lie around all others.
-/
import DiffKV.Storage
import DiffKV.BlobFile

namespace DiffKV

open Lib List

namespace BlobFile

-- ==== adding records

/-- `BlobFileBuilder::Add` for one record after the other. -/
def addRecords (encodedSize : BlobRecord → UInt64) (f : BlobFile)
    (records : List BlobRecord) : Option BlobFile :=
  records.foldlM (fun f r => (f.add encodedSize r).map Prod.snd) f

theorem records_add {encodedSize : BlobRecord → UInt64} {f f' : BlobFile}
    {r : BlobRecord} {h : BlobHandle} (hadd : f.add encodedSize r = some (h, f')) :
    f'.records.map Prod.snd = f.records.map Prod.snd ++ [r] := by
  unfold add at hadd
  split at hadd
  case isFalse => cases hadd
  case isTrue =>
    cases hadd
    rw [map_append]
    rfl

theorem records_addRecords {encodedSize : BlobRecord → UInt64}
    {f f' : BlobFile} {records : List BlobRecord} (h : f.addRecords encodedSize records = some f') :
    f'.records.map Prod.snd = f.records.map Prod.snd ++ records := by
  induction records generalizing f with
  | nil =>
    cases h
    rw [append_nil]
  | cons r records ih =>
    obtain ⟨f₁, hmap, hrest⟩ := Option.bind_eq_some_iff.1 h
    obtain ⟨⟨handle, f₂⟩, hadd, rfl⟩ := Option.map_eq_some_iff.1 hmap
    rw [ih hrest, records_add hadd, append_assoc]
    rfl

-- ==== the range

section

variable (cmp : UserKey → UserKey → Ordering)

/-- `smallest_key_` and `largest_key_` after these keys. -/
def rangeOf (keys : List UserKey) : UserKey × UserKey :=
  keys.foldl (extendRange cmp) (UserKey.empty, UserKey.empty)

/-- The keys since the last one that found `smallest_key_` empty. -/
def keptKeys (keys : List UserKey) : List UserKey :=
  (keys.foldl
    (fun s key => (extendRange cmp s.1 key,
      if s.1.1.isEmpty then [key] else s.2 ++ [key]))
    ((UserKey.empty, UserKey.empty), [])).2

/-- The minimum and the maximum of the keys. -/
structure IsKeyRange (keys : List UserKey) (range : UserKey × UserKey) : Prop where
  smallest_mem : range.1 ∈ keys
  largest_mem : range.2 ∈ keys
  smallest_le : ∀ k ∈ keys, (cmp range.1 k).isLE = true
  le_largest : ∀ k ∈ keys, (cmp k range.2).isLE = true

end

theorem keyRange_eq (cmp : UserKey → UserKey → Ordering) (f : BlobFile) :
    f.keyRange cmp = rangeOf cmp ((f.records.map Prod.snd).map BlobRecord.key) := by
  unfold keyRange rangeOf
  rw [foldl_map, foldl_map]

variable {cmp : UserKey → UserKey → Ordering} {keys kept : List UserKey}
  {range : UserKey × UserKey} {key : UserKey}

theorem rangeOf_append (keys : List UserKey) (key : UserKey) :
    rangeOf cmp (keys ++ [key]) = extendRange cmp (rangeOf cmp keys) key := by
  rw [rangeOf, foldl_append]
  rfl

theorem keptKeys_append (keys : List UserKey) (key : UserKey) :
    keptKeys cmp (keys ++ [key])
      = if (rangeOf cmp keys).1.isEmpty then [key] else keptKeys cmp keys ++ [key] := by
  -- the first component of the pair is the range
  have hrange : ∀ keys : List UserKey,
      (keys.foldl
        (fun s key => (extendRange cmp s.1 key, if s.1.1.isEmpty then [key] else s.2 ++ [key]))
        ((UserKey.empty, UserKey.empty), ([] : List UserKey))).1
      = rangeOf cmp keys := by
    intro keys
    induction keys using reverseRecOn with
    | nil => rfl
    | append_singleton keys key ih =>
      rw [rangeOf_append, foldl_append, ← ih]
      rfl
  rw [← hrange keys, keptKeys, foldl_append]
  rfl

theorem keptKeys_subset (keys : List UserKey) : ∀ k ∈ keptKeys cmp keys, k ∈ keys := by
  induction keys using reverseRecOn with
  | nil => exact fun k hk => hk
  | append_singleton keys key ih =>
    intro k hk
    rw [keptKeys_append] at hk
    split at hk
    case isTrue => exact mem_append_right _ hk
    case isFalse =>
      rcases mem_append.1 hk with hk | hk
      · exact mem_append_left _ (ih k hk)
      · exact mem_append_right _ hk

section

variable [Std.TransCmp cmp]

theorem isLE_self (key : UserKey) : (cmp key key).isLE = true := by
  have hself : cmp key key = .eq := Std.ReflCmp.compare_self
  rw [hself]
  rfl

/-- A key that starts the range anew is the whole of it. -/
theorem extendRange_of_isEmpty (h : range.1.isEmpty = true) :
    extendRange cmp range key = (key, key) := by
  have hself : cmp key key = .eq := Std.ReflCmp.compare_self
  unfold extendRange
  simp [h, hself]

theorem isKeyRange_single (key : UserKey) : IsKeyRange cmp [key] (key, key) where
  smallest_mem := mem_singleton_self key
  largest_mem := mem_singleton_self key
  smallest_le := forall_mem_singleton.2 (isLE_self key)
  le_largest := forall_mem_singleton.2 (isLE_self key)

section

variable (h : IsKeyRange cmp kept range)
include h

/-- A key above the largest. -/
theorem IsKeyRange.above (hgt : cmp key range.2 = .gt) :
    IsKeyRange cmp (kept ++ [key]) (range.1, key) := by
  have hle : (cmp range.2 key).isLE = true := by
    have hswap : cmp range.2 key = (cmp key range.2).swap := Std.OrientedCmp.eq_swap
    rw [hswap, hgt]
    rfl
  have hold := h.smallest_le _ h.largest_mem
  refine ⟨mem_append_left _ h.smallest_mem, by simp, ?_, ?_⟩
  · exact forall_mem_append.2 ⟨h.smallest_le,
      forall_mem_singleton.2 (Std.TransCmp.isLE_trans hold hle)⟩
  · exact forall_mem_append.2
      ⟨fun k hk => Std.TransCmp.isLE_trans (h.le_largest k hk) hle,
        forall_mem_singleton.2 (isLE_self key)⟩

/-- A key below the smallest. -/
theorem IsKeyRange.below (hlt : cmp key range.1 = .lt) :
    IsKeyRange cmp (kept ++ [key]) (key, range.2) := by
  have hle : (cmp key range.1).isLE = true := by
    rw [hlt]
    rfl
  have hold := h.smallest_le _ h.largest_mem
  refine ⟨by simp, mem_append_left _ h.largest_mem, ?_, ?_⟩
  · exact forall_mem_append.2
      ⟨fun k hk => Std.TransCmp.isLE_trans hle (h.smallest_le k hk),
        forall_mem_singleton.2 (isLE_self key)⟩
  · exact forall_mem_append.2 ⟨h.le_largest,
      forall_mem_singleton.2 (Std.TransCmp.isLE_trans hle hold)⟩

/-- A key between the two. -/
theorem IsKeyRange.between (hgt : cmp key range.2 ≠ .gt)
    (hlt : cmp key range.1 ≠ .lt) : IsKeyRange cmp (kept ++ [key]) range := by
  have hle : (cmp key range.2).isLE = true := Ordering.isLE_iff_ne_gt.2 hgt
  have hge : (cmp range.1 key).isLE = true := by
    have hswap : cmp range.1 key = (cmp key range.1).swap := Std.OrientedCmp.eq_swap
    rw [hswap, Ordering.isLE_swap]
    exact Ordering.isGE_iff_ne_lt.2 hlt
  exact ⟨mem_append_left _ h.smallest_mem, mem_append_left _ h.largest_mem,
    forall_mem_append.2 ⟨h.smallest_le, forall_mem_singleton.2 hge⟩,
    forall_mem_append.2 ⟨h.le_largest, forall_mem_singleton.2 hle⟩⟩

/-- A key widens the range as far as is needed. -/
theorem IsKeyRange.extend (hne : range.1.isEmpty = false) :
    IsKeyRange cmp (kept ++ [key]) (extendRange cmp range key) := by
  unfold extendRange
  rw [hne]
  simp only [Bool.false_eq_true, if_false]
  split
  case isTrue hgt => exact h.above hgt
  case isFalse hgt =>
    split
    case isTrue hlt => exact h.below hlt
    case isFalse hlt => exact h.between hgt hlt

end

/-- The range is that of the keys since the last start. -/
theorem isKeyRange_kept (hne : keys ≠ []) :
    IsKeyRange cmp (keptKeys cmp keys) (rangeOf cmp keys) := by
  induction keys using reverseRecOn with
  | nil => exact absurd rfl hne
  | append_singleton keys key ih =>
    rw [rangeOf_append, keptKeys_append]
    cases hempty : (rangeOf cmp keys).1.isEmpty with
    | true =>
      rw [extendRange_of_isEmpty hempty, if_pos rfl]
      exact isKeyRange_single key
    | false =>
      have hkeys : keys ≠ [] := by
        rintro rfl
        cases hempty
      exact (ih hkeys).extend hempty

end

/-- **The recorded key range.** After any successful `Add` calls the keys
recorded are the minimum and the maximum of the keys added, exactly if
each of these lies between two of those added since the last `Add` that
found the smallest key empty. -/
theorem keyRange_exact_iff (cmp : UserKey → UserKey → Ordering)
    [Std.TransCmp cmp] (encodedSize : BlobRecord → UInt64)
    (records : List BlobRecord) (f : BlobFile)
    (hadd : header.addRecords encodedSize records = some f)
    (hne : records ≠ []) :
    let keys := records.map BlobRecord.key
    IsKeyRange cmp keys (f.keyRange cmp)
      ↔ ∀ k ∈ keys, ∃ a ∈ keptKeys cmp keys, ∃ b ∈ keptKeys cmp keys,
        (cmp a k).isLE = true ∧ (cmp k b).isLE = true := by
  intro keys
  have hrange : f.keyRange cmp = rangeOf cmp keys := by
    rw [keyRange_eq, records_addRecords hadd]
    rfl
  have hkept : IsKeyRange cmp (keptKeys cmp keys) (rangeOf cmp keys) :=
    isKeyRange_kept (by simpa [keys] using hne)
  rw [hrange]
  constructor
  · intro h k hk
    exact ⟨_, hkept.smallest_mem, _, hkept.largest_mem, h.smallest_le k hk, h.le_largest k hk⟩
  · intro h
    refine ⟨keptKeys_subset keys _ hkept.smallest_mem,
      keptKeys_subset keys _ hkept.largest_mem, ?_, ?_⟩
    · intro k hk
      obtain ⟨a, ha, -, -, hle, -⟩ := h k hk
      exact Std.TransCmp.isLE_trans (hkept.smallest_le a ha) hle
    · intro k hk
      obtain ⟨-, -, b, hb, -, hle⟩ := h k hk
      exact Std.TransCmp.isLE_trans hle (hkept.le_largest b hb)

end BlobFile

/-- Records of one-byte values under these keys. -/
def keyed (keys : List UserKey) : List BlobRecord :=
  keys.map fun key => { key, value := [7] }

/-- Keys in no order, none of them empty. -/
theorem keyRange_unordered :
    ∃ f, BlobFile.header.addRecords (fun _ => 13) (keyed [.byte 2, .byte 3, .byte 1]) = some f
      ∧ f.keyRange bytewiseCompare = (.byte 1, .byte 3)
      ∧ BlobFile.IsKeyRange bytewiseCompare [.byte 2, .byte 3, .byte 1]
        (f.keyRange bytewiseCompare) := by
  obtain ⟨f, hf, hrange⟩ : ∃ f ∈ BlobFile.header.addRecords (fun _ => 13)
      (keyed [.byte 2, .byte 3, .byte 1]),
      f.keyRange bytewiseCompare = (.byte 1, .byte 3) := by decide +kernel
  refine ⟨f, hf, hrange, ?_⟩
  refine (BlobFile.keyRange_exact_iff bytewiseCompare (fun _ => 13) _ f hf (by simp [keyed])).2 ?_
  intro k hk
  exact ⟨k, hk, k, hk, BlobFile.isLE_self k, BlobFile.isLE_self k⟩

/-- The empty key is forgotten by the key after it: the file is recorded
from 2 to 2. -/
theorem keyRange_forgets :
    ∃ f, BlobFile.header.addRecords (fun _ => 13) (keyed [.byte 3, UserKey.empty, .byte 2]) = some f
      ∧ f.keyRange bytewiseCompare = (.byte 2, .byte 2)
      ∧ ¬ BlobFile.IsKeyRange bytewiseCompare
        [.byte 3, UserKey.empty, .byte 2] (f.keyRange bytewiseCompare) := by
  obtain ⟨f, hf, hrange⟩ : ∃ f ∈ BlobFile.header.addRecords (fun _ => 13)
      (keyed [.byte 3, UserKey.empty, .byte 2]),
      f.keyRange bytewiseCompare = (.byte 2, .byte 2) := by decide +kernel
  refine ⟨f, hf, hrange, ?_⟩
  rw [hrange]
  intro h
  have hle := h.le_largest (.byte 3) (by simp)
  exact absurd hle (by decide)

end DiffKV
