/-
The counter of a blob file against what the tables refer to.

The first half says what a notification of the base DB carries: the
entry of a file in a compaction's differences is the number of bytes the
outputs refer to minus that of the inputs, modulo 2^64 and read as a
signed number. The second half is about a single counter: what a flush
and a compaction make of it (`flushed_discardableSize`, `charged_bytes`),
and `Balanced`, which relates it to the bytes still referred to.
-/
import DiffKV.Lsm
import DiffKV.Proofs.Notifications
import DiffKV.Proofs.SizeCollector
import Mathlib.Algebra.Order.BigOperators.Group.List
import Mathlib.Algebra.Order.Group.Nat

namespace DiffKV

open Lib List BlobFileMeta Table UInt64 SizeDiff BlobFileSizeCollector

variable {n : UInt64} {x : Nat}

-- ==== the differences

namespace CompactionJobInfo

/-- The map read from the property of a table, empty if there is none. -/
def tableSizes (C : Coding) (info : CompactionJobInfo) (name : String) :
    BlobFilesSize :=
  match info.tableProperties.lookup name with
  | some (some src) =>
    match BlobFileSizeCollector.decode C src with
    | (true, sizes) => sizes
    | (false, _) => Table.empty
  | _ => Table.empty

end CompactionJobInfo

namespace SizeDiff

variable {C : Coding} {info : CompactionJobInfo} {coefficient : UInt64}
  {output : Bool} {d : SizeDiff}

theorem addTable_eq (coefficient : UInt64) (output : Bool) (d : SizeDiff) (name : String) :
    d.addTable C info coefficient output name
      = (info.tableSizes C name).entries.foldl (addFile coefficient output) d := by
  unfold addTable CompactionJobInfo.tableSizes
  cases info.tableProperties.lookup name with
  | none => rfl
  | some property =>
    cases property with
    | none => rfl
    | some src =>
      dsimp only
      rcases decode C src with ⟨ok, sizes⟩
      cases ok <;> rfl

/-- The difference of a file, as an unsigned number. -/
def difference (d : SizeDiff) (n : UInt64) : UInt64 :=
  ((d.diff.lookup n).getD 0).toUInt64

/-- The size of the file `n` in a map. -/
def sizeOf (sizes : BlobFilesSize) (n : UInt64) : UInt64 :=
  (sizes.lookup n).getD 0

theorem difference_addTable (coefficient : UInt64) (output : Bool) (d : SizeDiff)
    (name : String) (n : UInt64) :
    (d.addTable C info coefficient output name).difference n
      = d.difference n + coefficient * sizeOf (info.tableSizes C name) n := by
  rw [addTable_eq]
  refine (foldl_entries_view difference (fun size x => x + coefficient * size)
    (fun d f n => ?_) (info.tableSizes C name) d n).trans ?_
  · unfold difference addFile
    rw [lookup_insert]
    split
    case isTrue heq =>
      rw [heq]
      simp
    case isFalse => rfl
  · unfold sizeOf
    cases (info.tableSizes C name).lookup n <;> simp

theorem difference_addTables (coefficient : UInt64) (output : Bool)
    (names : List String) (d : SizeDiff) (n : UInt64) :
    (names.foldl (addTable C info coefficient output) d).difference n
      = d.difference n + coefficient
        * (names.map fun name => sizeOf (info.tableSizes C name) n).sum := by
  induction names generalizing d with
  | nil => simp
  | cons name names ih =>
    rw [foldl_cons, ih, difference_addTable, map_cons, sum_cons, mul_add, add_assoc]

/-- The amount `OnCompactionCompleted` acts on. -/
theorem amount_eq (n : UInt64) :
    info.amount C n = ((info.outputFiles.map fun name => sizeOf (info.tableSizes C name) n).sum
          - (info.inputFiles.map fun name => sizeOf (info.tableSizes C name) n).sum).toInt64 := by
  have h : (calcBfs C info).difference n = _ :=
    (difference_addTables 1 true info.outputFiles _ n).trans
      (congrArg (· + _) (difference_addTables (-1) false info.inputFiles {} n))
  have hstart : ({} : SizeDiff).difference n = 0 := rfl
  rw [hstart] at h
  have hto : info.amount C n = ((calcBfs C info).difference n).toInt64 := by
    unfold CompactionJobInfo.amount difference
    simp
  rw [hto, h]
  congr 1
  rw [zero_add, one_mul, neg_mul, one_mul, add_comm, sub_eq_add_neg]

/-- A table lists as outputs only files it refers to, and none if it is
an input. -/
theorem mem_outputs_addTable {name : String}
    (h : n ∈ (d.addTable C info coefficient output name).outputs.entries) :
    n ∈ d.outputs.entries ∨ (output = true ∧ (info.tableSizes C name).lookup n ≠ none) := by
  have hloop : ∀ (l : List (UInt64 × UInt64)) (d : SizeDiff),
      n ∈ (l.foldl (addFile coefficient output) d).outputs.entries →
      n ∈ d.outputs.entries ∨ (output = true ∧ n ∈ l.map Prod.fst) := by
    intro l
    induction l with
    | nil => exact fun _ h => .inl h
    | cons f l ih =>
      intro d h
      rcases ih _ h with h | ⟨houtput, h⟩
      case inr => exact .inr ⟨houtput, .tail _ h⟩
      unfold addFile at h
      dsimp only at h
      split at h
      case isFalse => exact .inl h
      case isTrue hif =>
        rw [Bool.and_eq_true] at hif
        rw [mem_iff_find, find_emplace] at h
        split at h
        case isTrue heq =>
          have heq : f.1 = n := heq
          exact .inr ⟨hif.1, heq ▸ .head _⟩
        case isFalse => exact .inl (mem_iff_find.2 h)
  rw [addTable_eq] at h
  refine (hloop _ d h).imp_right fun h => ⟨h.1, ?_⟩
  have hsome := mem_keys_iff.1 h.2
  exact Option.isSome_iff_ne_none.1 hsome

theorem mem_outputs_addTables {names : List String}
    (h : n ∈ (names.foldl (addTable C info coefficient output) d).outputs.entries) :
    n ∈ d.outputs.entries ∨ (output = true ∧ ∃ name ∈ names,
      (info.tableSizes C name).lookup n ≠ none) := by
  induction names generalizing d with
  | nil => exact .inl h
  | cons name names ih =>
    rcases ih h with h | ⟨houtput, name', hname', h⟩
    · exact (mem_outputs_addTable h).imp_right fun h =>
        ⟨h.1, name, .head _, h.2⟩
    · exact .inr ⟨houtput, name', .tail _ hname', h⟩

/-- A file listed as an output is one that some output table refers
to. -/
theorem mem_outputs (h : n ∈ (calcBfs C info).outputs.entries) :
    ∃ name ∈ info.outputFiles, (info.tableSizes C name).lookup n ≠ none := by
  rcases mem_outputs_addTables h with h | ⟨-, h⟩
  · rcases mem_outputs_addTables h with h | ⟨h, -⟩
    · cases h
    · cases h
  · exact h

end SizeDiff

-- ==== the tables

section tables

variable {C : Coding}

namespace Sst

/-- The bytes of the file `n` that a table refers to. -/
def bytes (t : Sst C) (n : UInt64) : Nat :=
  (t.entries.map (BlobFileSizeCollector.refBytes C n)).sum

/-- The table refers to a record of the file `n`. -/
def Refers (t : Sst C) (n : UInt64) : Prop :=
  ∃ e ∈ t.entries, BlobFileSizeCollector.Refers C n e

/-- A table that refers to a file refers to some bytes of it. -/
theorem bytes_pos_of_refers {t : Sst C} (h : t.Refers n) : 0 < t.bytes n := by
  obtain ⟨e, he, htype, index, rest, hindex, rfl⟩ := h
  obtain ⟨index', rest', hindex', hsize⟩ := t.indexed e he htype
  cases hindex.symm.trans hindex'
  have hpos : 0 < refBytes C index.fileNumber e := by
    unfold refBytes
    rw [if_pos htype, hindex]
    dsimp only
    rw [if_pos rfl]
    exact Nat.pos_of_ne_zero fun h => hsize (UInt64.toNat_inj.1 h)
  exact Nat.lt_of_lt_of_le hpos (le_sum_of_mem (mem_map_of_mem he))

/-- The map the table's property stands for. -/
def sizes (t : Sst C) : BlobFilesSize :=
  BlobFileSizeCollector.collect C t.entries

theorem sizeOf_sizes (t : Sst C) (n : UInt64) :
    sizeOf t.sizes n = ofNat (t.bytes n) := (collect_lookup t.entries n).1

theorem refers_iff {t : Sst C} : t.sizes.lookup n ≠ none ↔ t.Refers n :=
  (collect_lookup t.entries n).2

/-- A property that is there decodes to the map; one that is not stands
for the empty map. -/
theorem property_cases (t : Sst C) :
    (t.property = none ∧ t.sizes = empty)
      ∨ ∃ src, t.property = some src ∧ decode C src = (true, t.sizes) := by
  unfold property finish
  split
  case isTrue hempty =>
    exact .inl ⟨rfl, Table.ext (isEmpty_iff.1 hempty)⟩
  case isFalse =>
    exact .inr ⟨_, rfl, decode_encode t.countable⟩

end Sst

/-- The bytes of the file `n` that some tables refer to. -/
def bytesOf (tables : List (Sst C)) (n : UInt64) : Nat :=
  (tables.map (·.bytes n)).sum

@[simp] theorem bytesOf_nil (n : UInt64) : bytesOf ([] : List (Sst C)) n = 0 := rfl

@[simp] theorem bytesOf_cons (t : Sst C) (tables : List (Sst C)) (n : UInt64) :
    bytesOf (t :: tables) n = t.bytes n + bytesOf tables n := rfl

@[simp] theorem bytesOf_append (ts us : List (Sst C)) (n : UInt64) :
    bytesOf (ts ++ us) n = bytesOf ts n + bytesOf us n := by
  simp [bytesOf]

theorem bytesOf_perm {ts us : List (Sst C)} (h : ts.Perm us) (n : UInt64) :
    bytesOf ts n = bytesOf us n := (h.map _).sum_eq

theorem not_refers_of_bytesOf {tables : List (Sst C)}
    (h : bytesOf tables n = 0) : ∀ t ∈ tables, ¬ t.Refers n := by
  intro t ht hrefers
  have hle : t.bytes n ≤ bytesOf tables n := le_sum_of_mem (mem_map_of_mem ht)
  have hpos := Sst.bytes_pos_of_refers hrefers
  omega

namespace Note

variable (cfId : UInt32)

theorem sizes_flushInfo (t : Sst C) : (flushInfo cfId t).sizes C = t.sizes := by
  unfold flushInfo FlushJobInfo.sizes
  rcases t.property_cases with ⟨hnone, hsizes⟩ | ⟨src, hsrc, hdecode⟩
  · rw [hnone, hsizes]
  · rw [hsrc]
    exact congrArg Prod.snd hdecode

variable {inputs outputs : List (Sst C)} {outputLevel : Int}

/-- The properties of a notification are those of its tables. -/
theorem tableSizes_compactionInfo (hnames : ((inputs ++ outputs).map (·.name)).Nodup) {t : Sst C}
    (ht : t ∈ inputs ++ outputs) :
    (compactionInfo cfId inputs outputs outputLevel).tableSizes C t.name = t.sizes := by
  have hloop : ∀ (l : List (Sst C)) (props : Map String (Option Bytes)),
      (l.map (·.name)).Nodup → ∀ t ∈ l,
      (l.foldl (fun props t => props.insert t.name t.property) props).lookup
        t.name = some t.property := by
    intro l
    induction l with
    | nil => exact fun _ _ _ h => nomatch h
    | cons u l ih =>
      intro props hnodup t ht
      rw [map_cons, nodup_cons] at hnodup
      rw [foldl_cons]
      rcases mem_cons.1 ht with rfl | ht
      · -- the tables after it have other names
        have hkeep : ∀ (l : List (Sst C)) (props : Map String (Option Bytes)),
            t.name ∉ l.map (·.name) →
            (l.foldl (fun props t => props.insert t.name t.property)
              props).lookup t.name = props.lookup t.name := by
          intro l
          induction l with
          | nil => exact fun _ _ => rfl
          | cons v l ih =>
            intro props hnot
            rw [map_cons, mem_cons, not_or] at hnot
            rw [foldl_cons, ih _ hnot.2, lookup_insert, if_neg hnot.1]
        rw [hkeep l _ hnodup.1, lookup_insert, if_pos rfl]
      · exact ih _ hnodup.2 t ht
  have hlookup : (compactionInfo cfId inputs outputs
      outputLevel).tableProperties.lookup t.name = some t.property := hloop _ _ hnames t ht
  unfold CompactionJobInfo.tableSizes
  rw [hlookup]
  rcases t.property_cases with ⟨hnone, hsizes⟩ | ⟨src, hsrc, hdecode⟩
  · rw [hnone, hsizes]
  · rw [hsrc]
    dsimp only
    rw [hdecode]

/-- The amount of a file: what the outputs refer to minus what the
inputs do. -/
theorem amount_compactionInfo (hnames : ((inputs ++ outputs).map (·.name)).Nodup) (n : UInt64) :
    (compactionInfo cfId inputs outputs outputLevel).amount C n
      = (ofNat (bytesOf outputs n) - ofNat (bytesOf inputs n)).toInt64 := by
  have hsum : ∀ l : List (Sst C), l ⊆ inputs ++ outputs →
      ((l.map (·.name)).map fun name => sizeOf
        ((compactionInfo cfId inputs outputs outputLevel).tableSizes C name)
          n).sum = ofNat (bytesOf l n) := by
    intro l
    induction l with
    | nil => exact fun _ => rfl
    | cons t l ih =>
      intro hl
      rw [map_cons, map_cons, sum_cons, tableSizes_compactionInfo cfId hnames (hl (.head _)),
        t.sizeOf_sizes, ih fun x hx => hl (.tail _ hx), bytesOf_cons, ofNat_add]
  rw [amount_eq]
  exact congrArg toInt64 (congrArg₂ (· - ·) (hsum outputs (subset_append_right _ _))
    (hsum inputs (subset_append_left _ _)))

/-- The notification counts if the files its outputs refer to are
installed. -/
theorem counts_compactionInfo {fs : BlobFileSet} (hopen : fs.getBlobStorage cfId ≠ none)
    (hnames : ((inputs ++ outputs).map (·.name)).Nodup)
    (hfiles : ∀ n, 0 < bytesOf outputs n → fs.account cfId n ≠ none) :
    (compactionInfo cfId inputs outputs outputLevel).Counts C fs := by
  refine ⟨rfl, hopen, fun n hn => hfiles n ?_⟩
  obtain ⟨name, hname, hlookup⟩ := mem_outputs hn
  obtain ⟨t, ht, rfl⟩ := mem_map.1 hname
  rw [tableSizes_compactionInfo cfId hnames (mem_append_right _ ht)] at hlookup
  have hpos := Sst.bytes_pos_of_refers (Sst.refers_iff.1 hlookup)
  have hle : t.bytes n ≤ bytesOf outputs n := le_sum_of_mem (mem_map_of_mem ht)
  omega

end Note

end tables

-- ==== one counter

section counter

variable {m : BlobFileMeta}

/-- Read as a signed number, the upper half is negative. -/
theorem toInt64_nonneg_iff (u : UInt64) : u.toInt64 ≥ 0 ↔ u.toNat < 2 ^ 63 := by
  have htoInt : u.toInt64.toInt = u.toBitVec.toInt := rfl
  have hzero : (0 : Int64).toInt = 0 := rfl
  have htoNat : u.toBitVec.toNat = u.toNat := rfl
  rw [ge_iff_le, Int64.le_iff_toInt_le, htoInt, hzero, BitVec.toInt_eq_toNat_cond, htoNat]
  split <;> omega

/-- The charge for a file of which the inputs of a compaction refer to
`i` bytes and the outputs to `o`. -/
theorem charged_bytes (m : BlobFileMeta) {i o : Nat} (hdec : i < o + 2 ^ 63)
    (hinc : o < i + 2 ^ 63) :
    m.charged (ofNat o - ofNat i).toInt64 = m.addDiscardableSize (ofNat (i - o)) := by
  have htoNat : (ofNat o - ofNat i).toNat = (2 ^ 64 - i % 2 ^ 64 + o % 2 ^ 64) % 2 ^ 64 := by
    rw [UInt64.toNat_sub, UInt64.toNat_ofNat', UInt64.toNat_ofNat']
  unfold charged
  by_cases hlt : o < i
  · rw [if_neg (by rw [toInt64_nonneg_iff, htoNat]; omega)]
    have hsub : ofNat i - ofNat o = ofNat (i - o) := (ofNat_sub (Nat.le_of_lt hlt)).symm
    congr 1
    rw [Int64.toUInt64_neg, toUInt64_toInt64, neg_sub, hsub]
  · rw [if_pos (by rw [toInt64_nonneg_iff, htoNat]; omega),
      Nat.sub_eq_zero_of_le (Nat.le_of_not_lt hlt)]
    unfold addDiscardableSize
    rw [show ofNat 0 = 0 from rfl, add_zero]

/-- The bytes of a file that belong to records. -/
def BlobFileMeta.dataSize (m : BlobFileMeta) : Nat :=
  m.fileSize.toNat - 40

theorem dataSize_congr {m' : BlobFileMeta} (h : m'.fileSize = m.fileSize) :
    m'.dataSize = m.dataSize := by
  unfold dataSize
  rw [h]

theorem dataSize_ofNat (h : 40 ≤ m.fileSize.toNat) :
    m.fileSize - kBlobHeaderSize - kBlobFooterSize = UInt64.ofNat m.dataSize := by
  have hforty : kBlobHeaderSize + kBlobFooterSize = ofNat 40 := by
    decide
  have hsub : ∀ a b c : UInt64, a - b - c = a - (b + c) := by
    grind
  unfold dataSize
  rw [hsub, hforty, UInt64.ofNat_sub h, UInt64.ofNat_toNat]

/-- What `OnFlushCompleted` makes of the counter. -/
theorem flushed_discardableSize (h : 40 ≤ m.fileSize.toNat) (x : UInt64) :
    (m.flushed x).discardableSize
      = if m.discardableSize = 0 then ofNat m.dataSize - x else m.discardableSize - x := by
  have hswap : ∀ a b c d : UInt64, a - b - c - d = a - c - d - b := by
    grind
  show m.discardableSize + m.flushDiscardable x = _
  unfold flushDiscardable
  split
  case isTrue hzero =>
    rw [hzero, zero_add, hswap, dataSize_ofNat h]
  case isFalse => rw [sub_eq_add_neg]

/-- The counter of a file of `size` data bytes of which no more than
`referred` are still referred to. `total` bytes were referred to in the
beginning and `given` given back since, as far as the counter knows. The
first case is that of a file no flush was reported of; `awaited` is the
flush that is still to be. In the second the flush was reported before
anything was given back, in the third after. -/
def Balanced (size : Nat) (counter : UInt64) (referred : Nat) (awaited : List Nat) : Prop :=
  ∃ total given, referred + given ≤ total ∧ total ≤ size
    ∧ ((counter = UInt64.ofNat given ∧ (awaited = [] ∨ awaited = [total]))
      ∨ (counter = UInt64.ofNat (size - total + given) ∧ awaited = [])
      ∨ (counter + UInt64.ofNat total = UInt64.ofNat given ∧ awaited = []))

namespace Balanced

variable {size referred : Nat} {counter : UInt64} {awaited : List Nat}

variable (h : Balanced size counter referred awaited)
include h

/-- Fewer bytes are referred to. -/
theorem mono {referred' : Nat} (hle : referred' ≤ referred) :
    Balanced size counter referred' awaited := by
  obtain ⟨total, given, hsum, htotal, hcases⟩ := h
  exact ⟨total, given, by omega, htotal, hcases⟩

/-- At most one flush is awaited, so their order says nothing. -/
theorem perm {awaited' : List Nat} (hperm : awaited.Perm awaited') :
    Balanced size counter referred awaited' := by
  obtain ⟨total, given, hsum, htotal, hcases⟩ := h
  have heq : awaited' = awaited := by
    rcases hcases with ⟨-, hawaited | hawaited⟩ | ⟨-, hawaited⟩
      | ⟨-, hawaited⟩
    all_goals subst hawaited
    · exact hperm.nil_eq.symm
    · exact hperm.symm.eq_singleton
    · exact hperm.nil_eq.symm
    · exact hperm.nil_eq.symm
  rw [heq]
  exact ⟨total, given, hsum, htotal, hcases⟩

omit h in
theorem awaited_tail (h : Balanced size counter referred (x :: awaited)) : awaited = [] := by
  obtain ⟨total, given, -, -, hcases⟩ := h
  rcases hcases with ⟨-, hawaited | hawaited⟩ | ⟨-, hawaited⟩ | ⟨-, hawaited⟩
  · cases hawaited
  · exact (cons.inj hawaited).2
  · cases hawaited
  · cases hawaited

/-- Some of the bytes are given back. -/
theorem give {c : Nat} (hc : c ≤ referred) :
    Balanced size (counter + ofNat c) (referred - c) awaited := by
  obtain ⟨total, given, hsum, htotal, hcases⟩ := h
  refine ⟨total, given + c, by omega, htotal, ?_⟩
  rcases hcases with ⟨hcounter, hawaited⟩ | ⟨hcounter, hawaited⟩
    | ⟨hcounter, hawaited⟩
  · refine .inl ⟨?_, hawaited⟩
    rw [hcounter, ofNat_add]
  · refine .inr (.inl ⟨?_, hawaited⟩)
    rw [hcounter, ← ofNat_add, Nat.add_assoc]
  · refine .inr (.inr ⟨?_, hawaited⟩)
    rw [ofNat_add, ← hcounter, add_assoc, add_assoc, add_comm (ofNat c)]

omit h in
/-- The flush is reported. -/
theorem flush (h : Balanced size counter referred [x]) (hsize : size < 2 ^ 63) :
    Balanced size (if counter = 0 then ofNat size - ofNat x
      else counter - ofNat x) referred [] := by
  obtain ⟨total, given, hsum, htotal, hcases⟩ := h
  rcases hcases with ⟨hcounter, hawaited⟩ | ⟨-, hawaited⟩ | ⟨-, hawaited⟩
  case inr.inl => cases hawaited
  case inr.inr => cases hawaited
  have hx : x = total := by
    rcases hawaited with hawaited | hawaited
    · cases hawaited
    · exact (cons.inj hawaited).1
  subst hx
  refine ⟨x, given, hsum, htotal, ?_⟩
  split
  case isTrue hzero =>
    -- nothing was given back, or the counter would show it
    have hgiven : given = 0 := by
      have htoNat := congrArg toNat (hcounter.symm.trans hzero)
      rw [UInt64.toNat_ofNat', UInt64.toNat_zero] at htoNat
      omega
    refine .inr (.inl ⟨?_, rfl⟩)
    rw [hgiven, Nat.add_zero, ofNat_sub htotal]
  case isFalse =>
    refine .inr (.inr ⟨?_, rfl⟩)
    rw [sub_add_cancel, hcounter]

/-- The counter restarts from zero. -/
theorem restart : Balanced size 0 referred [] := by
  obtain ⟨total, given, hsum, htotal, -⟩ := h
  exact ⟨total, 0, by omega, htotal, .inl ⟨rfl, .inl rfl⟩⟩

omit h in
/-- A new file. -/
theorem start (hx : x ≤ size) (hawaited : awaited = [] ∨ awaited = [x]) :
    Balanced size 0 x awaited := ⟨x, 0, Nat.le_refl _, hx, .inl ⟨rfl, hawaited⟩⟩

/-- Nothing is referred to any more when the counter has reached the
data size. -/
theorem referred_eq_zero (hsize : size < 2 ^ 63)
    (hcounter : counter = ofNat size) : referred = 0 := by
  obtain ⟨total, given, hsum, htotal, hcases⟩ := h
  rcases hcases with ⟨heq, -⟩ | ⟨heq, -⟩ | ⟨heq, -⟩
  all_goals
    have htoNat := congrArg toNat heq
    rw [hcounter] at htoNat
  · rw [toNat_ofNat', toNat_ofNat'] at htoNat
    omega
  · rw [toNat_ofNat', toNat_ofNat'] at htoNat
    omega
  · rw [UInt64.toNat_add, UInt64.toNat_ofNat', UInt64.toNat_ofNat', toNat_ofNat'] at htoNat
    omega

end Balanced

end counter

end DiffKV
