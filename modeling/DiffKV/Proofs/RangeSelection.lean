/-
Which blob files a deletion of ranges takes.

`blob_ranges_` is a multimap from the smallest keys of the files. One
round of `GetBlobFilesInRanges` walks from a lower to an upper bound in
it, two searches of their own, and tests the largest key of each file it
comes by. Where the bounds of the range are in order the walk comes by
the files that begin inside the range; where they are not, it may start
behind the place it is to stop at.

`DeleteBlobFilesInRanges` puts the files of all rounds into one edit, and
an edit may name a file once.
-/
import DiffKV.Open
import DiffKV.Proofs.Retirement

namespace DiffKV

open Lib List BlobFileMeta Table BlobStorage

variable {s st : BlobStorage} {includeEnd : Bool} {range : RangePtr}
  {cfId : UInt32} {fs : BlobFileSet} {l : List (UserKey × UInt64)}

-- ==== the map

namespace BlobStorage

/-- `blob_ranges_` is in the order of its keys. -/
def RangesInOrder (s : BlobStorage) : Prop :=
  s.blobRanges.Pairwise fun a b =>
    (s.cfOptions.comparator a.1 b.1).isLE = true

/-- `blob_ranges_` is the map of the files by smallest key. -/
structure Ranged (s : BlobStorage) : Prop where
  perm : s.blobRanges.Perm (s.files.entries.map fun m => (m.smallestKey, m.fileNumber))
  inOrder : s.RangesInOrder

/-- An entry is filed in its place. -/
theorem inOrder_insertRange (cmp : UserKey → UserKey → Ordering)
    [Std.TransCmp cmp] (e : UserKey × UInt64)
    (h : l.Pairwise fun a b => (cmp a.1 b.1).isLE = true) :
    (insertRange cmp e l).Pairwise fun a b => (cmp a.1 b.1).isLE = true := by
  induction l with
  | nil => exact pairwise_singleton ..
  | cons x xs ih =>
    obtain ⟨hx, hxs⟩ := pairwise_cons.1 h
    unfold insertRange
    split
    case isTrue hlt =>
      have hle : (cmp e.1 x.1).isLE = true := by
        rw [hlt]
        rfl
      refine pairwise_cons.2 ⟨fun y hy => ?_, h⟩
      rcases mem_cons.1 hy with rfl | hy
      · exact hle
      · exact Std.TransCmp.isLE_trans hle (hx y hy)
    case isFalse hge =>
      refine pairwise_cons.2 ⟨fun y hy => ?_, ih hxs⟩
      rcases mem_cons.1 ((perm_insertRange cmp e xs).mem_iff.1 hy) with rfl | hy
      · rw [Ordering.isLE_iff_ne_gt, Std.OrientedCmp.gt_iff_lt]
        exact hge
      · exact hx y hy

theorem RangesInOrder.addBlobFile [Std.TransCmp s.cfOptions.comparator]
    (h : s.RangesInOrder) (m : BlobFileMeta) :
    (s.addBlobFile m).RangesInOrder :=
  inOrder_insertRange s.cfOptions.comparator (m.smallestKey, m.fileNumber) h

theorem RangesInOrder.removeFile (h : s.RangesInOrder) (n : UInt64) :
    (s.removeFile n).RangesInOrder := by
  unfold BlobStorage.removeFile
  cases s.files.find n with
  | none => exact h
  | some m => exact h.sublist (eraseP_sublist ..)

/-- The comparator orders the keys, and the map is in its order. -/
def Orders (s : BlobStorage) : Prop :=
  Std.TransCmp s.cfOptions.comparator ∧ s.RangesInOrder

theorem Orders.apply (h : s.Orders) (c : CFEditCollector) : (c.apply s).2.Orders := by
  refine CFEditCollector.apply_induct h (fun _ hs => ?_)
    (fun _ _ hs => hs) (fun _ hs => hs) fun hs => hs
  have := hs.1
  exact ⟨hs.1, hs.2.addBlobFile _⟩

theorem Orders.getObsoleteFiles (h : s.Orders) (q : SequenceNumber) :
    (s.getObsoleteFiles q).2.Orders := by
  have hfold : ∀ (l : List UInt64) (s : BlobStorage), s.Orders → (l.foldl removeFile s).Orders := by
    intro l
    induction l with
    | nil => exact fun _ hs => hs
    | cons n l ih =>
      intro s hs
      refine ih _ ⟨?_, hs.2.removeFile n⟩
      unfold removeFile
      cases s.files.find n <;> exact hs.1
  exact hfold _ s h

end BlobStorage

namespace BlobFileSet

variable {C : Coding} {fs' : BlobFileSet}

/-- The map of every storage is in order. -/
def Orders (fs : BlobFileSet) : Prop :=
  ∀ i st, fs.columnFamilies.lookup i = some st → st.Orders

theorem Orders.perform (h : fs.Orders) {op : FileOp}
    (hstep : fs.perform C op = some fs') : fs'.Orders := by
  cases op with
  | purge q =>
    cases hstep
    exact forall_getObsoleteFiles (fun hst => hst.getObsoleteFiles q) h
  | edit e io =>
    cases hstep
    intro i st' hst'
    rcases lookup_logAndApply_cases fs e io i with
      heq | ⟨st, -, -, -, hst, heq⟩
    · exact h i st' (heq.symm.trans hst')
    · cases heq.symm.trans hst'
      exact (h i st hst).apply _

/-- After any run of logged edits and purges of an opened file set,
`blob_ranges_` is the map of the files by smallest key. -/
theorem ranged_after_run {dbOptions : TitanDBOptions}
    {columnFamilies : List (UInt32 × TitanCFOptions)}
    (hcmp : ∀ cf ∈ columnFamilies, Std.TransCmp cf.2.comparator)
    {ops : List FileOp} (hadds : Meets (perform C) AddsCountable
      (({ dbOptions } : BlobFileSet).addColumnFamilies columnFamilies) ops)
    (hexec : exec (perform C) (({ dbOptions } : BlobFileSet).addColumnFamilies columnFamilies) ops
      = some fs) {i : UInt32} (hst : fs.columnFamilies.lookup i = some st) :
    st.Ranged := by
  have hnew : ∀ i st, (({ dbOptions } : BlobFileSet).addColumnFamilies
      columnFamilies).columnFamilies.lookup i = some st → st.Consistent ∧ st.Orders := by
    intro i st hst
    rw [lookup_addColumnFamilies] at hst
    obtain ⟨cf, hcf, rfl⟩ := Option.map_eq_some_iff.1 hst
    exact ⟨consistent_new dbOptions cf.2, hcmp cf (mem_of_find?_eq_some hcf), List.Pairwise.nil⟩
  have hcons : fs.Consistent := by
    refine exec_keeps (fun h hc hs => h.perform hc hs) ?_ hadds hexec
    intro i st hst
    have := (hnew i st hst).2.1
    exact ⟨(hnew i st hst).1, fun _ => Std.ReflCmp.compare_self⟩
  have horders : fs.Orders :=
    exec_keeps (fun h _ hs => Orders.perform h hs) (fun i st hst => (hnew i st hst).2) hadds hexec
  exact ⟨(hcons i st hst).1.ranges, (horders i st hst).2⟩

end BlobFileSet

-- ==== the bounds

namespace BlobStorage

/-- The entry is not below the start of a range. -/
def reaches (s : BlobStorage) : Option UserKey → UserKey × UInt64 → Bool
  | none, _ => true
  | some start, e => s.cfOptions.comparator e.1 start ≠ .lt

/-- The entry is above the end of a range. -/
def passes (s : BlobStorage) : Option UserKey → UserKey × UInt64 → Bool
  | none, _ => false
  | some limit, e => s.cfOptions.comparator limit e.1 = .lt

theorem lowerBound_eq (s : BlobStorage) (start : Option UserKey) :
    s.lowerBound start = s.blobRanges.findIdx (s.reaches start) := by
  cases start with
  | some start => rfl
  | none =>
    unfold lowerBound
    cases s.blobRanges <;> simp [findIdx_cons, reaches]

theorem upperBound_eq (s : BlobStorage) (limit : Option UserKey) :
    s.upperBound limit = s.blobRanges.findIdx (s.passes limit) := by
  cases limit with
  | some limit => rfl
  | none =>
    refine (findIdx_eq_length_of_false fun e _ => ?_).symm
    rfl

variable [Std.TransCmp s.cfOptions.comparator]

theorem RangesInOrder.rising_reaches (h : s.RangesInOrder)
    (start : Option UserKey) : Rising (s.reaches start) s.blobRanges := by
  refine h.imp fun {a b} hab ha => ?_
  cases start with
  | none => rfl
  | some start =>
    have hstart : s.cfOptions.comparator a.1 start ≠ .lt := by
      simpa [reaches] using ha
    have hkeep : s.cfOptions.comparator b.1 start ≠ .lt := fun hb =>
      hstart (Std.TransCmp.lt_of_isLE_of_lt hab hb)
    simpa [reaches] using hkeep

theorem RangesInOrder.rising_passes (h : s.RangesInOrder)
    (limit : Option UserKey) : Rising (s.passes limit) s.blobRanges := by
  refine h.imp fun {a b} hab ha => ?_
  cases limit with
  | none => cases ha
  | some limit =>
    have hlimit : s.cfOptions.comparator limit a.1 = .lt := by
      simpa [passes] using ha
    have hkeep := Std.TransCmp.lt_of_lt_of_isLE hlimit hab
    simpa [passes] using hkeep

-- ==== the walk

omit [Std.TransCmp s.cfOptions.comparator] in
/-- The walk, between its bounds. -/
theorem walkRange_eq (range : RangePtr) :
    s.walkRange range = if s.lowerBound range.start ≤ s.upperBound range.limit then
          some ((s.blobRanges.take (s.upperBound range.limit)).drop (s.lowerBound range.start))
        else none := by
  have hlast : s.upperBound range.limit ≤ s.blobRanges.length := by
    rw [upperBound_eq]
    exact findIdx_le_length
  unfold walkRange
  rw [scan_eq (by rw [length_drop]; omega), drop_take]

omit [Std.TransCmp s.cfOptions.comparator] in
/-- One round of `GetBlobFilesInRanges` is the walk and its tests. -/
theorem getBlobFilesInRange_eq (includeEnd : Bool) (range : RangePtr) :
    s.getBlobFilesInRange includeEnd range = (s.walkRange range).map fun visited =>
          ((visited.filterMap fun e => s.findFile e.2).filter
            (s.inRange includeEnd range.limit)).map fileNumber := by
  rw [walkRange_eq]
  unfold getBlobFilesInRange
  dsimp only
  split <;> rfl

/-- A walk that ends has come by the entries between the bounds. -/
theorem RangesInOrder.walkRange_eq_filter (h : s.RangesInOrder) {visited : List (UserKey × UInt64)}
    (hwalk : s.walkRange range = some visited) :
    visited = s.blobRanges.filter fun e => s.reaches range.start e && !s.passes range.limit e := by
  rw [walkRange_eq] at hwalk
  split at hwalk
  case isFalse => cases hwalk
  case isTrue =>
    cases hwalk
    rw [lowerBound_eq, upperBound_eq]
    exact (h.rising_reaches range.start).between (h.rising_passes range.limit)

/-- The bounds are in order unless a file begins strictly between the end
of the range and its start. -/
theorem RangesInOrder.lowerBound_le_iff (h : s.RangesInOrder) (range : RangePtr) :
    s.lowerBound range.start ≤ s.upperBound range.limit
      ↔ ∀ start limit, range.start = some start →
        range.limit = some limit → ∀ e ∈ s.blobRanges,
          ¬ (s.cfOptions.comparator limit e.1 = .lt ∧ s.cfOptions.comparator e.1 start = .lt) := by
  rw [lowerBound_eq, upperBound_eq,
    (h.rising_reaches range.start).findIdx_le_iff (h.rising_passes range.limit)]
  constructor
  · rintro h start limit hstart hlimit e he ⟨hpast, hbefore⟩
    have hreach := h e he (by rw [hlimit]; simp [passes, hpast])
    rw [hstart] at hreach
    simp [reaches, hbefore] at hreach
  · intro h e he hpasses
    cases hstart : range.start with
    | none => rfl
    | some start =>
      cases hlimit : range.limit with
      | none =>
        rw [hlimit] at hpasses
        cases hpasses
      | some limit =>
        rw [hlimit] at hpasses
        have hnot := h start limit hstart hlimit e he
        have hpast : s.cfOptions.comparator limit e.1 = .lt := by
          simpa [passes] using hpasses
        simpa [reaches] using fun hbefore => hnot ⟨hpast, hbefore⟩

/-- **Where the walk of a range ends.** The loop comes by entries of the
map only and ends, exactly if no file begins strictly between the end of
the range and its start. -/
theorem walkRange_ends_iff (hsorted : s.RangesInOrder) (range : RangePtr) :
    (∃ visited, s.walkRange range = some visited ∧ ∀ e ∈ visited, e ∈ s.blobRanges)
      ↔ ∀ start limit, range.start = some start →
        range.limit = some limit → ∀ e ∈ s.blobRanges,
          ¬ (s.cfOptions.comparator limit e.1 = .lt ∧ s.cfOptions.comparator e.1 start = .lt) := by
  rw [← hsorted.lowerBound_le_iff, walkRange_eq]
  constructor
  · rintro ⟨visited, hwalk, -⟩
    by_contra hle
    rw [if_neg hle] at hwalk
    cases hwalk
  · intro hle
    refine ⟨_, if_pos hle, fun e he => ?_⟩
    exact mem_of_mem_take (mem_of_mem_drop he)

end BlobStorage

/-- A file of the default column family with the keys `a` to `b`. -/
def keyedFile (number : UInt64) (a b : UInt8) : BlobFileMeta where
  fileNumber := number
  fileSize := 100
  smallestKey := .byte a
  largestKey := .byte b
  state := .kNormal

/-- A storage with the files 1 to 3 and 5 to 7. -/
def twoKeyed : BlobStorage :=
  (({ dbOptions := {}, cfOptions := {} } : BlobStorage).addBlobFile
    (keyedFile 1 1 3)).addBlobFile (keyedFile 2 5 7)

instance : Std.TransCmp twoKeyed.cfOptions.comparator :=
  inferInstanceAs (Std.TransCmp bytewiseCompare)

theorem inOrder_twoKeyed : twoKeyed.RangesInOrder := by
  unfold BlobStorage.RangesInOrder
  decide +kernel

/-- Bounds that are not in order, with no file between them. -/
theorem walkRange_twoKeyed_ends :
    ∃ visited, twoKeyed.walkRange ⟨some (.byte 9), some (.byte 6)⟩ = some visited
      ∧ ∀ e ∈ visited, e ∈ twoKeyed.blobRanges := by
  refine (walkRange_ends_iff inOrder_twoKeyed _).2 ?_
  rintro start limit ⟨⟩ ⟨⟩
  decide +kernel

/-- With the file that begins at 5 between them the walk goes past the
last file. -/
theorem walkRange_twoKeyed_runs_off :
    twoKeyed.RangesInOrder
      ∧ ¬ ∃ visited, twoKeyed.walkRange ⟨some (.byte 9), some (.byte 3)⟩ = some visited
        ∧ ∀ e ∈ visited, e ∈ twoKeyed.blobRanges := by
  refine ⟨inOrder_twoKeyed, ?_⟩
  have hnone : twoKeyed.walkRange ⟨some (.byte 9), some (.byte 3)⟩ = none := by decide +kernel
  rintro ⟨visited, hwalk, -⟩
  cases hwalk

namespace BlobStorage

variable {m : BlobFileMeta} {e : UserKey × UInt64} {ranges : List RangePtr}

variable [Std.TransCmp s.cfOptions.comparator]

-- ==== the selection

/-- The bounds of the range are in order, if it has both. -/
def RangePtr.InOrder (cmp : UserKey → UserKey → Ordering) (range : RangePtr) : Prop :=
  ∀ start limit, range.start = some start → range.limit = some limit → (cmp start limit).isLE = true

/-- The keys of the file lie inside the range. -/
structure RangePtr.Spans (cmp : UserKey → UserKey → Ordering)
    (includeEnd : Bool) (range : RangePtr) (m : BlobFileMeta) : Prop where
  start : ∀ start, range.start = some start → (cmp start m.smallestKey).isLE = true
  limit : ∀ limit, range.limit = some limit →
    if includeEnd then (cmp m.largestKey limit).isLE = true
    else cmp m.largestKey limit = .lt

/-- The file lies inside the range. An empty largest key is taken for that
of a file of the old version, whose keys are not known. -/
structure RangePtr.Covers (cmp : UserKey → UserKey → Ordering)
    (includeEnd : Bool) (range : RangePtr) (m : BlobFileMeta) : Prop
    extends range.Spans cmp includeEnd m where
  known : range.limit ≠ none → m.largestKey ≠ UserKey.empty

/-- The keys of each file are in order, or the file is one of the old
version. -/
def KeysInOrder (s : BlobStorage) : Prop :=
  ∀ m ∈ s.files.entries,
    (s.cfOptions.comparator m.smallestKey m.largestKey).isLE = true
      ∨ (m.smallestKey = UserKey.empty ∧ m.largestKey = UserKey.empty)

theorem KeysInOrder.isLE (h : s.KeysInOrder) (hm : m ∈ s.files.entries) :
    (s.cfOptions.comparator m.smallestKey m.largestKey).isLE = true := by
  rcases h m hm with hle | ⟨hsmallest, hlargest⟩
  · exact hle
  · have hself : s.cfOptions.comparator UserKey.empty UserKey.empty = .eq :=
      Std.ReflCmp.compare_self
    rw [hsmallest, hlargest, hself]
    rfl

theorem reaches_iff {start : Option UserKey} :
    s.reaches start e = true ↔ ∀ k, start = some k →
      (s.cfOptions.comparator k e.1).isLE = true := by
  cases start with
  | none => simp [reaches]
  | some k =>
    rw [reaches, decide_eq_true_iff]
    simp [Ordering.isLE_iff_ne_gt, Std.OrientedCmp.gt_iff_lt]

omit [Std.TransCmp s.cfOptions.comparator] in
theorem inRange_iff {limit : Option UserKey} :
    s.inRange includeEnd limit m = true
      ↔ m.isObsolete = false ∧ (∀ k, limit = some k → if includeEnd then
            (s.cfOptions.comparator m.largestKey k).isLE = true
          else s.cfOptions.comparator m.largestKey k = .lt)
        ∧ (limit ≠ none → m.largestKey ≠ UserKey.empty) := by
  unfold inRange
  cases limit with
  | none => simp
  | some k =>
    cases includeEnd <;> simp [Ordering.isLE_iff_ne_gt, and_comm]

/-- A file inside a range begins before the end of the range. -/
theorem not_passes_of_spans (hle : (s.cfOptions.comparator m.smallestKey m.largestKey).isLE = true)
    (h : range.Spans s.cfOptions.comparator includeEnd m) :
    s.passes range.limit (m.smallestKey, m.fileNumber) = false := by
  cases hlimit : range.limit with
  | none => rfl
  | some limit =>
    have hend : (s.cfOptions.comparator m.largestKey limit).isLE = true := by
      have hl := h.limit limit hlimit
      cases includeEnd with
      | true => simpa using hl
      | false =>
        rw [hl]
        rfl
    rw [passes, decide_eq_false_iff_not]
    exact fun hlt => Std.OrientedCmp.not_isLE_of_lt hlt (Std.TransCmp.isLE_trans hle hend)

omit [Std.TransCmp s.cfOptions.comparator] in
theorem Ranged.mem_iff (h : s.Ranged) :
    e ∈ s.blobRanges ↔ ∃ m, s.findFile e.2 = some m ∧ m.smallestKey = e.1 := by
  rw [h.perm.mem_iff, mem_map]
  constructor
  · rintro ⟨m, hm, rfl⟩
    exact ⟨m, find_of_mem hm, rfl⟩
  · rintro ⟨m, hm, hkey⟩
    refine ⟨m, mem_of_find hm, ?_⟩
    rw [hkey, key_of_find hm]

omit [Std.TransCmp s.cfOptions.comparator] in
/-- No file is in the map twice. -/
theorem Ranged.nodup_files (h : s.Ranged) (hl : l.Sublist s.blobRanges) (p : BlobFileMeta → Bool) :
    (((l.filterMap fun e => s.findFile e.2).filter p).map fileNumber).Nodup := by
  have hnumbers : ∀ l : List (UserKey × UInt64),
      (((l.filterMap fun e => s.findFile e.2).map fileNumber).Sublist (l.map Prod.snd)) := by
    intro l
    induction l with
    | nil => exact List.Sublist.refl _
    | cons e l ih =>
      rw [filterMap_cons, map_cons]
      cases he : s.findFile e.2 with
      | none => exact ih.cons _
      | some m =>
        rw [map_cons, key_of_find he]
        exact ih.cons_cons _
  have hall : (s.blobRanges.map Prod.snd).Nodup := by
    have hperm := h.perm.map Prod.snd
    rw [map_map] at hperm
    exact hperm.nodup_iff.2 s.files.nodup
  have hsub := (filter_sublist (p := p) (l := l.filterMap fun e => s.findFile e.2)).map fileNumber
  exact hall.sublist ((hsub.trans (hnumbers l)).trans (hl.map Prod.snd))

/-- One round, with its bounds in order. -/
theorem Ranged.getBlobFilesInRange (h : s.Ranged) (hkeys : s.KeysInOrder)
    (hrange : range.InOrder s.cfOptions.comparator) (includeEnd : Bool) :
    ∃ files, s.getBlobFilesInRange includeEnd range = some files ∧ files.Nodup
      ∧ ∀ n, n ∈ files ↔ ∃ m, s.findFile n = some m ∧ m.isObsolete = false
        ∧ range.Covers s.cfOptions.comparator includeEnd m := by
  have hbounds := (h.inOrder.lowerBound_le_iff range).2 <| by
    rintro start limit hstart hlimit e - ⟨hpast, hbefore⟩
    exact Std.OrientedCmp.not_isLE_of_lt
      (Std.TransCmp.lt_trans hpast hbefore) (hrange start limit hstart hlimit)
  obtain ⟨visited, hwalk⟩ : ∃ visited, s.walkRange range = some visited := by
    rw [walkRange_eq, if_pos hbounds]
    exact ⟨_, rfl⟩
  have hvisited := h.inOrder.walkRange_eq_filter hwalk
  rw [getBlobFilesInRange_eq, hwalk]
  refine ⟨_, rfl, ?_, fun n => ?_⟩
  · refine h.nodup_files ?_ _
    rw [hvisited]
    exact filter_sublist
  · constructor
    · intro hn
      obtain ⟨m, hm, rfl⟩ := mem_map.1 hn
      obtain ⟨hm, htests⟩ := mem_filter.1 hm
      obtain ⟨e, he, hfind⟩ := mem_filterMap.1 hm
      rw [hvisited, mem_filter, Bool.and_eq_true] at he
      obtain ⟨m', hm', hkey⟩ := h.mem_iff.1 he.1
      cases hfind.symm.trans hm'
      obtain ⟨hlive, hlimit, hknown⟩ := inRange_iff.1 htests
      refine ⟨m, find_of_mem (mem_of_find hfind), hlive, ⟨⟨fun start hstart => ?_, hlimit⟩, hknown⟩⟩
      rw [hkey]
      exact reaches_iff.1 he.2.1 start hstart
    · rintro ⟨m, hm, hlive, hcovers⟩
      have hnumber := key_of_find hm
      have hentry : (m.smallestKey, m.fileNumber) ∈ s.blobRanges :=
        h.mem_iff.2 ⟨m, by rw [hnumber]; exact hm, rfl⟩
      have hwithin : (m.smallestKey, m.fileNumber) ∈ visited := by
        rw [hvisited, mem_filter, Bool.and_eq_true]
        refine ⟨hentry, reaches_iff.2 hcovers.start, ?_⟩
        rw [not_passes_of_spans (hkeys.isLE (mem_of_find hm)) hcovers.toSpans]
        rfl
      refine mem_map.2 ⟨m, mem_filter.2 ⟨?_, ?_⟩, hnumber⟩
      · exact mem_filterMap.2 ⟨_, hwithin, by rw [hnumber]; exact hm⟩
      · exact inRange_iff.2 ⟨hlive, hcovers.limit, hcovers.known⟩

omit [Std.TransCmp s.cfOptions.comparator] in
/-- Only live files are selected. -/
theorem live_of_mem_getBlobFilesInRanges {files : List UInt64} {n : UInt64}
    (h : s.getBlobFilesInRanges ranges includeEnd = some files)
    (hn : n ∈ files) : ∃ m, s.findFile n = some m ∧ m.isObsolete = false := by
  unfold getBlobFilesInRanges at h
  induction ranges generalizing files with
  | nil =>
    cases h
    cases hn
  | cons range ranges ih =>
    obtain ⟨rounds, hrounds, rfl⟩ := Option.map_eq_some_iff.1 h
    rw [mapM_cons] at hrounds
    obtain ⟨round, hround, hrounds⟩ := Option.bind_eq_some_iff.1 hrounds
    obtain ⟨rest, hrest, hrounds⟩ := Option.bind_eq_some_iff.1 hrounds
    cases hrounds
    rcases mem_append.1 hn with hn | hn
    case inr => exact ih (by rw [hrest]; rfl) hn
    case inl =>
      unfold getBlobFilesInRange at hround
      dsimp only at hround
      split at hround
      case isFalse => cases hround
      case isTrue =>
        cases hround
        obtain ⟨m, hm, rfl⟩ := mem_map.1 hn
        obtain ⟨hm, hin⟩ := mem_filter.1 hm
        obtain ⟨e, -, he⟩ := mem_filterMap.1 hm
        have hnumber : m.fileNumber = e.2 := key_of_find he
        rw [← hnumber] at he
        unfold inRange at hin
        rw [Bool.and_eq_true] at hin
        exact ⟨m, he, by simpa using hin.1⟩

omit [Std.TransCmp s.cfOptions.comparator] in
/-- The rounds of `GetBlobFilesInRanges`, if none of them fails. -/
theorem getBlobFilesInRanges_eq {files : RangePtr → List UInt64}
    (h : ∀ range ∈ ranges, s.getBlobFilesInRange includeEnd range = some (files range)) :
    s.getBlobFilesInRanges ranges includeEnd = some (ranges.flatMap files) := by
  have hrounds : ranges.mapM (s.getBlobFilesInRange includeEnd) = some (ranges.map files) := by
    induction ranges with
    | nil => rfl
    | cons range ranges ih =>
      rw [forall_mem_cons] at h
      rw [mapM_cons, h.1, ih h.2]
      rfl
  unfold getBlobFilesInRanges
  rw [hrounds]
  rfl

/-- **The selection of one range.** With the bounds in order,
`GetBlobFilesInRanges` returns each live file inside the range once, and
no other. -/
theorem getBlobFilesInRanges_exact (hranged : s.Ranged) (hkeys : s.KeysInOrder) {range : RangePtr}
    (hrange : range.InOrder s.cfOptions.comparator) (includeEnd : Bool) :
    ∃ files, s.getBlobFilesInRanges [range] includeEnd = some files ∧ files.Nodup
      ∧ ∀ n, n ∈ files ↔ ∃ m, s.findFile n = some m ∧ m.isObsolete = false
        ∧ range.Covers s.cfOptions.comparator includeEnd m := by
  obtain ⟨files, hfiles, hnodup, hmem⟩ := hranged.getBlobFilesInRange hkeys hrange includeEnd
  refine ⟨files, ?_, hnodup, hmem⟩
  have hone : ∀ range' ∈ [range], s.getBlobFilesInRange includeEnd range' = some files := by
    intro range' hmem
    rw [mem_singleton.1 hmem]
    exact hfiles
  rw [getBlobFilesInRanges_eq hone]
  simp

end BlobStorage

theorem ranged_twoKeyed : twoKeyed.Ranged := ⟨by decide +kernel, inOrder_twoKeyed⟩

theorem keysInOrder_twoKeyed : twoKeyed.KeysInOrder := by
  unfold BlobStorage.KeysInOrder
  decide +kernel

/-- Of the two files only the first ends below 7. -/
theorem select_twoKeyed :
    ∃ files, twoKeyed.getBlobFilesInRanges [⟨some (.byte 1), some (.byte 7)⟩] false = some files
      ∧ files.Nodup ∧ 1 ∈ files ∧ 2 ∉ files := by
  have hrange : BlobStorage.RangePtr.InOrder twoKeyed.cfOptions.comparator
      ⟨some (.byte 1), some (.byte 7)⟩ := by
    rintro start limit ⟨⟩ ⟨⟩
    decide +kernel
  obtain ⟨files, hfiles, hnodup, hmem⟩ :=
    getBlobFilesInRanges_exact ranged_twoKeyed keysInOrder_twoKeyed hrange false
  refine ⟨files, hfiles, hnodup, ?_, ?_⟩
  · refine (hmem 1).2 ⟨keyedFile 1 1 3, by decide +kernel, rfl, ⟨⟨?_, ?_⟩, ?_⟩⟩
    · rintro start ⟨⟩
      decide +kernel
    · rintro limit ⟨⟩
      decide +kernel
    · exact fun _ => by decide
  · intro hn
    obtain ⟨m, hm, -, hcovers⟩ := (hmem 2).1 hn
    have hfile : twoKeyed.findFile 2 = some (keyedFile 2 5 7) := by
      decide +kernel
    cases hfile.symm.trans hm
    have hlimit := hcovers.limit _ rfl
    revert hlimit
    decide +kernel

/-- `ReverseBytewiseComparator()`. -/
def reverseBytewiseCompare (a b : UserKey) : Ordering := bytewiseCompare b a

instance : Std.TransCmp reverseBytewiseCompare where
  eq_swap {a b} := by
    show bytewiseCompare b a = (bytewiseCompare a b).swap
    exact Std.OrientedCmp.eq_swap
  isLE_trans {a b c} h h' := by
    show (bytewiseCompare c a).isLE = true
    have hba : (bytewiseCompare b a).isLE = true := h
    have hcb : (bytewiseCompare c b).isLE = true := h'
    exact Std.TransCmp.isLE_trans hcb hba

/-- The keys of a file in descending order, down to the empty key. -/
def downToEmpty : BlobFileMeta where
  fileNumber := 1
  fileSize := 100
  smallestKey := .byte 1
  largestKey := .empty
  state := .kNormal

/-- The storage that holds it. -/
def descending : BlobStorage :=
  ({ dbOptions := {}
     cfOptions := { comparator := reverseBytewiseCompare }
     } : BlobStorage).addBlobFile downToEmpty

/-- The file lies inside the range that ends, inclusively, at the empty
key, and is taken for one of the old version. -/
theorem descending_left_out :
    Std.TransCmp descending.cfOptions.comparator ∧ descending.Ranged ∧ descending.KeysInOrder
      ∧ descending.findFile 1 = some downToEmpty
      ∧ downToEmpty.isObsolete = false ∧ downToEmpty.smallestKey ≠ .empty
      ∧ BlobStorage.RangePtr.Spans descending.cfOptions.comparator true
        ⟨none, some .empty⟩ downToEmpty
      ∧ descending.getBlobFilesInRanges [⟨none, some .empty⟩] true = some [] := by
  refine ⟨inferInstanceAs (Std.TransCmp reverseBytewiseCompare),
    ⟨by decide +kernel, ?_⟩, ?_, by decide +kernel, rfl, by decide, ⟨?_, ?_⟩,
    by decide +kernel⟩
  · unfold BlobStorage.RangesInOrder
    decide +kernel
  · unfold BlobStorage.KeysInOrder
    decide +kernel
  · rintro start ⟨⟩
  · rintro limit ⟨⟩
    decide +kernel

-- ==== lists of ranges

namespace BlobFileSet

variable {C : Coding} {files : List UInt64} {ranges : List BlobStorage.RangePtr}

/-- Of the live files, exactly those of column family `cfId` that have
`P` have become obsolete. -/
def Retires (cfId : UInt32) (P : BlobFileMeta → Prop) (fs fs' : BlobFileSet) : Prop :=
  ∀ i n, fs'.obsolete i n = true
    ↔ fs.obsolete i n = true ∨ (i = cfId ∧ ∃ m, fs.live i n = some m ∧ P m)

/-- The files after the edit of `DeleteBlobFilesInRanges`. -/
theorem file_rangeEdit (hadm : fs.Admits (rangeEdit cfId files)) (i : UInt32) (n : UInt64) :
    (fs.logAndApply C (rangeEdit cfId files) .ok).2.file i n
      = if i = cfId then (fs.file i n).map fun m =>
          if n ∈ files then m.fileStateTransit .kDelete else m else fs.file i n := by
  have hfamily : (rangeEdit cfId files).columnFamilyId = cfId := by
    rw [rangeEdit_eq]
  have hadds : (rangeEdit cfId files).addedFiles = [] := by
    rw [rangeEdit_eq]
  have hedited : edited (rangeEdit cfId files) n
      = fun m => if n ∈ files then m.fileStateTransit .kDelete else m := by
    unfold edited
    rw [rangeEdit_eq]
    simp [addDiscardableSize]
  rw [file_deletion hadds hadm, hfamily, hedited]

/-- An edit that only deletes live files retires these. -/
theorem retires_rangeEdit (hadm : fs.Admits (rangeEdit cfId files)) {P : BlobFileMeta → Prop}
    (hfiles : ∀ n, n ∈ files ↔ ∃ m, fs.live cfId n = some m ∧ P m) :
    fs.Retires cfId P (fs.logAndApply C (rangeEdit cfId files) .ok).2 := by
  intro i n
  unfold obsolete
  rw [file_rangeEdit hadm]
  by_cases hi : i = cfId
  case neg => simp [hi]
  case pos =>
    rw [if_pos hi, hi, ← hfiles n]
    cases hfile : fs.file cfId n with
    | none =>
      have hnot : n ∉ files := by
        rw [hfiles n]
        rintro ⟨m, hm, -⟩
        rw [(live_eq_some_iff.1 hm).1] at hfile
        cases hfile
      simp [hnot]
    | some m =>
      by_cases hn : n ∈ files
      · simp [hn, isObsolete, fileStateTransit, FileState.next]
      · simp [hn]

/-- The call logs the edit of the files selected. -/
theorem deleteBlobFilesInRanges_eq (hst : fs.columnFamilies.lookup cfId = some st)
    (hfiles : st.getBlobFilesInRanges ranges includeEnd = some files)
    (q : SequenceNumber) (io : ManifestIO) :
    fs.deleteBlobFilesInRanges C cfId ranges includeEnd q io
      = some (fs.logAndApply C (rangeEdit cfId files) io) := by
  unfold deleteBlobFilesInRanges
  rw [hst]
  dsimp only
  rw [hfiles]

/-- The checks of the edit, of files selected from live ones. -/
theorem admits_rangeEdit_iff (hst : fs.columnFamilies.lookup cfId = some st)
    (hlive : ∀ n ∈ files, ∃ m, st.findFile n = some m ∧ m.isObsolete = false) :
    fs.Admits (rangeEdit cfId files) ↔ files.Nodup := by
  rw [rangeEdit_eq, admits_deletion_iff rfl, map_map,
    show (Prod.fst ∘ fun n : UInt64 => (n, (0 : SequenceNumber))) = id from
      rfl, map_id]
  refine and_iff_left fun st' hst' n hn => ?_
  cases hst.symm.trans hst'
  exact hlive n hn

/-- The file lies inside one of the ranges. -/
def Covered (st : BlobStorage) (includeEnd : Bool)
    (ranges : List BlobStorage.RangePtr) (m : BlobFileMeta) : Prop :=
  ∃ range ∈ ranges, range.Covers st.cfOptions.comparator includeEnd m

/-- No live file lies inside two of the ranges. -/
def Apart (st : BlobStorage) (includeEnd : Bool) (ranges : List BlobStorage.RangePtr) : Prop :=
  ranges.Pairwise fun range range' => ∀ m ∈ st.files.entries,
    m.isObsolete = false →
      ¬ (range.Covers st.cfOptions.comparator includeEnd m
        ∧ range'.Covers st.cfOptions.comparator includeEnd m)

section rounds

variable {ranges : List BlobStorage.RangePtr} {files : BlobStorage.RangePtr → List UInt64}
  (hmem : ∀ range ∈ ranges, ∀ n, n ∈ files range ↔ ∃ m, st.findFile n = some m ∧ m.isObsolete = false ∧ range.Covers st.cfOptions.comparator includeEnd m)

include hmem

/-- What the rounds select together. -/
theorem mem_rounds_iff (hst : fs.columnFamilies.lookup cfId = some st) (n : UInt64) :
    n ∈ ranges.flatMap files ↔ ∃ m, fs.live cfId n = some m ∧ Covered st includeEnd ranges m := by
  have hfile := file_of_lookup hst n
  rw [mem_flatMap]
  constructor
  · rintro ⟨range, hrange, hn⟩
    obtain ⟨m, hm, hlive, hcovers⟩ := (hmem range hrange n).1 hn
    exact ⟨m, live_eq_some_iff.2 ⟨hfile.trans hm, hlive⟩, range, hrange, hcovers⟩
  · rintro ⟨m, hm, range, hrange, hcovers⟩
    obtain ⟨hm, hlive⟩ := live_eq_some_iff.1 hm
    exact ⟨range, hrange, (hmem range hrange n).2 ⟨m, hfile.symm.trans hm, hlive, hcovers⟩⟩

/-- A file is selected in two rounds if it lies inside both ranges. -/
theorem nodup_rounds_iff (hnodup : ∀ range ∈ ranges, (files range).Nodup) :
    (ranges.flatMap files).Nodup ↔ Apart st includeEnd ranges := by
  rw [nodup_flatMap, and_iff_right hnodup]
  refine List.Pairwise.iff_of_mem fun {range range'} hr hr' => ?_
  constructor
  · rintro hdis m hm hlive ⟨hc, hc'⟩
    have hfind : st.findFile m.fileNumber = some m := find_of_mem hm
    exact hdis ((hmem range hr _).2 ⟨m, hfind, hlive, hc⟩)
      ((hmem range' hr' _).2 ⟨m, hfind, hlive, hc'⟩)
  · intro h n hn hn'
    obtain ⟨m, hm, hlive, hc⟩ := (hmem range hr n).1 hn
    obtain ⟨m', hm', -, hc'⟩ := (hmem range' hr' n).1 hn'
    cases hm.symm.trans hm'
    exact h m (mem_of_find hm) hlive ⟨hc, hc'⟩

end rounds

/-- The edit of `DeleteBlobFilesInRanges` names the live files inside the
ranges, and passes the checks if it names none of them twice. -/
theorem deleteBlobFilesInRanges_spec (hst : fs.columnFamilies.lookup cfId = some st)
    [Std.TransCmp st.cfOptions.comparator] (hranged : st.Ranged) (hkeys : st.KeysInOrder)
    (hranges : ∀ range ∈ ranges, range.InOrder st.cfOptions.comparator) (includeEnd : Bool) :
    ∃ files : List UInt64,
      (∀ q io, fs.deleteBlobFilesInRanges C cfId ranges includeEnd q io
        = some (fs.logAndApply C (rangeEdit cfId files) io))
      ∧ (∀ n, n ∈ files ↔ ∃ m, fs.live cfId n = some m ∧ Covered st includeEnd ranges m)
      ∧ (fs.Admits (rangeEdit cfId files) ↔ Apart st includeEnd ranges) := by
  choose! files hround hnodup hmem using fun range hrange =>
    hranged.getBlobFilesInRange hkeys (hranges range hrange) includeEnd
  have hselected := mem_rounds_iff hmem hst
  refine ⟨ranges.flatMap files, fun q io => ?_, hselected, ?_⟩
  · exact deleteBlobFilesInRanges_eq hst (getBlobFilesInRanges_eq hround) q io
  · rw [← nodup_rounds_iff hmem hnodup]
    refine admits_rangeEdit_iff hst fun n hn => ?_
    obtain ⟨m, hm, -⟩ := (hselected n).1 hn
    obtain ⟨hm, hlive⟩ := live_eq_some_iff.1 hm
    exact ⟨m, (file_of_lookup hst n).symm.trans hm, hlive⟩

/-- **Deleting the files of several ranges.** With the bounds of every
range in order, `DeleteBlobFilesInRanges` returns OK and retires exactly
the live files inside one of the ranges, if and only if the manifest is
written and no live file lies inside two of them. -/
theorem deleteBlobFilesInRanges_exact_iff {cfId : UInt32} {st : BlobStorage}
    (hst : fs.columnFamilies.lookup cfId = some st)
    [Std.TransCmp st.cfOptions.comparator] (hranged : st.Ranged)
    (hkeys : st.KeysInOrder) {ranges : List BlobStorage.RangePtr}
    (hranges : ∀ range ∈ ranges, range.InOrder st.cfOptions.comparator)
    (includeEnd : Bool) (obsoleteSequence : SequenceNumber) (io : ManifestIO) :
    (∃ s fs', fs.deleteBlobFilesInRanges C cfId ranges includeEnd
          obsoleteSequence io = some (s, fs') ∧ s.isOk = true
        ∧ fs.Retires cfId (Covered st includeEnd ranges) fs')
      ↔ io = .ok ∧ Apart st includeEnd ranges := by
  obtain ⟨files, hcall, hselected, hadmits⟩ := deleteBlobFilesInRanges_spec
    (C := C) hst hranged hkeys hranges includeEnd
  rw [hcall, ← hadmits]
  constructor
  · rintro ⟨s, fs', heq, hok, -⟩
    have hstatus : (fs.logAndApply C (rangeEdit cfId files) io).1 = s :=
      congrArg Prod.fst (Option.some.inj heq)
    rw [← hstatus] at hok
    exact (logAndApply_isOk_iff.1 hok).symm
  · rintro ⟨rfl, hadm⟩
    exact ⟨_, _, rfl, logAndApply_isOk_iff.2 ⟨hadm, rfl⟩, retires_rangeEdit hadm hselected⟩

end BlobFileSet

/-- A file set with the two files in its default column family. -/
def holdsTwoKeyed : BlobFileSet where
  columnFamilies := Table.empty.insert 0 twoKeyed
  nextFileNumber := 3

theorem inOrder_bytes {a b : UInt8} (h : (bytewiseCompare (.byte a) (.byte b)).isLE = true) :
    BlobStorage.RangePtr.InOrder twoKeyed.cfOptions.comparator
      ⟨some (.byte a), some (.byte b)⟩ := by
  rintro start limit ⟨⟩ ⟨⟩
  exact h

/-- Two ranges with a file each. -/
theorem deleteTwoRanges_exact :
    ∃ s fs', holdsTwoKeyed.deleteBlobFilesInRanges base128 0
        [⟨some (.byte 1), some (.byte 4)⟩, ⟨some (.byte 4), some (.byte 8)⟩]
        true 5 .ok = some (s, fs') ∧ s.isOk = true
      ∧ holdsTwoKeyed.Retires 0 (BlobFileSet.Covered twoKeyed true
        [⟨some (.byte 1), some (.byte 4)⟩, ⟨some (.byte 4), some (.byte 8)⟩]) fs' := by
  refine (BlobFileSet.deleteBlobFilesInRanges_exact_iff rfl ranged_twoKeyed
    keysInOrder_twoKeyed ?_ true 5 .ok).2 ⟨rfl, ?_⟩
  · intro range hrange
    rcases mem_cons.1 hrange with rfl | hrange
    · exact inOrder_bytes (by decide +kernel)
    · rw [mem_singleton.1 hrange]
      exact inOrder_bytes (by decide +kernel)
  · refine pairwise_pair.2 fun m hm _ hboth => ?_
    have hnone : ∀ m ∈ twoKeyed.files.entries,
        ¬ ((bytewiseCompare m.largestKey (.byte 4)).isLE = true
          ∧ (bytewiseCompare (.byte 4) m.smallestKey).isLE = true) := by
      decide +kernel
    exact hnone m hm ⟨hboth.1.limit _ rfl, hboth.2.start _ rfl⟩

/-- The same range twice: the edit is refused, and the file inside it
stays. -/
theorem deleteTwice_refused :
    twoKeyed.Ranged ∧ twoKeyed.KeysInOrder
      ∧ BlobStorage.RangePtr.InOrder twoKeyed.cfOptions.comparator ⟨some (.byte 1), some (.byte 4)⟩
      ∧ ∃ s fs', holdsTwoKeyed.deleteBlobFilesInRanges base128 0
          [⟨some (.byte 1), some (.byte 4)⟩,
            ⟨some (.byte 1), some (.byte 4)⟩] true 5 .ok = some (s, fs')
        ∧ s = .corruption "Blob file 1 has been deleted twice"
        ∧ fs'.file 0 1 = some (keyedFile 1 1 3) := by
  refine ⟨ranged_twoKeyed, keysInOrder_twoKeyed, inOrder_bytes (by decide +kernel), ?_⟩
  obtain ⟨x, hsome, hs, hfile⟩ :
      ∃ x ∈ holdsTwoKeyed.deleteBlobFilesInRanges base128 0
        [⟨some (.byte 1), some (.byte 4)⟩, ⟨some (.byte 1), some (.byte 4)⟩]
        true 5 .ok, x.1 = .corruption "Blob file 1 has been deleted twice"
        ∧ x.2.file 0 1 = some (keyedFile 1 1 3) := by decide +kernel
  exact ⟨x.1, x.2, hsome, hs, hfile⟩

end DiffKV
