/-
What an iterator and a scan show, against what is stored.

`value` needs the entry it stands on to be inline or its record to be
read; on any other entry the iterator stays valid and shows what an
earlier entry has left. So the fold `showsAfter` over the entries visited
says what is shown, with no state of the iterator in it.

`Scan` marks the slots it has to read by an empty value. It takes the
caller's values and the empty inline values for marks as well, and a read
that fails takes the value of the read before it.
-/
import DiffKV.Scan
import DiffKV.Proofs.Reads

namespace DiffKV

open Lib List TitanDBIterator BlobIndex Option

variable {v : Bytes} {p : BlobFilePrefetcher} {x : ScanSlot}
  {handle : BlobHandle} {visible : List (Bytes × BaseEntry)} {e : BaseEntry}
  {range : List ScanSlot} {values : List Bytes}

-- ==== entries

namespace BaseEntry

variable (K : Codec) (dir : BlobDir) (s : BlobStorage)

/-- The open file and the place in it that a blob index names. -/
def prefetcher (e : BaseEntry) : Option (BlobFilePrefetcher × BlobHandle) :=
  match BlobIndex.decodeInto K.coding e.value with
  | .error _ => none
  | .ok index =>
    match s.newPrefetcher K dir index.fileNumber with
    | .error _ => none
    | .ok p => some (p, index.blobHandle)

/-- The value of an entry, unless its record cannot be read. -/
def read (e : BaseEntry) : Option Bytes :=
  if e.isBlob then
    (e.prefetcher K dir s).bind fun (p, handle) =>
      (p.get K handle).toOption.map BlobRecord.value
  else some e.value

/-- The record of an iterator after a move to the entry. -/
def showsAfter (slice : Option Bytes) (e : BaseEntry) : Option Bytes :=
  if e.isBlob then
    match e.prefetcher K dir s with
    | none => slice
    | some (p, handle) => p.leaves K handle (givenBack slice)
  else slice

variable {K dir s}

theorem read_blob (hblob : e.isBlob = true) :
    e.read K dir s = some v
      ↔ ∃ p handle r, e.prefetcher K dir s = some (p, handle)
          ∧ p.get K handle = .ok r ∧ r.value = v := by
  rw [read, if_pos hblob]
  cases e.prefetcher K dir s with
  | none => simp
  | some found =>
    obtain ⟨p, handle⟩ := found
    cases hget : p.get K handle <;> simp [Except.toOption, hget]

/-- Only a record can be unreadable. -/
theorem isBlob_of_unread (h : e.read K dir s = none) : e.isBlob = true := by
  by_contra hinline
  rw [read, if_neg hinline] at h
  cases h

theorem leaves_of_read (hblob : e.isBlob = true) (hread : e.read K dir s = some v)
    (hp : e.prefetcher K dir s = some (p, handle)) (slice : Option Bytes) :
    p.leaves K handle slice = some v := by
  obtain ⟨p', handle', r, hp', hget, rfl⟩ := (read_blob hblob).1 hread
  rw [hp] at hp'
  cases hp'
  rw [BlobFilePrefetcher.leaves, hget]

end BaseEntry

/-- A read that leaves a value leaves the one it has decoded, if any. -/
theorem BlobFilePrefetcher.decodes_getD {K : Codec} {w : Bytes}
    (h : p.leaves K handle (some v) = some w) : (p.decodes K handle).getD v = w := by
  unfold leaves at h
  cases hget : p.get K handle with
  | ok r =>
    rw [hget] at h
    cases h
    rw [decodes, hget, getD_some]
  | error =>
    rw [hget] at h
    cases hdecodes : p.decodes K handle with
    | none =>
      rw [hdecodes] at h
      cases h
      rfl
    | some u =>
      simp only [hdecodes, givenBack] at h
      split at h
      case isTrue hu =>
        cases h
        rfl
      case isFalse => cases h

-- ==== iterator

namespace BufferedIterator

variable {K : Codec} {dir : BlobDir} {s : BlobStorage} {it : BufferedIterator}
  (moves : List ArenaWrappedDBIter)

theorem slice_move (h : it.Cached K dir s) (hkey : it.keyOnly = false) (iter : ArenaWrappedDBIter) :
    (it.move K dir s iter).slice
      = iter.entry.toList.foldl (BaseEntry.showsAfter K dir s) it.slice := by
  cases hentry : iter.entry with
  | none => simp [move, hentry]
  | some e =>
    cases hblob : e.isBlob with
    | false => simp [move, hentry, hblob, BaseEntry.showsAfter]
    | true =>
      simp only [move, hentry, hblob, hkey, Bool.not_true, Bool.or_self,
        Bool.false_eq_true, if_false, toList_some, foldl_cons,
        foldl_nil, BaseEntry.showsAfter, if_true, sliceAfter, BaseEntry.prefetcher]
      cases decodeInto K.coding e.value with
      | error => rfl
      | ok index =>
        simp only [h.findPrefetcher_eq]
        cases s.newPrefetcher K dir index.fileNumber <;> rfl

theorem toTitanDBIterator_moves (it : BufferedIterator) (moves : List ArenaWrappedDBIter) :
    (moves.foldl (move K dir s) it).toTitanDBIterator
      = moves.foldl (TitanDBIterator.move K dir s) it.toTitanDBIterator := by
  induction moves generalizing it with
  | nil => rfl
  | cons iter moves ih => exact ih _

/-- The iterator after some moves, and what it shows. -/
def after (K : Codec) (dir : BlobDir) (s : BlobStorage)
    (moves : List ArenaWrappedDBIter) : BufferedIterator :=
  moves.foldl (move K dir s) (create false)

theorem cached_after : (after K dir s moves).Cached K dir s := by
  rw [after, toTitanDBIterator_moves]
  exact cached_moves false moves

theorem keyOnly_after : (after K dir s moves).keyOnly = false := by
  rw [after, toTitanDBIterator_moves]
  exact keyOnly_moves _ moves

/-- The record depends on the entries visited only. -/
theorem slice_after :
    (after K dir s moves).slice
      = (moves.filterMap ArenaWrappedDBIter.entry).foldl
          (BaseEntry.showsAfter K dir s) (some []) := by
  induction moves using reverseRecOn with
  | nil => rfl
  | append_singleton moves iter ih =>
    have hmove : after K dir s (moves ++ [iter]) = (after K dir s moves).move K dir s iter := by
      rw [after, foldl_append]
      rfl
    rw [hmove, slice_move (cached_after moves) (keyOnly_after moves), ih,
      filterMap_append, foldl_append]
    cases hentry : iter.entry <;> simp [hentry]

theorem value?_after (e : BaseEntry) (status : Status) :
    (after K dir s (moves ++ [⟨some e, status⟩])).value? = if e.isBlob then
          ((moves.filterMap ArenaWrappedDBIter.entry) ++ [e]).foldl
            (BaseEntry.showsAfter K dir s) (some [])
        else some e.value := by
  have hiter : (after K dir s (moves ++ [⟨some e, status⟩])).iter = ⟨some e, status⟩ := by
    rw [after, foldl_append]
    exact frame_move.2
  rw [value?, hiter, keyOnly_after]
  simp only [Bool.false_eq_true, if_false, slice_after]
  rw [filterMap_append]
  rfl

/-- An entry whose record is read is shown as it is. -/
theorem value?_of_read (hread : e.read K dir s = some v)
    (moves : List ArenaWrappedDBIter) (status : Status) :
    (after K dir s (moves ++ [⟨some e, status⟩])).value? = some v := by
  rw [value?_after]
  cases hblob : e.isBlob with
  | false =>
    rw [BaseEntry.read, hblob] at hread
    exact hread
  | true =>
    obtain ⟨p, handle, r, hp, -, -⟩ := (BaseEntry.read_blob hblob).1 hread
    rw [if_pos rfl, foldl_append, foldl_cons, foldl_nil, BaseEntry.showsAfter, if_pos hblob, hp]
    exact BaseEntry.leaves_of_read hblob hread hp _

end BufferedIterator

/-- `stored` says what was stored for the entries: what can be read is
what was stored. -/
def Contents (K : Codec) (dir : BlobDir) (s : BlobStorage) (stored : BaseEntry → Bytes) : Prop :=
  ∀ e v, e.read K dir s = some v → stored e = v

/-- A storage with the file 5. -/
def holdingTwo : BlobStorage :=
  separating.addBlobFile { fileNumber := 5, fileSize := 68 }

/-- A record of the file 6. -/
def ofMissing : BaseEntry where
  value := BlobIndex.encodeTo base128 { fileNumber := 6, blobHandle := { offset := 8, size := 15 } }
  isBlob := true

/-- What can be read, and a value for what cannot be. -/
def storedOfTwo (e : BaseEntry) : Bytes :=
  (e.read trailingZeros dirOfTwo holdingTwo).getD [1]

theorem contents_storedOfTwo : Contents trailingZeros dirOfTwo holdingTwo storedOfTwo := by
  intro e v hread
  rw [storedOfTwo, hread]
  rfl

/-- A slot of a scan: the key and the entry that belong there, and what
the caller's vector of values holds. -/
abbrev ScanSlot := (Bytes × BaseEntry) × Bytes

namespace ScanSlot

variable (K : Codec) (dir : BlobDir) (s : BlobStorage)

/-- The slot waits for a read that can be tried. -/
def pending (x : ScanSlot) : Bool := x.1.2.isBlob && x.2.isEmpty

/-- The record of the slot names no file that can be opened. -/
def unopened (x : ScanSlot) : Bool :=
  x.1.2.isBlob && (x.1.2.prefetcher K dir s).isNone

/-- The slot after the first loop. -/
def collected (x : ScanSlot) : Bytes × BlobIndex :=
  if x.1.2.isBlob then
    (x.2, (BlobIndex.decodeInto K.coding x.1.2.value).toOption.getD ⟨0, ⟨0, 0⟩⟩)
  else (x.1.2.value, ⟨0, ⟨0, 0⟩⟩)

/-- The one record of the scan after the slot. -/
def held (v : Bytes) (x : ScanSlot) : Bytes :=
  if x.pending then
    ((x.1.2.prefetcher K dir s).bind fun (p, handle) =>
      p.decodes K handle).getD v
  else v

/-- The slot after the second loop, if every record is read. -/
def fetched (x : ScanSlot) : Bytes :=
  if x.pending then (x.1.2.read K dir s).getD [] else (x.collected K).1

variable {K dir s}

theorem prefetcher_isSome (hblob : x.1.2.isBlob = true) (hopen : x.unopened K dir s = false) :
    (x.1.2.prefetcher K dir s).isSome = true := by
  simpa [unopened, hblob, isSome_iff_ne_none] using hopen

/-- The index of a slot is the one its record is found by. -/
theorem collected_index (hblob : x.1.2.isBlob = true) :
    x.1.2.prefetcher K dir s = some (p, handle)
      → s.newPrefetcher K dir (x.collected K).2.fileNumber = .ok p
        ∧ (x.collected K).2.blobHandle = handle := by
  rw [collected, if_pos hblob, BaseEntry.prefetcher]
  cases decodeInto K.coding x.1.2.value with
  | error => intro h; cases h
  | ok index =>
    dsimp only [Except.toOption, getD_some]
    cases s.newPrefetcher K dir index.fileNumber with
    | error => intro h; cases h
    | ok p => intro h; cases h; exact ⟨rfl, rfl⟩

/-- What the second loop finds in `files_` for a slot. -/
structure Served (K : Codec) (dir : BlobDir) (s : BlobStorage)
    (files : Map UInt64 BlobFilePrefetcher) (x : ScanSlot) : Prop where
  blob : x.1.2.isBlob = true →
    ∃ p, files.lookup (x.collected K).2.fileNumber = some p
      ∧ x.1.2.prefetcher K dir s = some (p, (x.collected K).2.blobHandle)
  inline : x.1.2.isBlob = false → files.lookup (x.collected K).2.fileNumber = none

end ScanSlot

-- ==== first loop

namespace TitanDBIterator

variable {K : Codec} {dir : BlobDir} {s : BlobStorage} {it : TitanDBIterator}

/-- A file that was found stays in `files_`. -/
theorem lookup_collect {n : UInt64} (hp : it.files.lookup n = some p) :
    (collect K dir s it values visible).it.files.lookup n = some p := by
  induction values generalizing visible it with
  | nil => exact hp
  | cons v values ih =>
    match visible with
    | [] => exact hp
    | (key, e) :: visible =>
      unfold collect
      split
      case isTrue => exact ih hp
      case isFalse =>
        split
        case h_1 => exact hp
        case h_2 index _ =>
          split
          case h_1 => exact hp
          case h_2 p' hp' =>
            refine ih ?_
            rw [Table.lookup_insert]
            split
            case isFalse => exact hp
            case isTrue hn =>
              -- the file itself: it is found, and put back
              rw [findPrefetcher, ← hn, hp] at hp'
              cases hp'
              rfl

/-- The iterator after the first loop has opened the file of a slot. -/
def noted (K : Codec) (dir : BlobDir) (s : BlobStorage) (it : TitanDBIterator)
    (x : ScanSlot) : TitanDBIterator :=
  if x.1.2.isBlob then
    { it with
      files := (x.1.2.prefetcher K dir s).elim it.files fun found =>
        it.files.insert (x.collected K).2.fileNumber found.1 }
  else it

theorem noted_spec (h : Cached K dir s it) (hopen : x.unopened K dir s = false) :
    Cached K dir s (noted K dir s it x) ∧ (noted K dir s it x).keyOnly = it.keyOnly
      ∧ (x.1.2.isBlob = true → ∃ p, (noted K dir s it x).files.lookup
          (x.collected K).2.fileNumber = some p) := by
  unfold noted
  split
  case isFalse hinline => exact ⟨h, rfl, fun hblob => absurd hblob hinline⟩
  case isTrue hblob =>
    obtain ⟨⟨p, handle⟩, hp⟩ := isSome_iff_exists.1 (ScanSlot.prefetcher_isSome hblob hopen)
    rw [hp, elim_some]
    refine ⟨h.insert (ScanSlot.collected_index hblob hp).1, rfl, fun _ => ⟨p, ?_⟩⟩
    rw [Table.lookup_insert, if_pos rfl]

/-- What the first loop does at an entry: an inline value is stored, a
record whose file opens is noted, and any other ends the scan. -/
theorem collect_cons (h : Cached K dir s it) (hkey : it.keyOnly = false)
    (v : Bytes) (values : List Bytes) (x : Bytes × BaseEntry) (visible : List (Bytes × BaseEntry)) :
    collect K dir s it (v :: values) (x :: visible)
      = if ScanSlot.unopened K dir s (x, v) then ⟨it, [], [], true⟩
        else (collect K dir s (noted K dir s it (x, v)) values visible).cons
          x.1 (ScanSlot.collected K (x, v)) := by
  obtain ⟨key, e⟩ := x
  cases hblob : e.isBlob with
  | false =>
    simp [collect, hblob, ScanSlot.unopened, ScanSlot.collected, noted]
  | true =>
    simp only [collect, hblob, hkey, ScanSlot.unopened, ScanSlot.collected,
      noted, BaseEntry.prefetcher, h.findPrefetcher_eq]
    cases decodeInto K.coding e.value with
    | error => simp
    | ok index =>
      cases hnew : s.newPrefetcher K dir index.fileNumber with
      | error => simp [hnew]
      | ok p => simp [hnew, Except.toOption]

/-- The first loop has filled every slot. -/
structure Complete (K : Codec) (dir : BlobDir) (s : BlobStorage)
    (c : ScanCollected) (range : List ScanSlot) : Prop where
  stopped : c.stopped = false
  keys : c.keys = range.map fun x => x.1.1
  slots : c.slots = range.map (ScanSlot.collected K)
  cached : Cached K dir s c.it
  found : ∀ x ∈ range, x.1.2.isBlob = true →
    ∃ p, c.it.files.lookup (x.collected K).2.fileNumber = some p

theorem collect_complete (h : Cached K dir s it) (hkey : it.keyOnly = false)
    (hopen : ∀ x ∈ visible.zip values, ScanSlot.unopened K dir s x = false) :
    Complete K dir s (collect K dir s it values visible) (visible.zip values) := by
  induction values generalizing visible it with
  | nil =>
    rw [zip_nil_right]
    exact ⟨rfl, rfl, rfl, h, fun _ hx => nomatch hx⟩
  | cons v values ih =>
    match visible with
    | [] => exact ⟨rfl, rfl, rfl, h, fun _ hx => nomatch hx⟩
    | x :: visible =>
      rw [zip_cons_cons, forall_mem_cons] at hopen
      rw [collect_cons h hkey, hopen.1, zip_cons_cons]
      obtain ⟨hcached, hkey', hfound⟩ := noted_spec h hopen.1
      have hrest := ih hcached (hkey'.trans hkey) hopen.2
      refine ⟨hrest.stopped, congrArg _ hrest.keys, congrArg _ hrest.slots,
        hrest.cached, forall_mem_cons.2 ⟨fun hblob => ?_, hrest.found⟩⟩
      obtain ⟨p, hp⟩ := hfound hblob
      exact ⟨p, lookup_collect hp⟩

/-- The second loop finds the file of every record, and none for the
other slots, as no file has the number 0. -/
theorem Complete.served {c : ScanCollected} (h : Complete K dir s c range)
    (hzero : s.findFile 0 = none) (hopen : ∀ x ∈ range, ScanSlot.unopened K dir s x = false) :
    ∀ x ∈ range, ScanSlot.Served K dir s c.it.files x := by
  intro x hx
  constructor
  · intro hblob
    obtain ⟨p, hp⟩ := h.found x hx hblob
    obtain ⟨⟨p', handle⟩, hp'⟩ := isSome_iff_exists.1
      (ScanSlot.prefetcher_isSome hblob (hopen x hx))
    obtain ⟨hnew, rfl⟩ := ScanSlot.collected_index hblob hp'
    rw [h.cached _ _ hp] at hnew
    cases hnew
    exact ⟨p, hp, hp'⟩
  · intro hinline
    rw [ScanSlot.collected, hinline]
    cases hp : c.it.files.lookup 0 with
    | none => exact hp
    | some p =>
      have hnew := h.cached 0 p hp
      rw [BlobStorage.newPrefetcher, hzero] at hnew
      cases hnew

/-- The caller's values after the first loop; `rest` are those beyond the
slots. -/
def collectedValues (c : ScanCollected) (values rest : List Bytes) : List Bytes :=
  c.slots.map Prod.fst ++ (values ++ rest).drop c.slots.length

/-- A scan that stops leaves the caller's value in the slot of every
record. -/
theorem collect_stopped (h : Cached K dir s it) (hkey : it.keyOnly = false)
    (hstop : ∃ x ∈ visible.zip values, ScanSlot.unopened K dir s x = true) (rest : List Bytes) :
    (collect K dir s it values visible).stopped = true
      ∧ ∀ (i : Nat) (x : ScanSlot), (visible.zip values)[i]? = some x → x.1.2.isBlob = true →
          (collectedValues (collect K dir s it values visible) values rest)[i]? = some x.2 := by
  induction values generalizing visible it with
  | nil =>
    obtain ⟨x, hx, -⟩ := hstop
    rw [zip_nil_right] at hx
    cases hx
  | cons v values ih =>
    match visible with
    | [] =>
      obtain ⟨x, hx, -⟩ := hstop
      cases hx
    | x :: visible =>
      rw [collect_cons h hkey]
      split
      case isTrue =>
        refine ⟨rfl, fun i y hy _ => ?_⟩
        have hslot := (getElem?_zip_eq_some.1 hy).2
        have hlt := (List.getElem?_eq_some_iff.1 hslot).1
        rw [collectedValues, map_nil, nil_append, length_nil, drop_zero, getElem?_append_left hlt]
        exact hslot
      case isFalse hopen =>
        have hrest : ∃ y ∈ visible.zip values, ScanSlot.unopened K dir s y = true := by
          obtain ⟨y, hy, hstopped⟩ := hstop
          rcases mem_cons.1 hy with rfl | hy
          · exact absurd hstopped hopen
          · exact ⟨y, hy, hstopped⟩
        obtain ⟨hcached, hkey', -⟩ := noted_spec h (Bool.eq_false_iff.2 hopen)
        obtain ⟨hstopped, hvalues⟩ := ih hcached (hkey'.trans hkey) hrest
        refine ⟨hstopped, fun i y hy hblob => ?_⟩
        cases i with
        | zero =>
          cases hy
          rw [ScanSlot.collected, if_pos hblob]
          rfl
        | succ i => exact hvalues i y hy hblob

-- ==== second loop

variable {files : Map UInt64 BlobFilePrefetcher}

/-- The second loop at a slot. -/
theorem fetch_cons (h : ScanSlot.Served K dir s files x)
    (slice : Option Bytes) (slots : List (Bytes × BlobIndex)) :
    fetch K files slice (x.collected K :: slots) = if x.pending then
          ((x.1.2.prefetcher K dir s).bind fun (p, handle) =>
            p.leaves K handle slice).bind fun w =>
              (fetch K files (some w) slots).map (w :: ·)
        else if x.1.2.isBlob || !x.1.2.value.isEmpty then
          (fetch K files slice slots).map ((x.collected K).1 :: ·)
        else none := by
  cases hblob : x.1.2.isBlob with
  | false =>
    have hnone := h.inline hblob
    have hslot : x.collected K = (x.1.2.value, ⟨0, ⟨0, 0⟩⟩) := by
      rw [ScanSlot.collected, hblob]
      rfl
    rw [hslot] at hnone ⊢
    cases hempty : x.1.2.value.isEmpty <;> simp [fetch, hempty, hnone, ScanSlot.pending, hblob]
  | true =>
    obtain ⟨p, hp, hprefetcher⟩ := h.blob hblob
    have hvalue : (x.collected K).1 = x.2 := by
      rw [ScanSlot.collected, hblob]
      rfl
    rw [hprefetcher, bind_some]
    cases hempty : x.2.isEmpty with
    | false => simp [fetch, hvalue, hempty, ScanSlot.pending, hblob]
    | true =>
      simp only [fetch, hvalue, hempty, ScanSlot.pending, hblob, if_true, hp, Bool.and_self]
      cases p.leaves K (x.collected K).2.blobHandle slice <;> rfl

/-- With every record read, the second loop ends unless an inline value
is empty, and leaves the caller's values where they are not empty. -/
theorem fetch_of_read (hserved : ∀ x ∈ range, ScanSlot.Served K dir s files x)
    (hread : ∀ x ∈ range, (x.1.2.read K dir s).isSome = true) (slice : Option Bytes) :
    fetch K files slice (range.map (ScanSlot.collected K))
      = if range.all fun x => x.1.2.isBlob || !x.1.2.value.isEmpty then
          some (range.map (ScanSlot.fetched K dir s))
        else none := by
  induction range generalizing slice with
  | nil => rfl
  | cons x range ih =>
    rw [forall_mem_cons] at hserved hread
    have ih := ih hserved.2 hread.2
    rw [map_cons, fetch_cons hserved.1]
    cases hpending : x.pending with
    | false =>
      cases hfull : x.1.2.isBlob || !x.1.2.value.isEmpty with
      | false => simp [hfull]
      | true =>
        simp only [Bool.false_eq_true, if_false, if_true, ih slice,
          all_cons, hfull, Bool.true_and, map_cons, ScanSlot.fetched, hpending]
        split <;> rfl
    | true =>
      have hblob : x.1.2.isBlob = true := by
        rw [ScanSlot.pending, Bool.and_eq_true] at hpending
        exact hpending.1
      obtain ⟨v, hv⟩ := isSome_iff_exists.1 hread.1
      obtain ⟨p, handle, -, hp, -, -⟩ := (BaseEntry.read_blob hblob).1 hv
      simp only [if_true, hp, bind_some,
        BaseEntry.leaves_of_read hblob hv hp, ih, all_cons, hblob,
        Bool.true_or, Bool.true_and, map_cons, ScanSlot.fetched, hpending, hv, getD_some]
      split <;> rfl

/-- A record that is not read shows the caller's value, or else the last
value that any read has set. -/
theorem fetch_of_unread (hserved : ∀ x ∈ range, ScanSlot.Served K dir s files x)
    {fetched : List Bytes}
    (hfetch : fetch K files (some v) (range.map (ScanSlot.collected K)) = some fetched) :
    fetched.length = range.length
      ∧ ∀ (i : Nat) (x : ScanSlot), range[i]? = some x → x.1.2.read K dir s = none →
          fetched[i]? = some (if x.2.isEmpty then
            (range.take (i + 1)).foldl (ScanSlot.held K dir s) v else x.2) := by
  induction range generalizing v fetched with
  | nil =>
    cases hfetch
    exact ⟨rfl, fun i x hx => by simp at hx⟩
  | cons x range ih =>
    rw [forall_mem_cons] at hserved
    rw [map_cons, fetch_cons hserved.1] at hfetch
    split at hfetch
    case isFalse hpending =>
      split at hfetch
      case isFalse => cases hfetch
      case isTrue =>
        obtain ⟨tail, htail, rfl⟩ := map_eq_some_iff.1 hfetch
        obtain ⟨hlength, hshown⟩ := ih hserved.2 htail
        refine ⟨congrArg Nat.succ hlength, fun i y hy hunread => ?_⟩
        have hheld : ScanSlot.held K dir s v x = v := if_neg hpending
        cases i with
        | succ i =>
          rw [take_succ_cons, foldl_cons, hheld]
          exact hshown i y hy hunread
        | zero =>
          cases hy
          have hblob := BaseEntry.isBlob_of_unread hunread
          have hfull : x.2.isEmpty = false := by
            simpa [ScanSlot.pending, hblob] using hpending
          simp [hfull, ScanSlot.collected, hblob]
    case isTrue hpending =>
      obtain ⟨w, hw, hfetch⟩ := bind_eq_some_iff.1 hfetch
      obtain ⟨tail, htail, rfl⟩ := map_eq_some_iff.1 hfetch
      obtain ⟨⟨p, handle⟩, hp, hw⟩ := bind_eq_some_iff.1 hw
      have hheld : ScanSlot.held K dir s v x = w := by
        rw [ScanSlot.held, if_pos hpending, hp, bind_some]
        exact BlobFilePrefetcher.decodes_getD hw
      obtain ⟨hlength, hshown⟩ := ih hserved.2 htail
      refine ⟨congrArg Nat.succ hlength, fun i y hy hunread => ?_⟩
      cases i with
      | succ i =>
        rw [take_succ_cons, foldl_cons, hheld]
        exact hshown i y hy hunread
      | zero =>
        cases hy
        rw [ScanSlot.pending, Bool.and_eq_true] at hpending
        simp [hpending.2, hheld]

end TitanDBIterator

-- ==== TitanDBImpl

section Scan

variable (K : Codec) (dir : BlobDir) (s : BlobStorage) {i : Nat}

/-- The iterator after a seek to the first entry and `i` steps. -/
def BufferedIterator.walk (visible : List (Bytes × BaseEntry)) (i : Nat) :
    BufferedIterator :=
  after K dir s ((visible.take (i + 1)).map fun x => ⟨some x.2, .ok⟩)

/-- Every record of some entries can be read. -/
def allRead (entries : List (Bytes × BaseEntry)) : Bool :=
  entries.all fun x => (x.2.read K dir s).isSome

/-- What a scan is to return: the entries as the iterator has them, and
if a record cannot be read, no other record's value for it. -/
def ScanCorrect (visible : List (Bytes × BaseEntry)) (len : Nat) (out : Option ScanResult) : Prop :=
  let entries := visible.take len
  ∃ r, out = some r
    ∧ if allRead K dir s entries then
        r.len = min len visible.length
          ∧ ∀ (i : Nat) x, entries[i]? = some x →
              r.keys[i]? = some x.1
                ∧ r.values[i]? = (BufferedIterator.walk K dir s visible i).value?
      else
        ∀ (i : Nat) x, entries[i]? = some x → i < r.len → x.2.read K dir s = none →
          ∀ (j : Nat) y, entries[j]? = some y → j ≠ i → y.2.read K dir s ≠ r.values[i]?

/-- The slots of a scan. -/
def scanRange (visible : List (Bytes × BaseEntry)) (len : Nat)
    (values : List Bytes) : List ScanSlot :=
  visible.zip ((resized len values).take len)

/-- The value in the slot of a record that cannot be read. -/
def shownUnread (range : List ScanSlot) (i : Nat) (x : ScanSlot) : Bytes :=
  if range.any (ScanSlot.unopened K dir s) || !x.2.isEmpty then x.2
  else (range.take (i + 1)).foldl (ScanSlot.held K dir s) []

variable {K dir s} {len : Nat} {keys : List Bytes}

theorem length_take_resized : ((resized len values).take len).length = len := by
  simp only [resized, length_take, length_append, length_replicate]
  omega

theorem map_fst_scanRange : (scanRange visible len values).map Prod.fst = visible.take len := by
  rw [scanRange, zip_eq_zip_take_min, length_take_resized, map_fst_zip (by
      rw [length_take, length_take, length_take_resized]
      omega)]
  exact take_eq_take_iff.2 (by omega)

theorem length_scanRange : (scanRange visible len values).length = min len visible.length := by
  rw [scanRange, length_zip, length_take_resized, Nat.min_comm]

theorem ScanSlot.opened_of_read (h : (x.1.2.read K dir s).isSome = true) :
    x.unopened K dir s = false := by
  cases hblob : x.1.2.isBlob with
  | false => rw [unopened, hblob, Bool.false_and]
  | true =>
    obtain ⟨v, hv⟩ := isSome_iff_exists.1 h
    obtain ⟨p, handle, -, hp, -, -⟩ := (BaseEntry.read_blob hblob).1 hv
    rw [unopened, hp, isNone_some, Bool.and_false]

/-- A slot is right if its value was empty, or right already. -/
theorem ScanSlot.fetched_eq_read_iff (h : (x.1.2.read K dir s).isSome = true) :
    some (x.fetched K dir s) = x.1.2.read K dir s
      ↔ (x.1.2.isBlob = true → x.2 = [] ∨ x.1.2.read K dir s = some x.2) := by
  obtain ⟨v, hv⟩ := isSome_iff_exists.1 h
  cases hblob : x.1.2.isBlob with
  | false =>
    simp [fetched, pending, hblob, collected, BaseEntry.read]
  | true =>
    cases hempty : x.2.isEmpty with
    | true =>
      simp [fetched, pending, hblob, hv, isEmpty_iff.1 hempty]
    | false =>
      have hne : x.2 ≠ [] := isEmpty_eq_false_iff.1 hempty
      simp [fetched, pending, hblob, hempty, hv, collected, hne, eq_comm]

/-- The walk shows the entry it ends at. -/
theorem BufferedIterator.walk_of_read {x : Bytes × BaseEntry}
    (hx : visible[i]? = some x) (hread : (x.2.read K dir s).isSome = true) :
    (walk K dir s visible i).value? = x.2.read K dir s := by
  obtain ⟨v, hv⟩ := isSome_iff_exists.1 hread
  rw [walk, take_add_one, hx, map_append, hv]
  exact value?_of_read hv _ .ok

/-- With every record read, the scan has all slots filled, unless it has
gone astray at an empty inline value. -/
theorem TitanDBImpl.scan_of_read (hzero : s.findFile 0 = none)
    (hread : ∀ x ∈ scanRange visible len values, (x.1.2.read K dir s).isSome = true) :
    let range := scanRange visible len values
    TitanDBImpl.scan K dir s visible len keys values
      = if range.all fun x => x.1.2.isBlob || !x.1.2.value.isEmpty then
          some
            { len := range.length
              keys := range.map (fun x => x.1.1) ++ (resized len keys).drop range.length
              values := range.map (ScanSlot.fetched K dir s)
                ++ (resized len values).drop range.length }
        else none := by
  intro range
  have hopen : ∀ x ∈ range, x.unopened K dir s = false :=
    fun x hx => ScanSlot.opened_of_read (hread x hx)
  have hcomplete : TitanDBIterator.Complete K dir s _ range :=
    TitanDBIterator.collect_complete (TitanDBIterator.cached_create false) rfl hopen
  have hfetch := TitanDBIterator.fetch_of_read (hcomplete.served hzero hopen) hread (some [])
  simp only [scan, TitanDBIterator.scan, hcomplete.stopped, hcomplete.keys,
    hcomplete.slots, hfetch, Bool.false_eq_true, if_false, length_map]
  split <;> simp

/-- If a record cannot be read and the scan returns, the slot of each such
record is within the length it returns. -/
theorem TitanDBImpl.scan_of_unread (hzero : s.findFile 0 = none) {r : ScanResult}
    (hscan : TitanDBImpl.scan K dir s visible len keys values = some r)
    (hx : (scanRange visible len values)[i]? = some x) (hunread : x.1.2.read K dir s = none) :
    i < r.len ∧ r.values[i]? = some (shownUnread K dir s (scanRange visible len values) i x) := by
  have hi : i < (scanRange visible len values).length := (List.getElem?_eq_some_iff.1 hx).1
  have hblob := BaseEntry.isBlob_of_unread hunread
  unfold shownUnread
  cases hany : (scanRange visible len values).any (ScanSlot.unopened K dir s) with
  | true =>
    rw [List.any_eq_true] at hany
    obtain ⟨hstopped, hvalues⟩ := TitanDBIterator.collect_stopped
      (TitanDBIterator.cached_create false) rfl hany ((resized len values).drop len)
    simp only [scan, TitanDBIterator.scan, hstopped, if_true] at hscan
    cases hscan
    have hlen : i < len := by
      rw [length_scanRange] at hi
      omega
    have hvalue := hvalues i x hx hblob
    rw [TitanDBIterator.collectedValues, take_append_drop] at hvalue
    exact ⟨hlen, hvalue⟩
  | false =>
    have hopen : ∀ x ∈ scanRange visible len values, x.unopened K dir s = false := by
      simpa using hany
    have hcomplete := TitanDBIterator.collect_complete
      (TitanDBIterator.cached_create false) rfl hopen
    rw [← scanRange] at hcomplete
    simp only [scan, TitanDBIterator.scan, hcomplete.stopped, hcomplete.keys,
      hcomplete.slots, Bool.false_eq_true, if_false, map_eq_some_iff] at hscan
    obtain ⟨fetched, hfetch, rfl⟩ := hscan
    obtain ⟨hlength, hshown⟩ := TitanDBIterator.fetch_of_unread
      (hcomplete.served hzero hopen) hfetch
    refine ⟨by simpa using hi, ?_⟩
    rw [getElem?_append_left (by omega), hshown i x hx hunread]
    cases x.2.isEmpty <;> rfl

end Scan

/-- A place in the file 5 that no record is at. -/
def misplacedOfTwo : BaseEntry where
  value := BlobIndex.encodeTo base128 { fileNumber := 5, blobHandle := { offset := 9, size := 15 } }
  isBlob := true

end DiffKV
