/-
The collector's iterators over its input files, and what becomes of a
file they cannot read.

`BlobFileIterator` takes the end of the records from the footer without
asking whether the footer decoded: `stopped_seekToFirst_iff` says what
stops it instead.

The merge is followed over what each iterator still visits
(`remaining`): `Standing` is the state of the loop, one round of it takes
the front of one of the lists, and the loop as a whole visits a merge of
them. An iterator that meets an error leaves the heap like one that is
exhausted, so what it did not visit is missing from the merge and
nothing tells.
-/
import DiffKV.Proofs.BlobFileBytes
import DiffKV.MergeIterator

namespace DiffKV

open Lib List BlobFileIterator

variable {K : Codec} {it : BlobFileIterator}

-- ==== bad footers

/-- The footer does not decode, or there is no room for a header and a
footer. -/
def BadFooter (K : Codec) (file : RandomAccessFileReader) (fileSize : UInt64) : Prop :=
  fileSize < kBlobHeaderSize + kBlobFooterSize
    ∨ ∀ slice, file.read (fileSize - kBlobFooterSize) kBlobFooterSize.toNat
        = .ok slice → (K.decodeFooter slice).1.isOk = false

/-- The first pass over the file meets something else it cannot read: the
header, the bytes of the footer, or the first record, if the end that the
footer gives lies behind its offset. -/
inductive Unreadable (K : Codec) (file : RandomAccessFileReader) (fileSize : UInt64) : Prop where
  | header (h : ∀ slice, file.read 0 kBlobHeaderSize.toNat = .ok slice →
      (decodeFileHeader slice).isOk = false)
  | footer {s} (h : file.read (fileSize - kBlobFooterSize) kBlobFooterSize.toNat = .error s)
  | record {slice s} (hread : file.read (fileSize - kBlobFooterSize)
        kBlobFooterSize.toNat = .ok slice)
      (hend : kBlobHeaderSize < fileSize - kBlobFooterSize - (K.decodeFooter slice).2.1.size)
      (h : BlobFileIterator.readRecordAt K file kBlobHeaderSize = .error s)

namespace BlobFileIterator

variable {file : RandomAccessFileReader} {fileNumber fileSize : UInt64}

/-- Not valid, and the status says why. -/
def Stopped (it : BlobFileIterator) : Prop :=
  it.isValid = false ∧ it.status.isOk = false

/-- `Init` fails exactly on a header or footer that cannot be read; it
leaves the reason in the status. -/
theorem initIterator_cases (it : BlobFileIterator) :
    (∃ s, initIterator K it = (false, { it with status := s })
        ∧ s.isOk = false ∧ Unreadable K it.file it.fileSize)
      ∨ ∃ header slice, it.file.read 0 kBlobHeaderSize.toNat = .ok header
          ∧ (decodeFileHeader header).isOk = true
          ∧ it.file.read (it.fileSize - kBlobFooterSize) kBlobFooterSize.toNat = .ok slice
          ∧ initIterator K it = (true, { it with
              status := (K.decodeFooter slice).1
              endOfBlobRecord := it.fileSize - kBlobFooterSize - (K.decodeFooter slice).2.1.size
              init := true }) := by
  unfold initIterator
  split
  case h_1 s hs =>
    refine .inl ⟨s, rfl, it.file.failed _ _ _ hs, .header fun slice h => ?_⟩
    rw [hs] at h
    cases h
  case h_2 header hheader =>
    simp only
    split
    case isFalse hok =>
      rw [Bool.not_eq_true] at hok
      refine .inl ⟨_, rfl, hok, .header fun slice h => ?_⟩
      cases hheader.symm.trans h
      exact hok
    case isTrue hok =>
      split
      case h_1 s hs =>
        exact .inl ⟨s, rfl, it.file.failed _ _ _ hs, .footer hs⟩
      case h_2 slice hslice =>
        exact .inr ⟨header, slice, hheader, hok, hslice, rfl⟩

/-- The first step behind the header stops exactly on a record that
cannot be read. -/
theorem stopped_prefetchAndGet_iff (hstatus : it.status = .ok) :
    (prefetchAndGet K it).Stopped
      ↔ it.iterateOffset < it.endOfBlobRecord
        ∧ ∃ s, readRecordAt K it.file it.iterateOffset = .error s := by
  by_cases hgo : it.iterateOffset ≥ it.endOfBlobRecord
  · rw [prefetchAndGet, if_pos hgo]
    constructor
    · rintro ⟨-, hbad⟩
      rw [hstatus] at hbad
      cases hbad
    · rintro ⟨hlt, -⟩
      exact absurd hgo (UInt64.not_le.2 hlt)
  · cases hread : readRecordAt K it.file it.iterateOffset with
    | error s =>
      have hbad := isOk_of_readRecordAt_error hread
      rw [prefetchAndGet_error hgo hread]
      refine iff_of_true ⟨?_, hbad⟩ ⟨UInt64.not_le.1 hgo, s, rfl⟩
      simp only [isValid, hbad, Bool.and_false]
    | ok p =>
      rw [prefetchAndGet, if_neg hgo, getBlobRecord, hread]
      refine iff_of_false ?_ ?_
      · rintro ⟨-, hbad⟩
        cases hbad
      · rintro ⟨-, s, hs⟩
        cases hs

/-- Seeking to the front stops exactly on what it cannot read. Whether
the footer decodes is not asked. -/
theorem stopped_seekToFirst_iff :
    (seekToFirst K (create file fileNumber fileSize)).Stopped ↔ Unreadable K file fileSize := by
  rcases initIterator_cases (K := K) (create file fileNumber fileSize) with
    ⟨s, hinit, hbad, hun⟩ | ⟨header, slice, hheader, hok, hslice, hinit⟩
  · refine iff_of_true ?_ hun
    have hseek : seekToFirst K (create file fileNumber fileSize)
        = { create file fileNumber fileSize with status := s } := by
      simp only [seekToFirst, hinit]
      rfl
    rw [hseek]
    exact ⟨rfl, hbad⟩
  · have hseek : seekToFirst K (create file fileNumber fileSize)
        = prefetchAndGet K { create file fileNumber fileSize with
            status := .ok
            endOfBlobRecord := fileSize - kBlobFooterSize - (K.decodeFooter slice).2.1.size
            init := true
            iterateOffset := kBlobHeaderSize } := by
      simp only [seekToFirst, hinit]
      rfl
    rw [hseek, stopped_prefetchAndGet_iff rfl]
    constructor
    · rintro ⟨hend, s, hs⟩
      exact .record hslice hend hs
    · rintro (h | h | ⟨h, hend, hs⟩)
      · rw [h header hheader] at hok
        cases hok
      · cases hslice.symm.trans h
      · cases hslice.symm.trans h
        exact ⟨hend, _, hs⟩

/-- Two records behind a header, then these bytes. -/
def twoRecordsThen (footer : Bytes) : Bytes :=
  BlobFileBuilder.create ++ (recordBytes trailingZeros .kNoCompression false twoRecords ++ footer)

/-- A footer that says `size` bytes of meta index, with a wrong byte in
its checksum. -/
def wrongChecksum (size : UInt64) : Bytes :=
  let footer := trailingZeros.encodeFooter { offset := 0, size := size }
  footer.dropLast ++ [255]

end BlobFileIterator

-- ==== what is left to visit

namespace BlobFileIterator

variable {items items' : List (BlobIndex × BlobRecord)} {s s' : Status}

/-- The loop over the iterator comes to an end. -/
def Ends (K : Codec) (it : BlobFileIterator) : Prop :=
  ∃ items s, Yields K it items s

theorem Yields.unique (h : Yields K it items s) (h' : Yields K it items' s') :
    items = items' ∧ s = s' := by
  induction h generalizing items' with
  | done hv =>
    cases h' with
    | done => exact ⟨rfl, rfl⟩
    | more hv' => rw [hv] at hv'; cases hv'
  | more hv _ ih =>
    cases h' with
    | done hv' => rw [hv] at hv'; cases hv'
    | more _ rest =>
      obtain ⟨rfl, rfl⟩ := ih rest
      exact ⟨rfl, rfl⟩

open Classical in
/-- The records the iterator still visits. -/
noncomputable def remaining (K : Codec) (it : BlobFileIterator) : List (BlobIndex × BlobRecord) :=
  if h : Ends K it then h.choose else []

theorem Yields.remaining_eq (h : Yields K it items s) : remaining K it = items := by
  have hends : Ends K it := ⟨items, s, h⟩
  rw [remaining, dif_pos hends]
  obtain ⟨s', h'⟩ := hends.choose_spec
  exact (h'.unique h).1

theorem remaining_of_invalid (hv : it.isValid = false) :
    remaining K it = [] := Yields.remaining_eq (.done hv)

/-- On a record, the iterator visits it and then the rest. -/
theorem Ends.of_valid (h : Ends K it) (hv : it.isValid = true) :
    Ends K (it.next K)
      ∧ remaining K it = (it.getBlobIndex, it.curBlobRecord) :: remaining K (it.next K) := by
  obtain ⟨items, s, hyields⟩ := h
  have heq := hyields.remaining_eq
  cases hyields with
  | done hv' => rw [hv] at hv'; cases hv'
  | more _ rest =>
    refine ⟨⟨_, _, rest⟩, ?_⟩
    rw [heq, rest.remaining_eq]

end BlobFileIterator

-- ==== the merge

/-- Records in the order of their keys. -/
def KeyLe [LinearOrder UserKey] (p q : BlobIndex × BlobRecord) : Prop :=
  p.2.key ≤ q.2.key

namespace BlobFileMergeIterator

open BlobFileIterator (Ends remaining)

variable [LinearOrder UserKey] {Q : PriorityQueue BlobFileIterator.key}
  {m : BlobFileMergeIterator Q} {heap : Q.Heap}
  {out : List (BlobIndex × BlobRecord)}

/-- The merge stands on a smallest record, and its heap holds iterators
that stand on a record each. -/
structure Standing (K : Codec) (m : BlobFileMergeIterator Q) (it : BlobFileIterator) : Prop where
  current : m.current = some it
  ownStatus : m.ownStatus = .ok
  valid : ∀ it' ∈ it :: Q.elems m.minHeap, it'.isValid = true
  ends : ∀ it' ∈ it :: Q.elems m.minHeap, Ends K it'
  least : ∀ it' ∈ Q.elems m.minHeap, it.key ≤ it'.key

theorem elems_pushValid (it : BlobFileIterator) (heap : Q.Heap) :
    (Q.elems (pushValid it heap)).Perm ((if it.isValid then [it] else []) ++ Q.elems heap) := by
  have hand : (it.status.isOk && it.isValid) = it.isValid := by
    rw [BlobFileIterator.isValid]
    cases it.valid <;> cases it.status.isOk <;> rfl
  rw [pushValid, hand]
  cases it.isValid with
  | true => exact Q.elems_push it heap
  | false => exact .refl _

theorem Standing.isValid (h : Standing K m it) : m.isValid = true := by
  have hv := h.valid it mem_cons_self
  have hs : it.status.isOk = true := by
    rw [BlobFileIterator.isValid, Bool.and_eq_true] at hv
    exact hv.2
  simp only [BlobFileMergeIterator.isValid, status, h.current, hs, hv,
    h.ownStatus, if_true, Status.isOk_ok, Bool.and_self]

/-- Taking the next iterator out of a heap. -/
theorem pop_standing {heap' : Q.Heap} (hcur : m.current = some it)
    (hown : m.ownStatus = .ok) (hheap : m.minHeap = heap') (hpop : Q.pop heap = some (it, heap'))
    (hvalid : ∀ it' ∈ Q.elems heap, it'.isValid = true)
    (hends : ∀ it' ∈ Q.elems heap, Ends K it') : Standing K m it := by
  subst hheap
  have hsub := (Q.elems_pop hpop).symm.subset
  exact ⟨hcur, hown, fun it' h => hvalid it' (hsub h),
    fun it' h => hends it' (hsub h), Q.pop_le hpop⟩

/-- The heap after `Next` on the iterator in front. -/
theorem Standing.pushed (h : Standing K m it) :
    (∀ it' ∈ Q.elems (pushValid (it.next K) m.minHeap), it'.isValid = true)
      ∧ ∀ it' ∈ Q.elems (pushValid (it.next K) m.minHeap), Ends K it' := by
  have hfront := (h.ends it mem_cons_self).of_valid (h.valid it mem_cons_self)
  have hsplit : ∀ it' ∈ Q.elems (pushValid (it.next K) m.minHeap),
      (it' = it.next K ∧ (it.next K).isValid = true) ∨ it' ∈ Q.elems m.minHeap := by
    intro it' hmem
    rcases mem_append.1 ((elems_pushValid _ _).subset hmem) with h' | h'
    · left
      cases hv : (it.next K).isValid with
      | false => rw [hv] at h'; cases h'
      | true =>
        rw [hv] at h'
        exact ⟨mem_singleton.1 h', rfl⟩
    · exact .inr h'
  constructor
  · intro it' hmem
    rcases hsplit it' hmem with ⟨rfl, hv⟩ | hmem
    · exact hv
    · exact h.valid it' (mem_cons_of_mem _ hmem)
  · intro it' hmem
    rcases hsplit it' hmem with ⟨rfl, -⟩ | hmem
    · exact hfront.1
    · exact h.ends it' (mem_cons_of_mem _ hmem)

/-- An iterator that has come to its end is not pushed, and has nothing
left to visit. -/
theorem merges_of_pushed (h : Merges KeyLe ((Q.elems (pushValid it heap)).map (remaining K)) out) :
    Merges KeyLe (remaining K it :: (Q.elems heap).map (remaining K)) out := by
  have hperm := (elems_pushValid it heap).map (remaining K)
  cases hv : it.isValid with
  | true =>
    rw [hv] at hperm
    exact h.of_perm hperm.symm
  | false =>
    rw [hv] at hperm
    rw [remaining_of_invalid hv]
    exact (h.of_perm hperm.symm).nil_cons

theorem length_pushed (it : BlobFileIterator) (heap : Q.Heap) :
    ((Q.elems (pushValid it heap)).map (remaining K)).flatten.length
      = (remaining K it).length + ((Q.elems heap).map (remaining K)).flatten.length := by
  rw [((elems_pushValid it heap).map (remaining K)).flatten.length_eq,
    map_append, flatten_append, length_append]
  cases hv : it.isValid with
  | true => simp
  | false => simp [remaining_of_invalid hv]

/-- No record in front of another iterator is smaller. -/
theorem Standing.head_le (h : Standing K m it) :
    ∀ l ∈ (Q.elems m.minHeap).map (remaining K), ∀ b ∈ l.head?,
      KeyLe (it.getBlobIndex, it.curBlobRecord) b := by
  intro l hl b hb
  obtain ⟨it', hmem, rfl⟩ := mem_map.1 hl
  have hmem' : it' ∈ it :: Q.elems m.minHeap := mem_cons_of_mem _ hmem
  rw [((h.ends it' hmem').of_valid (h.valid it' hmem')).2, head?_cons, Option.mem_some_iff] at hb
  subst hb
  exact h.least it' hmem

/-- The loop over the merge visits a merge of what its iterators still
visit, and ends with OK. -/
theorem Standing.merges (h : Standing K m it) :
    ∃ out m', Yields K m out m' ∧ m'.status = .ok
      ∧ Merges KeyLe ((it :: Q.elems m.minHeap).map (remaining K)) out := by
  -- by induction on the number of records left
  obtain ⟨n, hn⟩ : ∃ n, ((it :: Q.elems m.minHeap).map (remaining K)).flatten.length = n := ⟨_, rfl⟩
  induction n generalizing m it with
  | zero =>
    rw [map_cons, ((h.ends it mem_cons_self).of_valid (h.valid it mem_cons_self)).2] at hn
    cases hn
  | succ n ih =>
    have hrem := ((h.ends it mem_cons_self).of_valid (h.valid it mem_cons_self)).2
    have hcons : ∀ {out}, Merges KeyLe
        ((Q.elems (pushValid (it.next K) m.minHeap)).map (remaining K)) out →
        Merges KeyLe ((it :: Q.elems m.minHeap).map (remaining K))
          ((it.getBlobIndex, it.curBlobRecord) :: out) := by
      intro out hout
      rw [map_cons, hrem]
      exact .cons (.refl _) h.head_le (merges_of_pushed hout)
    cases hpop : Q.pop (pushValid (it.next K) m.minHeap) with
    | none =>
      have hnext : m.next K = { m with
          minHeap := pushValid (it.next K) m.minHeap
          current := none } := by
        rw [next, h.current]
        simp only [hpop]
      refine ⟨_, m.next K, .more h.isValid h.current (.done ?_), ?_, hcons ?_⟩
      · rw [hnext]
        rfl
      · rw [hnext]
        exact h.ownStatus
      · rw [Q.elems_of_pop_none hpop]
        exact .nil fun _ hl => nomatch hl
    | some p =>
      obtain ⟨it', heap⟩ := p
      have hnext : m.next K = { m with
          minHeap := heap
          current := some it' } := by
        rw [next, h.current]
        simp only [hpop]
      have hstanding : Standing K (m.next K) it' := by
        rw [hnext]
        exact pop_standing rfl h.ownStatus rfl hpop h.pushed.1 h.pushed.2
      have hleft : ((it' :: Q.elems heap).map (remaining K)).Perm
          ((Q.elems (pushValid (it.next K) m.minHeap)).map (remaining K)) :=
        ((Q.elems_pop hpop).map _).symm
      have hheap : (m.next K).minHeap = heap := by rw [hnext]
      have hcount : ((it' :: Q.elems (m.next K).minHeap).map (remaining K)).flatten.length = n := by
        rw [map_cons, flatten_cons, length_append, hrem, length_cons] at hn
        rw [hheap, hleft.flatten.length_eq, length_pushed]
        omega
      obtain ⟨out, m', hyields, hok, hmerges⟩ := ih hstanding hcount
      rw [hheap] at hmerges
      exact ⟨_, m', .more h.isValid h.current hyields, hok, hcons (hmerges.of_perm hleft.symm)⟩

theorem elems_foldl_pushValid (its : List BlobFileIterator) (heap : Q.Heap) :
    (Q.elems (its.foldl (fun heap it => pushValid it heap) heap)).Perm
      (its.filter BlobFileIterator.isValid ++ Q.elems heap) := by
  induction its generalizing heap with
  | nil => exact .refl _
  | cons it its ih =>
    refine (ih _).trans (((elems_pushValid it heap).append_left _).trans ?_)
    cases hv : it.isValid with
    | false => rw [filter_cons_of_neg (by simp [hv])]; exact .refl _
    | true =>
      rw [filter_cons_of_pos hv]
      exact perm_middle

/-- Iterators that are not on a record visit nothing. -/
theorem merges_of_filter {its : List BlobFileIterator}
    (h : Merges KeyLe ((its.filter BlobFileIterator.isValid).map (remaining K)) out) :
    Merges KeyLe (its.map (remaining K)) out := by
  have hnils : ∀ l ∈ (its.filter fun it => !it.isValid).map (remaining K), l = [] := by
    intro l hl
    obtain ⟨it, hmem, rfl⟩ := mem_map.1 hl
    have hv := (mem_filter.1 hmem).2
    exact remaining_of_invalid (by simpa using hv)
  refine (h.append_nils hnils).of_perm ?_
  rw [← map_append]
  exact ((perm_append_comm.trans (filter_append_perm BlobFileIterator.isValid its)).map _).symm

/-- The loop over the inputs visits a merge of what each of them visits.
It ends with OK exactly if one of them has a record to visit. -/
theorem seekToFirst_merges (its : List BlobFileIterator)
    (hends : ∀ it ∈ its, Ends K (it.seekToFirst K)) :
    ∃ out m', Yields K (seekToFirst K (create its : BlobFileMergeIterator Q)) out m'
      ∧ Merges KeyLe (its.map fun it => remaining K (it.seekToFirst K)) out
      ∧ (m'.status.isOk = true ↔ ∃ it ∈ its, (it.seekToFirst K).isValid = true) := by
  let seeks := its.map (BlobFileIterator.seekToFirst K)
  let heap := seeks.foldl (fun heap it => pushValid it heap) Q.empty
  have hperm : (Q.elems heap).Perm (seeks.filter BlobFileIterator.isValid) := by
    have h := elems_foldl_pushValid seeks Q.empty
    rwa [Q.elems_empty, append_nil] at h
  have hmaps : (its.map fun it => remaining K (it.seekToFirst K)) = seeks.map (remaining K) := by
    rw [map_map]
    rfl
  rw [hmaps]
  cases hpop : Q.pop heap with
  | none =>
    -- nothing was pushed
    have hnone : seeks.filter BlobFileIterator.isValid = [] := by
      have h := hperm.symm
      rw [Q.elems_of_pop_none hpop] at h
      exact h.eq_nil
    have hseek : seekToFirst K (create its : BlobFileMergeIterator Q)
        = { ownStatus := .aborted "No iterator is valid"
            blobFileIterators := seeks
            minHeap := heap
            current := none } := by
      unfold seekToFirst create
      dsimp only
      rw [hpop]
    rw [hseek]
    refine ⟨[], _, .done rfl, merges_of_filter ?_, iff_of_false Bool.false_ne_true ?_⟩
    · rw [hnone]
      refine .nil ?_
      intro _ h
      cases h
    · rintro ⟨it, hmem, hv⟩
      have := filter_eq_nil_iff.1 hnone _ (mem_map.2 ⟨it, hmem, rfl⟩)
      exact this hv
  | some p =>
    obtain ⟨it, heap'⟩ := p
    have hseek : seekToFirst K (create its : BlobFileMergeIterator Q)
        = { ownStatus := .ok
            blobFileIterators := seeks
            minHeap := heap'
            current := some it } := by
      unfold seekToFirst create
      dsimp only
      rw [hpop]
    have hin : ∀ it' ∈ Q.elems heap, it' ∈ seeks ∧ it'.isValid = true :=
      fun it' h => mem_filter.1 (hperm.subset h)
    have hstanding : Standing K (seekToFirst K (create its : BlobFileMergeIterator Q)) it := by
      rw [hseek]
      refine pop_standing rfl rfl rfl hpop (fun it' h => (hin it' h).2) ?_
      intro it' h
      obtain ⟨it₀, hmem, rfl⟩ := mem_map.1 (hin it' h).1
      exact hends it₀ hmem
    obtain ⟨out, m', hyields, hok, hmerges⟩ := hstanding.merges
    rw [hseek] at hmerges
    refine ⟨out, m', hyields, merges_of_filter (hmerges.of_perm ?_),
      iff_of_true (by rw [hok]; rfl) ?_⟩
    · exact (hperm.symm.trans (Q.elems_pop hpop)).map _
    · obtain ⟨hmem, hv⟩ := hin it ((Q.elems_pop hpop).symm.subset mem_cons_self)
      obtain ⟨it₀, hmem₀, rfl⟩ := mem_map.1 hmem
      exact ⟨it₀, hmem₀, hv⟩

end BlobFileMergeIterator

-- ==== inputs of a job

/-- An input of a GC job: the records of the file, and how many of them
its iterator visits before it comes to an end or to an error. -/
structure GcInput (K : Codec) where
  iterator : BlobFileIterator
  items : List (BlobIndex × BlobRecord)
  readable : Nat
  visits : ∃ s, BlobFileIterator.Yields K
    (BlobFileIterator.seekToFirst K iterator) (items.take readable) s

namespace GcInput

open BlobFileMergeIterator

/-- A built file of the key layout behind a reader. -/
def ofReadable {type : CompressionType} {records : List BlobRecord}
    {reader : RandomAccessFileReader} {k : Nat}
    (h : ReadableTo K type records reader k)
    (hsize : ∀ r ∈ records, (r.encodeTo K.coding false).length < 2 ^ 32)
    (hfits : (BlobFileBuilder.build K type false records).2.length < 2 ^ 64)
    (fileNumber : UInt64) : GcInput K where
  iterator := .create reader fileNumber
    (UInt64.ofNat (BlobFileBuilder.build K type false records).2.length)
  items := builtItems K type fileNumber records
  readable := k
  visits := (h.yields hsize hfits fileNumber).imp fun _ => And.left

theorem remaining_eq (i : GcInput K) :
    remaining K (i.iterator.seekToFirst K) = i.items.take i.readable :=
  let ⟨_, h⟩ := i.visits
  h.remaining_eq

theorem isValid_iff (i : GcInput K) :
    (i.iterator.seekToFirst K).isValid = true ↔ i.items.take i.readable ≠ [] := by
  obtain ⟨s, h⟩ := i.visits
  generalize i.items.take i.readable = items at h
  cases h with
  | done hv => simp [hv]
  | more hv => simp [hv]

/-- The collector's pass over its inputs. -/
theorem merges [LinearOrder UserKey] (Q : PriorityQueue key) (inputs : List (GcInput K)) :
    ∃ out m', Yields K (seekToFirst K
        (create (inputs.map iterator) : BlobFileMergeIterator Q)) out m'
      ∧ Merges KeyLe (inputs.map fun i => i.items.take i.readable) out
      ∧ (m'.status.isOk = true ↔ ∃ i ∈ inputs, i.items.take i.readable ≠ []) := by
  have hends : ∀ it ∈ inputs.map iterator, BlobFileIterator.Ends K (it.seekToFirst K) := by
    intro it hmem
    obtain ⟨i, -, rfl⟩ := mem_map.1 hmem
    exact ⟨_, i.visits⟩
  obtain ⟨out, m', hyields, hmerges, hok⟩ := seekToFirst_merges (Q := Q) (inputs.map iterator) hends
  refine ⟨out, m', hyields, ?_, ?_⟩
  · rw [map_map] at hmerges
    have heq : (inputs.map fun i => i.items.take i.readable)
        = inputs.map ((fun it => remaining K (it.seekToFirst K)) ∘ iterator) :=
      map_congr_left fun i _ => i.remaining_eq.symm
    rw [heq]
    exact hmerges
  · rw [hok]
    simp only [mem_map, exists_exists_and_eq_and, isValid_iff]

/-- As many records as there are: every input was visited to its end. -/
theorem readable_of_length {inputs : List (GcInput K)}
    (h : (inputs.map fun i => i.items.take i.readable).flatten.length
      = (inputs.flatMap items).length) :
    ∀ i ∈ inputs, i.items.length ≤ i.readable := by
  have hle : ∀ is : List (GcInput K),
      (is.map fun i => i.items.take i.readable).flatten.length ≤ (is.flatMap items).length := by
    intro is
    induction is with
    | nil => exact Nat.le_refl _
    | cons i is ih =>
      simp only [map_cons, flatten_cons, flatMap_cons, length_append, length_take]
      omega
  induction inputs with
  | nil => exact fun _ hi => nomatch hi
  | cons i is ih =>
    have hrest := hle is
    simp only [map_cons, flatten_cons, flatMap_cons, length_append, length_take] at h
    intro i' hi'
    rcases mem_cons.1 hi' with rfl | hi'
    · omega
    · exact ih (by omega) i' hi'

end GcInput

namespace BlobFileMergeIterator

variable [LinearOrder UserKey] {Q : PriorityQueue BlobFileIterator.key}

/-- `DoRunGC` succeeds if its loop did and the iterator reports no
error. -/
theorem isOk_doRunGCStatus (m : BlobFileMergeIterator Q) (s : Status) :
    (m.doRunGCStatus s).isOk = (m.status.isOk && s.isOk) := by
  unfold doRunGCStatus
  cases hm : m.status.isOk <;> cases hs : s.isOk <;> simp [hm, hs]

end BlobFileMergeIterator

/-- `DoRunGC` succeeds only after every record of every input was
visited, exactly if no input gives a first record or every input can be
read to its end. -/
theorem unreadable_input_fails_iff (K : Codec) [LinearOrder UserKey]
    (Q : PriorityQueue BlobFileIterator.key) (inputs : List (GcInput K)) :
    ∃ out m', BlobFileMergeIterator.Yields K
        (BlobFileMergeIterator.seekToFirst K
          (.create (inputs.map GcInput.iterator) : BlobFileMergeIterator Q))
        out m' ∧ (∀ s, (m'.doRunGCStatus s).isOk = (m'.status.isOk && s.isOk))
      ∧ ((m'.status.isOk = true → out.Perm (inputs.flatMap GcInput.items))
          ↔ (∀ i ∈ inputs, i.readable = 0 ∨ i.items = [])
            ∨ ∀ i ∈ inputs, i.items.length ≤ i.readable) := by
  obtain ⟨out, m', hyields, hmerges, hok⟩ := GcInput.merges Q inputs
  refine ⟨out, m', hyields, m'.isOk_doRunGCStatus, ?_⟩
  rw [hok]
  constructor
  · intro hall
    by_cases hsome : ∃ i ∈ inputs, i.items.take i.readable ≠ []
    · right
      apply GcInput.readable_of_length
      rw [← hmerges.perm.length_eq, (hall hsome).length_eq]
    · left
      intro i hi
      by_contra hne
      exact hsome ⟨i, hi, fun h => hne (take_eq_nil_iff.1 h)⟩
  · rintro (hnone | hend) ⟨i, hi, hne⟩
    · exact absurd (take_eq_nil_iff.2 (hnone i hi)) hne
    · have htake : (inputs.map fun i => i.items.take i.readable) = inputs.map GcInput.items :=
        map_congr_left fun i hi => take_of_length_le (hend i hi)
      have hperm := hmerges.perm
      rwa [htake, ← flatMap_def] at hperm

/-- A file with a range of bytes that cannot be read. -/
def RandomAccessFileReader.broken (file : Bytes) (lo hi : Nat) : RandomAccessFileReader where
  read offset n :=
    if offset.toNat + n ≤ lo ∨ hi ≤ offset.toNat then
      .ok (readAt file offset n)
    else .error (.ioError "Input/output error")
  failed offset n s h := by
    split at h <;> cases h
    rfl

theorem RandomAccessFileReader.serves_broken (file : Bytes) (lo hi : Nat) :
    (RandomAccessFileReader.broken file lo hi).Serves file lo := fun _ _ h => if_pos (.inl h)

section broken

attribute [local instance] bytewiseComparator

/-- The second of two records cannot be read. -/
theorem readableTo_broken :
    ReadableTo trailingZeros .kSnappyCompression twoRecords
      (.broken (BlobFileBuilder.build trailingZeros .kSnappyCompression false
        twoRecords).2 23 36) 1 where
  serves := RandomAccessFileReader.serves_broken _ _ _
  footer := by rfl
  stops _ := ⟨.ioError "Input/output error", by rfl⟩

/-- A file that is broken at its second record, and one with a single
record. -/
def brokenInputs : List (GcInput trailingZeros) :=
  let one : List BlobRecord := [{ key := ⟨[3], by decide⟩, value := [5] }]
  have hone : (BlobFileBuilder.build trailingZeros .kNoCompression false
    one).2.length < 2 ^ 64 := by decide +kernel
  [.ofReadable readableTo_broken (by decide +kernel) (by decide +kernel) 5,
    .ofReadable (.built hone) (by decide +kernel) hone 6]

/-- Of three records two are returned, and the status is OK. -/
theorem brokenInputs_exhausted :
    let first := BlobFileMergeIterator.seekToFirst trailingZeros
      (.create (brokenInputs.map GcInput.iterator)
        : BlobFileMergeIterator (.sorted BlobFileIterator.key))
    let second := first.next trailingZeros
    let last := second.next trailingZeros
    (brokenInputs.flatMap GcInput.items).length = 3 ∧ first.isValid = true ∧ second.isValid = true
      ∧ last.isValid = false ∧ last.status = .ok := by
  decide +kernel

end broken

-- ==== well-formed inputs

/-- A finished blob file of the key layout. -/
structure BuiltFile (K : Codec) where
  fileNumber : UInt64
  type : CompressionType
  records : List BlobRecord
  recordFits : ∀ r ∈ records, (r.encodeTo K.coding false).length < 2 ^ 32
  fits : (BlobFileBuilder.build K type false records).2.length < 2 ^ 64

namespace BuiltFile

/-- The bytes of the file. -/
def bytes (f : BuiltFile K) : Bytes :=
  (BlobFileBuilder.build K f.type false f.records).2

/-- The iterator `BuildIterator` makes for the file. -/
def iterator (f : BuiltFile K) : BlobFileIterator :=
  .create f.bytes f.fileNumber (UInt64.ofNat f.bytes.length)

/-- The records, each with its index. -/
def items (f : BuiltFile K) : List (BlobIndex × BlobRecord) :=
  builtItems K f.type f.fileNumber f.records

/-- The file as an input that can be read to its end. -/
def input (f : BuiltFile K) : GcInput K :=
  .ofReadable (.built f.fits) f.recordFits f.fits f.fileNumber

theorem items_records (f : BuiltFile K) : f.items.map Prod.snd = f.records := by
  rw [items, builtItems, map_map]
  exact map_snd_zip (Nat.le_of_eq (addAll_length K f.type false _ f.records).symm)

theorem take_items (f : BuiltFile K) :
    f.input.items.take f.input.readable = f.items := take_of_length_le (Nat.le_of_eq (by
    rw [← length_map Prod.snd]
    exact congrArg length f.items_records))

end BuiltFile

section empty

attribute [local instance] bytewiseComparator

/-- A file without records. -/
def BuiltFile.empty : BuiltFile trailingZeros where
  fileNumber := 5
  type := .kNoCompression
  records := []
  recordFits := fun _ h => nomatch h
  fits := by decide +kernel

end empty

end DiffKV
