/-
The counter of one file under notifications in any order.

`OnFlushCompleted` takes a counter of zero to mean that nothing was
counted yet and starts from the data size; from any other counter it
only subtracts. `countNote` is the counter's own step, and a list of
notifications folds it (`deliverAll_counter`). As long as no flush meets
a zero the counter is what was given back minus what was flushed; from
the first flush that does meet one, the data size is in it. So the sum
comes out right exactly if some flush meets a zero, or if the file is one
that no flush refers to.
-/
import DiffKV.Proofs.LiveData

namespace DiffKV

open Lib List UInt64

variable {C : Coding} {n : UInt64} {note : Note C} {size : Nat}
  (env : CompactionEnv) {notes : List (Note C)} {m : BlobFileMeta}
  {cfId : UInt32} {fs : BlobFileSet}
  {deliveries : List (Note C × CompactionEnv)}

-- ==== one counter

namespace Note

/-- The bytes of the file `n` in the flush the notification reports. -/
def flushBytes (n : UInt64) : Note C → Nat
  | flush table => table.bytes n
  | compaction _ _ _ => 0

/-- The bytes of the file `n` that a compaction's outputs refer to and
its inputs did not. -/
def increase (n : UInt64) : Note C → Nat
  | flush _ => 0
  | compaction inputs outputs _ => bytesOf outputs n - bytesOf inputs n

end Note

/-- The bytes of the file `n` that flushes refer to. -/
def flushedBytes (notes : List (Note C)) (n : UInt64) : Nat :=
  (notes.map (·.flushBytes n)).sum

/-- The bytes of the file `n` that compactions add. -/
def grownBytes (notes : List (Note C)) (n : UInt64) : Nat :=
  (notes.map (·.increase n)).sum

/-- The bytes of the file `n` still referred to after all of them. -/
def stillReferred (notes : List (Note C)) (n : UInt64) : Nat :=
  flushedBytes notes n + grownBytes notes n - owed notes n

@[simp] theorem flushedBytes_concat (notes : List (Note C)) (note : Note C) (n : UInt64) :
    flushedBytes (notes ++ [note]) n = flushedBytes notes n + note.flushBytes n := by
  simp [flushedBytes]

/-- The counter of a file of `size` data bytes after a notification. -/
def countNote (size : Nat) (n : UInt64) (counter : UInt64) : Note C → UInt64
  | .flush table =>
    if table.bytes n = 0 then counter
    else if counter = 0 then UInt64.ofNat size - UInt64.ofNat (table.bytes n)
    else counter - UInt64.ofNat (table.bytes n)
  | .compaction inputs outputs _ =>
    counter + UInt64.ofNat (bytesOf inputs n - bytesOf outputs n)

/-- Some flush of the file is reported when as many of its bytes have
been given back as flushed, so that its counter is zero. -/
def MeetsZero (notes : List (Note C)) (n : UInt64) : Prop :=
  ∃ pre table post, notes = pre ++ .flush table :: post ∧ table.Refers n
    ∧ flushedBytes pre n = owed pre n

theorem MeetsZero.concat (h : MeetsZero notes n) (note : Note C) :
    MeetsZero (notes ++ [note]) n := by
  obtain ⟨pre, table, post, rfl, hrefers, hzero⟩ := h
  exact ⟨pre, table, post ++ [note], by simp, hrefers, hzero⟩

/-- The zero is met before the last notification or at it. -/
theorem MeetsZero.of_concat (h : MeetsZero (notes ++ [note]) n) :
    MeetsZero notes n ∨ ∃ table, note = .flush table ∧ table.Refers n
      ∧ flushedBytes notes n = owed notes n := by
  obtain ⟨pre, table, post, heq, hrefers, hzero⟩ := h
  rcases eq_nil_or_concat post with rfl | ⟨post, last, rfl⟩
  · obtain ⟨rfl, hlast⟩ := append_inj' heq rfl
    exact .inr ⟨table, singleton_inj.1 hlast, hrefers, hzero⟩
  · rw [concat_eq_append, ← cons_append, ← append_assoc] at heq
    obtain ⟨rfl, -⟩ := append_inj' heq rfl
    exact .inl ⟨pre, table, post, rfl, hrefers, hzero⟩

/-- As long as no flush meets a zero. -/
theorem count_of_not_meetsZero (hsize : size < 2 ^ 63)
    (hflushed : flushedBytes notes n ≤ size) (howed : owed notes n ≤ size)
    (h : ¬ MeetsZero notes n) :
    notes.foldl (countNote size n) 0 + ofNat (flushedBytes notes n) = ofNat (owed notes n) := by
  induction notes using reverseRecOn with
  | nil => rfl
  | append_singleton notes note ih =>
    rw [flushedBytes_concat] at hflushed ⊢
    rw [owed_concat] at howed ⊢
    have hcount := ih (by omega) (by omega) fun hm => h (hm.concat note)
    rw [foldl_concat]
    generalize notes.foldl (countNote size n) 0 = counter at hcount ⊢
    cases note with
    | compaction inputs outputs outputLevel =>
      show counter + ofNat (bytesOf inputs n - bytesOf outputs n)
        + ofNat (flushedBytes notes n)
          = ofNat (owed notes n + (bytesOf inputs n - bytesOf outputs n))
      rw [ofNat_add, ← hcount]
      grind
    | flush table =>
      unfold countNote
      show _ + ofNat (flushedBytes notes n + table.bytes n) = ofNat (owed notes n)
      dsimp only
      split
      case isTrue hnone => rw [hnone, Nat.add_zero, hcount]
      case isFalse hrefers =>
        rw [if_neg, ofNat_add, ← hcount]
        · grind
        · -- a zero here is one that this flush meets
          rintro rfl
          refine h ⟨notes, table, [], rfl, Sst.refers_iff_bytes.2 hrefers, ?_⟩
          have htoNat := congrArg toNat hcount
          rw [zero_add, toNat_ofNat', toNat_ofNat'] at htoNat
          omega

/-- Once a flush has met a zero. -/
theorem count_of_meetsZero (hsize : size < 2 ^ 63)
    (hflushed : flushedBytes notes n ≤ size) (howed : owed notes n ≤ size) (h : MeetsZero notes n) :
    notes.foldl (countNote size n) 0 = ofNat (size - flushedBytes notes n + owed notes n) := by
  induction notes using reverseRecOn with
  | nil =>
    obtain ⟨pre, table, post, heq, -⟩ := h
    simp at heq
  | append_singleton notes note ih =>
    rw [flushedBytes_concat] at hflushed ⊢
    rw [owed_concat] at howed ⊢
    rw [foldl_concat]
    by_cases hbefore : MeetsZero notes n
    case pos =>
      rw [ih (by omega) (by omega) hbefore]
      cases note with
      | compaction inputs outputs outputLevel =>
        show _ + ofNat (bytesOf inputs n - bytesOf outputs n)
          = ofNat (size - (flushedBytes notes n + 0) + (owed notes n
            + (bytesOf inputs n - bytesOf outputs n)))
        rw [← ofNat_add, Nat.add_zero, Nat.add_assoc]
      | flush table =>
        have hle : flushedBytes notes n + table.bytes n ≤ size := hflushed
        unfold countNote
        show _ = ofNat (size - (flushedBytes notes n + table.bytes n) + owed notes n)
        dsimp only
        split
        case isTrue hnone => rw [hnone, Nat.add_zero]
        case isFalse hrefers =>
          rw [if_neg, ← ofNat_sub (by omega)]
          · congr 1
            omega
          · -- the bytes of this flush are still in the counter
            intro hzero
            have htoNat := congrArg toNat hzero
            rw [UInt64.toNat_ofNat', UInt64.toNat_zero] at htoNat
            omega
    case neg =>
      rcases h.of_concat with hm | ⟨table, rfl, hrefers, heq⟩
      · exact absurd hm hbefore
      · have hcount := count_of_not_meetsZero hsize (by omega) (by omega) hbefore
        have hcounter : notes.foldl (countNote size n) 0 = 0 := by
          grind
        have hle : flushedBytes notes n + table.bytes n ≤ size := hflushed
        rw [hcounter]
        unfold countNote
        show _ = ofNat (size - (flushedBytes notes n + table.bytes n) + (owed notes n + 0))
        dsimp only
        rw [if_neg (Sst.refers_iff_bytes.1 hrefers), if_pos rfl, ← ofNat_sub (by omega)]
        congr 1
        omega

-- ==== the run

/-- The notifications are delivered one after the other. -/
def deliverAll (cfId : UInt32) (fs : BlobFileSet)
    (deliveries : List (Note C × CompactionEnv)) : BlobFileSet :=
  deliveries.foldl (fun fs d => (d.1.deliver cfId d.2 fs).2) fs

/-- A notification as the base DB issues them: the tables of a
compaction have names of their own, and the blob files of its outputs
are installed. -/
def Note.Issued (cfId : UInt32) (fs : BlobFileSet) : Note C → Prop
  | .flush _ => True
  | .compaction inputs outputs _ =>
    ((inputs ++ outputs).map (·.name)).Nodup ∧ ∀ k, 0 < bytesOf outputs k → fs.account cfId k ≠ none

/-- A compaction that counts charges every file its own amount. -/
theorem account_deliver_compaction {inputs outputs : List (Sst C)} {outputLevel : Int}
    (h : (Note.compaction inputs outputs outputLevel).Issued cfId fs)
    (hopen : fs.getBlobStorage cfId ≠ none) (n : UInt64) :
    ((Note.compaction inputs outputs outputLevel).deliver cfId env fs).2.account cfId n
      = (fs.account cfId n).map (·.charged (ofNat (bytesOf outputs n)
          - ofNat (bytesOf inputs n)).toInt64) := by
  obtain ⟨hnames, hfiles⟩ := h
  obtain ⟨st, hst⟩ := Option.ne_none_iff_exists'.1 hopen
  have hcounts : (Note.compactionInfo cfId inputs outputs outputLevel).Counts C
      fs := Note.counts_compactionInfo cfId hopen hnames hfiles
  have haccount := (onCompactionCompleted_counts env hst hcounts).1 n
  rw [Note.amount_compactionInfo cfId hnames] at haccount
  exact haccount

theorem getBlobStorage_of_account (h : fs.account cfId n = some m) :
    fs.getBlobStorage cfId ≠ none := by
  intro hnone
  unfold BlobFileSet.account at h
  rw [show fs.columnFamilies.lookup cfId = none from hnone] at h
  cases h

/-- A delivery keeps every file's account, up to its counter. -/
theorem account_deliver_ne_none (h : note.Issued cfId fs)
    (hopen : fs.getBlobStorage cfId ≠ none) {k : UInt64} (hk : fs.account cfId k ≠ none) :
    (note.deliver cfId env fs).2.account cfId k ≠ none := by
  cases note with
  | flush table =>
    rw [account_deliver_flush]
    simpa using hk
  | compaction inputs outputs outputLevel =>
    rw [account_deliver_compaction env h hopen]
    simpa using hk

/-- One delivery, as the counter of the file `n` sees it. -/
theorem deliver_counter (h : note.Issued cfId fs)
    (hm : fs.account cfId n = some m) (hframed : 40 ≤ m.fileSize.toNat)
    (hdec : note.decrease n < 2 ^ 63) (hinc : note.increase n < 2 ^ 63) :
    ∃ m', (note.deliver cfId env fs).2.account cfId n = some m' ∧ m'.fileSize = m.fileSize
      ∧ m'.discardableSize = countNote m.dataSize n m.discardableSize note := by
  cases note with
  | flush table =>
    rw [account_deliver_flush, hm]
    refine ⟨_, rfl, ?_, ?_⟩
    · split <;> rfl
    · unfold countNote
      dsimp only
      split
      · rfl
      · rw [flushed_discardableSize hframed]
  | compaction inputs outputs outputLevel =>
    rw [account_deliver_compaction env h (getBlobStorage_of_account hm), hm]
    have hdec : bytesOf inputs n - bytesOf outputs n < 2 ^ 63 := hdec
    have hinc : bytesOf outputs n - bytesOf inputs n < 2 ^ 63 := hinc
    rw [Option.map_some, charged_bytes m (by omega) (by omega)]
    exact ⟨_, rfl, rfl, rfl⟩

/-- All deliveries, as the counter of the file `n` sees them. -/
theorem deliverAll_counter (hm : fs.account cfId n = some m) (hframed : 40 ≤ m.fileSize.toNat)
    (hissued : ∀ d ∈ deliveries, d.1.Issued cfId fs)
    (hsmall : ∀ d ∈ deliveries, d.1.decrease n < 2 ^ 63 ∧ d.1.increase n < 2 ^ 63) :
    ((deliverAll cfId fs deliveries).account cfId n).map (·.discardableSize)
      = some ((deliveries.map Prod.fst).foldl (countNote m.dataSize n) m.discardableSize) := by
  induction deliveries generalizing fs m with
  | nil =>
    show (fs.account cfId n).map _ = _
    rw [hm]
    rfl
  | cons d deliveries ih =>
    obtain ⟨hissue, hissued⟩ := forall_mem_cons.1 hissued
    obtain ⟨⟨hdec, hinc⟩, hsmall⟩ := forall_mem_cons.1 hsmall
    obtain ⟨m', hm', hsize, hcounter⟩ := deliver_counter d.2 hissue hm hframed hdec hinc
    have hopen := getBlobStorage_of_account hm
    have hstill : ∀ e ∈ deliveries, e.1.Issued cfId (d.1.deliver cfId d.2 fs).2 := by
      intro e he
      have hbefore := hissued e he
      cases hnote : e.1 with
      | flush table => trivial
      | compaction inputs outputs outputLevel =>
        rw [hnote] at hbefore
        exact ⟨hbefore.1, fun k hk =>
          account_deliver_ne_none d.2 hissue hopen (hbefore.2 k hk)⟩
    have hrun := ih hm' (hsize ▸ hframed) hstill hsmall
    rw [dataSize_congr hsize, hcounter] at hrun
    exact hrun

-- ==== the property

/-- All completions that refer to the file `n`, which is installed and
not charged yet. The flushes and the compaction outputs refer to its
records, and no more is given back than was referred to. The file was
written either for tables that are flushed, and no compaction adds to
it, or by a compaction, whose outputs refer to every record of it. -/
structure Completions (cfId : UInt32) (fs : BlobFileSet) (n : UInt64)
    (m : BlobFileMeta) (notes : List (Note C)) : Prop where
  installed : fs.account cfId n = some m
  uncharged : m.discardableSize = 0
  framed : 40 ≤ m.fileSize.toNat
  sized : m.dataSize < 2 ^ 63
  issued : ∀ note ∈ notes, note.Issued cfId fs
  referred : flushedBytes notes n + grownBytes notes n ≤ m.dataSize
  given : owed notes n ≤ flushedBytes notes n + grownBytes notes n
  origin : (0 < flushedBytes notes n ∧ grownBytes notes n = 0)
    ∨ (flushedBytes notes n = 0 ∧ grownBytes notes n = m.dataSize)

namespace Completions

variable {n : UInt64}

/-- The counter after all of them. -/
theorem counter (h : Completions cfId fs n m (deliveries.map Prod.fst)) :
    ((deliverAll cfId fs deliveries).account cfId n).map (·.discardableSize)
      = some ((deliveries.map Prod.fst).foldl (countNote m.dataSize n) 0) := by
  have hreferred := h.referred
  have hgiven := h.given
  have hsized := h.sized
  rw [← h.uncharged]
  refine deliverAll_counter h.installed h.framed
    (fun d hd => h.issued _ (mem_map_of_mem hd)) fun d hd => ?_
  have hmem := mem_map_of_mem (f := Prod.fst) hd
  have hdec : d.1.decrease n ≤ owed (deliveries.map Prod.fst) n :=
    le_sum_of_mem (mem_map_of_mem hmem)
  have hinc : d.1.increase n ≤ grownBytes (deliveries.map Prod.fst) n :=
    le_sum_of_mem (mem_map_of_mem hmem)
  omega

/-- A flush among the notifications refers to the file. -/
theorem flushedBytes_pos_iff :
    0 < flushedBytes notes n ↔ ∃ table, .flush table ∈ notes ∧ table.Refers n := by
  constructor
  · intro hpos
    by_contra hnone
    refine Nat.ne_of_gt hpos (sum_eq_zero fun x hx => ?_)
    obtain ⟨note, hnote, rfl⟩ := mem_map.1 hx
    cases note with
    | compaction inputs outputs outputLevel => rfl
    | flush table =>
      exact Sst.bytes_eq_zero_of_not_refers fun hr =>
        hnone ⟨table, hnote, hr⟩
  · rintro ⟨table, hmem, hr⟩
    have hle : table.bytes n ≤ flushedBytes notes n :=
      le_sum_of_mem (mem_map_of_mem (f := (·.flushBytes n)) hmem)
    have hpos := Sst.bytes_pos_of_refers hr
    omega

/-- **The discardable size depends on the order of the notifications.**
After all of them it is the data size minus the bytes still referred to
if and only if no flush refers to the file or one that does meets a
counter of zero. -/
theorem discardableSize_exact_iff {deliveries : List (Note C × CompactionEnv)}
    (h : Completions cfId fs n m (deliveries.map Prod.fst)) :
    ((deliverAll cfId fs deliveries).account cfId n).map (·.discardableSize)
        = some (UInt64.ofNat (m.dataSize - stillReferred (deliveries.map Prod.fst) n))
      ↔ (¬ ∃ table, .flush table ∈ deliveries.map Prod.fst ∧ table.Refers n)
        ∨ MeetsZero (deliveries.map Prod.fst) n := by
  rw [h.counter, Option.some_inj, ← flushedBytes_pos_iff]
  have hreferred := h.referred
  have hgiven := h.given
  have hsized := h.sized
  have horigin := h.origin
  unfold stillReferred
  generalize deliveries.map Prod.fst = notes at *
  by_cases hmeets : MeetsZero notes n
  case pos =>
    obtain ⟨pre, table, post, heq, hr, -⟩ := id hmeets
    have hpos : 0 < flushedBytes notes n := flushedBytes_pos_iff.2 ⟨table, by rw [heq]; simp, hr⟩
    rw [count_of_meetsZero hsized (by omega) (by omega) hmeets]
    refine iff_of_true (congrArg ofNat ?_) (.inr hmeets)
    omega
  case neg =>
    have hcount := count_of_not_meetsZero hsized (by omega) (by omega) hmeets
    rcases horigin with ⟨hpos, hgrown⟩ | ⟨hnone, hgrown⟩
    · refine iff_of_false (fun heq => ?_) (not_or.2 ⟨not_not.2 hpos, hmeets⟩)
      -- the sum is short of the data size
      have htoNat := congrArg toNat (heq ▸ hcount)
      rw [UInt64.toNat_add, UInt64.toNat_ofNat', UInt64.toNat_ofNat', toNat_ofNat'] at htoNat
      omega
    · rw [hnone] at hcount
      have hcounter : notes.foldl (countNote m.dataSize n) 0 = ofNat (owed notes n) := by
        rw [← hcount]
        exact (add_zero _).symm
      refine iff_of_true (hcounter.trans (congrArg ofNat ?_)) (.inl (by omega))
      omega

end Completions

-- ==== instances

/-- The file of ten bytes is installed. -/
def tenBytesInstalled : BlobFileSet :=
  Lsm.created.install 0 [Lsm.tenBytes]

/-- The table of the file is reported first, then that a compaction has
dropped it. -/
def flushFirst : List (Note base128 × CompactionEnv) :=
  [(.flush Lsm.tenBytesTable, {}), (.compaction [Lsm.tenBytesTable] [] 1, {})]

/-- The same two the other way round. -/
def compactionFirst : List (Note base128 × CompactionEnv) :=
  [(.compaction [Lsm.tenBytesTable] [] 1, {}), (.flush Lsm.tenBytesTable, {})]

theorem completions_flushFirst :
    Completions 0 tenBytesInstalled 1 Lsm.tenBytes.account (flushFirst.map Prod.fst) where
  installed := by decide +kernel
  uncharged := rfl
  framed := by decide +kernel
  sized := by decide +kernel
  issued := forall_mem_cons.2 ⟨trivial, forall_mem_singleton.2
    ⟨nodup_singleton _, fun _ hk => absurd hk (Nat.lt_irrefl 0)⟩⟩
  referred := by decide +kernel
  given := by decide +kernel
  origin := by decide +kernel

theorem completions_compactionFirst :
    Completions 0 tenBytesInstalled 1 Lsm.tenBytes.account (compactionFirst.map Prod.fst) :=
  { completions_flushFirst with
    issued := fun note hnote => completions_flushFirst.issued note
      ((List.Perm.swap _ _ _).mem_iff.1 hnote)
    referred := by decide +kernel
    given := by decide +kernel
    origin := by decide +kernel }

/-- In the order of the events the counter is exact. -/
theorem flushFirst_exact :
    Completions 0 tenBytesInstalled 1 Lsm.tenBytes.account (flushFirst.map Prod.fst)
      ∧ ((deliverAll 0 tenBytesInstalled flushFirst).account 0 1).map (·.discardableSize)
        = some (UInt64.ofNat (Lsm.tenBytes.account.dataSize
          - stillReferred (flushFirst.map Prod.fst) 1)) := by
  refine ⟨completions_flushFirst,
    (Completions.discardableSize_exact_iff completions_flushFirst).2 (.inr ?_)⟩
  exact ⟨[], Lsm.tenBytesTable, _, rfl, Lsm.refers_indexTable.2 rfl, rfl⟩

/-- In the other order the counter ends at zero, although all ten bytes
are garbage. -/
theorem compactionFirst_short :
    Completions 0 tenBytesInstalled 1 Lsm.tenBytes.account (compactionFirst.map Prod.fst)
      ∧ ((deliverAll 0 tenBytesInstalled compactionFirst).account 0 1).map
          (·.discardableSize) = some 0
      ∧ Lsm.tenBytes.account.dataSize - stillReferred (compactionFirst.map Prod.fst) 1 = 10 := by
  refine ⟨completions_compactionFirst, ?_, by decide +kernel⟩
  decide +kernel

end DiffKV
