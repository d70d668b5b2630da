/-
Deletion by live data is safe.

`LiveInv` follows every installed file through a run. The bytes its
counter has been given back, those that pending notifications are still
going to give back, and those the current version refers to are never
more than were referred to in the beginning (`Balanced`). A counter that
has reached the data size therefore leaves nothing to refer to. The
order in which notifications are delivered does not matter for this: a
flush that is reported after one of its bytes was given back makes the
counter wrap below zero, where it cannot meet the data size either.
-/
import DiffKV.Proofs.Accounting

namespace DiffKV

open Lib List BlobFileSet Option UInt64

variable {C : Coding} {notes : List (Note C)} {k : Nat} {n : UInt64} {note : Note C} {cfId : UInt32}

-- ==== what a note carries

namespace Sst

theorem bytes_eq_zero_of_not_refers {t : Sst C} (h : ¬ t.Refers n) : t.bytes n = 0 := by
  refine sum_eq_zero fun x hx => ?_
  obtain ⟨e, he, rfl⟩ := mem_map.1 hx
  unfold BlobFileSizeCollector.refBytes
  split
  case isFalse => rfl
  case isTrue htype =>
    obtain ⟨index, rest, hindex, -⟩ := t.indexed e he htype
    rw [hindex]
    dsimp only
    split
    case isFalse => rfl
    case isTrue hn => exact absurd ⟨e, he, htype, index, rest, hindex, hn⟩ h

theorem refers_iff_bytes {t : Sst C} : t.Refers n ↔ t.bytes n ≠ 0 := by
  refine ⟨fun h => Nat.ne_of_gt (bytes_pos_of_refers h), fun h => ?_⟩
  by_contra hnot
  exact h (bytes_eq_zero_of_not_refers hnot)

end Sst

theorem bytesOf_eq_zero {tables : List (Sst C)}
    (h : ∀ t ∈ tables, ¬ t.Refers n) : bytesOf tables n = 0 := by
  refine sum_eq_zero fun x hx => ?_
  obtain ⟨t, ht, rfl⟩ := mem_map.1 hx
  exact Sst.bytes_eq_zero_of_not_refers (h t ht)

namespace Note

/-- The notification is about a table that refers to the file `n`. -/
def Refers (n : UInt64) : Note C → Prop
  | flush table => table.Refers n
  | compaction inputs outputs _ => ∃ t ∈ inputs ++ outputs, t.Refers n

/-- The bytes of the file `n` that the notification gives back. -/
def decrease (n : UInt64) : Note C → Nat
  | flush _ => 0
  | compaction inputs outputs _ => bytesOf inputs n - bytesOf outputs n

/-- The bytes of the file `n` in the flush the notification reports. -/
def flushed (n : UInt64) : Note C → Option Nat
  | flush table => if table.bytes n = 0 then none else some (table.bytes n)
  | compaction _ _ _ => none

theorem decrease_eq_zero (h : ¬ note.Refers n) : note.decrease n = 0 := by
  cases note with
  | flush t => rfl
  | compaction inputs outputs outputLevel =>
    have hinputs : bytesOf inputs n = 0 := bytesOf_eq_zero fun t ht hr =>
      h ⟨t, mem_append_left _ ht, hr⟩
    show bytesOf inputs n - _ = 0
    rw [hinputs, Nat.zero_sub]

theorem flushed_eq_none (h : ¬ note.Refers n) : note.flushed n = none := by
  cases note with
  | flush t => exact if_pos (Sst.bytes_eq_zero_of_not_refers h)
  | compaction inputs outputs outputLevel => rfl

end Note

/-- The bytes of the file `n` that pending notifications give back. -/
def owed (notes : List (Note C)) (n : UInt64) : Nat :=
  (notes.map (·.decrease n)).sum

/-- The flushes of the file `n` still to be reported. -/
def awaited (notes : List (Note C)) (n : UInt64) : List Nat :=
  notes.filterMap (·.flushed n)

@[simp] theorem owed_concat (notes : List (Note C)) (note : Note C) (n : UInt64) : owed
    (notes ++ [note]) n = owed notes n + note.decrease n := by
  simp [owed]

@[simp] theorem awaited_concat (notes : List (Note C)) (note : Note C) (n : UInt64) :
    awaited (notes ++ [note]) n = awaited notes n ++ (note.flushed n).toList := by
  unfold awaited
  cases h : note.flushed n <;> simp [h]

theorem owed_eq_zero (h : ∀ note ∈ notes, ¬ note.Refers n) : owed notes n = 0 := by
  refine sum_eq_zero fun x hx => ?_
  obtain ⟨note, hnote, rfl⟩ := mem_map.1 hx
  exact Note.decrease_eq_zero (h note hnote)

theorem awaited_eq_nil (h : ∀ note ∈ notes, ¬ note.Refers n) : awaited notes n = [] := by
  unfold awaited
  rw [filterMap_eq_nil_iff]
  exact fun note hnote => Note.flushed_eq_none (h note hnote)

/-- Taking a notification out of the pending ones. -/
theorem perm_eraseIdx (h : notes[k]? = some note) : notes.Perm (note :: notes.eraseIdx k) := by
  obtain ⟨hlt, rfl⟩ := List.getElem?_eq_some_iff.1 h
  exact (getElem_cons_eraseIdx_perm hlt).symm

theorem owed_eraseIdx (h : notes[k]? = some note) (n : UInt64) :
    owed notes n = note.decrease n + owed (notes.eraseIdx k) n := ((perm_eraseIdx h).map _).sum_eq

theorem awaited_eraseIdx (h : notes[k]? = some note) (n : UInt64) :
    (awaited notes n).Perm ((note.flushed n).toList ++ awaited (notes.eraseIdx k) n) := by
  have hperm := (perm_eraseIdx h).filterMap (·.flushed n)
  unfold awaited
  refine hperm.trans ?_
  rw [filterMap_cons]
  cases note.flushed n <;> simp

/-- A flush changes the counters and nothing else. -/
theorem account_deliver_flush {fs : BlobFileSet} (env : CompactionEnv)
    (table : Sst C) (n : UInt64) :
    ((Note.flush table).deliver cfId env fs).2.account cfId n
      = (fs.account cfId n).map fun m => if table.bytes n = 0 then m
          else m.flushed (ofNat (table.bytes n)) := by
  show (onFlushCompleted C fs (Note.flushInfo cfId table)).account
    (Note.flushInfo cfId table).cfId n = _
  rw [account_onFlushCompleted, Note.sizes_flushInfo]
  show (table.sizes.lookup n).elim (fs.account cfId n) _ = _
  cases hlookup : table.sizes.lookup n with
  | none =>
    have hzero : table.bytes n = 0 :=
      Sst.bytes_eq_zero_of_not_refers fun hr => Sst.refers_iff.2 hr hlookup
    simp [hzero]
  | some size =>
    have hrefers : table.Refers n := Sst.refers_iff.1 (by simp [hlookup])
    have hsize : size = ofNat (table.bytes n) := by
      rw [← table.sizeOf_sizes, SizeDiff.sizeOf, hlookup]
      rfl
    simp only [Sst.refers_iff_bytes.1 hrefers, if_false, hsize]
    rfl

-- ==== what can happen

namespace Lsm

variable {s s' : Lsm C} {files : List BlobFileMeta} {m : BlobFileMeta}
  {table : Sst C} {inputs outputs : List (Sst C)} {outputLevel : Int}
  {fileSet : BlobFileSet} {k : Nat}

/-- Blob files a table builder may install: under new numbers, which
nothing refers to yet, with a header and a footer. -/
structure Fresh (cfId : UInt32) (s : Lsm C) (files : List BlobFileMeta) : Prop where
  isOpen : s.fileSet.getBlobStorage cfId ≠ none
  nodup : (files.map (·.fileNumber)).Nodup
  notInstalled : ∀ m ∈ files, s.fileSet.file cfId m.fileNumber = none
  uncharged : ∀ m ∈ files, m.discardableSize = 0
  framed : ∀ m ∈ files, 40 ≤ m.fileSize.toNat
  version : ∀ m ∈ files, ∀ t ∈ s.version, ¬ t.Refers m.fileNumber
  pending : ∀ m ∈ files, ∀ note ∈ s.pending, ¬ note.Refers m.fileNumber

/-- The events of the base DB. A flushed table refers only to records of
its own blob files. The outputs of a compaction refer to its own blob
files and, of any other, to no more bytes than the inputs did. A reopen
finds files that were there, with their counters at zero. -/
def Allowed (cfId : UInt32) (s : Lsm C) : Event C → Prop
  | .flush table files =>
    s.Fresh cfId files ∧ (∀ n, table.Refers n → n ∈ files.map (·.fileNumber))
      ∧ ∀ m ∈ files, table.bytes m.fileNumber ≤ m.dataSize
  | .compact inputs outputs rest files _ =>
    s.Fresh cfId files ∧ s.version.Perm (inputs ++ rest) ∧ ((inputs ++ outputs).map (·.name)).Nodup
      ∧ (∀ m ∈ files, bytesOf outputs m.fileNumber ≤ m.dataSize)
      ∧ ∀ n, n ∉ files.map (·.fileNumber) → bytesOf outputs n ≤ bytesOf inputs n
  | .deliver _ _ => True
  | .reopen fileSet => ∀ n m', fileSet.account cfId n = some m' →
      m'.discardableSize = 0 ∧ ∃ m, s.fileSet.account cfId n = some m ∧ m'.fileSize = m.fileSize

/-- The blob files an event installs are of sizes a signed 64-bit number
holds. -/
def Event.Sized : Event C → Prop
  | .flush _ files => ∀ m ∈ files, m.fileSize.toNat < 2 ^ 63
  | .compact _ _ _ files _ => ∀ m ∈ files, m.fileSize.toNat < 2 ^ 63
  | _ => True

-- ==== the invariant

/-- Every installed file is balanced, and the pending notifications are
about tables that keep the bounds of `Allowed`. -/
structure LiveInv (cfId : UInt32) (s : Lsm C) : Prop where
  framed : ∀ n m, s.fileSet.account cfId n = some m → 40 ≤ m.fileSize.toNat ∧ m.dataSize < 2 ^ 63
  balanced : ∀ n m, s.fileSet.account cfId n = some m →
    Balanced m.dataSize m.discardableSize
      (bytesOf s.version n + owed s.pending n) (awaited s.pending n)
  names : ∀ inputs outputs outputLevel, .compaction inputs outputs outputLevel ∈ s.pending →
    ((inputs ++ outputs).map (·.name)).Nodup
  bounded : ∀ inputs outputs outputLevel, .compaction inputs outputs outputLevel ∈ s.pending →
    ∀ n m, s.fileSet.account cfId n = some m → bytesOf outputs n ≤ bytesOf inputs n + m.dataSize

/-- The accounts after blob files were installed. -/
theorem account_install (h : s.Fresh cfId files)
    (hm : (s.install cfId files).account cfId n = some m) :
    (n ∉ files.map (·.fileNumber) ∧ s.fileSet.account cfId n = some m)
      ∨ ∃ f ∈ files, f.fileNumber = n ∧ m = f.account := by
  by_cases hn : n ∈ files.map (·.fileNumber)
  case neg =>
    refine .inl ⟨hn, ?_⟩
    rw [← hm]
    exact (account_logAndApply .ok rfl hn).symm
  case pos =>
    obtain ⟨f, hf, rfl⟩ := mem_map.1 hn
    obtain ⟨st, hst⟩ := ne_none_iff_exists'.1 h.isOpen
    have hlookup : s.fileSet.columnFamilies.lookup cfId = some st := hst
    have hfresh : ∀ m ∈ files, st.findFile m.fileNumber = none := by
      intro m hm
      have hnone := h.notInstalled m hm
      unfold file at hnone
      rw [hlookup] at hnone
      exact hnone
    refine .inr ⟨f, hf, rfl, ?_⟩
    exact some.inj (hm.symm.trans (account_installed hlookup h.nodup hfresh hf))

section

variable (h : s.LiveInv cfId)
include h

/-- A flush. -/
theorem LiveInv.flush (hfresh : s.Fresh cfId files)
    (hown : ∀ n, table.Refers n → n ∈ files.map (·.fileNumber))
    (hbytes : ∀ m ∈ files, table.bytes m.fileNumber ≤ m.dataSize)
    (hsized : ∀ m ∈ files, m.fileSize.toNat < 2 ^ 63) :
    LiveInv cfId ({
      fileSet := s.install cfId files
      version := table :: s.version
      pending := s.pending ++ [.flush table] } : Lsm C) where
  framed n m hm := by
    rcases account_install hfresh hm with ⟨-, hm⟩ | ⟨f, hf, -, rfl⟩
    · exact h.framed n m hm
    · have hsize := hsized f hf
      refine ⟨hfresh.framed f hf, ?_⟩
      show f.fileSize.toNat - 40 < _
      omega
  balanced n m hm := by
    rw [bytesOf_cons, owed_concat, awaited_concat]
    rcases account_install hfresh hm with ⟨hn, hm⟩ | ⟨f, hf, rfl, rfl⟩
    · -- the table refers to no file but its own
      have hzero : table.bytes n = 0 := Sst.bytes_eq_zero_of_not_refers fun hr => hn (hown n hr)
      have hnone : (Note.flush table).flushed n = none := if_pos hzero
      rw [hzero, hnone, Nat.zero_add, toList_none, append_nil]
      exact h.balanced n m hm
    · rw [bytesOf_eq_zero (hfresh.version f hf), owed_eq_zero (hfresh.pending f hf),
        awaited_eq_nil (hfresh.pending f hf), nil_append]
      have hcounter : f.account.discardableSize = 0 := hfresh.uncharged f hf
      rw [hcounter]
      show Balanced _ 0 (table.bytes f.fileNumber)
        (if table.bytes f.fileNumber = 0 then none
          else some (table.bytes f.fileNumber) : Option Nat).toList
      refine Balanced.start (hbytes f hf) ?_
      split
      · exact .inl rfl
      · exact .inr rfl
  names inputs outputs outputLevel hmem := by
    rcases mem_append.1 hmem with hmem | hmem
    · exact h.names inputs outputs outputLevel hmem
    · cases mem_singleton.1 hmem
  bounded inputs outputs outputLevel hmem n m hm := by
    rcases mem_append.1 hmem with hmem | hmem
    case inr => cases mem_singleton.1 hmem
    rcases account_install hfresh hm with ⟨-, hm⟩ | ⟨f, hf, rfl, -⟩
    · exact h.bounded inputs outputs outputLevel hmem n m hm
    · have hnot := hfresh.pending f hf _ hmem
      have hzero : bytesOf outputs f.fileNumber = 0 :=
        bytesOf_eq_zero fun t ht hr => hnot ⟨t, mem_append_right _ ht, hr⟩
      rw [hzero]
      exact Nat.zero_le _

/-- A compaction. -/
theorem LiveInv.compact {rest : List (Sst C)} (hfresh : s.Fresh cfId files)
    (hversion : s.version.Perm (inputs ++ rest))
    (hnames : ((inputs ++ outputs).map (·.name)).Nodup)
    (hbytes : ∀ m ∈ files, bytesOf outputs m.fileNumber ≤ m.dataSize)
    (hless : ∀ n, n ∉ files.map (·.fileNumber) → bytesOf outputs n ≤ bytesOf inputs n)
    (hsized : ∀ m ∈ files, m.fileSize.toNat < 2 ^ 63) :
    LiveInv cfId ({
      fileSet := s.install cfId files
      version := outputs ++ rest
      pending := s.pending ++ [.compaction inputs outputs outputLevel] } : Lsm C) where
  framed n m hm := by
    rcases account_install hfresh hm with ⟨-, hm⟩ | ⟨f, hf, -, rfl⟩
    · exact h.framed n m hm
    · have hsize := hsized f hf
      refine ⟨hfresh.framed f hf, ?_⟩
      show f.fileSize.toNat - 40 < _
      omega
  balanced n m hm := by
    have hbefore := (bytesOf_perm hversion n).trans (bytesOf_append ..)
    rw [bytesOf_append, owed_concat, awaited_concat]
    show Balanced _ _ (bytesOf outputs n + bytesOf rest n
      + (owed s.pending n + (bytesOf inputs n - bytesOf outputs n))) (awaited s.pending n ++ [])
    rw [append_nil]
    rcases account_install hfresh hm with ⟨hn, hm⟩ | ⟨f, hf, rfl, rfl⟩
    · -- what the outputs no longer refer to is owed
      refine (h.balanced n m hm).mono ?_
      have hle := hless n hn
      omega
    · rw [bytesOf_eq_zero (hfresh.version f hf)] at hbefore
      rw [owed_eq_zero (hfresh.pending f hf), awaited_eq_nil (hfresh.pending f hf)]
      have hcounter : f.account.discardableSize = 0 := hfresh.uncharged f hf
      rw [hcounter]
      refine (Balanced.start (hbytes f hf) (.inl rfl)).mono ?_
      omega
  names inputs' outputs' outputLevel' hmem := by
    rcases mem_append.1 hmem with hmem | hmem
    · exact h.names inputs' outputs' outputLevel' hmem
    · cases mem_singleton.1 hmem
      exact hnames
  bounded inputs' outputs' outputLevel' hmem n m hm := by
    rcases mem_append.1 hmem with hmem | hmem
    · rcases account_install hfresh hm with ⟨-, hm⟩ | ⟨f, hf, rfl, -⟩
      · exact h.bounded inputs' outputs' outputLevel' hmem n m hm
      · have hnot := hfresh.pending f hf _ hmem
        have hzero : bytesOf outputs' f.fileNumber = 0 :=
          bytesOf_eq_zero fun t ht hr => hnot ⟨t, mem_append_right _ ht, hr⟩
        rw [hzero]
        exact Nat.zero_le _
    · cases mem_singleton.1 hmem
      rcases account_install hfresh hm with ⟨hn, -⟩ | ⟨f, hf, rfl, rfl⟩
      · exact Nat.le_add_right_of_le (hless n hn)
      · exact Nat.le_add_left_of_le (hbytes f hf)

/-- A reopen. -/
theorem LiveInv.reopen (hfiles : ∀ n m', fileSet.account cfId n = some m' →
      m'.discardableSize = 0 ∧ ∃ m, s.fileSet.account cfId n = some m ∧ m'.fileSize = m.fileSize) :
    LiveInv cfId ({ s with fileSet, pending := [] } : Lsm C) where
  framed n m' hm' := by
    obtain ⟨-, m, hm, hsize⟩ := hfiles n m' hm'
    rw [hsize, dataSize_congr hsize]
    exact h.framed n m hm
  balanced n m' hm' := by
    obtain ⟨hcounter, m, hm, hsize⟩ := hfiles n m' hm'
    rw [hcounter, dataSize_congr hsize]
    exact (h.balanced n m hm).restart.mono (Nat.le_add_right _ _)
  names _ _ _ hmem := nomatch hmem
  bounded _ _ _ hmem := nomatch hmem

-- ==== delivery

/-- A notification is delivered that leaves the files balanced. -/
theorem LiveInv.delivered (hfiles : ∀ n m', fileSet.account cfId n = some m' →
      ∃ m, s.fileSet.account cfId n = some m ∧ m'.fileSize = m.fileSize
        ∧ Balanced m.dataSize m'.discardableSize
          (bytesOf s.version n + owed (s.pending.eraseIdx k) n)
          (awaited (s.pending.eraseIdx k) n)) :
    LiveInv cfId ({ s with fileSet, pending := s.pending.eraseIdx k } : Lsm C) where
  framed n m' hm' := by
    obtain ⟨m, hm, hsize, -⟩ := hfiles n m' hm'
    rw [hsize, dataSize_congr hsize]
    exact h.framed n m hm
  balanced n m' hm' := by
    obtain ⟨m, hm, hsize, hbalanced⟩ := hfiles n m' hm'
    rw [dataSize_congr hsize]
    exact hbalanced
  names inputs outputs outputLevel hmem :=
    h.names inputs outputs outputLevel (mem_of_mem_eraseIdx hmem)
  bounded inputs outputs outputLevel hmem n m' hm' := by
    obtain ⟨m, hm, hsize, -⟩ := hfiles n m' hm'
    rw [dataSize_congr hsize]
    exact h.bounded inputs outputs outputLevel (mem_of_mem_eraseIdx hmem) n m hm

/-- A flush is reported. -/
theorem LiveInv.deliver_flush (hk : s.pending[k]? = some (.flush table)) : LiveInv cfId ({ s with
      fileSet := onFlushCompleted C s.fileSet (Note.flushInfo cfId table)
      pending := s.pending.eraseIdx k } : Lsm C) := by
  refine h.delivered fun n m' hm' => ?_
  have howed : owed s.pending n = owed (s.pending.eraseIdx k) n :=
    (owed_eraseIdx hk n).trans (Nat.zero_add _)
  have hperm := awaited_eraseIdx hk n
  obtain ⟨m, hm, rfl⟩ := map_eq_some_iff.1 ((account_deliver_flush {} table n).symm.trans hm')
  have hbalanced := (h.balanced n m hm).perm hperm
  rw [← howed]
  refine ⟨m, hm, by split <;> rfl, ?_⟩
  split
  case isTrue hzero =>
    rw [show (Note.flush table).flushed n = none from if_pos hzero] at hbalanced
    exact hbalanced
  case isFalse hrefers =>
    rw [show (Note.flush table).flushed n = some (table.bytes n) from
      if_neg hrefers] at hbalanced
    obtain ⟨hframed, hlt⟩ := h.framed n m hm
    have hlast : awaited (s.pending.eraseIdx k) n = [] := hbalanced.awaited_tail
    rw [hlast] at hbalanced ⊢
    rw [flushed_discardableSize hframed]
    exact hbalanced.flush hlt

/-- The accounts after a compaction was reported: a file is given back
what the notification says, or nothing. -/
theorem LiveInv.account_compaction (env : CompactionEnv)
    (hk : s.pending[k]? = some (.compaction inputs outputs outputLevel)) {m' : BlobFileMeta}
    (hm' : (onCompactionCompleted C env s.fileSet (Note.compactionInfo cfId
      inputs outputs outputLevel)).2.account cfId n = some m') :
    ∃ m c, s.fileSet.account cfId n = some m ∧ c ≤ bytesOf inputs n - bytesOf outputs n
      ∧ m' = m.addDiscardableSize (ofNat c) := by
  let info := Note.compactionInfo cfId inputs outputs outputLevel
  have hmem : Note.compaction inputs outputs outputLevel ∈ s.pending := mem_of_getElem? hk
  have hkept : ∀ m : BlobFileMeta, m = m.addDiscardableSize (ofNat 0) := by
    intro m
    unfold BlobFileMeta.addDiscardableSize
    rw [show ofNat 0 = 0 from rfl, add_zero]
  by_cases hcounts : info.Counts C s.fileSet
  case neg =>
    have hsame := (onCompactionCompleted_skips env hcounts).1 n
    exact ⟨m', 0, hsame.symm.trans hm', Nat.zero_le _, hkept m'⟩
  case pos =>
    obtain ⟨st, hs⟩ := ne_none_iff_exists'.1 hcounts.2.1
    have hcharged := (onCompactionCompleted_counts env hs hcounts).1 n
    obtain ⟨m, hm, rfl⟩ := map_eq_some_iff.1 (hcharged.symm.trans hm')
    refine ⟨m, _, hm, Nat.le_refl _, ?_⟩
    have hbounded := h.bounded _ _ _ hmem n m hm
    have howed : owed s.pending n = (bytesOf inputs n - bytesOf outputs n)
      + owed (s.pending.eraseIdx k) n := owed_eraseIdx hk n
    obtain ⟨-, hlt⟩ := h.framed n m hm
    obtain ⟨total, given, hsum, htotal, -⟩ := h.balanced n m hm
    rw [show info.amount C n = _ from
      Note.amount_compactionInfo cfId (h.names _ _ _ hmem) n]
    exact charged_bytes m (by omega) (by omega)

/-- A compaction is reported. -/
theorem LiveInv.deliver_compaction (env : CompactionEnv)
    (hk : s.pending[k]? = some (.compaction inputs outputs outputLevel)) : LiveInv cfId ({ s with
      fileSet := (onCompactionCompleted C env s.fileSet
        (Note.compactionInfo cfId inputs outputs outputLevel)).2
      pending := s.pending.eraseIdx k } : Lsm C) := by
  refine h.delivered fun n m' hm' => ?_
  obtain ⟨m, c, hm, hc, rfl⟩ := h.account_compaction env hk hm'
  have howed : owed s.pending n = (bytesOf inputs n - bytesOf outputs n)
    + owed (s.pending.eraseIdx k) n := owed_eraseIdx hk n
  have hperm := awaited_eraseIdx hk n
  have hgive := ((h.balanced n m hm).perm hperm).give
    (show c ≤ bytesOf s.version n + owed s.pending n by omega)
  exact ⟨m, hm, rfl, hgive.mono (by omega)⟩

/-- One step keeps the invariant. -/
theorem LiveInv.step {e : Event C} (hallowed : s.Allowed cfId e ∧ e.Sized)
    (hstep : s.step cfId e = some s') : s'.LiveInv cfId := by
  obtain ⟨hallowed, hsized⟩ := hallowed
  cases e with
  | flush table files =>
    cases hstep
    obtain ⟨hfresh, hown, hbytes⟩ := hallowed
    exact h.flush hfresh hown hbytes hsized
  | compact inputs outputs rest files outputLevel =>
    cases hstep
    obtain ⟨hfresh, hversion, hnames, hbytes, hless⟩ := hallowed
    exact h.compact hfresh hversion hnames hbytes hless hsized
  | deliver k env =>
    unfold Lsm.step at hstep
    dsimp only at hstep
    cases hk : s.pending[k]? with
    | none =>
      rw [hk] at hstep
      cases hstep
    | some note =>
      rw [hk] at hstep
      cases hstep
      cases note with
      | flush table => exact h.deliver_flush hk
      | compaction inputs outputs outputLevel =>
        exact h.deliver_compaction env hk
  | reopen fileSet =>
    cases hstep
    exact h.reopen hallowed

end

/-- A database just created: no blob files and no tables. -/
def Empty (cfId : UInt32) (s : Lsm C) : Prop :=
  (∀ n, s.fileSet.file cfId n = none) ∧ s.version = [] ∧ s.pending = []

theorem Empty.liveInv (h : s.Empty cfId) : s.LiveInv cfId := by
  obtain ⟨hfiles, -, hpending⟩ := h
  have hnone : ∀ n, s.fileSet.account cfId n = none := by
    intro n
    rw [account_eq, hfiles]
    rfl
  refine ⟨fun n m hm => ?_, fun n m hm => ?_, ?_, ?_⟩
  · rw [hnone] at hm
    cases hm
  · rw [hnone] at hm
    cases hm
  · intro _ _ _ hmem
    rw [hpending] at hmem
    cases hmem
  · intro _ _ _ hmem
    rw [hpending] at hmem
    cases hmem

/-- **Deletion by live data is safe.** After any run of flushes,
compactions, notifications in any order and reopens from an empty
database, with blob files of less than 2^63 bytes, a notification
deletes a file only if it is sorted and no table of the current version
refers to a record of it. -/
theorem deletes_only_unreferenced {s₀ : Lsm C} (h₀ : s₀.Empty cfId) {es : List (Event C)}
    (hmeets : Meets (step cfId) (fun s e => s.Allowed cfId e ∧ e.Sized) s₀ es)
    (hexec : exec (step cfId) s₀ es = some s) {k : Nat} {note : Note C}
    (hk : s.pending[k]? = some note) (env : CompactionEnv) :
    ∀ d ∈ (note.deliver cfId env s.fileSet).1.deletedFiles,
      (∃ m, s.fileSet.file cfId d.1 = some m ∧ m.fileType = kSorted)
        ∧ ∀ t ∈ s.version, ¬ t.Refers d.1 := by
  have h : s.LiveInv cfId := exec_keeps (fun h hc hs => h.step hc hs) h₀.liveInv hmeets hexec
  cases note with
  | flush table => exact fun d hd => nomatch hd
  | compaction inputs outputs outputLevel =>
    intro d hd
    let info := Note.compactionInfo cfId inputs outputs outputLevel
    have hcounts : info.Counts C s.fileSet := by
      by_contra hskips
      have hnil := (onCompactionCompleted_skips env hskips).2
      rw [show (Note.deliver cfId env s.fileSet (.compaction inputs outputs
        outputLevel)).1.deletedFiles = _ from hnil] at hd
      cases hd
    obtain ⟨st, hs⟩ := ne_none_iff_exists'.1 hcounts.2.1
    obtain ⟨hcharged, hdeleted⟩ := onCompactionCompleted_counts env hs hcounts
    obtain ⟨-, amount, hlookup, hmerge, -, m, hm, hsorted, hempty⟩ := (hdeleted d).1 hd
    have hmfs : s.fileSet.account cfId d.1 = some m := by
      unfold account
      rw [show s.fileSet.columnFamilies.lookup cfId = some st from hs]
      exact hm
    have hamount : info.amount C d.1 = amount := by
      unfold CompactionJobInfo.amount
      rw [hlookup]
      rfl
    -- the counter has reached the data size once the file is charged
    have hm' : (onCompactionCompleted C env s.fileSet info).2.account cfId d.1
        = some (m.charged amount) := by
      refine (hcharged d.1).trans ?_
      rw [show s.fileSet.account info.cfId d.1 = some m from hmfs, hamount]
      rfl
    have hinv := h.deliver_compaction env hk
    obtain ⟨hframed, hlt⟩ := hinv.framed d.1 _ hm'
    have hreached : (m.charged amount).discardableSize = ofNat (m.charged amount).dataSize := by
      rw [← dataSize_ofNat hframed]
      exact of_decide_eq_true hempty
    have hzero := (hinv.balanced d.1 _ hm').referred_eq_zero hlt hreached
    refine ⟨?_, not_refers_of_bytesOf (Nat.eq_zero_of_add_eq_zero_right hzero)⟩
    rw [account_eq] at hmfs
    obtain ⟨f, hf, rfl⟩ := map_eq_some_iff.1 hmfs
    exact ⟨f, hf, hsorted⟩

-- ==== instances

/-- An empty column family with `level_merge` on. -/
def created : Lsm base128 where
  fileSet := {
    columnFamilies := Table.empty.insert 0
      { dbOptions := {}, cfOptions := { levelMerge := true } } }

/-- A table with one entry, a blob index. -/
def indexTable (name : String) (index : BlobIndex)
    (hsize : index.blobHandle.size ≠ 0) : Sst base128 where
  name := name
  entries := [{
    userKey := .byte 1
    sequence := 1
    type := .kTypeBlobIndex
    value := index.encodeTo base128 }]
  indexed := by
    intro e he _
    rw [List.mem_singleton.1 he]
    exact ⟨index, [], BlobIndex.decodeFrom_encodeTo .., hsize⟩
  countable := by
    unfold BlobFileSizeCollector.collect BlobFileSizeCollector.addUserKey
    simp [Table.entries_insert, show (Table.empty : BlobFilesSize).entries = [] from rfl]

theorem refers_indexTable {name : String} {index : BlobIndex} {hsize : index.blobHandle.size ≠ 0} :
    (indexTable name index hsize).Refers n ↔ n = index.fileNumber := by
  constructor
  · rintro ⟨e, he, -, index', rest, hindex, rfl⟩
    rw [mem_singleton.1 he] at hindex
    cases (BlobIndex.decodeFrom_encodeTo base128 index).symm.trans hindex
    rfl
  · rintro rfl
    exact ⟨_, mem_singleton_self _, rfl, index, [], BlobIndex.decodeFrom_encodeTo .., rfl⟩

/-- Delivering a compaction deletes a file that it empties. -/
theorem deletes_emptied {s : Lsm C} (amount : Int64)
    (hcounts : (Note.compactionInfo cfId inputs outputs outputLevel).Counts C s.fileSet)
    (hmerge : (s.fileSet.getBlobStorage cfId).map (·.cfOptions.levelMerge)
      = some true) (hm : s.fileSet.account cfId n = some m)
    (hsorted : m.fileType = kSorted)
    (hamount : (SizeDiff.calcBfs C (Note.compactionInfo cfId inputs outputs
      outputLevel)).diff.lookup n = some amount) (hneg : ¬ amount ≥ 0)
    (hempty : (m.charged amount).noLiveData = true) (env : CompactionEnv) :
    (n, env.latest) ∈ ((Note.compaction inputs outputs outputLevel).deliver
      cfId env s.fileSet).1.deletedFiles := by
  obtain ⟨st, hs, hmerge⟩ := map_eq_some_iff.1 hmerge
  have hst : st.account n = some m := by
    rw [← hm]
    unfold account
    rw [show s.fileSet.columnFamilies.lookup cfId = some st from hs]
    rfl
  exact ((onCompactionCompleted_counts env hs hcounts).2 (n, env.latest)).2
    ⟨rfl, amount, hamount, hmerge, hneg, m, hst, hsorted, hempty⟩

/-- A file of ten bytes of records, and the table that refers to it. -/
def tenBytes : BlobFileMeta :=
  { fileNumber := 1, fileSize := 50, fileType := kSorted }

def tenBytesTable : Sst base128 :=
  indexTable "1.sst" { fileNumber := 1, blobHandle := ⟨8, 10⟩ } (by decide)

/-- The table is flushed, and a compaction drops its only entry. -/
def dropRun : List (Event base128) :=
  [.flush tenBytesTable [tenBytes], .deliver 0 {}, .compact [tenBytesTable] [] [] [] 1]

def dropped : Lsm base128 := (exec (step 0) created dropRun).getD created

theorem fresh_nil {s : Lsm C} (h : s.fileSet.getBlobStorage cfId ≠ none) : s.Fresh cfId [] where
  isOpen := h
  nodup := nodup_nil
  notInstalled := fun _ hm => nomatch hm
  uncharged := fun _ hm => nomatch hm
  framed := fun _ hm => nomatch hm
  version := fun _ hm => nomatch hm
  pending := fun _ hm => nomatch hm

theorem dropRun_meets : Meets (step 0) (fun s e => s.Allowed 0 e ∧ e.Sized) created dropRun := by
  refine ⟨⟨⟨?_, ?_, ?_⟩, ?_⟩, ⟨trivial, trivial⟩, ⟨⟨?_, ?_, ?_, ?_, ?_⟩, ?_⟩, trivial⟩
  · exact {
      isOpen := isSome_iff_ne_none.1 (by decide +kernel)
      nodup := nodup_singleton _
      notInstalled := fun _ _ => rfl
      uncharged := forall_mem_singleton.2 rfl
      framed := forall_mem_singleton.2 (by decide +kernel)
      version := fun _ _ _ ht => nomatch ht
      pending := fun _ _ _ hnote => nomatch hnote }
  · intro n hn
    rw [refers_indexTable.1 hn]
    exact mem_singleton_self _
  · exact forall_mem_singleton.2 (by decide +kernel)
  · exact forall_mem_singleton.2 (by decide +kernel)
  · exact fresh_nil (isSome_iff_ne_none.1 (by decide +kernel))
  · exact List.Perm.refl _
  · exact nodup_singleton _
  · exact fun _ hm => nomatch hm
  · exact fun n _ => Nat.zero_le _
  · exact fun _ hm => nomatch hm

/-- The compaction's notification deletes the file, which nothing refers
to any more. -/
theorem dropRun_deletes :
    exec (step 0) created dropRun = some dropped
      ∧ (1, 0) ∈ ((Note.compaction [tenBytesTable] [] 1).deliver 0 {}
        dropped.fileSet).1.deletedFiles
      ∧ ∀ t ∈ dropped.version, ¬ t.Refers 1 := by
  have hdeleted : (1, 0) ∈ ((Note.compaction [tenBytesTable] [] 1).deliver 0 {}
      dropped.fileSet).1.deletedFiles := by
    have hm : dropped.fileSet.account 0 1 = some tenBytes.account := by
      decide +kernel
    refine deletes_emptied (-10) ?_ ?_ hm rfl ?_ ?_ ?_ {}
    · exact Note.counts_compactionInfo 0 (isSome_iff_ne_none.1 (by decide +kernel))
        (nodup_singleton _) fun _ hn => absurd hn (Nat.lt_irrefl 0)
    all_goals decide +kernel
  exact ⟨rfl, hdeleted, (@deletes_only_unreferenced base128 0 dropped created
    ⟨fun _ => rfl, rfl, rfl⟩ dropRun dropRun_meets rfl 0 _ rfl {} _ hdeleted).2⟩

/-- A file of 2^63 bytes of records, and the table that refers to all of
them. -/
def hugeFile : BlobFileMeta :=
  { fileNumber := 1, fileSize := 2 ^ 63 + 40, fileType := kSorted }

def hugeTable : Sst base128 :=
  indexTable "2.sst" { fileNumber := 1, blobHandle := ⟨8, 2 ^ 63⟩ } (by decide +kernel)

/-- A table without blob indexes. -/
def inlineTable : Sst base128 where
  name := "1.sst"
  entries := []
  indexed := fun _ he => nomatch he
  countable := by decide +kernel

/-- A table is flushed, and a compaction writes the values of its output
to the file. -/
def hugeRun : List (Event base128) :=
  [.flush inlineTable [], .deliver 0 {}, .compact [inlineTable] [hugeTable] [] [hugeFile] 1]

def grown : Lsm base128 := (exec (step 0) created hugeRun).getD created

/-- The bytes the outputs refer to are negative as a signed number, so
they are charged to the file, and it is deleted while the new table
refers to all of it. -/
theorem hugeRun_deletes_referenced :
    Meets (step 0) (fun s e => s.Allowed 0 e) created hugeRun
      ∧ exec (step 0) created hugeRun = some grown
      ∧ grown.pending[0]? = some (.compaction [inlineTable] [hugeTable] 1)
      ∧ (1, 0) ∈ ((Note.compaction [inlineTable] [hugeTable] 1).deliver 0 {}
        grown.fileSet).1.deletedFiles
      ∧ hugeTable ∈ grown.version ∧ hugeTable.Refers 1 := by
  refine ⟨?_, rfl, rfl, ?_, mem_singleton_self _, refers_indexTable.2 rfl⟩
  · refine ⟨⟨?_, ?_, ?_⟩, trivial, ⟨?_, ?_, ?_, ?_, ?_⟩, trivial⟩
    · exact fresh_nil (isSome_iff_ne_none.1 (by decide +kernel))
    · rintro n ⟨e, he, -⟩
      cases he
    · exact fun _ hm => nomatch hm
    · exact {
        isOpen := isSome_iff_ne_none.1 (by decide +kernel)
        nodup := nodup_singleton _
        notInstalled := forall_mem_singleton.2 (by decide +kernel)
        uncharged := forall_mem_singleton.2 rfl
        framed := forall_mem_singleton.2 (by decide +kernel)
        version := by
          rintro m - t ht ⟨e, he, -⟩
          rw [mem_singleton.1 ht] at he
          cases he
        pending := fun _ _ _ hnote => nomatch hnote }
    · exact List.Perm.refl _
    · decide +kernel
    · exact forall_mem_singleton.2 (by decide +kernel)
    · intro n hn
      have hzero : bytesOf [hugeTable] n = 0 := by
        refine bytesOf_eq_zero (forall_mem_singleton.2 fun hr => hn ?_)
        rw [refers_indexTable.1 hr]
        exact mem_singleton_self _
      rw [hzero]
      exact Nat.zero_le _
  · have hm : grown.fileSet.account 0 1 = some hugeFile.account := by
      decide +kernel
    refine deletes_emptied (2 ^ 63 : UInt64).toInt64 ?_ ?_ hm rfl ?_ ?_ ?_ {}
    · refine Note.counts_compactionInfo 0
        (isSome_iff_ne_none.1 (by decide +kernel)) (by decide +kernel) fun n hn => ?_
      have hr : hugeTable.Refers n := Sst.refers_iff_bytes.2 (Nat.ne_of_gt (by simpa using hn))
      rw [refers_indexTable.1 hr]
      exact ne_none_iff_exists'.2 ⟨_, hm⟩
    all_goals decide +kernel

end Lsm

end DiffKV
