/-
How blob files leave the storages: edits make them obsolete, and
`GetObsoleteFiles` hands them out for deletion.

Four operations make files obsolete or drop storages, and all but two
come down to edits applied one after the other. So the effect of an
operation on the storage of one column family is one of three things:
edits (`Applied`), the mark of a destroyed column family, or the removal
of handed out files. `Each.act` is the induction rule over these; each
invariant of a storage is proved from it.
-/
import DiffKV.Proofs.StorageViews

namespace DiffKV

open Lib Relation List BlobFileMeta Table Option BlobFileSet

variable {st st' : BlobStorage} {op : FileSetOp} {i : UInt32}
  {e : VersionEdit} {C : Coding} {fs' fs : BlobFileSet} {n : UInt64}
  {d : UInt64 × SequenceNumber} {q : SequenceNumber}

-- ==== one edit

namespace BlobStorage

/-- The file is in the storage and obsolete. -/
def obsolete (st : BlobStorage) (n : UInt64) : Bool :=
  (st.findFile n).any (·.isObsolete)

/-- The storage after an edit of the kind `P` that passed the checks. -/
def Applied (P : VersionEdit → Prop) (st st' : BlobStorage) : Prop :=
  ∃ e, P e ∧ e.Nodup ∧ e.batch.Sealable st ∧ st' = (e.batch.apply st).2

theorem any_isObsolete_uncharged {o o' : Option BlobFileMeta}
    (h : o'.map uncharged = o.map uncharged) : o'.any (·.isObsolete) = o.any (·.isObsolete) := by
  have hany : ∀ o : Option BlobFileMeta, o.any (·.isObsolete)
      = (o.map uncharged).any (·.isObsolete) := by
    intro o
    cases o <;> rfl
  rw [hany o', h, ← hany]

namespace Edited

variable (h : st.Edited e st')
include h

/-- A file is one the edit adds, one it deletes, or as it was. -/
theorem cases (n : UInt64) :
    (∃ m ∈ e.unpairedAdded, m.fileNumber = n ∧ st.findFile n = none
        ∧ (st'.findFile n).map uncharged = some m.uncharged)
      ∨ (∃ m, n ∈ e.unpairedDeleted.map Prod.fst ∧ st.findFile n = some m ∧ m.isObsolete = false
        ∧ (st'.findFile n).map uncharged = some { m.uncharged with state := .kObsolete })
      ∨ (n ∉ e.unpairedDeleted.map Prod.fst
        ∧ (st'.findFile n).map uncharged = (st.findFile n).map uncharged) := by
  by_cases hadded : n ∈ e.unpairedAdded.map (·.fileNumber)
  · obtain ⟨m, hm, rfl⟩ := mem_map.1 hadded
    exact .inl ⟨m, hm, rfl, h.added m hm⟩
  · by_cases hdeleted : n ∈ e.unpairedDeleted.map Prod.fst
    · obtain ⟨d, hd, rfl⟩ := mem_map.1 hdeleted
      obtain ⟨m, hm⟩ := h.deleted d hd
      exact .inr (.inl ⟨m, hdeleted, hm⟩)
    · exact .inr (.inr ⟨hdeleted, h.others n hadded hdeleted⟩)

theorem isSome_of_isSome (hn : (st'.findFile n).isSome) :
    (st.findFile n).isSome ∨ n ∈ e.addedFiles.map (·.fileNumber) := by
  rcases h.cases n with ⟨m, hm, rfl, -⟩ | ⟨m, -, hm, -⟩ | ⟨-, heq⟩
  · exact .inr (mem_map_of_mem (mem_filter.1 hm).1)
  · rw [hm]
    exact .inl rfl
  · have hsome := congrArg isSome heq
    rw [isSome_map, isSome_map, hn] at hsome
    exact .inl hsome.symm

theorem obsolete_of_deleted (hn : n ∈ e.unpairedDeleted.map Prod.fst) :
    st.obsolete n = false ∧ st'.obsolete n = true := by
  obtain ⟨d, hd, rfl⟩ := mem_map.1 hn
  obtain ⟨m, hm, hlive, hsome⟩ := h.deleted d hd
  obtain ⟨m', hm', hstate⟩ := map_eq_some_iff.1 hsome
  refine ⟨?_, ?_⟩
  · unfold obsolete
    rw [hm]
    exact hlive
  · have hobs := congrArg isObsolete hstate
    unfold obsolete
    rw [hm']
    exact hobs

/-- No edit revives a file. -/
theorem obsolete_mono (hn : st.obsolete n = true) : st'.obsolete n = true := by
  rcases h.cases n with ⟨m, -, -, hnone, -⟩ | ⟨m, hd, -⟩ | ⟨-, heq⟩
  · unfold obsolete at hn
    rw [hnone] at hn
    cases hn
  · exact (h.obsolete_of_deleted hd).2
  · exact (any_isObsolete_uncharged heq).trans hn

/-- An edit makes obsolete what it deletes. -/
theorem obsolete_of_obsolete (hnew : e.New) (hn : st'.obsolete n = true) :
    st.obsolete n = true ∨ n ∈ e.unpairedDeleted.map Prod.fst := by
  rcases h.cases n with ⟨m, hm, -, -, hsome⟩ | ⟨m, hd, -⟩ | ⟨-, heq⟩
  · obtain ⟨m', hm', hstate⟩ := map_eq_some_iff.1 hsome
    have hlive : m'.isObsolete = false :=
      (congrArg isObsolete hstate).trans (hnew m (mem_filter.1 hm).1)
    unfold obsolete at hn
    rw [hm'] at hn
    exact absurd hn (by simpa using hlive)
  · exact .inr hd
  · exact .inl ((any_isObsolete_uncharged heq).symm.trans hn)

end Edited

/-- What the applied edit is, and what it did. -/
theorem Applied.edited {P : VersionEdit → Prop} (h : Applied P st st') :
    ∃ e, P e ∧ e.Nodup ∧ st.Edited e st' ∧ st'.destroyed = st.destroyed := by
  obtain ⟨e, he, hnodup, hfit, rfl⟩ := h
  exact ⟨e, he, hnodup, VersionEdit.edited_apply hnodup hfit,
    (CFEditCollector.apply_options st).2.2⟩

end BlobStorage

-- ==== the operations

namespace BlobFileSet

/-- The edits an operation issues for one of its column families. -/
def Issues (fs : BlobFileSet) : FileSetOp → VersionEdit → Prop
  | .logAndApply edit _, e => e = edit
  | .dropColumnFamilies _ obsoleteSequence, e =>
    e.addedFiles = [] ∧ ∀ d ∈ e.deletedFiles, d.2 = obsoleteSequence
  | .deleteBlobFilesInRanges cfId ranges includeEnd _ _, e =>
    ∃ st files, fs.columnFamilies.lookup cfId = some st
      ∧ st.getBlobFilesInRanges ranges includeEnd = some files
      ∧ e = rangeEdit cfId files
  | .maybeDestroyColumnFamily _, _ => False
  | .getObsoleteFiles _, _ => False

/-- The storage of column family `i` before and after edits of the kind
`P`. -/
abbrev Edits (P : VersionEdit → Prop) (i : UInt32) :
    Option BlobStorage → Option BlobStorage → Prop :=
  Option.Rel (ReflTransGen (BlobStorage.Applied fun e =>
    e.columnFamilyId = i ∧ P e))

/-- What an operation does to the storage of column family `i`. -/
inductive Effect (fs : BlobFileSet) (op : FileSetOp) (i : UInt32) :
    Option BlobStorage → Option BlobStorage → Prop
  | edits {o o' : Option BlobStorage} (h : Edits (fs.Issues op) i o o') : Effect fs op i o o'
  | destroy {st : BlobStorage} (hop : op = .maybeDestroyColumnFamily i) :
      Effect fs op i (some st) (orErased st.markDestroyed)
  | purge {st : BlobStorage} {oldestSequence : SequenceNumber}
      (hop : op = .getObsoleteFiles oldestSequence)
      (hfree : fs.obsoleteColumns.contains i = false) :
      Effect fs op i (some st) (orErased (st.getObsoleteFiles oldestSequence).2)

variable {P Q : VersionEdit → Prop} {o o' o'' : Option BlobStorage}

theorem Edits.refl (o : Option BlobStorage) : Edits P i o o := by
  cases o with
  | none => exact .none
  | some st => exact .some .refl

theorem Edits.trans (h : Edits P i o o') (h' : Edits P i o' o'') : Edits P i o o'' := by
  cases h with
  | none => exact h'
  | some h =>
    cases h' with
    | some h' => exact .some (h.trans h')

theorem Edits.mono (h : Edits P i o o') (hpq : ∀ e, P e → Q e) : Edits Q i o o' := by
  cases h with
  | none => exact .none
  | some h =>
    refine .some (ReflTransGen.mono (fun st st' happlied => ?_) _ _ h)
    obtain ⟨e, he, hrest⟩ := happlied
    exact ⟨e, ⟨he.1, hpq e he.2⟩, hrest⟩

-- ---- by edits

theorem edits_logAndApply (fs : BlobFileSet) (e : VersionEdit) (io : ManifestIO) (i : UInt32) :
    Edits (· = e) i (fs.columnFamilies.lookup i)
      ((fs.logAndApply C e io).2.columnFamilies.lookup i) := by
  rcases lookup_logAndApply_cases fs e io i with
    heq | ⟨st, hi, hadm, -, hst, heq⟩
  · rw [heq]
    exact Edits.refl _
  · rw [heq, hst]
    exact .some (.single ⟨e, ⟨hi.symm, rfl⟩, hadm.nodup, hadm.fits st (hi ▸ hst), rfl⟩)

theorem dropEdit_eq (cf : UInt32 × BlobStorage) (s : SequenceNumber) :
    dropEdit cf s = {
      columnFamilyId := cf.1
      deletedFiles := (cf.2.files.entries.filter fun f =>
        !f.isObsolete).map fun f => (f.fileNumber, s) } := by
  unfold dropEdit
  rw [foldl_deleteBlobFile]
  rfl

theorem rangeEdit_eq (cfId : UInt32) (files : List UInt64) :
    rangeEdit cfId files = {
      columnFamilyId := cfId
      deletedFiles := files.map fun n => (n, 0) } :=
  foldl_deleteBlobFile id 0 files _

theorem edits_dropColumnFamily (fs : BlobFileSet) (s : SequenceNumber)
    (cf : UInt32 × ManifestIO) (i : UInt32) :
    Edits (fs.Issues (.dropColumnFamilies [cf] s)) i (fs.columnFamilies.lookup i)
      ((dropColumnFamily C s fs cf).2.columnFamilies.lookup i) := by
  unfold dropColumnFamily
  cases hst : fs.columnFamilies.lookup cf.1 with
  | none => exact Edits.refl _
  | some st =>
    have hlog := edits_logAndApply (C := C) fs (dropEdit (cf.1, st) s) cf.2 i
    have hedits := hlog.mono (Q := fs.Issues (.dropColumnFamilies [cf] s)) fun e he => by
        rw [dropEdit_eq] at he
        subst he
        refine ⟨rfl, fun d hd => ?_⟩
        obtain ⟨f, -, rfl⟩ := mem_map.1 hd
        rfl
    dsimp only
    split
    · exact hedits
    · exact hedits

theorem edits_dropColumnFamilies (fs : BlobFileSet)
    (cfs : List (UInt32 × ManifestIO)) (s : SequenceNumber) (i : UInt32) :
    Edits (fs.Issues (.dropColumnFamilies cfs s)) i (fs.columnFamilies.lookup i)
      ((fs.dropColumnFamilies C cfs s).2.columnFamilies.lookup i) := by
  unfold dropColumnFamilies
  induction cfs generalizing fs with
  | nil => exact Edits.refl _
  | cons cf cfs ih =>
    have hone := edits_dropColumnFamily (C := C) fs s cf i
    rw [Status.forEach_cons]
    split
    · exact hone.trans (ih _)
    · exact hone

-- ---- all operations

theorem lookup_maybeDestroyColumnFamily (fs : BlobFileSet) (j i : UInt32) :
    (fs.maybeDestroyColumnFamily j).2.columnFamilies.lookup i
      = if i = j then (fs.columnFamilies.lookup i).bind fun st => orErased st.markDestroyed
        else fs.columnFamilies.lookup i := by
  unfold maybeDestroyColumnFamily
  dsimp only
  cases hst : fs.columnFamilies.lookup j with
  | none =>
    by_cases hi : i = j
    · simp [hi, hst]
    · simp [hi]
  | some st =>
    unfold orErased
    by_cases hi : i = j
    · subst hi
      rw [if_pos rfl, hst]
      dsimp only [bind_some]
      split
      · rw [lookup_erase, if_pos rfl]
      · rw [lookup_insert, if_pos rfl]
    · rw [if_neg hi]
      dsimp only
      split
      · rw [lookup_erase, if_neg hi]
      · rw [lookup_insert, if_neg hi]

/-- A range deletion leaves the file set alone or logs its edit. -/
theorem act_deleteBlobFilesInRanges {j : UInt32}
    {ranges : List BlobStorage.RangePtr} {includeEnd : Bool} {s : SequenceNumber} {io : ManifestIO}
    (h : fs.act C (.deleteBlobFilesInRanges j ranges includeEnd s io) = some fs') :
    fs' = fs ∨ ∃ st files, fs.columnFamilies.lookup j = some st
      ∧ st.getBlobFilesInRanges ranges includeEnd = some files
      ∧ fs' = (fs.logAndApply C (rangeEdit j files) io).2 := by
  unfold act deleteBlobFilesInRanges at h
  cases hst : fs.columnFamilies.lookup j with
  | none =>
    simp only [hst, map_some, some.injEq] at h
    exact .inl h.symm
  | some st =>
    cases hfiles : st.getBlobFilesInRanges ranges includeEnd with
    | none => simp [hst, hfiles] at h
    | some files =>
      simp only [hst, hfiles, map_some, some.injEq] at h
      exact .inr ⟨st, files, rfl, hfiles, h.symm⟩

/-- What an operation does to each storage. -/
theorem effect (h : fs.act C op = some fs') (i : UInt32) :
    Effect fs op i (fs.columnFamilies.lookup i) (fs'.columnFamilies.lookup i) := by
  cases op with
  | logAndApply e io =>
    cases h
    exact .edits (edits_logAndApply fs e io i)
  | dropColumnFamilies cfs s =>
    cases h
    exact .edits (edits_dropColumnFamilies fs cfs s i)
  | deleteBlobFilesInRanges j ranges includeEnd s io =>
    rcases act_deleteBlobFilesInRanges h with rfl | ⟨st, files, hst, hfiles, rfl⟩
    · exact .edits (Edits.refl _)
    · refine .edits ((edits_logAndApply fs _ io i).mono ?_)
      exact fun e he => ⟨st, files, hst, hfiles, he⟩
  | maybeDestroyColumnFamily j =>
    cases h
    rw [lookup_maybeDestroyColumnFamily]
    split
    case isFalse => exact .edits (Edits.refl _)
    case isTrue hi =>
      subst hi
      cases fs.columnFamilies.lookup i with
      | none => exact .edits .none
      | some st => exact .destroy rfl
  | getObsoleteFiles q =>
    cases h
    rw [lookup_getObsoleteFiles]
    split
    case isTrue => exact .edits (Edits.refl _)
    case isFalse hfree =>
      cases fs.columnFamilies.lookup i with
      | none => exact .edits .none
      | some st => exact .purge rfl (by simpa using hfree)

end BlobFileSet

-- ==== the obsolete lists

namespace BlobStorage

/-- Each file listed as obsolete is listed once, and is obsolete. -/
structure Listed (st : BlobStorage) : Prop where
  nodup : (st.obsoleteFiles.map Prod.fst).Nodup
  obsolete : ∀ n ∈ st.obsoleteFiles.map Prod.fst, st.obsolete n = true

/-- Each obsolete file is listed. -/
def ListsAll (st : BlobStorage) : Prop :=
  ∀ n, st.obsolete n = true → n ∈ st.obsoleteFiles.map Prod.fst

variable {P : VersionEdit → Prop}

theorem Edited.mem_listed (h : st.Edited e st') (n : UInt64) :
    n ∈ st'.obsoleteFiles.map Prod.fst
      ↔ n ∈ st.obsoleteFiles.map Prod.fst ∨ n ∈ e.unpairedDeleted.map Prod.fst := by
  rw [(h.obsoleteFiles.map Prod.fst).mem_iff, map_append, mem_append]

theorem Listed.applied (h : st.Listed) (happlied : Applied P st st') : st'.Listed := by
  obtain ⟨e, -, hnodup, hedited, -⟩ := happlied.edited
  refine ⟨?_, fun n hn => ?_⟩
  · rw [(hedited.obsoleteFiles.map Prod.fst).nodup_iff, map_append]
    refine h.nodup.append (hnodup.2.sublist (filter_sublist.map _)) ?_
    intro n hn hd
    have hlive := (hedited.obsolete_of_deleted hd).1
    rw [h.obsolete n hn] at hlive
    cases hlive
  · rcases (hedited.mem_listed n).1 hn with hn | hd
    · exact hedited.obsolete_mono (h.obsolete n hn)
    · exact (hedited.obsolete_of_deleted hd).2

theorem ListsAll.applied (h : st.ListsAll) (happlied : Applied P st st')
    (hnew : ∀ e, P e → e.New) : st'.ListsAll := by
  obtain ⟨e, he, -, hedited, -⟩ := happlied.edited
  intro n hn
  rw [hedited.mem_listed]
  exact (hedited.obsolete_of_obsolete (hnew e he) hn).imp_left (h n)

theorem obsolete_getObsoleteFiles (st : BlobStorage) (q : SequenceNumber) (n : UInt64) :
    (st.getObsoleteFiles q).2.obsolete n = true
      ↔ n ∉ (st.getObsoleteFiles q).1 ∧ st.obsolete n = true := by
  unfold obsolete
  rw [findFile_getObsoleteFiles]
  split
  case isTrue hn => simp [hn]
  case isFalse hn => simp [hn]

/-- What is still listed has a sequence the purge does not reach. -/
theorem mem_obsoleteFiles_getObsoleteFiles :
    d ∈ (st.getObsoleteFiles q).2.obsoleteFiles ↔ d ∈ st.obsoleteFiles ∧ ¬ d.2 < q := by
  unfold getObsoleteFiles
  simp

theorem Listed.getObsoleteFiles (h : st.Listed) (q : SequenceNumber) :
    (st.getObsoleteFiles q).2.Listed := by
  refine ⟨h.nodup.sublist (filter_sublist.map _), fun n hn => ?_⟩
  obtain ⟨d, hd, rfl⟩ := mem_map.1 hn
  obtain ⟨hd, hseq⟩ := mem_obsoleteFiles_getObsoleteFiles.1 hd
  rw [obsolete_getObsoleteFiles]
  refine ⟨fun hremoved => ?_, h.obsolete _ (mem_map_of_mem hd)⟩
  -- another entry of the same file would be in the purge's reach
  obtain ⟨s, hs, hlt⟩ := mem_getObsoleteFiles hremoved
  have hsame : d = (d.1, s) := inj_on_of_nodup_map h.nodup hd hs rfl
  rw [hsame] at hseq
  exact hseq hlt

theorem ListsAll.getObsoleteFiles (h : st.ListsAll) (q : SequenceNumber) :
    (st.getObsoleteFiles q).2.ListsAll := by
  intro n hn
  obtain ⟨hkept, hn⟩ := (obsolete_getObsoleteFiles st q n).1 hn
  obtain ⟨d, hd, rfl⟩ := mem_map.1 (h n hn)
  refine mem_map_of_mem (mem_obsoleteFiles_getObsoleteFiles.2 ⟨hd, fun hlt => hkept ?_⟩)
  exact mem_map_of_mem (mem_filter.2 ⟨hd, by simpa using hlt⟩)

/-- A file listed after edits was listed before, or one of them deletes
it; then it was not obsolete. -/
theorem mem_obsoleteFiles_of_edits (h : ReflTransGen (Applied P) st st')
    (hd : d ∈ st'.obsoleteFiles) :
    d ∈ st.obsoleteFiles ∨ (st.obsolete d.1 = false ∧ ∃ e, P e ∧ e.Nodup ∧ d ∈ e.deletedFiles) := by
  induction h using ReflTransGen.head_induction_on with
  | refl => exact .inl hd
  | head hfirst _ ih =>
    obtain ⟨e, he, hnodup, hedited, -⟩ := hfirst.edited
    rcases ih with hd | ⟨hlive, hrest⟩
    · rcases mem_append.1 (hedited.obsoleteFiles.mem_iff.1 hd) with hd | hd
      · exact .inl hd
      · exact .inr ⟨(hedited.obsolete_of_deleted (mem_map_of_mem hd)).1, e, he, hnodup,
          (mem_filter.1 hd).1⟩
    · refine .inr ⟨?_, hrest⟩
      rw [← Bool.not_eq_true] at hlive ⊢
      exact fun hobs => hlive (hedited.obsolete_mono hobs)

end BlobStorage

namespace BlobFileSet

/-- What every storage has and every effect of the operation keeps, every
storage has after it. -/
theorem each_act {P : UInt32 → BlobStorage → Prop}
    (edit : ∀ {i st₀ st st'}, fs.columnFamilies.lookup i = some st₀ →
      st.destroyed = st₀.destroyed → BlobStorage.Applied (fun e =>
        e.columnFamilyId = i ∧ fs.Issues op e) st st' → P i st → P i st')
    (destroy : ∀ {i st}, op = .maybeDestroyColumnFamily i →
      fs.columnFamilies.lookup i = some st → P i st → P i st.markDestroyed)
    (purge : ∀ {i st q}, op = .getObsoleteFiles q → P i st → P i (st.getObsoleteFiles q).2)
    (h : ∀ i st, fs.columnFamilies.lookup i = some st → P i st) (hstep : fs.act C op = some fs') :
    ∀ i st, fs'.columnFamilies.lookup i = some st → P i st := by
  intro i st' hst'
  have heffect := effect hstep i
  rw [hst'] at heffect
  cases hst : fs.columnFamilies.lookup i with
  | none =>
    rw [hst] at heffect
    cases heffect with
    | edits hedits => cases hedits
  | some st =>
    have hP := h i st hst
    rw [hst] at heffect
    generalize ho : some st' = o at heffect
    cases heffect with
    | edits hedits =>
      cases hedits with
      | some hpath =>
        cases ho
        have hpath : P i st' ∧ st'.destroyed = st.destroyed := by
          clear hst'
          induction hpath with
          | refl => exact ⟨hP, rfl⟩
          | tail _ hlast ih =>
            obtain ⟨-, -, -, -, hsame⟩ := hlast.edited
            exact ⟨edit hst ih.2 hlast ih.1, hsame.trans ih.2⟩
        exact hpath.1
    | destroy hop =>
      obtain rfl := eq_of_orErased ho.symm
      exact destroy hop hst hP
    | purge hop hfree =>
      obtain rfl := eq_of_orErased ho.symm
      exact purge hop hP

/-- Every storage lists its obsolete files only, each once. -/
def Listed (fs : BlobFileSet) : Prop :=
  ∀ i st, fs.columnFamilies.lookup i = some st → st.Listed

/-- Every storage lists all its obsolete files. -/
def ListsAll (fs : BlobFileSet) : Prop :=
  ∀ i st, fs.columnFamilies.lookup i = some st → st.ListsAll

theorem Listed.act (h : fs.Listed) (hstep : fs.act C op = some fs') : fs'.Listed :=
  each_act (P := fun _ st => st.Listed) (fun _ _ happlied hst => hst.applied happlied)
    (fun _ _ hst => ⟨hst.nodup, hst.obsolete⟩) (fun _ hst => hst.getObsoleteFiles _) h hstep

end BlobFileSet

-- ==== obsolete sequences

namespace BlobFileSet

/-- The file is in a storage and obsolete. -/
def obsolete (fs : BlobFileSet) (i : UInt32) (n : UInt64) : Bool :=
  (fs.file i n).any (·.isObsolete)

end BlobFileSet

/-- The obsolete sequence an operation is passed for a file. -/
def FileSetOp.obsoleteSequence (n : UInt64) : FileSetOp → Option SequenceNumber
  | .logAndApply edit _ => edit.deletedFiles.lookup n
  | .dropColumnFamilies _ s => some s
  | .deleteBlobFilesInRanges _ _ _ s _ => some s
  | .maybeDestroyColumnFamily _ => none
  | .getObsoleteFiles _ => none

namespace BlobFileSet

/-- For each file that an operation makes obsolete, record the sequence
the operation was passed. -/
def record (C : Coding) (fs : BlobFileSet) (op : FileSetOp)
    (passed : UInt32 → UInt64 → Option SequenceNumber) :
    UInt32 → UInt64 → Option SequenceNumber :=
  fun i n =>
    if (fs.act C op).any (·.obsolete i n) && !fs.obsolete i n then
      op.obsoleteSequence n
    else passed i n

/-- The sequences that the operations of a run which made the files
obsolete were passed. -/
def passed (C : Coding) (fs : BlobFileSet) (ops : List FileSetOp) :
    UInt32 → UInt64 → Option SequenceNumber :=
  trace (act C) (record C) fs (fun _ _ => none) ops

/-- A range deletion is passed the sequence 0, or selects no file. -/
def SequencePassedOn (fs : BlobFileSet) : FileSetOp → Prop
  | .deleteBlobFilesInRanges cfId ranges includeEnd s _ =>
    s = 0 ∨ ((fs.columnFamilies.lookup cfId).bind
      (·.getBlobFilesInRanges ranges includeEnd)).getD [] = []
  | _ => True

instance (fs : BlobFileSet) : (op : FileSetOp) → Decidable (fs.SequencePassedOn op)
  | .deleteBlobFilesInRanges .. => inferInstanceAs (Decidable (_ ∨ _))
  | .logAndApply .. => isTrue trivial
  | .dropColumnFamilies .. => isTrue trivial
  | .maybeDestroyColumnFamily _ => isTrue trivial
  | .getObsoleteFiles _ => isTrue trivial

private theorem lookup_of_mem {l : List (UInt64 × SequenceNumber)}
    (hnodup : (l.map Prod.fst).Nodup) (hd : d ∈ l) : l.lookup d.1 = some d.2 := by
  induction l with
  | nil => cases hd
  | cons x l ih =>
    rw [map_cons, nodup_cons] at hnodup
    rcases mem_cons.1 hd with rfl | hd
    · exact lookup_cons_self
    · have hne : d.1 ≠ x.1 := fun he =>
        hnodup.1 (he ▸ mem_map_of_mem hd)
      rw [lookup_cons, beq_eq_false_iff_ne.2 hne]
      exact ih hnodup.2 hd

/-- The sequence of a deletion is the one its operation was passed. -/
theorem Issues.sequence (h : fs.Issues op e) (hcond : fs.SequencePassedOn op)
    (hnodup : e.Nodup) (hd : d ∈ e.deletedFiles) : op.obsoleteSequence d.1 = some d.2 := by
  cases op with
  | logAndApply e' io =>
    subst h
    exact lookup_of_mem hnodup.2 hd
  | dropColumnFamilies cfs s => exact congrArg some (h.2 d hd).symm
  | deleteBlobFilesInRanges j ranges includeEnd s io =>
    obtain ⟨st, files, hst, hfiles, rfl⟩ := h
    rw [rangeEdit_eq] at hd
    obtain ⟨n, hn, rfl⟩ := mem_map.1 hd
    rcases hcond with rfl | hnone
    · rfl
    · rw [hst, bind_some, hfiles, getD_some] at hnone
      rw [hnone] at hn
      cases hn
  | maybeDestroyColumnFamily j => exact h.elim
  | getObsoleteFiles q => exact h.elim

/-- Each listed file is listed with the sequence recorded for it. -/
structure Recorded (fs : BlobFileSet)
    (passed : UInt32 → UInt64 → Option SequenceNumber) : Prop where
  listed : fs.Listed
  sequence : ∀ i st, fs.columnFamilies.lookup i = some st →
    ∀ d ∈ st.obsoleteFiles, passed i d.1 = some d.2

theorem obsolete_of_lookup (h : fs.columnFamilies.lookup i = some st) :
    fs.obsolete i n = st.obsolete n := by
  unfold obsolete file
  rw [h]
  rfl

/-- Nothing is recorded of a file that was obsolete. -/
theorem record_of_obsolete {passed : UInt32 → UInt64 → Option SequenceNumber}
    (h : fs.obsolete i n = true) : record C fs op passed i n = passed i n := by
  unfold record
  rw [h, Bool.not_true, Bool.and_false, if_neg Bool.false_ne_true]

theorem Recorded.act {passed : UInt32 → UInt64 → Option SequenceNumber}
    (h : fs.Recorded passed) (hcond : fs.SequencePassedOn op) (hstep : fs.act C op = some fs') :
    fs'.Recorded (record C fs op passed) := by
  have hlisted := h.listed.act hstep
  refine ⟨hlisted, fun i st' hst' d hd => ?_⟩
  -- a file listed before was obsolete, so its record stands
  have hkept : ∀ st, fs.columnFamilies.lookup i = some st →
      d ∈ st.obsoleteFiles → record C fs op passed i d.1 = some d.2 := by
    intro st hst hd
    rw [record_of_obsolete, h.sequence i st hst d hd]
    rw [obsolete_of_lookup hst]
    exact (h.listed i st hst).obsolete _ (mem_map_of_mem hd)
  have heffect := effect hstep i
  rw [hst'] at heffect
  generalize ho : some st' = o' at heffect
  cases hst : fs.columnFamilies.lookup i with
  | none =>
    rw [hst] at heffect
    cases heffect with
    | edits hedits => cases hedits; cases ho
  | some st =>
    rw [hst] at heffect
    cases heffect with
    | edits hedits =>
      cases hedits with
      | some hpath =>
        cases ho
        rcases BlobStorage.mem_obsoleteFiles_of_edits hpath hd
          with hd | ⟨hlive, e, he, hnodup, hdeleted⟩
        · exact hkept st hst hd
        · have hobs : fs'.obsolete i d.1 = true := by
            rw [obsolete_of_lookup hst']
            exact (hlisted i st' hst').obsolete _ (mem_map_of_mem hd)
          unfold record
          rw [hstep, any_some, hobs, obsolete_of_lookup hst,
            hlive, Bool.not_false, Bool.and_true, if_pos rfl]
          exact he.2.sequence hcond hnodup hdeleted
    | destroy hop =>
      obtain rfl := eq_of_orErased ho.symm
      exact hkept st hst hd
    | purge hop hfree =>
      obtain rfl := eq_of_orErased ho.symm
      exact hkept st hst (BlobStorage.mem_obsoleteFiles_getObsoleteFiles.1 hd).1

/-- **Obsolete sequences are honoured.** From a file set that lists no
obsolete file, in every run whose range deletions are passed 0 or select
no file, `GetObsoleteFiles` hands out a file only above the sequence that
the operation which made the file obsolete was passed. -/
theorem obsoleteSequence_honoured {fs₀ : BlobFileSet} {ops : List FileSetOp}
    (hstart : ∀ i st, fs₀.columnFamilies.lookup i = some st → st.obsoleteFiles = [])
    (hmeets : Meets (act C) SequencePassedOn fs₀ ops) (hexec : exec (act C) fs₀ ops = some fs)
    (hn : (i, n) ∈ fs.handedOut q) : ∃ s, passed C fs₀ ops i n = some s ∧ s < q := by
  have hrecorded : fs₀.Recorded fun _ _ => none := by
    refine ⟨fun i st hst => ⟨?_, fun n hn => ?_⟩, fun i st hst d hd => ?_⟩
    · rw [hstart i st hst]
      exact nodup_nil
    · rw [hstart i st hst] at hn
      cases hn
    · rw [hstart i st hst] at hd
      cases hd
  have hrun := exec_invariant (f := record C) (I := Recorded) Recorded.act hrecorded hmeets hexec
  obtain ⟨-, st, hst, s, hs, hlt⟩ := mem_handedOut.1 hn
  exact ⟨s, hrun.sequence i st hst (n, s) hs, hlt⟩

end BlobFileSet

theorem lookup_opened (h : opened.columnFamilies.lookup i = some st) :
    st = { dbOptions := {}, cfOptions := {} } := by
  obtain ⟨-, rfl⟩ := Prod.ext_iff.1 (mem_singleton.1 (mem_entries_iff.2 h))
  rfl

theorem listed_opened : opened.Listed := by
  intro i st hst
  rw [lookup_opened hst]
  exact ⟨nodup_nil, fun _ hn => nomatch hn⟩

/-- Two files. -/
def addTwo : FileSetOp :=
  .logAndApply { addedFiles := [{ fileNumber := 1 }, { fileNumber := 2 }] } .ok

/-- One is deleted with the sequence 5, the other by a range deletion
that is passed 0. -/
def deleteBoth : List FileSetOp :=
  [addTwo, .logAndApply { deletedFiles := [(1, 5)] } .ok,
    .deleteBlobFilesInRanges 0 [⟨none, none⟩] false 0 .ok]

theorem deleteBoth_honoured :
    ∃ fs s, exec (BlobFileSet.act base128) opened deleteBoth = some fs
      ∧ fs.handedOut 5 = [(0, 2)] ∧ (0, 1) ∈ fs.handedOut 6
      ∧ BlobFileSet.passed base128 opened deleteBoth 0 1 = some s ∧ s < 6 := by
  obtain ⟨fs, hexec, hfive, hsix⟩ :
      ∃ fs ∈ exec (act base128) opened deleteBoth,
        fs.handedOut 5 = [(0, 2)] ∧ (0, 1) ∈ fs.handedOut 6 := by
    decide +kernel
  have hempty : ∀ i st, opened.columnFamilies.lookup i = some st → st.obsoleteFiles = [] := by
    intro i st hst
    rw [lookup_opened hst]
  obtain ⟨s, hs⟩ := obsoleteSequence_honoured hempty (by decide +kernel) hexec hsix
  exact ⟨fs, s, hexec, hfive, hsix, hs⟩

/-- A range deletion is passed the sequence 5. -/
def rangeDelete : List FileSetOp :=
  [addTwo, .deleteBlobFilesInRanges 0 [⟨none, none⟩] false 5 .ok]

/-- The files are handed out already above 0. -/
theorem rangeDelete_handedOut :
    ∃ fs, exec (BlobFileSet.act base128) opened rangeDelete = some fs
      ∧ BlobFileSet.passed base128 opened rangeDelete 0 1 = some 5 ∧ (0, 1) ∈ fs.handedOut 1 := by
  show ∃ fs ∈ exec (act base128) opened rangeDelete, _
  decide +kernel

end DiffKV
