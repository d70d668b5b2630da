/-
What becomes of the blob files of a column family that is dropped and
destroyed.

Three facts about whole runs:

1. From its drop to its destroy a column family is in
   `obsoleteColumns`, and `GetObsoleteFiles` passes it over.
2. An obsolete file stays obsolete until it is handed out: a storage is
   only erased when its list of obsolete files is empty, and that list
   has them all. So after the destroy a purge that reaches every listed
   sequence hands out all of them.
3. A purge hands out a file that is in a storage, once, and takes it out
   of the storage. So no file is handed out more often than it was put
   there.

A storage that is erased has no obsolete file left. It may have live
ones: that it has none is what the last part adds a condition for.
-/
import DiffKV.Proofs.Retirement
import Mathlib.Data.List.Perm.Subperm

namespace DiffKV

open Lib Relation List BlobStorage Table Option BlobFileSet

variable {n : UInt64} {op : FileSetOp} {i : UInt32} {fs fs' : BlobFileSet}
  {C : Coding} {ops : List FileSetOp} {e : VersionEdit}

-- ==== statements

/-- The files an operation adds are not obsolete. -/
def FileSetOp.New : FileSetOp → Prop
  | .logAndApply edit _ => edit.New
  | _ => True

instance : (op : FileSetOp) → Decidable op.New
  | .logAndApply edit _ => inferInstanceAs (Decidable edit.New)
  | .dropColumnFamilies .. => isTrue trivial
  | .maybeDestroyColumnFamily _ => isTrue trivial
  | .deleteBlobFilesInRanges .. => isTrue trivial
  | .getObsoleteFiles _ => isTrue trivial

namespace BlobFileSet

/-- The column families a call of `DropColumnFamilies` drops: those
before the first round that fails. -/
def dropped (C : Coding) (s : SequenceNumber) :
    BlobFileSet → List (UInt32 × ManifestIO) → List UInt32
  | _, [] => []
  | fs, cf :: cfs =>
    if (dropColumnFamily C s fs cf).1.isOk then
      cf.1 :: dropped C s (dropColumnFamily C s fs cf).2 cfs
    else []

/-- All files, with their column families. -/
def allFiles (fs : BlobFileSet) : List (UInt32 × UInt64) :=
  fs.columnFamilies.entries.flatMap fun cf =>
    cf.2.files.entries.map fun m => (cf.1, m.fileNumber)

/-- The files an operation hands out for deletion. -/
def handsOut (fs : BlobFileSet) : FileSetOp → List (UInt32 × UInt64)
  | .getObsoleteFiles oldestSequence => fs.handedOut oldestSequence
  | _ => []

/-- The files an operation puts into a storage. -/
def installs (C : Coding) (fs : BlobFileSet) : FileSetOp → List (UInt32 × UInt64)
  | .logAndApply edit io =>
    (edit.addedFiles.map fun m =>
      (edit.columnFamilyId, m.fileNumber)).filter fun x =>
        (fs.file x.1 x.2).isNone && ((fs.logAndApply C edit io).2.file x.1 x.2).isSome
  | _ => []

/-- The files a run hands out. -/
def returned (C : Coding) : BlobFileSet → List FileSetOp → List (UInt32 × UInt64) :=
  outputs (act C) handsOut

/-- The files a run puts into storages. -/
def installed (C : Coding) : BlobFileSet → List FileSetOp → List (UInt32 × UInt64) :=
  outputs (act C) (installs C)

-- ==== dropped families

variable {q : SequenceNumber} (t : Table (id : UInt32 → UInt32))

theorem contains_emplace_column (j i : UInt32) :
    (t.emplace j).contains i = (decide (j = i) || t.contains i) := by
  unfold Table.contains
  rw [find_emplace]
  by_cases hj : j = i
  · subst hj
    cases t.find j <;> simp
  · simp [hj]

/-- A round adds its column family if it succeeds. -/
theorem obsoleteColumns_dropColumnFamily (fs : BlobFileSet)
    (s : SequenceNumber) (cf : UInt32 × ManifestIO) (i : UInt32) :
    (dropColumnFamily C s fs cf).2.obsoleteColumns.contains i
      = ((dropColumnFamily C s fs cf).1.isOk && decide (cf.1 = i)
        || fs.obsoleteColumns.contains i) := by
  unfold dropColumnFamily
  cases hst : fs.columnFamilies.lookup cf.1 with
  | none => simp [Status.isOk]
  | some st =>
    dsimp only
    cases hok : (fs.logAndApply C (dropEdit (cf.1, st) s) cf.2).1.isOk with
    | true =>
      simp only [if_true]
      rw [contains_emplace_column, obsoleteColumns_logAndApply, hok, Bool.true_and]
    | false =>
      simp only [Bool.false_eq_true, if_false]
      rw [hok, obsoleteColumns_logAndApply, Bool.false_and, Bool.false_or]

theorem obsoleteColumns_dropColumnFamilies (fs : BlobFileSet)
    (cfs : List (UInt32 × ManifestIO)) (s : SequenceNumber) (i : UInt32) :
    (fs.dropColumnFamilies C cfs s).2.obsoleteColumns.contains i
      = (decide (i ∈ fs.dropped C s cfs) || fs.obsoleteColumns.contains i) := by
  unfold dropColumnFamilies
  induction cfs generalizing fs with
  | nil => simp [dropped]
  | cons cf cfs ih =>
    have hround := obsoleteColumns_dropColumnFamily (C := C) fs s cf i
    rw [Status.forEach_cons]
    unfold dropped
    cases hok : (dropColumnFamily C s fs cf).1.isOk with
    | true =>
      rw [hok] at hround
      rw [if_pos rfl, if_pos rfl, ih, hround]
      by_cases hi : cf.1 = i
      · simp [hi]
      · simp [hi, Ne.symm hi]
    | false =>
      rw [hok] at hround
      rw [if_neg Bool.false_ne_true, if_neg Bool.false_ne_true, hround]
      simp

theorem contains_erase_column (j i : UInt32) :
    (t.erase j).contains i = (decide (i ≠ j) && t.contains i) := by
  unfold Table.contains
  rw [find_erase]
  by_cases hi : i = j <;> simp [hi]

theorem obsoleteColumns_maybeDestroyColumnFamily (fs : BlobFileSet) (j : UInt32) :
    (fs.maybeDestroyColumnFamily j).2.obsoleteColumns = fs.obsoleteColumns.erase j := by
  unfold maybeDestroyColumnFamily
  dsimp only
  cases fs.columnFamilies.lookup j <;> rfl

/-- The column family is held back after the operation. -/
def held (C : Coding) (fs : BlobFileSet) (i : UInt32) : FileSetOp → Bool
  | .dropColumnFamilies cfs s =>
    decide (i ∈ fs.dropped C s cfs) || fs.obsoleteColumns.contains i
  | .maybeDestroyColumnFamily j =>
    decide (i ≠ j) && fs.obsoleteColumns.contains i
  | _ => fs.obsoleteColumns.contains i

theorem obsoleteColumns_act (hstep : fs.act C op = some fs') (i : UInt32) :
    fs'.obsoleteColumns.contains i = fs.held C i op := by
  unfold held
  cases op with
  | logAndApply e io =>
    cases hstep
    rw [obsoleteColumns_logAndApply]
  | dropColumnFamilies cfs s =>
    cases hstep
    exact obsoleteColumns_dropColumnFamilies fs cfs s i
  | maybeDestroyColumnFamily j =>
    cases hstep
    rw [obsoleteColumns_maybeDestroyColumnFamily]
    exact contains_erase_column ..
  | deleteBlobFilesInRanges j ranges includeEnd s io =>
    rcases act_deleteBlobFilesInRanges hstep with rfl | ⟨_, _, -, -, rfl⟩
    · rfl
    · rw [obsoleteColumns_logAndApply]
  | getObsoleteFiles q =>
    cases hstep
    rw [obsoleteColumns_getObsoleteFiles]

/-- A column family is held back until it is destroyed. -/
theorem held_until_destroy (h : fs.obsoleteColumns.contains i = true)
    (hno : .maybeDestroyColumnFamily i ∉ ops) (hexec : exec (act C) fs ops = some fs') :
    fs'.obsoleteColumns.contains i = true := by
  have hmeets : Meets (act C) (fun _ op => op ≠ .maybeDestroyColumnFamily i) fs ops :=
    meets_of_forall (p := (· ≠ FileSetOp.maybeDestroyColumnFamily i))
      (fun op hop heq => hno (heq ▸ hop)) fs
  refine exec_keeps (I := fun fs => fs.obsoleteColumns.contains i = true) ?_ h hmeets hexec
  intro fs op fs' h hne hstep
  rw [obsoleteColumns_act hstep]
  unfold held
  cases op with
  | maybeDestroyColumnFamily j =>
    have hij : i ≠ j := fun hij => hne (hij ▸ rfl)
    simp [hij, h]
  | dropColumnFamilies cfs s => simp [h]
  | _ => exact h

/-- A column family that is not held back stays so until it is
dropped. -/
theorem free_until_drop (h : fs.obsoleteColumns.contains i = false)
    (hno : ∀ cfs s, .dropColumnFamilies cfs s ∈ ops → i ∉ cfs.map Prod.fst)
    (hexec : exec (act C) fs ops = some fs') : fs'.obsoleteColumns.contains i = false := by
  have hsub : ∀ (cfs : List (UInt32 × ManifestIO)) (s) (fs : BlobFileSet),
      i ∈ fs.dropped C s cfs → i ∈ cfs.map Prod.fst := by
    intro cfs s
    induction cfs with
    | nil => exact fun _ hi => hi
    | cons cf cfs ih =>
      intro fs hi
      unfold dropped at hi
      split at hi
      · rcases mem_cons.1 hi with rfl | hi
        · exact mem_cons_self
        · exact mem_cons_of_mem _ (ih _ hi)
      · cases hi
  have hmeets : Meets (act C) (fun _ op => ∀ cfs s,
      op = .dropColumnFamilies cfs s → i ∉ cfs.map Prod.fst) fs ops :=
    meets_of_forall (p := fun op => ∀ cfs s,
      op = FileSetOp.dropColumnFamilies cfs s → i ∉ cfs.map Prod.fst)
      (fun op hop cfs s heq => hno cfs s (heq ▸ hop)) fs
  refine exec_keeps (I := fun fs => fs.obsoleteColumns.contains i = false) ?_ h hmeets hexec
  intro fs op fs' h hne hstep
  rw [obsoleteColumns_act hstep]
  unfold held
  cases op with
  | dropColumnFamilies cfs s =>
    have hi : i ∉ fs.dropped C s cfs := fun hi =>
      hne cfs s rfl (hsub cfs s fs hi)
    simp [hi, h]
  | maybeDestroyColumnFamily j => simp [h]
  | _ => exact h

-- ==== obsolete files

/-- Only `LogAndApply` is given edits that add files. -/
theorem Issues.addedFiles (h : fs.Issues op e) :
    e.addedFiles = [] ∨ ∃ io, op = .logAndApply e io := by
  cases op with
  | logAndApply e' io =>
    obtain rfl := h
    exact .inr ⟨io, rfl⟩
  | dropColumnFamilies cfs s => exact .inl h.1
  | deleteBlobFilesInRanges j ranges includeEnd s io =>
    obtain ⟨_, files, -, -, rfl⟩ := h
    rw [rangeEdit_eq]
    exact .inl rfl
  | maybeDestroyColumnFamily j => exact h.elim
  | getObsoleteFiles q => exact h.elim

/-- Every edit that a new operation issues is new. -/
theorem Issues.new (h : fs.Issues op e) (hnew : op.New) : e.New := by
  rcases h.addedFiles with hadded | ⟨io, rfl⟩
  · intro m hm
    rw [hadded] at hm
    cases hm
  · exact hnew

theorem ListsAll.act (h : fs.ListsAll) (hnew : op.New)
    (hstep : fs.act C op = some fs') : fs'.ListsAll :=
  each_act (P := fun _ st => st.ListsAll)
    (fun _ _ happlied hst => hst.applied happlied fun _ he => he.2.new hnew)
    (fun _ _ hst => hst) (fun _ hst => hst.getObsoleteFiles _) h hstep

theorem obsolete_iff : fs.obsolete i n = true ↔ ∃ st,
    fs.columnFamilies.lookup i = some st ∧ st.obsolete n = true := by
  cases hst : fs.columnFamilies.lookup i with
  | none => simp [obsolete, file, hst]
  | some st => simp [obsolete_of_lookup hst]

/-- A storage that is erased has no obsolete file. -/
theorem obsolete_of_orErased {st : BlobStorage} (h : st.ListsAll)
    (hn : st.obsolete n = true) : orErased st = some st := by
  refine if_neg fun hremove => ?_
  unfold maybeRemove at hremove
  rw [Bool.and_eq_true, List.isEmpty_iff] at hremove
  have hmem := h n hn
  rw [hremove.2] at hmem
  cases hmem

/-- An obsolete file stays obsolete unless it is handed out. -/
theorem obsolete_act (h : fs.ListsAll) (hn : fs.obsolete i n = true)
    (hstep : fs.act C op = some fs') : (i, n) ∈ fs.handsOut op ∨ fs'.obsolete i n = true := by
  obtain ⟨st, hst, hobs⟩ := obsolete_iff.1 hn
  have heffect := effect hstep i
  rw [hst] at heffect
  generalize ho : fs'.columnFamilies.lookup i = o' at heffect
  cases heffect with
  | edits hedits =>
    cases hedits with
    | some hpath =>
      refine .inr (obsolete_iff.2 ⟨_, ho, ?_⟩)
      clear hst ho
      induction hpath with
      | refl => exact hobs
      | tail _ hlast ih =>
        obtain ⟨e, -, -, hedited, -⟩ := hlast.edited
        exact hedited.obsolete_mono ih
  | destroy hop =>
    have hall : st.markDestroyed.ListsAll := h i st hst
    rw [obsolete_of_orErased hall hobs] at ho
    exact .inr (obsolete_iff.2 ⟨_, ho, hobs⟩)
  | @purge _ q hop hfree =>
    subst hop
    by_cases hremoved : n ∈ (st.getObsoleteFiles q).1
    · exact .inl (mem_handedOut.2 ⟨hfree, st, hst, mem_getObsoleteFiles hremoved⟩)
    · have hkept : (st.getObsoleteFiles q).2.obsolete n = true :=
        (obsolete_getObsoleteFiles st q n).2 ⟨hremoved, hobs⟩
      rw [obsolete_of_orErased ((h i st hst).getObsoleteFiles q) hkept] at ho
      exact .inr (obsolete_iff.2 ⟨_, ho, hkept⟩)

theorem ListsAll.exec (h : fs.ListsAll) (hnew : ∀ op ∈ ops, op.New)
    (hexec : Lib.exec (BlobFileSet.act C) fs ops = some fs') :
    fs'.ListsAll :=
  exec_keeps (fun hall hnew hstep => ListsAll.act hall hnew hstep) h
    (meets_of_forall (p := FileSetOp.New) hnew fs) hexec

/-- Along a run. -/
theorem obsolete_exec (h : fs.ListsAll) (hnew : ∀ op ∈ ops, op.New)
    (hn : fs.obsolete i n = true) (hexec : exec (act C) fs ops = some fs') :
    (i, n) ∈ returned C fs ops ∨ fs'.obsolete i n = true := by
  induction ops generalizing fs with
  | nil =>
    cases hexec
    exact .inr hn
  | cons op ops ih =>
    obtain ⟨fs₁, hstep, hrest⟩ := exec_cons_iff.1 hexec
    unfold returned
    rw [outputs_cons hstep]
    rcases obsolete_act h hn hstep with hout | hn
    · exact .inl (mem_append_left _ hout)
    · refine (ih (h.act (hnew op mem_cons_self) hstep)
        (fun op hop => hnew op (mem_cons_of_mem _ hop)) hn hrest).imp_left ?_
      exact fun hout => mem_append_right _ hout

/-- A purge that reaches every listed sequence hands out every obsolete
file of a column family that is not held back. -/
theorem mem_handedOut_of_obsolete (h : fs.ListsAll) (hn : fs.obsolete i n = true)
    (hfree : fs.obsoleteColumns.contains i = false)
    (hreach : ∀ st, fs.columnFamilies.lookup i = some st →
      ∀ d ∈ st.obsoleteFiles, d.2 < q) : (i, n) ∈ fs.handedOut q := by
  obtain ⟨st, hst, hobs⟩ := obsolete_iff.1 hn
  obtain ⟨d, hd, rfl⟩ := mem_map.1 (h i st hst n hobs)
  exact mem_handedOut.2 ⟨hfree, st, hst, d.2, hd, hreach st hst d hd⟩

-- ==== each file once

/-- The number of times a file is in the storages. -/
def present (fs : BlobFileSet) (x : UInt32 × UInt64) : Nat :=
  if (fs.file x.1 x.2).isSome then 1 else 0

theorem nodup_allFiles (fs : BlobFileSet) : fs.allFiles.Nodup := by
  unfold allFiles
  rw [nodup_flatMap]
  refine ⟨fun cf _ => ?_, ?_⟩
  · refine List.Nodup.of_map Prod.snd ?_
    rw [List.map_map]
    exact cf.2.files.nodup
  · refine (pairwise_map.1 fs.columnFamilies.nodup).imp ?_
    intro cf cf' hne x hx hx'
    obtain ⟨m, -, rfl⟩ := mem_map.1 hx
    obtain ⟨m', -, heq⟩ := mem_map.1 hx'
    exact hne (congrArg Prod.fst heq).symm

theorem count_allFiles (fs : BlobFileSet) (x : UInt32 × UInt64) :
    fs.allFiles.count x = fs.present x := by
  obtain ⟨i, n⟩ := x
  have hmem : (i, n) ∈ fs.allFiles ↔ (fs.file i n).isSome = true := by
    unfold allFiles file
    rw [mem_flatMap]
    constructor
    · rintro ⟨⟨j, st⟩, hst, hmem⟩
      obtain ⟨m, hm, heq⟩ := mem_map.1 hmem
      obtain ⟨rfl, rfl⟩ := Prod.ext_iff.1 heq
      rw [mem_entries_iff.1 hst]
      show (st.files.find m.fileNumber).isSome = true
      rw [find_of_mem hm]
      rfl
    · intro hsome
      obtain ⟨m, hm⟩ := isSome_iff_exists.1 hsome
      obtain ⟨st, hst, hfind⟩ := bind_eq_some_iff.1 hm
      refine ⟨(i, st), mem_entries_iff.2 hst, mem_map.2 ⟨m, mem_of_find hfind, ?_⟩⟩
      have hkey : m.fileNumber = n := key_of_find hfind
      rw [hkey]
  rw [fs.nodup_allFiles.count]
  exact if_congr hmem rfl rfl

theorem nodup_handedOut (h : fs.Listed) (q : SequenceNumber) : (fs.handedOut q).Nodup := by
  unfold handedOut
  rw [nodup_flatMap]
  refine ⟨fun cf hcf => ?_, ?_⟩
  · split
    · exact nodup_nil
    · refine List.Nodup.of_map Prod.snd ?_
      rw [List.map_map]
      refine (map_id _).symm ▸ ?_
      exact (h cf.1 cf.2 (mem_entries_iff.1 hcf)).nodup.sublist (filter_sublist.map _)
  · refine (pairwise_map.1 fs.columnFamilies.nodup).imp ?_
    intro cf cf' hne x hx hx'
    dsimp only at hx hx'
    split at hx
    · cases hx
    · split at hx'
      · cases hx'
      · obtain ⟨m, -, rfl⟩ := mem_map.1 hx
        obtain ⟨m', -, heq⟩ := mem_map.1 hx'
        exact hne (congrArg Prod.fst heq).symm

/-- A file that is there after an operation was there, or the operation
put it there. -/
theorem isSome_file_act (hn : (fs'.file i n).isSome = true) (hstep : fs.act C op = some fs') :
    (fs.file i n).isSome = true ∨ (i, n) ∈ fs.installs C op := by
  by_cases hbefore : (fs.file i n).isSome = true
  · exact .inl hbefore
  obtain ⟨m, hm⟩ := isSome_iff_exists.1 hn
  obtain ⟨st', hst', hfind'⟩ := bind_eq_some_iff.1 hm
  have heffect := effect hstep i
  rw [hst'] at heffect
  generalize ho' : some st' = o' at heffect
  cases hst : fs.columnFamilies.lookup i with
  | none =>
    rw [hst] at heffect
    cases heffect with
    | edits hedits => cases hedits; cases ho'
  | some st =>
    have hnone : st.findFile n = none := by
      rw [file_of_lookup hst] at hbefore
      simpa using hbefore
    rw [hst] at heffect
    cases heffect with
    | edits hedits =>
      cases hedits with
      | some hpath =>
        cases ho'
        have hadded : ∃ e, (e.columnFamilyId = i ∧ fs.Issues op e)
            ∧ n ∈ e.addedFiles.map (·.fileNumber) := by
          have hsome : (st'.findFile n).isSome = true := by
            rw [hfind']
            rfl
          clear hst' hst hm hfind'
          induction hpath with
          | refl =>
            rw [hnone] at hsome
            cases hsome
          | tail _ hlast ih =>
            obtain ⟨e, he, -, hedited, -⟩ := hlast.edited
            rcases hedited.isSome_of_isSome hsome with hsome | hmem
            · exact ih hsome
            · exact ⟨e, he, hmem⟩
        obtain ⟨e, ⟨rfl, hissued⟩, hmem⟩ := hadded
        obtain ⟨m', hm', rfl⟩ := mem_map.1 hmem
        rcases hissued.addedFiles with hadded | ⟨io, rfl⟩
        · rw [hadded] at hm'
          cases hm'
        · cases hstep
          refine .inr (mem_filter.2 ⟨mem_map.2 ⟨m', hm', rfl⟩, ?_⟩)
          rw [hn, Bool.and_true]
          simpa using hbefore
    | destroy hop =>
      obtain rfl := eq_of_orErased ho'.symm
      have hfind' : st.findFile n = some m := hfind'
      rw [hnone] at hfind'
      cases hfind'
    | purge hop hfree =>
      obtain rfl := eq_of_orErased ho'.symm
      rw [findFile_getObsoleteFiles, hnone] at hfind'
      simp at hfind'

/-- A file that is handed out was there, and is not there any more. -/
theorem file_of_handedOut (h : fs.Listed) (hn : (i, n) ∈ fs.handedOut q) :
    (fs.file i n).isSome = true ∧ (fs.getObsoleteFiles q).2.2.file i n = none := by
  obtain ⟨hfree, st, hst, s, hs, hlt⟩ := mem_handedOut.1 hn
  have hobs := (h i st hst).obsolete n (mem_map.2 ⟨(n, s), hs, rfl⟩)
  refine ⟨?_, ?_⟩
  · unfold file
    rw [hst]
    show (st.findFile n).isSome = true
    unfold BlobStorage.obsolete at hobs
    cases hf : st.findFile n with
    | none =>
      rw [hf] at hobs
      cases hobs
    | some m => rfl
  · have hremoved : (st.getObsoleteFiles q).2.findFile n = none := by
      rw [BlobStorage.findFile_getObsoleteFiles]
      refine if_pos (mem_map.2 ⟨(n, s), mem_filter.2 ⟨hs, ?_⟩, rfl⟩)
      simpa using hlt
    unfold file
    rw [lookup_getObsoleteFiles, hfree, if_neg Bool.false_ne_true, hst]
    unfold orErased
    dsimp only [bind_some]
    split
    · rfl
    · exact hremoved

/-- No operation hands out a file more often than it takes one out of
the storages. -/
theorem balance_act (h : fs.Listed) (hstep : fs.act C op = some fs') (x : UInt32 × UInt64) :
    (fs.handsOut op).count x + fs'.present x ≤ (fs.installs C op).count x + fs.present x := by
  obtain ⟨i, n⟩ := x
  have hadded : fs'.present (i, n) ≤ (fs.installs C op).count (i, n) + fs.present (i, n) := by
    unfold present
    by_cases hn : (fs'.file i n).isSome = true
    · rw [if_pos hn]
      rcases isSome_file_act hn hstep with hbefore | hmem
      · rw [if_pos hbefore]
        omega
      · have hpos := count_pos_iff.2 hmem
        omega
    · rw [if_neg hn]
      omega
  cases op with
  | getObsoleteFiles q =>
    by_cases hmem : (i, n) ∈ fs.handedOut q
    · cases hstep
      obtain ⟨hbefore, hafter⟩ := file_of_handedOut h hmem
      have hone := (nodup_handedOut h q).count (a := (i, n))
      rw [if_pos hmem] at hone
      have hfs : fs.present (i, n) = 1 := if_pos hbefore
      have hfs' : (fs.getObsoleteFiles q).2.2.present (i, n) = 0 := by
        unfold present
        rw [hafter]
        rfl
      rw [hfs, hfs']
      show (fs.handedOut q).count (i, n) + 0 ≤ _
      omega
    · have hzero : (fs.handedOut q).count (i, n) = 0 := count_eq_zero.2 hmem
      show (fs.handedOut q).count (i, n) + _ ≤ _
      omega
  | logAndApply e io => simpa [handsOut] using hadded
  | dropColumnFamilies cfs s => simpa [handsOut] using hadded
  | maybeDestroyColumnFamily j => simpa [handsOut] using hadded
  | deleteBlobFilesInRanges j ranges includeEnd s io =>
    simpa [handsOut] using hadded

theorem balance_exec (h : fs.Listed)
    (hexec : exec (act C) fs ops = some fs') (x : UInt32 × UInt64) :
    (returned C fs ops).count x + fs'.present x ≤ (installed C fs ops).count x + fs.present x := by
  induction ops generalizing fs with
  | nil =>
    cases hexec
    exact Nat.le_refl _
  | cons op ops ih =>
    obtain ⟨fs₁, hstep, hrest⟩ := exec_cons_iff.1 hexec
    have hone := balance_act h hstep x
    have hall := ih (h.act hstep) hrest
    unfold returned installed at hall ⊢
    rw [outputs_cons hstep, outputs_cons hstep, count_append, count_append]
    omega

-- ==== the result

/-- **Dropped column families are held back until they are destroyed.**
In every run:

- no file of a column family is handed out between its drop and its
  destroy;
- after the destroy, if the column family is not dropped again, every
  file of it that was obsolete then or is now has been handed out since
  or is handed out by a purge that reaches every listed sequence;
- the files handed out are different ones of those that were in the
  storages at the start or were put there since; so, if their numbers are
  all different, no number is handed out twice. -/
theorem dropped_held_back {fs₀ fs : BlobFileSet} {ops : List FileSetOp}
    (hlisted : fs₀.Listed) (hall : fs₀.ListsAll)
    (hnew : ∀ op ∈ ops, op.New) (hexec : exec (act C) fs₀ ops = some fs) :
    (∀ before cfs s after fs₁, ∀ i ∈ fs₁.dropped C s cfs,
        ops = before ++ .dropColumnFamilies cfs s :: after → exec (act C) fs₀ before = some fs₁ →
        .maybeDestroyColumnFamily i ∉ after → ∀ q n, (i, n) ∉ fs.handedOut q)
      ∧ (∀ before i after fs₁ n, ops = before ++ .maybeDestroyColumnFamily i :: after →
        exec (act C) fs₀ before = some fs₁ →
        (∀ cfs s, .dropColumnFamilies cfs s ∈ after → i ∉ cfs.map Prod.fst) →
        fs₁.obsolete i n = true ∨ fs.obsolete i n = true →
        ∀ q, (∀ st, fs.columnFamilies.lookup i = some st → ∀ d ∈ st.obsoleteFiles, d.2 < q) →
        (i, n) ∈ returned C fs₁ (.maybeDestroyColumnFamily i :: after) ∨ (i, n) ∈ fs.handedOut q)
      ∧ (returned C fs₀ ops).Subperm (fs₀.allFiles ++ installed C fs₀ ops)
      ∧ (((fs₀.allFiles ++ installed C fs₀ ops).map Prod.snd).Nodup →
        ((returned C fs₀ ops).map Prod.snd).Nodup) := by
  have hsubperm : (returned C fs₀ ops).Subperm (fs₀.allFiles ++ installed C fs₀ ops) := by
    rw [subperm_ext_iff]
    intro x _
    have hbalance := balance_exec hlisted hexec x
    rw [count_append, count_allFiles]
    omega
  refine ⟨?_, ?_, hsubperm, ?_⟩
  · intro before cfs s after fs₁ i hdrop hops hbefore hno q n hmem
    subst hops
    obtain ⟨fs₁', hbefore', hrest⟩ := exec_append_iff.1 hexec
    obtain rfl : fs₁ = fs₁' := some.inj (hbefore.symm.trans hbefore')
    obtain ⟨fs₂, hstep, hafter⟩ := exec_cons_iff.1 hrest
    have hheld : fs₂.obsoleteColumns.contains i = true := by
      rw [obsoleteColumns_act hstep]
      simp [held, hdrop]
    have hfree := (mem_handedOut.1 hmem).1
    rw [held_until_destroy hheld hno hafter] at hfree
    cases hfree
  · intro before i after fs₁ n hops hbefore hno hobs q hreach
    subst hops
    obtain ⟨fs₁', hbefore', hrest⟩ := exec_append_iff.1 hexec
    obtain rfl : fs₁ = fs₁' := some.inj (hbefore.symm.trans hbefore')
    have hall₁ := hall.exec (fun op hop => hnew op (mem_append_left _ hop)) hbefore
    have hnew₁ : ∀ op ∈ .maybeDestroyColumnFamily i :: after, op.New :=
      fun op hop => hnew op (mem_append_right _ hop)
    have hfinal : (i, n) ∈ returned C fs₁ (.maybeDestroyColumnFamily i :: after)
        ∨ fs.obsolete i n = true := by
      rcases hobs with hobs | hobs
      · exact obsolete_exec hall₁ hnew₁ hobs hrest
      · exact .inr hobs
    refine hfinal.imp_right fun hobs => ?_
    obtain ⟨fs₂, hstep, hafter⟩ := exec_cons_iff.1 hrest
    have hfree : fs₂.obsoleteColumns.contains i = false := by
      rw [obsoleteColumns_act hstep]
      simp [held]
    exact mem_handedOut_of_obsolete (hall₁.exec hnew₁ hrest) hobs
      (free_until_drop hfree hno hafter) hreach
  · intro hnodup
    obtain ⟨l, hperm, hsub⟩ := hsubperm
    rw [← (hperm.map Prod.snd).nodup_iff]
    exact hnodup.sublist (hsub.map Prod.snd)

end BlobFileSet

theorem listsAll_opened : opened.ListsAll := by
  intro i st hst n hn
  rw [lookup_opened hst] at hn
  cases hn

/-- A column family with two files is dropped, and a purge comes before
the destroy. -/
def dropPurge : List FileSetOp :=
  [addTwo, .dropColumnFamilies [(0, .ok)] 3, .getObsoleteFiles 10]

/-- The purge before the destroy hands out nothing, one after it
everything. -/
theorem dropPurge_held_back :
    ∃ fs, exec (BlobFileSet.act base128) opened
        (dropPurge ++ [.maybeDestroyColumnFamily 0]) = some fs
      ∧ BlobFileSet.returned base128 opened (dropPurge ++ [.maybeDestroyColumnFamily 0]) = []
      ∧ (0, 1) ∈ fs.handedOut 10 := by
  obtain ⟨fs₁, hbefore, hobs, fs, hstep, hsequences⟩ :
      ∃ fs₁ ∈ exec (act base128) opened dropPurge, fs₁.obsolete 0 1 = true
        ∧ ∃ fs ∈ fs₁.act base128 (.maybeDestroyColumnFamily 0),
          ∀ d ∈ fs.obsoleteEntries, d.2 < 10 := by decide +kernel
  have hexec : exec (act base128) opened (dropPurge ++ [.maybeDestroyColumnFamily 0]) = some fs :=
    exec_append_iff.2 ⟨fs₁, hbefore, exec_cons_iff.2 ⟨fs, hstep, rfl⟩⟩
  have hnew : ∀ op ∈ dropPurge ++ [.maybeDestroyColumnFamily 0], op.New := by
    decide +kernel
  have hreach : ∀ st, fs.columnFamilies.lookup 0 = some st →
      ∀ d ∈ st.obsoleteFiles, d.2 < 10 := fun st hst d hd =>
    hsequences d (mem_obsoleteEntries.2 ⟨0, st, hst, hd⟩)
  refine ⟨fs, hexec, by decide +kernel, ?_⟩
  rcases (dropped_held_back listed_opened listsAll_opened hnew
    hexec).2.1 dropPurge 0 [] fs₁ 1 rfl hbefore (fun _ _ h => nomatch h)
    (.inl hobs) 10 hreach with hearly | hlate
  · -- the destroy itself hands out nothing
    cases hearly
  · exact hlate

-- ==== erased storages

namespace BlobFileSet

/-- A column family is destroyed when all its files are obsolete, and
gets no files after that. -/
def DestroysRetired (fs : BlobFileSet) : FileSetOp → Prop
  | .maybeDestroyColumnFamily cfId =>
    (fs.columnFamilies.lookup cfId).all fun st =>
      st.files.entries.all (·.isObsolete)
  | .logAndApply edit _ => edit.addedFiles = []
      ∨ (fs.columnFamilies.lookup edit.columnFamilyId).all (!·.destroyed)
  | _ => True

instance (fs : BlobFileSet) : (op : FileSetOp) → Decidable (fs.DestroysRetired op)
  | .maybeDestroyColumnFamily _ => inferInstanceAs (Decidable (_ = true))
  | .logAndApply .. => inferInstanceAs (Decidable (_ ∨ _))
  | .dropColumnFamilies .. => isTrue trivial
  | .deleteBlobFilesInRanges .. => isTrue trivial
  | .getObsoleteFiles _ => isTrue trivial

end BlobFileSet

/-- Every file of a destroyed column family is obsolete. -/
def BlobStorage.Retired (st : BlobStorage) : Prop :=
  st.destroyed = true → ∀ n, (st.findFile n).isSome = true → st.obsolete n = true

namespace BlobFileSet

/-- Every storage of a destroyed column family holds obsolete files
only. -/
def Retired (fs : BlobFileSet) : Prop :=
  ∀ i st, fs.columnFamilies.lookup i = some st → st.Retired

theorem Retired.act (h : fs.Retired) (hcond : fs.DestroysRetired op)
    (hstep : fs.act C op = some fs') : fs'.Retired := by
  refine each_act (P := fun _ st => st.Retired) ?_ ?_ ?_ h hstep
  · intro i st₀ st st' hst₀ hsame happlied hst hdestroyed n hn
    obtain ⟨e, ⟨rfl, hissued⟩, -, hedited, hsame'⟩ := happlied.edited
    have hdestroyed₀ : st₀.destroyed = true := by
      rw [← hsame, ← hsame']
      exact hdestroyed
    rcases hedited.isSome_of_isSome hn with hn | hadded
    · exact hedited.obsolete_mono (hst (hsame.trans hdestroyed₀) n hn)
    · -- the storage is destroyed, so nothing is added to it
      obtain ⟨m, hm, -⟩ := mem_map.1 hadded
      rcases hissued.addedFiles with hnone | ⟨io, rfl⟩
      · rw [hnone] at hm
        cases hm
      · rcases hcond with hnone | hlive
        · rw [hnone] at hm
          cases hm
        · rw [hst₀] at hlive
          simp [hdestroyed₀] at hlive
  · intro i st hop hst _ _ n hn
    subst hop
    have hall : st.files.entries.all (·.isObsolete) = true := by
      have hcond : (fs.columnFamilies.lookup i).all (fun st =>
        st.files.entries.all (·.isObsolete)) = true := hcond
      rwa [hst] at hcond
    obtain ⟨m, hm⟩ := isSome_iff_exists.1 hn
    have hm : st.findFile n = some m := hm
    show st.obsolete n = true
    unfold BlobStorage.obsolete
    rw [hm]
    exact all_eq_true.1 hall m (mem_of_find hm)
  · intro i st q _ hst hdestroyed n hn
    rw [obsolete_getObsoleteFiles]
    rw [findFile_getObsoleteFiles] at hn
    split at hn
    case isTrue => cases hn
    case isFalse hkept =>
      refine ⟨hkept, hst ?_ n hn⟩
      exact (st.purged_getObsoleteFiles q).destroyed.symm.trans hdestroyed

/-- **No blob file is forgotten.** In every run in which a column family
is destroyed only when all its files are obsolete and gets no files after
that, a storage is erased only if the operation that erases it hands out
every file the storage still has. -/
theorem erased_hands_out_all {fs₀ : BlobFileSet} (hall : fs₀.ListsAll)
    (hretired : fs₀.Retired) (hnew : ∀ op ∈ ops, op.New)
    (hmeets : Meets (act C) DestroysRetired fs₀ ops)
    (hexec : exec (act C) fs₀ ops = some fs) (hcond : fs.DestroysRetired op)
    (hstep : fs.act C op = some fs') {st : BlobStorage} (hst : fs.columnFamilies.lookup i = some st)
    (herased : fs'.columnFamilies.lookup i = none)
    (hn : (st.findFile n).isSome = true) : (i, n) ∈ fs.handsOut op := by
  have hall := hall.exec hnew hexec
  have hretired : fs.Retired :=
    exec_keeps (fun h hcond hstep => Retired.act h hcond hstep) hretired hmeets hexec
  -- the storage is erased as destroyed, so the file is obsolete
  have hobs : st.obsolete n = true := by
    have heffect := effect hstep i
    rw [hst, herased] at heffect
    generalize ho : (none : Option BlobStorage) = o' at heffect
    cases heffect with
    | edits hedits => cases hedits; cases ho
    | destroy hop =>
      subst hop
      have hcond : (fs.columnFamilies.lookup i).all (fun st =>
        st.files.entries.all (·.isObsolete)) = true := hcond
      rw [hst] at hcond
      obtain ⟨m, hm⟩ := isSome_iff_exists.1 hn
      unfold BlobStorage.obsolete
      rw [hm]
      exact all_eq_true.1 hcond m (mem_of_find hm)
    | @purge _ q hop hfree =>
      unfold orErased at ho
      split at ho
      case isFalse => cases ho
      case isTrue hremove =>
        unfold maybeRemove at hremove
        rw [Bool.and_eq_true, (st.purged_getObsoleteFiles q).destroyed] at hremove
        exact hretired i st hst hremove.1 n hn
  rcases obsolete_act hall (obsolete_iff.2 ⟨st, hst, hobs⟩) hstep with hout | hkept
  · exact hout
  · obtain ⟨st', hst', -⟩ := obsolete_iff.1 hkept
    rw [herased] at hst'
    cases hst'

end BlobFileSet

/-- A column family is dropped, destroyed and purged. -/
def dropDestroy : List FileSetOp :=
  [addTwo, .dropColumnFamilies [(0, .ok)] 3, .maybeDestroyColumnFamily 0]

theorem dropDestroy_hands_out :
    ∃ fs fs', exec (BlobFileSet.act base128) opened dropDestroy = some fs
      ∧ fs.act base128 (.getObsoleteFiles 10) = some fs' ∧ fs'.columnFamilies.lookup 0 = none
      ∧ (0, 2) ∈ fs.handsOut (.getObsoleteFiles 10) := by
  obtain ⟨fs, hexec, ⟨st, hst, hfind⟩, herased⟩ :
      ∃ fs ∈ exec (act base128) opened dropDestroy,
        (∃ st ∈ fs.columnFamilies.lookup 0, (st.findFile 2).isSome = true)
        ∧ ((fs.getObsoleteFiles 10).2.2.columnFamilies.lookup 0).isNone = true := by decide +kernel
  have hretired : opened.Retired := by
    intro i st hst hdestroyed
    rw [lookup_opened hst] at hdestroyed
    cases hdestroyed
  rw [isNone_iff_eq_none] at herased
  refine ⟨fs, _, hexec, rfl, herased, ?_⟩
  exact erased_hands_out_all (C := base128) listsAll_opened
    hretired (by decide +kernel) (by decide +kernel) hexec trivial rfl hst herased hfind

/-- A column family that was not dropped is destroyed: its storage is
erased with both files. -/
theorem destroy_forgets :
    ∃ fs fs' st, exec (BlobFileSet.act base128) opened [addTwo] = some fs
      ∧ fs.act base128 (.maybeDestroyColumnFamily 0) = some fs'
      ∧ fs.columnFamilies.lookup 0 = some st ∧ (st.findFile 1).isSome = true
      ∧ fs'.columnFamilies.lookup 0 = none ∧ fs.handsOut (.maybeDestroyColumnFamily 0) = [] := by
  obtain ⟨fs, hexec, ⟨st, hst, hfind⟩, herased⟩ :
      ∃ fs ∈ exec (act base128) opened [addTwo],
        (∃ st ∈ fs.columnFamilies.lookup 0, (st.findFile 1).isSome = true)
        ∧ ((fs.maybeDestroyColumnFamily 0).2.columnFamilies.lookup 0).isNone
          = true := by decide +kernel
  exact ⟨fs, _, st, hexec, rfl, hst, hfind, isNone_iff_eq_none.1 herased, rfl⟩

end DiffKV
