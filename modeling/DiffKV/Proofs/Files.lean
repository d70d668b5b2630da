/-
What the operations on a file set do to the files of one column family:
which are there (`file`), which are live, which are being built, and
which are listed as obsolete.

`LogAndApply` is taken apart by an induction over the operations on a
storage that `Apply` makes; the other operations change a storage in
one place. What `GetObsoleteFiles` hands out is attributed to column
families (`handedOut`), since the code returns file names only.
-/
import DiffKV.GcJob
import DiffKV.Proofs.AllOrNothing
import DiffKV.Proofs.Recovery

namespace DiffKV

open Lib List BlobFileMeta VersionEdit Table BlobFileSet BlobStorage CFEditCollector Db

variable {cfId : UInt32} (m : BlobFileMeta) {fs fs' : BlobFileSet}
  {st st' : BlobStorage} {d : UInt64 × SequenceNumber} {C : Coding}
  {q : SequenceNumber} {event : FileEvent} {files : List BlobFileMeta}
  {c : CFEditCollector}

-- ==== Apply, in steps

namespace CFEditCollector

/-- What holds of a storage and is kept by the operations `Apply` makes
holds of the storage it leaves. -/
theorem apply_induct {P : BlobStorage → Prop} (h : P st)
    (add : ∀ {s m}, m ∈ c.addedFiles.entries → P s → P (s.addBlobFile m))
    (mark : ∀ {s m d}, d ∈ c.deletedFiles.entries →
      s.findFile d.1 = some m → P s → P (s.markFileObsoleteLocked m d.2))
    (update : ∀ {s d}, d ∈ c.updatedDiscardableSize.entries → P s →
      P (applyUpdate s d)) (score : ∀ {s}, P s → P s.computeGCScore) :
    P (c.apply st).2 := by
  have hadded : P (c.applyAdded st) := by
    have hfold : ∀ (l : List BlobFileMeta), l ⊆ c.addedFiles.entries →
        ∀ s, P s → P (l.foldl addBlobFile s) := by
      intro l
      induction l with
      | nil => exact fun _ s hs => hs
      | cons m l ih =>
        intro hl s hs
        exact ih (fun x hx => hl (mem_cons_of_mem _ hx)) _ (add (hl mem_cons_self) hs)
    exact hfold _ (fun x hx => (mem_filter.1 hx).1) st h
  have hdeleted : ∀ (l : List (UInt64 × SequenceNumber)), l ⊆ c.deletedFiles.entries → ∀ s, P s →
      P (Status.forEach c.applyDelete s l).2 := by
    intro l
    induction l with
    | nil => exact fun _ s hs => hs
    | cons d l ih =>
      intro hl s hs
      have htail : l ⊆ c.deletedFiles.entries := fun x hx => hl (mem_cons_of_mem _ hx)
      have hround : P (c.applyDelete s d).2 := by
        unfold applyDelete markFileObsolete
        by_cases ha : c.addedFiles.contains d.1 = true
        · rw [if_pos ha]
          exact hs
        · rw [if_neg ha]
          cases hf : s.files.find d.1 with
          | none => exact hs
          | some m => exact mark (hl mem_cons_self) hf hs
      rw [Status.forEach_cons]
      split
      · exact ih htail _ hround
      · exact hround
  have hupdated : ∀ (l : List (UInt64 × UInt64)), l ⊆ c.updatedDiscardableSize.entries → ∀ s, P s →
      P (l.foldl applyUpdate s) := by
    intro l
    induction l with
    | nil => exact fun _ s hs => hs
    | cons d l ih =>
      intro hl s hs
      exact ih (fun x hx => hl (mem_cons_of_mem _ hx)) _ (update (hl mem_cons_self) hs)
  have hall := hdeleted _ (fun _ hx => hx) _ hadded
  unfold apply
  dsimp only
  split
  · exact score (hupdated _ (fun _ hx => hx) _ hall)
  · exact hall

/-- `Apply` leaves the options and the mark of a destroyed storage. -/
theorem apply_options (st : BlobStorage) :
    (c.apply st).2.dbOptions = st.dbOptions ∧ (c.apply st).2.cfOptions = st.cfOptions
      ∧ (c.apply st).2.destroyed = st.destroyed :=
  apply_induct (P := fun s => s.dbOptions = st.dbOptions
      ∧ s.cfOptions = st.cfOptions ∧ s.destroyed = st.destroyed)
    ⟨rfl, rfl, rfl⟩ (fun _ h => h) (fun _ _ h => h) (fun _ h => h) (fun h => h)

/-- `Apply` lists the deleted files as obsolete. -/
theorem mem_obsoleteFiles_apply (hd : d ∈ (c.apply st).2.obsoleteFiles) :
    d ∈ st.obsoleteFiles ∨ d ∈ c.deletedFiles.entries := by
  refine apply_induct (c := c) (P := fun s => ∀ d ∈ s.obsoleteFiles,
      d ∈ st.obsoleteFiles ∨ d ∈ c.deletedFiles.entries)
    (fun d h => .inl h) (fun _ h => h) ?_ (fun _ h => h) (fun h => h) d hd
  intro s m x hx hm h d hd
  rcases mem_append.1 hd with hd | hd
  · exact h d hd
  · have hkey : m.fileNumber = x.1 := key_of_find hm
    rw [mem_singleton, hkey] at hd
    subst hd
    exact .inr hx

private theorem findFile_applyUpdate (s : BlobStorage) (d : UInt64 × UInt64) (n : UInt64) :
    (applyUpdate s d).findFile n
      = if n = d.1 then (s.findFile n).map (·.addDiscardableSize d.2) else s.findFile n :=
  find_modify s.files d.1 (·.addDiscardableSize d.2) (fun _ => rfl) n

/-- `Apply` starts to build no file, and one it ends to build is in the
storage. -/
theorem building_apply (st : BlobStorage) (n : UInt64) :
    ((c.apply st).2.findBuildingFile n = true → st.findBuildingFile n = true)
      ∧ (st.findBuildingFile n = true →
        (c.apply st).2.findBuildingFile n = true ∨ (c.apply st).2.findFile n ≠ none) := by
  refine apply_induct (c := c) (P := fun s =>
      (s.findBuildingFile n = true → st.findBuildingFile n = true)
      ∧ (st.findBuildingFile n = true → s.findBuildingFile n = true ∨ s.findFile n ≠ none))
    ⟨fun h => h, fun h => .inl h⟩ ?_ ?_ ?_ (fun h => h)
  · intro s m _ h
    rw [findBuildingFile_addBlobFile, findFile_addBlobFile]
    refine ⟨?_, ?_⟩
    · split
      · intro hb
        cases hb
      · exact h.1
    · intro hb
      by_cases hn : m.fileNumber = n
      · rw [if_pos hn]
        cases s.findFile n <;> simp
      · rw [if_neg hn, if_neg fun x => hn x.2.symm]
        exact h.2 hb
  · intro s m d _ hm h
    refine ⟨h.1, fun hb => ?_⟩
    rcases h.2 hb with hb | hf
    · exact .inl hb
    · right
      rw [findFile_markFileObsoleteLocked]
      split
      · simpa using hf
      · exact hf
  · intro s d _ h
    refine ⟨h.1, fun hb => ?_⟩
    rcases h.2 hb with hb | hf
    · exact .inl hb
    · right
      rw [findFile_applyUpdate]
      split
      · simpa using hf
      · exact hf

/-- A file of the storage after `Apply` was there or is one it added. -/
theorem findFile_of_apply {n : UInt64} (h : (c.apply st).2.findFile n ≠ none) :
    st.findFile n ≠ none ∨ c.addedFiles.contains n = true := by
  refine apply_induct (c := c) (P := fun s => s.findFile n ≠ none →
      st.findFile n ≠ none ∨ c.addedFiles.contains n = true)
    (fun h => .inl h) ?_ ?_ ?_ (fun h => h) h
  · intro s m hm ih h
    rw [findFile_addBlobFile] at h
    by_cases hn : m.fileNumber = n
    · subst hn
      exact .inr (contains_of_mem hm)
    · rw [if_neg hn] at h
      exact ih h
  · intro s m d _ hm ih h
    rw [findFile_markFileObsoleteLocked] at h
    split at h
    · exact ih (by simpa using h)
    · exact ih h
  · intro s d _ ih h
    rw [findFile_applyUpdate] at h
    split at h
    · exact ih (by simpa using h)
    · exact ih h

end CFEditCollector

-- ==== building and installed

/-- Only a storage that separates values before the flush builds files,
and a file being built is not in the storage. -/
def BlobStorage.Apart (st : BlobStorage) : Prop :=
  ∀ n, st.findBuildingFile n = true → st.dbOptions.sepBeforeFlush = true ∧ st.findFile n = none

theorem CFEditCollector.apart_apply (h : st.Apart) : (c.apply st).2.Apart := by
  refine apply_induct h ?_ ?_ ?_ (fun h => h)
  · intro s m _ h n hb
    rw [findBuildingFile_addBlobFile] at hb
    split at hb
    case isTrue => cases hb
    case isFalse hn =>
      obtain ⟨hsep, hnone⟩ := h n hb
      refine ⟨hsep, ?_⟩
      rw [findFile_addBlobFile, if_neg fun he => hn ⟨hsep, he.symm⟩]
      exact hnone
  · intro s m d _ _ h n hb
    obtain ⟨hsep, hnone⟩ := h n hb
    refine ⟨hsep, ?_⟩
    rw [findFile_markFileObsoleteLocked, hnone]
    simp
  · intro s d _ h n hb
    obtain ⟨hsep, hnone⟩ := h n hb
    refine ⟨hsep, ?_⟩
    rw [findFile_applyUpdate, hnone]
    simp

-- ==== LogAndApply

namespace BlobFileSet

section

variable {e : VersionEdit} {i : UInt32} {n : UInt64}

/-- The storages after a call: the one of the edit's column family may
have had the batch applied. -/
theorem lookup_logAndApply (h : (fs.logAndApply C e .ok).2.columnFamilies.lookup i = some st) :
    ∃ st₀, fs.columnFamilies.lookup i = some st₀
      ∧ (st = st₀ ∨ (fs.Admits e ∧ i = e.columnFamilyId ∧ st = (e.batch.apply st₀).2)) := by
  rcases lookup_logAndApply_cases fs e .ok i with
    heq | ⟨st₀, hi, hadm, -, hst₀, heq⟩
  · exact ⟨st, heq.symm.trans h, .inl rfl⟩
  · exact ⟨st₀, hst₀, .inr ⟨hadm, hi, Option.some.inj (h.symm.trans heq)⟩⟩

@[simp] theorem obsoleteColumns_logAndApply (fs : BlobFileSet) (e : VersionEdit) (io : ManifestIO) :
    (fs.logAndApply C e io).2.obsoleteColumns = fs.obsoleteColumns := by
  cases hadm : fs.admits e with
  | false => rw [(logAndApply_refused hadm).2]
  | true =>
    have hadm := (admits_iff fs e).1 hadm
    by_cases hio : io = .ok
    case neg =>
      rw [(logAndApply_failed hadm hio).2]
      unfold appended
      split <;> rfl
    case pos =>
      subst hio
      obtain ⟨-, storages, heq, -⟩ := logAndApply_applied (C := C) hadm
      rw [heq]
      rfl

theorem building_iff :
    fs.building i n = true ↔ ∃ st, fs.columnFamilies.lookup i = some st
      ∧ st.findBuildingFile n = true := by
  unfold building
  cases fs.columnFamilies.lookup i <;> simp

theorem file_ne_none_iff :
    fs.file i n ≠ none ↔ ∃ st, fs.columnFamilies.lookup i = some st ∧ st.findFile n ≠ none := by
  unfold file
  cases fs.columnFamilies.lookup i <;> simp

theorem mem_obsoleteEntries :
    d ∈ fs.obsoleteEntries ↔ ∃ i st,
      fs.columnFamilies.lookup i = some st ∧ d ∈ st.obsoleteFiles := by
  unfold obsoleteEntries
  rw [mem_flatMap]
  constructor
  · intro h
    obtain ⟨⟨i, st⟩, hmem, hd⟩ := h
    exact ⟨i, st, mem_entries_iff.1 hmem, hd⟩
  · intro h
    obtain ⟨i, st, hst, hd⟩ := h
    exact ⟨(i, st), mem_entries_iff.2 hst, hd⟩

/-- What a call lists as obsolete. -/
theorem mem_obsoleteEntries_logAndApply (h : d ∈ (fs.logAndApply C e .ok).2.obsoleteEntries) :
    d ∈ fs.obsoleteEntries ∨ (d ∈ e.deletedFiles ∧ fs.Admits e) := by
  obtain ⟨i, st, hst, hd⟩ := mem_obsoleteEntries.1 h
  obtain ⟨st₀, hst₀, rfl | ⟨ha, -, rfl⟩⟩ := lookup_logAndApply hst
  · exact .inl (mem_obsoleteEntries.2 ⟨i, st, hst₀, hd⟩)
  · rcases mem_obsoleteFiles_apply hd with hd | hd
    · exact .inl (mem_obsoleteEntries.2 ⟨i, st₀, hst₀, hd⟩)
    · right
      have hentries : e.batch.deletedFiles.entries = e.deletedFiles :=
        entries_foldl_emplace e.deletedFiles empty ha.nodup.2
      exact ⟨hentries ▸ hd, ha⟩

/-- The files being built after a call were being built before. -/
theorem building_of_logAndApply (h : (fs.logAndApply C e .ok).2.building i n = true) :
    fs.building i n = true := by
  obtain ⟨st, hst, hb⟩ := building_iff.1 h
  obtain ⟨st₀, hst₀, rfl | ⟨-, -, rfl⟩⟩ := lookup_logAndApply hst
  · exact building_iff.2 ⟨st, hst₀, hb⟩
  · exact building_iff.2 ⟨st₀, hst₀, (building_apply st₀ n).1 hb⟩

/-- A file being built before a call is so after it, or installed. -/
theorem building_logAndApply (h : fs.building i n = true) :
    (fs.logAndApply C e .ok).2.building i n = true
      ∨ (fs.logAndApply C e .ok).2.file i n ≠ none := by
  obtain ⟨st₀, hst₀, hb⟩ := building_iff.1 h
  have hsome : ((fs.logAndApply C e .ok).2.columnFamilies.lookup i).isSome = true := by
    rw [lookup_isSome_logAndApply, hst₀]
    rfl
  obtain ⟨st, hst⟩ := Option.isSome_iff_exists.1 hsome
  obtain ⟨st₁, hst₁, hcase⟩ := lookup_logAndApply hst
  rw [hst₀] at hst₁
  cases hst₁
  rcases hcase with rfl | ⟨-, -, rfl⟩
  · exact .inl (building_iff.2 ⟨st, hst, hb⟩)
  · rcases (building_apply st₀ n).2 hb with hb | hf
    · exact .inl (building_iff.2 ⟨_, hst, hb⟩)
    · exact .inr (file_ne_none_iff.2 ⟨_, hst, hf⟩)

/-- A file after a call was there before or is added by it. -/
theorem file_of_logAndApply (h : (fs.logAndApply C e .ok).2.file i n ≠ none) :
    fs.file i n ≠ none ∨ e.Adds i n := by
  obtain ⟨st, hst, hf⟩ := file_ne_none_iff.1 h
  obtain ⟨st₀, hst₀, rfl | ⟨-, hi, rfl⟩⟩ := lookup_logAndApply hst
  · exact .inl (file_ne_none_iff.2 ⟨st, hst₀, hf⟩)
  · rcases findFile_of_apply hf with hf | hadd
    · exact .inl (file_ne_none_iff.2 ⟨st₀, hst₀, hf⟩)
    · exact .inr ⟨hi.symm, (e.batch_added n).1 hadd⟩

end

end BlobFileSet

-- ==== the edits logged

namespace Db

variable (cfg : Config)

theorem finishEdit_eq (files : List BlobFileMeta) :
    finishEdit cfg files = { columnFamilyId := cfg.cfId, addedFiles := files } := by
  unfold finishEdit
  rw [foldl_addBlobFile]
  rfl

theorem deleteEdit_eq (inputs : List UInt64) (q : SequenceNumber) :
    deleteEdit cfg inputs q
      = { columnFamilyId := cfg.cfId
          deletedFiles := inputs.map fun n => (n, q) } :=
  foldl_deleteBlobFile id q inputs _

end Db

namespace BlobFileSet

section

variable {cfg : Config} {n : UInt64} {inputs : List UInt64}

theorem live_ne_none_iff {i : UInt32} :
    fs.live i n ≠ none ↔ ∃ m, fs.file i n = some m ∧ m.isObsolete = false := by
  unfold live
  cases fs.file i n <;> simp [Option.filter]

theorem file_of_live {i : UInt32} (h : fs.live i n ≠ none) : fs.file i n ≠ none := by
  obtain ⟨m, hm, -⟩ := live_ne_none_iff.1 h
  simp [hm]

variable (hopen : (fs.columnFamilies.lookup cfg.cfId).isSome)
include hopen

/-- The live files after files were installed. -/
theorem live_finishEdit (hadm : fs.Admits (finishEdit cfg files))
    (hnew : ∀ m ∈ files, m.isObsolete = false) :
    (fs.logAndApply C (finishEdit cfg files) .ok).2.live cfg.cfId n ≠ none
      ↔ fs.live cfg.cfId n ≠ none ∨ n ∈ files.map (·.fileNumber) := by
  rw [live_applied hadm, finishEdit_eq]
  rw [if_pos ⟨rfl, hopen⟩, if_neg (by simp)]
  have hfind : (find? (fun m => decide (m.fileNumber = n)) files).filter
      (!·.isObsolete) ≠ none ↔ n ∈ files.map (·.fileNumber) := by
    cases hf : files.find? (fun m => decide (m.fileNumber = n)) with
    | none =>
      simpa [find?_eq_none] using hf
    | some m =>
      have hm := mem_of_find?_eq_some hf
      have hnum : m.fileNumber = n := by simpa using find?_some hf
      simp only [Option.filter, hnew m hm, Bool.not_false, if_true, ne_eq,
        reduceCtorEq, not_false_eq_true, true_iff]
      exact mem_map.2 ⟨m, hm, hnum⟩
  rw [← hfind]
  cases fs.live cfg.cfId n <;> simp

/-- Installing files takes none away. -/
theorem live_keep_finishEdit (hnew : ∀ m ∈ files, m.isObsolete = false)
    (h : fs.live cfg.cfId n ≠ none) :
    (fs.logAndApply C (finishEdit cfg files) .ok).2.live cfg.cfId n ≠ none := by
  by_cases hadm : fs.admits (finishEdit cfg files) = true
  · exact (live_finishEdit hopen ((admits_iff ..).1 hadm) hnew).2 (.inl h)
  · rw [(logAndApply_refused (by simpa using hadm)).2]
    exact h

/-- The live files after inputs were deleted. -/
theorem live_deleteEdit (hadm : fs.Admits (deleteEdit cfg inputs q)) :
    (fs.logAndApply C (deleteEdit cfg inputs q) .ok).2.live cfg.cfId n ≠ none
      ↔ fs.live cfg.cfId n ≠ none ∧ n ∉ inputs := by
  rw [live_applied hadm, deleteEdit_eq]
  rw [if_pos ⟨rfl, hopen⟩]
  by_cases hn : n ∈ inputs
  · rw [if_pos (by simpa using hn)]
    simp [hn]
  · rw [if_neg (by simpa using hn)]
    cases fs.live cfg.cfId n <;> simp [hn]

end

end BlobFileSet

-- ==== state changes

/-- What a change of file states leaves of a file: the persistent part,
and whether it is obsolete. -/
def BlobFileMeta.outline (m : BlobFileMeta) : BlobFileMeta × Bool :=
  (m.persistent, m.isObsolete)

/-- The event makes the file obsolete only if it is. -/
def FileEvent.Spares (event : FileEvent) (m : BlobFileMeta) : Prop :=
  (m.fileStateTransit event).isObsolete = m.isObsolete

/-- The storages differ in the states of their files only, and the same
files are obsolete. -/
structure BlobStorage.SameFiles (st st' : BlobStorage) : Prop where
  dbOptions : st'.dbOptions = st.dbOptions
  cfOptions : st'.cfOptions = st.cfOptions
  destroyed : st'.destroyed = st.destroyed
  obsoleteFiles : st'.obsoleteFiles = st.obsoleteFiles
  building : st'.buildingFiles = st.buildingFiles
  file : ∀ n, (st'.findFile n).map BlobFileMeta.outline = (st.findFile n).map BlobFileMeta.outline

namespace BlobStorage

theorem SameFiles.refl (st : BlobStorage) : st.SameFiles st :=
  ⟨rfl, rfl, rfl, rfl, rfl, fun _ => rfl⟩

theorem SameFiles.trans {st'' : BlobStorage} (h : st.SameFiles st')
    (h' : st'.SameFiles st'') : st.SameFiles st'' where
  dbOptions := h'.dbOptions.trans h.dbOptions
  cfOptions := h'.cfOptions.trans h.cfOptions
  destroyed := h'.destroyed.trans h.destroyed
  obsoleteFiles := h'.obsoleteFiles.trans h.obsoleteFiles
  building := h'.building.trans h.building
  file n := (h'.file n).trans (h.file n)

/-- One state change that makes no file obsolete and revives none. -/
theorem sameFiles_transit {k : UInt64} (h : ∀ m, st.findFile k = some m → event.Spares m) :
    st.SameFiles (st.transit k event) where
  dbOptions := rfl
  cfOptions := rfl
  destroyed := rfl
  obsoleteFiles := rfl
  building := rfl
  file n := by
    rw [findFile_transit]
    split
    case isFalse => rfl
    case isTrue hn =>
      subst hn
      cases hm : st.findFile n with
      | none => rfl
      | some m =>
        have hs : (m.fileStateTransit event).isObsolete = m.isObsolete := h m hm
        simp [outline, hs]

/-- A list of them. -/
theorem sameFiles_transits (ns : List UInt64)
    (h : ∀ n ∈ ns, ∀ m, st.findFile n = some m →
      ∀ m' : BlobFileMeta, m'.isObsolete = m.isObsolete → event.Spares m') :
    st.SameFiles (ns.foldl (fun st n => st.transit n event) st) := by
  induction ns generalizing st with
  | nil => exact SameFiles.refl st
  | cons k ns ih =>
    have hk : st.SameFiles (st.transit k event) :=
      sameFiles_transit fun m hm => h k mem_cons_self m hm m rfl
    refine hk.trans (ih ?_)
    intro n hn m hm m' hm'
    have ho := hk.file n
    rw [hm] at ho
    obtain ⟨m₀, hm₀, heq⟩ := Option.map_eq_some_iff.1 ho.symm
    refine h n (mem_cons_of_mem _ hn) m₀ hm₀ m' ?_
    have : m₀.isObsolete = m.isObsolete := congrArg Prod.snd heq
    rw [this]
    exact hm'

end BlobStorage

theorem FileEvent.spares_kGCCompleted : FileEvent.kGCCompleted.Spares m := by
  unfold Spares isObsolete fileStateTransit FileState.next
  by_cases h : m.state = .kObsolete <;> simp [h]

theorem FileEvent.spares_kFlushCompleted : FileEvent.kFlushCompleted.Spares m := by
  unfold Spares isObsolete fileStateTransit FileState.next
  by_cases h : m.state = .kPendingLSM <;> simp [h]

theorem FileEvent.spares_kNeedGC : FileEvent.kNeedGC.Spares m := by
  unfold Spares isObsolete fileStateTransit FileState.next
  by_cases h : m.state = .kObsolete <;> simp [h]

theorem FileEvent.spares_kGCBegin {m : BlobFileMeta}
    (h : m.isObsolete = false) : FileEvent.kGCBegin.Spares m := by
  unfold Spares
  rw [h]
  rfl

namespace BlobFileSet

theorem lookup_onStorage (fs : BlobFileSet) (i j : UInt32) (f : BlobStorage → BlobStorage) :
    (fs.onStorage i f).columnFamilies.lookup j
      = if j = i then (fs.columnFamilies.lookup j).map f else fs.columnFamilies.lookup j := by
  unfold onStorage Table.lookup
  rw [find_modify]
  split
  · cases fs.columnFamilies.find j <;> rfl
  · rfl

theorem file_onStorage (fs : BlobFileSet) (i j : UInt32)
    (f : BlobStorage → BlobStorage) (n : UInt64) :
    (fs.onStorage i f).file j n
      = if j = i then (fs.columnFamilies.lookup j).bind fun s => (f s).findFile n
        else fs.file j n := by
  unfold file
  rw [lookup_onStorage]
  split
  · exact Option.bind_map
  · rfl

/-- The file sets differ in the states of files only, and the same files
are obsolete. -/
structure SameFiles (fs fs' : BlobFileSet) : Prop where
  manifest : fs'.manifest = fs.manifest
  next : fs'.nextFileNumber = fs.nextFileNumber
  dbOptions : fs'.dbOptions = fs.dbOptions
  obsoleteColumns : fs'.obsoleteColumns = fs.obsoleteColumns
  isSome : ∀ i, (fs'.columnFamilies.lookup i).isSome = (fs.columnFamilies.lookup i).isSome
  storage : ∀ {i st'}, fs'.columnFamilies.lookup i = some st' →
    ∃ st, fs.columnFamilies.lookup i = some st ∧ st.SameFiles st'

namespace SameFiles

variable (h : fs.SameFiles fs') (i : UInt32) (n : UInt64)

include h

theorem outline : (fs'.file i n).map outline = (fs.file i n).map outline := by
  unfold file
  have hs := h.isSome i
  cases hst' : fs'.columnFamilies.lookup i with
  | none =>
    rw [hst'] at hs
    have hnone : fs.columnFamilies.lookup i = none := by
      simpa using hs.symm
    rw [hnone]
  | some st' =>
    obtain ⟨st, hst, hsame⟩ := h.storage hst'
    rw [hst]
    exact hsame.file n

theorem file_ne_none : fs'.file i n ≠ none ↔ fs.file i n ≠ none := by
  have ho := h.outline i n
  cases hf : fs.file i n <;> cases hf' : fs'.file i n <;> rw [hf, hf'] at ho <;> simp at ho ⊢

theorem live_persistent : (fs'.live i n).map persistent = (fs.live i n).map persistent := by
  have ho := h.outline i n
  unfold live
  cases hf : fs.file i n with
  | none =>
    rw [hf] at ho
    rw [Option.map_eq_none_iff.1 ho]
  | some m =>
    rw [hf] at ho
    obtain ⟨m', hm', heq⟩ := Option.map_eq_some_iff.1 ho
    have hp : m'.persistent = m.persistent := congrArg Prod.fst heq
    have hobs : m'.isObsolete = m.isObsolete := congrArg Prod.snd heq
    rw [hm']
    cases hb : m.isObsolete <;> simp [Option.filter, hobs, hb, hp]

theorem live_ne_none : fs'.live i n ≠ none ↔ fs.live i n ≠ none := by
  have hp := h.live_persistent i n
  cases hl : fs.live i n <;> cases hl' : fs'.live i n <;> rw [hl, hl'] at hp <;> simp at hp ⊢

theorem building_eq : fs'.building i n = fs.building i n := by
  unfold building
  have hs := h.isSome i
  cases hst' : fs'.columnFamilies.lookup i with
  | none =>
    rw [hst'] at hs
    have hnone : fs.columnFamilies.lookup i = none := by
      simpa using hs.symm
    rw [hnone]
  | some st' =>
    obtain ⟨st, hst, hsame⟩ := h.storage hst'
    rw [hst]
    simp only [Option.any_some]
    unfold findBuildingFile
    rw [hsame.building]

theorem mem_obsolete (hd : d ∈ fs'.obsoleteEntries) : d ∈ fs.obsoleteEntries := by
  obtain ⟨i, st', hst', hd⟩ := mem_obsoleteEntries.1 hd
  obtain ⟨st, hst, hsame⟩ := h.storage hst'
  exact mem_obsoleteEntries.2 ⟨i, st, hst, hsame.obsoleteFiles ▸ hd⟩

end SameFiles

/-- A change of one storage to one with the same files. -/
theorem sameFiles_onStorage {i : UInt32} {f : BlobStorage → BlobStorage}
    (h : ∀ st, fs.columnFamilies.lookup i = some st → st.SameFiles (f st)) :
    fs.SameFiles (fs.onStorage i f) where
  manifest := rfl
  next := rfl
  dbOptions := rfl
  obsoleteColumns := rfl
  isSome j := by
    rw [lookup_onStorage]
    split
    · simp
    · rfl
  storage := by
    intro j st' hst'
    rw [lookup_onStorage] at hst'
    split at hst'
    case isTrue hj =>
      obtain ⟨st, hst, rfl⟩ := Option.map_eq_some_iff.1 hst'
      exact ⟨st, hst, h st (hj ▸ hst)⟩
    case isFalse => exact ⟨st', hst', BlobStorage.SameFiles.refl st'⟩

end BlobFileSet

/-- Events that spare the files they reach. -/
theorem Db.sameFiles_transitFiles {cfg : Config} {db : Db} (ns : List UInt64)
    (h : ∀ n ∈ ns, ∀ m, db.fileSet.file cfg.cfId n = some m →
      ∀ m' : BlobFileMeta, m'.isObsolete = m.isObsolete → event.Spares m') :
    db.fileSet.SameFiles (db.transitFiles cfg ns event).fileSet := by
  unfold transitFiles
  dsimp only
  apply sameFiles_onStorage
  intro st hst
  apply sameFiles_transits
  intro n hn m hm
  refine h n hn m ?_
  rw [file, hst]
  exact hm

-- ==== purge

/-- A storage after purges up to the sequence number `q`. -/
structure BlobStorage.Purged (q : SequenceNumber) (st st' : BlobStorage) : Prop where
  dbOptions : st'.dbOptions = st.dbOptions
  cfOptions : st'.cfOptions = st.cfOptions
  destroyed : st'.destroyed = st.destroyed
  building : st'.buildingFiles = st.buildingFiles
  obsoleteFiles : ∀ {d}, d ∈ st'.obsoleteFiles → d ∈ st.obsoleteFiles
  file : ∀ n, st'.findFile n = st.findFile n
    ∨ (st'.findFile n = none ∧ ∃ s, (n, s) ∈ st.obsoleteFiles ∧ s < q)

namespace BlobStorage

theorem Purged.refl (q : SequenceNumber) (st : BlobStorage) :
    st.Purged q st := ⟨rfl, rfl, rfl, rfl, fun h => h, fun _ => .inl rfl⟩

private theorem foldl_removeFile_frame (l : List UInt64) (st : BlobStorage) :
    (l.foldl removeFile st).dbOptions = st.dbOptions
      ∧ (l.foldl removeFile st).cfOptions = st.cfOptions
      ∧ (l.foldl removeFile st).destroyed = st.destroyed
      ∧ (l.foldl removeFile st).buildingFiles = st.buildingFiles := by
  induction l generalizing st with
  | nil => exact ⟨rfl, rfl, rfl, rfl⟩
  | cons n l ih =>
    have hone : (st.removeFile n).dbOptions = st.dbOptions
        ∧ (st.removeFile n).cfOptions = st.cfOptions ∧ (st.removeFile n).destroyed = st.destroyed
        ∧ (st.removeFile n).buildingFiles = st.buildingFiles := by
      unfold removeFile
      cases st.files.find n <;> exact ⟨rfl, rfl, rfl, rfl⟩
    obtain ⟨h1, h2, h3, h4⟩ := ih (st.removeFile n)
    exact ⟨h1.trans hone.1, h2.trans hone.2.1, h3.trans hone.2.2.1, h4.trans hone.2.2.2⟩

theorem mem_getObsoleteFiles {n : UInt64} (h : n ∈ (st.getObsoleteFiles q).1) :
    ∃ s, (n, s) ∈ st.obsoleteFiles ∧ s < q := by
  obtain ⟨d, hd, rfl⟩ := mem_map.1 h
  obtain ⟨hd, hlt⟩ := mem_filter.1 hd
  exact ⟨d.2, hd, by simpa using hlt⟩

theorem purged_getObsoleteFiles (st : BlobStorage) (q : SequenceNumber) :
    st.Purged q (st.getObsoleteFiles q).2 := by
  obtain ⟨h1, h2, h3, h4⟩ := foldl_removeFile_frame
    ((st.obsoleteFiles.filter fun f => q > f.2).map Prod.fst) st
  refine ⟨h1, h2, h3, h4, fun hd => (mem_filter.1 hd).1, fun n => ?_⟩
  rw [findFile_getObsoleteFiles]
  split
  case isTrue hn => exact .inr ⟨rfl, mem_getObsoleteFiles hn⟩
  case isFalse => exact .inl rfl

end BlobStorage

namespace BlobFileSet

/-- What becomes of a storage that may be erased. -/
def orErased (st : BlobStorage) : Option BlobStorage :=
  if st.maybeRemove then none else some st

theorem eq_of_orErased (h : orErased st = some st') : st' = st := by
  unfold orErased at h
  split at h
  · cases h
  · exact (Option.some.inj h).symm

/-- The files `GetObsoleteFiles` hands out, with their column families. -/
def handedOut (fs : BlobFileSet) (oldestSequence : SequenceNumber) : List (UInt32 × UInt64) :=
  fs.columnFamilies.entries.flatMap fun cf =>
    if fs.obsoleteColumns.contains cf.1 then []
    else (cf.2.getObsoleteFiles oldestSequence).1.map fun n => (cf.1, n)

theorem mem_handedOut {x : UInt32 × UInt64} :
    x ∈ fs.handedOut q ↔ fs.obsoleteColumns.contains x.1 = false
      ∧ ∃ st, fs.columnFamilies.lookup x.1 = some st
        ∧ ∃ s, (x.2, s) ∈ st.obsoleteFiles ∧ s < q := by
  obtain ⟨i, n⟩ := x
  unfold handedOut
  rw [mem_flatMap]
  constructor
  · rintro ⟨⟨j, st⟩, hst, hmem⟩
    split at hmem
    case isTrue => cases hmem
    case isFalse hfree =>
      obtain ⟨k, hk, heq⟩ := mem_map.1 hmem
      obtain ⟨rfl, rfl⟩ := Prod.ext_iff.1 heq
      exact ⟨by simpa using hfree, st, mem_entries_iff.1 hst, mem_getObsoleteFiles hk⟩
  · rintro ⟨hfree, st, hst, s, hs, hlt⟩
    refine ⟨(i, st), mem_entries_iff.2 hst, ?_⟩
    rw [hfree, if_neg Bool.false_ne_true]
    refine mem_map_of_mem (mem_map.2 ⟨(n, s), ?_, rfl⟩)
    exact mem_filter.2 ⟨hs, by simpa using hlt⟩

/-- One round: what it hands out, and the storages after it. -/
private theorem getObsoleteFilesOf_spec (q : SequenceNumber)
    (acc : List UInt64 × BlobFileSet) (j : UInt32) :
    let acc' := getObsoleteFilesOf q acc j
    acc'.2 = { acc.2 with columnFamilies := acc'.2.columnFamilies }
      ∧ (∀ k, acc'.2.columnFamilies.lookup k
        = if k = j ∧ acc.2.obsoleteColumns.contains j = false then
            (acc.2.columnFamilies.lookup k).bind fun st =>
              orErased (st.getObsoleteFiles q).2
          else acc.2.columnFamilies.lookup k)
      ∧ acc'.1 = acc.1 ++ if acc.2.obsoleteColumns.contains j then []
        else ((acc.2.columnFamilies.lookup j).map fun st => (st.getObsoleteFiles q).1).getD [] := by
  obtain ⟨files, fs⟩ := acc
  unfold getObsoleteFilesOf
  dsimp only
  cases hheld : fs.obsoleteColumns.contains j with
  | true => simp
  | false =>
    rw [if_neg Bool.false_ne_true]
    cases hst : fs.columnFamilies.lookup j with
    | none =>
      refine ⟨rfl, fun k => ?_, by simp⟩
      by_cases hk : k = j
      · simp [hk, hst]
      · simp [hk]
    | some st =>
      refine ⟨rfl, fun k => ?_, by simp⟩
      unfold orErased
      by_cases hk : k = j
      · subst hk
        simp only [hst, true_and, if_true, Option.bind_some]
        split
        · rw [lookup_erase, if_pos rfl]
        · rw [lookup_insert, if_pos rfl]
      · rw [if_neg fun h => hk h.1]
        dsimp only
        split
        · rw [lookup_erase, if_neg hk]
        · rw [lookup_insert, if_neg hk]

/-- `GetObsoleteFiles` returns the files handed out. -/
theorem getObsoleteFiles_eq_handedOut (fs : BlobFileSet) (q : SequenceNumber) :
    (fs.getObsoleteFiles q).1 = (fs.handedOut q).map Prod.snd := by
  have hemit := foldl_entries_emit
    (f := fun acc (x : UInt32 × BlobStorage) => getObsoleteFilesOf q acc x.1)
    (fun (acc : List UInt64 × BlobFileSet) k =>
      (acc.2.obsoleteColumns.contains k, acc.2.columnFamilies.lookup k))
    Prod.fst (fun _ v => if v.1 then [] else
      (v.2.map fun st => (st.getObsoleteFiles q).1).getD [])
    (fun acc x k hk => by
      obtain ⟨hcolumns, hlookup, -⟩ := getObsoleteFilesOf_spec q acc x.1
      rw [hcolumns, hlookup, if_neg fun h => hk h.1])
    (fun acc x => (getObsoleteFilesOf_spec q acc x.1).2.2)
    fs.columnFamilies ([], fs)
  unfold getObsoleteFiles
  rw [foldl_map, hemit, nil_append]
  unfold handedOut
  rw [map_flatMap]
  refine flatMap_congr fun cf hcf => ?_
  rw [mem_entries_iff.1 hcf]
  split
  · rfl
  · rw [map_map]
    exact (map_id _).symm

/-- The storages after `GetObsoleteFiles`. -/
theorem lookup_getObsoleteFiles (fs : BlobFileSet) (q : SequenceNumber) (i : UInt32) :
    (fs.getObsoleteFiles q).2.2.columnFamilies.lookup i
      = if fs.obsoleteColumns.contains i then fs.columnFamilies.lookup i
        else (fs.columnFamilies.lookup i).bind fun st => orErased (st.getObsoleteFiles q).2 := by
  have hview := foldl_entries_view
    (f := fun acc (x : UInt32 × BlobStorage) => getObsoleteFilesOf q acc x.1)
    (fun (acc : List UInt64 × BlobFileSet) k =>
      (acc.2.obsoleteColumns.contains k, acc.2.columnFamilies.lookup k))
    (fun _ v => (v.1, if v.1 then v.2 else
      v.2.bind fun st => orErased (st.getObsoleteFiles q).2))
    (fun acc x k => by
      obtain ⟨hcolumns, hlookup, -⟩ := getObsoleteFilesOf_spec q acc x.1
      rw [hcolumns, hlookup]
      by_cases hk : k = x.1
      · subst hk
        cases acc.2.obsoleteColumns.contains x.1 <;> simp
      · simp [hk])
    fs.columnFamilies ([], fs) i
  unfold getObsoleteFiles
  rw [foldl_map]
  have hlookup := congrArg Prod.snd hview
  refine hlookup.trans ?_
  cases fs.columnFamilies.lookup i with
  | none => simp
  | some st => rfl

/-- `GetObsoleteFiles` touches the storages and the list of manifests. -/
theorem frame_getObsoleteFiles (fs : BlobFileSet) (q : SequenceNumber) :
    (fs.getObsoleteFiles q).2.2 = { fs with
          columnFamilies := (fs.getObsoleteFiles q).2.2.columnFamilies
          obsoleteManifests := [] } := by
  have hfold : ∀ (ids : List UInt32) (acc : List UInt64 × BlobFileSet),
      let acc' := ids.foldl (getObsoleteFilesOf q) acc
      acc'.2 = { acc.2 with columnFamilies := acc'.2.columnFamilies } := by
    intro ids
    induction ids with
    | nil => exact fun _ => rfl
    | cons j ids ih =>
      intro acc
      refine (ih (getObsoleteFilesOf q acc j)).trans ?_
      rw [(getObsoleteFilesOf_spec q acc j).1]
      rfl
  unfold getObsoleteFiles
  dsimp only
  rw [hfold]

theorem obsoleteColumns_getObsoleteFiles (fs : BlobFileSet) (q : SequenceNumber) :
    (fs.getObsoleteFiles q).2.2.obsoleteColumns = fs.obsoleteColumns := by
  rw [fs.frame_getObsoleteFiles q]

/-- A storage after `GetObsoleteFiles` was there before. -/
theorem of_lookup_getObsoleteFiles {i : UInt32}
    (h : (fs.getObsoleteFiles q).2.2.columnFamilies.lookup i = some st') :
    ∃ st, fs.columnFamilies.lookup i = some st ∧ (st' = st ∨ st' = (st.getObsoleteFiles q).2) := by
  rw [lookup_getObsoleteFiles] at h
  split at h
  case isTrue => exact ⟨st', h, .inl rfl⟩
  case isFalse =>
    obtain ⟨st, hst, ho⟩ := Option.bind_eq_some_iff.1 h
    obtain rfl := eq_of_orErased ho
    exact ⟨st, hst, .inr rfl⟩

/-- A file set after a purge up to the sequence number `q`. -/
structure Purged (q : SequenceNumber) (fs fs' : BlobFileSet) : Prop where
  manifest : fs'.manifest = fs.manifest
  next : fs'.nextFileNumber = fs.nextFileNumber
  dbOptions : fs'.dbOptions = fs.dbOptions
  storage : ∀ {i st'}, fs'.columnFamilies.lookup i = some st' →
    ∃ st, fs.columnFamilies.lookup i = some st ∧ st.Purged q st'
  kept : ∀ {i st}, fs.columnFamilies.lookup i = some st →
    st.destroyed = false → (fs'.columnFamilies.lookup i).isSome = true

theorem Purged.mem_obsolete (h : fs.Purged q fs')
    (hd : d ∈ fs'.obsoleteEntries) : d ∈ fs.obsoleteEntries := by
  obtain ⟨i, st', hst', hd⟩ := mem_obsoleteEntries.1 hd
  obtain ⟨st, hst, hp⟩ := h.storage hst'
  exact mem_obsoleteEntries.2 ⟨i, st, hst, hp.obsoleteFiles hd⟩

theorem purged_getObsoleteFiles (fs : BlobFileSet) (q : SequenceNumber) :
    fs.Purged q (fs.getObsoleteFiles q).2.2 where
  manifest := by rw [fs.frame_getObsoleteFiles q]
  next := by rw [fs.frame_getObsoleteFiles q]
  dbOptions := by rw [fs.frame_getObsoleteFiles q]
  storage := by
    intro i st' hst'
    obtain ⟨st, hst, rfl | rfl⟩ := of_lookup_getObsoleteFiles hst'
    · exact ⟨st', hst, BlobStorage.Purged.refl q st'⟩
    · exact ⟨st, hst, st.purged_getObsoleteFiles q⟩
  kept := by
    intro i st hst hd
    -- only a destroyed column family is ever erased
    have hkeep : (st.getObsoleteFiles q).2.maybeRemove = false := by
      unfold maybeRemove
      rw [(st.purged_getObsoleteFiles q).destroyed, hd]
      rfl
    rw [lookup_getObsoleteFiles, hst]
    split
    · rfl
    · unfold orErased
      simp [hkeep]

/-- The files `GetObsoleteFiles` hands out are listed as obsolete. -/
theorem obsolete_of_mem_getObsoleteFiles {n : UInt64} (hn : n ∈ (fs.getObsoleteFiles q).1) :
    ∃ s, (n, s) ∈ fs.obsoleteEntries ∧ s < q := by
  rw [getObsoleteFiles_eq_handedOut] at hn
  obtain ⟨⟨i, n⟩, hmem, rfl⟩ := mem_map.1 hn
  obtain ⟨-, st, hst, s, hs, hlt⟩ := mem_handedOut.1 hmem
  exact ⟨s, mem_obsoleteEntries.2 ⟨i, st, hst, hs⟩, hlt⟩

end BlobFileSet

/-- The tracked manifest of a file set is that of another with the same
live files. -/
theorem Tracks.transfer {es : List VersionEdit} (h : Tracks C fs es)
    (manifest : fs'.manifest = fs.manifest) (next : fs.nextFileNumber ≤ fs'.nextFileNumber)
    (isSome : ∀ i, (fs'.columnFamilies.lookup i).isSome = true →
      (fs.columnFamilies.lookup i).isSome = true)
    (live : ∀ i, (fs'.columnFamilies.lookup i).isSome = true → ∀ n,
      (fs'.live i n).map persistent = (fs.live i n).map persistent) : Tracks C fs' es where
  manifest := manifest ▸ h.manifest
  nodup := h.nodup
  next_mono := h.next_mono
  next_le e he n hn := UInt64.le_trans (h.next_le e he n hn) next
  has_next := h.has_next
  live_added := by
    intro i n hl
    have hi : (fs'.columnFamilies.lookup i).isSome = true := by
      obtain ⟨st, hst, -⟩ := file_ne_none_iff.1 (file_of_live hl)
      simp [hst]
    refine h.live_added i n fun hnone => hl ?_
    have hp := live i hi n
    rw [hnone] at hp
    simpa using hp
  deleted_added i hi := h.deleted_added i (isSome i hi)
  noClash := h.noClash
  live i hi n := (live i hi n).trans (h.live i (isSome i hi) n)

-- ==== installing

/-- A storage after new files were installed: they are there, and the
others are as they were but for their discardable sizes. -/
structure BlobStorage.Installs (files : List BlobFileMeta) (st st' : BlobStorage) : Prop where
  cfOptions : st'.cfOptions = st.cfOptions
  added : ∀ m ∈ files, ∃ m', st'.findFile m.fileNumber = some m' ∧ m'.uncharged = m.uncharged
  others : ∀ n, n ∉ files.map (·.fileNumber) →
    (st'.findFile n).map BlobFileMeta.uncharged = (st.findFile n).map BlobFileMeta.uncharged

/-- An edit that adds files under numbers of their own is accepted. -/
theorem admits_install (hst : fs.columnFamilies.lookup cfId = some st)
    (hnodup : (files.map (·.fileNumber)).Nodup)
    (hfresh : ∀ m ∈ files, st.findFile m.fileNumber = none) :
    fs.Admits { columnFamilyId := cfId, addedFiles := files } := by
  refine ⟨⟨hnodup, nodup_nil⟩, fun st₁ hst₁ => ⟨?_, ?_⟩⟩
  · intro n hn
    obtain ⟨m, hm, rfl⟩ := mem_map.1 ((batch_added _ n).1 hn)
    cases hst.symm.trans hst₁
    exact hfresh m hm
  · intro n hn
    cases (batch_deleted _ n).1 hn

/-- `LogAndApply` of an edit that adds files under numbers of their
own. -/
theorem logAndApply_installs (C : Coding) (hst : fs.columnFamilies.lookup cfId = some st)
    (hnodup : (files.map (·.fileNumber)).Nodup)
    (hfresh : ∀ m ∈ files, st.findFile m.fileNumber = none) :
    (fs.logAndApply C { columnFamilyId := cfId, addedFiles := files } .ok).1 = .ok
      ∧ ∃ st', (fs.logAndApply C
          { columnFamilyId := cfId, addedFiles := files }
            .ok).2.columnFamilies.lookup cfId = some st'
        ∧ st.Installs files st' := by
  have hadm := admits_install hst hnodup hfresh
  obtain ⟨hok, storages, heq, hlookup⟩ := logAndApply_applied (C := C) hadm
  have hedited := edited_apply hadm.nodup (hadm.fits st hst)
  obtain ⟨-, hoptions, -⟩ := apply_options
    (c := batch { columnFamilyId := cfId, addedFiles := files }) st
  refine ⟨hok, _, ?_, hoptions, ?_, ?_⟩
  · rw [heq]
    exact (hlookup cfId).trans (by rw [if_pos rfl, hst]; rfl)
  · intro m hm
    obtain ⟨-, hfind⟩ := hedited.added m (mem_filter.2 ⟨hm, by simp⟩)
    obtain ⟨m', hm', hun⟩ := Option.map_eq_some_iff.1 hfind
    exact ⟨m', hm', hun⟩
  · intro n hn
    refine hedited.others n (fun hmem => hn ?_) (fun hmem => nomatch hmem)
    obtain ⟨m, hm, rfl⟩ := mem_map.1 hmem
    exact mem_map_of_mem (mem_filter.1 hm).1

end DiffKV
