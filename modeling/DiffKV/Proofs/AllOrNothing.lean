/-
`LogAndApply` is all or nothing.

`Seal` looks up every file that `Apply` will look up, so once it has
passed no branch of `Apply` fails. What an applied edit changes is then
said in the edit's own terms: the files it adds and does not delete are
there, the files it deletes and does not add are obsolete, and every
other file is where it was, in the state it was in. Only discardable
sizes may differ, which the edit updates for any file.
-/
import DiffKV.Proofs.LogAndApply

namespace DiffKV

open Lib List Table BlobFileSet VersionEdit CFEditCollector Option

variable {n : UInt64} {m : BlobFileMeta} {e : VersionEdit}

-- ==== statements

/-- A file without its discardable size. -/
def BlobFileMeta.uncharged (m : BlobFileMeta) : BlobFileMeta :=
  { m with discardableSize := 0 }

namespace VersionEdit

/-- The files an edit adds and does not delete again. -/
def unpairedAdded (e : VersionEdit) : List BlobFileMeta :=
  e.addedFiles.filter fun m => m.fileNumber ∉ e.deletedFiles.map Prod.fst

/-- The files an edit deletes and does not add itself. -/
def unpairedDeleted (e : VersionEdit) : List (UInt64 × SequenceNumber) :=
  e.deletedFiles.filter fun d => d.1 ∉ e.addedFiles.map (·.fileNumber)

end VersionEdit

/-- What an applied edit makes of a storage. -/
structure BlobStorage.Edited (e : VersionEdit) (st st' : BlobStorage) : Prop where
  added : ∀ m ∈ e.unpairedAdded, st.findFile m.fileNumber = none
    ∧ (st'.findFile m.fileNumber).map BlobFileMeta.uncharged = some m.uncharged
  deleted : ∀ d ∈ e.unpairedDeleted, ∃ m,
    st.findFile d.1 = some m ∧ m.isObsolete = false
      ∧ (st'.findFile d.1).map BlobFileMeta.uncharged
        = some { m.uncharged with state := .kObsolete }
  obsoleteFiles : st'.obsoleteFiles.Perm (st.obsoleteFiles ++ e.unpairedDeleted)
  others : ∀ n, n ∉ e.unpairedAdded.map (·.fileNumber) → n ∉ e.unpairedDeleted.map Prod.fst →
    (st'.findFile n).map BlobFileMeta.uncharged = (st.findFile n).map BlobFileMeta.uncharged

-- ==== what Apply lists

namespace CFEditCollector

theorem obsoleteFiles_applyAdded (c : CFEditCollector) (s : BlobStorage) :
    (c.applyAdded s).obsoleteFiles = s.obsoleteFiles := by
  unfold applyAdded
  generalize c.addedFiles.entries.filter _ = l
  induction l generalizing s with
  | nil => rfl
  | cons m l ih =>
    rw [foldl_cons, ih]
    rfl

/-- The delete loop lists each file it marks, with its sequence. -/
private theorem obsoleteFiles_foldl_mark (l : List (UInt64 × SequenceNumber))
    (s : BlobStorage) (h : ∀ d ∈ l, s.findFile d.1 ≠ none) :
    (l.foldl mark s).obsoleteFiles = s.obsoleteFiles ++ l := by
  induction l generalizing s with
  | nil => exact (append_nil _).symm
  | cons d l ih =>
    have hkept : ∀ x ∈ l, (mark s d).findFile x.1 ≠ none := by
      intro x hx
      have hx := h x (mem_cons_of_mem _ hx)
      rw [findFile_mark]
      split
      · simpa using hx
      · exact hx
    have hone : (mark s d).obsoleteFiles = s.obsoleteFiles ++ [d] := by
      obtain ⟨m, hm⟩ := ne_none_iff_exists'.1 (h d mem_cons_self)
      have hfind : s.files.find d.1 = some m := hm
      have hnum : m.fileNumber = d.1 := key_of_find hm
      unfold mark BlobStorage.markFileObsolete
      rw [hfind]
      show s.obsoleteFiles ++ [(m.fileNumber, d.2)] = _
      rw [hnum]
    rw [foldl_cons, ih _ hkept, hone, append_assoc, singleton_append]

private theorem obsoleteFiles_foldl_applyUpdate (l : List (UInt64 × UInt64)) (s : BlobStorage) :
    (l.foldl applyUpdate s).obsoleteFiles = s.obsoleteFiles := by
  induction l generalizing s with
  | nil => rfl
  | cons a l ih =>
    rw [foldl_cons, ih]
    rfl

/-- What `Apply` of a batch that fits lists as obsolete. -/
theorem obsoleteFiles_apply {c : CFEditCollector} {s : BlobStorage} (h : c.Sealable s) :
    (c.apply s).2.obsoleteFiles = s.obsoleteFiles ++ c.unpaired := by
  have hthere : ∀ d ∈ c.unpaired, (c.applyAdded s).findFile d.1 ≠ none := by
    intro d hd
    obtain ⟨hmem, ha⟩ := mem_filter.1 hd
    obtain ⟨b, hb, -⟩ := h.deleted_live d.1 (contains_of_mem hmem) (by simpa using ha)
    rw [findFile_applyAdded, hb]
    simp
  rw [apply_eq h]
  show (foldl applyUpdate _ _).obsoleteFiles = _
  rw [obsoleteFiles_foldl_applyUpdate, obsoleteFiles_foldl_mark _ _ hthere,
    obsoleteFiles_applyAdded]

end CFEditCollector

-- ==== in the edit's terms

@[simp] theorem CFEditCollector.uncharged_update (c : CFEditCollector)
    (n : UInt64) (m : BlobFileMeta) : (c.update n m).uncharged = m.uncharged := by
  unfold update
  split <;> rfl

namespace VersionEdit

theorem batch_addedFiles (h : e.Nodup) :
    e.batch.addedFiles.entries = e.addedFiles := entries_foldl_emplace e.addedFiles empty h.1

theorem batch_deletedFiles (h : e.Nodup) :
    e.batch.deletedFiles.entries = e.deletedFiles := entries_foldl_emplace e.deletedFiles empty h.2

private theorem batch_contains (n : UInt64) :
    e.batch.addedFiles.contains n = decide (n ∈ e.addedFiles.map (·.fileNumber))
      ∧ e.batch.deletedFiles.contains n = decide (n ∈ e.deletedFiles.map Prod.fst) :=
  ⟨Bool.eq_iff_iff.2 ((batch_added e n).trans decide_eq_true_iff.symm),
    Bool.eq_iff_iff.2 ((batch_deleted e n).trans decide_eq_true_iff.symm)⟩

theorem batch_adds (h : e.Nodup) (hm : m ∈ e.unpairedAdded) :
    e.batch.adds m.fileNumber = some m := by
  obtain ⟨hmem, hdel⟩ := mem_filter.1 hm
  unfold adds
  rw [(batch_contains m.fileNumber).2, if_neg (by simpa using hdel)]
  exact find_of_mem (batch_addedFiles h ▸ hmem)

theorem batch_adds_eq_none (h : e.Nodup)
    (hn : n ∉ e.unpairedAdded.map (·.fileNumber)) : e.batch.adds n = none := by
  unfold adds
  split
  case isTrue => rfl
  case isFalse hdel =>
    cases hf : e.batch.addedFiles.find n with
    | none => rfl
    | some m =>
      obtain rfl := key_of_find hf
      rw [(batch_contains m.fileNumber).2] at hdel
      have hmem : m ∈ e.addedFiles := batch_addedFiles h ▸ mem_of_find hf
      exact absurd (List.mem_map_of_mem (mem_filter.2 ⟨hmem, by simpa using hdel⟩)) hn

theorem batch_deletes : e.batch.deletes n = true ↔ n ∈ e.unpairedDeleted.map Prod.fst := by
  unfold deletes unpairedDeleted
  rw [(batch_contains n).1, (batch_contains n).2]
  constructor
  · intro h
    obtain ⟨hd, ha⟩ : n ∈ e.deletedFiles.map Prod.fst
        ∧ n ∉ e.addedFiles.map (·.fileNumber) := by simpa using h
    obtain ⟨d, hmem, rfl⟩ := mem_map.1 hd
    exact mem_map_of_mem (mem_filter.2 ⟨hmem, decide_eq_true ha⟩)
  · intro h
    obtain ⟨d, hd, rfl⟩ := mem_map.1 h
    obtain ⟨hd, ha⟩ := mem_filter.1 hd
    rw [Bool.and_eq_true, Bool.not_eq_true']
    exact ⟨decide_eq_true (mem_map_of_mem hd), decide_eq_false (of_decide_eq_true ha)⟩

/-- An applied batch of one edit. -/
theorem edited_apply {st : BlobStorage} (h : e.Nodup)
    (hfit : e.batch.Sealable st) : st.Edited e (e.batch.apply st).2 := by
  obtain ⟨-, hfind⟩ := apply_of_sealable hfit
  have hun : ∀ n, ((e.batch.apply st).2.findFile n).map BlobFileMeta.uncharged
      = ((if e.batch.deletes n then
            (st.findFile n).map (·.fileStateTransit .kDelete)
          else st.findFile n).or (e.batch.adds n)).map
        BlobFileMeta.uncharged := by
    intro n
    rw [hfind, Option.map_map]
    congr 1
    exact funext fun m => uncharged_update _ n m
  refine ⟨fun m hm => ?_, fun d hd => ?_, ?_, fun n ha hd => ?_⟩
  · have hfresh : st.findFile m.fileNumber = none :=
      hfit.added_fresh _ ((batch_added e _).2 (mem_map_of_mem (mem_filter.1 hm).1))
    refine ⟨hfresh, ?_⟩
    rw [hun, hfresh, batch_adds h hm]
    split <;> rfl
  · obtain ⟨hmem, ha⟩ := mem_filter.1 hd
    have hdel := batch_deletes.2 (mem_map_of_mem hd)
    obtain ⟨m, hm, hlive⟩ := hfit.deleted_live d.1 ((batch_deleted e _).2 (mem_map_of_mem hmem))
      (by simpa [(batch_contains d.1).1] using ha)
    refine ⟨m, hm, hlive, ?_⟩
    rw [hun, if_pos hdel, hm]
    rfl
  · rw [obsoleteFiles_apply hfit]
    unfold unpaired unpairedDeleted
    rw [batch_deletedFiles h]
    refine List.Perm.append_left _ (.of_eq ?_)
    congr 1
    funext d
    rw [(batch_contains d.1).1]
    exact (decide_not ..).symm
  · rw [hun, batch_adds_eq_none h ha,
      if_neg (fun hdel => hd (batch_deletes.1 hdel)), or_none]

end VersionEdit

-- ==== the call

/-- **`LogAndApply` is all or nothing.** An edit that `AddEdit` or `Seal`
refuses leaves the manifest and every storage as they were. One they
pass, written and synced, is applied without an error to the storage of
its column family, and to no other. -/
theorem logAndApply_all_or_nothing (C : Coding) (fs : BlobFileSet)
    (e : VersionEdit) {st : BlobStorage}
    (hst : fs.columnFamilies.lookup e.columnFamilyId = some st) :
    (fs.admits e = false → ∀ io, (fs.logAndApply C e io).1.isOk = false
        ∧ (fs.logAndApply C e io).2 = fs)
      ∧ (fs.admits e = true → (fs.logAndApply C e .ok).1 = .ok
        ∧ (∃ st', (fs.logAndApply C e .ok).2.columnFamilies.lookup e.columnFamilyId = some st'
            ∧ st.Edited e st')
        ∧ ∀ i ≠ e.columnFamilyId,
          (fs.logAndApply C e .ok).2.columnFamilies.lookup i = fs.columnFamilies.lookup i) := by
  refine ⟨fun h io => logAndApply_refused h, fun h => ?_⟩
  have hadm := (admits_iff fs e).1 h
  obtain ⟨hok, storages, heq, hlookup⟩ := logAndApply_applied (C := C) hadm
  refine ⟨hok, ⟨(e.batch.apply st).2, ?_, ?_⟩, fun i hi => ?_⟩
  · rw [heq]
    exact (hlookup _).trans (by rw [if_pos rfl, hst]; rfl)
  · exact edited_apply hadm.nodup (hadm.fits st hst)
  · rw [heq]
    exact (hlookup i).trans (if_neg hi)

-- ==== edits that add no file

namespace BlobFileSet

variable {C : Coding} {fs : BlobFileSet} {i : UInt32}

/-- The checks, of an edit that adds nothing: it names no file twice, and
the files it deletes are live ones of its column family, if that is
open. -/
theorem admits_deletion_iff (hadd : e.addedFiles = []) :
    fs.Admits e ↔ (e.deletedFiles.map Prod.fst).Nodup
      ∧ ∀ st, fs.columnFamilies.lookup e.columnFamilyId = some st →
        ∀ n ∈ e.deletedFiles.map Prod.fst, ∃ m, st.findFile n = some m ∧ m.isObsolete = false := by
  have hnone : ∀ n, e.batch.addedFiles.contains n = false := by
    intro n
    rw [← Bool.not_eq_true, batch_added, hadd]
    exact not_mem_nil
  constructor
  · intro h
    refine ⟨h.nodup.2, fun st hst n hn => ?_⟩
    exact (h.fits st hst).deleted_live n ((batch_deleted e n).2 hn) (hnone n)
  · rintro ⟨hnodup, hlive⟩
    refine ⟨⟨?_, hnodup⟩, fun st hst => ⟨fun n hn => ?_, fun n hn _ => ?_⟩⟩
    · rw [hadd]
      exact nodup_nil
    · rw [hnone n] at hn
      cases hn
    · exact hlive st hst n ((batch_deleted e n).1 hn)

theorem live_eq_some_iff : fs.live i n = some m ↔ fs.file i n = some m ∧ m.isObsolete = false := by
  unfold live
  simp

theorem live_isSome_iff :
    (fs.live i n).isSome = true ↔ ∃ m, fs.file i n = some m ∧ m.isObsolete = false := by
  rw [isSome_iff_exists]
  exact exists_congr fun m => live_eq_some_iff

/-- The same, of the files of the file set. -/
theorem admits_deletion_live_iff (hadd : e.addedFiles = []) :
    fs.Admits e ↔ (e.deletedFiles.map Prod.fst).Nodup
      ∧ ((fs.columnFamilies.lookup e.columnFamilyId).isSome = true →
        ∀ n ∈ e.deletedFiles.map Prod.fst, (fs.live e.columnFamilyId n).isSome = true) := by
  rw [admits_deletion_iff hadd]
  simp only [live_isSome_iff]
  unfold file
  cases fs.columnFamilies.lookup e.columnFamilyId with
  | none => simp
  | some st => simp

/-- What such an edit makes of a file of its column family. -/
def edited (e : VersionEdit) (n : UInt64) (m : BlobFileMeta) :
    BlobFileMeta :=
  (if n ∈ e.deletedFiles.map Prod.fst then m.fileStateTransit .kDelete
    else m).addDiscardableSize ((e.updatedDiscardableSize.lookup n).getD 0)

/-- What an admitted one leaves of every file. -/
theorem file_deletion (hadd : e.addedFiles = []) (h : fs.Admits e) (i : UInt32) (n : UInt64) :
    (fs.logAndApply C e .ok).2.file i n
      = if i = e.columnFamilyId then (fs.file i n).map (edited e n) else fs.file i n := by
  obtain ⟨-, storages, heq, hlook⟩ := logAndApply_applied (C := C) h
  unfold file
  rw [heq]
  rw [hlook i]
  split
  case isFalse => rfl
  case isTrue hi =>
    subst hi
    cases hst : fs.columnFamilies.lookup e.columnFamilyId with
    | none => rfl
    | some st =>
      have hadds : e.batch.adds n = none := batch_adds_eq_none h.nodup (by
          unfold unpairedAdded
          rw [hadd]
          exact not_mem_nil)
      have hdeletes : e.batch.deletes n = true ↔ n ∈ e.deletedFiles.map Prod.fst := by
        rw [batch_deletes, unpairedDeleted, hadd]
        simp
      show (e.batch.apply st).2.findFile n = (st.findFile n).map _
      rw [(apply_of_sealable (h.fits st hst)).2 n, hadds, or_none]
      have hedited : ∀ m, e.batch.update n
          (if e.batch.deletes n then m.fileStateTransit .kDelete else m) = edited e n m := by
        intro m
        rw [batch_update]
        congr 1
        exact if_congr hdeletes rfl rfl
      rw [← funext hedited]
      split
      · exact map_map ..
      · rfl

/-- A refused or unwritten edit changes no file. -/
theorem file_of_not_applied {io : ManifestIO}
    (h : ¬ (fs.Admits e ∧ io = .ok)) (i : UInt32) (n : UInt64) :
    (fs.logAndApply C e io).2.file i n = fs.file i n := by
  unfold file
  rcases lookup_logAndApply_cases (C := C) fs e io i with
    hsame | ⟨st, -, hadm, hio, -⟩
  · rw [hsame]
  · exact absurd ⟨hadm, hio⟩ h

end BlobFileSet

/-- A column family with file 1. -/
def holdsFileOne : BlobFileSet where
  columnFamilies := Table.empty.emplace (0,
    ({ dbOptions := {}, cfOptions := {} } : BlobStorage).addBlobFile
      { fileNumber := 1, fileSize := 100 })

/-- File 2 is added, file 1 deleted, and file 3 both. -/
def replaceFile : VersionEdit where
  addedFiles := [{ fileNumber := 2 }, { fileNumber := 3 }]
  deletedFiles := [(1, 9), (3, 9)]

theorem logAndApply_replaceFile :
    ∃ st st', holdsFileOne.columnFamilies.lookup 0 = some st
      ∧ (holdsFileOne.logAndApply base128 replaceFile .ok).2.columnFamilies.lookup 0 = some st'
      ∧ st.Edited replaceFile st' := by
  obtain ⟨st, hst⟩ := isSome_iff_exists.1
    (show (holdsFileOne.columnFamilies.lookup 0).isSome = true by decide +kernel)
  obtain ⟨-, ⟨st', hst', hedited⟩, -⟩ := (logAndApply_all_or_nothing base128
    holdsFileOne replaceFile hst).2 (by decide +kernel)
  exact ⟨st, st', hst, hst', hedited⟩

end DiffKV
