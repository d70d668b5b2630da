/-
What a new process finds of a database in order: its live files with
their records, and nothing that was still being built.
-/
import DiffKV.Open
import DiffKV.Proofs.Corruption
import DiffKV.Proofs.Effects

namespace DiffKV

open Lib BlobFileSet VersionEdit BlobStorage Table CFEditCollector Option

variable {C : Coding} {es : List VersionEdit} {i : UInt32}
  {fs₀ fs : BlobFileSet} {st : BlobStorage} {io : OpenIO}

variable {cfg : Config} {db : Db} {inputs hidden : List UInt64}

/-- A storage that `Recover` has filled: it keeps the options it was
constructed with, no file is being built, and what it lists as obsolete
is not there. -/
structure BlobStorage.Filled (st₀ st : BlobStorage) : Prop where
  dbOptions : st.dbOptions = st₀.dbOptions
  cfOptions : st.cfOptions = st₀.cfOptions
  building : ∀ n, st.findBuildingFile n = false
  dead : ∀ d ∈ st.obsoleteFiles, st.findFile d.1 = none

/-- The file set is just constructed: nothing is being built and nothing
obsolete. -/
def BlobFileSet.Constructed (fs : BlobFileSet) : Prop :=
  ∀ i st, fs.columnFamilies.lookup i = some st →
    (∀ n, st.findBuildingFile n = false) ∧ st.obsoleteFiles = []

/-- The storages the middle of `Recover` leaves. -/
theorem Recovered.filled {fs' : BlobFileSet} (h : Recovered fs₀ fs' es)
    (h₀ : fs₀.Constructed) (hst : fs'.columnFamilies.lookup i = some st) :
    ∃ st₀, fs₀.columnFamilies.lookup i = some st₀ ∧ st₀.Filled st := by
  obtain ⟨st₀, hst₀, hcase⟩ := h.applied i st hst
  obtain ⟨hbuild₀, hobs₀⟩ := h₀ i st₀ hst₀
  refine ⟨st₀, hst₀, ?_⟩
  rcases hcase with rfl | heq
  · exact ⟨rfl, rfl, hbuild₀, fun d hd => by rw [hobs₀] at hd; cases hd⟩
  · obtain ⟨hdb, hcf, -⟩ := apply_options (c := (collected es).cf i) st₀
    refine ⟨?_, ?_, fun n => ?_, fun d hd => ?_⟩
    · rw [heq]
      exact hdb
    · rw [heq]
      exact hcf
    · rw [← Bool.not_eq_true]
      intro hb
      rw [heq] at hb
      have hbuilt := (building_apply _ n).1 hb
      rw [hbuild₀] at hbuilt
      cases hbuilt
    · -- a deleted file is not live, so it is not recovered
      rw [heq] at hd
      rcases mem_obsoleteFiles_apply hd with hd | hd
      · rw [hobs₀] at hd
        cases hd
      · have hdel : ((collected es).cf i).deletedFiles.contains d.1 = true := contains_of_mem hd
        rw [h.files i st hst d.1, adds, hdel, if_pos rfl]
        rfl

theorem Tracks.filled (h : Tracks C fs es) (h₀ : fs.Reopens fs₀)
    (hst : (fs₀.recoverEdits C (LogReader.intact fs.records)).2.columnFamilies.lookup i = some st) :
    ∃ st₀, fs₀.columnFamilies.lookup i = some st₀ ∧ st₀.Filled st := by
  refine (h.recovered h₀).2.filled (fun i st₀ hst₀ => ?_) hst
  rw [h₀.constructed i st₀ hst₀]
  exact ⟨fun _ => rfl, rfl⟩

/-- A file as `MarkAllFilesForGC` leaves it. -/
def restarted (m : BlobFileMeta) : BlobFileMeta :=
  { m with gcMark := true }.fileStateTransit .kDbRestart

theorem findFile_marked (st : BlobStorage) (n : UInt64) :
    st.markAllFilesForGC.computeGCScore.findFile n = (st.findFile n).map restarted :=
  find_map st.files restarted (fun _ => rfl) n

/-- The storages at the end of `Recover`. -/
def atStart (st : BlobStorage) : BlobStorage :=
  (st.markAllFilesForGC.computeGCScore.getObsoleteFiles kMaxSequenceNumber).2

theorem findFile_atStart {st₀ : BlobStorage} (h : st₀.Filled st) (n : UInt64) :
    (atStart st).findFile n = (st.findFile n).map restarted := by
  unfold atStart
  rw [findFile_getObsoleteFiles]
  split
  case isTrue hn =>
    obtain ⟨q, hq, -⟩ := mem_getObsoleteFiles hn
    rw [h.dead (n, q) hq]
    rfl
  case isFalse => exact findFile_marked st n

private theorem purged_atStart (st : BlobStorage) :
    st.markAllFilesForGC.computeGCScore.Purged kMaxSequenceNumber (atStart st) :=
  purged_getObsoleteFiles _ _

/-- The file set with its files marked for GC and the number of the new
manifest taken. -/
def BlobFileSet.started (fs : BlobFileSet) : BlobFileSet :=
  { fs with
    columnFamilies := fs.columnFamilies.mapVal fun st =>
      st.markAllFilesForGC.computeGCScore
    nextFileNumber := fs.nextFileNumber + 1 }

/-- The file set without its obsolete files. -/
def BlobFileSet.swept (fs : BlobFileSet) : BlobFileSet :=
  { fs with
    columnFamilies := fs.columnFamilies.mapVal fun st =>
      (st.getObsoleteFiles kMaxSequenceNumber).2 }

/-- The end of `Recover`, once the new manifest is written. -/
theorem recoverFinish_of_isOk (hok : (fs.started.openManifest C io fs.nextFileNumber).1.isOk = true)
    (children : List (UInt64 × FileType)) :
    fs.recoverFinish C io children
      = (.ok, (fs.started.openManifest C io fs.nextFileNumber).2.swept,
        purgedAtStart (fs.nextFileNumber
          :: (fs.started.openManifest C io fs.nextFileNumber).2.swept.aliveFiles) children) := by
  have hneg : ¬ (!(fs.started.openManifest C io fs.nextFileNumber).1.isOk) = true := by simp [hok]
  exact if_neg hneg

theorem openManifest_columnFamilies (io : OpenIO) (fs : BlobFileSet) (number : UInt64) :
    (fs.openManifest C io number).2.columnFamilies = fs.columnFamilies := by
  unfold openManifest
  by_cases hnew : (!io.newWritableFile.isOk) = true
  · rw [if_pos hnew]
  · rw [if_neg hnew]
    dsimp only
    generalize (if (if (fs.writeSnapshot C io).1.isOk = true then io.sync
      else (fs.writeSnapshot C io).1).isOk = true then _ else _) = s
    split
    · rfl
    · rfl

theorem lookup_swept (fs : BlobFileSet) (i : UInt32) :
    (fs.started.openManifest C io fs.nextFileNumber).2.swept.columnFamilies.lookup i
      = (fs.columnFamilies.lookup i).map atStart := by
  unfold swept
  rw [openManifest_columnFamilies, lookup_mapVal]
  unfold started
  rw [lookup_mapVal, map_map]
  rfl

private theorem recoverFinish_eq (C : Coding)
    (children : List (UInt64 × FileType)) (fs : BlobFileSet) :
    ∃ fs', fs.recoverFinish C {} children
        = (.ok, fs', purgedAtStart (fs.nextFileNumber :: fs'.aliveFiles) children)
      ∧ (∀ i, fs'.columnFamilies.lookup i = (fs.columnFamilies.lookup i).map atStart)
      ∧ ∃ fs₁ : BlobFileSet, fs'.manifest = (fs₁.snapshotted C fs.nextFileNumber).manifest
        ∧ fs'.nextFileNumber = fs₁.nextFileNumber
        ∧ ∀ i, fs₁.columnFamilies.lookup i
          = (fs.columnFamilies.lookup i).map fun st => st.markAllFilesForGC.computeGCScore := by
  have hok : (fs.started.openManifest C {} fs.nextFileNumber).1.isOk = true :=
    (openManifest_isOk {} fs.started fs.nextFileNumber).2 ⟨rfl, fun _ _ => rfl, rfl, rfl⟩
  have heq := fs.started.snapshotted_eq (C := C) fs.nextFileNumber
  unfold snapshotted at heq
  refine ⟨_, recoverFinish_of_isOk hok children, lookup_swept fs,
    fs.started, rfl, ?_, fun i => lookup_mapVal ..⟩
  show (fs.started.openManifest C {} fs.nextFileNumber).2.nextFileNumber = _
  rw [heq]

theorem file_eq_none_of_not_alive {n : UInt64} (hn : n ∉ fs.aliveFiles) : fs.file i n = none := by
  cases hf : fs.file i n with
  | none => rfl
  | some m =>
    obtain ⟨st, hst, hm⟩ := bind_eq_some_iff.1 hf
    exact absurd (List.mem_flatMap.2 ⟨(i, st), mem_entries_iff.2 hst,
      List.mem_map.2 ⟨m, mem_of_find hm, key_of_find hm⟩⟩) hn

/-- What `Recover` makes of the manifest `fs` has written, in a file set
constructed as `fs₀`. -/
structure BlobFileSet.RecoveredAs (C : Coding) (fs fs₀ fs' : BlobFileSet) : Prop where
  opened : ∀ i, (fs'.columnFamilies.lookup i).isSome = (fs₀.columnFamilies.lookup i).isSome
  options : ∀ i st', fs'.columnFamilies.lookup i = some st' →
    ∃ st₀, fs₀.columnFamilies.lookup i = some st₀
      ∧ st'.dbOptions = st₀.dbOptions ∧ st'.cfOptions = st₀.cfOptions
  /-- the files that were live, with what is persistent of them -/
  files : ∀ i, (fs₀.columnFamilies.lookup i).isSome = true → ∀ n,
    (fs'.file i n).map BlobFileMeta.persistent = (fs.live i n).map BlobFileMeta.persistent
  live : ∀ i n, fs'.live i n = fs'.file i n
  building : ∀ i n, fs'.building i n = false
  logged : ∃ es, Tracks C fs' es

/-- `Recover` from the manifest as it was written. It deletes no file
that is live in a column family it opens. -/
theorem Tracks.recover (h : Tracks C fs es) (h₀ : fs.Reopens fs₀)
    (children : List (UInt64 × FileType)) :
    ∃ fs' deleted, fs₀.recover C {
          current := .ok [10], reader := .intact fs.records, children }
        = (.ok, fs', deleted)
      ∧ fs.RecoveredAs C fs₀ fs'
      ∧ ∀ d ∈ deleted, ∀ i, fs'.file i d.1 = none := by
  obtain ⟨hok, hrec⟩ := h.recovered h₀
  obtain ⟨fs', hfin, hlookup, fs₁, hmanifest, hnext, hlookup₁⟩ :=
    recoverFinish_eq C children (fs₀.recoverEdits C (.intact fs.records)).2
  -- the files of a storage, from the middle of `Recover` to its end
  have hfile : ∀ i n, fs'.file i n
      = ((fs₀.recoverEdits C (.intact fs.records)).2.file i n).map restarted := by
    intro i n
    unfold file
    rw [hlookup]
    cases hst : (fs₀.recoverEdits C (.intact fs.records)).2.columnFamilies.lookup i with
    | none => rfl
    | some st =>
      obtain ⟨st₀, -, hfill⟩ := h.filled h₀ hst
      exact findFile_atStart hfill n
  have hopened : ∀ i, (fs'.columnFamilies.lookup i).isSome
      = (fs₀.columnFamilies.lookup i).isSome := by
    intro i
    rw [hlookup, isSome_map, hrec.opened]
  have hlive : ∀ i n, fs'.live i n = fs'.file i n := by
    intro i n
    unfold BlobFileSet.live
    rw [hfile]
    cases (fs₀.recoverEdits C (.intact fs.records)).2.file i n <;> rfl
  have hfiles : ∀ i, (fs₀.columnFamilies.lookup i).isSome = true → ∀ n,
      (fs'.file i n).map BlobFileMeta.persistent = (fs.live i n).map BlobFileMeta.persistent := by
    intro i hi n
    rw [hfile, h.recoverEdits h₀ hi n, map_map, map_map, map_map]
    cases fs.live i n with
    | none => rfl
    | some m =>
      have hkept : (((replayed es).cf i).update n m.persistent).persistent = m.persistent := by simp
      exact congrArg some hkept
  refine ⟨fs', purgedAtStart ((fs₀.recoverEdits C
    (.intact fs.records)).2.nextFileNumber :: fs'.aliveFiles) children,
    ?_, ⟨hopened, ?_, hfiles, hlive, ?_, ?_⟩, ?_⟩
  · unfold BlobFileSet.recover
    dsimp only
    rw [if_neg (by decide), if_neg (by decide), hok, if_neg (by decide)]
    exact hfin
  · intro i st' hst'
    rw [hlookup] at hst'
    obtain ⟨st, hst, rfl⟩ := map_eq_some_iff.1 hst'
    obtain ⟨st₀, hst₀, hfill⟩ := h.filled h₀ hst
    have hp := purged_atStart st
    exact ⟨st₀, hst₀, hp.dbOptions.trans hfill.dbOptions, hp.cfOptions.trans hfill.cfOptions⟩
  · intro i n
    unfold building
    rw [hlookup]
    cases hst : (fs₀.recoverEdits C (.intact fs.records)).2.columnFamilies.lookup i with
    | none => rfl
    | some st =>
      obtain ⟨st₀, -, hfill⟩ := h.filled h₀ hst
      show (atStart st).buildingFiles.contains n = false
      rw [(purged_atStart st).building]
      exact hfill.building n
  · -- the manifest is the snapshot, and purging removes no live file
    refine ⟨_, (tracks_snapshot fs₁ _).transfer hmanifest ?_ ?_ ?_⟩
    · rw [snapshotted_eq]
      exact UInt64.le_of_eq hnext.symm
    · intro i hi
      rw [snapshotted_eq]
      rw [hlookup₁, isSome_map]
      rwa [hlookup, isSome_map] at hi
    · intro i hi n
      have hsnap : (fs₁.snapshotted C (fs₀.recoverEdits C
          (.intact fs.records)).2.nextFileNumber).live i n = fs₁.live i n := by
        rw [snapshotted_eq]
        rfl
      have hfile₁ : fs₁.file i n = fs'.file i n := by
        rw [hfile]
        unfold file
        rw [hlookup₁]
        cases hst : (fs₀.recoverEdits C (.intact fs.records)).2.columnFamilies.lookup i with
        | none => rfl
        | some st => exact findFile_marked st n
      rw [hsnap]
      unfold BlobFileSet.live
      rw [hfile₁]
  · intro d hd i
    obtain ⟨-, hd⟩ := List.mem_filter.1 hd
    have hnot : d.1 ∉ fs'.aliveFiles := fun hmem => by
      simp [hmem] at hd
    exact file_eq_none_of_not_alive hnot

-- ==== the database

/-- What a new process makes of the state an old one left: the writes of
the base DB, the live files, and their records. -/
structure Db.Reopened (cfg : Config) (db db' : Db) : Prop where
  lsm : db'.lsm = db.lsm
  opened : (db'.storage cfg).isSome = true
  installed : ∀ n, db'.installed cfg n = db.live cfg n
  building : ∀ n, db'.building cfg n = false
  record : ∀ i, db.live cfg i.fileNumber = true → db'.record i = db.record i

/-- Opening what a database in order has left. -/
theorem Filing.reopen (h : Filing cfg db inputs hidden) :
    (db.reopen cfg).1 = .ok ∧ db.Reopened cfg (db.reopen cfg).2 := by
  obtain ⟨es, hes, -⟩ := h.logged
  obtain ⟨st, hst, -⟩ := h.opened
  obtain ⟨fs', deleted, heq, hrec, hdel⟩ := hes.recover db.fileSet.reopens_reopened
    (db.disk.entries.map fun p => (p.1, .kBlobFile))
  have hopen : (db.fileSet.reopened.columnFamilies.lookup cfg.cfId).isSome = true := by
    rw [lookup_reopened, isSome_map]
    exact congrArg isSome hst
  have hfile : ∀ n, (fs'.file cfg.cfId n).isSome = (db.fileSet.live cfg.cfId n).isSome := by
    intro n
    have hpersist := congrArg isSome (hrec.files cfg.cfId hopen n)
    rwa [isSome_map, isSome_map] at hpersist
  have hreopen : db.reopen cfg = (.ok, {
      lsm := db.lsm
      seq := db.seq
      fileSet := fs'
      disk := (deleted.map Prod.fst).foldl erase db.disk
      shards := Db.openShards cfg }) := by
    unfold Db.reopen
    rw [show db.fileSet.reopened.recover cfg.coding db.recoverIO = _ from heq]
  rw [hreopen]
  refine ⟨rfl, rfl, (hrec.opened cfg.cfId).trans hopen, hfile,
    fun n => hrec.building cfg.cfId n, fun i hi => ?_⟩
  have hkept : i.fileNumber ∉ deleted.map Prod.fst := by
    intro hmem
    obtain ⟨d, hd, hn⟩ := List.mem_map.1 hmem
    have hdead := hdel d hd cfg.cfId
    rw [hn] at hdead
    have hi : (db.fileSet.live cfg.cfId i.fileNumber).isSome = true := hi
    rw [← hfile, hdead] at hi
    cases hi
  unfold Db.record
  rw [lookup_foldl_erase, if_neg hkept]

end DiffKV
