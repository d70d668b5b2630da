/-
The numbers of blob files: no two files ever share one, and a file that
is still being written is known to nobody but its writer.

`Filing` holds of every state of the machine, whatever the schedule. It
speaks of the file set, the directory and the foreground builders of one
state; the files that GC jobs read (`inputs`) and those they write and
have not installed (`hidden`) are parameters, so that a step of one job
can be followed while the others stand still.

The manifest is part of it: the records are tracked (`Tracks`), and the
number of a file being written is in none of them.
-/
import DiffKV.System
import DiffKV.Proofs.Files
import Mathlib.Data.List.Perm.Subperm

namespace DiffKV

open Lib List BlobStorage Table CFEditCollector Option BlobFileSet

variable {cfg : Config} {db db' : Db} {n number : UInt64}
  {inputs hidden' hidden gone added : List UInt64} {fs : BlobFileSet}
  {created : Bool} {b : Nat} {e : VersionEdit} {shards : List Shard}

-- ==== replacing one of a list

section

variable {α β : Type*} {l : List α} {x : α} (f : α → List β)

theorem perm_flatMap_of_getElem? (h : l[b]? = some x) :
    (l.flatMap f).Perm (f x ++ (l.eraseIdx b).flatMap f) := by
  obtain ⟨hb, rfl⟩ := List.getElem?_eq_some_iff.1 h
  exact ((getElem_cons_eraseIdx_perm hb).symm.flatMap_right f)

theorem perm_flatMap_set (h : l[b]? = some x) (y : α) :
    ((l.set b y).flatMap f).Perm (f y ++ (l.eraseIdx b).flatMap f) := by
  obtain ⟨hb, rfl⟩ := List.getElem?_eq_some_iff.1 h
  exact (set_perm_cons_eraseIdx hb y).flatMap_right f

end

-- ==== the invariant

/-- The files of a foreground builder. -/
def Shard.numbers (s : Shard) : List UInt64 :=
  s.handle.toList ++ s.finished.map (·.fileNumber)

namespace Db

/-- The files of the foreground builders. -/
def shardNumbers (db : Db) : List UInt64 :=
  db.shards.flatMap Shard.numbers

/-- The number is listed as that of an obsolete file. -/
def Listed (db : Db) (n : UInt64) : Prop :=
  ∃ q, (n, q) ∈ db.fileSet.obsoleteEntries

end Db

/-- Where a file number occurs. -/
inductive Db.Known (cfg : Config) (db : Db) (inputs hidden : List UInt64) (n : UInt64) : Prop where
  | installed (h : db.installed cfg n = true)
  | building (h : db.building cfg n = true)
  | listed (h : db.Listed n)
  | disk (h : (db.disk.lookup n).isSome = true)
  | input (h : n ∈ inputs)
  | hidden (h : n ∈ hidden)

/-- What the other column families list as obsolete is so. -/
def BlobFileSet.OthersDead (fs : BlobFileSet) (cfId : UInt32) : Prop :=
  ∀ {i st n q}, i ≠ cfId → fs.columnFamilies.lookup i = some st →
    (n, q) ∈ st.obsoleteFiles → fs.live i n = none

/-- The bookkeeping of blob files. -/
structure Filing (cfg : Config) (db : Db) (inputs hidden : List UInt64) : Prop where
  opened : ∃ st, db.storage cfg = some st ∧ st.dbOptions = cfg.dbOptions
    ∧ st.destroyed = false ∧ st.Apart
  /-- every number in use comes from the counter -/
  known : ∀ {n}, db.Known cfg inputs hidden n → n < db.fileSet.nextFileNumber
  /-- a file being written is not installed, nor ever was -/
  building_new : ∀ {n}, db.building cfg n = true →
    db.installed cfg n = false ∧ ¬ db.Listed n ∧ n ∉ inputs
  hidden_new : ∀ {n}, n ∈ hidden → db.installed cfg n = false
    ∧ ¬ db.Listed n ∧ n ∉ inputs ∧ db.building cfg n = false
  shards_building : ∀ {n}, n ∈ db.shardNumbers → db.building cfg n = true
  shards_nodup : db.shardNumbers.Nodup
  hidden_nodup : hidden.Nodup
  finished_new : ∀ {s}, s ∈ db.shards → ∀ {m}, m ∈ s.finished → m.isObsolete = false
  listed_dead : ∀ {n}, db.Listed n → db.live cfg n = false
  others_dead : db.fileSet.OthersDead cfg.cfId
  logged : ∃ es, Tracks cfg.coding db.fileSet es
    ∧ ∀ e ∈ es, ∀ n, e.Adds cfg.cfId n → n < db.fileSet.nextFileNumber
      ∧ db.building cfg n = false ∧ n ∉ hidden

-- ==== nothing taken away

/-- The record a blob index points at. -/
def Db.record (db : Db) (i : BlobIndex) : Option BlobRecord :=
  (db.disk.lookup i.fileNumber).bind (·.find i.blobHandle)

/-- The second state differs in the file set, the directory and the
builders only, and every file and record of the first is there. -/
structure Db.Extends (cfg : Config) (db db' : Db) : Prop where
  lsm : db'.lsm = db.lsm
  seq : db'.seq = db.seq
  puts : db'.puts = db.puts
  jobs : db'.jobs = db.jobs
  snapshots : db'.snapshots = db.snapshots
  purges : db'.purges = db.purges
  installed : ∀ {n}, db.installed cfg n = true → db'.installed cfg n = true
  live : ∀ {n}, db.live cfg n = true → db'.live cfg n = true
  building : ∀ {n}, db.building cfg n = true → db'.building cfg n = true ∨ db'.live cfg n = true
  obsolete : db'.fileSet.obsoleteEntries ⊆ db.fileSet.obsoleteEntries
  record : ∀ {i r}, db.record i = some r → db'.record i = some r

namespace Db

variable {db'' : Db}

theorem Extends.refl (cfg : Config) (db : Db) : db.Extends cfg db :=
  ⟨rfl, rfl, rfl, rfl, rfl, rfl, fun h => h, fun h => h, fun h => .inl h, fun _ h => h, fun h => h⟩

theorem Extends.trans (h : db.Extends cfg db') (h' : db'.Extends cfg db'') :
    db.Extends cfg db'' where
  lsm := h'.lsm.trans h.lsm
  seq := h'.seq.trans h.seq
  puts := h'.puts.trans h.puts
  jobs := h'.jobs.trans h.jobs
  snapshots := h'.snapshots.trans h.snapshots
  purges := h'.purges.trans h.purges
  installed hn := h'.installed (h.installed hn)
  live hn := h'.live (h.live hn)
  building hn := by
    rcases h.building hn with hn | hn
    · exact h'.building hn
    · exact .inr (h'.live hn)
  obsolete := fun _ hd => h.obsolete (h'.obsolete hd)
  record hr := h'.record (h.record hr)

theorem shards_newFile {result : Except Status UInt64}
    (h : db.newFile created = some (result, db')) : db'.shards = db.shards := by
  unfold newFile at h
  dsimp only at h
  split at h
  · split at h <;> cases h <;> rfl
  · cases h

end Db

namespace Filing

variable (h : Filing cfg db inputs hidden)
include h

/-- Fewer files are read, fewer are hidden. -/
theorem mono {inputs' : List UInt64} (hin : inputs' ⊆ inputs)
    (hhid : hidden'.Subperm hidden) : Filing cfg db inputs' hidden' where
  opened := h.opened
  known := by
    intro n hn
    refine h.known ?_
    cases hn with
    | installed hn => exact .installed hn
    | building hn => exact .building hn
    | listed hn => exact .listed hn
    | disk hn => exact .disk hn
    | input hn => exact .input (hin hn)
    | hidden hn => exact .hidden (hhid.subset hn)
  building_new := by
    intro n hn
    obtain ⟨h1, h2, h3⟩ := h.building_new hn
    exact ⟨h1, h2, fun hi => h3 (hin hi)⟩
  hidden_new := by
    intro n hn
    obtain ⟨h1, h2, h3, h4⟩ := h.hidden_new (hhid.subset hn)
    exact ⟨h1, h2, fun hi => h3 (hin hi), h4⟩
  shards_building := h.shards_building
  shards_nodup := h.shards_nodup
  hidden_nodup := by
    obtain ⟨l, hl, hsub⟩ := hhid
    exact hl.nodup_iff.1 (h.hidden_nodup.sublist hsub)
  finished_new := h.finished_new
  listed_dead := h.listed_dead
  others_dead := h.others_dead
  logged := by
    obtain ⟨es, ht, hes⟩ := h.logged
    refine ⟨es, ht, fun e he n hn => ?_⟩
    obtain ⟨h1, h2, h3⟩ := hes e he n hn
    exact ⟨h1, h2, fun hm => h3 (hhid.subset hm)⟩

/-- Only the file set, the directory and the builders matter, and of the
directory only which files are there. -/
theorem congr (hfs : db'.fileSet = db.fileSet) (hsh : db'.shards = db.shards)
    (hdisk : ∀ n, (db'.disk.lookup n).isSome = true →
      (db.disk.lookup n).isSome = true) : Filing cfg db' inputs hidden := by
  obtain ⟨lsm, seq, fs, disk, shards, puts, jobs, snaps, purges⟩ := db
  subst hfs hsh
  refine ⟨h.opened, ?_, h.building_new, h.hidden_new, h.shards_building,
    h.shards_nodup, h.hidden_nodup, h.finished_new, h.listed_dead, h.others_dead, h.logged⟩
  intro n hn
  refine h.known ?_
  cases hn with
  | installed hn => exact .installed hn
  | building hn => exact .building hn
  | listed hn => exact .listed hn
  | disk hn => exact .disk (hdisk n hn)
  | input hn => exact .input hn
  | hidden hn => exact .hidden hn

-- ==== new files

/-- A number from the counter was in no use. -/
theorem next_unknown : ¬ db.Known cfg inputs hidden db.fileSet.nextFileNumber :=
  fun hk => UInt64.lt_irrefl _ (h.known hk)

/-- `NewFile`: the new file is hidden. -/
theorem newFile (hnew : db.newFile created = some (.ok number, db')) :
    Filing cfg db' inputs (number :: hidden) := by
  unfold Db.newFile newFileNumber at hnew
  dsimp only at hnew
  split at hnew
  case isFalse => cases hnew
  case isTrue hlt =>
    split at hnew
    case isFalse => cases hnew
    case isTrue =>
      cases hnew
      have hun := h.next_unknown
      have hle : ∀ {n}, n < db.fileSet.nextFileNumber →
          n < db.fileSet.nextFileNumber + 1 := fun hn => UInt64.lt_trans hn hlt
      refine ⟨h.opened, ?_, h.building_new, ?_, h.shards_building,
        h.shards_nodup, ?_, h.finished_new, h.listed_dead, h.others_dead, ?_⟩
      · intro n hn
        cases hn with
        | installed hn => exact hle (h.known (.installed hn))
        | building hn => exact hle (h.known (.building hn))
        | listed hn => exact hle (h.known (.listed hn))
        | disk hn =>
          rw [lookup_insert] at hn
          split at hn
          case isTrue he => exact he ▸ hlt
          case isFalse => exact hle (h.known (.disk hn))
        | input hn => exact hle (h.known (.input hn))
        | hidden hn =>
          rcases mem_cons.1 hn with rfl | hn
          · exact hlt
          · exact hle (h.known (.hidden hn))
      · intro n hn
        rcases mem_cons.1 hn with rfl | hn
        · refine ⟨?_, fun hl => hun (.listed hl), fun hi => hun (.input hi), ?_⟩
          · exact Bool.eq_false_iff.2 fun hi => hun (.installed hi)
          · exact Bool.eq_false_iff.2 fun hb => hun (.building hb)
        · exact h.hidden_new hn
      · exact nodup_cons.2 ⟨fun hm => hun (.hidden hm), h.hidden_nodup⟩
      · obtain ⟨es, ht, hes⟩ := h.logged
        refine ⟨es, ht.transfer rfl (UInt64.le_of_lt hlt) (fun _ hi => hi) fun _ _ _ => rfl, ?_⟩
        intro e he n hn
        obtain ⟨h1, h2, h3⟩ := hes e he n hn
        refine ⟨hle h1, h2, fun hm => ?_⟩
        rcases mem_cons.1 hm with rfl | hm
        · exact UInt64.lt_irrefl _ h1
        · exact h3 hm

/-- `NewFile` that could not create the file still takes a number. -/
theorem newFile_error {s : Status} (hnew : db.newFile created = some (.error s, db')) :
    Filing cfg db' inputs hidden := by
  unfold Db.newFile newFileNumber at hnew
  dsimp only at hnew
  split at hnew
  case isFalse => cases hnew
  case isTrue hlt =>
    split at hnew
    case isTrue => cases hnew
    case isFalse =>
      cases hnew
      refine ⟨h.opened, ?_, h.building_new, h.hidden_new, h.shards_building,
        h.shards_nodup, h.hidden_nodup, h.finished_new, h.listed_dead, h.others_dead, ?_⟩
      · intro n hn
        refine UInt64.lt_trans (h.known ?_) hlt
        cases hn with
        | installed hn => exact .installed hn
        | building hn => exact .building hn
        | listed hn => exact .listed hn
        | disk hn => exact .disk hn
        | input hn => exact .input hn
        | hidden hn => exact .hidden hn
      · obtain ⟨es, ht, hes⟩ := h.logged
        refine ⟨es, ht.transfer rfl (UInt64.le_of_lt hlt) (fun _ hi => hi)
          fun _ _ _ => rfl, fun e he n hn => ?_⟩
        obtain ⟨h1, h2⟩ := hes e he n hn
        exact ⟨UInt64.lt_trans h1 hlt, h2⟩

-- ==== builders

/-- Other files in the builders, all being built. -/
theorem reshard (hbuild : ∀ n ∈ shards.flatMap Shard.numbers, db.building cfg n = true)
    (hnodup : (shards.flatMap Shard.numbers).Nodup)
    (hnew : ∀ s ∈ shards, ∀ m ∈ s.finished, m.isObsolete = false) :
    Filing cfg { db with shards } inputs hidden := { h with
    known := fun hn => h.known (by
      cases hn with
      | installed hn => exact .installed hn
      | building hn => exact .building hn
      | listed hn => exact .listed hn
      | disk hn => exact .disk hn
      | input hn => exact .input hn
      | hidden hn => exact .hidden hn)
    shards_building := fun hn => hbuild _ hn
    shards_nodup := hnodup
    finished_new := fun hs _ hm => hnew _ hs _ hm }

/-- A builder with the same files, differently filed. -/
theorem setShard {shard shard' : Shard} (hb : db.shards[b]? = some shard)
    (hperm : shard'.numbers.Perm shard.numbers)
    (hnew : ∀ m ∈ shard'.finished, m.isObsolete = false) :
    Filing cfg (db.setShard b shard') inputs hidden := by
  have hall : ((db.shards.set b shard').flatMap Shard.numbers).Perm db.shardNumbers :=
    (perm_flatMap_set Shard.numbers hb shard').trans
      ((hperm.append_right _).trans (perm_flatMap_of_getElem? Shard.numbers hb).symm)
  refine h.reshard (fun n hn => h.shards_building (hall.mem_iff.1 hn))
    (hall.nodup_iff.2 h.shards_nodup) ?_
  intro s hs m hm
  rcases mem_or_eq_of_mem_set hs with hs | rfl
  · exact h.finished_new hs hm
  · exact hnew m hm

/-- `FinishBlob`. -/
theorem finishBlob (b : Nat) : Filing cfg (db.finishBlob cfg b) inputs hidden := by
  unfold Db.finishBlob
  split
  case h_1 => exact h
  case h_2 shard hb =>
    split
    case h_1 => exact h
    case h_2 number hh =>
      split
      case h_1 => exact h
      case h_2 file _ =>
        refine h.setShard hb ?_ ?_
        · unfold Shard.numbers
          rw [hh]
          simp only [toList_none, nil_append, map_append, toList_some]
          exact perm_append_comm
        · intro m hm
          rcases mem_append.1 hm with hm | hm
          · exact h.finished_new (mem_of_getElem? hb) hm
          · rw [mem_singleton] at hm
            subst hm
            rfl

/-- The roll-over to a new file. -/
theorem rollOver (b : Nat) (number : UInt64) : Filing cfg
    (db.rollOver cfg b number) inputs hidden := by
  unfold Db.rollOver
  split
  · exact h
  · split
    · exact h.finishBlob b
    · exact h

/-- An append keeps the directory's numbers. -/
theorem append {record : BlobRecord} {index : BlobIndex}
    (happ : db.append cfg number record = some (index, db')) : Filing cfg db' inputs hidden := by
  unfold Db.append at happ
  split at happ
  case h_1 => cases happ
  case h_2 file hf =>
    split at happ
    case h_1 => cases happ
    case h_2 =>
      cases happ
      refine h.congr rfl rfl fun n hn => ?_
      rw [lookup_insert] at hn
      split at hn
      case isTrue he => simp [he, hf]
      case isFalse => exact hn

end Filing

namespace BlobFileSet

variable {i : UInt32}

theorem lookup_addBuilding {j : UInt32} {st' : BlobStorage}
    (h : (fs.addBuildingFile i n).columnFamilies.lookup j = some st') :
    ∃ st, fs.columnFamilies.lookup j = some st ∧ st'.obsoleteFiles = st.obsoleteFiles
      ∧ ∀ k, st'.findFile k = st.findFile k := by
  unfold addBuildingFile at h
  rw [lookup_onStorage] at h
  split at h
  · obtain ⟨st, hst, rfl⟩ := map_eq_some_iff.1 h
    exact ⟨st, hst, rfl, fun _ => rfl⟩
  · exact ⟨st', h, rfl, fun _ => rfl⟩

theorem file_addBuilding (fs : BlobFileSet) (i j : UInt32)
    (n k : UInt64) : (fs.addBuildingFile i n).file j k = fs.file j k := by
  unfold addBuildingFile file
  rw [lookup_onStorage]
  split
  · cases fs.columnFamilies.lookup j <;> rfl
  · rfl

theorem building_addBuilding (fs : BlobFileSet) (i : UInt32)
    (n k : UInt64) (hopen : (fs.columnFamilies.lookup i).isSome = true) :
    (fs.addBuildingFile i n).building i k = true ↔ k = n ∨ fs.building i k = true := by
  obtain ⟨st, hst⟩ := isSome_iff_exists.1 hopen
  unfold addBuildingFile building
  rw [lookup_onStorage, if_pos rfl, hst]
  simp only [map_some, any_some, BlobStorage.addBuildingFile,
    BlobStorage.findBuildingFile, Table.contains, Table.find_emplace, id]
  by_cases hk : n = k
  · cases st.buildingFiles.find k <;> simp [hk]
  · simp [hk, Ne.symm hk]

theorem mem_obsolete_addBuilding {d : UInt64 × SequenceNumber}
    (h : d ∈ (fs.addBuildingFile i n).obsoleteEntries) : d ∈ fs.obsoleteEntries := by
  obtain ⟨j, st', hst', hd⟩ := mem_obsoleteEntries.1 h
  obtain ⟨st, hst, ho, -⟩ := lookup_addBuilding hst'
  exact mem_obsoleteEntries.2 ⟨j, st, hst, ho ▸ hd⟩

end BlobFileSet

namespace Filing

theorem isSome_lookup (h : Filing cfg db inputs hidden) :
    (db.fileSet.columnFamilies.lookup cfg.cfId).isSome = true := by
  obtain ⟨st, hst, -⟩ := h.opened
  exact isSome_iff_exists.2 ⟨st, hst⟩

/-- A hidden file is handed to a builder. -/
private theorem build (hsep : cfg.dbOptions.sepBeforeFlush = true)
    (h : Filing cfg db inputs (n :: hidden)) :
    Filing cfg { db with fileSet := db.fileSet.addBuildingFile cfg.cfId n } inputs hidden := by
  have hbuild := fun k =>
    db.fileSet.building_addBuilding cfg.cfId n k h.isSome_lookup
  have hfile := fun j k => db.fileSet.file_addBuilding cfg.cfId j n k
  obtain ⟨hninst, hnlist, hnin, hnbuild⟩ := h.hidden_new mem_cons_self
  have hnodup := nodup_cons.1 h.hidden_nodup
  have hinst : ∀ k, Db.installed cfg { db with fileSet := db.fileSet.addBuildingFile cfg.cfId n } k
      = db.installed cfg k := by
    intro k
    unfold Db.installed
    rw [hfile]
  have hlisted : ∀ {k}, Db.Listed { db with fileSet := db.fileSet.addBuildingFile cfg.cfId n } k →
      db.Listed k := fun hk => hk.imp fun _ hq => mem_obsolete_addBuilding hq
  have hlive : ∀ j k, (db.fileSet.addBuildingFile cfg.cfId n).live j k = db.fileSet.live j k := by
    intro j k
    unfold live
    rw [hfile]
  refine ⟨?_, ?_, ?_, ?_, ?_, h.shards_nodup, hnodup.2, h.finished_new, ?_, ?_, ?_⟩
  · obtain ⟨st, hst, hopt, hd, hap⟩ := h.opened
    have hlook : db.fileSet.columnFamilies.lookup cfg.cfId = some st := hst
    have hlook' : (db.fileSet.addBuildingFile cfg.cfId n).columnFamilies.lookup
        cfg.cfId = some (st.addBuildingFile n) := by
      unfold BlobFileSet.addBuildingFile
      rw [lookup_onStorage, if_pos rfl, hlook]
      rfl
    refine ⟨st.addBuildingFile n, hlook', hopt, hd, ?_⟩
    intro k hk
    refine ⟨by rw [← hsep, ← hopt]; rfl, ?_⟩
    rcases (hbuild k).1 (building_iff.2 ⟨_, hlook', hk⟩) with rfl | hkb
    · have hf : db.fileSet.file cfg.cfId k = none := by
        simpa [Db.installed] using hninst
      rw [file, hlook] at hf
      exact hf
    · obtain ⟨st', hst', hkb⟩ := building_iff.1 hkb
      rw [hlook] at hst'
      cases hst'
      exact (hap k hkb).2
  · intro k hk
    cases hk with
    | installed hk => exact h.known (.installed (hinst k ▸ hk))
    | building hk =>
      rcases (hbuild k).1 hk with rfl | hk
      · exact h.known (.hidden mem_cons_self)
      · exact h.known (.building hk)
    | listed hk => exact h.known (.listed (hlisted hk))
    | disk hk => exact h.known (.disk hk)
    | input hk => exact h.known (.input hk)
    | hidden hk => exact h.known (.hidden (mem_cons_of_mem _ hk))
  · intro k hk
    rw [hinst]
    rcases (hbuild k).1 hk with rfl | hk
    · exact ⟨hninst, fun hl => hnlist (hlisted hl), hnin⟩
    · obtain ⟨h1, h2, h3⟩ := h.building_new hk
      exact ⟨h1, fun hl => h2 (hlisted hl), h3⟩
  · intro k hk
    obtain ⟨h1, h2, h3, h4⟩ := h.hidden_new (mem_cons_of_mem _ hk)
    refine ⟨hinst k ▸ h1, fun hl => h2 (hlisted hl), h3, ?_⟩
    refine Bool.eq_false_iff.2 fun hb => ?_
    rcases (hbuild k).1 hb with rfl | hb
    · exact hnodup.1 hk
    · exact Bool.eq_false_iff.1 h4 hb
  · exact fun hk => (hbuild _).2 (.inr (h.shards_building hk))
  · intro k hk
    show ((db.fileSet.addBuildingFile cfg.cfId n).live cfg.cfId k).isSome = false
    rw [hlive]
    exact h.listed_dead (hlisted hk)
  · intro i st' k q hi hst' hk
    obtain ⟨st, hst, ho, -⟩ := lookup_addBuilding hst'
    exact (hlive i k).trans (h.others_dead hi hst (ho ▸ hk))
  · obtain ⟨es, ht, hes⟩ := h.logged
    refine ⟨es, ht.transfer rfl (UInt64.le_refl _) ?_ ?_, ?_⟩
    · intro j hj
      obtain ⟨st', hst'⟩ := isSome_iff_exists.1 hj
      obtain ⟨st, hst, -⟩ := lookup_addBuilding hst'
      exact isSome_iff_exists.2 ⟨st, hst⟩
    · intro j _ k
      rw [hlive]
    · intro e he k hk
      obtain ⟨h1, h2, h3⟩ := hes e he k hk
      refine ⟨h1, Bool.eq_false_iff.2 fun hb => ?_, fun hm => h3 (mem_cons_of_mem _ hm)⟩
      rcases (hbuild k).1 hb with rfl | hb
      · exact h3 mem_cons_self
      · exact Bool.eq_false_iff.1 h2 hb

/-- `openFile`: the open file of a builder is being built. -/
theorem openFile (h : Filing cfg db inputs hidden) (hsep : cfg.dbOptions.sepBeforeFlush = true)
    (hopen : db.openFile cfg b created = some (.ok number, db')) :
    Filing cfg db' inputs hidden ∧ db'.building cfg number = true := by
  unfold Db.openFile at hopen
  split at hopen
  case h_1 => cases hopen
  case h_2 shard hb =>
    split at hopen
    case h_1 n hh =>
      cases hopen
      refine ⟨h, h.shards_building ?_⟩
      refine mem_flatMap.2 ⟨shard, mem_of_getElem? hb, ?_⟩
      unfold Shard.numbers
      simp [hh]
    case h_2 hh =>
      split at hopen
      case h_1 => cases hopen
      case h_2 => cases hopen
      case h_3 n db₁ hnew =>
        cases hopen
        have h₁ := h.newFile hnew
        have hb₁ : db₁.shards[b]? = some shard := by
          rw [show db₁.shards = db.shards from Db.shards_newFile hnew]
          exact hb
        have h₂ := h₁.build hsep
        have hn : Db.building cfg
            { db₁ with fileSet := db₁.fileSet.addBuildingFile cfg.cfId number } number = true :=
          (db₁.fileSet.building_addBuilding cfg.cfId number number h₁.isSome_lookup).2 (.inl rfl)
        have hperm : ((db₁.shards.set b
            { shard with handle := some number }).flatMap Shard.numbers).Perm
            (number :: db₁.shardNumbers) := by
          refine (perm_flatMap_set Shard.numbers hb₁ _).trans ?_
          refine .trans ?_ ((perm_flatMap_of_getElem? Shard.numbers hb₁).symm.cons number)
          unfold Shard.numbers
          rw [hh]
          exact .refl _
        refine ⟨h₂.reshard ?_ ?_ ?_, hn⟩
        · intro k hk
          rcases mem_cons.1 (hperm.mem_iff.1 hk) with rfl | hk
          · exact hn
          · exact h₂.shards_building hk
        · refine hperm.nodup_iff.2 (nodup_cons.2 ⟨?_, h₁.shards_nodup⟩)
          intro hk
          have hk := h₁.shards_building hk
          rw [(h₁.hidden_new mem_cons_self).2.2.2] at hk
          cases hk
        · intro s hs m hm
          rcases mem_or_eq_of_mem_set hs with hs | rfl
          · exact h₁.finished_new hs hm
          · exact h₁.finished_new (mem_of_getElem? hb₁) hm

/-- `openFile` that could not create a file. -/
theorem openFile_error (h : Filing cfg db inputs hidden) {s : Status}
    (hopen : db.openFile cfg b created = some (.error s, db')) : Filing cfg db' inputs hidden := by
  unfold Db.openFile at hopen
  split at hopen
  case h_1 => cases hopen
  case h_2 =>
    split at hopen
    case h_1 => cases hopen
    case h_2 =>
      split at hopen
      case h_1 => cases hopen
      case h_2 hnew =>
        cases hopen
        exact h.newFile_error hnew
      case h_3 => cases hopen

-- ==== LogAndApply

end Filing

/-- An edit of one column family leaves the others. -/
theorem BlobFileSet.OthersDead.logAndApply {C : Coding} {cfId : UInt32}
    (h : fs.OthersDead cfId) (hcf : e.columnFamilyId = cfId) :
    (fs.logAndApply C e .ok).2.OthersDead cfId := by
  intro i st n q hi hst hn
  obtain ⟨st₀, hst₀, rfl | ⟨-, hi', -⟩⟩ := lookup_logAndApply hst
  · have hl := h hi hst₀ hn
    unfold live file at hl ⊢
    rw [hst₀] at hl
    rw [hst]
    exact hl
  · exact absurd (hi'.trans hcf) hi

namespace Filing

theorem installed_iff : db.installed cfg n = true ↔ db.fileSet.file cfg.cfId n ≠ none := by
  unfold Db.installed
  rw [isSome_iff_ne_none]

theorem live_iff : db.live cfg n = true ↔ db.fileSet.live cfg.cfId n ≠ none := by
  unfold Db.live
  rw [isSome_iff_ne_none]

variable (h : Filing cfg db inputs hidden)
include h

/-- The storage after a `LogAndApply`. -/
theorem opened_logAndApply (e : VersionEdit) :
    ∃ st, (db.fileSet.logAndApply cfg.coding e .ok).2.columnFamilies.lookup cfg.cfId = some st
      ∧ st.dbOptions = cfg.dbOptions ∧ st.destroyed = false ∧ st.Apart := by
  obtain ⟨st₀, hst₀, hopt, hd, hap⟩ := h.opened
  have hsome : ((db.fileSet.logAndApply cfg.coding e
      .ok).2.columnFamilies.lookup cfg.cfId).isSome = true := by
    rw [lookup_isSome_logAndApply]
    exact h.isSome_lookup
  obtain ⟨st, hst⟩ := isSome_iff_exists.1 hsome
  obtain ⟨st₁, hst₁, hcase⟩ := lookup_logAndApply hst
  have heq : st₁ = st₀ := some.inj (hst₁.symm.trans hst₀)
  subst heq
  refine ⟨st, hst, ?_⟩
  rcases hcase with rfl | ⟨-, -, rfl⟩
  · exact ⟨hopt, hd, hap⟩
  · obtain ⟨h1, -, h3⟩ := apply_options (c := e.batch) st₁
    exact ⟨h1.trans hopt, h3.trans hd, apart_apply hap⟩

omit h in
/-- A change of the file set, the builders and the directory that
installs the files `added` and retires the files `gone`. -/
structure Change (cfg : Config) (db db' : Db) (added gone : List UInt64) : Prop where
  opened : ∃ st, db'.storage cfg = some st ∧ st.dbOptions = cfg.dbOptions
    ∧ st.destroyed = false ∧ st.Apart
  next : db.fileSet.nextFileNumber ≤ db'.fileSet.nextFileNumber
  disk : ∀ {n}, (db'.disk.lookup n).isSome = true → (db.disk.lookup n).isSome = true
  installed : ∀ {n}, db'.installed cfg n = true → db.installed cfg n = true ∨ n ∈ added
  arrived : ∀ {n}, n ∈ added → db'.installed cfg n = true
  building : ∀ {n}, db'.building cfg n = true → db.building cfg n = true
  built : ∀ {n}, db.building cfg n = true → db'.building cfg n = true ∨ db'.installed cfg n = true
  listed : ∀ {n}, db'.Listed n → db.Listed n ∨ n ∈ gone
  live : ∀ {n}, db'.live cfg n = true → (db.live cfg n = true ∧ n ∉ gone) ∨ n ∈ added
  others : db.fileSet.OthersDead cfg.cfId → db'.fileSet.OthersDead cfg.cfId
  logged : ∀ {es}, Tracks cfg.coding db.fileSet es → (∀ e ∈ es, ∀ n ∈ added, ¬ e.Adds cfg.cfId n) →
    ∃ es', Tracks cfg.coding db'.fileSet es' ∧ ∀ e ∈ es', ∀ n,
      e.Adds cfg.cfId n → (∃ e ∈ es, e.Adds cfg.cfId n) ∨ n ∈ added

/-- The files a change installs were being written, those it retires were
being read. -/
theorem change (hc : Change cfg db db' added gone)
    (hadded : ∀ n ∈ added, db.building cfg n = true ∨ n ∈ hidden) (hgone : gone ⊆ inputs)
    (hshards : db'.shardNumbers.Subperm db.shardNumbers)
    (hshards' : ∀ n ∈ db'.shardNumbers, n ∉ added)
    (hfin : ∀ s ∈ db'.shards, ∀ m ∈ s.finished, m.isObsolete = false)
    (hhid : hidden'.Subperm hidden) (hhid' : ∀ n ∈ hidden', n ∉ added) :
    Filing cfg db' inputs hidden' := by
  have hnew : ∀ {n}, db.building cfg n = true ∨ n ∈ hidden →
      n < db.fileSet.nextFileNumber ∧ db.installed cfg n = false ∧ ¬ db.Listed n ∧ n ∉ inputs := by
    intro n hn
    rcases hn with hb | hh
    · exact ⟨h.known (.building hb), h.building_new hb⟩
    · obtain ⟨h1, h2, h3, -⟩ := h.hidden_new hh
      exact ⟨h.known (.hidden hh), h1, h2, h3⟩
  have hunlisted : ∀ {n}, db.building cfg n = true ∨ n ∈ hidden → ¬ db'.Listed n := by
    intro n hn hl
    rcases hc.listed hl with hl | hl
    · exact (hnew hn).2.2.1 hl
    · exact (hnew hn).2.2.2 (hgone hl)
  have hapart : ∀ {n}, db'.building cfg n = true → db'.installed cfg n = false := by
    intro n hb
    obtain ⟨st, hst, -, -, hap⟩ := hc.opened
    obtain ⟨st', hst', hb'⟩ := building_iff.1 hb
    have heq : st' = st := some.inj (hst'.symm.trans hst)
    subst heq
    unfold Db.installed file
    rw [hst']
    exact isSome_eq_false_iff.2 (isNone_iff_eq_none.2 (hap n hb').2)
  refine ⟨hc.opened, ?_, ?_, ?_, ?_, ?_, ?_, fun hs _ hm => hfin _ hs _ hm,
    ?_, hc.others h.others_dead, ?_⟩
  case refine_1 =>
    intro n hn
    refine UInt64.lt_of_lt_of_le ?_ hc.next
    cases hn with
    | installed hn =>
      rcases hc.installed hn with hn | hn
      · exact h.known (.installed hn)
      · exact (hnew (hadded n hn)).1
    | building hn => exact h.known (.building (hc.building hn))
    | listed hn =>
      rcases hc.listed hn with hn | hn
      · exact h.known (.listed hn)
      · exact h.known (.input (hgone hn))
    | disk hn => exact h.known (.disk (hc.disk hn))
    | input hn => exact h.known (.input hn)
    | hidden hn => exact h.known (.hidden (hhid.subset hn))
  case refine_2 =>
    intro n hn
    have hb := hc.building hn
    exact ⟨hapart hn, hunlisted (.inl hb), (hnew (.inl hb)).2.2.2⟩
  case refine_3 =>
    intro n hn
    have hh := hhid.subset hn
    refine ⟨Bool.eq_false_iff.2 fun hi => ?_, hunlisted (.inr hh),
      (hnew (.inr hh)).2.2.2, Bool.eq_false_iff.2 fun hb => ?_⟩
    · rcases hc.installed hi with hi | hi
      · exact Bool.eq_false_iff.1 (hnew (.inr hh)).2.1 hi
      · exact hhid' n hn hi
    · exact Bool.eq_false_iff.1 (h.hidden_new hh).2.2.2 (hc.building hb)
  case refine_4 =>
    intro n hn
    have hb := h.shards_building (hshards.subset hn)
    rcases hc.built hb with hb' | hi
    · exact hb'
    · rcases hc.installed hi with hi | hi
      · exact absurd hi (Bool.eq_false_iff.1 (hnew (.inl hb)).2.1)
      · exact absurd hi (hshards' n hn)
  case refine_5 =>
    obtain ⟨l, hl, hs⟩ := hshards
    exact hl.nodup_iff.1 (h.shards_nodup.sublist hs)
  case refine_6 =>
    obtain ⟨l, hl, hs⟩ := hhid
    exact hl.nodup_iff.1 (h.hidden_nodup.sublist hs)
  case refine_7 =>
    intro n hn
    refine Bool.eq_false_iff.2 fun hl => ?_
    rcases hc.live hl with ⟨hl, hg⟩ | ha
    · rcases hc.listed hn with hn | hn
      · exact Bool.eq_false_iff.1 (h.listed_dead hn) hl
      · exact hg hn
    · exact hunlisted (hadded n ha) hn
  case refine_8 =>
    obtain ⟨es, ht, hes⟩ := h.logged
    obtain ⟨es', ht', hes'⟩ := hc.logged ht <| by
      intro e he n hn hadds
      obtain ⟨-, h2, h3⟩ := hes e he n hadds
      rcases hadded n hn with hb | hh
      · exact Bool.eq_false_iff.1 h2 hb
      · exact h3 hh
    refine ⟨es', ht', fun e he n hn => ?_⟩
    rcases hes' e he n hn with ⟨x, hx, hxn⟩ | ha
    · obtain ⟨h1, h2, h3⟩ := hes x hx n hxn
      exact ⟨UInt64.lt_of_lt_of_le h1 hc.next,
        Bool.eq_false_iff.2 fun hb => Bool.eq_false_iff.1 h2 (hc.building hb),
        fun hm => h3 (hhid.subset hm)⟩
    · refine ⟨UInt64.lt_of_lt_of_le (hnew (hadded n ha)).1 hc.next,
        Bool.eq_false_iff.2 fun hb => ?_, fun hm => hhid' n hm ha⟩
      exact Bool.eq_false_iff.1 (hapart hb) (hc.arrived ha)

/-- A change that installs and retires nothing and leaves the builders. -/
theorem quiet (hc : Change cfg db db' [] [])
    (hshards : db'.shards = db.shards) : Filing cfg db' inputs hidden := by
  have hnums : db'.shardNumbers = db.shardNumbers := congrArg (flatMap Shard.numbers) hshards
  exact h.change hc (fun _ hn => nomatch hn) (fun _ hn => nomatch hn)
    (hnums ▸ .refl _) (fun _ _ => not_mem_nil)
    (fun s hs m hm => h.finished_new (hshards ▸ hs) hm) (.refl _) (fun _ _ => not_mem_nil)

-- ---- the edits

section edits

variable {files : List BlobFileMeta} (h : Filing cfg db inputs hidden)

include h

/-- Files that were being written are admitted. -/
theorem admits_finishEdit (hnodup : (files.map (·.fileNumber)).Nodup)
    (hwriting : ∀ n ∈ files.map (·.fileNumber), db.building cfg n = true ∨ n ∈ hidden) :
    db.fileSet.Admits (Db.finishEdit cfg files) := by
  rw [Db.finishEdit_eq]
  refine ⟨⟨hnodup, nodup_nil⟩, fun st hst => ⟨?_, ?_⟩⟩
  · intro n hn
    have hinst : db.installed cfg n = false := by
      rcases hwriting n ((VersionEdit.batch_added _ n).1 hn) with hb | hh
      · exact (h.building_new hb).1
      · exact (h.hidden_new hh).1
    have hnone : db.fileSet.file cfg.cfId n = none := by
      simpa [Db.installed] using hinst
    rw [file, show db.fileSet.columnFamilies.lookup cfg.cfId = some st from hst] at hnone
    exact hnone
  · intro n hn
    cases (VersionEdit.batch_deleted _ n).1 hn

/-- An edit of the column family that is admitted, once it is known which
files are live after it. -/
private theorem change_logAndApply (hadm : db.fileSet.Admits e) (hcf : e.columnFamilyId = cfg.cfId)
    (hadded : e.addedFiles.map (·.fileNumber) = added) (hgone : ∀ d ∈ e.deletedFiles, d.1 ∈ gone)
    (hnew : ∀ m ∈ e.addedFiles, m.isObsolete = false)
    (hlive : ∀ n, (db.fileSet.logAndApply cfg.coding e .ok).2.live cfg.cfId n ≠ none
      ↔ (db.fileSet.live cfg.cfId n ≠ none ∧ n ∉ gone) ∨ n ∈ added) :
    Change cfg db { db with
        fileSet := (db.fileSet.logAndApply cfg.coding e .ok).2, shards }
      added gone := by
  refine ⟨h.opened_logAndApply _, ?_, fun hn => hn, ?_, ?_,
    building_of_logAndApply, ?_, ?_, ?_, fun ho => ho.logAndApply hcf, ?_⟩
  · exact UInt64.le_of_eq (next_logAndApply ..).symm
  · intro n hn
    have hfile := installed_iff.1 hn
    rcases file_of_logAndApply hfile with hn | hn
    · exact .inl (installed_iff.2 hn)
    · exact .inr (hadded ▸ hn.2)
  · intro n hn
    exact installed_iff.2 (file_of_live ((hlive n).2 (.inr hn)))
  · intro n hn
    exact (building_logAndApply hn).imp_right installed_iff.2
  · intro n hn
    obtain ⟨q, hq⟩ := hn
    rcases mem_obsoleteEntries_logAndApply hq with hq | ⟨hq, -⟩
    · exact .inl ⟨q, hq⟩
    · exact .inr (hgone _ hq)
  · intro n hn
    have hafter := live_iff.1 hn
    exact ((hlive n).1 hafter).imp_left fun hl => ⟨live_iff.2 hl.1, hl.2⟩
  · intro es ht hes
    refine ⟨_, ht.applied hadm hnew ?_ ?_, ?_⟩
    · intro x hx hxcf n hn hxn
      exact hes x hx n (hadded ▸ hn) ⟨hxcf.trans hcf, hxn⟩
    · rw [hcf]
      exact h.isSome_lookup
    · intro x hx n hn
      rcases mem_append.1 hx with hx | hx
      · exact .inl ⟨x, hx, hn⟩
      · rw [mem_singleton] at hx
        subst hx
        exact .inr (hadded ▸ hn.2)

private theorem change_finishEdit (hadm : db.fileSet.Admits (Db.finishEdit cfg files))
    (hnew : ∀ m ∈ files, m.isObsolete = false) :
    Change cfg db { (db.batchFinishFiles cfg files).2 with shards }
      (files.map (·.fileNumber)) [] := by
  have hadded : (Db.finishEdit cfg files).addedFiles = files := by
    rw [Db.finishEdit_eq]
  refine change_logAndApply h hadm (by rw [Db.finishEdit_eq])
    (congrArg _ hadded) ?_ (fun m hm => hnew m (hadded ▸ hm)) fun n => ?_
  · rw [Db.finishEdit_eq]
    intro d hd
    cases hd
  · rw [live_finishEdit h.isSome_lookup hadm hnew]
    simp

/-- `BatchFinishFiles` of files that were being written. -/
theorem install (hnodup : (files.map (·.fileNumber)).Nodup)
    (hwriting : ∀ n ∈ files.map (·.fileNumber), db.building cfg n = true ∨ n ∈ hidden)
    (hnew : ∀ m ∈ files, m.isObsolete = false)
    (hsub : (shards.flatMap Shard.numbers).Subperm db.shardNumbers)
    (hapart : ∀ n ∈ shards.flatMap Shard.numbers, n ∉ files.map (·.fileNumber))
    (hfin : ∀ s ∈ shards, ∀ m ∈ s.finished, m.isObsolete = false) (hsub' : hidden'.Subperm hidden)
    (hapart' : ∀ n ∈ hidden', n ∉ files.map (·.fileNumber)) :
    Filing cfg { (db.batchFinishFiles cfg files).2 with shards } inputs hidden' :=
  h.change (change_finishEdit h (admits_finishEdit h hnodup hwriting) hnew)
    hwriting (fun _ hn => nomatch hn) hsub hapart hfin hsub' hapart'

/-- `DeleteInputBlobFiles`. -/
theorem deleteInputs {job : GcJob} (hin : job.inputs ⊆ inputs) :
    Filing cfg (db.deleteInputBlobFiles cfg job).2 inputs hidden := by
  by_cases hadm : db.fileSet.admits (Db.deleteEdit cfg job.inputs db.seq) = true
  case neg =>
    refine h.congr ?_ rfl fun _ hn => hn
    exact (logAndApply_refused (by simpa using hadm)).2
  case pos =>
  have hadm := (admits_iff ..).1 hadm
  have hadded : (Db.deleteEdit cfg job.inputs db.seq).addedFiles = [] := by
    rw [Db.deleteEdit_eq]
  have hc : Change cfg db (db.deleteInputBlobFiles cfg job).2 [] job.inputs := by
    refine change_logAndApply h hadm (by rw [Db.deleteEdit_eq])
      (congrArg _ hadded) ?_ (fun m hm => ?_) fun n => ?_
    · rw [Db.deleteEdit_eq]
      intro d hd
      obtain ⟨k, hk, rfl⟩ := mem_map.1 hd
      exact hk
    · rw [hadded] at hm
      cases hm
    · rw [live_deleteEdit h.isSome_lookup hadm]
      simp
  exact h.change hc (fun _ hn => nomatch hn) hin (.refl _)
    (fun _ _ => not_mem_nil) (fun _ hs _ hm => h.finished_new hs hm)
    (.refl _) (fun _ _ => not_mem_nil)

end edits

-- ---- states, purge, the counter

/-- Changes of file states. -/
theorem sameFiles (hsame : db.fileSet.SameFiles fs) :
    Filing cfg { db with fileSet := fs } inputs hidden := by
  refine h.quiet ⟨?_, UInt64.le_of_eq hsame.next.symm, fun hn => hn, ?_,
    (fun hn => nomatch hn), ?_, ?_, ?_, ?_, ?_, ?_⟩ rfl
  · obtain ⟨st, hst, hopt, hd, hap⟩ := h.opened
    have hsome := hsame.isSome cfg.cfId
    rw [h.isSome_lookup] at hsome
    obtain ⟨st', hst'⟩ := isSome_iff_exists.1 hsome
    obtain ⟨st₀, hst₀, hs⟩ := hsame.storage hst'
    have heq : st₀ = st := some.inj (hst₀.symm.trans hst)
    subst heq
    refine ⟨st', hst', hs.dbOptions.trans hopt, hs.destroyed.trans hd, ?_⟩
    intro n hn
    unfold findBuildingFile at hn
    rw [hs.building] at hn
    obtain ⟨h1, h2⟩ := hap n hn
    refine ⟨hs.dbOptions ▸ h1, ?_⟩
    have ho := hs.file n
    rw [h2] at ho
    simpa using ho
  · intro n hn
    exact .inl (installed_iff.2 ((hsame.file_ne_none cfg.cfId n).1 (installed_iff.1 hn)))
  · intro n hn
    exact (hsame.building_eq cfg.cfId n).symm.trans hn
  · intro n hn
    exact .inl ((hsame.building_eq cfg.cfId n).trans hn)
  · exact fun hn => .inl (hn.imp fun _ hq => hsame.mem_obsolete hq)
  · intro n hn
    exact .inl ⟨live_iff.2 ((hsame.live_ne_none cfg.cfId n).1 (live_iff.1 hn)), not_mem_nil⟩
  · intro ho i st' n q hi hst' hn
    obtain ⟨st, hst, hs⟩ := hsame.storage hst'
    have hl := ho hi hst (hs.obsoleteFiles ▸ hn)
    exact not_not.1 fun hl' => (hsame.live_ne_none i n).1 hl' hl
  · intro es ht _
    exact ⟨es, ht.transfer hsame.manifest (UInt64.le_of_eq hsame.next.symm)
      (fun i hi => (hsame.isSome i).symm.trans hi)
      (fun i _ n => hsame.live_persistent i n), fun e he n hn => .inl ⟨e, he, hn⟩⟩

variable (q : SequenceNumber)

/-- The storage of a database in order, before and after a purge. -/
private theorem storage_purge :
    ∃ st st', db.storage cfg = some st ∧ (db.purge q).storage cfg = some st' ∧ st.Purged q st'
      ∧ st.dbOptions = cfg.dbOptions ∧ st.destroyed = false ∧ st.Apart := by
  have hp := db.fileSet.purged_getObsoleteFiles q
  obtain ⟨st, hst, hopt, hd, hap⟩ := h.opened
  obtain ⟨st', hst'⟩ := isSome_iff_exists.1 (hp.kept hst hd)
  obtain ⟨st₀, hst₀, hs⟩ := hp.storage hst'
  cases hst.symm.trans hst₀
  exact ⟨st, st', hst, hst', hs, hopt, hd, hap⟩

theorem building_purge (n : UInt64) : (db.purge q).building cfg n = db.building cfg n := by
  obtain ⟨st, st', hst, hst', hs, -⟩ := h.storage_purge q
  unfold Db.building building
  rw [show (db.purge q).fileSet.columnFamilies.lookup cfg.cfId = some st'
    from hst', show db.fileSet.columnFamilies.lookup cfg.cfId = some st
    from hst, any_some, any_some]
  unfold findBuildingFile
  rw [hs.building]

/-- A file that goes was listed, hence obsolete. -/
private theorem live_purged {i : UInt32}
    (hi : ((db.purge q).fileSet.columnFamilies.lookup i).isSome = true)
    (n : UInt64) : (db.purge q).fileSet.live i n = db.fileSet.live i n := by
  have hp := db.fileSet.purged_getObsoleteFiles q
  obtain ⟨st', hst'⟩ := isSome_iff_exists.1 hi
  obtain ⟨st, hst, hs⟩ := hp.storage hst'
  have hf' : (db.purge q).fileSet.file i n = st'.findFile n := file_of_lookup hst' n
  have hf := file_of_lookup hst n
  rcases hs.file n with he | ⟨hnone, s, hlisted, -⟩
  · unfold live
    rw [hf, hf', he]
  · have hdead : db.fileSet.live i n = none := by
      by_cases hc : i = cfg.cfId
      · subst hc
        have := h.listed_dead ⟨s, mem_obsoleteEntries.2 ⟨cfg.cfId, st, hst, hlisted⟩⟩
        simpa [Db.live] using this
      · exact h.others_dead hc hst hlisted
    rw [hdead, live, hf', hnone]
    rfl

theorem live_purge (n : UInt64) : (db.purge q).live cfg n = db.live cfg n := by
  obtain ⟨_, st', _, hst', -⟩ := h.storage_purge q
  unfold Db.live
  rw [h.live_purged q (isSome_iff_exists.2 ⟨st', hst'⟩) n]

/-- A purge. -/
theorem purge : Filing cfg (db.purge q) inputs hidden := by
  have hp := db.fileSet.purged_getObsoleteFiles q
  obtain ⟨st, st', hst, hst', hs, hopt, hd, hap⟩ := h.storage_purge q
  have hbuild := h.building_purge q
  refine h.quiet ⟨⟨st', hst', hs.dbOptions.trans hopt,
    hs.destroyed.trans hd, ?_⟩, UInt64.le_of_eq hp.next.symm, ?_, ?_,
    (fun hn => nomatch hn), (fun hn => (hbuild _).symm.trans hn),
    (fun hn => .inl ((hbuild _).trans hn)), ?_, ?_, ?_, ?_⟩ rfl
  · intro n hn
    unfold findBuildingFile at hn
    rw [hs.building] at hn
    obtain ⟨h1, h2⟩ := hap n hn
    refine ⟨hs.dbOptions ▸ h1, ?_⟩
    rcases hs.file n with hf | ⟨hf, -⟩
    · exact hf.trans h2
    · exact hf
  · intro n hn
    unfold Db.purge at hn
    rw [lookup_foldl_erase] at hn
    split at hn
    · cases hn
    · exact hn
  · intro n hn
    left
    rw [installed_iff, file_ne_none_iff] at hn ⊢
    obtain ⟨st₁, hst₁, hf⟩ := hn
    cases hst'.symm.trans hst₁
    rcases hs.file n with he | ⟨hnone, -⟩
    · exact ⟨st, hst, he ▸ hf⟩
    · exact absurd hnone hf
  · exact fun hn => .inl (hn.imp fun _ hq => hp.mem_obsolete hq)
  · intro n hn
    exact .inl ⟨(h.live_purge q n).symm.trans hn, not_mem_nil⟩
  · intro ho i stᵢ' n s hi hstᵢ' hn
    obtain ⟨stᵢ, hstᵢ, hps⟩ := hp.storage hstᵢ'
    exact (h.live_purged q (isSome_iff_exists.2 ⟨_, hstᵢ'⟩) n).trans
      (ho hi hstᵢ (hps.obsoleteFiles hn))
  · intro es ht _
    refine ⟨es, ht.transfer hp.manifest (UInt64.le_of_eq hp.next.symm) ?_ ?_,
      fun e he n hn => .inl ⟨e, he, hn⟩⟩
    · intro i hi
      obtain ⟨stᵢ', hstᵢ'⟩ := isSome_iff_exists.1 hi
      obtain ⟨stᵢ, hstᵢ, -⟩ := hp.storage hstᵢ'
      exact isSome_iff_exists.2 ⟨_, hstᵢ⟩
    · intro i hi n
      rw [h.live_purged q hi n]

omit h in
/-- The directory after `BatchDeleteFiles`. -/
theorem lookup_batchDeleteFiles (numbers : List UInt64)
    (deleteFile : UInt64 → Status) (n : UInt64) :
    (db.batchDeleteFiles numbers deleteFile).2.disk.lookup n
      = if n ∈ numbers ∧ (deleteFile n).isOk = true then none else db.disk.lookup n := by
  have hfold : ∀ (l : List UInt64) (disk : Map UInt64 BlobFile),
      (l.foldl (fun disk n => if (deleteFile n).isOk then disk.erase n else disk) disk).lookup n
        = if n ∈ l ∧ (deleteFile n).isOk = true then none else disk.lookup n := by
    intro l
    induction l with
    | nil => simp
    | cons k l ih =>
      intro disk
      rw [foldl_cons, ih]
      by_cases hk : (deleteFile k).isOk = true
      · rw [if_pos hk, lookup_erase]
        by_cases hn : n = k <;> simp [hn, hk]
      · rw [if_neg hk]
        by_cases hn : n = k <;> simp [hn, hk]
  exact hfold numbers db.disk

/-- Files of the directory deleted. -/
theorem batchDeleteFiles (numbers : List UInt64) (deleteFile : UInt64 → Status) :
    Filing cfg (db.batchDeleteFiles numbers deleteFile).2 inputs hidden := by
  refine h.congr rfl rfl fun n hn => ?_
  rw [lookup_batchDeleteFiles] at hn
  split at hn
  · cases hn
  · exact hn

/-- A request for a flush. -/
theorem flushShard (b : Nat) : Filing cfg (db.flushShard cfg b) inputs hidden := by
  have h₁ := h.finishBlob b
  unfold Db.flushShard
  dsimp only
  split
  case h_1 => exact h₁
  case h_2 shard hb =>
    split
    case isTrue => exact h₁
    case isFalse =>
      have hmem := mem_of_getElem? hb
      have hall := perm_flatMap_of_getElem? Shard.numbers hb
      have hset := perm_flatMap_set Shard.numbers hb { shard with finished := [] }
      have hnodup := hall.nodup_iff.1 h₁.shards_nodup
      have hnums : (Shard.numbers { shard with finished := [] })
          = shard.handle.toList := by simp [Shard.numbers]
      refine h₁.install ?_ ?_ (fun m hm => h₁.finished_new hmem hm) ?_ ?_ ?_
        (List.Subperm.refl _) ?_
      · exact ((nodup_append.1 hnodup).1.sublist (sublist_append_right ..))
      · intro n hn
        refine .inl (h₁.shards_building (mem_flatMap.2 ⟨shard, hmem, mem_append_right _ hn⟩))
      · refine (hset.subperm.trans ?_).trans hall.symm.subperm
        rw [hnums]
        exact ((sublist_append_left ..).append_right _).subperm
      · intro n hn hf
        have hn' := hset.mem_iff.1 hn
        rw [hnums] at hn'
        rw [nodup_append] at hnodup
        rcases mem_append.1 hn' with hn' | hn'
        · exact (nodup_append.1 hnodup.1).2.2 n hn' n hf rfl
        · exact hnodup.2.2 n (mem_append_right _ hf) n hn' rfl
      · intro s hs m hm
        rcases mem_or_eq_of_mem_set hs with hs | rfl
        · exact h₁.finished_new hs hm
        · cases hm
      · intro n hn hf
        have hb := h₁.shards_building (mem_flatMap.2 ⟨shard, hmem, mem_append_right _ hf⟩)
        rw [(h₁.hidden_new hn).2.2.2] at hb
        cases hb

/-- Installed files are read. -/
theorem read {more : List UInt64} (hmore : ∀ n ∈ more, db.installed cfg n = true) :
    Filing cfg db (inputs ++ more) hidden := { h with
    known := by
      intro n hn
      cases hn with
      | installed hn => exact h.known (.installed hn)
      | building hn => exact h.known (.building hn)
      | listed hn => exact h.known (.listed hn)
      | disk hn => exact h.known (.disk hn)
      | input hn =>
        rcases mem_append.1 hn with hn | hn
        · exact h.known (.input hn)
        · exact h.known (.installed (hmore n hn))
      | hidden hn => exact h.known (.hidden hn)
    building_new := by
      intro n hn
      obtain ⟨h1, h2, h3⟩ := h.building_new hn
      refine ⟨h1, h2, fun hm => ?_⟩
      rcases mem_append.1 hm with hm | hm
      · exact h3 hm
      · exact Bool.eq_false_iff.1 h1 (hmore n hm)
    hidden_new := by
      intro n hn
      obtain ⟨h1, h2, h3, h4⟩ := h.hidden_new hn
      refine ⟨h1, h2, fun hm => ?_, h4⟩
      rcases mem_append.1 hm with hm | hm
      · exact h3 hm
      · exact Bool.eq_false_iff.1 h1 (hmore n hm) }

end Filing

end DiffKV
