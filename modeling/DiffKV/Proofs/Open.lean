/-
A database just created is in order, and what a new process finds of a
database in order: its live files, with their records.
-/
import DiffKV.Open
import DiffKV.Proofs.Steps

namespace DiffKV

open Lib List BlobFileSet Db

variable {cfg : Config} {db db' : Db}

-- ==== creation

/-- The file set of a new database, before its manifest is opened. -/
private def blank (cfg : Config) : BlobFileSet :=
  { (({ dbOptions := cfg.dbOptions } : BlobFileSet).addColumnFamilies
      [(cfg.cfId, cfg.cfOptions)]) with nextFileNumber := 2 }

private theorem fileSet_create : (create cfg).fileSet = (blank cfg).snapshotted cfg.coding 1 := rfl

private theorem lookup_create {i : UInt32} {st : BlobStorage}
    (h : (create cfg).fileSet.columnFamilies.lookup i = some st) :
    i = cfg.cfId ∧ st = { dbOptions := cfg.dbOptions, cfOptions := cfg.cfOptions } := by
  have h : (({ dbOptions := cfg.dbOptions } : BlobFileSet).addColumnFamilies
      [(cfg.cfId, cfg.cfOptions)]).columnFamilies.lookup i = some st := h
  rw [lookup_addColumnFamilies] at h
  by_cases hi : cfg.cfId = i
  · rw [find?_cons_of_pos (by simpa using hi)] at h
    cases h
    exact ⟨hi.symm, rfl⟩
  · rw [find?_cons_of_neg (by simpa using hi)] at h
    cases h

private theorem storage_create :
    (create cfg).storage cfg = some { dbOptions := cfg.dbOptions, cfOptions := cfg.cfOptions } := by
  show (create cfg).fileSet.columnFamilies.lookup cfg.cfId = _
  show (({ dbOptions := cfg.dbOptions } : BlobFileSet).addColumnFamilies
      [(cfg.cfId, cfg.cfOptions)]).columnFamilies.lookup cfg.cfId = _
  rw [lookup_addColumnFamilies, find?_cons_of_pos (by simp)]
  rfl

theorem installed_create (n : UInt64) : (create cfg).installed cfg n = false := by
  rw [← Bool.not_eq_true, Filing.installed_iff, file_ne_none_iff]
  intro ⟨st, hst, hn⟩
  obtain ⟨-, rfl⟩ := lookup_create hst
  exact hn rfl

theorem building_create (n : UInt64) : (Db.create cfg).building cfg n = false := by
  rw [← Bool.not_eq_true, Db.building, building_iff]
  intro ⟨st, hst, hn⟩
  obtain ⟨-, rfl⟩ := lookup_create hst
  cases hn

theorem obsoleteEntries_create {d : UInt64 × SequenceNumber} :
    d ∉ (create cfg).fileSet.obsoleteEntries := by
  intro hd
  obtain ⟨i, st, hst, hd⟩ := mem_obsoleteEntries.1 hd
  obtain ⟨-, rfl⟩ := lookup_create hst
  cases hd

theorem shardNumbers_create : (create cfg).shardNumbers = [] := by
  show (openShards cfg).flatMap Shard.numbers = []
  unfold openShards Config.initShards
  split
  · rw [flatMap_eq_nil_iff]
    intro s hs
    rw [eq_of_mem_replicate hs]
    rfl
  · rfl

theorem filing_create (cfg : Config) : Filing cfg (create cfg) [] [] where
  opened := ⟨_, storage_create, rfl, rfl, fun _ h => nomatch h⟩
  known hn := by
    cases hn with
    | installed h => rw [installed_create] at h; cases h
    | building h => rw [building_create] at h; cases h
    | listed h =>
      obtain ⟨q, hq⟩ := h
      exact absurd hq obsoleteEntries_create
    | disk h => cases h
    | input h => cases h
    | hidden h => cases h
  building_new h := by rw [building_create] at h; cases h
  hidden_new h := nomatch h
  shards_building h := by rw [shardNumbers_create] at h; cases h
  shards_nodup := by rw [shardNumbers_create]; exact nodup_nil
  hidden_nodup := nodup_nil
  finished_new hs := by
    intro m hm
    unfold create openShards Config.initShards at hs
    split at hs
    · rw [eq_of_mem_replicate hs] at hm
      cases hm
    · cases hs
  listed_dead h := by
    obtain ⟨q, hq⟩ := h
    exact absurd hq obsoleteEntries_create
  others_dead := by
    intro i st n q hi hst
    exact absurd (lookup_create hst).1 hi
  logged := by
    refine ⟨_, fileSet_create ▸ tracks_snapshot (blank cfg) 1, ?_⟩
    intro e he n hn
    have hfile := file_of_snapshotEdits (C := cfg.coding) ⟨e, he, hn⟩ 1
    rw [← fileSet_create, ← Filing.installed_iff, installed_create] at hfile
    cases hfile

theorem filed_create (cfg : Config) : Filed cfg (create cfg) :=
  ⟨filing_create cfg, fun _ h => nomatch h⟩

end DiffKV
