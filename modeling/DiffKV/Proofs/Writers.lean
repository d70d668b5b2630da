/-
What the functions that write blob files do: they take no file and no
record away, and the locations they hand out hold the record that was
given to them.
-/
import DiffKV.Proofs.Filing

namespace DiffKV

open Lib List BlobFileSet

variable {cfg : Config} {db db' : Db} {inputs hidden : List UInt64}

namespace Filing

variable {created : Bool} {rest : List UInt64} {record : BlobRecord} {b : Nat}
  {job : GcJob} {result : Except Status UInt64} {number : UInt64}
  {index : BlobIndex} {s : Status} {job' : GcJob} {io : Db.InstallIO}

-- ==== nothing taken away

theorem newFile_extends (h : Filing cfg db inputs hidden)
    (hnew : db.newFile created = some (result, db')) : db.Extends cfg db' := by
  unfold Db.newFile newFileNumber at hnew
  dsimp only at hnew
  split at hnew
  case isFalse => cases hnew
  case isTrue =>
    split at hnew
    case isFalse =>
      cases hnew
      exact ⟨rfl, rfl, rfl, rfl, rfl, rfl, fun h => h, fun h => h,
        fun h => .inl h, fun _ h => h, fun h => h⟩
    case isTrue =>
      cases hnew
      refine ⟨rfl, rfl, rfl, rfl, rfl, rfl, fun h => h, fun h => h,
        fun h => .inl h, fun _ h => h, ?_⟩
      intro i r hr
      unfold Db.record at hr ⊢
      rw [Table.lookup_insert, if_neg]
      · exact hr
      · intro he
        have hsome : (db.disk.lookup i.fileNumber).isSome = true := by
          cases hd : db.disk.lookup i.fileNumber with
          | none => simp [hd] at hr
          | some f => rfl
        exact h.next_unknown (he ▸ .disk hsome)

/-- The location `append` hands out held nothing and now holds the
record. -/
theorem append_spec (happ : db.append cfg number record = some (index, db')) :
    db.Extends cfg db' ∧ index.fileNumber = number
      ∧ db'.record index = some record ∧ db'.fileSet = db.fileSet ∧ db'.shards = db.shards := by
  unfold Db.append at happ
  split at happ
  case h_1 => cases happ
  case h_2 file hf =>
    split at happ
    case h_1 => cases happ
    case h_2 blobHandle file' hadd =>
      cases happ
      refine ⟨?_, rfl, ?_, rfl, rfl⟩
      · refine ⟨rfl, rfl, rfl, rfl, rfl, rfl, fun h => h, fun h => h,
          fun h => .inl h, fun _ h => h, ?_⟩
        intro i r hr
        unfold Db.record at hr ⊢
        rw [Table.lookup_insert]
        split
        case isFalse => exact hr
        case isTrue he =>
          rw [he, hf] at hr
          rw [Option.bind_some, BlobFile.find_add hadd]
          split
          case isFalse => exact hr
          case isTrue hh =>
            rw [Option.bind_some, hh, BlobFile.find_of_add hadd] at hr
            cases hr
      · unfold Db.record
        rw [Table.lookup_insert, if_pos rfl, Option.bind_some, BlobFile.find_add hadd, if_pos rfl]

theorem setShard_extends (b : Nat) (shard : Shard) : db.Extends cfg (db.setShard b shard) :=
  ⟨rfl, rfl, rfl, rfl, rfl, rfl, fun h => h, fun h => h, fun h => .inl h, fun _ h => h, fun h => h⟩

theorem finishBlob_extends (b : Nat) : db.Extends cfg (db.finishBlob cfg b) := by
  unfold Db.finishBlob
  split
  · exact .refl cfg db
  · split
    · exact .refl cfg db
    · split
      · exact .refl cfg db
      · exact setShard_extends b _

theorem building_rollOver (b : Nat) (number n : UInt64) :
    (db.rollOver cfg b number).building cfg n = db.building cfg n := by
  unfold Db.rollOver Db.finishBlob
  split
  · rfl
  · split
    · split
      · rfl
      · split
        · rfl
        · split <;> rfl
    · rfl

theorem rollOver_extends (b : Nat) (number : UInt64) :
    db.Extends cfg (db.rollOver cfg b number) := by
  unfold Db.rollOver
  split
  · exact .refl cfg db
  · split
    · exact finishBlob_extends b
    · exact .refl cfg db

section

variable (h : Filing cfg db inputs hidden)
include h

/-- Installing files. -/
theorem batchFinishFiles_extends {files : List BlobFileMeta}
    (hnew : ∀ m ∈ files, m.isObsolete = false) :
    db.Extends cfg (db.batchFinishFiles cfg files).2 := by
  refine ⟨rfl, rfl, rfl, rfl, rfl, rfl, ?_, ?_, ?_, ?_, fun h => h⟩
  · intro n hn
    exact installed_iff.2 (file_logAndApply (installed_iff.1 hn) _ _)
  · intro n hn
    exact live_iff.2 (live_keep_finishEdit h.isSome_lookup hnew (live_iff.1 hn))
  · intro n hn
    rcases building_logAndApply (C := cfg.coding) (e := Db.finishEdit cfg files) hn with hb | hf
    · exact .inl hb
    · right
      by_cases hadm : db.fileSet.admits (Db.finishEdit cfg files) = true
      · rcases file_of_logAndApply hf with hf' | hadd
        · rw [← installed_iff, (h.building_new hn).1] at hf'
          cases hf'
        · rw [Db.finishEdit_eq] at hadd
          exact live_iff.2 ((live_finishEdit h.isSome_lookup
            ((admits_iff ..).1 hadm) hnew).2 (.inr hadd.2))
      · rw [(logAndApply_refused (by simpa using hadm)).2,
          ← installed_iff, (h.building_new hn).1] at hf
        cases hf
  · intro d hd
    rcases mem_obsoleteEntries_logAndApply hd with hd | ⟨hd, -⟩
    · exact hd
    · rw [Db.finishEdit_eq] at hd
      cases hd

theorem flushShard_extends (b : Nat) : db.Extends cfg (db.flushShard cfg b) := by
  have h₁ := h.finishBlob b
  have he : db.Extends cfg (db.finishBlob cfg b) := finishBlob_extends b
  unfold Db.flushShard
  dsimp only
  split
  case h_1 => exact he
  case h_2 shard hb =>
    split
    · exact he
    · refine he.trans (.trans (h₁.batchFinishFiles_extends ?_) (setShard_extends b _))
      exact fun m hm => h₁.finished_new (mem_of_getElem? hb) hm

private theorem addBuildingFile_extends (n : UInt64) : db.Extends cfg { db with
      fileSet := db.fileSet.addBuildingFile cfg.cfId n } := by
  refine ⟨rfl, rfl, rfl, rfl, rfl, rfl, ?_, ?_, ?_, ?_, fun h => h⟩
  · intro k hk
    rw [installed_iff] at hk ⊢
    exact (file_addBuilding db.fileSet ..) ▸ hk
  · intro k hk
    rw [live_iff] at hk ⊢
    unfold live at hk ⊢
    exact (file_addBuilding db.fileSet ..) ▸ hk
  · intro k hk
    exact .inl ((building_addBuilding db.fileSet cfg.cfId n k h.isSome_lookup).2 (.inr hk))
  · exact fun d hd => mem_obsolete_addBuilding hd

theorem openFile_extends (hopen : db.openFile cfg b created = some (result, db')) :
    db.Extends cfg db' := by
  unfold Db.openFile at hopen
  split at hopen
  case h_1 => cases hopen
  case h_2 =>
    split at hopen
    case h_1 =>
      cases hopen
      exact .refl cfg db
    case h_2 =>
      split at hopen
      case h_1 => cases hopen
      case h_2 hnew =>
        cases hopen
        exact h.newFile_extends hnew
      case h_3 n db₁ hnew =>
        cases hopen
        exact ((h.newFile_extends hnew).trans ((h.newFile hnew).addBuildingFile_extends n)).trans
          (setShard_extends b _)

-- ==== the foreground builder

omit h in
/-- The batch points the key of the record `r` at the record, in a file
being built; for an empty key it points nothing. -/
def Copies (cfg : Config) (db : Db) (r : BlobRecord) (batch : WriteBatch) :
    Prop :=
  (batch = [] ∧ r.key.isEmpty = true)
    ∨ ∃ i, batch = [(r.key, LsmEntry.ofIndex cfg.coding i)]
      ∧ db.record i = some r ∧ db.building cfg i.fileNumber = true

omit h in
/-- What `builder.Add` does: it takes nothing away, and fills a batch
unless the value is not for a blob file or no file can be created. -/
structure Added (cfg : Config) (db db' : Db) (inputs hidden : List UInt64)
    (key : UserKey) (value : Bytes) (created : Bool)
    (result : Except Status WriteBatch) : Prop where
  filing : Filing cfg db' inputs hidden
  extends_ : db.Extends cfg db'
  batch : ∀ {batch}, result = .ok batch → Copies cfg db' { key, value } batch
  failed : ∀ {s}, result = .error s → cfg.separates value = true → created = false

omit h in
theorem created_of_openFile_error (hopen : db.openFile cfg b created = some (.error s, db')) :
    created = false := by
  unfold Db.openFile at hopen
  split at hopen
  case h_1 => cases hopen
  case h_2 =>
    split at hopen
    case h_1 => cases hopen
    case h_2 =>
      split at hopen
      case h_1 => cases hopen
      case h_2 hnew =>
        unfold Db.newFile at hnew
        dsimp only at hnew
        split at hnew
        case isFalse => cases hnew
        case isTrue =>
          split at hnew
          case isTrue => cases hnew
          case isFalse hc => simpa using hc
      case h_3 => cases hopen

theorem addRecord (hsep : cfg.dbOptions.sepBeforeFlush = true) {result : Except Status WriteBatch}
    (hadd : db.addRecord cfg b record created = some (result, db')) :
    Added cfg db db' inputs hidden record.key record.value created result := by
  unfold Db.addRecord at hadd
  split at hadd
  case h_1 => cases hadd
  case h_2 s db₁ hopen =>
    cases hadd
    exact ⟨h.openFile_error hopen, h.openFile_extends hopen,
      (fun hb => nomatch hb), fun _ _ => created_of_openFile_error hopen⟩
  case h_3 number db₁ hopen =>
    obtain ⟨h₁, hbuild⟩ := h.openFile hsep hopen
    split at hadd
    case h_1 => cases hadd
    case h_2 index db₂ happ =>
      cases hadd
      obtain ⟨he₂, hnum, hrec, hfs, hsh⟩ := append_spec happ
      have h₂ := h₁.append happ
      have hbuild₂ : db₂.building cfg index.fileNumber = true := by
        unfold Db.building
        rw [hfs, hnum]
        exact hbuild
      have he₃ : db₂.Extends cfg (db₂.rollOver cfg b number) := rollOver_extends b number
      refine ⟨h₂.rollOver b number, ((h.openFile_extends hopen).trans he₂).trans he₃, ?_,
        fun hb => nomatch hb⟩
      intro batch hb
      cases hb
      refine .inr ⟨index, rfl, he₃.record hrec, ?_⟩
      exact (building_rollOver b number _).trans hbuild₂

theorem builderAdd (hsep : cfg.dbOptions.sepBeforeFlush = true)
    {key : UserKey} {value : Bytes} {result : Except Status WriteBatch}
    (hadd : db.builderAdd cfg key value created = some (result, db')) :
    Added cfg db db' inputs hidden key value created result := by
  unfold Db.builderAdd at hadd
  split at hadd
  case isTrue hsmall =>
    cases hadd
    refine ⟨h, .refl cfg db, (fun hb => nomatch hb), fun _ hs => ?_⟩
    rw [hs] at hsmall
    cases hsmall
  case isFalse =>
    split at hadd
    case isTrue hempty =>
      cases hadd
      refine ⟨h.flushShard _, h.flushShard_extends _, ?_, fun hb => nomatch hb⟩
      intro batch hb
      cases hb
      exact .inl ⟨rfl, hempty⟩
    case isFalse => exact h.addRecord hsep hadd

end

-- ==== output files

/-- The output file of a job for its next record. -/
theorem outputFile {job : GcJob} (h : Filing cfg db inputs (job.outputs ++ rest))
    (hout : db.outputFile cfg job created = some (.ok (number, job'), db')) :
    Filing cfg db' inputs (job'.outputs ++ rest) ∧ db.Extends cfg db'
      ∧ number ∈ job'.outputs ∧ job.outputs ⊆ job'.outputs
      ∧ ∃ outputs fileSize, job' = { job with outputs, fileSize } := by
  have hnew : Db.outputFile.newOutput db job created = some (.ok (number, job'), db') →
      Filing cfg db' inputs (job'.outputs ++ rest) ∧ db.Extends cfg db'
        ∧ number ∈ job'.outputs ∧ job.outputs ⊆ job'.outputs
        ∧ ∃ outputs fileSize, job' = { job with outputs, fileSize } := by
    intro hout
    unfold Db.outputFile.newOutput at hout
    split at hout
    case h_1 => cases hout
    case h_2 => cases hout
    case h_3 n db₁ hn =>
      cases hout
      refine ⟨(h.newFile hn).mono (fun _ h => h) ?_, h.newFile_extends hn,
        mem_append_right _ mem_cons_self, subset_append_left .., _, _, rfl⟩
      rw [append_assoc]
      exact perm_middle.subperm
  unfold Db.outputFile at hout
  split at hout
  case h_1 n hlast =>
    split at hout
    case isTrue =>
      cases hout
      exact ⟨h, .refl cfg db, mem_of_getLast? hlast, List.Subset.refl _, _, _, rfl⟩
    case isFalse => exact hnew hout
  case h_2 => exact hnew hout

theorem outputFile_error (h : Filing cfg db inputs (job.outputs ++ rest))
    (hout : db.outputFile cfg job created = some (.error s, db')) :
    Filing cfg db' inputs (job.outputs ++ rest) ∧ db.Extends cfg db' := by
  have hnew : Db.outputFile.newOutput db job created = some (.error s, db') →
      Filing cfg db' inputs (job.outputs ++ rest) ∧ db.Extends cfg db' := by
    intro hout
    unfold Db.outputFile.newOutput at hout
    split at hout
    case h_1 => cases hout
    case h_2 hn =>
      cases hout
      exact ⟨h.newFile_error hn, h.newFile_extends hn⟩
    case h_3 => cases hout
  unfold Db.outputFile at hout
  split at hout
  case h_1 =>
    split at hout
    case isTrue => cases hout
    case isFalse => exact hnew hout
  case h_2 => exact hnew hout

/-- The batch that points the key of a record at its copy. -/
def copyBatch (cfg : Config) (index new : BlobIndex) (record : BlobRecord) : RewriteBatch where
  batch := [(record.key, LsmEntry.ofIndex cfg.coding new)]
  key := record.key
  blobIndex := index

/-- A live record copied to an output file, or the end of the job. -/
theorem addOutput {job : GcJob} (h : Filing cfg db inputs (job.outputs ++ rest))
    (hadd : db.addOutput cfg job index record created = some (job', db')) :
    db.Extends cfg db' ∧ ((∃ s, job' = { job with
        status := s, stage := .release }
        ∧ Filing cfg db' inputs (job.outputs ++ rest))
      ∨ ∃ outputs fileSize new, job' = { job with
          outputs, fileSize
          rewriteBatches := job.rewriteBatches ++ [copyBatch cfg index new record]
          relocated := job.relocated ++ [copyBatch cfg index new record] }
        ∧ db'.record new = some record ∧ new.fileNumber ∈ outputs
        ∧ job.outputs ⊆ outputs ∧ Filing cfg db' inputs (outputs ++ rest)) := by
  unfold Db.addOutput at hadd
  split at hadd
  case h_1 => cases hadd
  case h_2 s db₁ hout =>
    cases hadd
    obtain ⟨h₁, he₁⟩ := h.outputFile_error hout
    exact ⟨he₁, .inl ⟨s, rfl, h₁⟩⟩
  case h_3 number job₁ db₁ hout =>
    obtain ⟨h₁, he₁, hmem, hmore, outputs, fileSize, rfl⟩ := h.outputFile hout
    split at hadd
    case h_1 => cases hadd
    case h_2 new db₂ happ =>
      cases hadd
      obtain ⟨he₂, hnum, hrec, -, -⟩ := append_spec happ
      exact ⟨he₁.trans he₂, .inr ⟨outputs, _, new, rfl, hrec,
        by rw [hnum]; exact hmem, hmore, h₁.append happ⟩⟩

theorem map_outputMeta (outputs : List UInt64) :
    (outputs.map (db.outputMeta cfg)).map (·.fileNumber) = outputs := by
  rw [map_map]
  exact map_id outputs

/-- `InstallOutputBlobFiles`, no builder failed: the output files are
installed. -/
theorem installOutputs (h : Filing cfg db inputs (job.outputs ++ rest))
    (hio : (Status.firstFailure io.finish job.outputs).isOk = true) :
    (db.installOutputBlobFiles cfg job io).1 = .ok
      ∧ Filing cfg (db.installOutputBlobFiles cfg job io).2 inputs rest
      ∧ db.Extends cfg (db.installOutputBlobFiles cfg job io).2
      ∧ ∀ n ∈ job.outputs, (db.installOutputBlobFiles cfg job io).2.live cfg n = true := by
  have hnums : (job.outputs.map (db.outputMeta cfg)).map (·.fileNumber)
      = job.outputs := map_outputMeta job.outputs
  have hnew : ∀ m ∈ job.outputs.map (db.outputMeta cfg), m.isObsolete = false := by
    intro m hm
    obtain ⟨n, -, rfl⟩ := mem_map.1 hm
    rfl
  have hnodup := nodup_append.1 h.hidden_nodup
  have hwriting : ∀ n ∈ (job.outputs.map (db.outputMeta cfg)).map
      (·.fileNumber), db.building cfg n = true ∨ n ∈ job.outputs ++ rest := by
    intro n hn
    exact .inr (mem_append_left _ (hnums ▸ hn))
  have hadm := h.admits_finishEdit (hnums.symm ▸ hnodup.1) hwriting
  unfold Db.installOutputBlobFiles
  rw [if_pos hio]
  refine ⟨(logAndApply_applied hadm).1, ?_, h.batchFinishFiles_extends hnew, ?_⟩
  · refine h.install (hnums.symm ▸ hnodup.1) hwriting hnew (List.Subperm.refl db.shardNumbers) ?_
      (fun s hs m hm => h.finished_new hs hm) (sublist_append_right ..).subperm ?_
    · intro n hn hf
      have hb := h.shards_building hn
      rw [(h.hidden_new (mem_append_left _ (hnums ▸ hf))).2.2.2] at hb
      cases hb
    · intro n hn hf
      exact hnodup.2.2 n (hnums ▸ hf) n hn rfl
  · intro n hn
    exact live_iff.2 ((live_finishEdit h.isSome_lookup hadm hnew).2 (.inr (hnums.symm ▸ hn)))

/-- `InstallOutputBlobFiles`, a builder failed: the output files are
deleted, and nothing else changes. -/
theorem installOutputs_failed (h : Filing cfg db inputs (job.outputs ++ rest))
    (hio : (Status.firstFailure io.finish job.outputs).isOk = false) :
    Filing cfg (db.installOutputBlobFiles cfg job io).2 inputs rest := by
  unfold Db.installOutputBlobFiles
  rw [if_neg (by simp [hio])]
  exact (h.batchDeleteFiles job.outputs io.deleteFile).mono (fun _ h => h)
    (sublist_append_right ..).subperm

end Filing

end DiffKV
