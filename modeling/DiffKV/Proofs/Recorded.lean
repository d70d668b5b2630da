/-
What the manifest records stays recorded: every step of the database
appends to the manifest or leaves it.
-/
import DiffKV.Proofs.Steps

namespace DiffKV

open Lib BlobFileSet Db

variable {cfg : Config} {db db' : Db} {job job' : GcJob}

namespace Db

/-- A record of the manifest adds the file `n`. -/
def Recorded (cfg : Config) (db : Db) (n : UInt64) : Prop :=
  ∃ record ∈ db.fileSet.records, ∃ e,
    VersionEdit.decodeInto cfg.coding record = .ok e ∧ e.Adds cfg.cfId n

/-- Whether one record does. -/
instance (C : Coding) (record : Bytes) (i : UInt32) (n : UInt64) :
    Decidable (∃ e, VersionEdit.decodeInto C record = .ok e ∧ e.Adds i n) :=
  match VersionEdit.decodeInto C record with
  | .ok e => decidable_of_iff (e.Adds i n)
      ⟨fun hadds => ⟨e, rfl, hadds⟩, fun ⟨_, he, hadds⟩ => by
        cases he
        exact hadds⟩
  | .error _ => isFalse fun ⟨_, he, _⟩ => nomatch he

instance (n : UInt64) : Decidable (db.Recorded cfg n) := by
  unfold Recorded
  infer_instance

/-- The second manifest has the records of the first. -/
def Logs (db db' : Db) : Prop := db.fileSet.records ⊆ db'.fileSet.records

theorem Logs.of_manifest (h : db'.fileSet.manifest = db.fileSet.manifest) : db.Logs db' := by
  unfold Logs records
  rw [h]
  exact List.Subset.refl _

theorem Recorded.mono {n : UInt64} (h : db.Recorded cfg n)
    (hlogs : db.Logs db') : db'.Recorded cfg n := by
  obtain ⟨record, hmem, he⟩ := h
  exact ⟨record, hlogs hmem, he⟩

end Db

/-- A live file is recorded. -/
theorem Filing.recorded {inputs hidden : List UInt64} (h : Filing cfg db inputs hidden) {n : UInt64}
    (hn : db.live cfg n = true) : db.Recorded cfg n := by
  obtain ⟨es, hes, -⟩ := h.logged
  obtain ⟨e, he, hadds⟩ := hes.live_added cfg.cfId n (Filing.live_iff.1 hn)
  refine ⟨e.encodeTo cfg.coding, ?_, e.persisted,
    VersionEdit.decodeInto_encodeTo e, (e.persisted_adds _ _).2 hadds⟩
  rw [hes.records]
  exact List.mem_map_of_mem he

-- ==== growth

namespace Db

variable {created : Bool} {result : Except Status UInt64} {b : Nat}
  {record : BlobRecord} {job : GcJob}

theorem records_logAndApply (C : Coding) (fs : BlobFileSet)
    (e : VersionEdit) : fs.records ⊆ (fs.logAndApply C e .ok).2.records := by
  by_cases hadm : fs.admits e = true
  case neg =>
    rw [(logAndApply_refused (by simpa using hadm)).2]
    exact List.Subset.refl _
  case pos =>
    obtain ⟨-, storages, heq, -⟩ := logAndApply_applied (C := C) ((admits_iff fs e).1 hadm)
    rw [heq]
    unfold records appended appendRecord
    cases fs.manifest with
    | none => exact List.Subset.refl _
    | some m => exact List.subset_append_left ..

theorem logs_batchFinishFiles (files : List BlobFileMeta) :
    db.Logs (db.batchFinishFiles cfg files).2 := records_logAndApply ..

theorem logs_deleteInputBlobFiles (job : GcJob) :
    db.Logs (db.deleteInputBlobFiles cfg job).2 := records_logAndApply ..

theorem manifest_newFile (h : db.newFile created = some (result, db')) :
    db'.fileSet.manifest = db.fileSet.manifest := by
  unfold newFile newFileNumber at h
  dsimp only at h
  split at h
  case isFalse => cases h
  case isTrue => split at h <;> cases h <;> rfl

theorem fileSet_finishBlob (b : Nat) : (db.finishBlob cfg b).fileSet = db.fileSet := by
  unfold finishBlob
  split
  · rfl
  · split
    · rfl
    · split <;> rfl

theorem fileSet_rollOver (b : Nat) (number : UInt64) :
    (db.rollOver cfg b number).fileSet = db.fileSet := by
  unfold rollOver
  split
  · rfl
  · split
    · exact fileSet_finishBlob b
    · rfl

theorem manifest_openFile (h : db.openFile cfg b created = some (result, db')) :
    db'.fileSet.manifest = db.fileSet.manifest := by
  unfold openFile at h
  split at h
  case h_1 => cases h
  case h_2 =>
    split at h
    case h_1 => cases h; rfl
    case h_2 =>
      split at h
      case h_1 => cases h
      case h_2 hnew => cases h; exact manifest_newFile hnew
      case h_3 hnew =>
        have hmanifest := manifest_newFile hnew
        cases h
        exact hmanifest

theorem manifest_addRecord {result : Except Status WriteBatch}
    (h : db.addRecord cfg b record created = some (result, db')) :
    db'.fileSet.manifest = db.fileSet.manifest := by
  unfold addRecord at h
  split at h
  case h_1 => cases h
  case h_2 hopen => cases h; exact manifest_openFile hopen
  case h_3 hopen =>
    split at h
    case h_1 => cases h
    case h_2 happ =>
      cases h
      rw [fileSet_rollOver, (Filing.append_spec happ).2.2.2.1]
      exact manifest_openFile hopen

theorem logs_flushShard (b : Nat) : db.Logs (db.flushShard cfg b) := by
  have hfinish : db.Logs (db.finishBlob cfg b) := .of_manifest (congrArg _ (fileSet_finishBlob b))
  unfold flushShard
  dsimp only
  split
  · exact hfinish
  · split
    · exact hfinish
    · exact fun _ hr => logs_batchFinishFiles _ (hfinish hr)

theorem logs_builderAdd {key : UserKey} {value : Bytes} {result : Except Status WriteBatch}
    (h : db.builderAdd cfg key value created = some (result, db')) : db.Logs db' := by
  unfold builderAdd at h
  split at h
  · cases h
    exact List.Subset.refl _
  · split at h
    · cases h
      exact logs_flushShard _
    · exact .of_manifest (manifest_addRecord h)

theorem manifest_outputFile {result : Except Status (UInt64 × GcJob)}
    (h : db.outputFile cfg job created = some (result, db')) :
    db'.fileSet.manifest = db.fileSet.manifest := by
  have hnew : outputFile.newOutput db job created = some (result, db') →
      db'.fileSet.manifest = db.fileSet.manifest := by
    intro h
    unfold outputFile.newOutput at h
    split at h
    case h_1 => cases h
    case h_2 hnew => cases h; exact manifest_newFile hnew
    case h_3 hnew => cases h; exact manifest_newFile hnew
  unfold outputFile at h
  split at h
  · split at h
    · cases h; rfl
    · exact hnew h
  · exact hnew h

theorem manifest_addOutput {job' : GcJob} {index : BlobIndex}
    (h : db.addOutput cfg job index record created = some (job', db')) :
    db'.fileSet.manifest = db.fileSet.manifest := by
  unfold addOutput at h
  split at h
  case h_1 => cases h
  case h_2 hout => cases h; exact manifest_outputFile hout
  case h_3 hout =>
    split at h
    case h_1 => cases h
    case h_2 happ =>
      cases h
      rw [(Filing.append_spec happ).2.2.2.1]
      exact manifest_outputFile hout

end Db

theorem CheckCase.manifest (h : CheckCase cfg db job job' db') :
    db'.fileSet.manifest = db.fileSet.manifest := by
  cases h with
  | copied _ _ _ hadd => exact manifest_addOutput hadd
  | _ => rfl

theorem logs_gcStep {io : GcIO} (h : db.gcStep cfg job io = some (job', db')) : db.Logs db' := by
  unfold gcStep at h
  split at h
  case h_1 => exact .of_manifest (checkCase h).manifest
  case h_2 =>
    unfold gcAdd at h
    split at h
    case h_1 => cases h
    case h_2 hadd => cases h; exact logs_builderAdd hadd
    case h_3 hadd => cases h; exact logs_builderAdd hadd
  case h_3 =>
    unfold gcWrite at h
    split at h <;> cases h <;> exact List.Subset.refl _
  case h_4 =>
    unfold gcInstall installOutputBlobFiles at h
    dsimp only at h
    cases h
    split
    · exact logs_batchFinishFiles _
    · exact List.Subset.refl _
  case h_5 rest _ =>
    cases rest with
    | nil => cases h; exact List.Subset.refl _
    | cons rb rest =>
      cases h
      unfold rewriteOne
      split <;> exact List.Subset.refl _
  case h_6 =>
    unfold gcDelete at h
    split at h
    · cases h; exact List.Subset.refl _
    · cases h; exact logs_deleteInputBlobFiles job
  case h_7 => cases h; exact List.Subset.refl _
  case h_8 => cases h

/-- Every step appends to the manifest or leaves it. -/
theorem logs_step {a : Action} (h : db.step cfg a = some db') : db.Logs db' := by
  cases a with
  | putAdd key value created =>
    replace h : db.putAdd cfg key value created = some db' := h
    unfold putAdd at h
    split at h
    · split at h
      case h_1 => cases h
      case h_2 hadd =>
        have hlogs := logs_builderAdd hadd
        cases h
        exact hlogs
    · cases h; exact List.Subset.refl _
  | putWrite i =>
    replace h : db.putWrite i = some db' := h
    unfold putWrite at h
    split at h <;> cases h
    exact List.Subset.refl _
  | flushShard b => cases h; exact logs_flushShard b
  | gcPick inputs todo =>
    replace h : db.gcPick cfg inputs todo = some db' := h
    unfold gcPick at h
    split at h <;> cases h
    exact List.Subset.refl _
  | gcStep j io =>
    unfold step at h
    dsimp only at h
    split at h
    case h_1 => cases h
    case h_2 =>
      split at h
      case h_1 => cases h
      case h_2 hjob =>
        have hlogs := logs_gcStep hjob
        cases h
        exact hlogs
  | purgeApply i =>
    unfold step at h
    dsimp only at h
    split at h
    case h_1 => cases h
    case h_2 q hq =>
      cases h
      exact .of_manifest (db.fileSet.purged_getObsoleteFiles q).manifest
  | delete | flushCompleted | takeSnapshot | releaseSnapshot | purgeRead =>
    cases h
    exact List.Subset.refl _

end DiffKV
