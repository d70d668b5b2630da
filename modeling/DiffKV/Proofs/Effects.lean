/-
What the steps do to files and records: a file stays usable until the
job that collects it marks it obsolete, and the records of a usable file
stay.
-/
import DiffKV.Proofs.Steps

namespace DiffKV

open Lib BlobFileSet Db

variable {cfg : Config} {db db' db₁ : Db} {inputs hidden : List UInt64}
  {n : UInt64} {i : BlobIndex} {r : BlobRecord} {io : GcIO} {a : Action}
  {job job' : GcJob}

theorem usable_iff : db.usable cfg n = true ↔ db.building cfg n = true ∨ db.live cfg n = true := by
  unfold usable
  rw [Bool.or_eq_true]

theorem Db.Extends.usable (h : db.Extends cfg db')
    (hn : db.usable cfg n = true) : db'.usable cfg n = true := by
  rcases usable_iff.1 hn with hn | hn
  · exact usable_iff.2 (h.building hn)
  · exact usable_iff.2 (.inr (h.live hn))

/-- The job is about to mark its inputs obsolete. -/
def GcJob.deleting (job : GcJob) : Bool :=
  match job.stage with
  | .deleteInputs => true
  | _ => false

section

variable (h : JobStep cfg db job io job' db₁)
include h

theorem JobStep.inputs_eq : job'.inputs = job.inputs := by
  cases h <;> rfl

omit h in
/-- What a step of a job does to the database, its jobs apart. -/
inductive JobEffect (cfg : Config) (db : Db) (job : GcJob) (io : GcIO) : Db → Prop
  | same : JobEffect cfg db job io db
  | grows {db' : Db} (hext : db.Extends cfg db') : JobEffect cfg db job io db'
  | writes (batch : WriteBatch) : JobEffect cfg db job io (db.write batch)
  | deletes (h : job.deleting = true) : JobEffect cfg db job io (db.deleteInputBlobFiles cfg job).2
  | cleans (hinstall : job.stage = .install)
      (hio : (Status.firstFailure io.install.finish job.outputs).isOk = false) :
      JobEffect cfg db job io (db.batchDeleteFiles job.outputs io.install.deleteFile).2

theorem JobStep.effect : JobEffect cfg db job io db₁ := by
  cases h with
  | ended | discarded | live | notWritten | rewritesEnded | notRewritten
  | dropped => exact .same
  | written | rewritten => exact .writes _
  | stopped _ _ hext | stoppedAfter _ _ _ _ _ _ hext
  | copied _ _ _ _ _ _ _ _ _ _ hext | added _ _ _ _ hext
  | notAdded _ _ _ hext | installed _ _ hext | released _ hext =>
    exact .grows hext
  | deleted hdelete => exact .deletes (by rw [GcJob.deleting, hdelete])
  | notInstalled _ _ hinstall hio => exact .cleans hinstall hio

theorem JobStep.puts : db₁.puts = db.puts := by
  cases h.effect with
  | grows hext => exact hext.puts
  | _ => rfl

/-- The jobs collect what they did. -/
theorem JobStep.mem_inputs {j : Nat} (hj : db.jobs[j]? = some job)
    (hn : n ∈ (db.jobs.set j job').flatMap GcJob.inputs) : n ∈ db.inputs := by
  have hn := (perm_flatMap_set GcJob.inputs hj job').mem_iff.1 hn
  rw [h.inputs_eq] at hn
  exact (perm_flatMap_of_getElem? GcJob.inputs hj).mem_iff.2 hn

end

-- ==== the special steps

theorem record_purge_of_not_listed (q : SequenceNumber) (hi : ¬ db.Listed i.fileNumber) :
    (db.purge q).record i = db.record i := by
  unfold Db.record purge
  rw [Table.lookup_foldl_erase, if_neg]
  intro hn
  obtain ⟨s, hs, -⟩ := obsolete_of_mem_getObsoleteFiles hn
  exact hi ⟨s, hs⟩

namespace Filing

variable (h : Filing cfg db inputs hidden)
include h

theorem live_deleteInputs (hn : db.live cfg n = true) (hout : n ∉ job.inputs) :
    (db.deleteInputBlobFiles cfg job).2.live cfg n = true := by
  obtain ⟨st, hst, -⟩ := h.opened
  have hopen : (db.fileSet.columnFamilies.lookup cfg.cfId).isSome = true :=
    Option.isSome_iff_exists.2 ⟨st, hst⟩
  by_cases hadm : db.fileSet.admits (deleteEdit cfg job.inputs db.seq) = true
  case neg =>
    have heq : (db.deleteInputBlobFiles cfg job).2 = db := by
      unfold deleteInputBlobFiles
      dsimp only
      rw [(logAndApply_refused (by simpa using hadm)).2]
    rw [heq]
    exact hn
  case pos =>
    exact live_iff.2 ((live_deleteEdit hopen ((admits_iff ..).1 hadm)).2 ⟨live_iff.1 hn, hout⟩)

theorem usable_deleteInputs (hn : db.usable cfg n = true) (hout : n ∉ job.inputs) :
    (db.deleteInputBlobFiles cfg job).2.usable cfg n = true := by
  rcases usable_iff.1 hn with hn | hn
  · rcases building_logAndApply (C := cfg.coding)
      (e := deleteEdit cfg job.inputs db.seq) hn with hb | hf
    · exact usable_iff.2 (.inl hb)
    · -- a deletion installs nothing
      rcases file_of_logAndApply hf with hf | hadd
      · have := (h.building_new hn).1
        rw [Filing.installed_iff.2 hf] at this
        cases this
      · rw [VersionEdit.Adds, deleteEdit_eq] at hadd
        cases hadd.2
  · exact usable_iff.2 (.inr (h.live_deleteInputs hn hout))

theorem usable_purge (q : SequenceNumber) (n : UInt64) :
    (db.purge q).usable cfg n = db.usable cfg n := by
  unfold usable
  rw [h.building_purge, h.live_purge]

/-- Only `sep_before_flush` has files being built. -/
theorem sep_of_building (hn : db.building cfg n = true) : cfg.dbOptions.sepBeforeFlush = true := by
  obtain ⟨st, hst, hopt, -, hap⟩ := h.opened
  obtain ⟨st', hst', hb⟩ := building_iff.1 hn
  cases hst.symm.trans hst'
  exact hopt ▸ (hap n hb).1

/-- A listed file is not usable. -/
theorem not_listed_of_usable (hn : db.usable cfg n = true) : ¬ db.Listed n := by
  intro hl
  rcases usable_iff.1 hn with hn | hn
  · exact (h.building_new hn).2.1 hl
  · rw [h.listed_dead hl] at hn
    cases hn

/-- A file of a job is not usable before it is installed. -/
theorem not_hidden_of_usable (hn : db.usable cfg n = true) : n ∉ hidden := by
  intro hh
  obtain ⟨hinst, -, -, hb⟩ := h.hidden_new hh
  rcases usable_iff.1 hn with hn | hn
  · rw [hb] at hn
    cases hn
  · have hf := installed_iff.2 (file_of_live (live_iff.1 hn))
    rw [hinst] at hf
    cases hf

theorem record_purge (q : SequenceNumber) (hi : db.usable cfg i.fileNumber = true) :
    (db.purge q).record i = db.record i := record_purge_of_not_listed q (h.not_listed_of_usable hi)

end Filing

theorem record_batchDeleteFiles {numbers : List UInt64}
    {deleteFile : UInt64 → Status} (hi : i.fileNumber ∉ numbers) :
    (db.batchDeleteFiles numbers deleteFile).2.record i = db.record i := by
  unfold Db.record
  rw [Filing.lookup_batchDeleteFiles, if_neg fun h => hi h.1]

-- ==== any step

section

variable {j : Nat} {io : GcIO}

/-- A file stays usable, unless the job is the one that collects it and
has come to its end. -/
theorem JobStep.usable (hstep : JobStep cfg db job io job' db₁)
    (h : Filed cfg db) (hn : db.usable cfg n = true) (hout : job.deleting = true → n ∉ job.inputs) :
    db₁.usable cfg n = true := by
  cases hstep.effect with
  | same | writes | cleans => exact hn
  | grows hext => exact hext.usable hn
  | deletes hdelete => exact h.filing.usable_deleteInputs hn (hout hdelete)

/-- The records of a usable file stay. -/
theorem JobStep.record (hstep : JobStep cfg db job io job' db₁)
    (h : Filed cfg db) (hj : db.jobs[j]? = some job)
    (hi : db.usable cfg i.fileNumber = true) (hr : db.record i = some r) :
    db₁.record i = some r := by
  cases hstep.effect with
  | same | writes | deletes => exact hr
  | grows hext => exact hext.record hr
  | cleans hinstall =>
    rw [record_batchDeleteFiles]
    · exact hr
    · intro hn
      refine (h.atJob hj).not_hidden_of_usable hi (List.mem_append_left _ ?_)
      unfold GcJob.hidden
      rw [hinstall]
      exact hn

end

theorem DbStep.usable (hstep : DbStep cfg db a db') (h : Filed cfg db) (hn : db.usable cfg n = true)
    (hout : ∀ job ∈ db.jobs, job.deleting = true → n ∉ job.inputs) : db'.usable cfg n = true := by
  cases hstep with
  | putAdd _ hext | flushShard hext | flushCompleted hext | gcPick hext =>
    exact hext.usable hn
  | putWrite | delete | takeSnapshot | releaseSnapshot | purgeRead => exact hn
  | gcStep job job' hj hjob =>
    exact hjob.usable h hn (hout job (List.mem_of_getElem? hj))
  | purgeApply q => exact (h.filing.usable_purge q n).trans hn

theorem DbStep.record (hstep : DbStep cfg db a db') (h : Filed cfg db)
    (hi : db.usable cfg i.fileNumber = true) (hr : db.record i = some r) :
    db'.record i = some r := by
  cases hstep with
  | putAdd _ hext | flushShard hext | flushCompleted hext | gcPick hext =>
    exact hext.record hr
  | putWrite | delete | takeSnapshot | releaseSnapshot | purgeRead => exact hr
  | gcStep job job' hj hjob => exact hjob.record h hj hi hr
  | purgeApply q => exact (h.filing.record_purge q hi).trans hr

end DiffKV
