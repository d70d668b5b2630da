/-
What a step of a GC job can be.

`JobStep` has one case for each way a job can go on, with the data
effects of the case; `jobStep` says that there is no other. The
invariants that follow are proved along these cases and do not look
into the functions again.
-/
import DiffKV.Proofs.Filed

namespace DiffKV

open Lib Filing

variable {cfg : Config} {db db' db₁ : Db}

theorem sameFiles_extends {fs : BlobFileSet} (h : db.fileSet.SameFiles fs) :
    db.Extends cfg { db with fileSet := fs } where
  lsm := rfl
  seq := rfl
  puts := rfl
  jobs := rfl
  snapshots := rfl
  purges := rfl
  installed hn := installed_iff.2 ((h.file_ne_none cfg.cfId _).2 (installed_iff.1 hn))
  live hn := live_iff.2 ((h.live_ne_none cfg.cfId _).2 (live_iff.1 hn))
  building hn := .inl ((h.building_eq cfg.cfId _).trans hn)
  obsolete _ hp := h.mem_obsolete hp
  record hr := hr

/-- The cases of a step of the job `job`: what it meets, the job after it
and the state after it but for the jobs. -/
inductive JobStep (cfg : Config) (db : Db) (job : GcJob) : GcIO → GcJob → Db → Prop where
  -- `DoRunGC`
  | ended {io} (stage) (hrun : job.stage = .run) (htodo : job.todo = [])
      (hstage : stage = .release ∨ (cfg.foregroundGC = true ∧ stage = .deleteInputs)
        ∨ (cfg.foregroundGC = false ∧ stage = .install))
      (hok : stage ≠ .release → job.status.isOk = true) :
      JobStep cfg db job io { job with stage } db
  | stopped {io db'} (s : Status) (hrun : job.stage = .run) (hext : db.Extends cfg db') :
      JobStep cfg db job io { job with status := s, stage := .release } db'
  | stoppedAfter {io db'} (s : Status) (i r todo) (hrun : job.stage = .run)
      (htodo : job.todo = (i, r) :: todo) (hext : db.Extends cfg db') :
      JobStep cfg db job io { job with todo, status := s, stage := .release } db'
  | discarded {io} (i r todo) (hrun : job.stage = .run) (htodo : job.todo = (i, r) :: todo)
      (hentry : db.discardEntry cfg r.key i = .ok true) :
      JobStep cfg db job io { job with todo, status := .ok } db
  | live {io} (i r todo) (hrun : job.stage = .run) (hfg : cfg.foregroundGC = true)
      (htodo : job.todo = (i, r) :: todo)
      (hentry : db.discardEntry cfg r.key i = .ok false) :
      JobStep cfg db job io { job with todo, status := .ok, stage := .add i r } db
  | copied {io db'} (i r todo outputs fileSize new) (hrun : job.stage = .run)
      (hfg : cfg.foregroundGC = false)
      (htodo : job.todo = (i, r) :: todo)
      (hentry : db.discardEntry cfg r.key i = .ok false)
      (hext : db.Extends cfg db') (hnew : db'.record new = some r)
      (hout : new.fileNumber ∈ outputs) (hmore : job.outputs ⊆ outputs) :
      JobStep cfg db job io
        { job with
          todo, status := .ok, outputs, fileSize
          rewriteBatches :=
            job.rewriteBatches ++ [Filing.copyBatch cfg i new r]
          relocated := job.relocated ++ [Filing.copyBatch cfg i new r] } db'
  | added {io db'} (i r batch) (hadd : job.stage = .add i r)
      (hext : db.Extends cfg db') (hcopy : Filing.Copies cfg db' r batch) :
      JobStep cfg db job io { job with stage := .write i r batch } db'
  | notAdded {io db'} (i r) (hadd : job.stage = .add i r) (hext : db.Extends cfg db')
      (hwhy : cfg.separates r.value = true → io.created = false) :
      JobStep cfg db job io { job with stage := .run, missed := job.missed ++ [i] } db'
  | written {io} (i r batch) (hwrite : job.stage = .write i r batch)
      (hio : io.write.isOk = true) (hbatch : batch ≠ []) :
      JobStep cfg db job io
        { job with
          stage := .run, status := io.write
          relocated := job.relocated ++ [{ batch, key := r.key, blobIndex := i }] } (db.write batch)
  | notWritten {io} (i r batch) (hwrite : job.stage = .write i r batch)
      (hwhy : io.write.isOk = true → batch = []) :
      JobStep cfg db job io
        { job with
          stage := .run, status := io.write
          missed := job.missed ++ [i] } db
  -- `Finish`
  | installed {io db'} (hinstall : job.stage = .install)
      (hio : (Status.firstFailure io.install.finish job.outputs).isOk = true)
      (hext : db.Extends cfg db')
      (hlive : ∀ n ∈ job.outputs, db'.live cfg n = true) :
      JobStep cfg db job io { job with status := .ok, stage := .rewrite job.rewriteBatches } db'
  | notInstalled {io} (s stage) (hinstall : job.stage = .install)
      (hio : (Status.firstFailure io.install.finish job.outputs).isOk = false)
      (hstage : stage = .release ∨ stage = .rewrite job.rewriteBatches) :
      JobStep cfg db job io { job with status := s, stage }
        (db.batchDeleteFiles job.outputs io.install.deleteFile).2
  | rewritesEnded {io} (hrewrite : job.stage = .rewrite []) :
      JobStep cfg db job io { job with stage := .deleteInputs } db
  | rewritten {io} (rb rest) (hrewrite : job.stage = .rewrite (rb :: rest))
      (hio : io.rewrite.status.isOk = true) :
      JobStep cfg db job io { job with status := io.rewrite.status, stage := .rewrite rest }
        (db.write rb.batch)
  | notRewritten {io} (rb rest stage) (hrewrite : job.stage = .rewrite (rb :: rest))
      (hio : io.rewrite.status.isOk = false)
      (hstage : stage = .release ∨ (io.rewrite.status.isBusy = true ∧ stage = .rewrite rest)) :
      JobStep cfg db job io
        { job with
          status := io.rewrite.status, stage
          missed := job.missed ++ [rb.blobIndex] } db
  | dropped {io} (hdelete : job.stage = .deleteInputs) :
      JobStep cfg db job io { job with stage := .release } db
  | deleted {io} (hdelete : job.stage = .deleteInputs) :
      JobStep cfg db job io
        { job with
          status := (db.deleteInputBlobFiles cfg job).1
          stage := .release
          deleted := (db.deleteInputBlobFiles cfg job).1.isOk }
        (db.deleteInputBlobFiles cfg job).2
  -- `ReleaseGcFiles`
  | released {io} (hrelease : job.stage = .release)
      (hext : db.Extends cfg (db.releaseGcFiles cfg job)) :
      JobStep cfg db job io { job with stage := .done } (db.releaseGcFiles cfg job)

namespace Filed

variable {io : GcIO} {j : Nat} {job job' : GcJob}

variable (h : Filed cfg db)
include h

section

variable (hj : db.jobs[j]? = some job)
include hj

private theorem jobStep_run (hrun : job.stage = .run) (hcase : CheckCase cfg db job job' db₁) :
    JobStep cfg db job io job' db₁ := by
  cases hcase with
  | ended stage htodo hstage hok =>
    exact .ended stage hrun htodo hstage hok
  | stopped s => exact .stopped s hrun (.refl cfg db)
  | discarded htodo hentry => exact .discarded _ _ _ hrun htodo hentry
  | live htodo hentry hfg => exact .live _ _ _ hrun hfg htodo hentry
  | @copied i r todo created _ _ htodo hentry hfg hadd =>
    have h₁ : Filing cfg db db.inputs
        (({ job with todo, status := .ok } : GcJob).outputs ++ others db j) :=
      hidden_run hrun ▸ h.atJob hj
    obtain ⟨hext, ⟨s, rfl, -⟩ | ⟨outputs, fileSize, new, rfl, hnew, hout,
      hmore, -⟩⟩ := h₁.addOutput hadd
    · exact .stoppedAfter s i r todo hrun htodo hext
    · exact .copied i r todo outputs fileSize new hrun hfg htodo hentry hext hnew hout hmore

private theorem jobStep_add {i : BlobIndex} {r : BlobRecord} (hstage : job.stage = .add i r)
    (hstep : db.gcAdd cfg job i r io.created = some (job', db₁)) :
    JobStep cfg db job io job' db₁ := by
  have hfg : job.stage.Fits cfg.foregroundGC := h.fits job (List.mem_of_getElem? hj)
  rw [hstage] at hfg
  unfold Db.gcAdd at hstep
  split at hstep
  case h_1 => cases hstep
  case h_2 batch db₂ hadd =>
    cases hstep
    have hadded := h.filing.builderAdd (sep_of_foregroundGC hfg) hadd
    exact .added i r batch hstage hadded.extends_ (hadded.batch rfl)
  case h_3 s db₂ hadd =>
    cases hstep
    have hadded := h.filing.builderAdd (sep_of_foregroundGC hfg) hadd
    exact .notAdded i r hstage hadded.extends_ (hadded.failed rfl)

private theorem jobStep_install (hstage : job.stage = .install) :
    JobStep cfg db job io (db.gcInstall cfg job io.install).1
      (db.gcInstall cfg job io.install).2 := by
  have hhid : job.hidden = job.outputs := by
    unfold GcJob.hidden
    rw [hstage]
  have h₁ := hhid ▸ h.atJob hj
  cases hio : (Status.firstFailure io.install.finish job.outputs).isOk
  case true =>
    obtain ⟨hs, -, hext, hlive⟩ := h₁.installOutputs hio
    have := JobStep.installed hstage hio hext hlive
    unfold Db.gcInstall
    dsimp only
    rw [hs]
    exact this
  case false =>
    have hdb : (db.installOutputBlobFiles cfg job io.install)
        = db.batchDeleteFiles job.outputs io.install.deleteFile := by
      unfold Db.installOutputBlobFiles
      rw [if_neg (by simp [hio])]
    unfold Db.gcInstall
    rw [hdb]
    refine .notInstalled _ _ hstage hio ?_
    split
    · exact .inr rfl
    · exact .inl rfl

omit hj in
omit h in
private theorem jobStep_rewrite {rest : List RewriteBatch} (hstage : job.stage = .rewrite rest) :
    JobStep cfg db job io (db.gcRewrite job io.rewrite rest).1
      (db.gcRewrite job io.rewrite rest).2 := by
  cases rest with
  | nil => exact .rewritesEnded hstage
  | cons rb rest =>
    cases hio : io.rewrite.status.isOk
    case true =>
      have : JobStep cfg db job io _ _ := .rewritten rb rest hstage hio
      simpa [Db.gcRewrite, Db.rewriteOne, Db.RewriteIO.continues, hio] using this
    case false =>
      have : JobStep cfg db job io _ _ := .notRewritten rb rest
        (if io.rewrite.continues then .rewrite rest else .release) hstage hio (by
          unfold Db.RewriteIO.continues
          rw [hio]
          cases io.rewrite.status.isBusy
          · exact .inl rfl
          · exact .inr ⟨rfl, rfl⟩)
      simpa [Db.gcRewrite, Db.rewriteOne, hio] using this

/-- There is no other case. -/
theorem jobStep (hstep : db.gcStep cfg job io = some (job', db₁)) :
    JobStep cfg db job io job' db₁ := by
  unfold Db.gcStep at hstep
  split at hstep
  case h_1 hstage => exact h.jobStep_run hj hstage (checkCase hstep)
  case h_2 i r hstage => exact h.jobStep_add hj hstage hstep
  case h_3 i r batch hstage =>
    unfold Db.gcWrite at hstep
    split at hstep
    case isTrue hok =>
      cases hstep
      rw [Bool.and_eq_true] at hok
      exact .written i r batch hstage hok.1 (by simpa using hok.2)
    case isFalse hok =>
      cases hstep
      exact .notWritten i r batch hstage (by simpa using hok)
  case h_4 hstage =>
    cases Option.some.inj hstep
    exact h.jobStep_install hj hstage
  case h_5 rest hstage =>
    have hcase : JobStep cfg db job io _ _ := jobStep_rewrite hstage
    rw [Option.some.inj hstep] at hcase
    exact hcase
  case h_6 hstage =>
    unfold Db.gcDelete at hstep
    split at hstep
    case isTrue =>
      cases hstep
      exact .dropped hstage
    case isFalse =>
      cases hstep
      exact .deleted hstage
  case h_7 hstage =>
    cases hstep
    exact .released hstage (sameFiles_extends (sameFiles_release job))
  case h_8 => cases hstep

theorem jobs_gcStep (hstep : db.gcStep cfg job io = some (job', db₁)) : db₁.jobs = db.jobs := by
  cases h.jobStep hj hstep with
  | stopped _ _ hext | stoppedAfter _ _ _ _ _ _ hext
  | copied _ _ _ _ _ _ _ _ _ _ hext | added _ _ _ _ hext
  | notAdded _ _ _ hext | installed _ _ hext => exact hext.jobs
  | _ => rfl

end

/-- Every step keeps the bookkeeping. -/
theorem step {a : Action} (hstep : db.step cfg a = some db') : Filed cfg db' := by
  cases a with
  | putAdd key value created => exact h.putAdd hstep
  | putWrite i => exact h.putWrite hstep
  | delete key =>
    cases hstep
    exact h.congr rfl rfl rfl rfl
  | flushShard b =>
    cases hstep
    exact h.ofJobs (h.filing.flushShard_extends b).jobs (h.filing.flushShard b)
  | flushCompleted numbers =>
    cases hstep
    exact h.sameFiles (Db.sameFiles_transitFiles _ fun _ _ _ _ m' _ =>
      FileEvent.spares_kFlushCompleted m')
  | gcPick inputs todo => exact h.gcPick hstep
  | gcStep j io =>
    unfold Db.step at hstep
    dsimp only at hstep
    split at hstep
    case h_1 => cases hstep
    case h_2 job hj =>
      split at hstep
      case h_1 => cases hstep
      case h_2 job' db₁ hjob =>
        cases hstep
        rw [h.jobs_gcStep hj hjob]
        exact h.gcStep hj hjob
  | takeSnapshot =>
    cases hstep
    exact h.congr rfl rfl rfl rfl
  | releaseSnapshot i =>
    cases hstep
    exact h.congr rfl rfl rfl rfl
  | purgeRead =>
    cases hstep
    exact h.congr rfl rfl rfl rfl
  | purgeApply i =>
    unfold Db.step at hstep
    dsimp only at hstep
    split at hstep
    case h_1 => cases hstep
    case h_2 q _ =>
      cases hstep
      exact (h.purge q).congr rfl rfl rfl rfl

end Filed

-- ==== any step

/-- The batch of a Put: the value itself, or the index of its record. -/
def PutBatch (cfg : Config) (db : Db) (key : UserKey) (value : Bytes) (batch : WriteBatch) : Prop :=
  batch = [(key, { value })]
    ∨ (cfg.dbOptions.sepBeforeFlush = true ∧ Filing.Copies cfg db { key, value } batch)

/-- The cases of a step of the database. -/
inductive DbStep (cfg : Config) (db : Db) : Action → Db → Prop where
  | putAdd {key value created db₁} (batch) (hext : db.Extends cfg db₁)
      (hbatch : PutBatch cfg db₁ key value batch) :
      DbStep cfg db (.putAdd key value created)
        { db₁ with puts := db.puts ++ [{ key, value, batch }] }
  | putWrite {i} (put) (hi : db.puts[i]? = some put) :
      DbStep cfg db (.putWrite i) { db.write put.batch with puts := db.puts.eraseIdx i }
  | delete (key) : DbStep cfg db (.delete key) (db.delete key)
  | flushShard {b db'} (hext : db.Extends cfg db') : DbStep cfg db (.flushShard b) db'
  | flushCompleted {numbers db'} (hext : db.Extends cfg db') :
      DbStep cfg db (.flushCompleted numbers) db'
  | gcPick {inputs todo db₁} (hext : db.Extends cfg db₁)
      (hnormal : inputs.all (db.checkBlobFile cfg) = true)
      (htodo : todo.Perm (inputs.flatMap db.recordsOf)) :
      DbStep cfg db (.gcPick inputs todo) { db₁ with jobs := db.jobs ++ [{ inputs, todo }] }
  | gcStep {j io db₁} (job job') (hj : db.jobs[j]? = some job)
      (hstep : JobStep cfg db job io job' db₁) :
      DbStep cfg db (.gcStep j io) { db₁ with jobs := db.jobs.set j job' }
  | takeSnapshot : DbStep cfg db .takeSnapshot { db with snapshots := db.snapshots ++ [db.seq] }
  | releaseSnapshot (i) : DbStep cfg db (.releaseSnapshot i)
      { db with snapshots := db.snapshots.eraseIdx i }
  | purgeRead : DbStep cfg db .purgeRead
      { db with purges := db.purges ++ [db.getOldestSnapshotSequence] }
  | purgeApply {i} (q) (hi : db.purges[i]? = some q) :
      DbStep cfg db (.purgeApply i) { db.purge q with purges := db.purges.eraseIdx i }

namespace Filed

private theorem dbStep_putAdd (h : Filed cfg db) {key : UserKey} {value : Bytes} {created : Bool}
    (hstep : db.putAdd cfg key value created = some db') :
    DbStep cfg db (.putAdd key value created) db' := by
  unfold Db.putAdd at hstep
  split at hstep
  case isFalse =>
    cases hstep
    exact .putAdd _ (.refl cfg db) (.inl rfl)
  case isTrue hsep =>
    split at hstep
    case h_1 => cases hstep
    case h_2 result db₁ hadd =>
      cases hstep
      have hadded := h.filing.builderAdd hsep hadd
      rw [hadded.extends_.puts]
      refine .putAdd _ hadded.extends_ ?_
      cases hresult : result with
      | ok batch => exact .inr ⟨hsep, hadded.batch hresult⟩
      | error s => exact .inl rfl

private theorem dbStep_gcPick {inputs : List UInt64} {todo : List (BlobIndex × BlobRecord)}
    (hstep : db.gcPick cfg inputs todo = some db') : DbStep cfg db (.gcPick inputs todo) db' := by
  unfold Db.gcPick at hstep
  split at hstep
  case isFalse => cases hstep
  case isTrue hpick =>
    cases hstep
    obtain ⟨-, -, hall, hperm⟩ := hpick
    exact .gcPick (sameFiles_extends (sameFiles_gcPick hall)) hall (List.isPerm_iff.1 hperm)

private theorem dbStep_gcStep (h : Filed cfg db) {j : Nat} {io : GcIO}
    (hstep : db.step cfg (.gcStep j io) = some db') : DbStep cfg db (.gcStep j io) db' := by
  unfold Db.step at hstep
  dsimp only at hstep
  split at hstep
  case h_1 => cases hstep
  case h_2 job hj =>
    split at hstep
    case h_1 => cases hstep
    case h_2 job' db₁ hjob =>
      cases hstep
      rw [h.jobs_gcStep hj hjob]
      exact .gcStep job job' hj (h.jobStep hj hjob)

/-- There is no other case. -/
theorem dbStep (h : Filed cfg db) {a : Action}
    (hstep : db.step cfg a = some db') : DbStep cfg db a db' := by
  cases a with
  | putAdd key value created => exact h.dbStep_putAdd hstep
  | putWrite i =>
    replace hstep : db.putWrite i = some db' := hstep
    unfold Db.putWrite at hstep
    split at hstep
    case h_1 => cases hstep
    case h_2 put hi =>
      cases hstep
      exact .putWrite put hi
  | delete key =>
    cases hstep
    exact .delete key
  | flushShard b =>
    cases hstep
    exact .flushShard (h.filing.flushShard_extends b)
  | flushCompleted numbers =>
    cases hstep
    exact .flushCompleted (sameFiles_extends
      (Db.sameFiles_transitFiles _ fun _ _ _ _ m' _ => FileEvent.spares_kFlushCompleted m'))
  | gcPick inputs todo => exact dbStep_gcPick hstep
  | gcStep j io => exact h.dbStep_gcStep hstep
  | takeSnapshot =>
    cases hstep
    exact .takeSnapshot
  | releaseSnapshot i =>
    cases hstep
    exact .releaseSnapshot i
  | purgeRead =>
    cases hstep
    exact .purgeRead
  | purgeApply i =>
    unfold Db.step at hstep
    dsimp only at hstep
    split at hstep
    case h_1 => cases hstep
    case h_2 q hi =>
      cases hstep
      exact .purgeApply q hi

end Filed

end DiffKV
