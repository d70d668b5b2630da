/-
The bookkeeping of blob files holds in every state of every run.

The case lemmas at the head say once what a step of a GC job can be;
the invariants of the machine are all proved from them.
-/
import DiffKV.Proofs.Writers

namespace DiffKV

open Lib List Db

variable {cfg : Config} {db db' : Db} {job job' : GcJob} {created : Bool}

-- ==== steps of a job

/-- The output files a job has not installed yet. -/
def GcJob.hidden (job : GcJob) : List UInt64 :=
  match job.stage with
  | .run | .add .. | .write .. | .install => job.outputs
  | _ => []

/-- The files all jobs have read or read. -/
def Db.inputs (db : Db) : List UInt64 := db.jobs.flatMap GcJob.inputs

/-- The output files of all jobs that are not installed yet. -/
def Db.hidden (db : Db) : List UInt64 := db.jobs.flatMap GcJob.hidden

/-- What a round of `DoRunGC` can be. -/
inductive CheckCase (cfg : Config) (db : Db) (job : GcJob) : GcJob → Db → Prop where
  /-- the loop is over -/
  | ended (stage : GcStage) (htodo : job.todo = [])
      (hstage : stage = .release ∨ (cfg.foregroundGC = true ∧ stage = .deleteInputs)
        ∨ (cfg.foregroundGC = false ∧ stage = .install))
      (hok : stage ≠ .release → job.status.isOk = true) :
      CheckCase cfg db job { job with stage } db
  /-- the job gives up -/
  | stopped (s : Status) : CheckCase cfg db job { job with status := s, stage := .release } db
  /-- the LSM tree has no use for the record -/
  | discarded {i r todo} (htodo : job.todo = (i, r) :: todo)
      (hentry : db.discardEntry cfg r.key i = .ok true) :
      CheckCase cfg db job { job with todo, status := .ok } db
  /-- a live record, on its way to the `ForegroundBuilder` -/
  | live {i r todo} (htodo : job.todo = (i, r) :: todo)
      (hentry : db.discardEntry cfg r.key i = .ok false)
      (hfg : cfg.foregroundGC = true) :
      CheckCase cfg db job { job with todo, status := .ok, stage := .add i r } db
  /-- a live record, on its way to an output file -/
  | copied {i r todo created job' db'} (htodo : job.todo = (i, r) :: todo)
      (hentry : db.discardEntry cfg r.key i = .ok false)
      (hfg : cfg.foregroundGC = false)
      (hadd : db.addOutput cfg { job with todo, status := .ok } i r created = some (job', db')) :
      CheckCase cfg db job job' db'

theorem checkCase {shutingDown : Bool}
    (h : db.gcCheck cfg job shutingDown created = some (job', db')) :
    CheckCase cfg db job job' db' := by
  unfold gcCheck at h
  split at h
  case h_1 htodo =>
    cases h
    refine .ended _ htodo ?_ ?_
    · split
      · exact .inl rfl
      · cases hfg : cfg.foregroundGC
        · exact .inr (.inr ⟨rfl, rfl⟩)
        · exact .inr (.inl ⟨rfl, rfl⟩)
    · split
      case isTrue => exact fun hne => absurd rfl hne
      case isFalse hok => exact fun _ => by simpa using hok
  case h_2 i r todo htodo =>
    split at h
    case isTrue =>
      cases h
      exact .stopped _
    case isFalse =>
      split at h
      case h_1 =>
        cases h
        exact .stopped _
      case h_2 hentry =>
        cases h
        exact .discarded htodo hentry
      case h_3 hentry =>
        split at h
        case isTrue hfg =>
          cases h
          exact .live htodo hentry hfg
        case isFalse hfg =>
          exact .copied htodo hentry (by simpa using hfg) h

-- ==== the steps

/-- Which of the two ways of relocating a stage belongs to. -/
def GcStage.Fits (foreground : Bool) : GcStage → Prop
  | .add .. | .write .. => foreground = true
  | .install | .rewrite _ => foreground = false
  | _ => True

/-- The bookkeeping of a state. -/
structure Filed (cfg : Config) (db : Db) : Prop where
  filing : Filing cfg db db.inputs db.hidden
  fits : ∀ job ∈ db.jobs, job.stage.Fits cfg.foregroundGC

namespace Filed

variable {j : Nat} {db₁ : Db} {i : BlobIndex} {inputs : List UInt64} {r : BlobRecord}

/-- The output files of the other jobs. -/
def others (db : Db) (j : Nat) : List UInt64 :=
  (db.jobs.eraseIdx j).flatMap GcJob.hidden

variable (h : Filed cfg db)
include h

theorem atJob (hj : db.jobs[j]? = some job) : Filing cfg db db.inputs (job.hidden ++ others db j) :=
  h.filing.mono (fun _ h => h) (perm_flatMap_of_getElem? GcJob.hidden hj).symm.subperm

/-- A job has moved on, the others stand still. -/
private theorem ofJob (hj : db.jobs[j]? = some job) (hin : job'.inputs = job.inputs)
    (hfits : job'.stage.Fits cfg.foregroundGC)
    (h₁ : Filing cfg db₁ db.inputs (job'.hidden ++ others db j)) :
    Filed cfg { db₁ with jobs := db.jobs.set j job' } := by
  have hperm := perm_flatMap_set GcJob.hidden hj job'
  have hinputs : (db.jobs.set j job').flatMap GcJob.inputs ⊆ db.inputs := by
    intro n hn
    have hn := (perm_flatMap_set GcJob.inputs hj job').mem_iff.1 hn
    rw [hin] at hn
    exact (perm_flatMap_of_getElem? GcJob.inputs hj).mem_iff.2 hn
  refine ⟨(h₁.mono hinputs hperm.subperm).congr rfl rfl fun _ h => h, ?_⟩
  intro x hx
  rcases mem_or_eq_of_mem_set hx with hx | rfl
  · exact h.fits x hx
  · exact hfits

/-- The jobs are where they were. -/
theorem ofJobs (hjobs : db₁.jobs = db.jobs)
    (h₁ : Filing cfg db₁ db.inputs db.hidden) : Filed cfg db₁ := by
  refine ⟨?_, fun job hjob => h.fits job (hjobs ▸ hjob)⟩
  unfold Db.inputs Db.hidden
  rw [hjobs]
  exact h₁

/-- A step that changes neither files nor builders nor jobs. -/
theorem congr (hfs : db'.fileSet = db.fileSet) (hdisk : db'.disk = db.disk)
    (hsh : db'.shards = db.shards) (hjobs : db'.jobs = db.jobs) :
    Filed cfg db' := h.ofJobs hjobs (h.filing.congr hfs hsh fun _ hn => hdisk ▸ hn)

theorem putAdd {key : UserKey} {value : Bytes}
    (hstep : db.putAdd cfg key value created = some db') : Filed cfg db' := by
  unfold Db.putAdd at hstep
  split at hstep
  case isFalse =>
    cases hstep
    exact h.congr rfl rfl rfl rfl
  case isTrue hsep =>
    split at hstep
    case h_1 => cases hstep
    case h_2 result db₁ hadd =>
      cases hstep
      have hadded := h.filing.builderAdd hsep hadd
      have h₁ : Filed cfg db₁ := h.ofJobs hadded.extends_.jobs hadded.filing
      exact h₁.congr rfl rfl rfl rfl

theorem putWrite {i : Nat} (hstep : db.putWrite i = some db') : Filed cfg db' := by
  unfold Db.putWrite at hstep
  split at hstep
  case h_1 => cases hstep
  case h_2 =>
    cases hstep
    exact h.congr rfl rfl rfl rfl

/-- A file set with the same files. -/
theorem sameFiles {fs : BlobFileSet} (hsame : db.fileSet.SameFiles fs) :
    Filed cfg { db with fileSet := fs } := h.ofJobs rfl (h.filing.sameFiles hsame)

omit h in
theorem sameFiles_gcPick (hall : inputs.all (db.checkBlobFile cfg) = true) :
    db.fileSet.SameFiles (db.transitFiles cfg inputs .kGCBegin).fileSet := by
  refine sameFiles_transitFiles inputs fun n hn m hm m' hm' => ?_
  have hcheck := all_eq_true.1 hall n hn
  unfold checkBlobFile at hcheck
  rw [hm] at hcheck
  have hstate : m.state = .kNormal := by simpa using hcheck
  refine FileEvent.spares_kGCBegin (hm'.trans ?_)
  unfold BlobFileMeta.isObsolete
  rw [hstate]
  rfl

omit h in
theorem installed_of_checkBlobFile {n : UInt64}
    (h : db.checkBlobFile cfg n = true) : db.installed cfg n = true := by
  unfold checkBlobFile at h
  unfold installed
  split at h
  · cases h
  · next hf => rw [hf]; rfl

theorem gcPick {todo : List (BlobIndex × BlobRecord)}
    (hstep : db.gcPick cfg inputs todo = some db') : Filed cfg db' := by
  unfold Db.gcPick at hstep
  split at hstep
  case isFalse => cases hstep
  case isTrue hpick =>
    cases hstep
    obtain ⟨-, -, hall, -⟩ := hpick
    have h₁ := h.sameFiles (sameFiles_gcPick hall)
    -- what is installed is not being written
    have hinst : ∀ n ∈ inputs, installed cfg
        { db with fileSet :=
          (db.transitFiles cfg inputs .kGCBegin).fileSet } n = true := by
      intro n hn
      rw [Filing.installed_iff]
      exact ((sameFiles_gcPick hall).file_ne_none cfg.cfId n).2
        (Filing.installed_iff.1 (installed_of_checkBlobFile (all_eq_true.1 hall n hn)))
    have h₂ := h₁.filing.read hinst
    refine ⟨(h₂.mono ?_ ?_).congr rfl rfl fun _ h => h, ?_⟩
    · intro n hn
      have hn : n ∈ db.jobs.flatMap GcJob.inputs ∨ n ∈ inputs := by
        simpa [Db.inputs] using hn
      exact mem_append.2 hn
    · show ((db.jobs ++ [({ inputs, todo } : GcJob)]).flatMap
        GcJob.hidden).Subperm (db.jobs.flatMap GcJob.hidden)
      rw [flatMap_append]
      exact (List.Perm.of_eq (append_nil _)).subperm
    · intro x hx
      rcases mem_append.1 hx with hx | hx
      · exact h.fits x hx
      · rw [mem_singleton] at hx
        subst hx
        trivial

theorem purge (q : SequenceNumber) : Filed cfg (db.purge q) := h.ofJobs rfl (h.filing.purge q)

-- ---- the steps of a job

/-- A job moves on while the files stay as they are. -/
private theorem stay (hj : db.jobs[j]? = some job) (hin : job'.inputs = job.inputs)
    (hfits : job'.stage.Fits cfg.foregroundGC) (hhid : job'.hidden.Subperm job.hidden) :
    Filed cfg { db with jobs := db.jobs.set j job' } :=
  h.ofJob hj hin hfits ((h.atJob hj).mono (fun _ h => h) ((subperm_append_right _).2 hhid))

omit h in
theorem hidden_run (h : job.stage = .run) : job.hidden = job.outputs := by
  unfold GcJob.hidden
  rw [h]

theorem gcCheck (hj : db.jobs[j]? = some job) (hrun : job.stage = .run)
    (hcase : CheckCase cfg db job job' db₁) :
    Filed cfg { db₁ with jobs := db.jobs.set j job' } := by
  have hhid := hidden_run hrun
  cases hcase with
  | ended stage _ hstage =>
    rcases hstage with rfl | ⟨-, rfl⟩ | ⟨hfg, rfl⟩
    · exact h.stay hj rfl trivial nil_subperm
    · exact h.stay hj rfl trivial nil_subperm
    · exact h.stay hj rfl hfg (hhid ▸ .refl _)
  | stopped s => exact h.stay hj rfl trivial nil_subperm
  | discarded =>
    refine h.stay hj rfl ?_ (by unfold GcJob.hidden; exact .refl _)
    exact h.fits job (mem_of_getElem? hj)
  | live _ _ hfg => exact h.stay hj rfl hfg (hhid ▸ .refl _)
  | @copied i r todo created _ _ htodo hentry hfg hadd =>
    have h₁ : Filing cfg db db.inputs
        (({ job with todo, status := .ok } : GcJob).outputs ++ others db j) := hhid ▸ h.atJob hj
    obtain ⟨-, ⟨s, rfl, h₂⟩ | ⟨outputs, fileSize, new, rfl, -, -, -, h₂⟩⟩ := h₁.addOutput hadd
    · refine h.ofJob hj rfl trivial (h₂.mono (fun _ h => h) ?_)
      exact (sublist_append_right ..).subperm
    · refine h.ofJob hj rfl ?_ ?_
      · exact h.fits job (mem_of_getElem? hj)
      · rw [hrun]
        exact h₂

omit h in
theorem sep_of_foregroundGC (h : cfg.foregroundGC = true) :
    cfg.dbOptions.sepBeforeFlush = true := by
  exact (Bool.and_eq_true_iff.1 h).1

theorem gcAdd (hj : db.jobs[j]? = some job) (hstage : job.stage = .add i r)
    (hstep : db.gcAdd cfg job i r created = some (job', db₁)) :
    Filed cfg { db₁ with jobs := db.jobs.set j job' } := by
  have hfg : job.stage.Fits cfg.foregroundGC := h.fits job (mem_of_getElem? hj)
  rw [hstage] at hfg
  have hhid : job.hidden = job.outputs := by
    unfold GcJob.hidden
    rw [hstage]
  have h₁ := hhid ▸ h.atJob hj
  unfold Db.gcAdd at hstep
  split at hstep
  case h_1 => cases hstep
  case h_2 hadd =>
    cases hstep
    exact h.ofJob hj rfl hfg (h₁.builderAdd (sep_of_foregroundGC hfg) hadd).filing
  case h_3 hadd =>
    cases hstep
    exact h.ofJob hj rfl trivial (h₁.builderAdd (sep_of_foregroundGC hfg) hadd).filing

theorem gcWrite {batch : WriteBatch} (s : Status)
    (hj : db.jobs[j]? = some job) (hstage : job.stage = .write i r batch) :
    Filed cfg { (db.gcWrite job i r batch s).2 with
      jobs := db.jobs.set j (db.gcWrite job i r batch s).1 } := by
  have hhid : job.hidden = job.outputs := by
    unfold GcJob.hidden
    rw [hstage]
  have h₁ := hhid ▸ h.atJob hj
  unfold Db.gcWrite
  split
  · exact h.ofJob hj rfl trivial (h₁.congr rfl rfl fun _ h => h)
  · exact h.ofJob hj rfl trivial h₁

theorem gcInstall (io : Db.InstallIO) (hj : db.jobs[j]? = some job)
    (hstage : job.stage = .install) : Filed cfg { (db.gcInstall cfg job io).2 with
      jobs := db.jobs.set j (db.gcInstall cfg job io).1 } := by
  have hfg : job.stage.Fits cfg.foregroundGC := h.fits job (mem_of_getElem? hj)
  rw [hstage] at hfg
  have hhid : job.hidden = job.outputs := by
    unfold GcJob.hidden
    rw [hstage]
  have h₁ := hhid ▸ h.atJob hj
  have h₂ : Filing cfg (db.installOutputBlobFiles cfg job io).2 db.inputs (others db j) := by
    cases hio : (Status.firstFailure io.finish job.outputs).isOk
    · exact h₁.installOutputs_failed hio
    · exact (h₁.installOutputs hio).2.1
  unfold Db.gcInstall
  dsimp only
  split
  · exact h.ofJob hj rfl hfg h₂
  · exact h.ofJob hj rfl trivial h₂

theorem gcRewrite {rest : List RewriteBatch} (io : Db.RewriteIO)
    (hj : db.jobs[j]? = some job) (hstage : job.stage = .rewrite rest) :
    Filed cfg { (db.gcRewrite job io rest).2 with
      jobs := db.jobs.set j (db.gcRewrite job io rest).1 } := by
  have hfg : job.stage.Fits cfg.foregroundGC := h.fits job (mem_of_getElem? hj)
  rw [hstage] at hfg
  have hhid : job.hidden = [] := by
    unfold GcJob.hidden
    rw [hstage]
  have h₁ := hhid ▸ h.atJob hj
  unfold Db.gcRewrite Db.rewriteOne
  split
  case h_1 => exact h.ofJob hj rfl trivial h₁
  case h_2 _ rb rest =>
    have h₂ : Filing cfg (if io.status.isOk then db.write rb.batch else db)
        db.inputs ([] ++ others db j) := by
      split
      · exact h₁.congr rfl rfl fun _ h => h
      · exact h₁
    cases io.continues
    · exact h.ofJob hj rfl trivial h₂
    · exact h.ofJob hj rfl hfg h₂

theorem gcDelete (isDropped : Bool) (hj : db.jobs[j]? = some job)
    (hstage : job.stage = .deleteInputs) : Filed cfg { (db.gcDelete cfg job isDropped).2 with
      jobs := db.jobs.set j (db.gcDelete cfg job isDropped).1 } := by
  have hhid : job.hidden = [] := by
    unfold GcJob.hidden
    rw [hstage]
  have h₁ := hhid ▸ h.atJob hj
  unfold Db.gcDelete
  split
  · exact h.ofJob hj rfl trivial h₁
  · refine h.ofJob hj rfl trivial (h₁.deleteInputs fun n hn => ?_)
    exact mem_flatMap.2 ⟨job, mem_of_getElem? hj, hn⟩

omit h in
theorem sameFiles_release (job : GcJob) :
    db.fileSet.SameFiles (db.releaseGcFiles cfg job).fileSet :=
  sameFiles_transitFiles _ fun _ _ _ _ m' _ => FileEvent.spares_kGCCompleted m'

theorem release (hj : db.jobs[j]? = some job) (hstage : job.stage = .release) :
    Filed cfg { db.releaseGcFiles cfg job with
      jobs := db.jobs.set j { job with stage := .done } } := by
  have hhid : job.hidden = [] := by
    unfold GcJob.hidden
    rw [hstage]
  have h₁ := hhid ▸ h.atJob hj
  have h₂ : Filing cfg (db.releaseGcFiles cfg job) db.inputs ([] ++ others db j) :=
    h₁.sameFiles (sameFiles_release job)
  exact h.ofJob hj rfl trivial h₂

omit h in
private theorem ofPair {p : GcJob × Db} {jobs : GcJob → List GcJob} (hp : some p = some (job', db₁))
    (h : Filed cfg { p.2 with jobs := jobs p.1 }) : Filed cfg { db₁ with jobs := jobs job' } := by
  obtain rfl := Option.some.inj hp
  exact h

theorem gcStep {io : GcIO} (hj : db.jobs[j]? = some job)
    (hstep : db.gcStep cfg job io = some (job', db₁)) :
    Filed cfg { db₁ with jobs := db.jobs.set j job' } := by
  unfold Db.gcStep at hstep
  split at hstep
  case h_1 hstage => exact h.gcCheck hj hstage (checkCase hstep)
  case h_2 hstage => exact h.gcAdd hj hstage hstep
  case h_3 hstage => exact ofPair hstep (h.gcWrite io.write hj hstage)
  case h_4 hstage => exact ofPair hstep (h.gcInstall io.install hj hstage)
  case h_5 hstage => exact ofPair hstep (h.gcRewrite io.rewrite hj hstage)
  case h_6 hstage => exact ofPair hstep (h.gcDelete io.isDropped hj hstage)
  case h_7 hstage => exact ofPair hstep (h.release hj hstage)
  case h_8 => cases hstep

end Filed

end DiffKV
