/-
The order of a GC job's records in the manifest, and what a crash
finds.

A job with output files of its own installs them before it writes an
index, and deletes its inputs last. One that relocates through the
`ForegroundBuilder` does not: the files with its copies are installed by
the next flush, whenever that is, and nothing in `Finish` waits for it.
After a crash in between neither the input nor the copy is in the
manifest.

`Ordered` adds to the account of all locations (`Accounted`) where the
copies of a job are: recorded, being built, or in output files that are
not installed. A job may delete its inputs when none is being built.
-/
import DiffKV.Proofs.LostUpdate
import DiffKV.Proofs.Recorded
import DiffKV.Proofs.Relocation
import DiffKV.Proofs.Reopen

namespace DiffKV

open Lib List Option LsmEntry Filing Db

variable {cfg : Config} {db db' db₁ : Db} {job job' : GcJob} {io : GcIO}
  {key : UserKey} {i : BlobIndex} {a : Action} {n : UInt64}
  {batch : WriteBatch}

-- ==== statements

/-- No copy was left out, and those there are lie in files the manifest
records as added. -/
structure GcJob.Relocated (cfg : Config) (db : Db) (job : GcJob) : Prop where
  missed : job.missed = []
  recorded : ∀ rb ∈ job.relocated, ∃ new,
    rb.batch = [(rb.key, LsmEntry.ofIndex cfg.coding new)] ∧ db.Recorded cfg new.fileNumber

/-- The copies of a job are in no file that is still being built. -/
def GcJob.Grounded (cfg : Config) (db : Db) (job : GcJob) : Prop :=
  ∀ rb ∈ job.relocated, ∀ p ∈ rb.batch.indexes cfg.coding, db.building cfg p.2.fileNumber = false

instance : Decidable (job.Grounded cfg db) := by
  unfold GcJob.Grounded
  infer_instance

namespace Db

/-- A job has deleted its inputs: the manifest records it. -/
def hasCollected (db : Db) : Bool := db.jobs.any (·.deleted)

/-- The process dies and the database is opened again: it opens, and
every key is read as before, and can be read. -/
structure SurvivesCrash (cfg : Config) (db : Db) : Prop where
  opens : (db.reopen cfg).1 = .ok
  reads : ∀ key, (db.reopen cfg).2.getImpl cfg key = db.getImpl cfg key
  readable : ∀ {key entry}, db.lsm.lookup key = some entry → ∃ value, db.getImpl cfg key = .ok value

/-- Every blob index of the LSM tree points at a record of its key, in a
usable file. -/
def Backed (cfg : Config) (db : Db) : Prop :=
  ∀ key entry, db.lsm.lookup key = some entry → entry.isBlobIndex = true →
    ∃ i value, entry.blobIndex cfg.coding = some i ∧ db.record i = some { key, value }
      ∧ db.usable cfg i.fileNumber = true

/-- No blob index of the LSM tree points into a file that is still being
built. -/
def Grounded (cfg : Config) (db : Db) : Prop :=
  ∀ p ∈ db.lsm.entries, ∀ i ∈ p.2.blobIndex cfg.coding, db.building cfg i.fileNumber = false

instance : Decidable (db.Grounded cfg) := by
  unfold Grounded
  infer_instance

/-- The job that deletes its inputs with this step. -/
def deletes (db : Db) : Action → List GcJob
  | .gcStep j _ => db.jobs[j]?.toList.filter (·.deleting)
  | _ => []

/-- The step is orderly; once a job has deleted its inputs, an index is
not written before its file is installed; and a job deletes its inputs
only when no index of the LSM tree and no copy of the job is in a file
still being built. -/
def Settles (cfg : Config) (db : Db) (a : Action) : Prop :=
  db.Orderly cfg a
    ∧ (db.hasCollected = true → ∀ p ∈ (db.writes a).indexes cfg.coding,
      db.building cfg p.2.fileNumber = false)
    ∧ ∀ job ∈ db.deletes a, db.Grounded cfg ∧ job.Grounded cfg db

instance : Decidable (db.Settles cfg a) := by
  unfold Settles
  infer_instance

end Db

-- ==== live files

/-- A file stays live, unless its collector has come to its end. -/
theorem JobStep.live_kept (hstep : JobStep cfg db job io job' db₁)
    (hfiled : Filed cfg db) (hn : db.live cfg n = true)
    (hout : job.deleting = true → n ∉ job.inputs) : db₁.live cfg n = true := by
  cases hstep.effect with
  | same | writes | cleans => exact hn
  | grows hext => exact hext.live hn
  | deletes hdelete =>
    exact hfiled.filing.live_deleteInputs hn (hout hdelete)

theorem DbStep.live (hstep : DbStep cfg db a db') (hfiled : Filed cfg db)
    (hn : db.live cfg n = true) (hout : ∀ job ∈ db.jobs, job.deleting = true → n ∉ job.inputs) :
    db'.live cfg n = true := by
  cases hstep with
  | putAdd _ hext | flushShard hext | flushCompleted hext | gcPick hext =>
    exact hext.live hn
  | putWrite | delete | takeSnapshot | releaseSnapshot | purgeRead => exact hn
  | gcStep job job' hj hjob =>
    exact hjob.live_kept hfiled hn (hout job (mem_of_getElem? hj))
  | purgeApply q => exact (hfiled.filing.live_purge q n).trans hn

-- ==== entries

/-- A blob index that can be decoded, or no blob index. -/
def LsmEntry.Decodes (C : Coding) (entry : LsmEntry) : Prop :=
  entry.isBlobIndex = true → ∃ i, entry.blobIndex C = some i

def WriteBatch.Decodes (C : Coding) (batch : WriteBatch) : Prop :=
  ∀ e ∈ batch, e.2.Decodes C

theorem decodes_ofIndex {new : BlobIndex} :
    WriteBatch.Decodes cfg.coding [(key, ofIndex cfg.coding new)] := by
  intro e he _
  rw [mem_singleton.1 he]
  exact ⟨new, blobIndex_ofIndex ..⟩

theorem PutBatch.decodes {value : Bytes} (h : PutBatch cfg db key value batch) :
    batch.Decodes cfg.coding := by
  rcases h with rfl | ⟨-, ⟨rfl, -⟩ | ⟨new, rfl, -⟩⟩
  · intro e he hb
    rw [mem_singleton.1 he] at hb
    cases hb
  · exact fun _ he => nomatch he
  · exact decodes_ofIndex

/-- So are the batches of a job. -/
theorem GcJob.Ok.decodes (h : job.Ok cfg db) (hb : batch ∈ job.batches) :
    batch.Decodes cfg.coding := by
  have hstage := h.stage
  unfold GcJob.batches at hb
  split at hb
  case h_1 hs =>
    rw [hs] at hstage
    rw [mem_singleton.1 hb]
    rcases hstage.2 with rfl | ⟨new, rfl, -⟩
    · exact fun _ he => nomatch he
    · exact decodes_ofIndex
  case h_2 hs =>
    rw [hs] at hstage
    obtain ⟨rb, hrb, rfl⟩ := mem_map.1 hb
    obtain ⟨_, new, _, rfl, -, -⟩ := hstage rb hrb
    exact decodes_ofIndex
  case h_3 => cases hb

/-- What a Put holds was held before, or is of a new Put. -/
theorem DbStep.decodes (hstep : DbStep cfg db a db')
    (h : ∀ put ∈ db.puts, put.batch.Decodes cfg.coding) :
    ∀ put ∈ db'.puts, put.batch.Decodes cfg.coding := by
  intro put hput
  cases hstep with
  | putAdd batch _ hbatch =>
    rcases mem_append.1 hput with hput | hput
    · exact h put hput
    · rw [mem_singleton.1 hput]
      exact hbatch.decodes
  | putWrite => exact h put (mem_of_mem_eraseIdx hput)
  | flushShard hext | flushCompleted hext | gcPick hext =>
    exact h put (hext.puts ▸ hput)
  | gcStep _ _ _ hjob => exact h put (hjob.puts ▸ hput)
  | delete | takeSnapshot | releaseSnapshot | purgeRead | purgeApply =>
    exact h put hput

-- ==== the copies

/-- The file of a copy: the manifest has it or will have it, at the
latest when the job installs its outputs. -/
def GcJob.Keeps (cfg : Config) (db : Db) (job : GcJob) (n : UInt64) : Prop :=
  db.Recorded cfg n ∨ db.building cfg n = true ∨ (cfg.foregroundGC = false ∧ n ∈ job.hidden)

/-- The batch points its key at a copy in such a file. -/
def GcJob.Placed (cfg : Config) (db : Db) (job : GcJob) (rb : RewriteBatch) :
    Prop :=
  ∃ new, rb.batch = [(rb.key, LsmEntry.ofIndex cfg.coding new)] ∧ job.Keeps cfg db new.fileNumber

theorem GcJob.Keeps.of_usable (hfiled : Filed cfg db)
    (hn : db.usable cfg n = true) : job.Keeps cfg db n := by
  rcases usable_iff.1 hn with hb | hl
  · exact .inr (.inl hb)
  · exact .inl (hfiled.filing.recorded hl)

/-- Files being built are no job's inputs, so they stay usable. -/
theorem GcJob.Keeps.step (h : job.Keeps cfg db n) (hfiled : Filed cfg db)
    (hstep : db.step cfg a = some db')
    (hhidden : cfg.foregroundGC = false → n ∈ job.hidden →
      n ∈ job'.hidden ∨ db'.live cfg n = true) : job'.Keeps cfg db' n := by
  have hfiled' := hfiled.step hstep
  rcases h with hrec | hb | ⟨hfg, hhid⟩
  · exact .inl (hrec.mono (logs_step hstep))
  · refine .of_usable hfiled' ((hfiled.dbStep hstep).usable hfiled
      (usable_iff.2 (.inl hb)) fun x hx _ hin => ?_)
    exact (hfiled.filing.building_new hb).2.2 (mem_flatMap.2 ⟨x, hx, hin⟩)
  · rcases hhidden hfg hhid with hhid | hl
    · exact .inr (.inr ⟨hfg, hhid⟩)
    · exact .inl (hfiled'.filing.recorded hl)

/-- A job on its way keeps its output files or installs them. -/
theorem JobStep.hidden (hstep : JobStep cfg db job io job' db₁)
    (hsucc : job.Succeeds cfg io) (hopen : job'.stage.isOpen = true)
    (hfg : cfg.foregroundGC = false) (hn : n ∈ job.hidden) :
    n ∈ job'.hidden ∨ db₁.live cfg n = true := by
  unfold GcJob.hidden at hn ⊢
  cases hstep with
  | ended stage hrun _ hstage =>
    rw [hrun] at hn
    rcases hstage with rfl | ⟨hfg', -⟩ | ⟨-, rfl⟩
    · cases hopen
    · cases hfg.symm.trans hfg'
    · exact .inl hn
  | stopped | stoppedAfter | dropped | deleted | released => cases hopen
  | discarded => exact .inl hn
  | live _ _ _ hrun => rw [hrun] at hn; exact .inl hn
  | copied _ _ _ _ _ _ hrun _ _ _ _ _ _ hmore =>
    rw [hrun] at hn
    rw [hrun]
    exact .inl (hmore hn)
  | added _ _ _ hadd | notAdded _ _ hadd => rw [hadd] at hn; exact .inl hn
  | written _ _ _ hwrite | notWritten _ _ _ hwrite =>
    rw [hwrite] at hn
    exact .inl hn
  | installed hinstall _ _ hlive =>
    rw [hinstall] at hn
    exact .inr (hlive n hn)
  | notInstalled _ _ hinstall hfailed =>
    rw [install_of_succeeds hsucc hinstall] at hfailed
    cases hfailed
  | rewritesEnded hrewrite | rewritten _ _ hrewrite
  | notRewritten _ _ _ hrewrite =>
    rw [hrewrite] at hn
    cases hn

/-- A new relocation is to an output file, or is the batch that was
due. -/
theorem JobStep.relocated (hstep : JobStep cfg db job io job' db₁)
    (hok : job.Ok cfg db) {rb : RewriteBatch} (hrb : rb ∈ job'.relocated) :
    rb ∈ job.relocated ∨ ∃ new,
      rb.batch = [(rb.key, ofIndex cfg.coding new)]
        ∧ ((cfg.foregroundGC = false ∧ new.fileNumber ∈ job'.hidden)
          ∨ rb.batch ∈ job.batches ∧ db₁.fileSet = db.fileSet) := by
  cases hstep with
  | copied i r todo outputs fileSize new hrun hfg _ _ _ _ hout =>
    rcases mem_append.1 hrb with hrb | hrb
    · exact .inl hrb
    · rw [mem_singleton.1 hrb]
      refine .inr ⟨new, rfl, .inl ⟨hfg, ?_⟩⟩
      rw [hrun]
      exact hout
  | written i r batch hwrite _ hne =>
    rcases mem_append.1 hrb with hrb | hrb
    · exact .inl hrb
    · rw [mem_singleton.1 hrb]
      have hstage := hok.stage
      rw [hwrite] at hstage
      obtain ⟨new, rfl, -⟩ := hstage.2.resolve_left hne
      refine .inr ⟨new, rfl, .inr ⟨?_, rfl⟩⟩
      unfold GcJob.batches
      rw [hwrite]
      exact mem_cons_self
  | _ => exact .inl hrb

/-- A job has deleted its inputs with this step, or before. -/
theorem JobStep.deleted_cases (hstep : JobStep cfg db job io job' db₁)
    (h : job'.deleted = true) : job.deleted = true
      ∨ (job.deleting = true ∧ job'.stage.isOpen = false
        ∧ job'.missed = job.missed ∧ job'.relocated = job.relocated) := by
  cases hstep with
  | deleted hdelete =>
    refine .inr ⟨?_, rfl, rfl, rfl⟩
    unfold GcJob.deleting
    rw [hdelete]
  | _ => exact .inl h

/-- At its end a job only releases its files. -/
theorem JobStep.closed (hstep : JobStep cfg db job io job' db₁)
    (hclosed : job.stage.isOpen = false) :
    job'.missed = job.missed ∧ job'.relocated = job.relocated := by
  cases hstep with
  | released => exact ⟨rfl, rfl⟩
  | ended _ hrun | stopped _ hrun | stoppedAfter _ _ _ _ hrun
  | discarded _ _ _ hrun | live _ _ _ hrun | copied _ _ _ _ _ _ hrun =>
    rw [hrun] at hclosed; cases hclosed
  | added _ _ _ hadd | notAdded _ _ hadd => rw [hadd] at hclosed; cases hclosed
  | written _ _ _ hwrite | notWritten _ _ _ hwrite =>
    rw [hwrite] at hclosed; cases hclosed
  | installed hinstall | notInstalled _ _ hinstall =>
    rw [hinstall] at hclosed; cases hclosed
  | rewritesEnded hrewrite | rewritten _ _ hrewrite
  | notRewritten _ _ _ hrewrite => rw [hrewrite] at hclosed; cases hclosed
  | dropped hdelete | deleted hdelete => rw [hdelete] at hclosed; cases hclosed

-- ==== the invariant

/-- What the job has relocated is recorded, or will be. -/
structure GcJob.Tracked (cfg : Config) (db : Db) (job : GcJob) : Prop where
  placed : job.stage.isOpen = true → ∀ rb ∈ job.relocated, job.Placed cfg db rb
  pending : job.stage.isOpen = true → job.deleted = false
  relocated : job.deleted = true → job.Relocated cfg db

/-- Once inputs are deleted, the LSM tree points at live files only. -/
structure Ordered (cfg : Config) (db : Db) : Prop extends Accounted cfg db where
  decodes : ∀ {key entry}, db.lsm.lookup key = some entry → entry.Decodes cfg.coding
  puts : ∀ put ∈ db.puts, put.batch.Decodes cfg.coding
  tracked : ∀ job ∈ db.jobs, job.Tracked cfg db
  grounded : db.hasCollected = true →
    ∀ {key i}, db.Points cfg key i → db.live cfg i.fileNumber = true

theorem GcJob.Relocated.mono (h : job.Relocated cfg db)
    (hlogs : db.Logs db') : job.Relocated cfg db' where
  missed := h.missed
  recorded rb hrb := by
    obtain ⟨new, hb, hrec⟩ := h.recorded rb hrb
    exact ⟨new, hb, hrec.mono hlogs⟩

theorem hidden_of_deleting (h : job.deleting = true) : job.hidden = [] := by
  unfold GcJob.hidden
  rw [stage_of_deleting h]

theorem batches_of_deleting (h : job.deleting = true) : job.batches = [] := by
  unfold GcJob.batches
  rw [stage_of_deleting h]

theorem mem_deletes {j : Nat} (hj : db.jobs[j]? = some job)
    (hdel : job.deleting = true) : job ∈ db.deletes (.gcStep j io) := by
  unfold deletes
  dsimp only
  rw [hj]
  exact mem_filter.2 ⟨mem_cons_self, hdel⟩

theorem Db.Grounded.points (h : db.Grounded cfg)
    (hi : db.Points cfg key i) : db.building cfg i.fileNumber = false := by
  obtain ⟨entry, hentry, hi⟩ := hi
  exact h (key, entry) (Table.mem_entries_iff.2 hentry) i hi

namespace Ordered

/-- A job that stands still. -/
private theorem tracked_other (h : Ordered cfg db)
    (hstep : db.step cfg a = some db') (hjob : job ∈ db.jobs) : job.Tracked cfg db' := by
  have htracked := h.tracked job hjob
  refine ⟨fun hopen rb hrb => ?_, htracked.pending, fun hdel =>
    (htracked.relocated hdel).mono (logs_step hstep)⟩
  obtain ⟨new, hb, hkeeps⟩ := htracked.placed hopen rb hrb
  exact ⟨new, hb, hkeeps.step h.filed hstep fun _ hn => .inl hn⟩

/-- The job that deletes its inputs: no copy is in a file being built,
and it hides no file. -/
private theorem relocated_of_deleting (h : Ordered cfg db)
    (hjob : job ∈ db.jobs) (hdel : job.deleting = true)
    (hground : job.Grounded cfg db) : job.Relocated cfg db := by
  have hopen := isOpen_of_deleting hdel
  refine ⟨(h.collects job hjob hopen).missed, fun rb hrb => ?_⟩
  obtain ⟨new, hb, hkeeps⟩ := (h.tracked job hjob).placed hopen rb hrb
  refine ⟨new, hb, ?_⟩
  rcases hkeeps with hrec | hbuild | ⟨-, hhid⟩
  · exact hrec
  · have hnot := hground rb hrb (rb.key, new) (by
      rw [hb, indexes_ofIndex]
      exact mem_cons_self)
    cases hbuild.symm.trans hnot
  · rw [hidden_of_deleting hdel] at hhid
    cases hhid

/-- The job that takes the step. -/
private theorem tracked_step (h : Ordered cfg db) {j : Nat}
    (hj : db.jobs[j]? = some job) (hjob : JobStep cfg db job io job' db₁)
    (hstep : db.step cfg (.gcStep j io) = some { db₁ with jobs := db.jobs.set j job' })
    (hcond : db.Settles cfg (.gcStep j io)) :
    job'.Tracked cfg { db₁ with jobs := db.jobs.set j job' } := by
  have hmem := mem_of_getElem? hj
  have hsucc : job.Succeeds cfg io := hcond.1 job hj
  have htracked := h.tracked job hmem
  refine ⟨fun hopen rb hrb => ?_, fun hopen => ?_, fun hdel => ?_⟩
  · rcases hjob.relocated (h.jobs job hmem) hrb with hold | ⟨new, hb, hnew⟩
    · obtain ⟨new, hb, hkeeps⟩ := htracked.placed (hjob.isOpen hopen) rb hold
      exact ⟨new, hb, hkeeps.step h.filed hstep fun hfg hn =>
        hjob.hidden hsucc hopen hfg hn⟩
    · refine ⟨new, hb, ?_⟩
      rcases hnew with ⟨hfg, hhid⟩ | ⟨hdue, hfs⟩
      · exact .inr (.inr ⟨hfg, hhid⟩)
      · -- the copy was pending, so its file is usable
        have hpending : (db.store cfg).pending rb.key new := by
          refine mem_pending.2 (.inr ⟨job, hmem, rb.batch, hdue, ?_⟩)
          rw [hb, indexes_ofIndex]
          exact mem_cons_self
        have hkeeps : job'.Keeps cfg db new.fileNumber := .of_usable h.filed (h.ready hpending).2
        exact hkeeps.step h.filed hstep fun _ hn => .inl hn
  · rw [← Bool.not_eq_true]
    intro hdel
    rcases hjob.deleted_cases hdel with hold | ⟨-, hclosed, -⟩
    · cases hold.symm.trans (htracked.pending (hjob.isOpen hopen))
    · cases hopen.symm.trans hclosed
  · rcases hjob.deleted_cases hdel with hold | ⟨hdeleting, -, hmissed, hrel⟩
    · have hclosed : job.stage.isOpen = false := by
        rw [← Bool.not_eq_true]
        exact fun hopen => by cases hold.symm.trans (htracked.pending hopen)
      obtain ⟨hmissed, hrel⟩ := hjob.closed hclosed
      have hold := (htracked.relocated hold).mono (logs_step hstep)
      exact ⟨hmissed.trans hold.missed, hrel ▸ hold.recorded⟩
    · have hground := (hcond.2.2 job (mem_deletes hj hdeleting)).2
      have hold := (h.relocated_of_deleting hmem hdeleting hground).mono (logs_step hstep)
      exact ⟨hmissed.trans hold.missed, hrel ▸ hold.recorded⟩

/-- Files that nothing is built in stay live if the LSM tree may point at
them. -/
private theorem live_of_holds (h : Ordered cfg db)
    (hstep : db.step cfg a = some db') (hholds : (db.store cfg).Holds key i)
    (hbuild : db.building cfg i.fileNumber = false) (hlost : i ∉ db.lost) :
    db'.live cfg i.fileNumber = true := by
  have hl : db.live cfg i.fileNumber = true := by
    rcases usable_iff.1 hholds.2 with hb | hl
    · cases hb.symm.trans hbuild
    · exact hl
  refine (h.filed.dbStep hstep).live h.filed hl fun x hx hdel hin => ?_
  exact hlost ⟨x, hx, hdel, hin⟩

/-- Inputs were deleted before the step, or are deleted by it. -/
private theorem hasCollected_cases (h : Filed cfg db)
    (hstep : db.step cfg a = some db') (hcol : db'.hasCollected = true) :
    db.hasCollected = true ∨ ∃ job, job ∈ db.deletes a := by
  obtain ⟨x, hx, hdel⟩ := any_eq_true.1 hcol
  have hold : x ∈ db.jobs → db.hasCollected = true := fun hx => any_eq_true.2 ⟨x, hx, hdel⟩
  cases h.dbStep hstep with
  | putAdd _ hext | flushShard hext | flushCompleted hext =>
    exact .inl (hold (hext.jobs ▸ hx))
  | putWrite | delete | takeSnapshot | releaseSnapshot | purgeRead
  | purgeApply => exact .inl (hold hx)
  | gcPick =>
    rcases mem_append.1 hx with hx | hx
    · exact .inl (hold hx)
    · rw [mem_singleton.1 hx] at hdel
      cases hdel
  | gcStep job job' hj hjob =>
    rcases mem_or_eq_of_mem_set hx with hx | rfl
    · exact .inl (hold hx)
    · rcases hjob.deleted_cases hdel with hdel | ⟨hdeleting, -⟩
      · exact .inl (any_eq_true.2 ⟨job, mem_of_getElem? hj, hdel⟩)
      · exact .inr ⟨job, mem_deletes hj hdeleting⟩

/-- A job that deletes its inputs writes nothing. -/
private theorem writes_of_deletes (hjob : job ∈ db.deletes a) : db.writes a = [] := by
  unfold deletes at hjob
  split at hjob
  case h_1 j _ =>
    obtain ⟨hj, hdel⟩ := mem_filter.1 hjob
    unfold writes
    dsimp only
    rw [mem_toList.1 hj, map_some, batches_of_deleting hdel]
    rfl
  case h_2 => cases hjob

/-- What the LSM tree points at after the step is live. -/
private theorem grounded_step (h : Ordered cfg db)
    (hstep : db.step cfg a = some db') (hcond : db.Settles cfg a)
    (hcol : db'.hasCollected = true) (hi : db'.Points cfg key i) :
    db'.live cfg i.fileNumber = true := by
  obtain ⟨-, hwrites, hdeletes⟩ := hcond
  have hstill : db.Points cfg key i → db.building cfg i.fileNumber = false →
      db'.live cfg i.fileNumber = true := by
    intro hi hb
    exact h.live_of_holds hstep (h.sound (index_store.2 hi)) hb (h.covers_lost (index_store.2 hi))
  rcases (h.filed.dbStep hstep).points hi with hold | hnew
  · refine hstill hold ?_
    rcases hasCollected_cases h.filed hstep hcol with hcol | ⟨job, hjob⟩
    · rw [← Bool.not_eq_true]
      intro hb
      -- a live file is installed, one being built is not
      have hinst := installed_iff.2 (BlobFileSet.file_of_live (live_iff.1 (h.grounded hcol hold)))
      cases hinst.symm.trans (h.filed.filing.building_new hb).1
    · exact (hdeletes job hjob).1.points hold
  · have hpending : (db.store cfg).pending key i := pending_of_writes hnew
    rcases hasCollected_cases h.filed hstep hcol with hcol | ⟨job, hjob⟩
    · exact h.live_of_holds hstep (h.ready hpending) (hwrites hcol _ hnew) (h.avoids_lost hpending)
    · rw [writes_of_deletes hjob] at hnew
      cases hnew

/-- An entry of the LSM tree decodes: a batch holds no other. -/
private theorem decodes_step (h : Ordered cfg db)
    (hstep : db.step cfg a = some db') {entry : LsmEntry}
    (hentry : db'.lsm.lookup key = some entry) : entry.Decodes cfg.coding := by
  rcases (h.filed.dbStep hstep).lookup hentry with hold | hnew
  · exact h.decodes hold
  · have hbatch : (db.writes a).Decodes cfg.coding := by
      rcases mem_append.1 (mem_pendingBatches_of_writes hnew) with hb | hb
      · obtain ⟨put, hput, he⟩ := mem_map.1 hb
        exact he ▸ h.puts put hput
      · obtain ⟨job, hjob, hb⟩ := mem_flatMap.1 hb
        exact (h.jobs job hjob).decodes hb
    exact hbatch _ hnew

/-- Every step that settles keeps the order. -/
theorem step (h : Ordered cfg db) (hcond : db.Settles cfg a)
    (hstep : db.step cfg a = some db') : Ordered cfg db' := by
  refine ⟨h.toAccounted.step hcond.1 hstep, h.decodes_step hstep,
    (h.filed.dbStep hstep).decodes h.puts, fun job hjob => ?_,
    fun hcol => h.grounded_step hstep hcond hcol⟩
  have hother : job ∈ db.jobs → job.Tracked cfg db' := h.tracked_other hstep
  cases h.filed.dbStep hstep with
  | putAdd _ hext | flushShard hext | flushCompleted hext =>
    exact hother (hext.jobs ▸ hjob)
  | putWrite | delete | takeSnapshot | releaseSnapshot | purgeRead
  | purgeApply => exact hother hjob
  | gcPick =>
    rcases mem_append.1 hjob with hold | hnew
    · exact hother hold
    · rw [mem_singleton.1 hnew]
      exact ⟨fun _ _ hrb => (nomatch hrb), fun _ => rfl, fun hdel => (nomatch hdel)⟩
  | gcStep x x' hj hx =>
    rcases mem_or_eq_of_mem_set hjob with hold | rfl
    · exact hother hold
    · exact h.tracked_step hj hx hstep hcond

/-- A state without jobs and pending Puts. -/
theorem start (hfiled : Filed cfg db) (hjobs : db.jobs = [])
    (hputs : db.puts = []) (hbacked : db.Backed cfg) : Ordered cfg db := by
  have hnojob : ∀ {P : GcJob → Prop}, ∀ job ∈ db.jobs, P job := by
    rw [hjobs]
    exact fun _ h => nomatch h
  refine ⟨⟨hfiled, hnojob, fun {key i} hi => ?_, fun {key i} hp => ?_,
    hnojob⟩, fun {key entry} hentry hb => ?_, ?_, hnojob, fun hcol => ?_⟩
  · obtain ⟨entry, hentry, hi⟩ := index_store.1 hi
    obtain ⟨i', value, hi', hrec, hu⟩ := hbacked key entry hentry (blobIndex_eq_some_iff.1 hi).1
    cases hi.symm.trans hi'
    exact holds_store hrec hu
  · rcases mem_pending.1 hp with ⟨put, hput, -⟩ | ⟨job, hjob, -⟩
    · rw [hputs] at hput
      cases hput
    · rw [hjobs] at hjob
      cases hjob
  · obtain ⟨i, -, hi, -⟩ := hbacked key entry hentry hb
    exact ⟨i, hi⟩
  · rw [hputs]
    exact fun _ h => nomatch h
  · unfold hasCollected at hcol
    rw [hjobs] at hcol
    cases hcol

-- ==== after a crash

/-- Before the crash and after it a read finds the same. -/
private theorem sees (h : Ordered cfg db) (hcol : db.hasCollected = true)
    (hreopen : db.Reopened cfg db') (key : UserKey) :
    ∃ res, db.Sees cfg key res ∧ db'.Sees cfg key res
      ∧ ∀ {entry}, db.lsm.lookup key = some entry → ∃ value, res = .ok value := by
  cases hentry : db.lsm.lookup key with
  | none =>
    exact ⟨_, .missing hentry, .missing (hreopen.lsm ▸ hentry), fun h => nomatch h⟩
  | some entry =>
    cases hb : entry.isBlobIndex with
    | false =>
      exact ⟨_, .inLine hentry hb, .inLine (hreopen.lsm ▸ hentry) hb, fun _ => ⟨_, rfl⟩⟩
    | true =>
      obtain ⟨i, hi⟩ := h.decodes hentry hb
      have hpoints : db.Points cfg key i := ⟨entry, hentry, hi⟩
      have hlive := h.grounded hcol hpoints
      obtain ⟨⟨value, hrec⟩, -⟩ := h.sound (index_store.2 hpoints)
      obtain ⟨r, hr, he⟩ := map_eq_some_iff.1 hrec
      have hr : db.record i = some { key, value } := by
        cases he
        exact hr
      refine ⟨.ok value, .blob hentry hi ⟨hr, ?_⟩,
        .blob (hreopen.lsm ▸ hentry) hi ⟨(hreopen.record i hlive).trans hr, ?_⟩, fun _ => ⟨_, rfl⟩⟩
      · unfold readable
        rw [installed_iff.2 (BlobFileSet.file_of_live (live_iff.1 hlive)), Bool.true_or]
      · unfold readable
        rw [hreopen.installed, hlive, Bool.true_or]

theorem survives (h : Ordered cfg db) (hcol : db.hasCollected = true) : db.SurvivesCrash cfg := by
  obtain ⟨hopens, hreopen⟩ := h.filed.filing.reopen
  obtain ⟨st, hst, -⟩ := h.filed.filing.opened
  obtain ⟨st', hst'⟩ := isSome_iff_exists.1 hreopen.opened
  refine ⟨hopens, fun key => ?_, fun {key entry} hentry => ?_⟩
  · obtain ⟨res, hsees, hsees', -⟩ := h.sees hcol hreopen key
    rw [hsees.getImpl hst, hsees'.getImpl hst']
  · obtain ⟨res, hsees, -, hok⟩ := h.sees hcol hreopen key
    rw [hsees.getImpl hst]
    exact hok hentry

end Ordered

-- ==== runs

/-- In every run whose steps settle, a job that has deleted its inputs
has all its copies in files the manifest records, and from then on a
crash loses no key. -/
theorem relocated_before_deleted {as : List Action} (hfiled : Filed cfg db)
    (hjobs : db.jobs = []) (hputs : db.puts = []) (hbacked : db.Backed cfg)
    (hmeets : Meets (Db.step cfg) (Db.Settles cfg) db as) (hexec : db.exec cfg as = some db') :
    (∀ job ∈ db'.jobs, job.deleted = true → job.Relocated cfg db')
      ∧ (db'.hasCollected = true → db'.SurvivesCrash cfg) := by
  have hend : Ordered cfg db' := exec_keeps (fun h hc hs => h.step hc hs)
    (.start hfiled hjobs hputs hbacked) hmeets hexec
  exact ⟨fun job hjob => (hend.tracked job hjob).relocated, hend.survives⟩

/-- A job relocates a record through the `ForegroundBuilder` and deletes
its input. -/
def collectUnflushed : List Action :=
  putAndPick ++ List.replicate 5 (.gcStep 0 {})

/-- The manifest does not have the file of the copy, and after a crash
the key cannot be read. -/
theorem collectUnflushed_lost :
    ∃ db, (Db.create .small).exec .small collectUnflushed = some db
      ∧ (∃ job ∈ db.jobs, job.deleted = true ∧ ¬ job.Relocated .small db)
      ∧ db.getImpl .small (.byte 1) = .ok [7]
      ∧ (db.reopen .small).2.getImpl .small (.byte 1) = .error (.corruption "File 3 not exist")
      ∧ ¬ db.SurvivesCrash .small := by
  obtain ⟨db, hdb, ⟨job, hjob, hdel, rb, hrb, hb⟩, hnot, hread, hlost⟩ :
      ∃ db ∈ (create .small).exec .small collectUnflushed,
      (∃ job ∈ db.jobs, job.deleted = true ∧ ∃ rb ∈ job.relocated,
        rb.batch = [(rb.key, ofIndex Config.small.coding (.first 3))])
      ∧ ¬ db.Recorded .small 3 ∧ db.getImpl .small (.byte 1) = .ok [7]
      ∧ (db.reopen .small).2.getImpl .small (.byte 1)
        = .error (.corruption "File 3 not exist") := by decide +kernel
  refine ⟨db, hdb, ⟨job, hjob, hdel, fun hrel => ?_⟩, hread, hlost, fun hsurvives => ?_⟩
  · obtain ⟨new, hb', hrec⟩ := hrel.recorded rb hrb
    have hindexes := congrArg (WriteBatch.indexes Config.small.coding) (hb'.symm.trans hb)
    rw [indexes_ofIndex, indexes_ofIndex] at hindexes
    cases hindexes
    exact hnot hrec
  · have hsame := hsurvives.reads (.byte 1)
    rw [hread, hlost] at hsame
    cases hsame

/-- The same with a flush before the loop of the job ends. -/
def collectFlushed : List Action :=
  putAndPick ++ List.replicate 3 (.gcStep 0 {}) ++ [.flushShard 0]
    ++ List.replicate 2 (.gcStep 0 {})

theorem relocated_collectFlushed :
    ∃ db, (Db.create .small).exec .small collectFlushed = some db
      ∧ (∃ job ∈ db.jobs, job.deleted = true)
      ∧ (∀ job ∈ db.jobs, job.deleted = true → job.Relocated .small db)
      ∧ db.SurvivesCrash .small := by
  obtain ⟨db, hdb, hcol⟩ : ∃ db ∈ (create .small).exec .small
      collectFlushed, db.hasCollected = true := by decide +kernel
  obtain ⟨hrelocated, hsurvives⟩ := relocated_before_deleted
    (filed_create .small) rfl rfl (fun _ _ h => nomatch h) (by decide +kernel) hdb
  exact ⟨db, hdb, any_eq_true.1 hcol, hrelocated, hsurvives hcol⟩

end DiffKV
