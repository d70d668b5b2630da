/-
A GC job with output files of its own, run from its pick to its end
with nothing failing and nobody else writing.

`Collecting` follows the loop of `DoRunGC`: a key that points into an
input has its record ahead in the iterator, or a batch that points it at
a copy. Each round takes one record off the iterator, so the loop ends.
`Rewriting` follows the loop of `RewriteValidKeyToLSM`: a key has its old
entry, with its batch ahead, or points at a copy.
-/
import DiffKV.Proofs.GcOutputs

namespace DiffKV

open Lib List BlobFileSet Option LsmEntry Filing Db

variable {cfg : Config} {db db' db₀ : Db} {inputs : List UInt64}
  {todo : List (BlobIndex × BlobRecord)} {job job' : GcJob} {j : Nat}
  {key : UserKey} {r : BlobRecord} {i : BlobIndex} {rest : List RewriteBatch}

-- ==== the job at work

/-- The LSM tree is as writes leave it: what is marked as a blob index
decodes, points into no file that has yet to be made, and if it points
into one of the files `inputs`, at a record of its key. -/
structure Db.Sound (cfg : Config) (db : Db) (inputs : List UInt64) : Prop where
  decodes : ∀ {key entry}, db.lsm.lookup key = some entry →
    entry.isBlobIndex = true → (entry.blobIndex cfg.coding).isSome = true
  known : ∀ {key i}, db.Points cfg key i → i.fileNumber < db.fileSet.nextFileNumber
  intact : ∀ {key i}, db.Points cfg key i → i.fileNumber ∈ inputs →
    ∃ value, db.record i = some { key, value }

/-- `DiscardEntry` drops the other records. -/
theorem discardEntry_of_not_points (h : db.Sound cfg inputs)
    (hi : ¬ db.Points cfg key i) : db.discardEntry cfg key i = .ok true := by
  unfold discardEntry
  cases hentry : db.lsm.lookup key with
  | none => rfl
  | some entry =>
    dsimp only
    by_cases hb : entry.isBlobIndex = true
    case neg => rw [if_pos (by simp [hb])]
    case pos =>
      obtain ⟨i', hi'⟩ := isSome_iff_exists.1 (h.decodes hentry hb)
      obtain ⟨-, rest, hd⟩ := blobIndex_eq_some_iff.1 hi'
      have hne : i ≠ i' := fun he => hi ⟨entry, hentry, he ▸ hi'⟩
      rw [if_neg (by simp [hb]), hd]
      simp [hne]

/-- The job `j` takes steps, and nothing fails. -/
abbrev Db.Advances (cfg : Config) (j : Nat) : Db → Db → Prop :=
  Relation.ReflTransGen fun s t => s.step cfg (.gcStep j {}) = some t

/-- A record is held for a key: the LSM tree pointed the key at it. -/
def Db.Held (cfg : Config) (db : Db) (i : BlobIndex) (r : BlobRecord) : Prop :=
  db.Points cfg r.key i ∧ db.Finds cfg i r

/-- The job `j` at work in a state that came from `db₀`. -/
structure Working (cfg : Config) (db₀ : Db) (j : Nat) (db : Db) (job : GcJob) : Prop where
  filed : Filed cfg db
  found : db.jobs[j]? = some job
  kept : db₀.SameBelow cfg db₀.fileSet.nextFileNumber db
  nodup : job.inputs.Nodup
  live : ∀ n ∈ job.inputs, db.live cfg n = true

theorem step_gcStep {db₁ : Db} {io : GcIO} (hj : db.jobs[j]? = some job)
    (hstep : db.gcStep cfg job io = some (job', db₁)) :
    db.step cfg (.gcStep j io) = some { db₁ with jobs := db₁.jobs.set j job' } := by
  simp only [step, hj, hstep]

/-- A step that leaves the inputs live. -/
theorem Working.step {db₁ : Db} (h : Working cfg db₀ j db job)
    (hstep : db.gcStep cfg job {} = some (job', db₁))
    (hkept : db.SameBelow cfg db₀.fileSet.nextFileNumber db₁) (hin : job'.inputs = job.inputs)
    (hlive : ∀ n ∈ job.inputs, db₁.live cfg n = true) :
    db.step cfg (.gcStep j {}) = some { db₁ with jobs := db₁.jobs.set j job' }
      ∧ Working cfg db₀ j { db₁ with jobs := db₁.jobs.set j job' } job' := by
  have hjobs := h.filed.jobs_gcStep h.found hstep
  have hj := (List.getElem?_eq_some_iff.1 h.found).1
  have hfiled := h.filed.gcStep h.found hstep
  rw [← hjobs] at hfiled hj
  exact ⟨step_gcStep h.found hstep, hfiled, getElem?_set_self hj,
    h.kept.trans (hkept.jobs _), hin ▸ h.nodup, hin ▸ hlive⟩

-- ==== `DoRunGC`

/-- In the loop of `DoRunGC`. -/
structure Collecting (cfg : Config) (db₀ : Db) (j : Nat) (db : Db)
    (job : GcJob) : Prop extends Working cfg db₀ j db job where
  stage : job.stage = .run
  status : job.status.isOk = true
  lsm : db.lsm = db₀.lsm
  le : db₀.fileSet.nextFileNumber ≤ db.fileSet.nextFileNumber
  new : ∀ n ∈ job.outputs, db₀.fileSet.nextFileNumber ≤ n
  room : db.RoomFor cfg job.todo job.outputs
  todo : ∀ p ∈ job.todo, db₀.Finds cfg p.1 p.2
  batches : ∀ rb ∈ job.rewriteBatches,
    rb.Relocates cfg (db₀.Held cfg) fun new r =>
      db.record new = some r ∧ new.fileNumber ∈ job.outputs
  /-- no record that a key points at has been passed over -/
  covered : ∀ {key i}, db₀.Points cfg key i → i.fileNumber ∈ job.inputs →
    (∃ r, r.key = key ∧ (i, r) ∈ job.todo) ∨ ∃ rb ∈ job.rewriteBatches, rb.key = key

namespace Collecting

variable (h : Collecting cfg db₀ j db job)
include h

/-- The record is stale. -/
private theorem discard (htodo : job.todo = (i, r) :: todo)
    (hentry : db.discardEntry cfg r.key i = .ok true) (hstale : ¬ db₀.Points cfg r.key i) :
    ∃ db' job', db.step cfg (.gcStep j {}) = some db'
      ∧ Collecting cfg db₀ j db' job' ∧ job'.todo = todo ∧ job'.inputs = job.inputs := by
  have hstep : db.gcStep cfg job {} = some ({ job with todo, status := .ok }, db) := by
    simp only [gcStep, h.stage, gcCheck, htodo, hentry]
    simp
  obtain ⟨hgo, hwork⟩ := h.toWorking.step hstep (.refl ..) rfl h.live
  refine ⟨_, _, hgo, ⟨hwork, h.stage, rfl, h.lsm, h.le, h.new,
    (htodo ▸ h.room).tail.jobs _, ?_, h.batches, ?_⟩, rfl, rfl⟩
  · exact fun p hp => h.todo p (htodo ▸ mem_cons_of_mem _ hp)
  · intro key i' hpoints hin
    refine (h.covered hpoints hin).imp_left fun ⟨r', hkey, hmem⟩ => ?_
    rw [htodo] at hmem
    rcases mem_cons.1 hmem with he | hmem
    · cases he
      exact absurd (hkey ▸ hpoints) hstale
    · exact ⟨r', hkey, hmem⟩

variable (hfg : cfg.foregroundGC = false)
include hfg

/-- The record is live and copied. -/
private theorem copy (htodo : job.todo = (i, r) :: todo)
    (hentry : db.discardEntry cfg r.key i = .ok false) (hpoints : db₀.Points cfg r.key i) :
    ∃ db' job', db.step cfg (.gcStep j {}) = some db'
      ∧ Collecting cfg db₀ j db' job' ∧ job'.todo = todo ∧ job'.inputs = job.inputs := by
  have hfiling := h.filed.atJob h.found
  rw [Filed.hidden_run h.stage] at hfiling
  obtain ⟨outputs, fileSize, new, db₁, hadd, hcopied⟩ :=
    addOutput_room { job with todo, status := .ok } hfiling h.le h.new (htodo ▸ h.room)
  have hstep : db.gcStep cfg job {}
      = db.addOutput cfg { job with todo, status := .ok } i r true := by
    simp only [gcStep, h.stage, gcCheck, htodo, hentry]
    simp [hfg]
  obtain ⟨hgo, hwork⟩ := h.toWorking.step (hstep.trans hadd) hcopied.kept rfl
    fun n hn => hcopied.ext.live (h.live n hn)
  refine ⟨_, _, hgo, ⟨hwork, h.stage, rfl, hcopied.ext.lsm.trans h.lsm,
    UInt64.le_trans h.le hcopied.le, hcopied.new, hcopied.room.jobs _, ?_, ?_, ?_⟩, rfl, rfl⟩
  · exact fun p hp => h.todo p (htodo ▸ mem_cons_of_mem _ hp)
  · intro rb hrb
    rcases mem_append.1 hrb with hrb | hrb
    · exact (h.batches rb hrb).mono (fun hi => hi)
        fun ⟨hrec, hout⟩ => ⟨hcopied.ext.record hrec, hcopied.more hout⟩
    · rw [mem_singleton.1 hrb]
      exact ⟨i, new, r, rfl, ⟨hpoints, h.todo (i, r) (htodo ▸ mem_cons_self)⟩,
        hcopied.record, hcopied.mem⟩
  · intro key i' hkey hin
    rcases h.covered hkey hin with ⟨r', hr', hmem⟩ | ⟨rb, hrb, hrbkey⟩
    · rw [htodo] at hmem
      rcases mem_cons.1 hmem with he | hmem
      · cases he
        exact .inr ⟨_, mem_append_right _ mem_cons_self, hr'⟩
      · exact .inl ⟨r', hr', hmem⟩
    · exact .inr ⟨rb, mem_append_left _ hrb, hrbkey⟩

/-- One round takes one record off the iterator. -/
theorem round (hsound : db₀.Sound cfg inputs) (htodo : job.todo = (i, r) :: todo) :
    ∃ db' job', db.step cfg (.gcStep j {}) = some db'
      ∧ Collecting cfg db₀ j db' job' ∧ job'.todo = todo ∧ job'.inputs = job.inputs := by
  have hsame : db.discardEntry cfg r.key i = db₀.discardEntry cfg r.key i := by
    unfold discardEntry
    rw [h.lsm]
  by_cases hp : db₀.Points cfg r.key i
  · exact h.copy hfg htodo (hsame.trans (discardEntry_of_points hp)) hp
  · exact h.discard htodo (hsame.trans (discardEntry_of_not_points hsound hp)) hp

/-- The loop comes to its end. -/
theorem run (hsound : db₀.Sound cfg inputs) :
    ∃ db' job', Db.Advances cfg j db db' ∧ Collecting cfg db₀ j db' job'
      ∧ job'.todo = [] ∧ job'.inputs = job.inputs := by
  -- on the records ahead
  generalize hl : job.todo = l
  induction l generalizing db job with
  | nil => exact ⟨db, job, .refl, h, hl, rfl⟩
  | cons p l ih =>
    obtain ⟨db₁, job₁, hstep, h₁, htodo, hin₁⟩ := h.round hfg hsound hl
    obtain ⟨db₂, job₂, hadv, h₂, hnil, hin₂⟩ := ih h₁ htodo
    exact ⟨db₂, job₂, hadv.head hstep, h₂, hnil, hin₂.trans hin₁⟩

end Collecting

-- ==== `Finish`

/-- Before `InstallOutputBlobFiles`. -/
structure Installing (cfg : Config) (db₀ : Db) (j : Nat) (db : Db)
    (job : GcJob) : Prop extends Working cfg db₀ j db job where
  stage : job.stage = .install
  lsm : db.lsm = db₀.lsm
  new : ∀ n ∈ job.outputs, db₀.fileSet.nextFileNumber ≤ n
  batches : ∀ rb ∈ job.rewriteBatches,
    rb.Relocates cfg (db₀.Held cfg) fun new r =>
      db.record new = some r ∧ new.fileNumber ∈ job.outputs
  covered : ∀ {key i}, db₀.Points cfg key i → i.fileNumber ∈ job.inputs →
    ∃ rb ∈ job.rewriteBatches, rb.key = key

/-- The loop of `DoRunGC` is over. -/
theorem Collecting.ended (h : Collecting cfg db₀ j db job)
    (hfg : cfg.foregroundGC = false) (htodo : job.todo = []) :
    ∃ db' job', db.step cfg (.gcStep j {}) = some db'
      ∧ Installing cfg db₀ j db' job' ∧ job'.inputs = job.inputs := by
  have hstep : db.gcStep cfg job {} = some ({ job with stage := .install }, db) := by
    simp only [gcStep, h.stage, gcCheck, htodo]
    simp [hfg, h.status]
  obtain ⟨hgo, hwork⟩ := h.toWorking.step hstep (.refl ..) rfl h.live
  refine ⟨_, _, hgo, ⟨hwork, rfl, h.lsm, h.new, h.batches, ?_⟩, rfl⟩
  intro key i hpoints hin
  rcases h.covered hpoints hin with ⟨r, -, hmem⟩ | hrb
  · rw [htodo] at hmem
    cases hmem
  · exact hrb

/-- A copy that reads find, in a file made since `db₀`. -/
def Db.FindsNew (cfg : Config) (db₀ db : Db) (new : BlobIndex) (r : BlobRecord) : Prop :=
  db.Finds cfg new r ∧ db₀.fileSet.nextFileNumber ≤ new.fileNumber

/-- The key is pointed at a copy of the record it pointed at. -/
def Db.Moved (cfg : Config) (db₀ db : Db) (key : UserKey) : Prop :=
  ∃ i new r, r.key = key ∧ db₀.Held cfg i r ∧ db₀.FindsNew cfg db new r
    ∧ db.lsm.lookup key = some (LsmEntry.ofIndex cfg.coding new)

/-- What has become of a key while the batches `rest` are not written: its
entry is that of `db₀`, and if it points into an input one of the batches
is for it; or it has been moved. -/
def Db.Follows (cfg : Config) (db₀ db : Db) (inputs : List UInt64)
    (rest : List RewriteBatch) (key : UserKey) : Prop :=
  (db.lsm.lookup key = db₀.lsm.lookup key
      ∧ ∀ i, db₀.Points cfg key i → i.fileNumber ∈ inputs → ∃ rb ∈ rest, rb.key = key)
    ∨ db₀.Moved cfg db key

/-- In the loop of `RewriteValidKeyToLSM`. -/
structure Rewriting (cfg : Config) (db₀ : Db) (j : Nat)
    (rest : List RewriteBatch) (db : Db) (job : GcJob) :
    Prop extends Working cfg db₀ j db job where
  stage : job.stage = .rewrite rest
  batches : ∀ rb ∈ rest, rb.Relocates cfg (db₀.Held cfg) (db₀.FindsNew cfg db)
  keys : ∀ key, db₀.Follows cfg db job.inputs rest key

theorem finds_of_live {new : BlobIndex} (hrec : db.record new = some r)
    (hlive : db.live cfg new.fileNumber = true) : db.Finds cfg new r := by
  refine ⟨hrec, ?_⟩
  unfold readable
  rw [installed_iff.2 (file_of_live (live_iff.1 hlive)), Bool.true_or]

/-- `InstallOutputBlobFiles`, no builder failed. -/
theorem Installing.installed (h : Installing cfg db₀ j db job) (io : Db.InstallIO)
    (hok : (Status.firstFailure io.finish job.outputs).isOk = true) :
    (db.installOutputBlobFiles cfg job io).1 = .ok
      ∧ db.Extends cfg (db.installOutputBlobFiles cfg job io).2
      ∧ (∀ n ∈ job.outputs, (db.installOutputBlobFiles cfg job io).2.live cfg n = true)
      ∧ db.SameBelow cfg db₀.fileSet.nextFileNumber (db.installOutputBlobFiles cfg job io).2 := by
  have hfiling : Filing cfg db db.inputs (job.outputs ++ Filed.others db j) := by
    have hhidden : job.hidden = job.outputs := by
      unfold GcJob.hidden
      rw [h.stage]
    exact hhidden ▸ h.filed.atJob h.found
  obtain ⟨hstatus, -, hext, hlive⟩ := hfiling.installOutputs hok
  refine ⟨hstatus, hext, hlive, ?_⟩
  unfold installOutputBlobFiles
  rw [if_pos hok]
  refine .of_logAndApply hfiling fun {n} hadds => ?_
  rw [finishEdit_eq] at hadds
  exact h.new n (map_outputMeta job.outputs ▸ hadds.2)

/-- The step through it. -/
theorem Installing.install (h : Installing cfg db₀ j db job) :
    ∃ db' job', db.step cfg (.gcStep j {}) = some db'
      ∧ Rewriting cfg db₀ j job.rewriteBatches db' job' ∧ job'.inputs = job.inputs := by
  obtain ⟨hstatus, hext, hlive, hkept⟩ := h.installed {}
    ((Status.firstFailure_isOk ..).2 fun _ _ => rfl)
  have hstep : db.gcStep cfg job {} = some ({ job with
          status := .ok, stage := .rewrite job.rewriteBatches },
        (db.installOutputBlobFiles cfg job {}).2) := by
    simp only [gcStep, h.stage, gcInstall, hstatus]
    rfl
  obtain ⟨hgo, hwork⟩ := h.toWorking.step hstep hkept rfl fun n hn => hext.live (h.live n hn)
  refine ⟨_, _, hgo, ⟨hwork, rfl, ?_, ?_⟩, rfl⟩
  · intro rb hrb
    refine (h.batches rb hrb).mono (fun hi => hi) fun ⟨hrec, hout⟩ => ?_
    exact ⟨finds_of_live (hext.record hrec) (hlive _ hout), h.new _ hout⟩
  · intro key
    refine .inl ⟨?_, fun i hpoints hin => h.covered hpoints hin⟩
    rw [← h.lsm, ← hext.lsm]

namespace Rewriting

variable {rb : RewriteBatch}

/-- One round of `RewriteValidKeyToLSM`. -/
theorem round (h : Rewriting cfg db₀ j (rb :: rest) db job) :
    ∃ db' job', db.step cfg (.gcStep j {}) = some db'
      ∧ Rewriting cfg db₀ j rest db' job' ∧ job'.inputs = job.inputs := by
  obtain ⟨i, new, r, rfl, hheld, hnew⟩ := h.batches rb mem_cons_self
  have hstep : db.gcStep cfg job {}
      = some ({ job with status := .ok, stage := .rewrite rest },
        db.write [(r.key, ofIndex cfg.coding new)]) := by
    simp only [gcStep, h.stage]
    rfl
  obtain ⟨hgo, hwork⟩ := h.toWorking.step hstep
    ⟨fun _ => rfl, fun _ => rfl, fun _ => rfl, rfl⟩ rfl h.live
  refine ⟨_, _, hgo, ⟨hwork, rfl, ?_, ?_⟩, rfl⟩
  · exact fun rb hrb => h.batches rb (mem_cons_of_mem _ hrb)
  · intro key
    have hlookup : (db.write [(r.key, ofIndex cfg.coding new)]).lsm.lookup key
        = if key = r.key then some (ofIndex cfg.coding new)
          else db.lsm.lookup key := lookup_write_singleton ..
    by_cases hkey : key = r.key
    case pos =>
      rw [if_pos hkey] at hlookup
      exact .inr ⟨i, new, r, hkey.symm, hheld, hnew, hlookup⟩
    case neg =>
      rw [if_neg hkey] at hlookup
      rcases h.keys key with ⟨hsame, hcovered⟩ | ⟨i', new', r', hr', h₁, h₂, h₃⟩
      · refine .inl ⟨hlookup.trans hsame, fun i' hpoints hin => ?_⟩
        obtain ⟨rb', hmem, hrbkey⟩ := hcovered i' hpoints hin
        rcases mem_cons.1 hmem with rfl | hmem
        · exact absurd hrbkey.symm hkey
        · exact ⟨rb', hmem, hrbkey⟩
      · exact .inr ⟨i', new', r', hr', h₁, h₂, hlookup.trans h₃⟩

/-- The loop comes to its end. -/
theorem run (h : Rewriting cfg db₀ j rest db job) :
    ∃ db' job', Db.Advances cfg j db db' ∧ Rewriting cfg db₀ j [] db' job'
      ∧ job'.inputs = job.inputs := by
  induction rest generalizing db job with
  | nil => exact ⟨db, job, .refl, h, rfl⟩
  | cons rb rest ih =>
    obtain ⟨db₁, job₁, hstep, h₁, hin₁⟩ := h.round
    obtain ⟨db₂, job₂, hadv, h₂, hin₂⟩ := ih h₁
    exact ⟨db₂, job₂, hadv.head hstep, h₂, hin₂.trans hin₁⟩

end Rewriting

/-- Before `DeleteInputBlobFiles`. -/
structure Deleting (cfg : Config) (db₀ : Db) (j : Nat) (db : Db)
    (job : GcJob) : Prop extends Working cfg db₀ j db job where
  stage : job.stage = .deleteInputs
  keys : ∀ key, db₀.Follows cfg db job.inputs [] key

/-- The inputs are marked obsolete. -/
structure Collected (cfg : Config) (db₀ : Db) (inputs : List UInt64) (db : Db) : Prop where
  kept : db₀.SameBelow cfg db₀.fileSet.nextFileNumber db
  keys : ∀ key, db₀.Follows cfg db inputs [] key
  dead : ∀ n ∈ inputs, db.live cfg n = false

theorem Db.Follows.mono (h : db₀.Follows cfg db inputs rest key) (hlsm : db'.lsm = db.lsm)
    (hfinds : ∀ {i r}, db.Finds cfg i r → db'.Finds cfg i r) :
    db₀.Follows cfg db' inputs rest key := by
  rcases h with ⟨hsame, hcovered⟩ | ⟨i, new, r, hr, hheld, hnew, hlookup⟩
  · exact .inl ⟨hlsm ▸ hsame, hcovered⟩
  · exact .inr ⟨i, new, r, hr, hheld, ⟨hfinds hnew.1, hnew.2⟩, hlsm ▸ hlookup⟩

theorem Rewriting.ended (h : Rewriting cfg db₀ j [] db job) :
    ∃ db' job', db.step cfg (.gcStep j {}) = some db'
      ∧ Deleting cfg db₀ j db' job' ∧ job'.inputs = job.inputs := by
  have hstep : db.gcStep cfg job {} = some ({ job with stage := .deleteInputs }, db) := by
    simp only [gcStep, h.stage]
    rfl
  obtain ⟨hgo, hwork⟩ := h.toWorking.step hstep (.refl ..) rfl h.live
  exact ⟨_, _, hgo, ⟨hwork, rfl, fun key => (h.keys key).mono rfl fun hf => hf⟩, rfl⟩

/-- `DeleteInputBlobFiles`. -/
theorem Deleting.delete (h : Deleting cfg db₀ j db job) :
    ∃ db' job', db.step cfg (.gcStep j {}) = some db'
      ∧ db'.jobs[j]? = some job' ∧ job'.stage = .release ∧ Collected cfg db₀ job.inputs db' := by
  have hstep : db.gcStep cfg job {} = some ({ job with
          status := (db.deleteInputBlobFiles cfg job).1
          stage := .release
          deleted := (db.deleteInputBlobFiles cfg job).1.isOk },
        (db.deleteInputBlobFiles cfg job).2) := by
    simp only [gcStep, h.stage]
    rfl
  have hj := (List.getElem?_eq_some_iff.1 h.found).1
  have hkept : db.SameBelow cfg db₀.fileSet.nextFileNumber (db.deleteInputBlobFiles cfg job).2 := by
    refine .of_logAndApply h.filed.filing fun {n} hadds => ?_
    rw [deleteEdit_eq] at hadds
    cases hadds.2
  have hopen : (db.storage cfg).isSome = true := h.filed.filing.isSome_lookup
  refine ⟨_, _, step_gcStep h.found hstep, getElem?_set_self hj, rfl,
    (h.kept.trans hkept).jobs _, fun key => ?_, fun n hn => ?_⟩
  · exact (h.keys key).mono rfl fun hf => hf.deleteInputs job
  · exact live_deleteInputBlobFiles hopen h.nodup h.live hn

/-- `ReleaseGcFiles`. -/
theorem Collected.release (h : Collected cfg db₀ inputs db)
    (hj : db.jobs[j]? = some job) (hstage : job.stage = .release) :
    ∃ db' job', db.step cfg (.gcStep j {}) = some db'
      ∧ db'.jobs[j]? = some job' ∧ job'.stage = .done ∧ Collected cfg db₀ inputs db' := by
  have hstep : db.gcStep cfg job {}
      = some ({ job with stage := .done }, db.releaseGcFiles cfg job) := by
    simp only [gcStep, hstage]
  have hsame : db.fileSet.SameFiles (db.releaseGcFiles cfg job).fileSet :=
    Filed.sameFiles_release job
  have hlt := (List.getElem?_eq_some_iff.1 hj).1
  refine ⟨_, _, step_gcStep hj hstep, getElem?_set_self hlt, rfl,
    (h.kept.trans (.of_sameFiles hsame)).jobs _, fun key => ?_, fun n hn => ?_⟩
  · exact (h.keys key).mono rfl fun hf => (sameFiles_extends hsame).finds hf
  · have hdead := h.dead n hn
    rw [← Bool.not_eq_true, live_iff] at hdead ⊢
    exact mt (hsame.live_ne_none cfg.cfId n).1 hdead

-- ==== the whole job

theorem live_of_checkBlobFile {n : UInt64}
    (h : db.checkBlobFile cfg n = true) : db.live cfg n = true := by
  unfold checkBlobFile at h
  split at h
  case h_1 => cases h
  case h_2 m hm =>
    have hstate : m.state = .kNormal := by simpa using h
    refine live_iff.2 (live_ne_none_iff.2 ⟨m, hm, ?_⟩)
    unfold BlobFileMeta.isObsolete
    rw [hstate]
    rfl

/-- The records of the inputs are those ahead. -/
theorem Filed.collecting (h : Filed cfg db) (hsound : db.Sound cfg inputs)
    (hroom : db.Room cfg todo) (hpick : db.gcPick cfg inputs todo = some db') :
    Collecting cfg db db.jobs.length db' { inputs, todo } := by
  have hfiled := h.gcPick hpick
  unfold Db.gcPick at hpick
  split at hpick
  case isFalse => cases hpick
  case isTrue hchecked =>
    obtain ⟨-, hnodup, hall, hperm⟩ := hchecked
    have hmem : ∀ {i r}, (i, r) ∈ todo ↔ i.fileNumber ∈ inputs ∧ db.record i = some r := by
      intro i r
      rw [(isPerm_iff.1 hperm).mem_iff, mem_flatMap]
      simp [mem_recordsOf]
    have hsame := Filed.sameFiles_gcPick hall
    cases hpick
    have hlive : ∀ n ∈ inputs, db.live cfg n = true :=
      fun n hn => live_of_checkBlobFile (all_eq_true.1 hall n hn)
    refine ⟨⟨hfiled, getElem?_concat_length, (Db.SameBelow.of_sameFiles
      hsame).jobs _, hnodup, fun n hn => ?_⟩, rfl, rfl, rfl, ?_,
      (fun _ hn => nomatch hn), ⟨⟨hroom.target, ?_, hroom.encoded,
      hroom.sizes⟩, fun _ hn => nomatch hn⟩, ?_, (fun _ hrb => nomatch hrb), ?_⟩
    · exact live_iff.2 ((hsame.live_ne_none cfg.cfId n).2 (live_iff.1 (hlive n hn)))
    · exact UInt64.le_of_eq hsame.next.symm
    · have hnumbers := hroom.numbers
      exact hnumbers
    · intro p hp
      obtain ⟨hin, hrec⟩ := hmem.1 hp
      exact finds_of_live hrec (hlive _ hin)
    · intro key i hpoints hin
      obtain ⟨value, hrec⟩ := hsound.intact hpoints hin
      exact .inl ⟨{ key, value }, rfl, hmem.2 ⟨hin, hrec⟩⟩

/-- What collecting the files `inputs` is to leave: every key reads as
before, no key points into them, and all are obsolete. -/
structure Db.Preserved (cfg : Config) (db db' : Db) (inputs : List UInt64) : Prop where
  values : ∀ key, db'.getImpl cfg key = db.getImpl cfg key
  rewritten : ∀ {key i}, db'.Points cfg key i → i.fileNumber ∉ inputs
  obsolete : ∀ n ∈ inputs, ∃ m, db'.fileSet.file cfg.cfId n = some m ∧ m.isObsolete = true

/-- A key that was moved reads the copy. -/
theorem Db.Moved.getImpl (h : db₀.Moved cfg db key) {st₀ st : BlobStorage}
    (hst₀ : db₀.storage cfg = some st₀) (hst : db.storage cfg = some st) :
    db.getImpl cfg key = db₀.getImpl cfg key := by
  obtain ⟨i, new, r, rfl, ⟨⟨entry, hentry, hi⟩, hfinds⟩, hnew, hlookup⟩ := h
  have hbefore : db₀.Sees cfg r.key (.ok r.value) := .blob hentry hi hfinds
  have hafter : db.Sees cfg r.key (.ok r.value) := .blob hlookup (blobIndex_ofIndex ..) hnew.1
  rw [hafter.getImpl hst, hbefore.getImpl hst₀]

theorem Collected.preserved (h : Collected cfg db₀ inputs db)
    (hfiled : Filed cfg db₀) (hsound : db₀.Sound cfg inputs)
    (hin : ∀ n ∈ inputs, db₀.installed cfg n = true) : db₀.Preserved cfg db inputs := by
  obtain ⟨st₀, hst₀, -⟩ := hfiled.filing.opened
  obtain ⟨st, hst⟩ : ∃ st, db.storage cfg = some st := by
    refine isSome_iff_exists.1 ?_
    rw [h.kept.storage, hst₀]
    rfl
  have hold : ∀ n ∈ inputs, n < db₀.fileSet.nextFileNumber :=
    fun n hn => hfiled.filing.known (.installed (hin n hn))
  refine ⟨fun key => ?_, fun {key i} hpoints hmem => ?_, fun n hn => ?_⟩
  · rcases h.keys key with ⟨hsame, -⟩ | hmoved
    · exact h.kept.getImpl hsame hsound.known
    · exact hmoved.getImpl hst₀ hst
  · obtain ⟨entry, hentry, hi⟩ := hpoints
    rcases h.keys key with ⟨hsame, hcovered⟩ | ⟨_, new, _, _, _, hnew, hlookup⟩
    · obtain ⟨_, hrb, _⟩ := hcovered i ⟨entry, hsame ▸ hentry, hi⟩ hmem
      cases hrb
    · -- the copy is in a file with a new number
      cases hlookup.symm.trans hentry
      rw [blobIndex_ofIndex, some.injEq] at hi
      exact UInt64.not_lt.2 hnew.2 (hi ▸ hold _ hmem)
  · have hfile := (h.kept.installed (hold n hn)).trans (hin n hn)
    obtain ⟨m, hm⟩ := isSome_iff_exists.1 hfile
    refine ⟨m, hm, ?_⟩
    have hdead := h.dead n hn
    rw [← Bool.not_eq_true, live_iff, live_ne_none_iff] at hdead
    rw [← Bool.not_eq_false]
    exact fun hobs => hdead ⟨m, hm, hobs⟩

theorem foregroundGC_of_modes (hmode : cfg.cfOptions.levelMerge = cfg.dbOptions.sepBeforeFlush) :
    cfg.foregroundGC = false := by
  unfold Config.foregroundGC
  rw [hmode, Bool.and_not_self]

/-- A picked job gets through the records of its inputs. -/
theorem Filed.installing (h : Filed cfg db) (hfg : cfg.foregroundGC = false)
    (hsound : db.Sound cfg inputs) (hroom : db.Room cfg todo)
    (hpick : db.gcPick cfg inputs todo = some db') :
    ∃ collected job, Db.Advances cfg db.jobs.length db' collected
      ∧ Installing cfg db db.jobs.length collected job ∧ job.inputs = inputs := by
  obtain ⟨db₁, job₁, hrun, hcollecting, htodo, hin₁⟩ :=
    (h.collecting hsound hroom hpick).run hfg hsound
  obtain ⟨collected, job, hended, hinstalling, hin⟩ := hcollecting.ended hfg htodo
  exact ⟨collected, job, hrun.tail hended, hinstalling, hin.trans hin₁⟩

/-- A key is written twice, and the file is installed. -/
def putTwice : List Action :=
  [.putAdd (.byte 1) [7] true, .putWrite 0, .putAdd (.byte 1) [8] true, .putWrite 0, .flushShard 0]

/-- The second record of the file `n`. -/
def BlobIndex.second (n : UInt64) : BlobIndex where
  fileNumber := n
  blobHandle := { offset := kBlobHeaderSize + 3, size := 3 }

/-- The database after it. -/
def overwritten : Db :=
  ((Db.create .smallMerge).exec .smallMerge putTwice).getD (Db.create .smallMerge)

/-- Its file has a stale record and a live one. -/
def overwrittenRecords : List (BlobIndex × BlobRecord) :=
  [(.first 2, { key := .byte 1, value := [7] }), (.second 2, { key := .byte 1, value := [8] })]

theorem filed_overwritten : Filed .smallMerge overwritten := by
  have hrun : ((create .smallMerge).exec .smallMerge putTwice).isSome = true := by decide +kernel
  obtain ⟨db, hdb⟩ := isSome_iff_exists.1 hrun
  have hend : overwritten = db := by
    unfold overwritten
    rw [hdb]
    rfl
  rw [hend]
  exact exec_keeps (fun h _ hs => h.step hs) (filed_create .smallMerge)
    (meets_of_forall (p := fun _ => True) (fun _ _ => trivial) _) hdb

theorem sound_overwritten : overwritten.Sound .smallMerge [2] := by
  have hall : overwritten.lsm.entries = [(.byte 1, ofIndex base128 (.second 2))] := by
    decide +kernel
  have honly : ∀ {key entry}, overwritten.lsm.lookup key = some entry →
      key = .byte 1 ∧ entry = ofIndex base128 (.second 2) := by
    intro key entry hentry
    have hmem := Table.mem_entries_iff.2 hentry
    rw [hall, mem_singleton] at hmem
    cases hmem
    exact ⟨rfl, rfl⟩
  have hpoints : ∀ {key i}, overwritten.Points .smallMerge key i →
      key = .byte 1 ∧ i = .second 2 := by
    rintro key i ⟨entry, hentry, hi⟩
    obtain ⟨rfl, rfl⟩ := honly hentry
    exact ⟨rfl, some.inj (hi.symm.trans (blobIndex_ofIndex ..))⟩
  refine ⟨fun hentry _ => ?_, fun h => ?_, fun h _ => ?_⟩
  · rw [(honly hentry).2]
    exact congrArg isSome (blobIndex_ofIndex ..)
  · rw [(hpoints h).2]
    decide +kernel
  · obtain ⟨rfl, rfl⟩ := hpoints h
    exact ⟨[8], by decide +kernel⟩

end DiffKV
