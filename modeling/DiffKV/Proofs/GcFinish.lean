/-
`BlobGCJob::Finish` after an output builder has failed.

`InstallOutputBlobFiles` then deletes the output files, and returns the
status of the last deletion: the failure is forgotten. If the deletion
went well, `Finish` goes on to point keys at the deleted files and to
delete the inputs.
-/
import DiffKV.Open
import DiffKV.Proofs.Filing

namespace DiffKV

open Lib List BlobFileSet LsmEntry Db

variable {cfg : Config} {db db' : Db} {job : GcJob} {io : Db.FinishIO}
  {key : UserKey} {s : Status} {round : Db.RewriteIO}

-- ==== statements

/-- A job as `DoRunGC` leaves it: the inputs are live, the rewrite
batches point keys into the output files, and the LSM tree does not
yet. -/
structure GcJob.Collected (cfg : Config) (db : Db) (job : GcJob) : Prop where
  opened : (db.storage cfg).isSome = true
  inputs : job.inputs ≠ [] ∧ job.inputs.Nodup ∧ ∀ n ∈ job.inputs, db.live cfg n = true
  batches : ∀ rb ∈ job.rewriteBatches, ∃ key new,
    rb.batch = [(key, LsmEntry.ofIndex cfg.coding new)] ∧ new.fileNumber ∈ job.outputs
  unwritten : ∀ p ∈ db.lsm.entries, ∀ i ∈ p.2.blobIndex cfg.coding, i.fileNumber ∉ job.outputs

/-- No key was rewritten, no input is obsolete, and every key is read as
before. -/
def Db.Unharmed (cfg : Config) (db db' : Db) (job : GcJob) : Prop :=
  db'.lsm = db.lsm ∧ (∀ n ∈ job.inputs, db'.live cfg n = true)
    ∧ ∀ key, db'.getImpl cfg key = db.getImpl cfg key

/-- The first of the last `k` rounds of `RewriteValidKeyToLSM` that does
not find the base DB busy. -/
def firstSettled (io : Nat → Db.RewriteIO) : Nat → Option Db.RewriteIO
  | 0 => none
  | k + 1 =>
    if (io (k + 1)).status.isBusy then firstSettled io k
    else some (io (k + 1))

/-- `Finish` is stopped by something else: the last deletion of the
clean-up fails, or the first rewrite that does not find the base DB busy
is aborted or fails, or there is none and the column family is
dropped. -/
def GcJob.Stopped (job : GcJob) (io : Db.FinishIO) : Prop :=
  ((job.outputs.map io.install.deleteFile).getLastD .ok).isOk = false
    ∨ match firstSettled io.rewrite job.rewriteBatches.length with
      | some round => round.status.isOk = false
      | none => io.isDropped = true

instance : Decidable (job.Stopped io) := by
  unfold GcJob.Stopped
  split <;> infer_instance

-- ==== clean-up

theorem blobIndex_lookup (h : job.Collected cfg db) {entry : LsmEntry}
    {i : BlobIndex} (hentry : db.lsm.lookup key = some entry)
    (hi : entry.blobIndex cfg.coding = some i) : i.fileNumber ∉ job.outputs :=
  h.unwritten (key, entry) (Table.mem_entries_iff.2 hentry) i hi

/-- A key with the same entry is read alike, if the file its blob index
points into is. -/
theorem getImpl_congr (hlsm : db'.lsm.lookup key = db.lsm.lookup key)
    (hopen : (db'.storage cfg).isSome = (db.storage cfg).isSome)
    (hget : ∀ {entry i st st'}, db.lsm.lookup key = some entry →
      entry.blobIndex cfg.coding = some i → db.storage cfg = some st → db'.storage cfg = some st' →
      db'.storageGet cfg st' i = db.storageGet cfg st i) :
    db'.getImpl cfg key = db.getImpl cfg key := by
  unfold getImpl
  rw [hlsm]
  cases hentry : db.lsm.lookup key with
  | none => rfl
  | some entry =>
    dsimp only
    by_cases hb : entry.isBlobIndex = true
    case neg => rw [if_pos (by simp [hb]), if_pos (by simp [hb])]
    case pos =>
      cases hd : BlobIndex.decodeFrom cfg.coding entry.value with
      | error s => rfl
      | ok p =>
        have hi : entry.blobIndex cfg.coding = some p.1 := blobIndex_eq_some_iff.2 ⟨hb, p.2, hd⟩
        cases hst : db.storage cfg with
        | none =>
          rw [hst, Option.isSome_none, Option.isSome_eq_false_iff,
            Option.isNone_iff_eq_none] at hopen
          rw [hopen]
        | some st =>
          rw [hst] at hopen
          obtain ⟨st', hst'⟩ := Option.isSome_iff_exists.1 hopen
          rw [hst']
          dsimp only
          rw [hget hentry hi hst hst']

/-- Nothing the LSM tree points at is deleted. -/
theorem getImpl_cleanUp (h : job.Collected cfg db) (deleteFile : UInt64 → Status) (key : UserKey) :
    (db.batchDeleteFiles job.outputs deleteFile).2.getImpl cfg key = db.getImpl cfg key := by
  refine getImpl_congr rfl rfl fun {entry i st st'} hentry hi hst hst' => ?_
  have hread : (db.batchDeleteFiles job.outputs deleteFile).2.readFile i = db.readFile i := by
    unfold readFile
    rw [Filing.lookup_batchDeleteFiles, if_neg fun hn => blobIndex_lookup h hentry hi hn.1]
  cases hst.symm.trans hst'
  unfold storageGet
  rw [hread]

-- ==== rewrites

/-- The LSM tree points into one of the files. -/
def Db.PointsInto (cfg : Config) (db : Db) (files : List UInt64) : Prop :=
  ∃ key entry i, db.lsm.lookup key = some entry
    ∧ entry.blobIndex cfg.coding = some i ∧ i.fileNumber ∈ files

/-- The batch points a key into one of the files. -/
def RewriteBatch.PointsInto (cfg : Config) (files : List UInt64) (rb : RewriteBatch) : Prop :=
  ∃ key new, rb.batch = [(key, LsmEntry.ofIndex cfg.coding new)] ∧ new.fileNumber ∈ files

variable {files : List UInt64} {rb : RewriteBatch} {rest : List RewriteBatch}
  {rounds : Nat → Db.RewriteIO}

theorem pointsInto_write (h : rb.PointsInto cfg files) :
    (db.write rb.batch).PointsInto cfg files := by
  obtain ⟨key, new, hb, hn⟩ := h
  refine ⟨key, _, new, ?_, blobIndex_ofIndex .., hn⟩
  rw [hb]
  exact (Table.lookup_insert ..).trans (if_pos rfl)

/-- Later writes only point keys into such files. -/
theorem pointsInto_rewrites (h : db.PointsInto cfg files)
    (hrest : ∀ rb ∈ rest, rb.PointsInto cfg files) (s : Status) :
    (rewriteValidKeyToLSM rounds s db rest).2.PointsInto cfg files := by
  induction rest generalizing db s with
  | nil => exact h
  | cons rb rest ih =>
    have hone : (db.rewriteOne rb (rounds (rest.length + 1))).PointsInto cfg files := by
      unfold rewriteOne
      split
      · exact pointsInto_write (hrest rb mem_cons_self)
      · exact h
    unfold rewriteValidKeyToLSM
    dsimp only
    split
    · exact ih hone (fun x hx => hrest x (mem_cons_of_mem _ hx)) _
    · exact hone

private theorem isOk_of_isBusy (h : s.isBusy = true) : s.isOk = false := by
  cases s <;> first | rfl | cases h

/-- A busy round changes nothing. -/
private theorem rewrite_busy
    (hbusy : (rounds (rest.length + 1)).status.isBusy = true) (s : Status) :
    rewriteValidKeyToLSM rounds s db (rb :: rest)
      = rewriteValidKeyToLSM rounds (rounds (rest.length + 1)).status db rest := by
  have hok := isOk_of_isBusy hbusy
  simp [rewriteValidKeyToLSM, rewriteOne, Db.RewriteIO.continues, hbusy, hok]

/-- The first rewrite that is not busy fails: nothing is written. -/
theorem rewrites_failed (h : firstSettled rounds rest.length = some round)
    (hround : round.status.isOk = false) :
    rewriteValidKeyToLSM rounds s db rest = (round.status, db) := by
  induction rest generalizing s with
  | nil => cases h
  | cons rb rest ih =>
    rw [length_cons, firstSettled] at h
    split at h
    case isTrue hbusy =>
      rw [rewrite_busy hbusy]
      exact ih h
    case isFalse hbusy =>
      cases h
      simp [rewriteValidKeyToLSM, rewriteOne, Db.RewriteIO.continues, hround, hbusy]

/-- All rewrites are busy: nothing is written, and the status is OK. -/
theorem rewrites_busy (hs : s.isOk = true ∨ s.isBusy = true)
    (h : firstSettled rounds rest.length = none) :
    rewriteValidKeyToLSM rounds s db rest = (.ok, db) := by
  induction rest generalizing s with
  | nil =>
    cases s with
    | ok | busy => rfl
    | _ => simp [Status.isOk, Status.isBusy] at hs
  | cons rb rest ih =>
    rw [length_cons, firstSettled] at h
    split at h
    case isTrue hbusy =>
      rw [rewrite_busy hbusy]
      exact ih (.inr hbusy) h
    case isFalse => cases h

/-- The first rewrite that is not busy succeeds. -/
theorem rewrites_written (h : firstSettled rounds rest.length = some round)
    (hround : round.status.isOk = true) (hrest : ∀ rb ∈ rest, rb.PointsInto cfg files) :
    (rewriteValidKeyToLSM rounds s db rest).2.PointsInto cfg files := by
  induction rest generalizing s with
  | nil => cases h
  | cons rb rest ih =>
    have htail := fun x hx => hrest x (mem_cons_of_mem rb hx)
    rw [length_cons, firstSettled] at h
    split at h
    case isTrue hbusy =>
      rw [rewrite_busy hbusy]
      exact ih h htail
    case isFalse hbusy =>
      cases h
      unfold rewriteValidKeyToLSM rewriteOne Db.RewriteIO.continues
      dsimp only
      rw [if_pos hround, if_pos (by simp [hround])]
      exact pointsInto_rewrites (pointsInto_write (hrest rb mem_cons_self)) htail _

-- ==== deletion

/-- `DeleteInputBlobFiles` marks live inputs obsolete. -/
theorem live_deleteInputBlobFiles (hopen : (db.storage cfg).isSome = true)
    (hnodup : job.inputs.Nodup) (hlive : ∀ n ∈ job.inputs, db.live cfg n = true)
    {n : UInt64} (hn : n ∈ job.inputs) :
    (db.deleteInputBlobFiles cfg job).2.live cfg n = false := by
  have hadm : db.fileSet.Admits (deleteEdit cfg job.inputs db.seq) := by
    rw [deleteEdit_eq]
    refine ⟨⟨nodup_nil, ?_⟩, fun st hst => ⟨?_, ?_⟩⟩
    · rw [map_map]
      exact (map_id job.inputs).symm ▸ hnodup
    · intro k hk
      cases (VersionEdit.batch_added _ k).1 hk
    · intro k hk _
      have hk : k ∈ job.inputs := by
        simpa using (VersionEdit.batch_deleted _ k).1 hk
      obtain ⟨m, hm, hobs⟩ := live_ne_none_iff.1 (Filing.live_iff.1 (hlive k hk))
      rw [file, show db.fileSet.columnFamilies.lookup cfg.cfId = some st from hst] at hm
      exact ⟨m, hm, hobs⟩
  have hdead := mt (live_deleteEdit (C := cfg.coding) (n := n) hopen hadm).1 fun hl => hl.2 hn
  rw [← Bool.not_eq_true, Filing.live_iff]
  exact hdead

-- ==== Finish

/-- The clean-up alone does no harm. -/
theorem unharmed_cleanUp (h : job.Collected cfg db) (deleteFile : UInt64 → Status) :
    Db.Unharmed cfg db (db.batchDeleteFiles job.outputs deleteFile).2 job :=
  ⟨rfl, h.inputs.2.2, getImpl_cleanUp h deleteFile⟩

/-- A rewrite into an output file changes the LSM tree. -/
theorem not_unharmed_of_pointsInto (h : job.Collected cfg db)
    (hpoints : db'.PointsInto cfg job.outputs) : ¬ Db.Unharmed cfg db db' job := by
  intro hun
  obtain ⟨key, entry, i, hentry, hi, hn⟩ := hpoints
  rw [hun.1] at hentry
  exact blobIndex_lookup h hentry hi hn

/-- Status and state before `DeleteInputBlobFiles`, when a builder has
failed. -/
private def beforeDeletion (db : Db) (job : GcJob) (io : Db.FinishIO) : Status × Db :=
  let clean := db.batchDeleteFiles job.outputs io.install.deleteFile
  if clean.1.isOk then
    Db.rewriteValidKeyToLSM io.rewrite .ok clean.2 job.rewriteBatches
  else clean

private theorem finish_of_failed (hfg : cfg.foregroundGC = false)
    (hfail : (Status.firstFailure io.install.finish job.outputs).isOk = false) :
    db.finish cfg job io = if (beforeDeletion db job io).1.isOk && !io.isDropped then
        (beforeDeletion db job io).2.deleteInputBlobFiles cfg job
      else beforeDeletion db job io := by
  unfold finish installOutputBlobFiles
  rw [hfg, hfail]
  rfl

/-- Where the failure, or a stop after it, is noticed in time. -/
private theorem unharmed_of_beforeDeletion (h : job.Collected cfg db)
    (hfg : cfg.foregroundGC = false)
    (hfail : (Status.firstFailure io.install.finish job.outputs).isOk = false)
    (hdb : (beforeDeletion db job io).2 = (db.batchDeleteFiles job.outputs io.install.deleteFile).2)
    (hstop : (beforeDeletion db job io).1.isOk = false ∨ io.isDropped = true) :
    Db.Unharmed cfg db (db.finish cfg job io).2 job := by
  rw [finish_of_failed hfg hfail, if_neg, hdb]
  · exact unharmed_cleanUp h _
  · rcases hstop with hs | hd
    · simp [hs]
    · simp [hd]

/-- After a builder has failed, `Finish` does no harm exactly when it is
stopped by something else. -/
theorem finish_after_failure_iff (hfg : cfg.foregroundGC = false) (h : job.Collected cfg db)
    (hfail : (Status.firstFailure io.install.finish job.outputs).isOk = false) :
    Db.Unharmed cfg db (db.finish cfg job io).2 job ↔ job.Stopped io := by
  have hsafe := unharmed_of_beforeDeletion h hfg hfail
  unfold GcJob.Stopped
  cases hclean : ((job.outputs.map io.install.deleteFile).getLastD .ok).isOk with
  | false =>
    have hb : beforeDeletion db job io = db.batchDeleteFiles job.outputs io.install.deleteFile :=
      if_neg (by rw [Bool.not_eq_true]; exact hclean)
    exact iff_of_true (hsafe (by rw [hb]) (.inl (hb ▸ hclean))) (.inl rfl)
  | true =>
    have hb : beforeDeletion db job io
        = rewriteValidKeyToLSM io.rewrite .ok
          (db.batchDeleteFiles job.outputs io.install.deleteFile).2
          job.rewriteBatches := if_pos hclean
    cases hround : firstSettled io.rewrite job.rewriteBatches.length with
    | none =>
      rw [rewrites_busy (.inl rfl) hround] at hb
      cases hdrop : io.isDropped with
      | true =>
        exact iff_of_true (hsafe (by rw [hb]) (.inr hdrop)) (.inr rfl)
      | false =>
        -- the inputs are marked obsolete
        refine iff_of_false (fun hun => ?_) (by simp)
        obtain ⟨n, hn⟩ := exists_mem_of_ne_nil _ h.inputs.1
        have hlive := hun.2.1 n hn
        rw [finish_of_failed hfg hfail, hb, hdrop] at hlive
        have hdead := live_deleteInputBlobFiles h.opened h.inputs.2.1 h.inputs.2.2 hn
        exact Bool.false_ne_true (hdead.symm.trans hlive)
    | some round =>
      cases hok : round.status.isOk with
      | false =>
        rw [rewrites_failed hround hok] at hb
        exact iff_of_true (hsafe (by rw [hb]) (.inl (hb ▸ hok))) (.inr hok)
      | true =>
        -- a key is pointed at a deleted file
        refine iff_of_false ?_ (by simp [hok])
        have hpoints : (beforeDeletion db job io).2.PointsInto cfg
            job.outputs := hb ▸ rewrites_written hround hok h.batches
        refine not_unharmed_of_pointsInto h ?_
        rw [finish_of_failed hfg hfail]
        split <;> exact hpoints

/-- A job has copied the one record of its input and is about to
finish. -/
def beforeFinish : Db :=
  ((Db.create .smallMerge).exec .smallMerge
    (putAndPick ++ [.gcStep 0 {}, .gcStep 0 {}])).getD (Db.create .smallMerge)

/-- The job. -/
def finishing : GcJob :=
  beforeFinish.jobs.headD { inputs := [], todo := [] }

/-- The output builder fails. -/
def noSpace : Db.FinishIO where
  install := { finish := fun _ => .ioError "No space left on device" }

theorem collected_finishing : finishing.Collected .smallMerge beforeFinish where
  opened := by decide +kernel
  inputs := by
    have hin : finishing.inputs = [2] := by decide +kernel
    refine ⟨by decide, by decide, fun n hn => ?_⟩
    rw [mem_singleton.1 hn]
    decide +kernel
  batches := by
    have hall : finishing.rewriteBatches.map (·.batch)
        = [[(.byte 1, ofIndex base128 (.first 3))]] := by
      decide +kernel
    intro rb hrb
    have hb := mem_map_of_mem (f := (·.batch)) hrb
    rw [hall, mem_singleton] at hb
    exact ⟨_, _, hb, by decide +kernel⟩
  unwritten := by decide +kernel

/-- `Finish` returns OK, the input is obsolete, and the key points at a
deleted file. -/
theorem finish_harms_after_noSpace :
    finishing.Collected .smallMerge beforeFinish
      ∧ (Status.firstFailure noSpace.install.finish finishing.outputs).isOk = false
      ∧ (beforeFinish.finish .smallMerge finishing noSpace).1 = .ok
      ∧ ¬ Db.Unharmed .smallMerge beforeFinish
        (beforeFinish.finish .smallMerge finishing noSpace).2 finishing := by
  refine ⟨collected_finishing, by decide +kernel, by decide +kernel, ?_⟩
  intro hun
  have hread := hun.2.2 (.byte 1)
  revert hread
  decide +kernel

/-- The deletion of the output file fails too. -/
def noSpaceNorDelete : Db.FinishIO where
  install := {
    finish := fun _ => .ioError "No space left on device"
    deleteFile := fun _ => .ioError "Read-only file system" }

theorem finish_unharmed_after_noDelete :
    Db.Unharmed .smallMerge beforeFinish
      (beforeFinish.finish .smallMerge finishing noSpaceNorDelete).2 finishing :=
  (finish_after_failure_iff rfl collected_finishing (by decide +kernel)).2
    (.inl (by decide +kernel))

end DiffKV
