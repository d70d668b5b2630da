/-
A GC job whose index rewrite stops: the column family is dropped, the
database shuts down, or a write fails.

By then the output files are installed and the inputs are not yet
obsolete, so both generations of files can be read. A batch that was
written moved its key to a copy; a batch that was not left its key at
the record it was copied from. `Halfway` says this of the state at any
round, so it does not matter at which one the loop stops.
-/
import DiffKV.Proofs.Collection

namespace DiffKV

open Lib List BlobFileSet LsmEntry Filing Db

variable {cfg : Config} {db db' db₀ : Db} {inputs : List UInt64}
  {todo : List (BlobIndex × BlobRecord)} {job : GcJob}

-- ==== the files' states

/-- `ReleaseGcFiles` makes the files that are not obsolete normal. -/
theorem BlobStorage.findFile_gcCompleted {n : UInt64} (ns : List UInt64)
    {st : BlobStorage} {m : BlobFileMeta} (hm : st.findFile n = some m)
    (h : m.state = .kNormal ∨ n ∈ ns ∧ m.isObsolete = false) :
    ∃ m', (ns.foldl (fun st n => st.transit n .kGCCompleted) st).findFile n
        = some m' ∧ m'.state = .kNormal := by
  induction ns generalizing st m with
  | nil => exact ⟨m, hm, h.resolve_right fun h => nomatch h.1⟩
  | cons k ns ih =>
    have hfile := findFile_transit st n k .kGCCompleted
    by_cases hk : n = k
    case pos =>
      rw [if_pos hk, hm] at hfile
      refine ih hfile (.inl ?_)
      have hlive : m.state ≠ .kObsolete := by
        rcases h with h | ⟨-, h⟩
        · rw [h]
          decide
        · exact of_decide_eq_false h
      exact if_neg hlive
    case neg =>
      rw [if_neg hk, hm] at hfile
      refine ih hfile (h.imp_right fun ⟨hn, hlive⟩ => ⟨?_, hlive⟩)
      exact (mem_cons.1 hn).resolve_left hk

theorem normal_releaseGcFiles {n : UInt64} (hn : n ∈ job.inputs ++ job.outputs)
    (hlive : db.live cfg n = true) :
    ∃ m, (db.releaseGcFiles cfg job).fileSet.file cfg.cfId n = some m ∧ m.state = .kNormal := by
  obtain ⟨m, hm, hobs⟩ := live_ne_none_iff.1 (live_iff.1 hlive)
  obtain ⟨st, hst, hfile⟩ := Option.bind_eq_some_iff.1 hm
  obtain ⟨m', hm', hstate⟩ :=
    BlobStorage.findFile_gcCompleted (job.inputs ++ job.outputs) hfile (.inr ⟨hn, hobs⟩)
  refine ⟨m', ?_, hstate⟩
  unfold releaseGcFiles transitFiles
  rw [file_onStorage, if_pos rfl, hst]
  exact hm'

-- ==== between files

/-- A key is pointed at a copy in one of the files `outputs`. -/
def Db.MovedInto (cfg : Config) (db₀ db : Db) (outputs : List UInt64) (key : UserKey) : Prop :=
  ∃ i new r, r.key = key ∧ db₀.Held cfg i r ∧ db.Finds cfg new r ∧ new.fileNumber ∈ outputs
    ∧ db.lsm.lookup key = some (LsmEntry.ofIndex cfg.coding new)

/-- The job's files are installed and live, and a key has its entry of
`db₀` or is moved into an output. The batches `rest` may still be
written. -/
structure Halfway (cfg : Config) (db₀ : Db) (job : GcJob)
    (rest : List RewriteBatch) (db : Db) : Prop where
  kept : db₀.SameBelow cfg db₀.fileSet.nextFileNumber db
  new : ∀ n ∈ job.outputs, db₀.fileSet.nextFileNumber ≤ n
  live : ∀ n ∈ job.inputs ++ job.outputs, db.live cfg n = true
  batches : ∀ rb ∈ rest, rb.Relocates cfg (db₀.Held cfg) fun new r =>
    db.Finds cfg new r ∧ new.fileNumber ∈ job.outputs
  keys : ∀ key, db.lsm.lookup key = db₀.lsm.lookup key ∨ db₀.MovedInto cfg db job.outputs key

namespace Halfway

variable {rb : RewriteBatch} {rest rest' : List RewriteBatch}

variable (h : Halfway cfg db₀ job rest db)
include h

theorem rest_subset (hrest : rest' ⊆ rest) : Halfway cfg db₀ job rest' db :=
  ⟨h.kept, h.new, h.live, fun rb hrb => h.batches rb (hrest hrb), h.keys⟩

omit h in
/-- A batch is written. -/
theorem write (h : Halfway cfg db₀ job (rb :: rest) db) :
    Halfway cfg db₀ job rest (db.write rb.batch) := by
  obtain ⟨i, new, r, rfl, hheld, hfinds, hout⟩ := h.batches rb mem_cons_self
  refine ⟨h.kept.trans ⟨fun _ => rfl, fun _ => rfl, fun _ => rfl, rfl⟩, h.new,
    h.live, fun rb hrb => h.batches rb (mem_cons_of_mem _ hrb), fun key => ?_⟩
  have hlookup : (db.write [(r.key, ofIndex cfg.coding new)]).lsm.lookup key
      = if key = r.key then some (ofIndex cfg.coding new)
        else db.lsm.lookup key := lookup_write_singleton ..
  by_cases hkey : key = r.key
  case pos =>
    rw [if_pos hkey] at hlookup
    exact .inr ⟨i, new, r, hkey.symm, hheld, hfinds, hout, hlookup⟩
  case neg =>
    rw [if_neg hkey] at hlookup
    rcases h.keys key with hsame | ⟨i', new', r', hr', h₁, h₂, h₃, h₄⟩
    · exact .inl (hlookup.trans hsame)
    · exact .inr ⟨i', new', r', hr', h₁, h₂, h₃, hlookup.trans h₄⟩

omit h in
/-- One round of `RewriteValidKeyToLSM`, whatever it meets. -/
theorem rewriteOne (h : Halfway cfg db₀ job (rb :: rest) db)
    (io : Db.RewriteIO) : Halfway cfg db₀ job rest (db.rewriteOne rb io) := by
  unfold Db.rewriteOne
  split
  · exact h.write
  · exact h.rest_subset (subset_cons_self ..)

/-- The loop, wherever it ends. -/
theorem rewriteValidKeyToLSM (io : Nat → Db.RewriteIO) (s : Status) :
    Halfway cfg db₀ job [] (rewriteValidKeyToLSM io s db rest).2 := by
  induction rest generalizing db s with
  | nil => exact h
  | cons rb rest ih =>
    unfold rewriteValidKeyToLSM
    dsimp only
    split
    · exact ih (h.rewriteOne _) _
    · exact (h.rewriteOne _).rest_subset (nil_subset _)

/-- `ReleaseGcFiles`. -/
theorem release : Halfway cfg db₀ job rest (db.releaseGcFiles cfg job) := by
  have hsame : db.fileSet.SameFiles (db.releaseGcFiles cfg job).fileSet :=
    Filed.sameFiles_release job
  have hfinds {i r} : db.Finds cfg i r → (db.releaseGcFiles cfg job).Finds cfg i r :=
    (sameFiles_extends hsame).finds
  refine ⟨h.kept.trans (.of_sameFiles hsame), h.new, fun n hn => ?_,
    fun rb hrb => ?_, fun key => ?_⟩
  · exact live_iff.2 ((hsame.live_ne_none cfg.cfId n).2 (live_iff.1 (h.live n hn)))
  · exact (h.batches rb hrb).mono (fun hi => hi) fun ⟨hnew, hout⟩ => ⟨hfinds hnew, hout⟩
  · refine (h.keys key).imp_right fun ⟨i, new, r, hr, hheld, hnew, hrest⟩ => ?_
    exact ⟨i, new, r, hr, hheld, hfinds hnew, hrest⟩

/-- Every key reads as in `db₀`. -/
theorem getImpl (hfiled : Filed cfg db₀) (hsound : db₀.Sound cfg inputs)
    (key : UserKey) : db.getImpl cfg key = db₀.getImpl cfg key := by
  obtain ⟨st₀, hst₀, -⟩ := hfiled.filing.opened
  obtain ⟨st, hst⟩ : ∃ st, db.storage cfg = some st := by
    refine Option.isSome_iff_exists.1 ?_
    rw [h.kept.storage, hst₀]
    rfl
  rcases h.keys key with hsame | ⟨i, new, r, hr, hheld, hfinds, hout, hlookup⟩
  · exact h.kept.getImpl hsame hsound.known
  · have hmoved : db₀.Moved cfg db key := ⟨i, new, r, hr, hheld, ⟨hfinds, h.new _ hout⟩, hlookup⟩
    exact hmoved.getImpl hst₀ hst

end Halfway

/-- `InstallOutputBlobFiles` went well. -/
theorem Installing.halfway {j : Nat} (h : Installing cfg db₀ j db job) {io : Db.InstallIO}
    (hok : (Status.firstFailure io.finish job.outputs).isOk = true) :
    Halfway cfg db₀ job job.rewriteBatches (db.installOutputBlobFiles cfg job io).2 := by
  obtain ⟨-, hext, hlive, hkept⟩ := h.installed io hok
  refine ⟨h.kept.trans hkept, h.new, fun n hn => ?_, fun rb hrb => ?_, fun key => .inl ?_⟩
  · rcases mem_append.1 hn with hn | hn
    · exact hext.live (h.live n hn)
    · exact hlive n hn
  · refine (h.batches rb hrb).mono (fun hi => hi) fun ⟨hrec, hout⟩ => ?_
    exact ⟨finds_of_live (hext.record hrec) (hlive _ hout), hout⟩
  · rw [← h.lsm, ← hext.lsm]

-- ==== `Finish`

/-- Some round of the rewrite of `n` batches ends the loop. -/
def Db.FinishIO.Stops (io : Db.FinishIO) (n : Nat) : Prop :=
  ∃ k, 1 ≤ k ∧ k ≤ n ∧ (io.rewrite k).continues = false

theorem isOk_of_not_continues {io : Db.RewriteIO}
    (h : io.continues = false) : io.status.isOk = false := (Bool.or_eq_false_iff.1 h).1

/-- A loop that is ended fails. -/
theorem rewriteValidKeyToLSM_stopped {io : Nat → Db.RewriteIO}
    (batches : List RewriteBatch) {k : Nat} (hpos : 1 ≤ k)
    (hk : k ≤ batches.length) (hstop : (io k).continues = false) (s : Status) (db : Db) :
    (rewriteValidKeyToLSM io s db batches).1.isOk = false := by
  induction batches generalizing s db with
  | nil => exact absurd hk (Nat.not_le.2 hpos)
  | cons rb rest ih =>
    unfold rewriteValidKeyToLSM
    dsimp only
    split
    case isTrue hgo =>
      -- not the round that ends it: that one is further on
      have hne : k ≠ rest.length + 1 := by
        rintro rfl
        exact Bool.false_ne_true (hstop.symm.trans hgo)
      rw [length_cons] at hk
      exact ih (by omega) _ _
    case isFalse hend =>
      exact isOk_of_not_continues (Bool.eq_false_of_not_eq_true hend)

/-- `Finish` when the loop is ended. -/
theorem Installing.finish_stopped {j : Nat} (h : Installing cfg db₀ j db job)
    (hfg : cfg.foregroundGC = false) {io : Db.FinishIO}
    (hok : (Status.firstFailure io.install.finish job.outputs).isOk = true)
    (hstop : io.Stops job.rewriteBatches.length) :
    (db.finish cfg job io).1.isOk = false ∧ Halfway cfg db₀ job [] (db.finish cfg job io).2 := by
  obtain ⟨hstatus, -⟩ := h.installed io.install hok
  obtain ⟨k, hpos, hk, hends⟩ := hstop
  have hfails := rewriteValidKeyToLSM_stopped job.rewriteBatches hpos hk hends
    .ok (db.installOutputBlobFiles cfg job io.install).2
  have hfinish : db.finish cfg job io
      = rewriteValidKeyToLSM io.rewrite .ok (db.installOutputBlobFiles cfg job io.install).2
        job.rewriteBatches := by
    have hinstalled : Status.ok.isOk = true := rfl
    simp [finish, hfg, hstatus, hinstalled, hfails]
  rw [hfinish]
  exact ⟨hfails, (h.halfway hok).rewriteValidKeyToLSM _ _⟩

/-- What a job that stopped is to leave: no file of its own is obsolete,
every key reads as before, and a key that pointed into an input still
does or points into an output. -/
structure Db.Resolves (cfg : Config) (db db' : Db) (job : GcJob) : Prop where
  live : ∀ n ∈ job.inputs ++ job.outputs, ∃ m,
    db'.fileSet.file cfg.cfId n = some m ∧ m.isObsolete = false
  values : ∀ key, db'.getImpl cfg key = db.getImpl cfg key
  points : ∀ {key i}, db.Points cfg key i → i.fileNumber ∈ job.inputs →
    db'.Points cfg key i ∨ ∃ new, db'.Points cfg key new ∧ new.fileNumber ∈ job.outputs

theorem Halfway.resolves {rest : List RewriteBatch}
    (h : Halfway cfg db₀ job rest db) (hfiled : Filed cfg db₀)
    (hsound : db₀.Sound cfg inputs) : db₀.Resolves cfg db job := by
  refine ⟨fun n hn => ?_, h.getImpl hfiled hsound, fun {key i} hpoints _ => ?_⟩
  · exact live_ne_none_iff.1 (live_iff.1 (h.live n hn))
  · obtain ⟨entry, hentry, hi⟩ := hpoints
    rcases h.keys key with hsame | ⟨-, new, -, -, -, -, hout, hlookup⟩
    · exact .inl ⟨entry, hsame.trans hentry, hi⟩
    · exact .inr ⟨new, ⟨_, hlookup, blobIndex_ofIndex ..⟩, hout⟩

/-- A GC job with output files of its own gets to `Finish`, from its pick
on with nobody else writing, with a batch for every key that points into
an input. At whichever batch the rewrite then stops,
and whether the rounds before wrote theirs or found it busy, `Finish`
fails, no file of the job is obsolete, and every key reads as before,
also behind `ReleaseGcFiles`, which leaves every file of the job
normal. -/
theorem stopped_rewrite_resolves (hfiled : Filed cfg db)
    (hmode : cfg.cfOptions.levelMerge = cfg.dbOptions.sepBeforeFlush)
    (hsound : db.Sound cfg inputs) (hroom : db.Room cfg todo)
    (hpick : (db.gcPick cfg inputs todo).isSome = true) :
    ∃ n collected job,
      db.exec cfg (.gcPick inputs todo
          :: List.replicate n (.gcStep db.jobs.length {})) = some collected
      ∧ collected.jobs[db.jobs.length]? = some job ∧ job.stage = .install ∧ job.inputs = inputs
      ∧ (∀ {key i}, db.Points cfg key i → i.fileNumber ∈ inputs →
        ∃ rb ∈ job.rewriteBatches, rb.key = key)
      ∧ ∀ io : Db.FinishIO, (∀ n ∈ job.outputs, (io.install.finish n).isOk = true) →
        io.Stops job.rewriteBatches.length →
        ∀ s stopped, collected.finish cfg job io = (s, stopped) → s.isOk = false
          ∧ db.Resolves cfg stopped job ∧ db.Resolves cfg (stopped.releaseGcFiles cfg job) job
          ∧ ∀ n ∈ job.inputs ++ job.outputs, ∃ m,
            (stopped.releaseGcFiles cfg job).fileSet.file cfg.cfId n = some m
              ∧ m.state = .kNormal := by
  have hfg := foregroundGC_of_modes hmode
  obtain ⟨picked, hpick⟩ := Option.isSome_iff_exists.1 hpick
  obtain ⟨collected, job, hcollect, hinstalling, hin⟩ := hfiled.installing hfg hsound hroom hpick
  obtain ⟨n, hn⟩ := exec_replicate hcollect
  refine ⟨n, collected, job, exec_cons_iff.2 ⟨picked, hpick, hn⟩,
    hinstalling.found, hinstalling.stage, hin,
    fun hpoints hmem => hinstalling.covered hpoints (hin.symm ▸ hmem),
    fun io hok hstop s stopped hfinish => ?_⟩
  obtain ⟨hfails, hhalfway⟩ := hinstalling.finish_stopped hfg
    ((Status.firstFailure_isOk ..).2 hok) hstop
  rw [hfinish] at hfails hhalfway
  exact ⟨hfails, hhalfway.resolves hfiled hsound, hhalfway.release.resolves hfiled hsound,
    fun n hn => normal_releaseGcFiles hn (hhalfway.live n hn)⟩

theorem points_overwritten : overwritten.Points .smallMerge (.byte 1) (.second 2) :=
  ⟨ofIndex base128 (.second 2), by decide +kernel, blobIndex_ofIndex ..⟩

/-- The database shuts down before the first batch is written. -/
theorem shutdown_before_rewrite_resolves :
    ∃ n collected job s stopped,
      overwritten.exec .smallMerge (.gcPick [2] overwrittenRecords
        :: List.replicate n (.gcStep 0 {})) = some collected
      ∧ collected.jobs[0]? = some job ∧ job.rewriteBatches ≠ []
      ∧ collected.finish .smallMerge job { rewrite := fun _ => .shutingDown } = (s, stopped)
      ∧ s.isOk = false ∧ stopped.getImpl .smallMerge (.byte 1) = .ok [8]
      ∧ ∃ m, (stopped.releaseGcFiles .smallMerge job).fileSet.file 0 2
        = some m ∧ m.state = .kNormal := by
  have hroom : overwritten.Room .smallMerge overwrittenRecords :=
    ⟨by decide, by decide +kernel, by decide +kernel, by decide +kernel⟩
  obtain ⟨n, collected, job, hexec, hjob, -, hin, hbatches, hstops⟩ :=
    stopped_rewrite_resolves filed_overwritten rfl sound_overwritten hroom (by decide +kernel)
  have hjobs : overwritten.jobs.length = 0 := by decide +kernel
  obtain ⟨rb, hrb, -⟩ := hbatches points_overwritten mem_cons_self
  have hstop : Db.FinishIO.Stops { rewrite := fun _ => .shutingDown } job.rewriteBatches.length :=
    ⟨1, Nat.le_refl 1, length_pos_of_mem hrb, rfl⟩
  obtain ⟨hfails, hresolves, -, hnormal⟩ := hstops _ (fun _ _ => rfl) hstop _ _ rfl
  have hread : overwritten.getImpl .smallMerge (.byte 1) = .ok [8] := by
    decide +kernel
  exact ⟨n, collected, job, _, _, hexec, hjob, ne_nil_of_mem hrb, rfl,
    hfails, (hresolves.values _).trans hread, hnormal 2 (mem_append_left _ (hin ▸ mem_cons_self))⟩

end DiffKV
