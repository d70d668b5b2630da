/-
GC jobs as collectors of a store (`Lib.Store`): the index is the LSM
tree, the locations are blob indexes, and the locations pending are those
of Puts between their two steps and of jobs that are about to write.

Every step of the database is one of the store, and gives up at most the
inputs of jobs that have come to `DeleteInputBlobFiles`
(`DbStep.store`). What a job has yet to deal with (`GcJob.Unseen`) is
what its iterator and its batches have ahead; it is empty when the inputs
are given up, provided that no relocation is skipped on the way
(`GcJob.Succeeds`) and that no pending location was among the inputs when
the job was picked.
-/
import DiffKV.Lib.Relocation
import DiffKV.Proofs.Jobs

namespace DiffKV

open Lib List LsmEntry GcJob Option

variable {p : UserKey × BlobIndex} {r : BlobRecord} {new : BlobIndex}
  {entry : LsmEntry} {a : Action} {todo : List (BlobIndex × BlobRecord)}

variable {cfg : Config} {db db' db₁ : Db} {job job' : GcJob} {io : GcIO}
  {key : UserKey} {i : BlobIndex} {batch : WriteBatch}

-- ==== statements

/-- The batches the job is to write next, with their copies in usable
files. -/
def GcJob.batches (job : GcJob) : List WriteBatch :=
  match job.stage with
  | .write _ _ batch => [batch]
  | .rewrite rest => rest.map (·.batch)
  | _ => []

namespace Db

/-- The batches of Puts and jobs that are not written yet. -/
def pendingBatches (db : Db) : List WriteBatch :=
  db.puts.map (·.batch) ++ db.jobs.flatMap GcJob.batches

/-- The blob indexes they hold. -/
def pending (cfg : Config) (db : Db) : List (UserKey × BlobIndex) :=
  db.pendingBatches.flatMap (·.indexes cfg.coding)

/-- The batch a step would write. -/
def writes (db : Db) : Action → WriteBatch
  | .putWrite i => (db.puts[i]?.map (·.batch)).getD []
  | .gcStep j _ => (db.jobs[j]?.map (·.batches.headD [])).getD []
  | _ => []

end Db

/-- If the next step of the job relocates a record, it does so: the value
is one for a blob file, a file can be created, the key is not empty, and
the base DB takes the write; if it installs the output files, no builder
fails. -/
def GcJob.Succeeds (cfg : Config) (io : GcIO) (job : GcJob) : Prop :=
  match job.stage with
  | .add _ r => cfg.separates r.value = true ∧ io.created = true ∧ r.key.isEmpty = false
  | .write .. => io.write.isOk = true
  | .install =>
    (Status.firstFailure io.install.finish job.outputs).isOk = true
  | .rewrite (_ :: _) => io.rewrite.status.isBusy = false
  | _ => True

instance (io : GcIO) (job : GcJob) : Decidable (job.Succeeds cfg io) := by
  unfold GcJob.Succeeds
  generalize job.stage = stage
  exact match stage with
    | .add .. | .write .. | .install | .rewrite (_ :: _) => inferInstance
    | .run | .rewrite [] | .deleteInputs | .release | .done => isTrue trivial

/-- No job picks a file with a copy whose blob index is not written yet,
and no job skips a relocation. -/
def Db.Orderly (cfg : Config) (db : Db) : Action → Prop
  | .gcPick inputs _ => ∀ p ∈ db.pending cfg, p.2.fileNumber ∉ inputs
  | .gcStep j io => ∀ job ∈ db.jobs[j]?, job.Succeeds cfg io
  | _ => True

instance (db : Db) : (a : Action) → Decidable (db.Orderly cfg a)
  | .gcPick inputs _ => inferInstanceAs (Decidable (∀ p ∈ db.pending cfg, p.2.fileNumber ∉ inputs))
  | .gcStep j io => inferInstanceAs (Decidable (∀ job ∈ db.jobs[j]?, job.Succeeds cfg io))
  | .putAdd .. | .putWrite _ | .delete _ | .flushShard _ | .flushCompleted _
  | .takeSnapshot | .releaseSnapshot _ | .purgeRead | .purgeApply _ =>
    isTrue trivial

/-- The job has not come to its end. -/
def GcStage.isOpen : GcStage → Bool
  | .release | .done => false
  | _ => true

namespace GcJob

/-- Where the records of its inputs are. -/
def collected (job : GcJob) : Set BlobIndex :=
  { i | i.fileNumber ∈ job.inputs }

/-- The iterator has the record ahead, or a batch points the key
elsewhere. -/
def Ahead (cfg : Config) (job : GcJob) (key : UserKey) (i : BlobIndex) :
    Prop :=
  (∃ r, r.key = key ∧ (i, r) ∈ job.todo)
    ∨ (cfg.foregroundGC = false ∧ ∃ rb ∈ job.rewriteBatches, rb.key = key)

/-- The key may still point at the location, for all the job has done. -/
def Unseen (cfg : Config) (job : GcJob) (key : UserKey) (i : BlobIndex) :
    Prop :=
  match job.stage with
  | .run => job.Ahead cfg key i
  | .add i' r | .write i' r _ => (i = i' ∧ r.key = key) ∨ job.Ahead cfg key i
  | .install => ∃ rb ∈ job.rewriteBatches, rb.key = key
  | .rewrite rest => ∃ rb ∈ rest, rb.key = key
  | .deleteInputs => False
  | .release | .done => True

end GcJob

theorem stage_of_deleting (h : job.deleting = true) : job.stage = .deleteInputs := by
  unfold deleting at h
  split at h
  · assumption
  · cases h

theorem isOpen_of_deleting (h : job.deleting = true) : job.stage.isOpen = true := by
  rw [stage_of_deleting h]
  rfl

/-- The database as a store. -/
def Db.store (cfg : Config) (db : Db) : Store UserKey Bytes BlobIndex where
  index key := (db.lsm.lookup key).bind (·.blobIndex cfg.coding)
  record i := (db.record i).map fun r => (r.key, r.value)
  usable := { i | db.usable cfg i.fileNumber = true }
  pending key i := (key, i) ∈ db.pending cfg

/-- The inputs of the jobs that are about to mark them obsolete. -/
def Db.lost (db : Db) : Set BlobIndex :=
  { i | ∃ job ∈ db.jobs, job.deleting = true ∧ i ∈ job.collected }

-- ==== lookups

theorem index_store : (db.store cfg).index key = some i ↔ db.Points cfg key i :=
  bind_eq_some_iff

theorem mem_indexes :
    p ∈ batch.indexes cfg.coding
      ↔ ∃ entry, (p.1, entry) ∈ batch ∧ entry.blobIndex cfg.coding = some p.2 := by
  unfold WriteBatch.indexes
  rw [mem_filterMap]
  constructor
  · rintro ⟨⟨key, entry⟩, hmem, he⟩
    obtain ⟨i, hi, rfl⟩ := map_eq_some_iff.1 he
    exact ⟨entry, hmem, hi⟩
  · rintro ⟨entry, hmem, hi⟩
    exact ⟨(p.1, entry), hmem, by rw [hi]; rfl⟩

theorem indexes_ofIndex :
    WriteBatch.indexes cfg.coding [(key, ofIndex cfg.coding new)] = [(key, new)] := by
  simp [WriteBatch.indexes]

theorem indexes_copyBatch :
    (Filing.copyBatch cfg i new r).batch.indexes cfg.coding = [(r.key, new)] := indexes_ofIndex

theorem holds_store (hr : db.record i = some r) (hu : db.usable cfg i.fileNumber = true) :
    (db.store cfg).Holds r.key i := ⟨⟨r.value, congrArg (Option.map _) hr⟩, hu⟩

/-- An entry after a write. -/
theorem lookup_write (h : (db.write batch).lsm.lookup key = some entry) :
    db.lsm.lookup key = some entry ∨ (key, entry) ∈ batch := by
  have hfold : ∀ (batch : WriteBatch) (lsm : Map UserKey LsmEntry),
      (batch.foldl (fun m e => m.insert e.1 e.2) lsm).lookup key = some entry →
        lsm.lookup key = some entry ∨ (key, entry) ∈ batch := by
    intro batch
    induction batch with
    | nil => exact fun _ h => .inl h
    | cons e batch ih =>
      intro lsm h
      rcases ih _ h with h | h
      · rw [Table.lookup_insert] at h
        split at h
        case isTrue he =>
          cases h
          exact .inr (he ▸ mem_cons_self)
        case isFalse => exact .inl h
      · exact .inr (mem_cons_of_mem _ h)
  exact hfold batch db.lsm h

-- ==== a step is one of the store

/-- What the job asks of its own batches: their shape, and that the
hidden copies are there. -/
abbrev GcJob.Ok (cfg : Config) (db : Db) : GcJob → Prop :=
  JobOk cfg db (fun _ _ => True) fun _ _ => True

/-- A step of a job writes the first of its batches, or nothing. -/
theorem JobStep.lookup (hstep : JobStep cfg db job io job' db₁)
    (h : db₁.lsm.lookup key = some entry) :
    db.lsm.lookup key = some entry ∨ (key, entry) ∈ job.batches.headD [] := by
  cases hstep with
  | written i r batch hwrite =>
    unfold batches
    rw [hwrite]
    exact lookup_write h
  | rewritten rb rest hrewrite =>
    unfold batches
    rw [hrewrite]
    exact lookup_write h
  | stopped _ _ hext | stoppedAfter _ _ _ _ _ _ hext
  | copied _ _ _ _ _ _ _ _ _ _ hext | added _ _ _ _ hext
  | notAdded _ _ _ hext | installed _ _ hext | released _ hext =>
    exact .inl (hext.lsm ▸ h)
  | _ => exact .inl h

/-- A batch that becomes due holds the index of a copy in a file that is
being built, or that the job has just installed. -/
theorem JobStep.batches (hstep : JobStep cfg db job io job' db₁) (hok : job.Ok cfg db)
    (hio : job.stage = .install → (Status.firstFailure io.install.finish job.outputs).isOk = true)
    (hb : batch ∈ job'.batches) :
    batch ∈ job.batches ∨ ∀ p ∈ batch.indexes cfg.coding,
      (db₁.store cfg).Holds p.1 p.2
        ∧ (db₁.building cfg p.2.fileNumber = true ∨ p.2.fileNumber ∈ job.hidden) := by
  have hkept : job'.stage = job.stage → batch ∈ job.batches := by
    intro he
    unfold GcJob.batches at hb ⊢
    rwa [he] at hb
  cases hstep with
  | ended stage hrun htodo hstage =>
    rcases hstage with rfl | ⟨-, rfl⟩ | ⟨-, rfl⟩ <;> cases hb
  | discarded | copied => exact .inl (hkept rfl)
  | live | stopped | stoppedAfter | notAdded | written | notWritten
  | rewritesEnded | dropped | deleted | released => cases hb
  | added i r batch' hadd _ hcopy =>
    cases mem_singleton.1 hb
    right
    rcases hcopy with ⟨rfl, -⟩ | ⟨new, rfl, hrec, hbuild⟩
    · exact fun _ hp => nomatch hp
    · intro p hp
      rw [indexes_ofIndex, mem_singleton] at hp
      rw [hp]
      exact ⟨holds_store hrec (usable_iff.2 (.inl hbuild)), .inl hbuild⟩
  | installed hinstall _ hext hlive =>
    obtain ⟨rb, hrb, rfl⟩ := mem_map.1 hb
    obtain ⟨i, new, r, rfl, -, hrec, hout⟩ := hok.batches (by rw [hinstall]; rfl) rb hrb
    right
    intro p hp
    rw [indexes_copyBatch, mem_singleton] at hp
    rw [hp]
    refine ⟨holds_store (hext.record hrec) (usable_iff.2 (.inr (hlive _ hout))), .inr ?_⟩
    unfold GcJob.hidden
    rw [hinstall]
    exact hout
  | notInstalled _ _ hinstall hfailed =>
    rw [hio hinstall] at hfailed
    cases hfailed
  | rewritten rb rest hrewrite =>
    left
    unfold batches
    rw [hrewrite]
    exact mem_cons_of_mem _ hb
  | notRewritten rb rest stage hrewrite _ hstage =>
    rcases hstage with rfl | ⟨-, rfl⟩
    · cases hb
    · left
      unfold batches
      rw [hrewrite]
      exact mem_cons_of_mem _ hb

/-- What a new Put is about to write. -/
theorem PutBatch.holds {value : Bytes} (h : PutBatch cfg db key value batch)
    (hp : p ∈ batch.indexes cfg.coding) :
    (db.store cfg).Holds p.1 p.2 ∧ db.building cfg p.2.fileNumber = true := by
  rcases h with rfl | ⟨-, ⟨rfl, -⟩ | ⟨new, rfl, hrec, hbuild⟩⟩
  · cases hp
  · cases hp
  · rw [indexes_ofIndex, mem_singleton] at hp
    rw [hp]
    exact ⟨holds_store hrec (usable_iff.2 (.inl hbuild)), hbuild⟩

theorem mem_pending :
    p ∈ db.pending cfg
      ↔ (∃ put ∈ db.puts, p ∈ put.batch.indexes cfg.coding)
        ∨ ∃ job ∈ db.jobs, ∃ batch ∈ job.batches, p ∈ batch.indexes cfg.coding := by
  unfold Db.pending Db.pendingBatches
  simp only [mem_flatMap, mem_append, List.mem_map]
  constructor
  · rintro ⟨batch, ⟨put, hput, rfl⟩ | ⟨job, hjob, hb⟩, hp⟩
    · exact .inl ⟨put, hput, hp⟩
    · exact .inr ⟨job, hjob, batch, hb, hp⟩
  · rintro (⟨put, hput, hp⟩ | ⟨job, hjob, batch, hb, hp⟩)
    · exact ⟨put.batch, .inl ⟨put, hput, rfl⟩, hp⟩
    · exact ⟨batch, .inr ⟨job, hjob, hb⟩, hp⟩

theorem install_of_succeeds (h : job.Succeeds cfg io) (hinstall : job.stage = .install) :
    (Status.firstFailure io.install.finish job.outputs).isOk = true := by
  unfold GcJob.Succeeds at h
  rw [hinstall] at h
  exact h

/-- An entry of the LSM tree was there, or is of the batch written. -/
theorem DbStep.lookup (hstep : DbStep cfg db a db') (h : db'.lsm.lookup key = some entry) :
    db.lsm.lookup key = some entry ∨ (key, entry) ∈ db.writes a := by
  cases hstep with
  | putAdd _ hext | flushShard hext | flushCompleted hext | gcPick hext =>
    exact .inl (hext.lsm ▸ h)
  | takeSnapshot | releaseSnapshot | purgeRead | purgeApply => exact .inl h
  | putWrite put hi =>
    unfold Db.writes
    dsimp only
    rw [hi]
    exact lookup_write h
  | delete key' =>
    have h : (db.lsm.erase key').lookup key = some entry := h
    rw [Table.lookup_erase] at h
    split at h
    · cases h
    · exact .inl h
  | gcStep job job' hj hjob =>
    unfold Db.writes
    dsimp only
    rw [hj]
    exact hjob.lookup h

/-- What a step writes was pending. -/
theorem mem_pendingBatches_of_writes {e : UserKey × LsmEntry} (h : e ∈ db.writes a) :
    db.writes a ∈ db.pendingBatches := by
  unfold Db.writes at h ⊢
  split at h
  case h_1 i =>
    cases hput : db.puts[i]? with
    | none =>
      rw [hput] at h
      cases h
    | some put =>
      exact mem_append_left _ (mem_map_of_mem (mem_of_getElem? hput))
  case h_2 j _ =>
    cases hjob : db.jobs[j]? with
    | none =>
      rw [hjob] at h
      cases h
    | some job =>
      rw [hjob] at h
      refine mem_append_right _ (mem_flatMap.2 ⟨job, mem_of_getElem? hjob, ?_⟩)
      dsimp only [map_some, getD_some] at h ⊢
      cases hb : job.batches with
      | nil =>
        rw [hb] at h
        cases h
      | cons batch rest => exact mem_cons_self
  case h_3 => cases h

/-- A blob index of the LSM tree was there, or is of the batch
written. -/
theorem DbStep.points (hstep : DbStep cfg db a db') (h : db'.Points cfg key i) :
    db.Points cfg key i ∨ (key, i) ∈ (db.writes a).indexes cfg.coding := by
  obtain ⟨entry, hentry, hi⟩ := h
  rcases hstep.lookup hentry with hentry | hmem
  · exact .inl ⟨entry, hentry, hi⟩
  · exact .inr (mem_indexes.2 ⟨entry, hmem, hi⟩)

theorem pending_of_writes (h : p ∈ (db.writes a).indexes cfg.coding) : p ∈ db.pending cfg := by
  obtain ⟨entry, hmem, -⟩ := mem_indexes.1 h
  exact mem_flatMap.2 ⟨_, mem_pendingBatches_of_writes hmem, h⟩

/-- A pending location was so before, or is that of a new copy, which no
job collects. -/
theorem DbStep.pending (hstep : DbStep cfg db a db')
    (hfiled : Filed cfg db) (hfiled' : Filed cfg db')
    (hjobs : ∀ job ∈ db.jobs, job.Ok cfg db) (hcond : db.Orderly cfg a) (hp : p ∈ db'.pending cfg) :
    p ∈ db.pending cfg ∨ ((db'.store cfg).Holds p.1 p.2 ∧ p.2.fileNumber ∉ db'.inputs) := by
  have hsame : db'.puts = db.puts → db'.jobs = db.jobs → p ∈ db.pending cfg := by
    intro hputs hjobs
    unfold Db.pending Db.pendingBatches at hp ⊢
    rwa [hputs, hjobs] at hp
  have hbuilt : db'.building cfg p.2.fileNumber = true → p.2.fileNumber ∉ db'.inputs :=
    fun hb => (hfiled'.filing.building_new hb).2.2
  cases hstep with
  | flushShard hext | flushCompleted hext =>
    exact .inl (hsame hext.puts hext.jobs)
  | delete | takeSnapshot | releaseSnapshot | purgeRead | purgeApply =>
    exact .inl (hsame rfl rfl)
  | putAdd batch hext hbatch =>
    rcases mem_pending.1 hp with ⟨put, hput, hmem⟩ | hjob
    · rcases mem_append.1 hput with hput | hput
      · exact .inl (mem_pending.2 (.inl ⟨put, hput, hmem⟩))
      · rw [mem_singleton.1 hput] at hmem
        obtain ⟨hholds, hb⟩ := hbatch.holds hmem
        exact .inr ⟨hholds, hbuilt hb⟩
    · exact .inl (mem_pending.2 (.inr (hext.jobs ▸ hjob)))
  | putWrite put hi =>
    rcases mem_pending.1 hp with ⟨put', hput, hmem⟩ | hjob
    · exact .inl (mem_pending.2 (.inl ⟨put', mem_of_mem_eraseIdx hput, hmem⟩))
    · exact .inl (mem_pending.2 (.inr hjob))
  | gcPick hext =>
    rcases mem_pending.1 hp with hput | ⟨job, hjob, batch, hb, hmem⟩
    · exact .inl (mem_pending.2 (.inl (hext.puts ▸ hput)))
    · rcases mem_append.1 hjob with hjob | hjob
      · exact .inl (mem_pending.2 (.inr ⟨job, hjob, batch, hb, hmem⟩))
      · rw [mem_singleton.1 hjob] at hb
        cases hb
  | gcStep job job' hj hjob =>
    rcases mem_pending.1 hp with hput | ⟨x, hx, batch, hb, hmem⟩
    · exact .inl (mem_pending.2 (.inl (hjob.puts ▸ hput)))
    · rcases mem_or_eq_of_mem_set hx with hx | rfl
      · exact .inl (mem_pending.2 (.inr ⟨x, hx, batch, hb, hmem⟩))
      · have hold := mem_of_getElem? hj
        rcases hjob.batches (hjobs job hold) (install_of_succeeds (hcond job hj)) hb with hb | hnew
        · exact .inl (mem_pending.2 (.inr ⟨job, hold, batch, hb, hmem⟩))
        · obtain ⟨hholds, hfile⟩ := hnew p hmem
          refine .inr ⟨hholds, ?_⟩
          rcases hfile with hb | hhidden
          · exact hbuilt hb
          · have hhid : p.2.fileNumber ∈ db.hidden := mem_flatMap.2 ⟨job, hold, hhidden⟩
            exact fun hin => (hfiled.filing.hidden_new hhid).2.2.1 (hjob.mem_inputs hj hin)

/-- Every step of the database is one of the store. -/
theorem DbStep.store (hstep : DbStep cfg db a db') (hfiled : Filed cfg db) (hfiled' : Filed cfg db')
    (hjobs : ∀ job ∈ db.jobs, job.Ok cfg db) (hcond : db.Orderly cfg a) :
    (db.store cfg).Step (db'.store cfg) db.lost where
  index h := (hstep.points (index_store.1 h)).imp index_store.2 pending_of_writes
  pending h := (hstep.pending hfiled hfiled' hjobs hcond h).imp_right And.left
  record {l r} hr hu := by
    obtain ⟨r', hr', rfl⟩ := map_eq_some_iff.1 hr
    exact congrArg (Option.map _) (hstep.record hfiled hu hr')
  usable {l} hu := by
    by_cases hl : l ∈ db.lost
    · exact .inr hl
    · refine .inl (hstep.usable hfiled hu fun job hjob hdel hin => ?_)
      exact hl ⟨job, hjob, hdel, hin⟩

-- ==== what a job covers

/-- A job on its way: no pending location is among its inputs, what
points there is ahead of it, and it has skipped no relocation. -/
structure GcJob.Collects (cfg : Config) (db : Db) (job : GcJob) : Prop where
  avoids : (db.store cfg).Avoids job.collected
  covers : (db.store cfg).Covers job.collected (job.Unseen cfg)
  missed : job.missed = []
  writes : ∀ {i r batch}, job.stage = .write i r batch → batch ≠ []

/-- A key whose batch has been written points at the copy. -/
theorem not_points_written
    (h : (db.write [(r.key, ofIndex cfg.coding new)]).Points cfg
      key i) (hkey : r.key = key) : i = new := by
  obtain ⟨entry, hentry, hi⟩ := h
  have hlookup : (db.write [(r.key, ofIndex cfg.coding
      new)]).lsm.lookup key = some (ofIndex cfg.coding new) :=
    (Table.lookup_insert ..).trans (if_pos hkey.symm)
  cases hlookup.symm.trans hentry
  exact some.inj (hi.symm.trans (blobIndex_ofIndex ..))

/-- The next record, or one behind it. -/
theorem GcJob.Ahead.next {i' : BlobIndex} (h : job.Ahead cfg key i)
    (htodo : job.todo = (i', r) :: todo) :
    (i = i' ∧ r.key = key) ∨ { job with todo }.Ahead cfg key i := by
  rcases h with ⟨r', hkey, hmem⟩ | hrb
  · rw [htodo] at hmem
    rcases mem_cons.1 hmem with he | hmem
    · cases he
      exact .inl ⟨rfl, hkey⟩
    · exact .inr (.inl ⟨r', hkey, hmem⟩)
  · exact .inr (.inr hrb)

/-- The location of a copy the job is to write is not among its
inputs. -/
theorem GcJob.Collects.not_mem (h : job.Collects cfg db)
    (hjob : job ∈ db.jobs) (hb : batch ∈ job.batches) (hp : p ∈ batch.indexes cfg.coding) :
    p.2 ∉ job.collected := by
  have hpending : (db.store cfg).pending p.1 p.2 := mem_pending.2 (.inr ⟨job, hjob, batch, hb, hp⟩)
  exact h.avoids hpending

/-- A step of the job deals with what it takes off. -/
theorem JobStep.unseen (hstep : JobStep cfg db job io job' db₁)
    (hok : job.Ok cfg db) (hcollects : job.Collects cfg db)
    (hsucc : job.Succeeds cfg io) (hjob : job ∈ db.jobs)
    (hpoints : db₁.Points cfg key i) (hin : i ∈ job.collected)
    (hunseen : job.Unseen cfg key i) : job'.Unseen cfg key i := by
  unfold GcJob.Unseen at hunseen
  cases hstep with
  | ended stage hrun htodo hstage =>
    rw [hrun] at hunseen
    rcases hstage with rfl | ⟨hfg, rfl⟩ | ⟨-, rfl⟩
    · trivial
    · rcases hunseen with ⟨r, -, hmem⟩ | ⟨hfg', -⟩
      · rw [htodo] at hmem
        cases hmem
      · rw [hfg] at hfg'
        cases hfg'
    · rcases hunseen with ⟨r, -, hmem⟩ | ⟨-, hrb⟩
      · rw [htodo] at hmem
        cases hmem
      · exact hrb
  | stopped | stoppedAfter | dropped | deleted | released => trivial
  | discarded i' r todo hrun htodo hentry =>
    rw [hrun] at hunseen
    rcases hunseen.next htodo with ⟨rfl, rfl⟩ | hahead
    · cases hentry.symm.trans (discardEntry_of_points hpoints)
    · rw [hrun]
      exact hahead
  | live i' r todo hrun hfg htodo hentry =>
    rw [hrun] at hunseen
    exact hunseen.next htodo
  | copied i' r todo outputs fileSize new hrun hfg htodo hentry =>
    rw [hrun] at hunseen
    rw [hrun]
    rcases hunseen.next htodo with ⟨rfl, rfl⟩ | hahead | ⟨-, rb, hrb, hkey⟩
    · exact .inr ⟨hfg, _, mem_append_right _ mem_cons_self, rfl⟩
    · exact .inl hahead
    · exact .inr ⟨hfg, rb, mem_append_left _ hrb, hkey⟩
  | added i' r batch hadd =>
    rw [hadd] at hunseen
    exact hunseen
  | notAdded i' r hadd _ hwhy =>
    unfold GcJob.Succeeds at hsucc
    rw [hadd] at hsucc
    cases hsucc.2.1.symm.trans (hwhy hsucc.1)
  | written i' r batch hwrite _ hne =>
    rw [hwrite] at hunseen
    rcases hunseen with ⟨-, hkey⟩ | hahead
    · have hstage := hok.stage
      rw [hwrite] at hstage
      obtain ⟨new, rfl, -⟩ := hstage.2.resolve_left hne
      have hbatch : [(r.key, ofIndex cfg.coding new)] ∈ job.batches := by
        unfold GcJob.batches
        rw [hwrite]
        exact mem_cons_self
      refine absurd hin ?_
      rw [not_points_written hpoints hkey]
      exact hcollects.not_mem hjob hbatch (indexes_ofIndex ▸ mem_cons_self)
    · exact hahead
  | notWritten i' r batch hwrite hwhy =>
    unfold GcJob.Succeeds at hsucc
    rw [hwrite] at hsucc
    exact absurd (hwhy hsucc) (hcollects.writes hwrite)
  | installed hinstall =>
    rw [hinstall] at hunseen
    exact hunseen
  | notInstalled _ _ hinstall hfailed =>
    rw [install_of_succeeds hsucc hinstall] at hfailed
    cases hfailed
  | rewritesEnded hrewrite =>
    rw [hrewrite] at hunseen
    obtain ⟨rb, hrb, -⟩ := hunseen
    cases hrb
  | rewritten rb rest hrewrite =>
    rw [hrewrite] at hunseen
    obtain ⟨rb', hmem, hkey⟩ := hunseen
    rcases mem_cons.1 hmem with rfl | hmem
    · have hstage := hok.stage
      rw [hrewrite] at hstage
      obtain ⟨i', new, r, rfl, -, -⟩ := hstage _ mem_cons_self
      have hbatch : (Filing.copyBatch cfg i' new r).batch ∈ job.batches := by
        unfold GcJob.batches
        rw [hrewrite]
        exact mem_cons_self
      refine absurd hin ?_
      rw [not_points_written hpoints hkey]
      exact hcollects.not_mem hjob hbatch (indexes_copyBatch ▸ mem_cons_self)
    · exact ⟨rb', hmem, hkey⟩
  | notRewritten rb rest stage hrewrite _ hstage =>
    rcases hstage with rfl | ⟨hbusy, -⟩
    · trivial
    · unfold GcJob.Succeeds at hsucc
      rw [hrewrite] at hsucc
      cases hsucc.symm.trans hbusy

-- ==== the invariant

/-- Every location the LSM tree points at, or is about to, is that of a
record of the key in a usable file, and no job will give it up. -/
structure Accounted (cfg : Config) (db : Db) : Prop where
  filed : Filed cfg db
  jobs : ∀ job ∈ db.jobs, job.Ok cfg db
  sound : (db.store cfg).Sound
  ready : (db.store cfg).Ready
  collects : ∀ job ∈ db.jobs, job.stage.isOpen = true → job.Collects cfg db

theorem GcJob.Ok.mono (h : job.Ok cfg db)
    (hrecord : job.stage.hides = true → ∀ {i r}, i.fileNumber ∈ job.outputs → db.record i = some r →
      db'.record i = some r) : job.Ok cfg db' :=
  JobOk.mono h (fun _ => trivial) (fun _ => trivial) hrecord

theorem hidden_of_hides (h : job.stage.hides = true) : job.hidden = job.outputs := by
  unfold GcJob.hidden
  cases hs : job.stage <;> rw [hs] at h <;> first | rfl | cases h

/-- The copies in files that are not installed stay. -/
theorem DbStep.ok (hstep : DbStep cfg db a db')
    (hfiled : Filed cfg db) (hjobs : ∀ job ∈ db.jobs, job.Ok cfg db)
    (hcond : db.Orderly cfg a) : ∀ job ∈ db'.jobs, job.Ok cfg db' := by
  intro job hjob
  cases hstep with
  | putAdd _ hext | flushShard hext | flushCompleted hext =>
    exact (hjobs job (hext.jobs ▸ hjob)).mono fun _ _ _ _ => hext.record
  | putWrite | delete | takeSnapshot | releaseSnapshot | purgeRead =>
    exact (hjobs job hjob).mono fun _ _ _ _ hr => hr
  | gcPick hext _ htodo =>
    rcases mem_append.1 hjob with hjob | hjob
    · exact (hjobs job hjob).mono fun _ _ _ _ => hext.record
    · rw [mem_singleton.1 hjob]
      exact (JobOk.picked htodo fun _ _ => trivial).mono (fun h => h)
        (fun h => h) fun _ _ _ _ => hext.record
  | gcStep x x' hj hx =>
    have hio := install_of_succeeds (hcond x hj)
    rcases mem_or_eq_of_mem_set hjob with hjob | rfl
    · exact (hjobs job hjob).mono fun _ _ _ _ => hx.record_kept hio
    · exact (JobOk.step (hjobs x (mem_of_getElem? hj)) hx hio
        (fun _ => trivial) (fun _ => trivial) (fun _ _ => trivial)
        fun _ _ _ _ _ _ => trivial).mono (fun h => h) (fun h => h) fun _ _ _ _ hr => hr
  | purgeApply q =>
    refine (hjobs job hjob).mono fun hhides i r hout hr => ?_
    refine (record_purge_of_not_listed q ?_).trans hr
    refine (hfiled.filing.hidden_new (mem_flatMap.2 ⟨job, hjob, ?_⟩)).2.1
    rw [hidden_of_hides hhides]
    exact hout

theorem JobStep.isOpen (hstep : JobStep cfg db job io job' db₁)
    (hopen : job'.stage.isOpen = true) : job.stage.isOpen = true := by
  cases hstep with
  | ended _ hrun | stopped _ hrun | stoppedAfter _ _ _ _ hrun
  | discarded _ _ _ hrun | live _ _ _ hrun | copied _ _ _ _ _ _ hrun =>
    rw [hrun]; rfl
  | added _ _ _ hadd | notAdded _ _ hadd => rw [hadd]; rfl
  | written _ _ _ hwrite | notWritten _ _ _ hwrite => rw [hwrite]; rfl
  | installed hinstall | notInstalled _ _ hinstall => rw [hinstall]; rfl
  | rewritesEnded hrewrite | rewritten _ _ hrewrite
  | notRewritten _ _ _ hrewrite => rw [hrewrite]; rfl
  | dropped hdelete | deleted hdelete => rw [hdelete]; rfl
  | released => cases hopen

/-- No relocation is skipped. -/
theorem JobStep.missed (hstep : JobStep cfg db job io job' db₁)
    (h : job.Collects cfg db) (hsucc : job.Succeeds cfg io)
    (hopen : job'.stage.isOpen = true) : job'.missed = [] := by
  unfold GcJob.Succeeds at hsucc
  cases hstep with
  | notAdded _ _ hadd _ hwhy =>
    rw [hadd] at hsucc
    cases hsucc.2.1.symm.trans (hwhy hsucc.1)
  | notWritten _ _ _ hwrite hwhy =>
    rw [hwrite] at hsucc
    exact absurd (hwhy hsucc) (h.writes hwrite)
  | notRewritten _ _ _ hrewrite _ hstage =>
    rcases hstage with rfl | ⟨hbusy, -⟩
    · cases hopen
    · rw [hrewrite] at hsucc
      cases hsucc.symm.trans hbusy
  | _ => exact h.missed

/-- The batch of a record with a key is not empty. -/
theorem JobStep.writes (hstep : JobStep cfg db job io job' db₁) (hsucc : job.Succeeds cfg io)
    (hwrite : job'.stage = .write i r batch) : batch ≠ [] := by
  unfold GcJob.Succeeds at hsucc
  cases hstep with
  | added i' r' batch' hadd _ hcopy =>
    cases hwrite
    rw [hadd] at hsucc
    rcases hcopy with ⟨-, hkey⟩ | ⟨new, rfl, -⟩
    · cases hsucc.2.2.symm.trans hkey
    · exact cons_ne_nil _ _
  | discarded _ _ _ hrun | copied _ _ _ _ _ _ hrun =>
    cases hrun.symm.trans hwrite
  | ended _ _ _ hstage =>
    rcases hstage with rfl | ⟨-, rfl⟩ | ⟨-, rfl⟩ <;> cases hwrite
  | notInstalled _ _ _ _ hstage =>
    rcases hstage with rfl | rfl <;> cases hwrite
  | notRewritten _ _ _ _ _ hstage =>
    rcases hstage with rfl | ⟨-, rfl⟩ <;> cases hwrite
  | stopped | stoppedAfter | live | notAdded | written | notWritten
  | installed | rewritesEnded | rewritten | dropped | deleted | released =>
    cases hwrite

namespace Accounted

/-- The inputs that may be given up are not pending. -/
theorem avoids_lost (h : Accounted cfg db) : (db.store cfg).Avoids db.lost := by
  rintro key i hp ⟨job, hjob, hdel, hin⟩
  exact (h.collects job hjob (isOpen_of_deleting hdel)).avoids hp hin

/-- Nothing points at them. -/
theorem covers_lost (h : Accounted cfg db) : (db.store cfg).Covers db.lost fun _ _ => False := by
  rintro key i hi ⟨job, hjob, hdel, hin⟩
  have hunseen := (h.collects job hjob (isOpen_of_deleting hdel)).covers hi hin
  unfold GcJob.Unseen at hunseen
  rw [stage_of_deleting hdel] at hunseen
  exact hunseen

/-- A job that another step finds on its way. -/
private theorem collects_other (h : Accounted cfg db)
    (hstep : DbStep cfg db a db') (hfiled' : Filed cfg db')
    (hcond : db.Orderly cfg a) (hjob : job ∈ db.jobs) (hjob' : ∀ n ∈ job.inputs, n ∈ db'.inputs)
    (hopen : job.stage.isOpen = true) : job.Collects cfg db' := by
  have hcollects := h.collects job hjob hopen
  refine ⟨hcollects.avoids.step fun hp => ?_, hcollects.covers.step
    (hstep.store h.filed hfiled' h.jobs hcond) hcollects.avoids, hcollects.missed, hcollects.writes⟩
  refine (hstep.pending h.filed hfiled' h.jobs hcond hp).imp_right ?_
  exact fun hnew hin => hnew.2 (hjob' _ hin)

/-- The job that takes the step. -/
private theorem collects_step (h : Accounted cfg db) {j : Nat}
    (hj : db.jobs[j]? = some job) (hstep : JobStep cfg db job io job' db₁)
    (hfiled' : Filed cfg { db₁ with jobs := db.jobs.set j job' })
    (hsucc : job.Succeeds cfg io) (hopen : job'.stage.isOpen = true) :
    job'.Collects cfg { db₁ with jobs := db.jobs.set j job' } := by
  have hmem := mem_of_getElem? hj
  have hlt := (List.getElem?_eq_some_iff.1 hj).1
  have hcollects := h.collects job hmem (hstep.isOpen hopen)
  have hcond : db.Orderly cfg (.gcStep j io) := by
    intro x hx
    cases hj.symm.trans hx
    exact hsucc
  have hdb : DbStep cfg db (.gcStep j io)
      { db₁ with jobs := db.jobs.set j job' } := .gcStep job job' hj hstep
  have hin : ∀ n ∈ job.inputs, n ∈ ({ db₁ with jobs := db.jobs.set j job' } : Db).inputs := by
    intro n hn
    exact mem_flatMap.2 ⟨job', mem_set hlt _, hstep.inputs_eq ▸ hn⟩
  have hother := h.collects_other hdb hfiled' hcond hmem hin (hstep.isOpen hopen)
  have hcollected : job'.collected = job.collected := by
    unfold collected
    rw [hstep.inputs_eq]
  refine ⟨hcollected ▸ hother.avoids, ?_, hstep.missed hcollects hsucc hopen, hstep.writes hsucc⟩
  rw [hcollected]
  refine hother.covers.see fun hi hin hunseen => ?_
  exact hstep.unseen (h.jobs job hmem) hcollects hsucc hmem (index_store.1 hi) hin hunseen

/-- A job that has just been picked. -/
private theorem collects_picked (h : Accounted cfg db) {inputs : List UInt64}
    (hext : db.Extends cfg db₁) (htodo : todo.Perm (inputs.flatMap db.recordsOf))
    (hcond : db.Orderly cfg (.gcPick inputs todo)) :
    GcJob.Collects cfg { db₁ with jobs := db.jobs ++ [{ inputs, todo }] } { inputs, todo } := by
  refine ⟨fun {key i} hp => ?_, fun {key i} hi hin => ?_, rfl, fun hw => nomatch hw⟩
  · have hold : (key, i) ∈ db.pending cfg := by
      rcases mem_pending.1 hp with hput | ⟨job, hjob, batch, hb, hmem⟩
      · exact mem_pending.2 (.inl (hext.puts ▸ hput))
      · rcases mem_append.1 hjob with hjob | hjob
        · exact mem_pending.2 (.inr ⟨job, hjob, batch, hb, hmem⟩)
        · rw [mem_singleton.1 hjob] at hb
          cases hb
    exact hcond _ hold
  · have hi : (db.store cfg).index key = some i := by
      have hpoints := index_store.1 hi
      rw [hext.lsm] at hpoints
      exact index_store.2 hpoints
    obtain ⟨⟨value, hrec⟩, -⟩ := h.sound hi
    obtain ⟨r, hr, he⟩ := map_eq_some_iff.1 hrec
    refine .inl ⟨r, congrArg Prod.fst he, htodo.mem_iff.2 ?_⟩
    exact mem_flatMap.2 ⟨i.fileNumber, hin, mem_recordsOf.2 ⟨rfl, hr⟩⟩

/-- Every orderly step keeps the account. -/
theorem step (h : Accounted cfg db) (hcond : db.Orderly cfg a)
    (hstep : db.step cfg a = some db') : Accounted cfg db' := by
  have hfiled' := h.filed.step hstep
  have hdb := h.filed.dbStep hstep
  have hstore := hdb.store h.filed hfiled' h.jobs hcond
  refine ⟨hfiled', hdb.ok h.filed h.jobs hcond,
    h.sound.step h.ready hstore h.avoids_lost h.covers_lost,
    h.ready.step hstore h.avoids_lost, fun job hjob hopen => ?_⟩
  have hother : job ∈ db.jobs → job.Collects cfg db' := by
    intro hold
    refine h.collects_other hdb hfiled' hcond hold (fun n hn => ?_) hopen
    exact mem_flatMap.2 ⟨job, hjob, hn⟩
  cases hdb with
  | putAdd _ hext | flushShard hext | flushCompleted hext =>
    exact hother (hext.jobs ▸ hjob)
  | putWrite | delete | takeSnapshot | releaseSnapshot | purgeRead
  | purgeApply => exact hother hjob
  | gcPick hext _ htodo =>
    rcases mem_append.1 hjob with hold | hnew
    · exact hother hold
    · rw [mem_singleton.1 hnew]
      exact h.collects_picked hext htodo hcond
  | gcStep x x' hj hx =>
    rcases mem_or_eq_of_mem_set hjob with hold | rfl
    · exact hother hold
    · exact h.collects_step hj hx hfiled' (hcond x hj) hopen

end Accounted

end DiffKV
