/-
User writes and garbage collection.

A GC job asks the LSM tree whether a key points at a record, and writes
the index of a copy later. If the key was written in between, the write
brings its old value back. `GarbageCollectionWriteCallback` tells such
keys, but no write of a job is given it.

Where it would let every write of a job pass, what a read of a key
returns is what the last user operation on it left.
-/
import DiffKV.Proofs.Jobs
import DiffKV.Proofs.Open

namespace DiffKV

open Lib List BlobFileSet LsmEntry Filing Db

variable {r : BlobRecord} {st : BlobStorage} {res : Except Status Bytes}
  {i : BlobIndex} {job' job : GcJob} {key : UserKey} {put : PendingPut}

variable {cfg : Config} {db db' db₁ : Db}

-- ==== statements

/-- If the next step of the job writes an index, the callback of the
write passes; if it installs the output files, no builder fails. -/
def GcJob.WritesCurrent (cfg : Config) (db : Db) (io : GcIO) (job : GcJob) :
    Prop :=
  match job.stage with
  | .write i r _ => io.write.isOk = true → db.callback cfg r.key i = .ok
  | .rewrite (rb :: _) => io.rewrite.status.isOk = true → db.callback cfg rb.key rb.blobIndex = .ok
  | .install =>
    (Status.firstFailure io.install.finish job.outputs).isOk = true
  | _ => True

instance (db : Db) (io : GcIO) (job : GcJob) : Decidable (job.WritesCurrent cfg db io) := by
  unfold GcJob.WritesCurrent
  split <;> infer_instance

namespace Db

variable (cfg : Config)

/-- The steps of user writes and GC jobs; no purge deletes files. -/
def WritesCurrent (db : Db) : Action → Prop
  | .gcStep j io => ∀ job ∈ db.jobs[j]?, job.WritesCurrent cfg db io
  | .purgeApply _ => False
  | _ => True

instance (db : Db) : (a : Action) → Decidable (db.WritesCurrent cfg a)
  | .gcStep j io => inferInstanceAs (Decidable (∀ job ∈ db.jobs[j]?, job.WritesCurrent cfg db io))
  | .purgeApply _ => isFalse fun h => h
  | .putAdd .. | .putWrite _ | .delete _ | .flushShard _ | .flushCompleted _
  | .gcPick .. | .takeSnapshot | .releaseSnapshot _ | .purgeRead =>
    isTrue trivial

/-- What user operations leave behind, for each key: a Put its value, a
Delete nothing. A Put of an empty key may have no batch to write. -/
def leave (db : Db) (a : Action) (left : UserKey → Except Status Bytes) :
    UserKey → Except Status Bytes :=
  match a with
  | .putWrite i =>
    match db.puts[i]? with
    | none => left
    | some put =>
      if put.batch.isEmpty then left
      else Function.update left put.key (.ok put.value)
  | .delete key => Function.update left key (.error (.notFound ""))
  | _ => left

/-- A read of a blob index finds the file `n`. -/
def readable (db : Db) (n : UInt64) : Bool :=
  db.installed cfg n || (cfg.dbOptions.sepBeforeFlush && db.building cfg n)

/-- The blob index points at a record that a read finds. -/
def Finds (db : Db) (i : BlobIndex) (r : BlobRecord) : Prop :=
  db.record i = some r ∧ db.readable cfg i.fileNumber = true

/-- Every blob index of the LSM tree does, at a record of its key. -/
def Readable (db : Db) : Prop :=
  ∀ key entry, db.lsm.lookup key = some entry → entry.isBlobIndex = true →
    ∃ i value, entry.blobIndex cfg.coding = some i ∧ db.Finds cfg i { key, value }

end Db

-- ==== reads

/-- A read of the key returns `res`, and how it comes to it. -/
inductive Db.Sees (cfg : Config) (db : Db) (key : UserKey) : Except Status Bytes → Prop where
  | missing (h : db.lsm.lookup key = none) : Sees cfg db key (.error (.notFound ""))
  | inLine {entry} (h : db.lsm.lookup key = some entry)
      (hinline : entry.isBlobIndex = false) : Sees cfg db key (.ok entry.value)
  | blob {entry i value} (h : db.lsm.lookup key = some entry)
      (hi : entry.blobIndex cfg.coding = some i)
      (hfinds : db.Finds cfg i { key, value }) : Sees cfg db key (.ok value)

theorem readFile_of_record (hrec : db.record i = some r) : db.readFile i = .ok r := by
  obtain ⟨file, hfile, hfind⟩ := Option.bind_eq_some_iff.1 hrec
  unfold readFile
  rw [hfile]
  dsimp only
  rw [hfind]

theorem Db.Finds.storageGet (h : db.Finds cfg i r)
    (hst : db.storage cfg = some st) : db.storageGet cfg st i = .ok r := by
  obtain ⟨hr, hread⟩ := h
  have hfile := readFile_of_record hr
  unfold Db.storageGet
  split
  · exact hfile
  · next hnone =>
    have hnot : db.installed cfg i.fileNumber = false := by
      unfold Db.installed file
      rw [show db.fileSet.columnFamilies.lookup cfg.cfId = some st from hst]
      simp [hnone]
    unfold readable at hread
    rw [hnot, Bool.false_or, Bool.and_eq_true] at hread
    have hbuild : st.findBuildingFile i.fileNumber = true := by
      obtain ⟨st', hst', hb⟩ := building_iff.1 hread.2
      cases hst.symm.trans hst'
      exact hb
    rw [if_pos hread.1, if_pos hbuild]
    exact hfile

theorem Db.Sees.getImpl (h : db.Sees cfg key res)
    (hst : db.storage cfg = some st) : db.getImpl cfg key = res := by
  unfold Db.getImpl
  cases h with
  | missing hnone => rw [hnone]
  | inLine hentry hinline =>
    rw [hentry]
    dsimp only
    rw [if_pos (by simp [hinline])]
  | blob hentry hi hfinds =>
    obtain ⟨hb, rest, hd⟩ := blobIndex_eq_some_iff.1 hi
    rw [hentry]
    dsimp only
    rw [if_neg (by simp [hb]), hd]
    rw [hst]
    dsimp only
    rw [hfinds.storageGet hst]
    rfl

theorem Db.Readable.sees (h : db.Readable cfg) (hst : db.storage cfg = some st) (key : UserKey) :
    db.Sees cfg key (db.getImpl cfg key) := by
  have hsees : ∃ res, db.Sees cfg key res := by
    cases hentry : db.lsm.lookup key with
    | none => exact ⟨_, .missing hentry⟩
    | some entry =>
      cases hb : entry.isBlobIndex with
      | false => exact ⟨_, .inLine hentry hb⟩
      | true =>
        obtain ⟨i, value, hi, hfinds⟩ := h key entry hentry hb
        exact ⟨_, .blob hentry hi hfinds⟩
  obtain ⟨res, hres⟩ := hsees
  rw [hres.getImpl hst]
  exact hres

/-- A read that finds the same entry, and the record if it is a blob
index, returns the same. -/
theorem Db.Sees.mono (h : db.Sees cfg key res) (hlsm : db'.lsm.lookup key = db.lsm.lookup key)
    (hfinds : ∀ {i r}, db.Finds cfg i r → db'.Finds cfg i r) : db'.Sees cfg key res := by
  cases h with
  | missing hnone => exact .missing (hlsm.trans hnone)
  | inLine hentry hinline => exact .inLine (hlsm.trans hentry) hinline
  | blob hentry hi hf => exact .blob (hlsm.trans hentry) hi (hfinds hf)

-- ==== one step

theorem Db.Extends.finds (h : db.Extends cfg db') (hi : db.Finds cfg i r) : db'.Finds cfg i r := by
  refine ⟨h.record hi.1, ?_⟩
  have hread := hi.2
  unfold readable at hread ⊢
  rw [Bool.or_eq_true, Bool.and_eq_true] at hread ⊢
  rcases hread with hn | ⟨hsep, hn⟩
  · exact .inl (h.installed hn)
  · rcases h.building hn with hn | hn
    · exact .inr ⟨hsep, hn⟩
    · exact .inl (installed_iff.2 (file_of_live (live_iff.1 hn)))

/-- Files marked obsolete can still be read. -/
theorem Db.Finds.deleteInputs (hi : db.Finds cfg i r) (job : GcJob) :
    (db.deleteInputBlobFiles cfg job).2.Finds cfg i r := by
  refine ⟨hi.1, ?_⟩
  have hread := hi.2
  unfold readable at hread ⊢
  rw [Bool.or_eq_true, Bool.and_eq_true] at hread ⊢
  rcases hread with hn | ⟨hsep, hn⟩
  · exact .inl (installed_iff.2 (file_logAndApply (installed_iff.1 hn) _ _))
  · have hkept := building_logAndApply (C := cfg.coding) (e := deleteEdit cfg job.inputs db.seq) hn
    rcases hkept with hn | hn
    · exact .inr ⟨hsep, hn⟩
    · exact .inl (installed_iff.2 hn)

theorem JobStep.finds {io : GcIO} (hstep : JobStep cfg db job io job' db₁)
    (hcond : job.WritesCurrent cfg db io) (hi : db.Finds cfg i r) : db₁.Finds cfg i r := by
  cases hstep.effect with
  | same | writes => exact hi
  | grows hext => exact hext.finds hi
  | deletes => exact hi.deleteInputs job
  | cleans hinstall hfailed =>
    unfold GcJob.WritesCurrent at hcond
    rw [hinstall] at hcond
    rw [hcond] at hfailed
    cases hfailed

theorem lookup_write_singleton (key key' : UserKey) (entry : LsmEntry) :
    (db.write [(key, entry)]).lsm.lookup key'
      = if key' = key then some entry else db.lsm.lookup key' :=
  Table.lookup_insert ..

/-- A key that still points at a record may point at a copy of it. -/
theorem Db.Sees.relocate (h : db.Sees cfg key res) {new : BlobIndex}
    (hcallback : db.callback cfg r.key i = .ok) (hi : db.record i = some r)
    (hnew : db.Finds cfg new r) :
    (db.write [(r.key, ofIndex cfg.coding new)]).Sees cfg key res := by
  by_cases hkey : key = r.key
  case neg =>
    refine h.mono ?_ fun hf => hf
    rw [lookup_write_singleton, if_neg hkey]
  case pos =>
    subst hkey
    -- the callback passed, so the entry is the index `i`
    unfold callback at hcallback
    cases h with
    | missing hnone =>
      rw [hnone] at hcallback
      cases hcallback
    | inLine hentry hinline =>
      rw [hentry] at hcallback
      dsimp only at hcallback
      rw [if_pos (by simp [hinline])] at hcallback
      cases hcallback
    | @blob entry i' value hentry hi' hfinds =>
      obtain ⟨hb, rest, hd⟩ := blobIndex_eq_some_iff.1 hi'
      rw [hentry] at hcallback
      dsimp only at hcallback
      rw [if_neg (by simp [hb]), hd] at hcallback
      dsimp only at hcallback
      split at hcallback
      case isFalse => cases hcallback
      case isTrue he =>
        subst he
        have hr : r = { key := r.key, value } := Option.some.inj (hi.symm.trans hfinds.1)
        refine .blob (i := new) ?_ (blobIndex_ofIndex ..) ?_
        · rw [lookup_write_singleton, if_pos rfl]
        · rw [← hr]
          exact hnew

/-- What a Put is about to write. -/
def PendingPut.Ok (cfg : Config) (db : Db) (put : PendingPut) : Prop :=
  put.batch = [] ∨ put.batch = [(put.key, { value := put.value })]
    ∨ ∃ i, put.batch = [(put.key, LsmEntry.ofIndex cfg.coding i)]
      ∧ db.Finds cfg i { key := put.key, value := put.value }

theorem PendingPut.Ok.mono (h : put.Ok cfg db)
    (hfinds : ∀ {i r}, db.Finds cfg i r → db'.Finds cfg i r) : put.Ok cfg db' := by
  rcases h with h | h | ⟨i, hb, hi⟩
  · exact .inl h
  · exact .inr (.inl h)
  · exact .inr (.inr ⟨i, hb, hfinds hi⟩)

theorem PutBatch.ok {value : Bytes} {batch : WriteBatch} (h : PutBatch cfg db key value batch) :
    PendingPut.Ok cfg db { key, value, batch } := by
  rcases h with h | ⟨hsep, ⟨h, -⟩ | ⟨i, hb, hrec, hbuild⟩⟩
  · exact .inr (.inl h)
  · exact .inl h
  · refine .inr (.inr ⟨i, hb, hrec, ?_⟩)
    unfold readable
    rw [hsep, hbuild, Bool.true_and, Bool.or_true]

/-- The state shows what the user operations left. -/
structure Coherent (cfg : Config) (db : Db) (left : UserKey → Except Status Bytes) : Prop where
  filed : Filed cfg db
  sees : ∀ key, db.Sees cfg key (left key)
  puts : ∀ put ∈ db.puts, put.Ok cfg db
  jobs : ∀ job ∈ db.jobs, JobOk cfg db (fun i r => db.record i = some r) (db.Finds cfg) job

namespace Coherent

variable {left : UserKey → Except Status Bytes} {j : Nat} {io : GcIO}

variable (h : Coherent cfg db left)
include h

/-- The steps that write no key and lose no record. -/
private theorem quiet (hfiled : Filed cfg db') (hlsm : db'.lsm = db.lsm)
    (hrecord : ∀ {i r}, db.record i = some r → db'.record i = some r)
    (hfinds : ∀ {i r}, db.Finds cfg i r → db'.Finds cfg i r)
    (hputs : ∀ put ∈ db'.puts, put ∈ db.puts ∨ put.Ok cfg db')
    (hjobs : ∀ job ∈ db'.jobs, job ∈ db.jobs ∨ JobOk cfg db'
      (fun i r => db'.record i = some r) (db'.Finds cfg) job) :
    Coherent cfg db' left where
  filed := hfiled
  sees key := (h.sees key).mono (by rw [hlsm]) hfinds
  puts put hput := by
    rcases hputs put hput with hput | hok
    · exact (h.puts put hput).mono hfinds
    · exact hok
  jobs job hjob := by
    rcases hjobs job hjob with hjob | hok
    · exact (h.jobs job hjob).mono hrecord hfinds fun _ _ _ _ => hrecord
    · exact hok

private theorem putWrite {i : Nat} (hi : db.puts[i]? = some put)
    (hfiled : Filed cfg { db.write put.batch with puts := db.puts.eraseIdx i }) :
    Coherent cfg { db.write put.batch with puts := db.puts.eraseIdx i }
      (db.leave (.putWrite i) left) where
  filed := hfiled
  sees key := by
    unfold leave
    dsimp only
    rw [hi]
    dsimp only
    have hsame : ∀ {entry}, put.batch = [(put.key, entry)] → key ≠ put.key →
        Db.Sees cfg { db.write put.batch with puts := db.puts.eraseIdx i } key (left key) := by
      intro entry hb hkey
      refine (h.sees key).mono ?_ fun hf => hf
      rw [hb, lookup_write_singleton, if_neg hkey]
    have hnew : ∀ {entry}, put.batch = [(put.key, entry)] →
        Db.Sees cfg { db.write put.batch with puts := db.puts.eraseIdx i } put.key (.ok put.value) →
        Db.Sees cfg { db.write put.batch with puts := db.puts.eraseIdx i } key
          (Function.update left put.key (.ok put.value) key) := by
      intro entry hb hput
      by_cases hkey : key = put.key
      · rw [hkey, Function.update_self]
        exact hput
      · rw [Function.update_of_ne hkey]
        exact hsame hb hkey
    have hentry : ∀ {entry}, put.batch = [(put.key, entry)] →
        ({ db.write put.batch with puts := db.puts.eraseIdx i } :
          Db).lsm.lookup put.key = some entry := by
      intro entry hb
      rw [hb, lookup_write_singleton, if_pos rfl]
    rcases h.puts put (mem_of_getElem? hi) with hb | hb | ⟨j, hb, hj⟩
    · rw [if_pos (by rw [hb]; rfl)]
      refine (h.sees key).mono ?_ fun hf => hf
      rw [hb]
      rfl
    · rw [if_neg (by simp [hb])]
      exact hnew hb (.inLine (hentry hb) rfl)
    · rw [if_neg (by simp [hb])]
      exact hnew hb (.blob (i := j) (hentry hb) (blobIndex_ofIndex ..) hj)
  puts p hp := h.puts p (mem_of_mem_eraseIdx hp)
  jobs job hjob := (h.jobs job hjob).mono (fun h => h) (fun h => h) fun _ _ _ _ h => h

private theorem delete (hfiled : Filed cfg (db.delete key)) :
    Coherent cfg (db.delete key) (db.leave (.delete key) left) where
  filed := hfiled
  sees key' := by
    have hlsm : (db.delete key).lsm.lookup key' = if key' = key then none else db.lsm.lookup key' :=
      Table.lookup_erase ..
    unfold leave
    dsimp only
    by_cases hkey : key' = key
    · rw [hkey, Function.update_self]
      refine .missing ?_
      rw [hkey, if_pos rfl] at hlsm
      exact hlsm
    · rw [Function.update_of_ne hkey]
      refine (h.sees key').mono ?_ fun hf => hf
      rw [hlsm, if_neg hkey]
  puts := h.puts
  jobs job hjob := (h.jobs job hjob).mono (fun h => h) (fun h => h) fun _ _ _ _ h => h

private theorem sees_jobStep (hj : db.jobs[j]? = some job) (hstep : JobStep cfg db job io job' db₁)
    (hcond : job.WritesCurrent cfg db io) (key : UserKey) : db₁.Sees cfg key (left key) := by
  have hok := h.jobs job (mem_of_getElem? hj)
  have hquiet : db₁.lsm = db.lsm → db₁.Sees cfg key (left key) :=
    fun hlsm => (h.sees key).mono (by rw [hlsm]) (hstep.finds hcond)
  have hstage := hok.stage
  unfold GcJob.WritesCurrent at hcond
  cases hstep with
  | written i r batch hwrite hio hbatch =>
    rw [hwrite] at hstage hcond
    obtain ⟨hi, hb | ⟨new, rfl, hnew⟩⟩ := hstage
    · exact absurd hb hbatch
    · exact (h.sees key).relocate (hcond hio) hi hnew
  | rewritten rb rest hrewrite hio =>
    rw [hrewrite] at hstage hcond
    obtain ⟨i, new, r, rfl, hi, hnew⟩ := hstage rb mem_cons_self
    exact (h.sees key).relocate (hcond hio) hi hnew
  | stopped _ _ hext | stoppedAfter _ _ _ _ _ _ hext
  | copied _ _ _ _ _ _ _ _ _ _ hext | added _ _ _ _ hext
  | notAdded _ _ _ hext | installed _ _ hext | released _ hext =>
    exact hquiet hext.lsm
  | ended | discarded | live | notWritten | rewritesEnded | notRewritten
  | dropped | deleted | notInstalled => exact hquiet rfl

private theorem gcStep (hj : db.jobs[j]? = some job) (hstep : JobStep cfg db job io job' db₁)
    (hcond : job.WritesCurrent cfg db io)
    (hfiled : Filed cfg { db₁ with jobs := db.jobs.set j job' }) :
    Coherent cfg { db₁ with jobs := db.jobs.set j job' } left where
  filed := hfiled
  sees key := (h.sees_jobStep hj hstep hcond key).mono rfl fun hf => hf
  puts put hput := by
    rw [hstep.puts] at hput
    exact (h.puts put hput).mono fun hf => hstep.finds hcond hf
  jobs x hx := by
    have hio : job.stage = .install →
        (Status.firstFailure io.install.finish job.outputs).isOk = true := by
      intro hs
      unfold GcJob.WritesCurrent at hcond
      rwa [hs] at hcond
    have hrecord : ∀ {i r}, db.record i = some r → db₁.record i = some r := hstep.record_kept hio
    rcases mem_or_eq_of_mem_set hx with hx | rfl
    · exact (h.jobs x hx).mono hrecord (fun hf => hstep.finds hcond hf) fun _ _ _ _ => hrecord
    · have hok : JobOk cfg db₁ (fun i r => db₁.record i = some r) (db₁.Finds cfg) x := by
        refine (h.jobs job (mem_of_getElem? hj)).step hstep hio hrecord
          (fun hf => hstep.finds hcond hf) ?_ ?_
        · intro i r hr hb
          refine ⟨hr, ?_⟩
          have hsep := hfiled.filing.sep_of_building hb
          unfold readable
          rw [hsep, hb, Bool.true_and, Bool.or_true]
        · intro _ i r _ hr hl
          refine ⟨hr, ?_⟩
          have hinst := installed_iff.2 (file_of_live (live_iff.1 hl))
          unfold readable
          rw [hinst, Bool.true_or]
      exact hok.mono (fun h => h) (fun h => h) fun _ _ _ _ h => h

theorem step {a : Action} (hcond : db.WritesCurrent cfg a) (hstep : db.step cfg a = some db') :
    Coherent cfg db' (db.leave a left) := by
  have hfiled := h.filed.step hstep
  cases h.filed.dbStep hstep with
  | @putAdd _ _ _ db₁ batch hext hbatch =>
    refine h.quiet hfiled hext.lsm hext.record hext.finds ?_ fun job hjob => .inl (hext.jobs ▸ hjob)
    intro put hput
    rcases mem_append.1 hput with hput | hput
    · exact .inl hput
    · rw [mem_singleton] at hput
      subst hput
      exact .inr (hbatch.ok.mono fun h => h)
  | putWrite put hi => exact h.putWrite hi hfiled
  | delete key => exact h.delete hfiled
  | flushShard hext | flushCompleted hext =>
    exact h.quiet hfiled hext.lsm hext.record hext.finds (fun put hput => .inl (hext.puts ▸ hput))
      fun job hjob => .inl (hext.jobs ▸ hjob)
  | @gcPick inputs todo db₁ hext _ htodo =>
    refine h.quiet hfiled hext.lsm hext.record hext.finds
      (fun put hput => .inl (hext.puts ▸ hput)) ?_
    intro job hjob
    rcases mem_append.1 hjob with hjob | hjob
    · exact .inl hjob
    · rw [mem_singleton] at hjob
      subst hjob
      right
      have hok : JobOk cfg db (fun i r => db₁.record i = some r) (db₁.Finds cfg) { inputs, todo } :=
        .picked htodo fun _ hr => hext.record hr
      exact hok.mono (fun h => h) (fun h => h) fun _ _ _ _ h => hext.record h
  | gcStep job job' hj hjob => exact h.gcStep hj hjob (hcond job hj) hfiled
  | takeSnapshot | releaseSnapshot | purgeRead =>
    exact h.quiet hfiled rfl (fun h => h) (fun h => h)
      (fun _ hput => .inl hput) fun _ hjob => .inl hjob
  | purgeApply => exact hcond.elim

end Coherent

-- ==== runs

/-- The user overwrites the key after the job has looked at it and
before the job writes. -/
def overwriteDuringGc : List Action :=
  putAndPick ++ [.gcStep 0 {}, .gcStep 0 {}, .putAdd (.byte 1) [8] true, .putWrite 0, .gcStep 0 {}]

/-- The same with a Delete, and a job with output files of its own. -/
def deleteDuringGc : List Action :=
  putAndPick ++ [.gcStep 0 {}, .gcStep 0 {}, .gcStep 0 {}, .delete (.byte 1), .gcStep 0 {}]

/-- The user overwrites another key. -/
def overwriteOtherDuringGc : List Action :=
  putAndPick ++ [.gcStep 0 {}, .gcStep 0 {}, .putAdd (.byte 2) [8] true, .putWrite 0, .gcStep 0 {}]

end DiffKV
