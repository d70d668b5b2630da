/-
The records a GC job deals with.

`JobOk` follows them from stage to stage: those the job has yet to look
at, those it has copied, and the batches that point keys at the copies.
It is stated over two relations, `held` for the records of the inputs
and `ready` for the copies the LSM tree may point at, because the
results that rest on it ask different things of them.
-/
import DiffKV.Proofs.Effects

namespace DiffKV

open Lib List

variable {cfg : Config} {db db' db₁ : Db} {job job' : GcJob} {io : GcIO}
  {held held' ready ready' : BlobIndex → BlobRecord → Prop} {i : BlobIndex}
  {r : BlobRecord}

-- ==== the records of the inputs

theorem mem_recordsOf {n : UInt64} :
    (i, r) ∈ db.recordsOf n ↔ i.fileNumber = n ∧ db.record i = some r := by
  unfold Db.recordsOf Db.record
  cases hf : db.disk.lookup n with
  | none =>
    refine ⟨(fun h => nomatch h), fun ⟨hn, hr⟩ => ?_⟩
    rw [hn, hf] at hr
    cases hr
  | some file =>
    rw [mem_map]
    constructor
    · intro ⟨p, hp, he⟩
      cases he
      refine ⟨rfl, ?_⟩
      rw [hf]
      exact BlobFile.find_of_mem hp
    · intro ⟨hn, hr⟩
      subst hn
      rw [hf] at hr
      exact ⟨(i.blobHandle, r), BlobFile.mem_of_find hr, rfl⟩

/-- The LSM tree has the blob index `i` for the key. -/
def Db.Points (cfg : Config) (db : Db) (key : UserKey) (i : BlobIndex) :
    Prop :=
  ∃ entry, db.lsm.lookup key = some entry ∧ entry.blobIndex cfg.coding = some i

/-- `DiscardEntry` keeps a record the LSM tree points at. -/
theorem discardEntry_of_points {key : UserKey} (h : db.Points cfg key i) :
    db.discardEntry cfg key i = .ok false := by
  obtain ⟨entry, hentry, hi⟩ := h
  obtain ⟨hb, rest, hd⟩ := LsmEntry.blobIndex_eq_some_iff.1 hi
  unfold Db.discardEntry
  rw [hentry]
  dsimp only
  rw [if_neg (by simp [hb]), hd]
  simp

-- ==== from stage to stage

/-- The job may still write to its output files. -/
def GcStage.hides : GcStage → Bool
  | .run | .add .. | .write .. | .install => true
  | _ => false

/-- The batch points the key of a record that is held at a copy. -/
def RewriteBatch.Relocates (cfg : Config)
    (held ready : BlobIndex → BlobRecord → Prop) (rb : RewriteBatch) : Prop :=
  ∃ i new r, rb = Filing.copyBatch cfg i new r ∧ held i r ∧ ready new r

/-- What the job is about to do. -/
def GcStage.Ok (cfg : Config) (held ready : BlobIndex → BlobRecord → Prop) : GcStage → Prop
  | .add i r => held i r
  | .write i r batch => held i r ∧ (batch = [] ∨ ∃ new,
      batch = [(r.key, LsmEntry.ofIndex cfg.coding new)] ∧ ready new r)
  | .rewrite rest => ∀ rb ∈ rest, rb.Relocates cfg held ready
  | _ => True

structure JobOk (cfg : Config) (db : Db)
    (held ready : BlobIndex → BlobRecord → Prop) (job : GcJob) : Prop where
  todo : ∀ p ∈ job.todo, held p.1 p.2
  stage : job.stage.Ok cfg held ready
  /-- the copies are in the output files -/
  batches : job.stage.hides = true → ∀ rb ∈ job.rewriteBatches,
    rb.Relocates cfg held fun new r =>
      db.record new = some r ∧ new.fileNumber ∈ job.outputs

theorem RewriteBatch.Relocates.mono {rb : RewriteBatch}
    (h : rb.Relocates cfg held ready) (hheld : ∀ {i r}, held i r → held' i r)
    (hready : ∀ {i r}, ready i r → ready' i r) : rb.Relocates cfg held' ready' := by
  obtain ⟨i, new, r, rfl, hi, hnew⟩ := h
  exact ⟨i, new, r, rfl, hheld hi, hready hnew⟩

/-- The records are where they were. -/
theorem JobOk.mono (h : JobOk cfg db held ready job) (hheld : ∀ {i r}, held i r → held' i r)
    (hready : ∀ {i r}, ready i r → ready' i r)
    (hrecord : job.stage.hides = true → ∀ {i r}, i.fileNumber ∈ job.outputs → db.record i = some r →
      db'.record i = some r) :
    JobOk cfg db' held' ready' job where
  todo p hp := hheld (h.todo p hp)
  stage := by
    have hstage := h.stage
    cases hs : job.stage with
    | add i r =>
      rw [hs] at hstage
      exact hheld hstage
    | write i r batch =>
      rw [hs] at hstage
      obtain ⟨hi, hbatch⟩ := hstage
      refine ⟨hheld hi, hbatch.imp_right fun hnew => ?_⟩
      obtain ⟨new, hb, hn⟩ := hnew
      exact ⟨new, hb, hready hn⟩
    | rewrite rest =>
      rw [hs] at hstage
      exact fun rb hrb => (hstage rb hrb).mono hheld hready
    | run | install | deleteInputs | release | done => trivial
  batches hhides rb hrb := (h.batches hhides rb hrb).mono hheld
    fun hnew => ⟨hrecord hhides hnew.2 hnew.1, hnew.2⟩

/-- A step of the job keeps all records, unless it cleans up. -/
theorem JobStep.record_kept (hstep : JobStep cfg db job io job' db₁)
    (hio : job.stage = .install → (Status.firstFailure io.install.finish job.outputs).isOk = true)
    (hr : db.record i = some r) : db₁.record i = some r := by
  cases hstep.effect with
  | same | writes | deletes => exact hr
  | grows hext => exact hext.record hr
  | cleans hinstall hfailed =>
    rw [hio hinstall] at hfailed
    cases hfailed

/-- A job that has just been picked. -/
theorem JobOk.picked {inputs : List UInt64} {todo : List (BlobIndex × BlobRecord)}
    (htodo : todo.Perm (inputs.flatMap db.recordsOf))
    (hheld : ∀ {i r}, i.fileNumber ∈ inputs → db.record i = some r →
      held i r) : JobOk cfg db held ready { inputs, todo } := by
  refine ⟨?_, trivial, fun _ _ hrb => nomatch hrb⟩
  intro p hp
  obtain ⟨n, hn, hp⟩ := mem_flatMap.1 (htodo.mem_iff.1 hp)
  obtain ⟨rfl, hr⟩ := mem_recordsOf.1 hp
  exact hheld hn hr

/-- A job at rest: its batches no longer matter. -/
private theorem JobOk.atRest (htodo : ∀ p ∈ job.todo, held p.1 p.2)
    (hstage : job.stage = .release ∨ job.stage = .deleteInputs
      ∨ job.stage = .done) : JobOk cfg db held ready job := by
  refine ⟨htodo, ?_, fun hhides => ?_⟩
  · rcases hstage with hs | hs | hs <;> rw [hs] <;> trivial
  · rcases hstage with hs | hs | hs <;> rw [hs] at hhides <;> cases hhides

/-- A step of the job, no output builder failing. -/
theorem JobOk.step (h : JobOk cfg db held ready job) (hstep : JobStep cfg db job io job' db₁)
    (hio : job.stage = .install → (Status.firstFailure io.install.finish job.outputs).isOk = true)
    (hheld : ∀ {i r}, held i r → held' i r) (hready : ∀ {i r}, ready i r → ready' i r)
    (hadded : ∀ {i r}, db₁.record i = some r → db₁.building cfg i.fileNumber = true → ready' i r)
    (hinstalled : job.stage = .install → ∀ {i r},
      i.fileNumber ∈ job.outputs → db₁.record i = some r →
      db₁.live cfg i.fileNumber = true → ready' i r) :
    JobOk cfg db₁ held' ready' job' := by
  have h₁ : JobOk cfg db₁ held' ready' job :=
    h.mono hheld hready fun _ _ _ _ => hstep.record_kept hio
  cases hstep with
  | ended stage hrun _ hstage =>
    rcases hstage with rfl | ⟨-, rfl⟩ | ⟨-, rfl⟩
    · exact .atRest h₁.todo (.inl rfl)
    · exact .atRest h₁.todo (.inr (.inl rfl))
    · exact ⟨h₁.todo, trivial, fun _ => h₁.batches (by rw [hrun]; rfl)⟩
  | stopped s => exact .atRest h₁.todo (.inl rfl)
  | stoppedAfter s i r todo hrun htodo =>
    refine .atRest (fun p hp => h₁.todo p ?_) (.inl rfl)
    exact htodo ▸ mem_cons_of_mem _ hp
  | discarded i r todo hrun htodo =>
    refine ⟨fun p hp => h₁.todo p (htodo ▸ mem_cons_of_mem _ hp), ?_, h₁.batches⟩
    exact h₁.stage
  | live i r todo hrun _ htodo =>
    refine ⟨fun p hp => h₁.todo p (htodo ▸ mem_cons_of_mem _ hp), ?_,
      fun _ => h₁.batches (by rw [hrun]; rfl)⟩
    exact h₁.todo (i, r) (htodo ▸ mem_cons_self)
  | copied i r todo outputs fileSize new hrun _ htodo _ _ hnew hout hmore =>
    refine ⟨fun p hp => h₁.todo p (htodo ▸ mem_cons_of_mem _ hp), h₁.stage, ?_⟩
    intro hhides rb hrb
    rcases mem_append.1 hrb with hrb | hrb
    · exact (h₁.batches hhides rb hrb).mono (fun h => h) fun h => ⟨h.1, hmore h.2⟩
    · rw [mem_singleton] at hrb
      exact ⟨i, new, r, hrb, h₁.todo (i, r) (htodo ▸ mem_cons_self), hnew, hout⟩
  | added i r batch hadd _ hcopy =>
    have hi : held' i r := by
      have hstage := h₁.stage
      rw [hadd] at hstage
      exact hstage
    refine ⟨h₁.todo, ⟨hi, ?_⟩, fun _ => h₁.batches (by rw [hadd]; rfl)⟩
    rcases hcopy with ⟨hb, -⟩ | ⟨new, hb, hrec, hbuild⟩
    · exact .inl hb
    · exact .inr ⟨new, hb, hadded hrec hbuild⟩
  | notAdded i r hadd =>
    exact ⟨h₁.todo, trivial, fun _ => h₁.batches (by rw [hadd]; rfl)⟩
  | written i r batch hwrite | notWritten i r batch hwrite =>
    exact ⟨h₁.todo, trivial, fun _ => h₁.batches (by rw [hwrite]; rfl)⟩
  | installed hinstall _ _ hlive =>
    refine ⟨h₁.todo, ?_, fun hhides => nomatch hhides⟩
    intro rb hrb
    exact (h₁.batches (by rw [hinstall]; rfl) rb hrb).mono (fun h => h)
      fun h => hinstalled hinstall h.2 h.1 (hlive _ h.2)
  | notInstalled _ _ hinstall hfailed =>
    rw [hio hinstall] at hfailed
    cases hfailed
  | rewritesEnded => exact .atRest h₁.todo (.inr (.inl rfl))
  | rewritten rb rest hrewrite =>
    refine ⟨h₁.todo, ?_, fun hhides => nomatch hhides⟩
    have hstage := h₁.stage
    rw [hrewrite] at hstage
    exact fun x hx => hstage x (mem_cons_of_mem _ hx)
  | notRewritten rb rest stage hrewrite _ hstage =>
    rcases hstage with rfl | ⟨-, rfl⟩
    · exact .atRest h₁.todo (.inl rfl)
    · refine ⟨h₁.todo, ?_, fun hhides => nomatch hhides⟩
      have hstage := h₁.stage
      rw [hrewrite] at hstage
      exact fun x hx => hstage x (mem_cons_of_mem _ hx)
  | dropped | deleted => exact .atRest h₁.todo (.inl rfl)
  | released => exact .atRest h₁.todo (.inr (.inr rfl))

end DiffKV
