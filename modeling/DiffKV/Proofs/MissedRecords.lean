/-
Records a job misses on its way through the `ForegroundBuilder`.

A failure of `Add` is printed and forgotten. A failed write is kept in
the status until the next record is looked up, so only that of the last
record reaches `Finish`. `Unmasked` follows a job whose failures are of
the second kind: it has missed nothing, or it has missed the last record
and its status says so.
-/
import DiffKV.Proofs.Open

namespace DiffKV

open Lib

variable {cfg : Config} {db db' db₁ : Db} {job job' : GcJob} {io : GcIO}

namespace GcJob

/-- The job's step does not forget a failure: a live record is added, and
its write succeeds or is the last. -/
def Remembers (cfg : Config) (job : GcJob) (io : GcIO) : Prop :=
  match job.stage with
  | .add _ r => cfg.separates r.value = true ∧ r.key.isEmpty = false ∧ io.created = true
  | .write .. => io.write.isOk = true ∨ job.todo = []
  | _ => True

instance (job : GcJob) (io : GcIO) : Decidable (job.Remembers cfg io) :=
  match h : job.stage with
  | .add _ r => decidable_of_iff (cfg.separates r.value = true
      ∧ r.key.isEmpty = false ∧ io.created = true) (by simp [Remembers, h])
  | .write .. => decidable_of_iff (io.write.isOk = true ∨ job.todo = []) (by simp [Remembers, h])
  | .run | .install | .rewrite _ | .deleteInputs | .release | .done =>
    isTrue (by simp [Remembers, h])

/-- A record the job has missed is the last one, and its status tells;
past its loop it has missed nothing or deletes nothing. -/
def Unmasked (job : GcJob) : Prop :=
  match job.stage with
  | .run => job.deleted = false ∧ (job.missed = [] ∨ (job.todo = [] ∧ job.status.isOk = false))
  | .add .. => job.deleted = false ∧ job.missed = []
  | .write _ _ batch => job.deleted = false ∧ job.missed = [] ∧ batch ≠ []
  | .deleteInputs => job.deleted = false ∧ job.missed = []
  | .install | .rewrite _ => False
  | .release | .done => job.deleted = true → job.missed = []

/-- A job that has deleted its inputs has missed nothing. -/
theorem Unmasked.missed (h : job.Unmasked) (hdeleted : job.deleted = true) : job.missed = [] := by
  unfold Unmasked at h
  split at h
  case h_1 => rw [hdeleted] at h; exact nomatch h.1
  case h_2 => exact h.2
  case h_3 => exact h.2.1
  case h_4 => exact h.2
  case h_5 => exact h.elim
  case h_6 => exact h.elim
  case h_7 => exact h hdeleted
  case h_8 => exact h hdeleted

theorem Unmasked.step (h : job.Unmasked) (hfg : cfg.foregroundGC = true)
    (hio : job.Remembers cfg io) (hstep : JobStep cfg db job io job' db₁) : job'.Unmasked := by
  have hmissed := h.missed
  unfold Unmasked at h
  cases hstep with
  | ended stage hrun _ hstage hok =>
    rw [hrun] at h
    rcases hstage with rfl | ⟨-, rfl⟩ | ⟨hfg', -⟩
    · exact hmissed
    · refine ⟨h.1, h.2.resolve_right fun hbad => ?_⟩
      rw [hok (by simp)] at hbad
      exact nomatch hbad.2
    · rw [hfg] at hfg'
      cases hfg'
  | stopped | stoppedAfter | released | dropped => exact hmissed
  | discarded i r todo hrun htodo =>
    rw [hrun, htodo] at h
    have hnone : job.missed = [] := h.2.resolve_right fun h => nomatch h.1
    rw [hrun]
    exact ⟨h.1, .inl hnone⟩
  | live i r todo hrun _ htodo =>
    rw [hrun, htodo] at h
    exact ⟨h.1, h.2.resolve_right fun h => nomatch h.1⟩
  | copied _ _ _ _ _ _ _ hfg' =>
    rw [hfg] at hfg'
    cases hfg'
  | added i r batch hadd _ hcopy =>
    rw [Remembers, hadd] at hio
    rw [hadd] at h
    refine ⟨h.1, h.2, ?_⟩
    rcases hcopy with ⟨-, hempty⟩ | ⟨new, rfl, -⟩
    · rw [hio.2.1] at hempty
      cases hempty
    · exact List.cons_ne_nil _ _
  | notAdded i r hadd _ hwhy =>
    rw [Remembers, hadd] at hio
    rw [hwhy hio.1] at hio
    exact nomatch hio.2.2
  | written i r batch hwrite =>
    rw [hwrite] at h
    exact ⟨h.1, .inl h.2.1⟩
  | notWritten i r batch hwrite hwhy =>
    rw [Remembers, hwrite] at hio
    rw [hwrite] at h
    have hfailed : io.write.isOk = false := by
      cases hok : io.write.isOk with
      | false => rfl
      | true => exact absurd (hwhy hok) h.2.2
    rw [hfailed] at hio
    exact ⟨h.1, .inr ⟨hio.resolve_left Bool.false_ne_true, hfailed⟩⟩
  | installed hstage | notInstalled _ _ hstage | rewritesEnded hstage
  | rewritten _ _ hstage | notRewritten _ _ _ hstage =>
    rw [hstage] at h
    exact h.elim
  | deleted hdelete =>
    rw [hdelete] at h
    exact fun _ => h.2

end GcJob

-- ==== runs

/-- The step forgets no failure. -/
def Db.Remembers (cfg : Config) (db : Db) : Action → Prop
  | .gcStep j io => ∀ job ∈ db.jobs[j]?, job.Remembers cfg io
  | _ => True

instance (db : Db) : (a : Action) → Decidable (db.Remembers cfg a)
  | .gcStep j io =>
    inferInstanceAs (Decidable (∀ job ∈ db.jobs[j]?, job.Remembers cfg io))
  | .putAdd .. | .putWrite _ | .delete _ | .flushShard _ | .flushCompleted _
  | .gcPick .. | .takeSnapshot | .releaseSnapshot _ | .purgeRead
  | .purgeApply _ => isTrue trivial

/-- The jobs of a database that relocates through the
`ForegroundBuilder`. -/
structure Relocating (cfg : Config) (db : Db) : Prop where
  filed : Filed cfg db
  unmasked : ∀ job ∈ db.jobs, job.Unmasked

theorem Relocating.step {a : Action} (h : Relocating cfg db)
    (hfg : cfg.foregroundGC = true) (hio : db.Remembers cfg a)
    (hstep : db.step cfg a = some db') : Relocating cfg db' := by
  refine ⟨h.filed.step hstep, ?_⟩
  have hunmasked := h.unmasked
  cases h.filed.dbStep hstep with
  | gcPick hext =>
    intro job hjob
    rcases List.mem_append.1 hjob with hjob | hjob
    · exact hunmasked job hjob
    · rw [List.mem_singleton] at hjob
      subst hjob
      exact ⟨rfl, .inl rfl⟩
  | gcStep job job' hj hjob =>
    intro job₁ hjob₁
    rcases List.mem_or_eq_of_mem_set hjob₁ with hjob₁ | rfl
    · exact hunmasked job₁ hjob₁
    · exact (hunmasked job (List.mem_of_getElem? hj)).step hfg (hio job hj) hjob
  | putAdd _ hext =>
    intro job hjob
    rw [hext.jobs] at hjob
    exact hunmasked job hjob
  | flushShard hext | flushCompleted hext =>
    rw [hext.jobs]
    exact hunmasked
  | putWrite | delete | takeSnapshot | releaseSnapshot | purgeRead
  | purgeApply => exact hunmasked

/-- With `sep_before_flush` and without `level_merge`: in every run that
forgets no failure, a job that has deleted its inputs has pointed the key
of every record it found live at the copy. -/
theorem foreground_gc_misses_nothing {as : List Action}
    (hfg : cfg.foregroundGC = true) (hfiled : Filed cfg db) (hjobs : db.jobs = [])
    (hmeets : Meets (Db.step cfg) (Db.Remembers cfg) db as) (hexec : db.exec cfg as = some db') :
    ∀ job ∈ db'.jobs, job.deleted = true → job.missed = [] := by
  have hstart : Relocating cfg db := by
    refine ⟨hfiled, ?_⟩
    rw [hjobs]
    exact fun _ h => nomatch h
  have hend := exec_keeps (I := Relocating cfg)
    (fun h hc hs => h.step hfg hc hs) hstart hmeets hexec
  exact fun job hjob => (hend.unmasked job hjob).missed

/-- Two keys, their file, and a job that has found the first record
live. -/
def pickTwo : List Action :=
  [.putAdd (.byte 1) [7] true, .putWrite 0, .putAdd (.byte 2) [8] true, .putWrite 0, .flushShard 0,
    .gcPick [2] [(.first 2, { key := .byte 1, value := [7] }),
      ({ fileNumber := 2, blobHandle := { offset := 11, size := 3 } },
        { key := .byte 2, value := [8] })],
    .gcStep 0 {}]

/-- Both records are relocated and the input is deleted. -/
def collectTwo : List Action := pickTwo ++ List.replicate 7 (.gcStep 0 {})

theorem collectTwo_misses_nothing :
    ∃ db, (Db.create .small).exec .small collectTwo = some db
      ∧ (∃ job ∈ db.jobs, job.deleted = true)
      ∧ ∀ job ∈ db.jobs, job.deleted = true → job.missed = [] := by
  obtain ⟨db, hdb, hdeleted⟩ : ∃ db ∈ (Db.create .small).exec .small
      collectTwo, ∃ job ∈ db.jobs, job.deleted = true := by decide +kernel
  exact ⟨db, hdb, hdeleted, foreground_gc_misses_nothing rfl
    (filed_create .small) rfl (by decide +kernel) hdb⟩

/-- `Add` fails for the first record, or its write does; the second goes
well. -/
def collectFailing : List (List Action) :=
  [pickTwo ++ .gcStep 0 { created := false } :: List.replicate 5 (.gcStep 0 {}),
    pickTwo ++ .gcStep 0 {} :: .gcStep 0 { write := .ioError "" }
      :: List.replicate 5 (.gcStep 0 {})]

/-- In either case the job ends with OK and its input is deleted; once
the file is purged, the first key cannot be read. -/
theorem collectFailing_lost :
    (collectFailing.all fun as => ((Db.create .small).exec .small as).any
        fun db => decide (∃ job ∈ db.jobs, job.deleted = true
          ∧ job.missed = [.first 2] ∧ job.status = .ok)) = true
      ∧ (collectFailing.all fun as => ((Db.create .small).exec .small
          (as ++ [.purgeRead, .purgeApply 0])).any fun db =>
            decide (db.getImpl .small (.byte 1)
              = .error (.corruption "File 2 not exist"))) = true := by
  decide +kernel

end DiffKV
