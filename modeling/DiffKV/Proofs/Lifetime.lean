/-
`Close` uses the base DB in its first step, so it is safe once: after a
successful `Open`, and before any other `Close`.
-/
import DiffKV.Lifetime

namespace DiffKV

namespace TitanDBParts

variable {p : TitanDBParts}

/-- Every part is there, and no thread has been joined. -/
structure Complete (p : TitanDBParts) : Prop where
  blobFileSet : p.blobFileSet = true
  db : p.db = true
  dbImpl : p.dbImpl = .object
  builders : ∀ b ∈ p.builders, b.joinable.all id = true

/-- What `Open` leaves: all parts, or no base DB. -/
theorem open_cases {options : LifetimeOptions} {calls : OpenCalls}
    {s : Status} (h : TitanDBParts.open options calls = (s, p)) :
    (s.isOk = true ∧ p.Complete) ∨ s.isOk = false ∧ p.dbImpl = .indeterminate := by
  have hthreads : (initBuilder options).joinable.all id = true := by
    simp [initBuilder]
  unfold TitanDBParts.open at h
  repeat' split at h
  all_goals
    cases h
    first
    | exact .inr ⟨by simp_all, rfl⟩
    | exact .inl ⟨by simp_all, rfl, rfl, rfl, by simp_all⟩

theorem mapM_finishBuilder {bs : List BuilderThreads} (h : ∀ b ∈ bs, b.joinable.all id = true) :
    ∃ bs', bs.mapM finishBuilder = .ok bs' := by
  induction bs with
  | nil => exact ⟨[], rfl⟩
  | cons b bs ih =>
    obtain ⟨hb, hbs⟩ := List.forall_mem_cons.1 h
    obtain ⟨bs', hbs'⟩ := ih hbs
    refine ⟨{ joinable := b.joinable.map fun _ => false } :: bs', ?_⟩
    rw [List.mapM_cons, hbs', finishBuilder, if_pos hb]
    rfl

/-- The first `Close` of a complete object deletes the base DB. -/
theorem Complete.close (h : p.Complete) : ∃ p', p.close = .ok p' ∧ p'.dbImpl = .null := by
  obtain ⟨builders, hbuilders⟩ := mapM_finishBuilder h.builders
  have hpurge : p.purgeObsoleteFiles = .ok () := by
    simp [purgeObsoleteFiles, h.dbImpl, h.blobFileSet]
  refine ⟨{ p.closeImpl with
    db := false, dbImpl := .null, builders, lock := false }, ?_, rfl⟩
  simp [TitanDBParts.close, hpurge, closeImpl, h.db, hbuilders, bind,
    Except.bind, pure, Except.pure]

/-- Without a base DB `Close` goes wrong in its first step. -/
theorem close_of_no_dbImpl (h : p.dbImpl ≠ .object) : p.close = .error (.dbImpl p.dbImpl) := by
  unfold close purgeObsoleteFiles
  rw [if_pos h]
  rfl

/-- **`Close` and the destructor.** An object is opened, closed and
destroyed without a use of a part that is not there exactly if `Open`
succeeds and the destructor's `Close` is the only one. -/
theorem lifetime_safe_iff (options : LifetimeOptions) (calls : OpenCalls) (closes : Nat) :
    (∃ p, lifetime options calls closes = .ok p)
      ↔ (TitanDBParts.open options calls).1.isOk = true ∧ closes = 0 := by
  unfold lifetime
  cases hopen : TitanDBParts.open options calls with
  | mk s p =>
  obtain ⟨hok, hcomplete⟩ | ⟨hfailed, hnone⟩ := open_cases hopen
  · have hstarted : (p.startBackgroundTasks options).Complete :=
      ⟨hcomplete.1, hcomplete.2, hcomplete.3, hcomplete.4⟩
    obtain ⟨p', hclose, hnull⟩ := hstarted.close
    simp only [hok, if_true, true_and, closeTimes, hclose, Except.bind]
    cases closes with
    | zero => simp [closeTimes]
    | succ n =>
      have hagain : p'.close = _ := close_of_no_dbImpl (by simp [hnull])
      simp [closeTimes, hagain, Except.bind]
  · have hclose : p.close = _ := close_of_no_dbImpl (by simp [hnone])
    simp [hfailed, hclose]

/-- The directory of the DB cannot be made: the destructor reads the
pointer that was never set. After a `Close` it reads a null pointer. -/
theorem destructor_without_dbImpl :
    lifetime {} { createDbDir := .ioError "" } 0 = .error (.dbImpl .indeterminate)
      ∧ lifetime {} {} 1 = .error (.dbImpl .null) :=
  ⟨rfl, rfl⟩

end TitanDBParts

end DiffKV
