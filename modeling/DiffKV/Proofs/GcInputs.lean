/-
What GC jobs hold.

`Apart` is what keeps jobs from each other's files: the files of two jobs
that have not let go are apart, and a file that is held is neither
normal, so that no pick takes it, nor waiting for a flush. A step keeps
this as long as the files it brings in are not held already and no
compaction completes a file that is held.

Two results rest on it. Without purges the files of a job stay in the
storage, so nothing that comes in can be held, and two jobs never share
an input. With purges an input stays in the storage as long as it is not
obsolete, and the one step that makes an input of an unfinished job
obsolete is a range deletion.
-/
import DiffKV.Proofs.FileStates

namespace DiffKV

open Lib List BlobFileMeta Option BlobFileSet BlobStorage

variable {io : ManifestIO} {e : FileEvent} {f : FileState} {st : BlobStorage}

-- ==== one edit

namespace BlobFileSet

variable {C : Coding}

/-- An edit whose call returned OK has been applied. -/
theorem edited_of_isOk {fs : BlobFileSet} {e : VersionEdit}
    (hok : (fs.logAndApply C e io).1.isOk = true)
    (hst : fs.columnFamilies.lookup e.columnFamilyId = some st) :
    ∃ st', (fs.logAndApply C e io).2.columnFamilies.lookup e.columnFamilyId = some st'
      ∧ e.Nodup ∧ st.Edited e st' := by
  obtain ⟨hadm, rfl⟩ := logAndApply_isOk_iff.1 hok
  obtain ⟨-, storages, heq, hlookup⟩ := logAndApply_applied (C := C) hadm
  refine ⟨(e.batch.apply st).2, ?_, hadm.nodup,
    VersionEdit.edited_apply hadm.nodup (hadm.fits st hst)⟩
  rw [heq, show storages.lookup _ = _ from hlookup _, if_pos rfl, hst]
  rfl

/-- A call leaves a storage as it was, or has applied the edit to it. -/
theorem logAndApply_cases (fs : BlobFileSet) (e : VersionEdit) (io : ManifestIO) (i : UInt32) :
    (fs.logAndApply C e io).2.columnFamilies.lookup i = fs.columnFamilies.lookup i
      ∨ i = e.columnFamilyId ∧ fs.admits e = true ∧ io = .ok ∧ ∃ st st',
        fs.columnFamilies.lookup i = some st
          ∧ (fs.logAndApply C e io).2.columnFamilies.lookup i = some st'
          ∧ e.Nodup ∧ st.Edited e st' := by
  rcases lookup_logAndApply_cases fs e io i with
    heq | ⟨st, rfl, hadm, rfl, hst, heq⟩
  · exact .inl heq
  · exact .inr ⟨rfl, (admits_iff fs e).2 hadm, rfl, st, _, hst, heq,
      hadm.nodup, VersionEdit.edited_apply hadm.nodup (hadm.fits st hst)⟩

end BlobFileSet

namespace BlobStorage

/-- A file that an edit adds and does not delete. -/
theorem Edited.stateOf_added {st' : BlobStorage} {e : VersionEdit}
    (h : st.Edited e st') (hdeleted : e.deletedFiles = []) {m : BlobFileMeta}
    (hm : m ∈ e.addedFiles) :
    st.stateOf m.fileNumber = none ∧ st'.stateOf m.fileNumber = some m.state := by
  have hmem : m ∈ e.unpairedAdded := by
    refine mem_filter.2 ⟨hm, ?_⟩
    rw [hdeleted]
    rfl
  obtain ⟨hnone, hsome⟩ := h.added m hmem
  obtain ⟨m', hm', heq⟩ := map_eq_some_iff.1 hsome
  unfold stateOf
  rw [hnone, hm']
  have hstate := congrArg state heq
  exact ⟨rfl, congrArg some hstate⟩

theorem stateOf_markFilesBeingGC (st : BlobStorage) (ns : List UInt64)
    {n : UInt64} (hn : n ∈ ns) (hthere : st.stateOf n ≠ none) :
    (st.markFilesBeingGC ns).stateOf n = some .kBeingGC := by
  -- once marked, a file stays so, however often it is marked again
  have hmarked : ∀ (ns : List UInt64) (st : BlobStorage), st.stateOf n = some .kBeingGC →
      (st.markFilesBeingGC ns).stateOf n = some .kBeingGC := by
    intro ns
    induction ns with
    | nil => exact fun st h => h
    | cons k ns ih =>
      intro st h
      refine ih _ ?_
      rw [stateOf_transit, h]
      split <;> rfl
  induction ns generalizing st with
  | nil => cases hn
  | cons k ns ih =>
    by_cases hk : n = k
    · refine hmarked ns _ ?_
      obtain ⟨f, hf⟩ := ne_none_iff_exists'.1 hthere
      rw [stateOf_transit, if_pos hk, hf]
      rfl
    · refine ih _ ((mem_cons.1 hn).resolve_left hk) ?_
      rw [stateOf_transit, if_neg hk]
      exact hthere

end BlobStorage

theorem BlobGC.installEdit_eq (gc : BlobGC) (files : List BlobFileMeta) :
    gc.installEdit files = {
      columnFamilyId := gc.cfId
      addedFiles := files.map (·.fileStateTransit .kGCOutput) } := by
  unfold BlobGC.installEdit
  rw [foldl_addBlobFile]
  rfl

-- ==== jobs

/-- A file that does not wait for a flush is not made normal when one
completes, nor by the marks for a merge or a GC. -/
theorem FileState.next_held (hf : f ≠ .kNormal ∧ f ≠ .kPendingLSM)
    (he : e = .kFlushCompleted ∨ e = .kNeedGC ∨ e = .kNeedMerge) :
    f.next e ≠ .kNormal ∧ f.next e ≠ .kPendingLSM := by
  rcases he with rfl | rfl | rfl
  all_goals cases f <;> simp_all [FileState.next]

/-- The marks make no file normal. -/
theorem FileState.next_marked (hf : f ≠ .kNormal)
    (he : e = .kNeedGC ∨ e = .kNeedMerge) : f.next e ≠ .kNormal := by
  rcases he with rfl | rfl
  all_goals cases f <;> simp_all [FileState.next]

/-- Only a deletion makes a file obsolete. -/
theorem FileState.next_live (hf : f ≠ .kObsolete) (he : e ≠ .kDelete) : f.next e ≠ .kObsolete := by
  cases e
  all_goals cases f <;> simp_all [FileState.next]

namespace GcFiles

variable {C : Coding} {s s' : GcFiles} {a : Act} {i : UInt32} {n : UInt64} {j : Nat} {gc : BlobGC}

/-- The file `n` of column family `i` is a file of the `j`-th job, which
has not let go. -/
def HeldBy (s : GcFiles) (j : Nat) (i : UInt32) (n : UInt64) : Prop :=
  ∃ gc, s.gcs[j]? = some gc ∧ gc.released = false ∧ gc.cfId = i ∧ n ∈ gc.files

/-- What a step makes of the `BlobGC` objects. -/
inductive Jobs (s s' : GcFiles) : Act → Prop
  | same {a : Act} (ha : ∀ j deletion, a ≠ .finish j deletion) (hgcs : s'.gcs = s.gcs) : Jobs s s' a
  | picked {cfId : UInt32} {options : GcBatchOptions} {gc : BlobGC}
      (hcf : gc.cfId = cfId) (houtputs : gc.outputs = [])
      (hinputs : gc.inputs ≠ [])
      (hgcs : s'.gcs = s.gcs ++ [gc])
      (hnormal : ∀ n ∈ gc.inputs, s.stateOf cfId n = some .kNormal)
      (hbegun : ∀ n ∈ gc.inputs, s'.stateOf cfId n = some .kBeingGC) :
      Jobs s s' (.pick cfId options)
  | installed {j : Nat} {files : List BlobFileMeta} {io : ManifestIO}
      {gc : BlobGC} (hj : s.gcs[j]? = some gc) (hheld : gc.released = false)
      (hgcs : s'.gcs = s.gcs.set j { gc with
        outputs := gc.outputs ++ files.map BlobFileMeta.fileNumber })
      (hnew : (s.fileSet.columnFamilies.lookup gc.cfId).isSome →
        ∀ n ∈ files.map BlobFileMeta.fileNumber,
          s.stateOf gc.cfId n = none ∧ s'.stateOf gc.cfId n = some .kPendingGC) :
      Jobs s s' (.installOutputs j files io)
  | finished {j : Nat} {deletion : Option (SequenceNumber × ManifestIO)}
      {gc : BlobGC} (hj : s.gcs[j]? = some gc) (hheld : gc.released = false)
      (hgcs : s'.gcs = s.gcs.set j { gc with released := true }) :
      Jobs s s' (.finish j deletion)

theorem jobs_pick {cfId : UInt32} {options : GcBatchOptions} (h : s.pick cfId options = some s') :
    Jobs s s' (.pick cfId options) := by
  rcases pick_cases h with rfl | ⟨st, files, triggerNext, hst, hpick, rfl⟩
  · exact .same (fun _ _ h => nomatch h) rfl
  · have hnormal : ∀ n ∈ files.map fileNumber, st.stateOf n = some .kNormal := fun n hn =>
      mem_pickBlobGC hpick hn
    refine .picked rfl rfl ?_ rfl ?_ ?_
    · exact pickBlobGC_ne_nil hpick
    · intro n hn
      rw [stateOf_of_lookup hst]
      exact hnormal n hn
    · intro n hn
      unfold stateOf
      rw [lookup_onStorage, if_pos rfl, hst]
      refine stateOf_markFilesBeingGC st _ hn ?_
      rw [hnormal n hn]
      exact nofun

theorem jobs_installOutputs {files : List BlobFileMeta}
    (hj : s.gcs[j]? = some gc) (hheld : gc.released = false) :
    Jobs s (s.installOutputs C j gc files io) (.installOutputs j files io) := by
  cases hok : (s.fileSet.logAndApply C (gc.installEdit files) io).1.isOk with
  | false =>
    refine .same (fun _ _ h => nomatch h) ?_
    unfold installOutputs
    simp [hok]
  | true =>
    refine .installed hj hheld ?_ ?_
    · unfold installOutputs
      simp [hok]
    · intro hsome n hn
      obtain ⟨st, hst⟩ := isSome_iff_exists.1 hsome
      have hcf : (gc.installEdit files).columnFamilyId = gc.cfId := by
        rw [BlobGC.installEdit_eq]
      obtain ⟨st', hst', -, hedited⟩ := edited_of_isOk hok (hcf.symm ▸ hst)
      obtain ⟨m, hm, rfl⟩ := mem_map.1 hn
      have hadded : m.fileStateTransit .kGCOutput ∈ (gc.installEdit files).addedFiles := by
        rw [BlobGC.installEdit_eq]
        exact mem_map_of_mem hm
      have hstates := hedited.stateOf_added (by rw [BlobGC.installEdit_eq]) hadded
      rw [stateOf_of_lookup hst,
        stateOf_of_lookup (s := s.installOutputs C j gc files io) (hcf ▸ hst')]
      exact hstates

theorem jobs (h : s.step C a = some s') : Jobs s s' a := by
  cases a with
  | fileSet op =>
    obtain ⟨fs', -, rfl⟩ := map_eq_some_iff.1 h
    exact .same (fun _ _ h => nomatch h) rfl
  | pick cfId options => exact jobs_pick h
  | installOutputs j files io =>
    obtain ⟨gc, hj, hheld, rfl⟩ := step_installOutputs h
    exact jobs_installOutputs hj hheld
  | finish j deletion =>
    obtain ⟨gc, hj, hheld, rfl⟩ := step_finish h
    exact .finished hj hheld rfl
  | computeGCScore cfId =>
    cases h
    exact .same (fun _ _ h => nomatch h) rfl
  | flushCompleted info =>
    cases h
    exact .same (fun _ _ h => nomatch h) rfl
  | compactionCompleted env info =>
    cases h
    exact .same (fun _ _ h => nomatch h) rfl
  | settleRanges env cfId sizes =>
    cases h
    exact .same (fun _ _ h => nomatch h) rfl

/-- The job a step gives files to. -/
def taker (s : GcFiles) : Act → Nat
  | .installOutputs j .. => j
  | _ => s.gcs.length

/-- Where a job after a step comes from: from a job before, which may
have got new outputs, or from a pick. -/
inductive Origin (s s' : GcFiles) (a : Act) (j : Nat) (gc : BlobGC) : Prop
  | job {gc₀ : BlobGC} (hj : s.gcs[j]? = some gc₀)
      (hheld : gc₀.released = false) (hcf : gc₀.cfId = gc.cfId)
      (hinputs : gc₀.inputs = gc.inputs)
      (houtputs : ∀ n ∈ gc.outputs, n ∈ gc₀.outputs ∨ j = s.taker a
        ∧ ((s.fileSet.columnFamilies.lookup gc.cfId).isSome →
          s.stateOf gc.cfId n = none ∧ s'.stateOf gc.cfId n = some .kPendingGC))
      (hother : ∀ deletion, a ≠ .finish j deletion) : Origin s s' a j gc
  | pick (hj : j = s.taker a) (houtputs : gc.outputs = []) (hfilled : gc.inputs ≠ [])
      (hnormal : ∀ n ∈ gc.inputs, s.stateOf gc.cfId n = some .kNormal)
      (hbegun : ∀ n ∈ gc.inputs, s'.stateOf gc.cfId n = some .kBeingGC) :
      Origin s s' a j gc

theorem origin (hstep : s.step C a = some s') (hgc : s'.gcs[j]? = some gc)
    (hheld : gc.released = false) : Origin s s' a j gc := by
  cases jobs hstep with
  | same ha hgcs =>
    rw [hgcs] at hgc
    exact .job hgc hheld rfl rfl (fun _ h => .inl h) (ha j)
  | @picked _ _ new hcf houtputs hinputs hgcs hnormal hbegun =>
    rw [hgcs] at hgc
    by_cases hj : j < s.gcs.length
    · rw [getElem?_append_left hj] at hgc
      exact .job hgc hheld rfl rfl (fun _ h => .inl h) fun _ h => nomatch h
    · rw [getElem?_append_right (Nat.le_of_not_lt hj)] at hgc
      have hj : j = s.gcs.length := by
        have hlt := (List.getElem?_eq_some_iff.1 hgc).1
        rw [length_singleton] at hlt
        omega
      rw [hj, Nat.sub_self] at hgc
      cases hgc
      subst hcf
      exact .pick hj houtputs hinputs hnormal hbegun
  | @installed k _ _ old hk hold hgcs hnew =>
    rw [hgcs] at hgc
    by_cases hj : k = j
    case neg =>
      rw [getElem?_set_ne hj] at hgc
      exact .job hgc hheld rfl rfl (fun _ h => .inl h) fun _ h => nomatch h
    case pos =>
      subst hj
      rw [List.getElem?_set_self (List.getElem?_eq_some_iff.1 hk).1] at hgc
      cases hgc
      refine .job hk hold rfl rfl ?_ fun _ h => nomatch h
      intro n hn
      exact (mem_append.1 hn).imp_right fun hn =>
        ⟨rfl, fun hopen => hnew hopen n hn⟩
  | @finished k _ old hk hold hgcs =>
    rw [hgcs] at hgc
    by_cases hj : k = j
    case pos =>
      subst hj
      rw [List.getElem?_set_self (List.getElem?_eq_some_iff.1 hk).1] at hgc
      cases hgc
      cases hheld
    case neg =>
      rw [getElem?_set_ne hj] at hgc
      refine .job hgc hheld rfl rfl (fun _ h => .inl h) ?_
      rintro _ ⟨⟩
      exact hj rfl

/-- Each job that has not let go has an input. -/
def Filled (s : GcFiles) : Prop :=
  ∀ (j : Nat) (gc : BlobGC), s.gcs[j]? = some gc → gc.released = false → gc.inputs ≠ []

theorem Filled.step (h : s.Filled) (hstep : s.step C a = some s') : s'.Filled := by
  intro j gc hgc hheld
  cases origin hstep hgc hheld with
  | job hj hheld hcf hinputs => exact hinputs ▸ h j _ hj hheld
  | pick _ _ hfilled => exact hfilled

/-- The storages of the jobs that have not let go are there. -/
def Open (s : GcFiles) : Prop :=
  ∀ (j : Nat) (gc : BlobGC), s.gcs[j]? = some gc → gc.released = false →
    (s.fileSet.columnFamilies.lookup gc.cfId).isSome

/-- A job that holds a file after a step has held it before and is not
the one that finishes, or it has just been given the file. -/
theorem heldBy_step (hstep : s.step C a = some s') (hopen : s.Open) (h : s'.HeldBy j i n) :
    (s.HeldBy j i n ∧ ∀ deletion, a ≠ .finish j deletion)
    ∨ (j = s.taker a ∧ (s.stateOf i n = some .kNormal ∨ s.stateOf i n = none)
      ∧ (s'.stateOf i n = some .kBeingGC ∨ s'.stateOf i n = some .kPendingGC)) := by
  obtain ⟨gc, hgc, hheld, rfl, hn⟩ := h
  cases origin hstep hgc hheld with
  | job hj hheld hcf hinputs houtputs hother =>
    rcases mem_append.1 hn with hn | hn
    · exact .inl ⟨⟨_, hj, hheld, hcf, mem_append_left _ (hinputs ▸ hn)⟩, hother⟩
    · rcases houtputs n hn with hn | ⟨htaker, hnew⟩
      · exact .inl ⟨⟨_, hj, hheld, hcf, mem_append_right _ hn⟩, hother⟩
      · obtain ⟨hnone, hpending⟩ := hnew (hcf ▸ hopen j _ hj hheld)
        exact .inr ⟨htaker, .inr hnone, .inr hpending⟩
  | pick hj houtputs _ hnormal hbegun =>
    have hmem : n ∈ gc.inputs := by
      simpa [BlobGC.files, houtputs] using hn
    exact .inr ⟨hj, .inl (hnormal n hmem), .inl (hbegun n hmem)⟩

-- ==== apart

/-- No file has two jobs that hold it, and a file that is held is neither
normal nor waiting for a flush. -/
structure Apart (s : GcFiles) : Prop where
  unique : ∀ {j k : Nat} {i : UInt32} {n : UInt64}, s.HeldBy j i n → s.HeldBy k i n → j = k
  state : ∀ {j : Nat} {i : UInt32} {n : UInt64} {f : FileState},
    s.HeldBy j i n → s.stateOf i n = some f → f ≠ .kNormal ∧ f ≠ .kPendingLSM

theorem not_heldBy_of_gcs_eq_nil (h : s.gcs = []) (j : Nat) : ¬ s.HeldBy j i n := by
  rintro ⟨gc, hj, -⟩
  rw [h] at hj
  cases hj

theorem Apart.of_gcs_eq_nil (h : s.gcs = []) : s.Apart :=
  ⟨fun hj => absurd hj (not_heldBy_of_gcs_eq_nil h _),
    fun hj => absurd hj (not_heldBy_of_gcs_eq_nil h _)⟩

/-- A step brings in no file that is held, and completes none; and the
storages of the jobs are there. -/
structure Respects (C : Coding) (s : GcFiles) (a : Act) (s' : GcFiles) : Prop where
  fresh : ∀ {j : Nat} {i : UInt32} {n : UInt64}, s.HeldBy j i n →
    s.stateOf i n = none → s'.stateOf i n = none
  completed : ∀ {j : Nat} {i : UInt32} {n : UInt64}, s.HeldBy j i n →
    ¬ s.Unguarded C i a n .kCompactionCompleted
  isOpen : s.Open

theorem Unguarded.cases (h : s.Unguarded C i a n e) :
    e = .kGCBegin ∨ e = .kCompactionCompleted := by
  cases a with
  | pick => exact .inl h.1
  | compactionCompleted => exact .inr h.1
  | _ => exact h.elim

/-- The events after that go to files of the job that finishes, or make
no file normal that is not waiting for a flush. -/
theorem Guarded.cases (hstep : s.step C a = some s') (h : s.Guarded C i a n e) :
    (e = .kGCCompleted ∧ ∃ j deletion, a = .finish j deletion ∧ s.HeldBy j i n)
      ∨ e = .kFlushCompleted ∨ e = .kNeedGC ∨ e = .kNeedMerge := by
  cases a with
  | finish j deletion =>
    obtain ⟨he, gc, hj, hcf, hn⟩ := h
    obtain ⟨gc', hj', hheld, -⟩ := step_finish hstep
    cases hj.symm.trans hj'
    exact .inl ⟨he, j, deletion, rfl, gc, hj, hheld, hcf, hn⟩
  | flushCompleted info => exact .inr (.inl h.1)
  | compactionCompleted env info => exact .inr (.inr h)
  | settleRanges env cfId sizes => exact .inr (.inr (.inl h))
  | _ => exact h.elim

theorem Apart.state_step (h : s.Apart) (hstep : s.step C a = some s')
    (hrespects : Respects C s a s') (hj : s.HeldBy j i n)
    (hother : ∀ deletion, a ≠ .finish j deletion)
    (hf : s'.stateOf i n = some f) : f ≠ .kNormal ∧ f ≠ .kPendingLSM := by
  cases hbefore : s.stateOf i n with
  | none =>
    rw [hrespects.fresh hj hbefore] at hf
    cases hf
  | some f₀ =>
    have hf₀ := h.state hj hbefore
    by_cases hkeeps : a.Keeps
    case neg =>
      rcases stateOf_of_not_keeps hkeeps hstep i n with hnone | hsame
      · rw [hnone] at hf
        cases hf
      · rw [hsame, hbefore] at hf
        cases hf
        exact hf₀
    case pos =>
      have hfirst : ∀ e, s.Unguarded C i a n e → ∀ f : FileState,
          (f ≠ .kNormal ∧ f ≠ .kPendingLSM) → f.next e ≠ .kNormal ∧ f.next e ≠ .kPendingLSM := by
        intro e hE f _
        rcases hE.cases with rfl | rfl
        · exact ⟨nofun, nofun⟩
        · exact absurd hE (hrespects.completed hj)
      have hrest : ∀ e, s.Guarded C i a n e → ∀ f : FileState, (f ≠ .kNormal ∧ f ≠ .kPendingLSM) →
          f.next e ≠ .kNormal ∧ f.next e ≠ .kPendingLSM := by
        intro e hE f hf
        rcases hE.cases hstep with ⟨-, k, deletion, rfl, hk⟩ | he
        · obtain rfl := h.unique hj hk
          exact absurd rfl (hother deletion)
        · exact FileState.next_held hf he
      obtain ⟨f', hf', hS⟩ := stateOf_step
        (S := fun f => f ≠ .kNormal ∧ f ≠ .kPendingLSM) hstep hkeeps
        hfirst hrest (.inl ⟨nofun, nofun⟩) ⟨f₀, hbefore, hf₀⟩
      rw [hf] at hf'
      cases hf'
      exact hS

theorem Apart.step (h : s.Apart) (hstep : s.step C a = some s')
    (hrespects : Respects C s a s') : s'.Apart where
  state := by
    intro j i n f hj hf
    rcases heldBy_step hstep hrespects.isOpen hj with
      ⟨hold, hother⟩ | ⟨-, -, hbegun | hpending⟩
    · exact h.state_step hstep hrespects hold hother hf
    · rw [hbegun] at hf
      cases hf
      exact ⟨nofun, nofun⟩
    · rw [hpending] at hf
      cases hf
      exact ⟨nofun, nofun⟩
  unique := by
    -- a file that a job has just been given was normal or not there, so
    -- it was not held
    have hfree : ∀ {j i n}, s.HeldBy j i n →
        (s.stateOf i n = some .kNormal ∨ s.stateOf i n = none) →
        (s'.stateOf i n = some .kBeingGC ∨ s'.stateOf i n = some .kPendingGC) → False := by
      intro j i n hj hbefore hafter
      rcases hbefore with hnormal | hnone
      · exact (h.state hj hnormal).1 rfl
      · rw [hrespects.fresh hj hnone] at hafter
        rcases hafter with hafter | hafter
        · cases hafter
        · cases hafter
    intro j k i n hj hk
    rcases heldBy_step hstep hrespects.isOpen hj with
      ⟨hj, -⟩ | ⟨rfl, hbefore, hafter⟩
    · rcases heldBy_step hstep hrespects.isOpen hk with
        ⟨hk, -⟩ | ⟨-, hbefore, hafter⟩
      · exact h.unique hj hk
      · exact (hfree hj hbefore hafter).elim
    · rcases heldBy_step hstep hrespects.isOpen hk with
        ⟨hk, -⟩ | ⟨rfl, -⟩
      · exact (hfree hk hbefore hafter).elim
      · rfl

-- ==== jobs share no input

/-- A compaction that completes has built the files that only its outputs
refer to, as far as they are there. -/
def OutputsBuilt (C : Coding) (s : GcFiles) : Act → Prop
  | .compactionCompleted _ info => info.status.isOk = true →
      ((outputOnly C info).all fun n =>
        (s.fileSet.file info.cfId n).isNone
          || s.built.contains (info.cfId, n)) = true
  | _ => True

instance (s : GcFiles) : (a : Act) → Decidable (s.OutputsBuilt C a)
  | .compactionCompleted .. => inferInstanceAs (Decidable (_ → _))
  | .fileSet _ => isTrue trivial
  | .pick .. => isTrue trivial
  | .installOutputs .. => isTrue trivial
  | .finish .. => isTrue trivial
  | .computeGCScore _ => isTrue trivial
  | .flushCompleted _ => isTrue trivial
  | .settleRanges .. => isTrue trivial

/-- What holds as long as nothing is purged: what is held is there, and a
file whose flush or compaction has not been reported is neither normal
nor held. -/
structure Held (s : GcFiles) : Prop extends Apart s where
  filled : s.Filled
  present : ∀ {j : Nat} {i : UInt32} {n : UInt64}, s.HeldBy j i n → s.stateOf i n ≠ none
  built : ∀ {i : UInt32} {n : UInt64}, (i, n) ∈ s.built →
    (∃ f, s.stateOf i n = some f ∧ f ≠ .kNormal) ∧ ∀ j, ¬ s.HeldBy j i n

theorem Held.isOpen (h : s.Held) : s.Open := by
  intro j gc hj hheld
  obtain ⟨n, hn⟩ := exists_mem_of_ne_nil _ (h.filled j gc hj hheld)
  exact isSome_of_stateOf (h.present ⟨gc, hj, hheld, rfl, mem_append_left _ hn⟩)

theorem Held.respects (h : s.Held) (hcond : s.OutputsBuilt C a) : Respects C s a s' where
  fresh hj hnone := absurd hnone (h.present hj)
  isOpen := h.isOpen
  completed := by
    intro j i n hj hE
    cases a with
    | compactionCompleted env info =>
      obtain ⟨-, rfl, hok, hmem⟩ := hE
      have hbuilt := all_eq_true.1 (hcond hok) n hmem
      rw [Bool.or_eq_true, isNone_iff_eq_none, contains_iff_mem] at hbuilt
      rcases hbuilt with hnone | hbuilt
      · refine h.present hj ?_
        rw [stateOf_eq, hnone]
        rfl
      · exact (h.built hbuilt).2 j hj
    | pick => cases hE.1
    | _ => exact hE

/-- A file of an edit that waits for its flush or compaction once it has
been brought in. -/
theorem mem_newlyBuilt {op : FileSetOp} {fs' : BlobFileSet} (hact : s.fileSet.act C op = some fs')
    (hn : (i, n) ∈ newlyBuilt s.fileSet fs' op) :
    s.stateOf i n = none
      ∧ (fs'.columnFamilies.lookup i).bind (·.stateOf n) = some .kPendingLSM := by
  cases op with
  | logAndApply e io =>
    cases hact
    obtain ⟨hmem, hcame⟩ := mem_filter.1 hn
    obtain ⟨m, hm, hpair⟩ := mem_map.1 hmem
    cases hpair
    obtain ⟨hm, hpending⟩ := mem_filter.1 hm
    have hpending := of_decide_eq_true hpending
    rw [Bool.and_eq_true, isNone_iff_eq_none] at hcame
    obtain ⟨hnone, hsome⟩ := hcame
    have hbefore : s.stateOf e.columnFamilyId m.fileNumber = none := by
      rw [stateOf_eq, hnone]
      rfl
    refine ⟨hbefore, ?_⟩
    rcases logAndApply_cases (C := C) s.fileSet e io
      e.columnFamilyId with hsame | ⟨-, -, -, st, st', hst, hst', hnodup, hedited⟩
    · unfold file at hnone hsome
      rw [hsame, hnone] at hsome
      cases hsome
    · rw [stateOf_of_lookup hst] at hbefore
      rw [hst']
      obtain ⟨f, hf⟩ : ∃ f, st'.stateOf m.fileNumber = some f := by
        unfold file at hsome
        rw [hst'] at hsome
        obtain ⟨m', hm'⟩ := isSome_iff_exists.1 hsome
        exact ⟨m'.state, congrArg (Option.map state) hm'⟩
      obtain ⟨m', hm', hnumber, rfl⟩ := hedited.stateOf_new hbefore hf
      cases inj_on_of_nodup_map hnodup.1 hm' hm hnumber
      exact hf.trans (congrArg some hpending)
  | _ => cases hn

/-- A file whose completion is awaited after a step was awaited before and
is not reported by the step, or has just been built. -/
theorem built_step (hstep : s.step C a = some s') (hn : (i, n) ∈ s'.built) :
    ((i, n) ∈ s.built ∧ ¬ s.Unguarded C i a n .kCompactionCompleted
      ∧ ¬ s.Guarded C i a n .kFlushCompleted)
    ∨ (s.stateOf i n = none ∧ s'.stateOf i n = some .kPendingLSM ∧ s'.gcs = s.gcs) := by
  have hreport : ∀ {cfId : UInt32} {numbers : List UInt64}, (i, n) ∈ report s.built cfId numbers →
      (i, n) ∈ s.built ∧ ¬ (i = cfId ∧ n ∈ numbers) := by
    simpa [report, imp_iff_not_or] using h
  cases a with
  | fileSet op =>
    obtain ⟨fs', hact, rfl⟩ := map_eq_some_iff.1 hstep
    rcases mem_append.1 hn with hn | hn
    · exact .inl ⟨hn, nofun, nofun⟩
    · obtain ⟨hnone, hpending⟩ := mem_newlyBuilt hact hn
      exact .inr ⟨hnone, hpending, rfl⟩
  | pick cfId options =>
    rcases pick_cases hstep with rfl | ⟨_, _, _, _, _, rfl⟩
    · exact .inl ⟨hn, fun h => (nomatch h.1), nofun⟩
    · exact .inl ⟨hn, fun h => (nomatch h.1), nofun⟩
  | installOutputs j files io =>
    obtain ⟨gc, -, -, rfl⟩ := step_installOutputs hstep
    exact .inl ⟨hn, nofun, nofun⟩
  | finish j deletion =>
    obtain ⟨gc, -, -, rfl⟩ := step_finish hstep
    exact .inl ⟨hn, nofun, fun h => nomatch h.1⟩
  | computeGCScore cfId =>
    cases hstep
    exact .inl ⟨hn, nofun, nofun⟩
  | flushCompleted info =>
    cases hstep
    obtain ⟨hold, hunreported⟩ := hreport hn
    exact .inl ⟨hold, nofun, fun h => hunreported h.2⟩
  | compactionCompleted env info =>
    cases hstep
    split at hn
    case isTrue hok =>
      obtain ⟨hold, hunreported⟩ := hreport hn
      exact .inl ⟨hold, fun h => hunreported ⟨h.2.1, h.2.2.2⟩, nofun⟩
    case isFalse hfailed =>
      exact .inl ⟨hn, fun h => hfailed h.2.2.1, nofun⟩
  | settleRanges env cfId sizes =>
    cases hstep
    exact .inl ⟨hn, nofun, nofun⟩

theorem Held.step (h : s.Held) (hkeeps : a.Keeps)
    (hcond : s.OutputsBuilt C a) (hstep : s.step C a = some s') : s'.Held where
  toApart := h.toApart.step hstep (h.respects hcond)
  filled := h.filled.step hstep
  present := by
    intro j i n hj
    rcases heldBy_step hstep h.isOpen hj with
      ⟨hold, -⟩ | ⟨-, -, hbegun | hpending⟩
    · obtain ⟨f, hf⟩ := ne_none_iff_exists'.1 (h.present hold)
      obtain ⟨f', hf', -⟩ := stateOf_step (S := fun _ => True) hstep hkeeps
        (fun _ _ _ _ => trivial) (fun _ _ _ _ => trivial) (.inl trivial) ⟨f, hf, trivial⟩
      rw [hf']
      exact nofun
    · rw [hbegun]
      exact nofun
    · rw [hpending]
      exact nofun
  built := by
    intro i n hn
    rcases built_step hstep hn with
      ⟨hold, hcompaction, hflush⟩ | ⟨hnone, hnew, hgcs⟩
    · obtain ⟨⟨f, hf, hnormal⟩, hfree⟩ := h.built hold
      refine ⟨stateOf_step (S := (· ≠ .kNormal)) hstep hkeeps ?_ ?_
        (.inl nofun) ⟨f, hf, hnormal⟩, ?_⟩
      · intro e hE f _
        rcases hE.cases with rfl | rfl
        · exact nofun
        · exact absurd hE hcompaction
      · intro e hE f hf
        rcases hE.cases hstep with ⟨-, k, deletion, rfl, hk⟩ | rfl | he
        · exact absurd hk (hfree k)
        · exact absurd hE hflush
        · exact FileState.next_marked hf he
      · intro j hj
        rcases heldBy_step hstep h.isOpen hj with
          ⟨hj, -⟩ | ⟨-, hbefore | hbefore, -⟩
        · exact hfree j hj
        · rw [hf] at hbefore
          cases hbefore
          exact hnormal rfl
        · rw [hf] at hbefore
          cases hbefore
    · refine ⟨⟨_, hnew, nofun⟩, fun j hj => ?_⟩
      unfold HeldBy at hj
      rw [hgcs] at hj
      exact h.present hj hnone

theorem Held.of_nil (hgcs : s.gcs = []) (hbuilt : s.built = []) : s.Held where
  toApart := .of_gcs_eq_nil hgcs
  filled := by
    intro j gc hj
    rw [hgcs] at hj
    cases hj
  present hj := absurd hj (not_heldBy_of_gcs_eq_nil hgcs _)
  built := by
    intro i n hn
    rw [hbuilt] at hn
    cases hn

/-- **Jobs share no input.** In every run of picks, flush and compaction
completions, scores, edits, range deletions, and of jobs that install
their outputs, delete their inputs and let go, in which compactions
complete files they have built: two jobs that have not let go have no
input in common. -/
theorem inputs_disjoint {s₀ s : GcFiles} {acts : List Act} (hgcs : s₀.gcs = [])
    (hbuilt : s₀.built = []) (hkeeps : ∀ a ∈ acts, a.Keeps)
    (hmeets : Meets (step C) (OutputsBuilt C) s₀ acts)
    (hexec : exec (step C) s₀ acts = some s) {j k : Nat} {gc gc' : BlobGC}
    (hjk : j ≠ k) (hj : s.gcs[j]? = some gc) (hk : s.gcs[k]? = some gc')
    (hheld : gc.released = false) (hheld' : gc'.released = false)
    (hcf : gc.cfId = gc'.cfId) : gc.inputs.Disjoint gc'.inputs := by
  have hend : s.Held := exec_keeps (I := Held) (fun h hcond hstep => h.step hcond.2 hcond.1 hstep)
    (.of_nil hgcs hbuilt) (hmeets.and (meets_of_forall (p := Act.Keeps) hkeeps s₀)) hexec
  intro n hn hn'
  refine hjk (hend.unique (i := gc.cfId) (n := n) ?_ ?_)
  · exact ⟨gc, hj, hheld, rfl, mem_append_left _ hn⟩
  · exact ⟨gc', hk, hheld', hcf.symm, mem_append_left _ hn'⟩

end GcFiles

/-- A file that is worth a job, for one key. -/
def largeFile (n : UInt64) (b : UInt8) : BlobFileMeta where
  fileNumber := n
  fileSize := 2 ^ 30
  smallestKey := ⟨[b], (by decide : 1 < 2 ^ 32)⟩
  largestKey := ⟨[b], (by decide : 1 < 2 ^ 32)⟩
  state := .kNormal

/-- A storage with two such files and their scores. -/
def twoLarge : BlobStorage :=
  { (({ dbOptions := {}, cfOptions := {} } : BlobStorage).addBlobFile
      (largeFile 1 1)).addBlobFile (largeFile 2 2) with
    gcScore := [{ fileNumber := 1, score := 0 }, { fileNumber := 2, score := 0 }] }

def holdsTwoLarge : BlobFileSet where
  columnFamilies := Table.empty.emplace (0, twoLarge)

/-- Two jobs are picked; a compaction builds a file and completes. -/
def pickTwice : List GcFiles.Act :=
  [.pick 0 {}, .pick 0 {},
    .fileSet (.logAndApply { addedFiles := [{ fileNumber := 3, state := .kPendingLSM }] } .ok),
    .compactionCompleted {} {
      cfId := 0
      inputFiles := []
      outputFiles := ["sst"]
      tableProperties := Table.empty.insert "sst" (some
        (BlobFileSizeCollector.encode base128 (Table.empty.insert 3 10))) }]

/-- The jobs have the inputs 1 and 2. -/
theorem pickTwice_disjoint :
    ∃ s gc gc', exec (GcFiles.step base128) { fileSet := holdsTwoLarge } pickTwice = some s
      ∧ s.gcs[0]? = some gc ∧ s.gcs[1]? = some gc' ∧ gc.inputs = [1] ∧ gc'.inputs = [2]
      ∧ gc.inputs.Disjoint gc'.inputs := by
  obtain ⟨s, hexec, gc, hj, gc', hk, hin, hin', hheld, hheld', hcf⟩ :
      ∃ s ∈ exec (GcFiles.step base128) { fileSet := holdsTwoLarge } pickTwice,
      ∃ gc ∈ s.gcs[0]?, ∃ gc' ∈ s.gcs[1]?, gc.inputs = [1] ∧ gc'.inputs = [2]
        ∧ gc.released = false ∧ gc'.released = false ∧ gc.cfId = gc'.cfId := by decide +kernel
  refine ⟨s, gc, gc', hexec, hj, hk, hin, hin', ?_⟩
  refine GcFiles.inputs_disjoint rfl rfl ?_ (by decide +kernel) hexec
    Nat.zero_ne_one hj hk hheld hheld' hcf
  unfold pickTwice
  simp [GcFiles.Act.Keeps]

end DiffKV
