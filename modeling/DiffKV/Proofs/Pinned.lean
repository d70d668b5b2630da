/-
Whether the inputs of a GC job stay where they are until the job deletes
them.

A job works on its inputs with the mutex free. What may take one away in
the meantime: the end of another job, but no two jobs hold a file; a
purge, but it takes only obsolete files; and a range deletion, which
selects the files by their keys alone. So the inputs stay exactly as long
as no range deletion that is carried out selects one.

File numbers are never used twice. Of this the argument needs that a file
that comes in is none that a job holds: an output of a job that a range
deletion and a purge have removed is still held by it.
-/
import DiffKV.Proofs.GcInputs

namespace DiffKV

open Lib List BlobFileSet VersionEdit Option

variable {st st' : BlobStorage}

namespace BlobStorage

variable {E : UInt64 → FileEvent → Prop} {P : VersionEdit → Prop}

theorem Changes.destroyed_eq (h : Changes E P st st') : st'.destroyed = st.destroyed := by
  induction h with
  | refl => rfl
  | tail _ hlast ih =>
    refine Eq.trans ?_ ih
    cases hlast with
    | edit h =>
      obtain ⟨e, -, -, -, hdestroyed⟩ := h.edited
      exact hdestroyed
    | event h => rfl
    | frame _ _ hdestroyed => exact hdestroyed

end BlobStorage

theorem BlobGC.deleteEdit_eq (gc : BlobGC) (q : SequenceNumber) :
    gc.deleteEdit q = {
      columnFamilyId := gc.cfId
      deletedFiles := gc.inputs.map fun n => (n, q) } :=
  foldl_deleteBlobFile id q gc.inputs _

namespace GcFiles

variable {j : Nat} {q : SequenceNumber} {cfId : UInt32} {f : FileState}
  {ranges : List BlobStorage.RangePtr} {includeEnd : Bool}
  {files : List UInt64}

variable {C : Coding} {s s' : GcFiles} {a : Act} {i : UInt32} {n : UInt64}

-- ==== definitions

/-- Every input of a job that has not let go is in the storage and not
obsolete. -/
def Pinned (s : GcFiles) : Prop :=
  ∀ gc ∈ s.gcs, gc.released = false → ∀ n ∈ gc.inputs,
    ∃ m, s.fileSet.file gc.cfId n = some m ∧ m.isObsolete = false

/-- What the jobs of column family `i` that have not let go have in
`files`. -/
def heldOf (s : GcFiles) (files : BlobGC → List UInt64) (i : UInt32) : List UInt64 :=
  (s.gcs.filter fun gc => !gc.released && gc.cfId == i).flatMap files

/-- The steps of GC jobs, range deletions, purges, and edits that delete
nothing. -/
def Act.collects : Act → Bool
  | .fileSet (.logAndApply e _) => e.deletedFiles.isEmpty
  | .fileSet (.deleteBlobFilesInRanges ..) => true
  | .fileSet (.getObsoleteFiles _) => true
  | .pick .. => true
  | .installOutputs .. => true
  | .finish .. => true
  | .computeGCScore _ => true
  | _ => false

/-- The files a step adds have numbers that no job holds. -/
def newNumbers (s : GcFiles) : Act → Bool
  | .fileSet (.logAndApply e _) => e.addedFiles.all fun m =>
    !(s.heldOf BlobGC.files e.columnFamilyId).contains m.fileNumber
  | .installOutputs j files _ =>
    match s.gcs[j]? with
    | none => true
    | some gc => files.all fun m =>
      !(s.heldOf BlobGC.files gc.cfId).contains m.fileNumber
  | _ => true

/-- A range deletion that is carried out selects no input of a job. -/
def sparesInputs (s : GcFiles) : Act → Bool
  | .fileSet (.deleteBlobFilesInRanges cfId ranges includeEnd _ .ok) =>
    match (s.fileSet.columnFamilies.lookup cfId).bind
        (·.getBlobFilesInRanges ranges includeEnd) with
    | none => true
    | some files => !s.fileSet.admits (BlobFileSet.rangeEdit cfId files)
        || files.all fun n => !(s.heldOf BlobGC.inputs cfId).contains n
  | _ => true

-- ==== membership

theorem mem_heldOf {files : BlobGC → List UInt64} :
    n ∈ s.heldOf files i ↔ ∃ (j : Nat) (gc : BlobGC), s.gcs[j]? = some gc
      ∧ gc.released = false ∧ gc.cfId = i ∧ n ∈ files gc := by
  unfold heldOf
  simp only [mem_flatMap, mem_filter, Bool.and_eq_true, Bool.not_eq_true', beq_iff_eq]
  constructor
  · rintro ⟨gc, ⟨hgc, hheld, hcf⟩, hn⟩
    obtain ⟨j, hj⟩ := mem_iff_getElem?.1 hgc
    exact ⟨j, gc, hj, hheld, hcf, hn⟩
  · rintro ⟨j, gc, hj, hheld, hcf, hn⟩
    exact ⟨gc, ⟨mem_of_getElem? hj, hheld, hcf⟩, hn⟩

/-- `n` is an input of the `j`-th job, which has not let go. -/
def InputOf (s : GcFiles) (j : Nat) (i : UInt32) (n : UInt64) : Prop :=
  ∃ gc, s.gcs[j]? = some gc ∧ gc.released = false ∧ gc.cfId = i ∧ n ∈ gc.inputs

theorem InputOf.heldBy (h : s.InputOf j i n) : s.HeldBy j i n := by
  obtain ⟨gc, hj, hheld, hcf, hn⟩ := h
  exact ⟨gc, hj, hheld, hcf, mem_append_left _ hn⟩

theorem pinned_iff : s.Pinned ↔ ∀ j i n, s.InputOf j i n →
    ∃ f, s.stateOf i n = some f ∧ f ≠ .kObsolete := by
  have hfile : ∀ i n, (∃ m, s.fileSet.file i n = some m ∧ m.isObsolete = false)
      ↔ ∃ f, s.stateOf i n = some f ∧ f ≠ .kObsolete := by
    intro i n
    rw [stateOf_eq]
    unfold BlobFileMeta.isObsolete
    cases s.fileSet.file i n <;> simp
  constructor
  · rintro h j i n ⟨gc, hj, hheld, rfl, hn⟩
    exact (hfile _ _).1 (h gc (mem_of_getElem? hj) hheld n hn)
  · intro h gc hgc hheld n hn
    obtain ⟨j, hj⟩ := mem_iff_getElem?.1 hgc
    exact (hfile _ _).2 (h j _ n ⟨gc, hj, hheld, rfl, hn⟩)

theorem inputOf_step (hstep : s.step C a = some s') (h : s'.InputOf j i n) :
    (s.InputOf j i n ∧ ∀ deletion, a ≠ .finish j deletion) ∨ s'.stateOf i n = some .kBeingGC := by
  obtain ⟨gc, hgc, hheld, rfl, hn⟩ := h
  cases origin hstep hgc hheld with
  | job hj hheld hcf hinputs _ hother =>
    exact .inl ⟨⟨_, hj, hheld, hcf, hinputs ▸ hn⟩, hother⟩
  | pick _ _ _ _ hbegun => exact .inr (hbegun n hn)

-- ==== invariant

/-- What holds along the runs considered here. -/
structure Pins (s : GcFiles) : Prop extends Apart s where
  filled : s.Filled
  pinned : s.Pinned
  listed : s.fileSet.Listed
  undestroyed : ∀ i st, s.fileSet.columnFamilies.lookup i = some st → st.destroyed = false

theorem Pins.isOpen (h : s.Pins) : s.Open := by
  intro j gc hj hheld
  obtain ⟨n, hn⟩ := exists_mem_of_ne_nil _ (h.filled j gc hj hheld)
  obtain ⟨f, hf, -⟩ := pinned_iff.1 h.pinned j gc.cfId n ⟨gc, hj, hheld, rfl, hn⟩
  exact isSome_of_stateOf (ne_none_iff_exists'.2 ⟨f, hf⟩)

/-- The files that come in are none that a job holds. -/
theorem not_heldBy_of_newNumbers (hcollects : a.collects = true)
    (hnew : s.newNumbers a = true) {e : VersionEdit} (he : s.Issues a e)
    (hn : n ∈ e.addedFiles.map (·.fileNumber)) (j : Nat) : ¬ s.HeldBy j e.columnFamilyId n := by
  obtain ⟨m, hm, rfl⟩ := mem_map.1 hn
  have hall : ∀ {i : UInt32} {files : List BlobFileMeta},
      (files.all fun m => !(s.heldOf BlobGC.files i).contains m.fileNumber) = true →
      m.fileNumber ∈ files.map (·.fileNumber) → ¬ s.HeldBy j i m.fileNumber := by
    intro i files hall hmem hj
    obtain ⟨m', hm', hnumber⟩ := mem_map.1 hmem
    have hfree := all_eq_true.1 hall m' hm'
    rw [hnumber, Bool.not_eq_true', ← Bool.not_eq_true, contains_iff_mem] at hfree
    exact hfree (mem_heldOf.2 ⟨j, hj⟩)
  cases a with
  | fileSet op =>
    cases op with
    | logAndApply edit io =>
      obtain rfl : e = edit := he
      exact hall hnew hn
    | deleteBlobFilesInRanges cfId ranges includeEnd q io =>
      obtain ⟨st, files, -, -, rfl⟩ := he
      rw [rangeEdit_eq] at hn
      cases hn
    | getObsoleteFiles => exact he.elim
    | _ => cases hcollects
  | installOutputs k files io =>
    obtain ⟨gc, hk, rfl⟩ := he
    rw [BlobGC.installEdit_eq] at hn ⊢
    simp only [newNumbers, hk] at hnew
    refine hall hnew ?_
    simpa using hn
  | finish k deletion =>
    obtain ⟨gc, q, -, rfl⟩ := he
    rw [BlobGC.deleteEdit_eq] at hn
    cases hn
  | pick => exact he.elim
  | computeGCScore => exact he.elim
  | _ => cases hcollects

theorem Pins.respects (h : s.Pins) (hcollects : a.collects = true)
    (hnew : s.newNumbers a = true) (hstep : s.step C a = some s') : Respects C s a s' where
  fresh := by
    intro j i n hj hnone
    by_contra hsome
    obtain ⟨e, rfl, hissues, hn⟩ := stateOf_step_new hstep hnone hsome
    exact not_heldBy_of_newNumbers hcollects hnew hissues hn j hj
  completed := by
    intro j i n _ hE
    cases a with
    | pick => cases hE.1
    | compactionCompleted => cases hcollects
    | _ => exact hE
  isOpen := h.isOpen

theorem undestroyed_step (h : ∀ i st,
      s.fileSet.columnFamilies.lookup i = some st → st.destroyed = false)
    (hcollects : a.collects = true) (hstep : s.step C a = some s')
    (hst' : s'.fileSet.columnFamilies.lookup i = some st') : st'.destroyed = false := by
  have hfate := fate hstep i
  have hbefore := h i
  rw [hst'] at hfate
  generalize s.fileSet.columnFamilies.lookup i = o at hfate hbefore
  generalize ho : some st' = o' at hfate
  cases hfate with
  | changes first rest =>
    cases first with
    | none =>
      cases rest
      cases ho
    | some first =>
      cases rest with
      | some rest =>
        cases ho
        rw [rest.destroyed_eq, first.destroyed_eq]
        exact hbefore _ rfl
  | destroy ha =>
    subst ha
    cases hcollects
  | @purge st q ha =>
    obtain rfl := eq_of_orErased ho.symm
    rw [(st.purged_getObsoleteFiles q).destroyed]
    exact hbefore _ rfl

-- ==== an input over each step

/-- A purge leaves a file that is not obsolete. -/
theorem Pins.stateOf_purge (h : s.Pins)
    (hstep : s.step C (.fileSet (.getObsoleteFiles q)) = some s')
    (hf : s.stateOf i n = some f) (hlive : f ≠ .kObsolete) : s'.stateOf i n = some f := by
  have hfate := fate hstep i
  have hlisted := h.listed i
  have hundestroyed := h.undestroyed i
  unfold stateOf at hf ⊢
  generalize s.fileSet.columnFamilies.lookup i = o at *
  generalize s'.fileSet.columnFamilies.lookup i = o' at *
  cases hfate with
  | changes first rest =>
    cases first with
    | none => cases hf
    | some first =>
      cases rest with
      | some rest =>
        have hfirst := first.stateOf_eq (fun _ _ h => h) fun _ h => h
        have hrest := rest.stateOf_eq (fun _ _ h => h) fun _ h => h.2
        exact (congrFun (hrest.trans hfirst) n).trans hf
  | destroy ha => cases ha
  | @purge st q' ha =>
    have hremove : (st.getObsoleteFiles q').2.maybeRemove = false := by
      unfold BlobStorage.maybeRemove
      rw [(st.purged_getObsoleteFiles q').destroyed, hundestroyed st rfl]
      rfl
    have hkept : n ∉ (st.getObsoleteFiles q').1 := by
      intro hremoved
      obtain ⟨d, hd, rfl⟩ := mem_map.1 hremoved
      have hobsolete := (hlisted st rfl).obsolete d.1 (mem_map_of_mem (mem_filter.1 hd).1)
      rw [BlobStorage.obsolete_iff_stateOf] at hobsolete
      rw [show st.stateOf d.1 = some f from hf] at hobsolete
      cases hobsolete
      exact hlive rfl
    unfold orErased
    rw [hremove]
    show ((st.getObsoleteFiles q').2.findFile n).map (·.state) = some f
    rw [BlobStorage.findFile_getObsoleteFiles, if_neg hkept]
    exact hf

theorem sparesInputs_range (hst : s.fileSet.columnFamilies.lookup cfId = some st)
    (hfiles : st.getBlobFilesInRanges ranges includeEnd = some files)
    (h : s.sparesInputs (.fileSet (.deleteBlobFilesInRanges cfId ranges includeEnd q .ok)) = true)
    (hadm : s.fileSet.admits (rangeEdit cfId files) = true)
    (hn : n ∈ files) (j : Nat) : ¬ s.InputOf j cfId n := by
  intro hj
  simp only [sparesInputs, hst, bind_some, hfiles, hadm, Bool.not_true, Bool.false_or] at h
  have hfree := all_eq_true.1 h n hn
  rw [Bool.not_eq_true', ← Bool.not_eq_true, contains_iff_mem] at hfree
  exact hfree (mem_heldOf.2 ⟨j, hj⟩)

/-- A range deletion leaves the inputs it spares. -/
theorem stateOf_deleteBlobFilesInRanges {io : ManifestIO}
    (hstep : s.step C (.fileSet (.deleteBlobFilesInRanges cfId ranges includeEnd q io)) = some s')
    (hspares : s.sparesInputs (.fileSet (.deleteBlobFilesInRanges cfId
      ranges includeEnd q io)) = true) (hj : s.InputOf j i n)
    (hf : s.stateOf i n = some f) : s'.stateOf i n = some f := by
  obtain ⟨fs', hact, rfl⟩ := map_eq_some_iff.1 hstep
  rcases act_deleteBlobFilesInRanges hact with
    rfl | ⟨st, files, hst, hfiles, rfl⟩
  · exact hf
  · rcases logAndApply_cases (C := C) s.fileSet (rangeEdit cfId files) io i with
      hsame | ⟨rfl, hadm, rfl, st₀, st', hst₀, hst', -, hedited⟩
    · unfold stateOf
      rw [hsame]
      exact hf
    · rw [stateOf_of_lookup hst₀] at hf
      unfold stateOf
      rw [hst']
      rcases hedited.stateOf_old hf with ⟨hdeleted, -⟩ | hsame
      · rw [rangeEdit_eq] at hj hdeleted
        refine absurd hj (sparesInputs_range hst hfiles hspares hadm ?_ j)
        simpa using hdeleted
      · exact hsame

/-- A step that spares the inputs leaves each input of a job that does not
finish in it in the storage and not obsolete. -/
theorem Pins.input_step (h : s.Pins) (hcollects : a.collects = true)
    (hspares : s.sparesInputs a = true) (hstep : s.step C a = some s') (hj : s.InputOf j i n)
    (hother : ∀ deletion, a ≠ .finish j deletion) :
    ∃ f, s'.stateOf i n = some f ∧ f ≠ .kObsolete := by
  obtain ⟨f, hf, hlive⟩ := pinned_iff.1 h.pinned j i n hj
  -- where no edit deletes the file, only the events count
  have hkept : a.Keeps → (∀ e, e.columnFamilyId = i → s.Issues a e →
      n ∉ e.deletedFiles.map Prod.fst) → ∃ f, s'.stateOf i n = some f ∧ f ≠ .kObsolete := by
    intro hkeeps hdelete
    refine stateOf_step (S := (· ≠ .kObsolete)) hstep hkeeps ?_ ?_ (.inr hdelete) ⟨f, hf, hlive⟩
    · intro e hE f hf
      rcases hE.cases with rfl | rfl
      · exact nofun
      · exact nofun
    · intro e hE f hf
      refine FileState.next_live hf ?_
      rcases hE.cases hstep with ⟨rfl, -⟩ | rfl | rfl | rfl
      all_goals exact nofun
  cases a with
  | fileSet op =>
    cases op with
    | logAndApply edit io =>
      refine hkept trivial fun e _ he => ?_
      obtain rfl : e = edit := he
      rw [isEmpty_iff.1 hcollects]
      exact nofun
    | deleteBlobFilesInRanges cfId ranges includeEnd q io =>
      exact ⟨f, stateOf_deleteBlobFilesInRanges hstep hspares hj hf, hlive⟩
    | getObsoleteFiles q => exact ⟨f, h.stateOf_purge hstep hf hlive, hlive⟩
    | _ => cases hcollects
  | pick cfId options => exact hkept trivial fun e _ he => he.elim
  | installOutputs k files io =>
    refine hkept trivial ?_
    rintro e _ ⟨gc, -, rfl⟩
    rw [BlobGC.installEdit_eq]
    exact nofun
  | finish k deletion =>
    refine hkept trivial ?_
    rintro e hcf ⟨gc, q, hk, rfl⟩ hn
    rw [BlobGC.deleteEdit_eq] at hcf hn
    obtain ⟨gc', hk', hheld, -⟩ := step_finish hstep
    cases hk.symm.trans hk'
    have hinput : n ∈ gc.inputs := by simpa using hn
    obtain rfl := h.unique hj.heldBy ⟨gc, hk, hheld, hcf, mem_append_left _ hinput⟩
    exact hother deletion rfl
  | computeGCScore cfId => exact hkept trivial fun e _ he => he.elim
  | _ => cases hcollects

theorem Pins.step (h : s.Pins) (hcollects : a.collects = true)
    (hnew : s.newNumbers a = true) (hspares : s.sparesInputs a = true)
    (hstep : s.step C a = some s') : s'.Pins where
  toApart := h.toApart.step hstep (h.respects hcollects hnew hstep)
  filled := h.filled.step hstep
  pinned := by
    refine pinned_iff.2 fun j i n hj => ?_
    rcases inputOf_step hstep hj with ⟨hold, hother⟩ | hbegun
    · exact h.input_step hcollects hspares hstep hold hother
    · exact ⟨_, hbegun, nofun⟩
  listed := by
    refine listed_step h.listed ?_ hstep
    cases a with
    | compactionCompleted => cases hcollects
    | _ => trivial
  undestroyed i st' := undestroyed_step h.undestroyed hcollects hstep

/-- `Seal` accepts the deletion of inputs that are pinned. -/
theorem Pinned.seal_deleteEdit (h : s.Pinned) {gc : BlobGC} (hgc : gc ∈ s.gcs)
    (hheld : gc.released = false) (q : SequenceNumber)
    (hst : s.fileSet.columnFamilies.lookup gc.cfId = some st) :
    ((gc.deleteEdit q).batch.seal st).isOk = true := by
  rw [CFEditCollector.seal_isOk]
  refine ⟨fun n hn => ?_, fun n hn _ => ?_⟩
  · rw [batch_added, BlobGC.deleteEdit_eq] at hn
    cases hn
  · rw [batch_deleted, BlobGC.deleteEdit_eq] at hn
    have hinput : n ∈ gc.inputs := by simpa using hn
    obtain ⟨m, hm, hlive⟩ := h gc hgc hheld n hinput
    unfold file at hm
    rw [hst] at hm
    exact ⟨m, hm, hlive⟩

/-- A range deletion that is carried out makes obsolete what it
selects. -/
theorem obsolete_of_selected (hadm : s.fileSet.admits (rangeEdit cfId files) = true)
    (hst : (s.fileSet.columnFamilies.lookup cfId).isSome) (hn : n ∈ files) :
    (s.fileSet.logAndApply C (rangeEdit cfId files) .ok).2.obsolete cfId n = true := by
  obtain ⟨st, hst⟩ := isSome_iff_exists.1 hst
  have hok := (logAndApply_applied (C := C) ((admits_iff _ _).1 hadm)).1
  rw [rangeEdit_eq] at hok ⊢
  obtain ⟨st', hst', -, hedited⟩ := edited_of_isOk (congrArg Status.isOk hok) hst
  have hdeleted : n ∈ (files.map fun n => (n, (0 : SequenceNumber))).map
      Prod.fst := by simpa using hn
  have hobsolete := (hedited.obsolete_of_deleted (by
    simpa [unpairedDeleted] using hdeleted)).2
  unfold obsolete file
  rw [hst']
  exact hobsolete

/-- If a step leaves the inputs pinned, it is not a range deletion that is
carried out and selects one. -/
theorem spares_of_pinned (hpinned : ∀ s', s.step C a = some s' → s'.Pinned) :
    s.sparesInputs a = true := by
  unfold sparesInputs
  split
  case h_2 => rfl
  case h_1 cfId ranges includeEnd q =>
    cases hsel : (s.fileSet.columnFamilies.lookup cfId).bind
        (·.getBlobFilesInRanges ranges includeEnd) with
    | none => rfl
    | some files =>
      obtain ⟨st, hst, hfiles⟩ := bind_eq_some_iff.1 hsel
      by_contra hselects
      simp only [Bool.or_eq_true, Bool.not_eq_true', not_or,
        Bool.not_eq_false, List.all_eq_true, not_forall] at hselects
      obtain ⟨hadm, n, hn, hheld⟩ := hselects
      rw [contains_iff_mem] at hheld
      obtain ⟨j, gc, hj, hunreleased, rfl, hinput⟩ := mem_heldOf.1 hheld
      have hact : s.fileSet.act C (.deleteBlobFilesInRanges gc.cfId ranges
          includeEnd q .ok) = some (s.fileSet.logAndApply C (rangeEdit gc.cfId files) .ok).2 := by
        unfold act deleteBlobFilesInRanges
        simp only [hst, hfiles, map_some]
      obtain ⟨m, hm, hlive⟩ := hpinned _ (map_eq_some_iff.2 ⟨_, hact, rfl⟩) gc
        (mem_of_getElem? hj) hunreleased n hinput
      have hobsolete := obsolete_of_selected (C := C) hadm (isSome_iff_exists.2 ⟨st, hst⟩) hn
      unfold obsolete at hobsolete
      rw [hm, any_some, hlive] at hobsolete
      cases hobsolete

/-- **Inputs stay pinned exactly until a range deletion selects one.** In
every run of GC jobs, range deletions, purges and edits that delete
nothing, in which no file number is used again while a job holds it: each
step leaves the inputs of all jobs that have not let go in their storage
and not obsolete if and only if no range deletion that is carried out
selects one. And as long as they are there, `Seal` accepts the edit that
deletes them. -/
theorem inputs_pinned_iff {s₀ : GcFiles} {acts : List Act}
    (hgcs : s₀.gcs = []) (hlisted : s₀.fileSet.Listed)
    (hundestroyed : ∀ i st, s₀.fileSet.columnFamilies.lookup i = some st → st.destroyed = false)
    (hcollects : ∀ a ∈ acts, a.collects = true)
    (hnew : Meets (step C) (fun s a => s.newNumbers a = true) s₀ acts) :
    (Meets (step C) (fun s a => ∀ s', s.step C a = some s' → s'.Pinned) s₀ acts
      ↔ Meets (step C) (fun s a => s.sparesInputs a = true) s₀ acts)
    ∧ ∀ s : GcFiles, s.Pinned → ∀ gc ∈ s.gcs, gc.released = false →
      ∀ obsoleteSequence st, s.fileSet.columnFamilies.lookup gc.cfId = some st →
        ((gc.deleteEdit obsoleteSequence).batch.seal st).isOk = true := by
  have hstart : s₀.Pins :=
    { toApart := .of_gcs_eq_nil hgcs
      filled := fun j gc hj => by rw [hgcs] at hj; cases hj
      pinned := fun gc hgc => by rw [hgcs] at hgc; cases hgc
      listed := hlisted
      undestroyed := hundestroyed }
  have hmeets := (meets_of_forall (p := fun a => a.collects = true) hcollects s₀).and hnew
  refine ⟨meets_iff (I := Pins) ?_ ?_ hstart hmeets, ?_⟩
  · intro s a h hcond
    refine ⟨spares_of_pinned, fun hspares s' hstep => ?_⟩
    exact (h.step hcond.1 hcond.2 hspares hstep).pinned
  · intro s a s' h hcond hspares hstep
    exact h.step hcond.1 hcond.2 hspares hstep
  · exact fun s hpinned gc hgc hheld q st hst =>
      hpinned.seal_deleteEdit hgc hheld q hst

end GcFiles

theorem lookup_holdsTwoLarge {i : UInt32}
    (h : holdsTwoLarge.columnFamilies.lookup i = some st) : st = twoLarge := by
  obtain ⟨-, rfl⟩ := Prod.ext_iff.1 (mem_singleton.1 (Table.mem_entries_iff.2 h))
  rfl

/-- A job on the file 1; meanwhile the file 2 is deleted by its key and
purged. -/
def deleteOther : List GcFiles.Act :=
  [.pick 0 {},
    .fileSet (.deleteBlobFilesInRanges 0 [⟨some (largeFile 2 2).smallestKey, none⟩] true 0 .ok),
    .fileSet (.getObsoleteFiles 1), .finish 0 (some (5, .ok))]

/-- The job deletes its input and the other file is gone. -/
theorem deleteOther_pinned :
    (exec (GcFiles.step base128) { fileSet := holdsTwoLarge }
        deleteOther).map (fun s => (s.stateOf 0 1, s.stateOf 0 2)) = some (some .kObsolete, none)
      ∧ Meets (GcFiles.step base128) (fun s a => ∀ s', s.step base128 a = some s' → s'.Pinned)
        { fileSet := holdsTwoLarge } deleteOther := by
  refine ⟨by decide +kernel, ?_⟩
  have hlisted : holdsTwoLarge.Listed := by
    intro i st hst
    rw [lookup_holdsTwoLarge hst]
    exact ⟨nodup_nil, fun _ hn => nomatch hn⟩
  have hundestroyed : ∀ i st, holdsTwoLarge.columnFamilies.lookup i
      = some st → st.destroyed = false := by
    intro i st hst
    rw [lookup_holdsTwoLarge hst]
    rfl
  refine (GcFiles.inputs_pinned_iff rfl hlisted hundestroyed ?_
    (by decide +kernel)).1.2 (by decide +kernel)
  unfold deleteOther
  simp [GcFiles.Act.collects]

/-- All files are deleted: the input is obsolete, `Seal` rejects the
deletion by the job, and a purge takes the file away from it. -/
theorem deleteAll_unpins :
    ∃ s s' gc st, exec (GcFiles.step base128) { fileSet := holdsTwoLarge }
        [.pick 0 {}, deleteAll] = some s ∧ s.gcs[0]? = some gc ∧ gc.released = false ∧ 1 ∈ gc.inputs
      ∧ s.fileSet.obsolete 0 1 = true ∧ s.fileSet.columnFamilies.lookup 0 = some st
      ∧ ((gc.deleteEdit 5).batch.seal st).isOk = false
      ∧ s.step base128 (.fileSet (.getObsoleteFiles 1)) = some s' ∧ s'.fileSet.file 0 1 = none := by
  obtain ⟨s, hexec, hobsolete, gc, hgc, hheld, hinput, st, hst, hrejected, s', hstep, hpurged⟩ :
      ∃ s ∈ exec (GcFiles.step base128) { fileSet := holdsTwoLarge }
        [.pick 0 {}, deleteAll], s.fileSet.obsolete 0 1 = true
      ∧ ∃ gc ∈ s.gcs[0]?, gc.released = false ∧ 1 ∈ gc.inputs
      ∧ ∃ st ∈ s.fileSet.columnFamilies.lookup 0, ((gc.deleteEdit 5).batch.seal st).isOk = false
      ∧ ∃ s' ∈ s.step base128 (.fileSet (.getObsoleteFiles 1)),
        s'.fileSet.file 0 1 = none := by decide +kernel
  exact ⟨s, s', gc, st, hexec, hgc, hheld, hinput, hobsolete, hst, hrejected, hstep, hpurged⟩

end DiffKV
