/-
Whether a file that is obsolete stays so.

Two kinds of event are delivered without a look at the state of the
file: the pick of a GC job and the completion of a compaction. The picker
takes normal files only. A completion takes the files that only the
outputs of the compaction refer to, and nothing keeps a range deletion
from making one of these obsolete first: it is then normal again, and
still in the list of obsolete files.
-/
import DiffKV.Proofs.GcFiles

namespace DiffKV

open Lib

namespace GcFiles

variable {C : Coding} {s s' : GcFiles} {a : Act} {i : UInt32} {n : UInt64}

/-- A compaction that completes has no obsolete file among those only its
outputs refer to. -/
def SparesObsolete (C : Coding) (s : GcFiles) : Act → Prop
  | .compactionCompleted _ info => info.status.isOk = true →
      ((outputOnly C info).all fun n =>
        !s.fileSet.obsolete info.cfId n) = true
  | _ => True

instance (s : GcFiles) : (a : Act) → Decidable (s.SparesObsolete C a)
  | .compactionCompleted .. => inferInstanceAs (Decidable (_ → _))
  | .fileSet _ => isTrue trivial
  | .pick .. => isTrue trivial
  | .installOutputs .. => isTrue trivial
  | .finish .. => isTrue trivial
  | .computeGCScore _ => isTrue trivial
  | .flushCompleted _ => isTrue trivial
  | .settleRanges .. => isTrue trivial

/-- No unguarded event reaches an obsolete file. -/
theorem SparesObsolete.unguarded (h : s.SparesObsolete C a)
    (hn : s.stateOf i n = some .kObsolete) (e : FileEvent) : ¬ s.Unguarded C i a n e := by
  intro hE
  cases a with
  | pick cfId options =>
    obtain ⟨-, rfl, st, files, triggerNext, hst, hpick, hmem⟩ := hE
    rw [stateOf_of_lookup hst, BlobStorage.mem_pickBlobGC hpick hmem] at hn
    cases hn
  | compactionCompleted env info =>
    obtain ⟨-, rfl, hok, hmem⟩ := hE
    have hlive := List.all_eq_true.1 (h hok) n hmem
    rw [(obsolete_iff_stateOf n).2 hn] at hlive
    cases hlive
  | _ => exact hE

/-- The events delivered after those leave an obsolete file obsolete. -/
theorem Guarded.obsolete {e : FileEvent} (h : s.Guarded C i a n e) :
    FileState.next .kObsolete e = .kObsolete := by
  cases a with
  | finish j deletion =>
    obtain ⟨rfl, -⟩ := h
    rfl
  | flushCompleted info =>
    obtain ⟨rfl, -⟩ := h
    rfl
  | compactionCompleted env info =>
    rcases h with rfl | rfl
    · rfl
    · rfl
  | settleRanges env cfId sizes =>
    obtain rfl := h
    rfl
  | _ => exact h.elim

/-- A step that spares the obsolete files keeps the lists. -/
theorem listed_step (h : s.fileSet.Listed) (hcond : s.SparesObsolete C a)
    (hstep : s.step C a = some s') : s'.fileSet.Listed := by
  intro i st' hst'
  have hfate := fate hstep i
  have hunguarded : ∀ st, s.fileSet.columnFamilies.lookup i = some st →
      ∀ n, st.obsolete n = true → ∀ e, ¬ s.Unguarded C i a n e := by
    intro st hst n hn
    refine hcond.unguarded ?_
    rw [stateOf_of_lookup hst]
    exact BlobStorage.obsolete_iff_stateOf.1 hn
  rw [hst'] at hfate
  cases hst : s.fileSet.columnFamilies.lookup i with
  | none =>
    rw [hst] at hfate
    cases hfate with
    | changes first rest =>
      cases first
      cases rest
  | some st =>
    have hlisted := h i st hst
    rw [hst] at hfate
    generalize ho : some st' = o' at hfate
    cases hfate with
    | changes first rest =>
      cases first with
      | some first =>
        cases rest with
        | some rest =>
          cases ho
          exact (hlisted.events first (hunguarded st hst)).changes rest fun n e he => he.obsolete
    | destroy ha =>
      obtain rfl := BlobFileSet.eq_of_orErased ho.symm
      exact ⟨hlisted.nodup, hlisted.obsolete⟩
    | purge ha =>
      obtain rfl := BlobFileSet.eq_of_orErased ho.symm
      exact hlisted.getObsoleteFiles _

/-- And each obsolete file stays obsolete for as long as it is there. -/
theorem obsolete_step (hcond : s.SparesObsolete C a)
    (hstep : s.step C a = some s') (hn : s.fileSet.obsolete i n = true) :
    s'.fileSet.file i n = none ∨ s'.fileSet.obsolete i n = true := by
  rw [obsolete_iff_stateOf] at hn ⊢
  by_cases hkeeps : a.Keeps
  case pos =>
    obtain ⟨f, hf, rfl⟩ := stateOf_step (S := (· = .kObsolete)) hstep hkeeps
      (fun e he => absurd he (hcond.unguarded hn e))
      (fun e he f hf => by rw [hf]; exact he.obsolete) (.inl rfl) ⟨_, hn, rfl⟩
    exact .inr hf
  case neg =>
    rcases stateOf_of_not_keeps hkeeps hstep i n with hnone | hsame
    · rw [stateOf_eq, Option.map_eq_none_iff] at hnone
      exact .inl hnone
    · exact .inr (hsame.trans hn)

/-- In every run in which no completed compaction has an obsolete file
among those only its outputs refer to: the files listed as obsolete are
obsolete, and the next step leaves every obsolete file obsolete, or it
is no longer in the storage. -/
theorem obsolete_final {s₀ s : GcFiles} {acts : List Act} (hlisted : s₀.fileSet.Listed)
    (hmeets : Meets (step C) (SparesObsolete C) s₀ acts) (hexec : exec (step C) s₀ acts = some s) :
    (∀ i st, s.fileSet.columnFamilies.lookup i = some st →
      ∀ n ∈ st.obsoleteFiles.map Prod.fst, st.obsolete n = true)
    ∧ ∀ a s', s.SparesObsolete C a → s.step C a = some s' →
      ∀ i n, s.fileSet.obsolete i n = true →
        s'.fileSet.file i n = none ∨ s'.fileSet.obsolete i n = true := by
  have hend : s.fileSet.Listed :=
    exec_keeps (I := fun s => s.fileSet.Listed) listed_step hlisted hmeets hexec
  refine ⟨fun i st hst => (hend i st hst).obsolete, ?_⟩
  intro a s' hcond hstep i n hn
  exact obsolete_step hcond hstep hn

end GcFiles

/-- A compaction has built the file 1. -/
def addPending : GcFiles.Act :=
  .fileSet (.logAndApply { addedFiles := [{ fileNumber := 1, state := .kPendingLSM }] } .ok)

/-- The property of a table that refers to the file 1. -/
def refersToOne : Bytes :=
  BlobFileSizeCollector.encode base128 (Table.empty.insert 1 10)

/-- The compaction completes. -/
def completeOne : GcFiles.Act :=
  .compactionCompleted {} {
    cfId := 0
    inputFiles := []
    outputFiles := ["sst"]
    tableProperties := Table.empty.insert "sst" (some refersToOne) }

/-- All blob files are deleted. -/
def deleteAll : GcFiles.Act :=
  .fileSet (.deleteBlobFilesInRanges 0 [⟨none, none⟩] false 0 .ok)

/-- A flush is reported that refers to the file. -/
def flushOne : GcFiles.Act :=
  .flushCompleted { cfId := 0, property := some refersToOne }

/-- The files are deleted after the compaction has completed, and the
flush is reported on top. -/
theorem completeOne_obsolete_final :
    ∃ s s', exec (GcFiles.step base128) { fileSet := opened }
        [addPending, completeOne, deleteAll] = some s ∧ s.step base128 flushOne = some s'
      ∧ s.fileSet.obsolete 0 1 = true
      ∧ (s'.fileSet.file 0 1 = none ∨ s'.fileSet.obsolete 0 1 = true) := by
  obtain ⟨s, hexec, hobs⟩ : ∃ s ∈ exec (GcFiles.step base128)
      { fileSet := opened } [addPending, completeOne, deleteAll],
      s.fileSet.obsolete 0 1 = true := by decide +kernel
  refine ⟨s, _, hexec, rfl, hobs, ?_⟩
  exact (GcFiles.obsolete_final (C := base128) listed_opened
    (by decide +kernel) hexec).2 flushOne _ trivial rfl 0 1 hobs

/-- They are deleted before: the completion makes the file normal, and it
is still listed as obsolete. -/
theorem completeOne_revives :
    ∃ s s' st, exec (GcFiles.step base128) { fileSet := opened } [addPending, deleteAll] = some s
      ∧ s.fileSet.obsolete 0 1 = true ∧ s.step base128 completeOne = some s'
      ∧ s'.fileSet.columnFamilies.lookup 0 = some st ∧ st.stateOf 1 = some .kNormal
      ∧ 1 ∈ st.obsoleteFiles.map Prod.fst := by
  obtain ⟨s, hexec, hobs, s', hstep, st, hst, hstate, hlisted⟩ :
      ∃ s ∈ exec (GcFiles.step base128) { fileSet := opened }
        [addPending, deleteAll], s.fileSet.obsolete 0 1 = true
      ∧ ∃ s' ∈ s.step base128 completeOne,
        ∃ st ∈ s'.fileSet.columnFamilies.lookup 0, st.stateOf 1 = some .kNormal
          ∧ 1 ∈ st.obsoleteFiles.map Prod.fst := by decide +kernel
  exact ⟨s, s', st, hexec, hobs, hstep, hst, hstate, hlisted⟩

end DiffKV
