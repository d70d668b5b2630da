/-
The GC scores of a storage name files that are there.

`gc_score_` is a copy of file numbers that only `ComputeGCScore` renews.
Files leave a storage in a purge, which removes those listed as obsolete.
These have been marked by an edit, and an edit ends with
`ComputeGCScore`, which passes over obsolete files. So a listed file is
not scored from the moment it is listed: `ScoresSound` is the invariant,
and a purge is the only operation for which it has anything to do.
-/
import DiffKV.Proofs.Retirement
import DiffKV.Proofs.GcPicker

namespace DiffKV

open Lib List

namespace BlobStorage

variable {st st' : BlobStorage} {P : VersionEdit → Prop}

/-- Each score names a file of the storage that is not obsolete, no two
the same. -/
structure ScoresLive (st : BlobStorage) : Prop where
  nodup : (st.gcScore.map GCScore.fileNumber).Nodup
  live : ∀ e ∈ st.gcScore, ∃ m, st.findFile e.fileNumber = some m ∧ m.isObsolete = false

/-- What the operations on a storage keep. -/
structure ScoresSound (st : BlobStorage) : Prop extends Listed st where
  scores : st.ScoresLive

/-- `ComputeGCScore` makes it so, whatever the scores were. -/
theorem scoresLive_computeGCScore (st : BlobStorage) : st.computeGCScore.ScoresLive := by
  have hperm : st.computeGCScore.gcScore.Perm
      ((st.files.entries.filter st.scored).map st.gcScoreOf) := mergeSort_perm ..
  refine ⟨?_, fun e he => ?_⟩
  · rw [(hperm.map GCScore.fileNumber).nodup_iff, map_map]
    exact st.files.nodup.sublist (filter_sublist.map _)
  · obtain ⟨m, hm, rfl⟩ := mem_map.1 (hperm.mem_iff.1 he)
    obtain ⟨hmem, hscored⟩ := mem_filter.1 hm
    refine ⟨m, Table.find_of_mem hmem, ?_⟩
    unfold scored at hscored
    rw [Bool.not_eq_true', Bool.or_eq_false_iff] at hscored
    exact hscored.1

theorem ScoresSound.computeGCScore (h : st.ScoresSound) :
    st.computeGCScore.ScoresSound := ⟨⟨h.nodup, h.obsolete⟩, scoresLive_computeGCScore st⟩

/-- An edit ends with `ComputeGCScore`. -/
theorem ScoresSound.applied (h : st.ScoresSound)
    (happlied : Applied P st st') : st'.ScoresSound := by
  refine ⟨h.toListed.applied happlied, ?_⟩
  obtain ⟨e, -, -, hfits, rfl⟩ := happlied
  rw [CFEditCollector.apply_eq hfits]
  exact scoresLive_computeGCScore _

theorem gcScore_foldl_removeFile (l : List UInt64) (st : BlobStorage) :
    (l.foldl removeFile st).gcScore = st.gcScore := by
  induction l generalizing st with
  | nil => rfl
  | cons n l ih =>
    rw [foldl_cons, ih]
    unfold removeFile
    cases st.files.find n <;> rfl

/-- A purge removes listed files, and these are not scored. -/
theorem ScoresSound.getObsoleteFiles (h : st.ScoresSound)
    (q : SequenceNumber) : (st.getObsoleteFiles q).2.ScoresSound := by
  have hsame : (st.getObsoleteFiles q).2.gcScore = st.gcScore := gcScore_foldl_removeFile _ st
  refine ⟨h.toListed.getObsoleteFiles q, ?_, fun e he => ?_⟩
  · rw [hsame]
    exact h.scores.nodup
  · rw [hsame] at he
    obtain ⟨m, hm, hlive⟩ := h.scores.live e he
    refine ⟨m, ?_, hlive⟩
    rw [findFile_getObsoleteFiles, if_neg, hm]
    intro hremoved
    obtain ⟨s, hs, -⟩ := mem_getObsoleteFiles hremoved
    have hobsolete := h.obsolete _ (mem_map_of_mem hs)
    unfold BlobStorage.obsolete at hobsolete
    rw [hm, Option.any_some, hlive] at hobsolete
    cases hobsolete

/-- A storage without obsolete files that has no scores, as constructed,
or has just been scored, as recovered. -/
theorem ScoresSound.of_start (hlist : st.obsoleteFiles = [])
    (hscores : st.gcScore = [] ∨ st.gcScore = st.computeGCScore.gcScore) : st.ScoresSound := by
  have hlisted : st.Listed := by
    constructor
    · rw [hlist]
      exact nodup_nil
    · rw [hlist]
      exact forall_mem_nil _
  refine ⟨hlisted, ?_⟩
  rcases hscores with hnil | hscored
  · constructor
    · rw [hnil]
      exact nodup_nil
    · rw [hnil]
      exact forall_mem_nil _
  · obtain ⟨hnodup, hlive⟩ := scoresLive_computeGCScore st
    exact ⟨hscored ▸ hnodup, hscored ▸ hlive⟩

/-- The loop of `PickBlobGC` finds every file it looks for. -/
theorem ScoresLive.pickBlobGC_isSome (h : st.ScoresLive)
    (options : GcBatchOptions) : (st.pickBlobGC options).isSome = true := by
  have hscored : ∀ e ∈ st.gcScore, (st.findFile e.fileNumber).isSome = true := by
    intro e he
    obtain ⟨m, hm, -⟩ := h.live e he
    rw [hm]
    rfl
  obtain ⟨picked, hloop, -⟩ := pickLoop_fill options {} rfl st.gcScore hscored
  unfold pickBlobGC
  rw [hloop]
  dsimp only
  split <;> rfl

end BlobStorage

namespace GcFiles

variable {C : Coding} {s s' : GcFiles} {a : Act}

/-- The steps of the file set itself: edits, range deletions, drops and
purges; and `ComputeGCScore`. -/
def Act.OnFileSet : Act → Prop
  | .fileSet _ | .computeGCScore _ => True
  | _ => False

/-- The invariant of all storages. -/
def ScoresSound (s : GcFiles) : Prop :=
  ∀ i st, s.fileSet.columnFamilies.lookup i = some st → st.ScoresSound

theorem ScoresSound.step (h : s.ScoresSound) (ha : a.OnFileSet)
    (hstep : s.step C a = some s') : s'.ScoresSound := by
  cases a with
  | fileSet op =>
    obtain ⟨fs', hact, rfl⟩ := Option.map_eq_some_iff.1 hstep
    exact BlobFileSet.each_act (P := fun _ st => st.ScoresSound)
      (fun _ _ happlied hst => hst.applied happlied)
      (fun _ _ hst => ⟨⟨hst.nodup, hst.obsolete⟩, hst.scores.nodup, hst.scores.live⟩)
      (fun _ hst => hst.getObsoleteFiles _) h hact
  | computeGCScore cfId =>
    cases hstep
    intro i st hst
    rw [BlobFileSet.lookup_onStorage] at hst
    split at hst
    · obtain ⟨st, hold, rfl⟩ := Option.map_eq_some_iff.1 hst
      exact (h i st hold).computeGCScore
    · exact h i st hst
  | pick => exact ha.elim
  | installOutputs => exact ha.elim
  | finish => exact ha.elim
  | flushCompleted => exact ha.elim
  | compactionCompleted => exact ha.elim
  | settleRanges => exact ha.elim

/-- **Scores name live files.** After any run of edits, range deletions,
purges and computations of the scores, from storages as constructed or
recovered on, every score names a file that is in the storage and not
obsolete, no two the same; so `PickBlobGC` reads no missing file. -/
theorem scores_name_live_files {s₀ : GcFiles} {acts : List Act}
    (hstart : ∀ i st, s₀.fileSet.columnFamilies.lookup i = some st →
      st.obsoleteFiles = [] ∧ (st.gcScore = [] ∨ st.gcScore = st.computeGCScore.gcScore))
    (hacts : ∀ a ∈ acts, a.OnFileSet) (hexec : exec (step C) s₀ acts = some s) {i : UInt32}
    {st : BlobStorage} (hst : s.fileSet.columnFamilies.lookup i = some st) :
    st.ScoresLive ∧ ∀ options, (st.pickBlobGC options).isSome = true := by
  have hsound : s₀.ScoresSound := fun i st hst =>
    .of_start (hstart i st hst).1 (hstart i st hst).2
  have hrun : s.ScoresSound :=
    exec_keeps (fun h ha hstep => h.step ha hstep) hsound (meets_of_forall hacts s₀) hexec
  have hlive := (hrun i st hst).scores
  exact ⟨hlive, hlive.pickBlobGC_isSome⟩

end GcFiles

/-- Two files are added and one of them deleted and purged. -/
def purgeOne : List GcFiles.Act :=
  [.fileSet addTwo, .computeGCScore 0, .fileSet (.logAndApply { deletedFiles := [(1, 5)] } .ok),
    .fileSet (.getObsoleteFiles 6)]

/-- The other one is left, and nothing else is scored. -/
theorem purgeOne_scores :
    ∃ s st, exec (GcFiles.step base128) { fileSet := opened } purgeOne = some s
      ∧ s.fileSet.columnFamilies.lookup 0 = some st
      ∧ st.files.entries.map BlobFileMeta.fileNumber = [2]
      ∧ st.ScoresLive ∧ (st.pickBlobGC {}).isSome = true := by
  obtain ⟨s, hexec, st, hst, hfiles⟩ :
      ∃ s ∈ exec (GcFiles.step base128) { fileSet := opened } purgeOne,
      ∃ st ∈ s.fileSet.columnFamilies.lookup 0,
        st.files.entries.map BlobFileMeta.fileNumber = [2] := by decide +kernel
  have hstart : ∀ i st, opened.columnFamilies.lookup i = some st →
      st.obsoleteFiles = [] ∧ (st.gcScore = [] ∨ st.gcScore = st.computeGCScore.gcScore) := by
    intro i st hst
    rw [lookup_opened hst]
    exact ⟨rfl, .inl rfl⟩
  have hscores := GcFiles.scores_name_live_files hstart
    (by simp [purgeOne, GcFiles.Act.OnFileSet]) hexec hst
  exact ⟨s, st, hexec, hst, hfiles, hscores.1, hscores.2 {}⟩

end DiffKV
