/-
Discardable sizes, in memory and after recovery.

In memory every edit has a collector of its own, so every amount logged
for a live file is added to it. Recovery has one collector for all the
edits, and its `UpdateFile` keeps the first amount of a file. The two
agree only where the amounts after the first add up to nothing.
-/
import DiffKV.Proofs.Recovery
import Mathlib.Data.List.TakeWhile

namespace DiffKV

open Lib List BlobFileSet Option VersionEdit LogReader

variable {C : Coding} {fs : BlobFileSet} {e : VersionEdit} {es : List VersionEdit}

-- ==== the logged amounts

namespace VersionEdit

variable {i : UInt32} {n : UInt64}

/-- The amounts a list of edits logs for a file. -/
def amounts (es : List VersionEdit) (i : UInt32) (n : UInt64) : List UInt64 :=
  es.filterMap (·.amount i n)

/-- The file as the first edit that adds it has it. -/
def entering (es : List VersionEdit) (i : UInt32) (n : UInt64) : Option BlobFileMeta :=
  es.findSome? (·.added i n)

/-- The edits logged before the file was added. -/
def before (es : List VersionEdit) (i : UInt32) (n : UInt64) : List VersionEdit :=
  es.takeWhile fun e => ¬ e.Adds i n

/-- The edits from the one that adds the file on. -/
def since (es : List VersionEdit) (i : UInt32) (n : UInt64) : List VersionEdit :=
  es.dropWhile fun e => ¬ e.Adds i n

theorem amounts_split (es : List VersionEdit) (i : UInt32) (n : UInt64) :
    (amounts es i n).sum
      = (amounts (before es i n) i n).sum + (amounts (since es i n) i n).sum := by
  unfold amounts
  rw [← sum_append, ← filterMap_append]
  unfold before since
  rw [takeWhile_append_dropWhile]

/-- Once the file is added, later edits are all `since`. -/
theorem since_concat_of_adds (h : ∃ e ∈ es, e.Adds i n) (e : VersionEdit) :
    since (es ++ [e]) i n = since es i n ++ [e] := by
  unfold since
  obtain ⟨x, hx, hxa⟩ := h
  induction es with
  | nil => cases hx
  | cons y es ih =>
    rw [cons_append, dropWhile_cons, dropWhile_cons]
    by_cases hy : y.Adds i n
    · simp [hy]
    · rcases mem_cons.1 hx with rfl | hx
      · exact absurd hxa hy
      · simp only [hy, not_false_eq_true, decide_true, if_true]
        exact ih hx

/-- The edit that adds the file is the first of them. -/
theorem since_concat_of_not_adds (h : ∀ x ∈ es, ¬ x.Adds i n)
    (he : e.Adds i n) : since (es ++ [e]) i n = [e] := by
  unfold since
  rw [dropWhile_append]
  have : es.dropWhile (fun e => ¬ e.Adds i n) = [] := by
    rw [dropWhile_eq_nil_iff]
    intro x hx
    simpa using h x hx
  rw [this]
  simp [he]

end VersionEdit

/-- A live file's discardable size: what it entered with, and every
amount logged since. -/
def CountsSince (fs : BlobFileSet) (es : List VersionEdit) : Prop :=
  ∀ i n m, fs.live i n = some m →
    ∃ m₀, VersionEdit.entering es i n = some m₀
      ∧ m.discardableSize = m₀.discardableSize
        + (VersionEdit.amounts (VersionEdit.since es i n) i n).sum

theorem amounts_snapshotEdits (fs : BlobFileSet) (he : e ∈ fs.snapshotEdits)
    (i : UInt32) (n : UInt64) : e.amount i n = none := by
  have hupd : e.updatedDiscardableSize = Table.empty := by
    rcases mem_cons.1 he with rfl | he
    · rfl
    · obtain ⟨cf, -, rfl⟩ := mem_map.1 he
      rw [snapshotOf_eq]
  unfold amount
  rw [hupd]
  simp

theorem countsSince_snapshot (fs : BlobFileSet) (number : UInt64) :
    CountsSince (fs.snapshotted C number) fs.snapshotEdits := by
  intro i n m hm
  refine ⟨m, ?_, ?_⟩
  · rw [entering, added_snapshotEdits]
    rw [snapshotted_eq] at hm
    exact hm
  · have hnil : amounts (since fs.snapshotEdits i n) i n = [] := by
      unfold amounts
      rw [filterMap_eq_nil_iff]
      intro e he
      exact amounts_snapshotEdits fs ((dropWhile_sublist _).subset he) i n
    rw [hnil]
    simp

/-- Applying an edit to a file adds the amount logged for it. -/
private theorem discardable_update (e : VersionEdit) (n : UInt64) (m : BlobFileMeta) :
    (e.batch.update n m).discardableSize
      = m.discardableSize + (amounts [e] e.columnFamilyId n).sum := by
  have hamount : e.amount e.columnFamilyId n = e.updatedDiscardableSize.lookup n := if_pos rfl
  unfold amounts
  rw [e.batch_update, filterMap_cons, hamount]
  cases e.updatedDiscardableSize.lookup n <;> simp [BlobFileMeta.addDiscardableSize]

/-- One more edit, for a file that is there already. -/
private theorem countsSince_concat {i : UInt32} {n : UInt64}
    (h : ∃ e ∈ es, e.Adds i n) (e : VersionEdit) {m₀ : BlobFileMeta}
    (hm₀ : entering es i n = some m₀) :
    entering (es ++ [e]) i n = some m₀
      ∧ (amounts (since (es ++ [e]) i n) i n).sum
        = (amounts (since es i n) i n).sum + (amounts [e] i n).sum := by
  constructor
  · unfold entering at hm₀ ⊢
    rw [findSome?_append, hm₀]
    rfl
  · rw [since_concat_of_adds h]
    unfold amounts
    rw [filterMap_append, sum_append]

/-- An admitted edit keeps the count. -/
theorem countsSince_applied (h : Tracks C fs es) (hP : CountsSince fs es)
    (hadm : fs.Admits e) (hfresh : Tracks.Fresh es e) :
    CountsSince (fs.logAndApply C e .ok).2 (es ++ [e.setNextFileNumber fs.nextFileNumber]) := by
  intro i n m hm
  rw [live_applied hadm] at hm
  split at hm
  case isFalse hother =>
    -- another column family: nothing of this edit concerns the file
    obtain ⟨m₀, hm₀, hd⟩ := hP i n m hm
    obtain ⟨h1, h2⟩ := countsSince_concat (h.live_added i n (by rw [hm]; simp))
      (e.setNextFileNumber fs.nextFileNumber) hm₀
    have hopen : (fs.columnFamilies.lookup i).isSome = true := by
      by_contra hc
      have : fs.columnFamilies.lookup i = none := by simpa using hc
      simp [live, file, this] at hm
    have hnone : (e.setNextFileNumber fs.nextFileNumber).amount i n
        = none := if_neg fun hcf => hother ⟨hcf.symm, hopen⟩
    refine ⟨m₀, h1, ?_⟩
    rw [h2, hd]
    simp [amounts, hnone]
  case isTrue hown =>
    obtain ⟨rfl, -⟩ := hown
    split at hm
    case isTrue => cases hm
    case isFalse =>
      cases hl : fs.live e.columnFamilyId n with
      | some m₁ =>
        rw [hl] at hm
        obtain rfl : e.batch.update n m₁ = m := some.inj hm
        obtain ⟨m₀, hm₀, hd⟩ := hP _ n m₁ hl
        obtain ⟨h1, h2⟩ := countsSince_concat (h.live_added _ n (by rw [hl]; simp))
          (e.setNextFileNumber fs.nextFileNumber) hm₀
        refine ⟨m₀, h1, ?_⟩
        rw [h2, discardable_update, hd, UInt64.add_assoc]
        rfl
      | none =>
        rw [hl, none_or] at hm
        obtain ⟨m₁, hm₁, rfl⟩ := map_eq_some_iff.1 hm
        have hfind : e.addedFiles.find? (·.fileNumber = n) = some m₁ := (filter_eq_some_iff.1 hm₁).1
        have hadds : (e.setNextFileNumber fs.nextFileNumber).Adds e.columnFamilyId n :=
          ⟨rfl, mem_map.2 ⟨m₁, mem_of_find?_eq_some hfind, by simpa using find?_some hfind⟩⟩
        have hnot : ∀ x ∈ es, ¬ x.Adds e.columnFamilyId n :=
          fun x hx hxa => hfresh x hx hxa.1 n hadds.2 hxa.2
        refine ⟨m₁, ?_, ?_⟩
        · unfold entering
          rw [findSome?_append]
          have hnone : es.findSome? (·.added e.columnFamilyId n) = none := by
            rw [findSome?_eq_none_iff]
            intro x hx
            have := hnot x hx
            rw [adds_iff_added] at this
            simpa using this
          rw [hnone, none_or, findSome?_cons]
          have : (e.setNextFileNumber fs.nextFileNumber).added
              e.columnFamilyId n = some m₁ := (if_pos rfl).trans hfind
          rw [this]
        · rw [since_concat_of_not_adds hnot hadds, discardable_update]
          rfl

theorem countsSince_call {c : LogCall} (h : Tracks C fs es)
    (hP : CountsSince fs es) (hio : c.io = .ok) (hn : fs.nextFileNumber ≤ c.next)
    (hadm : fs.admits c.edit = true → c.edit.New ∧ Tracks.Fresh es c.edit) :
    CountsSince (fs.call C c).2 (es ++ fs.loggedBy c) :=
  Tracks.call_cases (P := CountsSince) hio hP fun ha hadmits =>
    countsSince_applied (h.atNext hn) hP hadmits (hadm ha).2

-- ==== after recovery

/-- **Discardable sizes through recovery.** In a run without I/O
failures, take a file that is live at its end. Its recovered discardable
size is the sum of the amounts the manifest logs for it, and that sum is
what the run added to it in memory, exactly when the amounts after the
first add up to zero and so do those logged before the file was added
(both modulo 2^64). -/
theorem recovered_discardable_iff {fs : BlobFileSet} {number : UInt64}
    {cs : List LogCall} (hrun : CleanRun C fs number cs) {i : UInt32}
    {n : UInt64} {m : BlobFileMeta}
    (hm : ((fs.snapshotted C number).calls C cs).live i n = some m) :
    let run := (fs.snapshotted C number).calls C cs
    let recovered := run.reopened.recoverEdits C
      (LogReader.intact run.records)
    let es := fs.snapshotEdits ++ (fs.snapshotted C number).logged C cs
    ∃ m₀ m', VersionEdit.entering es i n = some m₀ ∧ recovered.2.file i n = some m'
      ∧ ((m'.discardableSize = (VersionEdit.amounts es i n).sum
          ∧ m.discardableSize = m₀.discardableSize + (VersionEdit.amounts es i n).sum)
        ↔ ((VersionEdit.amounts es i n).tail.sum = 0
          ∧ (VersionEdit.amounts (VersionEdit.before es i n) i n).sum = 0)) := by
  intro run recovered es
  obtain ⟨htracks, hcounts⟩ := hrun.induct (P := CountsSince)
    (fun h hP hio hn _ hadm => countsSince_call h hP hio hn hadm) (countsSince_snapshot fs number)
  obtain ⟨m₀, hm₀, hd⟩ := hcounts i n m hm
  refine ⟨m₀, ((replayed es).cf i).update n m.persistent, hm₀, ?_, ?_⟩
  · rw [htracks.recoverEdits_reopened i n, hm]
    rfl
  · have hrec : (((replayed es).cf i).update n m.persistent).discardableSize
        = (amounts es i n).headD 0 := by
      unfold CFEditCollector.update
      rw [replayed_updated, ← amounts]
      cases amounts es i n with
      | nil => rfl
      | cons a l => simp [BlobFileMeta.addDiscardableSize]
    have hfirst : (amounts es i n).headD 0 = (amounts es i n).sum
        ↔ (amounts es i n).tail.sum = 0 := by
      cases amounts es i n with
      | nil => simp
      | cons a l =>
        exact eq_comm.trans UInt64.add_eq_left
    have hlater : m₀.discardableSize + (amounts (since es i n) i n).sum
          = m₀.discardableSize + (amounts es i n).sum ↔ (amounts (before es i n) i n).sum = 0 := by
      rw [amounts_split es i n, UInt64.add_right_inj]
      exact eq_comm.trans UInt64.add_eq_right
    rw [hrec, hd, hfirst, hlater]

/-- Two updates of file 1, of 10 and of 20. -/
def updateTwice : List LogCall :=
  [{ next := 3, edit := ({} : VersionEdit).updateBlobFile 1 10 },
   { next := 3, edit := ({} : VersionEdit).updateBlobFile 1 20 }]

/-- In memory both are counted; recovery has the first one only. -/
theorem recovered_discardable_updateTwice :
    let run := (oneFile.snapshotted base128 2).calls base128 updateTwice
    let recovered := run.reopened.recoverEdits base128
      (LogReader.intact run.records)
    recovered.1 = .ok ∧ (run.live 0 1).map (·.discardableSize) = some 30
      ∧ (recovered.2.live 0 1).map (·.discardableSize) = some 10 := by
  decide +kernel

/-- One update is recovered. -/
theorem recovered_discardable_updateOnce :
    let cs : List LogCall :=
      [{ next := 3, edit := ({} : VersionEdit).updateBlobFile 1 10 }]
    CleanRun base128 oneFile 2 cs
      ∧ ∃ m₀ m', VersionEdit.entering (oneFile.snapshotEdits
          ++ (oneFile.snapshotted base128 2).logged base128 cs) 0 1 = some m₀
        ∧ (((oneFile.snapshotted base128 2).calls base128
            cs).reopened.recoverEdits base128 (LogReader.intact
              ((oneFile.snapshotted base128 2).calls base128 cs).records)).2.file 0 1 = some m'
        ∧ m'.discardableSize = (VersionEdit.amounts (oneFile.snapshotEdits
          ++ (oneFile.snapshotted base128 2).logged base128 cs) 0 1).sum := by
  intro cs
  have hrun : CleanRun base128 oneFile 2 cs :=
    ⟨by decide, by decide, by decide, by decide +kernel, by decide +kernel⟩
  obtain ⟨m, hm⟩ : ∃ m, ((oneFile.snapshotted base128 2).calls base128
      cs).live 0 1 = some m := ⟨_, rfl⟩
  obtain ⟨m₀, m', h₀, h', hiff⟩ := recovered_discardable_iff hrun hm
  exact ⟨hrun, m₀, m', h₀, h', (hiff.2 ⟨by decide +kernel, by decide +kernel⟩).1⟩

end DiffKV
