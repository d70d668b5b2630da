/-
Which files are marked for a merge or for GC.

A file marked `kToMerge` or `kToGC` is left to compactions, and these
rewrite sorted files only: an unsorted file must not be marked. Three
call sites mark files. The completion of a compaction looks at the type
of a file before either mark; the end of `DeleteFilesInRanges` does not.

`Retains` relates the files before and after an operation: the types
stay, and no unsorted file is marked. Everything but the end of a range
deletion and the additions of edits is a composition of such operations;
the end of a range deletion is one exactly if no unsorted file it charges
goes over its ratio.
-/
import DiffKV.Proofs.GcInputs
import DiffKV.Proofs.CompactionEdits
import DiffKV.Proofs.RangeMerge

namespace DiffKV

open Lib Relation List Table BlobFileSet BlobStorage BlobFileMeta SizeDiff Option

variable {C : Coding} {st st' : BlobStorage} {fs fs' : BlobFileSet}
  {m : BlobFileMeta} {e : FileEvent}

-- ==== the files

/-- An unsorted file is not marked for a merge or for GC. -/
def BlobFileMeta.Collectable (m : BlobFileMeta) : Prop :=
  m.fileType = kUnSorted → m.state ≠ .kToMerge ∧ m.state ≠ .kToGC

/-- The file is the same one, and not marked if it is unsorted. -/
structure BlobFileMeta.Retains (m m' : BlobFileMeta) : Prop where
  fileType : m'.fileType = m.fileType
  collectable : m.Collectable → m'.Collectable

/-- The events that mark a file. -/
def FileEvent.Marks (e : FileEvent) : Prop :=
  e = .kNeedMerge ∨ e = .kNeedGC

instance (e : FileEvent) : Decidable e.Marks :=
  inferInstanceAs (Decidable (_ ∨ _))

namespace BlobFileMeta

variable {m' m'' : BlobFileMeta}

theorem Retains.refl (m : BlobFileMeta) : m.Retains m := ⟨rfl, id⟩

theorem Retains.trans (h : m.Retains m') (h' : m'.Retains m'') :
    m.Retains m'' := ⟨h'.fileType.trans h.fileType, fun hm => h'.collectable (h.collectable hm)⟩

theorem collectable_of_sorted (h : m.fileType = kSorted) : m.Collectable := by
  intro hunsorted
  rw [h] at hunsorted
  exact absurd hunsorted (by decide)

/-- A sorted file may be marked. -/
theorem retains_of_sorted (h : m.fileType = kSorted) (e : FileEvent) :
    m.Retains (m.fileStateTransit e) := ⟨rfl, fun _ => collectable_of_sorted h⟩

/-- The other events leave no mark that was not there. -/
theorem retains_transit (he : ¬ e.Marks) : m.Retains (m.fileStateTransit e) := by
  refine ⟨rfl, fun hm hunsorted => ?_⟩
  have hstate := hm hunsorted
  unfold FileEvent.Marks at he
  unfold fileStateTransit FileState.next
  cases e <;> grind

theorem retains_addDiscardableSize (m : BlobFileMeta) (d : UInt64) :
    m.Retains (m.addDiscardableSize d) := ⟨rfl, id⟩

end BlobFileMeta

-- ==== one storage

namespace BlobStorage

variable {st'' : BlobStorage}

/-- Every file after was there before and is retained. -/
def Retains (st st' : BlobStorage) : Prop :=
  ∀ n m', st'.findFile n = some m' → ∃ m, st.findFile n = some m ∧ m.Retains m'

theorem Retains.refl (st : BlobStorage) : st.Retains st := fun _ m' hm' => ⟨m', hm', .refl m'⟩

theorem Retains.trans (h : st.Retains st') (h' : st'.Retains st'') : st.Retains st'' := by
  intro n m'' hm''
  obtain ⟨m', hm', hlast⟩ := h' n m'' hm''
  obtain ⟨m, hm, hfirst⟩ := h n m' hm'
  exact ⟨m, hm, hfirst.trans hlast⟩

/-- Touches that mark sorted files only. -/
theorem Retains.of_touches {E : UInt64 → FileEvent → Prop}
    (h : Touches E st st') (hE : ∀ n e, E n e → ¬ e.Marks ∨ st.SortedAt n) : st.Retains st' := by
  induction h with
  | refl => exact .refl st
  | @tail b c _ hlast ih =>
    refine ih.trans fun n m' hm' => ?_
    cases hlast with
    | @event k e hevent =>
      rw [findFile_transit] at hm'
      split at hm'
      case isFalse => exact ⟨m', hm', .refl m'⟩
      case isTrue hn =>
        subst hn
        obtain ⟨m, hm, rfl⟩ := map_eq_some_iff.1 hm'
        refine ⟨m, hm, ?_⟩
        rcases hE n e hevent with hmarks | hsorted
        · exact retains_transit hmarks
        · obtain ⟨m₀, hm₀, hsame⟩ := ih n m hm
          exact retains_of_sorted (hsame.fileType.trans (hsorted m₀ hm₀)) e
    | frame hkind =>
      have hkind := congrFun hkind n
      unfold kindOf at hkind
      rw [hm'] at hkind
      obtain ⟨m, hm, heq⟩ := map_eq_some_iff.1 hkind.symm
      obtain ⟨hstate, htype⟩ := Prod.mk.inj heq
      exact ⟨m, hm, htype.symm, fun h hunsorted =>
        hstate ▸ h (htype.trans hunsorted)⟩

theorem Retains.of_event (he : ¬ e.Marks)
    (h : Touches (fun _ x => x = e) st st') : st.Retains st' :=
  .of_touches h fun _ _ hx => .inl (hx ▸ he)

theorem Retains.sortedAt (h : st.Retains st') {n : UInt64}
    (hsorted : st.SortedAt n) : st'.SortedAt n := by
  intro m' hm'
  obtain ⟨m, hm, hsame⟩ := h n m' hm'
  rw [hsame.fileType]
  exact hsorted m hm

/-- The sweep marks files it is given. -/
theorem retains_markFileIfNeedMerge {sortEnds : List BlobEnd → List BlobEnd}
    (hsort : ∀ ends, (sortEnds ends).Perm ends) (maxSortedRuns : Int)
    {files : List UInt64} (hfiles : ∀ n ∈ files, st.SortedAt n) :
    st.Retains (st.markFileIfNeedMerge sortEnds maxSortedRuns files) := by
  refine .of_touches (E := fun n _ => n ∈ files) (touches_foldl_transit _ st fun n hn => ?_)
    fun n _ hn => .inr (hfiles n hn)
  obtain ⟨p, e, q, hends, -, rfl, -⟩ := (mem_sweepEnds ..).1 hn
  have he : e ∈ blobEnds (files.filterMap st.findFile) := by
    refine (hsort _).mem_iff.1 (hends ▸ ?_)
    exact mem_append_right _ mem_cons_self
  obtain ⟨k, hk, hfind⟩ := mem_filterMap.1 (mem_blobEnds.1 he)
  have hnumber : e.1.fileNumber = k := key_of_find hfind
  exact hnumber ▸ hk

end BlobStorage

-- ==== the file set

namespace BlobFileSet

variable {fs'' : BlobFileSet}

/-- No unsorted file is marked for a merge or for GC. -/
def Collectable (fs : BlobFileSet) : Prop :=
  ∀ i n m, fs.file i n = some m → m.Collectable

/-- Every file after was there before and is retained. -/
def Retains (fs fs' : BlobFileSet) : Prop :=
  ∀ i n m', fs'.file i n = some m' → ∃ m, fs.file i n = some m ∧ m.Retains m'

theorem Retains.refl (fs : BlobFileSet) : fs.Retains fs := fun _ _ m' hm' => ⟨m', hm', .refl m'⟩

theorem Retains.trans (h : fs.Retains fs') (h' : fs'.Retains fs'') : fs.Retains fs'' := by
  intro i n m'' hm''
  obtain ⟨m', hm', hlast⟩ := h' i n m'' hm''
  obtain ⟨m, hm, hfirst⟩ := h i n m' hm'
  exact ⟨m, hm, hfirst.trans hlast⟩

theorem Collectable.retains (h : fs.Collectable) (hretains : fs.Retains fs') : fs'.Collectable := by
  intro i n m' hm'
  obtain ⟨m, hm, hsame⟩ := hretains i n m' hm'
  exact hsame.collectable (h i n m hm)

theorem Retains.of_storage {i : UInt32} (h : fs.Retains fs')
    (hst : fs.columnFamilies.lookup i = some st)
    (hst' : fs'.columnFamilies.lookup i = some st') : st.Retains st' := by
  intro n m' hm'
  obtain ⟨m, hm, hsame⟩ := h i n m' (by rw [file_of_lookup hst', hm'])
  rw [file_of_lookup hst] at hm
  exact ⟨m, hm, hsame⟩

theorem retains_onStorage {j : UInt32} {f : BlobStorage → BlobStorage}
    (h : ∀ st, fs.columnFamilies.lookup j = some st → st.Retains (f st)) :
    fs.Retains (fs.onStorage j f) := by
  intro i n m' hm'
  rw [file_onStorage] at hm'
  split at hm'
  case isTrue hi =>
    subst hi
    obtain ⟨st, hst, hm'⟩ := bind_eq_some_iff.1 hm'
    rw [file_of_lookup hst]
    exact h st hst n m' hm'
  case isFalse => exact ⟨m', hm', .refl m'⟩

/-- What an edit that adds no file makes of a file. -/
theorem retains_edited (e : VersionEdit) (n : UInt64) (m : BlobFileMeta) :
    m.Retains (edited e n m) := by
  unfold edited
  split
  · exact (retains_transit (by decide)).trans (retains_addDiscardableSize _ _)
  · exact retains_addDiscardableSize _ _

theorem retains_deletion {e : VersionEdit} (hadd : e.addedFiles = [])
    (io : ManifestIO) : fs.Retains (fs.logAndApply C e io).2 := by
  intro i n m' hm'
  by_cases happlies : fs.Admits e ∧ io = .ok
  case neg =>
    rw [file_of_not_applied happlies] at hm'
    exact ⟨m', hm', .refl m'⟩
  case pos =>
    obtain ⟨hadm, rfl⟩ := happlies
    rw [file_deletion hadd hadm] at hm'
    split at hm'
    case isTrue =>
      obtain ⟨m, hm, rfl⟩ := map_eq_some_iff.1 hm'
      exact ⟨m, hm, retains_edited e n m⟩
    case isFalse => exact ⟨m', hm', .refl m'⟩

end BlobFileSet

/-- No unsorted file of the storage is marked. -/
def BlobStorage.Collectable (st : BlobStorage) : Prop :=
  ∀ n m, st.findFile n = some m → m.Collectable

/-- An edit that adds no marked unsorted file. -/
theorem BlobStorage.Collectable.applied {P : VersionEdit → Prop}
    (h : st.Collectable) (happlied : BlobStorage.Applied P st st')
    (hP : ∀ e, P e → ∀ m ∈ e.addedFiles, m.Collectable) : st'.Collectable := by
  obtain ⟨e, he, -, hedited, -⟩ := happlied.edited
  intro n m' hm'
  -- the counter is not looked at
  have hcharge : ∀ m : BlobFileMeta, m.uncharged.Collectable ↔ m.Collectable := fun _ => Iff.rfl
  have hcases := hedited.cases n
  rw [hm', map_some] at hcases
  rw [← hcharge]
  rcases hcases with ⟨m, hm, -, -, heq⟩ | ⟨m, -, -, -, heq⟩ | ⟨-, heq⟩
  · rw [some.inj heq, hcharge]
    exact hP e he m (mem_filter.1 hm).1
  · rw [some.inj heq]
    intro _
    exact ⟨nofun, nofun⟩
  · obtain ⟨m, hm, heq⟩ := map_eq_some_iff.1 heq.symm
    rw [← heq, hcharge]
    exact h n m hm

namespace BlobFileSet

/-- The files an operation adds. -/
def AddsCollectable : FileSetOp → Prop
  | .logAndApply edit _ => ∀ m ∈ edit.addedFiles, m.Collectable
  | _ => True

theorem Collectable.act {op : FileSetOp} (h : fs.Collectable)
    (hop : AddsCollectable op) (hstep : fs.act C op = some fs') : fs'.Collectable := by
  have hadded : ∀ e, fs.Issues op e → ∀ m ∈ e.addedFiles, m.Collectable := by
    intro e he m hm
    cases op with
    | logAndApply edit io => exact hop m (he ▸ hm)
    | dropColumnFamilies cfs s =>
      rw [he.1] at hm
      cases hm
    | deleteBlobFilesInRanges cfId ranges includeEnd s io =>
      obtain ⟨st, files, -, -, rfl⟩ := he
      rw [rangeEdit_eq] at hm
      cases hm
    | maybeDestroyColumnFamily cfId => exact he.elim
    | getObsoleteFiles s => exact he.elim
  have hpurge : ∀ (st : BlobStorage) (q : SequenceNumber),
      st.Collectable → (st.getObsoleteFiles q).2.Collectable := by
    intro st q hst n m hm
    rw [findFile_getObsoleteFiles] at hm
    split at hm
    · cases hm
    · exact hst n m hm
  have heach := each_act (P := fun _ st => st.Collectable)
    (fun _ _ happlied hst => hst.applied happlied fun e he => hadded e he.2)
    (fun _ _ hst => hst) (fun _ hst => hpurge _ _ hst)
    (fun i st hst n m hm => h i n m (by rw [file_of_lookup hst, hm])) hstep
  intro i n m hm
  obtain ⟨st, hst, hm⟩ := bind_eq_some_iff.1 hm
  exact heach i st hst n m hm

end BlobFileSet

/-- The completion of a compaction, as long as the sort is one. -/
theorem retains_onCompactionCompleted {env : CompactionEnv}
    (hsort : ∀ ends, (env.sortEnds ends).Perm ends) (fs : BlobFileSet) (info : CompactionJobInfo) :
    fs.Retains (onCompactionCompleted C env fs info).2 := by
  cases hok : info.status.isOk with
  | false =>
    rw [onCompactionCompleted, hok]
    exact .refl fs
  | true =>
    cases hst : fs.getBlobStorage info.cfId with
    | none =>
      rw [onCompactionCompleted, hok, hst]
      exact .refl fs
    | some st =>
      obtain ⟨⟨found, st₁⟩, hcomplete⟩ : ∃ r, completeOutputs st
        (calcBfs C info).outputs.entries = r := ⟨_, rfl⟩
      have houtputs : st.Retains st₁ := by
        rw [show st₁ = _ from congrArg Prod.snd hcomplete.symm]
        exact .of_event (by decide) (touches_completeOutputs st _ fun _ _ => rfl)
      cases found with
      | false =>
        rw [onCompactionCompleted_missing env hok hst hcomplete]
        refine retains_onStorage fun st' hst' => ?_
        obtain rfl : st = st' := some.inj (hst.symm.trans hst')
        exact houtputs
      | true =>
        rw [onCompactionCompleted_eq env hok hst hcomplete]
        have hst : fs.columnFamilies.lookup info.cfId = some st := hst
        obtain ⟨htouches, hsorted⟩ := touches_chargeStorage
          (E := fun n _ => st₁.SortedAt n) env info (calcBfs C info).diff st₁ fun _ => id
        have hcharge := BlobStorage.Retains.of_touches htouches fun _ _ => .inr
        have hadded : (chargeStorage env info
            (calcBfs C info).diff st₁).edit.addedFiles = [] := (frame_chargeStorage ..).1
        generalize chargeStorage env info (calcBfs C info).diff st₁ = a at hcharge hsorted hadded
        have hcharged : fs.Retains (fs.onStorage info.cfId fun _ => a.storage) := by
          refine retains_onStorage fun st' hst' => ?_
          obtain rfl := some.inj (hst.symm.trans hst')
          exact houtputs.trans hcharge
        split
        case isFalse => exact hcharged
        case isTrue =>
          -- the sorted runs are still sorted after the edit
          have hedit : (fs.onStorage info.cfId fun _ => a.storage).Retains
              ((fs.onStorage info.cfId fun _ => a.storage).logAndApply C a.edit env.io).2 :=
            retains_deletion hadded env.io
          have hlookup : (fs.onStorage info.cfId
              fun _ => a.storage).columnFamilies.lookup info.cfId = some a.storage := by
            rw [lookup_onStorage, if_pos rfl, hst]
            rfl
          refine (hcharged.trans hedit).trans (retains_onStorage fun st₂ hst₂ => ?_)
          exact retains_markFileIfNeedMerge hsort _
            fun n hn => (hcharge.trans (hedit.of_storage hlookup hst₂)).sortedAt (hsorted n hn)

-- ==== the end of range deletion

namespace BlobFileSet

variable {env : RangeSettleEnv} {cfId : UInt32} {sizes : BlobFilesSize} {d : UInt64}

/-- No unsorted file that is charged goes over its ratio with live data
left, obsolete ones apart. -/
def SparesUnsorted (fs : BlobFileSet) (env : RangeSettleEnv) (cfId : UInt32)
    (sizes : BlobFilesSize) : Prop :=
  ((fs.columnFamilies.lookup cfId).all fun st =>
    sizes.entries.all fun f => (st.findFile f.1).all fun m =>
      !(m.fileType == kUnSorted && !m.isObsolete
        && (m.addDiscardableSize f.2).overRatio env st.cfOptions)) = true

instance (fs : BlobFileSet) (env : RangeSettleEnv) (cfId : UInt32)
    (sizes : BlobFilesSize) : Decidable (fs.SparesUnsorted env cfId sizes) :=
  inferInstanceAs (Decidable (_ = true))

theorem sparesUnsorted_iff (hst : fs.columnFamilies.lookup cfId = some st) :
    fs.SparesUnsorted env cfId sizes
      ↔ ∀ n d m, sizes.lookup n = some d → st.findFile n = some m →
        m.fileType = kUnSorted → m.isObsolete = false →
        (m.addDiscardableSize d).overRatio env st.cfOptions = false := by
  unfold SparesUnsorted
  rw [hst, Option.all_some, List.all_eq_true]
  constructor
  · intro h n d m hd hm hunsorted hlive
    have hall := h (n, d) (mem_entries_iff.2 hd)
    rw [hm, all_some] at hall
    simpa [hunsorted, hlive] using hall
  · rintro h ⟨n, d⟩ hf
    cases hm : st.findFile n with
    | none => rfl
    | some m =>
      have hone := h n d m (mem_entries_iff.1 hf) hm
      simp only [all_some, Bool.not_eq_true',
        Bool.and_eq_false_imp, Bool.and_eq_true, beq_iff_eq, and_imp]
      exact hone

/-- A file that is charged, if it is not one of those. -/
theorem retains_settled {options : TitanCFOptions}
    (h : m.fileType = kUnSorted → m.isObsolete = false →
      (m.addDiscardableSize d).overRatio env options = false) :
    m.Retains (m.settled env options d) := by
  unfold settled
  dsimp only
  split
  case isFalse => exact m.retains_addDiscardableSize d
  case isTrue hover =>
    refine ⟨rfl, fun _ hunsorted => ?_⟩
    cases hobsolete : m.isObsolete with
    | false => exact absurd hover (by rw [h hunsorted hobsolete]; decide)
    | true =>
      have hstate : m.state = .kObsolete := by
        simpa [isObsolete] using hobsolete
      unfold addDiscardableSize fileStateTransit
      dsimp only
      rw [hstate]
      decide

theorem retains_settleRanges (h : fs.SparesUnsorted env cfId sizes) :
    fs.Retains (settleRanges C env fs cfId sizes) := by
  cases hst : fs.columnFamilies.lookup cfId with
  | none =>
    unfold settleRanges getBlobStorage
    rw [hst]
    exact .refl fs
  | some st =>
    have hcharged : fs.Retains (fs.charged env cfId sizes) := by
      intro i n m' hm'
      rw [file_charged hst] at hm'
      split at hm'
      case isFalse => exact ⟨m', hm', .refl m'⟩
      case isTrue hi =>
        subst hi
        obtain ⟨m, hm, rfl⟩ := map_eq_some_iff.1 hm'
        refine ⟨m, hm, ?_⟩
        rw [file_of_lookup hst] at hm
        cases hd : sizes.lookup n with
        | none => exact .refl m
        | some d =>
          exact retains_settled ((sparesUnsorted_iff hst).1 h n d m hd hm)
    rw [settleRanges_eq hst]
    split
    · exact hcharged.trans (retains_deletion addedFiles_settleEdit env.io)
    · exact hcharged.trans (retains_onStorage fun st _ n m' hm' =>
        ⟨m', hm', .refl m'⟩)

/-- An unsorted file over its ratio is marked, and the edit leaves it
so. -/
theorem state_settleRanges {n : UInt64} (hst : fs.columnFamilies.lookup cfId = some st)
    (hd : sizes.lookup n = some d) (hm : st.findFile n = some m) (hlive : m.isObsolete = false)
    (hover : (m.addDiscardableSize d).overRatio env st.cfOptions = true) :
    ∃ m', (settleRanges C env fs cfId sizes).file cfId n = some m'
      ∧ m'.fileType = m.fileType ∧ m'.state = .kToGC := by
  have hcharged : (fs.charged env cfId sizes).file cfId n
      = some ((m.addDiscardableSize d).fileStateTransit .kNeedGC) := by
    rw [file_charged hst, if_pos rfl, file_of_lookup hst, hm, hd, map_some]
    show some (m.settled env st.cfOptions d) = _
    unfold settled
    rw [if_pos hover]
  have hstate : ((m.addDiscardableSize d).fileStateTransit .kNeedGC).state = .kToGC := by
    have hnot : m.state ≠ .kObsolete := by
      simpa [isObsolete] using hlive
    exact if_neg hnot
  unfold overRatio at hover
  simp only [Bool.and_eq_true, Bool.not_eq_true'] at hover
  rcases settleRanges_cases (C := C) env sizes hst with
    ⟨⟨hmerge, hadm, -⟩, heq⟩ | ⟨-, heq⟩
  · -- the edit deletes files without live data only
    have hkept : n ∉ (fs.settleEdit env cfId sizes).deletedFiles.map Prod.fst := by
      rw [mem_deleted_settleEdit env sizes hst hmerge]
      rintro ⟨d', m', hd', hm', hempty⟩
      cases hd.symm.trans hd'
      rw [file_of_lookup hst, hm] at hm'
      cases hm'
      rw [hover.1.2] at hempty
      cases hempty
    rw [heq, file_deletion addedFiles_settleEdit hadm, hcharged]
    split
    · refine ⟨_, rfl, ?_, ?_⟩
      · exact (retains_edited _ n _).fileType
      · unfold edited
        rw [if_neg hkept]
        exact hstate
    · exact ⟨_, rfl, rfl, hstate⟩
  · rw [heq, hcharged]
    exact ⟨_, rfl, rfl, hstate⟩

theorem collectable_settleRanges_iff (h : fs.Collectable) :
    (settleRanges C env fs cfId sizes).Collectable ↔ fs.SparesUnsorted env cfId sizes := by
  refine ⟨?_, fun hspares => h.retains (retains_settleRanges hspares)⟩
  intro hcollectable
  cases hst : fs.columnFamilies.lookup cfId with
  | none =>
    unfold SparesUnsorted
    rw [hst]
    rfl
  | some st =>
    refine (sparesUnsorted_iff hst).2 fun n d m hd hm hunsorted hlive => ?_
    rw [← Bool.not_eq_true]
    intro hover
    obtain ⟨m', hm', htype, hstate⟩ := state_settleRanges (C := C) hst hd hm hlive hover
    exact (hcollectable cfId n m' hm' (htype.trans hunsorted)).2 hstate

end BlobFileSet

-- ==== the runs

namespace GcFiles

variable {s s' : GcFiles} {a : Act}

/-- What the steps get from the rest of the DB: edits add no marked
unsorted file, and a sort is a permutation. -/
def Act.WellFormed : Act → Prop
  | .fileSet op => BlobFileSet.AddsCollectable op
  | .compactionCompleted env _ => ∀ ends, (env.sortEnds ends).Perm ends
  | _ => True

/-- The end of a range deletion charges no unsorted file over its
ratio. -/
def SparesUnsorted (s : GcFiles) : Act → Prop
  | .settleRanges env cfId sizes => s.fileSet.SparesUnsorted env cfId sizes
  | _ => True

instance (s : GcFiles) : (a : Act) → Decidable (s.SparesUnsorted a)
  | .settleRanges env cfId sizes =>
    inferInstanceAs (Decidable (s.fileSet.SparesUnsorted env cfId sizes))
  | .fileSet _ | .pick .. | .installOutputs .. | .finish ..
  | .computeGCScore _ | .flushCompleted _ | .compactionCompleted .. =>
    isTrue trivial

/-- A step leads to states without marked unsorted files. -/
def LeadsToCollectable (C : Coding) (s : GcFiles) (a : Act) : Prop :=
  ∀ s', s.step C a = some s' → s'.fileSet.Collectable

theorem collectable_step (h : s.fileSet.Collectable) (ha : a.WellFormed)
    (hspares : s.SparesUnsorted a) (hstep : s.step C a = some s') : s'.fileSet.Collectable := by
  cases a with
  | fileSet op =>
    obtain ⟨fs', hact, rfl⟩ := map_eq_some_iff.1 hstep
    exact h.act ha hact
  | pick cfId options =>
    rcases pick_cases hstep with rfl | ⟨st, files, _, -, -, rfl⟩
    · exact h
    · exact h.retains (retains_onStorage fun st _ =>
        .of_event (by decide) (touches_foldl_transit _ st fun _ _ => rfl))
  | installOutputs j files io =>
    obtain ⟨gc, -, -, rfl⟩ := step_installOutputs hstep
    have hadds : BlobFileSet.AddsCollectable (.logAndApply (gc.installEdit files) io) := by
      intro m hm
      rw [BlobGC.installEdit_eq] at hm
      obtain ⟨m, -, rfl⟩ := mem_map.1 hm
      exact fun _ => ⟨nofun, nofun⟩
    exact h.act hadds rfl
  | finish j deletion =>
    obtain ⟨gc, -, -, rfl⟩ := step_finish hstep
    refine h.retains (BlobFileSet.Retains.trans ?_ (retains_onStorage fun st _ =>
        .of_event (by decide) (touches_releaseGcFiles st gc fun _ _ => rfl)))
    cases deletion with
    | none => exact .refl _
    | some d =>
      refine retains_deletion ?_ d.2
      exact congrArg VersionEdit.addedFiles (foldl_deleteBlobFile id d.1 gc.inputs _)
  | computeGCScore cfId =>
    cases hstep
    exact h.retains (retains_onStorage fun st _ n m' hm' =>
      ⟨m', hm', .refl m'⟩)
  | flushCompleted info =>
    cases hstep
    refine h.retains ?_
    unfold onFlushCompleted
    split
    · exact .refl _
    · exact retains_onStorage fun st _ =>
        .of_event (by decide) (touches_flushFiles _ (st, 0) fun _ _ => rfl)
  | compactionCompleted env info =>
    cases hstep
    exact h.retains (retains_onCompactionCompleted ha _ info)
  | settleRanges env cfId sizes =>
    cases hstep
    exact h.retains (retains_settleRanges hspares)

/-- One step, exactly. -/
theorem leadsToCollectable_iff (h : s.fileSet.Collectable) (ha : a.WellFormed) :
    s.LeadsToCollectable C a ↔ s.SparesUnsorted a := by
  refine ⟨fun hleads => ?_, fun hspares s' hstep =>
    collectable_step h ha hspares hstep⟩
  cases a with
  | settleRanges env cfId sizes =>
    exact (collectable_settleRanges_iff h).1 (hleads _ rfl)
  | fileSet | pick | installOutputs | finish | computeGCScore
  | flushCompleted | compactionCompleted => trivial

/-- **Unsorted files are not marked.** In every run of edits, flush and
compaction completions, range merging, range deletions and GC, no step
leaves an unsorted file in `kToMerge` or `kToGC`, if and only if the end
of no `DeleteFilesInRanges` charges a live unsorted file over its
ratio. -/
theorem unsorted_unmarked_iff {s₀ : GcFiles} {acts : List Act}
    (hstart : s₀.fileSet.Collectable) (hacts : ∀ a ∈ acts, a.WellFormed) :
    Meets (step C) (LeadsToCollectable C) s₀ acts ↔ Meets (step C) SparesUnsorted s₀ acts :=
  meets_iff (I := fun s => s.fileSet.Collectable) leadsToCollectable_iff
    (fun h ha hspares hstep => collectable_step h ha hspares hstep)
    hstart (meets_of_forall hacts s₀)

end GcFiles

/-- A column family under `level_merge`, without files. -/
def mergedOpened : BlobFileSet where
  columnFamilies := Table.empty.emplace (0, mergedEmpty)

/-- A file of the foreground builder with 1000 bytes of records, flushed
with all of them; then a range deletion drops tables that refer to `size`
of these. -/
def dropTables (size : UInt64) : List GcFiles.Act :=
  [.fileSet (.logAndApply { addedFiles :=
      [{ fileNumber := 1, fileSize := 1040, state := .kNormal }] } .ok),
    .flushCompleted {
      cfId := 0
      property := some (BlobFileSizeCollector.encode base128 (Table.empty.insert 1 1000)) },
    .settleRanges {} 0 (Table.empty.insert 1 size)]

/-- With 100 bytes dropped it is not marked. -/
theorem dropTables_unmarked :
    Meets (GcFiles.step base128) (GcFiles.LeadsToCollectable base128)
      { fileSet := mergedOpened } (dropTables 100) := by
  have hstart : mergedOpened.Collectable := by
    intro i n m hm
    obtain ⟨st, hst, hm⟩ := bind_eq_some_iff.1 hm
    obtain ⟨-, rfl⟩ := Prod.ext_iff.1 (mem_singleton.1 (mem_entries_iff.2 hst))
    cases hm
  have hacts : ∀ a ∈ dropTables 100, a.WellFormed := by
    simp [dropTables, GcFiles.Act.WellFormed, BlobFileSet.AddsCollectable, BlobFileMeta.Collectable]
  exact (GcFiles.unsorted_unmarked_iff hstart hacts).2 (by decide +kernel)

/-- With 900 it is, and no compaction or GC job takes it. -/
theorem dropTables_marked :
    ∃ s m, exec (GcFiles.step base128) { fileSet := mergedOpened } (dropTables 900) = some s
      ∧ s.fileSet.file 0 1 = some m ∧ m.fileType = kUnSorted ∧ m.state = .kToGC := by
  obtain ⟨s, hexec, m, hm, hmarked⟩ :
      ∃ s ∈ exec (GcFiles.step base128) { fileSet := mergedOpened }
        (dropTables 900), ∃ m ∈ s.fileSet.file 0 1,
        m.fileType = kUnSorted ∧ m.state = .kToGC := by decide +kernel
  exact ⟨s, m, hexec, hm, hmarked⟩

end DiffKV
