/-
Whether `DeleteFilesInRanges` charges every byte once.

The call retires the files inside the ranges first, which may be refused,
and then charges the others. What it charges is compared with the bytes
the collected tables refer to. The two differ where the ranges are
refused after the tables are gone, and where the accounting edit adds its
updates a second time.
-/
import DiffKV.Proofs.LiveData
import DiffKV.Proofs.RangeSettlement

namespace DiffKV

open Lib Table Option UInt64 BlobFileSet SizeDiff

-- ==== the sizes charged

section Sizes

variable {C : Coding}

/-- The entry of a file once the sizes of a table are added. -/
theorem lookup_addDiscardableSizes (sizes : BlobFilesSize) (t : Sst C) (n : UInt64) :
    (addDiscardableSizes C sizes t.property).lookup n
      = (t.sizes.lookup n).elim (sizes.lookup n) fun d => some ((sizes.lookup n).getD 0 + d) := by
  rcases t.property_cases with ⟨hnone, hempty⟩ | ⟨src, hsrc, hdecode⟩
  · rw [hnone, hempty]
    rfl
  · rw [hsrc]
    unfold addDiscardableSizes
    dsimp only
    rw [hdecode]
    refine foldl_entries_view (fun (sizes : BlobFilesSize) n => sizes.lookup n)
      (fun d o => some (o.getD 0 + d)) (fun sizes f k => ?_) t.sizes sizes n
    rw [lookup_insert]
    split
    case isTrue hk => rw [hk]
    case isFalse => rfl

/-- The sizes of some tables together. -/
theorem sizes_foldl (tables : List (Sst C)) (sizes : BlobFilesSize) (n : UInt64) :
    let all := tables.foldl (fun sizes t =>
      addDiscardableSizes C sizes t.property) sizes
    sizeOf all n = sizeOf sizes n + ofNat (bytesOf tables n)
      ∧ (all.lookup n ≠ none ↔ sizes.lookup n ≠ none ∨ ∃ t ∈ tables, t.Refers n) := by
  induction tables generalizing sizes with
  | nil => simp [bytesOf]
  | cons t tables ih =>
    obtain ⟨hsize, hkeys⟩ := ih (addDiscardableSizes C sizes t.property)
    have hlookup := lookup_addDiscardableSizes sizes t n
    have hbytes := t.sizeOf_sizes n
    have hrefers := t.refers_iff (n := n)
    refine ⟨?_, ?_⟩
    · rw [List.foldl_cons, hsize, bytesOf_cons, ofNat_add, ← add_assoc, ← hbytes]
      congr 1
      unfold SizeDiff.sizeOf
      rw [hlookup]
      cases t.sizes.lookup n <;> simp
    · rw [List.foldl_cons, hkeys, hlookup]
      simp only [List.mem_cons, exists_eq_or_imp, ← hrefers]
      cases t.sizes.lookup n <;> simp

/-- The collected properties are those of the tables. -/
def TablePropertiesCollection.Of (props : TablePropertiesCollection)
    (tables : List (Sst C)) : Prop :=
  props.entries = tables.map fun t => (t.name, t.property)

theorem discardableSizes_of {props : TablePropertiesCollection}
    {tables : List (Sst C)} (h : props.Of tables) (n : UInt64) :
    sizeOf (discardableSizes C props) n = ofNat (bytesOf tables n)
      ∧ ((discardableSizes C props).lookup n ≠ none ↔ ∃ t ∈ tables, t.Refers n) := by
  unfold discardableSizes
  rw [h, List.foldl_map]
  obtain ⟨hsize, hkeys⟩ := sizes_foldl tables empty n
  refine ⟨?_, ?_⟩
  · rw [hsize]
    exact zero_add _
  · rw [hkeys]
    simp

end Sizes

-- ==== what is charged

namespace BlobFileSet

variable {fs' : BlobFileSet} {files : List UInt64}

variable {C : Coding} {fs : BlobFileSet} {cfId : UInt32} {st : BlobStorage}
  {sizes : BlobFilesSize} {env : RangeDeletionEnv}
  {ranges : List BlobStorage.RangePtr} {includeEnd : Bool}
  {props : TablePropertiesCollection} {tables : List (Sst C)}

/-- The counter of every live file has grown by the bytes the tables
refer to, which are of files of their own column family. -/
def GrowsBy (fs : BlobFileSet) (cfId : UInt32) (tables : List (Sst C)) (fs' : BlobFileSet) : Prop :=
  ∀ i n m, fs.live i n = some m → fs'.counter i n = some (m.discardableSize
    + if i = cfId then UInt64.ofNat (bytesOf tables n) else 0)

/-- If the counter of a live file and the bytes its tables refer to made
up its data before, then it has no live data now only if the tables that
are left do not refer to it. -/
def SparesReferred (fs : BlobFileSet) (cfId : UInt32)
    (tables : List (Sst C)) (fs' : BlobFileSet) : Prop :=
  ∀ n m m' (rest : List (Sst C)), fs.live cfId n = some m → 40 ≤ m.fileSize.toNat →
    m.discardableSize.toNat + bytesOf tables n + bytesOf rest n = m.dataSize →
    fs'.file cfId n = some m' → m'.noLiveData = true →
    ∀ t ∈ rest, ¬ t.Refers n

/-- The accounting edit is applied, with `files` retired before it. -/
def SettleApplies (fs : BlobFileSet) (cfId : UInt32) (files : List UInt64)
    (sizes : BlobFilesSize) (io : ManifestIO) : Prop :=
  ((fs.columnFamilies.lookup 0).isSome = true →
    ∀ n, fs.Emptied cfId sizes n → (fs.live 0 n).isSome = true ∧ ¬ (0 = cfId ∧ n ∈ files))
  ∧ io = .ok

/-- No live file of the default column family has the number of a file
that is charged something and keeps live data. -/
def ChargedOnce (fs : BlobFileSet) (cfId : UInt32) (sizes : BlobFilesSize) :
    Prop :=
  ∀ n m, (fs.live 0 n).isSome = true → fs.file cfId n = some m →
    (m.addDiscardableSize (SizeDiff.sizeOf sizes n)).noLiveData = false →
    SizeDiff.sizeOf sizes n = 0

theorem GrowsBy.sparesReferred (h : fs.GrowsBy cfId tables fs')
    (hsize : ∀ n, (fs'.file cfId n).map (·.fileSize) = (fs.file cfId n).map (·.fileSize)) :
    fs.SparesReferred cfId tables fs' := by
  intro n m m' rest hm hlarge hsum hm' hno
  have hcounter := h cfId n m hm
  have hfile := hsize n
  unfold counter at hcounter
  rw [hm', if_pos rfl] at hcounter
  rw [hm', (live_eq_some_iff.1 hm).1] at hfile
  have hcounter : m'.discardableSize = m.discardableSize + ofNat (bytesOf tables n) :=
    some.inj hcounter
  have hfile : m'.fileSize = m.fileSize := some.inj hfile
  unfold BlobFileMeta.noLiveData at hno
  rw [decide_eq_true_eq, hcounter, hfile, dataSize_ofNat hlarge] at hno
  have hfits : m.dataSize < 2 ^ 64 := Nat.lt_of_le_of_lt (Nat.sub_le ..) m.fileSize.toNat_lt
  have hnat := congrArg toNat hno
  rw [UInt64.toNat_add, UInt64.toNat_ofNat', UInt64.toNat_ofNat'] at hnat
  exact not_refers_of_bytesOf (by omega)

/-- What the call comes to once the properties are collected. -/
theorem deleteFilesInRanges_eq (hst : fs.columnFamilies.lookup cfId = some st)
    (hcollect : env.version.collect includeEnd ranges = pure props)
    (hbase : env.baseStatus.isOk = true) :
    deleteFilesInRanges C env fs cfId ranges includeEnd
      = (st.getBlobFilesInRanges ranges includeEnd).map fun files =>
          let (s, fs') := fs.logAndApply C (rangeEdit cfId files) env.io
          if s.isOk then
            (s, settleRanges C env.settle fs' cfId (discardableSizes C props))
          else (s, fs') := by
  have hrun : (env.version.collect includeEnd ranges).run = some (.ok props) := by
    rw [hcollect]
    rfl
  unfold deleteFilesInRanges deleteBlobFilesInRanges
  rw [hrun, hst]
  dsimp only
  rw [if_neg (by simp [hbase])]
  cases st.getBlobFilesInRanges ranges includeEnd with
  | none => rfl
  | some files =>
    obtain ⟨st', hst', -⟩ := cfOptions_logAndApply (C := C) hst (rangeEdit cfId files) env.io
    dsimp only
    rw [map_some]
    rcases hlog : fs.logAndApply C (rangeEdit cfId files) env.io with ⟨s, fs'⟩
    rw [hlog] at hst'
    unfold getBlobStorage
    cases hs : s.isOk with
    | false => simp
    | true => simp [hst']

/-- What keeps the counters exact: the selection is defined; if its edit
goes through, then with `level_merge` on the accounting edit is not
applied or charges nothing twice; and if it does not, nothing was to be
charged to a live file. -/
def AccountsOnce (env : RangeDeletionEnv) (fs : BlobFileSet)
    (cfId : UInt32) (st : BlobStorage) (ranges : List BlobStorage.RangePtr)
    (includeEnd : Bool) (sizes : BlobFilesSize) : Prop :=
  ∃ files, st.getBlobFilesInRanges ranges includeEnd = some files
    ∧ (files.Nodup ∧ env.io = .ok → st.cfOptions.levelMerge = true →
      fs.SettleApplies cfId files sizes env.settle.io →
      fs.ChargedOnce cfId sizes)
    ∧ (¬ (files.Nodup ∧ env.io = .ok) →
      ∀ n, (fs.live cfId n).isSome = true → SizeDiff.sizeOf sizes n = 0)

section Kept

variable {env : RangeSettleEnv} {β : Type} {g : BlobFileMeta → β}
  (hcharge : ∀ m d, g (m.addDiscardableSize d) = g m)
  (htransit : ∀ m e, g (m.fileStateTransit e) = g m)

include hcharge htransit

/-- Nothing but the counter and the state of a file changes. -/
theorem map_file_charged (hst : fs.columnFamilies.lookup cfId = some st) (i : UInt32) (n : UInt64) :
    ((fs.charged env cfId sizes).file i n).map g = (fs.file i n).map g := by
  rw [file_charged hst]
  split
  case isFalse => rfl
  case isTrue =>
    rw [map_map]
    congr 1
    funext m
    cases sizes.lookup n with
    | none => rfl
    | some d =>
      show g (m.settled env st.cfOptions d) = g m
      unfold BlobFileMeta.settled
      dsimp only
      split
      · rw [htransit, hcharge]
      · exact hcharge m d

theorem map_file_edit {e : VersionEdit} (hadd : e.addedFiles = [])
    (h : fs.Admits e) (i : UInt32) (n : UInt64) :
    ((fs.logAndApply C e .ok).2.file i n).map g = (fs.file i n).map g := by
  rw [file_deletion hadd h]
  split
  case isFalse => rfl
  case isTrue =>
    rw [map_map]
    congr 1
    funext m
    show g (edited e n m) = g m
    unfold edited
    rw [hcharge]
    split
    · exact htransit m .kDelete
    · rfl

end Kept

/-- The size of a file is never changed. -/
theorem fileSize_settleRanges {env : RangeSettleEnv}
    (hst : fs.columnFamilies.lookup cfId = some st) (i : UInt32) (n : UInt64) :
    ((settleRanges C env fs cfId sizes).file i n).map (·.fileSize)
      = (fs.file i n).map (·.fileSize) := by
  have hcharged : ((fs.charged env cfId sizes).file i n).map (·.fileSize)
      = (fs.file i n).map (·.fileSize) := map_file_charged (fun _ _ => rfl) (fun _ _ => rfl) hst i n
  rcases settleRanges_cases (C := C) env sizes hst with
    ⟨⟨-, hadm, -⟩, heq⟩ | ⟨-, hfile⟩
  · rw [heq, ← hcharged]
    exact map_file_edit (fun _ _ => rfl) (fun _ _ => rfl) addedFiles_settleEdit hadm i n
  · rw [hfile, ← hcharged]

/-- What is charged twice: nothing, or the whole of what a file with live
data left is charged. -/
theorem updated_eq_zero_iff (env : RangeSettleEnv) (sizes : BlobFilesSize)
    (hst : fs.columnFamilies.lookup cfId = some st)
    (hmerge : st.cfOptions.levelMerge = true) (n : UInt64) :
    ((fs.settleEdit env cfId sizes).updatedDiscardableSize.lookup n).getD 0 = 0
      ↔ ∀ m, fs.file cfId n = some m → (m.addDiscardableSize (sizeOf sizes n)).noLiveData = false →
        sizeOf sizes n = 0 := by
  rw [updated_settleEdit env sizes hst hmerge]
  cases fs.file cfId n with
  | none => simp
  | some m =>
    cases hno : (m.addDiscardableSize (sizeOf sizes n)).noLiveData <;> simp [hno]

/-- The end of the call charges what `sizes` says, unless the edit is
applied and charges a file of the default column family once more. -/
theorem counter_settleRanges_iff (env : RangeSettleEnv)
    (sizes : BlobFilesSize) (hst : fs.columnFamilies.lookup cfId = some st)
    (P : UInt32 → UInt64 → Prop) :
    (∀ i n c, fs.counter i n = some c → P i n →
      (settleRanges C env fs cfId sizes).counter i n
        = some (c + if i = cfId then sizeOf sizes n else 0))
    ↔ (st.cfOptions.levelMerge = true →
        (fs.charged env cfId sizes).Admits (fs.settleEdit env cfId sizes) →
        env.io = .ok → ∀ n c, fs.counter 0 n = some c → P 0 n → ∀ m, fs.file cfId n = some m →
          (m.addDiscardableSize (sizeOf sizes n)).noLiveData = false → sizeOf sizes n = 0) := by
  have hcharged : ∀ i n c, fs.counter i n = some c →
      (fs.charged env cfId sizes).counter i n
        = some (c + if i = cfId then sizeOf sizes n else 0) := by
    intro i n c hc
    rw [counter_charged hst, hc]
    split <;> simp
  rcases settleRanges_cases (C := C) env sizes hst with
    ⟨⟨hmerge, hadm, hio⟩, heq⟩ | ⟨hnot, hfile⟩
  case inr =>
    constructor
    · exact fun _ hmerge hadm hio => absurd ⟨hmerge, hadm, hio⟩ hnot
    · intro _ i n c hc _
      rw [← hcharged i n c hc]
      unfold counter
      rw [hfile]
  case inl =>
    rw [heq]
    simp only [hmerge, hadm, hio, true_imp_iff, ← updated_eq_zero_iff env sizes hst hmerge]
    constructor
    · intro h n c hc hP
      have hn := h 0 n c hc hP
      rw [counter_edit addedFiles_settleEdit hadm, columnFamilyId_settleEdit,
        if_pos rfl, hcharged 0 n c hc, map_some] at hn
      exact UInt64.add_eq_left.1 (some.inj hn)
    · intro h i n c hc hP
      rw [counter_edit addedFiles_settleEdit hadm, columnFamilyId_settleEdit, hcharged i n c hc]
      split
      case isFalse => rfl
      case isTrue hi =>
        subst hi
        rw [h n c hc hP]
        simp

theorem growsBy_iff (hsizes : ∀ n, sizeOf sizes n = ofNat (bytesOf tables n)) :
    fs.GrowsBy cfId tables fs'
      ↔ ∀ i n c, fs.counter i n = some c → (fs.live i n).isSome = true →
        fs'.counter i n = some (c + if i = cfId then sizeOf sizes n else 0) := by
  simp only [hsizes]
  constructor
  · intro h i n c hc hlive
    obtain ⟨m, hm⟩ := isSome_iff_exists.1 hlive
    unfold counter at hc
    rw [(live_eq_some_iff.1 hm).1] at hc
    rw [← some.inj hc]
    exact h i n m hm
  · intro h i n m hm
    refine h i n m.discardableSize ?_ (by rw [hm]; rfl)
    unfold counter
    rw [(live_eq_some_iff.1 hm).1]
    rfl

/-- The checks of the edit once the files inside the ranges are
retired. -/
theorem admits_settleEdit_rangeEdit {env : RangeSettleEnv} (hadm : fs.Admits (rangeEdit cfId files))
    {st' : BlobStorage}
    (hst : (fs.logAndApply C (rangeEdit cfId files) .ok).2.columnFamilies.lookup cfId = some st')
    (hmerge : st'.cfOptions.levelMerge = true) :
    ((fs.logAndApply C (rangeEdit cfId files) .ok).2.charged env cfId sizes).Admits
        ((fs.logAndApply C (rangeEdit cfId files) .ok).2.settleEdit env cfId sizes) ∧ env.io = .ok
      ↔ fs.SettleApplies cfId files sizes env.io := by
  have hopen := lookup_isSome_logAndApply (C := C) fs (rangeEdit cfId files) .ok 0
  unfold SettleApplies
  simp only [admits_settleEdit_iff hst hmerge, emptied_rangeEdit hadm, live_rangeEdit hadm, hopen]

/-- The call once the ranges are through. -/
theorem accounts_admitted {env : RangeSettleEnv} (hst : fs.columnFamilies.lookup cfId = some st)
    (hadm : fs.Admits (rangeEdit cfId files))
    (hsizes : ∀ n, sizeOf sizes n = ofNat (bytesOf tables n)) :
    fs.GrowsBy cfId tables (settleRanges C env
        (fs.logAndApply C (rangeEdit cfId files) .ok).2 cfId sizes)
      ↔ (st.cfOptions.levelMerge = true → fs.SettleApplies cfId files sizes env.io →
        fs.ChargedOnce cfId sizes) := by
  obtain ⟨st', hst', hoptions⟩ := cfOptions_logAndApply (C := C) hst (rangeEdit cfId files) .ok
  have hcounters := counter_settleRanges_iff (C := C) env sizes hst'
    fun i n => (fs.live i n).isSome = true
  rw [hoptions] at hcounters
  simp only [counter_rangeEdit hadm] at hcounters
  rw [growsBy_iff hsizes, hcounters]
  refine imp_congr_right fun hmerge => ?_
  rw [← hoptions] at hmerge
  rw [← and_imp, admits_settleEdit_rangeEdit hadm hst' hmerge]
  refine imp_congr_right fun _ => ?_
  simp only [unsettled_rangeEdit hadm]
  constructor
  · intro h n m hlive hm
    obtain ⟨m₀, hm₀⟩ := isSome_iff_exists.1 hlive
    refine h n m₀.discardableSize ?_ hlive m hm
    unfold counter
    rw [(live_eq_some_iff.1 hm₀).1]
    rfl
  · intro h n c _ hlive m hm
    exact h n m hlive hm

/-- The call where the ranges go through, and where they do not. -/
theorem deleteFilesInRanges_cases (env : RangeDeletionEnv)
    (hst : fs.columnFamilies.lookup cfId = some st)
    (hcollect : env.version.collect includeEnd ranges = pure props)
    (hbase : env.baseStatus.isOk = true)
    (hfiles : st.getBlobFilesInRanges ranges includeEnd = some files) :
    ∃ s fs', deleteFilesInRanges C env fs cfId ranges includeEnd = some (s, fs')
      ∧ ((files.Nodup ∧ env.io = .ok) ∧ fs.Admits (rangeEdit cfId files)
          ∧ fs' = settleRanges C env.settle (fs.logAndApply C (rangeEdit cfId files) .ok).2 cfId
            (discardableSizes C props)
        ∨ ¬ (files.Nodup ∧ env.io = .ok) ∧ ∀ i n, fs'.file i n = fs.file i n) := by
  have hadmits : fs.Admits (rangeEdit cfId files) ↔ files.Nodup :=
    admits_rangeEdit_iff hst fun n hn => BlobStorage.live_of_mem_getBlobFilesInRanges hfiles hn
  rw [deleteFilesInRanges_eq hst hcollect hbase, hfiles, map_some]
  dsimp only
  by_cases hthrough : files.Nodup ∧ env.io = .ok
  · have hok : (fs.logAndApply C (rangeEdit cfId files) env.io).1.isOk
        = true := logAndApply_isOk_iff.2 ⟨hadmits.2 hthrough.1, hthrough.2⟩
    rw [if_pos hok]
    refine ⟨_, _, rfl, .inl ⟨hthrough, hadmits.2 hthrough.1, ?_⟩⟩
    rw [hthrough.2]
  · have hnot : ¬ (fs.Admits (rangeEdit cfId files) ∧ env.io = .ok) := by
      rw [hadmits]
      exact hthrough
    rw [if_neg (mt logAndApply_isOk_iff.1 hnot)]
    exact ⟨_, _, rfl, .inr ⟨hthrough, file_of_not_applied hnot⟩⟩

/-- Where no file is changed, nothing may have been due. -/
theorem growsBy_same_iff (hsizes : ∀ n, sizeOf sizes n = ofNat (bytesOf tables n))
    (hsame : ∀ i n, fs'.file i n = fs.file i n) :
    fs.GrowsBy cfId tables fs' ↔ ∀ n, (fs.live cfId n).isSome = true → sizeOf sizes n = 0 := by
  have hcounter : ∀ i n, fs'.counter i n = fs.counter i n := by
    intro i n
    unfold counter
    rw [hsame]
  rw [growsBy_iff hsizes]
  simp only [hcounter]
  constructor
  · intro h n hlive
    obtain ⟨m, hm, -⟩ := live_isSome_iff.1 hlive
    have hc : fs.counter cfId n = some m.discardableSize := by
      unfold counter
      rw [hm]
      rfl
    have hn := h cfId n _ hc hlive
    rw [hc, if_pos rfl] at hn
    exact UInt64.left_eq_add.1 (some.inj hn)
  · intro h i n c hc hlive
    rw [hc]
    split
    case isFalse => simp
    case isTrue hi =>
      subst hi
      rw [h n hlive]
      simp

/-- **Every byte once.** The call charges every live file exactly the
bytes that the tables it has collected refer to, so that a file is
without live data only if the tables left do not refer to it, exactly if
`AccountsOnce`. -/
theorem deleteFilesInRanges_accounts_iff (hst : fs.columnFamilies.lookup cfId = some st)
    (hcollect : env.version.collect includeEnd ranges = pure props)
    (hprops : props.Of tables) (hbase : env.baseStatus.isOk = true) :
    (∃ s fs', deleteFilesInRanges C env fs cfId ranges includeEnd = some (s, fs')
        ∧ fs.GrowsBy cfId tables fs' ∧ fs.SparesReferred cfId tables fs')
      ↔ fs.AccountsOnce env cfId st ranges includeEnd (discardableSizes C props) := by
  have hsizes := fun n => (discardableSizes_of hprops n).1
  unfold AccountsOnce
  cases hfiles : st.getBlobFilesInRanges ranges includeEnd with
  | none =>
    rw [deleteFilesInRanges_eq hst hcollect hbase, hfiles]
    simp
  | some files =>
    obtain ⟨s, fs', hcall, hcases⟩ := deleteFilesInRanges_cases env hst hcollect hbase hfiles
    -- the files keep their sizes, so exact counters are all there is to it
    have hsize : ∀ n, (fs'.file cfId n).map (·.fileSize) = (fs.file cfId n).map (·.fileSize) := by
      intro n
      rcases hcases with ⟨-, hadm, rfl⟩ | ⟨-, hsame⟩
      · obtain ⟨st', hst', -⟩ := cfOptions_logAndApply (C := C) hst (rangeEdit cfId files) .ok
        rw [fileSize_settleRanges hst']
        exact map_file_edit (fun _ _ => rfl) (fun _ _ => rfl) (by rw [rangeEdit_eq]) hadm cfId n
      · rw [hsame]
    have hgrows : (∃ s fs', deleteFilesInRanges C env fs cfId ranges includeEnd = some (s, fs')
        ∧ fs.GrowsBy cfId tables fs' ∧ fs.SparesReferred cfId tables fs')
        ↔ fs.GrowsBy cfId tables fs' := by
      rw [hcall]
      constructor
      · rintro ⟨s, fs', heq, hgrows, -⟩
        cases heq
        exact hgrows
      · exact fun h => ⟨s, fs', rfl, h, h.sparesReferred hsize⟩
    rw [hgrows]
    simp only [some.injEq, exists_eq_left']
    rcases hcases with ⟨hthrough, hadm, rfl⟩ | ⟨hnot, hsame⟩
    · rw [accounts_admitted hst hadm hsizes]
      simp [hthrough]
    · rw [growsBy_same_iff hsizes hsame]
      simp [hnot]

end BlobFileSet

/-- A table with ten bytes of file 2. -/
def secondTable : Sst base128 :=
  Lsm.indexTable "9.sst" { fileNumber := 2, blobHandle := ⟨8, 10⟩ } (by decide)

/-- A version with the table at level 1 and another one at level 0, and
every range over both. -/
def twoLevels : Version where
  levelFiles := [[{ fname := "8.sst", largest := .byte 9 }],
    [{ fname := "9.sst", largest := .byte 3 }]]
  numNonEmptyLevels := 2
  overlapInLevel _ _ := true
  getCleanInputsWithinInterval level _ :=
    if level = 1 then [{ fname := "9.sst", largest := .byte 3 }] else []
  getTableProperties _ := (.ok, some secondTable.property)
  level_lt {level files} h hne := by
    rcases level with _ | _ | level
    · decide
    · decide
    · cases h
  clean {level range file} h := by
    split at h
    case isTrue hlevel =>
      subst hlevel
      exact ⟨⟨_, rfl, h⟩, rfl⟩
    case isFalse => cases h

/-- The collected property of the table. -/
def secondProps : TablePropertiesCollection :=
  Table.empty.insert "9.sst" secondTable.property

theorem collect_twoLevels : twoLevels.collect true [firstRange] = pure secondProps := rfl

theorem secondProps_of : secondProps.Of [secondTable] := rfl

/-- Without `level_merge` the ten bytes are charged once. -/
theorem deleteFilesInRanges_twoKeyed :
    ∃ s fs', deleteFilesInRanges base128 { version := twoLevels }
        holdsTwoKeyed 0 [firstRange] true = some (s, fs')
      ∧ holdsTwoKeyed.GrowsBy 0 [secondTable] fs'
      ∧ holdsTwoKeyed.SparesReferred 0 [secondTable] fs' := by
  refine (deleteFilesInRanges_accounts_iff rfl collect_twoLevels
    secondProps_of rfl).2 ⟨[1], by decide +kernel, ?_, ?_⟩
  · intro _ hmerge
    cases hmerge
  · intro hnot
    exact absurd ⟨by decide, rfl⟩ hnot

/-- With `level_merge` on they are charged twice: directly, and by the
edit. -/
theorem deleteFilesInRanges_twice :
    bytesOf [secondTable] 2 = 10 ∧ holdsMerged.live 0 2 = some (keyedFile 2 5 7)
      ∧ ∃ s fs', deleteFilesInRanges base128 { version := twoLevels }
          holdsMerged 0 [firstRange] true = some (s, fs') ∧ fs'.counter 0 2 = some 20 := by
  refine ⟨by decide +kernel, by decide +kernel, ?_⟩
  obtain ⟨s, fs', hcall, hcases⟩ := deleteFilesInRanges_cases
    (C := base128) { version := twoLevels } lookup_holdsMerged
    collect_twoLevels rfl select_firstRange
  refine ⟨s, fs', hcall, ?_⟩
  rcases hcases with ⟨-, -, rfl⟩ | ⟨hnot, -⟩
  case inr => exact absurd ⟨by decide, rfl⟩ hnot
  obtain ⟨st, hst, hoptions⟩ := lookup_firstRetired
  have hmerge : st.cfOptions.levelMerge = true := by
    rw [hoptions]
    rfl
  have hsizes : (discardableSizes base128 secondProps).entries = [(2, 10)] := by
    decide +kernel
  have hfile : firstRetired.file 0 2 = some (keyedFile 2 5 7) := by
    decide +kernel
  -- the file keeps live data, so the edit deletes nothing
  have hadm : (firstRetired.charged {} 0 (discardableSizes base128 secondProps)).Admits
      (firstRetired.settleEdit {} 0 (discardableSizes base128 secondProps)) := by
    refine (admits_settleEdit_iff hst hmerge).2 fun _ n hn => ?_
    obtain ⟨d, m, hd, hm, hno⟩ := hn
    have hmem := mem_entries_iff.2 hd
    rw [hsizes] at hmem
    cases List.mem_singleton.1 hmem
    cases hfile.symm.trans hm
    revert hno
    decide +kernel
  rcases settleRanges_cases (C := base128) {}
    (discardableSizes base128 secondProps) hst with ⟨-, heq⟩ | ⟨hnot, -⟩
  case inr => exact absurd ⟨hmerge, hadm, rfl⟩ hnot
  have hcounter : firstRetired.counter 0 2 = some 0 := by decide +kernel
  show (settleRanges base128 {} firstRetired 0
    (discardableSizes base128 secondProps)).counter 0 2 = some 20
  rw [heq, counter_edit addedFiles_settleEdit hadm, columnFamilyId_settleEdit, if_pos rfl,
    counter_charged hst, if_pos rfl, hcounter, updated_settleEdit {} _ hst hmerge, hfile]
  decide +kernel

end DiffKV
