/-
The edit that `OnCompactionCompleted` issues under `level_merge`.

The files of the compaction's column family are charged in place. Those
left without live data go into one edit, which is checked as a whole and
whose status is dropped. The edit is left at the column family an edit
has by default: it retires files of that family, under the numbers of the
compacted one. And it is refused, with all its files, if one of them is
not a live file there.
-/
import DiffKV.Proofs.GcFiles
import DiffKV.Proofs.LiveData
import DiffKV.Proofs.RangeSettlement

namespace DiffKV

open Lib List BlobFileMeta Table BlobStorage SizeDiff ChargeState Option

variable {n : UInt64} {fs : BlobFileSet} {st : BlobStorage} {i : UInt32}

-- ==== inputs and outputs

/-- An input table of the compaction refers to the file. -/
def CompactionJobInfo.Input (C : Coding) (info : CompactionJobInfo) (n : UInt64) : Prop :=
  ∃ name ∈ info.inputFiles, (info.tableSizes C name).lookup n ≠ none

namespace SizeDiff

variable {C : Coding} {info : CompactionJobInfo} {coefficient : UInt64}
  {l : List (UInt64 × UInt64)} {d : SizeDiff}

/-- A loop of `calc_bfs`, over the entries of all its tables. -/
theorem addTables_eq (coefficient : UInt64) (output : Bool) (names : List String) (d : SizeDiff) :
    names.foldl (addTable C info coefficient output) d
      = (names.flatMap fun name => (info.tableSizes C name).entries).foldl
        (addFile coefficient output) d := by
  rw [foldl_flatMap]
  congr 1
  funext d name
  exact addTable_eq coefficient output d name

theorem contains_inputs_addFiles (h : d.inputs.contains n = true ∨ n ∈ l.map Prod.fst) :
    (l.foldl (addFile coefficient false) d).inputs.contains n = true := by
  induction l generalizing d with
  | nil => exact h.elim id fun h => nomatch h
  | cons f l ih =>
    refine ih ?_
    have hkeys : (d.addFile coefficient false f).inputs.contains n = true
        ↔ n = f.1 ∨ d.inputs.contains n = true := by
      show (d.inputs.emplace f.1).contains n = true ↔ _
      unfold Table.contains
      rw [find_emplace]
      by_cases hn : f.1 = n
      · simp [hn]
      · simp [hn, Ne.symm hn]
    rw [hkeys]
    rcases h with h | h
    · exact .inl (.inr h)
    · rcases mem_cons.1 h with h | h
      · exact .inl (.inl h)
      · exact .inr h

/-- The outputs are files no input table refers to. -/
theorem mem_outputs_addFiles (h : n ∈ (l.foldl (addFile coefficient true) d).outputs.entries) :
    n ∈ d.outputs.entries ∨ d.inputs.contains n = false := by
  induction l generalizing d with
  | nil => exact .inl h
  | cons f l ih =>
    rcases ih h with h | h
    case inr => exact .inr h
    unfold addFile at h
    dsimp only at h
    split at h
    case isFalse => exact .inl h
    case isTrue hif =>
      rw [Bool.true_and, Bool.not_eq_true'] at hif
      rw [mem_iff_find, find_emplace] at h
      split at h
      case isTrue heq =>
        have heq : f.1 = n := heq
        exact .inr (heq ▸ hif)
      case isFalse => exact .inl (mem_iff_find.2 h)

theorem not_mem_outputs_of_input (h : info.Input C n) : n ∉ (calcBfs C info).outputs.entries := by
  obtain ⟨name, hname, hn⟩ := h
  intro hmem
  unfold calcBfs at hmem
  rw [addTables_eq 1 true] at hmem
  rcases mem_outputs_addFiles hmem with hmem | hnone
  · rcases mem_outputs_addTables hmem with hmem | ⟨hfalse, -⟩
    · cases hmem
    · cases hfalse
  · rw [addTables_eq, contains_inputs_addFiles (.inr ?_)] at hnone
    · cases hnone
    · rw [map_flatMap]
      refine mem_flatMap.2 ⟨name, hname, ?_⟩
      exact mem_keys_iff.2 (isSome_iff_ne_none.2 hn)

end SizeDiff

-- ==== which files are obsolete

namespace BlobStorage

variable {outputs : List UInt64}

/-- Events that neither retire a file nor revive one. -/
theorem Changes.obsolete_eq {E : UInt64 → FileEvent → Prop}
    {st' : BlobStorage} (h : Changes E (fun _ => False) st st')
    (hE : ∀ n e, E n e → ∀ s : FileState, s.next e = .kObsolete ↔ s = .kObsolete) (n : UInt64) :
    st'.obsolete n = st.obsolete n := by
  induction h with
  | refl => rfl
  | @tail b c _ hlast ih =>
    refine Eq.trans ?_ ih
    rw [Bool.eq_iff_iff, obsolete_iff_stateOf, obsolete_iff_stateOf]
    cases hlast with
    | edit h =>
      obtain ⟨_, hfalse, -⟩ := h
      exact hfalse.elim
    | @event k e h =>
      rw [stateOf_transit]
      split
      · cases b.stateOf n <;> simp [hE k e h]
      · rfl
    | frame hstate => rw [hstate]

theorem obsolete_chargeStorage (env : CompactionEnv) (info : CompactionJobInfo)
    (diff : Map UInt64 Int64) (st : BlobStorage) (n : UInt64) :
    (chargeStorage env info diff st).storage.obsolete n = st.obsolete n := by
  have htouches := (touches_chargeStorage (E := fun _ e => e = .kNeedGC) env
    info diff st fun _ _ => rfl).1
  refine htouches.changes.obsolete_eq ?_ n
  rintro _ _ rfl s
  cases s <;> decide

theorem obsolete_markFileIfNeedMerge (sortEnds : List BlobEnd → List BlobEnd)
    (maxSortedRuns : Int) (st : BlobStorage) (files : List UInt64) (n : UInt64) :
    (st.markFileIfNeedMerge sortEnds maxSortedRuns files).obsolete n = st.obsolete n := by
  refine (touches_foldl_transit (E := fun _ e => e = .kNeedMerge) _ st
    fun _ _ => rfl).changes.obsolete_eq ?_ n
  rintro _ _ rfl s
  cases s <;> decide

theorem findFile_completeOutputs (hn : n ∉ outputs) (st : BlobStorage) :
    (completeOutputs st outputs).2.findFile n = st.findFile n := by
  induction outputs generalizing st with
  | nil => rfl
  | cons k outputs ih =>
    rw [mem_cons, not_or] at hn
    unfold completeOutputs
    cases st.findFile k with
    | none => rfl
    | some m =>
      exact (ih hn.2 _).trans ((findFile_transit ..).trans (if_neg hn.1))

/-- An output is not obsolete, even if it was. -/
theorem obsolete_completeOutputs (hn : n ∈ outputs) (h : (completeOutputs st outputs).1 = true) :
    (completeOutputs st outputs).2.obsolete n = false := by
  induction outputs generalizing st with
  | nil => cases hn
  | cons k outputs ih =>
    unfold completeOutputs at h ⊢
    cases hm : st.findFile k with
    | none =>
      rw [hm] at h
      cases h
    | some m =>
      rw [hm] at h
      by_cases hlater : n ∈ outputs
      · exact ih hlater h
      · obtain rfl := (mem_cons.1 hn).resolve_right hlater
        unfold obsolete
        rw [findFile_completeOutputs hlater, findFile_transit, if_pos rfl, hm]
        rfl

end BlobStorage

-- ==== the edit

namespace ChargeState

variable (latest : SequenceNumber) (countSortedRun : Bool)

theorem edit_step (a : ChargeState) (f : UInt64 × Int64) :
    (a.step latest countSortedRun f).edit = a.edit
      ∨ (a.step latest countSortedRun f).edit = a.edit.deleteBlobFile f.1 latest := by
  unfold step
  cases hm : a.storage.findFile f.1 with
  | none => exact .inl rfl
  | some m =>
    have hnumber : m.fileNumber = f.1 := key_of_find hm
    dsimp only
    split
    · split <;> exact .inl rfl
    · split
      case isFalse => exact .inl rfl
      case isTrue =>
        unfold settleFile
        split
        · rw [addDiscardableSize_number, hnumber]
          exact .inr rfl
        · exact .inl rfl

/-- The loop leaves the edit its column family, and deletes no file
twice. -/
theorem edit_steps (l : List (UInt64 × Int64)) (a : ChargeState) :
    (l.foldl (step latest countSortedRun) a).edit.columnFamilyId = a.edit.columnFamilyId
      ∧ ∃ ns, ns.Sublist (l.map Prod.fst)
        ∧ (l.foldl (step latest countSortedRun) a).edit.deletedFiles.map Prod.fst
          = a.edit.deletedFiles.map Prod.fst ++ ns := by
  induction l generalizing a with
  | nil => exact ⟨rfl, [], .slnil, (append_nil _).symm⟩
  | cons f l ih =>
    obtain ⟨hfamily, ns, hsub, hdeleted⟩ := ih (a.step latest countSortedRun f)
    rw [foldl_cons, hfamily, hdeleted]
    rcases edit_step latest countSortedRun a f with hedit | hedit
    · rw [hedit]
      exact ⟨rfl, ns, hsub.cons _, rfl⟩
    · rw [hedit]
      refine ⟨rfl, f.1 :: ns, hsub.cons_cons _, ?_⟩
      show (a.edit.deletedFiles ++ [(f.1, latest)]).map Prod.fst ++ ns = _
      simp

end ChargeState

namespace CompactionJobInfo

variable (C : Coding) (env : CompactionEnv) (info : CompactionJobInfo)

/-- What `OnCompactionCompleted` makes of the storage before it applies
the edit, and the edit. -/
def charging (st : BlobStorage) : ChargeState :=
  chargeStorage env info (SizeDiff.calcBfs C info).diff
    (completeOutputs st (SizeDiff.calcBfs C info).outputs.entries).2

/-- The compaction leaves the file, a sorted one, without live data. -/
def Empties (fs : BlobFileSet) (n : UInt64) : Prop :=
  info.amount C n < 0 ∧ ∃ m, fs.file info.cfId n = some m
    ∧ m.fileType = kSorted ∧ (m.charged (info.amount C n)).noLiveData = true

/-- The edit is applied: it is written, and if the default column family
is open, the emptied files are live ones there. An output of the
compaction counts as live. -/
def EditApplies (fs : BlobFileSet) : Prop :=
  env.io = .ok ∧ ((fs.columnFamilies.lookup 0).isSome = true →
    ∀ n, info.Empties C fs n → (fs.live 0 n).isSome = true
      ∨ (info.cfId = 0 ∧ n ∈ (SizeDiff.calcBfs C info).outputs.entries))

variable {C env info}

theorem addedFiles_charging : (charging C env info st).edit.addedFiles = [] :=
  (frame_chargeStorage ..).1

/-- The edit is never told its column family. -/
theorem columnFamilyId_charging :
    (charging C env info st).edit.columnFamilyId = 0 := (edit_steps ..).1

theorem nodup_charging : ((charging C env info st).edit.deletedFiles.map Prod.fst).Nodup := by
  obtain ⟨-, ns, hsub, hdeleted⟩ := edit_steps env.latest _ (calcBfs C info).diff.entries
    { storage := (completeOutputs st (calcBfs C info).outputs.entries).2 }
  have hns : (charging C env info st).edit.deletedFiles.map Prod.fst = ns := hdeleted
  rw [hns]
  exact (calcBfs C info).diff.nodup.sublist hsub

/-- The file set when the edit comes to be applied. -/
def chargedSet (C : Coding) (env : CompactionEnv) (info : CompactionJobInfo)
    (fs : BlobFileSet) (st : BlobStorage) : BlobFileSet :=
  fs.onStorage info.cfId fun _ => (charging C env info st).storage

end CompactionJobInfo

-- ==== the file set

namespace BlobFileSet

theorem obsolete_onStorage_same (j : UInt32) {f : BlobStorage → BlobStorage}
    (hf : ∀ s : BlobStorage, (f s).obsolete n = s.obsolete n) :
    (fs.onStorage j f).obsolete i n = fs.obsolete i n := by
  unfold obsolete
  rw [file_onStorage]
  split
  · unfold file
    cases fs.columnFamilies.lookup i with
    | none => rfl
    | some s => exact hf s
  · rfl

theorem live_isSome_iff_obsolete :
    (fs.live i n).isSome = true ↔ (fs.file i n).isSome = true ∧ ¬ fs.obsolete i n = true := by
  unfold live obsolete
  cases fs.file i n with
  | none => simp
  | some m => cases hm : m.isObsolete <;> simp [hm]

end BlobFileSet

namespace CompactionJobInfo

variable {C : Coding} {env : CompactionEnv} {info : CompactionJobInfo}
  (hst : fs.columnFamilies.lookup info.cfId = some st)

theorem file_chargedSet_other (hi : i ≠ info.cfId) (n : UInt64) :
    (chargedSet C env info fs st).file i n = fs.file i n := by
  unfold chargedSet
  rw [BlobFileSet.file_onStorage, if_neg hi]

theorem lookup_chargedSet_isSome (i : UInt32) :
    ((chargedSet C env info fs st).columnFamilies.lookup i).isSome
      = (fs.columnFamilies.lookup i).isSome := by
  unfold chargedSet
  rw [BlobFileSet.lookup_onStorage]
  split <;> simp

include hst

theorem file_chargedSet (n : UInt64) :
    (chargedSet C env info fs st).file info.cfId n
      = (charging C env info st).storage.findFile n := by
  unfold chargedSet
  rw [BlobFileSet.file_onStorage, if_pos rfl, hst]
  rfl

theorem account_chargedSet (env : CompactionEnv) (n : UInt64) :
    (chargedSet C env info fs st).account info.cfId n
      = (fs.account info.cfId n).map (·.charged (info.amount C n)) := by
  have hstored : (chargedSet C env info fs st).account info.cfId n
      = (charging C env info st).storage.account n := by
    rw [BlobFileSet.account_eq, file_chargedSet hst]
    rfl
  have haccount : fs.account info.cfId n = st.account n := by
    unfold BlobFileSet.account
    rw [hst]
    rfl
  rw [hstored, haccount, ← account_completeOutputs st (calcBfs C info).outputs.entries]
  exact account_steps ..

theorem isSome_chargedSet (C : Coding) (env : CompactionEnv) (n : UInt64) :
    ((chargedSet C env info fs st).file info.cfId n).isSome = (fs.file info.cfId n).isSome := by
  have haccount := congrArg isSome (account_chargedSet (C := C) hst env n)
  rw [BlobFileSet.account_eq, BlobFileSet.account_eq] at haccount
  simpa using haccount

/-- The edit deletes the files the compaction empties. -/
theorem mem_deleted_charging (env : CompactionEnv)
    (hmerge : st.cfOptions.levelMerge = true) (n : UInt64) :
    n ∈ (charging C env info st).edit.deletedFiles.map Prod.fst ↔ info.Empties C fs n := by
  have hdeleted : ∀ d, d ∈ (charging C env info st).edit.deletedFiles
      ↔ d.2 = env.latest ∧ ∃ amount, (calcBfs C info).diff.lookup d.1 = some amount
        ∧ ChargeState.Emptied st d.1 amount := by
    intro d
    refine (mem_deleted_steps _ _ { storage := _ } _ d).trans ?_
    unfold ChargeState.Emptied
    rw [account_completeOutputs, completeOutputs_cfOptions]
    exact ⟨fun h => h.elim (fun h => nomatch h) id, .inr⟩
  have hcharged : ∀ (m : BlobFileMeta) (d : Int64),
      (m.account.charged d).noLiveData = (m.charged d).noLiveData := by
    intro m d
    unfold charged
    split <;> rfl
  unfold Empties amount
  rw [BlobFileSet.file_of_lookup hst, List.mem_map]
  constructor
  · rintro ⟨d, hd, rfl⟩
    obtain ⟨-, amount, hamount, -, hneg, m, hm, hsorted, hempty⟩ := (hdeleted d).1 hd
    obtain ⟨m, hfind, rfl⟩ := map_eq_some_iff.1 hm
    rw [hamount, getD_some]
    exact ⟨Int64.not_le.1 hneg, m, hfind, hsorted, hcharged m amount ▸ hempty⟩
  · rintro ⟨hneg, m, hm, hsorted, hempty⟩
    cases hamount : (calcBfs C info).diff.lookup n with
    | none =>
      rw [hamount] at hneg
      cases hneg
    | some amount =>
      rw [hamount, getD_some] at hneg hempty
      refine ⟨(n, env.latest), (hdeleted _).2 ⟨rfl, amount, hamount, hmerge,
        Int64.not_le.2 hneg, m.account, ?_, hsorted, ?_⟩, rfl⟩
      · unfold BlobStorage.account
        rw [hm]
        rfl
      · rw [hcharged]
        exact hempty

variable (hcounts : info.Counts C fs)

include hcounts

theorem completeOutputs_charging :
    completeOutputs st (calcBfs C info).outputs.entries
      = (true, (completeOutputs st (calcBfs C info).outputs.entries).2) := by
  refine Prod.ext ((completeOutputs_fst st _).2 fun n hn => ?_) rfl
  have haccount := hcounts.2.2 n hn
  unfold BlobFileSet.account at haccount
  rw [hst] at haccount
  exact haccount

/-- Charging retires no file; the outputs it takes for live ones. -/
theorem obsolete_chargedSet (env : CompactionEnv) (n : UInt64) :
    (chargedSet C env info fs st).obsolete info.cfId n = true
      ↔ n ∉ (calcBfs C info).outputs.entries ∧ fs.obsolete info.cfId n = true := by
  have hobsolete : (chargedSet C env info fs st).obsolete info.cfId n
      = (completeOutputs st (calcBfs C info).outputs.entries).2.obsolete n := by
    rw [← obsolete_chargeStorage env info (calcBfs C info).diff]
    unfold BlobFileSet.obsolete
    rw [file_chargedSet hst]
    rfl
  rw [hobsolete]
  by_cases hn : n ∈ (calcBfs C info).outputs.entries
  · rw [obsolete_completeOutputs hn (congrArg Prod.fst (completeOutputs_charging hst hcounts))]
    simp [hn]
  · unfold obsolete BlobFileSet.obsolete BlobFileSet.file
    rw [findFile_completeOutputs hn, hst]
    simp [hn]

/-- Which files the edit finds live in the default column family. -/
theorem live_chargedSet :
    ((chargedSet C env info fs st).live 0 n).isSome = true
      ↔ (fs.live 0 n).isSome = true ∨ (info.cfId = 0 ∧ n ∈ (calcBfs C info).outputs.entries) := by
  by_cases hfamily : info.cfId = 0
  case neg =>
    unfold BlobFileSet.live
    rw [file_chargedSet_other (Ne.symm hfamily)]
    simp [hfamily]
  case pos =>
    have hthere : n ∈ (calcBfs C info).outputs.entries → (fs.file info.cfId n).isSome = true := by
      intro hn
      have haccount := hcounts.2.2 n hn
      rw [BlobFileSet.account_eq] at haccount
      simpa [isSome_iff_ne_none] using haccount
    rw [← hfamily, BlobFileSet.live_isSome_iff_obsolete,
      BlobFileSet.live_isSome_iff_obsolete, isSome_chargedSet hst, obsolete_chargedSet hst hcounts]
    tauto

/-- The edit passes the checks and is written. -/
theorem editApplies_iff (hmerge : st.cfOptions.levelMerge = true) :
    ((chargedSet C env info fs st).Admits (charging C env info st).edit ∧ env.io = .ok)
      ↔ info.EditApplies C env fs := by
  unfold EditApplies
  rw [and_comm, BlobFileSet.admits_deletion_live_iff addedFiles_charging,
    columnFamilyId_charging, and_iff_right nodup_charging, lookup_chargedSet_isSome]
  simp only [mem_deleted_charging hst env hmerge, live_chargedSet hst hcounts]

variable (hmerge : st.cfOptions.levelMerge = true)

include hmerge

theorem onCompactionCompleted_charging (env : CompactionEnv) :
    (onCompactionCompleted C env fs info).2
      = ((chargedSet C env info fs st).logAndApply C
          (charging C env info st).edit env.io).2.onStorage info.cfId
        fun s => s.markFileIfNeedMerge env.sortEnds env.rangeMerge.maxSortedRuns
          (charging C env info st).files := by
  have hoptions : (completeOutputs st
      (calcBfs C info).outputs.entries).2.cfOptions.levelMerge = true := by
    rw [completeOutputs_cfOptions]
    exact hmerge
  rw [onCompactionCompleted_eq env hcounts.1 hst (completeOutputs_charging hst hcounts)]
  rw [if_pos hoptions]
  rfl

/-- The files after the edit. -/
theorem file_logged (env : CompactionEnv) :
    (info.EditApplies C env fs ∧ ∀ i n,
      ((chargedSet C env info fs st).logAndApply C (charging C env info st).edit env.io).2.file i n
      = if i = 0 then ((chargedSet C env info fs st).file i n).map
          (BlobFileSet.edited (charging C env info st).edit n)
        else (chargedSet C env info fs st).file i n)
    ∨ (¬ info.EditApplies C env fs ∧ ∀ i n,
      ((chargedSet C env info fs st).logAndApply C (charging C env info st).edit env.io).2.file i n
      = (chargedSet C env info fs st).file i n) := by
  by_cases happlies : info.EditApplies C env fs
  · refine .inl ⟨happlies, fun i n => ?_⟩
    obtain ⟨hadm, hio⟩ := (editApplies_iff hst hcounts hmerge).2 happlies
    rw [hio, BlobFileSet.file_deletion addedFiles_charging hadm, columnFamilyId_charging]
  · refine .inr ⟨happlies, fun i n => BlobFileSet.file_of_not_applied ?_ i n⟩
    rw [editApplies_iff hst hcounts hmerge]
    exact happlies

omit hcounts in
theorem edited_charging_state (env : CompactionEnv) (m : BlobFileMeta) :
    (info.Empties C fs n →
      (BlobFileSet.edited (charging C env info st).edit n m).state = .kObsolete)
    ∧ (¬ info.Empties C fs n →
      (BlobFileSet.edited (charging C env info st).edit n m).state = m.state) := by
  unfold BlobFileSet.edited
  rw [← mem_deleted_charging hst env hmerge]
  constructor
  · intro h
    rw [if_pos h]
    rfl
  · intro h
    rw [if_neg h]
    rfl

/-- The obsolete files of the column family after the compaction: the edit
is one of the default column family. -/
theorem obsolete_onCompactionCompleted (env : CompactionEnv) (n : UInt64) :
    (onCompactionCompleted C env fs info).2.obsolete info.cfId n = true
      ↔ (info.cfId = 0 ∧ info.EditApplies C env fs ∧ info.Empties C fs n)
        ∨ (n ∉ (calcBfs C info).outputs.entries ∧ fs.obsolete info.cfId n = true) := by
  rw [onCompactionCompleted_charging hst hcounts hmerge,
    BlobFileSet.obsolete_onStorage_same _ fun s => obsolete_markFileIfNeedMerge ..,
    ← obsolete_chargedSet hst hcounts env]
  have hsome : info.Empties C fs n →
      ((chargedSet C env info fs st).file info.cfId n).isSome = true := by
    rintro ⟨-, m, hm, -⟩
    rw [isSome_chargedSet hst, hm]
    rfl
  unfold BlobFileSet.obsolete
  rcases file_logged hst hcounts hmerge env with
    ⟨happlies, hfile⟩ | ⟨hrefused, hfile⟩
  case inr =>
    rw [hfile]
    simp [hrefused]
  case inl =>
    rw [hfile]
    by_cases hfamily : info.cfId = 0
    case neg => simp [hfamily]
    case pos =>
      simp only [hfamily, happlies, true_and]
      have hstate := edited_charging_state (C := C) hst hmerge env (n := n)
      cases hm : (chargedSet C env info fs st).file 0 n with
      | none =>
        rw [hfamily, hm] at hsome
        simpa using hsome
      | some m =>
        by_cases hempty : info.Empties C fs n
        · simp [hempty, isObsolete, (hstate m).1 hempty]
        · simp [hempty, isObsolete, (hstate m).2 hempty]

omit hcounts in
/-- An applied edit changes the state of every file it names, for it was
admitted and so the files were live. -/
theorem state_edited_iff {env : CompactionEnv}
    (happlies : info.EditApplies C env fs) (hfamily : info.cfId ≠ 0) (n : UInt64) :
    ((fs.file 0 n).map (BlobFileSet.edited (charging C env info st).edit n)).map (·.state)
        = (fs.file 0 n).map (·.state)
      ↔ ¬ ((fs.columnFamilies.lookup 0).isSome = true ∧ info.Empties C fs n) := by
  have hstate := edited_charging_state (C := C) hst hmerge env (n := n)
  by_cases hempty : info.Empties C fs n
  case neg =>
    simp only [hempty, and_false, not_false_iff, iff_true]
    cases fs.file 0 n with
    | none => rfl
    | some m => exact congrArg some ((hstate m).2 hempty)
  case pos =>
    by_cases hopen : (fs.columnFamilies.lookup 0).isSome = true
    case neg =>
      have hnone : fs.file 0 n = none := by
        unfold BlobFileSet.file
        rw [not_isSome_iff_eq_none.1 hopen]
        rfl
      simp [hnone, hopen]
    case pos =>
      obtain ⟨m, hm, hobsolete⟩ := BlobFileSet.live_isSome_iff.1
        ((happlies.2 hopen n hempty).resolve_right fun h => hfamily h.1)
      have hne : m.state ≠ .kObsolete := by
        exact of_decide_eq_false hobsolete
      simp [hm, hopen, hempty, (hstate m).1 hempty, hne.symm]

/-- The states of the other column families after the compaction. -/
theorem state_onCompactionCompleted_other (env : CompactionEnv) (hi : i ≠ info.cfId) (n : UInt64) :
    ((onCompactionCompleted C env fs info).2.file i n).map (·.state) = (fs.file i n).map (·.state)
      ↔ ¬ (i = 0 ∧ (fs.columnFamilies.lookup 0).isSome = true
        ∧ info.EditApplies C env fs ∧ info.Empties C fs n) := by
  have hother : (onCompactionCompleted C env fs info).2.file i n
      = ((chargedSet C env info fs st).logAndApply C
        (charging C env info st).edit env.io).2.file i n := by
    rw [onCompactionCompleted_charging hst hcounts hmerge, BlobFileSet.file_onStorage, if_neg hi]
  rw [hother]
  rcases file_logged hst hcounts hmerge env with
    ⟨happlies, hfile⟩ | ⟨hrefused, hfile⟩
  case inr =>
    rw [hfile, file_chargedSet_other hi]
    simp [hrefused]
  case inl =>
    rw [hfile, file_chargedSet_other hi]
    by_cases hfamily : i = 0
    case neg => simp [hfamily]
    case pos =>
      subst hfamily
      rw [if_pos rfl, state_edited_iff hst hmerge happlies (Ne.symm hi)]
      simp [happlies]

end CompactionJobInfo

-- ==== the compaction

namespace CompactionJobInfo

variable {C : Coding} {info : CompactionJobInfo}

/-- The bookkeeping of the compaction reaches its column family: every
sorted file there that an input table refers to and that has no live data
is obsolete, and in no other column family a file changed state. -/
structure Reaches (C : Coding) (info : CompactionJobInfo) (fs fs' : BlobFileSet) : Prop where
  retired : ∀ n m, info.Input C n → fs'.file info.cfId n = some m →
    m.fileType = kSorted → m.noLiveData = true → m.isObsolete = true
  others : ∀ i ≠ info.cfId, ∀ n, (fs'.file i n).map (·.state) = (fs.file i n).map (·.state)

/-- What that takes. If all outputs are there, a sorted file that an input
table refers to, left without live data, was obsolete before, or it is one
of the default column family which the compaction has charged and the edit
is applied; and of any other column family the compaction empties no file
with an edit that is applied. With an output missing, such a file without
live data was obsolete before. -/
structure Targeted (C : Coding) (env : CompactionEnv)
    (info : CompactionJobInfo) (fs : BlobFileSet) : Prop where
  retired : info.Counts C fs → ∀ n m, info.Input C n →
    fs.file info.cfId n = some m → m.fileType = kSorted →
    (m.charged (info.amount C n)).noLiveData = true →
    m.isObsolete = true ∨ (info.cfId = 0 ∧ info.EditApplies C env fs ∧ info.amount C n < 0)
  others : info.Counts C fs → info.cfId ≠ 0 →
    (fs.columnFamilies.lookup 0).isSome = true → info.EditApplies C env fs →
    ∀ n, ¬ info.Empties C fs n
  missing : ¬ info.Counts C fs → ∀ n m, info.Input C n →
    fs.file info.cfId n = some m → m.fileType = kSorted →
    m.noLiveData = true → m.isObsolete = true

theorem charged_fileType (m : BlobFileMeta) (d : Int64) : (m.charged d).fileType = m.fileType := by
  unfold charged
  split <;> rfl

/-- The file as charged, but for its state, is the file after the
compaction. -/
theorem exists_file_iff (hst : fs.columnFamilies.lookup info.cfId = some st)
    (env : CompactionEnv) (hcounts : info.Counts C fs) (n : UInt64) :
    (∃ m, (onCompactionCompleted C env fs info).2.file info.cfId n = some m
        ∧ m.fileType = kSorted ∧ m.noLiveData = true)
      ↔ ∃ m, fs.file info.cfId n = some m ∧ m.fileType = kSorted
        ∧ (m.charged (info.amount C n)).noLiveData = true := by
  have haccount := (onCompactionCompleted_counts env hst hcounts).1 n
  rw [BlobFileSet.account_eq, BlobFileSet.account_eq, Option.map_map] at haccount
  cases hm : fs.file info.cfId n with
  | none =>
    rw [hm] at haccount
    simp [map_eq_none_iff.1 haccount]
  | some m =>
    rw [hm] at haccount
    obtain ⟨m', hm', heq⟩ := map_eq_some_iff.1 haccount
    have htype : m'.fileType = m.fileType := (congrArg fileType heq).trans (charged_fileType ..)
    have hlive : m'.noLiveData = (m.charged (info.amount C n)).noLiveData := by
      refine (congrArg noLiveData heq).trans ?_
      unfold Function.comp charged
      split <;> rfl
    simp [hm', htype, hlive]

/-- With an output missing, only outputs change. -/
theorem file_missing (hok : info.status.isOk = true)
    (hst : fs.columnFamilies.lookup info.cfId = some st) (env : CompactionEnv)
    (hcounts : ¬ info.Counts C fs) (hn : i = info.cfId → n ∉ (calcBfs C info).outputs.entries) :
    (onCompactionCompleted C env fs info).2.file i n = fs.file i n := by
  have hfst : (completeOutputs st (calcBfs C info).outputs.entries).1 = false := by
    rw [← Bool.not_eq_true]
    intro hfst
    refine hcounts ⟨hok, ?_, fun k hk => ?_⟩
    · exact isSome_iff_ne_none.1 (congrArg isSome hst)
    · unfold BlobFileSet.account
      rw [hst]
      exact (completeOutputs_fst st _).1 hfst k hk
  rw [onCompactionCompleted_missing env hok hst (Prod.ext hfst rfl), BlobFileSet.file_onStorage]
  split
  case isFalse => rfl
  case isTrue hi =>
    rw [hi, BlobFileSet.file_of_lookup hst, hst]
    exact findFile_completeOutputs (hn hi) st

section parts

variable (hst : fs.columnFamilies.lookup info.cfId = some st)

include hst

/-- With an output missing, the files inputs refer to are as they were. -/
theorem reaches_missing_iff (hok : info.status.isOk = true)
    (env : CompactionEnv) (hcounts : ¬ info.Counts C fs) :
    info.Reaches C fs (onCompactionCompleted C env fs info).2
      ↔ ∀ n m, info.Input C n → fs.file info.cfId n = some m →
        m.fileType = kSorted → m.noLiveData = true → m.isObsolete = true := by
  have hfile : ∀ {i n}, (i = info.cfId → info.Input C n) →
      (onCompactionCompleted C env fs info).2.file i n = fs.file i n :=
    fun hinput => file_missing hok hst env hcounts fun hi => not_mem_outputs_of_input (hinput hi)
  constructor
  · intro h n m hinput hm
    refine h.retired n m hinput ?_
    rw [hfile fun _ => hinput]
    exact hm
  · intro h
    refine ⟨fun n m hinput hm => ?_, fun i hi n => ?_⟩
    · rw [hfile fun _ => hinput] at hm
      exact h n m hinput hm
    · rw [hfile fun hcf => absurd hcf hi]

variable (hcounts : info.Counts C fs)
  (hmerge : st.cfOptions.levelMerge = true) (env : CompactionEnv)

include hcounts hmerge

/-- When a file without live data is obsolete after the compaction. -/
theorem retired_iff (hinput : info.Input C n) :
    (∀ m, (onCompactionCompleted C env fs info).2.file info.cfId n = some m →
        m.fileType = kSorted → m.noLiveData = true → m.isObsolete = true)
      ↔ ∀ m, fs.file info.cfId n = some m → m.fileType = kSorted →
        (m.charged (info.amount C n)).noLiveData = true →
        m.isObsolete = true ∨ (info.cfId = 0 ∧ info.EditApplies C env fs
          ∧ info.amount C n < 0) := by
  have hobsolete := obsolete_onCompactionCompleted hst hcounts hmerge env n
  have hfile := exists_file_iff hst env hcounts n
  constructor
  · intro h m hm hsorted hempty
    obtain ⟨m', hm', hsorted', hempty'⟩ := hfile.2 ⟨m, hm, hsorted, hempty⟩
    have hafter : (onCompactionCompleted C env fs info).2.obsolete info.cfId n = true := by
      unfold BlobFileSet.obsolete
      rw [hm']
      exact h m' hm' hsorted' hempty'
    rcases hobsolete.1 hafter with ⟨h0, happlies, hempties⟩ | ⟨-, hold⟩
    · exact .inr ⟨h0, happlies, hempties.1⟩
    · unfold BlobFileSet.obsolete at hold
      rw [hm] at hold
      exact .inl hold
  · intro h m' hm' hsorted' hempty'
    obtain ⟨m, hm, hsorted, hempty⟩ := hfile.1 ⟨m', hm', hsorted', hempty'⟩
    have hafter : (onCompactionCompleted C env fs info).2.obsolete info.cfId n = true := by
      rw [hobsolete]
      rcases h m hm hsorted hempty with hold | ⟨h0, happlies, hneg⟩
      · refine .inr ⟨not_mem_outputs_of_input hinput, ?_⟩
        unfold BlobFileSet.obsolete
        rw [hm]
        exact hold
      · exact .inl ⟨h0, happlies, hneg, m, hm, hsorted, hempty⟩
    unfold BlobFileSet.obsolete at hafter
    rw [hm'] at hafter
    exact hafter

/-- When the other column families are left alone. -/
theorem others_iff :
    (∀ i ≠ info.cfId, ∀ n,
        ((onCompactionCompleted C env fs info).2.file i n).map (·.state)
          = (fs.file i n).map (·.state))
      ↔ (info.cfId ≠ 0 → (fs.columnFamilies.lookup 0).isSome = true →
        info.EditApplies C env fs → ∀ n, ¬ info.Empties C fs n) := by
  have hstate := fun i (hi : i ≠ info.cfId) n =>
    state_onCompactionCompleted_other hst hcounts hmerge env hi n
  constructor
  · intro h hfamily hopen happlies n hempties
    exact (hstate 0 (Ne.symm hfamily) n).1 (h 0 (Ne.symm hfamily) n)
      ⟨rfl, hopen, happlies, hempties⟩
  · intro h i hi n
    rw [hstate i hi n]
    rintro ⟨rfl, hopen, happlies, hempties⟩
    exact h (Ne.symm hi) hopen happlies n hempties

end parts

end CompactionJobInfo

/-- **The column family of the edit.** With `level_merge` on, the
bookkeeping of a successful compaction reaches its column family, and no
other, exactly if it is targeted. -/
theorem onCompactionCompleted_reaches_iff {C : Coding}
    {info : CompactionJobInfo} {fs : BlobFileSet} {st : BlobStorage} (hok : info.status.isOk = true)
    (hst : fs.columnFamilies.lookup info.cfId = some st)
    (hmerge : st.cfOptions.levelMerge = true) (env : CompactionEnv) :
    info.Reaches C fs (onCompactionCompleted C env fs info).2 ↔ info.Targeted C env fs := by
  by_cases hcounts : info.Counts C fs
  case neg =>
    rw [CompactionJobInfo.reaches_missing_iff hst hok env hcounts]
    exact ⟨fun h => ⟨fun hc => absurd hc hcounts, fun hc => absurd hc hcounts,
      fun _ => h⟩, fun h => h.missing hcounts⟩
  case pos =>
    have hretired := fun n (hinput : info.Input C n) =>
      CompactionJobInfo.retired_iff hst hcounts hmerge env hinput
    have hothers := CompactionJobInfo.others_iff hst hcounts hmerge env
    constructor
    · intro h
      exact ⟨fun _ n m hinput => (hretired n hinput).1 (fun m' => h.retired n m' hinput) m,
        fun _ => hothers.1 h.others, fun hc => absurd hcounts hc⟩
    · intro h
      exact ⟨fun n m hinput => (hretired n hinput).2 (fun m' => h.retired hcounts n m' hinput) m,
        hothers.2 (h.others hcounts)⟩

/-- An empty storage with `level_merge` on. -/
def mergedEmpty : BlobStorage :=
  { dbOptions := {}, cfOptions := { levelMerge := true } }

/-- The default column family, and one with the file of ten bytes. -/
def holdsTen (cfId : UInt32) : BlobFileSet where
  columnFamilies := (Table.empty.insert 0 mergedEmpty).insert cfId
    (mergedEmpty.addBlobFile Lsm.tenBytes)

/-- A compaction that drops the only entry referring to it. -/
def dropTen (cfId : UInt32) : CompactionJobInfo :=
  Note.compactionInfo cfId [Lsm.tenBytesTable] [] 1

variable (cfId : UInt32)

theorem lookup_holdsTen :
    (holdsTen cfId).columnFamilies.lookup cfId = some (mergedEmpty.addBlobFile Lsm.tenBytes) := by
  unfold holdsTen
  rw [lookup_insert, if_pos rfl]

theorem file_holdsTen {cfId : UInt32} {m : BlobFileMeta}
    (h : (holdsTen cfId).file cfId n = some m) : n = 1 ∧ m = Lsm.tenBytes := by
  unfold BlobFileSet.file at h
  rw [lookup_holdsTen] at h
  have hmem : m ∈ [Lsm.tenBytes] := mem_of_find h
  rw [mem_singleton.1 hmem] at h ⊢
  exact ⟨(key_of_find h).symm, rfl⟩

theorem outputs_dropTen : (calcBfs base128 (dropTen cfId)).outputs.entries = [] := rfl

theorem counts_dropTen : (dropTen cfId).Counts base128 (holdsTen cfId) := by
  refine ⟨rfl, ?_, fun n hn => ?_⟩
  · unfold BlobFileSet.getBlobStorage
    rw [show (dropTen cfId).cfId = cfId from rfl, lookup_holdsTen]
    exact some_ne_none _
  · rw [outputs_dropTen] at hn
    exact absurd hn not_mem_nil

/-- In the default column family the file is retired. -/
theorem dropTen_reaches :
    (dropTen 0).Reaches base128 (holdsTen 0)
      (onCompactionCompleted base128 {} (holdsTen 0) (dropTen 0)).2 := by
  refine (onCompactionCompleted_reaches_iff rfl (lookup_holdsTen 0) rfl {}).2
    ⟨fun _ n m _ hm _ _ => ?_, fun _ h0 => (h0 rfl).elim, fun hc => absurd (counts_dropTen 0) hc⟩
  · obtain ⟨rfl, rfl⟩ := file_holdsTen hm
    refine .inr ⟨rfl, ⟨rfl, fun _ k hk => .inl ?_⟩, by decide +kernel⟩
    obtain ⟨-, m, hm, -⟩ := hk
    obtain ⟨rfl, rfl⟩ := file_holdsTen hm
    decide +kernel

/-- In any other one the edit asks the default column family for it: the
file stays live, without live data. -/
theorem dropTen_misses :
    (dropTen 1).Input base128 1
      ∧ ¬ (dropTen 1).Reaches base128 (holdsTen 1)
        (onCompactionCompleted base128 {} (holdsTen 1) (dropTen 1)).2
      ∧ ∃ m, (onCompactionCompleted base128 {} (holdsTen 1) (dropTen 1)).2.file 1 1 = some m
        ∧ m.fileType = kSorted ∧ m.noLiveData = true ∧ m.isObsolete = false := by
  have hst : (holdsTen 1).columnFamilies.lookup (dropTen 1).cfId = some _ := lookup_holdsTen 1
  have hcounts := counts_dropTen 1
  have hinput : (dropTen 1).Input base128 1 := ⟨"1.sst", by decide +kernel, by decide +kernel⟩
  obtain ⟨m, hm, hsorted, hempty⟩ := (CompactionJobInfo.exists_file_iff hst {} hcounts 1).2
    ⟨Lsm.tenBytes, by decide +kernel, rfl, by decide +kernel⟩
  have hlive : m.isObsolete = false := by
    rw [← Bool.not_eq_true]
    intro hm'
    have hafter : (onCompactionCompleted base128 {} (holdsTen 1)
        (dropTen 1)).2.obsolete (dropTen 1).cfId 1 = true := by
      unfold BlobFileSet.obsolete
      rw [hm]
      exact hm'
    rcases (CompactionJobInfo.obsolete_onCompactionCompleted hst hcounts rfl {} 1).1 hafter with
      ⟨hfalse, -⟩ | ⟨-, hold⟩
    · revert hfalse
      decide
    · revert hold
      decide +kernel
  refine ⟨hinput, fun h => ?_, m, hm, hsorted, hempty, hlive⟩
  rw [h.retired 1 m hinput hm hsorted hempty] at hlive
  cases hlive

end DiffKV
