/-
What a notification does to one blob file.

Everything but the state of a file is its `account`: the size and type
it was installed with, and the counter of discardable bytes. A flush
adds `flushDiscardable` of the table's bytes to the counter, a
compaction the bytes by which its outputs refer to less of the file than
its inputs did, and nothing else touches an account. Files do not
interfere: both handlers go through a map with one entry per file.
-/
import DiffKV.Notifications
import DiffKV.Proofs.Files

namespace DiffKV

open Lib Relation List BlobFileMeta VersionEdit Table CFEditCollector SizeDiff ChargeState

/-- Everything about a file but its state. -/
def BlobFileMeta.account (m : BlobFileMeta) : BlobFileMeta :=
  { m with state := .kInit }

namespace BlobStorage

/-- The account of file `n`. -/
def account (s : BlobStorage) (n : UInt64) : Option BlobFileMeta :=
  (s.findFile n).map BlobFileMeta.account

variable (s : BlobStorage) (n k : UInt64)

@[simp] theorem account_transit (e : FileEvent) : (s.transit k e).account n = s.account n := by
  unfold account
  rw [findFile_transit]
  split
  · rw [Option.map_map]
    rfl
  · rfl

theorem account_charge (amount : UInt64) :
    (s.charge k amount).account n
      = if n = k then (s.account n).map (·.addDiscardableSize amount) else s.account n := by
  unfold account
  rw [show (s.charge k amount).findFile n = _ from
    find_modify s.files k (·.addDiscardableSize amount) (fun _ => rfl) n]
  split
  · rw [Option.map_map, Option.map_map]
    rfl
  · rfl

/-- There is nothing to change in the account of a file that is not
there. -/
theorem account_of_missing {n k : UInt64} (hk : s.findFile k = none)
    {f : BlobFileMeta → BlobFileMeta} :
    s.account n = if n = k then (s.account n).map f else s.account n := by
  split
  case isTrue heq =>
    unfold account
    rw [heq, hk]
    rfl
  case isFalse => rfl

end BlobStorage

-- ==== flushes

/-- An account after a flush of a table with `size` bytes in the file. -/
def BlobFileMeta.flushed (m : BlobFileMeta) (size : UInt64) : BlobFileMeta :=
  m.addDiscardableSize (m.flushDiscardable size)

theorem account_flushFile (acc : BlobStorage × UInt64) (f : UInt64 × UInt64) (n : UInt64) :
    (flushFile acc f).1.account n
      = if n = f.1 then (acc.1.account n).map (·.flushed f.2) else acc.1.account n := by
  unfold flushFile
  cases hfind : acc.1.findFile f.1 with
  | none => exact acc.1.account_of_missing hfind
  | some m =>
    rw [BlobStorage.account_transit, BlobStorage.account_charge]
    split
    · next heq =>
        unfold BlobStorage.account BlobStorage.findFile
        rw [heq, show acc.1.files.find f.1 = some m from hfind]
        rfl
    · rfl

/-- A loop of `OnFlushCompleted`. -/
theorem account_flushFiles (sizes : BlobFilesSize) (s : BlobStorage) (n : UInt64) :
    (sizes.entries.foldl flushFile (s, 0)).1.account n
      = (sizes.lookup n).elim (s.account n) fun size => (s.account n).map (·.flushed size) :=
  foldl_entries_view (fun (acc : BlobStorage × UInt64) n => acc.1.account n)
    (fun size o => o.map (·.flushed size)) account_flushFile sizes (s, 0) n

-- ==== compactions

/-- An account after an entry of `blob_files_size_diff`. -/
def BlobFileMeta.charged (m : BlobFileMeta) (d : Int64) : BlobFileMeta :=
  if d ≥ 0 then m else m.addDiscardableSize (-d).toUInt64

theorem account_completeOutputs (s : BlobStorage) (outputs : List UInt64)
    (n : UInt64) : (completeOutputs s outputs).2.account n = s.account n := by
  induction outputs generalizing s with
  | nil => rfl
  | cons k outputs ih =>
    unfold completeOutputs
    cases s.findFile k with
    | none => rfl
    | some m => exact (ih _).trans (s.account_transit n k _)

namespace ChargeState

variable (latest : SequenceNumber) (countSortedRun : Bool) (a : ChargeState)
  (m : BlobFileMeta) (f : UInt64 × Int64)

@[simp] theorem cfOptions_chargeFile (d : UInt64) :
    (a.chargeFile m d).storage.cfOptions = a.storage.cfOptions := by
  unfold chargeFile
  dsimp only
  split <;> rfl

theorem findFile_chargeFile (d n : UInt64) :
    (a.chargeFile m d).storage.findFile n = if n = m.fileNumber then
          (a.storage.findFile n).map (·.addDiscardableSize d)
        else a.storage.findFile n := by
  have hcharge : (a.storage.charge m.fileNumber d).findFile n = _ :=
    find_modify a.storage.files m.fileNumber (·.addDiscardableSize d) (fun _ => rfl) n
  unfold chargeFile
  dsimp only
  split <;> exact hcharge

@[simp] theorem account_chargeFile (amount n : UInt64) :
    (a.chargeFile m amount).storage.account n
      = (a.storage.charge m.fileNumber amount).account n := by
  unfold chargeFile
  dsimp only
  split <;> rfl

@[simp] theorem account_settleFile (n : UInt64) :
    (a.settleFile latest countSortedRun m).storage.account n = a.storage.account n := by
  unfold settleFile
  split
  · rfl
  · split
    · exact BlobStorage.account_transit ..
    · rfl

theorem account_step (n : UInt64) :
    (a.step latest countSortedRun f).storage.account n
      = if n = f.1 then (a.storage.account n).map (·.charged f.2) else a.storage.account n := by
  unfold step
  cases hfind : a.storage.findFile f.1 with
  | none => exact a.storage.account_of_missing hfind
  | some m =>
    have hnumber : m.fileNumber = f.1 := key_of_find hfind
    dsimp only
    split
    case isTrue hd =>
      have hsame : ∀ o : Option BlobFileMeta, o.map (·.charged f.2) = o := by
        intro o
        cases o with
        | none => rfl
        | some m => exact congrArg some (if_pos hd)
      rw [hsame, ite_self]
      split <;> rfl
    case isFalse hd =>
      have hcharge : (a.chargeFile m (-f.2).toUInt64).storage.account n
          = if n = f.1 then (a.storage.account n).map (·.charged f.2) else a.storage.account n := by
        rw [account_chargeFile, BlobStorage.account_charge, hnumber]
        unfold charged
        simp only [if_neg hd]
      split
      · exact (account_settleFile ..).trans hcharge
      · exact hcharge

/-- The loop over `blob_files_size_diff`. -/
theorem account_steps (diff : Map UInt64 Int64) (n : UInt64) :
    (diff.entries.foldl (step latest countSortedRun) a).storage.account n
      = (a.storage.account n).map (·.charged ((diff.lookup n).getD 0)) := by
  refine (foldl_entries_view (fun (a : ChargeState) n => a.storage.account n)
    (fun d o => o.map (·.charged d))
    (fun a f n => account_step latest countSortedRun a f n) diff a n).trans ?_
  cases diff.lookup n with
  | some d => rfl
  | none => cases a.storage.account n <;> rfl

-- ---- the edit

/-- What the loop is made of. Only a sorted file is marked or counted as
a run. -/
inductive Touch (a : ChargeState) : ChargeState → Prop
  | charge (m : BlobFileMeta) (amount : UInt64) : Touch a (a.chargeFile m amount)
  | mark {n : UInt64} (h : ∀ m, a.storage.findFile n = some m → m.fileType = kSorted) :
      Touch a { a with storage := a.storage.transit n .kNeedGC }
  | count {n : UInt64} (h : ∀ m, a.storage.findFile n = some m → m.fileType = kSorted) :
      Touch a { a with files := a.files ++ [n] }
  | delete (n : UInt64) (latest : SequenceNumber) :
      Touch a { a with edit := a.edit.deleteBlobFile n latest }

theorem sorted_of_countsAsRun {s : BlobStorage} {m : BlobFileMeta}
    (h : countsAsRun countSortedRun s m = true) : m.fileType = kSorted := by
  unfold countsAsRun at h
  simp only [Bool.and_eq_true, decide_eq_true_eq] at h
  exact h.1.2

theorem touches_settleFile {m : BlobFileMeta}
    (hm : ∀ m', a.storage.findFile m.fileNumber = some m' → m'.fileType = m.fileType) :
    ReflTransGen Touch a (a.settleFile latest countSortedRun m) := by
  unfold settleFile
  split
  case isTrue => exact .single (.delete ..)
  case isFalse =>
    -- first the mark, then the count
    let marked : ChargeState := { a with
      storage :=
        if m.fileType = kSorted && decide (m.getDiscardableRatio
            > a.storage.cfOptions.blobFileDiscardableRatio) then
          a.storage.transit m.fileNumber .kNeedGC
        else a.storage }
    have hmarked : ReflTransGen Touch a marked
        ∧ ∀ m', marked.storage.findFile m.fileNumber = some m' → m'.fileType = m.fileType := by
      dsimp only [marked]
      split
      case isFalse => exact ⟨.refl, hm⟩
      case isTrue hmarks =>
        rw [Bool.and_eq_true, decide_eq_true_eq] at hmarks
        refine ⟨.single (.mark fun m' hm' => (hm m' hm').trans hmarks.1), ?_⟩
        intro m' hm'
        rw [BlobStorage.findFile_transit, if_pos rfl] at hm'
        obtain ⟨m₀, hm₀, rfl⟩ := Option.map_eq_some_iff.1 hm'
        exact hm m₀ hm₀
    have hcounted : ReflTransGen Touch marked { marked with
        files := if countsAsRun countSortedRun a.storage m then
          a.files ++ [m.fileNumber] else a.files } := by
      split
      case isFalse => exact .refl
      case isTrue hcounts =>
        exact .single (.count fun m' hm' =>
          (hmarked.2 m' hm').trans (sorted_of_countsAsRun _ hcounts))
    exact hmarked.1.trans hcounted

theorem touches_step : ReflTransGen Touch a (a.step latest countSortedRun f) := by
  unfold step
  cases hm : a.storage.findFile f.1 with
  | none => exact .refl
  | some m =>
    have hnumber : m.fileNumber = f.1 := key_of_find hm
    dsimp only
    split
    case isTrue =>
      split
      case isFalse => exact .refl
      case isTrue hcounts =>
        refine .single (.count fun m' hm' => ?_)
        rw [hnumber, hm] at hm'
        cases hm'
        exact sorted_of_countsAsRun _ hcounts
    case isFalse =>
      refine .head (.charge m (-f.2).toUInt64) ?_
      split
      case isFalse => exact .refl
      case isTrue =>
        refine touches_settleFile latest countSortedRun _ fun m' hm' => ?_
        rw [findFile_chargeFile, addDiscardableSize_number, if_pos rfl, hnumber, hm] at hm'
        cases hm'
        rfl

theorem touches_steps (l : List (UInt64 × Int64)) :
    ReflTransGen Touch a (l.foldl (step latest countSortedRun) a) := by
  induction l generalizing a with
  | nil => exact .refl
  | cons f l ih => exact (touches_step latest countSortedRun a f).trans (ih _)

/-- The loop neither adds files nor updates sizes through the edit, and
leaves the options. -/
theorem frame_touches {b : ChargeState} (h : ReflTransGen Touch a b) :
    b.edit.addedFiles = a.edit.addedFiles
      ∧ b.edit.updatedDiscardableSize = a.edit.updatedDiscardableSize
      ∧ b.storage.cfOptions = a.storage.cfOptions := by
  induction h with
  | refl => exact ⟨rfl, rfl, rfl⟩
  | tail _ hlast ih =>
    cases hlast with
    | charge => exact ⟨ih.1, ih.2.1, (cfOptions_chargeFile ..).trans ih.2.2⟩
    | mark | count | delete => exact ih

/-- The file has no live data after the entry `amount` of the map. -/
def Emptied (s : BlobStorage) (n : UInt64) (amount : Int64) : Prop :=
  s.cfOptions.levelMerge = true ∧ ¬ amount ≥ 0 ∧ ∃ m, s.account n = some m
    ∧ m.fileType = kSorted ∧ (m.charged amount).noLiveData = true

theorem mem_deleted_step (d : UInt64 × SequenceNumber) :
    d ∈ (a.step latest countSortedRun f).edit.deletedFiles
      ↔ d ∈ a.edit.deletedFiles ∨ (d = (f.1, latest) ∧ Emptied a.storage f.1 f.2) := by
  unfold step Emptied
  cases hfind : a.storage.findFile f.1 with
  | none =>
    have hnone : a.storage.account f.1 = none := by
      unfold BlobStorage.account
      rw [hfind]
      rfl
    simp [hnone]
  | some m =>
    have hnumber : m.fileNumber = f.1 := key_of_find hfind
    have hsome : a.storage.account f.1 = some m.account := by
      unfold BlobStorage.account
      rw [hfind]
      rfl
    dsimp only
    split
    case isTrue hd =>
      have hedit : (if countsAsRun countSortedRun a.storage m then
          { a with files := a.files ++ [m.fileNumber] } else a).edit = a.edit := by
        split <;> rfl
      rw [hedit]
      simp [hd]
    case isFalse hd =>
      have hcharged : m.account.charged f.2
          = (m.addDiscardableSize (-f.2).toUInt64).account := if_neg hd
      rw [cfOptions_chargeFile, hsome]
      simp only [Option.some.injEq, exists_eq_left', hcharged]
      split
      case isFalse hmerge => simp [hmerge, chargeFile]
      case isTrue hmerge =>
        unfold settleFile
        rw [show (m.addDiscardableSize (-f.2).toUInt64).fileNumber = f.1 from hnumber]
        split
        case isTrue hempty =>
          simp only [Bool.and_eq_true, decide_eq_true_eq] at hempty
          show d ∈ a.edit.deletedFiles ++ [(f.1, latest)] ↔ _
          rw [mem_append, mem_singleton]
          exact or_congr_right ⟨fun h => ⟨h, hmerge, hd, hempty.2, hempty.1⟩, fun h => h.1⟩
        case isFalse hempty =>
          simp only [Bool.and_eq_true, decide_eq_true_eq] at hempty
          exact ⟨.inl, fun h => h.elim id fun h =>
            absurd ⟨h.2.2.2.2, h.2.2.2.1⟩ hempty⟩

/-- The files the loop deletes. -/
theorem mem_deleted_steps (diff : Map UInt64 Int64) (d : UInt64 × SequenceNumber) :
    d ∈ (diff.entries.foldl (step latest countSortedRun) a).edit.deletedFiles
      ↔ d ∈ a.edit.deletedFiles
        ∨ (d.2 = latest ∧ ∃ amount, diff.lookup d.1 = some amount
          ∧ Emptied a.storage d.1 amount) := by
  have hloop : ∀ (l : List (UInt64 × Int64)), (l.map Prod.fst).Nodup → ∀ a : ChargeState,
      (d ∈ (l.foldl (step latest countSortedRun) a).edit.deletedFiles
        ↔ d ∈ a.edit.deletedFiles ∨ (d.2 = latest ∧ ∃ amount,
          (d.1, amount) ∈ l ∧ Emptied a.storage d.1 amount)) := by
    intro l
    induction l with
    | nil => simp
    | cons f l ih =>
      intro hnodup a
      rw [map_cons, nodup_cons] at hnodup
      -- the entries still to come are of other files
      have hlater : ∀ amount, (d.1, amount) ∈ l →
          (Emptied (a.step latest countSortedRun f).storage d.1 amount
            ↔ Emptied a.storage d.1 amount) := by
        intro amount hmem
        have hne : d.1 ≠ f.1 := fun heq =>
          hnodup.1 (mem_map.2 ⟨_, hmem, heq⟩)
        unfold Emptied
        rw [(frame_touches a (touches_step latest countSortedRun a f)).2.2, account_step,
          if_neg hne]
      rw [foldl_cons, ih hnodup.2, mem_deleted_step, or_assoc]
      refine or_congr_right ⟨?_, ?_⟩
      · rintro (⟨rfl, hempty⟩ | ⟨hq, amount, hmem, hempty⟩)
        · exact ⟨rfl, f.2, .head _, hempty⟩
        · exact ⟨hq, amount, .tail _ hmem, (hlater _ hmem).1 hempty⟩
      · rintro ⟨hq, amount, hmem, hempty⟩
        rcases mem_cons.1 hmem with heq | hmem
        · refine .inl ⟨?_, heq ▸ hempty⟩
          rw [← heq, ← hq]
        · exact .inr ⟨hq, amount, hmem, (hlater _ hmem).2 hempty⟩
  rw [hloop diff.entries diff.nodup a]
  simp only [mem_entries_iff]

end ChargeState

theorem frame_chargeStorage (env : CompactionEnv) (info : CompactionJobInfo)
    (diff : Map UInt64 Int64) (s : BlobStorage) :
    (chargeStorage env info diff s).edit.addedFiles = []
      ∧ (chargeStorage env info diff s).edit.updatedDiscardableSize = empty
      ∧ (chargeStorage env info diff s).storage.cfOptions = s.cfOptions := by
  dsimp only [chargeStorage]
  exact frame_touches { storage := s } (touches_steps ..)

-- ==== the file set

namespace BlobFileSet

/-- The account of file `n` of column family `i`. -/
def account (fs : BlobFileSet) (i : UInt32) (n : UInt64) : Option BlobFileMeta :=
  (fs.columnFamilies.lookup i).bind (·.account n)

variable {C : Coding} {fs : BlobFileSet} {i : UInt32} {n : UInt64} {e : VersionEdit}

theorem account_eq : fs.account i n = (fs.file i n).map BlobFileMeta.account := by
  unfold account file
  cases fs.columnFamilies.lookup i <;> rfl

theorem account_of_lookup {st : BlobStorage}
    (hst : fs.columnFamilies.lookup i = some st) (n : UInt64) : fs.account i n = st.account n := by
  rw [account, hst, Option.bind_some]

theorem account_onStorage (j : UInt32) (f : BlobStorage → BlobStorage) :
    (fs.onStorage j f).account i n
      = if i = j then (fs.columnFamilies.lookup i).bind fun s => (f s).account n
        else fs.account i n := by
  unfold account
  rw [lookup_onStorage]
  split
  · cases fs.columnFamilies.lookup i <;> rfl
  · rfl

theorem account_onStorage_same (j : UInt32) {f : BlobStorage → BlobStorage}
    (hf : ∀ s, (f s).account n = s.account n) :
    (fs.onStorage j f).account i n = fs.account i n := by
  rw [account_onStorage]
  unfold account
  split
  · cases fs.columnFamilies.lookup i with
    | none => rfl
    | some s => exact hf s
  · rfl

/-- `LogAndApply` leaves the accounts of the files it does not add, if it
updates none. -/
theorem account_logAndApply (io : ManifestIO) (hupdates : e.updatedDiscardableSize = empty)
    (hn : n ∉ e.addedFiles.map (·.fileNumber)) :
    (fs.logAndApply C e io).2.account i n = fs.account i n := by
  unfold account
  rcases lookup_logAndApply_cases (C := C) fs e io i with
    hsame | ⟨st, -, hadm, -, hst, hafter⟩
  · rw [hsame]
  · rw [hafter, hst]
    refine apply_induct (c := e.batch)
      (P := fun s => s.account n = st.account n) rfl ?_ ?_ ?_ (fun h => h)
    · intro s m hm h
      rw [batch_addedFiles hadm.nodup] at hm
      have hne : m.fileNumber ≠ n := fun hmn =>
        hn (mem_map.2 ⟨m, hm, hmn⟩)
      refine Eq.trans ?_ h
      unfold BlobStorage.account
      rw [BlobStorage.findFile_addBlobFile, if_neg hne]
    · intro s m d _ _ h
      exact (s.account_transit n m.fileNumber .kDelete).trans h
    · intro s d hd _
      have hbatch : e.batch.updatedDiscardableSize = empty := by
        unfold batch absorb
        rw [hupdates]
        rfl
      rw [hbatch] at hd
      cases hd

/-- A file just installed has the account it was given. -/
theorem account_installed {files : List BlobFileMeta} {st : BlobStorage}
    (hst : fs.columnFamilies.lookup i = some st) (hnodup : (files.map (·.fileNumber)).Nodup)
    (hfresh : ∀ m ∈ files, st.findFile m.fileNumber = none) {m : BlobFileMeta} (hm : m ∈ files) :
    (fs.logAndApply C { columnFamilyId := i, addedFiles := files }
      .ok).2.account i m.fileNumber = some m.account := by
  obtain ⟨-, st', hst', hinstalls⟩ := logAndApply_installs C hst hnodup hfresh
  obtain ⟨m', hm', -⟩ := hinstalls.added m hm
  have hadm : fs.Admits { columnFamilyId := i, addedFiles := files } :=
    admits_install hst hnodup hfresh
  obtain ⟨-, storages, heq, hlookup⟩ := logAndApply_applied (C := C) hadm
  have hbatch : st' = ((batch { columnFamilyId := i, addedFiles := files }).apply st).2 := by
    rw [heq, show _ = storages.lookup i from rfl, hlookup, if_pos rfl, hst] at hst'
    exact (Option.some.inj hst').symm
  -- no other file is ever filed under the number
  have honly : ∀ m', st'.account m.fileNumber = some m' → m' = m.account := by
    rw [hbatch]
    refine apply_induct (P := fun s => ∀ m', s.account m.fileNumber = some m' → m' = m.account)
      ?_ ?_ ?_ ?_ (fun h => h)
    · intro m' hnone
      rw [BlobStorage.account, hfresh m hm] at hnone
      cases hnone
    · intro s x hx h m' hm'
      rw [batch_addedFiles hadm.nodup] at hx
      unfold BlobStorage.account at h hm'
      rw [BlobStorage.findFile_addBlobFile] at hm'
      split at hm'
      case isFalse => exact h m' hm'
      case isTrue heq =>
        cases hs : s.findFile m.fileNumber with
        | some y =>
          rw [hs] at hm' h
          exact h m' hm'
        | none =>
          rw [hs] at hm'
          rw [inj_on_of_nodup_map hnodup hx hm heq] at hm'
          exact (Option.some.inj hm').symm
    · intro s x d _ _ h m' hm'
      exact h m' ((s.account_transit _ x.fileNumber .kDelete).symm.trans hm')
    · intro s d hd
      cases hd
  unfold account
  rw [hst']
  show st'.account m.fileNumber = _
  have hsome : st'.account m.fileNumber = some m'.account := by
    unfold BlobStorage.account
    rw [hm']
    rfl
  rw [hsome, honly _ hsome]

end BlobFileSet

-- ==== the handlers

section handlers

variable {info : CompactionJobInfo} {s s₁ : BlobStorage}

variable {C : Coding} {fs : BlobFileSet} {i : UInt32} {n : UInt64} (env : CompactionEnv)

/-- The bytes of a flushed table, by file. -/
def FlushJobInfo.sizes (C : Coding) (info : FlushJobInfo) : BlobFilesSize :=
  match info.property with
  | none => Table.empty
  | some src => (BlobFileSizeCollector.decode C src).2

/-- `OnFlushCompleted`, seen from one file. -/
theorem account_onFlushCompleted (info : FlushJobInfo) :
    (onFlushCompleted C fs info).account info.cfId n
      = ((info.sizes C).lookup n).elim (fs.account info.cfId n) fun size =>
          (fs.account info.cfId n).map (·.flushed size) := by
  unfold onFlushCompleted FlushJobInfo.sizes
  cases info.property with
  | none => rfl
  | some src =>
    rw [BlobFileSet.account_onStorage, if_pos rfl]
    unfold BlobFileSet.account
    cases fs.columnFamilies.lookup info.cfId with
    | none => cases (BlobFileSizeCollector.decode C src).2.lookup n <;> rfl
    | some s => exact account_flushFiles _ s n

/-- The loop over the outputs runs to its end exactly if all are there. -/
theorem completeOutputs_fst (s : BlobStorage) (outputs : List UInt64) :
    (completeOutputs s outputs).1 = true ↔ ∀ n ∈ outputs, s.account n ≠ none := by
  induction outputs generalizing s with
  | nil => simp [completeOutputs]
  | cons k outputs ih =>
    have hhead : s.account k = (s.findFile k).map account := rfl
    unfold completeOutputs
    rw [forall_mem_cons, hhead]
    cases s.findFile k with
    | none => simp
    | some m =>
      refine (ih _).trans ?_
      simp

theorem completeOutputs_cfOptions (s : BlobStorage) (outputs : List UInt64) :
    (completeOutputs s outputs).2.cfOptions = s.cfOptions := by
  induction outputs generalizing s with
  | nil => rfl
  | cons k outputs ih =>
    unfold completeOutputs
    cases s.findFile k with
    | none => rfl
    | some m => exact ih _

namespace CompactionJobInfo

/-- The entry of a file in `blob_files_size_diff`. -/
def amount (C : Coding) (info : CompactionJobInfo) (n : UInt64) : Int64 :=
  ((SizeDiff.calcBfs C info).diff.lookup n).getD 0

/-- `OnCompactionCompleted` gets as far as the charging. -/
def Counts (C : Coding) (info : CompactionJobInfo) (fs : BlobFileSet) : Prop :=
  info.status.isOk = true ∧ fs.getBlobStorage info.cfId ≠ none
    ∧ ∀ n ∈ (SizeDiff.calcBfs C info).outputs.entries, fs.account info.cfId n ≠ none

end CompactionJobInfo

/-- Marking for a range merge changes no account. -/
theorem account_markFileIfNeedMerge (sortEnds : List BlobEnd → List BlobEnd)
    (maxSortedRuns : Int) (s : BlobStorage) (files : List UInt64) :
    (s.markFileIfNeedMerge sortEnds maxSortedRuns files).account n = s.account n := by
  have hloop : ∀ (l : List UInt64) (s : BlobStorage),
      (l.foldl (fun s k => s.transit k .kNeedMerge) s).account n = s.account n := by
    intro l
    induction l with
    | nil => exact fun _ => rfl
    | cons k l ih => exact fun s => (ih _).trans (s.account_transit n k _)
  exact hloop _ s

/-- `OnCompactionCompleted`, once all outputs are there. -/
theorem onCompactionCompleted_eq (hok : info.status.isOk = true)
    (hs : fs.getBlobStorage info.cfId = some s)
    (hs₁ : completeOutputs s (calcBfs C info).outputs.entries = (true, s₁)) :
    onCompactionCompleted C env fs info
      = let a := chargeStorage env info (calcBfs C info).diff s₁
        if s₁.cfOptions.levelMerge then
          (a.edit, (((fs.onStorage info.cfId fun _ => a.storage).logAndApply C
            a.edit env.io).2).onStorage info.cfId fun s =>
              s.markFileIfNeedMerge env.sortEnds env.rangeMerge.maxSortedRuns a.files)
        else (a.edit, fs.onStorage info.cfId fun _ => a.storage) := by
  unfold onCompactionCompleted
  rw [hok]
  simp only [Bool.not_true, Bool.false_eq_true, if_false]
  rw [hs]
  dsimp only
  rw [hs₁]

/-- With an output missing it stops in the loop over the outputs. -/
theorem onCompactionCompleted_missing (hok : info.status.isOk = true)
    (hs : fs.getBlobStorage info.cfId = some s)
    (hs₁ : completeOutputs s (calcBfs C info).outputs.entries = (false, s₁)) :
    onCompactionCompleted C env fs info = ({}, fs.onStorage info.cfId fun _ => s₁) := by
  unfold onCompactionCompleted
  rw [hok]
  simp only [Bool.not_true, Bool.false_eq_true, if_false]
  rw [hs]
  dsimp only
  rw [hs₁]

/-- `OnCompactionCompleted`, when it gets as far as the charging: every
account is charged its amount, and a file is deleted if that empties
it. -/
theorem onCompactionCompleted_counts
    (hs : fs.getBlobStorage info.cfId = some s) (h : info.Counts C fs) :
    (∀ n, (onCompactionCompleted C env fs info).2.account info.cfId n
        = (fs.account info.cfId n).map (·.charged (info.amount C n)))
      ∧ ∀ d, d ∈ (onCompactionCompleted C env fs info).1.deletedFiles
        ↔ d.2 = env.latest ∧ ∃ amount, (calcBfs C info).diff.lookup d.1 = some amount
          ∧ ChargeState.Emptied s d.1 amount := by
  have hlookup : fs.columnFamilies.lookup info.cfId = some s := hs
  have haccount := BlobFileSet.account_of_lookup hlookup
  obtain ⟨s₁, hs₁⟩ : ∃ s₁, completeOutputs s (calcBfs C info).outputs.entries = (true, s₁) := by
    have hfst := (completeOutputs_fst s _).2 fun n hn =>
      haccount n ▸ h.2.2 n hn
    exact ⟨_, Prod.ext hfst rfl⟩
  have hsame : ∀ n, s₁.account n = s.account n := by
    intro n
    rw [← account_completeOutputs s _ n, hs₁]
  have hoptions : s₁.cfOptions = s.cfOptions := by
    rw [← completeOutputs_cfOptions s, hs₁]
  let a := chargeStorage env info (calcBfs C info).diff s₁
  have hcharged : ∀ n, a.storage.account n = (s.account n).map (·.charged (info.amount C n)) := by
    intro n
    rw [← hsame]
    exact account_steps ..
  have hdeleted : ∀ d, d ∈ a.edit.deletedFiles
      ↔ d.2 = env.latest ∧ ∃ amount, (calcBfs C info).diff.lookup d.1 = some amount
        ∧ ChargeState.Emptied s d.1 amount := by
    intro d
    refine (mem_deleted_steps _ _ { storage := s₁ } _ d).trans ?_
    unfold ChargeState.Emptied
    rw [hsame, hoptions]
    exact ⟨fun h => h.elim (fun h => nomatch h) id, .inr⟩
  have hstored : ∀ n, (fs.onStorage info.cfId fun _ => a.storage).account
      info.cfId n = a.storage.account n := by
    intro n
    rw [BlobFileSet.account_onStorage, if_pos rfl, hlookup]
    rfl
  rw [onCompactionCompleted_eq env h.1 hs hs₁]
  split
  case isFalse =>
    exact ⟨fun n => by rw [hstored, hcharged, haccount], hdeleted⟩
  case isTrue =>
    obtain ⟨hadded, hupdated, -⟩ := frame_chargeStorage env info (calcBfs C info).diff s₁
    refine ⟨fun n => ?_, hdeleted⟩
    have hlog : ((fs.onStorage info.cfId fun _ => a.storage).logAndApply C
        a.edit env.io).2.account info.cfId n
          = (fs.onStorage info.cfId fun _ => a.storage).account info.cfId n :=
      BlobFileSet.account_logAndApply env.io hupdated (by rw [hadded]; exact not_mem_nil)
    refine (BlobFileSet.account_onStorage_same _ fun s' =>
      account_markFileIfNeedMerge ..).trans ?_
    rw [hlog, hstored, hcharged, haccount]

/-- Otherwise it leaves the accounts and deletes nothing. -/
theorem onCompactionCompleted_skips (h : ¬ info.Counts C fs) :
    (∀ n, (onCompactionCompleted C env fs info).2.account info.cfId n = fs.account info.cfId n)
      ∧ (onCompactionCompleted C env fs info).1.deletedFiles = [] := by
  cases hok : info.status.isOk with
  | false =>
    unfold onCompactionCompleted
    rw [hok]
    exact ⟨fun _ => rfl, rfl⟩
  | true =>
    cases hs : fs.getBlobStorage info.cfId with
    | none =>
      unfold onCompactionCompleted
      rw [hok, hs]
      exact ⟨fun _ => rfl, rfl⟩
    | some s =>
      have hlookup : fs.columnFamilies.lookup info.cfId = some s := hs
      have haccount := BlobFileSet.account_of_lookup hlookup
      have hfst : (completeOutputs s (calcBfs C info).outputs.entries).1 = false := by
        rw [← Bool.not_eq_true]
        intro hfst
        refine h ⟨hok, by rw [hs]; simp, fun n hn => ?_⟩
        rw [haccount]
        exact (completeOutputs_fst s _).1 hfst n hn
      rw [onCompactionCompleted_missing env hok hs (Prod.ext hfst rfl)]
      refine ⟨fun n => ?_, rfl⟩
      rw [BlobFileSet.account_onStorage, if_pos rfl, hlookup, haccount]
      exact account_completeOutputs ..

end handlers

end DiffKV
