/-
The loop over `blob_files_discardable_size` at the end of
`DeleteFilesInRanges`.

The loop goes through a map, so it comes by every file at most once. What
it does to a file and to the entries of the edit under its number is
`view`; the rest of the storage and of the edit it leaves alone.
-/
import DiffKV.GcFiles
import DiffKV.Proofs.Notifications

namespace DiffKV

open Lib List BlobStorage Table BlobFileMeta

/-- The ratio above which a file is to be collected. -/
def RangeSettleEnv.ratio (env : RangeSettleEnv) (options : TitanCFOptions)
    (m : BlobFileMeta) : Float :=
  if m.fileLevel.toInt32.toInt = (options.numLevels : Int) - 1 then
    options.blobFileDiscardableRatio
  else env.highLevelBlobDiscardableRatio

namespace BlobFileMeta

variable (env : RangeSettleEnv) (options : TitanCFOptions) (d : UInt64) (m : BlobFileMeta)

/-- The file is over its ratio, with live data left. -/
def overRatio : Bool :=
  options.levelMerge && !m.noLiveData && decide (m.getDiscardableRatio > env.ratio options m)

/-- A file that has been charged `d` bytes, with the state it is left
in. -/
def settled : BlobFileMeta :=
  let m := m.addDiscardableSize d
  if m.overRatio env options then m.fileStateTransit .kNeedGC else m

/-- What the edit adds to its counter. -/
def update : Option UInt64 :=
  let m := m.addDiscardableSize d
  if options.levelMerge && !m.noLiveData
      && (decide (m.getDiscardableRatio > env.ratio options m)
        || decide (d > 0)) then
    some d
  else none

/-- The edit deletes it. -/
def emptied : Bool :=
  options.levelMerge && (m.addDiscardableSize d).noLiveData

theorem settled_isObsolete : (m.settled env options d).isObsolete = m.isObsolete := by
  unfold settled
  dsimp only
  split
  · exact FileEvent.spares_kNeedGC (m.addDiscardableSize d)
  · rfl

end BlobFileMeta

namespace ChargeState

variable (env : RangeSettleEnv)

/-- What the loop reads and changes for a file. -/
def view (a : ChargeState) (n : UInt64) :
    (TitanCFOptions × List BlobFileMeta × UInt32) × Option BlobFileMeta × Option UInt64 :=
  ((a.storage.cfOptions, a.edit.addedFiles, a.edit.columnFamilyId),
    a.storage.findFile n, a.edit.updatedDiscardableSize.lookup n)

/-- A file that is there, in the three cases of the loop. -/
theorem settleRange_eq {a : ChargeState} {f : UInt64 × UInt64}
    {m : BlobFileMeta} (hm : a.storage.findFile f.1 = some m) :
    a.settleRange env f = { a.chargeFile m f.2 with
          storage := if (m.addDiscardableSize f.2).overRatio env a.storage.cfOptions then
              (a.chargeFile m f.2).storage.transit f.1 .kNeedGC
            else (a.chargeFile m f.2).storage
          edit := if m.emptied a.storage.cfOptions f.2 then
              a.edit.deleteBlobFile f.1 env.latest
            else if (m.update env a.storage.cfOptions f.2).isSome then
              a.edit.updateBlobFile f.1 f.2
            else a.edit } := by
  have hnumber : m.fileNumber = f.1 := key_of_find hm
  unfold settleRange
  rw [hm]
  dsimp only
  have hratio : (if (m.addDiscardableSize f.2).fileLevel.toInt32.toInt
        = (a.storage.cfOptions.numLevels : Int) - 1 then
      a.storage.cfOptions.blobFileDiscardableRatio
    else env.highLevelBlobDiscardableRatio)
      = env.ratio a.storage.cfOptions (m.addDiscardableSize f.2) := rfl
  have hedit : (a.chargeFile m f.2).edit = a.edit := rfl
  rw [cfOptions_chargeFile, addDiscardableSize_number, hnumber, hratio]
  unfold overRatio emptied update
  cases a.storage.cfOptions.levelMerge with
  | false => simp [← hedit]
  | true =>
    by_cases hn : (m.addDiscardableSize f.2).noLiveData = true
    · simp [hn, ← hedit]
    · by_cases hr : (m.addDiscardableSize f.2).getDiscardableRatio
          > env.ratio a.storage.cfOptions (m.addDiscardableSize f.2)
      · simp [hn, hr, ← hedit]
      · by_cases hd : f.2 > 0 <;> simp [hn, hr, hd, ← hedit]

/-- What the edit makes of the counter of a file that is there. -/
theorem lookup_updated {options : TitanCFOptions} {d : UInt64}
    {m : BlobFileMeta} (e : VersionEdit) (k n : UInt64) (latest : SequenceNumber) :
    (if m.emptied options d then e.deleteBlobFile k latest
      else if (m.update env options d).isSome then e.updateBlobFile k d
      else e).updatedDiscardableSize.lookup n
    = if n = k then (e.updatedDiscardableSize.lookup n).or (m.update env options d)
      else e.updatedDiscardableSize.lookup n := by
  have hvalue : ∀ x, m.update env options d = some x → x = d := by
    intro x hx
    unfold update at hx
    dsimp only at hx
    split at hx
    · exact (Option.some.inj hx).symm
    · cases hx
  have hemptied : m.emptied options d = true → m.update env options d = none := by
    intro h
    unfold emptied at h
    unfold update
    rw [Bool.and_eq_true] at h
    simp [h.2]
  cases hu : m.update env options d with
  | none =>
    rw [Option.or_none, ite_self]
    split <;> rfl
  | some x =>
    have hnot : ¬ m.emptied options d = true := by
      intro h
      rw [hemptied h] at hu
      cases hu
    obtain rfl := hvalue x hu
    rw [if_neg hnot]
    exact lookup_emplace ..

section settleRange

variable {env} {a : ChargeState} {f : UInt64 × UInt64} {m : BlobFileMeta}

theorem settleRange_missing (hm : a.storage.findFile f.1 = none) : a.settleRange env f = a := by
  unfold settleRange
  rw [hm]

variable (hm : a.storage.findFile f.1 = some m) (n : UInt64)

include hm

theorem findFile_settleRange :
    (a.settleRange env f).storage.findFile n
      = if n = f.1 then (a.storage.findFile n).map (·.settled env a.storage.cfOptions f.2)
        else a.storage.findFile n := by
  have hnumber : m.fileNumber = f.1 := key_of_find hm
  rw [settleRange_eq env hm]
  by_cases hn : n = f.1
  · subst hn
    rw [if_pos rfl, hm, Option.map_some]
    unfold settled
    dsimp only
    split
    · rw [findFile_transit, if_pos rfl, findFile_chargeFile, if_pos hnumber.symm, hm]
      rfl
    · rw [findFile_chargeFile, if_pos hnumber.symm, hm]
      rfl
  · have hcharge : (a.chargeFile m f.2).storage.findFile n = a.storage.findFile n := by
      rw [findFile_chargeFile, hnumber, if_neg hn]
    split
    · rw [findFile_transit, if_neg hn, hcharge]
    · exact hcharge

theorem updated_settleRange :
    (a.settleRange env f).edit.updatedDiscardableSize.lookup n
      = if n = f.1 then (a.edit.updatedDiscardableSize.lookup n).or
          ((a.storage.findFile n).bind (·.update env a.storage.cfOptions f.2))
        else a.edit.updatedDiscardableSize.lookup n := by
  rw [settleRange_eq env hm, show _ = _ from lookup_updated ..]
  refine if_ctx_congr Iff.rfl (fun hn => ?_) fun _ => rfl
  rw [hn, hm]
  rfl

theorem frame_settleRange :
    ((a.settleRange env f).storage.cfOptions, (a.settleRange env f).edit.addedFiles,
        (a.settleRange env f).edit.columnFamilyId)
      = (a.storage.cfOptions, a.edit.addedFiles, a.edit.columnFamilyId) := by
  rw [settleRange_eq env hm]
  refine Prod.ext ?_ ?_
  · show cfOptions (ite _ _ _) = _
    split
    · exact cfOptions_chargeFile ..
    · exact cfOptions_chargeFile ..
  · dsimp only
    split
    · rfl
    · split <;> rfl

end settleRange

theorem view_settleRange (a : ChargeState) (f : UInt64 × UInt64) (n : UInt64) :
    (a.settleRange env f).view n = if n = f.1 then
          ((a.view n).1, (a.view n).2.1.map (·.settled env (a.view n).1.1 f.2),
            (a.view n).2.2.or ((a.view n).2.1.bind (·.update env (a.view n).1.1 f.2)))
        else a.view n := by
  cases hm : a.storage.findFile f.1 with
  | none =>
    rw [settleRange_missing hm]
    split
    case isFalse => rfl
    case isTrue hn =>
      unfold view
      rw [hn, hm]
      simp
  | some m =>
    unfold view
    rw [findFile_settleRange hm, updated_settleRange hm, frame_settleRange hm]
    split <;> rfl

theorem deleted_settleRange (a : ChargeState) (f : UInt64 × UInt64) :
    (a.settleRange env f).edit.deletedFiles
      = a.edit.deletedFiles ++ if (a.view f.1).2.1.any (·.emptied (a.view f.1).1.1 f.2) then
          [(f.1, env.latest)] else [] := by
  unfold view
  cases hm : a.storage.findFile f.1 with
  | none =>
    rw [settleRange_missing hm]
    simp
  | some m =>
    rw [settleRange_eq env hm]
    dsimp only
    rw [Option.any_some]
    split
    · rfl
    · rw [append_nil]
      split <;> rfl

/-- The loop over `blob_files_discardable_size`. -/
def settle (s : BlobStorage) (sizes : BlobFilesSize) : ChargeState :=
  sizes.entries.foldl (settleRange env) { storage := s }

variable (s : BlobStorage) (sizes : BlobFilesSize)

theorem view_settle (n : UInt64) :
    (settle env s sizes).view n = ((s.cfOptions, [], 0), (s.findFile n).map fun m =>
            (sizes.lookup n).elim m (m.settled env s.cfOptions ·),
          (sizes.lookup n).bind fun d => (s.findFile n).bind (·.update env s.cfOptions d)) := by
  refine (foldl_entries_view view
    (fun d v => (v.1, v.2.1.map (·.settled env v.1.1 d),
      v.2.2.or (v.2.1.bind (·.update env v.1.1 d))))
    (fun a f n => view_settleRange env a f n) sizes _ n).trans ?_
  cases sizes.lookup n with
  | none =>
    unfold view
    simp
  | some d => rfl

@[simp] theorem cfOptions_settle : (settle env s sizes).storage.cfOptions = s.cfOptions :=
  congrArg (·.1.1) (view_settle env s sizes 0)

@[simp] theorem addedFiles_settle :
    (settle env s sizes).edit.addedFiles = [] := congrArg (·.1.2.1) (view_settle env s sizes 0)

@[simp] theorem columnFamilyId_settle :
    (settle env s sizes).edit.columnFamilyId = 0 := congrArg (·.1.2.2) (view_settle env s sizes 0)

theorem findFile_settle (n : UInt64) :
    (settle env s sizes).storage.findFile n = (s.findFile n).map fun m =>
          (sizes.lookup n).elim m (m.settled env s.cfOptions ·) :=
  congrArg (·.2.1) (view_settle env s sizes n)

theorem lookup_updated_settle (n : UInt64) :
    (settle env s sizes).edit.updatedDiscardableSize.lookup n
      = (sizes.lookup n).bind fun d => (s.findFile n).bind (·.update env s.cfOptions d) :=
  congrArg (·.2.2) (view_settle env s sizes n)

theorem deletedFiles_settle :
    (settle env s sizes).edit.deletedFiles = sizes.entries.flatMap fun x =>
          if (s.findFile x.1).any (·.emptied s.cfOptions x.2) then
            [(x.1, env.latest)]
          else [] :=
  (foldl_entries_emit view (·.edit.deletedFiles) (fun x v =>
      if v.2.1.any (·.emptied v.1.1 x.2) then [(x.1, env.latest)] else [])
    (fun a x n hn => by rw [view_settleRange, if_neg hn])
    (fun a x => deleted_settleRange env a x) sizes { storage := s }).trans
    (nil_append _)

/-- The edit deletes the files that are left without live data. -/
theorem mem_deleted_settle (n : UInt64) :
    n ∈ (settle env s sizes).edit.deletedFiles.map Prod.fst
      ↔ ∃ d m, sizes.lookup n = some d ∧ s.findFile n = some m
        ∧ m.emptied s.cfOptions d = true := by
  rw [deletedFiles_settle, mem_map]
  constructor
  · rintro ⟨x, hx, rfl⟩
    obtain ⟨y, hy, hxy⟩ := mem_flatMap.1 hx
    split at hxy
    case isFalse => cases hxy
    case isTrue hany =>
      obtain rfl := mem_singleton.1 hxy
      obtain ⟨m, hm, hemptied⟩ := (Option.any_eq_true ..).1 hany
      exact ⟨y.2, m, mem_entries_iff.1 hy, hm, hemptied⟩
  · rintro ⟨d, m, hd, hm, hemptied⟩
    refine ⟨(n, env.latest), mem_flatMap.2 ⟨(n, d), mem_entries_iff.2 hd, ?_⟩, rfl⟩
    rw [if_pos (by simp [hm, hemptied])]
    exact mem_singleton_self _

/-- It names none of them twice. -/
theorem nodup_deleted_settle : ((settle env s sizes).edit.deletedFiles.map Prod.fst).Nodup := by
  refine sizes.nodup.sublist ?_
  rw [deletedFiles_settle]
  generalize sizes.entries = l
  induction l with
  | nil => exact List.Sublist.refl _
  | cons x l ih =>
    rw [flatMap_cons, map_append, map_cons]
    split
    · exact ih.cons_cons _
    · exact ih.cons _

end ChargeState

end DiffKV
