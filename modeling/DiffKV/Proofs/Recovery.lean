/-
Recovery against the state it recovers.

# The start

A file set that has just written its snapshot satisfies `Tracks` with
the snapshot's records: replaying them gives back the files that are not
obsolete (`tracks_snapshot`).

# The run

As long as no write fails and every added number is new, each call keeps
`Tracks`, so memory and replay never part (`Tracks.calls`). Refused
edits never reach the manifest and cost nothing.

Where writes do fail the two part, and `LogInv` is all that is left.
Recovery then succeeds exactly when no two records clash.
-/
import DiffKV.Proofs.LogAndApply

namespace DiffKV

open Lib List BlobFileMeta VersionEdit Table CFEditCollector Option BlobFileSet LogReader

variable {C : Coding} {i : UInt32} {n : UInt64} {fs fs₀ : BlobFileSet}
  {es : List VersionEdit} {e : VersionEdit}

-- ==== the snapshot's records

namespace BlobFileSet

theorem foldl_addBlobFile (l : List BlobFileMeta) (e : VersionEdit) :
    l.foldl addBlobFile e = { e with addedFiles := e.addedFiles ++ l } := by
  induction l generalizing e with
  | nil => simp
  | cons m l ih =>
    rw [foldl_cons, ih]
    simp [addBlobFile]

theorem foldl_deleteBlobFile {α : Type*} (number : α → UInt64)
    (s : SequenceNumber) (l : List α) (e : VersionEdit) :
    l.foldl (fun e a => e.deleteBlobFile (number a) s) e = { e with
          deletedFiles := e.deletedFiles ++ l.map fun a => (number a, s) } := by
  induction l generalizing e with
  | nil => simp
  | cons a l ih =>
    rw [foldl_cons, ih]
    simp [deleteBlobFile]

theorem snapshotOf_eq (cf : UInt32 × BlobStorage) :
    snapshotOf cf = {
      columnFamilyId := cf.1
      addedFiles := cf.2.files.entries.filter fun f => !f.isObsolete } := by
  unfold snapshotOf
  rw [foldl_addBlobFile]
  rfl

/-- Writing the snapshot without a failure. -/
private theorem forEach_snapshot (es : List VersionEdit) (records : List Bytes) :
    Status.forEach (fun records (edit : VersionEdit) =>
          (({} : OpenIO).addRecord records.length, records ++ [edit.encodeTo C])) records es
      = (.ok, records ++ es.map (VersionEdit.encodeTo C)) := by
  induction es generalizing records with
  | nil => simp
  | cons e es ih =>
    rw [Status.forEach_cons]
    rw [Status.isOk_ok, if_pos rfl, ih]
    simp

theorem snapshotted_eq (fs : BlobFileSet) (number : UInt64) : fs.snapshotted C number = { fs with
          manifest := some {
            fileNumber := number
            records := fs.snapshotEdits.map (VersionEdit.encodeTo C) } } := by
  unfold snapshotted openManifest writeSnapshot
  rw [forEach_snapshot]
  rfl

/-- What the snapshot adds: the files that are not obsolete. -/
theorem added_snapshotEdits (fs : BlobFileSet) (i : UInt32) (n : UInt64) :
    fs.snapshotEdits.findSome? (·.added i n) = fs.live i n := by
  have hcf : ∀ cf : UInt32 × BlobStorage, (snapshotOf cf).added i n
      = if cf.1 = i then (cf.2.findFile n).filter (!·.isObsolete) else none := by
    intro cf
    rw [snapshotOf_eq]
    unfold added BlobStorage.findFile
    rw [← find_filter]
    rfl
  unfold snapshotEdits live file
  rw [findSome?_cons]
  have hglobal : (({} : VersionEdit).setNextFileNumber fs.nextFileNumber).added i n = none := by
    unfold added
    split <;> rfl
  rw [hglobal, findSome?_map]
  show fs.columnFamilies.entries.findSome? (fun cf => (snapshotOf cf).added i n) = _
  simp only [hcf]
  rw [findSome_entries fs.columnFamilies i (fun st => (st.findFile n).filter (!·.isObsolete))]
  cases fs.columnFamilies.lookup i <;> rfl

theorem not_deletes_snapshotEdits (he : e ∈ fs.snapshotEdits) : e.deletedFiles = [] := by
  rcases mem_cons.1 he with rfl | he
  · rfl
  · obtain ⟨cf, -, rfl⟩ := mem_map.1 he
    rw [snapshotOf_eq]

theorem nodup_snapshotEdits (he : e ∈ fs.snapshotEdits) : e.Nodup := by
  refine ⟨?_, ?_⟩
  · rcases mem_cons.1 he with rfl | he
    · exact nodup_nil
    · obtain ⟨cf, -, rfl⟩ := mem_map.1 he
      rw [snapshotOf_eq]
      exact cf.2.files.nodup.sublist (filter_sublist.map _)
  · rw [not_deletes_snapshotEdits he]
    exact nodup_nil

/-- The records of a snapshot are about different column families. -/
theorem noClash_snapshotEdits (fs : BlobFileSet) :
    fs.snapshotEdits.Pairwise VersionEdit.NoClash := by
  unfold snapshotEdits
  rw [pairwise_cons]
  refine ⟨?_, ?_⟩
  · intro e he _
    obtain ⟨cf, -, rfl⟩ := mem_map.1 he
    simp [setNextFileNumber]
  · rw [pairwise_map]
    have := pairwise_map.1 fs.columnFamilies.nodup
    refine this.imp fun {a b} hab hcf => ?_
    rw [snapshotOf_eq, snapshotOf_eq] at hcf
    exact absurd hcf hab

theorem next_snapshotEdits (fs : BlobFileSet) :
    fs.snapshotEdits.filterMap (·.nextFileNumber) = [fs.nextFileNumber] := by
  unfold snapshotEdits
  rw [filterMap_cons]
  have : (fs.columnFamilies.entries.map snapshotOf).filterMap (·.nextFileNumber) = [] := by
    rw [filterMap_eq_nil_iff]
    intro e he
    obtain ⟨cf, -, rfl⟩ := mem_map.1 he
    rw [snapshotOf_eq]
  rw [this]
  rfl

end BlobFileSet

theorem logInv_snapshot (fs : BlobFileSet) (number : UInt64) :
    LogInv C (fs.snapshotted C number) fs.snapshotEdits := by
  rw [snapshotted_eq]
  constructor
  case manifest => exact ⟨number, rfl⟩
  case nodup => exact fun e he => nodup_snapshotEdits he
  case next_mono =>
    rw [next_snapshotEdits]
    exact pairwise_singleton ..
  case next_le =>
    intro e he n hn
    have : n ∈ fs.snapshotEdits.filterMap (·.nextFileNumber) := mem_filterMap.2 ⟨e, he, hn⟩
    rw [next_snapshotEdits, mem_singleton] at this
    rw [this]
    exact UInt64.le_refl _
  case has_next => exact ⟨_, mem_cons_self, rfl⟩
  case live_added =>
    intro i n hl
    rw [← added_snapshotEdits] at hl
    obtain ⟨m, hm⟩ := ne_none_iff_exists'.1 hl
    obtain ⟨e, he, hem⟩ := exists_of_findSome?_eq_some hm
    exact ⟨e, he, adds_iff_added.2 (by rw [hem]; rfl)⟩
  case deleted_added =>
    rintro i - n ⟨e, he, hd⟩
    rw [VersionEdit.Deletes, not_deletes_snapshotEdits he] at hd
    cases hd.2

-- ==== memory follows the replay

/-- The later edit adds no number the earlier one added to the same
column family. -/
def VersionEdit.NoReAdd (e e' : VersionEdit) : Prop :=
  e.columnFamilyId = e'.columnFamilyId →
    ∀ n ∈ e'.addedFiles.map (·.fileNumber), n ∉ e.addedFiles.map (·.fileNumber)

instance (e e' : VersionEdit) : Decidable (e.NoReAdd e') :=
  letI : Decidable (∀ n ∈ e'.addedFiles.map (·.fileNumber),
      n ∉ e.addedFiles.map (·.fileNumber)) := List.decidableBAll ..
  inferInstanceAs (Decidable (_ → _))

/-- Memory and manifest agree: no two records clash, and a file is live
in memory exactly when the replay of the records ends with it. -/
structure Tracks (C : Coding) (fs : BlobFileSet) (es : List VersionEdit) :
    Prop extends LogInv C fs es where
  noClash : es.Pairwise VersionEdit.NoClash
  live : ∀ i, (fs.columnFamilies.lookup i).isSome = true → ∀ n,
    (fs.live i n).map BlobFileMeta.persistent = ((VersionEdit.replayed es).cf i).adds n

theorem tracks_snapshot (fs : BlobFileSet) (number : UInt64) :
    Tracks C (fs.snapshotted C number) fs.snapshotEdits where
  toLogInv := logInv_snapshot fs number
  noClash := fs.noClash_snapshotEdits
  live := by
    intro i _ n
    have hnd : ((replayed fs.snapshotEdits).cf i).deletedFiles.contains n = false := by
      rw [← Bool.not_eq_true, replayed_deleted]
      rintro ⟨e, he, hd⟩
      rw [VersionEdit.Deletes, not_deletes_snapshotEdits he] at hd
      cases hd.2
    unfold adds
    rw [hnd, if_neg Bool.false_ne_true, replayed_find, added_snapshotEdits, snapshotted_eq]
    rfl

namespace Tracks

variable {c : LogCall}

/-- Every number the edit adds is new to the manifest. -/
def Fresh (es : List VersionEdit) (e : VersionEdit) : Prop :=
  ∀ x ∈ es, x.NoReAdd e

/-- A file the checks let the edit delete was deleted by no record. -/
private theorem not_deleted (h : Tracks C fs es) (hadm : fs.Admits e) (hfresh : Fresh es e)
    (hopen : (fs.columnFamilies.lookup e.columnFamilyId).isSome = true)
    {n : UInt64} (hn : n ∈ e.deletedFiles.map Prod.fst) :
    ¬ ∃ x ∈ es, x.Deletes e.columnFamilyId n := by
  intro hdel
  by_cases ha : n ∈ e.addedFiles.map (·.fileNumber)
  · -- deleted by a record, hence added by one: the number is not new
    obtain ⟨x, hx, hxa⟩ := h.deleted_added _ hopen n hdel
    exact hfresh x hx hxa.1 n ha hxa.2
  · -- live in memory, hence live in the replay
    obtain ⟨st, hst⟩ := isSome_iff_exists.1 hopen
    obtain ⟨b, hb, hbo⟩ := (hadm.fits st hst).deleted_live n ((batch_deleted e n).2 hn)
      (by rw [← Bool.not_eq_true, batch_added]; exact ha)
    have hlive : fs.live e.columnFamilyId n = some b := by
      unfold BlobFileSet.live BlobFileSet.file
      rw [hst, bind_some, hb]
      simp [Option.filter, hbo]
    have := h.live _ hopen n
    rw [hlive, adds, if_pos (replayed_deleted.2 hdel)] at this
    cases this

/-- The replay's view of a number after one more record. -/
private theorem adds_concat (es : List VersionEdit) (e : VersionEdit) (i : UInt32) (n : UInt64) :
    ((replayed (es ++ [e])).cf i).adds n
      = if e.Deletes i n then none else if ((replayed es).cf i).deletedFiles.contains n then
          none
        else (((replayed es).cf i).addedFiles.find n).or ((e.added i n).map persistent) := by
  have hdel : ((replayed (es ++ [e])).cf i).deletedFiles.contains n = true
      ↔ e.Deletes i n ∨ ((replayed es).cf i).deletedFiles.contains n = true := by
    rw [replayed_deleted, replayed_deleted]
    constructor
    · rintro ⟨x, hx, hd⟩
      rcases mem_append.1 hx with hx | hx
      · exact .inr ⟨x, hx, hd⟩
      · rw [mem_singleton.1 hx] at hd
        exact .inl hd
    · rintro (hd | ⟨x, hx, hd⟩)
      · exact ⟨e, by simp, hd⟩
      · exact ⟨x, by simp [hx], hd⟩
  have hfind : ((replayed (es ++ [e])).cf i).addedFiles.find n
      = (((replayed es).cf i).addedFiles.find n).or ((e.added i n).map persistent) := by
    rw [replayed_find, replayed_find, findSome?_append]
    cases es.findSome? (·.added i n) with
    | some m => rfl
    | none => cases ha : e.added i n <;> simp [ha]
  unfold adds
  rw [hfind]
  by_cases hd : e.Deletes i n
  · rw [if_pos (hdel.2 (.inl hd)), if_pos hd]
  · rw [if_neg hd]
    by_cases hd' : ((replayed es).cf i).deletedFiles.contains n = true
    · rw [if_pos (hdel.2 (.inr hd')), if_pos hd']
    · rw [if_neg (fun h => (hdel.1 h).elim hd hd'), if_neg hd']

private theorem filter_new (hnew : e.New) (n : UInt64) :
    (e.addedFiles.find? (·.fileNumber = n)).filter (!·.isObsolete)
      = e.addedFiles.find? (·.fileNumber = n) := by
  cases ha : e.addedFiles.find? (·.fileNumber = n) with
  | none => rfl
  | some m => simp [Option.filter, hnew m (mem_of_find?_eq_some ha)]

private theorem map_persistent_update (c : CFEditCollector) (n : UInt64) (o : Option BlobFileMeta) :
    (o.map (c.update n)).map persistent = o.map persistent := by
  cases o <;> simp

/-- An admitted call whose write held and whose numbers are new. -/
theorem applied (h : Tracks C fs es) (hadm : fs.Admits e) (hnew : e.New) (hfresh : Fresh es e)
    (hopen : (fs.columnFamilies.lookup e.columnFamilyId).isSome = true) :
    Tracks C (fs.logAndApply C e .ok).2 (es ++ [e.setNextFileNumber fs.nextFileNumber]) := by
  refine { toLogInv := ?_, noClash := ?_, live := ?_ }
  · obtain ⟨-, storages, heq, -⟩ := logAndApply_applied (C := C) hadm
    exact h.toLogInv.concat hadm (by rw [heq]; rfl) (by simp)
      (fun i => lookup_isSome_logAndApply ..) fun i n hl => live_of_live_applied hadm hl
  · rw [pairwise_append]
    refine ⟨h.noClash, pairwise_singleton .., fun x hx y hy hcf => ?_⟩
    rw [mem_singleton.1 hy] at hcf ⊢
    refine ⟨hfresh x hx hcf, fun n hn hn' => ?_⟩
    exact h.not_deleted hadm hfresh hopen hn ⟨x, hx, hcf, hn'⟩
  · intro i hi n
    rw [lookup_isSome_logAndApply] at hi
    have hl := h.live i hi n
    rw [live_applied hadm, adds_concat]
    by_cases hcf : i = e.columnFamilyId
    case neg =>
      have hd : ¬ (e.setNextFileNumber fs.nextFileNumber).Deletes i n := fun hd => hcf hd.1.symm
      have ha : (e.setNextFileNumber fs.nextFileNumber).added i n = none :=
        if_neg fun hcf' => hcf hcf'.symm
      rw [if_neg (fun h' => hcf h'.1), if_neg hd, ha, map_none, or_none]
      exact hl
    case pos =>
      rw [if_pos ⟨hcf, hi⟩]
      by_cases hd : n ∈ e.deletedFiles.map Prod.fst
      · have hd' : (e.setNextFileNumber fs.nextFileNumber).Deletes i n := ⟨hcf.symm, hd⟩
        rw [if_pos hd, if_pos hd', map_none]
      · have hd' : ¬ (e.setNextFileNumber fs.nextFileNumber).Deletes i n := fun hd' => hd hd'.2
        have hadd : (e.setNextFileNumber fs.nextFileNumber).added i n
            = e.addedFiles.find? (·.fileNumber = n) := if_pos hcf.symm
        rw [if_neg hd, if_neg hd', hadd, filter_new hnew, map_persistent_update, map_or]
        unfold adds at hl
        split at hl
        case isFalse hk => rw [if_neg hk, hl]
        case isTrue hk =>
          -- a number some record deleted was added by one, so it is not new
          rw [if_pos hk, hl, none_or]
          cases ha : e.addedFiles.find? (·.fileNumber = n) with
          | none => rfl
          | some m =>
            obtain ⟨x, hx, hxa⟩ := h.deleted_added i hi n (replayed_deleted.1 hk)
            refine absurd hxa.2 (hfresh x hx (hxa.1.trans hcf) n ?_)
            exact mem_map.2 ⟨m, mem_of_find?_eq_some ha, by simpa using find?_some ha⟩

/-- A call whose write holds is applied, or refused and not logged. -/
theorem call_cases {P : BlobFileSet → List VersionEdit → Prop}
    (hio : c.io = .ok) (hrefused : P (fs.atNext c.next) es)
    (happlied : fs.admits c.edit = true → (fs.atNext c.next).Admits c.edit →
      P ((fs.atNext c.next).logAndApply C c.edit .ok).2 (es ++ [c.edit.setNextFileNumber c.next])) :
    P (fs.call C c).2 (es ++ fs.loggedBy c) := by
  unfold call loggedBy
  rw [hio]
  by_cases ha : fs.admits c.edit = true
  · rw [if_pos (by simp [ha, ManifestIO.written])]
    refine happlied ha ?_
    rw [← admits_iff, admits_atNext]
    exact ha
  · rw [if_neg (by simp [ha]), append_nil, (logAndApply_refused (by simpa using ha)).2]
    exact hrefused

theorem atNext (h : Tracks C fs es) {next : UInt64}
    (hn : fs.nextFileNumber ≤ next) : Tracks C (fs.atNext next) es :=
  { h with toLogInv := h.toLogInv.atNext hn }

/-- The numbers of a call are new if it is admitted. -/
theorem call (h : Tracks C fs es) (hio : c.io = .ok)
    (hn : fs.nextFileNumber ≤ c.next) (hopen : (fs.columnFamilies.lookup
      c.edit.columnFamilyId).isSome = true)
    (hadm : fs.admits c.edit = true → c.edit.New ∧ Fresh es c.edit) :
    Tracks C (fs.call C c).2 (es ++ fs.loggedBy c) :=
  call_cases hio (h.atNext hn) fun ha hadmits =>
    (h.atNext hn).applied hadmits (hadm ha).1 (hadm ha).2 hopen

/-- A run whose writes all hold, with anything else its steps keep.
`known` are the records whose files are all in memory, so that the
checks refuse to add them again; of the others, `old` and those of the
run, none may add a number twice. -/
theorem calls {P : BlobFileSet → List VersionEdit → Prop}
    (step : ∀ {fs es} {c : LogCall}, Tracks C fs es → P fs es →
      c.io = .ok → fs.nextFileNumber ≤ c.next →
      (fs.columnFamilies.lookup c.edit.columnFamilyId).isSome = true →
      (fs.admits c.edit = true → c.edit.New ∧ Fresh es c.edit) →
      P (fs.call C c).2 (es ++ fs.loggedBy c))
    (h : Tracks C fs es) (hP : P fs es) (cs : List LogCall)
    {known old : List VersionEdit} (hes : es = known ++ old)
    (hknown : ∀ i n, (∃ e ∈ known, e.Adds i n) → fs.file i n ≠ none) (hio : ∀ c ∈ cs, c.io = .ok)
    (hn : (fs.nextFileNumber :: cs.map (·.next)).Pairwise (· ≤ ·))
    (hopen : ∀ c ∈ cs, (fs.columnFamilies.lookup c.edit.columnFamilyId).isSome = true)
    (hnew : ∀ e ∈ fs.logged C cs, e.New)
    (hfresh : (old ++ fs.logged C cs).Pairwise VersionEdit.NoReAdd) :
    Tracks C (fs.calls C cs) (es ++ fs.logged C cs) ∧ P (fs.calls C cs) (es ++ fs.logged C cs) := by
  induction cs generalizing fs es old with
  | nil =>
    rw [logged, append_nil]
    exact ⟨h, hP⟩
  | cons c cs ih =>
    rw [map_cons, pairwise_cons] at hn
    rw [logged] at hnew hfresh ⊢
    have hadm : fs.admits c.edit = true → c.edit.New ∧ Fresh es c.edit := by
      intro ha
      have hby : fs.loggedBy c = [c.edit.setNextFileNumber c.next] := by
        simp [loggedBy, ha, hio c mem_cons_self, ManifestIO.written]
      rw [hby] at hnew hfresh
      refine ⟨hnew (c.edit.setNextFileNumber c.next) (by simp), ?_⟩
      intro x hx hcf n hn' hxn
      rw [hes] at hx
      rcases mem_append.1 hx with hx | hx
      · exact not_adds_of_file ha (hknown c.edit.columnFamilyId n ⟨x, hx, hcf, hxn⟩) ⟨rfl, hn'⟩
      · rw [pairwise_append] at hfresh
        exact hfresh.2.2 x hx (c.edit.setNextFileNumber c.next) (by simp) hcf n hn' hxn
    have hle := hn.1 c.next mem_cons_self
    have hio' := hio c mem_cons_self
    have hopen' := hopen c mem_cons_self
    rw [← append_assoc]
    refine ih (h.call hio' hle hopen' hadm)
      (step h hP hio' hle hopen' hadm) (by rw [hes, append_assoc]) ?_
      (fun c' hc' => hio c' (mem_cons_of_mem _ hc')) ?_ ?_
      (fun e he => hnew e (mem_append_right _ he)) ?_
    · intro i n hx
      exact file_call (hknown i n hx) c
    · rw [next_call]
      exact hn.2
    · intro c' hc'
      rw [lookup_isSome_call]
      exact hopen c' (mem_cons_of_mem _ hc')
    · rw [append_assoc]
      exact hfresh

end Tracks

-- ==== reopening

namespace BlobFileSet

theorem lookup_addColumnFamilies (dbOptions : TitanDBOptions)
    (cfs : List (UInt32 × TitanCFOptions)) (i : UInt32) :
    (({ dbOptions } : BlobFileSet).addColumnFamilies cfs).columnFamilies.lookup i
      = (cfs.find? (·.1 = i)).map fun cf => { dbOptions, cfOptions := cf.2 } := by
  unfold addColumnFamilies Table.lookup
  rw [← foldl_map (f := fun cf : UInt32 × TitanCFOptions =>
      (cf.1, ({ dbOptions, cfOptions := cf.2 } : BlobStorage))),
    find_foldl_emplace, find_empty, none_or,
    find?_map, Option.map_map]
  rfl

/-- A file set just constructed holds no file. -/
theorem fresh_addColumnFamilies (dbOptions : TitanDBOptions)
    (cfs : List (UInt32 × TitanCFOptions)) :
    (({ dbOptions } : BlobFileSet).addColumnFamilies cfs).Fresh := by
  intro i st hst n
  rw [lookup_addColumnFamilies] at hst
  obtain ⟨cf, -, rfl⟩ := map_eq_some_iff.1 hst
  rfl

theorem lookup_reopened (fs : BlobFileSet) (i : UInt32) :
    fs.reopened.columnFamilies.lookup i = (fs.columnFamilies.lookup i).map fun st =>
        { dbOptions := fs.dbOptions, cfOptions := st.cfOptions } := by
  unfold reopened
  rw [lookup_addColumnFamilies, find?_map, Option.map_map]
  unfold Table.lookup
  rw [Option.map_map]
  rfl

/-- `fs₀` is a file set just constructed, with column families opened
that `fs` had open. Their options may be others. -/
structure Reopens (fs fs₀ : BlobFileSet) : Prop where
  constructed : ∀ i st, fs₀.columnFamilies.lookup i = some st →
    st = { dbOptions := st.dbOptions, cfOptions := st.cfOptions }
  opened : ∀ i, (fs₀.columnFamilies.lookup i).isSome = true →
    (fs.columnFamilies.lookup i).isSome = true

theorem reopens_reopened (fs : BlobFileSet) : fs.Reopens fs.reopened where
  constructed := by
    intro i st hst
    rw [lookup_reopened] at hst
    obtain ⟨st', -, rfl⟩ := map_eq_some_iff.1 hst
    rfl
  opened := by
    intro i hi
    rwa [lookup_reopened, isSome_map] at hi

namespace Reopens

theorem fresh (h₀ : fs.Reopens fs₀) : fs₀.Fresh := by
  intro i st hst n
  rw [h₀.constructed i st hst]
  rfl

/-- Manifests that break no rule but one are recovered exactly when no
two of their records clash. -/
theorem recoverable (h₀ : fs.Reopens fs₀) (h : LogInv C fs es)
    (hnc : es.Pairwise VersionEdit.NoClash) : Recoverable fs₀ es where
  nodup := h.nodup
  noClash := hnc
  next_mono := h.next_mono
  deleted_added i hi := h.deleted_added i (h₀.opened i hi)
  has_next := h.has_next

end Reopens

end BlobFileSet

namespace Tracks

/-- The middle of `Recover` on a manifest that is tracked. -/
theorem recovered (h : Tracks C fs es) (h₀ : fs.Reopens fs₀) :
    (fs₀.recoverEdits C (intact fs.records)).1 = .ok
      ∧ Recovered fs₀ (fs₀.recoverEdits C (intact fs.records)).2 (es.map (·.persisted)) := by
  rw [h.records]
  exact recoverEdits_logged h₀.fresh (h₀.recoverable h.toLogInv h.noClash)

/-- Recovery from a state that tracks its manifest: of a column family
that is opened, the live files, and nothing of them but what is
persistent and the first logged amount. -/
theorem recoverEdits (h : Tracks C fs es) (h₀ : fs.Reopens fs₀) {i : UInt32}
    (hi : (fs₀.columnFamilies.lookup i).isSome = true) (n : UInt64) :
    (fs₀.recoverEdits C (intact fs.records)).2.file i n
      = ((fs.live i n).map persistent).map (((replayed es).cf i).update n) := by
  obtain ⟨-, hrec⟩ := h.recovered h₀
  obtain ⟨st, hst⟩ := isSome_iff_exists.1 ((hrec.opened i).trans hi)
  unfold file
  rw [hst, h.live i (h₀.opened i hi) n]
  exact hrec.files i st hst n

/-- With the same column families opened, closed ones have no files
before and after. -/
theorem recoverEdits_reopened (h : Tracks C fs es) (i : UInt32) (n : UInt64) :
    (fs.reopened.recoverEdits C (intact fs.records)).2.file i n
      = ((fs.live i n).map persistent).map (((replayed es).cf i).update n) := by
  have h₀ := fs.reopens_reopened
  cases hi : fs.columnFamilies.lookup i with
  | some st =>
    refine h.recoverEdits h₀ ?_ n
    rw [lookup_reopened, hi]
    rfl
  | none =>
    have hopen := (h.recovered h₀).2.opened i
    rw [lookup_reopened, hi] at hopen
    have hnone : (fs.reopened.recoverEdits C (intact
        fs.records)).2.columnFamilies.lookup i = none := by
      simpa using hopen
    unfold BlobFileSet.live BlobFileSet.file
    rw [hnone, hi]
    rfl

end Tracks

/-- What the snapshot adds is in memory. -/
theorem file_of_snapshotEdits (h : ∃ e ∈ fs.snapshotEdits, e.Adds i n)
    (number : UInt64) : (fs.snapshotted C number).file i n ≠ none := by
  obtain ⟨e, he, ha⟩ := h
  rw [snapshotted_eq]
  show fs.file i n ≠ none
  intro hnone
  have hlive : fs.live i n = none := by
    rw [live, hnone]
    rfl
  rw [← added_snapshotEdits, findSome?_eq_none_iff] at hlive
  rw [adds_iff_added, hlive e he] at ha
  cases ha

/-- A run of calls that starts at a snapshot, no I/O failing, the edits
let through adding new files under new numbers. -/
structure CleanRun (C : Coding) (fs : BlobFileSet) (number : UInt64)
    (cs : List LogCall) : Prop where
  io : ∀ c ∈ cs, c.io = .ok
  next_mono : (fs.nextFileNumber :: cs.map (·.next)).Pairwise (· ≤ ·)
  opened : ∀ c ∈ cs, (fs.columnFamilies.lookup c.edit.columnFamilyId).isSome = true
  new : ∀ e ∈ (fs.snapshotted C number).logged C cs, e.New
  noReAdd : ((fs.snapshotted C number).logged C cs).Pairwise VersionEdit.NoReAdd

/-- Such a run keeps `Tracks`, and whatever else its steps keep. -/
theorem CleanRun.induct {P : BlobFileSet → List VersionEdit → Prop}
    (step : ∀ {fs es} {c : LogCall}, Tracks C fs es → P fs es →
      c.io = .ok → fs.nextFileNumber ≤ c.next →
      (fs.columnFamilies.lookup c.edit.columnFamilyId).isSome = true →
      (fs.admits c.edit = true → c.edit.New ∧ Tracks.Fresh es c.edit) →
      P (fs.call C c).2 (es ++ fs.loggedBy c)) {number : UInt64}
    {cs : List LogCall} (h : CleanRun C fs number cs)
    (hP : P (fs.snapshotted C number) fs.snapshotEdits) :
    Tracks C ((fs.snapshotted C number).calls C cs)
        (fs.snapshotEdits ++ (fs.snapshotted C number).logged C cs)
      ∧ P ((fs.snapshotted C number).calls C cs)
        (fs.snapshotEdits ++ (fs.snapshotted C number).logged C cs) := by
  have hs := snapshotted_eq (C := C) fs number
  refine Tracks.calls step (tracks_snapshot fs number) hP cs
    (append_nil _).symm (fun i n he => file_of_snapshotEdits he number) h.io ?_ ?_ h.new h.noReAdd
  · rw [hs]
    exact h.next_mono
  · rw [hs]
    exact h.opened

/-- **Recovery reproduces the live files.** Start from any file set that
has written its snapshot, and make any calls to `LogAndApply` for its
column families, none of them failing in I/O. The edits let through add
new files under numbers no earlier one of them added; those refused are
any. Then recovery from the manifest succeeds, has of every column
family the files that are not obsolete in memory with all their
persistent fields, and continues from the last next file number
logged. -/
theorem recovery_reproduces_live_files {fs : BlobFileSet} {number : UInt64}
    {cs : List LogCall} (hrun : CleanRun C fs number cs) :
    let run := (fs.snapshotted C number).calls C cs
    let recovered := run.reopened.recoverEdits C
      (LogReader.intact run.records)
    recovered.1 = .ok
      ∧ (∀ i n, (recovered.2.file i n).map BlobFileMeta.persistent
        = (run.live i n).map BlobFileMeta.persistent)
      ∧ (∀ i n, recovered.2.live i n = recovered.2.file i n)
      ∧ recovered.2.nextFileNumber
        = (((fs.snapshotted C number).logged C cs).filterMap
            (·.nextFileNumber)).getLastD fs.nextFileNumber := by
  intro run recovered
  have h := (hrun.induct (P := fun _ _ => True) (fun _ _ _ _ _ _ => trivial) trivial).1
  obtain ⟨hok, hrec⟩ := h.recovered run.reopens_reopened
  refine ⟨hok, fun i n => ?_, fun i n => ?_, ?_⟩
  · rw [h.recoverEdits_reopened i n]
    cases run.live i n <;> simp
  · unfold live
    rw [h.recoverEdits_reopened i n]
    cases hl : run.live i n with
    | none => rfl
    | some m => simp [Option.filter]
  · rw [hrec.next, filterMap_next_persisted, filterMap_append,
      next_snapshotEdits, singleton_append, getLastD_cons]

/-- A file set with column family 0 open and holding file 1. -/
def oneFile : BlobFileSet where
  columnFamilies := Table.empty.insert 0
    (({ dbOptions := {}, cfOptions := {} } : BlobStorage).addBlobFile
      { fileNumber := 1, fileSize := 100, state := .kNormal })
  nextFileNumber := 3

/-- A run that adds file 3, deletes file 1, and tries to delete it
again. -/
def addThenDelete : List LogCall :=
  [{ next := 4, edit := ({} : VersionEdit).addBlobFile { fileNumber := 3 } },
   { next := 4, edit := ({} : VersionEdit).deleteBlobFile 1 0 },
   { next := 5, edit := ({} : VersionEdit).deleteBlobFile 1 0 }]

theorem recovery_of_addThenDelete :
    CleanRun base128 oneFile 2 addThenDelete
      ∧ (let run := (oneFile.snapshotted base128 2).calls base128
          addThenDelete
        (run.reopened.recoverEdits base128 (LogReader.intact run.records)).1 = .ok) := by
  have hrun : CleanRun base128 oneFile 2 addThenDelete :=
    ⟨by decide, by decide, by decide, by decide +kernel, by decide +kernel⟩
  exact ⟨hrun, (recovery_reproduces_live_files hrun).1⟩

-- ==== after failed writes

/-- A run never adds a file that was in memory when it began. -/
theorem logged_not_adds (hfile : fs.file i n ≠ none) (cs : List LogCall) :
    ∀ e ∈ fs.logged C cs, ¬ e.Adds i n := by
  induction cs generalizing fs with
  | nil =>
    intro e he
    cases he
  | cons c cs ih =>
    intro e he
    rcases mem_append.1 he with he | he
    · unfold loggedBy at he
      split at he
      case isFalse => cases he
      case isTrue ha =>
        rw [Bool.and_eq_true] at ha
        rw [mem_singleton.1 he]
        exact fun hadd => not_adds_of_file ha.2 hfile hadd
    · exact ih (file_call hfile c) e he

/-- **Recovery after failed writes.** Whatever `AddRecord` and the sync
do to each call of a run, the manifest can be recovered exactly when no
record adds a file that an earlier record of the run added to the same
column family, and none deletes a file that an earlier one deleted. -/
theorem recovery_after_failed_writes_iff (fs : BlobFileSet) (number : UInt64)
    (cs : List LogCall)
    (hnext : (fs.nextFileNumber :: cs.map (·.next)).Pairwise (· ≤ ·)) :
    let run := (fs.snapshotted C number).calls C cs
    (run.reopened.recoverEdits C (LogReader.intact run.records)).1 = .ok
      ↔ ((fs.snapshotted C number).logged C cs).Pairwise VersionEdit.NoClash := by
  intro run
  have hinv : LogInv C run (fs.snapshotEdits ++ (fs.snapshotted C number).logged C cs) := by
    refine (logInv_snapshot fs number).calls cs ?_
    rw [snapshotted_eq]
    exact hnext
  have hclash : (fs.snapshotEdits
        ++ (fs.snapshotted C number).logged C cs).Pairwise VersionEdit.NoClash
      ↔ ((fs.snapshotted C number).logged C cs).Pairwise VersionEdit.NoClash := by
    rw [pairwise_append]
    refine ⟨fun h => h.2.1, fun h => ⟨fs.noClash_snapshotEdits, h, ?_⟩⟩
    -- the snapshot's files stay in memory, where the checks see them
    intro x hx e he hcf
    refine ⟨fun n hn hxn => ?_, fun n _ hxn => ?_⟩
    · exact logged_not_adds (file_of_snapshotEdits ⟨x, hx, rfl, hxn⟩ number) cs e he ⟨hcf.symm, hn⟩
    · rw [not_deletes_snapshotEdits hx] at hxn
      cases hxn
  have h₀ := run.reopens_reopened
  rw [hinv.records, ← hclash, recoverEdits_logged_iff h₀.fresh]
  exact ⟨fun h => h.noClash, h₀.recoverable hinv⟩

/-- The same deletion twice, the first time with a failed sync: the
second one is admitted, since memory still has the file. -/
def deleteTwice : List LogCall :=
  [{ next := 3, edit := ({} : VersionEdit).deleteBlobFile 1 0
     io := .syncFailed "sync" },
   { next := 3, edit := ({} : VersionEdit).deleteBlobFile 1 0 }]

theorem not_recovered_deleteTwice :
    let run := (oneFile.snapshotted base128 2).calls base128 deleteTwice
    (run.reopened.recoverEdits base128 (LogReader.intact run.records)).1
      = .corruption "Blob file 1 has been deleted twice" := by
  decide +kernel

/-- A failed sync that nothing later runs into. -/
theorem recovered_failedAdd :
    let cs : List LogCall :=
      [{ next := 4, edit := ({} : VersionEdit).addBlobFile { fileNumber := 3 }
         io := .syncFailed "sync" },
       { next := 5, edit := ({} : VersionEdit).deleteBlobFile 1 0 }]
    let run := (oneFile.snapshotted base128 2).calls base128 cs
    (run.reopened.recoverEdits base128 (LogReader.intact run.records)).1 = .ok :=
  (recovery_after_failed_writes_iff oneFile 2 _ (by decide)).2 (by decide +kernel)

end DiffKV
