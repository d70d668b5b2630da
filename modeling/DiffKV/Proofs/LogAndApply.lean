/-
One `LogAndApply` call, and what a run of calls leaves behind.

A call that the checks refuse changes nothing. A call they admit
appends its record and, if the I/O held, applies the edit to one
storage. `LogInv` is what every call keeps, whatever the I/O did: each
record is free of repetitions, the next file numbers rise, and every
live file and every deleted file of an open column family was added by
some record. It holds even when memory and manifest have come apart.
-/
import DiffKV.Proofs.Manifest

namespace DiffKV

open Lib List Table CFEditCollector BlobFileSet VersionEdit Option

variable {fs : BlobFileSet} {C : Coding}

-- ==== the checks

namespace VersionEdit

/-- What a collector of its own makes of an edit. -/
def batch (e : VersionEdit) : CFEditCollector :=
  ({} : CFEditCollector).absorb e

variable (e : VersionEdit)

theorem batch_added (n : UInt64) :
    e.batch.addedFiles.contains n = true ↔ n ∈ e.addedFiles.map (·.fileNumber) := by
  rw [batch, added_absorb]
  simp

theorem batch_deleted (n : UInt64) :
    e.batch.deletedFiles.contains n = true ↔ n ∈ e.deletedFiles.map Prod.fst := by
  rw [batch, deleted_absorb]
  simp

theorem batch_update (n : UInt64) (m : BlobFileMeta) :
    e.batch.update n m = m.addDiscardableSize ((e.updatedDiscardableSize.lookup n).getD 0) := by
  have hlookup : e.batch.updatedDiscardableSize.lookup n = e.updatedDiscardableSize.lookup n := by
    unfold batch
    rw [updated_absorb]
    rfl
  unfold update
  rw [hlookup]
  cases e.updatedDiscardableSize.lookup n with
  | none => simp [BlobFileMeta.addDiscardableSize]
  | some amount => rfl

end VersionEdit

namespace BlobFileSet

variable {e : VersionEdit} {io : ManifestIO}

/-- The checks of `LogAndApply`, spelled out: the edit has no repetition
and fits the storage of its column family, if that is open. -/
structure Admits (fs : BlobFileSet) (e : VersionEdit) : Prop where
  nodup : e.Nodup
  fits : ∀ st, fs.columnFamilies.lookup e.columnFamilyId = some st → e.batch.Sealable st

private theorem cf_single (e : VersionEdit) (n : UInt64) (i : UInt32) :
    (({} : EditCollector).absorb (e.setNextFileNumber n)).cf i
      = if i = e.columnFamilyId then e.batch else {} := by
  rw [EditCollector.cf_absorb]
  rfl

private theorem accepts_single_iff (e : VersionEdit) (n : UInt64) :
    ({} : EditCollector).Accepts (e.setNextFileNumber n) ↔ e.Nodup := by
  have h := EditCollector.accepts_absorbAll_iff [] (e.setNextFileNumber n)
  rw [EditCollector.absorbAll_nil] at h
  rw [h]
  simp [setNextFileNumber, VersionEdit.Nodup]

private theorem sealable_single_iff (fs : BlobFileSet) (e : VersionEdit) (n : UInt64) :
    (({} : EditCollector).absorb (e.setNextFileNumber n)).Sealable fs.columnFamilies
      ↔ ∀ st, fs.columnFamilies.lookup e.columnFamilyId = some st → e.batch.Sealable st := by
  constructor
  · intro h st hst
    have := h e.columnFamilyId st hst
    rw [cf_single, if_pos rfl] at this
    exact this
  · intro h i st hst
    rw [cf_single]
    split
    case isTrue hi =>
      rw [hi] at hst
      exact h st hst
    case isFalse => exact sealable_empty st

theorem admits_iff (fs : BlobFileSet) (e : VersionEdit) : fs.admits e = true ↔ fs.Admits e := by
  unfold admits
  constructor
  · intro h
    rw [Bool.and_eq_true] at h
    have hacc := EditCollector.accepts_of_addEdit rfl rfl h.1
    have hseal := h.2
    rw [EditCollector.addEdit_of_accepts rfl rfl hacc] at hseal
    exact ⟨(accepts_single_iff ..).1 hacc, (sealable_single_iff ..).1
      (EditCollector.sealable_of_seal rfl hseal)⟩
  · intro h
    have hacc := (accepts_single_iff e fs.nextFileNumber).2 h.nodup
    have hfit := (sealable_single_iff fs e fs.nextFileNumber).2 h.fits
    rw [EditCollector.addEdit_of_accepts rfl rfl hacc]
    dsimp only
    rw [EditCollector.seal_of_sealable rfl hfit]
    rfl

/-- The checks do not look at the counter. -/
@[simp] theorem admits_atNext (fs : BlobFileSet) (next : UInt64)
    (e : VersionEdit) : (fs.atNext next).admits e = fs.admits e := by
  rw [Bool.eq_iff_iff, admits_iff, admits_iff]
  exact ⟨fun h => ⟨h.nodup, h.fits⟩, fun h => ⟨h.nodup, h.fits⟩⟩

-- ==== a single call

/-- A refused call changes nothing. -/
theorem logAndApply_refused (h : fs.admits e = false) :
    (fs.logAndApply C e io).1.isOk = false ∧ (fs.logAndApply C e io).2 = fs := by
  unfold logAndApply
  unfold admits at h
  dsimp only at h ⊢
  rw [Bool.and_eq_false_iff] at h
  by_cases hadd : (({} : EditCollector).addEdit
      (e.setNextFileNumber fs.nextFileNumber)).1.isOk = true
  · rcases h with h | h
    · rw [hadd] at h
      cases h
    · rw [if_neg (by simp [hadd]), if_pos (by simp [h])]
      exact ⟨h, rfl⟩
  · rw [if_pos (by simp [hadd])]
    exact ⟨by simpa using hadd, rfl⟩

/-- The file set once an admitted call's record is where its I/O left
it. -/
def appended (C : Coding) (fs : BlobFileSet) (e : VersionEdit) (io : ManifestIO) : BlobFileSet :=
  if io.written then
    fs.appendRecord ((e.setNextFileNumber fs.nextFileNumber).encodeTo C)
  else fs

@[simp] theorem appended_columnFamilies (C : Coding) (fs : BlobFileSet)
    (e : VersionEdit) (io : ManifestIO) :
    (fs.appended C e io).columnFamilies = fs.columnFamilies := by
  unfold appended
  split <;> rfl

/-- Past the checks only the I/O decides. -/
private theorem logAndApply_admitted (io : ManifestIO) (h : fs.Admits e) :
    ∃ k : EditCollector,
      k = { ({} : EditCollector).absorb
        (e.setNextFileNumber fs.nextFileNumber) with isSealed := true }
      ∧ fs.logAndApply C e io
        = if !io.addRecord.isOk then (io.addRecord, fs.appended C e io)
          else if !io.sync.isOk then (io.sync, fs.appended C e io)
          else ((k.apply fs.columnFamilies).1, { fs.appended C e io with
              columnFamilies := (k.apply fs.columnFamilies).2.2 }) := by
  have hacc := (accepts_single_iff e fs.nextFileNumber).2 h.nodup
  have hfit := (sealable_single_iff fs e fs.nextFileNumber).2 h.fits
  refine ⟨_, rfl, ?_⟩
  unfold logAndApply
  dsimp only
  rw [EditCollector.addEdit_of_accepts rfl rfl hacc]
  rw [EditCollector.seal_of_sealable rfl hfit, Status.isOk_ok, if_neg (by simp)]
  have hcf := appended_columnFamilies C fs e io
  unfold appended at hcf ⊢
  rw [hcf]
  rfl

/-- An admitted call whose write failed leaves memory as it was. -/
theorem logAndApply_failed (h : fs.Admits e) (hio : io ≠ .ok) :
    (fs.logAndApply C e io).1.isOk = false ∧ (fs.logAndApply C e io).2 = fs.appended C e io := by
  obtain ⟨k, -, heq⟩ := logAndApply_admitted (C := C) io h
  rw [heq]
  cases io with
  | ok => exact absurd rfl hio
  | addRecordFailed w msg => exact ⟨rfl, rfl⟩
  | syncFailed msg => exact ⟨rfl, rfl⟩

/-- An admitted call whose write held applies the edit to the storage of
its column family, and to no other. -/
theorem logAndApply_applied (h : fs.Admits e) :
    (fs.logAndApply C e .ok).1 = .ok
      ∧ ∃ storages, (fs.logAndApply C e .ok).2
          = { fs.appended C e .ok with columnFamilies := storages }
        ∧ ∀ i, storages.lookup i = if i = e.columnFamilyId then
              (fs.columnFamilies.lookup i).map fun st => (e.batch.apply st).2
            else fs.columnFamilies.lookup i := by
  have hfit := (sealable_single_iff fs e fs.nextFileNumber).2 h.fits
  obtain ⟨k, hk, heq⟩ := logAndApply_admitted (C := C) .ok h
  have hkcf : ∀ i, k.cf i
      = (({} : EditCollector).absorb (e.setNextFileNumber fs.nextFileNumber)).cf i := by
    intro i
    rw [hk]
    rfl
  have hkfit : k.Sealable fs.columnFamilies := fun i st hst =>
    hkcf i ▸ hfit i st hst
  obtain ⟨happ, -, hlook⟩ := EditCollector.apply_of_sealable (by rw [hk]; rfl) (by rw [hk]) hkfit
  have heq' : fs.logAndApply C e .ok = ((k.apply fs.columnFamilies).1, { fs.appended C e .ok with
        columnFamilies := (k.apply fs.columnFamilies).2.2 }) := heq
  rw [heq']
  refine ⟨happ, _, rfl, fun i => ?_⟩
  have hcont : k.columnFamilies.contains i = true ↔ i = e.columnFamilyId := by
    rw [hk, contains_eq_isSome]
    show ((insert empty _ _).lookup i).isSome = true ↔ _
    rw [lookup_insert]
    by_cases hi : i = e.columnFamilyId
    · simp [hi, setNextFileNumber]
    · simp [hi, setNextFileNumber]
  rw [hlook i, hkcf i, cf_single]
  by_cases hi : i = e.columnFamilyId
  · rw [if_pos (hcont.2 hi), if_pos hi, if_pos hi]
  · rw [if_neg (mt hcont.1 hi), if_neg hi]

/-- A call succeeds if the checks admit the edit and the I/O holds. -/
theorem logAndApply_isOk_iff : (fs.logAndApply C e io).1.isOk = true ↔ fs.Admits e ∧ io = .ok := by
  constructor
  · intro hok
    cases hadm : fs.admits e with
    | false =>
      rw [(logAndApply_refused hadm).1] at hok
      cases hok
    | true =>
      have hadm := (admits_iff fs e).1 hadm
      refine ⟨hadm, ?_⟩
      by_contra hio
      rw [(logAndApply_failed hadm hio).1] at hok
      cases hok
  · rintro ⟨hadm, rfl⟩
    rw [(logAndApply_applied hadm).1]
    rfl

/-- What any call makes of a storage: it stays, or a call that succeeds
has applied its edit to it. -/
theorem lookup_logAndApply_cases (fs : BlobFileSet)
    (e : VersionEdit) (io : ManifestIO) (i : UInt32) :
    (fs.logAndApply C e io).2.columnFamilies.lookup i = fs.columnFamilies.lookup i
      ∨ ∃ st, i = e.columnFamilyId ∧ fs.Admits e ∧ io = .ok ∧ fs.columnFamilies.lookup i = some st
        ∧ (fs.logAndApply C e io).2.columnFamilies.lookup i = some (e.batch.apply st).2 := by
  cases hadm : fs.admits e with
  | false =>
    rw [(logAndApply_refused hadm).2]
    exact .inl rfl
  | true =>
    have hadm := (admits_iff fs e).1 hadm
    by_cases hio : io = .ok
    case neg =>
      rw [(logAndApply_failed hadm hio).2, appended_columnFamilies]
      exact .inl rfl
    case pos =>
      subst hio
      obtain ⟨-, storages, heq, hlookup⟩ := logAndApply_applied (C := C) hadm
      rw [heq, show storages.lookup i = _ from hlookup i]
      by_cases hi : i = e.columnFamilyId
      · rw [if_pos hi]
        cases hst : fs.columnFamilies.lookup i with
        | none => exact .inl rfl
        | some st => exact .inr ⟨st, hi, hadm, rfl, rfl, rfl⟩
      · rw [if_neg hi]
        exact .inl rfl

end BlobFileSet

-- ==== what becomes of files

namespace VersionEdit

/-- An edit as its callers build it: the files it adds are new ones, not
obsolete ones. -/
def New (e : VersionEdit) : Prop :=
  ∀ m ∈ e.addedFiles, m.isObsolete = false

instance (e : VersionEdit) : Decidable e.New :=
  inferInstanceAs (Decidable (∀ m ∈ _, _))

@[simp] theorem isObsolete_update (c : CFEditCollector) (n : UInt64)
    (m : BlobFileMeta) : (c.update n m).isObsolete = m.isObsolete := by
  unfold update
  split <;> rfl

@[simp] theorem persistent_update (c : CFEditCollector) (n : UInt64)
    (m : BlobFileMeta) : (c.update n m).persistent = m.persistent := by
  unfold update
  split <;> rfl

/-- The live file under `n` after an edit is applied: none that it
deletes, else the one there was, else the one it adds. -/
theorem live_apply {e : VersionEdit} {st : BlobStorage} (h : e.batch.Sealable st) (n : UInt64) :
    ((e.batch.apply st).2.findFile n).filter (!·.isObsolete)
      = if n ∈ e.deletedFiles.map Prod.fst then none
        else (((st.findFile n).filter (!·.isObsolete)).or
          ((e.addedFiles.find? (·.fileNumber = n)).filter
            (!·.isObsolete))).map (e.batch.update n) := by
  have hfilter : ∀ o : Option BlobFileMeta,
      (o.map (e.batch.update n)).filter (!·.isObsolete)
        = (o.filter (!·.isObsolete)).map (e.batch.update n) := by
    intro o
    cases o with
    | none => rfl
    | some m => cases hm : m.isObsolete <;> simp [Option.filter, hm]
  have hadded : e.batch.addedFiles.find n = e.addedFiles.find? (·.fileNumber = n) := by
    unfold batch absorb
    rw [find_foldl_emplace]
    rfl
  rw [(apply_of_sealable h).2 n, hfilter]
  unfold deletes adds
  by_cases hd : n ∈ e.deletedFiles.map Prod.fst
  · rw [if_pos hd, (batch_deleted e n).2 hd]
    cases ha : e.batch.addedFiles.contains n with
    | true =>
      -- added and deleted at once: the storage never sees it
      rw [h.added_fresh n ha]
      rfl
    | false =>
      obtain ⟨b, hb, -⟩ := h.deleted_live n ((batch_deleted e n).2 hd) ha
      rw [hb]
      rfl
  · have hd' : e.batch.deletedFiles.contains n = false := by
      rw [← Bool.not_eq_true, batch_deleted]
      exact hd
    rw [if_neg hd, hd', Bool.false_and, if_neg Bool.false_ne_true,
      if_neg Bool.false_ne_true, hadded]
    cases ha : e.addedFiles.find? (·.fileNumber = n) with
    | none => rw [or_none, filter_none, or_none]
    | some m =>
      have hc : e.batch.addedFiles.contains n = true := by
        rw [Table.contains_iff]
        exact ⟨m, hadded.trans ha⟩
      rw [h.added_fresh n hc]
      rfl

end VersionEdit

namespace BlobFileSet

variable {i : UInt32} {n : UInt64} {e : VersionEdit}

/-- The live file under `n` after an admitted call whose write held. -/
theorem live_applied (h : fs.Admits e) (i : UInt32) (n : UInt64) :
    (fs.logAndApply C e .ok).2.live i n
      = if i = e.columnFamilyId ∧ (fs.columnFamilies.lookup i).isSome then
          if n ∈ e.deletedFiles.map Prod.fst then none
          else ((fs.live i n).or ((e.addedFiles.find?
            (·.fileNumber = n)).filter (!·.isObsolete))).map (e.batch.update n)
        else fs.live i n := by
  obtain ⟨-, storages, heq, hlook⟩ := logAndApply_applied (C := C) h
  unfold live file
  rw [heq]
  rw [hlook i]
  by_cases hi : i = e.columnFamilyId
  · subst hi
    cases hst : fs.columnFamilies.lookup e.columnFamilyId with
    | none => simp
    | some st =>
      rw [if_pos rfl, if_pos ⟨rfl, rfl⟩]
      exact live_apply (h.fits st hst) n
  · rw [if_neg hi, if_neg (fun h' => hi h'.1)]

/-- A file is live after a call only if it was, or the call added it. -/
theorem live_of_live_applied (h : fs.Admits e) (hl : (fs.logAndApply C e .ok).2.live i n ≠ none) :
    fs.live i n ≠ none ∨ e.Adds i n := by
  rw [live_applied h] at hl
  split at hl
  case isFalse => exact .inl hl
  case isTrue hi =>
    split at hl
    case isTrue => exact absurd rfl hl
    case isFalse =>
      cases hlive : fs.live i n with
      | some m => exact .inl (by simp)
      | none =>
        rw [hlive, none_or] at hl
        refine .inr ⟨hi.1.symm, ?_⟩
        cases ha : e.addedFiles.find? (·.fileNumber = n) with
        | none => simp [ha] at hl
        | some m =>
          rw [List.mem_map]
          exact ⟨m, mem_of_find?_eq_some ha, by simpa using find?_some ha⟩

/-- No call takes a file out of memory: deleted ones stay as obsolete. -/
theorem file_logAndApply (h : fs.file i n ≠ none) (e : VersionEdit) (io : ManifestIO) :
    (fs.logAndApply C e io).2.file i n ≠ none := by
  by_cases hadm : fs.admits e = true
  case neg =>
    rw [(logAndApply_refused (by simpa using hadm)).2]
    exact h
  case pos =>
    have ha := (admits_iff fs e).1 hadm
    by_cases hio : io = .ok
    · subst hio
      obtain ⟨-, storages, heq, hlook⟩ := logAndApply_applied (C := C) ha
      unfold file at h ⊢
      rw [heq]
      rw [hlook i]
      by_cases hi : i = e.columnFamilyId
      · subst hi
        rw [if_pos rfl]
        cases hst : fs.columnFamilies.lookup e.columnFamilyId with
        | none => simp [hst] at h
        | some st =>
          obtain ⟨m, hm⟩ : ∃ m, st.findFile n = some m := by
            rw [hst] at h
            exact ne_none_iff_exists'.1 h
          show (e.batch.apply st).2.findFile n ≠ none
          rw [(apply_of_sealable (ha.fits st hst)).2 n, hm]
          split <;> simp
      · rw [if_neg hi]
        exact h
    · rw [(logAndApply_failed ha hio).2]
      unfold file
      rw [appended_columnFamilies]
      exact h

/-- The checks refuse to add a file that is in memory, obsolete or
not. -/
theorem not_adds_of_file (ha : fs.admits e = true) (hfile : fs.file i n ≠ none) : ¬ e.Adds i n := by
  rintro ⟨rfl, hn⟩
  unfold file at hfile
  cases hst : fs.columnFamilies.lookup e.columnFamilyId with
  | none => simp [hst] at hfile
  | some st =>
    have := (((admits_iff fs e).1 ha).fits st hst).added_fresh n ((batch_added e n).2 hn)
    rw [hst] at hfile
    exact hfile this

theorem file_call (h : fs.file i n ≠ none) (c : LogCall) : (fs.call C c).2.file i n ≠ none := by
  have h' : (fs.atNext c.next).file i n ≠ none := h
  exact file_logAndApply h' c.edit c.io

@[simp] theorem next_logAndApply (fs : BlobFileSet) (e : VersionEdit) (io : ManifestIO) :
    (fs.logAndApply C e io).2.nextFileNumber = fs.nextFileNumber := by
  have happ : (fs.appended C e io).nextFileNumber = fs.nextFileNumber := by
    unfold appended
    split <;> rfl
  by_cases h : fs.admits e = true
  · have hadm := (admits_iff fs e).1 h
    by_cases hio : io = .ok
    · subst hio
      obtain ⟨-, storages, heq, -⟩ := logAndApply_applied (C := C) hadm
      rw [heq]
      exact happ
    · rw [(logAndApply_failed hadm hio).2, happ]
  · rw [(logAndApply_refused (by simpa using h)).2]

theorem next_call (fs : BlobFileSet) (c : LogCall) :
    (fs.call C c).2.nextFileNumber = c.next := next_logAndApply ..

/-- Calls open and close no column family. -/
theorem lookup_isSome_logAndApply (fs : BlobFileSet) (e : VersionEdit)
    (io : ManifestIO) (i : UInt32) :
    ((fs.logAndApply C e io).2.columnFamilies.lookup i).isSome
      = (fs.columnFamilies.lookup i).isSome := by
  by_cases h : fs.admits e = true
  · have hadm := (admits_iff fs e).1 h
    by_cases hio : io = .ok
    · subst hio
      obtain ⟨-, storages, heq, hlook⟩ := logAndApply_applied (C := C) hadm
      rw [heq]
      rw [hlook i]
      split <;> simp
    · rw [(logAndApply_failed hadm hio).2, appended_columnFamilies]
  · rw [(logAndApply_refused (by simpa using h)).2]

theorem lookup_isSome_call (fs : BlobFileSet) (c : LogCall) (i : UInt32) :
    ((fs.call C c).2.columnFamilies.lookup i).isSome = (fs.columnFamilies.lookup i).isSome :=
  lookup_isSome_logAndApply (fs.atNext c.next) c.edit c.io i

end BlobFileSet

-- ==== the weak invariant

/-- The manifest holds `es`, and they are what LogAndApply can have let
through. -/
structure LogInv (C : Coding) (fs : BlobFileSet) (es : List VersionEdit) : Prop where
  manifest : ∃ number, fs.manifest = some ⟨number, es.map (VersionEdit.encodeTo C)⟩
  nodup : ∀ e ∈ es, e.Nodup
  next_mono : (es.filterMap (·.nextFileNumber)).Pairwise (· ≤ ·)
  next_le : ∀ e ∈ es, ∀ n, e.nextFileNumber = some n → n ≤ fs.nextFileNumber
  has_next : ∃ e ∈ es, e.nextFileNumber.isSome = true
  live_added : ∀ i n, fs.live i n ≠ none → ∃ e ∈ es, e.Adds i n
  deleted_added : ∀ i, (fs.columnFamilies.lookup i).isSome = true →
    ∀ n, (∃ e ∈ es, e.Deletes i n) → ∃ e ∈ es, e.Adds i n

namespace LogInv

variable {es : List VersionEdit}

variable (h : LogInv C fs es)
include h

theorem records : fs.records = es.map (encodeTo C) := by
  obtain ⟨number, hm⟩ := h.manifest
  rw [BlobFileSet.records, hm]
  rfl

/-- The counter may move on. -/
theorem atNext {next : UInt64} (hn : fs.nextFileNumber ≤ next) :
    LogInv C (fs.atNext next) es := { h with
    next_le := fun e he n hen => UInt64.le_trans (h.next_le e he n hen) hn }

/-- The record of an admitted edit, in the manifest. -/
theorem concat {e : VersionEdit} (hadm : fs.Admits e) {fs' : BlobFileSet}
    (hman : fs'.manifest
      = (fs.appendRecord ((e.setNextFileNumber fs.nextFileNumber).encodeTo C)).manifest)
    (hnext : fs'.nextFileNumber = fs.nextFileNumber)
    (hopen : ∀ i, (fs'.columnFamilies.lookup i).isSome = (fs.columnFamilies.lookup i).isSome)
    (hlive : ∀ i n, fs'.live i n ≠ none → fs.live i n ≠ none ∨ e.Adds i n) :
    LogInv C fs' (es ++ [e.setNextFileNumber fs.nextFileNumber]) := by
  have hold : ∀ {i n}, (∃ x ∈ es, x.Adds i n) →
      ∃ x ∈ es ++ [e.setNextFileNumber fs.nextFileNumber], x.Adds i n :=
    fun ⟨x, hx, ha⟩ => ⟨x, mem_append_left _ hx, ha⟩
  have hown : ∀ {i n}, e.Adds i n →
      ∃ x ∈ es ++ [e.setNextFileNumber fs.nextFileNumber], x.Adds i n :=
    fun ha => ⟨_, mem_append_right _ mem_cons_self, ha⟩
  constructor
  case manifest =>
    obtain ⟨number, hm⟩ := h.manifest
    rw [hman]
    simp [appendRecord, hm]
  case nodup =>
    intro x hx
    rcases mem_append.1 hx with hx | hx
    · exact h.nodup x hx
    · rw [mem_singleton.1 hx]
      exact hadm.nodup
  case next_mono =>
    rw [filterMap_append, pairwise_append]
    refine ⟨h.next_mono, pairwise_singleton .., fun a ha b hb => ?_⟩
    obtain ⟨x, hx, hxa⟩ := mem_filterMap.1 ha
    have hb' : b = fs.nextFileNumber := mem_singleton.1 hb
    rw [hb']
    exact h.next_le x hx a hxa
  case next_le =>
    intro x hx n hn
    rw [hnext]
    rcases mem_append.1 hx with hx | hx
    · exact h.next_le x hx n hn
    · rw [mem_singleton.1 hx] at hn
      rw [← some.inj hn]
      exact UInt64.le_refl _
  case has_next =>
    exact ⟨_, mem_append_right _ mem_cons_self, rfl⟩
  case live_added =>
    intro i n hn
    rcases hlive i n hn with hn | hn
    · exact hold (h.live_added i n hn)
    · exact hown hn
  case deleted_added =>
    intro i hi n ⟨x, hx, hd⟩
    rw [hopen i] at hi
    rcases mem_append.1 hx with hx | hx
    · exact hold (h.deleted_added i hi n ⟨x, hx, hd⟩)
    · -- the checks let through only deletions of live files, and of
      -- files the edit itself adds
      rw [mem_singleton.1 hx] at hd
      obtain ⟨hcf, hmem⟩ := hd
      subst hcf
      obtain ⟨st, hst⟩ := isSome_iff_exists.1 hi
      by_cases ha : n ∈ e.addedFiles.map (·.fileNumber)
      · exact hown ⟨rfl, ha⟩
      · obtain ⟨b, hb, hbo⟩ := (hadm.fits st hst).deleted_live n ((batch_deleted e n).2 hmem)
          (by rw [← Bool.not_eq_true, batch_added]; exact ha)
        refine hold (h.live_added _ n ?_)
        unfold live file
        rw [hst, bind_some, hb]
        simp [Option.filter, hbo]

/-- Every call keeps the invariant, whatever its outcome. -/
theorem call {c : LogCall} (hn : fs.nextFileNumber ≤ c.next) :
    LogInv C (fs.call C c).2 (es ++ fs.loggedBy c) := by
  have h' := h.atNext hn
  unfold BlobFileSet.call BlobFileSet.loggedBy
  by_cases hadm : fs.admits c.edit = true
  case neg =>
    rw [if_neg (by simp [hadm]), append_nil, (logAndApply_refused (by simpa using hadm)).2]
    exact h'
  case pos =>
    have ha : (fs.atNext c.next).Admits c.edit := by
      rw [← admits_iff, admits_atNext]
      exact hadm
    by_cases hio : c.io = .ok
    · rw [hio, if_pos (by simp [hadm, ManifestIO.written])]
      obtain ⟨-, storages, heq, -⟩ := logAndApply_applied (C := C) ha
      exact h'.concat ha (by rw [heq]; rfl) (by rw [heq]; rfl)
        (fun i => lookup_isSome_logAndApply ..) fun i n hl => live_of_live_applied ha hl
    · rw [(logAndApply_failed ha hio).2]
      unfold appended
      cases hw : c.io.written with
      | false =>
        simpa using h'
      | true =>
        rw [if_pos rfl, if_pos (by simp [hadm])]
        exact h'.concat ha rfl rfl (fun _ => rfl) fun i n hl => .inl hl

/-- A run keeps the invariant. -/
theorem calls (cs : List LogCall) (hn : (fs.nextFileNumber :: cs.map (·.next)).Pairwise (· ≤ ·)) :
    LogInv C (fs.calls C cs) (es ++ fs.logged C cs) := by
  induction cs generalizing fs es with
  | nil =>
    rw [logged, append_nil]
    exact h
  | cons c cs ih =>
    rw [map_cons, pairwise_cons] at hn
    have hc := h.call (hn.1 c.next mem_cons_self)
    rw [logged, ← append_assoc]
    refine ih hc ?_
    rw [next_call]
    exact hn.2

end LogInv

end DiffKV
