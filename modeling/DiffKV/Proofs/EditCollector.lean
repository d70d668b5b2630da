/-
What the steps of an `EditCollector` do, stated once each.

`Accepts` says when `AddEdit` returns OK, and `absorb` what it then
does. `Sealable` says when `Seal` returns OK. `apply_of_sealable` gives
the file a number resolves to after `Apply`. Everything about manifests
is proved from these, never from the loops again.
-/
import DiffKV.EditCollector

namespace DiffKV

open Lib List BlobStorage Table CFEditCollector Option

-- ==== AddEdit: specification

namespace CFEditCollector

/-- What the column family's collector holds after an accepted edit. -/
def absorb (c : CFEditCollector) (e : VersionEdit) : CFEditCollector where
  addedFiles := e.addedFiles.foldl Table.emplace c.addedFiles
  deletedFiles := e.deletedFiles.foldl Table.emplace c.deletedFiles
  updatedDiscardableSize := e.updatedDiscardableSize.entries.foldl
    Table.emplace c.updatedDiscardableSize

/-- No number is added twice and none deleted twice, by the edit or by
it and the edits before it. -/
structure Accepts (c : CFEditCollector) (e : VersionEdit) : Prop where
  added_nodup : (e.addedFiles.map (·.fileNumber)).Nodup
  added_new : ∀ m ∈ e.addedFiles, c.addedFiles.find m.fileNumber = none
  deleted_nodup : (e.deletedFiles.map Prod.fst).Nodup
  deleted_new : ∀ d ∈ e.deletedFiles, c.deletedFiles.find d.1 = none

end CFEditCollector

namespace EditCollector

variable {c : EditCollector} {e : VersionEdit} (i : UInt32)

/-- What the collector holds after an accepted edit. -/
def absorb (c : EditCollector) (e : VersionEdit) : EditCollector :=
  { c.setCf e.columnFamilyId ((c.cf e.columnFamilyId).absorb e) with
    hasNextFileNumber := c.hasNextFileNumber || e.nextFileNumber.isSome
    nextFileNumber := e.nextFileNumber.getD c.nextFileNumber }

/-- The edit clashes with no edit before it. -/
structure Accepts (c : EditCollector) (e : VersionEdit) : Prop where
  files : (c.cf e.columnFamilyId).Accepts e
  next : ∀ n, e.nextFileNumber = some n → c.nextFileNumber ≤ n

@[simp] theorem cf_setCf (c : EditCollector) (i j : UInt32) (x : CFEditCollector) :
    (c.setCf i x).cf j = if j = i then x else c.cf j := by
  unfold cf setCf
  rw [lookup_insert]
  by_cases h : j = i <;> simp [h]

@[simp] theorem setCf_setCf (c : EditCollector) (i : UInt32)
    (x y : CFEditCollector) : (c.setCf i x).setCf i y = c.setCf i y := by
  simp [setCf]

/-- A loop that inserts into a table keyed by `key` and fails at a key
already there: it ends well exactly when all the keys are new and
different, and has then inserted everything. -/
private theorem forEach_insert {α σ : Type*} {key : α → UInt64}
    (f : σ → α → Status × σ) (get : σ → Table key) (put : σ → Table key → σ)
    (get_put : ∀ c t, get (put c t) = t) (put_put : ∀ c t u, put (put c t) u = put c u)
    (hnew : ∀ c a, (get c).contains (key a) = false → f c a = (.ok, put c ((get c).emplace a)))
    (hold : ∀ c a, (get c).contains (key a) = true → (f c a).1.isOk = false)
    (l : List α) (c : σ) (put_get : put c (get c) = c) :
    if (l.map key).Nodup ∧ ∀ a ∈ l, (get c).find (key a) = none then
      Status.forEach f c l = (.ok, put c (l.foldl emplace (get c)))
    else (Status.forEach f c l).1.isOk = false := by
  induction l generalizing c with
  | nil => simp [put_get]
  | cons a l ih =>
    rw [Status.forEach_cons]
    cases hc : (get c).contains (key a) with
    | true =>
      have ha : (get c).find (key a) ≠ none := by
        simp [← contains_eq_false_iff, hc]
      rw [if_neg fun h => ha (h.2 a mem_cons_self), if_neg (by simp [hold c a hc])]
      exact hold c a hc
    | false =>
      have ha := contains_eq_false_iff.1 hc
      rw [hnew c a hc, Status.isOk_ok, if_pos rfl]
      have ih := ih (put c ((get c).emplace a)) (by rw [get_put, put_put])
      rw [get_put, put_put] at ih
      -- the rest meets the condition over the grown table exactly when
      -- the whole list meets it over the old one
      have hiff : ((l.map key).Nodup ∧ ∀ b ∈ l, ((get c).emplace a).find (key b) = none)
          ↔ (((a :: l).map key).Nodup ∧ ∀ b ∈ a :: l, (get c).find (key b) = none) := by
        simp only [find_emplace, map_cons, nodup_cons, List.mem_map, forall_mem_cons, ha, true_and]
        constructor
        · rintro ⟨hn, h⟩
          refine ⟨⟨?_, hn⟩, fun b hb => ?_⟩
          · rintro ⟨b, hb, hk⟩
            have := h b hb
            rw [if_pos hk.symm] at this
            cases hf : (get c).find (key b) <;> simp [hf] at this
          · have := h b hb
            split at this
            · cases hf : (get c).find (key b) <;> simp [hf] at this
            · exact this
        · rintro ⟨⟨hna, hn⟩, h⟩
          refine ⟨hn, fun b hb => ?_⟩
          rw [if_neg fun hk => hna ⟨b, hb, hk.symm⟩]
          exact h b hb
      by_cases h : ((a :: l).map key).Nodup ∧ ∀ b ∈ a :: l, (get c).find (key b) = none
      · rw [if_pos (hiff.2 h)] at ih
        rw [if_pos h]
        exact ih
      · rw [if_neg (mt hiff.1 h)] at ih
        rw [if_neg h]
        exact ih

/-- The collector with the added files of column family `i` replaced. -/
private def putAdded (i : UInt32) (c : EditCollector) (t : FileTable) :
    EditCollector :=
  { c.setCf i { c.cf i with addedFiles := t } with status := .ok }

/-- The collector with the deleted files of column family `i` replaced. -/
private def putDeleted (i : UInt32) (c : EditCollector)
    (t : Map UInt64 SequenceNumber) : EditCollector :=
  { c.setCf i { c.cf i with deletedFiles := t } with status := .ok }

private theorem cf_putAdded (c : EditCollector) (t : FileTable) :
    (putAdded i c t).cf i = { c.cf i with addedFiles := t } := by
  show (c.setCf i { c.cf i with addedFiles := t }).cf i = _
  rw [cf_setCf, if_pos rfl]

private theorem cf_putDeleted (c : EditCollector) (t : Map UInt64 SequenceNumber) :
    (putDeleted i c t).cf i = { c.cf i with deletedFiles := t } := by
  show (c.setCf i { c.cf i with deletedFiles := t }).cf i = _
  rw [cf_setCf, if_pos rfl]

private theorem forEach_addFile (l : List BlobFileMeta) (c : EditCollector)
    (hc : putAdded i c (c.cf i).addedFiles = c) :
    if (l.map (·.fileNumber)).Nodup ∧ ∀ a ∈ l, (c.cf i).addedFiles.find a.fileNumber = none then
      Status.forEach (addFile i) c l = (.ok, putAdded i c (l.foldl emplace (c.cf i).addedFiles))
    else (Status.forEach (addFile i) c l).1.isOk = false := by
  refine forEach_insert (addFile i) (fun c => (c.cf i).addedFiles) (putAdded i) ?_ ?_ ?_ ?_ l c hc
  · intro c t
    rw [cf_putAdded]
  · intro c t u
    unfold putAdded
    simp [setCf, cf, lookup_insert]
  · intro c a ha
    simp [addFile, CFEditCollector.addFile, ha, putAdded]
  · intro c a ha
    simp [addFile, CFEditCollector.addFile, ha, blobFileError, Status.isOk]

private theorem forEach_deleteFile (l : List (UInt64 × SequenceNumber))
    (c : EditCollector) (hc : putDeleted i c (c.cf i).deletedFiles = c) :
    if (l.map Prod.fst).Nodup ∧ ∀ a ∈ l, (c.cf i).deletedFiles.find a.1 = none then
      Status.forEach (deleteFile i) c l
        = (.ok, putDeleted i c (l.foldl emplace (c.cf i).deletedFiles))
    else (Status.forEach (deleteFile i) c l).1.isOk = false := by
  refine forEach_insert (deleteFile i) (fun c => (c.cf i).deletedFiles)
    (putDeleted i) ?_ ?_ ?_ ?_ l c hc
  · intro c t
    rw [cf_putDeleted]
  · intro c t u
    unfold putDeleted
    simp [setCf, cf, lookup_insert]
  · intro c a ha
    simp [deleteFile, CFEditCollector.deleteFile, ha, putDeleted]
  · intro c a ha
    simp [deleteFile, CFEditCollector.deleteFile, ha, blobFileError, Status.isOk]

private theorem foldl_updateFile (l : List (UInt64 × UInt64))
    (c : EditCollector) (x : CFEditCollector) :
    l.foldl (updateFile i) (c.setCf i x) = c.setCf i { x with
          updatedDiscardableSize := l.foldl emplace x.updatedDiscardableSize } := by
  induction l generalizing x with
  | nil => rfl
  | cons a l ih =>
    rw [foldl_cons, foldl_cons, updateFile, cf_setCf, if_pos rfl, setCf_setCf, ih]
    rfl

/-- The three loops of `AddEdit`: either the files of the edit are all
new and the next file number decides, or it fails. -/
private theorem addEdit_files (e : VersionEdit) (hs : c.isSealed = false) (hok : c.status = .ok) :
    ((c.cf e.columnFamilyId).Accepts e ∧ c.addEdit e
        = (c.setCf e.columnFamilyId
            ((c.cf e.columnFamilyId).absorb e)).addNextFileNumber e.nextFileNumber)
      ∨ (¬ (c.cf e.columnFamilyId).Accepts e ∧ (c.addEdit e).1.isOk = false) := by
  have hadd := forEach_addFile e.columnFamilyId e.addedFiles
    (c.setCf e.columnFamilyId (c.cf e.columnFamilyId))
    (by simp [putAdded, setCf, cf, lookup_insert, hok])
  have hdel := forEach_deleteFile e.columnFamilyId e.deletedFiles
    (putAdded e.columnFamilyId (c.setCf e.columnFamilyId (c.cf e.columnFamilyId))
      (e.addedFiles.foldl emplace (c.cf e.columnFamilyId).addedFiles))
    (by simp [putAdded, putDeleted, setCf, cf, lookup_insert])
  rw [cf_setCf, if_pos rfl] at hadd
  rw [cf_putAdded, cf_setCf, if_pos rfl] at hdel
  unfold addEdit
  simp only [hs, Bool.false_eq_true, if_false]
  split at hadd
  case isFalse hA =>
    exact .inr ⟨fun h => hA ⟨h.added_nodup, h.added_new⟩, by simp [hadd]⟩
  case isTrue hA =>
    simp only [hadd, Status.isOk_ok, Bool.not_true, Bool.false_eq_true, if_false]
    split at hdel
    case isFalse hD =>
      exact .inr ⟨fun h => hD ⟨h.deleted_nodup, h.deleted_new⟩, by simp [hdel]⟩
    case isTrue hD =>
      refine .inl ⟨⟨hA.1, hA.2, hD.1, hD.2⟩, ?_⟩
      have hcol : putDeleted e.columnFamilyId
          (putAdded e.columnFamilyId (c.setCf e.columnFamilyId (c.cf e.columnFamilyId))
            (e.addedFiles.foldl emplace (c.cf e.columnFamilyId).addedFiles))
          (e.deletedFiles.foldl emplace (c.cf e.columnFamilyId).deletedFiles)
          = c.setCf e.columnFamilyId { c.cf e.columnFamilyId with
              addedFiles := e.addedFiles.foldl emplace (c.cf e.columnFamilyId).addedFiles
              deletedFiles := e.deletedFiles.foldl emplace
                (c.cf e.columnFamilyId).deletedFiles } := by
        unfold putDeleted
        rw [cf_putAdded, cf_setCf, if_pos rfl]
        simp [putAdded, setCf, hok]
      simp only [hdel, Status.isOk_ok, Bool.not_true, Bool.false_eq_true,
        if_false, hcol, foldl_updateFile]
      rfl

/-- `AddEdit` accepts an edit that clashes with no edit before it. -/
theorem addEdit_of_accepts (hs : c.isSealed = false) (hok : c.status = .ok)
    (h : c.Accepts e) : c.addEdit e = (.ok, c.absorb e) := by
  rcases addEdit_files e hs hok with ⟨-, he⟩ | ⟨hn, -⟩
  · rw [he]
    cases hn : e.nextFileNumber with
    | none => simp [addNextFileNumber, absorb, hn, setCf]
    | some n =>
      have hle : ¬ n < c.nextFileNumber := UInt64.not_lt.2 (h.next n hn)
      simp [addNextFileNumber, absorb, hn, setCf, hle]
  · exact absurd h.files hn

/-- `AddEdit` refuses every other edit. -/
theorem accepts_of_addEdit (hs : c.isSealed = false) (hok : c.status = .ok)
    (h : (c.addEdit e).1.isOk = true) : c.Accepts e := by
  rcases addEdit_files e hs hok with ⟨ha, he⟩ | ⟨-, hf⟩
  · refine ⟨ha, fun n hn => UInt64.not_lt.1 fun hlt => ?_⟩
    rw [he, hn] at h
    simp [addNextFileNumber, setCf, hlt, Status.isOk] at h
  · simp [hf] at h

@[simp] theorem absorb_status (c : EditCollector) (e : VersionEdit) :
    (c.absorb e).status = c.status := rfl

theorem cf_absorb (c : EditCollector) (e : VersionEdit) (i : UInt32) :
    (c.absorb e).cf i = if i = e.columnFamilyId then (c.cf i).absorb e else c.cf i := by
  show (c.setCf e.columnFamilyId _).cf i = _
  rw [cf_setCf]
  by_cases hi : i = e.columnFamilyId
  · rw [if_pos hi, if_pos hi, hi]
  · rw [if_neg hi, if_neg hi]

end EditCollector

-- ==== Seal: specification

namespace CFEditCollector

/-- The batch fits the files of a storage: it adds none the storage
knows, and deletes only live ones or ones it adds itself. -/
structure Sealable (c : CFEditCollector) (storage : BlobStorage) : Prop where
  added_fresh : ∀ n, c.addedFiles.contains n = true → storage.findFile n = none
  deleted_live : ∀ n, c.deletedFiles.contains n = true →
    c.addedFiles.contains n = false → ∃ b, storage.findFile n = some b ∧ b.isObsolete = false

private theorem sealAdded_isOk (storage : BlobStorage) (m : BlobFileMeta) :
    (sealAdded storage m).isOk = true ↔ storage.findFile m.fileNumber = none := by
  unfold sealAdded
  cases hf : storage.findFile m.fileNumber with
  | none => simp
  | some b =>
    cases hb : b.isObsolete <;> simp [blobFileError, Status.isOk, hb]

private theorem sealDeleted_isOk (c : CFEditCollector)
    (storage : BlobStorage) (d : UInt64 × SequenceNumber) :
    (c.sealDeleted storage d).isOk = true
      ↔ (c.addedFiles.contains d.1 = false →
        ∃ b, storage.findFile d.1 = some b ∧ b.isObsolete = false) := by
  unfold sealDeleted
  cases ha : c.addedFiles.contains d.1 with
  | true => simp
  | false =>
    cases hf : storage.findFile d.1 with
    | none => simp [blobFileError, Status.isOk]
    | some b =>
      cases hb : b.isObsolete <;> simp [blobFileError, Status.isOk, hb]

/-- `CFEditCollector::Seal` succeeds exactly on a batch that fits. -/
theorem seal_isOk (c : CFEditCollector) (storage : BlobStorage) :
    (c.seal storage).isOk = true ↔ c.Sealable storage := by
  have hadd : (∀ m ∈ c.addedFiles.entries, (sealAdded storage m).isOk = true)
      ↔ ∀ n, c.addedFiles.contains n = true → storage.findFile n = none := by
    simp only [sealAdded_isOk]
    exact forall_entries_iff (P := fun n => storage.findFile n = none)
  have hdel : (∀ d ∈ c.deletedFiles.entries, (c.sealDeleted storage d).isOk = true)
      ↔ ∀ n, c.deletedFiles.contains n = true →
        c.addedFiles.contains n = false →
          ∃ b, storage.findFile n = some b ∧ b.isObsolete = false := by
    simp only [sealDeleted_isOk]
    exact forall_entries_iff (P := fun n =>
      c.addedFiles.contains n = false → ∃ b, storage.findFile n = some b ∧ b.isObsolete = false)
  unfold «seal»
  dsimp only
  split
  case isTrue h =>
    rw [Status.firstFailure_isOk, hadd] at h
    rw [Status.firstFailure_isOk, hdel]
    exact ⟨fun h' => ⟨h, h'⟩, fun h' => h'.deleted_live⟩
  case isFalse h =>
    have hn := h
    rw [Status.firstFailure_isOk, hadd] at hn
    exact ⟨fun h' => absurd h' h, fun h' => absurd h'.added_fresh hn⟩

/-- The empty batch fits every storage. -/
theorem sealable_empty (storage : BlobStorage) :
    ({} : CFEditCollector).Sealable storage := ⟨fun _ h => by simp at h, fun _ h => by simp at h⟩

end CFEditCollector

namespace EditCollector

variable {c : EditCollector} {storages : Storages}

/-- The batch of every open column family fits its storage. -/
def Sealable (c : EditCollector) (storages : Storages) : Prop :=
  ∀ i storage, storages.lookup i = some storage → (c.cf i).Sealable storage

private theorem sealCf_all (c : EditCollector) (storages : Storages) :
    (∀ x ∈ c.columnFamilies.entries, (sealCf storages x).isOk = true) ↔ c.Sealable storages := by
  constructor
  · intro h i storage hi
    unfold cf
    cases hc : c.columnFamilies.lookup i with
    | none => exact sealable_empty storage
    | some x =>
      have := h (i, x) (mem_entries_iff.2 hc)
      simp only [sealCf, hi] at this
      exact (seal_isOk x storage).1 this
  · rintro h ⟨i, x⟩ hx
    have hc : c.cf i = x := by
      unfold cf
      rw [mem_entries_iff.1 hx, getD_some]
    unfold sealCf
    cases hi : storages.lookup i with
    | none => rfl
    | some storage =>
      exact (seal_isOk x storage).2 (hc ▸ h i storage hi)

theorem seal_of_sealable (hok : c.status = .ok) (h : c.Sealable storages) :
    c.seal storages = (.ok, { c with isSealed := true }) := by
  have := (Status.firstFailure_isOk _ _).2 ((sealCf_all c storages).2 h)
  simp [«seal», hok, this]

theorem sealable_of_seal (hok : c.status = .ok)
    (h : (c.seal storages).1.isOk = true) : c.Sealable storages := by
  rw [← sealCf_all, ← Status.firstFailure_isOk]
  by_contra hn
  simp [«seal», hok, hn] at h

end EditCollector

-- ==== Apply: specification

namespace CFEditCollector

variable {c : CFEditCollector} {s : BlobStorage}

/-- Files added and not deleted again by the batch. -/
def adds (c : CFEditCollector) (n : UInt64) : Option BlobFileMeta :=
  if c.deletedFiles.contains n then none else c.addedFiles.find n

/-- Files deleted and not added by the batch. -/
def deletes (c : CFEditCollector) (n : UInt64) : Bool :=
  c.deletedFiles.contains n && !c.addedFiles.contains n

/-- The update the batch makes to a file. -/
def update (c : CFEditCollector) (n : UInt64) (m : BlobFileMeta) :
    BlobFileMeta :=
  match c.updatedDiscardableSize.lookup n with
  | none => m
  | some amount => m.addDiscardableSize amount

private theorem files_foldl_addBlobFile (l : List BlobFileMeta) (s : BlobStorage) :
    (l.foldl addBlobFile s).files = l.foldl emplace s.files := by
  induction l generalizing s with
  | nil => rfl
  | cons m l ih =>
    rw [foldl_cons, ih]
    rfl

theorem findFile_applyAdded (c : CFEditCollector) (s : BlobStorage) (n : UInt64) :
    (c.applyAdded s).findFile n = (s.findFile n).or (c.adds n) := by
  have hfilter : (c.addedFiles.entries.filter fun f =>
        !c.deletedFiles.contains f.fileNumber).find? (fun f => f.fileNumber = n) = c.adds n := by
    show (c.addedFiles.filter fun f =>
      !c.deletedFiles.contains f.fileNumber).find n = _
    rw [find_filter]
    unfold adds
    cases hf : c.addedFiles.find n with
    | none => simp
    | some m =>
      have hm : m.fileNumber = n := key_of_find hf
      cases hd : c.deletedFiles.contains n <;> simp [hm, hd]
  unfold findFile applyAdded
  rw [files_foldl_addBlobFile, find_foldl_emplace, hfilter]

/-- `MarkFileObsolete` of a file that may be missing. -/
def mark (s : BlobStorage) (d : UInt64 × SequenceNumber) : BlobStorage :=
  (s.markFileObsolete d.1 d.2).getD s

/-- The deletions of a batch that are not paired with an addition. -/
def unpaired (c : CFEditCollector) : List (UInt64 × SequenceNumber) :=
  c.deletedFiles.entries.filter fun d => !c.addedFiles.contains d.1

theorem findFile_mark (s : BlobStorage) (d : UInt64 × SequenceNumber) (n : UInt64) :
    (mark s d).findFile n
      = if n = d.1 then (s.findFile n).map (·.fileStateTransit .kDelete) else s.findFile n := by
  unfold mark markFileObsolete
  cases hm : s.files.find d.1 with
  | none =>
    by_cases hn : n = d.1
    · have hnone : s.findFile n = none := hn ▸ hm
      rw [if_pos hn, hnone]
      exact hnone
    · rw [if_neg hn]
      rfl
  | some m =>
    have hnum : m.fileNumber = d.1 := key_of_find hm
    exact hnum ▸ findFile_markFileObsoleteLocked s n m d.2

theorem findFile_foldl_mark (l : List (UInt64 × SequenceNumber)) (s : BlobStorage) (n : UInt64) :
    (l.foldl mark s).findFile n = if n ∈ l.map Prod.fst then
          (s.findFile n).map (·.fileStateTransit .kDelete)
        else s.findFile n := by
  induction l generalizing s with
  | nil => simp
  | cons d l ih =>
    rw [foldl_cons, ih, findFile_mark, map_cons]
    by_cases hn : n = d.1
    · -- a second deletion of the same number changes nothing more
      have hmem : n ∈ d.1 :: l.map Prod.fst := hn ▸ mem_cons_self
      rw [if_pos hn, if_pos hmem]
      cases s.findFile n <;> simp
    · have hmem : n ∈ d.1 :: l.map Prod.fst ↔ n ∈ l.map Prod.fst := by
        simp [hn]
      rw [if_neg hn]
      simp only [hmem]

/-- The delete loop ends well when every file it reaches is there. -/
private theorem forEach_applyDelete (c : CFEditCollector)
    (l : List (UInt64 × SequenceNumber)) (s : BlobStorage)
    (h : ∀ d ∈ l, c.addedFiles.contains d.1 = false → s.findFile d.1 ≠ none) :
    Status.forEach c.applyDelete s l
      = (.ok, (l.filter fun d => !c.addedFiles.contains d.1).foldl mark s) := by
  induction l generalizing s with
  | nil => rfl
  | cons d l ih =>
    have htail := fun x hx => h x (mem_cons_of_mem d hx)
    rw [Status.forEach_cons]
    cases ha : c.addedFiles.contains d.1 with
    | true =>
      have hd : c.applyDelete s d = (.ok, s) := by
        simp [applyDelete, ha]
      rw [hd, Status.isOk_ok, if_pos rfl, ih s htail, filter_cons_of_neg (by simp [ha])]
    | false =>
      have hd : c.applyDelete s d = (.ok, mark s d) := by
        obtain ⟨m, hm⟩ := ne_none_iff_exists'.1 (h d mem_cons_self ha)
        have hfind : s.files.find d.1 = some m := hm
        simp [applyDelete, ha, mark, markFileObsolete, hfind]
      have hkept : ∀ x ∈ l, c.addedFiles.contains x.1 = false → (mark s d).findFile x.1 ≠ none := by
        intro x hx hxa
        rw [findFile_mark]
        split
        · simpa using htail x hx hxa
        · exact htail x hx hxa
      rw [hd, Status.isOk_ok, if_pos rfl, ih _ hkept, filter_cons_of_pos (by simp [ha]), foldl_cons]

private theorem findFile_foldl_applyUpdate (l : List (UInt64 × UInt64))
    (hl : (l.map Prod.fst).Nodup) (s : BlobStorage) (n : UInt64) :
    (l.foldl applyUpdate s).findFile n = match l.find? (fun a => a.1 = n) with
        | none => s.findFile n
        | some a => (s.findFile n).map (·.addDiscardableSize a.2) := by
  induction l generalizing s with
  | nil => rfl
  | cons a l ih =>
    rw [map_cons, nodup_cons] at hl
    have hstep : (applyUpdate s a).findFile n
        = if n = a.1 then (s.findFile n).map (·.addDiscardableSize a.2) else s.findFile n :=
      find_modify s.files a.1 (·.addDiscardableSize a.2) (fun _ => rfl) n
    rw [foldl_cons, ih hl.2, hstep, find?_cons]
    by_cases hn : a.1 = n
    · have hnone : l.find? (fun a => a.1 = n) = none := by
        rw [find?_eq_none]
        intro b hb hbn
        refine hl.1 (mem_map.2 ⟨b, hb, ?_⟩)
        rw [hn]
        exact of_decide_eq_true hbn
      simp [hn, hnone]
    · have hn' : ¬ n = a.1 := fun h => hn h.symm
      simp [hn, hn']

/-- `CFEditCollector::Apply` of a batch that fits: the three loops. -/
theorem apply_eq (h : c.Sealable s) :
    c.apply s = (.ok, (c.updatedDiscardableSize.entries.foldl applyUpdate
      (c.unpaired.foldl mark (c.applyAdded s))).computeGCScore) := by
  have hloop := forEach_applyDelete c c.deletedFiles.entries (c.applyAdded s) <| by
      intro d hd hda
      obtain ⟨b, hb, -⟩ := h.deleted_live d.1 (contains_of_mem hd) hda
      rw [findFile_applyAdded, hb]
      simp
  unfold apply
  rw [hloop]
  rfl

theorem mem_unpaired {n : UInt64} : n ∈ c.unpaired.map Prod.fst ↔ c.deletes n = true := by
  unfold unpaired deletes
  rw [Bool.and_eq_true, Table.contains_iff]
  constructor
  · intro hn
    obtain ⟨d, hd, rfl⟩ := mem_map.1 hn
    obtain ⟨hmem, ha⟩ := mem_filter.1 hd
    exact ⟨⟨d, find_of_mem hmem⟩, ha⟩
  · rintro ⟨⟨d, hd⟩, ha⟩
    obtain rfl := key_of_find hd
    exact mem_map_of_mem (mem_filter.2 ⟨mem_of_find hd, ha⟩)

/-- What becomes of the files. -/
theorem apply_of_sealable (h : c.Sealable s) :
    (c.apply s).1 = .ok ∧ ∀ n, (c.apply s).2.findFile n = (((if c.deletes n then
              (s.findFile n).map (·.fileStateTransit .kDelete)
            else s.findFile n).or (c.adds n)).map (c.update n)) := by
  rw [apply_eq h]
  refine ⟨rfl, fun n => ?_⟩
  rw [findFile_computeGCScore, findFile_foldl_applyUpdate _ c.updatedDiscardableSize.nodup,
    findFile_foldl_mark, findFile_applyAdded]
  have hcur : (if n ∈ c.unpaired.map Prod.fst then
        ((s.findFile n).or (c.adds n)).map (·.fileStateTransit .kDelete)
      else (s.findFile n).or (c.adds n))
      = (if c.deletes n then
            (s.findFile n).map (·.fileStateTransit .kDelete)
          else s.findFile n).or (c.adds n) := by
    by_cases hd : c.deletes n = true
    · -- an unpaired deletion meets no addition
      have hnone : c.adds n = none := by
        unfold adds
        rw [deletes, Bool.and_eq_true] at hd
        rw [if_pos hd.1]
      rw [if_pos (mem_unpaired.2 hd), if_pos hd, hnone, or_none, or_none]
    · rw [if_neg (mt mem_unpaired.1 hd), if_neg hd]
  rw [hcur]
  unfold update Table.lookup Table.find
  cases c.updatedDiscardableSize.entries.find? (fun a => a.1 = n) <;> simp

end CFEditCollector

namespace EditCollector

private theorem forEach_applyCf (l : List (UInt32 × CFEditCollector))
    (hl : (l.map Prod.fst).Nodup) (storages : Storages)
    (h : ∀ x ∈ l, ∀ st, storages.lookup x.1 = some st → x.2.Sealable st) :
    (Status.forEach applyCf storages l).1 = .ok
      ∧ ∀ i, (Status.forEach applyCf storages l).2.lookup i = match l.find? (fun x => x.1 = i) with
          | none => storages.lookup i
          | some x => (storages.lookup i).map fun st => (x.2.apply st).2 := by
  induction l generalizing storages with
  | nil => exact ⟨rfl, fun i => rfl⟩
  | cons x l ih =>
    rw [map_cons, nodup_cons] at hl
    have hnone : ∀ i, x.1 = i → l.find? (fun y => y.1 = i) = none := by
      intro i hi
      rw [find?_eq_none]
      intro y hy hyi
      refine hl.1 (mem_map.2 ⟨y, hy, ?_⟩)
      rw [hi]
      exact of_decide_eq_true hyi
    rw [Status.forEach_cons]
    cases hx : storages.lookup x.1 with
    | none =>
      have hstep : applyCf storages x = (.ok, storages) := by
        simp [applyCf, hx]
      obtain ⟨h1, h2⟩ := ih hl.2 storages fun y hy =>
        h y (mem_cons_of_mem _ hy)
      rw [hstep, Status.isOk_ok, if_pos rfl]
      refine ⟨h1, fun i => ?_⟩
      rw [h2 i, find?_cons]
      by_cases hi : x.1 = i
      · subst hi
        simp [hnone, hx]
      · simp [hi]
    | some st =>
      have hst := apply_of_sealable (h x mem_cons_self st hx)
      have hstep : applyCf storages x = (.ok, storages.insert x.1 (x.2.apply st).2) := by
        simp [applyCf, hx, hst.1]
      obtain ⟨h1, h2⟩ := ih hl.2 (storages.insert x.1 (x.2.apply st).2) <| by
          intro y hy st' hst'
          have hne : y.1 ≠ x.1 := fun he =>
            hl.1 (mem_map.2 ⟨y, hy, he⟩)
          rw [lookup_insert, if_neg hne] at hst'
          exact h y (mem_cons_of_mem _ hy) st' hst'
      rw [hstep, Status.isOk_ok, if_pos rfl]
      refine ⟨h1, fun i => ?_⟩
      rw [h2 i, lookup_insert, find?_cons]
      by_cases hi : x.1 = i
      · subst hi
        simp [hnone, hx]
      · simp [hi, Ne.symm hi]

/-- `EditCollector::Apply` of a batch that fits: every open storage the
batch mentions has its own part applied. -/
theorem apply_of_sealable {c : EditCollector} {storages : Storages}
    (hok : c.status = .ok) (hs : c.isSealed = true) (h : c.Sealable storages) :
    (c.apply storages).1 = .ok ∧ (c.apply storages).2.1 = c
      ∧ ∀ i, (c.apply storages).2.2.lookup i = if c.columnFamilies.contains i then
            (storages.lookup i).map fun st => ((c.cf i).apply st).2
          else storages.lookup i := by
  obtain ⟨h1, h2⟩ := forEach_applyCf c.columnFamilies.entries c.columnFamilies.nodup storages <| by
      rintro ⟨i, x⟩ hx st hst
      have hc : c.cf i = x := by
        unfold cf
        rw [mem_entries_iff.1 hx, getD_some]
      exact hc ▸ h i st hst
  unfold apply
  simp only [hok, Status.isOk_ok, Bool.not_true, Bool.false_eq_true, hs, if_false, h1, true_and]
  refine ⟨by rw [← hok, ← hs], fun i => ?_⟩
  rw [h2 i]
  unfold cf Table.contains Table.lookup Table.find
  cases c.columnFamilies.entries.find? (fun x => x.1 = i) <;> simp

end EditCollector

end DiffKV
