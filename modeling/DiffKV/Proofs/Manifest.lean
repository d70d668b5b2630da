/-
Replaying a whole manifest through one collector.

`LogAndApply` gives every edit a collector of its own; recovery gives
all of them the same one. This file says what that one collector holds
after any list of edits (`absorbAll`), when it accepted them all
(`AcceptsAll`), and from the two when the middle part of `Recover`
succeeds on a manifest read back intact (`recoverEdits_logged_iff`).

Which numbers a list of edits adds or deletes does not depend on the
edits being accepted: `emplace` keeps the first entry of a key, and
membership cannot tell. So the contents lemmas below have no
hypotheses, and acceptance enters only where a file's fields matter.
-/
import DiffKV.FileSet
import DiffKV.Proofs.EditCollector

namespace DiffKV

open Lib List Table VersionEdit CFEditCollector LogReader EditCollector

-- ==== what an edit adds, deletes

namespace VersionEdit

/-- The edit adds file `n` to column family `i`. -/
def Adds (e : VersionEdit) (i : UInt32) (n : UInt64) : Prop :=
  e.columnFamilyId = i ∧ n ∈ e.addedFiles.map (·.fileNumber)

/-- The edit deletes file `n` from column family `i`. -/
def Deletes (e : VersionEdit) (i : UInt32) (n : UInt64) : Prop :=
  e.columnFamilyId = i ∧ n ∈ e.deletedFiles.map Prod.fst

/-- The file the edit adds under `n` in column family `i`. -/
def added (e : VersionEdit) (i : UInt32) (n : UInt64) : Option BlobFileMeta :=
  if e.columnFamilyId = i then e.addedFiles.find? (·.fileNumber = n)
  else none

/-- The amount the edit logs for file `n` of column family `i`. -/
def amount (e : VersionEdit) (i : UInt32) (n : UInt64) : Option UInt64 :=
  if e.columnFamilyId = i then e.updatedDiscardableSize.lookup n else none

instance (e : VersionEdit) (i : UInt32) (n : UInt64) : Decidable (e.Adds i n) :=
  inferInstanceAs (Decidable (_ ∧ _))

instance (e : VersionEdit) (i : UInt32) (n : UInt64) : Decidable (e.Deletes i n) :=
  inferInstanceAs (Decidable (_ ∧ _))

/-- Neither adds the other's additions, nor deletes its deletions. -/
def NoClash (e e' : VersionEdit) : Prop :=
  e.columnFamilyId = e'.columnFamilyId →
    (∀ n ∈ e'.addedFiles.map (·.fileNumber), n ∉ e.addedFiles.map (·.fileNumber))
    ∧ ∀ n ∈ e'.deletedFiles.map Prod.fst, n ∉ e.deletedFiles.map Prod.fst

-- the bounded quantifiers are decided over the lists, not over all numbers
instance (e e' : VersionEdit) : Decidable (e.NoClash e') :=
  letI : Decidable (∀ n ∈ e'.addedFiles.map (·.fileNumber),
      n ∉ e.addedFiles.map (·.fileNumber)) := List.decidableBAll ..
  letI : Decidable (∀ n ∈ e'.deletedFiles.map Prod.fst,
      n ∉ e.deletedFiles.map Prod.fst) := List.decidableBAll ..
  inferInstanceAs (Decidable (_ → _))

/-- No number twice in the edit itself. -/
def Nodup (e : VersionEdit) : Prop :=
  (e.addedFiles.map (·.fileNumber)).Nodup ∧ (e.deletedFiles.map Prod.fst).Nodup

instance (e : VersionEdit) : Decidable e.Nodup :=
  inferInstanceAs (Decidable (_ ∧ _))

variable (e : VersionEdit) (i : UInt32) (n : UInt64)

@[simp] theorem persisted_columnFamilyId : e.persisted.columnFamilyId = e.columnFamilyId := rfl

@[simp] theorem persisted_nextFileNumber : e.persisted.nextFileNumber = e.nextFileNumber := rfl

@[simp] theorem persisted_added :
    e.persisted.addedFiles.map (·.fileNumber) = e.addedFiles.map (·.fileNumber) := by
  simp [persisted, Function.comp_def]

@[simp] theorem persisted_deleted :
    e.persisted.deletedFiles.map Prod.fst = e.deletedFiles.map Prod.fst := by
  simp [persisted, Function.comp_def]

@[simp] theorem persisted_adds : e.persisted.Adds i n ↔ e.Adds i n := by
  simp [Adds]

@[simp] theorem persisted_deletes : e.persisted.Deletes i n ↔ e.Deletes i n := by
  simp [Deletes]

@[simp] theorem persisted_nodup : e.persisted.Nodup ↔ e.Nodup := by
  unfold Nodup
  rw [persisted_added, persisted_deleted]

@[simp] theorem persisted_noClash (e e' : VersionEdit) :
    e.persisted.NoClash e'.persisted ↔ e.NoClash e' := by
  unfold NoClash
  rw [persisted_added, persisted_added, persisted_deleted, persisted_deleted]
  rfl

@[simp] theorem persisted_find :
    e.persisted.added i n = (e.added i n).map BlobFileMeta.persistent := by
  unfold added persisted
  by_cases hi : e.columnFamilyId = i
  · rw [if_pos hi, if_pos hi, find?_map]
    rfl
  · rw [if_neg hi, if_neg hi]
    rfl

theorem adds_iff_added {e : VersionEdit} {i : UInt32} {n : UInt64} :
    e.Adds i n ↔ (e.added i n).isSome = true := by
  unfold Adds added
  by_cases hi : e.columnFamilyId = i <;> simp [hi]

end VersionEdit

-- ==== a list of edits absorbed

namespace CFEditCollector

variable (c : CFEditCollector) (e : VersionEdit)

theorem added_absorb (n : UInt64) :
    (c.absorb e).addedFiles.contains n = true
      ↔ c.addedFiles.contains n = true ∨ n ∈ e.addedFiles.map (·.fileNumber) := by
  unfold Table.contains absorb
  rw [find_foldl_emplace, Option.isSome_or, Bool.or_eq_true, isSome_find?, any_eq_true, mem_map]
  simp

theorem deleted_absorb (n : UInt64) :
    (c.absorb e).deletedFiles.contains n = true
      ↔ c.deletedFiles.contains n = true ∨ n ∈ e.deletedFiles.map Prod.fst := by
  unfold Table.contains absorb
  rw [find_foldl_emplace, Option.isSome_or, Bool.or_eq_true, isSome_find?, any_eq_true, mem_map]
  simp

/-- The first amount logged for a file stays. -/
theorem updated_absorb (n : UInt64) :
    (c.absorb e).updatedDiscardableSize.lookup n
      = (c.updatedDiscardableSize.lookup n).or (e.updatedDiscardableSize.lookup n) := by
  unfold Table.lookup absorb
  rw [find_foldl_emplace]
  show _ = (Option.map Prod.snd (c.updatedDiscardableSize.find n)).or
    (Option.map Prod.snd (e.updatedDiscardableSize.entries.find? _))
  cases c.updatedDiscardableSize.find n <;> simp

end CFEditCollector

namespace EditCollector

/-- What the collector holds after a list of edits, all accepted. -/
def absorbAll (c : EditCollector) (es : List VersionEdit) : EditCollector :=
  es.foldl absorb c

/-- Every edit is accepted in its turn. -/
def AcceptsAll (c : EditCollector) : List VersionEdit → Prop
  | [] => True
  | e :: es => c.Accepts e ∧ (c.absorb e).AcceptsAll es

variable (c : EditCollector) (es : List VersionEdit) (i : UInt32) (n : UInt64) (e : VersionEdit)

@[simp] theorem absorbAll_nil : c.absorbAll [] = c := rfl

theorem absorbAll_cons (es : List VersionEdit) :
    c.absorbAll (e :: es) = (c.absorb e).absorbAll es := rfl

theorem acceptsAll_concat :
    c.AcceptsAll (es ++ [e]) ↔ c.AcceptsAll es ∧ (c.absorbAll es).Accepts e := by
  induction es generalizing c with
  | nil => simp [AcceptsAll]
  | cons e' es ih =>
    rw [cons_append, AcceptsAll, AcceptsAll, ih, absorbAll_cons, and_assoc]

@[simp] theorem absorbAll_status : (c.absorbAll es).status = c.status := by
  induction es generalizing c with
  | nil => rfl
  | cons e es ih => rw [absorbAll_cons, ih, absorb_status]

/-- What an edit leaves with the collector of its family, the edits leave
with the collector. -/
private theorem has_absorbAll {H : CFEditCollector → Prop}
    {B : VersionEdit → Prop} (habsorb : ∀ c e, H (c.absorb e) ↔ H c ∨ B e)
    (c : EditCollector) (es : List VersionEdit) (i : UInt32) :
    H ((c.absorbAll es).cf i) ↔ H (c.cf i) ∨ ∃ e ∈ es, e.columnFamilyId = i ∧ B e := by
  induction es generalizing c with
  | nil => simp
  | cons e es ih =>
    rw [absorbAll_cons, ih, cf_absorb]
    by_cases hi : i = e.columnFamilyId
    · subst hi
      rw [if_pos rfl, habsorb]
      simp [or_assoc]
    · rw [if_neg hi]
      simp [Ne.symm hi]

theorem added_absorbAll :
    ((c.absorbAll es).cf i).addedFiles.contains n = true
      ↔ (c.cf i).addedFiles.contains n = true ∨ ∃ e ∈ es, e.Adds i n :=
  has_absorbAll (H := fun c => c.addedFiles.contains n = true)
    (fun c e => added_absorb c e n) c es i

theorem deleted_absorbAll :
    ((c.absorbAll es).cf i).deletedFiles.contains n = true
      ↔ (c.cf i).deletedFiles.contains n = true ∨ ∃ e ∈ es, e.Deletes i n :=
  has_absorbAll (H := fun c => c.deletedFiles.contains n = true)
    (fun c e => deleted_absorb c e n) c es i

theorem find_absorbAll :
    ((c.absorbAll es).cf i).addedFiles.find n
      = ((c.cf i).addedFiles.find n).or (es.findSome? (·.added i n)) := by
  induction es generalizing c with
  | nil => simp
  | cons e es ih =>
    rw [absorbAll_cons, ih, cf_absorb, findSome?_cons]
    by_cases hi : i = e.columnFamilyId
    · subst hi
      rw [if_pos rfl]
      unfold added CFEditCollector.absorb
      rw [find_foldl_emplace, if_pos rfl, Option.or_assoc]
      cases e.addedFiles.find? (fun m => m.fileNumber = n) <;> simp
    · rw [if_neg hi]
      have : e.added i n = none := if_neg (Ne.symm hi)
      simp [this]

/-- Of the amounts logged for a file the collector keeps the first. -/
theorem updated_absorbAll :
    ((c.absorbAll es).cf i).updatedDiscardableSize.lookup n
      = ((c.cf i).updatedDiscardableSize.lookup n).or (es.filterMap (·.amount i n)).head? := by
  induction es generalizing c with
  | nil => simp
  | cons e es ih =>
    rw [absorbAll_cons, ih, cf_absorb, filterMap_cons]
    by_cases hi : i = e.columnFamilyId
    · subst hi
      rw [if_pos rfl, updated_absorb]
      unfold amount
      cases e.updatedDiscardableSize.lookup n <;> simp
    · rw [if_neg hi]
      have : e.amount i n = none := if_neg (Ne.symm hi)
      simp [this]

theorem hasNext_absorbAll :
    (c.absorbAll es).hasNextFileNumber = true
      ↔ c.hasNextFileNumber = true ∨ ∃ e ∈ es, e.nextFileNumber.isSome = true := by
  induction es generalizing c with
  | nil => simp
  | cons e es ih =>
    rw [absorbAll_cons, ih]
    simp [absorb, or_assoc]

/-- The collector is at the last next file number logged. -/
theorem next_absorbAll :
    (c.absorbAll es).nextFileNumber
      = (es.filterMap (·.nextFileNumber)).getLastD c.nextFileNumber := by
  induction es generalizing c with
  | nil => rfl
  | cons e es ih =>
    rw [absorbAll_cons, ih, filterMap_cons]
    cases hn : e.nextFileNumber with
    | none => simp only [absorb, hn, Option.getD_none]
    | some n =>
      simp only [absorb, hn, Option.getD_some, getLastD_cons]

/-- A rising list stays below its last element. -/
private theorem le_getLastD {l : List UInt64} (h : l.Pairwise (· ≤ ·))
    {a : UInt64} (ha : a ∈ l) (d : UInt64) : a ≤ l.getLastD d := by
  induction l generalizing d with
  | nil => cases ha
  | cons b l ih =>
    rw [getLastD_cons]
    rw [pairwise_cons] at h
    rcases mem_cons.1 ha with rfl | ha
    · cases hl : l.getLast? with
      | none =>
        rw [getLast?_eq_none_iff.1 hl]
        exact UInt64.le_refl _
      | some x =>
        rw [getLastD_eq_getLast?, hl]
        exact h.1 x (mem_of_getLast? hl)
    · exact ih h.2 ha b

/-- Acceptance of one more edit, in terms of the edits before it. -/
theorem accepts_absorbAll_iff :
    (({} : EditCollector).absorbAll es).Accepts e
      ↔ e.Nodup ∧ (∀ e' ∈ es, e'.NoClash e)
        ∧ ∀ n, e.nextFileNumber = some n → (es.filterMap (·.nextFileNumber)).getLastD 0 ≤ n := by
  have hadd : ∀ n, (((({} : EditCollector).absorbAll es).cf
        e.columnFamilyId).addedFiles.find n = none) ↔ ∀ e' ∈ es, ¬ e'.Adds e.columnFamilyId n := by
    intro n
    rw [← contains_eq_false_iff, ← Bool.not_eq_true, added_absorbAll]
    simp [cf]
  have hdel : ∀ n, (((({} : EditCollector).absorbAll es).cf
        e.columnFamilyId).deletedFiles.find n = none)
      ↔ ∀ e' ∈ es, ¬ e'.Deletes e.columnFamilyId n := by
    intro n
    rw [← contains_eq_false_iff, ← Bool.not_eq_true, deleted_absorbAll]
    simp [cf]
  constructor
  · rintro ⟨⟨h1, h2, h3, h4⟩, h5⟩
    rw [next_absorbAll] at h5
    refine ⟨⟨h1, h3⟩, fun e' he' hcf => ⟨fun n hn hn' => ?_, fun n hn hn' => ?_⟩, h5⟩
    · obtain ⟨m, hm, rfl⟩ := mem_map.1 hn
      exact (hadd _).1 (h2 m hm) e' he' ⟨hcf, hn'⟩
    · obtain ⟨d, hd, rfl⟩ := mem_map.1 hn
      exact (hdel _).1 (h4 d hd) e' he' ⟨hcf, hn'⟩
  · rintro ⟨⟨h1, h3⟩, h, h5⟩
    refine ⟨⟨h1, fun m hm => ?_, h3, fun d hd => ?_⟩, ?_⟩
    · rw [hadd]
      intro e' he' ha
      exact (h e' he' ha.1).1 _ (mem_map_of_mem hm) ha.2
    · rw [hdel]
      intro e' he' ha
      exact (h e' he' ha.1).2 _ (mem_map_of_mem hd) ha.2
    · rw [next_absorbAll]
      exact h5

/-- A collector accepts a list of edits exactly when no two of them
clash, none names a number twice, and the next file numbers do not
fall. -/
theorem acceptsAll_iff :
    ({} : EditCollector).AcceptsAll es
      ↔ (∀ e ∈ es, e.Nodup) ∧ es.Pairwise VersionEdit.NoClash
        ∧ (es.filterMap (·.nextFileNumber)).Pairwise (· ≤ ·) := by
  induction es using reverseRecOn with
  | nil => simp [AcceptsAll]
  | append_singleton es e ih =>
    rw [acceptsAll_concat, ih, accepts_absorbAll_iff, pairwise_append,
      filterMap_append, pairwise_append]
    constructor
    · rintro ⟨⟨h1, h2, h3⟩, h4, h5, h6⟩
      refine ⟨?_, ⟨h2, pairwise_singleton .., ?_⟩, h3, ?_, ?_⟩
      · intro x hx
        rcases mem_append.1 hx with hx | hx
        · exact h1 x hx
        · rw [mem_singleton.1 hx]
          exact h4
      · intro x hx y hy
        rw [mem_singleton.1 hy]
        exact h5 x hx
      · cases hn : e.nextFileNumber <;> simp [hn]
      · intro a ha b hb
        cases hn : e.nextFileNumber with
        | none => simp [hn] at hb
        | some n =>
          have hbn : b = n := by simpa [hn] using hb
          rw [hbn]
          exact UInt64.le_trans (le_getLastD h3 ha 0) (h6 n hn)
    · rintro ⟨h1, ⟨h2, -, h3⟩, h4, -, h5⟩
      refine ⟨⟨fun x hx => h1 x (mem_append_left _ hx), h2, h4⟩,
        h1 e (by simp), fun x hx => h3 x hx e (by simp), ?_⟩
      intro n hn
      have hmem : n ∈ filterMap (·.nextFileNumber) [e] := by
        simp [hn]
      cases hl : (es.filterMap (·.nextFileNumber)).getLast? with
      | none =>
        rw [getLast?_eq_none_iff] at hl
        rw [hl]
        exact UInt64.zero_le
      | some a =>
        rw [getLastD_eq_getLast?, hl]
        exact h5 a (mem_of_getLast? hl) n hmem

end EditCollector

-- ==== the read loop

/-- Record by record, `es` is what `rs` decodes to. -/
def Decodes (C : Coding) (rs : List Bytes) (es : List VersionEdit) : Prop :=
  List.Forall₂ (fun r e => VersionEdit.decodeInto C r = .ok e) rs es

section

variable {es : List VersionEdit} {fs : BlobFileSet} {rs : List Bytes}
  {c : EditCollector} {i : UInt32} {n : UInt64}

variable {C : Coding}

/-- Records decode to one list of edits. -/
theorem Decodes.unique {es es' : List VersionEdit}
    (h : Decodes C rs es) (h' : Decodes C rs es') : es = es' := by
  induction h generalizing es' with
  | nil =>
    cases h'
    rfl
  | cons hr _ ih =>
    cases h' with
    | cons hr' h' =>
      rw [hr] at hr'
      rw [Except.ok.inj hr', ih h']

/-- Logged records decode to what the manifest keeps of the edits. -/
theorem decodes_encodeTo (es : List VersionEdit) :
    Decodes C (es.map (encodeTo C)) (es.map (·.persisted)) := by
  unfold Decodes
  rw [forall₂_map_left_iff, forall₂_map_right_iff, forall₂_same]
  exact fun e _ => decodeInto_encodeTo e

/-- The loop returns early only with a failure. -/
theorem collect_error {s e : Status} {reader : LogReader}
    (h : reader.collect C c s = .error e) : e.isOk = false := by
  induction reader generalizing c s with
  | nil => cases h
  | cons call reader ih =>
    rw [collect] at h
    cases hr : call.record with
    | none =>
      rw [hr] at h
      cases h
    | some record =>
      simp only [hr] at h
      split at h
      case isTrue => cases h
      case isFalse =>
        cases hd : decodeInto C record with
        | error e' =>
          rw [hd] at h
          cases h
          exact decodeInto_error hd
        | ok edit =>
          rw [hd] at h
          dsimp only at h
          split at h
          case isTrue hadd =>
            cases h
            simpa using hadd
          case isFalse => exact ih h

/-- One turn of the loop on a record without a report. -/
theorem collect_cons (c : EditCollector) (r : Bytes) (reader : LogReader) :
    collect C c .ok ({ record := some r } :: reader) = match decodeInto C r with
        | .error s => .error s
        | .ok e =>
          if (c.addEdit e).1.isOk then
            reader.collect C (c.addEdit e).2 .ok
          else .error (c.addEdit e).1 := by
  rw [collect]
  simp only [report, foldl_nil, Status.isOk_ok, Bool.not_true, Bool.false_eq_true, if_false]
  cases decodeInto C r with
  | error s => rfl
  | ok e =>
    dsimp only
    by_cases h : (c.addEdit e).1.isOk = true
    · rw [if_pos h, if_neg (by simp [h]), Status.eq_ok_of_isOk h]
    · rw [if_neg h, if_pos (by simp [h])]

/-- The loop over edits that are all accepted. -/
theorem collect_of_acceptsAll
    (hs : c.isSealed = false) (hok : c.status = .ok) (hd : Decodes C rs es) (h : c.AcceptsAll es) :
    (intact rs).collect C c .ok = .ok (.ok, c.absorbAll es) := by
  induction hd generalizing c with
  | nil => rfl
  | cons hr hd ih =>
    obtain ⟨h1, h2⟩ := h
    rw [intact, map_cons, collect_cons, hr]
    dsimp only
    rw [addEdit_of_accepts hs hok h1, Status.isOk_ok, if_pos rfl]
    exact ih hs hok h2

/-- The loop fails at the first record that does not decode, and at the
first edit that is not accepted. -/
theorem acceptsAll_of_collect (hs : c.isSealed = false) (hok : c.status = .ok)
    {r : Status × EditCollector} (h : (intact rs).collect C c .ok = .ok r) :
    ∃ es, Decodes C rs es ∧ c.AcceptsAll es := by
  induction rs generalizing c with
  | nil => exact ⟨[], .nil, trivial⟩
  | cons record rs ih =>
    rw [intact, map_cons, collect_cons] at h
    cases hd : decodeInto C record with
    | error s =>
      rw [hd] at h
      cases h
    | ok e =>
      rw [hd] at h
      dsimp only at h
      split at h
      case isFalse => cases h
      case isTrue hacc =>
        have ha := accepts_of_addEdit hs hok hacc
        rw [addEdit_of_accepts hs hok ha] at h
        obtain ⟨es, hes, hes'⟩ := ih (c := c.absorb e) hs hok h
        exact ⟨e :: es, .cons hd hes, ha, hes'⟩

-- ==== the middle of Recover

/-- No storage holds a file: the state `AddColumnFamilies` leaves. -/
def BlobFileSet.Fresh (fs : BlobFileSet) : Prop :=
  ∀ i st, fs.columnFamilies.lookup i = some st → ∀ n, st.findFile n = none

/-- The collector recovery ends its loop with. -/
def VersionEdit.collected (es : List VersionEdit) : EditCollector :=
  ({} : EditCollector).absorbAll es

@[simp] theorem collected_status (es : List VersionEdit) :
    (collected es).status = .ok := absorbAll_status ..

theorem collected_added :
    ((collected es).cf i).addedFiles.contains n = true ↔ ∃ e ∈ es, e.Adds i n := by
  unfold collected
  rw [added_absorbAll]
  simp [cf]

theorem collected_deleted :
    ((collected es).cf i).deletedFiles.contains n = true ↔ ∃ e ∈ es, e.Deletes i n := by
  unfold collected
  rw [deleted_absorbAll]
  simp [cf]

theorem collected_find (es : List VersionEdit) (i : UInt32) (n : UInt64) :
    ((collected es).cf i).addedFiles.find n = es.findSome? (·.added i n) := find_absorbAll ..

theorem collected_updated (es : List VersionEdit) (i : UInt32) (n : UInt64) :
    ((collected es).cf i).updatedDiscardableSize.lookup n = (es.filterMap (·.amount i n)).head? :=
  updated_absorbAll ..

theorem collected_next (es : List VersionEdit) :
    (collected es).nextFileNumber = (es.filterMap (·.nextFileNumber)).getLastD 0 :=
  next_absorbAll ..

theorem collected_hasNext :
    (collected es).hasNextFileNumber = true ↔ ∃ e ∈ es, e.nextFileNumber.isSome = true := by
  unfold collected
  rw [hasNext_absorbAll]
  simp

/-- What the edits of a manifest must be for recovery to take them. -/
structure Recoverable (fs : BlobFileSet) (es : List VersionEdit) : Prop where
  nodup : ∀ e ∈ es, e.Nodup
  noClash : es.Pairwise VersionEdit.NoClash
  next_mono : (es.filterMap (·.nextFileNumber)).Pairwise (· ≤ ·)
  /-- a deleted file was added: the storages start empty -/
  deleted_added : ∀ i, (fs.columnFamilies.lookup i).isSome = true →
    ∀ n, (∃ e ∈ es, e.Deletes i n) → ∃ e ∈ es, e.Adds i n
  has_next : ∃ e ∈ es, e.nextFileNumber.isSome = true

/-- On empty storages a batch fits exactly when it deletes only what it
adds. -/
theorem sealable_fresh_iff (hf : fs.Fresh) (es : List VersionEdit) :
    (collected es).Sealable fs.columnFamilies
      ↔ ∀ i, (fs.columnFamilies.lookup i).isSome = true →
        ∀ n, (∃ e ∈ es, e.Deletes i n) → ∃ e ∈ es, e.Adds i n := by
  constructor
  · intro h i hi n hd
    obtain ⟨st, hst⟩ := Option.isSome_iff_exists.1 hi
    by_contra hna
    have hadd : ((collected es).cf i).addedFiles.contains n = false := by
      rw [← Bool.not_eq_true, collected_added]
      exact hna
    obtain ⟨b, hb, -⟩ := (h i st hst).deleted_live n (collected_deleted.2 hd) hadd
    rw [hf i st hst n] at hb
    cases hb
  · intro h i st hst
    refine ⟨fun n _ => hf i st hst n, fun n hd hna => ?_⟩
    have ha := h i (by rw [hst]; rfl) n (collected_deleted.1 hd)
    rw [← collected_added, hna] at ha
    cases ha

/-- What the middle of `Recover` leaves when it ends well. -/
structure Recovered (fs fs' : BlobFileSet) (es : List VersionEdit) : Prop where
  next : fs'.nextFileNumber = (es.filterMap (·.nextFileNumber)).getLastD 0
  files : ∀ i st', fs'.columnFamilies.lookup i = some st' → ∀ n,
    st'.findFile n = (((VersionEdit.collected es).cf i).adds n).map
      (((VersionEdit.collected es).cf i).update n)
  opened : ∀ i, (fs'.columnFamilies.lookup i).isSome = (fs.columnFamilies.lookup i).isSome
  applied : ∀ i st', fs'.columnFamilies.lookup i = some st' →
    ∃ st, fs.columnFamilies.lookup i = some st
      ∧ (st' = st ∨ st' = (((VersionEdit.collected es).cf i).apply st).2)

/-- The middle of `Recover` on accepted edits that fit: only the next
file number can still be missing. -/
private theorem recoverEdits_collected (hf : fs.Fresh) (hd : Decodes C rs es)
    (hacc : ({} : EditCollector).AcceptsAll es) (hfit : (collected es).Sealable fs.columnFamilies) :
    (fs.recoverEdits C (intact rs)).1.isOk = (collected es).hasNextFileNumber
      ∧ ((collected es).hasNextFileNumber = true →
        Recovered fs (fs.recoverEdits C (intact rs)).2 es) := by
  have hcol : (intact rs).collect C {} .ok = .ok (.ok, collected es) :=
    collect_of_acceptsAll rfl rfl hd hacc
  obtain ⟨k, hk, hseal⟩ : ∃ k : EditCollector,
      k = { collected es with isSealed := true }
        ∧ (collected es).seal fs.columnFamilies = (.ok, k) :=
    ⟨_, rfl, seal_of_sealable (collected_status es) hfit⟩
  have hkcf : ∀ i, k.cf i = (collected es).cf i := by
    intro i
    rw [hk]
    rfl
  have hkok : k.status = .ok := by rw [hk, collected_status]
  have hkfit : k.Sealable fs.columnFamilies := fun i st hst =>
    hkcf i ▸ hfit i st hst
  obtain ⟨happ, happ', hlook⟩ := apply_of_sealable hkok (by rw [hk]) hkfit
  unfold BlobFileSet.recoverEdits
  simp only [hcol, hseal, happ, happ', Status.isOk_ok, Bool.not_true, Bool.false_eq_true, if_false]
  cases hn : (collected es).hasNextFileNumber with
  | false =>
    have hnext : k.getNextFileNumber
        = .error (.corruption "No next file number in manifest file") := by
      rw [hk]
      simp [getNextFileNumber, hn]
    rw [hnext]
    exact ⟨rfl, fun h => by cases h⟩
  | true =>
    have hnext : k.getNextFileNumber = .ok (collected es).nextFileNumber := by
      rw [hk]
      simp [getNextFileNumber, hn]
    rw [hnext]
    refine ⟨rfl, fun _ => ⟨collected_next es, fun i st' hst' n => ?_,
      fun i => ?_, fun i st' hst' => ?_⟩⟩
    · rw [hlook i, hkcf i] at hst'
      split at hst'
      case isTrue hc =>
        obtain ⟨st, hst, rfl⟩ := Option.map_eq_some_iff.1 hst'
        rw [(apply_of_sealable (hfit i st hst)).2 n, hf i st hst n]
        simp
      case isFalse hc =>
        -- a column family the manifest does not mention stays empty
        have hnone : (collected es).columnFamilies.lookup i = none := by
          rw [hk, contains_eq_isSome] at hc
          simpa using hc
        rw [hf i st' hst' n]
        simp [cf, hnone, adds]
    · rw [hlook i]
      split <;> simp
    · rw [hlook i, hkcf i] at hst'
      split at hst'
      case isTrue =>
        obtain ⟨st, hst, rfl⟩ := Option.map_eq_some_iff.1 hst'
        exact ⟨st, hst, .inr rfl⟩
      case isFalse => exact ⟨st', hst', .inl rfl⟩

/-- The middle of `Recover` on a manifest it can take. -/
theorem recoverEdits_of_recoverable (hf : fs.Fresh) (hd : Decodes C rs es) (h : Recoverable fs es) :
    (fs.recoverEdits C (intact rs)).1 = .ok
      ∧ Recovered fs (fs.recoverEdits C (intact rs)).2 es := by
  have hacc := (acceptsAll_iff es).2 ⟨h.nodup, h.noClash, h.next_mono⟩
  obtain ⟨h1, h2⟩ := recoverEdits_collected hf hd hacc
    ((sealable_fresh_iff hf es).2 h.deleted_added)
  have hnext := collected_hasNext.2 h.has_next
  exact ⟨Status.eq_ok_of_isOk (h1.trans hnext), h2 hnext⟩

/-- It takes no other. -/
theorem recoverable_of_recoverEdits (hf : fs.Fresh)
    (h : (fs.recoverEdits C (intact rs)).1.isOk = true) :
    ∃ es, Decodes C rs es ∧ Recoverable fs es := by
  have h' := h
  unfold BlobFileSet.recoverEdits at h'
  cases hcol : (intact rs).collect C {} .ok with
  | error s =>
    rw [hcol] at h'
    exact absurd h' (by simp [collect_error hcol])
  | ok r =>
    obtain ⟨es, hd, hacc⟩ := acceptsAll_of_collect rfl rfl hcol
    have hr : (.ok, collected es) = r := by
      rw [collect_of_acceptsAll rfl rfl hd hacc] at hcol
      exact Except.ok.inj hcol
    rw [hcol, ← hr] at h'
    dsimp only at h'
    have hseal : ((collected es).seal fs.columnFamilies).1.isOk = true := by
      by_contra hn
      rw [if_pos (by simp [hn])] at h'
      exact hn h'
    have hfit := sealable_of_seal (collected_status es) hseal
    obtain ⟨hnd, hnc, hmono⟩ := (acceptsAll_iff es).1 hacc
    refine ⟨es, hd, hnd, hnc, hmono, (sealable_fresh_iff hf es).1 hfit, ?_⟩
    rw [← collected_hasNext, ← (recoverEdits_collected hf hd hacc hfit).1]
    exact h

-- ==== edits as the manifest has them

/-- The collector of a replay of the edits `es`, logged and read back. -/
def VersionEdit.replayed (es : List VersionEdit) : EditCollector :=
  VersionEdit.collected (es.map (·.persisted))

theorem replayed_deleted :
    ((replayed es).cf i).deletedFiles.contains n = true ↔ ∃ e ∈ es, e.Deletes i n := by
  unfold replayed
  rw [collected_deleted]
  simp

theorem replayed_find (es : List VersionEdit) (i : UInt32) (n : UInt64) :
    ((replayed es).cf i).addedFiles.find n
      = (es.findSome? (·.added i n)).map BlobFileMeta.persistent := by
  unfold replayed
  rw [collected_find]
  induction es with
  | nil => rfl
  | cons e es ih =>
    rw [map_cons, findSome?_cons, findSome?_cons, persisted_find]
    cases e.added i n with
    | none => exact ih
    | some m => rfl

theorem replayed_updated (es : List VersionEdit) (i : UInt32) (n : UInt64) :
    ((replayed es).cf i).updatedDiscardableSize.lookup n = (es.filterMap (·.amount i n)).head? := by
  unfold replayed
  rw [collected_updated, filterMap_map]
  rfl

theorem filterMap_next_persisted (es : List VersionEdit) :
    (es.map (·.persisted)).filterMap (·.nextFileNumber) = es.filterMap (·.nextFileNumber) := by
  rw [filterMap_map]
  rfl

/-- What recovery asks of the edits it reads, it asks of the edits as
they were logged. -/
theorem recoverable_persisted_iff : Recoverable fs (es.map (·.persisted)) ↔ Recoverable fs es := by
  have hnc : (es.map (·.persisted)).Pairwise VersionEdit.NoClash
      ↔ es.Pairwise VersionEdit.NoClash := by
    rw [pairwise_map]
    simp
  constructor
  · rintro ⟨h1, h2, h3, h4, h5⟩
    rw [filterMap_next_persisted] at h3
    exact ⟨by simpa using h1, hnc.1 h2, h3, by simpa using h4, by simpa using h5⟩
  · rintro ⟨h1, h2, h3, h4, h5⟩
    rw [← filterMap_next_persisted] at h3
    exact ⟨by simpa using h1, hnc.2 h2, h3, by simpa using h4, by simpa using h5⟩

/-- Recovery from a manifest that holds `es`. -/
theorem recoverEdits_logged (hf : fs.Fresh) (h : Recoverable fs es) :
    (fs.recoverEdits C (intact (es.map (encodeTo C)))).1 = .ok
      ∧ Recovered fs (fs.recoverEdits C (intact (es.map (encodeTo C)))).2 (es.map (·.persisted)) :=
  recoverEdits_of_recoverable hf (decodes_encodeTo es) (recoverable_persisted_iff.2 h)

/-- A manifest that holds `es` is recovered exactly when they are
recoverable. -/
theorem recoverEdits_logged_iff (hf : fs.Fresh) :
    (fs.recoverEdits C (intact (es.map (encodeTo C)))).1 = .ok ↔ Recoverable fs es := by
  refine ⟨fun h => ?_, fun h => (recoverEdits_logged hf h).1⟩
  obtain ⟨es', hd, hrec⟩ := recoverable_of_recoverEdits hf (Status.isOk_iff.2 h)
  rw [← (decodes_encodeTo es).unique hd] at hrec
  exact recoverable_persisted_iff.1 hrec

end

end DiffKV
