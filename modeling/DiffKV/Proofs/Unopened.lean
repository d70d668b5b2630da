/-
What opening does to files the manifest records.

`Seal` and `Apply` skip the column families that are not opened, and the
sweep of the directory at the end of `Recover` keeps the numbers of the
opened ones only. So a file is kept by its number: if an opened column
family has it, or if it is the number of the new manifest. A manifest
that is not read to its end is covered too: what stands behind the
corruption is recorded and not read.
-/
import DiffKV.Proofs.Reopen

namespace DiffKV

open Lib List BlobFileSet VersionEdit Table

variable {rs : List Bytes} {lost : List VersionEdit} {fs : BlobFileSet}
  {es : List VersionEdit} {n : UInt64} {io : RecoverIO}

variable {C : Coding}

-- ==== the manifest

/-- The edits record file `n` of column family `i` as added and not as
deleted. -/
def RecordedLive (es : List VersionEdit) (i : UInt32) (n : UInt64) : Prop :=
  (∃ e ∈ es, e.Adds i n) ∧ ¬ ∃ e ∈ es, e.Deletes i n

/-- The edits of the records that decode. -/
def decodedEdits (C : Coding) (rs : List Bytes) : List VersionEdit :=
  rs.filterMap fun r => (VersionEdit.decodeInto C r).toOption

theorem Decodes.decodedEdits_eq (h : Decodes C rs es) : decodedEdits C rs = es := by
  induction h with
  | nil => rfl
  | cons hr _ ih =>
    unfold decodedEdits at ih ⊢
    rw [filterMap_cons, hr, ih]
    rfl

/-- The reader returns the records `rs` of a manifest. It returns all of
them, or it reports a corruption behind them; `lost` are the edits
recorded after that. -/
def LogReader.Reads (reader : LogReader) (rs : List Bytes) (lost : List VersionEdit) : Prop :=
  (reader = LogReader.intact rs ∧ lost = [])
    ∨ ∃ bad post, reader = LogReader.intact rs ++ bad :: post ∧ ∃ s ∈ bad.reported, s.isOk = false

theorem LogReader.Reads.recoverEdits {reader : LogReader}
    (h : reader.Reads rs lost) (fs : BlobFileSet) :
    fs.recoverEdits C reader = fs.recoverEdits C (LogReader.intact rs) := by
  rcases h with ⟨rfl, -⟩ | ⟨bad, post, rfl, hbad⟩
  · rfl
  · exact recoverEdits_corrupt fs rs hbad post

-- ==== the sweep

theorem mem_aliveFiles : n ∈ fs.aliveFiles ↔ ∃ i, fs.file i n ≠ none := by
  constructor
  · intro h
    obtain ⟨⟨i, st⟩, hmem, hn⟩ := mem_flatMap.1 h
    obtain ⟨m, hm, rfl⟩ := mem_map.1 hn
    refine ⟨i, ?_⟩
    unfold file
    rw [mem_entries_iff.1 hmem]
    show st.files.find m.fileNumber ≠ none
    rw [find_of_mem hm]
    simp
  · rintro ⟨i, hi⟩
    by_contra hn
    exact hi (file_eq_none_of_not_alive hn)

/-- The middle of `Recover` fills the opened column families with what
the edits record. -/
theorem Recovered.file_ne_none {fs₀ fs fs' : BlobFileSet}
    (h : Recovered fs₀ fs es) (h₀ : fs₀.Constructed)
    (hlookup : ∀ i, fs'.columnFamilies.lookup i
      = (fs.columnFamilies.lookup i).map atStart) {i : UInt32} :
    fs'.file i n ≠ none ↔ (fs₀.columnFamilies.lookup i).isSome = true ∧ RecordedLive es i n := by
  unfold file
  rw [hlookup, ← h.opened]
  cases hst : fs.columnFamilies.lookup i with
  | none => simp
  | some st =>
    obtain ⟨st₀, -, hfilled⟩ := h.filled h₀ hst
    show (atStart st).findFile n ≠ none ↔ _
    rw [findFile_atStart hfilled, h.files i st hst n]
    unfold RecordedLive
    rw [← collected_deleted, ← collected_added, Table.contains_iff]
    unfold CFEditCollector.adds
    split
    case isTrue hdeleted => simp [hdeleted]
    case isFalse hdeleted => simp [hdeleted, Option.ne_none_iff_exists']

-- ==== opening

/-- The manifest is accepted: the file `CURRENT` names it, its readable
records pass the checks of the collector against the opened column
families, and a new manifest can be written. -/
structure RecoverIO.Accepts (C : Coding) (io : RecoverIO) (fs : BlobFileSet)
    (rs : List Bytes) : Prop where
  current : ∃ name, io.current = .ok name ∧ name.getLast? = some 10
  sequential : io.newSequentialFile.isOk = true
  recoverable : ∃ es, Decodes C rs es ∧ Recoverable fs es
  written : io.openManifest.Succeeds (fs.columnFamilies.entries.length + 1)

/-- A manifest that is not accepted costs no file. -/
theorem recover_of_not_accepts (hf : fs.Fresh)
    (hreads : io.reader.Reads rs lost) (h : ¬ io.Accepts C fs rs) : (fs.recover C io).2.2 = [] := by
  by_cases hstart : (∃ name, io.current = .ok name
      ∧ name.getLast? = some 10) ∧ io.newSequentialFile.isOk = true
  case neg =>
    unfold recover
    cases hcur : io.current with
    | error s => rfl
    | ok name =>
      dsimp only
      split
      case isTrue => rfl
      case isFalse hnl =>
        rw [if_pos]
        by_contra hseq
        exact hstart ⟨⟨name, hcur, not_not.1 hnl⟩, by simpa using hseq⟩
  case pos =>
    obtain ⟨⟨name, hcur, hnl⟩, hseq⟩ := hstart
    obtain ⟨hok, hdeleted⟩ := recover_isOk (C := C) fs hcur hnl hseq
    refine hdeleted (Bool.eq_false_iff.2 fun hopened => h ?_)
    rw [hok, hreads.recoverEdits] at hopened
    obtain ⟨hrec, hwritten⟩ := hopened
    obtain ⟨es, hd, hrecoverable⟩ := recoverable_of_recoverEdits hf hrec
    have hlength := length_entries_eq _ fs.columnFamilies
      (recoverEdits_of_recoverable hf hd hrecoverable).2.opened
    rw [hlength] at hwritten
    exact ⟨⟨name, hcur, hnl⟩, hseq, ⟨es, hd, hrecoverable⟩, hwritten⟩

/-- An accepted manifest: the blob files of the directory that are
swept. -/
theorem recover_of_accepts (hf : fs.Fresh) (h₀ : fs.Constructed)
    (hreads : io.reader.Reads rs lost) (h : io.Accepts C fs rs) (n : UInt64) :
    (n, .kBlobFile) ∈ (fs.recover C io).2.2
      ↔ (n, .kBlobFile) ∈ io.children
        ∧ n ≠ ((decodedEdits C rs).filterMap (·.nextFileNumber)).getLastD 0
        ∧ ¬ ∃ j, (fs.columnFamilies.lookup j).isSome = true
          ∧ RecordedLive (decodedEdits C rs) j n := by
  obtain ⟨⟨name, hcur, hnl⟩, hseq, ⟨es, hd, hrecoverable⟩, hwritten⟩ := h
  obtain ⟨hok, hrec⟩ := recoverEdits_of_recoverable hf hd hrecoverable
  have hlength := length_entries_eq _ fs.columnFamilies hrec.opened
  rw [hd.decodedEdits_eq]
  unfold recover
  rw [hcur]
  dsimp only
  rw [if_neg (by simp [hnl]), if_neg (by simp [hseq]), hreads.recoverEdits, hok, if_neg (by decide)]
  generalize (fs.recoverEdits C (LogReader.intact rs)).2 = fs₁ at *
  have hopen : (fs₁.started.openManifest C io.openManifest fs₁.nextFileNumber).1.isOk = true := by
    have hstarted : fs₁.started.columnFamilies.entries.length
        = fs₁.columnFamilies.entries.length := length_map ..
    rw [openManifest_isOk, hstarted, hlength]
    exact hwritten
  rw [recoverFinish_of_isOk hopen, ← hrec.next]
  simp only [purgedAtStart, mem_filter, Bool.and_eq_true,
    Bool.not_eq_true', contains_eq_mem, decide_eq_false_iff_not,
    mem_cons, not_or, decide_true, Bool.true_or, and_true,
    mem_aliveFiles, hrec.file_ne_none h₀ (lookup_swept fs₁)]

/-- **What opening keeps.** Opening a manifest either fails and deletes
nothing, or keeps every blob file the manifest records as live, if and
only if every such file that is in the directory has the number of the
new manifest or is recorded as live, in the records that are read, for
some opened column family; or the manifest is not accepted. -/
theorem open_keeps_recorded_iff (dbOptions : TitanDBOptions)
    (columnFamilies : List (UInt32 × TitanCFOptions)) {io : RecoverIO}
    {rs : List Bytes} {lost : List VersionEdit}
    (hreads : io.reader.Reads rs lost) :
    let fs := ({ dbOptions } : BlobFileSet).addColumnFamilies columnFamilies
    let opened := BlobFileSet.open C dbOptions columnFamilies (.ok io)
    let es := decodedEdits C rs
    ((opened.1.isOk = false ∧ opened.2.2 = [])
        ∨ ∀ i n, RecordedLive (es ++ lost) i n → (n, .kBlobFile) ∉ opened.2.2)
      ↔ (io.Accepts C fs rs → ∀ i n, RecordedLive (es ++ lost) i n →
        (n, .kBlobFile) ∈ io.children →
          n = (es.filterMap (·.nextFileNumber)).getLastD 0
            ∨ ∃ j, (fs.columnFamilies.lookup j).isSome = true ∧ RecordedLive es j n) := by
  intro fs opened es
  have hf : fs.Fresh := fresh_addColumnFamilies dbOptions columnFamilies
  have h₀ : fs.Constructed := by
    intro i st hst
    rw [lookup_addColumnFamilies] at hst
    obtain ⟨cf, -, rfl⟩ := Option.map_eq_some_iff.1 hst
    exact ⟨fun _ => rfl, rfl⟩
  by_cases haccepts : io.Accepts C fs rs
  case neg =>
    have hnone : opened.2.2 = [] := recover_of_not_accepts hf hreads haccepts
    refine iff_of_true (.inr fun i n _ hmem => ?_) fun h => absurd h haccepts
    rw [hnone] at hmem
    cases hmem
  case pos =>
    have hswept : ∀ n, (n, .kBlobFile) ∈ opened.2.2 ↔ _ := recover_of_accepts hf h₀ hreads haccepts
    constructor
    · intro hkeeps _ i n hrecorded hchild
      by_contra hnot
      rw [not_or] at hnot
      have hmem := (hswept n).2 ⟨hchild, hnot⟩
      rcases hkeeps with ⟨-, hnone⟩ | hkeeps
      · rw [hnone] at hmem
        cases hmem
      · exact hkeeps i n hrecorded hmem
    · intro hcond
      refine .inr fun i n hrecorded hmem => ?_
      obtain ⟨hchild, hnext, hnone⟩ := (hswept n).1 hmem
      rcases hcond haccepts i n hrecorded hchild with heq | hsome
      · exact hnext heq
      · exact hnone hsome

/-- A manifest that records file 7 for column family 1. -/
def twoFamilies : List VersionEdit :=
  [({} : VersionEdit).setNextFileNumber 8,
    (({} : VersionEdit).setColumnFamilyID 1).addBlobFile { fileNumber := 7, fileSize := 50 }]

/-- The manifest is read back as written, and the file is in the
directory. -/
def twoFamiliesIO : RecoverIO where
  current := .ok [77, 10]
  reader := LogReader.intact (twoFamilies.map (VersionEdit.encodeTo base128))
  children := [(7, .kBlobFile)]

theorem recordedLive_twoFamilies :
    RecordedLive (decodedEdits base128 (twoFamilies.map (encodeTo base128)) ++ []) 1 7 := by
  rw [append_nil, (decodes_encodeTo twoFamilies).decodedEdits_eq]
  refine ⟨⟨_, mem_cons_of_mem _ (mem_singleton_self _), rfl, mem_singleton_self _⟩, ?_⟩
  rintro ⟨e, he, -, hdeleted⟩
  simp only [twoFamilies, map_cons, map_nil, mem_cons, not_mem_nil, or_false] at he
  rcases he with rfl | rfl
  · cases hdeleted
  · cases hdeleted

/-- With column family 1 left out, opening succeeds and deletes the
file. -/
theorem open_without_family :
    let opened := BlobFileSet.open base128 {} [(0, {})] (.ok twoFamiliesIO)
    twoFamiliesIO.reader.Reads (twoFamilies.map (VersionEdit.encodeTo base128)) []
      ∧ RecordedLive (decodedEdits base128
        (twoFamilies.map (VersionEdit.encodeTo base128)) ++ []) 1 7
      ∧ opened.1 = .ok ∧ opened.2.2 = [(7, .kBlobFile)] :=
  ⟨.inl ⟨rfl, rfl⟩, recordedLive_twoFamilies, by decide +kernel, by decide +kernel⟩

/-- With both opened it keeps it. -/
theorem open_both_families :
    let opened := BlobFileSet.open base128 {} [(0, {}), (1, {})]
      (.ok twoFamiliesIO)
    opened.1 = .ok ∧ (7, .kBlobFile) ∉ opened.2.2 := by
  intro opened
  have hok : opened.1 = .ok := by decide +kernel
  have hreads : twoFamiliesIO.reader.Reads
      (twoFamilies.map (encodeTo base128)) [] := .inl ⟨rfl, rfl⟩
  have hkept := (open_keeps_recorded_iff (C := base128) {} [(0, {}), (1, {})]
    hreads).2 fun _ i n _ hchild => by
      obtain ⟨rfl, -⟩ := Prod.ext_iff.1 (mem_singleton.1 hchild)
      have hrecorded := recordedLive_twoFamilies
      exact .inr ⟨1, by decide +kernel, hrecorded⟩
  refine ⟨hok, ?_⟩
  rcases hkept with ⟨hfail, -⟩ | hkeeps
  · have hfail : opened.1.isOk = false := hfail
    cases hfail
  · exact hkeeps 1 7 recordedLive_twoFamilies

end DiffKV
