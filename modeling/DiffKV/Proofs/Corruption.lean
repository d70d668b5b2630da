/-
Opening a manifest whose reader reports a corruption.

The report arrives in the status variable of the loop, which stops the
loop; the next statement assigns the status of `Seal` to the same
variable. So from there on `Recover` works with the records before the
corruption as if they were the whole manifest (`recoverEdits_corrupt`),
and fails only where that shorter manifest would have failed too.
-/
import DiffKV.Proofs.Recovery

namespace DiffKV

open Lib List BlobFileSet LogReader

variable {C : Coding}

-- ==== the status lost

/-- A reported corruption reaches the status variable. -/
theorem report_isOk {reported : List Status} (h : ∃ s ∈ reported, s.isOk = false) :
    (report .ok reported).isOk = false := by
  have hstuck : ∀ (l : List Status) (s : Status), s.isOk = false → (report s l).isOk = false := by
    intro l
    induction l with
    | nil => exact fun s hs => hs
    | cons e l ih =>
      intro s hs
      show (report (if s.isOk then e else s) l).isOk = false
      rw [if_neg (by simp [hs])]
      exact ih s hs
  induction reported with
  | nil =>
    obtain ⟨s, hs, -⟩ := h
    cases hs
  | cons e l ih =>
    cases he : e.isOk with
    | false => exact hstuck l e he
    | true =>
      rw [Status.eq_ok_of_isOk he]
      obtain ⟨s, hs, hbad⟩ := h
      rcases mem_cons.1 hs with rfl | hs
      · rw [he] at hbad
        cases hbad
      · exact ih ⟨s, hs, hbad⟩

/-- At a reported corruption the loop stops with the edits it has. -/
theorem collect_corrupt (c : EditCollector) (rs : List Bytes) {bad : ReadCall}
    (hbad : ∃ s ∈ bad.reported, s.isOk = false) (post : LogReader) :
    ((intact rs ++ bad :: post).collect C c .ok).map Prod.snd
      = ((intact rs).collect C c .ok).map Prod.snd := by
  induction rs generalizing c with
  | nil =>
    show (collect C c .ok (bad :: post)).map Prod.snd = .ok c
    rw [collect]
    cases hr : bad.record with
    | none => rfl
    | some r =>
      dsimp only
      rw [if_pos (by simp [report_isOk hbad])]
      rfl
  | cons r rs ih =>
    rw [intact, map_cons, cons_append, collect_cons, collect_cons]
    cases VersionEdit.decodeInto C r with
    | error s => rfl
    | ok e =>
      dsimp only
      split
      · exact ih _
      · rfl

/-- `Recover` continues with the records before the corruption. -/
theorem recoverEdits_corrupt (fs : BlobFileSet) (rs : List Bytes)
    {bad : ReadCall} (hbad : ∃ s ∈ bad.reported, s.isOk = false) (post : LogReader) :
    fs.recoverEdits C (intact rs ++ bad :: post) = fs.recoverEdits C (intact rs) := by
  have h := collect_corrupt (C := C) {} rs hbad post
  unfold recoverEdits
  cases hl : (intact rs ++ bad :: post).collect C {} .ok with
  | error s =>
    cases hr : (intact rs).collect C {} .ok with
    | error s' =>
      rw [hl, hr] at h
      cases h
      rfl
    | ok r =>
      rw [hl, hr] at h
      cases h
  | ok l =>
    cases hr : (intact rs).collect C {} .ok with
    | error s' =>
      rw [hl, hr] at h
      cases h
    | ok r =>
      rw [hl, hr] at h
      have heq : l.2 = r.2 := Except.ok.inj h
      dsimp only
      rw [heq]

-- ==== OpenManifest

/-- Every step of writing a manifest of `count` records succeeds. -/
structure OpenIO.Succeeds (io : OpenIO) (count : Nat) : Prop where
  newWritableFile : io.newWritableFile.isOk = true
  addRecord : ∀ k < count, (io.addRecord k).isOk = true
  sync : io.sync.isOk = true
  setCurrentFile : io.setCurrentFile.isOk = true

private theorem forEach_addRecord_isOk (io : OpenIO) (es : List VersionEdit)
    (records : List Bytes) :
    (Status.forEach (fun records (edit : VersionEdit) =>
          (io.addRecord records.length, records ++ [edit.encodeTo C])) records es).1.isOk = true
      ↔ ∀ k < es.length, (io.addRecord (records.length + k)).isOk = true := by
  induction es generalizing records with
  | nil => simp
  | cons e es ih =>
    rw [Status.forEach_cons]
    by_cases h : (io.addRecord records.length).isOk = true
    · rw [if_pos h, ih, length_cons]
      constructor
      · intro hk k hlt
        cases k with
        | zero => exact h
        | succ k =>
          have := hk k (by omega)
          rw [length_append, length_singleton] at this
          rwa [show records.length + (k + 1) = records.length + 1 + k by
            omega]
      · intro hk k hlt
        have := hk (k + 1) (by omega)
        rw [length_append, length_singleton]
        rwa [show records.length + 1 + k = records.length + (k + 1) by
          omega]
    · rw [if_neg h]
      exact ⟨fun hc => absurd hc h, fun hk => absurd (hk 0 (by simp)) h⟩

theorem openManifest_isOk (io : OpenIO) (fs : BlobFileSet) (number : UInt64) :
    (fs.openManifest C io number).1.isOk = true
      ↔ io.Succeeds (fs.columnFamilies.entries.length + 1) := by
  have hsnap : (fs.writeSnapshot C io).1.isOk = true
      ↔ ∀ k < fs.columnFamilies.entries.length + 1, (io.addRecord k).isOk = true := by
    unfold writeSnapshot
    rw [forEach_addRecord_isOk]
    simp [snapshotEdits]
  unfold openManifest
  by_cases h1 : io.newWritableFile.isOk = true
  case neg =>
    rw [if_pos (by simp [h1])]
    exact ⟨fun h => absurd h h1, fun h => absurd h.newWritableFile h1⟩
  case pos =>
    rw [if_neg (by simp [h1])]
    dsimp only
    by_cases h2 : (fs.writeSnapshot C io).1.isOk = true
    case neg =>
      rw [if_neg h2, if_neg h2, if_neg h2]
      exact ⟨fun h => absurd h h2, fun h => absurd (hsnap.2 h.addRecord) h2⟩
    case pos =>
      rw [if_pos h2]
      by_cases h3 : io.sync.isOk = true
      case neg =>
        rw [if_neg h3, if_neg h3]
        exact ⟨fun h => absurd h h3, fun h => absurd h.sync h3⟩
      case pos =>
        rw [if_pos h3]
        by_cases h4 : io.setCurrentFile.isOk = true
        · rw [if_pos h4]
          exact ⟨fun _ => ⟨h1, hsnap.1 h2, h3, h4⟩, fun _ => h4⟩
        · rw [if_neg h4]
          exact ⟨fun h => absurd h h4, fun h => absurd h.setCurrentFile h4⟩

-- ==== Recover

/-- The last part of `Recover` fails only with the new manifest, and
then deletes nothing. -/
theorem recoverFinish_isOk (io : OpenIO) (children : List (UInt64 × FileType)) (fs : BlobFileSet) :
    ((fs.recoverFinish C io children).1.isOk = true
        ↔ io.Succeeds (fs.columnFamilies.entries.length + 1))
      ∧ ((fs.recoverFinish C io children).1.isOk = false →
        (fs.recoverFinish C io children).2.2 = []) := by
  obtain ⟨fs', hlen, heq⟩ : ∃ fs' : BlobFileSet,
      fs'.columnFamilies.entries.length = fs.columnFamilies.entries.length
        ∧ fs.recoverFinish C io children = if !(fs'.openManifest C io fs.nextFileNumber).1.isOk then
              ((fs'.openManifest C io fs.nextFileNumber).1,
                (fs'.openManifest C io fs.nextFileNumber).2, [])
            else (.ok, _, _) :=
    ⟨{ fs with
        columnFamilies := fs.columnFamilies.mapVal fun st =>
          st.markAllFilesForGC.computeGCScore
        nextFileNumber := fs.nextFileNumber + 1 }, length_map .., rfl⟩
  have hopen := openManifest_isOk (C := C) io fs' fs.nextFileNumber
  rw [hlen] at hopen
  rw [heq]
  by_cases h : (fs'.openManifest C io fs.nextFileNumber).1.isOk = true
  · rw [if_neg (by simp [h])]
    exact ⟨⟨fun _ => hopen.1 h, fun _ => rfl⟩, fun hc => by cases hc⟩
  · rw [if_pos (by simp [h])]
    exact ⟨⟨fun hc => absurd hc h, fun hs => absurd (hopen.2 hs) h⟩, fun _ => rfl⟩

theorem recover_isOk {io : RecoverIO} (fs : BlobFileSet) {name : Bytes}
    (hcur : io.current = .ok name) (hnl : name.getLast? = some 10)
    (hseq : io.newSequentialFile.isOk = true) :
    ((fs.recover C io).1.isOk = true
        ↔ (fs.recoverEdits C io.reader).1.isOk = true
          ∧ io.openManifest.Succeeds ((fs.recoverEdits C
            io.reader).2.columnFamilies.entries.length + 1))
      ∧ ((fs.recover C io).1.isOk = false → (fs.recover C io).2.2 = []) := by
  unfold recover
  rw [hcur]
  dsimp only
  rw [if_neg (by simp [hnl]), if_neg (by simp [hseq])]
  obtain ⟨hfin, hdel⟩ := recoverFinish_isOk (C := C) io.openManifest
    io.children (fs.recoverEdits C io.reader).2
  by_cases h : (fs.recoverEdits C io.reader).1.isOk = true
  · rw [if_neg (by simp [h]), hfin]
    exact ⟨⟨fun hs => ⟨h, hs⟩, fun hs => hs.2⟩, hdel⟩
  · rw [if_pos (by simp [h])]
    exact ⟨⟨fun hs => absurd hs h, fun hs => absurd hs.1 h⟩, fun _ => rfl⟩

/-- **Opening after a corruption.** The reader returns the records `rs`,
then reports a corruption. Opening refuses the manifest and deletes
nothing exactly when `rs` would not have passed as a whole manifest
either (a record that does not decode, or edits that break one of the
collector's rules), or the new manifest cannot be written. -/
theorem open_after_corruption_iff (dbOptions : TitanDBOptions)
    (columnFamilies : List (UInt32 × TitanCFOptions)) {io : RecoverIO}
    {name : Bytes} (hcur : io.current = .ok name)
    (hnl : name.getLast? = some 10) (hseq : io.newSequentialFile.isOk = true)
    {rs : List Bytes} {bad : ReadCall} {post : LogReader}
    (hreader : io.reader = LogReader.intact rs ++ bad :: post)
    (hbad : ∃ s ∈ bad.reported, s.isOk = false) :
    let fs := ({ dbOptions } : BlobFileSet).addColumnFamilies columnFamilies
    let opened := BlobFileSet.open C dbOptions columnFamilies (.ok io)
    (opened.1.isOk = false ∧ opened.2.2 = [])
      ↔ (¬ ∃ es, Decodes C rs es ∧ Recoverable fs es)
        ∨ ¬ io.openManifest.Succeeds (fs.columnFamilies.entries.length + 1) := by
  intro fs opened
  have hf := fresh_addColumnFamilies dbOptions columnFamilies
  obtain ⟨hok, hdel⟩ := recover_isOk (C := C) fs hcur hnl hseq
  rw [hreader, recoverEdits_corrupt fs rs hbad post] at hok
  show (fs.recover C io).1.isOk = false ∧ (fs.recover C io).2.2 = [] ↔ _
  rw [and_iff_left_of_imp hdel, ← Bool.not_eq_true, hok, not_and_or]
  by_cases hr : (fs.recoverEdits C (intact rs)).1.isOk = true
  · obtain ⟨es, hd, hrec⟩ := recoverable_of_recoverEdits hf hr
    have hlen := Table.length_entries_eq _ fs.columnFamilies
      (recoverEdits_of_recoverable hf hd hrec).2.opened
    rw [hlen]
    exact or_congr_left ⟨fun h => absurd hr h, fun h => absurd ⟨es, hd, hrec⟩ h⟩
  · refine iff_of_true (.inl hr) (.inl fun ⟨es, hd, hrec⟩ => hr ?_)
    exact Status.isOk_iff.2 (recoverEdits_of_recoverable hf hd hrec).1

/-- A call that reports a corruption and returns false. -/
def checksumMismatch : ReadCall where
  reported := [.corruption "checksum mismatch"]
  record := none

/-- A manifest whose last record, the addition of file 7, is lost to a
corruption; the file is in the directory. -/
def corruptTail : RecoverIO where
  current := .ok [77, 10]
  reader := LogReader.intact [(({} : VersionEdit).setNextFileNumber 8).encodeTo base128]
    ++ [checksumMismatch]
  children := [(7, .kBlobFile)]

/-- Opening succeeds and deletes the file. -/
theorem open_corruptTail :
    let opened := BlobFileSet.open base128 {} [(0, {})] (.ok corruptTail)
    opened.1 = .ok ∧ opened.2.2 = [(7, .kBlobFile)] := by
  decide +kernel

/-- A corruption at the first record is noticed: no next file number. -/
theorem open_corruptHead :
    let io : RecoverIO :=
      { corruptTail with reader := [checksumMismatch] }
    let opened := BlobFileSet.open base128 {} [(0, {})] (.ok io)
    opened.1.isOk = false ∧ opened.2.2 = [] := by
  intro io
  have hreader : io.reader = intact [] ++ checksumMismatch :: [] := rfl
  refine (open_after_corruption_iff {} [(0, {})] rfl rfl rfl hreader
    ⟨_, mem_cons_self, rfl⟩).2 (.inl ?_)
  rintro ⟨es, hd, hrec⟩
  cases hd
  obtain ⟨e, he, -⟩ := hrec.has_next
  cases he

end DiffKV
