/-
What an acknowledged `Add` of a `ForegroundBuilder` has stored.

The workers are writers of files of their own, so the bytes of a file
change by appends of one worker, and not at all once an append has failed.
A record that lies in its file whole is read back from then on. One that
does not is lost: the handle points behind the end of the file, or at
nothing, if an append before it failed. `Add` returns OK in all of these
cases, and also for the empty key, whose request is served as a flush.
-/
import DiffKV.ForegroundErrors
import DiffKV.Lib.Writers
import DiffKV.Open
import DiffKV.Proofs.BlobFileBytes
import DiffKV.Proofs.LogAndApply

namespace DiffKV

open Lib List Table Option UInt64 LsmEntry BlobFileReader

variable {record : BlobRecord} {handle : BlobHandle} {f : ForegroundFile}
  {t s : ForegroundBuilder} {index : BlobIndex} {status : Status}
  {io : RequestIO} {data : Bytes}

-- ==== appends

/-- The append has all the bytes in the file. -/
def AppendOutcome.Whole (io : AppendOutcome) (data : Bytes) : Prop :=
  io.status.isOk = true ∨ data.length ≤ io.reached

theorem AppendOutcome.append_of_whole {io : AppendOutcome} (h : io.Whole data)
    (file : Bytes) : io.append file data = file ++ data := by
  unfold append
  rcases h with h | h
  · rw [if_pos h]
  · split
    · rfl
    · rw [take_of_length_le h]

theorem AppendOutcome.length_append_le (io : AppendOutcome) (file data : Bytes) :
    (io.append file data).length ≤ (file ++ data).length := by
  unfold append
  rw [length_append, length_append]
  split
  · exact Nat.le_refl _
  · rw [length_take]
    omega

namespace ForegroundBuilder

variable {w : ForegroundWorker} {r : Except Status ForegroundFile} {wb : WriteBatch}

variable {cfg : ForegroundConfig} {u : ForegroundBuilder} {b : Nat}

-- ==== the workers

/-- The workers, as writers of blob files. -/
def writers : Writers ForegroundBuilder Nat UInt64 UInt8 where
  issued s n := n < s.fileSet.nextFileNumber
  holds s b := (s.openAt b).map (·.number)
  sound s b := ∃ f, s.openAt b = some f ∧ f.status.isOk = true
  file s n := s.dir.lookup n
  within l := l.length < 2 ^ 64

/-- A worker without an error knows the size of its file. -/
def Measured (s : ForegroundBuilder) (b : Nat) : Prop :=
  ∀ f, s.openAt b = some f → f.status.isOk = true →
    ∃ file, s.dir.lookup f.number = some file ∧ file.length = f.fileSize.toNat

/-- What holds of a builder between two requests. -/
structure Sound (s : ForegroundBuilder) : Prop where
  apart : writers.Apart s
  measured : ∀ b, s.Measured b

/-- What one worker may do. -/
structure Turn (b : Nat) (s t : ForegroundBuilder) : Prop where
  acts : writers.Acts b s t
  others : ∀ b', b' ≠ b → t.openAt b' = s.openAt b'
  measured : t.Measured b

theorem Turn.trans (h : Turn b s t) (h' : Turn b t u) : Turn b s u where
  acts := h.acts.trans h'.acts
  others b' hb := (h'.others b' hb).trans (h.others b' hb)
  measured := h'.measured

theorem Turn.refl (hs : s.Sound) (b : Nat) : Turn b s s where
  acts := .of_unseen (fun _ => id) (fun _ => rfl) (fun _ => Iff.rfl) fun _ => rfl
  others _ _ := rfl
  measured := hs.measured b

theorem Sound.turn (hs : s.Sound) (h : Turn b s t) : t.Sound where
  apart := h.acts.apart hs.apart
  measured := by
    intro b' f hf hok
    by_cases hb : b' = b
    · subst hb
      exact h.measured f hf hok
    · rw [h.others b' hb] at hf
      obtain ⟨file, hfile, hlength⟩ := hs.measured b' f hf hok
      exact ⟨file, h.acts.file_other hs.apart hb (map_eq_some_iff.2 ⟨f, hf, rfl⟩) hfile, hlength⟩

/-- What is to be shown of a turn in the terms of the builder. -/
theorem Turn.of_openAt (hnext : ∀ n, n < s.fileSet.nextFileNumber → n < t.fileSet.nextFileNumber)
    (hothers : ∀ b', b' ≠ b → t.openAt b' = s.openAt b')
    (hown : ∀ f', t.openAt b = some f' →
      (∃ f, s.openAt b = some f ∧ f.number = f'.number
        ∧ (f'.status.isOk = true → f.status.isOk = true))
      ∨ (f'.number = s.fileSet.nextFileNumber
        ∧ s.fileSet.nextFileNumber < t.fileSet.nextFileNumber))
    (hmeasured : t.Measured b)
    (hfile : ∀ n file, n < s.fileSet.nextFileNumber → s.dir.lookup n = some file → ∃ tail,
      t.dir.lookup n = some (file ++ tail) ∧ (tail = []
        ∨ ((∃ f, s.openAt b = some f ∧ f.number = n
            ∧ f.status.isOk = true) ∧ (file ++ tail).length < 2 ^ 64))) :
    Turn b s t where
  acts := by
    refine ⟨hnext, fun j hj => ?_, fun n hn => ?_, fun n l hn hl => ?_⟩
    · unfold writers
      dsimp only
      rw [hothers j hj]
      exact ⟨rfl, Iff.rfl⟩
    · obtain ⟨f', hf', rfl⟩ := map_eq_some_iff.1 hn
      rcases hown f' hf' with ⟨f, hf, hnumber, hok⟩ | ⟨hnew, hlt⟩
      · refine .inl ⟨map_eq_some_iff.2 ⟨f, hf, hnumber⟩, ?_⟩
        rintro ⟨f'', hf'', hok'⟩
        cases hf'.symm.trans hf''
        exact ⟨f, hf, hok hok'⟩
      · refine .inr ?_
        rw [hnew]
        exact ⟨UInt64.lt_irrefl _, hlt⟩
    · obtain ⟨tail, ht, htail⟩ := hfile n l hn hl
      refine ⟨tail, ht, htail.imp_right ?_⟩
      rintro ⟨⟨f, hf, hnumber, hok⟩, hwithin⟩
      exact ⟨⟨map_eq_some_iff.2 ⟨f, hf, hnumber⟩, f, hf, hok⟩, hwithin⟩
  others := hothers
  measured := hmeasured

theorem openAt_onWorker (s : ForegroundBuilder) (b b' : Nat)
    (f : ForegroundWorker → ForegroundWorker) :
    (s.onWorker b f).openAt b'
      = if b' = b then s.workers[b']?.bind fun w => (f w).file else s.openAt b' := by
  unfold onWorker openAt
  rw [getElem?_modify]
  by_cases hb : b' = b
  · subst hb
    cases s.workers[b']? <;> simp
  · cases s.workers[b']? <;> simp [hb, Ne.symm hb]

/-- The open file of a worker is replaced. -/
theorem openAt_setFile (hw : s.workers[b]? = some w) (f : ForegroundFile) (b' : Nat) :
    (s.onWorker b fun w => { w with file := some f }).openAt b'
      = if b' = b then some f else s.openAt b' := by
  rw [openAt_onWorker]
  split
  case isTrue hb =>
    rw [hb, hw]
    rfl
  case isFalse => rfl

/-- A worker without an error appends to its file. -/
theorem lookup_appended {file : Bytes} (hopen : s.openAt b = some f)
    (hok : f.status.isOk = true) (hfile : s.dir.lookup f.number = some file)
    (hwithin : (file ++ data).length < 2 ^ 64) {n : UInt64} {l : Bytes}
    (hl : s.dir.lookup n = some l) :
    ∃ tail, (s.dir.insert f.number (file ++ data)).lookup n = some (l ++ tail)
      ∧ (tail = [] ∨ ((∃ f, s.openAt b = some f ∧ f.number = n
        ∧ f.status.isOk = true) ∧ (l ++ tail).length < 2 ^ 64)) := by
  rw [lookup_insert]
  split
  case isFalse => exact ⟨[], by rw [hl, append_nil], .inl rfl⟩
  case isTrue hn =>
    subst hn
    cases hfile.symm.trans hl
    exact ⟨data, rfl, .inr ⟨⟨f, hopen, rfl, hok⟩, hwithin⟩⟩

-- ==== its parts

theorem finishBlob_turn (hs : s.Sound) (h : s.finishBlob cfg b io = some t) : Turn b s t := by
  unfold finishBlob at h
  cases hopen : s.openAt b with
  | none =>
    rw [hopen] at h
    cases h
    exact Turn.refl hs b
  | some f =>
    rw [hopen] at h
    dsimp only at h
    split at h
    case isFalse => cases h
    case isTrue hif =>
      simp only [Bool.and_eq_true, decide_eq_true_eq] at hif
      obtain ⟨⟨⟨hok, -⟩, -⟩, hroom⟩ := hif
      obtain ⟨file, hfile, hlength⟩ := hs.measured b f hopen hok
      have ht := some.inj h
      have hclosed : ∀ f', t.openAt b ≠ some f' := by
        intro f' hf'
        rw [← ht, openAt_onWorker, if_pos rfl] at hf'
        obtain ⟨w, -, hw⟩ := bind_eq_some_iff.1 hf'
        cases hw
      refine .of_openAt (fun n hn => ?_) (fun b' hb => ?_) (fun f' hf' => absurd hf' (hclosed f'))
        (fun f' hf' => absurd hf' (hclosed f')) fun n l _ hl => ?_
      · rw [← ht]
        exact hn
      · rw [← ht, openAt_onWorker, if_neg hb]
        rfl
      · rw [← ht]
        rw [hfile]
        refine lookup_appended hopen hok hfile ?_ hl
        have hno := lt_iff_toNat_lt.1 hroom
        have hfooter : kBlobFooterSize.toNat = 32 := rfl
        rw [UInt64.toNat_add] at hno
        rw [length_append, Codec.encodeFooter_length, hlength]
        omega

theorem rollOver_turn (hs : s.Sound) (h : s.rollOver cfg b io = some t) : Turn b s t := by
  unfold rollOver at h
  split at h
  · cases h
    exact Turn.refl hs b
  · split at h
    · exact finishBlob_turn hs h
    · cases h
      exact Turn.refl hs b

/-- A turn that is not seen. -/
theorem Turn.of_same (hs : s.Sound) (hnext : t.fileSet.nextFileNumber = s.fileSet.nextFileNumber)
    (hopen : ∀ b', t.openAt b' = s.openAt b') (hdir : t.dir = s.dir) (b : Nat) : Turn b s t := by
  refine .of_openAt (fun n hn => hnext ▸ hn) (fun b' _ => hopen b')
    (fun f' hf' => .inl ⟨f', hopen b ▸ hf', rfl, id⟩) ?_
    fun n l _ hl => ⟨[], by rw [hdir, hl, append_nil], .inl rfl⟩
  unfold Measured
  rw [hopen b, hdir]
  exact hs.measured b

theorem flushWorker_turn (hs : s.Sound) (h : s.flushWorker cfg b io = some t) : Turn b s t := by
  unfold flushWorker at h
  cases hfinish : s.finishBlob cfg b io with
  | none =>
    rw [hfinish] at h
    cases h
  | some s₁ =>
    have hturn := finishBlob_turn hs hfinish
    rw [hfinish] at h
    dsimp only at h
    split at h
    case h_1 => cases h
    case h_2 w hw =>
      split at h
      case isTrue =>
        cases h
        exact hturn
      case isFalse =>
        have ht := some.inj h
        refine hturn.trans (.of_same (hs.turn hturn) ?_ (fun b' => ?_) ?_ b)
        · rw [← ht]
          unfold batchFinishFiles
          split
          · exact BlobFileSet.next_logAndApply ..
          · rfl
        · have hworkers : ∀ files, (s₁.batchFinishFiles cfg files io).2.workers = s₁.workers := by
            intro files
            unfold batchFinishFiles
            split <;> rfl
          rw [← ht, openAt_onWorker, hworkers]
          unfold openAt
          rw [hworkers]
          split <;> rfl
        · rw [← ht]
          unfold batchFinishFiles
          split <;> rfl

/-- The file the next record goes to takes it. -/
def Ready (s : ForegroundBuilder) (b : Nat) (io : RequestIO) : Prop :=
  match s.openAt b with
  | some f => f.status.isOk = true
  | none => io.appendHeader.status.isOk = true

/-- A worker has a new file, with the next number. -/
structure Created (b : Nat) (io : RequestIO) (s : ForegroundBuilder)
    (f : ForegroundFile) (t : ForegroundBuilder) : Prop where
  number : f.number = s.fileSet.nextFileNumber
  status : f.status = io.appendHeader.status
  fileSize : f.fileSize = if io.appendHeader.status.isOk then kBlobHeaderSize else 0
  next : t.fileSet.nextFileNumber = s.fileSet.nextFileNumber + 1
  dir : t.dir = s.dir.insert f.number (io.appendHeader.append [] encodeFileHeader)
  openAt : ∀ b', t.openAt b' = if b' = b then some f else s.openAt b'

theorem newFile_cases (hw : s.workers[b]? = some w) (h : s.newFile cfg b io = some (r, t)) :
    s.fileSet.nextFileNumber < s.fileSet.nextFileNumber + 1
      ∧ ((∃ status, r = .error status ∧ status.isOk = false
          ∧ t = { s with fileSet := s.fileSet.newFileNumber.2 })
        ∨ ∃ f, r = .ok f ∧ Created b io s f t) := by
  unfold newFile at h
  dsimp only [BlobFileSet.newFileNumber] at h
  split at h
  case isFalse => cases h
  case isTrue hnext =>
    refine ⟨hnext, ?_⟩
    split at h
    case isFalse hfailed =>
      obtain ⟨rfl, rfl⟩ := Prod.mk.inj (some.inj h)
      exact .inl ⟨_, rfl, by simpa using hfailed, rfl⟩
    case isTrue =>
      split at h
      case isFalse => cases h
      case isTrue =>
        obtain ⟨rfl, rfl⟩ := Prod.mk.inj (some.inj h)
        exact .inr ⟨_, rfl, rfl, rfl, rfl, rfl, rfl, fun b' => openAt_setFile (by exact hw) _ b'⟩

theorem Created.turn (h : Created b io s f t)
    (hnext : s.fileSet.nextFileNumber < s.fileSet.nextFileNumber + 1) : Turn b s t := by
  have hown : t.openAt b = some f := (h.openAt b).trans (if_pos rfl)
  have hlt : s.fileSet.nextFileNumber < t.fileSet.nextFileNumber := by
    rw [h.next]
    exact hnext
  refine .of_openAt (fun n hn => UInt64.lt_trans hn hlt) (fun b' hb => ?_)
    (fun f' hf' => ?_) (fun f' hf' hok => ?_) (fun n l hn hl => ?_)
  · rw [h.openAt, if_neg hb]
  · cases hown.symm.trans hf'
    exact .inr ⟨h.number, hlt⟩
  · cases hown.symm.trans hf'
    rw [h.status] at hok
    refine ⟨encodeFileHeader, ?_, ?_⟩
    · rw [h.dir, lookup_insert, if_pos rfl, AppendOutcome.append_of_whole (.inl hok), nil_append]
    · rw [h.fileSize, if_pos hok, encodeFileHeader_length]
  · refine ⟨[], ?_, .inl rfl⟩
    have hne : n ≠ f.number := by
      rintro rfl
      rw [h.number] at hn
      exact UInt64.lt_irrefl _ hn
    rw [h.dir, lookup_insert, if_neg hne, hl, append_nil]

theorem newFile_turn (hs : s.Sound) (hw : s.workers[b]? = some w)
    (h : s.newFile cfg b io = some (r, t)) :
    Turn b s t ∧ (∀ status, r = .error status → status.isOk = false)
      ∧ ∀ f, r = .ok f → t.openAt b = some f ∧ f.status = io.appendHeader.status := by
  obtain ⟨hnext, ⟨status, rfl, hfailed, rfl⟩ | ⟨f, rfl, hcreated⟩⟩ := newFile_cases hw h
  · refine ⟨.of_openAt (fun n hn => UInt64.lt_trans hn hnext)
      (fun _ _ => rfl) (fun f' hf' => .inl ⟨f', hf', rfl, id⟩) (hs.measured b)
      fun n l _ hl => ⟨[], by rw [hl, append_nil], .inl rfl⟩, ?_, ?_⟩
    · rintro _ ⟨⟩
      exact hfailed
    · rintro _ ⟨⟩
  · refine ⟨hcreated.turn hnext, ?_, ?_⟩
    · rintro _ ⟨⟩
    · rintro _ ⟨⟩
      exact ⟨(hcreated.openAt b).trans (if_pos rfl), hcreated.status⟩

theorem openFile_turn (hs : s.Sound) (h : s.openFile cfg b io = some (r, t)) :
    Turn b s t ∧ (∀ status, r = .error status → status.isOk = false)
      ∧ ∀ f, r = .ok f → t.openAt b = some f ∧ (f.status.isOk = true ↔ s.Ready b io) := by
  unfold openFile at h
  cases hw : s.workers[b]? with
  | none =>
    rw [hw] at h
    cases h
  | some w =>
    have hopen : s.openAt b = w.file := by
      unfold openAt
      rw [hw]
      rfl
    rw [hw] at h
    dsimp only at h
    unfold Ready
    rw [hopen]
    cases hfile : w.file with
    | some f =>
      rw [hfile] at h
      obtain ⟨rfl, rfl⟩ := Prod.mk.inj (some.inj h)
      refine ⟨Turn.refl hs b, fun _ h => (nomatch h), fun f' hf' => ?_⟩
      cases hf'
      exact ⟨hopen.trans hfile, Iff.rfl⟩
    | none =>
      rw [hfile] at h
      obtain ⟨hturn, herror, hok⟩ := newFile_turn hs hw h
      refine ⟨hturn, herror, fun f hf => ⟨(hok f hf).1, ?_⟩⟩
      rw [(hok f hf).2]

/-- A record that is appended, or of which some bytes are. -/
structure Landed (cfg : ForegroundConfig) (b : Nat) (f : ForegroundFile)
    (record : BlobRecord) (io : AppendOutcome) (file : Bytes)
    (handle : BlobHandle) (t : ForegroundBuilder) : Prop where
  handle_eq : handle = { offset := UInt64.ofNat file.length
                         size := (cfg.encodeRecord record).getEncodedSize }
  lookup : t.dir.lookup f.number = some (io.append file (cfg.encodeRecord record).bytes)
  room : (file ++ (cfg.encodeRecord record).bytes).length < 2 ^ 64
  openAt : ∃ f', t.openAt b = some f' ∧ f'.number = f.number ∧ f'.status = io.status

theorem afterAppend_status (cfg : ForegroundConfig) (f : ForegroundFile)
    (record : BlobRecord) (status : Status) :
    (afterAppend cfg f record status).number = f.number
      ∧ (afterAppend cfg f record status).status = status := by
  unfold afterAppend
  split <;> exact ⟨rfl, rfl⟩

/-- The size of the file is counted without overflow. -/
theorem afterAppend_fileSize (hok : status.isOk = true)
    (hroom : f.fileSize.toNat + (cfg.encodeRecord record).bytes.length < 2 ^ 64) :
    (afterAppend cfg f record status).fileSize.toNat
      = f.fileSize.toNat + (cfg.encodeRecord record).bytes.length := by
  unfold afterAppend
  rw [if_pos hok]
  rw [UInt64.toNat_add, toNat_ofNat_lt (by omega)]
  exact Nat.mod_eq_of_lt hroom

/-- What a file without an error makes of a record. -/
theorem addRecord_ok (hopen : s.openAt b = some f) (hok : f.status.isOk = true)
    (h : s.addRecord cfg b f record io = some (handle, t)) :
    f.fileSize.toNat + (cfg.encodeRecord record).bytes.length < 2 ^ 64
      ∧ handle = { offset := f.fileSize
                   size := (cfg.encodeRecord record).getEncodedSize }
      ∧ t.fileSet = s.fileSet
      ∧ t.dir = s.dir.insert f.number (io.append.append
          ((s.dir.lookup f.number).getD []) (cfg.encodeRecord record).bytes)
      ∧ ∀ b', t.openAt b' = if b' = b then
          some (afterAppend cfg f record io.append.status)
        else s.openAt b' := by
  obtain ⟨w, hw, -⟩ := bind_eq_some_iff.1 hopen
  unfold addRecord at h
  rw [hok] at h
  simp only [Bool.not_true, Bool.false_eq_true, if_false] at h
  split at h
  case isFalse => cases h
  case isTrue hroom =>
    obtain ⟨rfl, rfl⟩ := Prod.mk.inj (some.inj h)
    exact ⟨hroom, rfl, rfl, rfl, fun b' => openAt_setFile (by exact hw) _ b'⟩

theorem addRecord_landed (hs : s.Sound) (hopen : s.openAt b = some f) (hok : f.status.isOk = true)
    (h : s.addRecord cfg b f record io = some (handle, t)) :
    Turn b s t ∧ ∃ file, Landed cfg b f record io.append file handle t := by
  obtain ⟨file, hfile, hlength⟩ := hs.measured b f hopen hok
  obtain ⟨hroom, rfl, hset, hdir, hopenAt⟩ := addRecord_ok hopen hok h
  have hopened : t.openAt b = some _ := (hopenAt b).trans (if_pos rfl)
  have hstatus := afterAppend_status cfg f record io.append.status
  have hwhole : (file ++ (cfg.encodeRecord record).bytes).length < 2 ^ 64 := by
    rw [length_append, hlength]
    exact hroom
  rw [hfile, getD_some] at hdir
  refine ⟨.of_openAt (fun n hn => ?_) (fun b' hb => ?_) (fun f' hf' => ?_)
    (fun f' hf' hok' => ?_) (fun n l _ hl => ?_), file, ?_⟩
  · rw [hset]
    exact hn
  · rw [hopenAt, if_neg hb]
  · cases hopened.symm.trans hf'
    exact .inl ⟨f, hopen, hstatus.1.symm, fun _ => hok⟩
  · cases hopened.symm.trans hf'
    rw [hstatus.2] at hok'
    refine ⟨file ++ (cfg.encodeRecord record).bytes, ?_, ?_⟩
    · rw [hdir, hstatus.1, lookup_insert, if_pos rfl, AppendOutcome.append_of_whole (.inl hok')]
    · rw [afterAppend_fileSize hok' hroom, length_append, hlength]
  · rw [hdir]
    exact lookup_appended hopen hok hfile
      (Nat.lt_of_le_of_lt (io.append.length_append_le ..) hwhole) hl
  · refine ⟨?_, ?_, hwhole, _, hopened, hstatus⟩
    · rw [hlength, UInt64.ofNat_toNat]
    · rw [hdir, lookup_insert, if_pos rfl]

/-- A file with an error takes no record. -/
theorem addRecord_broken (hbroken : f.status.isOk = false)
    (h : s.addRecord cfg b f record io = some (handle, t)) :
    handle = { offset := 0, size := 0 } ∧ t = s := by
  unfold addRecord at h
  rw [hbroken] at h
  obtain ⟨rfl, rfl⟩ := Prod.mk.inj (some.inj h)
  exact ⟨rfl, rfl⟩

-- ==== requests

/-- What an acknowledged request to add a record has left: the handle of
nothing, or the record as it landed, some states ago. -/
def Acknowledged (cfg : ForegroundConfig) (s t : ForegroundBuilder) (b : Nat)
    (record : BlobRecord) (io : RequestIO) (index : BlobIndex) : Prop :=
  (¬ s.Ready b io ∧ index.blobHandle = { offset := 0, size := 0 })
    ∨ (s.Ready b io ∧ ∃ s₁ f file, s₁.Sound ∧ f.number = index.fileNumber
      ∧ Landed cfg b f record io.append file index.blobHandle s₁
      ∧ writers.Grows s₁ t)

theorem handleAdd_cases (h : s.handleAdd cfg b record io = some ((status, wb), t)) :
    s.openFile cfg b io = some (.error status, t)
      ∨ ∃ f s₀ handle s₁, s.openFile cfg b io = some (.ok f, s₀)
        ∧ s₀.addRecord cfg b f record io = some (handle, s₁) ∧ s₁.rollOver cfg b io = some t
        ∧ (status.isOk = true →
          wb = [(record.key, ofIndex cfg.codec.coding
            { fileNumber := f.number, blobHandle := handle })]) := by
  unfold handleAdd at h
  split at h
  case h_1 => cases h
  case h_2 failed s₀ hfile =>
    obtain ⟨hresult, rfl⟩ := Prod.mk.inj (some.inj h)
    rw [(Prod.mk.inj hresult).1] at hfile
    exact .inl hfile
  case h_3 f s₀ hfile =>
    split at h
    case h_1 => cases h
    case h_2 handle s₁ hadd =>
      split at h
      case h_1 => cases h
      case h_2 s₂ hroll =>
        obtain ⟨hresult, rfl⟩ := Prod.mk.inj (some.inj h)
        obtain ⟨hstatus, hbatch⟩ := Prod.mk.inj hresult
        refine .inr ⟨f, s₀, handle, s₁, hfile, hadd, hroll, fun hok => ?_⟩
        rw [← hbatch, hstatus, if_pos hok]

theorem handleAdd_turn (hs : s.Sound) (h : s.handleAdd cfg b record io = some ((status, wb), t)) :
    Turn b s t ∧ (status.isOk = true → ∃ index,
      wb = [(record.key, ofIndex cfg.codec.coding index)]
        ∧ Acknowledged cfg s t b record io index) := by
  rcases handleAdd_cases h with
    hfile | ⟨f, s₀, handle, s₁, hfile, hadd, hroll, hwb⟩
  · obtain ⟨hturn, herror, -⟩ := openFile_turn hs hfile
    refine ⟨hturn, fun hok => ?_⟩
    rw [herror status rfl] at hok
    cases hok
  · obtain ⟨hturn, -, hready⟩ := openFile_turn hs hfile
    obtain ⟨hopen, hiff⟩ := hready f rfl
    have hs₀ := hs.turn hturn
    cases hok : f.status.isOk with
    | false =>
      obtain ⟨hzero, rfl⟩ := addRecord_broken hok hadd
      refine ⟨hturn.trans (rollOver_turn hs₀ hroll),
        fun hstatus => ⟨_, hwb hstatus, .inl ⟨?_, hzero⟩⟩⟩
      rw [← hiff, hok]
      exact Bool.false_ne_true
    | true =>
      obtain ⟨hturn', file, hlanded⟩ := addRecord_landed hs₀ hopen hok hadd
      have hs₁ := hs₀.turn hturn'
      have hroll := rollOver_turn hs₁ hroll
      exact ⟨(hturn.trans hturn').trans hroll,
        fun hstatus => ⟨_, hwb hstatus, .inr ⟨hiff.1 hok, s₁, f, file, hs₁,
          rfl, hlanded, hroll.acts.grows⟩⟩⟩

theorem add_turn (hs : s.Sound) {key : UserKey} {value : Bytes} {result : Status × WriteBatch}
    (h : s.add cfg key value io = some (result, t)) : Turn (cfg.config.shardOf key) s t := by
  unfold add at h
  split at h
  case isTrue =>
    obtain ⟨-, rfl⟩ := Prod.mk.inj (some.inj h)
    exact Turn.refl hs _
  case isFalse =>
    split at h
    case isTrue =>
      obtain ⟨t', ht', heq⟩ := map_eq_some_iff.1 h
      obtain ⟨-, rfl⟩ := Prod.mk.inj heq
      exact flushWorker_turn hs ht'
    case isFalse => exact (handleAdd_turn hs h).1

theorem step_turn (hs : s.Sound) {request : ForegroundRequest}
    (h : s.step cfg request = some t) : ∃ b, Turn b s t := by
  cases request with
  | add key value io =>
    obtain ⟨⟨result, t'⟩, hadd, rfl⟩ := map_eq_some_iff.1 h
    exact ⟨_, add_turn hs hadd⟩
  | flush b io => exact ⟨b, flushWorker_turn hs h⟩

theorem sound_init (cfg : ForegroundConfig) (fileSet : BlobFileSet)
    (dir : BlobDir) : (init cfg fileSet dir).Sound := by
  have hnone : ∀ b, (init cfg fileSet dir).openAt b = none := by
    intro b
    unfold openAt init
    rw [getElem?_replicate]
    split <;> rfl
  have hholds : ∀ b n, writers.holds (init cfg fileSet dir) b ≠ some n := by
    intro b n hn
    obtain ⟨f, hf, -⟩ := map_eq_some_iff.1 hn
    rw [hnone] at hf
    cases hf
  refine ⟨⟨fun h => absurd h (hholds _ _), fun h => absurd h (hholds _ _)⟩, fun b f hf => ?_⟩
  rw [hnone] at hf
  cases hf

/-- What any requests leave of the files. -/
theorem exec_grows (hs : s.Sound) {requests : List ForegroundRequest}
    (h : exec (step cfg) s requests = some t) : t.Sound ∧ writers.Grows s t := by
  have hmeets : Meets (step cfg) (fun _ _ => True) s requests :=
    meets_of_forall (fun _ _ => trivial) s
  refine exec_keeps (I := fun t => t.Sound ∧ writers.Grows s t) ?_ ⟨hs, .refl s⟩ hmeets h
  rintro t request u ⟨ht, hgrows⟩ - hstep
  obtain ⟨b, hturn⟩ := step_turn ht hstep
  exact ⟨ht.turn hturn, hgrows.trans hturn.acts.grows⟩

end ForegroundBuilder

-- ==== reading

section reading

variable {K : Codec} {file : Bytes}

/-- At the handle of nothing there is no record. -/
theorem readRecord_zero (r : BlobRecord × Bytes) :
    readRecord K file false { offset := 0, size := 0 } ≠ .ok r := by
  intro h
  cases h

/-- A handle that reaches behind the end of the file reads nothing. -/
theorem readRecord_torn {part : Bytes} {size : Nat}
    (hpart : part.length < size) (hsize : file.length + size < 2 ^ 64) (r : BlobRecord × Bytes) :
    readRecord K (file ++ part) false
      { offset := ofNat file.length, size := ofNat size } ≠ .ok r := by
  have hoffset : (ofNat file.length).toNat = file.length := toNat_ofNat_lt (by omega)
  have hlength : (ofNat size).toNat = size := toNat_ofNat_lt (by omega)
  have hread : readAt (file ++ part) (ofNat file.length) size = part := by
    unfold readAt
    rw [hoffset, drop_left]
    exact take_of_length_le (by omega)
  intro h
  unfold readRecord at h
  simp only [hlength, hread] at h
  rw [if_pos] at h
  · cases h
  · intro heq
    have hnat := congrArg toNat heq
    rw [hlength, toNat_ofNat_lt (by omega)] at hnat
    omega

/-- A record that is placed is read back exactly if the decoder restores
it. -/
theorem Placed.exists_readRecord_iff {type : CompressionType} {r : BlobRecord}
    (hp : Placed K type false file handle r) (hfile : file.length < 2 ^ 64) :
    (∃ plain, BlobFileReader.readRecord K file false handle = .ok (r, plain))
      ↔ ∃ buffer, K.decodeRecord (K.headerOf type false r) false
        (K.encodeRecord type false r).record = .ok (r, buffer) := by
  rw [hp.readRecord_decode hfile]
  cases K.decodeRecord (K.headerOf type false r) false (K.encodeRecord type false r).record with
  | error e => simp [Except.map]
  | ok p => simp [Except.map, Prod.ext_iff]

end reading

namespace ForegroundConfig

variable (cfg : ForegroundConfig)

/-- The decoder makes the record of what the encoder made of it. -/
def Restores (r : BlobRecord) : Prop :=
  ∃ buffer, cfg.codec.decodeRecord (cfg.codec.headerOf cfg.compression false r)
    false (cfg.encodeRecord r).record = .ok (r, buffer)

/-- So it does if the encoding fits the size field of the header. -/
theorem restores_of_fits {r : BlobRecord}
    (h : (r.encodeTo cfg.codec.coding false).length < 2 ^ 32) : cfg.Restores r := by
  obtain ⟨buffer, hdecode, -⟩ : ∃ buffer, cfg.codec.decodeRecord
      (cfg.codec.headerOf cfg.compression false r) false
        ((cfg.encodeRecord r).record ++ []) = _ ∧ _ :=
    cfg.codec.decodeRecord_encodeRecord false h []
  rw [append_nil, BlobRecord.decodeInto_encodeTo _ h] at hdecode
  exact ⟨buffer, hdecode⟩

/-- The batch has exactly one blob index of the key, and the bytes at its
handle decode to the record. -/
def Stored (dir : BlobDir) (record : BlobRecord) (wb : WriteBatch) : Prop :=
  ∃ index file plain,
    (wb.filter fun e => decide (e.1 = record.key) && e.2.isBlobIndex)
        = [(record.key, LsmEntry.ofIndex cfg.codec.coding index)]
      ∧ dir.lookup index.fileNumber = some file
      ∧ BlobFileReader.readRecord cfg.codec file false index.blobHandle = .ok (record, plain)

end ForegroundConfig

namespace ForegroundBuilder

variable {cfg : ForegroundConfig} {b : Nat}

theorem stored_singleton_iff {dir : BlobDir} :
    cfg.Stored dir record [(record.key, ofIndex cfg.codec.coding index)]
      ↔ ∃ file plain, dir.lookup index.fileNumber = some file
        ∧ readRecord cfg.codec file false index.blobHandle = .ok (record, plain) := by
  have hfilter : ([(record.key, ofIndex cfg.codec.coding index)].filter
      fun e => decide (e.1 = record.key) && e.2.isBlobIndex)
        = [(record.key, ofIndex cfg.codec.coding index)] := by
    simp [ofIndex]
  unfold ForegroundConfig.Stored
  rw [hfilter]
  constructor
  · rintro ⟨index', file, plain, heq, hrest⟩
    have hindex : index = index' := by
      have hentry := congrArg (blobIndex cfg.codec.coding) (Prod.mk.inj (singleton_inj.1 heq)).2
      rw [blobIndex_ofIndex, blobIndex_ofIndex] at hentry
      exact some.inj hentry
    rw [hindex]
    exact ⟨file, plain, hrest⟩
  · rintro ⟨file, plain, hrest⟩
    exact ⟨index, file, plain, rfl, hrest⟩

section landed

variable {file : Bytes}

theorem Landed.holds (h : Landed cfg b f record io.append file handle s) :
    writers.holds s b = some f.number := by
  obtain ⟨f', hopen, hnumber, -⟩ := h.openAt
  exact map_eq_some_iff.2 ⟨f', hopen, hnumber⟩

/-- A record that landed whole has its place from then on. -/
theorem Landed.placed (hs : s.Sound) (h : Landed cfg b f record io.append file handle s)
    (hgrows : writers.Grows s t) (hwhole : io.append.Whole (cfg.encodeRecord record).bytes) :
    ∃ later, t.dir.lookup f.number = some later ∧ later.length < 2 ^ 64
      ∧ Placed cfg.codec cfg.compression false later handle record := by
  have hlookup := h.lookup
  rw [AppendOutcome.append_of_whole hwhole] at hlookup
  obtain ⟨tail, htail, hwithin⟩ := hgrows.file_within (hs.apart.issued h.holds) hlookup h.room
  refine ⟨_, htail, hwithin, file, tail, append_assoc .., ?_, ?_⟩
  · rw [h.handle_eq]
  · rw [h.handle_eq]
    rfl

/-- Nobody appends to a file after a failure, so the bytes that are
missing stay so, and the handle reaches behind the end of the file. -/
theorem Landed.torn (hs : s.Sound) (h : Landed cfg b f record io.append file handle s)
    (hgrows : writers.Grows s t) (hwhole : ¬ io.append.Whole (cfg.encodeRecord record).bytes)
    {later : Bytes} (hlater : t.dir.lookup f.number = some later) (r : BlobRecord × Bytes) :
    readRecord cfg.codec later false handle ≠ .ok r := by
  unfold AppendOutcome.Whole at hwhole
  rw [not_or, Bool.not_eq_true, Nat.not_le] at hwhole
  have hclosed : ¬ writers.Appendable s f.number := by
    obtain ⟨f', hopen, -, hstatus⟩ := h.openAt
    rintro ⟨b', hholds', f'', hopen', hok⟩
    cases hs.apart.apart h.holds hholds'
    cases hopen.symm.trans hopen'
    rw [hstatus, hwhole.1] at hok
    cases hok
  have hsame : t.dir.lookup f.number = some _ :=
    hgrows.file_eq (hs.apart.issued h.holds) hclosed h.lookup
  have hsize : (cfg.encodeRecord record).getEncodedSize
      = ofNat (cfg.encodeRecord record).bytes.length := getEncodedSize_eq
  have hroom := h.room
  rw [length_append] at hroom
  cases hsame.symm.trans hlater
  unfold AppendOutcome.append
  rw [if_neg (by rw [hwhole.1]; exact Bool.false_ne_true), h.handle_eq, hsize]
  refine readRecord_torn ?_ hroom r
  rw [length_take]
  exact Nat.lt_of_le_of_lt (Nat.min_le_left ..) hwhole.2

/-- The record that landed, read in a later state. -/
theorem Landed.stored_iff (hs : s.Sound) (hnumber : f.number = index.fileNumber)
    (h : Landed cfg b f record io.append file index.blobHandle s) (hgrows : writers.Grows s t) :
    cfg.Stored t.dir record [(record.key, ofIndex cfg.codec.coding index)]
      ↔ io.append.Whole (cfg.encodeRecord record).bytes ∧ cfg.Restores record := by
  rw [stored_singleton_iff, ← hnumber]
  by_cases hwhole : io.append.Whole (cfg.encodeRecord record).bytes
  case pos =>
    obtain ⟨later, hlater, hlength, hplaced⟩ := h.placed hs hgrows hwhole
    rw [and_iff_right hwhole, hlater]
    refine Iff.trans ?_ (hplaced.exists_readRecord_iff hlength)
    simp
  case neg =>
    refine iff_of_false ?_ fun hand => hwhole hand.1
    rintro ⟨later, plain, hlater, hread⟩
    exact h.torn hs hgrows hwhole hlater _ hread

end landed

/-- What it takes for `Add` to store the record: a key, a file without an
error before, all bytes of the record in the file, and a record that the
decoder restores. -/
structure Takes (s : ForegroundBuilder) (cfg : ForegroundConfig)
    (record : BlobRecord) (io : RequestIO) : Prop where
  key : record.key.isEmpty = false
  ready : s.Ready (cfg.config.shardOf record.key) io
  whole : io.append.Whole (cfg.encodeRecord record).bytes
  restores : cfg.Restores record

end ForegroundBuilder

/-- **Acknowledged adds.** In every run of a `ForegroundBuilder`, an `Add`
that returned OK has stored its record, in every later state, exactly if
the builder took it. -/
theorem foregroundAdd_stored_iff {cfg : ForegroundConfig} {fileSet : BlobFileSet} {dir : BlobDir}
    {before after : List ForegroundRequest} {s s' t : ForegroundBuilder}
    {key : UserKey} {value : Bytes} {io : RequestIO} {status : Status} {wb : WriteBatch}
    (hbefore : exec (ForegroundBuilder.step cfg)
      (ForegroundBuilder.init cfg fileSet dir) before = some s)
    (hadd : s.add cfg key value io = some ((status, wb), s')) (hok : status.isOk = true)
    (hafter : exec (ForegroundBuilder.step cfg) s' after = some t) :
    cfg.Stored t.dir { key, value } wb ↔ s.Takes cfg { key, value } io := by
  obtain ⟨hs, -⟩ := ForegroundBuilder.exec_grows
    (ForegroundBuilder.sound_init cfg fileSet dir) hbefore
  obtain ⟨-, hgrows⟩ := ForegroundBuilder.exec_grows
    (hs.turn (ForegroundBuilder.add_turn hs hadd)) hafter
  unfold ForegroundBuilder.add at hadd
  split at hadd
  case isTrue =>
    obtain ⟨hresult, -⟩ := Prod.mk.inj (some.inj hadd)
    rw [← (Prod.mk.inj hresult).1] at hok
    cases hok
  case isFalse =>
    split at hadd
    case isTrue hempty =>
      -- the request was served as a flush
      obtain ⟨t', -, heq⟩ := map_eq_some_iff.1 hadd
      obtain ⟨-, rfl⟩ := Prod.mk.inj (Prod.mk.inj heq).1
      refine iff_of_false ?_ fun h => ?_
      · rintro ⟨index, file, plain, hnone, -⟩
        cases hnone
      · have hkey : key.isEmpty = false := h.key
        rw [hempty] at hkey
        cases hkey
    case isFalse hkey =>
      obtain ⟨index, rfl, hcases⟩ := (ForegroundBuilder.handleAdd_turn hs hadd).2 hok
      rcases hcases with ⟨hbroken, hzero⟩
        | ⟨hready, s₁, f, file, hs₁, hnumber, hlanded, hgrows'⟩
      · refine iff_of_false ?_ fun h => hbroken h.ready
        rw [ForegroundBuilder.stored_singleton_iff, hzero]
        rintro ⟨file, plain, -, hread⟩
        exact readRecord_zero _ hread
      · rw [hlanded.stored_iff hs₁ hnumber (hgrows'.trans hgrows)]
        exact ⟨fun h => ⟨by simpa using hkey, hready, h.1, h.2⟩, fun h => ⟨h.whole, h.restores⟩⟩

/-- A builder with one worker. Its files are full with two of the records
below. -/
def oneWorker : ForegroundConfig where
  codec := trailingZeros
  hash _ := 0
  dbOptions := { sepBeforeFlush := true, numForegroundBuilders := 1 }
  cfOptions := { minBlobSize := 1, blobFileTargetSize := 38 }

/-- It at its start, in a column family without files. -/
def oneWorkerInit : ForegroundBuilder :=
  ForegroundBuilder.init oneWorker
    { columnFamilies := Table.empty.insert 0
        { dbOptions := oneWorker.dbOptions, cfOptions := oneWorker.cfOptions } }
    Table.empty

/-- A record of one byte of key and three of value. -/
def byteRecord (b : UInt8) : BlobRecord :=
  { key := .byte b, value := [b, b, b] }

/-- The second record fills its file; one more and a flush come after
it. -/
theorem foregroundAdd_second_stored :
    ∃ s s' t wb,
      exec (ForegroundBuilder.step oneWorker) oneWorkerInit [.add (.byte 1) [1, 1, 1] {}] = some s
        ∧ s.add oneWorker (.byte 2) [2, 2, 2] {} = some ((.ok, wb), s')
        ∧ exec (ForegroundBuilder.step oneWorker) s'
          [.add (.byte 3) [3, 3, 3] {}, .flush 0 {}] = some t
        ∧ oneWorker.Stored t.dir (byteRecord 2) wb := by
  have hstored : ∀ {s s' t wb},
      exec (ForegroundBuilder.step oneWorker) oneWorkerInit [.add (.byte 1) [1, 1, 1] {}] = some s →
      s.add oneWorker (.byte 2) [2, 2, 2] {} = some ((.ok, wb), s') →
      exec (ForegroundBuilder.step oneWorker) s'
        [.add (.byte 3) [3, 3, 3] {}, .flush 0 {}] = some t →
      s.Takes oneWorker (byteRecord 2) {} → oneWorker.Stored t.dir (byteRecord 2) wb :=
    fun hbefore hadd hafter => (foregroundAdd_stored_iff hbefore hadd rfl hafter).2
  exact ⟨_, _, _, _, rfl, rfl, rfl, hstored rfl rfl rfl ⟨rfl, rfl, .inl rfl,
    oneWorker.restores_of_fits (by decide +kernel)⟩⟩

/-- Three acknowledged requests that store nothing: one whose append
fails, the next one to the same file, and one with an empty key. -/
theorem foregroundAdd_lost :
    ∃ s₁ s₂ s₃ wb₁ wb₂,
      oneWorkerInit.add oneWorker (.byte 1) [1, 1, 1]
          { append := { status := .ioError "no space" } } = some ((.ok, wb₁), s₁)
      ∧ ¬ oneWorker.Stored s₁.dir (byteRecord 1) wb₁
      ∧ s₁.add oneWorker (.byte 2) [2, 2, 2] {} = some ((.ok, wb₂), s₂)
      ∧ ¬ oneWorker.Stored s₂.dir (byteRecord 2) wb₂
      ∧ oneWorkerInit.add oneWorker .empty [7, 7, 7] {} = some ((.ok, []), s₃)
      ∧ ¬ oneWorker.Stored s₃.dir { key := .empty, value := [7, 7, 7] } [] := by
  refine ⟨_, _, _, _, _, rfl, ?_, rfl, ?_, rfl, ?_⟩
  · -- the file ends where the record was to start
    intro h
    obtain ⟨file, plain, hfile, hread⟩ :=
      ForegroundBuilder.stored_singleton_iff.1
        (show oneWorker.Stored _ (byteRecord 1) [((byteRecord 1).key,
          .ofIndex oneWorker.codec.coding ⟨1, ⟨8, 15⟩⟩)] from h)
    obtain rfl : encodeFileHeader ++ [] = file := some.inj hfile
    exact @readRecord_torn oneWorker.codec encodeFileHeader [] 15 (by decide) (by decide) _ hread
  · intro h
    obtain ⟨file, plain, -, hread⟩ :=
      ForegroundBuilder.stored_singleton_iff.1
        (show oneWorker.Stored _ (byteRecord 2) [((byteRecord 2).key,
          .ofIndex oneWorker.codec.coding ⟨1, ⟨0, 0⟩⟩)] from h)
    exact readRecord_zero _ hread
  · rintro ⟨index, file, plain, hnone, -⟩
    cases hnone

end DiffKV
