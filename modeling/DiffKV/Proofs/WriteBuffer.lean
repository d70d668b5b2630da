/-
Reading back acknowledged Puts while their files are being written, with
`sep_before_flush`.

A record that is still in the buffer of its writer cannot be read. When
it leaves the buffer depends on the sizes of the records appended to the
same file (`Settled`): the record is larger than the buffer, or a later
one did not fit. Along a run every file is laid out as its appends
(`Laid`), so the place of a record is what was appended before it.
-/
import DiffKV.WriteBuffer
import DiffKV.Proofs.Durability

namespace DiffKV

open Lib List BlobFileSet Option LsmEntry Db

variable {cfg : Config} {db db' : Db} {n : UInt64} {r record : BlobRecord}
  {value : Bytes} {f : BlobFile} {result : Except Status UInt64}
  {created : Bool} {key : UserKey}

-- ==== the layout of files

namespace BlobFile

variable {handle : BlobHandle}

/-- The records lie where they were appended. -/
structure Laid (f : BlobFile) : Prop where
  size : f.size.toNat = kBlobHeaderSize.toNat + (recordSizes f.records).sum
  record : ∀ {before h r after}, f.records = before ++ (h, r) :: after →
    h.offset.toNat = kBlobHeaderSize.toNat + (recordSizes before).sum ∧ 0 < h.size.toNat

theorem laid_header : header.Laid where
  size := rfl
  record {before _ _ _} h := by
    cases before <;> cases h

theorem toNat_add_of_lt {a b : UInt64} (h : a < a + b) :
    (a + b).toNat = a.toNat + b.toNat ∧ 0 < b.toNat := by
  rw [UInt64.lt_iff_toNat_lt, UInt64.toNat_add] at h
  have hb := b.toNat_lt
  rw [UInt64.toNat_add]
  omega

theorem Laid.add {f' : BlobFile} {encodedSize : BlobRecord → UInt64}
    (h : f.Laid) (hadd : f.add encodedSize r = some (handle, f')) : f'.Laid := by
  unfold BlobFile.add at hadd
  split at hadd
  case isFalse => cases hadd
  case isTrue hlt =>
    cases hadd
    obtain ⟨hsize, hpos⟩ := toNat_add_of_lt hlt
    refine ⟨?_, fun {before h' r' after} hsplit => ?_⟩
    · rw [hsize, h.size, recordSizes, recordSizes, map_append, sum_append, Nat.add_assoc]
      rfl
    · rcases eq_nil_or_concat after with rfl | ⟨rest, last, rfl⟩
      · -- the new record
        obtain ⟨hbefore, hlast⟩ := append_inj' hsplit rfl
        cases hlast
        exact ⟨hbefore ▸ h.size, hpos⟩
      · rw [concat_eq_append, ← cons_append, ← append_assoc] at hsplit
        obtain ⟨hbefore, -⟩ := append_inj' hsplit rfl
        exact h.record hbefore

/-- The record has left the buffer of the file's writer: it is larger
than the buffer, or one of the records behind it did not fit. -/
def Settled (f : BlobFile) (h : BlobHandle) : Prop :=
  ∃ before r after, f.records = before ++ (h, r) :: after
    ∧ (writableFileMaxBufferSize < h.size.toNat
      ∨ BufferedWriter.overflows writableFileMaxBufferSize
        (writerOf (before ++ [(h, r)])).buffered (recordSizes after) = true)

theorem writerOf_append (records : List (BlobHandle × BlobRecord))
    (h : BlobHandle) (r : BlobRecord) :
    writerOf (records ++ [(h, r)]) = (writerOf records).append h.size.toNat := by
  unfold writerOf recordSizes BufferedWriter.appendAll
  rw [map_append, foldl_append]
  rfl

/-- The bytes of a record are written out exactly if it has left the
buffer. -/
theorem Laid.written_iff (h : f.Laid) {before after : List (BlobHandle × BlobRecord)}
    (hsplit : f.records = before ++ (handle, r) :: after) :
    handle.offset.toNat + handle.size.toNat ≤ (writerOf f.records).written
      ↔ writableFileMaxBufferSize < handle.size.toNat
        ∨ BufferedWriter.overflows writableFileMaxBufferSize
          (writerOf (before ++ [(handle, r)])).buffered (recordSizes after) = true := by
  obtain ⟨hoffset, hpos⟩ := h.record hsplit
  have hsize : (writerOf (before ++ [(handle, r)])).size
      = handle.offset.toNat + handle.size.toNat := by
    rw [writerOf_append, BufferedWriter.size_append, hoffset]
    unfold writerOf
    rw [BufferedWriter.size_appendAll, BufferedWriter.size_append]
    exact congrArg (· + _ + _) (Nat.zero_add _)
  have hwriter : writerOf f.records
      = (writerOf (before ++ [(handle, r)])).appendAll (recordSizes after) := by
    rw [hsplit, append_cons]
    unfold writerOf recordSizes BufferedWriter.appendAll
    rw [map_append, foldl_append]
  rw [hwriter, ← hsize, BufferedWriter.size_le_written_iff, writerOf_append,
    BufferedWriter.buffered_append_eq_zero _ hpos]

/-- A record of the file is written out exactly if it has settled. -/
theorem Laid.written_iff_settled (h : f.Laid) (hmem : (handle, r) ∈ f.records) :
    handle.offset.toNat + handle.size.toNat ≤ (writerOf f.records).written ↔ f.Settled handle := by
  obtain ⟨before, after, hsplit⟩ := append_of_mem hmem
  constructor
  · exact fun hle => ⟨before, r, after, hsplit, (h.written_iff hsplit).1 hle⟩
  · rintro ⟨before', r', after', hsplit', hcond⟩
    exact (h.written_iff hsplit').2 hcond

/-- And it lies within the file. -/
theorem Laid.end_le_size (h : f.Laid) (hmem : (handle, r) ∈ f.records) :
    handle.offset.toNat + handle.size.toNat ≤ f.size.toNat := by
  obtain ⟨before, after, hsplit⟩ := append_of_mem hmem
  rw [(h.record hsplit).1, h.size, hsplit]
  unfold recordSizes
  rw [map_append, map_cons, sum_append, sum_cons]
  dsimp only
  omega

end BlobFile

-- ==== a run

/-- Every file of the directory is laid out as its appends. -/
def Db.LaidOut (db : Db) : Prop :=
  ∀ n file, db.disk.lookup n = some file → file.Laid

namespace Db.LaidOut

theorem create (cfg : Config) : (create cfg).LaidOut := by
  intro n file hfile
  have hnone : (Db.create cfg).disk.lookup n = none := rfl
  cases hnone.symm.trans hfile

theorem of_disk (h : db.LaidOut) (hdisk : db'.disk = db.disk) : db'.LaidOut := by
  unfold Db.LaidOut
  rw [hdisk]
  exact h

theorem insert (h : db.LaidOut) {file : BlobFile} (hfile : file.Laid)
    (hdisk : db'.disk = db.disk.insert n file) : db'.LaidOut := by
  intro k f hf
  rw [hdisk, Table.lookup_insert] at hf
  split at hf
  · cases hf
    exact hfile
  · exact h k f hf

theorem newFile (h : db.LaidOut)
    (hnew : db.newFile created = some (result, db')) : db'.LaidOut := by
  unfold Db.newFile at hnew
  dsimp only at hnew
  split at hnew
  case isFalse => cases hnew
  case isTrue =>
    split at hnew
    · cases hnew
      exact h.insert BlobFile.laid_header rfl
    · cases hnew
      exact h.of_disk rfl

theorem append (h : db.LaidOut) {index : BlobIndex}
    (happend : db.append cfg n record = some (index, db')) : db'.LaidOut := by
  unfold Db.append at happend
  split at happend
  case h_1 => cases happend
  case h_2 file hfile =>
    split at happend
    case h_1 => cases happend
    case h_2 handle file' hadd =>
      cases happend
      exact h.insert ((h n file hfile).add hadd) rfl

end Db.LaidOut

theorem disk_finishBlob (b : Nat) : (db.finishBlob cfg b).disk = db.disk := by
  unfold finishBlob
  repeat' split
  all_goals rfl

theorem disk_flushShard (b : Nat) : (db.flushShard cfg b).disk = db.disk := by
  unfold flushShard
  dsimp only
  split
  · exact disk_finishBlob b
  · split
    · exact disk_finishBlob b
    · exact disk_finishBlob b

namespace Db.LaidOut

variable {b : Nat}

theorem openFile (h : db.LaidOut)
    (hopen : db.openFile cfg b created = some (result, db')) : db'.LaidOut := by
  unfold Db.openFile at hopen
  split at hopen
  case h_1 => cases hopen
  case h_2 shard _ =>
    split at hopen
    case h_1 =>
      cases hopen
      exact h
    case h_2 =>
      split at hopen
      case h_1 => cases hopen
      case h_2 hnew =>
        cases hopen
        exact h.newFile hnew
      case h_3 hnew =>
        cases hopen
        exact (h.newFile hnew).of_disk rfl

theorem addRecord (h : db.LaidOut) {result : Except Status WriteBatch}
    (hadd : db.addRecord cfg b record created = some (result, db')) : db'.LaidOut := by
  unfold Db.addRecord at hadd
  split at hadd
  case h_1 => cases hadd
  case h_2 hopen =>
    cases hadd
    exact h.openFile hopen
  case h_3 number db₁ hopen =>
    split at hadd
    case h_1 => cases hadd
    case h_2 index db₂ happend =>
      cases hadd
      refine ((h.openFile hopen).append happend).of_disk ?_
      unfold rollOver
      split
      · rfl
      · split
        · exact disk_finishBlob b
        · rfl

theorem putAdd (h : db.LaidOut)
    (hput : db.putAdd cfg key value created = some db') : db'.LaidOut := by
  unfold Db.putAdd Db.builderAdd at hput
  split at hput
  case isFalse =>
    cases hput
    exact h.of_disk rfl
  case isTrue =>
    split at hput
    case h_1 => cases hput
    case h_2 result db₁ hbuilder =>
      cases hput
      have h₁ : db₁.LaidOut := by
        split at hbuilder
        · cases hbuilder
          exact h
        · split at hbuilder
          · cases hbuilder
            exact h.of_disk (disk_flushShard _)
          · exact h.addRecord hbuilder
      exact h₁.of_disk rfl

theorem step (h : db.LaidOut) {a : Action} (ha : a.isWrite = true)
    (hstep : db.step cfg a = some db') : db'.LaidOut := by
  cases a with
  | putAdd => exact h.putAdd hstep
  | putWrite i =>
    simp only [Db.step, Db.putWrite] at hstep
    split at hstep
    · cases hstep
    · cases hstep
      exact h.of_disk rfl
  | flushShard b =>
    cases hstep
    exact h.of_disk (disk_flushShard b)
  | flushCompleted =>
    cases hstep
    exact h.of_disk rfl
  | delete | gcPick | gcStep | takeSnapshot | releaseSnapshot | purgeRead
  | purgeApply => cases ha

end Db.LaidOut

-- ==== reads

/-- If the file of the blob index is the open one of a builder, the
record has left the buffer of its writer. -/
def Db.Settled (db : Db) (i : BlobIndex) : Prop :=
  db.isOpen i.fileNumber = true → ∀ file ∈ db.disk.lookup i.fileNumber, file.Settled i.blobHandle

/-- The blob index of the key, if it has one, points at a record that is
not in a buffer, and the value is not one that `ForegroundBuilder::Add`
drops. -/
def Db.WrittenOut (cfg : Config) (db : Db) (key : UserKey) (value : Bytes) :
    Prop :=
  (key.isEmpty && cfg.separates value) = false ∧ ∀ {i}, db.Points cfg key i → db.Settled i

section reads

variable {i : BlobIndex} {st : BlobStorage} {inputs hidden : List UInt64}

/-- A read that returns the record of the blob index if it has left the
buffer of its writer, and fails otherwise. -/
def Db.ReadsIfSettled (db : Db) (i : BlobIndex) (result : Except Status BlobRecord) : Prop :=
  ∀ r, db.record i = some r →
    (db.Settled i → result = .ok r) ∧ (¬ db.Settled i → ∃ s, result = .error s)

theorem readBuildingFile_reads (hlaid : db.LaidOut) (i : BlobIndex) :
    db.ReadsIfSettled i (db.readBuildingFile i) := by
  intro r hrec
  obtain ⟨file, hfile, hfind⟩ := bind_eq_some_iff.1 hrec
  have hmem := BlobFile.mem_of_find hfind
  have hfileLaid := hlaid _ _ hfile
  obtain ⟨before, after, hsplit⟩ := append_of_mem hmem
  have hpos := (hfileLaid.record hsplit).2
  -- the record is visible
  have hvisible : i.blobHandle.offset.toNat + i.blobHandle.size.toNat
      ≤ db.visibleSize i.fileNumber file ↔ db.Settled i := by
    unfold visibleSize Db.Settled
    rw [hfile]
    cases db.isOpen i.fileNumber with
    | false =>
      exact iff_of_true (hfileLaid.end_le_size hmem) fun h => nomatch h
    | true =>
      rw [if_pos rfl, hfileLaid.written_iff_settled hmem]
      simp
  unfold readBuildingFile
  rw [hfile, ← hvisible]
  dsimp only
  split
  case isTrue hshort =>
    refine ⟨fun hle => absurd ?_ hshort, fun _ => ⟨_, rfl⟩⟩
    omega
  case isFalse hall =>
    refine ⟨fun _ => readFile_of_record hrec, fun hle => absurd ?_ hle⟩
    omega

/-- A Get of a key that has a blob index. -/
theorem getVisible_ofIndex (hst : db.storage cfg = some st)
    (hentry : db.lsm.lookup key = some (ofIndex cfg.coding i)) :
    db.getVisible cfg key = (db.storageGetVisible cfg st i).map (·.value) := by
  obtain ⟨hb, rest, hd⟩ := blobIndex_eq_some_iff.1 (blobIndex_ofIndex cfg.coding i)
  unfold getVisible
  rw [hentry]
  dsimp only
  rw [if_neg (by simp [hb]), hd]
  rw [hst]

/-- The open file of a builder is being built. -/
theorem building_of_isOpen (hfiling : Filing cfg db inputs hidden)
    (hopen : db.isOpen n = true) : db.building cfg n = true := by
  obtain ⟨shard, hshard, hhandle⟩ := any_eq_true.1 hopen
  refine hfiling.shards_building (mem_flatMap.2 ⟨shard, hshard, ?_⟩)
  have hhandle : shard.handle = some n := of_decide_eq_true hhandle
  unfold Shard.numbers
  rw [hhandle]
  simp

/-- `BlobStorage::Get` of a blob index that may be used. -/
theorem storageGetVisible_reads (hfiling : Filing cfg db inputs hidden)
    (hsep : cfg.dbOptions.sepBeforeFlush = true) (hlaid : db.LaidOut)
    (husable : db.usable cfg i.fileNumber = true) (hst : db.storage cfg = some st) :
    db.ReadsIfSettled i (db.storageGetVisible cfg st i) := by
  have hst' : db.fileSet.columnFamilies.lookup cfg.cfId = some st := hst
  unfold storageGetVisible
  dsimp only
  cases hfile : st.findFile i.fileNumber with
  | some m =>
    have hinst : db.installed cfg i.fileNumber = true := by
      unfold Db.installed file
      rw [hst', bind_some, hfile]
      rfl
    -- installed, so not open in a builder
    have hsettled : db.Settled i := by
      intro hopen
      have hnew := hfiling.building_new (building_of_isOpen hfiling hopen)
      exact absurd (hnew.1.symm.trans hinst) Bool.false_ne_true
    exact fun r hrec => ⟨fun _ => readFile_of_record hrec, fun hnot => absurd hsettled hnot⟩
  | none =>
    have hbuilding : st.findBuildingFile i.fileNumber = true := by
      rcases usable_iff.1 husable with hb | hlive
      · obtain ⟨st₁, hst₁, hb⟩ := building_iff.1 hb
        cases hst'.symm.trans hst₁
        exact hb
      · have hinst := file_of_live (Filing.live_iff.1 hlive)
        unfold file at hinst
        rw [hst', bind_some] at hinst
        exact absurd hfile hinst
    rw [if_pos hsep, if_pos hbuilding]
    exact readBuildingFile_reads hlaid i

/-- A stored value is read exactly if it was written out. -/
theorem Db.Stores.getVisible_iff (hstores : db.Stores cfg key value)
    (hfiling : Filing cfg db inputs hidden)
    (hsep : cfg.dbOptions.sepBeforeFlush = true) (hlaid : db.LaidOut)
    (hempty : key.isEmpty = true → ∀ entry, db.lsm.lookup key = some entry →
      entry.isBlobIndex = false ∧ cfg.separates entry.value = false) :
    db.getVisible cfg key = .ok value ↔ db.WrittenOut cfg key value := by
  cases hstores with
  | skipped hkey hlarge =>
    refine iff_of_false (fun hget => ?_) fun hout => ?_
    · unfold getVisible at hget
      cases hentry : db.lsm.lookup key with
      | none =>
        rw [hentry] at hget
        cases hget
      | some entry =>
        obtain ⟨hinline, hsmall⟩ := hempty hkey entry hentry
        rw [hentry] at hget
        dsimp only at hget
        rw [if_pos (by simp [hinline])] at hget
        cases hget
        exact absurd (hsmall.symm.trans hlarge) Bool.false_ne_true
    · have hdropped := hout.1
      rw [hkey, hlarge] at hdropped
      cases hdropped
  | inLine hentry hkey =>
    refine iff_of_true ?_ ⟨?_, fun {i} hpoints => ?_⟩
    · unfold getVisible
      rw [hentry]
      rfl
    · cases hk : key.isEmpty with
      | false => rfl
      | true => exact hkey hk
    · obtain ⟨entry, he, hi⟩ := hpoints
      cases hentry.symm.trans he
      cases hi
  | blob i hentry hkey hrec husable =>
    obtain ⟨st, hst, -⟩ := hfiling.opened
    obtain ⟨hread, hfails⟩ := storageGetVisible_reads hfiling hsep hlaid husable hst _ hrec
    have hout : db.WrittenOut cfg key value ↔ db.Settled i := by
      refine ⟨fun h => h.2 ⟨_, hentry, blobIndex_ofIndex ..⟩,
        fun h => ⟨by rw [hkey, Bool.false_and], fun {j} hpoints => ?_⟩⟩
      obtain ⟨entry, he, hj⟩ := hpoints
      cases hentry.symm.trans he
      cases (blobIndex_ofIndex cfg.coding i).symm.trans hj
      exact h
    rw [hout, getVisible_ofIndex hst hentry]
    by_cases hsettled : db.Settled i
    case pos =>
      rw [hread hsettled]
      exact iff_of_true rfl hsettled
    case neg =>
      obtain ⟨s, hs⟩ := hfails hsettled
      rw [hs]
      exact iff_of_false nofun hsettled

end reads

-- ==== runs

/-- Every record takes 3000 bytes. -/
def Config.large : Config :=
  { Config.small with encodedSize := fun _ => 3000 }

/-- Two keys are written. -/
def putTwoKeys : List Action :=
  putOnce ++ [.putAdd (.byte 2) [8] true, .putWrite 0]

/-- The records of their file. -/
def twoKeysRecords : List (BlobHandle × BlobRecord) :=
  [({ offset := 8, size := 3000 }, { key := .byte 1, value := [7] }),
    ({ offset := 3008, size := 3000 }, { key := .byte 2, value := [8] })]

end DiffKV
