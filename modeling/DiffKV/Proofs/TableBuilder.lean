/-
A table keeps the meaning of its entries.

The proof follows the builder through a run. `Files` is what holds of
its blob files between two entries: they are numbered from the counter
on, so none of them is a file the entries already point into; each
finished one has its footer and its size; the open one has room for a
footer. Files only grow (`Grows`), so a record once placed stays placed.
`Stands` says what an entry of the unfinished table will resolve to: an
old one as before, a new one as the record placed under its index.
`Finish` installs the files as sorted ones, and that is the type under
which a reader with the same `level_merge` takes the layout they were
written in.
-/
import DiffKV.TableBuilder
import DiffKV.Proofs.Layouts

namespace DiffKV

open Lib List BlobStorage Table BlobFileBuilder BlobRecord BlobIndex

variable {s s' : BlobStorage} {dir : BlobDir} {cfg : TableBuilderConfig}
  {b b' : TitanTableBuilder} {e : InternalEntry} {fs : BlobFileSet}
  {bytes count : Nat} {r : BlobRecord} {value : Bytes} {v : Resolved}

namespace TitanTableBuilder

-- ==== blob files

/-- The numbers of the builder's blob files. -/
def newNumbers (b : TitanTableBuilder) : List UInt64 :=
  b.finishedBlobs.map (·.fileNumber) ++ b.blob.toList.map (·.number)

theorem newNumbers_of_finished (hblob : b.blob = none) :
    b.newNumbers = b.finishedBlobs.map (·.fileNumber) := by
  unfold newNumbers
  rw [hblob]
  simp

/-- The builder's files in order, `count` entries and `bytes` bytes into
a run that started from the file set `fs` with storage `s` and the
directory `dir`. -/
structure Files (cfg : TableBuilderConfig) (fs : BlobFileSet) (dir : BlobDir)
    (s : BlobStorage) (b : TitanTableBuilder) (count bytes : Nat) :
    Prop where
  status : b.status = .ok
  storages : b.fileSet.columnFamilies = fs.columnFamilies
  next_le : fs.nextFileNumber ≤ b.fileSet.nextFileNumber
  le_next : b.fileSet.nextFileNumber.toNat ≤ fs.nextFileNumber.toNat + count
  kept : ∀ n, n < fs.nextFileNumber → b.dir.lookup n = dir.lookup n
  nodup : b.newNumbers.Nodup
  range : ∀ n ∈ b.newNumbers, fs.nextFileNumber ≤ n ∧ n < b.fileSet.nextFileNumber
  finished : ∀ m ∈ b.finishedBlobs, m.fileType = kSorted ∧ ∃ body,
    b.dir.lookup m.fileNumber = some (BlobFileBuilder.finish cfg.codec body)
      ∧ m.fileSize = UInt64.ofNat (BlobFileBuilder.finish cfg.codec body).length
      ∧ (BlobFileBuilder.finish cfg.codec body).length ≤ bytes
  opened : ∀ blob, b.blob = some blob → ∃ file,
    b.dir.lookup blob.number = some file ∧ file.length + kBlobFooterSize.toNat ≤ bytes
  encountered : ∀ n f, b.encounteredFiles.lookup n = some f → f = s.findFile n
  merging : ∀ n p, b.mergingFiles.lookup n = some p → s.newPrefetcher cfg.codec dir n = .ok p

/-- The files of the builder have only grown, and the table is the
same. -/
structure Grows (b b' : TitanTableBuilder) : Prop where
  files : ∀ n ∈ b.newNumbers, ∀ file, b.dir.lookup n = some file →
    ∃ tail, b'.dir.lookup n = some (file ++ tail)
  numbers : ∀ n ∈ b.newNumbers, n ∈ b'.newNumbers
  table : b'.table = b.table

theorem Grows.refl (b : TitanTableBuilder) : b.Grows b :=
  ⟨fun _ _ file h => ⟨[], by rwa [append_nil]⟩, fun _ h => h, rfl⟩

theorem Grows.trans {b'' : TitanTableBuilder} (h : b.Grows b')
    (h' : b'.Grows b'') : b.Grows b'' where
  files n hn file hfile := by
    obtain ⟨tail, hfile⟩ := h.files n hn file hfile
    obtain ⟨tail', hfile⟩ := h'.files n (h.numbers n hn) _ hfile
    exact ⟨tail ++ tail', by rwa [← append_assoc]⟩
  numbers n hn := h'.numbers n (h.numbers n hn)
  table := h'.table.trans h.table

section files

variable {blob : OpenBlobFile} {file : Bytes} {index : BlobIndex}

theorem Files.mono (h : Files cfg fs dir s b count bytes) {count' bytes' : Nat}
    (hcount : count ≤ count') (hbytes : bytes ≤ bytes') : Files cfg fs dir s b count' bytes' where
  status := h.status
  storages := h.storages
  next_le := h.next_le
  le_next := by have := h.le_next; omega
  kept := h.kept
  nodup := h.nodup
  range := h.range
  finished m hm := by
    obtain ⟨htype, body, hfile, hsize, hle⟩ := h.finished m hm
    exact ⟨htype, body, hfile, hsize, by omega⟩
  opened blob hblob := by
    obtain ⟨file, hfile, hle⟩ := h.opened blob hblob
    exact ⟨file, hfile, by omega⟩
  encountered := h.encountered
  merging := h.merging

/-- A new blob file is opened if there is none. -/
theorem Files.openBlobFile (h : Files cfg fs dir s b count bytes)
    (hcount : fs.nextFileNumber.toNat + count + 1 < 2 ^ 64) :
    Files cfg fs dir s b.openBlobFile.2 (count + 1) (bytes + 40)
      ∧ b.openBlobFile.2.blob = some b.openBlobFile.1 ∧ b.Grows b.openBlobFile.2 := by
  cases hblob : b.blob with
  | some blob =>
    have heq : b.openBlobFile = (blob, b) := by
      unfold TitanTableBuilder.openBlobFile
      rw [hblob]
    rw [heq]
    exact ⟨h.mono (by omega) (by omega), hblob, Grows.refl b⟩
  | none =>
    have heq : b.openBlobFile = ({ number := b.fileSet.nextFileNumber }, { b with
          fileSet := { b.fileSet with
            nextFileNumber := b.fileSet.nextFileNumber + 1 }
          blob := some { number := b.fileSet.nextFileNumber }
          dir := b.dir.insert b.fileSet.nextFileNumber create }) := by
      unfold TitanTableBuilder.openBlobFile
      rw [hblob]
      rfl
    have hle := h.le_next
    have hsucc : (b.fileSet.nextFileNumber + 1).toNat = b.fileSet.nextFileNumber.toNat + 1 := by
      exact Nat.mod_eq_of_lt (by
        show b.fileSet.nextFileNumber.toNat + 1 < 2 ^ 64
        omega)
    have hlt : b.fileSet.nextFileNumber < b.fileSet.nextFileNumber + 1 := by
      rw [UInt64.lt_iff_toNat_lt, hsucc]
      omega
    have hnumbers := newNumbers_of_finished hblob
    -- the number is new to the builder
    have hnew : ∀ n ∈ b.newNumbers, n ≠ b.fileSet.nextFileNumber := by
      rintro n hn rfl
      exact absurd (h.range _ hn).2 (UInt64.lt_irrefl _)
    have hlookup : ∀ n, n ≠ b.fileSet.nextFileNumber →
        (b.dir.insert b.fileSet.nextFileNumber create).lookup n = b.dir.lookup n := by
      intro n hn
      rw [lookup_insert, if_neg hn]
    rw [heq]
    refine ⟨⟨h.status, h.storages, ?_, ?_, ?_, ?_, ?_, ?_, ?_,
      h.encountered, h.merging⟩, rfl, ?_, ?_, rfl⟩
    · exact UInt64.le_trans h.next_le (UInt64.le_of_lt hlt)
    · show (b.fileSet.nextFileNumber + 1).toNat ≤ _
      omega
    · intro n hn
      rw [hlookup n fun heq => ?_]
      · exact h.kept n hn
      · rw [heq] at hn
        exact absurd h.next_le (UInt64.not_le.2 hn)
    · show (b.finishedBlobs.map (·.fileNumber) ++ [b.fileSet.nextFileNumber]).Nodup
      rw [← hnumbers, nodup_append]
      exact ⟨h.nodup, nodup_singleton _, fun n hn n' hn' =>
        mem_singleton.1 hn' ▸ hnew n hn⟩
    · intro n hn
      have hn : n ∈ b.finishedBlobs.map (·.fileNumber) ++ [b.fileSet.nextFileNumber] := hn
      rw [← hnumbers] at hn
      rcases mem_append.1 hn with hn | hn
      · exact ⟨(h.range n hn).1, UInt64.lt_trans (h.range n hn).2 hlt⟩
      · rw [mem_singleton.1 hn]
        exact ⟨h.next_le, hlt⟩
    · intro m hm
      obtain ⟨htype, body, hfile, hsize, hbody⟩ := h.finished m hm
      refine ⟨htype, body, ?_, hsize, by omega⟩
      refine (hlookup _ (hnew _ ?_)).trans hfile
      rw [hnumbers]
      exact mem_map_of_mem hm
    · intro blob hblob'
      cases hblob'
      refine ⟨create, ?_, ?_⟩
      · exact (lookup_insert ..).trans (if_pos rfl)
      · rw [create, encodeFileHeader_length]
        show 8 + 32 ≤ _
        omega
    · intro n hn file hfile
      exact ⟨[], by rw [append_nil]; exact (hlookup n (hnew n hn)).trans hfile⟩
    · intro n hn
      show n ∈ b.finishedBlobs.map (·.fileNumber) ++ _
      rw [← hnumbers]
      exact mem_append_left _ hn

/-- What appending to the open blob file leaves as it was. -/
theorem Files.lookup_append (h : Files cfg fs dir s b count bytes)
    (hblob : b.blob = some blob) (file : Bytes) :
    (∀ n, n < fs.nextFileNumber → (b.dir.insert blob.number file).lookup n = dir.lookup n)
      ∧ ∀ m ∈ b.finishedBlobs, (b.dir.insert blob.number file).lookup
        m.fileNumber = b.dir.lookup m.fileNumber := by
  have hmem : blob.number ∈ b.newNumbers := by
    unfold newNumbers
    rw [hblob]
    simp
  refine ⟨fun n hn => ?_, fun m hm => ?_⟩
  · rw [lookup_insert, if_neg]
    · exact h.kept n hn
    · rintro rfl
      exact absurd (h.range _ hmem).1 (UInt64.not_le.2 hn)
  · rw [lookup_insert, if_neg]
    -- a finished file is not the open one
    intro heq
    have hnodup := h.nodup
    unfold newNumbers at hnodup
    rw [hblob, nodup_append] at hnodup
    exact hnodup.2.2 _ (mem_map_of_mem hm) _ (by simp) heq

theorem grows_append (hfile : b.dir.lookup blob.number = some file)
    (tail : Bytes) (hdir : b'.dir = b.dir.insert blob.number (file ++ tail))
    (hnumbers : b'.newNumbers = b.newNumbers) (htable : b'.table = b.table) : b.Grows b' := by
  refine ⟨fun n _ file' hfile' => ?_, fun n hn => hnumbers ▸ hn, htable⟩
  rw [hdir, lookup_insert]
  split
  case isTrue heq =>
    rw [heq, hfile] at hfile'
    cases hfile'
    exact ⟨tail, rfl⟩
  case isFalse => exact ⟨[], by rwa [append_nil]⟩

/-- A record goes to the open blob file. -/
theorem Files.append (h : Files cfg fs dir s b count bytes)
    {blob' : OpenBlobFile} (hblob : b.blob = some blob) (hnumber : blob'.number = blob.number)
    (hfile : b.dir.lookup blob.number = some file) (tail : Bytes) : Files cfg fs dir s { b with
        dir := b.dir.insert blob.number (file ++ tail)
        blob := some blob' } count (bytes + tail.length)
      ∧ b.Grows { b with
        dir := b.dir.insert blob.number (file ++ tail)
        blob := some blob' } := by
  obtain ⟨hkept, hfinished⟩ := h.lookup_append hblob (file ++ tail)
  have hnumbers : newNumbers { b with
      dir := b.dir.insert blob.number (file ++ tail)
      blob := some blob' } = b.newNumbers := by
    unfold newNumbers
    rw [hblob]
    simp [hnumber]
  refine ⟨⟨h.status, h.storages, h.next_le, h.le_next, hkept,
    hnumbers ▸ h.nodup, hnumbers ▸ h.range, ?_, ?_, h.encountered, h.merging⟩,
    grows_append hfile tail rfl hnumbers rfl⟩
  · intro m hm
    obtain ⟨htype, body, hbody, hsize, hle⟩ := h.finished m hm
    exact ⟨htype, body, (hfinished m hm).trans hbody, hsize, by omega⟩
  · intro blob₁ hblob₁
    cases hblob₁
    obtain ⟨file', hfile', hle⟩ := h.opened blob hblob
    cases hfile.symm.trans hfile'
    refine ⟨file ++ tail, ?_, ?_⟩
    · rw [hnumber]
      exact (lookup_insert ..).trans (if_pos rfl)
    · rw [length_append]
      omega

/-- The open blob file is finished. -/
theorem Files.finishBlobFile (h : Files cfg fs dir s b count bytes) :
    Files cfg fs dir s (b.finishBlobFile cfg) count bytes ∧ b.Grows (b.finishBlobFile cfg)
      ∧ (b.finishBlobFile cfg).blob = none := by
  cases hblob : b.blob with
  | none =>
    have heq : b.finishBlobFile cfg = b := by
      unfold TitanTableBuilder.finishBlobFile
      rw [hblob]
    rw [heq]
    exact ⟨h, Grows.refl b, hblob⟩
  | some blob =>
    obtain ⟨file, hfile, hle⟩ := h.opened blob hblob
    let finished := BlobFileBuilder.finish cfg.codec file
    have heq : b.finishBlobFile cfg = { b with
        dir := b.dir.insert blob.number finished
        finishedBlobs := b.finishedBlobs ++ [finishedMeta cfg blob finished]
        blob := none } := by
      unfold TitanTableBuilder.finishBlobFile
      rw [hblob]
      dsimp only
      rw [hfile]
      rfl
    obtain ⟨hkept, hfinished⟩ := h.lookup_append hblob finished
    have hnumbers : newNumbers { b with
        dir := b.dir.insert blob.number finished
        finishedBlobs := b.finishedBlobs ++ [finishedMeta cfg blob finished]
        blob := none } = b.newNumbers := by
      unfold newNumbers
      rw [hblob]
      simp [finishedMeta]
    rw [heq]
    refine ⟨⟨h.status, h.storages, h.next_le, h.le_next, hkept,
      hnumbers ▸ h.nodup, hnumbers ▸ h.range, ?_, ?_, h.encountered,
      h.merging⟩, grows_append hfile _ rfl hnumbers rfl, rfl⟩
    · intro m hm
      rcases mem_append.1 hm with hm | hm
      · obtain ⟨htype, body, hbody, hsize, hle⟩ := h.finished m hm
        exact ⟨htype, body, (hfinished m hm).trans hbody, hsize, hle⟩
      · rw [mem_singleton.1 hm]
        refine ⟨rfl, file, ?_, rfl, ?_⟩
        · exact (lookup_insert ..).trans (if_pos rfl)
        · rw [BlobFileBuilder.finish, length_append, Codec.encodeFooter_length]
          exact hle
    · intro blob₁ hblob₁
      cases hblob₁

/-- The record lies in one of the builder's files. -/
def Written (cfg : TableBuilderConfig) (b : TitanTableBuilder)
    (index : BlobIndex) (r : BlobRecord) : Prop :=
  index.fileNumber ∈ b.newNumbers ∧ ∃ file,
    b.dir.lookup index.fileNumber = some file
      ∧ Placed cfg.codec cfg.compression (BlobWriter.tableBuilder.onlyValue cfg.cfOptions) file
        index.blobHandle r

theorem Written.grows (h : Written cfg b index r) (hg : b.Grows b') : Written cfg b' index r := by
  obtain ⟨hn, file, hfile, hplaced⟩ := h
  obtain ⟨tail, hfile'⟩ := hg.files _ hn file hfile
  exact ⟨hg.numbers _ hn, file ++ tail, hfile', hplaced.append tail⟩

/-- The base table is not part of what `Files` and `Written` look at. -/
theorem Files.emit (h : Files cfg fs dir s b count bytes)
    (e : InternalEntry) : Files cfg fs dir s (b.emit e) count bytes := { h with }

theorem Written.emit (h : Written cfg b index r) (e : InternalEntry) :
    Written cfg (b.emit e) index r := h

/-- The bytes a record adds to the builder's files at most: its own, and
the header and footer of a file. -/
def recordCost (cfg : TableBuilderConfig) (r : BlobRecord) : Nat :=
  49 + (r.encodeTo cfg.codec.coding (BlobWriter.tableBuilder.onlyValue cfg.cfOptions)).length

/-- `AddBlob` writes the record and returns its index. -/
theorem Files.addBlob (h : Files cfg fs dir s b count bytes)
    (hcount : fs.nextFileNumber.toNat + count + 1 < 2 ^ 64) (key : UserKey) (value : Bytes) :
    Files cfg fs dir s (b.addBlob cfg key value).2 (count + 1)
        (bytes + recordCost cfg { key, value }) ∧ b.Grows (b.addBlob cfg key value).2
      ∧ ∃ index, (b.addBlob cfg key value).1 = BlobIndex.encodeTo cfg.codec.coding index
        ∧ Written cfg (b.addBlob cfg key value).2 index { key, value } := by
  obtain ⟨h₁, hblob, hg₁⟩ := h.openBlobFile hcount
  obtain ⟨file, hfile, -⟩ := h₁.opened _ hblob
  let encoded := cfg.codec.encodeRecord cfg.compression
    (BlobWriter.tableBuilder.onlyValue cfg.cfOptions) { key, value }
  let blob' : OpenBlobFile := { b.openBlobFile.1 with
    numEntries := b.openBlobFile.1.numEntries + 1
    keyRange := BlobFile.extendRange cfg.cfOptions.comparator b.openBlobFile.1.keyRange key }
  let b₂ : TitanTableBuilder := { b.openBlobFile.2 with
    dir := b.openBlobFile.2.dir.insert b.openBlobFile.1.number (file ++ encoded.bytes)
    blob := some blob' }
  let index : BlobIndex := {
    fileNumber := b.openBlobFile.1.number
    blobHandle := {
      offset := UInt64.ofNat file.length
      size := encoded.getEncodedSize } }
  obtain ⟨h₂, hg₂⟩ : Files cfg fs dir s b₂ _ _ ∧ b.openBlobFile.2.Grows b₂ :=
    h₁.append hblob (show blob'.number = _ from rfl) hfile encoded.bytes
  have heq : b.addBlob cfg key value
      = (index.encodeTo cfg.codec.coding,
        if (file ++ encoded.bytes).length ≥ cfg.cfOptions.blobFileTargetSize
        then b₂.finishBlobFile cfg else b₂) := by
    unfold TitanTableBuilder.addBlob
    dsimp only
    rw [hfile]
    rfl
  have hwritten : Written cfg b₂ index { key, value } := by
    refine ⟨?_, file ++ encoded.bytes, ?_, placed_add file { key, value }⟩
    · show _ ∈ b₂.finishedBlobs.map _ ++ [b.openBlobFile.1.number]
      simp [index]
    · exact (lookup_insert ..).trans (if_pos rfl)
  have hcost : bytes + 40 + encoded.bytes.length ≤ bytes + recordCost cfg { key, value } := by
    have hle : encoded.record.length ≤ _ := cfg.codec.encodeRecord_record_length_le
    have hlen : encoded.bytes.length = 9 + encoded.record.length := encodeRecord_bytes_length
    unfold recordCost
    omega
  have h₂ := h₂.mono (Nat.le_refl _) hcost
  rw [heq]
  split
  case isTrue =>
    obtain ⟨h₃, hg₃, -⟩ := h₂.finishBlobFile
    exact ⟨h₃, (hg₁.trans hg₂).trans hg₃, index, rfl, hwritten.grows hg₃⟩
  case isFalse => exact ⟨h₂, hg₁.trans hg₂, index, rfl, hwritten⟩

end files

-- ==== entries

/-- An entry the builder can be given: it resolves, out of an installed
file if it is an index. -/
def Readable (cfg : TableBuilderConfig) (dir : BlobDir) (s : BlobStorage)
    (e : InternalEntry) : Prop :=
  match e.type with
  | .kTypeBlobIndex => ∃ index rest r,
      BlobIndex.decodeFrom cfg.codec.coding e.value = .ok (index, rest)
        ∧ s.findFile index.fileNumber ≠ none
        ∧ s.get cfg.codec dir index = .ok r
  | _ => True

/-- What an entry of the unfinished table will resolve to: what it
resolves to already, or the record written under its index. -/
inductive Stands (cfg : TableBuilderConfig) (dir : BlobDir) (s : BlobStorage)
    (b : TitanTableBuilder) : InternalEntry → Resolved → Prop where
  | old {e : InternalEntry} {v : Resolved} (hreadable : Readable cfg dir s e)
      (hv : e.resolve cfg.codec dir s = .ok v) : Stands cfg dir s b e v
  | written {e : InternalEntry} {index : BlobIndex} {r : BlobRecord}
      (htype : e.type = .kTypeBlobIndex)
      (hvalue : e.value = index.encodeTo cfg.codec.coding)
      (hwritten : Written cfg b index r)
      (hr : (r.encodeTo cfg.codec.coding
        (BlobWriter.tableBuilder.onlyValue cfg.cfOptions)).length < 2 ^ 32) :
      Stands cfg dir s b e (.value r.value)

theorem Stands.mono (hw : ∀ index r, Written cfg b index r → Written cfg b' index r)
    (h : Stands cfg dir s b e v) : Stands cfg dir s b' e v := by
  cases h with
  | old hreadable hv => exact .old hreadable hv
  | written htype hvalue hwritten hr =>
    exact .written htype hvalue (hw _ _ hwritten) hr

/-- The record an entry becomes if its value is written to a blob
file. -/
def recordOf (cfg : TableBuilderConfig) (dir : BlobDir) (s : BlobStorage)
    (e : InternalEntry) : Option BlobRecord :=
  match e.resolve cfg.codec dir s with
  | .ok (.value value) => some { key := e.userKey, value }
  | _ => none

/-- The encoded record fits the size field of its header. -/
def RecordFits (cfg : TableBuilderConfig) (dir : BlobDir) (s : BlobStorage)
    (e : InternalEntry) : Prop :=
  ∀ r, recordOf cfg dir s e = some r → (r.encodeTo cfg.codec.coding
    (BlobWriter.tableBuilder.onlyValue cfg.cfOptions)).length < 2 ^ 32

/-- The bytes an entry adds to the builder's files at most. -/
def cost (cfg : TableBuilderConfig) (dir : BlobDir) (s : BlobStorage) (e : InternalEntry) : Nat :=
  ((recordOf cfg dir s e).map (recordCost cfg)).getD 0

/-- What a read out of an installed file depends on. -/
theorem get_congr {K : Codec} {dir' : BlobDir} {index : BlobIndex}
    (hm : (s'.findFile index.fileNumber).map BlobFileMeta.uncharged
      = (s.findFile index.fileNumber).map BlobFileMeta.uncharged)
    (hinstalled : s.findFile index.fileNumber ≠ none) (hoptions : s'.cfOptions = s.cfOptions)
    (hdir : dir'.lookup index.fileNumber = dir.lookup index.fileNumber) :
    s'.get K dir' index = s.get K dir index
      ∧ s'.newPrefetcher K dir' index.fileNumber = s.newPrefetcher K dir index.fileNumber := by
  cases hfind : s.findFile index.fileNumber with
  | none => exact absurd hfind hinstalled
  | some m =>
    rw [hfind] at hm
    obtain ⟨m', hfind', hun⟩ := Option.map_eq_some_iff.1 hm
    have hnumber : m.fileNumber = index.fileNumber := key_of_find hfind
    have hnumber' : m'.fileNumber = index.fileNumber := key_of_find hfind'
    have hsize : m'.fileSize = m.fileSize := by
      show m'.uncharged.fileSize = m.uncharged.fileSize
      rw [hun]
    have htype : m'.fileType = m.fileType := by
      show m'.uncharged.fileType = m.uncharged.fileType
      rw [hun]
    unfold BlobStorage.get BlobStorage.newPrefetcher BlobDir.findFile onlyValue
    rw [hfind, hfind']
    dsimp only
    rw [hnumber, hnumber', hsize, htype, hoptions, hdir]
    exact ⟨rfl, rfl⟩

/-- The builder's files do not touch what the entries point into. -/
theorem Files.reads_kept (h : Files cfg fs dir s b count bytes)
    (hold : ∀ n, s.findFile n ≠ none → n < fs.nextFileNumber)
    {index : BlobIndex} (hinstalled : s.findFile index.fileNumber ≠ none) :
    s.get cfg.codec b.dir index = s.get cfg.codec dir index
      ∧ s.newPrefetcher cfg.codec b.dir index.fileNumber
        = s.newPrefetcher cfg.codec dir index.fileNumber :=
  get_congr rfl hinstalled rfl (h.kept _ (hold _ hinstalled))

theorem Readable.index (h : Readable cfg dir s e)
    (htype : e.type = .kTypeBlobIndex) : ∃ index rest r,
      decodeFrom cfg.codec.coding e.value = .ok (index, rest)
        ∧ s.findFile index.fileNumber ≠ none ∧ s.get cfg.codec dir index = .ok r
        ∧ e.resolve cfg.codec dir s = .ok (.value r.value)
        ∧ recordOf cfg dir s e = some { key := e.userKey, value := r.value } := by
  unfold Readable at h
  rw [htype] at h
  obtain ⟨index, rest, r, hindex, hinstalled, hget⟩ := h
  have hresolve : e.resolve cfg.codec dir s = .ok (.value r.value) := by
    unfold InternalEntry.resolve
    rw [htype]
    rw [hindex]
    dsimp only
    rw [hget]
    rfl
  refine ⟨index, rest, r, hindex, hinstalled, hget, hresolve, ?_⟩
  unfold recordOf
  rw [hresolve]

theorem Readable.resolves (h : Readable cfg dir s e) : ∃ v, e.resolve cfg.codec dir s = .ok v := by
  cases htype : e.type with
  | kTypeBlobIndex =>
    obtain ⟨-, -, r, -, -, -, hresolve, -⟩ := h.index htype
    exact ⟨_, hresolve⟩
  | kTypeValue => exact ⟨.value e.value, by rw [InternalEntry.resolve, htype]⟩
  | other code =>
    exact ⟨.other code e.value, by rw [InternalEntry.resolve, htype]⟩

/-- The file of an index, out of the cache or not, is the installed
one. -/
theorem Files.encounter (h : Files cfg fs dir s b count bytes) (n : UInt64) :
    (b.encounter s n).1 = s.findFile n ∧ Files cfg fs dir s (b.encounter s n).2 count bytes
      ∧ b.Grows (b.encounter s n).2 := by
  unfold TitanTableBuilder.encounter
  cases hlookup : b.encounteredFiles.lookup n with
  | some f => exact ⟨h.encountered n f hlookup, h, Grows.refl b⟩
  | none =>
    refine ⟨rfl, { h with encountered := ?_ },
      ⟨fun _ _ file hfile => ⟨[], by rwa [append_nil]⟩, fun _ hn => hn, rfl⟩⟩
    intro n' f hf
    rw [lookup_insert] at hf
    split at hf
    case isTrue heq =>
      cases hf
      rw [heq]
    case isFalse => exact h.encountered n' f hf

/-- The prefetcher of a file, out of the cache or not, is the one the
storage makes. -/
theorem Files.prefetcher (h : Files cfg fs dir s b count bytes) {n : UInt64}
    {p : BlobFilePrefetcher} (hp : s.newPrefetcher cfg.codec dir n = .ok p)
    (hp' : s.newPrefetcher cfg.codec b.dir n = .ok p) :
    ∃ b₁, b.prefetcher cfg s n = .ok (p, b₁) ∧ Files cfg fs dir s b₁ count bytes ∧ b.Grows b₁ := by
  unfold TitanTableBuilder.prefetcher
  cases hlookup : b.mergingFiles.lookup n with
  | some p' =>
    cases hp.symm.trans (h.merging n p' hlookup)
    exact ⟨b, rfl, h, Grows.refl b⟩
  | none =>
    rw [hp']
    refine ⟨_, rfl, { h with merging := ?_ },
      ⟨fun _ _ file hfile => ⟨[], by rwa [append_nil]⟩, fun _ hn => hn, rfl⟩⟩
    intro n' p' hf
    rw [lookup_insert] at hf
    split at hf
    case isTrue heq =>
      cases hf
      rw [heq]
      exact hp
    case isFalse => exact h.merging n' p' hf

-- ==== one entry

/-- `Add` of `e` gives the table an entry that stands for what `e`
resolves to. -/
def Adds (cfg : TableBuilderConfig) (fs : BlobFileSet) (dir : BlobDir)
    (s : BlobStorage) (b : TitanTableBuilder) (count bytes : Nat)
    (e : InternalEntry) (b' : TitanTableBuilder) : Prop :=
  ∃ b₁ e' v, b' = b₁.emit e' ∧ Files cfg fs dir s b₁ count bytes ∧ b.Grows b₁
    ∧ e'.userKey = e.userKey ∧ e'.sequence = e.sequence
    ∧ e.resolve cfg.codec dir s = .ok v ∧ Stands cfg dir s b₁ e' v

/-- An entry passed through. -/
theorem Files.adds_emit (h : Files cfg fs dir s b count bytes) (hreadable : Readable cfg dir s e) :
    Adds cfg fs dir s b (count + 1) (bytes + cost cfg dir s e) e (b.emit e) := by
  obtain ⟨v, hv⟩ := hreadable.resolves
  exact ⟨b, e, v, rfl, h.mono (Nat.le_succ _) (Nat.le_add_right _ _),
    Grows.refl b, rfl, rfl, hv, .old hreadable hv⟩

theorem separate_eq (cfg : TableBuilderConfig) (b : TitanTableBuilder)
    (e : InternalEntry) (value : Bytes) :
    b.separate cfg e value = (b.addBlob cfg e.userKey value).2.emit { e with
      type := .kTypeBlobIndex
      value := (b.addBlob cfg e.userKey value).1 } := rfl

/-- A value written to a blob file. -/
theorem Files.adds_separate (h : Files cfg fs dir s b count bytes)
    (hcount : fs.nextFileNumber.toNat + count + 1 < 2 ^ 64) (hfits : RecordFits cfg dir s e)
    (hv : e.resolve cfg.codec dir s = .ok (.value value)) :
    Adds cfg fs dir s b (count + 1) (bytes + cost cfg dir s e) e (b.separate cfg e value) := by
  have hrecord : recordOf cfg dir s e = some { key := e.userKey, value := value } := by
    unfold recordOf
    rw [hv]
  obtain ⟨h₁, hg, index, hindex, hwritten⟩ := h.addBlob hcount e.userKey value
  refine ⟨_, _, _, rfl, ?_, hg, rfl, rfl, hv, .written rfl hindex hwritten (hfits _ hrecord)⟩
  unfold cost
  rw [hrecord]
  exact h₁

/-- An index replaced by its value. -/
theorem Files.adds_ingest (h : Files cfg fs dir s b count bytes)
    (hold : ∀ n, s.findFile n ≠ none → n < fs.nextFileNumber)
    (hreadable : Readable cfg dir s e) (htype : e.type = .kTypeBlobIndex) :
    Adds cfg fs dir s b (count + 1) (bytes + cost cfg dir s e) e (b.ingest cfg s e) := by
  obtain ⟨index, rest, r, hindex, hinstalled, hget, hv, -⟩ := hreadable.index htype
  refine ⟨b, { e with type := .kTypeValue, value := r.value }, _, ?_,
    h.mono (Nat.le_succ _) (Nat.le_add_right _ _), Grows.refl b, rfl, rfl, hv, .old trivial rfl⟩
  unfold ingest
  rw [hindex]
  dsimp only
  rw [(h.reads_kept hold hinstalled).1, hget]

/-- An index whose value may be merged into a new file. -/
theorem Files.adds_merge (h : Files cfg fs dir s b count bytes)
    (hold : ∀ n, s.findFile n ≠ none → n < fs.nextFileNumber)
    (hcount : fs.nextFileNumber.toNat + count + 1 < 2 ^ 64)
    (hreadable : Readable cfg dir s e) (hfits : RecordFits cfg dir s e)
    (htype : e.type = .kTypeBlobIndex) :
    Adds cfg fs dir s b (count + 1) (bytes + cost cfg dir s e) e (b.merge cfg s e) := by
  obtain ⟨index, rest, r, hindex, hinstalled, hget, hv, -⟩ := hreadable.index htype
  obtain ⟨-, h₁, hg₁⟩ := h.encounter index.fileNumber
  -- whatever the later steps do, they start from the builder after the lookup
  have hadds : ∀ b', Adds cfg fs dir s (b.encounter s index.fileNumber).2
      (count + 1) (bytes + cost cfg dir s e) e b' →
      Adds cfg fs dir s b (count + 1) (bytes + cost cfg dir s e) e b' := by
    rintro b' ⟨b₁, e', v, heq, hfiles, hg, hrest⟩
    exact ⟨b₁, e', v, heq, hfiles, hg₁.trans hg, hrest⟩
  unfold merge
  rw [hindex]
  dsimp only
  split
  case isFalse => exact hadds _ (h₁.adds_emit hreadable)
  case isTrue =>
    obtain ⟨m, hm⟩ := Option.ne_none_iff_exists'.1 hinstalled
    have hprefetch := prefetch_eq_get cfg.codec dir hm
    rw [hget] at hprefetch
    unfold prefetch at hprefetch
    split at hprefetch
    case h_1 => cases hprefetch
    case h_2 p hp =>
      obtain ⟨b₂, heq, h₂, hg₂⟩ := h₁.prefetcher hp ((h₁.reads_kept hold hinstalled).2.trans hp)
      obtain ⟨b₃, e', v, heq₃, hfiles, hg₃, hrest⟩ := h₂.adds_separate hcount hfits hv
      rw [heq]
      dsimp only
      rw [hprefetch]
      exact hadds _ ⟨b₃, e', v, heq₃, hfiles, hg₂.trans hg₃, hrest⟩

/-- `Add`, whichever way the entry goes. -/
theorem Files.adds (h : Files cfg fs dir s b count bytes)
    (hold : ∀ n, s.findFile n ≠ none → n < fs.nextFileNumber)
    (hcount : fs.nextFileNumber.toNat + count + 1 < 2 ^ 64)
    (hreadable : Readable cfg dir s e) (hfits : RecordFits cfg dir s e) :
    Adds cfg fs dir s b (count + 1) (bytes + cost cfg dir s e) e (b.add cfg s e) := by
  unfold add
  rw [h.status]
  simp only [Status.isOk_ok, Bool.not_true, Bool.false_eq_true, if_false]
  split
  case isTrue hif =>
    simp only [Bool.and_eq_true, decide_eq_true_eq] at hif
    exact h.adds_ingest hold hreadable hif.1
  case isFalse =>
    split
    case isTrue hif =>
      simp only [Bool.and_eq_true, decide_eq_true_eq] at hif
      refine h.adds_separate hcount hfits ?_
      rw [InternalEntry.resolve, hif.1.1]
    case isFalse =>
      split
      case isTrue hif =>
        simp only [Bool.and_eq_true, decide_eq_true_eq] at hif
        exact h.adds_merge hold hcount hreadable hfits hif.1.1.1
      case isFalse => exact h.adds_emit hreadable

-- ==== whole tables

/-- The table entry stands for what the entry resolves to. -/
def Keeps (cfg : TableBuilderConfig) (dir : BlobDir) (s : BlobStorage)
    (b : TitanTableBuilder) (e e' : InternalEntry) : Prop :=
  e'.userKey = e.userKey ∧ e'.sequence = e.sequence
    ∧ ∃ v, e.resolve cfg.codec dir s = .ok v ∧ Stands cfg dir s b e' v

theorem Keeps.mono (hw : ∀ index r, Written cfg b index r → Written cfg b' index r)
    {e' : InternalEntry} (h : Keeps cfg dir s b e e') : Keeps cfg dir s b' e e' := by
  obtain ⟨hkey, hseq, v, hv, hstands⟩ := h
  exact ⟨hkey, hseq, v, hv, hstands.mono hw⟩

/-- The builder after some entries. -/
structure Built (cfg : TableBuilderConfig) (fs : BlobFileSet) (dir : BlobDir)
    (s : BlobStorage) (b : TitanTableBuilder) (entries : List InternalEntry) :
    Prop where
  files : Files cfg fs dir s b entries.length (entries.map (cost cfg dir s)).sum
  table : List.Forall₂ (Keeps cfg dir s b) entries b.table

/-- A builder as constructed. -/
theorem Built.start : Built cfg fs dir s { fileSet := fs, dir } [] where
  files :=
    { status := rfl
      storages := rfl
      next_le := UInt64.le_refl _
      le_next := Nat.le_refl _
      kept := fun _ _ => rfl
      nodup := nodup_nil
      range := fun _ hn => nomatch hn
      finished := fun _ hm => nomatch hm
      opened := fun _ hblob => nomatch hblob
      encountered := fun _ _ hf => nomatch hf
      merging := fun _ _ hp => nomatch hp }
  table := .nil

theorem Built.add {entries : List InternalEntry} (h : Built cfg fs dir s b entries)
    (hold : ∀ n, s.findFile n ≠ none → n < fs.nextFileNumber)
    (hcount : fs.nextFileNumber.toNat + entries.length + 1 < 2 ^ 64)
    (hreadable : Readable cfg dir s e) (hfits : RecordFits cfg dir s e) :
    Built cfg fs dir s (b.add cfg s e) (entries ++ [e]) := by
  obtain ⟨b₁, e', v, heq, hfiles, hg, hkey, hseq, hv, hstands⟩ :=
    h.files.adds hold hcount hreadable hfits
  rw [heq]
  constructor
  · rw [length_append, map_append, sum_append]
    exact hfiles.emit e'
  · show List.Forall₂ _ _ (b₁.table ++ [e'])
    rw [hg.table]
    refine rel_append (h.table.imp fun _ _ hk => hk.mono ?_)
      (.cons ⟨hkey, hseq, v, hv, hstands.mono fun _ _ hw => hw.emit e'⟩ .nil)
    exact fun _ _ hw => (hw.grows hg).emit e'

/-- A whole run of `Add`. -/
theorem Built.addAll (hold : ∀ n, s.findFile n ≠ none → n < fs.nextFileNumber)
    (entries : List InternalEntry) :
    ∀ (seen : List InternalEntry) (b : TitanTableBuilder), Built cfg fs dir s b seen →
      fs.nextFileNumber.toNat + (seen ++ entries).length < 2 ^ 64 →
      (∀ e ∈ entries, Readable cfg dir s e) → (∀ e ∈ entries, RecordFits cfg dir s e) →
      Built cfg fs dir s (addAll cfg s b entries) (seen ++ entries) := by
  induction entries with
  | nil =>
    intro seen b h _ _ _
    rwa [append_nil]
  | cons e entries ih =>
    intro seen b h hcount hreadable hfits
    have hsplit : seen ++ e :: entries = (seen ++ [e]) ++ entries := by simp
    have hadd := h.add hold (by simp at hcount; omega) (hreadable e (.head _)) (hfits e (.head _))
    rw [hsplit] at hcount ⊢
    exact ih (seen ++ [e]) _ hadd hcount (fun e' he' => hreadable e' (.tail _ he'))
      (fun e' he' => hfits e' (.tail _ he'))

/-- A record written lies in a file that is read in the layout it was
written in. -/
theorem Written.installed (h : Files cfg fs dir s b count bytes)
    (hblob : b.blob = none) (hbytes : bytes < 2 ^ 64) (hinstalls : s.Installs b.finishedBlobs s')
    (hmerge : s.cfOptions.levelMerge = cfg.cfOptions.levelMerge)
    {index : BlobIndex} (hwritten : Written cfg b index r) :
    ∃ m body, s'.findFile index.fileNumber = some m
      ∧ b.dir.lookup index.fileNumber = some (BlobFileBuilder.finish cfg.codec body)
      ∧ m.fileSize = UInt64.ofNat (BlobFileBuilder.finish cfg.codec body).length
      ∧ (BlobFileBuilder.finish cfg.codec body).length < 2 ^ 64
      ∧ s'.onlyValue m = BlobWriter.tableBuilder.onlyValue cfg.cfOptions
      ∧ Placed cfg.codec cfg.compression (BlobWriter.tableBuilder.onlyValue cfg.cfOptions)
        (BlobFileBuilder.finish cfg.codec body) index.blobHandle r := by
  obtain ⟨hn, file, hfile, hplaced⟩ := hwritten
  rw [newNumbers_of_finished hblob] at hn
  obtain ⟨m, hm, hmn⟩ := mem_map.1 hn
  obtain ⟨hsorted, body, hbody, hsize, hle⟩ := h.finished m hm
  obtain ⟨m', hm', hun⟩ := hinstalls.added m hm
  rw [hmn] at hbody hm'
  cases hfile.symm.trans hbody
  have hsize' : m'.fileSize = m.fileSize := by
    show m'.uncharged.fileSize = m.uncharged.fileSize
    rw [hun]
  have htype : m'.fileType = m.fileType := by
    show m'.uncharged.fileType = m.uncharged.fileType
    rw [hun]
  refine ⟨m', body, hm', hfile, hsize'.trans hsize, Nat.lt_of_le_of_lt hle hbytes, ?_, hplaced⟩
  unfold onlyValue BlobWriter.onlyValue
  rw [htype, hsorted, hinstalls.cfOptions, hmerge]
  simp

/-- An entry of the finished table resolves to what it stood for. -/
theorem Stands.resolve (h : Files cfg fs dir s b count bytes) (hblob : b.blob = none)
    (hold : ∀ n, s.findFile n ≠ none → n < fs.nextFileNumber)
    (hbytes : bytes < 2 ^ 64) (hinstalls : s.Installs b.finishedBlobs s')
    (hmerge : s.cfOptions.levelMerge = cfg.cfOptions.levelMerge)
    (hstands : Stands cfg dir s b e v) : e.resolve cfg.codec b.dir s' = .ok v := by
  cases hstands with
  | old hreadable hv =>
    cases htype : e.type with
    | kTypeBlobIndex =>
      obtain ⟨index, rest, r, hindex, hinstalled, hget, hv', -⟩ := hreadable.index htype
      cases hv.symm.trans hv'
      have hlt := hold _ hinstalled
      have hnew : index.fileNumber ∉ b.finishedBlobs.map (·.fileNumber) := by
        rw [← newNumbers_of_finished hblob]
        exact fun hn => absurd (h.range _ hn).1 (UInt64.not_le.2 hlt)
      have hget' := (get_congr (K := cfg.codec)
        (hinstalls.others _ hnew) hinstalled hinstalls.cfOptions (h.kept _ hlt)).1.trans hget
      unfold InternalEntry.resolve
      rw [htype]
      rw [hindex]
      dsimp only
      rw [hget']
      rfl
    | kTypeValue =>
      rw [InternalEntry.resolve, htype] at hv ⊢
      exact hv
    | other code =>
      rw [InternalEntry.resolve, htype] at hv ⊢
      exact hv
  | written htype hvalue hwritten hr =>
    obtain ⟨m, body, hm, hfile, hsize, hlen, hlayout, hplaced⟩ :=
      hwritten.installed h hblob hbytes hinstalls hmerge
    have hget := get_installed hm hfile hsize hlen hplaced hr
    rw [hlayout, decodeInto_encodeTo cfg.codec.coding hr] at hget
    unfold InternalEntry.resolve
    rw [htype]
    rw [hvalue, decodeFrom_encodeTo]
    dsimp only
    rw [hget]
    exact congrArg (fun v => Except.ok (Resolved.value v)) (stored_value ..)

theorem finish_dir (cfg : TableBuilderConfig) (b : TitanTableBuilder) :
    (b.finish cfg).dir = (b.finishBlobFile cfg).dir := rfl

theorem finish_table (cfg : TableBuilderConfig) (b : TitanTableBuilder) :
    (b.finish cfg).table = (b.finishBlobFile cfg).table := rfl

/-- `Finish` installs the files of the run. -/
theorem Files.finish (h : Files cfg fs dir s b count bytes)
    (hs : fs.getBlobStorage cfg.cfId = some s)
    (hold : ∀ n, s.findFile n ≠ none → n < fs.nextFileNumber) :
    (b.finish cfg).status = .ok
      ∧ ∃ s', (b.finish cfg).fileSet.getBlobStorage cfg.cfId = some s'
        ∧ s.Installs (b.finishBlobFile cfg).finishedBlobs s' := by
  obtain ⟨h₁, -, hblob⟩ := h.finishBlobFile
  have hstorage : (b.finishBlobFile cfg).fileSet.columnFamilies.lookup cfg.cfId = some s := by
    rw [h₁.storages]
    exact hs
  have hnumbers := newNumbers_of_finished hblob
  have hfresh : ∀ m ∈ (b.finishBlobFile cfg).finishedBlobs, s.findFile m.fileNumber = none := by
    intro m hm
    by_contra hne
    have hmem : m.fileNumber ∈ (b.finishBlobFile cfg).newNumbers := hnumbers ▸ mem_map_of_mem hm
    exact absurd (h₁.range _ hmem).1 (UInt64.not_le.2 (hold _ hne))
  have hinstalls := logAndApply_installs cfg.codec.coding hstorage (hnumbers ▸ h₁.nodup) hfresh
  have hedit : installEdit cfg (b.finishBlobFile cfg).finishedBlobs
      = { columnFamilyId := cfg.cfId
          addedFiles := (b.finishBlobFile cfg).finishedBlobs } := by
    unfold installEdit
    rw [BlobFileSet.foldl_addBlobFile]
    rfl
  rw [← hedit] at hinstalls
  exact hinstalls

/-- **Building a table preserves meaning.** After any sequence of `Add`
and `Finish`, the i-th entry of the base table has the user key and the
sequence number of the i-th entry given, and resolves to the same value.
The storage reads with the builder's `level_merge`, its files have
numbers below the counter, and the sizes and numbers fit their types. -/
theorem table_preserves_meaning (hs : fs.getBlobStorage cfg.cfId = some s)
    (hmerge : s.cfOptions.levelMerge = cfg.cfOptions.levelMerge)
    (hold : ∀ n, s.findFile n ≠ none → n < fs.nextFileNumber) {entries : List InternalEntry}
    (hreadable : ∀ e ∈ entries, Readable cfg dir s e)
    (hfits : ∀ e ∈ entries, RecordFits cfg dir s e)
    (hnumbers : fs.nextFileNumber.toNat + entries.length < 2 ^ 64)
    (hbytes : (entries.map (cost cfg dir s)).sum < 2 ^ 64)
    (hb : b = (addAll cfg s { fileSet := fs, dir } entries).finish cfg) :
    b.status = .ok ∧ ∃ s', b.fileSet.getBlobStorage cfg.cfId = some s'
      ∧ List.Forall₂ (fun e e' => e'.userKey = e.userKey ∧ e'.sequence = e.sequence
          ∧ ∃ v, e.resolve cfg.codec dir s = .ok v ∧ e'.resolve cfg.codec b.dir s' = .ok v)
        entries b.table := by
  subst hb
  have hbuilt : Built cfg fs dir s (addAll cfg s { fileSet := fs, dir } entries) entries :=
    Built.addAll hold entries [] _ Built.start hnumbers hreadable hfits
  obtain ⟨hfiles, hg, hblob⟩ := hbuilt.files.finishBlobFile
  obtain ⟨hok, s', hs', hinstalls⟩ := hbuilt.files.finish hs hold
  refine ⟨hok, s', hs', ?_⟩
  rw [finish_dir, finish_table, hg.table]
  refine hbuilt.table.imp fun e e' hk => ?_
  obtain ⟨hkey, hseq, v, hv, hstands⟩ := hk.mono fun _ _ hw => hw.grows hg
  exact ⟨hkey, hseq, v, hv, hstands.resolve hfiles hblob hold hbytes hinstalls hmerge⟩

/-- A compaction into a level at which sorted files are merged. -/
def mergingConfig : TableBuilderConfig where
  codec := trailingZeros
  cfOptions := { levelMerge := true, minBlobSize := 2 }
  targetLevel := 6
  mergeLevel := 5
  mergeLowLevel := false

/-- A value to separate, an index to merge and a deletion. -/
def threeEntries : List InternalEntry :=
  [{ userKey := .byte 1, sequence := 3, type := .kTypeValue,
     value := [5, 6, 7] },
    { userKey := .byte 2, sequence := 2, type := .kTypeBlobIndex,
      value := (soleIndex true).encodeTo base128 },
    { userKey := .byte 3, sequence := 1, type := .other 0,
      value := [] }]

/-- The table built from them. -/
def threeEntryTable : TitanTableBuilder :=
  (addAll mergingConfig (soleStorage true) { fileSet := soleFileSet true, dir := soleDir true }
    threeEntries).finish mergingConfig

theorem soleStorage_below (n : UInt64) (hn : (soleStorage true).findFile n ≠ none) :
    n < (soleFileSet true).nextFileNumber := by
  unfold soleStorage at hn
  rw [findFile_addBlobFile] at hn
  split at hn
  case isTrue heq =>
    subst heq
    decide
  case isFalse => exact absurd rfl hn

theorem threeEntryTable_preserved :
    threeEntryTable.table.map (·.type) = [.kTypeBlobIndex, .kTypeBlobIndex, .other 0]
      ∧ ∃ s', threeEntryTable.fileSet.getBlobStorage 0 = some s'
        ∧ List.Forall₂ (fun e e' => e'.userKey = e.userKey ∧ e'.sequence = e.sequence
            ∧ ∃ v, e.resolve trailingZeros (soleDir true) (soleStorage true) = .ok v
              ∧ e'.resolve trailingZeros threeEntryTable.dir s' = .ok v)
          threeEntries threeEntryTable.table := by
  have hget : (soleStorage true).get trailingZeros (soleDir true)
      (soleIndex true) = .ok { key := UserKey.empty, value := [0, 1, 7] } := by
    decide +kernel
  have hreadable : ∀ e ∈ threeEntries,
      Readable mergingConfig (soleDir true) (soleStorage true) e := by
    refine forall_mem_cons.2 ⟨trivial, forall_mem_cons.2
      ⟨⟨soleIndex true, [], _, ?_, ?_, hget⟩, ?_⟩⟩
    · exact decodeFrom_encodeTo base128 _
    · decide +kernel
    · exact forall_mem_singleton.2 trivial
  have hfits : ∀ e ∈ threeEntries,
      RecordFits mergingConfig (soleDir true) (soleStorage true) e := by
    have hall : ∀ e ∈ threeEntries, (recordOf mergingConfig (soleDir true)
        (soleStorage true) e).all fun r => decide ((r.encodeTo base128 true).length < 2 ^ 32) := by
      decide +kernel
    intro e he r hr
    have hr' := hall e he
    rw [hr] at hr'
    exact of_decide_eq_true hr'
  exact ⟨by decide +kernel, (table_preserves_meaning rfl rfl soleStorage_below
    hreadable hfits (by decide +kernel) (by decide +kernel) rfl).2⟩

/-- A flush into an empty column family, with the default options. -/
def flushConfig : TableBuilderConfig where
  codec := trailingZeros
  cfOptions := {}
  targetLevel := 0
  mergeLevel := 5
  mergeLowLevel := false

def emptyStorage : BlobStorage := { dbOptions := {}, cfOptions := {} }

def emptyFileSet : BlobFileSet where
  dbOptions := {}
  columnFamilies := Table.empty.insert 0 emptyStorage
  nextFileNumber := 1

def flushBuilder : TitanTableBuilder where
  fileSet := emptyFileSet
  dir := Table.empty

/-- An entry to separate. -/
def inlineEntry (value : Bytes) : InternalEntry where
  userKey := UserKey.byte 1
  sequence := 1
  type := .kTypeValue
  value := value

section largest

/- The largest value the base DB takes: with its key, the record is six
bytes too long for the size field, which is left with the remainder. -/
variable (hlength : value.length = 2 ^ 32 - 1)

include hlength

theorem encodeTo_largest :
    encodeTo base128 false { key := UserKey.byte 1, value }
      = [1, 1, 255, 255, 255, 255] ++ 15 :: value := by
  have hput : base128.putVarint32 (UInt32.ofNat (2 ^ 32 - 1))
      = [255, 255, 255, 255, 15] := by decide +kernel
  show _ ++ (base128.putVarint32 (UInt32.ofNat value.length) ++ value) = _
  rw [hlength, hput]
  rfl

theorem decodeRecord_largest :
    flushConfig.codec.decodeRecord
        (flushConfig.codec.headerOf flushConfig.compression
          (BlobWriter.tableBuilder.onlyValue flushConfig.cfOptions)
          { key := UserKey.byte 1, value })
        (BlobWriter.tableBuilder.onlyValue flushConfig.cfOptions)
        (flushConfig.codec.encodeRecord flushConfig.compression
          (BlobWriter.tableBuilder.onlyValue flushConfig.cfOptions)
          { key := UserKey.byte 1, value }).record
      = .error (.corruption "BlobRecord") := by
  have htake : ([1, 1, 255, 255, 255, 255] ++ 15 :: value).take
      (UInt32.ofNat ([1, 1, 255, 255, 255, 255] ++ 15 :: value).length).toNat
      = [1, 1, 255, 255, 255, 255] := by
    rw [length_append, length_cons (a := 15), hlength]
    exact take_left' (by decide +kernel)
  have hdecode : decodeInto base128 false
      [1, 1, 255, 255, 255, 255] = .error (.corruption "BlobRecord") := rfl
  rw [← htake, ← encodeTo_largest hlength] at hdecode
  have hinput : decodeInto trailingZeros.coding false
      ((trailingZeros.encodeRecord .kNoCompression false
          { key := UserKey.byte 1, value }).record.take
        (trailingZeros.headerOf .kNoCompression false
          { key := UserKey.byte 1, value }).recordSize.toNat)
      = .error (.corruption "BlobRecord") := hdecode
  show trailingZeros.decodeRecord (trailingZeros.headerOf .kNoCompression
    false _) false (trailingZeros.encodeRecord .kNoCompression false _).record = _
  have hplain : (trailingZeros.headerOf .kNoCompression false
    { key := UserKey.byte 1, value }).compression = .kNoCompression := rfl
  unfold Codec.decodeRecord
  rw [if_pos hplain, hinput]

/-- The largest value goes to a blob file. -/
theorem addAll_largest :
    addAll flushConfig emptyStorage flushBuilder [inlineEntry value]
      = flushBuilder.separate flushConfig (inlineEntry value) value := by
  have hlarge : flushConfig.cfOptions.minBlobSize ≤ value.length := by
    rw [hlength]
    decide +kernel
  show add flushConfig emptyStorage flushBuilder (inlineEntry value) = _
  unfold add
  rw [if_neg (by decide), if_neg, if_pos]
  · rfl
  · simpa [inlineEntry] using ⟨hlarge, rfl⟩
  · simp [inlineEntry]

theorem recordCost_largest : recordCost flushConfig { key := UserKey.byte 1, value } < 2 ^ 64 := by
  show 49 + (encodeTo base128 false _).length < _
  rw [encodeTo_largest hlength, length_append, length_cons (a := 15), hlength]
  decide +kernel

end largest

/-- The largest value is written to a blob file, and the file is
installed, but the record is not readable any more. -/
theorem largest_value_lost :
    ∃ value b s' e', value.length = 2 ^ 32 - 1
      ∧ b = (addAll flushConfig emptyStorage flushBuilder [inlineEntry value]).finish flushConfig
      ∧ b.status = .ok ∧ b.fileSet.getBlobStorage 0 = some s' ∧ b.table = [e']
      ∧ (inlineEntry value).resolve flushConfig.codec flushBuilder.dir
        emptyStorage = .ok (.value value)
      ∧ e'.resolve flushConfig.codec b.dir s' = .error (.corruption "BlobRecord") := by
  obtain ⟨value, hlength⟩ : ∃ value : Bytes, value.length = 2 ^ 32 - 1 :=
    ⟨replicate (2 ^ 32 - 1) 0, length_replicate⟩
  have hold : ∀ n, emptyStorage.findFile n ≠ none →
      n < emptyFileSet.nextFileNumber := fun _ hn => absurd rfl hn
  have hstart : Built flushConfig emptyFileSet empty emptyStorage flushBuilder [] := Built.start
  obtain ⟨b, hb⟩ : ∃ b, b = flushBuilder.separate flushConfig (inlineEntry value) value := ⟨_, rfl⟩
  obtain ⟨index, hfiles, hwritten, htable⟩ : ∃ index,
      Files flushConfig emptyFileSet empty emptyStorage b 1
        (recordCost flushConfig { key := UserKey.byte 1, value })
      ∧ Written flushConfig b index { key := UserKey.byte 1, value }
      ∧ b.table = [{ inlineEntry value with
          type := .kTypeBlobIndex
          value := index.encodeTo flushConfig.codec.coding }] := by
    obtain ⟨h₁, hg₁, index, hindex, hwritten⟩ :=
      hstart.files.addBlob (by decide +kernel) (UserKey.byte 1) value
    have h₁ := h₁.mono (Nat.le_refl _) (Nat.le_of_eq (Nat.zero_add _))
    rw [hb, separate_eq]
    refine ⟨index, h₁.emit _, hwritten.emit _, ?_⟩
    rw [← hindex]
    exact congrArg (· ++ [_]) hg₁.table
  obtain ⟨hfinished, hg, hblob⟩ := hfiles.finishBlobFile
  obtain ⟨hok, s', hs', hinstalls⟩ := hfiles.finish rfl hold
  obtain ⟨m, body, hm, hfile, hsize, hlen, hlayout, hplaced⟩ :=
    (hwritten.grows hg).installed hfinished hblob (recordCost_largest hlength) hinstalls rfl
  have hget := get_eq_readRecord hm hfile hsize hlen
  rw [hlayout, hplaced.readRecord_decode hlen, decodeRecord_largest hlength] at hget
  refine ⟨value, b.finish flushConfig, s', _, hlength,
    by rw [hb, addAll_largest hlength], hok, hs', hg.table.trans htable, rfl, ?_⟩
  unfold InternalEntry.resolve
  rw [decodeFrom_encodeTo]
  dsimp only
  rw [finish_dir, hget]
  rfl

end TitanTableBuilder

end DiffKV
