/-
What the output files of a GC job are to the rest of the database.

A read depends on the directory and on the state of the files with old
numbers (`SameBelow`). A job leaves both as they are: it appends to files with
new numbers only. A copy goes through as long as there are file numbers
and the records fit into a file (`Room`); these are the only counters
that could overflow.
-/
import DiffKV.Proofs.GcFinish
import DiffKV.Proofs.LostUpdate

namespace DiffKV

open Lib List BlobFileSet Table Filing

variable {cfg : Config} {db db' db'' : Db} {inputs : List UInt64}
  {todo : List (BlobIndex × BlobRecord)} {bound : UInt64}
  {outputs : List UInt64} {size : Nat} {r : BlobRecord}

-- ==== statements

/-- The bytes the records take. -/
def totalSize (cfg : Config) (todo : List (BlobIndex × BlobRecord)) : Nat :=
  (todo.map fun p => (cfg.encodedSize p.2).toNat).sum

/-- No 64-bit counter overflows: there are file numbers for the output
files, and the records fit into one file. An encoded record is not
empty. -/
structure Db.Room (cfg : Config) (db : Db) (todo : List (BlobIndex × BlobRecord)) : Prop where
  /-- `DoRunGC` would store the null builder it starts with -/
  target : 0 < cfg.cfOptions.blobFileTargetSize
  numbers : db.fileSet.nextFileNumber.toNat + todo.length < 2 ^ 64
  encoded : ∀ p ∈ todo, 0 < cfg.encodedSize p.2
  sizes : kBlobHeaderSize.toNat + totalSize cfg todo < 2 ^ 64

-- ==== what a read depends on

/-- The second state has the files with numbers below `bound` as the
first has them. -/
structure Db.SameBelow (cfg : Config) (bound : UInt64) (db db' : Db) : Prop where
  disk : ∀ {n}, n < bound → db'.disk.lookup n = db.disk.lookup n
  installed : ∀ {n}, n < bound → db'.installed cfg n = db.installed cfg n
  building : ∀ {n}, n < bound → db'.building cfg n = db.building cfg n
  storage : (db'.storage cfg).isSome = (db.storage cfg).isSome

namespace Db.SameBelow

variable {bound : UInt64}

theorem refl (cfg : Config) (bound : UInt64) (db : Db) :
    db.SameBelow cfg bound db := ⟨fun _ => rfl, fun _ => rfl, fun _ => rfl, rfl⟩

theorem trans (h : db.SameBelow cfg bound db') (h' : db'.SameBelow cfg bound db'') :
    db.SameBelow cfg bound db'' where
  disk hn := (h'.disk hn).trans (h.disk hn)
  installed hn := (h'.installed hn).trans (h.installed hn)
  building hn := (h'.building hn).trans (h.building hn)
  storage := h'.storage.trans h.storage

/-- The jobs have no part in it. -/
theorem jobs (h : db.SameBelow cfg bound db') (jobs : List GcJob) :
    db.SameBelow cfg bound { db' with jobs } := ⟨h.disk, h.installed, h.building, h.storage⟩

/-- A change of the directory from `bound` on. -/
theorem of_disk {disk : Map UInt64 BlobFile}
    (h : ∀ {n}, n < bound → disk.lookup n = db.disk.lookup n) :
    db.SameBelow cfg bound { db with disk } := ⟨h, fun _ => rfl, fun _ => rfl, rfl⟩

/-- A file set with the same files. -/
theorem of_sameFiles {fs : BlobFileSet} (h : db.fileSet.SameFiles fs) :
    db.SameBelow cfg bound { db with fileSet := fs } where
  disk _ := rfl
  installed {n} _ := by
    rw [Bool.eq_iff_iff, installed_iff, installed_iff]
    exact h.file_ne_none cfg.cfId n
  building {n} _ := h.building_eq cfg.cfId n
  storage := h.isSome cfg.cfId

/-- An edit that adds no file below `bound`. -/
theorem of_logAndApply {hidden : List UInt64}
    (hfiling : Filing cfg db inputs hidden) {e : VersionEdit}
    (hadds : ∀ {n}, e.Adds cfg.cfId n → bound ≤ n) : db.SameBelow cfg bound { db with
      fileSet := (db.fileSet.logAndApply cfg.coding e .ok).2 } := by
  have hfile : ∀ {n}, n < bound →
      ((db.fileSet.logAndApply cfg.coding e .ok).2.file cfg.cfId n ≠ none
        ↔ db.fileSet.file cfg.cfId n ≠ none) := by
    intro n hn
    refine ⟨fun h => ?_, fun h => file_logAndApply h e .ok⟩
    rcases file_of_logAndApply h with h | h
    · exact h
    · exact absurd hn (UInt64.not_lt.2 (hadds h))
  refine ⟨fun _ => rfl, fun hn => ?_, fun {n} hn => ?_, lookup_isSome_logAndApply ..⟩
  · rw [Bool.eq_iff_iff, installed_iff, installed_iff]
    exact hfile hn
  · rw [Bool.eq_iff_iff]
    refine ⟨building_of_logAndApply, fun hb => ?_⟩
    rcases building_logAndApply (C := cfg.coding) (e := e) hb with h | h
    · exact h
    · -- what is being written was not installed
      have hnot := (hfiling.building_new hb).1
      rw [installed_iff.2 ((hfile hn).1 h)] at hnot
      cases hnot

end Db.SameBelow

/-- What `BlobStorage::Get` asks of the file. -/
theorem storageGet_eq {st : BlobStorage} (hst : db.storage cfg = some st) (i : BlobIndex) :
    db.storageGet cfg st i
      = if db.installed cfg i.fileNumber then db.readFile i
        else if cfg.dbOptions.sepBeforeFlush then
          if db.building cfg i.fileNumber then db.readFile i
          else .error (.corruption ("File " ++ toString i.fileNumber.toNat ++ " not exist"))
        else .error (.corruption ("Missing blob file: " ++ toString i.fileNumber.toNat)) := by
  have hst : db.fileSet.columnFamilies.lookup cfg.cfId = some st := hst
  unfold Db.storageGet Db.installed Db.building file building
  rw [hst, Option.bind_some, Option.any_some]
  cases st.findFile i.fileNumber <;> rfl

/-- A key whose entry stays is read as before. -/
theorem Db.SameBelow.getImpl (h : db.SameBelow cfg bound db') {key : UserKey}
    (hlsm : db'.lsm.lookup key = db.lsm.lookup key)
    (hknown : ∀ {i}, db.Points cfg key i → i.fileNumber < bound) :
    db'.getImpl cfg key = db.getImpl cfg key := by
  refine getImpl_congr hlsm h.storage fun hentry hdecodes hst hst' => ?_
  have hi := hknown ⟨_, hentry, hdecodes⟩
  rw [storageGet_eq hst, storageGet_eq hst', h.installed hi, h.building hi]
  unfold Db.readFile
  rw [h.disk hi]

-- ==== room for a copied record

/-- There is room for the records ahead, also in the open one of the
output files. -/
structure Db.RoomFor (cfg : Config) (db : Db)
    (todo : List (BlobIndex × BlobRecord)) (outputs : List UInt64) :
    Prop extends db.Room cfg todo where
  fits : ∀ n ∈ outputs.getLast?, ∃ file, db.disk.lookup n = some file
    ∧ file.size.toNat + totalSize cfg todo < 2 ^ 64

@[simp] theorem totalSize_cons (p : BlobIndex × BlobRecord) :
    totalSize cfg (p :: todo) = (cfg.encodedSize p.2).toNat + totalSize cfg todo := by
  simp [totalSize]

theorem Db.RoomFor.tail {p : BlobIndex × BlobRecord} (h : db.RoomFor cfg (p :: todo) outputs) :
    db.RoomFor cfg todo outputs := by
  obtain ⟨⟨htarget, hnumbers, hencoded, hsizes⟩, hfits⟩ := h
  rw [length_cons] at hnumbers
  rw [totalSize_cons] at hsizes
  refine ⟨⟨htarget, by omega, fun q hq => hencoded q (mem_cons_of_mem _ hq),
    by omega⟩, fun n hn => ?_⟩
  obtain ⟨file, hfile, hsize⟩ := hfits n hn
  rw [totalSize_cons] at hsize
  exact ⟨file, hfile, by omega⟩

/-- The jobs have no part in it. -/
theorem Db.RoomFor.jobs (h : db.RoomFor cfg todo outputs) (jobs : List GcJob) :
    { db with jobs }.RoomFor cfg todo outputs := ⟨⟨h.target, h.numbers, h.encoded, h.sizes⟩, h.fits⟩

theorem toNat_next_newFileNumber (h : db.fileSet.nextFileNumber.toNat + 1 < 2 ^ 64) :
    db.fileSet.newFileNumber.2.nextFileNumber.toNat = db.fileSet.nextFileNumber.toNat + 1 := by
  show (db.fileSet.nextFileNumber + 1).toNat = _
  exact Nat.mod_eq_of_lt h

/-- A file is made with the number of the counter. -/
theorem newFile_room (h : db.fileSet.nextFileNumber.toNat + 1 < 2 ^ 64) :
    db.newFile true = some (.ok db.fileSet.nextFileNumber, { db with
        fileSet := db.fileSet.newFileNumber.2
        disk := db.disk.insert db.fileSet.nextFileNumber BlobFile.header }) := by
  have hlt : db.fileSet.nextFileNumber < db.fileSet.newFileNumber.2.nextFileNumber := by
    rw [UInt64.lt_iff_toNat_lt, toNat_next_newFileNumber h]
    exact Nat.lt_succ_self _
  exact (if_pos hlt).trans (if_pos rfl)

/-- What choosing the output file for the next record comes to: `number`
is the last of the outputs, all of them new, and it takes `size` more
bytes. -/
structure Db.Chosen (cfg : Config) (bound : UInt64) (size : Nat)
    (db db' : Db) (number : UInt64) (outputs : List UInt64) : Prop where
  kept : db.SameBelow cfg bound db'
  lsm : db'.lsm = db.lsm
  le : db.fileSet.nextFileNumber ≤ db'.fileSet.nextFileNumber
  next : db'.fileSet.nextFileNumber.toNat ≤ db.fileSet.nextFileNumber.toNat + 1
  last : outputs.getLast? = some number
  new : ∀ n ∈ outputs, bound ≤ n
  fits : ∃ file, db'.disk.lookup number = some file ∧ file.size.toNat + size < 2 ^ 64

theorem outputFile_room (cfg : Config) {job : GcJob} (hbound : bound ≤ db.fileSet.nextFileNumber)
    (hnew : ∀ n ∈ job.outputs, bound ≤ n) (hnumbers : db.fileSet.nextFileNumber.toNat + 1 < 2 ^ 64)
    (hsize : kBlobHeaderSize.toNat + size < 2 ^ 64)
    (hfits : ∀ n ∈ job.outputs.getLast?, ∃ file,
      db.disk.lookup n = some file ∧ file.size.toNat + size < 2 ^ 64) :
    ∃ number outputs fileSize db',
      db.outputFile cfg job true = some (.ok (number, { job with outputs, fileSize }), db')
      ∧ db.Chosen cfg bound size db' number outputs := by
  have hmade : ∃ number outputs fileSize db',
      Db.outputFile.newOutput db job true = some (.ok (number, { job with outputs, fileSize }), db')
      ∧ db.Chosen cfg bound size db' number outputs := by
    unfold Db.outputFile.newOutput
    rw [newFile_room hnumbers]
    refine ⟨_, _, _, _, rfl, ?_, rfl, ?_, ?_, getLast?_concat, ?_, ?_⟩
    · refine ⟨fun {n} hn => ?_, fun _ => rfl, fun _ => rfl, rfl⟩
      refine (lookup_insert ..).trans (if_neg ?_)
      rintro rfl
      exact UInt64.not_lt.2 hbound hn
    · rw [UInt64.le_iff_toNat_le, toNat_next_newFileNumber hnumbers]
      exact Nat.le_succ _
    · exact (toNat_next_newFileNumber hnumbers).le
    · intro n hn
      rcases mem_append.1 hn with hn | hn
      · exact hnew n hn
      · rw [mem_singleton.1 hn]
        exact hbound
    · exact ⟨BlobFile.header, (lookup_insert ..).trans (if_pos rfl), hsize⟩
  unfold Db.outputFile
  split
  case h_1 n hlast =>
    split
    case isTrue =>
      exact ⟨n, job.outputs, job.fileSize, db, rfl, .refl cfg bound db, rfl,
        UInt64.le_refl _, Nat.le_succ _, hlast, hnew, hfits n hlast⟩
    case isFalse => exact hmade
  case h_2 => exact hmade

/-- A record goes into a file with room for it. -/
theorem append_room {number : UInt64} {file : BlobFile}
    (hfile : db.disk.lookup number = some file) (hbound : bound ≤ number)
    (hpos : 0 < cfg.encodedSize r)
    (hsize : file.size.toNat + ((cfg.encodedSize r).toNat + size) < 2 ^ 64) :
    ∃ new db', db.append cfg number r = some (new, db') ∧ db.SameBelow cfg bound db'
      ∧ ∃ file', db'.disk.lookup number = some file' ∧ file'.size.toNat + size < 2 ^ 64 := by
  have hsum : (file.size + cfg.encodedSize r).toNat
      = file.size.toNat + (cfg.encodedSize r).toNat := by
    rw [UInt64.toNat_add]
    exact Nat.mod_eq_of_lt (by omega)
  have hlt : file.size < file.size + cfg.encodedSize r := by
    rw [UInt64.lt_iff_toNat_lt] at hpos ⊢
    rw [hsum]
    exact Nat.lt_add_of_pos_right hpos
  unfold Db.append BlobFile.add
  rw [hfile]
  dsimp only
  rw [dif_pos hlt]
  refine ⟨_, _, rfl, Db.SameBelow.of_disk fun {n} hn => ?_, _,
    (lookup_insert ..).trans (if_pos rfl), ?_⟩
  · refine (lookup_insert ..).trans (if_neg ?_)
    rintro rfl
    exact UInt64.not_lt.2 hbound hn
  · show (file.size + cfg.encodedSize r).toNat + size < 2 ^ 64
    omega

/-- What a copy into an output file leaves: the record is found at `new`,
in one of the outputs, all of them new, and there is room for the records
ahead. -/
structure GcJob.Copied (cfg : Config) (bound : UInt64) (db db' : Db)
    (job : GcJob) (outputs : List UInt64) (new : BlobIndex)
    (r : BlobRecord) : Prop where
  ext : db.Extends cfg db'
  kept : db.SameBelow cfg bound db'
  le : db.fileSet.nextFileNumber ≤ db'.fileSet.nextFileNumber
  record : db'.record new = some r
  mem : new.fileNumber ∈ outputs
  more : job.outputs ⊆ outputs
  new : ∀ n ∈ outputs, bound ≤ n
  room : db'.RoomFor cfg job.todo outputs

theorem addOutput_room (job : GcJob) {rest : List UInt64} {i : BlobIndex}
    (hfiling : Filing cfg db inputs (job.outputs ++ rest))
    (hbound : bound ≤ db.fileSet.nextFileNumber) (hnew : ∀ n ∈ job.outputs, bound ≤ n)
    (hroom : db.RoomFor cfg ((i, r) :: job.todo) job.outputs) :
    ∃ outputs fileSize new db', db.addOutput cfg job i r true = some ({ job with
            outputs, fileSize
            rewriteBatches := job.rewriteBatches ++ [copyBatch cfg i new r]
            relocated := job.relocated ++ [copyBatch cfg i new r] },
          db')
      ∧ job.Copied cfg bound db db' outputs new r := by
  have hnumbers := hroom.numbers
  rw [length_cons] at hnumbers
  obtain ⟨number, outputs, fileSize, db₁, hout, hchosen⟩ :=
    outputFile_room cfg hbound hnew (by omega) hroom.sizes hroom.fits
  obtain ⟨file, hfile, hfits⟩ := hchosen.fits
  have hmem := mem_of_getLast? hchosen.last
  obtain ⟨new, db₂, happ, hkept, hfile'⟩ := append_room hfile
    (hchosen.new number hmem) (hroom.encoded _ mem_cons_self) hfits
  obtain ⟨-, hext₁, -, hmore, -⟩ := hfiling.outputFile hout
  obtain ⟨hext₂, hnum, hrec, hfs, -⟩ := append_spec happ
  refine ⟨outputs, fileSize + r.size, new, db₂, ?_, hext₁.trans hext₂,
    hchosen.kept.trans hkept, hfs.symm ▸ hchosen.le, hrec,
    hnum.symm ▸ hmem, hmore, hchosen.new, ⟨hroom.target, ?_,
    hroom.tail.encoded, hroom.tail.sizes⟩, ?_⟩
  · unfold Db.addOutput
    rw [hout]
    dsimp only
    rw [happ]
    rfl
  · have hnext := hchosen.next
    rw [hfs]
    omega
  · intro n hn
    cases hchosen.last.symm.trans hn
    exact hfile'

end DiffKV
