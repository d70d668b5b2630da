/-
Reads from outside: where the iterator agrees with `Get`, and when a read
finds the file it is sent to.

An iterator reads through prefetchers, and there are prefetchers of
installed files only. `Cached` keeps it apart from the order of its
moves: a prefetcher it has kept is the one it would make now. So it
reads an entry as `Get` does exactly if the file is installed.

`BlobStorage::Get` looks for a file in two places, one after the other,
and the installation of the file moves it from the second to the first.
`Kept` is what a call knows between its lookups.
-/
import DiffKV.Reads
import DiffKV.Proofs.BlobFileBytes

namespace DiffKV

open Lib BlobStorage TitanDBIterator BlobIndex

variable {s : BlobStorage} {held : Bool} {g' g : GetCall}

-- ==== iterator and GetImpl

namespace TitanDBIterator

variable {K : Codec} {dir : BlobDir} {it : TitanDBIterator}
  {iter : ArenaWrappedDBIter} {e : BaseEntry} {index : BlobIndex}

/-- A prefetcher the iterator has kept is the one it would make now. -/
def Cached (K : Codec) (dir : BlobDir) (s : BlobStorage) (it : TitanDBIterator) : Prop :=
  ∀ n p, it.files.lookup n = some p → s.newPrefetcher K dir n = .ok p

theorem cached_create (keyOnly : Bool) : Cached K dir s (create keyOnly) := fun _ _ h => nomatch h

theorem Cached.findPrefetcher_eq (h : Cached K dir s it) (n : UInt64) :
    findPrefetcher K dir s it n = s.newPrefetcher K dir n := by
  unfold findPrefetcher
  split
  case h_1 p hp => exact (h n p hp).symm
  case h_2 => rfl

theorem Cached.insert (h : Cached K dir s it) {n : UInt64}
    {p : BlobFilePrefetcher} (hp : s.newPrefetcher K dir n = .ok p) :
    Cached K dir s { it with files := it.files.insert n p } := by
  intro n' p' hp'
  rw [Table.lookup_insert] at hp'
  split at hp'
  case isTrue hn =>
    cases hp'
    rw [hn]
    exact hp
  case isFalse => exact h n' p' hp'

theorem Cached.getBlobValue (h : Cached K dir s it) (e : BaseEntry) :
    Cached K dir s (getBlobValue K dir s it e) := by
  unfold TitanDBIterator.getBlobValue
  split
  case h_1 => exact h
  case h_2 index _ =>
    rw [h.findPrefetcher_eq]
    split
    case h_1 => exact h
    case h_2 p hp =>
      simp only
      split <;> exact h.insert hp

theorem Cached.move (h : Cached K dir s it) (iter : ArenaWrappedDBIter) :
    Cached K dir s (move K dir s it iter) := by
  unfold TitanDBIterator.move
  split
  case h_1 => exact h
  case h_2 e _ =>
    dsimp only
    split
    case isTrue => exact h
    case isFalse =>
      have hmoved : Cached K dir s { it with iter } := h
      exact hmoved.getBlobValue e

/-- However the iterator was moved, its cache is faithful. -/
theorem cached_moves (keyOnly : Bool) (moves : List ArenaWrappedDBIter) :
    Cached K dir s (moves.foldl (move K dir s) (create keyOnly)) :=
  List.foldlRecOn moves _ (cached_create keyOnly) fun _ h iter _ => h.move iter

/-- A move keeps the options, and takes the base iterator along. -/
theorem frame_move : (move K dir s it iter).keyOnly = it.keyOnly
    ∧ (move K dir s it iter).iter = iter := by
  unfold move
  split
  case h_1 => exact ⟨rfl, rfl⟩
  case h_2 =>
    dsimp only
    split
    case isTrue => exact ⟨rfl, rfl⟩
    case isFalse =>
      unfold getBlobValue
      split
      case h_1 => exact ⟨rfl, rfl⟩
      case h_2 =>
        split
        case h_1 => exact ⟨rfl, rfl⟩
        case h_2 =>
          split <;> exact ⟨rfl, rfl⟩

theorem keyOnly_moves (it : TitanDBIterator) (moves : List ArenaWrappedDBIter) :
    (moves.foldl (move K dir s) it).keyOnly = it.keyOnly := by
  induction moves generalizing it with
  | nil => rfl
  | cons iter moves ih => exact (ih _).trans frame_move.1

/-- On a blob index the iterator reads as `NewPrefetcher` and a read
through the prefetcher do. -/
theorem move_blob (h : Cached K dir s it) (hkey : it.keyOnly = false)
    (hblob : e.isBlob = true) (hindex : e.value = index.encodeTo K.coding) :
    let it' := move K dir s it { entry := some e, status := .ok }
    match s.prefetch K dir index with
    | .error e' => it'.ownStatus = e'
    | .ok r => it'.status = .ok ∧ it'.value = r.value := by
  have hdecode : decodeInto K.coding e.value = .ok index := by
    rw [decodeInto, hindex, decodeFrom_encodeTo]
    rfl
  have hmove : move K dir s it { entry := some e, status := .ok }
      = getBlobValue K dir s { it with iter := { entry := some e, status := .ok } } e := by
    simp [move, hblob, hkey]
  have hmoved : Cached K dir s { it with iter := { entry := some e, status := .ok } } := h
  rw [hmove, getBlobValue, hdecode, prefetch]
  simp only [hmoved.findPrefetcher_eq]
  cases s.newPrefetcher K dir index.fileNumber with
  | error e' => rfl
  | ok p =>
    simp only
    cases p.get K index.blobHandle with
    | error e' => rfl
    | ok r => simp [status, value, hblob, hkey]

end TitanDBIterator

/-- The first of two records of the file 5. -/
def firstOfTwo : BaseEntry where
  value := BlobIndex.encodeTo base128 { fileNumber := 5, blobHandle := { offset := 8, size := 15 } }
  isBlob := true

/-- The file 5, with both records. -/
def dirOfTwo : BlobDir :=
  Table.empty.insert 5 (BlobFileBuilder.build trailingZeros .kSnappyCompression false twoRecords).2

/-- A storage that separates values before the flush. -/
def separating : BlobStorage where
  dbOptions := { sepBeforeFlush := true }
  cfOptions := {}

theorem GetCall.present_next (h : g.next s held = some g') : g'.present = g.present := by
  unfold GetCall.next at h
  split at h <;> cases h <;> rfl

namespace StorageReads

variable {st st' : StorageReads} {a : Action}

/-- No call for the file stands between its first lookup and its lock of
the reader when the file is installed. -/
def installsApart (st : StorageReads) : Action → Prop
  | .addBlobFile file => ∀ g ∈ st.gets, g.number = file.fileNumber →
      g.stage ≠ .building ∧ g.stage ≠ .reader
  | _ => True

instance (st : StorageReads) : (a : Action) → Decidable (st.installsApart a)
  | .addBlobFile file => inferInstanceAs (Decidable (∀ g ∈ st.gets,
      g.number = file.fileNumber → g.stage ≠ .building ∧ g.stage ≠ .reader))
  | .get _ | .next _ _ | .addBuildingFile _ => isTrue trivial

/-- Files are being built only if values are separated before the
flush. -/
def BuildsSeparated (s : BlobStorage) : Prop :=
  ∀ n, s.findBuildingFile n = true → s.dbOptions.sepBeforeFlush = true

/-- What a call that began with the file present can rely on. -/
def Kept (s : BlobStorage) (g : GetCall) : Prop :=
  match g.stage with
  | .files => s.hasFile g.number = true
  | .building => s.findBuildingFile g.number = true
  | .reader => s.findBuildingFile g.number = true
  | .read => True
  | .missing _ => False

section kept

variable {file : BlobFileMeta}

theorem Kept.mono {s' : BlobStorage} (h : Kept s g)
    (hfile : s.hasFile g.number = true → s'.hasFile g.number = true)
    (hbuilding : g.stage = .building ∨ g.stage = .reader →
      s.findBuildingFile g.number = true → s'.findBuildingFile g.number = true) : Kept s' g := by
  unfold Kept at h ⊢
  cases hstage : g.stage with
  | files =>
    rw [hstage] at h
    exact hfile h
  | building =>
    rw [hstage] at h
    exact hbuilding (.inl hstage) h
  | reader =>
    rw [hstage] at h
    exact hbuilding (.inr hstage) h
  | read => trivial
  | missing e =>
    rw [hstage] at h
    exact h

theorem kept_addBlobFile (h : Kept s g)
    (hapart : g.number = file.fileNumber → g.stage ≠ .building ∧ g.stage ≠ .reader) :
    Kept (s.addBlobFile file) g := by
  have hstays : g.number ≠ file.fileNumber →
      s.findBuildingFile g.number = true →
        (s.addBlobFile file).findBuildingFile g.number = true := by
    intro hne hb
    rw [findBuildingFile_addBlobFile, if_neg fun h => hne h.2]
    exact hb
  refine h.mono ?_ ?_
  · intro hfile
    unfold hasFile at hfile ⊢
    rw [findFile_addBlobFile]
    by_cases hn : file.fileNumber = g.number
    · rw [if_pos hn, Option.isSome_or]
      simp
    · rw [if_neg hn, Bool.or_eq_true]
      rw [Bool.or_eq_true] at hfile
      exact hfile.imp id (hstays (Ne.symm hn))
  · rintro hstage
    apply hstays
    intro hn
    exact hstage.elim (hapart hn).1 (hapart hn).2

theorem kept_addBuildingFile (h : Kept s g) (n : UInt64) : Kept (s.addBuildingFile n) g := by
  have hstays := s.findBuildingFile_addBuildingFile g.number n
  refine h.mono ?_ fun _ => hstays
  intro hfile
  unfold hasFile at hfile ⊢
  rw [Bool.or_eq_true] at hfile ⊢
  exact hfile.imp id hstays

/-- A step of the call itself. -/
theorem kept_next (hs : BuildsSeparated s) (h : Kept s g)
    (hnext : g.next s held = some g') : Kept s g' := by
  unfold GetCall.next at hnext
  split at hnext
  case h_1 hstage =>
    cases hnext
    simp only [Kept, hstage, hasFile, Bool.or_eq_true] at h
    rcases h with h | h
    · simp [Kept, h]
    · by_cases hf : (s.findFile g.number).isSome = true
      · simp [Kept, hf]
      · simp [Kept, hf, hs _ h, h]
  case h_2 hstage =>
    cases hnext
    simp only [Kept, hstage] at h
    simp [Kept, h]
  case h_3 hstage =>
    cases hnext
    simp only [Kept, hstage] at h
    simp [Kept, h]
  case h_4 => cases hnext
  case h_5 => cases hnext

end kept

/-- Every call that began with its file present can rely on it. -/
structure Found (st : StorageReads) : Prop where
  separated : BuildsSeparated st.storage
  kept : ∀ g ∈ st.gets, g.present = true → Kept st.storage g

theorem Found.step (h : Found st) (hapart : st.installsApart a)
    (hstep : st.step a = some st') : Found st' := by
  cases a with
  | get n =>
    cases hstep
    refine ⟨h.separated, fun g hg hpresent => ?_⟩
    rcases List.mem_append.1 hg with hg | hg
    · exact h.kept g hg hpresent
    · rw [List.mem_singleton] at hg
      subst hg
      exact hpresent
  | next i held =>
    simp only [StorageReads.step] at hstep
    split at hstep
    case h_1 => cases hstep
    case h_2 g hget =>
      split at hstep
      case h_1 => cases hstep
      case h_2 g' hnext =>
        cases hstep
        refine ⟨h.separated, fun g₁ hg₁ hpresent => ?_⟩
        rcases List.mem_or_eq_of_mem_set hg₁ with hg₁ | rfl
        · exact h.kept g₁ hg₁ hpresent
        · rw [GetCall.present_next hnext] at hpresent
          exact kept_next h.separated (h.kept g (List.mem_of_getElem? hget) hpresent) hnext
  | addBuildingFile n =>
    simp only [StorageReads.step] at hstep
    split at hstep
    case isFalse => cases hstep
    case isTrue hsep =>
      cases hstep
      exact ⟨fun _ _ => hsep, fun g hg hpresent => kept_addBuildingFile (h.kept g hg hpresent) n⟩
  | addBlobFile file =>
    cases hstep
    refine ⟨fun n hb => h.separated n ?_, fun g hg hpresent =>
      kept_addBlobFile (h.kept g hg hpresent) (hapart g hg)⟩
    have hb' : (st.storage.addBlobFile file).findBuildingFile n = true := hb
    rw [findBuildingFile_addBlobFile] at hb'
    split at hb'
    · cases hb'
    · exact hb'

end StorageReads

/-- A call of `Get` whose file the storage has when it begins never
reports it missing, in every run in which no file is installed between
the two lookups of a call for it. -/
theorem get_finds_file (s : BlobStorage)
    (hs : StorageReads.BuildsSeparated s) (as : List StorageReads.Action) (st : StorageReads)
    (hapart : Meets StorageReads.step StorageReads.installsApart { storage := s } as)
    (hexec : exec StorageReads.step { storage := s } as = some st) :
    ∀ g ∈ st.gets, g.present = true → ∀ e, g.stage ≠ .missing e := by
  have hstart : StorageReads.Found { storage := s } := ⟨hs, fun _ h => nomatch h⟩
  have hfound := exec_keeps (I := StorageReads.Found)
    (fun h hc hstep => h.step hc hstep) hstart hapart hexec
  intro g hg hpresent e hstage
  have hkept := hfound.kept g hg hpresent
  simp only [StorageReads.Kept, hstage] at hkept

/-- Two calls, before and after the file is installed. -/
def readAroundInstall : List StorageReads.Action :=
  [.get 5, .next 0 false, .next 0 false, .next 0 false,
    .addBlobFile { fileNumber := 5 }, .get 5, .next 1 false]

theorem get_finds_file_around :
    ∃ st, exec StorageReads.step
        { storage := separating.addBuildingFile 5 } readAroundInstall = some st
      ∧ st.gets.map GetCall.present = [true, true]
      ∧ ∀ g ∈ st.gets, g.present = true → ∀ e, g.stage ≠ .missing e :=
  ⟨_, rfl, rfl, get_finds_file (separating.addBuildingFile 5)
    (fun _ _ => rfl) readAroundInstall _ (by decide) rfl⟩

/-- The file is installed between the two lookups of a call. -/
theorem get_misses_installed :
    (exec StorageReads.step { storage := separating.addBuildingFile 5 }
        [.get 5, .next 0 false, .addBlobFile { fileNumber := 5 },
          .next 0 false]).map (fun st => (st.gets, st.storage.hasFile 5))
      = some ([{ number := 5
                 stage := .missing (.corruption "File 5 not exist")
                 present := true }], true) := by
  decide +kernel

end DiffKV
