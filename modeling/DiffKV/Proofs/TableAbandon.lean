/-
Which blob files an abandoned table leaves behind.

A builder holds the open blob file and the finished ones; each call of
`Add` accounts for the files it has had made and deleted in terms of
these. `Abandon` deletes the open file and no other. So the files left
behind are exactly the finished ones: a table is abandoned cleanly if
its blob file never reached `blob_file_target_size`.

After a failed `FinishBlobFile` the handle of the open file is gone while
its builder stays, and `Abandon` goes through the handle.
-/
import DiffKV.TableAbandon
import DiffKV.Proofs.TableBuilderErrors

namespace DiffKV

open Lib Ledger TitanTableBuilder Option

namespace FallibleTableBuilder

variable {cfg : TableBuilderConfig} {parse : ParseInternalKey}
  {b b' : FallibleTableBuilder} {io : AddIO} {e : InternalEntry} {c : AddCall}
  {blob : OpenBlobFile} {value : Bytes}

-- ==== what is held

/-- The number of the open file. -/
def openNumber (b : FallibleTableBuilder) : Option UInt64 :=
  b.builder.blob.map OpenBlobFile.number

/-- The open file, unless its handle is gone. -/
def openFile (b : FallibleTableBuilder) : List UInt64 :=
  if b.hasHandle then b.openNumber.toList else []

/-- The finished files. -/
def finishedFiles (b : FallibleTableBuilder) : List UInt64 :=
  b.builder.finishedBlobs.map BlobFileMeta.fileNumber

/-- The files a builder has the handles of. -/
def held (b : FallibleTableBuilder) : List UInt64 :=
  b.openFile ++ b.finishedFiles

theorem held_of_none (h : b.builder.blob = none) : b.held = b.finishedFiles := by
  unfold held openFile openNumber
  rw [h]
  simp

theorem held_of_some (h : b.builder.blob = some blob) (hhandle : b.hasHandle = true) :
    b.held = blob.number :: b.finishedFiles := by
  unfold held openFile openNumber
  rw [h, if_pos hhandle]
  rfl

/-- The builders hold the same files. -/
structure SameFiles (b b' : FallibleTableBuilder) : Prop where
  number : b'.openNumber = b.openNumber
  finished : b'.builder.finishedBlobs = b.builder.finishedBlobs
  handle : b'.hasHandle = b.hasHandle

theorem SameFiles.accounts (h : b.SameFiles b') : Accounts b.held [] b'.held := by
  have hheld : b'.held = b.held := by
    unfold held openFile finishedFiles
    rw [h.number, h.finished, h.handle]
  exact .of_perm (hheld ▸ .refl _)

@[simp] theorem held_emit (b : FallibleTableBuilder) (io : AddIO)
    (e : InternalEntry) : (b.emit io e).held = b.held := rfl

-- ==== blob files

theorem accounts_openBlobFile (b : FallibleTableBuilder) (io : AddIO) :
    Accounts b.held (b.openCalls io) (b.openBlobFile io).held := by
  unfold openCalls openBlobFile
  cases hblob : b.builder.blob with
  | some blob => exact .of_perm (.refl _)
  | none =>
    cases hnew : io.newFile.isOk with
    | false =>
      exact SameFiles.accounts ⟨rfl, rfl, rfl⟩
    | true =>
      have hheld := held_of_none hblob
      unfold TitanTableBuilder.openBlobFile
      rw [hblob, hheld]
      cases io.appendHeader.isOk
      · exact .acquire _ _
      · exact .acquire _ _

theorem sameFiles_appendRecord (cfg : TableBuilderConfig) (io : AddIO)
    (hblob : b.builder.blob = some blob) (record : BlobRecord) :
    b.SameFiles (b.appendRecord cfg io blob record).2 := by
  unfold appendRecord
  cases b.blobStatus.isOk
  case false => exact ⟨rfl, rfl, rfl⟩
  case true =>
    cases io.append.isOk
    · exact ⟨rfl, rfl, rfl⟩
    · refine ⟨?_, rfl, rfl⟩
      unfold openNumber
      rw [hblob]
      rfl

/-- The file is finished, or given up and deleted. -/
theorem accounts_finishBlobFile (h : b.Opened) {appendFooter deleteFile : Status}
    (hfinish : b.finishBlobFile cfg appendFooter deleteFile = some b') :
    Accounts b.held (b.finishCalls appendFooter) b'.held := by
  obtain ⟨blob, hblob⟩ := isSome_iff_exists.1 h.blob
  unfold finishBlobFile at hfinish
  unfold finishCalls
  rw [held_of_some hblob h.handle]
  simp only [hblob] at hfinish ⊢
  split at hfinish
  case isTrue hok =>
    rw [if_pos hok]
    cases hfinish
    have hnone : (b.builder.finishBlobFile cfg).blob = none := by
      unfold TitanTableBuilder.finishBlobFile
      simp only [hblob]
    rw [held_of_none hnone]
    refine .of_perm ?_
    unfold finishedFiles TitanTableBuilder.finishBlobFile
    simp only [hblob, List.map_append]
    exact (List.perm_append_singleton blob.number _).symm
  case isFalse hfailed =>
    rw [if_neg hfailed, if_pos h.handle]
    rw [if_pos h.handle] at hfinish
    cases hfinish
    exact .release (.refl _)

theorem accounts_addBlob (h : b.Whole) {key : UserKey} {index : Bytes}
    (hadd : b.addBlob cfg io key value = some (index, b')) :
    Accounts b.held (b.addBlobCalls cfg io key value) b'.held := by
  unfold addBlob at hadd
  unfold addBlobCalls
  rw [if_neg (by simp [h.ok])] at hadd ⊢
  refine (accounts_openBlobFile b io).append ?_
  dsimp only at hadd ⊢
  by_cases hno : b.NoFile io
  case pos =>
    obtain ⟨hnone, -, -⟩ := openBlobFile_noFile h hno
    rw [hnone] at hadd ⊢
    cases hadd
    exact .of_perm (.refl _)
  case neg =>
    obtain ⟨hopened, -⟩ := openBlobFile_spec h hno
    obtain ⟨blob, hblob⟩ := isSome_iff_exists.1 hopened.blob
    obtain ⟨hadded, -⟩ := appendRecord_spec cfg hopened io blob { key, value }
    have hsame := (sameFiles_appendRecord cfg io hblob { key, value }).accounts
    rw [hblob] at hadd ⊢
    dsimp only at hadd ⊢
    split at hadd
    case isTrue hfailed =>
      rw [if_pos hfailed]
      cases hadd
      exact hsame
    case isFalse hok =>
      rw [if_neg hok]
      split at hadd
      case isTrue hfull =>
        rw [if_pos hfull]
        obtain ⟨b₁, hfinish, hpair⟩ := map_eq_some_iff.1 hadd
        cases hpair
        exact hsame.append (accounts_finishBlobFile hadded hfinish)
      case isFalse hroom =>
        rw [if_neg hroom]
        cases hadd
        exact hsame

-- ==== `Add`

theorem accounts_separate (h : b.Whole) (hseparate : b.separate cfg io e = some b') :
    Accounts b.held (b.addBlobCalls cfg io e.userKey e.value) b'.held := by
  obtain ⟨⟨index, b₁⟩, hadd, heq⟩ := map_eq_some_iff.1 hseparate
  have haccounts := accounts_addBlob h hadd
  subst heq
  dsimp only
  split
  · rwa [held_emit]
  · exact haccounts

theorem accounts_mergeRecord (h : b.Whole) (hmerge : b.mergeRecord cfg io e value = some b') :
    Accounts b.held (b.addBlobCalls cfg io e.userKey value) b'.held := by
  obtain ⟨⟨index, b₁⟩, hadd, heq⟩ := map_eq_some_iff.1 hmerge
  have haccounts := accounts_addBlob h hadd
  subst heq
  dsimp only
  split
  · rwa [held_emit]
  · rwa [held_emit]

/-- Looking up a file has no part in it. -/
theorem held_encounter (b : FallibleTableBuilder) (s : BlobStorage) (n : UInt64) :
    { b with builder := (b.builder.encounter s n).2 }.held = b.held := by
  unfold encounter
  split
  · rfl
  · rfl

/-- Nor has a prefetcher. -/
theorem held_prefetcher {n : UInt64} {p : BlobFilePrefetcher}
    {t : TitanTableBuilder} (h : b.prefetcher cfg io n = .ok (p, t)) :
    { b with builder := t }.held = b.held := by
  unfold prefetcher Status.failing TitanTableBuilder.prefetcher at h
  repeat' split at h
  all_goals
    cases h
    try rfl

theorem accounts_merge (h : b.Whole) (hmerge : b.merge cfg io e = some b') :
    Accounts b.held (b.mergeCalls cfg io e) b'.held := by
  unfold merge at hmerge
  unfold mergeCalls
  cases hindex : BlobIndex.decodeFrom cfg.codec.coding e.value with
  | error s =>
    rw [hindex] at hmerge
    cases hmerge
    exact .of_perm (.refl _)
  | ok found =>
    obtain ⟨index, rest⟩ := found
    rw [hindex] at hmerge
    dsimp only at hmerge ⊢
    have hsame := sameTable_encounter b.builder io.storage index.fileNumber
    have hheld := held_encounter b io.storage index.fileNumber
    generalize b.builder.encounter io.storage index.fileNumber = found at hsame hheld hmerge ⊢
    have h₁ := h.sameTable hsame
    split at hmerge
    case isFalse hkeep =>
      rw [if_neg hkeep]
      cases hmerge
      rw [held_emit, hheld]
      exact .of_perm (.refl _)
    case isTrue hshould =>
      rw [if_pos hshould]
      cases hp : ({ b with builder := found.2 }
          : FallibleTableBuilder).prefetcher cfg io index.fileNumber with
      | error s =>
        rw [hp] at hmerge
        cases hmerge
        exact .of_perm (hheld ▸ .refl _)
      | ok made =>
        obtain ⟨p, builder⟩ := made
        have hheld₂ := held_prefetcher hp
        have h₂ := h₁.sameTable (sameTable_prefetcher hp)
        rw [hp] at hmerge
        dsimp only at hmerge ⊢
        cases hget : io.prefetcherGet.failing (p.get cfg.codec index.blobHandle) with
        | error s =>
          rw [hget] at hmerge
          cases hmerge
          rw [held_emit, ← hheld, ← hheld₂]
          exact .of_perm (.refl _)
        | ok record =>
          rw [hget] at hmerge
          rw [← hheld, ← hheld₂]
          exact accounts_mergeRecord h₂ hmerge

theorem held_ingest (b : FallibleTableBuilder) (io : AddIO)
    (e : InternalEntry) : (b.ingest cfg io e).held = b.held := by
  unfold ingest
  cases BlobIndex.decodeFrom cfg.codec.coding e.value with
  | error s => rfl
  | ok found =>
    dsimp only
    cases io.get.failing (io.storage.get cfg.codec b.builder.dir found.1) with
    | error s => rfl
    | ok record => rfl

/-- A call of `Add` accounts for its files. -/
theorem accounts_add (h : b.Whole) (hadd : b.add cfg parse c = some b') :
    Accounts b.held (b.addCalls cfg parse c) b'.held := by
  unfold add at hadd
  unfold addCalls
  rw [if_neg (by simp [h.ok])] at hadd ⊢
  cases hkey : parse c.key with
  | none =>
    rw [hkey] at hadd
    cases hadd
    exact .of_perm (.refl _)
  | some parsed =>
    rw [hkey] at hadd
    dsimp only at hadd ⊢
    split at hadd
    case isTrue hingests =>
      rw [if_pos hingests]
      cases hadd
      rw [held_ingest]
      exact .of_perm (.refl _)
    case isFalse hingests =>
      rw [if_neg hingests]
      split at hadd
      case isTrue hseparates =>
        rw [if_pos hseparates]
        have haccounts := accounts_separate h hadd
        exact haccounts
      case isFalse hseparates =>
        rw [if_neg hseparates]
        split at hadd
        case isTrue hmerges =>
          rw [if_pos hmerges]
          exact accounts_merge h hadd
        case isFalse hmerges =>
          rw [if_neg hmerges]
          cases hadd
          exact .of_perm (.refl _)

-- ==== a run

/-- After an error a run asks nothing of the blob manager. -/
theorem outputs_of_not_ok (cfg : TableBuilderConfig)
    (parse : ParseInternalKey) (h : b.ok = false) (calls : List AddCall) :
    outputs (add cfg parse) (addCalls cfg parse) b calls = [] := by
  have hadd : ∀ c, b.add cfg parse c = some b := by
    intro c
    unfold add
    rw [if_pos (by simp [h])]
  have hcalls : ∀ c, b.addCalls cfg parse c = [] := by
    intro c
    unfold addCalls
    rw [if_pos (by simp [h])]
  induction calls with
  | nil => rfl
  | cons c calls ih =>
    rw [outputs_cons (hadd c), hcalls, ih]
    rfl

/-- A run gets to its end and accounts for its files. -/
theorem accounts_exec (cfg : TableBuilderConfig) (parse : ParseInternalKey)
    (h : b.Whole) (calls : List AddCall) :
    ∃ b', exec (add cfg parse) b calls = some b'
      ∧ Accounts b.held (outputs (add cfg parse) (addCalls cfg parse) b calls) b'.held := by
  induction calls generalizing b with
  | nil => exact ⟨b, rfl, .of_perm (.refl _)⟩
  | cons c calls ih =>
    obtain ⟨b₁, hadd, hout⟩ := add_outcome cfg parse h c
    have haccounts := accounts_add h hadd
    rw [outputs_cons hadd]
    -- after an error the builder stays as it is
    have hstopped : b₁.ok = false → ∃ b',
        exec (add cfg parse) b (c :: calls) = some b'
          ∧ Accounts b.held (b.addCalls cfg parse c ++ outputs
            (add cfg parse) (addCalls cfg parse) b₁ calls) b'.held := by
      intro hfailed
      refine ⟨b₁, exec_cons_iff.2 ⟨b₁, hadd, (exec_of_not_ok cfg parse hfailed calls).1⟩, ?_⟩
      rw [outputs_of_not_ok cfg parse hfailed, List.append_nil]
      exact haccounts
    cases hout with
    | lost _ hlost => exact hstopped hlost.not_ok
    | broken _ hbroken => exact hstopped hbroken.not_ok
    | handed _ hwhole _ _ =>
      obtain ⟨b', hrun, hrest⟩ := ih hwhole
      exact ⟨b', exec_cons_iff.2 ⟨b₁, hadd, hrun⟩, haccounts.append hrest⟩

-- ==== `Abandon`

/-- The open file is deleted, and the finished ones are held on to. -/
theorem accounts_abandon (b : FallibleTableBuilder) :
    Accounts b.held b.abandonCalls b.finishedFiles := by
  unfold abandonCalls
  cases hblob : b.builder.blob with
  | none => exact .of_perm (held_of_none hblob ▸ .refl _)
  | some blob =>
    dsimp only
    split
    case isTrue hhandle => exact .release (held_of_some hblob hhandle ▸ .refl _)
    case isFalse hgone =>
      have hheld : b.held = b.finishedFiles := by
        unfold held openFile
        rw [if_neg hgone]
        rfl
      exact .of_perm (hheld ▸ .refl _)

theorem abandon_isSome_iff (deleteFile : Status) :
    (b.abandon deleteFile).isSome = true ↔ (b.builder.blob.isSome = true → b.hasHandle = true) := by
  unfold abandon
  cases b.builder.blob with
  | none => simp
  | some blob =>
    cases hhandle : b.hasHandle with
    | false => simp
    | true => simp

/-- The calls of a builder that is constructed, given entries and
abandoned. -/
def abandonedCalls (cfg : TableBuilderConfig) (parse : ParseInternalKey)
    (fileSet : BlobFileSet) (dir : BlobDir) (calls : List AddCall)
    (b : FallibleTableBuilder) : List ManagerCall :=
  outputs (add cfg parse) (addCalls cfg parse) (create fileSet dir) calls ++ b.abandonCalls

/-- **Abandoned tables.** For every sequence of `Add`s on a builder,
`Abandon` returns and every blob file made by `NewFile` has been passed to
`DeleteFile` exactly once, none being left in `pending_outputs_`, if and
only if no blob file was finished and no `FinishBlobFile` failed. Exactly
the finished files stay in `pending_outputs_`. -/
theorem abandon_deletes_all_iff (cfg : TableBuilderConfig)
    (parse : ParseInternalKey) (fileSet : BlobFileSet) (dir : BlobDir)
    (calls : List AddCall) (deleteFile : Status) :
    ∃ b, exec (add cfg parse) (create fileSet dir) calls = some b
      ∧ (outstanding [] (abandonedCalls cfg parse fileSet dir calls b)).Perm b.finishedFiles
      ∧ (((b.abandon deleteFile).isSome = true
          ∧ (acquired (abandonedCalls cfg parse fileSet dir calls b)).Perm
            (released (abandonedCalls cfg parse fileSet dir calls b))
          ∧ outstanding [] (abandonedCalls cfg parse fileSet dir calls b) = [])
        ↔ b.builder.finishedBlobs = [] ∧ (b.builder.blob.isSome = true → b.hasHandle = true)) := by
  obtain ⟨b, hrun, haccounts⟩ := accounts_exec cfg parse (whole_create fileSet dir) calls
  have hall : Accounts [] (abandonedCalls cfg parse fileSet dir calls b) b.finishedFiles :=
    haccounts.append (accounts_abandon b)
  have hleft := hall.outstanding [] (.refl _)
  refine ⟨b, hrun, hleft, ?_⟩
  have hnone : b.builder.finishedBlobs = [] ↔ b.finishedFiles = [] := List.map_eq_nil_iff.symm
  rw [abandon_isSome_iff, hall.settled_iff, hnone]
  constructor
  · rintro ⟨hhandle, hfinished, -⟩
    exact ⟨hfinished, hhandle⟩
  · rintro ⟨hfinished, hhandle⟩
    rw [hfinished] at hleft
    exact ⟨hhandle, hfinished, hleft.eq_nil⟩

/-- Every record fills a blob file. -/
def rollingConfig : TableBuilderConfig :=
  { TitanTableBuilder.mergingConfig with
    cfOptions := { TitanTableBuilder.mergingConfig.cfOptions with
      blobFileTargetSize := 1 } }

/-- A value that goes to a blob file. -/
def oneValue : List AddCall :=
  [{ key := [1, 1], value := [5, 6, 7],
     io := { storage := TitanTableBuilder.emptyStorage } }]

/-- One blob file is made and finished. `Abandon` returns without a call,
and the file stays. -/
theorem rolledOver_left :
    (exec (add rollingConfig parseTwoBytes)
        (create TitanTableBuilder.emptyFileSet Table.empty) oneValue).map
        (fun b =>
          let log := abandonedCalls rollingConfig parseTwoBytes
            TitanTableBuilder.emptyFileSet Table.empty oneValue b
          ((b.abandon .ok).isSome, acquired log, released log, outstanding [] log))
      = some (true, [1], [], [1]) := by
  decide +kernel

end FallibleTableBuilder

end DiffKV
