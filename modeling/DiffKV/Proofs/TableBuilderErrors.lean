/-
Which errors of a `TitanTableBuilder` reach the caller of `Finish`.

An error of the base builder or of the open `BlobFileBuilder` stays where
it is (`Broken`), and `Finish` returns it. One in `status_` does not:
`Finish` assigns `status_` the status of `BatchFinishFiles` (`Lost`).
`Outcome` says once what a call of `Add` can do to a builder that is OK;
after that no call does anything, so a run is told by its first error.
-/
import DiffKV.TableBuilderErrors
import DiffKV.Proofs.TableBuilder

namespace DiffKV

open Lib TitanTableBuilder BlobIndex

variable {loses : Prop} {b₁ : FallibleTableBuilder}

namespace FallibleTableBuilder

variable {t : TitanTableBuilder} {s : Status} {n : UInt64}
  {before after : Status} {K : Codec} {dir : BlobDir}

variable {cfg : TableBuilderConfig} {parse : ParseInternalKey}
  {b b' : FallibleTableBuilder} {io : AddIO} {e : InternalEntry} {c : AddCall}

-- ==== statuses

theorem ok_iff : b.ok = true ↔ b.builder.status.isOk = true ∧ b.baseStatus.isOk = true
    ∧ (b.builder.blob.isSome = true → b.blobStatus.isOk = true) := by
  unfold ok status
  cases hs : b.builder.status.isOk <;> cases hb : b.baseStatus.isOk <;>
    cases hblob : b.builder.blob.isSome <;> simp [hs, hb]

theorem isOk_keepError :
    (keepError before after).isOk = true ↔ before.isOk = true ∧ after.isOk = true := by
  unfold keepError
  cases h : before.isOk <;> simp [h]

theorem isOk_keepError_of_failed (h : before.isOk = false) :
    (keepError before after).isOk = false := by
  rw [← Bool.not_eq_true, isOk_keepError, h]
  exact fun hok => Bool.false_ne_true hok.1

/-- No error so far, and the handle of the open file is there. -/
structure Whole (b : FallibleTableBuilder) : Prop where
  ok : b.ok = true
  handle : b.builder.blob.isSome = true → b.hasHandle = true

/-- The base builder or the open blob file has an error. -/
def Broken (b : FallibleTableBuilder) : Prop :=
  b.baseStatus.isOk = false ∨ b.builder.blob.isSome = true ∧ b.blobStatus.isOk = false

/-- `status_` is the only error. -/
structure Lost (b : FallibleTableBuilder) : Prop where
  status : b.builder.status.isOk = false
  base : b.baseStatus.isOk = true
  blob : b.builder.blob.isSome = true → b.blobStatus.isOk = true ∧ b.hasHandle = true

theorem Broken.not_ok (h : b.Broken) : b.ok = false := by
  rw [← Bool.not_eq_true, ok_iff]
  rintro ⟨-, hbase, hblob⟩
  rcases h with h | ⟨hsome, h⟩
  · exact Bool.false_ne_true (h.symm.trans hbase)
  · exact Bool.false_ne_true (h.symm.trans (hblob hsome))

theorem Lost.not_ok (h : b.Lost) : b.ok = false := by
  rw [← Bool.not_eq_true, ok_iff]
  rintro ⟨hstatus, -⟩
  exact Bool.false_ne_true (h.status.symm.trans hstatus)

theorem Whole.status (h : b.Whole) : b.builder.status.isOk = true := (ok_iff.1 h.ok).1

theorem Whole.base (h : b.Whole) : b.baseStatus.isOk = true := (ok_iff.1 h.ok).2.1

theorem Whole.blob (h : b.Whole) (hblob : b.builder.blob.isSome = true) :
    b.blobStatus.isOk = true := (ok_iff.1 h.ok).2.2 hblob

/-- An error in `status_` only. -/
theorem Whole.setStatus (h : b.Whole) (hs : s.isOk = false) :
    (b.setStatus s).Lost := ⟨hs, h.base, fun hblob => ⟨h.blob hblob, h.handle hblob⟩⟩

-- ==== the entry

theorem Broken.emit (h : b.Broken) : (b.emit io e).Broken := h.imp_left isOk_keepError_of_failed

/-- The base builder does not take the entry. -/
theorem broken_emit (hio : io.base.isOk = false) : (b.emit io e).Broken := by
  left
  rw [← Bool.not_eq_true]
  exact fun hok => Bool.false_ne_true (hio.symm.trans (isOk_keepError.1 hok).2)

theorem Whole.emit (h : b.Whole) (hio : io.base.isOk = true) :
    (b.emit io e).Whole := ⟨ok_iff.2 ⟨h.status, isOk_keepError.2 ⟨h.base, hio⟩, h.blob⟩, h.handle⟩

theorem Lost.emit (h : b.Lost) (hio : io.base.isOk = true) :
    (b.emit io e).Lost := ⟨h.status, isOk_keepError.2 ⟨h.base, hio⟩, h.blob⟩

-- ==== blob files

/-- `NewFile` would be called, and fail. -/
def NoFile (b : FallibleTableBuilder) (io : AddIO) : Prop :=
  b.builder.blob = none ∧ io.newFile.isOk = false

instance (b : FallibleTableBuilder) (io : AddIO) : Decidable (b.NoFile io) :=
  match h : b.builder.blob with
  | none => decidable_of_iff (io.newFile.isOk = false) (by simp [NoFile, h])
  | some _ => isFalse (by simp [NoFile, h])

/-- A blob file is open, and no error but one of its builder. -/
structure Opened (b : FallibleTableBuilder) : Prop where
  blob : b.builder.blob.isSome = true
  status : b.builder.status.isOk = true
  base : b.baseStatus.isOk = true
  handle : b.hasHandle = true

theorem Opened.ok_iff (h : b.Opened) : b.ok = true ↔ b.blobStatus.isOk = true := by
  rw [FallibleTableBuilder.ok_iff]
  exact ⟨fun hok => hok.2.2 h.blob, fun hok => ⟨h.status, h.base, fun _ => hok⟩⟩

theorem Opened.whole (h : b.Opened) (hok : b.ok = true) : b.Whole := ⟨hok, fun _ => h.handle⟩

theorem Opened.broken (h : b.Opened) (hok : b.ok = false) : b.Broken := by
  refine .inr ⟨h.blob, ?_⟩
  rw [← Bool.not_eq_true, ← h.ok_iff, hok]
  exact Bool.false_ne_true

/-- `NewFile` fails. -/
theorem openBlobFile_noFile (h : b.Whole) (hno : b.NoFile io) :
    (b.openBlobFile io).builder.blob = none ∧ (b.openBlobFile io).builder.table = b.builder.table
      ∧ (b.openBlobFile io).Lost := by
  unfold openBlobFile
  simp only [hno.1]
  rw [if_neg (by simp [hno.2])]
  exact ⟨rfl, rfl, hno.2, h.base, fun hblob => nomatch hblob⟩

theorem openBlobFile_spec (h : b.Whole) (hfile : ¬ b.NoFile io) :
    (b.openBlobFile io).Opened ∧ (b.openBlobFile io).builder.table = b.builder.table := by
  unfold openBlobFile
  cases hblob : b.builder.blob with
  | some blob =>
    have hsome : b.builder.blob.isSome = true := Option.isSome_of_mem hblob
    exact ⟨⟨hsome, h.status, h.base, h.handle hsome⟩, rfl⟩
  | none =>
    have hnew : io.newFile.isOk = true := by
      rw [← Bool.not_eq_false]
      exact fun hno => hfile ⟨hblob, hno⟩
    rw [if_pos hnew, TitanTableBuilder.openBlobFile, hblob]
    cases io.appendHeader.isOk
    · exact ⟨⟨rfl, h.status, h.base, rfl⟩, rfl⟩
    · exact ⟨⟨rfl, h.status, h.base, rfl⟩, rfl⟩

theorem appendRecord_spec (cfg : TableBuilderConfig) (h : b.Opened)
    (io : AddIO) (blob : OpenBlobFile) (record : BlobRecord) :
    (b.appendRecord cfg io blob record).2.Opened
      ∧ (b.appendRecord cfg io blob record).2.builder.table = b.builder.table := by
  unfold appendRecord
  cases b.blobStatus.isOk
  case false => exact ⟨h, rfl⟩
  case true =>
    cases io.append.isOk
    · exact ⟨⟨h.blob, h.status, h.base, h.handle⟩, rfl⟩
    · exact ⟨⟨rfl, h.status, h.base, h.handle⟩, rfl⟩

/-- `FinishBlobFile` of a file that is open: done, or given up. -/
theorem finishBlobFile_spec (cfg : TableBuilderConfig) (h : b.Opened)
    (appendFooter deleteFile : Status) :
    ∃ b', b.finishBlobFile cfg appendFooter deleteFile = some b'
      ∧ b'.builder.table = b.builder.table ∧ (b'.Whole ∨ b'.Broken) := by
  obtain ⟨blob, hblob⟩ := Option.isSome_iff_exists.1 h.blob
  unfold finishBlobFile
  simp only [hblob]
  split
  case isTrue hfinished =>
    unfold TitanTableBuilder.finishBlobFile
    simp only [hblob]
    exact ⟨_, rfl, rfl, .inl ⟨FallibleTableBuilder.ok_iff.2
      ⟨h.status, h.base, fun hnone => nomatch hnone⟩, fun _ => h.handle⟩⟩
  case isFalse hfailed =>
    -- no error but that of the blob builder, which stays
    rw [if_pos h.handle]
    refine ⟨_, rfl, rfl, .inr (.inr ⟨rfl, ?_⟩)⟩
    rw [← Bool.not_eq_true]
    exact fun hok => hfailed (FallibleTableBuilder.ok_iff.2 ⟨h.status, h.base, fun _ => hok⟩)

/-- `AddBlob` of a builder that is OK: it fails for lack of a file, or
leaves no error but one of the blob builder. -/
theorem addBlob_spec (cfg : TableBuilderConfig) (h : b.Whole) (io : AddIO)
    (key : UserKey) (value : Bytes) :
    ∃ index b', b.addBlob cfg io key value = some (index, b') ∧ b'.builder.table = b.builder.table
      ∧ (b.NoFile io ∧ b'.Lost ∨ ¬ b.NoFile io ∧ (b'.Whole ∨ b'.Broken)) := by
  unfold addBlob
  rw [if_neg (by simp [h.ok])]
  dsimp only
  by_cases hno : b.NoFile io
  case pos =>
    obtain ⟨hnone, htable, hlost⟩ := openBlobFile_noFile h hno
    rw [hnone]
    exact ⟨_, _, rfl, htable, .inl ⟨hno, hlost⟩⟩
  case neg =>
    obtain ⟨hopened, htable⟩ := openBlobFile_spec h hno
    obtain ⟨blob, hblob⟩ := Option.isSome_iff_exists.1 hopened.blob
    obtain ⟨hadded, htable'⟩ := appendRecord_spec cfg hopened io blob { key, value }
    have htable := htable'.trans htable
    rw [hblob]
    dsimp only
    split
    case isTrue hfailed =>
      rw [Bool.not_eq_true'] at hfailed
      exact ⟨_, _, rfl, htable, .inr ⟨hno, .inr (hadded.broken hfailed)⟩⟩
    case isFalse hok =>
      rw [Bool.not_eq_true', Bool.not_eq_false] at hok
      split
      case isTrue =>
        obtain ⟨b', hb', hfinished, hstate⟩ :=
          finishBlobFile_spec cfg hadded io.appendFooter io.deleteFile
        rw [hb']
        exact ⟨_, _, rfl, hfinished.trans htable, .inr ⟨hno, hstate⟩⟩
      case isFalse =>
        exact ⟨_, _, rfl, htable, .inr ⟨hno, .inl (hadded.whole hok)⟩⟩

-- ==== `Add`

/-- The errors a merge leaves in `status_` alone. -/
def MergeLoses (cfg : TableBuilderConfig) (b : FallibleTableBuilder)
    (io : AddIO) (e : InternalEntry) : Prop :=
  match BlobIndex.decodeFrom cfg.codec.coding e.value with
  | .error _ => True
  | .ok (index, _) =>
    let found := b.builder.encounter io.storage index.fileNumber
    TitanTableBuilder.shouldMerge cfg found.1 = true ∧ io.base.isOk = true
      ∧ match ({ b with builder := found.2 } : FallibleTableBuilder).prefetcher
          cfg io index.fileNumber with
        | .error _ => True
        | .ok (p, _) =>
          (io.prefetcherGet.failing (p.get cfg.codec index.blobHandle)).isOk = true ∧ b.NoFile io

/-- The call meets a builder that is OK and one of the errors that go to
`status_`: the key does not parse, the index does not decode, or a new
file or prefetcher cannot be made. Where the entry then goes to the table
as it is, the base builder takes it. -/
def Loses (cfg : TableBuilderConfig) (parse : ParseInternalKey)
    (b : FallibleTableBuilder) (c : AddCall) : Prop :=
  b.ok = true ∧
    match parse c.key with
    | none => True
    | some (userKey, sequence, type) =>
      let e : InternalEntry := { userKey, sequence, type, value := c.value }
      if ingests cfg e then
        (BlobIndex.decodeFrom cfg.codec.coding e.value).isOk = false
      else if separates cfg e then b.NoFile c.io
      else if merges cfg e then b.MergeLoses cfg c.io e
      else False

/-- The entry has the user key and the sequence number of the call. -/
def Carries (parse : ParseInternalKey) (c : AddCall) (e : InternalEntry) :
    Prop :=
  ∃ type, parse c.key = some (e.userKey, e.sequence, type)

/-- What a call of `Add` makes of a builder that is OK. -/
inductive Outcome (loses : Prop) (parse : ParseInternalKey)
    (b : FallibleTableBuilder) (c : AddCall) : FallibleTableBuilder → Prop
  | handed {b' : FallibleTableBuilder} {e : InternalEntry} (hloses : ¬ loses)
      (hwhole : b'.Whole) (hcarries : Carries parse c e)
      (htable : b'.builder.table = b.builder.table ++ [e]) :
      Outcome loses parse b c b'
  | broken {b' : FallibleTableBuilder} (hloses : ¬ loses) (hbroken : b'.Broken) :
      Outcome loses parse b c b'
  | lost {b' : FallibleTableBuilder} (hloses : loses) (hlost : b'.Lost) : Outcome loses parse b c b'

/-- The entry goes to the table, and there was no error. -/
theorem Outcome.emit (hloses : ¬ loses) (hwhole : b₁.Whole)
    (htable : b₁.builder.table = b.builder.table) (hcarries : Carries parse c e)
    (io : AddIO) : Outcome loses parse b c (b₁.emit io e) := by
  cases hio : io.base.isOk with
  | false => exact .broken hloses (broken_emit hio)
  | true =>
    exact .handed hloses (hwhole.emit hio) hcarries (congrArg (· ++ [e]) htable)

/-- The entry goes to the table behind an error in `status_`. -/
theorem Outcome.emit_lost (hloses : loses ↔ io.base.isOk = true)
    (hlost : b₁.Lost) : Outcome loses parse b c (b₁.emit io e) := by
  cases hio : io.base.isOk with
  | false =>
    refine .broken (fun h => ?_) (broken_emit hio)
    exact Bool.false_ne_true (hio.symm.trans (hloses.1 h))
  | true => exact .lost (hloses.2 hio) (hlost.emit hio)

theorem isOk_of_decodeFrom_error {C : Coding} {src : Bytes}
    (h : decodeFrom C src = .error s) : s.isOk = false := by
  unfold decodeFrom at h
  repeat' split at h
  all_goals
    cases h
    try rfl

/-- The branch for indexes in the fallback mode. -/
theorem ingest_outcome (h : b.Whole) (hcarries : ∀ value type,
      Carries parse c { e with type, value }) :
    Outcome ((decodeFrom cfg.codec.coding e.value).isOk = false) parse b c (b.ingest cfg io e) := by
  unfold ingest
  cases hindex : decodeFrom cfg.codec.coding e.value with
  | error s =>
    exact .lost rfl (h.setStatus (isOk_of_decodeFrom_error hindex))
  | ok p =>
    have hloses : ¬ (Except.ok p : Except Status _).isOk = false := by
      exact fun hbad => nomatch hbad
    dsimp only
    split
    · exact .emit hloses h rfl (hcarries _ _) _
    · exact .emit hloses h rfl (hcarries _ _) _

/-- The branch for large values. -/
theorem separate_outcome (h : b.Whole) (hcarries : ∀ value type,
      Carries parse c { e with type, value }) :
    ∃ b', b.separate cfg io e = some b' ∧ Outcome (b.NoFile io) parse b c b' := by
  obtain ⟨index, b₁, hadd, htable, hstate⟩ := addBlob_spec cfg h io e.userKey e.value
  unfold separate
  rw [hadd]
  refine ⟨_, rfl, ?_⟩
  dsimp only
  rcases hstate with ⟨hno, hlost⟩ | ⟨hfile, hwhole | hbroken⟩
  · rw [if_neg (by simp [hlost.not_ok])]
    exact .lost hno hlost
  · rw [if_pos hwhole.ok]
    exact .emit hfile hwhole htable (hcarries _ _) _
  · rw [if_neg (by simp [hbroken.not_ok])]
    exact .broken hfile hbroken

/-- A record that is merged. -/
theorem mergeRecord_outcome (hloses : loses ↔ io.base.isOk = true ∧ b₁.NoFile io) (h : b₁.Whole)
    (htable : b₁.builder.table = b.builder.table) (hcarries : ∀ value type,
      Carries parse c { e with type, value }) (value : Bytes) :
    ∃ b', b₁.mergeRecord cfg io e value = some b' ∧ Outcome loses parse b c b' := by
  obtain ⟨index, b₂, hadd, hadded, hstate⟩ := addBlob_spec cfg h io e.userKey value
  unfold mergeRecord
  rw [hadd]
  refine ⟨_, rfl, ?_⟩
  dsimp only
  rcases hstate with ⟨hno, hlost⟩ | ⟨hfile, hwhole | hbroken⟩
  · rw [if_neg (by simp [hlost.not_ok])]
    exact .emit_lost (hloses.trans (and_iff_left hno)) hlost
  · rw [if_pos hwhole.ok]
    exact .emit (fun hl => hfile (hloses.1 hl).2) hwhole (hadded.trans htable) (hcarries _ _) _
  · rw [if_neg (by simp [hbroken.not_ok])]
    exact .broken (fun hl => hfile (hloses.1 hl).2) hbroken.emit

-- ---- the files to merge

/-- The builders differ in what they know of the files to merge. -/
structure SameTable (t t' : TitanTableBuilder) : Prop where
  status : t'.status = t.status
  blob : t'.blob = t.blob
  table : t'.table = t.table

theorem sameTable_encounter (t : TitanTableBuilder) (s : BlobStorage)
    (n : UInt64) : SameTable t (t.encounter s n).2 := by
  unfold encounter
  split
  · exact ⟨rfl, rfl, rfl⟩
  · exact ⟨rfl, rfl, rfl⟩

theorem sameTable_prefetcher {p : BlobFilePrefetcher} (h : b.prefetcher cfg io n = .ok (p, t)) :
    SameTable b.builder t := by
  unfold prefetcher Status.failing TitanTableBuilder.prefetcher at h
  repeat' split at h
  all_goals
    cases h
    try exact ⟨rfl, rfl, rfl⟩

theorem Whole.sameTable (h : b.Whole) {builder : TitanTableBuilder}
    (hsame : SameTable b.builder builder) : { b with builder }.Whole := by
  refine ⟨ok_iff.2 ⟨?_, h.base, fun hblob => ?_⟩, fun hblob => ?_⟩
  · exact hsame.status.symm ▸ h.status
  · exact h.blob (hsame.blob ▸ hblob)
  · exact h.handle (hsame.blob ▸ hblob)

theorem isOk_of_openFile_error {n size : UInt64}
    (h : dir.findFile K n size = .error s) : s.isOk = false := by
  unfold BlobDir.findFile at h
  split at h
  case h_1 =>
    cases h
    rfl
  case h_2 =>
    dsimp only at h
    split at h
    case isTrue => cases h
    case isFalse hbad =>
      cases h
      exact Bool.eq_false_of_not_eq_true hbad

theorem isOk_of_newPrefetcher_error {st : BlobStorage}
    (h : st.newPrefetcher K dir n = .error s) : s.isOk = false := by
  unfold BlobStorage.newPrefetcher at h
  split at h
  case h_1 =>
    cases h
    rfl
  case h_2 =>
    split at h
    case h_1 hfile =>
      cases h
      exact isOk_of_openFile_error hfile
    case h_2 => cases h

theorem isOk_of_prefetcher_error (h : b.prefetcher cfg io n = .error s) : s.isOk = false := by
  unfold prefetcher at h
  cases hmade : b.builder.mergingFiles.lookup n with
  | some p =>
    rw [hmade] at h
    cases h
  | none =>
    rw [hmade] at h
    unfold Status.failing at h
    dsimp only at h
    split at h
    case isFalse hbad =>
      cases h
      exact Bool.eq_false_of_not_eq_true hbad
    case isTrue =>
      unfold TitanTableBuilder.prefetcher at h
      rw [hmade] at h
      dsimp only at h
      split at h
      case h_1 hnew =>
        cases h
        exact isOk_of_newPrefetcher_error hnew
      case h_2 => cases h

/-- The branch that merges. -/
theorem merge_outcome (h : b.Whole) (hcarries : ∀ value type,
      Carries parse c { e with type, value }) :
    ∃ b', b.merge cfg io e = some b' ∧ Outcome (b.MergeLoses cfg io e) parse b c b' := by
  unfold merge MergeLoses
  cases hindex : decodeFrom cfg.codec.coding e.value with
  | error s =>
    exact ⟨_, rfl, .lost trivial (h.setStatus (isOk_of_decodeFrom_error hindex))⟩
  | ok found =>
    obtain ⟨index, rest⟩ := found
    dsimp only
    have hsame := sameTable_encounter b.builder io.storage index.fileNumber
    generalize b.builder.encounter io.storage index.fileNumber = found at hsame ⊢
    have h₁ := h.sameTable hsame
    by_cases hmerge : shouldMerge cfg found.1 = true
    case neg =>
      rw [if_neg hmerge]
      exact ⟨_, rfl, .emit (fun hl => hmerge hl.1) h₁ hsame.table (hcarries _ _) _⟩
    case pos =>
      rw [if_pos hmerge]
      cases hp : ({ b with builder := found.2 }
          : FallibleTableBuilder).prefetcher cfg io index.fileNumber with
      | error s =>
        refine ⟨_, rfl, .emit_lost ?_ (h₁.setStatus (isOk_of_prefetcher_error hp))⟩
        exact ⟨fun hl => hl.2.1, fun hio => ⟨hmerge, hio, trivial⟩⟩
      | ok made =>
        obtain ⟨p, builder⟩ := made
        have hsame' := sameTable_prefetcher hp
        have h₂ := h₁.sameTable hsame'
        have htable := hsame'.table.trans hsame.table
        dsimp only
        cases io.prefetcherGet.failing (p.get cfg.codec index.blobHandle) with
        | error s =>
          exact ⟨_, rfl, .emit (fun hl => nomatch hl.2.2.1) h₂ htable (hcarries _ _) _⟩
        | ok record =>
          refine mergeRecord_outcome ?_ h₂ htable hcarries record.value
          have hblob : builder.blob = b.builder.blob := hsame'.blob.trans hsame.blob
          unfold NoFile
          rw [hblob]
          exact ⟨fun hl => ⟨hl.2.1, hl.2.2.2⟩, fun hl => ⟨hmerge, hl.1, rfl, hl.2⟩⟩

/-- `Add`. -/
theorem add_outcome (cfg : TableBuilderConfig) (parse : ParseInternalKey)
    (h : b.Whole) (c : AddCall) :
    ∃ b', b.add cfg parse c = some b' ∧ Outcome (b.Loses cfg parse c) parse b c b' := by
  unfold add Loses
  rw [if_neg (by simp [h.ok])]
  simp only [h.ok, true_and]
  cases hkey : parse c.key with
  | none => exact ⟨_, rfl, .lost trivial (h.setStatus rfl)⟩
  | some parsed =>
    obtain ⟨userKey, sequence, type⟩ := parsed
    have hcarries : ∀ value type', Carries parse c { userKey, sequence, type := type', value } :=
      fun _ _ => ⟨type, hkey⟩
    dsimp only
    split
    · exact ⟨_, rfl, ingest_outcome (e := { userKey, sequence, type, value := c.value }) h hcarries⟩
    · split
      · exact separate_outcome h hcarries
      · split
        · exact merge_outcome h hcarries
        · exact ⟨_, rfl, .emit id h rfl (hcarries _ _) _⟩

-- ==== a run

/-- After an error `Add` returns at once. -/
theorem exec_of_not_ok (cfg : TableBuilderConfig) (parse : ParseInternalKey)
    (h : b.ok = false) (calls : List AddCall) :
    exec (add cfg parse) b calls = some b
      ∧ Meets (add cfg parse) (fun b c => ¬ b.Loses cfg parse c) b calls := by
  have hadd : ∀ c, b.add cfg parse c = some b := by
    intro c
    unfold add
    rw [if_pos (by simp [h])]
  induction calls with
  | nil => exact ⟨rfl, trivial⟩
  | cons c calls ih =>
    refine ⟨exec_cons_iff.2 ⟨b, hadd c, ih.1⟩, fun hl => ?_, ?_⟩
    · exact Bool.false_ne_true (h.symm.trans hl.1)
    · rw [hadd c]
      exact ih.2

/-- A run of calls on a builder that is OK. If none of them has its error
in `status_` only, each has handed on its entry or there is an error that
stays. -/
theorem exec_outcome (cfg : TableBuilderConfig) (parse : ParseInternalKey)
    (h : b.Whole) (calls : List AddCall) :
    ∃ b', exec (add cfg parse) b calls = some b'
      ∧ (Meets (add cfg parse) (fun b c => ¬ b.Loses cfg parse c) b calls
          ∧ (b'.Broken ∨ b'.Whole ∧ ∃ es,
            b'.builder.table = b.builder.table ++ es ∧ List.Forall₂ (Carries parse) calls es)
        ∨ ¬ Meets (add cfg parse) (fun b c => ¬ b.Loses cfg parse c) b calls ∧ b'.Lost) := by
  induction calls generalizing b with
  | nil =>
    exact ⟨b, rfl, .inl ⟨trivial, .inr ⟨h, [], (List.append_nil _).symm, .nil⟩⟩⟩
  | cons c calls ih =>
    obtain ⟨b₁, hadd, hout⟩ := add_outcome cfg parse h c
    have hmeets : Meets (add cfg parse) (fun b c => ¬ b.Loses cfg parse c) b (c :: calls)
        ↔ ¬ b.Loses cfg parse c ∧ Meets (add cfg parse)
          (fun b c => ¬ b.Loses cfg parse c) b₁ calls := by
      rw [Meets, hadd]
    rw [hmeets]
    cases hout with
    | lost hloses hlost =>
      obtain ⟨hrun, -⟩ := exec_of_not_ok cfg parse hlost.not_ok calls
      exact ⟨b₁, exec_cons_iff.2 ⟨b₁, hadd, hrun⟩, .inr ⟨fun hm => hm.1 hloses, hlost⟩⟩
    | broken hloses hbroken =>
      obtain ⟨hrun, hrest⟩ := exec_of_not_ok cfg parse hbroken.not_ok calls
      exact ⟨b₁, exec_cons_iff.2 ⟨b₁, hadd, hrun⟩, .inl ⟨⟨hloses, hrest⟩, .inl hbroken⟩⟩
    | @handed e hloses hwhole hcarries htable =>
      obtain ⟨b', hrun, hend⟩ := ih hwhole
      refine ⟨b', exec_cons_iff.2 ⟨b₁, hadd, hrun⟩, ?_⟩
      rcases hend with ⟨hrest, hbroken | ⟨hwhole', es, hes, hall⟩⟩ | hlost
      · exact .inl ⟨⟨hloses, hrest⟩, .inl hbroken⟩
      · refine .inl ⟨⟨hloses, hrest⟩, .inr ⟨hwhole', e :: es, ?_, .cons hcarries hall⟩⟩
        rw [hes, htable, List.append_assoc]
        rfl
      · exact .inr ⟨fun hm => hlost.1 hm.2, hlost.2⟩

-- ==== `Finish`

/-- `FinishBlobFile` writes nothing to the table and nothing to the base
builder, and does not repair the blob builder. -/
theorem finishBlobFile_keeps {appendFooter deleteFile : Status}
    (h : b.finishBlobFile cfg appendFooter deleteFile = some b') :
    b'.builder.table = b.builder.table ∧ (b.Broken → b'.Broken) := by
  unfold finishBlobFile at h
  cases hblob : b.builder.blob with
  | none =>
    rw [hblob] at h
    cases h
    exact ⟨rfl, id⟩
  | some blob =>
    rw [hblob] at h
    dsimp only at h
    split at h
    case isTrue hok =>
      cases h
      refine ⟨?_, fun hbroken => ?_⟩
      · simp only [TitanTableBuilder.finishBlobFile, hblob]
      -- then there was no error to start with
      have hwas : ({ b with
          blobStatus := keepError b.blobStatus appendFooter }
          : FallibleTableBuilder).Broken :=
        hbroken.imp_right fun ⟨hsome, hbad⟩ =>
          ⟨hsome, isOk_keepError_of_failed hbad⟩
      exact absurd hok (Bool.not_eq_true _ ▸ hwas.not_ok)
    case isFalse =>
      split at h
      case isTrue =>
        cases h
        exact ⟨rfl, fun hbroken => hbroken.imp_right
          fun ⟨hsome, hbad⟩ => ⟨hsome, isOk_keepError_of_failed hbad⟩⟩
      case isFalse => cases h

/-- An error that stays is returned. -/
theorem Broken.finish (h : b.Broken) {io : TableFinishIO}
    (hfinish : b.finish cfg io = some b') : b'.ok = false := by
  unfold FallibleTableBuilder.finish at hfinish
  dsimp only at hfinish
  split at hfinish
  case h_1 => cases hfinish
  case h_2 b₁ hblob =>
    cases hfinish
    have hbase : ({ b with baseStatus := keepError b.baseStatus io.base }
        : FallibleTableBuilder).Broken := h.imp_left isOk_keepError_of_failed
    exact Broken.not_ok ((finishBlobFile_keeps hblob).2 hbase)

theorem finish_table {io : TableFinishIO} (hfinish : b.finish cfg io = some b') :
    b'.builder.table = b.builder.table := by
  unfold FallibleTableBuilder.finish at hfinish
  dsimp only at hfinish
  split at hfinish
  case h_1 => cases hfinish
  case h_2 b₁ hblob =>
    cases hfinish
    exact (finishBlobFile_keeps hblob).1

/-- Nothing fails in `Finish`. -/
def TableFinishIO.allOk : TableFinishIO where
  batchFinishFiles fs _ := (.ok, fs)

/-- An error in `status_` only is forgotten. -/
theorem Lost.finish (cfg : TableBuilderConfig) (h : b.Lost) :
    ∃ b', b.finish cfg TableFinishIO.allOk = some b' ∧ b'.ok = true := by
  have hbase : (keepError b.baseStatus TableFinishIO.allOk.base).isOk = true :=
    isOk_keepError.2 ⟨h.base, rfl⟩
  unfold FallibleTableBuilder.finish finishBlobFile
  dsimp only
  cases hblob : b.builder.blob with
  | none =>
    refine ⟨_, rfl, ok_iff.2 ⟨rfl, hbase, fun hsome => ?_⟩⟩
    rw [show b.builder.blob = none from hblob] at hsome
    cases hsome
  | some blob =>
    obtain ⟨hblobok, hhandle⟩ := h.blob (Option.isSome_of_mem hblob)
    have hfailed : ({ b with
        baseStatus := keepError b.baseStatus TableFinishIO.allOk.base
        blobStatus := keepError b.blobStatus
          TableFinishIO.allOk.appendFooter } : FallibleTableBuilder).ok
        ≠ true :=
      fun hok => Bool.false_ne_true (h.status.symm.trans (ok_iff.1 hok).1)
    dsimp only
    -- the open file is deleted, and its builder has no error
    rw [if_neg hfailed, if_pos hhandle]
    exact ⟨_, rfl, ok_iff.2 ⟨rfl, hbase, fun _ =>
      isOk_keepError.2 ⟨hblobok, rfl⟩⟩⟩

/-- A builder as it is constructed. -/
def create (fileSet : BlobFileSet) (dir : BlobDir) : FallibleTableBuilder where
  builder := { fileSet, dir }

theorem whole_create (fileSet : BlobFileSet) (dir : BlobDir) :
    (create fileSet dir).Whole := ⟨rfl, fun hblob => nomatch hblob⟩

/-- A run of calls gets to its end, whatever fails. Then whenever `Finish`
returns OK every call has handed on one entry with its user key and
sequence number and none has left an error, if and only if no call has
met an error that goes to `status_` only. -/
theorem no_entry_lost_iff (cfg : TableBuilderConfig) (parse : ParseInternalKey)
    (fileSet : BlobFileSet) (dir : BlobDir) (calls : List AddCall) :
    ∃ b, exec (add cfg parse) (create fileSet dir) calls = some b
      ∧ ((∀ io b', b.finish cfg io = some b' → b'.status.isOk = true →
            List.Forall₂ (Carries parse) calls b'.builder.table ∧ b.status.isOk = true)
          ↔ Meets (add cfg parse) (fun b c => ¬ b.Loses cfg parse c)
            (create fileSet dir) calls) := by
  obtain ⟨b, hrun, hend⟩ := exec_outcome cfg parse (whole_create fileSet dir) calls
  refine ⟨b, hrun, fun hreturned => ?_, fun hmeets io b' hfinish hok => ?_⟩
  · rcases hend with ⟨hmeets, -⟩ | ⟨-, hlost⟩
    · exact hmeets
    · obtain ⟨b', hfinish, hok⟩ := hlost.finish cfg
      have hno : b.status.isOk = true := (hreturned _ b' hfinish hok).2
      exact absurd hno (Bool.not_eq_true _ ▸ hlost.not_ok)
  · rcases hend with ⟨-, hbroken | ⟨hwhole, es, hes, hall⟩⟩ | ⟨hnot, -⟩
    · exact absurd hok (Bool.not_eq_true _ ▸ hbroken.finish hfinish)
    · refine ⟨?_, hwhole.ok⟩
      rw [finish_table hfinish, hes]
      exact hall
    · exact absurd hmeets hnot

/-- Internal keys of two bytes, of which the second says that it is a
value. -/
def parseTwoBytes : ParseInternalKey
  | [k, 1] => some (UserKey.byte k, 1, .kTypeValue)
  | _ => none

/-- No file can be made for the first value; the second one is inline. -/
def unfiledCalls : List AddCall :=
  [{ key := [1, 1], value := [5, 6, 7],
     io := {
      storage := TitanTableBuilder.emptyStorage
      newFile := .ioError "No space left on device" } },
    { key := [2, 1], value := [7],
      io := { storage := TitanTableBuilder.emptyStorage } }]

/-- Neither is in the table, and `Finish` returns OK. -/
theorem unfiledCalls_lost :
    ((exec (add TitanTableBuilder.mergingConfig parseTwoBytes)
        (create TitanTableBuilder.emptyFileSet Table.empty) unfiledCalls).bind
        (·.finish TitanTableBuilder.mergingConfig (.faultless TitanTableBuilder.mergingConfig))).map
        (fun b => (b.status, b.builder.table)) = some (.ok, []) := by
  decide +kernel

end FallibleTableBuilder

end DiffKV
