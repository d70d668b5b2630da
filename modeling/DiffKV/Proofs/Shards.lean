/-
The files of the foreground builders. A builder keeps its files, open or
finished, until it is asked for a flush, which installs them all.
-/
import DiffKV.Proofs.Filed

namespace DiffKV

open Lib List Option Db

variable {cfg : Config} {db db' : Db} {inputs hidden : List UInt64}
  {n : UInt64} {b c : Nat} {number : UInt64} {created : Bool}
  {result : Except Status UInt64} {record : BlobRecord} {index : BlobIndex}
  {job job' : GcJob}

/-- The files of builder `b`. -/
def Db.shardFiles (db : Db) (b : Nat) : List UInt64 :=
  (db.shards[b]?.map Shard.numbers).getD []

theorem mem_shardFiles : n ∈ db.shardFiles b ↔ ∃ s, db.shards[b]? = some s ∧ n ∈ s.numbers := by
  unfold shardFiles
  cases db.shards[b]? <;> simp

theorem shardFiles_setShard {shard : Shard} (hb : b < db.shards.length) :
    (db.setShard b shard).shardFiles c = if c = b then shard.numbers else db.shardFiles c := by
  unfold shardFiles setShard
  rw [getElem?_set]
  by_cases hc : c = b
  · rw [if_pos hc, if_pos hc.symm, if_pos (by omega)]
    rfl
  · rw [if_neg hc, if_neg fun h => hc h.symm]

private theorem lt_of_getElem? {s : Shard} (h : db.shards[b]? = some s) :
    b < db.shards.length := (List.getElem?_eq_some_iff.1 h).1

theorem mem_shardFiles_finishBlob :
    n ∈ (db.finishBlob cfg b).shardFiles c ↔ n ∈ db.shardFiles c := by
  unfold finishBlob
  split
  case h_1 => rfl
  case h_2 shard hb =>
    split
    case h_1 => rfl
    case h_2 number hh =>
      split
      case h_1 => rfl
      case h_2 file _ =>
        rw [shardFiles_setShard (lt_of_getElem? hb)]
        split
        case isFalse => rfl
        case isTrue hc =>
          subst hc
          rw [mem_shardFiles, hb]
          simp [Shard.numbers, hh, finishedMeta, BlobFileMeta.fileStateTransit, or_comm, eq_comm]

theorem mem_shardFiles_rollOver :
    n ∈ (db.rollOver cfg b number).shardFiles c ↔ n ∈ db.shardFiles c := by
  unfold rollOver
  split
  · rfl
  · split
    · exact mem_shardFiles_finishBlob
    · rfl

theorem shards_newFile (h : db.newFile created = some (result, db')) : db'.shards = db.shards := by
  unfold newFile at h
  dsimp only at h
  split at h
  case isFalse => cases h
  case isTrue =>
    split at h
    case isTrue => cases h; rfl
    case isFalse => cases h; rfl

/-- The file a builder writes to is one of its files, and no file is
lost. -/
theorem shardFiles_openFile (h : db.openFile cfg b created = some (result, db')) :
    (∀ c, db.shardFiles c ⊆ db'.shardFiles c)
      ∧ ∀ number, result = .ok number → number ∈ db'.shardFiles b := by
  unfold openFile at h
  split at h
  case h_1 => cases h
  case h_2 shard hb =>
    split at h
    case h_1 number hh =>
      cases h
      refine ⟨fun _ => List.Subset.refl _, ?_⟩
      intro k hk
      cases hk
      exact mem_shardFiles.2 ⟨shard, hb, by simp [Shard.numbers, hh]⟩
    case h_2 hh =>
      split at h
      case h_1 => cases h
      case h_2 hnew =>
        cases h
        unfold shardFiles
        rw [shards_newFile hnew]
        refine ⟨fun _ => List.Subset.refl _, ?_⟩
        intro _ hk
        cases hk
      case h_3 number db₁ hnew =>
        cases h
        have hsh := shards_newFile hnew
        have hlt : b < db₁.shards.length := hsh ▸ lt_of_getElem? hb
        have hset : ∀ c, shardFiles (setShard { db₁ with
            fileSet := db₁.fileSet.addBuildingFile cfg.cfId number } b
              { shard with handle := some number }) c
            = if c = b then number :: shard.finished.map (·.fileNumber) else db.shardFiles c := by
          intro c
          refine (shardFiles_setShard (by exact hlt)).trans ?_
          unfold shardFiles
          rw [← hsh]
          rfl
        refine ⟨?_, ?_⟩
        · intro c k hk
          rw [hset]
          split
          case isFalse => exact hk
          case isTrue hc =>
            subst hc
            obtain ⟨s, hs, hk⟩ := mem_shardFiles.1 hk
            cases hb.symm.trans hs
            have hk : k ∈ shard.finished.map (·.fileNumber) := by
              simpa [Shard.numbers, hh] using hk
            exact mem_cons_of_mem _ hk
        · intro k hk
          cases hk
          rw [hset, if_pos rfl]
          exact mem_cons_self

theorem shardFiles_flushShard (hc : c ≠ b) :
    n ∈ (db.flushShard cfg b).shardFiles c ↔ n ∈ db.shardFiles c := by
  have hfinish : n ∈ (db.finishBlob cfg b).shardFiles c
      ↔ n ∈ db.shardFiles c := mem_shardFiles_finishBlob
  rw [← hfinish]
  unfold flushShard
  dsimp only
  split
  case h_1 => rfl
  case h_2 shard hb =>
    split
    case isTrue => rfl
    case isFalse =>
      have hlt : b < ((db.finishBlob cfg b).batchFinishFiles cfg
          shard.finished).2.shards.length := lt_of_getElem? hb
      rw [shardFiles_setShard hlt, if_neg hc]
      rfl

/-- `FinishBlob` finishes all files of the builder. -/
private theorem finished_finishBlob (hn : n ∈ db.shardFiles b)
    (hdisk : (db.disk.lookup n).isSome = true) :
    ∃ s, (db.finishBlob cfg b).shards[b]? = some s ∧ n ∈ s.finished.map (·.fileNumber) := by
  obtain ⟨s, hs, hn⟩ := mem_shardFiles.1 hn
  unfold finishBlob
  rw [hs]
  dsimp only
  cases hh : s.handle with
  | none => exact ⟨s, hs, by simpa [Shard.numbers, hh] using hn⟩
  | some number =>
    have hn : n = number ∨ n ∈ s.finished.map (·.fileNumber) := by
      simpa [Shard.numbers, hh] using hn
    dsimp only
    cases hd : db.disk.lookup number with
    | none =>
      refine ⟨s, hs, hn.resolve_left fun he => ?_⟩
      rw [he, hd] at hdisk
      cases hdisk
    | some file =>
      have hset : (db.shards.set b { handle := none, finished := s.finished
          ++ [finishedMeta cfg number file] })[b]?
          = some { handle := none, finished := s.finished ++ [finishedMeta cfg number file] } := by
        rw [getElem?_set_self (lt_of_getElem? hs)]
      refine ⟨_, hset, ?_⟩
      rw [map_append, mem_append]
      rcases hn with rfl | hn
      · exact .inr mem_cons_self
      · exact .inl hn

namespace Filing

theorem building_of_shardFiles (h : Filing cfg db inputs hidden)
    (hn : n ∈ db.shardFiles b) : db.building cfg n = true := by
  obtain ⟨s, hs, hn⟩ := mem_shardFiles.1 hn
  exact h.shards_building (mem_flatMap.2 ⟨s, mem_of_getElem? hs, hn⟩)

end Filing

-- ==== which steps flush which

/-- The builder that `ForegroundBuilder::Add` asks for a flush: a record
with an empty key looks like such a request. -/
def Config.flushedBy (cfg : Config) (key : UserKey) (value : Bytes) : Option Nat :=
  if cfg.separates value && key.isEmpty then some (cfg.shardOf key) else none

/-- The builder that a step asks for a flush. -/
def Db.flushes (cfg : Config) (db : Db) : Action → Option Nat
  | .flushShard b => some b
  | .putAdd key value _ =>
    if cfg.dbOptions.sepBeforeFlush then cfg.flushedBy key value else none
  | .gcStep j _ =>
    match (db.jobs[j]?).map GcJob.stage with
    | some (.add _ record) => cfg.flushedBy record.key record.value
    | _ => none
  | _ => none

theorem shards_append (h : db.append cfg number record = some (index, db')) :
    db'.shards = db.shards ∧ index.fileNumber = number := by
  unfold append at h
  split at h
  case h_1 => cases h
  case h_2 =>
    split at h
    case h_1 => cases h
    case h_2 => cases h; exact ⟨rfl, rfl⟩

theorem shardFiles_builderAdd {key : UserKey} {value : Bytes} {result : Except Status WriteBatch}
    (h : db.builderAdd cfg key value created = some (result, db')) :
    (∀ {c n}, n ∈ db.shardFiles c → cfg.flushedBy key value ≠ some c → n ∈ db'.shardFiles c)
      ∧ ∀ batch, result = .ok batch → ∀ p ∈ batch.indexes cfg.coding,
        p.1 = key ∧ p.2.fileNumber ∈ db'.shardFiles (cfg.shardOf key) := by
  unfold builderAdd at h
  split at h
  case isTrue =>
    cases h
    exact ⟨fun hn _ => hn, fun _ hb => nomatch hb⟩
  case isFalse hsep =>
    have hsep : cfg.separates value = true := by simpa using hsep
    split at h
    case isTrue hempty =>
      cases h
      refine ⟨?_, ?_⟩
      · intro c n hn hflush
        refine (shardFiles_flushShard fun hc => hflush ?_).2 hn
        unfold Config.flushedBy
        rw [hsep, hempty, hc]
        rfl
      · intro batch hb
        cases hb
        exact fun p hp => nomatch hp
    case isFalse =>
      unfold addRecord at h
      split at h
      case h_1 => cases h
      case h_2 s db₁ hopen =>
        cases h
        exact ⟨fun {c n} hn _ => (shardFiles_openFile hopen).1 c hn, fun _ hb => nomatch hb⟩
      case h_3 number db₁ hopen =>
        obtain ⟨hkeep, hmem⟩ := shardFiles_openFile hopen
        split at h
        case h_1 => cases h
        case h_2 index db₂ happ =>
          cases h
          obtain ⟨hsh, hnum⟩ := shards_append happ
          have hsame : ∀ c, db₂.shardFiles c = db₁.shardFiles c := by
            intro c
            unfold shardFiles
            rw [hsh]
          refine ⟨?_, ?_⟩
          · intro c n hn _
            rw [mem_shardFiles_rollOver, hsame]
            exact hkeep c hn
          · intro batch hb p hp
            cases hb
            have hp : p = (key, index) := by
              simpa [WriteBatch.indexes] using hp
            subst hp
            refine ⟨rfl, ?_⟩
            rw [mem_shardFiles_rollOver, hsame, hnum]
            exact hmem number rfl

theorem shards_addOutput (h : db.addOutput cfg job index record created = some (job', db')) :
    db'.shards = db.shards := by
  have hout : ∀ {result db₁}, db.outputFile cfg job created
      = some (result, db₁) → db₁.shards = db.shards := by
    intro result db₁ hout
    have hnew : outputFile.newOutput db job created = some (result, db₁) →
        db₁.shards = db.shards := by
      intro hout
      unfold outputFile.newOutput at hout
      split at hout
      case h_1 => cases hout
      case h_2 hn => cases hout; exact shards_newFile hn
      case h_3 hn => cases hout; exact shards_newFile hn
    unfold outputFile at hout
    split at hout
    case h_1 =>
      split at hout
      case isTrue => cases hout; rfl
      case isFalse => exact hnew hout
    case h_2 => exact hnew hout
  unfold addOutput at h
  split at h
  case h_1 => cases h
  case h_2 ho =>
    cases h
    exact hout ho
  case h_3 ho =>
    split at h
    case h_1 => cases h
    case h_2 happ =>
      cases h
      exact (shards_append happ).1.trans (hout ho)

/-- Only the relocation of a live record through the `ForegroundBuilder`
touches the builders. -/
theorem shards_gcStep {io : GcIO} (h : db.gcStep cfg job io = some (job', db')) :
    db'.shards = db.shards ∨ ∃ i r, job.stage = .add i r
      ∧ ∃ result, db.builderAdd cfg r.key r.value io.created = some (result, db') := by
  unfold gcStep at h
  split at h
  case h_1 =>
    left
    cases checkCase h with
    | copied _ _ _ hadd => exact shards_addOutput hadd
    | _ => rfl
  case h_2 i r hstage =>
    right
    refine ⟨i, r, hstage, ?_⟩
    unfold gcAdd at h
    split at h
    case h_1 => cases h
    case h_2 hadd => cases h; exact ⟨_, hadd⟩
    case h_3 hadd => cases h; exact ⟨_, hadd⟩
  case h_3 =>
    left
    refine (congrArg (·.2.shards) (some.inj h)).symm.trans ?_
    unfold gcWrite
    split <;> rfl
  case h_4 =>
    left
    refine (congrArg (·.2.shards) (some.inj h)).symm.trans ?_
    unfold gcInstall installOutputBlobFiles
    dsimp only
    split <;> rfl
  case h_5 rest _ =>
    left
    refine (congrArg (·.2.shards) (some.inj h)).symm.trans ?_
    cases rest with
    | nil => rfl
    | cons =>
      unfold gcRewrite rewriteOne
      dsimp only
      split <;> rfl
  case h_6 =>
    left
    refine (congrArg (·.2.shards) (some.inj h)).symm.trans ?_
    unfold gcDelete
    split <;> rfl
  case h_7 =>
    left
    cases h
    rfl
  case h_8 => cases h

/-- A builder keeps its files until it is asked for a flush. -/
theorem shardFiles_step {a : Action} (h : db.step cfg a = some db')
    (hflush : db.flushes cfg a ≠ some c) (hn : n ∈ db.shardFiles c) : n ∈ db'.shardFiles c := by
  cases a with
  | putAdd key value created =>
    replace h : db.putAdd cfg key value created = some db' := h
    unfold putAdd at h
    split at h
    case isFalse => cases h; exact hn
    case isTrue hsep =>
      split at h
      case h_1 => cases h
      case h_2 result db₁ hadd =>
        cases h
        have hkeep : n ∈ db₁.shardFiles c := by
          refine (shardFiles_builderAdd hadd).1 hn ?_
          unfold flushes at hflush
          dsimp only at hflush
          rwa [if_pos hsep] at hflush
        exact hkeep
  | putWrite i =>
    replace h : db.putWrite i = some db' := h
    unfold putWrite at h
    split at h
    case h_1 => cases h
    case h_2 => cases h; exact hn
  | flushShard b =>
    cases h
    refine (shardFiles_flushShard fun hc => hflush ?_).2 hn
    rw [hc]
    rfl
  | gcPick inputs todo =>
    replace h : db.gcPick cfg inputs todo = some db' := h
    unfold gcPick at h
    split at h
    case isFalse => cases h
    case isTrue => cases h; exact hn
  | gcStep j io =>
    unfold step at h
    dsimp only at h
    split at h
    case h_1 => cases h
    case h_2 job hj =>
      split at h
      case h_1 => cases h
      case h_2 job' db₁ hjob =>
        cases h
        have hkeep : n ∈ db₁.shardFiles c := by
          rcases shards_gcStep hjob with hsh | ⟨i, r, hstage, result, hadd⟩
          · unfold shardFiles at hn ⊢
            rwa [hsh]
          · refine (shardFiles_builderAdd hadd).1 hn ?_
            unfold flushes at hflush
            dsimp only at hflush
            rwa [hj, map_some, hstage] at hflush
        exact hkeep
  | purgeApply i =>
    unfold step at h
    dsimp only at h
    split at h
    case h_1 => cases h
    case h_2 => cases h; exact hn
  | delete | flushCompleted | takeSnapshot | releaseSnapshot | purgeRead =>
    cases h
    exact hn

end DiffKV
