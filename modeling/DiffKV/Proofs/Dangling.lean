/-
A Put writes its blob index after its record. In between a flush may
install the file of the record, as a file like any other: a GC job that
picks it finds no index that points at the record and drops it.

If no builder is asked for a flush while it holds the record of such a
Put, every index a Put writes points into a file that is still being
built, and so no job collects it.
-/
import DiffKV.Proofs.Effects
import DiffKV.Proofs.Open
import DiffKV.Proofs.Shards

namespace DiffKV

open Lib Db

variable {cfg : Config} {db db' : Db} {p : UserKey × BlobIndex} {a : Action}

namespace Db

variable (cfg : Config)

/-- The blob indexes of the Puts between their two steps. -/
def pendingPuts (db : Db) : List (UserKey × BlobIndex) :=
  db.puts.flatMap fun put => put.batch.indexes cfg.coding

/-- A builder that is asked for a flush has no file with the record of
such a Put. -/
def FlushesNoPendingPut (db : Db) (a : Action) : Prop :=
  ∀ b ∈ db.flushes cfg a, ∀ p ∈ db.pendingPuts cfg, p.2.fileNumber ∉ db.shardFiles b

instance (db : Db) (a : Action) : Decidable (db.FlushesNoPendingPut cfg a) := by
  unfold FlushesNoPendingPut
  infer_instance

/-- The files of these records are being built or live, and no GC job
collects them. -/
def PutsSafe (db : Db) : Prop :=
  ∀ p ∈ db.pendingPuts cfg, db.usable cfg p.2.fileNumber = true
    ∧ ∀ job ∈ db.jobs, p.2.fileNumber ∉ job.inputs

/-- The files of these records are with the builders that wrote them. -/
def PutsHeld (db : Db) : Prop :=
  ∀ p ∈ db.pendingPuts cfg, p.2.fileNumber ∈ db.shardFiles (cfg.shardOf p.1)

end Db

-- ==== one step

/-- The index of a new Put points into a file of the builder that serves
its key. -/
private theorem pendingPuts_putAdd (hfiled : Filed cfg db) {key : UserKey}
    {value : Bytes} {created : Bool} (h : db.putAdd cfg key value created = some db')
    (hp : p ∈ db'.pendingPuts cfg) :
    p ∈ db.pendingPuts cfg ∨ p.2.fileNumber ∈ db'.shardFiles (cfg.shardOf p.1) := by
  unfold putAdd at h
  split at h
  case isFalse =>
    cases h
    left
    simpa [pendingPuts, WriteBatch.indexes] using hp
  case isTrue hsep =>
    split at h
    case h_1 => cases h
    case h_2 result db₁ hadd =>
      cases h
      have hputs := (hfiled.filing.builderAdd hsep hadd).extends_.puts
      cases result with
      | error s =>
        left
        simpa [pendingPuts, WriteBatch.indexes, hputs] using hp
      | ok batch =>
        have hp : p ∈ db.pendingPuts cfg ++ batch.indexes cfg.coding := by
          simpa [pendingPuts, hputs] using hp
        rcases List.mem_append.1 hp with hp | hp
        · exact .inl hp
        · obtain ⟨rfl, hmem⟩ := (shardFiles_builderAdd hadd).2 batch rfl p hp
          exact .inr hmem

theorem pendingPuts_step (hfiled : Filed cfg db)
    (h : db.step cfg a = some db') (hp : p ∈ db'.pendingPuts cfg) :
    p ∈ db.pendingPuts cfg ∨ p.2.fileNumber ∈ db'.shardFiles (cfg.shardOf p.1) := by
  have hsame : db'.puts = db.puts → p ∈ db.pendingPuts cfg := by
    intro he
    unfold pendingPuts at hp ⊢
    rwa [he] at hp
  cases hfiled.dbStep h with
  | putAdd => exact pendingPuts_putAdd hfiled h hp
  | putWrite =>
    obtain ⟨q, hq, hp⟩ := List.mem_flatMap.1 hp
    exact .inl (List.mem_flatMap.2 ⟨q, List.mem_of_mem_eraseIdx hq, hp⟩)
  | flushShard hext | flushCompleted hext | gcPick hext =>
    exact .inl (hsame hext.puts)
  | gcStep _ _ _ hjob => exact .inl (hsame hjob.puts)
  | delete | takeSnapshot | releaseSnapshot | purgeRead | purgeApply =>
    exact .inl (hsame rfl)

theorem Db.PutsHeld.step (hfiled : Filed cfg db) (h : db.PutsHeld cfg)
    (hcond : db.FlushesNoPendingPut cfg a) (hstep : db.step cfg a = some db') :
    db'.PutsHeld cfg := by
  intro p hp
  rcases pendingPuts_step hfiled hstep hp with hp | hnew
  · refine shardFiles_step hstep ?_ (h p hp)
    intro hflush
    exact hcond _ hflush p hp (h p hp)
  · exact hnew

theorem Db.PutsHeld.safe (hfiled : Filed cfg db) (h : db.PutsHeld cfg) : db.PutsSafe cfg := by
  intro p hp
  have hbuild := hfiled.filing.building_of_shardFiles (h p hp)
  refine ⟨usable_iff.2 (.inl hbuild), fun job hjob hin => ?_⟩
  exact (hfiled.filing.building_new hbuild).2.2 (List.mem_flatMap.2 ⟨job, hjob, hin⟩)

-- ==== runs

/-- In a run in which no builder is asked for a flush while it holds the
record of a Put between its two steps, every blob index a Put is about
to write points into a file that is being built or live, and no job
collects it. -/
theorem puts_never_dangle {as : List Action} (hfiled : Filed cfg db) (hputs : db.puts = [])
    (hmeets : Meets (Db.step cfg) (Db.FlushesNoPendingPut cfg) db as)
    (hexec : db.exec cfg as = some db') : db'.PutsSafe cfg := by
  have hstart : Filed cfg db ∧ db.PutsHeld cfg := by
    refine ⟨hfiled, fun p hp => ?_⟩
    unfold pendingPuts at hp
    rw [hputs] at hp
    cases hp
  have hend := exec_keeps (I := fun db => Filed cfg db ∧ db.PutsHeld cfg)
    (fun h hc hs => ⟨h.1.step hs, h.2.step h.1 hc hs⟩) hstart hmeets hexec
  exact hend.2.safe hend.1

/-- The file of a Put is installed and collected before the Put writes
its index. -/
def collectPending : List Action :=
  [.putAdd (.byte 1) [7] true, .flushShard 0,
    .gcPick [2] [(.first 2, { key := .byte 1, value := [7] })],
    .gcStep 0 {}, .gcStep 0 {}, .gcStep 0 {}]

/-- The Put is about to write an index into file 2, which is
obsolete. -/
theorem collectPending_not_safe :
    ∃ db, (Db.create .small).exec .small collectPending = some db ∧ ¬ db.PutsSafe .small := by
  obtain ⟨db, hdb, put, hput, hunusable⟩ : ∃ db ∈ (create .small).exec .small collectPending,
      ∃ put ∈ db.pendingPuts .small, ¬ db.usable .small put.2.fileNumber = true := by decide +kernel
  exact ⟨db, hdb, fun hsafe => hunusable (hsafe put hput).1⟩

/-- A file without such a record is collected while a Put is between its
two steps. -/
def collectWritten : List Action :=
  [.putAdd (.byte 1) [7] true, .putWrite 0, .flushShard 0, .putAdd (.byte 2) [8] true,
    .gcPick [2] [(.first 2, { key := .byte 1, value := [7] })]]
    ++ List.replicate 5 (.gcStep 0 {})

theorem collectWritten_safe :
    ∃ db, (Db.create .small).exec .small collectWritten = some db
      ∧ db.pendingPuts .small = [(.byte 2, .first 3)] ∧ db.PutsSafe .small := by
  obtain ⟨db, hdb, hp⟩ : ∃ db ∈ (create .small).exec .small collectWritten,
      db.pendingPuts .small = [(.byte 2, .first 3)] := by decide +kernel
  exact ⟨db, hdb, hp, puts_never_dangle (filed_create .small) rfl (by decide +kernel) hdb⟩

end DiffKV
