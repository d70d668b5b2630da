/-
Purges and snapshots.

A purge removes the obsolete files below the oldest snapshot it read
before it took the mutex. That number is a low-water mark, and the
database is seen as one here: its clock is the sequence number, the
times held are the snapshots, and files are retired at their obsolete
sequences.

A purge that found no snapshot has `kMaxSequenceNumber` for its mark. If
a snapshot is taken and a GC job then marks its inputs obsolete before
the purge goes on, it removes files the snapshot still reaches.
-/
import DiffKV.Lib.LowWater
import DiffKV.Proofs.Effects
import DiffKV.Proofs.Open

namespace DiffKV

open Lib

variable {cfg : Config} {db db' : Db}

namespace Db

/-- The low-water mark of a state. -/
def lowWater (db : Db) : LowWater SequenceNumber where
  now := db.seq
  held := db.snapshots
  retired s := ∃ n, (n, s) ∈ db.fileSet.obsoleteEntries
  bounds := db.purges

/-- While a purge that found no snapshot is between its two steps, no
snapshot is taken at the sequence number of an obsolete file, and no
input is marked obsolete while there is a snapshot. -/
def KeepsApart (db : Db) : Action → Prop
  | .takeSnapshot => kMaxSequenceNumber ∈ db.purges → ∀ d ∈ db.fileSet.obsoleteEntries, d.2 < db.seq
  | .gcStep j _ => kMaxSequenceNumber ∈ db.purges →
      ∀ job ∈ db.jobs[j]?, job.deleting = true → db.snapshots = []
  | _ => True

instance (db : Db) (a : Action) : Decidable (db.KeepsApart a) := by
  cases a <;> unfold KeepsApart <;> infer_instance

/-- Whatever purge of the state goes on, it removes only files listed as
obsolete before the mark it read, and no snapshot reaches these. -/
def PurgeSpares (db : Db) : Prop :=
  ∀ q ∈ db.purges,
    (∀ n ∈ (db.fileSet.getObsoleteFiles q).1, ∃ s, (n, s) ∈ db.fileSet.obsoleteEntries ∧ s < q)
    ∧ ∀ d ∈ db.fileSet.obsoleteEntries, d.2 < q → ∀ t ∈ db.snapshots, d.2 < t

end Db

-- ==== one step

section

variable (h : LowWater.Inv kMaxSequenceNumber db.lowWater)
include h

/-- Most steps list no file as obsolete; none takes the sequence number
back. -/
private theorem lowWater_after (hseq : db.seq ≤ db'.seq)
    (hsnap : db'.snapshots = db.snapshots) (hpurges : db'.purges = db.purges)
    (hobs : ∀ d ∈ db'.fileSet.obsoleteEntries,
      d ∈ db.fileSet.obsoleteEntries ∨ (kMaxSequenceNumber ∈ db.purges → db.snapshots = [])) :
    LowWater.Inv kMaxSequenceNumber db'.lowWater := by
  unfold Db.lowWater
  rw [hsnap, hpurges]
  refine (h.advance hseq).retire fun r hr => ?_
  obtain ⟨n, hn⟩ := hr
  rcases hobs _ hn with hn | hapart
  · exact .inl ⟨n, hn⟩
  · exact .inr hapart

private theorem lowWater_extends (hext : db.Extends cfg db') :
    LowWater.Inv kMaxSequenceNumber db'.lowWater :=
  lowWater_after h (Nat.le_of_eq hext.seq.symm) hext.snapshots hext.purges
    fun _ hd => .inl (hext.obsolete hd)

theorem lowWater_jobStep {job job' : GcJob} {io : GcIO} {db₁ : Db}
    (hapart : kMaxSequenceNumber ∈ db.purges → job.deleting = true →
      db.snapshots = []) (hstep : JobStep cfg db job io job' db₁) :
    LowWater.Inv kMaxSequenceNumber db₁.lowWater := by
  cases hstep.effect with
  | same | cleans => exact h
  | grows hext => exact lowWater_extends h hext
  | writes => exact h.advance (Nat.le_add_right ..)
  | deletes hdelete =>
    refine lowWater_after h (Nat.le_refl _) rfl rfl fun d hd => ?_
    rcases BlobFileSet.mem_obsoleteEntries_logAndApply hd with hd | -
    · exact .inl hd
    · exact .inr fun htop => hapart htop hdelete

end

/-- What holds of a state, as far as purges are concerned. -/
def Purging (cfg : Config) (db : Db) : Prop :=
  Filed cfg db ∧ LowWater.Inv kMaxSequenceNumber db.lowWater

theorem Purging.step (h : Purging cfg db) {a : Action}
    (hcond : db.KeepsApart a) (hstep : db.step cfg a = some db') : Purging cfg db' := by
  refine ⟨h.1.step hstep, ?_⟩
  obtain ⟨hfiled, hlow⟩ := h
  cases hfiled.dbStep hstep with
  | putAdd _ hext =>
    have hlow₁ := lowWater_extends hlow hext
    exact hlow₁
  | putWrite | delete => exact hlow.advance (Nat.le_add_right ..)
  | flushShard hext | flushCompleted hext => exact lowWater_extends hlow hext
  | gcPick hext =>
    have hlow₁ := lowWater_extends hlow hext
    exact hlow₁
  | gcStep job job' hj hjob =>
    have hlow₁ := lowWater_jobStep hlow (fun htop => hcond htop job hj) hjob
    exact hlow₁
  | takeSnapshot =>
    refine hlow.take fun htop r hr => ?_
    obtain ⟨n, hn⟩ := hr
    exact hcond htop (n, r) hn
  | releaseSnapshot i => exact hlow.release i
  | purgeRead => exact hlow.read
  | purgeApply q hi =>
    have hpurged := db.fileSet.purged_getObsoleteFiles q
    have hlow₁ : LowWater.Inv kMaxSequenceNumber (db.purge q).lowWater :=
      lowWater_after hlow (Nat.le_refl _) rfl rfl fun _ hd => .inl (hpurged.mem_obsolete hd)
    exact hlow₁.use _

theorem Purging.spares (h : Purging cfg db) : db.PurgeSpares := by
  intro q hq
  refine ⟨fun _ hn => BlobFileSet.obsolete_of_mem_getObsoleteFiles hn, ?_⟩
  intro d hd hlt t ht
  exact h.2.collects hq ⟨d.1, hd⟩ hlt ht

-- ==== runs

/-- In a run that keeps snapshots and obsolete files apart while a purge
that found no snapshot is under way, no purge removes a file that a
snapshot reaches. -/
theorem purge_spares_snapshots {as : List Action} (hfiled : Filed cfg db)
    (hsnap : db.snapshots = []) (hpurges : db.purges = [])
    (hmeets : Meets (Db.step cfg) Db.KeepsApart db as)
    (hexec : db.exec cfg as = some db') : db'.PurgeSpares := by
  have hstart : Purging cfg db := by
    refine ⟨hfiled, ?_, ?_, ?_⟩
    · exact (show db.lowWater.held = [] from hsnap) ▸ List.Pairwise.nil
    · exact fun t ht => nomatch (show db.lowWater.held = [] from hsnap) ▸ ht
    · exact fun b hb => nomatch (show db.lowWater.bounds = [] from hpurges) ▸ hb
  have hend : Purging cfg db' := exec_keeps (fun h hc hs => h.step hc hs) hstart hmeets hexec
  exact hend.spares

/-- The first record of file 2 is relocated and the file marked
obsolete. -/
def collectFirst : List Action :=
  .gcPick [2] [(.first 2, { key := .byte 1, value := [7] })] :: List.replicate 5 (.gcStep 0 {})

/-- A purge reads its mark, then a snapshot is taken and a GC job runs. -/
def purgeOvertaken : List Action :=
  [.putAdd (.byte 1) [7] true, .putWrite 0, .flushShard 0, .purgeRead,
    .takeSnapshot] ++ collectFirst

/-- File 2 is obsolete at 2, and the purge would remove it, but there is
a snapshot at 1. -/
theorem purgeOvertaken_not_spares :
    ∃ db, (Db.create .small).exec .small purgeOvertaken = some db ∧ ¬ db.PurgeSpares := by
  obtain ⟨db, hdb, hp, ho, hs⟩ :
      ∃ db ∈ (Db.create .small).exec .small purgeOvertaken, db.purges = [kMaxSequenceNumber]
        ∧ db.fileSet.obsoleteEntries = [(2, 2)] ∧ db.snapshots = [1] := by decide +kernel
  refine ⟨db, hdb, fun hspares => ?_⟩
  have hlt := (hspares kMaxSequenceNumber (by simp [hp])).2 (2, 2)
    (by simp [ho]) (by decide) 1 (by simp [hs])
  exact absurd hlt (by decide)

/-- The GC job runs first, then a snapshot is taken and the purge reads
its mark. -/
def purgeInOrder : List Action :=
  [.putAdd (.byte 1) [7] true, .putWrite 0, .flushShard 0] ++ collectFirst
    ++ [.delete (.byte 1), .takeSnapshot, .purgeRead, .takeSnapshot]

theorem purgeInOrder_spares :
    ∃ db, (Db.create .small).exec .small purgeInOrder = some db
      ∧ db.purges = [3] ∧ db.fileSet.obsoleteEntries = [(2, 2)] ∧ db.PurgeSpares := by
  obtain ⟨db, hdb, hp, ho⟩ : ∃ db ∈ (Db.create .small).exec .small
      purgeInOrder, db.purges = [3] ∧ db.fileSet.obsoleteEntries = [(2, 2)] := by decide +kernel
  exact ⟨db, hdb, hp, ho, purge_spares_snapshots (filed_create .small) rfl rfl
    (by decide +kernel) hdb⟩

end DiffKV
