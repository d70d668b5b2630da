/-
What is left of acknowledged Puts after `Close`, or a crash, and a
reopen, with `sep_before_flush`.

The base DB recovers every blob index, but `Recover` deletes the files
that are not in the manifest, and a file gets there only when its
builder is asked for a flush. `Close` asks none. So a key is lost
exactly if its index points into a file that is still being built, or
if its Put had no batch: that of a separated value under the empty key.
-/
import DiffKV.Proofs.LostUpdate
import DiffKV.Proofs.Reopen

namespace DiffKV

open Lib List BlobFileSet LsmEntry

variable {cfg : Config} {db db' : Db} {key : UserKey} {value : Bytes} {created : Bool}

-- ==== statements

/-- The steps of Puts, memtable seals and flushes. -/
def Action.isWrite : Action → Bool
  | .putAdd .. | .putWrite _ | .flushShard _ | .flushCompleted _ => true
  | _ => false

namespace Db

variable (cfg : Config)

/-- The last acknowledged value of each key. -/
def acknowledge (db : Db) (a : Action) (acked : UserKey → Option Bytes) : UserKey → Option Bytes :=
  match a with
  | .putWrite i =>
    match db.puts[i]? with
    | none => acked
    | some put => Function.update acked put.key (some put.value)
  | _ => acked

/-- The blob index of the key, if it has one, does not point into a file
that is still being built, and the value is not one that
`ForegroundBuilder::Add` drops. -/
def Kept (db : Db) (key : UserKey) (value : Bytes) : Prop :=
  (key.isEmpty && cfg.separates value) = false
    ∧ ∀ entry ∈ db.lsm.lookup key, ∀ i ∈ entry.blobIndex cfg.coding,
      db.building cfg i.fileNumber = false

instance (db : Db) (key : UserKey) (value : Bytes) : Decidable (db.Kept cfg key value) :=
  inferInstanceAs (Decidable (_ ∧ ∀ entry ∈ db.lsm.lookup key,
    ∀ i ∈ entry.blobIndex cfg.coding, db.building cfg i.fileNumber = false))

end Db

-- ==== one Put

/-- What a Put is about to write. -/
inductive PendingPut.Ready (cfg : Config) (db : Db) (put : PendingPut) : Prop where
  | skipped (hkey : put.key.isEmpty = true)
      (hsep : cfg.separates put.value = true) (hbatch : put.batch = [])
  | inLine (hbatch : put.batch = [(put.key, { value := put.value })])
      (hkey : put.key.isEmpty = true → cfg.separates put.value = false)
  | blob (i) (hbatch : put.batch = [(put.key, LsmEntry.ofIndex cfg.coding i)])
      (hkey : put.key.isEmpty = false)
      (hrecord : db.record i = some { key := put.key, value := put.value })
      (husable : db.usable cfg i.fileNumber = true)

/-- The empty key has no record: its Put writes the value or nothing. -/
theorem putAdd_emptyKey (hsep : cfg.dbOptions.sepBeforeFlush = true) (hkey : key.isEmpty = true)
    (h : db.putAdd cfg key value created = some db') :
    db'.puts.getLast? = some {
      key, value
      batch := if cfg.separates value then [] else [(key, { value })] } := by
  unfold Db.putAdd Db.builderAdd at h
  rw [if_pos hsep] at h
  cases hs : cfg.separates value with
  | false =>
    rw [hs, if_pos (by decide)] at h
    cases h
    exact getLast?_concat ..
  | true =>
    rw [hs, if_neg (by decide), if_pos hkey] at h
    cases h
    exact getLast?_concat ..

theorem PutBatch.ready (hsep : cfg.dbOptions.sepBeforeFlush = true) {batch : WriteBatch} {db₁ : Db}
    (h : db.putAdd cfg key value created
      = some { db₁ with puts := db.puts ++ [{ key, value, batch }] })
    (hbatch : PutBatch cfg db₁ key value batch) :
    PendingPut.Ready cfg db₁ { key, value, batch } := by
  cases hkey : key.isEmpty with
  | true =>
    have hlast := putAdd_emptyKey hsep hkey h
    rw [getLast?_concat] at hlast
    have hlast := congrArg PendingPut.batch (Option.some.inj hlast)
    cases hs : cfg.separates value with
    | true =>
      rw [hs, if_pos rfl] at hlast
      exact .skipped hkey hs hlast
    | false =>
      rw [hs, if_neg Bool.false_ne_true] at hlast
      exact .inLine hlast fun _ => hs
  | false =>
    rcases hbatch with hb | ⟨-, ⟨-, he⟩ | ⟨i, hb, hrec, hbuild⟩⟩
    · exact .inLine hb fun he => absurd (hkey.symm.trans he) Bool.false_ne_true
    · exact absurd (hkey.symm.trans he) Bool.false_ne_true
    · exact .blob i hb hkey hrec (usable_iff.2 (.inl hbuild))

theorem PendingPut.Ready.extends_ {put : PendingPut}
    (h : put.Ready cfg db) (hext : db.Extends cfg db') : put.Ready cfg db' := by
  cases h with
  | skipped hkey hsep hbatch => exact .skipped hkey hsep hbatch
  | inLine hbatch hkey => exact .inLine hbatch hkey
  | blob i hbatch hkey hrec hu =>
    exact .blob i hbatch hkey (hext.record hrec) (hext.usable hu)

-- ==== the invariant

/-- How the value of an acknowledged Put is stored. -/
inductive Db.Stores (cfg : Config) (db : Db) (key : UserKey) (value : Bytes) : Prop where
  | skipped (hkey : key.isEmpty = true) (hsep : cfg.separates value = true)
  | inLine (hentry : db.lsm.lookup key = some { value })
      (hkey : key.isEmpty = true → cfg.separates value = false)
  | blob (i) (hentry : db.lsm.lookup key = some (LsmEntry.ofIndex cfg.coding i))
      (hkey : key.isEmpty = false)
      (hrecord : db.record i = some { key, value })
      (husable : db.usable cfg i.fileNumber = true)

/-- The state stores what was acknowledged. -/
structure Durable (cfg : Config) (db : Db) (acked : UserKey → Option Bytes) : Prop where
  filed : Filed cfg db
  stores : ∀ key value, acked key = some value → db.Stores cfg key value
  /-- nothing separated is ever stored under the empty key -/
  emptyKey : ∀ key entry, key.isEmpty = true → db.lsm.lookup key = some entry →
    entry.isBlobIndex = false ∧ cfg.separates entry.value = false
  puts : ∀ put ∈ db.puts, put.Ready cfg db

theorem Db.Stores.mono (h : db.Stores cfg key value) (hlsm : db'.lsm.lookup key = db.lsm.lookup key)
    (hrecord : ∀ {i r}, db.usable cfg i.fileNumber = true →
      db.record i = some r → db'.record i = some r)
    (husable : ∀ {n}, db.usable cfg n = true → db'.usable cfg n = true) :
    db'.Stores cfg key value := by
  cases h with
  | skipped hkey hsep => exact .skipped hkey hsep
  | inLine hentry hkey => exact .inLine (hlsm.trans hentry) hkey
  | blob i hentry hkey hrec hu =>
    exact .blob i (hlsm.trans hentry) hkey (hrecord hu hrec) (husable hu)

namespace Durable

variable {acked : UserKey → Option Bytes} {put : PendingPut}

private theorem extended (h : Durable cfg db acked) (hfiled : Filed cfg db')
    (hext : db.Extends cfg db') : Durable cfg db' acked where
  filed := hfiled
  stores key value hack := (h.stores key value hack).mono (by rw [hext.lsm])
    (fun _ => hext.record) hext.usable
  emptyKey key entry hkey hentry := h.emptyKey key entry hkey (hext.lsm ▸ hentry)
  puts put hput := (h.puts put (hext.puts ▸ hput)).extends_ hext

/-- A new Put. -/
private theorem putAdd (h : Durable cfg db acked)
    (hsep : cfg.dbOptions.sepBeforeFlush = true) {key : UserKey}
    {value : Bytes} {created : Bool} {batch : WriteBatch} {db₁ : Db}
    (hstep : db.putAdd cfg key value created
      = some { db₁ with puts := db.puts ++ [{ key, value, batch }] })
    (hfiled : Filed cfg { db₁ with puts := db.puts ++ [{ key, value, batch }] })
    (hext : db.Extends cfg db₁) (hbatch : PutBatch cfg db₁ key value batch) :
    Durable cfg { db₁ with puts := db.puts ++ [{ key, value, batch }] } acked where
  filed := hfiled
  stores key value hack := (h.stores key value hack).mono
    (congrArg (Table.lookup · key) hext.lsm) (fun _ => hext.record) hext.usable
  emptyKey key entry hkey hentry := h.emptyKey key entry hkey (hext.lsm ▸ hentry)
  puts put hput := by
    have hready : put.Ready cfg db₁ := by
      rcases mem_append.1 hput with hput | hput
      · exact (h.puts put hput).extends_ hext
      · rw [mem_singleton] at hput
        rw [hput]
        exact hbatch.ready hsep hstep
    cases hready with
    | skipped hkey hsep hbatch => exact .skipped hkey hsep hbatch
    | inLine hbatch hkey => exact .inLine hbatch hkey
    | blob i hbatch hkey hrec hu => exact .blob i hbatch hkey hrec hu

/-- What the write of a Put does to the entry of a key. -/
private theorem lookup_putWrite (h : put.Ready cfg db) (key : UserKey) :
    (db.write put.batch).lsm.lookup key = db.lsm.lookup key
      ∨ key = put.key ∧ ∃ entry, put.batch = [(put.key, entry)]
        ∧ (db.write put.batch).lsm.lookup key = some entry := by
  have hone : ∀ entry, put.batch = [(put.key, entry)] →
      (db.write put.batch).lsm.lookup key = db.lsm.lookup key
        ∨ key = put.key ∧ ∃ entry, put.batch = [(put.key, entry)]
          ∧ (db.write put.batch).lsm.lookup key = some entry := by
    intro entry hbatch
    rw [hbatch, lookup_write_singleton]
    by_cases hkey : key = put.key
    · exact .inr ⟨hkey, entry, rfl, if_pos hkey⟩
    · exact .inl (if_neg hkey)
  cases h with
  | skipped _ _ hbatch =>
    rw [hbatch]
    exact .inl rfl
  | inLine hbatch => exact hone _ hbatch
  | blob _ hbatch => exact hone _ hbatch

/-- The write of a Put stores its value, or drops it. -/
private theorem stores_putWrite (h : put.Ready cfg db) :
    (db.write put.batch).Stores cfg put.key put.value := by
  cases h with
  | skipped hkey hsep => exact .skipped hkey hsep
  | inLine hbatch hkey =>
    rw [hbatch]
    exact .inLine (by rw [lookup_write_singleton, if_pos rfl]) hkey
  | blob i hbatch hkey hrec hu =>
    rw [hbatch]
    exact .blob i (by rw [lookup_write_singleton, if_pos rfl]) hkey hrec hu

private theorem putWrite (h : Durable cfg db acked) {i : Nat}
    (hi : db.puts[i]? = some put) (hfiled : Filed cfg
      { db.write put.batch with puts := db.puts.eraseIdx i }) :
    Durable cfg { db.write put.batch with puts := db.puts.eraseIdx i }
      (Function.update acked put.key (some put.value)) where
  filed := hfiled
  stores key value hack := by
    have hready := h.puts put (mem_of_getElem? hi)
    have hstored : (db.write put.batch).Stores cfg key value := by
      rcases lookup_putWrite hready key with hsame | ⟨rfl, -⟩
      · by_cases hkey : key = put.key
        · subst hkey
          rw [Function.update_self] at hack
          cases hack
          exact stores_putWrite hready
        · rw [Function.update_of_ne hkey] at hack
          exact (h.stores key value hack).mono hsame (fun _ h => h) fun h => h
      · rw [Function.update_self] at hack
        cases hack
        exact stores_putWrite hready
    exact hstored.mono rfl (fun _ h => h) fun h => h
  emptyKey key entry hkey hentry := by
    have hready := h.puts put (mem_of_getElem? hi)
    rcases lookup_putWrite hready key with hsame | ⟨rfl, e, hbatch, he⟩
    · exact h.emptyKey key entry hkey (hsame.symm.trans hentry)
    · cases he.symm.trans hentry
      cases hready with
      | skipped _ _ hnil =>
        rw [hnil] at hbatch
        cases hbatch
      | inLine hb hs =>
        rw [hb] at hbatch
        cases hbatch
        exact ⟨rfl, hs hkey⟩
      | blob _ _ hne => exact absurd (hne.symm.trans hkey) Bool.false_ne_true
  puts p hp := by
    have hready := h.puts p (mem_of_mem_eraseIdx hp)
    cases hready with
    | skipped hkey hsep hbatch => exact .skipped hkey hsep hbatch
    | inLine hbatch hkey => exact .inLine hbatch hkey
    | blob i hbatch hkey hrec hu => exact .blob i hbatch hkey hrec hu

theorem step (h : Durable cfg db acked) (hsep : cfg.dbOptions.sepBeforeFlush = true) {a : Action}
    (ha : a.isWrite = true) (hstep : db.step cfg a = some db') :
    Durable cfg db' (db.acknowledge a acked) := by
  have hfiled := h.filed.step hstep
  cases h.filed.dbStep hstep with
  | putAdd batch hext hbatch => exact h.putAdd hsep hstep hfiled hext hbatch
  | putWrite put hi =>
    unfold Db.acknowledge
    dsimp only
    rw [hi]
    exact h.putWrite hi hfiled
  | flushShard hext | flushCompleted hext => exact h.extended hfiled hext
  | delete | gcPick | gcStep | takeSnapshot | releaseSnapshot | purgeRead
  | purgeApply => cases ha

theorem create (cfg : Config) : Durable cfg (Db.create cfg) fun _ => none where
  filed := filed_create cfg
  stores _ _ h := nomatch h
  emptyKey _ _ _ h := nomatch h
  puts _ h := nomatch h

end Durable

-- ==== after the reopen

section

variable {key : UserKey} {value : Bytes} {i : BlobIndex} {inputs hidden : List UInt64}

private theorem not_live_of_building (h : Filing cfg db inputs hidden)
    {n : UInt64} (hb : db.building cfg n = true) : ¬ db.live cfg n = true := by
  intro hlive
  have hinst := Filing.installed_iff.2 (file_of_live (Filing.live_iff.1 hlive))
  rw [(h.building_new hb).1] at hinst
  cases hinst

/-- No read finds a file that was still being built. -/
private theorem getImpl_building (hreopen : db.Reopened cfg db')
    (hentry : db.lsm.lookup key = some (ofIndex cfg.coding i))
    (hdead : db.live cfg i.fileNumber = false) (value : Bytes) :
    db'.getImpl cfg key ≠ .ok value := by
  obtain ⟨st, hst⟩ := Option.isSome_iff_exists.1 hreopen.opened
  have hnone : st.findFile i.fileNumber = none := by
    have hinst := (hreopen.installed i.fileNumber).trans hdead
    unfold Db.installed file at hinst
    rw [show db'.fileSet.columnFamilies.lookup cfg.cfId = some st from hst] at hinst
    simpa using hinst
  have hbuild : st.findBuildingFile i.fileNumber = false := by
    have hb := hreopen.building i.fileNumber
    unfold Db.building building at hb
    rw [show db'.fileSet.columnFamilies.lookup cfg.cfId = some st from hst] at hb
    exact hb
  have hget : ∃ s, db'.storageGet cfg st i = .error s := by
    unfold Db.storageGet
    rw [hnone]
    dsimp only
    split
    · rw [hbuild]
      exact ⟨_, rfl⟩
    · exact ⟨_, rfl⟩
  obtain ⟨s, hs⟩ := hget
  obtain ⟨hb, rest, hd⟩ := blobIndex_eq_some_iff.1 (blobIndex_ofIndex cfg.coding i)
  unfold Db.getImpl
  rw [hreopen.lsm, hentry]
  dsimp only
  rw [if_neg (by simp [hb]), hd]
  rw [hst]
  dsimp only
  rw [hs]
  exact nofun

/-- A stored value is read after a reopen exactly if it was kept. -/
private theorem Db.Stores.reopened (hstores : db.Stores cfg key value)
    (hfiling : Filing cfg db inputs hidden)
    (hempty : key.isEmpty = true → ∀ entry, db.lsm.lookup key = some entry →
      entry.isBlobIndex = false ∧ cfg.separates entry.value = false)
    (hreopen : db.Reopened cfg db') : db'.getImpl cfg key = .ok value ↔ db.Kept cfg key value := by
  obtain ⟨st, hst⟩ := Option.isSome_iff_exists.1 hreopen.opened
  cases hstores with
  | skipped hkey hsep =>
    refine ⟨fun hget => ?_, fun hkept => ?_⟩
    · unfold Db.getImpl at hget
      rw [hreopen.lsm] at hget
      cases hentry : db.lsm.lookup key with
      | none =>
        rw [hentry] at hget
        cases hget
      | some entry =>
        obtain ⟨hinline, hnot⟩ := hempty hkey entry hentry
        rw [hentry] at hget
        dsimp only at hget
        rw [if_pos (by simp [hinline])] at hget
        cases hget
        exact absurd (hnot.symm.trans hsep) Bool.false_ne_true
    · have hk := hkept.1
      rw [hkey, hsep] at hk
      cases hk
  | inLine hentry hkey =>
    refine iff_of_true ?_ ⟨?_, fun entry he i hi => ?_⟩
    · have hentry' : db'.lsm.lookup key = some { value } := hreopen.lsm ▸ hentry
      have hsees : db'.Sees cfg key (.ok value) := .inLine hentry' rfl
      exact hsees.getImpl hst
    · cases hk : key.isEmpty with
      | false => rfl
      | true => exact hkey hk
    · cases hentry.symm.trans he
      cases hi
  | blob i hentry hkey hrec hu =>
    have hbuilding : db.Kept cfg key value ↔ db.building cfg i.fileNumber = false := by
      refine ⟨fun hkept => ?_, fun hb => ⟨?_, fun entry he j hj => ?_⟩⟩
      · exact hkept.2 _ hentry i (blobIndex_ofIndex ..)
      · rw [hkey, Bool.false_and]
      · cases hentry.symm.trans he
        cases (blobIndex_ofIndex cfg.coding i).symm.trans hj
        exact hb
    rw [hbuilding]
    rcases usable_iff.1 hu with hb | hlive
    · have hdead : db.live cfg i.fileNumber = false :=
        Bool.eq_false_iff.2 (not_live_of_building hfiling hb)
      rw [hb]
      exact iff_of_false (getImpl_building hreopen hentry hdead value) nofun
    · refine iff_of_true ?_ ?_
      · have hinst := (hreopen.installed i.fileNumber).trans hlive
        have hsees : db'.Sees cfg key (.ok value) :=
          .blob (hreopen.lsm ▸ hentry) (blobIndex_ofIndex ..)
            ⟨(hreopen.record i hlive).trans hrec, by
              unfold Db.readable
              rw [hinst, Bool.true_or]⟩
        exact hsees.getImpl hst
      · exact Bool.eq_false_iff.2 fun hb =>
          not_live_of_building hfiling hb hlive

end

-- ==== runs

/-- **Durability of acknowledged Puts.** After any run of Puts, memtable
seals and flushes, and a crash or `Close`, the database opens again, and
the last acknowledged value of a key is read exactly if it was kept. -/
theorem acknowledged_after_reopen_iff
    (hsep : cfg.dbOptions.sepBeforeFlush = true) {as : List Action}
    (hwrites : Meets (Db.step cfg) (fun _ a => a.isWrite = true) (Db.create cfg) as)
    (hexec : (Db.create cfg).exec cfg as = some db) {db₁ : Db}
    (hend : db₁ = db ∨ db₁ = db.close) {key : UserKey} {value : Bytes}
    (hacked : trace (Db.step cfg) Db.acknowledge (Db.create cfg)
      (fun _ => none) as key = some value) :
    (db₁.reopen cfg).1 = .ok
      ∧ ((db₁.reopen cfg).2.getImpl cfg key = .ok value ↔ db.Kept cfg key value) := by
  have hdur : Durable cfg db (trace (Db.step cfg) Db.acknowledge
      (Db.create cfg) (fun _ => none) as) :=
    exec_invariant (fun h ha hstep => h.step hsep ha hstep) (Durable.create cfg) hwrites hexec
  have hstores := hdur.stores key value hacked
  have hfiling := hdur.filed.filing
  rcases hend with rfl | rfl
  · obtain ⟨hok, hreopen⟩ := hfiling.reopen
    exact ⟨hok, hstores.reopened hfiling (fun hkey entry => hdur.emptyKey key entry hkey) hreopen⟩
  · have hclosed : db.close.Stores cfg key value :=
      hstores.mono rfl (fun hu hr => (hfiling.record_purge _ hu).trans hr)
        fun hu => (hfiling.usable_purge _ _).trans hu
    have hkept : db.close.Kept cfg key value ↔ db.Kept cfg key value := by
      unfold Db.Kept Db.close
      simp only [hfiling.building_purge]
      rfl
    obtain ⟨hok, hreopen⟩ := (hfiling.purge db.getOldestSnapshotSequence).reopen
    rw [← hkept]
    exact ⟨hok, hclosed.reopened (hfiling.purge _)
      (fun hkey entry => hdur.emptyKey key entry hkey) hreopen⟩

/-- A key is written. -/
def putOnce : List Action := [.putAdd (.byte 1) [7] true, .putWrite 0]

/-- The Put is acknowledged, but after `Close` and a reopen its file is
gone. -/
theorem putOnce_lost :
    trace (Db.step .small) Db.acknowledge (Db.create .small)
        (fun _ => none) putOnce (.byte 1) = some [7]
      ∧ ∃ db, (Db.create .small).exec .small putOnce = some db
        ∧ (db.reopen .small).2.getImpl .small (.byte 1) = .error (.corruption "File 2 not exist")
        ∧ (db.close.reopen .small).2.getImpl .small (.byte 1)
          = .error (.corruption "File 2 not exist") := by
  refine ⟨by decide +kernel, ?_⟩
  show ∃ db ∈ (Db.create .small).exec .small putOnce, _
  decide +kernel

/-- The same, then a memtable seal: the value survives `Close`. -/
theorem acknowledged_putAndSeal :
    ∃ db, (Db.create .small).exec .small (putOnce ++ [.flushShard 0]) = some db
      ∧ (db.close.reopen .small).1 = .ok
      ∧ (db.close.reopen .small).2.getImpl .small (.byte 1) = .ok [7] := by
  obtain ⟨db, hdb, hkept⟩ : ∃ db ∈ (Db.create .small).exec .small
      (putOnce ++ [.flushShard 0]), db.Kept .small (.byte 1) [7] := by
    decide +kernel
  have hacked : trace (Db.step .small) Db.acknowledge (Db.create .small)
      (fun _ => none) (putOnce ++ [.flushShard 0]) (.byte 1) = some [7] := by
    decide +kernel
  obtain ⟨hok, hiff⟩ := acknowledged_after_reopen_iff rfl (by decide +kernel) hdb (.inr rfl) hacked
  exact ⟨db, hdb, hok, hiff.2 hkept⟩

end DiffKV
