/-
`LIVE_BLOB_SIZE` and the buckets of the discardable ratio.

The functions that touch a storage are runs of acts, and an act is about
one file. The sizes: what an act adds and what it deducts, summed up
along a run. The buckets: a file leaves one and enters another, and so do
the counters, at a charge; at every other act the counters stay.
-/
import DiffKV.Counters
import DiffKV.Lib.TableSums
import DiffKV.Proofs.RangeCharges

namespace DiffKV

open Lib List BlobStorage CFEditCollector ChargeState Table Option

-- ==== the code's own functions are runs of acts

namespace Books

/-- A run of acts leads there. -/
def Reaches (a b : Books) : Prop := ∃ acts, a.run acts = b

theorem Reaches.refl (a : Books) : a.Reaches a := ⟨[], rfl⟩

theorem reaches_act (a : Books) (e : StorageAct) : a.Reaches (a.act e) := ⟨[e], rfl⟩

theorem Reaches.trans {a b c : Books} (h : a.Reaches b) (h' : b.Reaches c) : a.Reaches c := by
  obtain ⟨acts, rfl⟩ := h
  obtain ⟨acts', rfl⟩ := h'
  exact ⟨acts ++ acts', foldl_append⟩

theorem reaches_foldl {α β : Type*} {f : α → β → α} {b : α → Books}
    (h : ∀ x y, (b x).Reaches (b (f x y))) (l : List β) (x : α) :
    (b x).Reaches (b (l.foldl f x)) := by
  induction l generalizing x with
  | nil => exact .refl _
  | cons y l ih => exact (h x y).trans (ih _)

/-- The loop of `OnFlushCompleted`. -/
theorem reaches_flush (s : BlobStorage) (sizes : BlobFilesSize) :
    Reaches { storage := s }
      { storage := (sizes.entries.foldl flushFile (s, 0)).1,
        delta := (sizes.entries.foldl flushFile (s, 0)).2 } :=
  reaches_foldl (b := fun x : BlobStorage × UInt64 => ⟨x.1, x.2⟩)
    (fun x f => reaches_act ⟨x.1, x.2⟩ (.flushFile f)) sizes.entries (s, 0)

end Books

namespace ChargeState

variable (a : ChargeState)

theorem reaches_chargeFile {m : BlobFileMeta} {n : UInt64} (amount : UInt64)
    (hm : a.storage.findFile n = some m) : a.books.Reaches (a.chargeFile m amount).books := by
  refine ⟨[.chargeFile (n, amount)], ?_⟩
  simp only [Books.run, foldl, Books.act, books, hm]
  rfl

theorem reaches_step (latest : SequenceNumber) (countSortedRun : Bool) (f : UInt64 × Int64) :
    a.books.Reaches (a.step latest countSortedRun f).books := by
  unfold step
  cases hm : a.storage.findFile f.1 with
  | none => exact .refl _
  | some m =>
    dsimp only
    split
    · split <;> exact .refl _
    · refine (a.reaches_chargeFile (-f.2).toUInt64 hm).trans ?_
      split
      · unfold settleFile
        split
        · exact .refl _
        · split
          · exact Books.reaches_act (books _) (.transit _ .kNeedGC)
          · exact .refl _
      · exact .refl _

theorem reaches_settleRange (env : RangeSettleEnv) (f : UInt64 × UInt64) :
    a.books.Reaches (a.settleRange env f).books := by
  cases hm : a.storage.findFile f.1 with
  | none =>
    rw [settleRange_missing hm]
    exact .refl _
  | some m =>
    rw [settleRange_eq env hm]
    refine (a.reaches_chargeFile f.2 hm).trans ?_
    split
    · exact Books.reaches_act (books _) (.transit _ .kNeedGC)
    · exact .refl _

end ChargeState

namespace Books

/-- `OnCompactionCompleted`, and the `SubStats` after it. -/
theorem reaches_chargeStorage (env : CompactionEnv) (info : CompactionJobInfo)
    (diff : Map UInt64 Int64) (s : BlobStorage) :
    Reaches { storage := s } (chargeStorage env info diff s).books :=
  (reaches_foldl (fun (c : ChargeState) f => c.reaches_step _ _ f) diff.entries
    { storage := s }).trans (reaches_act _ .subDelta)

/-- The same of `DeleteFilesInRanges`. -/
theorem reaches_settle (env : RangeSettleEnv) (sizes : BlobFilesSize) (s : BlobStorage) :
    Reaches { storage := s } ((settle env s sizes).books.act .subDelta) :=
  (reaches_foldl (fun (c : ChargeState) f => c.reaches_settleRange env f) sizes.entries
    { storage := s }).trans (reaches_act _ .subDelta)

theorem reaches_getObsoleteFiles (s : BlobStorage) (q : SequenceNumber) :
    Reaches { storage := s } { storage := (s.getObsoleteFiles q).2 } :=
  (reaches_foldl (b := fun s => { storage := s })
    (fun s n => reaches_act { storage := s } (.removeFile n)) _ s).trans
    (reaches_act _ (.keepObsolete _))

theorem reaches_apply (c : CFEditCollector) (s : BlobStorage) :
    Reaches { storage := s } { storage := (c.apply s).2 } := by
  refine apply_induct (c := c) (P := fun t => Reaches { storage := s } { storage := t }) (.refl _)
    (fun _ h => h.trans (reaches_act _ (.addBlobFile _))) ?_
    (fun _ h => h.trans (reaches_act _ (.applyUpdate _)))
    (fun h => h.trans (reaches_act _ .computeGCScore))
  intro t m d _ hm h
  refine h.trans ⟨[.markFileObsolete d], ?_⟩
  simp [run, act, markFileObsolete, show t.files.find d.1 = some m from hm]

end Books

-- ==== what an act does

/-- The file an act is about, if it is about one. -/
def StorageAct.number : StorageAct → UInt64
  | .addBlobFile file => file.fileNumber
  | .markFileObsolete file => file.1
  | .applyUpdate f | .flushFile f | .chargeFile f => f.1
  | .removeFile n | .transit n _ | .releaseInput n => n
  | _ => 0

/-- What an act adds to `LIVE_BLOB_SIZE`. -/
def StorageAct.adds : StorageAct → UInt64
  | .addBlob valueSize => valueSize
  | _ => 0

/-- The buckets of the discardable ratio. -/
def StatsType.isRatio : StatsType → Bool
  | .NUM_DISCARDABLE_RATIO_LE0 | .NUM_DISCARDABLE_RATIO_LE20
  | .NUM_DISCARDABLE_RATIO_LE50 | .NUM_DISCARDABLE_RATIO_LE80
  | .NUM_DISCARDABLE_RATIO_LE100 => true
  | _ => false

theorem BlobFileMeta.isRatio_level (m : BlobFileMeta) :
    m.getDiscardableRatioLevel.isRatio = true := by
  unfold getDiscardableRatioLevel
  dsimp only
  split
  · rfl
  · split
    · rfl
    · split
      · rfl
      · split <;> rfl

namespace Books

variable (a : Books)

/-- Files do not interfere. -/
theorem findFile_act {e : StorageAct} {n : UInt64} (hn : n ≠ e.number) :
    (a.act e).storage.findFile n = a.storage.findFile n := by
  have hmodify : ∀ {k : UInt64} {g : BlobFileMeta → BlobFileMeta}
      (hg : ∀ m, (g m).fileNumber = m.fileNumber), n ≠ k →
      (a.storage.files.modify k g hg).find n = a.storage.files.find n :=
    fun _ hk => (find_modify ..).trans (if_neg hk)
  cases e with
  | addBlob | keepObsolete | computeGCScore | begin | subDelta => rfl
  | addBlobFile file =>
    exact (findFile_addBlobFile ..).trans (if_neg (Ne.symm hn))
  | markFileObsolete file =>
    simp only [act, markFileObsolete]
    cases hm : a.storage.files.find file.1 with
    | none => rfl
    | some m =>
      have hnumber : m.fileNumber = file.1 := key_of_find hm
      exact (findFile_markFileObsoleteLocked ..).trans (if_neg (hnumber ▸ hn))
  | applyUpdate f =>
    exact hmodify (g := (·.addDiscardableSize f.2)) (fun _ => rfl) hn
  | transit k event => exact (findFile_transit ..).trans (if_neg hn)
  | releaseInput k =>
    exact hmodify (g := BlobFileMeta.releaseInput) (fun _ => rfl) hn
  | removeFile k =>
    exact (findFile_removeFile ..).trans (if_neg hn)
  | flushFile f =>
    simp only [act, DiffKV.flushFile]
    cases hm : a.storage.findFile f.1 with
    | none => rfl
    | some m =>
      exact ((findFile_transit ..).trans (if_neg hn)).trans
        (hmodify (g := (·.addDiscardableSize (m.flushDiscardable f.2))) (fun _ => rfl) hn)
  | chargeFile f =>
    simp only [act]
    cases hm : a.storage.findFile f.1 with
    | none => rfl
    | some m =>
      have hnumber : m.fileNumber = f.1 := key_of_find hm
      exact (findFile_chargeFile ..).trans (if_neg (hnumber ▸ hn))

/-- `LIVE_BLOB_SIZE`. -/
def liveSize : UInt64 := a.storage.stats .LIVE_BLOB_SIZE

/-- What an act subtracts from it. -/
def deducts : StorageAct → UInt64
  | .markFileObsolete file =>
    (a.storage.findFile file.1).elim 0 fun m =>
      m.fileSize - m.discardableSize
  | .flushFile f =>
    (a.storage.findFile f.1).elim 0 fun m => a.delta + m.flushDiscardable f.2
  | .subDelta => a.delta
  | _ => 0

/-- The bucket a charge takes its file from and the one it moves it to. -/
def moves : StorageAct → Option (StatsType × StatsType)
  | .chargeFile f => (a.storage.findFile f.1).map fun m =>
      (m.getDiscardableRatioLevel, (m.addDiscardableSize f.2).getDiscardableRatioLevel)
  | _ => none

/-- What the acts do to `LIVE_BLOB_SIZE` and to the buckets. -/
theorem stats_act (e : StorageAct) {t : StatsType} (ht : t = .LIVE_BLOB_SIZE ∨ t.isRatio = true) :
    (a.act e).storage.stats t
      = if t = .LIVE_BLOB_SIZE then a.storage.stats t + e.adds - a.deducts e
        else (a.moves e).elim (a.storage.stats t) fun l =>
          if l.1 ≠ l.2 then ((a.storage.stats.add l.2 1).sub l.1 1) t else a.storage.stats t := by
  have hne : ∀ u : StatsType, u ≠ .LIVE_BLOB_SIZE → u.isRatio = false → t ≠ u := by
    rintro u hu hratio rfl
    rcases ht with ht | ht
    · exact hu ht
    · exact Bool.false_ne_true (hratio.symm.trans ht)
  have hothers := And.intro
    (And.intro (hne .NUM_LIVE_BLOB_FILE nofun rfl) (hne .NUM_OBSOLETE_BLOB_FILE nofun rfl))
    (And.intro (hne .LIVE_BLOB_FILE_SIZE nofun rfl) (hne .OBSOLETE_BLOB_FILE_SIZE nofun rfl))
  cases e with
  | keepObsolete | computeGCScore | begin | applyUpdate | transit
  | releaseInput | addBlob | addBlobFile | subDelta =>
    simp [act, InternalStats.add, InternalStats.sub, StorageAct.adds, deducts,
      moves, addBlobFile, computeGCScore, hothers, transit, releaseInput, applyUpdate]
  | markFileObsolete file =>
    cases hm : a.storage.files.find file.1 with
    | none => simp [act, deducts, moves, markFileObsolete, findFile, hm, StorageAct.adds]
    | some m => simp [act, deducts, moves, markFileObsolete, findFile, hm, markFileObsoleteLocked,
        StorageAct.adds, InternalStats.add, InternalStats.sub, hothers]
  | removeFile k =>
    cases hm : a.storage.files.find k with
    | none => simp [act, deducts, moves, removeFile, hm, StorageAct.adds]
    | some m => simp [act, deducts, moves, removeFile, hm,
        StorageAct.adds, InternalStats.sub, hothers]
  | flushFile f =>
    cases hm : a.storage.findFile f.1 with
    | none => simp [act, deducts, moves, DiffKV.flushFile, hm, StorageAct.adds]
    | some m => simp [act, deducts, moves, DiffKV.flushFile, hm,
        StorageAct.adds, InternalStats.sub, charge, transit]
  | chargeFile f =>
    cases hm : a.storage.findFile f.1 with
    | none => simp [act, deducts, moves, hm, StorageAct.adds]
    | some m =>
      have hlive : ∀ m : BlobFileMeta, StatsType.LIVE_BLOB_SIZE ≠ m.getDiscardableRatioLevel :=
        fun m h => by simpa [← h, StatsType.isRatio] using m.isRatio_level
      simp only [act, hm, moves, deducts, StorageAct.adds, map_some,
        elim_some, chargeFile]
      by_cases hl : m.getDiscardableRatioLevel = (m.addDiscardableSize f.2).getDiscardableRatioLevel
      · simp [hl, charge]
      · by_cases hsize : t = .LIVE_BLOB_SIZE
        · simp [hl, hsize, hlive, InternalStats.add, InternalStats.sub, charge]
        · simp [hl, hsize, charge]

/-- No act does both. -/
theorem adds_eq_zero_or (e : StorageAct) : e.adds = 0 ∨ a.deducts e = 0 := by
  cases e with
  | addBlob => exact .inr rfl
  | _ => exact .inl rfl

/-- The counter takes the act without wrapping. -/
def Takes (a : Books) (e : StorageAct) : Prop :=
  a.deducts e ≤ a.liveSize ∧ a.liveSize.toNat + e.adds.toNat < 2 ^ 64

/-- The bytes added in a run. -/
def added (acts : List StorageAct) : Nat := (acts.map (·.adds.toNat)).sum

/-- The bytes deducted in a run. -/
def deducted : Books → List StorageAct → Nat
  | _, [] => 0
  | a, e :: acts => (a.deducts e).toNat + deducted (a.act e) acts

/-- An act is taken if the bytes added up to it cover those deducted. -/
theorem takes_iff (e : StorageAct) {A D : Nat} (h : a.liveSize.toNat + D = A) :
    a.Takes e ↔ D + (a.deducts e).toNat ≤ A + e.adds.toNat
      ∧ A + e.adds.toNat < D + (a.deducts e).toNat + 2 ^ 64 := by
  have hsize := a.liveSize.toNat_lt
  unfold Takes
  rw [UInt64.le_iff_toNat_le]
  rcases a.adds_eq_zero_or e with h0 | h0 <;>
    · rw [h0, UInt64.toNat_zero]
      omega

theorem Takes.liveSize {a : Books} {e : StorageAct} (h : a.Takes e) :
    (a.act e).liveSize.toNat + (a.deducts e).toNat = a.liveSize.toNat + e.adds.toNat := by
  have hact : (a.act e).liveSize = a.liveSize + e.adds - a.deducts e :=
    (a.stats_act e (.inl rfl)).trans (if_pos rfl)
  have hdeducts := UInt64.le_iff_toNat_le.1 h.1
  rw [hact]
  rcases a.adds_eq_zero_or e with h0 | h0
  · rw [h0, UInt64.add_zero, UInt64.toNat_sub_of_le _ _ h.1, UInt64.toNat_zero]
    omega
  · rw [h0, UInt64.sub_zero, UInt64.toNat_add, Nat.mod_eq_of_lt h.2]
    rfl

/-- A run is taken if the bytes added cover those deducted all along it,
and the counter is then what is left of them. -/
theorem meets_takes_iff (acts : List StorageAct) {A D : Nat} (h : a.liveSize.toNat + D = A) :
    Meets (fun a e => some (act a e)) Takes a acts
      ↔ ∀ p, p <+: acts → D + deducted a p ≤ A + added p
        ∧ A + added p < D + deducted a p + 2 ^ 64 := by
  induction acts generalizing a A D with
  | nil =>
    have hsize := a.liveSize.toNat_lt
    refine iff_of_true trivial fun p hp => ?_
    rw [prefix_nil.1 hp]
    show D + 0 ≤ A + 0 ∧ A + 0 < D + 0 + 2 ^ 64
    omega
  | cons e acts ih =>
    have hstep : a.Takes e → (a.act e).liveSize.toNat
        + (D + (a.deducts e).toNat) = A + e.adds.toNat := by
      intro ht
      have hsize := ht.liveSize
      omega
    have hcons : ∀ p, deducted a (e :: p) = (a.deducts e).toNat + deducted (a.act e) p
        ∧ added (e :: p) = e.adds.toNat + added p := fun p => ⟨rfl, sum_cons⟩
    constructor
    · rintro ⟨ht, hrest⟩ p hp
      rcases prefix_cons_iff.1 hp with rfl | ⟨q, rfl, hq⟩
      · have hsize := a.liveSize.toNat_lt
        show D + 0 ≤ A + 0 ∧ A + 0 < D + 0 + 2 ^ 64
        omega
      · have hcover := (ih (a.act e) (hstep ht)).1 hrest q hq
        rwa [(hcons q).1, (hcons q).2, ← add_assoc, ← add_assoc]
    · intro hall
      have ht : a.Takes e := (a.takes_iff e h).2 (hall [e] (prefix_append [e] acts))
      refine ⟨ht, (ih (a.act e) (hstep ht)).2 fun q hq => ?_⟩
      have hcover := hall (e :: q) ((prefix_cons_inj e).2 hq)
      rwa [(hcons q).1, (hcons q).2, ← add_assoc, ← add_assoc] at hcover

theorem liveSize_run {acts : List StorageAct} (h : Meets (fun a e => some (act a e)) Takes a acts) :
    (a.run acts).liveSize.toNat + deducted a acts = a.liveSize.toNat + added acts := by
  induction acts generalizing a with
  | nil => rfl
  | cons e acts ih =>
    have hrest := ih (a.act e) h.2
    have hstep := Takes.liveSize h.1
    have hadded : added (e :: acts) = e.adds.toNat + added acts := sum_cons
    show ((a.act e).run acts).liveSize.toNat + ((a.deducts e).toNat + deducted (a.act e) acts) = _
    omega

/-- Every file is obsolete. -/
def AllObsolete : Prop := ∀ m ∈ a.storage.files.entries, m.isObsolete = true

end Books

/-- A table build of one value of 1000 bytes under a key of 4, to the day
its file is dropped. The record takes 1016 bytes, and its file 40 more. -/
def oneValueLife : List StorageAct :=
  [.addBlob 1000,
    .addBlobFile { fileNumber := 1, fileSize := 1056, fileType := kSorted, state := .kPendingLSM },
    .begin, .flushFile (1, 1016), .markFileObsolete (1, 0)]

/-- The bucket of a file that is not obsolete. -/
def BlobFileMeta.bucket (m : BlobFileMeta) : Option StatsType :=
  if m.isObsolete then none else some m.getDiscardableRatioLevel

namespace BlobStorage

variable (s : BlobStorage)

/-- The files in a bucket. -/
def filesIn (b : StatsType) : Nat :=
  (s.files.entries.map fun m => if m.bucket = some b then 1 else 0).sum

/-- Every bucket is counted. -/
def Histogram : Prop :=
  ∀ b : StatsType, b.isRatio = true → (s.stats b).toNat = s.filesIn b

/-- Every bucket can be counted. -/
def BucketsFit : Prop := ∀ b : StatsType, b.isRatio = true → s.filesIn b < 2 ^ 64

theorem Histogram.fits {s : BlobStorage} (h : s.Histogram) : s.BucketsFit :=
  fun b hb => h b hb ▸ (s.stats b).toNat_lt

/-- A file moves, or the counters do: they agree if both do. -/
theorem histogram_iff_of_moved {s t : BlobStorage} (h : s.Histogram)
    {l l' : StatsType} (hfrom : l.isRatio = true) (hto : l'.isRatio = true) (live : Bool)
    (hstats : ∀ b : StatsType, b.isRatio = true → t.stats b
      = if l ≠ l' then ((s.stats.add l' 1).sub l 1) b else s.stats b)
    (hcount : ∀ b, t.filesIn b + (if live = true ∧ l = b then 1 else 0)
      = s.filesIn b + (if live = true ∧ l' = b then 1 else 0)) :
    (t.Histogram ∧ ¬ (l ≠ l' ∧ s.stats l = 0)) ↔ t.BucketsFit ∧ (live = false → l = l') := by
  by_cases hl : l = l'
  · subst hl
    have hhist : t.Histogram := by
      intro b hb
      rw [hstats b hb, if_neg (fun hne => hne rfl), h b hb, Nat.add_right_cancel_iff.1 (hcount b)]
    exact iff_of_true ⟨hhist, fun hw => hw.1 rfl⟩ ⟨hhist.fits, fun _ => rfl⟩
  simp only [if_pos hl, InternalStats.sub, InternalStats.add] at hstats
  cases live with
  | false =>
    refine iff_of_false (fun hh => ?_) fun hh => hl (hh.2 rfl)
    have hcount' : t.filesIn l' = s.filesIn l' := by simpa using hcount l'
    have hb := hh.1 l' hto
    rw [hcount', ← h l' hto, hstats l' hto] at hb
    have hsame := UInt64.toNat_inj.1 hb
    simp [Ne.symm hl] at hsame
  | true =>
    simp only [true_and] at hcount
    have hpos : (s.stats l).toNat = t.filesIn l + 1 := by
      have hb := hcount l
      rw [if_pos rfl, if_neg (Ne.symm hl)] at hb
      rw [h l hfrom, hb]
      rfl
    have hwraps : ¬ (l ≠ l' ∧ s.stats l = 0) := by
      rintro ⟨-, hzero⟩
      rw [hzero] at hpos
      cases hpos
    refine ⟨fun hh => ⟨hh.1.fits, nofun⟩, fun hh => ⟨fun b hb => ?_, hwraps⟩⟩
    have hfits := hh.1 b hb
    have hb' := hcount b
    rw [hstats b hb]
    by_cases hbl : b = l
    · subst hbl
      rw [if_pos rfl, if_neg hl, UInt64.toNat_sub_of_le, hpos]
      · rfl
      · rw [UInt64.le_iff_toNat_le, hpos]
        exact Nat.le_add_left ..
    · rw [if_neg hbl]
      rw [if_neg (Ne.symm hbl), Nat.add_zero] at hb'
      by_cases hbl' : b = l'
      · subst hbl'
        rw [if_pos rfl] at hb' ⊢
        rw [UInt64.toNat_add, h b hb, hb']
        exact Nat.mod_eq_of_lt (hb' ▸ hfits)
      · rw [if_neg hbl', h b hb, hb', if_neg (Ne.symm hbl'), Nat.add_zero]

/-- What `Open` makes of the edits of the manifest. -/
def opened (dbOptions : TitanDBOptions) (cfOptions : TitanCFOptions)
    (c : CFEditCollector) : BlobStorage :=
  (c.apply { dbOptions, cfOptions }).2.markAllFilesForGC.computeGCScore

end BlobStorage

namespace Books

variable (a : Books)

/-- A bucket at zero is taken from. -/
def BucketWraps (e : StorageAct) : Prop :=
  ∃ l l', a.moves e = some (l, l') ∧ l ≠ l' ∧ a.storage.stats l = 0

/-- A charge moves a live file from bucket to bucket, or leaves it; every
other act leaves the files in theirs. -/
def Told (e : StorageAct) : Prop :=
  match a.moves e with
  | some (l, l') => (a.storage.findFile e.number).all (·.isObsolete) → l = l'
  | none => ∀ n, ((a.act e).storage.findFile n).bind (·.bucket)
      = (a.storage.findFile n).bind (·.bucket)

/-- The bucket of one file is the difference an act makes. -/
theorem filesIn_act (e : StorageAct) (b : StatsType) :
    (a.act e).storage.filesIn b
        + (if (a.storage.findFile e.number).bind (·.bucket) = some b then 1 else 0)
      = a.storage.filesIn b
        + (if ((a.act e).storage.findFile e.number).bind (·.bucket) = some b then 1 else 0) := by
  have helim : ∀ o : Option BlobFileMeta,
      (if o.bind (·.bucket) = some b then 1 else 0)
        = o.elim 0 fun m => if m.bucket = some b then 1 else 0 := by
    intro o
    cases o <;> simp
  rw [helim, helim]
  exact sum_add_find (fun n hn => a.findFile_act hn) _

theorem isRatio_of_bucket {o : Option BlobFileMeta} {b : StatsType}
    (h : o.bind (·.bucket) = some b) : b.isRatio = true := by
  obtain ⟨m, rfl, hm⟩ := bind_eq_some_iff.1 h
  unfold BlobFileMeta.bucket at hm
  split at hm
  · cases hm
  · exact some.inj hm ▸ m.isRatio_level

variable {a} {e : StorageAct}

theorem stats_bucket (e : StorageAct) {b : StatsType} (hb : b.isRatio = true) :
    (a.act e).storage.stats b = (a.moves e).elim (a.storage.stats b) fun l =>
        if l.1 ≠ l.2 then ((a.storage.stats.add l.2 1).sub l.1 1) b else a.storage.stats b :=
  (a.stats_act e (.inr hb)).trans (if_neg (by rintro rfl; cases hb))

/-- An act that moves no file. -/
theorem histogram_of_not_moved (h : a.storage.Histogram) (hx : a.moves e = none) :
    (a.act e).storage.Histogram
      ↔ ∀ n, ((a.act e).storage.findFile n).bind (·.bucket)
        = (a.storage.findFile n).bind (·.bucket) := by
  have hcount : (a.act e).storage.Histogram ↔ ∀ b : StatsType,
      b.isRatio = true → a.storage.filesIn b = (a.act e).storage.filesIn b := by
    refine forall_congr' fun b => forall_congr' fun hb => ?_
    rw [stats_bucket e hb, hx, elim_none, h b hb]
  rw [hcount]
  constructor
  · intro hsame n
    by_cases hn : n = e.number
    · refine ext fun b => ?_
      have hb := a.filesIn_act e b
      by_cases hratio : b.isRatio = true
      · rw [hsame b hratio, Nat.add_left_cancel_iff] at hb
        split at hb <;> split at hb <;> simp_all
      · exact iff_of_false (fun hb => hratio (isRatio_of_bucket hb))
          fun hb => hratio (isRatio_of_bucket hb)
    · rw [a.findFile_act hn]
  · intro hsame b _
    have hb := a.filesIn_act e b
    rw [hsame e.number, Nat.add_right_cancel_iff] at hb
    exact hb.symm

/-- A charge. -/
theorem histogram_of_moved (h : a.storage.Histogram) {l l' : StatsType}
    (hx : a.moves e = some (l, l')) :
    ((a.act e).storage.Histogram ∧ ¬ a.BucketWraps e)
      ↔ (a.act e).storage.BucketsFit
        ∧ ((a.storage.findFile e.number).all (·.isObsolete) → l = l') := by
  cases e with
  | chargeFile f =>
    obtain ⟨m, hm, hl⟩ := map_eq_some_iff.1 hx
    obtain ⟨rfl, rfl⟩ := Prod.mk.inj hl
    have hnumber : m.fileNumber = f.1 := key_of_find hm
    have hafter : (a.act (.chargeFile f)).storage.findFile f.1
        = some (m.addDiscardableSize f.2) := by
      simp only [act, hm]
      rw [findFile_chargeFile, if_pos hnumber.symm, hm]
      rfl
    have hmoved := histogram_iff_of_moved h m.isRatio_level
      (m.addDiscardableSize f.2).isRatio_level (!m.isObsolete)
      (t := (a.act (.chargeFile f)).storage)
      (fun b hb => by rw [stats_bucket _ hb, hx, elim_some]) fun b => ?_
    · simpa [BucketWraps, hx, StorageAct.number, hm] using hmoved
    · have hcount := a.filesIn_act (.chargeFile f) b
      simp only [StorageAct.number, hafter, hm, bind_some,
        BlobFileMeta.bucket, BlobFileMeta.addDiscardableSize_isObsolete] at hcount
      cases ho : m.isObsolete <;> simpa [ho] using hcount
  | _ => cases hx

/-- The counters of the buckets stay right as long as they are told. -/
theorem histogram_act (h : a.storage.Histogram) :
    ((a.act e).storage.Histogram ∧ ¬ a.BucketWraps e)
      ↔ (a.act e).storage.BucketsFit ∧ a.Told e := by
  unfold Told
  cases hx : a.moves e with
  | some l => exact histogram_of_moved h hx
  | none =>
    have hwraps : ¬ a.BucketWraps e := by
      rintro ⟨l, l', hx', -⟩
      rw [hx] at hx'
      cases hx'
    rw [← histogram_of_not_moved h hx]
    exact ⟨fun hh => ⟨hh.1.fits, hh.1⟩, fun hh => ⟨hh.2, hwraps⟩⟩

end Books

-- ---- opening

namespace BlobStorage

/-- `Apply` leaves the buckets. -/
theorem stats_apply (c : CFEditCollector) (s : BlobStorage) {b : StatsType}
    (hb : b.isRatio = true) : (c.apply s).2.stats b = s.stats b := by
  have hact : ∀ (t : BlobStorage) (e : StorageAct), Books.moves { storage := t } e = none →
      (Books.act { storage := t } e).storage.stats b = t.stats b := by
    intro t e he
    rw [Books.stats_bucket e hb, he, elim_none]
  refine apply_induct (c := c) (P := fun t => t.stats b = s.stats b) rfl
    (fun _ h => (hact _ (.addBlobFile _) rfl).trans h) ?_ (fun _ h => h) (fun h => h)
  intro t m d _ hm h
  have hmark := hact t (.markFileObsolete d) rfl
  unfold Books.act markFileObsolete at hmark
  simp only [show t.files.find d.1 = some m from hm] at hmark
  exact hmark.trans h

/-- `MarkAllFilesForGC` counts every file. -/
theorem stats_opened (dbOptions : TitanDBOptions)
    (cfOptions : TitanCFOptions) (c : CFEditCollector) {b : StatsType} (hb : b.isRatio = true) :
    (opened dbOptions cfOptions c).stats b
      = UInt64.ofNat ((opened dbOptions cfOptions c).filesIn b) := by
  have hfold : ∀ (l : List BlobFileMeta) (st : InternalStats),
      l.foldl (fun st f => st.add f.getDiscardableRatioLevel 1) st b
        = st b + UInt64.ofNat
          (l.map fun m => if m.getDiscardableRatioLevel = b then 1 else 0).sum := by
    intro l
    induction l with
    | nil => exact fun st => (UInt64.add_zero _).symm
    | cons m l ih =>
      intro st
      rw [foldl_cons, ih, map_cons, sum_cons, UInt64.ofNat_add]
      unfold InternalStats.add
      by_cases hm : m.getDiscardableRatioLevel = b
      · simp [hm, UInt64.add_assoc]
      · simp [hm, Ne.symm hm]
  unfold opened
  generalize hst : c.apply { dbOptions, cfOptions } = x
  have hzero : x.2.stats b = 0 := hst ▸ stats_apply c _ hb
  refine (hfold x.2.files.entries x.2.stats).trans ?_
  rw [hzero, UInt64.zero_add]
  refine congrArg (fun l : List Nat => UInt64.ofNat l.sum) (List.map_map.trans ?_).symm
  refine map_congr_left fun m _ => ?_
  show (if some m.getDiscardableRatioLevel = some b then 1 else 0) = _
  simp

end BlobStorage

/-- A file of ten records of 100 bytes is installed after the open, and a
compaction drops one of them. -/
def installedThenCharged : List StorageAct :=
  [.addBlobFile { fileNumber := 1, fileSize := 1040, fileType := kSorted, state := .kPendingLSM },
    .begin, .flushFile (1, 1000), .begin, .chargeFile (1, 100)]

end DiffKV
