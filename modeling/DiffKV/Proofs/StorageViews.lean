/-
The redundant views of a storage agree with its files.

A storage keeps, beside the files themselves, their ranges, the list of
obsolete ones, the sizes by level, and counters. Each is updated where a
file is added, marked obsolete or removed. Here every view is a function
of the files up to their order: the ranges and the list are permutations
of what the files give, and the numbers are sums over the files, modulo
2^64.

The list of obsolete files is a parameter of the invariant, because a
purge removes files one by one and drops them from the list at the end.
-/
import DiffKV.Lib.Machine
import DiffKV.Proofs.Files

namespace DiffKV

open Lib List Table CFEditCollector UInt64 BlobFileSet

-- ==== tallies

section Tally

variable {α : Type*}

/-- The sum of the weights of those elements that `p` selects. -/
def tally (weight : α → Nat) (p : α → Bool) (l : List α) : Nat :=
  ((l.filter p).map weight).sum

variable {weight : α → Nat} {p q : α → Bool} {l l' : List α} {a : α}

theorem tally_cons :
    tally weight p (a :: l) = (if p a then weight a else 0) + tally weight p l := by
  unfold tally
  cases hp : p a
  · rw [filter_cons_of_neg (by simp [hp]), if_neg Bool.false_ne_true, Nat.zero_add]
  · rw [filter_cons_of_pos hp, if_pos rfl, map_cons, sum_cons]

theorem tally_perm (h : l.Perm l') : tally weight p l = tally weight p l' :=
  ((h.filter p).map weight).sum_nat

theorem tally_append : tally weight p (l ++ l') = tally weight p l + tally weight p l' := by
  simp [tally]

theorem tally_map {f : α → α} (hweight : ∀ a, weight (f a) = weight a)
    (hp : ∀ a, p (f a) = p a) : tally weight p (l.map f) = tally weight p l := by
  unfold tally
  rw [filter_map, map_map, show p ∘ f = p from funext hp,
    show weight ∘ f = weight from funext hweight]

theorem tally_le : tally weight p l ≤ tally weight (fun _ => true) l := by
  induction l with
  | nil => exact Nat.le_refl 0
  | cons a l ih =>
    rw [tally_cons, tally_cons, if_pos rfl]
    split <;> omega

end Tally

-- ==== statements

namespace BlobFileMeta

/-- The file counts as live. -/
def isLive (m : BlobFileMeta) : Bool := !m.isObsolete

/-- The size of the file. -/
def size (m : BlobFileMeta) : Nat := m.fileSize.toNat

end BlobFileMeta

namespace BlobStorage

/-- The files that `level_blob_size_[l]` is about. -/
def inLevel (s : BlobStorage) (l : Nat) (m : BlobFileMeta) : Bool :=
  m.isLive &&
    if l = s.cfOptions.numLevels then m.fileType != kSorted
    else m.fileType == kSorted && m.fileLevel.toNat == l

/-- The views of the storage `s` agree with its files, where `obsolete`
stands for the files listed as obsolete. -/
structure Views (obsolete : List UInt64) (s : BlobStorage) : Prop where
  /-- each file once, under its smallest key -/
  ranges : s.blobRanges.Perm (s.files.entries.map fun m => (m.smallestKey, m.fileNumber))
  /-- each obsolete file once, and no other -/
  obsolete : obsolete.Perm ((s.files.entries.filter (·.isObsolete)).map (·.fileNumber))
  fits : ∀ m ∈ s.files.entries, m.fileType = kSorted → m.fileLevel.toNat < s.cfOptions.numLevels
  levels : ∀ l ≤ s.cfOptions.numLevels, s.levelBlobSize[l]?
    = some (UInt64.ofNat (tally BlobFileMeta.size (s.inLevel l) s.files.entries))
  liveSize : s.stats .LIVE_BLOB_FILE_SIZE
    = UInt64.ofNat (tally BlobFileMeta.size (·.isLive) s.files.entries)
  numLive : s.stats .NUM_LIVE_BLOB_FILE
    = UInt64.ofNat (tally (fun _ => 1) (·.isLive) s.files.entries)
  obsoleteSize : s.stats .OBSOLETE_BLOB_FILE_SIZE
    = UInt64.ofNat (tally BlobFileMeta.size (·.isObsolete) s.files.entries)
  numObsolete : s.stats .NUM_OBSOLETE_BLOB_FILE
    = UInt64.ofNat (tally (fun _ => 1) (·.isObsolete) s.files.entries)

/-- The views agree with the files. -/
def Consistent (s : BlobStorage) : Prop :=
  s.Views (s.obsoleteFiles.map Prod.fst)

end BlobStorage

-- ==== one file at a time

namespace BlobStorage

variable {s : BlobStorage} {m : BlobFileMeta} {obsolete : List UInt64} {n : UInt64}

theorem perm_insertRange (cmp : UserKey → UserKey → Ordering)
    (e : UserKey × UInt64) (l : List (UserKey × UInt64)) : (insertRange cmp e l).Perm (e :: l) := by
  induction l with
  | nil => exact List.Perm.refl _
  | cons x xs ih =>
    unfold insertRange
    split
    · exact List.Perm.refl _
    · exact (ih.cons x).trans (List.Perm.swap e x xs)

/-- The slot of a file is the level it is counted in. -/
theorem inLevel_eq (hfits : m.fileType = kSorted →
      m.fileLevel.toNat < s.cfOptions.numLevels) (l : Nat) :
    s.inLevel l m = (m.isLive && decide (s.levelSlot m = l)) := by
  unfold inLevel levelSlot
  congr 1
  by_cases hsorted : m.fileType = kSorted
  · have hlt := hfits hsorted
    by_cases hl : l = s.cfOptions.numLevels
    · rw [if_pos hl, if_pos hsorted, hsorted, decide_eq_false (by omega)]
      rfl
    · rw [if_neg hl, if_pos hsorted, hsorted, Bool.eq_iff_iff]
      simp
  · by_cases hl : l = s.cfOptions.numLevels
    · rw [if_pos hl, if_neg hsorted, hl]
      simp [hsorted]
    · rw [if_neg hl, if_neg hsorted, decide_eq_false (Ne.symm hl)]
      simp [hsorted]

private theorem level_modify {levels : List UInt64} (slot : Nat) {l : Nat}
    {x : UInt64} (h : levels[l]? = some x) (f : UInt64 → UInt64) :
    (levels.modify slot f)[l]? = some (if slot = l then f x else x) := by
  rw [getElem?_modify, h]
  split <;> rfl

/-- A counter follows its sum where some files give way to others. -/
private theorem follows {weight : BlobFileMeta → Nat}
    {p : BlobFileMeta → Bool} {before after gone new rest : List BlobFileMeta}
    {x y : UInt64} (hbefore : before.Perm (gone ++ rest)) (hafter : after.Perm (new ++ rest))
    (hx : x = ofNat (tally weight p before))
    (hy : y = x - ofNat (tally weight p gone) + ofNat (tally weight p new)) :
    y = ofNat (tally weight p after) := by
  rw [tally_perm hbefore, tally_append, ofNat_add] at hx
  rw [hy, hx, tally_perm hafter, tally_append, ofNat_add, add_sub_cancel_left, add_comm]

/-- A new file. -/
theorem Views.add (h : s.Views obsolete)
    (hnew : s.findFile m.fileNumber = none) (hlive : m.isObsolete = false)
    (hfits : m.fileType = kSorted → m.fileLevel.toNat < s.cfOptions.numLevels) :
    (s.addBlobFile m).Views obsolete := by
  have hperm : (s.addBlobFile m).files.entries.Perm ([m] ++ s.files.entries) := by
    show (s.files.emplace m).entries.Perm _
    rw [entries_emplace hnew]
    exact perm_append_comm
  have hcounts {weight p x y} := @follows weight p _ _ [] [m] _ x y (.refl _) hperm
  refine ⟨?_, ?_, ?_, fun l hl => ?_, hcounts h.liveSize ?_,
    hcounts h.numLive ?_, hcounts h.obsoleteSize ?_, hcounts h.numObsolete ?_⟩
  · have hrange := perm_insertRange s.cfOptions.comparator
      (m.smallestKey, m.fileNumber) s.blobRanges
    have hmap := hperm.symm.map fun m => (m.smallestKey, m.fileNumber)
    exact hrange.trans ((h.ranges.cons _).trans hmap)
  · have hfilter := hperm.filter (·.isObsolete)
    rw [singleton_append, filter_cons_of_neg (by simp [hlive])] at hfilter
    exact h.obsolete.trans (hfilter.symm.map _)
  · intro x hx
    rcases mem_cons.1 (hperm.mem_iff.1 hx) with rfl | hx
    · exact hfits
    · exact h.fits x hx
  · refine (level_modify _ (h.levels l hl) _).trans
      (congrArg some (hcounts (p := s.inLevel l) rfl ?_))
    by_cases hslot : s.levelSlot m = l <;>
      simp [tally, inLevel_eq hfits, hslot, BlobFileMeta.isLive, hlive, BlobFileMeta.size]
  all_goals simp [tally, BlobFileMeta.isLive, BlobFileMeta.size, hlive,
    addBlobFile, InternalStats.add]

/-- A live file is marked obsolete. -/
theorem Views.mark (h : s.Views obsolete) {n : UInt64}
    (hfind : s.findFile n = some m) (hlive : m.isObsolete = false) (q : SequenceNumber) :
    (s.markFileObsoleteLocked m q).Views (obsolete ++ [n]) := by
  have hnum : m.fileNumber = n := key_of_find hfind
  let m' := m.fileStateTransit .kDelete
  let rest := (s.files.erase n).entries
  have hbefore : s.files.entries.Perm ([m] ++ rest) := perm_erase hfind
  have hafter : (s.markFileObsoleteLocked m q).files.entries.Perm ([m'] ++ rest) := by
    subst hnum
    exact perm_modify hfind (·.fileStateTransit .kDelete) fun _ => rfl
  have hdead : m'.isObsolete = true := rfl
  have hsize : m'.fileSize = m.fileSize := rfl
  have hfits : m.fileType = kSorted → m.fileLevel.toNat < s.cfOptions.numLevels :=
    h.fits m (mem_of_find hfind)
  have hcounts {weight p x y} := @follows weight p _ _ _ _ _ x y hbefore hafter
  refine ⟨?_, ?_, ?_, fun l hl => ?_, hcounts h.liveSize ?_,
    hcounts h.numLive ?_, hcounts h.obsoleteSize ?_, hcounts h.numObsolete ?_⟩
  · have hmap := hbefore.map fun m => (m.smallestKey, m.fileNumber)
    have hmap' := hafter.map fun m => (m.smallestKey, m.fileNumber)
    exact h.ranges.trans (hmap.trans hmap'.symm)
  · have hfilter := hbefore.filter (·.isObsolete)
    rw [singleton_append, filter_cons_of_neg (by simp [hlive])] at hfilter
    have hlisted := (h.obsolete.trans (hfilter.map _)).cons n
    refine perm_append_comm.trans (hlisted.trans ?_)
    rw [← hnum]
    exact ((hafter.filter (·.isObsolete)).map (·.fileNumber)).symm
  · intro x hx
    rcases mem_cons.1 (hafter.mem_iff.1 hx) with rfl | hx
    · exact hfits
    · exact h.fits x (hbefore.mem_iff.2 (mem_cons_of_mem _ hx))
  · refine (level_modify _ (h.levels l hl) _).trans
      (congrArg some (hcounts (p := s.inLevel l) rfl ?_))
    have hout : s.inLevel l m' = false := rfl
    by_cases hslot : s.levelSlot m = l <;>
      simp [tally, inLevel_eq hfits, hout, hslot, BlobFileMeta.isLive, hlive, BlobFileMeta.size]
  all_goals simp [tally, BlobFileMeta.isLive, BlobFileMeta.size, hlive, hdead,
    hsize, markFileObsoleteLocked, InternalStats.add, InternalStats.sub]

/-- What the views show of a file. -/
private def Alike (m m' : BlobFileMeta) : Prop :=
  m' = { m with discardableSize := m'.discardableSize }

/-- An update of a discardable size shows in no view. -/
theorem Views.update (h : s.Views obsolete) (d : UInt64 × UInt64) :
    (applyUpdate s d).Views obsolete := by
  let f := fun m : BlobFileMeta =>
    if m.fileNumber = d.1 then m.addDiscardableSize d.2 else m
  have hentries : (applyUpdate s d).files.entries = s.files.entries.map f := rfl
  have hf : ∀ m, Alike m (f m) := by
    intro m
    dsimp only [f]
    split <;> rfl
  have hsize : ∀ m, (f m).size = m.size := fun m => by rw [hf m]; rfl
  have hobs : ∀ m, (f m).isObsolete = m.isObsolete := fun m => by
    rw [hf m]; rfl
  have hlive : ∀ m, (f m).isLive = m.isLive := fun m => by rw [hf m]; rfl
  have hlevel : ∀ l m, s.inLevel l (f m) = s.inLevel l m := fun l m => by
    rw [hf m]; rfl
  have hone : ∀ m : BlobFileMeta, (fun _ => 1) (f m) = (fun _ => 1) m := fun _ => rfl
  refine ⟨?_, ?_, ?_, fun l hl => ?_, ?_, ?_, ?_, ?_⟩
  · rw [hentries, map_map]
    refine h.ranges.trans (.of_eq (map_congr_left fun m _ => ?_))
    show _ = ((f m).smallestKey, (f m).fileNumber)
    rw [hf m]
  · rw [hentries, filter_map, map_map,
      show (fun m : BlobFileMeta => m.isObsolete) ∘ f = (·.isObsolete) from
        funext hobs]
    refine h.obsolete.trans (.of_eq (map_congr_left fun m _ => ?_))
    show _ = (f m).fileNumber
    rw [hf m]
  · intro x hx
    obtain ⟨m, hm, rfl⟩ := mem_map.1 (hentries ▸ hx)
    rw [hf m]
    exact h.fits m hm
  · have hlevel' : ∀ m, (applyUpdate s d).inLevel l (f m)
        = (applyUpdate s d).inLevel l m := hlevel l
    rw [hentries, tally_map hsize hlevel']
    exact h.levels l hl
  · rw [hentries, tally_map hsize hlive]
    exact h.liveSize
  · rw [hentries, tally_map hone hlive]
    exact h.numLive
  · rw [hentries, tally_map hsize hobs]
    exact h.obsoleteSize
  · rw [hentries, tally_map hone hobs]
    exact h.numObsolete

/-- Removing the one range of a file. -/
private theorem perm_eraseRange {ranges rest : List (UserKey × UInt64)}
    {cmp : UserKey → UserKey → Ordering} (hcmp : ∀ k, cmp k k = .eq)
    {key : UserKey} (h : ranges.Perm ((key, n) :: rest)) (hrest : n ∉ rest.map Prod.snd) :
    (ranges.eraseP fun e => cmp e.1 key == .eq && e.2 == n).Perm rest := by
  have hself : (fun e : UserKey × UInt64 => cmp e.1 key == .eq && e.2 == n)
      (key, n) = true := by simp [hcmp]
  obtain ⟨a, l₁, l₂, -, ha, hsplit, herase⟩ := exists_of_eraseP
    (p := fun e => cmp e.1 key == .eq && e.2 == n) (h.mem_iff.2 mem_cons_self) hself
  -- no other range has the number
  have heq : a = (key, n) := by
    have hmem : a ∈ (key, n) :: rest := by
      rw [← h.mem_iff, hsplit]
      exact mem_append_right _ mem_cons_self
    rcases mem_cons.1 hmem with heq | hmem
    · exact heq
    · have hnum : a.2 = n := by simpa using (Bool.and_eq_true_iff.1 ha).2
      exact absurd (hnum ▸ mem_map_of_mem hmem) hrest
  rw [herase]
  rw [hsplit, heq] at h
  exact (perm_middle.symm.trans h).cons_inv

/-- An obsolete file is removed. -/
theorem Views.remove (h : s.Views (n :: obsolete)) (hcmp : ∀ k, s.cfOptions.comparator k k = .eq) :
    (s.removeFile n).Views obsolete := by
  obtain ⟨m, hm, hnum⟩ := mem_map.1 (h.obsolete.mem_iff.1 mem_cons_self)
  obtain ⟨hmem, hdead⟩ := mem_filter.1 hm
  have hfind : s.files.find n = some m := hnum ▸ find_of_mem hmem
  let rest := (s.files.erase n).entries
  have hbefore : s.files.entries.Perm ([m] ++ rest) := perm_erase hfind
  have hremove : s.removeFile n = { s with
      blobRanges := s.blobRanges.eraseP fun e =>
        s.cfOptions.comparator e.1 m.smallestKey == .eq && e.2 == m.fileNumber
      stats := (s.stats.sub .OBSOLETE_BLOB_FILE_SIZE m.fileSize).sub .NUM_OBSOLETE_BLOB_FILE 1
      files := s.files.erase n } := by
    unfold removeFile
    rw [hfind]
  rw [hremove]
  have hcounts {weight p x y} := @follows weight p _ _ _ [] rest x y hbefore (.refl _)
  refine ⟨?_, ?_, ?_, fun l hl => ?_, hcounts h.liveSize ?_,
    hcounts h.numLive ?_, hcounts h.obsoleteSize ?_, hcounts h.numObsolete ?_⟩
  · have hmap := hbefore.map fun m => (m.smallestKey, m.fileNumber)
    refine perm_eraseRange hcmp (h.ranges.trans hmap) ?_
    rw [map_map, hnum]
    intro hn
    obtain ⟨x, hx, hxn⟩ := mem_map.1 hn
    exact of_decide_eq_true (mem_filter.1 hx).2 hxn
  · have hfilter := hbefore.filter (·.isObsolete)
    rw [singleton_append, filter_cons_of_pos hdead] at hfilter
    have hlisted := h.obsolete.trans (hfilter.map (·.fileNumber))
    rw [map_cons, hnum] at hlisted
    exact hlisted.cons_inv
  · exact fun x hx => h.fits x (hbefore.mem_iff.2 (mem_cons_of_mem _ hx))
  · refine (h.levels l hl).trans (congrArg some (hcounts (p := s.inLevel l) rfl ?_))
    simp [tally, inLevel, BlobFileMeta.isLive, hdead]
  all_goals simp [tally, BlobFileMeta.isLive, BlobFileMeta.size, hdead, InternalStats.sub]

-- ==== whole operations

/-- An added file as its callers make it: not obsolete, and of a level
the storage counts. -/
def Countable (s : BlobStorage) (m : BlobFileMeta) : Prop :=
  m.isObsolete = false ∧ (m.fileType = kSorted → m.fileLevel.toNat < s.cfOptions.numLevels)

instance (s : BlobStorage) (m : BlobFileMeta) : Decidable (s.Countable m) :=
  inferInstanceAs (Decidable (_ ∧ _))

private theorem Views.foldl_add {l : List BlobFileMeta}
    (h : s.Views obsolete) (hnodup : (l.map (·.fileNumber)).Nodup)
    (hnew : ∀ m ∈ l, s.findFile m.fileNumber = none) (hok : ∀ m ∈ l, s.Countable m) :
    (l.foldl addBlobFile s).Views obsolete := by
  induction l generalizing s with
  | nil => exact h
  | cons m l ih =>
    rw [map_cons, nodup_cons] at hnodup
    obtain ⟨hlive, hfits⟩ := hok m mem_cons_self
    refine ih (h.add (hnew m mem_cons_self) hlive hfits) hnodup.2
      (fun x hx => ?_) fun x hx => hok x (mem_cons_of_mem _ hx)
    have hne : m.fileNumber ≠ x.fileNumber := fun he =>
      hnodup.1 (he ▸ mem_map_of_mem hx)
    rw [findFile_addBlobFile, if_neg hne]
    exact hnew x (mem_cons_of_mem _ hx)

private theorem Views.foldl_mark {l : List (UInt64 × SequenceNumber)}
    (h : s.Views obsolete) (hnodup : (l.map Prod.fst).Nodup)
    (hlive : ∀ d ∈ l, ∃ m, s.findFile d.1 = some m ∧ m.isObsolete = false) :
    (l.foldl CFEditCollector.mark s).Views (obsolete ++ l.map Prod.fst) := by
  induction l generalizing s obsolete with
  | nil =>
    rw [map_nil, append_nil]
    exact h
  | cons d l ih =>
    rw [map_cons, nodup_cons] at hnodup
    obtain ⟨m, hm, hml⟩ := hlive d mem_cons_self
    have hmark : CFEditCollector.mark s d = s.markFileObsoleteLocked m d.2 := by
      have hfind : s.files.find d.1 = some m := hm
      unfold CFEditCollector.mark markFileObsolete
      rw [hfind]
      rfl
    have hstep := ih (hmark ▸ h.mark hm hml d.2) hnodup.2 fun x hx => by
      obtain ⟨m', hm', hml'⟩ := hlive x (mem_cons_of_mem _ hx)
      have hne : x.1 ≠ d.1 := fun he =>
        hnodup.1 (he ▸ mem_map_of_mem hx)
      refine ⟨m', ?_, hml'⟩
      rw [findFile_mark, if_neg hne]
      exact hm'
    rw [append_assoc, singleton_append] at hstep
    exact hstep

private theorem Views.foldl_update {l : List (UInt64 × UInt64)} (h : s.Views obsolete) :
    (l.foldl applyUpdate s).Views obsolete := by
  induction l generalizing s with
  | nil => exact h
  | cons d l ih => exact ih (h.update d)

private theorem Views.foldl_remove {l : List UInt64} (h : s.Views (l ++ obsolete))
    (hcmp : ∀ k, s.cfOptions.comparator k k = .eq) : (l.foldl removeFile s).Views obsolete := by
  induction l generalizing s with
  | nil => exact h
  | cons n l ih =>
    refine ih (Views.remove h hcmp) ?_
    unfold removeFile
    cases s.files.find n <;> exact hcmp

theorem Views.perm {obsolete' : List UInt64} (h : s.Views obsolete)
    (hperm : obsolete'.Perm obsolete) : s.Views obsolete' :=
  { h with obsolete := hperm.trans h.obsolete }

/-- `Apply` of a batch that fits. -/
theorem Consistent.apply (h : s.Consistent) {c : CFEditCollector}
    (hfit : c.Sealable s) (hok : ∀ m ∈ c.addedFiles.entries, s.Countable m) :
    (c.apply s).2.Consistent := by
  have hadded : (c.applyAdded s).Views (s.obsoleteFiles.map Prod.fst) := by
    refine Views.foldl_add h ?_ (fun m hm => ?_) fun m hm =>
      hok m (mem_filter.1 hm).1
    · exact c.addedFiles.nodup.sublist (filter_sublist.map _)
    · exact hfit.added_fresh m.fileNumber (contains_iff.2 ⟨m, find_of_mem (mem_filter.1 hm).1⟩)
  have hmarked := Views.foldl_mark hadded (l := c.unpaired)
    (c.deletedFiles.nodup.sublist (filter_sublist.map _)) <| by
      intro d hd
      obtain ⟨hmem, ha⟩ := mem_filter.1 hd
      obtain ⟨m, hm, hlive⟩ := hfit.deleted_live d.1 (contains_of_mem hmem) (by simpa using ha)
      refine ⟨m, ?_, hlive⟩
      rw [findFile_applyAdded, hm]
      rfl
  have hall := hmarked.foldl_update (l := c.updatedDiscardableSize.entries)
  unfold Consistent
  rw [obsoleteFiles_apply hfit, map_append, apply_eq hfit]
  exact ⟨hall.ranges, hall.obsolete, hall.fits, hall.levels, hall.liveSize,
    hall.numLive, hall.obsoleteSize, hall.numObsolete⟩

/-- `GetObsoleteFiles`. -/
theorem Consistent.getObsoleteFiles (h : s.Consistent)
    (hcmp : ∀ k, s.cfOptions.comparator k k = .eq) (q : SequenceNumber) :
    (s.getObsoleteFiles q).2.Consistent := by
  have hsplit : ((s.getObsoleteFiles q).1
      ++ (s.obsoleteFiles.filter fun f => ¬ q > f.2).map Prod.fst).Perm
        (s.obsoleteFiles.map Prod.fst) := by
    have hperm := (filter_append_perm (fun f : UInt64 × SequenceNumber => decide (q > f.2))
      s.obsoleteFiles).map Prod.fst
    rw [map_append] at hperm
    refine List.Perm.trans (.of_eq ?_) hperm
    congr 3
    funext f
    exact decide_not
  have hviews := (h.perm hsplit).foldl_remove hcmp
  exact ⟨hviews.ranges, hviews.obsolete, hviews.fits, hviews.levels,
    hviews.liveSize, hviews.numLive, hviews.obsoleteSize, hviews.numObsolete⟩

theorem cfOptions_getObsoleteFiles (s : BlobStorage) (q : SequenceNumber) :
    (s.getObsoleteFiles q).2.cfOptions = s.cfOptions := by
  have hfold : ∀ (l : List UInt64) (s : BlobStorage),
      (l.foldl removeFile s).cfOptions = s.cfOptions := by
    intro l
    induction l with
    | nil => exact fun _ => rfl
    | cons n l ih =>
      intro s
      rw [foldl_cons, ih]
      unfold removeFile
      cases s.files.find n <;> rfl
  exact hfold ..

/-- A storage as it is constructed. -/
theorem consistent_new (dbOptions : TitanDBOptions) (cfOptions : TitanCFOptions) :
    ({ dbOptions, cfOptions } : BlobStorage).Consistent := by
  refine ⟨List.Perm.refl _, List.Perm.refl _, (fun _ h => nomatch h),
    fun l hl => ?_, rfl, rfl, rfl, rfl⟩
  show (replicate (cfOptions.numLevels + 1) (0 : UInt64))[l]? = some 0
  rw [getElem?_replicate, if_pos (Nat.lt_succ_of_le hl)]

end BlobStorage

-- ==== the file set

/-- What is done to a file set: an edit is logged and applied, or
obsolete files are handed out. -/
inductive FileOp where
  | edit (e : VersionEdit) (io : ManifestIO)
  | purge (oldestSequence : SequenceNumber)

namespace BlobFileSet

/-- The file set after the operation. -/
def perform (C : Coding) (fs : BlobFileSet) : FileOp → Option BlobFileSet
  | .edit e io => some (fs.logAndApply C e io).2
  | .purge oldestSequence => some (fs.getObsoleteFiles oldestSequence).2.2

/-- The files an edit adds are as callers make them. -/
def AddsCountable (fs : BlobFileSet) : FileOp → Prop
  | .edit e _ => ∀ st ∈ fs.columnFamilies.lookup e.columnFamilyId,
      ∀ m ∈ e.addedFiles, st.Countable m
  | .purge _ => True

instance (fs : BlobFileSet) : (op : FileOp) → Decidable (fs.AddsCountable op)
  | .edit e _ => inferInstanceAs (Decidable
      (∀ st ∈ fs.columnFamilies.lookup e.columnFamilyId, ∀ m ∈ e.addedFiles, st.Countable m))
  | .purge _ => isTrue trivial

/-- Every storage is consistent, and its comparator finds a key equal to
itself. -/
def Consistent (fs : BlobFileSet) : Prop :=
  ∀ i st, fs.columnFamilies.lookup i = some st →
    st.Consistent ∧ ∀ k, st.cfOptions.comparator k k = .eq

variable {C : Coding} {fs fs' : BlobFileSet}

theorem Consistent.logAndApply (h : fs.Consistent) {e : VersionEdit}
    {io : ManifestIO} (hadds : fs.AddsCountable (.edit e io)) :
    (fs.logAndApply C e io).2.Consistent := by
  intro i st' hst'
  rcases lookup_logAndApply_cases fs e io i with
    heq | ⟨st, rfl, hadm, -, hst, heq⟩
  · exact h i st' (heq.symm.trans hst')
  · cases heq.symm.trans hst'
    obtain ⟨hcons, hcmp⟩ := h _ st hst
    refine ⟨hcons.apply (hadm.fits st hst) ?_, ?_⟩
    · rw [VersionEdit.batch_addedFiles hadm.nodup]
      exact hadds st hst
    · rw [(apply_options st).2.1]
      exact hcmp

/-- What every storage has and `GetObsoleteFiles` of one keeps, every
storage has after `GetObsoleteFiles` of all. -/
theorem forall_getObsoleteFiles {P : BlobStorage → Prop} {q : SequenceNumber}
    (keep : ∀ {st}, P st → P (st.getObsoleteFiles q).2)
    (h : ∀ i st, fs.columnFamilies.lookup i = some st → P st) :
    ∀ i st, (fs.getObsoleteFiles q).2.2.columnFamilies.lookup i = some st → P st := by
  intro i st' hst'
  obtain ⟨st, hst, rfl | rfl⟩ := of_lookup_getObsoleteFiles hst'
  · exact h i st' hst
  · exact keep (h i st hst)

theorem Consistent.getObsoleteFiles (h : fs.Consistent)
    (q : SequenceNumber) : (fs.getObsoleteFiles q).2.2.Consistent := by
  refine forall_getObsoleteFiles (fun {st} hst => ?_) h
  refine ⟨hst.1.getObsoleteFiles hst.2 q, ?_⟩
  rw [st.cfOptions_getObsoleteFiles]
  exact hst.2

theorem Consistent.perform (h : fs.Consistent) {op : FileOp}
    (hadds : fs.AddsCountable op) (hstep : fs.perform C op = some fs') : fs'.Consistent := by
  cases op with
  | edit e io =>
    cases hstep
    exact h.logAndApply hadds
  | purge q =>
    cases hstep
    exact h.getObsoleteFiles q

end BlobFileSet

-- ==== runs

namespace BlobStorage

/-- The sizes of the files, and their number, fit 64 bits. -/
def SumsFit (s : BlobStorage) : Prop :=
  tally BlobFileMeta.size (fun _ => true) s.files.entries < 2 ^ 64 ∧ s.files.entries.length < 2 ^ 64

/-- The numbers are the sums themselves. -/
structure Exact (s : BlobStorage) : Prop where
  levels : ∀ l ≤ s.cfOptions.numLevels,
    s.levelBlobSize[l]?.map UInt64.toNat
      = some (tally BlobFileMeta.size (s.inLevel l) s.files.entries)
  liveSize : (s.stats .LIVE_BLOB_FILE_SIZE).toNat
    = tally BlobFileMeta.size (·.isLive) s.files.entries
  numLive : (s.stats .NUM_LIVE_BLOB_FILE).toNat = tally (fun _ => 1) (·.isLive) s.files.entries
  obsoleteSize : (s.stats .OBSOLETE_BLOB_FILE_SIZE).toNat
    = tally BlobFileMeta.size (·.isObsolete) s.files.entries
  numObsolete : (s.stats .NUM_OBSOLETE_BLOB_FILE).toNat
    = tally (fun _ => 1) (·.isObsolete) s.files.entries

theorem Consistent.exact {s : BlobStorage} (h : s.Consistent) (hfit : s.SumsFit) : s.Exact := by
  have hsize : ∀ p : BlobFileMeta → Bool, (ofNat (tally BlobFileMeta.size p s.files.entries)).toNat
      = tally BlobFileMeta.size p s.files.entries := by
    intro p
    exact Nat.mod_eq_of_lt (Nat.lt_of_le_of_lt tally_le hfit.1)
  have hcount : ∀ p : BlobFileMeta → Bool, (ofNat (tally (fun _ => 1) p s.files.entries)).toNat
      = tally (fun _ => 1) p s.files.entries := by
    intro p
    refine Nat.mod_eq_of_lt (Nat.lt_of_le_of_lt tally_le ?_)
    unfold tally
    simpa using hfit.2
  refine ⟨fun l hl => ?_, ?_, ?_, ?_, ?_⟩
  · rw [h.levels l hl, Option.map_some, hsize]
  · rw [h.liveSize, hsize]
  · rw [h.numLive, hcount]
  · rw [h.obsoleteSize, hsize]
  · rw [h.numObsolete, hcount]

end BlobStorage

/-- **The views of a storage.** After any run of logged edits and purges
of an opened file set, the ranges and the list of obsolete files are
those of the files, and sizes by level and counters are the sums over
the files modulo 2^64: the sums themselves, if these fit. -/
theorem views_after_run {C : Coding} {dbOptions : TitanDBOptions}
    {columnFamilies : List (UInt32 × TitanCFOptions)}
    (hcmp : ∀ cf ∈ columnFamilies, ∀ k, cf.2.comparator k k = .eq)
    {ops : List FileOp} {fs : BlobFileSet}
    (hadds : Meets (BlobFileSet.perform C) BlobFileSet.AddsCountable
      (({ dbOptions } : BlobFileSet).addColumnFamilies columnFamilies) ops)
    (hexec : exec (BlobFileSet.perform C)
      (({ dbOptions } : BlobFileSet).addColumnFamilies columnFamilies) ops = some fs)
    {i : UInt32} {st : BlobStorage} (hst : fs.columnFamilies.lookup i = some st) :
    st.Consistent ∧ (st.SumsFit → st.Exact) := by
  have hstart : (({ dbOptions } : BlobFileSet).addColumnFamilies columnFamilies).Consistent := by
    intro i st hst
    rw [lookup_addColumnFamilies] at hst
    obtain ⟨cf, hcf, rfl⟩ := Option.map_eq_some_iff.1 hst
    exact ⟨BlobStorage.consistent_new dbOptions cf.2, hcmp cf (mem_of_find?_eq_some hcf)⟩
  have hend : fs.Consistent := exec_keeps (fun h hc hs => h.perform hc hs) hstart hadds hexec
  exact ⟨(hend i st hst).1, (hend i st hst).1.exact⟩

/-- One column family with the default options. -/
def opened : BlobFileSet :=
  ({} : BlobFileSet).addColumnFamilies [(0, {})]

/-- Two files of 2^63 bytes each. -/
def addTwoHuge : List FileOp :=
  [.edit { addedFiles := [{ fileNumber := 1, fileSize := 2 ^ 63 }] } .ok,
    .edit { addedFiles := [{ fileNumber := 2, fileSize := 2 ^ 63 }] } .ok]

/-- Both edits are accepted, and the live size wraps round to 0. -/
theorem liveSize_addTwoHuge :
    ∃ fs st, exec (BlobFileSet.perform base128) opened addTwoHuge = some fs
      ∧ fs.columnFamilies.lookup 0 = some st
      ∧ tally BlobFileMeta.size (·.isLive) st.files.entries = 2 ^ 64
      ∧ (st.stats .LIVE_BLOB_FILE_SIZE).toNat = 0 := by
  obtain ⟨fs, hfs, st, hst, hsizes⟩ : ∃ fs ∈ exec (perform base128) opened addTwoHuge,
      ∃ st ∈ fs.columnFamilies.lookup 0,
        tally BlobFileMeta.size (·.isLive) st.files.entries = 2 ^ 64
        ∧ (st.stats .LIVE_BLOB_FILE_SIZE).toNat = 0 := by decide +kernel
  exact ⟨fs, st, hfs, hst, hsizes⟩

/-- A file is added, deleted and purged, another stays. -/
def addDeletePurge : List FileOp :=
  [.edit { addedFiles := [{ fileNumber := 1, fileSize := 100 },
      { fileNumber := 2, fileSize := 50, fileType := kSorted }] } .ok,
    .edit { deletedFiles := [(1, 5)] } .ok, .purge 6]

theorem views_addDeletePurge :
    ∃ fs st, exec (BlobFileSet.perform base128) opened addDeletePurge = some fs
      ∧ fs.columnFamilies.lookup 0 = some st ∧ st.Consistent ∧ st.Exact
      ∧ st.blobRanges = [(UserKey.empty, 2)] := by
  obtain ⟨fs, hfs, st, hst, hranges, hsum, hlen⟩ :
      ∃ fs ∈ exec (perform base128) opened addDeletePurge,
      ∃ st ∈ fs.columnFamilies.lookup 0, st.blobRanges = [(UserKey.empty, 2)]
        ∧ tally BlobFileMeta.size (fun _ => true) st.files.entries < 2 ^ 64
        ∧ st.files.entries.length < 2 ^ 64 := by decide +kernel
  have hcmp : ∀ cf ∈ [((0 : UInt32), ({} : TitanCFOptions))], ∀ k, cf.2.comparator k k = .eq := by
    intro cf hcf k
    rw [mem_singleton.1 hcf]
    exact Std.ReflCmp.compare_self
  obtain ⟨hcons, hexact⟩ := views_after_run hcmp (by decide +kernel) hfs hst
  exact ⟨fs, st, hfs, hst, hcons, hexact ⟨hsum, hlen⟩, hranges⟩

end DiffKV
