/-
How range merging counts sorted runs.

`MarkFileIfNeedMerge` sorts the ends of the files and sweeps over them.
Of two ends with the same key the end of one file is to stand before the
beginning of another, so that files which only touch do not overlap. The
number of files a file overlaps is read off two counters at two times:
the files opened until its own end, less the files closed until its own
beginning.

The order of the ends is sound where no file begins at the key it ends
with, apart from the comparison of an end with itself. A file of one key
must open before it closes, which goes against the rule for the ends of
different files as soon as another file has an end at that key.
-/
import DiffKV.Lib.SortOrder
import DiffKV.Notifications
import DiffKV.Proofs.RangeSelection

namespace DiffKV

open Lib List Table

variable {a b e : BlobEnd} {n : UInt64} {m f g : BlobFileMeta}
  {ends p q : List BlobEnd} {maxSortedRuns : Int}

-- ==== the order of the ends

section Order

variable {files : List BlobFileMeta}

theorem mem_blobEnds : e ∈ blobEnds files ↔ e.1 ∈ files := by
  obtain ⟨m, smallest⟩ := e
  cases smallest <;> simp [blobEnds]

/-- The smallest end of a file counts as before itself. -/
theorem blobEndsCmp_self (m : BlobFileMeta) : blobEndsCmp (m, true) (m, true) = true := by
  have hself : bytewiseCompare m.smallestKey m.smallestKey = .eq := Std.ReflCmp.compare_self
  simp [blobEndsCmp, BlobEnd.key, hself]

/-- A file opens before it closes. -/
theorem blobEndsCmp_own (h : (bytewiseCompare f.smallestKey f.largestKey).isLE = true) :
    blobEndsCmp (f, true) (f, false) = true := by
  cases hcmp : bytewiseCompare f.smallestKey f.largestKey with
  | lt => simp [blobEndsCmp, BlobEnd.key, hcmp]
  | eq => simp [blobEndsCmp, BlobEnd.key, hcmp]
  | gt =>
    rw [hcmp] at h
    cases h

/-- A file that ends where another begins is closed first. -/
theorem blobEndsCmp_close_open (hne : f.fileNumber ≠ g.fileNumber) :
    blobEndsCmp (f, false) (g, true) = (bytewiseCompare f.largestKey g.smallestKey).isLE := by
  cases hcmp : bytewiseCompare f.largestKey g.smallestKey with
  | lt => simp [blobEndsCmp, BlobEnd.key, hcmp]
  | eq => simp [blobEndsCmp, BlobEnd.key, hcmp, hne]
  | gt => simp [blobEndsCmp, BlobEnd.key, hcmp]

theorem blobEndsCmp_open_close (hne : f.fileNumber ≠ g.fileNumber) :
    blobEndsCmp (f, true) (g, false) = (bytewiseCompare f.smallestKey g.largestKey).isLT := by
  cases hcmp : bytewiseCompare f.smallestKey g.largestKey with
  | lt => simp [blobEndsCmp, BlobEnd.key, hcmp]
  | eq => simp [blobEndsCmp, BlobEnd.key, hcmp, hne]
  | gt => simp [blobEndsCmp, BlobEnd.key, hcmp]

/-- The ends of one kind go by their keys. -/
theorem blobEndsCmp_alike (b : Bool) (hne : f.fileNumber ≠ g.fileNumber) :
    blobEndsCmp (f, b) (g, b)
      = (bytewiseCompare (BlobEnd.key (f, b)) (BlobEnd.key (g, b))).isLT := by
  unfold blobEndsCmp
  cases bytewiseCompare (BlobEnd.key (f, b)) (BlobEnd.key (g, b)) with
  | lt => rfl
  | eq => simp [hne]
  | gt => rfl

/-- Where an end stands among those of its key, if no file of one key
shares that key. -/
def BlobEnd.tie (e : BlobEnd) : Bool :=
  if e.1.smallestKey = e.1.largestKey then !e.2 else e.2

/-- A file of one key has no end of another file at that key. -/
def Unshared (files : List BlobFileMeta) : Prop :=
  ∀ f ∈ files, ∀ g ∈ files, f ≠ g → f.smallestKey = f.largestKey →
    f.smallestKey ≠ g.smallestKey ∧ f.smallestKey ≠ g.largestKey

/-- Files with different numbers, as pointers to them would have it. -/
def Distinct (files : List BlobFileMeta) : Prop :=
  (files.map (·.fileNumber)).Nodup

theorem Distinct.eq (h : Distinct files) (hf : f ∈ files) (hg : g ∈ files)
    (hnum : f.fileNumber = g.fileNumber) : f = g := inj_on_of_nodup_map h hf hg hnum

/-- The two ends of a file. -/
theorem snd_own (hfile : a.1 = b.1) (hne : a ≠ b) : b.2 = !a.2 := by
  have hsnd : a.2 ≠ b.2 := fun h => hne (Prod.ext hfile h)
  revert hsnd
  cases a.2 <;> cases b.2 <;> decide

/-- The tie of an end at the key of the other end of the file. -/
theorem tie_own (hfile : a.1 = b.1) (hne : a ≠ b) (hkey : a.key = b.key) : a.tie = !a.2 := by
  have hone : a.1.smallestKey = a.1.largestKey := by
    unfold BlobEnd.key at hkey
    rw [← hfile, snd_own hfile hne] at hkey
    cases hs : a.2 with
    | false => simpa [hs] using hkey.symm
    | true => simpa [hs] using hkey
  unfold BlobEnd.tie
  rw [if_pos hone]

/-- The tie of an end at a key where another file has an end. -/
theorem Unshared.tie (h : Unshared files) (ha : a.1 ∈ files)
    (hb : b.1 ∈ files) (hne : a.1 ≠ b.1) (hkey : a.key = b.key) : a.tie = a.2 := by
  unfold BlobEnd.tie
  split
  case isFalse => rfl
  case isTrue hone =>
    obtain ⟨hs, hl⟩ := h a.1 ha b.1 hb hne hone
    have hakey : a.key = a.1.smallestKey := by
      unfold BlobEnd.key
      rw [← hone, ite_self]
    rw [hakey] at hkey
    unfold BlobEnd.key at hkey
    split at hkey
    · exact absurd hkey hs
    · exact absurd hkey hl

/-- Between different ends the comparison goes by the key and then by
the tie. -/
theorem Unshared.apart_eq (h : Unshared files) (hnum : Distinct files)
    (ha : a.1 ∈ files) (hb : b.1 ∈ files) :
    apart blobEndsCmp a b
      = (compareLex (fun a b : BlobEnd => bytewiseCompare a.key b.key)
          (compareOn BlobEnd.tie) a b).isLT := by
  show apart blobEndsCmp a b = ((bytewiseCompare a.key b.key).then (compare a.tie b.tie)).isLT
  by_cases hab : a = b
  · have hkey : bytewiseCompare b.key b.key = .eq := Std.ReflCmp.compare_self
    have htie : compare b.tie b.tie = .eq := Std.ReflCmp.compare_self
    subst hab
    rw [hkey, htie]
    simp [apart]
  rw [apart_of_ne hab]
  unfold blobEndsCmp
  cases hcmp : bytewiseCompare a.key b.key with
  | lt => rfl
  | gt => rfl
  | eq =>
    have hkey : a.key = b.key := Std.LawfulEqCmp.eq_of_compare hcmp
    by_cases hsame : a.1.fileNumber = b.1.fileNumber
    · rw [if_pos hsame, tie_own (hnum.eq ha hb hsame) hab hkey,
        tie_own (hnum.eq ha hb hsame).symm (Ne.symm hab) hkey.symm,
        snd_own (hnum.eq ha hb hsame) hab]
      cases a.2 <;> decide
    · have hne : a.1 ≠ b.1 := fun heq => hsame (by rw [heq])
      rw [if_neg hsame, h.tie ha hb hne hkey, h.tie hb ha hne.symm hkey.symm]
      cases a.2 <;> cases b.2 <;> decide

/-- With an end of another file at the key of a file of one key, three
ends are out of order. -/
theorem unshared_of_strictWeakOn (hnum : Distinct files)
    (h : StrictWeakOn (apart blobEndsCmp) (blobEnds files)) : Unshared files := by
  intro f hf g hg hne hone
  have hnumber : f.fileNumber ≠ g.fileNumber := fun heq =>
    hne (hnum.eq hf hg heq)
  have hends : ∀ b, (f, b) ∈ blobEnds files ∧ (g, b) ∈ blobEnds files :=
    fun b => ⟨mem_blobEnds.2 hf, mem_blobEnds.2 hg⟩
  have hself : ∀ k : UserKey, bytewiseCompare k k = .eq := fun _ =>
    Std.ReflCmp.compare_self
  have hown : apart blobEndsCmp (f, true) (f, false) = true := by
    rw [apart_of_ne (by simp)]
    exact blobEndsCmp_own (by rw [hone, hself]; rfl)
  refine ⟨fun hkey => ?_, fun hkey => ?_⟩
  · -- the beginning of `f`, its end, the beginning of `g`
    have hnext : apart blobEndsCmp (f, false) (g, true) = true := by
      rw [apart_of_ne (by simp), blobEndsCmp_close_open hnumber, ← hone, hkey, hself]
      rfl
    have hlast := h.trans _ (hends true).1 _ (hends false).1 _ (hends true).2 hown hnext
    rw [apart_of_ne (by simp [hne]), blobEndsCmp_alike true hnumber] at hlast
    simp [BlobEnd.key, hkey, hself] at hlast
  · -- the end of `g`, the beginning of `f`, its end
    have hfirst : apart blobEndsCmp (g, false) (f, true) = true := by
      rw [apart_of_ne (by simp), blobEndsCmp_close_open hnumber.symm, ← hkey, hself]
      rfl
    have hlast := h.trans _ (hends false).2 _ (hends true).1 _ (hends false).1 hfirst hown
    rw [apart_of_ne (by simp [Ne.symm hne]), blobEndsCmp_alike false hnumber.symm] at hlast
    simp [BlobEnd.key, ← hkey, ← hone, hself] at hlast

theorem strictWeakOn_apart_iff (hnum : Distinct files) :
    StrictWeakOn (apart blobEndsCmp) (blobEnds files) ↔ Unshared files := by
  refine ⟨unshared_of_strictWeakOn hnum, fun h => ?_⟩
  have hkeys : Std.TransCmp fun a b : BlobEnd =>
      bytewiseCompare a.key b.key := transCmp_on bytewiseCompare BlobEnd.key
  refine StrictWeakOn.of_compare (compareLex (fun a b : BlobEnd =>
    bytewiseCompare a.key b.key) (compareOn BlobEnd.tie)) ?_
  intro a ha b hb
  exact h.apart_eq hnum (mem_blobEnds.1 ha) (mem_blobEnds.1 hb)

/-- Keys in order, files of one key included. -/
def KeysRise (files : List BlobFileMeta) : Prop :=
  ∀ m ∈ files, (bytewiseCompare m.smallestKey m.largestKey).isLE = true

/-- Whatever a sort may leave, every file opens before it closes. -/
def OpensFirst (files : List BlobFileMeta) : Prop :=
  ∀ ends, Sorts blobEndsCmp (blobEnds files) ends → ∀ m ∈ files, Precedes (m, true) (m, false) ends

theorem KeysRise.opensFirst (h : KeysRise files) : OpensFirst files := by
  intro ends hends m hm
  exact hends.precedes (mem_blobEnds.2 hm) (mem_blobEnds.2 hm) (by simp) (blobEndsCmp_own (h m hm))

theorem strictWeakOn_blobEndsCmp_iff : StrictWeakOn blobEndsCmp (blobEnds files) ↔ files = [] := by
  constructor
  · intro h
    cases files with
    | nil => rfl
    | cons m rest =>
      have hself := h.irrefl (m, true) (mem_blobEnds.2 mem_cons_self)
      rw [blobEndsCmp_self] at hself
      cases hself
  · rintro rfl
    exact ⟨nofun, nofun, nofun⟩

/-- `blob_ends_cmp` is a strict weak order that opens files before it
closes them only where there is nothing to sort: it puts a smallest end
before itself. Between different ends it is one exactly if no file of
one key shares that key with another file. -/
theorem blobEndsCmp_valid_iff (hnum : Distinct files) (hkeys : KeysRise files) :
    (StrictWeakOn blobEndsCmp (blobEnds files) ∧ OpensFirst files ↔ files = [])
    ∧ (StrictWeakOn (apart blobEndsCmp) (blobEnds files) ∧ OpensFirst files ↔ Unshared files) := by
  constructor
  · rw [strictWeakOn_blobEndsCmp_iff]
    exact and_iff_left hkeys.opensFirst
  · rw [strictWeakOn_apart_iff hnum]
    exact and_iff_left hkeys.opensFirst

end Order

/-- The files 1 to 3 and 3 to 7 touch, and neither has one key. -/
theorem blobEndsCmp_touching :
    StrictWeakOn (apart blobEndsCmp) (blobEnds [keyedFile 1 1 3, keyedFile 2 3 7])
      ∧ OpensFirst [keyedFile 1 1 3, keyedFile 2 3 7] := by
  have hnum : Distinct [keyedFile 1 1 3, keyedFile 2 3 7] := by
    unfold Distinct
    decide
  have hkeys : KeysRise [keyedFile 1 1 3, keyedFile 2 3 7] := by
    unfold KeysRise
    decide +kernel
  refine (blobEndsCmp_valid_iff hnum hkeys).2.2 ?_
  unfold Unshared
  decide +kernel

/-- Two files of the same one key: the beginning of the first stands
before itself, and the four ends stand before one another in a circle. -/
theorem blobEndsCmp_circle :
    let f := keyedFile 1 5 5
    let g := keyedFile 2 5 5
    Distinct [f, g] ∧ KeysRise [f, g] ∧ ¬ StrictWeakOn blobEndsCmp (blobEnds [f, g])
      ∧ blobEndsCmp (f, true) (f, true) = true ∧ blobEndsCmp (f, true) (f, false) = true
      ∧ blobEndsCmp (f, false) (g, true) = true ∧ blobEndsCmp (g, true) (g, false) = true
      ∧ blobEndsCmp (g, false) (f, true) = true := by
  refine ⟨by unfold Distinct; decide, by unfold KeysRise; decide +kernel, ?_, by decide +kernel⟩
  intro h
  have hself := h.irrefl (keyedFile 1 5 5, true) (by decide +kernel)
  revert hself
  decide +kernel

-- ==== the sweep

/-- How many files are opened, and closed, along some ends. -/
def opens (ends : List BlobEnd) : Nat := ends.countP (·.2)

def closes (ends : List BlobEnd) : Nat := ends.countP (!·.2)

/-- `tmp` after some ends. -/
def startedAfter : Int → Map UInt64 Int → List BlobEnd → Map UInt64 Int
  | _, started, [] => started
  | removed, started, (m, true) :: ends =>
    startedAfter removed (started.insert m.fileNumber removed) ends
  | removed, started, (_, false) :: ends =>
    startedAfter (removed + 1) started ends

theorem startedAfter_append (removed : Int) (started : Map UInt64 Int) :
    startedAfter removed started (p ++ q)
      = startedAfter (removed + closes p) (startedAfter removed started p) q := by
  induction p generalizing removed started with
  | nil => simp [startedAfter, closes]
  | cons e p ih =>
    obtain ⟨m, smallest⟩ := e
    cases smallest with
    | true => simp [startedAfter, ih, closes]
    | false =>
      simp only [cons_append, startedAfter, ih, closes, countP_cons]
      congr 1
      simp
      omega

/-- Other files do not touch the entry of a file. -/
theorem lookup_startedAfter_of_closed
    (h : ∀ e ∈ ends, e.2 = true → e.1.fileNumber ≠ n) (removed : Int) (started : Map UInt64 Int) :
    (startedAfter removed started ends).lookup n = started.lookup n := by
  induction ends generalizing removed started with
  | nil => rfl
  | cons e ends ih =>
    obtain ⟨m, smallest⟩ := e
    have hrest := ih fun e he => h e (mem_cons_of_mem _ he)
    cases smallest with
    | true =>
      have hm : m.fileNumber ≠ n := h _ mem_cons_self rfl
      rw [startedAfter, hrest, lookup_insert, if_neg hm.symm]
    | false => rw [startedAfter, hrest]

/-- The entry of a file is the number of files closed when it opened. -/
theorem lookup_startedAfter (h : ∀ e ∈ q, e.2 = true → e.1.fileNumber ≠ m.fileNumber) :
    (startedAfter 0 empty (p ++ (m, true) :: q)).lookup m.fileNumber = some (closes p : Int) := by
  rw [startedAfter_append, startedAfter, lookup_startedAfter_of_closed h,
    lookup_insert, if_pos rfl, Int.zero_add]

/-- The states a file is marked from. -/
def FileState.Unmarked (f : FileState) : Prop :=
  f ≠ .kObsolete ∧ f ≠ .kToMerge ∧ f ≠ .kToGC

instance : DecidablePred FileState.Unmarked := fun f => by
  unfold FileState.Unmarked
  infer_instance

/-- What the sweep does where a file closes. -/
theorem mem_sweepEnds_close (curAdd curRemove : Int)
    (started : Map UInt64 Int) (m : BlobFileMeta) (ends : List BlobEnd) :
    n ∈ sweepEnds maxSortedRuns curAdd curRemove started ((m, false) :: ends)
      ↔ (m.fileNumber = n ∧ m.state.Unmarked
          ∧ ∃ removed, started.lookup n = some removed ∧ curAdd - removed > maxSortedRuns)
        ∨ n ∈ sweepEnds maxSortedRuns curAdd (curRemove + 1) started ends := by
  rw [sweepEnds]
  cases hl : started.lookup m.fileNumber with
  | none =>
    refine (or_iff_right ?_).symm
    rintro ⟨rfl, -, removed, hr, -⟩
    rw [hl] at hr
    cases hr
  | some removed =>
    have hentry : (m.fileNumber = n ∧ m.state.Unmarked
          ∧ ∃ r, started.lookup n = some r ∧ curAdd - r > maxSortedRuns)
        ↔ n = m.fileNumber ∧ curAdd - removed > maxSortedRuns ∧ m.state.Unmarked := by
      constructor
      · rintro ⟨rfl, hstate, r, hr, hmax⟩
        rw [hl] at hr
        cases hr
        exact ⟨rfl, hmax, hstate⟩
      · rintro ⟨rfl, hmax, hstate⟩
        exact ⟨rfl, hstate, removed, hl, hmax⟩
    rw [hentry]
    simp only [FileState.Unmarked]
    split
    case isTrue h => simp_all
    case isFalse h =>
        refine (or_iff_right ?_).symm
        rintro ⟨-, hmax, hstate⟩
        simp_all

/-- What the sweep marks, each file at its own end. -/
theorem mem_sweepEnds (curAdd curRemove : Int) (started : Map UInt64 Int) (ends : List BlobEnd) :
    n ∈ sweepEnds maxSortedRuns curAdd curRemove started ends
      ↔ ∃ p e q, ends = p ++ e :: q ∧ e.2 = false ∧ e.1.fileNumber = n ∧ e.1.state.Unmarked
        ∧ ∃ removed, (startedAfter curRemove started p).lookup n = some removed
          ∧ curAdd + opens p - removed > maxSortedRuns := by
  induction ends generalizing curAdd curRemove started with
  | nil => simp [sweepEnds]
  | cons e ends ih =>
    rw [exists_place_cons]
    obtain ⟨m, smallest⟩ := e
    cases smallest with
    | true =>
      have hopens : ∀ p : List BlobEnd, curAdd + 1 + (opens p : Int)
          = curAdd + (opens ((m, true) :: p) : Int) := by
        intro p
        simp [opens]
        omega
      rw [sweepEnds, ih]
      simp only [hopens, startedAfter]
      simp
    | false =>
      have hopens : ∀ p : List BlobEnd, opens ((m, false) :: p) = opens p := by
        intro p
        simp [opens]
      rw [mem_sweepEnds_close, ih]
      simp only [hopens, startedAfter]
      simp [opens]

-- ==== counting overlaps

section Overlaps

variable {files : List BlobFileMeta}

/-- The files of the list that share more than an end with `f`. -/
def overlaps (files : List BlobFileMeta) (f : BlobFileMeta) : Nat :=
  files.countP fun g => (bytewiseCompare g.smallestKey f.largestKey).isLT
    && (bytewiseCompare f.smallestKey g.largestKey).isLT

/-- No file has one key only. -/
def KeysRiseStrictly (files : List BlobFileMeta) : Prop :=
  ∀ m ∈ files, bytewiseCompare m.smallestKey m.largestKey = .lt

theorem KeysRiseStrictly.keysRise (h : KeysRiseStrictly files) :
    KeysRise files := fun m hm => by rw [h m hm]; rfl

theorem nodup_blobEnds (h : Distinct files) : (blobEnds files).Nodup := by
  refine nodup_flatMap.2 ⟨fun m _ => by simp, ?_⟩
  have hne : files.Nodup := List.Nodup.of_map _ h
  refine hne.imp ?_
  intro a b hab e ha hb
  have hea : e.1 = a := by
    rcases mem_pair.1 ha with rfl | rfl <;> rfl
  have heb : e.1 = b := by
    rcases mem_pair.1 hb with rfl | rfl <;> rfl
  exact hab (hea.symm.trans heb)

theorem countP_blobEnds (Q : BlobEnd → Bool) :
    (blobEnds files).countP Q
      = files.countP (fun m => Q (m, true)) + files.countP (fun m => Q (m, false)) := by
  induction files with
  | nil => rfl
  | cons m files ih =>
    have hcons : blobEnds (m :: files) = (m, true) :: (m, false) :: blobEnds files := rfl
    rw [hcons]
    simp only [countP_cons, ih]
    omega

theorem isLE_eq_not_isLT (a b : UserKey) :
    (bytewiseCompare a b).isLE = !(bytewiseCompare b a).isLT := by
  have hswap : bytewiseCompare b a = (bytewiseCompare a b).swap := Std.OrientedCmp.eq_swap
  rw [hswap]
  cases bytewiseCompare a b <;> rfl

/-- What a sort leaves around an end of a file. -/
theorem Sorts.around (hsort : Sorts blobEndsCmp (blobEnds files) (p ++ e :: q)) :
    (∀ x ∈ p, x.1 ∈ files ∧ blobEndsCmp e x = false)
      ∧ ∀ x ∈ q, x.1 ∈ files ∧ blobEndsCmp x e = false := by
  obtain ⟨hperm, hpair⟩ := hsort
  have hfile : ∀ x ∈ p ++ e :: q, x.1 ∈ files := fun x hx =>
    mem_blobEnds.1 (hperm.mem_iff.1 hx)
  obtain ⟨-, hback, hfront⟩ := pairwise_append.1 hpair
  refine ⟨fun x hx => ⟨hfile x (by simp [hx]), ?_⟩, fun x hx => ⟨hfile x (by simp [hx]), ?_⟩⟩
  · exact hfront x hx e mem_cons_self
  · exact (pairwise_cons.1 hback).1 x hx

section Kinds

variable (hnum : Distinct files) (hkeys : KeysRiseStrictly files) (hf : f ∈ files) (hg : g ∈ files)

include hnum hkeys hf hg

theorem blobEndsCmp_opened :
    blobEndsCmp (f, true) (g, false) = (bytewiseCompare f.smallestKey g.largestKey).isLT := by
  by_cases hsame : f.fileNumber = g.fileNumber
  · obtain rfl := hnum.eq hf hg hsame
    rw [blobEndsCmp_own (hkeys.keysRise f hf), hkeys f hf]
    rfl
  · exact blobEndsCmp_open_close hsame

theorem blobEndsCmp_closed :
    blobEndsCmp (f, false) (g, true) = (bytewiseCompare f.largestKey g.smallestKey).isLE := by
  by_cases hsame : f.fileNumber = g.fileNumber
  · obtain rfl := hnum.eq hf hg hsame
    have hgt : bytewiseCompare f.largestKey f.smallestKey = .gt :=
      Std.OrientedCmp.gt_of_lt (hkeys f hf)
    simp [blobEndsCmp, BlobEnd.key, hgt]
  · exact blobEndsCmp_close_open hsame

/-- Of a beginning and an end exactly one comes first. -/
theorem blobEndsCmp_kinds (smallest : Bool) :
    blobEndsCmp (f, !smallest) (g, smallest) = !blobEndsCmp (g, smallest) (f, !smallest) := by
  cases smallest with
  | false =>
    show blobEndsCmp (f, true) (g, false) = !blobEndsCmp (g, false) (f, true)
    rw [blobEndsCmp_opened hnum hkeys hf hg,
      blobEndsCmp_closed hnum hkeys hg hf, isLE_eq_not_isLT, Bool.not_not]
  | true =>
    show blobEndsCmp (f, false) (g, true) = !blobEndsCmp (g, true) (f, false)
    rw [blobEndsCmp_closed hnum hkeys hf hg, blobEndsCmp_opened hnum hkeys hg hf, isLE_eq_not_isLT]

end Kinds

variable (hnum : Distinct files)
include hnum

variable (hkeys : KeysRiseStrictly files)
include hkeys

/-- The ends of the other kind that a sort leaves before an end. -/
theorem countP_before (hm : m ∈ files) {smallest : Bool}
    (hsort : Sorts blobEndsCmp (blobEnds files) (p ++ (m, smallest) :: q)) :
    p.countP (·.2 != smallest)
      = files.countP fun g => blobEndsCmp (g, !smallest) (m, smallest) := by
  obtain ⟨hfront, hback⟩ := Sorts.around hsort
  have hcount : p.countP (·.2 != smallest) = (p ++ (m, smallest) :: q).countP fun e =>
        e.2 != smallest && blobEndsCmp e (m, smallest) := by
    refine countP_front _ _ ?_ ?_
    · rintro ⟨g, kind⟩ hg
      obtain ⟨hgf, hcmp⟩ := hfront _ hg
      by_cases hkind : kind = smallest
      · simp [hkind]
      · obtain rfl : kind = !smallest := Bool.eq_not_of_ne hkind
        rw [blobEndsCmp_kinds hnum hkeys hgf hm, hcmp]
        simp
    · rintro ⟨g, kind⟩ hg
      rcases mem_cons.1 hg with heq | hg
      · cases heq
        simp
      · rw [(hback _ hg).2, Bool.and_false]
  rw [hcount, hsort.1.countP_eq, countP_blobEnds]
  cases smallest <;> simp

/-- The files opened when a file closes are those that begin below its
end. -/
theorem opens_before (hm : m ∈ files)
    (hsort : Sorts blobEndsCmp (blobEnds files) (p ++ (m, false) :: q)) :
    opens p = files.countP fun g => (bytewiseCompare g.smallestKey m.largestKey).isLT := by
  have hcount := countP_before hnum hkeys hm hsort
  simp only [Bool.bne_false, Bool.not_false] at hcount
  exact hcount.trans (countP_congr fun g hg => by
    rw [blobEndsCmp_opened hnum hkeys hg hm])

/-- The files closed when a file opens are those that end where it
begins or below. -/
theorem closes_before (hm : m ∈ files)
    (hsort : Sorts blobEndsCmp (blobEnds files) (p ++ (m, true) :: q)) :
    closes p = files.countP fun g => (bytewiseCompare g.largestKey m.smallestKey).isLE := by
  have hcount := countP_before hnum hkeys hm hsort
  simp only [Bool.bne_true, Bool.not_true] at hcount
  exact hcount.trans (countP_congr fun g hg => by
    rw [blobEndsCmp_closed hnum hkeys hg hm])

omit hnum in
/-- Of the files that begin below the end of `m`, those that do not end
below its beginning overlap it. -/
theorem overlaps_add (hm : bytewiseCompare m.smallestKey m.largestKey = .lt) :
    overlaps files m + files.countP (fun g => (bytewiseCompare g.largestKey m.smallestKey).isLE)
      = files.countP fun g => (bytewiseCompare g.smallestKey m.largestKey).isLT := by
  unfold overlaps
  induction files with
  | nil => rfl
  | cons g files ih =>
    have hbelow : (bytewiseCompare g.largestKey m.smallestKey).isLE = true →
        (bytewiseCompare g.smallestKey m.largestKey).isLT = true := by
      intro hle
      have hg := Std.TransCmp.lt_of_lt_of_isLE (hkeys g mem_cons_self) hle
      rw [Std.TransCmp.lt_trans hg hm]
      rfl
    have hrest := ih fun g hg => hkeys g (mem_cons_of_mem _ hg)
    rw [isLE_eq_not_isLT] at hbelow
    simp only [isLE_eq_not_isLT g.largestKey m.smallestKey, countP_cons] at hrest ⊢
    cases hC : (bytewiseCompare m.smallestKey g.largestKey).isLT <;> simp_all <;> omega

/-- The two counters at the end of a file. -/
theorem sweep_at (hm : m ∈ files) (hsort : Sorts blobEndsCmp (blobEnds files) ends) :
    ∃ p q, ends = p ++ (m, false) :: q
      ∧ ∃ removed : Int, (startedAfter 0 empty p).lookup m.fileNumber = some removed
        ∧ (opens p : Int) - removed = overlaps files m := by
  obtain ⟨p₁, p₂, q, rfl⟩ := hkeys.keysRise.opensFirst ends hsort m hm
  have happ : p₁ ++ (m, true) :: (p₂ ++ (m, false) :: q)
      = (p₁ ++ (m, true) :: p₂) ++ (m, false) :: q := by simp
  refine ⟨p₁ ++ (m, true) :: p₂, q, happ, closes p₁, ?_, ?_⟩
  · refine lookup_startedAfter fun e he hopen hsame => ?_
    -- `m` is not opened twice
    have hnodup := hsort.1.nodup_iff.2 (nodup_blobEnds hnum)
    have hnot := (nodup_append.1 hnodup).2.1
    have hef : e.1 ∈ files := mem_blobEnds.1 (hsort.1.mem_iff.1 (by simp [he]))
    have hem : e = (m, true) := Prod.ext (hnum.eq hef hm hsame) hopen
    rw [hem] at he
    exact (nodup_cons.1 hnot).1 (mem_append_left _ he)
  · have hcloses := closes_before hnum hkeys hm hsort
    rw [happ] at hsort
    have hopens := opens_before hnum hkeys hm hsort
    have hadd := overlaps_add hkeys (hkeys m hm)
    omega

/-- The sweep marks a file by the number of files it overlaps. -/
theorem mem_sweepEnds_iff (hsort : Sorts blobEndsCmp (blobEnds files) ends) :
    n ∈ sweepEnds maxSortedRuns 0 0 empty ends
      ↔ ∃ m ∈ files, m.fileNumber = n ∧ m.state.Unmarked ∧ maxSortedRuns < overlaps files m := by
  rw [mem_sweepEnds]
  have hnodup := hsort.1.nodup_iff.2 (nodup_blobEnds hnum)
  constructor
  · rintro ⟨p, ⟨m, _⟩, q, hends, rfl, rfl, hstate, r, hr, hmax⟩
    have hin : (m, false) ∈ ends := by
      rw [hends]
      simp
    have hm : m ∈ files := mem_blobEnds.1 (hsort.1.mem_iff.1 hin)
    obtain ⟨p', q', hends', r', hr', hover⟩ := sweep_at hnum hkeys hm hsort
    -- the end of `m` is at one place
    obtain rfl : p = p' := by
      rw [hends] at hnodup hends'
      exact place_unique hnodup hends'
    rw [hr'] at hr
    cases hr
    exact ⟨m, hm, rfl, hstate, by omega⟩
  · rintro ⟨m, hm, rfl, hstate, hmax⟩
    obtain ⟨p, q, hends, r, hr, hover⟩ := sweep_at hnum hkeys hm hsort
    exact ⟨p, (m, false), q, hends, rfl, rfl, hstate, r, hr, by omega⟩

end Overlaps

-- ==== marking the files

namespace FileState

/-- What the event does to a file the sweep marks. -/
theorem Unmarked.next_kNeedMerge {f : FileState} (h : f.Unmarked) :
    f.next .kNeedMerge = .kToMerge := by
  simp [next, h.1, h.2.2]

theorem next_kNeedMerge_twice (f : FileState) :
    (f.next .kNeedMerge).next .kNeedMerge = f.next .kNeedMerge := by
  cases f <;> rfl

end FileState

namespace BlobStorage

/-- A list of marks, whether or not a file is marked more than once. -/
theorem findFile_foldl_kNeedMerge (ns : List UInt64) (s : BlobStorage) (n : UInt64) :
    (ns.foldl (fun s k => s.transit k .kNeedMerge) s).findFile n
      = if n ∈ ns then (s.findFile n).map (·.fileStateTransit .kNeedMerge) else s.findFile n := by
  induction ns generalizing s with
  | nil => simp
  | cons k ns ih =>
    rw [foldl_cons, ih, findFile_transit]
    by_cases hn : n = k
    · have htwice : ((s.findFile n).map (·.fileStateTransit .kNeedMerge)).map
          (·.fileStateTransit .kNeedMerge)
          = (s.findFile n).map (·.fileStateTransit .kNeedMerge) := by
        rw [Option.map_map]
        congr 1
        funext m
        simp [BlobFileMeta.fileStateTransit, FileState.next_kNeedMerge_twice]
      rw [if_pos hn, htwice, ite_self, if_pos (by simp [hn])]
    · simp [hn]

variable {s : BlobStorage} {files : List UInt64}

/-- The files of a list that are there. -/
def found (s : BlobStorage) (files : List UInt64) : List BlobFileMeta :=
  files.filterMap s.findFile

theorem mem_found :
    m ∈ s.found files ↔ m.fileNumber ∈ files ∧ s.findFile m.fileNumber = some m := by
  unfold found
  rw [mem_filterMap]
  constructor
  · rintro ⟨n, hn, hfind⟩
    obtain rfl : m.fileNumber = n := key_of_find hfind
    exact ⟨hn, hfind⟩
  · rintro ⟨hn, hfind⟩
    exact ⟨_, hn, hfind⟩

theorem distinct_found (h : files.Nodup) : Distinct (s.found files) := by
  unfold Distinct found
  rw [map_filterMap]
  refine h.filterMap ?_
  intro a b n ha hb
  obtain ⟨m, hm, rfl⟩ := Option.map_eq_some_iff.1 ha
  obtain ⟨m', hm', hn⟩ := Option.map_eq_some_iff.1 hb
  have hka : m.fileNumber = a := key_of_find hm
  have hkb : m'.fileNumber = b := key_of_find hm'
  rw [← hka, ← hkb, hn]

end BlobStorage

/-- The files 1 to 5 and 3 to 7 overlap, and 7 to 9 touches the second. -/
def threeKeyed : BlobStorage :=
  ((({ dbOptions := {}, cfOptions := {} } : BlobStorage).addBlobFile
    (keyedFile 1 1 5)).addBlobFile (keyedFile 2 3 7)).addBlobFile
    (keyedFile 3 7 9)

/-- Their ends in order. -/
def threeKeyedEnds : List BlobEnd :=
  [(keyedFile 1 1 5, true), (keyedFile 2 3 7, true), (keyedFile 1 1 5, false),
    (keyedFile 2 3 7, false), (keyedFile 3 7 9, true),
    (keyedFile 3 7 9, false)]

end DiffKV
