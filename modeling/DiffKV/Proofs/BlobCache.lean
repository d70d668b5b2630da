/-
The blob cache is transparent. Under its own prefix a file finds what a
cache of its own would hold, so a read with the shared cache is a read
with that cache, and leaves the views of the other files as they were.
-/
import DiffKV.BlobCache
import DiffKV.Proofs.BlobFileBytes

namespace DiffKV

open Lib List BlobFileBuilder BlobFileReader

variable {K : Codec} {ι : Type} {files : ι → FinishedFile}
  {cache : SharedCache} {i : ι} {h : BlobHandle}

namespace FinishedFile

variable (K) (f : FinishedFile)

/-- The cache as the file sees it. -/
def view (cache : SharedCache) : BlobCache :=
  fun offset => cache (f.cacheKey K offset)

/-- The records under their handles. -/
def placed : List (BlobHandle × BlobRecord) := (f.handles K).zip f.records

variable {K f}

theorem cacheKey_inj {o o' : UInt64} : f.cacheKey K o = f.cacheKey K o' ↔ o = o' := by
  refine ⟨fun heq => ?_, congrArg _⟩
  have hput := append_cancel_left heq
  have hget := K.coding.get_put64 o []
  rw [hput, K.coding.get_put64] at hget
  cases hget
  rfl

/-- With the shared cache a file is read as with its view of it. -/
theorem getShared_eq (cache : SharedCache) (h : BlobHandle) :
    let shared := getShared K (f.file K) f.onlyValue
      (f.cachePrefix K) cache h
    (shared.1, some (f.view K shared.2)) = get K (f.file K)
      f.onlyValue (some (f.view K cache)) h := by
  intro shared
  unfold shared BlobFileReader.getShared BlobFileReader.get
  have hview : f.view K cache h.offset = cache
    (encodeBlobCache K.coding (f.cachePrefix K) h.offset) := rfl
  dsimp only
  rw [Option.bind_some, hview]
  cases cache (encodeBlobCache K.coding (f.cachePrefix K) h.offset) with
  | some blob => rfl
  | none =>
    cases readRecord K (f.file K) f.onlyValue h with
    | error s => rfl
    | ok p =>
      refine congrArg (fun v => (Except.ok p.1, some v)) (funext fun o => ?_)
      exact if_congr cacheKey_inj rfl rfl

theorem placed_file : ∀ p ∈ f.placed K, Placed K f.type f.onlyValue (f.file K) p.1 p.2 :=
  fun _ hp => (addAll_placed K f.type f.onlyValue hp).append _

theorem exists_placed (hmem : h ∈ f.handles K) : ∃ r, (h, r) ∈ f.placed K := by
  have hlen : (f.handles K).length = f.records.length := addAll_length K f.type f.onlyValue _ _
  rw [← map_fst_zip (Nat.le_of_eq hlen)] at hmem
  obtain ⟨p, hp, rfl⟩ := mem_map.1 hmem
  exact ⟨p.2, hp⟩

end FinishedFile

/-- Each file finds only plain bytes of its own records. -/
def Transparent (K : Codec) (files : ι → FinishedFile) (cache : SharedCache) :
    Prop :=
  ∀ i, Filled K (files i).onlyValue ((files i).placed K) (some ((files i).view K cache))

section

variable (hkeys : ∀ i j o o', (files i).cacheKey K o = (files j).cacheKey K o' → i = j)
  (hsizes : ∀ i, ∀ r ∈ (files i).records, (r.encodeTo K.coding (files i).onlyValue).length < 2 ^ 32)
  (hfits : ∀ i, ((files i).file K).length < 2 ^ 64)
include hkeys hsizes hfits

/-- One call, with the cache as the calls before have left it. -/
theorem Transparent.getShared (hcache : Transparent K files cache)
    (hmem : h ∈ (files i).handles K) :
    let shared := BlobFileReader.getShared K ((files i).file K)
      (files i).onlyValue ((files i).cachePrefix K) cache h
    shared.1 = (files i).getUncached K h ∧ Transparent K files shared.2 := by
  intro shared
  obtain ⟨r, hr⟩ := (files i).exists_placed hmem
  have hread {c : Option BlobCache} (hc : Filled K (files i).onlyValue ((files i).placed K) c) :=
    get_placed (hfits i) (files i).placed_file (fun p hp => hsizes i p.2 (of_mem_zip hp).2) hc hr
  have hview := (files i).getShared_eq (K := K) cache h
  obtain ⟨hresult, hfilled⟩ := hread (hcache i)
  rw [← hview] at hresult hfilled
  refine ⟨hresult.trans (hread (c := none) trivial).1.symm, fun j => ?_⟩
  by_cases hij : j = i
  · exact hij ▸ hfilled
  · have hother : (files j).view K shared.2 = (files j).view K cache := by
      funext o
      simp only [shared, BlobFileReader.getShared, FinishedFile.view]
      split
      · rfl
      · split
        · rfl
        · exact if_neg fun hkey => hij (hkeys j i o h.offset hkey)
    rw [hother]
    exact hcache j

end

/-- However the files' entries come and go, a read returns what it returns
without the cache. -/
theorem blobCache_transparent (K : Codec) (files : ι → FinishedFile)
    (hkeys : ∀ i j o o', (files i).cacheKey K o = (files j).cacheKey K o' → i = j)
    (hsizes : ∀ i, ∀ r ∈ (files i).records,
      (r.encodeTo K.coding (files i).onlyValue).length < 2 ^ 32)
    (hfits : ∀ i, ((files i).file K).length < 2 ^ 64) (calls : List (CachedGet ι))
    (hcalls : ∀ c ∈ calls, c.handle ∈ (files c.file).handles K) :
    serve K files (fun _ => none) calls
      = calls.map fun c => (files c.file).getUncached K c.handle := by
  have hrun : ∀ cache, Transparent K files cache → serve K files cache calls
      = calls.map fun c => (files c.file).getUncached K c.handle := by
    induction calls with
    | nil => exact fun _ _ => rfl
    | cons c calls ih =>
      intro cache hcache
      obtain ⟨hc, hrest⟩ := forall_mem_cons.1 hcalls
      have hdropped : Transparent K files fun key => if c.dropped key then none else cache key := by
        intro i offset blob hblob
        obtain ⟨-, hblob⟩ := Option.ite_none_left_eq_some.1 hblob
        exact hcache i offset blob hblob
      obtain ⟨hget, hafter⟩ := hdropped.getShared hkeys hsizes hfits hc
      rw [map_cons, ← hget, ← ih hrest _ hafter]
      rfl
  exact hrun _ fun _ _ _ hblob => nomatch hblob

/-- A file of one value. -/
def valueFile (value : Bytes) : FinishedFile where
  uniqueId := [1]
  type := .kNoCompression
  onlyValue := true
  records := [{ key := UserKey.empty, value }]

/-- A file of one value, and one of two records. -/
def twoFiles : Bool → FinishedFile
  | false => valueFile [0, 1, 7]
  | true => {
      uniqueId := [2]
      type := .kSnappyCompression
      onlyValue := false
      records := twoRecords }

/-- A read of either file, and both again when the first has been dropped
from the cache. -/
def fourGets : List (CachedGet Bool) :=
  [{ file := false, handle := ⟨8, 12⟩ }, { file := true, handle := ⟨23, 13⟩ },
    { dropped := (·.head? == some 1), file := false, handle := ⟨8, 12⟩ },
    { file := true, handle := ⟨23, 13⟩ }]

theorem fourGets_transparent :
    serve trailingZeros twoFiles (fun _ => none) fourGets
      = fourGets.map fun c => (twoFiles c.file).getUncached trailingZeros c.handle := by
  refine blobCache_transparent trailingZeros twoFiles ?_ (by decide +kernel)
    (by decide +kernel) fourGets (by decide +kernel)
  intro i j o o' hkey
  cases i <;> cases j <;> first | rfl | cases hkey

/-- A value of 2^32 bytes has 0 in the size field of its header: a read
returns no bytes of it, and leaves all of them in the cache. -/
theorem hugeValue_returns :
    ∃ value : Bytes, value ≠ [] ∧ ∃ h, (valueFile value).handles trailingZeros = [h]
      ∧ ((valueFile value).file trailingZeros).length < 2 ^ 64
      ∧ serve trailingZeros (fun _ : Unit => valueFile value) (fun _ => none)
          [{ file := (), handle := h }, { file := (), handle := h }]
        = [.ok { key := UserKey.empty, value := [] }, .ok { key := UserKey.empty, value }] := by
  obtain ⟨value, hvalue⟩ : ∃ value : Bytes, value.length = 2 ^ 32 :=
    ⟨replicate (2 ^ 32) 0, length_replicate⟩
  have hne : value ≠ [] := ne_nil_of_length_pos (by rw [hvalue]; decide)
  let r : BlobRecord := { key := UserKey.empty, value }
  let h := (add trailingZeros .kNoCompression true
    create r).1
  have hfits : ((valueFile value).file trailingZeros).length < 2 ^ 64 := by
    have hlen : ((valueFile value).file trailingZeros).length = 8 + (9 + value.length) + 32 := by
      show ((create ++ (_ ++ value)) ++ _).length = _
      simp only [length_append]
      rfl
    rw [hlen, hvalue]
    decide
  have hread : readRecord trailingZeros ((valueFile value).file trailingZeros) true h
      = .ok ({ key := UserKey.empty, value := [] }, value) := by
    have hsize : (trailingZeros.headerOf .kNoCompression true r).recordSize.toNat = 0 := by
      show (UInt32.ofNat value.length).toNat = 0
      rw [hvalue]
      rfl
    have hp : Placed trailingZeros .kNoCompression true
      ((valueFile value).file trailingZeros) h r := (placed_add _ r).append _
    rw [hp.readRecord_decode hfits, Codec.decodeRecord, hsize]
    rfl
  refine ⟨value, hne, h, rfl, hfits, ?_⟩
  have hread' : readRecord trailingZeros
    ((valueFile value).file trailingZeros) (valueFile value).onlyValue h = _ := hread
  simp only [serve, getShared, hread']
  rfl

end DiffKV
