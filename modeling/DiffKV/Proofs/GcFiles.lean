/-
The states of blob files along every interleaving of the steps that
change them.

Every step comes down to three kinds of change of a storage (`Change`):
an edit that passed the checks, one event delivered to one file, and
changes that no state depends on. `fate` says which edits and which
events each step can make; what is proved about runs never looks at the
steps again. `Change.keeps` is the rule the invariants are proved by: a
set of states that the delivered events do not leave. `stateOf_step` is
the same rule for a whole step.
-/
import DiffKV.Proofs.RangeCharges
import DiffKV.Proofs.Retirement

namespace DiffKV

open Lib Relation List BlobFileSet BlobFileMeta Option SizeDiff ChargeState

variable {n : UInt64} {st : BlobStorage} {o' o : Option BlobStorage}
  {options : GcBatchOptions} {files : List BlobFileMeta}

-- ==== changes

namespace BlobStorage

/-- The state of the file `n`, if it is there. -/
def stateOf (st : BlobStorage) (n : UInt64) : Option FileState :=
  (st.findFile n).map (·.state)

/-- A change of a storage: an edit of the kind `P`, an event that `E`
allows, or one that leaves the states and the lists alone. -/
inductive Change (E : UInt64 → FileEvent → Prop) (P : VersionEdit → Prop)
    (st : BlobStorage) : BlobStorage → Prop
  | edit {st' : BlobStorage} (h : Applied P st st') : Change E P st st'
  | event {n : UInt64} {e : FileEvent} (h : E n e) : Change E P st (st.transit n e)
  | frame {st' : BlobStorage} (hstate : st'.stateOf = st.stateOf)
      (hobsolete : st'.obsoleteFiles = st.obsoleteFiles)
      (hdestroyed : st'.destroyed = st.destroyed) : Change E P st st'

/-- Changes one after the other. -/
abbrev Changes (E : UInt64 → FileEvent → Prop) (P : VersionEdit → Prop) :
    BlobStorage → BlobStorage → Prop :=
  ReflTransGen (Change E P)

variable {E E' : UInt64 → FileEvent → Prop} {P P' : VersionEdit → Prop}
  {st' st'' : BlobStorage} {e : VersionEdit} {S : FileState → Prop}
  {s : FileState}

theorem Change.mono (h : Change E P st st') (hE : ∀ n e, E n e → E' n e)
    (hP : ∀ e, P e → P' e) : Change E' P' st st' := by
  cases h with
  | edit h =>
    obtain ⟨e, he, hrest⟩ := h
    exact .edit ⟨e, hP e he, hrest⟩
  | event h => exact .event (hE _ _ h)
  | frame h1 h2 h3 => exact .frame h1 h2 h3

theorem Changes.mono (h : Changes E P st st') (hE : ∀ n e, E n e → E' n e)
    (hP : ∀ e, P e → P' e) : Changes E' P' st st' :=
  ReflTransGen.mono (fun _ _ h => Change.mono h hE hP) _ _ h

theorem Changes.of_edits (h : ReflTransGen (Applied P) st st') :
    Changes E P st st' := ReflTransGen.mono (fun _ _ h => Change.edit h) _ _ h

-- ---- states under a change

theorem stateOf_transit (st : BlobStorage) (n k : UInt64) (e : FileEvent) :
    (st.transit k e).stateOf n = if n = k then (st.stateOf n).map (·.next e) else st.stateOf n := by
  unfold stateOf
  rw [findFile_transit]
  split
  · cases st.findFile n <;> rfl
  · rfl

theorem stateOf_of_uncharged (h : (st'.findFile n).map uncharged = (st.findFile n).map uncharged) :
    st'.stateOf n = st.stateOf n := by
  have hstate : ∀ o : Option BlobFileMeta, o.map (·.state) = (o.map uncharged).map (·.state) := by
    intro o
    cases o <;> rfl
  unfold stateOf
  rw [hstate, h, ← hstate]

theorem obsolete_iff_stateOf : st.obsolete n = true ↔ st.stateOf n = some .kObsolete := by
  unfold obsolete stateOf isObsolete
  cases st.findFile n <;> simp

/-- A file keeps its state under an edit unless the edit deletes it. -/
theorem Edited.stateOf_old (h : st.Edited e st') (hs : st.stateOf n = some s) :
    (n ∈ e.deletedFiles.map Prod.fst ∧ st'.stateOf n = some .kObsolete)
      ∨ st'.stateOf n = some s := by
  rcases h.cases n with ⟨m, -, -, hnone, -⟩ | ⟨m, hd, -⟩ | ⟨-, heq⟩
  · unfold stateOf at hs
    rw [hnone] at hs
    cases hs
  · refine .inl ⟨?_, obsolete_iff_stateOf.1 (h.obsolete_of_deleted hd).2⟩
    obtain ⟨d, hmem, rfl⟩ := mem_map.1 hd
    exact mem_map_of_mem (mem_filter.1 hmem).1
  · exact .inr ((stateOf_of_uncharged heq).trans hs)

/-- A file that an edit brings in has the state the edit gives it. -/
theorem Edited.stateOf_new (h : st.Edited e st') (hn : st.stateOf n = none)
    (hs : st'.stateOf n = some s) : ∃ m ∈ e.addedFiles, m.fileNumber = n ∧ m.state = s := by
  rcases h.cases n with ⟨m, hm, hnum, -, hsome⟩ | ⟨m, -, hm, -⟩ | ⟨-, heq⟩
  · refine ⟨m, (mem_filter.1 hm).1, hnum, ?_⟩
    obtain ⟨m', hm', hstate⟩ := map_eq_some_iff.1 hsome
    have hstate := congrArg state hstate
    unfold stateOf at hs
    rw [hm', map_some, some.injEq] at hs
    rw [← hs]
    exact hstate.symm
  · unfold stateOf at hn
    rw [hm] at hn
    cases hn
  · rw [stateOf_of_uncharged heq, hn] at hs
    cases hs

/-- A file stays in a set of states that the events delivered to it do
not leave; and it is obsolete there, or no edit deletes it. -/
theorem Change.keeps (h : Change E P st st') (hevent : ∀ e, E n e → ∀ s, S s → S (s.next e))
    (hdelete : S .kObsolete ∨ ∀ e, P e → n ∉ e.deletedFiles.map Prod.fst)
    (hn : ∃ s, st.stateOf n = some s ∧ S s) : ∃ s, st'.stateOf n = some s ∧ S s := by
  obtain ⟨s, hs, hS⟩ := hn
  cases h with
  | edit h =>
    obtain ⟨e, he, -, hedited, -⟩ := h.edited
    rcases hedited.stateOf_old hs with ⟨hd, hs⟩ | hs
    · refine ⟨_, hs, ?_⟩
      rcases hdelete with hobs | hno
      · exact hobs
      · exact absurd hd (hno e he)
    · exact ⟨s, hs, hS⟩
  | @event k e h =>
    rw [stateOf_transit]
    split
    case isTrue hk =>
      subst hk
      rw [hs]
      exact ⟨_, rfl, hevent e h s hS⟩
    case isFalse => exact ⟨s, hs, hS⟩
  | frame hstate =>
    rw [hstate]
    exact ⟨s, hs, hS⟩

theorem Changes.keeps (h : Changes E P st st') (hevent : ∀ e, E n e → ∀ s, S s → S (s.next e))
    (hdelete : S .kObsolete ∨ ∀ e, P e → n ∉ e.deletedFiles.map Prod.fst)
    (hn : ∃ s, st.stateOf n = some s ∧ S s) : ∃ s, st'.stateOf n = some s ∧ S s := by
  induction h with
  | refl => exact hn
  | tail _ hlast ih => exact hlast.keeps hevent hdelete ih

/-- Only an edit brings in a file. -/
theorem Change.new (h : Change E P st st') (hn : st.stateOf n = none)
    (hs : st'.stateOf n = some s) :
    ∃ e, P e ∧ ∃ m ∈ e.addedFiles, m.fileNumber = n ∧ m.state = s := by
  cases h with
  | edit h =>
    obtain ⟨e, he, -, hedited, -⟩ := h.edited
    exact ⟨e, he, hedited.stateOf_new hn hs⟩
  | @event k e h =>
    rw [stateOf_transit, hn] at hs
    split at hs
    · cases hs
    · cases hs
  | frame hstate =>
    rw [hstate, hn] at hs
    cases hs

theorem Changes.new (h : Changes E P st st') (hn : st.stateOf n = none)
    (hs : st'.stateOf n ≠ none) : ∃ e, P e ∧ n ∈ e.addedFiles.map (·.fileNumber) := by
  induction h with
  | refl => exact absurd hn hs
  | @tail b c _ hlast ih =>
    by_cases hb : b.stateOf n = none
    · obtain ⟨s, hs⟩ := ne_none_iff_exists'.1 hs
      obtain ⟨e, he, m, hm, rfl, -⟩ := hlast.new hb hs
      exact ⟨e, he, mem_map_of_mem hm⟩
    · exact ih hb

/-- Without edits and events the states stay. -/
theorem Changes.stateOf_eq (h : Changes E P st st') (hE : ∀ n e, ¬ E n e)
    (hP : ∀ e, ¬ P e) : st'.stateOf = st.stateOf := by
  induction h with
  | refl => rfl
  | tail _ hlast ih =>
    cases hlast with
    | edit h =>
      obtain ⟨e, he, -⟩ := h
      exact absurd he (hP e)
    | event h => exact absurd h (hE _ _)
    | frame hstate => exact hstate.trans ih

/-- The obsolete lists are kept by edits and events that revive no
file. -/
theorem Listed.changes (h : st.Listed) (hchanges : Changes E P st st')
    (hevent : ∀ n e, E n e → FileState.next .kObsolete e = .kObsolete) : st'.Listed := by
  induction hchanges with
  | refl => exact h
  | @tail b c _ hlast ih =>
    cases hlast with
    | edit happlied => exact ih.applied happlied
    | @event k e hE =>
      refine ⟨ih.nodup, fun n hn => ?_⟩
      have hobs := ih.obsolete n hn
      rw [obsolete_iff_stateOf] at hobs ⊢
      rw [stateOf_transit, hobs]
      split
      · exact congrArg some (hevent k e hE)
      · rfl
    | frame hstate hobsolete =>
      refine ⟨hobsolete ▸ ih.nodup, fun n hn => ?_⟩
      rw [obsolete_iff_stateOf, hstate, ← obsolete_iff_stateOf]
      exact ih.obsolete n (hobsolete ▸ hn)

/-- No edit is needed to keep them if no event reaches an obsolete
file. -/
theorem Listed.events (h : st.Listed) (hchanges : Changes E (fun _ => False) st st')
    (hevent : ∀ n, st.obsolete n = true → ∀ e, ¬ E n e) : st'.Listed := by
  have hsame : st'.obsoleteFiles = st.obsoleteFiles := by
    induction hchanges with
    | refl => rfl
    | tail _ hlast ih =>
      cases hlast with
      | edit happlied =>
        obtain ⟨_, hfalse, -⟩ := happlied
        exact hfalse.elim
      | event => exact ih
      | frame _ hobsolete => exact hobsolete.trans ih
  refine ⟨hsame ▸ h.nodup, fun n hn => ?_⟩
  have hobs := h.obsolete n (hsame ▸ hn)
  obtain ⟨s, hs, rfl⟩ := hchanges.keeps (n := n) (S := (· = .kObsolete))
    (fun e hE => absurd hE (hevent n hobs e)) (.inl rfl) ⟨_, obsolete_iff_stateOf.1 hobs, rfl⟩
  exact obsolete_iff_stateOf.2 hs

-- ==== what the code delivers

/-- The state and the type of the file `n`, if it is there. -/
def kindOf (st : BlobStorage) (n : UInt64) : Option (FileState × UInt32) :=
  (st.findFile n).map fun m => (m.state, m.fileType)

/-- The file `n` is sorted, if it is there. -/
def SortedAt (st : BlobStorage) (n : UInt64) : Prop :=
  ∀ m, st.findFile n = some m → m.fileType = kSorted

/-- A change without an edit: an event that `E` allows, or one that
leaves the states, the types and the lists alone. -/
inductive Touch (E : UInt64 → FileEvent → Prop) (st : BlobStorage) : BlobStorage → Prop
  | event {n : UInt64} {e : FileEvent} (h : E n e) : Touch E st (st.transit n e)
  | frame {st' : BlobStorage} (hkind : st'.kindOf = st.kindOf)
      (hobsolete : st'.obsoleteFiles = st.obsoleteFiles)
      (hdestroyed : st'.destroyed = st.destroyed) : Touch E st st'

abbrev Touches (E : UInt64 → FileEvent → Prop) : BlobStorage → BlobStorage → Prop :=
  ReflTransGen (Touch E)

theorem Touches.changes (h : Touches E st st') : Changes E P st st' := by
  refine ReflTransGen.mono (fun st st' h => ?_) _ _ h
  cases h with
  | event h => exact .event h
  | frame hkind hobsolete hdestroyed =>
    refine .frame (funext fun n => ?_) hobsolete hdestroyed
    have hstate := congrArg (Option.map Prod.fst) (congrFun hkind n)
    unfold kindOf at hstate
    rwa [Option.map_map, Option.map_map] at hstate

/-- A touch makes no file sorted. -/
theorem Touches.sortedAt (h : Touches E st st') (hsorted : st'.SortedAt n) : st.SortedAt n := by
  induction h with
  | refl => exact hsorted
  | @tail b c _ hlast ih =>
    refine ih fun m hm => ?_
    cases hlast with
    | @event k e =>
      have hfind := findFile_transit b n k e
      by_cases hk : n = k
      · rw [if_pos hk, hm] at hfind
        exact hsorted (m.fileStateTransit e) hfind
      · rw [if_neg hk, hm] at hfind
        exact hsorted m hfind
    | frame hkind =>
      have hkind := congrFun hkind n
      unfold kindOf at hkind
      rw [hm] at hkind
      obtain ⟨m', hm', heq⟩ := map_eq_some_iff.1 hkind
      exact (Prod.mk.inj heq).2.symm.trans (hsorted m' hm')

theorem kindOf_charge (st : BlobStorage) (k amount : UInt64) :
    (st.charge k amount).kindOf = st.kindOf := by
  funext n
  unfold kindOf
  have hfind : (st.charge k amount).findFile n = if n = k then
      (st.findFile n).map (·.addDiscardableSize amount)
      else st.findFile n :=
    Table.find_modify st.files k (·.addDiscardableSize amount) (fun _ => rfl) n
  rw [hfind]
  split
  · cases st.findFile n <;> rfl
  · rfl

theorem touches_foldl_transit {event : FileEvent} (ns : List UInt64)
    (st : BlobStorage) (hE : ∀ n ∈ ns, E n event) :
    Touches E st (ns.foldl (fun st n => st.transit n event) st) := by
  induction ns generalizing st with
  | nil => exact .refl
  | cons k ns ih =>
    exact .head (.event (hE k mem_cons_self)) (ih _ fun n hn => hE n (mem_cons_of_mem _ hn))

/-- One file of a flush. -/
theorem touches_flushFile {acc : BlobStorage × UInt64} {f : UInt64 × UInt64}
    (hE : E f.1 .kFlushCompleted) : Touches E acc.1 (flushFile acc f).1 := by
  unfold flushFile
  cases acc.1.findFile f.1 with
  | none => exact .refl
  | some file =>
    let counted := { acc.1 with
      stats := acc.1.stats.sub .LIVE_BLOB_SIZE (acc.2 + file.flushDiscardable f.2) }
    have hcharge : Touch E acc.1 (counted.charge f.1 (file.flushDiscardable f.2)) :=
      .frame (kindOf_charge counted _ _) rfl rfl
    exact .tail (.single hcharge) (.event hE)

theorem touches_flushFiles (l : List (UInt64 × UInt64))
    (acc : BlobStorage × UInt64) (hE : ∀ f ∈ l, E f.1 .kFlushCompleted) :
    Touches E acc.1 (l.foldl flushFile acc).1 := by
  induction l generalizing acc with
  | nil => exact .refl
  | cons f l ih =>
    exact (touches_flushFile (hE f mem_cons_self)).trans
      (ih _ fun g hg => hE g (mem_cons_of_mem _ hg))

theorem touches_completeOutputs (st : BlobStorage) (outputs : List UInt64)
    (hE : ∀ n ∈ outputs, E n .kCompactionCompleted) :
    Touches E st (completeOutputs st outputs).2 := by
  induction outputs generalizing st with
  | nil => exact .refl
  | cons k outputs ih =>
    unfold completeOutputs
    cases st.findFile k with
    | none => exact .refl
    | some file =>
      exact .head (.event (hE k mem_cons_self)) (ih _ fun n hn => hE n (mem_cons_of_mem _ hn))

/-- `AddDiscardableSize` and the counters. -/
theorem touches_chargeFile (a : ChargeState) (m : BlobFileMeta) (amount : UInt64) :
    Touches E a.storage (a.chargeFile m amount).storage := by
  unfold chargeFile
  dsimp only
  split
  · exact .single (.frame (kindOf_charge a.storage _ _) rfl rfl)
  · exact .single (.frame (kindOf_charge a.storage _ _) rfl rfl)

/-- The loop over the size differences of a compaction. -/
theorem touches_storage {a b : ChargeState} (h : ReflTransGen ChargeState.Touch a b)
    (hE : ∀ n, a.storage.SortedAt n → E n .kNeedGC) :
    Touches E a.storage b.storage ∧ ∀ n ∈ b.files, n ∈ a.files ∨ a.storage.SortedAt n := by
  induction h with
  | refl => exact ⟨.refl, fun _ => .inl⟩
  | tail _ hlast ih =>
    obtain ⟨htouches, hfiles⟩ := ih
    cases hlast with
    | charge m amount =>
      exact ⟨htouches.trans (touches_chargeFile _ m amount), hfiles⟩
    | mark hsorted =>
      exact ⟨htouches.tail (.event (hE _ (htouches.sortedAt hsorted))), hfiles⟩
    | @count k hsorted =>
      refine ⟨htouches, fun n hn => ?_⟩
      rcases mem_append.1 hn with hn | hn
      · exact hfiles n hn
      · rw [mem_singleton.1 hn]
        exact .inr (htouches.sortedAt hsorted)
    | delete => exact ⟨htouches, hfiles⟩

theorem touches_chargeStorage (env : CompactionEnv) (info : CompactionJobInfo)
    (diff : Map UInt64 Int64) (st : BlobStorage) (hE : ∀ n, st.SortedAt n → E n .kNeedGC) :
    Touches E st (chargeStorage env info diff st).storage
      ∧ ∀ n ∈ (chargeStorage env info diff st).files, st.SortedAt n := by
  unfold chargeStorage
  generalize (st.cfOptions.levelMerge && env.rangeMerge.rangeMerge
    && decide ((st.cfOptions.numLevels : Int) - 2 ≤ info.outputLevel)) = countSortedRun
  obtain ⟨htouches, hfiles⟩ := touches_storage (touches_steps
    env.latest countSortedRun { storage := st } diff.entries) hE
  refine ⟨htouches.tail (.frame rfl rfl rfl), fun n hn => ?_⟩
  exact (hfiles n hn).resolve_left (not_mem_nil)

/-- One file of the end of a range deletion. -/
theorem touches_settleRange (env : RangeSettleEnv) (a : ChargeState)
    (f : UInt64 × UInt64) (hE : ∀ n, E n .kNeedGC) :
    Touches E a.storage (a.settleRange env f).storage := by
  unfold settleRange
  cases a.storage.findFile f.1 with
  | none => exact .refl
  | some m =>
    -- every branch charges the file, and one marks it
    have hcharge := touches_chargeFile (E := E) a m f.2
    have hmark := hcharge.tail (.event (hE f.1))
    dsimp only
    repeat' split
    all_goals first | exact hcharge | exact hmark

theorem touches_settleRanges (env : RangeSettleEnv)
    (sizes : List (UInt64 × UInt64)) (a : ChargeState) (hE : ∀ n, E n .kNeedGC) :
    Touches E a.storage (sizes.foldl (settleRange env) a).storage := by
  induction sizes generalizing a with
  | nil => exact .refl
  | cons f sizes ih => exact (touches_settleRange env a f hE).trans (ih _)

/-- One input that is let go. -/
theorem touches_releaseInput (st : BlobStorage) (k : UInt64)
    (hE : E k .kGCCompleted) : Touches E st (st.releaseInput k) := by
  refine .head (.event hE) (.single (.frame ?_ rfl rfl))
  funext n
  unfold kindOf
  rw [findFile_transit]
  have hfind : (st.releaseInput k).findFile n = if n = k then
      (st.findFile n).map BlobFileMeta.releaseInput else st.findFile n :=
    Table.find_modify st.files k BlobFileMeta.releaseInput (fun _ => rfl) n
  rw [hfind]
  split
  · cases st.findFile n <;> rfl
  · rfl

theorem touches_releaseGcFiles (st : BlobStorage) (gc : BlobGC)
    (hE : ∀ n ∈ gc.files, E n .kGCCompleted) : Touches E st (st.releaseGcFiles gc) := by
  have hinputs : ∀ (l : List UInt64) (st : BlobStorage), (∀ n ∈ l, E n .kGCCompleted) →
      Touches E st (l.foldl releaseInput st) := by
    intro l
    induction l with
    | nil => exact fun _ _ => .refl
    | cons k l ih =>
      intro st hl
      exact (touches_releaseInput st k (hl k mem_cons_self)).trans
        (ih _ fun n hn => hl n (mem_cons_of_mem _ hn))
  exact (hinputs gc.inputs st fun n hn =>
    hE n (mem_append_left _ hn)).trans
    (touches_foldl_transit gc.outputs _ fun n hn =>
      hE n (mem_append_right _ hn))

end BlobStorage

-- ==== picks

namespace BlobStorage

variable {triggerNext : Bool}

/-- The loop adds files in the normal state. -/
private theorem mem_pickLoop (options : GcBatchOptions) (s : BlobStorage)
    (scores : List GCScore) {st st' : PickState} (h : s.pickLoop options st scores = some st')
    (hst : ∀ m ∈ st.blobFiles, s.findFile m.fileNumber = some m ∧ m.state = .kNormal) :
    ∀ m ∈ st'.blobFiles, s.findFile m.fileNumber = some m ∧ m.state = .kNormal := by
  induction scores generalizing st with
  | nil =>
    cases h
    exact hst
  | cons score rest ih =>
    unfold pickLoop at h
    cases hf : s.findFile score.fileNumber with
    | none =>
      rw [hf] at h
      cases h
    | some file =>
      rw [hf] at h
      dsimp only at h
      split at h
      case isTrue => exact ih h hst
      case isFalse hneed =>
        split at h
        case isTrue =>
          refine ih h fun m hm => ?_
          rcases mem_append.1 hm with hm | hm
          · exact hst m hm
          · obtain rfl := mem_singleton.1 hm
            have hnumber : m.fileNumber = score.fileNumber := Table.key_of_find hf
            unfold noNeedGC at hneed
            simp only [Bool.or_eq_true, not_or, decide_eq_true_eq, ne_eq, not_not] at hneed
            exact ⟨hnumber ▸ hf, hneed.1⟩
        case isFalse =>
          split at h
          · cases h
            exact hst
          · exact ih h hst

variable (h : st.pickBlobGC options = some (some (files, triggerNext)))
include h

theorem pickBlobGC_cases :
    ∃ picked, st.pickLoop options {} st.gcScore = some picked
      ∧ st.declines options picked = false ∧ picked.blobFiles = files := by
  unfold pickBlobGC at h
  cases hloop : st.pickLoop options {} st.gcScore with
  | none => simp [hloop] at h
  | some picked =>
    rw [hloop] at h
    dsimp only at h
    split at h
    · cases h
    case isFalse hworth =>
      cases h
      exact ⟨picked, rfl, Bool.eq_false_of_not_eq_true hworth, rfl⟩

/-- `PickBlobGC` picks files of the storage in the normal state. -/
theorem mem_pickBlobGC (hn : n ∈ files.map fileNumber) : st.stateOf n = some .kNormal := by
  obtain ⟨picked, hloop, -, rfl⟩ := pickBlobGC_cases h
  obtain ⟨m, hm, rfl⟩ := mem_map.1 hn
  obtain ⟨hfind, hnormal⟩ := mem_pickLoop options st st.gcScore hloop (fun m hm => nomatch hm) m hm
  unfold stateOf
  rw [hfind, map_some, hnormal]

/-- And it picks some. -/
theorem pickBlobGC_ne_nil : files.map fileNumber ≠ [] := by
  obtain ⟨picked, -, hworth, rfl⟩ := pickBlobGC_cases h
  unfold declines at hworth
  simp only [Bool.or_eq_false_iff, isEmpty_eq_false_iff] at hworth
  rw [ne_eq, map_eq_nil_iff]
  exact hworth.1.1

end BlobStorage

-- ==== fates of storages

namespace GcFiles

open BlobStorage (Changes)

/-- The files of column family `i` that a pick marks. -/
def Picks (s : GcFiles) (cfId : UInt32) (options : GcBatchOptions) (n : UInt64) : Prop :=
  ∃ st files triggerNext, s.fileSet.columnFamilies.lookup cfId = some st
    ∧ st.pickBlobGC options = some (some (files, triggerNext))
    ∧ n ∈ files.map BlobFileMeta.fileNumber

/-- The events a step delivers first, whatever state the file is in. -/
def Unguarded (C : Coding) (s : GcFiles) (i : UInt32) : Act → UInt64 → FileEvent → Prop
  | .pick cfId options, n, e =>
    e = .kGCBegin ∧ i = cfId ∧ s.Picks cfId options n
  | .compactionCompleted _ info, n, e =>
    e = .kCompactionCompleted ∧ i = info.cfId ∧ info.status.isOk = true ∧ n ∈ outputOnly C info
  | _, _, _ => False

/-- The events it delivers after that. -/
def Guarded (C : Coding) (s : GcFiles) (i : UInt32) : Act → UInt64 → FileEvent → Prop
  | .finish j _, n, e =>
    e = .kGCCompleted ∧ ∃ gc, s.gcs[j]? = some gc ∧ gc.cfId = i ∧ n ∈ gc.files
  | .flushCompleted info, n, e =>
    e = .kFlushCompleted ∧ i = info.cfId ∧ n ∈ flushed C info
  | .compactionCompleted .., _, e => e = .kNeedGC ∨ e = .kNeedMerge
  | .settleRanges .., _, e => e = .kNeedGC
  | _, _, _ => False

/-- The edits it logs among those. -/
def Issues (s : GcFiles) : Act → VersionEdit → Prop
  | .fileSet op, e => s.fileSet.Issues op e
  | .installOutputs j files _, e =>
    ∃ gc, s.gcs[j]? = some gc ∧ e = gc.installEdit files
  | .finish j _, e =>
    ∃ gc obsoleteSequence, s.gcs[j]? = some gc ∧ e = gc.deleteEdit obsoleteSequence
  | .compactionCompleted .., e => e.addedFiles = []
  | .settleRanges .., e => e.addedFiles = []
  | _, _ => False

/-- What a step does to the storage of column family `i`. -/
inductive Fate (C : Coding) (s : GcFiles) (a : Act) (i : UInt32) :
    Option BlobStorage → Option BlobStorage → Prop
  | changes {o mid o' : Option BlobStorage}
      (first : Option.Rel (Changes (s.Unguarded C i a) fun _ => False) o mid)
      (rest : Option.Rel (Changes (s.Guarded C i a) fun e =>
        e.columnFamilyId = i ∧ s.Issues a e) mid o') : Fate C s a i o o'
  | destroy {st : BlobStorage} (ha : a = .fileSet (.maybeDestroyColumnFamily i)) :
      Fate C s a i (some st) (BlobFileSet.orErased st.markDestroyed)
  | purge {st : BlobStorage} {oldestSequence : SequenceNumber}
      (ha : a = .fileSet (.getObsoleteFiles oldestSequence)) :
      Fate C s a i (some st) (BlobFileSet.orErased (st.getObsoleteFiles oldestSequence).2)

section

variable {E : UInt64 → FileEvent → Prop} {P : VersionEdit → Prop}
  {o'' : Option BlobStorage} {C : Coding}

theorem rel_refl (o : Option BlobStorage) : Option.Rel (Changes E P) o o := by
  cases o with
  | none => exact .none
  | some st => exact .some .refl

theorem rel_trans (h : Option.Rel (Changes E P) o o') (h' : Option.Rel (Changes E P) o' o'') :
    Option.Rel (Changes E P) o o'' := by
  cases h with
  | none => exact h'
  | some h =>
    cases h' with
    | some h' => exact .some (h.trans h')

theorem rel_logAndApply (fs : BlobFileSet) (e : VersionEdit)
    (io : ManifestIO) (i : UInt32) (hP : P e) :
    Option.Rel (Changes E fun e => e.columnFamilyId = i ∧ P e) (fs.columnFamilies.lookup i)
      ((fs.logAndApply C e io).2.columnFamilies.lookup i) := by
  have hedits := edits_logAndApply (C := C) fs e io i
  revert hedits
  generalize fs.columnFamilies.lookup i = o
  generalize (fs.logAndApply C e io).2.columnFamilies.lookup i = o'
  intro hedits
  cases hedits with
  | none => exact .none
  | some h =>
    refine .some ((Changes.of_edits h).mono (fun _ _ h => h) ?_)
    rintro e' ⟨hcf, rfl⟩
    exact ⟨hcf, hP⟩

theorem rel_onStorage (fs : BlobFileSet) (j i : UInt32) (f : BlobStorage → BlobStorage)
    (h : i = j → ∀ st, fs.columnFamilies.lookup i = some st → Changes E P st (f st)) :
    Option.Rel (Changes E P) (fs.columnFamilies.lookup i)
      ((fs.onStorage j f).columnFamilies.lookup i) := by
  rw [lookup_onStorage]
  split
  case isFalse => exact rel_refl _
  case isTrue hi =>
    cases hst : fs.columnFamilies.lookup i with
    | none => exact .none
    | some st => exact .some (h hi st hst)

end

variable {C : Coding} {s s' : GcFiles} {a : Act} {i : UInt32} {cfId : UInt32}
  {j : Nat} {deletion : Option (SequenceNumber × ManifestIO)}

/-- A step without unguarded events. -/
theorem Fate.of_rest (h : Option.Rel (Changes (s.Guarded C i a) fun e =>
      e.columnFamilyId = i ∧ s.Issues a e) o o') : Fate C s a i o o' :=
  .changes (rel_refl o) h

theorem fate_fileSet {op : FileSetOp} {fs' : BlobFileSet}
    (h : s.fileSet.act C op = some fs') (i : UInt32) :
    Fate C s (.fileSet op) i (s.fileSet.columnFamilies.lookup i) (fs'.columnFamilies.lookup i) := by
  have heffect := effect h i
  generalize s.fileSet.columnFamilies.lookup i = o at heffect
  generalize fs'.columnFamilies.lookup i = o' at heffect
  cases heffect with
  | edits hedits =>
    refine .of_rest ?_
    cases hedits with
    | none => exact .none
    | some h => exact .some (Changes.of_edits h)
  | destroy hop => exact .destroy (hop ▸ rfl)
  | purge hop hfree => exact .purge (hop ▸ rfl)

/-- A pick changes nothing, or makes a `BlobGC` object of files in the
normal state and marks them. -/
theorem pick_cases (h : s.pick cfId options = some s') :
    s' = s ∨ ∃ st files triggerNext,
      s.fileSet.columnFamilies.lookup cfId = some st
        ∧ st.pickBlobGC options = some (some (files, triggerNext)) ∧ s' = { s with
          fileSet := s.fileSet.onStorage cfId (·.markFilesBeingGC (files.map fileNumber))
          gcs := s.gcs ++ [{ cfId, triggerNext
                             inputs := files.map fileNumber }] } := by
  unfold pick at h
  split at h
  · cases h
    exact .inl rfl
  · cases hst : s.fileSet.getBlobStorage cfId with
    | none =>
      rw [hst] at h
      cases h
      exact .inl rfl
    | some st =>
      rw [hst] at h
      dsimp only at h
      cases hpick : st.pickBlobGC options with
      | none =>
        rw [hpick] at h
        cases h
      | some result =>
        rw [hpick] at h
        cases result with
        | none =>
          cases h
          exact .inl rfl
        | some result =>
          obtain ⟨files, triggerNext⟩ := result
          cases h
          exact .inr ⟨st, files, triggerNext, hst, hpick, rfl⟩

theorem fate_pick (h : s.pick cfId options = some s') (i : UInt32) :
    Fate C s (.pick cfId options) i (s.fileSet.columnFamilies.lookup i)
      (s'.fileSet.columnFamilies.lookup i) := by
  rcases pick_cases h with rfl | ⟨st, files, triggerNext, hst, hpick, rfl⟩
  · exact .of_rest (rel_refl _)
  · refine .changes (rel_onStorage s.fileSet cfId i _ ?_) (rel_refl _)
    intro hi st' _
    exact (BlobStorage.touches_foldl_transit _ st' fun n hn =>
      ⟨rfl, hi, st, files, triggerNext, hst, hpick, hn⟩).changes

theorem fate_finish {gc : BlobGC} (hgc : s.gcs[j]? = some gc) (i : UInt32) :
    Fate C s (.finish j deletion) i (s.fileSet.columnFamilies.lookup i)
      ((s.finish C j gc deletion).fileSet.columnFamilies.lookup i) := by
  refine .of_rest (rel_trans ?_ (rel_onStorage _ gc.cfId i _ ?_))
  · cases deletion with
    | none => exact rel_refl _
    | some d =>
      obtain ⟨obsoleteSequence, io⟩ := d
      exact rel_logAndApply s.fileSet _ io i ⟨gc, obsoleteSequence, hgc, rfl⟩
  · intro hi st _
    exact (BlobStorage.touches_releaseGcFiles st gc fun n hn =>
      ⟨rfl, gc, hgc, hi.symm, hn⟩).changes

theorem fate_flushCompleted (info : FlushJobInfo) (i : UInt32) :
    Fate C s (.flushCompleted info) i (s.fileSet.columnFamilies.lookup i)
      ((onFlushCompleted C s.fileSet info).columnFamilies.lookup i) := by
  refine .of_rest ?_
  unfold onFlushCompleted
  cases hprop : info.property with
  | none => exact rel_refl _
  | some src =>
    refine rel_onStorage s.fileSet info.cfId i _ fun hi st _ => ?_
    refine (BlobStorage.touches_flushFiles _ (st, 0) fun f hf =>
      ⟨rfl, hi, ?_⟩).changes
    unfold flushed
    rw [hprop]
    exact mem_map_of_mem hf

theorem fate_settleRanges (env : RangeSettleEnv) (cfId : UInt32)
    (sizes : BlobFilesSize) (i : UInt32) :
    Fate C s (.settleRanges env cfId sizes) i (s.fileSet.columnFamilies.lookup i)
      ((DiffKV.settleRanges C env s.fileSet cfId sizes).columnFamilies.lookup i) := by
  refine .of_rest ?_
  unfold DiffKV.settleRanges
  cases hst : s.fileSet.getBlobStorage cfId with
  | none => exact rel_refl _
  | some st =>
    dsimp only
    have hneed : ∀ n, s.Guarded C i (.settleRanges env cfId sizes) n .kNeedGC := fun _ => rfl
    have hcharged : Changes (s.Guarded C i (.settleRanges env cfId sizes))
        (fun e => e.columnFamilyId = i ∧ s.Issues (.settleRanges env cfId sizes) e) st
        (sizes.entries.foldl (settleRange env) { storage := st }).storage :=
      (BlobStorage.touches_settleRanges env sizes.entries { storage := st } hneed).changes
    have hadded : (sizes.entries.foldl (settleRange env)
        { storage := st }).edit.addedFiles = [] := addedFiles_settle env st sizes
    generalize sizes.entries.foldl (settleRange env) { storage := st } = a at hcharged hadded
    have hfirst := rel_onStorage s.fileSet cfId i (fun _ =>
      { a.storage with
        stats := a.storage.stats.sub .LIVE_BLOB_SIZE a.delta })
      fun hi st' hst' => by
      subst hi
      obtain rfl : st = st' := some.inj (hst.symm.trans hst')
      exact hcharged.tail (.frame rfl rfl rfl)
    split
    · exact rel_trans hfirst (rel_logAndApply _ _ env.io i hadded)
    · refine rel_trans hfirst (rel_onStorage _ cfId i _ fun _ st _ => ?_)
      exact .single (.frame rfl rfl rfl)

theorem fate_compactionCompleted (env : CompactionEnv) (info : CompactionJobInfo) (i : UInt32) :
    Fate C s (.compactionCompleted env info) i (s.fileSet.columnFamilies.lookup i)
      ((onCompactionCompleted C env s.fileSet info).2.columnFamilies.lookup i) := by
  cases hok : info.status.isOk with
  | false =>
    rw [onCompactionCompleted, hok]
    exact .of_rest (rel_refl _)
  | true =>
    cases hst : s.fileSet.getBlobStorage info.cfId with
    | none =>
      rw [onCompactionCompleted, hok, hst]
      exact .of_rest (rel_refl _)
    | some st =>
      obtain ⟨⟨found, st₁⟩, hcomplete⟩ : ∃ r, completeOutputs st (outputOnly C info) = r := ⟨_, rfl⟩
      -- first the outputs
      have hfirst := rel_onStorage (E := s.Unguarded C i (.compactionCompleted env info))
        (P := fun _ => False) s.fileSet info.cfId i (fun _ => st₁) fun hi st' hst' => by
          subst hi
          obtain rfl : st = st' := some.inj (hst.symm.trans hst')
          rw [show st₁ = _ from congrArg Prod.snd hcomplete.symm]
          exact (BlobStorage.touches_completeOutputs st _ fun n hn =>
            ⟨rfl, rfl, hok, hn⟩).changes
      cases found with
      | false =>
        rw [onCompactionCompleted_missing env hok hst hcomplete]
        exact .changes hfirst (rel_refl _)
      | true =>
        rw [onCompactionCompleted_eq env hok hst hcomplete]
        refine .changes hfirst ?_
        have hst : s.fileSet.columnFamilies.lookup info.cfId = some st := hst
        have hneed : ∀ n, s.Guarded C i (.compactionCompleted env info) n .kNeedGC :=
          fun _ => .inl rfl
        have hcharged := (BlobStorage.touches_chargeStorage env info
          (calcBfs C info).diff st₁ fun n _ => hneed n).1
        have hadded : (chargeStorage env info
            (calcBfs C info).diff st₁).edit.addedFiles = [] := (frame_chargeStorage ..).1
        generalize chargeStorage env info (calcBfs C info).diff st₁ = a at hcharged hadded
        have hrest : Option.Rel (Changes (s.Guarded C i (.compactionCompleted env info)) fun e =>
              e.columnFamilyId = i ∧ s.Issues (.compactionCompleted env info) e)
            ((s.fileSet.onStorage info.cfId fun _ => st₁).columnFamilies.lookup i)
            ((s.fileSet.onStorage info.cfId fun _ => a.storage).columnFamilies.lookup i) := by
          rw [lookup_onStorage, lookup_onStorage]
          split
          case isFalse => exact rel_refl _
          case isTrue hi =>
            subst hi
            rw [hst]
            exact .some hcharged.changes
        split
        · refine rel_trans hrest (rel_trans (rel_logAndApply _ _ env.io i hadded)
            (rel_onStorage _ info.cfId i _ fun _ st _ => ?_))
          exact (BlobStorage.touches_foldl_transit _ st fun _ _ => .inr rfl).changes
        · exact hrest

/-- A job that takes a step has not let go of its files. -/
private theorem held_of_step {next : BlobGC → GcFiles} (h : (match s.gcs[j]? with
      | none => none
      | some gc => if gc.released then none else some (next gc)) = some s') :
    ∃ gc, s.gcs[j]? = some gc ∧ gc.released = false ∧ s' = next gc := by
  cases hgc : s.gcs[j]? with
  | none => simp [hgc] at h
  | some gc =>
    cases hreleased : gc.released with
    | true => simp [hgc, hreleased] at h
    | false =>
      simp only [hgc, hreleased, Bool.false_eq_true, if_false, some.injEq] at h
      exact ⟨gc, rfl, hreleased, h.symm⟩

theorem step_installOutputs {io : ManifestIO}
    (h : s.step C (.installOutputs j files io) = some s') :
    ∃ gc, s.gcs[j]? = some gc ∧ gc.released = false ∧ s' = s.installOutputs C j gc files io :=
  held_of_step h

theorem step_finish (h : s.step C (.finish j deletion) = some s') :
    ∃ gc, s.gcs[j]? = some gc ∧ gc.released = false ∧ s' = s.finish C j gc deletion :=
  held_of_step h

/-- What a step does to each storage. -/
theorem fate (h : s.step C a = some s') (i : UInt32) :
    Fate C s a i (s.fileSet.columnFamilies.lookup i) (s'.fileSet.columnFamilies.lookup i) := by
  cases a with
  | fileSet op =>
    obtain ⟨fs', hact, rfl⟩ := map_eq_some_iff.1 h
    exact fate_fileSet hact i
  | pick cfId options => exact fate_pick h i
  | installOutputs j files io =>
    obtain ⟨gc, hgc, -, rfl⟩ := step_installOutputs h
    exact .of_rest (rel_logAndApply s.fileSet _ io i ⟨gc, hgc, rfl⟩)
  | finish j deletion =>
    obtain ⟨gc, hgc, -, rfl⟩ := step_finish h
    exact fate_finish hgc i
  | computeGCScore cfId =>
    cases h
    refine .of_rest (rel_onStorage s.fileSet cfId i _ fun _ st _ => ?_)
    exact .single (.frame rfl rfl rfl)
  | flushCompleted info =>
    cases h
    exact fate_flushCompleted info i
  | compactionCompleted env info =>
    cases h
    exact fate_compactionCompleted env info i
  | settleRanges env cfId sizes =>
    cases h
    exact fate_settleRanges env cfId sizes i

-- ==== states over a step

/-- The state of the file `n` of column family `i`, if it is there. -/
def stateOf (s : GcFiles) (i : UInt32) (n : UInt64) : Option FileState :=
  (s.fileSet.columnFamilies.lookup i).bind (·.stateOf n)

theorem stateOf_eq (s : GcFiles) (i : UInt32) (n : UInt64) :
    s.stateOf i n = (s.fileSet.file i n).map (·.state) := by
  unfold stateOf file
  cases s.fileSet.columnFamilies.lookup i <;> rfl

theorem stateOf_of_lookup (h : s.fileSet.columnFamilies.lookup i = some st)
    (n : UInt64) : s.stateOf i n = st.stateOf n := by
  unfold stateOf
  rw [h]
  rfl

theorem isSome_of_stateOf (h : s.stateOf i n ≠ none) :
    (s.fileSet.columnFamilies.lookup i).isSome := by
  unfold stateOf at h
  cases hst : s.fileSet.columnFamilies.lookup i with
  | none =>
    rw [hst] at h
    exact absurd rfl h
  | some st => rfl

theorem obsolete_iff_stateOf (n : UInt64) :
    s.fileSet.obsolete i n = true ↔ s.stateOf i n = some .kObsolete := by
  rw [stateOf_eq]
  unfold obsolete isObsolete
  cases s.fileSet.file i n <;> simp

/-- The steps that take no file out of a storage. -/
def Act.Keeps : Act → Prop
  | .fileSet (.maybeDestroyColumnFamily _) => False
  | .fileSet (.getObsoleteFiles _) => False
  | _ => True

/-- A file stays in a set of states that the events of the step do not
leave. -/
theorem stateOf_step {S : FileState → Prop} (hstep : s.step C a = some s') (hkeeps : a.Keeps)
    (hfirst : ∀ e, s.Unguarded C i a n e → ∀ f, S f → S (f.next e))
    (hrest : ∀ e, s.Guarded C i a n e → ∀ f, S f → S (f.next e))
    (hdelete : S .kObsolete ∨ ∀ e, e.columnFamilyId = i → s.Issues a e →
      n ∉ e.deletedFiles.map Prod.fst)
    (hn : ∃ f, s.stateOf i n = some f ∧ S f) : ∃ f, s'.stateOf i n = some f ∧ S f := by
  have hfate := fate hstep i
  unfold stateOf at hn ⊢
  generalize s.fileSet.columnFamilies.lookup i = o at hn hfate
  generalize s'.fileSet.columnFamilies.lookup i = o' at hfate ⊢
  cases hfate with
  | changes first rest =>
    cases first with
    | none =>
      obtain ⟨f, hf, -⟩ := hn
      cases hf
    | some first =>
      cases rest with
      | some rest =>
        refine BlobStorage.Changes.keeps rest hrest ?_
          (BlobStorage.Changes.keeps first hfirst (.inr fun e he => he.elim) hn)
        exact hdelete.imp_right fun h e he => h e he.1 he.2
  | destroy ha =>
    subst ha
    exact hkeeps.elim
  | purge ha =>
    subst ha
    exact hkeeps.elim

/-- A purge, or the end of a column family, leaves each file as it is or
takes it out. -/
theorem stateOf_of_not_keeps (hkeeps : ¬ a.Keeps)
    (hstep : s.step C a = some s') (i : UInt32) (n : UInt64) :
    s'.stateOf i n = none ∨ s'.stateOf i n = s.stateOf i n := by
  have hquiet : (∀ n e, ¬ s.Unguarded C i a n e)
      ∧ (∀ n e, ¬ s.Guarded C i a n e) ∧ ∀ e, ¬ s.Issues a e := by
    cases a with
    | fileSet op =>
      cases op with
      | maybeDestroyColumnFamily => exact ⟨nofun, nofun, nofun⟩
      | getObsoleteFiles => exact ⟨nofun, nofun, nofun⟩
      | _ => exact absurd trivial hkeeps
    | _ => exact absurd trivial hkeeps
  have hfate := fate hstep i
  unfold stateOf
  generalize s.fileSet.columnFamilies.lookup i = o at hfate ⊢
  generalize s'.fileSet.columnFamilies.lookup i = o' at hfate ⊢
  cases hfate with
  | changes first rest =>
    refine .inr ?_
    cases first with
    | none =>
      cases rest with
      | none => rfl
    | some first =>
      cases rest with
      | some rest =>
        have hfirst := first.stateOf_eq hquiet.1 fun _ h => h
        have hrest := rest.stateOf_eq hquiet.2.1 fun e he =>
          hquiet.2.2 e he.2
        exact congrFun (hrest.trans hfirst) n
  | destroy ha =>
    unfold orErased
    split
    · exact .inl rfl
    · exact .inr rfl
  | @purge st q ha =>
    unfold orErased
    split
    · exact .inl rfl
    · by_cases hremoved : n ∈ (st.getObsoleteFiles q).1
      · refine .inl ?_
        show ((st.getObsoleteFiles q).2.findFile n).map (·.state) = none
        rw [BlobStorage.findFile_getObsoleteFiles, if_pos hremoved]
        rfl
      · refine .inr ?_
        show ((st.getObsoleteFiles q).2.findFile n).map (·.state) = _
        rw [BlobStorage.findFile_getObsoleteFiles, if_neg hremoved]
        rfl

/-- Only edits bring in files. -/
theorem stateOf_step_new (hstep : s.step C a = some s')
    (hn : s.stateOf i n = none) (hn' : s'.stateOf i n ≠ none) :
    ∃ e, e.columnFamilyId = i ∧ s.Issues a e ∧ n ∈ e.addedFiles.map (·.fileNumber) := by
  by_cases hkeeps : a.Keeps
  case neg =>
    rcases stateOf_of_not_keeps hkeeps hstep i n with hnone | hsame
    · exact absurd hnone hn'
    · exact absurd (hsame.trans hn) hn'
  have hfate := fate hstep i
  unfold stateOf at hn hn'
  generalize s.fileSet.columnFamilies.lookup i = o at hn hfate
  generalize s'.fileSet.columnFamilies.lookup i = o' at hfate hn'
  cases hfate with
  | changes first rest =>
    cases first with
    | none =>
      cases rest with
      | none => exact absurd rfl hn'
    | @some st mid first =>
      cases rest with
      | some rest =>
        have hmid : mid.stateOf n = none := by
          by_contra hmid
          obtain ⟨_, hfalse, -⟩ := BlobStorage.Changes.new first hn hmid
          exact hfalse
        obtain ⟨e, he, hmem⟩ := BlobStorage.Changes.new rest hmid hn'
        exact ⟨e, he.1, he.2, hmem⟩
  | destroy ha =>
    subst ha
    exact hkeeps.elim
  | purge ha =>
    subst ha
    exact hkeeps.elim

end GcFiles

end DiffKV
