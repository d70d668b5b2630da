/-
Who wakes a blocked `Put`.

A `Put` that waits, or has decided to wait, has seen the flag set while
it held `size_mutex_`. `Awaited` says that if the flag is clear by now, a
call still stands before its signal. The signal ends that, so no `Put`
may have decided to wait without waiting yet when it comes: for the two
calls that hold `size_mutex_` this is mutual exclusion, for
`OnCompactionCompleted` it is the condition `signalsApart`.
-/
import DiffKV.WriteStall
import DiffKV.Lib.Threads

namespace DiffKV

open Lib List

namespace WriteStall

variable {blockWriteSize : UInt64} {s s' : WriteStall} {a : Action} {p p' : PutStage} {c : Clearing}

/-- No `Put` stands between its second test and its wait when
`OnCompactionCompleted` signals. -/
def signalsApart (s : WriteStall) : Action → Prop
  | .callNext j _ =>
    s.clearings[j]? = some { call := .onCompactionCompleted, stage := .signal } → .wait ∉ s.puts
  | _ => True

instance (s : WriteStall) : (a : Action) → Decidable (s.signalsApart a)
  | .callNext j _ => inferInstanceAs (Decidable (s.clearings[j]? = some
      { call := .onCompactionCompleted, stage := .signal } → .wait ∉ s.puts))
  | .put | .putNext _ | .spuriousWakeup _ | .call _ => isTrue trivial

-- ==== size_mutex_

/-- How many threads hold `size_mutex_`. -/
def sizeHolders (s : WriteStall) : Nat :=
  s.puts.countP PutStage.holdsSize + s.clearings.countP Clearing.holdsSize

theorem sizeHolders_eq_zero (h : s.sizeFree = true) : s.sizeHolders = 0 := by
  simp only [sizeFree, Bool.and_eq_true, Bool.not_eq_true', any_eq_false] at h
  have hputs : s.puts.countP PutStage.holdsSize = 0 := countP_eq_zero.2 h.1
  have hclearings : s.clearings.countP Clearing.holdsSize = 0 := countP_eq_zero.2 h.2
  rw [sizeHolders, hputs, hclearings]

/-- `size_mutex_` is taken where it is free. -/
theorem holdsSize_nextPut (h : s.nextPut blockWriteSize p = some p')
    (hp' : p'.holdsSize = true) : p.holdsSize = true ∨ s.sizeFree = true := by
  cases p with
  | locked => exact .inl rfl
  | wait => exact .inl rfl
  | unlock => exact .inl rfl
  | lock | woken =>
    simp only [nextPut] at h
    split at h
    case isTrue hfree => exact .inr hfree
    case isFalse => cases h
  | test =>
    simp only [nextPut, Option.some.injEq] at h
    subst h
    split at hp' <;> cases hp'
  | waiting => cases h
  | passed => cases h

theorem holdsSize_nextClearing {totalSize : UInt64} {stage : ClearingStage}
    (h : s.nextClearing blockWriteSize totalSize c = some stage)
    (hc : Clearing.holdsSize { c with stage } = true) : c.holdsSize = true ∨ s.sizeFree = true := by
  obtain ⟨call, old⟩ := c
  cases old with
  | lock =>
    simp only [nextClearing] at h
    split at h
    case isTrue hfree => exact .inr hfree
    case isFalse => cases h
  | clear =>
    cases h
    exact .inl hc
  | signal =>
    cases call with
    | onCompactionCompleted => cases hc
    | backgroundGC => exact .inl rfl
    | closeImpl => exact .inl rfl
  | test =>
    cases h
    cases call with
    | onCompactionCompleted => cases hc
    | backgroundGC =>
      simp only [afterTest] at hc
      split at hc <;> cases hc
    | closeImpl => cases hc
  | enter =>
    simp only [nextClearing] at h
    split at h <;> cases h
    cases call <;> cases hc
  | raise =>
    cases h
    cases call <;> cases hc
  | unlock =>
    cases h
    cases call <;> cases hc
  | leave =>
    cases h
    cases call <;> cases hc
  | done => cases h

/-- What a call does where it stands leaves the holders alone. -/
theorem sizeHolders_effect (stage : ClearingStage) :
    (s.effect stage).puts.countP PutStage.holdsSize = s.puts.countP PutStage.holdsSize
      ∧ (s.effect stage).clearings = s.clearings := by
  cases stage with
  | signal =>
    refine ⟨?_, rfl⟩
    show (s.puts.map _).countP _ = _
    rw [countP_map]
    congr 1
    funext p
    cases p <;> rfl
  | _ => exact ⟨rfl, rfl⟩

/-- At most one thread holds `size_mutex_`. -/
theorem sizeHolders_step (h : s.sizeHolders ≤ 1)
    (hstep : s.step blockWriteSize a = some s') : s'.sizeHolders ≤ 1 := by
  cases a with
  | put =>
    cases hstep
    simpa [sizeHolders, PutStage.holdsSize] using h
  | call c =>
    cases hstep
    cases c <;> simpa [sizeHolders, Clearing.holdsSize] using h
  | putNext i =>
    simp only [step] at hstep
    split at hstep
    case h_1 => cases hstep
    case h_2 p hp =>
      split at hstep
      case h_1 => cases hstep
      case h_2 p' hnext =>
        cases hstep
        exact holders_set hp h fun hp' =>
          (holdsSize_nextPut hnext hp').imp id sizeHolders_eq_zero
  | spuriousWakeup i =>
    simp only [step] at hstep
    split at hstep
    case isFalse => cases hstep
    case isTrue hp =>
      cases hstep
      exact holders_set hp h fun h => nomatch h
  | callNext j totalSize =>
    simp only [step] at hstep
    split at hstep
    case h_1 => cases hstep
    case h_2 c hc =>
      split at hstep
      case h_1 => cases hstep
      case h_2 stage hnext =>
        cases hstep
        unfold sizeHolders at h ⊢
        rw [Nat.add_comm] at h
        rw [(sizeHolders_effect c.stage).1, Nat.add_comm]
        refine holders_set hc h fun hc' =>
          (holdsSize_nextClearing hnext hc').imp id fun hfree => ?_
        rw [Nat.add_comm]
        exact sizeHolders_eq_zero hfree

-- ==== who is awaited

/-- The `Put` waits, or has decided to. -/
def IsBlocked (p : PutStage) : Prop := p = .wait ∨ p = .waiting

/-- One thread at most holds `size_mutex_`, and if the flag is clear, the
signal that wakes a blocked `Put` is still to come. -/
structure Awaited (s : WriteStall) : Prop where
  exclusive : s.sizeHolders ≤ 1
  pending : s.blockForSize = false → ∀ p ∈ s.puts, IsBlocked p →
    ∃ c ∈ s.clearings, c.stage = .signal

/-- A `Put` that has just decided to wait has seen the flag set. -/
theorem isBlocked_nextPut (h : s.nextPut blockWriteSize p = some p')
    (hp' : IsBlocked p') (hflag : s.blockForSize = false) : IsBlocked p := by
  cases p with
  | wait => exact .inl rfl
  | locked =>
    simp only [nextPut, hflag, Bool.false_eq_true, if_false, Option.some.injEq] at h
    subst h
    rcases hp' with hp' | hp' <;> cases hp'
  | test =>
    simp only [nextPut, hflag, Bool.and_false, Bool.false_eq_true, if_false, Option.some.injEq] at h
    subst h
    rcases hp' with hp' | hp' <;> cases hp'
  | lock | woken =>
    simp only [nextPut] at h
    split at h <;> cases h
    rcases hp' with hp' | hp' <;> cases hp'
  | unlock =>
    cases h
    rcases hp' with hp' | hp' <;> cases hp'
  | waiting => cases h
  | passed => cases h

/-- The holder of `size_mutex_` signals while no `Put` has decided to
wait. -/
theorem wait_not_mem_of_holds (h : s.sizeHolders ≤ 1) (hc : c ∈ s.clearings)
    (hholds : c.holdsSize = true) : .wait ∉ s.puts := by
  intro hmem
  have hput : 0 < s.puts.countP PutStage.holdsSize := countP_pos_iff.2 ⟨_, hmem, rfl⟩
  have hclearing : 0 < s.clearings.countP Clearing.holdsSize := countP_pos_iff.2 ⟨c, hc, hholds⟩
  unfold sizeHolders at h
  omega

/-- After a signal nothing is blocked. -/
theorem not_isBlocked_signalAll (h : .wait ∉ s.puts) : ∀ p ∈ s.signalAll.puts, ¬ IsBlocked p := by
  intro p hp hblocked
  obtain ⟨q, hq, rfl⟩ := mem_map.1 hp
  rcases hblocked with hblocked | hblocked
  · split at hblocked
    · cases hblocked
    · exact h (hblocked ▸ hq)
  · split at hblocked
    · cases hblocked
    · contradiction

theorem Awaited.step (h : Awaited s) (hapart : s.signalsApart a)
    (hstep : s.step blockWriteSize a = some s') : Awaited s' := by
  refine ⟨sizeHolders_step h.exclusive hstep, ?_⟩
  intro hflag p hp hblocked
  cases a with
  | put =>
    cases hstep
    rcases mem_append.1 hp with hp | hp
    · exact h.pending hflag p hp hblocked
    · rw [mem_singleton] at hp
      subst hp
      rcases hblocked with hblocked | hblocked <;> cases hblocked
  | call c =>
    cases hstep
    obtain ⟨c', hc', hs⟩ := h.pending hflag p hp hblocked
    exact ⟨c', mem_append_left _ hc', hs⟩
  | putNext i =>
    simp only [WriteStall.step] at hstep
    split at hstep
    case h_1 => cases hstep
    case h_2 q hq =>
      split at hstep
      case h_1 => cases hstep
      case h_2 q' hnext =>
        cases hstep
        rcases mem_or_eq_of_mem_set hp with hp | rfl
        · exact h.pending hflag p hp hblocked
        · exact h.pending hflag q (mem_of_getElem? hq) (isBlocked_nextPut hnext hblocked hflag)
  | spuriousWakeup i =>
    simp only [WriteStall.step] at hstep
    split at hstep
    case isFalse => cases hstep
    case isTrue hq =>
      cases hstep
      rcases mem_or_eq_of_mem_set hp with hp | rfl
      · exact h.pending hflag p hp hblocked
      · rcases hblocked with hblocked | hblocked <;> cases hblocked
  | callNext j totalSize =>
    simp only [WriteStall.step] at hstep
    split at hstep
    case h_1 => cases hstep
    case h_2 c hc =>
      split at hstep
      case h_1 => cases hstep
      case h_2 stage hnext =>
        cases hstep
        have hmem := mem_of_getElem? hc
        -- a call elsewhere leaves the flag, the waits and the signal
        have hother : c.stage ≠ .signal → s.blockForSize = false → p ∈ s.puts →
            ∃ c' ∈ s.clearings.set j { c with stage }, c'.stage = .signal := by
          intro hne hflag hp
          obtain ⟨c', hc', hs⟩ := h.pending hflag p hp hblocked
          exact ⟨c', mem_set_of_ne hc hc' fun heq => hne (heq ▸ hs), hs⟩
        cases hstage : c.stage with
        | clear =>
          simp only [nextClearing, hstage, Option.some.injEq] at hnext
          subst hnext
          have hlt := (List.getElem?_eq_some_iff.1 hc).1
          exact ⟨_, mem_set hlt _, rfl⟩
        | signal =>
          have hwait : .wait ∉ s.puts := by
            obtain ⟨call, old⟩ := c
            cases hstage
            cases call with
            | onCompactionCompleted => exact hapart hc
            | backgroundGC =>
              exact wait_not_mem_of_holds h.exclusive hmem rfl
            | closeImpl =>
              exact wait_not_mem_of_holds h.exclusive hmem rfl
          rw [hstage] at hp
          exact absurd hblocked (not_isBlocked_signalAll hwait p hp)
        | raise =>
          rw [hstage] at hflag
          cases hflag
        | _ =>
          rw [hstage] at hother hflag hp
          exact hother (by decide) hflag hp

end WriteStall

/-- In every run in which `OnCompactionCompleted` signals only while no
`Put` stands between its second test of the flag and its wait, no `Put`
waits with the flag clear and no signal to come. -/
theorem no_put_left_waiting (blockWriteSize : UInt64) (as : List WriteStall.Action) (s : WriteStall)
    (hapart : Meets (WriteStall.step blockWriteSize) WriteStall.signalsApart {} as)
    (hexec : exec (WriteStall.step blockWriteSize) {} as = some s) :
    ¬ (s.blockForSize = false ∧ (∀ c ∈ s.clearings, c.stage ≠ .signal) ∧ .waiting ∈ s.puts) := by
  have hstart : WriteStall.Awaited {} := ⟨Nat.zero_le _, fun _ _ h => nomatch h⟩
  have hend := exec_keeps (I := WriteStall.Awaited)
    (fun h hc hstep => h.step hc hstep) hstart hapart hexec
  rintro ⟨hflag, hnone, hwaiting⟩
  obtain ⟨c, hc, hsignal⟩ := hend.pending hflag _ hwaiting (.inr rfl)
  exact hnone c hc hsignal

/-- The flag is set, a `Put` comes up to its wait. -/
def stallPut : List WriteStall.Action :=
  [.call .onCompactionCompleted, .callNext 0 0, .callNext 0 9, .callNext 0 9,
    .callNext 0 9, .put, .putNext 0, .putNext 0, .putNext 0]

/-- `OnCompactionCompleted` clears the flag and signals. -/
def clearStall : List WriteStall.Action :=
  [.call .onCompactionCompleted, .callNext 1 0, .callNext 1 3, .callNext 1 3,
    .callNext 1 3, .callNext 1 3]

/-- The signal comes after the `Put` has begun to wait: it is woken. -/
theorem stalled_put_woken :
    ∃ s, exec (WriteStall.step 5) {} (stallPut ++ .putNext 0 :: clearStall) = some s
      ∧ s.blockForSize = false ∧ s.puts = [.woken]
      ∧ ¬ (s.blockForSize = false ∧ (∀ c ∈ s.clearings, c.stage ≠ .signal) ∧ .waiting ∈ s.puts) :=
  ⟨_, rfl, rfl, rfl, no_put_left_waiting 5 (stallPut ++ .putNext 0 :: clearStall) _ (by decide) rfl⟩

/-- The signal comes before: the flag is clear, nothing is to come, and
the `Put` waits. -/
theorem stalled_put_lost :
    exec (WriteStall.step 5) {} (stallPut ++ clearStall ++ [.putNext 0])
      = some
        { blockForSize := false
          puts := [.waiting]
          clearings := [{ call := .onCompactionCompleted, stage := .done },
            { call := .onCompactionCompleted, stage := .done }] } := by
  decide

end DiffKV
