/-
What the counters of the scheduler count.

`Counted` ties each counter to the calls in progress: `bg_gc_running_` to
the GC calls past their wait, `bg_gc_scheduled_` to those and to the
calls on their way to it, `drop_cf_requests_` to the drops in progress
and to those the base DB has refused, for which the section that takes
the request back is skipped. A step moves one call from one stage to
another (`countP_set_add`) and the equations follow by arithmetic; the
results are read off them.
-/
import DiffKV.GcScheduler
import DiffKV.Lib.Threads

namespace DiffKV

open Lib List Option

-- ==== the threads

/-- A GC call past its wait and not at its end. -/
def GcCall.isRunning (call : GcCall) : Bool :=
  match call.stage with
  | .running _ => true
  | .logging => true
  | _ => false

/-- A call of `BackgroundCallGC` at its wait. -/
def GcCall.isPending (call : GcCall) : Bool :=
  call.test.isNone && call.stage = .waiting

/-- A call of `DropColumnFamilies` that has not returned. -/
def DropStage.inProgress (d : DropStage) : Bool := d ≠ .done

/-- A call of `DropColumnFamilies` that has left its wait and not yet
marked the blob files. -/
def DropStage.pastWait (d : DropStage) : Bool :=
  d = .dropping || d = .marking

/-- The calls `CloseImpl` has taken back from the `Env` and not yet
subtracted. -/
def CloseStage.takenBack : CloseStage → Nat
  | .unscheduled count => count
  | _ => 0

namespace GcScheduler

variable {a : Act} {as : List Act} {cfId : UInt32} {j : Nat} {call : GcCall}

variable {opts : GcSchedulingOptions} {s t : GcScheduler} {failed : Nat}

/-- The GC jobs that run. -/
def numRunning (s : GcScheduler) : Nat := s.calls.countP GcCall.isRunning

/-- The calls of `BackgroundCallGC` on their way to a job. -/
def numPending (s : GcScheduler) : Nat :=
  s.envQueue + s.calls.countP GcCall.isPending

/-- The calls of `DropColumnFamilies` in progress. -/
def numDrops (s : GcScheduler) : Nat := s.drops.countP DropStage.inProgress

/-- Each counter counts its calls. `failed` drops were refused by the
base DB. -/
structure Counted (failed : Nat) (s : GcScheduler) : Prop where
  running : s.bgGcRunning = s.numRunning
  scheduled : s.bgGcScheduled = s.numPending + s.numRunning + s.close.takenBack
  requests : s.dropCfRequests = s.numDrops + failed
  unscheduled : 0 ≤ s.unscheduledGc
  /-- what `CloseImpl` has taken back stays in the queue -/
  queue : s.unscheduledGc + s.numPending ≤ s.gcQueue.length
    ∧ (s.close = .notCalled → (s.gcQueue.length : Int) = s.unscheduledGc + s.numPending)
  exclusive : ∀ d ∈ s.drops, d.pastWait = true → s.numRunning = 0
  shut : s.shutingDown = false → s.close = .notCalled

theorem counted_init : Counted 0 {} where
  running := rfl
  scheduled := rfl
  requests := rfl
  unscheduled := Int.le_refl 0
  queue := ⟨Int.le_refl 0, fun _ => rfl⟩
  exclusive := fun _ hd => nomatch hd
  shut := fun _ => rfl

-- ==== MaybeScheduleGC

theorem Counted.scheduleLoop (h : Counted failed s) (rounds : Nat) :
    Counted failed (scheduleLoop opts rounds s) := by
  induction rounds generalizing s with
  | zero => exact h
  | succ rounds ih =>
    unfold GcScheduler.scheduleLoop
    split
    case isFalse => exact h
    case isTrue hcond =>
      obtain ⟨hpos, -⟩ := hcond
      refine ih { h with
        scheduled := ?_
        unscheduled := by show 0 ≤ s.unscheduledGc - 1; omega
        queue := ?_ }
      · have hscheduled := h.scheduled
        simp only [numPending, numRunning] at hscheduled ⊢
        omega
      · obtain ⟨hle, heq⟩ := h.queue
        simp only [numPending] at hle heq ⊢
        exact ⟨by omega, fun hclose => by have := heq hclose; omega⟩

theorem Counted.maybeScheduleGC (h : Counted failed s) :
    Counted failed (s.maybeScheduleGC opts) := by
  unfold GcScheduler.maybeScheduleGC
  split
  · exact h
  · split
    · exact h
    · exact h.scheduleLoop _

/-- `MaybeScheduleGC` raises `bg_gc_scheduled_` no higher than the
option says. -/
theorem maybeScheduleGC_le (s : GcScheduler) :
    (s.maybeScheduleGC opts).bgGcScheduled = s.bgGcScheduled
      ∨ (s.maybeScheduleGC opts).bgGcScheduled ≤ opts.maxBackgroundGc := by
  have hloop : ∀ (rounds : Nat) (s : GcScheduler),
      (GcScheduler.scheduleLoop opts rounds s).bgGcScheduled = s.bgGcScheduled
        ∨ (GcScheduler.scheduleLoop opts rounds s).bgGcScheduled ≤ opts.maxBackgroundGc := by
    intro rounds
    induction rounds with
    | zero => exact fun s => .inl rfl
    | succ rounds ih =>
      intro s
      unfold GcScheduler.scheduleLoop
      split
      case isFalse => exact .inl rfl
      case isTrue hcond =>
        rcases ih _ with heq | hle
        · refine .inr ?_
          rw [heq]
          show s.bgGcScheduled + 1 ≤ _
          omega
        · exact .inr hle
  unfold GcScheduler.maybeScheduleGC
  split
  · exact .inl rfl
  · split
    · exact .inl rfl
    · exact hloop _ s

/-- The rounds given to the loop are enough: it ends where its condition
is false. -/
theorem maybeScheduleGC_exhausts (h : 0 ≤ s.unscheduledGc)
    (henabled : opts.disableBackgroundGc = false) (hup : s.shutingDown = false) :
    ¬ ((s.maybeScheduleGC opts).unscheduledGc > 0
      ∧ (s.maybeScheduleGC opts).bgGcScheduled < opts.maxBackgroundGc) := by
  have hloop : ∀ (rounds : Nat) (s : GcScheduler), s.unscheduledGc ≤ rounds →
      ¬ ((GcScheduler.scheduleLoop opts rounds s).unscheduledGc > 0
        ∧ (GcScheduler.scheduleLoop opts rounds s).bgGcScheduled < opts.maxBackgroundGc) := by
    intro rounds
    induction rounds with
    | zero =>
      intro s hle hcond
      have hpos : s.unscheduledGc > 0 := hcond.1
      omega
    | succ rounds ih =>
      intro s hle
      unfold GcScheduler.scheduleLoop
      split
      case isFalse hcond => exact hcond
      case isTrue =>
        refine ih _ ?_
        show s.unscheduledGc - 1 ≤ _
        omega
  unfold GcScheduler.maybeScheduleGC
  rw [if_neg (by simp [henabled]), if_neg (by simp [hup])]
  exact hloop _ s (by omega)

/-- `MaybeScheduleGC` begins no call itself. -/
theorem maybeScheduleGC_frame (s : GcScheduler) :
    (s.maybeScheduleGC opts).calls = s.calls ∧ (s.maybeScheduleGC opts).close = s.close := by
  have hloop : ∀ (rounds : Nat) (s : GcScheduler),
      (GcScheduler.scheduleLoop opts rounds s).calls = s.calls
        ∧ (GcScheduler.scheduleLoop opts rounds s).close = s.close := by
    intro rounds
    induction rounds with
    | zero => exact fun _ => ⟨rfl, rfl⟩
    | succ rounds ih =>
      intro s
      unfold GcScheduler.scheduleLoop
      split
      · exact ih _
      · exact ⟨rfl, rfl⟩
  unfold GcScheduler.maybeScheduleGC
  split
  · exact ⟨rfl, rfl⟩
  · split
    · exact ⟨rfl, rfl⟩
    · exact hloop _ s

-- ==== the GC calls

/-- The queue grows by one request. -/
theorem Counted.addToGCQueue (h : Counted failed s) (cfId : UInt32) :
    Counted failed (s.addToGCQueue cfId) where
  running := h.running
  scheduled := h.scheduled
  requests := h.requests
  unscheduled := by
    have hunscheduled := h.unscheduled
    show 0 ≤ s.unscheduledGc + 1
    omega
  queue := by
    obtain ⟨hle, heq⟩ := h.queue
    have hlength : (s.addToGCQueue cfId).gcQueue.length = s.gcQueue.length + 1 := by
      simp [GcScheduler.addToGCQueue]
    show s.unscheduledGc + 1 + s.numPending ≤ _ ∧ (s.close = .notCalled →
      _ = s.unscheduledGc + 1 + s.numPending)
    exact ⟨by omega, fun hclose => by have := heq hclose; omega⟩
  exclusive := h.exclusive
  shut := h.shut

section setCall

variable (s : GcScheduler) (j : Nat) (call : GcCall) (stage : GcCallStage)

@[simp] theorem setCall_gcQueue : (s.setCall j call stage).gcQueue = s.gcQueue := rfl

@[simp] theorem setCall_bgGcScheduled :
    (s.setCall j call stage).bgGcScheduled = s.bgGcScheduled := rfl

end setCall

/-- A call that replaces another, by what the counts read of the two. -/
theorem counts_setCall (hj : s.calls[j]? = some call) (stage : GcCallStage) :
    (s.setCall j call stage).numRunning + call.isRunning.toNat
        = s.numRunning + (GcCall.isRunning { call with stage }).toNat
      ∧ (s.setCall j call stage).numPending + call.isPending.toNat
        = s.numPending + (GcCall.isPending { call with stage }).toNat := by
  refine ⟨countP_set_add hj _, ?_⟩
  have hcount := countP_set_add (p := GcCall.isPending) hj { call with stage }
  unfold numPending setCall
  dsimp only
  omega

/-- A GC call moves on: the counters and the queue change by as much as
the calls they count, and no job begins beside a drop. -/
theorem Counted.setCall {stage : GcCallStage} {running scheduled : Int}
    {queue : List UInt32} (h : Counted failed s)
    (hj : s.calls[j]? = some call) (hrunning : running + call.isRunning.toNat
      = s.bgGcRunning + (GcCall.isRunning { call with stage }).toNat)
    (hscheduled : scheduled + (call.isPending.toNat + call.isRunning.toNat)
      = s.bgGcScheduled + ((GcCall.isPending { call with stage }).toNat
        + (GcCall.isRunning { call with stage }).toNat))
    (hqueue : queue.length + call.isPending.toNat
      = s.gcQueue.length + (GcCall.isPending { call with stage }).toNat)
    (hexclusive : (GcCall.isRunning { call with stage }).toNat
        ≤ call.isRunning.toNat ∨ ∀ d ∈ s.drops, d.pastWait = false) :
    Counted failed { s.setCall j call stage with
      bgGcRunning := running
      bgGcScheduled := scheduled
      gcQueue := queue } := by
  obtain ⟨hr, hp⟩ := counts_setCall hj stage
  refine ⟨?_, ?_, h.requests, h.unscheduled, ?_, ?_, h.shut⟩
  · have hbefore := h.running
    show running = (s.setCall j call stage).numRunning
    omega
  · have hbefore := h.scheduled
    show scheduled = (s.setCall j call stage).numPending
      + (s.setCall j call stage).numRunning + s.close.takenBack
    omega
  · obtain ⟨hle, heq⟩ := h.queue
    show s.unscheduledGc + (s.setCall j call stage).numPending ≤ queue.length
      ∧ (s.close = .notCalled → (queue.length : Int)
        = s.unscheduledGc + (s.setCall j call stage).numPending)
    exact ⟨by omega, fun hclose => by have := heq hclose; omega⟩
  · intro d hd hpast
    show (s.setCall j call stage).numRunning = 0
    rcases hexclusive with hle | hnone
    · have hzero := h.exclusive d hd hpast
      omega
    · rw [hnone d hd] at hpast
      cases hpast

/-- A call of `BackgroundCallGC` at its wait finds a request. -/
theorem Counted.gcQueue_ne_nil (h : Counted failed s)
    (hj : s.calls[j]? = some call) (hpending : call.isPending = true) : s.gcQueue ≠ [] := by
  intro hnil
  have hcount : 0 < s.calls.countP GcCall.isPending :=
    countP_pos_iff.2 ⟨call, mem_of_getElem? hj, hpending⟩
  obtain ⟨hle, -⟩ := h.queue
  have hunscheduled := h.unscheduled
  rw [hnil] at hle
  simp only [numPending, length_nil] at hle
  omega

/-- No drop is in progress when a GC call leaves its wait. -/
theorem Counted.no_drop (h : Counted failed s) (hrequests : ¬ s.dropCfRequests > 0) :
    ∀ d ∈ s.drops, d.pastWait = false := by
  intro d hd
  by_contra hpast
  rw [Bool.not_eq_false] at hpast
  have hprogress : d.inProgress = true := by
    cases d with
    | done => cases hpast
    | _ => rfl
  have hpos : 0 < s.numDrops := countP_pos_iff.2 ⟨d, hd, hprogress⟩
  have hcounted := h.requests
  omega

theorem endGC_close (s : GcScheduler) (j : Nat) (call : GcCall) :
    (s.endGC opts j call).close = s.close := by
  unfold GcScheduler.endGC
  split
  · exact (maybeScheduleGC_frame _).2
  · rfl

theorem startGC_close (s : GcScheduler) (j : Nat) (call : GcCall) :
    (s.startGC opts j call).close = s.close := by
  unfold GcScheduler.startGC
  dsimp only
  split
  · rfl
  · split
    · exact endGC_close _ j call
    · rfl

theorem startGC_test (h : call.test = some cfId) :
    s.startGC opts j call = { s.setCall j call (.running cfId) with
      bgGcRunning := s.bgGcRunning + 1
      bgGcScheduled := s.bgGcScheduled + 1 } := by
  unfold GcScheduler.startGC
  rw [h]
  rfl

theorem startGC_queue {rest : List UInt32} (h : call.test = none)
    (hqueue : s.gcQueue = cfId :: rest) :
    s.startGC opts j call = { s.setCall j call (.running cfId) with
      bgGcRunning := s.bgGcRunning + 1
      gcQueue := rest } := by
  unfold GcScheduler.startGC
  rw [h]
  rw [hqueue]
  rfl

/-- A GC call leaves its wait. -/
theorem Counted.startGC (h : Counted failed s) (hj : s.calls[j]? = some call)
    (hwaiting : call.stage = .waiting) (hrequests : ¬ s.dropCfRequests > 0) :
    Counted failed (s.startGC opts j call) := by
  have hnodrop := h.no_drop hrequests
  cases htest : call.test with
  | some cfId =>
    rw [startGC_test htest]
    refine h.setCall hj ?_ ?_ ?_ (.inr hnodrop)
    all_goals simp [GcCall.isRunning, GcCall.isPending, hwaiting, htest]
  | none =>
    have hpending : call.isPending = true := by
      simp [GcCall.isPending, hwaiting, htest]
    obtain ⟨cfId, rest, hqueue⟩ := exists_cons_of_ne_nil (h.gcQueue_ne_nil hj hpending)
    rw [startGC_queue htest hqueue]
    refine h.setCall hj ?_ ?_ ?_ (.inr hnodrop)
    all_goals
      simp [GcCall.isRunning, GcCall.isPending, hwaiting, htest, hqueue]

/-- `BackgroundGC` returns. -/
theorem Counted.finishGC (h : Counted failed s) (hj : s.calls[j]? = some call)
    (hrunning : call.stage = .running cfId) : Counted failed (s.setCall j call .logging) := by
  refine h.setCall hj ?_ ?_ ?_ (.inl ?_)
  all_goals simp [GcCall.isRunning, GcCall.isPending, hrunning]

/-- The last section of a GC call. -/
theorem Counted.endGC (h : Counted failed s) (hj : s.calls[j]? = some call)
    (hlogging : call.stage = .logging) : Counted failed (s.endGC opts j call) := by
  have hended : Counted failed { s.setCall j call .done with
      bgGcRunning := s.bgGcRunning - 1
      bgGcScheduled := s.bgGcScheduled - 1 } := by
    refine h.setCall hj ?_ ?_ ?_ (.inl ?_)
    all_goals simp [GcCall.isRunning, GcCall.isPending, hlogging]
  unfold GcScheduler.endGC
  split
  · exact hended.maybeScheduleGC
  · exact hended

/-- A new GC call at its wait, from the `Env` or from a test. -/
theorem Counted.newCall (h : Counted failed s) {envQueue : Nat} (hwaiting : call.stage = .waiting)
    (henv : envQueue + call.isPending.toNat = s.envQueue) :
    Counted failed { s with envQueue, calls := s.calls ++ [call] } := by
  have hnot : call.isRunning = false := by
    simp [GcCall.isRunning, hwaiting]
  have hr : (s.calls ++ [call]).countP GcCall.isRunning = s.numRunning := by
    simp [numRunning, hnot]
  have hp : envQueue + (s.calls ++ [call]).countP GcCall.isPending = s.numPending := by
    unfold numPending
    rw [← henv, countP_append, countP_singleton]
    cases call.isPending
    · rfl
    · simp only [Bool.toNat_true, if_true]
      omega
  refine ⟨?_, ?_, h.requests, h.unscheduled, ?_, ?_, h.shut⟩
  · rw [numRunning, hr]
    exact h.running
  · rw [numRunning, numPending, hr, hp]
    exact h.scheduled
  · rw [numPending, hp]
    exact h.queue
  · rw [numRunning, hr]
    exact h.exclusive

-- ==== the drops

/-- A drop moves on. The count of those in progress and the requests
change alike, and it leaves its wait only when no job runs. -/
theorem Counted.setDrop {i : Nat} {d d' : DropStage} {requests : Int}
    {failed' : Nat} (h : Counted failed s) (hi : s.drops[i]? = some d)
    (hrequests : requests + (d.inProgress.toNat + failed)
      = s.dropCfRequests + (d'.inProgress.toNat + failed'))
    (hexclusive : d'.pastWait = true → d.pastWait = true ∨ s.numRunning = 0) :
    Counted failed' { s with
      dropCfRequests := requests, drops := s.drops.set i d' } := by
  have hcount := countP_set_add (p := DropStage.inProgress) hi d'
  refine ⟨h.running, h.scheduled, ?_, h.unscheduled, h.queue, ?_, h.shut⟩
  · have hbefore := h.requests
    show requests = ((s.drops.set i d').countP DropStage.inProgress : Int) + failed'
    unfold numDrops at hbefore
    omega
  · intro e he hpast
    rcases mem_or_eq_of_mem_set he with he | rfl
    · exact h.exclusive e he hpast
    · rcases hexclusive hpast with hbefore | hzero
      · exact h.exclusive d (mem_of_getElem? hi) hbefore
      · exact hzero

/-- A call of `DropColumnFamilies`. -/
theorem Counted.newDrop (h : Counted failed s) : Counted failed { s with
      dropCfRequests := s.dropCfRequests + 1
      drops := s.drops ++ [if s.bgGcRunning > 0 then .waiting else .dropping] } := by
  have hrunning := h.running
  refine ⟨hrunning, h.scheduled, ?_, h.unscheduled, h.queue, ?_, h.shut⟩
  · have hbefore := h.requests
    have hone : DropStage.inProgress
        (if s.bgGcRunning > 0 then .waiting else .dropping) = true := by
      split <;> rfl
    simp only [numDrops, countP_append, countP_singleton, hone, if_true] at hbefore ⊢
    omega
  · intro d hd hpast
    rcases mem_append.1 hd with hd | hd
    · exact h.exclusive d hd hpast
    · rw [mem_singleton.1 hd] at hpast
      show s.numRunning = 0
      split at hpast
      case isTrue => cases hpast
      case isFalse hidle => omega

-- ==== the run

/-- The step is a drop that the base DB refuses. -/
def Act.isFailedDrop : Act → Bool
  | .dropBase _ status => !status.isOk
  | _ => false

/-- What a step finds and what it leaves. -/
inductive Stepped (opts : GcSchedulingOptions) (s : GcScheduler) : Act → GcScheduler → Prop
  | addToGCQueue (cfId : UInt32) : Stepped opts s (.addToGCQueue cfId) (s.addToGCQueue cfId)
  | maybeScheduleGC : Stepped opts s .maybeScheduleGC (s.maybeScheduleGC opts)
  | testStartGC (cfId : UInt32) :
      Stepped opts s (.testStartGC cfId) { s with
        calls := s.calls ++ [{ test := some cfId, stage := .waiting }] }
  | begin {rest : Nat} (henv : s.envQueue = rest + 1) :
      Stepped opts s .begin { s with
        envQueue := rest, calls := s.calls ++ [{ stage := .waiting }] }
  | start {j : Nat} {call : GcCall} (hj : s.calls[j]? = some call)
      (hwaiting : call.stage = .waiting)
      (hrequests : ¬ s.dropCfRequests > 0) :
      Stepped opts s (.start j) (s.startGC opts j call)
  | finish {j : Nat} {call : GcCall} {cfId : UInt32}
      (hj : s.calls[j]? = some call) (hrunning : call.stage = .running cfId)
      (requeue : Bool) :
      Stepped opts s (.finish j requeue)
        (if requeue then (s.setCall j call .logging).addToGCQueue cfId
          else s.setCall j call .logging)
  | «end» {j : Nat} {call : GcCall} (hj : s.calls[j]? = some call)
      (hlogging : call.stage = .logging) :
      Stepped opts s (.end j) (s.endGC opts j call)
  | drop : Stepped opts s .drop { s with
      dropCfRequests := s.dropCfRequests + 1
      drops := s.drops ++ [if s.bgGcRunning > 0 then .waiting else .dropping] }
  | dropWaited {i : Nat} (hi : s.drops[i]? = some .waiting) (hidle : ¬ s.bgGcRunning > 0) :
      Stepped opts s (.dropWaited i) { s with drops := s.drops.set i .dropping }
  | dropBase {i : Nat} (hi : s.drops[i]? = some .dropping) (status : Status) :
      Stepped opts s (.dropBase i status) { s with
        drops := s.drops.set i (if status.isOk then .marking else .done) }
  | dropMark {i : Nat} (hi : s.drops[i]? = some .marking) (status : Status) :
      Stepped opts s (.dropMark i status) { s with
        dropCfRequests := s.dropCfRequests - 1
        drops := s.drops.set i .done }
  | shutDown (hclose : s.close = .notCalled) :
      Stepped opts s .shutDown { s with shutingDown := true, close := .shutDown }
  | unschedule (hclose : s.close = .shutDown) :
      Stepped opts s .unschedule { s with envQueue := 0, close := .unscheduled s.envQueue }
  | closeSubtract {count : Nat} (hclose : s.close = .unscheduled count) :
      Stepped opts s .closeSubtract { s with
        bgGcScheduled := s.bgGcScheduled - count, close := .waiting }
  | closeWaited (hclose : s.close = .waiting) (hidle : ¬ s.bgGcScheduled > 0) :
      Stepped opts s .closeWaited { s with close := .closed }

theorem stepped (hstep : s.step opts a = some t) : Stepped opts s a t := by
  cases a with
  | addToGCQueue cfId =>
    cases hstep
    exact .addToGCQueue cfId
  | maybeScheduleGC =>
    cases hstep
    exact .maybeScheduleGC
  | testStartGC cfId =>
    cases hstep
    exact .testStartGC cfId
  | begin =>
    unfold GcScheduler.step at hstep
    cases henv : s.envQueue with
    | zero => simp [henv] at hstep
    | succ rest =>
      simp only [henv, some.injEq] at hstep
      exact hstep ▸ .begin henv
  | start j =>
    unfold GcScheduler.step at hstep
    cases hj : s.calls[j]? with
    | none => simp [hj] at hstep
    | some call =>
      simp only [hj, ite_none_right_eq_some, some.injEq] at hstep
      obtain ⟨⟨hwaiting, hrequests⟩, rfl⟩ := hstep
      exact .start hj hwaiting hrequests
  | finish j requeue =>
    unfold GcScheduler.step at hstep
    cases hj : s.calls[j]? with
    | none => simp [hj] at hstep
    | some call =>
      cases hstage : call.stage with
      | running cfId =>
        simp only [hj, hstage, some.injEq] at hstep
        exact hstep ▸ .finish hj hstage requeue
      | _ => simp [hj, hstage] at hstep
  | «end» j =>
    unfold GcScheduler.step at hstep
    cases hj : s.calls[j]? with
    | none => simp [hj] at hstep
    | some call =>
      simp only [hj, ite_none_right_eq_some, some.injEq] at hstep
      obtain ⟨hlogging, rfl⟩ := hstep
      exact .end hj hlogging
  | drop =>
    cases hstep
    exact .drop
  | closeSubtract =>
    unfold GcScheduler.step at hstep
    cases hclose : s.close with
    | unscheduled count =>
      simp only [hclose, some.injEq] at hstep
      exact hstep ▸ .closeSubtract hclose
    | _ => simp [hclose] at hstep
  | _ =>
    simp only [GcScheduler.step, ite_none_right_eq_some, some.injEq] at hstep
    obtain ⟨hguard, rfl⟩ := hstep
    first
      | exact .dropWaited hguard.1 hguard.2
      | exact .dropBase hguard _
      | exact .dropMark hguard _
      | exact .shutDown hguard
      | exact .unschedule hguard
      | exact .closeWaited hguard.1 hguard.2

/-- One step. -/
theorem Counted.step (h : Counted failed s) (hstep : s.step opts a = some t) :
    Counted (failed + a.isFailedDrop.toNat) t := by
  cases stepped hstep with
  | addToGCQueue cfId => exact h.addToGCQueue cfId
  | maybeScheduleGC => exact h.maybeScheduleGC
  | testStartGC cfId => exact h.newCall rfl rfl
  | begin henv => exact h.newCall rfl henv.symm
  | start hj hwaiting hrequests => exact h.startGC hj hwaiting hrequests
  | finish hj hrunning requeue =>
    have hfinished := h.finishGC hj hrunning
    split
    · exact hfinished.addToGCQueue _
    · exact hfinished
  | «end» hj hlogging => exact h.endGC hj hlogging
  | drop => exact h.newDrop
  | dropWaited hi hidle =>
    have hrunning := h.running
    exact h.setDrop hi rfl fun _ => .inr (by omega)
  | dropBase hi status =>
    refine h.setDrop hi ?_ fun _ => .inl rfl
    cases hok : status.isOk with
    | false =>
      simp [Act.isFailedDrop, DropStage.inProgress, hok]
      omega
    | true => simp [Act.isFailedDrop, DropStage.inProgress, hok]
  | dropMark hi status =>
    refine h.setDrop hi ?_ fun hpast => nomatch hpast
    simp [Act.isFailedDrop, DropStage.inProgress]
    omega
  | shutDown hclose =>
    have hscheduled := h.scheduled
    rw [hclose] at hscheduled
    exact ⟨h.running, hscheduled, h.requests, h.unscheduled,
      ⟨h.queue.1, fun hnot => nomatch hnot⟩, h.exclusive, fun hup => nomatch hup⟩
  | unschedule hclose =>
    refine ⟨h.running, ?_, h.requests, h.unscheduled, ⟨?_, fun hnot => nomatch hnot⟩, h.exclusive,
      fun hup => nomatch hclose.symm.trans (h.shut hup)⟩
    · have hscheduled := h.scheduled
      rw [hclose] at hscheduled
      simp only [numPending, numRunning, CloseStage.takenBack] at hscheduled ⊢
      omega
    · have hqueue := h.queue.1
      simp only [numPending] at hqueue ⊢
      omega
  | closeSubtract hclose =>
    refine ⟨h.running, ?_, h.requests, h.unscheduled,
      ⟨h.queue.1, fun hnot => nomatch hnot⟩, h.exclusive,
      fun hup => nomatch hclose.symm.trans (h.shut hup)⟩
    have hscheduled := h.scheduled
    rw [hclose] at hscheduled
    simp only [numPending, numRunning, CloseStage.takenBack] at hscheduled ⊢
    omega
  | closeWaited hclose hidle =>
    have hscheduled := h.scheduled
    rw [hclose] at hscheduled
    exact ⟨h.running, hscheduled, h.requests, h.unscheduled,
      ⟨h.queue.1, fun hnot => nomatch hnot⟩, h.exclusive,
      fun hup => nomatch hclose.symm.trans (h.shut hup)⟩

/-- A run. -/
theorem Counted.exec (h : Counted failed s) (hexec : exec opts s as = some t) :
    Counted (failed + as.countP Act.isFailedDrop) t := by
  induction as generalizing s failed with
  | nil =>
    cases hexec
    exact h
  | cons a as ih =>
    unfold GcScheduler.exec Lib.exec at hexec
    cases hstep : s.step opts a with
    | none => simp [hstep] at hexec
    | some u =>
      rw [hstep] at hexec
      have hrest := ih (h.step hstep) hexec
      rw [countP_cons]
      convert hrest using 1
      cases a.isFailedDrop
      · simp
      · simp only [Bool.toNat_true, if_true]
        omega

theorem counted_exec (hexec : exec opts {} as = some s) :
    Counted (as.countP Act.isFailedDrop) s := by
  have h := counted_init.exec hexec
  rwa [Nat.zero_add] at h

-- ==== exclusion

/-- **A drop excludes GC.** In every interleaving, no GC job runs from
the moment a call of `DropColumnFamilies` leaves its wait until the base
DB has dropped the families and their blob files are marked. -/
theorem drop_excludes_gc {as : List Act} (hexec : exec opts {} as = some s)
    {d : DropStage} (hd : d ∈ s.drops) (hpast : d = .dropping ∨ d = .marking) :
    s.bgGcRunning = 0 ∧ ∀ call ∈ s.calls, call.isRunning = false := by
  have h := counted_exec hexec
  have hzero : s.numRunning = 0 := by
    refine h.exclusive d hd ?_
    rcases hpast with rfl | rfl
    · rfl
    · rfl
  refine ⟨?_, fun call hcall => ?_⟩
  · rw [h.running, hzero]
    rfl
  · exact Bool.eq_false_iff.2 (countP_eq_zero.1 hzero call hcall)

/-- A drop comes while a job runs, and the job requeues its column
family: the drop waits for the job, the next job for the drop. -/
def dropDuringGc : List Act :=
  [.addToGCQueue 1, .maybeScheduleGC, .begin, .start 0, .drop,
    .finish 0 true, .end 0, .begin, .dropWaited 0, .dropBase 0 .ok]

theorem dropDuringGc_excludes :
    ∃ s, exec {} {} dropDuringGc = some s ∧ DropStage.marking ∈ s.drops ∧ s.bgGcRunning = 0 := by
  refine ⟨(exec {} {} dropDuringGc).getD {}, by decide +kernel, by decide +kernel, ?_⟩
  have hexec : exec {} {} dropDuringGc
      = some ((exec {} {} dropDuringGc).getD {}) := by decide +kernel
  exact (drop_excludes_gc hexec (by decide +kernel) (.inr rfl)).1

-- ==== drop requests

/-- A drop was refused by the base DB. -/
theorem countP_isFailedDrop_eq_zero :
    as.countP Act.isFailedDrop = 0 ↔ ∀ i status, .dropBase i status ∈ as → status.isOk = true := by
  rw [countP_eq_zero]
  constructor
  · intro h i status hmem
    have hok := h _ hmem
    simpa [Act.isFailedDrop] using hok
  · intro h a ha
    cases a with
    | dropBase i status => simp [Act.isFailedDrop, h i status ha]
    | _ => exact Bool.false_ne_true

/-- **Drop requests are balanced exactly if the base DB refuses no
drop.** -/
theorem dropRequests_balanced_iff {as : List Act} (hexec : exec opts {} as = some s) :
    s.dropCfRequests = s.numDrops ↔ ∀ i status, .dropBase i status ∈ as → status.isOk = true := by
  rw [← countP_isFailedDrop_eq_zero, (counted_exec hexec).requests]
  omega

/-- After a refused drop no GC call leaves its wait. -/
theorem Counted.start_none (h : Counted failed s) (hfailed : 0 < failed)
    (j : Nat) : s.step opts (.start j) = none := by
  have hrequests := h.requests
  have hpos : s.dropCfRequests > 0 := by omega
  simp only [GcScheduler.step]
  cases s.calls[j]? with
  | none => rfl
  | some call => exact if_neg fun hstart => hstart.2 hpos

/-- A call at its wait stays there after a refused drop. -/
theorem Counted.stays_waiting (h : Counted failed s) (hfailed : 0 < failed)
    (hj : s.calls[j]? = some call) (hwaiting : call.stage = .waiting)
    (hstep : s.step opts a = some t) : t.calls[j]? = some call := by
  have happend : ∀ c : GcCall, (s.calls ++ [c])[j]? = some call := fun c => by
    rw [List.getElem?_append_left (List.getElem?_eq_some_iff.1 hj).1, hj]
  -- a call at another stage is another call
  have hset : ∀ {k : Nat} {c : GcCall} (c' : GcCall), s.calls[k]? = some c →
      c.stage ≠ .waiting → (s.calls.set k c')[j]? = some call := by
    intro k c c' hk hstage
    rw [getElem?_set_ne, hj]
    rintro rfl
    cases hk.symm.trans hj
    exact hstage hwaiting
  cases stepped hstep with
  | maybeScheduleGC =>
    rw [(maybeScheduleGC_frame _).1]
    exact hj
  | testStartGC cfId => exact happend _
  | begin henv => exact happend _
  | start hk hwaits hrequests =>
    have hcounted := h.requests
    exact absurd hrequests (by omega)
  | finish hk hrunning requeue =>
    split
    · exact hset _ hk (by simp [hrunning])
    · exact hset _ hk (by simp [hrunning])
  | «end» hk hlogging =>
    unfold GcScheduler.endGC
    split
    · rw [(maybeScheduleGC_frame _).1]
      exact hset _ hk (by simp [hlogging])
    · exact hset _ hk (by simp [hlogging])
  | _ => exact hj

/-- `Close` returns only when nothing is scheduled. -/
theorem close_of_closed (hstep : s.step opts a = some t) (hclosed : t.close = .closed) :
    s.close = .closed ∨ ¬ s.bgGcScheduled > 0 := by
  cases stepped hstep with
  | maybeScheduleGC =>
    rw [(maybeScheduleGC_frame _).2] at hclosed
    exact .inl hclosed
  | start hk hwaiting hrequests =>
    rw [startGC_close] at hclosed
    exact .inl hclosed
  | finish hk hrunning requeue =>
    split at hclosed
    · exact .inl hclosed
    · exact .inl hclosed
  | «end» hk hlogging =>
    rw [endGC_close] at hclosed
    exact .inl hclosed
  | shutDown hclose => cases hclosed
  | unschedule hclose => cases hclosed
  | closeSubtract hclose => cases hclosed
  | closeWaited hclose hidle => exact .inr hidle
  | _ => exact .inl hclosed

/-- After a refused drop neither a GC call at its wait nor `Close` goes
on. -/
theorem Counted.blocked (h : Counted failed s) (hfailed : 0 < failed)
    (hj : s.calls[j]? = some call) (hpending : call.isPending = true)
    (hclose : s.close ≠ .closed) (hexec : GcScheduler.exec opts s as = some t) :
    (∀ k, t.step opts (.start k) = none) ∧ t.close ≠ .closed := by
  have hwaiting : call.stage = .waiting := by
    unfold GcCall.isPending at hpending
    simp only [Bool.and_eq_true, decide_eq_true_eq] at hpending
    exact hpending.2
  induction as generalizing s failed with
  | nil =>
    cases hexec
    exact ⟨h.start_none hfailed, hclose⟩
  | cons a as ih =>
    unfold GcScheduler.exec Lib.exec at hexec
    cases hstep : s.step opts a with
    | none => simp [hstep] at hexec
    | some u =>
      rw [hstep] at hexec
      refine ih (h.step hstep) (by omega) (h.stays_waiting hfailed hj hwaiting hstep) ?_ hexec
      -- `Close` waits for the call, which is counted as scheduled
      intro hclosed
      have hpos : 0 < s.calls.countP GcCall.isPending :=
        countP_pos_iff.2 ⟨call, mem_of_getElem? hj, hpending⟩
      have hscheduled := h.scheduled
      unfold numPending at hscheduled
      rcases close_of_closed hstep hclosed with hbefore | hidle
      · exact hclose hbefore
      · omega

/-- Two drops, one after the other, and both are marked. -/
def dropTwice : List Act :=
  [.drop, .dropBase 0 .ok, .drop, .dropMark 0 .ok, .dropBase 1 .ok,
    .dropMark 1 (.notFound "invalid column family")]

theorem dropTwice_balanced :
    ∃ s, exec {} {} dropTwice = some s ∧ s.drops = [.done, .done] ∧ s.dropCfRequests = 0 := by
  have hexec : exec {} {} dropTwice = some ((exec {} {} dropTwice).getD {}) := by decide +kernel
  refine ⟨_, hexec, by decide +kernel, ?_⟩
  refine ((dropRequests_balanced_iff hexec).2 ?_).trans (by decide +kernel)
  intro i status hmem
  simp only [dropTwice, mem_cons, reduceCtorEq, Act.dropBase.injEq,
    not_mem_nil, or_false, false_or] at hmem
  rcases hmem with ⟨-, rfl⟩ | ⟨-, rfl⟩
  · rfl
  · rfl

/-- A GC call has begun when a drop of the default column family is
refused. -/
def refusedDrop : List Act :=
  [.addToGCQueue 1, .maybeScheduleGC, .drop, .begin,
    .dropBase 0 (.invalidArgument "Can't drop default column family")]

/-- No call is in progress, one request is left, and from there no GC
call ever leaves its wait and `Close` never returns. -/
theorem refusedDrop_blocks :
    ∃ s, exec {} {} refusedDrop = some s ∧ s.numDrops = 0 ∧ s.dropCfRequests = 1
      ∧ ∀ as t, exec {} s as = some t → (∀ k, t.step {} (.start k) = none) ∧ t.close ≠ .closed := by
  have hexec : exec {} {} refusedDrop = some ((exec {} {} refusedDrop).getD {}) := by decide +kernel
  refine ⟨_, hexec, by decide +kernel, by decide +kernel, ?_⟩
  intro as t hrun
  have hcall : ((exec {} {} refusedDrop).getD {}).calls[0]?
      = some { stage := .waiting } := by decide +kernel
  exact (counted_exec hexec).blocked (by decide +kernel) hcall rfl (by decide +kernel) hrun

-- ==== the queue

/-- **GC queue bookkeeping.** Before shutdown the queue holds one request
for each one not scheduled and for each call that is on its way; no
counter is negative, `MaybeScheduleGC` keeps to its bound, and a call of
`BackgroundCallGC` about to start finds a request. -/
theorem gcQueue_bookkeeping {as : List Act} (hexec : exec opts {} as = some s)
    (hup : s.shutingDown = false) :
    (s.gcQueue.length : Int) = s.unscheduledGc + (s.bgGcScheduled - s.bgGcRunning)
      ∧ 0 ≤ s.unscheduledGc ∧ 0 ≤ s.bgGcRunning
      ∧ s.bgGcRunning ≤ s.bgGcScheduled ∧ 0 ≤ s.dropCfRequests
      ∧ ((s.maybeScheduleGC opts).bgGcScheduled = s.bgGcScheduled
        ∨ (s.maybeScheduleGC opts).bgGcScheduled ≤ opts.maxBackgroundGc)
      ∧ ∀ call ∈ s.calls, call.test = none → call.stage = .waiting → s.gcQueue ≠ [] := by
  have h := counted_exec hexec
  have hclose := h.shut hup
  have hqueue := h.queue.2 hclose
  have hrunning := h.running
  have hscheduled := h.scheduled
  have hrequests := h.requests
  rw [hclose] at hscheduled
  simp only [CloseStage.takenBack] at hscheduled
  refine ⟨by omega, h.unscheduled, by omega, by omega, by omega,
    maybeScheduleGC_le s, fun call hcall htest hwaiting => ?_⟩
  obtain ⟨j, hj⟩ := mem_iff_getElem?.1 hcall
  exact h.gcQueue_ne_nil hj (by simp [GcCall.isPending, htest, hwaiting])

/-- Two requests and room for one job, beside a job of a test. -/
def twoRequests : List Act :=
  [.addToGCQueue 1, .addToGCQueue 2, .testStartGC 1, .start 0,
    .maybeScheduleGC, .finish 0 true, .end 0, .maybeScheduleGC, .begin]

theorem twoRequests_bookkeeping :
    ∃ s, exec {} {} twoRequests = some s ∧ s.gcQueue = [1, 2, 1]
      ∧ s.unscheduledGc + (s.bgGcScheduled - s.bgGcRunning) = 3
      ∧ { stage := .waiting } ∈ s.calls := by
  have hexec : exec {} {} twoRequests = some ((exec {} {} twoRequests).getD {}) := by decide +kernel
  refine ⟨_, hexec, by decide +kernel, ?_, by decide +kernel⟩
  refine (gcQueue_bookkeeping hexec (by decide +kernel)).1.symm.trans ?_
  decide +kernel

end GcScheduler

end DiffKV
