/-
Scheduling of GC jobs against drops of column families and `Close`
(`src/db_impl_gc.cc`, `DropColumnFamilies` and `CloseImpl` of
`src/db_impl.cc`).

The shared state is four counters, the queue and the flag
`shuting_down_`. The threads are the calls in progress, each with the
place where it stands. A step is a section under `mutex_`, or the part of
a call between two sections that others can see the end of. A thread
that waits on `bg_cv_` is at the head of its loop; it goes on where the
condition of the loop has become false, so a wakeup that comes too early
or too often is no step of its own.

The counters are of type `int`; they are integers here.
-/
import DiffKV.Format
import DiffKV.Lib.Machine

namespace DiffKV

open Lib

/-- The `TitanDBOptions` of scheduling. -/
structure GcSchedulingOptions where
  disableBackgroundGc : Bool := false
  maxBackgroundGc : Int := 1

/-- Where a call of `BackgroundCallGC` or `TEST_StartGC` stands, once it
has begun. -/
inductive GcCallStage where
  /-- at its wait for the drops -/
  | waiting
  /-- in `BackgroundGC`, for a column family -/
  | running (cfId : UInt32)
  /-- `BackgroundGC` has returned, the log is being flushed -/
  | logging
  | done
  deriving DecidableEq, Repr

/-- A call of `BackgroundCallGC`, or of `TEST_StartGC` for a column
family. -/
structure GcCall where
  test : Option UInt32 := none
  stage : GcCallStage
  deriving DecidableEq, Repr

/-- Where a call of `DropColumnFamilies` stands. -/
inductive DropStage where
  /-- at its wait for the GC jobs -/
  | waiting
  /-- past the wait, at the drop of the base DB -/
  | dropping
  /-- the base DB has dropped them, the blob files are not yet marked -/
  | marking
  | done
  deriving DecidableEq, Repr

/-- Where `CloseImpl` stands. -/
inductive CloseStage where
  | notCalled
  /-- `shuting_down_` is set -/
  | shutDown
  /-- `Env::UnSchedule` has returned -/
  | unscheduled (count : Nat)
  /-- at its wait for the GC jobs -/
  | waiting
  | closed
  deriving DecidableEq, Repr

/-- The counters and the threads. -/
structure GcScheduler where
  gcQueue : List UInt32 := []
  bgGcScheduled : Int := 0
  bgGcRunning : Int := 0
  unscheduledGc : Int := 0
  dropCfRequests : Int := 0
  shutingDown : Bool := false
  /-- the calls of `BackgroundCallGC` that the `Env` has not begun -/
  envQueue : Nat := 0
  calls : List GcCall := []
  drops : List DropStage := []
  close : CloseStage := .notCalled
  deriving DecidableEq, Repr

namespace GcScheduler

variable (opts : GcSchedulingOptions)

-- ==== the queue

/-- `TitanDBImpl::AddToGCQueue`. -/
def addToGCQueue (s : GcScheduler) (cfId : UInt32) : GcScheduler :=
  { s with
    unscheduledGc := s.unscheduledGc + 1
    gcQueue := s.gcQueue ++ [cfId] }

/-- The loop of `MaybeScheduleGC`, for at most so many rounds. -/
def scheduleLoop : Nat → GcScheduler → GcScheduler
  | 0, s => s
  | rounds + 1, s =>
    if s.unscheduledGc > 0 ∧ s.bgGcScheduled < opts.maxBackgroundGc then
      scheduleLoop rounds { s with
        unscheduledGc := s.unscheduledGc - 1
        bgGcScheduled := s.bgGcScheduled + 1
        envQueue := s.envQueue + 1 }
    else s

/-- `TitanDBImpl::MaybeScheduleGC`. Every round takes one from
`unscheduled_gc_`, so there are no more rounds than that. -/
def maybeScheduleGC (s : GcScheduler) : GcScheduler :=
  if opts.disableBackgroundGc then s
  else if s.shutingDown then s
  else scheduleLoop opts s.unscheduledGc.toNat s

-- ==== BackgroundCallGC

/-- A call moves on. -/
def setCall (s : GcScheduler) (j : Nat) (call : GcCall) (stage : GcCallStage) : GcScheduler :=
  { s with calls := s.calls.set j { call with stage } }

/-- The last section of a GC call: of `BackgroundCallGC`, or, without
`MaybeScheduleGC`, of `TEST_StartGC`. -/
def endGC (s : GcScheduler) (j : Nat) (call : GcCall) : GcScheduler :=
  let s := { s.setCall j call .done with
    bgGcRunning := s.bgGcRunning - 1
    bgGcScheduled := s.bgGcScheduled - 1 }
  if call.test.isNone then s.maybeScheduleGC opts else s

/-- A GC call past its wait. `BackgroundCallGC` takes the first column
family of the queue and is at its end if there is none. -/
def startGC (s : GcScheduler) (j : Nat) (call : GcCall) : GcScheduler :=
  let s := { s with bgGcRunning := s.bgGcRunning + 1 }
  match call.test with
  | some cfId =>
    { s.setCall j call (.running cfId) with
      bgGcScheduled := s.bgGcScheduled + 1 }
  | none =>
    match s.gcQueue with
    | [] => s.endGC opts j call
    | cfId :: rest =>
      { s.setCall j call (.running cfId) with gcQueue := rest }

-- ==== the steps

/-- The steps of the threads. -/
inductive Act where
  /-- `AddToGCQueue`, by a completed compaction or a range deletion -/
  | addToGCQueue (cfId : UInt32)
  | maybeScheduleGC
  /-- a call of `TEST_StartGC` -/
  | testStartGC (cfId : UInt32)
  /-- the `Env` begins a call of `BackgroundCallGC` -/
  | begin
  /-- a GC call leaves its wait -/
  | start (j : Nat)
  /-- the end of `BackgroundGC`, which may put its column family back -/
  | finish (j : Nat) (requeue : Bool)
  /-- the last section of a GC call -/
  | «end» (j : Nat)
  /-- a call of `DropColumnFamilies`, up to its wait or past it -/
  | drop
  /-- it leaves its wait -/
  | dropWaited (i : Nat)
  /-- `db_impl_->DropColumnFamilies` returns -/
  | dropBase (i : Nat) (status : Status)
  /-- the section after it, with the status of
  `BlobFileSet::DropColumnFamilies` -/
  | dropMark (i : Nat) (status : Status)
  /-- the first section of `CloseImpl` -/
  | shutDown
  /-- `env_->UnSchedule`, which takes back the calls not begun -/
  | unschedule
  | closeSubtract
  /-- `CloseImpl` leaves its wait -/
  | closeWaited
  deriving DecidableEq, Repr

/-- One step. -/
def step (s : GcScheduler) : Act → Option GcScheduler
  | .addToGCQueue cfId => some (s.addToGCQueue cfId)
  | .maybeScheduleGC => some (s.maybeScheduleGC opts)
  | .testStartGC cfId => some { s with
      calls := s.calls ++ [{ test := some cfId, stage := .waiting }] }
  | .begin =>
    match s.envQueue with
    | 0 => none
    | rest + 1 => some { s with
        envQueue := rest
        calls := s.calls ++ [{ stage := .waiting }] }
  | .start j =>
    match s.calls[j]? with
    | some call =>
      if call.stage = .waiting ∧ ¬ s.dropCfRequests > 0 then
        some (s.startGC opts j call)
      else none
    | none => none
  | .finish j requeue =>
    match s.calls[j]? with
    | some call =>
      match call.stage with
      | .running cfId =>
        let s := s.setCall j call .logging
        some (if requeue then s.addToGCQueue cfId else s)
      | _ => none
    | none => none
  | .end j =>
    match s.calls[j]? with
    | some call =>
      if call.stage = .logging then some (s.endGC opts j call) else none
    | none => none
  | .drop => some { s with
      dropCfRequests := s.dropCfRequests + 1
      drops := s.drops ++ [if s.bgGcRunning > 0 then .waiting else .dropping] }
  | .dropWaited i =>
    if s.drops[i]? = some .waiting ∧ ¬ s.bgGcRunning > 0 then
      some { s with drops := s.drops.set i .dropping }
    else none
  | .dropBase i status =>
    if s.drops[i]? = some .dropping then
      some { s with
        drops := s.drops.set i (if status.isOk then .marking else .done) }
    else none
  | .dropMark i _ =>
    if s.drops[i]? = some .marking then
      some { s with
        dropCfRequests := s.dropCfRequests - 1
        drops := s.drops.set i .done }
    else none
  | .shutDown =>
    if s.close = .notCalled then
      some { s with shutingDown := true, close := .shutDown }
    else none
  | .unschedule =>
    if s.close = .shutDown then
      some { s with envQueue := 0, close := .unscheduled s.envQueue }
    else none
  | .closeSubtract =>
    match s.close with
    | .unscheduled count => some { s with
        bgGcScheduled := s.bgGcScheduled - count
        close := .waiting }
    | _ => none
  | .closeWaited =>
    if s.close = .waiting ∧ ¬ s.bgGcScheduled > 0 then
      some { s with close := .closed }
    else none

/-- A run of the threads. -/
abbrev exec : GcScheduler → List Act → Option GcScheduler :=
  Lib.exec (step opts)

end GcScheduler

end DiffKV
