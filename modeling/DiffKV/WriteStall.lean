/-
The write stall: `TitanDBImpl::Put` blocks while the blob files take more
than `block_write_size`, and waits on `size_cv_` for `block_for_size_` to
be cleared (`src/db_impl.cc`, `src/db_impl_gc.cc`).

Every access to the flag, every lock and every operation on the condition
variable is a step of its own. `Put` holds `size_mutex_` from before its
second test of the flag until it waits. The three calls that clear the
flag hold `mutex_` throughout; `BackgroundGC` and `CloseImpl` take
`size_mutex_` as well before they clear it and signal,
`OnCompactionCompleted` does not.

Which locks are held is where the threads stand. What else the calls do
has no part in the stall and is left out; other holders of `mutex_` would
only delay them. The sizes they read are inputs. A wait may also end
without a signal.
-/
import DiffKV.Format
import DiffKV.Lib.Machine

namespace DiffKV

open Lib

-- ==== the threads

/-- Where a call of `Put` stands. -/
inductive PutStage where
  /-- at the condition of its loop -/
  | test
  /-- at `MutexLock l(&size_mutex_)` -/
  | lock
  /-- at its second test, with `size_mutex_` -/
  | locked
  /-- at `size_cv_.Wait()`, with `size_mutex_` -/
  | wait
  /-- in `Wait`, without `size_mutex_` -/
  | waiting
  /-- in `Wait`, signalled -/
  | woken
  /-- at the end of the loop's body, with `size_mutex_` -/
  | unlock
  /-- past the loop -/
  | passed
  deriving DecidableEq, Repr

/-- The calls that change the flag. -/
inductive ClearingCall where
  | onCompactionCompleted
  | backgroundGC
  | closeImpl
  deriving DecidableEq, Repr

/-- Where one of them stands. -/
inductive ClearingStage where
  /-- at the lock of `mutex_` -/
  | enter
  /-- at its tests -/
  | test
  /-- at `block_for_size_.store(true)` -/
  | raise
  /-- at the lock of `size_mutex_` -/
  | lock
  /-- at `block_for_size_.store(false)` -/
  | clear
  /-- at `size_cv_.SignalAll()` -/
  | signal
  /-- at the end of its hold of `size_mutex_` -/
  | unlock
  /-- at the end of its hold of `mutex_` -/
  | leave
  | done
  deriving DecidableEq, Repr

/-- A call that changes the flag. -/
structure Clearing where
  call : ClearingCall
  stage : ClearingStage
  deriving DecidableEq, Repr

/-- The flag and the threads. -/
structure WriteStall where
  blockForSize : Bool := false
  puts : List PutStage := []
  clearings : List Clearing := []
  deriving DecidableEq, Repr

/-- `Put` holds `size_mutex_`. -/
def PutStage.holdsSize : PutStage → Bool
  | locked | wait | unlock => true
  | test | lock | waiting | woken | passed => false

namespace Clearing

/-- The call holds `mutex_`. -/
def holdsMutex (c : Clearing) : Bool :=
  c.stage ≠ .enter && c.stage ≠ .done

/-- The call holds `size_mutex_`. -/
def holdsSize (c : Clearing) : Bool :=
  c.call ≠ .onCompactionCompleted && (c.stage = .clear || c.stage = .signal || c.stage = .unlock)

end Clearing

namespace WriteStall

/-- No thread holds `size_mutex_`. -/
def sizeFree (s : WriteStall) : Bool :=
  !s.puts.any PutStage.holdsSize && !s.clearings.any Clearing.holdsSize

/-- None of these calls holds `mutex_`. -/
def mutexFree (s : WriteStall) : Bool := !s.clearings.any Clearing.holdsMutex

variable (blockWriteSize : UInt64)

-- ==== the steps

/-- The next place of a `Put`. -/
def nextPut (s : WriteStall) : PutStage → Option PutStage
  | .test =>
    some (if blockWriteSize > 0 && s.blockForSize then .lock else .passed)
  | .lock => if s.sizeFree then some .locked else none
  | .locked => some (if s.blockForSize then .wait else .unlock)
  | .wait => some .waiting
  | .waiting => none
  | .woken => if s.sizeFree then some .unlock else none
  | .unlock => some .test
  | .passed => none

/-- Where the tests of a call lead, with the size it has read. -/
def afterTest (s : WriteStall) (totalSize : UInt64) : ClearingCall → ClearingStage
  | .onCompactionCompleted =>
    if blockWriteSize > 0 then
      if totalSize > blockWriteSize then .raise
      else if s.blockForSize then .clear
      else .leave
    else .leave
  | .backgroundGC =>
    if s.blockForSize && totalSize < blockWriteSize then .lock else .leave
  | .closeImpl => .lock

/-- The next place of a call that changes the flag. -/
def nextClearing (s : WriteStall) (totalSize : UInt64) (c : Clearing) : Option ClearingStage :=
  match c.stage with
  | .enter => if s.mutexFree then some .test else none
  | .test => some (s.afterTest blockWriteSize totalSize c.call)
  | .raise => some .leave
  | .lock => if s.sizeFree then some .clear else none
  | .clear => some .signal
  | .signal =>
    some (if c.call = .onCompactionCompleted then .leave else .unlock)
  | .unlock => some .leave
  | .leave => some .done
  | .done => none

/-- `size_cv_.SignalAll()`. -/
def signalAll (s : WriteStall) : WriteStall :=
  { s with puts := s.puts.map fun p => if p = .waiting then .woken else p }

/-- What a call does to the others where it stands. -/
def effect (s : WriteStall) : ClearingStage → WriteStall
  | .raise => { s with blockForSize := true }
  | .clear => { s with blockForSize := false }
  | .signal => s.signalAll
  | _ => s

/-- The steps of the threads. -/
inductive Action where
  /-- a call of `Put` -/
  | put
  /-- a `Put` goes on -/
  | putNext (i : Nat)
  /-- the wait of a `Put` ends without a signal -/
  | spuriousWakeup (i : Nat)
  /-- a call that changes the flag -/
  | call (call : ClearingCall)
  /-- it goes on; `totalSize` is what its tests read -/
  | callNext (j : Nat) (totalSize : UInt64)
  deriving DecidableEq, Repr

/-- One step. -/
def step (s : WriteStall) : Action → Option WriteStall
  | .put => some { s with puts := s.puts ++ [.test] }
  | .putNext i =>
    match s.puts[i]? with
    | none => none
    | some p =>
      match s.nextPut blockWriteSize p with
      | none => none
      | some p' => some { s with puts := s.puts.set i p' }
  | .spuriousWakeup i =>
    if s.puts[i]? = some .waiting then
      some { s with puts := s.puts.set i .woken }
    else none
  | .call call =>
    some { s with clearings := s.clearings ++ [{ call, stage := .enter }] }
  | .callNext j totalSize =>
    match s.clearings[j]? with
    | none => none
    | some c =>
      match s.nextClearing blockWriteSize totalSize c with
      | none => none
      | some stage =>
        some { s.effect c.stage with
          clearings := s.clearings.set j { c with stage } }

end WriteStall

end DiffKV
