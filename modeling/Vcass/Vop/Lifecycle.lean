import Vcass.Core.System

/-!
# Starting and Stopping a Device

`common_dev_start` marks the device as starting and spawns `common_dev_init_task`.  The task waits
until both ends of the device are ready, sets the transfer mode, installs the ring of DMA items and
spawns the transfer threads:

- `vrd`, `sync_descriptors_read_task`;
- `vdm`, `sync_descriptors_dma_task`, only when writes are made in a thread;
- `vsd`, `spin_for_used_descriptors_task`.

A transfer thread leaves its loop when it reads `cdev->ready` as `VOP_DEV_READY_STATE_STOP`, and
completes its completion.  `common_dev_stop` sets this state, waits for the completions if the state
was `VOP_DEV_READY_STATE_WORK`, and takes the ring away.

Every access to a field of the device is a step of its own.  There is no lock: calls, init tasks and
transfer threads interleave freely, and several calls or init tasks may be under way at once.
-/

namespace Vcass.Vop

open Vcass.Core

/-! ## The state -/

/-- `VOP_DEV_READY_STATE_STOP`, `VOP_DEV_READY_STATE_STARTING`, `VOP_DEV_READY_STATE_WORK` -/
inductive DevReady where
  | stop | starting | work
deriving DecidableEq

/-- The transfer threads, under the names of their tasks -/
inductive Worker where
  | vrd | vdm | vsd
deriving DecidableEq

/-- The threads of one kind, and their completion -/
structure WorkerState where
  /-- threads in their loop -/
  running : Nat
  /-- threads that have left the loop and have not completed yet -/
  leaving : Nat
  /-- how often the completion may be waited for -/
  complete : Nat

inductive InitPhase where
  /-- the first test of `ready` in `sync_descr_wait_for_ready` -/
  | check
  /-- the loop of `sync_descr_wait_for_ready` -/
  | sleep
  /-- the last test of `ready` in `sync_descr_wait_for_ready` -/
  | recheck
  /-- `common_dev_init_mode` -/
  | mode
  /-- `buffer_dma_ring_init` up to `cdev->buffers_ring = ring` -/
  | ring
  /-- `buffer_dma_ring_items_alloc` -/
  | items
  /-- `kthread_run_on_node` for a transfer thread -/
  | run (w : Worker)
  /-- `cdev->ready = VOP_DEV_READY_STATE_WORK` -/
  | work
  /-- the completions of the error path -/
  | err (w : Worker)

/-- The next access of a call of `common_dev_start` or `common_dev_stop` -/
inductive CallPhase where
  /-- `if (cdev->ready) return 0` -/
  | startCheck
  /-- `reinit_completion`, `feature_desc_alignment = false` -/
  | startReinit
  /-- `cdev->ready = VOP_DEV_READY_STATE_STARTING` -/
  | startReady
  /-- `kthread_run(common_dev_init_task, …)` -/
  | startRun
  /-- `if (!cdev->ready) return` -/
  | stopCheck
  /-- `ready_old = cdev->ready` -/
  | stopRead
  /-- `cdev->ready = VOP_DEV_READY_STATE_STOP` -/
  | stopWrite (readyOld : DevReady)
  /-- `wait_for_completion_interruptible` -/
  | stopWait (w : Worker)
  /-- `buffer_dma_ring_deinit`, `cdev->buffers_ring = NULL` -/
  | stopDeinit

/-- The fields of `struct vop_dev_common` that the calls and the tasks share, the init tasks under
way, and whether the last call that ended was a stop -/
structure DevCommon where
  ready : DevReady
  featureDescAlignment : Bool
  writeInThread : Bool
  /-- `buffers_ring` is not `NULL` -/
  buffersRing : Bool
  workers : Worker → WorkerState
  inits : List InitPhase
  /-- a stop has returned, and no start was called since -/
  stopped : Bool

structure Lifecycle where
  dev : DevCommon
  calls : List CallPhase

def DevCommon.setWorker (d : DevCommon) (w : Worker) (f : WorkerState → WorkerState) : DevCommon :=
  { d with workers := Function.update d.workers w (f (d.workers w)) }

/-- `complete` -/
def WorkerState.signal (t : WorkerState) : WorkerState := { t with complete := t.complete + 1 }

def WorkerState.spawn (t : WorkerState) : WorkerState := { t with running := t.running + 1 }

/-! ## The steps -/

/-- What decides a step of an init task: whether both ends of the device are ready, whether the peer
offers the alignment feature, and whether an allocation or a spawn succeeds -/
structure InitInput where
  devicesReady : Bool
  alignment : Bool
  ok : Bool

/-- `kthread_run_on_node`, whose result is not looked at -/
def kthreadRun (d : DevCommon) (w : Worker) (ok : Bool) : DevCommon :=
  if ok then d.setWorker w WorkerState.spawn else d

/-- `common_dev_init_task`; a task without a next phase has ended. -/
def commonDevInitTask (d : DevCommon) (inp : InitInput) : InitPhase → DevCommon × Option InitPhase
  | .check => if d.ready = .stop then (d, some (.err .vrd)) else (d, some .sleep)
  | .sleep =>
    if inp.devicesReady = true ∨ d.ready = .stop then (d, some .recheck) else (d, some .sleep)
  | .recheck => if d.ready = .stop then (d, some (.err .vrd)) else (d, some .mode)
  | .mode =>
    -- the read task writes itself when the descriptors are aligned
    ({ d with featureDescAlignment := inp.alignment, writeInThread := !inp.alignment }, some .ring)
  | .ring =>
    if inp.ok then ({ d with buffersRing := true }, some .items)
    else ({ d with buffersRing := false }, none)
  | .items =>
    if d.featureDescAlignment = true ∨ inp.ok = true then (d, some (.run .vrd))
    else ({ d with buffersRing := false }, none)
  | .run .vrd => (kthreadRun d .vrd inp.ok, some (.run .vdm))
  | .run .vdm => (if d.writeInThread then kthreadRun d .vdm inp.ok else d, some (.run .vsd))
  | .run .vsd => (kthreadRun d .vsd inp.ok, some .work)
  | .work => ({ d with ready := .work }, none)
  | .err .vrd => (d.setWorker .vrd WorkerState.signal, some (.err .vdm))
  | .err .vdm =>
    (if d.writeInThread then d.setWorker .vdm WorkerState.signal else d, some (.err .vsd))
  | .err .vsd => (d.setWorker .vsd WorkerState.signal, none)

/-- `reinit_completion` of all completions -/
def DevCommon.reinit (d : DevCommon) : DevCommon :=
  { d with workers := fun w => { d.workers w with complete := 0 } }

def DevCommon.return (d : DevCommon) : DevCommon := { d with stopped := true }

/-- The thread that `common_dev_stop` waits for next -/
def nextWait (d : DevCommon) : Worker → CallPhase
  | .vrd => if d.writeInThread then .stopWait .vdm else .stopWait .vsd
  | .vdm => .stopWait .vsd
  | .vsd => .stopDeinit

/-- How a step of a call goes: `ok` for a spawn, `signal` for an interrupted wait -/
structure CallInput where
  ok : Bool
  signal : Bool

/-- `common_dev_start` and `common_dev_stop`; a call without a next phase has returned. -/
def commonDevCall (d : DevCommon) (inp : CallInput) :
    CallPhase → Option (DevCommon × Option CallPhase)
  | .startCheck => if d.ready = .stop then some (d, some .startReinit) else some (d, none)
  | .startReinit => some ({ d.reinit with featureDescAlignment := false }, some .startReady)
  | .startReady => some ({ d with ready := .starting }, some .startRun)
  | .startRun => some (if inp.ok then { d with inits := d.inits ++ [.check] } else d, none)
  | .stopCheck => if d.ready = .stop then some (d.return, none) else some (d, some .stopRead)
  | .stopRead => some (d, some (.stopWrite d.ready))
  | .stopWrite readyOld =>
    some ({ d with ready := .stop },
      some (if readyOld = .work then .stopWait .vrd else .stopDeinit))
  | .stopWait w =>
    if inp.signal then some (d, some .stopDeinit)
    else if (d.workers w).complete = 0 then none
    else some (d.setWorker w (fun t => { t with complete := t.complete - 1 }), some (nextWait d w))
  | .stopDeinit => some ({ d with buffersRing := false }.return, none)

/-- Put the next phase in the place of the old one; nothing is left of what has ended. -/
def replacePhase {P : Type*} (l : List P) (i : Nat) : Option P → List P
  | some p => l.set i p
  | none => l.eraseIdx i

inductive LifeAct where
  /-- `common_dev_start` is called -/
  | start
  /-- `common_dev_stop` is called -/
  | stop
  /-- a call makes its next access -/
  | call (i : Nat) (inp : CallInput)
  /-- an init task makes its next access -/
  | init (i : Nat) (inp : InitInput)
  /-- a transfer thread finds the device stopped -/
  | leave (w : Worker)
  /-- a transfer thread completes its completion and ends -/
  | complete (w : Worker)

def lifeStep (s : Lifecycle) : LifeAct → Option Lifecycle
  | .start => some { dev := { s.dev with stopped := false }, calls := s.calls ++ [.startCheck] }
  | .stop => some { s with calls := s.calls ++ [.stopCheck] }
  | .call i inp =>
    match s.calls[i]? with
    | none => none
    | some p =>
      (commonDevCall s.dev inp p).map fun r =>
        { dev := r.1, calls := replacePhase s.calls i r.2 }
  | .init i inp =>
    match s.dev.inits[i]? with
    | none => none
    | some p =>
      let r := commonDevInitTask s.dev inp p
      some { s with dev := { r.1 with inits := replacePhase r.1.inits i r.2 } }
  | .leave w =>
    -- a thread sees `ready = STOP` at the head of its loop
    if s.dev.ready = .stop ∧ 0 < (s.dev.workers w).running then
      some { s with dev := s.dev.setWorker w fun t =>
        { t with running := t.running - 1, leaving := t.leaving + 1 } }
    else none
  | .complete w =>
    if 0 < (s.dev.workers w).leaving then
      some { s with dev := s.dev.setWorker w fun t =>
        WorkerState.signal { t with leaving := t.leaving - 1 } }
    else none

/-- The device as `common_dev_init` leaves it -/
def Lifecycle.initial : Lifecycle where
  dev :=
    { ready := .stop
      featureDescAlignment := false
      writeInThread := false
      buffersRing := false
      workers := fun _ => ⟨0, 0, 0⟩
      inits := []
      stopped := false }
  calls := []

def lifeSystem : System Lifecycle LifeAct where
  Init s := s = .initial
  step := lifeStep

/-! ## The property -/

/-- The transfer threads of one kind that still run -/
def DevCommon.alive (d : DevCommon) (w : Worker) : Nat :=
  (d.workers w).running + (d.workers w).leaving

/-- No transfer thread runs and no ring is installed. -/
def DevCommon.Down (d : DevCommon) : Prop :=
  (∀ w, d.alive w = 0) ∧ d.buffersRing = false

/-- **Stop is final**: after a stop has returned and until the next start is called, the device is
stopped and down. -/
def StopFinal (s : Lifecycle) : Prop :=
  s.dev.stopped = true → s.dev.ready = .stop ∧ s.dev.Down

end Vcass.Vop
