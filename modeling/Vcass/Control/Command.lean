import Vcass.Core.Kernel

/-!
# Commands of the Block Device Page

The host (backend, `vcablk_bcknd.c`) controls a disk of the card (frontend, `vcablk.c`) through one
entry of a page in the card's memory: the backend writes a command, the frontend executes it, writes
its status and an acknowledgement, and clears the command.

This file holds what the commands do on either side, for one disk id:

- the frontend's disk with its two rings (`vcablk_task_create`, `vcablk_disk_start`,
  `vcablk_disk_stop`, `vcablk_device_destroy_id`, `vcablk_handle_task`);
- the backend's disk, which maps the rings (`vcablk_bcknd_disk_start`).

Rings are numbered in the order of their allocation, so that a ring that was freed is never taken for
a later one at the same address.
-/

namespace Vcass.Control

open Vcass.Core

/-- `CMD_NONE` to `CMD_DESTROY`, the values of `command` and `command_ack` -/
inductive Command where
  | none
  | create
  | run
  | stopNormal
  | stopForce
  | destroy
deriving DecidableEq

/-! ## The frontend's disk -/

/-- `struct vcablk_disk`: its rings, whether it has a `gdisk`, and whether that was added -/
structure VcablkDisk where
  requestRing : Nat
  completionRing : Nat
  gdisk : Bool
  gdiskStarted : Bool
deriving DecidableEq

/-- What the frontend keeps for one disk id.  `rings` are the addresses in `response`.  The last two
fields are history: the number of rings allocated, and the rings destroyed. -/
structure VcablkDev where
  disk : Option VcablkDisk
  rings : Option (Nat × Nat)
  allocated : Nat
  destroyed : List Nat
deriving DecidableEq

/-- How the kernel answers while a command is executed: what `vcablk_task_create` fails with (0 when
nothing fails), whether the disk is held open (`ref_cnt > 0`), and what `add_disk` returns. -/
structure Outcome where
  createErr : Int
  busy : Bool
  addDiskErr : Int

/-- `vcablk_task_create` -/
def vcablkTaskCreate (fdev : VcablkDev) (o : Outcome) : VcablkDev × Int :=
  match fdev.disk with
  | some _ => (fdev, -eBusy)
  | none =>
    if o.createErr ≠ 0 then
      -- deinit_rings
      ({ fdev with rings := none }, o.createErr)
    else
      ({ fdev with
          disk := some
            { requestRing := fdev.allocated
              completionRing := fdev.allocated + 1
              gdisk := true
              gdiskStarted := false }
          rings := some (fdev.allocated, fdev.allocated + 1)
          allocated := fdev.allocated + 2 }, 0)

/-- `vcablk_disk_stop` of a disk that exists -/
def vcablkDiskStop (dev : VcablkDisk) (force : Bool) (o : Outcome) : VcablkDisk × Int :=
  if dev.gdisk = false then
    (dev, 0)
  else if force = false ∧ o.busy = true then
    (dev, -eBusy)
  else
    ({ dev with gdisk := false, gdiskStarted := false }, 0)

/-- `vcablk_device_stop_id` -/
def vcablkDeviceStopId (fdev : VcablkDev) (force : Bool) (o : Outcome) : VcablkDev × Int :=
  match fdev.disk with
  | none => (fdev, 0)
  | some dev =>
    let (dev, err) := vcablkDiskStop dev force o
    ({ fdev with disk := some dev }, err)

/-- `vcablk_device_destroy_id` -/
def vcablkDeviceDestroyId (fdev : VcablkDev) : VcablkDev × Int :=
  match fdev.disk with
  | none => ({ fdev with rings := none }, -eNoDev)
  | some dev =>
    ({ fdev with
        disk := none
        rings := none
        destroyed := fdev.destroyed ++ [dev.requestRing, dev.completionRing] }, 0)

/-- `vcablk_disk_start`; `add_disk` of a null `gdisk` is a crash. -/
def vcablkDiskStart (dev : Option VcablkDisk) (o : Outcome) : Option (Option VcablkDisk × Int) :=
  match dev with
  | none => some (none, -eInval)
  | some dev =>
    if dev.gdiskStarted then
      some (some (vcablkDiskStop dev false o).1, -eInval)
    else if dev.gdisk = false then
      none
    else if o.addDiskErr ≠ 0 then
      some (some (vcablkDiskStop dev false o).1, o.addDiskErr)
    else
      some (some { dev with gdiskStarted := true }, 0)

/-- `CMD_RUN`: a disk that does not start is destroyed at once. -/
def vcablkTaskRun (fdev : VcablkDev) (o : Outcome) : Option (VcablkDev × Int) :=
  (vcablkDiskStart fdev.disk o).map fun (dev, err) =>
    let fdev := { fdev with disk := dev }
    if err ≠ 0 then ((vcablkDeviceDestroyId fdev).1, err) else (fdev, 0)

/-- `vcablk_handle_task`.  `force` is what the second look at `command` says in the case of a stop:
whether it is `CMD_STOP_FORCE`. -/
def vcablkHandleTask (fdev : VcablkDev) (command : Command) (force : Bool) (o : Outcome) :
    Option (VcablkDev × Int) :=
  match command with
  | .create => some (vcablkTaskCreate fdev o)
  | .run => vcablkTaskRun fdev o
  | .stopNormal | .stopForce => some (vcablkDeviceStopId fdev force o)
  | .destroy => some (vcablkDeviceDestroyId fdev)
  | .none => some (fdev, -eIo)

/-! ## The backend's disk -/

/-- `enum disk_state` -/
inductive DiskState where
  | create
  | open
deriving DecidableEq

/-- `struct vcablk_bcknd_disk`: whether it has a request doorbell, and the rings it has mapped.
`number` tells one disk from another that was allocated later (history). -/
structure VcablkBckndDisk where
  number : Nat
  state : DiskState
  requestDb : Bool
  rings : Option (Nat × Nat)
deriving DecidableEq

/-- `vcablk_bcknd_disk_start` with the rings of the response; `err` is what goes wrong behind the
first two checks, or 0. -/
def vcablkBckndDiskStart (bckd : VcablkBckndDisk) (rings : Option (Nat × Nat)) (err : Int) :
    VcablkBckndDisk × Int :=
  if bckd.state ≠ .create then
    (bckd, -eIo)
  else if bckd.requestDb = false then
    (bckd, -eBusy)
  else if err ≠ 0 then
    ({ bckd with requestDb := false, rings := none }, err)
  else
    ({ bckd with state := .open, rings := rings }, 0)

/-- `vcablk_bcknd_disk_create`, with the doorbell of `vcablk_bcknd_disk_prepare_request_db` -/
def VcablkBckndDisk.new (number : Nat) (requestDb : Bool) : VcablkBckndDisk :=
  { number := number, state := .create, requestDb := requestDb, rings := none }

end Vcass.Control
