import Vcass.Core.System
import Vcass.Control.Command

/-!
# The Command Handshake, Access by Access

Three tasks share the fields `command`, `response.command_ack` and `response.status` of a disk:

- the frontend's work item (`vcablk_probe_work`), which looks at the command three times (four times
  for a stop) before it answers, acknowledges, and only then clears the command;
- the backend's work item (`vcablk_bcknd_ftb_work`), which handles acknowledgements and writes
  `CMD_RUN`;
- the backend's control calls, one at a time: opening a disk (`vcablk_bcknd_add_to_devpage` writes
  `CMD_CREATE`), and closing it (`vcablk_bcknd_try_stop_frontend`,
  `vcablk_bcknd_try_destroy_frontend`).

Each step makes at most one access to a shared field.  The work items visit the other disks too, but
they do not touch the fields of this one there.  The device page stays mapped.
-/

namespace Vcass.Control

open Vcass.Core

/-! ## State -/

/-- Where `vcablk_probe_work` is -/
inductive ProbeWork where
  | idle
  /-- a command was seen -/
  | found
  /-- `task = dev->command` -/
  | task (task : Command)
  /-- in the case of a stop, before the look for `CMD_STOP_FORCE` -/
  | stopping (task : Command)
  /-- before `response.status = err` -/
  | handled (task : Command) (err : Int)
  /-- before `response.command_ack = task` -/
  | answered (task : Command) (err : Int)
  /-- before `command = 0` -/
  | acked
deriving DecidableEq

/-- Where `vcablk_bcknd_ftb_work` is -/
inductive FtbWork where
  | idle
  /-- an acknowledgement was seen -/
  | pending
  /-- `err = response->status` -/
  | switching (err : Int)
  /-- case `CMD_CREATE`, before `command_ack = 0`; `bckd` is the disk with this number -/
  | created (disk : Nat) (err : Int)
  /-- before `vcablk_bcknd_disk_start` -/
  | starting (disk : Nat)
  /-- before `command = CMD_RUN` -/
  | running
  /-- case `CMD_RUN` or an unknown one, before `command_ack = 0` -/
  | clearing
deriving DecidableEq

/-- `vcablk_bcknd_try_stop_frontend` or `vcablk_bcknd_try_destroy_frontend` -/
inductive Call where
  | stop (force : Bool)
  | destroy
deriving DecidableEq

def Call.command : Call → Command
  | .stop true => .stopForce
  | .stop false => .stopNormal
  | .destroy => .destroy

inductive Ioctl where
  | idle
  /-- before `command = CMD_CREATE` -/
  | adding
  /-- before `response.status = 0` -/
  | start (call : Call)
  /-- before the `command_ack = 0` of the destroy call -/
  | reset
  /-- before the command is written -/
  | send (call : Call)
  /-- waiting for the acknowledgement of the command with this number -/
  | wait (call : Call) (number : Nat)
  /-- before `err = response.status` -/
  | read (call : Call) (number : Nat)
  /-- before `command_ack = 0` -/
  | ack (call : Call) (number : Nat) (err : Int)
  | ret (call : Call) (number : Nat) (err : Int) (timeout : Bool)
deriving DecidableEq

/-- One execution of a command by the frontend (history) -/
structure Execution where
  number : Nat
  command : Command
  err : Int
deriving DecidableEq

/-- One return of a stop or destroy call (history) -/
structure Return where
  number : Nat
  command : Command
  err : Int
  timeout : Bool
deriving DecidableEq

/-- `struct vcablk_device_ctrl` with its tasks.  The last five fields are history: how many disks were
opened and how many commands were written (so `written` is the number of the latest one), what was
executed, the numbers of the commands that were cleared without having been executed, and the
returns of the calls. -/
structure DeviceCtrl where
  command : Command
  commandAck : Command
  status : Int
  fdev : VcablkDev
  bckd : Option VcablkBckndDisk
  probe : ProbeWork
  ftb : FtbWork
  ioctl : Ioctl
  opened : Nat
  written : Nat
  executed : List Execution
  lost : List Nat
  returns : List Return

def DeviceCtrl.writeCommand (s : DeviceCtrl) (command : Command) : DeviceCtrl :=
  { s with command := command, written := s.written + 1 }

/-! ## The frontend -/

/-- Steps of `vcablk_probe_work` -/
inductive ProbeAct where
  | check
  | task
  | handle (o : Outcome)
  | stop (o : Outcome)
  | status
  | ack
  | clear

/-- `vcablk_handle_task` for a task, with the command that is executed -/
def execute (s : DeviceCtrl) (task command : Command) (o : Outcome) : Option DeviceCtrl :=
  (vcablkHandleTask s.fdev command (command = .stopForce) o).map fun (fdev, err) =>
    { s with
      fdev := fdev
      probe := .handled task err
      executed := s.executed ++ [⟨s.written, command, err⟩] }

/-- `vcablk_probe_work` -/
def vcablkProbeWork (s : DeviceCtrl) : ProbeAct → Option DeviceCtrl
  | .check =>
    if s.probe = .idle ∧ s.command ≠ .none then some { s with probe := .found } else none
  | .task =>
    if s.probe = .found then some { s with probe := .task s.command } else none
  | .handle o =>
    -- the switch reads `command` again, and so may act on another command than `task`
    match s.probe with
    | .task task =>
      match s.command with
      | .stopNormal | .stopForce => some { s with probe := .stopping task }
      | command => execute s task command o
    | _ => none
  | .stop o =>
    match s.probe with
    | .stopping task =>
      execute s task (if s.command = .stopForce then .stopForce else .stopNormal) o
    | _ => none
  | .status =>
    match s.probe with
    | .handled task err => some { s with status := err, probe := .answered task err }
    | _ => none
  | .ack =>
    match s.probe with
    | .answered task _ => some { s with commandAck := task, probe := .acked }
    | _ => none
  | .clear =>
    if s.probe = .acked then
      some { s with
        -- a command written meanwhile is lost here
        command := .none
        probe := .idle
        lost := if s.command ≠ .none ∧ s.written ∉ s.executed.map Execution.number then
            s.lost ++ [s.written]
          else s.lost }
    else none

/-! ## The backend's work item -/

/-- Steps of `vcablk_bcknd_ftb_work` -/
inductive FtbAct where
  | check
  | status
  | switch
  | clearAck
  | start (err : Int)
  | run
deriving DecidableEq

/-- `vcablk_bcknd_ftb_work`; the use of a disk that was freed in the meantime is a crash. -/
def vcablkBckndFtbWork (s : DeviceCtrl) : FtbAct → Option DeviceCtrl
  | .check =>
    if s.ftb = .idle ∧ s.commandAck ≠ .none then some { s with ftb := .pending } else none
  | .status =>
    if s.ftb = .pending then some { s with ftb := .switching s.status } else none
  | .switch =>
    match s.ftb with
    | .switching err =>
      match s.bckd with
      | none => some { s with ftb := .idle }
      | some bckd =>
        match s.commandAck with
        | .create => some { s with ftb := .created bckd.number err }
        | .stopNormal | .stopForce | .destroy => some { s with ftb := .idle }
        | .run | .none => some { s with ftb := .clearing }
    | _ => none
  | .clearAck =>
    match s.ftb with
    | .created disk err =>
      some { s with commandAck := .none, ftb := if err = 0 then .starting disk else .idle }
    | .clearing => some { s with commandAck := .none, ftb := .idle }
    | _ => none
  | .start err =>
    match s.ftb, s.bckd with
    | .starting disk, some bckd =>
      if bckd.number = disk then
        let (bckd, err) := vcablkBckndDiskStart bckd s.fdev.rings err
        some { s with bckd := some bckd, ftb := if err = 0 then .running else .idle }
      else none
    | _, _ => none
  | .run =>
    if s.ftb = .running then some { s.writeCommand .run with ftb := .idle } else none

/-! ## The control calls -/

inductive IoctlAct where
  | open (requestDb : Bool)
  | create
  | close (force : Bool)
  | clearStatus
  | resetAck
  | send
  | wake
  /-- `wait_event_interruptible_timeout` is interrupted by a signal, which is not 0 either -/
  | signal
  | timeout
  | readStatus
  | clearAck
  | return

/-- A call returns to `vcablk_bcknd_destroy`: behind the stop the disk is destroyed unless it is busy,
behind the destroy call it is freed. -/
def callReturns (s : DeviceCtrl) (bckd : VcablkBckndDisk) (call : Call) (number : Nat) (err : Int)
    (timeout : Bool) : DeviceCtrl :=
  match call with
  | .stop force =>
    { s with
      ioctl := if force = false ∧ err = -eBusy then .idle else .start .destroy
      returns := s.returns ++ [⟨number, call.command, err, timeout⟩] }
  | .destroy =>
    -- "Disk %i state not closed!!!"
    let err := if bckd.state ≠ .create then -eIo else err
    { s with
      bckd := none
      ioctl := .idle
      returns := s.returns ++ [⟨number, call.command, err, timeout⟩] }

/-- `vcablk_bcknd_create`, `vcablk_bcknd_destroy` and what they call -/
def vcablkBckndIoctl (s : DeviceCtrl) : IoctlAct → Option DeviceCtrl
  | .open requestDb =>
    if s.ioctl = .idle ∧ s.bckd = none then
      some { s with
        bckd := some (.new s.opened requestDb)
        ioctl := .adding
        opened := s.opened + 1 }
    else none
  | .create =>
    if s.ioctl = .adding then some { s.writeCommand .create with ioctl := .idle } else none
  | .close force =>
    match s.ioctl, s.bckd with
    | .idle, some bckd =>
      some { s with ioctl := .start (if bckd.state = .open then .stop force else .destroy) }
    | _, _ => none
  | .clearStatus =>
    -- only a destroy clears `command_ack` before its command
    match s.ioctl with
    | .start (.stop force) => some { s with status := 0, ioctl := .send (.stop force) }
    | .start .destroy => some { s with status := 0, ioctl := .reset }
    | _ => none
  | .resetAck =>
    if s.ioctl = .reset then some { s with commandAck := .none, ioctl := .send .destroy } else none
  | .send =>
    match s.ioctl with
    | .send call =>
      some { s.writeCommand call.command with ioctl := .wait call (s.written + 1) }
    | _ => none
  | .wake =>
    match s.ioctl with
    | .wait call number =>
      if s.commandAck ≠ .none then some { s with ioctl := .read call number } else none
    | _ => none
  | .signal =>
    -- the wait is interruptible, and goes on as if it had been woken
    match s.ioctl with
    | .wait call number => some { s with ioctl := .read call number }
    | _ => none
  | .timeout =>
    match s.ioctl with
    | .wait call number =>
      if s.commandAck = .none then some { s with ioctl := .ret call number (-eNoDev) true } else none
    | _ => none
  | .readStatus =>
    match s.ioctl with
    | .read call number => some { s with ioctl := .ack call number s.status }
    | _ => none
  | .clearAck =>
    match s.ioctl with
    | .ack call number err =>
      some { s with commandAck := .none, ioctl := .ret call number err false }
    | _ => none
  | .return =>
    match s.ioctl, s.bckd with
    | .ret call number err timeout, some bckd => some (callReturns s bckd call number err timeout)
    | _, _ => none

/-! ## The system -/

inductive ControlAct where
  | probe (a : ProbeAct)
  | ftb (a : FtbAct)
  | ioctl (a : IoctlAct)

def controlStep (s : DeviceCtrl) : ControlAct → Option DeviceCtrl
  | .probe a => vcablkProbeWork s a
  | .ftb a => vcablkBckndFtbWork s a
  | .ioctl a => vcablkBckndIoctl s a

/-- A zeroed entry, no disk on either side -/
def DeviceCtrl.init : DeviceCtrl :=
  { command := .none
    commandAck := .none
    status := 0
    fdev := { disk := none, rings := none, allocated := 0, destroyed := [] }
    bckd := none
    probe := .idle
    ftb := .idle
    ioctl := .idle
    opened := 0
    written := 0
    executed := []
    lost := []
    returns := [] }

/-- The runs of the handshake -/
def controlSystem : System DeviceCtrl ControlAct where
  Init s := s = DeviceCtrl.init
  step := controlStep

/-! ## What the handshake is for -/

/-- No command is cleared without having been executed, and a call that returns without a timeout
returns the status with which its own command was executed. -/
structure HandshakeOk (s : DeviceCtrl) : Prop where
  noLost : s.lost = []
  acknowledged : ∀ r ∈ s.returns, r.timeout = false → ⟨r.number, r.command, r.err⟩ ∈ s.executed

end Vcass.Control
