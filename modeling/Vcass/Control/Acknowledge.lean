import Vcass.Control.Handshake

/-!
# When the Handshake Keeps Its Promise

The fields carry no sequence number.  The frontend acknowledges a command before it clears it, and
the backend takes any acknowledgement for its own, so that

- a command written between the acknowledgement and the clearing is lost;
- a stop returns at once when an older acknowledgement is still there;
- a signal ends the wait as if it were an acknowledgement;
- the destroy call returns `-EIO` for an open disk, whatever the frontend answered.

When none of this happens (`Orderly`), the promise is kept: `handshakeOk_of_orderly`.
-/

namespace Vcass.Control

open Vcass.Core Option DeviceCtrl

/-! ## The condition -/

/-- Nothing is left of an earlier command. -/
def DeviceCtrl.Settled (s : DeviceCtrl) : Prop :=
  s.command = .none ∧ s.commandAck = .none ∧ s.probe = .idle

/-- The call has written its command and has not taken the answer yet. -/
def Ioctl.awaits : Ioctl → Bool
  | .wait _ _ | .read _ _ | .ack _ _ _ => true
  | _ => false

/-- When a destroy call returns without a timeout, the disk is not open, or the status is `-EIO`. -/
def DeviceCtrl.closed (s : DeviceCtrl) : Bool :=
  match s.ioctl, s.bckd with
  | .ret .destroy _ err false, some bckd => bckd.state = .create || err = -eIo
  | _, _ => true

/-- Commands are written one after the other, no signal interrupts a wait, and the destroy call returns
for a disk that is not open. -/
def Orderly (s : DeviceCtrl) (a : ControlAct) (_ : DeviceCtrl) : Prop :=
  match a with
  | .ioctl .create => s.Settled
  | .ioctl .send => s.Settled
  | .ftb .run => s.Settled ∧ s.ioctl.awaits = false
  | .ioctl .signal => False
  | .ioctl .return => s.closed = true
  | _ => True

instance (s : DeviceCtrl) : Decidable s.Settled :=
  inferInstanceAs (Decidable (_ ∧ _ ∧ _))

instance (s : DeviceCtrl) (a : ControlAct) (s' : DeviceCtrl) : Decidable (Orderly s a s') :=
  match a with
  | .ioctl .create | .ioctl .send => inferInstanceAs (Decidable s.Settled)
  | .ftb .run => inferInstanceAs (Decidable (s.Settled ∧ s.ioctl.awaits = false))
  | .ioctl .signal => inferInstanceAs (Decidable False)
  | .ioctl .return => inferInstanceAs (Decidable (s.closed = true))
  | .probe _ | .ftb .check | .ftb .status | .ftb .switch | .ftb .clearAck | .ftb (.start _)
  | .ioctl (.open _) | .ioctl (.close _) | .ioctl .clearStatus | .ioctl .resetAck | .ioctl .wake
  | .ioctl .timeout | .ioctl .readStatus | .ioctl .clearAck => inferInstanceAs (Decidable True)

/-! ## What the steps do -/

/-- The transitions of `vcablk_probe_work` -/
inductive ProbeStep (s : DeviceCtrl) : DeviceCtrl → Prop where
  | check (idle : s.probe = .idle) (command : s.command ≠ .none) :
      ProbeStep s { s with probe := .found }
  | task (found : s.probe = .found) : ProbeStep s { s with probe := .task s.command }
  | choose {task : Command} (at_task : s.probe = .task task)
      (stop : s.command = .stopNormal ∨ s.command = .stopForce) :
      ProbeStep s { s with probe := .stopping task }
  | execute {task command : Command} {fdev : VcablkDev} {err : Int}
      (phase : s.probe = .task task ∧ command = s.command ∨
        s.probe = .stopping task ∧
          command = if s.command = .stopForce then .stopForce else .stopNormal) :
      ProbeStep s { s with
        fdev := fdev
        probe := .handled task err
        executed := s.executed ++ [⟨s.written, command, err⟩] }
  | status {task : Command} {err : Int} (at_handled : s.probe = .handled task err) :
      ProbeStep s { s with status := err, probe := .answered task err }
  | ack {task : Command} {err : Int} (at_answered : s.probe = .answered task err) :
      ProbeStep s { s with commandAck := task, probe := .acked }
  | clear (at_acked : s.probe = .acked) :
      ProbeStep s { s with
        command := .none
        probe := .idle
        lost := if s.command ≠ .none ∧ s.written ∉ s.executed.map Execution.number then
            s.lost ++ [s.written]
          else s.lost }

variable {s s' : DeviceCtrl}

theorem execute_eq_some {task command : Command} {o : Outcome}
    (h : execute s task command o = some s') : ∃ fdev err, s' = { s with
      fdev := fdev
      probe := .handled task err
      executed := s.executed ++ [⟨s.written, command, err⟩] } := by
  obtain ⟨⟨fdev, err⟩, -, rfl⟩ := Option.map_eq_some_iff.mp h
  exact ⟨fdev, err, rfl⟩

theorem probeStep_cases {a : ProbeAct} (h : vcablkProbeWork s a = some s') : ProbeStep s s' := by
  cases a with
  | check =>
    simp only [vcablkProbeWork, ite_none_right_eq_some, Option.some.injEq] at h
    obtain ⟨⟨hidle, hcommand⟩, rfl⟩ := h
    exact .check hidle hcommand
  | task =>
    simp only [vcablkProbeWork, ite_none_right_eq_some, Option.some.injEq] at h
    obtain ⟨hfound, rfl⟩ := h
    exact .task hfound
  | handle o =>
    simp only [vcablkProbeWork] at h
    split at h
    case h_1 task hprobe =>
      split at h
      case h_1 hcommand =>
        cases h
        exact .choose hprobe (.inl hcommand)
      case h_2 hcommand =>
        cases h
        exact .choose hprobe (.inr hcommand)
      case h_3 =>
        obtain ⟨fdev, err, rfl⟩ := execute_eq_some h
        exact .execute (.inl ⟨hprobe, rfl⟩)
    case h_2 => cases h
  | stop o =>
    simp only [vcablkProbeWork] at h
    split at h
    case h_1 task hprobe =>
      obtain ⟨fdev, err, rfl⟩ := execute_eq_some h
      exact .execute (.inr ⟨hprobe, rfl⟩)
    case h_2 => cases h
  | status =>
    simp only [vcablkProbeWork] at h
    split at h <;> cases h
    exact .status ‹_›
  | ack =>
    simp only [vcablkProbeWork] at h
    split at h <;> cases h
    exact .ack ‹_›
  | clear =>
    simp only [vcablkProbeWork, ite_none_right_eq_some, Option.some.injEq] at h
    obtain ⟨hprobe, rfl⟩ := h
    exact .clear hprobe

/-- What the backend's work item leaves alone: it may clear the acknowledgement, and it writes a
command in its last step only. -/
structure FtbFrame (s : DeviceCtrl) (a : FtbAct) (s' : DeviceCtrl) : Prop where
  command : a ≠ .run → s'.command = s.command ∧ s'.written = s.written
  run : a = .run → s'.written = s.written + 1
  commandAck : s'.commandAck = s.commandAck ∨ s'.commandAck = .none
  status : s'.status = s.status
  probe : s'.probe = s.probe
  ioctl : s'.ioctl = s.ioctl
  executed : s'.executed = s.executed
  lost : s'.lost = s.lost
  returns : s'.returns = s.returns

theorem ftbFrame {a : FtbAct} (h : vcablkBckndFtbWork s a = some s') : FtbFrame s a s' := by
  cases a with
  | check | status =>
    simp only [vcablkBckndFtbWork, ite_none_right_eq_some, Option.some.injEq] at h
    obtain ⟨-, rfl⟩ := h
    constructor <;> simp
  | switch =>
    simp only [vcablkBckndFtbWork] at h
    -- all branches move the work item only
    split at h
    · split at h
      · cases h
        constructor <;> simp
      · split at h <;> cases h <;> constructor <;> simp
    · cases h
  | clearAck =>
    simp only [vcablkBckndFtbWork] at h
    split at h <;> cases h <;> constructor <;> simp
  | start err =>
    simp only [vcablkBckndFtbWork] at h
    split at h
    · split at h <;> cases h
      constructor <;> simp
    · cases h
  | run =>
    simp only [vcablkBckndFtbWork, ite_none_right_eq_some, Option.some.injEq] at h
    obtain ⟨-, rfl⟩ := h
    constructor <;> simp [writeCommand]

/-! ## The invariant -/

/-- The frontend works on the command that stands in the field. -/
def ProbeOk (s : DeviceCtrl) : Prop :=
  match s.probe with
  | .idle => True
  | .found => s.command ≠ .none
  | .task task => s.command = task
  | .stopping task => s.command = task ∧ (task = .stopNormal ∨ task = .stopForce)
  | .handled task err | .answered task err =>
    s.command = task ∧ ⟨s.written, task, err⟩ ∈ s.executed
  | .acked => ∃ err, ⟨s.written, s.command, err⟩ ∈ s.executed

/-- The frontend is done with this command, and `status` is its answer. -/
def Served (s : DeviceCtrl) (number : Nat) (command : Command) : Prop :=
  (s.probe = .acked ∨ s.probe = .idle ∧ s.command = .none) ∧ ⟨number, command, s.status⟩ ∈ s.executed

/-- The frontend has not acknowledged this command yet, which stands in the field. -/
def Unserved (s : DeviceCtrl) (command : Command) : Prop :=
  s.commandAck = .none ∧ s.command = command ∧ s.probe ≠ .acked ∧
    ∀ task err, s.probe = .answered task err → s.status = err

def CallOk (s : DeviceCtrl) : Prop :=
  match s.ioctl with
  | .wait call number =>
    s.written = number ∧ (Served s number call.command ∨ Unserved s call.command)
  | .read call number => Served s number call.command
  | .ack call number err => ⟨number, call.command, err⟩ ∈ s.executed
  | .ret call number err timeout => timeout = false → ⟨number, call.command, err⟩ ∈ s.executed
  | _ => True

/-- What holds in every state of an orderly run -/
structure HandshakeInv (s : DeviceCtrl) : Prop where
  probe : ProbeOk s
  call : CallOk s
  ok : HandshakeOk s

section

variable {s s' : DeviceCtrl}

section

variable (h : ProbeStep s s')

include h

/-- `vcablk_probe_work` works on one command at a time. -/
theorem ProbeStep.probeOk (ok : ProbeOk s) : ProbeOk s' := by
  cases h with
  | check idle command => exact command
  | task found => exact rfl
  | choose at_task stop =>
    simp only [ProbeOk, at_task] at ok
    exact ⟨ok, ok ▸ stop⟩
  | @execute task command fdev err phase =>
    -- the command that is executed is the task
    rcases phase with ⟨hprobe, rfl⟩ | ⟨hprobe, rfl⟩
    · simp only [ProbeOk, hprobe] at ok
      simp [ProbeOk, ok]
    · simp only [ProbeOk, hprobe] at ok
      obtain ⟨hcommand, rfl | rfl⟩ := ok
      · simp [ProbeOk, hcommand]
      · simp [ProbeOk, hcommand]
  | status at_handled =>
    simp only [ProbeOk, at_handled] at ok
    exact ok
  | @ack task err at_answered =>
    simp only [ProbeOk, at_answered] at ok
    obtain ⟨rfl, hmem⟩ := ok
    exact ⟨err, hmem⟩
  | clear at_acked => exact trivial

theorem ProbeStep.lost_eq (ok : ProbeOk s) : s'.lost = s.lost := by
  cases h with
  | clear at_acked =>
    simp only [ProbeOk, at_acked] at ok
    obtain ⟨err, hmem⟩ := ok
    have hnumber : s.written ∈ s.executed.map Execution.number := List.mem_map.mpr ⟨_, hmem, rfl⟩
    simp [hnumber]
  | _ => rfl

theorem ProbeStep.executed_subset : s.executed ⊆ s'.executed := by
  cases h with
  | execute phase => exact List.subset_append_left _ _
  | _ => exact List.Subset.refl _

theorem ProbeStep.frame : s'.ioctl = s.ioctl ∧ s'.written = s.written ∧ s'.returns = s.returns := by
  cases h <;> exact ⟨rfl, rfl, rfl⟩

theorem ProbeStep.served {number : Nat} {command : Command}
    (hserved : Served s number command) : Served s' number command := by
  obtain ⟨hphase, hmem⟩ := hserved
  cases h with
  | check idle hcommand =>
    rcases hphase with hacked | ⟨-, hnone⟩
    · simp [idle] at hacked
    · exact absurd hnone hcommand
  | clear at_acked => exact ⟨.inr ⟨rfl, rfl⟩, hmem⟩
  | task found => simp [found] at hphase
  | choose at_task stop => simp [at_task] at hphase
  | execute phase =>
    rcases phase with ⟨hprobe, -⟩ | ⟨hprobe, -⟩
    · simp [hprobe] at hphase
    · simp [hprobe] at hphase
  | status at_handled => simp [at_handled] at hphase
  | ack at_answered => simp [at_answered] at hphase

theorem ProbeStep.unserved (ok : ProbeOk s) {command : Command}
    (hunserved : Unserved s command) : Served s' s.written command ∨ Unserved s' command := by
  obtain ⟨hack, hcommand, hprobe, hstatus⟩ := hunserved
  cases h with
  | check | task | choose | execute => exact .inr ⟨hack, hcommand, by simp, by simp⟩
  | status at_handled =>
    refine .inr ⟨hack, hcommand, by simp, ?_⟩
    rintro task err ⟨⟩
    rfl
  | @ack task err at_answered =>
    simp only [ProbeOk, at_answered] at ok
    obtain ⟨htask, hmem⟩ := ok
    refine .inl ⟨.inl rfl, ?_⟩
    rw [← htask, hcommand, ← hstatus task err at_answered] at hmem
    exact hmem
  | clear at_acked => exact absurd at_acked hprobe

theorem ProbeStep.callOk (ok : ProbeOk s) (hcall : CallOk s) : CallOk s' := by
  obtain ⟨hioctl, hwritten, -⟩ := h.frame
  have hsub := h.executed_subset
  unfold CallOk at hcall ⊢
  rw [hioctl]
  cases hphase : s.ioctl with
  | wait call number =>
    simp only [hphase] at hcall ⊢
    obtain ⟨rfl, hserved | hunserved⟩ := hcall
    · exact ⟨hwritten, .inl (h.served hserved)⟩
    · exact ⟨hwritten, h.unserved ok hunserved⟩
  | read call number =>
    simp only [hphase] at hcall ⊢
    exact h.served hcall
  | ack call number err =>
    simp only [hphase] at hcall ⊢
    exact hsub hcall
  | ret call number err timeout =>
    simp only [hphase] at hcall ⊢
    intro htimeout
    exact hsub (hcall htimeout)
  | _ => trivial

end

variable (inv : HandshakeInv s)

include inv

theorem HandshakeInv.probeStep (h : ProbeStep s s') : HandshakeInv s' := by
  refine ⟨h.probeOk inv.probe, h.callOk inv.probe inv.call, ?_, ?_⟩
  · rw [h.lost_eq inv.probe]
    exact inv.ok.noLost
  · rw [h.frame.2.2]
    intro r hr htimeout
    exact h.executed_subset (inv.ok.acknowledged r hr htimeout)

/-- The backend's work item writes `CMD_RUN` only when nothing else is going on. -/
theorem HandshakeInv.ftbStep {a : FtbAct} (guard : Orderly s (.ftb a) s')
    (h : vcablkBckndFtbWork s a = some s') : HandshakeInv s' := by
  have f := ftbFrame h
  have hok : HandshakeOk s' := by
    refine ⟨f.lost.trans inv.ok.noLost, ?_⟩
    rw [f.returns, f.executed]
    exact inv.ok.acknowledged
  by_cases hrun : a = .run
  · subst hrun
    obtain ⟨⟨-, -, hidle⟩, hawaits⟩ := guard
    refine ⟨?_, ?_, hok⟩
    · simp [ProbeOk, f.probe, hidle]
    · have hcall := inv.call
      unfold CallOk at hcall ⊢
      rw [f.ioctl, f.executed]
      cases hphase : s.ioctl with
      | ret call number err timeout =>
        simp only [hphase] at hcall
        exact hcall
      | wait | read | ack => simp [hphase, Ioctl.awaits] at hawaits
      | _ => trivial
  · obtain ⟨hcommand, hwritten⟩ := f.command hrun
    refine ⟨?_, ?_, hok⟩
    · simpa only [ProbeOk, f.probe, hcommand, hwritten, f.executed] using inv.probe
    · -- the acknowledgement of a command that is not served yet is not there to be cleared
      have hunserved : ∀ command, Unserved s command → Unserved s' command := by
        rintro command ⟨hack, hcmd, hprobe, hstatus⟩
        refine ⟨?_, hcommand.trans hcmd, f.probe ▸ hprobe, ?_⟩
        · rcases f.commandAck with heq | heq
          · exact heq.trans hack
          · exact heq
        · rw [f.probe, f.status]
          exact hstatus
      have hserved : ∀ number command, Served s' number command ↔ Served s number command := by
        intro number command
        simp only [Served, f.probe, hcommand, f.status, f.executed]
      have hcall := inv.call
      unfold CallOk at hcall ⊢
      rw [f.ioctl, f.executed, hwritten]
      cases hphase : s.ioctl with
      | wait call number =>
        simp only [hphase, hserved] at hcall ⊢
        exact ⟨hcall.1, hcall.2.imp_right (hunserved _)⟩
      | read call number =>
        simp only [hphase, hserved] at hcall ⊢
        exact hcall
      | ack | ret =>
        simp only [hphase] at hcall
        exact hcall
      | _ => trivial

theorem HandshakeInv.move (hcommand : s'.command = s.command)
    (hprobe : s'.probe = s.probe) (hwritten : s'.written = s.written)
    (hexecuted : s'.executed = s.executed) (hlost : s'.lost = s.lost)
    (hreturns : s'.returns = s.returns) (hcall : CallOk s') : HandshakeInv s' := by
  refine ⟨?_, hcall, hlost.trans inv.ok.noLost, ?_⟩
  · simpa only [ProbeOk, hprobe, hcommand, hwritten, hexecuted] using inv.probe
  · rw [hreturns, hexecuted]
    exact inv.ok.acknowledged

theorem HandshakeInv.write (hidle : s'.probe = .idle)
    (hexecuted : s'.executed = s.executed) (hlost : s'.lost = s.lost)
    (hreturns : s'.returns = s.returns) (hcall : CallOk s') : HandshakeInv s' := by
  refine ⟨?_, hcall, hlost.trans inv.ok.noLost, ?_⟩
  · simp [ProbeOk, hidle]
  · rw [hreturns, hexecuted]
    exact inv.ok.acknowledged

theorem HandshakeInv.callReturns {bckd : VcablkBckndDisk} {call : Call}
    {number : Nat} {err : Int} {timeout : Bool} (hioctl : s.ioctl = .ret call number err timeout)
    (hbckd : s.bckd = some bckd) (hclosed : s.closed = true) :
    HandshakeInv (callReturns s bckd call number err timeout) := by
  have hcall := inv.call
  simp only [CallOk, hioctl] at hcall
  have hadd : ∀ e : Int, (timeout = false → e = err) →
      ∀ r ∈ s.returns ++ [⟨number, call.command, e, timeout⟩],
        r.timeout = false → ⟨r.number, r.command, r.err⟩ ∈ s.executed := by
    intro e he r hr htimeout
    rcases List.mem_append.mp hr with hr | hr
    · exact inv.ok.acknowledged r hr htimeout
    · cases List.mem_singleton.mp hr
      rw [he htimeout]
      exact hcall htimeout
  cases call with
  | stop force =>
    refine ⟨inv.probe, ?_, inv.ok.noLost, hadd err fun _ => rfl⟩
    by_cases hbusy : force = false ∧ err = -eBusy <;> simp [Control.callReturns, CallOk, hbusy]
  | destroy =>
    refine ⟨inv.probe, trivial, inv.ok.noLost, hadd _ ?_⟩
    -- the state check does not change the status
    rintro rfl
    simp only [closed, hioctl, hbckd, Bool.or_eq_true, decide_eq_true_eq] at hclosed
    rcases hclosed with hstate | hstatus
    · simp [hstate]
    · simp [hstatus]

theorem HandshakeInv.ioctlStep {a : IoctlAct} (guard : Orderly s (.ioctl a) s')
    (h : vcablkBckndIoctl s a = some s') : HandshakeInv s' := by
  cases a with
  | «open» | resetAck =>
    simp only [vcablkBckndIoctl, ite_none_right_eq_some, Option.some.injEq] at h
    obtain ⟨-, rfl⟩ := h
    exact inv.move rfl rfl rfl rfl rfl rfl trivial
  | create =>
    simp only [vcablkBckndIoctl, ite_none_right_eq_some, Option.some.injEq] at h
    obtain ⟨-, rfl⟩ := h
    exact inv.write guard.2.2 rfl rfl rfl trivial
  | close | clearStatus =>
    simp only [vcablkBckndIoctl] at h
    split at h <;> cases h <;> exact inv.move rfl rfl rfl rfl rfl rfl trivial
  | send =>
    simp only [vcablkBckndIoctl] at h
    split at h <;> cases h
    obtain ⟨-, hack, hidle⟩ := guard
    refine inv.write hidle rfl rfl rfl ⟨rfl, .inr ⟨hack, rfl, ?_, ?_⟩⟩
    · simp [writeCommand, hidle]
    · simp [writeCommand, hidle]
  | wake =>
    simp only [vcablkBckndIoctl] at h
    split at h
    case h_1 call number hioctl =>
      simp only [ite_none_right_eq_some, Option.some.injEq] at h
      obtain ⟨hack, rfl⟩ := h
      have hcall := inv.call
      simp only [CallOk, hioctl] at hcall
      refine inv.move rfl rfl rfl rfl rfl rfl ?_
      -- something was acknowledged, so it is this command
      rcases hcall.2 with hserved | hunserved
      · exact hserved
      · exact absurd hunserved.1 hack
    case h_2 => cases h
  | signal => exact guard.elim
  | timeout =>
    simp only [vcablkBckndIoctl] at h
    split at h
    case h_1 call number hioctl =>
      simp only [ite_none_right_eq_some, Option.some.injEq] at h
      obtain ⟨-, rfl⟩ := h
      exact inv.move rfl rfl rfl rfl rfl rfl (by simp [CallOk])
    case h_2 => cases h
  | readStatus =>
    simp only [vcablkBckndIoctl] at h
    split at h <;> cases h
    rename_i call number hioctl
    have hcall := inv.call
    simp only [CallOk, hioctl] at hcall
    exact inv.move rfl rfl rfl rfl rfl rfl hcall.2
  | clearAck =>
    simp only [vcablkBckndIoctl] at h
    split at h <;> cases h
    rename_i call number err hioctl
    have hcall := inv.call
    simp only [CallOk, hioctl] at hcall
    exact inv.move rfl rfl rfl rfl rfl rfl fun _ => hcall
  | «return» =>
    simp only [vcablkBckndIoctl] at h
    split at h <;> cases h
    rename_i call number err timeout bckd hioctl hbckd
    exact inv.callReturns hioctl hbckd guard

end

/-! ## Runs -/

theorem HandshakeInv.init : HandshakeInv DeviceCtrl.init :=
  ⟨trivial, trivial, rfl, by simp [DeviceCtrl.init]⟩

/-- **One step** keeps the invariant. -/
theorem HandshakeInv.step {a : ControlAct} (inv : HandshakeInv s)
    (guard : Orderly s a s') (h : controlStep s a = some s') : HandshakeInv s' := by
  cases a with
  | probe a => exact inv.probeStep (probeStep_cases h)
  | ftb a => exact inv.ftbStep guard h
  | ioctl a => exact inv.ioctlStep guard h

/-- **No command is lost or mis-acknowledged** in a run in which commands are written one after the
other, no signal interrupts a wait and no open disk is destroyed. -/
theorem handshakeOk_of_orderly {s : DeviceCtrl} (h : controlSystem.ReachBy Orderly s) :
    HandshakeOk s := by
  have inv : HandshakeInv s := by
    apply System.ReachBy.invariant (I := HandshakeInv) ?_ ?_ h
    · rintro s rfl
      exact HandshakeInv.init
    · intro s a s' inv guard hstep
      exact inv.step guard hstep
  exact inv.ok

/-- The answer of a frontend to which nothing goes wrong -/
def Outcome.fine : Outcome := { createErr := 0, busy := false, addDiskErr := 0 }

/-- The frontend's work item, from its first look at the command to the clearing -/
def probeRun (stop : Bool) : List ControlAct :=
  [ControlAct.probe .check, .probe .task, .probe (.handle .fine)] ++
    (if stop then [ControlAct.probe (.stop .fine)] else []) ++
    [ControlAct.probe .status, .probe .ack, .probe .clear]

/-- The backend's work item takes the acknowledgement of `CMD_CREATE`. -/
def ftbCreate : List ControlAct :=
  [.ftb .check, .ftb .status, .ftb .switch, .ftb .clearAck, .ftb (.start 0), .ftb .run]

/-- It takes the acknowledgement of `CMD_RUN`. -/
def ftbRun : List ControlAct := [.ftb .check, .ftb .status, .ftb .switch, .ftb .clearAck]

/-- A disk is opened, and `CMD_RUN` is executed and cleared. -/
def openRun : List ControlAct :=
  [ControlAct.ioctl (.open true), .ioctl .create] ++ probeRun false ++ ftbCreate ++ probeRun false

/-- A call takes an acknowledgement and returns. -/
def callReturn : List ControlAct :=
  [.ioctl .wake, .ioctl .readStatus, .ioctl .clearAck, .ioctl .return]

/-- The stop of an open disk, answered by the frontend -/
def closeStop : List ControlAct :=
  [ControlAct.ioctl (.close false), .ioctl .clearStatus, .ioctl .send] ++ probeRun true ++
    callReturn

/-- A disk is opened and started, and its close gets as far as the answer to the stop. -/
theorem handshakeOk_of_orderly_stop :
    ∃ s, HandshakeOk s ∧ s.returns = [⟨3, .stopNormal, 0, false⟩] ∧ s.executed =
      [⟨1, .create, 0⟩, ⟨2, .run, 0⟩, ⟨3, .stopNormal, 0⟩] := by
  have hobs : (controlSystem.runBy Orderly DeviceCtrl.init (openRun ++ ftbRun ++ closeStop)).map
      (fun s => (s.returns, s.executed)) = some ([⟨3, .stopNormal, 0, false⟩],
        [⟨1, .create, 0⟩, ⟨2, .run, 0⟩, ⟨3, .stopNormal, 0⟩]) := by decide +kernel
  obtain ⟨s, hreach, hs⟩ := System.exists_reachBy hobs rfl
  simp only [Prod.mk.injEq] at hs
  exact ⟨s, handshakeOk_of_orderly hreach, hs⟩

/-! ## Disorder -/

/-- Three runs that break the promise.  The frontend has acknowledged `CMD_CREATE` and is about to
clear it when the backend writes `CMD_RUN`, which is cleared unseen.  A stop finds the
acknowledgement of `CMD_RUN` and returns 0, while the frontend has not even seen it.  The destroy
call of an open disk returns `-EIO`, although the frontend answered 0. -/
theorem handshake_broken :
    (∃ s, controlSystem.Reachable s ∧ ¬ HandshakeOk s ∧ s.lost = [2] ∧
      s.executed = [⟨1, .create, 0⟩]) ∧
    (∃ s, controlSystem.Reachable s ∧ ¬ HandshakeOk s ∧ s.returns = [⟨3, .stopNormal, 0, false⟩] ∧
      s.executed = [⟨1, .create, 0⟩, ⟨2, .run, 0⟩]) ∧
    ∃ s, controlSystem.Reachable s ∧ ¬ HandshakeOk s ∧ ⟨4, .destroy, -eIo, false⟩ ∈ s.returns ∧
      ⟨4, .destroy, 0⟩ ∈ s.executed := by
  have hlost : (controlSystem.run DeviceCtrl.init
      ([ControlAct.ioctl (.open true), .ioctl .create, .probe .check, .probe .task,
        .probe (.handle .fine), .probe .status, .probe .ack] ++ ftbCreate ++
        [ControlAct.probe .clear])).map (fun s => (s.lost, s.executed)) =
      some ([2], [⟨1, .create, 0⟩]) := by decide +kernel
  have hstale : (controlSystem.run DeviceCtrl.init
      (openRun ++ [ControlAct.ioctl (.close false), .ioctl .clearStatus, .ioctl .send] ++
        callReturn)).map
      (fun s => (s.returns, s.executed)) =
      some ([⟨3, .stopNormal, 0, false⟩], [⟨1, .create, 0⟩, ⟨2, .run, 0⟩]) := by decide +kernel
  have hopen : (controlSystem.run DeviceCtrl.init
      (openRun ++ ftbRun ++ closeStop ++
        [ControlAct.ioctl .clearStatus, .ioctl .resetAck, .ioctl .send] ++ probeRun false ++
        callReturn)).map (fun s => (s.returns, s.executed)) =
      some ([⟨3, .stopNormal, 0, false⟩, ⟨4, .destroy, -eIo, false⟩],
        [⟨1, .create, 0⟩, ⟨2, .run, 0⟩, ⟨3, .stopNormal, 0⟩, ⟨4, .destroy, 0⟩]) := by decide +kernel
  obtain ⟨s₁, hreach₁, hs₁⟩ := System.exists_reachable hlost rfl
  obtain ⟨s₂, hreach₂, hs₂⟩ := System.exists_reachable hstale rfl
  obtain ⟨s₃, hreach₃, hs₃⟩ := System.exists_reachable hopen rfl
  simp only [Prod.mk.injEq] at hs₁ hs₂ hs₃
  refine ⟨⟨s₁, hreach₁, ?_, hs₁⟩, ⟨s₂, hreach₂, ?_, hs₂⟩, s₃, hreach₃, ?_, ?_⟩
  · intro hok
    simpa [hs₁.1] using hok.noLost
  · intro hok
    simpa [hs₂] using hok.acknowledged ⟨3, .stopNormal, 0, false⟩ (by simp [hs₂]) rfl
  · intro hok
    have hmem := hok.acknowledged ⟨4, .destroy, -eIo, false⟩ (by simp [hs₃]) rfl
    simp [hs₃, eIo] at hmem
  · simp [hs₃]

end Vcass.Control
