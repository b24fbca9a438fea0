import Vcass.Control.Acknowledge

/-!
# The Lifetime of the Rings

The rings of a disk live in the card's memory and are destroyed there, by `CMD_DESTROY` or by a
`CMD_RUN` that fails.  The host maps them when it starts its side of the disk, and its request thread
polls them as long as that side is open.  Nothing ties the two together: the host learns of a failed
`CMD_RUN` and goes on, and it closes its side only after `CMD_DESTROY` was answered.

In any run, the mapped rings stay alive exactly as long as the frontend destroys no disk whose backend
is open, and the backend starts no disk that the frontend has destroyed by then: `rings_live_iff`.
-/

namespace Vcass.Control

open Vcass.Core DeviceCtrl Option

/-! ## The frontend's disk -/

/-- `vcablk_disk_start` fails. -/
def RunFails (fdev : VcablkDev) (o : Outcome) : Prop :=
  match fdev.disk with
  | none => True
  | some dev => dev.gdiskStarted = true ∨ o.addDiskErr ≠ 0

/-- The command destroys the frontend's disk. -/
def Destroys (fdev : VcablkDev) (o : Outcome) : Command → Prop
  | .destroy => True
  | .run => RunFails fdev o
  | _ => False

/-- The addresses in the response are those of the disk's rings, and these are alive. -/
structure DevOk (fdev : VcablkDev) : Prop where
  rings : fdev.rings = fdev.disk.map fun dev => (dev.requestRing, dev.completionRing)
  alive : ∀ dev, fdev.disk = some dev →
    dev.requestRing ∉ fdev.destroyed ∧ dev.completionRing ∉ fdev.destroyed
  allocated : ∀ dev, fdev.disk = some dev →
    dev.requestRing < fdev.allocated ∧ dev.completionRing < fdev.allocated
  destroyed : ∀ ring ∈ fdev.destroyed, ring < fdev.allocated

section

variable {fdev : VcablkDev}

theorem vcablkDiskStop_rings (dev : VcablkDisk) (force : Bool) (o : Outcome) :
    (vcablkDiskStop dev force o).1.requestRing = dev.requestRing ∧
      (vcablkDiskStop dev force o).1.completionRing = dev.completionRing := by
  unfold vcablkDiskStop
  split
  · exact ⟨rfl, rfl⟩
  · split <;> exact ⟨rfl, rfl⟩

theorem DevOk.keep (ok : DevOk fdev) {dev dev' : VcablkDisk} (hdisk : fdev.disk = some dev)
    (hrequest : dev'.requestRing = dev.requestRing)
    (hcompletion : dev'.completionRing = dev.completionRing) :
    DevOk { fdev with disk := some dev' } := by
  refine ⟨?_, ?_, ?_, ok.destroyed⟩
  · simpa [hdisk, hrequest, hcompletion] using ok.rings
  · rintro _ ⟨⟩
    rw [hrequest, hcompletion]
    exact ok.alive dev hdisk
  · rintro _ ⟨⟩
    rw [hrequest, hcompletion]
    exact ok.allocated dev hdisk

theorem DevOk.deviceDestroy (ok : DevOk fdev) : DevOk (vcablkDeviceDestroyId fdev).1 := by
  unfold vcablkDeviceDestroyId
  cases hdisk : fdev.disk with
  | none => exact ⟨by simp, by simp, by simp, ok.destroyed⟩
  | some dev =>
    refine ⟨rfl, by simp, by simp, ?_⟩
    intro ring hring
    obtain ⟨hrequest, hcompletion⟩ := ok.allocated dev hdisk
    simp only [List.mem_append, List.mem_cons, List.not_mem_nil, or_false] at hring
    rcases hring with hring | rfl | rfl
    · exact ok.destroyed ring hring
    · exact hrequest
    · exact hcompletion

theorem DevOk.taskCreate (ok : DevOk fdev) (o : Outcome) : DevOk (vcablkTaskCreate fdev o).1 := by
  unfold vcablkTaskCreate
  cases hdisk : fdev.disk with
  | some dev => exact ok
  | none =>
    dsimp only
    split
    · exact ⟨by simp, by simp, by simp, ok.destroyed⟩
    · -- the new rings are younger than all that were destroyed
      refine ⟨rfl, ?_, ?_, ?_⟩
      · rintro _ ⟨⟩
        constructor
        · intro hmem
          exact Nat.lt_irrefl _ (ok.destroyed _ hmem)
        · intro hmem
          have hlt := ok.destroyed _ hmem
          dsimp only at hlt
          omega
      · rintro _ ⟨⟩
        dsimp only
        omega
      · intro ring hring
        have hlt := ok.destroyed ring hring
        dsimp only
        omega

theorem deviceDestroy_disk : (vcablkDeviceDestroyId fdev).1.disk = none := by
  unfold vcablkDeviceDestroyId
  cases fdev.disk with
  | none => rfl
  | some dev => rfl

/-- What a command does to the frontend's disk -/
structure Handled (fdev : VcablkDev) (o : Outcome) (command : Command) (fdev' : VcablkDev) : Prop where
  ok : DevOk fdev'
  gone : Destroys fdev o command → fdev'.disk = none
  kept : ¬ Destroys fdev o command → fdev'.destroyed = fdev.destroyed ∧
    (fdev.disk ≠ none → fdev'.disk ≠ none)

theorem handled_failed {o : Outcome} {dev : Option VcablkDisk} (ok : DevOk { fdev with disk := dev })
    (hfails : RunFails fdev o) :
    Handled fdev o .run (vcablkDeviceDestroyId { fdev with disk := dev }).1 where
  ok := ok.deviceDestroy
  gone _ := deviceDestroy_disk
  kept hkept := absurd hfails hkept

theorem handled_run (ok : DevOk fdev) {o : Outcome} {fdev' : VcablkDev} {err : Int}
    (h : vcablkTaskRun fdev o = some (fdev', err)) : Handled fdev o .run fdev' := by
  obtain ⟨⟨dev', err'⟩, hstart, heq⟩ := Option.map_eq_some_iff.mp h
  cases hdisk : fdev.disk with
  | none =>
    simp only [vcablkDiskStart, hdisk, Option.some.injEq, Prod.mk.injEq] at hstart
    obtain ⟨rfl, rfl⟩ := hstart
    cases heq
    exact handled_failed (hdisk ▸ ok) (by simp [RunFails, hdisk])
  | some dev =>
    have hstop : DevOk { fdev with disk := some (vcablkDiskStop dev false o).1 } :=
      ok.keep hdisk (vcablkDiskStop_rings dev false o).1 (vcablkDiskStop_rings dev false o).2
    simp only [vcablkDiskStart, hdisk] at hstart
    split at hstart
    case isTrue hstarted =>
      cases hstart
      cases heq
      exact handled_failed hstop (by simp [RunFails, hdisk, hstarted])
    case isFalse hstarted =>
      split at hstart
      case isTrue => cases hstart
      case isFalse =>
        split at hstart
        case isTrue hadd =>
          cases hstart
          simp only [ne_eq, hadd, not_false_eq_true, if_true] at heq
          cases heq
          exact handled_failed hstop (by simp [RunFails, hdisk, hadd])
        case isFalse hadd =>
          cases hstart
          cases heq
          refine ⟨ok.keep hdisk rfl rfl, ?_, fun _ => ⟨rfl, fun _ => some_ne_none _⟩⟩
          intro hfails
          simp only [Destroys, RunFails, hdisk] at hfails
          exact absurd hfails (by simp [hstarted, not_not.mp hadd])

theorem handled_stop (ok : DevOk fdev) (o : Outcome) (force : Bool) :
    DevOk (vcablkDeviceStopId fdev force o).1 ∧
      (vcablkDeviceStopId fdev force o).1.destroyed = fdev.destroyed ∧
      (fdev.disk ≠ none → (vcablkDeviceStopId fdev force o).1.disk ≠ none) := by
  unfold vcablkDeviceStopId
  cases hdisk : fdev.disk with
  | none => exact ⟨ok, rfl, fun h => absurd rfl h⟩
  | some dev =>
    obtain ⟨hrequest, hcompletion⟩ := vcablkDiskStop_rings dev force o
    exact ⟨ok.keep hdisk hrequest hcompletion, rfl, fun _ => some_ne_none _⟩

theorem taskCreate_kept (o : Outcome) :
    (vcablkTaskCreate fdev o).1.destroyed = fdev.destroyed ∧
      (fdev.disk ≠ none → (vcablkTaskCreate fdev o).1.disk ≠ none) := by
  unfold vcablkTaskCreate
  cases hdisk : fdev.disk with
  | none =>
    refine ⟨?_, fun h => absurd rfl h⟩
    dsimp only
    split <;> rfl
  | some dev =>
    refine ⟨rfl, fun _ => ?_⟩
    show fdev.disk ≠ none
    simp [hdisk]

/-- **One command** keeps the frontend's books; only the destroying ones take the disk away. -/
theorem handled_task (ok : DevOk fdev) {o : Outcome} {command : Command} {force : Bool}
    {fdev' : VcablkDev} {err : Int} (h : vcablkHandleTask fdev command force o = some (fdev', err)) :
    Handled fdev o command fdev' := by
  cases command with
  | none =>
    cases h
    exact ⟨ok, False.elim, fun _ => ⟨rfl, fun h => h⟩⟩
  | create =>
    have hfdev : (vcablkTaskCreate fdev o).1 = fdev' := congrArg Prod.fst (Option.some.inj h)
    rw [← hfdev]
    exact ⟨ok.taskCreate o, False.elim, fun _ => taskCreate_kept o⟩
  | run => exact handled_run ok h
  | stopNormal | stopForce =>
    have hfdev : (vcablkDeviceStopId fdev force o).1 = fdev' := congrArg Prod.fst (Option.some.inj h)
    obtain ⟨hok, hkept⟩ := handled_stop ok o force
    rw [← hfdev]
    exact ⟨hok, False.elim, fun _ => hkept⟩
  | destroy =>
    have hfdev : (vcablkDeviceDestroyId fdev).1 = fdev' := congrArg Prod.fst (Option.some.inj h)
    rw [← hfdev]
    exact ⟨ok.deviceDestroy, fun _ => deviceDestroy_disk, fun h => absurd trivial h⟩

end

/-! ## Both sides -/

/-- The backend's disk is in `DISK_STATE_OPEN`. -/
def DeviceCtrl.isOpen (s : DeviceCtrl) : Bool :=
  s.bckd.any fun bckd => bckd.state = .open

/-- While the backend's disk is open, the frontend's disk exists and the rings that are mapped have
not been destroyed. -/
def RingsLive (s : DeviceCtrl) : Prop :=
  ∀ bckd, s.bckd = some bckd → bckd.state = .open →
    s.fdev.disk ≠ none ∧ ∃ request completion, bckd.rings = some (request, completion) ∧
      request ∉ s.fdev.destroyed ∧ completion ∉ s.fdev.destroyed

/-- `vcablk_bcknd_disk_start` succeeds. -/
def DeviceCtrl.starts (s : DeviceCtrl) (err : Int) : Bool :=
  s.bckd.any fun bckd => bckd.state = .create && bckd.requestDb && err = 0

/-- The frontend destroys no disk that is open on the backend's side, and the backend starts no disk
that the frontend does not have. -/
def KeepsRings (s : DeviceCtrl) : ControlAct → Prop
  | .probe (.handle o) => Destroys s.fdev o s.command → s.isOpen = false
  | .ftb (.start err) => s.starts err = true → s.fdev.disk ≠ none
  | _ => True

instance (fdev : VcablkDev) (o : Outcome) : Decidable (RunFails fdev o) :=
  match h : fdev.disk with
  | none => isTrue (by simp [RunFails, h])
  | some dev => decidable_of_iff (dev.gdiskStarted = true ∨ o.addDiskErr ≠ 0) (by simp [RunFails, h])

instance (fdev : VcablkDev) (o : Outcome) (command : Command) : Decidable (Destroys fdev o command) :=
  match command with
  | .destroy => inferInstanceAs (Decidable True)
  | .run => inferInstanceAs (Decidable (RunFails fdev o))
  | .none | .create | .stopNormal | .stopForce => inferInstanceAs (Decidable False)

instance (s : DeviceCtrl) (a : ControlAct) : Decidable (KeepsRings s a) :=
  match a with
  | .probe (.handle o) =>
    inferInstanceAs (Decidable (Destroys s.fdev o s.command → s.isOpen = false))
  | .ftb (.start err) => inferInstanceAs (Decidable (s.starts err = true → s.fdev.disk ≠ none))
  | .probe .check | .probe .task | .probe (.stop _) | .probe .status | .probe .ack | .probe .clear
  | .ftb .check | .ftb .status | .ftb .switch | .ftb .clearAck | .ftb .run | .ioctl _ =>
    inferInstanceAs (Decidable True)

section

variable {s s' : DeviceCtrl} {a : ControlAct}

inductive DisksStep (s : DeviceCtrl) (a : ControlAct) (s' : DeviceCtrl) : Prop where
  | same (fdev : s'.fdev = s.fdev) (bckd : s'.bckd = s.bckd) (keeps : KeepsRings s a)
  /-- the frontend executes a command -/
  | executed {o : Outcome} {command : Command} (handled : Handled s.fdev o command s'.fdev)
      (bckd : s'.bckd = s.bckd)
      (keeps : KeepsRings s a ↔ (Destroys s.fdev o command → s.isOpen = false))
  /-- the backend's disk is started -/
  | started {bckd : VcablkBckndDisk} {err : Int} (fdev : s'.fdev = s.fdev)
      (before : s.bckd = some bckd)
      (after : s'.bckd = some (vcablkBckndDiskStart bckd s.fdev.rings err).1)
      (keeps : KeepsRings s a ↔ (s.starts err = true → s.fdev.disk ≠ none))
  /-- it is created, or freed -/
  | notOpen (fdev : s'.fdev = s.fdev) (closed : s'.isOpen = false) (keeps : KeepsRings s a)

theorem execute_disks (ok : DevOk s.fdev) {task command : Command} {o : Outcome}
    (h : execute s task command o = some s') :
    Handled s.fdev o command s'.fdev ∧ s'.bckd = s.bckd := by
  obtain ⟨⟨fdev, err⟩, htask, rfl⟩ := Option.map_eq_some_iff.mp h
  exact ⟨handled_task ok htask, rfl⟩

theorem disksStep_probe (ok : DevOk s.fdev) {a : ProbeAct} (h : vcablkProbeWork s a = some s') :
    DisksStep s (.probe a) s' := by
  cases a with
  | handle o =>
    simp only [vcablkProbeWork] at h
    split at h
    case h_1 task hprobe =>
      split at h
      case h_1 hcommand | h_2 hcommand =>
        cases h
        exact .same rfl rfl (by simp [KeepsRings, hcommand, Destroys])
      case h_3 =>
        obtain ⟨hhandled, hbckd⟩ := execute_disks ok h
        exact .executed hhandled hbckd Iff.rfl
    case h_2 => cases h
  | stop o =>
    simp only [vcablkProbeWork] at h
    split at h
    case h_1 task hprobe =>
      obtain ⟨hhandled, hbckd⟩ := execute_disks ok h
      refine .executed hhandled hbckd (iff_of_true trivial ?_)
      -- a stop destroys nothing
      intro hdestroys
      split at hdestroys <;> exact hdestroys.elim
    case h_2 => cases h
  | check | task | clear =>
    simp only [vcablkProbeWork, ite_none_right_eq_some, Option.some.injEq] at h
    obtain ⟨-, rfl⟩ := h
    exact .same rfl rfl trivial
  | status | ack =>
    simp only [vcablkProbeWork] at h
    split at h <;> cases h
    exact .same rfl rfl trivial

theorem disksStep_ftb {a : FtbAct} (h : vcablkBckndFtbWork s a = some s') :
    DisksStep s (.ftb a) s' := by
  cases a with
  | start err =>
    simp only [vcablkBckndFtbWork] at h
    split at h
    case h_1 disk bckd hftb hbckd =>
      simp only [ite_none_right_eq_some, Option.some.injEq] at h
      obtain ⟨-, rfl⟩ := h
      exact .started rfl hbckd rfl Iff.rfl
    case h_2 => cases h
  | check | status | run =>
    simp only [vcablkBckndFtbWork, ite_none_right_eq_some, Option.some.injEq] at h
    obtain ⟨-, rfl⟩ := h
    exact .same rfl rfl trivial
  | switch =>
    simp only [vcablkBckndFtbWork] at h
    split at h
    · split at h
      · cases h
        exact .same rfl rfl trivial
      · split at h <;> cases h <;> exact .same rfl rfl trivial
    · cases h
  | clearAck =>
    simp only [vcablkBckndFtbWork] at h
    split at h <;> cases h <;> exact .same rfl rfl trivial

theorem disksStep_ioctl {a : IoctlAct} (h : vcablkBckndIoctl s a = some s') :
    DisksStep s (.ioctl a) s' := by
  cases a with
  | «open» requestDb =>
    simp only [vcablkBckndIoctl, ite_none_right_eq_some, Option.some.injEq] at h
    obtain ⟨-, rfl⟩ := h
    exact .notOpen rfl rfl trivial
  | «return» =>
    simp only [vcablkBckndIoctl] at h
    split at h <;> cases h
    rename_i call number err timeout bckd hioctl hbckd
    cases call with
    | stop force => exact .same rfl rfl trivial
    | destroy => exact .notOpen rfl rfl trivial
  | create | resetAck =>
    simp only [vcablkBckndIoctl, ite_none_right_eq_some, Option.some.injEq] at h
    obtain ⟨-, rfl⟩ := h
    exact .same rfl rfl trivial
  | wake | timeout =>
    simp only [vcablkBckndIoctl] at h
    split at h
    · simp only [ite_none_right_eq_some, Option.some.injEq] at h
      obtain ⟨-, rfl⟩ := h
      exact .same rfl rfl trivial
    · cases h
  | close force =>
    simp only [vcablkBckndIoctl] at h
    split at h <;> cases h
    exact .same rfl rfl trivial
  | clearStatus | send | signal | readStatus | clearAck =>
    simp only [vcablkBckndIoctl] at h
    split at h <;> cases h <;> exact .same rfl rfl trivial

theorem disksStep (ok : DevOk s.fdev) (h : controlStep s a = some s') : DisksStep s a s' := by
  cases a with
  | probe a => exact disksStep_probe ok h
  | ftb a => exact disksStep_ftb h
  | ioctl a => exact disksStep_ioctl h

/-- **One step** keeps the frontend's books. -/
theorem DisksStep.devOk (h : DisksStep s a s') (ok : DevOk s.fdev) : DevOk s'.fdev := by
  cases h with
  | executed handled bckd keeps => exact handled.ok
  | same fdev | started fdev | notOpen fdev => simpa only [fdev] using ok

theorem isOpen_eq_true_iff : s.isOpen = true ↔ ∃ bckd, s.bckd = some bckd ∧ bckd.state = .open := by
  simp [isOpen, any_eq_true]

theorem ringsLive_of_notOpen (h : s.isOpen = false) : RingsLive s := by
  intro bckd hbckd hopen
  rw [isOpen_eq_true_iff.mpr ⟨bckd, hbckd, hopen⟩] at h
  cases h

theorem ringsLive_executed (hlive : RingsLive s) {o : Outcome} {command : Command}
    (handled : Handled s.fdev o command s'.fdev) (hbckd : s'.bckd = s.bckd) :
    RingsLive s' ↔ (Destroys s.fdev o command → s.isOpen = false) := by
  have hopen : s'.isOpen = s.isOpen := by simp only [isOpen, hbckd]
  constructor
  · intro hlive' hdestroys
    by_contra hcon
    obtain ⟨bckd, hb, hstate⟩ := isOpen_eq_true_iff.mp (Bool.not_eq_false _ ▸ hcon)
    exact (hlive' bckd (hbckd.trans hb) hstate).1 (handled.gone hdestroys)
  · intro hkeeps
    by_cases hdestroys : Destroys s.fdev o command
    · apply ringsLive_of_notOpen
      rw [hopen]
      exact hkeeps hdestroys
    · obtain ⟨hdestroyed, hdisk⟩ := handled.kept hdestroys
      intro bckd hb hstate
      rw [hbckd] at hb
      obtain ⟨hexists, hrings⟩ := hlive bckd hb hstate
      rw [hdestroyed]
      exact ⟨hdisk hexists, hrings⟩

theorem ringsLive_started (ok : DevOk s.fdev) (hlive : RingsLive s) {bckd : VcablkBckndDisk}
    {err : Int} (hfdev : s'.fdev = s.fdev) (hbefore : s.bckd = some bckd)
    (hafter : s'.bckd = some (vcablkBckndDiskStart bckd s.fdev.rings err).1) :
    RingsLive s' ↔ (s.starts err = true → s.fdev.disk ≠ none) := by
  have hsame : s'.bckd = some bckd → RingsLive s' := by
    intro hbckd
    simpa only [RingsLive, hfdev, hbckd, hbefore] using hlive
  unfold vcablkBckndDiskStart at hafter
  split at hafter
  case isTrue hstate =>
    refine iff_of_true (hsame hafter) ?_
    simp [starts, hbefore, hstate]
  case isFalse hstate =>
    split at hafter
    case isTrue hdb =>
      refine iff_of_true (hsame hafter) ?_
      simp [starts, hbefore, hdb]
    case isFalse hdb =>
      split at hafter
      case isTrue herr =>
        refine iff_of_true (ringsLive_of_notOpen ?_) ?_
        · simp [isOpen, hafter, not_not.mp hstate]
        · simp [starts, hbefore, herr]
      case isFalse herr =>
        -- the disk opens, with the rings of the response
        have hstarts : s.starts err = true := by
          simp [starts, hbefore, not_not.mp hstate, Bool.not_eq_false _ ▸ hdb,
            not_not.mp herr]
        rw [forall_prop_of_true hstarts]
        constructor
        · intro hlive'
          have hdisk := (hlive' _ hafter rfl).1
          rwa [hfdev] at hdisk
        · intro hdisk bckd' hbckd' _
          obtain ⟨dev, hdev⟩ := ne_none_iff_exists'.mp hdisk
          cases hafter.symm.trans hbckd'
          rw [hfdev]
          refine ⟨hdisk, dev.requestRing, dev.completionRing, ?_, ok.alive dev hdev⟩
          simp [ok.rings, hdev]

/-- **One step** keeps the rings alive, unless the frontend destroys what is open, or the backend starts
what is destroyed. -/
theorem ringsLive_step_iff (ok : DevOk s.fdev) (hlive : RingsLive s) (h : DisksStep s a s') :
    RingsLive s' ↔ KeepsRings s a := by
  cases h with
  | same fdev bckd keeps =>
    refine iff_of_true ?_ keeps
    simpa only [RingsLive, fdev, bckd] using hlive
  | executed handled bckd keeps =>
    rw [keeps]
    exact ringsLive_executed hlive handled bckd
  | started fdev before after keeps =>
    rw [keeps]
    exact ringsLive_started ok hlive fdev before after
  | notOpen fdev closed keeps => exact iff_of_true (ringsLive_of_notOpen closed) keeps

end

/-! ## Runs -/

/-- **The rings that the backend has mapped stay alive** in every state of a run, exactly when the
frontend never destroys a disk that is open on the backend's side, and the backend never starts a
disk that the frontend does not have. -/
theorem rings_live_iff (acts : List ControlAct) {t : DeviceCtrl}
    (hrun : controlSystem.run DeviceCtrl.init acts = some t) :
    controlSystem.Along (controlSystem.Allows fun _ _ s' => RingsLive s') DeviceCtrl.init acts ↔
      controlSystem.Along KeepsRings DeviceCtrl.init acts := by
  have hstart : DevOk DeviceCtrl.init.fdev ∧ RingsLive DeviceCtrl.init :=
    ⟨⟨rfl, by simp [DeviceCtrl.init], by simp [DeviceCtrl.init], by simp [DeviceCtrl.init]⟩,
      ringsLive_of_notOpen rfl⟩
  have htrue : controlSystem.Along (fun _ _ => True) DeviceCtrl.init acts :=
    System.along_of_forall acts (fun _ _ _ => trivial) _
  apply System.along_congr (I := fun s => DevOk s.fdev ∧ RingsLive s) ?_ ?_ acts hstart htrue hrun
  · rintro s a s' ⟨ok, hlive⟩ - hstep
    rw [System.allows_iff hstep]
    exact ringsLive_step_iff ok hlive (disksStep ok hstep)
  · rintro s a s' ⟨ok, -⟩ - hlive hstep
    exact ⟨(disksStep ok hstep).devOk ok, hlive s' hstep⟩

/-- A disk that is opened and started -/
theorem rings_live_iff_open :
    ∃ t, controlSystem.run DeviceCtrl.init openRun = some t ∧ t.isOpen = true ∧
      controlSystem.Along (controlSystem.Allows fun _ _ s' => RingsLive s') DeviceCtrl.init
        openRun := by
  have hobs : (controlSystem.runBy (fun s a _ => KeepsRings s a) DeviceCtrl.init openRun).map
      DeviceCtrl.isOpen = some true := by decide +kernel
  obtain ⟨t, hrunBy, hopen⟩ := Option.map_eq_some_iff.mp hobs
  obtain ⟨halong, hrun⟩ := System.along_of_runBy _ hrunBy
  refine ⟨t, hrun, hopen, (rings_live_iff openRun hrun).mpr ?_⟩
  exact (System.along_allows_iff openRun hrun).mp halong

/-! ## Destroyed rings -/

/-- A disk that cannot be added to the card's kernel -/
def Outcome.addFails : Outcome := { createErr := 0, busy := false, addDiskErr := -eNoMem }

/-- The state of an open disk whose rings have been destroyed -/
structure Dangling (s : DeviceCtrl) : Prop where
  bckd : s.bckd = some { number := 0, state := .open, requestDb := true, rings := some (0, 1) }
  fdev : s.fdev = { disk := none, rings := none, allocated := 2, destroyed := [0, 1] }

theorem Dangling.not_ringsLive {s : DeviceCtrl} (h : Dangling s) : ¬ RingsLive s := by
  intro hlive
  have hdisk := (hlive _ h.bckd rfl).1
  simp [h.fdev] at hdisk

/-- Every command of these runs is handled and acknowledged before the next one is written, and the
backend polls destroyed rings: after a `CMD_RUN` that failed, and between the answer to
`CMD_DESTROY` and the end of every close of an open disk. -/
theorem open_with_destroyed_rings :
    (∃ s, controlSystem.ReachBy Orderly s ∧ Dangling s ∧ ¬ RingsLive s ∧
      s.executed = [⟨1, .create, 0⟩, ⟨2, .run, -eNoMem⟩]) ∧
    ∃ s, controlSystem.ReachBy Orderly s ∧ Dangling s ∧ ¬ RingsLive s ∧
      s.executed = [⟨1, .create, 0⟩, ⟨2, .run, 0⟩, ⟨3, .stopNormal, 0⟩, ⟨4, .destroy, 0⟩] := by
  have hfailed : (controlSystem.runBy Orderly DeviceCtrl.init
      ([ControlAct.ioctl (.open true), .ioctl .create] ++ probeRun false ++ ftbCreate ++
        [ControlAct.probe .check, .probe .task, .probe (.handle .addFails), .probe .status,
          .probe .ack, .probe .clear] ++ ftbRun)).map (fun s => (s.bckd, s.fdev, s.executed)) =
      some (some ⟨0, .open, true, some (0, 1)⟩, ⟨none, none, 2, [0, 1]⟩,
        [⟨1, .create, 0⟩, ⟨2, .run, -eNoMem⟩]) := by decide +kernel
  have hclose : (controlSystem.runBy Orderly DeviceCtrl.init
      (openRun ++ ftbRun ++ closeStop ++
        [ControlAct.ioctl .clearStatus, .ioctl .resetAck, .ioctl .send] ++
        probeRun false)).map (fun s => (s.bckd, s.fdev, s.executed)) =
      some (some ⟨0, .open, true, some (0, 1)⟩, ⟨none, none, 2, [0, 1]⟩,
        [⟨1, .create, 0⟩, ⟨2, .run, 0⟩, ⟨3, .stopNormal, 0⟩, ⟨4, .destroy, 0⟩]) := by
    decide +kernel
  obtain ⟨s₁, hreach₁, hs₁⟩ := System.exists_reachBy hfailed rfl
  obtain ⟨s₂, hreach₂, hs₂⟩ := System.exists_reachBy hclose rfl
  simp only [Prod.mk.injEq] at hs₁ hs₂
  have hd₁ : Dangling s₁ := ⟨hs₁.1, hs₁.2.1⟩
  have hd₂ : Dangling s₂ := ⟨hs₂.1, hs₂.2.1⟩
  exact ⟨⟨s₁, hreach₁, hd₁, hd₁.not_ringsLive, hs₁.2.2⟩,
    s₂, hreach₂, hd₂, hd₂.not_ringsLive, hs₂.2.2⟩

end Vcass.Control
