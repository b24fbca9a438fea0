import Mathlib.Algebra.Order.Ring.Nat
import Vcass.Control.Command
import Vcass.Core.Effects

/-!
# The Device Page as the Backend Sees It

The frontend tells the backend the address of its device page: a header with the number of devices,
and that many control blocks.  The page stays in the frontend's memory, and the frontend may write to
it at any time, so that every read of `num_devices` is a new value.

`vcablk_bcknd_open_dev_page` checks the number on a private copy of the header against the size of the
page.  All that comes later reads it again: the loop over the waiting disks at each turn,
`vcablk_bcknd_add_to_devpage`, and `vcablk_bcknd_ftb_work`, which bounds it by
`vcablk_bcknd_max_dev` but not by the size of the page.

The log has every value of `num_devices` that was read, and every index of a device that was
processed.  `validated_count_respected`: **as long as no later read shows more than fits into the
page, and none in the loop more than `vcablk_bcknd_max_dev`, only devices of the page and of the
array are processed**.  A peer that raises the number breaks this (`raised_count_followed`).

The peer, the disks and the hardware are an arbitrary state with arbitrary answers.
-/

namespace Vcass.Control.DevPage

open Vcass.Core Triple Logged

/-! ## The page -/

/-- `VCA_BLK_VERSION` -/
def vcaBlkVersion : UInt32 := 4

/-- `sizeof(struct vcablk_dev_page)` -/
def devPageHeaderSize : Nat := 304

/-- `sizeof(struct vcablk_device_ctrl)` -/
def deviceCtrlSize : Nat := 72

/-- The number of control blocks in a page of `devPageSize` bytes -/
def capacity (devPageSize : Nat) : Nat := (devPageSize - devPageHeaderSize) / deviceCtrlSize

/-- The private copy of `struct vcablk_dev_page`, as far as it is checked -/
structure DevPageCopy where
  versionFrontend : UInt32
  devPageSize : UInt32
  reinitDevPage : UInt32
  numDevices : UInt32
  destroyDevpage : UInt32

/-- `struct vcablk_device_response`: `command_ack`, none when it is not a command, and `status` -/
structure DeviceResponse where
  commandAck : Option Command
  status : Int

/-! ## The backend and its surroundings -/

/-- A disk of the backend: its number and its state -/
structure BckndDisk where
  bckndId : Nat
  state : DiskState

/-- `struct vcablk_bcknd_dev`.  The disk in `device_array[i]` has the number `i`.  Of the mapped page
only the size is kept that was checked when it was opened. -/
structure BckndDev (maxDev : Nat) where
  dpAddr : UInt64
  devPagesRemapped : Option Nat
  deviceArray : Fin maxDev → Option DiskState

/-- The frontend's memory, the disks and the hardware.  Each answer may depend on everything that
was done before. -/
structure Peer (σ : Type) where
  /-- `get_dp_addr` -/
  getDpAddr : Bool → StateM σ UInt64
  /-- `ioremap` of the header, and the copy of it -/
  copyHeader : UInt64 → StateM σ (Option DevPageCopy)
  /-- `ioremap` of the page -/
  ioremap : UInt64 → Nat → StateM σ Bool
  /-- a read of `num_devices` -/
  numDevices : StateM σ UInt32
  setNumDevices : Nat → StateM σ Unit
  /-- the other fields that a page gets when it is opened, and its name -/
  publish : StateM σ Unit
  reinitDevPage : StateM σ UInt32
  /-- `version_frontend` and `valid_magic_bcknd` are as expected -/
  pageValid : StateM σ Bool
  /-- the flags of a crash dump -/
  dumpEvents : StateM σ Unit
  /-- `destroy_devpage` is `DESTROY_DEV_PAGE_INIT` -/
  destroyInit : StateM σ Bool
  /-- `destroy_devpage` is set to `DESTROY_DEV_PAGE_END` -/
  destroyEnd : StateM σ Unit
  sendIntr : StateM σ Unit
  /-- `devs[i].response` -/
  response : Nat → StateM σ DeviceResponse
  clearAck : Nat → StateM σ Unit
  setCommand : Nat → Command → StateM σ Unit
  /-- size, mode and doorbell of `devs[i]` -/
  describeDisk : Nat → StateM σ Unit
  /-- `vcablk_bcknd_disk_start` -/
  diskStart : Nat → StateM σ Int
  /-- `vcablk_bcknd_disk_create` -/
  diskCreate : Nat → StateM σ Int
  wakeUp : Nat → StateM σ Unit
  /-- What lies behind the end of `device_array` -/
  beyond : Nat → StateM σ (Option BckndDisk)

/-- Where `num_devices` is read -/
inductive ReadSite where
  /-- the comparison with `vcablk_bcknd_max_dev` when a page is opened -/
  | clamp
  /-- the condition of the loop when a page is opened -/
  | openLoop
  | addToDevpage
  | ftbWork
deriving DecidableEq

/-- What is done with a page of `page` bytes -/
inductive Access where
  | numDevices (site : ReadSite) (page value : Nat)
  /-- `devs[i]` or `device_array[i]` -/
  | process (page i : Nat)
deriving DecidableEq

structure BackendState (maxDev : Nat) (σ : Type) where
  bdev : BckndDev maxDev
  outside : σ

section

variable {maxDev : Nat} {σ : Type} (peer : Peer σ)

abbrev BackendM (maxDev : Nat) (σ α : Type) : Type :=
  StateM (Logged (BackendState maxDev σ) Access) α

/-- Something that the surroundings do -/
def ask {α : Type} (m : StateM σ α) : BackendM maxDev σ α :=
  Logged.lift fun s => ((m s.outside).1, { s with outside := (m s.outside).2 })

/-- A change of `bdev` -/
def modifyBdev (f : BckndDev maxDev → BckndDev maxDev) : BackendM maxDev σ Unit :=
  Logged.lift fun s => ((), { s with bdev := f s.bdev })

def getBdev {α : Type} (f : BckndDev maxDev → α) : BackendM maxDev σ α :=
  Logged.view fun s => f s.bdev

/-- A read of `num_devices` in the mapped page -/
def readNumDevices (site : ReadSite) (page : Nat) : BackendM maxDev σ Nat := do
  let value ← ask peer.numDevices
  Logged.record (.numDevices site page value.toNat)
  pure value.toNat

def process (page i : Nat) : BackendM maxDev σ Unit :=
  Logged.record (.process page i)

/-- `device_array[i]` -/
def deviceAt (page i : Nat) : BackendM maxDev σ (Option BckndDisk) := do
  process page i
  if h : i < maxDev then
    getBdev fun bdev => (bdev.deviceArray ⟨i, h⟩).map (BckndDisk.mk i)
  else
    ask (peer.beyond i)

def setDisk (i : Nat) (state : Option DiskState) : BackendM maxDev σ Unit :=
  modifyBdev fun bdev =>
    { bdev with deviceArray := fun j => if j.val = i then state else bdev.deviceArray j }

/-! ## The functions of `vcablk_bcknd.c` -/

/-- `vcablk_bcknd_add_to_devpage` -/
def vcablkBckndAddToDevpage (page : Nat) (bckd : BckndDisk) : BackendM maxDev σ Int := do
  let numDevices ← readNumDevices peer .addToDevpage page
  if bckd.bckndId ≥ numDevices then
    pure (-eNoSpc)
  else
    process page bckd.bckndId
    if bckd.state ≠ .create then
      pure (-eIo)
    else
      ask (peer.describeDisk bckd.bckndId)
      ask (peer.setCommand bckd.bckndId .create)
      pure 0

/-- One turn of the loop in `vcablk_bcknd_open_dev_page` -/
def addWaiting (page i : Nat) : BackendM maxDev σ Int := do
  let bckd ← deviceAt peer page i
  match bckd with
  | some bckd => if bckd.state = .create then vcablkBckndAddToDevpage peer page bckd else pure 0
  | none => pure 0

/-- The loop; it ends after `turns` turns at the latest. -/
def openLoop (page : Nat) : Nat → Nat → BackendM maxDev σ Unit
  | 0, _ => pure ()
  | turns + 1, i => do
    let numDevices ← readNumDevices peer .openLoop page
    if i < numDevices then
      let _ ← addWaiting peer page i
      openLoop page turns (i + 1)
    else
      pure ()

/-- The checks of the private copy -/
def DevPageCopy.accepted (copy : DevPageCopy) : Prop :=
  copy.versionFrontend = vcaBlkVersion ∧ ¬ copy.devPageSize.toNat < devPageHeaderSize ∧
    copy.reinitDevPage ≠ 0 ∧ copy.destroyDevpage = 0 ∧
    ¬ copy.numDevices.toNat > capacity copy.devPageSize.toNat

instance (copy : DevPageCopy) : Decidable copy.accepted :=
  inferInstanceAs (Decidable (_ ∧ _ ∧ _ ∧ _ ∧ _))

/-- `vcablk_bcknd_open_dev_page`: the size of the page that was mapped -/
def vcablkBckndOpenDevPage (addr : UInt64) : BackendM maxDev σ (Option Nat) := do
  let copy ← ask (peer.copyHeader addr)
  match copy with
  | none => pure none
  | some copy =>
    if copy.accepted then
      let page := copy.devPageSize.toNat
      let mapped ← ask (peer.ioremap addr page)
      if mapped then
        let numDevices ← readNumDevices peer .clamp page
        ask (if numDevices ≥ maxDev then peer.setNumDevices maxDev else pure ())
        ask peer.publish
        -- a number of 32 bits bounds the loop
        openLoop peer page (2 ^ 32) 0
        pure (some page)
      else
        pure none
    else
      pure none

/-- `vcablk_bcknd_close_dev_page`: the open disks go back to the state before they were started. -/
def vcablkBckndCloseDevPage : BackendM maxDev σ Unit :=
  modifyBdev fun bdev =>
    { dpAddr := 0, devPagesRemapped := none,
      deviceArray := fun i => (bdev.deviceArray i).map fun _ => .create }

/-- The part of `vcablk_bcknd_set_dev_page` that opens a page -/
def openPage (addr : UInt64) : BackendM maxDev σ Unit := do
  let page ← vcablkBckndOpenDevPage peer addr
  modifyBdev fun bdev =>
    { bdev with devPagesRemapped := page, dpAddr := if page.isSome then addr else bdev.dpAddr }
  ask (if page.isSome then peer.sendIntr else pure ())

/-- `vcablk_bcknd_set_dev_page` -/
def vcablkBckndSetDevPage (addr : UInt64) : BackendM maxDev σ Unit := do
  if addr = 0 then
    vcablkBckndCloseDevPage
  else
    let remapped ← getBdev fun bdev => bdev.devPagesRemapped
    if remapped.isSome then
      let reinitDevPage ← ask peer.reinitDevPage
      let dpAddr ← getBdev fun bdev => bdev.dpAddr
      if addr = dpAddr ∧ reinitDevPage = 0 then
        pure ()
      else
        vcablkBckndCloseDevPage
        openPage peer addr
    else
      openPage peer addr

/-- `vcablk_bcknd_ftb_work`, an acknowledgement of a disk that exists -/
def handleAck (devId : Nat) (response : DeviceResponse) : BackendM maxDev σ Unit :=
  match response.commandAck with
  | some .create => do
    ask (peer.clearAck devId)
    let err ← ask (if response.status = 0 then peer.diskStart devId else pure response.status)
    if err = 0 then
      setDisk devId (some .open)
      ask (peer.setCommand devId .run)
      ask peer.sendIntr
    else
      pure ()
  | some .stopNormal | some .stopForce | some .destroy => ask (peer.wakeUp devId)
  | _ => ask (peer.clearAck devId)

/-- One turn of the loop in `vcablk_bcknd_ftb_work` -/
def ftbTurn (page devId : Nat) : BackendM maxDev σ Unit := do
  process page devId
  let response ← ask (peer.response devId)
  if response.commandAck = some .none then
    pure ()
  else
    let bckd ← deviceAt peer page devId
    match bckd with
    | some _ => do
      -- `command_ack` is read once more for the switch
      let again ← ask (peer.response devId)
      handleAck peer devId ⟨again.commandAck, response.status⟩
    | none => pure ()

/-- The loop, from `devId` on -/
def ftbLoop (page : Nat) : Nat → Nat → BackendM maxDev σ Unit
  | 0, _ => pure ()
  | turns + 1, devId => do
    ftbTurn peer page devId
    ftbLoop page turns (devId + 1)

/-- `vcablk_bcknd_ftb_work`, the checks of a page that is mapped already -/
def checkPage (dpAddr : UInt64) : BackendM maxDev σ Unit := do
  let old ← getBdev fun bdev => bdev.dpAddr
  let remapped ← getBdev fun bdev => bdev.devPagesRemapped
  -- the card has a new page: the old one is given up
  if old ≠ 0 ∧ dpAddr ≠ old then
    vcablkBckndCloseDevPage
  else if remapped.isSome then
    let valid ← ask peer.pageValid
    if valid then
      ask peer.dumpEvents
      let destroy ← ask peer.destroyInit
      -- the card asks for the end of the page
      if destroy then
        ask peer.destroyEnd
        vcablkBckndCloseDevPage
        let _ ← ask (peer.getDpAddr true)
        ask peer.sendIntr
      else
        pure ()
    else
      vcablkBckndCloseDevPage
      let _ ← ask (peer.getDpAddr true)
      pure ()
  else
    pure ()

/-- `vcablk_bcknd_ftb_work`, the devices of a page -/
def ftbDevices (page : Nat) : BackendM maxDev σ Unit := do
  let numDevices ← readNumDevices peer .ftbWork page
  ftbLoop peer page (min numDevices maxDev) 0

/-- `vcablk_bcknd_ftb_work`, the page is opened if its address has changed. -/
def reloadPage (dpAddr : UInt64) : BackendM maxDev σ Unit :=
  if dpAddr ≠ 0 then vcablkBckndSetDevPage peer dpAddr else pure ()

/-- `vcablk_bcknd_ftb_work` -/
def vcablkBckndFtbWork : BackendM maxDev σ Unit := do
  let dpAddr ← ask (peer.getDpAddr false)
  checkPage peer dpAddr
  reloadPage peer dpAddr
  let remapped ← getBdev fun bdev => bdev.devPagesRemapped
  match remapped with
  | none => ask (if dpAddr ≠ 0 then do let _ ← peer.getDpAddr true else pure ())
  | some page => ftbDevices peer page

/-- `vcablk_bcknd_create` -/
def vcablkBckndCreate (diskId : Nat) : BackendM maxDev σ Int := do
  if h : diskId < maxDev then
    let bckd ← getBdev fun bdev => bdev.deviceArray ⟨diskId, h⟩
    if bckd.isSome then
      pure (-eBusy)
    else
      let err ← ask (peer.diskCreate diskId)
      if err ≠ 0 then
        pure err
      else
        setDisk diskId (some .create)
        let remapped ← getBdev fun bdev => bdev.devPagesRemapped
        match remapped with
        | some page => vcablkBckndAddToDevpage peer page ⟨diskId, .create⟩
        | none => pure 0
  else
    pure (-eInval)

/-! ## Runs -/

/-- What happens to the backend: an interrupt of the frontend, an ioctl that creates or destroys a
disk, and the end of the interrupt handler.  Of the destruction of a disk only the entry of the
array is looked at. -/
inductive BackendOp where
  | ftbWork
  | create (diskId : Nat)
  | destroy (diskId : Nat)
  | close

def backendOp : BackendOp → BackendM maxDev σ Unit
  | .ftbWork => vcablkBckndFtbWork peer
  | .create diskId => do
    let _ ← vcablkBckndCreate peer diskId
    pure ()
  | .destroy diskId => setDisk diskId none
  | .close => vcablkBckndCloseDevPage

def backendRun : List BackendOp → BackendM maxDev σ Unit
  | [] => pure ()
  | op :: ops => do
    backendOp peer op
    backendRun ops

end

/-! ## What a peer may show, and what may be processed -/

/-- A page of `page` bytes never shows more devices than it has control blocks, and in the loop of
`vcablk_bcknd_open_dev_page` not more than the backend has. -/
def Honest (maxDev : Nat) : Access → Prop
  | .numDevices .clamp _ _ => True
  | .numDevices .openLoop page value => value ≤ capacity page ∧ value ≤ maxDev
  | .numDevices _ page value => value ≤ capacity page
  | .process _ _ => True

instance (maxDev : Nat) : DecidablePred (Honest maxDev)
  | .numDevices .clamp _ _ => .isTrue trivial
  | .numDevices .openLoop _ _ => inferInstanceAs (Decidable (_ ∧ _))
  | .numDevices .addToDevpage _ _ => inferInstanceAs (Decidable (_ ≤ _))
  | .numDevices .ftbWork _ _ => inferInstanceAs (Decidable (_ ≤ _))
  | .process _ _ => .isTrue trivial

/-- Only devices of the array and of the page are processed. -/
def Inside (maxDev : Nat) : Access → Prop
  | .numDevices _ _ _ => True
  | .process page i => i < maxDev ∧ i < capacity page

/-- As long as the peer is honest, nothing outside was processed, and `P` is known. -/
abbrev Known {maxDev : Nat} {σ : Type} (P : Prop) : Logged (BackendState maxDev σ) Access → Prop :=
  Logged.Relying (Honest maxDev) (Inside maxDev) P

section

variable {maxDev : Nat} {σ : Type} {peer : Peer σ} {P : Prop} {page : Nat}

theorem known_ask {α : Type} (m : StateM σ α) : Keeps (Known P) (ask m : BackendM maxDev σ α) :=
  keeps_relying_lift _

theorem known_modifyBdev (f : BckndDev maxDev → BckndDev maxDev) :
    Keeps (Known P) (modifyBdev f : BackendM maxDev σ Unit) :=
  keeps_relying_lift _

theorem known_getBdev {α : Type} (f : BckndDev maxDev → α) :
    Keeps (Known P) (getBdev f : BackendM maxDev σ α) :=
  keeps_relying_view _

theorem known_readNumDevices (site : ReadSite) :
    Triple (Known P) (readNumDevices peer site page : BackendM maxDev σ Nat) fun value =>
      Known (P ∧ Honest maxDev (.numDevices site page value)) := by
  unfold readNumDevices
  refine bind (known_ask _) fun value => ?_
  refine bind (triple_relying_record _ fun _ _ => trivial) fun _ => ?_
  exact pure fun _ h => h

theorem known_process {i : Nat} (hinside : P → i < maxDev ∧ i < capacity page) :
    Keeps (Known P) (process page i : BackendM maxDev σ Unit) := by
  have hrecord := @triple_relying_record (BackendState maxDev σ) Access (Honest maxDev)
    (Inside maxDev) P (.process page i) fun hP _ => hinside hP
  exact hrecord.post fun _ _ h => h.imp And.left

theorem known_deviceAt {i : Nat} (hinside : P → i < maxDev ∧ i < capacity page) :
    Triple (Known P) (deviceAt peer page i : BackendM maxDev σ (Option BckndDisk)) fun bckd =>
      Known (P ∧ ∀ b, bckd = some b → b.bckndId < maxDev) := by
  unfold deviceAt
  refine bind (known_process hinside) fun _ => ?_
  split
  · rename_i hi
    intro r hr hhonest
    refine ⟨(hr hhonest).1, (hr hhonest).2, fun b hb => ?_⟩
    obtain ⟨state, -, rfl⟩ := Option.map_eq_some_iff.mp hb
    exact hi
  · rename_i hi
    -- behind the end of the array nothing is known, but an honest peer does not lead there
    intro r hr hhonest
    exact absurd (hinside (hr hhonest).2).1 hi

theorem known_addToDevpage {bckd : BckndDisk} (hid : P → bckd.bckndId < maxDev) :
    Keeps (Known P) (vcablkBckndAddToDevpage peer page bckd : BackendM maxDev σ Int) := by
  unfold vcablkBckndAddToDevpage
  refine bind (known_readNumDevices .addToDevpage) fun numDevices => ?_
  have hend : ∀ err : Int, Triple
      (Known (P ∧ Honest maxDev (.numDevices .addToDevpage page numDevices)))
      (pure err : BackendM maxDev σ Int) fun _ => Known P :=
    fun _ => Triple.pure fun _ h => h.imp And.left
  refine ite (fun _ => hend _) fun hlt => ?_
  refine bind (known_process ?_) fun _ => ?_
  · rintro ⟨hP, hhonest⟩
    exact ⟨hid hP, Nat.lt_of_lt_of_le (Nat.lt_of_not_le hlt) hhonest⟩
  refine ite (fun _ => hend _) fun _ => ?_
  refine bind (known_ask _) fun _ => ?_
  exact bind (known_ask _) fun _ => hend _

theorem known_addWaiting {i : Nat} (hinside : P → i < maxDev ∧ i < capacity page) :
    Keeps (Known P) (addWaiting peer page i : BackendM maxDev σ Int) := by
  unfold addWaiting
  refine bind (known_deviceAt hinside) fun bckd => ?_
  cases bckd with
  | none => exact pure fun _ h => h.imp And.left
  | some bckd =>
    refine ite (fun _ => ?_) fun _ => pure fun _ h => h.imp And.left
    exact (known_addToDevpage fun hP => hP.2 bckd rfl).post fun _ _ h => h.imp And.left

/-- The loop over the waiting disks: each turn relies on the value that its own condition has
read. -/
theorem known_openLoop (turns i : Nat) :
    Keeps (Known P) (openLoop peer page turns i : BackendM maxDev σ Unit) := by
  induction turns generalizing i with
  | zero => exact pure fun _ h => h
  | succ turns ih =>
    refine bind (known_readNumDevices .openLoop) fun numDevices => ?_
    refine ite (fun hlt => ?_) fun _ => pure fun _ h => h.imp And.left
    refine bind (known_addWaiting ?_) fun _ => ?_
    · rintro ⟨-, hcapacity, hmax⟩
      exact ⟨Nat.lt_of_lt_of_le hlt hmax, Nat.lt_of_lt_of_le hlt hcapacity⟩
    · exact (ih (i + 1)).pre fun _ h => h.imp And.left

theorem known_openDevPage (addr : UInt64) :
    Keeps (Known P) (vcablkBckndOpenDevPage peer addr : BackendM maxDev σ (Option Nat)) := by
  unfold vcablkBckndOpenDevPage
  have hnone : Keeps (Known P) (pure none : BackendM maxDev σ (Option Nat)) :=
    Triple.pure fun _ h => h
  refine bind (known_ask _) fun copy => ?_
  cases copy with
  | none => exact hnone
  | some copy =>
    refine ite (fun _ => ?_) fun _ => hnone
    refine bind (known_ask _) fun mapped => ?_
    refine ite (fun _ => ?_) fun _ => hnone
    refine bind (known_readNumDevices .clamp) fun numDevices => ?_
    refine bind (known_ask _) fun _ => ?_
    refine bind (known_ask _) fun _ => ?_
    refine bind (known_openLoop _ _) fun _ => ?_
    exact Triple.pure fun _ h => h.imp And.left

theorem known_openPage (addr : UInt64) :
    Keeps (Known P) (openPage peer addr : BackendM maxDev σ Unit) := by
  unfold openPage
  refine bind (known_openDevPage addr) fun page => ?_
  exact bind (known_modifyBdev _) fun _ => known_ask _

theorem known_closeDevPage : Keeps (Known P) (vcablkBckndCloseDevPage : BackendM maxDev σ Unit) :=
  known_modifyBdev _

theorem known_setDevPage (addr : UInt64) :
    Keeps (Known P) (vcablkBckndSetDevPage peer addr : BackendM maxDev σ Unit) := by
  unfold vcablkBckndSetDevPage
  refine ite (fun _ => known_closeDevPage) fun _ => ?_
  refine bind (known_getBdev _) fun remapped => ?_
  refine ite (fun _ => ?_) fun _ => known_openPage addr
  refine bind (known_ask _) fun reinitDevPage => ?_
  refine bind (known_getBdev _) fun dpAddr => ?_
  refine ite (fun _ => pure fun _ h => h) fun _ => ?_
  exact bind known_closeDevPage fun _ => known_openPage addr

theorem known_handleAck (devId : Nat) (response : DeviceResponse) :
    Keeps (Known P) (handleAck peer devId response : BackendM maxDev σ Unit) := by
  unfold handleAck
  split
  · refine bind (known_ask _) fun _ => ?_
    refine bind (known_ask _) fun err => ?_
    refine ite (fun _ => ?_) fun _ => pure fun _ h => h
    refine bind (known_modifyBdev _) fun _ => ?_
    exact bind (known_ask _) fun _ => known_ask _
  all_goals exact known_ask _

theorem known_ftbTurn {devId : Nat} (hinside : P → devId < maxDev ∧ devId < capacity page) :
    Keeps (Known P) (ftbTurn peer page devId : BackendM maxDev σ Unit) := by
  unfold ftbTurn
  refine bind (known_process hinside) fun _ => ?_
  refine bind (known_ask _) fun response => ?_
  refine ite (fun _ => pure fun _ h => h) fun _ => ?_
  refine bind (known_deviceAt hinside) fun bckd => ?_
  cases bckd with
  | none => exact pure fun _ h => h.imp And.left
  | some bckd =>
    refine bind (known_ask _) fun again => ?_
    exact (known_handleAck devId _).post fun _ _ h => h.imp And.left

theorem known_ftbLoop {turns devId : Nat}
    (hinside : P → devId + turns ≤ maxDev ∧ devId + turns ≤ capacity page) :
    Keeps (Known P) (ftbLoop peer page turns devId : BackendM maxDev σ Unit) := by
  induction turns generalizing devId with
  | zero => exact pure fun _ h => h
  | succ turns ih =>
    have hthis : P → devId < maxDev ∧ devId < capacity page := fun hP => by
      have := hinside hP
      omega
    have hrest : P → devId + 1 + turns ≤ maxDev ∧ devId + 1 + turns ≤ capacity page := fun hP => by
      have := hinside hP
      omega
    exact bind (known_ftbTurn hthis) fun _ => ih hrest

theorem known_checkPage (dpAddr : UInt64) :
    Keeps (Known P) (checkPage peer dpAddr : BackendM maxDev σ Unit) := by
  unfold checkPage
  refine bind (known_getBdev _) fun old => ?_
  refine bind (known_getBdev _) fun remapped => ?_
  refine ite (fun _ => known_closeDevPage) fun _ => ?_
  refine ite (fun _ => ?_) fun _ => pure fun _ h => h
  refine bind (known_ask _) fun valid => ?_
  refine ite (fun _ => ?_) fun _ => ?_
  · refine bind (known_ask _) fun _ => ?_
    refine bind (known_ask _) fun destroy => ?_
    refine ite (fun _ => ?_) fun _ => pure fun _ h => h
    refine bind (known_ask _) fun _ => ?_
    refine bind known_closeDevPage fun _ => ?_
    exact bind (known_ask _) fun _ => known_ask _
  · refine bind known_closeDevPage fun _ => ?_
    exact bind (known_ask _) fun _ => pure fun _ h => h

theorem known_ftbDevices : Keeps (Known P) (ftbDevices peer page : BackendM maxDev σ Unit) := by
  unfold ftbDevices
  refine bind (known_readNumDevices .ftbWork) fun numDevices => ?_
  refine (known_ftbLoop ?_).post fun _ _ h => h.imp And.left
  rintro ⟨-, hcapacity⟩
  change numDevices ≤ capacity page at hcapacity
  omega

theorem known_reloadPage (dpAddr : UInt64) :
    Keeps (Known P) (reloadPage peer dpAddr : BackendM maxDev σ Unit) :=
  ite (fun _ => known_setDevPage dpAddr) fun _ => pure fun _ h => h

theorem known_ftbWork : Keeps (Known P) (vcablkBckndFtbWork peer : BackendM maxDev σ Unit) := by
  unfold vcablkBckndFtbWork
  refine bind (known_ask _) fun dpAddr => ?_
  refine bind (known_checkPage dpAddr) fun _ => ?_
  refine bind (known_reloadPage dpAddr) fun _ => ?_
  refine bind (known_getBdev _) fun remapped => ?_
  cases remapped with
  | none => exact known_ask _
  | some page => exact known_ftbDevices

theorem known_create (diskId : Nat) :
    Keeps (Known P) (vcablkBckndCreate peer diskId : BackendM maxDev σ Int) := by
  unfold vcablkBckndCreate
  split
  · rename_i hlt
    refine bind (known_getBdev _) fun bckd => ?_
    refine ite (fun _ => pure fun _ h => h) fun _ => ?_
    refine bind (known_ask _) fun err => ?_
    refine ite (fun _ => pure fun _ h => h) fun _ => ?_
    refine bind (known_modifyBdev _) fun _ => ?_
    refine bind (known_getBdev _) fun remapped => ?_
    cases remapped with
    | none => exact pure fun _ h => h
    | some page => exact known_addToDevpage fun _ => hlt
  · exact pure fun _ h => h

theorem known_backendOp (op : BackendOp) :
    Keeps (Known P) (backendOp peer op : BackendM maxDev σ Unit) := by
  cases op with
  | ftbWork => exact known_ftbWork
  | create diskId => exact bind (known_create diskId) fun _ => pure fun _ h => h
  | destroy diskId => exact known_modifyBdev _
  | close => exact known_closeDevPage

theorem known_backendRun (ops : List BackendOp) :
    Keeps (Known P) (backendRun peer ops : BackendM maxDev σ Unit) := by
  induction ops with
  | nil => exact pure fun _ h => h
  | cons op ops ih => exact bind (known_backendOp op) fun _ => ih

/-- **The validated number of devices is respected by an honest peer**: if no read of `num_devices`
after the validation shows more than the page has control blocks, and none in the loop of
`vcablk_bcknd_open_dev_page` more than `vcablk_bcknd_max_dev`, then every device that is
processed in a run is one of the array and of the page. -/
theorem validated_count_respected (peer : Peer σ) (ops : List BackendOp)
    (s : BackendState maxDev σ)
    (hhonest : (backendRun peer ops ⟨s, []⟩).2.All (Honest maxDev)) :
    (backendRun peer ops ⟨s, []⟩).2.All (Inside maxDev) :=
  (known_backendRun ops _ (Logged.relying_start s) hhonest).1

end

/-! ## Two peers -/

/-- A page with one control block, whose number of devices is the next value of the state at each
read, and 1 in the copy of the header -/
def listPeer : Peer (List UInt32) where
  getDpAddr _ := pure 4096
  copyHeader _ := pure (some ⟨4, 376, 1, 1, 0⟩)
  ioremap _ _ := pure true
  numDevices values := (values.headD 0, values.tail)
  setNumDevices _ := pure ()
  publish := pure ()
  reinitDevPage := pure 0
  pageValid := pure true
  dumpEvents := pure ()
  destroyInit := pure false
  destroyEnd := pure ()
  sendIntr := pure ()
  response _ := pure ⟨some .none, 0⟩
  clearAck _ := pure ()
  setCommand _ _ := pure ()
  describeDisk _ := pure ()
  diskStart _ := pure 0
  diskCreate _ := pure 0
  wakeUp _ := pure ()
  beyond _ := pure none

/-- No page is open, and there is no disk; `values` are the numbers of devices to come. -/
def closedBackend (values : List UInt32) : BackendState 8 (List UInt32) :=
  ⟨⟨0, none, fun _ => none⟩, values⟩

/-- A page with three control blocks, whose number of devices stays what it was in the copy -/
def steadyPeer : Peer (List UInt32) :=
  { listPeer with
    copyHeader := fun _ => pure (some ⟨4, 520, 1, 3, 0⟩)
    numDevices := fun values => (3, values) }

/-- Disks are created before the page is opened and after it, and the last control block is
processed. -/
theorem kept_count_respected :
    Access.process 520 2 ∈ (backendRun steadyPeer [.create 1, .ftbWork, .create 2, .ftbWork]
        ⟨closedBackend [], []⟩).2.log ∧
      (backendRun steadyPeer [.create 1, .ftbWork, .create 2, .ftbWork]
        ⟨closedBackend [], []⟩).2.All (Inside 8) := by
  refine ⟨by decide +kernel, validated_count_respected _ _ _ ?_⟩
  change ∀ e ∈ (backendRun steadyPeer [.create 1, .ftbWork, .create 2, .ftbWork]
    ⟨closedBackend [], []⟩).2.log, Honest 8 e
  decide +kernel

/-- The number is 1 in the copy and 9 afterwards: the loop looks at `device_array[8]`, behind the end
of the array of 8 disks, and at entries for which the page has no control block; the work
reads `devs[1]` to `devs[7]`. -/
theorem raised_count_followed :
    ¬ (backendRun listPeer [.ftbWork]
      ⟨closedBackend [9, 9, 9, 9, 9, 9, 9, 9, 9, 9, 0, 9], []⟩).2.All (Inside 8) := by
  have hprocess : Access.process 376 8 ∈ (backendRun listPeer [.ftbWork]
      ⟨closedBackend [9, 9, 9, 9, 9, 9, 9, 9, 9, 9, 0, 9], []⟩).2.log := by
    decide +kernel
  intro hinside
  have hlt := (hinside _ hprocess).1
  omega

end Vcass.Control.DevPage
