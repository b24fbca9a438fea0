import Mathlib.Algebra.Order.Ring.Nat
import Vcass.Core.Effects
import Vcass.Core.Kernel

/-!
# Booting and Flashing a Card

The leveraged boot protocol runs over scratchpad registers: the host writes a command, and polls the
`ready` field of the card until it shows one of the bits that it waits for, or an error bit, or the
time is up.

One variable, `err`, has the outcome of all this: a negative code, the `ready` value of a wait, or the
result of a DMA transfer.  `Answered` is what a function may rely on when it has tested it, and
`Reported` is what its own result promises.  The log has the end of every wait, and the card, the
mapping, the copies and the DMA engine are the state of an arbitrary device.

Every function that goes through the tests of `lbpResult` reports an error of the card.
`plx_lbp_boot_from_usb` tests for a timeout only (`usb_error_ignored`), so that its success means
something only as long as the card does not show an error before it boots
(`success_means_no_card_error_iff`).
-/

namespace Vcass.Lbp

open Vcass.Core Logged

/-! ## Registers -/

inductive Spad where
  /-- `PLX_LBP_SPAD_i7_READY` -/
  | i7Ready
  /-- `PLX_LBP_SPAD_i7_CMD` -/
  | i7Cmd
  /-- `PLX_LBP_SPAD_DATA_LOW` -/
  | dataLow
  /-- `PLX_LBP_SPAD_DATA_HIGH` -/
  | dataHigh
  /-- `PLX_LBP_SPAD_i7_ERROR` -/
  | i7Error

/-- `PLX_LBP_i7_READY` -/
def i7Ready : BitVec 32 := 1#32 <<< 1
/-- `PLX_LBP_i7_BOOTING` -/
def i7Booting : BitVec 32 := 1#32 <<< 3
/-- `PLX_LBP_i7_FLASHING` -/
def i7Flashing : BitVec 32 := 1#32 <<< 4
/-- `PLX_LBP_i7_DONE` -/
def i7Done : BitVec 32 := 1#32 <<< 5
/-- `PLX_LBP_i7_UEFI_ERROR` -/
def i7UefiError : BitVec 32 := 1#32 <<< 6
/-- `PLX_LBP_i7_GENERAL_ERROR` -/
def i7GeneralError : BitVec 32 := 1#32 <<< 7
/-- `PLX_LBP_i7_OS_READY` -/
def i7OsReady : BitVec 32 := 1#32 <<< 8
/-- `PLX_LBP_i7_BOOTING_BLOCK_IO` -/
def i7BootingBlockIo : BitVec 32 := 1#32 <<< 17
/-- `PLX_LBP_i7_ANY_ERROR` -/
def i7AnyError : BitVec 32 := i7UefiError ||| i7GeneralError

/-- The commands of `enum PLX_LBP_CMD` that are used here -/
inductive LbpCmd where
  | bootLoader
  | mapRamdisk
  | bootRamdisk
  | flashFw
  | flashBios
  | bootBlockIo
deriving DecidableEq

def LbpCmd.toBitVec : LbpCmd → BitVec 16
  | .bootLoader => 1
  | .mapRamdisk => 2
  | .bootRamdisk => 4
  | .flashFw => 5
  | .flashBios => 6
  | .bootBlockIo => 13

/-- `struct plx_lbp_i7_cmd`: the command is in the lower half. -/
structure I7Cmd where
  cmd : LbpCmd
  param : BitVec 16
deriving DecidableEq

def I7Cmd.value (c : I7Cmd) : BitVec 32 := c.param ++ c.cmd.toBitVec

/-- `PLX_LBP_PARAM_BAR23` -/
def paramBar23 : BitVec 16 := 1

/-- The timeouts, in turns of one millisecond -/
structure Parameters where
  i7AllocTimeoutMs : Nat
  i7CmdTimeoutMs : Nat

/-- `LBP_STATE_OK` -/
def lbpStateOk : Int := 0
/-- `LBP_ALLOC_TIMEOUT` -/
def lbpAllocTimeout : Int := 3
/-- `LBP_CMD_TIMEOUT` -/
def lbpCmdTimeout : Int := 4
/-- `LBP_INTERNAL_ERROR` -/
def lbpInternalError : Int := 7

/-! ## The device -/

/-- The card and the kernel, as far as the functions of this module call them.  Each answer may depend
on everything that was done before. -/
structure Xdev (σ : Type) where
  parameters : Parameters
  /-- `xdev->dma_ch` is set -/
  dmaCh : σ → Bool
  /-- `xdev->a_lut` is set -/
  aLut : σ → Bool
  /-- `xdev->aper.pa` and `xdev->aper.va` -/
  aperPa : BitVec 64
  aperVa : BitVec 64
  aLutPeerEnable : StateM σ Unit
  readSpad : Spad → StateM σ (BitVec 32)
  writeSpad : Spad → BitVec 32 → StateM σ Unit
  /-- `dma_alloc_coherent`: the bus address of the buffer -/
  dmaAllocCoherent : Nat → StateM σ (Option (BitVec 64))
  dmaFreeCoherent : Nat → BitVec 64 → StateM σ Unit
  /-- `copy_from_user` of a chunk of the image: the number of bytes that were not copied -/
  copyFromUser : Nat → Nat → StateM σ Nat
  /-- `plx_ioremap` -/
  ioremap : BitVec 64 → Nat → StateM σ (Option (BitVec 64))
  iounmap : BitVec 64 → StateM σ Unit
  /-- `device_prep_dma_memcpy`: a descriptor was prepared -/
  prepDmaMemcpy : BitVec 64 → BitVec 64 → Nat → StateM σ Bool
  /-- `tx_submit`: a cookie, negative for an error -/
  txSubmit : StateM σ Int
  /-- `dma_sync_wait`: `DMA_COMPLETE` is 0 -/
  dmaSyncWait : Int → StateM σ Nat
  /-- `bootparam->blockio_dp` is set, and the backend is told so. -/
  setBlockioDp : BitVec 64 → StateM σ Unit

inductive WaitEnd where
  | timeout
  | ready (value : BitVec 32)

/-- Without timeout, and without an error bit -/
def WaitEnd.Clear : WaitEnd → Prop
  | .timeout => False
  | .ready value => value &&& i7AnyError = 0#32

instance : DecidablePred WaitEnd.Clear
  | .timeout => inferInstanceAs (Decidable False)
  | .ready value => inferInstanceAs (Decidable (value &&& i7AnyError = 0#32))

/-- A program on the device, with the waits in the log -/
abbrev LbpM (σ α : Type) : Type := StateM (Logged σ WaitEnd) α

section

variable {σ : Type} (xdev : Xdev σ)

/-! ## Waiting -/

/-- The field `ready : 24` of the register -/
def readyField (value : BitVec 32) : BitVec 32 := (value.setWidth 24).setWidth 32

/-- `plx_lbp_get_i7_status(xdev).ready` -/
def plxLbpGetI7Ready : LbpM σ (BitVec 32) := do
  let value ← Logged.lift (xdev.readSpad .i7Ready)
  pure (readyField value)

/-- The event of the two calls of `lbp_wait_event` -/
def reached (state ready : BitVec 32) : Bool :=
  if state = 0#32 then ready == state else ready &&& state != 0#32

/-- `lbp_wait_event`: the value for which the event has come -/
def lbpWaitEvent (state : BitVec 32) : Nat → LbpM σ (Option (BitVec 32))
  | 0 => pure none
  | turns + 1 => do
    let ready ← plxLbpGetI7Ready xdev
    if reached state ready then pure (some ready) else lbpWaitEvent state turns

/-- `plx_lbp_wait_for_i7_state` -/
def plxLbpWaitForI7State (state : BitVec 32) (timeout : Nat) : LbpM σ Int := do
  match ← lbpWaitEvent xdev state timeout with
  | none => do
    Logged.record .timeout
    pure (-eTime)
  | some ready => do
    Logged.record (.ready ready)
    pure ready.toInt

/-- `err & PLX_LBP_i7_ANY_ERROR` -/
def anyError (err : Int) : Prop := BitVec.ofInt 32 err &&& i7AnyError ≠ 0#32

instance (err : Int) : Decidable (anyError err) :=
  inferInstanceAs (Decidable (BitVec.ofInt 32 err &&& i7AnyError ≠ 0#32))

/-- The tests of `err` with which the functions end -/
def lbpResult (err : Int) : LbpM σ Int :=
  if err < 0 then pure (-err)
  else if anyError err then do
    let _ ← Logged.lift (xdev.readSpad .i7Error)
    pure lbpInternalError
  else pure lbpStateOk

/-! ## Sending an image -/

/-- `HPAGE_SIZE` -/
def hpageSize : Nat := 2 * 1024 * 1024

/-- `vca_lbp_sync_dma` -/
def vcaLbpSyncDma (dst src : BitVec 64) (len : Nat) : LbpM σ Int := do
  let dmaCh ← Logged.view xdev.dmaCh
  if dmaCh = false then pure (-eBusy)
  else do
    let tx ← Logged.lift (xdev.prepDmaMemcpy dst src len)
    if tx = false then pure (-eNoMem)
    else do
      let cookie ← Logged.lift xdev.txSubmit
      if cookie < 0 then pure (-eNoMem)
      else do
        let status ← Logged.lift (xdev.dmaSyncWait cookie)
        pure status

/-- What is left of the image, or a chunk of the same size -/
def nextChunk (imgSize offset tempBuffSize : Nat) : Nat :=
  if imgSize - offset > tempBuffSize then tempBuffSize else imgSize - offset

theorem nextChunk_pos {imgSize offset tempBuffSize : Nat} (hsize : 0 < tempBuffSize)
    (h : offset < imgSize) : 0 < nextChunk imgSize offset tempBuffSize := by
  unfold nextChunk
  split
  · exact hsize
  · omega

/-- The copying loop of `plx_lbp_send_ramdisk`.  It comes to an end because no chunk is empty while
something is left. -/
def sendChunks (ramdiskPh tempBuffDa : BitVec 64) (imgSize : Nat) (err : Int)
    (offset tempBuffSize : Nat) (hsize : offset < imgSize → 0 < tempBuffSize) : LbpM σ Int :=
  if hmore : offset < imgSize then do
    let left ← Logged.lift (xdev.copyFromUser offset tempBuffSize)
    if left ≠ 0 then pure (-lbpInternalError)
    else do
      match ← Logged.lift (xdev.ioremap (ramdiskPh + BitVec.ofNat 64 offset) tempBuffSize) with
      | none => pure (-lbpInternalError)
      | some remapped => do
        let chunkDst := xdev.aperPa + (remapped - xdev.aperVa)
        let err ← vcaLbpSyncDma xdev chunkDst tempBuffDa tempBuffSize
        Logged.lift (xdev.iounmap remapped)
        if err ≠ 0 then pure (-lbpInternalError)
        else
          sendChunks ramdiskPh tempBuffDa imgSize err (offset + tempBuffSize)
            (nextChunk imgSize (offset + tempBuffSize) tempBuffSize)
            (nextChunk_pos (hsize hmore))
  else pure err
termination_by imgSize - offset
decreasing_by
  have := hsize hmore
  omega

structure TempBuff where
  size : Nat
  /-- The bus address -/
  da : BitVec 64
  size_pos : 0 < size

/-- A huge page, or else a page -/
def allocTempBuff : LbpM σ (Option TempBuff) := do
  match ← Logged.lift (xdev.dmaAllocCoherent hpageSize) with
  | some da => pure (some ⟨hpageSize, da, by decide⟩)
  | none =>
    match ← Logged.lift (xdev.dmaAllocCoherent pageSize) with
    | some da => pure (some ⟨pageSize, da, by decide⟩)
    | none => pure none

def firstChunk (imgSize tempBuffSize : Nat) : Nat :=
  if imgSize < tempBuffSize then imgSize else tempBuffSize

theorem firstChunk_pos {imgSize tempBuffSize : Nat} (hsize : 0 < tempBuffSize) (h : 0 < imgSize) :
    0 < firstChunk imgSize tempBuffSize := by
  unfold firstChunk
  split
  · exact h
  · exact hsize

/-- The card maps a ramdisk, and the image is copied to it: `plx_lbp_send_ramdisk` from the allocated
buffer to the label `exit`.  The value is `err`. -/
def sendImage (imgSize : Nat) (buff : TempBuff) : LbpM σ Int := do
  let allocSize := (imgSize + (1024 * 1024 - 1)) % 2 ^ 64 / (1024 * 1024)
  Logged.lift (xdev.writeSpad .dataLow (BitVec.ofNat 32 allocSize))
  Logged.lift (xdev.writeSpad .dataHigh 0)
  Logged.lift (xdev.writeSpad .i7Cmd (I7Cmd.value ⟨.mapRamdisk, paramBar23⟩))
  let err ← plxLbpWaitForI7State xdev (i7Done ||| i7AnyError) xdev.parameters.i7AllocTimeoutMs
  if err < 0 then do
    -- the register is read again for the message
    let _ ← Logged.lift (xdev.readSpad .i7Ready)
    pure (-lbpAllocTimeout)
  else if anyError err then pure err
  else do
    let high ← Logged.lift (xdev.readSpad .dataHigh)
    let low ← Logged.lift (xdev.readSpad .dataLow)
    let ramdiskPh := (high.setWidth 64 <<< 32) + low.setWidth 64
    sendChunks xdev ramdiskPh buff.da imgSize err 0 (firstChunk imgSize buff.size)
      (firstChunk_pos buff.size_pos)

/-- `plx_a_lut_peer_enable` if there is an A-LUT -/
def enableALut : LbpM σ Unit := do
  let aLut ← Logged.view xdev.aLut
  if aLut then Logged.lift xdev.aLutPeerEnable else pure ()

/-- `plx_lbp_send_ramdisk` -/
def plxLbpSendRamdisk (imgSize : Nat) : LbpM σ Int := do
  let dmaCh ← Logged.view xdev.dmaCh
  if dmaCh = false then lbpResult xdev (-lbpInternalError)
  else do
    enableALut xdev
    let ready ← plxLbpGetI7Ready xdev
    if ready ≠ i7Ready then lbpResult xdev (-lbpInternalError)
    else do
      match ← allocTempBuff xdev with
      | none => lbpResult xdev (-lbpInternalError)
      | some buff => do
        let err ← sendImage xdev imgSize buff
        Logged.lift (xdev.dmaFreeCoherent buff.size buff.da)
        lbpResult xdev err

/-! ## Booting -/

/-- `plx_lbp_boot_ramdisk` -/
def plxLbpBootRamdisk (imgSize : Nat) : LbpM σ Int := do
  let err ← plxLbpSendRamdisk xdev imgSize
  if err ≠ lbpStateOk then pure err
  else do
    Logged.lift (xdev.writeSpad .i7Cmd (I7Cmd.value ⟨.bootRamdisk, 0⟩))
    let err ← plxLbpWaitForI7State xdev (i7Booting ||| i7OsReady ||| i7AnyError)
      xdev.parameters.i7CmdTimeoutMs
    lbpResult xdev (if err < 0 then -lbpCmdTimeout else err)

/-- `plx_lbp_blkio_set_devpage` -/
def plxLbpBlkioSetDevpage : LbpM σ Unit := do
  let high ← Logged.lift (xdev.readSpad .dataHigh)
  let low ← Logged.lift (xdev.readSpad .dataLow)
  Logged.lift (xdev.setBlockioDp ((high.setWidth 64 <<< 32) + low.setWidth 64))

/-- `plx_lbp_boot_blkdisk`.  A card that is not ready gives a negative result. -/
def plxLbpBootBlkdisk : LbpM σ Int := do
  enableALut xdev
  let ready ← plxLbpGetI7Ready xdev
  if ready ≠ i7Ready then pure (-lbpInternalError)
  else do
    Logged.lift (xdev.writeSpad .i7Cmd (I7Cmd.value ⟨.bootBlockIo, 0⟩))
    let err ← plxLbpWaitForI7State xdev (i7BootingBlockIo ||| i7OsReady ||| i7AnyError)
      xdev.parameters.i7CmdTimeoutMs
    let ret ← lbpResult xdev (if err < 0 then -lbpCmdTimeout else err)
    -- the backend gets the device page before the function returns
    if ret = lbpStateOk then do
      plxLbpBlkioSetDevpage xdev
      pure ret
    else pure ret

/-- `plx_lbp_boot_from_usb` -/
def plxLbpBootFromUsb : LbpM σ Int := do
  Logged.lift (xdev.writeSpad .i7Cmd (I7Cmd.value ⟨.bootLoader, 0⟩))
  let err ← plxLbpWaitForI7State xdev (i7Booting ||| i7AnyError) xdev.parameters.i7CmdTimeoutMs
  if err < 0 then pure lbpCmdTimeout else pure lbpStateOk

/-! ## Flashing -/

/-- `plx_lbp_flash`, with the timeout for an old BIOS -/
def plxLbpFlash (cmd : I7Cmd) (fileSize : Nat) : LbpM σ Int := do
  let err ← plxLbpSendRamdisk xdev fileSize
  if err ≠ lbpStateOk then pure err
  else do
    Logged.lift (xdev.writeSpad .i7Cmd cmd.value)
    let err ← plxLbpWaitForI7State xdev (i7Flashing ||| i7AnyError) xdev.parameters.i7CmdTimeoutMs
    if err < 0 then lbpResult xdev (-lbpCmdTimeout)
    else if anyError err then lbpResult xdev err
    else do
      let err ← plxLbpWaitForI7State xdev (i7Done ||| i7AnyError) 300000
      lbpResult xdev (if err < 0 then -lbpCmdTimeout else err)

/-- `plx_lbp_flash_bios` -/
def plxLbpFlashBios (biosFileSize : Nat) : LbpM σ Int :=
  plxLbpFlash xdev ⟨.flashBios, 0⟩ biosFileSize

/-- `plx_lbp_clear_smb_event_log`: the command is the one for the BIOS. -/
def plxLbpClearSmbEventLog (fileSize : Nat) : LbpM σ Int :=
  plxLbpFlash xdev ⟨.flashBios, 0⟩ fileSize

/-- `plx_lbp_update_mac_addr` -/
def plxLbpUpdateMacAddr (fileSize : Nat) : LbpM σ Int :=
  plxLbpFlash xdev ⟨.flashFw, 0⟩ fileSize

end

/-! ## What a result says about the waits -/

section

variable {σ : Type} {xdev : Xdev σ}

/-- All waits so far have ended without timeout and without an error bit. -/
abbrev Clear : Logged σ WaitEnd → Prop := Logged.All WaitEnd.Clear

/-- What is known when `err` passes the tests -/
def Answered (err : Int) (r : Logged σ WaitEnd) : Prop := 0 ≤ err → ¬ anyError err → Clear r

def Reported (ret : Int) (r : Logged σ WaitEnd) : Prop := ret = lbpStateOk → Clear r

theorem answered_of_neg {err : Int} (h : err < 0) (r : Logged σ WaitEnd) : Answered err r :=
  fun hnonneg => absurd h (Int.not_lt.mpr hnonneg)

/-- The bits of a `ready` value are the bits of `err`. -/
theorem anyError_toInt (ready : BitVec 32) : anyError ready.toInt ↔ ready &&& i7AnyError ≠ 0#32 := by
  rw [anyError, BitVec.ofInt_toInt]

theorem keeps_getI7Ready {p : WaitEnd → Prop} : Keeps (Logged.All p) (plxLbpGetI7Ready xdev) :=
  .bind (keeps_lift _) fun _ => .pure fun _ h => h

theorem keeps_waitEvent {p : WaitEnd → Prop} (state : BitVec 32) (turns : Nat) :
    Keeps (Logged.All p) (lbpWaitEvent xdev state turns) := by
  induction turns with
  | zero => exact .pure fun _ h => h
  | succ turns ih =>
    refine .bind keeps_getI7Ready fun ready => ?_
    exact .ite (fun _ => .pure fun _ h => h) fun _ => ih

/-- **A wait**: the tests of its value show a timeout and every error bit. -/
theorem triple_wait (state : BitVec 32) (timeout : Nat) :
    Triple Clear (plxLbpWaitForI7State xdev state timeout) Answered := by
  refine .bind (keeps_waitEvent state timeout) fun ready => ?_
  cases ready with
  | none =>
    refine .bind (triple_record _) fun _ => .pure fun r _ => ?_
    exact answered_of_neg (by decide) r
  | some ready =>
    refine .bind (triple_record _) fun _ => .pure fun r hr => ?_
    intro _ hbits
    rw [anyError_toInt, not_not] at hbits
    exact hr hbits

/-- **The tests with which the functions end**: whatever `err` is, its errors are reported. -/
theorem triple_result (err : Int) : Triple (Answered err) (lbpResult xdev err) Reported := by
  refine .ite (fun hneg => ?_) fun hnonneg => .ite (fun hbits => ?_) fun hclear => ?_
  · exact .pure fun r _ hok => absurd hneg (by rw [lbpStateOk] at hok; omega)
  · exact .bind (.trivial _) fun _ => .pure fun r _ hok => nomatch hok
  · exact .pure fun r hr _ => hr (Int.not_lt.mp hnonneg) hclear

theorem triple_result_code {code : Int} (hcode : code < 0) (err : Int) :
    Triple (Answered err) (lbpResult xdev (if err < 0 then code else err)) Reported := by
  by_cases hneg : err < 0
  · rw [if_pos hneg]
    exact (triple_result code).pre fun r _ => answered_of_neg hcode r
  · rw [if_neg hneg]
    exact triple_result err

theorem triple_result_neg {code : Int} (hcode : code < 0) :
    Triple Clear (lbpResult xdev code) Reported :=
  (triple_result code).pre fun r _ => answered_of_neg hcode r

/-! ## Sending an image -/

theorem keeps_syncDma (dst src : BitVec 64) (len : Nat) :
    Keeps Clear (vcaLbpSyncDma xdev dst src len) := by
  refine .bind (keeps_view _) fun dmaCh => .ite (fun _ => .pure fun _ h => h) fun _ => ?_
  refine .bind (keeps_lift _) fun tx => .ite (fun _ => .pure fun _ h => h) fun _ => ?_
  refine .bind (keeps_lift _) fun cookie => .ite (fun _ => .pure fun _ h => h) fun _ => ?_
  exact .bind (keeps_lift _) fun status => .pure fun _ h => h

theorem keeps_sendChunks (ramdiskPh tempBuffDa : BitVec 64) (imgSize : Nat) (err : Int)
    (offset tempBuffSize : Nat) (hsize : offset < imgSize → 0 < tempBuffSize) :
    Keeps Clear (sendChunks xdev ramdiskPh tempBuffDa imgSize err offset tempBuffSize hsize) := by
  -- the induction is on what is left of the image
  induction hleft : imgSize - offset using Nat.strongRecOn
    generalizing err offset tempBuffSize with
  | _ left ih =>
    rw [sendChunks]
    by_cases hmore : offset < imgSize
    · rw [dif_pos hmore]
      have hpos := hsize hmore
      refine .bind (keeps_lift _) fun _ => .ite (fun _ => .pure fun _ h => h) fun _ => ?_
      refine .bind (keeps_lift _) fun remapped => ?_
      cases remapped with
      | none => exact .pure fun _ h => h
      | some remapped =>
        refine .bind (keeps_syncDma _ _ _) fun err => .bind (keeps_lift _) fun _ => ?_
        refine .ite (fun _ => .pure fun _ h => h) fun _ => ?_
        exact ih _ (by omega) _ _ _ _ rfl
    · rw [dif_neg hmore]
      exact .pure fun _ h => h

theorem keeps_allocTempBuff : Keeps Clear (allocTempBuff xdev) := by
  refine .bind (keeps_lift _) fun da => ?_
  cases da with
  | some da => exact .pure fun _ h => h
  | none =>
    refine .bind (keeps_lift _) fun da => ?_
    cases da with
    | some da => exact .pure fun _ h => h
    | none => exact .pure fun _ h => h

theorem triple_sendImage (imgSize : Nat) (buff : TempBuff) :
    Triple Clear (sendImage xdev imgSize buff) Answered := by
  refine .bind (keeps_lift _) fun _ => .bind (keeps_lift _) fun _ => ?_
  refine .bind (keeps_lift _) fun _ => .bind (triple_wait _ _) fun err => ?_
  refine .ite (fun _ => ?_) fun hnonneg => .ite (fun _ => ?_) fun hclear => ?_
  · exact .bind (.trivial _) fun _ => .pure fun r _ => answered_of_neg (by decide) r
  · exact .pure fun r hr => hr
  · -- the wait was clear, and nothing is waited for from here on
    have hanswer : ∀ r : Logged σ WaitEnd, Answered err r → Clear r :=
      fun r hr => hr (Int.not_lt.mp hnonneg) hclear
    refine Triple.pre (.bind (keeps_lift _) fun high => ?_) hanswer
    refine .bind (keeps_lift _) fun low => ?_
    exact (keeps_sendChunks _ _ _ _ _ _ _).post fun _ r hr _ _ => hr

theorem keeps_enableALut : Keeps Clear (enableALut xdev) :=
  .bind (keeps_view _) fun _ =>
    .ite (fun _ => keeps_lift _) fun _ => .pure fun _ h => h

/-- **Sending an image** -/
theorem triple_sendRamdisk (imgSize : Nat) :
    Triple Clear (plxLbpSendRamdisk xdev imgSize) Reported := by
  refine .bind (keeps_view _) fun dmaCh => ?_
  refine .ite (fun _ => triple_result_neg (by decide)) fun _ => ?_
  refine .bind keeps_enableALut fun _ => .bind keeps_getI7Ready fun ready => ?_
  refine .ite (fun _ => triple_result_neg (by decide)) fun _ => ?_
  refine .bind keeps_allocTempBuff fun buff => ?_
  cases buff with
  | none => exact triple_result_neg (by decide)
  | some buff =>
    refine .bind (triple_sendImage imgSize buff) fun err => ?_
    have hfree : Keeps (Answered err)
        (lift (xdev.dmaFreeCoherent buff.size buff.da) : LbpM σ Unit) := fun _ hr => hr
    exact .bind hfree fun _ => triple_result err

/-! ## Main results -/

theorem triple_bootRamdisk (imgSize : Nat) :
    Triple Clear (plxLbpBootRamdisk xdev imgSize) Reported := by
  refine .bind (triple_sendRamdisk imgSize) fun err => .ite (fun _ => ?_) fun hok => ?_
  · exact .pure fun r hr => hr
  · refine Triple.pre (.bind (keeps_lift _) fun _ => ?_) fun r hr => hr (not_not.mp hok)
    exact .bind (triple_wait _ _) fun err => triple_result_code (by decide) err

theorem triple_bootBlkdisk : Triple Clear (plxLbpBootBlkdisk xdev) Reported := by
  refine .bind keeps_enableALut fun _ => .bind keeps_getI7Ready fun ready => ?_
  refine .ite (fun _ => .pure fun r hr _ => hr) fun _ => ?_
  refine .bind (keeps_lift _) fun _ => .bind (triple_wait _ _) fun err => ?_
  refine .bind (triple_result_code (by decide) err) fun ret => .ite (fun _ => ?_) fun _ => ?_
  · -- the device page is read without waiting
    exact fun r hr => hr
  · exact .pure fun r hr => hr

theorem triple_flash (cmd : I7Cmd) (fileSize : Nat) :
    Triple Clear (plxLbpFlash xdev cmd fileSize) Reported := by
  refine .bind (triple_sendRamdisk fileSize) fun err => .ite (fun _ => ?_) fun hok => ?_
  · exact .pure fun r hr => hr
  · refine Triple.pre (.bind (keeps_lift _) fun _ => ?_) fun r hr => hr (not_not.mp hok)
    refine .bind (triple_wait _ _) fun err => ?_
    refine .ite (fun _ => ?_) fun hnonneg => .ite (fun _ => triple_result err) fun hclear => ?_
    · exact (triple_result _).pre fun r _ => answered_of_neg (by decide) r
    · refine Triple.pre (.bind (triple_wait _ _) fun err => ?_)
        fun r hr => hr (Int.not_lt.mp hnonneg) hclear
      exact triple_result_code (by decide) err

/-! ### Booting from USB -/

/-- The values of the `ready` field when it is polled `n` times, from a state of the device on -/
def polls (xdev : Xdev σ) : Nat → σ → List (BitVec 32)
  | 0, _ => []
  | n + 1, s =>
    readyField (xdev.readSpad .i7Ready s).1 :: polls xdev n (xdev.readSpad .i7Ready s).2

theorem waitEvent_eq (state : BitVec 32) (turns : Nat) (r : Logged σ WaitEnd) :
    (lbpWaitEvent xdev state turns r).1 = (polls xdev turns r.state).find? (reached state) ∧
      (lbpWaitEvent xdev state turns r).2.log = r.log := by
  induction turns generalizing r with
  | zero => exact ⟨rfl, rfl⟩
  | succ turns ih =>
    have hturn : lbpWaitEvent xdev state (turns + 1) r =
        (if reached state (readyField (xdev.readSpad .i7Ready r.state).1) then
          pure (some (readyField (xdev.readSpad .i7Ready r.state).1))
        else lbpWaitEvent xdev state turns) { r with state := (xdev.readSpad .i7Ready r.state).2 } :=
      rfl
    rw [hturn, polls, List.find?_cons]
    split
    · rename_i hready
      rw [hready]
      exact ⟨rfl, rfl⟩
    · rename_i hready
      rw [(Bool.not_eq_true _).mp hready]
      exact ih _

/-- The field has 24 bits, so that its value as an `int` is not negative. -/
theorem polls_nonneg {n : Nat} {s : σ} : ∀ value ∈ polls xdev n s, 0 ≤ value.toInt := by
  induction n generalizing s with
  | zero => exact fun _ hv => nomatch hv
  | succ n ih =>
    refine List.forall_mem_cons.mpr ⟨?_, ih⟩
    have hlt := ((xdev.readSpad .i7Ready s).1.setWidth 24).isLt
    rw [readyField, BitVec.toInt_eq_toNat_of_lt]
    · omega
    · rw [BitVec.toNat_setWidth]
      omega

/-- The first value with `PLX_LBP_i7_BOOTING` or an error bit that is polled after the command -/
def usbAnswer (xdev : Xdev σ) (s : σ) : Option (BitVec 32) :=
  (polls xdev xdev.parameters.i7CmdTimeoutMs
    (xdev.writeSpad .i7Cmd (I7Cmd.value ⟨.bootLoader, 0⟩) s).2).find? fun ready =>
      ready &&& (i7Booting ||| i7AnyError) != 0#32

/-- The card does not show an error bit before, or together with, the one that says that it boots. -/
def UsbClear (xdev : Xdev σ) (s : σ) : Prop :=
  ∀ value ∈ usbAnswer xdev s, value &&& i7AnyError = 0#32

/-- **Booting from USB** reports a timeout; the bits of the value are not tested. -/
theorem bootFromUsb_eq (s : σ) :
    ((plxLbpBootFromUsb xdev ⟨s, []⟩).1, (plxLbpBootFromUsb xdev ⟨s, []⟩).2.log) =
      match usbAnswer xdev s with
      | none => (lbpCmdTimeout, [.timeout])
      | some value => (lbpStateOk, [.ready value]) := by
  have hreached : reached (i7Booting ||| i7AnyError) = fun ready =>
      ready &&& (i7Booting ||| i7AnyError) != 0#32 := funext fun _ => if_neg (by decide)
  obtain ⟨hfound, hlog⟩ := @waitEvent_eq σ xdev (i7Booting ||| i7AnyError)
    xdev.parameters.i7CmdTimeoutMs ⟨(xdev.writeSpad .i7Cmd (I7Cmd.value ⟨.bootLoader, 0⟩) s).2, []⟩
  rw [hreached] at hfound
  generalize hwait : lbpWaitEvent xdev (i7Booting ||| i7AnyError) xdev.parameters.i7CmdTimeoutMs
    ⟨(xdev.writeSpad .i7Cmd (I7Cmd.value ⟨.bootLoader, 0⟩) s).2, []⟩ = w at hfound hlog
  have hrun : plxLbpBootFromUsb xdev ⟨s, []⟩ =
      ((match w.1 with
        | none => do
          Logged.record .timeout
          pure (-eTime)
        | some ready => do
          Logged.record (.ready ready)
          pure ready.toInt : LbpM σ Int) >>= fun err =>
            if err < 0 then pure lbpCmdTimeout else pure lbpStateOk) w.2 := by
    rw [← hwait]
    rfl
  rw [hrun, show w.1 = usbAnswer xdev s from hfound]
  cases hvalue : usbAnswer xdev s with
  | none => exact Prod.ext rfl (congrArg (· ++ [WaitEnd.timeout]) hlog)
  | some value =>
    have hnonneg := polls_nonneg value (List.mem_of_find?_eq_some hvalue)
    have hif : (if value.toInt < 0 then pure lbpCmdTimeout else pure lbpStateOk : LbpM σ Int) =
        pure lbpStateOk := if_neg (Int.not_lt.mpr hnonneg)
    exact Prod.ext (congrArg (fun m => (m { w.2 with log := w.2.log ++ [WaitEnd.ready value] }).1) hif)
      ((congrArg (fun m : LbpM σ Int =>
        (m { w.2 with log := w.2.log ++ [WaitEnd.ready value] }).2.log) hif).trans
          (congrArg (· ++ [WaitEnd.ready value]) hlog))

/-- The functions that boot a card or flash it -/
inductive Operation where
  | bootRamdisk (imgSize : Nat)
  | bootBlkdisk
  | flash (cmd : I7Cmd) (fileSize : Nat)
  | flashBios (biosFileSize : Nat)
  | clearSmbEventLog (fileSize : Nat)
  | updateMacAddr (fileSize : Nat)
  | bootFromUsb
deriving DecidableEq

def Operation.run (xdev : Xdev σ) : Operation → LbpM σ Int
  | .bootRamdisk imgSize => plxLbpBootRamdisk xdev imgSize
  | .bootBlkdisk => plxLbpBootBlkdisk xdev
  | .flash cmd fileSize => plxLbpFlash xdev cmd fileSize
  | .flashBios biosFileSize => plxLbpFlashBios xdev biosFileSize
  | .clearSmbEventLog fileSize => plxLbpClearSmbEventLog xdev fileSize
  | .updateMacAddr fileSize => plxLbpUpdateMacAddr xdev fileSize
  | .bootFromUsb => plxLbpBootFromUsb xdev

theorem triple_operation {op : Operation} (h : op ≠ .bootFromUsb) :
    Triple Clear (op.run xdev) Reported := by
  cases op with
  | bootRamdisk imgSize => exact triple_bootRamdisk imgSize
  | bootBlkdisk => exact triple_bootBlkdisk
  | flash cmd fileSize => exact triple_flash cmd fileSize
  | flashBios biosFileSize => exact triple_flash _ biosFileSize
  | clearSmbEventLog fileSize => exact triple_flash _ fileSize
  | updateMacAddr fileSize => exact triple_flash _ fileSize
  | bootFromUsb => exact absurd rfl h

/-- **`LBP_STATE_OK` means that no wait has ended with a timeout or an error of the card**, for every
device and every operation but booting from USB; for that one exactly when the card shows no error
before it boots. -/
theorem success_means_no_card_error_iff (xdev : Xdev σ) (op : Operation) (s : σ) :
    ((op.run xdev ⟨s, []⟩).1 = lbpStateOk → ∀ e ∈ (op.run xdev ⟨s, []⟩).2.log, e.Clear) ↔
      (op = .bootFromUsb → UsbClear xdev s) := by
  by_cases hop : op = .bootFromUsb
  · subst hop
    have hrun := @bootFromUsb_eq σ xdev s
    simp only [UsbClear, forall_true_left, Operation.run]
    cases hvalue : usbAnswer xdev s with
    | none =>
      rw [hvalue] at hrun
      obtain ⟨hret, -⟩ := Prod.mk.inj hrun
      refine iff_of_true (fun hok => ?_) nofun
      exact absurd (hret.symm.trans hok) (by decide)
    | some value =>
      rw [hvalue] at hrun
      obtain ⟨hret, hlog⟩ := Prod.mk.inj hrun
      rw [hret, hlog]
      simp [WaitEnd.Clear]
  · exact iff_of_true (@triple_operation σ xdev op hop ⟨s, []⟩ (Logged.all_start s))
      fun h => absurd h hop

end

/-! ## Runs -/

/-- A card whose `ready` field shows the values of a list, one at each reading, and a host on which
everything succeeds -/
def scripted : Xdev (List (BitVec 32)) where
  parameters := ⟨2, 2⟩
  dmaCh _ := true
  aLut _ := true
  aperPa := 0
  aperVa := 0
  aLutPeerEnable := pure ()
  readSpad
    | .i7Ready => fun values => (values.headD 0, values.tail)
    | _ => pure 0
  writeSpad _ _ := pure ()
  dmaAllocCoherent _ := pure (some 0)
  dmaFreeCoherent _ _ := pure ()
  copyFromUser _ _ := pure 0
  ioremap addr _ := pure (some addr)
  iounmap _ := pure ()
  prepDmaMemcpy _ _ _ := pure true
  txSubmit := pure 1
  dmaSyncWait _ := pure 0
  setBlockioDp _ := pure ()

/-- A ramdisk is booted: the card is busy at first, and maps the ramdisk; then it boots. -/
theorem success_means_no_card_error_ramdisk :
    (plxLbpBootRamdisk scripted 5000 ⟨[i7Ready, 4#32, i7Done, i7Booting], []⟩).1 = lbpStateOk ∧
      ∀ e ∈ (plxLbpBootRamdisk scripted 5000 ⟨[i7Ready, 4#32, i7Done, i7Booting], []⟩).2.log,
        e.Clear := by
  have hok : (plxLbpBootRamdisk scripted 5000 ⟨[i7Ready, 4#32, i7Done, i7Booting], []⟩).1 =
      lbpStateOk := by decide +kernel
  exact ⟨hok, (success_means_no_card_error_iff scripted (.bootRamdisk 5000) _).mpr
    (fun h => Operation.noConfusion h) hok⟩

/-- **An error of the card is taken for success**: the card answers the command to boot from USB with
`PLX_LBP_i7_UEFI_ERROR`. -/
theorem usb_error_ignored :
    ∃ r, plxLbpBootFromUsb scripted ⟨[i7UefiError], []⟩ = (lbpStateOk, r) ∧
      r.log = [.ready i7UefiError] ∧ ¬ WaitEnd.Clear (.ready i7UefiError) :=
  ⟨_, rfl, rfl, by decide⟩

end Vcass.Lbp
