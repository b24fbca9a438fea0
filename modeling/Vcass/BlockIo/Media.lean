import Mathlib.Data.UInt
import Vcass.Core.Chronicle
import Vcass.Core.Kernel

/-!
# Media of a Block Device

`vcablk_bcknd_media.c`: the memory or the file that a backend disk keeps its sectors in.
What a file operation or `vfs_fsync` answers is the environment's choice and enters as an
argument; the checks in front of it are the driver's own, with offsets in 64 bits.
-/

namespace Vcass.BlockIo

open Vcass.Core

/-- `SECTOR_SHIFT` -/
def sectorShift : Nat := 9

/-- `enum VCABLK_DISK_TYPE` of a created media -/
inductive MediaType where
  | memory
  | file
deriving DecidableEq

/-- `struct vcablk_media`, the fields that the transfer functions read; `size_bytes` is a
`size_t`. -/
structure VcablkMedia where
  type : MediaType
  sizeBytes : Nat
  readOnly : Bool
  sizeBytes_lt : sizeBytes < 2 ^ 64 := by decide

/-- What a transfer function did: its return value, and the bytes of the media it touched. -/
structure MediaTransfer where
  ret : Int
  offset : Nat
  moved : Nat
deriving DecidableEq

/-- `media_transfer_mem` -/
def mediaTransferMem (media : VcablkMedia) (sector nsect : Nat) : MediaTransfer :=
  let offset := sector <<< sectorShift % 2 ^ 64
  let nbytes := nsect <<< sectorShift % 2 ^ 64
  if media.sizeBytes < (offset + nbytes) % 2 ^ 64 then
    { ret := -eIo, offset := offset, moved := 0 }
  else
    { ret := 0, offset := offset, moved := nbytes }

/-- `media_transfer_file`, when the file operation returns `nbytesdone`.
A short or failed operation only prints a warning. -/
def mediaTransferFile (media : VcablkMedia) (sector nsect : Nat) (write : Bool)
    (nbytesdone : Int) : MediaTransfer :=
  let offset := sector <<< sectorShift % 2 ^ 64
  let nbytes := nsect <<< sectorShift % 2 ^ 64
  if media.sizeBytes < (offset + nbytes) % 2 ^ 64 then
    { ret := -eIo, offset := offset, moved := 0 }
  else if write && media.readOnly then
    { ret := -eAcces, offset := offset, moved := 0 }
  else
    { ret := 0, offset := offset, moved := min nbytesdone.toNat nbytes }

/-- `vcablk_media_transfer` -/
def vcablkMediaTransfer (media : VcablkMedia) (sector nsect : Nat) (write : Bool)
    (nbytesdone : Int) : MediaTransfer :=
  match media.type with
  | .memory => mediaTransferMem media sector nsect
  | .file => mediaTransferFile media sector nsect write nbytesdone

/-- `vcablk_media_sync`, when `vfs_fsync` returns `fsync`: `media_sync_mem` has nothing to do. -/
def vcablkMediaSync (media : VcablkMedia) (fsync : Int) : Int :=
  match media.type with
  | .memory => 0
  | .file => fsync

theorem vcablkMediaTransfer_ret (media : VcablkMedia) (sector nsect : Nat) (write : Bool)
    (nbytesdone : Int) :
    let r := (vcablkMediaTransfer media sector nsect write nbytesdone).ret
    r = 0 ∨ r = -eIo ∨ r = -eAcces := by
  cases h : media.type <;>
    simp only [vcablkMediaTransfer, h, mediaTransferMem, mediaTransferFile] <;>
    split_ifs <;> simp

theorem vcablkMediaTransfer_moved {media : VcablkMedia} {sector nsect : Nat} {write : Bool}
    {nbytesdone : Int}
    (h : (vcablkMediaTransfer media sector nsect write nbytesdone).moved ≠ 0) :
    (vcablkMediaTransfer media sector nsect write nbytesdone).ret = 0 := by
  cases htype : media.type <;>
    simp only [vcablkMediaTransfer, htype, mediaTransferMem, mediaTransferFile] at h ⊢ <;>
    split_ifs at h ⊢ <;> first | rfl | exact absurd rfl h

/-- A transfer inside the media that returns 0 touches the sectors it was asked for; a file
may move fewer bytes. -/
theorem vcablkMediaTransfer_inside {media : VcablkMedia} {sector nsect : Nat} {write : Bool}
    {nbytesdone : Int} (hret : (vcablkMediaTransfer media sector nsect write nbytesdone).ret = 0)
    (hin : 512 * (sector + nsect) ≤ media.sizeBytes) :
    (vcablkMediaTransfer media sector nsect write nbytesdone).offset = 512 * sector ∧
      (vcablkMediaTransfer media sector nsect write nbytesdone).moved =
        match media.type with
        | .memory => 512 * nsect
        | .file => min nbytesdone.toNat (512 * nsect) := by
  have hlt := media.sizeBytes_lt
  have hoff : sector <<< sectorShift % 2 ^ 64 = 512 * sector := by
    rw [sectorShift, Nat.shiftLeft_eq, Nat.mod_eq_of_lt (by omega)]
    omega
  have hnum : nsect <<< sectorShift % 2 ^ 64 = 512 * nsect := by
    rw [sectorShift, Nat.shiftLeft_eq, Nat.mod_eq_of_lt (by omega)]
    omega
  cases htype : media.type <;>
    simp only [vcablkMediaTransfer, htype, mediaTransferMem, mediaTransferFile, hoff, hnum]
      at hret ⊢ <;>
    split_ifs at hret ⊢ <;> first | exact ⟨rfl, rfl⟩ | simp [eIo, eAcces] at hret

end Vcass.BlockIo
