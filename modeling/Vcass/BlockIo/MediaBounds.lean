import Vcass.BlockIo.Media

/-!
# Bounds and Access Mode of a Media

The sector of a transfer comes from the remote frontend.  `media_transfer_mem` and
`media_transfer_file` compare `(sector << 9) + (nsect << 9)` with the size of the media in 64 bits,
which is a comparison of `sector + nsect` modulo `2 ^ 55`.  A file is opened for reading or for
writing, and `media_transfer_file` refuses writes to read-only media; `media_transfer_mem` has no
such check.

`transferExact_iff` says for every request when the two functions do what exact arithmetic and the
access mode ask for.
-/

namespace Vcass.BlockIo

open Vcass.Core

/-- What `kernel_read` and `kernel_write` answer for a position and a number of bytes: not more bytes
than they were asked for, or a negative error -/
structure KernelFile where
  op : (write : Bool) → (pos size : Nat) → Int
  op_le : ∀ write pos size, op write pos size ≤ size

/-- `vcablk_media_transfer` on a media whose file behaves as `file`.  `file_read` and `file_write`
take the number of bytes as `unsigned int`. -/
def mediaTransferOn (media : VcablkMedia) (file : KernelFile) (sector nsect : Nat) (write : Bool) :
    MediaTransfer :=
  vcablkMediaTransfer media sector nsect write
    (file.op write (sector <<< sectorShift % 2 ^ 64) (nsect <<< sectorShift % 2 ^ 64 % 2 ^ 32))

/-- The sectors are sectors of the media. -/
def Inside (media : VcablkMedia) (sector nsect : Nat) : Prop :=
  sector + nsect ≤ media.sizeBytes / 512

/-- The operation is a write to read-only media. -/
def Forbidden (media : VcablkMedia) (write : Bool) : Prop :=
  write = true ∧ media.readOnly = true

instance (media : VcablkMedia) (sector nsect : Nat) : Decidable (Inside media sector nsect) :=
  inferInstanceAs (Decidable (_ ≤ _))

instance (media : VcablkMedia) (write : Bool) : Decidable (Forbidden media write) :=
  inferInstanceAs (Decidable (_ ∧ _))

/-- The transfer is made exactly when it is inside the media and allowed, on exactly its bytes, and
is refused with the media unchanged otherwise. -/
def TransferExact (media : VcablkMedia) (file : KernelFile) (sector nsect : Nat) (write : Bool) :
    Prop :=
  if Inside media sector nsect ∧ ¬ Forbidden media write then
    mediaTransferOn media file sector nsect write = ⟨0, 512 * sector, 512 * nsect⟩
  else
    (mediaTransferOn media file sector nsect write).ret < 0 ∧
      (mediaTransferOn media file sector nsect write).moved = 0

instance (media : VcablkMedia) (file : KernelFile) (sector nsect : Nat) (write : Bool) :
    Decidable (TransferExact media file sector nsect write) :=
  inferInstanceAs (Decidable (ite _ _ _))

/-! ## The comparison in 64 bits -/

section

variable {media : VcablkMedia} {sector nsect : Nat}

theorem end_mod (sector nsect : Nat) :
    (sector <<< sectorShift % 2 ^ 64 + nsect <<< sectorShift % 2 ^ 64) % 2 ^ 64 =
      512 * ((sector + nsect) % 2 ^ 55) := by
  simp only [sectorShift, Nat.shiftLeft_eq]
  omega

/-- The comparison loses the upper bits of `sector + nsect`. -/
theorem beyondEnd_iff (hdvd : 512 ∣ media.sizeBytes) :
    media.sizeBytes <
        (sector <<< sectorShift % 2 ^ 64 + nsect <<< sectorShift % 2 ^ 64) % 2 ^ 64 ↔
      media.sizeBytes / 512 < (sector + nsect) % 2 ^ 55 := by
  rw [end_mod]
  omega

theorem Inside.no_wrap (hin : Inside media sector nsect) (hsize : media.sizeBytes < 2 ^ 63) :
    sector <<< sectorShift % 2 ^ 64 = 512 * sector ∧
      nsect <<< sectorShift % 2 ^ 64 = 512 * nsect ∧
      ¬ media.sizeBytes / 512 < (sector + nsect) % 2 ^ 55 := by
  simp only [Inside] at hin
  simp only [sectorShift, Nat.shiftLeft_eq]
  omega

end

/-! ## When the check is exact -/

/-- The requests that the two functions treat as they should: what is beyond the end is still beyond
it modulo `2 ^ 55`, or is refused as a write; memory media inside its bounds is not written when
it is read-only; and a file moves all bytes that it was asked for. -/
def ExactWhen (media : VcablkMedia) (file : KernelFile) (sector nsect : Nat) (write : Bool) :
    Prop :=
  (Inside media sector nsect ∨ media.sizeBytes / 512 < (sector + nsect) % 2 ^ 55 ∨
    media.type = .file ∧ Forbidden media write) ∧
  (media.type = .memory → Inside media sector nsect → ¬ Forbidden media write) ∧
  (media.type = .file → Inside media sector nsect → ¬ Forbidden media write →
    file.op write (512 * sector) (512 * nsect % 2 ^ 32) = 512 * nsect)

section

variable {media : VcablkMedia} {file : KernelFile} {sector nsect : Nat} {write : Bool}

/-- What is beyond the end modulo `2 ^ 55` is refused. -/
theorem mediaTransferOn_beyond (file : KernelFile) (write : Bool) (hdvd : 512 ∣ media.sizeBytes)
    (hend : media.sizeBytes / 512 < (sector + nsect) % 2 ^ 55) :
    (mediaTransferOn media file sector nsect write).ret = -eIo ∧
      (mediaTransferOn media file sector nsect write).moved = 0 := by
  have hbeyond := (beyondEnd_iff hdvd).mpr hend
  cases htype : media.type <;>
    simp only [mediaTransferOn, vcablkMediaTransfer, htype, mediaTransferMem, mediaTransferFile,
      if_pos hbeyond, and_self]

theorem mediaTransferOn_memory (hdvd : 512 ∣ media.sizeBytes) (htype : media.type = .memory)
    (hend : ¬ media.sizeBytes / 512 < (sector + nsect) % 2 ^ 55) :
    mediaTransferOn media file sector nsect write =
      ⟨0, sector <<< sectorShift % 2 ^ 64, nsect <<< sectorShift % 2 ^ 64⟩ := by
  have hin := mt (beyondEnd_iff hdvd).mp hend
  simp only [mediaTransferOn, vcablkMediaTransfer, htype, mediaTransferMem, if_neg hin]

theorem mediaTransferOn_forbidden (file : KernelFile) (hdvd : 512 ∣ media.sizeBytes)
    (htype : media.type = .file) (hend : ¬ media.sizeBytes / 512 < (sector + nsect) % 2 ^ 55)
    (hforbidden : Forbidden media write) :
    (mediaTransferOn media file sector nsect write).ret = -eAcces ∧
      (mediaTransferOn media file sector nsect write).moved = 0 := by
  have hin := mt (beyondEnd_iff hdvd).mp hend
  have hmode : (write && media.readOnly) = true := by simp [hforbidden.1, hforbidden.2]
  simp only [mediaTransferOn, vcablkMediaTransfer, htype, mediaTransferFile, if_neg hin, if_pos hmode,
    and_self]

/-- A file is asked for the bytes modulo `2 ^ 32`. -/
theorem mediaTransferOn_file (hdvd : 512 ∣ media.sizeBytes) (htype : media.type = .file)
    (hend : ¬ media.sizeBytes / 512 < (sector + nsect) % 2 ^ 55)
    (hallowed : ¬ Forbidden media write) :
    mediaTransferOn media file sector nsect write =
      ⟨0, sector <<< sectorShift % 2 ^ 64,
        min (file.op write (sector <<< sectorShift % 2 ^ 64)
          (nsect <<< sectorShift % 2 ^ 64 % 2 ^ 32)).toNat (nsect <<< sectorShift % 2 ^ 64)⟩ := by
  have hin := mt (beyondEnd_iff hdvd).mp hend
  have hmode : ¬ (write && media.readOnly) = true := by
    rw [Bool.and_eq_true]
    exact hallowed
  simp only [mediaTransferOn, vcablkMediaTransfer, htype, mediaTransferFile, if_neg hin, if_neg hmode]

theorem transferExact_of_refused (hnot : ¬ (Inside media sector nsect ∧ ¬ Forbidden media write)) :
    TransferExact media file sector nsect write ↔
      (mediaTransferOn media file sector nsect write).ret < 0 ∧
        (mediaTransferOn media file sector nsect write).moved = 0 := by
  rw [TransferExact, if_neg hnot]

theorem transferExact_iff_outside (hdvd : 512 ∣ media.sizeBytes)
    (hout : ¬ Inside media sector nsect) :
    TransferExact media file sector nsect write ↔
      media.sizeBytes / 512 < (sector + nsect) % 2 ^ 55 ∨
        media.type = .file ∧ Forbidden media write := by
  rw [transferExact_of_refused (fun h => hout h.1)]
  by_cases hend : media.sizeBytes / 512 < (sector + nsect) % 2 ^ 55
  · obtain ⟨hret, hmoved⟩ := mediaTransferOn_beyond file write hdvd hend
    simp only [hend, hret, hmoved, eIo, true_or, iff_true, and_true]
    decide
  · -- the check lets it pass
    cases htype : media.type with
    | memory =>
      rw [mediaTransferOn_memory hdvd htype hend]
      simp only [hend, Int.lt_irrefl, reduceCtorEq, false_and, or_self]
    | file =>
      by_cases hforbidden : Forbidden media write
      · obtain ⟨hret, hmoved⟩ := mediaTransferOn_forbidden file hdvd htype hend hforbidden
        simp only [hret, hmoved, hforbidden, eAcces, and_true, or_true, iff_true]
        decide
      · rw [mediaTransferOn_file hdvd htype hend hforbidden]
        simp only [hend, hforbidden, Int.lt_irrefl, false_and, and_false, or_self]

theorem transferExact_iff_inside (hpos : 1 ≤ nsect) (hsize : media.sizeBytes < 2 ^ 63)
    (hdvd : 512 ∣ media.sizeBytes) (hin : Inside media sector nsect) :
    TransferExact media file sector nsect write ↔
      (media.type = .memory → ¬ Forbidden media write) ∧
        (media.type = .file → ¬ Forbidden media write →
          file.op write (512 * sector) (512 * nsect % 2 ^ 32) = 512 * nsect) := by
  obtain ⟨hoffset, hbytes, hend⟩ := hin.no_wrap hsize
  by_cases hforbidden : Forbidden media write
  · rw [transferExact_of_refused (fun h => h.2 hforbidden)]
    cases htype : media.type with
    | memory =>
      rw [mediaTransferOn_memory hdvd htype hend]
      simp [hforbidden]
    | file =>
      obtain ⟨hret, hmoved⟩ := mediaTransferOn_forbidden file hdvd htype hend hforbidden
      simp [hret, hmoved, hforbidden, eAcces]
  · rw [TransferExact, if_pos ⟨hin, hforbidden⟩]
    cases htype : media.type with
    | memory =>
      rw [mediaTransferOn_memory hdvd htype hend, hoffset, hbytes]
      simp [hforbidden]
    | file =>
      rw [mediaTransferOn_file hdvd htype hend hforbidden, hoffset, hbytes]
      -- a file may move less, and then the transfer is not exact although it returns 0
      have hle := file.op_le write (512 * sector) (512 * nsect % 2 ^ 32)
      simp only [MediaTransfer.mk.injEq, true_and, hforbidden, not_false_eq_true, implies_true,
        forall_const, reduceCtorEq]
      omega

end

/-- **Media bounds**: for every sector, every number of sectors and every media, the transfer is
exact under `ExactWhen` and only then. -/
theorem transferExact_iff (media : VcablkMedia) (file : KernelFile) (sector nsect : Nat)
    (write : Bool) (hpos : 1 ≤ nsect) (hsize : media.sizeBytes < 2 ^ 63)
    (hdvd : 512 ∣ media.sizeBytes) :
    TransferExact media file sector nsect write ↔ ExactWhen media file sector nsect write := by
  rw [ExactWhen]
  by_cases hin : Inside media sector nsect
  · rw [transferExact_iff_inside hpos hsize hdvd hin]
    simp only [hin, true_or, true_and, forall_const]
  · rw [transferExact_iff_outside hdvd hin]
    simp only [hin, false_or, false_imp_iff, implies_true, and_true]

/-- A file that answers in full -/
def fullFile : KernelFile := ⟨fun _ _ size => size, fun _ _ _ => Int.le_refl _⟩

/-- The last sector of a file of 1 MiB is written. -/
theorem transferExact_iff_lastSector :
    TransferExact ⟨.file, 0x100000, false, by decide⟩ fullFile 2047 1 true :=
  (transferExact_iff _ fullFile 2047 1 true (by decide) (by decide) ⟨2048, rfl⟩).mpr
    ⟨by decide, by decide, by intros; decide⟩

/-- Three requests that pass the checks: a sector whose upper bits are lost, one whose end wraps
around, and a write to read-only memory -/
theorem transfer_not_exact :
    ¬ TransferExact ⟨.file, 0x100000, false, by decide⟩ fullFile (2 ^ 55) 1 true ∧
    ¬ TransferExact ⟨.memory, 0x100000, false, by decide⟩ fullFile (2 ^ 55 - 1) 1 true ∧
    ¬ TransferExact ⟨.memory, 0x100000, true, by decide⟩ fullFile 0 1 true := by
  refine ⟨?_, ?_, ?_⟩ <;> decide +kernel

end Vcass.BlockIo
