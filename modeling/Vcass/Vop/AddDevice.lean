import Vcass.Core.UserMemory
import Vcass.Vop.DevicePage

/-!
# Adding a Device

`VCA_VIRTIO_ADD_DEVICE` copies the descriptor from user memory twice: its header, which is checked and
gives the size of the allocation, and then the whole of it, into that allocation.  Everything that
follows takes the lengths from the second copy.

What is handed over is as it should be exactly when the length bytes of the second copy are within the
limits, too, and give no larger size (`checked_description_iff`).  Nothing sees to that
(`check_bypassed`).
-/

namespace Vcass.Vop

open Vcass.Core

/-! ## The model -/

/-- The case `VCA_VIRTIO_ADD_DEVICE` of `vop_ioctl`, up to the call of `vop_setup_virtio_device`: the
descriptor that is handed over -/
def vopIoctlAddDevice (virtioId : Nat) (first second : Fetch) (allocOk : Nat → Bool) :
    Except Int Block :=
  if virtioId ≠ 0 then .error (-eExist)
  else
    match (Block.kzalloc sizeofDeviceDesc).copyFromUser first sizeofDeviceDesc with
    | none => .error (-eFault)
    | some dd =>
      let sizes := sizesAt dd.bytes 0
      if vopIoctlAccepts sizes = false then .error (-eInval)
      else if allocOk sizes.vcaDescSize = false then .error (-eNoMem)
      else
        match (Block.kzalloc sizes.vcaDescSize).copyFromUser second sizes.vcaDescSize with
        | none => .error (-eFault)
        | some ddConfig => .ok ddConfig

/-- The second copy stays within what was checked: whenever the ioctl gets to it, its length bytes are
within the limits, and give a size that is not larger than the one of the first copy. -/
def SecondFits (virtioId : Nat) (first second : Fetch) (allocOk : Nat → Bool) : Prop :=
  ∀ user user', virtioId = 0 → first = some user → second = some user' →
    vopIoctlAccepts (sizesAt user 0) = true → allocOk (sizesAt user 0).vcaDescSize = true →
      vopIoctlAccepts (sizesAt user' 0) = true ∧
        (sizesAt user' 0).vcaDescSize ≤ (sizesAt user 0).vcaDescSize

/-- The descriptor that is handed over is within the limits, and is not longer than its block. -/
def HandsOverChecked (virtioId : Nat) (first second : Fetch) (allocOk : Nat → Bool) : Prop :=
  ∀ ddConfig, vopIoctlAddDevice virtioId first second allocOk = .ok ddConfig →
    (sizesAt ddConfig.bytes 0).numVq ≤ vcaMaxVrings ∧
      (sizesAt ddConfig.bytes 0).configLen ≤ vcaMaxConfigLen ∧
      (sizesAt ddConfig.bytes 0).featureLen ≤ vcaMaxFeatureLen ∧
      (sizesAt ddConfig.bytes 0).vcaAlignedDescSize ≤ vcaMaxDescBlkSize ∧
      (sizesAt ddConfig.bytes 0).vcaDescSize ≤ ddConfig.size

/-! ## What is handed over -/

variable {ddConfig : Block} {allocOk : Nat → Bool} {first second : Fetch} {virtioId : Nat}

theorem sizesAt_copy {b b' : Block} {user : Bytes} {n : Nat} (h : b'.CopyOf b user n)
    (hn : sizeofDeviceDesc ≤ n) : sizesAt b'.bytes 0 = sizesAt user 0 := by
  have hheader : sizeofDeviceDesc = 8 := rfl
  rw [sizesAt, sizesAt, h.copied _ (by omega), h.copied _ (by omega), h.copied _ (by omega)]

theorem sizeofDeviceDesc_le (d : DescSizes) : sizeofDeviceDesc ≤ d.vcaDescSize := by
  unfold DescSizes.vcaDescSize
  omega

/-- **When a descriptor is handed over**: the first copy is accepted and gives the size, the second
one gives the bytes. -/
theorem vopIoctlAddDevice_ok_iff :
    vopIoctlAddDevice virtioId first second allocOk = .ok ddConfig ↔
      ∃ user, virtioId = 0 ∧ first = some user ∧ vopIoctlAccepts (sizesAt user 0) = true ∧
        allocOk (sizesAt user 0).vcaDescSize = true ∧
        (Block.kzalloc (sizesAt user 0).vcaDescSize).copyFromUser second
          (sizesAt user 0).vcaDescSize = some ddConfig := by
  unfold vopIoctlAddDevice
  by_cases hexists : virtioId = 0
  swap
  · simp [hexists]
  cases first with
  | none => simp [Block.copyFromUser, hexists]
  | some user =>
    obtain ⟨dd, hdd⟩ : ∃ dd, (Block.kzalloc sizeofDeviceDesc).copyFromUser (some user)
        sizeofDeviceDesc = some dd := ⟨_, rfl⟩
    obtain ⟨_, huser, hcopy⟩ := Block.copyFromUser_some hdd
    cases huser
    simp only [hdd, sizesAt_copy hcopy (Nat.le_refl _), hexists, ne_eq, not_true_eq_false, if_false,
      true_and, Option.some.injEq, exists_eq_left']
    -- the checks look at the first copy only
    cases haccept : vopIoctlAccepts (sizesAt user 0)
    · simp
    cases halloc : allocOk (sizesAt user 0).vcaDescSize
    · simp
    cases (Block.kzalloc (sizesAt user 0).vcaDescSize).copyFromUser second
        (sizesAt user 0).vcaDescSize <;> simp

/-! ## Main results -/

/-- **The descriptor that is handed over is within the limits, and is not longer than its block,
exactly when** the second copy stays within what was checked on the first one. -/
theorem checked_description_iff (virtioId : Nat) (first second : Fetch) (allocOk : Nat → Bool) :
    HandsOverChecked virtioId first second allocOk ↔
      SecondFits virtioId first second allocOk := by
  constructor
  · rintro hchecked user user' hnew hfirst rfl haccept halloc
    obtain ⟨ddConfig, hcopy⟩ : ∃ b, (Block.kzalloc (sizesAt user 0).vcaDescSize).copyFromUser
        (some user') (sizesAt user 0).vcaDescSize = some b := ⟨_, rfl⟩
    obtain ⟨_, huser, hddConfig⟩ := Block.copyFromUser_some hcopy
    cases huser
    have hlimits := hchecked ddConfig
      (vopIoctlAddDevice_ok_iff.mpr ⟨user, hnew, hfirst, haccept, halloc, hcopy⟩)
    rw [sizesAt_copy hddConfig (sizeofDeviceDesc_le _), hddConfig.size] at hlimits
    obtain ⟨hvq, hconfig, hfeature, haligned, hsize⟩ := hlimits
    exact ⟨by simp [vopIoctlAccepts, hvq, hconfig, hfeature, haligned], hsize⟩
  · intro hfits ddConfig hrun
    obtain ⟨user, hnew, hfirst, haccept, halloc, hcopy⟩ := vopIoctlAddDevice_ok_iff.mp hrun
    obtain ⟨user', hsecond, hddConfig⟩ := Block.copyFromUser_some hcopy
    obtain ⟨haccept', hsize⟩ := hfits user user' hnew hfirst hsecond haccept halloc
    rw [sizesAt_copy hddConfig (sizeofDeviceDesc_le _), hddConfig.size]
    simp only [vopIoctlAccepts, Bool.and_eq_true, decide_eq_true_eq] at haccept'
    obtain ⟨⟨⟨hvq, hconfig⟩, hfeature⟩, haligned⟩ := haccept'
    exact ⟨hvq, hconfig, hfeature, haligned, hsize⟩

/-- A header with the given length bytes, for a device of type 1 -/
def userDesc (numVq featureLen configLen : UInt8) : Bytes := fun k =>
  if k = 0 then 1
  else if k = 1 then numVq
  else if k = 2 then featureLen
  else if k = 3 then configLen
  else 0

/-- **The checks are bypassed**: the header that is checked has no queues, features or config space;
the descriptor that is handed over has all lengths at 255, in a block of 8 bytes. -/
theorem check_bypassed :
    ∃ ddConfig,
      vopIoctlAddDevice 0 (some (userDesc 0 0 0)) (some (userDesc 255 255 255)) (fun _ => true) =
          .ok ddConfig ∧
        ddConfig.size = 8 ∧ vcaMaxVrings < (sizesAt ddConfig.bytes 0).numVq ∧
        vcaMaxConfigLen < (sizesAt ddConfig.bytes 0).configLen ∧
        vcaMaxFeatureLen < (sizesAt ddConfig.bytes 0).featureLen ∧
        vcaMaxDescBlkSize < (sizesAt ddConfig.bytes 0).vcaAlignedDescSize ∧
        (sizesAt ddConfig.bytes 0).vcaDescSize = 4853 :=
  ⟨_, rfl, rfl, by decide, by decide, by decide, by decide, by decide⟩

end Vcass.Vop
