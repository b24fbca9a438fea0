import Vcass.Core.Bytes
import Vcass.Core.Kernel
import Vcass.Core.Records
import Vcass.Core.System

/-!
# The Device Page

The host announces its virtio devices to the card in one page of memory.  Behind the boot parameters
stands a list of entries.  An entry holds the descriptor and the control block that the card uses and,
behind them, a second pair for the host; its size follows from three length bytes of the descriptor.
The type byte says what an entry is: 0 for the end of the list, -1 for a device that was removed.

The model keeps the bytes of the page.  It covers the check of `vop_ioctl`, `vop_copy_dp_entry`, all
writes to the page of `vop_setup_virtio_device` with its error exits, `vop_virtio_del_card_device`,
and the walk of `_vop_scan_devices` on the card.
-/

namespace Vcass.Vop

open Vcass.Core

/-! ## Sizes -/

/-- `sizeof(struct vca_bootparam)` -/
def sizeofBootparam : Nat := 184

/-- `sizeof(struct vca_device_desc)` -/
def sizeofDeviceDesc : Nat := 8

/-- `sizeof(struct vca_vqconfig)` -/
def sizeofVqconfig : Nat := 16

/-- `sizeof(struct vca_device_ctrl)` -/
def sizeofDeviceCtrl : Nat := 40

/-- `VCA_DP_SIZE` -/
def vcaDpSize : Nat := 4096

/-- `VCA_VRING_ENTRIES` -/
def vcaVringEntries : Nat := 1024

/-- `VCA_MAX_VRINGS` -/
def vcaMaxVrings : UInt8 := 4

/-- `VCA_MAX_CONFIG_LEN` -/
def vcaMaxConfigLen : UInt8 := 16

/-- `VCA_MAX_FEATURE_LEN` -/
def vcaMaxFeatureLen : UInt8 := 16

/-- `VCA_MAX_DESC_BLK_SIZE` -/
def vcaMaxDescBlkSize : Nat := 256

/-- The type byte of an entry that ends the list -/
def typeNone : UInt8 := 0

/-- The type byte -1, of the entry of a removed device -/
def typeRemoved : UInt8 := 255

/-- The three bytes of a `vca_device_desc` that give its length -/
structure DescSizes where
  numVq : UInt8
  featureLen : UInt8
  configLen : UInt8

namespace DescSizes

/-- `vca_desc_size` -/
def vcaDescSize (d : DescSizes) : Nat :=
  sizeofDeviceDesc + d.numVq.toNat * sizeofVqconfig + d.featureLen.toNat * 2 + d.configLen.toNat

/-- `vca_aligned_desc_size`: rounded up to a multiple of 8 -/
def vcaAlignedDescSize (d : DescSizes) : Nat :=
  (d.vcaDescSize + 7) / 8 * 8

/-- `vca_total_desc_size` -/
def vcaTotalDescSize (d : DescSizes) : Nat :=
  2 * (d.vcaAlignedDescSize + sizeofDeviceCtrl)

end DescSizes

/-- A descriptor as `vop_ioctl` copies it from user space: `tail` is all that follows the three
length bytes, that is the status, three bytes of padding, the queues, features and config space -/
structure VcaDeviceDesc extends DescSizes where
  type : UInt8
  tail : List UInt8
  tail_length : 4 + tail.length = toDescSizes.vcaDescSize

namespace VcaDeviceDesc

def bytes (d : VcaDeviceDesc) : List UInt8 :=
  d.type :: d.numVq :: d.featureLen :: d.configLen :: d.tail

/-- `vca_vq_config(d)[i].num` -/
def vqNum (d : VcaDeviceDesc) (i : Nat) : Nat :=
  Bytes.le16 (fun k => d.bytes.getD k 0) (sizeofDeviceDesc + i * sizeofVqconfig + 8)

end VcaDeviceDesc

/-- What `vop_ioctl` checks before it adds a device -/
def vopIoctlAccepts (d : DescSizes) : Bool :=
  d.numVq ≤ vcaMaxVrings && d.configLen ≤ vcaMaxConfigLen && d.featureLen ≤ vcaMaxFeatureLen &&
    d.vcaAlignedDescSize ≤ vcaMaxDescBlkSize

/-! ## Entries of the page -/

/-- The length bytes of the descriptor at offset `off` -/
def sizesAt (m : Bytes) (off : Nat) : DescSizes where
  numVq := m (off + 1)
  featureLen := m (off + 2)
  configLen := m (off + 3)

/-- `vca_vq_config` -/
def vcaVqConfig (off : Nat) : Nat :=
  off + sizeofDeviceDesc

/-- `vca_host_device_desc` -/
def vcaHostDeviceDesc (m : Bytes) (off : Nat) : Nat :=
  off + ((sizesAt m off).vcaAlignedDescSize + sizeofDeviceCtrl)

def pageRecords (m : Bytes) : Records where
  kind i := if m i = typeNone then .stop else if m i = typeRemoved then .skip else .live
  size i := (sizesAt m i).vcaTotalDescSize
  limit := vcaDpSize

/-- The entries that `_vop_scan_devices` takes for devices -/
def vopScanDevices (m : Bytes) : List Nat :=
  (pageRecords m).walk vcaDpSize sizeofBootparam

/-- The search of `vop_copy_dp_entry` for the first free entry before `bound` -/
def findFreeEntry (m : Bytes) (bound : Nat) : Nat → Nat → Option Nat
  | 0, _ => none
  | fuel + 1, i =>
    if i < bound then
      if m i = typeNone ∨ m i = typeRemoved then some i
      else findFreeEntry m bound fuel (i + (sizesAt m i).vcaTotalDescSize)
    else none

/-- The entry that a new device with the descriptor `argp` gets -/
def freeEntry (m : Bytes) (argp : DescSizes) : Option Nat :=
  findFreeEntry m (vcaDpSize - argp.vcaTotalDescSize) vcaDpSize sizeofBootparam

/-- `vop_copy_dp_entry`: the page and the entry.  The type of the card's descriptor is stored as 0
until the device is set up. -/
def vopCopyDpEntry (m : Bytes) (argp : VcaDeviceDesc) : Except Int (Bytes × Nat) :=
  if ∃ i < argp.numVq.toNat, vcaVringEntries < argp.vqNum i then .error (-eInval)
  else
    match freeEntry m argp.toDescSizes with
    | none => .error (-eInval)
    | some devp =>
      let bytes := { argp with type := typeNone }.bytes
      let m : Bytes := m.write devp bytes
      let m : Bytes := m.write (vcaHostDeviceDesc m devp) bytes
      .ok (m.write (vcaHostDeviceDesc m devp) [argp.type], devp)

/-! ## Fields of a control block -/

namespace DeviceCtrl

def configChange : Nat := 8
def guestAck : Nat := 10
def c2hVdevConfDb : Nat := 13
def c2hVdevAvailDb : Nat := 14
def c2hVdevUsedDb : Nat := 15
def kvecBufAddress : Nat := 24
def kvecBufElems : Nat := 32

end DeviceCtrl

/-- `VCA_VIRTIO_PARAM_DEV_REMOVE` -/
def vcaVirtioParamDevRemove : UInt8 := 1

/-- `GUEST_ACK_NONE` -/
def guestAckNone : UInt8 := 0

/-- `vop_init_device_ctrl`: the fields from `config_change` to `h2c_vdev_used_db`, which stand
without a gap; the six doorbells are set to -1. -/
def vopInitDeviceCtrl (m : Bytes) (dc : Nat) : Bytes :=
  m.write (dc + DeviceCtrl.configChange) [0, 0, guestAckNone, 0, 0, 255, 255, 255, 255, 255, 255]

/-! ## Setting up a device -/

/-- What the kernel answers while a device is set up: a value, or an error code -/
structure SetupEnv where
  /-- The bus address of the `i`-th vring of the host -/
  vring : Nat → Except Int Nat
  /-- The bus address of the buffer that `common_dev_init` allocates -/
  kvecBuf : Except Int Nat
  /-- The doorbells for which an interrupt is requested -/
  confDb : Except Int UInt8
  availDb : Except Int UInt8
  usedDb : Except Int UInt8

/-- Go on with `f` unless there was an error; the writes so far stay in either case. -/
def andThen (r : Bytes × Except Int Unit) (f : Bytes → Bytes × Except Int Unit) :
    Bytes × Except Int Unit :=
  match r with
  | (m, .ok ()) => f m
  | (m, .error e) => (m, .error e)

/-- Store a value that the kernel may refuse to give -/
def storeResult {α : Type} (m : Bytes) (off : Nat) (r : Except Int α) (bytes : α → List UInt8) :
    Bytes × Except Int Unit :=
  match r with
  | .ok x => (m.write off (bytes x), .ok ())
  | .error e => (m, .error e)

/-- The loop of `vop_allocate_host_vrings` over the `n` queues from `i` on -/
def allocateVrings (env : SetupEnv) (hostDd : Nat) : Nat → Nat → Bytes → Bytes × Except Int Unit
  | 0, _, m => (m, .ok ())
  | n + 1, i, m =>
    andThen
      (storeResult m (vcaVqConfig hostDd + i * sizeofVqconfig) (env.vring i) (Bytes.littleEndian 8))
      (allocateVrings env hostDd n (i + 1))

/-- `vop_allocate_host_vrings` -/
def vopAllocateHostVrings (env : SetupEnv) (dd : Nat) (m : Bytes) : Bytes × Except Int Unit :=
  let hostDd := vcaHostDeviceDesc m dd
  let hostDc := hostDd + (sizesAt m hostDd).vcaAlignedDescSize
  let m : Bytes := vopInitDeviceCtrl m hostDc
  allocateVrings env hostDd (m (hostDd + 1)).toNat 0 m

/-- `vop_common_dev_init`: the receive buffer of the host goes to the control block of the card, with
the length of the host's receive queue. -/
def vopCommonDevInit (env : SetupEnv) (dd dc : Nat) (m : Bytes) : Bytes × Except Int Unit :=
  let numDescriptors := m.le16 (vcaVqConfig (vcaHostDeviceDesc m dd) + 8)
  andThen (storeResult m (dc + DeviceCtrl.kvecBufAddress) env.kvecBuf (Bytes.littleEndian 8))
    fun m =>
      (m.write (dc + DeviceCtrl.kvecBufElems) (Bytes.littleEndian 4 numDescriptors), .ok ())

/-- `vop_setup_irqs` -/
def vopSetupIrqs (env : SetupEnv) (dc : Nat) (m : Bytes) : Bytes × Except Int Unit :=
  andThen (storeResult m (dc + DeviceCtrl.c2hVdevConfDb) env.confDb fun db => [db]) fun m =>
    andThen (storeResult m (dc + DeviceCtrl.c2hVdevAvailDb) env.availDb fun db => [db]) fun m =>
      storeResult m (dc + DeviceCtrl.c2hVdevUsedDb) env.usedDb fun db => [db]

/-- The part of `vop_setup_virtio_device` between `vop_copy_dp_entry` and the store of the type -/
def initEntry (env : SetupEnv) (dd : Nat) (m : Bytes) : Bytes × Except Int Unit :=
  let dc := dd + (sizesAt m dd).vcaAlignedDescSize
  let m : Bytes := vopInitDeviceCtrl m dc
  if m.le16 (vcaVqConfig dd + 8) = 0 ∨ m.le16 (vcaVqConfig (vcaHostDeviceDesc m dd) + 8) = 0 then
    (m, .error (-eInval))
  else
    andThen (vopAllocateHostVrings env dd m) fun m =>
      andThen (vopCommonDevInit env dd dc m) (vopSetupIrqs env dc)

/-- A live device: its descriptor and its control block in the page (`vdev->dd`, `vdev->dc`) and, as
history, the lengths that it was added with -/
structure CardDev where
  dd : Nat
  dc : Nat
  sizes : DescSizes

def CardDev.total (d : CardDev) : Nat :=
  d.sizes.vcaTotalDescSize

/-- `vop_setup_virtio_device` -/
def vopSetupVirtioDevice (m : Bytes) (argp : VcaDeviceDesc) (env : SetupEnv) :
    Bytes × Except Int CardDev :=
  match vopCopyDpEntry m argp with
  | .error e => (m, .error e)
  | .ok (m, dd) =>
    match initEntry env dd m with
    | (m', .error e) => (m', .error e)
    | (m', .ok ()) =>
      -- only now the card may see the entry
      (m'.write dd [argp.type],
        .ok ⟨dd, dd + (sizesAt m dd).vcaAlignedDescSize, argp.toDescSizes⟩)

/-- The writes of `vop_card_dev_remove` -/
def vopCardDevRemove (m : Bytes) (dc : Nat) : Bytes :=
  ((m.write (dc + DeviceCtrl.configChange) [vcaVirtioParamDevRemove]).write
    (dc + DeviceCtrl.configChange) [0]).write (dc + DeviceCtrl.guestAck) [guestAckNone]

/-- `vop_virtio_del_card_device` -/
def vopVirtioDelCardDevice (m : Bytes) (d : CardDev) : Bytes :=
  (vopCardDevRemove m d.dc).write d.dd [typeRemoved]

/-! ## The page over time -/

structure PageState where
  page : Bytes
  /-- `vdev_list` -/
  devs : List CardDev

inductive PageAct where
  /-- `VCA_VIRTIO_ADD_DEVICE` -/
  | add (argp : VcaDeviceDesc) (env : SetupEnv)
  /-- Removal of the `k`-th device of the list -/
  | remove (k : Nat)

def pageStep (s : PageState) : PageAct → Option PageState
  | .add argp env =>
    if vopIoctlAccepts argp.toDescSizes then
      match vopSetupVirtioDevice s.page argp env with
      | (page, .ok d) => some ⟨page, s.devs ++ [d]⟩
      | (page, .error _) => some ⟨page, s.devs⟩
    else some s
  | .remove k =>
    match s.devs[k]? with
    | some d => some ⟨vopVirtioDelCardDevice s.page d, s.devs.eraseIdx k⟩
    | none => none

def PageState.initial : PageState where
  page := fun _ => 0
  devs := []

def pageSystem : System PageState PageAct where
  Init s := s = .initial
  step := pageStep

/-! ## Integrity -/

/-- The entries of the live devices are disjoint and in the page, and a scan meets them, each once,
and nothing else. -/
structure PageState.Intact (s : PageState) : Prop where
  disjoint : s.devs.Pairwise fun d e => d.dd + d.total ≤ e.dd ∨ e.dd + e.total ≤ d.dd
  inside : ∀ d ∈ s.devs, sizeofBootparam ≤ d.dd ∧ d.dd + d.total ≤ vcaDpSize
  scanned : (vopScanDevices s.page).Perm (s.devs.map CardDev.dd)

instance (s : PageState) : Decidable s.Intact :=
  decidable_of_iff (_ ∧ _ ∧ _) ⟨fun h => ⟨h.1, h.2.1, h.2.2⟩, fun h => ⟨h.1, h.2, h.3⟩⟩

/-- The live devices that an action is not about -/
def PageState.others (s : PageState) : PageAct → List CardDev
  | .add _ _ => s.devs
  | .remove k => s.devs.eraseIdx k

/-- No byte in the entry of another device changes. -/
def OthersKept (s : PageState) (a : PageAct) (s' : PageState) : Prop :=
  ∀ d ∈ s.others a, ∀ k < d.total, s'.page (d.dd + k) = s.page (d.dd + k)

instance (s : PageState) (a : PageAct) (s' : PageState) : Decidable (OthersKept s a s') :=
  inferInstanceAs (Decidable (∀ d ∈ s.others a, ∀ k < d.total, _ = _))

end Vcass.Vop
