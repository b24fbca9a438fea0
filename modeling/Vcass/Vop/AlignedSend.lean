import Vcass.Core.Kernel
import Vcass.Core.Pieces
import Vcass.Core.Words

/-!
# Sending with an Offset Byte

The DMA engine wants addresses and lengths that are multiples of 64.  With `feature_desc_alignment`,
`transfer_dma_send` rounds the source down and the destination up, copies what is between the two
multiples, and stores in the first byte of the receive buffer how far behind it the data begin.

`transferDmaSend_sends` is the arithmetic of the sender: the offset is between 1 and 127, the engine
gets multiples of 64, and it writes behind the offset byte and inside the buffer, if the buffer has
`SEND_ALIGN_OVERHEAD_SIZE` bytes more than the data.
-/

namespace Vcass.Vop.Aligned

open Vcass.Core UInt64

/-! ## The sender -/

/-- `PLX_DMA_ALIGN_BYTES` -/
def plxDmaAlignBytes : UInt64 := 64

/-- `DMA_MAX_OFFSET` -/
def dmaMaxOffset : UInt64 := 127

/-- `SEND_ALIGN_OVERHEAD_SIZE` -/
def sendAlignOverheadSize : UInt64 := dmaMaxOffset + plxDmaAlignBytes

/-- `~(PLX_DMA_ALIGN_BYTES - 1)`, a negative `int` that is extended with its sign -/
def plxDmaAlignMask : UInt64 := 0xffffffffffffffc0

/-- `ALIGN(x, PLX_DMA_ALIGN_BYTES)` -/
def alignUp (x : UInt64) : UInt64 := (x + (plxDmaAlignBytes - 1)) &&& plxDmaAlignMask

/-- The part of `struct buffer_dma_item` that a DMA transfer reads -/
structure DmaItem where
  /-- `feature_desc_alignment` of the device -/
  featureDescAlignment : Bool
  srcPhys : UInt64
  /-- the DMA address of the intermediate buffer -/
  bufDa : UInt64

/-- What `transfer_dma_send` does: the byte stored at `remapped`, and the arguments of
`vop_async_dma` -/
structure DmaSend where
  offset : Option UInt8
  dst : UInt64
  src : UInt64
  len : UInt64
deriving DecidableEq

/-- `transfer_dma_send`; `none` when a `BUG_ON` is hit.  `dmaMapSingle` gives the DMA address of an
area of memory. -/
def transferDmaSend (dmaMapSingle : UInt64 → UInt64 → UInt64) (item : DmaItem) (dst size : UInt64) :
    Option DmaSend :=
  if item.featureDescAlignment then
    let newDst := alignUp dst
    let offsetDst := newDst - dst
    let newSrc := item.srcPhys &&& plxDmaAlignMask
    let offsetSrc := item.srcPhys - newSrc
    let offset := offsetDst + offsetSrc
    let srcPhysSz := alignUp (size + offsetSrc)
    if item.srcPhys = 0 then none
    else
      -- an aligned destination leaves no room for the offset byte
      let shift := if offsetDst < 1 then plxDmaAlignBytes else 0
      let offset := offset + shift
      let newDst := newDst + shift
      if dmaMaxOffset < offset then none
      else some ⟨some offset.toUInt8, newDst, dmaMapSingle newSrc srcPhysSz, srcPhysSz⟩
  else if item.srcPhys ≠ 0 then none
  else some ⟨none, dst, item.bufDa, alignUp size⟩

/-- How `transfer_write` ends -/
inductive WriteOutcome where
  | error (err : Int)
  /-- a `BUG_ON` was hit -/
  | bug
  /-- the transfer is under way, and `bytes_written` will be reported with it -/
  | send (t : DmaSend) (bytesWritten : UInt64)
deriving DecidableEq

/-- `transfer_write` into a chain of `numKvecsTo` vectors, of which the first two have the given
lengths; `remapped` is the destination that `transfer_ioremap` gives, if it succeeds. -/
def transferWrite (dmaMapSingle : UInt64 → UInt64 → UInt64) (item : DmaItem) (numKvecsTo : Nat)
    (hdrSize dstSize dataSize : UInt64) (remapped : Option UInt64) : WriteOutcome :=
  if numKvecsTo ≠ 2 then .error (-eIo)
  else if dstSize < dataSize + sendAlignOverheadSize then .error (-eNoSpc)
  else
    match remapped with
    | none => .error (-eNoMem)
    | some dst =>
      match transferDmaSend dmaMapSingle item dst dataSize with
      | none => .bug
      | some t => .send t (hdrSize + dataSize)

/-- The memory of the receiver when the transfer is over.  The engine reads `dmaMem`, the memory by
DMA addresses. -/
def DmaSend.effect (t : DmaSend) (remapped : Nat) (dmaMem m : Bytes) : Bytes :=
  let m :=
    match t.offset with
    | none => m
    | some b => m.write remapped [b]
  (⟨t.src.toNat, t.dst.toNat, t.len.toNat⟩ : Piece).deliver dmaMem m

/-- `dma_map_single` maps whole pages: an address keeps its place in the page, and the engine reads at
DMA addresses what is in the memory `phys`. -/
structure MapsPages (dmaMapSingle : UInt64 → UInt64 → UInt64) (phys dmaMem : Bytes) : Prop where
  inPage : ∀ addr len, (dmaMapSingle addr len).toNat % 4096 = addr.toNat % 4096
  reads : ∀ addr len : UInt64, ∀ k < len.toNat, addr.toNat + k < 2 ^ 64 →
    dmaMem ((dmaMapSingle addr len).toNat + k) = phys (addr.toNat + k)

/-! ## The arithmetic -/

theorem toNat_and_alignMask (x : UInt64) : (x &&& plxDmaAlignMask).toNat = x.toNat / 64 * 64 := by
  have hmask : plxDmaAlignMask.toNat = 2 ^ 64 - 2 ^ 6 := rfl
  rw [UInt64.toNat_and, hmask]
  exact and_high_mask x.toNat_lt (by decide)

theorem toNat_alignUp {x : UInt64} (h : x.toNat + 63 < 2 ^ 64) :
    (alignUp x).toNat = (x.toNat + 63) / 64 * 64 := by
  have hsum : (x + (plxDmaAlignBytes - 1)).toNat = x.toNat + 63 := by
    have hlow : (plxDmaAlignBytes - 1).toNat = 63 := rfl
    rw [UInt64.toNat_add, hlow]
    omega
  rw [alignUp, toNat_and_alignMask, hsum]

variable {dst : UInt64}

theorem toNat_offsetDst (h : dst.toNat + 63 < 2 ^ 64) :
    (alignUp dst - dst).toNat = (dst.toNat + 63) / 64 * 64 - dst.toNat := by
  have hnewDst := toNat_alignUp h
  rw [UInt64.toNat_sub_of_le _ _ (UInt64.le_iff_toNat_le.mpr (by omega)), hnewDst]

theorem toNat_offsetSrc (src : UInt64) : (src - (src &&& plxDmaAlignMask)).toNat = src.toNat % 64 := by
  have hnewSrc := toNat_and_alignMask src
  rw [UInt64.toNat_sub_of_le _ _ (UInt64.le_iff_toNat_le.mpr (by omega)), hnewSrc]
  omega

theorem toNat_shift (h : dst.toNat + 63 < 2 ^ 64) :
    (if alignUp dst - dst < 1 then plxDmaAlignBytes else 0).toNat =
      if dst.toNat % 64 = 0 then 64 else 0 := by
  have hone : (1 : UInt64).toNat = 1 := rfl
  have hiff : alignUp dst - dst < 1 ↔ dst.toNat % 64 = 0 := by
    rw [lt_iff_toNat_lt, toNat_offsetDst h, hone]
    omega
  by_cases hzero : dst.toNat % 64 = 0
  · rw [if_pos (hiff.mpr hzero), if_pos hzero]
    rfl
  · rw [if_neg (fun hlt => hzero (hiff.mp hlt)), if_neg hzero]
    rfl

theorem toNat_newDst (h : dst.toNat + 127 < 2 ^ 64) :
    (alignUp dst + if alignUp dst - dst < 1 then plxDmaAlignBytes else 0).toNat =
      (dst.toNat / 64 + 1) * 64 := by
  rw [UInt64.toNat_add, toNat_alignUp (by omega), toNat_shift (by omega)]
  split <;> omega

theorem toNat_offset (h : dst.toNat + 127 < 2 ^ 64) (src : UInt64) :
    (alignUp dst - dst + (src - (src &&& plxDmaAlignMask)) +
        if alignUp dst - dst < 1 then plxDmaAlignBytes else 0).toNat =
      64 - dst.toNat % 64 + src.toNat % 64 := by
  rw [UInt64.toNat_add, UInt64.toNat_add, toNat_offsetDst (by omega), toNat_offsetSrc,
    toNat_shift (by omega)]
  split <;> omega

theorem toNat_len (src : UInt64) {size : UInt64} (hsize : size.toNat + 191 ≤ 2 ^ 64) :
    (alignUp (size + (src - (src &&& plxDmaAlignMask)))).toNat =
      (size.toNat + src.toNat % 64 + 63) / 64 * 64 := by
  have hsum : (size + (src - (src &&& plxDmaAlignMask))).toNat = size.toNat + src.toNat % 64 := by
    rw [UInt64.toNat_add, toNat_offsetSrc]
    omega
  rw [toNat_alignUp (by omega), hsum]

/-- **What the sender does**, in numbers: `newSrc` is the begin of the area that is mapped, and the data
begin at the same distance from it as from the destination of the engine. -/
structure Sends (dmaMapSingle : UInt64 → UInt64 → UInt64) (src dst size : Nat) (t : DmaSend)
    (offset : UInt8) (newSrc : UInt64) : Prop where
  byte : t.offset = some offset
  offset_pos : 1 ≤ offset.toNat
  offset_le : offset.toNat ≤ 127
  mapped : t.src = dmaMapSingle newSrc t.len
  newSrc_aligned : 64 ∣ newSrc.toNat
  dst_aligned : 64 ∣ t.dst.toNat
  len_aligned : 64 ∣ t.len.toNat
  /-- the engine writes behind the offset byte and inside the buffer -/
  first : dst + 1 ≤ t.dst.toNat
  last : t.dst.toNat + t.len.toNat ≤ dst + size + 191
  /-- the data are in the mapped area, at the distance that the offset says -/
  src_le : newSrc.toNat ≤ src
  covers : src + size ≤ newSrc.toNat + t.len.toNat
  distance : t.dst.toNat + (src - newSrc.toNat) = dst + offset.toNat
  area : newSrc.toNat + t.len.toNat ≤ 2 ^ 64

/-- **The sender, for every source, destination and size** -/
theorem transferDmaSend_sends (dmaMapSingle : UInt64 → UInt64 → UInt64) {item : DmaItem}
    (hfeature : item.featureDescAlignment = true) (hsrc : item.srcPhys ≠ 0) {dst size : UInt64}
    (hdata : item.srcPhys.toNat + size.toNat ≤ 2 ^ 64) (hroom : dst.toNat + size.toNat + 191 ≤ 2 ^ 64) :
    ∃ t offset newSrc, transferDmaSend dmaMapSingle item dst size = some t ∧
      Sends dmaMapSingle item.srcPhys.toNat dst.toNat size.toNat t offset newSrc := by
  have hnewSrc := toNat_and_alignMask item.srcPhys
  have hlen := @toNat_len item.srcPhys size (by omega)
  have hdst := @toNat_newDst dst (by omega)
  have hoffset := @toNat_offset dst (by omega) item.srcPhys
  -- from here on only these four numbers matter
  generalize hnewSrc' : item.srcPhys &&& plxDmaAlignMask = newSrc at hnewSrc hlen hoffset
  generalize hlen' : alignUp (size + (item.srcPhys - newSrc)) = len at hlen
  generalize hdst' : (alignUp dst + if alignUp dst - dst < 1 then plxDmaAlignBytes else 0) = newDst
    at hdst
  generalize hoffset' : (alignUp dst - dst + (item.srcPhys - newSrc) +
    if alignUp dst - dst < 1 then plxDmaAlignBytes else 0) = offset at hoffset
  have hmax : ¬ dmaMaxOffset < offset := by
    have hvalue : dmaMaxOffset.toNat = 127 := rfl
    rw [lt_iff_toNat_lt, hoffset, hvalue]
    omega
  have hbyte : offset.toUInt8.toNat = 64 - dst.toNat % 64 + item.srcPhys.toNat % 64 := by
    rw [toNat_toUInt8, hoffset]
    omega
  refine ⟨⟨some offset.toUInt8, newDst, dmaMapSingle newSrc len, len⟩, offset.toUInt8, newSrc, ?_, ?_⟩
  · unfold transferDmaSend
    simp only
    rw [if_pos hfeature, if_neg hsrc, hnewSrc', hlen', hdst', hoffset', if_neg hmax]
  · have hfirst : dst.toNat + 1 ≤ newDst.toNat := by omega
    have hlast : newDst.toNat + len.toNat ≤ dst.toNat + size.toNat + 191 := by omega
    have hcovers : item.srcPhys.toNat + size.toNat ≤ newSrc.toNat + len.toNat := by omega
    have hdistance : newDst.toNat + (item.srcPhys.toNat - newSrc.toNat) =
        dst.toNat + offset.toUInt8.toNat := by omega
    have harea : newSrc.toNat + len.toNat ≤ 2 ^ 64 := by omega
    have hdstAligned : 64 ∣ newDst.toNat := by omega
    have hlenAligned : 64 ∣ len.toNat := by omega
    exact ⟨rfl, by omega, by omega, rfl, by omega, hdstAligned, hlenAligned, hfirst, hlast, by omega,
      hcovers, hdistance, harea⟩

end Vcass.Vop.Aligned
