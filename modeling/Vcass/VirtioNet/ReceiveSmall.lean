import Vcass.VirtioNet.ReceiveQueue
import Vcass.Vop.AlignedSend

/-!
# A Packet from Sender to Receiver

`receive_buf` in its small-buffer mode: the packet is in the `skb` itself, and with `offset_rx_bufs`
the first byte says where it begins.  Together with the sender of `Vop/AlignedSend.lean` this is the
whole way of a packet: `packet_delivered` says that what `receive_buf` hands to the network stack are
the bytes of the source.

Packets shorter than an Ethernet header are sent like the others, but `receive_buf` drops them
(`short_packet_dropped`).
-/

namespace Vcass.VirtioNet

open Vcass.Core Vcass.Vop.Aligned

/-! ## The receiver -/

/-- The part of `struct virtnet_info` that `receive_buf` reads in small-buffer mode -/
structure VirtnetInfo where
  hdrLen : UInt8
  offsetRxBufs : Bool

/-- The part of a linear `struct sk_buff` that says what the packet is: it begins at `data` and has
`len` bytes -/
structure Skb where
  data : Nat
  len : UInt32

/-- `struct virtio_net_hdr`, as far as it decides about a packet -/
structure VnetHdr where
  flags : UInt8
  gsoType : UInt8
  gsoSize : UInt16

/-- `skb_trim` -/
def skbTrim (skb : Skb) (len : UInt32) : Skb := if len < skb.len then { skb with len := len } else skb

/-- `skb_reserve` -/
def skbReserve (skb : Skb) (len : Nat) : Skb := { skb with data := skb.data + len }

/-- `receive_small` -/
def receiveSmall (vi : VirtnetInfo) (buf : Skb) (len : UInt32) (offset : Nat) : Skb :=
  let skb := skbTrim buf (len - vi.hdrLen.toUInt32)
  if offset ≠ 0 then skbReserve skb offset else skb

/-- `VIRTIO_NET_HDR_F_NEEDS_CSUM` is set. -/
def VnetHdr.needsCsum (hdr : VnetHdr) : Bool := hdr.flags &&& 1 ≠ 0

/-- The header asks for segments of a kind or size that `receive_buf` refuses. -/
def VnetHdr.badGso (hdr : VnetHdr) : Bool :=
  hdr.gsoType ≠ 0 ∧ (hdr.gsoType &&& 0x7f ∉ [(1 : UInt8), 3, 4] ∨ hdr.gsoSize = 0)

/-- `receive_buf`, as far as the packet goes: the `skb` given to `netif_receive_skb`, before the
Ethernet header is taken off.  `csumOk` is what `skb_partial_csum_set` answers. -/
def receiveBufPacket (vi : VirtnetInfo) (m : Bytes) (buf : Skb) (hdr : VnetHdr) (csumOk : Bool)
    (len : UInt32) : Option Skb :=
  if len.toNat < vi.hdrLen.toNat + ethHlen then none
  else
    let offset := if vi.offsetRxBufs then (m buf.data).toNat else 0
    let skb := receiveSmall vi buf len offset
    if hdr.needsCsum && !csumOk then none
    else if hdr.badGso then none
    else some skb

def Skb.packet (skb : Skb) (m : Bytes) : List UInt8 :=
  (List.range skb.len.toNat).map fun k => m (skb.data + k)

/-! ## Both sides -/

/-- **A packet on its way**: `size` bytes at `src` are sent into a receive buffer of `bufLen` bytes at
`dst`, whose memory is `m`; the peer reports the length that `transfer_write` has counted.  The
header is not written, and was zero when the `skb` was allocated. -/
structure Transfers (dmaMapSingle : UInt64 → UInt64 → UInt64) (phys dmaMem m : Bytes)
    (vi : VirtnetInfo) (src dst size : UInt64) (bufLen : UInt32) (t : DmaSend) (offset : UInt8)
    (newSrc : UInt64) : Prop where
  sent : transferWrite dmaMapSingle ⟨true, src, 0⟩ 2 vi.hdrLen.toUInt64 bufLen.toUInt64 size
    (some dst) = .send t (vi.hdrLen.toUInt64 + size)
  sends : Sends dmaMapSingle src.toNat dst.toNat size.toNat t offset newSrc
  src_aligned : 64 ∣ t.src.toNat
  /-- the offset byte is not overwritten -/
  kept : t.effect dst.toNat dmaMem m dst.toNat = offset
  inside : Bytes.Within dst.toNat (dst.toNat + bufLen.toNat) m (t.effect dst.toNat dmaMem m)
  received : ∃ skb,
    receiveBufPacket vi (t.effect dst.toNat dmaMem m) ⟨dst.toNat, bufLen⟩ ⟨0, 0, 0⟩ true
        (vi.hdrLen.toUInt64 + size).toUInt32 = some skb ∧
      skb.packet (t.effect dst.toNat dmaMem m) =
        (List.range size.toNat).map fun k => phys (src.toNat + k)

section

variable {dmaMapSingle : UInt64 → UInt64 → UInt64} {phys dmaMem m : Bytes} {src dst size : Nat}
  {t : DmaSend} {offset : UInt8} {newSrc : UInt64}

theorem effect_first (h : Sends dmaMapSingle src dst size t offset newSrc) :
    t.effect dst dmaMem m dst = offset := by
  unfold DmaSend.effect
  rw [h.byte, Piece.deliver_of_outside (.inl h.first)]
  exact Bytes.write_singleton_self

theorem effect_within (h : Sends dmaMapSingle src dst size t offset newSrc) {bufLen : Nat}
    (hbuf : size + 191 ≤ bufLen) : Bytes.Within dst (dst + bufLen) m (t.effect dst dmaMem m) := by
  have hfirst := h.first
  have hlast := h.last
  intro k hk
  unfold DmaSend.effect
  rw [h.byte, Piece.deliver_of_outside (by simp only; omega)]
  exact Bytes.write_of_outside (by rw [List.length_singleton]; omega)

theorem effect_data (h : Sends dmaMapSingle src dst size t offset newSrc)
    (hmap : MapsPages dmaMapSingle phys dmaMem) {k : Nat} (hk : k < size) :
    t.effect dst dmaMem m (dst + offset.toNat + k) = phys (src + k) := by
  have hdistance := h.distance
  have hcovers := h.covers
  have harea := h.area
  have hle := h.src_le
  have hplace : dst + offset.toNat + k = t.dst.toNat + (src - newSrc.toNat + k) := by omega
  have hin : src - newSrc.toNat + k < t.len.toNat := by omega
  unfold DmaSend.effect
  rw [hplace, Piece.deliver_of_inside hin]
  simp only
  rw [h.mapped, hmap.reads newSrc t.len _ hin (by omega)]
  congr 1
  omega

end

theorem receiveBufPacket_offset {vi : VirtnetInfo} (hvi : vi.offsetRxBufs = true) {m : Bytes}
    {dst size : Nat} {bufLen len : UInt32} {offset : UInt8} (hbyte : m dst = offset)
    (hpos : 1 ≤ offset.toNat) (hsize : 14 ≤ size) (hlen : len.toNat = vi.hdrLen.toNat + size)
    (hbuf : size < bufLen.toNat) :
    ∃ skb, receiveBufPacket vi m ⟨dst, bufLen⟩ ⟨0, 0, 0⟩ true len = some skb ∧
      skb.data = dst + offset.toNat ∧ skb.len.toNat = size := by
  have hlong : ¬ len.toNat < vi.hdrLen.toNat + ethHlen := by
    simp only [ethHlen]
    omega
  have hdata : (len - vi.hdrLen.toUInt32).toNat = size := by
    have hhdr : vi.hdrLen.toUInt32.toNat = vi.hdrLen.toNat := UInt8.toNat_toUInt32 _
    rw [UInt32.toNat_sub_of_le _ _ (UInt32.le_iff_toNat_le.mpr (by omega)), hhdr]
    omega
  -- `skb_trim` only ever shortens
  have htrim : len - vi.hdrLen.toUInt32 < bufLen := by
    rw [UInt32.lt_iff_toNat_lt, hdata]
    exact hbuf
  refine ⟨⟨dst + offset.toNat, len - vi.hdrLen.toUInt32⟩, ?_, rfl, hdata⟩
  unfold receiveBufPacket
  rw [if_neg hlong, hvi, if_pos rfl]
  simp only [hbyte, receiveSmall, skbTrim, if_pos htrim]
  rw [if_pos (Nat.ne_of_gt hpos)]
  rfl

/-- **A packet is delivered as it was sent**: for every source and destination, every size from an
Ethernet header on, and every receive buffer with room for the alignment. -/
theorem packet_delivered {dmaMapSingle : UInt64 → UInt64 → UInt64} {phys dmaMem : Bytes}
    (hmap : MapsPages dmaMapSingle phys dmaMem) (m : Bytes) {vi : VirtnetInfo}
    (hvi : vi.offsetRxBufs = true) {src dst size : UInt64} {bufLen : UInt32} (hsrc : src ≠ 0)
    (hdata : src.toNat + size.toNat ≤ 2 ^ 64) (hsize : 14 ≤ size.toNat)
    (hbuf : size.toNat + 191 ≤ bufLen.toNat) (hroom : dst.toNat + bufLen.toNat ≤ 2 ^ 64)
    (hlen : vi.hdrLen.toNat + size.toNat < 2 ^ 32) :
    ∃ t offset newSrc,
      Transfers dmaMapSingle phys dmaMem m vi src dst size bufLen t offset newSrc := by
  have hbufLen := bufLen.toNat_lt
  obtain ⟨t, offset, newSrc, hsend, hsends⟩ := @transferDmaSend_sends dmaMapSingle
    ⟨true, src, 0⟩ rfl hsrc dst size hdata (by omega)
  refine ⟨t, offset, newSrc, ⟨?_, hsends, ?_, effect_first hsends, effect_within hsends hbuf, ?_⟩⟩
  · have hfits : ¬ bufLen.toUInt64 < size + sendAlignOverheadSize := by
      have hover : sendAlignOverheadSize.toNat = 191 := rfl
      have hbuf64 : bufLen.toUInt64.toNat = bufLen.toNat := UInt32.toNat_toUInt64 _
      rw [UInt64.lt_iff_toNat_lt, UInt64.toNat_add, hover, hbuf64]
      omega
    unfold transferWrite
    rw [if_neg (by decide), if_neg hfits]
    simp only [hsend]
  · -- a page is a multiple of a line
    have hpage := hmap.inPage newSrc t.len
    have haligned := hsends.newSrc_aligned
    rw [hsends.mapped]
    omega
  · have hcount : ((vi.hdrLen.toUInt64 + size).toUInt32).toNat = vi.hdrLen.toNat + size.toNat := by
      have hhdr : vi.hdrLen.toUInt64.toNat = vi.hdrLen.toNat := UInt8.toNat_toUInt64 _
      rw [UInt64.toNat_toUInt32, UInt64.toNat_add, hhdr]
      omega
    have hbyte : t.effect dst.toNat dmaMem m dst.toNat = offset := effect_first hsends
    have hsmaller : size.toNat < bufLen.toNat := by omega
    obtain ⟨skb, hreceive, hbegin, hbytes⟩ := receiveBufPacket_offset hvi hbyte hsends.offset_pos
      hsize hcount hsmaller
    refine ⟨skb, hreceive, ?_⟩
    unfold Skb.packet
    rw [hbegin, hbytes]
    apply List.map_congr_left
    intro k hk
    exact effect_data hsends hmap (List.mem_range.mp hk)

/-- The worst case: a destination on a line, a source at the end of one, a buffer without slack -/
theorem packet_delivered_worstCase :
    ∃ t offset newSrc, Transfers (fun addr _ => addr) (fun k => UInt8.ofNat k)
      (fun k => UInt8.ofNat k) (fun _ => 0) ⟨10, true⟩ 0x103f 0x2000 66 257 t offset newSrc ∧
        offset = 127 ∧ t.len = 192 := by
  have hmap : MapsPages (fun addr _ => addr) (fun k => UInt8.ofNat k) (fun k => UInt8.ofNat k) :=
    ⟨fun _ _ => rfl, fun _ _ _ _ _ => rfl⟩
  obtain ⟨t, offset, newSrc, htransfers⟩ := @packet_delivered _ _ _ hmap (fun _ => 0) ⟨10, true⟩
    rfl 0x103f 0x2000 66 257 (by decide) (by decide) (by decide) (by decide) (by decide) (by decide)
  have hsent := htransfers.sent
  have hvalue : transferWrite (fun addr _ => addr) ⟨true, 0x103f, 0⟩ 2 (10 : UInt8).toUInt64
      (257 : UInt32).toUInt64 66 (some 0x2000) =
      .send ⟨some 127, 0x2040, 0x1000, 192⟩ ((10 : UInt8).toUInt64 + 66) := by
    decide
  obtain ⟨rfl, -⟩ := WriteOutcome.send.inj (hvalue.symm.trans hsent)
  exact ⟨_, offset, newSrc, htransfers, (Option.some.inj htransfers.sends.byte).symm, rfl⟩

/-- One byte is sent as it should be, and dropped by `receive_buf`: with the virtio header it is shorter
than an Ethernet header.  A source at address 0 is not sent at all. -/
theorem short_packet_dropped :
    (∀ t offset newSrc, ¬ Transfers (fun addr _ => addr) (fun k => UInt8.ofNat k)
      (fun k => UInt8.ofNat k) (fun _ => 0) ⟨10, true⟩ 0x1000 0x2000 1 192 t offset newSrc) ∧
    transferWrite (fun addr _ => addr) ⟨true, 0, 0⟩ 2 10 1024 64 (some 0x2000) = .bug := by
  refine ⟨?_, by decide⟩
  intro t offset newSrc htransfers
  obtain ⟨skb, hreceive, _⟩ := htransfers.received
  have hdropped : ∀ m : Bytes, receiveBufPacket ⟨10, true⟩ m ⟨(0x2000 : UInt64).toNat, 192⟩ ⟨0, 0, 0⟩
      true ((10 : UInt8).toUInt64 + 1).toUInt32 = none :=
    fun _ => if_pos (by decide)
  rw [hdropped] at hreceive
  cases hreceive

end Vcass.VirtioNet
