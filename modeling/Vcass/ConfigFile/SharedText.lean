import Vcass.ConfigFile.Buffer
import Vcass.Ioctl.VariableSize
import Vcass.Alut.Hardware

/-!
# A Text from the Card

The agent on the card answers with a text.  `_plx_set_card_csa_mem` keeps it in the card's memory
and writes its DMA address and its size to the boot parameters, which lie in the host's memory;
`plx_read_dma_mapped_mem` on the host maps that much of the card's memory and copies the text.

The size is a field of four bytes, but the host reads it with `readq`.  The four bytes that follow
are `h2c_csa_mem_db`, `csa_command`, `csa_finished` and one byte of padding, and the text is read
when `csa_finished` is set, so that the number is never less than `2 ^ 48`
(`answered_readq`).  The host thus always maps as much as its own buffer takes.  The terminator of
the text makes up for that: the result is right wherever the mapping is made (`hostEnv_readsText`).

A host with an A-LUT refuses a mapping that has no room, and one of no bytes, which a buffer of one
byte asks for.  **The text arrives, and what is mapped lies inside what the card has published,
exactly when the mapping is made and the buffer is not larger than the text with its terminator**
(`sharedText_iff`).
-/

namespace Vcass.ConfigFile

open Vcass.Core Vcass.Ioctl Vcass.Alut List Bytes

/-! ## The boot parameters -/

/-- The members of `struct vca_bootparam` up to `csa_finished` -/
inductive BootParam where
  | magic | versionHost | versionCard | testFlagsEvents | reserved
  | h2cConfigDb | nodeId | h2cScifDb | c2hScifDb
  | scifHostDmaAddr | scifCardDmaAddr
  | netConfigDmaAddr | netConfigSize | sysConfigDmaAddr | sysConfigSize
  | cardCsaMemDmaAddr | cardCsaMemSize | h2cCsaMemDb | csaCommand | csaFinished
deriving DecidableEq

/-- The members in order, with size and alignment -/
def bootParams : List (BootParam × Nat × Nat) :=
  [(.magic, 4, 4), (.versionHost, 4, 4), (.versionCard, 4, 4), (.testFlagsEvents, 8, 8),
   (.reserved, 24, 8), (.h2cConfigDb, 1, 1), (.nodeId, 1, 1), (.h2cScifDb, 1, 1),
   (.c2hScifDb, 1, 1), (.scifHostDmaAddr, 8, 8), (.scifCardDmaAddr, 8, 8),
   (.netConfigDmaAddr, 8, 8), (.netConfigSize, 4, 4), (.sysConfigDmaAddr, 8, 8),
   (.sysConfigSize, 4, 4), (.cardCsaMemDmaAddr, 8, 8), (.cardCsaMemSize, 4, 4),
   (.h2cCsaMemDb, 1, 1), (.csaCommand, 1, 1), (.csaFinished, 1, 1)]

/-- The offset of a member, when the members of the list are laid out from `off` on -/
def offsetFrom (member : BootParam) : Nat → List (BootParam × Nat × Nat) → Nat
  | off, [] => off
  | off, (other, size, align) :: rest =>
    let start := divRoundUp off align * align
    if other = member then start else offsetFrom member (start + size) rest

def offsetOf (member : BootParam) : Nat := offsetFrom member 0 bootParams

@[simp]
theorem offsetOf_cardCsaMemDmaAddr : offsetOf .cardCsaMemDmaAddr = 104 := by decide

@[simp]
theorem offsetOf_cardCsaMemSize : offsetOf .cardCsaMemSize = 112 := by decide

/-! ## The card -/

/-- The boot parameters and what the card keeps of its own -/
structure CardCsa where
  bootParams : Bytes
  cardCsaMemVa : Nat
  /-- All pages that were ever allocated for the text -/
  pages : List Pages

/-- The triple that `_plx_set_card_csa_mem` passes -/
def CardCsa.config (card : CardCsa) : Config where
  dmaAddr := UInt64.ofNat (card.bootParams.le (offsetOf .cardCsaMemDmaAddr) 8)
  size := card.bootParams.le (offsetOf .cardCsaMemSize) 4
  virtAddr := card.cardCsaMemVa
  pages := card.pages

/-- `_plx_set_card_csa_mem`: the card, and the result -/
def plxSetCardCsaMem (card : CardCsa) (buf : List UInt8) (new : Option NewPages) :
    CardCsa × Int :=
  let (config, cnt) := plxSetConfigFile card.config buf new
  let m := card.bootParams
  let m := m.write (offsetOf .cardCsaMemDmaAddr) (Bytes.littleEndian 8 config.dmaAddr.toNat)
  let m := m.write (offsetOf .cardCsaMemSize) (Bytes.littleEndian 4 config.size)
  let m := m.write (offsetOf .csaFinished) [1]
  (⟨m, config.virtAddr, config.pages⟩, cnt)

/-- The card's memory by DMA address, with the contents of pages at the address they are mapped to -/
def mappedAt (dmaAddr : UInt64) (contents elsewhere : Bytes) : Bytes := fun addr =>
  if dmaAddr.toNat ≤ addr then contents (addr - dmaAddr.toNat) else elsewhere addr

/-! ## The host -/

/-- The A-LUT has room for a mapping, or has a block that contains it. -/
def HasRoom (xdev : PlxDevice) (pa len : Nat) : Prop :=
  (plxAddALutEntry xdev pa len).map (fun r => r.2.1) = some 0

instance (xdev : PlxDevice) (pa len : Nat) : Decidable (HasRoom xdev pa len) :=
  inferInstanceAs (Decidable (_ = _))

/-- `plx_alm_add_entry` refuses a mapping of no bytes. -/
theorem not_hasRoom_zero (xdev : PlxDevice) (pa : Nat) : ¬ HasRoom xdev pa 0 := by
  simp [HasRoom, plxAddALutEntry, plxAlmAddEntry, plxAlmAddEntryRec, eNoMem, eExist]

/-- `plx_ioremap`, with the A-LUT of the host if it has one: where the memory of the card is seen -/
def plxIoremap (aLut : Option PlxDevice) (memory : Bytes) (pa len : Nat) : Option Bytes :=
  if ∀ xdev ∈ aLut, HasRoom xdev pa len then some fun k => memory (pa + k) else none

/-- What `_plx_csm_agent_command` meets, with the fields of the boot parameters -/
def agentEnv (aLut : Option PlxDevice) (bootParams memory : Bytes) : AgentEnv where
  csaReady := bootParams (offsetOf .h2cCsaMemDb) ≠ 0 ∧ bootParams (offsetOf .h2cCsaMemDb) ≠ 255
  csaFinished := bootParams (offsetOf .csaFinished) ≠ 0
  -- `readq` of a field of four bytes
  dmaSizeRead := ssize (bootParams.le (offsetOf .cardCsaMemSize) 8)
  -- the length is passed on as a `size_t`
  ioremap size := plxIoremap aLut memory (bootParams.le (offsetOf .cardCsaMemDmaAddr) 8)
    (size % 2 ^ 64).toNat

/-- The number of bytes that `plx_read_dma_mapped_mem` maps at `card_csa_mem_dma_addr` and copies;
none when it maps nothing -/
def mappedLength (env : AgentEnv) (outBufSize : Int) : Option Int :=
  let size := min env.dmaSizeRead (outBufSize - 1)
  if outBufSize = 0 then none else (env.ioremap size).map fun _ => size

/-! ## The text in the card's memory -/

/-- A text without one newline at its end -/
def withoutNewline (text : List UInt8) : List UInt8 :=
  if text.getLast? = some 10 then text.dropLast else text

section

variable {m : Bytes} {text : List UInt8}

theorem write_getElem {k : Nat} (hk : k < text.length) : m.write 0 text k = text[k] := by
  have h : m.write 0 text (0 + k) = text.getD k 0 := write_of_inside hk
  rw [zero_add] at h
  rw [h, getD_eq_getElem?_getD, List.getElem?_eq_getElem hk, Option.getD_some]

theorem write_last (hne : text ≠ []) :
    m.write 0 text (text.length - 1) = 10 ↔ text.getLast? = some 10 := by
  have hlt : text.length - 1 < text.length := by
    have := length_pos_of_ne_nil hne
    omega
  rw [write_getElem hlt, List.getLast?_eq_getElem?, List.getElem?_eq_getElem hlt, Option.some.injEq]

/-- `plx_set_config_file` stores the text without its newline. -/
theorem storeText_getElem (hne : text ≠ []) {k : Nat} (hk : k < (withoutNewline text).length) :
    storeText m text k = (withoutNewline text)[k] := by
  unfold storeText
  rw [if_congr (write_last hne) rfl rfl]
  unfold withoutNewline at hk ⊢
  split at hk <;> rename_i hlast
  · rw [length_dropLast] at hk
    simp only [if_pos hlast, getElem_dropLast]
    rw [write_of_outside (Or.inl hk), write_getElem]
  · simp only [if_neg hlast]
    rw [write_of_outside (Or.inl hk), write_getElem]

theorem storeText_terminated (hne : text ≠ []) :
    storeText m text (withoutNewline text).length = 0 := by
  unfold storeText
  rw [if_congr (write_last hne) rfl rfl]
  unfold withoutNewline
  split
  · rw [length_dropLast]
    exact write_singleton_self
  · exact write_singleton_self

end

/-- `strnlen` finds the terminator, or stops at the end. -/
theorem strnlen_eq {m : Bytes} {off c n : Nat} (htext : ∀ k < c, m (off + k) ≠ 0)
    (hend : c < n → m (off + c) = 0) (hle : c ≤ n) : strnlen m off n = c := by
  induction n generalizing off c with
  | zero =>
    obtain rfl : c = 0 := by omega
    rfl
  | succ n ih =>
    rw [strnlen]
    cases c with
    | zero =>
      have hfirst : m off = 0 := hend (Nat.succ_pos n)
      rw [if_pos hfirst]
    | succ c =>
      have hfirst : m off ≠ 0 := htext 0 (Nat.succ_pos c)
      rw [if_neg hfirst, ih]
      · intro k hk
        rw [add_assoc, add_comm 1 k]
        exact htext (k + 1) (Nat.succ_lt_succ hk)
      · intro hc
        rw [add_assoc, add_comm 1 c]
        exact hend (Nat.succ_lt_succ hc)
      · exact Nat.le_of_succ_le_succ hle

/-! ## The fields when the answer is read -/

section

variable (card : CardCsa) (text : List UInt8) (new : NewPages)

/-- The boot parameters after the card has answered -/
def CardCsa.answered : Bytes := (plxSetCardCsaMem card text (some new)).1.bootParams

theorem answered_eq :
    card.answered text new =
      ((card.bootParams.write 104 (littleEndian 8 new.dmaAddr.toNat)).write 112
        (littleEndian 4 ((text.length + 1) % 2 ^ 32))).write 118 [1] := rfl

theorem answered_dmaAddr :
    (card.answered text new).le (offsetOf .cardCsaMemDmaAddr) 8 = new.dmaAddr.toNat := by
  rw [offsetOf_cardCsaMemDmaAddr, le_of_littleEndian (x := new.dmaAddr.toNat)]
  · exact Nat.mod_eq_of_lt new.dmaAddr.toNat_lt
  · intro k hk
    rw [answered_eq, write_of_outside (by omega),
      write_of_outside (Or.inl (by omega)), write_of_inside]
    rw [length_littleEndian]
    exact hk

theorem answered_size :
    (card.answered text new).le (offsetOf .cardCsaMemSize) 4 = (text.length + 1) % 2 ^ 32 := by
  rw [offsetOf_cardCsaMemSize, le_of_littleEndian (x := (text.length + 1) % 2 ^ 32)]
  · exact Nat.mod_mod _ _
  · intro k hk
    rw [answered_eq, write_of_outside (by omega), write_of_inside]
    rw [length_littleEndian]
    exact hk

/-- The number that `readq` gives takes in `csa_finished` and the padding behind it. -/
theorem answered_readq (hpadding : card.bootParams (offsetOf .csaFinished + 1) = 0) :
    2 ^ 48 ≤ (card.answered text new).le (offsetOf .cardCsaMemSize) 8 ∧
      (card.answered text new).le (offsetOf .cardCsaMemSize) 8 < 2 ^ 56 := by
  have hfinished : card.answered text new 118 = 1 := by
    rw [answered_eq]
    exact write_singleton_self
  have hpad : card.answered text new 119 = 0 := by
    rw [answered_eq, write_of_outside (by decide), write_of_outside (by simp),
      write_of_outside (by simp)]
    exact hpadding
  have hlow := (card.answered text new).le_lt 112 4
  have hdb := (card.answered text new 116).toNat_lt
  have hcommand := (card.answered text new 117).toNat_lt
  have hnext : (card.answered text new).le 116 4 =
      (card.answered text new 116).toNat + 256 * ((card.answered text new 117).toNat + 256 * 1) := by
    simp only [le, hfinished, hpad]
    rfl
  rw [offsetOf_cardCsaMemSize, le_add _ 112 4 4, hnext]
  constructor <;> omega

end

/-! ## The round trip -/

/-- The buffer after `memcpy_fromio` and the terminator -/
def copied (host : Bytes) (outBuf size : Nat) (mem : Bytes) : Bytes :=
  (host.write outBuf ((List.range size).map mem)).write (outBuf + size) [0]

theorem plxReadDmaMappedMem_unmapped {env : AgentEnv} {outBufSize : Int}
    (h : mappedLength env outBufSize = none) (host : Bytes) (outBuf : Nat) :
    plxReadDmaMappedMem env host outBuf outBufSize = some (0, host) := by
  unfold mappedLength at h
  unfold plxReadDmaMappedMem
  split
  · rfl
  · rename_i hsize
    rw [if_neg hsize, Option.map_eq_none_iff] at h
    simp only [h]

theorem plxReadDmaMappedMem_mapped {env : AgentEnv} {outBufSize size : Nat} {mem : Bytes}
    (hpos : 1 ≤ outBufSize) (hsize : min env.dmaSizeRead (outBufSize - 1) = size)
    (hmem : env.ioremap size = some mem) (host : Bytes) (outBuf : Nat) :
    plxReadDmaMappedMem env host outBuf outBufSize =
      some (strnlen (copied host outBuf size mem) outBuf size, copied host outBuf size mem) := by
  unfold plxReadDmaMappedMem
  rw [hsize, if_neg (by omega)]
  simp only [hmem]
  rw [if_neg (Int.not_lt.mpr (Int.natCast_nonneg size)), Int.toNat_natCast]
  rfl

/-- The call returns the length of `text`, and the buffer holds `text` and a terminator. -/
def ReadsText (env : AgentEnv) (host : Bytes) (outBuf outBufSize : Nat) (text : List UInt8) :
    Prop :=
  ∃ host', plxReadDmaMappedMem env host outBuf outBufSize = some (text.length, host') ∧
    (∀ k (hk : k < text.length), host' (outBuf + k) = text[k]) ∧ host' (outBuf + text.length) = 0

/-- What is mapped and copied lies in the `published` bytes. -/
def MapsInside (env : AgentEnv) (outBufSize published : Nat) : Prop :=
  ∀ size, mappedLength env outBufSize = some size → size ≤ published

theorem copied_inside {host mem : Bytes} {outBuf size k : Nat} (hk : k < size) :
    copied host outBuf size mem (outBuf + k) = mem k := by
  have hlen : k < ((List.range size).map mem).length := by
    rw [length_map, length_range]
    exact hk
  rw [copied, write_of_outside (Or.inl (by omega)), write_of_inside hlen,
    getD_eq_getElem?_getD, List.getElem?_eq_getElem hlen, Option.getD_some, getElem_map,
    getElem_range]

/-- Copying a terminated text to a buffer of `size + 1` bytes -/
theorem copied_text {host mem : Bytes} {outBuf size : Nat} {text : List UInt8} (hnul : 0 ∉ text)
    (htext : ∀ k (hk : k < text.length), mem k = text[k]) (hend : mem text.length = 0) :
    strnlen (copied host outBuf size mem) outBuf size = (text.take size).length ∧
    (∀ k (hk : k < (text.take size).length),
      copied host outBuf size mem (outBuf + k) = (text.take size)[k]) ∧
    copied host outBuf size mem (outBuf + (text.take size).length) = 0 := by
  have hlen : (text.take size).length = min size text.length := length_take
  have hbytes : ∀ k (hk : k < (text.take size).length),
      copied host outBuf size mem (outBuf + k) = (text.take size)[k] := by
    intro k hk
    rw [copied_inside (by omega), htext k (by omega), getElem_take]
  have hstop : copied host outBuf size mem (outBuf + (text.take size).length) = 0 := by
    rw [hlen]
    rcases lt_or_ge text.length size with hshort | hlong
    · -- the terminator of the text is copied
      rw [min_eq_right (le_of_lt hshort), copied_inside hshort, hend]
    · -- the text is cut, and the buffer is terminated
      rw [min_eq_left hlong]
      exact write_singleton_self
  refine ⟨strnlen_eq ?_ (fun _ => hstop) (by omega), hbytes, hstop⟩
  intro k hk hzero
  rw [hbytes k hk] at hzero
  apply hnul
  rw [← hzero]
  exact mem_of_mem_take (getElem_mem hk)

theorem mapped_of_readsText {env : AgentEnv} {outBufSize : Nat} {text : List UInt8}
    (h : ∀ host outBuf, ReadsText env host outBuf outBufSize text) :
    mappedLength env outBufSize ≠ none := by
  intro hnone
  obtain ⟨host', hread, -, hend⟩ := h (fun _ => 1) 0
  rw [plxReadDmaMappedMem_unmapped hnone] at hread
  -- the byte where the terminator should be is the one of the old buffer
  obtain ⟨-, rfl⟩ := Prod.mk.inj (Option.some.inj hread)
  exact absurd hend (show (1 : UInt8) ≠ 0 by decide)

section

variable (card : CardCsa) (text : List UInt8) (new : NewPages) (elsewhere : Bytes)
  (aLut : Option PlxDevice)

/-- What the host meets after the card has answered -/
def CardCsa.hostEnv : AgentEnv :=
  agentEnv aLut (card.answered text new)
    (mappedAt new.dmaAddr (new.pagesFor text).contents elsewhere)

variable {card text new elsewhere aLut}

theorem hostEnv_ioremap {size : Nat} (hsize : size < 2 ^ 64) :
    (card.hostEnv text new elsewhere aLut).ioremap size =
      if ∀ xdev ∈ aLut, HasRoom xdev new.dmaAddr.toNat size then some (new.pagesFor text).contents
      else none := by
  have hmem : (fun k => mappedAt new.dmaAddr (new.pagesFor text).contents elsewhere
      (new.dmaAddr.toNat + k)) = (new.pagesFor text).contents := by
    funext k
    rw [mappedAt, if_pos (Nat.le_add_right _ _), Nat.add_sub_cancel_left]
  have hlen : ((size : Int) % 2 ^ 64).toNat = size := by omega
  rw [CardCsa.hostEnv, agentEnv]
  simp only [answered_dmaAddr, plxIoremap, hlen, hmem]

/-- Whatever the text, the host asks for as much as its buffer takes, up to `2 ^ 48` bytes. -/
theorem hostEnv_size (hpadding : card.bootParams (offsetOf .csaFinished + 1) = 0)
    {outBufSize : Nat} (hpos : 1 ≤ outBufSize) :
    ∃ readq, 2 ^ 48 ≤ readq ∧ readq < 2 ^ 56 ∧
      min (card.hostEnv text new elsewhere aLut).dmaSizeRead (outBufSize - 1) =
        ((min readq (outBufSize - 1) : Nat) : Int) := by
  have hreadq := answered_readq card text new hpadding
  have hread : (card.hostEnv text new elsewhere aLut).dmaSizeRead =
      ssize ((card.answered text new).le (offsetOf .cardCsaMemSize) 8) := by
    rw [CardCsa.hostEnv, agentEnv]
  generalize (card.answered text new).le (offsetOf .cardCsaMemSize) 8 = readq at hreadq hread
  refine ⟨readq, hreadq.1, hreadq.2, ?_⟩
  rw [hread, ssize_of_lt (by omega)]
  omega

theorem hostEnv_readsText (hne : text ≠ []) (hnul : 0 ∉ text)
    (hpadding : card.bootParams (offsetOf .csaFinished + 1) = 0) {outBufSize : Nat}
    (hpos : 1 ≤ outBufSize) (hsmall : outBufSize ≤ 2 ^ 48)
    (hroom : ∀ xdev ∈ aLut, HasRoom xdev new.dmaAddr.toNat (outBufSize - 1)) (host : Bytes)
    (outBuf : Nat) :
    ReadsText (card.hostEnv text new elsewhere aLut) host outBuf outBufSize
      ((withoutNewline text).take (outBufSize - 1)) := by
  have hnul' : 0 ∉ withoutNewline text := by
    unfold withoutNewline
    split
    · exact fun h => hnul (dropLast_subset text h)
    · exact hnul
  obtain ⟨hlen, hbytes, hstop⟩ := @copied_text host (new.pagesFor text).contents outBuf
    (outBufSize - 1) _ hnul' (fun k hk => storeText_getElem hne hk) (storeText_terminated hne)
  obtain ⟨readq, hreadq, -, hsize⟩ := @hostEnv_size card text new elsewhere aLut hpadding _ hpos
  rw [Nat.min_eq_right (by omega)] at hsize
  have hmem := @hostEnv_ioremap card text new elsewhere aLut (outBufSize - 1) (by omega)
  rw [if_pos hroom] at hmem
  refine ⟨_, ?_, hbytes, hstop⟩
  rw [plxReadDmaMappedMem_mapped hpos hsize hmem, hlen]

/-- **The text makes the round trip, and the host maps only what the card has published, exactly
when** an A-LUT of the host has room for the mapping, which it never has for a buffer of one byte, and
**the buffer of the host is not larger than the published size and one byte**, which is the length of
the text and two for every text below 4 GiB. -/
theorem sharedText_iff (hne : text ≠ []) (hnul : 0 ∉ text)
    (hpadding : card.bootParams (offsetOf .csaFinished + 1) = 0) {outBufSize : Nat}
    (hpos : 1 ≤ outBufSize) :
    ((∀ host outBuf, ReadsText (card.hostEnv text new elsewhere aLut) host outBuf outBufSize
        ((withoutNewline text).take (outBufSize - 1))) ∧
      MapsInside (card.hostEnv text new elsewhere aLut) outBufSize
        ((card.answered text new).le (offsetOf .cardCsaMemSize) 4)) ↔
      (∀ xdev ∈ aLut, 2 ≤ outBufSize ∧ HasRoom xdev new.dmaAddr.toNat (outBufSize - 1)) ∧
        outBufSize ≤ (text.length + 1) % 2 ^ 32 + 1 := by
  obtain ⟨readq, hlarge, hreadq, hsize⟩ :=
    @hostEnv_size card text new elsewhere aLut hpadding _ hpos
  have hmem := @hostEnv_ioremap card text new elsewhere aLut (min readq (outBufSize - 1)) (by omega)
  have hmapped : mappedLength (card.hostEnv text new elsewhere aLut) outBufSize =
      if ∀ xdev ∈ aLut, HasRoom xdev new.dmaAddr.toNat (min readq (outBufSize - 1)) then
        some ((min readq (outBufSize - 1) : Nat) : Int) else none := by
    rw [mappedLength, if_neg (by omega), hsize, hmem]
    split <;> rfl
  rw [answered_size]
  constructor
  · rintro ⟨hreads, hinside⟩
    have hroom : ∀ xdev ∈ aLut, HasRoom xdev new.dmaAddr.toNat (min readq (outBufSize - 1)) := by
      by_contra hfull
      rw [if_neg hfull] at hmapped
      exact mapped_of_readsText hreads hmapped
    rw [if_pos hroom] at hmapped
    have hle := hinside _ hmapped
    rw [Nat.min_eq_right (by omega)] at hroom
    refine ⟨fun xdev hx => ⟨?_, hroom xdev hx⟩, by omega⟩
    by_contra hone
    obtain rfl : outBufSize = 1 := by omega
    exact not_hasRoom_zero xdev _ (hroom xdev hx)
  · rintro ⟨hroom, hsmall⟩
    refine ⟨hostEnv_readsText hne hnul hpadding hpos (by omega) fun xdev hx => (hroom xdev hx).2, ?_⟩
    intro size hsome
    rw [hmapped] at hsome
    split at hsome
    · obtain rfl := Option.some.inj hsome
      omega
    · cases hsome

end

/-- A card whose boot parameters are zero -/
def freshCard : CardCsa := ⟨fun _ => 0, 0, []⟩

/-- An A-LUT of four segments of 16 bytes, all free -/
def freshALut : PlxDevice := ⟨⟨4, 16, fun _ => {}⟩, 0, fun _ => 0⟩

/-- The text `ok` with a newline, a buffer of four bytes, and a host with an A-LUT -/
theorem sharedText_ok :
    ReadsText (freshCard.hostEnv [111, 107, 10] zeroPages (fun _ => 0) (some freshALut))
        (fun _ => 0) 0 4 [111, 107] ∧
      MapsInside (freshCard.hostEnv [111, 107, 10] zeroPages (fun _ => 0) (some freshALut)) 4
        ((freshCard.answered [111, 107, 10] zeroPages).le (offsetOf .cardCsaMemSize) 4) := by
  have hroom : ∀ xdev ∈ some freshALut, 2 ≤ 4 ∧ HasRoom xdev zeroPages.dmaAddr.toNat (4 - 1) := by
    rintro xdev ⟨⟩
    decide
  have h := (@sharedText_iff freshCard [111, 107, 10] zeroPages (fun _ => 0) (some freshALut)
    (by decide) (by decide) rfl 4 (by decide)).mpr ⟨hroom, by decide⟩
  exact ⟨h.1 _ 0, h.2⟩

/-- A text of one byte, of which two bytes are published, and a buffer of `PAGE_SIZE` bytes: the host
maps 4095 bytes. -/
theorem sharedText_mapsBeyond :
    ¬ MapsInside (freshCard.hostEnv [97] zeroPages (fun _ => 0) none) 4096
      ((freshCard.answered [97] zeroPages).le (offsetOf .cardCsaMemSize) 4) := by
  intro hinside
  rw [answered_size] at hinside
  obtain ⟨readq, hlarge, hreadq, hsize⟩ := @hostEnv_size freshCard [97] zeroPages (fun _ => 0) none
    rfl 4096 (by decide)
  have hle := hinside (min readq (4096 - 1) : Nat) (by
    rw [mappedLength, if_neg (by decide), hsize, hostEnv_ioremap (by omega)]
    rfl)
  simp only [List.length_singleton] at hle
  omega

end Vcass.ConfigFile
