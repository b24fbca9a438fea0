import Vcass.Agent.Command
import Vcass.Core.Kernel
import Vcass.Core.UserMemory
import Vcass.Eeprom.Image

/-!
# Ioctl Data of Variable Size

Two ioctls take a header that is followed by a buffer, with the size of the buffer in the header.
`_vca_get_ioctl_data` fetches the size, checks it and allocates a block for header and buffer; then it
copies the header, the size field included, from user memory once more.  The callers take the size
from the block.

The block is as large as its header says exactly when the user has not changed the field in between
(`validated_size_kept_iff`); then the output of an agent command stays inside it (`agent_inside_block`).
Otherwise the agent command may write past the end of the block, and the caller's test of the size
comes after that (`size_check_bypassed`).
-/

namespace Vcass.Ioctl

open Vcass.Core BitVec Bytes

/-! ## The data of an ioctl -/

/-- The layout of a header, and how much data may follow it.  Sums of these sizes fit into a
`size_t`. -/
structure Format where
  headerSize : Nat
  /-- Where the field `buf_size` is -/
  bufSizeOffset : Nat
  maxBufSize : Nat
  inputBufSize : Nat
  field_inside : bufSizeOffset + 8 ≤ headerSize
  fits : headerSize + maxBufSize < 2 ^ 64

/-- The field `buf_size` -/
def Format.bufSize (fmt : Format) (m : Bytes) : Nat := m.le fmt.bufSizeOffset 8

/-- `struct vca_csm_ioctl_agent_cmd`, `VCA_MAX_AGENT_BUF_SIZE` and one byte of input -/
def agentFormat : Format := ⟨16, 8, 4 * 1024, 1, by decide, by decide⟩

/-- `struct vca_eeprom_desc` and `VCA_MAX_EEPROM_BUF_SIZE` -/
def eepromFormat : Format := ⟨16, 8, 1024 * 1024, 1024 * 1024, by decide, by decide⟩

/-- `access_ok` and `kzalloc` -/
structure Answers where
  accessOk : Nat → Bool
  allocOk : Nat → Bool

/-- `_vca_get_ioctl_data`: the block and `total_size` -/
def vcaGetIoctlData (fmt : Format) (first second : Fetch) (answers : Answers) :
    Except Int (Block × Nat) :=
  match first with
  | none => .error (-eFault)
  | some user =>
    let bufSize := fmt.bufSize user
    if bufSize > fmt.maxBufSize then .error (-e2Big)
    else if fmt.inputBufSize > fmt.maxBufSize then .error (-e2Big)
    else
      let totalSize := fmt.headerSize + bufSize
      let copySize := fmt.headerSize + min fmt.inputBufSize bufSize
      if answers.accessOk totalSize = false then .error (-eFault)
      else if answers.allocOk totalSize = false then .error (-eNoMem)
      else
        match (Block.kzalloc totalSize).copyFromUser second copySize with
        | none => .error (-eFault)
        | some data => .ok (data, totalSize)

/-- The user has not changed the field between the copies. -/
def Format.SameBufSize (fmt : Format) (first second : Fetch) : Prop :=
  ∀ user user', first = some user → second = some user' → fmt.bufSize user' = fmt.bufSize user

/-- The tests that `_vca_get_ioctl_data` makes before the second copy -/
def Format.Passes (fmt : Format) (user : Bytes) (answers : Answers) : Prop :=
  fmt.bufSize user ≤ fmt.maxBufSize ∧ fmt.inputBufSize ≤ fmt.maxBufSize ∧
    answers.accessOk (fmt.headerSize + fmt.bufSize user) = true ∧
    answers.allocOk (fmt.headerSize + fmt.bufSize user) = true

/-- A call with the buffer of a block: the size that is passed, and the bytes that are there -/
structure BufferCall where
  size : Nat
  room : Nat
deriving DecidableEq

def Format.callOf (fmt : Format) (desc : Block) : BufferCall :=
  ⟨fmt.bufSize desc.bytes, desc.size - fmt.headerSize⟩

structure IoctlRun where
  /-- The result; none after a copy of a negative size -/
  rc : Option Int
  /-- The call with the buffer of the block -/
  call : Option BufferCall
  /-- The block when it is freed -/
  desc : Option Block

/-! ## Agent commands -/

/-- What `_plx_csm_agent_command` meets -/
structure AgentEnv where
  /-- `h2c_csa_mem_db` is neither 0 nor -1 -/
  csaReady : Bool
  /-- `csa_finished` at the end of the wait -/
  csaFinished : Bool
  /-- What `readq` finds at `card_csa_mem_size` -/
  dmaSizeRead : Int
  /-- `plx_ioremap` of the output of the agent -/
  ioremap : Int → Option Bytes

/-- `strnlen` -/
def strnlen (m : Bytes) (off : Nat) : Nat → Nat
  | 0 => 0
  | n + 1 => if m off = 0 then 0 else strnlen m (off + 1) n + 1

/-- `plx_read_dma_mapped_mem`, with the buffer at `outBuf` of a memory -/
def plxReadDmaMappedMem (env : AgentEnv) (m : Bytes) (outBuf : Nat) (outBufSize : Int) :
    Option (Nat × Bytes) :=
  let size := min env.dmaSizeRead (outBufSize - 1)
  if outBufSize = 0 then some (0, m)
  else
    match env.ioremap size with
    | none => some (0, m)
    | some mem =>
      if size < 0 then none
      else
        let m := m.write outBuf ((List.range size.toNat).map mem)
        let m := m.write (outBuf + size.toNat) [0]
        some (strnlen m outBuf size.toNat, m)

/-- A `size_t` as `ssize_t` -/
def ssize (size : Nat) : Int := (BitVec.ofNat 64 size).toInt

/-- `_plx_csm_agent_command`, with the buffer at `buf` of a memory: the result, `*size` and the
memory.  The exchange with the agent is in `AgentEnv`. -/
def plxCsmAgentCommand (env : AgentEnv) (m : Bytes) (buf size : Nat) :
    Option (Agent.LbpRetval × Nat × Bytes) :=
  if !Agent.vcaValidateAgentCmd (m buf).toInt8.toInt then some (.unknownParameter, size, m)
  else if env.csaReady = false then some (.internalError, size, m)
  else if env.csaFinished then
    match plxReadDmaMappedMem env m buf (ssize size) with
    | none => none
    | some (count, m) => some (.stateOk, count, m)
  else some (.irqTimeout, size, m)

/-- The values of `enum vca_lbp_retval` -/
def lbpRetvalValue : Agent.LbpRetval → Nat
  | .stateOk => 0
  | .irqTimeout => 2
  | .unknownParameter => 6
  | .internalError => 7

/-- Both headers begin with a field `ret` of four bytes. -/
def setHeader (fmt : Format) (m : Bytes) (ret bufSize : Nat) : Bytes :=
  (m.write 0 (Bytes.littleEndian 4 ret)).write fmt.bufSizeOffset (Bytes.littleEndian 8 bufSize)

/-- `vca_agent_command_ioctl` -/
def vcaAgentCommandIoctl (first second : Fetch) (answers : Answers) (env : AgentEnv)
    (copyToUserOk : Bool) : IoctlRun :=
  match vcaGetIoctlData agentFormat first second answers with
  | .error err => ⟨some err, none, none⟩
  | .ok (desc, totalSize) =>
    let call := agentFormat.callOf desc
    match plxCsmAgentCommand env desc.bytes agentFormat.headerSize call.size with
    | none => ⟨none, some call, none⟩
    | some (ret, bufSize, m) =>
      let desc : Block := ⟨desc.size, setHeader agentFormat m (lbpRetvalValue ret) bufSize⟩
      let outSize := (bufSize + agentFormat.headerSize) % 2 ^ 64
      let rc := if outSize > totalSize then -e2Big else if copyToUserOk then 0 else -eFault
      ⟨some rc, some call, some desc⟩

/-! ## EEPROM updates -/

/-- The values of `enum plx_eep_retval` -/
def eepRetvalValue : Eeprom.EepRetval → Nat
  | .statusOk => 0
  | .internalError => 1
  | .timeout => 2

/-- The case `VCA_UPDATE_EEPROM` of `vca_mgr_ioctl`; `updateEeprom` gets the data and the size. -/
def vcaUpdateEepromIoctl (capable : Bool) (first second : Fetch) (answers : Answers)
    (updateEeprom : Bytes → Nat → Eeprom.EepRetval) (copyToUserOk : Bool) : IoctlRun :=
  if capable = false then ⟨some (-ePerm), none, none⟩
  else
    match vcaGetIoctlData eepromFormat first second answers with
    | .error err => ⟨some err, none, none⟩
    | .ok (desc, _) =>
      let call := eepromFormat.callOf desc
      let ret := updateEeprom (fun k => desc.bytes (eepromFormat.headerSize + k)) call.size
      let desc : Block := ⟨desc.size, setHeader eepromFormat desc.bytes (eepRetvalValue ret) 0⟩
      ⟨some (if copyToUserOk then 0 else -eFault), some call, some desc⟩

/-! ## The block -/

section

variable {first second : Fetch} {answers : Answers} {totalSize : Nat} {fmt : Format} {data : Block}

/-- **When a block is returned**: the first copy passes the tests and gives the size, the second one
gives the bytes. -/
theorem vcaGetIoctlData_ok_iff :
    vcaGetIoctlData fmt first second answers = .ok (data, totalSize) ↔
      ∃ user, first = some user ∧ fmt.Passes user answers ∧
        totalSize = fmt.headerSize + fmt.bufSize user ∧
        (Block.kzalloc totalSize).copyFromUser second
          (fmt.headerSize + min fmt.inputBufSize (fmt.bufSize user)) = some data := by
  unfold vcaGetIoctlData Format.Passes
  cases first with
  | none => simp
  | some user =>
    simp only [Option.some.injEq, exists_eq_left']
    by_cases hmax : fmt.bufSize user > fmt.maxBufSize
    · simp [hmax, Nat.not_le.mpr hmax]
    by_cases hinput : fmt.inputBufSize > fmt.maxBufSize
    · simp [hmax, hinput, Nat.not_le.mpr hinput]
    simp only [if_neg hmax, if_neg hinput, Nat.not_lt.mp hmax, Nat.not_lt.mp hinput, true_and]
    cases answers.accessOk (fmt.headerSize + fmt.bufSize user)
    · simp
    cases answers.allocOk (fmt.headerSize + fmt.bufSize user)
    · simp
    simp only [Bool.true_eq_false, if_false, true_and]
    constructor
    · intro h
      split at h <;> cases h
      exact ⟨rfl, ‹_›⟩
    · rintro ⟨rfl, hcopy⟩
      rw [hcopy]

theorem vcaGetIoctlData_ok (h : vcaGetIoctlData fmt first second answers = .ok (data, totalSize)) :
    ∃ user user', first = some user ∧ second = some user' ∧ fmt.Passes user answers ∧
      data.size = fmt.headerSize + fmt.bufSize user ∧ totalSize = data.size ∧
      fmt.bufSize data.bytes = fmt.bufSize user' := by
  obtain ⟨user, hfirst, hpasses, rfl, hcopy⟩ := vcaGetIoctlData_ok_iff.mp h
  obtain ⟨user', hsecond, hdata⟩ := Block.copyFromUser_some hcopy
  have hfield := fmt.field_inside
  exact ⟨user, user', hfirst, hsecond, hpasses, hdata.size, hdata.size.symm, hdata.le (by omega)⟩

theorem size_of_same
    (hsame : ∀ user, first = some user → fmt.Passes user answers → fmt.SameBufSize first second)
    (h : vcaGetIoctlData fmt first second answers = .ok (data, totalSize)) :
    ∃ user, first = some user ∧ fmt.bufSize data.bytes = fmt.bufSize user ∧
      fmt.bufSize data.bytes ≤ fmt.maxBufSize ∧
      data.size = fmt.headerSize + fmt.bufSize data.bytes ∧ totalSize = data.size := by
  obtain ⟨user, user', hfirst, hsecond, hpasses, hsize, htotal, hfield⟩ := vcaGetIoctlData_ok h
  rw [hsame user hfirst hpasses user user' hfirst hsecond] at hfield
  rw [hfield]
  exact ⟨user, hfirst, rfl, hpasses.1, hsize, htotal⟩

theorem callOf_of_same
    (hsame : ∀ user, first = some user → fmt.Passes user answers → fmt.SameBufSize first second)
    (h : vcaGetIoctlData fmt first second answers = .ok (data, totalSize)) :
    (fmt.callOf data).size ≤ (fmt.callOf data).room := by
  obtain ⟨user, _, _, _, hsize, _⟩ := size_of_same hsame h
  have hroom : (fmt.callOf data).room = data.size - fmt.headerSize := rfl
  have hcall : (fmt.callOf data).size = fmt.bufSize data.bytes := rfl
  omega

theorem agent_call {env : AgentEnv} {copyToUserOk : Bool} {call : BufferCall}
    (h : (vcaAgentCommandIoctl first second answers env copyToUserOk).call = some call) :
    ∃ data totalSize, vcaGetIoctlData agentFormat first second answers = .ok (data, totalSize) ∧
      call = agentFormat.callOf data := by
  unfold vcaAgentCommandIoctl at h
  split at h
  · cases h
  case h_2 data totalSize hdata =>
    simp only at h
    split at h
    · exact ⟨data, totalSize, hdata, (Option.some.inj h).symm⟩
    · exact ⟨data, totalSize, hdata, (Option.some.inj h).symm⟩

theorem eeprom_call {capable : Bool} {updateEeprom : Bytes → Nat → Eeprom.EepRetval}
    {copyToUserOk : Bool} {call : BufferCall}
    (h : (vcaUpdateEepromIoctl capable first second answers updateEeprom copyToUserOk).call =
      some call) :
    ∃ data totalSize, vcaGetIoctlData eepromFormat first second answers = .ok (data, totalSize) ∧
      call = eepromFormat.callOf data := by
  unfold vcaUpdateEepromIoctl at h
  split at h
  · cases h
  split at h
  · cases h
  case h_2 data totalSize hdata =>
    exact ⟨data, totalSize, hdata, (Option.some.inj h).symm⟩

end

/-! ## Main results -/

/-- The size that was checked is the size that is used: the block has it in its header, and the agent
command and the EEPROM update get a size that is not larger than their buffer. -/
def ValidatedSizeKept (fmt : Format) (first second : Fetch) (answers : Answers) : Prop :=
  (∀ data totalSize, vcaGetIoctlData fmt first second answers = .ok (data, totalSize) →
      ∃ user, first = some user ∧ fmt.bufSize data.bytes = fmt.bufSize user ∧
        fmt.bufSize data.bytes ≤ fmt.maxBufSize ∧
        data.size = fmt.headerSize + fmt.bufSize data.bytes ∧ totalSize = data.size) ∧
    (fmt = agentFormat → ∀ env copyToUserOk call,
      (vcaAgentCommandIoctl first second answers env copyToUserOk).call = some call →
        call.size ≤ call.room) ∧
    (fmt = eepromFormat → ∀ capable updateEeprom copyToUserOk call,
      (vcaUpdateEepromIoctl capable first second answers updateEeprom copyToUserOk).call =
          some call →
        call.size ≤ call.room)

/-- **The size that was checked is the size that is used exactly when** the first copy does not get
as far as the second, or the user has not changed the field. -/
theorem validated_size_kept_iff (fmt : Format) (first second : Fetch) (answers : Answers) :
    ValidatedSizeKept fmt first second answers ↔
      ∀ user, first = some user → fmt.Passes user answers → fmt.SameBufSize first second := by
  constructor
  · rintro ⟨hkept, -⟩ user hfirst hpasses _ user' huser rfl
    cases hfirst.symm.trans huser
    obtain ⟨data, hcopy⟩ : ∃ b, (Block.kzalloc (fmt.headerSize + fmt.bufSize user)).copyFromUser
        (some user') (fmt.headerSize + min fmt.inputBufSize (fmt.bufSize user)) = some b := ⟨_, rfl⟩
    have hrun := vcaGetIoctlData_ok_iff.mpr ⟨user, hfirst, hpasses, rfl, hcopy⟩
    -- the field of the block is the one of the second copy
    obtain ⟨_, _, -, hsecond, -, -, -, hfield⟩ := vcaGetIoctlData_ok hrun
    cases hsecond
    obtain ⟨_, hfirst', hsize, -⟩ := hkept data _ hrun
    cases hfirst.symm.trans hfirst'
    exact hfield.symm.trans hsize
  · intro hsame
    refine ⟨fun data totalSize h => size_of_same hsame h, ?_, ?_⟩
    · rintro rfl env copyToUserOk call hcall
      obtain ⟨data, totalSize, hdata, rfl⟩ := agent_call hcall
      exact callOf_of_same hsame hdata
    · rintro rfl capable updateEeprom copyToUserOk call hcall
      obtain ⟨data, totalSize, hdata, rfl⟩ := eeprom_call hcall
      exact callOf_of_same hsame hdata

/-! ## What an agent command writes -/

theorem plxReadDmaMappedMem_within {env : AgentEnv} {m m' : Bytes} {outBuf count outBufSize : Nat}
    (h : plxReadDmaMappedMem env m outBuf outBufSize = some (count, m')) :
    Bytes.Within outBuf (outBuf + outBufSize) m m' := by
  unfold plxReadDmaMappedMem at h
  simp only at h
  split at h
  · cases h
    exact .refl
  split at h
  · cases h
    exact .refl
  case h_2 mem hmem =>
    split at h
    · cases h
    · cases h
      -- one byte is left for the terminator
      have hsize : (min env.dmaSizeRead ((outBufSize : Int) - 1)).toNat + 1 ≤ outBufSize := by omega
      refine .trans (within_write (Nat.le_refl _) ?_) (within_write (Nat.le_add_right _ _) ?_)
      · rw [List.length_map, List.length_range]
        omega
      · rw [List.length_singleton]
        omega

theorem ssize_of_lt {size : Nat} (hsize : size < 2 ^ 63) : ssize size = size := by
  rw [ssize, toInt_eq_toNat_of_lt, toNat_ofNat]
  · rw [Nat.mod_eq_of_lt (by omega)]
  · rw [toNat_ofNat]
    omega

theorem plxCsmAgentCommand_within {env : AgentEnv} {m m' : Bytes} {buf size size' : Nat}
    {ret : Agent.LbpRetval} (hsize : size < 2 ^ 63)
    (h : plxCsmAgentCommand env m buf size = some (ret, size', m')) :
    Bytes.Within buf (buf + size) m m' := by
  unfold plxCsmAgentCommand at h
  rw [ssize_of_lt hsize] at h
  split at h
  · cases h
    exact .refl
  split at h
  · cases h
    exact .refl
  split at h
  · split at h
    · cases h
    case h_2 count m₁ hread =>
      cases h
      exact plxReadDmaMappedMem_within hread
  · cases h
    exact .refl

/-- **An agent command writes to its block only**, if the user has not changed the field. -/
theorem agent_inside_block {first second : Fetch} {answers : Answers} {env : AgentEnv}
    {copyToUserOk : Bool} (hsame : agentFormat.SameBufSize first second) {data : Block}
    {totalSize : Nat}
    (hdata : vcaGetIoctlData agentFormat first second answers = .ok (data, totalSize)) {desc : Block}
    (h : (vcaAgentCommandIoctl first second answers env copyToUserOk).desc = some desc) :
    Bytes.Within 0 data.size data.bytes desc.bytes := by
  obtain ⟨user, _, _, hmax, hsize, _⟩ := size_of_same (fun _ _ _ => hsame) hdata
  have hheader : agentFormat.headerSize = 16 := rfl
  have hlimit : agentFormat.maxBufSize = 4096 := rfl
  unfold vcaAgentCommandIoctl at h
  rw [hdata] at h
  simp only at h
  split at h
  · cases h
  case h_2 ret bufSize m hcommand =>
    obtain rfl := Option.some.inj h
    have hcall : (agentFormat.callOf data).size = agentFormat.bufSize data.bytes := rfl
    have hwithin := plxCsmAgentCommand_within (by omega) hcommand
    -- the output is in the buffer, and the results are in the header
    refine (hwithin.mono (Nat.zero_le _) (by omega)).trans ?_
    refine .trans (within_write (Nat.zero_le _) ?_) (within_write (Nat.zero_le _) ?_)
    · rw [length_littleEndian]
      omega
    · have hfield : agentFormat.bufSizeOffset = 8 := rfl
      rw [length_littleEndian]
      omega

/-! ## Runs -/

/-- User memory with a size in its header, and a command -/
def userData (bufSize : Nat) (cmd : UInt8) : Bytes :=
  (Bytes.write (fun _ => 0) 8 (Bytes.littleEndian 8 bufSize)).write 16 [cmd]

/-- An agent with an output of four bytes -/
def fourBytes : AgentEnv := ⟨true, true, 4, fun _ => some fun _ => 65⟩

/-- A buffer of 64 bytes, with the same contents at both copies -/
theorem agent_inside_block_output :
    ∃ data desc : Block, data.size = 80 ∧
      (vcaAgentCommandIoctl (some (userData 64 1)) (some (userData 64 1))
        ⟨fun _ => true, fun _ => true⟩ fourBytes true).desc = some desc ∧
      Within 0 data.size data.bytes desc.bytes := by
  refine ⟨_, _, rfl, rfl, agent_inside_block ?_
    (show vcaGetIoctlData _ (some (userData 64 1)) (some (userData 64 1))
      ⟨fun _ => true, fun _ => true⟩ = .ok _ from rfl)
    (show (vcaAgentCommandIoctl _ _ _ fourBytes true).desc = some _ from rfl)⟩
  rintro _ _ ⟨⟩ ⟨⟩
  rfl

/-- **The check of the size is bypassed**: a size of 1 is checked, and 4096 is used.  The output of the
agent is written past the end of the block before the ioctl returns `-E2BIG`. -/
theorem size_check_bypassed :
    ∃ data desc,
      vcaGetIoctlData agentFormat (some (userData 1 1)) (some (userData 4096 1))
          ⟨fun _ => true, fun _ => true⟩ = .ok (data, 17) ∧
        agentFormat.bufSize data.bytes = 4096 ∧
        vcaAgentCommandIoctl (some (userData 1 1)) (some (userData 4096 1))
            ⟨fun _ => true, fun _ => true⟩ fourBytes true =
          ⟨some (-e2Big), some ⟨4096, 1⟩, some desc⟩ ∧
        data.size = 17 ∧ desc.bytes 17 ≠ data.bytes 17 ∧
        (vcaUpdateEepromIoctl true (some (userData 1 1)) (some (userData 4096 1))
            ⟨fun _ => true, fun _ => true⟩ (fun _ _ => .statusOk) true).call = some ⟨4096, 1⟩ :=
  ⟨_, _, rfl, by decide, rfl, rfl, by decide, by decide⟩

end Vcass.Ioctl
