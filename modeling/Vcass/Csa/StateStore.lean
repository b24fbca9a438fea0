import Vcass.Core.CString
import Vcass.Core.Kernel

/-!
# Writing the State of a Card

The sysfs attribute `state` of a card takes the name of a state and sets it.  `state_store` measures
the text up to the end of the line, and `get_vca_state_num` compares that many bytes with the names
of the states, one after the other.

The length of a comparison comes from the text that was written, not from the name.  A text is
therefore accepted as soon as it is the beginning of a name, and since the length is measured by
`strcspn`, which stops at a byte 0, so is a line whose part before a byte 0 is one.

- `setState_eq_some_iff`: the accepted texts are the beginnings of the names.
- `stateStore_exact_iff`: the texts for which only full names set a state.
-/

namespace Vcass.Csa

open Vcass.Core Vcass.Core.CString

/-! ## States and their names -/

/-- `enum vca_lbp_states`.  `VCA_SIZE` is no state, see `getVcaStateNum`. -/
inductive VcaLbpStates where
  | biosDown
  | biosUp
  | biosReady
  | osReady
  | netDevReady
  | booting
  | flashing
  | resetting
  | busy
  | done
  | error
  | netDevUp
  | netDevDown
  | netDevNoIp
  | drvProbeDone
  | drvProbeError
  | dhcpInProgress
  | dhcpDone
  | dhcpError
  | nfsMountDone
  | nfsMountError
  | linkDown
  | bootingBlockio
  | osRebooting
  | afterReboot
  | powerDown
  | poweringDown
deriving DecidableEq

/-- `get_vca_state_string` -/
def getVcaStateString : VcaLbpStates → String
  | .biosDown => "bios_down"
  | .biosUp => "bios_up"
  | .biosReady => "bios_ready"
  | .osReady => "os_ready"
  | .netDevReady => "net_device_ready"
  | .booting => "booting"
  | .flashing => "flashing"
  | .resetting => "resetting"
  | .busy => "busy"
  | .done => "done"
  | .error => "error"
  | .netDevUp => "net_device_up"
  | .netDevDown => "net_device_down"
  | .netDevNoIp => "net_device_no_ip"
  | .drvProbeDone => "drv_probe_done"
  | .drvProbeError => "drv_probe_error"
  | .dhcpInProgress => "dhcp_in_progress"
  | .dhcpDone => "dhcp_done"
  | .dhcpError => "dhcp_error"
  | .nfsMountDone => "nfs_mount_done"
  | .nfsMountError => "nfs_mount_error"
  | .linkDown => "link_down"
  | .bootingBlockio => "booting"
  | .osRebooting => "os_rebooting"
  | .afterReboot => "waiting_for_boot"
  | .powerDown => "power_off"
  | .poweringDown => "powering_down"

def name (s : VcaLbpStates) : Str :=
  ascii (getVcaStateString s)

/-- The states in the order in which `get_vca_state_num` compares their names.  `VCA_LINK_DOWN` has
a name but is not among them. -/
def compared : List VcaLbpStates :=
  [.biosDown, .biosUp, .biosReady, .osReady, .netDevReady, .booting, .flashing,
    .resetting, .busy, .done, .error, .netDevUp, .netDevDown, .netDevNoIp,
    .drvProbeDone, .drvProbeError, .dhcpInProgress, .dhcpDone, .dhcpError,
    .nfsMountDone, .nfsMountError, .bootingBlockio, .osRebooting, .afterReboot,
    .powerDown, .poweringDown]

/-- `get_vca_state_num`.  The result `VCA_SIZE` is `none`. -/
def getVcaStateNum (str : Str) (len : Nat) : Option VcaLbpStates :=
  compared.find? fun s => strncmp len (name s) str = 0

/-! ## The attribute -/

/-- What a write to the attribute does: the value returned and the state that is passed to
`set_state`, if any. -/
structure Stored where
  ret : Int
  setState : Option VcaLbpStates
deriving DecidableEq

/-- `state_store`.  The flag `cdev` says whether the device has its driver data. -/
def stateStore (cdev : Bool) (buf : Str) (count : Nat) : Stored :=
  if !cdev || count == 0 || buf.getD count 0 != 0 then
    ⟨-eInval, none⟩
  else
    let len := strcspn buf (ascii "\n\r")
    if len = 0 then
      ⟨-eInval, none⟩
    else
      match getVcaStateNum buf len with
      | some state => ⟨count, some state⟩
      | none => ⟨-eInval, none⟩

/-- A write of the bytes `text`.  The buffer that the kernel passes on holds the bytes and a
terminator. -/
def write (cdev : Bool) (text : Str) : Stored :=
  stateStore cdev (text ++ [0]) text.length

/-! ## Lines -/

/-- The text before the first newline or carriage return -/
def line (text : Str) : Str :=
  text.takeWhile fun c => !(ascii "\n\r").contains c

/-- The part of the line that `state_store` measures: up to the first byte 0 -/
def measured (text : Str) : Str :=
  span (ascii "\n\r") text

/-- Only the full name of a state sets it, and every other text is refused. -/
structure Exact (cdev : Bool) (text : Str) : Prop where
  only : ∀ s, (write cdev text).setState = some s → line text = name s
  refused : (∀ s, line text ≠ name s) → write cdev text = ⟨-eInval, none⟩

/-- If the measured part of the line begins a name, then it is a full name, and the line holds
nothing else. -/
def Unabridged (text : Str) : Prop :=
  measured text ≠ [] → (∃ s ∈ compared, measured text <+: name s) →
    line text = measured text ∧ ∃ s ∈ compared, measured text = name s

theorem measured_eq (text : Str) : measured text = (line text).takeWhile fun c => c ≠ 0 := by
  simp [measured, line, span, List.takeWhile_takeWhile]

theorem measured_of_line_eq_name {text : Str} {s : VcaLbpStates} (h : line text = name s) :
    measured text = line text := by
  have hzero : ∀ c ∈ name s, c ≠ 0 := by
    cases s <;> decide +kernel
  rw [measured_eq, List.takeWhile_eq_self_iff]
  intro c hc
  simpa using hzero c (h ▸ hc)

theorem name_eq_of_isPrefix :
    ∀ s ∈ compared, ∀ s' ∈ compared, name s' <+: name s → name s' = name s := by
  decide +kernel

/-! ## Accepted texts -/

theorem getVcaStateNum_eq (text : Str) :
    getVcaStateNum (text ++ [0]) (measured text).length =
      compared.find? fun s => measured text <+: name s := by
  obtain ⟨rest, hrest⟩ := span_isPrefix (ascii "\n\r") text
  have hzero : 0 ∉ measured text := zero_notMem_span _ _
  have hcompare (s : VcaLbpStates) :
      strncmp (measured text).length (name s) (text ++ [0]) = 0 ↔
        measured text <+: name s := by
    have hsplit : text ++ [0] = measured text ++ (rest ++ [0]) := by
      rw [← List.append_assoc, measured, hrest]
    rw [hsplit]
    exact strncmp_eq_zero_iff hzero _ _
  simp only [getVcaStateNum, hcompare]

theorem write_eq (text : Str) :
    write true text =
      match (if measured text = [] then none
        else compared.find? fun s => measured text <+: name s) with
      | some s => ⟨text.length, some s⟩
      | none => ⟨-eInval, none⟩ := by
  by_cases hnil : text = []
  · simp [hnil, write, stateStore, measured, span]
  · -- the kernel ends the text with a zero, so that `strcspn` stops at the end at the latest
    have hend : (text ++ [0]).getD text.length 0 = 0 := by
      simp [List.getD_eq_getElem?_getD]
    simp only [write, stateStore, hend, strcspn_append_zero]
    rw [← measured]
    by_cases hmeasured : measured text = []
    · simp [hmeasured]
    · simp [hnil, hmeasured, getVcaStateNum_eq]

theorem setState_eq_some_iff {text : Str} {s : VcaLbpStates} :
    (write true text).setState = some s ↔
      measured text ≠ [] ∧ (compared.find? fun s => measured text <+: name s) = some s := by
  rw [write_eq]
  by_cases hmeasured : measured text = []
  · simp [hmeasured]
  · cases hfind : compared.find? fun s => measured text <+: name s <;> simp [hmeasured]

/-! ## Exact names -/

theorem write_of_setState_none {text : Str} (h : (write true text).setState = none) :
    write true text = ⟨-eInval, none⟩ := by
  rw [write_eq] at h ⊢
  split at h
  · simp at h
  · rfl

/-- For a card with its driver data, only full names set a state exactly if the text is unabridged.
-/
theorem exact_iff_unabridged (text : Str) : Exact true text ↔ Unabridged text := by
  constructor
  · rintro ⟨honly, -⟩ hmeasured ⟨s, hs, hbegin⟩
    obtain ⟨first, hfirst⟩ : ∃ first,
        (compared.find? fun s => measured text <+: name s) = some first := by
      rw [← Option.isSome_iff_exists, List.find?_isSome]
      exact ⟨s, hs, by simpa using hbegin⟩
    have hline : line text = name first :=
      honly first (setState_eq_some_iff.mpr ⟨hmeasured, hfirst⟩)
    have hwhole : measured text = line text := measured_of_line_eq_name hline
    exact ⟨hwhole.symm, first, List.mem_of_find?_eq_some hfirst, hwhole.trans hline⟩
  · intro hfull
    have honly : ∀ s, (write true text).setState = some s → line text = name s := by
      intro s hset
      obtain ⟨hmeasured, hfind⟩ := setState_eq_some_iff.mp hset
      have hs : s ∈ compared := List.mem_of_find?_eq_some hfind
      have hbegin : measured text <+: name s := by
        simpa using List.find?_some hfind
      obtain ⟨hline, s', hs', hname⟩ := hfull hmeasured ⟨s, hs, hbegin⟩
      -- The text is the name of `s'`, and the first name it begins is no longer one.
      calc line text = name s' := hline.trans hname
        _ = name s := name_eq_of_isPrefix s hs s' hs' (hname ▸ hbegin)
    refine ⟨honly, fun hnone => write_of_setState_none ?_⟩
    cases hset : (write true text).setState with
    | none => rfl
    | some s => exact absurd (honly s hset) (hnone s)

/-- **A text sets a state only by its full name, and is refused otherwise, exactly if its measured
part is not the mere beginning of a name and no byte 0 hides the rest of the line.** A device
without its driver data refuses every text. -/
theorem stateStore_exact_iff (cdev : Bool) (text : Str) :
    Exact cdev text ↔ (cdev = true → Unabridged text) := by
  cases cdev with
  | true => simpa using exact_iff_unabridged text
  | false =>
    have hrefused : write false text = ⟨-eInval, none⟩ := by simp [write, stateStore]
    have hexact : Exact false text := ⟨by simp [hrefused], fun _ => hrefused⟩
    simpa using hexact

/-- The letter `b` alone sets the state whose name is `bios_down`. -/
theorem beginning_accepted :
    write true (ascii "b\n") = ⟨2, some .biosDown⟩ ∧ ¬ Exact true (ascii "b\n") := by
  have hset : write true (ascii "b\n") = ⟨2, some .biosDown⟩ := by decide +kernel
  refine ⟨hset, fun h => ?_⟩
  have hline := h.only .biosDown (by rw [hset])
  exact absurd hline (by decide +kernel)

end Vcass.Csa
