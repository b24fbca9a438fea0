import Mathlib.Data.List.Perm.Basic
import Vcass.Vop.DevicePage

/-!
# Integrity of the Device Page

A free entry of the device page is found by its type alone.  Its old size, which leads a reader to the
next entry, is overwritten by the size of the new descriptor.  So a larger descriptor runs into the
next entry, a smaller one leads a reader into old bytes, and an addition that fails leaves a type of 0
in the middle of the list.

- `integrity_of_fits`: the page stays intact in every run in which each added device has a type other
  than 0 and -1 and either takes the entry of a removed device of the same size and is set up to the
  end, or gets an entry behind all live devices whose end the walk can see.
- `neighbour_overwritten`: a run in which a larger device takes a smaller entry.

The proof describes the page by the list of records that a scan meets (`PageInv`).  Each operation
changes bytes of one entry only (`Bytes.Within`), and the list follows from the rules for records.
-/

namespace Vcass.Vop

open Vcass.Core List Bytes DeviceCtrl CardDev VcaDeviceDesc DescSizes

/-! ## The condition -/

/-- The kernel gives everything that is asked for, and the first queue has a length. -/
def Complete (argp : VcaDeviceDesc) (env : SetupEnv) : Prop :=
  0 < argp.numVq.toNat ∧ argp.vqNum 0 ≠ 0 ∧
    (∀ i < argp.numVq.toNat, (env.vring i).isOk) ∧ env.kvecBuf.isOk ∧
    env.confDb.isOk ∧ env.availDb.isOk ∧ env.usedDb.isOk

/-- The entry `i` belonged to a removed device of the same size, and the addition will not fail. -/
def InPlace (s : PageState) (argp : VcaDeviceDesc) (env : SetupEnv) (i : Nat) : Prop :=
  s.page i = typeRemoved ∧ (sizesAt s.page i).vcaTotalDescSize = argp.vcaTotalDescSize ∧
    Complete argp env

/-- All live devices stand before the entry `i`, and where the new entry ends the page ends or holds
a 0. -/
def AtEnd (s : PageState) (argp : VcaDeviceDesc) (i : Nat) : Prop :=
  (∀ d ∈ s.devs, d.dd < i) ∧
    (vcaDpSize ≤ i + argp.vcaTotalDescSize ∨ s.page (i + argp.vcaTotalDescSize) = typeNone)

/-- The condition on an action: an added device has a proper type and fits into the entry that it
will get. -/
def Fits (s : PageState) : PageAct → Prop
  | .add argp env => ∀ i ∈ freeEntry s.page argp.toDescSizes,
      (argp.type ≠ typeNone ∧ argp.type ≠ typeRemoved) ∧ (InPlace s argp env i ∨ AtEnd s argp i)
  | .remove _ => True

instance (argp : VcaDeviceDesc) (env : SetupEnv) : Decidable (Complete argp env) :=
  inferInstanceAs (Decidable (_ ∧ _ ∧ (∀ i < argp.numVq.toNat, _) ∧ _))

instance (s : PageState) (argp : VcaDeviceDesc) (env : SetupEnv) (i : Nat) :
    Decidable (InPlace s argp env i) :=
  inferInstanceAs (Decidable (_ ∧ _ ∧ _))

instance (s : PageState) (argp : VcaDeviceDesc) (i : Nat) : Decidable (AtEnd s argp i) :=
  inferInstanceAs (Decidable ((∀ d ∈ s.devs, _) ∧ _))

instance (s : PageState) : ∀ a, Decidable (Fits s a)
  | .add argp _ => inferInstanceAs (Decidable (∀ i ∈ freeEntry s.page argp.toDescSizes, _))
  | .remove _ => inferInstanceAs (Decidable True)

/-! ## Sizes and records -/

namespace DescSizes

variable (d : DescSizes)

/-- The distance from a descriptor to that of the host -/
def hostOffset : Nat :=
  d.vcaAlignedDescSize + sizeofDeviceCtrl

theorem le_vcaDescSize : 8 + 16 * d.numVq.toNat ≤ d.vcaDescSize := by
  unfold vcaDescSize sizeofDeviceDesc sizeofVqconfig
  omega

theorem vcaDescSize_le : d.vcaDescSize ≤ d.vcaAlignedDescSize := by
  unfold vcaAlignedDescSize
  omega

theorem hostOffset_eq : d.hostOffset = d.vcaAlignedDescSize + 40 := rfl

theorem vcaTotalDescSize_eq : d.vcaTotalDescSize = 2 * d.hostOffset := rfl

theorem lt_vcaTotalDescSize : 8 < d.vcaTotalDescSize := by
  have := d.vcaTotalDescSize_eq
  have := d.hostOffset_eq
  omega

end DescSizes

section

variable {m m' : Bytes} {i j lo hi : Nat} {l : List Nat}

theorem sizesAt_congr (h : ∀ b < 4, m' (i + b) = m (i + b)) : sizesAt m' i = sizesAt m i := by
  simp only [sizesAt, h 1 (by omega), h 2 (by omega), h 3 (by omega)]

theorem pageRecords_agree (h : ∀ b < 4, m' (i + b) = m (i + b)) :
    (pageRecords m).Agree (pageRecords m') i := by
  have h0 : m' i = m i := h 0 (by omega)
  constructor
  · simp only [pageRecords, h0]
  · simp only [pageRecords, sizesAt_congr h]

theorem agree_before (h : Bytes.Within lo hi m m') (hi' : i + (pageRecords m).size i ≤ lo) :
    (pageRecords m).Agree (pageRecords m') i := by
  have hsize : 8 < (pageRecords m).size i := lt_vcaTotalDescSize _
  exact pageRecords_agree fun b hb => h _ (.inl (by omega))

theorem agree_behind (h : Bytes.Within lo hi m m') (hi' : hi ≤ i) :
    (pageRecords m).Agree (pageRecords m') i :=
  pageRecords_agree fun b _ => h _ (.inr (by omega))

theorem lives_of_within (hl : (pageRecords m).Lives i l j) (h : Bytes.Within j hi m m') :
    (pageRecords m').Lives i l j :=
  hl.congr rfl fun _ hk => agree_before h hk

theorem walk_of_within (hw : (pageRecords m).Walk i l) (h : Bytes.Within lo i m m') :
    (pageRecords m').Walk i l :=
  hw.congr rfl fun _ hk => agree_behind h hk

theorem kind_stop (h : m i = typeNone) : (pageRecords m).kind i = .stop := if_pos h

theorem kind_skip (h : m i = typeRemoved) : (pageRecords m).kind i = .skip := by
  simp only [pageRecords, h]
  rfl

theorem kind_live (h0 : m i ≠ typeNone) (h1 : m i ≠ typeRemoved) :
    (pageRecords m).kind i = .live := by
  simp only [pageRecords, if_neg h0, if_neg h1]

theorem vopScanDevices_walk (m : Bytes) : (pageRecords m).Walk sizeofBootparam (vopScanDevices m) :=
  Records.walk_spec (fun _ => Nat.zero_lt_of_lt (lt_vcaTotalDescSize _)) vcaDpSize
    sizeofBootparam (Nat.le_add_left _ _)

theorem findFreeEntry_spec {bound fuel : Nat} (hbound : bound ≤ vcaDpSize)
    (h : findFreeEntry m bound fuel i = some j) :
    j < bound ∧ (m j = typeNone ∨ m j = typeRemoved) ∧ ∃ pre, (pageRecords m).Lives i pre j := by
  induction fuel generalizing i with
  | zero => cases h
  | succ fuel ih =>
    rw [findFreeEntry] at h
    split at h
    case isFalse => cases h
    case isTrue hlt =>
      split at h
      case isTrue hfree =>
        cases h
        exact ⟨hlt, hfree, [], .nil⟩
      case isFalse hlive =>
        -- the entry that is passed over is live, as the scan of the card sees it
        obtain ⟨hj, hfree, pre, hpre⟩ := ih h
        obtain ⟨h0, h1⟩ := not_or.mp hlive
        exact ⟨hj, hfree, i :: pre, .cons (lt_of_lt_of_le hlt hbound) (kind_live h0 h1) hpre⟩

/-- The entry for a new device is free, the device fits into the page, and all entries before it are
live. -/
theorem freeEntry_spec {argp : DescSizes} (h : freeEntry m argp = some j) :
    j + argp.vcaTotalDescSize ≤ vcaDpSize ∧ (m j = typeNone ∨ m j = typeRemoved) ∧
      ∃ pre, (pageRecords m).Lives sizeofBootparam pre j := by
  obtain ⟨hj, hrest⟩ := findFreeEntry_spec (Nat.sub_le _ _) h
  exact ⟨by omega, hrest⟩

end

/-! ## The writes of an addition -/

section

variable {m m' m'' : Bytes} {dd : Nat} {sz : DescSizes} {env : SetupEnv}

/-- Both descriptors of the entry show the lengths `sz`. -/
structure Laid (m : Bytes) (dd : Nat) (sz : DescSizes) : Prop where
  card : sizesAt m dd = sz
  host : sizesAt m (dd + sz.hostOffset) = sz

/-- `m'` differs from `m` at most in the entry `dd` of lengths `sz`, and not in the first eight bytes
of its two descriptors. -/
def InEntry (dd : Nat) (sz : DescSizes) (m m' : Bytes) : Prop :=
  ∀ k, k < dd + 8 ∨ (dd + sz.hostOffset ≤ k ∧ k < dd + sz.hostOffset + 8) ∨
    dd + sz.vcaTotalDescSize ≤ k → m' k = m k

theorem InEntry.refl : InEntry dd sz m m := fun _ _ => rfl

theorem InEntry.trans (h : InEntry dd sz m m') (h' : InEntry dd sz m' m'') : InEntry dd sz m m'' :=
  fun k hk => (h' k hk).trans (h k hk)

theorem InEntry.within (h : InEntry dd sz m m') : Bytes.Within dd (dd + sz.vcaTotalDescSize) m m' :=
  fun k hk => h k (by omega)

theorem InEntry.laid (h : InEntry dd sz m m') (hl : Laid m dd sz) : Laid m' dd sz := by
  constructor
  · rw [sizesAt_congr fun b _ => h (dd + b) (by omega)]
    exact hl.card
  · rw [sizesAt_congr fun b _ => h (dd + sz.hostOffset + b) (by omega)]
    exact hl.host

theorem inEntry_write {off : Nat} {bs : List UInt8}
    (h : dd + 8 ≤ off ∧ off + bs.length ≤ dd + sz.hostOffset ∨
      dd + sz.hostOffset + 8 ≤ off ∧ off + bs.length ≤ dd + sz.vcaTotalDescSize) :
    InEntry dd sz m (m.write off bs) := by
  intro k hk
  have := sz.hostOffset_eq
  have := sz.vcaTotalDescSize_eq
  exact write_of_outside (by omega)

theorem inEntry_storeResult {α : Type} {off width : Nat} {r : Except Int α} {bytes : α → List UInt8}
    (hwidth : ∀ x, (bytes x).length = width)
    (h : dd + 8 ≤ off ∧ off + width ≤ dd + sz.hostOffset ∨
      dd + sz.hostOffset + 8 ≤ off ∧ off + width ≤ dd + sz.vcaTotalDescSize) :
    InEntry dd sz m (storeResult m off r bytes).1 := by
  cases r with
  | error e => exact .refl
  | ok x =>
    refine inEntry_write ?_
    rw [hwidth]
    exact h

variable {f : Bytes → Bytes × Except Int Unit} {r : Bytes × Except Int Unit}

theorem inEntry_andThen
    (hr : InEntry dd sz m r.1) (hf : ∀ m₁, InEntry dd sz m m₁ → InEntry dd sz m₁ (f m₁).1) :
    InEntry dd sz m (andThen r f).1 := by
  obtain ⟨m₁, e | _⟩ := r
  · exact hr
  · exact hr.trans (hf m₁ hr)

theorem inEntry_cardCtrl {α : Type} {off width : Nat} {r : Except Int α} {bytes : α → List UInt8}
    (hwidth : ∀ x, (bytes x).length = width) (h : off + width ≤ 40) :
    InEntry dd sz m (storeResult m (dd + sz.vcaAlignedDescSize + off) r bytes).1 := by
  have := sz.vcaDescSize_le
  have := sz.le_vcaDescSize
  have := sz.hostOffset_eq
  exact inEntry_storeResult hwidth (.inl (by omega))

theorem inEntry_allocateVrings {n i : Nat} (h : i + n ≤ sz.numVq.toNat) :
    InEntry dd sz m (allocateVrings env (dd + sz.hostOffset) n i m).1 := by
  induction n generalizing i m with
  | zero => exact .refl
  | succ n ih =>
    rw [allocateVrings]
    refine inEntry_andThen (inEntry_storeResult (length_littleEndian 8) (.inr ?_))
      fun m₁ _ => ih (by omega)
    have := sz.vcaDescSize_le
    have := sz.le_vcaDescSize
    have := sz.hostOffset_eq
    have := sz.vcaTotalDescSize_eq
    unfold vcaVqConfig sizeofDeviceDesc sizeofVqconfig
    omega

theorem Laid.vcaHostDeviceDesc_eq (hl : Laid m dd sz) :
    vcaHostDeviceDesc m dd = dd + sz.hostOffset := by
  rw [vcaHostDeviceDesc, hl.card, hostOffset]

theorem inEntry_hostCtrl :
    InEntry dd sz m (vopInitDeviceCtrl m (dd + sz.hostOffset + sz.vcaAlignedDescSize)) := by
  have := sz.vcaDescSize_le
  have := sz.le_vcaDescSize
  have := sz.hostOffset_eq
  have := sz.vcaTotalDescSize_eq
  refine inEntry_write (.inr ?_)
  simp only [configChange, length_cons, length_nil]
  omega

theorem Laid.vopAllocateHostVrings_eq (hl : Laid m dd sz) :
    vopAllocateHostVrings env dd m =
      allocateVrings env (dd + sz.hostOffset) sz.numVq.toNat 0
        (vopInitDeviceCtrl m (dd + sz.hostOffset + sz.vcaAlignedDescSize)) := by
  have hnum : (vopInitDeviceCtrl m (dd + sz.hostOffset + sz.vcaAlignedDescSize))
      (dd + sz.hostOffset + 1) = sz.numVq := by
    rw [inEntry_hostCtrl _ (by omega)]
    exact congrArg numVq hl.host
  unfold vopAllocateHostVrings
  simp only [hl.vcaHostDeviceDesc_eq, hl.host, hnum]

theorem inEntry_vopAllocateHostVrings (hl : Laid m dd sz) :
    InEntry dd sz m (vopAllocateHostVrings env dd m).1 := by
  rw [hl.vopAllocateHostVrings_eq]
  exact inEntry_hostCtrl.trans (inEntry_allocateVrings (by omega))

theorem inEntry_vopCommonDevInit :
    InEntry dd sz m (vopCommonDevInit env dd (dd + sz.vcaAlignedDescSize) m).1 := by
  have := sz.vcaDescSize_le
  have := sz.le_vcaDescSize
  have := sz.hostOffset_eq
  refine inEntry_andThen (inEntry_cardCtrl (length_littleEndian 8) (by decide)) fun m₁ _ => ?_
  refine inEntry_write (.inl ?_)
  simp only [kvecBufElems, length_littleEndian]
  omega

theorem inEntry_vopSetupIrqs :
    InEntry dd sz m (vopSetupIrqs env (dd + sz.vcaAlignedDescSize) m).1 := by
  refine inEntry_andThen (inEntry_cardCtrl (fun _ => rfl) (by decide)) fun m₁ _ => ?_
  refine inEntry_andThen (inEntry_cardCtrl (fun _ => rfl) (by decide)) fun m₂ _ => ?_
  exact inEntry_cardCtrl (fun _ => rfl) (by decide)

theorem inEntry_vopInitDeviceCtrl :
    InEntry dd sz m (vopInitDeviceCtrl m (dd + sz.vcaAlignedDescSize)) := by
  have := sz.vcaDescSize_le
  have := sz.le_vcaDescSize
  have := sz.hostOffset_eq
  refine inEntry_write (.inl ?_)
  simp only [configChange, length_cons, length_nil]
  omega

theorem inEntry_initEntry (hl : Laid m dd sz) : InEntry dd sz m (initEntry env dd m).1 := by
  have hctrl : InEntry dd sz m (vopInitDeviceCtrl m (dd + sz.vcaAlignedDescSize)) :=
    inEntry_vopInitDeviceCtrl
  unfold initEntry
  simp only [hl.card]
  split
  case isTrue => exact hctrl
  case isFalse =>
    refine hctrl.trans ?_
    refine inEntry_andThen (inEntry_vopAllocateHostVrings (hctrl.laid hl)) fun m₁ _ => ?_
    exact inEntry_andThen inEntry_vopCommonDevInit fun m₂ _ => inEntry_vopSetupIrqs

theorem sizesAt_write_type {b : UInt8} : sizesAt (m.write dd [b]) dd = sizesAt m dd := by
  have hkept : ∀ k, dd < k → m.write dd [b] k = m k := fun k hk => write_of_outside (.inr hk)
  simp only [sizesAt, hkept (dd + 1) (by omega), hkept (dd + 2) (by omega),
    hkept (dd + 3) (by omega)]

/-- An addition that got its entry: `type` is the type of the card's descriptor afterwards. -/
structure Placed (m : Bytes) (argp : DescSizes) (m' : Bytes) (dd : Nat) (type : UInt8) : Prop where
  entry : freeEntry m argp = some dd
  within : Bytes.Within dd (dd + argp.vcaTotalDescSize) m m'
  type_eq : m' dd = type
  sizes_eq : sizesAt m' dd = argp

theorem VcaDeviceDesc.length_bytes (d : VcaDeviceDesc) : d.bytes.length = d.vcaDescSize := by
  rw [← d.tail_length]
  simp only [bytes, length_cons]
  omega

/-- What `vop_copy_dp_entry` leaves in the page: the descriptor with type 0, and behind the control
block a second one with its type -/
structure Copied (m : Bytes) (argp : VcaDeviceDesc) (m' : Bytes) (dd : Nat) : Prop where
  entry : freeEntry m argp.toDescSizes = some dd
  within : Bytes.Within dd (dd + argp.vcaTotalDescSize) m m'
  type_eq : m' dd = typeNone
  card : ∀ k, 0 < k → k < argp.vcaDescSize → m' (dd + k) = argp.bytes.getD k 0
  host : ∀ k, 0 < k → k < argp.vcaDescSize → m' (dd + argp.hostOffset + k) = argp.bytes.getD k 0

theorem VcaDeviceDesc.bytes_type (d : VcaDeviceDesc) (type : UInt8) {k : Nat} (hk : 0 < k) :
    { d with type := type }.bytes.getD k 0 = d.bytes.getD k 0 := by
  obtain ⟨k, rfl⟩ := Nat.exists_eq_succ_of_ne_zero (ne_of_gt hk)
  rfl

variable {argp : VcaDeviceDesc}

theorem sizesAt_of_bytes
    (h : ∀ k, 0 < k → k < argp.vcaDescSize → m (dd + k) = argp.bytes.getD k 0) :
    sizesAt m dd = argp.toDescSizes := by
  have := argp.le_vcaDescSize
  simp only [sizesAt, h 1 (by omega) (by omega), h 2 (by omega) (by omega),
    h 3 (by omega) (by omega)]
  rfl

theorem copied_of_writes (hentry : freeEntry m argp.toDescSizes = some dd) :
    let bs := { argp with type := typeNone }.bytes
    Copied m argp (((m.write dd bs).write (dd + argp.hostOffset) bs).write (dd + argp.hostOffset)
      [argp.type]) dd := by
  intro bs
  have hlen : bs.length = argp.vcaDescSize := length_bytes _
  have hbytes : ∀ k, 0 < k → bs.getD k 0 = argp.bytes.getD k 0 :=
    fun k hk => argp.bytes_type typeNone hk
  have := argp.vcaDescSize_le
  have := argp.le_vcaDescSize
  have := argp.hostOffset_eq
  have := argp.vcaTotalDescSize_eq
  -- neither write of the host descriptor reaches back into that of the card
  have hcard : ∀ k < argp.vcaDescSize, ((m.write dd bs).write (dd + argp.hostOffset) bs).write
      (dd + argp.hostOffset) [argp.type] (dd + k) = bs.getD k 0 := by
    intro k hk
    rw [write_of_outside (.inl (by omega)), write_of_outside (.inl (by omega)),
      write_of_inside (by omega)]
  constructor
  case entry => exact hentry
  case within =>
    refine ((within_write (le_refl dd) (by omega)).trans
      (within_write (by omega) (by omega))).trans (within_write (by omega) ?_)
    simp only [length_singleton]
    omega
  case type_eq => exact hcard 0 (by omega)
  case card =>
    intro k hk hlt
    rw [hcard k hlt, hbytes k hk]
  case host =>
    intro k hk hlt
    rw [write_of_outside (.inr (by simp only [length_singleton]; omega)),
      write_of_inside (by omega), hbytes k hk]

theorem vopCopyDpEntry_spec (h : vopCopyDpEntry m argp = .ok (m', dd)) : Copied m argp m' dd := by
  unfold vopCopyDpEntry at h
  split at h
  case isTrue => cases h
  case isFalse =>
    split at h
    case h_1 => cases h
    case h_2 devp hentry =>
      have hlen : { argp with type := typeNone }.bytes.length = argp.vcaDescSize :=
        length_bytes _
      have := argp.vcaDescSize_le
      have := argp.le_vcaDescSize
      have := argp.hostOffset_eq
      generalize hbs : { argp with type := typeNone }.bytes = bs at h hlen
      -- the card's copy shows where the host's copy goes, before and after that is made
      have hbytes : ∀ k, 0 < k → bs.getD k 0 = argp.bytes.getD k 0 := by
        intro k hk
        rw [← hbs, argp.bytes_type typeNone hk]
      have hfirst : vcaHostDeviceDesc (m.write devp bs) devp = devp + argp.hostOffset := by
        have hsizes : sizesAt (m.write devp bs) devp = argp.toDescSizes := by
          refine sizesAt_of_bytes fun k hk hlt => ?_
          rw [write_of_inside (by omega), hbytes k hk]
        rw [vcaHostDeviceDesc, hsizes, hostOffset]
      have hsecond : vcaHostDeviceDesc ((m.write devp bs).write (devp + argp.hostOffset) bs) devp =
          devp + argp.hostOffset := by
        rw [← hfirst, vcaHostDeviceDesc, sizesAt_congr fun b _ => ?_, vcaHostDeviceDesc]
        exact write_of_outside (.inl (by omega))
      simp only [hfirst, hsecond] at h
      cases h
      subst hbs
      exact copied_of_writes hentry

theorem Copied.laid (h : Copied m argp m' dd) : Laid m' dd argp.toDescSizes :=
  ⟨sizesAt_of_bytes h.card, sizesAt_of_bytes h.host⟩

/-! ### An addition that does not fail -/

theorem storeResult_ok {α : Type} {off : Nat} {r : Except Int α} {bytes : α → List UInt8}
    (h : r.isOk) : (storeResult m off r bytes).2 = .ok () := by
  cases r with
  | error e => cases h
  | ok x => rfl

theorem andThen_ok
    (hr : r.2 = .ok ()) (hf : ∀ m₁, (f m₁).2 = .ok ()) : (andThen r f).2 = .ok () := by
  obtain ⟨m₁, e | _⟩ := r
  · cases hr
  · exact hf m₁

theorem allocateVrings_ok {hostDd n i : Nat} (h : ∀ k < i + n, (env.vring k).isOk) :
    (allocateVrings env hostDd n i m).2 = .ok () := by
  induction n generalizing i m with
  | zero => rfl
  | succ n ih =>
    rw [allocateVrings]
    exact andThen_ok (storeResult_ok (h i (by omega))) fun m₁ => ih fun k hk => h k (by omega)

theorem le16_of_bytes (hvq : 0 < argp.numVq.toNat)
    (h : ∀ k, 0 < k → k < argp.vcaDescSize → m (dd + k) = argp.bytes.getD k 0) :
    m.le16 (vcaVqConfig dd + 8) = argp.vqNum 0 := by
  have := argp.le_vcaDescSize
  have h16 : m (dd + 8 + 8) = argp.bytes.getD 16 0 := h 16 (by omega) (by omega)
  have h17 : m (dd + 8 + 8 + 1) = argp.bytes.getD 17 0 := h 17 (by omega) (by omega)
  simp only [le16, vcaVqConfig, sizeofDeviceDesc, h16, h17]
  rfl

theorem initEntry_ok (h : Copied m argp m' dd) (hc : Complete argp env) :
    (initEntry env dd m').2 = .ok () := by
  obtain ⟨hvq, hnum, hvring, hkvec, hconf, havail, hused⟩ := hc
  have hl := h.laid
  have hctrl : InEntry dd argp.toDescSizes m'
      (vopInitDeviceCtrl m' (dd + argp.vcaAlignedDescSize)) := inEntry_vopInitDeviceCtrl
  have hl₁ := hctrl.laid hl
  have := argp.vcaDescSize_le
  have := argp.le_vcaDescSize
  have := argp.hostOffset_eq
  -- the control block is behind the descriptor that is read again
  have hkept : ∀ k, k < dd + argp.vcaAlignedDescSize ∨ dd + argp.hostOffset ≤ k →
      vopInitDeviceCtrl m' (dd + argp.vcaAlignedDescSize) k = m' k := by
    intro k hk
    refine write_of_outside ?_
    simp only [configChange, length_cons, length_nil]
    omega
  have hcard : (vopInitDeviceCtrl m' (dd + argp.vcaAlignedDescSize)).le16 (vcaVqConfig dd + 8) ≠ 0 := by
    rw [le16_of_bytes hvq fun k hk hlt => ?_]
    · exact hnum
    · rw [hkept _ (.inl (by omega)), h.card k hk hlt]
  have hhost : (vopInitDeviceCtrl m' (dd + argp.vcaAlignedDescSize)).le16
      (vcaVqConfig (dd + argp.hostOffset) + 8) ≠ 0 := by
    rw [le16_of_bytes hvq fun k hk hlt => ?_]
    · exact hnum
    · rw [hkept _ (.inr (by omega)), h.host k hk hlt]
  unfold initEntry
  simp only [hl.card, hl₁.vcaHostDeviceDesc_eq]
  rw [if_neg (not_or.mpr ⟨hcard, hhost⟩)]
  refine andThen_ok ?_ fun m₁ => andThen_ok ?_ fun m₂ => ?_
  · rw [hl₁.vopAllocateHostVrings_eq]
    exact allocateVrings_ok fun k hk => hvring k (by omega)
  · exact andThen_ok (storeResult_ok hkvec) fun _ => rfl
  · exact andThen_ok (storeResult_ok hconf) fun _ =>
      andThen_ok (storeResult_ok havail) fun _ => storeResult_ok hused

/-! ### What an addition can do -/

/-- **Inversion of an addition**: nothing happens, or the device gets its entry and is live there, or
its set-up fails and the entry is left with type 0. -/
theorem vopSetupVirtioDevice_cases (m : Bytes) (argp : VcaDeviceDesc) (env : SetupEnv) :
    (∃ e, vopSetupVirtioDevice m argp env = (m, .error e)) ∨
    ∃ m' dd,
      (vopSetupVirtioDevice m argp env =
          (m', .ok ⟨dd, dd + argp.vcaAlignedDescSize, argp.toDescSizes⟩) ∧
        Placed m argp.toDescSizes m' dd argp.type) ∨
      (∃ e, vopSetupVirtioDevice m argp env = (m', .error e) ∧
        Placed m argp.toDescSizes m' dd typeNone ∧ ¬ Complete argp env) := by
  unfold vopSetupVirtioDevice
  split
  case h_1 e _ => exact .inl ⟨e, rfl⟩
  case h_2 m₁ dd hcopy =>
    have hcopied := vopCopyDpEntry_spec hcopy
    have hl := hcopied.laid
    have hin : InEntry dd argp.toDescSizes m₁ (initEntry env dd m₁).1 := inEntry_initEntry hl
    have hwithin := hcopied.within.trans hin.within
    right
    split
    case h_1 m₂ e hinit =>
      rw [hinit] at hin hwithin
      -- the entry stays in the page with its type 0, though the setup has failed
      refine ⟨m₂, dd, .inr ⟨e, rfl, ⟨hcopied.entry, hwithin, ?_, (hin.laid hl).card⟩, ?_⟩⟩
      · exact (hin dd (.inl (by omega))).trans hcopied.type_eq
      · intro hc
        have hok : (initEntry env dd m₁).2 = .ok () := initEntry_ok hcopied hc
        rw [hinit] at hok
        cases hok
    case h_2 m₂ hinit =>
      rw [hinit] at hin hwithin
      have := argp.lt_vcaTotalDescSize
      refine ⟨m₂.write dd [argp.type], dd, .inl ⟨by rw [hl.card], hcopied.entry, ?_, ?_, ?_⟩⟩
      · exact hwithin.trans
          (within_write (le_refl dd) (by simp only [length_singleton]; omega))
      · exact write_singleton_self
      · rw [sizesAt_write_type, (hin.laid hl).card]

theorem pageStep_add {s s' : PageState} (h : pageStep s (.add argp env) = some s') :
    s' = s ∨ ∃ dd,
      (Placed s.page argp.toDescSizes s'.page dd argp.type ∧
        s'.devs = s.devs ++ [⟨dd, dd + argp.vcaAlignedDescSize, argp.toDescSizes⟩]) ∨
      (Placed s.page argp.toDescSizes s'.page dd typeNone ∧ s'.devs = s.devs ∧
        ¬ Complete argp env) := by
  simp only [pageStep] at h
  split at h
  case isFalse => exact .inl (Option.some.inj h).symm
  case isTrue =>
    rcases vopSetupVirtioDevice_cases s.page argp env with
      ⟨e, heq⟩ | ⟨m', dd, ⟨heq, hp⟩ | ⟨e, heq, hp, hfail⟩⟩
    all_goals
      rw [heq] at h
      cases h
    · exact .inl rfl
    · exact .inr ⟨dd, .inl ⟨hp, rfl⟩⟩
    · exact .inr ⟨dd, .inr ⟨hp, rfl, hfail⟩⟩

end

/-! ## The invariant -/

/-- A scan meets the live devices, and their entries show the lengths that they were added with. -/
structure PageInv (s : PageState) : Prop where
  scanned : ∃ l, (pageRecords s.page).Walk sizeofBootparam l ∧ l.Perm (s.devs.map CardDev.dd)
  sizes : ∀ d ∈ s.devs, sizesAt s.page d.dd = d.sizes
  ctrl : ∀ d ∈ s.devs, d.dc = d.dd + d.sizes.vcaAlignedDescSize
  inside : ∀ d ∈ s.devs, d.dd + d.total ≤ vcaDpSize

/-- Two entries do not overlap. -/
def Apart (d e : CardDev) : Prop :=
  d.dd + d.total ≤ e.dd ∨ e.dd + e.total ≤ d.dd

namespace PageInv

variable {s s' : PageState} {argp : VcaDeviceDesc} {env : SetupEnv} {dd : Nat} {type : UInt8}
  (h : PageInv s)

include h

variable {d : CardDev}

theorem size_eq (hd : d ∈ s.devs) : (pageRecords s.page).size d.dd = d.total := by
  simp only [pageRecords, h.sizes d hd, total]

theorem disjoint : s.devs.Pairwise Apart := by
  obtain ⟨l, hwalk, hperm⟩ := h.scanned
  have hrecords : l.Pairwise fun a b => a + (pageRecords s.page).size a ≤ b ∨
      b + (pageRecords s.page).size b ≤ a := hwalk.pairwise.imp fun hle => .inl hle
  have hdevs := pairwise_map.mp ((hperm.pairwise_iff fun hab => hab.symm).mp hrecords)
  refine hdevs.imp_of_mem fun {d e} hd he hde => ?_
  rw [h.size_eq hd, h.size_eq he] at hde
  exact hde

theorem intact : s.Intact where
  disjoint := h.disjoint
  inside d hd := by
    obtain ⟨l, hwalk, hperm⟩ := h.scanned
    exact ⟨hwalk.le_of_mem (hperm.mem_iff.mpr (mem_map_of_mem hd)), h.inside d hd⟩
  scanned := by
    obtain ⟨l, hwalk, hperm⟩ := h.scanned
    rw [(vopScanDevices_walk s.page).unique hwalk]
    exact hperm

theorem sizes_kept {m' : Bytes} {lo hi : Nat} (hw : Bytes.Within lo hi s.page m') (hd : d ∈ s.devs)
    (hapart : d.dd + d.total ≤ lo ∨ hi ≤ d.dd) :
    sizesAt m' d.dd = d.sizes := by
  have hsize : 8 < d.total := d.sizes.lt_vcaTotalDescSize
  rw [sizesAt_congr fun b _ => hw (d.dd + b) (by omega), h.sizes d hd]

/-! ### Additions -/

/-- The list of records around the entry that a new device gets: live ones before it, and what a scan
meets from it on -/
theorem around (hentry : freeEntry s.page argp.toDescSizes = some dd) :
    ∃ pre rest, (pageRecords s.page).Lives sizeofBootparam pre dd ∧
      (pageRecords s.page).Walk dd rest ∧ (pre ++ rest).Perm (s.devs.map CardDev.dd) := by
  obtain ⟨l, hwalk, hperm⟩ := h.scanned
  obtain ⟨-, -, pre, hpre⟩ := freeEntry_spec hentry
  obtain ⟨rest, rfl, hrest⟩ := hpre.split hwalk
  exact ⟨pre, rest, hpre, hrest, hperm⟩

omit h in
theorem rest_eq_nil {pre rest : List Nat} (hrest : (pageRecords s.page).Walk dd rest)
    (hperm : (pre ++ rest).Perm (s.devs.map CardDev.dd)) (hend : AtEnd s argp dd) : rest = [] := by
  refine eq_nil_iff_forall_not_mem.mpr fun x hx => ?_
  have hmem : x ∈ s.devs.map CardDev.dd := hperm.mem_iff.mp (mem_append_right _ hx)
  obtain ⟨d, hd, rfl⟩ := mem_map.mp hmem
  have hbefore := hend.1 d hd
  have hbehind := hrest.le_of_mem hx
  omega

omit h in
theorem walk_behind {rest : List Nat} (hentry : freeEntry s.page argp.toDescSizes = some dd)
    (hplace : InPlace s argp env dd) (hrest : (pageRecords s.page).Walk dd rest) :
    (pageRecords s.page).Walk (dd + argp.vcaTotalDescSize) rest := by
  have hkind : (pageRecords s.page).kind dd = .skip := kind_skip hplace.1
  have hsize : (pageRecords s.page).size dd = argp.vcaTotalDescSize := hplace.2.1
  cases hrest with
  | off hoff =>
    obtain ⟨hfits, -⟩ := freeEntry_spec hentry
    have := argp.lt_vcaTotalDescSize
    have : vcaDpSize ≤ dd := hoff
    omega
  | stop _ hkind' | live _ hkind' _ => rw [hkind] at hkind'; cases hkind'
  | skip _ _ hrest => rw [← hsize]; exact hrest

theorem entry_apart (hentry : freeEntry s.page argp.toDescSizes = some dd)
    (hfit : InPlace s argp env dd ∨ AtEnd s argp dd) (hd : d ∈ s.devs) :
    d.dd + d.total ≤ dd ∨ dd + argp.vcaTotalDescSize ≤ d.dd := by
  obtain ⟨pre, rest, hpre, hrest, hperm⟩ := h.around hentry
  have hmem : d.dd ∈ pre ++ rest := hperm.mem_iff.mpr (mem_map_of_mem hd)
  rcases mem_append.mp hmem with hbefore | hbehind
  · left
    rw [← h.size_eq hd]
    exact hpre.end_le_of_mem hbefore
  · right
    rcases hfit with hplace | hend
    · exact (walk_behind hentry hplace hrest).le_of_mem hbehind
    · rw [rest_eq_nil hrest hperm hend] at hbehind
      cases hbehind

omit h in
theorem walk_placed {pre rest : List Nat}
    (hp : Placed s.page argp.toDescSizes s'.page dd argp.type)
    (htype : argp.type ≠ typeNone ∧ argp.type ≠ typeRemoved)
    (hfit : InPlace s argp env dd ∨ AtEnd s argp dd)
    (hrest : (pageRecords s.page).Walk dd rest)
    (hperm : (pre ++ rest).Perm (s.devs.map CardDev.dd)) :
    (pageRecords s'.page).Walk dd (dd :: rest) := by
  have hlive : (pageRecords s'.page).kind dd = .live :=
    kind_live (by rw [hp.type_eq]; exact htype.1) (by rw [hp.type_eq]; exact htype.2)
  have hsize : (pageRecords s'.page).size dd = argp.vcaTotalDescSize := by
    simp only [pageRecords, hp.sizes_eq]
  have hin : dd < vcaDpSize := by
    obtain ⟨hfits, -⟩ := freeEntry_spec hp.entry
    have := argp.lt_vcaTotalDescSize
    omega
  refine .live hin hlive ?_
  rw [hsize]
  rcases hfit with hplace | hend
  · exact walk_of_within (walk_behind hp.entry hplace hrest) hp.within
  · rw [rest_eq_nil hrest hperm hend]
    -- the next entry is off the page or a 0 that the addition does not touch
    rcases lt_or_ge (dd + argp.vcaTotalDescSize) vcaDpSize with hlt | hoff
    · have hzero := hend.2.resolve_left (not_le.mpr hlt)
      refine .stop hlt (kind_stop ?_)
      rw [hp.within _ (.inr (le_refl _)), hzero]
    · exact .off hoff

theorem sizes_placed (hp : Placed s.page argp.toDescSizes s'.page dd type)
    (hfit : InPlace s argp env dd ∨ AtEnd s argp dd) (hd : d ∈ s.devs) :
    sizesAt s'.page d.dd = d.sizes :=
  h.sizes_kept hp.within hd (h.entry_apart hp.entry hfit hd)

theorem add_live (hp : Placed s.page argp.toDescSizes s'.page dd argp.type)
    (htype : argp.type ≠ typeNone ∧ argp.type ≠ typeRemoved)
    (hfit : InPlace s argp env dd ∨ AtEnd s argp dd)
    (hdevs : s'.devs = s.devs ++ [⟨dd, dd + argp.vcaAlignedDescSize, argp.toDescSizes⟩]) :
    PageInv s' := by
  obtain ⟨pre, rest, hpre, hrest, hperm⟩ := h.around hp.entry
  obtain ⟨hfits, -⟩ := freeEntry_spec hp.entry
  constructor
  case scanned =>
    refine ⟨pre ++ dd :: rest,
      (lives_of_within hpre hp.within).append (walk_placed hp htype hfit hrest hperm), ?_⟩
    rw [hdevs, map_append, map_singleton]
    have hfront : (pre ++ dd :: rest).Perm (dd :: s.devs.map CardDev.dd) :=
      perm_middle.trans (hperm.cons dd)
    exact hfront.trans (perm_append_singleton dd _).symm
  case sizes =>
    rw [hdevs]
    exact forall_mem_append.mpr
      ⟨fun d hd => h.sizes_placed hp hfit hd, forall_mem_singleton.mpr hp.sizes_eq⟩
  case ctrl =>
    rw [hdevs]
    exact forall_mem_append.mpr ⟨h.ctrl, forall_mem_singleton.mpr rfl⟩
  case inside =>
    rw [hdevs]
    exact forall_mem_append.mpr ⟨h.inside, forall_mem_singleton.mpr hfits⟩

theorem add_failed (hp : Placed s.page argp.toDescSizes s'.page dd typeNone)
    (hfail : ¬ Complete argp env) (hfit : InPlace s argp env dd ∨ AtEnd s argp dd)
    (hdevs : s'.devs = s.devs) : PageInv s' := by
  have hend : AtEnd s argp dd := hfit.resolve_left fun hplace => hfail hplace.2.2
  obtain ⟨pre, rest, hpre, hrest, hperm⟩ := h.around hp.entry
  obtain ⟨hfits, -⟩ := freeEntry_spec hp.entry
  have := argp.lt_vcaTotalDescSize
  constructor
  case scanned =>
    have hstop : (pageRecords s'.page).Walk dd [] :=
      .stop (show dd < vcaDpSize by omega) (kind_stop hp.type_eq)
    rw [hdevs]
    rw [rest_eq_nil hrest hperm hend] at hperm
    exact ⟨pre ++ [], (lives_of_within hpre hp.within).append hstop, hperm⟩
  case sizes =>
    intro d hd
    rw [hdevs] at hd
    exact h.sizes_placed hp hfit hd
  case ctrl => rw [hdevs]; exact h.ctrl
  case inside => rw [hdevs]; exact h.inside

/-! ### Removals -/

section

variable {k : Nat} {d : CardDev}

theorem within_remove (hd : d ∈ s.devs) :
    Bytes.Within d.dd (d.dd + d.total) s.page (vopVirtioDelCardDevice s.page d) := by
  have hctrl := h.ctrl d hd
  have htotal : d.total = 2 * (d.sizes.vcaAlignedDescSize + 40) := rfl
  unfold vopVirtioDelCardDevice vopCardDevRemove configChange guestAck
  refine (((within_write ?_ ?_).trans (within_write ?_ ?_)).trans
    (within_write ?_ ?_)).trans (within_write ?_ ?_)
  all_goals
    try simp only [length_singleton]
    omega

theorem sizes_remove (hd : d ∈ s.devs) :
    sizesAt (vopVirtioDelCardDevice s.page d) d.dd = d.sizes := by
  have hctrl := h.ctrl d hd
  have := d.sizes.vcaDescSize_le
  have := d.sizes.le_vcaDescSize
  have hkept : ∀ b < 4, vopCardDevRemove s.page d.dc (d.dd + b) = s.page (d.dd + b) := by
    intro b hb
    unfold vopCardDevRemove configChange guestAck
    rw [write_of_outside (.inl (by omega)), write_of_outside (.inl (by omega)),
      write_of_outside (.inl (by omega))]
  rw [vopVirtioDelCardDevice, sizesAt_write_type, sizesAt_congr hkept, h.sizes d hd]

omit h in
theorem perm_cons_eraseIdx (hd : s.devs[k]? = some d) : s.devs.Perm (d :: s.devs.eraseIdx k) := by
  obtain ⟨hk, rfl⟩ := List.getElem?_eq_some_iff.mp hd
  exact (getElem_cons_eraseIdx_perm hk).symm

theorem others_apart (hd : s.devs[k]? = some d) {e : CardDev}
    (he : e ∈ s.devs.eraseIdx k) : e.dd + e.total ≤ d.dd ∨ d.dd + d.total ≤ e.dd := by
  have hsymm : ∀ {a b : CardDev}, Apart a b → Apart b a := fun hab => hab.symm
  have hpair := ((perm_cons_eraseIdx hd).pairwise_iff hsymm).mp h.disjoint
  exact ((pairwise_cons.mp hpair).1 e he).symm

theorem remove (hd : s.devs[k]? = some d) :
    PageInv ⟨vopVirtioDelCardDevice s.page d, s.devs.eraseIdx k⟩ := by
  have hmem : d ∈ s.devs := mem_of_getElem? hd
  have hwithin := h.within_remove hmem
  have hsub : ∀ e ∈ s.devs.eraseIdx k, e ∈ s.devs := fun e he => mem_of_mem_eraseIdx he
  constructor
  case scanned =>
    obtain ⟨l, hwalk, hperm⟩ := h.scanned
    have hsize := h.size_eq hmem
    have hskip : (pageRecords (vopVirtioDelCardDevice s.page d)).kind d.dd = .skip :=
      kind_skip write_singleton_self
    refine ⟨l.erase d.dd, ?_, ?_⟩
    · refine hwalk.erase ?_ (hperm.mem_iff.mpr (mem_map_of_mem hmem)) hskip ?_ ?_
      · rfl
      · rw [hsize]
        simp only [pageRecords, h.sizes_remove hmem, total]
      · rintro i (hbefore | hbehind)
        · exact agree_before hwithin hbefore
        · exact agree_behind hwithin (by rw [← hsize]; exact hbehind)
    · have hdevs := (perm_cons_eraseIdx hd).map dd
      have herase := (hperm.trans hdevs).erase d.dd
      rw [map_cons, erase_cons_head] at herase
      exact herase
  case sizes =>
    intro e he
    exact h.sizes_kept hwithin (hsub e he) (h.others_apart hd he)
  case ctrl => exact fun e he => h.ctrl e (hsub e he)
  case inside => exact fun e he => h.inside e (hsub e he)

end

theorem step {a : PageAct} (hfits : Fits s a) (hstep : pageStep s a = some s') :
    PageInv s' ∧ OthersKept s a s' := by
  cases a with
  | remove k =>
    simp only [pageStep] at hstep
    split at hstep
    case h_2 => cases hstep
    case h_1 d hd =>
      cases hstep
      refine ⟨h.remove hd, fun e he b hb => ?_⟩
      have hapart := h.others_apart hd he
      exact h.within_remove (mem_of_getElem? hd) _ (by omega)
  | add argp env =>
    rcases pageStep_add hstep with rfl | ⟨dd, hadd⟩
    · exact ⟨h, fun _ _ _ _ => rfl⟩
    have hentry : freeEntry s.page argp.toDescSizes = some dd := by
      rcases hadd with ⟨hp, -⟩ | ⟨hp, -⟩
      · exact hp.entry
      · exact hp.entry
    obtain ⟨htype, hfit⟩ := hfits dd hentry
    have hwithin : Bytes.Within dd (dd + argp.vcaTotalDescSize) s.page s'.page := by
      rcases hadd with ⟨hp, -⟩ | ⟨hp, -⟩
      · exact hp.within
      · exact hp.within
    constructor
    · rcases hadd with ⟨hp, hdevs⟩ | ⟨hp, hdevs, hfail⟩
      · exact h.add_live hp htype hfit hdevs
      · exact h.add_failed hp hfail hfit hdevs
    · intro d hd b hb
      have hapart := h.entry_apart hentry hfit hd
      exact hwithin _ (by omega)

end PageInv

theorem pageInv_initial : PageInv .initial where
  scanned := ⟨[], .stop (by decide) (kind_stop rfl), .nil⟩
  sizes _ hd := nomatch hd
  ctrl _ hd := nomatch hd
  inside _ hd := nomatch hd

theorem pageInv_of_fits {s : PageState} (h : pageSystem.ReachBy (fun s a _ => Fits s a) s) :
    PageInv s := by
  refine h.invariant ?_ ?_
  · rintro s rfl
    exact pageInv_initial
  · intro s a s' hinv hfits hstep
    exact (hinv.step hfits hstep).1

/-- **Integrity of the device page** in every run whose additions fit: in each state the live entries
are disjoint, in the page and exactly what a scan meets, and no step changes a byte of another
device. -/
theorem integrity_of_fits {s : PageState} (h : pageSystem.ReachBy (fun s a _ => Fits s a) s) :
    s.Intact ∧ ∀ a s', Fits s a → pageStep s a = some s' → s'.Intact ∧ OthersKept s a s' := by
  have hinv := pageInv_of_fits h
  refine ⟨hinv.intact, fun a s' hfits hstep => ?_⟩
  obtain ⟨hinv', hothers⟩ := hinv.step hfits hstep
  exact ⟨hinv'.intact, hothers⟩

/-! ## Runs -/

/-- Everything is granted. -/
def grantAll : SetupEnv where
  vring i := .ok (4096 * (i + 1))
  kvecBuf := .ok 65536
  confDb := .ok 1
  availDb := .ok 2
  usedDb := .ok 3

def fourDescriptors : List UInt8 :=
  [0, 0, 0, 0, 0, 0, 0, 0, 4, 0, 0, 0, 0, 0, 0, 0]

def oneQueue : VcaDeviceDesc where
  numVq := 1
  featureLen := 0
  configLen := 0
  type := 1
  tail := [0, 0, 0, 0] ++ fourDescriptors
  tail_length := rfl

def twoQueues : VcaDeviceDesc where
  numVq := 2
  featureLen := 0
  configLen := 0
  type := 1
  tail := [0, 0, 0, 0] ++ fourDescriptors ++ fourDescriptors
  tail_length := rfl

/-- Entries of two sizes; the first one is given up and taken again. -/
theorem integrity_of_fits_reused :
    ∃ s, pageSystem.ReachBy (fun s a _ => Fits s a) s ∧ s.devs.map CardDev.dd = [312, 184] ∧
      s.Intact := by
  let acts : List PageAct :=
    [.add oneQueue grantAll, .add twoQueues grantAll, .remove 0, .add oneQueue grantAll]
  have hobs : (pageSystem.runBy (fun s a _ => Fits s a) .initial acts).map
      (fun s => s.devs.map CardDev.dd) = some [312, 184] := by
    decide +kernel
  obtain ⟨s, hrun, hdevs⟩ := Option.map_eq_some_iff.mp hobs
  have hinit : pageSystem.ReachBy (fun s a _ => Fits s a) .initial := .init rfl
  have hreach := System.reachBy_of_runBy hinit acts hrun
  exact ⟨s, hreach, hdevs, (integrity_of_fits hreach).1⟩

/-- **Defect**: a device with two queues takes the entry of a removed one with one queue.  Its entry
runs into the next device, whose bytes change. -/
theorem neighbour_overwritten :
    ∃ s a s', pageSystem.Reachable s ∧ pageStep s a = some s' ∧ s.Intact ∧
      ¬ OthersKept s a s' ∧ ¬ s'.Intact := by
  let acts : List PageAct := [.add oneQueue grantAll, .add twoQueues grantAll, .remove 0]
  let last : PageAct := .add twoQueues grantAll
  have hobs : ((pageSystem.run .initial acts).bind fun s => (pageStep s last).map fun s' =>
      (decide s.Intact, decide (OthersKept s last s'), decide s'.Intact)) =
      some (true, false, false) := by
    decide +kernel
  obtain ⟨s, hrun, hlast⟩ := Option.bind_eq_some_iff.mp hobs
  obtain ⟨s', hstep, hflags⟩ := Option.map_eq_some_iff.mp hlast
  simp only [Prod.mk.injEq, decide_eq_true_eq, decide_eq_false_iff_not] at hflags
  obtain ⟨hbefore, hothers, hafter⟩ := hflags
  have hinit : pageSystem.Reachable .initial := .init rfl
  exact ⟨s, last, s', System.reachable_of_run hinit acts hrun, hstep, hbefore, hothers, hafter⟩

end Vcass.Vop
