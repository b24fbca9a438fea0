import Vcass.Vop.CancelMarks

/-!
# When a Cancellation Is Final

`transfer_done` gives a chain back with `vop_kvec_used`, and only then clears the flags of its slot.
In between the poster may complete the chain and put the next one into the same slot, which then loses
its flags: a mark of a cancellation that was answered with `VOP_REQUEST_CANCEL_OK`, so that the chain
is fetched and written after all (`written_after_cancel`), or `VOP_KVEC_FLAG_IN_USE` while it is
written.  A put that finds the slot of a transfer under way (chains may be completed out of order)
clears the flag in the same way.

When a slot is put again only after the transfer of the chain before has cleared its flags
(`SlotsFree`), a cancellation is final: `cancelFinal_of_slotsFree`.  Then the flag is on the slot of
every item, until the item itself clears it, and never on the slot of an unfetched chain; a chain whose
cancellation was confirmed is marked, or the fetcher has passed it and its transfer is over
(`Dead`).
-/

namespace Vcass.Vop

open Vcass.Core Function List CancelRing

/-! ## The condition and the property -/

/-- A put finds no item on its slots. -/
def SlotsFree (num : Nat) (s : CancelRing) (a : CancelAct) (s' : CancelRing) : Prop :=
  QueueOk num s a s' ∧
    (∀ head, a = .put head → ∀ item ∈ s.items,
      item.slot ≠ kvecCounterToIdx s.putCnt num ∧ item.slot ≠ kvecCounterToIdx s.putCnt num + 1)

instance (num : Nat) (s : CancelRing) (a : CancelAct) (s' : CancelRing) :
    Decidable (SlotsFree num s a s') :=
  match a with
  | .put head =>
    decidable_of_iff (QueueOk num s (.put head) s' ∧ ∀ item ∈ s.items,
        item.slot ≠ kvecCounterToIdx s.putCnt num ∧ item.slot ≠ kvecCounterToIdx s.putCnt num + 1)
      ⟨fun h => ⟨h.1, fun _ _ => h.2⟩, fun h => ⟨h.1, h.2 head rfl⟩⟩
  | .publish | .consume | .get | .transfer _ _ | .request _ | .cancel | .cancelTimeout =>
    .isTrue ⟨trivial, fun _ h => nomatch h⟩

/-- **Cancellation is final**: nothing is written into the buffers of a chain whose cancellation was
confirmed, and the slot of a fetched chain is in use until the chain was returned. -/
structure CancelFinal (s : CancelRing) : Prop where
  quiet : ∀ k ∈ s.confirmed, ∀ item ∈ s.items, item.phase ≠ .writing (some k)
  inUse : ∀ item ∈ s.items, item.phase ≠ .used → (s.buf item.slot).inUse = true

/-! ## The invariant -/

/-- An item and its slot -/
structure ItemOk (s : CancelRing) (item : CancelItem) : Prop where
  inUse : (s.buf item.slot).inUse = true
  chain : (s.buf item.slot).chain = item.chain
  both : item.numKvecsTo = 2 → item.slot % 2 = 0 ∧ (s.buf (item.slot + 1)).chain = item.chain
  target : ∀ k, item.phase = .writing k → k = item.chain ∧ item.numKvecsTo = 2

variable {item : CancelItem}

theorem ItemOk.frame {s s' : CancelRing} (h : ItemOk s item)
    (huse : (s'.buf item.slot).inUse = (s.buf item.slot).inUse)
    (hchain : ∀ j, (s'.buf j).chain = (s.buf j).chain) : ItemOk s' item where
  inUse := huse.trans h.inUse
  chain := (hchain _).trans h.chain
  both htwo := ⟨(h.both htwo).1, (hchain _).trans (h.both htwo).2⟩
  target := h.target

/-- The transfer of a whole chain is over, or it never starts. -/
def CancelRing.Over (s : CancelRing) (k : Nat) : Prop :=
  ∀ item ∈ s.items, item.chain = some k → item.numKvecsTo = 2 →
    item.phase = .written ∨ item.phase = .used

/-- Nothing more is written into the buffers of the chain. -/
structure Dead (num : Nat) (s : CancelRing) (k : Nat) : Prop where
  published : k < s.published
  marked : s.passed ≤ 2 * k → (s.buf (2 * k % num)).cancelled = true
  ended : s.Over k

/-- The request under way and the chain that it names -/
def CancelPhase.pending : CancelPhase → Option (Nat × Nat)
  | .start request (some k) | .stop request (some k) _ | .check request (some k) _ _
  | .lock request (some k) _ _ | .wait request (some k) => some (request, k)
  | _ => none

/-- **The invariant** -/
structure FinalInv (num : Nat) (s : CancelRing) : Prop where
  /-- the slots of unfetched chains are not in use -/
  unused : ∀ i, s.passed ≤ i → i < 2 * s.heads.length → (s.buf (i % num)).inUse = false
  /-- a chain is where its number says -/
  place : ∀ j k, (s.buf j).chain = some k → 2 * k % num = 2 * (j / 2)
  items : ∀ item ∈ s.items, ItemOk s item
  slots : (s.items.map (·.slot)).Nodup
  dead : ∀ k ∈ s.confirmed, Dead num s k
  /-- the fetcher does not stand before a dead chain when it has looked for marks -/
  looked : s.fetcher = .checking ∨ s.fetcher = .nonempty → ∀ k ∈ s.confirmed, s.passed ≠ 2 * k
  named : ∀ request k, s.canceller.pending = some (request, k) →
    k < s.published ∧ 2 * k % num = request
  waits : ∀ request k, s.canceller = .wait request (some k) → 2 * k < s.passed

namespace FinalInv

variable {num : Nat} {s s' : CancelRing} (h : FinalInv num s)

include h

theorem cancelFinal : CancelFinal s where
  quiet k hk item hitem hphase := by
    obtain ⟨hchain, hnum⟩ := (h.items item hitem).target _ hphase
    rcases (h.dead k hk).ended item hitem hchain.symm hnum with hover | hover
    · cases hphase.symm.trans hover
    · cases hphase.symm.trans hover
  inUse item hitem _ := (h.items item hitem).inUse

variable {i : Nat}

theorem slot_passed (hitem : item ∈ s.items)
    (hi : s.passed ≤ i) (hlt : i < 2 * s.heads.length) : i % num ≠ item.slot := by
  intro heq
  have hfalse := h.unused i hi hlt
  rw [heq, (h.items item hitem).inUse] at hfalse
  cases hfalse

theorem slot_eq (hitem : item ∈ s.items) {k : Nat}
    (hchain : item.chain = some k) (hnum : item.numKvecsTo = 2) : item.slot = 2 * k % num := by
  have hok := h.items item hitem
  have hplace := h.place item.slot k (hok.chain.trans hchain)
  have heven := (hok.both hnum).1
  omega

theorem over_of_unused {k : Nat}
    (hunused : (s.buf (2 * k % num)).inUse = false) : s.Over k := by
  intro item hitem hchain hnum
  have huse := (h.items item hitem).inUse
  rw [h.slot_eq hitem hchain hnum, hunused] at huse
  cases huse

/-! ## The poster -/

theorem publish (hw : WindowOk num s.window) : FinalInv num s.publish where
  unused := h.unused
  place := h.place
  items := fun item hitem => (h.items item hitem).frame rfl fun _ => rfl
  slots := h.slots
  dead := fun k hk =>
    ⟨lt_of_lt_of_le (h.dead k hk).published hw.published_le, (h.dead k hk).marked,
      (h.dead k hk).ended⟩
  looked := h.looked
  named := fun request k hpending =>
    ⟨lt_of_lt_of_le (h.named request k hpending).1 hw.published_le,
      (h.named request k hpending).2⟩
  waits := h.waits

theorem frame {fetcher : GetPhase} {canceller : CancelPhase}
    (usedRing outstanding : List Nat)
    (hlooked : fetcher = .checking ∨ fetcher = .nonempty → ∀ k ∈ s.confirmed, s.passed ≠ 2 * k)
    (hnamed : ∀ request k, canceller.pending = some (request, k) →
      k < s.published ∧ 2 * k % num = request)
    (hwaits : ∀ request k, canceller = .wait request (some k) → 2 * k < s.passed) :
    FinalInv num
      { s with
        fetcher := fetcher, canceller := canceller, usedRing := usedRing
        outstanding := outstanding } where
  unused := h.unused
  place := h.place
  items := fun item hitem => (h.items item hitem).frame rfl fun _ => rfl
  slots := h.slots
  dead := fun k hk => ⟨(h.dead k hk).published, (h.dead k hk).marked, (h.dead k hk).ended⟩
  looked := hlooked
  named := hnamed
  waits := hwaits

section

variable (hw : WindowOk num s.window)

include hw

theorem put (hnum : EvenSize num) {head : Nat}
    (hguard : SlotsFree num s (.put head) s') : FinalInv num (s.put num head) := by
  obtain ⟨hqueue, hfreeItems⟩ := hguard
  have hfree := hfreeItems head rfl
  have hidx := (hw.put_idx hnum).1
  obtain ⟨-, hpub, -⟩ := hw.bounds
  obtain ⟨n, hn⟩ := hnum.even
  -- chains have two slots, so that every chain starts at an even one
  have hidxEven : kvecCounterToIdx s.putCnt num % 2 = 0 := by
    rw [hidx, hn, Nat.mul_mod_mul_left, Nat.mul_mod_right]
  have hlen : (s.put num head).heads.length = s.heads.length + 1 := by simp [CancelRing.put]
  constructor
  · intro i hi hlt
    rcases hw.put_buf hnum hqueue hi hlt with ⟨hlt', hold⟩ | ⟨_, hnew⟩
    · rw [hold]
      exact h.unused i hi hlt'
    · rw [hnew]
  · intro j k hchain
    by_cases hj : j = kvecCounterToIdx s.putCnt num ∨ j = kvecCounterToIdx s.putCnt num + 1
    · rw [CancelRing.put_buf_new hj] at hchain
      cases hchain
      rw [← hidx]
      omega
    · rw [not_or] at hj
      rw [CancelRing.put_buf_of_ne hj.1 hj.2] at hchain
      exact h.place j k hchain
  · intro item hitem
    -- the put finds no item on its slots
    obtain ⟨hne, hne'⟩ := hfree item hitem
    obtain ⟨huse, hchain, hboth, htarget⟩ := h.items item hitem
    have hslot : (s.put num head).buf item.slot = s.buf item.slot :=
      CancelRing.put_buf_of_ne hne hne'
    refine ⟨hslot ▸ huse, hslot ▸ hchain, ?_, htarget⟩
    intro htwo
    obtain ⟨heven, hsecond⟩ := hboth htwo
    refine ⟨heven, ?_⟩
    rw [CancelRing.put_buf_of_ne (by omega) (by omega)]
    exact hsecond
  · exact h.slots
  · intro k hk
    obtain ⟨hpublished, hmarked, hover⟩ := h.dead k hk
    refine ⟨hpublished, ?_, hover⟩
    intro hle
    rcases hw.put_buf hnum hqueue hle (by omega) with ⟨_, hold⟩ | ⟨hk2, _⟩
    · rw [hold]
      exact hmarked hle
    · omega
  · exact h.looked
  · exact h.named
  · exact h.waits

/-! ## The fetcher -/

theorem passing (next : Nat)
    (hle : s.passed ≤ next) (hpassed : s'.passed = next) (hheads : s'.heads = s.heads)
    (hpub : s'.published = s.published) (hconf : s'.confirmed = s.confirmed)
    (hcancel : s'.canceller = s.canceller)
    (hchain : ∀ j, (s'.buf j).chain = (s.buf j).chain)
    (hflags : ∀ j, j ≠ s.passed % num →
      (s'.buf j).inUse = (s.buf j).inUse ∧ (s'.buf j).cancelled = (s.buf j).cancelled)
    (hnext : s.passed < next) (hpassing : s.passed < 2 * s.heads.length)
    (hitems : ∀ item ∈ s'.items, item ∈ s.items ∨ ItemOk s' item)
    (hslots : (s'.items.map (·.slot)).Nodup)
    (hover : ∀ k ∈ s.confirmed, s'.Over k)
    (hlooked : s'.fetcher = .checking ∨ s'.fetcher = .nonempty →
      ∀ k ∈ s.confirmed, s'.passed ≠ 2 * k) : FinalInv num s' := by
  obtain ⟨-, hpublished, hfits⟩ := hw.bounds
  -- no slot beyond is the slot that the fetcher passes
  have hbeyond : ∀ i, next ≤ i → i < 2 * s.heads.length → i % num ≠ s.passed % num :=
    fun i hi hlt => (slot_ne (by omega) (by omega)).symm
  constructor
  · intro i hi hlt
    rw [hpassed] at hi
    rw [hheads] at hlt
    rw [(hflags _ (hbeyond i hi hlt)).1]
    exact h.unused i (le_trans hle hi) hlt
  · intro j k hk
    rw [hchain j] at hk
    exact h.place j k hk
  · intro item hitem
    rcases hitems item hitem with hold | hnew
    · have hne : item.slot ≠ s.passed % num :=
        fun heq => h.slot_passed hold (le_refl _) hpassing heq.symm
      exact (h.items item hold).frame (hflags _ hne).1 hchain
    · exact hnew
  · exact hslots
  · rw [hconf]
    intro k hk
    obtain ⟨hpubk, hmarked, _⟩ := h.dead k hk
    refine ⟨hpub ▸ hpubk, ?_, hover k hk⟩
    rw [hpassed]
    intro hle'
    rw [(hflags _ (hbeyond (2 * k) hle' (by omega))).2]
    exact hmarked (le_trans hle hle')
  · rw [hconf]
    exact hlooked
  · rw [hcancel, hpub]
    exact h.named
  · intro request k hwait
    rw [hcancel] at hwait
    rw [hpassed]
    exact lt_of_lt_of_le (h.waits request k hwait) hle

theorem skip (hphase : s.fetcher = .skipping)
    (hne : s.lastCnt ≠ s.cnt)
    (hmark : (s.buf (kvecCounterToIdx s.lastCnt num)).cancelled = true) :
    FinalInv num (s.skip num) := by
  obtain ⟨-, hpublished, -⟩ := hw.bounds
  have hlt := hw.passed_lt hne
  rw [hw.skip_eq hne hmark]
  refine h.passing hw (s.passed + 1) (Nat.le_succ _) rfl rfl rfl rfl rfl ?_ ?_ (Nat.lt_succ_self _)
    (by omega) (fun item hitem => .inl hitem) h.slots (fun k hk => (h.dead k hk).ended) ?_
  · intro j
    by_cases hj : j = s.passed % num
    · subst hj
      simp only [setSlot, update_self]
    · simp only [setSlot, update_of_ne hj]
  · intro j hj
    simp only [setSlot, update_of_ne hj]
    exact ⟨trivial, trivial⟩
  · intro hlooked
    have hskipping : s.fetcher = .checking ∨ s.fetcher = .nonempty := hlooked
    rw [hphase] at hskipping
    rcases hskipping with hno | hno <;> cases hno

/-- A dead chain at the place of the fetcher has a mark, and the fetcher does not go on to the test
whether the ring is empty. -/
theorem stop
    (hstop : ¬ (s.lastCnt ≠ s.cnt ∧ (s.buf (kvecCounterToIdx s.lastCnt num)).cancelled = true)) :
    ∀ k ∈ s.confirmed, s.passed ≠ 2 * k := by
  intro k hk heq
  apply hstop
  have hdead := h.dead k hk
  have hpubk := hdead.published
  rw [hw.fetcher_idx, Ne, hw.empty_iff]
  refine ⟨by omega, ?_⟩
  rw [heq]
  exact hdead.marked (le_of_eq heq)

end

theorem fetch (hq : QueueInv num s) (hnum : EvenSize num)
    (hphase : s.fetcher = .nonempty) : FinalInv num (s.fetch num) := by
  have hw := hq.window
  have hne := hq.nonempty hphase
  have hlooked := h.looked (.inr hphase)
  obtain ⟨-, hpublished, -⟩ := hw.bounds
  have hpassing : s.passed < 2 * s.heads.length := by omega
  have htakes : WindowOk.takes s = 2 - s.passed % 2 := rfl
  obtain ⟨n, hn⟩ := hnum.even
  rw [WindowOk.fetch_eq hnum hw hne]
  have hcleared := WindowOk.cleared_frame num s
  have hfirstChain : (s.buf (s.passed % num)).chain = some (s.passed / 2) :=
    hw.chain s.passed (Nat.le_refl _) hpassing
  have hchain : ∀ j, (update (WindowOk.cleared num s) (s.passed % num)
      { WindowOk.cleared num s (s.passed % num) with inUse := true, cancelled := false } j).chain =
        (s.buf j).chain := by
    intro j
    by_cases hj : j = s.passed % num
    · subst hj
      rw [update_self, hcleared]
    · rw [update_of_ne hj, hcleared]
  refine h.passing hw (s.passed + WindowOk.takes s) (Nat.le_add_right _ _) rfl rfl rfl rfl
    rfl hchain ?_ (by omega) hpassing ?_ ?_ ?_ ?_
  · intro j hj
    simp only [update_of_ne hj]
    rw [hcleared]
    exact ⟨rfl, rfl⟩
  · intro item hitem
    rcases mem_append.mp hitem with hold | hnew
    · exact .inl hold
    · right
      cases mem_singleton.mp hnew
      refine ⟨by simp only [update_self], (hchain _).trans hfirstChain, ?_,
        fun k hk => nomatch hk⟩
      intro htwo
      have heven : s.passed % 2 = 0 := by
        simp only [htakes] at htwo
        omega
      have hslotEven : s.passed % num % 2 = 0 := by
        rw [hn, Nat.mod_mul_right_mod]
        exact heven
      have hsecond : s.passed % num + 1 = (s.passed + 1) % num := by
        have hlt : s.passed % num < num := Nat.mod_lt _ hnum.pos
        rw [Nat.add_mod s.passed 1 num, Nat.mod_eq_of_lt (a := 1) (by omega),
          Nat.mod_eq_of_lt (a := s.passed % num + 1) (by omega)]
      refine ⟨hslotEven, ?_⟩
      simp only [hsecond]
      rw [hchain]
      rw [hw.chain_at (Nat.le_succ _) (by omega)]
      congr 1
      omega
  · -- the slot was not in use
    simp only [map_append, map_cons, map_nil]
    rw [nodup_append]
    refine ⟨h.slots, nodup_singleton _, ?_⟩
    intro a ha b hb
    cases mem_singleton.mp hb
    obtain ⟨item, hitem, rfl⟩ := mem_map.mp ha
    exact fun heq => h.slot_passed hitem (Nat.le_refl _) hpassing heq.symm
  · intro k hk item hitem hck htwo
    rcases mem_append.mp hitem with hold | hnew
    · exact (h.dead k hk).ended item hold hck htwo
    · cases mem_singleton.mp hnew
      -- a whole chain is fetched from its first slot, and this one is not dead
      exfalso
      have hk2 : s.passed / 2 = k := Option.some.inj hck
      simp only [htakes] at htwo
      exact hlooked k hk (by omega)
  · rintro (hno | hno) <;> cases hno

theorem look (hw : WindowOk num s.window) {phase : GetPhase}
    (hlooks : s.Looks num phase) : FinalInv num { s with fetcher := phase } := by
  refine h.frame s.usedRing s.outstanding ?_ h.named h.waits
  cases hlooks with
  | start | empty => rintro (hno | hno) <;> cases hno
  | stop _ unmarked => exact fun _ => h.stop hw unmarked
  | nonempty phase => exact fun _ => h.looked (.inl phase)

/-! ## The items -/

theorem move {phase : ItemPhase}
    {back : List Nat} (hget : s.items[i]? = some item) (hmoves : s.Moves item phase back) :
    FinalInv num
      { s with
        items := s.items.set i { item with phase := phase }
        usedRing := s.usedRing ++ back } := by
  have hmem : item ∈ s.items := mem_of_getElem? hget
  have hok := h.items item hmem
  have hcases : ∀ it ∈ s.items.set i { item with phase := phase },
      it ∈ s.items ∨ it = { item with phase := phase } :=
    fun it hit => mem_or_eq_of_mem_set hit
  constructor
  · exact h.unused
  · exact h.place
  · intro it hit
    rcases hcases it hit with hold | rfl
    · exact (h.items it hold).frame rfl fun _ => rfl
    · refine ⟨hok.inUse, hok.chain, hok.both, ?_⟩
      intro k hwrite
      cases hmoves with
      | write ok =>
        simp only [transferWrite] at hwrite
        split at hwrite
        case isTrue hwrites =>
          cases hwrite
          exact ⟨(hok.both hwrites.1).2, hwrites.1⟩
        case isFalse => cases hwrite
      | written | used => cases hwrite
  · have hslots : (s.items.set i { item with phase := phase }).map (·.slot) =
        s.items.map (·.slot) := by
      rw [map_set]
      obtain ⟨hi, rfl⟩ := List.getElem?_eq_some_iff.mp hget
      apply ext_getElem
      · simp
      · intro j hj hj'
        rw [getElem_set]
        split
        case isTrue hij =>
          subst hij
          simp
        case isFalse => rfl
    simp only [hslots]
    exact h.slots
  · intro k hk
    obtain ⟨hpublished, hmarked, hdone⟩ := h.dead k hk
    refine ⟨hpublished, hmarked, ?_⟩
    intro it hit hchain htwo
    rcases hcases it hit with hold | rfl
    · exact hdone it hold hchain htwo
    · cases hmoves with
      | write _ fetched =>
        -- an item with a dead chain is not at its start
        rcases hdone item hmem hchain htwo with hover | hover
        · cases fetched.symm.trans hover
        · cases fetched.symm.trans hover
      | written => exact .inl rfl
      | used => exact .inr rfl
  · exact h.looked
  · exact h.named
  · exact h.waits

omit h in
theorem ne_of_mem_eraseIdx {items : List CancelItem} {item it : CancelItem}
    (hslots : (items.map (·.slot)).Nodup) (hget : items[i]? = some item)
    (hit : it ∈ items.eraseIdx i) : it.slot ≠ item.slot := by
  obtain ⟨j, hj, hij, rfl⟩ := mem_eraseIdx_iff_getElem.mp hit
  obtain ⟨hi, rfl⟩ := List.getElem?_eq_some_iff.mp hget
  intro heq
  apply hij
  have hinj := (nodup_iff_injective_getElem.mp hslots)
  have hfin : (⟨j, by simpa using hj⟩ : Fin (items.map (·.slot)).length) = ⟨i, by simpa using hi⟩ := by
    apply hinj
    simpa using heq
  exact Fin.mk.inj hfin

/-- `transfer_done` clears the flags of its slot: no other item and no unfetched chain is there. -/
theorem clear (hw : WindowOk num s.window) (hget : s.items[i]? = some item) :
    FinalInv num
      { s.setSlot item.slot { s.buf item.slot with inUse := false, cancelled := false } with
        items := s.items.eraseIdx i } := by
  have hmem : item ∈ s.items := mem_of_getElem? hget
  obtain ⟨-, hpublished, -⟩ := hw.bounds
  have hchain := fun j => (cleared_slot s item.slot j).1
  have hother : ∀ j, j ≠ item.slot → (s.setSlot item.slot
      { s.buf item.slot with inUse := false, cancelled := false }).buf j = s.buf j :=
    fun j hj => update_of_ne hj ..
  constructor
  · intro i' hi hlt
    rw [hother _ (h.slot_passed hmem hi hlt)]
    exact h.unused i' hi hlt
  · intro j k hk
    exact h.place j k ((hchain j).symm.trans hk)
  · intro it hit
    have hne := ne_of_mem_eraseIdx h.slots hget hit
    exact (h.items it (mem_of_mem_eraseIdx hit)).frame (by rw [hother _ hne]) hchain
  · exact List.Nodup.sublist ((eraseIdx_sublist _ _).map _) h.slots
  · intro k hk
    obtain ⟨hpubk, hmarked, hover⟩ := h.dead k hk
    refine ⟨hpubk, ?_, fun it hit => hover it (mem_of_mem_eraseIdx hit)⟩
    intro hle
    have hlt : 2 * k < 2 * s.heads.length := by omega
    rw [hother _ (h.slot_passed hmem hle hlt)]
    exact hmarked hle
  · exact h.looked
  · exact h.named
  · exact h.waits

/-! ## The canceller -/

theorem mark {request idxStart idxEnd : Nat} {named : Option Nat}
    {phase : CancelPhase} {told : List Nat}
    (hlock : s.canceller = .lock request named idxStart idxEnd) (hidle : s.fetcher = .idle)
    (hunused : (s.buf request).inUse = false)
    (hends : phase = .idle ∧ told = named.toList ∨ phase = .hung ∧ told = []) :
    FinalInv num
      { s with
        buf := (s.mark num request idxStart idxEnd).1
        requested := s.requested ++ (s.buf request).chain.toList
        canceller := phase
        confirmed := s.confirmed ++ told } := by
  have hframe := mark_frame num s request idxStart idxEnd
  have hchain : ∀ j, ((s.mark num request idxStart idxEnd).1 j).chain = (s.buf j).chain :=
    fun j => by rw [hframe j]
  have huse : ∀ j, ((s.mark num request idxStart idxEnd).1 j).inUse = (s.buf j).inUse :=
    fun j => by rw [hframe j]
  have hnoPhase : phase.pending = none ∧ ∀ request k, phase ≠ .wait request (some k) := by
    rcases hends with ⟨rfl, _⟩ | ⟨rfl, _⟩ <;> exact ⟨rfl, fun _ _ hno => nomatch hno⟩
  constructor
  · intro i hi hlt
    exact (huse _).trans (h.unused i hi hlt)
  · intro j k hk
    exact h.place j k ((hchain j).symm.trans hk)
  · intro item hitem
    exact (h.items item hitem).frame (huse _) hchain
  · exact h.slots
  · intro k hk
    rcases mem_append.mp hk with hold | hnew
    · obtain ⟨hpubk, hmarked, hover⟩ := h.dead k hold
      refine ⟨hpubk, ?_, hover⟩
      intro hle
      simp only
      rcases mark_slot num s request idxStart idxEnd (2 * k % num) with ⟨heq, _⟩ | ⟨_, heq⟩
      · rw [heq]
        exact hmarked hle
      · rw [heq]
    · -- the chain of the request: its first slot is the request
      obtain rfl : named = some k := by
        rcases hends with ⟨_, rfl⟩ | ⟨_, rfl⟩
        · exact Option.mem_toList.mp hnew
        · cases hnew
      have hpending : s.canceller.pending = some (request, k) := by rw [hlock]; rfl
      obtain ⟨hpubk, rfl⟩ := h.named _ k hpending
      refine ⟨hpubk, ?_, h.over_of_unused hunused⟩
      intro _
      simp only
      rcases mark_slot num s (2 * k % num) idxStart idxEnd (2 * k % num) with ⟨_, hne⟩ | ⟨_, heq⟩
      · exact absurd rfl hne
      · rw [heq]
  · simp only [hidle]
    rintro (hno | hno) <;> cases hno
  · intro request k hpending
    cases hnoPhase.1.symm.trans hpending
  · intro request k hwait
    exact absurd hwait (hnoPhase.2 request k)

theorem waited {request : Nat} {named : Option Nat}
    (hwait : s.canceller = .wait request named) (huse : (s.buf request).inUse = false) :
    FinalInv num (s.confirm named) := by
  constructor
  · exact h.unused
  · exact h.place
  · intro item hitem
    exact (h.items item hitem).frame rfl fun _ => rfl
  · exact h.slots
  · intro k hk
    rcases mem_append.mp hk with hold | hnew
    · obtain ⟨hpubk, hmarked, hover⟩ := h.dead k hold
      exact ⟨hpubk, hmarked, hover⟩
    · cases Option.mem_toList.mp hnew
      have hpending : s.canceller.pending = some (request, k) := by rw [hwait]; rfl
      obtain ⟨hpubk, rfl⟩ := h.named _ k hpending
      have hless := h.waits _ k hwait
      refine ⟨hpubk, ?_, h.over_of_unused huse⟩
      intro hle
      have hle' : s.passed ≤ 2 * k := hle
      omega
  · intro hphase k hk
    rcases mem_append.mp hk with hold | hnew
    · exact h.looked hphase k hold
    · cases Option.mem_toList.mp hnew
      have hless := h.waits _ k hwait
      simp only [confirm]
      omega
  · intro request k hno
    cases hno
  · intro request k hno
    cases hno

theorem ask (hw : WindowOk num s.window) {a : CancelAct} {phase : CancelPhase}
    (hasks : s.Asks num a phase) : FinalInv num { s with canceller := phase } := by
  obtain ⟨-, hpublished, -⟩ := hw.bounds
  have hsame : ∀ {old new : CancelPhase}, s.canceller = old → new.pending = old.pending →
      ∀ r k, new.pending = some (r, k) → k < s.published ∧ 2 * k % num = r := by
    rintro _ _ rfl heq r k hpending
    exact h.named r k (heq.symm.trans hpending)
  cases hasks with
  | request idx =>
    refine h.frame _ _ h.looked ?_ (fun _ _ hno => nomatch hno)
    intro r k hpending
    unfold namedChain at hpending
    split at hpending
    · cases hpending
    · split at hpending
      case isTrue hname =>
        cases hpending
        exact ⟨hname.2.1, hname.1⟩
      case isFalse => cases hpending
  | @start _ named phase | @stop _ named _ phase | @check _ named _ _ phase =>
    refine h.frame _ _ h.looked (hsame phase ?_) (fun _ _ hno => nomatch hno)
    cases named <;> rfl
  | @wait request named _ _ phase inUse =>
    refine h.frame _ _ h.looked (hsame phase ?_) ?_
    · cases named <;> rfl
    · intro r k hwait
      cases hwait
      have hpending : s.canceller.pending = some (request, k) := by rw [phase]; rfl
      obtain ⟨hpubk, rfl⟩ := h.named _ k hpending
      by_contra hge
      have hfalse := h.unused (2 * k) (by omega) (by omega)
      rw [inUse] at hfalse
      cases hfalse
  | giveUp =>
    exact h.frame _ _ h.looked (fun _ _ hno => nomatch hno) (fun _ _ hno => nomatch hno)

/-- **Every step that meets the condition keeps the invariant.** -/
theorem step {a : CancelAct} (hq : QueueInv num s) (hnum : EvenSize num)
    (hguard : SlotsFree num s a s') (hstep : cancelStep num s a = some s') : FinalInv num s' := by
  cases cancelStep_cases hstep with
  | put head => exact h.put hq.window hnum hguard
  | publish => exact h.publish hq.window
  | consume => exact h.frame _ _ h.looked h.named h.waits
  | look looks => exact h.look hq.window looks
  | skip phase more marked => exact h.skip hq.window phase more marked
  | fetch phase => exact h.fetch hq hnum phase
  | move get moves => exact h.move get moves
  | clear get => exact h.clear hq.window get
  | ask asks => exact h.ask hq.window asks
  | mark lock idle unused ends => exact h.mark lock idle unused ends
  | waited wait unused => exact h.waited wait unused

end FinalInv

theorem finalInv_of_reachBy {num : Nat} (hnum : EvenSize num) {s : CancelRing}
    (h : (cancelSystem num).ReachBy (SlotsFree num) s) : QueueInv num s ∧ FinalInv num s := by
  apply System.ReachBy.invariant ?_ ?_ h
  · rintro s rfl
    refine ⟨queueInv_initial num, ?_⟩
    exact
      { unused := fun _ _ hlt => absurd hlt (Nat.not_lt_zero _)
        place := fun _ _ hno => nomatch hno
        items := fun _ hno => nomatch hno
        slots := nodup_nil
        dead := fun _ hno => nomatch hno
        looked := fun _ _ hno => nomatch hno
        named := fun _ _ hno => nomatch hno
        waits := fun _ _ hno => nomatch hno }
  · rintro s a s' ⟨hq, hf⟩ hguard hstep
    exact ⟨hq.step hnum hguard.1 hstep, hf.step hq hnum hguard hstep⟩

/-! ## Main results -/

/-- **Cancellation is final** in every run in which a slot is put again only after the transfer of the
chain before has cleared its flags. -/
theorem cancelFinal_of_slotsFree {num : Nat} (hnum : EvenSize num) {s : CancelRing}
    (h : (cancelSystem num).ReachBy (SlotsFree num) s) : CancelFinal s :=
  (finalInv_of_reachBy hnum h).2.cancelFinal

/-- The write of an item, its DMA, and `vop_kvec_used` -/
def writeAndReturn : List CancelAct := List.replicate 3 (.transfer 0 true)

/-- The first of two chains is written and returned, a third one takes its place and is cancelled; the
fetcher skips it. -/
theorem cancelFinal_of_slotsFree_reusedSlot :
    ∃ s, (cancelSystem 4).ReachBy (SlotsFree 4) s ∧ s.confirmed = [2] ∧ s.skipped = [2, 2] ∧
      CancelFinal s := by
  have hobs : ((cancelSystem 4).runBy (SlotsFree 4) .initial
      ([CancelAct.put 5, .put 6, .publish] ++ wholeGet ++ writeAndReturn ++
        [CancelAct.transfer 0 true, .consume, .put 7, .publish] ++ wholeCancel 0 ++ wholeGet ++
        [CancelAct.get, .get, .get])).map (fun s => (s.confirmed, s.skipped)) =
      some ([2], [2, 2]) := by
    decide +kernel
  obtain ⟨s, hreach, hseen⟩ := System.exists_reachBy hobs rfl
  obtain ⟨hconfirmed, hskipped⟩ := Prod.mk.inj hseen
  exact ⟨s, hreach, hconfirmed, hskipped, cancelFinal_of_slotsFree ⟨by decide, by decide⟩ hreach⟩

/-- The same, but the first chain clears the flags of its slot after the cancellation of the third:
the third chain is fetched and written although its cancellation was confirmed. -/
theorem written_after_cancel :
    ∃ s, (cancelSystem 4).ReachBy (QueueOk 4) s ∧ s.confirmed = [2] ∧
      s.items = [⟨some 1, 2, 2, .fetched⟩, ⟨some 2, 0, 2, .writing (some 2)⟩] ∧
      ¬ CancelFinal s := by
  have hobs : ((cancelSystem 4).runBy (QueueOk 4) .initial
      ([CancelAct.put 5, .put 6, .publish] ++ wholeGet ++ writeAndReturn ++
        [CancelAct.consume, .put 7, .publish] ++ wholeCancel 0 ++ [CancelAct.transfer 0 true] ++
        wholeGet ++ wholeGet ++ [CancelAct.transfer 1 true])).map (fun s => (s.confirmed, s.items)) =
      some ([2], [⟨some 1, 2, 2, .fetched⟩, ⟨some 2, 0, 2, .writing (some 2)⟩]) := by
    decide +kernel
  obtain ⟨s, hreach, hseen⟩ := System.exists_reachBy hobs rfl
  obtain ⟨hconfirmed, hitems⟩ := Prod.mk.inj hseen
  refine ⟨s, hreach, hconfirmed, hitems, ?_⟩
  intro hfinal
  apply hfinal.quiet 2 (by rw [hconfirmed]; decide) ⟨some 2, 0, 2, .writing (some 2)⟩
  · rw [hitems]
    decide
  · rfl

end Vcass.Vop
