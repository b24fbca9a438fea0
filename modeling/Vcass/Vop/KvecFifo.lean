import Mathlib.Algebra.BigOperators.Fin
import Mathlib.Algebra.Order.BigOperators.Group.Finset
import Vcass.Core.Ring
import Vcass.Vop.KvecRing

/-!
# The Receive Rings Are First-In First-Out

`vop_kvec_put` does not look whether a ring is full.  What keeps it from overwriting a chain is
a credit argument over both hosts: a head is in one place only (a chain not yet fetched, a
fetched item, an entry of the used ring), and there are at most `num / 2` heads out.  The same
argument tells the chains in a ring apart, which the fetcher does by their heads.
-/

namespace Vcass.Vop

open Vcass.Core Function List KvecState Completer UsedKiovRing Fetcher Fetched Poster

/-! ## Ring sizes -/

/-- The sizes a ring may have -/
structure RingSize (num : Nat) : Prop where
  even : 2 ∣ num
  two_le : 2 ≤ num
  le : num ≤ 1024

variable {num : Nat}

theorem RingSize.of_pow (hpow : ∃ k, num = 2 ^ k) (two_le : 2 ≤ num)
    (le : num ≤ 1024) : RingSize num where
  even := by
    obtain ⟨k, rfl⟩ := hpow
    apply dvd_pow_self
    rintro rfl
    simp at two_le
  two_le := two_le
  le := le

namespace RingSize

variable {num : Nat} (hnum : RingSize num)

include hnum

theorem u16_counter (a : Nat) : u16 (a % (2 * num)) = a % (2 * num) := by
  have hlt : a % (2 * num) < 2 * num := Nat.mod_lt _ (by have := hnum.two_le; omega)
  have := hnum.le
  exact Nat.mod_eq_of_lt (by omega)

theorem u16_slot (a : Nat) : u16 (a % num) = a % num := by
  have hlt : a % num < num := Nat.mod_lt _ (by have := hnum.two_le; omega)
  have := hnum.le
  exact Nat.mod_eq_of_lt (by omega)

theorem counterAdd (a k : Nat) :
    u16 (kvecCounterAdd (a % (2 * num)) k num) = (a + k) % (2 * num) := by
  unfold kvecCounterAdd
  rw [hnum.u16_counter, Nat.mod_add_mod]

theorem counterToIdx (a : Nat) : u16 (kvecCounterToIdx (a % (2 * num)) num) = a % num := by
  unfold kvecCounterToIdx
  rw [hnum.u16_slot, counter_mod_slot]

theorem succ_slot (k : Nat) : (2 * k + 1) % num = 2 * k % num + 1 := by
  obtain ⟨m, rfl⟩ := hnum.even
  have hm : 0 < m := by have := hnum.two_le; omega
  have hlt : k % m < m := Nat.mod_lt _ hm
  rw [Nat.add_mod, Nat.mul_mod_mul_left, Nat.mod_eq_of_lt (a := 1) (by omega)]
  exact Nat.mod_eq_of_lt (by omega)

theorem succ_slot_lt (k : Nat) : 2 * k % num + 1 < num := by
  rw [← hnum.succ_slot]
  exact Nat.mod_lt _ (by have := hnum.two_le; omega)

end RingSize

/-! ## Slots of chains -/

def Chain.slots (c : Chain) : List PeerKvec := c.iovs.map fun iov => ⟨iov, c.head, 0⟩

def slotLog (chains : List Chain) : List PeerKvec := chains.flatMap Chain.slots

def Chain.Pair (c : Chain) : Prop := c.iovs.length = 2

variable {c : Chain}

theorem Chain.Pair.slots_length (hc : c.Pair) : c.slots.length = 2 := by
  unfold Chain.slots
  rw [length_map]
  exact hc

@[simp]
theorem slotLog_append (chains : List Chain) (c : Chain) :
    slotLog (chains ++ [c]) = slotLog chains ++ c.slots := by
  simp [slotLog]

theorem slotLog_length {chains : List Chain} (hpairs : ∀ c ∈ chains, c.Pair) :
    (slotLog chains).length = 2 * chains.length := by
  induction chains with
  | nil => rfl
  | cons c chains ih =>
    have hc := (hpairs c mem_cons_self).slots_length
    have hrest := ih fun d hd => hpairs d (mem_cons_of_mem _ hd)
    simp only [slotLog, flatMap_cons, length_append, length_cons] at hrest ⊢
    omega

/-- The slots of the `k`-th chain -/
theorem slotLog_getElem? {chains : List Chain} (hpairs : ∀ c ∈ chains, c.Pair) {k : Nat}
    (hk : chains[k]? = some c) {j : Nat} (hj : j < 2) :
    (slotLog chains)[2 * k + j]? = c.slots[j]? := by
  induction chains generalizing k with
  | nil => cases hk
  | cons d chains ih =>
    have hd := (hpairs d mem_cons_self).slots_length
    cases k with
    | zero =>
      cases hk
      simp only [slotLog, flatMap_cons, mul_zero, zero_add]
      exact List.getElem?_append_left (by omega)
    | succ k =>
      have hrest := ih (fun e he => hpairs e (mem_cons_of_mem _ he)) hk
      simp only [slotLog, flatMap_cons] at hrest ⊢
      rw [List.getElem?_append_right (by omega), hd, ← hrest]
      congr 1
      omega

/-! ## Invariants -/

/-- The slots that the poster has still to store in a ring -/
def Poster.left (p : Poster) (id : Fin kvecBufNum) : List PeerKvec :=
  match p with
  | .storing id' _ slots _ _ => if id' = id then slots else []
  | _ => []

/-- The number of heads that the fetcher has cleared in a ring without having moved on -/
def Fetcher.cleared (f : Fetcher) (id : Fin kvecBufNum) : Nat :=
  match f with
  | .adjacent id' _ _ cnt _ _ => if id' = id then cnt else 0
  | _ => 0

/-- One available ring, with the slots still to be stored and the number of cleared heads -/
structure RingOk (num : Nat) (ring : KvecRing) (left : List PeerKvec) (cleared : Nat) :
    Prop where
  pairs : ∀ c ∈ ring.putLog, c.Pair
  log : slotLog ring.putLog = ring.storedLog ++ left
  putCnt : ring.putCnt = 2 * ring.putLog.length % (2 * num)
  cnt : ring.cnt = 2 * ring.published % (2 * num)
  lastCnt : ring.lastCnt = 2 * ring.gotLog.length % (2 * num)
  got_le : ring.gotLog.length ≤ ring.published
  published_le : 2 * ring.published ≤ ring.storedLog.length
  /-- The descriptors stay until their chain is fetched -/
  iovs : Window num (fun i => (ring.buf i).iov) (ring.storedLog.map PeerKvec.iov)
    (2 * ring.gotLog.length)
  /-- The heads stay until the fetcher has read them -/
  heads : Window num (fun i => (ring.buf i).head) (ring.storedLog.map PeerKvec.head)
    (2 * ring.gotLog.length + cleared)
  flags : ∀ i, (ring.buf i).flags &&& vopKvecFlagCancelled = 0
  got : ring.gotLog.map Fetched.chain <+: ring.putLog
  items : ∀ item ∈ ring.gotLog, item.numKvecsTo = 2 ∧ item.kvecTo + 1 < num

/-- The poster stores at the slot that comes next -/
def PosterOk (num : Nat) (s : KvecState) : Prop :=
  match s.poster with
  | .storing id idx slots _ _ =>
    slots.length ≤ 2 ∧ (slots ≠ [] → idx = (s.rings id).storedLog.length % num)
  | _ => True

/-- The fetcher is at a published chain and has read one or both of its slots -/
def FetcherOk (num : Nat) (s : KvecState) : Prop :=
  match s.fetcher with
  | .nonempty id => (s.rings id).gotLog.length < (s.rings id).published
  | .adjacent id availCnt first cnt nextIdx head =>
    ∃ avail, availCnt = 2 * avail % (2 * num) ∧ (s.rings id).gotLog.length < avail ∧
      avail ≤ (s.rings id).published ∧ first = 2 * (s.rings id).gotLog.length % num ∧
      nextIdx = (2 * (s.rings id).gotLog.length + cnt) % num ∧ (cnt = 1 ∨ cnt = 2) ∧
      ((s.rings id).putLog[(s.rings id).gotLog.length]?).map Chain.head = some head
  | _ => True

/-- Entries stored in the used ring and not yet published -/
def Completer.pending : Completer → Nat
  | .idle => 0
  | .stored => 1

/-- Entries completed and not yet counted -/
def Consumer.pending : Consumer → Nat
  | .idle => 0
  | .completed => 1

/-- The used ring -/
structure UsedOk (num : Nat) (s : KvecState) : Prop where
  pending : s.completer.pending ≤ s.usedRing.usedLog.length
  counted : s.consumer.pending ≤ s.usedRing.consumedLog.length
  usedCnt : s.usedRing.usedCnt =
    (s.usedRing.usedLog.length - s.completer.pending) % (2 * num)
  cnt : s.usedRing.cnt = s.usedRing.usedCnt
  lastCnt : s.usedRing.lastCnt =
    (s.usedRing.consumedLog.length - s.consumer.pending) % (2 * num)
  consumed : s.usedRing.consumedLog <+: s.usedRing.usedLog
  consumed_le : s.usedRing.consumedLog.length + s.completer.pending ≤ s.usedRing.usedLog.length
  window : Window num s.usedRing.buf s.usedRing.usedLog s.usedRing.consumedLog.length

/-- The heads of the chains of a ring that are not yet fetched -/
def KvecRing.unfetched (ring : KvecRing) : List Nat :=
  (ring.putLog.drop ring.gotLog.length).map Chain.head

/-- The heads in the used ring that are not yet completed -/
def UsedKiovRing.unconsumed (ring : UsedKiovRing) : List Nat :=
  (ring.usedLog.drop ring.consumedLog.length).map PeerUsedKiov.head

/-- **Credits**: an outstanding head is in exactly one place. -/
structure CreditOk (num : Nat) (s : KvecState) : Prop where
  nodup : s.outstanding.Nodup
  bound : s.outstanding.length ≤ num / 2
  places : (s.outstanding : Multiset Nat) =
    ∑ id, ((s.rings id).unfetched : Multiset Nat) + (s.items.map Fetched.headTo : Multiset Nat) +
      (s.usedRing.unconsumed : Multiset Nat)

structure KvecInv (num : Nat) (s : KvecState) : Prop where
  rings : ∀ id, RingOk num (s.rings id) (s.poster.left id) (s.fetcher.cleared id)
  poster : PosterOk num s
  fetcher : FetcherOk num s
  used : UsedOk num s
  credit : CreditOk num s

/-! ## What the credits give -/

namespace CreditOk

variable {num : Nat} {s : KvecState} (ok : CreditOk num s)

include ok

theorem unfetched_le (id : Fin kvecBufNum) :
    ((s.rings id).unfetched : Multiset Nat) ≤ (s.outstanding : Multiset Nat) := by
  have hsum : ((s.rings id).unfetched : Multiset Nat) ≤
      ∑ id, ((s.rings id).unfetched : Multiset Nat) :=
    Finset.single_le_sum (f := fun id => ((s.rings id).unfetched : Multiset Nat))
      (fun _ _ => Multiset.zero_le _) (Finset.mem_univ id)
  rw [ok.places, add_assoc]
  exact hsum.trans (Multiset.le_add_right _ _)

theorem unfetched_nodup (id : Fin kvecBufNum) : (s.rings id).unfetched.Nodup :=
  Multiset.coe_nodup.mp (Multiset.nodup_of_le (ok.unfetched_le id) (Multiset.coe_nodup.mpr ok.nodup))

theorem room (id : Fin kvecBufNum) :
    (s.rings id).putLog.length ≤ (s.rings id).gotLog.length + num / 2 := by
  have hcard := Multiset.card_le_card (ok.unfetched_le id)
  have hbound := ok.bound
  simp only [Multiset.coe_card, KvecRing.unfetched, length_map, length_drop] at hcard
  omega

theorem used_room : s.usedRing.usedLog.length ≤ s.usedRing.consumedLog.length + num / 2 := by
  have hcard := congrArg Multiset.card ok.places
  have hbound := ok.bound
  simp only [Multiset.coe_card, Multiset.card_add, unconsumed, length_map,
    length_drop] at hcard
  omega

end CreditOk

/-! ## Frames -/

section

variable {num : Nat} {s s' : KvecState}

@[simp]
theorem KvecState.setRing_self (s : KvecState) (id : Fin kvecBufNum) (ring : KvecRing) :
    (s.setRing id ring).rings id = ring :=
  update_self ..

theorem KvecState.setRing_of_ne (s : KvecState) {id id' : Fin kvecBufNum} (h : id' ≠ id)
    (ring : KvecRing) : (s.setRing id ring).rings id' = s.rings id' :=
  update_of_ne h ..

theorem PosterOk.frame (ok : PosterOk num s) (hposter : s'.poster = s.poster)
    (hstored : ∀ id, (s'.rings id).storedLog = (s.rings id).storedLog) : PosterOk num s' := by
  unfold PosterOk at ok ⊢
  rw [hposter]
  cases hp : s.poster with
  | storing id idx slots cntSize cntTotal =>
    rw [hp] at ok
    simpa only [hstored] using ok
  | idle | fetching | publishing => trivial

theorem FetcherOk.frame (ok : FetcherOk num s) (hfetcher : s'.fetcher = s.fetcher)
    (hgot : ∀ id, (s'.rings id).gotLog = (s.rings id).gotLog)
    (hpublished : ∀ id, (s.rings id).published ≤ (s'.rings id).published)
    (hput : ∀ id, (s.rings id).putLog <+: (s'.rings id).putLog) : FetcherOk num s' := by
  unfold FetcherOk at ok ⊢
  rw [hfetcher]
  cases hf : s.fetcher with
  | nonempty id =>
    rw [hf] at ok
    simp only [hgot]
    exact lt_of_lt_of_le ok (hpublished id)
  | adjacent id availCnt first cnt nextIdx head =>
    rw [hf] at ok
    obtain ⟨avail, hcnt, hlt, hle, hfirst, hnext, hone, hhead⟩ := ok
    simp only [hgot]
    refine ⟨avail, hcnt, hlt, le_trans hle (hpublished id), hfirst, hnext, hone, ?_⟩
    -- the chain at hand stays where it was
    obtain ⟨c, hc, hhead'⟩ := Option.map_eq_some_iff.mp hhead
    obtain ⟨more, hmore⟩ := hput id
    rw [← hmore, List.getElem?_append_left (List.getElem?_eq_some_iff.mp hc).1, hc]
    exact congrArg some hhead'
  | idle | skipping | checking => trivial

theorem UsedOk.frame (ok : UsedOk num s) (hused : s'.usedRing = s.usedRing)
    (hcompleter : s'.completer = s.completer) (hconsumer : s'.consumer = s.consumer) :
    UsedOk num s' := by
  constructor <;> rw [hused] <;> (try rw [hcompleter]) <;> (try rw [hconsumer])
  exacts [ok.pending, ok.counted, ok.usedCnt, ok.cnt, ok.lastCnt, ok.consumed, ok.consumed_le,
    ok.window]

theorem CreditOk.frame (ok : CreditOk num s) (hout : s'.outstanding = s.outstanding)
    (hun : ∀ id, (s'.rings id).unfetched = (s.rings id).unfetched)
    (hitems : s'.items = s.items) (hused : s'.usedRing.unconsumed = s.usedRing.unconsumed) :
    CreditOk num s' where
  nodup := by
    rw [hout]
    exact ok.nodup
  bound := by
    rw [hout]
    exact ok.bound
  places := by
    simp only [hout, hun, hitems, hused]
    exact ok.places

theorem sum_setRing (s : KvecState) (id : Fin kvecBufNum) (ring : KvecRing)
    (lost gained : Multiset Nat)
    (h : (ring.unfetched : Multiset Nat) + lost = (s.rings id).unfetched + gained) :
    ∑ i, (((s.setRing id ring).rings i).unfetched : Multiset Nat) + lost =
      ∑ i, ((s.rings i).unfetched : Multiset Nat) + gained := by
  have hrest : ∑ i ∈ Finset.univ.erase id,
      (((s.setRing id ring).rings i).unfetched : Multiset Nat) =
      ∑ i ∈ Finset.univ.erase id, ((s.rings i).unfetched : Multiset Nat) := by
    refine Finset.sum_congr rfl fun i hi => ?_
    rw [s.setRing_of_ne (Finset.ne_of_mem_erase hi)]
  rw [← Finset.add_sum_erase Finset.univ _ (Finset.mem_univ id), hrest,
    ← Finset.add_sum_erase Finset.univ (fun i => ((s.rings i).unfetched : Multiset Nat))
      (Finset.mem_univ id), s.setRing_self, add_right_comm, h]
  ac_rfl

end

/-! ## Steps of the poster -/

namespace RingOk

variable {num : Nat} {ring : KvecRing} {left : List PeerKvec} {cleared : Nat}

section

variable (ok : RingOk num ring left cleared)

include ok

theorem stored_length : ring.storedLog.length + left.length = 2 * ring.putLog.length := by
  rw [← slotLog_length ok.pairs, ok.log, length_append]

theorem published_le_put : ring.published ≤ ring.putLog.length := by
  have := ok.stored_length
  have := ok.published_le
  omega

theorem stored_getElem? {k : Nat}
    (hk : ring.putLog[k]? = some c) (hlt : k < ring.published) {j : Nat} (hj : j < 2) :
    ring.storedLog[2 * k + j]? = c.slots[j]? := by
  have := ok.published_le
  rw [← slotLog_getElem? ok.pairs hk hj, ok.log, List.getElem?_append_left (by omega)]

theorem left_flags {slot : PeerKvec} (h : slot ∈ left) : slot.flags = 0 := by
  have hmem : slot ∈ slotLog ring.putLog := by
    rw [ok.log]
    exact mem_append_right _ h
  obtain ⟨c, _, hslot⟩ := mem_flatMap.mp hmem
  obtain ⟨iov, _, rfl⟩ := mem_map.mp hslot
  rfl

theorem limit (size : Nat) : RingOk num (ring.limit size) left cleared := by
  unfold KvecRing.limit
  split
  · exact ⟨ok.pairs, ok.log, ok.putCnt, ok.cnt, ok.lastCnt, ok.got_le, ok.published_le, ok.iovs,
      ok.heads, ok.flags, ok.got, ok.items⟩
  · exact ok

end

/-- `vop_kvec_put` -/
theorem put (hnum : RingSize num) (ok : RingOk num ring [] cleared) (hc : c.Pair) :
    RingOk num
      { ring with
        putCnt := u16 (kvecCounterAdd ring.putCnt 2 num)
        putLog := ring.putLog ++ [c] } c.slots cleared :=
  { ok with
    pairs := by
      intro d hd
      rcases mem_append.mp hd with hd | hd
      · exact ok.pairs d hd
      · rw [mem_singleton.mp hd]
        exact hc
    log := by
      show slotLog (ring.putLog ++ [c]) = _
      rw [slotLog_append, ok.log, append_nil]
    putCnt := by
      show u16 (kvecCounterAdd ring.putCnt 2 num) = _
      rw [ok.putCnt, hnum.counterAdd, length_append]
      rfl
    got := ok.got.trans (prefix_append _ _) }

/-- One slot of the `memcpy_toio` -/
theorem store {slot : PeerKvec} {rest : List PeerKvec} (hnum : RingSize num)
    (ok : RingOk num ring (slot :: rest) cleared)
    (hroom : ring.putLog.length ≤ ring.gotLog.length + num / 2) :
    RingOk num
      { ring with
        buf := update ring.buf (ring.storedLog.length % num) slot
        storedLog := ring.storedLog ++ [slot] } rest cleared := by
  have hstored := ok.stored_length
  have heven := Nat.mul_div_cancel' hnum.even
  simp only [length_cons] at hstored
  -- both windows grow at the slot the poster writes
  have hiovs := ok.iovs.push (by rw [length_map]; omega) slot.iov
  have hheads := ok.heads.push (by rw [length_map]; omega) slot.head
  rw [length_map] at hiovs hheads
  refine
    { ok with
      log := by
        show slotLog ring.putLog = _
        rw [ok.log, append_assoc]
        rfl
      published_le := by
        show 2 * ring.published ≤ (ring.storedLog ++ [slot]).length
        rw [length_append]
        exact Nat.le_add_right_of_le ok.published_le
      iovs := ?_
      heads := ?_
      flags := ?_ }
  · convert hiovs using 1
    · exact comp_update PeerKvec.iov ring.buf _ slot
    · simp
  · convert hheads using 1
    · exact comp_update PeerKvec.head ring.buf _ slot
    · simp
  · intro i
    show (update ring.buf _ slot i).flags &&& _ = 0
    by_cases hi : i = ring.storedLog.length % num
    · rw [hi, update_self, ok.left_flags mem_cons_self]
      rfl
    · rw [update_of_ne hi]
      exact ok.flags i

/-- `vop_kvec_buff_update_idx` -/
theorem publish (ok : RingOk num ring [] cleared) :
    RingOk num { ring with cnt := ring.putCnt, published := ring.putLog.length } [] cleared :=
  { ok with
    cnt := ok.putCnt
    got_le := le_trans ok.got_le ok.published_le_put
    published_le := by
      have := ok.stored_length
      show 2 * ring.putLog.length ≤ ring.storedLog.length
      simp only [length_nil] at this
      omega }

end RingOk

namespace KvecInv

variable {num : Nat} {s : KvecState} (inv : KvecInv num s)

include inv

theorem movePoster {p : Poster} (hleft : ∀ id, s.poster.left id = [])
    (hp : ∀ id idx slots cntSize cntTotal, p ≠ .storing id idx slots cntSize cntTotal) :
    KvecInv num { s with poster := p } where
  rings id := by
    have hpl : p.left id = [] := by
      cases p with
      | storing id idx slots cntSize cntTotal => exact absurd rfl (hp _ _ _ _ _)
      | idle | fetching | publishing => rfl
    show RingOk num (s.rings id) (p.left id) _
    rw [hpl, ← hleft id]
    exact inv.rings id
  poster := by
    unfold PosterOk
    cases p with
    | storing id idx slots cntSize cntTotal => exact absurd rfl (hp _ _ _ _ _)
    | idle | fetching | publishing => trivial
  fetcher := inv.fetcher
  used := inv.used.frame rfl rfl rfl
  credit := inv.credit.frame rfl (fun _ => rfl) rfl rfl

omit inv in
theorem unfetched_put {ring : KvecRing} (h : ring.gotLog.length ≤ ring.putLog.length) (c : Chain)
    (cnt : Nat) :
    ({ ring with putCnt := cnt, putLog := ring.putLog ++ [c] } : KvecRing).unfetched =
      ring.unfetched ++ [c.head] := by
  show ((ring.putLog ++ [c]).drop _).map Chain.head = _
  rw [drop_append_of_le_length h, map_append]
  rfl

variable {cntSize : Fin kvecBufNum → Nat} {cntTotal : Nat}

theorem put (hnum : RingSize num) {head : Nat} {wiov : List Kvec}
    (at_fetching : s.poster = .fetching cntSize cntTotal)
    (hlen : wiov.length = 2) (hfree : head ∉ s.outstanding)
    (hcredit : s.outstanding.length < num / 2) :
    KvecInv num (vopKvecPut num s head wiov cntSize cntTotal) := by
  unfold vopKvecPut
  cases hid : getRingIdWrite (chainSize wiov) with
  | none => exact inv
  | some id =>
    have hleft : ∀ id, s.poster.left id = [] := by
      intro id
      rw [at_fetching]
      rfl
    have hpair : (⟨head, wiov.take 2⟩ : Chain).Pair := by
      show (wiov.take 2).length = 2
      rw [length_take, hlen]
      rfl
    have hring := (inv.rings id).limit (chainSize wiov)
    rw [hleft id] at hring
    dsimp only
    generalize hr : (s.rings id).limit (chainSize wiov) = ring at hring ⊢
    have hsame : ring.gotLog = (s.rings id).gotLog ∧ ring.published = (s.rings id).published ∧
        ring.putLog = (s.rings id).putLog := by
      rw [← hr]
      unfold KvecRing.limit
      split <;> exact ⟨rfl, rfl, rfl⟩
    refine ⟨fun id' => ?_, ?_, ?_, inv.used.frame rfl rfl rfl, ?_⟩
    · by_cases h : id' = id
      · subst h
        simp only [setRing_self, left, if_true]
        exact hring.put hnum hpair
      · have hne : ¬ id = id' := fun heq => h heq.symm
        simp only [setRing_of_ne s h, left, if_neg hne]
        rw [← hleft id']
        exact inv.rings id'
    · show _ ∧ _
      simp only [setRing_self]
      refine ⟨by simp [peerKvecs], fun _ => ?_⟩
      have hstored := hring.stored_length
      rw [hring.putCnt, hnum.counterToIdx, ← hstored, length_nil, add_zero]
    · refine inv.fetcher.frame rfl (fun id' => ?_) (fun id' => ?_) fun id' => ?_
      all_goals
        by_cases h : id' = id
        · subst h
          simp [hsame]
        · simp [setRing_of_ne s h]
    · refine ⟨nodup_cons.mpr ⟨hfree, inv.credit.nodup⟩, hcredit, ?_⟩
      -- the new head is in the ring it was put into
      have hle : ring.gotLog.length ≤ ring.putLog.length :=
        le_trans hring.got_le hring.published_le_put
      have hunf : ring.unfetched = (s.rings id).unfetched := by
        unfold KvecRing.unfetched
        rw [hsame.1, hsame.2.2]
      have hsum := sum_setRing s id
        { ring with
          putCnt := u16 (kvecCounterAdd ring.putCnt 2 num)
          putLog := ring.putLog ++ [⟨head, wiov.take 2⟩] } 0 {head}
        (by rw [unfetched_put hle, hunf, ← Multiset.coe_add, Multiset.coe_singleton, add_zero])
      rw [add_zero] at hsum
      show ((head :: s.outstanding : List Nat) : Multiset Nat) =
        ∑ i, (((s.setRing id _).rings i).unfetched : Multiset Nat) + _ + _
      rw [hsum, ← Multiset.cons_coe, ← Multiset.singleton_add, inv.credit.places]
      simp only [setRing]
      ac_rfl

variable {id : Fin kvecBufNum}

theorem setRing {ring : KvecRing} {p : Poster}
    (hring : RingOk num ring (p.left id) (s.fetcher.cleared id))
    (hleft : ∀ id', id' ≠ id → p.left id' = s.poster.left id')
    (hposter : PosterOk num { s.setRing id ring with poster := p })
    (hgot : ring.gotLog = (s.rings id).gotLog) (hput : ring.putLog = (s.rings id).putLog)
    (hpublished : (s.rings id).published ≤ ring.published) :
    KvecInv num { s.setRing id ring with poster := p } := by
  have hrings : ∀ id', (s.setRing id ring).rings id' = if id' = id then ring else s.rings id' := by
    intro id'
    split
    · rename_i h
      rw [h, s.setRing_self]
    · rename_i h
      exact s.setRing_of_ne h ring
  refine ⟨fun id' => ?_, hposter, ?_, inv.used.frame rfl rfl rfl, ?_⟩
  · show RingOk num ((s.setRing id ring).rings id') (p.left id') (s.fetcher.cleared id')
    rw [hrings]
    split
    · rename_i h
      rw [h]
      exact hring
    · rename_i h
      rw [hleft id' h]
      exact inv.rings id'
  · refine inv.fetcher.frame rfl (fun id' => ?_) (fun id' => ?_) fun id' => ?_
    all_goals
      rw [show ({ s.setRing id ring with poster := p } : KvecState).rings = _ from funext hrings]
      dsimp only
      split
      · rename_i h
        subst h
        simp [hgot, hput, hpublished]
      · simp
  · refine inv.credit.frame rfl (fun id' => ?_) rfl rfl
    rw [show ({ s.setRing id ring with poster := p } : KvecState).rings = _ from funext hrings]
    dsimp only
    split
    · rename_i h
      subst h
      simp only [KvecRing.unfetched, hgot, hput]
    · rfl

/-- One slot of the `memcpy_toio` -/
theorem store (hnum : RingSize num) {idx : Nat}
    {slot : PeerKvec} {rest : List PeerKvec}
    (at_storing : s.poster = .storing id idx (slot :: rest) cntSize cntTotal) :
    KvecInv num (storeSlot s id idx slot rest cntSize cntTotal) := by
  have hposter := inv.poster
  unfold PosterOk at hposter
  rw [at_storing] at hposter
  obtain ⟨hshort, hidx⟩ := hposter
  have hidx := hidx (cons_ne_nil _ _)
  have hring := inv.rings id
  rw [show s.poster.left id = slot :: rest by rw [at_storing]; simp [left]] at hring
  unfold storeSlot
  refine inv.setRing ?_ (fun id' h => ?_) ?_ rfl rfl (Nat.le_refl _)
  · rw [hidx]
    simpa [left] using hring.store hnum (inv.credit.room id)
  · have hne : ¬ id = id' := fun heq => h heq.symm
    rw [at_storing]
    simp [left, hne]
  · simp only [PosterOk, setRing_self, length_append, length_singleton]
    refine ⟨Nat.le_of_succ_le hshort, fun hrest => ?_⟩
    -- the second slot of a chain follows the first
    have hstored := hring.stored_length
    have hone : rest.length = 1 := by
      have := length_pos_iff.mpr hrest
      simp only [length_cons] at hshort
      omega
    simp only [length_cons, hone] at hstored
    have heven : (s.rings id).storedLog.length = 2 * ((s.rings id).putLog.length - 1) := by omega
    rw [hidx, heven, hnum.succ_slot]

/-- `vop_kvec_buff_update_idx` for one ring -/
theorem updateIdx {n : Nat} {again : Bool}
    (at_publishing : s.poster = .publishing n cntSize cntTotal again) :
    KvecInv num (vopKvecBuffUpdateIdx s id cntSize cntTotal again) := by
  have hleft : ∀ id, s.poster.left id = [] := by
    intro id
    rw [at_publishing]
    rfl
  have hring := inv.rings id
  rw [hleft id] at hring
  unfold vopKvecBuffUpdateIdx
  dsimp only
  split
  · refine inv.setRing hring.publish (fun id' _ => (hleft id').symm) trivial rfl rfl ?_
    exact hring.published_le_put
  · exact inv.movePoster hleft (by intros; simp)

/-- **A step of the poster keeps the invariant.** -/
theorem posterStep (hnum : RingSize num) {s' : KvecState}
    (h : posterStep s = some s') : KvecInv num s' := by
  unfold Vop.posterStep at h
  split at h
  · rename_i at_storing
    cases h
    exact inv.store hnum at_storing
  · rename_i id _ cntSize cntTotal at_end
    cases h
    refine inv.movePoster (fun id' => ?_) ?_
    · rw [at_end]
      simp [left]
    · intros
      unfold countChain
      dsimp only
      split <;> simp
  · rename_i at_publishing
    have hleft : ∀ id, s.poster.left id = [] := by
      intro id
      rw [at_publishing]
      rfl
    split at h
    · cases h
      exact inv.updateIdx at_publishing
    · split at h
      all_goals
        cases h
        exact inv.movePoster hleft (by intros; simp)
  · cases h

end KvecInv

/-! ## Steps of the fetcher -/

namespace RingOk

variable {num : Nat} {ring : KvecRing} {left : List PeerKvec} {cleared : Nat}

theorem clearHead_iov (ring : KvecRing) (idx : Nat) :
    (fun i => ((ring.clearHead idx).buf i).iov) = fun i => (ring.buf i).iov := by
  funext i
  by_cases hi : i = idx
  · simp [KvecRing.clearHead, hi]
  · simp [KvecRing.clearHead, hi]

theorem clearHead_head (ring : KvecRing) (idx : Nat) :
    (fun i => ((ring.clearHead idx).buf i).head) =
      update (fun i => (ring.buf i).head) idx 0 :=
  comp_update PeerKvec.head ring.buf _ _

theorem clearHead_flags (ring : KvecRing) (idx i : Nat) :
    ((ring.clearHead idx).buf i).flags = (ring.buf i).flags := by
  by_cases hi : i = idx
  · simp [KvecRing.clearHead, hi]
  · simp [KvecRing.clearHead, hi]

theorem clearHead (ok : RingOk num ring left cleared) :
    RingOk num (ring.clearHead ((2 * ring.gotLog.length + cleared) % num)) left (cleared + 1) := by
  have hfits := ok.iovs.fits
  refine { ok with iovs := ?_, heads := ?_, flags := fun i => ?_ }
  · rw [clearHead_iov]
    exact ok.iovs
  · rw [clearHead_head]
    refine (ok.heads.advance (Nat.le_succ _)).update fun i hle hlt => ?_
    rw [length_map] at hlt hfits
    exact (slot_ne (Nat.lt_of_succ_le hle) (by omega)).symm
  · rw [clearHead_flags]
    exact ok.flags i

theorem read_head (ok : RingOk num ring left cleared) {k j : Nat}
    (hk : ring.putLog[k]? = some c) (hlt : k < ring.published) (hj : j < 2)
    (hle : 2 * ring.gotLog.length + cleared ≤ 2 * k + j) :
    (ring.buf ((2 * k + j) % num)).head = c.head := by
  have hpair : c.slots.length = 2 := (ok.pairs c (mem_of_getElem? hk)).slots_length
  have hget := ok.stored_getElem? hk hlt hj
  rw [List.getElem?_eq_getElem (show j < c.slots.length by omega)] at hget
  refine ok.heads.read hle ?_
  rw [List.getElem?_map, hget]
  simp [Chain.slots]

theorem read_iovs (hnum : RingSize num) (ok : RingOk num ring left cleared) {k : Nat}
    (hle : ring.gotLog.length ≤ k) (hk : ring.putLog[k]? = some c) (hlt : k < ring.published) :
    ((List.range 2).map fun i => (ring.buf (2 * k % num + i)).iov) = c.iovs := by
  obtain ⟨v₀, v₁, hiovs⟩ := length_eq_two.mp (ok.pairs c (mem_of_getElem? hk))
  have hslots : c.slots = [⟨v₀, c.head, 0⟩, ⟨v₁, c.head, 0⟩] := by
    simp [Chain.slots, hiovs]
  have h₀ := ok.stored_getElem? hk hlt (j := 0) (by decide)
  have h₁ := ok.stored_getElem? hk hlt (j := 1) (by decide)
  rw [hslots] at h₀ h₁
  have hread₀ : (ring.buf (2 * k % num)).iov = v₀ :=
    ok.iovs.read (by omega) (by rw [List.getElem?_map]; exact congrArg _ h₀)
  have hread₁ : (ring.buf ((2 * k + 1) % num)).iov = v₁ :=
    ok.iovs.read (by omega) (by rw [List.getElem?_map]; exact congrArg _ h₁)
  rw [hnum.succ_slot] at hread₁
  simp [range_succ, hiovs, hread₀, hread₁]

theorem take_buf (item : Fetched) (i : Nat) :
    ((ring.take num item).buf i).iov = (ring.buf i).iov ∧
      ((ring.take num item).buf i).head = (ring.buf i).head := by
  unfold KvecRing.take
  by_cases hi : i = item.kvecTo
  · simp [hi]
  · simp [hi]

theorem take (hnum : RingSize num) (ok : RingOk num ring left 2)
    (hc : ring.putLog[ring.gotLog.length]? = some c) (hlt : ring.gotLog.length < ring.published)
    {id : Fin kvecBufNum} :
    RingOk num (ring.take num ⟨id, c.head, 2, 2 * ring.gotLog.length % num, c.iovs⟩) left 0 := by
  have hlen : (ring.take num ⟨id, c.head, 2, 2 * ring.gotLog.length % num, c.iovs⟩).gotLog.length =
      ring.gotLog.length + 1 := by
    simp [KvecRing.take]
  refine
    { ok with
      lastCnt := ?_
      got_le := ?_
      iovs := ?_
      heads := ?_
      flags := fun i => ?_
      got := ?_
      items := ?_ }
  · rw [hlen]
    simp only [KvecRing.take]
    rw [ok.lastCnt, hnum.counterAdd]
    rfl
  · rw [hlen]
    exact hlt
  · simp only [hlen, take_buf]
    exact ok.iovs.advance (by omega)
  · simp only [hlen, take_buf]
    exact ok.heads
  · by_cases hi : i = 2 * ring.gotLog.length % num
    · simp only [KvecRing.take, hi, update_self]
      decide
    · simp only [KvecRing.take, update_of_ne hi]
      exact ok.flags i
  · simp only [KvecRing.take, map_append]
    exact prefix_snoc ok.got (by rw [length_map]; exact hc)
  · intro item hitem
    rcases mem_append.mp hitem with hitem | hitem
    · exact ok.items item hitem
    · rw [mem_singleton.mp hitem]
      exact ⟨rfl, hnum.succ_slot_lt _⟩

theorem unfetched_take (hc : ring.putLog[ring.gotLog.length]? = some c)
    {item : Fetched} : ring.unfetched = c.head :: (ring.take num item).unfetched := by
  obtain ⟨hi, hget⟩ := List.getElem?_eq_some_iff.mp hc
  unfold KvecRing.unfetched KvecRing.take
  rw [drop_eq_getElem_cons hi, hget, map_cons, length_append]
  rfl

end RingOk

namespace KvecInv

variable {num : Nat} {s : KvecState} (inv : KvecInv num s)

include inv

theorem moveFetcher {f : Fetcher} (hcleared : ∀ id, s.fetcher.cleared id = 0)
    (hf : ∀ id, f.cleared id = 0) (hfetcher : FetcherOk num { s with fetcher := f }) :
    KvecInv num { s with fetcher := f } where
  rings id := by
    show RingOk num (s.rings id) _ (f.cleared id)
    rw [hf, ← hcleared id]
    exact inv.rings id
  poster := inv.poster
  fetcher := hfetcher
  used := inv.used.frame rfl rfl rfl
  credit := inv.credit.frame rfl (fun _ => rfl) rfl rfl

theorem fetch {id : Fin kvecBufNum} {ring : KvecRing} {f : Fetcher}
    {items : List Fetched} (hring : RingOk num ring (s.poster.left id) (f.cleared id))
    (hcleared : ∀ id', id' ≠ id → f.cleared id' = s.fetcher.cleared id')
    (hstored : ring.storedLog = (s.rings id).storedLog)
    (hfetcher : FetcherOk num { s.setRing id ring with fetcher := f, items := items })
    (hcredit : CreditOk num { s.setRing id ring with fetcher := f, items := items }) :
    KvecInv num { s.setRing id ring with fetcher := f, items := items } where
  rings id' := by
    show RingOk num ((s.setRing id ring).rings id') (s.poster.left id') (f.cleared id')
    by_cases h : id' = id
    · rw [h, s.setRing_self]
      exact hring
    · rw [s.setRing_of_ne h, hcleared id' h]
      exact inv.rings id'
  poster := by
    refine inv.poster.frame rfl fun id' => ?_
    show ((s.setRing id ring).rings id').storedLog = _
    by_cases h : id' = id
    · rw [h, s.setRing_self, hstored]
    · rw [s.setRing_of_ne h]
  fetcher := hfetcher
  used := inv.used.frame rfl rfl rfl
  credit := hcredit

theorem credit_clearHead (id : Fin kvecBufNum) (idx : Nat) (f : Fetcher) :
    CreditOk num { s.setRing id ((s.rings id).clearHead idx) with fetcher := f } := by
  refine inv.credit.frame rfl (fun id' => ?_) rfl rfl
  show ((s.setRing id ((s.rings id).clearHead idx)).rings id').unfetched = _
  by_cases h : id' = id
  · rw [h, s.setRing_self]
    rfl
  · rw [s.setRing_of_ne h]

theorem next_chain {id : Fin kvecBufNum} {k : Nat}
    (hlt : k < (s.rings id).published) : ∃ c, (s.rings id).putLog[k]? = some c :=
  ⟨_, List.getElem?_eq_getElem (lt_of_lt_of_le hlt (inv.rings id).published_le_put)⟩

theorem readFirst (hnum : RingSize num) {id : Fin kvecBufNum}
    (at_nonempty : s.fetcher = .nonempty id) : KvecInv num (readFirst num s id) := by
  have hlt : (s.rings id).gotLog.length < (s.rings id).published := by
    have hfetcher := inv.fetcher
    unfold FetcherOk at hfetcher
    rw [at_nonempty] at hfetcher
    exact hfetcher
  have hcleared : ∀ id, s.fetcher.cleared id = 0 := by
    intro id
    rw [at_nonempty]
    rfl
  have hring := inv.rings id
  rw [hcleared id] at hring
  have hfirst : u16 ((s.rings id).lastCnt % num) = 2 * (s.rings id).gotLog.length % num := by
    rw [hring.lastCnt, counter_mod_slot, hnum.u16_slot]
  obtain ⟨c, hc⟩ := inv.next_chain hlt
  have hhead := hring.read_head hc hlt (j := 0) (by decide) (le_refl _)
  unfold Vop.readFirst
  simp only [hfirst]
  refine inv.fetch ?_ (fun id' h => ?_) rfl ?_ (inv.credit_clearHead id _ _)
  · simpa [cleared] using hring.clearHead
  · have hne : ¬ id = id' := fun heq => h heq.symm
    simp [cleared, hne, at_nonempty]
  · simp only [FetcherOk, setRing_self, KvecRing.clearHead]
    refine ⟨_, hring.cnt, hlt, le_refl _, trivial, ?_, .inl trivial, ?_⟩
    · unfold kvecCounterToIdx
      rw [hnum.u16_slot, hring.lastCnt, Nat.add_mod, counter_mod_slot, ← Nat.add_mod]
    · rw [hc, Option.map_some]
      exact congrArg some hhead.symm

theorem next_head_ne {id : Fin kvecBufNum} {c d : Chain}
    (hc : (s.rings id).putLog[(s.rings id).gotLog.length]? = some c)
    (hd : (s.rings id).putLog[(s.rings id).gotLog.length + 1]? = some d) : c.head ≠ d.head := by
  have hnodup := inv.credit.unfetched_nodup id
  unfold KvecRing.unfetched at hnodup
  obtain ⟨hlt, hget⟩ := List.getElem?_eq_some_iff.mp hd
  rw [drop_eq_getElem_cons (by omega), drop_eq_getElem_cons hlt, hget,
    (List.getElem?_eq_some_iff.mp hc).2] at hnodup
  intro heq
  simp [heq] at hnodup

theorem finishGet (hnum : RingSize num) {id : Fin kvecBufNum}
    {availCnt nextIdx : Nat} (at_adjacent : s.fetcher = .adjacent id availCnt
      (2 * (s.rings id).gotLog.length % num) 2 nextIdx c.head)
    (hlt : (s.rings id).gotLog.length < (s.rings id).published)
    (hc : (s.rings id).putLog[(s.rings id).gotLog.length]? = some c) :
    KvecInv num (finishGet num s id (2 * (s.rings id).gotLog.length % num) 2 c.head) := by
  have hring := inv.rings id
  have hcleared : s.fetcher.cleared id = 2 := by
    rw [at_adjacent]
    simp [cleared]
  rw [hcleared] at hring
  have hiovs := hring.read_iovs hnum (le_refl _) hc hlt
  unfold Vop.finishGet
  rw [hiovs]
  refine inv.fetch (hring.take hnum hc hlt) (fun id' h => ?_) rfl trivial ?_
  · have hne : ¬ id = id' := fun heq => h heq.symm
    simp [cleared, hne, at_adjacent]
  · refine ⟨inv.credit.nodup, inv.credit.bound, ?_⟩
    -- the head moves from the ring to the items
    have hsum := sum_setRing s id ((s.rings id).take num
      ⟨id, c.head, 2, 2 * (s.rings id).gotLog.length % num, c.iovs⟩) {c.head} 0 (by
        rw [RingOk.unfetched_take hc, ← Multiset.cons_coe, ← Multiset.singleton_add, add_zero, add_comm])
    rw [add_zero] at hsum
    show (s.outstanding : Multiset Nat) =
      _ + ((s.items ++ [_]).map headTo : Multiset Nat) + _
    rw [inv.credit.places, ← hsum, map_append, ← Multiset.coe_add]
    simp only [map_cons, map_nil, Multiset.coe_singleton]
    ac_rfl

/-- **The loop over adjacent slots takes exactly the two slots of a chain.** -/
theorem readAdjacent (hnum : RingSize num) {id : Fin kvecBufNum}
    {availCnt first cnt nextIdx head : Nat}
    (at_adjacent : s.fetcher = .adjacent id availCnt first cnt nextIdx head) :
    KvecInv num (readAdjacent num s id availCnt first cnt nextIdx head) := by
  have hfetcher := inv.fetcher
  unfold FetcherOk at hfetcher
  rw [at_adjacent] at hfetcher
  obtain ⟨avail, rfl, hlt, hle, rfl, rfl, hcnt, hhead⟩ := hfetcher
  obtain ⟨c, hc, rfl⟩ := Option.map_eq_some_iff.mp hhead
  have hring := inv.rings id
  rw [show s.fetcher.cleared id = cnt by rw [at_adjacent]; simp [cleared]] at hring
  have htwo := hnum.two_le
  have hroom := inv.credit.room id
  have hput := hring.published_le_put
  unfold Vop.readAdjacent kvecCounterEq
  simp only [hring.lastCnt, Nat.mod_add_mod, Nat.mod_mod]
  rcases hcnt with rfl | rfl
  · -- after the first slot: the second one has the same head
    have hsecond := hring.read_head hc (Nat.lt_of_lt_of_le hlt hle) (j := 1) (by decide)
      (Nat.le_refl _)
    have hmore : ¬ (2 * (s.rings id).gotLog.length + 1) % (2 * num) = 2 * avail % (2 * num) := by
      rw [counter_eq_iff (by omega) (by omega)]
      omega
    rw [if_pos ⟨hmore, hsecond.symm, htwo⟩]
    refine inv.fetch ?_ (fun id' h => ?_) rfl ?_ (inv.credit_clearHead id _ _)
    · simpa [cleared, u16] using hring.clearHead
    · have hne : ¬ id = id' := fun heq => h heq.symm
      simp [cleared, hne, at_adjacent]
    · simp only [FetcherOk, setRing_self, KvecRing.clearHead]
      refine ⟨avail, rfl, hlt, hle, trivial, ?_, .inr rfl, hhead⟩
      unfold kvecCounterToIdx
      rw [hnum.u16_slot, Nat.mod_add_mod]
      rfl
  · -- after the second slot: either nothing more is published, or the next head is another one
    rw [if_neg]
    · exact inv.finishGet hnum at_adjacent (Nat.lt_of_lt_of_le hlt hle) hc
    · rintro ⟨hmore, hsame, -⟩
      have hnext : (s.rings id).gotLog.length + 1 < avail := by
        rcases Nat.lt_or_eq_of_le (Nat.succ_le_of_lt hlt) with h | h
        · exact h
        · rw [← h] at hmore
          exact absurd rfl hmore
      obtain ⟨d, hd⟩ := inv.next_chain (Nat.lt_of_lt_of_le hnext hle)
      have hother := hring.read_head hd (Nat.lt_of_lt_of_le hnext hle) (j := 0) (by decide)
        (Nat.le_refl _)
      exact inv.next_head_ne hc hd (hsame.trans hother)

/-- **A step of the fetcher keeps the invariant.** -/
theorem fetcherStep (hnum : RingSize num) {s' : KvecState}
    (h : fetcherStep num s = some s') : KvecInv num s' := by
  unfold Vop.fetcherStep at h
  cases hf : s.fetcher with
  | idle =>
    rw [hf] at h
    cases h
  | skipping id =>
    rw [hf] at h
    cases h
    -- no slot is cancelled
    unfold skipCancelled
    rw [if_neg fun hcancelled => hcancelled.2 ((inv.rings id).flags _)]
    exact inv.moveFetcher (fun id => by rw [hf]; rfl) (fun _ => rfl) trivial
  | checking id =>
    rw [hf] at h
    dsimp only at h
    split at h
    · cases h
      exact inv.moveFetcher (fun id => by rw [hf]; rfl) (fun _ => rfl) trivial
    · rename_i hne
      cases h
      refine inv.moveFetcher (fun id => by rw [hf]; rfl) (fun _ => rfl) ?_
      show (s.rings id).gotLog.length < (s.rings id).published
      refine lt_of_le_of_ne (inv.rings id).got_le fun heq => hne ?_
      rw [(inv.rings id).lastCnt, (inv.rings id).cnt, heq]
  | nonempty id =>
    rw [hf] at h
    cases h
    exact inv.readFirst hnum hf
  | adjacent id availCnt first cnt nextIdx head =>
    rw [hf] at h
    cases h
    exact inv.readAdjacent hnum hf

end KvecInv

/-! ## Steps of the completer and the consumer -/

namespace KvecInv

variable {num : Nat} {s : KvecState} (inv : KvecInv num s)

include inv

/-- `vop_kvec_used` stores an entry. -/
theorem used_store (hnum : RingSize num) {k : Nat} {item : Fetched}
    {bytesWritten : Nat} (at_idle : s.completer = .idle) (hitem : s.items[k]? = some item) :
    KvecInv num (vopKvecUsed num s k item bytesWritten) := by
  have htwo := hnum.two_le
  have hroom := inv.credit.used_room
  have hcnt := inv.used.usedCnt
  have hle := inv.used.consumed_le
  simp only [at_idle, pending, add_zero] at hcnt hle
  unfold vopKvecUsed
  refine ⟨inv.rings, inv.poster, inv.fetcher, ?_, inv.credit.nodup, inv.credit.bound, ?_⟩
  · refine
      { pending := ?_
        counted := inv.used.counted
        usedCnt := ?_
        cnt := inv.used.cnt
        lastCnt := inv.used.lastCnt
        consumed := inv.used.consumed.trans (prefix_append _ _)
        consumed_le := ?_
        window := ?_ }
    · simp [pending]
    · simp only [pending, length_append, length_singleton]
      exact hcnt
    · simp only [pending, length_append, length_singleton]
      omega
    · dsimp only
      rw [hcnt, hnum.counterToIdx]
      exact inv.used.window.push (by omega) _
  · -- the head moves from the items to the used ring
    have hlt := (List.getElem?_eq_some_iff.mp hitem).1
    have hitems : (s.items.map headTo : Multiset Nat) =
        {item.headTo} + ((s.items.eraseIdx k).map headTo : Multiset Nat) := by
      rw [Multiset.singleton_add, Multiset.cons_coe, Multiset.coe_eq_coe, ← map_cons,
        ← (List.getElem?_eq_some_iff.mp hitem).2]
      exact ((getElem_cons_eraseIdx_perm hlt).map _).symm
    have hused : (s.usedRing.unconsumed : Multiset Nat) + {item.headTo} =
        (unconsumed { s.usedRing with
          buf := update s.usedRing.buf
            (u16 (kvecCounterToIdx s.usedRing.usedCnt num)) ⟨bytesWritten, item.headTo⟩
          usedLog := s.usedRing.usedLog ++ [⟨bytesWritten, item.headTo⟩] } : Multiset Nat) := by
      unfold unconsumed
      rw [drop_append_of_le_length hle, map_append, ← Multiset.coe_add]
      rfl
    dsimp only
    rw [inv.credit.places, hitems, ← hused]
    ac_rfl

/-- `vop_kvec_used` publishes the counter. -/
theorem used_publish (hnum : RingSize num) (at_stored : s.completer = .stored) :
    KvecInv num (publishUsed num s) := by
  have hpending := inv.used.pending
  have hcnt := inv.used.usedCnt
  have hle := inv.used.consumed_le
  simp only [at_stored, pending] at hpending hcnt hle
  refine ⟨inv.rings, inv.poster, inv.fetcher, ?_, inv.credit.frame rfl (fun _ => rfl) rfl rfl⟩
  exact
    { inv.used with
      pending := Nat.zero_le _
      usedCnt := by
        simp only [publishUsed, hcnt, pending]
        rw [hnum.counterAdd]
        congr 1
        omega
      cnt := rfl
      consumed_le := by
        simp only [publishUsed, pending]
        omega }

/-- `vop_kvec_buf_consume` completes the next entry. -/
theorem consume (at_idle : s.consumer = .idle)
    (hne : s.usedRing.cnt ≠ s.usedRing.lastCnt) : KvecInv num (vopKvecBufConsume num s) := by
  have hroom := inv.credit.used_room
  have hle := inv.used.consumed_le
  have hlast := inv.used.lastCnt
  simp only [at_idle, Consumer.pending, Nat.sub_zero] at hlast
  -- some published entry is not yet consumed
  have hlt : s.usedRing.consumedLog.length + s.completer.pending < s.usedRing.usedLog.length := by
    refine Nat.lt_of_le_of_ne hle fun heq => hne ?_
    rw [inv.used.cnt, inv.used.usedCnt, hlast, ← heq, Nat.add_sub_cancel]
  obtain ⟨kiov, hkiov⟩ : ∃ kiov, s.usedRing.usedLog[s.usedRing.consumedLog.length]? = some kiov :=
    ⟨_, List.getElem?_eq_getElem (by omega)⟩
  have hread : s.usedRing.buf (kvecCounterToIdx s.usedRing.lastCnt num) = kiov := by
    unfold kvecCounterToIdx
    rw [hlast, counter_mod_slot]
    exact inv.used.window.read (Nat.le_refl _) hkiov
  have hdrop : s.usedRing.unconsumed = kiov.head ::
      (s.usedRing.usedLog.drop (s.usedRing.consumedLog.length + 1)).map PeerUsedKiov.head := by
    obtain ⟨hi, hget⟩ := List.getElem?_eq_some_iff.mp hkiov
    unfold unconsumed
    rw [drop_eq_getElem_cons hi, hget, map_cons]
  unfold vopKvecBufConsume
  simp only [hread]
  refine ⟨inv.rings, inv.poster, inv.fetcher, ?_, inv.credit.nodup.erase _, ?_, ?_⟩
  · exact
      { pending := inv.used.pending
        counted := by simp [Consumer.pending]
        usedCnt := inv.used.usedCnt
        cnt := inv.used.cnt
        lastCnt := by simpa [Consumer.pending] using hlast
        consumed := prefix_snoc inv.used.consumed hkiov
        consumed_le := by
          simp only [length_append, length_singleton]
          omega
        window := by
          simp only [length_append, length_singleton]
          exact inv.used.window.advance (Nat.le_succ _) }
  · exact Nat.le_trans length_erase_le inv.credit.bound
  · -- the completed head is no longer outstanding
    rw [← Multiset.coe_erase, inv.credit.places, hdrop, ← Multiset.cons_coe, Multiset.add_cons,
      Multiset.erase_cons_head]
    simp [unconsumed]

/-- `vop_kvec_buf_consume` advances its counter. -/
theorem consume_advance (hnum : RingSize num)
    (at_completed : s.consumer = .completed) : KvecInv num (advanceConsumed num s) := by
  have hcounted := inv.used.counted
  have hlast := inv.used.lastCnt
  simp only [at_completed, Consumer.pending] at hcounted hlast
  refine ⟨inv.rings, inv.poster, inv.fetcher, ?_, inv.credit.frame rfl (fun _ => rfl) rfl rfl⟩
  exact
    { inv.used with
      counted := Nat.zero_le _
      lastCnt := by
        simp only [advanceConsumed, hlast, Consumer.pending]
        rw [hnum.counterAdd]
        congr 1
        omega }

end KvecInv

/-! ## Runs -/

theorem KvecInv.initial (num : Nat) : KvecInv num KvecState.initial where
  rings id :=
    { pairs := by simp [KvecState.initial]
      log := rfl
      putCnt := (Nat.zero_mod _).symm
      cnt := (Nat.zero_mod _).symm
      lastCnt := (Nat.zero_mod _).symm
      got_le := Nat.le_refl _
      published_le := Nat.le_refl _
      iovs := Window.empty _ _
      heads := Window.empty _ _
      flags := fun _ => by simp [KvecState.initial]
      got := prefix_rfl
      items := by simp [KvecState.initial] }
  poster := trivial
  fetcher := trivial
  used :=
    { pending := Nat.le_refl _
      counted := Nat.le_refl _
      usedCnt := (Nat.zero_mod _).symm
      cnt := rfl
      lastCnt := (Nat.zero_mod _).symm
      consumed := prefix_rfl
      consumed_le := Nat.le_refl _
      window := Window.empty _ _ }
  credit :=
    { nodup := nodup_nil
      bound := Nat.zero_le _
      places := by simp [KvecState.initial, KvecRing.unfetched, UsedKiovRing.unconsumed] }

/-- **Every step keeps the invariant.** -/
theorem KvecInv.step (hnum : RingSize num) {s s' : KvecState} {a : KvecAct}
    (inv : KvecInv num s) (hguard : ChainOk num s a s') (h : kvecStep num s a = some s') :
    KvecInv num s' := by
  cases a with
  | update =>
    simp only [kvecStep] at h
    split at h
    · rename_i at_idle
      cases h
      exact inv.movePoster (fun id => by rw [at_idle]; rfl) (by intros; simp)
    · cases h
  | put head wiov =>
    simp only [kvecStep] at h
    split at h
    · rename_i at_fetching
      cases h
      obtain ⟨hlen, -, hfree, hcredit⟩ := hguard
      exact inv.put hnum at_fetching hlen hfree hcredit
    · cases h
  | queueEmpty =>
    simp only [kvecStep] at h
    split at h
    · rename_i at_fetching
      cases h
      exact inv.movePoster (fun id => by rw [at_fetching]; rfl) (by intros; simp)
    · cases h
  | poster => exact inv.posterStep hnum h
  | get id =>
    simp only [kvecStep] at h
    split at h
    · rename_i at_idle
      cases h
      exact inv.moveFetcher (fun id => by rw [at_idle]; rfl) (fun _ => rfl) trivial
    · cases h
  | fetcher => exact inv.fetcherStep hnum h
  | used k bytesWritten =>
    simp only [kvecStep] at h
    split at h
    · rename_i at_idle hitem
      cases h
      exact inv.used_store hnum at_idle hitem
    · cases h
  | completer =>
    simp only [kvecStep] at h
    split at h
    · rename_i at_stored
      cases h
      exact inv.used_publish hnum at_stored
    · cases h
  | consume =>
    simp only [kvecStep] at h
    split at h
    · rename_i at_idle
      split at h
      · rename_i hne
        cases h
        exact inv.consume at_idle hne
      · cases h
    · cases h
  | consumer =>
    simp only [kvecStep] at h
    split at h
    · rename_i at_completed
      cases h
      exact inv.consume_advance hnum at_completed
    · cases h

theorem kvecInv_of_reachBy (hnum : RingSize num) {s : KvecState}
    (h : (kvecSystem num).ReachBy (ChainOk num) s) : KvecInv num s := by
  refine System.ReachBy.invariant (I := KvecInv num) ?_ ?_ h
  · intro s hinit
    rw [show s = initial from hinit]
    exact KvecInv.initial num
  · intro s a s' inv hguard hstep
    exact inv.step hnum hguard hstep

structure KvecFifo (num : Nat) (s : KvecState) : Prop where
  /-- The chains fetched from a ring are the first ones put into it, in order -/
  fetched : ∀ id, (s.rings id).gotLog.map Fetched.chain <+: (s.rings id).putLog
  /-- An item has two slots, next to each other in the buffer -/
  contiguous : ∀ id, ∀ item ∈ (s.rings id).gotLog, item.numKvecsTo = 2 ∧ item.kvecTo + 1 < num
  /-- The poster does not store into the slots of an earlier chain that is not yet fetched -/
  no_overwrite : ∀ id idx slot rest cntSize cntTotal,
    s.poster = .storing id idx (slot :: rest) cntSize cntTotal →
      ∀ k, (s.rings id).gotLog.length ≤ k → k + 1 < (s.rings id).putLog.length →
        idx ≠ 2 * k % num ∧ idx ≠ 2 * k % num + 1
  /-- A published chain stays in its slots until it is fetched -/
  kept : ∀ id k c, (s.rings id).gotLog.length ≤ k → k < (s.rings id).published →
    (s.rings id).putLog[k]? = some c →
      ((List.range 2).map fun i => ((s.rings id).buf (2 * k % num + i)).iov) = c.iovs
  /-- The chains are completed as they were returned, in order -/
  consumed : s.usedRing.consumedLog <+: s.usedRing.usedLog

theorem KvecInv.no_overwrite (hnum : RingSize num) {s : KvecState}
    (inv : KvecInv num s) {id : Fin kvecBufNum} {idx : Nat} {slot : PeerKvec}
    {rest : List PeerKvec} {cntSize : Fin kvecBufNum → Nat} {cntTotal : Nat}
    (at_storing : s.poster = .storing id idx (slot :: rest) cntSize cntTotal) {k : Nat}
    (hle : (s.rings id).gotLog.length ≤ k) (hlt : k + 1 < (s.rings id).putLog.length) :
    idx ≠ 2 * k % num ∧ idx ≠ 2 * k % num + 1 := by
  have hposter := inv.poster
  unfold PosterOk at hposter
  rw [at_storing] at hposter
  obtain ⟨hshort, hidx⟩ := hposter
  have hstored := (inv.rings id).stored_length
  rw [show s.poster.left id = slot :: rest by rw [at_storing]; simp [left]] at hstored
  have hroom := inv.credit.room id
  have heven := Nat.mul_div_cancel' hnum.even
  simp only [length_cons] at hstored hshort
  -- the poster is past the chain, but not by a whole round
  rw [hidx (cons_ne_nil _ _), ← hnum.succ_slot]
  exact ⟨(slot_ne (by omega) (by omega)).symm, (slot_ne (by omega) (by omega)).symm⟩

/-- **The receive rings are first-in first-out**, in every interleaving of the four parties. -/
theorem kvecFifo {num : Nat} (hpow : ∃ k, num = 2 ^ k) (two_le : 2 ≤ num) (le : num ≤ 1024)
    {s : KvecState} (h : (kvecSystem num).ReachBy (ChainOk num) s) : KvecFifo num s := by
  have hnum := RingSize.of_pow hpow two_le le
  have inv := kvecInv_of_reachBy hnum h
  exact
    { fetched := fun id => (inv.rings id).got
      contiguous := fun id => (inv.rings id).items
      no_overwrite := fun _ _ _ _ _ _ at_storing _ hle hlt =>
        inv.no_overwrite hnum at_storing hle hlt
      kept := fun id _ _ hle hlt hk => (inv.rings id).read_iovs hnum hle hk hlt
      consumed := inv.used.consumed }

/-- Two chains on their way through rings of four slots; the second one is returned first. -/
def kvecRoundTrip : List KvecAct :=
  [.update, .put 3 [⟨4096, 12⟩, ⟨8192, 2000⟩], .poster, .poster, .poster,
    .put 1 [⟨4096, 12⟩, ⟨12288, 2000⟩], .poster, .poster, .poster, .queueEmpty, .poster, .poster,
    .get ⟨0, kvecBufNum_pos⟩, .fetcher, .fetcher, .fetcher, .poster, .fetcher, .fetcher,
    .get ⟨0, kvecBufNum_pos⟩, .fetcher, .fetcher, .fetcher, .fetcher, .fetcher,
    .used 1 60, .completer, .used 0 1514, .completer, .consume, .consumer, .consume, .consumer]

theorem kvecFifo_roundTrip : ∃ s, (kvecSystem 4).ReachBy (ChainOk 4) s ∧
    (s.rings ⟨0, by decide⟩).gotLog.map Fetched.chain =
      [⟨3, [⟨4096, 12⟩, ⟨8192, 2000⟩]⟩, ⟨1, [⟨4096, 12⟩, ⟨12288, 2000⟩]⟩] ∧
    s.usedRing.consumedLog = [⟨60, 1⟩, ⟨1514, 3⟩] ∧ s.outstanding = [] ∧ KvecFifo 4 s := by
  obtain ⟨s, hrun, hgot, hconsumed, hout⟩ : ∃ s,
      (kvecSystem 4).runBy (ChainOk 4) KvecState.initial kvecRoundTrip = some s ∧
      (s.rings ⟨0, by decide⟩).gotLog.map Fetched.chain =
        [⟨3, [⟨4096, 12⟩, ⟨8192, 2000⟩]⟩, ⟨1, [⟨4096, 12⟩, ⟨12288, 2000⟩]⟩] ∧
      s.usedRing.consumedLog = [⟨60, 1⟩, ⟨1514, 3⟩] ∧ s.outstanding = [] := ⟨_, rfl, rfl, rfl, rfl⟩
  have hreach := System.reachBy_of_runBy (.init rfl) kvecRoundTrip hrun
  exact ⟨s, hreach, hgot, hconsumed, hout, kvecFifo ⟨2, rfl⟩ (by decide) (by decide) hreach⟩

end Vcass.Vop
