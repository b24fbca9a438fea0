import Mathlib.Algebra.Order.BigOperators.Group.List
import Vcass.VirtioNet.ReceiveQueue

/-!
# Counting Receive Buffers

`num`, `num_big` and `num_jumbo` are meant to be the numbers of buffers posted.  `num` is.  The other
two are the numbers posted and, added to that, the large buffers that came back with a packet shorter
than its headers: `receive_buf` frees such a buffer without counting it down.

The refill condition of `virtnet_poll` subtracts the limits of the large buffers from `num`, not
their counters.  The difference wraps around when `num` is below the limits.
-/

namespace Vcass.VirtioNet

open Vcass.Core List ReceiveQueue

/-! ## Counters of large buffers -/

namespace ReceiveQueue

def counter (rq : ReceiveQueue) : SizeType → UInt32
  | .big => rq.numBig
  | .jumbo => rq.numJumbo
  | .normal => 0

def limit (rq : ReceiveQueue) : SizeType → UInt32
  | .big => rq.maxBig
  | .jumbo => rq.maxJumbo
  | .normal => 0

def postedOf (rq : ReceiveQueue) (t : SizeType) : Nat := rq.posted.countP (·.sizeType = t)

/-- The queue with one more buffer in its virtqueue -/
def push (rq : ReceiveQueue) (b : RecvBuf) : ReceiveQueue :=
  { rq with posted := rq.posted ++ [b], numFree := rq.numFree - b.descs }

section

variable (rq : ReceiveQueue) (t : SizeType)

@[simp] theorem countUp_num : (rq.countUp t).num = rq.num := by cases t <;> rfl

@[simp] theorem countUp_max : (rq.countUp t).max = rq.max := by cases t <;> rfl

@[simp] theorem countUp_posted : (rq.countUp t).posted = rq.posted := by cases t <;> rfl

@[simp] theorem countUp_numFree : (rq.countUp t).numFree = rq.numFree := by cases t <;> rfl

@[simp] theorem countUp_limit : (rq.countUp t).limit = rq.limit := by cases t <;> rfl

theorem countUp_counter {t' : SizeType} (ht' : t' ≠ .normal) :
    (rq.countUp t).counter t' = if t = t' then rq.counter t' + 1 else rq.counter t' := by
  cases t <;> cases t' <;> first | rfl | exact absurd rfl ht'

end

@[simp]
theorem counter_setNum (rq : ReceiveQueue) (n : UInt32) (t : SizeType) :
    ({ rq with num := n } : ReceiveQueue).counter t = rq.counter t := by
  cases t <;> rfl

@[simp]
theorem limit_setNum (rq : ReceiveQueue) (n : UInt32) (t : SizeType) :
    ({ rq with num := n } : ReceiveQueue).limit t = rq.limit t := by
  cases t <;> rfl

end ReceiveQueue

/-- The packet is shorter than its headers. -/
def Short (hdrLen : Nat) (len : UInt32) : Prop := len.toNat < hdrLen + ethHlen

instance (hdrLen : Nat) (len : UInt32) : Decidable (Short hdrLen len) :=
  inferInstanceAs (Decidable (_ < _))

/-- The buffers of a kind that came back with a short packet -/
def shortOf (hdrLen : Nat) (completed : List (SizeType × UInt32)) (t : SizeType) : Nat :=
  completed.countP fun c => decide (c.1 = t ∧ Short hdrLen c.2)

structure QueueInv (s : ReceiveState) : Prop where
  num : s.rq.num.toNat = s.rq.posted.length
  descs : ∀ b ∈ s.rq.posted, 1 ≤ b.descs
  /-- the descriptors of the virtqueue -/
  size : (s.rq.posted.map RecvBuf.descs).sum + s.rq.numFree < 2 ^ 16
  max_lt : s.rq.max.toNat < 2 ^ 16
  large : ∀ t ≠ .normal, (s.rq.counter t).toNat =
    s.rq.postedOf t + shortOf s.hdrLen s.completed t
  limit : ∀ t ≠ .normal, s.rq.counter t ≤ s.rq.limit t

variable {s : ReceiveState}

theorem QueueInv.posted_lt (h : QueueInv s) : s.rq.posted.length + s.rq.numFree < 2 ^ 16 := by
  have hle : s.rq.posted.length ≤ (s.rq.posted.map RecvBuf.descs).sum := by
    have hone := length_le_sum_of_one_le (s.rq.posted.map RecvBuf.descs)
    rw [length_map] at hone
    apply hone
    intro n hn
    obtain ⟨b, hb, rfl⟩ := mem_map.mp hn
    exact h.descs b hb
  have hsize := h.size
  omega

theorem QueueInv.move (h : QueueInv s) (phase : Phase) : QueueInv { s with phase := phase } :=
  ⟨h.num, h.descs, h.size, h.max_lt, h.large, h.limit⟩

/-! ## Adding a buffer -/

theorem nextSize_limit (rq : ReceiveQueue) (h : rq.nextSize ≠ .normal) :
    rq.counter rq.nextSize < rq.limit rq.nextSize := by
  revert h
  rw [nextSize]
  split
  case isTrue hbig => exact fun _ => hbig
  case isFalse =>
    split
    case isTrue hjumbo => exact fun _ => hjumbo
    case isFalse => exact fun h => absurd rfl h

theorem addRecvbufSmall_cases (rq : ReceiveQueue) (e : AddAnswer) :
    (∃ err, err ≠ 0 ∧ addRecvbufSmall rq e = (rq, err)) ∨
      e.descs ≤ rq.numFree ∧
        addRecvbufSmall rq e =
          ((rq.push ⟨rq.nextSize, e.descs⟩).countUp rq.nextSize, 0) := by
  simp only [addRecvbufSmall, vcaVirtqueueAddInbuf]
  split
  case isTrue => exact Or.inl ⟨-eNoMem, by decide, rfl⟩
  case isFalse =>
    split
    case isTrue => exact Or.inl ⟨-eIo, by decide, rfl⟩
    case isFalse hsg =>
      split
      case isTrue => exact Or.inl ⟨e.numSg, hsg, rfl⟩
      case isFalse =>
        split
        case isTrue => exact Or.inl ⟨-eIo, by decide, rfl⟩
        case isFalse =>
          split
          case isTrue => exact Or.inl ⟨-eNoSpc, by decide, rfl⟩
          case isFalse hfree =>
            split
            case isTrue => exact Or.inl ⟨-eNoMem, by decide, rfl⟩
            case isFalse => exact Or.inr ⟨Nat.le_of_not_lt hfree, rfl⟩

theorem QueueInv.add (h : QueueInv s) {e : AddAnswer}
    (hfree : e.descs ≤ s.rq.numFree) :
    QueueInv
      { s with
        rq :=
          { (s.rq.push ⟨s.rq.nextSize, e.descs⟩).countUp s.rq.nextSize with
            num := s.rq.num + 1 } } := by
  have hposted := h.posted_lt
  have hdescs : 1 ≤ e.descs := by
    rw [AddAnswer.descs]
    split <;> decide
  have hcounter : ∀ t ≠ .normal,
      (((s.rq.push ⟨s.rq.nextSize, e.descs⟩).countUp s.rq.nextSize).counter t).toNat =
        (s.rq.counter t).toNat + if s.rq.nextSize = t then 1 else 0 := by
    intro t ht
    rw [countUp_counter _ _ ht]
    split
    case isTrue hsize =>
      -- the counter is below its limit
      have hlt := nextSize_limit s.rq (hsize ▸ ht)
      rw [hsize, UInt32.lt_iff_toNat_lt] at hlt
      have hlimit := (s.rq.limit t).toNat_lt
      show (s.rq.counter t + 1).toNat = _
      rw [UInt32.toNat_add, UInt32.toNat_one]
      omega
    case isFalse => rfl
  exact
    { num := by
        simp only [countUp_posted, push, length_append,
          length_singleton, UInt32.toNat_add, UInt32.toNat_one, h.num]
        omega
      descs := by
        simp only [countUp_posted, push]
        intro b hb
        rcases mem_append.mp hb with hb | hb
        · exact h.descs b hb
        · rw [mem_singleton.mp hb]
          exact hdescs
      size := by
        have hsize := h.size
        simp only [countUp_posted, countUp_numFree, push,
          map_append, sum_append, map_cons, map_nil, sum_singleton]
        omega
      max_lt := by
        simp only [countUp_max]
        exact h.max_lt
      large := by
        intro t ht
        have hlarge := h.large t ht
        have hpush : (s.rq.push ⟨s.rq.nextSize, e.descs⟩).postedOf t =
            s.rq.postedOf t + if s.rq.nextSize = t then 1 else 0 := by
          simp [postedOf, push, countP_append, countP_singleton]
        rw [counter_setNum, hcounter t ht]
        simp only [postedOf, countUp_posted] at hpush hlarge ⊢
        rw [hpush, hlarge]
        omega
      limit := by
        intro t ht
        rw [counter_setNum, limit_setNum, countUp_limit,
          UInt32.le_iff_toNat_le, hcounter t ht]
        have hle := UInt32.le_iff_toNat_le.mp (h.limit t ht)
        show _ ≤ (s.rq.limit t).toNat
        split
        case isTrue hsize =>
          have hlt := nextSize_limit s.rq (hsize ▸ ht)
          rw [hsize, UInt32.lt_iff_toNat_lt] at hlt
          exact hlt
        case isFalse => exact hle }

/-! ## Receiving a buffer -/

theorem receiveBuf_frame (rq : ReceiveQueue) (hdrLen : Nat) (buf : RecvBuf) (len : UInt32) :
    (receiveBuf rq hdrLen buf len).num = rq.num ∧ (receiveBuf rq hdrLen buf len).max = rq.max ∧
      (receiveBuf rq hdrLen buf len).posted = rq.posted ∧
      (receiveBuf rq hdrLen buf len).numFree = rq.numFree ∧
      (receiveBuf rq hdrLen buf len).limit = rq.limit := by
  rw [receiveBuf]
  split
  case isTrue => exact ⟨rfl, rfl, rfl, rfl, rfl⟩
  case isFalse => split <;> exact ⟨rfl, rfl, rfl, rfl, rfl⟩

theorem receiveBuf_counter (rq : ReceiveQueue) (hdrLen : Nat) (buf : RecvBuf) (len : UInt32)
    {t : SizeType} (ht : t ≠ .normal) :
    (receiveBuf rq hdrLen buf len).counter t =
      if buf.sizeType = t ∧ ¬ Short hdrLen len then rq.counter t - 1 else rq.counter t := by
  rw [receiveBuf]
  split
  case isTrue hshort =>
    have hshort' : Short hdrLen len := hshort
    simp [hshort']
  case isFalse hlong =>
    have hlong' : ¬ Short hdrLen len := hlong
    simp only [hlong', not_false_eq_true, and_true]
    cases hsize : buf.sizeType <;> cases t <;> first | rfl | exact absurd rfl ht

theorem sum_eraseIdx {α : Type*} (l : List α) (f : α → Nat) {i : Nat} {a : α} (h : l[i]? = some a) :
    ((l.eraseIdx i).map f).sum + f a = (l.map f).sum := by
  obtain ⟨hi, rfl⟩ := List.getElem?_eq_some_iff.mp h
  have hperm := (getElem_cons_eraseIdx_perm hi).map f
  have hsum := hperm.sum_eq
  rw [map_cons, sum_cons] at hsum
  omega

theorem countP_eraseIdx_add {α : Type*} (l : List α) (p : α → Bool) {i : Nat} {a : α}
    (h : l[i]? = some a) : (l.eraseIdx i).countP p + (if p a then 1 else 0) = l.countP p := by
  obtain ⟨hi, rfl⟩ := List.getElem?_eq_some_iff.mp h
  have hperm := (getElem_cons_eraseIdx_perm hi).countP_eq p
  rw [countP_cons] at hperm
  exact hperm

theorem QueueInv.get (h : QueueInv s) {i : Nat} {buf : RecvBuf} (len : UInt32)
    (phase : Phase) (hbuf : s.rq.posted[i]? = some buf) :
    QueueInv
      { s with
        rq :=
          { receiveBuf (vcaVirtqueueGetBuf s.rq i buf) s.hdrLen buf len with
            num := (receiveBuf (vcaVirtqueueGetBuf s.rq i buf) s.hdrLen buf len).num - 1 }
        phase := phase
        completed := s.completed ++ [(buf.sizeType, len)] } := by
  obtain ⟨hi, -⟩ := List.getElem?_eq_some_iff.mp hbuf
  have hframe := receiveBuf_frame (vcaVirtqueueGetBuf s.rq i buf) s.hdrLen buf len
  generalize hrq : receiveBuf (vcaVirtqueueGetBuf s.rq i buf) s.hdrLen buf len = rq at hframe ⊢
  obtain ⟨hnum, hmax, hposted, hfree, hlimit⟩ := hframe
  simp only [vcaVirtqueueGetBuf] at hnum hmax hposted hfree
  have hcounter : ∀ t ≠ .normal, rq.counter t =
      if buf.sizeType = t ∧ ¬ Short s.hdrLen len then s.rq.counter t - 1 else s.rq.counter t := by
    intro t ht
    rw [← hrq, receiveBuf_counter _ _ _ _ ht]
    rfl
  have hlen : (s.rq.posted.eraseIdx i).length = s.rq.posted.length - 1 :=
    length_eraseIdx_of_lt hi
  exact
    { num := by
        simp only [hnum, hposted, hlen]
        have hone : (1 : UInt32) ≤ s.rq.num := by
          rw [UInt32.le_iff_toNat_le, h.num, UInt32.toNat_one]
          omega
        rw [UInt32.toNat_sub_of_le _ _ hone, h.num, UInt32.toNat_one]
      descs := by
        simp only [hposted]
        intro b hb
        exact h.descs b (mem_of_mem_eraseIdx hb)
      size := by
        simp only [hposted, hfree]
        have hsum := sum_eraseIdx s.rq.posted RecvBuf.descs hbuf
        have hsize := h.size
        omega
      max_lt := by
        simp only [hmax]
        exact h.max_lt
      large := by
        intro t ht
        have hlarge := h.large t ht
        have hcount := countP_eraseIdx_add s.rq.posted (·.sizeType = t) hbuf
        have hshort : shortOf s.hdrLen (s.completed ++ [(buf.sizeType, len)]) t =
            shortOf s.hdrLen s.completed t +
              if buf.sizeType = t ∧ Short s.hdrLen len then 1 else 0 := by
          simp [shortOf, countP_append, countP_singleton]
        rw [counter_setNum, hcounter t ht]
        simp only [postedOf, hposted] at hlarge ⊢
        rw [hshort]
        -- a buffer that is posted is counted, so the counter does not wrap
        by_cases hsize : buf.sizeType = t
        · simp only [hsize, decide_true, if_true, true_and] at hcount ⊢
          by_cases hs : Short s.hdrLen len
          · simp only [hs, not_true_eq_false, if_false, if_true]
            omega
          · simp only [hs, not_false_eq_true, if_false, if_true]
            have hone : (1 : UInt32) ≤ s.rq.counter t := by
              rw [UInt32.le_iff_toNat_le, UInt32.toNat_one]
              omega
            rw [UInt32.toNat_sub_of_le _ _ hone, UInt32.toNat_one]
            omega
        · simp only [hsize, decide_false, Bool.false_eq_true, if_false, false_and] at hcount ⊢
          omega
      limit := by
        intro t ht
        rw [counter_setNum, limit_setNum, hcounter t ht, hlimit]
        have hle := UInt32.le_iff_toNat_le.mp (h.limit t ht)
        show _ ≤ s.rq.limit t
        split
        case isTrue hcond =>
          have hcount := countP_eraseIdx_add s.rq.posted (·.sizeType = t) hbuf
          have hlarge := h.large t ht
          simp only [hcond.1, decide_true, if_true, postedOf] at hcount hlarge
          have hone : (1 : UInt32) ≤ s.rq.counter t := by
            rw [UInt32.le_iff_toNat_le, UInt32.toNat_one]
            omega
          rw [UInt32.le_iff_toNat_le, UInt32.toNat_sub_of_le _ _ hone]
          omega
        case isFalse => exact h.limit t ht }

/-! ## Every run -/

/-- `max` is one of the values of `num`. -/
theorem QueueInv.fillEnds (h : QueueInv s) (caller : Option Poll) :
    QueueInv (fillEnd s s.rq caller) := by
  have hposted := h.posted_lt
  have hnum := h.num
  unfold fillEnd
  split
  case isTrue =>
    refine ⟨h.num, h.descs, h.size, ?_, ?_, ?_⟩
    · show s.rq.num.toNat < 2 ^ 16
      omega
    · intro t ht
      have hlarge := h.large t ht
      cases t <;> exact hlarge
    · intro t ht
      have hlimit := h.limit t ht
      cases t <;> exact hlimit
  case isFalse => exact h.move _

theorem QueueInv.step {s s' : ReceiveState} {a : ReceiveAct} (h : QueueInv s)
    (hstep : receiveStep s a = some s') : QueueInv s' := by
  unfold receiveStep at hstep
  split at hstep
  case h_1 =>
    cases hstep
    exact h.move _
  case h_2 e caller _ =>
    cases hstep
    rcases addRecvbufSmall_cases s.rq e with ⟨err, herr, hadd⟩ | ⟨hfree, hadd⟩
    · simp only [fillTurn, hadd, if_pos herr]
      exact h.fillEnds caller
    · have hnext := h.add hfree
      simp only [fillTurn, hadd, ne_eq, not_true_eq_false, if_false,
        countUp_num]
      split
      · exact hnext
      · exact hnext.fillEnds caller
  case h_3 =>
    cases hstep
    exact h.move _
  case h_4 i len p _ =>
    split at hstep
    case isTrue =>
      obtain ⟨buf, hbuf, rfl⟩ := Option.map_eq_some_iff.mp hstep
      exact h.get len _ hbuf
    case isFalse => cases hstep
  case h_5 =>
    cases hstep
    exact h.move _
  case h_6 =>
    cases hstep
    exact h.move _
  case h_7 => cases hstep

theorem queueInv_of_reachable (h : receiveSystem.Reachable s) : QueueInv s := by
  refine h.invariant ?_ ?_
  · rintro s ⟨numFree, numPacketsBig, numPacketsJumbo, hdrLen, rfl⟩
    refine ⟨rfl, ?_, ?_, ?_, ?_, ?_⟩
    · intro b hb
      cases hb
    · simpa [probe] using numFree.toNat_lt
    · show (0 : UInt32).toNat < 2 ^ 16
      decide
    · intro t _
      cases t <;> rfl
    · intro t _
      cases t <;> exact UInt32.zero_le
  · intro s a s' hI hstep
    exact hI.step hstep

/-! ## The counters -/

/-- The counters are the numbers of buffers posted, within the limits. -/
structure CountersExact (s : ReceiveState) : Prop where
  num : s.rq.num.toNat = s.rq.posted.length
  big : s.rq.numBig.toNat = s.rq.postedOf .big
  jumbo : s.rq.numJumbo.toNat = s.rq.postedOf .jumbo
  big_le : s.rq.numBig ≤ s.rq.maxBig
  jumbo_le : s.rq.numJumbo ≤ s.rq.maxJumbo

theorem shortOf_eq_zero_iff (hdrLen : Nat) (completed : List (SizeType × UInt32)) (t : SizeType) :
    shortOf hdrLen completed t = 0 ↔ ∀ c ∈ completed, Short hdrLen c.2 → c.1 ≠ t := by
  rw [shortOf, countP_eq_zero]
  simp only [decide_eq_true_eq, not_and]
  constructor
  · intro h c hc hshort hkind
    exact h c hc hkind hshort
  · intro h c hc hkind hshort
    exact h c hc hshort hkind

/-- **Receive buffer accounting**: the counters are exact as long as every short packet came back in
a normal buffer, and from the first other one on they are not. -/
theorem countersExact_iff {s : ReceiveState} (h : receiveSystem.Reachable s) :
    CountersExact s ↔ ∀ c ∈ s.completed, Short s.hdrLen c.2 → c.1 = .normal := by
  have hI := queueInv_of_reachable h
  have hbig : s.rq.numBig.toNat = s.rq.postedOf .big + shortOf s.hdrLen s.completed .big :=
    hI.large .big (by decide)
  have hjumbo : s.rq.numJumbo.toNat =
      s.rq.postedOf .jumbo + shortOf s.hdrLen s.completed .jumbo := hI.large .jumbo (by decide)
  have hnone : (shortOf s.hdrLen s.completed .big = 0 ∧ shortOf s.hdrLen s.completed .jumbo = 0) ↔
      ∀ c ∈ s.completed, Short s.hdrLen c.2 → c.1 = .normal := by
    rw [shortOf_eq_zero_iff, shortOf_eq_zero_iff]
    constructor
    · rintro ⟨hb, hj⟩ c hc hshort
      have hnb := hb c hc hshort
      have hnj := hj c hc hshort
      cases hkind : c.1 with
      | normal => rfl
      | jumbo => exact absurd hkind hnj
      | big => exact absurd hkind hnb
    · intro hnormal
      constructor
      · intro c hc hshort
        simp [hnormal c hc hshort]
      · intro c hc hshort
        simp [hnormal c hc hshort]
  rw [← hnone]
  constructor
  · intro hexact
    have hb := hexact.big
    have hj := hexact.jumbo
    omega
  · rintro ⟨hb, hj⟩
    refine ⟨hI.num, ?_, ?_, hI.limit .big (by decide), hI.limit .jumbo (by decide)⟩
    · omega
    · omega

/-- A queue of 32 entries, filled by `try_fill_recv` -/
def fillUp : List ReceiveAct := .fill :: List.replicate 16 (.add ⟨true, 1, false, false, false⟩)

/-- The queue as `virtnet_probe` sets it up -/
def probed : ReceiveState := ⟨probe 32 64 256, 10, .idle, []⟩

theorem probed_init : receiveSystem.Init probed := ⟨32, 64, 256, 10, rfl⟩

/-- Two normal buffers, one of them with a short packet -/
theorem countersExact_iff_shortNormal :
    ∃ s, receiveSystem.Reachable s ∧ CountersExact s ∧ s.phase = .idle ∧ s.completed.length = 2 := by
  have hobs : (receiveSystem.run probed (fillUp ++ [ReceiveAct.poll 2, .get 15 64, .get 14 20,
      .stop, .finish false])).map (fun s => (s.phase, s.hdrLen, s.completed)) =
      some (.idle, 10, [(.normal, 64), (.normal, 20)]) := by
    decide +kernel
  obtain ⟨s, hreach, hobs⟩ := System.exists_reachable hobs probed_init
  simp only [Prod.mk.injEq] at hobs
  obtain ⟨hphase, hhdr, hcompleted⟩ := hobs
  refine ⟨s, hreach, (countersExact_iff hreach).mpr ?_, hphase, by rw [hcompleted]; rfl⟩
  rw [hcompleted, hhdr]
  decide

/-- One short packet in a big buffer -/
theorem shortBig_not_exact :
    ∃ s, receiveSystem.Reachable s ∧ s.phase = .idle ∧ s.rq.numBig = 2 ∧ s.rq.postedOf .big = 1 ∧
      ¬ CountersExact s := by
  have hobs : (receiveSystem.run probed (fillUp ++ [ReceiveAct.poll 1, .get 0 20, .stop,
      .finish false])).map (fun s => (s.phase, s.rq.numBig, s.rq.postedOf .big)) =
      some (.idle, 2, 1) := by
    decide +kernel
  obtain ⟨s, hreach, hobs⟩ := System.exists_reachable hobs probed_init
  simp only [Prod.mk.injEq] at hobs
  obtain ⟨hphase, hnum, hposted⟩ := hobs
  refine ⟨s, hreach, hphase, hnum, hposted, ?_⟩
  intro hexact
  have hbig := hexact.big
  rw [hnum, hposted] at hbig
  exact absurd hbig (by decide)

/-! ## The refill condition -/

def ReceiveQueue.normal (rq : ReceiveQueue) : Nat :=
  rq.num.toNat - rq.numBig.toNat - rq.numJumbo.toNat

def ReceiveQueue.maxNormal (rq : ReceiveQueue) : Nat :=
  rq.max.toNat - rq.maxBig.toNat - rq.maxJumbo.toNat

theorem toNat_mul_small (k a : UInt32) (hk : k.toNat ≤ 4) (ha : a.toNat < 2 ^ 16) :
    (k * a).toNat = k.toNat * a.toNat := by
  rw [UInt32.toNat_mul, Nat.mod_eq_of_lt]
  calc k.toNat * a.toNat ≤ 4 * a.toNat := Nat.mul_le_mul_right _ hk
    _ < 2 ^ 32 := by omega

/-- **Refill decision**: while fewer than three quarters of the normal buffers are posted, a refill
is decided exactly when `num` is not below the limits of the large buffers, or enough large
buffers are missing. -/
theorem refill_iff {s : ReceiveState} (h : receiveSystem.Reachable s) (hexact : CountersExact s)
    (hlimits : s.rq.maxBig.toNat + s.rq.maxJumbo.toNat ≤ s.rq.max.toNat)
    (hnum : s.rq.num.toNat ≤ s.rq.max.toNat) (hlow : 4 * s.rq.normal < 3 * s.rq.maxNormal) :
    s.rq.refill = true ↔
      s.rq.maxBig.toNat + s.rq.maxJumbo.toNat ≤ s.rq.num.toNat ∨
        4 * s.rq.numBig.toNat < 3 * s.rq.maxBig.toNat ∨
        4 * s.rq.numJumbo.toNat < 3 * s.rq.maxJumbo.toNat := by
  have hmax := (queueInv_of_reachable h).max_lt
  have hbig := UInt32.le_iff_toNat_le.mp hexact.big_le
  have hjumbo := UInt32.le_iff_toNat_le.mp hexact.jumbo_le
  have hfull : (s.rq.max - s.rq.maxBig - s.rq.maxJumbo).toNat = s.rq.maxNormal := by
    simp only [UInt32.toNat_sub, ReceiveQueue.maxNormal]
    omega
  have hfull_lt : s.rq.maxNormal < 2 ^ 16 := by
    simp only [ReceiveQueue.maxNormal]
    omega
  simp only [ReceiveQueue.refill, Bool.or_eq_true, decide_eq_true_eq, UInt32.lt_iff_toNat_lt]
  rw [toNat_mul_small 4 s.rq.numBig (by decide) (by omega),
    toNat_mul_small 3 s.rq.maxBig (by decide) (by omega),
    toNat_mul_small 4 s.rq.numJumbo (by decide) (by omega),
    toNat_mul_small 3 s.rq.maxJumbo (by decide) (by omega),
    toNat_mul_small 3 _ (by decide) (hfull ▸ hfull_lt), hfull]
  have hfour : (4 : UInt32).toNat = 4 := rfl
  have hthree : (3 : UInt32).toNat = 3 := rfl
  rw [hfour, hthree]
  by_cases hge : s.rq.maxBig.toNat + s.rq.maxJumbo.toNat ≤ s.rq.num.toNat
  · -- what is left of `num` is at most the number of normal buffers
    have hleft : (s.rq.num - s.rq.maxBig - s.rq.maxJumbo).toNat ≤ s.rq.normal := by
      simp only [UInt32.toNat_sub, ReceiveQueue.normal]
      omega
    have hthird : (4 * (s.rq.num - s.rq.maxBig - s.rq.maxJumbo)).toNat < 3 * s.rq.maxNormal := by
      rw [toNat_mul_small 4 _ (by decide) (by omega), hfour]
      omega
    simp only [hge, hthird, or_true, true_or]
  · -- the difference wraps around, and four times it is still more than `3 * max`
    have hwrap : ¬ (4 * (s.rq.num - s.rq.maxBig - s.rq.maxJumbo)).toNat < 3 * s.rq.maxNormal := by
      simp only [UInt32.toNat_mul, UInt32.toNat_sub, hfour]
      omega
    simp only [hge, hwrap, or_false, false_or]

/-- The queue of `probed` with some of its buffers consumed -/
def consumed (jumbo normal : Nat) : ReceiveQueue where
  num := UInt32.ofNat (2 + jumbo + normal)
  max := 16
  numBig := 2
  maxBig := 2
  numJumbo := UInt32.ofNat jumbo
  maxJumbo := 5
  posted :=
    List.replicate 2 ⟨.big, 2⟩ ++ List.replicate jumbo ⟨.jumbo, 2⟩ ++
      List.replicate normal ⟨.normal, 2⟩
  numFree := 2 * (14 - jumbo - normal)

/-- Three normal buffers are consumed, and a refill is decided. -/
theorem refill_iff_threeConsumed :
    ∃ s, receiveSystem.Reachable s ∧ s.rq = consumed 5 6 ∧ s.rq.refill = true := by
  have hobs : (receiveSystem.run probed (fillUp ++ [ReceiveAct.poll 64, .get 15 64, .get 14 64,
      .get 13 64])).map ReceiveState.rq = some (consumed 5 6) := by
    decide +kernel
  obtain ⟨s, hreach, hrq⟩ := System.exists_reachable hobs probed_init
  have hexact : CountersExact s := by
    constructor <;> rw [hrq] <;> decide
  refine ⟨s, hreach, hrq, (refill_iff hreach hexact ?_ ?_ ?_).mpr (Or.inl ?_)⟩ <;> rw [hrq] <;> decide

/-- All normal buffers and one jumbo buffer are consumed, and no refill is decided. -/
theorem refill_missed :
    ∃ s, receiveSystem.Reachable s ∧ CountersExact s ∧
      s.rq.maxBig.toNat + s.rq.maxJumbo.toNat ≤ s.rq.max.toNat ∧
      s.rq.num.toNat ≤ s.rq.max.toNat ∧ s.rq.normal = 0 ∧ 0 < s.rq.maxNormal ∧
      s.rq.refill = false := by
  have hobs : (receiveSystem.run probed (fillUp ++ ReceiveAct.poll 64 ::
      (List.range 9).map (fun k => ReceiveAct.get (15 - k) 64) ++ [ReceiveAct.get 6 64])).map
        ReceiveState.rq = some (consumed 4 0) := by
    decide +kernel
  obtain ⟨s, hreach, hrq⟩ := System.exists_reachable hobs probed_init
  have hexact : CountersExact s := by
    constructor <;> rw [hrq] <;> decide
  refine ⟨s, hreach, hexact, ?_⟩
  rw [hrq]
  decide

end Vcass.VirtioNet
