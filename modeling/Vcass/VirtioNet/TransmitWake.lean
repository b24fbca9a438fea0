import Vcass.Core.System
import Mathlib.Algebra.BigOperators.Group.List.Basic
import Mathlib.Data.UInt

/-!
# Waking a Stopped Transmit Queue

`start_xmit` (`vca_virtio_net.c`) stops its queue when the ring is nearly full, and asks to be called
back once three quarters of the buffers in flight are used.  The other side completes buffers with
`put_descriptors` (`vop_common.c`), which calls `skb_xmit_done` only if `__vringh_need_notify` finds
that this is wanted.  Both run at the same time, on indices of 16 bits; a step is one access to what
they share.  No wake-up is lost in a ring of at least `2 + MAX_SKB_FRAGS` descriptors (`queue_woken`);
a smaller one is stopped even when nothing is in flight that could wake it.
-/

namespace Vcass.VirtioNet

open Vcass.Core

/-! ## The model -/

/-- A free-running counter as an index of the ring -/
def idx (n : Nat) : UInt16 := .ofNat n

/-- `vring_need_event`: has `newIdx` passed the event since `old`? -/
def vringNeedEvent (eventIdx newIdx old : UInt16) : Bool :=
  newIdx - eventIdx - 1 < newIdx - old

/-- `MAX_SKB_FRAGS`, with pages of 4096 bytes -/
def maxSkbFrags : Nat := 17

structure TxConfig where
  num : Nat
  eventIndices : Bool
  num_lt : num < 2 ^ 16

/-- Where `start_xmit` is.  It calls `free_old_xmit_skbs` with a packet still to be added, given by the
descriptors behind its first, and again (`none`) when callbacks could not be delayed. -/
inductive Xmit where
  | idle
  | free (skb : Option Nat)
  /-- `get_buf` has advanced `last_used_idx` and reads the flags -/
  | gotBuf (skb : Option Nat)
  | setEvent (skb : Option Nat)
  | added
  | enable
  /-- callbacks are enabled, the used index is still to be read -/
  | check (bufs : Nat)
  | start
  | disable
  deriving DecidableEq

/-- Where `put_descriptors` is; `callback` and `wake` are the two lines of `skb_xmit_done`. -/
inductive Put where
  | idle
  | completed
  | notify
  | callback
  | wake
  deriving DecidableEq

/-- The counters run freely; `vrh->last_used_idx` is `used - completed`.  `sizes` has the descriptors
behind the first of each buffer in flight. -/
structure TxState where
  added : Nat := 0
  used : Nat := 0
  lastUsed : Nat := 0
  sizes : List Nat := []
  numFree : Nat
  usedEvent : UInt16 := 0
  noInterrupt : Bool := false
  stopped : Bool := false
  completed : Nat := 0
  xmit : Xmit := .idle
  put : Put := .idle

/-- `get_buf` up to the test of the flags; `detach_buf` frees the descriptors of buffer `i`. -/
def TxState.getBuf (s : TxState) (skb : Option Nat) {i : Nat} (h : i < s.sizes.length) : TxState :=
  { s with
    lastUsed := s.lastUsed + 1, sizes := s.sizes.eraseIdx i, numFree := s.numFree + s.sizes[i] + 1,
    xmit := .gotBuf skb }

/-- `virtqueue_add` -/
def TxState.add (s : TxState) (n : Nat) : TxState :=
  { s with
    added := s.added + 1, sizes := s.sizes ++ [n], numFree := s.numFree - (n + 1), xmit := .added }

/-- One access of `start_xmit`; the other side has used buffer `i` of those in flight. -/
def xmitStep (s : TxState) (i : Nat) : Option TxState :=
  match s.xmit with
  | .idle => none
  | .free skb =>
    if idx s.lastUsed ≠ idx s.used then
      if h : i < s.sizes.length then some (s.getBuf skb h) else none
    else
      match skb with
      | some n =>
        -- without room the packet is dropped
        if s.numFree < n + 1 then some { s with xmit := .idle } else some (s.add n)
      | none => some { s with xmit := if s.numFree < 2 + maxSkbFrags then .idle else .start }
  | .gotBuf skb => some { s with xmit := if s.noInterrupt then .free skb else .setEvent skb }
  | .setEvent skb => some { s with usedEvent := idx s.lastUsed, xmit := .free skb }
  | .added =>
    if s.numFree < 2 + maxSkbFrags then some { s with stopped := true, xmit := .enable }
    else some { s with xmit := .idle }
  | .enable =>
    -- the other side reads either the flags or the event, never both
    let bufs := (idx s.added - idx s.lastUsed).toNat * 3 / 4
    some { s with
      noInterrupt := false, usedEvent := idx (s.lastUsed + bufs), xmit := .check bufs }
  | .check bufs =>
    some { s with
      xmit := if bufs < (idx s.used - idx s.lastUsed).toNat then .free none else .idle }
  | .start => some { s with stopped := false, xmit := .disable }
  | .disable => some { s with noInterrupt := true, xmit := .idle }

/-- `__vringh_need_notify` -/
def needNotify (cfg : TxConfig) (s : TxState) : Bool :=
  if cfg.eventIndices then
    0xffff < s.completed || vringNeedEvent s.usedEvent (idx s.used) (idx (s.used - s.completed))
  else !s.noInterrupt

/-- One access of `put_descriptors`, with `vring_interrupt` and `skb_xmit_done` in it -/
def putStep (cfg : TxConfig) (s : TxState) : Option TxState :=
  match s.put with
  | .idle =>
    if s.used < s.added then
      some { s with used := s.used + 1, completed := s.completed + 1, put := .completed }
    else none
  | .completed =>
    some { s with
      completed := if cfg.eventIndices then 0 else s.completed
      put := if needNotify cfg s then .notify else .idle }
  | .notify => some { s with put := if idx s.lastUsed ≠ idx s.used then .callback else .idle }
  | .callback => some { s with noInterrupt := true, put := .wake }
  | .wake => some { s with stopped := false, put := .idle }

inductive TxAction where
  | startXmit (n : Nat)
  | xmit (i : Nat)
  | put

/-- The network stack calls `start_xmit` only while the queue is not stopped. -/
def txSystem (cfg : TxConfig) : System TxState TxAction where
  Init s := s = { numFree := cfg.num }
  step s
    | .startXmit n =>
      if s.xmit = .idle ∧ s.stopped = false then some { s with xmit := .free (some n) } else none
    | .xmit i => xmitStep s i
    | .put => putStep cfg s

/-! ## Indices in a window -/

section

variable {a b : Nat} (hab : a ≤ b) (hwindow : b < a + 2 ^ 16)

include hab hwindow

theorem idx_sub : (idx b - idx a).toNat = b - a := by
  simp only [idx, UInt16.toNat_sub, UInt16.toNat_ofNat']
  omega

theorem idx_ne : idx a ≠ idx b ↔ a < b := by
  simp only [idx, ne_eq, ← UInt16.toNat_inj, UInt16.toNat_ofNat']
  omega

end

theorem vringNeedEvent_succ (event : UInt16) (n : Nat) :
    vringNeedEvent event (idx (n + 1)) (idx n) = true ↔ event = idx n := by
  have hevent := event.toNat_lt
  simp only [vringNeedEvent, idx, decide_eq_true_eq, UInt16.lt_iff_toNat_lt, ← UInt16.toNat_inj,
    UInt16.toNat_sub, UInt16.toNat_ofNat', UInt16.toNat_one]
  omega

/-! ## The invariant -/

variable {cfg : TxConfig} {s s' : TxState}

/-- The other side asks for a callback when it has completed buffer `k`. -/
def Wanted (cfg : TxConfig) (s : TxState) (k : Nat) : Prop :=
  if cfg.eventIndices then s.usedEvent = idx k else s.noInterrupt = false

/-- `skb_xmit_done` is running. -/
def Waking (s : TxState) : Prop := s.put = .callback ∨ s.put = .wake

/-- `skb_xmit_done` will run, at the latest when some buffer `k` in flight is completed. -/
def Called (cfg : TxConfig) (s : TxState) : Prop :=
  Waking s ∨ s.put = .notify ∧ s.lastUsed < s.used ∨
    ∃ k, s.lastUsed ≤ k ∧ k < s.added ∧ Wanted cfg s k ∧
      (s.used ≤ k ∨ s.used = k + 1 ∧ s.put = .completed)

/-- What will wake a stopped queue, by the place of `start_xmit` -/
def Served (cfg : TxConfig) (s : TxState) : Prop :=
  match s.xmit with
  | .idle => Called cfg s
  | .check bufs =>
    s.lastUsed + bufs < s.added ∧ (Waking s ∨ Wanted cfg s (s.lastUsed + bufs))
  | .free none => s.lastUsed < s.used ∨ Waking s ∨ Wanted cfg s s.lastUsed
  | .enable => s.lastUsed < s.added
  | .gotBuf none | .setEvent none | .start => True
  | _ => False

/-- Only `skb_xmit_done` disables the callbacks of a stopped queue (`flag`). -/
structure TxInv (cfg : TxConfig) (s : TxState) : Prop where
  lastUsed_le : s.lastUsed ≤ s.used
  used_le : s.used ≤ s.added
  flight : s.lastUsed + s.sizes.length = s.added
  numFree : s.numFree + (s.sizes.sum + s.sizes.length) = cfg.num
  completed : cfg.eventIndices = true → s.completed = if s.put = .completed then 1 else 0
  served : s.stopped = true → Served cfg s
  flag : s.stopped = true → s.xmit ≠ .enable → s.noInterrupt = true → s.put = .wake

/-- While `start_xmit` runs, the other side only has to keep the callback wanted. -/
theorem Served.mono (h : Served cfg s) (hxmit : s'.xmit = s.xmit)
    (hlastUsed : s'.lastUsed = s.lastUsed) (hadded : s'.added = s.added) (hused : s.used ≤ s'.used)
    (hwaking : Waking s → Waking s') (hwanted : ∀ k, Wanted cfg s k → Waking s' ∨ Wanted cfg s' k)
    (hcalled : Called cfg s → Called cfg s') : Served cfg s' := by
  unfold Served at h ⊢
  rw [hxmit, hlastUsed, hadded]
  split at h
  case h_1 => exact hcalled h
  case h_2 bufs _ => exact ⟨h.1, h.2.elim (fun hw => .inl (hwaking hw)) (hwanted _)⟩
  case h_3 =>
    rcases h with hlt | hw | hk
    · exact .inl (lt_of_lt_of_le hlt hused)
    · exact .inr (.inl (hwaking hw))
    · exact .inr (hwanted _ hk)
  all_goals exact h

namespace TxInv

variable (inv : TxInv cfg s)

include inv

theorem window : s.added < s.lastUsed + 2 ^ 16 := by
  have := inv.flight
  have := inv.numFree
  have := cfg.num_lt
  omega

theorem moreUsed : idx s.lastUsed ≠ idx s.used ↔ s.lastUsed < s.used :=
  idx_ne inv.lastUsed_le (lt_of_le_of_lt inv.used_le inv.window)

theorem lastUsed_lt (hnum : 2 + maxSkbFrags ≤ cfg.num) (hfull : s.numFree < 2 + maxSkbFrags) :
    s.lastUsed < s.added := by
  have hflight := inv.flight
  have hfree := inv.numFree
  cases hsizes : s.sizes <;> simp [hsizes] at hfree hflight <;> omega

/-- An access of `start_xmit` that moves on, with an event or without -/
theorem move (x : Xmit) (event : UInt16) (hat : s.xmit ≠ .enable)
    (hserved : s.stopped = true → Served cfg { s with usedEvent := event, xmit := x }) :
    TxInv cfg { s with usedEvent := event, xmit := x } :=
  { inv with served := hserved, flag := fun hstopped _ => inv.flag hstopped hat }

theorem getBuf {skb : Option Nat} (hat : s.xmit = .free skb) (hmore : s.lastUsed < s.used) {i : Nat}
    (hi : i < s.sizes.length) : TxInv cfg (s.getBuf skb hi) := by
  have hsum := List.CommMonoid.add_sum_eraseIdx hi
  have hlength := List.length_eraseIdx_of_lt hi
  have hflight := inv.flight
  have hnum := inv.numFree
  refine ⟨hmore, inv.used_le, ?_, ?_, inv.completed, fun hstopped => ?_,
    fun hstopped _ => inv.flag hstopped (by simp [hat])⟩
  · dsimp only [TxState.getBuf]
    omega
  · dsimp only [TxState.getBuf]
    omega
  · have hserved := inv.served hstopped
    rw [Served, hat] at hserved
    cases skb with
    | some n => exact hserved.elim
    | none => trivial

theorem add {n : Nat} (hrunning : s.stopped = true → False) (hroom : ¬ s.numFree < n + 1) :
    TxInv cfg (s.add n) := by
  have hflight := inv.flight
  have hnum := inv.numFree
  refine ⟨inv.lastUsed_le, Nat.le_succ_of_le inv.used_le, ?_, ?_, inv.completed,
    fun hstopped => (hrunning hstopped).elim, fun hstopped => (hrunning hstopped).elim⟩
  · simp [TxState.add]
    omega
  · simp [TxState.add]
    omega

/-- **One access of `start_xmit`** keeps the invariant. -/
theorem xmitStep (hnum : 2 + maxSkbFrags ≤ cfg.num) {i : Nat} (h : xmitStep s i = some s') :
    TxInv cfg s' := by
  have hserved := inv.served
  unfold VirtioNet.xmitStep at h
  split at h <;> rename_i hat <;> simp only [Served, hat] at hserved
  case h_1 => cases h
  case h_2 skb =>
    simp only [inv.moreUsed] at h
    split at h
    case isTrue hmore =>
      split_ifs at h with hi
      cases h
      exact inv.getBuf hat hmore hi
    case isFalse hmore =>
      cases skb with
      | some n =>
        dsimp only at h
        split_ifs at h with hroom <;> cases h
        · exact inv.move .idle _ (by simp [hat]) fun hstopped => (hserved hstopped).elim
        · exact inv.add hserved hroom
      | none =>
        cases h
        refine inv.move _ _ (by simp [hat]) fun hstopped => ?_
        by_cases hfull : s.numFree < 2 + maxSkbFrags
        · -- the last `get_buf` has asked for the next buffer
          simp only [Served, hfull, if_true]
          rcases hserved hstopped with hlt | hwaking | hwanted
          · exact absurd hlt hmore
          · exact .inl hwaking
          · exact .inr (.inr
              ⟨s.lastUsed, le_rfl, inv.lastUsed_lt hnum hfull, hwanted, .inl (le_of_not_gt hmore)⟩)
        · simp [Served, hfull]
  case h_3 skb =>
    cases h
    refine inv.move _ _ (by simp [hat]) fun hstopped => ?_
    cases skb with
    | some n => exact (hserved hstopped).elim
    | none =>
      by_cases hoff : s.noInterrupt = true
      · simp only [Served, hoff, if_true]
        exact .inr (.inl (.inr (inv.flag hstopped (by simp [hat]) hoff)))
      · simp [Served, hoff]
  case h_4 skb =>
    cases h
    refine inv.move _ _ (by simp [hat]) fun hstopped => ?_
    cases skb with
    | some n => exact (hserved hstopped).elim
    | none =>
      by_cases hoff : s.noInterrupt = true
      · exact .inr (.inl (.inr (inv.flag hstopped (by simp [hat]) hoff)))
      · exact .inr (.inr (by simp [Wanted, hoff]))
  case h_5 =>
    split_ifs at h with hfull <;> cases h
    · exact { inv with
        served := fun _ => inv.lastUsed_lt hnum hfull, flag := fun _ hne => absurd rfl hne }
    · exact inv.move .idle _ (by simp [hat]) fun hstopped => (hserved hstopped).elim
  case h_6 =>
    cases h
    rw [idx_sub (le_trans inv.lastUsed_le inv.used_le) inv.window]
    refine { inv with served := fun hstopped => ⟨?_, .inr ?_⟩, flag := nofun }
    · have hflight := hserved hstopped
      dsimp only
      omega
    · simp [Wanted]
  case h_7 bufs =>
    cases h
    rw [idx_sub inv.lastUsed_le (lt_of_le_of_lt inv.used_le inv.window)]
    refine inv.move _ _ (by simp [hat]) fun hstopped => ?_
    obtain ⟨hlt, hserved⟩ := hserved hstopped
    by_cases hmore : bufs < s.used - s.lastUsed
    · simp only [Served, hmore, if_true]
      exact .inl (by omega)
    · simp only [Served, hmore, if_false]
      rcases hserved with hwaking | hwanted
      · exact .inl hwaking
      · exact .inr (.inr ⟨_, Nat.le_add_right _ _, hlt, hwanted,
          .inl (Nat.sub_le_iff_le_add'.mp (le_of_not_gt hmore))⟩)
  case h_8 =>
    cases h
    exact { inv with served := nofun, flag := nofun }
  case h_9 =>
    cases h
    exact { inv with
      served := fun hstopped => (hserved hstopped).elim
      flag := fun hstopped => (hserved hstopped).elim }

/-- An access of the other side outside `skb_xmit_done` -/
theorem otherSide (used completed : Nat) (put : Put) (hnowake : ¬ Waking s) (hused : s.used ≤ used)
    (hadded : used ≤ s.added)
    (hcompleted : cfg.eventIndices = true → completed = if put = .completed then 1 else 0)
    (hcalled : Called cfg s → Called cfg { s with used := used, completed := completed, put := put }) :
    TxInv cfg { s with used := used, completed := completed, put := put } := by
  refine ⟨le_trans inv.lastUsed_le hused, hadded, inv.flight, inv.numFree, hcompleted, ?_, ?_⟩
  · intro hstopped
    exact (inv.served hstopped).mono rfl rfl rfl hused (fun h => absurd h hnowake)
      (fun _ => .inr) hcalled
  · intro hstopped hat hoff
    exact absurd (.inr (inv.flag hstopped hat hoff)) hnowake

/-- A callback that is wanted when buffer `k` is completed is asked for. -/
theorem needNotify {k : Nat} (hat : s.put = .completed) (hused : s.used = k + 1)
    (hwanted : Wanted cfg s k) : needNotify cfg s = true := by
  unfold Wanted at hwanted
  unfold VirtioNet.needNotify
  split_ifs at hwanted ⊢ with hmode
  · have hone : s.completed = 1 := by simpa [hat] using inv.completed hmode
    rw [hone, hused, Nat.add_sub_cancel, hwanted]
    simp [vringNeedEvent_succ]
  · simp [hwanted]

/-- **One access of `put_descriptors`** keeps the invariant. -/
theorem putStep (h : putStep cfg s = some s') : TxInv cfg s' := by
  have hcompleted := inv.completed
  unfold VirtioNet.putStep at h
  split at h <;> rename_i hat <;> simp only [hat] at hcompleted
  case h_1 =>
    split_ifs at h with hlt
    cases h
    apply inv.otherSide _ _ _ (by simp [Waking, hat]) (Nat.le_succ _) hlt
    · intro hmode
      simp [hcompleted hmode]
    · simp only [Called, Waking, hat, reduceCtorEq, false_and, and_false, or_false, false_or, and_true]
      rintro ⟨k, hle, hk, hwanted, hused⟩
      exact ⟨k, hle, hk, hwanted, by omega⟩
  case h_2 =>
    cases h
    apply inv.otherSide _ _ _ (by simp [Waking, hat]) le_rfl inv.used_le
    · intro hmode
      rw [if_pos hmode]
      split <;> rfl
    · simp only [Called, Waking, hat, reduceCtorEq, false_and, false_or, and_true]
      rintro ⟨k, hle, hk, hwanted, hused | hused⟩
      · exact .inr (.inr ⟨k, hle, hk, hwanted, .inl hused⟩)
      · rw [inv.needNotify hat hused hwanted]
        exact .inr (.inl ⟨rfl, hused ▸ Nat.lt_succ_of_le hle⟩)
  case h_3 =>
    simp only [inv.moreUsed] at h
    cases h
    apply inv.otherSide _ _ _ (by simp [Waking, hat]) le_rfl inv.used_le
    · intro hmode
      simp only [hcompleted hmode]
      split_ifs <;> rfl
    · by_cases hmore : s.lastUsed < s.used
      · exact fun _ => .inl (.inl (if_pos hmore))
      simp only [Called, Waking, hat, hmore, reduceCtorEq, and_false, or_false, false_or]
      rintro ⟨k, hle, hk, hwanted, hused⟩
      exact .inr ⟨k, hle, hk, hwanted, .inl hused⟩
  case h_4 =>
    cases h
    exact { inv with
      completed := hcompleted
      served := fun hstopped => (inv.served hstopped).mono rfl rfl rfl le_rfl (fun _ => .inr rfl)
        (fun _ _ => .inl (.inr rfl)) fun _ => .inl (.inr rfl)
      flag := fun _ _ _ => rfl }
  case h_5 =>
    cases h
    exact { inv with completed := hcompleted, served := nofun, flag := nofun }

end TxInv

theorem txInv_of_reachable (hnum : 2 + maxSkbFrags ≤ cfg.num) (h : (txSystem cfg).Reachable s) :
    TxInv cfg s := by
  refine System.Reachable.invariant ?_ ?_ h
  · rintro _ rfl
    constructor <;> simp
  · intro s a s' inv hstep
    cases a with
    | startXmit n =>
      simp only [txSystem] at hstep
      split_ifs at hstep with hat
      cases hstep
      exact inv.move _ _ (by simp [hat.1]) fun hstopped => absurd hstopped (by simp [hat.2])
    | xmit i => exact inv.xmitStep hnum hstep
    | put => exact inv.putStep hstep

/-! ## The queue is woken -/

/-- The accesses that are left to the other side, at most -/
def TxState.putsLeft (s : TxState) : Nat :=
  5 * (s.added - s.used) +
    match s.put with
    | .idle => 0
    | .completed => 4
    | .notify => 3
    | .callback => 2
    | .wake => 1

theorem putStep_putsLeft (h : putStep cfg s = some s') :
    s'.putsLeft < s.putsLeft ∧ s'.xmit = s.xmit := by
  unfold putStep at h
  unfold TxState.putsLeft
  split at h
  case h_1 =>
    split_ifs at h
    cases h
    simp only [and_true]
    omega
  case h_2 | h_3 =>
    cases h
    simp only [and_true]
    split_ifs <;> simp
  all_goals
    cases h
    simp

/-- **No wake-up is lost**: outside `start_xmit`, completing the buffers in the ring wakes the queue. -/
theorem queue_woken (hnum : 2 + maxSkbFrags ≤ cfg.num) (h : (txSystem cfg).Reachable s)
    (hat : s.xmit = .idle) :
    ∃ k ≤ s.putsLeft, ∃ t, (txSystem cfg).run s (.replicate k .put) = some t ∧ t.stopped = false := by
  have inv := txInv_of_reachable hnum h
  clear h
  induction hn : s.putsLeft using Nat.strong_induction_on generalizing s with
  | _ n ih =>
    subst hn
    cases hstep : putStep cfg s with
    | some s' =>
      obtain ⟨hlt, hxmit⟩ := putStep_putsLeft hstep
      obtain ⟨k, hk, t, hrun, ht⟩ := ih _ hlt (hxmit.trans hat) (inv.putStep hstep) rfl
      refine ⟨k + 1, by omega, t, ?_, ht⟩
      rw [List.replicate_succ, System.run_cons, show (txSystem cfg).step s .put = some s' from hstep]
      exact hrun
    | none =>
      refine ⟨0, Nat.zero_le _, s, rfl, ?_⟩
      -- nothing is in flight, so a stopped queue would not be served
      by_contra hstopped
      have hserved := inv.served (by simpa using hstopped)
      unfold putStep at hstep
      split at hstep <;> rename_i hput <;> simp at hstep
      simp only [Served, Called, Waking, hat, hput, reduceCtorEq, false_and, and_false, or_false,
        false_or] at hserved
      obtain ⟨k, -, hk, -, hused⟩ := hserved
      omega

/-- A ring of 19 descriptors and one packet: the queue is stopped, and woken again. -/
theorem queue_woken_onePacket :
    let cfg : TxConfig := ⟨19, true, by decide⟩
    ∃ s : TxState, s.stopped = true ∧
      ∃ k ≤ s.putsLeft, ∃ t, (txSystem cfg).run s (.replicate k .put) = some t ∧
        t.stopped = false := by
  intro cfg
  have hobs : ((txSystem cfg).run { numFree := 19 }
      [.startXmit 0, .xmit 0, .xmit 0, .xmit 0, .xmit 0]).map (fun s => (s.xmit, s.stopped)) =
        some (.idle, true) := rfl
  obtain ⟨s, hreach, hs⟩ := System.exists_reachable hobs rfl
  exact ⟨s, congrArg Prod.snd hs, queue_woken (by decide) hreach (congrArg Prod.fst hs)⟩

end Vcass.VirtioNet
