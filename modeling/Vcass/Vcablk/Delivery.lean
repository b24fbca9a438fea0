import Vcass.Vcablk.Invariant

/-!
# Delivery of Batches and Answers

- `request_framing`: what `vcablk_bcknd_disk_get_next_request` returns is what
  `vcablk_disk_request_start` published, batch by batch.
- `completion_ring_never_full`: an answer always finds a free slot, and
  `vcablk_disk_request_completion_handler` finds the answers in the order in which they were
  posted.  A context is the credit for one answer: it goes back to the pool after its slot is
  free again.
-/

namespace Vcass.Vcablk

open Vcass.Core Vcass.BlockIo List Multiset DiskState

/-! ## Batches -/

variable {s : DiskState}

/-- Nothing is unread once the backend has caught up with `last_add`. -/
theorem RingOk.all_read (ok : RingOk s) (batches : ∀ b ∈ s.published, BatchOk b)
    (heq : s.requestLastUsed = s.requestRing.lastAdd) : s.unread = [] := by
  have hparts := ok.parts_eq
  have hfits := ok.window.fits
  have hpos : 0 < vcablkQueueRequestsNums := by decide
  rw [ok.requestLastUsed, ok.lastUsed, ok.lastAdd] at heq
  rw [length_append] at hfits
  -- the counters are not a whole lap apart
  have hlen := (counter_eq_iff ok.used_le (by omega)).mp heq
  rw [hparts, length_append] at hlen
  have hnil : s.unread.flatMap Batch.parts = [] := eq_nil_of_length_eq_zero (by omega)
  cases hunread : s.unread with
  | nil => rfl
  | cons b rest =>
    rw [hunread, flatMap_cons, append_eq_nil_iff] at hnil
    exact absurd hnil.1 (batches b (mem_published hunread)).nonempty

theorem unread_head {b : Batch} {rest : List Batch} (h : s.unread = b :: rest) :
    s.published[s.returned.length]? = some b := by
  have hhead := congrArg (·[0]?) h
  simpa [unread] using hhead

/-- **Request framing**: the lists that `vcablk_bcknd_disk_get_next_request` returned are the
first of the published batches, in order; a call that returns gives the next batch as a
whole; a call under way holds only parts of that batch; and when the backend has caught up
with `last_add` nothing is missing. -/
theorem request_framing {s : DiskState} (h : diskSystem.Reachable s) :
    s.returned <+: s.published.map Batch.parts ∧
      (∀ s', nextRequestStep s = some s' → s'.nextRequest = .idle →
        ∃ b, s.published[s.returned.length]? = some b ∧ s'.returned = s.returned ++ [b.parts]) ∧
      (∀ lastAdd lastUsed cookie buff, s.nextRequest = .reading lastAdd lastUsed cookie buff →
        ∃ b, s.published[s.returned.length]? = some b ∧ buff <+: b.parts) ∧
      (s.requestLastUsed = s.requestRing.lastAdd → s.returned = s.published.map Batch.parts) := by
  have inv := diskInv_of_reachable h
  refine ⟨inv.ring.returned, fun s' hstep hidle => ?_, fun lastAdd lastUsed cookie buff hread => ?_,
    fun heq => ?_⟩
  · cases inv.readEffect (nextRequestStep_cases hstep) with
    | copied r busy heq hok =>
      subst heq
      exact absurd hidle busy
    | returned b rest hunread heq =>
      subst heq
      exact ⟨b, unread_head hunread, rfl⟩
  · have hok := inv.reading
    unfold ReadingOk at hok
    rw [hread] at hok
    obtain ⟨b, more, later, hunread, -, -, hbuff, -⟩ := hok
    exact ⟨b, unread_head hunread, hbuff⟩
  · have hall := inv.ring.all_read inv.encoded.batches heq
    unfold DiskState.unread at hall
    have hlen := List.drop_eq_nil_iff.mp hall
    refine inv.ring.returned.eq_of_length_le ?_
    rw [List.length_map]
    exact hlen

/-! ### A run with two batches -/

/-- A request without data that wants the media synchronised -/
def flushRequest : BlkRequest := ⟨false, false, true, false, false, false, 0, []⟩

/-- A fresh device with cleared rings -/
def clearedDisk : DiskState := DiskState.initial (fun _ => ⟨0, 0, 0, 0, 0⟩) (fun _ => ⟨0, 0⟩)

/-- Two flushes are published, then both are read. -/
def twoFlushes : List DiskAct :=
  [DiskAct.queueRq flushRequest, .queueRq flushRequest] ++
    List.replicate 12 (DiskAct.thread none false) ++ List.replicate 8 DiskAct.nextRequest

theorem request_framing_twoFlushes :
    ∃ s, diskSystem.Reachable s ∧ s.published.length = 2 ∧
      s.returned = s.published.map Batch.parts := by
  have hrun : (diskSystem.run clearedDisk twoFlushes).map (fun s =>
      (s.published.length, decide (s.requestLastUsed = s.requestRing.lastAdd))) =
      some (2, true) := by decide +kernel
  obtain ⟨s, hreach, hobs⟩ := System.exists_reachable hrun ⟨_, _, rfl⟩
  obtain ⟨hlen, hend⟩ := Prod.mk.inj hobs
  exact ⟨s, hreach, hlen, (request_framing hreach).2.2.2 (of_decide_eq_true hend)⟩

/-! ## Answers -/

variable {free : List Nat}

theorem Places.free_ne_nil (p : Places s free) : free ≠ [] := by
  rintro rfl
  cases p.pool.head

/-- The contexts in use are at most `VCABLK_BIO_CTX_POOL_SIZE`. -/
theorem Places.card_busy_le (p : Places s free) : s.busy.card ≤ vcablkBioCtxPoolSize := by
  have hcard := congrArg Multiset.card p.cookies
  rw [card_add, coe_card, coe_card, length_map] at hcard
  have hall : allCookies.length = vcablkBioCtxPoolSize + 1 := by
    unfold allCookies
    rw [length_map, length_range]
  have hpos := List.length_pos_iff.mpr p.free_ne_nil
  omega

theorem Places.credit (p : Places s free) :
    s.unanswered.length + s.pendingAcks.length ≤ vcablkBioCtxPoolSize := by
  refine Nat.le_trans ?_ p.card_busy_le
  unfold busy flight
  simp only [card_add, coe_card, length_map]
  omega

theorem DiskInv.ack_room (inv : DiskInv s) (at_idle : s.response = .idle)
    (hne : s.unanswered ≠ []) :
    ¬ vcaRbBuffFull s.completionRing.lastAdd s.completionRing.lastUsed vcablkQueueAckNums := by
  obtain ⟨free, p⟩ := inv.places
  have hle := inv.acks.taken_le
  have hadd := inv.acks.lastAdd
  simp only [at_idle, SendResponse.pending, Nat.sub_zero, Nat.add_zero] at hle hadd
  rw [hadd, inv.acks.lastUsed, rbCounter_full ackNums_pow hle inv.acks.window.fits]
  -- the cookie to answer and the answers on their way share the contexts
  have hcredit := p.credit
  have hpos := List.length_pos_iff.mpr hne
  unfold pendingAcks at hcredit
  rw [length_drop] at hcredit
  unfold vcablkQueueAckNums
  omega

theorem DiskStep.lost_nil {s s' : DiskState} {a : DiskAct} (inv : DiskInv s) (hlost : s.lost = [])
    (h : DiskStep s a s') : s'.lost = [] := by
  cases h with
  | queueRq h => cases h <;> exact hlost
  | thread h => cases h <;> exact hlost
  | handler h => cases h <;> exact hlost
  | nextRequest h =>
    cases inv.readEffect h with
    | copied r busy heq hok =>
      subst heq
      exact hlost
    | returned b rest hunread heq =>
      subst heq
      exact hlost
  | response h =>
    cases h with
    | write _ _ _ | publish _ => exact hlost
    | timeout at_idle hk hfull =>
      refine absurd hfull (inv.ack_room at_idle ?_)
      rintro hnil
      rw [hnil] at hk
      cases hk

theorem lost_nil_of_reachable (h : diskSystem.Reachable s) : s.lost = [] := by
  have hboth : DiskInv s ∧ s.lost = [] := by
    refine System.Reachable.invariant (I := fun s => DiskInv s ∧ s.lost = []) ?_ ?_ h
    · rintro s ⟨requestElems, completionElems, rfl⟩
      exact ⟨DiskInv.init requestElems completionElems, rfl⟩
    · rintro s a s' ⟨inv, hlost⟩ hstep
      have hcases := diskStep_cases hstep
      exact ⟨inv.step hcases, hcases.lost_nil inv hlost⟩
  exact hboth.2

theorem AckRingOk.all_taken (ok : AckRingOk s) (hresponse : s.response = .idle)
    (heq : s.completionRing.lastUsed = s.completionRing.lastAdd) :
    s.acksTaken = s.acks.length := by
  have hle := ok.taken_le
  have hadd := ok.lastAdd
  have hfits := ok.window.fits
  have hpos : 0 < vcablkQueueAckNums := by decide
  simp only [hresponse, SendResponse.pending, Nat.sub_zero, Nat.add_zero] at hle hadd
  rw [ok.lastUsed, hadd, counter_eq_iff hle (by omega)] at heq
  exact heq

/-- **The completion ring is never full** when `vcablk_bcknd_disk_send_response` has an answer to
post, so no answer is lost; the answers on their way are still in their slots; and the
handler takes them in the order in which they were posted. -/
theorem completion_ring_never_full {s : DiskState} (h : diskSystem.Reachable s) :
    (s.response = .idle → s.unanswered ≠ [] →
        ¬ vcaRbBuffFull s.completionRing.lastAdd s.completionRing.lastUsed vcablkQueueAckNums) ∧
      s.lost = [] ∧
      (∀ i ack, s.acksTaken ≤ i → s.acks[i]? = some ack →
        s.completionRing.elems (i % vcablkQueueAckNums) = ack) ∧
      (s.handler = .idle → ∀ s', handlerStep s = some s' →
        ∃ ack, s.acks[s.acksTaken]? = some ack ∧ s'.handler = .taken ack.cookie ack.ret ∧
          s'.acksTaken = s.acksTaken + 1) ∧
      (s.response = .idle → s.completionRing.lastUsed = s.completionRing.lastAdd →
        s.acksTaken = s.acks.length) := by
  have inv := diskInv_of_reachable h
  refine ⟨inv.ack_room, lost_nil_of_reachable h, fun i ack hle hack => inv.acks.window.read hle hack,
    fun hidle s' hstep => ?_, fun at_idle heq => ?_⟩
  · cases handlerStep_cases hstep with
    | take at_idle hne hack =>
      obtain ⟨ack, rest, -, hget, -, hread⟩ := inv.acks.next hne
      cases hack.symm.trans hread
      exact ⟨_, hget, rfl, rfl⟩
    | clean hat | drop hat | push hat | ends hat | remembers hat =>
      rw [hidle] at hat
      cases hat
  · exact inv.acks.all_taken at_idle heq

/-- Both flushes are answered, the second one first, and the handler takes the first answer. -/
def twoAnswers : List DiskAct :=
  twoFlushes ++
    [DiskAct.respond 1 0, .publishResponse, .respond 0 (-5), .publishResponse, .handler]

theorem completion_ring_never_full_twoAnswers :
    ∃ s, diskSystem.Reachable s ∧ s.acks = [⟨2, 0⟩, ⟨1, -5⟩] ∧ s.acksTaken = 1 ∧
      s.completionRing.elems 1 = ⟨1, -5⟩ := by
  have hrun : (diskSystem.run clearedDisk twoAnswers).map (fun s => (s.acks, s.acksTaken)) =
      some ([⟨2, 0⟩, ⟨1, -5⟩], 1) := by decide +kernel
  obtain ⟨s, hreach, hobs⟩ := System.exists_reachable hrun ⟨_, _, rfl⟩
  obtain ⟨hacks, htaken⟩ := Prod.mk.inj hobs
  refine ⟨s, hreach, hacks, htaken, ?_⟩
  exact (completion_ring_never_full hreach).2.2.1 1 ⟨1, -5⟩ (by omega) (by rw [hacks]; rfl)

end Vcass.Vcablk
