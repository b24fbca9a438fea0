import Vcass.Vcablk.Building

/-!
# The Invariant of a Block Device

The parts of the invariant (the rings, the batches, the places of the contexts) are kept by the
steps of each party.
-/

namespace Vcass.Vcablk

open Vcass.Core Vcass.BlockIo List

/-- **The invariant of the frontend and its backend** -/
structure DiskInv (s : DiskState) : Prop where
  queue : QueueOk s
  ring : RingOk s
  reading : ReadingOk s
  acks : AckRingOk s
  encoded : EncodedOk s
  build : BuildOk s
  places : ∃ free, Places s free

/-! ## The request thread -/

section

variable {s s' : DiskState} {map : Option Nat} {stop : Bool}

section

variable (h : ThreadStep s map stop s')

include h

theorem ThreadStep.queue (queue : QueueOk s) : QueueOk s' := by
  cases h with
  | take at_idle hne hring hreq =>
    exact queue.take (queue.next hne hring).2 rfl rfl rfl
  | _ => exact queue.frame rfl rfl rfl

theorem ThreadStep.ring (ring : RingOk s) : RingOk s' := by
  cases h with
  | syncBefore _ hroom | syncAfter _ hroom | noMap _ hroom | mapNull _ _ hroom
  | segment _ _ hroom => exact ring.fill hroom rfl rfl rfl rfl rfl rfl
  | split _ _ _ _ | finish _ _ => exact ring.start rfl rfl rfl rfl rfl rfl rfl
  | breakNone _ | breakContext _ _ => exact ring.rewind rfl rfl rfl rfl rfl rfl
  | _ => exact ring.frame rfl rfl rfl rfl rfl rfl

theorem ThreadStep.reading (ring : RingOk s) (reading : ReadingOk s) : ReadingOk s' := by
  cases h with
  | split _ _ _ _ | finish _ _ => exact reading.frame rfl rfl (unread_append ring rfl rfl)
  | _ => exact reading.frame rfl rfl (append_nil _).symm

theorem ThreadStep.acks (acks : AckRingOk s) : AckRingOk s' := by
  cases h <;> exact acks.frame rfl rfl rfl rfl

end

theorem BuildOk.breaking (build : BuildOk s) {l : AsyncRequest} {c : Nat}
    (hat : s.thread = .syncBefore l c ∨ s.thread = .segment l c ∨ s.thread = .syncAfter l c) :
    Breaking s l := by
  unfold BuildOk at build
  rcases hat with hat | hat | hat <;> rw [hat] at build
  · exact build.1.progress.breaking
  · obtain ⟨before, -, hfill⟩ := build
    exact hfill.progress.breaking
  · obtain ⟨before, -, hfill, -⟩ := build
    exact hfill.progress.breaking

/-- **Each step of the request thread keeps what it is building.** -/
theorem ThreadStep.build (queue : QueueOk s) (ring : RingOk s) (encoded : EncodedOk s)
    (build : BuildOk s) (h : ThreadStep s map stop s') : BuildOk s' := by
  have breaking := @BuildOk.breaking s build
  unfold BuildOk at build
  cases h with
  | take at_idle hne hring hreq =>
    rw [at_idle] at build
    obtain ⟨rfl, -⟩ := queue.next hne hring
    exact ⟨build, Progress.take encoded hreq rfl rfl rfl⟩
  | getContext at_get hpop =>
    rename_i l c pool
    rw [at_get] at build
    obtain ⟨hbuilding, hprogress⟩ := build
    have hcontext : (initContext s pool c l.id).contexts c = ⟨c + 1, none, [], l.id⟩ :=
      Function.update_self ..
    have hfill : Filling (initContext s pool c l.id) l c [] [] :=
      Filling.fresh (hprogress.frame rfl (fun _ _ => id) rfl) hbuilding hcontext
    by_cases hsync : l.req.doSync = true ∧ l.previous = none
    · -- the first context of a request with the sync flag
      rw [if_pos hsync]
      refine ⟨hfill.frame rfl (fun _ _ => id) rfl rfl rfl, ?_, hprogress.previous.mp hsync.2,
        hsync.1⟩
      dsimp only
      rw [hcontext]
    · rw [if_neg hsync]
      refine ⟨[], .inr ⟨fun hwanted => hsync ?_, rfl⟩, hfill.frame rfl (fun _ _ => id) rfl rfl rfl⟩
      exact ⟨hwanted.2, hprogress.previous.mpr hwanted.1⟩
  | noContext at_get _ _ =>
    rw [at_get] at build
    exact build.2.breaking.frame rfl (fun _ _ => id) rfl
  | syncBefore at_sync hroom =>
    rename_i l c
    rw [at_sync] at build
    obtain ⟨hfill, hnil, hfirst, hsync⟩ := build
    have hpart : Filling { allocPart s c requestSync with thread := .segment l c } l c []
        [stalePart s c requestSync] := hfill.sync rfl rfl rfl rfl rfl
    exact ⟨[stalePart s c requestSync], .inl ⟨⟨hfirst, hsync⟩, _, rfl, rfl, hfill.id⟩,
      hpart.sync_first hnil⟩
  | syncAfter at_sync hroom =>
    rename_i l c
    rw [at_sync] at build
    obtain ⟨before, hbefore, hfill, hnil, hsync⟩ := build
    exact ⟨before, [stalePart s c requestSync], hbefore, .inl ⟨hsync, _, rfl, rfl, hfill.id⟩,
      hfill.sync rfl rfl rfl rfl rfl, hnil⟩
  | giveUp hat _ => exact (breaking hat).frame rfl (fun _ _ => id) rfl
  | segmentsDone at_segment hnil =>
    rename_i l c
    rw [at_segment] at build
    obtain ⟨before, hbefore, hfill⟩ := build
    by_cases hsync : l.req.doSync = true
    · rw [if_pos hsync]
      exact ⟨before, hbefore, hfill.frame rfl (fun _ _ => id) rfl rfl rfl, hnil, hsync⟩
    · rw [if_neg hsync]
      exact ⟨before, [], hbefore, .inr ⟨hsync, rfl⟩,
        hfill.frame rfl (fun _ _ => id) rfl rfl rfl, hnil⟩
  | split at_segment hsegs hsplit hne =>
    rw [at_segment] at build
    obtain ⟨before, hbefore, hfill⟩ := build
    have hmore := hsegs ▸ cons_ne_nil _ _
    exact ⟨rfl, Progress.split ring hfill hmore hbefore hsplit hne rfl rfl rfl⟩
  | splitFailed at_segment _ _ | noMap at_segment _ _ | mapNull at_segment _ _ _ _ =>
    exact (breaking (.inr (.inl at_segment))).frame rfl (fun _ _ => id) rfl
  | segment at_segment hsegs hroom hfits hmap hda =>
    rename_i l c da bvec rest
    rw [at_segment] at build
    obtain ⟨before, hbefore, hfill⟩ := build
    have hpart : segmentPart s l c bvec da =
        ⟨da, l.sector, bvec.bvLen >>> sectorShift, (s.contexts c).id, l.req.type⟩ := by
      unfold segmentPart
      rw [if_neg hda]
    refine ⟨before, hbefore, hfill.segment hsegs hfits rfl rfl rfl ?_ (Function.update_self ..)⟩
    rw [← hpart]
    rfl
  | finish at_finish hne => rfl
  | finishFailed at_finish heq =>
    rw [at_finish] at build
    obtain ⟨before, after, -, -, hfill, -⟩ := build
    exact hfill.progress.breaking.frame rfl (fun _ _ => id) rfl
  | breakNone at_abort | breakContext at_abort _ =>
    rw [at_abort] at build
    exact ⟨rfl, build.frame rfl (fun _ _ => id) rfl⟩
  | endAborted at_waiting hprevious =>
    rw [at_waiting] at build
    exact build.1

/-- **What the request thread publishes is well-formed.** -/
theorem ThreadStep.encoded (ring : RingOk s) (encoded : EncodedOk s) (build : BuildOk s)
    (h : ThreadStep s map stop s') : EncodedOk s' := by
  unfold BuildOk at build
  cases h with
  | take _ _ _ _ => exact encoded.frame (Nat.le_succ _) rfl rfl
  | split at_segment hsegs hsplit hne =>
    rename_i l c bvec rest
    rw [at_segment] at build
    obtain ⟨before, hbefore, hfill⟩ := build
    have hbatch := hfill.encodes False (s.contexts c).req hbefore
      (.inr ⟨fun hf => hf.1, rfl⟩) (ring.building_ne_nil hne)
    have hprogress : Progress { startBatch s l c with
        thread := .getContext { l with previous := some c } } _ [] :=
      Progress.split ring hfill (hsegs ▸ cons_ne_nil _ _) hbefore hsplit hne rfl rfl rfl
    exact encoded.publish rfl hbatch.batchOk (Nat.lt_of_succ_le (Nat.le_of_eq hfill.progress.taken))
      rfl rfl hfill.progress.request (.inl hprogress.batches)
  | finish at_finish hne =>
    rename_i l c
    rw [at_finish] at build
    obtain ⟨before, after, hbefore, hafter, hfill, hnil⟩ := build
    -- setting the request pointer does not touch what the batch encodes
    have hpublished : (startBatch (setReq s c l.id) l c).published = s.published ++
        [⟨c, l.id, some l.id, s.building, (s.contexts c).bvecCtxs⟩] := by
      simp [startBatch, setReq]
    have hlast : SyncParts (c + 1) (True ∧ l.req.doSync = true) after := by
      rw [true_and]
      exact hafter
    have hbatch := hfill.encodes True (some l.id) hbefore hlast
      (ring.building_ne_nil hne)
    exact encoded.publish hpublished hbatch.batchOk
      (Nat.lt_of_succ_le (Nat.le_of_eq hfill.progress.taken)) rfl rfl hfill.progress.request
      (.inr (hfill.complete ring hbefore hafter hnil hne hpublished))
  | _ => exact encoded.frame (Nat.le_refl _) rfl rfl

end

/-! ## The other parties -/

section

variable {s s' : DiskState} {req : BlkRequest}

theorem EncodedOk.queueRq (queue : QueueOk s) (ok : EncodedOk s)
    (h : QueueStep s req s') : EncodedOk s' := by
  cases h with
  | refused => exact ok
  | queued hnormal hroom =>
    refine ⟨ok.owner_lt, ok.batches, fun id req' hreq => ?_⟩
    rcases lt_or_ge id s.requests.length with hlt | hge
    · rw [List.getElem?_append_left hlt] at hreq
      exact ok.requests id req' hreq
    · refine .inl ?_
      have hnil : s.batchesOf id = [] := by
        unfold DiskState.batchesOf
        rw [filter_eq_nil_iff]
        intro b hb howner
        have hlt := ok.owner_lt b hb
        have hle := queue.taken_le
        rw [of_decide_eq_true howner] at hlt
        omega
      show Partial req' (s.batchesOf id)
      rw [hnil]
      exact Partial.nil

theorem BuildOk.queueRq (ok : BuildOk s) (h : QueueStep s req s') : BuildOk s' := by
  cases h with
  | refused => exact ok
  | queued hnormal hroom =>
    refine ok.frame rfl rfl (fun id req' hreq => ?_) rfl rfl fun _ _ => rfl
    exact List.getElem?_append_left (List.getElem?_eq_some_iff.mp hreq).1 ▸ hreq

theorem BuildOk.handler {free : List Nat} (p : Places s free) (ok : BuildOk s)
    (h : HandlerStep s s') : BuildOk s' := by
  cases h with
  | clean at_taken hused =>
    rename_i c ret
    refine ok.frame rfl rfl (fun _ _ => id) rfl rfl fun c' hc' => Function.update_of_ne ?_ _ _
    rintro rfl
    refine (p.thread_not_flight hc').2 ?_
    rw [at_taken]
    exact mem_singleton_self _
  | _ => exact ok.frame rfl rfl (fun _ _ => id) rfl rfl fun _ _ => rfl

theorem AckRingOk.handler (ok : AckRingOk s) (h : HandlerStep s s') : AckRingOk s' := by
  cases h with
  | take at_idle hne hack =>
    obtain ⟨ack, rest, -, -, hlt, -⟩ := ok.next hne
    exact ok.take hlt rfl rfl rfl rfl
  | _ => exact ok.frame rfl rfl rfl rfl

section

variable (inv : DiskInv s)

include inv

theorem DiskInv.queueRq (h : QueueStep s req s') : DiskInv s' := by
  have hqueue := inv.queue.queueRq h
  have hencoded := inv.encoded.queueRq inv.queue h
  have hbuild := inv.build.queueRq h
  cases h with
  | refused => exact inv
  | queued hnormal hroom =>
    obtain ⟨free, p⟩ := inv.places
    exact ⟨hqueue, inv.ring.frame rfl rfl rfl rfl rfl rfl,
      inv.reading.frame rfl rfl (append_nil _).symm, inv.acks.frame rfl rfl rfl rfl,
      hencoded, hbuild, free, p.frame rfl rfl⟩

theorem DiskInv.thread {map : Option Nat} {stop : Bool}
    (h : ThreadStep s map stop s') : DiskInv s' := by
  obtain ⟨free, p⟩ := inv.places
  exact ⟨h.queue inv.queue, h.ring inv.ring, h.reading inv.ring inv.reading, h.acks inv.acks,
    h.encoded inv.ring inv.encoded inv.build, h.build inv.queue inv.ring inv.encoded inv.build,
    h.places inv.ring p⟩

theorem DiskInv.handler (h : HandlerStep s s') : DiskInv s' := by
  obtain ⟨free, p⟩ := inv.places
  have hacks := inv.acks.handler h
  have hbuild := inv.build.handler p h
  have hplaces := h.places inv.acks p
  cases h <;>
    exact ⟨inv.queue.frame rfl rfl rfl, inv.ring.frame rfl rfl rfl rfl rfl rfl,
      inv.reading.frame rfl rfl (append_nil _).symm, hacks,
      inv.encoded.frame (le_refl _) rfl rfl, hbuild, hplaces⟩

theorem DiskInv.readEffect (h : NextStep s s') : ReadEffect s s' := by
  obtain ⟨free, p⟩ := inv.places
  exact h.effect inv.ring inv.reading inv.encoded.batches p.unread_nodup

theorem DiskInv.nextRequest (h : NextStep s s') : DiskInv s' := by
  obtain ⟨free, p⟩ := inv.places
  have heffect := inv.readEffect h
  have hplaces := heffect.places p
  cases heffect with
  | copied r busy heq hreading =>
    subst heq
    exact ⟨inv.queue.frame rfl rfl rfl, inv.ring.frame rfl rfl rfl rfl rfl rfl, hreading,
      inv.acks.frame rfl rfl rfl rfl, inv.encoded.frame (le_refl _) rfl rfl,
      inv.build.frame rfl rfl (fun _ _ => id) rfl rfl fun _ _ => rfl, free, hplaces⟩
  | returned b rest hunread heq =>
    subst heq
    exact ⟨inv.queue.frame rfl rfl rfl, inv.ring.finish hunread rfl rfl rfl rfl rfl rfl rfl,
      trivial, inv.acks.frame rfl rfl rfl rfl, inv.encoded.frame (le_refl _) rfl rfl,
      inv.build.frame rfl rfl (fun _ _ => id) rfl rfl fun _ _ => rfl, free, hplaces⟩

theorem DiskInv.response {a : DiskAct} (h : ResponseStep s a s') :
    DiskInv s' := by
  obtain ⟨free, p⟩ := inv.places
  have hacks := inv.acks.response h
  have hplaces := h.places inv.acks p
  cases h <;>
    exact ⟨inv.queue.frame rfl rfl rfl, inv.ring.frame rfl rfl rfl rfl rfl rfl,
      inv.reading.frame rfl rfl (append_nil _).symm, hacks,
      inv.encoded.frame (le_refl _) rfl rfl,
      inv.build.frame rfl rfl (fun _ _ => id) rfl rfl fun _ _ => rfl, free, hplaces⟩

end

end

/-! ## Every reachable state -/

theorem DiskInv.init (requestElems : Nat → VcablkRequest)
    (completionElems : Nat → VcablkCompletion) :
    DiskInv (DiskState.initial requestElems completionElems) where
  queue := ⟨rfl, rfl, le_refl _, (by decide : 0 < 0 + reqRingSize), Window.empty _ _⟩
  ring := ⟨rfl, rfl, rfl, rfl, List.nil_prefix, Window.empty _ _⟩
  reading := trivial
  acks := ⟨le_refl _, rfl, rfl, Window.empty _ _⟩
  encoded := by
    refine ⟨fun b hb => ?_, fun b hb => ?_, fun id req hreq => ?_⟩
    · cases hb
    · cases hb
    · cases hreq
  build := rfl
  places := ⟨List.range (vcablkBioCtxPoolSize + 1), Represents.init (by decide), rfl, rfl⟩

/-- **Every step keeps the invariant.** -/
theorem DiskInv.step {s s' : DiskState} {a : DiskAct} (inv : DiskInv s) (h : DiskStep s a s') :
    DiskInv s' := by
  cases h with
  | queueRq h => exact inv.queueRq h
  | thread h => exact inv.thread h
  | handler h => exact inv.handler h
  | nextRequest h => exact inv.nextRequest h
  | response h => exact inv.response h

theorem diskInv_of_reachable {s : DiskState} (h : diskSystem.Reachable s) : DiskInv s := by
  refine System.Reachable.invariant ?_ ?_ h
  · rintro s ⟨requestElems, completionElems, rfl⟩
    exact DiskInv.init requestElems completionElems
  · intro s a s' inv hstep
    exact inv.step (diskStep_cases hstep)

/-! ## Where the request thread waits -/

/-- What the request thread waits for when it cannot go on; a stop request ends the two waits for
a context and for a slot. -/
inductive ThreadWait (s : DiskState) (stop : Bool) : Prop where
  | request (at_idle : s.thread = .idle) (hempty : s.reqRing.head = s.reqRing.tail)
  | context {l : AsyncRequest} (hat : s.thread = .getContext l)
      (hpop : vcablkPoolPop s.pool = none) (hstop : stop = false)
  | slot {l : AsyncRequest} {c : Nat}
      (hat : s.thread = .syncBefore l c ∨ s.thread = .segment l c ∨ s.thread = .syncAfter l c)
      (hfull : vcaRbBuffFull s.requestRingAlloc s.requestRing.lastUsed vcablkQueueRequestsNums)
      (hstop : stop = false)
  /-- The batch that was published before the request was broken off is still mapped -/
  | previous {l : AsyncRequest} {c : Option Nat} {p : Nat} (hat : s.thread = .waiting l c)
      (hprevious : l.previous = some p) (hmapped : (s.contexts p).bvecCtxs ≠ [])

section

variable {s : DiskState}

theorem push_of_busy (inv : DiskInv s) {c : Nat} (hbusy : c + 1 ∈ s.busy) :
    ∃ pool, vcablkPoolPush s.pool c = some pool := by
  obtain ⟨free, p⟩ := inv.places
  obtain ⟨c', heq, hlt, hfree⟩ := p.of_busy hbusy
  cases heq
  obtain ⟨pool, hpush, -⟩ := p.pool.push hlt hfree
  exact ⟨pool, hpush⟩

theorem QueueOk.takeRequest_none (ok : QueueOk s) (h : takeRequest s = none) :
    s.reqRing.head = s.reqRing.tail := by
  by_contra hne
  obtain ⟨hlt, htail⟩ := ok.pending hne
  unfold takeRequest at h
  rw [if_neg hne, htail] at h
  simp [hlt] at h

theorem syncStep_none {c : Nat} {stop : Bool} (h : syncStep s c stop = none) :
    vcaRbBuffFull s.requestRingAlloc s.requestRing.lastUsed vcablkQueueRequestsNums ∧
      stop = false := by
  unfold syncStep at h
  split_ifs at h with hfull hstop
  exact ⟨hfull, Bool.eq_false_of_not_eq_true hstop⟩

theorem segmentTurn_none {l : AsyncRequest} {c : Nat} {map : Option Nat} {stop : Bool}
    (h : segmentTurn s l c map stop = none) :
    vcaRbBuffFull s.requestRingAlloc s.requestRing.lastUsed vcablkQueueRequestsNums ∧
      stop = false := by
  unfold segmentTurn at h
  split at h
  · cases h
  · split_ifs at h with hsplit
    -- the batch of a full context is published or broken off, without a wait
    · split at h <;> cases h
    · rw [Option.map_eq_none_iff] at h
      unfold segmentStep at h
      split_ifs at h with hfull hstop
      · exact ⟨hfull, Bool.eq_false_of_not_eq_true hstop⟩
      · cases map <;> cases h

/-- **Where the request thread stops it waits**: the `BUG_ON` of the push is never met. -/
theorem DiskInv.threadWait (inv : DiskInv s) {map : Option Nat} {stop : Bool}
    (h : threadStep s map stop = none) : ThreadWait s stop := by
  unfold threadStep at h
  cases ht : s.thread with rw [ht] at h
  | idle => exact .request ht (inv.queue.takeRequest_none h)
  | getContext l =>
    dsimp only [getContextStep] at h
    cases hpop : vcablkPoolPop s.pool with
    | some r =>
      rw [hpop] at h
      cases h
    | none =>
      rw [hpop] at h
      cases stop with
      | true => cases h
      | false => exact .context ht hpop rfl
  | syncBefore l c =>
    obtain ⟨hfull, hstop⟩ := syncStep_none (Option.map_eq_none_iff.mp h)
    exact .slot (.inl ht) hfull hstop
  | segment l c =>
    obtain ⟨hfull, hstop⟩ := segmentTurn_none h
    exact .slot (.inr (.inl ht)) hfull hstop
  | syncAfter l c =>
    obtain ⟨hfull, hstop⟩ := syncStep_none (Option.map_eq_none_iff.mp h)
    exact .slot (.inr (.inr ht)) hfull hstop
  | finish l c => cases h
  | abort l c =>
    cases c with
    | none => cases h
    | some c =>
      have hcookie : c + 1 ∈ s.thread.cookies := by
        rw [ht]
        exact List.mem_cons_self
      obtain ⟨pool, hpush⟩ := push_of_busy inv (DiskState.mem_busy.mpr (.inl hcookie))
      simp [requestBreak, poolPush, requestClean, rewindRing, hpush] at h
  | waiting l c =>
    dsimp only at h
    cases hprevious : l.previous with
    | none =>
      rw [hprevious] at h
      cases h
    | some p =>
      rw [hprevious] at h
      refine .previous ht hprevious fun hclean => ?_
      dsimp only at h
      rw [if_pos hclean] at h
      cases h

end

end Vcass.Vcablk
