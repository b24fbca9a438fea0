import Vcass.Vop.Lifecycle

/-!
# When a Stop Is Final

`common_dev_stop` waits for the transfer threads only if it has read the state
`VOP_DEV_READY_STATE_WORK`, and `common_dev_init_task` tests the state for the last time before it
sets the mode.  A stop that falls between this test and the end of the task returns at once, and
the task goes on: it installs the ring, spawns the threads and sets `VOP_DEV_READY_STATE_WORK`
(`stop_undone`).  A signal that ends one of the waits has the same effect on the threads.

A stop is final (`stopFinal_of_orderly`) when

- no two calls overlap, and a start finds no init task of an earlier start;
- when the stop writes the state, the state is still the one it has read, and no init task is past
  its last test;
- no signal arrives.

The invariant (`LifeInv`) says what each access of the one call under way relies on.  At rest
(`Resting`) the device is down, or starting with one init task, or at work with at most one
thread of each kind, whose completion is still to come.
-/

namespace Vcass.Vop

open Vcass.Core DevCommon WorkerState

/-! ## The condition -/

/-- The init task has made its last test of `ready`, and has not ended. -/
def InitPhase.past : InitPhase → Bool
  | .mode | .ring | .items | .run _ | .work => true
  | .check | .sleep | .recheck | .err _ => false

/-- The state that a stop overwrites is the one it has read, and no init task is past its last
test. -/
def DevCommon.Settled (d : DevCommon) : Option CallPhase → Prop
  | some (.stopWrite readyOld) => d.ready = readyOld ∧ ∀ q ∈ d.inits, q.past = false
  | _ => True

def LifeOrderly (s : Lifecycle) (a : LifeAct) (_ : Lifecycle) : Prop :=
  match a with
  | .start => s.calls = [] ∧ s.dev.inits = []
  | .stop => s.calls = []
  | .call i inp => inp.signal = false ∧ s.dev.Settled s.calls[i]?
  | .init _ _ | .leave _ | .complete _ => True

instance (d : DevCommon) (p : Option CallPhase) : Decidable (d.Settled p) :=
  match p with
  | some (.stopWrite _) => inferInstanceAs (Decidable (_ ∧ _))
  | none | some .startCheck | some .startReinit | some .startReady | some .startRun
  | some .stopCheck | some .stopRead | some (.stopWait _) | some .stopDeinit =>
    inferInstanceAs (Decidable True)

instance (s : Lifecycle) (a : LifeAct) (s' : Lifecycle) : Decidable (LifeOrderly s a s') :=
  match a with
  | .start => inferInstanceAs (Decidable (_ ∧ _))
  | .stop => inferInstanceAs (Decidable (s.calls = []))
  | .call _ _ => inferInstanceAs (Decidable (_ ∧ _))
  | .init _ _ | .leave _ | .complete _ => inferInstanceAs (Decidable True)

/-! ## The invariant -/

namespace DevCommon

/-- No thread of this kind, and nothing left in its completion -/
def Fresh (d : DevCommon) (w : Worker) : Prop :=
  d.alive w = 0 ∧ (d.workers w).complete = 0

/-- At most one thread of this kind, whose completion is still to come -/
def Alone (d : DevCommon) (w : Worker) : Prop :=
  d.alive w = 0 ∨ d.alive w = 1 ∧ (d.workers w).complete = 0

/-- What a stop that waits for the threads relies on: the waits are for all threads there are. -/
def Known (d : DevCommon) : Prop :=
  (∀ w, d.Alone w) ∧ (d.writeInThread = false → d.alive .vdm = 0)

/-- What holds before each access of the only init task -/
def InitOk (d : DevCommon) : InitPhase → Prop
  | .check | .sleep | .recheck | .mode | .ring => (∀ w, d.Fresh w) ∧ d.buffersRing = false
  | .items | .run .vrd => ∀ w, d.Fresh w
  | .run .vdm => d.Alone .vrd ∧ d.Fresh .vdm ∧ d.Fresh .vsd
  | .run .vsd =>
    d.Alone .vrd ∧ d.Alone .vdm ∧ d.Fresh .vsd ∧ (d.writeInThread = false → d.alive .vdm = 0)
  | .work => d.Known
  | .err _ => d.Down

/-- There is at most one init task, and it has not made its last test. -/
def Waiting (d : DevCommon) : Prop :=
  d.inits = [] ∨ ∃ q, d.inits = [q] ∧ q.past = false ∧ d.InitOk q

/-- There is one init task, or it has ended with an error. -/
def Coming (d : DevCommon) : Prop :=
  d.inits = [] ∧ d.Down ∨ ∃ q, d.inits = [q] ∧ d.InitOk q

/-- The device while no call changes it -/
def Resting (d : DevCommon) : Prop :=
  match d.ready with
  | .stop => d.Down ∧ d.Waiting
  | .starting => d.Coming
  | .work => d.inits = [] ∧ d.Known

/-- What holds before each access of the only call -/
def CallOk (d : DevCommon) : CallPhase → Prop
  | .startCheck => d.stopped = false ∧ d.Resting ∧ d.inits = []
  | .startReinit => d.stopped = false ∧ d.ready = .stop ∧ d.inits = [] ∧ d.Down
  | .startReady =>
    d.stopped = false ∧ d.ready = .stop ∧ d.inits = [] ∧ (∀ w, d.Fresh w) ∧ d.buffersRing = false
  | .startRun =>
    d.stopped = false ∧ d.ready = .starting ∧ d.inits = [] ∧ (∀ w, d.Fresh w) ∧
      d.buffersRing = false
  | .stopCheck => (d.stopped = true → d.ready = .stop) ∧ d.Resting
  | .stopRead | .stopWrite _ => d.stopped = false ∧ d.Resting
  | .stopWait .vrd => d.stopped = false ∧ d.ready = .stop ∧ d.inits = [] ∧ d.Known
  | .stopWait .vdm =>
    d.stopped = false ∧ d.ready = .stop ∧ d.inits = [] ∧ d.Known ∧ d.alive .vrd = 0
  | .stopWait .vsd =>
    d.stopped = false ∧ d.ready = .stop ∧ d.inits = [] ∧ d.Known ∧ d.alive .vrd = 0 ∧
      d.alive .vdm = 0
  | .stopDeinit => d.stopped = false ∧ d.ready = .stop ∧ (∀ w, d.alive w = 0) ∧ d.Waiting

end DevCommon

/-- **The invariant**: at most one call is under way, and finds what it relies on. -/
def LifeInv (s : Lifecycle) : Prop :=
  s.calls = [] ∧ (s.dev.stopped = true → s.dev.ready = .stop) ∧ s.dev.Resting ∨
    ∃ p, s.calls = [p] ∧ s.dev.CallOk p

theorem LifeInv.stopFinal {s : Lifecycle} (h : LifeInv s) : StopFinal s := by
  intro hstopped
  have hdown : s.dev.ready = .stop → s.dev.Resting → s.dev.ready = .stop ∧ s.dev.Down := by
    intro hready hrest
    simp only [DevCommon.Resting, hready] at hrest
    exact ⟨hready, hrest.1⟩
  rcases h with ⟨_, hready, hrest⟩ | ⟨p, _, hcall⟩
  · exact hdown (hready hstopped) hrest
  · -- every call but a stop at its first test has reset the mark
    unfold DevCommon.CallOk at hcall
    split at hcall
    case h_5 => exact hdown (hcall.1 hstopped) hcall.2
    all_goals
      rw [hstopped] at hcall
      cases hcall.1

/-! ## The transfer threads -/

section

variable {d d' : DevCommon}

/-- The threads move on: one of them may have ended. -/
structure MovesOn (d d' : DevCommon) : Prop where
  rest : d' = { d with workers := d'.workers }
  each : ∀ w, d'.alive w = d.alive w ∧ (d'.workers w).complete = (d.workers w).complete ∨
    d'.alive w + 1 = d.alive w

namespace MovesOn

theorem down (h : MovesOn d d') (hd : ∀ w, d.alive w = 0) (w : Worker) : d'.alive w = 0 := by
  have hw := hd w
  rcases h.each w with hsame | hended <;> omega

variable {w : Worker}

theorem fresh (h : MovesOn d d') (hd : d.Fresh w) : d'.Fresh w := by
  obtain ⟨halive, hcomplete⟩ := hd
  rcases h.each w with hsame | hended
  · exact ⟨by omega, by omega⟩
  · omega

theorem alone (h : MovesOn d d') (hd : d.Alone w) : d'.Alone w := by
  unfold DevCommon.Alone at hd ⊢
  rcases h.each w with hsame | hended <;> omega

theorem ended (h : MovesOn d d') (hd : d.alive w = 0) : d'.alive w = 0 := by
  rcases h.each w with hsame | hended <;> omega

variable (h : MovesOn d d')

include h

theorem ready : d'.ready = d.ready := by rw [h.rest]

theorem inits : d'.inits = d.inits := by rw [h.rest]

theorem stopped : d'.stopped = d.stopped := by rw [h.rest]

theorem buffersRing : d'.buffersRing = d.buffersRing := by rw [h.rest]

theorem writeInThread : d'.writeInThread = d.writeInThread := by rw [h.rest]

theorem known (hd : d.Known) : d'.Known := by
  refine ⟨fun w => h.alone (hd.1 w), ?_⟩
  intro hmode
  exact h.ended (hd.2 (h.writeInThread ▸ hmode))

theorem initOk {q : InitPhase} (hd : d.InitOk q) : d'.InitOk q := by
  unfold DevCommon.InitOk at hd ⊢
  split
  case h_1 | h_2 | h_3 | h_4 | h_5 => exact ⟨fun w => h.fresh (hd.1 w), h.buffersRing ▸ hd.2⟩
  case h_6 | h_7 => exact fun w => h.fresh (hd w)
  case h_8 => exact ⟨h.alone hd.1, h.fresh hd.2.1, h.fresh hd.2.2⟩
  case h_9 =>
    refine ⟨h.alone hd.1, h.alone hd.2.1, h.fresh hd.2.2.1, ?_⟩
    intro hmode
    exact h.ended (hd.2.2.2 (h.writeInThread ▸ hmode))
  case h_10 => exact h.known hd
  case h_11 => exact ⟨h.down hd.1, h.buffersRing ▸ hd.2⟩

theorem waiting (hd : d.Waiting) : d'.Waiting := by
  rcases hd with hnone | ⟨q, hone, hpast, hok⟩
  · exact .inl (h.inits.trans hnone)
  · exact .inr ⟨q, h.inits.trans hone, hpast, h.initOk hok⟩

theorem resting (hd : d.Resting) : d'.Resting := by
  unfold DevCommon.Resting at hd ⊢
  rw [h.ready]
  split
  case h_1 hready =>
    rw [hready] at hd
    exact ⟨⟨h.down hd.1.1, h.buffersRing ▸ hd.1.2⟩, h.waiting hd.2⟩
  case h_2 hready =>
    rw [hready] at hd
    rcases hd with ⟨hnone, hdown⟩ | ⟨q, hone, hok⟩
    · exact .inl ⟨h.inits.trans hnone, h.down hdown.1, h.buffersRing ▸ hdown.2⟩
    · exact .inr ⟨q, h.inits.trans hone, h.initOk hok⟩
  case h_3 hready =>
    rw [hready] at hd
    exact ⟨h.inits.trans hd.1, h.known hd.2⟩

theorem callOk {p : CallPhase} (hd : d.CallOk p) : d'.CallOk p := by
  unfold DevCommon.CallOk at hd ⊢
  rw [h.ready, h.inits, h.stopped, h.buffersRing]
  split
  case h_1 => exact ⟨hd.1, h.resting hd.2.1, hd.2.2⟩
  case h_2 => exact ⟨hd.1, hd.2.1, hd.2.2.1, h.down hd.2.2.2.1, h.buffersRing ▸ hd.2.2.2.2⟩
  case h_3 | h_4 =>
    exact ⟨hd.1, hd.2.1, hd.2.2.1, fun w => h.fresh (hd.2.2.2.1 w), hd.2.2.2.2⟩
  case h_5 | h_6 | h_7 => exact ⟨hd.1, h.resting hd.2⟩
  case h_8 => exact ⟨hd.1, hd.2.1, hd.2.2.1, h.known hd.2.2.2⟩
  case h_9 => exact ⟨hd.1, hd.2.1, hd.2.2.1, h.known hd.2.2.2.1, h.ended hd.2.2.2.2⟩
  case h_10 =>
    exact ⟨hd.1, hd.2.1, hd.2.2.1, h.known hd.2.2.2.1, h.ended hd.2.2.2.2.1, h.ended hd.2.2.2.2.2⟩
  case h_11 => exact ⟨hd.1, hd.2.1, h.down hd.2.2.1, h.waiting hd.2.2.2⟩

end MovesOn

/-- **The threads keep the invariant.** -/
theorem LifeInv.movesOn {s : Lifecycle} (h : LifeInv s) (hmove : MovesOn s.dev d') :
    LifeInv { s with dev := d' } := by
  rcases h with ⟨hnone, hstopped, hrest⟩ | ⟨p, hone, hcall⟩
  · refine .inl ⟨hnone, ?_, hmove.resting hrest⟩
    intro hmark
    exact hmove.ready.trans (hstopped (hmove.stopped ▸ hmark))
  · exact .inr ⟨p, hone, hmove.callOk hcall⟩

@[simp]
theorem setWorker_self (d : DevCommon) (w : Worker) (f : WorkerState → WorkerState) :
    (d.setWorker w f).workers w = f (d.workers w) :=
  Function.update_self ..

theorem setWorker_of_ne (d : DevCommon) {w v : Worker} (f : WorkerState → WorkerState)
    (h : v ≠ w) : (d.setWorker w f).workers v = d.workers v :=
  Function.update_of_ne h ..

theorem movesOn_setWorker (d : DevCommon) (w : Worker) (f : WorkerState → WorkerState)
    (h : (f (d.workers w)).running + (f (d.workers w)).leaving = d.alive w ∧
        (f (d.workers w)).complete = (d.workers w).complete ∨
      (f (d.workers w)).running + (f (d.workers w)).leaving + 1 = d.alive w) :
    MovesOn d (d.setWorker w f) where
  rest := rfl
  each := by
    intro v
    by_cases hv : v = w
    · subst hv
      simp only [alive, setWorker_self]
      exact h
    · simp only [alive, setWorker_of_ne d f hv]
      exact .inl ⟨trivial, trivial⟩

variable {w : Worker}

theorem LifeInv.leave {s s' : Lifecycle} (h : LifeInv s)
    (hstep : lifeStep s (.leave w) = some s') : LifeInv s' := by
  rw [lifeStep] at hstep
  split at hstep
  case isTrue hrun =>
    cases hstep
    apply h.movesOn
    apply movesOn_setWorker
    left
    have hpos := hrun.2
    simp only [DevCommon.alive]
    exact ⟨by omega, trivial⟩
  case isFalse => cases hstep

theorem LifeInv.complete {s s' : Lifecycle} (h : LifeInv s)
    (hstep : lifeStep s (.complete w) = some s') : LifeInv s' := by
  rw [lifeStep] at hstep
  split at hstep
  case isTrue hleave =>
    cases hstep
    apply h.movesOn
    apply movesOn_setWorker
    right
    simp only [DevCommon.alive, signal]
    omega
  case isFalse => cases hstep

end

/-! ## The init task -/

section

variable {d : DevCommon} {q : InitPhase} {inp : InitInput}

/-- The device after a step of its only init task -/
def DevCommon.initNext (d : DevCommon) (inp : InitInput) (q : InitPhase) : DevCommon :=
  { (commonDevInitTask d inp q).1 with
    inits := replacePhase (commonDevInitTask d inp q).1.inits 0 (commonDevInitTask d inp q).2 }

theorem DevCommon.InitOk.withInits (h : d.InitOk q) (l : List InitPhase) :
    DevCommon.InitOk { d with inits := l } q := by
  cases q with
  | run w => cases w <;> exact h
  | check | sleep | recheck | mode | ring | items | work | err => exact h

theorem DevCommon.Coming.resting (h : d.Coming) (hready : d.ready = .starting) : d.Resting := by
  unfold Resting
  rw [hready]
  exact h

section

variable {d' : DevCommon} {q' : InitPhase}

theorem resting_next (heq : commonDevInitTask d inp q = (d', some q')) (hready : d'.ready = .starting)
    (hone : d'.inits = [q]) (hok : d'.InitOk q') : (d.initNext inp q).Resting := by
  unfold initNext
  rw [heq]
  refine DevCommon.Coming.resting (.inr ⟨q', ?_, hok.withInits _⟩) hready
  simp only [hone]
  rfl

theorem resting_failed (heq : commonDevInitTask d inp q = (d', none)) (hready : d'.ready = .starting)
    (hone : d'.inits = [q]) (hdown : d'.Down) : (d.initNext inp q).Resting := by
  unfold initNext
  rw [heq]
  refine DevCommon.Coming.resting (.inl ⟨?_, hdown⟩) hready
  simp only [hone]
  rfl

theorem waiting_next {next : Option InitPhase} (heq : commonDevInitTask d inp q = (d', next))
    (hone : d'.inits = [q]) (hok : ∀ q' ∈ next, q'.past = false ∧ d'.InitOk q') :
    (d.initNext inp q).Waiting := by
  unfold initNext DevCommon.Waiting
  rw [heq]
  simp only [hone]
  cases next with
  | none => exact .inl rfl
  | some q' =>
    obtain ⟨hpast, hnext⟩ := hok q' rfl
    exact .inr ⟨q', rfl, hpast, hnext.withInits _⟩

end

theorem alive_signal (d : DevCommon) (w v : Worker) :
    (d.setWorker w signal).alive v = d.alive v := by
  by_cases hv : v = w
  · subst hv
    simp [alive, signal]
  · simp [alive, setWorker_of_ne d _ hv]

theorem DevCommon.Down.signal (h : d.Down) (w : Worker) : (d.setWorker w signal).Down := by
  refine ⟨?_, h.2⟩
  intro v
  rw [alive_signal]
  exact h.1 v

theorem DevCommon.InitOk.down (hok : d.InitOk q) (hpast : q.past = false) : d.Down := by
  cases q with
  | check | sleep | recheck => exact ⟨fun w => (hok.1 w).1, hok.2⟩
  | err => exact hok
  | mode | ring | items | run _ | work => cases hpast

theorem initTask_err (hdown : d.Down) (inp : InitInput) (w : Worker) :
    ∃ d' next, commonDevInitTask d inp (.err w) = (d', next) ∧ d'.ready = d.ready ∧
      d'.inits = d.inits ∧ d'.Down ∧ ∀ q' ∈ next, ∃ v, q' = .err v := by
  cases w with
  | vrd => exact ⟨_, _, rfl, rfl, rfl, hdown.signal .vrd, by simp⟩
  | vdm =>
    cases hmode : d.writeInThread with
    | true =>
      refine ⟨d.setWorker .vdm signal, some (.err .vsd), ?_, rfl, rfl,
        hdown.signal .vdm, by simp⟩
      simp [commonDevInitTask, hmode]
    | false =>
      refine ⟨d, some (.err .vsd), ?_, rfl, rfl, hdown, by simp⟩
      simp [commonDevInitTask, hmode]
  | vsd => exact ⟨_, _, rfl, rfl, rfl, hdown.signal .vsd, by simp⟩

/-- **The init task of a stopped device** that has not made its last test leaves the device down. -/
theorem DevCommon.InitOk.stopped (hok : d.InitOk q) (hready : d.ready = .stop)
    (hone : d.inits = [q]) (hpast : q.past = false) :
    (d.initNext inp q).ready = .stop ∧ (d.initNext inp q).Down ∧ (d.initNext inp q).Waiting := by
  have hdown := hok.down hpast
  -- the task leaves the device as it is and goes on with `q'`
  have hgoOn : ∀ q' : InitPhase, commonDevInitTask d inp q = (d, some q') → q'.past = false →
      d.InitOk q' → (d.initNext inp q).ready = .stop ∧ (d.initNext inp q).Down ∧
        (d.initNext inp q).Waiting := by
    intro q' heq hpast' hnext
    have hwait := waiting_next heq hone (by simp [hpast', hnext])
    unfold initNext at hwait ⊢
    rw [heq] at hwait ⊢
    exact ⟨hready, hdown, hwait⟩
  cases q with
  | check => exact hgoOn (.err .vrd) (by simp [commonDevInitTask, hready]) rfl hdown
  | sleep => exact hgoOn .recheck (by simp [commonDevInitTask, hready]) rfl hok
  | recheck => exact hgoOn (.err .vrd) (by simp [commonDevInitTask, hready]) rfl hdown
  | err w =>
    obtain ⟨d', next, heq, hready', hinits', hdown', hnext⟩ := initTask_err hdown inp w
    have hwait : (d.initNext inp (.err w)).Waiting := by
      apply waiting_next heq (hinits'.trans hone)
      intro q' hq'
      obtain ⟨v, rfl⟩ := hnext q' hq'
      exact ⟨rfl, hdown'⟩
    unfold initNext at hwait ⊢
    rw [heq] at hwait ⊢
    exact ⟨hready'.trans hready, hdown', hwait⟩
  | mode | ring | items | run _ | work => cases hpast

theorem DevCommon.Fresh.run {w : Worker} (h : d.Fresh w) (ok : Bool) :
    (kthreadRun d w ok).Alone w := by
  obtain ⟨halive, hcomplete⟩ := h
  cases ok with
  | false => exact .inl halive
  | true =>
    right
    simp only [alive] at halive
    simp only [kthreadRun, if_pos, alive, setWorker_self, spawn]
    exact ⟨by omega, hcomplete⟩

theorem kthreadRun_workers {w v : Worker} (d : DevCommon) (ok : Bool) (h : v ≠ w) :
    (kthreadRun d w ok).workers v = d.workers v := by
  cases ok with
  | false => rfl
  | true => exact setWorker_of_ne d _ h

theorem kthreadRun_frame (d : DevCommon) (w : Worker) (ok : Bool) :
    kthreadRun d w ok = { d with workers := (kthreadRun d w ok).workers } := by
  cases ok <;> rfl

theorem DevCommon.Fresh.frame {d d' : DevCommon} {w : Worker} (h : d.Fresh w)
    (heq : d'.workers w = d.workers w) : d'.Fresh w := by
  unfold DevCommon.Fresh alive at h ⊢
  rw [heq]
  exact h

theorem DevCommon.Alone.frame {d d' : DevCommon} {w : Worker} (h : d.Alone w)
    (heq : d'.workers w = d.workers w) : d'.Alone w := by
  unfold DevCommon.Alone alive at h ⊢
  rw [heq]
  exact h

theorem DevCommon.InitOk.run {w : Worker} (hok : d.InitOk (.run w)) (hready : d.ready = .starting)
    (hone : d.inits = [.run w]) : (d.initNext inp (.run w)).Resting := by
  have hframe := kthreadRun_frame d w inp.ok
  have hready' : (kthreadRun d w inp.ok).ready = .starting := by rw [hframe, hready]
  have hone' : (kthreadRun d w inp.ok).inits = [.run w] := by rw [hframe, hone]
  have hother : ∀ v, v ≠ w → (kthreadRun d w inp.ok).workers v = d.workers v :=
    fun _ hv => kthreadRun_workers d inp.ok hv
  cases w with
  | vrd =>
    apply resting_next rfl hready' hone'
    exact ⟨(hok .vrd).run inp.ok, (hok .vdm).frame (hother .vdm (by decide)),
      (hok .vsd).frame (hother .vsd (by decide))⟩
  | vdm =>
    -- the thread of `vdm` is started only when it is to write
    cases hmode : d.writeInThread with
    | true =>
      have heq : commonDevInitTask d inp (.run .vdm) =
          (kthreadRun d .vdm inp.ok, some (.run .vsd)) := by
        simp [commonDevInitTask, hmode]
      apply resting_next heq hready' hone'
      refine ⟨hok.1.frame (hother .vrd (by decide)), hok.2.1.run inp.ok,
        hok.2.2.frame (hother .vsd (by decide)), ?_⟩
      intro hnone
      rw [hframe] at hnone
      cases hmode.symm.trans hnone
    | false =>
      have heq : commonDevInitTask d inp (.run .vdm) = (d, some (.run .vsd)) := by
        simp [commonDevInitTask, hmode]
      apply resting_next heq hready hone
      exact ⟨hok.1, .inl hok.2.1.1, hok.2.2, fun _ => hok.2.1.1⟩
  | vsd =>
    apply resting_next rfl hready' hone'
    constructor
    · intro v
      cases v with
      | vrd => exact hok.1.frame (hother .vrd (by decide))
      | vdm => exact hok.2.1.frame (hother .vdm (by decide))
      | vsd => exact hok.2.2.1.run inp.ok
    · intro hmode
      rw [hframe] at hmode
      rw [alive, hother .vdm (by decide)]
      exact hok.2.2.2 hmode

/-- **The init task of a starting device** brings it to work or leaves it down. -/
theorem DevCommon.InitOk.starting (hok : d.InitOk q) (hready : d.ready = .starting)
    (hone : d.inits = [q]) : (d.initNext inp q).Resting := by
  cases q with
  | check =>
    have heq : commonDevInitTask d inp .check = (d, some .sleep) := by
      simp [commonDevInitTask, hready]
    exact resting_next heq hready hone hok
  | sleep =>
    by_cases hdev : inp.devicesReady = true ∨ d.ready = .stop
    · have heq : commonDevInitTask d inp .sleep = (d, some .recheck) := by
        rw [commonDevInitTask, if_pos hdev]
      exact resting_next heq hready hone hok
    · have heq : commonDevInitTask d inp .sleep = (d, some .sleep) := by
        rw [commonDevInitTask, if_neg hdev]
      exact resting_next heq hready hone hok
  | recheck =>
    have heq : commonDevInitTask d inp .recheck = (d, some .mode) := by
      simp [commonDevInitTask, hready]
    exact resting_next heq hready hone hok
  | mode => exact resting_next rfl hready hone hok
  | ring =>
    -- without the ring the init task gives up before any thread is started
    by_cases hres : inp.ok = true
    · have heq : commonDevInitTask d inp .ring = ({ d with buffersRing := true }, some .items) := by
        rw [commonDevInitTask, if_pos hres]
      exact resting_next heq hready hone hok.1
    · have heq : commonDevInitTask d inp .ring = ({ d with buffersRing := false }, none) := by
        rw [commonDevInitTask, if_neg hres]
      exact resting_failed heq hready hone ⟨fun w => (hok.1 w).1, rfl⟩
  | items =>
    by_cases hres : d.featureDescAlignment = true ∨ inp.ok = true
    · have heq : commonDevInitTask d inp .items = (d, some (.run .vrd)) := by
        rw [commonDevInitTask, if_pos hres]
      exact resting_next heq hready hone hok
    · have heq : commonDevInitTask d inp .items = ({ d with buffersRing := false }, none) := by
        rw [commonDevInitTask, if_neg hres]
      exact resting_failed heq hready hone ⟨fun w => (hok w).1, rfl⟩
  | run w => exact hok.run hready hone
  | work =>
    unfold initNext Resting
    simp only [commonDevInitTask, hone]
    exact ⟨rfl, hok⟩
  | err w =>
    -- the error path only signals, which changes nothing that a stop relies on
    obtain ⟨d', next, heq, hready', hinits', hdown', hnext⟩ := initTask_err hok inp w
    cases next with
    | none => exact resting_failed heq (hready'.trans hready) (hinits'.trans hone) hdown'
    | some q' =>
      obtain ⟨v, rfl⟩ := hnext q' rfl
      exact resting_next heq (hready'.trans hready) (hinits'.trans hone) hdown'

theorem initNext_stopped (d : DevCommon) (inp : InitInput) (q : InitPhase) :
    (d.initNext inp q).stopped = d.stopped := by
  have hrun : ∀ w, (kthreadRun d w inp.ok).stopped = d.stopped := by
    intro w
    rw [kthreadRun_frame]
  unfold initNext commonDevInitTask
  split
  case h_8 =>
    dsimp only
    split
    · exact hrun .vdm
    · rfl
  case h_7 | h_9 => exact hrun _
  all_goals first | rfl | (split <;> rfl)

theorem DevCommon.Resting.init (h : d.Resting) (hone : d.inits = [q]) :
    (d.initNext inp q).Resting ∧ (d.ready = .stop → (d.initNext inp q).ready = .stop) := by
  unfold Resting at h
  split at h
  case h_1 hready =>
    rcases h.2 with hnone | ⟨q', hone', hpast, hok⟩
    · cases hnone.symm.trans hone
    · cases hone.symm.trans hone'
      obtain ⟨hready', hdown', hwait'⟩ := hok.stopped hready hone hpast
      refine ⟨?_, fun _ => hready'⟩
      unfold Resting
      rw [hready']
      exact ⟨hdown', hwait'⟩
  case h_2 hready =>
    rcases h with ⟨hnone, _⟩ | ⟨q', hone', hok⟩
    · cases hnone.symm.trans hone
    · cases hone.symm.trans hone'
      refine ⟨hok.starting hready hone, ?_⟩
      intro hstop
      cases hready.symm.trans hstop
  case h_3 => cases h.1.symm.trans hone

theorem DevCommon.CallOk.init {p : CallPhase} (h : d.CallOk p) (hone : d.inits = [q]) :
    (d.initNext inp q).CallOk p := by
  have hmark := initNext_stopped d inp q
  unfold CallOk at h ⊢
  rw [hmark]
  split
  case h_1 => cases h.2.2.symm.trans hone
  case h_2 | h_3 | h_4 | h_8 | h_9 | h_10 => cases h.2.2.1.symm.trans hone
  case h_5 =>
    obtain ⟨hrest, hstop⟩ : (d.initNext inp q).Resting ∧
        (d.ready = .stop → (d.initNext inp q).ready = .stop) := h.2.init hone
    exact ⟨fun hm => hstop (h.1 hm), hrest⟩
  case h_6 | h_7 => exact ⟨h.1, (h.2.init hone).1⟩
  case h_11 =>
    obtain ⟨hfalse, hready, halive, hwait⟩ := h
    rcases hwait with hnone | ⟨q', hone', hpast, hok⟩
    · cases hnone.symm.trans hone
    · cases hone.symm.trans hone'
      obtain ⟨hready', hdown', hwait'⟩ := hok.stopped hready hone hpast
      exact ⟨hfalse, hready', hdown'.1, hwait'⟩

end

/-! ## The calls -/

section

variable {d d' : DevCommon}

/-- What a call leaves behind: its next access finds what it relies on, or it has returned and the
device is at rest. -/
def DevCommon.Left (d : DevCommon) : Option CallPhase → Prop
  | some p => d.CallOk p
  | none => (d.stopped = true → d.ready = .stop) ∧ d.Resting

theorem DevCommon.Down.resting (h : d.Down) (hready : d.ready = .stop) (hwait : d.Waiting) :
    d.Resting := by
  unfold Resting
  rw [hready]
  exact ⟨h, hwait⟩

theorem DevCommon.Coming.down (h : d.Coming) (hpast : ∀ q ∈ d.inits, q.past = false) :
    d.Down ∧ d.Waiting := by
  rcases h with ⟨hnone, hdown⟩ | ⟨q, hone, hok⟩
  · exact ⟨hdown, .inl hnone⟩
  · have hq : q.past = false := hpast q (by simp [hone])
    exact ⟨hok.down hq, .inr ⟨q, hone, hq, hok⟩⟩

variable {next : Option CallPhase} {inp : CallInput}

theorem DevCommon.CallOk.start {p : CallPhase}
    (h : d.CallOk p) (hp : p = .startCheck ∨ p = .startReinit ∨ p = .startReady ∨ p = .startRun)
    (heq : commonDevCall d inp p = some (d', next)) : d'.Left next := by
  rcases hp with rfl | rfl | rfl | rfl
  · obtain ⟨hmark, hrest, hnone⟩ := h
    rw [commonDevCall] at heq
    split at heq
    case isTrue hready =>
      cases heq
      unfold Resting at hrest
      rw [hready] at hrest
      exact ⟨hmark, hready, hnone, hrest.1⟩
    case isFalse =>
      cases heq
      refine ⟨?_, hrest⟩
      intro hset
      cases hmark.symm.trans hset
  · obtain ⟨hmark, hready, hnone, hdown⟩ := h
    cases heq
    exact ⟨hmark, hready, hnone, fun w => ⟨hdown.1 w, rfl⟩, hdown.2⟩
  · obtain ⟨hmark, -, hnone, hfresh, hring⟩ := h
    cases heq
    exact ⟨hmark, rfl, hnone, hfresh, hring⟩
  · obtain ⟨hmark, hready, hnone, hfresh, hring⟩ := h
    rw [commonDevCall] at heq
    have hdown : d.Down := ⟨fun w => (hfresh w).1, hring⟩
    split at heq
    · cases heq
      refine ⟨?_, Coming.resting (.inr ⟨.check, ?_, hfresh, hring⟩) hready⟩
      · intro hset
        cases hmark.symm.trans hset
      · simp only [hnone, List.nil_append]
    · cases heq
      refine ⟨?_, Coming.resting (.inl ⟨hnone, hdown⟩) hready⟩
      intro hset
      cases hmark.symm.trans hset

theorem DevCommon.Known.wait {w : Worker} (h : d.Known) (hcomplete : ¬ (d.workers w).complete = 0)
    (hd' : d' = d.setWorker w (fun t => { t with complete := t.complete - 1 })) :
    d'.Known ∧ d'.alive w = 0 ∧ ∀ v, d'.alive v = d.alive v := by
  have halive : ∀ v, d'.alive v = d.alive v := by
    intro v
    subst hd'
    by_cases hv : v = w
    · subst hv
      simp [alive]
    · simp [alive, setWorker_of_ne d _ hv]
  have hended : d.alive w = 0 := by
    rcases h.1 w with hnone | ⟨_, hzero⟩
    · exact hnone
    · exact absurd hzero hcomplete
  refine ⟨⟨?_, ?_⟩, (halive w).trans hended, halive⟩
  · intro v
    by_cases hv : v = w
    · subst hv
      exact .inl ((halive v).trans hended)
    · apply (h.1 v).frame
      subst hd'
      exact setWorker_of_ne d _ hv
  · intro hmode
    rw [halive]
    apply h.2
    subst hd'
    exact hmode

theorem DevCommon.CallOk.wait {w : Worker}
    (h : d.CallOk (.stopWait w)) (hsignal : inp.signal = false)
    (heq : commonDevCall d inp (.stopWait w) = some (d', next)) : d'.Left next := by
  rw [commonDevCall, hsignal, if_neg (by decide)] at heq
  split at heq
  case isTrue => cases heq
  case isFalse hcomplete =>
    obtain ⟨hdev, hnext⟩ := Prod.mk.inj (Option.some.inj heq)
    have hknown : d.Known := by
      cases w with
      | vrd => exact h.2.2.2
      | vdm | vsd => exact h.2.2.2.1
    obtain ⟨hknown', hended, halive⟩ := hknown.wait hcomplete hdev.symm
    subst hnext
    cases w with
    | vrd =>
      obtain ⟨hmark, hready, hnone, _⟩ := h
      subst hdev
      simp only [nextWait]
      split
      case isTrue => exact ⟨hmark, hready, hnone, hknown', hended⟩
      case isFalse hmode =>
        -- without a thread for the writes there is nothing to wait for
        refine ⟨hmark, hready, hnone, hknown', hended, ?_⟩
        rw [halive]
        exact hknown.2 (by simpa using hmode)
    | vdm =>
      obtain ⟨hmark, hready, hnone, _, hvrd⟩ := h
      subst hdev
      exact ⟨hmark, hready, hnone, hknown', (halive .vrd).trans hvrd, hended⟩
    | vsd =>
      obtain ⟨hmark, hready, hnone, _, hvrd, hvdm⟩ := h
      subst hdev
      refine ⟨hmark, hready, ?_, .inl hnone⟩
      intro v
      cases v with
      | vrd => exact (halive .vrd).trans hvrd
      | vdm => exact (halive .vdm).trans hvdm
      | vsd => exact hended

/-- **A call under the condition**, access by access -/
theorem DevCommon.CallOk.call {p : CallPhase}
    (h : d.CallOk p) (hsignal : inp.signal = false) (hsettled : d.Settled (some p))
    (heq : commonDevCall d inp p = some (d', next)) : d'.Left next := by
  cases p with
  | startCheck => exact h.start (.inl rfl) heq
  | startReinit => exact h.start (.inr (.inl rfl)) heq
  | startReady => exact h.start (.inr (.inr (.inl rfl))) heq
  | startRun => exact h.start (.inr (.inr (.inr rfl))) heq
  | stopCheck =>
    obtain ⟨hmark, hrest⟩ := h
    rw [commonDevCall] at heq
    split at heq
    case isTrue hready =>
      cases heq
      exact ⟨fun _ => hready, hrest⟩
    case isFalse hready =>
      cases heq
      refine ⟨?_, hrest⟩
      cases hset : d.stopped with
      | false => rfl
      | true => exact absurd (hmark hset) hready
  | stopRead =>
    cases heq
    exact h
  | stopWrite readyOld =>
    obtain ⟨hmark, hrest⟩ := h
    obtain ⟨hold, hpast⟩ := hsettled
    cases heq
    unfold Resting at hrest
    rw [hold] at hrest
    cases readyOld with
    | work => exact ⟨hmark, rfl, hrest.1, hrest.2⟩
    | starting =>
      obtain ⟨hdown, hwait⟩ := Coming.down hrest hpast
      exact ⟨hmark, rfl, hdown.1, hwait⟩
    | stop => exact ⟨hmark, rfl, hrest.1.1, hrest.2⟩
  | stopWait w => exact h.wait hsignal heq
  | stopDeinit =>
    obtain ⟨hmark, hready, halive, hwait⟩ := h
    cases heq
    refine ⟨fun _ => hready, Down.resting ⟨halive, rfl⟩ hready ?_⟩
    rcases hwait with hnone | ⟨q, hone, hpast, hok⟩
    · exact .inl hnone
    · refine .inr ⟨q, hone, hpast, ?_⟩
      -- a task that has not made its last test relies on no ring
      cases q with
      | check | sleep | recheck => exact ⟨hok.1, rfl⟩
      | err => exact ⟨hok.1, rfl⟩
      | mode | ring | items | run _ | work => cases hpast

end

/-! ## Every step keeps the invariant -/

section

variable {s s' : Lifecycle}

theorem LifeInv.inits (h : LifeInv s) : s.dev.inits = [] ∨ ∃ q, s.dev.inits = [q] := by
  have hwaiting : s.dev.Waiting → s.dev.inits = [] ∨ ∃ q, s.dev.inits = [q] := by
    rintro (hnone | ⟨q, hone, _⟩)
    · exact .inl hnone
    · exact .inr ⟨q, hone⟩
  have hresting : s.dev.Resting → s.dev.inits = [] ∨ ∃ q, s.dev.inits = [q] := by
    intro hrest
    unfold DevCommon.Resting at hrest
    split at hrest
    · exact hwaiting hrest.2
    · rcases hrest with ⟨hnone, _⟩ | ⟨q, hone, _⟩
      · exact .inl hnone
      · exact .inr ⟨q, hone⟩
    · exact .inl hrest.1
  rcases h with ⟨_, _, hrest⟩ | ⟨p, _, hcall⟩
  · exact hresting hrest
  · unfold DevCommon.CallOk at hcall
    split at hcall
    case h_1 => exact .inl hcall.2.2
    case h_5 | h_6 | h_7 => exact hresting hcall.2
    case h_11 => exact hwaiting hcall.2.2.2
    all_goals exact .inl hcall.2.2.1

theorem eq_singleton_of_getElem? {P : Type*} {l : List P} {i : Nat} {p : P}
    (h : l = [] ∨ ∃ q, l = [q]) (hget : l[i]? = some p) : l = [p] ∧ i = 0 := by
  rcases h with rfl | ⟨q, rfl⟩
  · cases hget
  · cases i with
    | zero =>
      cases hget
      exact ⟨rfl, rfl⟩
    | succ i => cases hget

theorem LifeInv.init {i : Nat} {inp : InitInput} (h : LifeInv s)
    (hstep : lifeStep s (.init i inp) = some s') : LifeInv s' := by
  simp only [lifeStep] at hstep
  split at hstep
  case h_1 => cases hstep
  case h_2 q hget =>
    obtain ⟨hone, rfl⟩ := eq_singleton_of_getElem? h.inits hget
    cases hstep
    rcases h with ⟨hnone, hmark, hrest⟩ | ⟨p, hcall, hok⟩
    · obtain ⟨hrest', hready'⟩ : (s.dev.initNext inp q).Resting ∧
          (s.dev.ready = .stop → (s.dev.initNext inp q).ready = .stop) := hrest.init hone
      refine .inl ⟨hnone, ?_, hrest'⟩
      intro hset
      exact hready' (hmark ((initNext_stopped s.dev inp q).symm.trans hset))
    · exact .inr ⟨p, hcall, hok.init hone⟩

theorem LifeInv.call {i : Nat} {inp : CallInput} (h : LifeInv s)
    (hguard : LifeOrderly s (.call i inp) s')
    (hstep : lifeStep s (.call i inp) = some s') : LifeInv s' := by
  obtain ⟨hsignal, hsettled⟩ := hguard
  simp only [lifeStep] at hstep
  split at hstep
  case h_1 => cases hstep
  case h_2 p hget =>
    have hcalls : s.calls = [] ∨ ∃ q, s.calls = [q] := by
      rcases h with ⟨hnone, _⟩ | ⟨q, hone, _⟩
      · exact .inl hnone
      · exact .inr ⟨q, hone⟩
    obtain ⟨hone, rfl⟩ := eq_singleton_of_getElem? hcalls hget
    rw [hget] at hsettled
    obtain ⟨⟨d', next⟩, heq, rfl⟩ := Option.map_eq_some_iff.mp hstep
    have hok : s.dev.CallOk p := by
      rcases h with ⟨hnone, _⟩ | ⟨q, hone', hok⟩
      · cases hnone.symm.trans hone
      · cases hone.symm.trans hone'
        exact hok
    have hleft := hok.call hsignal hsettled heq
    rw [hone]
    cases next with
    | none => exact .inl ⟨rfl, hleft⟩
    | some p' => exact .inr ⟨p', rfl, hleft⟩

theorem LifeInv.begin (h : LifeInv s) (hnone : s.calls = []) :
    (s.dev.stopped = true → s.dev.ready = .stop) ∧ s.dev.Resting := by
  rcases h with ⟨_, hmark, hrest⟩ | ⟨p, hone, _⟩
  · exact ⟨hmark, hrest⟩
  · cases hnone.symm.trans hone

theorem lifeInv_of_reachBy (h : lifeSystem.ReachBy LifeOrderly s) : LifeInv s := by
  apply System.ReachBy.invariant ?_ ?_ h
  · rintro s rfl
    exact .inl ⟨rfl, fun _ => rfl, ⟨fun _ => rfl, rfl⟩, .inl rfl⟩
  · intro s a s' hinv hguard hstep
    cases a with
    | start =>
      obtain ⟨hnone, hinits⟩ := hguard
      cases hstep
      refine .inr ⟨.startCheck, ?_, rfl, (hinv.begin hnone).2, hinits⟩
      simp [hnone]
    | stop =>
      cases hstep
      have hnone : s.calls = [] := hguard
      refine .inr ⟨.stopCheck, ?_, hinv.begin hnone⟩
      simp [hnone]
    | call i inp => exact hinv.call hguard hstep
    | init i inp => exact hinv.init hstep
    | leave w => exact hinv.leave hstep
    | complete w => exact hinv.complete hstep

end

/-! ## Main results -/

/-- **Stop is final** in every run that meets the condition. -/
theorem stopFinal_of_orderly {s : Lifecycle} (h : lifeSystem.ReachBy LifeOrderly s) : StopFinal s :=
  (lifeInv_of_reachBy h).stopFinal

/-- What is seen of a state: the mark, the state of the device, its ring, and its threads -/
def Lifecycle.seen (s : Lifecycle) : Bool × DevReady × Bool × List Nat :=
  (s.dev.stopped, s.dev.ready, s.dev.buffersRing, [Worker.vrd, .vdm, .vsd].map s.dev.alive)

/-- A call of so many accesses, each without an error or a signal -/
def accesses (n : Nat) : List LifeAct := List.replicate n (.call 0 ⟨true, false⟩)

/-- So many accesses of the init task, with both ends ready and without errors; writes are made in a
thread. -/
def initAccesses (n : Nat) : List LifeAct := List.replicate n (.init 0 ⟨true, false, true⟩)

/-- A start, the whole init task, and a stop that waits for the three threads -/
theorem stopFinal_of_orderly_threeThreads :
    ∃ s, lifeSystem.ReachBy LifeOrderly s ∧ s.dev.stopped = true ∧ StopFinal s := by
  have hobs : (lifeSystem.runBy LifeOrderly .initial
      ([LifeAct.start] ++ accesses 4 ++ initAccesses 10 ++ [LifeAct.stop] ++ accesses 3 ++
        [LifeAct.leave .vrd, .leave .vdm, .leave .vsd, .complete .vrd, .complete .vdm,
          .complete .vsd] ++ accesses 4)).map Lifecycle.seen =
      some (true, .stop, false, [0, 0, 0]) := by
    decide +kernel
  obtain ⟨s, hreach, hseen⟩ := System.exists_reachBy hobs rfl
  exact ⟨s, hreach, congrArg Prod.fst hseen, stopFinal_of_orderly hreach⟩

/-- The stop comes after the last test of the init task: it returns, and the task brings the device
to work. -/
theorem stop_undone : ∃ s, lifeSystem.Reachable s ∧ ¬ StopFinal s := by
  have hobs : (lifeSystem.run .initial
      ([LifeAct.start] ++ accesses 4 ++ initAccesses 3 ++ [LifeAct.stop] ++ accesses 4 ++
        initAccesses 7)).map Lifecycle.seen =
      some (true, .work, true, [1, 1, 1]) := by
    decide +kernel
  obtain ⟨s, hreach, hseen⟩ := System.exists_reachable hobs rfl
  refine ⟨s, hreach, ?_⟩
  intro hfinal
  have hmark : s.dev.stopped = true := congrArg Prod.fst hseen
  have hready : s.dev.ready = .work := congrArg (·.2.1) hseen
  cases hready.symm.trans (hfinal hmark).1

end Vcass.Vop
