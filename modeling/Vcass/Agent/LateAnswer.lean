import Vcass.Agent.Command

/-!
# Late Answers of the Agent

`csa_finished` is one flag for all requests.  A call clears it before it writes its command, so that
an answer that came after the time limit of its call is thrown away.  But an answer may also come
later: the agent has read the old command and is still at work when the next call clears the flag.
Then the flag that the next call polls is set by the old answer (`agent_answers_other_command`).

When every call starts with a card that has no work left from an earlier one (`CardFree`), the answers
are the right ones: `answersMatch_of_cardFree`.  The invariant follows the one request that is
outstanding (`Outstanding`) from the doorbell to the flag; until the doorbell is rung, and as soon as
the flag is set, the card cannot move at all (`cardStep_of_quiet`).
-/

namespace Vcass.Agent

open Vcass.Core

/-! ## The condition -/

/-- The card has no request left to answer: no doorbell to handle, none to show to the agent, and
the agent is not at work. -/
def AgentState.Quiet (s : AgentState) : Prop :=
  s.doorbells = 0 ∧ s.csaRequests = s.lastServicedRequest ∧ s.agent = .idle

/-- A call starts only when the card is quiet, and the memory of an output can be allocated and
mapped. -/
def CardFree (s : AgentState) (a : AgentAct) (_ : AgentState) : Prop :=
  match a with
  | .host (.call _) => s.Quiet
  | .host (.read mapped) => mapped = true
  | .card (.map mapped) => mapped = true
  | _ => True

instance (s : AgentState) : Decidable s.Quiet :=
  inferInstanceAs (Decidable (_ ∧ _ ∧ _))

instance (s : AgentState) (a : AgentAct) (s' : AgentState) : Decidable (CardFree s a s') :=
  match a with
  | .host (.call _) => inferInstanceAs (Decidable s.Quiet)
  | .host (.read mapped) => inferInstanceAs (Decidable (mapped = true))
  | .card (.map mapped) => inferInstanceAs (Decidable (mapped = true))
  | .host .check | .host .clear | .host .command | .host .interrupt | .host .poll | .host .test
  | .host .finish | .card .irq | .card .wait | .card .getCommand | .card .serviced
  | .card (.compute _) | .card .free | .card .setFinished => inferInstanceAs (Decidable True)

/-! ## The outstanding request -/

/-- The memory holds an output for the request. -/
def AgentState.Answers (s : AgentState) (req : Request) : Prop :=
  ∃ out, s.cardCsaMem = some out ∧ out.request = req

/-- At most one request is outstanding, and whatever the card does it does for `req`. -/
def AgentState.Outstanding (s : AgentState) (req : Request) : Prop :=
  match s.agent with
  | .idle =>
    s.lastServicedRequest ≤ s.csaRequests ∧
      s.doorbells + s.csaRequests ≤ s.lastServicedRequest + 1 ∧
      (s.csaFinished = true → s.Quiet ∧ s.Answers req)
  | .woken =>
    s.doorbells = 0 ∧ s.csaRequests = s.lastServicedRequest + 1 ∧ s.csaFinished = false
  | .shown req' =>
    s.doorbells = 0 ∧ s.csaRequests = s.lastServicedRequest + 1 ∧ s.csaFinished = false ∧ req' = req
  | .computing req' =>
    s.doorbells = 0 ∧ s.csaRequests = s.lastServicedRequest ∧ s.csaFinished = false ∧ req' = req
  | .free out | .map out =>
    s.doorbells = 0 ∧ s.csaRequests = s.lastServicedRequest ∧ s.csaFinished = false ∧
      out.request = req
  | .flag =>
    s.doorbells = 0 ∧ s.csaRequests = s.lastServicedRequest ∧ s.csaFinished = false ∧ s.Answers req

/-- What a host call relies on, access by access -/
def AgentState.HostOk (s : AgentState) : Prop :=
  match s.host with
  | .idle => s.Outstanding s.csaCommand
  | .check _ | .clear _ => s.Quiet
  | .command _ => s.Quiet ∧ s.csaFinished = false
  | .interrupt req => s.Quiet ∧ s.csaFinished = false ∧ s.csaCommand = req
  | .poll req _ | .test req => s.csaCommand = req ∧ s.Outstanding req
  | .read req => s.csaCommand = req ∧ s.Outstanding req ∧ s.csaFinished = true
  | .finish req data =>
    s.csaCommand = req ∧ s.Outstanding req ∧ s.csaFinished = true ∧
      ∃ out, data = some out ∧ out.request = req

/-- **The invariant**: what the calls have returned is right, and the call under way will be. -/
structure AgentInv (s : AgentState) : Prop where
  host : s.HostOk
  answers : AnswersMatch s

section

variable {s s' : AgentState} {req : Request}

theorem AgentState.Quiet.outstanding (h : s.Quiet) (hflag : s.csaFinished = false) :
    s.Outstanding req := by
  obtain ⟨hbell, hreq, hagent⟩ := h
  simp only [Outstanding, hagent, hflag]
  refine ⟨by omega, by omega, ?_⟩
  intro hset
  cases hset

theorem AgentState.Outstanding.finished (h : s.Outstanding req) (hflag : s.csaFinished = true) :
    s.Quiet ∧ s.Answers req := by
  unfold Outstanding at h
  split at h
  case h_1 => exact h.2.2 hflag
  all_goals
    -- the agent at work has not set the flag yet
    exfalso
    simp [hflag] at h

theorem cardStep_of_quiet (h : s.Quiet) (a : CardAct) : cardStep s a = none := by
  obtain ⟨hbell, hreq, hagent⟩ := h
  cases a <;> simp [cardStep, hagent, hbell, hreq]

theorem cardStep_frame {a : CardAct} (h : cardStep s a = some s') :
    s'.host = s.host ∧ s'.csaCommand = s.csaCommand ∧ s'.returned = s.returned := by
  unfold cardStep at h
  split at h
  case h_1 | h_2 =>
    split at h
    · cases h
    · cases h
      exact ⟨rfl, rfl, rfl⟩
  case h_9 => cases h
  all_goals
    cases h
    exact ⟨rfl, rfl, rfl⟩

/-- **The card follows the one request it has.** -/
theorem AgentState.Outstanding.card {a : CardAct} (h : s.Outstanding s.csaCommand)
    (hguard : CardFree s (.card a) s') (hstep : cardStep s a = some s') :
    s'.Outstanding s.csaCommand := by
  -- once the flag is set the card is quiet and makes no step
  have hflag : s.csaFinished = false := by
    cases hset : s.csaFinished with
    | false => rfl
    | true =>
      rw [cardStep_of_quiet (h.finished hset).1 a] at hstep
      cases hstep
  unfold cardStep at hstep
  split at hstep
  case h_1 =>
    split at hstep
    · cases hstep
    · rename_i hbell
      cases hstep
      -- a doorbell is left only while the agent waits for one
      cases hagent : s.agent <;> simp only [Outstanding, hagent] at h ⊢
      case idle =>
        simp only [hflag, Bool.false_eq_true, false_implies, and_true]
        omega
      all_goals exact absurd h.1 hbell
  case h_2 hagent =>
    split at hstep
    · cases hstep
    · rename_i hreq
      cases hstep
      simp only [Outstanding, hagent] at h ⊢
      exact ⟨by omega, by omega, hflag⟩
  case h_3 hagent =>
    cases hstep
    simp only [Outstanding, hagent] at h ⊢
    exact ⟨h.1, h.2.1, hflag, trivial⟩
  case h_4 hagent =>
    cases hstep
    simp only [Outstanding, hagent] at h
    simp only [Outstanding]
    split
    case h_1 =>
      refine ⟨Nat.le_refl _, by omega, ?_⟩
      intro hset
      rw [hflag] at hset
      cases hset
    case h_4 hphase =>
      split at hphase
      · cases hphase
        exact ⟨h.1, trivial, hflag, h.2.2.2⟩
      · cases hphase
    all_goals
      rename_i hphase
      split at hphase <;> cases hphase
  case h_5 hagent =>
    cases hstep
    simp only [Outstanding, hagent] at h ⊢
    exact h
  case h_6 hagent =>
    cases hstep
    simp only [Outstanding, hagent] at h ⊢
    exact h
  case h_7 mapped out hagent =>
    cases hstep
    have hmapped : mapped = true := hguard
    simp only [Outstanding, hagent] at h ⊢
    exact ⟨h.1, h.2.1, hflag, out, by rw [hmapped, if_pos rfl], h.2.2.2⟩
  case h_8 hagent =>
    cases hstep
    simp only [Outstanding, hagent] at h ⊢
    refine ⟨by omega, by omega, ?_⟩
    intro _
    exact ⟨⟨h.1, h.2.1, rfl⟩, h.2.2.2⟩
  case h_9 => cases hstep

end

/-! ## Every step keeps the invariant -/

section

variable {s s' : AgentState}

theorem AnswersMatch.return {req : Request} {retval : LbpRetval} {data : Option Output}
    (h : AnswersMatch s)
    (hok : retval = .stateOk → ∃ out, data = some out ∧ out.request = req) :
    AnswersMatch (s.return req retval data) := by
  intro ans hmem
  rcases List.mem_append.mp hmem with hold | hnew
  · exact h ans hold
  · cases List.mem_singleton.mp hnew
    exact hok

/-- **The steps of the host.** -/
theorem AgentInv.hostStep {a : HostAct} (h : AgentInv s) (hguard : CardFree s (.host a) s')
    (hstep : hostStep s a = some s') : AgentInv s' := by
  have hok := h.host
  unfold AgentState.HostOk at hok
  unfold Agent.hostStep at hstep
  split at hstep
  case h_1 hhost =>
    have hquiet : s.Quiet := hguard
    simp only [hhost] at hok
    simp only at hstep
    split at hstep
    · cases hstep
      exact ⟨hok, h.answers.return (by simp)⟩
    · split at hstep
      · cases hstep
        exact ⟨hok, h.answers.return (by simp)⟩
      · cases hstep
        exact ⟨hquiet, h.answers⟩
  case h_2 hhost =>
    cases hstep
    simp only [hhost] at hok
    refine ⟨?_, h.answers⟩
    cases hflag : s.csaFinished with
    | true => exact hok
    | false => exact ⟨hok, rfl⟩
  case h_3 hhost =>
    cases hstep
    simp only [hhost] at hok
    exact ⟨⟨hok, rfl⟩, h.answers⟩
  case h_4 hhost =>
    cases hstep
    simp only [hhost] at hok
    exact ⟨⟨hok.1, hok.2, rfl⟩, h.answers⟩
  case h_5 hhost =>
    cases hstep
    simp only [hhost] at hok
    obtain ⟨⟨hbell, hreq, hagent⟩, hflag, hcommand⟩ := hok
    refine ⟨⟨hcommand, ?_⟩, h.answers⟩
    -- the doorbell is the one outstanding request
    simp only [AgentState.Outstanding, hagent, hflag, Bool.false_eq_true, false_implies, and_true]
    omega
  case h_6 hhost =>
    simp only [hhost] at hok
    split at hstep
    · cases hstep
      exact ⟨hok, h.answers⟩
    · split at hstep
      all_goals
        cases hstep
        exact ⟨hok, h.answers⟩
  case h_7 hhost =>
    simp only [hhost] at hok
    split at hstep
    · rename_i hflag
      cases hstep
      exact ⟨⟨hok.1, hok.2, hflag⟩, h.answers⟩
    · cases hstep
      refine ⟨?_, h.answers.return (by simp)⟩
      have hidle : s.Outstanding s.csaCommand := by
        rw [hok.1]
        exact hok.2
      exact hidle
  case h_8 mapped req hhost =>
    cases hstep
    simp only [hhost] at hok
    have hmapped : mapped = true := hguard
    obtain ⟨out, hmem, hout⟩ := (hok.2.1.finished hok.2.2).2
    refine ⟨⟨hok.1, hok.2.1, hok.2.2, out, ?_, hout⟩, h.answers⟩
    rw [hmapped, if_pos rfl]
    exact hmem
  case h_9 req data hhost =>
    cases hstep
    simp only [hhost] at hok
    refine ⟨?_, AnswersMatch.return (s := { s with csaFinished := false }) h.answers ?_⟩
    · have hquiet : AgentState.Quiet { s with csaFinished := false } :=
        (hok.2.1.finished hok.2.2.1).1
      exact hquiet.outstanding rfl
    · intro _
      exact hok.2.2.2
  case h_10 => cases hstep

/-- **The steps of the card.** -/
theorem AgentInv.cardStep {a : CardAct} (h : AgentInv s) (hguard : CardFree s (.card a) s')
    (hstep : cardStep s a = some s') : AgentInv s' := by
  obtain ⟨hhost', hcommand', hreturned'⟩ := cardStep_frame hstep
  -- a phase that relies on a quiet card, or on a set flag, excludes the step
  have hmoves : ¬ s.Quiet := by
    intro hquiet
    rw [cardStep_of_quiet hquiet a] at hstep
    cases hstep
  have hok := h.host
  constructor
  · unfold AgentState.HostOk at hok ⊢
    rw [hhost', hcommand']
    cases hhost : s.host <;> simp only [hhost] at hok ⊢
    case idle => exact hok.card hguard hstep
    case check | clear => exact absurd hok hmoves
    case command | interrupt => exact absurd hok.1 hmoves
    case poll | test =>
      obtain ⟨rfl, hout⟩ := hok
      exact ⟨rfl, hout.card hguard hstep⟩
    case read => exact absurd (hok.2.1.finished hok.2.2).1 hmoves
    case finish => exact absurd (hok.2.1.finished hok.2.2.1).1 hmoves
  · unfold AnswersMatch
    rw [hreturned']
    exact h.answers

theorem agentInv_start (db : Int) : AgentInv (.start db) where
  host := by
    have hquiet : (AgentState.start db).Quiet := ⟨rfl, rfl, rfl⟩
    exact hquiet.outstanding rfl
  answers := by
    intro ans hmem
    cases hmem

theorem agentInv_of_reachBy (h : agentSystem.ReachBy CardFree s) : AgentInv s := by
  apply System.ReachBy.invariant ?_ ?_ h
  · rintro s ⟨db, rfl⟩
    exact agentInv_start db
  · intro s a s' hinv hguard hstep
    cases a with
    | host a => exact hinv.hostStep hguard hstep
    | card a => exact hinv.cardStep hguard hstep

end

/-! ## Main results -/

/-- **The answers match the commands** in every run in which each call starts with a quiet card and
the memory of the outputs is allocated and mapped. -/
theorem answersMatch_of_cardFree {s : AgentState} (h : agentSystem.ReachBy CardFree s) :
    AnswersMatch s :=
  (agentInv_of_reachBy h).answers

/-- The accesses of a call up to its doorbell, when it finds the flag cleared -/
def issue (cmd : Int) : List AgentAct :=
  [.host (.call cmd), .host .check, .host .command, .host .interrupt]

def take : List AgentAct :=
  [.card .irq, .card .wait, .card .getCommand, .card .serviced]

def answer (text : Nat) : List AgentAct :=
  [.card (.compute text), .card .free, .card (.map true), .card .setFinished]

/-- The call waits in vain for all its time. -/
def giveUp (cmd : Int) : List AgentAct :=
  List.replicate (agentRetry cmd + 1) (AgentAct.host .poll) ++ [AgentAct.host .test]

/-- The call finds the flag set and takes the answer. -/
def collect : List AgentAct :=
  [.host .poll, .host .test, .host (.read true), .host .finish]

/-- A call for the sensors gives up, its answer comes before the next call for the address, which
clears the flag and gets its own answer. -/
theorem answersMatch_of_cardFree_lateAnswer :
    ∃ s, agentSystem.ReachBy CardFree s ∧
      s.returned =
        [⟨⟨1, 1⟩, .irqTimeout, none⟩, ⟨⟨2, 2⟩, .stateOk, some ⟨⟨2, 2⟩, 8⟩⟩] ∧
      AnswersMatch s := by
  have hobs : (agentSystem.runBy CardFree (.start 5)
      (issue 1 ++ take ++ giveUp 1 ++ answer 7 ++
        [AgentAct.host (.call 2), .host .check, .host .clear, .host .command, .host .interrupt] ++
        take ++ answer 8 ++ collect)).map (·.returned) =
      some [⟨⟨1, 1⟩, .irqTimeout, none⟩, ⟨⟨2, 2⟩, .stateOk, some ⟨⟨2, 2⟩, 8⟩⟩] := by
    decide +kernel
  obtain ⟨s, hrun, hret⟩ := Option.map_eq_some_iff.mp hobs
  have hinit : agentSystem.ReachBy CardFree (.start 5) := .init ⟨5, rfl⟩
  have hreach := System.reachBy_of_runBy hinit _ hrun
  exact ⟨s, hreach, hret, answersMatch_of_cardFree hreach⟩

/-- The agent is still at work on the sensors when the call for them gives up and the next call, for
the address, rings: the next call returns the sensor values. -/
theorem agent_answers_other_command :
    ∃ s, agentSystem.Reachable s ∧
      s.returned =
        [⟨⟨1, 1⟩, .irqTimeout, none⟩, ⟨⟨2, 2⟩, .stateOk, some ⟨⟨1, 1⟩, 7⟩⟩] ∧
      ¬ AnswersMatch s := by
  have hobs : (agentSystem.run (.start 5)
      (issue 1 ++ take ++ giveUp 1 ++ issue 2 ++ answer 7 ++ collect)).map (·.returned) =
      some [⟨⟨1, 1⟩, .irqTimeout, none⟩, ⟨⟨2, 2⟩, .stateOk, some ⟨⟨1, 1⟩, 7⟩⟩] := by
    decide +kernel
  obtain ⟨s, hrun, hret⟩ := Option.map_eq_some_iff.mp hobs
  have hinit : agentSystem.Reachable (.start 5) := .init ⟨5, rfl⟩
  refine ⟨s, System.reachable_of_run hinit _ hrun, hret, ?_⟩
  intro hmatch
  obtain ⟨out, hdata, hreq⟩ := hmatch ⟨⟨2, 2⟩, .stateOk, some ⟨⟨1, 1⟩, 7⟩⟩ (by rw [hret]; simp) rfl
  cases hdata
  cases hreq

end Vcass.Agent
