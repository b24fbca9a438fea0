import Vcass.Core.System

/-!
# Agent Commands

The host asks the agent of a card for an output (sensor values, addresses, …) through the boot
parameters of the card, which both sides read and write:

- `_plx_csm_agent_command` on the host writes `csa_command`, rings a doorbell and polls `csa_finished`;
- the interrupt handler of the card counts the requests, `csa_mem_show` gives the command to the agent
  when the count has changed, and `csa_mem_store` publishes the output and sets `csa_finished`.

The host calls are serialised by `vca_csm_host_mutex`.  Each access to the boot parameters is a step
of its own, and the steps of host and card interleave freely.  A command carries the number of the
call that wrote it, and an output the command it was computed for; the code has neither.
-/

namespace Vcass.Agent

open Vcass.Core

/-! ## Commands and their answers -/

/-- `VCA_AGENT_RENEW`, the command with a time limit of its own -/
def vcaAgentRenew : Int := 4

/-- `VCA_AGENT_CMD_SIZE`, one more than the last command -/
def vcaAgentCmdSize : Int := 9

/-- `vca_validate_agent_cmd` -/
def vcaValidateAgentCmd (value : Int) : Bool :=
  0 < value && value < vcaAgentCmdSize

/-- What `csa_mem_show` prints for a command; nothing for an unknown one -/
def vcaAgentCmdName (value : Int) : Option String :=
  match value with
  | 1 => some "sensors"
  | 2 => some "ip"
  | 3 => some "ip_stats"
  | 4 => some "dhcp_renew"
  | 5 => some "vm_mac"
  | 6 => some "os_shutdown"
  | 7 => some "os_reboot"
  | 8 => some "os_info"
  | _ => none

/-- The number of 100 ms sleeps before a call gives up: ten a second, for
`VCA_AGENT_RENEW_TIMEOUT` or `VCA_AGENT_STD_TIMEOUT` seconds -/
def agentRetry (cmd : Int) : Nat :=
  if cmd = vcaAgentRenew then 20 * 10 else 10 * 10

/-- A command, and the call that issued it -/
structure Request where
  call : Nat
  cmd : Int
deriving DecidableEq

/-- An output of the agent, and the request whose command the agent had read -/
structure Output where
  request : Request
  text : Nat
deriving DecidableEq

/-- The values of `vca_lbp_retval` that the call returns -/
inductive LbpRetval where
  | stateOk | irqTimeout | unknownParameter | internalError
deriving DecidableEq

/-- What a call returned; `data` is `none` when it copied nothing to the caller's buffer -/
structure Answer where
  request : Request
  retval : LbpRetval
  data : Option Output
deriving DecidableEq

/-! ## The two parties -/

/-- The next access of the host call that holds the mutex -/
inductive HostPhase where
  | idle
  /-- read `csa_finished` -/
  | check (req : Request)
  /-- clear the flag of an answer that came after its time -/
  | clear (req : Request)
  /-- write `csa_command` -/
  | command (req : Request)
  /-- `plx_send_intr` -/
  | interrupt (req : Request)
  /-- the polling loop, with the sleeps that are left -/
  | poll (req : Request) (retry : Nat)
  /-- read `csa_finished` after the loop -/
  | test (req : Request)
  /-- `plx_read_dma_mapped_mem` -/
  | read (req : Request)
  /-- clear `csa_finished` and return -/
  | finish (req : Request) (data : Option Output)

/-- The next access of the agent's process on the card -/
inductive AgentPhase where
  /-- before `csa_mem_show`, or waiting in it -/
  | idle
  /-- the wait in `csa_mem_show` has ended -/
  | woken
  /-- `csa_command` was read, `last_serviced_request` is not written yet -/
  | shown (req : Request)
  /-- the agent has the command -/
  | computing (req : Request)
  /-- `plx_set_config_file`, before it frees the old memory -/
  | free (out : Output)
  /-- `plx_set_config_file`, before the new memory is there -/
  | map (out : Output)
  /-- before `csa_finished` is set -/
  | flag
deriving DecidableEq

/-- The boot parameters, the two parties, and what the calls have returned -/
structure AgentState where
  csaFinished : Bool
  csaCommand : Request
  /-- what `card_csa_mem_dma_addr` and `card_csa_mem_size` lead to; `none` when the size is 0 or the
  address is not a valid one -/
  cardCsaMem : Option Output
  h2cCsaMemDb : Int
  host : HostPhase
  /-- the number of calls so far -/
  calls : Nat
  /-- doorbells rung and not yet handled on the card -/
  doorbells : Nat
  csaRequests : Nat
  lastServicedRequest : Nat
  agent : AgentPhase
  returned : List Answer

/-- A step of the host; `mapped` says whether the card's memory could be mapped for reading. -/
inductive HostAct where
  | call (cmd : Int)
  | check | clear | command | interrupt | poll | test
  | read (mapped : Bool)
  | finish

/-- A step of the card; `mapped` says whether memory for the output was allocated and mapped. -/
inductive CardAct where
  | irq | wait | getCommand | serviced
  | compute (text : Nat)
  | free
  | map (mapped : Bool)
  | setFinished

inductive AgentAct where
  | host (a : HostAct)
  | card (a : CardAct)

def AgentState.return (s : AgentState) (req : Request) (retval : LbpRetval)
    (data : Option Output) : AgentState :=
  { s with host := .idle, returned := s.returned ++ [⟨req, retval, data⟩] }

/-- `_plx_csm_agent_command`, one access at a time -/
def hostStep (s : AgentState) (a : HostAct) : Option AgentState :=
  match a, s.host with
  | .call cmd, .idle =>
    let req : Request := ⟨s.calls + 1, cmd⟩
    let s : AgentState := { s with calls := s.calls + 1 }
    if !vcaValidateAgentCmd cmd then some (s.return req .unknownParameter none)
    else if s.h2cCsaMemDb = 0 ∨ s.h2cCsaMemDb = -1 then some (s.return req .internalError none)
    else some { s with host := .check req }
  | .check, .check req =>
    some { s with host := if s.csaFinished then .clear req else .command req }
  | .clear, .clear req => some { s with csaFinished := false, host := .command req }
  | .command, .command req => some { s with csaCommand := req, host := .interrupt req }
  | .interrupt, .interrupt req =>
    some { s with doorbells := s.doorbells + 1, host := .poll req (agentRetry req.cmd) }
  | .poll, .poll req retry =>
    if s.csaFinished then some { s with host := .test req }
    else
      match retry with
      | 0 => some { s with host := .test req }
      | retry + 1 => some { s with host := .poll req retry }
  | .test, .test req =>
    if s.csaFinished then some { s with host := .read req }
    else some (s.return req .irqTimeout none)
  | .read mapped, .read req =>
    some { s with host := .finish req (if mapped then s.cardCsaMem else none) }
  | .finish, .finish req data =>
    some ({ s with csaFinished := false }.return req .stateOk data)
  | _, _ => none

/-- The interrupt handler, `csa_mem_show`, the agent and `csa_mem_store` -/
def cardStep (s : AgentState) (a : CardAct) : Option AgentState :=
  match a, s.agent with
  | .irq, _ =>
    if s.doorbells = 0 then none
    else some { s with doorbells := s.doorbells - 1, csaRequests := s.csaRequests + 1 }
  | .wait, .idle =>
    if s.lastServicedRequest = s.csaRequests then none else some { s with agent := .woken }
  | .getCommand, .woken => some { s with agent := .shown s.csaCommand }
  | .serviced, .shown req =>
    -- an unknown command gives the agent nothing to answer
    some { s with
      lastServicedRequest := s.csaRequests
      agent := if (vcaAgentCmdName req.cmd).isSome then .computing req else .idle }
  | .compute text, .computing req => some { s with agent := .free ⟨req, text⟩ }
  | .free, .free out => some { s with cardCsaMem := none, agent := .map out }
  | .map mapped, .map out =>
    some { s with cardCsaMem := if mapped then some out else none, agent := .flag }
  | .setFinished, .flag => some { s with csaFinished := true, agent := .idle }
  | _, _ => none

def agentStep (s : AgentState) : AgentAct → Option AgentState
  | .host a => hostStep s a
  | .card a => cardStep s a

/-- The boot parameters of a card that has just started; its doorbell is any number, also one of the
two that say that there is no agent. -/
def AgentState.start (h2cCsaMemDb : Int) : AgentState where
  csaFinished := false
  csaCommand := ⟨0, 0⟩
  cardCsaMem := none
  h2cCsaMemDb := h2cCsaMemDb
  host := .idle
  calls := 0
  doorbells := 0
  csaRequests := 0
  lastServicedRequest := 0
  agent := .idle
  returned := []

def agentSystem : System AgentState AgentAct where
  Init s := ∃ db, s = .start db
  step := agentStep

/-- Every call that returned `LBP_STATE_OK` returned an output that the agent computed for the request
of this call. -/
def AnswersMatch (s : AgentState) : Prop :=
  ∀ ans ∈ s.returned, ans.retval = .stateOk →
    ∃ out, ans.data = some out ∧ out.request = ans.request

instance (s : AgentState) : Decidable (AnswersMatch s) :=
  decidable_of_iff
    (∀ ans ∈ s.returned, ans.retval = .stateOk →
      ans.data.any (fun out => out.request = ans.request) = true) (by
    simp only [AnswersMatch, Option.any_eq_true, decide_eq_true_eq])

end Vcass.Agent
