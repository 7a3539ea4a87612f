import Mathlib.Data.Finmap
import Tmgr.Lib.Rank
import Tmgr.TaskManagerDb

/-!
# One Paxos replica

`pt_paxos_replica`, its `run()` loop and `propose_and_apply`, as functions
on the replica's state. `index_` and `nreplicas_` never change; they are the
parameters `i` and `n`.

A coroutine can lose control only at `co_await transport_->send`, at the
wait for a decision, and where `run()` waits for the next message or timer.
Each function here runs from one of these points to the next: it returns the
new state and the packets put on the network on the way. Where a coroutine
stands is part of the state (`RunFrame` for `run()`, `CallFrame` for every
call of `propose_and_apply`), together with the locals it still needs.

Fields that no modelled function reads (`pending_`, `pending_time_`, the
batching flags, the counters) are left out. The last group of fields of
`PtPaxosReplica` is not in the source: it records what the replica did, for
statements about whole runs.
-/

namespace Tmgr

/-- The value decided by one slot. -/
structure DecidedValue where
  nowUnix : Int := 0
  agentId : String := ""
  serial : Nat := 0
  req : Request
  deriving DecidableEq

inductive MsgType where
  | propose
  | ack
  | probe
  | prepare
  deriving DecidableEq, Repr

structure PaxosMessage where
  type : MsgType
  sender : Nat
  slot : Nat := 0
  values : List DecidedValue := []
  ackSlot : Nat := 0
  decidedSlot : Nat := 0
  round : Nat := 0
  ackRound : Nat := 0
  truncationSlot : Nat := 0
  deriving DecidableEq

/-- A message with the index of the replica it is sent to. -/
abbrev Packet := Nat × PaxosMessage

structure ApplyResult where
  resp : Response
  nowUnix : Int
  deriving DecidableEq

/-- `pending_propose`, a local of the call that waits for it. -/
structure PendingPropose where
  done : Bool := false
  resp : Response := default
  nowUnix : Int := 0
  deriving DecidableEq

/-- Where a call of `propose_and_apply` stands. -/
inductive CallFrame where
  /-- in the loop of `send_propose`, which continues at replica `next` -/
  | sending (next : Nat)
  /-- at `co_await pending.done.arm()` -/
  | waiting
  | returned (result : ApplyResult)
  deriving DecidableEq

structure Call where
  mySlot : Nat
  dv : DecidedValue
  pending : PendingPropose := {}
  frame : CallFrame := .sending 0
  deriving DecidableEq

/-- Where `run()` stands. -/
inductive RunFrame where
  /-- at `co_await cot::first(receive, after)` -/
  | receiving
  /-- at the send of a PREPARE or an ACK, the last action of its handler -/
  | replying
  /-- in the PROBE loop of `start_election`, which continues at `next` -/
  | probing (next : Nat)
  /-- in the loop of a `send_propose` called by `become_leader` or by the
  retransmit timer; both go on with `apply_decided` -/
  | proposing (next : Nat)
  deriving DecidableEq

/-- One `process_req` call: the slot, the value and the response. -/
structure Processed where
  slot : Nat
  dv : DecidedValue
  resp : Response
  deriving DecidableEq

/-- One call of the `on_apply_` callback. -/
structure Reported where
  dv : DecidedValue
  path : String
  errcode : Errc
  deriving DecidableEq

/-- One adoption by `become_leader`: the round, the log that was adopted and
the `process_req` calls made by then. -/
structure Adoption where
  round : Nat
  slot : Nat
  values : List DecidedValue
  processed : List Processed
  deriving DecidableEq

structure PtPaxosReplica where
  leaderIndex : Nat := 0
  db : TaskManagerDb := {}
  log : List DecidedValue := []
  logBase : Nat := 0
  nextSlot : Nat := 0
  followerAckSlot : List Nat
  decidedSlot : Nat := 0
  appliedSlot : Nat := 0
  probeRound : Nat := 0
  ackRound : Nat := 0
  /-- steady clock, in milliseconds -/
  lastLeaderMsg : Nat := 0
  electionRound : Nat := 0
  prepareResponses : List PaxosMessage := []
  /-- slot to the call whose `pending_propose` it points to -/
  pendingResponses : Finmap (fun _ : Nat => Nat) := ∅
  /-- whether an `on_apply_` callback is registered -/
  onApply : Bool := false
  runFrame : RunFrame := .receiving
  calls : List Call := []
  processed : List Processed := []
  reported : List Reported := []
  refused : List (Request × ApplyResult) := []
  adoptions : List Adoption := []

/-- `nreplicas_ / 2 + 1`. -/
def quorum (n : Nat) : Nat := n / 2 + 1

namespace PtPaxosReplica

def logEnd (r : PtPaxosReplica) : Nat := r.logBase + r.log.length

/-! ## try_decide, try_truncate, apply_decided -/

def tryDecide (n : Nat) (r : PtPaxosReplica) : PtPaxosReplica :=
  { r with decidedSlot := max r.decidedSlot (Rank.rank r.followerAckSlot (quorum n)) }

def tryTruncate (r : PtPaxosReplica) : PtPaxosReplica :=
  let minAck := r.followerAckSlot.min?.getD 0
  { r with log := r.log.drop (minAck - r.logBase), logBase := max r.logBase minAck }

/-- `log_[applied_slot_ - log_base_]` goes through `process_req`. -/
def processSlot (r : PtPaxosReplica) (dv : DecidedValue) : PtPaxosReplica :=
  let out := r.db.processReq dv.req dv.nowUnix
  { r with db := out.1,
           processed := r.processed ++ [⟨r.appliedSlot, dv, out.2⟩],
           appliedSlot := r.appliedSlot + 1 }

/-- The body of the loop of `apply_decided`: besides applying the value it
calls `on_apply_` and fills the `pending_propose` registered for the slot. -/
def applySlot (r : PtPaxosReplica) (dv : DecidedValue) : PtPaxosReplica :=
  let resp := (r.db.processReq dv.req dv.nowUnix).2
  let path := requestPath dv.req
  { r.processSlot dv with
    reported :=
      if r.onApply ∧ path ≠ "/task_list" then r.reported ++ [⟨dv, path, resp.errcode⟩]
      else r.reported
    calls :=
      match r.pendingResponses.lookup r.appliedSlot with
      | none => r.calls
      | some c => r.calls.modify c fun call =>
          { call with pending := ⟨true, resp, dv.nowUnix⟩ } }

/-- `while (applied_slot_ < bound && applied_slot_ < log_base_ + log_.size())`
with the loop body `body`, which advances `applied_slot_` by one: at most
`fuel` turns. -/
def applyUpTo (body : PtPaxosReplica → DecidedValue → PtPaxosReplica) (bound : Nat) :
    Nat → PtPaxosReplica → PtPaxosReplica
  | 0, r => r
  | fuel + 1, r =>
    if r.appliedSlot < bound ∧ r.appliedSlot < r.logEnd then
      match r.log[r.appliedSlot - r.logBase]? with
      | some dv => applyUpTo body bound fuel (body r dv)
      | none => r
    else r

def applyLoop (r : PtPaxosReplica) : PtPaxosReplica :=
  applyUpTo applySlot r.decidedSlot (r.decidedSlot - r.appliedSlot) r

def applyDecided (n i : Nat) (r : PtPaxosReplica) : PtPaxosReplica :=
  let r := (r.tryDecide n).applyLoop
  if i = r.leaderIndex then r.tryTruncate else r

/-! ## Messages -/

/-- The first replica at or after `k` that the send loops do not skip. -/
def nextPeer (n i k : Nat) : Option Nat :=
  let j := if k = i then k + 1 else k
  if j < n then some j else none

/-- The PROPOSE of `send_propose` for replica `j`. -/
def proposeMsg (i : Nat) (r : PtPaxosReplica) (j : Nat) : PaxosMessage :=
  let start := max r.logBase (min (r.followerAckSlot.getD j 0) r.logEnd)
  { type := .propose, sender := i, slot := start, values := r.log.drop (start - r.logBase),
    decidedSlot := r.decidedSlot, round := r.probeRound, truncationSlot := r.logBase }

def probeMsg (i : Nat) (r : PtPaxosReplica) : PaxosMessage :=
  { type := .probe, sender := i, decidedSlot := r.decidedSlot, round := r.electionRound }

def prepareMsg (i : Nat) (r : PtPaxosReplica) (round : Nat) : PaxosMessage :=
  { type := .prepare, sender := i, slot := r.logBase, values := r.log, ackSlot := r.logEnd,
    decidedSlot := r.decidedSlot, round, ackRound := r.ackRound }

def ackMsg (i : Nat) (r : PtPaxosReplica) : PaxosMessage :=
  { type := .ack, sender := i, ackSlot := r.logEnd, decidedSlot := r.decidedSlot,
    round := r.probeRound }

/-! ## become_leader, start_election -/

/-- `send_propose` as called by `run()`, from replica `k` on. -/
def runSendPropose (n i k : Nat) (r : PtPaxosReplica) : PtPaxosReplica × List Packet :=
  match nextPeer n i k with
  | some j => ({ r with runFrame := .proposing (j + 1) }, [(j, r.proposeMsg i j)])
  | none => ({ r.applyDecided n i with runFrame := .receiving }, [])

/-- The order of `std::max_element` in `become_leader`. -/
def prepareLess (a b : PaxosMessage) : Bool :=
  a.ackRound < b.ackRound || (a.ackRound == b.ackRound && a.ackSlot < b.ackSlot)

/-- `std::max_element`: the first of the largest. -/
def maxElement : List PaxosMessage → Option PaxosMessage
  | [] => none
  | m :: ms => some (ms.foldl (fun best x => if prepareLess best x then x else best) m)

/-- The loop of `become_leader` that applies the replica's own entries below
the base of the log it adopts. -/
def catchUp (best : PaxosMessage) (r : PtPaxosReplica) : PtPaxosReplica :=
  applyUpTo processSlot best.slot (best.slot - r.appliedSlot) r

/-- `become_leader` up to its `send_propose`. -/
def adopt (i : Nat) (best : PaxosMessage) (r : PtPaxosReplica) : PtPaxosReplica :=
  let r := r.catchUp best
  { r with
    decidedSlot := max r.decidedSlot best.slot
    appliedSlot := max r.appliedSlot best.slot
    log := best.values
    logBase := best.slot
    nextSlot := best.slot + best.values.length
    leaderIndex := i
    ackRound := r.electionRound
    followerAckSlot :=
      (r.followerAckSlot.map fun _ => best.slot).set i (best.slot + best.values.length)
    adoptions := r.adoptions ++ [⟨r.electionRound, best.slot, best.values, r.processed⟩] }

def becomeLeader (n i : Nat) (r : PtPaxosReplica) : PtPaxosReplica × List Packet :=
  match maxElement r.prepareResponses with
  | some best => runSendPropose n i 0 (r.adopt i best)
  | none => (r, [])

/-- `prepare_responses_.push_back(msg)`. -/
def addResponse (msg : PaxosMessage) (r : PtPaxosReplica) : PtPaxosReplica :=
  { r with runFrame := .receiving, prepareResponses := r.prepareResponses ++ [msg] }

/-- The PROBE loop of `start_election` from replica `k` on, and what follows
it: the implicit PREPARE of the candidate itself. -/
def runProbe (n i k : Nat) (r : PtPaxosReplica) : PtPaxosReplica × List Packet :=
  match nextPeer n i k with
  | some j => ({ r with runFrame := .probing (j + 1) }, [(j, r.probeMsg i)])
  | none =>
    let r := r.addResponse (r.prepareMsg i r.electionRound)
    if quorum n ≤ r.prepareResponses.length then r.becomeLeader n i else (r, [])

/-- The candidate's new round: its own, and higher than any it has seen. -/
def pickRound (n i : Nat) (r : PtPaxosReplica) : PtPaxosReplica :=
  let round := r.probeRound + n - r.probeRound % n + i
  { r with electionRound := round, probeRound := round, prepareResponses := [] }

def startElection (n i : Nat) (r : PtPaxosReplica) : PtPaxosReplica × List Packet :=
  (r.pickRound n i).runProbe n i 0

/-! ## The message handlers of run() -/

/-- A message of a higher round: step down. -/
def stepDown (now : Nat) (msg : PaxosMessage) (r : PtPaxosReplica) : PtPaxosReplica :=
  if msg.round > r.probeRound then
    { r with probeRound := msg.round, leaderIndex := msg.sender, lastLeaderMsg := now }
  else r

def handlePrepare (n i : Nat) (msg : PaxosMessage) (r : PtPaxosReplica) :
    PtPaxosReplica × List Packet :=
  if msg.round = r.electionRound ∧ r.probeRound = r.electionRound then
    let r := r.addResponse msg
    if r.prepareResponses.length = quorum n then r.becomeLeader n i else (r, [])
  else (r, [])

def recordAck (msg : PaxosMessage) (r : PtPaxosReplica) : PtPaxosReplica :=
  if msg.type = .ack ∧ msg.round = r.probeRound then
    { r with
      followerAckSlot :=
        r.followerAckSlot.set msg.sender
          (max (r.followerAckSlot.getD msg.sender 0) msg.ackSlot) }
  else r

def handleAck (n i : Nat) (msg : PaxosMessage) (r : PtPaxosReplica) : PtPaxosReplica :=
  (r.recordAck msg).applyDecided n i

/-- The loop that writes the values of a PROPOSE over the log: `s` is the
slot of the next value. -/
def writeValues (logBase : Nat) : Nat → List DecidedValue → List DecidedValue →
    List DecidedValue
  | _, [], log => log
  | s, v :: vs, log =>
    writeValues logBase (s + 1) vs
      (if s < logBase then log
       else if s - logBase < log.length then log.set (s - logBase) v
       else if s - logBase = log.length then log ++ [v]
       else log)

def proposeEnd (msg : PaxosMessage) : Nat := msg.slot + msg.values.length

/-- Same round, and shorter than what the follower holds: ignored. -/
def staleProposal (msg : PaxosMessage) (r : PtPaxosReplica) : Bool :=
  msg.round == r.ackRound && proposeEnd msg < r.logEnd

/-- The log after an accepted PROPOSE: the gap reset, the write loop and, in
a new round, the truncation at the back. -/
def install (msg : PaxosMessage) (r : PtPaxosReplica) : PtPaxosReplica :=
  let newRound := msg.round > r.ackRound
  let r := { r with ackRound := msg.round }
  let r :=
    if msg.slot > r.logEnd then
      { r with log := [], logBase := msg.slot, appliedSlot := max r.appliedSlot msg.slot }
    else r
  let r := { r with log := writeValues r.logBase msg.slot msg.values r.log }
  if newRound then { r with log := r.log.take (proposeEnd msg - r.logBase) } else r

/-- The follower's truncation at the front, up to the leader's `log_base_`. -/
def truncateFollower (truncationSlot : Nat) (r : PtPaxosReplica) : PtPaxosReplica :=
  let k := min (min truncationSlot r.appliedSlot - r.logBase) r.log.length
  { r with log := r.log.drop k, logBase := r.logBase + k }

/-- A PROPOSE that is not ignored, up to the ACK. -/
def acceptPropose (n i now : Nat) (msg : PaxosMessage) (r : PtPaxosReplica) :
    PtPaxosReplica :=
  let r := r.install msg
  let r := { r with
    decidedSlot := max r.decidedSlot msg.decidedSlot, lastLeaderMsg := now }
  (r.applyDecided n i).truncateFollower msg.truncationSlot

/-- `r` goes on to the send of its ACK. -/
def reply (i : Nat) (msg : PaxosMessage) (r : PtPaxosReplica) :
    PtPaxosReplica × List Packet :=
  ({ r with runFrame := .replying }, [(msg.sender, r.ackMsg i)])

def handlePropose (n i now : Nat) (msg : PaxosMessage) (r : PtPaxosReplica) :
    PtPaxosReplica × List Packet :=
  let r := { r with leaderIndex := msg.sender }
  if r.staleProposal msg then { r with lastLeaderMsg := now }.reply i msg
  else (r.acceptPropose n i now msg).reply i msg

def handleMessage (n i now : Nat) (msg : PaxosMessage) (r : PtPaxosReplica) :
    PtPaxosReplica × List Packet :=
  let r := r.stepDown now msg
  if msg.round < r.probeRound then (r, [])
  else
    match msg.type with
    | .probe => ({ r with runFrame := .replying }, [(msg.sender, r.prepareMsg i msg.round)])
    | .prepare => r.handlePrepare n i msg
    | .ack => if i = r.leaderIndex then (r.handleAck n i msg, []) else (r, [])
    | .propose =>
      if i = r.leaderIndex then (r.handleAck n i msg, []) else r.handlePropose n i now msg

def handleTimeout (n i now : Nat) (r : PtPaxosReplica) : PtPaxosReplica × List Packet :=
  if i = r.leaderIndex then r.runSendPropose n i 0
  else if now - r.lastLeaderMsg > 500 then r.startElection n i
  else (r, [])

/-- `run()` goes on after a send; `none` when it is not in one. -/
def resumeRun (n i : Nat) (r : PtPaxosReplica) : Option (PtPaxosReplica × List Packet) :=
  match r.runFrame with
  | .receiving => none
  | .replying => some ({ r with runFrame := .receiving }, [])
  | .probing k => some (r.runProbe n i k)
  | .proposing k => some (r.runSendPropose n i k)

/-! ## propose_and_apply -/

def notLeader (req : Request) : ApplyResult :=
  ⟨.taskCreate { serial := req.base.serial, errcode := .busy, errmsg := "not leader" }, 0⟩

/-- The call `c` returns what its `pending_propose` holds. -/
def finishCall (c : Nat) (r : PtPaxosReplica) : PtPaxosReplica :=
  match r.calls[c]? with
  | none => r
  | some call =>
    { r with
      pendingResponses := r.pendingResponses.erase call.mySlot
      calls := r.calls.modify c fun call =>
        { call with frame := .returned ⟨call.pending.resp, call.pending.nowUnix⟩ } }

/-- `if (applied_slot_ <= my_slot) co_await pending.done.arm()`: arming the
event forgets an earlier trigger. -/
def awaitCall (c : Nat) (r : PtPaxosReplica) : PtPaxosReplica :=
  match r.calls[c]? with
  | none => r
  | some call =>
    if r.appliedSlot ≤ call.mySlot then
      { r with calls := r.calls.modify c fun call =>
          { call with pending.done := false, frame := .waiting } }
    else r.finishCall c

/-- `send_propose` as called by the call `c`, from replica `k` on, then
`apply_decided` and the wait. -/
def callSendPropose (n i c k : Nat) (r : PtPaxosReplica) : PtPaxosReplica × List Packet :=
  match nextPeer n i k with
  | some j =>
    ({ r with calls := r.calls.modify c fun call => { call with frame := .sending (j + 1) } },
     [(j, r.proposeMsg i j)])
  | none => ((r.applyDecided n i).awaitCall c, [])

/-- The value is stamped, appended and registered for its slot. -/
def appendCall (i : Nat) (nowUnix : Int) (req : Request) (r : PtPaxosReplica) :
    PtPaxosReplica :=
  let dv : DecidedValue := ⟨nowUnix, req.base.agentId, req.base.serial, req⟩
  { r with
    pendingResponses := r.pendingResponses.insert r.nextSlot r.calls.length
    calls := r.calls ++ [{ mySlot := r.nextSlot, dv }]
    log := r.log ++ [dv]
    nextSlot := r.nextSlot + 1
    followerAckSlot := r.followerAckSlot.set i (r.nextSlot + 1) }

def proposeAndApply (n i : Nat) (nowUnix : Int) (req : Request) (r : PtPaxosReplica) :
    PtPaxosReplica × List Packet :=
  if i ≠ r.leaderIndex then
    ({ r with refused := r.refused ++ [(req, notLeader req)] }, [])
  else (r.appendCall i nowUnix req).callSendPropose n i r.calls.length 0

/-- The call `c` goes on after a send, or after its `pending_propose` was
triggered; `none` when it cannot. -/
def resumeCall (n i c : Nat) (r : PtPaxosReplica) :
    Option (PtPaxosReplica × List Packet) :=
  match r.calls[c]? with
  | none => none
  | some call =>
    match call.frame with
    | .sending k => some (r.callSendPropose n i c k)
    | .waiting => if call.pending.done then some (r.finishCall c, []) else none
    | .returned _ => none

/-! ## One step of a replica -/

/-- What can happen at one replica. -/
inductive LocalEvent where
  /-- `run()` is handed a message, at the steady time `now` -/
  | receive (msg : PaxosMessage) (now : Nat)
  /-- the timer of `run()` fires -/
  | timeout (now : Nat)
  /-- a client calls `propose_and_apply`, at the wall-clock time `nowUnix` -/
  | propose (req : Request) (nowUnix : Int)
  | resumeRun
  | resumeCall (c : Nat)

def localStep (n i : Nat) (r : PtPaxosReplica) :
    LocalEvent → Option (PtPaxosReplica × List Packet)
  | .receive msg now => if r.runFrame = .receiving then some (r.handleMessage n i now msg) else none
  | .timeout now => if r.runFrame = .receiving then some (r.handleTimeout n i now) else none
  | .propose req nowUnix => some (r.proposeAndApply n i nowUnix req)
  | .resumeRun => r.resumeRun n i
  | .resumeCall c => r.resumeCall n i c

/-- A replica as constructed, in a group of `n`. -/
def initial (n : Nat) (onApply : Bool) : PtPaxosReplica :=
  { followerAckSlot := List.replicate n 0, onApply }

end PtPaxosReplica

end Tmgr
