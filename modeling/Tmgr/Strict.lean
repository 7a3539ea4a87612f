import Tmgr.Lib.Loop
import Tmgr.Paxos

/-!
# The replica on a deque that faults

In `Tmgr.Paxos` differences are cut off at 0, a list read out of range gives
`none`, and the loops that pop are one `drop` or `take`. The functions here
are the same ones with the source's loops turn by turn and every operation
checked: a difference of two `size_t`, an index into `log_` or into a vector,
an iterator, a `pop_front` or `pop_back`, the element `std::min_element` or
`std::max_element` points to. What the source does not define, or what would
wrap around, throws a `Fault`. So does a `pop_front` of an entry at or above
`applied_slot_`, which the source can do but must not.

Sums are those of `Nat`: nothing is said of runs long enough for a slot or a
round to overflow. In this namespace `f r` is the checked function and `r.f`
the one of `Tmgr.Paxos`.
-/

namespace Tmgr

/-- What a function of the replica can do wrong. -/
inductive Fault where
  /-- `log_[k]` with `k >= log_.size()` -/
  | index
  /-- `pop_front` or `pop_back` of an empty deque -/
  | popEmpty
  /-- `pop_front` of an entry that was not applied: its slot is `applied_slot_`
  or above -/
  | unapplied
  /-- an iterator beyond `log_.end()` -/
  | iterator
  /-- `a - b` with `a < b` -/
  | wrap
  /-- an index out of the range of a vector -/
  | vector
  /-- the minimum or the maximum of an empty range -/
  | noElement
  /-- a loop that does not end -/
  | endless
  deriving DecidableEq, Repr

namespace PtPaxosReplica

namespace Strict

open Loops

/-! ## Checked operations -/

def orFault {α : Type*} (e : Fault) : Option α → Except Fault α
  | some a => .ok a
  | none => .error e

/-- `a - b` on `size_t`. -/
def sub (a b : Nat) : Except Fault Nat :=
  if b ≤ a then .ok (a - b) else .error .wrap

/-- `l[k] = a`. -/
def assign {α : Type*} (e : Fault) (l : List α) (k : Nat) (a : α) : Except Fault (List α) :=
  if k < l.length then .ok (l.set k a) else .error e

/-- The range from `log_.begin() + k` to `log_.end()`. -/
def suffix {α : Type*} (l : List α) (k : Nat) : Except Fault (List α) :=
  if k ≤ l.length then .ok (l.drop k) else .error .iterator

/-- `log_[slot - log_base_]`. -/
def entry (r : PtPaxosReplica) (slot : Nat) : Except Fault DecidedValue := do
  let k ← sub slot r.logBase
  orFault .index r.log[k]?

/-- `log_.pop_front(); ++log_base_;` -/
def popFront (r : PtPaxosReplica) : Except Fault PtPaxosReplica :=
  match r.log with
  | [] => .error .popEmpty
  | _ :: log =>
    if r.logBase < r.appliedSlot then .ok { r with log, logBase := r.logBase + 1 }
    else .error .unapplied

/-- `log_.pop_back()` -/
def popBack (r : PtPaxosReplica) : Except Fault PtPaxosReplica :=
  match r.log with
  | [] => .error .popEmpty
  | _ :: _ => .ok { r with log := r.log.dropLast }

/-! ## try_decide, try_truncate, apply_decided -/

def tryDecide (n : Nat) (r : PtPaxosReplica) : Except Fault PtPaxosReplica := do
  let sortedAcks := r.followerAckSlot.insertionSort (· ≤ ·)
  let k ← sub n (quorum n)
  let newDecided ← orFault .vector sortedAcks[k]?
  return { r with decidedSlot := max r.decidedSlot newDecided }

def tryTruncate (r : PtPaxosReplica) : Except Fault PtPaxosReplica := do
  let minAck ← orFault .noElement r.followerAckSlot.min?
  loop .endless (fun r => r.logBase < minAck) popFront (minAck - r.logBase) r

/-- The loops of `apply_decided` and of `become_leader`. -/
def applyUpTo (body : PtPaxosReplica → DecidedValue → PtPaxosReplica) (bound : Nat)
    (r : PtPaxosReplica) : Except Fault PtPaxosReplica :=
  loop .endless (fun r => r.appliedSlot < bound && r.appliedSlot < r.logEnd)
    (fun r => do
      let dv ← entry r r.appliedSlot
      return body r dv)
    (bound - r.appliedSlot) r

def applyDecided (n i : Nat) (r : PtPaxosReplica) : Except Fault PtPaxosReplica := do
  let r ← tryDecide n r
  let r ← applyUpTo applySlot r.decidedSlot r
  if i = r.leaderIndex then tryTruncate r else return r

/-! ## Sending -/

def proposeMsg (i : Nat) (r : PtPaxosReplica) (j : Nat) : Except Fault PaxosMessage := do
  let ack ← orFault .vector r.followerAckSlot[j]?
  let start := max r.logBase (min ack r.logEnd)
  let k ← sub start r.logBase
  let _nvalues ← sub r.log.length k
  let values ← suffix r.log k
  return { type := .propose, sender := i, slot := start, values, decidedSlot := r.decidedSlot,
           round := r.probeRound, truncationSlot := r.logBase }

def runSendPropose (n i k : Nat) (r : PtPaxosReplica) :
    Except Fault (PtPaxosReplica × List Packet) :=
  match nextPeer n i k with
  | some j => do
    let msg ← proposeMsg i r j
    return ({ r with runFrame := .proposing (j + 1) }, [(j, msg)])
  | none => do
    let r ← applyDecided n i r
    return ({ r with runFrame := .receiving }, [])

/-! ## become_leader, start_election -/

def adopt (i : Nat) (best : PaxosMessage) (r : PtPaxosReplica) :
    Except Fault PtPaxosReplica := do
  let r ← applyUpTo processSlot best.slot r
  let nextSlot := best.slot + best.values.length
  let acks ← assign .vector (r.followerAckSlot.map fun _ => best.slot) i nextSlot
  return { r with
    decidedSlot := max r.decidedSlot best.slot
    appliedSlot := max r.appliedSlot best.slot
    log := best.values
    logBase := best.slot
    nextSlot
    leaderIndex := i
    ackRound := r.electionRound
    followerAckSlot := acks
    adoptions := r.adoptions ++ [⟨r.electionRound, best.slot, best.values, r.processed⟩] }

def becomeLeader (n i : Nat) (r : PtPaxosReplica) :
    Except Fault (PtPaxosReplica × List Packet) := do
  let best ← orFault .noElement (maxElement r.prepareResponses)
  let r ← adopt i best r
  runSendPropose n i 0 r

def runProbe (n i k : Nat) (r : PtPaxosReplica) : Except Fault (PtPaxosReplica × List Packet) :=
  match nextPeer n i k with
  | some j => return ({ r with runFrame := .probing (j + 1) }, [(j, r.probeMsg i)])
  | none =>
    let r := r.addResponse (r.prepareMsg i r.electionRound)
    if quorum n ≤ r.prepareResponses.length then becomeLeader n i r else return (r, [])

/-! ## The message handlers of run() -/

def handlePrepare (n i : Nat) (msg : PaxosMessage) (r : PtPaxosReplica) :
    Except Fault (PtPaxosReplica × List Packet) :=
  if msg.round = r.electionRound ∧ r.probeRound = r.electionRound then
    let r := r.addResponse msg
    if r.prepareResponses.length = quorum n then becomeLeader n i r else return (r, [])
  else return (r, [])

def recordAck (msg : PaxosMessage) (r : PtPaxosReplica) : Except Fault PtPaxosReplica :=
  if msg.type = .ack ∧ msg.round = r.probeRound then do
    let ack ← orFault .vector r.followerAckSlot[msg.sender]?
    let acks ← assign .vector r.followerAckSlot msg.sender (max ack msg.ackSlot)
    return { r with followerAckSlot := acks }
  else return r

def handleAck (n i : Nat) (msg : PaxosMessage) (r : PtPaxosReplica) :
    Except Fault (PtPaxosReplica × List Packet) := do
  let r ← recordAck msg r
  let r ← applyDecided n i r
  return (r, [])

/-- The loop over the values of a PROPOSE: `s` is the slot of the next one. -/
def writeValues (logBase : Nat) : Nat → List DecidedValue → List DecidedValue →
    Except Fault (List DecidedValue)
  | _, [], log => return log
  | s, v :: vs, log =>
    if s < logBase then writeValues logBase (s + 1) vs log
    else do
      let idx ← sub s logBase
      let log ←
        if idx < log.length then assign .index log idx v
        else if idx = log.length then pure (log ++ [v])
        else pure log
      writeValues logBase (s + 1) vs log

def install (msg : PaxosMessage) (r : PtPaxosReplica) : Except Fault PtPaxosReplica := do
  let newRound := msg.round > r.ackRound
  let r := { r with ackRound := msg.round }
  let r :=
    if msg.slot > r.logEnd then
      { r with log := [], logBase := msg.slot, appliedSlot := max r.appliedSlot msg.slot }
    else r
  let log ← writeValues r.logBase msg.slot msg.values r.log
  let r := { r with log }
  if newRound then
    loop .endless (fun r => r.logEnd > proposeEnd msg) popBack (r.logEnd - proposeEnd msg) r
  else return r

def truncateFollower (truncationSlot : Nat) (r : PtPaxosReplica) :
    Except Fault PtPaxosReplica :=
  let trunc := min truncationSlot r.appliedSlot
  loop .endless (fun r => r.logBase < trunc && !r.log.isEmpty) popFront (trunc - r.logBase) r

def acceptPropose (n i now : Nat) (msg : PaxosMessage) (r : PtPaxosReplica) :
    Except Fault PtPaxosReplica := do
  let r ← install msg r
  let r := { r with
    decidedSlot := max r.decidedSlot msg.decidedSlot, lastLeaderMsg := now }
  let r ← applyDecided n i r
  truncateFollower msg.truncationSlot r

def handlePropose (n i now : Nat) (msg : PaxosMessage) (r : PtPaxosReplica) :
    Except Fault (PtPaxosReplica × List Packet) :=
  let r := { r with leaderIndex := msg.sender }
  if r.staleProposal msg then return { r with lastLeaderMsg := now }.reply i msg
  else do
    let r ← acceptPropose n i now msg r
    return r.reply i msg

def handleMessage (n i now : Nat) (msg : PaxosMessage) (r : PtPaxosReplica) :
    Except Fault (PtPaxosReplica × List Packet) :=
  let r := r.stepDown now msg
  if msg.round < r.probeRound then return (r, [])
  else
    match msg.type with
    | .probe =>
      return ({ r with runFrame := .replying }, [(msg.sender, r.prepareMsg i msg.round)])
    | .prepare => handlePrepare n i msg r
    | .ack => if i = r.leaderIndex then handleAck n i msg r else return (r, [])
    | .propose =>
      if i = r.leaderIndex then handleAck n i msg r else handlePropose n i now msg r

def handleTimeout (n i now : Nat) (r : PtPaxosReplica) :
    Except Fault (PtPaxosReplica × List Packet) :=
  if i = r.leaderIndex then runSendPropose n i 0 r
  else if now - r.lastLeaderMsg > 500 then runProbe n i 0 (r.pickRound n i)
  else return (r, [])

def resumeRun (n i : Nat) (r : PtPaxosReplica) :
    Except Fault (Option (PtPaxosReplica × List Packet)) :=
  match r.runFrame with
  | .receiving => return none
  | .replying => return some ({ r with runFrame := .receiving }, [])
  | .probing k => some <$> runProbe n i k r
  | .proposing k => some <$> runSendPropose n i k r

/-! ## propose_and_apply -/

def callSendPropose (n i c k : Nat) (r : PtPaxosReplica) :
    Except Fault (PtPaxosReplica × List Packet) :=
  match nextPeer n i k with
  | some j => do
    let msg ← proposeMsg i r j
    return ({ r with calls := r.calls.modify c fun call =>
      { call with frame := .sending (j + 1) } }, [(j, msg)])
  | none => do
    let r ← applyDecided n i r
    return (r.awaitCall c, [])

def appendCall (i : Nat) (nowUnix : Int) (req : Request) (r : PtPaxosReplica) :
    Except Fault PtPaxosReplica := do
  let dv : DecidedValue := ⟨nowUnix, req.base.agentId, req.base.serial, req⟩
  let acks ← assign .vector r.followerAckSlot i (r.nextSlot + 1)
  return { r with
    pendingResponses := r.pendingResponses.insert r.nextSlot r.calls.length
    calls := r.calls ++ [{ mySlot := r.nextSlot, dv }]
    log := r.log ++ [dv]
    nextSlot := r.nextSlot + 1
    followerAckSlot := acks }

def proposeAndApply (n i : Nat) (nowUnix : Int) (req : Request) (r : PtPaxosReplica) :
    Except Fault (PtPaxosReplica × List Packet) :=
  if i ≠ r.leaderIndex then
    return ({ r with refused := r.refused ++ [(req, notLeader req)] }, [])
  else do
    let c := r.calls.length
    let r ← appendCall i nowUnix req r
    callSendPropose n i c 0 r

def resumeCall (n i c : Nat) (r : PtPaxosReplica) :
    Except Fault (Option (PtPaxosReplica × List Packet)) :=
  match r.calls[c]? with
  | none => return none
  | some call =>
    match call.frame with
    | .sending k => some <$> callSendPropose n i c k r
    | .waiting => return if call.pending.done then some (r.finishCall c, []) else none
    | .returned _ => return none

/-- One step of a replica: `none` where the event is not enabled. -/
def localStep (n i : Nat) (r : PtPaxosReplica) :
    LocalEvent → Except Fault (Option (PtPaxosReplica × List Packet))
  | .receive msg now =>
    if r.runFrame = .receiving then some <$> handleMessage n i now msg r else return none
  | .timeout now =>
    if r.runFrame = .receiving then some <$> handleTimeout n i now r else return none
  | .propose req nowUnix => some <$> proposeAndApply n i nowUnix req r
  | .resumeRun => resumeRun n i r
  | .resumeCall c => resumeCall n i c r

end Strict

end PtPaxosReplica

end Tmgr
