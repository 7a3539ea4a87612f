import Tmgr.Answers
import Tmgr.Netsim

/-!
# The clients of the simulation tests

`scenario_multi_agent` creates the first plans and starts synthetic agents; each
of these claims a task, works on it and completes it, again and again, until it
is told to stop. All of them talk to the group through `send_to_leader`, which
looks for a leader and tries again where it is answered `busy`.

A coroutine is a `Program`: what it waits for, and the locals it still needs. A
`Client` is a program in the middle of a `send_to_leader`, and a `Swarm` is the
clients with the group they talk to.
-/

namespace Tmgr

namespace PaxosTests

open PtPaxosReplica

/-! ## find_leader -/

/-- The replica that believes it leads and has the highest round, or replica 0. -/
def findLeader (n : Nat) (replicas : Nat → PtPaxosReplica) : Nat :=
  ((List.range n).foldl (fun found i =>
    if i ≠ (replicas i).leaderIndex then found
    else
      match found with
      | none => some i
      | some best =>
        if (replicas i).probeRound > (replicas best).probeRound then some i else some best)
    none).getD 0

/-! ## Agents -/

def makePlanCreate (serial : Nat) (agentId title : String) : TaskCreateRequest :=
  { serial, agentId, spec := { type := .plan, title, prompt := "test-prompt" } }

structure AgentState where
  id : String
  serial : Nat := 0
  completed : Nat := 0
  claimMisses : Nat := 0
  deriving DecidableEq

/-- What an agent remembers of the claim of a task. -/
structure Grant where
  taskId : TaskId
  token : FencingToken
  taskType : TaskType
  deriving DecidableEq

/-- The `send_to_leader` of `synthetic_agent` that waits. -/
inductive Asking where
  | claim
  | lock (g : Grant)
  | release (g : Grant) (lockToken : FencingToken)
  | complete (g : Grant)
  deriving DecidableEq

/-- A plan has one implement child; an implement task leaves a branch, for which
the state machine makes a merge task. -/
def completeRequest (a : AgentState) (g : Grant) : TaskCompleteRequest :=
  let done : TaskCompleteRequest :=
    { serial := a.serial, agentId := a.id, id := g.taskId, token := g.token, resultSummary := "ok" }
  match g.taskType with
  | .plan =>
    { done with newChildren :=
        [{ type := .implement, title := "impl", prompt := "do thing", branchBase := some "main" }] }
  | .implement => { done with resultBranch := some "abc1234" }
  | .merge => done

def Asking.request (a : AgentState) : Asking → Request
  | .claim => .taskClaim { serial := a.serial, agentId := a.id }
  | .lock g =>
    .mainLockAcquire { serial := a.serial, agentId := a.id, mergeTask := g.taskId, mergeToken := g.token }
  | .release _ lockToken => .mainLockRelease { serial := a.serial, agentId := a.id, lockToken }
  | .complete g => .taskComplete (completeRequest a g)

inductive Program where
  /-- the scenario creates the plans from `i` on -/
  | creating (i : Nat)
  /-- at the head of the loop of `synthetic_agent` -/
  | looping (a : AgentState)
  | asking (a : AgentState) (what : Asking)
  | stopped (a : AgentState)
  /-- `std::get` found another alternative -/
  | threw
  deriving DecidableEq

/-- `++state.serial`, and the next request. -/
def AgentState.ask (a : AgentState) (what : Asking) : Program :=
  .asking { a with serial := a.serial + 1 } what

namespace Program

/-- The request that the program is about to send. -/
def request (ntasks : Nat) : Program → Option Request
  | .creating i =>
    if i < ntasks then some (.taskCreate (makePlanCreate (i + 1) "human" ("plan-" ++ toString i)))
    else none
  | .asking a what => some (what.request a)
  | _ => none

/-- The program goes on with the response to its request. -/
def resume (resp : Response) : Program → Program
  | .creating i => .creating (i + 1)
  | .asking a .claim =>
    match resp with
    | .taskClaim cr =>
      if cr.none then .looping { a with claimMisses := a.claimMisses + 1 }
      else
        let g : Grant := ⟨cr.id, cr.token, cr.spec.type⟩
        if g.taskType = .merge then a.ask (.lock g) else a.ask (.complete g)
    | _ => .threw
  | .asking a (.lock g) =>
    match resp with
    | .mainLockAcquire lr =>
      if lr.errcode = .ok then a.ask (.release g lr.lockToken) else a.ask (.complete g)
    | _ => .threw
  | .asking a (.release g _) => a.ask (.complete g)
  | .asking a (.complete _) => .looping { a with completed := a.completed + 1 }
  | p => p

/-- `while (live)`. -/
def loop (live : Bool) : Program → Program
  | .looping a => if live then a.ask .claim else .stopped a
  | p => p

end Program

/-! ## send_to_leader -/

def maxRetries : Nat := 5

structure Client where
  program : Program
  /-- how often `send_to_leader` has tried -/
  attempt : Nat := 0
  /-- the replica and the number of the call that it waits for -/
  call : Option (Nat × Nat) := none
  deriving DecidableEq

/-- `send_to_leader` is answered: it tries again, or returns the answer. -/
def Client.receive (c : Client) (resp : Response) : Client :=
  if c.attempt < maxRetries ∧ resp.errcode = .busy then
    { c with attempt := c.attempt + 1, call := none }
  else { program := c.program.resume resp }

/-! ## The scenario -/

/-- The options of a test that the clients depend on. -/
structure TestOptions where
  nreplicas : Nat := 3
  nagents : Nat := 3
  ntasks : Nat := 5

/-- Client 0 is `scenario_multi_agent`, the agents are the clients from 1 on. -/
structure Swarm (m : Medium PaxosMessage) where
  cluster : Cluster m
  clients : Nat → Client
  live : Bool := true

inductive SwarmEvent (m : Medium PaxosMessage) where
  /-- something in the group that no client does -/
  | group (e : ClusterEvent m)
  /-- an agent goes on at the head of its loop -/
  | loop (k : Nat)
  /-- a client calls `propose_and_apply` -/
  | ask (k : Nat) (nowUnix : Int)
  /-- the call of a client has returned -/
  | answer (k : Nat)
  /-- the scenario clears `live` -/
  | stop

namespace Swarm

variable {m : Medium PaxosMessage}

def setClient (s : Swarm m) (k : Nat) (c : Client) : Swarm m :=
  { s with clients := Function.update s.clients k c }

/-- All plans have been created: the agents have been started. -/
def started (opts : TestOptions) (s : Swarm m) : Bool :=
  (s.clients 0).program = .creating opts.ntasks

/-- The clients that run. -/
def running (opts : TestOptions) (s : Swarm m) (k : Nat) : Bool :=
  k = 0 ∨ (k ≤ opts.nagents ∧ s.started opts)

/-- A client calls `propose_and_apply` at the leader, which registers a call or
refuses at once. -/
def ask (opts : TestOptions) (s : Swarm m) (k : Nat) (nowUnix : Int) (req : Request) :
    Option (Swarm m) :=
  let c := s.clients k
  let i := findLeader opts.nreplicas s.cluster.replicas
  let r := s.cluster.replicas i
  (s.cluster.step opts.nreplicas (.propose i req nowUnix)).map fun cluster =>
    { s with cluster }.setClient k
      (if i = r.leaderIndex then { c with call := some (i, r.calls.length) }
       else c.receive (notLeader req).resp)

def isPropose : ClusterEvent m → Bool
  | .propose _ _ _ => true
  | _ => false

def step (opts : TestOptions) (s : Swarm m) : SwarmEvent m → Option (Swarm m)
  | .group e =>
    if isPropose e then none
    else (s.cluster.step opts.nreplicas e).map fun cluster => { s with cluster }
  | .loop k =>
    if s.running opts k then
      some (s.setClient k { s.clients k with program := (s.clients k).program.loop s.live })
    else none
  | .ask k nowUnix =>
    if s.running opts k then
      match (s.clients k).call, (s.clients k).program.request opts.ntasks with
      | none, some req => s.ask opts k nowUnix req
      | _, _ => none
    else none
  | .answer k =>
    match (s.clients k).call with
    | some (i, c) =>
      ((s.cluster.replicas i).resultOf c).map fun result =>
        s.setClient k ((s.clients k).receive result.resp)
    | none => none
  | .stop => if s.started opts then some { s with live := false } else none

/-- Agent `k` is called `agent-k`. -/
def initial (opts : TestOptions) (m : Medium PaxosMessage) : Swarm m where
  cluster := Cluster.initial m opts.nreplicas fun _ => false
  clients := fun
    | 0 => { program := .creating 0 }
    | k + 1 => { program := .looping { id := "agent-" ++ toString k } }

/-- The calls of the clients send on only while their replicas lead. -/
def leaderSends (opts : TestOptions) (s : Swarm m) : SwarmEvent m → Prop
  | .group e => s.cluster.leaderSends opts.nreplicas e
  | _ => True

instance decidableLeaderSends (opts : TestOptions) (s : Swarm m) (e : SwarmEvent m) :
    Decidable (s.leaderSends opts e) :=
  match e with
  | .group e => inferInstanceAs (Decidable (s.cluster.leaderSends opts.nreplicas e))
  | .loop _ | .ask _ _ | .answer _ | .stop => isTrue trivial

end Swarm

end PaxosTests

end Tmgr
