import Mathlib.Logic.Function.Basic
import Tmgr.Lib.Run
import Tmgr.Paxos

/-!
# A group of replicas and its network

The network is the list of packets in flight. A packet is delivered or lost
from any position: messages are delayed and reordered at will, but never
duplicated or altered. Everything else happens at one replica.

A `PaxosRun` is a run of the group in which every step meets a guard; the
guard `fun _ _ => True` allows every interleaving of every coroutine.
-/

namespace Tmgr

open PtPaxosReplica

structure System where
  replicas : Nat → PtPaxosReplica
  network : List Packet := []

/-- An event of the group of `n` replicas. -/
inductive Event where
  /-- the `k`-th packet in flight reaches its destination -/
  | deliver (k : Nat) (now : Nat)
  /-- the `k`-th packet in flight is lost -/
  | lose (k : Nat)
  | timeout (i : Nat) (now : Nat)
  | propose (i : Nat) (req : Request) (nowUnix : Int)
  | resumeRun (i : Nat)
  | resumeCall (i : Nat) (c : Nat)

namespace System

/-- The replica an event happens at, what happens there, and the packets that
stay in flight; `none` for a loss and for a packet that does not exist. -/
def target (s : System) : Event → Option (Nat × LocalEvent × List Packet)
  | .deliver k now =>
    match s.network[k]? with
    | none => none
    | some p => some (p.1, .receive p.2 now, s.network.eraseIdx k)
  | .lose _ => none
  | .timeout i now => some (i, .timeout now, s.network)
  | .propose i req nowUnix => some (i, .propose req nowUnix, s.network)
  | .resumeRun i => some (i, .resumeRun, s.network)
  | .resumeCall i c => some (i, .resumeCall c, s.network)

def step (n : Nat) (s : System) (e : Event) : Option System :=
  match s.target e with
  | some (i, ev, network) =>
    if i < n then
      match localStep n i (s.replicas i) ev with
      | some (r, sent) =>
        some { replicas := Function.update s.replicas i r, network := network ++ sent }
      | none => none
    else none
  | none =>
    match e with
    | .lose k =>
      if k < s.network.length then some { s with network := s.network.eraseIdx k } else none
    | _ => none

/-- The packets a step puts on the network. -/
def sent (n : Nat) (s : System) (e : Event) : List Packet :=
  match s.target e with
  | some (i, ev, _) => ((localStep n i (s.replicas i) ev).map Prod.snd).getD []
  | none => []

def initial (n : Nat) (onApply : Nat → Bool) : System :=
  { replicas := fun i => PtPaxosReplica.initial n (onApply i) }

end System

/-- A run of `n` replicas from the start, every step of which meets `ok`. -/
abbrev PaxosRun (n : Nat) (onApply : Nat → Bool) (ok : System → Event → Prop) :
    List (System × Event) → System → Prop :=
  Runs.Run (System.step n) ok (System.initial n onApply)

/-! ## Executions -/

namespace System

/-- Execute a list of events. -/
abbrev exec (n : Nat) (s : System) (es : List Event) : Option System :=
  Runs.exec (step n) s es

/-- The trace of the execution of a list of events. -/
abbrev trace (n : Nat) (s : System) (es : List Event) : List (System × Event) :=
  Runs.trace (step n) s es

end System

end Tmgr
