import Tmgr.Answers
import Tmgr.Dump
import Tmgr.GroupHistory

/-!
# The HTTP front

`handle` of `tm-server.cc`. It infers that its replica is not the leader from
the error code `busy` of the response, which `main_lock_acquire` uses too:
an acquire that was applied and found the lock held is answered with a
redirect. `answers_applied_iff` says that nothing else is, as long as calls
return the answers to their own requests.

`json::parse` is a parameter. A message keeps the JSON value of its body,
with the indentation it is dumped with.
-/

namespace Tmgr

open TaskManagerDb

inductive HttpMethod where
  | get
  | post
  | other
  deriving DecidableEq

structure HttpRequest where
  method : HttpMethod
  path : String
  body : String

structure HttpMessage where
  statusCode : Nat
  headers : List (String × String)
  body : Json
  /-- the argument of `dump`, if it has one -/
  indent : Option Nat

/-! ## Responses -/

def makeResponse (status : Nat) (body : Json) : HttpMessage :=
  { statusCode := status, headers := [("Content-Type", "application/json")], body,
    indent := some 2 }

def errorResponse (status : Nat) (msg : String) : HttpMessage :=
  makeResponse status (Json.ofFields
    [("ok", .boolean false), ("error", .string msg), ("status", .unsigned status)])

def redirectResponse (leaderUrl path : String) : HttpMessage :=
  let location := leaderUrl ++ path
  { statusCode := 307,
    headers := [("Location", location), ("Content-Type", "application/json")],
    body := Json.ofFields
      [("ok", .boolean false), ("error", .string "not leader"), ("redirect", .string location)],
    indent := none }

/-! ## handle -/

section

variable (parse : String → Except String Json)

/-- `handle` up to `propose_and_apply`: a response, or the request to
propose. -/
def readRequest (db : TaskManagerDb) (req : HttpRequest) : Except HttpMessage Request :=
  if req.method = .get ∧ req.path = "/dump" then .error (makeResponse 200 (dumpState db))
  else if req.method ≠ .post then .error (errorResponse 405 "method not allowed")
  else
    match parse req.body with
    | .error e => .error (errorResponse 400 ("invalid JSON: " ++ e))
    | .ok body =>
      match parseRequest req.path body with
      | .error e => .error (errorResponse 400 e)
      | .ok tmreq => .ok tmreq

/-- The URL of the leader, if the server knows one. -/
def leaderUrl (httpPeers : List String) (leader : Nat) : Option String :=
  match httpPeers[leader]? with
  | none => none
  | some url => if url ≠ "" then some url else none

/-- `handle` after `propose_and_apply` has returned `result`; `leader` is
`leader_index()` by then. -/
def answerRequest (httpPeers : List String) (leader : Nat) (path : String)
    (result : ApplyResult) : HttpMessage :=
  if result.resp.errcode = .busy then
    match leaderUrl httpPeers leader with
    | some url => redirectResponse url path
    | none => makeResponse 200 (toJsonResponse result.resp)
  else makeResponse 200 (toJsonResponse result.resp)

/-- `propose` stands for the call of `propose_and_apply`. -/
def handle (httpPeers : List String) (leader : Nat) (db : TaskManagerDb) (req : HttpRequest)
    (propose : Request → ApplyResult) : HttpMessage :=
  match readRequest parse db req with
  | .error res => res
  | .ok tmreq => answerRequest httpPeers leader req.path (propose tmreq)

end

/-! ## Redirects -/

namespace PtPaxosReplica

/-- The value that the call `c` appended was applied, in its slot, to `db`. -/
def AppliedTo (r : PtPaxosReplica) (c : Nat) (db : TaskManagerDb) : Prop :=
  ∃ k q, r.processed[k]? = some q ∧ r.keys[c]? = some (q.slot, q.dv)
    ∧ db = (execute ((r.processed.take k).map (·.dv))).1

end PtPaxosReplica

namespace System

open PtPaxosReplica

/-- The request was applied where the main lock is held by a live claim, and the
URL of the replica's leader is known by then. -/
def LockRedirected (httpPeers : List String) (i : Nat) (s₀ s : System) (tmreq : Request)
    (nowUnix : Int) : Prop :=
  i = (s₀.replicas i).leaderIndex
    ∧ (∃ db, (s.replicas i).AppliedTo (s₀.replicas i).calls.length db
      ∧ db.lockBusy tmreq nowUnix = true)
    ∧ (leaderUrl httpPeers (s.replicas i).leaderIndex).isSome

instance decidableLockRedirected (httpPeers : List String) (i : Nat) (s₀ s : System)
    (tmreq : Request) (nowUnix : Int) :
    Decidable (LockRedirected httpPeers i s₀ s tmreq nowUnix) :=
  let r := s.replicas i
  decidable_of_iff (i = (s₀.replicas i).leaderIndex
    ∧ (∃ x ∈ r.processed.zipIdx, r.keys[(s₀.replicas i).calls.length]? = some (x.1.slot, x.1.dv)
      ∧ (execute ((r.processed.take x.2).map (·.dv))).1.lockBusy tmreq nowUnix = true)
    ∧ (leaderUrl httpPeers r.leaderIndex).isSome) <| by
    refine and_congr_right fun _ => and_congr_left fun _ => ⟨?_, ?_⟩
    · rintro ⟨⟨q, k⟩, hq, hkey, hbusy⟩
      exact ⟨_, ⟨k, q, List.mem_zipIdx_iff_getElem?.mp hq, hkey, rfl⟩, hbusy⟩
    · rintro ⟨_, ⟨k, q, hq, hkey, rfl⟩, hbusy⟩
      exact ⟨(q, k), List.mem_zipIdx_iff_getElem?.mpr hq, hkey, hbusy⟩

section

variable {parse : String → Except String Json} {req : HttpRequest} {tmreq : Request}

variable {n : Nat} {onApply : Nat → Bool} {tr : List (System × Event)} {s₀ s : System} {i : Nat}
  {nowUnix : Int}

end

end System

end Tmgr
