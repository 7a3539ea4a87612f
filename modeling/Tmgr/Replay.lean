import Mathlib.Data.List.DropRight
import Tmgr.Dump
import Tmgr.JsonText

/-!
# Replaying decision logs

`tm-replay.cc`. The first log is the stream of events; each is applied to a
dedicated database, and one more database for each log follows at the pace
of the log's own `applied_at_unix` stamps. Snapshots of states that hash like
the last one kept are dropped, and the interesting events are read off two
consecutive dumps.

`json::parse` and `XXH3_64bits` are parameters. What the program prints to
`stderr`, and the map from sequence numbers to stamps that it builds and
never reads, are left out.
-/

namespace Tmgr

open TaskManagerDb

/-! ## Summaries -/

structure OpView where
  summary : String := ""
  affectedTaskId : TaskId := ""

/-- What `std::get` throws on a response of another kind. -/
def badVariantAccess : String := "std::get: wrong index for variant"

def summarize (req : Request) (resp : Response) (path : String) : Except String OpView := do
  let ov : OpView ← match req, resp with
    | .taskCreate r, .taskCreate cr =>
      pure { affectedTaskId := cr.id
             summary := "task_create " ++ cr.id ++ " (" ++ r.spec.type.name ++ ") \"" ++
               r.spec.title ++ "\"" }
    | .taskClaim r, .taskClaim cr =>
      if cr.none then pure { summary := "task_claim " ++ r.agentId ++ " -> none" }
      else
        pure { affectedTaskId := cr.id
               summary := "task_claim " ++ r.agentId ++ " -> " ++ cr.id ++ " (token " ++
                 toString cr.token ++ ")" }
    | .taskHeartbeat r, _ =>
      pure { affectedTaskId := r.id
             summary := "task_heartbeat " ++ r.id ++ " (" ++ r.agentId ++ ")" }
    | .taskComplete r, .taskComplete cr =>
      let extra := match cr.mergeTaskId with
        | some mid => " + merge " ++ mid
        | none => ""
      let extra := if cr.childIds ≠ [] then
          extra ++ " + " ++ toString cr.childIds.length ++ " child(ren)"
        else extra
      pure { affectedTaskId := r.id
             summary := "task_complete " ++ r.id ++ " (" ++ r.agentId ++ ")" ++ extra }
    | .taskFail r, _ =>
      pure { affectedTaskId := r.id
             summary := "task_fail " ++ r.id ++ " (" ++ r.agentId ++ "): " ++ r.reason }
    | .taskList r, _ => pure { summary := "task_list " ++ r.agentId }
    | .mainLockAcquire r, .mainLockAcquire cr =>
      pure { affectedTaskId := r.mergeTask
             summary :=
               if cr.errcode = .ok then
                 "main_lock_acquire " ++ r.agentId ++ " (token " ++ toString cr.lockToken ++ ")"
               else "main_lock_acquire " ++ r.agentId ++ " -> busy" }
    | .mainLockRelease r, _ => pure { summary := "main_lock_release (" ++ r.agentId ++ ")" }
    | .swarmResume r, _ => pure { summary := "swarm_resume (" ++ r.agentId ++ ")" }
    | _, _ => throw badVariantAccess
  return if ov.summary = "" then { ov with summary := path } else ov

/-- The summary in the output: an error is appended to it. -/
def opSummary (ov : OpView) (rs : ResponseBase) : String :=
  if rs.errcode ≠ .ok then
    ov.summary ++ " -> " ++ rs.errcode.name ++
      (if rs.errmsg = "" then "" else " (" ++ rs.errmsg ++ ")")
  else ov.summary

/-! ## Logs -/

structure LogEntry where
  seq : Int
  nowUnix : Int
  /-- -1 if absent -/
  appliedAtUnix : Int
  path : String
  req : Request
  deriving DecidableEq

def LogEntry.call (e : LogEntry) : Request × Int := (e.req, e.nowUnix)

structure DecisionLog where
  path : String
  entries : List LogEntry

/-- One line of a log, after `json::parse`; `place` is the file and the line. -/
def readEntry (place : String) (entry : Json) : Except String LogEntry := do
  let seq ← entry.value Json.getInt64 "seq" 0
  let nowUnix ← entry.value Json.getInt64 "now_unix" 0
  let appliedAtUnix ← entry.value Json.getInt64 "applied_at_unix" (-1)
  let path ← entry.value Json.getString "path" ""
  let some request := entry.find? "request"
    | throw ("tm-replay: " ++ place ++ ": missing 'request'")
  let req ← (parseRequest path request).mapError fun e =>
    "tm-replay: " ++ place ++ ": parse_request: " ++ e
  return { seq, nowUnix, appliedAtUnix, path, req }

/-- The loop of `read_log` over the lines of the file, from line `lineNo`. -/
def readLines (parse : String → Except String Json) (path : String) :
    Nat → List String → Except String (List LogEntry)
  | _, [] => return []
  | lineNo, line :: lines => do
    if line = "" then readLines parse path (lineNo + 1) lines
    else
      let place := path ++ ":" ++ toString lineNo
      let entry ← (parse line).mapError fun e => "tm-replay: " ++ place ++ ": bad JSON: " ++ e
      let e ← readEntry place entry
      let rest ← readLines parse path (lineNo + 1) lines
      return e :: rest

def readLog (parse : String → Except String Json) (path : String) (lines : List String) :
    Except String DecisionLog := do
  return { path, entries := ← readLines parse path 1 lines }

/-- `logs/tm-0.log` is `tm-0`. -/
def replicaIdFromPath (path : String) : String :=
  let base := path.toList.rtakeWhile fun c => c ≠ '/' ∧ c ≠ '\\'
  String.ofList (if '.' ∈ base then (base.rdropWhile (· ≠ '.')).dropLast else base)

/-! ## What is read off a dump -/

/-- `owner_index::by_task`. -/
abbrev OwnerIndex := Std.TreeMap TaskId (String × Int)

def OwnerIndex.add (byTask : OwnerIndex) (t : Json) : Except String OwnerIndex := do
  let id ← t.value Json.getString "id" ""
  let owner ← t.value Json.getString "owner_agent" ""
  let tok ← t.value Json.getInt64 "owner_token" 0
  return if id ≠ "" then byTask.insert id (owner, tok) else byTask

def OwnerIndex.load (state : Json) : Except String OwnerIndex :=
  match state.find? "tasks" with
  | some (.array tasks) => tasks.foldlM OwnerIndex.add ∅
  | _ => .ok ∅

/-- `cur_lock_holder` and `cur_lock_token`. -/
def readLock (state : Json) : Except String (String × Int) :=
  match state.find? "main_lock" with
  | some (.object fields) => do
    let holder ← (Json.object fields).value Json.getString "holder_agent" ""
    let token ← (Json.object fields).value Json.getInt64 "lock_token" 0
    return (holder, token)
  | _ => .ok ("", 0)

/-- The state without the `heartbeat_unix` of its tasks. -/
def hashView (state : Json) : Json :=
  match state.find? "tasks" with
  | some (.array tasks) => state.set "tasks" (.array (tasks.map (·.erase "heartbeat_unix")))
  | _ => state

def hashState (xxh3 : List UInt8 → UInt64) (state : Json) : UInt64 :=
  xxh3 (plainText (hashView state))

/-! ## Replicas -/

/-- One of the databases that lag behind, with the log it reads. -/
structure Replica where
  id : String
  entries : List LogEntry
  db : TaskManagerDb := {}
  nextIdx : Nat := 0

/-- The stamp, or `now_unix` for a log without stamps. -/
def LogEntry.when (e : LogEntry) : Int :=
  if e.appliedAtUnix ≥ 0 then e.appliedAtUnix else e.nowUnix

/-- The loop of `advance_replica_to`, over the entries from `next_idx` on. -/
def advance (t : Int) (db : TaskManagerDb) (nextIdx : Nat) :
    List LogEntry → TaskManagerDb × Nat
  | [] => (db, nextIdx)
  | e :: entries =>
    if e.when > t then (db, nextIdx)
    else advance t (db.processReq e.req e.nowUnix).1 (nextIdx + 1) entries

def Replica.advanceTo (t : Int) (r : Replica) : Replica :=
  let (db, nextIdx) := advance t r.db r.nextIdx (r.entries.drop r.nextIdx)
  { r with db, nextIdx }

/-- `entries[next_idx - 1]`, if `next_idx` is not 0. -/
def Replica.lastApplied (r : Replica) : Option LogEntry :=
  match r.nextIdx with
  | 0 => none
  | n + 1 => r.entries[n]?

def Replica.lastAppliedSeq (r : Replica) : Int :=
  match r.lastApplied with
  | none => 0
  | some e => e.seq

def Replica.lastAppliedAt (r : Replica) : Int :=
  match r.lastApplied with
  | none => -1
  | some e => e.when

/-- The value of one replica in `per_replica_state`. -/
def Replica.toJson (r : Replica) : Json :=
  Json.ofFields
    [("state", dumpState r.db), ("last_applied_seq", .integer r.lastAppliedSeq),
     ("applied_at_unix", .integer r.lastAppliedAt)]

/-- Of two logs with one replica id, the later one is shown. -/
def perReplicaState (replicas : List Replica) : Json :=
  replicas.foldl (fun j r => j.set r.id r.toJson) (.object [])

/-! ## Snapshots and events -/

structure Snapshot where
  seq : Int
  nowUnix : Int
  op : String
  opSummary : String
  affectedTaskId : TaskId
  errcode : Errc
  state : Json
  perReplicaState : Json

def Snapshot.toJson (s : Snapshot) : Json :=
  Json.ofFields
    [("seq", .integer s.seq), ("now_unix", .integer s.nowUnix), ("op", .string s.op),
     ("op_summary", .string s.opSummary), ("affected_task_id", .string s.affectedTaskId),
     ("errcode", .string s.errcode.name), ("state", s.state),
     ("per_replica_state", s.perReplicaState)]

inductive InterestingEvent where
  /-- `lock_release` if there is no holder, `lock_acquire` otherwise -/
  | lock (seq nowUnix : Int) (holder : String) (token : Int)
  | leaseReclaim (seq nowUnix : Int) (taskId : TaskId) (fromAgent toAgent : String)
  | rejected (seq nowUnix : Int) (opSummary : String) (errcode : Errc)

def InterestingEvent.toJson : InterestingEvent → Json
  | .lock seq nowUnix holder token =>
    Json.ofFields
      [("kind", .string (if holder = "" then "lock_release" else "lock_acquire")),
       ("seq", .integer seq), ("now_unix", .integer nowUnix), ("holder", .string holder),
       ("token", .integer token)]
  | .leaseReclaim seq nowUnix taskId fromAgent toAgent =>
    Json.ofFields
      [("kind", .string "lease_reclaim"), ("seq", .integer seq), ("now_unix", .integer nowUnix),
       ("task_id", .string taskId), ("from_agent", .string fromAgent),
       ("to_agent", .string toAgent)]
  | .rejected seq nowUnix opSummary errcode =>
    Json.ofFields
      [("kind", .string "rejected"), ("seq", .integer seq), ("now_unix", .integer nowUnix),
       ("op_summary", .string opSummary), ("errcode", .string errcode.name)]

/-- A task whose owner has changed, neither from nor to nobody. -/
def reclaim (e : LogEntry) (prevOwners : OwnerIndex) (now : TaskId × (String × Int)) :
    Option InterestingEvent :=
  let oldOwner := match prevOwners[now.1]? with
    | none => ""
    | some old => old.1
  if now.2.1 ≠ "" ∧ now.2.1 ≠ oldOwner ∧ oldOwner ≠ "" then
    some (.leaseReclaim e.seq e.nowUnix now.1 oldOwner now.2.1)
  else none

/-! ## main -/

/-- The variables of the loop over the events. -/
structure Replay where
  replicas : List Replica
  leaderSm : TaskManagerDb := {}
  prevOwners : OwnerIndex
  prevLockHolder : String := ""
  prevLockToken : Int := 0
  lastKeptHash : UInt64
  snapshots : List Snapshot
  interesting : List InterestingEvent := []

section

variable (xxh3 : List UInt8 → UInt64)

/-- Before the loop; `log0` is the first log. -/
def Replay.initial (log0 : DecisionLog) (others : List DecisionLog) : Except String Replay := do
  let replicas : List Replica := (log0 :: others).map fun log =>
    { id := replicaIdFromPath log.path, entries := log.entries }
  let initState := dumpState {}
  let prevOwners ← OwnerIndex.load (dumpState {})
  return { replicas, prevOwners, lastKeptHash := hashState xxh3 initState,
           snapshots :=
             [{ seq := 0, nowUnix := 0, op := "", opSummary := "(initial state)",
                affectedTaskId := "", errcode := .ok, state := initState,
                perReplicaState := perReplicaState replicas }] }

/-- The body of the loop. -/
def Replay.step (st : Replay) (e : LogEntry) : Except String Replay := do
  let (leaderSm, resp) := st.leaderSm.processReq e.req e.nowUnix
  let ov ← summarize e.req resp e.path
  let rs := resp.base
  let summary := opSummary ov rs
  let replicas := st.replicas.map (Replica.advanceTo e.nowUnix)
  let leaderState := dumpState leaderSm
  let h := hashState xxh3 leaderState
  let stateChanged := h ≠ st.lastKeptHash
  let rejected := rs.errcode ≠ .ok
  let nowOwners ← OwnerIndex.load leaderState
  let reclaims := nowOwners.toList.filterMap (reclaim e st.prevOwners)
  let (curLockHolder, curLockToken) ← readLock leaderState
  let lockChanged := curLockHolder ≠ st.prevLockHolder ∨ curLockToken ≠ st.prevLockToken
  let interesting := st.interesting
    ++ (if lockChanged then [.lock e.seq e.nowUnix curLockHolder curLockToken] else [])
    ++ reclaims
    ++ (if rejected then [.rejected e.seq e.nowUnix summary rs.errcode] else [])
  let st := { st with replicas, leaderSm, interesting, prevOwners := nowOwners
                      prevLockHolder := curLockHolder, prevLockToken := curLockToken }
  if ¬stateChanged ∧ ¬rejected ∧ ¬(reclaims ≠ [] ∨ lockChanged) then return st
  return { st with
    lastKeptHash := h
    snapshots := st.snapshots ++
      [{ seq := e.seq, nowUnix := e.nowUnix, op := e.path, opSummary := summary,
         affectedTaskId := ov.affectedTaskId, errcode := rs.errcode, state := leaderState,
         perReplicaState := perReplicaState replicas }] }

/-- The loop, up to the event after `events`. -/
def Replay.run (log0 : DecisionLog) (others : List DecisionLog) (events : List LogEntry) :
    Except String Replay := do
  events.foldlM (Replay.step xxh3) (← Replay.initial xxh3 log0 others)

/-- `top`, the value that is written to the output file. -/
def Replay.document (st : Replay) : Json :=
  Json.ofFields
    [("replicas", .array (st.replicas.map fun r => .string r.id)),
     ("snapshots", .array (st.snapshots.map Snapshot.toJson)),
     ("interesting_events", .array (st.interesting.map InterestingEvent.toJson))]

/-- `tm-replay -L log0 -L …`. -/
def replayLogs (log0 : DecisionLog) (others : List DecisionLog) : Except String Json :=
  (Replay.run xxh3 log0 others log0.entries).map Replay.document

end

end Tmgr
