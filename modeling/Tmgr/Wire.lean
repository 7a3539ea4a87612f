import Tmgr.Json

/-!
# The JSON forms of requests and responses

`parse_request`, `to_json_request_body`, `to_json_response` and the encoders
they rest on, from `tm.cc`. A parser that throws is an `Except.error` with the text of the
exception.
-/

namespace Tmgr

/-! ## Enumerations -/

def TaskType.name : TaskType → String
  | .plan => "plan"
  | .implement => "implement"
  | .merge => "merge"

def TaskType.fromJson (j : Json) : Except String TaskType := do
  let s ← j.getString
  if s = "plan" then return .plan
  else if s = "implement" then return .implement
  else if s = "merge" then return .merge
  else throw ("unknown task_type: " ++ s)

def TaskStatus.name : TaskStatus → String
  | .pending => "pending"
  | .inProgress => "in_progress"
  | .done => "done"
  | .failed => "failed"

def TaskStatus.fromJson (j : Json) : Except String TaskStatus := do
  let v ← j.getString
  if v = "pending" then return .pending
  else if v = "in_progress" then return .inProgress
  else if v = "done" then return .done
  else if v = "failed" then return .failed
  else throw ("unknown task_status: " ++ v)

def Errc.name : Errc → String
  | .ok => "ok"
  | .fenced => "fenced"
  | .notFound => "not_found"
  | .notEligible => "not_eligible"
  | .depthExceeded => "depth_exceeded"
  | .busy => "busy"
  | .invalid => "invalid"

/-! ## Specs and summaries -/

def TaskSpec.toJson (s : TaskSpec) : Json :=
  let j := Json.ofFields
    [("type", .string s.type.name), ("title", .string s.title), ("prompt", .string s.prompt),
     ("requires", .array (s.requiresDeps.map .string)), ("depth", .integer s.depth)]
  let j := j.setOption "parent_id" (s.parentId.map .string)
  let j := j.setOption "branch_base" (s.branchBase.map .string)
  j.setOption "implement_branch_sha" (s.implementBranchSha.map .string)

def TaskSpec.fromJson (j : Json) : Except String TaskSpec := do
  let type ← j.value TaskType.fromJson "type" .plan
  let title ← j.value Json.getString "title" ""
  let prompt ← j.value Json.getString "prompt" ""
  let requiresDeps ← j.value Json.getStrings "requires" []
  let depth ← j.value Json.getInt "depth" 0
  let parentId ← j.valueOption Json.getString "parent_id"
  let branchBase ← j.valueOption Json.getString "branch_base"
  let implementBranchSha ← j.valueOption Json.getString "implement_branch_sha"
  return { type, title, prompt, requiresDeps, parentId, branchBase, implementBranchSha, depth }

def TaskSummary.toJson (s : TaskSummary) : Json :=
  (Json.ofFields
    [("id", .string s.id), ("type", .string s.type.name), ("title", .string s.title),
     ("status", .string s.status.name), ("owner_agent", .string s.ownerAgent)]).setOption
    "result_branch" (s.resultBranch.map .string)

/-! ## parse_request -/

def fillBase (j : Json) : Except String RequestBase := do
  let serial ← j.value Json.getUInt64 "serial" 0
  let agentId ← j.value Json.getString "agent_id" ""
  return { serial, agentId }

/-- A missing token is refused, not read as 0. -/
def requireToken (j : Json) (field : String) : Except String FencingToken :=
  match j.find? field with
  | none => .error ("missing required field '" ++ field ++ "'")
  | some v => v.getUInt64

def parseTaskCreate (j : Json) : Except String TaskCreateRequest := do
  let base ← fillBase j
  let some spec := j.find? "spec" | throw "missing 'spec'"
  let spec ← TaskSpec.fromJson spec
  let creatorTask ← j.valueOption Json.getString "creator_task"
  let creatorToken ← j.valueOption Json.getUInt64 "creator_token"
  return { toRequestBase := base, spec, creatorTask, creatorToken }

def parseTaskClaim (j : Json) : Except String TaskClaimRequest := do
  let base ← fillBase j
  let preferType ← j.valueOption TaskType.fromJson "prefer_type"
  return { toRequestBase := base, preferType }

def parseTaskHeartbeat (j : Json) : Except String TaskHeartbeatRequest := do
  let base ← fillBase j
  let id ← j.value Json.getString "id" ""
  let token ← requireToken j "token"
  return { toRequestBase := base, id, token }

def parseTaskComplete (j : Json) : Except String TaskCompleteRequest := do
  let base ← fillBase j
  let id ← j.value Json.getString "id" ""
  let token ← requireToken j "token"
  let resultBranch ← j.valueOption Json.getString "result_branch"
  let resultSummary ← j.value Json.getString "result_summary" ""
  let newChildren ← match j.find? "new_children" with
    | none => pure []
    | some children => children.items.mapM TaskSpec.fromJson
  return { toRequestBase := base, id, token, resultBranch, resultSummary, newChildren }

def parseTaskFail (j : Json) : Except String TaskFailRequest := do
  let base ← fillBase j
  let id ← j.value Json.getString "id" ""
  let token ← requireToken j "token"
  let reason ← j.value Json.getString "reason" ""
  return { toRequestBase := base, id, token, reason }

def parseTaskList (j : Json) : Except String TaskListRequest := do
  let base ← fillBase j
  let filterStatus ← j.valueOption TaskStatus.fromJson "filter_status"
  let onlyMine ← j.value Json.getBool "only_mine" false
  return { toRequestBase := base, filterStatus, onlyMine }

def parseMainLockAcquire (j : Json) : Except String MainLockAcquireRequest := do
  let base ← fillBase j
  let mergeTask ← j.value Json.getString "merge_task" ""
  let mergeToken ← requireToken j "merge_token"
  return { toRequestBase := base, mergeTask, mergeToken }

def parseMainLockRelease (j : Json) : Except String MainLockReleaseRequest := do
  let base ← fillBase j
  let lockToken ← requireToken j "lock_token"
  return { toRequestBase := base, lockToken }

def parseSwarmResume (j : Json) : Except String SwarmResumeRequest := do
  let base ← fillBase j
  return { toRequestBase := base }

def parseRequest (path : String) (j : Json) : Except String Request :=
  if path = "/task_create" then (parseTaskCreate j).map .taskCreate
  else if path = "/task_claim" then (parseTaskClaim j).map .taskClaim
  else if path = "/task_heartbeat" then (parseTaskHeartbeat j).map .taskHeartbeat
  else if path = "/task_complete" then (parseTaskComplete j).map .taskComplete
  else if path = "/task_fail" then (parseTaskFail j).map .taskFail
  else if path = "/task_list" then (parseTaskList j).map .taskList
  else if path = "/main_lock_acquire" then (parseMainLockAcquire j).map .mainLockAcquire
  else if path = "/main_lock_release" then (parseMainLockRelease j).map .mainLockRelease
  else if path = "/swarm_resume" then (parseSwarmResume j).map .swarmResume
  else .error ("unknown path: " ++ path)

/-! ## to_json_request_body -/

def putBase (j : Json) (b : RequestBase) : Json :=
  (j.set "agent_id" (.string b.agentId)).set "serial" (.unsigned b.serial)

def toJsonRequestBody : Request → Json
  | .taskCreate v =>
    let j := putBase (.object []) v.toRequestBase
    let j := j.set "spec" v.spec.toJson
    let j := j.setOption "creator_task" (v.creatorTask.map .string)
    j.setOption "creator_token" (v.creatorToken.map .unsigned)
  | .taskClaim v =>
    let j := putBase (.object []) v.toRequestBase
    j.setOption "prefer_type" (v.preferType.map fun t => .string t.name)
  | .taskHeartbeat v =>
    let j := putBase (.object []) v.toRequestBase
    (j.set "id" (.string v.id)).set "token" (.unsigned v.token)
  | .taskComplete v =>
    let j := putBase (.object []) v.toRequestBase
    let j := (j.set "id" (.string v.id)).set "token" (.unsigned v.token)
    let j := j.set "result_summary" (.string v.resultSummary)
    let j := j.setOption "result_branch" (v.resultBranch.map .string)
    if !v.newChildren.isEmpty then
      j.set "new_children" (.array (v.newChildren.map TaskSpec.toJson))
    else j
  | .taskFail v =>
    let j := putBase (.object []) v.toRequestBase
    ((j.set "id" (.string v.id)).set "token" (.unsigned v.token)).set "reason" (.string v.reason)
  | .taskList v =>
    let j := putBase (.object []) v.toRequestBase
    let j := j.setOption "filter_status" (v.filterStatus.map fun s => .string s.name)
    if v.onlyMine then j.set "only_mine" (.boolean true) else j
  | .mainLockAcquire v =>
    let j := putBase (.object []) v.toRequestBase
    (j.set "merge_task" (.string v.mergeTask)).set "merge_token" (.unsigned v.mergeToken)
  | .mainLockRelease v =>
    let j := putBase (.object []) v.toRequestBase
    j.set "lock_token" (.unsigned v.lockToken)
  | .swarmResume v => putBase (.object []) v.toRequestBase

/-! ## to_json_response -/

def envelope (b : ResponseBase) : Json :=
  let j := Json.ofFields [("ok", .boolean (b.errcode == .ok)), ("serial", .unsigned b.serial)]
  if b.errcode ≠ .ok then
    (j.set "error" (.string b.errcode.name)).set "errmsg" (.string b.errmsg)
  else j

def toJsonResponse : Response → Json
  | .taskCreate v => (envelope v.toResponseBase).set "task_id" (.string v.id)
  | .taskClaim v =>
    let j := (envelope v.toResponseBase).set "none" (.boolean v.none)
    let j :=
      if !v.none then
        ((j.set "task_id" (.string v.id)).set "spec" v.spec.toJson).set "fencing_token"
          (.unsigned v.token)
      else j
    if v.halted then
      ((j.set "halted" (.boolean true)).setOption "halted_by" (v.haltedBy.map .string)).setOption
        "halted_reason" (v.haltedReason.map .string)
    else j
  | .taskHeartbeat v => envelope v.toResponseBase
  | .taskComplete v =>
    ((envelope v.toResponseBase).setOption "merge_task_id" (v.mergeTaskId.map .string)).set
      "child_ids" (.array (v.childIds.map .string))
  | .taskFail v => envelope v.toResponseBase
  | .taskList v => (envelope v.toResponseBase).set "tasks" (.array (v.tasks.map TaskSummary.toJson))
  | .mainLockAcquire v =>
    let j := envelope v.toResponseBase
    if v.errcode = .ok then j.set "lock_token" (.unsigned v.lockToken) else j
  | .mainLockRelease v => envelope v.toResponseBase
  | .swarmResume v => (envelope v.toResponseBase).set "was_halted" (.boolean v.wasHalted)

end Tmgr
