import Tmgr.Types

/-!
# The typed state machine

`task_manager_db::process_req(request, now_unix)` and its nine handlers.
A handler is a function from the state to the new state and the response;
an early `return` of the source is a branch that hands the state back
unchanged. `tasks_` is a finite map (`Finmap`): the handlers look records
up and rewrite them by key, they never iterate over the map.
-/

namespace Tmgr

structure TaskManagerDb where
  tasks : Finmap (fun _ : TaskId => TaskRecord) := ∅
  taskOrder : List TaskId := []
  mainLock : MainLockState := {}
  nextToken : FencingToken := 1
  nextTaskSeq : Nat := 1
  swarmHalted : Bool := false
  haltedBy : Option TaskId := none
  haltedReason : Option String := none
  deriving DecidableEq

namespace TaskManagerDb

/-! ## Helpers -/

/-- `std::format("t/{:04}", seq)`: zero-padded to at least four digits. -/
def formatTaskId (seq : Nat) : TaskId :=
  "t/" ++ String.ofList
    (List.replicate (4 - (Nat.toDigits 10 seq).length) '0' ++ Nat.toDigits 10 seq)

/-- `tasks_.find(id)`, and `tasks_.at(id)` where the source knows the key
is there. -/
def find (db : TaskManagerDb) (id : TaskId) : Option TaskRecord :=
  db.tasks.lookup id

/-- Write through a reference into the map. -/
def setTask (db : TaskManagerDb) (id : TaskId) (t : TaskRecord) : TaskManagerDb :=
  { db with tasks := db.tasks.insert id t }

/-- `tasks_.emplace(id, rec)`: inserts only if the key is new. -/
def emplace (db : TaskManagerDb) (id : TaskId) (t : TaskRecord) : TaskManagerDb :=
  if id ∈ db.tasks then db else db.setTask id t

def leaseExpired (t : TaskRecord) (now : Int) : Bool :=
  now - t.heartbeatUnix > LEASE_WINDOW_SECONDS

def requiresSatisfied (db : TaskManagerDb) (t : TaskRecord) : Bool :=
  t.spec.requiresDeps.all fun dep =>
    match db.find dep with
    | none => false
    | some d => d.status == .done

/-- `mint_task_id`, `emplace` and `task_order_.push_back`, as every one of
the three creation paths does them. -/
def addTask (db : TaskManagerDb) (spec : TaskSpec) : TaskManagerDb × TaskId :=
  let id := formatTaskId db.nextTaskSeq
  let db := { db with nextTaskSeq := db.nextTaskSeq + 1 }
  let db := db.emplace id { id, spec, status := .pending }
  ({ db with taskOrder := db.taskOrder ++ [id] }, id)

/-! ## task_create -/

/-- The checks on the creator: the depth of the new task, or the error. -/
def createDepth (db : TaskManagerDb) (r : TaskCreateRequest) :
    Except ResponseBase Int :=
  match r.creatorTask with
  | none => .ok 0
  | some creator =>
    match r.creatorToken with
    | none => .error ⟨r.serial, .invalid, "creator_token required"⟩
    | some token =>
      match db.find creator with
      | none => .error ⟨r.serial, .notFound, "creator_task not found"⟩
      | some parent =>
        if parent.status ≠ .inProgress ∨ parent.ownerToken ≠ token then
          .error ⟨r.serial, .fenced, "creator_token does not match"⟩
        else
          let depth := parent.spec.depth + 1
          if depth > DEPTH_CAP then
            .error ⟨r.serial, .depthExceeded,
              "depth " ++ toString depth ++ " > cap " ++ toString DEPTH_CAP⟩
          else .ok depth

def handleTaskCreate (db : TaskManagerDb) (r : TaskCreateRequest) :
    TaskManagerDb × TaskCreateResponse :=
  match db.createDepth r with
  | .error e => (db, { toResponseBase := e })
  | .ok depth =>
    match r.spec.requiresDeps.find? (fun dep => dep ∉ db.tasks) with
    | some dep =>
      (db, { serial := r.serial, errcode := .notFound,
             errmsg := "requires references unknown task " ++ dep })
    | none =>
      let spec := { r.spec with
        depth, parentId := r.creatorTask <|> r.spec.parentId }
      let (db, id) := db.addTask spec
      (db, { serial := r.serial, id })

/-! ## task_claim -/

/-- Eligibility: requires satisfied, and pending or in progress with an
expired lease. -/
def tryPick (db : TaskManagerDb) (now : Int) (t : TaskRecord) : Bool :=
  db.requiresSatisfied t
    && (t.status == .pending || (t.status == .inProgress && leaseExpired t now))

/-- One pass over `task_order_`: the first task that is not skipped and can
be picked. -/
def scan (db : TaskManagerDb) (r : TaskClaimRequest) (now : Int)
    (onlyMatching : Bool) : Option (TaskId × TaskRecord) :=
  db.taskOrder.findSome? fun tid =>
    match db.find tid with
    | none => none
    | some t =>
      if onlyMatching ∧ r.preferType.any (· ≠ t.spec.type) then none
      else if db.tryPick now t then some (tid, t)
      else none

/-- Two passes if `prefer_type` is set: first only matching, then all. -/
def pick (db : TaskManagerDb) (r : TaskClaimRequest) (now : Int) :
    Option (TaskId × TaskRecord) :=
  if r.preferType.isSome then
    (db.scan r now true).or (db.scan r now false)
  else db.scan r now false

/-- The record after the claim; a lapsed owner is cleared on the way. -/
def claimRecord (db : TaskManagerDb) (r : TaskClaimRequest) (now : Int)
    (t : TaskRecord) : TaskRecord :=
  { t with status := .inProgress, ownerAgent := r.agentId,
           ownerToken := db.nextToken, heartbeatUnix := now }

def handleTaskClaim (db : TaskManagerDb) (r : TaskClaimRequest) (now : Int) :
    TaskManagerDb × TaskClaimResponse :=
  if db.swarmHalted then
    (db, { serial := r.serial, none := true, halted := true,
           haltedBy := db.haltedBy, haltedReason := db.haltedReason })
  else
    match db.pick r now with
    | some (tid, t) =>
      let t' := db.claimRecord r now t
      ({ db.setTask tid t' with nextToken := db.nextToken + 1 },
       { serial := r.serial, id := t'.id, spec := t'.spec, token := t'.ownerToken })
    | none => (db, { serial := r.serial, none := true })

/-! ## task_heartbeat, task_complete, task_fail -/

/-- The ownership test the three of them share. -/
def ownedTask (db : TaskManagerDb) (serial : Nat) (id : TaskId)
    (token : FencingToken) : Except ResponseBase TaskRecord :=
  match db.find id with
  | none => .error ⟨serial, .notFound, "no such task"⟩
  | some t =>
    if t.ownerToken = 0 ∨ t.ownerToken ≠ token then
      .error ⟨serial, .fenced, "fencing token mismatch"⟩
    else .ok t

def handleTaskHeartbeat (db : TaskManagerDb) (r : TaskHeartbeatRequest)
    (now : Int) : TaskManagerDb × TaskHeartbeatResponse :=
  match db.ownedTask r.serial r.id r.token with
  | .error e => (db, ⟨e⟩)
  | .ok t => (db.setTask r.id { t with heartbeatUnix := now }, ⟨{ serial := r.serial }⟩)

/-- The loop that appends `new_children`. -/
def addChildren (db : TaskManagerDb) (parent : TaskId) (childDepth : Int) :
    List TaskSpec → TaskManagerDb × List TaskId
  | [] => (db, [])
  | spec :: specs =>
    let (db, cid) := db.addTask { spec with depth := childDepth, parentId := some parent }
    let (db, cids) := addChildren db parent childDepth specs
    (db, cid :: cids)

/-- The merge task synthesized for an implement task that left a branch. -/
def mergeSpec (t : TaskRecord) (branch : String) : TaskSpec :=
  { type := .merge, title := "merge " ++ t.id, requiresDeps := [t.id],
    branchBase := some "main", implementBranchSha := some branch,
    parentId := some t.id, depth := t.spec.depth }

def addMerge (db : TaskManagerDb) (t : TaskRecord) (resultBranch : Option String) :
    TaskManagerDb × Option TaskId :=
  match resultBranch with
  | none => (db, none)
  | some branch =>
    if t.spec.type = .implement ∧ branch ≠ "" then
      let (db, mid) := db.addTask (mergeSpec t branch)
      (db, some mid)
    else (db, none)

def completeRecord (r : TaskCompleteRequest) (t : TaskRecord) : TaskRecord :=
  { t with status := .done, ownerAgent := "", ownerToken := 0,
           resultBranch := r.resultBranch, resultSummary := some r.resultSummary }

def handleTaskComplete (db : TaskManagerDb) (r : TaskCompleteRequest) :
    TaskManagerDb × TaskCompleteResponse :=
  match db.ownedTask r.serial r.id r.token with
  | .error e => (db, { toResponseBase := e })
  | .ok t =>
    let childDepth := t.spec.depth + 1
    if childDepth > DEPTH_CAP ∧ r.newChildren ≠ [] then
      (db, { serial := r.serial, errcode := .depthExceeded,
             errmsg := "child depth " ++ toString childDepth ++ " > cap" })
    else
      let (db, childIds) := db.addChildren t.id childDepth r.newChildren
      let (db, mergeTaskId) := db.addMerge t r.resultBranch
      (db.setTask r.id (completeRecord r t),
       { serial := r.serial, mergeTaskId, childIds })

def failRecord (r : TaskFailRequest) (t : TaskRecord) : TaskRecord :=
  { t with status := .failed, failReason := some r.reason, ownerAgent := "",
           ownerToken := 0 }

def handleTaskFail (db : TaskManagerDb) (r : TaskFailRequest) :
    TaskManagerDb × TaskFailResponse :=
  match db.ownedTask r.serial r.id r.token with
  | .error e => (db, ⟨e⟩)
  | .ok t =>
    ({ db.setTask r.id (failRecord r t) with
       swarmHalted := true, haltedBy := some t.id, haltedReason := some r.reason },
     ⟨{ serial := r.serial }⟩)

/-! ## task_list, the main lock, swarm_resume -/

def summarize (t : TaskRecord) : TaskSummary :=
  { id := t.id, type := t.spec.type, title := t.spec.title, status := t.status,
    ownerAgent := t.ownerAgent, resultBranch := t.resultBranch }

def handleTaskList (db : TaskManagerDb) (r : TaskListRequest) :
    TaskManagerDb × TaskListResponse :=
  (db, { serial := r.serial,
         tasks := db.taskOrder.filterMap fun tid =>
           match db.find tid with
           | none => none
           | some t =>
             if r.filterStatus.any (· ≠ t.status) then none
             else if r.onlyMine ∧ t.ownerAgent ≠ r.agentId then none
             else some (summarize t) })

/-- The lock is held and its holder still owns a live claim, as
`main_lock_acquire` judges it: by status, lease and *agent name*. -/
def lockHolderLive (db : TaskManagerDb) (now : Int) : Bool :=
  match db.find db.mainLock.holderMergeTask with
  | none => false
  | some h =>
    h.status == .inProgress && !leaseExpired h now
      && h.ownerAgent == db.mainLock.holderAgent

def handleMainLockAcquire (db : TaskManagerDb) (r : MainLockAcquireRequest)
    (now : Int) : TaskManagerDb × MainLockAcquireResponse :=
  match db.find r.mergeTask with
  | none =>
    (db, { serial := r.serial, errcode := .notFound, errmsg := "no such merge task" })
  | some mt =>
    if mt.status ≠ .inProgress ∨ mt.ownerToken ≠ r.mergeToken then
      (db, { serial := r.serial, errcode := .fenced, errmsg := "merge task not owned" })
    else if db.mainLock.lockToken ≠ 0 ∧ db.lockHolderLive now then
      (db, { serial := r.serial, errcode := .busy, errmsg := "main lock held" })
    else
      ({ db with
         mainLock := ⟨r.agentId, r.mergeTask, db.nextToken⟩
         nextToken := db.nextToken + 1 },
       { serial := r.serial, lockToken := db.nextToken })

def handleMainLockRelease (db : TaskManagerDb) (r : MainLockReleaseRequest) :
    TaskManagerDb × MainLockReleaseResponse :=
  if db.mainLock.lockToken = 0 ∨ db.mainLock.lockToken ≠ r.lockToken then
    (db, ⟨⟨r.serial, .fenced, "lock token mismatch"⟩⟩)
  else ({ db with mainLock := {} }, ⟨{ serial := r.serial }⟩)

def handleSwarmResume (db : TaskManagerDb) (r : SwarmResumeRequest) :
    TaskManagerDb × SwarmResumeResponse :=
  ({ db with swarmHalted := false, haltedBy := none, haltedReason := none },
   { serial := r.serial, wasHalted := db.swarmHalted })

/-! ## process_req -/

def processReq (db : TaskManagerDb) (req : Request) (now : Int) :
    TaskManagerDb × Response :=
  match req with
  | .taskCreate r => (db.handleTaskCreate r).map id .taskCreate
  | .taskClaim r => (db.handleTaskClaim r now).map id .taskClaim
  | .taskHeartbeat r => (db.handleTaskHeartbeat r now).map id .taskHeartbeat
  | .taskComplete r => (db.handleTaskComplete r).map id .taskComplete
  | .taskFail r => (db.handleTaskFail r).map id .taskFail
  | .taskList r => (db.handleTaskList r).map id .taskList
  | .mainLockAcquire r => (db.handleMainLockAcquire r now).map id .mainLockAcquire
  | .mainLockRelease r => (db.handleMainLockRelease r).map id .mainLockRelease
  | .swarmResume r => (db.handleSwarmResume r).map id .swarmResume

/-- A fresh `task_manager_db` fed a list of requests with their clocks. -/
def replay (calls : List (Request × Int)) : TaskManagerDb :=
  calls.foldl (fun db c => (db.processReq c.1 c.2).1) {}

theorem replay_snoc (calls : List (Request × Int)) (req : Request) (now : Int) :
    replay (calls ++ [(req, now)]) = ((replay calls).processReq req now).1 := by
  simp [replay]

end TaskManagerDb

end Tmgr
