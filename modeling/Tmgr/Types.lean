import Mathlib.Data.Finmap

/-!
# Task manager types

Specs, records and the request and response variants of `tm.hh`. Tokens,
serials and sequence numbers are `uint64_t` in the source; every statement
of this development is about counters that stay below `2^64`, where they
are natural numbers. Wall-clock seconds are `Int`.
-/

namespace Tmgr

inductive TaskType where
  | plan
  | implement
  | merge
  deriving DecidableEq, Repr

inductive TaskStatus where
  | pending
  | inProgress
  | done
  | failed
  deriving DecidableEq, Repr

/-- 0 is "unset"; a minted token is never 0. -/
abbrev FencingToken := Nat

abbrev TaskId := String

structure TaskSpec where
  type : TaskType := .plan
  title : String := ""
  prompt : String := ""
  requiresDeps : List TaskId := []
  parentId : Option TaskId := none
  branchBase : Option String := none
  implementBranchSha : Option String := none
  depth : Int := 0
  deriving DecidableEq, Repr

structure TaskRecord where
  id : TaskId := ""
  spec : TaskSpec := {}
  status : TaskStatus := .pending
  ownerAgent : String := ""
  ownerToken : FencingToken := 0
  heartbeatUnix : Int := 0
  resultBranch : Option String := none
  resultSummary : Option String := none
  failReason : Option String := none
  deriving DecidableEq, Repr

structure MainLockState where
  holderAgent : String := ""
  holderMergeTask : TaskId := ""
  lockToken : FencingToken := 0
  deriving DecidableEq, Repr

/-! ## Requests -/

structure RequestBase where
  serial : Nat := 0
  agentId : String := ""
  deriving DecidableEq, Repr

/-- The error code every response carries. -/
inductive Errc where
  | ok
  | fenced
  | notFound
  | notEligible
  | depthExceeded
  | busy
  | invalid
  deriving DecidableEq, Repr

structure ResponseBase where
  serial : Nat := 0
  errcode : Errc := .ok
  errmsg : String := ""
  deriving DecidableEq, Repr

structure TaskCreateRequest extends RequestBase where
  spec : TaskSpec := {}
  creatorTask : Option TaskId := none
  creatorToken : Option FencingToken := none
  deriving DecidableEq, Repr

structure TaskClaimRequest extends RequestBase where
  preferType : Option TaskType := none
  deriving DecidableEq, Repr

structure TaskHeartbeatRequest extends RequestBase where
  id : TaskId := ""
  token : FencingToken := 0
  deriving DecidableEq, Repr

structure TaskCompleteRequest extends RequestBase where
  id : TaskId := ""
  token : FencingToken := 0
  resultBranch : Option String := none
  resultSummary : String := ""
  newChildren : List TaskSpec := []
  deriving DecidableEq, Repr

structure TaskFailRequest extends RequestBase where
  id : TaskId := ""
  token : FencingToken := 0
  reason : String := ""
  deriving DecidableEq, Repr

structure TaskListRequest extends RequestBase where
  filterStatus : Option TaskStatus := none
  onlyMine : Bool := false
  deriving DecidableEq, Repr

structure MainLockAcquireRequest extends RequestBase where
  mergeTask : TaskId := ""
  mergeToken : FencingToken := 0
  deriving DecidableEq, Repr

structure MainLockReleaseRequest extends RequestBase where
  lockToken : FencingToken := 0
  deriving DecidableEq, Repr

structure SwarmResumeRequest extends RequestBase
  deriving DecidableEq, Repr

inductive Request where
  | taskCreate (r : TaskCreateRequest)
  | taskClaim (r : TaskClaimRequest)
  | taskHeartbeat (r : TaskHeartbeatRequest)
  | taskComplete (r : TaskCompleteRequest)
  | taskFail (r : TaskFailRequest)
  | taskList (r : TaskListRequest)
  | mainLockAcquire (r : MainLockAcquireRequest)
  | mainLockRelease (r : MainLockReleaseRequest)
  | swarmResume (r : SwarmResumeRequest)
  deriving DecidableEq, Repr

def Request.base : Request → RequestBase
  | .taskCreate r => r.toRequestBase
  | .taskClaim r => r.toRequestBase
  | .taskHeartbeat r => r.toRequestBase
  | .taskComplete r => r.toRequestBase
  | .taskFail r => r.toRequestBase
  | .taskList r => r.toRequestBase
  | .mainLockAcquire r => r.toRequestBase
  | .mainLockRelease r => r.toRequestBase
  | .swarmResume r => r.toRequestBase

/-- The URL path of a request variant. -/
def requestPath : Request → String
  | .taskCreate _ => "/task_create"
  | .taskClaim _ => "/task_claim"
  | .taskHeartbeat _ => "/task_heartbeat"
  | .taskComplete _ => "/task_complete"
  | .taskFail _ => "/task_fail"
  | .taskList _ => "/task_list"
  | .mainLockAcquire _ => "/main_lock_acquire"
  | .mainLockRelease _ => "/main_lock_release"
  | .swarmResume _ => "/swarm_resume"

theorem requestPath_eq_taskList {r : Request} :
    requestPath r = "/task_list" ↔ ∃ l, r = .taskList l := by
  cases r <;> simp [requestPath]

/-! ## Responses -/

structure TaskCreateResponse extends ResponseBase where
  id : TaskId := ""
  deriving DecidableEq, Repr

structure TaskClaimResponse extends ResponseBase where
  none : Bool := false
  id : TaskId := ""
  spec : TaskSpec := {}
  token : FencingToken := 0
  halted : Bool := false
  haltedBy : Option TaskId := .none
  haltedReason : Option String := .none
  deriving DecidableEq, Repr

structure TaskHeartbeatResponse extends ResponseBase
  deriving DecidableEq, Repr

structure TaskCompleteResponse extends ResponseBase where
  mergeTaskId : Option TaskId := none
  childIds : List TaskId := []
  deriving DecidableEq, Repr

structure TaskFailResponse extends ResponseBase
  deriving DecidableEq, Repr

structure TaskSummary where
  id : TaskId
  type : TaskType
  title : String
  status : TaskStatus
  ownerAgent : String
  resultBranch : Option String
  deriving DecidableEq, Repr

structure TaskListResponse extends ResponseBase where
  tasks : List TaskSummary := []
  deriving DecidableEq, Repr

structure MainLockAcquireResponse extends ResponseBase where
  lockToken : FencingToken := 0
  deriving DecidableEq, Repr

structure MainLockReleaseResponse extends ResponseBase
  deriving DecidableEq, Repr

structure SwarmResumeResponse extends ResponseBase where
  wasHalted : Bool := false
  deriving DecidableEq, Repr

inductive Response where
  | taskCreate (r : TaskCreateResponse)
  | taskClaim (r : TaskClaimResponse)
  | taskHeartbeat (r : TaskHeartbeatResponse)
  | taskComplete (r : TaskCompleteResponse)
  | taskFail (r : TaskFailResponse)
  | taskList (r : TaskListResponse)
  | mainLockAcquire (r : MainLockAcquireResponse)
  | mainLockRelease (r : MainLockReleaseResponse)
  | swarmResume (r : SwarmResumeResponse)
  deriving DecidableEq, Repr

def Response.base : Response → ResponseBase
  | .taskCreate r => r.toResponseBase
  | .taskClaim r => r.toResponseBase
  | .taskHeartbeat r => r.toResponseBase
  | .taskComplete r => r.toResponseBase
  | .taskFail r => r.toResponseBase
  | .taskList r => r.toResponseBase
  | .mainLockAcquire r => r.toResponseBase
  | .mainLockRelease r => r.toResponseBase
  | .swarmResume r => r.toResponseBase

def Response.errcode (r : Response) : Errc := r.base.errcode

/-- `tmgr::response{}`: the variant's first alternative, default-built. -/
instance : Inhabited Response := ⟨.taskCreate {}⟩

def DEPTH_CAP : Int := 5

def LEASE_WINDOW_SECONDS : Int := 45

end Tmgr
