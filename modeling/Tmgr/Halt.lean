import Tmgr.Finish
import Tmgr.Lib.Run

/-!
# The swarm halt

An accepted `task_fail` halts the swarm: claims are refused until a
`swarm_resume`, and the halt carries its cause, the last task failed. The
flag stops new work and nothing else. No handler but those of `task_claim`
and `swarm_resume` reads it, so a state with the flag and the same state
without it answer every other request alike and stay alike in their tasks,
order, lock and counters.
-/

namespace Tmgr

namespace TaskManagerDb

/-- `swarm_halted_`, `halted_by_` and `halted_reason_`. -/
structure Halt where
  halted : Bool := false
  haltedBy : Option TaskId := none
  haltedReason : Option String := none
  deriving DecidableEq, Repr

def halt (db : TaskManagerDb) : Halt :=
  ⟨db.swarmHalted, db.haltedBy, db.haltedReason⟩

/-- The same state with another halt flag and cause. -/
def withHalt (db : TaskManagerDb) (h : Halt) : TaskManagerDb :=
  { db with swarmHalted := h.halted, haltedBy := h.haltedBy, haltedReason := h.haltedReason }

/-- The two states agree on everything but the halt flag and its cause. -/
structure SameWork (db db' : TaskManagerDb) : Prop where
  tasks : db.tasks = db'.tasks
  order : db.taskOrder = db'.taskOrder
  lock : db.mainLock = db'.mainLock
  nextToken : db.nextToken = db'.nextToken
  nextTaskSeq : db.nextTaskSeq = db'.nextTaskSeq

theorem sameWork_withHalt (db : TaskManagerDb) (h : Halt) : SameWork (db.withHalt h) db :=
  ⟨rfl, rfl, rfl, rfl, rfl⟩

/-! ## The helpers do not read it -/

@[simp] theorem find_withHalt (db : TaskManagerDb) (h : Halt) (id : TaskId) :
    (db.withHalt h).find id = db.find id := rfl

@[simp] theorem ownedTask_withHalt (db : TaskManagerDb) (h : Halt) (serial : Nat)
    (id : TaskId) (token : FencingToken) :
    (db.withHalt h).ownedTask serial id token = db.ownedTask serial id token := rfl

@[simp] theorem createDepth_withHalt (db : TaskManagerDb) (h : Halt)
    (r : TaskCreateRequest) : (db.withHalt h).createDepth r = db.createDepth r := rfl

@[simp] theorem lockHolderLive_withHalt (db : TaskManagerDb) (h : Halt) (now : Int) :
    (db.withHalt h).lockHolderLive now = db.lockHolderLive now := rfl

@[simp] theorem setTask_withHalt (db : TaskManagerDb) (h : Halt) (id : TaskId)
    (t : TaskRecord) : (db.withHalt h).setTask id t = (db.setTask id t).withHalt h := rfl

theorem addTask_withHalt (db : TaskManagerDb) (h : Halt) (spec : TaskSpec) :
    (db.withHalt h).addTask spec = ((db.addTask spec).1.withHalt h, (db.addTask spec).2) := by
  by_cases hm : formatTaskId db.nextTaskSeq ∈ db.tasks
  · simp [addTask, emplace, withHalt, hm]
  · simp [addTask, emplace, withHalt, setTask, hm]

theorem addChildren_withHalt (parent : TaskId) (d : Int) (h : Halt) (specs : List TaskSpec)
    (db : TaskManagerDb) :
    (db.withHalt h).addChildren parent d specs
      = ((db.addChildren parent d specs).1.withHalt h, (db.addChildren parent d specs).2) := by
  induction specs generalizing db with
  | nil => rfl
  | cons spec specs ih =>
      simp only [addChildren, addTask_withHalt, ih]

theorem addMerge_withHalt (db : TaskManagerDb) (h : Halt) (t : TaskRecord)
    (branch : Option String) :
    (db.withHalt h).addMerge t branch
      = ((db.addMerge t branch).1.withHalt h, (db.addMerge t branch).2) := by
  cases branch with
  | none => rfl
  | some b =>
      by_cases hcond : t.spec.type = .implement ∧ b ≠ ""
      · simp only [addMerge, if_pos hcond, addTask_withHalt]
      · simp only [addMerge, if_neg hcond]

/-! ## The handlers do not read it -/

theorem handleTaskCreate_withHalt (db : TaskManagerDb) (h : Halt) (r : TaskCreateRequest) :
    (db.withHalt h).handleTaskCreate r
      = ((db.handleTaskCreate r).1.withHalt h, (db.handleTaskCreate r).2) := by
  unfold handleTaskCreate
  rw [createDepth_withHalt]
  cases db.createDepth r with
  | error e => rfl
  | ok d =>
      simp only [show (db.withHalt h).tasks = db.tasks from rfl]
      cases r.spec.requiresDeps.find? (fun dep => dep ∉ db.tasks) with
      | some dep => rfl
      | none => simp only [addTask_withHalt]

theorem handleTaskHeartbeat_withHalt (db : TaskManagerDb) (h : Halt)
    (r : TaskHeartbeatRequest) (now : Int) :
    (db.withHalt h).handleTaskHeartbeat r now
      = ((db.handleTaskHeartbeat r now).1.withHalt h, (db.handleTaskHeartbeat r now).2) := by
  unfold handleTaskHeartbeat
  rw [ownedTask_withHalt]
  cases db.ownedTask r.serial r.id r.token with
  | error e => rfl
  | ok t => rfl

theorem handleTaskComplete_withHalt (db : TaskManagerDb) (h : Halt)
    (r : TaskCompleteRequest) :
    (db.withHalt h).handleTaskComplete r
      = ((db.handleTaskComplete r).1.withHalt h, (db.handleTaskComplete r).2) := by
  unfold handleTaskComplete
  rw [ownedTask_withHalt]
  cases db.ownedTask r.serial r.id r.token with
  | error e => rfl
  | ok t =>
      by_cases hcut : t.spec.depth + 1 > DEPTH_CAP ∧ r.newChildren ≠ []
      · simp only [if_pos hcut]
      · simp only [if_neg hcut, addChildren_withHalt, addMerge_withHalt, setTask_withHalt]

theorem handleMainLockAcquire_withHalt (db : TaskManagerDb) (h : Halt)
    (r : MainLockAcquireRequest) (now : Int) :
    (db.withHalt h).handleMainLockAcquire r now
      = ((db.handleMainLockAcquire r now).1.withHalt h,
         (db.handleMainLockAcquire r now).2) := by
  unfold handleMainLockAcquire
  rw [find_withHalt, lockHolderLive_withHalt]
  cases db.find r.mergeTask with
  | none => rfl
  | some mt =>
      by_cases hown : mt.status ≠ .inProgress ∨ mt.ownerToken ≠ r.mergeToken
      · simp only [if_pos hown]
      · by_cases hheld : db.mainLock.lockToken ≠ 0 ∧ db.lockHolderLive now = true
        · simp only [if_neg hown, if_pos hheld, show (db.withHalt h).mainLock = db.mainLock
            from rfl]
        · simp only [if_neg hown, if_neg hheld, show (db.withHalt h).mainLock = db.mainLock
            from rfl]
          rfl

theorem handleMainLockRelease_withHalt (db : TaskManagerDb) (h : Halt)
    (r : MainLockReleaseRequest) :
    (db.withHalt h).handleMainLockRelease r
      = ((db.handleMainLockRelease r).1.withHalt h, (db.handleMainLockRelease r).2) := by
  unfold handleMainLockRelease
  rw [show (db.withHalt h).mainLock = db.mainLock from rfl]
  by_cases hbad : db.mainLock.lockToken = 0 ∨ db.mainLock.lockToken ≠ r.lockToken
  · simp only [if_pos hbad]
  · simp only [if_neg hbad]
    rfl

/-- A failure sets the flag, whatever it was before. -/
theorem handleTaskFail_withHalt (db : TaskManagerDb) (h : Halt) (r : TaskFailRequest) :
    ((db.withHalt h).handleTaskFail r).2 = (db.handleTaskFail r).2
      ∧ SameWork ((db.withHalt h).handleTaskFail r).1 (db.handleTaskFail r).1 := by
  unfold handleTaskFail
  rw [ownedTask_withHalt]
  cases db.ownedTask r.serial r.id r.token with
  | error e => exact ⟨rfl, sameWork_withHalt db h⟩
  | ok t => exact ⟨rfl, rfl, rfl, rfl, rfl, rfl⟩

/-- Only `task_claim` and `swarm_resume` read the flag. -/
theorem processReq_withHalt (db : TaskManagerDb) (h : Halt) {req : Request} (now : Int)
    (hclaim : ∀ r, req ≠ .taskClaim r) (hresume : ∀ r, req ≠ .swarmResume r) :
    ((db.withHalt h).processReq req now).2 = (db.processReq req now).2
      ∧ SameWork ((db.withHalt h).processReq req now).1 (db.processReq req now).1 := by
  cases req with
  | taskCreate r =>
      simp only [processReq, handleTaskCreate_withHalt]
      exact ⟨rfl, sameWork_withHalt _ h⟩
  | taskClaim r => exact absurd rfl (hclaim r)
  | taskHeartbeat r =>
      simp only [processReq, handleTaskHeartbeat_withHalt]
      exact ⟨rfl, sameWork_withHalt _ h⟩
  | taskComplete r =>
      simp only [processReq, handleTaskComplete_withHalt]
      exact ⟨rfl, sameWork_withHalt _ h⟩
  | taskFail r =>
      obtain ⟨hresp, hwork⟩ := handleTaskFail_withHalt db h r
      exact ⟨congrArg Response.taskFail hresp, hwork⟩
  | taskList r => exact ⟨rfl, sameWork_withHalt db h⟩
  | mainLockAcquire r =>
      simp only [processReq, handleMainLockAcquire_withHalt]
      exact ⟨rfl, sameWork_withHalt _ h⟩
  | mainLockRelease r =>
      simp only [processReq, handleMainLockRelease_withHalt]
      exact ⟨rfl, sameWork_withHalt _ h⟩
  | swarmResume r => exact absurd rfl (hresume r)

/-! ## Who sets it -/

/-- A handler that does not read the flag does not write it. -/
theorem halt_of_withHalt {α : Type} {f : TaskManagerDb → TaskManagerDb × α}
    {db : TaskManagerDb} (hf : ∀ h, f (db.withHalt h) = ((f db).1.withHalt h, (f db).2)) :
    (f db).1.halt = db.halt :=
  congrArg (fun p => p.1.halt) (hf db.halt)

/-- The call `c` after `past` is the failure `r`, and is accepted. -/
def fails (past : List Call) (c : Call) (r : TaskFailRequest) : Prop :=
  c.1 = .taskFail r ∧ (response past c).errcode = .ok

theorem processReq_halt {past : List Call} {c : Call} (hresume : ∀ q, c.1 ≠ .swarmResume q)
    (hfail : ∀ q, ¬fails past c q) : (replay (past ++ [c])).halt = (replay past).halt := by
  obtain ⟨req, now⟩ := c
  rw [replay_snoc]
  cases req with
  | taskCreate r =>
      exact halt_of_withHalt (f := fun db => db.handleTaskCreate r)
        fun h => handleTaskCreate_withHalt _ h r
  | taskClaim r =>
      have he := processReq_effect (replay past) (.taskClaim r) now
      generalize ((replay past).processReq (.taskClaim r) now).1 = db' at he ⊢
      generalize ((replay past).processReq (.taskClaim r) now).2 = resp at he
      cases he with
      | completed hreq hown hcap hok => cases hreq
      | listed hreq => cases hreq
      | created hreq hdepth hdeps => cases hreq
      | failed hreq hown => cases hreq
      | resumed hreq => cases hreq
      | _ => rfl
  | taskHeartbeat r =>
      exact halt_of_withHalt (f := fun db => db.handleTaskHeartbeat r now)
        fun h => handleTaskHeartbeat_withHalt _ h r now
  | taskComplete r =>
      exact halt_of_withHalt (f := fun db => db.handleTaskComplete r)
        fun h => handleTaskComplete_withHalt _ h r
  | taskFail r =>
      have hne : (response past (.taskFail r, now)).errcode ≠ .ok :=
        fun hok => hfail r ⟨rfl, hok⟩
      rw [(processReq_effect (replay past) (.taskFail r) now).eq_of_error hne]
  | taskList r => rfl
  | mainLockAcquire r =>
      exact halt_of_withHalt (f := fun db => db.handleMainLockAcquire r now)
        fun h => handleMainLockAcquire_withHalt _ h r now
  | mainLockRelease r =>
      exact halt_of_withHalt (f := fun db => db.handleMainLockRelease r)
        fun h => handleMainLockRelease_withHalt _ h r
  | swarmResume r => exact absurd rfl (hresume r)

/-- The swarm is halted by the failure `r`, and the task it failed says so. -/
structure HaltedByFail (r : TaskFailRequest) (db : TaskManagerDb) : Prop where
  halt : db.halt = ⟨true, some r.id, some r.reason⟩
  task : ∃ t, db.find r.id = some t ∧ t.status = .failed ∧ t.failReason = some r.reason

theorem haltedByFail_of_fails {past : List Call} {c : Call} {r : TaskFailRequest}
    (h : fails past c r) : HaltedByFail r (replay (past ++ [c])) := by
  obtain ⟨req, now⟩ := c
  obtain ⟨rfl, hok⟩ := h
  have he := processReq_effect (replay past) (.taskFail r) now
  rw [replay_snoc]
  unfold response at hok
  generalize ((replay past).processReq (.taskFail r) now).1 = db' at he ⊢
  generalize ((replay past).processReq (.taskFail r) now).2 = resp at he hok
  cases he with
  | refused herr hbusy => exact absurd hok herr
  | @failed r' t hreq hown =>
      obtain rfl := Request.taskFail.inj hreq
      have hid := ((wf_replay past).record _ _ (ownedTask_eq_ok hown).1).id_eq
      refine ⟨by simp [TaskManagerDb.halt, hid], failRecord r t, ?_, rfl, rfl⟩
      exact (find_setTask (replay past) r.id r.id _).trans (if_pos rfl)
  | _ => contradiction

theorem HaltedByFail.step {past : List Call} {r : TaskFailRequest}
    (h : HaltedByFail r (replay past)) {c : Call} (hresume : ∀ q, c.1 ≠ .swarmResume q)
    (hfail : ∀ q, ¬fails past c q) : HaltedByFail r (replay (past ++ [c])) := by
  obtain ⟨t, hf, hstatus, hreason⟩ := h.task
  refine ⟨(processReq_halt hresume hfail).trans h.halt, t, ?_, hstatus, hreason⟩
  exact finished_run hf (Or.inr hstatus) [c]

/-- While no one resumes, the halt is the one of the last failure. -/
theorem exists_lastFail {past mid : List Call} {c : Call} {r : TaskFailRequest}
    (hc : fails past c r) (hmid : ∀ d ∈ mid, ∀ q, d.1 ≠ .swarmResume q) :
    ∃ m d q, Runs.IsLast (fun p e => ∃ q, fails p e q) (past ++ c :: mid) m d ∧ fails m d q
      ∧ HaltedByFail q (replay (past ++ c :: mid)) := by
  induction mid using List.reverseRecOn with
  | nil =>
      exact ⟨past, c, r, Runs.isLast_concat.mpr (.inl ⟨⟨r, hc⟩, rfl, rfl⟩), hc,
        haltedByFail_of_fails hc⟩
  | append_singleton mid e ih =>
      have hsnoc : past ++ c :: (mid ++ [e]) = past ++ c :: mid ++ [e] := by simp
      rw [hsnoc]
      by_cases hnew : ∃ q, fails (past ++ c :: mid) e q
      · obtain ⟨q, hq⟩ := hnew
        exact ⟨past ++ c :: mid, e, q, Runs.isLast_concat.mpr (.inl ⟨⟨q, hq⟩, rfl, rfl⟩), hq,
          haltedByFail_of_fails hq⟩
      · obtain ⟨m, d, q, hlast, hq, hhalt⟩ :=
          ih fun d hd => hmid d (List.mem_append_left _ hd)
        exact ⟨m, d, q, Runs.isLast_concat.mpr (.inr ⟨hnew, hlast⟩), hq,
          hhalt.step (hmid e (by simp)) (not_exists.mp hnew)⟩

/-- **A halt stops new work and nothing else.** From an accepted failure on,
until someone resumes, the halt carries the last task failed, and every claim
is answered none and halted and changes nothing. Every request other than a
claim and a resume is answered, and changes tasks, order, lock and counters,
as if the flag and its cause were any other. -/
theorem halt_stops_claims_only :
    (∀ past c r mid, fails past c r → (∀ d ∈ mid, ∀ q, d.1 ≠ .swarmResume q) →
      (∃ m d q, Runs.IsLast (fun p e => ∃ q, fails p e q) (past ++ c :: mid) m d
        ∧ fails m d q ∧ (replay (past ++ c :: mid)).haltedBy = some q.id
        ∧ ∃ t, (replay (past ++ c :: mid)).find q.id = some t ∧ t.status = .failed
          ∧ t.failReason.isSome ∧ t.failReason = (replay (past ++ c :: mid)).haltedReason)
      ∧ ∀ q now, ∃ p, response (past ++ c :: mid) (.taskClaim q, now) = .taskClaim p
        ∧ p.none = true ∧ p.halted = true
        ∧ p.haltedBy = (replay (past ++ c :: mid)).haltedBy
        ∧ p.haltedReason = (replay (past ++ c :: mid)).haltedReason
        ∧ replay (past ++ c :: mid ++ [(.taskClaim q, now)]) = replay (past ++ c :: mid))
    ∧ ∀ (db : TaskManagerDb) (h : Halt) (req : Request) (now : Int),
        (∀ r, req ≠ .taskClaim r) → (∀ r, req ≠ .swarmResume r) →
        ((db.withHalt h).processReq req now).2 = (db.processReq req now).2
          ∧ SameWork ((db.withHalt h).processReq req now).1 (db.processReq req now).1 := by
  refine ⟨?_, fun db h req now hclaim hresume => processReq_withHalt db h now hclaim hresume⟩
  intro past c r mid hc hmid
  obtain ⟨m, d, q, hlast, hq, hhalt⟩ := exists_lastFail hc hmid
  obtain ⟨hflag, hby, hreason⟩ := Halt.mk.inj hhalt.halt
  refine ⟨⟨m, d, q, hlast, hq, hby, ?_⟩, ?_⟩
  · obtain ⟨t, hf, hstatus, hcause⟩ := hhalt.task
    exact ⟨t, hf, hstatus, by simp [hcause], hcause.trans hreason.symm⟩
  · intro q' now
    rw [replay_snoc]
    simp [response, processReq, handleTaskClaim, hflag]

end TaskManagerDb

end Tmgr
