import Tmgr.TaskManagerDb

/-!
# What one request can do

`Effect db req now db' resp` lists the outcomes of `process_req`: a refusal,
which leaves the state alone, or one of the ways a handler commits. The
inversion lemma `processReq_effect` is the only place where the handlers
are unfolded; every invariant and every history argument about the store
starts from its cases.

`Grows` describes what the creation paths (`task_create`, the children loop,
the synthesized merge) have in common: they only append fresh pending
records. `RecordStep` is the same step seen from one stored record.
-/

namespace Tmgr

namespace TaskManagerDb

/-! ## Lookups after updates -/

@[simp] theorem find_setTask (db : TaskManagerDb) (id id' : TaskId) (t : TaskRecord) :
    (db.setTask id t).find id' = if id' = id then some t else db.find id' := by
  by_cases h : id' = id
  · subst h
    simp [find, setTask]
  · simp [find, setTask, h]

@[simp] theorem mem_setTask (db : TaskManagerDb) (id id' : TaskId) (t : TaskRecord) :
    id' ∈ (db.setTask id t).tasks ↔ id' = id ∨ id' ∈ db.tasks :=
  Finmap.mem_insert

theorem mem_tasks_iff {db : TaskManagerDb} {id : TaskId} :
    id ∈ db.tasks ↔ ∃ t, db.find id = some t :=
  Finmap.mem_iff

theorem find_eq_none {db : TaskManagerDb} {id : TaskId} :
    db.find id = none ↔ id ∉ db.tasks :=
  Finmap.lookup_eq_none

@[simp] theorem setTask_taskOrder (db : TaskManagerDb) (id : TaskId) (t : TaskRecord) :
    (db.setTask id t).taskOrder = db.taskOrder := rfl

@[simp] theorem setTask_mainLock (db : TaskManagerDb) (id : TaskId) (t : TaskRecord) :
    (db.setTask id t).mainLock = db.mainLock := rfl

/-! ## The creation paths -/

/-- `db'` has the records of `db`, untouched, and possibly new ones, which
are pending and unowned. -/
structure Grows (db db' : TaskManagerDb) : Prop where
  nextToken : db'.nextToken = db.nextToken
  mainLock : db'.mainLock = db.mainLock
  find_old : ∀ {id t}, db.find id = some t → db'.find id = some t
  find_new : ∀ {id t}, db'.find id = some t → db.find id = some t
    ∨ (db.find id = none ∧ t.status = .pending ∧ t.ownerToken = 0 ∧ t.ownerAgent = "")

theorem Grows.refl (db : TaskManagerDb) : Grows db db :=
  ⟨rfl, rfl, id, Or.inl⟩

theorem Grows.trans {db₁ db₂ db₃ : TaskManagerDb} (h₁ : Grows db₁ db₂)
    (h₂ : Grows db₂ db₃) : Grows db₁ db₃ where
  nextToken := h₂.nextToken.trans h₁.nextToken
  mainLock := h₂.mainLock.trans h₁.mainLock
  find_old h := h₂.find_old (h₁.find_old h)
  find_new := by
    intro id t h
    rcases h₂.find_new h with h' | ⟨hnone, hfresh⟩
    · exact h₁.find_new h'
    · refine Or.inr ⟨?_, hfresh⟩
      cases hf : db₁.find id with
      | none => rfl
      | some u => rw [h₁.find_old hf] at hnone; cases hnone

theorem find_emplace (db : TaskManagerDb) (id id' : TaskId) (t : TaskRecord) :
    (db.emplace id t).find id'
      = if id' = id ∧ id ∉ db.tasks then some t else db.find id' := by
  by_cases hm : id ∈ db.tasks
  · simp [emplace, hm]
  · simp [emplace, hm]

theorem addTask_grows (db : TaskManagerDb) (spec : TaskSpec) :
    Grows db (db.addTask spec).1 where
  nextToken := by
    simp only [addTask, emplace]
    split <;> rfl
  mainLock := by
    simp only [addTask, emplace]
    split <;> rfl
  find_old := by
    intro id t h
    have hne : ¬(id = formatTaskId db.nextTaskSeq ∧ formatTaskId db.nextTaskSeq ∉ db.tasks) := by
      rintro ⟨rfl, hnot⟩
      exact hnot (mem_tasks_iff.mpr ⟨t, h⟩)
    have := find_emplace { db with nextTaskSeq := db.nextTaskSeq + 1 }
      (formatTaskId db.nextTaskSeq) id { id := formatTaskId db.nextTaskSeq, spec }
    rw [if_neg hne] at this
    exact this.trans h
  find_new := by
    intro id t h
    have hfind := find_emplace { db with nextTaskSeq := db.nextTaskSeq + 1 }
      (formatTaskId db.nextTaskSeq) id { id := formatTaskId db.nextTaskSeq, spec }
    have h' := hfind.symm.trans h
    split at h'
    · rename_i hcase
      obtain ⟨rfl, hnot⟩ := hcase
      obtain rfl := Option.some.inj h'
      exact Or.inr ⟨find_eq_none.mpr hnot, rfl, rfl, rfl⟩
    · exact Or.inl h'

/-- The spec a child of `parent` is stored with. -/
def childSpec (parent : TaskId) (depth : Int) (spec : TaskSpec) : TaskSpec :=
  { spec with depth, parentId := some parent }

theorem addChildren_cons (parent : TaskId) (d : Int) (spec : TaskSpec) (specs : List TaskSpec)
    (db : TaskManagerDb) :
    db.addChildren parent d (spec :: specs)
      = (((db.addTask (childSpec parent d spec)).1.addChildren parent d specs).1,
         formatTaskId db.nextTaskSeq
          :: ((db.addTask (childSpec parent d spec)).1.addChildren parent d specs).2) := rfl

theorem addChildren_grows (parent : TaskId) (d : Int) :
    ∀ (specs : List TaskSpec) (db : TaskManagerDb),
      Grows db (db.addChildren parent d specs).1
  | [], db => Grows.refl db
  | _ :: specs, db =>
      (addTask_grows db _).trans (addChildren_grows parent d specs _)

theorem addMerge_grows (db : TaskManagerDb) (t : TaskRecord) (branch : Option String) :
    Grows db (db.addMerge t branch).1 := by
  cases branch with
  | none => exact Grows.refl db
  | some b =>
      simp only [addMerge]
      split
      · exact addTask_grows db _
      · exact Grows.refl db

/-- The state `task_complete` finalizes its parent in. -/
def spawn (db : TaskManagerDb) (r : TaskCompleteRequest) (t : TaskRecord) :
    TaskManagerDb :=
  ((db.addChildren t.id (t.spec.depth + 1) r.newChildren).1.addMerge t r.resultBranch).1

theorem spawn_grows (db : TaskManagerDb) (r : TaskCompleteRequest) (t : TaskRecord) :
    Grows db (db.spawn r t) :=
  (addChildren_grows _ _ _ db).trans (addMerge_grows _ t _)

/-- A completion that passes its two checks. -/
theorem handleTaskComplete_eq {db : TaskManagerDb} {r : TaskCompleteRequest} {t : TaskRecord}
    (hown : db.ownedTask r.serial r.id r.token = .ok t)
    (hcap : t.spec.depth + 1 ≤ DEPTH_CAP ∨ r.newChildren = []) :
    db.handleTaskComplete r = ((db.spawn r t).setTask r.id (completeRecord r t),
      { serial := r.serial
        mergeTaskId := ((db.addChildren t.id (t.spec.depth + 1) r.newChildren).1.addMerge t
          r.resultBranch).2
        childIds := (db.addChildren t.id (t.spec.depth + 1) r.newChildren).2 }) := by
  have hnot : ¬(t.spec.depth + 1 > DEPTH_CAP ∧ r.newChildren ≠ []) := by
    rintro ⟨hdepth, hne⟩
    rcases hcap with hle | hnil
    · omega
    · exact hne hnil
  simp only [handleTaskComplete, hown, if_neg hnot, spawn]

/-! ## Inversion of the checks -/

theorem ownedTask_eq_ok {db : TaskManagerDb} {serial : Nat} {id : TaskId}
    {token : FencingToken} {t : TaskRecord}
    (h : db.ownedTask serial id token = .ok t) :
    db.find id = some t ∧ t.ownerToken = token ∧ token ≠ 0 := by
  unfold ownedTask at h
  split at h
  · cases h
  · rename_i u hu
    split at h
    · cases h
    · rename_i hown
      obtain rfl : u = t := by simpa using h
      have hown' : ¬u.ownerToken = 0 ∧ u.ownerToken = token := by simpa using hown
      exact ⟨hu, hown'.2, fun h0 => hown'.1 (hown'.2.trans h0)⟩

theorem ownedTask_eq_error {db : TaskManagerDb} {serial : Nat} {id : TaskId}
    {token : FencingToken} {e : ResponseBase}
    (h : db.ownedTask serial id token = .error e) : e.errcode ≠ .ok ∧ e.errcode ≠ .busy := by
  unfold ownedTask at h
  split at h
  · simp only [Except.error.injEq] at h
    simp [← h]
  · split at h
    · simp only [Except.error.injEq] at h
      simp [← h]
    · cases h

theorem createDepth_eq_error {db : TaskManagerDb} {r : TaskCreateRequest}
    {e : ResponseBase} (h : db.createDepth r = .error e) :
    e.errcode ≠ .ok ∧ e.errcode ≠ .busy := by
  unfold createDepth at h
  split at h
  · cases h
  · split at h
    · simp only [Except.error.injEq] at h
      simp [← h]
    · split at h
      · simp only [Except.error.injEq] at h
        simp [← h]
      · split at h
        · simp only [Except.error.injEq] at h
          simp [← h]
        · simp only at h
          split at h
          · simp only [Except.error.injEq] at h
            simp [← h]
          · cases h

theorem createDepth_eq_ok {db : TaskManagerDb} {r : TaskCreateRequest} {d : Int}
    (h : db.createDepth r = .ok d) :
    (r.creatorTask = none ∧ d = 0)
      ∨ (∃ creator parent, r.creatorTask = some creator ∧ db.find creator = some parent
          ∧ parent.status = .inProgress ∧ r.creatorToken = some parent.ownerToken
          ∧ d = parent.spec.depth + 1 ∧ d ≤ DEPTH_CAP) := by
  unfold createDepth at h
  split at h
  · rename_i hc
    simp only [Except.ok.injEq] at h
    exact Or.inl ⟨hc, h.symm⟩
  · rename_i creator hc
    split at h
    · cases h
    · rename_i token htok
      split at h
      · cases h
      · rename_i parent hp
        split at h
        · cases h
        · rename_i hown
          simp only at h
          split at h
          · cases h
          · rename_i hcap
            simp only [Except.ok.injEq] at h
            have hown' : parent.status = .inProgress ∧ parent.ownerToken = token := by
              simpa using hown
            exact Or.inr ⟨creator, parent, hc, hp, hown'.1, by rw [htok, hown'.2],
              h.symm, by omega⟩

theorem scan_eq_some {db : TaskManagerDb} {r : TaskClaimRequest} {now : Int}
    {b : Bool} {tid : TaskId} {t : TaskRecord} (h : db.scan r now b = some (tid, t)) :
    tid ∈ db.taskOrder ∧ db.find tid = some t ∧ db.tryPick now t = true := by
  obtain ⟨tid', hmem, hf⟩ := List.exists_of_findSome?_eq_some h
  split at hf
  · cases hf
  · rename_i u hu
    split at hf
    · cases hf
    · split at hf
      · rename_i hpick
        obtain ⟨rfl, rfl⟩ : tid' = tid ∧ u = t := by simpa using hf
        exact ⟨hmem, hu, hpick⟩
      · cases hf

theorem pick_eq_some {db : TaskManagerDb} {r : TaskClaimRequest} {now : Int}
    {tid : TaskId} {t : TaskRecord} (h : db.pick r now = some (tid, t)) :
    tid ∈ db.taskOrder ∧ db.find tid = some t ∧ db.tryPick now t = true := by
  unfold pick at h
  split at h
  · rcases Option.or_eq_some_iff.mp h with h' | ⟨-, h'⟩
    · exact scan_eq_some h'
    · exact scan_eq_some h'
  · exact scan_eq_some h

/-! ## The outcomes of a request -/

/-- The request is for the main lock, by the owner of a claim, while the lock
is held and its holder judged live. -/
def lockBusy (db : TaskManagerDb) (req : Request) (now : Int) : Bool :=
  match req with
  | .mainLockAcquire r =>
    match db.find r.mergeTask with
    | none => false
    | some mt =>
      mt.status == .inProgress && mt.ownerToken == r.mergeToken && db.mainLock.lockToken != 0
        && db.lockHolderLive now
  | _ => false

inductive Effect (db : TaskManagerDb) (req : Request) (now : Int) :
    TaskManagerDb → Response → Prop
  | refused {resp : Response} (herr : resp.errcode ≠ .ok)
      (hbusy : resp.errcode = .busy → db.lockBusy req now = true) : Effect db req now db resp
  | created {r : TaskCreateRequest} {d : Int} (hreq : req = .taskCreate r)
      (hdepth : db.createDepth r = .ok d)
      (hdeps : ∀ dep ∈ r.spec.requiresDeps, dep ∈ db.tasks) :
      Effect db req now
        (db.addTask { r.spec with depth := d, parentId := r.creatorTask <|> r.spec.parentId }).1
        (.taskCreate { serial := r.serial, id := formatTaskId db.nextTaskSeq })
  | halted {r : TaskClaimRequest} (hreq : req = .taskClaim r) (hh : db.swarmHalted = true) :
      Effect db req now db
        (.taskClaim { serial := r.serial, none := true, halted := true,
                      haltedBy := db.haltedBy, haltedReason := db.haltedReason })
  | noneEligible {r : TaskClaimRequest} (hreq : req = .taskClaim r)
      (hh : db.swarmHalted = false) (hpick : db.pick r now = none) :
      Effect db req now db (.taskClaim { serial := r.serial, none := true })
  | claimed {r : TaskClaimRequest} {tid : TaskId} {t : TaskRecord}
      (hreq : req = .taskClaim r) (hh : db.swarmHalted = false)
      (hpick : db.pick r now = some (tid, t)) :
      Effect db req now
        { db.setTask tid (db.claimRecord r now t) with nextToken := db.nextToken + 1 }
        (.taskClaim { serial := r.serial, id := t.id, spec := t.spec, token := db.nextToken })
  | heartbeat {r : TaskHeartbeatRequest} {t : TaskRecord} (hreq : req = .taskHeartbeat r)
      (hown : db.ownedTask r.serial r.id r.token = .ok t) :
      Effect db req now (db.setTask r.id { t with heartbeatUnix := now })
        (.taskHeartbeat ⟨{ serial := r.serial }⟩)
  | completed {r : TaskCompleteRequest} {t : TaskRecord} {resp : TaskCompleteResponse}
      (hreq : req = .taskComplete r) (hown : db.ownedTask r.serial r.id r.token = .ok t)
      (hcap : t.spec.depth + 1 ≤ DEPTH_CAP ∨ r.newChildren = [])
      (hresp : resp.errcode = .ok) :
      Effect db req now ((db.spawn r t).setTask r.id (completeRecord r t))
        (.taskComplete resp)
  | failed {r : TaskFailRequest} {t : TaskRecord} (hreq : req = .taskFail r)
      (hown : db.ownedTask r.serial r.id r.token = .ok t) :
      Effect db req now
        { db.setTask r.id (failRecord r t) with
          swarmHalted := true, haltedBy := some t.id, haltedReason := some r.reason }
        (.taskFail ⟨{ serial := r.serial }⟩)
  | listed {r : TaskListRequest} (hreq : req = .taskList r) :
      Effect db req now db (.taskList (db.handleTaskList r).2)
  | acquired {r : MainLockAcquireRequest} {mt : TaskRecord}
      (hreq : req = .mainLockAcquire r) (hfind : db.find r.mergeTask = some mt)
      (hstatus : mt.status = .inProgress) (htoken : mt.ownerToken = r.mergeToken)
      (hstale : db.mainLock.lockToken = 0 ∨ db.lockHolderLive now = false) :
      Effect db req now
        { db with mainLock := ⟨r.agentId, r.mergeTask, db.nextToken⟩,
                  nextToken := db.nextToken + 1 }
        (.mainLockAcquire { serial := r.serial, lockToken := db.nextToken })
  | released {r : MainLockReleaseRequest} (hreq : req = .mainLockRelease r)
      (hheld : db.mainLock.lockToken ≠ 0) (htoken : db.mainLock.lockToken = r.lockToken) :
      Effect db req now { db with mainLock := {} }
        (.mainLockRelease ⟨{ serial := r.serial }⟩)
  | resumed {r : SwarmResumeRequest} (hreq : req = .swarmResume r) :
      Effect db req now
        { db with swarmHalted := false, haltedBy := none, haltedReason := none }
        (.swarmResume { serial := r.serial, wasHalted := db.swarmHalted })

theorem effect_taskCreate (db : TaskManagerDb) (r : TaskCreateRequest) (now : Int) :
    Effect db (.taskCreate r) now (db.handleTaskCreate r).1
      (.taskCreate (db.handleTaskCreate r).2) := by
  unfold handleTaskCreate
  cases hd : db.createDepth r with
  | error e =>
      obtain ⟨hok, hbusy⟩ := createDepth_eq_error hd
      exact .refused hok fun h => absurd h hbusy
  | ok d =>
      simp only
      cases hdep : r.spec.requiresDeps.find? (fun dep => dep ∉ db.tasks) with
      | some dep =>
          exact .refused (by simp [Response.errcode, Response.base])
            (by simp [Response.errcode, Response.base])
      | none =>
          refine .created rfl hd ?_
          intro dep hmem
          have := List.find?_eq_none.mp hdep dep hmem
          simpa using this

theorem effect_taskClaim (db : TaskManagerDb) (r : TaskClaimRequest) (now : Int) :
    Effect db (.taskClaim r) now (db.handleTaskClaim r now).1
      (.taskClaim (db.handleTaskClaim r now).2) := by
  unfold handleTaskClaim
  cases hh : db.swarmHalted with
  | true => exact .halted rfl hh
  | false =>
      simp only [Bool.false_eq_true, if_false]
      cases hp : db.pick r now with
      | none => exact .noneEligible rfl hh hp
      | some p => exact .claimed rfl hh hp

theorem effect_taskHeartbeat (db : TaskManagerDb) (r : TaskHeartbeatRequest) (now : Int) :
    Effect db (.taskHeartbeat r) now (db.handleTaskHeartbeat r now).1
      (.taskHeartbeat (db.handleTaskHeartbeat r now).2) := by
  unfold handleTaskHeartbeat
  cases ho : db.ownedTask r.serial r.id r.token with
  | error e => exact .refused (ownedTask_eq_error ho).1 fun h => absurd h (ownedTask_eq_error ho).2
  | ok t => exact .heartbeat rfl ho

theorem effect_taskComplete (db : TaskManagerDb) (r : TaskCompleteRequest) (now : Int) :
    Effect db (.taskComplete r) now (db.handleTaskComplete r).1
      (.taskComplete (db.handleTaskComplete r).2) := by
  unfold handleTaskComplete
  cases ho : db.ownedTask r.serial r.id r.token with
  | error e => exact .refused (ownedTask_eq_error ho).1 fun h => absurd h (ownedTask_eq_error ho).2
  | ok t =>
      simp only
      split
      · exact .refused (by simp [Response.errcode, Response.base])
          (by simp [Response.errcode, Response.base])
      · rename_i hcap
        refine .completed (r := r) (t := t) rfl ho ?_ rfl
        by_cases hc : t.spec.depth + 1 ≤ DEPTH_CAP
        · exact Or.inl hc
        · exact Or.inr (by_contra fun hne => hcap ⟨by omega, hne⟩)

theorem effect_taskFail (db : TaskManagerDb) (r : TaskFailRequest) (now : Int) :
    Effect db (.taskFail r) now (db.handleTaskFail r).1
      (.taskFail (db.handleTaskFail r).2) := by
  unfold handleTaskFail
  cases ho : db.ownedTask r.serial r.id r.token with
  | error e => exact .refused (ownedTask_eq_error ho).1 fun h => absurd h (ownedTask_eq_error ho).2
  | ok t => exact .failed rfl ho

theorem effect_mainLockAcquire (db : TaskManagerDb) (r : MainLockAcquireRequest)
    (now : Int) :
    Effect db (.mainLockAcquire r) now (db.handleMainLockAcquire r now).1
      (.mainLockAcquire (db.handleMainLockAcquire r now).2) := by
  unfold handleMainLockAcquire
  cases hf : db.find r.mergeTask with
  | none =>
      exact .refused (by simp [Response.errcode, Response.base])
        (by simp [Response.errcode, Response.base])
  | some mt =>
      simp only
      split
      · exact .refused (by simp [Response.errcode, Response.base])
          (by simp [Response.errcode, Response.base])
      · rename_i hown
        have hown' : mt.status = .inProgress ∧ mt.ownerToken = r.mergeToken := by
          simpa using hown
        split
        · rename_i hheld
          refine .refused (by simp [Response.errcode, Response.base]) ?_
          intro _
          simp [lockBusy, hf, hown'.1, hown'.2, hheld.1, hheld.2]
        · rename_i hlive
          refine .acquired rfl hf hown'.1 hown'.2 ?_
          by_cases h0 : db.mainLock.lockToken = 0
          · exact Or.inl h0
          · exact Or.inr (by simpa [h0] using hlive)

theorem effect_mainLockRelease (db : TaskManagerDb) (r : MainLockReleaseRequest)
    (now : Int) :
    Effect db (.mainLockRelease r) now (db.handleMainLockRelease r).1
      (.mainLockRelease (db.handleMainLockRelease r).2) := by
  unfold handleMainLockRelease
  split
  · exact .refused (by simp [Response.errcode, Response.base])
      (by simp [Response.errcode, Response.base])
  · rename_i hheld
    have hheld' : db.mainLock.lockToken ≠ 0 ∧ db.mainLock.lockToken = r.lockToken := by
      simpa using hheld
    exact .released rfl hheld'.1 hheld'.2

/-- **Inversion.** Every call of `process_req` has one of the listed
outcomes. -/
theorem processReq_effect (db : TaskManagerDb) (req : Request) (now : Int) :
    Effect db req now (db.processReq req now).1 (db.processReq req now).2 := by
  cases req with
  | taskCreate r => exact effect_taskCreate db r now
  | taskClaim r => exact effect_taskClaim db r now
  | taskHeartbeat r => exact effect_taskHeartbeat db r now
  | taskComplete r => exact effect_taskComplete db r now
  | taskFail r => exact effect_taskFail db r now
  | taskList r => exact .listed rfl
  | mainLockAcquire r => exact effect_mainLockAcquire db r now
  | mainLockRelease r => exact effect_mainLockRelease db r now
  | swarmResume r => exact .resumed rfl

/-- Only an acquire of the main lock is ever answered busy. -/
theorem Effect.busy {db db' : TaskManagerDb} {req : Request} {now : Int} {resp : Response}
    (h : Effect db req now db' resp) (hbusy : resp.errcode = .busy) :
    db.lockBusy req now = true := by
  cases h with
  | refused _ h => exact h hbusy
  | @completed r t resp hreq hown hcap hresp =>
      have hok : resp.errcode = .busy := hbusy
      rw [hresp] at hok
      cases hok
  | _ => cases hbusy

theorem processReq_busy (db : TaskManagerDb) (req : Request) (now : Int) :
    (db.processReq req now).2.errcode = .busy ↔ db.lockBusy req now = true := by
  constructor
  · exact (processReq_effect db req now).busy
  · intro hbusy
    cases req with
    | mainLockAcquire r =>
        unfold lockBusy at hbusy
        simp only at hbusy
        split at hbusy
        · cases hbusy
        · rename_i mt hmt
          simp only [Bool.and_eq_true, beq_iff_eq, bne_iff_ne] at hbusy
          obtain ⟨⟨⟨hstatus, htoken⟩, hheld⟩, hlive⟩ := hbusy
          simp [processReq, handleMainLockAcquire, hmt, hstatus, htoken, hheld, hlive,
            Response.errcode, Response.base]
    | _ => cases hbusy

/-! ## Refusals -/

theorem Effect.eq_of_error {db db' : TaskManagerDb} {req : Request} {now : Int}
    {resp : Response} (he : Effect db req now db' resp) (herr : resp.errcode ≠ .ok) :
    db' = db := by
  cases he with
  | refused _ _ => rfl
  | halted hreq hh => rfl
  | noneEligible hreq hh hpick => rfl
  | listed hreq => rfl
  | completed hreq hown hcap hok => exact absurd hok herr
  | _ => exact absurd rfl herr

/-- An accepted create names stored tasks only. -/
theorem Effect.deps_stored {db db' : TaskManagerDb} {r : TaskCreateRequest} {now : Int}
    {resp : Response} (he : Effect db (.taskCreate r) now db' resp)
    (hok : resp.errcode = .ok) : ∀ dep ∈ r.spec.requiresDeps, dep ∈ db.tasks := by
  cases he with
  | refused herr hbusy => exact absurd hok herr
  | created hreq hdepth hdeps =>
      obtain rfl := Request.taskCreate.inj hreq
      exact hdeps
  | _ => contradiction

/-- An accepted completion stores no child below the depth cap. -/
theorem Effect.depth_kept {db db' : TaskManagerDb} {r : TaskCompleteRequest} {now : Int}
    {resp : Response} (he : Effect db (.taskComplete r) now db' resp)
    (hok : resp.errcode = .ok) :
    ∃ t, db.find r.id = some t ∧ (t.spec.depth + 1 ≤ DEPTH_CAP ∨ r.newChildren = []) := by
  cases he with
  | refused herr hbusy => exact absurd hok herr
  | completed hreq hown hcap hresp =>
      obtain rfl := Request.taskComplete.inj hreq
      exact ⟨_, (ownedTask_eq_ok hown).1, hcap⟩
  | _ => contradiction

/-- **Failures do not mutate.** A request answered with an error, a
`task_list` and a `task_claim` answered none leave the whole state as it
was; a create with one unknown dependency and a completion with one child
too deep are such errors. -/
theorem failures_do_not_mutate (db : TaskManagerDb) (req : Request) (now : Int) :
    ((db.processReq req now).2.errcode ≠ .ok → (db.processReq req now).1 = db)
    ∧ (∀ r, req = .taskList r → (db.processReq req now).1 = db)
    ∧ (∀ p, (db.processReq req now).2 = .taskClaim p → p.none = true →
        (db.processReq req now).1 = db)
    ∧ (∀ r, req = .taskCreate r → (∃ dep ∈ r.spec.requiresDeps, dep ∉ db.tasks) →
        (db.processReq req now).2.errcode ≠ .ok ∧ (db.processReq req now).1 = db)
    ∧ ∀ r t, req = .taskComplete r → db.find r.id = some t → r.newChildren ≠ [] →
        t.spec.depth + 1 > DEPTH_CAP →
        (db.processReq req now).2.errcode ≠ .ok ∧ (db.processReq req now).1 = db := by
  have he := processReq_effect db req now
  refine ⟨he.eq_of_error, ?_, ?_, ?_, ?_⟩
  · rintro r rfl
    rfl
  · intro p hresp hnone
    generalize (db.processReq req now).1 = db' at he ⊢
    rw [hresp] at he
    cases he with
    | claimed hreq hh hpick => cases hnone
    | _ => rfl
  · rintro r rfl ⟨dep, hdep, hunknown⟩
    have herr : (db.processReq (.taskCreate r) now).2.errcode ≠ .ok :=
      fun hok => hunknown (he.deps_stored hok dep hdep)
    exact ⟨herr, he.eq_of_error herr⟩
  · rintro r t rfl hf hne hdeep
    have herr : (db.processReq (.taskComplete r) now).2.errcode ≠ .ok := by
      intro hok
      obtain ⟨u, hu, hcap⟩ := he.depth_kept hok
      obtain rfl := Option.some.inj (hu.symm.trans hf)
      rcases hcap with hle | hnil
      · omega
      · exact hne hnil
    exact ⟨herr, he.eq_of_error herr⟩

end TaskManagerDb

end Tmgr
