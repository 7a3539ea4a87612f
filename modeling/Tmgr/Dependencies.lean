import Tmgr.Fencing
import Tmgr.Lib.Precedence
import Tmgr.Lib.Run

/-!
# Dependencies between tasks

`requires_deps` is fixed when a task is created. `task_create` refuses an
unknown dependency; the children of a `task_complete` are stored as they
come. So the dependency graph points back along the creation order exactly
as long as every accepted completion names known tasks
(`dependencies_backward_iff`). While it does, some task can always be
claimed (`no_stuck_swarm`). Whatever the graph looks like, a task leaves
`pending` only after everything it requires is done (`dependency_gating`).
-/

namespace Tmgr

open Precedence

namespace TaskManagerDb

/-- Task `id` is stored, and requires `dep`. -/
def DependsOn (db : TaskManagerDb) (id dep : TaskId) : Prop :=
  ∃ t, db.find id = some t ∧ dep ∈ t.spec.requiresDeps

/-- Every dependency was created before the task that names it. -/
def DepsBackward (db : TaskManagerDb) : Prop :=
  ∀ id dep, db.DependsOn id dep → Precedes db.taskOrder dep id

/-- Every dependency of the `i`-th child names a stored task or one of the
children before it, by the id that child is going to get. -/
def childDepsKnown (db : TaskManagerDb) (specs : List TaskSpec) : Prop :=
  ∀ i spec, specs[i]? = some spec → ∀ dep ∈ spec.requiresDeps,
    dep ∈ db.tasks ∨ ∃ j < i, dep = formatTaskId (db.nextTaskSeq + j)

/-- If the request is a completion that passes its checks, the dependencies
of its children are known. -/
def childrenKnown (db : TaskManagerDb) : Request → Prop
  | .taskComplete r => ∀ t, db.ownedTask r.serial r.id r.token = .ok t →
      t.spec.depth + 1 ≤ DEPTH_CAP → db.childDepsKnown r.newChildren
  | _ => True

theorem childrenKnown_of_owned {db : TaskManagerDb} {r : TaskCompleteRequest} {t : TaskRecord}
    (hown : db.ownedTask r.serial r.id r.token = .ok t) : db.childrenKnown (.taskComplete r)
      ↔ (t.spec.depth + 1 ≤ DEPTH_CAP → db.childDepsKnown r.newChildren) := by
  constructor
  · exact fun h => h t hown
  · intro h t' hown' hle
    obtain rfl : t = t' := Except.ok.inj (hown.symm.trans hown')
    exact h hle

/-! ## Rewriting a record -/

theorem DependsOn.mem {db : TaskManagerDb} {id dep : TaskId} (h : db.DependsOn id dep) :
    id ∈ db.tasks := by
  obtain ⟨t, hf, -⟩ := h
  exact mem_tasks_iff.mpr ⟨t, hf⟩

theorem dependsOn_setTask {db : TaskManagerDb} {tid : TaskId} {t t' : TaskRecord}
    (hf : db.find tid = some t) (hspec : t'.spec = t.spec) (id dep : TaskId) :
    (db.setTask tid t').DependsOn id dep ↔ db.DependsOn id dep := by
  unfold DependsOn
  rw [find_setTask]
  by_cases hid : id = tid
  · simp [hid, hf, hspec]
  · simp [hid]

theorem depsBackward_setTask {db : TaskManagerDb} {tid : TaskId} {t t' : TaskRecord}
    (hf : db.find tid = some t) (hspec : t'.spec = t.spec) :
    (db.setTask tid t').DepsBackward ↔ db.DepsBackward := by
  simp only [DepsBackward, dependsOn_setTask hf hspec, setTask_taskOrder]

/-! ## Creating a task -/

theorem dependsOn_addTask {db : TaskManagerDb} (hw : Wf db) (spec : TaskSpec)
    (id dep : TaskId) :
    (db.addTask spec).1.DependsOn id dep
      ↔ db.DependsOn id dep ∨ (id = formatTaskId db.nextTaskSeq ∧ dep ∈ spec.requiresDeps) := by
  unfold DependsOn
  rw [hw.find_addTask]
  by_cases hid : id = formatTaskId db.nextTaskSeq
  · have hnone : db.find id = none :=
      find_eq_none.mpr (hid ▸ hw.unminted (Nat.le_refl _))
    rw [if_pos hid, hnone]
    simp [hid]
  · simp [hid]

/-- A created task keeps the graph backward exactly when what it requires is
stored already. -/
theorem depsBackward_addTask {db : TaskManagerDb} (hw : Wf db) (spec : TaskSpec) :
    (db.addTask spec).1.DepsBackward
      ↔ db.DepsBackward ∧ ∀ dep ∈ spec.requiresDeps, dep ∈ db.tasks := by
  have hnew : formatTaskId db.nextTaskSeq ∉ db.taskOrder := by
    rw [← hw.keys]
    exact hw.unminted (Nat.le_refl _)
  constructor
  · intro h
    refine ⟨?_, ?_⟩
    · intro id dep hdep
      have hlate := h id dep ((dependsOn_addTask hw spec id dep).mpr (Or.inl hdep))
      rw [addTask_taskOrder] at hlate
      exact (precedes_append ((hw.keys id).mp hdep.mem)).mp hlate
    · intro dep hdep
      have hlate := h _ dep ((dependsOn_addTask hw spec _ dep).mpr (Or.inr ⟨rfl, hdep⟩))
      rw [addTask_taskOrder] at hlate
      exact (hw.keys dep).mpr ((precedes_concat hnew).mp hlate)
  · rintro ⟨hback, hknown⟩ id dep hdep
    rw [addTask_taskOrder]
    rcases (dependsOn_addTask hw spec id dep).mp hdep with hold | ⟨rfl, hmem⟩
    · exact (precedes_append ((hw.keys id).mp hold.mem)).mpr (hback id dep hold)
    · exact (precedes_concat hnew).mpr ((hw.keys dep).mp (hknown dep hmem))

theorem childDepsKnown_cons {db : TaskManagerDb} (hw : Wf db) (stored : TaskSpec)
    {spec : TaskSpec} {specs : List TaskSpec} :
    db.childDepsKnown (spec :: specs) ↔ (∀ dep ∈ spec.requiresDeps, dep ∈ db.tasks)
      ∧ (db.addTask stored).1.childDepsKnown specs := by
  simp only [childDepsKnown, hw.mem_addTask, addTask_nextTaskSeq]
  constructor
  · intro h
    refine ⟨fun dep hdep => ?_, fun i s hs dep hdep => ?_⟩
    · rcases h 0 spec rfl dep hdep with hmem | ⟨j, hj, -⟩
      · exact hmem
      · exact absurd hj (Nat.not_lt_zero j)
    · rcases h (i + 1) s hs dep hdep with hmem | ⟨j, hj, rfl⟩
      · exact Or.inl (Or.inr hmem)
      · cases j with
        | zero => exact Or.inl (Or.inl rfl)
        | succ j =>
            refine Or.inr ⟨j, Nat.lt_of_succ_lt_succ hj, ?_⟩
            rw [show db.nextTaskSeq + (j + 1) = db.nextTaskSeq + 1 + j by omega]
  · rintro ⟨hhead, htail⟩ i s hs dep hdep
    cases i with
    | zero =>
        obtain rfl : spec = s := by simpa using hs
        exact Or.inl (hhead dep hdep)
    | succ i =>
        rcases htail i s hs dep hdep with (rfl | hmem) | ⟨j, hj, rfl⟩
        · exact Or.inr ⟨0, Nat.succ_pos i, rfl⟩
        · exact Or.inl hmem
        · refine Or.inr ⟨j + 1, Nat.succ_lt_succ hj, ?_⟩
          rw [show db.nextTaskSeq + (j + 1) = db.nextTaskSeq + 1 + j by omega]

theorem depsBackward_addChildren {parent : TaskId} {d : Int} (h0 : 0 ≤ d)
    (hcap : d ≤ DEPTH_CAP) {specs : List TaskSpec} {db : TaskManagerDb} (hw : Wf db) :
    (db.addChildren parent d specs).1.DepsBackward
      ↔ db.DepsBackward ∧ db.childDepsKnown specs := by
  induction specs generalizing db with
  | nil => simp [addChildren, childDepsKnown]
  | cons spec specs ih =>
      have hrest := ih (hw.addTask (show 0 ≤ (childSpec parent d spec).depth from h0) hcap)
      have hhead := depsBackward_addTask hw (childSpec parent d spec)
      rw [childDepsKnown_cons hw (childSpec parent d spec), ← and_assoc, addChildren_cons]
      exact hrest.trans (and_congr_left fun _ => hhead)

/-- The synthesized merge requires the task that is being completed. -/
theorem depsBackward_addMerge {db : TaskManagerDb} (hw : Wf db) {t : TaskRecord}
    (hmem : t.id ∈ db.tasks) (branch : Option String) :
    (db.addMerge t branch).1.DepsBackward ↔ db.DepsBackward := by
  cases branch with
  | none => exact Iff.rfl
  | some b =>
      simp only [addMerge]
      split
      · have hdeps : ∀ dep ∈ (mergeSpec t b).requiresDeps, dep ∈ db.tasks := by
          simpa [mergeSpec] using hmem
        exact (depsBackward_addTask hw _).trans (and_iff_left hdeps)
      · exact Iff.rfl

/-! ## One request, and a history of them -/

/-- A completion keeps the graph backward exactly when it stores no child or
the children it stores are known. -/
theorem depsBackward_taskComplete {db : TaskManagerDb} (hw : Wf db) (r : TaskCompleteRequest) :
    (db.handleTaskComplete r).1.DepsBackward
      ↔ db.DepsBackward ∧ db.childrenKnown (.taskComplete r) := by
  cases hown : db.ownedTask r.serial r.id r.token with
  | error e => simp [handleTaskComplete, childrenKnown, hown]
  | ok t =>
      obtain ⟨hf, -, -⟩ := ownedTask_eq_ok hown
      have hrec := hw.record _ _ hf
      have h0 : 0 ≤ t.spec.depth + 1 := by
        have := hrec.depth_nonneg
        omega
      by_cases hcap : t.spec.depth + 1 ≤ DEPTH_CAP ∨ r.newChildren = []
      · have hchildren : (db.addChildren t.id (t.spec.depth + 1) r.newChildren).1.DepsBackward
            ↔ db.DepsBackward ∧ db.childrenKnown (.taskComplete r) := by
          rw [childrenKnown_of_owned hown]
          rcases hcap with hle | hnil
          · exact (depsBackward_addChildren h0 hle hw).trans
              (and_congr_right fun _ => (imp_iff_right hle).symm)
          · simp [hnil, addChildren, childDepsKnown]
        have hmem : t.id ∈ (db.addChildren t.id (t.spec.depth + 1) r.newChildren).1.tasks := by
          rw [hrec.id_eq]
          exact mem_tasks_iff.mpr ⟨t, (addChildren_grows _ _ _ db).find_old hf⟩
        rw [handleTaskComplete_eq hown hcap, ← hchildren,
          depsBackward_setTask ((spawn_grows db r t).find_old hf)
            (show (completeRecord r t).spec = t.spec from rfl)]
        exact depsBackward_addMerge (Wf.addChildren h0 hw hcap) hmem _
      · -- over the depth cap with children: refused
        obtain ⟨hdeep, hne⟩ := not_or.mp hcap
        have hcut : t.spec.depth + 1 > DEPTH_CAP ∧ r.newChildren ≠ [] := ⟨by omega, hne⟩
        rw [childrenKnown_of_owned hown, and_iff_left fun hle => absurd hle hdeep]
        simp [handleTaskComplete, hown, hcut]

theorem Effect.depsBackward {db db' : TaskManagerDb} {req : Request} {now : Int}
    {resp : Response} (hw : Wf db) (he : Effect db req now db' resp)
    (hne : ∀ r, req ≠ .taskComplete r) : db'.DepsBackward ↔ db.DepsBackward := by
  cases he with
  | created hreq hdepth hdeps =>
      exact (depsBackward_addTask hw _).trans (and_iff_left hdeps)
  | claimed hreq hh hpick => exact depsBackward_setTask (pick_eq_some hpick).2.1 rfl
  | heartbeat hreq hown => exact depsBackward_setTask (ownedTask_eq_ok hown).1 rfl
  | @completed r t _ hreq hown hcap hok => exact absurd hreq (hne r)
  | failed hreq hown => exact depsBackward_setTask (ownedTask_eq_ok hown).1 rfl
  | _ => exact Iff.rfl

theorem depsBackward_processReq {db : TaskManagerDb} (hw : Wf db) (req : Request) (now : Int) :
    (db.processReq req now).1.DepsBackward ↔ db.DepsBackward ∧ db.childrenKnown req := by
  by_cases hc : ∃ r, req = .taskComplete r
  · obtain ⟨r, rfl⟩ := hc
    exact depsBackward_taskComplete hw r
  · have hne : ∀ r, req ≠ .taskComplete r := not_exists.mp hc
    have hknown : db.childrenKnown req := by
      cases req with
      | taskComplete r => exact absurd rfl (hne r)
      | _ => trivial
    rw [and_iff_left hknown]
    exact (processReq_effect db req now).depsBackward hw hne

theorem depsBackward_replay (calls : List Call) :
    (replay calls).DepsBackward
      ↔ ∀ past c rest, calls = past ++ c :: rest → (replay past).childrenKnown c.1 := by
  induction calls using List.reverseRecOn with
  | nil => simp [DepsBackward, DependsOn, replay, find]
  | append_singleton calls c ih =>
      rw [Runs.forall_split_concat, ← ih, replay_snoc]
      exact depsBackward_processReq (wf_replay calls) c.1 c.2

/-- **Dependencies are real and point backwards**, and so form no cycle,
after exactly those histories in which every accepted completion names, for
each of its children, only tasks stored by then or earlier siblings. -/
theorem dependencies_backward_iff (calls : List Call) :
    ((∀ id t dep, (replay calls).find id = some t → dep ∈ t.spec.requiresDeps →
        dep ∈ (replay calls).tasks ∧ Precedes (replay calls).taskOrder dep id)
      ∧ ∀ id, ¬Relation.TransGen (replay calls).DependsOn id id)
    ↔ ∀ past c rest, calls = past ++ c :: rest → (replay past).childrenKnown c.1 := by
  rw [← depsBackward_replay]
  constructor
  · rintro ⟨hreal, -⟩ id dep ⟨t, hf, hdep⟩
    exact (hreal id t dep hf hdep).2
  · intro hback
    refine ⟨?_, acyclic hback⟩
    intro id t dep hf hdep
    have hprec := hback id dep ⟨t, hf, hdep⟩
    exact ⟨((wf_replay calls).keys dep).mpr hprec.left_mem, hprec⟩

/-- A plan completes with a child that waits for a task nobody created. -/
def unknownChildDep : List Call :=
  [(.taskCreate {}, 0),
   (.taskClaim { agentId := "a1" }, 0),
   (.taskComplete { id := "t/0001", token := 1,
                    newChildren := [{ requiresDeps := ["t/9999"] }] }, 0)]

theorem dependencies_not_always_real :
    ¬∀ (calls : List Call) (id : TaskId) (t : TaskRecord) (dep : TaskId),
      (replay calls).find id = some t → dep ∈ t.spec.requiresDeps →
      dep ∈ (replay calls).tasks ∧ Precedes (replay calls).taskOrder dep id := by
  intro h
  have hreal := h unknownChildDep "t/0002"
    { id := "t/0002", spec := { requiresDeps := ["t/9999"], depth := 1,
                                parentId := some "t/0001" } } "t/9999"
    (by decide +kernel) (by simp)
  revert hreal
  decide +kernel

/-! ## Finished dependencies -/

/-- Everything `t` requires is stored and done. -/
def DepsDone (db : TaskManagerDb) (t : TaskRecord) : Prop :=
  ∀ dep ∈ t.spec.requiresDeps, ∃ d, db.find dep = some d ∧ d.status = .done

theorem requiresSatisfied_iff {db : TaskManagerDb} {t : TaskRecord} :
    db.requiresSatisfied t = true ↔ db.DepsDone t := by
  simp only [requiresSatisfied, List.all_eq_true, DepsDone]
  refine forall_congr' fun dep => imp_congr_right fun _ => ?_
  cases db.find dep with
  | none => simp
  | some d => simp

/-- A finished dependency stays finished. -/
theorem DepsDone.step {db : TaskManagerDb} (hw : Wf db) {t : TaskRecord} (h : db.DepsDone t)
    (req : Request) (now : Int) : (db.processReq req now).1.DepsDone t := by
  intro dep hdep
  obtain ⟨d, hd, hdone⟩ := h dep hdep
  obtain ⟨d', hd', hst⟩ := processReq_record req now hd
  obtain rfl := hst.finished hw hd (Or.inl hdone)
  exact ⟨d', hd', hdone⟩

theorem DepsDone.run {past : List Call} {t : TaskRecord} (h : (replay past).DepsDone t)
    (mid : List Call) : (replay (past ++ mid)).DepsDone t := by
  refine replay_append_induction (I := fun db => db.DepsDone t) h ?_
  intro m₁ c _ _ hdone
  exact hdone.step (wf_replay _) c.1 c.2

/-! ## Progress -/

/-- A pass that skips nothing finds a task if one can be picked. -/
theorem scan_ne_none {db : TaskManagerDb} {r : TaskClaimRequest} {now : Int} {tid : TaskId}
    {t : TaskRecord} (hmem : tid ∈ db.taskOrder) (hf : db.find tid = some t)
    (hpick : db.tryPick now t = true) : db.scan r now false ≠ none := by
  intro hnone
  have hskip := List.findSome?_eq_none_iff.mp hnone tid hmem
  simp [hf, hpick] at hskip

theorem pick_ne_none {db : TaskManagerDb} {r : TaskClaimRequest} {now : Int} {tid : TaskId}
    {t : TaskRecord} (hmem : tid ∈ db.taskOrder) (hf : db.find tid = some t)
    (hpick : db.tryPick now t = true) : db.pick r now ≠ none := by
  have hscan := scan_ne_none (r := r) hmem hf hpick
  unfold pick
  split
  · exact fun hnone => hscan (Option.or_eq_none_iff.mp hnone).2
  · exact hscan

/-- The earliest task that is not done can be picked. -/
theorem exists_tryPick {db : TaskManagerDb} (hw : Wf db) {now : Int}
    (hfail : ∀ id t, db.find id = some t → t.status ≠ .failed)
    (hwork : ∃ id t, db.find id = some t ∧ t.status ≠ .done) (hback : db.DepsBackward)
    (hlapsed : ∀ id t, db.find id = some t → t.status = .inProgress →
      leaseExpired t now = true) :
    ∃ id t, id ∈ db.taskOrder ∧ db.find id = some t ∧ db.tryPick now t = true := by
  obtain ⟨id₀, t₀, hf₀, hne₀⟩ := hwork
  have hmem₀ : id₀ ∈ db.taskOrder := (hw.keys id₀).mp (mem_tasks_iff.mpr ⟨t₀, hf₀⟩)
  obtain ⟨id, hmem, ⟨t, hf, hne⟩, hfirst⟩ :=
    exists_first (P := fun id => ∃ t, db.find id = some t ∧ t.status ≠ .done) hmem₀
      ⟨t₀, hf₀, hne₀⟩
  have hdeps : db.DepsDone t := by
    intro dep hdep
    have hprec := hback id dep ⟨t, hf, hdep⟩
    obtain ⟨d, hd⟩ := mem_tasks_iff.mp ((hw.keys dep).mpr hprec.left_mem)
    exact ⟨d, hd, by_contra fun hnd => hfirst dep hprec ⟨d, hd, hnd⟩⟩
  have hpick : db.tryPick now t = true := by
    rw [tryPick, requiresSatisfied_iff.mpr hdeps, Bool.true_and]
    cases hs : t.status with
    | pending => rfl
    | inProgress => simp [hlapsed id t hf hs]
    | done => exact absurd hs hne
    | failed => exact absurd hs (hfail id t hf)
  exact ⟨id, t, hmem, hf, hpick⟩

/-- **No stuck swarm.** While the dependencies point backwards and nothing
failed, an unfinished swarm has work for any agent once the leases of all
running tasks are up. -/
theorem no_stuck_swarm (calls : List Call) (hhalt : (replay calls).swarmHalted = false)
    (hfail : ∀ id t, (replay calls).find id = some t → t.status ≠ .failed)
    (hwork : ∃ id t, (replay calls).find id = some t ∧ t.status ≠ .done)
    (hback : (replay calls).DepsBackward) (now : Int)
    (hlapsed : ∀ id t, (replay calls).find id = some t → t.status = .inProgress →
      now - t.heartbeatUnix > LEASE_WINDOW_SECONDS) (r : TaskClaimRequest) :
    ∃ id k, grantedClaim (response calls (.taskClaim r, now)) = some (id, k) := by
  obtain ⟨tid, t, hmem, hf, hpick⟩ := exists_tryPick (wf_replay calls) hfail hwork hback
    fun id u hu hs => by simpa [leaseExpired] using hlapsed id u hu hs
  obtain ⟨⟨id, u⟩, hp⟩ :=
    Option.ne_none_iff_exists'.mp (pick_ne_none (r := r) hmem hf hpick)
  refine ⟨u.id, (replay calls).nextToken, ?_⟩
  simp [response, processReq, handleTaskClaim, hhalt, hp, claimRecord, grantedClaim]

/-- What holds of every record can be checked along the creation order. -/
theorem Wf.forall_find {db : TaskManagerDb} (hw : Wf db) {P : TaskId → TaskRecord → Prop}
    (h : ∀ id ∈ db.taskOrder, ∀ t ∈ db.find id, P id t) (id : TaskId) (t : TaskRecord)
    (hf : db.find id = some t) : P id t :=
  h id ((hw.keys id).mp (mem_tasks_iff.mpr ⟨t, hf⟩)) t hf

/-- The first of two ordered tasks is claimed, and its lease runs out. -/
def lapsedFirst : List Call :=
  [(.taskCreate {}, 0), (.taskCreate { spec := { requiresDeps := ["t/0001"] } }, 0),
   (.taskClaim { agentId := "a1" }, 0)]

theorem no_stuck_swarm_lapsedFirst :
    ∃ id k, grantedClaim (response lapsedFirst
      (.taskClaim { agentId := "a2", preferType := some .merge }, 46)) = some (id, k) :=
  have hall : ∀ {P : TaskId → TaskRecord → Prop},
      (∀ id ∈ (replay lapsedFirst).taskOrder, ∀ t ∈ (replay lapsedFirst).find id, P id t) →
      ∀ id t, (replay lapsedFirst).find id = some t → P id t :=
    fun h => (wf_replay lapsedFirst).forall_find h
  no_stuck_swarm lapsedFirst (by decide +kernel) (hall (by decide +kernel))
    ⟨"t/0002", { id := "t/0002", spec := { requiresDeps := ["t/0001"] } }, by decide +kernel⟩
    (fun id dep h => by
      obtain ⟨t, hf, hdep⟩ := h
      have hback := hall (P := fun id t => ∀ dep ∈ t.spec.requiresDeps,
        Precedes (replay lapsedFirst).taskOrder dep id) (by decide +kernel)
      exact hback id t hf dep hdep)
    46 (hall (by decide +kernel)) { agentId := "a2", preferType := some .merge }

/-! ## Gating -/

/-- Every task that has left `pending` has all its dependencies done. -/
def Gated (db : TaskManagerDb) : Prop :=
  ∀ id t, db.find id = some t → t.status ≠ .pending → db.DepsDone t

/-- What a request does to a record keeps it gated. -/
theorem RecordStep.depsDone {db : TaskManagerDb} (hw : Wf db) {req : Request} {now : Int}
    {id : TaskId} {t t' : TaskRecord} (hf : db.find id = some t)
    (h : RecordStep db req now id t t') (hg : t.status ≠ .pending → db.DepsDone t)
    (hne : t'.status ≠ .pending) : db.DepsDone t := by
  have howned : ∀ {k}, t.ownerToken = k → k ≠ 0 → db.DepsDone t := by
    intro k htok hk
    have hrun := (hw.record id t hf).owned_iff.mp (htok ▸ hk)
    exact hg (by simp [hrun])
  cases h with
  | same => exact hg hne
  | heartbeat hreq hid htok hk => exact howned htok hk
  | claimed hreq hh hpick =>
      have hpick' := (pick_eq_some hpick).2.2
      rw [tryPick, Bool.and_eq_true] at hpick'
      exact requiresSatisfied_iff.mp hpick'.1
  | completed hreq hid htok hk hok => exact howned htok hk
  | failed hreq hid htok hk hok => exact howned htok hk

theorem Gated.step {db : TaskManagerDb} (hw : Wf db) (h : db.Gated) (req : Request)
    (now : Int) : (db.processReq req now).1.Gated := by
  intro id t' hf' hne
  cases hf : db.find id with
  | none => exact absurd (processReq_new req now hf hf') hne
  | some t =>
      obtain ⟨u, hu, hst⟩ := processReq_record req now hf
      obtain rfl := Option.some.inj (hu.symm.trans hf')
      have hdone := hst.depsDone hw hf (h id t hf) hne
      have hkeep := hdone.step hw req now
      unfold DepsDone at hkeep ⊢
      rwa [hst.spec_eq]

theorem gated_replay (calls : List Call) : (replay calls).Gated := by
  have hboth : Wf (replay calls) ∧ (replay calls).Gated :=
    replay_induction (I := fun db => Wf db ∧ db.Gated) ⟨Wf.empty, by simp [Gated, find]⟩
      (fun db req now h => ⟨h.1.processReq req now, h.2.step h.1 req now⟩) calls
  exact hboth.2

/-- The request that takes a task away from its owner finds its dependencies
done. -/
theorem depsDone_of_supersedes {past : List Call} {c : Call} {t : TaskId}
    (hs : supersedes t c (response past c)) :
    ∃ u, (replay past).find t = some u ∧ (replay past).DepsDone u := by
  have hw := wf_replay past
  rcases supersedes_iff.mp hs with ⟨r, k, -, hk⟩ | hfin
  · obtain ⟨r', u, -, hpick, -⟩ := (processReq_effect _ c.1 c.2).granted hw hk
    obtain ⟨-, hf, hpick'⟩ := pick_eq_some hpick
    rw [tryPick, Bool.and_eq_true] at hpick'
    exact ⟨u, hf, requiresSatisfied_iff.mp hpick'.1⟩
  · obtain ⟨u, -, hf, hne, -⟩ := finishes_inv hfin
    have hstatus := (hw.record t u hf).owned_iff.mp hne
    exact ⟨u, hf, gated_replay past t u hf (by simp [hstatus])⟩

/-- **Dependency gating.** In every reachable state, and from then on, what a
started or finished task requires is done; and it was done before the claim,
the take-over, the completion or the failure. -/
theorem dependency_gating (past : List Call) :
    (∀ id t, (replay past).find id = some t →
        t.status = .inProgress ∨ t.status = .done ∨ t.status = .failed →
        ∀ mid, (replay (past ++ mid)).DepsDone t)
    ∧ ∀ c id, supersedes id c (response past c) →
        ∃ t, (replay past).find id = some t ∧ (replay past).DepsDone t := by
  refine ⟨?_, fun c id hs => depsDone_of_supersedes hs⟩
  intro id t hf hstarted mid
  have hne : t.status ≠ .pending := by
    rcases hstarted with h | h | h <;> simp [h]
  exact (gated_replay past id t hf hne).run mid

end TaskManagerDb

end Tmgr
