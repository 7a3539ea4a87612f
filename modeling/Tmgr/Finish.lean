import Tmgr.Fencing

/-!
# Finishing a task, and what that adds to the store

A task is finished by one accepted completion or failure. Its record is final
from then on (`RecordStep.finished`), so a second one is refused and no claim
returns the task. The store grows by the ids a response reports and by
nothing else: `GrowsAsReported` relates a request, the two states around it
and the response.
-/

namespace Tmgr

namespace TaskManagerDb

/-- The ids of the tasks a response says were created. -/
def reportedIds : Response → List TaskId
  | .taskCreate p => if p.errcode = .ok then [p.id] else []
  | .taskComplete p => if p.errcode = .ok then p.childIds ++ p.mergeTaskId.toList else []
  | _ => []

/-- Child `i` of the completed task `t` is stored under the `i`-th reported
id: pending, with the requested spec up to depth and parent. -/
def ChildrenStored (db : TaskManagerDb) (r : TaskCompleteRequest) (t : TaskRecord)
    (p : TaskCompleteResponse) : Prop :=
  p.childIds.length = r.newChildren.length
    ∧ ∀ (i : Nat) spec, r.newChildren[i]? = some spec → ∃ cid, p.childIds[i]? = some cid
      ∧ db.find cid = some { id := cid, status := .pending,
                             spec := childSpec r.id (t.spec.depth + 1) spec }

/-- A merge task is reported exactly for an implement task that left a
branch, and it is stored pending. -/
def MergeStored (db : TaskManagerDb) (r : TaskCompleteRequest) (t : TaskRecord)
    (p : TaskCompleteResponse) : Prop :=
  (p.mergeTaskId.isSome ↔ t.spec.type = .implement ∧ ∃ b, r.resultBranch = some b ∧ b ≠ "")
    ∧ ∀ mid, p.mergeTaskId = some mid → ∃ m, db.find mid = some m ∧ m.status = .pending
      ∧ m.spec.type = .merge ∧ m.spec.requiresDeps = [r.id]
      ∧ m.spec.implementBranchSha = r.resultBranch ∧ m.spec.depth = t.spec.depth

/-- The store lost nothing and grew by exactly what the response reports. -/
structure GrowsAsReported (db : TaskManagerDb) (req : Request) (db' : TaskManagerDb)
    (resp : Response) : Prop where
  kept : ∀ id t, db.find id = some t → ∃ t', db'.find id = some t' ∧ t'.spec = t.spec
  order : db'.taskOrder = db.taskOrder ++ reportedIds resp
  keys : ∀ id, id ∈ db'.tasks ↔ id ∈ db.tasks ∨ id ∈ reportedIds resp
  fresh : ∀ id ∈ reportedIds resp, id ∉ db.tasks
  nodup : (reportedIds resp).Nodup
  created : ∀ r p, req = .taskCreate r → resp = .taskCreate p → p.errcode = .ok →
    reportedIds resp = [p.id] ∧ ∃ t, db'.find p.id = some t ∧ t.status = .pending
      ∧ t.spec = { r.spec with depth := t.spec.depth, parentId := t.spec.parentId }
  completed : ∀ r p t, req = .taskComplete r → resp = .taskComplete p → p.errcode = .ok →
    db.find r.id = some t → reportedIds resp = p.childIds ++ p.mergeTaskId.toList
      ∧ ChildrenStored db' r t p ∧ MergeStored db' r t p
  other : (∀ r, req ≠ .taskCreate r) → (∀ r, req ≠ .taskComplete r) → reportedIds resp = []

/-! ## The creation loops -/

theorem addChildren_taskOrder (parent : TaskId) (d : Int) (specs : List TaskSpec)
    (db : TaskManagerDb) :
    (db.addChildren parent d specs).1.taskOrder
      = db.taskOrder ++ (db.addChildren parent d specs).2 := by
  induction specs generalizing db with
  | nil => simp [addChildren]
  | cons spec specs ih =>
      rw [addChildren_cons, ih, addTask_taskOrder, List.append_assoc]
      rfl

theorem addMerge_taskOrder (db : TaskManagerDb) (t : TaskRecord) (branch : Option String) :
    (db.addMerge t branch).1.taskOrder
      = db.taskOrder ++ (db.addMerge t branch).2.toList := by
  cases branch with
  | none => simp [addMerge]
  | some b =>
      simp only [addMerge]
      split
      · rw [addTask_taskOrder]
        rfl
      · simp

theorem addChildren_length (parent : TaskId) (d : Int) (specs : List TaskSpec)
    (db : TaskManagerDb) : (db.addChildren parent d specs).2.length = specs.length := by
  induction specs generalizing db with
  | nil => rfl
  | cons spec specs ih => rw [addChildren_cons, List.length_cons, ih, List.length_cons]

theorem Wf.find_addChildren {db : TaskManagerDb} (hw : Wf db) (parent : TaskId) {d : Int}
    (h0 : 0 ≤ d) {specs : List TaskSpec} (hcap : d ≤ DEPTH_CAP ∨ specs = []) {i : Nat}
    {spec : TaskSpec} (hi : specs[i]? = some spec) :
    ∃ cid, (db.addChildren parent d specs).2[i]? = some cid
      ∧ (db.addChildren parent d specs).1.find cid
        = some { id := cid, status := .pending, spec := childSpec parent d spec } := by
  induction specs generalizing db i with
  | nil => simp at hi
  | cons head specs ih =>
      have hle : d ≤ DEPTH_CAP := hcap.resolve_right (by simp)
      cases i with
      | zero =>
          obtain rfl : head = spec := by simpa using hi
          refine ⟨formatTaskId db.nextTaskSeq, rfl, ?_⟩
          exact (addChildren_grows parent d specs _).find_old
            ((hw.find_addTask _ _).trans (if_pos rfl))
      | succ i => exact ih (hw.addTask h0 hle) (Or.inl hle) hi

theorem addMerge_isSome (db : TaskManagerDb) (t : TaskRecord) (branch : Option String) :
    (db.addMerge t branch).2.isSome
      ↔ t.spec.type = .implement ∧ ∃ b, branch = some b ∧ b ≠ "" := by
  cases branch with
  | none => simp [addMerge]
  | some b =>
      simp only [addMerge]
      split
      · rename_i hcond
        simp [hcond.1, hcond.2]
      · rename_i hcond
        simpa using hcond

theorem Wf.find_addMerge {db : TaskManagerDb} (hw : Wf db) {t : TaskRecord}
    {branch : Option String} {mid : TaskId} (hm : (db.addMerge t branch).2 = some mid) :
    ∃ b, branch = some b ∧ (db.addMerge t branch).1.find mid
      = some { id := mid, status := .pending, spec := mergeSpec t b } := by
  cases branch with
  | none => simp [TaskManagerDb.addMerge] at hm
  | some b =>
      simp only [TaskManagerDb.addMerge] at hm ⊢
      split at hm
      · rename_i hcond
        obtain rfl : formatTaskId db.nextTaskSeq = mid := Option.some.inj hm
        refine ⟨b, rfl, ?_⟩
        rw [if_pos hcond]
        exact (hw.find_addTask _ _).trans (if_pos rfl)
      · cases hm

/-! ## One request -/

theorem spawn_taskOrder (db : TaskManagerDb) (r : TaskCompleteRequest) (t : TaskRecord) :
    (db.spawn r t).taskOrder = db.taskOrder
      ++ ((db.addChildren t.id (t.spec.depth + 1) r.newChildren).2
        ++ ((db.addChildren t.id (t.spec.depth + 1) r.newChildren).1.addMerge t
          r.resultBranch).2.toList) := by
  rw [spawn, addMerge_taskOrder, addChildren_taskOrder, List.append_assoc]

theorem reportedIds_of_error {resp : Response} (h : resp.errcode ≠ .ok) :
    reportedIds resp = [] := by
  cases resp with
  | taskCreate p => exact if_neg h
  | taskComplete p => exact if_neg h
  | _ => rfl

/-- The creation order grows by the reported ids, in the reported order. -/
theorem processReq_taskOrder (db : TaskManagerDb) (req : Request) (now : Int) :
    (db.processReq req now).1.taskOrder
      = db.taskOrder ++ reportedIds (db.processReq req now).2 := by
  have he := processReq_effect db req now
  generalize hdb : (db.processReq req now).1 = db' at he ⊢
  generalize hresp : (db.processReq req now).2 = resp at he ⊢
  cases he with
  | refused herr => rw [reportedIds_of_error herr, List.append_nil]
  | created hreq hdepth hdeps => exact addTask_taskOrder db _
  | @completed r t p hreq hown hcap hok =>
      have heq : p = (db.handleTaskComplete r).2 := by
        rw [hreq] at hresp
        exact (Response.taskComplete.inj hresp).symm
      rw [handleTaskComplete_eq hown hcap] at heq
      rw [heq, setTask_taskOrder, spawn_taskOrder]
      rfl
  | listed hreq => exact (List.append_nil _).symm
  | _ => exact (List.append_nil _).symm

theorem processReq_kept {db : TaskManagerDb} {id : TaskId} {t : TaskRecord} (req : Request)
    (now : Int) (hf : db.find id = some t) :
    ∃ t', (db.processReq req now).1.find id = some t' ∧ t'.spec = t.spec := by
  obtain ⟨t', hf', hst⟩ := processReq_record req now hf
  exact ⟨t', hf', hst.spec_eq⟩

/-! ## What a completion stores -/

theorem taskComplete_accepted {db : TaskManagerDb} {r : TaskCompleteRequest}
    (hok : (db.handleTaskComplete r).2.errcode = .ok) :
    ∃ t, db.ownedTask r.serial r.id r.token = .ok t
      ∧ (t.spec.depth + 1 ≤ DEPTH_CAP ∨ r.newChildren = []) := by
  have he := effect_taskComplete db r 0
  generalize (db.handleTaskComplete r).1 = db' at he
  generalize (db.handleTaskComplete r).2 = p at he hok
  cases he with
  | refused herr => exact absurd hok herr
  | completed hreq hown hcap hresp =>
      obtain rfl := Request.taskComplete.inj hreq
      exact ⟨_, hown, hcap⟩

theorem completed_stored {db : TaskManagerDb} (hw : Wf db) {r : TaskCompleteRequest}
    {t : TaskRecord} (hown : db.ownedTask r.serial r.id r.token = .ok t)
    (hcap : t.spec.depth + 1 ≤ DEPTH_CAP ∨ r.newChildren = []) :
    ChildrenStored (db.handleTaskComplete r).1 r t (db.handleTaskComplete r).2
      ∧ MergeStored (db.handleTaskComplete r).1 r t (db.handleTaskComplete r).2 := by
  obtain ⟨hf, -, -⟩ := ownedTask_eq_ok hown
  have hrec := hw.record _ _ hf
  have h0 : 0 ≤ t.spec.depth + 1 := by
    have := hrec.depth_nonneg
    omega
  have hwc : Wf (db.addChildren t.id (t.spec.depth + 1) r.newChildren).1 :=
    Wf.addChildren h0 hw hcap
  have hgrow := addChildren_grows t.id (t.spec.depth + 1) r.newChildren db
  -- a pending record is not the one being completed
  have hother : ∀ {id u}, (db.spawn r t).find id = some u → u.status = .pending →
      ((db.spawn r t).setTask r.id (completeRecord r t)).find id = some u := by
    intro id u hu hpend
    have hne : id ≠ r.id := by
      rintro rfl
      have hold := (spawn_grows db r t).find_old hf
      obtain rfl := Option.some.inj (hu.symm.trans hold)
      have hidle : u.ownerToken = 0 := by
        by_contra hne
        have hrun := hrec.owned_iff.mp hne
        rw [hpend] at hrun
        cases hrun
      obtain ⟨-, htok, hk⟩ := ownedTask_eq_ok hown
      exact hk (htok ▸ hidle)
    rw [find_setTask, if_neg hne, hu]
  rw [handleTaskComplete_eq hown hcap]
  refine ⟨⟨addChildren_length _ _ _ _, ?_⟩, addMerge_isSome _ _ _, ?_⟩
  · intro i spec hi
    obtain ⟨cid, hcid, hfind⟩ := hw.find_addChildren t.id h0 hcap hi
    refine ⟨cid, hcid, hother ?_ rfl⟩
    rw [← hrec.id_eq]
    exact (addMerge_grows _ t r.resultBranch).find_old hfind
  · intro mid hmid
    obtain ⟨b, hb, hfind⟩ := hwc.find_addMerge hmid
    refine ⟨_, hother hfind rfl, rfl, rfl, ?_, ?_, rfl⟩
    · simp [mergeSpec, hrec.id_eq]
    · simp [mergeSpec, hb]

/-- Every request grows the store as its response reports. -/
theorem processReq_growsAsReported {db : TaskManagerDb} (hw : Wf db) (req : Request)
    (now : Int) :
    GrowsAsReported db req (db.processReq req now).1 (db.processReq req now).2 := by
  have hw' := hw.processReq req now
  have horder := processReq_taskOrder db req now
  have hnodup : (db.taskOrder ++ reportedIds (db.processReq req now).2).Nodup := by
    rw [← horder, hw'.order]
    exact mintedIds_nodup _
  obtain ⟨-, hnew, hdisj⟩ := List.nodup_append.mp hnodup
  have he := processReq_effect db req now
  refine ⟨fun id t hf => processReq_kept req now hf, horder, ?_, ?_, hnew, ?_, ?_, ?_⟩
  · intro id
    rw [hw'.keys, horder, List.mem_append, hw.keys]
  · intro id hid hmem
    exact hdisj id ((hw.keys id).mp hmem) id hid rfl
  · rintro r p rfl hp hok
    rw [hp] at he ⊢
    refine ⟨if_pos hok, ?_⟩
    generalize (db.processReq (.taskCreate r) now).1 = db' at he ⊢
    cases he with
    | refused herr => exact absurd hok herr
    | created hreq hdepth hdeps =>
        obtain rfl := Request.taskCreate.inj hreq
        exact ⟨_, (hw.find_addTask _ _).trans (if_pos rfl), rfl, rfl⟩
  · rintro r p t rfl hp hok hf
    rw [hp]
    refine ⟨if_pos hok, ?_⟩
    obtain rfl : (db.handleTaskComplete r).2 = p := Response.taskComplete.inj hp
    obtain ⟨u, hown, hcap⟩ := taskComplete_accepted hok
    obtain rfl := Option.some.inj ((ownedTask_eq_ok hown).1.symm.trans hf)
    exact completed_stored hw hown hcap
  · intro hcreate hcomplete
    generalize (db.processReq req now).1 = db' at he
    generalize (db.processReq req now).2 = resp at he ⊢
    cases he with
    | refused herr => exact reportedIds_of_error herr
    | @created r _ hreq hdepth hdeps => exact absurd hreq (hcreate r)
    | @completed r _ _ hreq hown hcap hok => exact absurd hreq (hcomplete r)
    | _ => rfl

/-! ## Histories -/

/-- A finished record is final. -/
theorem finished_run {past : List Call} {t : TaskId} {u : TaskRecord}
    (hf : (replay past).find t = some u) (hfin : u.status = .done ∨ u.status = .failed)
    (mid : List Call) : (replay (past ++ mid)).find t = some u := by
  refine replay_append_induction (I := fun db => db.find t = some u) hf ?_
  intro m₁ c _ _ hu
  obtain ⟨u', hu', hst⟩ := processReq_record c.1 c.2 hu
  obtain rfl := hst.finished (wf_replay _) hu hfin
  exact hu'

/-- A finished task is neither claimed nor finished. -/
theorem finished_not_superseded {past : List Call} {t : TaskId} {u : TaskRecord}
    (hf : (replay past).find t = some u) (hfin : u.status = .done ∨ u.status = .failed)
    (c : Call) : ¬supersedes t c (response past c) := by
  have hw := wf_replay past
  intro hs
  rcases supersedes_iff.mp hs with ⟨r, k, -, hg⟩ | hs
  · obtain ⟨r', v, -, hpick, -⟩ := (processReq_effect _ c.1 c.2).granted hw hg
    obtain ⟨-, hv, hpick'⟩ := pick_eq_some hpick
    obtain rfl := Option.some.inj (hf.symm.trans hv)
    rcases hfin with h | h <;> simp [tryPick, h] at hpick'
  · obtain ⟨v, -, hv, hne, -⟩ := finishes_inv hs
    obtain rfl := Option.some.inj (hf.symm.trans hv)
    have hrun := (hw.record t u hf).owned_iff.mp hne
    rcases hfin with h | h <;> rw [h] at hrun <;> cases hrun

/-- **Exactly-once finish and conservation of work.** The call that finishes
a task leaves its record done or failed for good: no later call finishes it
again or claims it. And every call of a history grows the store by the tasks
its response reports. -/
theorem finish_once_and_conservation :
    (∀ past c t, finishes t c (response past c) →
      ∃ u, (u.status = .done ∨ u.status = .failed)
        ∧ ∀ mid, (replay (past ++ c :: mid)).find t = some u
          ∧ ∀ c', ¬finishes t c' (response (past ++ c :: mid) c')
            ∧ ∀ k, grantedClaim (response (past ++ c :: mid) c') ≠ some (t, k))
    ∧ ∀ past c, GrowsAsReported (replay past) c.1 (replay (past ++ [c])) (response past c) := by
  refine ⟨?_, ?_⟩
  · intro past c t hs
    obtain ⟨-, u, -, -, hu, -, hfin⟩ := finishes_inv hs
    refine ⟨u, hfin, fun mid => ?_⟩
    rw [← replay_snoc] at hu
    have hf := finished_run hu hfin mid
    rw [← replay_append_cons] at hf
    refine ⟨hf, fun c' => ⟨fun hs' => ?_, fun k hk => ?_⟩⟩
    · exact finished_not_superseded hf hfin c' (supersedes_iff.mpr (Or.inr hs'))
    · obtain ⟨r, -, hreq, -⟩ := (processReq_effect _ c'.1 c'.2).granted (wf_replay _) hk
      exact finished_not_superseded hf hfin c' (supersedes_iff.mpr (Or.inl ⟨r, k, hreq, hk⟩))
  · intro past c
    rw [replay_snoc]
    exact processReq_growsAsReported (wf_replay past) c.1 c.2

end TaskManagerDb

end Tmgr
