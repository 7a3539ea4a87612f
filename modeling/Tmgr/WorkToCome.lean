import Mathlib.Algebra.Order.BigOperators.Group.List
import Tmgr.CheckInvariants

/-!
# The work that is still to come

A completion may create tasks, whose completions may create tasks in turn. Where
each kind of task has a weight that covers all that follows from one of its
completions (`Within`), the weights of the tasks that are not done bound the
work that is still to come: a request spends what it creates, and only
`task_create` adds to it (`spawned_add_workToCome`). So a history creates no more
tasks by completions than its creations allow.
-/

namespace Tmgr

namespace PaxosTests

open TaskManagerDb

variable (weight : TaskType → Nat)

/-- The completion `r` of a task of the kind `type` creates no more than the
weight of that kind, with all that follows. -/
def Within (type : TaskType) (r : TaskCompleteRequest) : Prop :=
  (r.newChildren.map fun spec => 1 + weight spec.type).sum
      + (if type = .implement ∧ r.resultBranch.getD "" ≠ "" then 1 + weight .merge else 0)
    ≤ weight type

/-- What may still follow from the task `id`. -/
def toCome (db : TaskManagerDb) (id : TaskId) : Nat :=
  match db.find id with
  | some t => if t.status = .done then 0 else weight t.spec.type
  | none => 0

def workToCome (db : TaskManagerDb) : Nat := (db.taskOrder.map (toCome weight db)).sum

/-- What a request adds to the work to come. -/
def allowance : Request → Nat
  | .taskCreate r => weight r.spec.type
  | _ => 0

/-- The completions of `db` are within their weights. -/
def CompletesWithin (db : TaskManagerDb) (req : Request) : Prop :=
  ∀ r t, req = .taskComplete r → db.find r.id = some t → Within weight t.spec.type r

variable {weight}

/-! ## One request -/

theorem toCome_of_done {db : TaskManagerDb} {id : TaskId} {t : TaskRecord}
    (hf : db.find id = some t) (hdone : t.status = .done) : toCome weight db id = 0 := by
  simp [toCome, hf, hdone]

theorem toCome_of_pending {db : TaskManagerDb} {id : TaskId} {t : TaskRecord}
    (hf : db.find id = some t) (hpend : t.status = .pending) :
    toCome weight db id = weight t.spec.type := by
  simp [toCome, hf, hpend]

/-- A stored task is done for good, and keeps its kind. -/
theorem toCome_le {db : TaskManagerDb} (hw : Wf db) (req : Request) (now : Int) {id : TaskId}
    (hid : id ∈ db.taskOrder) :
    toCome weight (db.processReq req now).1 id ≤ toCome weight db id := by
  obtain ⟨t, ht⟩ := mem_tasks_iff.mp ((hw.keys id).mpr hid)
  obtain ⟨t', ht', hst⟩ := processReq_record req now ht
  simp only [toCome, ht, ht', hst.spec_eq]
  by_cases hdone : t.status = .done
  · rw [hst.finished hw ht (.inl hdone)]
  · rw [if_neg hdone]
    split <;> simp

variable (weight) in
theorem sum_toCome_le {db : TaskManagerDb} (hw : Wf db) (req : Request) (now : Int)
    {ids : List TaskId} (hids : ids ⊆ db.taskOrder) :
    (ids.map (toCome weight (db.processReq req now).1)).sum ≤ (ids.map (toCome weight db)).sum :=
  List.sum_le_sum fun _ hid => toCome_le hw req now (hids hid)

theorem workToCome_eq {db : TaskManagerDb} (hw : Wf db) (req : Request) (now : Int) :
    workToCome weight (db.processReq req now).1
      = (db.taskOrder.map (toCome weight (db.processReq req now).1)).sum
        + ((reportedIds (db.processReq req now).2).map
            (toCome weight (db.processReq req now).1)).sum := by
  rw [workToCome, (processReq_growsAsReported hw req now).order, List.map_append, List.sum_append]

/-- The tasks that a completion stores weigh what its request says. -/
theorem sum_toCome_children {db : TaskManagerDb} {r : TaskCompleteRequest} {t : TaskRecord}
    {p : TaskCompleteResponse} (hstored : ChildrenStored db r t p) :
    (p.childIds.map (toCome weight db)).sum = (r.newChildren.map fun spec => weight spec.type).sum := by
  congr 1
  refine List.ext_getElem? fun i => ?_
  rw [List.getElem?_map, List.getElem?_map]
  cases hi : r.newChildren[i]? with
  | none =>
      have hout : r.newChildren.length ≤ i := List.getElem?_eq_none_iff.mp hi
      rw [List.getElem?_eq_none (hstored.1.symm ▸ hout), Option.map_none, Option.map_none]
  | some spec =>
      obtain ⟨cid, hcid, hf⟩ := hstored.2 i spec hi
      rw [hcid, Option.map_some, Option.map_some, toCome_of_pending hf rfl]
      rfl

variable (weight) in
theorem sum_toCome_merge {db : TaskManagerDb} {r : TaskCompleteRequest} {t : TaskRecord}
    {p : TaskCompleteResponse} (hstored : MergeStored db r t p) :
    p.mergeTaskId.toList.length + (p.mergeTaskId.toList.map (toCome weight db)).sum
      = if t.spec.type = .implement ∧ r.resultBranch.getD "" ≠ "" then 1 + weight .merge else 0 := by
  have hiff : (t.spec.type = .implement ∧ r.resultBranch.getD "" ≠ "")
      ↔ p.mergeTaskId.isSome = true := by
    rw [hstored.1]
    cases r.resultBranch <;> simp
  cases hmid : p.mergeTaskId with
  | none => simp [hiff, hmid]
  | some mid =>
      obtain ⟨m, hm, hpend, htype, -⟩ := hstored.2 mid hmid
      rw [if_pos (hiff.mpr (by simp [hmid]))]
      simp [toCome_of_pending hm hpend, htype]

/-- What an accepted completion creates is paid by the task it completes. -/
theorem spawned_add_completed {db : TaskManagerDb} (hw : Wf db) {r : TaskCompleteRequest}
    {t : TaskRecord} {now : Int} (hok : (db.handleTaskComplete r).2.errcode = .ok)
    (hf : db.find r.id = some t) (hwithin : Within weight t.spec.type r) :
    spawned (db.processReq (.taskComplete r) now).2
        + workToCome weight (db.processReq (.taskComplete r) now).1
      ≤ workToCome weight db := by
  have hg := processReq_growsAsReported hw (.taskComplete r) now
  obtain ⟨hids, hchildren, hmerge⟩ := hg.completed r _ t rfl rfl hok hf
  have hspawned : spawned (db.processReq (.taskComplete r) now).2
      = (reportedIds (db.processReq (.taskComplete r) now).2).length := rfl
  -- the completed task had its weight, and has none left
  obtain ⟨u, hown, hcap⟩ := taskComplete_accepted hok
  obtain ⟨hu, htoken, hzero⟩ := ownedTask_eq_ok hown
  obtain rfl : t = u := Option.some.inj (hf.symm.trans hu)
  have hrunning : t.status = .inProgress :=
    ((hw.record _ _ hf).owned_iff).mp (htoken ▸ hzero)
  have hbefore : toCome weight db r.id = weight t.spec.type := by
    simp [toCome, hf, hrunning]
  have hafter : toCome weight (db.processReq (.taskComplete r) now).1 r.id = 0 := by
    have hdone : (db.processReq (.taskComplete r) now).1.find r.id = some (completeRecord r t) := by
      show (db.handleTaskComplete r).1.find r.id = _
      rw [handleTaskComplete_eq hown hcap, find_setTask, if_pos rfl]
    exact toCome_of_done hdone rfl
  have hmem : r.id ∈ db.taskOrder := (hw.keys r.id).mp (mem_tasks_iff.mpr ⟨t, hf⟩)
  have hrest := sum_toCome_le weight hw (.taskComplete r) now
    (List.erase_subset : db.taskOrder.erase r.id ⊆ db.taskOrder)
  have hold := List.sum_map_erase (toCome weight db) hmem
  have hnew := List.sum_map_erase (toCome weight (db.processReq (.taskComplete r) now).1) hmem
  -- and what it creates weighs at most that
  have hsplit : (r.newChildren.map fun spec => 1 + weight spec.type).sum
      = r.newChildren.length + (r.newChildren.map fun spec => weight spec.type).sum := by
    simp [List.sum_map_add]
  have hcost := sum_toCome_merge weight hmerge
  rw [Within, hsplit, ← hcost, ← sum_toCome_children hchildren, ← hchildren.1] at hwithin
  rw [hspawned, workToCome_eq hw, workToCome, hids, List.length_append, List.map_append,
    List.sum_append]
  omega

variable (weight) in
/-- A request spends what its completion creates, and adds its allowance. -/
theorem spawned_add_workToCome {db : TaskManagerDb} (hw : Wf db) {req : Request} (now : Int)
    (hwithin : CompletesWithin weight db req) :
    spawned (db.processReq req now).2 + workToCome weight (db.processReq req now).1
      ≤ workToCome weight db + allowance weight req := by
  have hg := processReq_growsAsReported hw req now
  have hsum := sum_toCome_le weight hw req now (List.Subset.refl db.taskOrder)
  have hnone : reportedIds (db.processReq req now).2 = [] →
      workToCome weight (db.processReq req now).1 ≤ workToCome weight db := by
    intro hrep
    rw [workToCome_eq hw, hrep]
    simpa [workToCome] using hsum
  cases req with
  | taskCreate r =>
      have hspawned : spawned (db.processReq (.taskCreate r) now).2 = 0 := rfl
      by_cases hok : (db.handleTaskCreate r).2.errcode = .ok
      · obtain ⟨hids, t, ht, hpend, hspec⟩ := hg.created r _ rfl rfl hok
        have htype : t.spec.type = r.spec.type := by rw [hspec]
        rw [hspawned, workToCome_eq hw, hids, List.map_singleton, List.sum_singleton,
          toCome_of_pending ht hpend, htype, allowance, workToCome]
        omega
      · have := hnone (if_neg hok)
        omega
  | taskComplete r =>
      by_cases hok : (db.handleTaskComplete r).2.errcode = .ok
      · obtain ⟨t, hown, -⟩ := taskComplete_accepted hok
        have hf := (ownedTask_eq_ok hown).1
        exact spawned_add_completed hw hok hf (hwithin r t rfl hf)
      · have hrep : reportedIds (db.processReq (.taskComplete r) now).2 = [] := if_neg hok
        have hspawned : spawned (db.processReq (.taskComplete r) now).2 = 0 :=
          congrArg List.length hrep
        have := hnone hrep
        omega
  | _ =>
      have hrep := hg.other (by simp) (by simp)
      have := hnone hrep
      exact (Nat.zero_add _).trans_le (this.trans (Nat.le_add_right _ _))

/-! ## Histories -/

variable (weight) in
/-- A history of completions within their weights creates by them no more than
its creations allow. -/
theorem spawned_execute (values : List DecidedValue)
    (hwithin : ∀ past dv rest, values = past ++ dv :: rest →
      CompletesWithin weight (execute past).1 dv.req) :
    ((execute values).2.map spawned).sum + workToCome weight (execute values).1
      ≤ (values.map fun dv => allowance weight dv.req).sum := by
  induction values using List.reverseRecOn with
  | nil => exact le_rfl
  | append_singleton values dv ih =>
      obtain ⟨hpast, hlast⟩ := Runs.forall_split_concat.mp hwithin
      have hw : Wf (execute values).1 := by
        rw [execute_fst]
        exact wf_replay _
      have hone := spawned_add_workToCome weight hw dv.nowUnix hlast
      have hsum := ih hpast
      rw [execute_snoc]
      simp only [List.map_append, List.map_singleton, List.sum_append, List.sum_singleton]
      omega

end PaxosTests

end Tmgr
