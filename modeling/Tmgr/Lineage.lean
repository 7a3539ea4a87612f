import Tmgr.Finish
import Tmgr.Lib.Precedence
import Tmgr.Lib.Run

/-!
# Parent links

`parent_id` and `depth` are written by three creation paths. The children of
a `task_complete` and its synthesized merge are stored under the completed
task; a recursive `task_create` is stored under its creator. A `task_create`
without a creator is a root and gets depth 0, but the `parent_id` of the
client's spec is stored as it came. So the links form a forest rooted in
depth-0 tasks after exactly the histories in which no accepted top-level
create names a parent (`parents_form_forest_iff`).
-/

namespace Tmgr

open Precedence

namespace TaskManagerDb

/-- Task `id` is stored, and its parent is `parent`. -/
def ParentOf (db : TaskManagerDb) (id parent : TaskId) : Prop :=
  ∃ t, db.find id = some t ∧ t.spec.parentId = some parent

/-- The call `c` after `past` completes `parent`, and `id` is the merge task
synthesized for it. -/
def synthesizes (past : List Call) (c : Call) (id parent : TaskId) : Prop :=
  ∃ r resp, c.1 = .taskComplete r ∧ r.id = parent ∧ response past c = .taskComplete resp
    ∧ resp.errcode = .ok ∧ resp.mergeTaskId = some id

/-- `id` was synthesized in the history, on completion of `parent`. -/
def synthesized (calls : List Call) (id parent : TaskId) : Prop :=
  ∃ past c rest, calls = past ++ c :: rest ∧ synthesizes past c id parent

/-- The spec stored for `id` after `calls` places it in the forest: a root
has depth 0, any other task comes after its parent, one level below it or,
as a merge task, on its level. -/
structure Placed (calls : List Call) (id : TaskId) (spec : TaskSpec) : Prop where
  root : spec.parentId = none → spec.depth = 0
  child : ∀ parent, spec.parentId = some parent → ∃ u, (replay calls).find parent = some u
    ∧ Precedes (replay calls).taskOrder parent id
    ∧ (synthesized calls id parent ∧ spec.depth = u.spec.depth
      ∨ ¬synthesized calls id parent ∧ spec.depth = u.spec.depth + 1)

def Forest (calls : List Call) : Prop :=
  ∀ id t, (replay calls).find id = some t → Placed calls id t.spec

/-- If the request is a create without a creator that passes its checks, its
spec names no parent. -/
def rootsParentless (db : TaskManagerDb) : Request → Prop
  | .taskCreate r => r.creatorTask = none →
      (∀ dep ∈ r.spec.requiresDeps, dep ∈ db.tasks) → r.spec.parentId = none
  | _ => True

/-! ## Synthesized merge tasks -/

theorem synthesizes_reported {past : List Call} {c : Call} {id parent : TaskId}
    (h : synthesizes past c id parent) : id ∈ reportedIds (response past c) := by
  obtain ⟨r, resp, -, -, hresp, hok, hmerge⟩ := h
  rw [hresp]
  simp [reportedIds, hok, hmerge]

theorem synthesizes_fresh {past : List Call} {c : Call} {id parent : TaskId}
    (h : synthesizes past c id parent) : id ∉ (replay past).tasks :=
  (processReq_growsAsReported (wf_replay past) c.1 c.2).fresh id (synthesizes_reported h)

theorem synthesized_concat {calls : List Call} {c : Call} {id parent : TaskId} :
    synthesized (calls ++ [c]) id parent
      ↔ synthesized calls id parent ∨ synthesizes calls c id parent :=
  Runs.exists_split_concat (P := fun past c => synthesizes past c id parent)

theorem mem_tasks_concat {calls : List Call} {id : TaskId} (c : Call)
    (h : id ∈ (replay calls).tasks) : id ∈ (replay (calls ++ [c])).tasks := by
  obtain ⟨t, hf⟩ := mem_tasks_iff.mp h
  obtain ⟨t', hf', -⟩ := processReq_kept c.1 c.2 hf
  rw [replay_snoc]
  exact mem_tasks_iff.mpr ⟨t', hf'⟩

/-- What was synthesized is stored. -/
theorem synthesized_mem {calls : List Call} {id parent : TaskId}
    (h : synthesized calls id parent) : id ∈ (replay calls).tasks := by
  induction calls using List.reverseRecOn with
  | nil =>
      obtain ⟨past, c, rest, hsplit, -⟩ := h
      simp at hsplit
  | append_singleton calls c ih =>
      rcases synthesized_concat.mp h with hold | hnew
      · exact mem_tasks_concat c (ih hold)
      · rw [replay_snoc]
        exact ((processReq_growsAsReported (wf_replay calls) c.1 c.2).keys id).mpr
          (.inr (synthesizes_reported hnew))

/-- What a call adds, it reports. -/
theorem reported_of_added {calls : List Call} {c : Call} {id : TaskId} {t : TaskRecord}
    (hnew : (replay calls).find id = none) (hf : (replay (calls ++ [c])).find id = some t) :
    id ∈ reportedIds (response calls c) := by
  have hgrow := processReq_growsAsReported (wf_replay calls) c.1 c.2
  rw [replay_snoc] at hf
  exact ((hgrow.keys id).mp (mem_tasks_iff.mpr ⟨t, hf⟩)).resolve_left (find_eq_none.mp hnew)

/-! ## Old tasks keep their place -/

theorem placed_concat_old {calls : List Call} {c : Call} {id : TaskId} {spec : TaskSpec}
    (hmem : id ∈ (replay calls).tasks) :
    Placed (calls ++ [c]) id spec ↔ Placed calls id spec := by
  have hw := wf_replay calls
  have hsynth : ∀ parent, synthesized (calls ++ [c]) id parent ↔ synthesized calls id parent :=
    fun parent => synthesized_concat.trans
      (or_iff_left fun hnew => synthesizes_fresh hnew hmem)
  have hprec : ∀ parent, Precedes (replay (calls ++ [c])).taskOrder parent id
      ↔ Precedes (replay calls).taskOrder parent id := by
    intro parent
    rw [replay_snoc, processReq_taskOrder]
    exact precedes_append ((hw.keys id).mp hmem)
  constructor
  · rintro ⟨hroot, hchild⟩
    refine ⟨hroot, fun parent hp => ?_⟩
    obtain ⟨u', hu', hafter, hdepth⟩ := hchild parent hp
    rw [hprec] at hafter
    obtain ⟨u, hu⟩ := mem_tasks_iff.mp ((hw.keys parent).mpr hafter.left_mem)
    obtain ⟨u₁, hu₁, hspec⟩ := processReq_kept c.1 c.2 hu
    rw [replay_snoc] at hu'
    obtain rfl := Option.some.inj (hu₁.symm.trans hu')
    rw [hsynth, hspec] at hdepth
    exact ⟨u, hu, hafter, hdepth⟩
  · rintro ⟨hroot, hchild⟩
    refine ⟨hroot, fun parent hp => ?_⟩
    obtain ⟨u, hu, hafter, hdepth⟩ := hchild parent hp
    obtain ⟨u', hu', hspec⟩ := processReq_kept c.1 c.2 hu
    refine ⟨u', by rw [replay_snoc]; exact hu', (hprec parent).mpr hafter, ?_⟩
    rw [hsynth, hspec]
    exact hdepth

/-! ## New tasks get theirs -/

/-- The place of a new task under a task that was there before. -/
theorem placed_new {calls : List Call} {c : Call} {id parent : TaskId} {u : TaskRecord}
    {spec : TaskSpec} (hp : spec.parentId = some parent)
    (hu : (replay calls).find parent = some u) (hnew : id ∉ (replay calls).tasks)
    (hrep : id ∈ reportedIds (response calls c))
    (hdepth : synthesizes calls c id parent ∧ spec.depth = u.spec.depth
      ∨ ¬synthesizes calls c id parent ∧ spec.depth = u.spec.depth + 1) :
    Placed (calls ++ [c]) id spec := by
  have hw := wf_replay calls
  refine ⟨fun hnone => absurd (hp.symm.trans hnone) (by simp), fun parent' hp' => ?_⟩
  obtain rfl := Option.some.inj (hp.symm.trans hp')
  obtain ⟨u', hu', hspec⟩ := processReq_kept c.1 c.2 hu
  refine ⟨u', by rw [replay_snoc]; exact hu', ?_, ?_⟩
  · rw [replay_snoc, processReq_taskOrder]
    exact precedes_of_mem_append ((hw.keys parent).mp (mem_tasks_iff.mpr ⟨u, hu⟩))
      (fun h => hnew ((hw.keys id).mpr h)) hrep
  · rw [synthesized_concat, or_iff_right fun h => hnew (synthesized_mem h), hspec]
    exact hdepth

/-- The merge task of a completion is stored with the synthesized spec. -/
theorem completed_merge_spec {db : TaskManagerDb} (hw : Wf db) {r : TaskCompleteRequest}
    {u t : TaskRecord} {id : TaskId} (hown : db.ownedTask r.serial r.id r.token = .ok u)
    (hcap : u.spec.depth + 1 ≤ DEPTH_CAP ∨ r.newChildren = [])
    (hm : (db.handleTaskComplete r).2.mergeTaskId = some id) (hnew : id ∉ db.tasks)
    (hf : (db.handleTaskComplete r).1.find id = some t) : ∃ b, t.spec = mergeSpec u b := by
  obtain ⟨hu, -, -⟩ := ownedTask_eq_ok hown
  have h0 : 0 ≤ u.spec.depth + 1 := by
    have := (hw.record _ _ hu).depth_nonneg
    omega
  have hne : id ≠ r.id := by
    rintro rfl
    exact hnew (mem_tasks_iff.mpr ⟨u, hu⟩)
  rw [handleTaskComplete_eq hown hcap] at hm hf
  obtain ⟨b, -, hfind⟩ := (Wf.addChildren h0 hw hcap).find_addMerge hm
  rw [find_setTask, if_neg hne] at hf
  obtain rfl := Option.some.inj (hfind.symm.trans hf)
  exact ⟨b, rfl⟩

theorem completed_placed {calls : List Call} {r : TaskCompleteRequest} {now : Int}
    {id : TaskId} {t : TaskRecord} (hnew : (replay calls).find id = none)
    (hf : (replay (calls ++ [(.taskComplete r, now)])).find id = some t) :
    Placed (calls ++ [(.taskComplete r, now)]) id t.spec := by
  have hw := wf_replay calls
  have hgrow := processReq_growsAsReported hw (.taskComplete r) now
  have hnot : id ∉ (replay calls).tasks := find_eq_none.mp hnew
  have hrep := reported_of_added hnew hf
  rw [replay_snoc] at hf
  have hok : ((replay calls).handleTaskComplete r).2.errcode = .ok := by
    by_contra herr
    rw [reportedIds_of_error (show (response calls (.taskComplete r, now)).errcode ≠ .ok
      from herr)] at hrep
    cases hrep
  obtain ⟨u, hown, hcap⟩ := taskComplete_accepted hok
  obtain ⟨hu, -, -⟩ := ownedTask_eq_ok hown
  obtain ⟨hids, ⟨hlen, hchildren⟩, -⟩ :=
    hgrow.completed r ((replay calls).handleTaskComplete r).2 u rfl rfl hok hu
  have hmerge : synthesizes calls (.taskComplete r, now) id r.id
      ↔ ((replay calls).handleTaskComplete r).2.mergeTaskId = some id := by
    constructor
    · rintro ⟨r', resp, hreq, -, hresp, -, hm⟩
      obtain rfl := Response.taskComplete.inj hresp
      exact hm
    · exact fun hm => ⟨r, _, rfl, rfl, rfl, hok, hm⟩
  have hdisj := hgrow.nodup
  rw [hids] at hdisj
  have hrep' := hrep
  unfold response at hrep'
  rw [hids] at hrep'
  rcases List.mem_append.mp hrep' with hchild | hm
  · -- a child: one level below, and not the merge task
    obtain ⟨i, hi, hget⟩ := List.mem_iff_getElem.mp hchild
    have hi' : i < r.newChildren.length := hlen ▸ hi
    obtain ⟨cid, hcid, hfind⟩ := hchildren i r.newChildren[i] (List.getElem?_eq_getElem hi')
    obtain rfl : cid = id := by
      rw [List.getElem?_eq_getElem hi, hget] at hcid
      exact (Option.some.inj hcid).symm
    obtain rfl := Option.some.inj (hf.symm.trans hfind)
    refine placed_new rfl hu hnot hrep (.inr ⟨?_, rfl⟩)
    rw [hmerge]
    intro hm
    exact (List.nodup_append.mp hdisj).2.2 cid hchild cid (by simp [hm]) rfl
  · -- the merge task: the level of the task it merges
    have hm' : ((replay calls).handleTaskComplete r).2.mergeTaskId = some id := by
      simpa using hm
    obtain ⟨b, hspec⟩ := completed_merge_spec hw hown hcap hm' hnot hf
    rw [hspec]
    have hid := (hw.record _ _ hu).id_eq
    exact placed_new (by simp [mergeSpec, hid]) hu hnot hrep (.inl ⟨hmerge.mpr hm', rfl⟩)

/-- The spec an accepted create stores. -/
def createSpec (r : TaskCreateRequest) (d : Int) : TaskSpec :=
  { r.spec with depth := d, parentId := r.creatorTask <|> r.spec.parentId }

theorem handleTaskCreate_eq {db : TaskManagerDb} {r : TaskCreateRequest} {d : Int}
    (hd : db.createDepth r = .ok d) (hdeps : ∀ dep ∈ r.spec.requiresDeps, dep ∈ db.tasks) :
    db.handleTaskCreate r = ((db.addTask (createSpec r d)).1,
      { serial := r.serial, id := formatTaskId db.nextTaskSeq }) := by
  have hnone : r.spec.requiresDeps.find? (fun dep => dep ∉ db.tasks) = none :=
    List.find?_eq_none.mpr fun dep hdep => by simpa using hdeps dep hdep
  simp only [handleTaskCreate, hd, hnone]
  rfl

theorem taskCreate_accepted {db : TaskManagerDb} {r : TaskCreateRequest}
    (hok : (db.handleTaskCreate r).2.errcode = .ok) :
    ∃ d, db.createDepth r = .ok d ∧ ∀ dep ∈ r.spec.requiresDeps, dep ∈ db.tasks := by
  have he := effect_taskCreate db r 0
  generalize (db.handleTaskCreate r).1 = db' at he
  generalize (db.handleTaskCreate r).2 = p at he hok
  cases he with
  | refused herr hbusy => exact absurd hok herr
  | created hreq hdepth hdeps =>
      obtain rfl := Request.taskCreate.inj hreq
      exact ⟨_, hdepth, hdeps⟩

/-- The new task of an accepted create gets its place, unless it is a root
with a parent. -/
theorem created_placed_iff {calls : List Call} {r : TaskCreateRequest} (now : Int) {d : Int}
    (hd : (replay calls).createDepth r = .ok d)
    (hdeps : ∀ dep ∈ r.spec.requiresDeps, dep ∈ (replay calls).tasks) :
    Placed (calls ++ [(.taskCreate r, now)]) (formatTaskId (replay calls).nextTaskSeq)
        (createSpec r d)
      ↔ (r.creatorTask = none → r.spec.parentId = none) := by
  have hw := wf_replay calls
  have hnot := hw.unminted (Nat.le_refl _)
  have hnosynth : ∀ id parent, ¬synthesizes calls (.taskCreate r, now) id parent := by
    rintro id parent ⟨r', resp, hreq, -⟩
    cases hreq
  rcases createDepth_eq_ok hd with ⟨hcreator, rfl⟩ | ⟨creator, u, hcreator, hu, -, -, rfl, -⟩
  · constructor
    · intro hplaced _
      by_contra hne
      obtain ⟨parent, hp⟩ := Option.ne_none_iff_exists'.mp hne
      obtain ⟨u, hu, -, hdepth⟩ := hplaced.child parent (by simp [createSpec, hcreator, hp])
      rcases hdepth with ⟨hsynth, -⟩ | ⟨-, hdepth⟩
      · rcases synthesized_concat.mp hsynth with hold | hlast
        · exact hnot (synthesized_mem hold)
        · exact hnosynth _ _ hlast
      · have h0 := ((wf_replay _).record parent u hu).depth_nonneg
        have : (0 : Int) = u.spec.depth + 1 := hdepth
        omega
    · intro hroot
      have hnone : (createSpec r 0).parentId = none := by
        simp [createSpec, hcreator, hroot hcreator]
      exact ⟨fun _ => rfl, fun parent hp => absurd (hnone.symm.trans hp) (by simp)⟩
  · have hrep : formatTaskId (replay calls).nextTaskSeq
        ∈ reportedIds (response calls (.taskCreate r, now)) := by
      simp [response, processReq, handleTaskCreate_eq hd hdeps, reportedIds]
    have hplaced : Placed (calls ++ [(.taskCreate r, now)])
        (formatTaskId (replay calls).nextTaskSeq) (createSpec r (u.spec.depth + 1)) :=
      placed_new (by simp [createSpec, hcreator]) hu hnot hrep
        (.inr ⟨hnosynth _ _, rfl⟩)
    simp [hplaced, hcreator]

/-- The tasks a call adds get their places exactly when the call creates no
root with a parent. -/
theorem placed_added_iff (calls : List Call) (c : Call) :
    (∀ id t, (replay calls).find id = none → (replay (calls ++ [c])).find id = some t →
      Placed (calls ++ [c]) id t.spec) ↔ (replay calls).rootsParentless c.1 := by
  have hw := wf_replay calls
  obtain ⟨req, now⟩ := c
  have hgrow := processReq_growsAsReported hw req now
  -- a call that reports no id adds no task
  have hquiet : reportedIds (response calls (req, now)) = [] →
      ∀ id t, (replay calls).find id = none →
        (replay (calls ++ [(req, now)])).find id = some t →
        Placed (calls ++ [(req, now)]) id t.spec := by
    intro hnil id t hnew hf
    have hrep := reported_of_added hnew hf
    rw [hnil] at hrep
    cases hrep
  cases req with
  | taskCreate r =>
      by_cases hok : ((replay calls).handleTaskCreate r).2.errcode = .ok
      · obtain ⟨d, hd, hdeps⟩ := taskCreate_accepted hok
        have hfind : ∀ id, (replay (calls ++ [(.taskCreate r, now)])).find id
            = ((replay calls).addTask (createSpec r d)).1.find id := by
          intro id
          rw [replay_snoc]
          simp only [processReq, handleTaskCreate_eq hd hdeps]
          rfl
        simp only [hfind, hw.find_addTask]
        have hiff := created_placed_iff now hd hdeps
        have hnone := find_eq_none.mpr (hw.unminted (Nat.le_refl (replay calls).nextTaskSeq))
        constructor
        · intro h hcreator _
          exact hiff.mp (h _ _ hnone (if_pos rfl)) hcreator
        · intro h id t hnew hf
          split at hf
          · rename_i hid
            obtain rfl := Option.some.inj hf
            rw [hid]
            exact hiff.mpr fun hcreator => h hcreator hdeps
          · rw [hnew] at hf
            cases hf
      · refine iff_of_true (hquiet (reportedIds_of_error hok)) ?_
        intro hcreator hdeps
        have hd : (replay calls).createDepth r = .ok 0 := by simp [createDepth, hcreator]
        rw [handleTaskCreate_eq hd hdeps] at hok
        exact absurd rfl hok
  | taskComplete r =>
      exact iff_of_true (fun id t hnew hf => completed_placed hnew hf) trivial
  | _ => exact iff_of_true (hquiet (hgrow.other (by simp) (by simp))) trivial

/-! ## Histories -/

theorem forest_concat (calls : List Call) (c : Call) :
    Forest (calls ++ [c]) ↔ Forest calls ∧ (replay calls).rootsParentless c.1 := by
  rw [← placed_added_iff]
  constructor
  · intro h
    refine ⟨fun id t hf => ?_, fun id t _ hf => h id t hf⟩
    obtain ⟨t', hf', hspec⟩ := processReq_kept c.1 c.2 hf
    rw [← hspec]
    rw [← replay_snoc] at hf'
    exact (placed_concat_old (mem_tasks_iff.mpr ⟨t, hf⟩)).mp (h id t' hf')
  · rintro ⟨hold, hnew⟩ id t hf
    cases hf₀ : (replay calls).find id with
    | none => exact hnew id t hf₀ hf
    | some t₀ =>
        obtain ⟨t', hf', hspec⟩ := processReq_kept c.1 c.2 hf₀
        rw [← replay_snoc] at hf'
        obtain rfl := Option.some.inj (hf'.symm.trans hf)
        rw [hspec]
        exact (placed_concat_old (mem_tasks_iff.mpr ⟨t₀, hf₀⟩)).mpr (hold id t₀ hf₀)

theorem forest_iff (calls : List Call) :
    Forest calls
      ↔ ∀ past c rest, calls = past ++ c :: rest → (replay past).rootsParentless c.1 := by
  induction calls using List.reverseRecOn with
  | nil => simp [Forest, replay, find]
  | append_singleton calls c ih => rw [Runs.forall_split_concat, ← ih, forest_concat]

theorem Forest.precedes {calls : List Call} (h : Forest calls) {id parent : TaskId}
    (hp : (replay calls).ParentOf id parent) :
    Precedes (replay calls).taskOrder parent id := by
  obtain ⟨t, hf, hparent⟩ := hp
  obtain ⟨-, -, hprec, -⟩ := (h id t hf).child parent hparent
  exact hprec

/-- Following the parent links from any task ends at a depth-0 root. -/
theorem Forest.exists_root {calls : List Call} (h : Forest calls) {id : TaskId}
    (hmem : id ∈ (replay calls).tasks) :
    ∃ root t, Relation.ReflTransGen (replay calls).ParentOf id root
      ∧ (replay calls).find root = some t ∧ t.spec.parentId = none ∧ t.spec.depth = 0 := by
  have hw := wf_replay calls
  obtain ⟨root, hroot, hreach, hend⟩ :=
    exists_terminal (r := (replay calls).ParentOf) (fun _ _ hp => h.precedes hp)
      ((hw.keys id).mp hmem)
  obtain ⟨t, hf⟩ := mem_tasks_iff.mp ((hw.keys root).mpr hroot)
  have hnone : t.spec.parentId = none := by
    cases hp : t.spec.parentId with
    | none => rfl
    | some parent => exact absurd ⟨t, hf, hp⟩ (hend parent)
  exact ⟨root, t, hreach, hf, hnone, (h root t hf).root hnone⟩

/-- **Parent links form a forest rooted in depth-0 tasks**, without orphans
or cycles, after exactly those histories in which no accepted create without
a creator names a parent in its spec. -/
theorem parents_form_forest_iff (calls : List Call) :
    ((∀ id t, (replay calls).find id = some t →
        (t.spec.parentId = none → t.spec.depth = 0)
        ∧ ∀ parent, t.spec.parentId = some parent →
            ∃ u, (replay calls).find parent = some u
              ∧ Precedes (replay calls).taskOrder parent id
              ∧ (synthesized calls id parent ∧ t.spec.depth = u.spec.depth
                ∨ ¬synthesized calls id parent ∧ t.spec.depth = u.spec.depth + 1))
      ∧ (∀ id, ¬Relation.TransGen (replay calls).ParentOf id id)
      ∧ ∀ id ∈ (replay calls).tasks, ∃ root t,
          Relation.ReflTransGen (replay calls).ParentOf id root
          ∧ (replay calls).find root = some t ∧ t.spec.parentId = none ∧ t.spec.depth = 0)
    ↔ ∀ past c rest, calls = past ++ c :: rest → (replay past).rootsParentless c.1 := by
  rw [← forest_iff]
  constructor
  · rintro ⟨hplaced, -⟩ id t hf
    exact ⟨(hplaced id t hf).1, (hplaced id t hf).2⟩
  · intro h
    refine ⟨fun id t hf => ⟨(h id t hf).root, (h id t hf).child⟩, ?_, fun id => h.exists_root⟩
    exact acyclic fun _ _ hp => h.precedes hp

/-- A client creates a root task under a parent nobody created. -/
def orphanRoot : List Call :=
  [(.taskCreate { spec := { parentId := some "t/9999" } }, 0)]

theorem parents_not_always_stored :
    ¬∀ (calls : List Call) (id : TaskId) (t : TaskRecord) (parent : TaskId),
      (replay calls).find id = some t → t.spec.parentId = some parent →
      parent ∈ (replay calls).tasks := by
  intro h
  have hstored := h orphanRoot "t/0001"
    { id := "t/0001", spec := { parentId := some "t/9999" } } "t/9999"
    (by decide +kernel) rfl
  revert hstored
  decide +kernel

end TaskManagerDb

end Tmgr
