import Mathlib.Data.Finset.Card
import Tmgr.Linearizable
import Tmgr.Finish
import Tmgr.Netsim

/-!
# What the simulation tests check

`check_invariants` compares the databases of all replicas with that of the
replica that has applied most. A replica may not be ahead, may not know a task
that the other does not, and may disagree in at most `behind + 50` places, where
it is `behind` slots behind.

The first two hold after every run. The third counts tasks, and one slot can
change many: a completion changes the task it completes and creates others. It
holds where the completions that a replica lacks create at most 50 tasks between
them.
-/

namespace Tmgr

namespace PaxosTests

open TaskManagerDb PtPaxosReplica

/-! ## The check -/

/-- The first replica that has applied most. -/
def baseline (n : Nat) (replicas : Nat → PtPaxosReplica) : Nat :=
  (List.range n).foldl (fun best i =>
    if (replicas i).appliedSlot > (replicas best).appliedSlot then i else best) 0

/-- The baseline's task `id` is missing, or recorded differently. -/
def disagree (dbI dbB : TaskManagerDb) (id : TaskId) : Bool :=
  match dbB.find id, dbI.find id with
  | some recB, some recI => recI.status ≠ recB.status ∨ recI.ownerToken ≠ recB.ownerToken
      ∨ recI.ownerAgent ≠ recB.ownerAgent
  | some _, none => true
  | none, _ => false

def lockDisagrees (lockI lockB : MainLockState) : Bool :=
  lockI.lockToken ≠ lockB.lockToken ∨ lockI.holderAgent ≠ lockB.holderAgent

def disagreements (dbI dbB : TaskManagerDb) : Nat :=
  (dbB.tasks.keys.filter fun id => disagree dbI dbB id).card
    + if lockDisagrees dbI.mainLock dbB.mainLock then 1 else 0

/-- Not ahead of the baseline `b`, and with no task that it lacks. -/
def strict (b r : PtPaxosReplica) : Bool :=
  r.appliedSlot ≤ b.appliedSlot ∧ r.db.tasks.keys ⊆ b.db.tasks.keys

def withinBudget (b r : PtPaxosReplica) : Bool :=
  disagreements r.db b.db ≤ b.appliedSlot - r.appliedSlot + 50

def checkInvariants (n : Nat) (replicas : Nat → PtPaxosReplica) : Bool :=
  let b := baseline n replicas
  (List.range n).all fun i =>
    i == b || (strict (replicas b) (replicas i) && withinBudget (replicas b) (replicas i))

/-! ## What one request changes -/

/-- What the check compares of a task. -/
def view (db : TaskManagerDb) (id : TaskId) : Option (TaskStatus × FencingToken × String) :=
  (db.find id).map fun t => (t.status, t.ownerToken, t.ownerAgent)

/-- The tasks of `db'` that look different in `db`. -/
def changed (db db' : TaskManagerDb) : Finset TaskId :=
  db'.tasks.keys.filter fun id => view db id ≠ view db' id

theorem mem_changed {db db' : TaskManagerDb} {id : TaskId} :
    id ∈ changed db db' ↔ id ∈ db'.tasks ∧ view db id ≠ view db' id := by
  simp [changed, Finmap.mem_keys]

theorem disagreements_eq (dbI dbB : TaskManagerDb) :
    disagreements dbI dbB = (changed dbI dbB).card
      + if lockDisagrees dbI.mainLock dbB.mainLock then 1 else 0 := by
  rw [disagreements, changed]
  congr 2
  refine Finset.filter_congr fun id hid => ?_
  obtain ⟨recB, hB⟩ := mem_tasks_iff.mp (Finmap.mem_keys.mp hid)
  cases hI : dbI.find id with
  | none => simp [disagree, view, hB, hI]
  | some recI =>
      simp only [disagree, view, hB, hI, Option.map_some, decide_eq_true_eq, ne_eq,
        Option.some.injEq, Prod.mk.injEq]
      tauto

theorem lockDisagrees_trans {a b c : MainLockState} (h : lockDisagrees a c = true) :
    lockDisagrees a b = true ∨ lockDisagrees b c = true := by
  simp only [lockDisagrees, decide_eq_true_eq] at h ⊢
  by_contra hnot
  push Not at hnot
  obtain ⟨⟨h1, h2⟩, h3, h4⟩ := hnot
  simp [h1, h2, h3, h4] at h

/-- Disagreements add up. -/
theorem disagreements_trans (a b c : TaskManagerDb) :
    disagreements a c ≤ disagreements a b + disagreements b c := by
  have hsub : changed a c ⊆ changed a b ∪ changed b c := by
    intro id hid
    obtain ⟨hc, hne⟩ := mem_changed.mp hid
    by_cases hbc : view b id = view c id
    · refine Finset.mem_union_left _ (mem_changed.mpr ⟨?_, hbc ▸ hne⟩)
      obtain ⟨t, ht⟩ := mem_tasks_iff.mp hc
      rw [view, view, ht, Option.map_some, Option.map_eq_some_iff] at hbc
      obtain ⟨u, hu, -⟩ := hbc
      exact mem_tasks_iff.mpr ⟨u, hu⟩
    · exact Finset.mem_union_right _ (mem_changed.mpr ⟨hc, hbc⟩)
  have hcard := (Finset.card_le_card hsub).trans (Finset.card_union_le _ _)
  rw [disagreements_eq, disagreements_eq, disagreements_eq]
  by_cases hlock : lockDisagrees a.mainLock c.mainLock = true
  · rcases lockDisagrees_trans (b := b.mainLock) hlock with h | h
    · simp only [hlock, h, if_true]
      omega
    · simp only [hlock, h, if_true]
      omega
  · simp only [hlock]
    simp only [Bool.false_eq_true, if_false]
    omega

/-- The tasks that an answered completion created. -/
def spawned : Response → Nat
  | .taskComplete p => (reportedIds (.taskComplete p)).length
  | _ => 0

/-- The stored task that a request may claim, complete or fail. -/
def touched (db : TaskManagerDb) (req : Request) (now : Int) : Option TaskId :=
  match req with
  | .taskClaim r => (db.pick r now).map (·.1)
  | .taskComplete r => some r.id
  | .taskFail r => some r.id
  | _ => none

theorem changed_subset {db : TaskManagerDb} (hw : Wf db) (req : Request) (now : Int) :
    changed db (db.processReq req now).1
      ⊆ ((touched db req now).toList ++ reportedIds (db.processReq req now).2).toFinset := by
  intro id hid
  obtain ⟨hnew, hne⟩ := mem_changed.mp hid
  rw [List.mem_toFinset, List.mem_append]
  rcases ((processReq_growsAsReported hw req now).keys id).mp hnew with hold | hrep
  · obtain ⟨t, ht⟩ := mem_tasks_iff.mp hold
    obtain ⟨t', ht', hst⟩ := processReq_record req now ht
    rw [view, view, ht, ht'] at hne
    refine .inl (Option.mem_toList.mpr ?_)
    cases hst with
    | same => exact absurd rfl hne
    | heartbeat hreq hid htoken hzero => exact absurd rfl hne
    | claimed hreq hh hpick => simp [touched, hreq, hpick]
    | completed hreq hid htoken hzero hok => simp [touched, hreq, hid]
    | failed hreq hid htoken hzero hok => simp [touched, hreq, hid]
  · exact .inr hrep

/-- Only the two lock requests change the main lock. -/
theorem mainLock_processReq {db : TaskManagerDb} {req : Request} {now : Int}
    (hacquire : ∀ r, req ≠ .mainLockAcquire r) (hrelease : ∀ r, req ≠ .mainLockRelease r) :
    (db.processReq req now).1.mainLock = db.mainLock := by
  have he := processReq_effect db req now
  generalize (db.processReq req now).1 = db' at he ⊢
  generalize (db.processReq req now).2 = resp at he
  cases he with
  | created hreq hdepth hdeps => exact (addTask_grows _ _).mainLock
  | completed hreq hown hcap hresp => rw [setTask_mainLock, (spawn_grows _ _ _).mainLock]
  | acquired hreq hfind hstatus htoken hstale => exact absurd hreq (hacquire _)
  | released hreq hheld htoken => exact absurd hreq (hrelease _)
  | _ => rfl

/-- One request changes at most one thing, and what a completion creates. -/
theorem disagreements_processReq {db : TaskManagerDb} (hw : Wf db) (req : Request) (now : Int) :
    disagreements db (db.processReq req now).1 ≤ 1 + spawned (db.processReq req now).2 := by
  have hcard := (Finset.card_le_card (changed_subset hw req now)).trans (List.toFinset_card_le _)
  rw [List.length_append] at hcard
  have hlock : (∀ r, req ≠ .mainLockAcquire r) → (∀ r, req ≠ .mainLockRelease r) →
      lockDisagrees db.mainLock (db.processReq req now).1.mainLock = false := by
    intro hacquire hrelease
    rw [mainLock_processReq hacquire hrelease]
    simp [lockDisagrees]
  have hother := (processReq_growsAsReported hw req now).other
  have htouched : (touched db req now).toList.length ≤ 1 := by
    cases touched db req now <;> simp
  rw [disagreements_eq]
  cases req with
  | taskCreate r =>
      rw [hlock (by simp) (by simp)]
      have hone : ∀ p : TaskCreateResponse, (reportedIds (.taskCreate p)).length ≤ 1 := by
        intro p
        rw [reportedIds]
        split <;> simp
      have hrep := hcard.trans (Nat.add_le_add_left (hone (db.handleTaskCreate r).2) _)
      simp only [touched, Option.toList_none, List.length_nil, Bool.false_eq_true,
        if_false] at hrep ⊢
      omega
  | taskComplete r =>
      rw [hlock (by simp) (by simp)]
      have hspawned : spawned (db.processReq (.taskComplete r) now).2
          = (reportedIds (db.processReq (.taskComplete r) now).2).length := rfl
      simp only [touched, Option.toList_some, List.length_singleton, Bool.false_eq_true,
        if_false] at hcard ⊢
      omega
  | mainLockAcquire r =>
      rw [hother (by simp) (by simp)] at hcard
      simp only [touched, Option.toList_none, List.length_nil] at hcard ⊢
      split <;> omega
  | mainLockRelease r =>
      rw [hother (by simp) (by simp)] at hcard
      simp only [touched, Option.toList_none, List.length_nil] at hcard ⊢
      split <;> omega
  | _ =>
      rw [hlock (by simp) (by simp)]
      rw [hother (by simp) (by simp), List.length_nil] at hcard
      simp only [Bool.false_eq_true, if_false]
      exact (Nat.add_le_add_right (hcard.trans htouched) 0).trans (Nat.le_add_right _ _)

/-- A history changes no more than its requests, and what they create. -/
theorem disagreements_execute (past later : List DecidedValue) :
    disagreements (execute past).1 (execute (past ++ later)).1
      ≤ later.length + (((execute (past ++ later)).2.drop past.length).map spawned).sum := by
  induction later using List.reverseRecOn with
  | nil => simp [disagreements_eq, changed, lockDisagrees]
  | append_singleton later dv ih =>
      rw [← List.append_assoc, execute_snoc]
      have hw : Wf (execute (past ++ later)).1 := by
        rw [execute_fst]
        exact wf_replay _
      have hone := disagreements_processReq hw dv.req dv.nowUnix
      have hsum := disagreements_trans (execute past).1 (execute (past ++ later)).1
        ((execute (past ++ later)).1.processReq dv.req dv.nowUnix).1
      have hlen : past.length ≤ (execute (past ++ later)).2.length := by
        simp [execute_snd_length]
      simp only [List.drop_append_of_le_length hlen, List.length_append, List.length_singleton,
        List.map_append, List.map_singleton, List.sum_append, List.sum_singleton]
      omega

theorem keys_execute (past later : List DecidedValue) :
    (execute past).1.tasks.keys ⊆ (execute (past ++ later)).1.tasks.keys := by
  induction later using List.reverseRecOn with
  | nil => simp
  | append_singleton later dv ih =>
      intro id hid
      rw [← List.append_assoc, execute_snoc, Finmap.mem_keys]
      have hw : Wf (execute (past ++ later)).1 := by
        rw [execute_fst]
        exact wf_replay _
      exact ((processReq_growsAsReported hw dv.req dv.nowUnix).keys id).mpr
        (.inl (Finmap.mem_keys.mp (ih hid)))

/-! ## The baseline -/

theorem baseline_spec {n : Nat} (hn : 0 < n) (replicas : Nat → PtPaxosReplica) :
    baseline n replicas < n
      ∧ ∀ i < n, (replicas i).appliedSlot ≤ (replicas (baseline n replicas)).appliedSlot := by
  induction n with
  | zero => exact absurd hn (Nat.lt_irrefl 0)
  | succ n ih =>
      rw [baseline, List.range_succ, List.foldl_append, List.foldl_cons, List.foldl_nil,
        ← baseline]
      rcases Nat.eq_zero_or_pos n with rfl | hpos
      · have hzero : baseline 0 replicas = 0 := rfl
        rw [hzero, if_neg (Nat.lt_irrefl _)]
        refine ⟨Nat.one_pos, fun i hi => ?_⟩
        rw [Nat.lt_one_iff.mp hi]
      · obtain ⟨hlt, hmax⟩ := ih hpos
        split
        · rename_i hmore
          refine ⟨Nat.lt_succ_self n, fun i hi => ?_⟩
          rcases Nat.lt_succ_iff_lt_or_eq.mp hi with hi | rfl
          · exact (hmax i hi).trans hmore.le
          · exact le_rfl
        · rename_i hless
          refine ⟨hlt.trans (Nat.lt_succ_self n), fun i hi => ?_⟩
          rcases Nat.lt_succ_iff_lt_or_eq.mp hi with hi | rfl
          · exact hmax i hi
          · exact Nat.not_lt.mp hless

/-! ## The replicas of a run -/

/-- What the slots that `b` has applied and `r` has not created by completions. -/
def lacks (b r : PtPaxosReplica) : Nat :=
  ((b.processed.drop r.appliedSlot).map fun p => spawned p.resp).sum

variable {n : Nat} {onApply : Nat → Bool}

/-- `r` has the database of a while ago. -/
structure Earlier (r b : PtPaxosReplica) (past later : List DecidedValue) : Prop where
  db : r.db = (execute past).1
  executed : (b.db, b.processed.map (·.resp)) = execute (past ++ later)
  applied : past.length = r.appliedSlot
  behind : past.length + later.length = b.appliedSlot

theorem Earlier.strict {r b : PtPaxosReplica} {past later : List DecidedValue}
    (h : Earlier r b past later) : strict b r = true := by
  have hdb : b.db = (execute (past ++ later)).1 := congrArg Prod.fst h.executed
  rw [PaxosTests.strict, decide_eq_true_eq, ← h.behind, ← h.applied, h.db, hdb]
  exact ⟨Nat.le_add_right _ _, keys_execute past later⟩

theorem Earlier.withinBudget {r b : PtPaxosReplica} {past later : List DecidedValue}
    (h : Earlier r b past later) (hlacks : lacks b r ≤ 50) : withinBudget b r = true := by
  have hsum := disagreements_execute past later
  have hdb : b.db = (execute (past ++ later)).1 := congrArg Prod.fst h.executed
  have hresp : b.processed.map (·.resp) = (execute (past ++ later)).2 := congrArg Prod.snd h.executed
  rw [← h.db, ← hdb, ← hresp, h.applied, ← List.map_drop, List.map_map] at hsum
  have hbehind : later.length = b.appliedSlot - r.appliedSlot := by
    rw [← h.behind, ← h.applied, Nat.add_sub_cancel_left]
  rw [PaxosTests.withinBudget, decide_eq_true_eq, ← hbehind]
  exact hsum.trans (Nat.add_le_add_left hlacks _)

/-- A replica that has applied less has the database of a while ago. -/
theorem exists_earlier {tr : List (System × Event)} {s : System}
    (hrun : PaxosRun n onApply (fun s e => s.leaderSends n e) tr s) {i j : Nat} (hi : i < n)
    (hj : j < n) (hle : (s.replicas i).appliedSlot ≤ (s.replicas j).appliedSlot) :
    ∃ past later, Earlier (s.replicas i) (s.replicas j) past later := by
  obtain ⟨L, hL⟩ := System.exists_commonLog hrun
  have hlog := System.run_logOk (q := false) hrun fun _ _ _ h => by cases h
  have hexec : ∀ k < n, ((s.replicas k).db, (s.replicas k).processed.map (·.resp))
      = execute (L.take (s.replicas k).appliedSlot) := by
    intro k hk
    rw [← hL.values k hk]
    exact (hlog k hk).2.executed
  have hsplit : L.take (s.replicas i).appliedSlot
        ++ (L.take (s.replicas j).appliedSlot).drop (s.replicas i).appliedSlot
      = L.take (s.replicas j).appliedSlot := by
    conv_rhs => rw [← List.take_append_drop (s.replicas i).appliedSlot (L.take _)]
    rw [List.take_take, min_eq_left hle]
  refine ⟨L.take (s.replicas i).appliedSlot,
    (L.take (s.replicas j).appliedSlot).drop (s.replicas i).appliedSlot,
    congrArg Prod.fst (hexec i hi), by rw [hsplit, hexec j hj], ?_, ?_⟩
  · rw [List.length_take, min_eq_left (hL.le i hi)]
  · rw [← List.length_append, hsplit, List.length_take, min_eq_left (hL.le j hj)]

/-- The two parts of the check, for the replicas of a run. -/
theorem checks_of_run {tr : List (System × Event)} {s : System}
    (hrun : PaxosRun n onApply (fun s e => s.leaderSends n e) tr s) :
    let b := s.replicas (baseline n s.replicas)
    (∀ i < n, strict b (s.replicas i) = true)
      ∧ ((∀ i < n, lacks b (s.replicas i) ≤ 50) → checkInvariants n s.replicas = true) := by
  intro b
  have hearlier : ∀ i < n, ∃ past later, Earlier (s.replicas i) b past later := by
    intro i hi
    obtain ⟨hbase, hmax⟩ := baseline_spec (Nat.zero_lt_of_lt hi) s.replicas
    exact exists_earlier hrun hi hbase (hmax i hi)
  have hstrict : ∀ i < n, strict b (s.replicas i) = true := by
    intro i hi
    obtain ⟨past, later, he⟩ := hearlier i hi
    exact he.strict
  refine ⟨hstrict, fun hlacks => ?_⟩
  refine List.all_eq_true.mpr fun i hi => ?_
  have hi' := List.mem_range.mp hi
  obtain ⟨past, later, he⟩ := hearlier i hi'
  rw [hstrict i hi', he.withinBudget (hlacks i hi')]
  exact Bool.or_true _

/-- **The check of the tests passes** after every run of the simulated replicas,
whatever the seed, the losses and the failures, up to its count of tasks. That
passes too where no replica lacks more than 50 tasks that completions created. -/
theorem checkInvariants_passes {onApply : Nat → Bool} {draw : Nat → Nat}
    {tr : List (Netsim.Sim n draw × ClusterEvent (Netsim.medium PaxosMessage n draw))}
    {g : Netsim.Sim n draw} (hrun : Netsim.SimRun n onApply draw tr g)
    (hled : ∀ p ∈ tr, p.1.leaderSends n p.2) :
    let b := g.replicas (baseline n g.replicas)
    (∀ i < n, strict b (g.replicas i) = true)
      ∧ ((∀ i < n, lacks b (g.replicas i) ≤ 50) → checkInvariants n g.replicas = true) := by
  obtain ⟨tr', t, hrefines, -⟩ := Netsim.exists_sim_refines hrun
  rw [← hrefines.replicas]
  exact checks_of_run (hrefines.leaderRun hled)

/-- The leader applies a plan that its follower has only accepted. -/
def planAccepted : List (ClusterEvent (Netsim.medium PaxosMessage 2 fun _ => 0)) :=
  [.propose 0 (.taskCreate { serial := 1, agentId := "human", spec := { title := "plan-0" } }) 10,
   .medium (.elapse 5), .medium (.wake 0 1 0), .resumeCall 0 0, .receive 1 5,
   .medium (.elapse 10), .medium (.wake 1 0 0), .receive 0 10, .resumeCall 0 0]

theorem checkInvariants_passes_planAccepted :
    let start := Cluster.initial (Netsim.medium PaxosMessage 2 fun _ => 0) 2 fun _ => false
    let g := (Runs.exec (Cluster.step 2) start planAccepted).get (by decide +kernel)
    let b := g.replicas (baseline 2 g.replicas)
    (∀ i < 2, strict b (g.replicas i) = true)
      ∧ ((∀ i < 2, lacks b (g.replicas i) ≤ 50) → checkInvariants 2 g.replicas = true) :=
  checkInvariants_passes (Runs.run_of_exec planAccepted (by decide +kernel) fun _ _ => trivial)
    (by decide +kernel)

end PaxosTests

end Tmgr
