import Tmgr.Swarm

/-!
# The tests pass

At the end of a test the replicas have applied prefixes of one log, and the log
holds what the clients meant: each plan once, and completions of tasks as what
they are. So all completions together have created at most two tasks for each
plan, and `check_invariants` passes with at most 25 of them, whatever the seed,
the losses and the failures.
-/

namespace Tmgr

namespace PaxosTests

open TaskManagerDb PtPaxosReplica

/-- A plan leads to an implement task and a merge task. -/
def tasksAfter : TaskType → Nat
  | .plan => 2
  | .implement => 1
  | .merge => 0

/-- The completions of the agents are within that. -/
theorem within_completeRequest (a : AgentState) (g : Grant) :
    Within tasksAfter g.taskType (completeRequest a g) := by
  cases htype : g.taskType <;> simp [Within, completeRequest, htype, tasksAfter]

/-! ## The decided plans -/

def planSerials (values : List DecidedValue) : List Nat :=
  values.filterMap fun dv => planSerial dv.req

theorem allowance_le (req : Request) :
    allowance tasksAfter req ≤ 2 * (planSerial req).toList.length := by
  cases req with
  | taskCreate r =>
      show tasksAfter r.spec.type ≤ 2
      cases r.spec.type <;> decide
  | _ => exact Nat.zero_le _

theorem planSerials_cons (dv : DecidedValue) (values : List DecidedValue) :
    planSerials (dv :: values) = (planSerial dv.req).toList ++ planSerials values := by
  rw [planSerials, planSerials, List.filterMap_cons]
  cases planSerial dv.req <;> rfl

theorem sum_allowance_le (values : List DecidedValue) :
    (values.map fun dv => allowance tasksAfter dv.req).sum ≤ 2 * (planSerials values).length := by
  induction values with
  | nil => exact le_rfl
  | cons dv values ih =>
      have hone := allowance_le dv.req
      rw [List.map_cons, List.sum_cons, planSerials_cons, List.length_append]
      omega

/-- A creation is never answered `busy`. -/
theorem not_busy_of_plan {db : TaskManagerDb} {req : Request} {now : Int} {q : Nat}
    (hq : planSerial req = some q) : (db.processReq req now).2.errcode ≠ .busy := by
  intro hbusy
  have he := processReq_effect db req now
  generalize (db.processReq req now).1 = db' at he
  generalize (db.processReq req now).2 = resp at he hbusy
  cases req with
  | taskCreate r =>
      cases he with
      | refused herr hlock => simpa [lockBusy] using hlock hbusy
      | completed hreq => cases hreq
      | listed hreq => cases hreq
      | _ => cases hbusy
  | _ => cases hq

/-! ## Kinds -/

/-- A task keeps its spec while requests are applied. -/
theorem find_execute {past : List DecidedValue} (later : List DecidedValue) {id : TaskId}
    {t : TaskRecord} (hf : (execute past).1.find id = some t) :
    ∃ t', (execute (past ++ later)).1.find id = some t' ∧ t'.spec = t.spec := by
  induction later using List.reverseRecOn with
  | nil => exact ⟨t, by rwa [List.append_nil], rfl⟩
  | append_singleton later dv ih =>
      obtain ⟨u, hu, hspec⟩ := ih
      obtain ⟨u', hu', hspec'⟩ := processReq_kept dv.req dv.nowUnix hu
      rw [← List.append_assoc, execute_snoc]
      exact ⟨u', hu', hspec'.trans hspec⟩

/-- At any two points of one history a task has the same spec. -/
theorem spec_unique {L : List DecidedValue} {a b : Nat} {id : TaskId} {t u : TaskRecord}
    (ht : (execute (L.take a)).1.find id = some t) (hu : (execute (L.take b)).1.find id = some u) :
    t.spec = u.spec := by
  obtain ⟨t', ht', htspec⟩ := find_execute (L.drop a) ht
  obtain ⟨u', hu', huspec⟩ := find_execute (L.drop b) hu
  rw [List.take_append_drop] at ht' hu'
  obtain rfl := Option.some.inj (ht'.symm.trans hu')
  exact htspec.symm.trans huspec

/-- The response to a claim shows a stored task. -/
theorem find_of_claim {db : TaskManagerDb} (hw : Wf db) {req : Request} {now : Int}
    {cr : TaskClaimResponse} (hresp : (db.processReq req now).2 = .taskClaim cr)
    (hnone : cr.none = false) : ∃ t, db.find cr.id = some t ∧ t.spec = cr.spec := by
  cases req with
  | taskClaim r =>
      obtain rfl : (db.handleTaskClaim r now).2 = cr := Response.taskClaim.inj hresp
      by_cases hh : db.swarmHalted = true
      · simp [handleTaskClaim, hh] at hnone
      · cases hpick : db.pick r now with
        | none => simp [handleTaskClaim, hh, hpick] at hnone
        | some x =>
            obtain ⟨tid, t⟩ := x
            obtain ⟨-, hf, -⟩ := pick_eq_some hpick
            refine ⟨t, ?_, ?_⟩
            · simpa [handleTaskClaim, hh, hpick, claimRecord, (hw.record tid t hf).id_eq] using hf
            · simp [handleTaskClaim, hh, hpick, claimRecord]
  | _ => cases hresp

/-! ## The end of a test -/

variable {m : Medium PaxosMessage} {opts : TestOptions} {s : Swarm m}
  {tr : List (Swarm m × SwarmEvent m)}

/-- A run of a test in which calls send on only at leaders. -/
abbrev SwarmRun (opts : TestOptions) (tr : List (Swarm m × SwarmEvent m)) (s : Swarm m) : Prop :=
  Runs.Run (Swarm.step opts) (fun s e => s.leaderSends opts e) (Swarm.initial opts m) tr s

theorem run_calling (hrun : SwarmRun opts tr s) :
    Calling opts s ∧ Meaning opts s ∧ ∃ i, PlansOnce opts i s := by
  have hnone : ∀ o, keyAt (Swarm.initial opts m).cluster.replicas o = none := fun o => rfl
  refine hrun.invariant (I := fun s => Calling opts s ∧ Meaning opts s ∧ ∃ i, PlansOnce opts i s)
    ?_ fun ⟨hc, hm, i, hp⟩ _ hstep =>
      ⟨hc.step (step_move hstep), hm.step hc (step_move hstep), hp.step (step_move hstep)⟩
  refine ⟨⟨fun i => initial_served _ _, fun {k o} hcall => ?_⟩, ⟨fun k g hg => ?_, ?_⟩, 0, ?_⟩
  · cases k <;> cases hcall
  · cases k <;> cases hg
  · intro o key hkey
    rw [hnone] at hkey
    cases hkey
  · refine ⟨Nat.zero_le _, rfl, fun k j hj => ?_, fun hcall => absurd rfl hcall, ?_, ?_⟩
    · cases k with
      | zero => rfl
      | succ k => cases hj
    · intro o key q hkey
      rw [hnone] at hkey
      cases hkey
    · intro o o' key key' q hkey
      rw [hnone] at hkey
      cases hkey

/-- A step of a test is a step of the group, or leaves the group as it is. -/
theorem cluster_step {e : SwarmEvent m} {s' : Swarm m} (hok : s.leaderSends opts e)
    (hstep : s.step opts e = some s') :
    s'.cluster = s.cluster ∨ ∃ e', s.cluster.leaderSends opts.nreplicas e'
      ∧ Cluster.step opts.nreplicas s.cluster e' = some s'.cluster := by
  cases e with
  | group e =>
      simp only [Swarm.step] at hstep
      split at hstep
      · cases hstep
      · rw [Option.map_eq_some_iff] at hstep
        obtain ⟨cluster, hcluster, rfl⟩ := hstep
        exact .inr ⟨e, hok, hcluster⟩
  | ask k nowUnix =>
      simp only [Swarm.step] at hstep
      split at hstep
      · split at hstep
        · simp only [Swarm.ask, Option.map_eq_some_iff] at hstep
          obtain ⟨cluster, hcluster, rfl⟩ := hstep
          refine .inr ⟨_, ?_, hcluster⟩
          trivial
        · cases hstep
      · cases hstep
  | answer k =>
      simp only [Swarm.step] at hstep
      split at hstep
      · rw [Option.map_eq_some_iff] at hstep
        obtain ⟨b, -, rfl⟩ := hstep
        exact .inl rfl
      · cases hstep
  | loop k =>
      simp only [Swarm.step] at hstep
      split at hstep
      · obtain rfl := Option.some.inj hstep
        exact .inl rfl
      · cases hstep
  | stop =>
      simp only [Swarm.step] at hstep
      split at hstep
      · obtain rfl := Option.some.inj hstep
        exact .inl rfl
      · cases hstep

/-- The group runs as it does without the clients. -/
theorem run_cluster (hrun : SwarmRun opts tr s) :
    ∃ tr', Runs.Run (Cluster.step opts.nreplicas) (fun g e => g.leaderSends opts.nreplicas e)
      (Cluster.initial m opts.nreplicas fun _ => false) tr' s.cluster := by
  induction hrun with
  | nil => exact ⟨[], .nil⟩
  | snoc _ hok hstep ih =>
      obtain ⟨tr', hrun'⟩ := ih
      rcases cluster_step hok hstep with hsame | ⟨e', hok', hstep'⟩
      · exact ⟨tr', hsame ▸ hrun'⟩
      · exact ⟨_, .snoc hrun' hok' hstep'⟩

/-- The replicas at the end of a test, and the log they have applied. -/
structure Ended (opts : TestOptions) (L : List DecidedValue) (tr : List (System × Event))
    (t : System) (s : Swarm m) : Prop where
  run : PaxosRun opts.nreplicas (fun _ => false) (fun s e => s.leaderSends opts.nreplicas e) tr t
  replicas : t.replicas = s.cluster.replicas
  log : System.CommonLog opts.nreplicas L t
  calling : Calling opts s
  meaning : Meaning opts s
  plans : ∃ i, PlansOnce opts i s

variable {L : List DecidedValue} {t : System} {tr' : List (System × Event)} {k : Nat}
  {dv : DecidedValue}

theorem Ended.origin (h : Ended opts L tr' t s) (hdv : L[k]? = some dv) :
    ∃ o : CallId, o.1 < opts.nreplicas ∧ keyAt s.cluster.replicas o = some (k, dv) := by
  obtain ⟨j, hj, hk⟩ := h.log.reached k (List.getElem?_eq_some_iff.mp hdv).1
  obtain ⟨o, ho, hkey⟩ := h.log.appended (System.run_sourced h.run) hj hk hdv
  exact ⟨o, ho, by rwa [h.replicas] at hkey⟩

theorem completeRequest_id (a : AgentState) (g : Grant) : (completeRequest a g).id = g.taskId := by
  unfold completeRequest
  cases g.taskType <;> rfl

/-- A task is completed as what it is. -/
theorem Ended.completes (h : Ended opts L tr' t s) (hdv : L[k]? = some dv) :
    CompletesWithin tasksAfter (execute (L.take k)).1 dv.req := by
  intro r u hreq hf
  obtain ⟨o, -, hkey⟩ := h.origin hdv
  have hmeant := h.meaning.meant hkey
  rw [hreq] at hmeant
  obtain ⟨a, g, rfl, i, hi, p, hp, cr, hresp, hnone, hid, htype⟩ := hmeant
  rw [← h.replicas] at hp
  have hw : Wf (execute (L.take p.slot)).1 := by
    rw [execute_fst]
    exact wf_replay _
  obtain ⟨v, hv, hspec⟩ := find_of_claim hw ((h.log.answer h.run hi hp).symm.trans hresp) hnone
  rw [completeRequest_id, ← hid] at hf
  rw [spec_unique hf hv, hspec, htype]
  exact within_completeRequest a g

/-- A call whose plan was decided was not answered `busy`. -/
theorem Ended.not_busy (h : Ended opts L tr' t s) {o : CallId} (ho : o.1 < opts.nreplicas)
    (hkey : keyAt s.cluster.replicas o = some (k, dv)) (hdv : L[k]? = some dv) {q : Nat}
    (hq : planSerial dv.req = some q) : ¬Busy s.cluster.replicas o := by
  rintro ⟨b, hb, hbusy⟩
  rcases h.calling.answered hkey hb with hdefault | ⟨p, hp, hslot, hresp⟩
  · rw [hdefault] at hbusy
    cases hbusy
  · rw [← h.replicas] at hp
    have hget := (h.log.processed_get ho hp).2.2
    rw [hslot, hdv] at hget
    obtain rfl := Option.some.inj hget
    rw [← hresp, h.log.answer h.run ho hp] at hbusy
    exact not_busy_of_plan hq hbusy

theorem Ended.nodup_plans (h : Ended opts L tr' t s) : (planSerials L).Nodup := by
  obtain ⟨i, hplans⟩ := h.plans
  rw [planSerials, List.Nodup, List.pairwise_filterMap, List.pairwise_iff_getElem]
  rintro a b ha hb hab q hq q' hq' rfl
  have hdv := List.getElem?_eq_getElem ha
  have hdv' := List.getElem?_eq_getElem hb
  obtain ⟨o, ho, hkey⟩ := h.origin hdv
  obtain ⟨o', ho', hkey'⟩ := h.origin hdv'
  rcases hplans.once hkey hkey' hq hq' with rfl | hbusy | hbusy
  · rw [hkey, Option.some.injEq] at hkey'
    exact absurd (Prod.mk.inj hkey').1 (Nat.ne_of_lt hab)
  · exact h.not_busy ho hkey hdv hq hbusy
  · exact h.not_busy ho' hkey' hdv' hq' hbusy

/-- Each plan is decided at most once. -/
theorem Ended.length_plans (h : Ended opts L tr' t s) : (planSerials L).length ≤ opts.ntasks := by
  have hsub : planSerials L ⊆ (List.range opts.ntasks).map (· + 1) := by
    intro q hq
    obtain ⟨dv, hmem, hq⟩ := List.mem_filterMap.mp hq
    obtain ⟨k, hk⟩ := List.getElem?_of_mem hmem
    obtain ⟨o, -, hkey⟩ := h.origin hk
    have hmeant := h.meaning.meant hkey
    cases hreq : dv.req with
    | taskCreate r =>
        rw [hreq] at hmeant hq
        obtain ⟨i, hi, rfl⟩ := hmeant
        obtain rfl := Option.some.inj hq
        exact List.mem_map.mpr ⟨i, List.mem_range.mpr hi, rfl⟩
    | _ =>
        rw [hreq] at hq
        cases hq
  have hle := (h.nodup_plans.subperm hsub).length_le
  rwa [List.length_map, List.length_range] at hle

/-- All completions together create at most two tasks for each plan. -/
theorem Ended.spawned_le (h : Ended opts L tr' t s) :
    ((execute L).2.map spawned).sum ≤ 2 * opts.ntasks := by
  have hwork := spawned_execute tasksAfter L fun past dv rest hsplit => by
    have hdv : L[past.length]? = some dv := by simp [hsplit]
    have hcompletes := h.completes hdv
    rwa [hsplit, List.take_left] at hcompletes
  have hallow := sum_allowance_le L
  have hplans := h.length_plans
  omega

theorem execute_isPrefix (past later : List DecidedValue) :
    (execute past).2 <+: (execute (past ++ later)).2 := by
  induction later using List.reverseRecOn with
  | nil => rw [List.append_nil]
  | append_singleton later dv ih =>
      rw [← List.append_assoc, execute_snoc]
      exact ih.trans (List.prefix_append _ _)

theorem Ended.lacks_le (h : Ended opts L tr' t s) {j : Nat} (hj : j < opts.nreplicas)
    (r : PtPaxosReplica) : lacks (s.cluster.replicas j) r ≤ 2 * opts.ntasks := by
  have hexec := ((System.run_logOk (q := false) h.run fun _ _ _ h => by cases h) j hj).2.executed
  have hresp : (t.replicas j).processed.map (·.resp)
      = (execute ((t.replicas j).processed.map (·.dv))).2 := congrArg Prod.snd hexec
  rw [h.log.values j hj] at hresp
  have hpre := execute_isPrefix (L.take (t.replicas j).appliedSlot)
    (L.drop (t.replicas j).appliedSlot)
  rw [List.take_append_drop, ← hresp, h.replicas] at hpre
  have hdrop : ((s.cluster.replicas j).processed.drop r.appliedSlot).map (fun p => spawned p.resp)
      = (((s.cluster.replicas j).processed.map (·.resp)).drop r.appliedSlot).map spawned := by
    rw [← List.map_drop, List.map_map]
    rfl
  rw [lacks, hdrop]
  exact (((List.drop_sublist _ _).trans hpre.sublist).map spawned).sum_le_sum
    (fun _ _ => Nat.zero_le _) |>.trans h.spawned_le

/-- A test on the simulated network ends so. -/
theorem exists_ended {draw : Nat → Nat} {s : Swarm (Netsim.medium PaxosMessage opts.nreplicas draw)}
    {tr : List (Swarm (Netsim.medium PaxosMessage opts.nreplicas draw)
      × SwarmEvent (Netsim.medium PaxosMessage opts.nreplicas draw))}
    (hrun : SwarmRun opts tr s) : ∃ L tr' t, Ended opts L tr' t s := by
  obtain ⟨hcalling, hmeaning, hplans⟩ := run_calling hrun
  obtain ⟨tr₁, hcluster⟩ := run_cluster hrun
  obtain ⟨tr₂, t, hrefines, -⟩ :=
    Netsim.exists_sim_refines (hcluster.mono fun _ _ _ => trivial)
  have hsys := hrefines.leaderRun fun p hp => by
    obtain ⟨-, -, -, hled, -⟩ := hcluster.reach_of_mem hp
    exact hled
  obtain ⟨L, hL⟩ := System.exists_commonLog hsys
  exact ⟨L, tr₂, t, hsys, hrefines.replicas, hL, hcalling, hmeaning, hplans⟩

/-- **The tests pass.** With at most 25 plans `check_invariants` passes at the
end of every test, whatever the seed, the losses and the failures, however many
agents there are and whenever they are stopped. -/
theorem tests_pass {draw : Nat → Nat} {s : Swarm (Netsim.medium PaxosMessage opts.nreplicas draw)}
    {tr : List (Swarm (Netsim.medium PaxosMessage opts.nreplicas draw)
      × SwarmEvent (Netsim.medium PaxosMessage opts.nreplicas draw))}
    (hntasks : opts.ntasks ≤ 25) (hrun : SwarmRun opts tr s) :
    checkInvariants opts.nreplicas s.cluster.replicas = true := by
  obtain ⟨L, tr', t, hend⟩ := exists_ended hrun
  have hchecks := (checks_of_run hend.run).2
  rw [hend.replicas] at hchecks
  refine hchecks fun i hi => ?_
  obtain ⟨hbase, -⟩ := baseline_spec (Nat.zero_lt_of_lt hi) s.cluster.replicas
  have hlacks := hend.lacks_le hbase (s.cluster.replicas i)
  omega

/-- A call reaches replica 1, which accepts it, and is answered at replica 0. -/
def delivered (c now : Nat) : List (SwarmEvent (Netsim.medium PaxosMessage 2 fun _ => 0)) :=
  [.group (.medium (.elapse (now + 5))), .group (.medium (.wake 0 1 0)), .group (.resumeCall 0 c),
   .group (.receive 1 (now + 5)), .group (.resumeRun 1), .group (.medium (.elapse (now + 10))),
   .group (.medium (.wake 1 0 0)), .group (.receive 0 (now + 10)), .group (.resumeCall 0 c)]

/-- An agent claims and completes the plan; the test stops before replica 1 has
applied the completion. -/
def planWorkedOn : List (SwarmEvent (Netsim.medium PaxosMessage 2 fun _ => 0)) :=
  .ask 0 10 :: delivered 0 0 ++ [.answer 0, .loop 1, .ask 1 11] ++ delivered 1 10
    ++ [.answer 1, .ask 1 12] ++ delivered 2 20 ++ [.stop, .answer 1, .loop 1]

theorem tests_pass_planWorkedOn :
    let opts : TestOptions := { nreplicas := 2, nagents := 1, ntasks := 1 }
    let start := Swarm.initial opts (Netsim.medium PaxosMessage 2 fun _ => 0)
    let s := (Runs.exec (Swarm.step opts) start planWorkedOn).get (by decide +kernel)
    checkInvariants 2 s.cluster.replicas = true := by
  intro opts start s
  exact @tests_pass opts _ _ _ (by decide)
    (Runs.run_of_exec planWorkedOn (by decide +kernel) (by decide +kernel))

end PaxosTests

end Tmgr
