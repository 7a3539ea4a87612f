import Tmgr.Agents
import Tmgr.WorkToCome

/-!
# Whole tests

A test runs the scenario, its agents and the group for a while, whatever fails
meanwhile, and then calls `check_invariants`. With at most 25 plans it passes
(`tests_pass`): the budget of 50 covers two more tasks for each plan.

Behind it is what the clients ask for. A plan is decided once, though it may be
sent several times: the scenario sends it again only where it was answered
`busy`, and no decided `task_create` is (`PlansOnce`). And a task is completed as
what it is: an agent knows its kind from a claim that was decided (`Meaning`).
-/

namespace Tmgr

namespace PaxosTests

open TaskManagerDb PtPaxosReplica

/-! ## The calls of the replicas -/

/-- The slot and the value of a call. -/
def keyAt (replicas : Nat → PtPaxosReplica) (o : CallId) : Option (Nat × DecidedValue) :=
  (replicas o.1).keys[o.2]?

def resultAt (replicas : Nat → PtPaxosReplica) (o : CallId) : Option ApplyResult :=
  (replicas o.1).resultOf o.2

/-- Nothing that was applied or answered is forgotten. -/
structure Later (before after : Nat → PtPaxosReplica) : Prop where
  processed : ∀ i, (before i).processed <+: (after i).processed
  returned : ∀ i, Returned (before i) (after i)
  served : ∀ i, Served (before i) → Served (after i)

variable {m : Medium PaxosMessage} {n : Nat}

theorem Later.refl (replicas : Nat → PtPaxosReplica) : Later replicas replicas :=
  ⟨fun _ => List.prefix_refl _, fun _ _ _ h => h, fun _ h => h⟩

theorem later_of_step {g g' : Cluster m} {e : ClusterEvent m} (hstep : g.step n e = some g') :
    Later g.replicas g'.replicas := by
  have hone : ∀ i, g'.replicas i = g.replicas i
      ∨ ∃ ev x, Turn n i (g.replicas i) ev x ∧ g'.replicas i = x.1 := fun i =>
    (Cluster.step_replica hstep i).imp_right fun ⟨ev, _, x, _, _, hlocal, hx⟩ =>
      ⟨ev, x, localStep_turn hlocal, hx⟩
  refine ⟨fun i => ?_, fun i => ?_, fun i h => ?_⟩ <;> rcases hone i with hsame | ⟨ev, x, ht, hx⟩
  · rw [hsame]
  · rw [hx]
    exact ht.processed
  · rw [hsame]
    exact fun _ _ h => h
  · rw [hx]
    exact ht.returned
  · rwa [hsame]
  · rw [hx]
    exact ht.served h

/-- Only a client makes calls. -/
theorem keys_of_step {g g' : Cluster m} {e : ClusterEvent m} (hstep : g.step n e = some g')
    {i : Nat} (hno : ∀ req nowUnix, e ≠ .propose i req nowUnix) :
    (g'.replicas i).keys = (g.replicas i).keys := by
  rcases Cluster.step_replica hstep i with hsame | ⟨ev, medium, x, -, htarget, hlocal, hx⟩
  · rw [hsame]
  · rw [hx]
    rcases (localStep_turn hlocal).keys with heq | ⟨req, nowUnix, rfl, -, -⟩
    · exact heq
    · rcases Cluster.target_cases htarget with ⟨msg, now, hev, -⟩ | ⟨-, -, hpropose⟩
      · cases hev
      · exact absurd (hpropose req nowUnix rfl) (hno req nowUnix)

theorem step_propose_eq {g g' : Cluster m} {i : Nat} {req : Request} {nowUnix : Int}
    (hstep : g.step n (.propose i req nowUnix) = some g') :
    i < n ∧ g'.replicas i = ((g.replicas i).proposeAndApply n i nowUnix req).1 := by
  rcases Cluster.step_cases hstep with ⟨e', medium, he, -, -⟩ | ⟨j, ev, medium, x, hj, htarget,
    hlocal, rfl⟩
  · cases he
  · simp only [Cluster.target, Option.some.injEq, Prod.mk.injEq] at htarget
    obtain ⟨rfl, rfl, -⟩ := htarget
    obtain rfl := Option.some.inj hlocal
    exact ⟨hj, by simp⟩

/-- A leader registers one more call. -/
theorem keyAt_propose {g g' : Cluster m} {i : Nat} {req : Request} {nowUnix : Int}
    (hstep : g.step n (.propose i req nowUnix) = some g') (hl : i = (g.replicas i).leaderIndex)
    (o : CallId) :
    keyAt g'.replicas o = if o = (i, (g.replicas i).calls.length)
      then some ((g.replicas i).nextSlot, ⟨nowUnix, req.base.agentId, req.base.serial, req⟩)
      else keyAt g.replicas o := by
  obtain ⟨-, hi⟩ := step_propose_eq hstep
  have hlen : (g.replicas i).calls.length = (g.replicas i).keys.length := by
    simp [PtPaxosReplica.keys]
  obtain ⟨j, c⟩ := o
  by_cases hij : j = i
  · subst hij
    rw [keyAt, keyAt, hi, proposeAndApply_keys hl, hlen]
    simp only [Prod.mk.injEq, true_and]
    split
    · rename_i hc
      rw [hc, List.getElem?_concat_length]
    · rename_i hc
      rcases Nat.lt_or_gt_of_ne hc with hlt | hgt
      · rw [List.getElem?_append_left hlt]
      · rw [List.getElem?_eq_none hgt.le, List.getElem?_eq_none]
        rw [List.length_append]
        exact hgt
  · rw [if_neg fun heq => hij (Prod.mk.inj heq).1, keyAt, keyAt, keys_of_step hstep fun req' now' heq => ?_]
    exact hij (ClusterEvent.propose.inj heq).1.symm

theorem keyAt_refused {g g' : Cluster m} {i : Nat} {req : Request} {nowUnix : Int}
    (hstep : g.step n (.propose i req nowUnix) = some g') (hl : i ≠ (g.replicas i).leaderIndex)
    (o : CallId) : keyAt g'.replicas o = keyAt g.replicas o := by
  obtain ⟨-, hi⟩ := step_propose_eq hstep
  by_cases hij : o.1 = i
  · rw [keyAt, keyAt, hij, hi, proposeAndApply, if_pos hl]
    rfl
  · rw [keyAt, keyAt, keys_of_step hstep fun req' now' heq => ?_]
    exact hij (ClusterEvent.propose.inj heq).1.symm

/-! ## Moves -/

variable {opts : TestOptions} {s s' : Swarm m}

/-- What a step of the swarm is to the clients and to the calls. -/
inductive Move (opts : TestOptions) (s s' : Swarm m) : Prop
  /-- no client does anything -/
  | group (hlater : Later s.cluster.replicas s'.cluster.replicas)
      (hkeys : ∀ o, keyAt s'.cluster.replicas o = keyAt s.cluster.replicas o)
      (hclients : s'.clients = s.clients)
  | loop {k : Nat} (hreplicas : s'.cluster.replicas = s.cluster.replicas)
      (hclients : s'.clients = Function.update s.clients k
        { s.clients k with program := (s.clients k).program.loop s.live })
  /-- client `k` makes the call `o` -/
  | asked {k : Nat} {req : Request} {o : CallId} {key : Nat × DecidedValue}
      (hlater : Later s.cluster.replicas s'.cluster.replicas) (ho : o.1 < opts.nreplicas)
      (hidle : (s.clients k).call = none)
      (hreq : (s.clients k).program.request opts.ntasks = some req) (hkey : key.2.req = req)
      (hkeys : ∀ o', keyAt s'.cluster.replicas o'
        = if o' = o then some key else keyAt s.cluster.replicas o')
      (hclients : s'.clients = Function.update s.clients k { s.clients k with call := some o })
  | refused {k : Nat} {req : Request} (hlater : Later s.cluster.replicas s'.cluster.replicas)
      (hidle : (s.clients k).call = none)
      (hreq : (s.clients k).program.request opts.ntasks = some req)
      (hkeys : ∀ o, keyAt s'.cluster.replicas o = keyAt s.cluster.replicas o)
      (hclients : s'.clients
        = Function.update s.clients k ((s.clients k).receive (notLeader req).resp))
  | answered {k : Nat} {o : CallId} {b : ApplyResult}
      (hreplicas : s'.cluster.replicas = s.cluster.replicas) (hcall : (s.clients k).call = some o)
      (hresult : resultAt s.cluster.replicas o = some b)
      (hclients : s'.clients = Function.update s.clients k ((s.clients k).receive b.resp))

theorem move_of_ask {k : Nat} {nowUnix : Int} {req : Request}
    (hidle : (s.clients k).call = none)
    (hreq : (s.clients k).program.request opts.ntasks = some req)
    (hstep : s.ask opts k nowUnix req = some s') : Move opts s s' := by
  simp only [Swarm.ask, Option.map_eq_some_iff] at hstep
  obtain ⟨cluster, hcluster, rfl⟩ := hstep
  have hlater := later_of_step hcluster
  by_cases hl : findLeader opts.nreplicas s.cluster.replicas
      = (s.cluster.replicas (findLeader opts.nreplicas s.cluster.replicas)).leaderIndex
  · rw [if_pos hl]
    exact .asked hlater (step_propose_eq hcluster).1 hidle hreq rfl (keyAt_propose hcluster hl) rfl
  · rw [if_neg hl]
    exact .refused hlater hidle hreq (keyAt_refused hcluster hl) rfl

theorem step_move {e : SwarmEvent m} (hstep : s.step opts e = some s') : Move opts s s' := by
  cases e with
  | group e =>
      simp only [Swarm.step] at hstep
      split at hstep
      · cases hstep
      · rename_i hno
        rw [Option.map_eq_some_iff] at hstep
        obtain ⟨cluster, hcluster, rfl⟩ := hstep
        refine .group (later_of_step hcluster) (fun o => ?_) rfl
        rw [keyAt, keyAt, keys_of_step hcluster fun req nowUnix heq => ?_]
        exact hno (by rw [heq]; rfl)
  | loop k =>
      simp only [Swarm.step] at hstep
      split at hstep
      · obtain rfl := Option.some.inj hstep
        exact .loop rfl rfl
      · cases hstep
  | ask k nowUnix =>
      simp only [Swarm.step] at hstep
      split at hstep
      · split at hstep
        · rename_i req hidle hreq
          exact move_of_ask hidle hreq hstep
        · cases hstep
      · cases hstep
  | answer k =>
      simp only [Swarm.step] at hstep
      split at hstep
      · rename_i i c hcall
        rw [Option.map_eq_some_iff] at hstep
        obtain ⟨b, hresult, rfl⟩ := hstep
        exact .answered rfl hcall hresult rfl
      · cases hstep
  | stop =>
      simp only [Swarm.step] at hstep
      split at hstep
      · obtain rfl := Option.some.inj hstep
        exact .group (.refl _) (fun _ => rfl) rfl
      · cases hstep

/-! ## What the clients wait for -/

/-- Every client that waits, waits for a call. -/
structure Calling (opts : TestOptions) (s : Swarm m) : Prop where
  served : ∀ i, Served (s.cluster.replicas i)
  waiting : ∀ {k o}, (s.clients k).call = some o →
    o.1 < opts.nreplicas ∧ ∃ key, keyAt s.cluster.replicas o = some key

theorem receive_call (c : Client) (resp : Response) : (c.receive resp).call = none := by
  unfold Client.receive
  split <;> rfl

theorem Calling.step (h : Calling opts s) (hmove : Move opts s s') : Calling opts s' := by
  cases hmove with
  | group hlater hkeys hclients =>
      refine ⟨fun i => hlater.served i (h.served i), fun {k o} hcall => ?_⟩
      rw [hclients] at hcall
      rw [hkeys]
      exact h.waiting hcall
  | @loop k hreplicas hclients =>
      refine ⟨by rw [hreplicas]; exact h.served, fun {k' o} hcall => ?_⟩
      rw [hreplicas]
      rw [hclients, Function.update_apply] at hcall
      split at hcall
      · exact h.waiting hcall
      · exact h.waiting hcall
  | @asked k req o key hlater ho hidle hreq hkey hkeys hclients =>
      refine ⟨fun i => hlater.served i (h.served i), fun {k' o'} hcall => ?_⟩
      rw [hclients, Function.update_apply] at hcall
      rw [hkeys]
      by_cases hnew : o' = o
      · rw [if_pos hnew, hnew]
        exact ⟨ho, key, rfl⟩
      · rw [if_neg hnew]
        split at hcall
        · exact absurd (Option.some.inj hcall).symm hnew
        · exact h.waiting hcall
  | @refused k req hlater hidle hreq hkeys hclients =>
      refine ⟨fun i => hlater.served i (h.served i), fun {k' o} hcall => ?_⟩
      rw [hkeys]
      rw [hclients, Function.update_apply] at hcall
      split at hcall
      · rw [receive_call] at hcall
        cases hcall
      · exact h.waiting hcall
  | @answered k o b hreplicas hcall' hresult hclients =>
      refine ⟨by rw [hreplicas]; exact h.served, fun {k' o'} hcall => ?_⟩
      rw [hreplicas]
      rw [hclients, Function.update_apply] at hcall
      split at hcall
      · rw [receive_call] at hcall
        cases hcall
      · exact h.waiting hcall

/-- What a client is answered was answered in the slot of its call, or is the
default response. -/
theorem Calling.answered (h : Calling opts s) {o : CallId} {key : Nat × DecidedValue}
    {b : ApplyResult} (hkey : keyAt s.cluster.replicas o = some key)
    (hresult : resultAt s.cluster.replicas o = some b) :
    AnswersSlot (s.cluster.replicas o.1).processed key.1 b.resp :=
  (h.served o.1).answered hkey hresult

/-! ## What the clients mean -/

/-- A claim of the task was decided, as one of that kind. -/
def Granted (n : Nat) (replicas : Nat → PtPaxosReplica) (g : Grant) : Prop :=
  ∃ i < n, ∃ p ∈ (replicas i).processed, ∃ cr : TaskClaimResponse, p.resp = .taskClaim cr
    ∧ cr.none = false ∧ cr.id = g.taskId ∧ cr.spec.type = g.taskType

theorem Granted.later {before after : Nat → PtPaxosReplica} {g : Grant}
    (h : Granted n before g) (hlater : Later before after) : Granted n after g := by
  obtain ⟨i, hi, p, hp, hrest⟩ := h
  exact ⟨i, hi, p, (hlater.processed i).subset hp, hrest⟩

def planRequest (i : Nat) : TaskCreateRequest :=
  makePlanCreate (i + 1) "human" ("plan-" ++ toString i)

/-- What a client may ask for: the plans are those of the scenario, and what is
completed was granted. -/
def Meant (opts : TestOptions) (replicas : Nat → PtPaxosReplica) : Request → Prop
  | .taskCreate r => ∃ i < opts.ntasks, r = planRequest i
  | .taskComplete r => ∃ a g, r = completeRequest a g ∧ Granted opts.nreplicas replicas g
  | _ => True

theorem Meant.later {before after : Nat → PtPaxosReplica} {req : Request}
    (h : Meant opts before req) (hlater : Later before after) : Meant opts after req := by
  cases req with
  | taskComplete r =>
      obtain ⟨a, g, hr, hg⟩ := h
      exact ⟨a, g, hr, hg.later hlater⟩
  | _ => exact h

/-- The task that an agent works on. -/
def Program.grant : Program → Option Grant
  | .asking _ (.lock g) | .asking _ (.release g _) | .asking _ (.complete g) => some g
  | _ => none

/-- An agent gets its task from the response to a claim. -/
theorem grant_resume {p : Program} {resp : Response} {g : Grant}
    (h : (p.resume resp).grant = some g) :
    p.grant = some g ∨ ∃ cr : TaskClaimResponse, resp = .taskClaim cr ∧ cr.none = false
      ∧ cr.id = g.taskId ∧ cr.spec.type = g.taskType := by
  cases p with
  | asking a what =>
      cases what with
      | claim =>
          simp only [Program.resume] at h
          split at h
          · rename_i cr
            split at h
            · cases h
            · rename_i hnone
              refine .inr ⟨cr, rfl, by simpa using hnone, ?_⟩
              split at h <;> obtain rfl := Option.some.inj h <;> exact ⟨rfl, rfl⟩
          · cases h
      | lock g' =>
          simp only [Program.resume] at h
          split at h
          · split at h <;> exact .inl h
          · cases h
      | release g' lockToken => exact .inl h
      | complete g' => cases h
  | _ => cases h

theorem grant_loop {p : Program} {live : Bool} {g : Grant} (h : (p.loop live).grant = some g) :
    p.grant = some g := by
  cases p with
  | looping a =>
      simp only [Program.loop] at h
      split at h <;> cases h
  | _ => exact h

theorem grant_receive {c : Client} {resp : Response} {g : Grant}
    (h : (c.receive resp).program.grant = some g) :
    c.program.grant = some g ∨ ∃ cr : TaskClaimResponse, resp = .taskClaim cr ∧ cr.none = false
      ∧ cr.id = g.taskId ∧ cr.spec.type = g.taskType := by
  unfold Client.receive at h
  split at h
  · exact .inl h
  · exact grant_resume h

/-- Clients work on what was granted, and calls are made for what they mean. -/
structure Meaning (opts : TestOptions) (s : Swarm m) : Prop where
  granted : ∀ k g, (s.clients k).program.grant = some g →
    Granted opts.nreplicas s.cluster.replicas g
  meant : ∀ {o key}, keyAt s.cluster.replicas o = some key →
    Meant opts s.cluster.replicas key.2.req

theorem Meaning.request (h : Meaning opts s) {k : Nat} {req : Request}
    (hreq : (s.clients k).program.request opts.ntasks = some req) :
    Meant opts s.cluster.replicas req := by
  have hgranted := h.granted k
  generalize (s.clients k).program = p at hreq hgranted
  cases p with
  | creating i =>
      simp only [Program.request] at hreq
      split at hreq
      · rename_i hi
        obtain rfl := Option.some.inj hreq
        exact ⟨i, hi, rfl⟩
      · cases hreq
  | asking a what =>
      obtain rfl := Option.some.inj hreq
      cases what with
      | complete g => exact ⟨a, g, rfl, hgranted g rfl⟩
      | _ => trivial
  | _ => cases hreq

theorem Meaning.step (h : Meaning opts s) (hc : Calling opts s) (hmove : Move opts s s') :
    Meaning opts s' := by
  cases hmove with
  | group hlater hkeys hclients =>
      refine ⟨fun k g hg => ?_, fun {o key} hkey => ?_⟩
      · rw [hclients] at hg
        exact (h.granted _ _ hg).later hlater
      · rw [hkeys] at hkey
        exact (h.meant hkey).later hlater
  | @loop k hreplicas hclients =>
      refine ⟨fun k' g hg => ?_, by rw [hreplicas]; exact h.meant⟩
      rw [hreplicas]
      rw [hclients, Function.update_apply] at hg
      split at hg
      · exact h.granted _ _ (grant_loop hg)
      · exact h.granted _ _ hg
  | @asked k req o key hlater ho hidle hreq hkey hkeys hclients =>
      refine ⟨fun k' g hg => ?_, fun {o' key'} hkey' => ?_⟩
      · rw [hclients, Function.update_apply] at hg
        split at hg
        · exact (h.granted _ _ hg).later hlater
        · exact (h.granted _ _ hg).later hlater
      · rw [hkeys] at hkey'
        split at hkey'
        · obtain rfl := Option.some.inj hkey'
          exact hkey ▸ (h.request hreq).later hlater
        · exact (h.meant hkey').later hlater
  | @refused k req hlater hidle hreq hkeys hclients =>
      refine ⟨fun k' g hg => ?_, fun {o key} hkey => ?_⟩
      · rw [hclients, Function.update_apply] at hg
        split at hg
        · rcases grant_receive hg with hold | ⟨cr, hclaim, -⟩
          · exact (h.granted _ _ hold).later hlater
          · cases hclaim
        · exact (h.granted _ _ hg).later hlater
      · rw [hkeys] at hkey
        exact (h.meant hkey).later hlater
  | @answered k o b hreplicas hcall hresult hclients =>
      refine ⟨fun k' g hg => ?_, by rw [hreplicas]; exact h.meant⟩
      rw [hreplicas]
      rw [hclients, Function.update_apply] at hg
      split at hg
      · rcases grant_receive hg with hold | ⟨cr, hclaim, hnone, hid, htype⟩
        · exact h.granted _ _ hold
        · -- the claim was decided in the slot of the call
          obtain ⟨ho, key, hkey⟩ := hc.waiting hcall
          rcases hc.answered hkey hresult with hdefault | ⟨p, hp, -, hresp⟩
          · rw [hclaim] at hdefault
            cases hdefault
          · exact ⟨o.1, ho, p, hp, cr, hresp.trans hclaim, hnone, hid, htype⟩
      · exact h.granted _ _ hg

/-! ## Plans are sent again only where they are refused -/

def planSerial : Request → Option Nat
  | .taskCreate r => some r.serial
  | _ => none

def Busy (replicas : Nat → PtPaxosReplica) (o : CallId) : Prop :=
  ∃ b, resultAt replicas o = some b ∧ b.resp.errcode = .busy

theorem Busy.later {before after : Nat → PtPaxosReplica} {o : CallId} (h : Busy before o)
    (hlater : Later before after) : Busy after o := by
  obtain ⟨b, hb, hbusy⟩ := h
  exact ⟨b, hlater.returned o.1 o.2 b hb, hbusy⟩

theorem creating_loop {p : Program} {live : Bool} {i : Nat} (h : p.loop live = .creating i) :
    p = .creating i := by
  cases p with
  | looping a =>
      simp only [Program.loop] at h
      split at h <;> cases h
  | _ => exact h

theorem creating_resume {p : Program} {resp : Response} {i : Nat}
    (h : p.resume resp = .creating i) : ∃ j, p = .creating j := by
  cases p with
  | creating j => exact ⟨j, rfl⟩
  | asking a what =>
      cases what with
      | claim =>
          simp only [Program.resume] at h
          split at h
          · split at h
            · cases h
            · split at h <;> cases h
          · cases h
      | lock g =>
          simp only [Program.resume] at h
          split at h
          · split at h <;> cases h
          · cases h
      | _ => cases h
  | _ => cases h

theorem creating_receive {c : Client} {resp : Response} {i : Nat}
    (h : (c.receive resp).program = .creating i) : ∃ j, c.program = .creating j := by
  unfold Client.receive at h
  split at h
  · exact ⟨i, h⟩
  · exact creating_resume h

/-- Only the scenario creates plans. -/
theorem planSerial_request {p : Program} {ntasks q : Nat} {req : Request}
    (hreq : p.request ntasks = some req) (hq : planSerial req = some q) :
    ∃ i < ntasks, p = .creating i ∧ q = i + 1 := by
  cases p with
  | creating i =>
      simp only [Program.request] at hreq
      split at hreq
      · rename_i hi
        obtain rfl := Option.some.inj hreq
        exact ⟨i, hi, rfl, (Option.some.inj hq).symm⟩
      · cases hreq
  | asking a what =>
      obtain rfl := Option.some.inj hreq
      cases what <;> cases hq
  | _ => cases hreq

/-- The scenario is at plan `i`. Of the calls for one plan, all but one have
been answered `busy`. -/
structure PlansOnce (opts : TestOptions) (i : Nat) (s : Swarm m) : Prop where
  le : i ≤ opts.ntasks
  scenario : (s.clients 0).program = .creating i
  others : ∀ k j, (s.clients k).program = .creating j → k = 0
  waiting : (s.clients 0).call ≠ none → i < opts.ntasks
  asked : ∀ {o key q}, keyAt s.cluster.replicas o = some key → planSerial key.2.req = some q →
    q ≤ i ∨ q = i + 1 ∧ ((s.clients 0).call = some o ∨ Busy s.cluster.replicas o)
  once : ∀ {o o' key key' q}, keyAt s.cluster.replicas o = some key →
    keyAt s.cluster.replicas o' = some key' → planSerial key.2.req = some q →
    planSerial key'.2.req = some q →
    o = o' ∨ Busy s.cluster.replicas o ∨ Busy s.cluster.replicas o'

variable {i i' : Nat}

/-- No call for a plan is made. -/
theorem PlansOnce.transfer (h : PlansOnce opts i s)
    (hlater : Later s.cluster.replicas s'.cluster.replicas)
    (hkeys : ∀ {o key q}, keyAt s'.cluster.replicas o = some key → planSerial key.2.req = some q →
      keyAt s.cluster.replicas o = some key)
    (hle : i' ≤ opts.ntasks) (hi : i ≤ i') (hscenario : (s'.clients 0).program = .creating i')
    (hothers : ∀ k j, (s'.clients k).program = .creating j → k = 0)
    (hwaiting : (s'.clients 0).call ≠ none → i' < opts.ntasks)
    (hasked : ∀ o, (s.clients 0).call = some o → i = i' →
      (s'.clients 0).call = some o ∨ Busy s'.cluster.replicas o) : PlansOnce opts i' s' where
  le := hle
  scenario := hscenario
  others := hothers
  waiting := hwaiting
  asked {o key q} hkey hq := by
    rcases h.asked (hkeys hkey hq) hq with hold | ⟨rfl, hold⟩
    · exact .inl (hold.trans hi)
    · rcases Nat.eq_or_lt_of_le hi with heq | hlt
      · refine .inr ⟨by rw [heq], ?_⟩
        rcases hold with hcall | hbusy
        · exact hasked o hcall heq
        · exact .inr (hbusy.later hlater)
      · exact .inl hlt
  once hkey hkey' hq hq' :=
    (h.once (hkeys hkey hq) (hkeys hkey' hq') hq hq').imp_right
      (Or.imp (·.later hlater) (·.later hlater))

/-- A client is answered, and calls nobody. -/
theorem PlansOnce.receive (h : PlansOnce opts i s)
    (hlater : Later s.cluster.replicas s'.cluster.replicas)
    (hkeys : ∀ o, keyAt s'.cluster.replicas o = keyAt s.cluster.replicas o) {k : Nat}
    {resp : Response}
    (hclients : s'.clients = Function.update s.clients k ((s.clients k).receive resp))
    (hbusy : k = 0 → ∀ o, (s.clients 0).call = some o → resp.errcode = .busy →
      Busy s'.cluster.replicas o)
    (hmore : k = 0 → i < opts.ntasks) : ∃ i', PlansOnce opts i' s' := by
  have hothers : ∀ k' j, (s'.clients k').program = .creating j → k' = 0 := by
    intro k' j hj
    rw [hclients, Function.update_apply] at hj
    split at hj
    · rename_i hk
      obtain ⟨j', hj'⟩ := creating_receive hj
      exact hk ▸ h.others k j' hj'
    · exact h.others k' j hj
  by_cases hk : k = 0
  · subst hk
    have hzero : s'.clients 0 = (s.clients 0).receive resp := by rw [hclients, Function.update_self]
    have hnone : (s'.clients 0).call = none := by rw [hzero, receive_call]
    by_cases hagain : (s.clients 0).attempt < maxRetries ∧ resp.errcode = .busy
    · -- the scenario tries again
      refine ⟨i, h.transfer hlater (fun hkey _ => (hkeys _).symm.trans hkey) h.le le_rfl ?_ hothers
        (fun hcall => absurd hnone hcall) fun o hcall _ => .inr (hbusy rfl o hcall hagain.2)⟩
      rw [hzero, Client.receive, if_pos hagain]
      exact h.scenario
    · -- the scenario goes on to the next plan
      refine ⟨i + 1, h.transfer hlater (fun hkey _ => (hkeys _).symm.trans hkey) (hmore rfl)
        (Nat.le_succ i) ?_ hothers (fun hcall => absurd hnone hcall)
        fun o _ heq => absurd heq (Nat.ne_of_lt (Nat.lt_succ_self i))⟩
      rw [hzero, Client.receive, if_neg hagain]
      simp only [h.scenario, Program.resume]
  · have hzero : s'.clients 0 = s.clients 0 := by
      rw [hclients, Function.update_of_ne (Ne.symm hk)]
    refine ⟨i, h.transfer hlater (fun hkey _ => (hkeys _).symm.trans hkey) h.le le_rfl ?_ hothers ?_
      fun o hcall _ => .inl (by rwa [hzero])⟩
    · rw [hzero]
      exact h.scenario
    · rw [hzero]
      exact h.waiting

/-- The scenario calls for plan `i`, which it does not wait for yet. -/
theorem PlansOnce.ask (h : PlansOnce opts i s)
    (hlater : Later s.cluster.replicas s'.cluster.replicas) (hidle : (s.clients 0).call = none)
    {req : Request} (hreq : (s.clients 0).program.request opts.ntasks = some req) {o : CallId}
    {key : Nat × DecidedValue} (hkey : key.2.req = req)
    (hkeys : ∀ o', keyAt s'.cluster.replicas o'
      = if o' = o then some key else keyAt s.cluster.replicas o')
    (hclients : s'.clients = Function.update s.clients 0 { s.clients 0 with call := some o }) :
    PlansOnce opts i s' := by
  have hzero : s'.clients 0 = { s.clients 0 with call := some o } := by
    rw [hclients, Function.update_self]
  have hplan : ∀ {q}, planSerial key.2.req = some q → i < opts.ntasks ∧ q = i + 1 := by
    intro q hq
    obtain ⟨j, hj, hprogram, hjq⟩ := planSerial_request hreq (hkey ▸ hq)
    obtain rfl := Program.creating.inj (h.scenario.symm.trans hprogram)
    exact ⟨hj, hjq⟩
  -- the other calls for the plan were answered `busy`
  have hold : ∀ {o' key' q}, o' ≠ o → keyAt s'.cluster.replicas o' = some key' →
      planSerial key'.2.req = some q →
      keyAt s.cluster.replicas o' = some key' ∧ (q ≤ i ∨ q = i + 1 ∧ Busy s'.cluster.replicas o') := by
    intro o' key' q hne hkey' hq
    rw [hkeys, if_neg hne] at hkey'
    refine ⟨hkey', (h.asked hkey' hq).imp_right fun ⟨heq, hcall⟩ => ⟨heq, ?_⟩⟩
    rcases hcall with hcall | hbusy
    · rw [hidle] at hcall
      cases hcall
    · exact hbusy.later hlater
  have hnew : ∀ {key'}, keyAt s'.cluster.replicas o = some key' → key' = key := by
    intro key' hkey'
    rw [hkeys, if_pos rfl] at hkey'
    exact (Option.some.inj hkey').symm
  refine ⟨h.le, by rw [hzero]; exact h.scenario, ?_, fun _ => ?_, ?_, ?_⟩
  · intro k j hj
    rw [hclients, Function.update_apply] at hj
    split at hj
    · assumption
    · exact h.others k j hj
  · obtain ⟨q, hq⟩ : ∃ q, planSerial req = some q := by
      rw [h.scenario, Program.request] at hreq
      split at hreq
      · obtain rfl := Option.some.inj hreq
        exact ⟨_, rfl⟩
      · cases hreq
    exact (hplan (hkey ▸ hq)).1
  · intro o' key' q hkey' hq
    by_cases ho : o' = o
    · subst ho
      obtain rfl := hnew hkey'
      exact .inr ⟨(hplan hq).2, .inl (by rw [hzero])⟩
    · exact (hold ho hkey' hq).2.imp_right fun ⟨heq, hbusy⟩ => ⟨heq, .inr hbusy⟩
  · intro o₁ o₂ key₁ key₂ q hkey₁ hkey₂ hq₁ hq₂
    by_cases ho₁ : o₁ = o <;> by_cases ho₂ : o₂ = o
    · exact .inl (ho₁.trans ho₂.symm)
    · subst ho₁
      obtain rfl := hnew hkey₁
      rcases (hold ho₂ hkey₂ hq₂).2 with hle | ⟨-, hbusy⟩
      · rw [(hplan hq₁).2] at hle
        exact absurd hle (Nat.not_succ_le_self i)
      · exact .inr (.inr hbusy)
    · subst ho₂
      obtain rfl := hnew hkey₂
      rcases (hold ho₁ hkey₁ hq₁).2 with hle | ⟨-, hbusy⟩
      · rw [(hplan hq₂).2] at hle
        exact absurd hle (Nat.not_succ_le_self i)
      · exact .inr (.inl hbusy)
    · exact (h.once (hold ho₁ hkey₁ hq₁).1 (hold ho₂ hkey₂ hq₂).1 hq₁ hq₂).imp_right
        (Or.imp (·.later hlater) (·.later hlater))

theorem PlansOnce.step (h : PlansOnce opts i s) (hmove : Move opts s s') :
    ∃ i', PlansOnce opts i' s' := by
  cases hmove with
  | group hlater hkeys hclients =>
      refine ⟨i, h.transfer hlater (fun hkey _ => (hkeys _).symm.trans hkey) h.le le_rfl ?_ ?_ ?_ ?_⟩
      · rw [hclients]
        exact h.scenario
      · rw [hclients]
        exact h.others
      · rw [hclients]
        exact h.waiting
      · rw [hclients]
        exact fun o hcall _ => .inl hcall
  | @loop k hreplicas hclients =>
      have hzero : (s'.clients 0).call = (s.clients 0).call := by
        rw [hclients, Function.update_apply]
        split
        · rename_i hk
          rw [hk]
        · rfl
      refine ⟨i, h.transfer (hreplicas ▸ .refl _) (fun hkey _ => by rwa [hreplicas] at hkey) h.le
        le_rfl ?_ ?_ ?_ ?_⟩
      · rw [hclients, Function.update_apply]
        split
        · rename_i hk
          rw [← hk, h.scenario]
          rfl
        · exact h.scenario
      · intro k' j hj
        rw [hclients, Function.update_apply] at hj
        split at hj
        · rename_i hk
          exact hk ▸ h.others k j (creating_loop hj)
        · exact h.others k' j hj
      · rw [hzero]
        exact h.waiting
      · rw [hzero]
        exact fun o hcall _ => .inl hcall
  | @asked k req o key hlater ho hidle hreq hkey hkeys hclients =>
      by_cases hk : k = 0
      · subst hk
        exact ⟨i, h.ask hlater hidle hreq hkey hkeys hclients⟩
      · -- agents create no plans
        have hzero : s'.clients 0 = s.clients 0 := by
          rw [hclients, Function.update_of_ne (Ne.symm hk)]
        refine ⟨i, h.transfer hlater (fun {o' key' q} hkey' hq => ?_) h.le le_rfl ?_ ?_ ?_ ?_⟩
        · rw [hkeys] at hkey'
          split at hkey'
          · obtain rfl := Option.some.inj hkey'
            obtain ⟨j, -, hj, -⟩ := planSerial_request hreq (hkey ▸ hq)
            exact absurd (h.others k j hj) hk
          · exact hkey'
        · rw [hzero]
          exact h.scenario
        · intro k' j hj
          rw [hclients, Function.update_apply] at hj
          split at hj
          · rename_i hk'
            exact hk' ▸ h.others k j hj
          · exact h.others k' j hj
        · rw [hzero]
          exact h.waiting
        · rw [hzero]
          exact fun o hcall _ => .inl hcall
  | @refused k req hlater hidle hreq hkeys hclients =>
      refine h.receive hlater hkeys hclients (fun hk o hcall _ => ?_) fun hk => ?_
      · subst hk
        rw [hidle] at hcall
        cases hcall
      · subst hk
        rw [h.scenario, Program.request] at hreq
        split at hreq
        · assumption
        · cases hreq
  | @answered k o b hreplicas hcall hresult hclients =>
      refine h.receive (hreplicas ▸ .refl _) (fun o => by rw [hreplicas]) hclients
        (fun hk o' hcall' hbusy => ?_) fun hk => ?_
      · subst hk
        obtain rfl := Option.some.inj (hcall.symm.trans hcall')
        rw [hreplicas]
        exact ⟨b, hresult, hbusy⟩
      · subst hk
        exact h.waiting (by simp [hcall])

end PaxosTests

end Tmgr
