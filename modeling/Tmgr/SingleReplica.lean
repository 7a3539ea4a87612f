import Tmgr.DecisionLog
import Tmgr.Rendezvous

/-!
# A single replica

The default deployment is a group of one (`make_sim`). There is no peer to
send to, the replica's own acknowledgement is the quorum, and every loop of
`propose_and_apply` ends at once: a call appends its value, decides it,
applies it, truncates the log and returns. So the replication engine behaves
as a bare `task_manager_db`, whatever the timer of `run()` does in between.
-/

namespace Tmgr

open TaskManagerDb (execute execute_snd_length)

/-! ## The bare state machine -/

/-- The value `propose_and_apply` makes of a request and its stamp. -/
def stamp (c : Request × Int) : DecidedValue :=
  ⟨c.2, c.1.base.agentId, c.1.base.serial, c.1⟩

/-- What a bare database answers to a sequence of values, each answer with
the stamp of its value. -/
def bareAnswers (values : List DecidedValue) : List ApplyResult :=
  List.zipWith (fun dv resp => ⟨resp, dv.nowUnix⟩) values (execute values).2

/-- One report for each value that is not a `task_list`, with the error code
the bare database answers. -/
def bareReports (values : List DecidedValue) : List Reported :=
  ((values.zip (execute values).2).filter fun p => requestPath p.1.req ≠ "/task_list").map
    fun p => ⟨p.1, requestPath p.1.req, p.2.errcode⟩

theorem bareAnswers_snoc (values : List DecidedValue) (dv : DecidedValue) :
    bareAnswers (values ++ [dv]) = bareAnswers values
      ++ [⟨((execute values).1.processReq dv.req dv.nowUnix).2, dv.nowUnix⟩] := by
  rw [bareAnswers, TaskManagerDb.execute_snoc,
    List.zipWith_append (execute_snd_length values).symm]
  rfl

theorem bareReports_snoc (values : List DecidedValue) (dv : DecidedValue) :
    bareReports (values ++ [dv]) =
      if requestPath dv.req ≠ "/task_list" then
        bareReports values ++ [⟨dv, requestPath dv.req,
          ((execute values).1.processReq dv.req dv.nowUnix).2.errcode⟩]
      else bareReports values := by
  rw [bareReports, TaskManagerDb.execute_snoc,
    List.zip_append (execute_snd_length values).symm, List.filter_append, List.map_append]
  by_cases h : requestPath dv.req = "/task_list"
  · simp [bareReports, h]
  · simp [bareReports, h]

namespace PtPaxosReplica

/-- The replica between two inputs, after the requests `values`. -/
structure Idle (registered : Bool) (values : List DecidedValue) (r : PtPaxosReplica) :
    Prop where
  leader : r.leaderIndex = 0
  frame : r.runFrame = .receiving
  onApply : r.onApply = registered
  db : r.db = (execute values).1
  log : r.log = []
  logBase : r.logBase = values.length
  nextSlot : r.nextSlot = values.length
  decidedSlot : r.decidedSlot = values.length
  appliedSlot : r.appliedSlot = values.length
  acks : r.followerAckSlot = [values.length]
  results : r.calls.map Call.result = (bareAnswers values).map some
  reported : r.reported = if registered then bareReports values else []

variable {b : Bool} {values : List DecidedValue} {r : PtPaxosReplica}

theorem initial_idle (b : Bool) : Idle b [] (initial 1 b) := by
  refine ⟨rfl, rfl, rfl, rfl, rfl, rfl, rfl, rfl, rfl, rfl, rfl, ?_⟩
  cases b <;> rfl

theorem rank_singleton (k : Nat) : Rank.rank [k] (quorum 1) = k := rfl

theorem nextPeer_single (k : Nat) : nextPeer 1 0 k = none := by
  unfold nextPeer
  split
  · exact if_neg (by omega)
  · exact if_neg (by omega)

/-! ## A tick -/

/-- With nothing decided and nothing in the log, there is nothing to do. -/
theorem Idle.applyDecided (h : Idle b values r) : r.applyDecided 1 0 = r := by
  have hmax : max r.decidedSlot (Rank.rank r.followerAckSlot (quorum 1)) = r.decidedSlot := by
    rw [h.acks, rank_singleton, h.decidedSlot, max_self]
  have hdecide : r.tryDecide 1 = r := by rw [tryDecide, hmax]
  have hloop : r.applyLoop = r := by
    rw [applyLoop, h.decidedSlot, h.appliedSlot, Nat.sub_self]
    rfl
  have hmin : r.followerAckSlot.min?.getD 0 = r.logBase := by simp [h.acks, h.logBase]
  have hdrop : r.log.drop (r.logBase - r.logBase) = r.log := by
    rw [Nat.sub_self, List.drop_zero]
  have htruncate : r.tryTruncate = r := by
    simp only [tryTruncate, hmin, max_self, hdrop]
  simp only [PtPaxosReplica.applyDecided, hdecide, hloop, h.leader, if_true, htruncate]

theorem Idle.handleTimeout (h : Idle b values r) (now : Nat) :
    r.handleTimeout 1 0 now = (r, []) := by
  have hsame : r.runSendPropose 1 0 0 = ({ r with runFrame := .receiving }, []) := by
    rw [runSendPropose, nextPeer_single, h.applyDecided]
  rw [PtPaxosReplica.handleTimeout, if_pos h.leader.symm, hsame, ← h.frame]

/-! ## A request -/

theorem modify_concat {α : Type*} (l : List α) (a : α) (f : α → α) :
    (l ++ [a]).modify l.length f = l ++ [f a] := by
  have hmod := List.modify_eq_take_drop f (l ++ [a]) l.length
  rw [hmod]
  simp [List.modifyHead]

/-- The one value in the log is decided, applied and forgotten. -/
theorem applyDecided_one {dv : DecidedValue} {k : Nat} (hl : r.leaderIndex = 0)
    (hlog : r.log = [dv]) (hbase : r.logBase = k) (happlied : r.appliedSlot = k)
    (hdecided : r.decidedSlot = k) (hacks : r.followerAckSlot = [k + 1]) :
    r.applyDecided 1 0
      = { applySlot { r with decidedSlot := k + 1 } dv with log := [], logBase := k + 1 } := by
  have hmax : max r.decidedSlot (Rank.rank r.followerAckSlot (quorum 1)) = k + 1 := by
    rw [hacks, rank_singleton, hdecided]
    omega
  have hloop : (r.tryDecide 1).applyLoop = applySlot { r with decidedSlot := k + 1 } dv := by
    rw [tryDecide, hmax, applyLoop]
    have hfuel : k + 1 - r.appliedSlot = 1 := by omega
    have hin : r.appliedSlot < k + 1 ∧ r.appliedSlot < logEnd { r with decidedSlot := k + 1 } := by
      simp [logEnd, hlog, hbase, happlied]
    have hget : r.log[r.appliedSlot - r.logBase]? = some dv := by
      simp [hlog, hbase, happlied]
    simp only [hfuel, applyUpTo, if_pos hin, hget]
  have hmin : (applySlot { r with decidedSlot := k + 1 } dv).followerAckSlot.min?.getD 0
      = k + 1 := by
    show r.followerAckSlot.min?.getD 0 = k + 1
    simp [hacks]
  have hdrop : (applySlot { r with decidedSlot := k + 1 } dv).log.drop
      (k + 1 - (applySlot { r with decidedSlot := k + 1 } dv).logBase) = [] := by
    show r.log.drop (k + 1 - r.logBase) = []
    simp [hlog, hbase]
  have hbase' : max (applySlot { r with decidedSlot := k + 1 } dv).logBase (k + 1) = k + 1 := by
    show max r.logBase (k + 1) = k + 1
    rw [hbase]
    omega
  have hleader : (0 : Nat) = (applySlot { r with decidedSlot := k + 1 } dv).leaderIndex :=
    hl.symm
  simp only [PtPaxosReplica.applyDecided, hloop, if_pos hleader, tryTruncate, hmin, hdrop, hbase']

/-- The call after its value was applied. -/
def appliedCall (r : PtPaxosReplica) (dv : DecidedValue) : Call :=
  { mySlot := r.nextSlot, dv
    pending := ⟨true, (r.db.processReq dv.req dv.nowUnix).2, dv.nowUnix⟩ }

/-- The replica when the value of its new call has been applied. -/
theorem Idle.applyDecided_appendCall (h : Idle b values r) (req : Request) (nowUnix : Int) :
    (r.appendCall 0 nowUnix req).applyDecided 1 0
      = { applySlot { r.appendCall 0 nowUnix req with decidedSlot := values.length + 1 }
            (stamp (req, nowUnix)) with log := [], logBase := values.length + 1 } := by
  refine applyDecided_one h.leader ?_ h.logBase h.appliedSlot h.decidedSlot ?_
  · show r.log ++ [stamp (req, nowUnix)] = [stamp (req, nowUnix)]
    rw [h.log, List.nil_append]
  · show r.followerAckSlot.set 0 (r.nextSlot + 1) = [values.length + 1]
    rw [h.acks, h.nextSlot]
    rfl

theorem Idle.calls_applied (h : Idle b values r) (req : Request) (nowUnix : Int) :
    ((r.appendCall 0 nowUnix req).applyDecided 1 0).calls
      = r.calls ++ [r.appliedCall (stamp (req, nowUnix))] := by
  have hlookup : (r.appendCall 0 nowUnix req).pendingResponses.lookup
      (r.appendCall 0 nowUnix req).appliedSlot = some r.calls.length := by
    show (r.pendingResponses.insert r.nextSlot r.calls.length).lookup r.appliedSlot = _
    rw [h.appliedSlot, ← h.nextSlot]
    exact Finmap.lookup_insert _
  rw [h.applyDecided_appendCall]
  simp only [applySlot, hlookup]
  exact modify_concat r.calls _ _

/-- A request returns at once, with the answer of the bare database. -/
theorem Idle.proposeAndApply (h : Idle b values r) (req : Request) (nowUnix : Int) :
    (r.proposeAndApply 1 0 nowUnix req).2 = []
      ∧ Idle b (values ++ [stamp (req, nowUnix)]) (r.proposeAndApply 1 0 nowUnix req).1 := by
  have hcalls := h.calls_applied req nowUnix
  have happlied : ((r.appendCall 0 nowUnix req).applyDecided 1 0).appliedSlot
      = values.length + 1 := by
    rw [h.applyDecided_appendCall]
    show r.appliedSlot + 1 = values.length + 1
    rw [h.appliedSlot]
  have hcall : ((r.appendCall 0 nowUnix req).applyDecided 1 0).calls[r.calls.length]?
      = some (r.appliedCall (stamp (req, nowUnix))) := by
    rw [hcalls]
    simp
  have hnowait : ¬((r.appendCall 0 nowUnix req).applyDecided 1 0).appliedSlot
      ≤ (r.appliedCall (stamp (req, nowUnix))).mySlot := by
    rw [happlied]
    show ¬values.length + 1 ≤ r.nextSlot
    rw [h.nextSlot]
    omega
  have heq : r.proposeAndApply 1 0 nowUnix req
      = (((r.appendCall 0 nowUnix req).applyDecided 1 0).finishCall r.calls.length, []) := by
    have hleader : ¬(0 ≠ r.leaderIndex) := fun hne => hne h.leader.symm
    simp only [PtPaxosReplica.proposeAndApply, if_neg hleader, callSendPropose, nextPeer_single,
      awaitCall, hcall, if_neg hnowait]
  have hresp : bareAnswers (values ++ [stamp (req, nowUnix)])
      = bareAnswers values ++ [⟨(r.db.processReq req nowUnix).2, nowUnix⟩] := by
    rw [bareAnswers_snoc, ← h.db]
    rfl
  have hreport := bareReports_snoc values (stamp (req, nowUnix))
  rw [← h.db] at hreport
  have happly := h.applyDecided_appendCall req nowUnix
  rw [heq]
  generalize (r.appendCall 0 nowUnix req).applyDecided 1 0 = r' at *
  refine ⟨rfl, ?_⟩
  simp only [finishCall, hcall]
  refine ⟨?_, ?_, ?_, ?_, ?_, ?_, ?_, ?_, ?_, ?_, ?_, ?_⟩
  · exact happly ▸ h.leader
  · exact happly ▸ h.frame
  · exact happly ▸ h.onApply
  · show r'.db = _
    rw [TaskManagerDb.execute_snoc, ← h.db, happly]
    rfl
  · exact happly ▸ rfl
  · show r'.logBase = _
    rw [happly, List.length_append]
    rfl
  · show r'.nextSlot = _
    rw [happly, List.length_append, ← h.nextSlot]
    rfl
  · show r'.decidedSlot = _
    rw [happly, List.length_append]
    rfl
  · rw [happlied, List.length_append]
    rfl
  · show r'.followerAckSlot = _
    rw [happly, List.length_append]
    show r.followerAckSlot.set 0 (r.nextSlot + 1) = [values.length + 1]
    rw [h.acks, h.nextSlot]
    rfl
  · show (r'.calls.modify r.calls.length _).map Call.result = _
    rw [hcalls, modify_concat, List.map_append, h.results, hresp, List.map_append]
    rfl
  · show r'.reported = _
    rw [happly, hreport]
    show (if r.onApply ∧ requestPath req ≠ "/task_list" then r.reported ++ _ else r.reported) = _
    rw [h.onApply, h.reported]
    cases b with
    | false => simp
    | true =>
        simp only [true_and, if_true]
        rfl

end PtPaxosReplica

/-! ## Runs of a group of one -/

/-- What happens to a single replica from outside: a request with the clock
it is stamped with, or a tick of the timer of `run()`. -/
inductive SimInput where
  | request (req : Request) (nowUnix : Int)
  | tick (now : Nat)

namespace SimInput

def event : SimInput → Event
  | .request req nowUnix => .propose 0 req nowUnix
  | .tick now => .timeout 0 now

/-- The requests among the inputs, with their clocks. -/
def requests (inputs : List SimInput) : List (Request × Int) :=
  inputs.filterMap fun
    | .request req nowUnix => some (req, nowUnix)
    | .tick _ => none

theorem requests_snoc (inputs : List SimInput) (x : SimInput) :
    requests (inputs ++ [x]) = requests inputs ++ requests [x] := by
  simp [requests]

end SimInput

namespace System

open PtPaxosReplica SimInput

variable {b : Bool} {inputs : List SimInput} {s s' : System} {e : Event}

/-- The group between two inputs. -/
structure Quiet (b : Bool) (inputs : List SimInput) (s : System) : Prop where
  network : s.network = []
  idle : Idle b ((requests inputs).map stamp) (s.replicas 0)

/-- An input is taken at once, and leaves the group quiet. -/
theorem Quiet.input (h : Quiet b inputs s) (x : SimInput) :
    ∃ s', s.step 1 x.event = some s' ∧ Quiet b (inputs ++ [x]) s' := by
  cases x with
  | request req nowUnix =>
      obtain ⟨hsent, hidle⟩ := h.idle.proposeAndApply req nowUnix
      refine ⟨⟨Function.update s.replicas 0
        ((s.replicas 0).proposeAndApply 1 0 nowUnix req).1, s.network
          ++ ((s.replicas 0).proposeAndApply 1 0 nowUnix req).2⟩, rfl, ?_, ?_⟩
      · rw [h.network, hsent]
        rfl
      · rw [requests_snoc, List.map_append]
        simp only [Function.update_self]
        exact hidle
  | tick now =>
      have hframe := h.idle.frame
      have hstep : localStep 1 0 (s.replicas 0) (.timeout now) = some (s.replicas 0, []) := by
        rw [localStep, if_pos hframe, h.idle.handleTimeout now]
      refine ⟨⟨Function.update s.replicas 0 (s.replicas 0), s.network ++ []⟩, ?_, ?_, ?_⟩
      · simp [step, event, target, hstep]
      · rw [h.network]
        rfl
      · have hsame : requests (inputs ++ [.tick now]) = requests inputs := by
          rw [requests_snoc]
          exact List.append_nil _
        rw [hsame]
        simpa using h.idle

/-- Nothing but an input can happen to a quiet group. -/
theorem Quiet.event_eq (h : Quiet b inputs s) (hstep : s.step 1 e = some s') :
    ∃ x : SimInput, e = x.event := by
  have hturn : ∀ {i ev rest}, s.target e = some (i, ev, rest) → i = 0
      ∧ (localStep 1 0 (s.replicas 0) ev).isSome := by
    intro i ev rest htarget
    simp only [step, htarget] at hstep
    split at hstep
    · rename_i hi
      obtain rfl : i = 0 := by omega
      split at hstep
      · rename_i hlocal
        exact ⟨rfl, by rw [hlocal]; rfl⟩
      · cases hstep
    · cases hstep
  cases e with
  | deliver k now => simp [step, target, h.network] at hstep
  | lose k => simp [step, target, h.network] at hstep
  | timeout i now =>
      obtain ⟨rfl, -⟩ := hturn rfl
      exact ⟨.tick now, rfl⟩
  | propose i req nowUnix =>
      obtain ⟨rfl, -⟩ := hturn rfl
      exact ⟨.request req nowUnix, rfl⟩
  | resumeRun i =>
      obtain ⟨rfl, hsome⟩ := hturn rfl
      simp [localStep, PtPaxosReplica.resumeRun, h.idle.frame] at hsome
  | resumeCall i c =>
      obtain ⟨rfl, hsome⟩ := hturn rfl
      simp only [localStep, PtPaxosReplica.resumeCall] at hsome
      split at hsome
      · cases hsome
      · rename_i call hcall
        have hmem : call.result ∈ (s.replicas 0).calls.map Call.result :=
          List.mem_map_of_mem (List.mem_of_getElem? hcall)
        rw [h.idle.results] at hmem
        obtain ⟨result, -, hresult⟩ := List.mem_map.mp hmem
        cases hframe : call.frame with
        | returned r => simp [hframe] at hsome
        | sending k => simp [Call.result, hframe] at hresult
        | waiting => simp [Call.result, hframe] at hresult

theorem initial_quiet (onApply : Nat → Bool) : Quiet (onApply 0) [] (initial 1 onApply) :=
  ⟨rfl, initial_idle (onApply 0)⟩

/-- A run of one replica is a sequence of inputs. -/
theorem quiet_of_run {onApply : Nat → Bool} {tr : List (System × Event)}
    (hrun : PaxosRun 1 onApply (fun _ _ => True) tr s) :
    ∃ inputs, tr.map Prod.snd = inputs.map SimInput.event ∧ Quiet (onApply 0) inputs s := by
  induction hrun with
  | nil => exact ⟨[], rfl, initial_quiet onApply⟩
  | snoc _ _ hstep ih =>
      obtain ⟨inputs, hevents, hquiet⟩ := ih
      obtain ⟨x, rfl⟩ := hquiet.event_eq hstep
      obtain ⟨s', hstep', hquiet'⟩ := hquiet.input x
      obtain rfl := Option.some.inj (hstep'.symm.trans hstep)
      exact ⟨inputs ++ [x], by simp [hevents], hquiet'⟩

/-- Every sequence of inputs is a run. -/
theorem run_of_inputs (onApply : Nat → Bool) (inputs : List SimInput) :
    ∃ tr s, PaxosRun 1 onApply (fun _ _ => True) tr s
      ∧ tr.map Prod.snd = inputs.map SimInput.event ∧ Quiet (onApply 0) inputs s := by
  induction inputs using List.reverseRecOn with
  | nil => exact ⟨[], _, .nil, rfl, initial_quiet onApply⟩
  | append_singleton inputs x ih =>
      obtain ⟨tr, s, hrun, hevents, hquiet⟩ := ih
      obtain ⟨s', hstep, hquiet'⟩ := hquiet.input x
      exact ⟨tr ++ [(s, x.event)], s', hrun.snoc trivial hstep, by simp [hevents], hquiet'⟩

/-- **A single replica is the bare state machine.** Requests and ticks can
follow each other in any order, and nothing else happens: no message, no
wait. After any of them every call has returned what a bare database answers
to the same requests, `db_` is that database, `on_apply_` was called for
every request but the reads, and the log is empty. -/
theorem single_replica_is_bare (onApply : Nat → Bool) :
    (∀ inputs : List SimInput, ∃ tr s, PaxosRun 1 onApply (fun _ _ => True) tr s
      ∧ tr.map Prod.snd = inputs.map SimInput.event)
    ∧ ∀ tr s, PaxosRun 1 onApply (fun _ _ => True) tr s →
        ∃ inputs : List SimInput, tr.map Prod.snd = inputs.map SimInput.event
          ∧ s.network = []
          ∧ (s.replicas 0).db = TaskManagerDb.replay (requests inputs)
          ∧ (s.replicas 0).calls.map Call.result
            = (bareAnswers ((requests inputs).map stamp)).map some
          ∧ (onApply 0 = true →
              (s.replicas 0).reported = bareReports ((requests inputs).map stamp))
          ∧ (s.replicas 0).log = []
          ∧ (s.replicas 0).logBase = (s.replicas 0).nextSlot
          ∧ (s.replicas 0).decidedSlot = (s.replicas 0).nextSlot
          ∧ (s.replicas 0).appliedSlot = (s.replicas 0).nextSlot := by
  refine ⟨?_, ?_⟩
  · intro inputs
    obtain ⟨tr, s, hrun, hevents, -⟩ := run_of_inputs onApply inputs
    exact ⟨tr, s, hrun, hevents⟩
  · intro tr s hrun
    obtain ⟨inputs, hevents, hnetwork, hidle⟩ := quiet_of_run hrun
    refine ⟨inputs, hevents, hnetwork, ?_, hidle.results, ?_, hidle.log,
      hidle.logBase.trans hidle.nextSlot.symm, hidle.decidedSlot.trans hidle.nextSlot.symm,
      hidle.appliedSlot.trans hidle.nextSlot.symm⟩
    · rw [hidle.db, TaskManagerDb.execute_fst, List.map_map]
      exact congrArg TaskManagerDb.replay (List.map_id _)
    · intro hregistered
      rw [hidle.reported, if_pos hregistered]

end System

end Tmgr
