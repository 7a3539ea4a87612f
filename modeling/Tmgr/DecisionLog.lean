import Tmgr.PaxosSafety

/-!
# The decision log

`on_apply_` reports every applied request other than `/task_list`, and
`tm-server` writes one line of the decision log for each report. The log is
a history of the replica's database as long as everything that reaches
`process_req` is reported. `apply_decided` reports; the catch-up loop of
`become_leader` does not, and `unreported` is a run in which it applies a
task_create.

`decision_log_faithful`: that loop is the only way. Where it meets nothing
but `/task_list` requests, the log replays to the database, and replicas
that have applied equally much have equal logs.
-/

namespace Tmgr

/-! ## Executing values -/

namespace TaskManagerDb

theorem processReq_taskList (db : TaskManagerDb) {req : Request}
    (h : requestPath req = "/task_list") (now : Int) : (db.processReq req now).1 = db := by
  obtain ⟨l, rfl⟩ := requestPath_eq_taskList.mp h
  rfl

/-- Reads may be left out of a replay. -/
theorem replay_filter_reads (calls : List (Request × Int)) :
    replay (calls.filter fun c => requestPath c.1 ≠ "/task_list") = replay calls := by
  induction calls using List.reverseRecOn with
  | nil => rfl
  | append_singleton calls c ih =>
      obtain ⟨req, now⟩ := c
      rw [List.filter_append, replay_snoc]
      by_cases h : requestPath req = "/task_list"
      · simp only [h, ne_eq, not_true_eq_false, decide_false, Bool.false_eq_true,
          not_false_eq_true, List.filter_cons_of_neg, List.filter_nil, List.append_nil]
        rw [processReq_taskList _ h]
        exact ih
      · have hkeep : [(req, now)].filter (fun c => decide (requestPath c.1 ≠ "/task_list"))
            = [(req, now)] := by simp [h]
        rw [hkeep, replay_snoc, ih]

/-- A fresh database and its answers, after a list of decided values. -/
def execute (values : List DecidedValue) : TaskManagerDb × List Response :=
  values.foldl (fun out dv =>
    let next := out.1.processReq dv.req dv.nowUnix
    (next.1, out.2 ++ [next.2])) ({}, [])

theorem execute_snoc (values : List DecidedValue) (dv : DecidedValue) :
    execute (values ++ [dv])
      = (((execute values).1.processReq dv.req dv.nowUnix).1,
        (execute values).2 ++ [((execute values).1.processReq dv.req dv.nowUnix).2]) := by
  simp [execute]

theorem execute_snd_length (values : List DecidedValue) :
    (execute values).2.length = values.length := by
  induction values using List.reverseRecOn with
  | nil => rfl
  | append_singleton values dv ih =>
      rw [execute_snoc]
      simp [ih]

theorem execute_fst (values : List DecidedValue) :
    (execute values).1 = replay (values.map fun dv => (dv.req, dv.nowUnix)) := by
  induction values using List.reverseRecOn with
  | nil => rfl
  | append_singleton values dv ih =>
      rw [execute_snoc, List.map_append, List.map_singleton, replay_snoc, ih]

end TaskManagerDb

namespace PtPaxosReplica

open TaskManagerDb

/-! ## What is reported -/

/-- The reports that the `process_req` calls `ps` should have produced. -/
def reports (ps : List Processed) : List Reported :=
  (ps.filter fun p => requestPath p.dv.req ≠ "/task_list").map fun p =>
    ⟨p.dv, requestPath p.dv.req, p.resp.errcode⟩

theorem reports_snoc (ps : List Processed) (p : Processed) :
    reports (ps ++ [p])
      = if requestPath p.dv.req ≠ "/task_list" then
          reports ps ++ [⟨p.dv, requestPath p.dv.req, p.resp.errcode⟩]
        else reports ps := by
  unfold reports
  rw [List.filter_append, List.map_append]
  split <;> simp_all

/-- The reports depend on the values and the answers only. -/
theorem reports_congr {ps qs : List Processed} (hdv : ps.map (·.dv) = qs.map (·.dv))
    (hresp : ps.map (·.resp) = qs.map (·.resp)) : reports ps = reports qs := by
  induction ps generalizing qs with
  | nil =>
      cases qs with
      | nil => rfl
      | cons q qs => simp at hdv
  | cons p ps ih =>
      cases qs with
      | nil => simp at hdv
      | cons q qs =>
          simp only [List.map_cons, List.cons.injEq] at hdv hresp
          have htail := ih hdv.2 hresp.2
          unfold reports at htail ⊢
          simp only [List.filter_cons, hdv.1]
          split
          · rw [List.map_cons, List.map_cons, htail, hdv.1, hresp.1]
          · exact htail

theorem replay_reports (ps : List Processed) :
    replay ((reports ps).map fun q => (q.dv.req, q.dv.nowUnix))
      = replay (ps.map fun p => (p.dv.req, p.dv.nowUnix)) := by
  rw [← replay_filter_reads (ps.map _), List.filter_map, reports, List.map_map]
  rfl

/-- The invariant: the answers are those of a fresh database, and what should
have been reported was, if the catch-ups so far were `quiet`. -/
structure LogOk (quiet registered : Bool) (r : PtPaxosReplica) : Prop where
  onApply : r.onApply = registered
  executed : (r.db, r.processed.map (·.resp)) = execute (r.processed.map (·.dv))
  reported : quiet = true → registered = true → r.reported = reports r.processed

variable {n i : Nat} {q b : Bool} {r : PtPaxosReplica}

theorem initial_logOk (n : Nat) (q b : Bool) : LogOk q b (PtPaxosReplica.initial n b) :=
  ⟨rfl, rfl, fun _ _ => rfl⟩

theorem executed_processSlot (dv : DecidedValue)
    (h : (r.db, r.processed.map (·.resp)) = execute (r.processed.map (·.dv))) :
    ((r.processSlot dv).db, (r.processSlot dv).processed.map (·.resp))
      = execute ((r.processSlot dv).processed.map (·.dv)) := by
  simp only [processSlot, List.map_append, List.map_cons, List.map_nil, execute_snoc, ← h]

theorem LogOk.applySlot (h : LogOk q b r) (dv : DecidedValue) : LogOk q b (applySlot r dv) where
  onApply := h.onApply
  executed := executed_processSlot dv h.executed
  reported hq hb := by
    have honApply : r.onApply = true := h.onApply.trans hb
    simp only [PtPaxosReplica.applySlot, processSlot, reports_snoc, honApply, true_and,
      h.reported hq hb]

theorem LogOk.applyDecided (h : LogOk q b r) : LogOk q b (r.applyDecided n i) :=
  applyDecided_induct (P := LogOk q b) { h with } (fun _ dv h _ => h.applySlot dv)
    fun _ h => { h with }

/-! ## Catching up -/

/-- The entries that `become_leader` would apply on the way to `best.slot`
are reads. -/
def readsUpTo (best : PaxosMessage) (r : PtPaxosReplica) : Prop :=
  ∀ k < best.slot, r.appliedSlot ≤ k → ∀ dv ∈ r.log[k - r.logBase]?,
    requestPath dv.req = "/task_list"

instance (best : PaxosMessage) (r : PtPaxosReplica) : Decidable (r.readsUpTo best) :=
  inferInstanceAs (Decidable (∀ k < best.slot, r.appliedSlot ≤ k →
    ∀ dv ∈ r.log[k - r.logBase]?, requestPath dv.req = "/task_list"))

theorem LogOk.catchUp (h : LogOk q b r) {best : PaxosMessage}
    (hreads : q = true → r.readsUpTo best) :
    LogOk q b (r.catchUp best) := by
  suffices hloop : LogOk q b (r.catchUp best) ∧ r.appliedSlot ≤ (r.catchUp best).appliedSlot
      ∧ (r.catchUp best).log = r.log ∧ (r.catchUp best).logBase = r.logBase from hloop.1
  refine applyUpTo_induct (P := fun r' => LogOk q b r'
    ∧ r.appliedSlot ≤ r'.appliedSlot ∧ r'.log = r.log ∧ r'.logBase = r.logBase)
    ⟨h, le_rfl, rfl, rfl⟩ ?_
  intro r' dv hr' hlt hdv
  obtain ⟨h', hle, hlog, hbase⟩ := hr'
  rw [hlog, hbase] at hdv
  refine ⟨⟨h'.onApply, executed_processSlot dv h'.executed, ?_⟩,
    hle.trans (Nat.le_succ _), hlog, hbase⟩
  intro hq hb
  have hread := hreads hq _ hlt hle dv hdv
  rw [processSlot, reports_snoc, if_neg (not_not.mpr hread)]
  exact h'.reported hq hb

theorem LogOk.adopt (h : LogOk q b r) {best : PaxosMessage}
    (hreads : q = true → r.readsUpTo best) :
    LogOk q b (r.adopt i best) :=
  { h.catchUp hreads with }

/-! ## Turns -/

/-- If the event makes the replica the leader, it catches up over reads only. -/
def quietCatchUp (n : Nat) (r : PtPaxosReplica) : LocalEvent → Prop
  | .receive msg _ => ∀ best ∈ r.elects n msg, r.readsUpTo best
  | _ => True

instance (n : Nat) (r : PtPaxosReplica) (ev : LocalEvent) : Decidable (r.quietCatchUp n ev) := by
  cases ev <;> unfold quietCatchUp <;> infer_instance

theorem LogOk.runSendPropose (h : LogOk q b r) (k : Nat) :
    LogOk q b (r.runSendPropose n i k).1 :=
  runSendPropose_induct (P := LogOk q b) h (fun h => h.applyDecided) (fun _ _ h => { h with }) k

theorem LogOk.callSendPropose (h : LogOk q b r) (c k : Nat) :
    LogOk q b (r.callSendPropose n i c k).1 :=
  callSendPropose_induct (P := LogOk q b) h (fun h => h.applyDecided) (fun _ _ _ h => { h with })
    c k

/-- A replica that elects itself alone has nothing to catch up. -/
theorem LogOk.runProbe (h : LogOk q b r) (hwf : Wf n i r) (hnil : r.prepareResponses = [])
    (k : Nat) : LogOk q b (r.runProbe n i k).1 := by
  refine runProbe_induct (fun _ _ => { h with }) ?_ k
  intro best hbest
  rw [hnil] at hbest
  obtain rfl := Option.some.inj hbest
  have hadd : LogOk q b (r.addResponse (r.prepareMsg i r.electionRound)) := { h with }
  refine (hadd.adopt ?_).runSendPropose 0
  intro _ k hk hle
  exact absurd (hk.trans_le (hwf.base_le.trans hle)) (lt_irrefl k)

theorem LogOk.stepDown (h : LogOk q b r) (now : Nat) (msg : PaxosMessage) :
    LogOk q b (r.stepDown now msg) := by
  unfold PtPaxosReplica.stepDown
  split
  · exact { h with }
  · exact h

theorem LogOk.install (h : LogOk q b r) (msg : PaxosMessage) : LogOk q b (r.install msg) := by
  simp only [PtPaxosReplica.install]
  split <;> split <;> exact { h with }

theorem LogOk.acceptPropose (h : LogOk q b r) (now : Nat) (msg : PaxosMessage) :
    LogOk q b (r.acceptPropose n i now msg) :=
  acceptPropose_induct (P := LogOk q b) { h.install msg with } (fun _ h => h.applyDecided)
    fun _ h => { h with }

theorem Turn.logOk {ev : LocalEvent} {x : PtPaxosReplica × List Packet} (ht : Turn n i r ev x)
    (hi : i < n) (hwf : Wf n i r) (h : LogOk q b r) (hok : q = true → r.quietCatchUp n ev) :
    LogOk q b x.1 := by
  cases ht with
  | ignore => exact h.stepDown _ _
  | probe => exact { h.stepDown _ _ with }
  | vote => exact { h.stepDown _ _ with }
  | @elect msg best now hrecv htype hround helection hquorum hbest =>
      have hle := hwf.election_le
      have helects := elects_of_quorum htype hround helection hquorum hbest
      rw [stepDown_eq (by omega)]
      have hadd : LogOk q b (r.addResponse msg) := { h with }
      exact (hadd.adopt fun hq => hok hq best helects).runSendPropose 0
  | @ack msg now =>
      refine LogOk.applyDecided ?_
      unfold recordAck
      split
      · exact { h.stepDown now msg with }
      · exact h.stepDown now msg
  | stale => exact { h.stepDown _ _ with }
  | @accept msg now =>
      have hfollow : LogOk q b { r.stepDown now msg with leaderIndex := msg.sender } :=
        { h.stepDown now msg with }
      exact { hfollow.acceptPropose now msg with }
  | quiet => exact h
  | retransmit => exact h.runSendPropose 0
  | start hrecv hfollower =>
      have hpick : LogOk q b (r.pickRound n i) := { h with }
      exact hpick.runProbe (hwf.pickRound hi hrecv hfollower) rfl 0
  | refuse => exact { h with }
  | @append req nowUnix =>
      have happend : LogOk q b (r.appendCall i nowUnix req) := { h with }
      exact happend.callSendPropose _ 0
  | replied => exact { h with }
  | probing hframe => exact h.runProbe hwf (hwf.probing hframe).2.2.2 _
  | proposing => exact h.runSendPropose _
  | sending => exact h.callSendPropose _ _
  | finish => exact finishCall_induct (P := LogOk q b) h (fun _ _ => { h with }) _

end PtPaxosReplica

/-! ## Runs -/

namespace System

open PtPaxosReplica

def quietCatchUp (n : Nat) (s : System) (e : Event) : Prop :=
  ∀ x ∈ s.target e, (s.replicas x.1).quietCatchUp n x.2.1

instance (n : Nat) (s : System) (e : Event) : Decidable (s.quietCatchUp n e) :=
  inferInstanceAs (Decidable (∀ x ∈ s.target e, (s.replicas x.1).quietCatchUp n x.2.1))

/-- The decision log of every replica replays to its database. -/
def LogsReplay (n : Nat) (onApply : Nat → Bool) (s : System) : Prop :=
  ∀ i < n, onApply i = true →
    TaskManagerDb.replay ((s.replicas i).reported.map fun q => (q.dv.req, q.dv.nowUnix))
      = (s.replicas i).db

/-- Replicas that have applied equally much have equal decision logs. -/
def LogsAgree (n : Nat) (onApply : Nat → Bool) (s : System) : Prop :=
  ∀ i < n, ∀ j < n, onApply i = true → onApply j = true →
    (s.replicas i).appliedSlot = (s.replicas j).appliedSlot →
    (s.replicas i).reported = (s.replicas j).reported

variable {n : Nat} {onApply : Nat → Bool} {tr : List (System × Event)} {s : System}

theorem run_logOk {ok : System → Event → Prop} {q : Bool} (hrun : PaxosRun n onApply ok tr s)
    (hq : ∀ s e, ok s e → q = true → s.quietCatchUp n e) :
    ∀ i < n, Wf n i (s.replicas i) ∧ LogOk q (onApply i) (s.replicas i) := by
  let P := fun i r => Wf n i r ∧ LogOk q (onApply i) r
  exact (hrun.invariant (I := fun s =>
    (∀ i < n, P i (s.replicas i)) ∧ ∀ p ∈ s.network, PacketWf n p)
    ⟨fun i hi => ⟨initial_wf hi _, initial_logOk n _ _⟩, by simp [initial]⟩
    fun hI hok hstep => step_invariant (P := P) (fun hi htarget hP hM hlocal => by
      have ht := localStep_turn hlocal
      obtain ⟨hwf, hout⟩ := ht.wf hi hP.1 hM
      exact ⟨⟨hwf, ht.logOk hi hP.1 hP.2 fun h => hq _ _ hok h _ htarget⟩, hout⟩) hI hstep).1

/-- In a run in which every new leader catches up over reads only, the
decision logs replay to the databases; and they agree if moreover calls send
on only at leaders. -/
theorem decision_log_faithful
    (hrun : PaxosRun n onApply (fun s e => s.quietCatchUp n e) tr s) :
    LogsReplay n onApply s
      ∧ ((∀ p ∈ tr, p.1.leaderSends n p.2) → LogsAgree n onApply s) := by
  have hlogs := run_logOk (q := true) hrun fun _ _ h _ => h
  refine ⟨?_, ?_⟩
  · intro i hi hon
    obtain ⟨hwf, hlog⟩ := hlogs i hi
    rw [hlog.reported rfl hon, replay_reports, hwf.db]
  · intro hsends i hi j hj hon hon' happlied
    obtain ⟨h, hinv, -⟩ := run_inv (hrun.guard hsends)
    have hvalues := (hinv.replicas i hi).follows.values_eq (hinv.replicas j hj).follows
      hinv.valid happlied
    have hresp : (s.replicas i).processed.map (·.resp) = (s.replicas j).processed.map (·.resp) := by
      have hi' := congrArg Prod.snd (hlogs i hi).2.executed
      have hj' := congrArg Prod.snd (hlogs j hj).2.executed
      simp only at hi' hj'
      rw [hi', hj', hvalues]
    rw [(hlogs i hi).2.reported rfl hon, (hlogs j hj).2.reported rfl hon']
    exact reports_congr hvalues hresp

/-- Replicas 0 and 1 have applied slot 0 when replica 1 elects replica 2,
which has nothing to catch up. -/
def electedLevel : List Event :=
  [.propose 0 (.taskCreate { serial := 1 }) 10, .resumeCall 0 0, .resumeCall 0 0,
   .deliver 0 11, .resumeRun 1, .deliver 1 12, .timeout 0 20, .resumeRun 0, .resumeRun 0,
   .deliver 1 21, .resumeRun 1, .timeout 2 600, .resumeRun 2, .resumeRun 2,
   .deliver 4 601, .resumeRun 1, .deliver 4 602]

theorem decision_log_faithful_electedLevel :
    LogsReplay 3 (fun _ => true)
        (((initial 3 fun _ => true).exec 3 electedLevel).get (by decide +kernel))
      ∧ LogsAgree 3 (fun _ => true)
        (((initial 3 fun _ => true).exec 3 electedLevel).get (by decide +kernel)) :=
  (decision_log_faithful
    (Runs.run_of_exec electedLevel (by decide +kernel) (by decide +kernel))).imp id
    fun h => h (by decide +kernel)

/-- Every replica has acknowledged slot 0 and replica 0 has truncated it when
replica 2 gets slot 1. Replica 1 does not know that slot 0 is decided, is
elected by replica 2, and applies slot 0 while it adopts the log of replica
2, which starts at slot 1. -/
def unreported : List Event :=
  [.propose 0 (.taskCreate { serial := 1 }) 10, .resumeCall 0 0, .resumeCall 0 0,
   .deliver 0 11, .resumeRun 1, .deliver 0 11, .resumeRun 2, .deliver 0 12, .deliver 0 12,
   .propose 0 (.taskCreate { serial := 2 }) 13, .lose 0, .resumeCall 0 1, .resumeCall 0 1,
   .deliver 0 14, .resumeRun 2, .lose 0,
   .timeout 1 600, .lose 0, .resumeRun 1, .resumeRun 1, .deliver 0 601, .resumeRun 2,
   .deliver 0 602]

theorem not_decision_log_faithful :
    ¬∀ (n : Nat) (onApply : Nat → Bool) (tr : List (System × Event)) (s : System),
      PaxosRun n onApply (fun _ _ => True) tr s →
      LogsReplay n onApply s ∧ LogsAgree n onApply s := by
  intro h
  have hreplay := (h 3 (fun _ => true) _ _
    (Runs.run_of_exec unreported (by decide +kernel) fun _ _ => trivial)).1 1 (by decide) rfl
  revert hreplay
  decide +kernel

end System

end Tmgr
