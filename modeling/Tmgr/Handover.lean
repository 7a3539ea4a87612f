import Tmgr.ReplayLoop

/-!
# Handovers seen by the replay

`tm-replay` reports a `lease_reclaim` where the owner names in two
consecutive dumps differ and neither is empty. Between the two lies one
request, and the only request that gives a task that has an owner to another
one is a claim that finds its lease run out (`mem_reclaimsAt`). A claim by
the agent that already owns the task leaves no trace.
-/

namespace Tmgr

open Runs TaskManagerDb

/-! ## The owners in a dump -/

theorem formatTaskId_ne_empty (k : Nat) : formatTaskId k ≠ "" := by
  intro h
  have hlen := congrArg String.length h
  simp [formatTaskId] at hlen

/-- Reading back records that are stored under their ids. -/
theorem foldl_owners {db : TaskManagerDb} (id : TaskId) {ts : List TaskRecord}
    (hts : ∀ t ∈ ts, db.find t.id = some t ∧ t.id ≠ "") :
    (ts.foldl (fun (byTask : OwnerIndex) t =>
        if t.id ≠ "" then byTask.insert t.id t.owner else byTask) ∅)[id]?
      = if id ∈ ts.map TaskRecord.id then (db.find id).map TaskRecord.owner else none := by
  induction ts using List.reverseRecOn with
  | nil => simp
  | append_singleton ts t ih =>
      obtain ⟨hold, hlast⟩ := List.forall_mem_append.mp hts
      obtain ⟨hf, hne⟩ := hlast t List.mem_cons_self
      rw [List.foldl_append, List.foldl_cons, List.foldl_nil, if_pos hne,
        Std.TreeMap.getElem?_insert, ih hold]
      by_cases hid : t.id = id
      · subst hid
        simp [hf]
      · simp [hid, Ne.symm hid]

theorem owners_getElem? {db : TaskManagerDb} (hw : Wf db) (id : TaskId) :
    (owners db)[id]? = (db.find id).map TaskRecord.owner := by
  have hts : ∀ t ∈ db.taskOrder.filterMap db.find, db.find t.id = some t ∧ t.id ≠ "" := by
    intro t ht
    obtain ⟨tid, hmem, hf⟩ := List.mem_filterMap.mp ht
    have hid : t.id = tid := (hw.record tid t hf).id_eq
    rw [hw.order] at hmem
    obtain ⟨i, -, rfl⟩ := List.mem_map.mp hmem
    exact ⟨hid ▸ hf, hid ▸ formatTaskId_ne_empty _⟩
  rw [owners, foldl_owners id hts]
  cases hf : db.find id with
  | none => simp
  | some t =>
      have hmem : id ∈ (db.taskOrder.filterMap db.find).map TaskRecord.id := by
        refine List.mem_map.mpr ⟨t, List.mem_filterMap.mpr ⟨id, ?_, hf⟩, (hw.record id t hf).id_eq⟩
        exact (hw.keys id).mp (mem_tasks_iff.mpr ⟨t, hf⟩)
      rw [if_pos hmem]

/-! ## From one dump to the next -/

/-- The owner name of a task, in a database that may not have it. -/
def ownerName (db : TaskManagerDb) (id : TaskId) : String :=
  ((db.find id).map TaskRecord.ownerAgent).getD ""

theorem ownerName_of_find {db : TaskManagerDb} {id : TaskId} {t : TaskRecord}
    (hf : db.find id = some t) : ownerName db id = t.ownerAgent := by
  simp [ownerName, hf]

theorem find_of_ownerName {db : TaskManagerDb} {id : TaskId} (h : ownerName db id ≠ "") :
    ∃ t, db.find id = some t := by
  cases hf : db.find id with
  | none => exact absurd (by simp [ownerName, hf]) h
  | some t => exact ⟨t, rfl⟩

theorem reclaim_owners {db : TaskManagerDb} (hw : Wf db) (e : LogEntry)
    (now : TaskId × (String × Int)) :
    reclaim e (owners db) now
      = if now.2.1 ≠ "" ∧ now.2.1 ≠ ownerName db now.1 ∧ ownerName db now.1 ≠ "" then
          some (.leaseReclaim e.seq e.nowUnix now.1 (ownerName db now.1) now.2.1)
        else none := by
  unfold reclaim ownerName
  rw [owners_getElem? hw]
  cases db.find now.1 <;> rfl

/-- What is reported at an event: the tasks whose owner changed. -/
theorem mem_reclaimsAt {past : List LogEntry} {e : LogEntry} {ev : InterestingEvent} :
    ev ∈ reclaimsAt past e ↔ ∃ id,
      ev = .leaseReclaim e.seq e.nowUnix id (ownerName (replay (calls past)) id)
          (ownerName (replay (calls (past ++ [e]))) id)
        ∧ ownerName (replay (calls past)) id ≠ ""
        ∧ ownerName (replay (calls (past ++ [e]))) id ≠ ""
        ∧ ownerName (replay (calls (past ++ [e]))) id ≠ ownerName (replay (calls past)) id := by
  unfold reclaimsAt
  rw [List.mem_filterMap]
  constructor
  · rintro ⟨⟨id, owner⟩, hmem, hev⟩
    rw [Std.TreeMap.mem_toList_iff_getElem?_eq_some, owners_getElem? (wf_replay _),
      Option.map_eq_some_iff] at hmem
    obtain ⟨t, hf, rfl⟩ := hmem
    rw [reclaim_owners (wf_replay _)] at hev
    split at hev
    · rename_i hcond
      obtain ⟨hnew, hne, hold⟩ := hcond
      refine ⟨id, ?_⟩
      rw [ownerName_of_find hf]
      exact ⟨(Option.some.inj hev).symm, hold, hnew, hne⟩
    · cases hev
  · rintro ⟨id, rfl, hold, hnew, hne⟩
    obtain ⟨t, hf⟩ := find_of_ownerName hnew
    rw [ownerName_of_find hf] at hnew hne ⊢
    refine ⟨(id, t.owner), ?_, ?_⟩
    · rw [Std.TreeMap.mem_toList_iff_getElem?_eq_some, owners_getElem? (wf_replay _), hf]
      rfl
    · rw [reclaim_owners (wf_replay _)]
      exact if_pos ⟨hnew, hne, hold⟩

/-- A request that moves a task from one owner name to another. -/
theorem ownerName_change {db : TaskManagerDb} (hw : Wf db) {req : Request} {now : Int}
    {id : TaskId} (hold : ownerName db id ≠ "")
    (hnew : ownerName (db.processReq req now).1 id ≠ "")
    (hne : ownerName (db.processReq req now).1 id ≠ ownerName db id) :
    ∃ r t, req = .taskClaim r ∧ grantedClaim (db.processReq req now).2 = some (id, db.nextToken)
      ∧ db.find id = some t ∧ t.status = .inProgress ∧ t.ownerAgent = ownerName db id
      ∧ r.agentId = ownerName (db.processReq req now).1 id := by
  obtain ⟨t, hf⟩ := find_of_ownerName hold
  obtain ⟨t', hf', hst⟩ := processReq_record req now hf
  rw [ownerName_of_find hf, ownerName_of_find hf'] at hne
  rw [ownerName_of_find hf] at hold ⊢
  rw [ownerName_of_find hf'] at hnew ⊢
  cases hst with
  | same => exact absurd rfl hne
  | heartbeat hreq hid htoken hzero => exact absurd rfl hne
  | @claimed r hreq hh hpick =>
      subst hreq
      have hrun : t.status = .inProgress := by_contra fun h => hold ((hw.record id t hf).unowned h)
      exact ⟨r, t, rfl, hw.grantedClaim_of_pick hh hpick, hf, hrun, rfl, rfl⟩
  | completed hreq hid htoken hzero hok => exact absurd rfl hnew
  | failed hreq hid htoken hzero hok => exact absurd rfl hnew

/-- After a granted claim the claimer owns the task. -/
theorem ownerName_of_granted {db : TaskManagerDb} (hw : Wf db) {r : TaskClaimRequest} {now : Int}
    {id : TaskId} {k : FencingToken}
    (hk : grantedClaim (db.processReq (.taskClaim r) now).2 = some (id, k)) :
    ownerName (db.processReq (.taskClaim r) now).1 id = r.agentId := by
  obtain ⟨r', t, hreq, -, -, hf', -⟩ := (processReq_effect db (.taskClaim r) now).granted hw hk
  obtain rfl := Request.taskClaim.inj hreq
  exact ownerName_of_find hf'

/-- The event is a claim that was granted `id` while `fromAgent` owned it. -/
def TakenOver (past : List LogEntry) (e : LogEntry) (id : TaskId) (fromAgent toAgent : String) :
    Prop :=
  ∃ r k t, e.req = .taskClaim r ∧ r.agentId = toAgent
    ∧ grantedClaim (response (calls past) e.call) = some (id, k)
    ∧ (replay (calls past)).find id = some t ∧ t.status = .inProgress ∧ t.ownerAgent = fromAgent

theorem mem_reclaimsAt_iff {past : List LogEntry} {e : LogEntry} {ev : InterestingEvent} :
    ev ∈ reclaimsAt past e ↔ ∃ id fromAgent toAgent,
      ev = .leaseReclaim e.seq e.nowUnix id fromAgent toAgent
        ∧ TakenOver past e id fromAgent toAgent
        ∧ fromAgent ≠ "" ∧ toAgent ≠ "" ∧ toAgent ≠ fromAgent := by
  have hw := wf_replay (calls past)
  rw [mem_reclaimsAt, calls_concat, replay_snoc]
  constructor
  · rintro ⟨id, hev, hold, hnew, hne⟩
    obtain ⟨r, t, hreq, hgrant, hf, hrun, hfrom, hto⟩ := ownerName_change hw hold hnew hne
    exact ⟨id, _, _, hev, ⟨r, _, t, hreq, hto, hgrant, hf, hrun, hfrom⟩, hold, hnew, hne⟩
  · rintro ⟨id, _, _, hev, ⟨r, k, t, hreq, rfl, hgrant, hf, -, rfl⟩, hold, hnew, hne⟩
    simp only [response, LogEntry.call, hreq] at hgrant
    have hto := ownerName_of_granted hw hgrant
    rw [hreq]
    refine ⟨id, ?_⟩
    rw [hto, ownerName_of_find hf]
    exact ⟨hev, hold, hnew, hne⟩

/-! ## The output -/

/-- **The reclaim events of a replay.** An event of the first log is reported
as a `lease_reclaim` of a task if and only if it is a claim that was granted
the task while another agent owned it, and both agents have a name. -/
theorem reclaims_are_takeovers (xxh3 : List UInt8 → UInt64) (log0 : DecisionLog)
    (others : List DecisionLog) :
    ∃ final, Replay.run xxh3 log0 others log0.entries = .ok final
      ∧ replayLogs xxh3 log0 others = .ok final.document
      ∧ ∀ p e r, log0.entries = p ++ e :: r → ∃ st st' evs,
        Replay.run xxh3 log0 others p = .ok st ∧ Replay.run xxh3 log0 others (p ++ [e]) = .ok st'
        ∧ st'.interesting = st.interesting ++ evs ∧ st'.interesting <+: final.interesting
        ∧ ∀ seq nowUnix id fromAgent toAgent,
          .leaseReclaim seq nowUnix id fromAgent toAgent ∈ evs
            ↔ seq = e.seq ∧ nowUnix = e.nowUnix ∧ TakenOver p e id fromAgent toAgent
              ∧ fromAgent ≠ "" ∧ toAgent ≠ "" ∧ toAgent ≠ fromAgent := by
  refine ⟨_, Replay.run_eq .., replayLogs_eq .., ?_⟩
  intro p e r hsplit
  refine ⟨_, _, eventsAt p e, Replay.run_eq .., Replay.run_eq .., collect_concat .., ?_, ?_⟩
  · have hlonger := collect_isPrefix eventsAt (p ++ [e]) r
    rwa [List.append_assoc, List.singleton_append, ← hsplit] at hlonger
  · intro seq nowUnix id fromAgent toAgent
    have hmem : InterestingEvent.leaseReclaim seq nowUnix id fromAgent toAgent ∈ eventsAt p e
        ↔ InterestingEvent.leaseReclaim seq nowUnix id fromAgent toAgent ∈ reclaimsAt p e := by
      unfold eventsAt
      simp only [List.mem_append]
      constructor
      · rintro ((h | h) | h)
        · split at h <;> simp at h
        · exact h
        · split at h <;> simp at h
      · exact fun h => .inl (.inr h)
    rw [hmem, mem_reclaimsAt_iff]
    constructor
    · rintro ⟨id', from', to', hev, hrest⟩
      obtain ⟨rfl, rfl, rfl, rfl, rfl⟩ := InterestingEvent.leaseReclaim.inj hev
      exact ⟨rfl, rfl, hrest⟩
    · rintro ⟨rfl, rfl, hrest⟩
      exact ⟨id, fromAgent, toAgent, rfl, hrest⟩

/-- A plan is created and claimed; its owner lets the lease run out. -/
def lapsedClaim : List LogEntry :=
  [⟨1, 100, 100, "/task_create", .taskCreate {}⟩,
   ⟨2, 101, 101, "/task_claim", .taskClaim { agentId := "a" }⟩]

/-- It claims the task again. -/
def claimAgain : LogEntry :=
  ⟨3, 200, 200, "/task_claim", .taskClaim { agentId := "a" }⟩

/-- Nothing is reported when an agent takes its own lapsed task over. -/
theorem not_takeovers_reported :
    ¬∀ (xxh3 : List UInt8 → UInt64) (log0 : DecisionLog) (others : List DecisionLog)
      (p : List LogEntry) (e : LogEntry) (r : List LogEntry) (id : TaskId) (st st' : Replay),
      log0.entries = p ++ e :: r → Replay.run xxh3 log0 others p = .ok st →
      Replay.run xxh3 log0 others (p ++ [e]) = .ok st' →
      ((∃ seq nowUnix fromAgent toAgent, .leaseReclaim seq nowUnix id fromAgent toAgent
          ∈ st'.interesting.drop st.interesting.length)
        ↔ ∃ fromAgent toAgent, TakenOver p e id fromAgent toAgent) := by
  intro h
  have htaken : TakenOver lapsedClaim claimAgain "t/0001" "a" "a" :=
    ⟨_, 2, _, rfl, rfl, by decide +kernel, by rfl, rfl, rfl⟩
  have hiff := h (fun _ => 0) ⟨"logs/tm-0.log", lapsedClaim ++ [claimAgain]⟩ [] lapsedClaim
    claimAgain [] "t/0001" _ _ rfl (Replay.run_eq ..) (Replay.run_eq ..)
  obtain ⟨seq, nowUnix, fromAgent, toAgent, hmem⟩ := hiff.mpr ⟨"a", "a", htaken⟩
  have hnone : eventsAt lapsedClaim claimAgain = [] := by decide +kernel
  simp [Replay.after, hnone] at hmem

end Tmgr
