import Tmgr.Fencing
import Tmgr.Lib.Run
import Tmgr.Replay

/-!
# The replay loop, event by event

What the loop of `tm-replay` holds after a list of events, in terms of the
databases those events lead to (`Replay.after`): it never throws
(`Replay.run_eq`), the running hash is that of the last state whether or not
that state was kept, and snapshots and interesting events are what each event
puts out on its own (`snapshotsAt`, `eventsAt`).

From this follows that dropping snapshots loses nothing
(`collapse_loses_nothing`).
-/

namespace Tmgr

open Runs TaskManagerDb

/-! ## Reading a dump back -/

/-- `owner_agent` and `owner_token`, as they are read from a dump. -/
def TaskRecord.owner (t : TaskRecord) : String × Int :=
  (t.ownerAgent, Int.bmod t.ownerToken (2 ^ 64))

theorem OwnerIndex.add_dump (byTask : OwnerIndex) (t : TaskRecord) :
    byTask.add t.dump
      = .ok (if t.id ≠ "" then byTask.insert t.id t.owner else byTask) := by
  simp [OwnerIndex.add, TaskRecord.dump, TaskRecord.owner, Json.getInt64, bind, Except.bind,
    pure, Except.pure]

/-- What `owner_index` holds after reading the dump of a database. -/
def owners (db : TaskManagerDb) : OwnerIndex :=
  (db.taskOrder.filterMap db.find).foldl
    (fun byTask t => if t.id ≠ "" then byTask.insert t.id t.owner else byTask) ∅

theorem OwnerIndex.foldlM_add (ts : List TaskRecord) (byTask : OwnerIndex) :
    (ts.map TaskRecord.dump).foldlM OwnerIndex.add byTask
      = .ok (ts.foldl (fun byTask t =>
          if t.id ≠ "" then byTask.insert t.id t.owner else byTask) byTask) := by
  induction ts generalizing byTask with
  | nil => rfl
  | cons t ts ih =>
      rw [List.map_cons, List.foldlM_cons, OwnerIndex.add_dump]
      exact ih _

theorem OwnerIndex.load_dumpState (db : TaskManagerDb) :
    OwnerIndex.load (dumpState db) = .ok (owners db) := by
  simp only [OwnerIndex.load, find?_tasks]
  rw [← List.map_filterMap, OwnerIndex.foldlM_add]
  rfl

theorem readLock_dumpState (db : TaskManagerDb) :
    readLock (dumpState db)
      = .ok (db.mainLock.holderAgent, Int.bmod db.mainLock.lockToken (2 ^ 64)) := by
  simp only [readLock, find?_main_lock, Json.ofFields_eq]
  simp [Json.getInt64, bind, Except.bind, pure, Except.pure]

/-- `process_req` answers a request in kind. -/
theorem summarize_processReq (db : TaskManagerDb) (req : Request) (now : Int) (path : String) :
    ∃ ov, summarize req (db.processReq req now).2 path = .ok ov := by
  cases req with
  | taskClaim r =>
      simp only [processReq, summarize, Prod.map]
      split <;> exact ⟨_, rfl⟩
  | _ => exact ⟨_, rfl⟩

/-! ## What an event puts out -/

/-- The requests of a list of events, with their clocks. -/
def calls (events : List LogEntry) : List (Request × Int) :=
  events.map LogEntry.call

@[simp] theorem calls_concat (past : List LogEntry) (e : LogEntry) :
    calls (past ++ [e]) = calls past ++ [(e.req, e.nowUnix)] := by
  simp [calls, LogEntry.call]

/-- The response to `e` after `past`. -/
def answer (past : List LogEntry) (e : LogEntry) : Response :=
  response (calls past) e.call

def opViewAt (past : List LogEntry) (e : LogEntry) : OpView :=
  (summarize e.req (answer past e) e.path).toOption.getD {}

def summaryAt (past : List LogEntry) (e : LogEntry) : String :=
  opSummary (opViewAt past e) (answer past e).base

def rejectedAt (past : List LogEntry) (e : LogEntry) : Prop :=
  (answer past e).errcode ≠ .ok

/-- The holder and the token of the main lock, as they are read from a
dump. -/
@[irreducible] def lockAfter (past : List LogEntry) : String × Int :=
  ((replay (calls past)).mainLock.holderAgent,
    Int.bmod (replay (calls past)).mainLock.lockToken (2 ^ 64))

@[simp] theorem lockAfter_nil : lockAfter [] = ("", 0) := by
  simp [lockAfter, calls, replay]

theorem readLock_stateAfter (events : List LogEntry) :
    readLock (dumpState (replay (calls events))) = .ok (lockAfter events) := by
  rw [readLock_dumpState, lockAfter]

def lockChangedAt (past : List LogEntry) (e : LogEntry) : Prop :=
  (lockAfter (past ++ [e])).1 ≠ (lockAfter past).1
    ∨ (lockAfter (past ++ [e])).2 ≠ (lockAfter past).2

def reclaimsAt (past : List LogEntry) (e : LogEntry) : List InterestingEvent :=
  (owners (replay (calls (past ++ [e])))).toList.filterMap
    (reclaim e (owners (replay (calls past))))

instance (past : List LogEntry) (e : LogEntry) : Decidable (rejectedAt past e) :=
  inferInstanceAs (Decidable (_ ≠ _))

instance (past : List LogEntry) (e : LogEntry) : Decidable (lockChangedAt past e) :=
  inferInstanceAs (Decidable (_ ∨ _))

/-- The interesting events that `e` adds. -/
def eventsAt (past : List LogEntry) (e : LogEntry) : List InterestingEvent :=
  (if lockChangedAt past e then
      [.lock e.seq e.nowUnix (lockAfter (past ++ [e])).1 (lockAfter (past ++ [e])).2] else [])
    ++ reclaimsAt past e
    ++ (if rejectedAt past e then
      [.rejected e.seq e.nowUnix (summaryAt past e) (answer past e).errcode] else [])

/-- The dump after a list of events. -/
def stateAfter (events : List LogEntry) : Json :=
  dumpState (replay (calls events))

section

variable (xxh3 : List UInt8 → UInt64)

/-- The event is kept: it changes the hash of the state, it is rejected, it is
a handover, or it changes the lock. -/
def keptAt (past : List LogEntry) (e : LogEntry) : Prop :=
  hashState xxh3 (stateAfter (past ++ [e])) ≠ hashState xxh3 (stateAfter past)
    ∨ rejectedAt past e ∨ reclaimsAt past e ≠ [] ∨ lockChangedAt past e

instance (past : List LogEntry) (e : LogEntry) : Decidable (keptAt xxh3 past e) :=
  inferInstanceAs (Decidable (_ ∨ _))

/-- The database that follows `log`, before the loop. -/
def Replica.start (log : DecisionLog) : Replica :=
  { id := replicaIdFromPath log.path, entries := log.entries }

/-- It follows the clocks of a list of events. -/
def Replica.follow (r : Replica) (events : List LogEntry) : Replica :=
  events.foldl (fun r e => r.advanceTo e.nowUnix) r

@[simp] theorem Replica.follow_concat (r : Replica) (events : List LogEntry) (e : LogEntry) :
    r.follow (events ++ [e]) = (r.follow events).advanceTo e.nowUnix := by
  simp [Replica.follow]

/-- The replicas after a list of events. -/
def replicasAfter (log0 : DecisionLog) (others : List DecisionLog) (events : List LogEntry) :
    List Replica :=
  (log0 :: others).map fun log => (Replica.start log).follow events

def snapshotAt (log0 : DecisionLog) (others : List DecisionLog) (past : List LogEntry)
    (e : LogEntry) : Snapshot :=
  { seq := e.seq, nowUnix := e.nowUnix, op := e.path, opSummary := summaryAt past e,
    affectedTaskId := (opViewAt past e).affectedTaskId, errcode := (answer past e).errcode,
    state := stateAfter (past ++ [e]),
    perReplicaState := perReplicaState (replicasAfter log0 others (past ++ [e])) }

/-- The snapshot that `e` adds, if any. -/
def snapshotsAt (log0 : DecisionLog) (others : List DecisionLog) (past : List LogEntry)
    (e : LogEntry) : List Snapshot :=
  if keptAt xxh3 past e then [snapshotAt log0 others past e] else []

/-- The snapshot before the loop. -/
def firstSnapshot (log0 : DecisionLog) (others : List DecisionLog) : Snapshot :=
  { seq := 0, nowUnix := 0, op := "", opSummary := "(initial state)", affectedTaskId := "",
    errcode := .ok, state := stateAfter [],
    perReplicaState := perReplicaState (replicasAfter log0 others []) }

/-! ## The loop -/

/-- The variables of the loop after a list of events. -/
def Replay.after (log0 : DecisionLog) (others : List DecisionLog) (events : List LogEntry) :
    Replay where
  replicas := replicasAfter log0 others events
  leaderSm := replay (calls events)
  prevOwners := owners (replay (calls events))
  prevLockHolder := (lockAfter events).1
  prevLockToken := (lockAfter events).2
  lastKeptHash := hashState xxh3 (stateAfter events)
  snapshots := firstSnapshot log0 others :: collect (snapshotsAt xxh3 log0 others) events
  interesting := collect eventsAt events

theorem Replay.initial_eq (log0 : DecisionLog) (others : List DecisionLog) :
    Replay.initial xxh3 log0 others = .ok (Replay.after xxh3 log0 others []) := by
  unfold Replay.initial Replay.after
  rw [OwnerIndex.load_dumpState, lockAfter_nil]
  rfl

theorem replicasAfter_concat (log0 : DecisionLog) (others : List DecisionLog)
    (past : List LogEntry) (e : LogEntry) :
    replicasAfter log0 others (past ++ [e])
      = (replicasAfter log0 others past).map (Replica.advanceTo e.nowUnix) := by
  simp [replicasAfter]

/-- One turn of the loop, once nothing throws. -/
theorem Replay.step_eq {st : Replay} {e : LogEntry} {db : TaskManagerDb} {resp : Response}
    {ov : OpView} {nowOwners : OwnerIndex} {lock : String × Int} {reclaims : List InterestingEvent}
    {kept lockChanged rejected : Prop} [Decidable kept] [Decidable lockChanged]
    [Decidable rejected]
    (hproc : st.leaderSm.processReq e.req e.nowUnix = (db, resp))
    (hov : summarize e.req resp e.path = .ok ov)
    (howners : OwnerIndex.load (dumpState db) = .ok nowOwners)
    (hlock : readLock (dumpState db) = .ok lock)
    (hreclaims : nowOwners.toList.filterMap (reclaim e st.prevOwners) = reclaims)
    (hchanged : (lock.1 ≠ st.prevLockHolder ∨ lock.2 ≠ st.prevLockToken) ↔ lockChanged)
    (hrejected : resp.base.errcode ≠ .ok ↔ rejected)
    (hkept : kept ↔ hashState xxh3 (dumpState db) ≠ st.lastKeptHash
      ∨ rejected ∨ reclaims ≠ [] ∨ lockChanged) :
    st.step xxh3 e = .ok
      { replicas := st.replicas.map (Replica.advanceTo e.nowUnix), leaderSm := db,
        prevOwners := nowOwners, prevLockHolder := lock.1, prevLockToken := lock.2,
        lastKeptHash := hashState xxh3 (dumpState db),
        snapshots := st.snapshots ++ if kept then
          [{ seq := e.seq, nowUnix := e.nowUnix, op := e.path, opSummary := opSummary ov resp.base,
             affectedTaskId := ov.affectedTaskId, errcode := resp.base.errcode,
             state := dumpState db,
             perReplicaState := perReplicaState (st.replicas.map (Replica.advanceTo e.nowUnix)) }]
          else [],
        interesting := st.interesting
          ++ ((if lockChanged then [.lock e.seq e.nowUnix lock.1 lock.2] else [])
          ++ reclaims
          ++ (if rejected then
            [.rejected e.seq e.nowUnix (opSummary ov resp.base) resp.base.errcode] else [])) } := by
  unfold Replay.step
  rw [hproc]
  dsimp only
  rw [hov, howners, hlock]
  dsimp only [bind, Except.bind, pure, Except.pure]
  rw [hreclaims]
  simp only [hchanged, hrejected]
  by_cases hk : kept
  · rw [if_neg, if_pos hk]
    · simp only [List.append_assoc]
    · rintro ⟨hstate, hno, hlist⟩
      rcases hkept.mp hk with h | h | h
      · exact hstate h
      · exact hno h
      · exact hlist h
  · rw [if_pos, if_neg hk]
    · have hsame : hashState xxh3 (dumpState db) = st.lastKeptHash :=
        by_contra fun h => hk (hkept.mpr (.inl h))
      simp only [List.append_assoc, List.append_nil, hsame]
    · exact ⟨fun h => hk (hkept.mpr (.inl h)), fun h => hk (hkept.mpr (.inr (.inl h))),
        fun h => hk (hkept.mpr (.inr (.inr h)))⟩

theorem Replay.step_after (log0 : DecisionLog) (others : List DecisionLog)
    (past : List LogEntry) (e : LogEntry) :
    (Replay.after xxh3 log0 others past).step xxh3 e
      = .ok (Replay.after xxh3 log0 others (past ++ [e])) := by
  obtain ⟨ov, hov⟩ := summarize_processReq (replay (calls past)) e.req e.nowUnix e.path
  have hview : opViewAt past e = ov := by
    simp only [opViewAt, answer, response, LogEntry.call, hov]
    rfl
  have hproc : (Replay.after xxh3 log0 others past).leaderSm.processReq e.req e.nowUnix
      = (replay (calls (past ++ [e])), answer past e) := by
    rw [calls_concat, replay_snoc]
    rfl
  have hreclaims : (owners (replay (calls (past ++ [e])))).toList.filterMap
      (reclaim e (Replay.after xxh3 log0 others past).prevOwners) = reclaimsAt past e := rfl
  have hchanged : (lockAfter (past ++ [e])).1 ≠ (Replay.after xxh3 log0 others past).prevLockHolder
      ∨ (lockAfter (past ++ [e])).2 ≠ (Replay.after xxh3 log0 others past).prevLockToken
      ↔ lockChangedAt past e := Iff.rfl
  have hrejected : (answer past e).base.errcode ≠ .ok ↔ rejectedAt past e := Iff.rfl
  have hkept : keptAt xxh3 past e
      ↔ hashState xxh3 (stateAfter (past ++ [e]))
          ≠ (Replay.after xxh3 log0 others past).lastKeptHash
        ∨ rejectedAt past e ∨ reclaimsAt past e ≠ [] ∨ lockChangedAt past e := Iff.rfl
  have hstep := Replay.step_eq xxh3 hproc hov (OwnerIndex.load_dumpState _)
    (readLock_stateAfter (past ++ [e])) hreclaims hchanged hrejected hkept
  rw [hstep]
  unfold Replay.after
  rw [replicasAfter_concat, collect_concat, collect_concat]
  simp only [snapshotsAt, snapshotAt, eventsAt, summaryAt, hview, replicasAfter_concat]
  rfl

theorem Replay.run_eq (log0 : DecisionLog) (others : List DecisionLog) (events : List LogEntry) :
    Replay.run xxh3 log0 others events = .ok (Replay.after xxh3 log0 others events) := by
  unfold Replay.run
  rw [Replay.initial_eq]
  change events.foldlM (Replay.step xxh3) (Replay.after xxh3 log0 others []) = _
  induction events using List.reverseRecOn with
  | nil => rfl
  | append_singleton past e ih =>
      rw [List.foldlM_append, ih]
      change [e].foldlM (Replay.step xxh3) (Replay.after xxh3 log0 others past) = _
      rw [List.foldlM_cons, Replay.step_after]
      rfl

theorem replayLogs_eq (log0 : DecisionLog) (others : List DecisionLog) :
    replayLogs xxh3 log0 others
      = .ok (Replay.after xxh3 log0 others log0.entries).document := by
  rw [replayLogs, Replay.run_eq]
  rfl

/-! ## What is collapsed -/

theorem find?_hashView (db : TaskManagerDb) {key : String} (h : key ≠ "tasks") :
    (hashView (dumpState db)).find? key = (dumpState db).find? key := by
  unfold hashView
  rw [find?_tasks]
  simp [dumpState, h]

theorem mainLock_of_hashView {db db' : TaskManagerDb}
    (h : hashView (dumpState db) = hashView (dumpState db')) : db.mainLock = db'.mainLock := by
  have hlock := congrArg (·.find? "main_lock") h
  simp only [find?_hashView _ (show "main_lock" ≠ "tasks" by decide), find?_main_lock,
    Option.some.injEq] at hlock
  have hholder := congrArg (·.find? "holder_agent") hlock
  have hmerge := congrArg (·.find? "holder_merge_task") hlock
  have htoken := congrArg (·.find? "lock_token") hlock
  simp at hholder hmerge htoken
  cases hm : db.mainLock
  cases hm' : db'.mainLock
  simp_all

/-- The hash of a state differs from the hash it is compared with, that of the
state before, if the states differ. -/
def NoCollision (events : List LogEntry) : Prop :=
  ∀ past e rest, events = past ++ e :: rest →
    hashState xxh3 (stateAfter (past ++ [e])) = hashState xxh3 (stateAfter past) →
      hashView (stateAfter (past ++ [e])) = hashView (stateAfter past)

theorem noCollision_concat (events : List LogEntry) (e : LogEntry) :
    NoCollision xxh3 (events ++ [e]) ↔ NoCollision xxh3 events
      ∧ (hashState xxh3 (stateAfter (events ++ [e])) = hashState xxh3 (stateAfter events) →
        hashView (stateAfter (events ++ [e])) = hashView (stateAfter events)) :=
  forall_split_concat (P := fun past e =>
    hashState xxh3 (stateAfter (past ++ [e])) = hashState xxh3 (stateAfter past) →
      hashView (stateAfter (past ++ [e])) = hashView (stateAfter past))

/-- The event is rejected, or it changes the lock or a dumped field other than
`heartbeat_unix`. -/
def Visible (past : List LogEntry) (e : LogEntry) : Prop :=
  (response (calls past) e.call).errcode ≠ .ok
    ∨ (replay (calls (past ++ [e]))).mainLock ≠ (replay (calls past)).mainLock
    ∨ hashView (dumpState (replay (calls (past ++ [e]))))
      ≠ hashView (dumpState (replay (calls past)))

variable {xxh3}

theorem Visible.kept {past : List LogEntry} {e : LogEntry} (h : Visible past e)
    (hcol : hashState xxh3 (stateAfter (past ++ [e])) = hashState xxh3 (stateAfter past) →
      hashView (stateAfter (past ++ [e])) = hashView (stateAfter past)) :
    keptAt xxh3 past e := by
  rcases h with hrejected | hlock | hview
  · exact .inr (.inl hrejected)
  · exact .inl fun hhash => hlock (mainLock_of_hashView (hcol hhash))
  · exact .inl fun hhash => hview (hcol hhash)

/-- The last snapshot shows the state the loop is in. -/
theorem lastKept_view {log0 : DecisionLog} {others : List DecisionLog} {events : List LogEntry}
    (hcol : NoCollision xxh3 events) :
    ∃ s, (Replay.after xxh3 log0 others events).snapshots.getLast? = some s
      ∧ hashView s.state = hashView (stateAfter events) := by
  induction events using List.reverseRecOn with
  | nil => exact ⟨firstSnapshot log0 others, rfl, rfl⟩
  | append_singleton past e ih =>
      obtain ⟨hpast, hlast⟩ := (noCollision_concat xxh3 past e).mp hcol
      obtain ⟨s, hs, hview⟩ := ih hpast
      simp only [Replay.after, collect_concat, snapshotsAt] at hs ⊢
      by_cases hkept : keptAt xxh3 past e
      · rw [if_pos hkept, ← List.cons_append, List.getLast?_concat]
        exact ⟨_, rfl, rfl⟩
      · have hhash : hashState xxh3 (stateAfter (past ++ [e])) = hashState xxh3 (stateAfter past) :=
          by_contra fun h => hkept (.inl h)
        rw [if_neg hkept, List.append_nil]
        exact ⟨s, hs, hview.trans (hlast hhash).symm⟩

/-- **Collapsing loses nothing.** Unless the hash collides, the last snapshot
kept by the time of an event shows the state of the first log's events up to
there, but for heartbeats, and an event with a visible effect is kept under
its own number. -/
theorem collapse_loses_nothing (log0 : DecisionLog) (others : List DecisionLog)
    (hcol : NoCollision xxh3 log0.entries) :
    ∃ final, Replay.run xxh3 log0 others log0.entries = .ok final
      ∧ replayLogs xxh3 log0 others = .ok final.document
      ∧ ∀ p r, log0.entries = p ++ r → ∃ st, Replay.run xxh3 log0 others p = .ok st
        ∧ st.snapshots <+: final.snapshots
        ∧ (∃ s, st.snapshots.getLast? = some s
          ∧ hashView s.state = hashView (dumpState (replay (calls p))))
        ∧ ∀ e r', r = e :: r' → Visible p e →
          ∃ st' s, Replay.run xxh3 log0 others (p ++ [e]) = .ok st'
            ∧ st'.snapshots = st.snapshots ++ [s]
            ∧ s.seq = e.seq ∧ s.state = dumpState (replay (calls (p ++ [e]))) := by
  refine ⟨_, Replay.run_eq .., replayLogs_eq .., ?_⟩
  intro p r hsplit
  have hprefix : NoCollision xxh3 p := fun past e rest hp =>
    hcol past e (rest ++ r) (by simp [hsplit, hp])
  refine ⟨_, Replay.run_eq .., ?_, lastKept_view hprefix, ?_⟩
  · rw [hsplit]
    exact List.cons_prefix_cons.mpr ⟨rfl, collect_isPrefix _ p r⟩
  · rintro e r' rfl hvisible
    have hkept := hvisible.kept (hcol p e r' hsplit)
    refine ⟨_, snapshotAt log0 others p e, Replay.run_eq .., ?_, rfl, rfl⟩
    simp only [Replay.after, collect_concat, snapshotsAt, if_pos hkept, List.cons_append]

end

/-- A hash of 64 bits. -/
def fnv1a (bytes : List UInt8) : UInt64 :=
  bytes.foldl (fun h b => (h ^^^ b.toUInt64) * 0x100000001b3) 0xcbf29ce484222325

/-- A plan is created and claimed, and its owner sends a heartbeat. -/
def heartbeatLog : List LogEntry :=
  [⟨1, 100, 100, "/task_create", .taskCreate {}⟩,
   ⟨2, 101, 101, "/task_claim", .taskClaim { agentId := "a" }⟩,
   ⟨3, 110, 110, "/task_heartbeat", .taskHeartbeat { agentId := "a", id := "t/0001", token := 1 }⟩]

theorem noCollision_heartbeatLog : NoCollision fnv1a heartbeatLog := by
  refine (noCollision_concat fnv1a (heartbeatLog.take 2) _).mpr ⟨?_, fun _ => rfl⟩
  refine (noCollision_concat fnv1a (heartbeatLog.take 1) _).mpr ⟨?_, ?_⟩
  · refine (noCollision_concat fnv1a [] _).mpr ⟨?_, ?_⟩
    · rintro past e rest hnil
      simp at hnil
    · exact fun hhash => absurd hhash (by decide +kernel)
  · exact fun hhash => absurd hhash (by decide +kernel)

/-- After the heartbeat, the snapshot of the claim is still the last one. -/
theorem collapse_loses_nothing_heartbeat :
    ∃ st, Replay.run fnv1a ⟨"logs/tm-0.log", heartbeatLog⟩ [] heartbeatLog = .ok st
      ∧ ∃ s, st.snapshots.getLast? = some s
        ∧ hashView s.state = hashView (dumpState (replay (calls heartbeatLog))) := by
  obtain ⟨final, -, -, h⟩ :=
    collapse_loses_nothing ⟨"logs/tm-0.log", heartbeatLog⟩ [] noCollision_heartbeatLog
  obtain ⟨st, hst, -, hlast, -⟩ := h heartbeatLog [] (by simp)
  exact ⟨st, hst, hlast⟩

end Tmgr
