import Mathlib.Data.List.Forall2
import Tmgr.ReplayLoop

/-!
# Two replays of one history

Replicas agree on the sequence number, the clock, the path and the request of
every entry; the stamp `applied_at_unix` and the name of the log are their
own. The sweeps replay each log on its own and compare the files byte for
byte, so they count on the output being a function of what was agreed.

It is not: a snapshot shows under the name of the log how far the log's own
stamps had got. `replays_alike_iff` says when two replicas get the same
output, and `not_replays_alike` that two replicas never do in a sweep, where
the logs have different names.
-/

namespace Tmgr

open Runs TaskManagerDb

/-! ## What is agreed -/

/-- The lines agree in what comes from Paxos. -/
def DecisionLog.Agree (log log' : DecisionLog) : Prop :=
  List.Forall₂ (fun e e' : LogEntry => e.seq = e'.seq ∧ e.nowUnix = e'.nowUnix
    ∧ e.path = e'.path ∧ e.req = e'.req) log.entries log'.entries

/-- The entry without its local stamp. -/
def LogEntry.agreed (e : LogEntry) : LogEntry :=
  { e with appliedAtUnix := -1 }

theorem LogEntry.agreed_eq_iff {e e' : LogEntry} :
    e.agreed = e'.agreed ↔ e.seq = e'.seq ∧ e.nowUnix = e'.nowUnix ∧ e.path = e'.path
      ∧ e.req = e'.req := by
  simp [agreed]

theorem DecisionLog.agree_iff {log log' : DecisionLog} :
    log.Agree log' ↔ log.entries.map LogEntry.agreed = log'.entries.map LogEntry.agreed := by
  rw [← List.forall₂_eq_eq_eq, List.forall₂_map_left_iff, List.forall₂_map_right_iff]
  simp only [LogEntry.agreed_eq_iff]
  rfl

theorem calls_agreed (events : List LogEntry) :
    calls (events.map LogEntry.agreed) = calls events := by
  simp [calls, LogEntry.agreed, LogEntry.call]

/-! ## How far a log has got -/

/-- The entries that the log's own stamps let through by the clocks of
`past`. -/
def reached (entries past : List LogEntry) : List LogEntry :=
  entries.takeWhile fun e => past.any fun p => e.when ≤ p.nowUnix

/-- Two thresholds, one after the other. -/
theorem takeWhile_or {α : Type*} {p q : α → Bool}
    (h : (∀ x, q x = true → p x = true) ∨ ∀ x, p x = true → q x = true) (l : List α) :
    l.takeWhile (fun x => p x || q x)
      = l.takeWhile p ++ (l.drop (l.takeWhile p).length).takeWhile q := by
  induction l with
  | nil => rfl
  | cons a l ih =>
      by_cases hp : p a = true
      · simp [hp, ih]
      · rcases h with hqp | hpq
        · have hq : ¬q a = true := fun hq => hp (hqp a hq)
          simp [hp, hq]
        · have hor : (fun x => p x || q x) = q := by
            funext x
            cases hx : p x
            · rfl
            · simp [hpq x hx]
          simp [hp, hor]

theorem advance_eq (t : Int) (db : TaskManagerDb) (nextIdx : Nat) (entries : List LogEntry) :
    advance t db nextIdx entries
      = ((entries.takeWhile (·.when ≤ t)).foldl (fun db e => (db.processReq e.req e.nowUnix).1) db,
        nextIdx + (entries.takeWhile (·.when ≤ t)).length) := by
  induction entries generalizing db nextIdx with
  | nil => rfl
  | cons e entries ih =>
      unfold advance
      by_cases h : e.when > t
      · simp [h, Int.not_le.mpr h]
      · simp [h, Int.not_lt.mp h, ih, Nat.add_assoc, Nat.add_comm]

theorem replay_calls (events : List LogEntry) :
    replay (calls events) = events.foldl (fun db e => (db.processReq e.req e.nowUnix).1) {} := by
  simp [replay, calls, LogEntry.call, List.foldl_map]

theorem reached_concat (entries past : List LogEntry) (e : LogEntry) :
    reached entries (past ++ [e]) = reached entries past
      ++ (entries.drop (reached entries past).length).takeWhile (·.when ≤ e.nowUnix) := by
  have hsplit : (fun x : LogEntry => (past ++ [e]).any fun p => x.when ≤ p.nowUnix)
      = fun x => (past.any fun p => x.when ≤ p.nowUnix) || decide (x.when ≤ e.nowUnix) := by
    funext x
    simp
  unfold reached
  rw [hsplit]
  refine takeWhile_or ?_ entries
  by_cases hlate : ∃ p ∈ past, e.nowUnix ≤ p.nowUnix
  · obtain ⟨p, hp, hle⟩ := hlate
    refine .inl fun x hx => List.any_eq_true.mpr ⟨p, hp, ?_⟩
    simp only [decide_eq_true_eq] at hx ⊢
    exact hx.trans hle
  · refine .inr fun x hx => ?_
    obtain ⟨p, hp, hle⟩ := List.any_eq_true.mp hx
    have hlt : p.nowUnix < e.nowUnix := Int.not_le.mp fun h => hlate ⟨p, hp, h⟩
    simp only [decide_eq_true_eq] at hle ⊢
    exact hle.trans hlt.le

/-- Following the clocks of `past`, the replica has applied what they let
through. -/
theorem Replica.follow_start (log : DecisionLog) (past : List LogEntry) :
    (Replica.start log).follow past
      = { id := replicaIdFromPath log.path, entries := log.entries,
          db := replay (calls (reached log.entries past)),
          nextIdx := (reached log.entries past).length } := by
  induction past using List.reverseRecOn with
  | nil =>
      have hnone : reached log.entries [] = [] := by
        cases hentries : log.entries <;> simp [reached]
      rw [hnone]
      rfl
  | append_singleton past e ih =>
      rw [Replica.follow_concat, ih, Replica.advanceTo, advance_eq, reached_concat]
      simp [replay_calls]

theorem reached_isPrefix (entries past : List LogEntry) : reached entries past <+: entries :=
  List.takeWhile_prefix _

theorem Replica.lastApplied_follow (log : DecisionLog) (past : List LogEntry) :
    ((Replica.start log).follow past).lastApplied = (reached log.entries past).getLast? := by
  rw [Replica.follow_start]
  obtain ⟨rest, hrest⟩ := reached_isPrefix log.entries past
  unfold Replica.lastApplied
  induction hreach : reached log.entries past using List.reverseRecOn with
  | nil => rfl
  | append_singleton init e _ =>
      rw [hreach] at hrest
      simp [← hrest]

/-! ## The output of one log -/

theorem collect_of_agree {β : Type*} {out : List LogEntry → LogEntry → List β}
    (hout : ∀ p e, out (p.map LogEntry.agreed) e.agreed = out p e) {log log' : DecisionLog}
    (hagree : log.Agree log') : collect out log'.entries = collect out log.entries := by
  have hmap : ∀ l, collect out (l.map LogEntry.agreed) = collect out l := by
    intro l
    rw [collect_map]
    exact congrArg (collect · l) (funext fun p => funext fun e => hout p e)
  rw [← hmap, ← hmap log.entries, DecisionLog.agree_iff.mp hagree]

theorem agreed_concat (p : List LogEntry) (e : LogEntry) :
    p.map LogEntry.agreed ++ [e.agreed] = (p ++ [e]).map LogEntry.agreed := by
  simp

@[simp] theorem lockAfter_agreed (l : List LogEntry) :
    lockAfter (l.map LogEntry.agreed) = lockAfter l := by
  simp [lockAfter, calls_agreed]

@[simp] theorem stateAfter_agreed (l : List LogEntry) :
    stateAfter (l.map LogEntry.agreed) = stateAfter l := by
  simp [stateAfter, calls_agreed]

@[simp] theorem answer_agreed (p : List LogEntry) (e : LogEntry) :
    answer (p.map LogEntry.agreed) e.agreed = answer p e := by
  simp only [answer, calls_agreed]
  rfl

@[simp] theorem summaryAt_agreed (p : List LogEntry) (e : LogEntry) :
    summaryAt (p.map LogEntry.agreed) e.agreed = summaryAt p e := by
  simp only [summaryAt, opViewAt, answer_agreed]
  rfl

@[simp] theorem reclaimsAt_agreed (p : List LogEntry) (e : LogEntry) :
    reclaimsAt (p.map LogEntry.agreed) e.agreed = reclaimsAt p e := by
  simp only [reclaimsAt, agreed_concat, calls_agreed]
  rfl

theorem eventsAt_agreed (p : List LogEntry) (e : LogEntry) :
    eventsAt (p.map LogEntry.agreed) e.agreed = eventsAt p e := by
  simp only [eventsAt, lockChangedAt, rejectedAt, agreed_concat, lockAfter_agreed, answer_agreed,
    summaryAt_agreed, reclaimsAt_agreed]
  rfl

@[simp] theorem replicasAfter_agreed (log : DecisionLog) (l : List LogEntry) :
    replicasAfter log [] (l.map LogEntry.agreed) = replicasAfter log [] l := by
  simp only [replicasAfter, Replica.follow, List.foldl_map]
  rfl

section

variable {xxh3 : List UInt8 → UInt64}

theorem keptAt_agreed (p : List LogEntry) (e : LogEntry) :
    keptAt xxh3 (p.map LogEntry.agreed) e.agreed ↔ keptAt xxh3 p e := by
  simp only [keptAt, lockChangedAt, rejectedAt, agreed_concat, lockAfter_agreed, answer_agreed,
    reclaimsAt_agreed, stateAfter_agreed]

theorem snapshotsAt_agreed (log : DecisionLog) (p : List LogEntry) (e : LogEntry) :
    snapshotsAt xxh3 log [] (p.map LogEntry.agreed) e.agreed = snapshotsAt xxh3 log [] p e := by
  have hsnap : snapshotAt log [] (p.map LogEntry.agreed) e.agreed = snapshotAt log [] p e := by
    simp only [snapshotAt, opViewAt, agreed_concat, answer_agreed, summaryAt_agreed,
      stateAfter_agreed, replicasAfter_agreed]
    rfl
  simp only [snapshotsAt, keptAt_agreed, hsnap]

theorem Replay.document_eq_iff {st st' : Replay} :
    st.document = st'.document ↔ st.replicas.map Replica.id = st'.replicas.map Replica.id
      ∧ st.snapshots.map Snapshot.toJson = st'.snapshots.map Snapshot.toJson
      ∧ st.interesting.map InterestingEvent.toJson
        = st'.interesting.map InterestingEvent.toJson := by
  constructor
  · intro h
    have hids := congrArg (·.find? "replicas") h
    have hsnapshots := congrArg (·.find? "snapshots") h
    have hevents := congrArg (·.find? "interesting_events") h
    simp [Replay.document] at hids hsnapshots hevents
    have hstrings : (st.replicas.map Replica.id).map Json.string
        = (st'.replicas.map Replica.id).map Json.string := by
      simpa [Function.comp_def] using hids
    exact ⟨List.map_injective_iff.mpr (fun _ _ h => Json.string.inj h) hstrings, hsnapshots,
      hevents⟩
  · rintro ⟨hids, hsnapshots, hevents⟩
    have hnames : st.replicas.map (fun r => Json.string r.id)
        = st'.replicas.map fun r => Json.string r.id := by
      simpa [Function.comp_def] using congrArg (List.map Json.string) hids
    simp only [Replay.document, hnames, hsnapshots, hevents]

/-- What a snapshot of one log shows of it. -/
theorem perReplicaState_single (log : DecisionLog) (past : List LogEntry) :
    perReplicaState (replicasAfter log [] past)
      = .object [(replicaIdFromPath log.path, ((Replica.start log).follow past).toJson)] := by
  simp only [replicasAfter, List.map_cons, List.map_nil, perReplicaState, List.foldl_cons,
    List.foldl_nil, Replica.follow_start]
  rfl

theorem Snapshot.perReplicaState_of_toJson {s s' : Snapshot} (h : s.toJson = s'.toJson) :
    s.perReplicaState = s'.perReplicaState := by
  have hstate := congrArg (·.find? "per_replica_state") h
  simpa [Snapshot.toJson] using hstate

/-- The two replays show the replica alike after `past`. -/
def ShownAlike (log log' : DecisionLog) (past : List LogEntry) : Prop :=
  ((Replica.start log).follow past).toJson = ((Replica.start log').follow past).toJson

theorem ShownAlike.perReplicaState {log log' : DecisionLog} {past : List LogEntry}
    (hid : replicaIdFromPath log.path = replicaIdFromPath log'.path)
    (h : ShownAlike log log' past) :
    perReplicaState (replicasAfter log [] past) = perReplicaState (replicasAfter log' [] past) := by
  rw [perReplicaState_single, perReplicaState_single, hid, h]

theorem shownAlike_nil (log log' : DecisionLog) : ShownAlike log log' [] := by
  simp only [ShownAlike, Replica.follow, List.foldl_nil, Replica.toJson, Replica.lastAppliedSeq,
    Replica.lastAppliedAt, Replica.lastApplied, Replica.start]

/-- The outputs agree if the replicas are shown under one name, and alike at
every event that is kept. -/
theorem replays_eq_iff {log log' : DecisionLog} (hagree : log.Agree log') :
    replayLogs xxh3 log [] = replayLogs xxh3 log' []
      ↔ replicaIdFromPath log.path = replicaIdFromPath log'.path
        ∧ ∀ p e r, log.entries = p ++ e :: r → keptAt xxh3 p e →
          ShownAlike log log' (p ++ [e]) := by
  have hids : ∀ l : DecisionLog, (Replay.after xxh3 l [] l.entries).replicas.map Replica.id
      = [replicaIdFromPath l.path] := by
    intro l
    simp [Replay.after, replicasAfter, Replica.follow_start]
  have hevents : collect eventsAt log'.entries = collect eventsAt log.entries :=
    collect_of_agree eventsAt_agreed hagree
  have hsnapshots : collect (snapshotsAt xxh3 log' []) log'.entries
      = collect (snapshotsAt xxh3 log' []) log.entries :=
    collect_of_agree (snapshotsAt_agreed log') hagree
  have hlen : ∀ p e, ((snapshotsAt xxh3 log [] p e).map Snapshot.toJson).length
      = ((snapshotsAt xxh3 log' [] p e).map Snapshot.toJson).length := by
    intro p e
    rw [List.length_map, List.length_map]
    unfold snapshotsAt
    split
    · rw [List.length_singleton, List.length_singleton]
    · rw [List.length_nil]
  rw [replayLogs_eq, replayLogs_eq, Except.ok.injEq, Replay.document_eq_iff, hids, hids]
  simp only [Replay.after, hevents, hsnapshots, List.map_cons, List.cons.injEq, map_collect,
    collect_eq_iff hlen, and_true]
  constructor
  · rintro ⟨hid, -, hkeep⟩
    refine ⟨hid, fun p e r hsplit hkept => ?_⟩
    have hone := hkeep p e r hsplit
    simp only [snapshotsAt, if_pos hkept, List.map_cons, List.cons.injEq] at hone
    have hstate := Snapshot.perReplicaState_of_toJson hone.1
    simp only [snapshotAt, perReplicaState_single, Json.object.injEq, List.cons.injEq,
      Prod.mk.injEq] at hstate
    exact hstate.1.2
  · rintro ⟨hid, hshown⟩
    refine ⟨hid, ?_, fun p e r hsplit => ?_⟩
    · simp only [firstSnapshot, (shownAlike_nil log log').perReplicaState hid]
    · by_cases hkept : keptAt xxh3 p e
      · simp only [snapshotsAt, if_pos hkept, snapshotAt,
          (hshown p e r hsplit hkept).perReplicaState hid]
      · simp only [snapshotsAt, if_neg hkept]

end

/-! ## Stamps -/

/-- By the clocks of `past`, the stamps of both logs let equally many entries
through, the last one at the same time. -/
def SameProgress (log log' : DecisionLog) (past : List LogEntry) : Prop :=
  (reached log.entries past).length = (reached log'.entries past).length
    ∧ (reached log.entries past).getLast?.map LogEntry.when
      = (reached log'.entries past).getLast?.map LogEntry.when

theorem Replica.lastAppliedSeq_eq (r : Replica) :
    r.lastAppliedSeq = (r.lastApplied.map LogEntry.seq).getD 0 := by
  unfold Replica.lastAppliedSeq
  cases r.lastApplied <;> rfl

theorem Replica.lastAppliedAt_eq (r : Replica) :
    r.lastAppliedAt = (r.lastApplied.map LogEntry.when).getD (-1) := by
  unfold Replica.lastAppliedAt
  cases r.lastApplied <;> rfl

theorem seqs_of_agree {log log' : DecisionLog} (hagree : log.Agree log') :
    log.entries.map LogEntry.seq = log'.entries.map LogEntry.seq := by
  have hmap := congrArg (List.map LogEntry.seq) (DecisionLog.agree_iff.mp hagree)
  simpa [LogEntry.agreed, Function.comp_def] using hmap

theorem SameProgress.shownAlike {log log' : DecisionLog} {past : List LogEntry}
    (hagree : log.Agree log') (h : SameProgress log log' past) : ShownAlike log log' past := by
  obtain ⟨hlen, hwhen⟩ := h
  have hreached : (reached log.entries past).map LogEntry.agreed
      = (reached log'.entries past).map LogEntry.agreed := by
    rw [List.prefix_iff_eq_take.mp (reached_isPrefix log.entries past),
      List.prefix_iff_eq_take.mp (reached_isPrefix log'.entries past), List.map_take, List.map_take,
      DecisionLog.agree_iff.mp hagree, hlen]
  have hcalls : calls (reached log.entries past) = calls (reached log'.entries past) := by
    rw [← calls_agreed, hreached, calls_agreed]
  have hseq : (reached log.entries past).getLast?.map LogEntry.seq
      = (reached log'.entries past).getLast?.map LogEntry.seq := by
    have hlast := congrArg (fun l : List LogEntry => l.getLast?.map LogEntry.seq) hreached
    simpa [LogEntry.agreed, Function.comp_def] using hlast
  unfold ShownAlike Replica.toJson
  rw [Replica.lastAppliedSeq_eq, Replica.lastAppliedSeq_eq, Replica.lastAppliedAt_eq,
    Replica.lastAppliedAt_eq, Replica.lastApplied_follow, Replica.lastApplied_follow, hseq, hwhen,
    Replica.follow_start, Replica.follow_start, hcalls]

/-- The sequence numbers are different from each other and from 0. -/
def Numbered (seqs : List Int) : Prop :=
  seqs.Nodup ∧ 0 ∉ seqs

/-- A prefix of a numbered list is known by its last number. -/
theorem Numbered.length_eq {seqs l l' : List Int} (h : Numbered seqs) (hl : l <+: seqs)
    (hl' : l' <+: seqs) (hlast : l.getLast?.getD 0 = l'.getLast?.getD 0) :
    l.length = l'.length := by
  obtain ⟨hnodup, hzero⟩ := h
  rcases List.eq_nil_or_concat l with rfl | ⟨init, x, rfl⟩
  · rcases List.eq_nil_or_concat l' with rfl | ⟨init', y, rfl⟩
    · rfl
    · have hy : y = 0 := by simpa using hlast.symm
      exact absurd (hl'.subset (by simp [hy])) hzero
  · rcases List.eq_nil_or_concat l' with rfl | ⟨init', y, rfl⟩
    · have hx : x = 0 := by simpa using hlast
      exact absurd (hl.subset (by simp [hx])) hzero
    · obtain rfl : x = y := by simpa using hlast
      have hx : seqs[init.length]? = some x := by
        obtain ⟨r, rfl⟩ := hl
        simp
      have hy : seqs[init'.length]? = some x := by
        obtain ⟨r, rfl⟩ := hl'
        simp
      have hlt : init.length < seqs.length := (List.getElem?_eq_some_iff.mp hx).1
      have hpos := (List.getElem?_inj hlt hnodup).mp (hx.trans hy.symm)
      simp [hpos]

theorem ShownAlike.sameProgress {log log' : DecisionLog} {past : List LogEntry}
    (hagree : log.Agree log') (hnum : Numbered (log.entries.map LogEntry.seq))
    (h : ShownAlike log log' past) : SameProgress log log' past := by
  have hseq := congrArg (·.find? "last_applied_seq") h
  have hat := congrArg (·.find? "applied_at_unix") h
  simp [Replica.toJson, Replica.lastAppliedSeq_eq, Replica.lastAppliedAt_eq,
    Replica.lastApplied_follow] at hseq hat
  have hl := (reached_isPrefix log.entries past).map LogEntry.seq
  have hl' := (reached_isPrefix log'.entries past).map LogEntry.seq
  rw [← seqs_of_agree hagree] at hl'
  have hlen := hnum.length_eq hl hl' (by simpa using hseq)
  rw [List.length_map, List.length_map] at hlen
  refine ⟨hlen, ?_⟩
  rcases List.eq_nil_or_concat (reached log.entries past) with hnil | ⟨init, x, hx⟩
  · rw [hnil] at hlen ⊢
    rw [List.eq_nil_of_length_eq_zero hlen.symm]
  · rcases List.eq_nil_or_concat (reached log'.entries past) with hnil | ⟨init', y, hy⟩
    · rw [hx, hnil] at hlen
      simp at hlen
    · rw [hx, hy] at hat ⊢
      simpa using hat

/-- The replicas have one name, and at every event that is kept the stamps of
both logs have let the same entries through. -/
def ReplayedAlike (xxh3 : List UInt8 → UInt64) (log log' : DecisionLog) : Prop :=
  replicaIdFromPath log.path = replicaIdFromPath log'.path
    ∧ ∀ p e r, log.entries = p ++ e :: r → keptAt xxh3 p e → SameProgress log log' (p ++ [e])

/-- **When two replicas get the same output.** For logs that agree in what
comes from Paxos, it is enough that they are replayed alike; where the entries
are numbered, as `tm-server` numbers them, it is also necessary. -/
theorem replays_alike_iff (xxh3 : List UInt8 → UInt64) {log log' : DecisionLog}
    (hagree : log.Agree log') :
    (ReplayedAlike xxh3 log log' → replayLogs xxh3 log [] = replayLogs xxh3 log' [])
    ∧ (Numbered (log.entries.map LogEntry.seq) →
      (replayLogs xxh3 log [] = replayLogs xxh3 log' [] ↔ ReplayedAlike xxh3 log log')) := by
  have halike : ReplayedAlike xxh3 log log' → replayLogs xxh3 log [] = replayLogs xxh3 log' [] :=
    fun ⟨hid, h⟩ => (replays_eq_iff hagree).mpr
      ⟨hid, fun p e r hsplit hkept => (h p e r hsplit hkept).shownAlike hagree⟩
  refine ⟨halike, fun hnum => ⟨fun heq => ?_, halike⟩⟩
  obtain ⟨hid, hshown⟩ := (replays_eq_iff hagree).mp heq
  exact ⟨hid, fun p e r hsplit hkept => (hshown p e r hsplit hkept).sameProgress hagree hnum⟩

/-- A log of one task, applied at the time `appliedAt`. -/
def oneCreate (path : String) (appliedAt : Int) : DecisionLog :=
  { path, entries := [⟨1, 100, appliedAt, "/task_create", .taskCreate {}⟩] }

/-- A log without stamps is replayed like that of a replica that applies at
once. -/
theorem replays_alike_iff_unstamped :
    replayLogs fnv1a (oneCreate "a/tm-0.log" 100) []
      = replayLogs fnv1a (oneCreate "b/tm-0.log" (-1)) [] := by
  have hagree : (oneCreate "a/tm-0.log" 100).Agree (oneCreate "b/tm-0.log" (-1)) := by
    simp [DecisionLog.Agree, oneCreate]
  refine (replays_alike_iff fnv1a hagree).1 ⟨by decide +kernel, ?_⟩
  intro p e r hsplit _
  rcases List.singleton_eq_append_iff.mp hsplit with ⟨rfl, hcons⟩ | ⟨-, hcons⟩
  · obtain ⟨rfl, -⟩ := List.cons.inj hcons
    exact ⟨by decide +kernel, by decide +kernel⟩
  · cases hcons

/-- Two replicas with the same history do not get the same output: neither
under different names, nor under one name when one of them lags behind. -/
theorem not_replays_alike :
    (¬∀ (xxh3 : List UInt8 → UInt64) (log log' : DecisionLog), log.Agree log' →
      replayLogs xxh3 log [] = replayLogs xxh3 log' [])
    ∧ ¬∀ (xxh3 : List UInt8 → UInt64) (log log' : DecisionLog), log.Agree log' →
      replicaIdFromPath log.path = replicaIdFromPath log'.path →
      replayLogs xxh3 log [] = replayLogs xxh3 log' [] := by
  have hagree : ∀ path path' t t', (oneCreate path t).Agree (oneCreate path' t') := by
    simp [DecisionLog.Agree, oneCreate]
  constructor
  · intro h
    have heq := h fnv1a _ _ (hagree "logs/tm-0.log" "logs/tm-1.log" 100 100)
    have hid := ((replays_eq_iff (hagree ..)).mp heq).1
    revert hid
    decide +kernel
  · intro h
    have heq := h fnv1a _ _ (hagree "a/tm-0.log" "b/tm-0.log" 100 103) (by decide +kernel)
    have hshown := ((replays_eq_iff (hagree ..)).mp heq).2 [] _ [] rfl (by decide +kernel)
    have hnum : Numbered ((oneCreate "a/tm-0.log" 100).entries.map LogEntry.seq) := by
      simp [Numbered, oneCreate]
    have hprogress := (hshown.sameProgress (hagree ..) hnum).1
    revert hprogress
    decide +kernel

end Tmgr
