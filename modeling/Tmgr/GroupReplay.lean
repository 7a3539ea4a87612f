import Tmgr.DecisionFile
import Tmgr.DumpReads

/-!
# Replaying a group

The servers of a group write a decision log each, and `tm-replay` reads any
number of them, in any order: the first is taken as the history, and the others
are followed as far as their stamps let them. Nothing in the program says that
what is shown of a replica was ever its state. It was: `replay_shows_replicas`.

The files hold the mutating requests only, and what is lost of the order of
slots is where the reads were. So a number of lines stands for a number of
slots, up to reads (`exists_take_reports`).
-/

namespace Tmgr

open Runs TaskManagerDb PtPaxosReplica

/-! ## tm-replay -/

section

variable (parse : String → Except String Json) (xxh3 : List UInt8 → UInt64)

/-- `tm-replay -L path0 -L …`, with the lines of the files. -/
def replayFiles (file0 : String × List String) (others : List (String × List String)) :
    Except String Json := do
  let log0 ← readLog parse file0.1 file0.2
  let logs ← others.mapM fun file => readLog parse file.1 file.2
  replayLogs xxh3 log0 logs

end

/-! ## Lines and slots -/

/-- The first lines of a file are those of the first slots. -/
theorem exists_take_reports (ps : List Processed) (k : Nat) :
    ∃ m ≤ ps.length, (reports ps).take k = reports (ps.take m) := by
  induction ps using List.reverseRecOn with
  | nil => exact ⟨0, le_rfl, by simp [reports]⟩
  | append_singleton ps p ih =>
      by_cases hall : (reports ps).length < k
      · refine ⟨(ps ++ [p]).length, le_rfl, ?_⟩
        rw [List.take_length, List.take_of_length_le]
        rw [reports_snoc]
        split
        · rw [List.length_append, List.length_singleton]
          omega
        · omega
      · obtain ⟨m, hm, htake⟩ := ih
        refine ⟨m, hm.trans (by simp), ?_⟩
        rw [List.take_append_of_le_length hm, ← htake, reports_snoc]
        split
        · exact List.take_append_of_le_length (Nat.not_lt.mp hall)
        · rfl

theorem decisionEntries_take (stamp : Nat → Int) (reported : List Reported) (k : Nat) :
    (decisionEntries stamp reported).take k = decisionEntries stamp (reported.take k) := by
  refine List.ext_getElem? fun i => ?_
  by_cases h : i < k
  · simp [decisionEntries, List.getElem?_take_of_lt h]
  · simp [decisionEntries, h]

theorem decisionEntries_snoc (stamp : Nat → Int) (reported : List Reported) (q : Reported) :
    decisionEntries stamp (reported ++ [q])
      = decisionEntries stamp reported
        ++ [q.entry (reported.length + 1) (stamp reported.length)] := by
  simp [decisionEntries, List.zipIdx_append]

/-- The requests among the first `m` of `L` that are in the files. -/
def mutations (L : List DecidedValue) (m : Nat) : Nat :=
  ((L.take m).filter fun v => requestPath v.req ≠ "/task_list").length

/-- When the line after the first `k` was written, if any was before. -/
def stampedAt (stamp : Nat → Int) : Nat → Int
  | 0 => -1
  | k + 1 => stamp k

/-- What the first lines of a file were written for: the first `m` slots of the
history. -/
theorem exists_slots {stamp : Nat → Int} (hstamp : ∀ k, 0 ≤ stamp k) {ps : List Processed}
    {L : List DecidedValue} (hps : ps.map (·.dv) = L.take ps.length) {l : List LogEntry}
    (hl : l <+: decisionEntries stamp (reports ps)) :
    ∃ m ≤ ps.length, replay (calls l) = replay ((L.take m).map DecidedValue.call)
      ∧ (l.getLast?.map LogEntry.seq).getD 0 = mutations L m
      ∧ (l.getLast?.map LogEntry.when).getD (-1) = stampedAt stamp (mutations L m) := by
  obtain ⟨m, hm, htake⟩ := exists_take_reports ps l.length
  have hfirst : (ps.take m).map (·.dv) = L.take m := by
    rw [List.map_take, hps, List.take_take, min_eq_left hm]
  have hcount : (reports (ps.take m)).length = mutations L m := by
    rw [mutations, ← hfirst, List.filter_map, List.length_map, reports, List.length_map]
    rfl
  have hlines : l = decisionEntries stamp (reports (ps.take m)) := by
    rw [List.prefix_iff_eq_take.mp hl, decisionEntries_take, htake]
  refine ⟨m, hm, ?_, ?_⟩
  · rw [hlines, calls_decisionEntries, replay_reports, ← hfirst, List.map_map]
    rfl
  · rw [hlines, ← hcount]
    rcases List.eq_nil_or_concat (reports (ps.take m)) with hnil | ⟨init, q, hq⟩
    · rw [hnil]
      exact ⟨rfl, rfl⟩
    · rw [hq, List.concat_eq_append, decisionEntries_snoc]
      simp [Reported.entry, LogEntry.when, stampedAt, hstamp]

/-! ## What is shown -/

theorem mem_of_find?_ofFields {fields : List (String × Json)} {key : String} {v : Json}
    (h : (Json.ofFields fields).find? key = some v) : (key, v) ∈ fields := by
  rw [Json.ofFields_eq, Json.find?_object] at h
  induction fields using List.reverseRecOn with
  | nil => cases h
  | append_singleton fields field ih =>
      obtain ⟨k, w⟩ := field
      rw [List.foldl_append, List.foldl_cons, List.foldl_nil, Json.lookup_insertField] at h
      split at h
      · rename_i heq
        cases h
        exact heq ▸ List.mem_append_right _ (List.mem_singleton_self _)
      · exact List.mem_append_left _ (ih h)

theorem exists_find?_ofFields {fields : List (String × Json)} {key : String} {v : Json}
    (h : (key, v) ∈ fields) : ∃ w, (Json.ofFields fields).find? key = some w := by
  rw [Json.ofFields_eq, Json.find?_object]
  induction fields using List.reverseRecOn with
  | nil => cases h
  | append_singleton fields field ih =>
      rw [List.foldl_append, List.foldl_cons, List.foldl_nil, Json.lookup_insertField]
      split
      · exact ⟨_, rfl⟩
      · rename_i hne
        rcases List.mem_append.mp h with h | h
        · exact ih h
        · exact absurd (congrArg Prod.fst (List.mem_singleton.mp h)) hne

theorem perReplicaState_eq (replicas : List Replica) :
    perReplicaState replicas = Json.ofFields (replicas.map fun r => (r.id, r.toJson)) := by
  rw [perReplicaState, Json.ofFields, List.foldl_map]

/-- A file of the group: what it is called, who wrote it, and when. -/
structure LogFile where
  path : String
  replica : Nat
  stamp : Nat → Int

def LogFile.entries (s : System) (f : LogFile) : List LogEntry :=
  decisionEntries f.stamp (s.replicas f.replica).reported

def LogFile.lines (s : System) (f : LogFile) : List Json :=
  decisionLines f.stamp (s.replicas f.replica).reported

/-- The value of its replica in `per_replica_state`, after the first `m` slots
of the history. -/
def LogFile.shownAt (f : LogFile) (L : List DecidedValue) (m : Nat) : Json :=
  Json.ofFields
    [("state", dumpState (replay ((L.take m).map DecidedValue.call))),
     ("last_applied_seq", .integer (mutations L m)),
     ("applied_at_unix", .integer (stampedAt f.stamp (mutations L m)))]

/-- The snapshot shows the history `L`, as far as the first replica had got;
and of each replica, under the name of its file, a state that it was in. -/
structure Snapshot.Shows (snap : Snapshot) (L : List DecidedValue) (s : System) (f0 : LogFile)
    (files : List LogFile) : Prop where
  state : ∃ m ≤ (s.replicas f0.replica).appliedSlot, snap.seq = mutations L m
    ∧ snap.state = dumpState (replay ((L.take m).map DecidedValue.call))
  named : ∀ f ∈ files, ∃ j, snap.perReplicaState.find? (replicaIdFromPath f.path) = some j
  shown : ∀ name j, snap.perReplicaState.find? name = some j → ∃ f ∈ files,
    replicaIdFromPath f.path = name ∧ ∃ m ≤ (s.replicas f.replica).appliedSlot, j = f.shownAt L m

/-! ## Runs -/

/-- The clock of the event is an `int64_t`, and the request one that
`parse_request` can return. -/
def Event.inRange : Event → Prop
  | .propose _ req nowUnix => fits64 nowUnix ∧ req.InRange
  | _ => True

instance TaskSpec.decidableInRange (spec : TaskSpec) : Decidable spec.InRange :=
  inferInstanceAs (Decidable (_ ∧ _))

instance Request.decidableInRange (req : Request) : Decidable req.InRange :=
  match req with
  | .taskCreate v => TaskSpec.decidableInRange v.spec
  | .taskComplete v => List.decidableBAll TaskSpec.InRange v.newChildren
  | .taskClaim _ | .taskHeartbeat _ | .taskFail _ | .taskList _ | .mainLockAcquire _
  | .mainLockRelease _ | .swarmResume _ => isTrue trivial

instance fits64_decidable (z : Int) : Decidable (fits64 z) :=
  inferInstanceAs (Decidable (_ ∧ _))

instance Event.decidableInRange (e : Event) : Decidable e.inRange :=
  match e with
  | .propose _ _ _ => instDecidableAnd
  | .deliver _ _ | .lose _ | .timeout _ _ | .resumeRun _ | .resumeCall _ _ => isTrue trivial

namespace System

variable {n : Nat} {tr : List (System × Event)} {s : System} {i : Nat}

/-- The calls lead, the catch-ups are quiet, and the requests are in range. -/
def fileSafe (n : Nat) (s : System) (e : Event) : Prop :=
  s.leaderSends n e ∧ s.quietCatchUp n e ∧ e.inRange

instance (n : Nat) (s : System) (e : Event) : Decidable (s.fileSafe n e) :=
  inferInstanceAs (Decidable (_ ∧ _ ∧ _))

/-- What the files of a group are to its history. -/
theorem exists_history (hrun : PaxosRun n (fun _ => true) (fun s e => s.fileSafe n e) tr s) :
    ∃ L, CommonLog n L s ∧ ∀ i < n, (s.replicas i).reported = reports (s.replicas i).processed
      ∧ ∀ q ∈ (s.replicas i).reported, q.InRange := by
  have hled := hrun.mono fun _ _ h => h.1
  obtain ⟨L, hL⟩ := exists_commonLog hled
  have hlogs := run_logOk (q := true) hrun fun _ _ h _ => h.2.1
  refine ⟨L, hL, fun i hi => ?_⟩
  have hreported := (hlogs i hi).2.reported rfl rfl
  refine ⟨hreported, ?_⟩
  intro q hq
  rw [hreported] at hq
  obtain ⟨p, hp, rfl⟩ := List.mem_map.mp hq
  have happended := ((run_sourced hrun).replicas i hi).processed p (List.mem_of_mem_filter hp)
  obtain ⟨x, hx, j, -, req, nowUnix, hevent, -, -, hvalue⟩ := run_appended hrun happended
  obtain ⟨-, -, -, hok, -⟩ := hrun.reach_of_mem hx
  have hrange := hok.2.2
  rw [hevent] at hrange
  refine ⟨?_, rfl⟩
  simp only [hvalue]
  exact hrange

/-- What the first lines of one file say. -/
theorem exists_slots_of_file {L : List DecidedValue} (hL : CommonLog n L s) {f : LogFile}
    (hf : f.replica < n)
    (hreported : (s.replicas f.replica).reported = reports (s.replicas f.replica).processed)
    (hstamp : ∀ k, 0 ≤ f.stamp k) {l : List LogEntry} (hl : l <+: f.entries s) :
    ∃ m ≤ (s.replicas f.replica).appliedSlot,
      replay (calls l) = replay ((L.take m).map DecidedValue.call)
      ∧ (l.getLast?.map LogEntry.seq).getD 0 = mutations L m
      ∧ (l.getLast?.map LogEntry.when).getD (-1) = stampedAt f.stamp (mutations L m) := by
  have hlen := hL.length_processed hf
  rw [LogFile.entries, hreported] at hl
  obtain ⟨m, hm, hrest⟩ := exists_slots hstamp (by rw [hL.values _ hf, hlen]) hl
  exact ⟨m, hlen ▸ hm, hrest⟩

end System

/-- The file was written by a replica of the group, by a clock that is not
before 1970, and its lines can be read back. -/
structure LogFile.Written (print : Json → String) (parse : String → Except String Json) (n : Nat)
    (s : System) (f : LogFile) : Prop where
  replica : f.replica < n
  stamp : ∀ k, 0 ≤ f.stamp k ∧ f.stamp k < 2 ^ 63
  length : (f.lines s).length < 2 ^ 63
  text : ∀ j ∈ f.lines s, LineText print parse j

/-- What `tm-replay` gets to read. -/
def LogFile.printed (print : Json → String) (s : System) (f : LogFile) : String × List String :=
  (f.path, (f.lines s).map print)

/-- And what it makes of it. -/
def LogFile.log (s : System) (f : LogFile) : DecisionLog :=
  { path := f.path, entries := f.entries s }

namespace System

variable {print : Json → String} {parse : String → Except String Json}
  {xxh3 : List UInt8 → UInt64} {L : List DecidedValue} {f f0 : LogFile} {fs : List LogFile}

theorem readLog_printed (hf : f.Written print parse n s)
    (hrange : ∀ q ∈ (s.replicas f.replica).reported, q.InRange) :
    readLog parse (f.printed print s).1 (f.printed print s).2 = .ok (f.log s) := by
  have hlen : (s.replicas f.replica).reported.length < 2 ^ 63 := by
    have hlen := hf.length
    rwa [LogFile.lines, decisionLines, List.length_map, List.length_zipIdx] at hlen
  have hstamp : ∀ k, fits64 (f.stamp k) := fun k =>
    ⟨(by decide : -2 ^ 63 ≤ (0 : Int)).trans (hf.stamp k).1, (hf.stamp k).2⟩
  exact readLog_written hstamp f.path hrange hlen hf.text

theorem replayFiles_printed (hf0 : f0.Written print parse n s)
    (hfs : ∀ f ∈ fs, f.Written print parse n s)
    (hrange : ∀ i < n, ∀ q ∈ (s.replicas i).reported, q.InRange) :
    replayFiles parse xxh3 (f0.printed print s) (fs.map (·.printed print s))
      = .ok (Replay.after xxh3 (f0.log s) (fs.map (·.log s)) (f0.entries s)).document := by
  have hothers : (fs.map (·.printed print s)).mapM (fun file => readLog parse file.1 file.2)
      = .ok (fs.map (·.log s)) := by
    clear hf0
    induction fs with
    | nil => rfl
    | cons f fs ih =>
        obtain ⟨hf, hfs⟩ := List.forall_mem_cons.mp hfs
        rw [List.map_cons, List.mapM_cons, readLog_printed hf (hrange _ hf.replica), ih hfs]
        rfl
  rw [replayFiles, readLog_printed hf0 (hrange _ hf0.replica), hothers]
  exact replayLogs_eq xxh3 (f0.log s) (fs.map (·.log s))

/-- Whatever clocks it follows, the replica of a file is at a state of the
history. -/
theorem exists_shownAt (hL : CommonLog n L s) (hf : f.Written print parse n s)
    (hreported : (s.replicas f.replica).reported = reports (s.replicas f.replica).processed)
    (past : List LogEntry) : ∃ m ≤ (s.replicas f.replica).appliedSlot,
      ((Replica.start (f.log s)).follow past).toJson = f.shownAt L m := by
  obtain ⟨m, hm, hdb, hseq, hwhen⟩ := exists_slots_of_file hL hf.replica hreported
    (fun k => (hf.stamp k).1) (reached_isPrefix (f.entries s) past)
  refine ⟨m, hm, ?_⟩
  rw [Replica.toJson, Replica.lastAppliedSeq_eq, Replica.lastAppliedAt_eq,
    Replica.lastApplied_follow, Replica.follow_start]
  simp only [LogFile.log, hdb, hseq, hwhen]
  rfl

theorem shows_of_state (hL : CommonLog n L s)
    (hfiles : ∀ f ∈ f0 :: fs, f.Written print parse n s)
    (hreported : ∀ i < n, (s.replicas i).reported = reports (s.replicas i).processed)
    {l past : List LogEntry} (hl : l <+: f0.entries s) {snap : Snapshot}
    (hseq : snap.seq = (l.getLast?.map LogEntry.seq).getD 0) (hstate : snap.state = stateAfter l)
    (hper : snap.perReplicaState
      = perReplicaState (replicasAfter (f0.log s) (fs.map (·.log s)) past)) :
    snap.Shows L s f0 (f0 :: fs) := by
  have hf0 := hfiles f0 List.mem_cons_self
  have hfields : snap.perReplicaState = Json.ofFields ((f0 :: fs).map fun f =>
      (replicaIdFromPath f.path, ((Replica.start (f.log s)).follow past).toJson)) := by
    rw [hper, perReplicaState_eq, replicasAfter, ← List.map_cons, List.map_map, List.map_map]
    refine congrArg Json.ofFields (List.map_congr_left fun f _ => ?_)
    simp only [Function.comp_apply, Replica.follow_start, LogFile.log]
  refine ⟨?_, ?_, ?_⟩
  · obtain ⟨m, hm, hdb, hseq', -⟩ := exists_slots_of_file hL hf0.replica
      (hreported _ hf0.replica) (fun k => (hf0.stamp k).1) hl
    exact ⟨m, hm, hseq.trans hseq', by rw [hstate, stateAfter, hdb]⟩
  · intro f hf
    rw [hfields]
    exact exists_find?_ofFields (List.mem_map_of_mem hf)
  · intro name j hj
    rw [hfields] at hj
    obtain ⟨f, hf, hpair⟩ := List.mem_map.mp (mem_of_find?_ofFields hj)
    obtain ⟨hname, rfl⟩ := Prod.mk.inj hpair
    have hw := hfiles f hf
    exact ⟨f, hf, hname, exists_shownAt hL hw (hreported _ hw.replica) past⟩

/-- **The replay shows the group.** The files of a group are read without an
error, in whatever selection and order, and every snapshot of the output shows
states of one history: the history that the replicas applied. -/
theorem replay_shows_replicas (xxh3 : List UInt8 → UInt64)
    (hrun : PaxosRun n (fun _ => true) (fun s e => s.fileSafe n e) tr s)
    (hfiles : ∀ f ∈ f0 :: fs, f.Written print parse n s) :
    ∃ L st, CommonLog n L s
      ∧ replayFiles parse xxh3 (f0.printed print s) (fs.map (·.printed print s))
        = .ok (Replay.document st)
      ∧ ∀ snap ∈ st.snapshots, snap.Shows L s f0 (f0 :: fs) := by
  obtain ⟨L, hL, hlogs⟩ := exists_history hrun
  obtain ⟨hf0, hfs⟩ := List.forall_mem_cons.mp hfiles
  have hreported := fun i hi => (hlogs i hi).1
  refine ⟨L, _, hL, replayFiles_printed hf0 hfs fun i hi => (hlogs i hi).2, ?_⟩
  intro snap hsnap
  rcases List.mem_cons.mp hsnap with rfl | hsnap
  · exact shows_of_state hL hfiles hreported (List.nil_prefix) rfl rfl rfl
  · obtain ⟨past, e, rest, hsplit, hmem⟩ := exists_of_mem_collect hsnap
    have hpre : past ++ [e] <+: f0.entries s := ⟨rest, by rw [hsplit]; simp⟩
    unfold snapshotsAt at hmem
    split at hmem
    · obtain rfl := List.mem_singleton.mp hmem
      exact shows_of_state hL hfiles hreported hpre (by simp [snapshotAt]) rfl rfl
    · cases hmem

/-! ## Two files -/

/-- The text of a value, for texts without characters beyond ASCII. -/
def asciiText (j : Json) : String :=
  .ofList ((plainText j).map fun b => Char.ofNat b.toNat)

/-- A parser for the texts of certain values. -/
def parseAmong (values : List Json) (text : String) : Except String Json :=
  match values.find? (asciiText · = text) with
  | some j => .ok j.reparsed
  | none => .error "parse error"

theorem lineText_parseAmong {values : List Json} (hne : "" ∉ values.map asciiText)
    (hnodup : (values.map asciiText).Nodup) {j : Json} (hj : j ∈ values) :
    LineText asciiText (parseAmong values) j where
  parse_print := by
    obtain ⟨past, rest, rfl⟩ := List.append_of_mem hj
    rw [List.map_append, List.map_cons] at hnodup
    have hpast : past.find? (asciiText · = asciiText j) = none := by
      refine List.find?_eq_none.mpr fun k hk heq => ?_
      refine (List.nodup_append.mp hnodup).2.2 _ (List.mem_map_of_mem hk) _ List.mem_cons_self ?_
      simpa using heq
    simp [parseAmong, List.find?_append, hpast]
  ne_empty heq := hne (heq ▸ List.mem_map_of_mem hj)

/-- A task is created and claimed; replica 1 does not hear that the claim is
decided. -/
def claimedAtLeader : List Event :=
  answeredCall 0 (.taskCreate { serial := 1, spec := { title := "a", depth := -1 } }) 10
    ++ answeredCall 1 (.taskClaim { serial := 2, agentId := "b" }) 20

def fileOfLeader : LogFile :=
  { path := "logs/tm-0.log", replica := 0, stamp := fun k => if k = 0 then 11 else 21 }

def fileOfFollower : LogFile :=
  { path := "logs/tm-1.log", replica := 1, stamp := fun _ => 15 }

/-- Replica 1 is shown without the claim. -/
theorem replay_shows_replicas_claimedAtLeader :
    let s := ((initial 3 fun _ => true).exec 3 claimedAtLeader).get (by decide +kernel)
    let parse := parseAmong ([fileOfLeader, fileOfFollower].flatMap (·.lines s))
    ∃ L st, CommonLog 3 L s
      ∧ replayFiles parse fnv1a (fileOfLeader.printed asciiText s)
          ([fileOfFollower].map (·.printed asciiText s)) = .ok (Replay.document st)
      ∧ ∀ snap ∈ st.snapshots, snap.Shows L s fileOfLeader [fileOfLeader, fileOfFollower] := by
  intro s parse
  refine replay_shows_replicas fnv1a
    (Runs.run_of_exec claimedAtLeader (by decide +kernel) (by decide +kernel)) ?_
  have htext : ∀ f ∈ [fileOfLeader, fileOfFollower], ∀ j ∈ f.lines s,
      LineText asciiText parse j := fun f hf j hj =>
    lineText_parseAmong (by decide +kernel) (by decide +kernel)
      (List.mem_flatMap.mpr ⟨f, hf, hj⟩)
  have hmem : ∀ f ∈ [fileOfLeader, fileOfFollower], f = fileOfLeader ∨ f = fileOfFollower := by
    simp
  intro f hf
  refine ⟨?_, ?_, ?_, htext f hf⟩
  · rcases hmem f hf with rfl | rfl <;> decide
  · intro k
    rcases hmem f hf with rfl | rfl <;> simp only [fileOfLeader, fileOfFollower]
    · split <;> decide
    · decide
  · rcases hmem f hf with rfl | rfl <;> decide +kernel

end System

end Tmgr
