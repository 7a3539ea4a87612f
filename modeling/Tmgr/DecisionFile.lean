import Tmgr.Codec
import Tmgr.DecisionLog
import Tmgr.ReplayAgreement

/-!
# The decision log as a file

`log_decided` of `tm-server.cc` writes a line for each report of `on_apply_`,
and `tm-replay` reads them back (`readLog_written`). The lines are numbered
from 1, so the logs of replicas with equal reports are numbered, agree, and
differ in their stamps only.

A line is printed and parsed by the JSON library. The parameters `print` and
`parse` stand for that, and what is read is the value that was printed, but
for the sign of a number.
-/

namespace Tmgr

open TaskManagerDb

/-- `seq` is `++decision_seq`, and `appliedAt` is the local time. -/
def logDecided (seq : Int) (q : Reported) (appliedAt : Int) : Json :=
  Json.ofFields
    [("seq", .integer seq), ("now_unix", .integer q.dv.nowUnix),
     ("applied_at_unix", .integer appliedAt), ("path", .string q.path),
     ("errcode", .string q.errcode.name), ("request", toJsonRequestBody q.dv.req)]

/-- The entry that is read from the line. -/
def Reported.entry (q : Reported) (seq appliedAt : Int) : LogEntry :=
  { seq, nowUnix := q.dv.nowUnix, appliedAtUnix := appliedAt, path := q.path, req := q.dv.req }

/-- The lines a server has written, where `stamp k` is the local time of the
report at position `k`. -/
def decisionLines (stamp : Nat → Int) (reported : List Reported) : List Json :=
  reported.zipIdx.map fun q => logDecided (q.2 + 1) q.1 (stamp q.2)

def decisionEntries (stamp : Nat → Int) (reported : List Reported) : List LogEntry :=
  reported.zipIdx.map fun q => q.1.entry (q.2 + 1) (stamp q.2)

/-! ## Read back -/

theorem readEntry_reparsed (place : String) (j : Json) :
    readEntry place j.reparsed = readEntry place j := by
  simp only [readEntry, Json.value_reparsed Json.getInt64_reparsed,
    Json.value_reparsed Json.getString_reparsed, Json.find?_reparsed]
  cases j.find? "request" with
  | none => rfl
  | some request => simp only [Option.map_some, parseRequest_reparsed]

/-- The values of a report fit into 64 bits, and its path is the one of its
request. -/
structure Reported.InRange (q : Reported) : Prop where
  value : q.dv.InRange
  path : q.path = requestPath q.dv.req

def fits64 (z : Int) : Prop :=
  -2 ^ 63 ≤ z ∧ z < 2 ^ 63

theorem readEntry_logDecided {q : Reported} (hq : q.InRange) {seq appliedAt : Int}
    (hseq : fits64 seq) (hat : fits64 appliedAt) (place : String) :
    readEntry place (logDecided seq q appliedAt) = .ok (q.entry seq appliedAt) := by
  have hseq := Json.getInt64_integer hseq.1 hseq.2
  have hnow := Json.getInt64_integer hq.value.1.1 hq.value.1.2
  have hat := Json.getInt64_integer hat.1 hat.2
  simp [readEntry, logDecided, Reported.entry, hseq, hnow, hat, hq.path,
    parseRequest_body hq.value.2, Except.mapError, bind, Except.bind, pure, Except.pure]

section

variable {print : Json → String} {parse : String → Except String Json}

/-- A line is not empty, and is read back as the value that was printed. -/
structure LineText (print : Json → String) (parse : String → Except String Json) (j : Json) :
    Prop where
  parse_print : parse (print j) = .ok j.reparsed
  ne_empty : print j ≠ ""

theorem readLines_written {stamp : Nat → Int} (hstamp : ∀ k, fits64 (stamp k)) (path : String)
    {l : List (Reported × Nat)} (hl : ∀ q ∈ l, q.1.InRange ∧ fits64 (q.2 + 1))
    (htext : ∀ q ∈ l, LineText print parse (logDecided (q.2 + 1) q.1 (stamp q.2)))
    (lineNo : Nat) :
    readLines parse path lineNo (l.map fun q => print (logDecided (q.2 + 1) q.1 (stamp q.2)))
      = .ok (l.map fun q => q.1.entry (q.2 + 1) (stamp q.2)) := by
  induction l generalizing lineNo with
  | nil => rfl
  | cons q l ih =>
      obtain ⟨⟨hq, hseq⟩, hl⟩ := List.forall_mem_cons.mp hl
      obtain ⟨hline, htext⟩ := List.forall_mem_cons.mp htext
      rw [List.map_cons, readLines, if_neg hline.ne_empty, hline.parse_print]
      simp only [Except.mapError, readEntry_reparsed, readEntry_logDecided hq hseq (hstamp q.2),
        ih hl htext, bind, Except.bind, pure, Except.pure, List.map_cons]

/-- **What a server writes, the replay reads.** -/
theorem readLog_written {stamp : Nat → Int} (hstamp : ∀ k, fits64 (stamp k)) (path : String)
    {reported : List Reported} (hrange : ∀ q ∈ reported, q.InRange)
    (hlen : reported.length < 2 ^ 63)
    (htext : ∀ j ∈ decisionLines stamp reported, LineText print parse j) :
    readLog parse path ((decisionLines stamp reported).map print)
      = .ok { path, entries := decisionEntries stamp reported } := by
  have hl : ∀ q ∈ reported.zipIdx, q.1.InRange ∧ fits64 (q.2 + 1) := by
    rintro ⟨q, k⟩ hmem
    obtain ⟨-, hk, hq⟩ := List.mem_zipIdx hmem
    refine ⟨?_, ?_, ?_⟩
    · exact hrange q (by rw [hq]; exact List.getElem_mem _)
    · simp only
      omega
    · simp only
      omega
  have hread := readLines_written hstamp path hl
    (fun q hq => htext _ (List.mem_map_of_mem hq)) 1
  rw [readLog, decisionLines, List.map_map]
  simp only [Function.comp_def, hread, bind, Except.bind, pure, Except.pure, decisionEntries]

end

/-! ## Numbers -/

theorem decisionEntries_numbered (stamp : Nat → Int) (reported : List Reported) :
    Numbered ((decisionEntries stamp reported).map LogEntry.seq) := by
  have hseqs : (decisionEntries stamp reported).map LogEntry.seq
      = (List.range reported.length).map fun k : Nat => (k : Int) + 1 := by
    rw [decisionEntries, List.map_map, List.range_eq_range', ← List.zipIdx_map_snd 0 reported,
      List.map_map]
    rfl
  rw [hseqs]
  constructor
  · exact List.Nodup.map (fun k k' h => by simpa using h) List.nodup_range
  · simp only [List.mem_map, not_exists, not_and]
    omega

/-! ## The files of a system -/

theorem calls_decisionEntries (stamp : Nat → Int) (reported : List Reported) :
    calls (decisionEntries stamp reported) = reported.map fun q => (q.dv.req, q.dv.nowUnix) := by
  conv_rhs => rw [← List.zipIdx_map_fst 0 reported, List.map_map]
  simp [calls, decisionEntries, Function.comp_def, Reported.entry, LogEntry.call]

/-- Logs of equal reports agree, whatever they are called and whenever they
were written. -/
theorem decisionEntries_agree (path path' : String) (stamp stamp' : Nat → Int)
    (reported : List Reported) :
    DecisionLog.Agree { path, entries := decisionEntries stamp reported }
      { path := path', entries := decisionEntries stamp' reported } := by
  rw [DecisionLog.agree_iff]
  simp [decisionEntries, Function.comp_def, Reported.entry, LogEntry.agreed]

namespace System

variable {n : Nat} {onApply : Nat → Bool} {s : System} {i j : Nat}

/-- Where the decision logs agree, so do the files. -/
theorem LogsAgree.files (h : s.LogsAgree n onApply) (hi : i < n) (hj : j < n)
    (hon : onApply i = true) (hon' : onApply j = true)
    (happlied : (s.replicas i).appliedSlot = (s.replicas j).appliedSlot)
    (path path' : String) (stamp stamp' : Nat → Int) :
    DecisionLog.Agree { path, entries := decisionEntries stamp (s.replicas i).reported }
      { path := path', entries := decisionEntries stamp' (s.replicas j).reported } := by
  rw [h i hi j hj hon hon' happlied]
  exact decisionEntries_agree path path' stamp stamp' _

/-- Where the decision logs replay to the databases, the replay of a file ends
in the dump of its replica. -/
theorem LogsReplay.files (h : s.LogsReplay n onApply) (hi : i < n) (hon : onApply i = true)
    (stamp : Nat → Int) :
    stateAfter (decisionEntries stamp (s.replicas i).reported) = dumpState (s.replicas i).db := by
  rw [stateAfter, calls_decisionEntries, h i hi hon]

end System

end Tmgr
