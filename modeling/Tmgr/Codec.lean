import Tmgr.Paxos
import Tmgr.Wire

/-!
# Decoding what was encoded

The JSON form of a `paxos_message`, from `tcp_transport.cc`, and the round
trips: `parse_request` undoes `to_json_request_body`, so `from_json` undoes
`to_json`. Replicas and `tm-replay` read commands back from this form.

The unsigned fields are 64 bits wide, which `Json.unsigned` carries as they
are; `depth` is an `int` and `now_unix` an `int64_t`, which the decoders
convert to, and `InRange` says that they hold such values.
-/

namespace Tmgr

open Json

/-! ## Requests -/

@[simp] theorem TaskType.fromJson_name (t : TaskType) :
    TaskType.fromJson (.string t.name) = .ok t := by
  cases t <;> rfl

@[simp] theorem TaskStatus.fromJson_name (s : TaskStatus) :
    TaskStatus.fromJson (.string s.name) = .ok s := by
  cases s <;> rfl

def TaskSpec.InRange (s : TaskSpec) : Prop :=
  -2 ^ 31 ≤ s.depth ∧ s.depth < 2 ^ 31

theorem TaskSpec.fromJson_toJson {s : TaskSpec} (h : s.InRange) :
    TaskSpec.fromJson s.toJson = .ok s := by
  have hdepth := getInt_integer h.1 h.2
  simp [TaskSpec.toJson, TaskSpec.fromJson, valueOption_eq, readOption_map getString_string,
    hdepth, bind, Except.bind, pure, Except.pure]

def Request.InRange : Request → Prop
  | .taskCreate v => v.spec.InRange
  | .taskComplete v => ∀ c ∈ v.newChildren, c.InRange
  | _ => True

theorem fillBase_object {fields : List (String × Json)} {serial : Nat} {agentId : String}
    (hserial : fields.lookup "serial" = some (.unsigned serial))
    (hagent : fields.lookup "agent_id" = some (.string agentId)) :
    fillBase (.object fields) = .ok { serial, agentId } := by
  simp [fillBase, hserial, hagent, bind, Except.bind, pure, Except.pure]

theorem requireToken_object {fields : List (String × Json)} {field : String} {token : Nat}
    (h : fields.lookup field = some (.unsigned token)) :
    requireToken (.object fields) field = .ok token := by
  simp [requireToken, h]

theorem parseTaskCreate_body {v : TaskCreateRequest} (h : v.spec.InRange) :
    parseTaskCreate (toJsonRequestBody (.taskCreate v)) = .ok v := by
  simp [toJsonRequestBody, putBase, parseTaskCreate, fillBase_object, valueOption_eq,
    TaskSpec.fromJson_toJson h, readOption_map getString_string,
    readOption_map getUInt64_unsigned, bind, Except.bind, pure, Except.pure]

theorem parseTaskClaim_body (v : TaskClaimRequest) :
    parseTaskClaim (toJsonRequestBody (.taskClaim v)) = .ok v := by
  simp [toJsonRequestBody, putBase, parseTaskClaim, fillBase_object, valueOption_eq,
    readOption_map TaskType.fromJson_name, bind, Except.bind, pure, Except.pure]

theorem parseTaskHeartbeat_body (v : TaskHeartbeatRequest) :
    parseTaskHeartbeat (toJsonRequestBody (.taskHeartbeat v)) = .ok v := by
  simp [toJsonRequestBody, putBase, parseTaskHeartbeat, fillBase_object, requireToken_object,
    bind, Except.bind, pure, Except.pure]

/-- An empty list of children is left out and read back as the default. -/
theorem parseTaskComplete_body {v : TaskCompleteRequest} (h : ∀ c ∈ v.newChildren, c.InRange) :
    parseTaskComplete (toJsonRequestBody (.taskComplete v)) = .ok v := by
  have hchildren : (v.newChildren.map TaskSpec.toJson).mapM TaskSpec.fromJson
      = .ok v.newChildren :=
    mapM_map_ok fun c hc => TaskSpec.fromJson_toJson (h c hc)
  obtain ⟨base, id, token, resultBranch, resultSummary, newChildren⟩ := v
  cases newChildren with
  | nil =>
      simp [toJsonRequestBody, putBase, parseTaskComplete, fillBase_object, requireToken_object,
        valueOption_eq, readOption_map getString_string, bind, Except.bind, pure, Except.pure]
  | cons c children =>
      simp only [List.map_cons] at hchildren
      simp [toJsonRequestBody, putBase, parseTaskComplete, fillBase_object, requireToken_object,
        valueOption_eq, readOption_map getString_string, items, hchildren,
        bind, Except.bind, pure, Except.pure]

theorem parseTaskFail_body (v : TaskFailRequest) :
    parseTaskFail (toJsonRequestBody (.taskFail v)) = .ok v := by
  simp [toJsonRequestBody, putBase, parseTaskFail, fillBase_object, requireToken_object,
    bind, Except.bind, pure, Except.pure]

theorem parseTaskList_body (v : TaskListRequest) :
    parseTaskList (toJsonRequestBody (.taskList v)) = .ok v := by
  obtain ⟨base, filterStatus, onlyMine⟩ := v
  cases onlyMine with
  | false =>
      simp [toJsonRequestBody, putBase, parseTaskList, fillBase_object, valueOption_eq,
        readOption_map TaskStatus.fromJson_name, bind, Except.bind, pure, Except.pure]
  | true =>
      simp [toJsonRequestBody, putBase, parseTaskList, fillBase_object, valueOption_eq,
        readOption_map TaskStatus.fromJson_name, bind, Except.bind, pure, Except.pure]

theorem parseMainLockAcquire_body (v : MainLockAcquireRequest) :
    parseMainLockAcquire (toJsonRequestBody (.mainLockAcquire v)) = .ok v := by
  simp [toJsonRequestBody, putBase, parseMainLockAcquire, fillBase_object, requireToken_object,
    bind, Except.bind, pure, Except.pure]

theorem parseMainLockRelease_body (v : MainLockReleaseRequest) :
    parseMainLockRelease (toJsonRequestBody (.mainLockRelease v)) = .ok v := by
  simp [toJsonRequestBody, putBase, parseMainLockRelease, fillBase_object, requireToken_object,
    bind, Except.bind, pure, Except.pure]

theorem parseSwarmResume_body (v : SwarmResumeRequest) :
    parseSwarmResume (toJsonRequestBody (.swarmResume v)) = .ok v := by
  simp [toJsonRequestBody, putBase, parseSwarmResume, fillBase_object,
    bind, Except.bind, pure, Except.pure]

theorem parseRequest_body {r : Request} (h : r.InRange) :
    parseRequest (requestPath r) (toJsonRequestBody r) = .ok r := by
  cases r with
  | taskCreate v => simp [parseRequest, requestPath, parseTaskCreate_body h, Except.map]
  | taskClaim v => simp [parseRequest, requestPath, parseTaskClaim_body, Except.map]
  | taskHeartbeat v => simp [parseRequest, requestPath, parseTaskHeartbeat_body, Except.map]
  | taskComplete v => simp [parseRequest, requestPath, parseTaskComplete_body h, Except.map]
  | taskFail v => simp [parseRequest, requestPath, parseTaskFail_body, Except.map]
  | taskList v => simp [parseRequest, requestPath, parseTaskList_body, Except.map]
  | mainLockAcquire v => simp [parseRequest, requestPath, parseMainLockAcquire_body, Except.map]
  | mainLockRelease v => simp [parseRequest, requestPath, parseMainLockRelease_body, Except.map]
  | swarmResume v => simp [parseRequest, requestPath, parseSwarmResume_body, Except.map]

/-! ## Messages -/

def MsgType.name : MsgType → String
  | .propose => "PROPOSE"
  | .ack => "ACK"
  | .probe => "PROBE"
  | .prepare => "PREPARE"

/-- The request travels as its path and its body. -/
def DecidedValue.toJson (dv : DecidedValue) : Json :=
  Json.ofFields
    [("now_unix", .integer dv.nowUnix), ("agent_id", .string dv.agentId),
     ("serial", .unsigned dv.serial), ("req_path", .string (requestPath dv.req)),
     ("req", toJsonRequestBody dv.req)]

def PaxosMessage.toJson (m : PaxosMessage) : Json :=
  let values := Json.array (m.values.map DecidedValue.toJson)
  Json.ofFields
    [("type", .string m.type.name), ("sender", .unsigned m.sender), ("slot", .unsigned m.slot),
     ("values", values), ("ack_slot", .unsigned m.ackSlot),
     ("decided_slot", .unsigned m.decidedSlot), ("round", .unsigned m.round),
     ("ack_round", .unsigned m.ackRound), ("truncation_slot", .unsigned m.truncationSlot)]

/-- Any other text leaves the field as it was. -/
def MsgType.ofName (unset : MsgType) (type : String) : MsgType :=
  if type = "PROPOSE" then .propose
  else if type = "ACK" then .ack
  else if type = "PROBE" then .probe
  else if type = "PREPARE" then .prepare
  else unset

def DecidedValue.fromJson (j : Json) : Except String DecidedValue := do
  let nowUnix ← (← j.atKey "now_unix").getInt64
  let agentId ← (← j.atKey "agent_id").getString
  let serial ← (← j.atKey "serial").getUInt64
  let path ← (← j.atKey "req_path").getString
  let req ← parseRequest path (← j.atKey "req")
  return { nowUnix, agentId, serial, req }

/-- `m.type` has no initial value in the source: `unset` is what it holds. -/
def PaxosMessage.fromJson (unset : MsgType) (j : Json) : Except String PaxosMessage := do
  let type ← (← j.atKey "type").getString
  let type := MsgType.ofName unset type
  let sender ← (← j.atKey "sender").getUInt64
  let slot ← (← j.atKey "slot").getUInt64
  let ackSlot ← (← j.atKey "ack_slot").getUInt64
  let decidedSlot ← (← j.atKey "decided_slot").getUInt64
  let round ← (← j.atKey "round").getUInt64
  let ackRound ← (← j.atKey "ack_round").getUInt64
  let truncationSlot ← (← j.atKey "truncation_slot").getUInt64
  let values ← (← j.atKey "values").items.mapM DecidedValue.fromJson
  return { type, sender, slot, values, ackSlot, decidedSlot, round, ackRound, truncationSlot }

@[simp] theorem MsgType.ofName_name (unset type : MsgType) :
    MsgType.ofName unset type.name = type := by
  cases type <;> rfl

def DecidedValue.InRange (dv : DecidedValue) : Prop :=
  (-2 ^ 63 ≤ dv.nowUnix ∧ dv.nowUnix < 2 ^ 63) ∧ dv.req.InRange

def PaxosMessage.InRange (m : PaxosMessage) : Prop :=
  ∀ dv ∈ m.values, dv.InRange

theorem DecidedValue.fromJson_toJson {dv : DecidedValue} (h : dv.InRange) :
    DecidedValue.fromJson dv.toJson = .ok dv := by
  have hnow := getInt64_integer h.1.1 h.1.2
  simp [DecidedValue.toJson, DecidedValue.fromJson, hnow, parseRequest_body h.2,
    bind, Except.bind, pure, Except.pure]

theorem PaxosMessage.fromJson_toJson (unset : MsgType) {m : PaxosMessage} (h : m.InRange) :
    PaxosMessage.fromJson unset m.toJson = .ok m := by
  have hvalues : (m.values.map DecidedValue.toJson).mapM DecidedValue.fromJson = .ok m.values :=
    mapM_map_ok fun dv hdv => DecidedValue.fromJson_toJson (h dv hdv)
  simp [PaxosMessage.toJson, PaxosMessage.fromJson, items, hvalues,
    bind, Except.bind, pure, Except.pure]

/-- Every request and every message is read back as it was. -/
theorem decode_encode :
    (∀ r : Request, r.InRange → parseRequest (requestPath r) (toJsonRequestBody r) = .ok r)
    ∧ ∀ (unset : MsgType) (m : PaxosMessage), m.InRange →
      PaxosMessage.fromJson unset m.toJson = .ok m :=
  ⟨fun _ h => parseRequest_body h, fun unset _ h => PaxosMessage.fromJson_toJson unset h⟩

def completeWithChild : Request :=
  .taskComplete { serial := 7, agentId := "a", id := "t/0001", token := 33,
                  newChildren := [{ type := .implement, title := "b", depth := -1 }] }

def proposeCompletion : PaxosMessage :=
  { type := .propose, sender := 0,
    values := [{ nowUnix := -1, agentId := "a", serial := 7, req := completeWithChild }] }

theorem decode_encode_completion :
    parseRequest "/task_complete" (toJsonRequestBody completeWithChild) = .ok completeWithChild
    ∧ PaxosMessage.fromJson .ack proposeCompletion.toJson = .ok proposeCompletion := by
  have hchild : completeWithChild.InRange := by
    simp [completeWithChild, Request.InRange, TaskSpec.InRange]
  refine ⟨decode_encode.1 completeWithChild hchild, decode_encode.2 .ack proposeCompletion ?_⟩
  simpa [proposeCompletion, PaxosMessage.InRange, DecidedValue.InRange] using hchild

/-! ## Through a text -/

theorem TaskType.fromJson_reparsed (j : Json) :
    TaskType.fromJson j.reparsed = TaskType.fromJson j := by
  simp only [TaskType.fromJson, getString_reparsed]

theorem TaskStatus.fromJson_reparsed (j : Json) :
    TaskStatus.fromJson j.reparsed = TaskStatus.fromJson j := by
  simp only [TaskStatus.fromJson, getString_reparsed]

theorem TaskSpec.fromJson_reparsed (j : Json) :
    TaskSpec.fromJson j.reparsed = TaskSpec.fromJson j := by
  simp only [TaskSpec.fromJson, value_reparsed TaskType.fromJson_reparsed,
    value_reparsed getString_reparsed, value_reparsed getStrings_reparsed,
    value_reparsed getInt_reparsed, valueOption_reparsed getString_reparsed]

theorem fillBase_reparsed (j : Json) : fillBase j.reparsed = fillBase j := by
  simp only [fillBase, value_reparsed getUInt64_reparsed, value_reparsed getString_reparsed]

theorem requireToken_reparsed (j : Json) (field : String) :
    requireToken j.reparsed field = requireToken j field := by
  simp only [requireToken, find?_reparsed]
  cases j.find? field with
  | none => rfl
  | some v => exact getUInt64_reparsed v

theorem parseTaskCreate_reparsed (j : Json) : parseTaskCreate j.reparsed = parseTaskCreate j := by
  simp only [parseTaskCreate, fillBase_reparsed, find?_reparsed,
    valueOption_reparsed getString_reparsed, valueOption_reparsed getUInt64_reparsed]
  cases j.find? "spec" with
  | none => rfl
  | some spec => simp only [Option.map_some, TaskSpec.fromJson_reparsed]

theorem parseTaskComplete_reparsed (j : Json) :
    parseTaskComplete j.reparsed = parseTaskComplete j := by
  simp only [parseTaskComplete, fillBase_reparsed, requireToken_reparsed, find?_reparsed,
    value_reparsed getString_reparsed, valueOption_reparsed getString_reparsed]
  cases j.find? "new_children" with
  | none => rfl
  | some children =>
      simp only [Option.map_some, items_reparsed, mapM_reparsed TaskSpec.fromJson_reparsed]

theorem parseRequest_reparsed (path : String) (j : Json) :
    parseRequest path j.reparsed = parseRequest path j := by
  simp only [parseRequest, parseTaskCreate_reparsed, parseTaskComplete_reparsed, parseTaskClaim,
    parseTaskHeartbeat, parseTaskFail, parseTaskList, parseMainLockAcquire, parseMainLockRelease,
    parseSwarmResume, fillBase_reparsed, requireToken_reparsed, value_reparsed getString_reparsed,
    value_reparsed getBool_reparsed, valueOption_reparsed TaskType.fromJson_reparsed,
    valueOption_reparsed TaskStatus.fromJson_reparsed]

theorem map_bind {ε α β γ : Type} (x : Except ε α) (f : α → β) (g : β → Except ε γ) :
    (x.map f >>= g) = x >>= fun a => g (f a) := by
  cases x <;> rfl

theorem DecidedValue.fromJson_reparsed (j : Json) :
    DecidedValue.fromJson j.reparsed = DecidedValue.fromJson j := by
  simp only [DecidedValue.fromJson, atKey_reparsed, map_bind, getInt64_reparsed,
    getString_reparsed, getUInt64_reparsed, parseRequest_reparsed]

theorem PaxosMessage.fromJson_reparsed (unset : MsgType) (j : Json) :
    PaxosMessage.fromJson unset j.reparsed = PaxosMessage.fromJson unset j := by
  simp only [PaxosMessage.fromJson, atKey_reparsed, map_bind, getString_reparsed,
    getUInt64_reparsed, items_reparsed, mapM_reparsed DecidedValue.fromJson_reparsed]

end Tmgr
