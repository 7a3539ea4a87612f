import Tmgr.Frames

/-!
# What the reader accepts

`send` writes the length of a body as 32 bits, whatever it is, and
`read_loop_` refuses a length above `2 ^ 24`. One message sent after another
is received as it was while each text fits that limit; the first that does
not makes the reader return, and everything after it is lost
(`send_accepted_iff`). Above `2 ^ 32` bytes the length wraps, and the reader
takes part of the text for a body before it refuses what follows.

What is used of the JSON library is said by `JsonText`.
-/

namespace Tmgr

/-- The text of a message: it is read back as the message's value, and is a
compact JSON text, which is not empty and has no control characters. -/
structure JsonText (dump : Json → List UInt8) (parse : List UInt8 → Except String Json)
    (msg : PaxosMessage) : Prop where
  parse_dump : parse (dump msg.toJson) = .ok msg.toJson.reparsed
  ne_nil : dump msg.toJson ≠ []
  printable : Json.Printable (dump msg.toJson)

variable {dump : Json → List UInt8} {parse : List UInt8 → Except String Json}
  {msg : PaxosMessage} {msgs : List PaxosMessage}

theorem JsonText.decodeBody_dump (h : JsonText dump parse msg) (unset : MsgType)
    (hrange : msg.InRange) : decodeBody parse unset (dump msg.toJson) = .ok msg := by
  simp only [decodeBody, h.parse_dump, bind, Except.bind]
  rw [PaxosMessage.fromJson_reparsed, PaxosMessage.fromJson_toJson unset hrange]

/-! ## One message after another -/

namespace TcpTransport

variable {t : TcpTransport} {peer : Nat}

structure Healthy (t : TcpTransport) (peer : Nat) : Prop where
  peer_lt : peer < t.npeers
  peer_ne : peer ≠ t.myIndex
  valid : t.outboundFds peer = .valid

/-- Send each message once the call before it has returned; the first of
these calls is the `k`-th of all. -/
def oneByOne (peer : Nat) : Nat → List PaxosMessage → List TransportEvent
  | _, [] => []
  | k, msg :: msgs => .send peer msg :: .written k :: .written k :: oneByOne peer (k + 1) msgs

theorem step_written {k : Nat} {call : SendCall} (hcall : t.sends[k]? = some call)
    (hframe : call.frame ≠ .returned) (hvalid : t.outboundFds call.peer = .valid) :
    t.step dump (.written k) = some (t.written k call) := by
  simp only [step, hcall]
  exact if_pos ⟨hframe, hvalid⟩

theorem written_sends {k : Nat} {call old : SendCall} (hold : t.sends[k]? = some old) :
    (t.written k call).sends[k]? = some { call with frame := call.frame.next } := by
  obtain ⟨hk, -⟩ := List.getElem?_eq_some_iff.mp hold
  exact List.getElem?_set_self hk

/-- A call that nothing interrupts writes its frame. -/
theorem exec_send (h : t.Healthy peer) (msg : PaxosMessage) (es : List TransportEvent) :
    ∃ t' : TcpTransport, Runs.exec (step dump) t
        (.send peer msg :: .written t.sends.length :: .written t.sends.length :: es)
        = Runs.exec (step dump) t' es
      ∧ t'.Healthy peer ∧ t'.sends.length = t.sends.length + 1
      ∧ t'.streams peer = t.streams peer ++ frameFormat.frame (dump msg.toJson) := by
  let call : SendCall := { peer, msg, body := dump msg.toJson }
  let t₁ : TcpTransport := { t with sends := t.sends ++ [call] }
  let t₂ := t₁.written t.sends.length call
  have hsend : t.send dump peer msg = t₁ := by
    simp [send, h.peer_lt, h.peer_ne, h.valid, t₁, call]
  have hcall₁ : t₁.sends[t.sends.length]? = some call := List.getElem?_concat_length
  have hcall₂ : t₂.sends[t.sends.length]? = some { call with frame := .body } :=
    written_sends hcall₁
  have hstep₁ : t₁.step dump (.written t.sends.length) = some t₂ :=
    step_written hcall₁ (by simp [call]) h.valid
  have hstep₂ : t₂.step dump (.written t.sends.length)
      = some (t₂.written t.sends.length { call with frame := .body }) :=
    step_written hcall₂ (by simp) h.valid
  refine ⟨t₂.written t.sends.length { call with frame := .body }, ?_, ⟨h.1, h.2, h.3⟩, ?_, ?_⟩
  · rw [Runs.exec, step, hsend, Option.bind_some, Runs.exec, hstep₁, Option.bind_some, Runs.exec,
      hstep₂, Option.bind_some]
  · simp [t₂, t₁, written, setFrame, put]
  · rw [written_streams, if_pos rfl, written_streams, if_pos rfl, List.append_assoc]
    rfl

theorem exec_oneByOne (dump : Json → List UInt8) (h : t.Healthy peer) (msgs : List PaxosMessage) :
    ∃ t' : TcpTransport,
      Runs.exec (step dump) t (oneByOne peer t.sends.length msgs) = some t'
      ∧ t'.streams peer
        = t.streams peer ++ ((bodiesOf dump msgs).map frameFormat.frame).flatten := by
  induction msgs generalizing t with
  | nil => exact ⟨t, rfl, by simp [bodiesOf]⟩
  | cons msg msgs ih =>
      obtain ⟨t₁, hexec, hhealthy, hcalls, hstream⟩ :=
        exec_send h msg (oneByOne peer (t.sends.length + 1) msgs)
      obtain ⟨t', hrest, hstream'⟩ := ih hhealthy
      refine ⟨t', ?_, ?_⟩
      · rw [oneByOne, hexec, ← hcalls, hrest]
      · rw [hstream', hstream, List.append_assoc]
        simp [bodiesOf]

end TcpTransport

/-! ## Reading -/

theorem ntohl_printable {l : List UInt8} (hlen : l.length = 4) (h : Json.Printable l) :
    maxFrame < ntohl l := by
  obtain _ | ⟨a, _ | ⟨b, _ | ⟨c, _ | ⟨d, _ | _⟩⟩⟩⟩ := l
  all_goals simp at hlen
  have ha := h a (by simp)
  have hmax : maxFrame = 2 ^ 24 := rfl
  simp only [ntohl]
  omega

/-- The frame of a text that is too long leaves the reader stopped. -/
theorem feed_oversize {body : List UInt8} {bodies : List (List UInt8)}
    (hlong : maxFrame < body.length) (hprint : Json.Printable body) :
    ∃ cut, (frameFormat.frame body).foldl frameFormat.feed ⟨bodies, .header []⟩
      = ⟨cut, .stopped⟩ := by
  have hmax : maxFrame = 2 ^ 24 := rfl
  by_cases hrefused : frameFormat.bodySize (lenBe body.length) = 0
  · exact ⟨_, Framing.Format.feed_refused hrefused⟩
  · have hsize := frameFormat_accepts hrefused
    have hrest := mt frameFormat_refuses.mpr hrefused
    rw [ntohl_lenBe] at hsize hrest
    refine ⟨_, Framing.Format.feed_truncated hsize (by omega) ?_ ?_⟩
    · show body.length % 2 ^ 32 + 4 ≤ body.length
      omega
    · refine frameFormat_refuses.mpr (.inr (ntohl_printable ?_ ?_))
      · show ((body.drop (body.length % 2 ^ 32)).take 4).length = 4
        rw [List.length_take, List.length_drop]
        omega
      · exact fun b hb => hprint b (List.mem_of_mem_drop (List.mem_of_mem_take hb))

/-- The bodies of these messages are decoded as the messages. -/
theorem decoded_bodiesOf (unset : MsgType) (hjson : ∀ msg ∈ msgs, JsonText dump parse msg)
    (hrange : ∀ msg ∈ msgs, msg.InRange) :
    (bodiesOf dump msgs).filterMap (ReadLoop.decoded parse unset) = msgs := by
  rw [bodiesOf, List.filterMap_map]
  refine (List.filterMap_congr fun msg hmsg => ?_).trans List.filterMap_some
  have hok := (hjson msg hmsg).decodeBody_dump unset (hrange msg hmsg)
  simp [ReadLoop.decoded, hok, Except.toOption]

/-- The loop on the frames of these messages. -/
theorem run_frames (unset : MsgType) (hjson : ∀ msg ∈ msgs, JsonText dump parse msg)
    (hrange : ∀ msg ∈ msgs, msg.InRange)
    (hfit : ∀ msg ∈ msgs, (dump msg.toJson).length ≤ maxFrame) :
    ReadLoop.run parse unset ((bodiesOf dump msgs).map frameFormat.frame).flatten
      = ⟨.length [], msgs⟩ := by
  have hcarries : ∀ body ∈ bodiesOf dump msgs, frameFormat.Carries body := by
    intro body hbody
    obtain ⟨msg, hmsg, rfl⟩ := List.mem_map.mp hbody
    exact TcpTransport.carries_iff.mpr ⟨(hjson msg hmsg).ne_nil, hfit msg hmsg⟩
  rw [ReadLoop.run_eq, Framing.Format.read_frames hcarries]
  exact congrArg (ReadLoop.mk (.length [])) (decoded_bodiesOf unset hjson hrange)

/-- The loop returns at the first message whose text is too long. -/
theorem run_oversize (unset : MsgType) (hjson : ∀ msg ∈ msgs, JsonText dump parse msg)
    (hlong : ∃ msg ∈ msgs, maxFrame < (dump msg.toJson).length) :
    (ReadLoop.run parse unset ((bodiesOf dump msgs).map frameFormat.frame).flatten).frame
      = .returned := by
  obtain ⟨first, hfirst⟩ : ∃ first, msgs.find?
      (fun msg => maxFrame < (dump msg.toJson).length) = some first := by
    rw [← Option.isSome_iff_exists, List.find?_isSome]
    simpa using hlong
  obtain ⟨hbig, before, after, rfl, hbefore⟩ := List.find?_eq_some_iff_append.mp hfirst
  have hcarries : ∀ body ∈ bodiesOf dump before, frameFormat.Carries body := by
    intro body hbody
    obtain ⟨msg, hmsg, rfl⟩ := List.mem_map.mp hbody
    have hfit := hbefore msg hmsg
    exact TcpTransport.carries_iff.mpr
      ⟨(hjson msg (List.mem_append_left _ hmsg)).ne_nil, by simpa using hfit⟩
  obtain ⟨cut, hcut⟩ := feed_oversize (of_decide_eq_true hbig) (hjson first (by simp)).printable
  have hread := Framing.Format.read_stopped (bodiesOf dump after) hcarries hcut
  rw [ReadLoop.run_eq, bodiesOf, List.map_append, List.map_cons]
  exact congrArg (fun r => ReadLoop.frameOf r.position) hread

/-- **Messages sent one after another** are received as they were, in order,
just when each text is within the reader's limit; past one that is not, the
reader has returned. -/
theorem send_accepted_iff {t : TcpTransport} {peer : Nat} (unset : MsgType)
    (hhealthy : t.Healthy peer) (hfresh : t.streams peer = [])
    (hjson : ∀ msg ∈ msgs, JsonText dump parse msg) (hrange : ∀ msg ∈ msgs, msg.InRange) :
    ∃ t', Runs.exec (TcpTransport.step dump) t
        (TcpTransport.oneByOne peer t.sends.length msgs) = some t'
      ∧ (ReadLoop.run parse unset (t'.streams peer) = ⟨.length [], msgs⟩
        ↔ ∀ msg ∈ msgs, (dump msg.toJson).length ≤ maxFrame)
      ∧ ((∃ msg ∈ msgs, maxFrame < (dump msg.toJson).length) →
        (ReadLoop.run parse unset (t'.streams peer)).frame = .returned) := by
  obtain ⟨t', hexec, hstream⟩ := TcpTransport.exec_oneByOne dump hhealthy msgs
  rw [hfresh, List.nil_append] at hstream
  have hreturned := run_oversize unset hjson
  refine ⟨t', hexec, ⟨fun hrun => ?_, fun hfit => ?_⟩, fun hlong => ?_⟩
  · by_contra hlong
    simp only [not_forall, Nat.not_le, exists_prop] at hlong
    have hframe := hreturned hlong
    rw [← hstream, hrun] at hframe
    cases hframe
  · rw [hstream]
    exact run_frames unset hjson hrange hfit
  · rw [hstream]
    exact hreturned hlong

/-! ## Long and short texts -/

/-- A parser for the text of one message. -/
def parseOnly (msg : PaxosMessage) (bytes : List UInt8) : Except String Json :=
  if bytes = plainText msg.toJson then .ok msg.toJson.reparsed else .error "parse error"

theorem plainText_jsonText (msg : PaxosMessage) : JsonText plainText (parseOnly msg) msg where
  parse_dump := if_pos rfl
  ne_nil := plainText_ne_nil msg
  printable := Json.text_printable (fun _ => by decide +kernel) _

def healthyTransport : TcpTransport :=
  { myIndex := 0, npeers := 2, outboundFds := fun _ => .valid }

theorem healthyTransport_healthy : healthyTransport.Healthy 1 :=
  ⟨by decide, by decide, rfl⟩

/-- A PROPOSE with a `task_fail` that gives `n` letters as its reason. -/
def failWith (n : Nat) : PaxosMessage :=
  { type := .propose, sender := 0,
    values := [{ req := .taskFail { reason := .ofList (List.replicate n 'x') } }] }

theorem failWith_inRange (n : Nat) : (failWith n).InRange := by
  simp [failWith, PaxosMessage.InRange, DecidedValue.InRange, Request.InRange]

theorem length_failWith (n : Nat) : n ≤ (plainText (failWith n).toJson).length := by
  let reason := String.ofList (List.replicate n 'x')
  let req : Request := .taskFail { reason }
  let dv : DecidedValue := { req }
  have hreason : (toJsonRequestBody req).find? "reason" = some (.string reason) := by
    simp [req, toJsonRequestBody, putBase]
  have hreq : dv.toJson.find? "req" = some (toJsonRequestBody req) := by
    simp [dv, DecidedValue.toJson]
  have hvalues : (failWith n).toJson.find? "values" = some (.array [dv.toJson]) := by
    simp [failWith, PaxosMessage.toJson, dv, req, reason]
  calc n = reason.length := by simp [reason]
    _ ≤ (plainText (.string reason)).length := by
        rw [plainText, Json.text]
        exact Json.length_le_quote reason
    _ ≤ (plainText (toJsonRequestBody req)).length := Json.length_text_find? hreason
    _ ≤ (plainText dv.toJson).length := Json.length_text_find? hreq
    _ ≤ (plainText (.array [dv.toJson])).length := Json.length_text_item (by simp)
    _ ≤ (plainText (failWith n).toJson).length := Json.length_text_find? hvalues

/-- Two short messages are received as they were. -/
theorem send_accepted_iff_twice :
    ∃ t', Runs.exec (TcpTransport.step plainText) healthyTransport
        (TcpTransport.oneByOne 1 0 [failWith 3, failWith 3]) = some t'
      ∧ ReadLoop.run (parseOnly (failWith 3)) .ack (t'.streams 1)
        = ⟨.length [], [failWith 3, failWith 3]⟩ := by
  have hfit : (plainText (failWith 3).toJson).length ≤ maxFrame := by decide +kernel
  have hjson : ∀ msg ∈ [failWith 3, failWith 3],
      JsonText plainText (parseOnly (failWith 3)) msg := by
    simpa using plainText_jsonText (failWith 3)
  obtain ⟨t', hexec, hread, -⟩ := send_accepted_iff .ack healthyTransport_healthy rfl hjson
    (by simpa using failWith_inRange 3)
  exact ⟨t', hexec, hread.mpr (by simpa using hfit)⟩

/-- A reason of more than `2 ^ 24` letters: the reader returns. -/
theorem not_send_accepted :
    ¬∀ (dump : Json → List UInt8) (parse : List UInt8 → Except String Json) (unset : MsgType)
      (t : TcpTransport) (peer : Nat) (msgs : List PaxosMessage), t.Healthy peer →
      t.streams peer = [] → (∀ msg ∈ msgs, JsonText dump parse msg) →
      (∀ msg ∈ msgs, msg.InRange) →
      ∃ t', Runs.exec (TcpTransport.step dump) t
          (TcpTransport.oneByOne peer t.sends.length msgs) = some t'
        ∧ ReadLoop.run parse unset (t'.streams peer) = ⟨.length [], msgs⟩ := by
  intro h
  let msg := failWith (2 ^ 24 + 1)
  have hjson : ∀ m ∈ [msg], JsonText plainText (parseOnly msg) m := by
    simpa using plainText_jsonText msg
  obtain ⟨t', hexec, hrun⟩ := h plainText (parseOnly msg) .ack healthyTransport 1 [msg]
    healthyTransport_healthy rfl hjson (by simpa using failWith_inRange _)
  obtain ⟨t'', hexec', hstream⟩ :=
    TcpTransport.exec_oneByOne plainText healthyTransport_healthy [msg]
  obtain rfl := Option.some.inj (hexec.symm.trans hexec')
  have hlong : maxFrame < (plainText msg.toJson).length := length_failWith _
  have hreturned := run_oversize .ack hjson ⟨msg, by simp, hlong⟩
  rw [hstream] at hrun
  cases (congrArg ReadLoop.frame hrun).symm.trans hreturned

end Tmgr
