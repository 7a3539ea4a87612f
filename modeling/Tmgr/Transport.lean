import Tmgr.Lib.Framing
import Tmgr.Codec

/-!
# The TCP transport

`tcp_transport` as seen from one replica that sends and from the `read_loop_`
that a peer runs on the other end of the connection. Bodies are texts of JSON
values; printing and parsing them is left to the parameters `dump` and
`parse`.

`send` writes a frame with two `cot::write` calls, and a coroutine can lose
control at each. `SendCall` is a call that has got to the first of them: the
message, the text made of it, and the write it waits for. `written` is a
write that completes and `failed` one that does not; the bytes of a write go
on the connection when it completes. `connected` is `connect_loop_` getting
its connection, which it does once.

`read_loop_` suspends in `cot::read` until it has the bytes it asked for, so
it is a function of the bytes that have arrived, one after another.
-/

namespace Tmgr

/-! ## Frames -/

/-- The bytes of `htonl(static_cast<uint32_t>(size))`. -/
def lenBe (size : Nat) : List UInt8 :=
  [.ofNat (size / 2 ^ 24), .ofNat (size / 2 ^ 16), .ofNat (size / 2 ^ 8), .ofNat size]

/-- `ntohl` of four bytes. -/
def ntohl : List UInt8 → Nat
  | [a, b, c, d] => a.toNat * 2 ^ 24 + b.toNat * 2 ^ 16 + c.toNat * 2 ^ 8 + d.toNat
  | _ => 0

theorem ntohl_lenBe (size : Nat) : ntohl (lenBe size) = size % 2 ^ 32 := by
  simp only [ntohl, lenBe, UInt8.toNat_ofNat']
  omega

/-- The largest body `read_loop_` accepts. -/
def maxFrame : Nat := 1 <<< 24

/-- The frames that `send` writes, with the headers that `read_loop_`
accepts. -/
def frameFormat : Framing.Format UInt8 where
  headerSize := 4
  headerSize_pos := by decide
  header := lenBe
  length_header _ := rfl
  bodySize header := if ntohl header > maxFrame then 0 else ntohl header

theorem frameFormat_refuses {header : List UInt8} :
    frameFormat.bodySize header = 0 ↔ ntohl header = 0 ∨ ntohl header > maxFrame := by
  simp only [frameFormat]
  split
  · simp [*]
  · simp [*]

theorem frameFormat_accepts {header : List UInt8} (h : frameFormat.bodySize header ≠ 0) :
    frameFormat.bodySize header = ntohl header := by
  simp only [frameFormat] at h ⊢
  split
  · simp_all
  · rfl

/-! ## send -/

/-- `outbound_fds_[peer]`: not yet connected, valid, or closed. -/
inductive OutboundFd where
  | connecting
  | valid
  | closed
  deriving DecidableEq, Repr

/-- Where a call of `send` stands: at the write of the length, at the write
of the body, or returned. -/
inductive SendFrame where
  | length
  | body
  | returned
  deriving DecidableEq, Repr

/-- Where the call goes when its write completes. -/
def SendFrame.next : SendFrame → SendFrame
  | .length => .body
  | .body => .returned
  | .returned => .returned

structure SendCall where
  peer : Nat
  msg : PaxosMessage
  /-- `to_json(msg).dump()` -/
  body : List UInt8
  frame : SendFrame := .length
  deriving DecidableEq

/-- The bytes of the write the call waits for. -/
def SendCall.bytes (call : SendCall) : List UInt8 :=
  match call.frame with
  | .length => lenBe call.body.length
  | .body => call.body
  | .returned => []

structure TcpTransport where
  myIndex : Nat
  /-- the size of `peer_addrs_` -/
  npeers : Nat
  outboundFds : Nat → OutboundFd := fun _ => .connecting
  /-- the bytes on the connection to each peer -/
  streams : Nat → List UInt8 := fun _ => []
  sends : List SendCall := []

inductive TransportEvent where
  | connected (peer : Nat)
  | send (peer : Nat) (msg : PaxosMessage)
  /-- the write that the `k`-th call waits for completes -/
  | written (k : Nat)
  /-- it fails, with this many of its bytes on the connection -/
  | failed (k sent : Nat)
  deriving DecidableEq

namespace TcpTransport

variable (dump : Json → List UInt8)

/-- Put bytes on the connection to a peer. -/
def put (t : TcpTransport) (peer : Nat) (bytes : List UInt8) : TcpTransport :=
  { t with streams := Function.update t.streams peer (t.streams peer ++ bytes) }

def close (t : TcpTransport) (peer : Nat) : TcpTransport :=
  { t with outboundFds := Function.update t.outboundFds peer .closed }

def setFrame (t : TcpTransport) (k : Nat) (call : SendCall) (frame : SendFrame) : TcpTransport :=
  { t with sends := t.sends.set k { call with frame } }

/-- Up to the write of the length; without a connection there is none. -/
def send (t : TcpTransport) (peer : Nat) (msg : PaxosMessage) : TcpTransport :=
  if peer ≥ t.npeers ∨ peer = t.myIndex then t
  else if t.outboundFds peer ≠ .valid then t
  else { t with sends := t.sends ++ [{ peer, msg, body := dump msg.toJson }] }

/-- A write completes: the call goes on to the next one, or returns. -/
def written (t : TcpTransport) (k : Nat) (call : SendCall) : TcpTransport :=
  (t.put call.peer call.bytes).setFrame k call call.frame.next

/-- A write fails: the call closes the descriptor and returns. -/
def failed (t : TcpTransport) (k sent : Nat) (call : SendCall) : TcpTransport :=
  ((t.put call.peer (call.bytes.take sent)).close call.peer).setFrame k call .returned

def step (t : TcpTransport) : TransportEvent → Option TcpTransport
  | .connected peer =>
    if peer < t.npeers ∧ peer ≠ t.myIndex ∧ t.outboundFds peer = .connecting then
      some { t with outboundFds := Function.update t.outboundFds peer .valid }
    else none
  | .send peer msg => some (t.send dump peer msg)
  | .written k =>
    match t.sends[k]? with
    | some call =>
      if call.frame ≠ .returned ∧ t.outboundFds call.peer = .valid then some (t.written k call)
      else none
    | none => none
  | .failed k sent =>
    match t.sends[k]? with
    | some call =>
      if call.frame = .returned then none
      else if t.outboundFds call.peer = .valid then some (t.failed k sent call)
      else some (t.failed k 0 call)
    | none => none

end TcpTransport

/-! ## read_loop_ -/

/-- Where `read_loop_` stands: at the read of a length or of a body, with the
bytes that have arrived, or returned. -/
inductive ReadFrame where
  | length (got : List UInt8)
  | body (len : Nat) (got : List UInt8)
  | returned
  deriving DecidableEq

/-- A `read_loop_` and what it has pushed onto `inbound_queue_`. -/
structure ReadLoop where
  frame : ReadFrame := .length []
  inboundQueue : List PaxosMessage := []
  deriving DecidableEq

/-- Decode the body of a frame. -/
def decodeBody (parse : List UInt8 → Except String Json) (unset : MsgType) (body : List UInt8) :
    Except String PaxosMessage :=
  parse body >>= PaxosMessage.fromJson unset

namespace ReadLoop

variable (parse : List UInt8 → Except String Json) (unset : MsgType)

/-- One byte arrives. -/
def arrive (r : ReadLoop) (b : UInt8) : ReadLoop :=
  match r.frame with
  | .length got =>
    if got.length + 1 < 4 then { r with frame := .length (got ++ [b]) }
    else
      let len := ntohl (got ++ [b])
      if len = 0 ∨ len > maxFrame then { r with frame := .returned }
      else { r with frame := .body len [] }
  | .body len got =>
    if got.length + 1 < len then { r with frame := .body len (got ++ [b]) }
    else
      match decodeBody parse unset (got ++ [b]) with
      | .ok msg => ⟨.length [], r.inboundQueue ++ [msg]⟩
      -- a malformed frame is skipped
      | .error _ => { r with frame := .length [] }
  | .returned => r

def run (bytes : List UInt8) : ReadLoop :=
  bytes.foldl (arrive parse unset) {}

/-! ## The loop as a reader of frames -/

def frameOf : Framing.Position UInt8 → ReadFrame
  | .header got => .length got
  | .body size got => .body size got
  | .stopped => .returned

def decoded (body : List UInt8) : Option PaxosMessage :=
  (decodeBody parse unset body).toOption

/-- What the loop has done once the bytes are cut into these frames. -/
def ofReader (r : Framing.Reader UInt8) : ReadLoop :=
  ⟨frameOf r.position, r.bodies.filterMap (decoded parse unset)⟩

theorem arrive_ofReader (r : Framing.Reader UInt8) (b : UInt8) :
    (ofReader parse unset r).arrive parse unset b
      = ofReader parse unset (frameFormat.feed r b) := by
  obtain ⟨bodies, position⟩ := r
  cases position with
  | header got =>
      simp only [ofReader, frameOf, arrive, Framing.Format.feed]
      by_cases hmore : got.length + 1 < 4
      · rw [if_pos hmore, if_pos (show _ < frameFormat.headerSize from hmore)]
      · rw [if_neg hmore, if_neg (show ¬_ < frameFormat.headerSize from hmore)]
        by_cases hsize : frameFormat.bodySize (got ++ [b]) = 0
        · rw [if_pos hsize, if_pos (frameFormat_refuses.mp hsize)]
        · rw [if_neg hsize, if_neg (frameFormat_refuses.not.mp hsize), frameFormat_accepts hsize]
  | body size got =>
      simp only [ofReader, frameOf, arrive, Framing.Format.feed]
      by_cases hmore : got.length + 1 < size
      · rw [if_pos hmore, if_pos hmore]
      · rw [if_neg hmore, if_neg hmore, List.filterMap_append]
        cases hbody : decodeBody parse unset (got ++ [b]) with
        | ok msg => simp [decoded, hbody, Except.toOption]
        | error e => simp [decoded, hbody, Except.toOption]
  | stopped => rfl

/-- `read_loop_` decodes the bodies that the format cuts the bytes into. -/
theorem run_eq (bytes : List UInt8) :
    run parse unset bytes = ofReader parse unset (frameFormat.read bytes) := by
  induction bytes using List.reverseRecOn with
  | nil => rfl
  | append_singleton bytes b ih =>
      rw [run, List.foldl_append, ← run, ih, Framing.Format.read_append]
      exact arrive_ofReader parse unset _ b

end ReadLoop

end Tmgr
