import Mathlib.Data.List.Perm.Basic
import Tmgr.Lib.Run
import Tmgr.JsonText
import Tmgr.Transport

/-!
# Frames on one connection

Many calls of `send` to one peer may be in progress at once. A frame is
written with two writes, so a second call can put its length between the
length and the body of the first: `interleavedSends` does, and the reader
takes the wrong bytes for a body. `frames_whole` is the converse: while no
call writes its length between the two writes of another call to the same
peer, the stream is cut into the frames of the messages sent, in the order in
which their bodies were written.

`Whole` is the invariant: the stream is made of whole frames, one for each
call that has returned, followed by the length of the one call that is
between its writes, if there is one.
-/

namespace Tmgr

theorem plainText_ne_nil (msg : PaxosMessage) : plainText msg.toJson ≠ [] := by
  simp [plainText, PaxosMessage.toJson, Json.text]

/-! ## The calls to one peer -/

/-- The messages whose calls have returned. -/
def sentTo (peer : Nat) (calls : List SendCall) : List PaxosMessage :=
  (calls.filter fun call => call.peer = peer ∧ call.frame = .returned).map (·.msg)

/-- The calls between their two writes. -/
def midway (peer : Nat) (calls : List SendCall) : List SendCall :=
  calls.filter fun call => call.peer = peer ∧ call.frame = .body

theorem sentTo_perm {peer : Nat} {calls calls' : List SendCall} (h : calls.Perm calls') :
    (sentTo peer calls).Perm (sentTo peer calls') :=
  (h.filter _).map _

theorem midway_perm {peer : Nat} {calls calls' : List SendCall} (h : calls.Perm calls') :
    (midway peer calls).Perm (midway peer calls') :=
  h.filter _

theorem sentTo_cons (peer : Nat) (call : SendCall) (calls : List SendCall) :
    sentTo peer (call :: calls) =
      if call.peer = peer ∧ call.frame = .returned then call.msg :: sentTo peer calls
      else sentTo peer calls := by
  simp only [sentTo, List.filter_cons, decide_eq_true_eq]
  split <;> rfl

theorem midway_cons (peer : Nat) (call : SendCall) (calls : List SendCall) :
    midway peer (call :: calls) =
      if call.peer = peer ∧ call.frame = .body then call :: midway peer calls
      else midway peer calls := by
  simp only [midway, List.filter_cons, decide_eq_true_eq]

/-- One call among the others, before and after it changes. -/
theorem exists_rest {calls : List SendCall} {k : Nat} {call : SendCall}
    (h : calls[k]? = some call) : ∃ rest, calls.Perm (call :: rest)
      ∧ ∀ call', (calls.set k call').Perm (call' :: rest) := by
  obtain ⟨hk, rfl⟩ := List.getElem?_eq_some_iff.mp h
  exact ⟨calls.eraseIdx k, (List.getElem_cons_eraseIdx_perm hk).symm,
    fun call' => List.set_perm_cons_eraseIdx hk call'⟩

/-! ## The invariant -/

section

variable (dump : Json → List UInt8)

/-- The bodies of the frames of these messages. -/
def bodiesOf (msgs : List PaxosMessage) : List (List UInt8) :=
  msgs.map fun msg => dump msg.toJson

/-- The stream to a peer: whole frames, and perhaps the length of one more. -/
inductive WholeStream (calls : List SendCall) (peer : Nat) (stream : List UInt8)
    (order : List PaxosMessage) : Prop
  | whole (hmid : midway peer calls = [])
      (hstream : stream = ((bodiesOf dump order).map frameFormat.frame).flatten)
  | between (call : SendCall) (hmid : midway peer calls = [call])
      (hstream : stream = ((bodiesOf dump order).map frameFormat.frame).flatten
        ++ lenBe call.body.length)

structure Whole (t : TcpTransport) : Prop where
  bodies : ∀ call ∈ t.sends, call.body = dump call.msg.toJson ∧ call.body.length ≤ maxFrame
  stream : ∀ peer, ∃ order : List PaxosMessage, order.Perm (sentTo peer t.sends)
    ∧ WholeStream dump t.sends peer (t.streams peer) order

end

variable {dump : Json → List UInt8} {t t' : TcpTransport}

theorem WholeStream.congr {calls calls' : List SendCall} {peer : Nat} {stream : List UInt8}
    {order : List PaxosMessage} (h : WholeStream dump calls peer stream order)
    (hmid : (midway peer calls').Perm (midway peer calls)) :
    WholeStream dump calls' peer stream order := by
  cases h with
  | whole hmid' hstream =>
      rw [hmid', List.perm_nil] at hmid
      exact .whole hmid hstream
  | between call hmid' hstream =>
      rw [hmid', List.perm_singleton] at hmid
      exact .between call hmid hstream

/-- One stream is made of whole frames, as in `Whole`. -/
def LinkWhole (dump : Json → List UInt8) (t : TcpTransport) (peer : Nat) : Prop :=
  ∃ order : List PaxosMessage, order.Perm (sentTo peer t.sends)
    ∧ WholeStream dump t.sends peer (t.streams peer) order

/-- The calls that have returned, and those between their writes, are the same
ones. -/
theorem LinkWhole.transfer {peer : Nat} (h : LinkWhole dump t peer)
    (hsent : (sentTo peer t.sends).Perm (sentTo peer t'.sends))
    (hmid : (midway peer t'.sends).Perm (midway peer t.sends))
    (hstream : t'.streams peer = t.streams peer) : LinkWhole dump t' peer := by
  obtain ⟨order, hperm, hwhole⟩ := h
  refine ⟨order, hperm.trans hsent, ?_⟩
  rw [hstream]
  exact hwhole.congr hmid

namespace TcpTransport

/-- What a run may do if its frames are to stay whole: a body is as long as
the reader allows, no write fails, and a length is written only while no
other call to that peer is between its two writes. -/
def wholeWrites (dump : Json → List UInt8) (t : TcpTransport) : TransportEvent → Prop
  | .connected _ => True
  | .send _ msg => (dump msg.toJson).length ≤ maxFrame
  | .written k => ∀ call ∈ t.sends[k]?, call.frame = .length → midway call.peer t.sends = []
  | .failed _ _ => False

theorem send_whole (h : Whole dump t) (peer : Nat) {msg : PaxosMessage}
    (hlen : (dump msg.toJson).length ≤ maxFrame) : Whole dump (t.send dump peer msg) := by
  unfold send
  split
  · exact h
  split
  · exact h
  have hbodies : ∀ call ∈ t.sends ++ [{ peer, msg, body := dump msg.toJson }],
      call.body = dump call.msg.toJson ∧ call.body.length ≤ maxFrame := by
    intro call hcall
    rcases List.mem_append.mp hcall with hcall | hcall
    · exact h.bodies call hcall
    · obtain rfl := List.mem_singleton.mp hcall
      exact ⟨rfl, hlen⟩
  refine ⟨hbodies, fun p => ?_⟩
  refine LinkWhole.transfer (h.stream p) ?_ ?_ rfl
  · simp [sentTo]
  · simp [midway]

/-- One call changes, and its write is put on its connection. -/
theorem written_streams (k : Nat) (call : SendCall) (p : Nat) :
    (t.written k call).streams p =
      if p = call.peer then t.streams p ++ call.bytes else t.streams p := by
  by_cases hp : p = call.peer
  · subst hp
    simp [written, put, setFrame]
  · simp [written, put, setFrame, hp]

/-- The length goes on a stream of whole frames. -/
theorem written_length_whole {k : Nat} {call : SendCall} (h : LinkWhole dump t call.peer)
    (hcall : t.sends[k]? = some call) (hframe : call.frame = .length)
    (hmid : midway call.peer t.sends = []) : LinkWhole dump (t.written k call) call.peer := by
  obtain ⟨rest, hrest, hset⟩ := exists_rest hcall
  obtain ⟨order, hperm, hwhole⟩ := h
  have hsent : (sentTo call.peer t.sends).Perm (sentTo call.peer (t.written k call).sends) := by
    refine (sentTo_perm hrest).trans (.trans ?_ (sentTo_perm (hset _)).symm)
    simp [sentTo_cons, hframe, SendFrame.next]
  have hnone : midway call.peer rest = [] := by
    have hperm : (midway call.peer t.sends).Perm (midway call.peer (call :: rest)) :=
      midway_perm hrest
    rw [hmid, midway_cons, if_neg (by simp [hframe])] at hperm
    exact List.nil_perm.mp hperm
  have hmid' : midway call.peer (t.written k call).sends = [{ call with frame := .body }] := by
    refine List.perm_singleton.mp ((midway_perm (hset _)).trans ?_)
    rw [midway_cons, if_pos ⟨rfl, by rw [hframe]; rfl⟩, hnone, hframe]
    exact .refl _
  refine ⟨order, hperm.trans hsent, .between _ hmid' ?_⟩
  rw [written_streams, if_pos rfl]
  cases hwhole with
  | whole _ hstream => rw [hstream, SendCall.bytes, hframe]
  | between _ hother => simp [hmid] at hother

/-- The body goes after its own length. -/
theorem written_body_whole {k : Nat} {call : SendCall} (h : LinkWhole dump t call.peer)
    (hbody : call.body = dump call.msg.toJson) (hcall : t.sends[k]? = some call)
    (hframe : call.frame = .body) : LinkWhole dump (t.written k call) call.peer := by
  obtain ⟨rest, hrest, hset⟩ := exists_rest hcall
  obtain ⟨order, hperm, hwhole⟩ := h
  have hsent : (call.msg :: sentTo call.peer t.sends).Perm
      (sentTo call.peer (t.written k call).sends) := by
    refine ((sentTo_perm hrest).cons _).trans (.trans ?_ (sentTo_perm (hset _)).symm)
    simp [sentTo_cons, hframe, SendFrame.next]
  have hcalls : (midway call.peer t.sends).Perm (call :: midway call.peer rest) := by
    refine (midway_perm hrest).trans ?_
    rw [midway_cons, if_pos ⟨rfl, hframe⟩]
  cases hwhole with
  | whole hmid => simp [hmid] at hcalls
  | between c hmid hstream =>
      rw [hmid, List.singleton_perm, List.cons.injEq] at hcalls
      obtain ⟨rfl, hnone⟩ := hcalls
      refine ⟨order ++ [c.msg], ?_, .whole ?_ ?_⟩
      · exact ((List.perm_append_singleton _ _).trans (hperm.cons _)).trans hsent
      · refine List.perm_nil.mp ((midway_perm (hset _)).trans ?_)
        rw [midway_cons, if_neg (by simp [hframe, SendFrame.next]), hnone]
      · rw [written_streams, if_pos rfl, hstream, SendCall.bytes, hframe]
        simp [bodiesOf, Framing.Format.frame, frameFormat, hbody]

/-- A call to another peer goes on. -/
theorem set_other_link {k p : Nat} {call : SendCall} (h : LinkWhole dump t p)
    (hcall : t.sends[k]? = some call) (hp : p ≠ call.peer) (frame : SendFrame)
    (hsends : t'.sends = t.sends.set k { call with frame })
    (hstream : t'.streams p = t.streams p) : LinkWhole dump t' p := by
  obtain ⟨rest, hrest, hset⟩ := exists_rest hcall
  refine h.transfer ?_ ?_ hstream
  · rw [hsends]
    refine (sentTo_perm hrest).trans (.trans ?_ (sentTo_perm (hset _)).symm)
    simp [sentTo_cons, Ne.symm hp]
  · rw [hsends]
    refine (midway_perm (hset _)).trans (.trans ?_ (midway_perm hrest).symm)
    simp [midway_cons, Ne.symm hp]

/-- A write that completes leaves each stream made of whole frames. -/
theorem written_link {k p : Nat} {call : SendCall} (h : LinkWhole dump t p)
    (hbody : call.body = dump call.msg.toJson) (hcall : t.sends[k]? = some call)
    (hframe : call.frame ≠ .returned)
    (hok : call.frame = .length → midway call.peer t.sends = []) :
    LinkWhole dump (t.written k call) p := by
  by_cases hp : p = call.peer
  · subst hp
    cases hf : call.frame with
    | length => exact written_length_whole h hcall hf (hok hf)
    | body => exact written_body_whole h hbody hcall hf
    | returned => exact absurd hf hframe
  · exact set_other_link h hcall hp _ rfl (by rw [written_streams, if_neg hp])

theorem written_whole (h : Whole dump t) {k : Nat} {call : SendCall}
    (hcall : t.sends[k]? = some call) (hframe : call.frame ≠ .returned)
    (hok : call.frame = .length → midway call.peer t.sends = []) :
    Whole dump (t.written k call) := by
  obtain ⟨rest, hrest, hset⟩ := exists_rest hcall
  refine ⟨fun c hc => ?_, fun p => written_link (h.stream p) ?_ hcall hframe hok⟩
  · rcases List.mem_cons.mp ((hset _).mem_iff.mp hc) with rfl | hc
    · exact h.bodies call (List.mem_of_getElem? hcall)
    · exact h.bodies c (hrest.mem_iff.mpr (List.mem_cons_of_mem _ hc))
  · exact (h.bodies call (List.mem_of_getElem? hcall)).1

theorem step_whole (h : Whole dump t) {e : TransportEvent} (hok : t.wholeWrites dump e)
    (hstep : t.step dump e = some t') : Whole dump t' := by
  cases e with
  | connected peer =>
      simp only [step] at hstep
      split at hstep
      · obtain rfl := Option.some.inj hstep
        exact ⟨h.bodies, h.stream⟩
      · cases hstep
  | send peer msg =>
      obtain rfl := Option.some.inj hstep
      exact send_whole h peer hok
  | written k =>
      simp only [step] at hstep
      split at hstep
      · rename_i call hcall
        split at hstep
        · rename_i hready
          obtain rfl := Option.some.inj hstep
          exact written_whole h hcall hready.1 (hok call hcall)
        · cases hstep
      · cases hstep
  | failed k sent => exact hok.elim

/-! ## Runs -/

def initial (myIndex npeers : Nat) : TcpTransport := { myIndex, npeers }

abbrev TransportRun (dump : Json → List UInt8) (myIndex npeers : Nat)
    (ok : TcpTransport → TransportEvent → Prop) :=
  Runs.Run (step dump) ok (initial myIndex npeers)

variable {myIndex npeers : Nat} {tr : List (TcpTransport × TransportEvent)}

theorem run_whole (hrun : TransportRun dump myIndex npeers (wholeWrites dump) tr t) :
    Whole dump t :=
  hrun.invariant ⟨by simp [initial], fun _ => ⟨[], .refl _, .whole rfl rfl⟩⟩
    fun h hok hstep => step_whole h hok hstep

/-- The stream to a peer is cut into the frames of the messages sent to it,
each once, in some order; and nothing is left over unless a call is between
its two writes. -/
def FramesWhole (dump : Json → List UInt8) (t : TcpTransport) (peer : Nat) : Prop :=
  ∃ order : List PaxosMessage, order.Perm (sentTo peer t.sends)
    ∧ (frameFormat.read (t.streams peer)).bodies = bodiesOf dump order
    ∧ (midway peer t.sends = [] → (frameFormat.read (t.streams peer)).position = .header [])

theorem carries_iff {body : List UInt8} :
    frameFormat.Carries body ↔ body ≠ [] ∧ body.length ≤ maxFrame := by
  have hmax : maxFrame = 2 ^ 24 := rfl
  have hpos : body ≠ [] ↔ 0 < body.length := List.length_pos_iff.symm
  simp only [Framing.Format.Carries, frameFormat, ntohl_lenBe, hpos]
  split <;> omega

/-- **Frames stay whole**, in every run in which no call writes its length
between the two writes of another. -/
theorem frames_whole (hdump : ∀ msg : PaxosMessage, dump msg.toJson ≠ [])
    (hrun : TransportRun dump myIndex npeers (wholeWrites dump) tr t) (peer : Nat) :
    FramesWhole dump t peer := by
  have hwhole := run_whole hrun
  obtain ⟨order, hperm, hstream⟩ := hwhole.stream peer
  have hcarries : ∀ body ∈ bodiesOf dump order, frameFormat.Carries body := by
    intro body hbody
    obtain ⟨msg, hmsg, rfl⟩ := List.mem_map.mp hbody
    obtain ⟨call, hcall, rfl⟩ := List.mem_map.mp (hperm.mem_iff.mp hmsg)
    obtain ⟨hbody, hlen⟩ := hwhole.bodies call (List.mem_of_mem_filter hcall)
    exact carries_iff.mpr ⟨hdump _, hbody ▸ hlen⟩
  refine ⟨order, hperm, ?_⟩
  cases hstream with
  | whole _ hstream =>
      rw [hstream, Framing.Format.read_frames hcarries]
      exact ⟨rfl, fun _ => rfl⟩
  | between call hmid hstream =>
      have hcall : call ∈ t.sends := List.mem_of_mem_filter (hmid ▸ List.mem_singleton_self call)
      obtain ⟨hbody, hlen⟩ := hwhole.bodies call hcall
      have hread := Framing.Format.read_frames_header hcarries
        (carries_iff.mpr ⟨hbody ▸ hdump _, hlen⟩)
      rw [hstream]
      refine ⟨congrArg Framing.Reader.bodies hread, fun hnone => ?_⟩
      simp [hmid] at hnone

/-! ## Two calls in progress -/

def writesSucceed (_ : TcpTransport) : TransportEvent → Prop
  | .failed _ _ => False
  | _ => True

instance (t : TcpTransport) : ∀ e, Decidable (t.writesSucceed e)
  | .connected _ => isTrue trivial
  | .send _ _ => isTrue trivial
  | .written _ => isTrue trivial
  | .failed _ _ => isFalse id

instance (dump : Json → List UInt8) (t : TcpTransport) : ∀ e, Decidable (t.wholeWrites dump e)
  | .connected _ => isTrue trivial
  | .send _ msg => inferInstanceAs (Decidable ((dump msg.toJson).length ≤ maxFrame))
  | .written k => inferInstanceAs (Decidable
      (∀ call ∈ t.sends[k]?, call.frame = .length → midway call.peer t.sends = []))
  | .failed _ _ => isFalse id

def ackMessage (slot : Nat) : PaxosMessage := { type := .ack, sender := 0, ackSlot := slot }

/-- A second call waits while the first one writes its frame. -/
def queuedSends : List TransportEvent :=
  [.connected 1, .send 1 (ackMessage 1), .send 1 (ackMessage 2), .written 0, .written 0,
   .written 1, .written 1]

theorem frames_whole_queuedSends :
    FramesWhole plainText ((Runs.exec (step plainText) (initial 0 2) queuedSends).get
      (by decide +kernel)) 1 :=
  frames_whole plainText_ne_nil
    (Runs.run_of_exec queuedSends (by decide +kernel) (by decide +kernel)) 1

/-- A second call writes its length while the first one waits for its body to
be written. -/
def interleavedSends : List TransportEvent :=
  [.connected 1, .send 1 (ackMessage 1), .written 0, .send 1 (ackMessage 2), .written 1,
   .written 0, .written 1]

theorem not_frames_whole :
    ¬∀ (dump : Json → List UInt8) (myIndex npeers : Nat)
      (tr : List (TcpTransport × TransportEvent)) (t : TcpTransport),
      (∀ msg : PaxosMessage, dump msg.toJson ≠ []) →
      TransportRun dump myIndex npeers writesSucceed tr t → ∀ peer, FramesWhole dump t peer := by
  intro h
  obtain ⟨order, hperm, hbodies, -⟩ := h plainText 0 2 _ _ plainText_ne_nil
    (Runs.run_of_exec interleavedSends (by decide +kernel) (by decide +kernel)) 1
  have hsent := hperm.length_eq
  have hcut := congrArg List.length hbodies
  rw [bodiesOf, List.length_map, hsent] at hcut
  revert hcut
  decide +kernel

end TcpTransport

end Tmgr
