import Mathlib.Algebra.Order.Sub.Basic
import Tmgr.Cluster
import Tmgr.Connection

/-!
# The TCP transports of a group

`tcp_transport` at both ends: the transports of `n` replicas, and between any
two of them a connection whose bytes arrive one after another, as far as they
have been written. Every connection has a `read_loop_` at its far end, and the
loops of one replica share its `inbound_queue_`. Connections break: a write may
fail with any number of its bytes gone, and the call closes the descriptor.

That is a lossy medium (`lossy`), as long as the messages fit the frames and no
call puts bytes between the two writes of another to the same peer: a
`read_loop_` has read the beginning of a stream of whole frames.
-/

namespace Tmgr

/-! ## The connections of a group -/

/-- A `tcp_transport`, with its ends of the connections from the peers. -/
structure TcpNode where
  transport : TcpTransport
  /-- the `read_loop_` of the connection from each peer -/
  readers : Nat → ReadFrame := fun _ => .length []
  /-- how many bytes of that connection have been read -/
  arrived : Nat → Nat := fun _ => 0
  inboundQueue : List PaxosMessage := []

inductive TcpEvent where
  /-- an event of transport `i` other than a call of `send` -/
  | transport (i : Nat) (e : TransportEvent)
  /-- the next byte of the connection from `i` reaches the loop at `j` -/
  | arrive (i j : Nat)

namespace TcpNode

open TcpTransport

variable (dump : Json → List UInt8) (parse : List UInt8 → Except String Json) (unset : MsgType)

/-- The loops of a node push onto one queue. -/
def read (s : TcpNode) (i : Nat) (b : UInt8) : TcpNode :=
  let loop := ReadLoop.arrive parse unset ⟨s.readers i, s.inboundQueue⟩ b
  { s with
    readers := Function.update s.readers i loop.frame
    arrived := Function.update s.arrived i (s.arrived i + 1)
    inboundQueue := loop.inboundQueue }

def setTransport (s : Nat → TcpNode) (i : Nat) (transport : TcpTransport) : Nat → TcpNode :=
  Function.update s i { s i with transport }

def send (s : Nat → TcpNode) (i j : Nat) (msg : PaxosMessage) : Nat → TcpNode :=
  setTransport s i ((s i).transport.send dump j msg)

def step (n : Nat) (s : Nat → TcpNode) : TcpEvent → Option (Nat → TcpNode)
  | .transport _ (.send _ _) => none
  | .transport i e => ((s i).transport.step dump e).map (setTransport s i)
  | .arrive i j =>
    if i < n ∧ j < n then
      (((s i).transport.streams j)[(s j).arrived i]?).map fun b =>
        Function.update s j ((s j).read parse unset i b)
    else none

/-- `receive` takes the message that has waited longest. -/
def receive (s : Nat → TcpNode) (j : Nat) : Option (PaxosMessage × (Nat → TcpNode)) :=
  match (s j).inboundQueue with
  | [] => none
  | msg :: rest => some (msg, Function.update s j { s j with inboundQueue := rest })

def initial (n : Nat) (i : Nat) : TcpNode :=
  { transport := TcpTransport.initial i n }

/-- The TCP transports of `n` replicas as a medium. -/
def medium (n : Nat) : Medium PaxosMessage where
  State := Nat → TcpNode
  Event := TcpEvent
  start := initial n
  send := send dump
  step := step dump parse unset n
  receive := receive

/-- No call puts bytes between the two writes of another to the same peer. -/
def wholeFrames (s : Nat → TcpNode) : TcpEvent → Prop
  | .transport i e => (s i).transport.wholeFrames e
  | .arrive _ _ => True

/-- A message that comes out of `send` and `read_loop_` as it went in. -/
structure Fits (msg : PaxosMessage) : Prop where
  text : JsonText dump parse msg
  inRange : msg.InRange
  length_le : (dump msg.toJson).length ≤ maxFrame

/-! ## What is on the way -/

/-- What the loop has decoded of a stream of which so much has arrived. -/
def decodedFrom (stream : List UInt8) (arrived : Nat) : List PaxosMessage :=
  (frameFormat.read (stream.take arrived)).bodies.filterMap (ReadLoop.decoded parse unset)

/-- The messages given to `send` at `i` for `j` that `j` has not decoded. -/
def undelivered (s : Nat → TcpNode) (i j : Nat) : Multiset PaxosMessage :=
  (callsTo j (s i).transport.sends : Multiset PaxosMessage)
    - decodedFrom parse unset ((s i).transport.streams j) ((s j).arrived i)

structure Held (n : Nat) (s : Nat → TcpNode) (bag : Multiset Packet) : Prop where
  framed : ∀ i, Framed dump (s i).transport
  fits : ∀ i, ∀ call ∈ (s i).transport.sends, Fits dump parse call.msg
  arrived_le : ∀ i j, (s j).arrived i ≤ ((s i).transport.streams j).length
  readers : ∀ i j, (s j).readers i = ReadLoop.frameOf
    (frameFormat.read (((s i).transport.streams j).take ((s j).arrived i))).position
  covers : Medium.Covers n (undelivered parse unset s) (fun j => (s j).inboundQueue) bag

variable {dump parse unset} {n : Nat} {s s' : Nat → TcpNode} {bag : Multiset Packet}

/-- What has been decoded was sent. -/
theorem decodedFrom_subperm {t : TcpTransport} {peer : Nat} (unset : MsgType)
    (hpart : LinkPart dump t peer)
    (hfits : ∀ call ∈ t.sends, Fits dump parse call.msg) (arrived : Nat) :
    (decodedFrom parse unset (t.streams peer) arrived).Subperm (callsTo peer t.sends) := by
  obtain ⟨order, hsub, hpre⟩ := hpart
  have hgood : ∀ msg ∈ order, Fits dump parse msg := by
    intro msg hmsg
    obtain ⟨call, hcall, rfl⟩ := List.mem_map.mp (hsub.subset hmsg)
    exact hfits call (List.mem_of_mem_filter hcall)
  have hcarries : ∀ body ∈ bodiesOf dump order, frameFormat.Carries body := by
    intro body hbody
    obtain ⟨msg, hmsg, rfl⟩ := List.mem_map.mp hbody
    exact carries_iff.mpr ⟨(hgood msg hmsg).text.ne_nil, (hgood msg hmsg).length_le⟩
  have hdecode := decoded_bodiesOf unset (fun msg hmsg => (hgood msg hmsg).text)
    fun msg hmsg => (hgood msg hmsg).inRange
  have hcut := Framing.Format.read_part hcarries ((List.take_prefix arrived _).trans hpre)
  have hdecoded := hcut.filterMap (ReadLoop.decoded parse unset)
  rw [hdecode] at hdecoded
  exact hdecoded.sublist.subperm.trans hsub

/-- A byte that arrives adds at most one message, whatever the queue. -/
theorem arrive_queue (frame : ReadFrame) (b : UInt8) :
    ∃ frame' new, new.length ≤ 1
      ∧ ∀ queue, ReadLoop.arrive parse unset ⟨frame, queue⟩ b = ⟨frame', queue ++ new⟩ := by
  cases frame with
  | length got =>
      by_cases hmore : got.length + 1 < 4
      · exact ⟨.length (got ++ [b]), [], by simp, fun queue => by simp [ReadLoop.arrive, hmore]⟩
      · by_cases hbad : ntohl (got ++ [b]) = 0 ∨ ntohl (got ++ [b]) > maxFrame
        · exact ⟨.returned, [], by simp, fun queue => by simp [ReadLoop.arrive, hmore, hbad]⟩
        · exact ⟨.body (ntohl (got ++ [b])) [], [], by simp,
            fun queue => by simp [ReadLoop.arrive, hmore, hbad]⟩
  | body len got =>
      by_cases hmore : got.length + 1 < len
      · exact ⟨.body len (got ++ [b]), [], by simp, fun queue => by simp [ReadLoop.arrive, hmore]⟩
      · cases hbody : decodeBody parse unset (got ++ [b]) with
        | ok msg =>
            exact ⟨.length [], [msg], by simp,
              fun queue => by simp [ReadLoop.arrive, hmore, hbody]⟩
        | error e =>
            exact ⟨.length [], [], by simp, fun queue => by simp [ReadLoop.arrive, hmore, hbody]⟩
  | returned => exact ⟨.returned, [], by simp, fun queue => by simp [ReadLoop.arrive]⟩

/-- The loop at `j` reads the next byte from `i`: what it has decoded, and what
it pushes. -/
theorem read_next {stream : List UInt8} {k : Nat} {b : UInt8} (hb : stream[k]? = some b) :
    ∃ new, new.length ≤ 1
      ∧ decodedFrom parse unset stream (k + 1) = decodedFrom parse unset stream k ++ new
      ∧ ∀ queue, ReadLoop.arrive parse unset
          ⟨ReadLoop.frameOf (frameFormat.read (stream.take k)).position, queue⟩ b
        = ⟨ReadLoop.frameOf (frameFormat.read (stream.take (k + 1))).position, queue ++ new⟩ := by
  obtain ⟨frame', new, hnew, hall⟩ := @arrive_queue parse unset
    (ReadLoop.frameOf (frameFormat.read (stream.take k)).position) b
  have hread : frameFormat.read (stream.take (k + 1))
      = frameFormat.feed (frameFormat.read (stream.take k)) b := by
    rw [List.take_add_one, hb, Framing.Format.read_append]
    rfl
  have hone := ReadLoop.arrive_ofReader parse unset (frameFormat.read (stream.take k)) b
  rw [← hread] at hone
  have hsame := (hall _).symm.trans hone
  simp only [ReadLoop.ofReader, ReadLoop.mk.injEq] at hsame
  refine ⟨new, hnew, hsame.2.symm, fun queue => ?_⟩
  rw [hall, hsame.1]

theorem initial_held : Held dump parse unset n (initial n) 0 where
  framed i := initial_framed i n
  fits i call hcall := by simp [initial, TcpTransport.initial] at hcall
  arrived_le i j := Nat.zero_le _
  readers i j := rfl
  covers := Medium.Covers.empty.mono fun i _ j _ => (zero_tsub _).le

/-! ## Steps -/

section SetTransport

variable {t : TcpTransport} {i : Nat}

@[simp] theorem setTransport_arrived (j : Nat) : (setTransport s i t j).arrived = (s j).arrived := by
  by_cases hj : j = i
  · simp [setTransport, hj]
  · simp [setTransport, hj]

@[simp] theorem setTransport_readers (j : Nat) : (setTransport s i t j).readers = (s j).readers := by
  by_cases hj : j = i
  · simp [setTransport, hj]
  · simp [setTransport, hj]

@[simp] theorem setTransport_inboundQueue (j : Nat) :
    (setTransport s i t j).inboundQueue = (s j).inboundQueue := by
  by_cases hj : j = i
  · simp [setTransport, hj]
  · simp [setTransport, hj]

@[simp] theorem setTransport_self : (setTransport s i t i).transport = t := by
  simp [setTransport]

theorem setTransport_of_ne {j : Nat} (hj : j ≠ i) : setTransport s i t j = s j := by
  simp [setTransport, hj]

/-- What has been read of a stream stays when the stream grows. -/
theorem Held.take_stream (h : Held dump parse unset n s bag)
    (hstreams : ∀ j, (s i).transport.streams j <+: t.streams j) (a b : Nat) :
    ((setTransport s i t a).transport.streams b).take ((s b).arrived a)
      = ((s a).transport.streams b).take ((s b).arrived a) := by
  by_cases ha : a = i
  · subst ha
    obtain ⟨rest, hrest⟩ := hstreams b
    rw [setTransport_self, ← hrest, List.take_append_of_le_length (h.arrived_le a b)]
  · rw [setTransport_of_ne ha]

theorem Held.undelivered_eq (h : Held dump parse unset n s bag)
    (hstreams : ∀ j, (s i).transport.streams j <+: t.streams j) (a b : Nat) :
    undelivered parse unset (setTransport s i t) a b
      = (callsTo b (setTransport s i t a).transport.sends : Multiset PaxosMessage)
        - decodedFrom parse unset ((s a).transport.streams b) ((s b).arrived a) := by
  rw [undelivered, decodedFrom, setTransport_arrived, h.take_stream hstreams]
  rfl

/-- The calls at `i` change, and its streams grow. -/
theorem Held.setTransport (h : Held dump parse unset n s bag) {bag' : Multiset Packet}
    (hframed : Framed dump t) (hfits : ∀ call ∈ t.sends, Fits dump parse call.msg)
    (hstreams : ∀ j, (s i).transport.streams j <+: t.streams j)
    (hcovers : Medium.Covers n (undelivered parse unset (setTransport s i t))
      (fun j => (s j).inboundQueue) bag') :
    Held dump parse unset n (TcpNode.setTransport s i t) bag' := by
  refine ⟨fun a => ?_, fun a => ?_, fun a b => ?_, fun a b => ?_, by simpa using hcovers⟩
  · by_cases ha : a = i
    · subst ha
      rwa [setTransport_self]
    · rw [setTransport_of_ne ha]
      exact h.framed a
  · by_cases ha : a = i
    · subst ha
      rwa [setTransport_self]
    · rw [setTransport_of_ne ha]
      exact h.fits a
  · rw [setTransport_arrived]
    by_cases ha : a = i
    · subst ha
      rw [setTransport_self]
      exact (h.arrived_le a b).trans (hstreams b).length_le
    · rw [setTransport_of_ne ha]
      exact h.arrived_le a b
  · rw [setTransport_arrived, setTransport_readers, h.take_stream hstreams, h.readers]

end SetTransport

/-- A call of `send` at most adds itself to the calls. -/
theorem send_sends (dump : Json → List UInt8) (t : TcpTransport) (peer : Nat)
    (msg : PaxosMessage) :
    (t.send dump peer msg).streams = t.streams
      ∧ ((t.send dump peer msg).sends = t.sends
        ∨ (t.send dump peer msg).sends = t.sends ++ [{ peer, msg, body := dump msg.toJson }]) := by
  unfold TcpTransport.send
  split
  · exact ⟨rfl, .inl rfl⟩
  · split
    · exact ⟨rfl, .inl rfl⟩
    · exact ⟨rfl, .inr rfl⟩

theorem send_callsTo (dump : Json → List UInt8) (t : TcpTransport) (peer : Nat)
    (msg : PaxosMessage) :
    (callsTo peer (t.send dump peer msg).sends : Multiset PaxosMessage)
        ≤ msg ::ₘ (callsTo peer t.sends : Multiset PaxosMessage)
      ∧ ∀ b, b ≠ peer → callsTo b (t.send dump peer msg).sends = callsTo b t.sends := by
  rcases (send_sends dump t peer msg).2 with hsends | hsends
  · rw [hsends]
    exact ⟨Multiset.le_cons_self _ _, fun b _ => rfl⟩
  · rw [hsends]
    refine ⟨?_, fun b hb => ?_⟩
    · have hone : callsTo peer [{ peer, msg, body := dump msg.toJson }] = [msg] := by simp [callsTo]
      rw [callsTo_append, hone, Multiset.cons_coe, Multiset.coe_le]
      exact (List.perm_append_singleton msg _).subperm
    · rw [callsTo_append]
      simp [callsTo, Ne.symm hb]

theorem Held.send (h : Held dump parse unset n s bag) (i j : Nat) {msg : PaxosMessage}
    (hmsg : Fits dump parse msg) :
    Held dump parse unset n (TcpNode.send dump s i j msg) ((j, msg) ::ₘ bag) := by
  obtain ⟨hstreams, hsends⟩ := send_sends dump (s i).transport j msg
  obtain ⟨hself, hothers⟩ := send_callsTo dump (s i).transport j msg
  have hgrow : ∀ b, (s i).transport.streams b
      <+: ((s i).transport.send dump j msg).streams b := fun b => hstreams ▸ List.prefix_rfl
  refine h.setTransport ((h.framed i).send j msg) (fun call hcall => ?_) hgrow
    (h.covers.put (i := i) ?_ fun a b hab => ?_)
  · rcases hsends with hsends | hsends
    · exact h.fits i call (hsends ▸ hcall)
    · rw [hsends] at hcall
      rcases List.mem_append.mp hcall with hcall | hcall
      · exact h.fits i call hcall
      · obtain rfl := List.mem_singleton.mp hcall
        exact hmsg
  · rw [h.undelivered_eq hgrow, setTransport_self, undelivered, tsub_le_iff_right,
      Multiset.cons_add]
    exact hself.trans (Multiset.cons_le_cons msg le_tsub_add)
  · rw [h.undelivered_eq hgrow, undelivered]
    by_cases ha : a = i
    · subst ha
      rw [setTransport_self, hothers b fun hb => hab ⟨rfl, hb⟩]
    · rw [setTransport_of_ne ha]

/-- A byte of the connection from `i` to `j` is read. -/
structure Reads (s s' : Nat → TcpNode) (i j : Nat) (frame : ReadFrame)
    (new : List PaxosMessage) : Prop where
  transport : ∀ a, (s' a).transport = (s a).transport
  arrived : ∀ a c, (s' c).arrived a
    = if a = i ∧ c = j then (s j).arrived i + 1 else (s c).arrived a
  readers : ∀ a c, (s' c).readers a = if a = i ∧ c = j then frame else (s c).readers a
  queue : (s' j).inboundQueue = (s j).inboundQueue ++ new
  queues : ∀ c, c ≠ j → (s' c).inboundQueue = (s c).inboundQueue

theorem reads_read {i j : Nat} {b : UInt8} {frame : ReadFrame} {new : List PaxosMessage}
    (h : ReadLoop.arrive parse unset ⟨(s j).readers i, (s j).inboundQueue⟩ b
      = ⟨frame, (s j).inboundQueue ++ new⟩) :
    Reads s (Function.update s j ((s j).read parse unset i b)) i j frame new := by
  have hnode : (s j).read parse unset i b =
      { s j with
        readers := Function.update (s j).readers i frame
        arrived := Function.update (s j).arrived i ((s j).arrived i + 1)
        inboundQueue := (s j).inboundQueue ++ new } := by
    rw [TcpNode.read, h]
  refine ⟨fun a => ?_, fun a c => ?_, fun a c => ?_, by simp [hnode], fun c hc => by simp [hc]⟩
  · by_cases ha : a = j
    · subst ha
      simp [hnode]
    · simp [ha]
  all_goals
    by_cases hc : c = j
    · subst hc
      by_cases ha : a = i
      · subst ha
        simp [hnode]
      · simp [hnode, ha]
    · simp [hc]

theorem Held.arrive (h : Held dump parse unset n s bag) {i j : Nat} (hi : i < n) {b : UInt8}
    (hb : ((s i).transport.streams j)[(s j).arrived i]? = some b) :
    Held dump parse unset n (Function.update s j ((s j).read parse unset i b)) bag := by
  obtain ⟨new, hnew, hdecoded, hread⟩ := @read_next parse unset _ _ _ hb
  have hr := reads_read (i := i) (j := j) (h.readers i j ▸ hread (s j).inboundQueue)
  generalize Function.update s j ((s j).read parse unset i b) = s' at hr ⊢
  have hothers : ∀ a c, ¬(a = i ∧ c = j) →
      undelivered parse unset s' a c = undelivered parse unset s a c := by
    intro a c hac
    rw [undelivered, undelivered, hr.transport, hr.arrived, if_neg hac]
  refine ⟨fun a => hr.transport a ▸ h.framed a, fun a => hr.transport a ▸ h.fits a,
    fun a c => ?_, fun a c => ?_, ?_⟩
  · rw [hr.transport, hr.arrived]
    split
    · rename_i hac
      obtain ⟨rfl, rfl⟩ := hac
      exact (List.getElem?_eq_some_iff.mp hb).1
    · exact h.arrived_le a c
  · rw [hr.transport, hr.arrived, hr.readers]
    split
    · rename_i hac
      rw [hac.1, hac.2]
    · exact h.readers a c
  · have hlink : undelivered parse unset s' i j
        = (callsTo j (s i).transport.sends : Multiset PaxosMessage)
          - ((decodedFrom parse unset ((s i).transport.streams j) ((s j).arrived i) ++ new :
            List PaxosMessage) : Multiset PaxosMessage) := by
      rw [undelivered, hr.transport, hr.arrived, if_pos ⟨rfl, rfl⟩, hdecoded]
    obtain _ | ⟨x, _ | ⟨y, new⟩⟩ := new
    · have hqueues : (fun c => (s' c).inboundQueue) = fun c => (s c).inboundQueue := by
        funext c
        by_cases hc : c = j
        · rw [hc, hr.queue, List.append_nil]
        · exact hr.queues c hc
      rw [hqueues]
      refine h.covers.mono fun a _ c _ => ?_
      by_cases hac : a = i ∧ c = j
      · rw [hac.1, hac.2, hlink, List.append_nil]
        exact le_rfl
      · rw [hothers a c hac]
    · refine h.covers.arrive (i := i) (j := j) (x := x) hi ?_ (fun a c hac => (hothers a c hac).le)
        hr.queue hr.queues
      have hsub := decodedFrom_subperm unset ((h.framed i).part j) (h.fits i) ((s j).arrived i + 1)
      rw [hdecoded] at hsub
      rw [hlink, undelivered]
      refine le_tsub_of_add_le_right ?_
      rw [Multiset.cons_add, ← Multiset.add_cons, Multiset.cons_coe,
        Multiset.coe_eq_coe.mpr (List.perm_append_singleton x _).symm]
      exact (tsub_add_cancel_of_le (Multiset.coe_le.mpr hsub)).le
    · simp at hnew

theorem Held.step (h : Held dump parse unset n s bag) {e : TcpEvent} (hok : wholeFrames s e)
    (hstep : step dump parse unset n s e = some s') : Held dump parse unset n s' bag := by
  cases e with
  | transport i e =>
      have hsend : ∀ p msg, e ≠ .send p msg := by
        rintro p msg rfl
        cases hstep
      have hmap : ((s i).transport.step dump e).map (TcpNode.setTransport s i) = some s' := by
        cases e with
        | send p msg => exact absurd rfl (hsend p msg)
        | _ => exact hstep
      obtain ⟨t, ht, rfl⟩ := Option.map_eq_some_iff.mp hmap
      have hgrow := streams_step ht
      have hcalls := callsTo_step hsend ht
      refine h.setTransport ((h.framed i).step hok ht) ?_ hgrow (h.covers.mono fun a _ b _ => ?_)
      · intro call hcall
        have hmem : call.msg ∈ callsTo call.peer t.sends := by
          simp only [callsTo, List.mem_map, List.mem_filter, decide_eq_true_eq]
          exact ⟨call, ⟨hcall, rfl⟩, rfl⟩
        obtain ⟨old, hold, hsame⟩ := List.mem_map.mp ((hcalls call.peer).mem_iff.mp hmem)
        exact hsame ▸ h.fits i old (List.mem_of_mem_filter hold)
      · rw [h.undelivered_eq hgrow, undelivered]
        by_cases ha : a = i
        · subst ha
          rw [setTransport_self, Multiset.coe_eq_coe.mpr (hcalls b)]
        · rw [setTransport_of_ne ha]
  | arrive i j =>
      simp only [TcpNode.step] at hstep
      split at hstep
      · rename_i hlt
        obtain ⟨b, hb, rfl⟩ := Option.map_eq_some_iff.mp hstep
        exact h.arrive hlt.1 hb
      · cases hstep

theorem Held.receive (h : Held dump parse unset n s bag) {j : Nat} {msg : PaxosMessage}
    (hj : j < n) (hreceive : TcpNode.receive s j = some (msg, s')) :
    ∃ rest, bag = (j, msg) ::ₘ rest ∧ Held dump parse unset n s' rest := by
  unfold TcpNode.receive at hreceive
  split at hreceive
  · cases hreceive
  · rename_i msg' queue hqueue
    simp only [Option.some.injEq, Prod.mk.injEq] at hreceive
    obtain ⟨rfl, rfl⟩ := hreceive
    let s' := Function.update s j { s j with inboundQueue := queue }
    have hnode : ∀ a, (s' a).transport = (s a).transport ∧ (s' a).arrived = (s a).arrived
        ∧ (s' a).readers = (s a).readers := by
      intro a
      by_cases ha : a = j
      · subst ha
        simp [s']
      · simp [s', ha]
    obtain ⟨rest, hbag, hcovers⟩ := Medium.Covers.take (fun a => (s' a).inboundQueue) h.covers hj
      (x := msg') (by simp [hqueue, s']) (fun a ha => by simp [s', ha])
    have hsame : undelivered parse unset s' = undelivered parse unset s := by
      funext a b
      rw [undelivered, undelivered, (hnode a).1, (hnode b).2.1]
    refine ⟨rest, hbag, fun a => ?_, fun a => ?_, fun a b => ?_, fun a b => ?_, hsame ▸ hcovers⟩
    · rw [(hnode a).1]
      exact h.framed a
    · rw [(hnode a).1]
      exact h.fits a
    · rw [(hnode a).1, (hnode b).2.1]
      exact h.arrived_le a b
    · rw [(hnode a).1, (hnode b).2.1, (hnode b).2.2]
      exact h.readers a b

/-- **TCP connections are a lossy medium**, wherever they break, for messages
that fit the frames, as long as no call puts bytes between the two writes of
another to the same peer. -/
def lossy (dump : Json → List UInt8) (parse : List UInt8 → Except String Json) (unset : MsgType)
    (n : Nat) : (medium dump parse unset n).Lossy n wholeFrames (Fits dump parse) where
  holds := Held dump parse unset n
  start := initial_held
  send i j h hfits := h.send i j hfits
  step h hok hstep := h.step hok hstep
  receive hj h hreceive := h.receive hj hreceive

/-! ## The replicas on it -/

abbrev Tcp (dump : Json → List UInt8) (parse : List UInt8 → Except String Json) (unset : MsgType)
    (n : Nat) : Type :=
  Cluster (medium dump parse unset n)

/-- A run of the replicas on TCP connections that keeps its frames whole. -/
abbrev TcpRun (dump : Json → List UInt8) (parse : List UInt8 → Except String Json)
    (unset : MsgType) (n : Nat) (onApply : Nat → Bool) :
    List (Tcp dump parse unset n × ClusterEvent (medium dump parse unset n)) →
      Tcp dump parse unset n → Prop :=
  Runs.Run (Cluster.step n) (Cluster.withinMedium wholeFrames (Fits dump parse) n)
    (Cluster.initial (medium dump parse unset n) n onApply)

/-- **The replicas on TCP refine the group.** Wherever connections break, and
however the writes and reads of different calls alternate, the turns that the
replicas take are those of a run of `System`, where every message that waits to
be received is in flight. -/
theorem tcp_refines {onApply : Nat → Bool}
    {tr : List (Tcp dump parse unset n × ClusterEvent (medium dump parse unset n))}
    {g : Tcp dump parse unset n} (hrun : TcpRun dump parse unset n onApply tr g) :
    ∃ tr' t, Cluster.Refines n onApply tr g tr' t
      ∧ ∀ j < n, ∀ msg ∈ (g.medium j).inboundQueue, (j, msg) ∈ t.network := by
  obtain ⟨tr', t, hrefines, hm⟩ := Cluster.exists_refines (lossy dump parse unset n) hrun
  refine ⟨tr', t, hrefines, fun j hj msg hmsg => ?_⟩
  have hheld : Held dump parse unset n g.medium (t.network : Multiset Packet) := hm.holds
  have harriving : msg ∈ Medium.arriving n (undelivered parse unset g.medium)
      (fun j => (g.medium j).inboundQueue) j :=
    Multiset.mem_add.mpr (.inr (Multiset.mem_coe.mpr hmsg))
  have hbag := Multiset.mem_of_le (hheld.covers j hj) harriving
  simpa [Medium.portion] using hbag

instance decidableWholeFrames (s : Nat → TcpNode) : ∀ e, Decidable (wholeFrames s e)
  | .transport _ (.connected _) => isTrue trivial
  | .transport _ (.send _ _) => isTrue trivial
  | .transport i (.written k) => inferInstanceAs (Decidable
      (∀ call ∈ (s i).transport.sends[k]?, call.frame = .length →
        midway call.peer (s i).transport.sends = []))
  | .transport i (.failed k sent) => inferInstanceAs (Decidable
      (∀ call ∈ (s i).transport.sends[k]?, call.frame = .length →
        sent = 0 ∨ midway call.peer (s i).transport.sends = []))
  | .arrive _ _ => isTrue trivial

/-- The PROPOSE of the first value, and the ACK for it. -/
def firstPropose : PaxosMessage :=
  { type := .propose, sender := 0, values := [⟨10, "", 7, .swarmResume { serial := 7 }⟩] }

def firstAck : PaxosMessage :=
  { type := .ack, sender := 1, ackSlot := 1 }

/-- A parser for the texts of these two. -/
def parseFirst (bytes : List UInt8) : Except String Json :=
  if bytes = plainText firstPropose.toJson then .ok firstPropose.toJson.reparsed
  else parseOnly firstAck bytes

theorem firstPropose_fits : Fits plainText parseFirst firstPropose where
  text := { plainText_jsonText firstPropose with parse_dump := if_pos rfl }
  inRange := by simp [firstPropose, PaxosMessage.InRange, DecidedValue.InRange, Request.InRange]
  length_le := by decide +kernel

theorem firstAck_fits : Fits plainText parseFirst firstAck where
  text := { plainText_jsonText firstAck with
    parse_dump := (if_neg (by decide +kernel)).trans (if_pos rfl) }
  inRange := by simp [firstAck, PaxosMessage.InRange]
  length_le := by decide +kernel

/-- Replica 1 reads and accepts the first value, and the connection breaks
within the frame of its ACK. -/
def ackBreaksOff : List (ClusterEvent (medium plainText parseFirst .ack 2)) :=
  [.medium (.transport 0 (.connected 1)), .medium (.transport 1 (.connected 0)),
   .propose 0 (.swarmResume { serial := 7 }) 10, .medium (.transport 0 (.written 0)),
   .medium (.transport 0 (.written 0))]
  ++ List.replicate 228 (.medium (.arrive 0 1))
  ++ [.receive 1 5, .medium (.transport 1 (.written 0)), .medium (.transport 1 (.failed 0 3)),
   .medium (.arrive 1 0), .resumeRun 1, .resumeCall 0 0, .timeout 0 105]

/-- Frames stay whole, and only the two messages are sent. -/
def sendsFirst (g : Tcp plainText parseFirst .ack 2)
    (e : ClusterEvent (medium plainText parseFirst .ack 2)) : Bool :=
  (match e with
    | .medium e => @decide _ (decidableWholeFrames g.medium e)
    | _ => true)
  && (g.sent 2 e).all fun packet => packet.2 == firstPropose || packet.2 == firstAck

theorem sendsFirst_within {g : Tcp plainText parseFirst .ack 2}
    {e : ClusterEvent (medium plainText parseFirst .ack 2)} (h : sendsFirst g e = true) :
    g.withinMedium wholeFrames (Fits plainText parseFirst) 2 e := by
  obtain ⟨hmedium, hsent⟩ := (Bool.and_eq_true _ _).mp h
  refine ⟨fun e' he => ?_, fun p hp => ?_⟩
  · subst he
    exact @of_decide_eq_true _ (decidableWholeFrames _ _) hmedium
  · rcases (Bool.or_eq_true _ _).mp (List.all_eq_true.mp hsent p hp) with hp | hp
    · rw [beq_iff_eq.mp hp]
      exact firstPropose_fits
    · rw [beq_iff_eq.mp hp]
      exact firstAck_fits

def tcpStart : Tcp plainText parseFirst .ack 2 :=
  Cluster.initial (medium plainText parseFirst .ack 2) 2 fun _ => false

theorem exec_ackBreaksOff : (Runs.exec (Cluster.step 2) tcpStart ackBreaksOff).isSome := by
  decide +kernel

theorem sendsFirst_ackBreaksOff :
    (Runs.trace (Cluster.step 2) tcpStart ackBreaksOff).all (fun p => sendsFirst p.1 p.2) := by
  decide +kernel

theorem tcp_refines_ackBreaksOff :
    let g := (Runs.exec (Cluster.step 2) tcpStart ackBreaksOff).get exec_ackBreaksOff
    ∃ tr' t, Cluster.Refines 2 (fun _ => false)
        (Runs.trace (Cluster.step 2) tcpStart ackBreaksOff) g tr' t
      ∧ ∀ j < 2, ∀ msg ∈ (g.medium j).inboundQueue, (j, msg) ∈ t.network :=
  tcp_refines (Runs.run_of_exec ackBreaksOff exec_ackBreaksOff fun p hp =>
    sendsFirst_within (List.all_eq_true.mp sendsFirst_ackBreaksOff p hp))

end TcpNode

end Tmgr
