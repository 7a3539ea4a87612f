import Tmgr.Delivery

/-!
# Streams that break off

A write may fail with any number of its bytes on the connection; the call then
closes the descriptor, and nothing follows. `frames_whole` assumes that no write
fails. Here they may: while the descriptor is open the stream is made of whole
frames, as before, and whenever it breaks off, it is the beginning of a stream
of whole frames (`Framed`). A call may not put bytes between the two writes of
another to the same peer, not even by failing.
-/

namespace Tmgr

namespace TcpTransport

variable {dump : Json → List UInt8} {t t' : TcpTransport} {peer : Nat}

/-! ## The calls to a peer -/

/-- The messages of all calls to a peer, returned or not. -/
def callsTo (peer : Nat) (calls : List SendCall) : List PaxosMessage :=
  (calls.filter (·.peer = peer)).map (·.msg)

theorem callsTo_perm {calls calls' : List SendCall} (h : calls.Perm calls') :
    (callsTo peer calls).Perm (callsTo peer calls') :=
  (h.filter _).map _

theorem callsTo_append (calls calls' : List SendCall) :
    callsTo peer (calls ++ calls') = callsTo peer calls ++ callsTo peer calls' := by
  simp [callsTo]

/-- Where a call stands does not matter. -/
theorem callsTo_setFrame {k : Nat} {call : SendCall} (hcall : t.sends[k]? = some call)
    (frame : SendFrame) :
    (callsTo peer (t.setFrame k call frame).sends).Perm (callsTo peer t.sends) := by
  obtain ⟨rest, hrest, hset⟩ := exists_rest hcall
  refine (callsTo_perm (hset _)).trans (.trans ?_ (callsTo_perm hrest).symm)
  by_cases hp : call.peer = peer
  · simp [callsTo, hp]
  · simp [callsTo, hp]

/-- The frames of these messages, one after another. -/
def framesOf (dump : Json → List UInt8) (msgs : List PaxosMessage) : List UInt8 :=
  ((bodiesOf dump msgs).map frameFormat.frame).flatten

theorem framesOf_append (msgs msgs' : List PaxosMessage) :
    framesOf dump (msgs ++ msgs') = framesOf dump msgs ++ framesOf dump msgs' := by
  simp [framesOf, bodiesOf]

/-- The stream to a peer is the beginning of the frames of messages sent. -/
def LinkPart (dump : Json → List UInt8) (t : TcpTransport) (peer : Nat) : Prop :=
  ∃ order : List PaxosMessage, order.Subperm (callsTo peer t.sends)
    ∧ t.streams peer <+: framesOf dump order

/-- While its descriptor is open, a stream is made of whole frames. -/
structure Framed (dump : Json → List UInt8) (t : TcpTransport) : Prop where
  bodies : ∀ call ∈ t.sends, call.body = dump call.msg.toJson
  opened : ∀ peer, t.outboundFds peer ≠ .closed → LinkWhole dump t peer
  part : ∀ peer, LinkPart dump t peer

/-- What the calls may do to a connection: none puts its length between the
two writes of another, not even a part of it. -/
def wholeFrames (t : TcpTransport) : TransportEvent → Prop
  | .connected _ => True
  | .send _ _ => True
  | .written k => ∀ call ∈ t.sends[k]?, call.frame = .length → midway call.peer t.sends = []
  | .failed k sent => ∀ call ∈ t.sends[k]?, call.frame = .length →
      sent = 0 ∨ midway call.peer t.sends = []

theorem LinkPart.congr (h : LinkPart dump t peer)
    (hcalls : (callsTo peer t.sends).Subperm (callsTo peer t'.sends))
    (hstream : t'.streams peer = t.streams peer) : LinkPart dump t' peer := by
  obtain ⟨order, hsub, hpart⟩ := h
  exact ⟨order, hsub.trans hcalls, hstream ▸ hpart⟩

/-- The messages of the calls that have returned, and one that has not. -/
theorem sentTo_concat_subperm {calls : List SendCall} {call : SendCall} (hcall : call ∈ calls)
    (hframe : call.frame ≠ .returned) :
    (sentTo call.peer calls ++ [call.msg]).Subperm (callsTo call.peer calls) := by
  let mine := calls.filter (·.peer = call.peer)
  have hsent : sentTo call.peer calls = (mine.filter (·.frame = .returned)).map (·.msg) := by
    simp only [sentTo, mine, List.filter_filter]
    congr 1
    exact List.filter_congr fun c _ => by rw [Bool.decide_and, Bool.and_comm]
  have hmem : call ∈ mine.filter fun c => !decide (c.frame = .returned) := by
    simp [mine, hcall, hframe]
  have hparts := (List.filter_append_perm (fun c : SendCall => decide (c.frame = .returned)) mine)
  have hone : [call].Subperm (mine.filter fun c => !decide (c.frame = .returned)) :=
    List.singleton_subperm_iff.mpr hmem
  have hall := ((List.subperm_append_left _).mpr hone).trans hparts.subperm
  rw [hsent, ← List.map_singleton (f := fun c : SendCall => c.msg), ← List.map_append]
  exact Multiset.coe_le.mp (Multiset.map_le_map (Multiset.coe_le.mpr hall))

/-- Bytes that a call adds to a stream of whole frames are the beginning of
its frame. -/
theorem LinkWhole.part {k : Nat} {call : SendCall} (h : LinkWhole dump t call.peer)
    (hbodies : ∀ call ∈ t.sends, call.body = dump call.msg.toJson)
    (hcall : t.sends[k]? = some call) (hframe : call.frame ≠ .returned) (sent : Nat)
    (hok : call.frame = .length → sent = 0 ∨ midway call.peer t.sends = []) :
    ∃ order : List PaxosMessage, order.Subperm (callsTo call.peer t.sends)
      ∧ t.streams call.peer ++ call.bytes.take sent <+: framesOf dump order := by
  have hmem := List.mem_of_getElem? hcall
  obtain ⟨order, hperm, hwhole⟩ := h
  -- the stream breaks off in the frame of `c`
  have hlast : ∀ c ∈ t.sends, c.peer = call.peer → c.frame ≠ .returned → ∀ bytes,
      bytes <+: frameFormat.frame c.body → ∃ order' : List PaxosMessage,
        order'.Subperm (callsTo call.peer t.sends)
          ∧ framesOf dump order ++ bytes <+: framesOf dump order' := by
    intro c hc hpeer hopen bytes hbytes
    refine ⟨order ++ [c.msg], ?_, ?_⟩
    · rw [← hpeer] at hperm ⊢
      exact (hperm.append_right _).subperm.trans (sentTo_concat_subperm hc hopen)
    · rw [framesOf_append, List.prefix_append_right_inj]
      simpa [framesOf, bodiesOf, ← hbodies c hc] using hbytes
  cases hwhole with
  | whole hmid hstream =>
      have hlength : call.frame = .length := by
        cases hf : call.frame with
        | length => rfl
        | body =>
            have : call ∈ midway call.peer t.sends := by simp [midway, hmem, hf]
            simp [hmid] at this
        | returned => exact absurd hf hframe
      rw [hstream]
      refine hlast call hmem rfl hframe _ ((List.take_prefix _ _).trans ?_)
      rw [SendCall.bytes, hlength]
      exact List.prefix_append _ _
  | between c hmid hstream =>
      obtain ⟨hc, hpeer, hbody⟩ : c ∈ t.sends ∧ c.peer = call.peer ∧ c.frame = .body := by
        have : c ∈ midway call.peer t.sends := by simp [hmid]
        simpa [midway] using this
      rw [hstream, List.append_assoc]
      refine hlast c hc hpeer (by simp [hbody]) _ ?_
      refine List.prefix_append_right_inj _ |>.mpr ?_
      cases hf : call.frame with
      | length =>
          obtain rfl : sent = 0 := (hok hf).resolve_right (by simp [hmid])
          simp
      | body =>
          have : call ∈ midway call.peer t.sends := by simp [midway, hmem, hf]
          obtain rfl : call = c := by simpa [hmid] using this
          rw [SendCall.bytes, hf]
          exact List.take_prefix _ _
      | returned => exact absurd hf hframe

/-! ## Steps -/

theorem failed_streams (k sent : Nat) (call : SendCall) (p : Nat) :
    (t.failed k sent call).streams p =
      if p = call.peer then t.streams p ++ call.bytes.take sent else t.streams p := by
  by_cases hp : p = call.peer
  · subst hp
    simp [failed, put, close, setFrame]
  · simp [failed, put, close, setFrame, hp]

theorem failed_outboundFds (k sent : Nat) (call : SendCall) (p : Nat) :
    (t.failed k sent call).outboundFds p =
      if p = call.peer then .closed else t.outboundFds p := by
  by_cases hp : p = call.peer
  · subst hp
    simp [failed, put, close, setFrame]
  · simp [failed, put, close, setFrame, hp]

theorem setFrame_bodies (h : ∀ call ∈ t.sends, call.body = dump call.msg.toJson) {k : Nat}
    {call : SendCall} (hcall : t.sends[k]? = some call) (frame : SendFrame) :
    ∀ c ∈ t.sends.set k { call with frame }, c.body = dump c.msg.toJson := by
  intro c hc
  rcases List.mem_or_eq_of_mem_set hc with hc | rfl
  · exact h c hc
  · exact h call (List.mem_of_getElem? hcall)

theorem Framed.send (h : Framed dump t) (peer : Nat) (msg : PaxosMessage) :
    Framed dump (t.send dump peer msg) := by
  unfold TcpTransport.send
  split
  · exact h
  split
  · exact h
  refine ⟨?_, fun p hp => ?_, fun p => ?_⟩
  · intro call hcall
    rcases List.mem_append.mp hcall with hcall | hcall
    · exact h.bodies call hcall
    · obtain rfl := List.mem_singleton.mp hcall
      rfl
  · refine LinkWhole.transfer (h.opened p hp) ?_ ?_ rfl
    · simp [sentTo]
    · simp [midway]
  · refine (h.part p).congr ?_ rfl
    rw [callsTo_append]
    exact (List.sublist_append_left _ _).subperm

theorem Framed.written (h : Framed dump t) {k : Nat} {call : SendCall}
    (hcall : t.sends[k]? = some call) (hframe : call.frame ≠ .returned)
    (hvalid : t.outboundFds call.peer = .valid)
    (hok : call.frame = .length → midway call.peer t.sends = []) :
    Framed dump (t.written k call) := by
  have hmem := List.mem_of_getElem? hcall
  refine ⟨setFrame_bodies h.bodies hcall _, fun p hp => ?_, fun p => ?_⟩
  · exact written_link (h.opened p hp) (h.bodies call hmem) hcall hframe hok
  · have hcalls : (callsTo p t.sends).Subperm (callsTo p (t.written k call).sends) :=
      (callsTo_setFrame hcall _).symm.subperm
    by_cases hp : p = call.peer
    · subst hp
      have hopen := h.opened call.peer (by simp [hvalid])
      obtain ⟨order, hsub, hpart⟩ := LinkWhole.part hopen h.bodies hcall hframe
        call.bytes.length fun hf => .inr (hok hf)
      refine ⟨order, hsub.trans hcalls, ?_⟩
      rwa [written_streams, if_pos rfl, ← List.take_length (l := call.bytes)]
    · exact (h.part p).congr hcalls (by rw [written_streams, if_neg hp])

theorem Framed.failed (h : Framed dump t) {k sent : Nat} {call : SendCall}
    (hcall : t.sends[k]? = some call) (hframe : call.frame ≠ .returned)
    (hsent : t.outboundFds call.peer = .valid ∨ sent = 0)
    (hok : call.frame = .length → sent = 0 ∨ midway call.peer t.sends = []) :
    Framed dump (t.failed k sent call) := by
  refine ⟨setFrame_bodies h.bodies hcall _, fun p hp => ?_, fun p => ?_⟩
  · rw [failed_outboundFds] at hp
    split at hp
    · exact absurd rfl hp
    · rename_i hpeer
      exact set_other_link (h.opened p hp) hcall hpeer _ rfl
        (by rw [failed_streams, if_neg hpeer])
  · have hcalls : (callsTo p t.sends).Subperm (callsTo p (t.failed k sent call).sends) :=
      (callsTo_setFrame hcall _).symm.subperm
    by_cases hp : p = call.peer
    · subst hp
      rcases hsent with hvalid | rfl
      · have hopen := h.opened call.peer (by simp [hvalid])
        obtain ⟨order, hsub, hpart⟩ := LinkWhole.part hopen h.bodies hcall hframe sent hok
        exact ⟨order, hsub.trans hcalls, by rwa [failed_streams, if_pos rfl]⟩
      · exact (h.part call.peer).congr hcalls (by simp [failed_streams])
    · exact (h.part p).congr hcalls (by rw [failed_streams, if_neg hp])

/-- What a step of a transport is. -/
theorem step_cases {e : TransportEvent} (h : t.step dump e = some t') :
    (∃ peer, e = .connected peer ∧ t.outboundFds peer = .connecting
      ∧ t' = { t with outboundFds := Function.update t.outboundFds peer .valid })
    ∨ (∃ peer msg, e = .send peer msg ∧ t' = t.send dump peer msg)
    ∨ ∃ k call, t.sends[k]? = some call ∧ call.frame ≠ .returned
      ∧ ((e = .written k ∧ t.outboundFds call.peer = .valid ∧ t' = t.written k call)
        ∨ ∃ sent sent', e = .failed k sent
          ∧ (t.outboundFds call.peer = .valid ∧ sent' = sent ∨ sent' = 0)
          ∧ t' = t.failed k sent' call) := by
  cases e with
  | connected peer =>
      simp only [step] at h
      split at h
      · rename_i hconn
        exact .inl ⟨peer, rfl, hconn.2.2, (Option.some.inj h).symm⟩
      · cases h
  | send peer msg => exact .inr (.inl ⟨peer, msg, rfl, (Option.some.inj h).symm⟩)
  | written k =>
      simp only [step] at h
      split at h
      · rename_i call hcall
        split at h
        · rename_i hready
          exact .inr (.inr ⟨k, call, hcall, hready.1,
            .inl ⟨rfl, hready.2, (Option.some.inj h).symm⟩⟩)
        · cases h
      · cases h
  | failed k sent =>
      simp only [step] at h
      split at h
      · rename_i call hcall
        split at h
        · cases h
        · rename_i hframe
          refine .inr (.inr ⟨k, call, hcall, hframe, .inr ⟨sent, ?_⟩⟩)
          split at h
          · rename_i hvalid
            exact ⟨sent, rfl, .inl ⟨hvalid, rfl⟩, (Option.some.inj h).symm⟩
          · exact ⟨0, rfl, .inr rfl, (Option.some.inj h).symm⟩
      · cases h

theorem Framed.step (h : Framed dump t) {e : TransportEvent} (hok : t.wholeFrames e)
    (hstep : t.step dump e = some t') : Framed dump t' := by
  rcases step_cases hstep with ⟨peer, -, hconn, rfl⟩ | ⟨peer, msg, -, rfl⟩ | ⟨k, call, hcall,
    hframe, ⟨rfl, hvalid, rfl⟩ | ⟨sent, sent', rfl, hsent, rfl⟩⟩
  · refine ⟨h.bodies, fun p hp => h.opened p fun hclosed => hp ?_, h.part⟩
    by_cases hpeer : p = peer
    · rw [hpeer, hconn] at hclosed
      cases hclosed
    · simpa [hpeer] using hclosed
  · exact h.send peer msg
  · exact h.written hcall hframe hvalid (hok call hcall)
  · rcases hsent with ⟨hvalid, rfl⟩ | rfl
    · exact h.failed hcall hframe (.inl hvalid) (hok call hcall)
    · exact h.failed hcall hframe (.inr rfl) fun _ => .inl rfl

theorem initial_framed (myIndex npeers : Nat) : Framed dump (initial myIndex npeers) where
  bodies := by simp [initial]
  opened _ _ := ⟨[], .refl _, .whole rfl rfl⟩
  part _ := ⟨[], List.nil_subperm, List.prefix_rfl⟩

/-- A stream only grows. -/
theorem streams_step {e : TransportEvent} (hstep : t.step dump e = some t') (p : Nat) :
    t.streams p <+: t'.streams p := by
  rcases step_cases hstep with ⟨peer, -, -, rfl⟩ | ⟨peer, msg, -, rfl⟩ | ⟨k, call, -, -,
    ⟨-, -, rfl⟩ | ⟨sent, sent', -, -, rfl⟩⟩
  · exact List.prefix_rfl
  · unfold TcpTransport.send
    split
    · exact List.prefix_rfl
    · split <;> exact List.prefix_rfl
  · rw [written_streams]
    split
    · exact List.prefix_append _ _
    · exact List.prefix_rfl
  · rw [failed_streams]
    split
    · exact List.prefix_append _ _
    · exact List.prefix_rfl

/-- Only `send` adds a message to those given to `send`. -/
theorem callsTo_step {e : TransportEvent} (hsend : ∀ p msg, e ≠ .send p msg)
    (hstep : t.step dump e = some t') (p : Nat) :
    (callsTo p t'.sends).Perm (callsTo p t.sends) := by
  rcases step_cases hstep with ⟨peer, -, -, rfl⟩ | ⟨peer, msg, rfl, -⟩ | ⟨k, call, hcall, -,
    ⟨-, -, rfl⟩ | ⟨sent, sent', -, -, rfl⟩⟩
  · exact .refl _
  · exact absurd rfl (hsend peer msg)
  · exact callsTo_setFrame hcall _
  · exact callsTo_setFrame hcall _

end TcpTransport

end Tmgr
