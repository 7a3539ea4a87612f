import Tmgr.Answers
import Tmgr.Netsim
import Tmgr.Reach
import Tmgr.Watermark

/-!
# A replica that hears nothing

The tests kill a replica by losing all messages from it and to it. A killed
leader goes on as the leader: it appends requests to its log, and nobody tells
it better. What it can still apply is what it had heard of before, its `reach`:
`try_decide` counts acknowledgements, a majority of two or more needs one of
another replica, and its own is the only one that grows. So a call that is made
on it is never answered, until its links are restored.
-/

namespace Tmgr

namespace PtPaxosReplica

/-- Whether a message is handed to `run()`. -/
def LocalEvent.hears : LocalEvent → Bool
  | .receive _ _ => true
  | _ => false

theorem LocalEvent.hears_iff {ev : LocalEvent} :
    ev.hears = true ↔ ∃ msg now, ev = .receive msg now := by
  cases ev <;> simp [hears]

variable {n i : Nat} {r r' r'' : PtPaxosReplica}

/-! ## What can still be applied -/

/-- How far replica `i` can apply on what it has heard, whatever it acknowledges
itself. -/
def reach (n i : Nat) (r : PtPaxosReplica) : Nat :=
  max (max r.appliedSlot r.decidedSlot) (Rank.rank (r.followerAckSlot.eraseIdx i) (quorum n - 1))

theorem appliedSlot_le_reach (n i : Nat) (r : PtPaxosReplica) : r.appliedSlot ≤ r.reach n i :=
  (le_max_left _ _).trans (le_max_left _ _)

/-- Applying does not go further. -/
theorem reach_applyDecided (hn : 2 ≤ n) (hi : i < n) (hlen : r.followerAckSlot.length = n) :
    (r.applyDecided n i).reach n i ≤ r.reach n i := by
  have hquorum : 2 ≤ quorum n := by
    unfold quorum
    omega
  have hrank := Rank.rank_le_eraseIdx (hlen.symm ▸ hi) hquorum (hlen.symm ▸ quorum_le hi)
  have hdecided : (r.applyDecided n i).decidedSlot
      = max r.decidedSlot (Rank.rank r.followerAckSlot (quorum n)) := applyDecided_decidedSlot n i r
  have happlied := applyDecided_appliedSlot_le n i r
  simp only [reach, applyDecided_followerAckSlot, hdecided]
  simp only [tryDecide] at happlied
  omega

/-! ## A turn without a message -/

/-- A turn that changes nothing that a deaf replica goes by. -/
structure NothingNew (n i : Nat) (r r' : PtPaxosReplica) : Prop where
  leader : r'.leaderIndex = r.leaderIndex
  next : r'.nextSlot = r.nextSlot
  reach : r'.reach n i ≤ r.reach n i

theorem NothingNew.refl (n i : Nat) (r : PtPaxosReplica) : NothingNew n i r r := ⟨rfl, rfl, le_rfl⟩

theorem NothingNew.applyDecided (hn : 2 ≤ n) (hi : i < n) (hlen : r.followerAckSlot.length = n) :
    NothingNew n i r (r.applyDecided n i) :=
  ⟨applyDecided_leaderIndex n i r, applyDecided_nextSlot n i r, reach_applyDecided hn hi hlen⟩

theorem NothingNew.runSendPropose (hn : 2 ≤ n) (hi : i < n) (hlen : r.followerAckSlot.length = n)
    (k : Nat) : NothingNew n i r (r.runSendPropose n i k).1 :=
  runSendPropose_induct (P := NothingNew n i r) (.refl n i r) (fun _ => .applyDecided hn hi hlen)
    (fun _ _ h => ⟨h.leader, h.next, h.reach⟩) k

theorem NothingNew.callSendPropose (hn : 2 ≤ n) (hi : i < n) (hlen : r.followerAckSlot.length = n)
    (c k : Nat) : NothingNew n i r (r.callSendPropose n i c k).1 :=
  callSendPropose_induct (P := NothingNew n i r) (.refl n i r) (fun _ => .applyDecided hn hi hlen)
    (fun _ _ _ h => ⟨h.leader, h.next, h.reach⟩) c k

/-- A candidate that nobody answers stays one. -/
theorem NothingNew.runProbe (hn : 2 ≤ n) (hnil : r.prepareResponses = []) (k : Nat) :
    NothingNew n i r (r.runProbe n i k).1 := by
  cases hnext : nextPeer n i k with
  | none =>
      rw [runProbe_last hn hnil hnext]
      exact ⟨rfl, rfl, le_rfl⟩
  | some j =>
      rw [runProbe_next r hnext]
      exact ⟨rfl, rfl, le_rfl⟩

/-- What comes of a replica that hears nothing. -/
structure Deaf (n i : Nat) (r r' : PtPaxosReplica) : Prop where
  leader : r'.leaderIndex = r.leaderIndex
  next : r.nextSlot ≤ r'.nextSlot
  reach : r'.reach n i ≤ r.reach n i
  /-- the calls made since then are on slots of their own -/
  later : ∃ new, r'.keys = r.keys ++ new ∧ ∀ k ∈ new, i = r.leaderIndex ∧ r.nextSlot ≤ k.1

theorem Deaf.refl (n i : Nat) (r : PtPaxosReplica) : Deaf n i r r :=
  ⟨rfl, le_rfl, le_rfl, [], by simp⟩

theorem Deaf.trans (h : Deaf n i r r') (h' : Deaf n i r' r'') : Deaf n i r r'' := by
  refine ⟨h'.leader.trans h.leader, h.next.trans h'.next, h'.reach.trans h.reach, ?_⟩
  obtain ⟨new, hkeys, hnew⟩ := h.later
  obtain ⟨new', hkeys', hnew'⟩ := h'.later
  refine ⟨new ++ new', by rw [hkeys', hkeys, List.append_assoc], fun k hk => ?_⟩
  rcases List.mem_append.mp hk with hk | hk
  · exact hnew k hk
  · obtain ⟨hl, hle⟩ := hnew' k hk
    exact ⟨hl.trans h.leader, h.next.trans hle⟩

theorem NothingNew.deaf (h : NothingNew n i r r') (hkeys : r'.keys = r.keys) : Deaf n i r r' :=
  ⟨h.leader, h.next.ge, h.reach, [], by simp [hkeys]⟩

/-- Only the request of a leader makes a difference, and it adds a slot. -/
theorem Turn.deaf {ev : LocalEvent} {x : PtPaxosReplica × List Packet} (ht : Turn n i r ev x)
    (hn : 2 ≤ n) (hi : i < n) (hwf : Wf n i r) (hears : ev.hears = false) : Deaf n i r x.1 := by
  have hlen := hwf.acks_length
  have hkeys := ht.keys
  by_cases hcall : ∃ req nowUnix, ev = .propose req nowUnix ∧ i = r.leaderIndex
  · obtain ⟨req, nowUnix, rfl, hl⟩ := hcall
    cases ht with
    | refuse hne => exact absurd hl hne
    | append =>
        have hset : (r.appendCall i nowUnix req).followerAckSlot.eraseIdx i
            = r.followerAckSlot.eraseIdx i := List.eraseIdx_set_eq
        have hnew := NothingNew.callSendPropose (r := r.appendCall i nowUnix req) hn hi
          (by simp [appendCall, hlen]) r.calls.length 0
        refine ⟨hnew.leader, (Nat.le_succ _).trans hnew.next.ge, hnew.reach.trans ?_, ?_⟩
        · rw [reach, hset]
          exact le_rfl
        · refine ⟨[(r.nextSlot, ⟨nowUnix, req.base.agentId, req.base.serial, req⟩)], ?_, ?_⟩
          · rw [callSendPropose_keys]
            simp [PtPaxosReplica.keys, appendCall]
          · simp [hl]
  · have hsame : x.1.keys = r.keys := by
      rcases hkeys with heq | ⟨req, nowUnix, hev, hl, -⟩
      · exact heq
      · exact absurd ⟨req, nowUnix, hev, hl⟩ hcall
    refine NothingNew.deaf ?_ hsame
    cases ht with
    | quiet => exact .refl n i r
    | retransmit => exact .runSendPropose hn hi hlen 0
    | start =>
        have hprobe := NothingNew.runProbe (r := r.pickRound n i) (i := i) hn rfl 0
        exact ⟨hprobe.leader, hprobe.next, hprobe.reach⟩
    | refuse => exact ⟨rfl, rfl, le_rfl⟩
    | @append req nowUnix hl => exact absurd ⟨req, nowUnix, rfl, hl⟩ hcall
    | replied => exact ⟨rfl, rfl, le_rfl⟩
    | probing hframe => exact .runProbe hn (hwf.probing hframe).2.2.2 _
    | proposing => exact .runSendPropose hn hi hlen _
    | sending => exact .callSendPropose hn hi hlen _ _
    | finish =>
        exact finishCall_induct (P := NothingNew n i r) (.refl n i r)
          (fun _ _ => ⟨rfl, rfl, le_rfl⟩) _
    | _ => cases hears

theorem runSendPropose_others {k : Nat} : ∀ p ∈ (r.runSendPropose n i k).2, p.1 ≠ i := by
  intro p hp
  unfold runSendPropose at hp
  split at hp
  · rename_i j hnext
    obtain rfl := List.mem_singleton.mp hp
    exact (nextPeer_eq_some hnext).2.1
  · cases hp

theorem callSendPropose_others {c k : Nat} : ∀ p ∈ (r.callSendPropose n i c k).2, p.1 ≠ i := by
  intro p hp
  unfold callSendPropose at hp
  split at hp
  · rename_i j hnext
    obtain rfl := List.mem_singleton.mp hp
    exact (nextPeer_eq_some hnext).2.1
  · cases hp

theorem runProbe_others (hn : 2 ≤ n) (hnil : r.prepareResponses = []) {k : Nat} :
    ∀ p ∈ (r.runProbe n i k).2, p.1 ≠ i := by
  intro p hp
  cases hnext : nextPeer n i k with
  | none => simp [runProbe_last hn hnil hnext] at hp
  | some j =>
      rw [runProbe_next r hnext] at hp
      obtain rfl := List.mem_singleton.mp hp
      exact (nextPeer_eq_some hnext).2.1

/-- On its own a replica sends to the others only. -/
theorem Turn.sends_others {ev : LocalEvent} {x : PtPaxosReplica × List Packet}
    (ht : Turn n i r ev x) (hn : 2 ≤ n) (hwf : Wf n i r) (hears : ev.hears = false) :
    ∀ p ∈ x.2, p.1 ≠ i := by
  cases ht with
  | retransmit => exact runSendPropose_others
  | start => exact runProbe_others (r := r.pickRound n i) hn rfl
  | append => exact callSendPropose_others
  | probing hframe => exact runProbe_others hn (hwf.probing hframe).2.2.2
  | proposing => exact runSendPropose_others
  | sending => exact callSendPropose_others
  | quiet => simp
  | refuse => simp
  | replied => simp
  | finish => simp
  | _ => cases hears

end PtPaxosReplica

/-! ## Runs of the group -/

namespace System

open PtPaxosReplica

variable {n : Nat} {onApply : Nat → Bool} {tr : List (System × Event)} {s : System}

/-- A leader has no acknowledgement of a slot that it has not used. -/
theorem reach_le_nextSlot (hrun : PaxosRun n onApply (fun s e => s.leaderSends n e) tr s)
    (hn : 2 ≤ n) {i : Nat} (hi : i < n) (hl : i = (s.replicas i).leaderIndex) :
    (s.replicas i).reach n i ≤ (s.replicas i).nextSlot := by
  obtain ⟨h, hinv, -⟩ := run_inv hrun
  have hwf := hinv.votes.1.1 i hi
  have hf := (hinv.replicas i hi).follows
  have hleads := (hinv.replicas i hi).leads hl
  have hlen := hwf.acks_length
  have herase := List.length_eraseIdx_of_lt (hlen.symm ▸ hi)
  have hmem := Rank.rank_mem (l := (s.replicas i).followerAckSlot.eraseIdx i) (q := quorum n - 1)
    (by unfold quorum; omega) (by unfold quorum; omega)
  obtain ⟨j, -, hj⟩ := List.mem_eraseIdx_iff_getElem?.mp hmem
  have hreached := hleads.reached j (hlen ▸ (List.getElem?_eq_some_iff.mp hj).1)
  rw [List.getD_eq_getElem?_getD, hj, Option.getD_some] at hreached
  have hack := hreached.le_length hinv.valid (majorities_members hi) (hf.opened hinv.valid)
  rw [hleads.log_length] at hack
  have happlied := hf.applied_le
  have hdecided := hf.decided_le
  rw [hwf.next hl, reach]
  omega

end System

/-! ## Killed replicas -/

namespace Netsim

/-- `kill_replica`; `restore_replica` sets the losses to another value. -/
def killReplica (n r : Nat) : List NetsimEvent :=
  ((List.range n).filter (· ≠ r)).flatMap fun i => [.setLoss r i 1, .setLoss i r 1]

/-- A link to replica `i` passes something again. -/
def mends (i : Nat) : NetsimEvent → Bool
  | .setLoss _ j loss => j = i ∧ loss < 1
  | _ => false

/-- The links to replica `i` lose all messages. -/
def CutOff {α : Type} (n i : Nat) (s : Netsim α) : Prop :=
  ∀ j < n, j ≠ i → 1 ≤ (s.channels j i).loss

/-- Nothing reaches replica `i`: its links lose all messages, and none is on the
way. -/
structure Silenced {α : Type} (n i : Nat) (s : Netsim α) : Prop where
  loss : CutOff n i s
  inTransit : ∀ j < n, (s.channels j i).inTransit = []
  port : s.ports i = []

variable {α : Type} {n i : Nat} {s s' : Netsim α}

theorem coinFlip_of_one_le (r : RandomSource) {p : Rat} (hp : 1 ≤ p) :
    r.coinFlip p = (true, r) := by
  have hpos : ¬p ≤ 0 := by
    rw [not_le]
    exact lt_of_lt_of_le rfl hp
  rw [RandomSource.coinFlip, if_neg hpos, if_pos hp]

theorem Channel.send_loss (c : Channel α) (now : Nat) (r : RandomSource) (msg : α) :
    (c.send now r msg).1.loss = c.loss := by
  unfold Channel.send
  split
  · rfl
  · dsimp only
    split <;> rfl

/-- A message that is sent over a link of loss 1 is lost. -/
theorem Channel.send_of_one_le {c : Channel α} (hloss : 1 ≤ c.loss) (now : Nat)
    (r : RandomSource) (msg : α) : (c.send now r msg).1 = c := by
  unfold Channel.send
  split
  · rfl
  · simp [coinFlip_of_one_le r hloss]

theorem CutOff.setChannel (h : CutOff n i s) {a b : Nat} {c : Channel α}
    (hloss : b = i → 1 ≤ (s.channels a b).loss → 1 ≤ c.loss) : CutOff n i (s.setChannel a b c) := by
  intro j hj hne
  rw [channels_setChannel]
  split
  · rename_i hab
    exact hloss hab.2.symm (hab.1 ▸ hab.2 ▸ h j hj hne)
  · exact h j hj hne

theorem CutOff.send (h : CutOff n i s) (a b : Nat) (msg : α) : CutOff n i (s.send a b msg) :=
  h.setChannel fun _ hloss => (Channel.send_loss _ _ _ _).symm ▸ hloss

theorem CutOff.sendAll {draw : Nat → Nat} (h : CutOff n i s) (a : Nat)
    (packets : List (Nat × α)) : CutOff n i ((medium α n draw).sendAll s a packets) := by
  induction packets generalizing s with
  | nil => exact h
  | cons p packets ih => exact ih (h.send a p.1 p.2)

theorem CutOff.wake (h : CutOff n i s) (a b k : Nat) (t : Transit α) :
    CutOff n i (s.wake a b k t) := by
  have hset : CutOff n i (s.setChannel a b
      { s.channels a b with inTransit := (s.channels a b).inTransit.eraseIdx k }) :=
    h.setChannel fun _ hloss => hloss
  unfold Netsim.wake
  dsimp only
  split
  · exact hset
  · exact hset

/-- Only `set_loss` opens a link. -/
theorem CutOff.step (h : CutOff n i s) {e : NetsimEvent} (hmend : mends i e = false)
    (hstep : s.step n e = some s') : CutOff n i s' := by
  cases e with
  | wake a b k =>
      obtain ⟨-, t, -, rfl⟩ := step_wake hstep
      exact h.wake a b k t
  | elapse now =>
      obtain rfl := step_elapse hstep
      exact h
  | draw =>
      obtain rfl := Option.some.inj hstep
      exact h
  | setLoss a b loss =>
      obtain rfl := Option.some.inj hstep
      refine h.setChannel fun hb _ => ?_
      simpa [mends, hb] using hmend
  | connect a b =>
      obtain rfl := Option.some.inj hstep
      exact h.setChannel fun _ hloss => hloss
  | disconnect a b =>
      obtain rfl := Option.some.inj hstep
      exact h.setChannel fun _ hloss => hloss

/-- A change of a channel, and nothing new for replica `i`. -/
theorem Silenced.setChannel (h : Silenced n i s) {a b : Nat} {c : Channel α}
    (hcut : CutOff n i (s.setChannel a b c))
    (htransit : b = i → (s.channels a b).inTransit = [] → c.inTransit = []) :
    Silenced n i (s.setChannel a b c) := by
  refine ⟨hcut, fun j hj => ?_, h.port⟩
  rw [channels_setChannel]
  split
  · rename_i hab
    exact htransit hab.2.symm (hab.1 ▸ hab.2 ▸ h.inTransit j hj)
  · exact h.inTransit j hj

theorem Silenced.send (h : Silenced n i s) {a b : Nat} (ha : a < n) (hab : b = i → a ≠ i)
    (msg : α) : Silenced n i (s.send a b msg) := by
  refine { h.setChannel (h.loss.send a b msg) fun hb htransit => ?_ with }
  rw [Channel.send_of_one_le (hb ▸ h.loss a ha (hab hb))]
  exact htransit

theorem Silenced.sendAll {draw : Nat → Nat} (h : Silenced n i s) {a : Nat} (ha : a < n)
    {packets : List (Nat × α)} (hothers : a = i → ∀ p ∈ packets, p.1 ≠ i) :
    Silenced n i ((medium α n draw).sendAll s a packets) := by
  induction packets generalizing s with
  | nil => exact h
  | cons p packets ih =>
      refine ih (h.send ha (fun hb heq => ?_) p.2) fun heq p hp => ?_
      · exact hothers heq p List.mem_cons_self hb
      · exact hothers heq p (List.mem_cons_of_mem _ hp)

theorem exec_setLoss (r : Nat) (loss : Rat) {js : List Nat} (hr : r ∉ js) (s : Netsim α) :
    ∃ s', Runs.exec (Netsim.step n) s
        (js.flatMap fun j => [.setLoss r j loss, .setLoss j r loss]) = some s'
      ∧ (∀ j ∈ js, (s'.channels j r).loss = loss)
      ∧ ∀ j ∉ js, j ≠ r → s'.channels j r = s.channels j r := by
  induction js generalizing s with
  | nil => exact ⟨s, rfl, by simp, by simp⟩
  | cons k js ih =>
      obtain ⟨hk, hr⟩ := not_or.mp (mt List.mem_cons.mpr hr)
      let s₁ := s.setChannel r k { s.channels r k with loss }
      obtain ⟨s', hexec, hloss, hrest⟩ := ih hr (s₁.setChannel k r { s₁.channels k r with loss })
      refine ⟨s', hexec, fun j hj => ?_, fun j hj hne => ?_⟩
      · by_cases hjs : j ∈ js
        · exact hloss j hjs
        · obtain rfl := (List.mem_cons.mp hj).resolve_right hjs
          rw [hrest j hjs (Ne.symm hk), channels_setChannel, if_pos ⟨rfl, rfl⟩]
      · obtain ⟨hjk, hjs⟩ := not_or.mp (mt List.mem_cons.mpr hj)
        rw [hrest j hjs hne, channels_setChannel, if_neg fun h => hjk h.1, channels_setChannel,
          if_neg fun h => hne h.1]

/-- All links to a killed replica lose all messages. -/
theorem exec_killReplica (n r : Nat) (s : Netsim α) :
    ∃ s', Runs.exec (Netsim.step n) s (killReplica n r) = some s' ∧ CutOff n r s' := by
  have hr : r ∉ (List.range n).filter (· ≠ r) := by simp
  obtain ⟨s', hexec, hloss, -⟩ := exec_setLoss r 1 hr s
  exact ⟨s', hexec, fun j hj hne => (hloss j (by simp [hj, hne])).ge⟩

/-- A message that wakes goes to another port. -/
theorem Silenced.wake (h : Silenced n i s) (hs : s.Straight) {a b k : Nat} {t : Transit α}
    (ha : a < n) (ht : (s.channels a b).inTransit[k]? = some t) :
    Silenced n i (s.wake a b k t) := by
  have hb : b ≠ i := by
    rintro rfl
    simp [h.inTransit a ha] at ht
  have hset : Silenced n i (s.setChannel a b
      { s.channels a b with inTransit := (s.channels a b).inTransit.eraseIdx k }) :=
    h.setChannel (h.loss.setChannel fun heq => absurd heq hb) fun heq => absurd heq hb
  unfold Netsim.wake
  dsimp only
  split
  · rename_i d hd
    exact { hset with
      port := by simpa [enqueue, hs.arrival hd, hb.symm, Netsim.setChannel] using h.port }
  · exact hset

theorem Silenced.step (h : Silenced n i s) (hs : s.Straight) {e : NetsimEvent}
    (hmend : mends i e = false) (hstep : s.step n e = some s') : Silenced n i s' := by
  cases e with
  | wake a b k =>
      obtain ⟨ha, t, ht, rfl⟩ := step_wake hstep
      exact h.wake hs ha ht
  | elapse now =>
      obtain rfl := step_elapse hstep
      exact { h with }
  | draw =>
      obtain rfl := Option.some.inj hstep
      exact { h with }
  | setLoss a b loss =>
      have hcut := h.loss.step hmend hstep
      obtain rfl := Option.some.inj hstep
      exact h.setChannel hcut fun _ htransit => htransit
  | connect a b =>
      have hcut := h.loss.step hmend hstep
      obtain rfl := Option.some.inj hstep
      exact h.setChannel hcut fun _ htransit => htransit
  | disconnect a b =>
      have hcut := h.loss.step hmend hstep
      obtain rfl := Option.some.inj hstep
      exact h.setChannel hcut fun _ htransit => htransit

theorem CutOff.receive (h : CutOff n i s) {j : Nat} {msg : α}
    (hreceive : s.receive j = some (msg, s')) : CutOff n i s' := by
  unfold Netsim.receive at hreceive
  split at hreceive
  · cases hreceive
  · simp only [Option.some.injEq, Prod.mk.injEq] at hreceive
    obtain ⟨-, rfl⟩ := hreceive
    exact h

theorem Silenced.receive (h : Silenced n i s) {j : Nat} {msg : α}
    (hreceive : s.receive j = some (msg, s')) : j ≠ i ∧ Silenced n i s' := by
  unfold Netsim.receive at hreceive
  split at hreceive
  · cases hreceive
  · rename_i hqueue
    have hne : j ≠ i := by
      rintro rfl
      simp [h.port] at hqueue
    simp only [Option.some.injEq, Prod.mk.injEq] at hreceive
    obtain ⟨-, rfl⟩ := hreceive
    exact ⟨hne, { h with port := by simp [hne.symm, h.port] }⟩

/-! ## The run after a replica was killed -/

variable {draw : Nat → Nat}

open PtPaxosReplica

/-- Nothing mends a link to replica `i`. -/
def keepsSilent (i : Nat) : ClusterEvent (medium PaxosMessage n draw) → Bool
  | .medium e => !mends i e
  | _ => true

/-- What holds from the moment that replica `i` is `r` and hears nothing. -/
structure Stopped (n i : Nat) (r : PtPaxosReplica) (g : Sim n draw) : Prop where
  silenced : Silenced n i g.medium
  held : ∃ bag, Held n g.medium bag
  wf : Wf n i (g.replicas i)
  served : Served (g.replicas i)
  deaf : Deaf n i r (g.replicas i)

theorem Stopped.step {r : PtPaxosReplica} {g g' : Sim n draw}
    {e : ClusterEvent (medium PaxosMessage n draw)} (h : Stopped n i r g) (hn : 2 ≤ n)
    (hsilent : keepsSilent i e = true) (hstep : g.step n e = some g') :
    Stopped n i r g' := by
  obtain ⟨bag, hheld⟩ := h.held
  rcases Cluster.step_cases hstep with ⟨e', medium, rfl, hmed, rfl⟩
    | ⟨j, ev, medium, x, hj, htarget, hlocal, rfl⟩
  · exact { h with
      silenced := h.silenced.step hheld.straight (by simpa [keepsSilent] using hsilent) hmed
      held := ⟨bag, hheld.step hmed⟩ }
  · have ht := localStep_turn hlocal
    -- a message is received by another replica
    have hmedium : (ev.hears = true → j ≠ i) ∧ Silenced n i medium ∧ ∃ bag, Held n medium bag := by
      rcases Cluster.target_cases htarget with ⟨msg, now, rfl, hreceive⟩ | ⟨rfl, hno, -⟩
      · obtain ⟨hne, hafter⟩ := h.silenced.receive hreceive
        obtain ⟨rest, -, hrest⟩ := hheld.receive hj hreceive
        exact ⟨fun _ => hne, hafter, rest, hrest⟩
      · refine ⟨fun hears => ?_, h.silenced, bag, hheld⟩
        obtain ⟨msg, now, rfl⟩ := LocalEvent.hears_iff.mp hears
        exact absurd rfl (hno msg now)
    obtain ⟨hears, hsilenced, bag', hheld'⟩ := hmedium
    have hsent : Held n ((Netsim.medium PaxosMessage n draw).sendAll medium j x.2) _ :=
      (lossy n draw).sendAll hheld' j fun _ _ => trivial
    by_cases hji : j = i
    · subst hji
      have hdeaf : ev.hears = false := Bool.eq_false_iff.mpr fun htrue => hears htrue rfl
      have hrec : ∀ p ∈ System.received j ev, PacketWf n p := by
        cases ev with
        | receive => cases hdeaf
        | _ => simp [System.received]
      refine ⟨hsilenced.sendAll hj fun _ => ht.sends_others hn h.wf hdeaf, ⟨_, hsent⟩, ?_, ?_, ?_⟩
      · simpa using (ht.wf hj h.wf hrec).1
      · simpa using ht.served h.served
      · simpa using h.deaf.trans (ht.deaf hn hj h.wf hdeaf)
    · refine ⟨hsilenced.sendAll hj fun heq => absurd heq hji, ⟨_, hsent⟩, ?_, ?_, ?_⟩
      · simpa [Ne.symm hji] using h.wf
      · simpa [Ne.symm hji] using h.served
      · simpa [Ne.symm hji] using h.deaf

theorem Stopped.resultOf {r : PtPaxosReplica} {g : Sim n draw} (h : Stopped n i r g)
    (hreach : i = r.leaderIndex → r.reach n i ≤ r.nextSlot) {c : Nat} (hc : r.calls.length ≤ c) :
    (g.replicas i).resultOf c = none := by
  cases hresult : (g.replicas i).resultOf c with
  | none => rfl
  | some b =>
      obtain ⟨call, hcall, hret⟩ := Option.bind_eq_some_iff.mp hresult
      have hslot := (h.served.calls call (List.mem_of_getElem? hcall)).passed
        (.inl (Option.isSome_iff_exists.mpr ⟨b, hret⟩))
      obtain ⟨new, hkeys, hnew⟩ := h.deaf.later
      have hkey : (g.replicas i).keys[c]? = some (call.mySlot, call.dv) := by
        simp [PtPaxosReplica.keys, hcall]
      rw [hkeys, List.getElem?_append_right (by simpa [PtPaxosReplica.keys] using hc)] at hkey
      obtain ⟨hl, hle⟩ := hnew _ (List.mem_of_getElem? hkey)
      have happlied := (appliedSlot_le_reach n i (g.replicas i)).trans h.deaf.reach
      have hnext := hreach hl
      omega

theorem CutOff.turn {g g' : Sim n draw} {e : ClusterEvent (medium PaxosMessage n draw)}
    (h : CutOff n i g.medium) (hsilent : keepsSilent i e = true) (hstep : g.step n e = some g') :
    CutOff n i g'.medium := by
  rcases Cluster.step_cases hstep with ⟨e', medium, rfl, hmed, rfl⟩
    | ⟨j, ev, medium, x, hj, htarget, hlocal, rfl⟩
  · exact h.step (by simpa [keepsSilent] using hsilent) hmed
  · have hmedium : CutOff n i medium := by
      rcases Cluster.target_cases htarget with ⟨msg, now, -, hreceive⟩ | ⟨rfl, -⟩
      · exact h.receive hreceive
      · exact h
    exact hmedium.sendAll j x.2

/-- The replicas do not notice `kill_replica`, and it cuts one of them off. -/
theorem exec_killed {g g' : Sim n draw}
    (hkill : Runs.exec (Cluster.step n) g ((killReplica n i).map .medium) = some g') :
    CutOff n i g'.medium := by
  obtain ⟨s', hexec, hcut⟩ := exec_killReplica n i g.medium
  have hexec' := Cluster.exec_medium n (m := medium PaxosMessage n draw) hexec
  obtain rfl := Option.some.inj (hkill.symm.trans hexec')
  exact hcut

/-- **A killed replica stops.** Once the messages that were on their way to it
are gone, it keeps its opinion of who leads, applies nothing beyond its `reach`,
and no call that it has accepted since returns, whatever it and the others do,
until a link is restored. -/
theorem killed_stops {onApply : Nat → Bool}
    {tr tr₁ tr' : List (Sim n draw × ClusterEvent (medium PaxosMessage n draw))}
    {g₀ g₁ g g' : Sim n draw} (hn : 2 ≤ n) (hi : i < n) (hrun : SimRun n onApply draw tr g₀)
    (hled : ∀ p ∈ tr, p.1.leaderSends n p.2)
    (hkill : Runs.exec (Cluster.step n) g₀ ((killReplica n i).map .medium) = some g₁)
    (hcut : Runs.Run (Cluster.step n) (fun g e => keepsSilent i e ∧ g.leaderSends n e) g₁ tr₁ g)
    (htransit : ∀ j < n, (g.medium.channels j i).inTransit = []) (hport : g.medium.ports i = [])
    (hrest : Runs.Run (Cluster.step n) (fun _ e => keepsSilent i e) g tr' g') :
    (g'.replicas i).leaderIndex = (g.replicas i).leaderIndex
      ∧ (g'.replicas i).appliedSlot ≤ (g.replicas i).reach n i
      ∧ ∀ c, (g.replicas i).calls.length ≤ c → (g'.replicas i).resultOf c = none := by
  -- the run up to the moment when nothing is on its way any more
  have hkilled : Runs.Run (Cluster.step n) (fun _ _ => True) g₀ _ g₁ :=
    Runs.run_of_exec_eq_some hkill fun _ _ => trivial
  have hall := (hrun.append hkilled).append (hcut.mono fun _ _ _ => trivial)
  have hledAll : ∀ p ∈ tr ++ Runs.trace (Cluster.step n) g₀ ((killReplica n i).map .medium) ++ tr₁,
      p.1.leaderSends n p.2 := by
    intro p hp
    rcases List.mem_append.mp hp with hp | hp
    · rcases List.mem_append.mp hp with hp | hp
      · exact hled p hp
      · obtain ⟨e, -, he⟩ := List.mem_map.mp (Runs.event_of_mem_trace hp)
        rw [← he]
        trivial
    · obtain ⟨-, -, -, hok, -⟩ := hcut.reach_of_mem hp
      exact hok.2
  obtain ⟨tr₂, t, hrefines, hheld⟩ := exists_sim_refines hall
  have hreplicas := hrefines.replicas
  have hkept : CutOff n i g₁.medium → CutOff n i g.medium := fun hstart =>
    hcut.invariant (I := fun g : Sim n draw => CutOff n i g.medium) hstart
      fun hcut hok hstep => CutOff.turn hcut hok.1 hstep
  have hsilenced : Silenced n i g.medium := ⟨hkept (exec_killed hkill), htransit, hport⟩
  have hwf : Wf n i (g.replicas i) :=
    hreplicas ▸ (run_wf hrefines.run).1 i hi
  have hserved : Served (g.replicas i) := hreplicas ▸ System.run_served hrefines.run i
  have hreach := System.reach_le_nextSlot (hrefines.leaderRun hledAll) hn hi
  rw [hreplicas] at hreach
  have hstopped : Stopped n i (g.replicas i) g' :=
    hrest.invariant (I := Stopped n i (g.replicas i))
      ⟨hsilenced, ⟨_, hheld⟩, hwf, hserved, .refl n i _⟩ fun h hok hstep => h.step hn hok hstep
  exact ⟨hstopped.deaf.leader, (appliedSlot_le_reach n i _).trans hstopped.deaf.reach,
    fun c hc => hstopped.resultOf hreach hc⟩

/-- The leader makes a call, and is killed before the PROPOSE arrives. -/
def leaderCalled : List (ClusterEvent (medium PaxosMessage 2 fun _ => 0)) :=
  [.propose 0 (.swarmResume { serial := 1 }) 10]

def proposeArrives : List (ClusterEvent (medium PaxosMessage 2 fun _ => 0)) :=
  [.medium (.elapse 5), .medium (.wake 0 1 0), .receive 1 5, .resumeRun 1, .resumeCall 0 0]

/-- A second request is made on it, and its timer fires. -/
def killedLater : List (ClusterEvent (medium PaxosMessage 2 fun _ => 0)) :=
  [.propose 0 (.swarmResume { serial := 2 }) 11, .resumeCall 0 1, .timeout 0 105]

theorem killed_stops_leaderKilled :
    let start := Cluster.initial (medium PaxosMessage 2 fun _ => 0) 2 fun _ => false
    let g₀ := (Runs.exec (Cluster.step 2) start leaderCalled).get (by decide +kernel)
    let g₁ := (Runs.exec (Cluster.step 2) g₀ ((killReplica 2 0).map .medium)).get
      (by decide +kernel)
    let g := (Runs.exec (Cluster.step 2) g₁ proposeArrives).get (by decide +kernel)
    let g' := (Runs.exec (Cluster.step 2) g killedLater).get (by decide +kernel)
    (g'.replicas 0).leaderIndex = (g.replicas 0).leaderIndex
      ∧ (g'.replicas 0).appliedSlot ≤ (g.replicas 0).reach 2 0
      ∧ ∀ c, (g.replicas 0).calls.length ≤ c → (g'.replicas 0).resultOf c = none := by
  intro start g₀ g₁ g g'
  exact killed_stops (by decide) (by decide)
    (Runs.run_of_exec leaderCalled (by decide +kernel) fun _ _ => trivial) (by decide +kernel)
    (Option.some_get _).symm
    (Runs.run_of_exec proposeArrives (by decide +kernel) (by decide +kernel))
    (by decide +kernel) (by decide +kernel)
    (Runs.run_of_exec killedLater (by decide +kernel) (by decide +kernel))

end Netsim

end Tmgr
