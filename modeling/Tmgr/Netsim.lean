import Mathlib.Data.Rat.Floor
import Tmgr.Cluster

/-!
# The simulated network

`netsim` and the transport on it, as the tests use them. A `Channel` is a link
to a port; `send` flips a coin for the loss and starts a `send_after` coroutine,
which puts the message into the port's queue when it wakes, unless the channel
was connected anew in the meantime. `Netsim` is the mesh of channels between `n`
transports, with the source of randomness and the virtual clock they share: the
clock does not pass a coroutine that is due.

Losses may be set at any time, which is all that the failure schedules of the
tests do. `lossy` is the law that the replicas need, whatever they are set to.
-/

namespace Tmgr

namespace Netsim

/-! ## Randomness -/

/-- `random_source`: the `k`-th number drawn from `0 .. 2^53 - 1`, and how many
have been drawn. -/
structure RandomSource where
  draw : Nat → Nat
  drawn : Nat := 0

/-- `coin_flip(p)` draws only where the outcome is open. -/
def RandomSource.coinFlip (r : RandomSource) (p : Rat) : Bool × RandomSource :=
  if p ≤ 0 then (false, r)
  else if p ≥ 1 then (true, r)
  else ((r.draw r.drawn : Int) < ⌊p * 2 ^ 53⌋, { r with drawn := r.drawn + 1 })

/-! ## Channels -/

/-- A `send_after` that waits: the `destination_version_` it started with, and
when it wakes. -/
structure Transit (α : Type) where
  version : Nat
  due : Nat
  msg : α

structure Channel (α : Type) where
  /-- the port it is connected to -/
  destination : Option Nat := none
  destinationVersion : Nat := 0
  loss : Rat := 0
  inTransit : List (Transit α) := []

/-- Milliseconds. -/
def linkDelay : Nat := 5

namespace Channel

variable {α : Type}

def connect (c : Channel α) (destination : Nat) : Channel α :=
  { c with destination := some destination, destinationVersion := c.destinationVersion + 1 }

def disconnect (c : Channel α) : Channel α :=
  { c with destination := none, destinationVersion := c.destinationVersion + 1 }

def send (c : Channel α) (now : Nat) (r : RandomSource) (msg : α) : Channel α × RandomSource :=
  match c.destination with
  | none => (c, r)
  | some _ =>
    let (lost, r) := r.coinFlip c.loss
    if lost then (c, r)
    else ({ c with inTransit := c.inTransit ++ [⟨c.destinationVersion, now + linkDelay, msg⟩] }, r)

/-- Where a message goes that wakes now; `none` drops it. -/
def arrival (c : Channel α) (t : Transit α) : Option Nat :=
  if t.version = c.destinationVersion then c.destination else none

end Channel

end Netsim

open Netsim

/-- The transports of `n` replicas: `channels_[j]` of transport `i` is
`channels i j`, and its port is `ports i`, the messages with their sources. -/
structure Netsim (α : Type) where
  now : Nat := 0
  randomness : RandomSource
  channels : Nat → Nat → Channel α
  ports : Nat → List (α × Nat) := fun _ => []

inductive NetsimEvent where
  /-- the `k`-th `send_after` of a channel wakes -/
  | wake (i j k : Nat)
  /-- the clock moves on -/
  | elapse (now : Nat)
  /-- somebody else uses the source of randomness -/
  | draw
  | setLoss (i j : Nat) (loss : Rat)
  /-- `sim_transport::connect` -/
  | connect (i j : Nat)
  | disconnect (i j : Nat)

namespace Netsim

variable {α : Type}

def setChannel (s : Netsim α) (i j : Nat) (c : Channel α) : Netsim α :=
  { s with channels := Function.update s.channels i (Function.update (s.channels i) j c) }

/-- `messageq_.emplace_back` -/
def enqueue (s : Netsim α) (i j : Nat) (msg : α) : Netsim α :=
  { s with ports := Function.update s.ports j (s.ports j ++ [(msg, i)]) }

def send (s : Netsim α) (i j : Nat) (msg : α) : Netsim α :=
  let sent := (s.channels i j).send s.now s.randomness msg
  { s.setChannel i j sent.1 with randomness := sent.2 }

def wake (s : Netsim α) (i j k : Nat) (t : Transit α) : Netsim α :=
  let c := s.channels i j
  let s := s.setChannel i j { c with inTransit := c.inTransit.eraseIdx k }
  match c.arrival t with
  | some d => s.enqueue i d t.msg
  | none => s

/-- No coroutine is due before this time. -/
def quietUntil (s : Netsim α) (n now : Nat) : Bool :=
  (List.range n).all fun i => (List.range n).all fun j =>
    (s.channels i j).inTransit.all fun t => now ≤ t.due

def step (n : Nat) (s : Netsim α) : NetsimEvent → Option (Netsim α)
  | .wake i j k =>
    if i < n ∧ j < n then
      match (s.channels i j).inTransit[k]? with
      | some t => if t.due ≤ s.now then some (s.wake i j k t) else none
      | none => none
    else none
  | .elapse now => if s.now ≤ now ∧ s.quietUntil n now then some { s with now } else none
  | .draw => some { s with randomness.drawn := s.randomness.drawn + 1 }
  | .setLoss i j loss => some (s.setChannel i j { s.channels i j with loss })
  | .connect i j => some (s.setChannel i j ((s.channels i j).connect j))
  | .disconnect i j => some (s.setChannel i j (s.channels i j).disconnect)

/-- `port::receive` takes the message that has waited longest. -/
def receive (s : Netsim α) (j : Nat) : Option (α × Netsim α) :=
  match s.ports j with
  | [] => none
  | (msg, _) :: rest => some (msg, { s with ports := Function.update s.ports j rest })

/-- The transports as `test_cluster` builds them: a full mesh. -/
def initial (n : Nat) (draw : Nat → Nat) : Netsim α :=
  { randomness := { draw },
    channels := fun i j => if i < n ∧ j < n ∧ i ≠ j then ({} : Channel α).connect j else {} }

/-- The simulated network as a medium. -/
def medium (α : Type) (n : Nat) (draw : Nat → Nat) : Medium α where
  State := Netsim α
  Event := NetsimEvent
  start := initial n draw
  send := send
  step := step n
  receive := receive

/-! ## What is on the way -/

def Channel.msgs (c : Channel α) : Multiset α :=
  c.inTransit.map (·.msg)

theorem Channel.send_destination (c : Channel α) (now : Nat) (r : RandomSource) (msg : α) :
    (c.send now r msg).1.destination = c.destination := by
  unfold Channel.send
  split
  · rfl
  · dsimp only
    split <;> rfl

/-- A message that is sent is on its way, or lost. -/
theorem Channel.send_msgs (c : Channel α) (now : Nat) (r : RandomSource) (msg : α) :
    (c.send now r msg).1.msgs ≤ msg ::ₘ c.msgs := by
  unfold Channel.send
  split
  · exact Multiset.le_cons_self _ _
  · dsimp only
    split
    · exact Multiset.le_cons_self _ _
    · rw [Channel.msgs, Channel.msgs, List.map_append, ← Multiset.coe_add, Multiset.cons_coe,
        Multiset.coe_add, Multiset.coe_le]
      exact (List.perm_append_singleton _ _).subperm

theorem channels_setChannel (s : Netsim α) (i j a b : Nat) (c : Channel α) :
    (s.setChannel i j c).channels a b = if a = i ∧ b = j then c else s.channels a b := by
  by_cases ha : a = i
  · subst ha
    by_cases hb : b = j
    · subst hb
      simp [setChannel]
    · simp [setChannel, hb]
  · simp [setChannel, ha]

/-- A channel leads to the port of its index, if it leads anywhere. -/
def Straight (s : Netsim α) : Prop :=
  ∀ i j d, (s.channels i j).destination = some d → d = j

/-- A message arrives at the port it was sent to, if it arrives. -/
theorem Straight.arrival {s : Netsim α} (h : s.Straight) {i j d : Nat} {t : Transit α}
    (hd : (s.channels i j).arrival t = some d) : d = j := by
  unfold Channel.arrival at hd
  split at hd
  · exact h i j d hd
  · cases hd

theorem Straight.setChannel {s : Netsim α} (h : s.Straight) {i j : Nat} {c : Channel α}
    (hc : ∀ d, c.destination = some d → d = j) : (s.setChannel i j c).Straight := by
  intro a b d hd
  rw [channels_setChannel] at hd
  split at hd
  · rename_i hab
    exact hab.2 ▸ hc d hd
  · exact h a b d hd

/-- The bag holds what is in transit and what waits in the ports. -/
structure Held (n : Nat) (s : Netsim α) (bag : Multiset (Nat × α)) : Prop where
  straight : s.Straight
  covers : Medium.Covers n (fun i j => (s.channels i j).msgs) (fun j => (s.ports j).map (·.1)) bag

variable {n : Nat} {s s' : Netsim α} {bag : Multiset (Nat × α)}

theorem initial_held (draw : Nat → Nat) : Held n (initial (α := α) n draw) 0 := by
  refine ⟨fun i j d hd => ?_, Medium.Covers.empty.mono fun i hi j hj => ?_⟩
  · simp only [initial] at hd
    split at hd
    · exact (Option.some.inj hd).symm
    · cases hd
  · simp only [initial]
    split <;> exact le_rfl

/-- One channel gets a new state, with nothing more in transit. -/
theorem Held.setChannel (h : Held n s bag) {i j : Nat} {c : Channel α}
    (hc : ∀ d, c.destination = some d → d = j) (hmsgs : c.msgs ≤ (s.channels i j).msgs) :
    Held n (s.setChannel i j c) bag := by
  refine ⟨h.straight.setChannel hc, h.covers.mono fun a _ b _ => ?_⟩
  simp only [channels_setChannel]
  split
  · rename_i hab
    rw [hab.1, hab.2]
    exact hmsgs
  · exact le_rfl

theorem Held.send (h : Held n s bag) (i j : Nat) (msg : α) :
    Held n (s.send i j msg) ((j, msg) ::ₘ bag) := by
  refine ⟨h.straight.setChannel fun d hd => h.straight i j d ?_, h.covers.put (i := i) ?_ ?_⟩
  · rwa [Channel.send_destination] at hd
  · show ((s.setChannel i j _).channels i j).msgs ≤ _
    rw [channels_setChannel, if_pos ⟨rfl, rfl⟩]
    exact Channel.send_msgs _ _ _ _
  · intro a b hab
    show ((s.setChannel i j _).channels a b).msgs ≤ _
    rw [channels_setChannel, if_neg hab]

theorem Held.wake (h : Held n s bag) {i j k : Nat} {t : Transit α} (hi : i < n)
    (ht : (s.channels i j).inTransit[k]? = some t) : Held n (s.wake i j k t) bag := by
  obtain ⟨hk, rfl⟩ := List.getElem?_eq_some_iff.mp ht
  have hperm := (List.getElem_cons_eraseIdx_perm hk).map Transit.msg
  rw [← Multiset.coe_eq_coe, List.map_cons, ← Multiset.cons_coe] at hperm
  have hmsgs : ∀ c : Channel α, c.inTransit = (s.channels i j).inTransit.eraseIdx k →
      (s.channels i j).inTransit[k].msg ::ₘ c.msgs = (s.channels i j).msgs := by
    intro c hc
    rw [Channel.msgs, hc]
    exact hperm
  unfold Netsim.wake
  dsimp only
  split
  · rename_i d hd
    obtain rfl := h.straight.arrival hd
    refine ⟨h.straight.setChannel (h.straight i d), h.covers.arrive (j := d)
      (x := (s.channels i d).inTransit[k].msg) hi ?_ ?_ ?_ ?_⟩
    · show _ ::ₘ ((s.setChannel i d _).channels i d).msgs ≤ _
      rw [channels_setChannel, if_pos ⟨rfl, rfl⟩, hmsgs _ rfl]
    · intro a b hab
      show ((s.setChannel i d _).channels a b).msgs ≤ _
      rw [channels_setChannel, if_neg hab]
    · simp [enqueue, Netsim.setChannel]
    · intro b hb
      simp [enqueue, Netsim.setChannel, hb]
  · exact h.setChannel (h.straight i j) ((Multiset.le_cons_self _ _).trans (hmsgs _ rfl).le)

theorem step_wake {i j k : Nat} (hstep : s.step n (.wake i j k) = some s') :
    i < n ∧ ∃ t, (s.channels i j).inTransit[k]? = some t ∧ s' = s.wake i j k t := by
  simp only [Netsim.step] at hstep
  split at hstep
  · rename_i hlt
    split at hstep
    · rename_i t ht
      split at hstep
      · exact ⟨hlt.1, t, ht, (Option.some.inj hstep).symm⟩
      · cases hstep
    · cases hstep
  · cases hstep

theorem step_elapse {now : Nat} (hstep : s.step n (.elapse now) = some s') :
    s' = { s with now } := by
  simp only [Netsim.step] at hstep
  split at hstep
  · exact (Option.some.inj hstep).symm
  · cases hstep

theorem Held.step (h : Held n s bag) {e : NetsimEvent} (hstep : s.step n e = some s') :
    Held n s' bag := by
  cases e with
  | wake i j k =>
      obtain ⟨hi, t, ht, rfl⟩ := step_wake hstep
      exact h.wake hi ht
  | elapse now =>
      obtain rfl := step_elapse hstep
      exact ⟨h.straight, h.covers⟩
  | draw =>
      obtain rfl := Option.some.inj hstep
      exact ⟨h.straight, h.covers⟩
  | setLoss i j loss =>
      obtain rfl := Option.some.inj hstep
      exact h.setChannel (h.straight i j) le_rfl
  | connect i j =>
      obtain rfl := Option.some.inj hstep
      exact h.setChannel (fun d hd => (Option.some.inj hd).symm) le_rfl
  | disconnect i j =>
      obtain rfl := Option.some.inj hstep
      exact h.setChannel (fun d hd => by cases hd) le_rfl

theorem Held.receive (h : Held n s bag) {j : Nat} {msg : α} (hj : j < n)
    (hreceive : s.receive j = some (msg, s')) :
    ∃ rest, bag = (j, msg) ::ₘ rest ∧ Held n s' rest := by
  unfold Netsim.receive at hreceive
  split at hreceive
  · cases hreceive
  · rename_i msg' source queue hqueue
    simp only [Option.some.injEq, Prod.mk.injEq] at hreceive
    obtain ⟨rfl, rfl⟩ := hreceive
    obtain ⟨rest, hbag, hcovers⟩ := Medium.Covers.take (x := msg')
      (fun b => (Function.update s.ports j queue b).map (·.1)) h.covers hj
      (by simp [hqueue]) (fun b hb => by simp [hb])
    exact ⟨rest, hbag, h.straight, hcovers⟩

/-- The simulated network invents nothing, whatever the losses and however its
channels are connected. -/
def lossy (n : Nat) (draw : Nat → Nat) :
    (medium α n draw).Lossy n (fun _ _ => True) (fun _ => True) where
  holds := Held n
  start := initial_held draw
  send i j h _ := h.send i j _
  step h _ hstep := h.step hstep
  receive hj h hreceive := h.receive hj hreceive

/-! ## The replicas on it -/

abbrev Sim (n : Nat) (draw : Nat → Nat) : Type := Cluster (medium PaxosMessage n draw)

/-- A run of the replicas of the tests, with any losses at any times. -/
abbrev SimRun (n : Nat) (onApply : Nat → Bool) (draw : Nat → Nat) :
    List (Sim n draw × ClusterEvent (medium PaxosMessage n draw)) → Sim n draw → Prop :=
  Runs.Run (Cluster.step n) (fun _ _ => True)
    (Cluster.initial (medium PaxosMessage n draw) n onApply)

/-- What has been sent and neither lost nor received. -/
def onTheWay (s : Netsim PaxosMessage) (i j : Nat) (msg : PaxosMessage) : Prop :=
  (∃ t ∈ (s.channels i j).inTransit, t.msg = msg) ∨ (msg, i) ∈ s.ports j

theorem exists_sim_refines {onApply : Nat → Bool} {draw : Nat → Nat}
    {tr : List (Sim n draw × ClusterEvent (medium PaxosMessage n draw))} {g : Sim n draw}
    (hrun : SimRun n onApply draw tr g) :
    ∃ tr' t, Cluster.Refines n onApply tr g tr' t ∧ Held n g.medium (t.network : Multiset Packet) := by
  obtain ⟨tr', t, hrefines, hm⟩ := Cluster.exists_refines (lossy n draw)
    (hrun.mono fun _ _ _ => ⟨fun _ _ => trivial, fun _ _ => trivial⟩)
  exact ⟨tr', t, hrefines, hm.holds⟩

theorem Held.mem_network {s : Netsim PaxosMessage} {network : List Packet}
    (h : Held n s (network : Multiset Packet)) {i j : Nat} (hi : i < n) (hj : j < n)
    {msg : PaxosMessage} (hway : s.onTheWay i j msg) : (j, msg) ∈ network := by
  have harriving : msg ∈ Medium.arriving n (fun i j => (s.channels i j).msgs)
      (fun j => (s.ports j).map (·.1)) j := by
    rw [Medium.arriving, Multiset.mem_add]
    rcases hway with ⟨t, ht, rfl⟩ | hport
    · refine .inl (Multiset.mem_sum.mpr ⟨i, Finset.mem_range.mpr hi, ?_⟩)
      exact Multiset.mem_coe.mpr (List.mem_map_of_mem ht)
    · exact .inr (Multiset.mem_coe.mpr (List.mem_map.mpr ⟨(msg, i), hport, rfl⟩))
  have hbag := Multiset.mem_of_le (h.covers j hj) harriving
  simpa [Medium.portion] using hbag

/-- **The simulated replicas refine the group.** Whatever the seed, the losses
and the failures, the turns that they take are those of a run of `System`, where
all that is on the way is in flight. -/
theorem sim_refines {onApply : Nat → Bool} {draw : Nat → Nat}
    {tr : List (Sim n draw × ClusterEvent (medium PaxosMessage n draw))} {g : Sim n draw}
    (hrun : SimRun n onApply draw tr g) :
    ∃ tr' t, Cluster.Refines n onApply tr g tr' t
      ∧ ∀ i < n, ∀ j < n, ∀ msg, g.medium.onTheWay i j msg → (j, msg) ∈ t.network := by
  obtain ⟨tr', t, hrefines, hheld⟩ := exists_sim_refines hrun
  exact ⟨tr', t, hrefines, fun i hi j hj msg hway => hheld.mem_network hi hj hway⟩

/-- Replica 1 accepts a value while its links are getting worse; its ACK is
lost. -/
def ackLost : List (ClusterEvent (medium PaxosMessage 2 fun _ => 0)) :=
  [.propose 0 (.swarmResume { serial := 7 }) 10, .medium (.elapse 5), .medium (.wake 0 1 0),
   .medium (.setLoss 1 0 (1 / 2)), .receive 1 5, .resumeRun 1, .medium (.setLoss 0 1 1),
   .resumeCall 0 0, .timeout 0 105, .medium (.elapse 105), .timeout 1 600]

theorem sim_refines_ackLost :
    let start := Cluster.initial (medium PaxosMessage 2 fun _ => 0) 2 fun _ => false
    let g := (Runs.exec (Cluster.step 2) start ackLost).get (by decide +kernel)
    ∃ tr' t, Cluster.Refines 2 (fun _ => false) (Runs.trace (Cluster.step 2) start ackLost) g tr' t
      ∧ ∀ i < 2, ∀ j < 2, ∀ msg, g.medium.onTheWay i j msg → (j, msg) ∈ t.network :=
  sim_refines (Runs.run_of_exec ackLost (by decide +kernel) fun _ _ => trivial)

end Netsim

end Tmgr
