import Tmgr.Lib.Medium
import Tmgr.PaxosSchedule

/-!
# Replicas on a transport

A replica talks to its peers through `transport<paxos_message>`: `send(peer, msg)`
and `receive()`, and there is more than one class behind it. A `Cluster` is the
replicas on some medium. `run()` takes what `receive()` returns, when it waits
for a message; the packets of a turn are sent; and the medium has events of its
own.

`exists_refines` is what the replicas rely on: on a medium that is `Lossy`, every
run of a cluster is, turn for turn, a run of `System`, whose packets in flight
are lost and reordered at will. Whatever is proved of the runs of `System` then
holds on the simulated network and on TCP connections.
-/

namespace Tmgr

open PtPaxosReplica

structure Cluster (m : Medium PaxosMessage) where
  replicas : Nat → PtPaxosReplica
  medium : m.State

inductive ClusterEvent (m : Medium PaxosMessage) where
  | medium (e : m.Event)
  /-- `receive()` returns to the `run()` of replica `i` -/
  | receive (i : Nat) (now : Nat)
  | timeout (i : Nat) (now : Nat)
  | propose (i : Nat) (req : Request) (nowUnix : Int)
  | resumeRun (i : Nat)
  | resumeCall (i : Nat) (c : Nat)

namespace Cluster

variable {m : Medium PaxosMessage}

/-- The replica an event happens at, what happens there, and what it leaves of
the medium; `none` for an event of the medium, and where there is no message. -/
def target (g : Cluster m) : ClusterEvent m → Option (Nat × LocalEvent × m.State)
  | .medium _ => none
  | .receive i now => (m.receive g.medium i).map fun x => (i, .receive x.1 now, x.2)
  | .timeout i now => some (i, .timeout now, g.medium)
  | .propose i req nowUnix => some (i, .propose req nowUnix, g.medium)
  | .resumeRun i => some (i, .resumeRun, g.medium)
  | .resumeCall i c => some (i, .resumeCall c, g.medium)

def step (n : Nat) (g : Cluster m) (e : ClusterEvent m) : Option (Cluster m) :=
  match g.target e with
  | some (i, ev, medium) =>
    if i < n then
      match localStep n i (g.replicas i) ev with
      | some (r, sent) => some ⟨Function.update g.replicas i r, m.sendAll medium i sent⟩
      | none => none
    else none
  | none =>
    match e with
    | .medium e => (m.step g.medium e).map fun medium => { g with medium }
    | _ => none

/-- The packets that a step gives to the medium. -/
def sent (n : Nat) (g : Cluster m) (e : ClusterEvent m) : List Packet :=
  match g.target e with
  | some (i, ev, _) => ((localStep n i (g.replicas i) ev).map Prod.snd).getD []
  | none => []

def initial (m : Medium PaxosMessage) (n : Nat) (onApply : Nat → Bool) : Cluster m :=
  { replicas := (System.initial n onApply).replicas, medium := m.start }

/-- The medium's events meet `ok`, and it is given messages that meet `fits`. -/
def withinMedium (ok : m.State → m.Event → Prop) (fits : PaxosMessage → Prop) (n : Nat)
    (g : Cluster m) (e : ClusterEvent m) : Prop :=
  (∀ e', e = .medium e' → ok g.medium e') ∧ ∀ p ∈ g.sent n e, fits p.2

/-- A call sends on only while its replica is the leader. -/
def leaderSends (n : Nat) (g : Cluster m) : ClusterEvent m → Prop
  | .resumeCall i c => System.leaderSends n ⟨g.replicas, []⟩ (.resumeCall i c)
  | _ => True

instance (n : Nat) (g : Cluster m) (e : ClusterEvent m) : Decidable (g.leaderSends n e) := by
  cases e <;> unfold leaderSends <;> infer_instance

/-! ## Turns -/

/-- The turn of a replica that a step of the cluster is, if it is one. -/
def turnAt (p : Cluster m × ClusterEvent m) : List (Nat × LocalEvent) :=
  ((p.1.target p.2).map fun t => (t.1, t.2.1)).toList

end Cluster

def System.turnAt (p : System × Event) : List (Nat × LocalEvent) :=
  ((p.1.target p.2).map fun t => (t.1, t.2.1)).toList

/-- The event of `System` for an event of a cluster; a message received is the
`k`-th packet in flight. -/
def ClusterEvent.toEvent {m : Medium PaxosMessage} (k : Nat) : ClusterEvent m → Event
  | .medium _ => .lose k
  | .receive _ now => .deliver k now
  | .timeout i now => .timeout i now
  | .propose i req nowUnix => .propose i req nowUnix
  | .resumeRun i => .resumeRun i
  | .resumeCall i c => .resumeCall i c

namespace Cluster

variable {m : Medium PaxosMessage} {n : Nat} {ok : m.State → m.Event → Prop}
  {fits : PaxosMessage → Prop}

theorem step_cases {g g' : Cluster m} {e : ClusterEvent m} (h : g.step n e = some g') :
    (∃ e' medium, e = .medium e' ∧ m.step g.medium e' = some medium ∧ g' = { g with medium })
    ∨ ∃ i ev medium x, i < n ∧ g.target e = some (i, ev, medium)
      ∧ localStep n i (g.replicas i) ev = some x
      ∧ g' = ⟨Function.update g.replicas i x.1, m.sendAll medium i x.2⟩ := by
  unfold step at h
  split at h
  · rename_i i ev medium htarget
    split at h
    · rename_i hi
      split at h
      · rename_i r sent hlocal
        exact .inr ⟨i, ev, medium, (r, sent), hi, htarget, hlocal, (Option.some.inj h).symm⟩
      · cases h
    · cases h
  · split at h
    · rename_i e' _
      rw [Option.map_eq_some_iff] at h
      obtain ⟨medium, hmedium, rfl⟩ := h
      exact .inl ⟨e', medium, rfl, hmedium, rfl⟩
    · cases h

/-- Only a receive takes something from the medium. -/
theorem target_cases {g : Cluster m} {e : ClusterEvent m} {i : Nat} {ev : LocalEvent}
    {medium : m.State} (h : g.target e = some (i, ev, medium)) :
    (∃ msg now, ev = .receive msg now ∧ m.receive g.medium i = some (msg, medium))
    ∨ medium = g.medium ∧ (∀ msg now, ev ≠ .receive msg now)
      ∧ ∀ req nowUnix, ev = .propose req nowUnix → e = .propose i req nowUnix := by
  cases e with
  | medium e => cases h
  | receive j now =>
      simp only [target, Option.map_eq_some_iff, Prod.mk.injEq] at h
      obtain ⟨⟨msg, medium⟩, hreceive, rfl, rfl, rfl⟩ := h
      exact .inl ⟨msg, now, rfl, hreceive⟩
  | _ =>
      simp only [target, Option.some.injEq, Prod.mk.injEq] at h
      obtain ⟨rfl, rfl, rfl⟩ := h
      exact .inr ⟨rfl, by simp, by simp⟩

/-- Events of the medium alone. -/
theorem exec_medium (n : Nat) {g : Cluster m} {es : List m.Event} {medium : m.State}
    (h : Runs.exec m.step g.medium es = some medium) :
    Runs.exec (Cluster.step n) g (es.map .medium) = some { g with medium } := by
  induction es generalizing g with
  | nil =>
      obtain rfl := Option.some.inj h
      rfl
  | cons e es ih =>
      rw [Runs.exec, Option.bind_eq_some_iff] at h
      obtain ⟨next, hnext, h⟩ := h
      have hstep : g.step n (.medium e) = some { g with medium := next } := by
        simp [Cluster.step, Cluster.target, hnext]
      rw [List.map_cons, Runs.exec, hstep, Option.bind_some]
      exact ih h

/-- What the replicas keep in a step in which `i` takes no turn. -/
theorem step_replica {g g' : Cluster m} {e : ClusterEvent m} (h : g.step n e = some g') (i : Nat) :
    g'.replicas i = g.replicas i
      ∨ ∃ ev medium x, i < n ∧ g.target e = some (i, ev, medium)
        ∧ localStep n i (g.replicas i) ev = some x ∧ g'.replicas i = x.1 := by
  rcases step_cases h with ⟨e', medium, -, -, rfl⟩ | ⟨j, ev, medium, x, hj, htarget, hlocal, rfl⟩
  · exact .inl rfl
  · by_cases hij : i = j
    · subst hij
      exact .inr ⟨ev, medium, x, hj, htarget, hlocal, by simp⟩
    · exact .inl (by simp [hij])

/-- The two systems agree on the replicas, and all that the medium may still
deliver is in flight. -/
structure Matches (h : m.Lossy n ok fits) (g : Cluster m) (t : System) : Prop where
  replicas : t.replicas = g.replicas
  holds : h.holds g.medium (t.network : Multiset Packet)

theorem Matches.target {h : m.Lossy n ok fits} {g : Cluster m} {t : System} (hm : Matches h g t)
    {e : ClusterEvent m} {i : Nat} {ev : LocalEvent} {medium : m.State} (hi : i < n)
    (htarget : g.target e = some (i, ev, medium)) :
    ∃ k rest, t.target (e.toEvent k) = some (i, ev, rest)
      ∧ h.holds medium (rest : Multiset Packet) := by
  cases e with
  | medium e => cases htarget
  | receive j now =>
      simp only [Cluster.target, Option.map_eq_some_iff, Prod.mk.injEq] at htarget
      obtain ⟨⟨msg, medium⟩, hreceive, rfl, rfl, rfl⟩ := htarget
      obtain ⟨bag, hbag, hholds⟩ := h.receive hi hm.holds hreceive
      have hmem : (j, msg) ∈ t.network := by
        rw [← Multiset.mem_coe, hbag]
        exact Multiset.mem_cons_self _ _
      obtain ⟨k, hk, hget⟩ := List.getElem_of_mem hmem
      refine ⟨k, t.network.eraseIdx k, ?_, ?_⟩
      · simp [ClusterEvent.toEvent, System.target, List.getElem?_eq_getElem hk, hget]
      · have hperm := List.getElem_cons_eraseIdx_perm hk
        rw [← Multiset.coe_eq_coe, hbag, hget, ← Multiset.cons_coe, Multiset.cons_inj_right] at hperm
        rwa [hperm]
  | _ =>
      simp only [Cluster.target, Option.some.injEq, Prod.mk.injEq] at htarget
      obtain ⟨rfl, rfl, rfl⟩ := htarget
      exact ⟨0, t.network, rfl, hm.holds⟩

/-- One turn, in both. -/
theorem Matches.turn {h : m.Lossy n ok fits} {g : Cluster m} {t : System} (hm : Matches h g t)
    {e : ClusterEvent m} {i : Nat} {ev : LocalEvent} {medium : m.State}
    {x : PtPaxosReplica × List Packet} (hi : i < n)
    (htarget : g.target e = some (i, ev, medium))
    (hlocal : localStep n i (g.replicas i) ev = some x) (hfits : ∀ p ∈ x.2, fits p.2) :
    ∃ k t', t.step n (e.toEvent k) = some t' ∧ System.turnAt (t, e.toEvent k) = turnAt (g, e)
      ∧ Matches h ⟨Function.update g.replicas i x.1, m.sendAll medium i x.2⟩ t' := by
  obtain ⟨k, rest, htarget', hholds⟩ := hm.target hi htarget
  refine ⟨k, ⟨Function.update t.replicas i x.1, rest ++ x.2⟩, ?_, ?_, ?_, ?_⟩
  · rw [← hm.replicas] at hlocal
    simp [System.step, htarget', hi, hlocal]
  · simp [System.turnAt, turnAt, htarget, htarget']
  · rw [hm.replicas]
  · rw [← Multiset.coe_add]
    exact h.sendAll hholds i hfits

theorem leaderSends_toEvent {g : Cluster m} {t : System} {e : ClusterEvent m} (k : Nat)
    (h : g.leaderSends n e) (hreplicas : t.replicas = g.replicas) :
    t.leaderSends n (e.toEvent k) := by
  cases e with
  | resumeCall i c =>
      simp only [leaderSends, System.leaderSends] at h
      simpa only [ClusterEvent.toEvent, System.leaderSends, hreplicas] using h
  | _ => trivial

/-- A run of `System` with the turns of a run of a cluster, in the same order,
and the same replicas at the end. -/
structure Refines (n : Nat) (onApply : Nat → Bool) (tr : List (Cluster m × ClusterEvent m))
    (g : Cluster m) (tr' : List (System × Event)) (t : System) : Prop where
  run : PaxosRun n onApply (fun _ _ => True) tr' t
  leaderRun : (∀ p ∈ tr, p.1.leaderSends n p.2) →
    PaxosRun n onApply (fun s e => s.leaderSends n e) tr' t
  replicas : t.replicas = g.replicas
  turns : tr'.flatMap System.turnAt = tr.flatMap turnAt

/-- A cluster on a lossy medium refines the group of replicas. -/
theorem exists_refines {onApply : Nat → Bool} (h : m.Lossy n ok fits)
    {tr : List (Cluster m × ClusterEvent m)} {g : Cluster m}
    (hrun : Runs.Run (step n) (withinMedium ok fits n) (initial m n onApply) tr g) :
    ∃ tr' t, Refines n onApply tr g tr' t ∧ Matches h g t := by
  -- if all calls of the run send on only at a leader, so do those of the other
  let led := ∀ p ∈ tr, p.1.leaderSends n p.2
  have hguard : Runs.Run (step n)
      (fun g e => g.withinMedium ok fits n e ∧ (led → g.leaderSends n e)) (initial m n onApply)
      tr g :=
    hrun.guard fun p hp => by
      obtain ⟨tr₁, tr₂, rfl⟩ := List.append_of_mem hp
      obtain ⟨-, -, hok, -⟩ := hrun.split
      exact ⟨hok, fun hled => hled p hp⟩
  obtain ⟨tr', t, hrun', hm, hturns⟩ := hguard.simulated (fun t e => led → t.leaderSends n e)
    (Matches h) turnAt System.turnAt ⟨rfl, h.start⟩ fun {g e g' t} hm hok hstep => by
      obtain ⟨⟨hevent, hsent⟩, hled⟩ := hok
      rcases step_cases hstep with ⟨e', medium, rfl, hmed, rfl⟩ | ⟨i, ev, medium, x, hi, htarget,
        hlocal, rfl⟩
      · exact .inl ⟨⟨hm.replicas, h.step hm.holds (hevent e' rfl) hmed⟩, rfl⟩
      · have hfits : ∀ p ∈ x.2, fits p.2 := by simpa [sent, htarget, hlocal] using hsent
        obtain ⟨k, t', hstep', hturn, hm'⟩ := hm.turn hi htarget hlocal hfits
        exact .inr ⟨e.toEvent k, t', fun h => leaderSends_toEvent k (hled h) hm.replicas, hstep',
          hm', hturn⟩
  exact ⟨tr', t, ⟨hrun'.mono fun _ _ _ => trivial, fun hall => hrun'.mono fun _ _ hok => hok hall,
    hm.replicas, hturns⟩, hm⟩

end Cluster

end Tmgr
