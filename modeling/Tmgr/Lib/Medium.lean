import Mathlib.Algebra.BigOperators.Group.Finset.Piecewise
import Mathlib.Algebra.Order.BigOperators.Group.Finset
import Mathlib.Algebra.Order.Group.Multiset

/-!
# Media that carry messages

A medium takes messages from numbered senders and hands them to numbered
receivers; between the two, things happen to it that neither side sees. What a
protocol may assume of a medium that can lose, delay and reorder is that it
invents nothing: there is a bag of packets into which every message sent is
put, and whatever is received is taken out of it. `Lossy` says so, for the
receivers below `n`. The bag may keep packets that the medium has lost, so a
loss needs no rule of its own.

Media are often made of a link from each sender to each receiver and of a queue
at each receiver. `Covers` says that a bag holds what is on the links and in the
queues, and its lemmas are the three moves of a message: onto a link, from the
link to the queue, and out of the queue.
-/

/-- What carries messages of type `α` between numbered ports. -/
structure Medium (α : Type) where
  State : Type
  Event : Type
  start : State
  send : State → ℕ → ℕ → α → State
  step : State → Event → Option State
  receive : State → ℕ → Option (α × State)

namespace Medium

variable {α : Type} {m : Medium α} {n : ℕ}

/-- Send several messages, each with its destination. -/
def sendAll (m : Medium α) (s : m.State) (i : ℕ) (packets : List (ℕ × α)) : m.State :=
  packets.foldl (fun s p => m.send s i p.1 p.2) s

/-- Among `n` ports, the medium delivers only what was sent, and each message
once, while its events meet `ok` and the messages it is given meet `fits`.
`holds s bag` says that all that `s` may still deliver is in the bag. -/
structure Lossy (m : Medium α) (n : ℕ) (ok : m.State → m.Event → Prop) (fits : α → Prop) where
  holds : m.State → Multiset (ℕ × α) → Prop
  start : holds m.start 0
  send : ∀ {s bag x} (i j : ℕ), holds s bag → fits x → holds (m.send s i j x) ((j, x) ::ₘ bag)
  step : ∀ {s bag e s'}, holds s bag → ok s e → m.step s e = some s' → holds s' bag
  receive : ∀ {s bag j x s'}, j < n → holds s bag → m.receive s j = some (x, s') →
    ∃ rest, bag = (j, x) ::ₘ rest ∧ holds s' rest

theorem Lossy.sendAll {ok : m.State → m.Event → Prop} {fits : α → Prop} (h : m.Lossy n ok fits)
    {s : m.State} {bag : Multiset (ℕ × α)} (hs : h.holds s bag) (i : ℕ)
    {packets : List (ℕ × α)} (hfits : ∀ p ∈ packets, fits p.2) :
    h.holds (m.sendAll s i packets) (bag + packets) := by
  induction packets generalizing s bag with
  | nil => simpa [Medium.sendAll] using hs
  | cons p packets ih =>
      have hp := h.send i p.1 hs (hfits p List.mem_cons_self)
      have hrest := ih hp fun q hq => hfits q (List.mem_cons_of_mem _ hq)
      rwa [Multiset.cons_add, ← Multiset.add_cons, Multiset.cons_coe] at hrest

/-! ## Links and queues -/

/-- What is on the way to port `j`, on a link or in its queue. -/
def arriving (n : ℕ) (links : ℕ → ℕ → Multiset α) (queues : ℕ → List α) (j : ℕ) : Multiset α :=
  ∑ i ∈ Finset.range n, links i j + queues j

/-- The messages in the bag for port `j`. -/
def portion (bag : Multiset (ℕ × α)) (j : ℕ) : Multiset α :=
  (bag.filter (·.1 = j)).map Prod.snd

@[simp] theorem portion_cons_self (bag : Multiset (ℕ × α)) (j : ℕ) (x : α) :
    portion ((j, x) ::ₘ bag) j = x ::ₘ portion bag j := by
  simp [portion]

theorem portion_cons_of_ne (bag : Multiset (ℕ × α)) {j k : ℕ} (hk : j ≠ k) (x : α) :
    portion ((j, x) ::ₘ bag) k = portion bag k := by
  simp [portion, hk]

/-- All that is on the way is in the bag. -/
def Covers (n : ℕ) (links : ℕ → ℕ → Multiset α) (queues : ℕ → List α)
    (bag : Multiset (ℕ × α)) : Prop :=
  ∀ j < n, arriving n links queues j ≤ portion bag j

section

variable {links links' : ℕ → ℕ → Multiset α} {queues queues' : ℕ → List α}
  {bag : Multiset (ℕ × α)} {i j : ℕ} {x : α}

theorem Covers.empty : Covers n (fun _ _ => (0 : Multiset α)) (fun _ => []) 0 := by
  intro j hj
  simp [arriving]

theorem arriving_le (hlinks : ∀ i < n, links' i j ≤ links i j) (hqueues : queues' j = queues j) :
    arriving n links' queues' j ≤ arriving n links queues j := by
  rw [arriving, arriving, hqueues]
  gcongr with i hi
  exact hlinks i (Finset.mem_range.mp hi)

/-- Less on the links. -/
theorem Covers.mono (h : Covers n links queues bag)
    (hlinks : ∀ i < n, ∀ j < n, links' i j ≤ links i j) : Covers n links' queues bag :=
  fun j hj => (arriving_le (fun i hi => hlinks i hi j hj) rfl).trans (h j hj)

/-- A message is put on the link from `i` to `j`. -/
theorem Covers.put (h : Covers n links queues bag) (hlink : links' i j ≤ x ::ₘ links i j)
    (hother : ∀ a b, ¬(a = i ∧ b = j) → links' a b ≤ links a b) :
    Covers n links' queues ((j, x) ::ₘ bag) := by
  intro b hb
  by_cases hbj : b = j
  · subst hbj
    have hpoint : ∀ a ∈ Finset.range n, links' a b ≤ links a b + if a = i then {x} else 0 := by
      intro a _
      by_cases ha : a = i
      · subst ha
        rwa [if_pos rfl, add_comm, Multiset.singleton_add]
      · simpa [ha] using hother a b (fun hab => ha hab.1)
    have hsum : ∑ a ∈ Finset.range n, links' a b ≤ x ::ₘ ∑ a ∈ Finset.range n, links a b := by
      refine (Finset.sum_le_sum hpoint).trans ?_
      rw [Finset.sum_add_distrib, Finset.sum_ite_eq', ← Multiset.singleton_add, add_comm]
      gcongr
      split <;> simp
    rw [portion_cons_self]
    refine le_trans ?_ (Multiset.cons_le_cons x (h b hb))
    rw [arriving, arriving, ← Multiset.cons_add]
    gcongr
  · rw [portion_cons_of_ne _ (Ne.symm hbj)]
    exact (arriving_le (fun a _ => hother a b fun hab => hbj hab.2) rfl).trans (h b hb)

/-- A message goes from the link to the queue of its port. -/
theorem Covers.arrive (h : Covers n links queues bag) (hi : i < n)
    (hlink : x ::ₘ links' i j ≤ links i j)
    (hother : ∀ a b, ¬(a = i ∧ b = j) → links' a b ≤ links a b)
    (hqueue : queues' j = queues j ++ [x]) (hqueues : ∀ b, b ≠ j → queues' b = queues b) :
    Covers n links' queues' bag := by
  intro b hb
  refine le_trans ?_ (h b hb)
  by_cases hbj : b = j
  · subst hbj
    have hpoint : ∀ a ∈ Finset.range n,
        links' a b + (if a = i then {x} else 0) ≤ links a b := by
      intro a _
      by_cases ha : a = i
      · subst ha
        rwa [if_pos rfl, add_comm, Multiset.singleton_add]
      · simpa [ha] using hother a b (fun hab => ha hab.1)
    have hsum := Finset.sum_le_sum hpoint
    rw [Finset.sum_add_distrib, Finset.sum_ite_eq', if_pos (Finset.mem_range.mpr hi)] at hsum
    rw [arriving, arriving, hqueue, ← Multiset.coe_add, Multiset.coe_singleton,
      add_comm (queues b : Multiset α), ← add_assoc]
    gcongr
  · exact arriving_le (fun a _ => hother a b fun hab => hbj hab.2) (hqueues b hbj)

/-- The first message of a queue is taken out. -/
theorem Covers.take (queues' : ℕ → List α) (h : Covers n links queues bag) (hj : j < n)
    (hqueue : queues j = x :: queues' j) (hqueues : ∀ b, b ≠ j → queues' b = queues b) :
    ∃ rest, bag = (j, x) ::ₘ rest ∧ Covers n links queues' rest := by
  have hport := h j hj
  rw [arriving, hqueue, ← Multiset.cons_coe, Multiset.add_cons, ← arriving] at hport
  have hmem : (j, x) ∈ bag := by
    have := Multiset.mem_of_le hport (Multiset.mem_cons_self _ _)
    simpa [portion] using this
  obtain ⟨rest, rfl⟩ := Multiset.exists_cons_of_mem hmem
  refine ⟨rest, rfl, fun b hb => ?_⟩
  by_cases hbj : b = j
  · subst hbj
    rw [portion_cons_self, Multiset.cons_le_cons_iff] at hport
    exact hport
  · have hle := h b hb
    rw [portion_cons_of_ne _ (Ne.symm hbj)] at hle
    exact (arriving_le (fun _ _ => le_rfl) (hqueues b hbj)).trans hle

end

end Medium
