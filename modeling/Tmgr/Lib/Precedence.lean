import Mathlib.Data.List.Induction
import Mathlib.Logic.Relation

/-!
# Relations that point back along a list

A list that only grows at its end is a creation order: `Precedes l a b` says
that `a` was put on it strictly before `b`. A relation between entries that
respects the order has no cycle, and of the entries with some property one
comes first, so that everything before it lacks the property.
-/

namespace Precedence

variable {α : Type*} [DecidableEq α]

/-- `a` occurs in `l` strictly before `b`. -/
def Precedes (l : List α) (a b : α) : Prop :=
  l.idxOf a < l.idxOf b ∧ b ∈ l

instance (l : List α) (a b : α) : Decidable (Precedes l a b) :=
  inferInstanceAs (Decidable (_ ∧ _))

theorem Precedes.left_mem {l : List α} {a b : α} (h : Precedes l a b) : a ∈ l :=
  List.idxOf_lt_length_iff.mp (Nat.lt_trans h.1 (List.idxOf_lt_length_of_mem h.2))

theorem Precedes.trans {l : List α} {a b c : α} (h₁ : Precedes l a b)
    (h₂ : Precedes l b c) : Precedes l a c :=
  ⟨Nat.lt_trans h₁.1 h₂.1, h₂.2⟩

theorem Precedes.irrefl {l : List α} {a : α} : ¬Precedes l a a :=
  fun h => Nat.lt_irrefl _ h.1

/-! ## Growing the list -/

/-- What precedes an entry does not change when the list grows. -/
theorem precedes_append {l m : List α} {a b : α} (hb : b ∈ l) :
    Precedes (l ++ m) a b ↔ Precedes l a b := by
  have hlt := List.idxOf_lt_length_of_mem hb
  have hmem : b ∈ l ++ m := List.mem_append_left _ hb
  simp only [Precedes, hb, hmem, and_true, List.idxOf_append, if_true]
  by_cases ha : a ∈ l
  · simp only [ha, if_true]
  · have hlen := List.idxOf_eq_length ha
    simp only [ha, if_false]
    omega

/-- A new last entry comes after exactly the entries that were there. -/
theorem precedes_concat {l : List α} {a b : α} (hb : b ∉ l) :
    Precedes (l ++ [b]) a b ↔ a ∈ l := by
  have hmem : b ∈ l ++ [b] := by simp
  have hidx : (l ++ [b]).idxOf b = l.length := by
    rw [List.idxOf_append, if_neg hb]
    simp
  rw [Precedes, hidx, and_iff_left hmem, List.idxOf_append]
  by_cases ha : a ∈ l
  · have hlt := List.idxOf_lt_length_of_mem ha
    simp only [ha, if_true, iff_true]
    exact hlt
  · simp only [ha, if_false, iff_false]
    omega

/-- What precedes an entry that occurs once is the part of the list before it. -/
theorem precedes_append_cons {l m : List α} {a b : α} (hb : b ∉ l) :
    Precedes (l ++ b :: m) a b ↔ a ∈ l := by
  have hsplit : l ++ b :: m = (l ++ [b]) ++ m := by simp
  rw [hsplit, precedes_append (by simp), precedes_concat hb]

/-- The entries a list grew by come after the entries that were there. -/
theorem precedes_of_mem_append {l m : List α} {a b : α} (ha : a ∈ l) (hb : b ∉ l)
    (hmem : b ∈ m) : Precedes (l ++ m) a b := by
  have hlt := List.idxOf_lt_length_of_mem ha
  refine ⟨?_, List.mem_append_right _ hmem⟩
  simp only [List.idxOf_append, ha, hb, if_true, if_false]
  omega

/-- A search finds its result at the first entry that has one. -/
theorem findSome?_eq_some_iff {β : Type*} {l : List α} (hnd : l.Nodup) {f : α → Option β}
    {b : β} :
    l.findSome? f = some b ↔ ∃ a ∈ l, f a = some b ∧ ∀ c, Precedes l c a → f c = none := by
  rw [List.findSome?_eq_some_iff]
  constructor
  · rintro ⟨l₁, a, l₂, rfl, ha, hbefore⟩
    have hnot : a ∉ l₁ := fun h => (List.nodup_append.mp hnd).2.2 a h a (by simp) rfl
    exact ⟨a, by simp, ha, fun c hc => hbefore c ((precedes_append_cons hnot).mp hc)⟩
  · rintro ⟨a, hmem, ha, hbefore⟩
    obtain ⟨l₁, l₂, rfl⟩ := List.append_of_mem hmem
    have hnot : a ∉ l₁ := fun h => (List.nodup_append.mp hnd).2.2 a h a (by simp) rfl
    exact ⟨l₁, a, l₂, rfl, ha, fun c hc => hbefore c ((precedes_append_cons hnot).mpr hc)⟩

/-! ## Relations below the order -/

/-- A relation that points back along a list has no cycle. -/
theorem acyclic {l : List α} {r : α → α → Prop} (hr : ∀ a b, r a b → Precedes l b a)
    (a : α) : ¬Relation.TransGen r a a := by
  intro h
  have hback : ∀ {x y}, Relation.TransGen r x y → Precedes l y x := by
    intro x y hxy
    induction hxy with
    | single h₁ => exact hr _ _ h₁
    | tail _ h₁ ih => exact (hr _ _ h₁).trans ih
  exact Precedes.irrefl (hback h)

/-- Along a relation that points back in a list, every entry leads to one
that points nowhere. -/
theorem exists_terminal {l : List α} {r : α → α → Prop} (hr : ∀ a b, r a b → Precedes l b a)
    {a : α} (ha : a ∈ l) : ∃ b ∈ l, Relation.ReflTransGen r a b ∧ ∀ c, ¬r b c := by
  induction hn : l.idxOf a using Nat.strongRecOn generalizing a with
  | ind n ih =>
      by_cases hex : ∃ c, r a c
      · obtain ⟨c, hc⟩ := hex
        have hprec := hr a c hc
        obtain ⟨b, hb, hreach, hend⟩ := ih (l.idxOf c) (hn ▸ hprec.1) hprec.left_mem rfl
        exact ⟨b, hb, .head hc hreach, hend⟩
      · exact ⟨a, ha, .refl, not_exists.mp hex⟩

/-- Of the entries with a property one comes first. -/
theorem exists_first {l : List α} {P : α → Prop} {a : α} (ha : a ∈ l) (hP : P a) :
    ∃ b ∈ l, P b ∧ ∀ c, Precedes l c b → ¬P c := by
  induction hn : l.idxOf a using Nat.strongRecOn generalizing a with
  | ind n ih =>
      by_cases hex : ∃ c, Precedes l c a ∧ P c
      · obtain ⟨c, hc, hPc⟩ := hex
        exact ih (l.idxOf c) (hn ▸ hc.1) hc.left_mem hPc rfl
      · exact ⟨a, ha, hP, fun c hc hPc => hex ⟨c, hc, hPc⟩⟩

end Precedence
