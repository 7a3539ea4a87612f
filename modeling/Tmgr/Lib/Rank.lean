import Mathlib.Data.List.Sort
import Mathlib.Data.Finset.Card
import Mathlib.Data.Finset.Range
import Mathlib.Order.Bounds.Defs

/-!
# The q-th largest element of a list

`rank l q` sorts `l` in ascending order and takes the element at position
`l.length - q`: the largest value that at least `q` entries of the list
reach (`isGreatest_rank`). The two halves of that sentence are
`le_countP_rank` and `le_rank_of_countP`; together they are `le_rank_iff`.
-/

namespace Rank

variable {α : Type*} [LinearOrder α]

def rank [Inhabited α] (l : List α) (q : ℕ) : α :=
  (l.insertionSort (· ≤ ·)).getD (l.length - q) default

/-! ## Sorted lists -/

/-- The part of a sorted list from position `k` on reaches its value at `k`. -/
theorem le_of_mem_drop {l : List α} (hs : l.Pairwise (· ≤ ·)) {k : ℕ} (hk : k < l.length)
    {x : α} (hx : x ∈ l.drop k) : l[k] ≤ x := by
  rw [List.drop_eq_getElem_cons hk, List.mem_cons] at hx
  rcases hx with rfl | hx
  · exact le_refl _
  · have hp := hs.sublist (List.drop_sublist k l)
    rw [List.drop_eq_getElem_cons hk, List.pairwise_cons] at hp
    exact hp.1 x hx

theorem le_of_mem_take {l : List α} (hs : l.Pairwise (· ≤ ·)) {k : ℕ} (hk : k < l.length)
    {x : α} (hx : x ∈ l.take (k + 1)) : x ≤ l[k] := by
  rw [List.take_succ_eq_append_getElem hk, List.mem_append, List.mem_singleton] at hx
  rcases hx with hx | rfl
  · have hp := hs.sublist (List.take_sublist (k + 1) l)
    rw [List.take_succ_eq_append_getElem hk, List.pairwise_append] at hp
    exact hp.2.2 x hx _ (List.mem_singleton_self _)
  · exact le_refl _

theorem sub_le_countP {l : List α} (hs : l.Pairwise (· ≤ ·)) {k : ℕ} (hk : k < l.length) :
    l.length - k ≤ l.countP (l[k] ≤ ·) := by
  have hall : (l.drop k).countP (l[k] ≤ ·) = (l.drop k).length :=
    List.countP_eq_length.mpr fun x hx => by simpa using le_of_mem_drop hs hk hx
  rw [List.length_drop] at hall
  rw [← hall]
  exact (List.drop_sublist k l).countP_le

theorem countP_le_of_lt {l : List α} (hs : l.Pairwise (· ≤ ·)) {k : ℕ} (hk : k < l.length)
    {d : α} (hd : l[k] < d) : l.countP (d ≤ ·) ≤ l.length - (k + 1) := by
  have hnone : (l.take (k + 1)).countP (d ≤ ·) = 0 :=
    List.countP_eq_zero.mpr fun x hx => by
      simpa using lt_of_le_of_lt (le_of_mem_take hs hk hx) hd
  have hsplit : l.countP (d ≤ ·)
      = (l.take (k + 1)).countP (d ≤ ·) + (l.drop (k + 1)).countP (d ≤ ·) := by
    rw [← List.countP_append, List.take_append_drop]
  have hdrop := List.countP_le_length (p := (d ≤ ·)) (l := l.drop (k + 1))
  rw [List.length_drop] at hdrop
  omega

/-! ## The rank -/

/-- The position the rank is taken from is in range. -/
theorem getElem?_sorted [Inhabited α] {l : List α} {q : ℕ} (hq : 0 < q) (hql : q ≤ l.length) :
    (l.insertionSort (· ≤ ·))[l.length - q]? = some (rank l q) := by
  have hk : l.length - q < (l.insertionSort (· ≤ ·)).length := by
    rw [List.length_insertionSort]
    omega
  rw [rank, List.getD_eq_getElem?_getD, List.getElem?_eq_getElem hk, Option.getD_some]

/-- The rank is an entry of a sorted permutation of the list. -/
theorem exists_sorted [Inhabited α] (l : List α) {q : ℕ} (hq : 0 < q) (hql : q ≤ l.length) :
    ∃ s : List α, s.Perm l ∧ s.Pairwise (· ≤ ·)
      ∧ ∃ hk : l.length - q < s.length, rank l q = s[l.length - q] := by
  obtain ⟨hk, hr⟩ := List.getElem?_eq_some_iff.mp (getElem?_sorted hq hql)
  exact ⟨_, l.perm_insertionSort (· ≤ ·), l.pairwise_insertionSort (· ≤ ·), hk, hr.symm⟩

/-- At least `q` entries reach the q-th largest. -/
theorem le_countP_rank [Inhabited α] {l : List α} {q : ℕ} (hq : 0 < q)
    (hql : q ≤ l.length) : q ≤ l.countP (rank l q ≤ ·) := by
  obtain ⟨s, hperm, hs, hk, hr⟩ := exists_sorted l hq hql
  have hcount := sub_le_countP hs hk
  rw [hr, ← hperm.countP_eq]
  have := hperm.length_eq
  omega

/-- A value that at least `q` entries reach is at most the q-th largest. -/
theorem le_rank_of_countP [Inhabited α] {l : List α} {q : ℕ} (hq : 0 < q)
    (hql : q ≤ l.length) {d : α} (hd : q ≤ l.countP (d ≤ ·)) : d ≤ rank l q := by
  obtain ⟨s, hperm, hs, hk, hr⟩ := exists_sorted l hq hql
  by_contra hlt
  rw [hr, not_le] at hlt
  have hcount := countP_le_of_lt hs hk hlt
  rw [hperm.countP_eq] at hcount
  have := hperm.length_eq
  omega

theorem le_rank_iff [Inhabited α] {l : List α} {q : ℕ} (hq : 0 < q) (hql : q ≤ l.length) {d : α} :
    d ≤ rank l q ↔ q ≤ l.countP (d ≤ ·) := by
  refine ⟨fun h => le_trans (le_countP_rank hq hql) (List.countP_mono_left ?_),
    le_rank_of_countP hq hql⟩
  intro x _ hx
  simp only [decide_eq_true_eq] at hx ⊢
  exact le_trans h hx

/-- The q-th largest is the largest value that at least `q` entries reach. -/
theorem isGreatest_rank [Inhabited α] {l : List α} {q : ℕ} (hq : 0 < q) (hql : q ≤ l.length) :
    IsGreatest {d | q ≤ l.countP (d ≤ ·)} (rank l q) :=
  ⟨le_countP_rank hq hql, fun _ hd => le_rank_of_countP hq hql hd⟩

theorem rank_mem [Inhabited α] {l : List α} {q : ℕ} (hq : 0 < q) (hql : q ≤ l.length) :
    rank l q ∈ l := by
  obtain ⟨s, hperm, -, hk, hr⟩ := exists_sorted l hq hql
  rw [hr]
  exact hperm.mem_iff.mp (List.getElem_mem hk)

/-- One entry less, one less to reach it. -/
theorem rank_le_eraseIdx [Inhabited α] {l : List α} {i q : ℕ} (hi : i < l.length) (hq : 2 ≤ q)
    (hql : q ≤ l.length) : rank l q ≤ rank (l.eraseIdx i) (q - 1) := by
  have hlen := List.length_eraseIdx_of_lt hi
  refine le_rank_of_countP (by omega) (by omega) ?_
  have hcount := le_countP_rank (by omega) hql
  have hperm := (List.getElem_cons_eraseIdx_perm hi).countP_eq (rank l q ≤ ·)
  rw [List.countP_cons] at hperm
  split at hperm <;> omega

/-- Counting entries is counting positions. -/
theorem countP_eq_card {β : Type*} [Inhabited β] (l : List β) (p : β → Bool) :
    l.countP p = ((Finset.range l.length).filter fun i => p (l.getD i default)).card := by
  induction l using List.reverseRecOn with
  | nil => simp
  | append_singleton l x ih =>
      have hold : (Finset.range l.length).filter (fun i => p ((l ++ [x]).getD i default))
          = (Finset.range l.length).filter (fun i => p (l.getD i default)) := by
        refine Finset.filter_congr ?_
        intro i hi
        have hi' := Finset.mem_range.mp hi
        simp [List.getElem?_append_left hi']
      rw [List.countP_append, List.length_append, List.length_singleton,
        Finset.range_add_one, Finset.filter_insert, hold, ih]
      have hx : (l ++ [x]).getD l.length default = x := by simp
      rw [hx]
      by_cases hp : p x = true
      · rw [if_pos hp, Finset.card_insert_of_notMem (by simp)]
        simp [hp]
      · rw [if_neg hp]
        simp [hp]

end Rank
