import Mathlib

set_option autoImplicit false

/-!
# The middle element of a sorted window

`std::sort` and then `pbegin[(pend - pbegin) / 2]`: the element of rank `n / 2`
of a window of `n` values. An element of rank `i` is characterised by counting:
at least `n - i` values of the window are at or above it, and any `x` with that
many values at or above it is at most it. From this, a window that drops at most
its oldest value and takes in a value at or above the old middle has its middle
no lower than before.
-/

namespace Median

variable {α : Type} [LinearOrder α]

def middle (xs : List α) : Option α :=
  (xs.mergeSort (fun a b => decide (a ≤ b)))[xs.length / 2]?

def countAtLeast (x : α) (xs : List α) : Nat := xs.countP fun y => decide (x ≤ y)

section Rank

variable {s : List α}

theorem pairwise_mergeSort (xs : List α) :
    (xs.mergeSort (fun a b => decide (a ≤ b))).Pairwise (· ≤ ·) := by
  have sorted := @List.pairwise_mergeSort _ (fun a b => decide (a ≤ b))
    (fun a b c hab hbc => by simp only [decide_eq_true_eq] at *; exact le_trans hab hbc)
    (fun a b => by simpa using le_total a b) xs
  exact sorted.imp (by simp)

theorem countAtLeast_perm {xs ys : List α} (perm : xs.Perm ys) (x : α) :
    countAtLeast x xs = countAtLeast x ys :=
  perm.countP_eq _

theorem countAtLeast_le_length (x : α) (xs : List α) : countAtLeast x xs ≤ xs.length :=
  List.countP_le_length

theorem countAtLeast_take_add_drop (x : α) (xs : List α) (k : Nat) :
    countAtLeast x xs = countAtLeast x (xs.take k) + countAtLeast x (xs.drop k) := by
  rw [countAtLeast, countAtLeast, countAtLeast, ← List.countP_append, List.take_append_drop]

theorem countAtLeast_getElem (sorted : s.Pairwise (· ≤ ·)) {i : Nat} (hi : i < s.length) :
    s.length - i ≤ countAtLeast s[i] s := by
  have above : ∀ y ∈ s.drop i, s[i] ≤ y := by
    intro y member
    obtain ⟨j, hj, rfl⟩ := List.getElem_of_mem member
    rw [List.getElem_drop]
    rcases Nat.eq_zero_or_pos j with rfl | positive
    · simp
    · exact List.pairwise_iff_getElem.mp sorted i (i + j) hi (by simp at hj; omega) (by omega)
  have whole : countAtLeast s[i] (s.drop i) = (s.drop i).length := by
    rw [countAtLeast, List.countP_eq_length]
    simpa using above
  calc s.length - i = (s.drop i).length := by simp
    _ = countAtLeast s[i] (s.drop i) := whole.symm
    _ ≤ countAtLeast s[i] (s.take i) + countAtLeast s[i] (s.drop i) := Nat.le_add_left _ _
    _ = countAtLeast s[i] s := (countAtLeast_take_add_drop _ s i).symm

theorem le_getElem_of_countAtLeast (sorted : s.Pairwise (· ≤ ·)) {i : Nat} (hi : i < s.length)
    {x : α} (many : s.length - i ≤ countAtLeast x s) : x ≤ s[i] := by
  by_contra below
  rw [not_le] at below
  have under : ∀ y ∈ s.take (i + 1), ¬ x ≤ y := by
    intro y member
    obtain ⟨j, hj, rfl⟩ := List.getElem_of_mem member
    rw [List.getElem_take]
    have hj' : j ≤ i := by simp at hj; omega
    rcases Nat.lt_or_eq_of_le hj' with earlier | rfl
    · exact not_le.mpr (lt_of_le_of_lt (List.pairwise_iff_getElem.mp sorted j i _ hi earlier) below)
    · exact not_le.mpr below
  have none : countAtLeast x (s.take (i + 1)) = 0 := by
    rw [countAtLeast, List.countP_eq_zero]
    simpa using under
  have rest : countAtLeast x (s.drop (i + 1)) ≤ s.length - (i + 1) := by
    simpa using countAtLeast_le_length x (s.drop (i + 1))
  have split := countAtLeast_take_add_drop x s (i + 1)
  omega

end Rank

section Middle

variable {xs : List α} {m : α}

theorem middle_isSome (nonempty : xs ≠ []) : (middle xs).isSome := by
  have positive : 0 < xs.length := List.length_pos_iff.mpr nonempty
  rw [middle, List.getElem?_eq_getElem (by rw [List.length_mergeSort]; omega)]
  rfl

theorem middle_spec (found : middle xs = some m) :
    ∃ hi : xs.length / 2 < (xs.mergeSort (fun a b => decide (a ≤ b))).length,
      (xs.mergeSort (fun a b => decide (a ≤ b)))[xs.length / 2] = m := by
  simpa [middle, List.getElem?_eq_some_iff] using found

theorem mem_of_middle (found : middle xs = some m) : m ∈ xs := by
  obtain ⟨hi, rfl⟩ := middle_spec found
  exact (List.mergeSort_perm xs _).mem_iff.mp (List.getElem_mem hi)

theorem countAtLeast_middle (found : middle xs = some m) :
    xs.length - xs.length / 2 ≤ countAtLeast m xs := by
  obtain ⟨hi, rfl⟩ := middle_spec found
  have rank := countAtLeast_getElem (pairwise_mergeSort xs) hi
  rwa [List.length_mergeSort, countAtLeast_perm (List.mergeSort_perm xs _)] at rank

theorem le_middle (found : middle xs = some m) {x : α}
    (many : xs.length - xs.length / 2 ≤ countAtLeast x xs) : x ≤ m := by
  obtain ⟨hi, rfl⟩ := middle_spec found
  apply le_getElem_of_countAtLeast (pairwise_mergeSort xs) hi
  rwa [List.length_mergeSort, countAtLeast_perm (List.mergeSort_perm xs _)]

theorem middle_le_middle_cons_take {w : List α} {k : Nat} (short : w.length ≤ k + 1)
    (found : middle w = some m) {t : α} (above : m ≤ t) {m' : α}
    (found' : middle (t :: w.take k) = some m') : m ≤ m' := by
  apply le_middle found'
  have old := countAtLeast_middle found
  have kept : countAtLeast m w ≤ countAtLeast m (w.take k) + (w.length - k) := by
    have split := countAtLeast_take_add_drop m w k
    have dropped : countAtLeast m (w.drop k) ≤ w.length - k := by
      simpa using countAtLeast_le_length m (w.drop k)
    omega
  have added : countAtLeast m (t :: w.take k) = countAtLeast m (w.take k) + 1 := by
    simp [countAtLeast, above]
  have length : (t :: w.take k).length = min k w.length + 1 := by simp
  rw [added, length]
  omega

end Middle

end Median
