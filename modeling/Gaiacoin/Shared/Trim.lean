import Mathlib

set_option autoImplicit false

/-!
# Vectors kept without trailing defaults

A vector whose free slots hold a default value `d` (the values `p` recognises)
can be kept short by dropping the free slots at its end, and padded again when a
slot past the end is written. A list is canonical when nothing is left to drop
and every free slot holds `d` itself. For a canonical list, freeing one slot,
trimming, padding back to just past that slot and writing the old value again
gives the list back: this is what makes a trimmed record restorable from the
one value that was taken out of it.
-/

namespace Trim

variable {α : Type} (p : α → Bool) (d : α)

/-- `if (v.size() < k) v.resize(k)`: extend with the default, never shorten. -/
def padTo (k : Nat) (l : List α) : List α :=
  if l.length < k then l ++ List.replicate (k - l.length) d else l

structure Canonical (l : List α) : Prop where
  last : ∀ nonempty : l ≠ [], p (l.getLast nonempty) = false
  default : ∀ x ∈ l, p x = true → x = d

variable {p d}

theorem canonical_nil : Canonical p d [] :=
  ⟨fun nonempty => absurd rfl nonempty, by simp⟩

theorem canonical_rdropWhile {l : List α} (defaults : ∀ x ∈ l, p x = true → x = d) :
    Canonical p d (l.rdropWhile p) := by
  constructor
  · intro nonempty
    simpa using List.rdropWhile_last_not p l nonempty
  · intro x member free
    exact defaults x ((List.rdropWhile_prefix p l).subset member) free

theorem Canonical.eq_nil {l : List α} (canonical : Canonical p d l) (free : ∀ x ∈ l, p x = true) :
    l = [] := by
  by_contra nonempty
  have last := canonical.last nonempty
  rw [free _ (List.getLast_mem nonempty)] at last
  cases last

theorem Canonical.set_default {l : List α} (canonical : Canonical p d l) (n : Nat) :
    ∀ x ∈ l.set n d, p x = true → x = d := by
  intro x member free
  rcases List.mem_or_eq_of_mem_set member with old | new
  · exact canonical.default x old free
  · exact new

theorem padTo_rdropWhile_set {l : List α} (canonical : Canonical p d l) {n : Nat}
    (inside : n < l.length) :
    padTo d (n + 1) ((l.set n d).rdropWhile p) = l.set n d := by
  have split := List.rdropWhile_append_rtakeWhile (p := p) (l := l.set n d)
  have tail : (l.set n d).rtakeWhile p =
      List.replicate ((l.set n d).rtakeWhile p).length d := by
    apply List.eq_replicate_iff.2 ⟨rfl, fun x member => ?_⟩
    exact canonical.set_default n x ((List.rtakeWhile_suffix p _).subset member)
      (List.mem_rtakeWhile_imp member)
  have lengths := congrArg List.length split
  rw [List.length_append, List.length_set] at lengths
  by_cases ends : l.length = n + 1
  · -- the freed slot was the last one: what was trimmed is a run of defaults
    unfold padTo
    split
    next short =>
      conv_rhs => rw [← split, tail]
      congr 2
      omega
    next =>
      have empty : ((l.set n d).rtakeWhile p).length = 0 := by omega
      rw [List.length_eq_zero_iff] at empty
      simpa [empty] using split
  · -- a slot past `n` ends the list, so it is not free and nothing is trimmed
    have kept : (l.set n d).rtakeWhile p = [] := by
      apply List.rtakeWhile_eq_nil_iff.2
      intro nonempty
      have original : l ≠ [] := by
        intro empty
        simp [empty] at inside
      rw [List.getLast_eq_getElem, List.getElem_set]
      simp only [List.length_set]
      split
      next => omega
      next => simpa [List.getLast_eq_getElem] using canonical.last original
    rw [kept, List.append_nil] at split
    rw [split]
    unfold padTo
    simp only [List.length_set]
    split
    next => omega
    next => rfl

end Trim
