import Mathlib
import Gaiacoin.Shared.Bits

set_option autoImplicit false

/-!
# Hash trees that repeat a last node

A level of nodes is hashed in adjacent pairs, a last node without a partner with
itself, until one node is left (`levelRoot`). `root d` builds the same tree at
height `d` at once: the first `2 ^ d` leaves under the left child of a tree of
height `d + 1`, and the rest, or a copy of the left child when there is no rest,
under the right one.
-/

namespace HashTree

variable {α : Type} (H : α → α → α)

def pairUp : List α → List α
  | [] => []
  | [a] => [H a a]
  | a :: b :: rest => H a b :: pairUp rest

theorem length_pairUp : ∀ xs : List α, (pairUp H xs).length = (xs.length + 1) / 2
  | [] => by simp [pairUp]
  | [_] => by simp [pairUp]
  | _ :: _ :: rest => by
    simp only [pairUp, List.length_cons, length_pairUp rest]
    omega

theorem take_pairUp : ∀ (k : Nat) (xs : List α), (pairUp H xs).take k = pairUp H (xs.take (2 * k))
  | 0, _ => by simp [pairUp]
  | _ + 1, [] => rfl
  | k + 1, [_] => by simp [pairUp, show 2 * (k + 1) = 2 * k + 1 + 1 by ring]
  | k + 1, a :: b :: rest => by
    rw [show 2 * (k + 1) = 2 * k + 1 + 1 by ring]
    simp only [pairUp, List.take_succ_cons, take_pairUp k rest]

theorem drop_pairUp : ∀ (k : Nat) (xs : List α), (pairUp H xs).drop k = pairUp H (xs.drop (2 * k))
  | 0, _ => rfl
  | _ + 1, [] => rfl
  | k + 1, [_] => by simp [pairUp, show 2 * (k + 1) = 2 * k + 1 + 1 by ring]
  | k + 1, a :: b :: rest => by
    rw [show 2 * (k + 1) = 2 * k + 1 + 1 by ring]
    simp only [pairUp, List.drop_succ_cons, drop_pairUp k rest]

def levelRoot (xs : List α) : Option α :=
  match xs with
  | [] => none
  | [a] => some a
  | a :: b :: rest => levelRoot (pairUp H (a :: b :: rest))
termination_by xs.length
decreasing_by
  rw [length_pairUp]
  simp only [List.length_cons]
  omega

def block (xs : List α) (start level : Nat) : List α := (xs.drop start).take (2 ^ level)

theorem length_block_of_le {xs : List α} {start level : Nat} (within : start + 2 ^ level ≤ xs.length) :
    (block xs start level).length = 2 ^ level := by
  rw [block, List.length_take, List.length_drop]
  omega

theorem block_ne_nil {xs : List α} {start : Nat} (inside : start < xs.length) (level : Nat) :
    block xs start level ≠ [] := by
  rw [block, ne_eq, List.take_eq_nil_iff, List.drop_eq_nil_iff]
  have := Nat.two_pow_pos level
  omega

theorem length_block_lt {xs : List α} {start level : Nat} (short : xs.length < start + 2 ^ level) :
    (block xs start level).length < 2 ^ level := by
  rw [block, List.length_take, List.length_drop]
  have := Nat.two_pow_pos level
  omega

theorem block_of_le {xs : List α} {start level : Nat} (within : xs.length ≤ start + 2 ^ level) :
    block xs start level = xs.drop start := by
  have := Nat.two_pow_pos level
  rw [block, List.take_of_length_le (by rw [List.length_drop]; omega)]

theorem block_zero {xs : List α} {start : Nat} {x : α} (leaf : xs[start]? = some x) :
    block xs start 0 = [x] := by
  rw [block, Nat.pow_zero, List.take_one, List.head?_drop, leaf]
  rfl

theorem block_succ (xs : List α) (start level : Nat) :
    block xs start (level + 1) = block xs start level ++ block xs (start + 2 ^ level) level := by
  rw [block, block, block, Nat.pow_succ, Nat.mul_two, List.take_add, List.drop_drop, Nat.add_comm]

def climbStep : α × Nat → α → α × Nat
  | (h, index), sibling => (if index % 2 = 1 then H sibling h else H h sibling, index / 2)

def climb (leaf : α) (siblings : List α) (index : Nat) : α :=
  (siblings.foldl (climbStep H) (leaf, index)).1

theorem snd_foldl_climbStep : ∀ (siblings : List α) (h : α) (index : Nat),
    (siblings.foldl (climbStep H) (h, index)).2 = index / 2 ^ siblings.length
  | [], _, _ => by simp
  | _ :: rest, _, index => by
    rw [List.foldl_cons, climbStep, snd_foldl_climbStep rest, List.length_cons, Nat.pow_succ',
      Nat.div_div_eq_div_mul]

theorem fst_foldl_climbStep_congr : ∀ (siblings : List α) (h : α) (i j : Nat),
    i % 2 ^ siblings.length = j % 2 ^ siblings.length →
    (siblings.foldl (climbStep H) (h, i)).1 = (siblings.foldl (climbStep H) (h, j)).1
  | [], _, _, _, _ => rfl
  | _ :: rest, h, i, j, same => by
    rw [List.length_cons, Nat.pow_succ'] at same
    have low : i % 2 = j % 2 := by
      rw [← Nat.mod_mod_of_dvd i (Dvd.intro _ rfl), same, Nat.mod_mod_of_dvd j (Dvd.intro _ rfl)]
    have high : i / 2 % 2 ^ rest.length = j / 2 % 2 ^ rest.length := by
      rw [← Nat.mod_mul_right_div_self, same, Nat.mod_mul_right_div_self]
    rw [List.foldl_cons, List.foldl_cons, climbStep, climbStep, low]
    exact fst_foldl_climbStep_congr rest _ _ _ high

theorem climb_congr (leaf : α) (siblings : List α) {i j : Nat}
    (same : i % 2 ^ siblings.length = j % 2 ^ siblings.length) :
    climb H leaf siblings i = climb H leaf siblings j :=
  fst_foldl_climbStep_congr H siblings leaf i j same

theorem climb_append (leaf : α) (siblings : List α) (sibling : α) (index : Nat) :
    climb H leaf (siblings ++ [sibling]) index =
      (if index / 2 ^ siblings.length % 2 = 1 then H sibling (climb H leaf siblings index)
        else H (climb H leaf siblings index) sibling) := by
  have split : siblings.foldl (climbStep H) (leaf, index) =
      (climb H leaf siblings index, index / 2 ^ siblings.length) :=
    Prod.ext rfl (snd_foldl_climbStep H siblings leaf index)
  rw [climb, List.foldl_append, List.foldl_cons, List.foldl_nil, split, climbStep]

def start (count level : Nat) : Nat := count / 2 ^ (level + 1) * 2 ^ (level + 1)

def kept (xs : List α) (count level : Nat) : List α := block xs (start count level) level

theorem start_add_le {count level : Nat} (set : count.testBit level = true) :
    start count level + 2 ^ level ≤ count := by
  have high : 2 ^ level ≤ count % 2 ^ (level + 1) := by
    by_contra low
    have clear := Nat.testBit_lt_two_pow (Nat.lt_of_not_le low)
    rw [Nat.testBit_mod_two_pow, set] at clear
    simp at clear
  have split := Nat.mod_add_div count (2 ^ (level + 1))
  rw [start, Nat.mul_comm]
  omega

section Push

variable {d level : Nat} (aligned : d % 2 ^ (level + 1) = 0)
include aligned

theorem start_add_two_pow_self : start (d + 2 ^ level) level = d := by
  obtain ⟨q, rfl⟩ := Nat.dvd_of_mod_eq_zero aligned
  have small : 2 ^ level < 2 ^ (level + 1) := Nat.pow_lt_pow_succ (by norm_num)
  rw [start, Nat.mul_add_div (Nat.two_pow_pos _), Nat.div_eq_of_lt small, Nat.add_zero, Nat.mul_comm]

theorem start_add_two_pow {i : Nat} (above : level < i) : start (d + 2 ^ level) i = start d i := by
  have split : 2 ^ (i + 1) = 2 ^ (level + 1) * 2 ^ (i - level) := by
    rw [← Nat.pow_add]
    congr 1
    omega
  obtain ⟨q, rfl⟩ := Nat.dvd_of_mod_eq_zero aligned
  have small : 2 ^ level < 2 ^ (level + 1) := Nat.pow_lt_pow_succ (by norm_num)
  rw [start, start, split, ← Nat.div_div_eq_div_mul, ← Nat.div_div_eq_div_mul,
    Nat.mul_add_div (Nat.two_pow_pos _), Nat.div_eq_of_lt small, Nat.add_zero,
    Nat.mul_div_cancel_left _ (Nat.two_pow_pos _)]

theorem kept_add_two_pow_self (xs : List α) : kept xs (d + 2 ^ level) level = block xs d level := by
  rw [kept, start_add_two_pow_self aligned]

theorem kept_add_two_pow (xs : List α) {i : Nat} (set : d.testBit i = true) :
    kept xs (d + 2 ^ level) i = kept xs d i := by
  rw [kept, kept, start_add_two_pow aligned (Bits.lt_of_testBit_of_aligned aligned set)]

end Push

def PairInjective : Prop := ∀ a b c d, H a b = H c d → a = c ∧ b = d

theorem halves_of_not_le {d : Nat} {zs : List α} (fits : zs.length ≤ 2 ^ (d + 1))
    (long : ¬zs.length ≤ 2 ^ d) :
    (zs.take (2 ^ d)).length = 2 ^ d ∧ zs.drop (2 ^ d) ≠ [] ∧ (zs.drop (2 ^ d)).length ≤ 2 ^ d := by
  refine ⟨by simp; omega, by simp; omega, ?_⟩
  simp only [List.length_drop]
  rw [Nat.pow_succ] at fits
  omega

section Trees

variable [Inhabited α]

def root : Nat → List α → α
  | 0, xs => xs.headD default
  | d + 1, xs =>
    if xs.length ≤ 2 ^ d then H (root d xs) (root d xs)
    else H (root d (xs.take (2 ^ d))) (root d (xs.drop (2 ^ d)))

def branch : Nat → List α → Nat → List α
  | 0, _, _ => []
  | d + 1, xs, p =>
    if xs.length ≤ 2 ^ d then branch d xs p ++ [root H d xs]
    else if p < 2 ^ d then branch d (xs.take (2 ^ d)) p ++ [root H d (xs.drop (2 ^ d))]
    else branch d (xs.drop (2 ^ d)) (p - 2 ^ d) ++ [root H d (xs.take (2 ^ d))]

section Level

variable {d : Nat} {xs : List α}

theorem root_of_le (short : xs.length ≤ 2 ^ d) :
    root H (d + 1) xs = H (root H d xs) (root H d xs) := by
  rw [root, if_pos short]

theorem root_of_not_le (long : ¬xs.length ≤ 2 ^ d) :
    root H (d + 1) xs = H (root H d (xs.take (2 ^ d))) (root H d (xs.drop (2 ^ d))) := by
  rw [root, if_neg long]

theorem branch_of_le (short : xs.length ≤ 2 ^ d) (p : Nat) :
    branch H (d + 1) xs p = branch H d xs p ++ [root H d xs] := by
  rw [branch, if_pos short]

theorem branch_of_lt (long : ¬xs.length ≤ 2 ^ d) {p : Nat} (left : p < 2 ^ d) :
    branch H (d + 1) xs p = branch H d (xs.take (2 ^ d)) p ++ [root H d (xs.drop (2 ^ d))] := by
  rw [branch, if_neg long, if_pos left]

theorem branch_of_add (long : ¬xs.length ≤ 2 ^ d) (p : Nat) :
    branch H (d + 1) xs (2 ^ d + p) =
      branch H d (xs.drop (2 ^ d)) p ++ [root H d (xs.take (2 ^ d))] := by
  rw [branch, if_neg long, if_neg (by omega), Nat.add_sub_cancel_left]

theorem root_succ_eq (d : Nat) (xs : List α) :
    root H (d + 1) xs =
      H (root H d (xs.take (2 ^ d))) (root H d (if xs.length ≤ 2 ^ d then xs else xs.drop (2 ^ d))) := by
  rw [root]
  split_ifs with short
  · rw [List.take_of_length_le short]
  · rfl

end Level

section Append

variable {d : Nat} {xs ys : List α} (full : xs.length = 2 ^ d) (rest : ys ≠ [])
include full rest

omit [Inhabited α] in
theorem not_le_of_append : ¬(xs ++ ys).length ≤ 2 ^ d := by
  rw [List.length_append, full]
  have := List.length_pos_of_ne_nil rest
  omega

theorem root_append :
    root H (d + 1) (xs ++ ys) = H (root H d xs) (root H d ys) := by
  rw [root_of_not_le H (not_le_of_append full rest), ← full, List.take_left, List.drop_left]

theorem branch_append_left {p : Nat} (inside : p < 2 ^ d) :
    branch H (d + 1) (xs ++ ys) p = branch H d xs p ++ [root H d ys] := by
  rw [branch_of_lt H (not_le_of_append full rest) inside, ← full, List.take_left, List.drop_left]

theorem branch_append_right (p : Nat) :
    branch H (d + 1) (xs ++ ys) (2 ^ d + p) = branch H d ys p ++ [root H d xs] := by
  rw [branch_of_add H (not_le_of_append full rest), ← full, List.take_left, List.drop_left]

end Append

theorem root_pairUp : ∀ (d : Nat) (xs : List α), xs ≠ [] → xs.length ≤ 2 ^ (d + 1) →
    root H (d + 1) xs = root H d (pairUp H xs)
  | 0, [_], _, _ => rfl
  | 0, [_, _], _, _ => rfl
  | 0, [], nonempty, _ => absurd rfl nonempty
  | 0, _ :: _ :: _ :: _, _, short => by simp at short
  | d + 1, xs, nonempty, short => by
    have paired := length_pairUp H xs
    have positive := List.length_pos_of_ne_nil nonempty
    have double : 2 ^ (d + 1) = 2 * 2 ^ d := Nat.pow_succ'
    have double' : 2 ^ (d + 1 + 1) = 2 * 2 ^ (d + 1) := Nat.pow_succ'
    by_cases low : xs.length ≤ 2 ^ (d + 1)
    · -- the right child repeats the left one on both levels
      have lowPair : (pairUp H xs).length ≤ 2 ^ d := by omega
      rw [root_of_le H low, root_of_le H lowPair, root_pairUp d xs nonempty low]
    · have highPair : ¬(pairUp H xs).length ≤ 2 ^ d := by omega
      rw [root_of_not_le H low, root_of_not_le H highPair, take_pairUp, drop_pairUp, ← double,
        root_pairUp d _ (by simp [nonempty]) (by simp),
        root_pairUp d _ (by simp; omega) (by simp; omega)]

theorem clog_eq_of_bounds {n level : Nat} (upper : n ≤ 2 ^ level) (lower : 2 ^ level < 2 * n) :
    Nat.clog 2 n = level := by
  apply le_antisymm ((Nat.clog_le_iff_le_pow (by norm_num)).2 upper)
  by_contra below
  obtain ⟨m, rfl⟩ : ∃ m, level = m + 1 := ⟨level - 1, by omega⟩
  have fewer : n ≤ 2 ^ m := (Nat.clog_le_iff_le_pow (by norm_num)).1 (by omega)
  rw [Nat.pow_succ] at lower
  omega

theorem levelRoot_eq_root (xs : List α) (nonempty : xs ≠ []) :
    levelRoot H xs = some (root H (Nat.clog 2 xs.length) xs) := by
  fun_induction levelRoot H xs with
  | case1 => exact absurd rfl nonempty
  | case2 a => rfl
  | case3 a b rest ih =>
    -- one level up halves the leaves and lowers the height by one
    have lower : Nat.clog 2 (a :: b :: rest).length =
        Nat.clog 2 (pairUp H (a :: b :: rest)).length + 1 := by
      rw [length_pairUp, Nat.clog_of_two_le (by norm_num) (by simp),
        show (a :: b :: rest).length + 2 - 1 = (a :: b :: rest).length + 1 by omega]
    have fits := Nat.le_pow_clog (by norm_num : 1 < 2) (a :: b :: rest).length
    rw [ih (by simp [pairUp]), lower, root_pairUp H _ _ (by simp) (by rwa [← lower])]

theorem length_branch : ∀ (d : Nat) (xs : List α) (p : Nat), (branch H d xs p).length = d
  | 0, _, _ => rfl
  | d + 1, xs, p => by
    rw [branch]
    split_ifs <;> simp [length_branch d]

theorem climb_branch : ∀ (d : Nat) (xs : List α) (p : Nat) (inside : p < xs.length),
    xs.length ≤ 2 ^ d → climb H xs[p] (branch H d xs p) p = root H d xs
  | 0, xs, p, inside, short => by
    have first : p = 0 := by simp at short; omega
    subst first
    cases xs with
    | nil => simp at inside
    | cons x rest => rfl
  | d + 1, xs, p, inside, short => by
    by_cases low : xs.length ≤ 2 ^ d
    · -- the right child is a copy: the leaf is on the left
      rw [branch_of_le H low, climb_append, length_branch, climb_branch d xs p inside low,
        root_of_le H low, Nat.div_eq_of_lt (by omega), if_neg (by simp)]
    · have fits : (xs.drop (2 ^ d)).length ≤ 2 ^ d := by
        simp only [List.length_drop]
        rw [Nat.pow_succ] at short
        omega
      by_cases left : p < 2 ^ d
      · have inTake : p < (xs.take (2 ^ d)).length := by simp; omega
        have leaf : xs[p] = (xs.take (2 ^ d))[p] := (List.getElem_take ..).symm
        rw [branch_of_lt H low left, climb_append, length_branch, leaf,
          climb_branch d _ p inTake (by simp), root_of_not_le H low, Nat.div_eq_of_lt left,
          if_neg (by simp)]
      · obtain ⟨q, rfl⟩ : ∃ q, p = 2 ^ d + q := ⟨p - 2 ^ d, by omega⟩
        have inDrop : q < (xs.drop (2 ^ d)).length := by simp; omega
        have leaf : xs[2 ^ d + q] = (xs.drop (2 ^ d))[q] := (List.getElem_drop ..).symm
        have upper : (2 ^ d + q) / 2 ^ d % 2 = 1 := by
          rw [Nat.add_div_left _ (Nat.two_pow_pos d), Nat.div_eq_of_lt (by simp at inDrop; omega)]
        have lowBits : (2 ^ d + q) % 2 ^ (branch H d (xs.drop (2 ^ d)) q).length =
            q % 2 ^ (branch H d (xs.drop (2 ^ d)) q).length := by
          rw [length_branch, Nat.add_mod_left]
        rw [branch_of_add H low, climb_append, length_branch, leaf, climb_congr H _ _ lowBits,
          climb_branch d _ q inDrop fits, root_of_not_le H low, upper, if_pos rfl]

section Collision

variable {H}

theorem root_ne_of_height_lt (injective : PairInjective H) : ∀ (d k : Nat) (xs ys : List α),
    (∀ a b, H a b ∉ xs) → xs ≠ [] → root H d xs ≠ root H (d + k + 1) ys
  | 0, k, x :: rest, ys, notHash, _ => by
    rw [root_succ_eq]
    intro same
    exact notHash _ _ (by rw [← same]; exact List.mem_cons_self)
  | 0, _, [], _, _, nonempty => absurd rfl nonempty
  | d + 1, k, xs, ys, notHash, nonempty => by
    rw [show d + 1 + k + 1 = d + k + 1 + 1 by omega, root_succ_eq, root_succ_eq]
    intro same
    exact root_ne_of_height_lt injective d k (xs.take (2 ^ d)) (ys.take (2 ^ (d + k + 1)))
      (fun a b inTake => notHash a b (List.mem_of_mem_take inTake))
      (by simp [nonempty]) (injective _ _ _ _ same).1

end Collision

section Twins

variable [DecidableEq α]

def twins : Nat → List α → Bool
  | 0, _ => false
  | d + 1, xs =>
    if xs.length ≤ 2 ^ d then twins d xs
    else twins d (xs.take (2 ^ d)) || twins d (xs.drop (2 ^ d)) ||
      (xs.length == 2 ^ (d + 1) && root H d (xs.take (2 ^ d)) == root H d (xs.drop (2 ^ d)))

theorem twins_of_le {d : Nat} {xs : List α} (short : xs.length ≤ 2 ^ d) :
    twins H (d + 1) xs = twins H d xs := by
  rw [twins, if_pos short]

theorem twins_append {d : Nat} {xs ys : List α} (full : xs.length = 2 ^ d) (rest : ys ≠ []) :
    twins H (d + 1) (xs ++ ys) =
      (twins H d xs || twins H d ys || (ys.length == 2 ^ d && root H d xs == root H d ys)) := by
  have complete : ((xs ++ ys).length == 2 ^ (d + 1)) = (ys.length == 2 ^ d) := by
    rw [List.length_append, full, Nat.pow_succ]
    exact Bool.eq_iff_iff.2 (by simp; omega)
  rw [twins, if_neg (not_le_of_append full rest), complete, ← full, List.take_left, List.drop_left]

variable {H}

theorem twins_of_root_eq_copy (injective : PairInjective H) {d : Nat}
    (below : ∀ xs ys : List α, xs ≠ [] → ys ≠ [] → xs.length ≤ 2 ^ d → ys.length ≤ 2 ^ d → xs ≠ ys →
      root H d xs = root H d ys → twins H d xs = true ∨ twins H d ys = true)
    {xs ys : List α} (low : xs.length ≤ 2 ^ d) (short : ys.length ≤ 2 ^ (d + 1))
    (long : ¬ys.length ≤ 2 ^ d) (same : root H (d + 1) xs = root H (d + 1) ys) :
    twins H (d + 1) ys = true := by
  -- the right child of `xs` repeats its left one, so the children of `ys` agree
  obtain ⟨full, rest, fits⟩ := halves_of_not_le short long
  have split := List.take_append_drop (2 ^ d) ys
  rw [root_of_le H low, ← split, root_append H full rest] at same
  obtain ⟨left, right⟩ := injective _ _ _ _ same
  rw [← split, twins_append H full rest]
  by_cases complete : (ys.drop (2 ^ d)).length = 2 ^ d
  · simp [complete, ← left, ← right]
  · have differ : ys.take (2 ^ d) ≠ ys.drop (2 ^ d) :=
      fun equal => complete (by rw [← equal, full])
    have leftNonempty : ys.take (2 ^ d) ≠ [] :=
      List.ne_nil_of_length_pos (by rw [full]; exact Nat.two_pow_pos d)
    rcases below _ _ leftNonempty rest full.le fits differ (left.symm.trans right) with
      twin | twin <;> simp [twin]

theorem twins_of_root_eq (injective : PairInjective H) : ∀ (d : Nat) (xs ys : List α),
    xs ≠ [] → ys ≠ [] → xs.length ≤ 2 ^ d → ys.length ≤ 2 ^ d → xs ≠ ys →
    root H d xs = root H d ys → twins H d xs = true ∨ twins H d ys = true
  | 0, xs, ys, nonempty, nonempty', short, short', distinct, same => by
    -- one leaf each, and they are the root
    match xs, ys with
    | [x], [y] =>
      simp only [root, List.headD_cons] at same
      exact absurd (by rw [same]) distinct
    | [], _ => exact absurd rfl nonempty
    | _, [] => exact absurd rfl nonempty'
    | _ :: _ :: _, _ => simp at short
    | _, _ :: _ :: _ => simp at short'
  | d + 1, xs, ys, nonempty, nonempty', short, short', distinct, same => by
    by_cases low : xs.length ≤ 2 ^ d <;> by_cases low' : ys.length ≤ 2 ^ d
    · rw [root_of_le H low, root_of_le H low'] at same
      rw [twins_of_le H low, twins_of_le H low']
      exact twins_of_root_eq injective d xs ys nonempty nonempty' low low' distinct
        (injective _ _ _ _ same).1
    · exact .inr (twins_of_root_eq_copy injective (twins_of_root_eq injective d) low short' low' same)
    · exact .inl (twins_of_root_eq_copy injective (twins_of_root_eq injective d) low' short low same.symm)
    · -- both split: the children agree pairwise, and one pair of them differs
      obtain ⟨full, rest, fits⟩ := halves_of_not_le short low
      obtain ⟨full', rest', fits'⟩ := halves_of_not_le short' low'
      have split := List.take_append_drop (2 ^ d) xs
      have split' := List.take_append_drop (2 ^ d) ys
      rw [← split, ← split', root_append H full rest, root_append H full' rest'] at same
      obtain ⟨left, right⟩ := injective _ _ _ _ same
      rw [← split, ← split', twins_append H full rest, twins_append H full' rest']
      by_cases sameLeft : xs.take (2 ^ d) = ys.take (2 ^ d)
      · have differ : xs.drop (2 ^ d) ≠ ys.drop (2 ^ d) := by
          intro equal
          apply distinct
          rw [← split, ← split', sameLeft, equal]
        rcases twins_of_root_eq injective d _ _ rest rest' fits fits' differ right with
          twin | twin <;> simp [twin]
      · rcases twins_of_root_eq injective d _ _ (by simp; omega) (by simp; omega) full.le full'.le
          sameLeft left with twin | twin <;> simp [twin]

end Twins

section Forest

/-- Every subtree kept for a set bit of `count` has its root in `slots`. -/
def Stored (xs : List α) (count : Nat) (slots : Nat → α) : Prop :=
  ∀ level, count.testBit level = true → slots level = root H level (kept xs count level)

def ForestTwins [DecidableEq α] (xs : List α) (count : Nat) : Prop :=
  ∃ level, count.testBit level = true ∧ twins H level (kept xs count level) = true

def InForest (xs : List α) (count p level : Nat) (br : List α) : Prop :=
  count.testBit level = true ∧ start count level ≤ p ∧ p < start count level + 2 ^ level ∧
    br = branch H level (kept xs count level) (p - start count level)

variable {xs : List α} {d level : Nat} (aligned : d % 2 ^ (level + 1) = 0)
include aligned

theorem stored_add_two_pow_iff (slots : Nat → α) :
    Stored H xs (d + 2 ^ level) slots ↔
      Stored H xs d slots ∧ slots level = root H level (block xs d level) := by
  constructor
  · intro stored
    refine ⟨fun i set => ?_, ?_⟩
    · have kept := stored i ((Bits.testBit_add_two_pow_iff aligned i).2 (.inr set))
      rwa [kept_add_two_pow aligned xs set] at kept
    · have top := stored level ((Bits.testBit_add_two_pow_iff aligned level).2 (.inl rfl))
      rwa [kept_add_two_pow_self aligned] at top
  · rintro ⟨stored, top⟩ i set
    rcases (Bits.testBit_add_two_pow_iff aligned i).1 set with rfl | below
    · rw [kept_add_two_pow_self aligned]
      exact top
    · rw [kept_add_two_pow aligned xs below]
      exact stored i below

theorem forestTwins_add_two_pow_iff [DecidableEq α] :
    ForestTwins H xs (d + 2 ^ level) ↔ ForestTwins H xs d ∨ twins H level (block xs d level) = true := by
  constructor
  · rintro ⟨i, set, twin⟩
    rcases (Bits.testBit_add_two_pow_iff aligned i).1 set with rfl | below
    · rw [kept_add_two_pow_self aligned] at twin
      exact .inr twin
    · rw [kept_add_two_pow aligned xs below] at twin
      exact .inl ⟨i, below, twin⟩
  · rintro (⟨i, set, twin⟩ | twin)
    · refine ⟨i, (Bits.testBit_add_two_pow_iff aligned i).2 (.inr set), ?_⟩
      rwa [kept_add_two_pow aligned xs set]
    · refine ⟨level, (Bits.testBit_add_two_pow_iff aligned level).2 (.inl rfl), ?_⟩
      rwa [kept_add_two_pow_self aligned]

theorem inForest_add_two_pow_iff {p : Nat} (before : p < d) (i : Nat) (br : List α) :
    InForest H xs (d + 2 ^ level) p i br ↔ InForest H xs d p i br := by
  constructor
  · rintro ⟨set, low, high, rfl⟩
    rcases (Bits.testBit_add_two_pow_iff aligned i).1 set with rfl | below
    · rw [start_add_two_pow_self aligned] at low
      omega
    · have above := Bits.lt_of_testBit_of_aligned aligned below
      rw [start_add_two_pow aligned above] at low high ⊢
      rw [kept_add_two_pow aligned xs below]
      exact ⟨below, low, high, rfl⟩
  · rintro ⟨set, low, high, rfl⟩
    have above := Bits.lt_of_testBit_of_aligned aligned set
    refine ⟨(Bits.testBit_add_two_pow_iff aligned i).2 (.inr set), ?_, ?_, ?_⟩ <;>
      rw [start_add_two_pow aligned above]
    · exact low
    · exact high
    · rw [kept_add_two_pow aligned xs set]

theorem inForest_add_two_pow_self {p : Nat} (low : d ≤ p) (high : p < d + 2 ^ level) :
    InForest H xs (d + 2 ^ level) p level (branch H level (block xs d level) (p - d)) := by
  refine ⟨(Bits.testBit_add_two_pow_iff aligned level).2 (.inl rfl), ?_, ?_, ?_⟩ <;>
    rw [start_add_two_pow_self aligned]
  · exact low
  · exact high
  · rw [kept_add_two_pow_self aligned]

theorem ne_of_inForest_add_two_pow {p i : Nat} {br : List α} (before : p < d)
    (inside : InForest H xs (d + 2 ^ level) p i br) : i ≠ level := by
  rintro rfl
  have starts := inside.2.1
  rw [start_add_two_pow_self aligned] at starts
  omega

theorem eq_of_inForest_add_two_pow {p i : Nat} {br : List α} (low : d ≤ p)
    (inside : InForest H xs (d + 2 ^ level) p i br) :
    i = level ∧ br = branch H level (block xs d level) (p - d) := by
  obtain ⟨set, from_, high, rfl⟩ := inside
  rcases (Bits.testBit_add_two_pow_iff aligned i).1 set with rfl | below
  · rw [kept_add_two_pow_self aligned, start_add_two_pow_self aligned]
    exact ⟨rfl, rfl⟩
  · -- the older subtrees end before `d`
    have ends := start_add_le below
    rw [start_add_two_pow aligned (Bits.lt_of_testBit_of_aligned aligned below)] at high
    omega

end Forest

end Trees

end HashTree
