import Mathlib

set_option autoImplicit false

/-!
# Byte readers and their writers

A reader consumes a prefix of a byte string and returns the value it read
together with the unread rest, or fails with a message. A writer and a reader
form a codec when reading what was written gives the value back (`Inverse`),
and the codec is canonical when every accepted input is exactly what the
writer produces for the value read (`Exact`). Both properties are closed under
sequencing and counted repetition, which is how wire formats are built.
-/

namespace Wire

def Reader (α : Type) : Type := List UInt8 → Except String (α × List UInt8)

namespace Reader

variable {α β : Type}

protected def pure (a : α) : Reader α := fun input => .ok (a, input)

protected def bind (r : Reader α) (f : α → Reader β) : Reader β := fun input =>
  match r input with
  | .error message => .error message
  | .ok (a, rest) => f a rest

instance : Monad Reader where
  pure := Reader.pure
  bind := Reader.bind

def fail (message : String) : Reader α := fun _ => .error message

/-- Exactly `n` bytes, or the failure `short` when fewer are left. -/
def bytes (short : String) (n : Nat) : Reader (List UInt8) := fun input =>
  if n ≤ input.length then .ok (input.take n, input.drop n) else .error short

def many (r : Reader α) : Nat → Reader (List α)
  | 0 => pure []
  | n + 1 => do
      let a ← r
      let as ← many r n
      pure (a :: as)

@[simp] theorem pure_apply (a : α) (input : List UInt8) :
    (pure a : Reader α) input = .ok (a, input) := rfl

@[simp] theorem fail_apply (message : String) (input : List UInt8) :
    (fail message : Reader α) input = .error message := rfl

theorem bind_apply (r : Reader α) (f : α → Reader β) (input : List UInt8) :
    (r >>= f) input = match r input with
      | .error message => .error message
      | .ok (a, rest) => f a rest := rfl

theorem bind_of_apply {r : Reader α} {f : α → Reader β} {input : List UInt8}
    {a : α} {rest : List UInt8} (h : r input = .ok (a, rest)) :
    (r >>= f) input = f a rest := by
  simp [bind_apply, h]

theorem bind_eq_some {r : Reader α} {f : α → Reader β} {input : List UInt8}
    {b : β} {rest : List UInt8} (h : (r >>= f) input = .ok (b, rest)) :
    ∃ a middle, r input = .ok (a, middle) ∧ f a middle = .ok (b, rest) := by
  rw [bind_apply] at h
  match hr : r input, h with
  | .ok (a, middle), h => exact ⟨a, middle, rfl, h⟩

theorem bytes_append (short : String) (xs rest : List UInt8) :
    bytes short xs.length (xs ++ rest) = .ok (xs, rest) := by
  simp [bytes]

theorem bytes_eq_ok {short : String} {n : Nat} {input xs rest : List UInt8}
    (h : bytes short n input = .ok (xs, rest)) : xs.length = n ∧ xs ++ rest = input := by
  unfold bytes at h
  split at h
  next fits =>
    cases h
    exact ⟨by simp [fits], List.take_append_drop n input⟩
  next => cases h

theorem bytes_then_bytes (short : String) (a b : Nat) (input : List UInt8) :
    (do let xs ← bytes short a; let ys ← bytes short b; pure (xs ++ ys)) input =
      bytes short (a + b) input := by
  rw [bind_apply]
  by_cases first : a ≤ input.length
  · simp only [bytes, first, if_true, bind_apply, List.length_drop]
    by_cases second : b ≤ input.length - a
    · have both : a + b ≤ input.length := by omega
      simp only [second, both, if_true, pure_apply, List.drop_drop, Except.ok.injEq,
        Prod.mk.injEq, and_true]
      rw [← List.take_append_drop a (input.take (a + b)), List.take_take, List.drop_take,
        Nat.min_eq_left (by omega)]
      simp
    · have neither : ¬ a + b ≤ input.length := by omega
      simp [second, neither]
  · have neither : ¬ a + b ≤ input.length := by omega
    simp [bytes, first, neither]

@[simp] theorem many_zero (r : Reader α) : many r 0 = pure [] := rfl

theorem many_succ (r : Reader α) (n : Nat) :
    many r (n + 1) = (do let a ← r; let as ← many r n; pure (a :: as)) := rfl

end Reader

def leBytes : Nat → Nat → List UInt8
  | 0, _ => []
  | width + 1, value => UInt8.ofNat value :: leBytes width (value / 256)

def readLE : List UInt8 → Nat
  | [] => 0
  | b :: bs => b.toNat + 256 * readLE bs

@[simp] theorem length_leBytes (width value : Nat) : (leBytes width value).length = width := by
  induction width generalizing value <;> simp [leBytes, *]

theorem readLE_leBytes (width value : Nat) (fits : value < 256 ^ width) :
    readLE (leBytes width value) = value := by
  induction width generalizing value with
  | zero => simp_all [leBytes, readLE]
  | succ width ih =>
    have quotient : value / 256 < 256 ^ width := by
      rw [Nat.div_lt_iff_lt_mul (by decide)]
      simpa [Nat.pow_succ] using fits
    simp only [leBytes, readLE, ih _ quotient, UInt8.toNat_ofNat']
    omega

theorem leBytes_readLE (bs : List UInt8) : leBytes bs.length (readLE bs) = bs := by
  induction bs with
  | nil => rfl
  | cons b bs ih =>
    have high : (b.toNat + 256 * readLE bs) / 256 = readLE bs := by
      have := b.toNat_lt
      omega
    simp only [List.length_cons, leBytes, readLE, high, ih, List.cons.injEq, and_true]
    apply UInt8.toNat_inj.mp
    simp

theorem readLE_lt (bs : List UInt8) : readLE bs < 256 ^ bs.length := by
  induction bs with
  | nil => simp [readLE]
  | cons b bs ih =>
    have := b.toNat_lt
    simp only [readLE, List.length_cons, Nat.pow_succ]
    omega

theorem readLE_append (xs ys : List UInt8) :
    readLE (xs ++ ys) = readLE xs + 256 ^ xs.length * readLE ys := by
  induction xs with
  | nil => simp [readLE]
  | cons b bs ih =>
    simp only [List.cons_append, readLE, ih, List.length_cons, Nat.pow_succ]
    ring

theorem readLE_eq_zero_iff (bs : List UInt8) : readLE bs = 0 ↔ ∀ b ∈ bs, b = 0 := by
  induction bs with
  | nil => simp [readLE]
  | cons b bs ih =>
    rw [List.forall_mem_cons, ← ih, ← UInt8.toNat_inj, UInt8.toNat_zero, readLE]
    omega

namespace Reader

def le (short : String) (width : Nat) : Reader Nat := do
  let bs ← bytes short width
  pure (readLE bs)

end Reader

variable {α : Type}

/-- Reading what `write` wrote, followed by anything, returns the value and leaves the rest. -/
def Inverse (write : α → List UInt8) (read : Reader α) (valid : α → Prop) : Prop :=
  ∀ a, valid a → ∀ rest, read (write a ++ rest) = .ok (a, rest)

/-- Every input `read` accepts is the written form of the value read, then the rest. -/
def Exact (write : α → List UInt8) (read : Reader α) : Prop :=
  ∀ input a rest, read input = .ok (a, rest) → write a ++ rest = input

namespace Inverse

variable {β : Type} {writeA : α → List UInt8} {readA : Reader α} {validA : α → Prop}

theorem bind {writeB : β → List UInt8} {readB : Reader β} {validB : β → Prop}
    (first : Inverse writeA readA validA) (second : Inverse writeB readB validB)
    (a : α) (b : β) (va : validA a) (vb : validB b) (rest : List UInt8) :
    (readA >>= fun x => readB >>= fun y => pure (x, y)) (writeA a ++ writeB b ++ rest) =
      .ok ((a, b), rest) := by
  rw [List.append_assoc, Reader.bind_of_apply (first a va _),
    Reader.bind_of_apply (second b vb rest)]
  rfl

theorem many (codec : Inverse writeA readA validA) (as : List α) (valid : ∀ a ∈ as, validA a)
    (rest : List UInt8) :
    Reader.many readA as.length ((as.map writeA).flatten ++ rest) = .ok (as, rest) := by
  induction as with
  | nil => rfl
  | cons a as ih =>
    have head := codec a (valid a (by simp)) ((as.map writeA).flatten ++ rest)
    have tail := ih (fun x member => valid x (by simp [member]))
    simp only [List.length_cons, Reader.many_succ, List.map_cons, List.flatten_cons,
      List.append_assoc]
    rw [Reader.bind_of_apply head, Reader.bind_of_apply tail]
    rfl

end Inverse

namespace Exact

variable {β : Type} {writeA : α → List UInt8} {readA : Reader α}

theorem many (codec : Exact writeA readA) (n : Nat) (input : List UInt8) (as : List α)
    (rest : List UInt8) (h : Reader.many readA n input = .ok (as, rest)) :
    as.length = n ∧ (as.map writeA).flatten ++ rest = input := by
  induction n generalizing input as with
  | zero =>
    cases h
    exact ⟨rfl, rfl⟩
  | succ n ih =>
    rw [Reader.many_succ] at h
    obtain ⟨a, middle, ha, h⟩ := Reader.bind_eq_some h
    obtain ⟨tail, rest', has, h⟩ := Reader.bind_eq_some h
    simp only [Reader.pure_apply, Except.ok.injEq, Prod.mk.injEq] at h
    obtain ⟨rfl, rfl⟩ := h
    obtain ⟨length, written⟩ := ih middle tail has
    refine ⟨by simp [length], ?_⟩
    rw [← codec input a middle ha, ← written]
    simp

end Exact

theorem Inverse.map {β : Type} {write : α → List UInt8} {read : Reader α} {valid : α → Prop}
    (codec : Inverse write read valid) (encode : β → α) (decode : α → β)
    (left : ∀ b, decode (encode b) = b) (encodeValid : ∀ b, valid (encode b)) :
    Inverse (fun b => write (encode b)) (do let a ← read; pure (decode a)) (fun _ => True) := by
  intro b _ rest
  rw [Reader.bind_of_apply (codec (encode b) (encodeValid b) rest), Reader.pure_apply, left]

theorem Exact.map {β : Type} {write : α → List UInt8} {read : Reader α}
    (codec : Exact write read) (encode : β → α) (decode : α → β)
    (right : ∀ input a rest, read input = .ok (a, rest) → encode (decode a) = a) :
    Exact (fun b => write (encode b)) (do let a ← read; pure (decode a)) := by
  intro input b rest h
  obtain ⟨a, middle, read_a, h⟩ := Reader.bind_eq_some h
  simp only [Reader.pure_apply, Except.ok.injEq, Prod.mk.injEq] at h
  obtain ⟨rfl, rfl⟩ := h
  show write (encode (decode a)) ++ middle = input
  rw [right input a middle read_a]
  exact codec input a middle read_a

theorem le_lt {short : String} {width : Nat} {input : List UInt8} {value : Nat}
    {rest : List UInt8} (h : Reader.le short width input = .ok (value, rest)) :
    value < 256 ^ width := by
  simp only [Reader.le] at h
  obtain ⟨bs, middle, read, h⟩ := Reader.bind_eq_some h
  simp only [Reader.pure_apply, Except.ok.injEq, Prod.mk.injEq] at h
  obtain ⟨rfl, rfl⟩ := h
  obtain ⟨length, -⟩ := Reader.bytes_eq_ok read
  exact length ▸ readLE_lt bs

theorem le_inverse (short : String) (width : Nat) :
    Inverse (leBytes width) (Reader.le short width) (· < 256 ^ width) := by
  intro value fits rest
  have read := Reader.bytes_append short (leBytes width value) rest
  rw [length_leBytes] at read
  simp only [Reader.le]
  rw [Reader.bind_of_apply read, Reader.pure_apply, readLE_leBytes width value fits]

theorem le_exact (short : String) (width : Nat) : Exact (leBytes width) (Reader.le short width) := by
  intro input value rest h
  simp only [Reader.le] at h
  obtain ⟨bs, middle, read, h⟩ := Reader.bind_eq_some h
  simp only [Reader.pure_apply, Except.ok.injEq, Prod.mk.injEq] at h
  obtain ⟨rfl, rfl⟩ := h
  obtain ⟨length, split⟩ := Reader.bytes_eq_ok read
  rw [← length, leBytes_readLE, split]

end Wire
