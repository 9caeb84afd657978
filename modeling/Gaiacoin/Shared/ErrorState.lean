import Mathlib

set_option autoImplicit false

/-!
# Programs with errors and a state

Three properties of `EStateM` programs, each stated once with the rules that
carry it through `pure`, `throw`, `bind` and the embedding of a pure computation
that can fail, so that the property of a long program follows from its parts:

* `Avoids bad x`: no run of `x` stops with an error that `bad` holds of;
* `Costs k x post`: the state is a counter, every run of `x` adds at most `k` to
  it, and what `x` returns satisfies `post`;
* `Tightens strict loose`: every run of `strict` that returns is a run of `loose`
  with the same value and final state.
-/

namespace ErrorState

variable {ε ε' σ α β : Type}

def finalState : EStateM.Result ε σ α → σ
  | .ok _ s => s
  | .error _ s => s

@[simp] theorem finalState_ok (a : α) (s : σ) :
    finalState (.ok a s : EStateM.Result ε σ α) = s := rfl

@[simp] theorem finalState_error (e : ε) (s : σ) :
    finalState (.error e s : EStateM.Result ε σ α) = s := rfl

@[simp] theorem except_pure (a : α) : (pure a : Except ε α) = .ok a := rfl

@[simp] theorem except_ok_bind (a : α) (f : α → Except ε β) : (Except.ok a >>= f) = f a := rfl

@[simp] theorem except_error_bind (e : ε) (f : α → Except ε β) :
    (Except.error e >>= f) = .error e := rfl

@[simp] theorem except_mapError_ok (embed : ε → ε') (a : α) :
    (Except.ok a : Except ε α).mapError embed = .ok a := rfl

@[simp] theorem except_mapError_error (embed : ε → ε') (e : ε) :
    (Except.error e : Except ε α).mapError embed = .error (embed e) := rfl

def ofExcept (embed : ε' → ε) : Except ε' α → EStateM ε σ α
  | .ok a => pure a
  | .error e => throw (embed e)

@[simp] theorem run_throw (e : ε) (s : σ) :
    (throw e : EStateM ε σ α).run s = .error e s := rfl

theorem run_ofExcept (embed : ε' → ε) (x : Except ε' α) (s : σ) :
    (ofExcept embed x : EStateM ε σ α).run s =
      match x with
      | .ok a => .ok a s
      | .error e => .error (embed e) s := by
  cases x <;> rfl

theorem bind_run_eq_ok {x : EStateM ε σ α} {f : α → EStateM ε σ β} {s s' : σ} {b : β}
    (h : (x >>= f).run s = .ok b s') : ∃ a s₁, x.run s = .ok a s₁ ∧ (f a).run s₁ = .ok b s' := by
  rw [EStateM.run_bind] at h
  cases run : x.run s with
  | ok a s₁ =>
    rw [run] at h
    exact ⟨a, s₁, rfl, h⟩
  | error e s₁ =>
    rw [run] at h
    cases h

section Avoids

/-- No run of `x` stops with an error that `bad` holds of. -/
def Avoids (bad : ε → Prop) (x : EStateM ε σ α) : Prop :=
  ∀ s e s', x.run s = .error e s' → ¬ bad e

variable {bad : ε → Prop}

theorem Avoids.pure (a : α) : Avoids bad (pure a : EStateM ε σ α) := by
  intro s e s' h
  rw [EStateM.run_pure] at h
  cases h

theorem Avoids.throw {e : ε} (good : ¬ bad e) : Avoids bad (throw e : EStateM ε σ α) := by
  intro s e' s' h
  rw [run_throw] at h
  cases h
  exact good

theorem Avoids.bind {x : EStateM ε σ α} {f : α → EStateM ε σ β} (hx : Avoids bad x)
    (hf : ∀ a, Avoids bad (f a)) : Avoids bad (x >>= f) := by
  intro s e s' h
  rw [EStateM.run_bind] at h
  cases run : x.run s with
  | ok a s₁ =>
    rw [run] at h
    exact hf a s₁ e s' h
  | error e₁ s₁ =>
    rw [run] at h
    obtain ⟨rfl, rfl⟩ := EStateM.Result.error.inj h
    exact hx s e₁ s₁ run

theorem Avoids.bind_returns {x : EStateM ε σ α} {f : α → EStateM ε σ β} (returns : α → Prop)
    (hx : Avoids bad x) (hret : ∀ s a s', x.run s = .ok a s' → returns a)
    (hf : ∀ a, returns a → Avoids bad (f a)) : Avoids bad (x >>= f) := by
  intro s e s' h
  rw [EStateM.run_bind] at h
  cases run : x.run s with
  | ok a s₁ =>
    rw [run] at h
    exact hf a (hret s a s₁ run) s₁ e s' h
  | error e₁ s₁ =>
    rw [run] at h
    obtain ⟨rfl, rfl⟩ := EStateM.Result.error.inj h
    exact hx s e₁ s₁ run

theorem Avoids.ite {c : Prop} [Decidable c] {x y : EStateM ε σ α} (hx : c → Avoids bad x)
    (hy : ¬ c → Avoids bad y) : Avoids bad (if c then x else y) := by
  by_cases holds : c
  · rw [if_pos holds]
    exact hx holds
  · rw [if_neg holds]
    exact hy holds

theorem Avoids.modifyGet (f : σ → α × σ) : Avoids bad (modifyGet f : EStateM ε σ α) := by
  intro s e s' h
  rw [EStateM.run_modifyGet] at h
  cases h

theorem Avoids.ofExcept {embed : ε' → ε} (x : Except ε' α) (good : ∀ e, x = .error e → ¬ bad (embed e)) :
    Avoids bad (ofExcept embed x : EStateM ε σ α) := by
  cases x with
  | ok a => exact Avoids.pure a
  | error e => exact Avoids.throw (good e rfl)

end Avoids

section Costs

/-- The state is a counter: every run of `x` adds at most `k` to it, and a value
that `x` returns satisfies `post`. -/
def Costs (k : Nat) (x : EStateM ε Nat α) (post : α → Prop) : Prop :=
  ∀ s, finalState (x.run s) ≤ s + k ∧ ∀ a s', x.run s = .ok a s' → post a

variable {post : α → Prop} {next : β → Prop}

theorem Costs.pure {a : α} (k : Nat) (holds : post a) :
    Costs k (pure a : EStateM ε Nat α) post := by
  intro s
  rw [EStateM.run_pure]
  refine ⟨by simp, ?_⟩
  rintro a' s' ⟨⟩
  exact holds

theorem Costs.throw (k : Nat) (e : ε) : Costs k (throw e : EStateM ε Nat α) post := by
  intro s
  rw [run_throw]
  refine ⟨by simp, ?_⟩
  rintro a' s' ⟨⟩

theorem Costs.bind {k l : Nat} {x : EStateM ε Nat α} {f : α → EStateM ε Nat β}
    (hx : Costs k x post) (hf : ∀ a, post a → Costs l (f a) next) :
    Costs (k + l) (x >>= f) next := by
  intro s
  rw [EStateM.run_bind]
  obtain ⟨bound, returns⟩ := hx s
  cases run : x.run s with
  | ok a s₁ =>
    rw [run, finalState_ok] at bound
    obtain ⟨bound', returns'⟩ := hf a (returns a s₁ run) s₁
    dsimp only
    exact ⟨by omega, returns'⟩
  | error e s₁ =>
    rw [run, finalState_error] at bound
    refine ⟨?_, ?_⟩
    · rw [finalState_error]
      omega
    · rintro b s' ⟨⟩

theorem Costs.ofExcept {embed : ε' → ε} (x : Except ε' α) (k : Nat)
    (holds : ∀ a, x = .ok a → post a) : Costs k (ofExcept embed x : EStateM ε Nat α) post := by
  cases x with
  | ok a => exact Costs.pure k (holds a rfl)
  | error e => exact Costs.throw k _

end Costs

section Tightens

/-- Every run of `strict` that returns is a run of `loose`, with the same value
and the same final state. -/
def Tightens (strict loose : EStateM ε σ α) : Prop :=
  ∀ s a s', strict.run s = .ok a s' → loose.run s = .ok a s'

theorem Tightens.refl (x : EStateM ε σ α) : Tightens x x := fun _ _ _ h => h

theorem Tightens.trans {x y z : EStateM ε σ α} (xy : Tightens x y) (yz : Tightens y z) :
    Tightens x z :=
  fun s a s' h => yz s a s' (xy s a s' h)

theorem Tightens.throw (e : ε) (loose : EStateM ε σ α) : Tightens (throw e) loose := by
  intro s a s' h
  rw [run_throw] at h
  cases h

theorem Tightens.bind {x x' : EStateM ε σ α} {f f' : α → EStateM ε σ β}
    (hx : Tightens x x') (hf : ∀ a, Tightens (f a) (f' a)) : Tightens (x >>= f) (x' >>= f') := by
  intro s b s' h
  obtain ⟨a, s₁, run, rest⟩ := bind_run_eq_ok h
  rw [EStateM.run_bind, hx s a s₁ run]
  exact hf a s₁ b s' rest

theorem Tightens.ofExcept {embed : ε' → ε} {x y : Except ε' α} (imp : ∀ a, x = .ok a → y = .ok a) :
    Tightens (ofExcept embed x : EStateM ε σ α) (ofExcept embed y) := by
  intro s a s' h
  cases x with
  | ok b =>
    rw [imp b rfl]
    exact h
  | error e =>
    rw [run_ofExcept] at h
    cases h

theorem Tightens.guard {c c' : Bool} (imp : c' = true → c = true) (e e' : ε)
    {k k' : EStateM ε σ α} (rest : Tightens k k') :
    Tightens (if c then MonadExcept.throw e else k) (if c' then MonadExcept.throw e' else k') := by
  cases c with
  | true => exact Tightens.throw e _
  | false =>
    have : c' = false := by
      cases c' with
      | false => rfl
      | true => exact absurd (imp rfl) Bool.false_ne_true
    simpa [this] using rest

end Tightens

end ErrorState
