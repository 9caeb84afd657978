import Mathlib

set_option autoImplicit false

/-!
# Memo caches for a recursion along predecessors

A function given by a recursion `f (key i) = step (f (pred i)) i` is computed by
walking back from an item to a key whose value is known, pushing the items passed
on the way, and then popping them, oldest first, each value computed from the one
before and stored under the item's key. A cache is sound when every value it holds
is `f` of its key; the forward pass keeps a cache sound and ends with `f` of the
key it started from.
-/

namespace Memo

variable {ι κ σ : Type}

def Sound (f : κ → σ) (cache : κ → Option σ) : Prop :=
  ∀ k s, cache k = some s → s = f k

def Linked (pred key : ι → κ) : κ → List ι → Prop
  | _, [] => True
  | start, i :: rest => pred i = start ∧ Linked pred key (key i) rest

def forward [DecidableEq κ] (key : ι → κ) (step : σ → ι → σ) :
    List ι → (κ → Option σ) × σ → (κ → Option σ) × σ
  | [], acc => acc
  | i :: rest, (cache, s) =>
    forward key step rest (Function.update cache (key i) (some (step s i)), step s i)

def lastKey (key : ι → κ) (start : κ) (items : List ι) : κ := ((items.map key).getLast?).getD start

variable {f : κ → σ} {cache : κ → Option σ}

theorem sound_empty (f : κ → σ) : Sound f fun _ => none := by
  intro k s found
  cases found

theorem Sound.get (sound : Sound f cache) {k : κ} {s : σ} (found : cache k = some s) : s = f k :=
  sound k s found

theorem Sound.update [DecidableEq κ] (sound : Sound f cache) (k : κ) {s : σ} (correct : s = f k) :
    Sound f (Function.update cache k (some s)) := by
  intro k' s' found
  by_cases same : k' = k
  · subst same
    rw [Function.update_self] at found
    cases found
    exact correct
  · rw [Function.update_of_ne same] at found
    exact sound k' s' found

theorem lastKey_cons (key : ι → κ) (start : κ) (i : ι) (rest : List ι) :
    lastKey key start (i :: rest) = lastKey key (key i) rest := by
  cases rest with
  | nil => rfl
  | cons j rest => simp [lastKey, List.getLast?_cons]

theorem forward_spec [DecidableEq κ] (pred key : ι → κ) (step : σ → ι → σ) :
    ∀ (items : List ι) (start : κ) (cache : κ → Option σ), Sound f cache →
      (∀ i ∈ items, f (key i) = step (f (pred i)) i) → Linked pred key start items →
      Sound f (forward key step items (cache, f start)).1 ∧
        (forward key step items (cache, f start)).2 = f (lastKey key start items)
  | [], start, cache, sound, _, _ => ⟨sound, rfl⟩
  | i :: rest, start, cache, sound, recur, linked => by
    obtain ⟨link, linked⟩ := linked
    have value : step (f start) i = f (key i) := by rw [recur i List.mem_cons_self, link]
    simp only [forward, value]
    have next := forward_spec pred key step rest (key i) _ (sound.update (key i) rfl)
      (fun j member => recur j (List.mem_cons_of_mem i member)) linked
    rwa [lastKey_cons]

end Memo
