import Mathlib

set_option autoImplicit false

/-!
# Loops over the entries of a finite map

A loop that visits every entry of a finite map once and, at each entry, changes a
second map only at that entry's key leaves at every key what one visit of that
key alone would leave. The keys of a finite map are distinct, so no key is
visited twice and the order of the visits does not matter.
-/

namespace KeyedLoop

variable {α γ : Type} [DecidableEq α]

/-- A step of the loop changes the map it writes only at the key it visits, by
`merge` of the visited value and what the map held there. -/
def Local (step : AList (fun _ : α => γ) → α → γ → AList (fun _ : α => γ))
    (merge : γ → Option γ → Option γ) : Prop :=
  ∀ m a b x, (step m a b).lookup x = if x = a then merge b (m.lookup a) else m.lookup x

variable {step : AList (fun _ : α => γ) → α → γ → AList (fun _ : α => γ)}
  {merge : γ → Option γ → Option γ}

theorem lookup_foldl (frame : Local step merge) (entries : List (Sigma fun _ : α => γ))
    (nodup : entries.NodupKeys) (m : AList (fun _ : α => γ)) (x : α) :
    (entries.foldl (fun m e => step m e.1 e.2) m).lookup x =
      (entries.dlookup x).elim (m.lookup x) fun b => merge b (m.lookup x) := by
  induction entries generalizing m with
  | nil => rfl
  | cons e rest ih =>
    obtain ⟨a, b⟩ := e
    obtain ⟨unvisited, nodup⟩ := List.nodupKeys_cons.1 nodup
    rw [List.foldl_cons, ih nodup, frame]
    by_cases here : x = a
    · -- the rest of the loop never visits `a` again
      subst here
      rw [List.dlookup_eq_none.2 unvisited, List.dlookup_cons_eq]
      simp
    · rw [List.dlookup_cons_ne _ _ here]
      simp [here]

theorem lookup_foldl_entries (frame : Local step merge) (source m : AList (fun _ : α => γ))
    (x : α) :
    (source.entries.foldl (fun m e => step m e.1 e.2) m).lookup x =
      (source.lookup x).elim (m.lookup x) fun b => merge b (m.lookup x) :=
  lookup_foldl frame source.entries source.nodupKeys m x

end KeyedLoop
