/-
Systems that take one step after another. What holds at the start and is kept by every step holds in
every state, and what relates each state to the next relates each state to all later ones.
-/

namespace Phrasebook.Trace

variable {σ ε : Type} {step : σ → ε → σ} {start : σ} {events : List ε}

/-- The state after the first `n` events. -/
def state (step : σ → ε → σ) (start : σ) (events : List ε) (n : Nat) : σ :=
  (events.take n).foldl step start

theorem state_succ {n : Nat} {e : ε} (h : events[n]? = some e) :
    state step start events (n + 1) = step (state step start events n) e := by
  unfold state
  rw [List.take_add_one, h, Option.toList_some, List.foldl_append]
  rfl

/-- Nothing happens after the last event. -/
theorem state_succ_none {n : Nat} (h : events[n]? = none) :
    state step start events (n + 1) = state step start events n := by
  unfold state
  rw [List.take_add_one, h, Option.toList_none, List.append_nil]

theorem state_invariant {P : σ → Prop} (hstart : P start) (hstep : ∀ s e, P s → P (step s e))
    (n : Nat) : P (state step start events n) := by
  induction n with
  | zero => exact hstart
  | succ n ih =>
    rcases h : events[n]? with _ | e
    · rw [state_succ_none h]; exact ih
    · rw [state_succ h]; exact hstep _ e ih

theorem state_related {R : σ → σ → Prop} (hrefl : ∀ s, R s s)
    (htrans : ∀ {s t u}, R s t → R t u → R s u) (hstep : ∀ s e, R s (step s e)) {m n : Nat}
    (h : m ≤ n) : R (state step start events m) (state step start events n) := by
  induction h with
  | refl => exact hrefl _
  | @step n _ ih =>
    rcases he : events[n]? with _ | e
    · rw [state_succ_none he]; exact ih
    · rw [state_succ he]; exact htrans ih (hstep _ e)

end Phrasebook.Trace
