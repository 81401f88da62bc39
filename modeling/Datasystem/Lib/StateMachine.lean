import Mathlib

/-! State machines given by a step function: an action either is not enabled or leads
to one next state. The same function replays a list of actions and carries the
proofs about all runs. -/

namespace Datasystem.Lib.StateMachine

open List

variable {σ α : Type}

/-- States that a run of enabled actions leads to. -/
inductive Reaches (step : σ → α → Option σ) (s₀ : σ) : σ → Prop
  | refl : Reaches step s₀ s₀
  | next {s s' : σ} (a : α) (h : Reaches step s₀ s) (hstep : step s a = some s') :
      Reaches step s₀ s'

/-- The same machine, with only those actions that meet a condition. -/
def restrict (cond : σ → α → Bool) (step : σ → α → Option σ) (s : σ) (a : α) : Option σ :=
  if cond s a then step s a else none

theorem restrict_eq_some {cond} {step} {s s' : σ} {a : α} :
    restrict cond step s a = some s' ↔ cond s a ∧ step s a = some s' := by
  unfold restrict
  split <;> simp_all

section

variable {step : σ → α → Option σ} {s₀ s : σ}

/-- What holds at first and is kept by every action holds in every state of a run. -/
theorem Reaches.invariant {I : σ → Prop} (h : Reaches step s₀ s) (hinit : I s₀)
    (hstep : ∀ s s' a, step s a = some s' → I s → I s') : I s := by
  induction h with
  | refl => exact hinit
  | next a _ hs ih => exact hstep _ _ a hs ih

theorem Reaches.trans {s' : σ} (h : Reaches step s₀ s) (h' : Reaches step s s') :
    Reaches step s₀ s' := by
  induction h' with
  | refl => exact h
  | next a _ hs ih => exact .next a ih hs

end

/-- Replay a list of actions. -/
def run (step : σ → α → Option σ) : σ → List α → Option σ
  | s, [] => some s
  | s, a :: rest => (step s a).bind (run step · rest)

/-- A replay shows that its last state is reached. -/
theorem reaches_of_run {step : σ → α → Option σ} {s s' : σ} {actions : List α}
    (h : run step s actions = some s') : Reaches step s s' := by
  induction actions generalizing s with
  | nil =>
    cases h
    exact .refl
  | cons a _ ih =>
    obtain ⟨_, hnext, hrest⟩ := Option.bind_eq_some_iff.mp h
    exact (Reaches.next a .refl hnext).trans (ih hrest)

/-- A replay that ends in a state with some property. -/
theorem exists_of_run {step : σ → α → Option σ} {s₀ : σ} (actions) {P : σ → Bool}
    (h : (run step s₀ actions).any P) : ∃ s, Reaches step s₀ s ∧ P s := by
  cases hrun : run step s₀ actions with
  | none =>
    rw [hrun] at h
    cases h
  | some s =>
    rw [hrun] at h
    exact ⟨s, reaches_of_run hrun, h⟩

theorem exists_reaches {step : σ → α → Option σ} {s₀ : σ} {P : σ → Prop} [DecidablePred P] (actions)
    (h : (run step s₀ actions).any fun s => P s) : ∃ s, Reaches step s₀ s ∧ P s := by
  simpa using exists_of_run actions h

/-! ## What has held since an action -/

section

variable (step : σ → α → σ) (s₀ : σ) (event : σ → α → Prop) (keeps : σ → Prop)

/-- Some action of the run was an event, and `keeps` has held in every state after it. -/
def HeldSince (actions : List α) : Prop :=
  ∃ before a after, actions = before ++ a :: after ∧ event (before.foldl step s₀) a ∧
    ∀ k ≤ after.length, keeps ((before ++ a :: after.take k).foldl step s₀)

theorem heldSince_concat {actions} {a : α} : HeldSince step s₀ event keeps (actions ++ [a]) ↔
      keeps ((actions ++ [a]).foldl step s₀) ∧
        (event (actions.foldl step s₀) a ∨ HeldSince step s₀ event keeps actions) := by
  constructor
  · rintro ⟨before, b, after, heq, hevent, hkeeps⟩
    have hlast := hkeeps after.length (Nat.le_refl _)
    rw [take_length, ← heq] at hlast
    refine ⟨hlast, ?_⟩
    rcases after.eq_nil_or_concat with rfl | ⟨after, c, rfl⟩
    · obtain ⟨rfl, hb⟩ := append_inj' heq rfl
      cases hb
      exact .inl hevent
    · rw [concat_eq_append, ← cons_append, ← append_assoc] at heq
      obtain ⟨rfl, -⟩ := append_inj' heq rfl
      refine .inr ⟨before, b, after, rfl, hevent, fun k hk => ?_⟩
      have hkeep := hkeeps k (by rw [concat_eq_append, length_append]; omega)
      rwa [concat_eq_append, take_append_of_le_length hk] at hkeep
  · rintro ⟨hlast, hevent | ⟨before, b, after, rfl, hevent, hkeeps⟩⟩
    · refine ⟨actions, a, [], rfl, hevent, fun k _ => ?_⟩
      rw [take_nil]
      exact hlast
    · refine ⟨before, b, after ++ [a], by simp, hevent, fun k hk => ?_⟩
      by_cases hle : k ≤ after.length
      · rw [take_append_of_le_length hle]
        exact hkeeps k hle
      · have hall : (after ++ [a]).take k = after ++ [a] :=
          take_of_length_le (by rw [length_append, length_singleton]; omega)
        rw [hall, ← cons_append, ← append_assoc]
        exact hlast

end

end Datasystem.Lib.StateMachine
