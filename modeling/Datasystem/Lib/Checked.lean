import Mathlib

/-! Fallible computations in `Except`. A run that succeeds is peeled apart step
by step with `bind_eq_ok` and `require_eq_ok`. `Fresh` is what a loop
establishes that collects entries and fails on one it has seen before. -/

namespace Datasystem.Lib.Checked

open List

variable {ε α β : Type}

/-- Pass when the condition holds and fail with `e` otherwise. -/
def require (c : Prop) [Decidable c] (e : ε) : Except ε Unit :=
  if c then .ok () else .error e

@[simp] theorem bind_eq_ok {x : Except ε α} {f : α → Except ε β} {b : β} :
    x >>= f = .ok b ↔ ∃ a, x = .ok a ∧ f a = .ok b := by
  cases x <;> simp [bind, Except.bind]

@[simp] theorem ok_bind (a : α) (f : α → Except ε β) : (Except.ok a >>= f) = f a := rfl

@[simp] theorem error_bind (e : ε) (f : α → Except ε β) :
    ((Except.error e : Except ε α) >>= f) = .error e := rfl

@[simp] theorem require_eq_ok {c : Prop} [Decidable c] {e : ε} {u} : require c e = .ok u ↔ c := by
  unfold require
  split <;> simp_all

theorem require_of {c : Prop} [Decidable c] (e : ε) (h : c) : require c e = .ok () := if_pos h

theorem require_of_not {c : Prop} [Decidable c] (e : ε) (h : ¬c) : require c e = .error e :=
  if_neg h

@[simp] theorem pure_eq_ok {a b : α} : (pure a : Except ε α) = .ok b ↔ a = b := by
  simp [pure, Except.pure]

theorem toOption_map_eq_some {x : Except ε α} {f : α → β} {b : β} :
    x.toOption.map f = some b ↔ ∃ a, x = .ok a ∧ f a = b := by
  cases x <;> simp [Except.toOption]

/-- The entries of `xs` are pairwise distinct and none of them is in `seen`. -/
def Fresh (seen xs : List α) : Prop := xs.Nodup ∧ ∀ x ∈ xs, x ∉ seen

@[simp] theorem fresh_nil (seen : List α) : Fresh seen [] := by
  simp [Fresh]

@[simp] theorem fresh_empty {xs : List α} : Fresh [] xs ↔ xs.Nodup := by
  simp [Fresh]

theorem fresh_cons {seen xs} {x : α} : Fresh seen (x :: xs) ↔ x ∉ seen ∧ Fresh (x :: seen) xs := by
  simp only [Fresh, nodup_cons, forall_mem_cons]
  constructor
  · rintro ⟨⟨hx, hn⟩, hseen, hxs⟩
    refine ⟨hseen, hn, fun y hy hmem => ?_⟩
    rcases mem_cons.mp hmem with rfl | hmem
    · exact hx hy
    · exact hxs y hy hmem
  · rintro ⟨hseen, hn, hxs⟩
    exact ⟨⟨fun hx => hxs x hx mem_cons_self, hn⟩, hseen,
      fun y hy hmem => hxs y hy (mem_cons_of_mem _ hmem)⟩

theorem fresh_append {seen xs ys : List α} :
    Fresh seen (xs ++ ys) ↔ Fresh seen xs ∧ Fresh (xs.reverse ++ seen) ys := by
  induction xs generalizing seen with
  | nil => simp
  | cons _ _ ih =>
    rw [cons_append, fresh_cons, fresh_cons, ih, reverse_cons, append_assoc,
      singleton_append, and_assoc]

end Datasystem.Lib.Checked
