import Mathlib

/-! Two strings joined by a separator into one key. The key can be taken apart again at the
first separator if the first string has none, and at the last one if the second has none. -/

namespace Datasystem.Lib.CompositeKey

variable {α : Type} [DecidableEq α] {sep : α} {a b a' b' : List α}

def join (sep : α) (a b : List α) : List α := a ++ sep :: b

/-- What is before the first separator, and what is after it. -/
def splitFirst (sep : α) : List α → Option (List α × List α)
  | [] => none
  | x :: rest =>
    if x = sep then some ([], rest) else (splitFirst sep rest).map fun (a, b) => (x :: a, b)

/-- What is before the last separator, and what is after it. -/
def splitLast (sep : α) (key : List α) : Option (List α × List α) :=
  (splitFirst sep key.reverse).map fun (b, a) => (a.reverse, b.reverse)

theorem splitFirst_join (h : sep ∉ a) : splitFirst sep (join sep a b) = some (a, b) := by
  induction a with
  | nil => simp [join, splitFirst]
  | cons _ a ih =>
    obtain ⟨hx, ha⟩ := List.ne_and_not_mem_of_not_mem_cons h
    have hrest : splitFirst sep (a ++ sep :: b) = some (a, b) := ih ha
    simp [join, splitFirst, Ne.symm hx, hrest]

theorem splitLast_join (h : sep ∉ b) : splitLast sep (join sep a b) = some (a, b) := by
  have hrev : (join sep a b).reverse = join sep b.reverse a.reverse := by simp [join]
  rw [splitLast, hrev, splitFirst_join (by simpa using h)]
  simp

theorem join_inj_first (h : sep ∉ a) (h' : sep ∉ a') :
    join sep a b = join sep a' b' ↔ a = a' ∧ b = b' := by
  constructor
  · intro heq
    have hsplit := congrArg (splitFirst sep) heq
    rw [splitFirst_join h, splitFirst_join h'] at hsplit
    simpa using hsplit
  · rintro ⟨rfl, rfl⟩
    rfl

theorem join_inj_last (h : sep ∉ b) (h' : sep ∉ b') :
    join sep a b = join sep a' b' ↔ a = a' ∧ b = b' := by
  constructor
  · intro heq
    have hsplit := congrArg (splitLast sep) heq
    rw [splitLast_join h, splitLast_join h'] at hsplit
    simpa using hsplit
  · rintro ⟨rfl, rfl⟩
    rfl

end Datasystem.Lib.CompositeKey
