import Mathlib

/-! A list and a table of the positions of its elements, kept in step. An element is added at
the end; it is removed by moving the last element into its place. -/

namespace Datasystem.Lib

open List

variable {α : Type*}

/-- The table says where each element stands, and knows no other element. -/
def Positions (l : List α) (position : α → Option Nat) : Prop :=
  ∀ a i, l[i]? = some a ↔ position a = some i

namespace Positions

variable [DecidableEq α] {l : List α} {position position' : α → Option Nat} {a b : α} {i : Nat}

omit [DecidableEq α] in
theorem congr (h : Positions l position) (heq : ∀ a, position' a = position a) :
    Positions l position' := by
  intro a i
  rw [heq]
  exact h a i

theorem append (h : Positions l position) (ha : position a = none)
    (hnew : ∀ c, position' c = if c = a then some l.length else position c) :
    Positions (l ++ [a]) position' := by
  intro c j
  rw [hnew]
  have hlt : l[j]? = some c → j < l.length := fun hj => (List.getElem?_eq_some_iff.mp hj).1
  rcases lt_trichotomy j l.length with hj | rfl | hj
  · rw [getElem?_append_left hj, h c j]
    by_cases hc : c = a
    · rw [if_pos hc, hc, ha]
      simp [hj.ne']
    · rw [if_neg hc]
  · rw [getElem?_concat_length]
    by_cases hc : c = a
    · simp [hc]
    · have hnot : position c ≠ some l.length := fun hpos =>
        lt_irrefl _ (hlt ((h c _).mpr hpos))
      simp [hc, hnot, Ne.symm hc]
  · have hnone : (l ++ [a])[j]? = none := getElem?_eq_none (by rw [length_append]; exact hj)
    rw [hnone]
    by_cases hc : c = a
    · simp [hc, hj.ne]
    · have hnot : position c ≠ some j := fun hpos => hj.not_gt (hlt ((h c j).mpr hpos))
      simp [hc, hnot]

theorem removeLast (h : Positions l position) (ha : position a = some (l.length - 1))
    (hnew : ∀ c, position' c = if c = a then none else position c) :
    Positions l.dropLast position' := by
  intro c j
  rw [hnew, getElem?_dropLast]
  by_cases hj : j < l.length - 1
  · rw [if_pos hj, h c j]
    by_cases hc : c = a
    · simp [hc, ha, hj.ne']
    · rw [if_neg hc]
  · rw [if_neg hj]
    by_cases hc : c = a
    · simp [hc]
    · rw [if_neg hc, ← h c j]
      constructor
      · intro hnone
        cases hnone
      · intro hcj
        -- the only place past the new end was the one of `a`
        have hlt := (List.getElem?_eq_some_iff.mp hcj).1
        have hlast := (h a (l.length - 1)).mpr ha
        rw [show j = l.length - 1 by omega, hlast] at hcj
        exact absurd (Option.some.inj hcj).symm hc

theorem fill (h : Positions l position) (ha : position a = some i) (hlast : l.getLast? = some b)
    (hi : i ≠ l.length - 1)
    (hnew : ∀ c, position' c = if c = a then none else if c = b then some i else position c) :
    Positions (l.set i b).dropLast position' := by
  rw [List.getLast?_eq_getElem?] at hlast
  have hb := (h b _).mp hlast
  have hai := (h a i).mpr ha
  have hilt := (List.getElem?_eq_some_iff.mp hai).1
  have hba : b ≠ a := by
    intro heq
    rw [heq, ha] at hb
    exact hi (Option.some.inj hb)
  intro c j
  rw [hnew, List.getElem?_dropLast, List.length_set]
  by_cases hj : j < l.length - 1
  · rw [if_pos hj]
    by_cases hij : i = j
    · subst hij
      rw [List.getElem?_set_self hilt]
      by_cases hc : c = a
      · simp [hc, hba]
      · by_cases hcb : c = b
        · simp [hcb, hba]
        · have hnot : position c ≠ some i := by
            intro hpos
            rw [← h c i, hai] at hpos
            exact hc (Option.some.inj hpos).symm
          simp [hc, hcb, hnot, Ne.symm hcb]
    · rw [List.getElem?_set_ne hij, h c j]
      by_cases hc : c = a
      · simp [hc, ha, hij]
      · by_cases hcb : c = b
        · simp [hcb, hba, hb, hij, hj.ne']
        · simp [hc, hcb]
  · rw [if_neg hj]
    by_cases hc : c = a
    · simp [hc]
    · by_cases hcb : c = b
      · simp [hcb, hba]
        omega
      · have hnot : position c ≠ some j := by
          intro hpos
          have hcj := (h c j).mpr hpos
          have hlt := (List.getElem?_eq_some_iff.mp hcj).1
          rw [show j = l.length - 1 by omega, hlast] at hcj
          exact hcb (Option.some.inj hcj).symm
        simp [hc, hcb, hnot]

end Positions

end Datasystem.Lib
