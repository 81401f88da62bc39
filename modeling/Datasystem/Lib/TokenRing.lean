import Mathlib

/-! Consistent hashing on the ring `Fin N`. A point is owned by the entry that is
reached first when walking clockwise from it. `Owns` states this with the
clockwise distance, so it does not mention the order in which entries are
stored. `successor?` is the search that a sorted list supports. -/

namespace Datasystem.Lib.TokenRing

open List

variable {N : Nat} {α β : Type}

/-- Steps needed to walk clockwise from `t` to `x`. -/
def clockwise (t x : Fin N) : Nat :=
  if t.val ≤ x.val then x.val - t.val else x.val + N - t.val

theorem clockwise_inj {t x y : Fin N} (h : clockwise t x = clockwise t y) : x = y := by
  have hx := x.isLt
  have hy := y.isLt
  apply Fin.ext
  unfold clockwise at h
  split at h <;> split at h <;> omega

/-- Walking from `a` first passes `t`, as long as the goal is not between them. -/
theorem clockwise_split {a t x : Fin N} (hat : a ≤ t) (hx : x < a ∨ t ≤ x) :
    clockwise a x = clockwise t x + (t.val - a.val) := by
  have ht := t.isLt
  have hat' : a.val ≤ t.val := hat
  unfold clockwise
  rcases hx with hx | hx
  · have hx' : x.val < a.val := hx
    rw [if_neg (by omega), if_neg (by omega)]
    omega
  · have hx' : t.val ≤ x.val := hx
    rw [if_pos (by omega), if_pos hx']
    omega

variable (tok : α → Fin N)

/-- `e` is the entry of `l` that is met first when walking clockwise from `t`. -/
def Owns (l : List α) (t : Fin N) (e : α) : Prop :=
  e ∈ l ∧ ∀ e' ∈ l, clockwise t (tok e) ≤ clockwise t (tok e')

/-- First entry at or above `t`, wrapping around to the front. -/
def successor? (l : List α) (t : Fin N) : Option α :=
  (l.find? fun e => t ≤ tok e).or l.head?

variable {tok} {l l' : List α} {t : Fin N} {e e' : α}

theorem Owns.eq (hn : (l.map tok).Nodup) (h : Owns tok l t e) (h' : Owns tok l t e') : e = e' := by
  have hd : clockwise t (tok e) = clockwise t (tok e') := Nat.le_antisymm (h.2 e' h'.1) (h'.2 e h.1)
  exact inj_on_of_nodup_map hn h.1 h'.1 (clockwise_inj hd)

theorem Owns.of_subset (h : Owns tok l t e) (hsub : ∀ x ∈ l', x ∈ l) (he : e ∈ l') :
    Owns tok l' t e :=
  ⟨he, fun x hx => h.2 x (hsub x hx)⟩

theorem Owns.congr_list (h : ∀ x, x ∈ l ↔ x ∈ l') : Owns tok l t e ↔ Owns tok l' t e := by
  simp only [Owns, h]

theorem owns_self (he : e ∈ l) : Owns tok l (tok e) e := ⟨he, fun _ _ => by simp [clockwise]⟩

/-- The owner does not change between `a` and `t` when no entry stands in between. -/
theorem owns_congr {a : Fin N} (hat : a ≤ t) (hgap : ∀ x ∈ l, tok x < a ∨ t ≤ tok x) :
    Owns tok l a e ↔ Owns tok l t e := by
  refine and_congr_right fun he => forall₂_congr fun x hx => ?_
  rw [clockwise_split hat (hgap e he), clockwise_split hat (hgap x hx)]
  omega

theorem Owns.map {f : α → β} {tok' : β → Fin N} (hf : ∀ x ∈ l, tok' (f x) = tok x)
    (h : Owns tok l t e) : Owns tok' (l.map f) t (f e) := by
  refine ⟨mem_map_of_mem h.1, fun x hx => ?_⟩
  obtain ⟨y, hy, rfl⟩ := mem_map.mp hx
  rw [hf e h.1, hf y hy]
  exact h.2 y hy

theorem successor?_isSome (hl : l ≠ []) : ∃ e, successor? tok l t = some e := by
  obtain ⟨a, rest, rfl⟩ := exists_cons_of_ne_nil hl
  cases h : (a :: rest).find? fun e => t ≤ tok e with
  | none => exact ⟨a, by simp [successor?, h]⟩
  | some x => exact ⟨x, by simp [successor?, h]⟩

/-- The search on a sorted list finds the clockwise owner. -/
theorem successor?_owns (hs : l.Pairwise fun a b => tok a ≤ tok b)
    (h : successor? tok l t = some e) : Owns tok l t e := by
  unfold successor? at h
  cases hf : l.find? fun e => t ≤ tok e with
  | some x =>
    rw [hf, Option.some_or, Option.some.injEq] at h
    subst h
    obtain ⟨htx, l₁, l₂, rfl, hbefore⟩ := find?_eq_some_iff_append.mp hf
    refine ⟨by simp, fun y hy => ?_⟩
    have htx' : t.val ≤ (tok x).val := by simpa using htx
    unfold clockwise
    rw [if_pos htx']
    rcases mem_append.mp hy with hy | hy
    · -- entries before the hit are below `t`, hence a whole turn away
      have hlt : (tok y).val < t.val := by simpa using hbefore y hy
      have hxN := (tok x).isLt
      have htN := t.isLt
      rw [if_neg (by omega)]
      omega
    · have hxy : (tok x).val ≤ (tok y).val := by
        rcases mem_cons.mp hy with rfl | hy
        · exact Nat.le_refl _
        · exact (pairwise_cons.mp (pairwise_append.mp hs).2.1).1 y hy
      rw [if_pos (by omega)]
      omega
  | none =>
    rw [hf, Option.none_or] at h
    have hall : ∀ y ∈ l, (tok y).val < t.val := fun y hy => by
      simpa using find?_eq_none.mp hf y hy
    obtain ⟨rest, rfl⟩ : ∃ rest, l = e :: rest := by
      cases l with
      | nil => simp at h
      | cons _ rest => exact ⟨rest, by simpa using h⟩
    refine ⟨mem_cons_self, fun y hy => ?_⟩
    have hey : (tok e).val ≤ (tok y).val := by
      rcases mem_cons.mp hy with rfl | hy
      · exact Nat.le_refl _
      · exact (pairwise_cons.mp hs).1 y hy
    have he := hall e mem_cons_self
    have hy' := hall y hy
    unfold clockwise
    rw [if_neg (by omega), if_neg (by omega)]
    omega

end Datasystem.Lib.TokenRing
