import Mathlib

/-! A shared set of marks and those who hold them. Every mark has exactly one holder as long as
nobody takes a mark that is there and nobody gives back a mark of another. -/

namespace Datasystem.Lib

variable {ι κ : Type} {marks marks' : Set κ} {held held' : ι → Set κ}

/-- Every mark has one holder. -/
structure Owned (marks : Set κ) (held : ι → Set κ) : Prop where
  covers : ∀ k, k ∈ marks ↔ ∃ i, k ∈ held i
  unique : ∀ i j k, k ∈ held i → k ∈ held j → i = j

namespace Owned

theorem acquire (h : Owned marks held) (i : ι) (ks) (hmarks : marks' = marks ∪ ks)
    (hself : held' i = held i ∪ ks) (hother : ∀ j, j ≠ i → held' j = held j)
    (hfree : ∀ k ∈ ks, k ∉ marks) : Owned marks' held' := by
  have hheld : ∀ j k, k ∈ held' j → k ∈ held j ∨ j = i ∧ k ∈ ks := by
    intro j k hk
    by_cases hj : j = i
    · subst hj
      rw [hself] at hk
      exact hk.imp id fun hk => ⟨rfl, hk⟩
    · rw [hother j hj] at hk
      exact .inl hk
  refine ⟨fun k => ?_, fun j j' k hj hj' => ?_⟩
  · rw [hmarks]
    refine ⟨?_, fun ⟨j, hj⟩ => ?_⟩
    · rintro (hk | hk)
      · obtain ⟨j, hj⟩ := (h.covers k).mp hk
        by_cases hji : j = i
        · subst hji
          exact ⟨j, hself ▸ .inl hj⟩
        · exact ⟨j, (hother j hji).symm ▸ hj⟩
      · exact ⟨i, hself ▸ .inr hk⟩
    · exact (hheld j k hj).imp (fun hk => (h.covers k).mpr ⟨j, hk⟩) And.right
  · rcases hheld j k hj with hk | ⟨rfl, hk⟩ <;> rcases hheld j' k hj' with hk' | ⟨rfl, hk'⟩
    · exact h.unique j j' k hk hk'
    · exact absurd ((h.covers k).mpr ⟨j, hk⟩) (hfree k hk')
    · exact absurd ((h.covers k).mpr ⟨j', hk'⟩) (hfree k hk)
    · rfl

theorem release (h : Owned marks held) (i : ι) (ks) (hmarks : marks' = marks \ ks)
    (hself : held' i = held i \ ks) (hother : ∀ j, j ≠ i → held' j = held j)
    (hown : ∀ k ∈ ks, k ∈ marks → k ∈ held i) : Owned marks' held' := by
  have hheld : ∀ j k, k ∈ held' j ↔ k ∈ held j ∧ k ∉ ks := by
    intro j k
    by_cases hj : j = i
    · subst hj
      rw [hself]
      rfl
    · rw [hother j hj]
      refine ⟨fun hk => ⟨hk, fun hks => hj ?_⟩, And.left⟩
      exact h.unique j i k hk (hown k hks ((h.covers k).mpr ⟨j, hk⟩))
  refine ⟨fun k => ?_, fun j j' k hj hj' => ?_⟩
  · rw [hmarks]
    refine ⟨fun hk => ?_, fun ⟨j, hj⟩ => ?_⟩
    · obtain ⟨j, hj⟩ := (h.covers k).mp hk.1
      exact ⟨j, (hheld j k).mpr ⟨hj, hk.2⟩⟩
    · obtain ⟨hj, hk⟩ := (hheld j k).mp hj
      exact ⟨(h.covers k).mpr ⟨j, hj⟩, hk⟩
  · exact h.unique j j' k ((hheld j k).mp hj).1 ((hheld j' k).mp hj').1

end Owned

end Datasystem.Lib
