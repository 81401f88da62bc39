import Mathlib

/-! Sorting a list by a key. The sort is structural, so it also runs inside the
kernel. Once the keys are distinct, the result depends only on which entries
the list holds. -/

namespace Datasystem.Lib.Sorting

variable {α κ : Type} [LinearOrder κ]

/-- The entries of `l` in ascending order of their key. -/
def sortBy (key : α → κ) (l : List α) : List α :=
  l.insertionSort fun a b => key a ≤ key b

variable (key : α → κ)

instance total_of_key : Std.Total fun a b : α => key a ≤ key b :=
  ⟨fun a b => le_total (key a) (key b)⟩

instance isTrans_of_key : IsTrans α fun a b => key a ≤ key b := ⟨fun _ _ _ => le_trans⟩

theorem sortBy_perm (l) : (sortBy key l).Perm l := List.perm_insertionSort _ l

@[simp] theorem mem_sortBy {key : α → κ} {l : List α} {a : α} : a ∈ sortBy key l ↔ a ∈ l :=
  (sortBy_perm key l).mem_iff

@[simp] theorem length_sortBy (l) : (sortBy key l).length = l.length :=
  (sortBy_perm key l).length_eq

theorem sortBy_pairwise (l) : (sortBy key l).Pairwise fun a b => key a ≤ key b :=
  List.pairwise_insertionSort _ l

theorem sortBy_strict {key : α → κ} {l : List α} (hn : (l.map key).Nodup) :
    (sortBy key l).Pairwise fun a b => key a < key b := by
  have hs : ((sortBy key l).map key).Nodup := ((sortBy_perm key l).map key).nodup_iff.mpr hn
  have hne : (sortBy key l).Pairwise fun a b => key a ≠ key b := List.pairwise_map.mp hs
  exact (sortBy_pairwise key l).imp₂ (fun _ _ hle hne => lt_of_le_of_ne hle hne) hne

theorem strict_ext {l l' : List α} (hl : l.Pairwise fun a b => key a < key b)
    (hl' : l'.Pairwise fun a b => key a < key b) (h : ∀ a, a ∈ l ↔ a ∈ l') : l = l' := by
  have hn : ∀ {m : List α}, (m.Pairwise fun a b => key a < key b) → m.Nodup := fun hm =>
    hm.imp fun hlt he => absurd (he ▸ hlt) (lt_irrefl _)
  have hp : l.Perm l' := (List.perm_ext_iff_of_nodup (hn hl) (hn hl')).mpr h
  exact hp.eq_of_pairwise (fun a b _ _ hab hba => absurd hab (lt_asymm hba)) hl hl'

theorem sortBy_of_strict {key : α → κ} {l : List α} (hl : l.Pairwise fun a b => key a < key b) :
    sortBy key l = l := by
  have hn : (l.map key).Nodup := List.pairwise_map.mpr (hl.imp ne_of_lt)
  exact strict_ext key (sortBy_strict hn) hl fun a => mem_sortBy

theorem pairwise_trichotomy {R : α → α → Prop} {l : List α} (h : l.Pairwise R) {a b : α}
    (ha : a ∈ l) (hb : b ∈ l) : a = b ∨ R a b ∨ R b a := by
  have hsymm : Std.Symm fun x y => R x y ∨ R y x := ⟨fun _ _ hxy => hxy.symm⟩
  by_cases hab : a = b
  · exact .inl hab
  · exact .inr ((h.imp Or.inl : l.Pairwise fun x y => R x y ∨ R y x).forall ha hb hab)

end Datasystem.Lib.Sorting
