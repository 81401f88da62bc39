import Mathlib

/-! Cutting a list into pieces of bounded length, as a loop that advances an offset
by a fixed stride does. -/

namespace Datasystem.Lib.Chunks

open List

variable {α : Type}

/-- At most `fuel` pieces of at most `n` entries each. -/
def chunksFrom (n : Nat) : (fuel : Nat) → List α → List (List α)
  | 0, _ => []
  | _ + 1, [] => []
  | fuel + 1, x :: rest => (x :: rest).take n :: chunksFrom n fuel ((x :: rest).drop n)

def chunks (n : Nat) (l : List α) : List (List α) := chunksFrom n l.length l

variable {l : List α} {n fuel : Nat}

theorem flatten_chunksFrom (hn : 0 < n) (h : l.length ≤ fuel) :
    (chunksFrom n fuel l).flatten = l := by
  induction fuel generalizing l with
  | zero =>
    rw [eq_nil_of_length_eq_zero (Nat.le_zero.mp h)]
    rfl
  | succ fuel ih =>
    cases l with
    | nil => rfl
    | cons x rest =>
      have hdrop : ((x :: rest).drop n).length ≤ fuel := by
        rw [length_drop, length_cons]
        simp only [length_cons] at h
        omega
      rw [chunksFrom, flatten_cons, ih hdrop, take_append_drop]

variable {n : Nat}

theorem flatten_chunks (hn : 0 < n) (l : List α) : (chunks n l).flatten = l :=
  flatten_chunksFrom hn (Nat.le_refl _)

theorem mem_chunksFrom (hn : 0 < n) {l c : List α} (h : c ∈ chunksFrom n fuel l) :
    c ≠ [] ∧ c.length ≤ n ∧ c.Sublist l := by
  induction fuel generalizing l with
  | zero => cases h
  | succ fuel ih =>
    cases l with
    | nil => cases h
    | cons x rest =>
      rcases mem_cons.mp h with rfl | h
      · refine ⟨?_, length_take_le _ _, take_sublist _ _⟩
        cases n with
        | zero => omega
        | succ => simp
      · obtain ⟨hne, hlen, hsub⟩ := ih h
        exact ⟨hne, hlen, hsub.trans (drop_sublist _ _)⟩

/-- A piece is not empty, not longer than the stride and keeps the order of the list. -/
theorem mem_chunks (hn : 0 < n) {l c : List α} (h : c ∈ chunks n l) :
    c ≠ [] ∧ c.length ≤ n ∧ c.Sublist l :=
  mem_chunksFrom hn h

theorem length_chunksFrom_mul_lt (hn : 0 < n) (l : List α) :
    (chunksFrom n fuel l).length * n < l.length + n := by
  induction fuel generalizing l with
  | zero => simpa [chunksFrom] using by omega
  | succ fuel ih =>
    cases l with
    | nil => simpa [chunksFrom] using hn
    | cons x rest =>
      have hrest := ih ((x :: rest).drop n)
      rw [chunksFrom, length_cons, Nat.add_one_mul]
      rw [length_drop] at hrest
      by_cases hlen : n ≤ (x :: rest).length
      · omega
      · have hnone : (x :: rest).length - n = 0 := by omega
        have hzero : (chunksFrom n fuel ((x :: rest).drop n)).length = 0 := by
          rw [drop_eq_nil_of_le (by omega)]
          cases fuel <;> rfl
        have hpos : 0 < (x :: rest).length := by simp
        rw [hzero]
        omega

theorem length_chunks_mul_lt (hn : 0 < n) (l : List α) :
    (chunks n l).length * n < l.length + n :=
  length_chunksFrom_mul_lt hn l

theorem chunks_pairwise_ne (hn : 0 < n) (h : l.Nodup) :
    (chunks n l).Pairwise (· ≠ ·) := by
  rw [← flatten_chunks hn l] at h
  refine (nodup_flatten.mp h).2.imp_of_mem fun {a b} ha _ hdisjoint heq => ?_
  obtain ⟨_, hx⟩ := exists_mem_of_ne_nil _ (mem_chunks hn ha).1
  exact hdisjoint hx (heq ▸ hx)

/-- What the entries of one key contribute. -/
theorem filter_flatMap_group {β κ : Type} [DecidableEq κ] {key : α → κ} {key' : β → κ}
    {f : α → List β} (hkey : ∀ a ∈ l, ∀ b ∈ f a, key' b = key a) (k : κ) :
    (l.flatMap f).filter (fun b => key' b = k) = (l.filter fun a => key a = k).flatMap f := by
  induction l with
  | nil => rfl
  | cons x _ ih =>
    obtain ⟨hx, hrest⟩ := forall_mem_cons.mp hkey
    rw [flatMap_cons, filter_append, ih hrest, filter_cons]
    by_cases hk : key x = k
    · rw [if_pos (decide_eq_true hk), flatMap_cons,
        filter_eq_self.mpr fun b hb => by simp [hx b hb, hk]]
    · rw [if_neg (by simpa using hk),
        filter_eq_nil_iff.mpr fun b hb => by simp [hx b hb, hk], nil_append]

/-- What an entry contributes can be found by its key. -/
theorem filter_flatMap_key {β κ : Type} [DecidableEq κ] {key : α → κ} {key' : β → κ}
    {f : α → List β} (hkey : ∀ a ∈ l, ∀ b ∈ f a, key' b = key a) (hn : (l.map key).Nodup) {a : α}
    (ha : a ∈ l) :
    (l.flatMap f).filter (fun b => key' b = key a) = f a := by
  have hone : (l.filter fun x => key x = key a) = [a] := by
    refine perm_singleton.mp ((perm_ext_iff_of_nodup (hn.of_map.filter _)
      (nodup_singleton a)).mpr fun x => ?_)
    rw [mem_filter, mem_singleton, decide_eq_true_eq]
    exact ⟨fun hx => inj_on_of_nodup_map hn hx.1 ha hx.2, by rintro rfl; exact ⟨ha, rfl⟩⟩
  rw [filter_flatMap_group hkey, hone, flatMap_singleton]

end Datasystem.Lib.Chunks
