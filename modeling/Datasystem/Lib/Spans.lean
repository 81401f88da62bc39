import Datasystem.Lib.Sorting

/-! Closed spans of points of `Fin N`. `cut` splits the whole line at a list of
boundaries, and `append` adds a span at the upper end of a list, joining it to
the last span when the two touch. -/

namespace Datasystem.Lib.Spans

open Sorting List

variable {N : Nat}

/-- The points from `lo` to `hi`, both included. -/
structure Span (N : Nat) where
  lo : Fin N
  hi : Fin N
deriving DecidableEq

namespace Span

def Contains (s : Span N) (t : Fin N) : Prop := s.lo ≤ t ∧ t ≤ s.hi

instance (s : Span N) (t : Fin N) : Decidable (s.Contains t) := by
  unfold Contains
  infer_instance

end Span

/-- Some span of the list contains the point. -/
def Covers (l : List (Span N)) (t : Fin N) : Prop := ∃ s ∈ l, s.Contains t

/-- Non-empty spans in ascending order, no two of them overlapping. -/
structure Ascending (l : List (Span N)) : Prop where
  nonempty : ∀ s ∈ l, s.lo ≤ s.hi
  apart : l.Pairwise fun a b => a.hi < b.lo

@[simp] theorem covers_nil (t) : ¬Covers ([] : List (Span N)) t := by
  simp [Covers]

variable {l ss : List (Span N)} {t : Fin N} {s : Span N} {bs : List (Fin N)}

@[simp] theorem covers_append {l'} : Covers (l ++ l') t ↔ Covers l t ∨ Covers l' t := by
  simp [Covers, or_and_right, exists_or]

@[simp] theorem covers_singleton : Covers [s] t ↔ s.Contains t := by
  simp [Covers]

@[simp] theorem covers_cons : Covers (s :: l) t ↔ s.Contains t ∨ Covers l t := by
  simp [Covers]

theorem Ascending.nil : Ascending ([] : List (Span N)) := ⟨by simp, .nil⟩

theorem Ascending.sublist {l'} (h : Ascending l) (hs : l'.Sublist l) : Ascending l' :=
  ⟨fun s hm => h.nonempty s (hs.subset hm), h.apart.sublist hs⟩

theorem Ascending.lo_lt (h : Ascending l) : l.Pairwise fun a b => a.lo < b.lo :=
  h.apart.imp_of_mem fun ha _ hlt => lt_of_le_of_lt (h.nonempty _ ha) hlt

theorem Ascending.nodup (h : Ascending l) : l.Nodup := by
  refine List.Pairwise.imp ?_ h.lo_lt
  intro a b hlt heq
  rw [heq] at hlt
  exact lt_irrefl _ hlt

/-! ## Appending at the upper end -/

/-- Add a span above all others, extending the last one when it ends right below. -/
def append (l : List (Span N)) (s : Span N) : List (Span N) :=
  match l.getLast? with
  | some b => if b.hi.val + 1 = s.lo.val then l.dropLast ++ [⟨b.lo, s.hi⟩] else l ++ [s]
  | none => [s]

theorem append_concat (l : List (Span N)) (b s : Span N) : append (l ++ [b]) s =
      if b.hi.val + 1 = s.lo.val then l ++ [⟨b.lo, s.hi⟩] else l ++ [b] ++ [s] := by
  simp [append]

theorem mem_append_hi {r} (h : r ∈ append l s) : ∃ s' ∈ l ++ [s], r.hi = s'.hi := by
  rcases l.eq_nil_or_concat with rfl | ⟨init, b, rfl⟩
  · exact ⟨s, by simp, by simpa [append] using congrArg Span.hi (mem_singleton.mp h)⟩
  · rw [concat_eq_append] at h ⊢
    rw [append_concat] at h
    split at h
    · rcases mem_append.mp h with h | h
      · exact ⟨r, by simp [h], rfl⟩
      · rw [mem_singleton.mp h]
        exact ⟨s, by simp, rfl⟩
    · exact ⟨r, h, rfl⟩

theorem mem_foldl_append_hi {r} (h : r ∈ ss.foldl append l) : ∃ s ∈ l ++ ss, r.hi = s.hi := by
  induction ss generalizing l with
  | nil => exact ⟨r, by simpa using h, rfl⟩
  | cons _ _ ih =>
    obtain ⟨r', hr', heq⟩ := ih h
    rcases mem_append.mp hr' with hr' | hr'
    · obtain ⟨s', hs', heq'⟩ := mem_append_hi hr'
      refine ⟨s', ?_, heq.trans heq'⟩
      rcases mem_append.mp hs' with hs' | hs'
      · exact mem_append_left _ hs'
      · exact mem_append_right _ (mem_cons.mpr (.inl (mem_singleton.mp hs')))
    · exact ⟨r', mem_append_right _ (mem_cons_of_mem _ hr'), heq⟩

theorem Ascending.hi_nodup (h : Ascending l) : (l.map Span.hi).Nodup := by
  refine pairwise_map.mpr (h.apart.imp_of_mem fun {a b} _ hb hlt heq => ?_)
  have hle := h.nonempty b hb
  rw [heq] at hlt
  exact absurd hle (not_le_of_gt hlt)

/-! ## Cutting the line at boundaries -/

variable [NeZero N]

/-- The highest point. -/
def top : Fin N := ⟨N - 1, Nat.sub_lt (Nat.pos_of_neZero N) Nat.one_pos⟩

theorem le_top (t : Fin N) : t ≤ top := Fin.le_def.mpr (Nat.le_sub_one_of_lt t.isLt)

/-- The spans that start at a boundary and end right below the next one. -/
def cut : List (Fin N) → List (Span N)
  | [] => []
  | [b] => [⟨b, top⟩]
  | b :: b' :: rest => ⟨b, b' - 1⟩ :: cut (b' :: rest)

theorem val_sub_one {a b} (h : a < b) : (b - 1 : Fin N).val = b.val - 1 := by
  have hone : (1 : Fin N).val = 1 := by
    rw [Fin.val_one', Nat.mod_eq_of_lt (by omega)]
  rw [Fin.sub_val_of_le (Fin.le_def.mpr (by omega)), hone]

theorem lo_mem_of_mem_cut (h : s ∈ cut bs) : s.lo ∈ bs := by
  induction bs using cut.induct with
  | case1 => simp [cut] at h
  | case2 b => simp_all [cut]
  | case3 _ _ _ ih =>
    simp only [cut, mem_cons] at h
    rcases h with rfl | h
    · exact mem_cons_self
    · exact mem_cons_of_mem _ (ih h)

/-- No boundary falls inside a span behind its first point. -/
theorem cut_spec (hbs : bs.Pairwise (· < ·)) (h : s ∈ cut bs) :
    s.lo ≤ s.hi ∧ ∀ b ∈ bs, b ≤ s.lo ∨ s.hi < b := by
  induction bs using cut.induct with
  | case1 => simp [cut] at h
  | case2 b =>
    simp only [cut, mem_singleton] at h
    subst h
    exact ⟨le_top b, by simp⟩
  | case3 b b' rest ih =>
    obtain ⟨hb, hrest⟩ := pairwise_cons.mp hbs
    simp only [cut, mem_cons] at h
    rcases h with rfl | h
    · have hlt := hb b' mem_cons_self
      have hval := val_sub_one hlt
      refine ⟨Fin.le_def.mpr (by simp only; omega), fun c hc => ?_⟩
      rcases mem_cons.mp hc with rfl | hc
      · exact .inl (le_refl _)
      · right
        have hbc : b' ≤ c := by
          rcases mem_cons.mp hc with rfl | hc
          · exact le_refl _
          · exact le_of_lt ((pairwise_cons.mp hrest).1 c hc)
        exact Fin.lt_def.mpr (by simp only; omega)
    · obtain ⟨hle, hgap⟩ := ih hrest h
      refine ⟨hle, fun c hc => ?_⟩
      rcases mem_cons.mp hc with rfl | hc
      · exact .inl (le_of_lt (hb _ (lo_mem_of_mem_cut h)))
      · exact hgap c hc

/-- A span ends right below a boundary or at the top. -/
theorem hi_of_mem_cut (hbs : bs.Pairwise (· < ·))
    (h : s ∈ cut bs) : s.hi = top ∨ ∃ b ∈ bs, s.hi.val + 1 = b.val := by
  induction bs using cut.induct with
  | case1 => simp [cut] at h
  | case2 =>
    simp only [cut, mem_singleton] at h
    exact .inl (congrArg Span.hi h)
  | case3 b b' rest ih =>
    obtain ⟨hb, hrest⟩ := pairwise_cons.mp hbs
    simp only [cut, mem_cons] at h
    rcases h with rfl | h
    · have hlt := hb b' mem_cons_self
      have hval := val_sub_one hlt
      exact .inr ⟨b', by simp, by simp only; omega⟩
    · rcases ih hrest h with heq | ⟨c, hc, heq⟩
      · exact .inl heq
      · exact .inr ⟨c, mem_cons_of_mem _ hc, heq⟩

theorem cut_ascending (hbs : bs.Pairwise (· < ·)) : Ascending (cut bs) := by
  refine ⟨fun s hs => (cut_spec hbs hs).1, ?_⟩
  induction bs using cut.induct with
  | case1 => exact .nil
  | case2 => simp [cut]
  | case3 b b' rest ih =>
    obtain ⟨hb, hrest⟩ := pairwise_cons.mp hbs
    have hval := val_sub_one (hb b' mem_cons_self)
    have hlt : b.val < b'.val := hb b' mem_cons_self
    refine pairwise_cons.mpr ⟨fun s hs => ?_, ih hrest⟩
    have hlo : b' ≤ s.lo := by
      rcases mem_cons.mp (lo_mem_of_mem_cut hs) with heq | hmem
      · exact le_of_eq heq.symm
      · exact le_of_lt ((pairwise_cons.mp hrest).1 _ hmem)
    exact Fin.lt_def.mpr (by simp only; omega)

theorem cut_covers {b} (hbs : (b :: bs).Pairwise (· < ·))
    (ht : b ≤ t) : Covers (cut (b :: bs)) t := by
  induction bs generalizing b with
  | nil => exact ⟨⟨b, top⟩, by simp [cut], ht, le_top t⟩
  | cons b' rest ih =>
    obtain ⟨hb, hrest⟩ := pairwise_cons.mp hbs
    rw [cut, covers_cons]
    by_cases htb : b' ≤ t
    · exact .inr (ih hrest htb)
    · have hval := val_sub_one (hb b' mem_cons_self)
      exact .inl ⟨ht, Fin.le_def.mpr (by simp only; omega)⟩

/-! Merging spans. Sorted spans are folded into an ascending list: a span joins the last one of
the list when no point lies between the two. A binary search then decides whether a point is
covered. -/

variable {N : Nat} [NeZero N]

theorem val_add_one {a : Fin N} (h : a ≠ top) : (a + 1).val = a.val + 1 := by
  have hlt : a.val < N - 1 := by
    have hne : a.val ≠ N - 1 := fun heq => h (Fin.ext heq)
    omega
  rw [Fin.val_add, Fin.val_one', Nat.add_mod_mod, Nat.mod_eq_of_lt (by omega)]

/-- Add a span that starts no lower than the last one; the two become one if no point lies
between them. -/
def mergeNext (merged : List (Span N)) (s : Span N) : List (Span N) :=
  match merged.getLast? with
  | none => [s]
  | some b =>
    if b.hi ≠ top ∧ b.hi + 1 < s.lo then merged ++ [s]
    else merged.dropLast ++ [⟨b.lo, max b.hi s.hi⟩]

/-- Spans in any order, as an ascending list of the same points. -/
def merge (l : List (Span N)) : List (Span N) :=
  (sortBy (fun s => toLex (s.lo, s.hi)) l).foldl mergeNext []

theorem mergeNext_concat (l : List (Span N)) (b s : Span N) : mergeNext (l ++ [b]) s =
      if b.hi ≠ top ∧ b.hi + 1 < s.lo then l ++ [b] ++ [s] else l ++ [⟨b.lo, max b.hi s.hi⟩] := by
  simp [mergeNext]

/-- What a list needs before a span is merged into it. -/
structure MergesInto (l : List (Span N)) (s : Span N) : Prop where
  ascending : Ascending l
  lo_le : ∀ b ∈ l, b.lo ≤ s.lo
  nonempty : s.lo ≤ s.hi

namespace MergesInto

variable {l : List (Span N)} {b s : Span N}

/-- A span that is kept apart lies above the last one. -/
theorem hi_lt (hapart : b.hi ≠ top ∧ b.hi + 1 < s.lo) : b.hi < s.lo := by
  have hval := val_add_one hapart.1
  omega

/-- Otherwise it starts inside the last one or right above it. -/
theorem lo_le_succ (hjoined : ¬ (b.hi ≠ top ∧ b.hi + 1 < s.lo)) : s.lo.val ≤ b.hi.val + 1 := by
  by_cases htop : b.hi = top
  · have hle := le_top s.lo
    omega
  · have hle := not_lt.mp (not_and.mp hjoined htop)
    rw [Fin.le_def, val_add_one htop] at hle
    exact hle

theorem contains_joined (hle : b.lo ≤ s.lo)
    (hjoined : ¬ (b.hi ≠ top ∧ b.hi + 1 < s.lo)) (t) :
    Span.Contains ⟨b.lo, max b.hi s.hi⟩ t ↔ b.Contains t ∨ s.Contains t := by
  have hsucc := lo_le_succ hjoined
  simp only [Span.Contains, le_max_iff, Fin.le_def] at hle ⊢
  omega

theorem ascending_mergeNext (h : MergesInto l s) : Ascending (mergeNext l s) := by
  rcases l.eq_nil_or_concat with rfl | ⟨init, b, rfl⟩
  · exact ⟨by simpa [mergeNext] using h.nonempty, pairwise_singleton _ _⟩
  · rw [concat_eq_append] at h ⊢
    rw [mergeNext_concat]
    obtain ⟨-, -, hbelow⟩ := pairwise_append.mp h.ascending.apart
    have hb := h.ascending.nonempty b (by simp)
    split
    · rename_i hapart
      refine ⟨fun a ha => ?_, pairwise_append.mpr ⟨h.ascending.apart, by simp, ?_⟩⟩
      · rcases mem_append.mp ha with ha | ha
        · exact h.ascending.nonempty a ha
        · exact mem_singleton.mp ha ▸ h.nonempty
      · intro a ha c hc
        rw [mem_singleton.mp hc]
        have hlt := hi_lt hapart
        rcases mem_append.mp ha with ha | ha
        · exact ((hbelow a ha b (by simp)).trans_le hb).trans hlt
        · exact mem_singleton.mp ha ▸ hlt
    · refine ⟨fun a ha => ?_, pairwise_append.mpr
        ⟨(pairwise_append.mp h.ascending.apart).1, by simp, ?_⟩⟩
      · rcases mem_append.mp ha with ha | ha
        · exact h.ascending.nonempty a (mem_append_left _ ha)
        · rw [mem_singleton.mp ha]
          exact hb.trans (le_max_left _ _)
      · intro a ha c hc
        rw [mem_singleton.mp hc]
        exact hbelow a ha b (by simp)

theorem covers_mergeNext (h : MergesInto l s) (t : Fin N) :
    Covers (mergeNext l s) t ↔ Covers l t ∨ s.Contains t := by
  rcases l.eq_nil_or_concat with rfl | ⟨init, b, rfl⟩
  · simp [mergeNext]
  · rw [concat_eq_append] at h ⊢
    rw [mergeNext_concat]
    split
    · rw [covers_append, covers_singleton]
    · rename_i hjoined
      rw [covers_append, covers_append, covers_singleton, covers_singleton,
        contains_joined (h.lo_le b (by simp)) hjoined, or_assoc]

theorem lo_le_mergeNext (h : MergesInto l s) : ∀ a ∈ mergeNext l s, a.lo ≤ s.lo := by
  rcases l.eq_nil_or_concat with rfl | ⟨init, b, rfl⟩
  · simp [mergeNext]
  · rw [concat_eq_append] at h ⊢
    rw [mergeNext_concat]
    intro a ha
    split at ha
    · rcases mem_append.mp ha with ha | ha
      · exact h.lo_le a ha
      · exact (mem_singleton.mp ha ▸ le_refl _)
    · rcases mem_append.mp ha with ha | ha
      · exact h.lo_le a (mem_append_left _ ha)
      · rw [mem_singleton.mp ha]
        exact h.lo_le b (by simp)

end MergesInto

theorem foldl_mergeNext {l merged : List (Span N)} (hmerged : Ascending merged)
    (hbelow : ∀ b ∈ merged, ∀ s ∈ l, b.lo ≤ s.lo) (hsorted : l.Pairwise fun a b => a.lo ≤ b.lo)
    (hnonempty : ∀ s ∈ l, s.lo ≤ s.hi) :
    Ascending (l.foldl mergeNext merged) ∧
      ∀ t, Covers (l.foldl mergeNext merged) t ↔ Covers merged t ∨ Covers l t := by
  induction l generalizing merged with
  | nil => exact ⟨hmerged, fun t => by simp⟩
  | cons s _ ih =>
    obtain ⟨hfirst, hrest⟩ := pairwise_cons.mp hsorted
    have hinto : MergesInto merged s :=
      ⟨hmerged, fun b hb => hbelow b hb s (by simp), hnonempty s (by simp)⟩
    obtain ⟨hascending, hcovers⟩ := ih hinto.ascending_mergeNext
      (fun a ha c hc => (hinto.lo_le_mergeNext a ha).trans (hfirst c hc)) hrest
      (fun a ha => hnonempty a (mem_cons_of_mem _ ha))
    refine ⟨hascending, fun t => ?_⟩
    rw [foldl_cons, hcovers, hinto.covers_mergeNext, covers_cons, or_assoc]

theorem merge_spec {l : List (Span N)} (h : ∀ s ∈ l, s.lo ≤ s.hi) :
    Ascending (merge l) ∧ ∀ t, Covers (merge l) t ↔ Covers l t := by
  have hsorted : (sortBy (fun s => toLex (s.lo, s.hi)) l).Pairwise fun a b => a.lo ≤ b.lo := by
    refine (sortBy_pairwise _ l).imp ?_
    intro a b hle
    rcases Prod.Lex.toLex_le_toLex.mp hle with hlt | ⟨heq, -⟩
    · exact hlt.le
    · exact heq.le
  obtain ⟨hascending, hcovers⟩ := foldl_mergeNext Ascending.nil (by simp) hsorted
    (fun s hs => h s (mem_sortBy.mp hs))
  refine ⟨hascending, fun t => (hcovers t).trans ?_⟩
  simp [Covers]

/-! ## Ascending spans

Spans that are ascending already are merged by `append`. -/

theorem append_eq_mergeNext {l : List (Span N)} {s} (hs : s.lo ≤ s.hi)
    (hlast : ∀ b ∈ l.getLast?, b.hi < s.lo) : append l s = mergeNext l s := by
  rcases l.eq_nil_or_concat with rfl | ⟨init, b, rfl⟩
  · rfl
  · rw [concat_eq_append, append_concat, mergeNext_concat]
    have hlt : b.hi < s.lo := hlast b (by simp)
    have htop : b.hi ≠ top := (hlt.trans_le (le_top _)).ne
    have hval := val_add_one htop
    by_cases hnext : b.hi.val + 1 = s.lo.val
    · rw [if_pos hnext, if_neg (by omega), max_eq_right (hlt.le.trans hs)]
    · rw [if_neg hnext, if_pos ⟨htop, by omega⟩]

theorem foldl_append_eq_mergeNext {l ss : List (Span N)} (h : Ascending ss)
    (hlast : ∀ b ∈ l.getLast?, ∀ s ∈ ss, b.hi < s.lo) :
    ss.foldl append l = ss.foldl mergeNext l := by
  induction ss generalizing l with
  | nil => rfl
  | cons s rest ih =>
    obtain ⟨hbelow, -⟩ := pairwise_cons.mp h.apart
    rw [foldl_cons, foldl_cons, ← append_eq_mergeNext (h.nonempty s mem_cons_self)
      fun b hb => hlast b hb s mem_cons_self]
    refine ih (h.sublist (sublist_cons_self s rest)) fun b hb a ha => ?_
    -- the last span ends where the new one does
    have hhi : b.hi = s.hi := by
      rcases l.eq_nil_or_concat with rfl | ⟨init, b', rfl⟩
      · simp_all [append]
      · rw [concat_eq_append, append_concat] at hb
        split at hb <;> rw [← Option.some.inj (getLast?_concat.symm.trans hb)]
    exact hhi ▸ hbelow a ha

theorem foldl_append_spec {ss : List (Span N)} (h : Ascending ss) :
    Ascending (ss.foldl append []) ∧ ∀ t, Covers (ss.foldl append []) t ↔ Covers ss t := by
  rw [foldl_append_eq_mergeNext h (by simp)]
  obtain ⟨hascending, hcovers⟩ := foldl_mergeNext .nil (by simp) (h.lo_lt.imp le_of_lt) h.nonempty
  exact ⟨hascending, fun t => (hcovers t).trans (by simp)⟩

omit [NeZero N] in
/-- In an ascending list, only the first span that does not end below a point can contain it. -/
theorem Ascending.covers_iff_find? {l} (h : Ascending l) (t : Fin N) :
    Covers l t ↔ (l.find? fun s => ¬ s.hi < t).any fun s => s.lo ≤ t := by
  induction l with
  | nil => simp
  | cons s rest ih =>
    obtain ⟨hfirst, -⟩ := pairwise_cons.mp h.apart
    rw [covers_cons]
    by_cases hlt : s.hi < t
    · have hnot : ¬ s.Contains t := fun hs => hlt.not_ge hs.2
      rw [find?_cons_of_neg (by simpa using hlt), ← ih (h.sublist (sublist_cons_self _ _))]
      exact or_iff_right hnot
    · -- the later spans lie above the point
      have hnone : ¬ Covers rest t := by
        rintro ⟨a, ha, hlo, -⟩
        exact hlt ((hfirst a ha).trans_le hlo)
      rw [find?_cons_of_pos (by simpa using hlt), or_iff_left hnone]
      simp [Span.Contains, not_lt.mp hlt]

end Datasystem.Lib.Spans
