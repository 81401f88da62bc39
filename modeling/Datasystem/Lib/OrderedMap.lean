import Datasystem.Lib.Sorting

/-! Ordered maps as association lists with strictly ascending keys. The order is
a field, so every map built by the operations iterates in key order and a map
is determined by what its lookups return. -/

namespace Datasystem.Lib

open Sorting List

/-- An association list with strictly ascending keys. -/
structure OrderedMap (κ ν : Type) [LinearOrder κ] where
  entries : List (κ × ν)
  sorted : entries.Pairwise fun a b => a.1 < b.1

variable {κ ν : Type} [LinearOrder κ]

namespace OrderedMap

def empty : OrderedMap κ ν := ⟨[], .nil⟩

def find? (m : OrderedMap κ ν) (k : κ) : Option ν :=
  (m.entries.find? fun e => e.1 = k).map Prod.snd

variable (m : OrderedMap κ ν) (k : κ)

def keys : List κ := m.entries.map Prod.fst

def values : List ν := m.entries.map Prod.snd

/-- Replace the value at `k` by `f` of the old one, at the key's place in the order. -/
def alterEntries (k : κ) (f : Option ν → ν) : List (κ × ν) → List (κ × ν)
  | [] => [(k, f none)]
  | (k', v) :: rest =>
    if k < k' then (k, f none) :: (k', v) :: rest
    else if k = k' then (k, f (some v)) :: rest
    else (k', v) :: alterEntries k f rest

theorem mem_alterEntries {k : κ} {f : Option ν → ν} {l : List (κ × ν)} {e : κ × ν}
    (h : e ∈ alterEntries k f l) : e.1 = k ∨ e ∈ l := by
  induction l with
  | nil => simp_all [alterEntries]
  | cons hd _ ih =>
    obtain ⟨_, _⟩ := hd
    simp only [alterEntries] at h
    split at h
    · rcases mem_cons.mp h with rfl | h
      · exact .inl rfl
      · exact .inr h
    · split at h
      · rcases mem_cons.mp h with rfl | h
        · exact .inl rfl
        · exact .inr (mem_cons_of_mem _ h)
      · rcases mem_cons.mp h with rfl | h
        · exact .inr mem_cons_self
        · exact (ih h).imp_right (mem_cons_of_mem _)

theorem alterEntries_sorted (f) {l : List (κ × ν)} (h : l.Pairwise fun a b => a.1 < b.1) :
    (alterEntries k f l).Pairwise fun a b => a.1 < b.1 := by
  induction l with
  | nil => simp [alterEntries]
  | cons hd rest ih =>
    obtain ⟨_, _⟩ := hd
    obtain ⟨hhd, hrest⟩ := pairwise_cons.mp h
    simp only [alterEntries]
    split
    · rename_i hlt
      refine pairwise_cons.mpr ⟨fun e he => ?_, h⟩
      rcases mem_cons.mp he with rfl | he
      · exact hlt
      · exact lt_trans hlt (hhd e he)
    · split
      · rename_i heq
        exact pairwise_cons.mpr ⟨fun e he => heq ▸ hhd e he, hrest⟩
      · rename_i hnlt hne
        refine pairwise_cons.mpr ⟨fun e he => ?_, ih hrest⟩
        rcases mem_alterEntries he with heq | he
        · exact heq ▸ lt_of_le_of_ne (le_of_not_gt hnlt) (Ne.symm hne)
        · exact hhd e he

def alter (f : Option ν → ν) : OrderedMap κ ν :=
  ⟨alterEntries k f m.entries, alterEntries_sorted k f m.sorted⟩

def insert (v : ν) : OrderedMap κ ν := m.alter k fun _ => v

/-- Keep the entries whose key satisfies `p`. -/
def filterKeys (p : κ → Bool) : OrderedMap κ ν :=
  ⟨m.entries.filter fun e => p e.1, m.sorted.filter _⟩

variable (f : ν → ν)

def mapValues : OrderedMap κ ν :=
  ⟨m.entries.map fun e => (e.1, f e.2), pairwise_map.mpr m.sorted⟩

def erase : OrderedMap κ ν := m.filterKeys fun k' => k' ≠ k

/-- Replace the value at `k` by `f` of it, if there is one. -/
def modify : OrderedMap κ ν :=
  match m.find? k with
  | none => m
  | some v => m.insert k (f v)

@[simp] theorem find?_empty : (empty : OrderedMap κ ν).find? k = none := rfl

theorem mem_entries_iff {m : OrderedMap κ ν} {k : κ} {v : ν} :
    (k, v) ∈ m.entries ↔ m.find? k = some v := by
  obtain ⟨l, hl⟩ := m
  simp only [find?]
  induction l with
  | nil => simp
  | cons hd rest ih =>
    obtain ⟨k', v'⟩ := hd
    obtain ⟨hhd, hrest⟩ := pairwise_cons.mp hl
    by_cases hk : k' = k
    · subst hk
      have hnot : ∀ w, (k', w) ∉ rest := fun w hw => lt_irrefl k' (hhd _ hw)
      simp [hnot, eq_comm]
    · simp [hk, Ne.symm hk, ih hrest]

theorem filter_key_entries :
    (m.entries.filter fun e => e.1 = k) = ((m.find? k).map (Prod.mk k)).toList := by
  obtain ⟨l, hl⟩ := m
  simp only [find?]
  induction l with
  | nil => rfl
  | cons hd rest ih =>
    obtain ⟨k', v'⟩ := hd
    obtain ⟨hhd, hrest⟩ := pairwise_cons.mp hl
    by_cases hk : k' = k
    · subst hk
      have hnone : (rest.filter fun e => e.1 = k') = [] := by
        rw [filter_eq_nil_iff]
        intro e he
        simpa using (hhd e he).ne'
      simp [hnone]
    · simp [hk, ih hrest]

variable (k k' : κ)

theorem find?_alterEntries (f : Option ν → ν) {l} (hl : l.Pairwise fun a b => a.1 < b.1) :
    ((alterEntries k f l).find? fun e => e.1 = k').map Prod.snd =
      if k' = k then some (f ((l.find? fun e => e.1 = k).map Prod.snd))
      else (l.find? fun e => e.1 = k').map Prod.snd := by
  induction l with
  | nil =>
    rcases eq_or_ne k k' with rfl | hk
    · simp [alterEntries]
    · simp [alterEntries, hk, hk.symm]
  | cons hd rest ih =>
    obtain ⟨k'', v⟩ := hd
    obtain ⟨hhd, hrest⟩ := pairwise_cons.mp hl
    have ih := ih hrest
    simp only [alterEntries]
    split
    · rename_i hlt
      -- every later key exceeds `k''`, so none of them is `k`
      have hnone : rest.find? (fun e => decide (e.1 = k)) = none := by
        simp only [find?_eq_none, decide_eq_true_eq]
        exact fun e he heq => lt_asymm hlt (heq ▸ hhd e he)
      rcases eq_or_ne k k' with rfl | hk
      · simp [hnone, hlt.ne']
      · simp [hk, hk.symm]
    · split
      · rename_i heq
        subst heq
        rcases eq_or_ne k k' with rfl | hk
        · simp
        · simp [hk, hk.symm]
      · rename_i hne
        by_cases hk : k'' = k'
        · simp [hk, Ne.symm (hk ▸ hne)]
        · simpa [hk, Ne.symm hne] using ih

theorem find?_alter (f : Option ν → ν) :
    (m.alter k f).find? k' = if k' = k then some (f (m.find? k)) else m.find? k' :=
  find?_alterEntries k k' f m.sorted

theorem find?_insert (v : ν) :
    (m.insert k v).find? k' = if k' = k then some v else m.find? k' :=
  m.find?_alter k k' fun _ => v

theorem ext {m m' : OrderedMap κ ν} (h : ∀ k, m.find? k = m'.find? k) : m = m' := by
  obtain ⟨l, hl⟩ := m
  obtain ⟨l', hl'⟩ := m'
  congr
  refine strict_ext Prod.fst hl hl' fun ⟨k, v⟩ => ?_
  rw [mem_entries_iff (m := ⟨l, hl⟩), mem_entries_iff (m := ⟨l', hl'⟩), h]

theorem alter_eq_insert (f : Option ν → ν) :
    m.alter k f = m.insert k (f (m.find? k)) := by
  apply ext
  intro k'
  rw [find?_alter, find?_insert]

theorem find?_modify :
    (m.modify k f).find? k' = if k' = k then (m.find? k).map f else m.find? k' := by
  unfold modify
  cases hfind : m.find? k with
  | none =>
    by_cases hk : k' = k
    · rw [if_pos hk, hk]
      exact hfind
    · rw [if_neg hk]
  | some v => exact find?_insert m k k' (f v)

theorem find?_mapValues (k : κ) : (m.mapValues f).find? k = (m.find? k).map f := by
  simp only [find?, mapValues, find?_map, Function.comp_def, Option.map_map]

theorem find?_filterKeys (p : κ → Bool) (k : κ) :
    (m.filterKeys p).find? k = if p k then m.find? k else none := by
  apply Option.ext
  intro v
  rw [← mem_entries_iff]
  split <;> simp_all [filterKeys, mem_entries_iff]

theorem find?_erase : (m.erase k).find? k' = if k' = k then none else m.find? k' := by
  rw [erase, find?_filterKeys]
  by_cases h : k' = k <;> simp [h]

theorem alterEntries_of_lt {k : κ} {f : Option ν → ν} {l : List (κ × ν)} (h : ∀ e ∈ l, e.1 < k) :
    alterEntries k f l = l ++ [(k, f none)] := by
  induction l with
  | nil => rfl
  | cons _ _ ih =>
    obtain ⟨he, hrest⟩ := forall_mem_cons.mp h
    rw [alterEntries, if_neg (lt_asymm he), if_neg he.ne', ih hrest, cons_append]

/-- Insertion in ascending order of the keys keeps the order of the list. -/
theorem entries_foldl_insert {α : Type} {key : α → κ} (value : α → ν) {l : List α}
    (h : l.Pairwise fun a b => key a < key b) :
    (l.foldl (fun m a => m.insert (key a) (value a)) empty).entries =
      l.map fun a => (key a, value a) := by
  induction l using List.reverseRecOn with
  | nil => rfl
  | append_singleton l a ih =>
    obtain ⟨hl, -, hlast⟩ := pairwise_append.mp h
    have hlt : ∀ e ∈ l.map fun a => (key a, value a), e.1 < key a := by
      intro e he
      obtain ⟨b, hb, rfl⟩ := mem_map.mp he
      exact hlast b hb a mem_cons_self
    rw [foldl_append, foldl_cons, foldl_nil, insert, alter]
    dsimp only
    rw [ih hl, alterEntries_of_lt hlt, map_append, map_singleton]

theorem foldl_insert_entries :
    m.entries.foldl (fun m e => m.insert e.1 e.2) empty = m := by
  have hentries := @entries_foldl_insert κ ν _ _ Prod.fst Prod.snd _ m.sorted
  rw [map_id'' (fun _ => rfl)] at hentries
  exact ext fun k => by rw [find?, find?, hentries]

instance [DecidableEq ν] : DecidableEq (OrderedMap κ ν) := fun m m' =>
  decidable_of_iff (m.entries = m'.entries) (by cases m; cases m'; simp)

/-! ## Sums over the values -/

def sumBy (f : ν → Nat) : Nat := (m.values.map f).sum

theorem erase_of_find?_eq_none {m : OrderedMap κ ν} {k : κ} (h : m.find? k = none) :
    m.erase k = m := by
  apply ext
  intro k'
  rw [find?_erase]
  by_cases hk : k' = k
  · rw [if_pos hk, hk, h]
  · rw [if_neg hk]

theorem insert_insert (v v' : ν) : (m.insert k v).insert k v' = m.insert k v' := by
  apply ext
  intro k'
  rw [find?_insert, find?_insert, find?_insert]
  by_cases hk : k' = k
  · rw [if_pos hk, if_pos hk]
  · rw [if_neg hk, if_neg hk, if_neg hk]

theorem insert_erase {m : OrderedMap κ ν} {k : κ} {v : ν} (h : m.find? k = some v) :
    (m.erase k).insert k v = m := by
  apply ext
  intro k'
  rw [find?_insert, find?_erase]
  by_cases hk : k' = k
  · rw [if_pos hk, hk, h]
  · rw [if_neg hk, if_neg hk]

theorem entries_insert_perm (v : ν) :
    (m.insert k v).entries.Perm ((k, v) :: (m.erase k).entries) := by
  have hnodup : ∀ m : OrderedMap κ ν, m.entries.Nodup := fun m =>
    m.sorted.imp fun hlt heq => hlt.ne (congrArg Prod.fst heq)
  refine (perm_ext_iff_of_nodup (hnodup _) (nodup_cons.mpr ⟨?_, hnodup _⟩)).mpr fun e => ?_
  · rw [mem_entries_iff, find?_erase, if_pos rfl]
    simp
  · rw [mem_cons, mem_entries_iff, mem_entries_iff, find?_insert, find?_erase]
    split <;> simp_all [Prod.ext_iff, eq_comm]

theorem sumBy_insert_eq (v : ν) (f : ν → Nat) :
    (m.insert k v).sumBy f = f v + (m.erase k).sumBy f := by
  simpa [sumBy, values] using ((m.entries_insert_perm k v).map (f ∘ Prod.snd)).sum_eq

theorem sumBy_erase (f : ν → Nat) : (m.erase k).sumBy f + (m.find? k).elim 0 f = m.sumBy f := by
  cases hfind : m.find? k with
  | none => rw [erase_of_find?_eq_none hfind, Option.elim_none, Nat.add_zero]
  | some v =>
    have h := sumBy_insert_eq (m.erase k) k v f
    rw [insert_erase hfind, erase_of_find?_eq_none ((find?_erase ..).trans (if_pos rfl))] at h
    exact (Nat.add_comm ..).trans h.symm

/-- What the sum gains and loses when a value is replaced. -/
theorem sumBy_insert (v : ν) (f : ν → Nat) :
    (m.insert k v).sumBy f + (m.find? k).elim 0 f = m.sumBy f + f v := by
  rw [sumBy_insert_eq, ← sumBy_erase m k f]
  omega

theorem sumBy_insert_of_eq {m : OrderedMap κ ν} {k : κ} {v : ν} {f : ν → Nat}
    (h : f v = (m.find? k).elim 0 f) : (m.insert k v).sumBy f = m.sumBy f := by
  have hsum := sumBy_insert m k v f
  rw [h] at hsum
  exact Nat.add_right_cancel hsum

theorem le_sumBy {m : OrderedMap κ ν} {k : κ} {v : ν} (h : m.find? k = some v) (f : ν → Nat) :
    f v ≤ m.sumBy f := by
  rw [← sumBy_erase m k f, h]
  exact Nat.le_add_left _ _

theorem sumBy_modify {g : ν → ν} {f : ν → Nat}
    (h : ∀ v, f (g v) = f v) : (m.modify k g).sumBy f = m.sumBy f := by
  unfold modify
  split
  · rfl
  · rename_i v hfind
    exact sumBy_insert_of_eq (by rw [hfind, Option.elim_some, h v])

theorem sumBy_mapValues {g} {f} (h : ∀ v, f (g v) = f v) : (m.mapValues g).sumBy f = m.sumBy f := by
  simp [sumBy, values, mapValues, map_map, Function.comp_def, h]

theorem keys_nodup : m.keys.Nodup := pairwise_map.mpr (m.sorted.imp ne_of_lt)

theorem mem_keys_iff {m : OrderedMap κ ν} {k : κ} : k ∈ m.keys ↔ (m.find? k).isSome := by
  rw [keys, mem_map, Option.isSome_iff_exists]
  constructor
  · intro hk
    obtain ⟨⟨_, v⟩, he, rfl⟩ := hk
    exact ⟨v, mem_entries_iff.mp he⟩
  · intro hk
    obtain ⟨v, hv⟩ := hk
    exact ⟨(k, v), mem_entries_iff.mpr hv, rfl⟩

theorem exists_entries_eq {m : OrderedMap κ ν} {k : κ} {v : ν} (h : m.find? k = some v) :
    ∃ before after, m.entries = before ++ (k, v) :: after ∧ k ∉ before.map Prod.fst ∧
      k ∉ after.map Prod.fst := by
  obtain ⟨before, after, hsplit⟩ := append_of_mem (mem_entries_iff.mpr h)
  have hnodup := m.keys_nodup
  rw [keys, hsplit, map_append, map_cons, nodup_middle, ← map_append,
    nodup_cons, map_append, mem_append, not_or] at hnodup
  exact ⟨before, after, hsplit, hnodup.1.1, hnodup.1.2⟩

/-- A loop over the entries that changes each under its own key only. -/
theorem find?_foldl_entries {σ : Type} (view : σ → OrderedMap κ ν) (g : κ → ν → Option ν)
    {f : σ → κ × ν → σ} {m : OrderedMap κ ν} {s : σ}
    (hother : ∀ s e k, k ≠ e.1 → (view (f s e)).find? k = (view s).find? k)
    (hself : ∀ s e, (view s).find? e.1 = some e.2 → (view (f s e)).find? e.1 = g e.1 e.2)
    (hs : view s = m) (k : κ) : (view (m.entries.foldl f s)).find? k = (m.find? k).bind (g k) := by
  have hunchanged : ∀ (l : List (κ × ν)) s, k ∉ l.map Prod.fst →
      (view (l.foldl f s)).find? k = (view s).find? k := by
    intro l s hl
    refine List.foldlRecOn l f (motive := fun t => (view t).find? k = (view s).find? k) rfl ?_
    intro t ht e he
    exact (hother t e k fun heq => hl (heq ▸ mem_map_of_mem he)).trans ht
  cases hk : m.find? k with
  | none =>
    have hnot : k ∉ m.keys := by simp [mem_keys_iff, hk]
    rw [hunchanged _ _ hnot, hs, hk]
    rfl
  | some v =>
    obtain ⟨before, after, hsplit, hnot, hnot'⟩ := exists_entries_eq hk
    have hbefore := hunchanged before s hnot
    rw [hs, hk] at hbefore
    rw [hsplit, foldl_append, foldl_cons, hunchanged after _ hnot', hself _ (k, v) hbefore]
    rfl

theorem mem_values_iff {m : OrderedMap κ ν} {v : ν} : v ∈ m.values ↔ ∃ k, m.find? k = some v := by
  simp [values, ← mem_entries_iff]

/-! ## Some value has a property -/

def any (m : OrderedMap κ ν) (p : ν → Bool) : Bool := m.values.any p

section

variable {m : OrderedMap κ ν} {k : κ} {v : ν} {p : ν → Bool}

theorem any_iff : m.any p ↔ ∃ k v, m.find? k = some v ∧ p v := by
  rw [any, any_eq_true]
  constructor
  · intro h
    obtain ⟨v, hv, hp⟩ := h
    obtain ⟨k, hk⟩ := mem_values_iff.mp hv
    exact ⟨k, v, hk, hp⟩
  · intro h
    obtain ⟨k, v, hk, hp⟩ := h
    exact ⟨v, mem_values_iff.mpr ⟨k, hk⟩, hp⟩

theorem any_of_find? (hk : m.find? k = some v) (hp : p v) : m.any p := any_iff.mpr ⟨k, v, hk, hp⟩

theorem any_mono {q} (h : m.any p) (hpq : ∀ v, p v → q v) : m.any q := by
  obtain ⟨_, v, hk, hp⟩ := any_iff.mp h
  exact any_of_find? hk (hpq v hp)

theorem any_insert_self (hp : p v) : (m.insert k v).any p :=
  any_of_find? (k := k) ((find?_insert m k k v).trans (if_pos rfl)) hp

/-- A change under one key takes the property only from the value there. -/
theorem any_moved {m' : OrderedMap κ ν} (hm : ∀ k', k' ≠ k → m'.find? k' = m.find? k')
    (h : m.any p) : m'.any p ∨ ∃ v, m.find? k = some v ∧ p v := by
  obtain ⟨k', v, hk', hp⟩ := any_iff.mp h
  by_cases heq : k' = k
  · exact .inr ⟨v, heq ▸ hk', hp⟩
  · exact .inl (any_of_find? ((hm k' heq).trans hk') hp)

theorem of_any_insert (h : (m.insert k v).any p) : p v ∨ m.any p := by
  obtain ⟨_, _, hk', hp⟩ := any_iff.mp h
  rw [find?_insert] at hk'
  split at hk'
  · cases hk'
    exact .inl hp
  · exact .inr (any_of_find? hk' hp)

end

end OrderedMap

/-! Finite sets that are iterated in ascending order, as maps without values. -/

open OrderedMap

structure OrderedSet (κ : Type) [LinearOrder κ] where
  map : OrderedMap κ Unit

namespace OrderedSet

variable {κ : Type} [LinearOrder κ] {s s' : OrderedSet κ} {k k' : κ}

def empty : OrderedSet κ := ⟨.empty⟩

def elements (s : OrderedSet κ) : List κ := s.map.keys

def insert (s : OrderedSet κ) (k : κ) : OrderedSet κ := ⟨s.map.insert k ()⟩

def erase (s : OrderedSet κ) (k : κ) : OrderedSet κ := ⟨s.map.erase k⟩

def ofList (l : List κ) : OrderedSet κ := l.foldl insert empty

instance : Membership κ (OrderedSet κ) := ⟨fun s k => (s.map.find? k).isSome⟩

instance (k : κ) (s : OrderedSet κ) : Decidable (k ∈ s) :=
  inferInstanceAs (Decidable ((s.map.find? k).isSome = true))

instance : DecidableEq (OrderedSet κ) := fun s s' =>
  decidable_of_iff (s.map = s'.map) (by cases s; cases s'; simp)

theorem mem_def : k ∈ s ↔ (s.map.find? k).isSome := Iff.rfl

@[simp] theorem not_mem_empty : k ∉ (empty : OrderedSet κ) := by
  rw [mem_def, empty, find?_empty]
  simp

@[simp] theorem elements_empty : (empty : OrderedSet κ).elements = [] := rfl

@[simp] theorem mem_insert : k ∈ s.insert k' ↔ k = k' ∨ k ∈ s := by
  rw [mem_def, insert, find?_insert, mem_def]
  split <;> simp_all

@[simp] theorem mem_erase : k ∈ s.erase k' ↔ k ≠ k' ∧ k ∈ s := by
  rw [mem_def, erase, find?_erase, mem_def]
  split <;> simp_all

@[simp] theorem mem_elements : k ∈ s.elements ↔ k ∈ s := by
  rw [elements, mem_keys_iff, mem_def]

theorem mem_foldl_insert {l : List κ} : k ∈ l.foldl insert s ↔ k ∈ s ∨ k ∈ l := by
  induction l generalizing s with
  | nil => simp
  | cons a l ih =>
    rw [foldl_cons, ih, mem_insert, mem_cons]
    tauto

theorem ext (h : ∀ k, k ∈ s ↔ k ∈ s') : s = s' := by
  have hmap : s.map = s'.map := by
    refine OrderedMap.ext fun k => ?_
    have hk := h k
    rw [mem_def, mem_def] at hk
    cases hs : s.map.find? k <;> cases hs' : s'.map.find? k <;> simp_all
  cases s
  cases s'
  exact congrArg _ hmap

end OrderedSet

end Datasystem.Lib
