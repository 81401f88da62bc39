import Datasystem.Cluster.PlannerSpec

/-! What the difference of two rings says: a token lies in a range of an owner
change exactly when its owner differs between the rings, and the change then
names both owners. -/

namespace Datasystem.Cluster.HashAlgorithm

open Common HashRingToken Lib Sorting Spans TokenRing List

/-! ## Owners of a ring -/

/-- Owners in ring order, no two at one token, and at most one identity at an address. -/
structure OwnerRing.Sound (ring : OwnerRing) : Prop where
  ordered : ring.owners.Pairwise fun a b => a.token < b.token
  identified : ∀ o ∈ ring.owners, ∀ o' ∈ ring.owners,
    o.identity.address = o'.identity.address → o.identity = o'.identity

variable {ring F T : OwnerRing} {t : Token} {o : TokenOwner} {r : TokenRange}
  {c : TopologyOwnerChange}

theorem findOwner_owns (h : ring.Sound) (t) :
    Owns TokenOwner.token ring.owners t (findOwner ring t) := by
  apply successor?_owns (h.ordered.imp le_of_lt)
  have hhead : ring.owners.head? = some (ring.owners.head ring.nonempty) :=
    head?_eq_some_head ring.nonempty
  rw [successor?, hhead, findOwner]
  cases ring.owners.find? fun o => t ≤ o.token <;> rfl

theorem findOwner_eq (h : ring.Sound)
    (ho : Owns TokenOwner.token ring.owners t o) : findOwner ring t = o :=
  (findOwner_owns h t).eq (pairwise_map.mpr (h.ordered.imp ne_of_lt)) ho

/-- The identity that a ring routes a token to. -/
def ownerAt (ring : OwnerRing) (t : Token) : MemberIdentity := (findOwner ring t).identity

theorem findOwner_congr (h : ring.Sound) {a} (hat : a ≤ t)
    (hgap : ∀ o ∈ ring.owners, o.token < a ∨ t ≤ o.token) : findOwner ring a = findOwner ring t :=
  findOwner_eq h ((owns_congr hat hgap).mpr (findOwner_owns h t))

/-! ## Boundaries -/

theorem boundaries_sorted (F T) : (boundaries F T).Pairwise (· < ·) := by
  have hsort := (sortBy_pairwise id (0 :: (F.owners ++ T.owners).filterMap fun o =>
    if o.token ≠ maxToken then some (o.token + 1) else none)).sublist (dedup_sublist _)
  exact hsort.imp₂ (fun _ _ hle hne => lt_of_le_of_ne hle hne) (nodup_dedup _)

theorem zero_mem_boundaries (F T) : (0 : Token) ∈ boundaries F T := by
  simp [boundaries]

/-- No token of either ring stands strictly inside a span between two boundaries. -/
theorem gap_of_mem_cut (hr : r ∈ cut (boundaries F T))
    (ht : r.Contains t) (ho : o ∈ F.owners ∨ o ∈ T.owners) :
    o.token < r.lo ∨ t ≤ o.token := by
  by_contra hcontra
  simp only [not_or, not_lt, not_le] at hcontra
  have hmax : o.token ≠ maxToken := (hcontra.2.trans_le (le_top t)).ne
  have hsucc := val_add_one hmax
  have hlo : r.lo.val ≤ o.token.val := hcontra.1
  have hot : o.token.val < t.val := hcontra.2
  have hti : t.val ≤ r.hi.val := ht.2
  have hmem : o.token + 1 ∈ boundaries F T := by
    simp only [boundaries, mem_dedup, mem_sortBy, mem_cons, mem_filterMap, mem_append]
    exact .inr ⟨o, ho, if_pos hmax⟩
  rcases (cut_spec (boundaries_sorted F T) hr).2 _ hmem with hb | hb
  · omega
  · omega

/-- Both owners are constant on a span. -/
theorem ownerAt_of_mem_cut (hF : F.Sound) (hT : T.Sound)
    (hr : r ∈ cut (boundaries F T)) (ht : r.Contains t) :
    ownerAt F r.lo = ownerAt F t ∧ ownerAt T r.lo = ownerAt T t := by
  constructor
  · rw [ownerAt, ownerAt, findOwner_congr hF ht.1 fun o ho => gap_of_mem_cut hr ht (.inl ho)]
  · rw [ownerAt, ownerAt, findOwner_congr hT ht.1 fun o ho => gap_of_mem_cut hr ht (.inr ho)]

theorem covers_cut_boundaries (F T) (t) : Covers (cut (boundaries F T)) t := by
  have hzero := zero_mem_boundaries F T
  have hsorted := boundaries_sorted F T
  cases hb : boundaries F T with
  | nil => simp [hb] at hzero
  | cons b =>
    rw [hb] at hzero hsorted
    refine cut_covers hsorted ?_
    rcases mem_cons.mp hzero with h | h
    · exact h ▸ Fin.zero_le t
    · exact absurd ((pairwise_cons.mp hsorted).1 0 h) (Fin.not_lt_zero b)

/-! ## Grouping -/

theorem appendRange_eq (ranges) (range) : appendRange ranges range = append ranges range := by
  unfold appendRange append
  cases hlast : ranges.getLast? with
  | none =>
    rw [getLast?_eq_none_iff.mp hlast]
    rfl
  | some back =>
    have hiff : (back.hi ≠ maxToken ∧ back.hi + 1 = range.lo) ↔ back.hi.val + 1 = range.lo.val := by
      by_cases hmax : back.hi = maxToken
      · have hlast : maxToken.val = 4294967295 := rfl
        simp only [hmax, ne_eq, not_true_eq_false, false_and, false_iff]
        omega
      · rw [Fin.ext_iff, val_add_one hmax]
        exact ⟨fun h => h.2, fun h => ⟨hmax, h⟩⟩
    simp only [hiff]

/-- The key under which a span is grouped. -/
def changeKey (F T : OwnerRing) (r : TokenRange) : Lex (Bytes × Bytes) :=
  toLex ((ownerAt F r.lo).address, (ownerAt T r.lo).address)

/-- The spans of one group: their owner changes, between the two addresses of the key. -/
def groupOf (F T : OwnerRing) (k : Lex (Bytes × Bytes)) (spans : List TokenRange) :
    List TokenRange :=
  spans.filter fun r => ownerAt F r.lo ≠ ownerAt T r.lo ∧ changeKey F T r = k

/-- The change that a group adds up to. -/
def groupChange (F T : OwnerRing) (group : List TokenRange) : Option TopologyOwnerChange :=
  group.getLast?.map fun r => ⟨some (ownerAt F r.lo), ownerAt T r.lo, group.foldl append []⟩

/-- The map holds, under each key, the spans of that group put together. -/
theorem find?_foldl_diffRange (F T) (spans) (k) :
    (spans.foldl (diffRange F T) .empty).find? k = groupChange F T (groupOf F T k spans) := by
  induction spans using List.reverseRecOn with
  | nil => rfl
  | append_singleton spans r ih =>
    rw [foldl_concat, groupOf, filter_append, ← groupOf]
    by_cases hsame : ownerAt F r.lo = ownerAt T r.lo
    · have hskip : diffRange F T (spans.foldl (diffRange F T) .empty) r =
          spans.foldl (diffRange F T) .empty := if_pos hsame
      rw [hskip, ih]
      simp [hsame]
    · have halter : diffRange F T (spans.foldl (diffRange F T) .empty) r =
          (spans.foldl (diffRange F T) .empty).alter (changeKey F T r)
            (recordChange (ownerAt F r.lo) (ownerAt T r.lo) r) := if_neg hsame
      rw [halter, OrderedMap.find?_alter]
      by_cases hk : k = changeKey F T r
      · have hgroup : [r].filter (fun r => ownerAt F r.lo ≠ ownerAt T r.lo ∧
            changeKey F T r = k) = [r] := by
          simp [hsame, hk]
        have hrange : ((groupChange F T (groupOf F T k spans)).elim []
            TopologyOwnerChange.ranges) = (groupOf F T k spans).foldl append [] := by
          unfold groupChange
          cases hg : (groupOf F T k spans).getLast? with
          | none => rw [getLast?_eq_none_iff.mp hg]; rfl
          | some _ => rfl
        rw [if_pos hk, ← hk, ih, hgroup, recordChange, hrange, appendRange_eq, groupChange,
          getLast?_concat, foldl_concat]
        rfl
      · rw [if_neg hk, ih]
        simp [Ne.symm hk]

theorem mem_groupOf {k} {spans} : r ∈ groupOf F T k spans ↔
      r ∈ spans ∧ ownerAt F r.lo ≠ ownerAt T r.lo ∧ changeKey F T r = k := by
  simp [groupOf]

/-! ## The difference -/

/-- `c` lists exactly the tokens that move from `source` to the target of `c`. -/
structure IsChange (F T : OwnerRing) (source : MemberIdentity) (c : TopologyOwnerChange) :
    Prop where
  source_eq : c.source = some source
  differ : source ≠ c.target
  ranges_ne_nil : c.ranges ≠ []
  ascending : Ascending c.ranges
  covers : ∀ t, Covers c.ranges t ↔ ownerAt F t = source ∧ ownerAt T t = c.target

theorem groupChange_isChange (hF : F.Sound) (hT : T.Sound) {k}
    (h : groupChange F T (groupOf F T k (cut (boundaries F T))) = some c) :
    ∃ source, IsChange F T source c ∧ k = toLex (source.address, c.target.address) := by
  obtain ⟨last, hlast, rfl⟩ := Option.map_eq_some_iff.mp h
  set spans := cut (boundaries F T)
  have hmem := mem_groupOf.mp (mem_of_getLast? hlast)
  have hgroup : Ascending (groupOf F T k spans) :=
    (cut_ascending (boundaries_sorted F T)).sublist filter_sublist
  obtain ⟨hascending, hcovers⟩ := foldl_append_spec hgroup
  refine ⟨ownerAt F last.lo, ⟨rfl, hmem.2.1, ?_, hascending, fun t => ?_⟩, hmem.2.2.symm⟩
  · intro hnil
    have hlo := (hcovers last.lo).mpr ⟨last, mem_of_getLast? hlast, le_refl _,
      hgroup.nonempty last (mem_of_getLast? hlast)⟩
    exact covers_nil last.lo (hnil ▸ hlo)
  · refine (hcovers t).trans ?_
    constructor
    · intro hcovers
      obtain ⟨r, hr, ht⟩ := hcovers
      obtain ⟨hspan, -, hkey⟩ := mem_groupOf.mp hr
      obtain ⟨hf, hto⟩ := ownerAt_of_mem_cut hF hT hspan ht
      have hkeys : changeKey F T r = changeKey F T last := hkey.trans hmem.2.2.symm
      obtain ⟨hsource, htarget⟩ := Prod.mk.inj (toLex_inj.mp hkeys)
      rw [← hf, ← hto]
      exact ⟨hF.identified _ (findOwner_owns hF _).1 _ (findOwner_owns hF _).1 hsource,
        hT.identified _ (findOwner_owns hT _).1 _ (findOwner_owns hT _).1 htarget⟩
    · intro hown
      obtain ⟨r, hspan, ht⟩ := covers_cut_boundaries F T t
      obtain ⟨hf, hto⟩ := ownerAt_of_mem_cut hF hT hspan ht
      refine ⟨r, mem_groupOf.mpr ⟨hspan, ?_, ?_⟩, ht⟩
      · rw [hf, hto, hown.1, hown.2]
        exact hmem.2.1
      · rw [changeKey, hf, hto, hown.1, hown.2]
        exact hmem.2.2

theorem mem_diffOwners_iff : c ∈ diffOwners F T ↔
      ∃ k, groupChange F T (groupOf F T k (cut (boundaries F T))) = some c := by
  simp only [diffOwners, OrderedMap.mem_values_iff, find?_foldl_diffRange]

/-- Every change of the difference lists exactly the tokens that move between its ends. -/
theorem isChange_of_mem (hF : F.Sound) (hT : T.Sound)
    (hc : c ∈ diffOwners F T) : ∃ source, IsChange F T source c := by
  obtain ⟨_, hk⟩ := mem_diffOwners_iff.mp hc
  obtain ⟨source, h, -⟩ := groupChange_isChange hF hT hk
  exact ⟨source, h⟩

theorem exists_change (hF : F.Sound) (hT : T.Sound)
    (h : ownerAt F t ≠ ownerAt T t) : ∃ c ∈ diffOwners F T, Covers c.ranges t := by
  obtain ⟨r, hspan, ht⟩ := covers_cut_boundaries F T t
  obtain ⟨hf, hto⟩ := ownerAt_of_mem_cut hF hT hspan ht
  have hmem : r ∈ groupOf F T (changeKey F T r) (cut (boundaries F T)) :=
    mem_groupOf.mpr ⟨hspan, by rwa [hf, hto], rfl⟩
  cases hlast : (groupOf F T (changeKey F T r) (cut (boundaries F T))).getLast? with
  | none =>
    rw [getLast?_eq_none_iff.mp hlast] at hmem
    cases hmem
  | some last =>
    have hchange : groupChange F T (groupOf F T (changeKey F T r) (cut (boundaries F T))) =
        some ⟨some (ownerAt F last.lo), ownerAt T last.lo,
          (groupOf F T (changeKey F T r) (cut (boundaries F T))).foldl append []⟩ := by
      rw [groupChange, hlast]
      rfl
    refine ⟨_, mem_diffOwners_iff.mpr ⟨_, hchange⟩, ?_⟩
    have hgroup : Ascending (groupOf F T (changeKey F T r) (cut (boundaries F T))) :=
      (cut_ascending (boundaries_sorted F T)).sublist filter_sublist
    exact ((foldl_append_spec hgroup).2 t).mpr ⟨r, hmem, ht⟩

theorem change_unique (hF : F.Sound) (hT : T.Sound) {c'}
    (hc : c ∈ diffOwners F T) (hc' : c' ∈ diffOwners F T) (hs : c.source = c'.source)
    (ht : c.target = c'.target) : c = c' := by
  obtain ⟨_, hk⟩ := mem_diffOwners_iff.mp hc
  obtain ⟨_, hk'⟩ := mem_diffOwners_iff.mp hc'
  obtain ⟨source, h, rfl⟩ := groupChange_isChange hF hT hk
  obtain ⟨source', h', rfl⟩ := groupChange_isChange hF hT hk'
  have hsource : source = source' := by
    have heq := h.source_eq.symm.trans (hs.trans h'.source_eq)
    exact Option.some.inj heq
  rw [hsource, ht, hk'] at hk
  exact (Option.some.inj hk).symm

/-- The addresses that a change goes from and to. -/
def changeEnds (c : TopologyOwnerChange) : Bytes × Bytes :=
  (c.source.elim [] MemberIdentity.address, c.target.address)

section

variable (hF : F.Sound) (hT : T.Sound)

include hF hT

theorem diffOwners_ends_nodup : ((diffOwners F T).map changeEnds).Nodup := by
  set changes := (cut (boundaries F T)).foldl (diffRange F T) .empty with hchanges
  have hkeys : changes.values.map changeEnds = changes.keys.map ofLex := by
    rw [OrderedMap.values, OrderedMap.keys, map_map, map_map]
    refine map_congr_left fun e he => ?_
    have hfind : changes.find? e.1 = some e.2 := OrderedMap.mem_entries_iff.mp he
    rw [hchanges, find?_foldl_diffRange] at hfind
    obtain ⟨_, h, hk⟩ := groupChange_isChange hF hT hfind
    simp only [changeEnds, Function.comp_apply, h.source_eq, Option.elim_some, hk, ofLex_toLex]
  rw [diffOwners, ← hchanges, hkeys]
  exact changes.keys_nodup.map ofLex.injective

theorem diffOwners_nodup : (diffOwners F T).Nodup := (diffOwners_ends_nodup hF hT).of_map _

/-- A change that covers a token names its two owners. -/
theorem ends_of_covers (hc : c ∈ diffOwners F T) (h : Covers c.ranges t) :
    c.source = some (ownerAt F t) ∧ c.target = ownerAt T t := by
  obtain ⟨_, hchange⟩ := isChange_of_mem hF hT hc
  obtain ⟨hs, ht⟩ := (hchange.covers t).mp h
  exact ⟨hs ▸ hchange.source_eq, ht.symm⟩

theorem ownerAt_ne_of_covers (hc : c ∈ diffOwners F T) (h : Covers c.ranges t) :
    ownerAt F t ≠ ownerAt T t := by
  obtain ⟨_, hchange⟩ := isChange_of_mem hF hT hc
  obtain ⟨hs, ht⟩ := (hchange.covers t).mp h
  rw [hs, ht]
  exact hchange.differ

/-- A token is in a change exactly when its owner differs, and then in one change only. -/
theorem existsUnique_change_iff (t) :
    (∃! c, c ∈ diffOwners F T ∧ Covers c.ranges t) ↔ ownerAt F t ≠ ownerAt T t := by
  constructor
  · intro hex
    obtain ⟨_, ⟨hc, hcovers⟩, -⟩ := hex
    exact ownerAt_ne_of_covers hF hT hc hcovers
  · intro hne
    obtain ⟨c, hc, hcovers⟩ := exists_change hF hT hne
    refine ⟨c, ⟨hc, hcovers⟩, fun c' hc' => ?_⟩
    obtain ⟨hs, ht⟩ := ends_of_covers hF hT hc hcovers
    obtain ⟨hs', ht'⟩ := ends_of_covers hF hT hc'.1 hc'.2
    exact change_unique hF hT hc'.1 hc (hs'.trans hs.symm) (ht'.trans ht.symm)

end

theorem IsChange.exists_token {source} (h : IsChange F T source c) :
    ∃ t, ownerAt F t = source ∧ ownerAt T t = c.target := by
  obtain ⟨r, hr⟩ := exists_mem_of_ne_nil _ h.ranges_ne_nil
  exact ⟨r.lo, (h.covers r.lo).mp ⟨r, hr, le_refl _, h.ascending.nonempty r hr⟩⟩

/-- An owner of the larger ring that is in the smaller one owns the token there, too. -/
theorem findOwner_eq_of_subset {big small} (hb : big.Sound) (hs : small.Sound)
    (hsub : ∀ o ∈ small.owners, o ∈ big.owners)
    (hmem : findOwner big t ∈ small.owners) : findOwner small t = findOwner big t :=
  findOwner_eq hs ((findOwner_owns hb t).of_subset hsub hmem)

/-! ## How many ranges there are -/

theorem mem_boundaries {b} (h : b ∈ boundaries F T) :
    b = 0 ∨ ∃ o, (o ∈ F.owners ∨ o ∈ T.owners) ∧ o.token ≠ maxToken ∧ o.token + 1 = b := by
  simp only [boundaries, mem_dedup, mem_sortBy, mem_cons, mem_filterMap, mem_append] at h
  rcases h with h | ⟨o, ho, hb⟩
  · exact .inl h
  · refine .inr ⟨o, ho, ?_⟩
    split at hb
    · rename_i hmax
      exact ⟨hmax, Option.some.inj hb⟩
    · cases hb

/-- A range ends at a token of one of the rings, or at the end of the line. -/
theorem hi_of_mem_ranges (hc : c ∈ diffOwners F T) (hr : r ∈ c.ranges) :
    r.hi = maxToken ∨ ∃ o, (o ∈ F.owners ∨ o ∈ T.owners) ∧ o.token = r.hi := by
  obtain ⟨k, hk⟩ := mem_diffOwners_iff.mp hc
  obtain ⟨last, -, rfl⟩ := Option.map_eq_some_iff.mp hk
  obtain ⟨s, hs, heq⟩ := mem_foldl_append_hi hr
  obtain ⟨hspan, -⟩ := mem_groupOf.mp hs
  rcases hi_of_mem_cut (boundaries_sorted F T) hspan with htop | ⟨b, hb, hval⟩
  · exact .inl (heq.trans htop)
  · rcases mem_boundaries hb with rfl | ⟨o, ho, hmax, rfl⟩
    · exact absurd hval (Nat.succ_ne_zero _)
    · refine .inr ⟨o, ho, ?_⟩
      have hsucc := val_add_one hmax
      exact Fin.ext (by omega)

section

variable {F T : OwnerRing} {c : TopologyOwnerChange}

variable {r : TokenRange}

theorem contains_hi (hF : F.Sound) (hT : T.Sound) (hc : c ∈ diffOwners F T)
    (hr : r ∈ c.ranges) : Covers c.ranges r.hi := by
  obtain ⟨_, h⟩ := isChange_of_mem hF hT hc
  exact ⟨r, hr, h.ascending.nonempty r hr, le_refl _⟩

/-- Different ranges end at different points, whichever changes they belong to. -/
theorem his_nodup (hF : F.Sound) (hT : T.Sound) :
    ((diffOwners F T).flatMap fun c => c.ranges.map Span.hi).Nodup := by
  refine nodup_flatMap.mpr ⟨fun c hc => ?_, ?_⟩
  · obtain ⟨_, h⟩ := isChange_of_mem hF hT hc
    exact h.ascending.hi_nodup
  · refine (diffOwners_nodup hF hT).imp_of_mem fun {c c'} hc hc' hne t ht ht' => hne ?_
    obtain ⟨_, hr, rfl⟩ := mem_map.mp ht
    obtain ⟨_, hr', heq⟩ := mem_map.mp ht'
    have hcovers := contains_hi hF hT hc hr
    have hcovers' := contains_hi hF hT hc' hr'
    rw [heq] at hcovers'
    obtain ⟨hs, hto⟩ := ends_of_covers hF hT hc hcovers
    obtain ⟨hs', hto'⟩ := ends_of_covers hF hT hc' hcovers'
    exact change_unique hF hT hc hc' (hs.trans hs'.symm) (hto.trans hto'.symm)

/-- When owners are added, ranges end at tokens of the member that gains them. -/
theorem hi_of_gained (hF : F.Sound) (hT : T.Sound) (hsub : ∀ o ∈ F.owners, o ∈ T.owners)
    (hc : c ∈ diffOwners F T) (hr : r ∈ c.ranges) :
    r.hi = maxToken ∨ (⟨r.hi, c.target⟩ : TokenOwner) ∈ T.owners := by
  rcases hi_of_mem_ranges hc hr with hmax | ⟨o, ho, htoken⟩
  · exact .inl hmax
  · have ho : o ∈ T.owners := ho.elim (hsub o) id
    have howner : ownerAt T r.hi = o.identity := by
      rw [ownerAt, ← htoken, findOwner_eq hT (owns_self ho)]
    obtain ⟨-, hto⟩ := ends_of_covers hF hT hc (contains_hi hF hT hc hr)
    rw [hto, howner, ← htoken]
    exact .inr ho

/-- When owners are taken away, ranges end at tokens of the member that loses them. -/
theorem hi_of_lost (hF : F.Sound) (hT : T.Sound) (hsub : ∀ o ∈ T.owners, o ∈ F.owners)
    (hc : c ∈ diffOwners F T) (hr : r ∈ c.ranges) :
    r.hi = maxToken ∨ ∃ source, c.source = some source ∧
      (⟨r.hi, source⟩ : TokenOwner) ∈ F.owners := by
  rcases hi_of_mem_ranges hc hr with hmax | ⟨o, ho, htoken⟩
  · exact .inl hmax
  · have ho : o ∈ F.owners := ho.elim id (hsub o)
    have howner : ownerAt F r.hi = o.identity := by
      rw [ownerAt, ← htoken, findOwner_eq hF (owns_self ho)]
    obtain ⟨hs, -⟩ := ends_of_covers hF hT hc (contains_hi hF hT hc hr)
    refine .inr ⟨ownerAt F r.hi, hs, ?_⟩
    rw [howner, ← htoken]
    exact ho

end

/-! ## Rings of members -/

section

variable {members : List Member} {includeJoining activeOnly : Bool} {excluded : List Bytes}
  {ring : OwnerRing}

theorem mem_owners (h : buildOwners members includeJoining excluded activeOnly = .ok ring) {o} :
    o ∈ ring.owners ↔ ∃ m ∈ eligibleMembers members includeJoining excluded activeOnly,
      o.token ∈ m.tokens ∧ m.identity = o.identity := by
  rw [buildOwners_eq_ok.mp h, mem_sortBy, mem_tokenOwners]

theorem buildOwners_sound (haddresses : (members.map Member.address).Nodup)
    (htok : (members.flatMap Member.tokens).Nodup)
    (h : buildOwners members includeJoining excluded activeOnly = .ok ring) : ring.Sound where
  ordered := by
    rw [buildOwners_eq_ok.mp h]
    refine sortBy_strict ?_
    have htokens : ∀ l, (tokenOwners l).map TokenOwner.token = l.flatMap Member.tokens := by
      simp [tokenOwners, map_flatMap, Function.comp_def]
    rw [htokens]
    exact htok.sublist (filter_sublist.flatMap _)
  identified o ho o' ho' ha := by
    obtain ⟨m, hm, -, hi⟩ := (mem_owners h).mp ho
    obtain ⟨m', hm', -, hi'⟩ := (mem_owners h).mp ho'
    have haddr : m.address = m'.address := by rw [Member.address, Member.address, hi, hi', ha]
    rw [← hi, ← hi', eq_of_address_eq haddresses (mem_of_mem_filter hm)
      (mem_of_mem_filter hm') haddr]

end

end Datasystem.Cluster.HashAlgorithm
