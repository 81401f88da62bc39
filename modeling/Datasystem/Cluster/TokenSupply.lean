import Datasystem.Cluster.BuilderSpec
import Datasystem.Common.TokenSpread

/-! Token selection cannot run dry on a small ring: while fewer than a hundred
tokens are taken, every member whose address fills whole hash blocks finds its
tokens, and a cluster of such members can be bootstrapped. -/

namespace Datasystem.Cluster

open Common HashRingToken Lib Checked Sorting List TokenPlacement Member

/-- How many tokens the ring may hold for the supply to be certain. -/
def supplyLimit : Nat := 100

theorem exists_probeFrom {address} {index : Nat} {occupied} {fuel seed k : Nat}
    (hk : k < fuel) (hfree : makeHashRingToken address index (seed + k) ∉ occupied) :
    ∃ probe, probeFrom address index occupied fuel seed = .ok probe := by
  induction fuel generalizing seed k with
  | zero => omega
  | succ fuel ih =>
    unfold probeFrom
    dsimp only
    split
    · exact ⟨_, rfl⟩
    · rename_i htaken
      cases k with
      | zero => exact absurd hfree htaken
      | succ k =>
        refine ih (k := k) (by omega) ?_
        rwa [Nat.add_right_comm, Nat.add_assoc]

section

variable {address : Bytes} (ha : address.length % 4 = 0)
include ha

theorem exists_selectBalancedToken (ring) (ideal : Nat) {index : Nat} {occupied}
    (hi : index < supplyLimit) (ho : occupied.length < supplyLimit) :
    ∃ probe, selectBalancedToken ring address index ideal occupied = .ok probe := by
  obtain ⟨k, hk, hfree⟩ := exists_free_seed ha hi ho
  have hmem : makeHashRingToken address index (100 + k) ∈
      makeHashRingTokenCandidates address index balancedPlacementSeedCandidates := by
    refine mem_map.mpr ⟨100 + k, mem_range.mpr ?_, rfl⟩
    simp only [balancedPlacementSeedCandidates]
    omega
  exact exists_selectBalancedToken_of_mem ring ideal hmem hfree

theorem exists_selectSequentialTokens (remaining index : Nat) (sel)
    (hi : index + remaining ≤ supplyLimit) (ho : sel.occupied.length + remaining ≤ supplyLimit) :
    ∃ sel', selectSequentialTokens address remaining index sel = .ok sel' := by
  induction remaining generalizing index sel with
  | zero => exact ⟨sel, rfl⟩
  | succ remaining ih =>
    have hindex : index < supplyLimit := by omega
    have hselect : sel.occupied.length < supplyLimit := by omega
    obtain ⟨k, hk, hfree⟩ := exists_free_seed ha hindex hselect
    obtain ⟨probe, hprobe⟩ :
      ∃ probe, probeUniqueToken address index 0 sel.occupied = .ok probe := by
      refine exists_probeFrom (k := 100 + k) ?_ (by rwa [Nat.zero_add])
      simp only [maxHashRingTokenSeeds]
      omega
    obtain ⟨sel', hselect'⟩ := ih (index + 1) (sel.push index probe) (by omega)
      (by simp only [Selection.push, length_cons]; omega)
    exact ⟨sel', bind_eq_ok.mpr ⟨probe, hprobe, hselect'⟩⟩

theorem exists_selectBalancedTokens (newMember ideal remaining index : Nat) (ring) (sel)
    (hi : index + remaining ≤ supplyLimit) (ho : sel.occupied.length + remaining ≤ supplyLimit) :
    ∃ r, selectBalancedTokens address newMember ideal remaining index ring sel = .ok r := by
  induction remaining generalizing index ring sel with
  | zero => exact ⟨(ring, sel), rfl⟩
  | succ remaining ih =>
    have hindex : index < supplyLimit := by omega
    have hselect : sel.occupied.length < supplyLimit := by omega
    obtain ⟨probe, hprobe⟩ := exists_selectBalancedToken ha ring ideal hindex hselect
    obtain ⟨r, hr⟩ := ih (index + 1) (ring.insert probe.token newMember) (sel.push index probe)
      (by omega) (by simp only [Selection.push, length_cons]; omega)
    exact ⟨r, bind_eq_ok.mpr ⟨probe, hprobe, hr⟩⟩

/-- A member finds its tokens while the ring stays within the limit. -/
theorem TokenPlacement.exists_selectTokens (placement : TokenPlacement) (count : Nat)
    (ho : placement.occupied.length + count ≤ supplyLimit) :
    ∃ r, placement.selectTokens address count = .ok r := by
  have hseq := exists_selectSequentialTokens ha count 0 { occupied := placement.occupied }
    (by omega) ho
  unfold selectTokens
  split
  · exact ⟨_, rfl⟩
  · split
    · obtain ⟨sel, hselect⟩ := hseq
      exact ⟨_, bind_eq_ok.mpr ⟨sel, hselect, rfl⟩⟩
    · split
      · obtain ⟨sel, hselect⟩ := hseq
        exact ⟨_, bind_eq_ok.mpr ⟨sel, hselect, rfl⟩⟩
      · rename_i ring _ _
        obtain ⟨r, hr⟩ := exists_selectBalancedTokens ha (ring.totalMembers - 1)
          (ringSpace / ring.totalMembers / count) count 0 ring { occupied := placement.occupied }
          (by omega) ho
        exact ⟨_, bind_eq_ok.mpr ⟨r, hr, rfl⟩⟩

end

/-! ## Bootstrap -/

namespace HashAlgorithm

open TopologyPlanBuilder

theorem exists_allocateFrom {n : Nat} {identities}
    (hblocks : ∀ i ∈ identities, i.address.length % 4 = 0) (placement : TokenPlacement)
    (allocated : OrderedMap Bytes TokenAllocation)
    (ho : placement.occupied.length + identities.length * n ≤ supplyLimit) :
    ∃ allocated', allocateFrom n identities placement allocated = .ok allocated' := by
  induction identities generalizing placement allocated with
  | nil => exact ⟨allocated, rfl⟩
  | cons i rest ih =>
    obtain ⟨hi, hblocks⟩ := forall_mem_cons.mp hblocks
    rw [length_cons, Nat.succ_mul] at ho
    obtain ⟨⟨placement', sel⟩, hselect⟩ := exists_selectTokens hi placement n (by omega)
    obtain ⟨hoccupied, seeds, hlen, hd⟩ := selectTokens_derived hselect
    have hlength : placement'.occupied.length = placement.occupied.length + n := by
      rw [hoccupied, hd.occupied, length_append, length_reverse, hd.tokens,
        makeHashRingTokens, length_map, length_zipIdx, hlen, Nat.add_comm]
    obtain ⟨allocated', hallocated'⟩ := ih hblocks placement'
      (allocated.insert i.address ⟨sel.tokens, sel.overrides⟩) (by omega)
    exact ⟨allocated', bind_eq_ok.mpr ⟨(placement', sel), hselect, hallocated'⟩⟩

/-- A few members with whole-block addresses can be placed, with tokens of their own. -/
theorem exists_buildInitialPlacement {joining} {n : Nat}
    (hne : joining ≠ []) (hids : ValidIdentities joining)
    (hblocks : ∀ i ∈ joining, i.address.length % 4 = 0)
    (hn : 0 < n ∧ n ≤ maxHashRingTokensPerMember) (ho : joining.length * n ≤ supplyLimit) :
    ∃ plan, buildInitialPlacement {} joining n = .ok plan ∧
      (plan.next.members.flatMap tokens).Nodup := by
  have hperm := sortBy_perm MemberIdentity.address joining
  have hnodup : ((sortBy MemberIdentity.address joining).map MemberIdentity.address).Nodup :=
    (hperm.map _).nodup_iff.mpr hids.addresses_nodup
  have hlength : (sortBy MemberIdentity.address joining).length * n ≤ supplyLimit := by
    rwa [length_sortBy]
  have hbalanced : decide ((sortBy MemberIdentity.address joining).length * n ≤
      balancedPlacementMaxRingTokens) = true := by
    simp only [supplyLimit] at hlength
    exact decide_eq_true (by rw [balancedPlacementMaxRingTokens]; omega)
  have hsort : ∀ i ∈ sortBy MemberIdentity.address joining, i.address.length % 4 = 0 :=
    fun i hi => hblocks i (mem_sortBy.mp hi)
  obtain ⟨allocated, hallocate⟩ := exists_allocateFrom hsort (new [] [] true)
    .empty (by simpa [new] using hlength)
  have hfresh := allocateFrom_fresh hnodup hallocate
  have hallocation : allocateTokens joining n = .ok allocated := by
    refine bind_eq_ok.mpr ⟨(), check_of hn, bind_eq_ok.mpr
      ⟨(), validateIdentities_eq_ok.mpr hids, ?_⟩⟩
    dsimp only
    rw [hbalanced]
    exact hallocate
  refine ⟨_, bind_eq_ok.mpr ⟨(), check_of ⟨rfl, hne⟩, bind_eq_ok.mpr ⟨allocated, hallocation, rfl⟩⟩,
    ?_⟩
  rw [nil_append, flatMap_map]
  exact fresh_empty.mp hfresh

end HashAlgorithm

namespace TopologyPlanBuilder

open HashAlgorithm

theorem validateSelected_membersInState {s} (h : (s.members.map Member.address).Nodup) {state}
    (hsome : ∃ m ∈ s.members, m.state = state) :
    validateSelected s (membersInState s state) state = .ok () := by
  obtain ⟨m, hm, hs⟩ := hsome
  refine bind_eq_ok.mpr ⟨(), check_of ?_, validateSelectedFrom_eq_ok.mpr ⟨?_, ?_⟩⟩
  · exact ne_nil_of_mem (mem_membersInState.mpr ⟨m, hm, hs, rfl⟩)
  · intro i hi
    obtain ⟨m', hm', hs', rfl⟩ := mem_membersInState.mp hi
    exact ⟨m', findByIdentity_of_mem h hm', hs'⟩
  · rw [fresh_empty, membersInState, map_map]
    exact h.sublist (filter_sublist.map _)

/-- A few INITIAL members can be bootstrapped together: they become the first owners, in address
order. -/
theorem exists_buildBootstrap {s} (hv : ValidMembers s.members)
    (hstable : s.activeBatch = none) (hinitial : ∀ m ∈ s.members, m.state = .initial)
    (hne : s.members ≠ []) (hblocks : ∀ m ∈ s.members, m.address.length % 4 = 0)
    (ho : s.members.length * defaultHashRingTokensPerMember ≤ supplyLimit) :
    ∃ placed : List Member,
      placed.map Member.identity = sortBy MemberIdentity.address (s.members.map Member.identity) ∧
        (∀ m ∈ placed, m.state = .active ∧ m.Placed defaultHashRingTokensPerMember) ∧
        buildBootstrap s (s.members.map Member.identity) = .ok
          { clusterHasInit := true
            version := s.version + 1
            members := placed
            activeBatch := none
            tokensPerMember := defaultHashRingTokensPerMember } := by
  have hall : membersInState s .initial = s.members.map Member.identity := by
    rw [membersInState, List.filter_eq_self.mpr fun m hm => decide_eq_true (hinitial m hm)]
  have hgone : removeMembers s.members
      ((s.members.map Member.identity).map MemberIdentity.address) = [] := by
    exact List.filter_eq_nil_iff.mpr fun m hm => by simpa using ⟨m, hm, rfl⟩
  obtain ⟨m, hm⟩ := List.exists_mem_of_ne_nil _ hne
  have hids := hall ▸ validIdentities_membersInState hv .initial
  have hblocks' : ∀ i ∈ s.members.map Member.identity, i.address.length % 4 = 0 :=
    List.forall_mem_map.mpr hblocks
  have hselected := validateSelected_membersInState hv.addresses_nodup ⟨m, hm, hinitial m hm⟩
  rw [hall] at hselected
  obtain ⟨plan, hplan, htok⟩ := exists_buildInitialPlacement
    (by simpa using hne) hids hblocks' (n := defaultHashRingTokensPerMember) (by decide)
    (by rw [List.length_map]; exact ho)
  obtain ⟨-, -, -, placed, hnext, hidentity, hplaced⟩ := buildInitialPlacement_spec hplan
  have hmembers : plan.next.members = placed := by rw [hnext]
  have hperm : (placed.map Member.identity).Perm (s.members.map Member.identity) := by
    rw [hidentity]
    exact sortBy_perm _ _
  refine ⟨placed, hidentity, hplaced, ?_⟩
  refine bind_eq_ok.mpr ⟨(), check_of ⟨fun m hm => ?_, hstable⟩,
    bind_eq_ok.mpr ⟨(), hselected, bind_eq_ok.mpr ⟨plan, hplan, bind_eq_ok.mpr
      ⟨(), validate_eq_ok.mpr ?_, ?_⟩⟩⟩⟩
  · rw [hinitial m hm]
    exact Bool.false_ne_true
  · simp only [hgone, List.append_nil, hmembers]
    refine ⟨fun m hm => ?_, ?_, ?_, hmembers ▸ htok, .inr ?_⟩
    · have hwell := hids.wellFormed _ (hperm.mem_iff.mp (List.mem_map_of_mem hm))
      exact ⟨hwell.1, hwell.2.1⟩
    · have hnodup := (hperm.map MemberIdentity.id).nodup_iff.mpr hids.ids_nodup
      rwa [List.map_map] at hnodup
    · have hnodup := (hperm.map MemberIdentity.address).nodup_iff.mpr hids.addresses_nodup
      rwa [List.map_map] at hnodup
    · have hmem := hperm.symm.mem_iff.mp (List.mem_map_of_mem hm)
      obtain ⟨m', hm', -⟩ := List.mem_map.mp hmem
      exact ⟨m', hm', by rw [(hplaced m' hm').1]; rfl⟩
  · simp only [hgone, List.append_nil, hnext, Bool.or_true]
    rfl

end TopologyPlanBuilder

end Datasystem.Cluster
