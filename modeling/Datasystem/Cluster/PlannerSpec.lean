import Datasystem.Cluster.HashAlgorithm

/-! What each planner function establishes when it succeeds. Callers use these
statements and never unfold the planner. -/

namespace Datasystem.Cluster

open Common HashRingToken Lib Sorting Checked List

/-- The member holds `n` tokens, each one of its own hashes, recorded by their seeds. -/
def Member.Placed (m : Member) (n : Nat) : Prop :=
  ∃ seeds : List Nat, seeds.length = n ∧ (∀ seed ∈ seeds, seed < maxHashRingTokenSeeds) ∧
    m.tokens = makeHashRingTokens m.address seeds ∧ m.tokenSeedOverrides = overridesOf seeds

/-- The member holds no tokens. -/
def Member.Blank (m : Member) : Prop := m.tokens = [] ∧ m.tokenSeedOverrides = []

variable {m : Member} {n : Nat}

theorem Member.Placed.length_tokens (h : m.Placed n) : m.tokens.length = n := by
  obtain ⟨_, rfl, -, ht, -⟩ := h
  simp [ht, makeHashRingTokens]

theorem Member.Placed.tokens_ne_nil (h : m.Placed n) (hn : 0 < n) : m.tokens ≠ [] := by
  have hlen := h.length_tokens
  exact ne_nil_of_length_pos (by omega)

theorem Member.Placed.withState (h : m.Placed n) (s) : (m.withState s).Placed n := h

theorem Member.Blank.withState (h : m.Blank) (s) : (m.withState s).Blank := h

/-! ## Lookup -/

theorem eq_of_address_eq {members : List Member} (h : (members.map Member.address).Nodup)
    {m' : Member} (hm : m ∈ members) (hm' : m' ∈ members) (ha : m.address = m'.address) :
    m = m' :=
  inj_on_of_nodup_map h hm hm' ha

namespace HashAlgorithm

variable {members : List Member} {m : Member} {identities : List MemberIdentity} {u : Unit}
  {current : TopologyState} {includeJoining activeOnly : Bool} {excluded : List Bytes}
  {placement : TokenPlacement} {n : Nat} {plan : TopologyPlan}

theorem findByAddress_some {address}
    (h : findByAddress members address = some m) : m ∈ members ∧ m.address = address := by
  refine ⟨mem_of_find?_eq_some h, ?_⟩
  simpa using find?_some h

theorem findByAddress_of_mem (hn : (members.map Member.address).Nodup)
    (hm : m ∈ members) : findByAddress members m.address = some m := by
  cases hf : findByAddress members m.address with
  | none =>
    have hnone := find?_eq_none.mp hf m hm
    simp at hnone
  | some =>
    obtain ⟨hm', ha⟩ := findByAddress_some hf
    rw [eq_of_address_eq hn hm' hm ha]

/-! ## Input checks -/

/-- Identities that planning accepts: well formed and pairwise distinct. -/
structure ValidIdentities (identities : List MemberIdentity) : Prop where
  wellFormed : ∀ i ∈ identities, i.id.length = memberIdSize ∧ CanonicalAddress i.address
  ids_nodup : (identities.map MemberIdentity.id).Nodup
  addresses_nodup : (identities.map MemberIdentity.address).Nodup

theorem validateIdentitiesFrom_eq_ok {ids addresses} :
    validateIdentitiesFrom ids addresses identities = .ok u ↔
      (∀ i ∈ identities, i.id.length = memberIdSize ∧ CanonicalAddress i.address) ∧
        Fresh ids (identities.map MemberIdentity.id) ∧
        Fresh addresses (identities.map MemberIdentity.address) := by
  induction identities generalizing ids addresses with
  | nil => simp [validateIdentitiesFrom]
  | cons i rest ih =>
    simp only [validateIdentitiesFrom, bind_eq_ok, check_eq_ok, ih, List.map_cons,
      fresh_cons, List.forall_mem_cons, CanonicalAddress, exists_const]
    tauto

theorem validateIdentities_eq_ok :
    validateIdentities identities = .ok u ↔ ValidIdentities identities := by
  rw [validateIdentities, validateIdentitiesFrom_eq_ok, fresh_empty, fresh_empty]
  exact ⟨fun ⟨h, hi, ha⟩ => ⟨h, hi, ha⟩, fun h => ⟨h.wellFormed, h.ids_nodup, h.addresses_nodup⟩⟩

theorem validateSelectedMembers_eq_ok : validateSelectedMembers current identities = .ok u ↔
      ∀ i ∈ identities, ∃ m ∈ findByAddress current.members i.address,
        m.identity = i ∧ isCommittedMemberState m.state := by
  induction identities with
  | nil => simp [validateSelectedMembers]
  | cons _ _ ih =>
    simp only [validateSelectedMembers, bind_eq_ok, check_eq_ok, ih, forall_mem_cons, exists_const]

theorem scanPlanMembers_eq_ok {scan r} : scanPlanMembers scan members = .ok r ↔
      (∀ m ∈ members, m.identity.id.length = memberIdSize ∧ m.address ≠ []) ∧
        Fresh scan.ids (members.map fun m => m.identity.id) ∧
        Fresh scan.addresses (members.map Member.address) ∧
        Fresh scan.tokens (members.flatMap Member.tokens) ∧
        members.foldl (fun scan m =>
          { ids := m.identity.id :: scan.ids
            addresses := m.address :: scan.addresses
            tokens := m.tokens.reverse ++ scan.tokens
            hasCommitted := scan.hasCommitted || isCommittedMemberState m.state }) scan = r := by
  induction members generalizing scan with
  | nil => simp [scanPlanMembers]
  | cons _ _ ih =>
    simp only [scanPlanMembers, bind_eq_ok, check_eq_ok, insertTokens_eq_ok, ih,
      map_cons, flatMap_cons, fresh_cons, fresh_append, forall_mem_cons,
      foldl_cons, exists_const]
    constructor
    · rintro ⟨hm, ⟨hid, haddr⟩, _, ⟨ht, rfl⟩, hrest, hids, haddrs, hts, hr⟩
      exact ⟨⟨hm, hrest⟩, ⟨hid, hids⟩, ⟨haddr, haddrs⟩, ⟨ht, hts⟩, hr⟩
    · rintro ⟨⟨hm, hrest⟩, ⟨hid, hids⟩, ⟨haddr, haddrs⟩, ⟨ht, hts⟩, hr⟩
      exact ⟨hm, ⟨hid, haddr⟩, _, ⟨ht, rfl⟩, hrest, hids, haddrs, hts, hr⟩

theorem foldl_hasCommitted {f}
    (hf : ∀ s m, (f s m).hasCommitted = (s.hasCommitted || isCommittedMemberState m.state))
    (scan : PlanScan) (members : List Member) :
    (members.foldl f scan).hasCommitted =
      (scan.hasCommitted || members.any fun m => isCommittedMemberState m.state) := by
  induction members generalizing scan with
  | nil => simp
  | cons _ _ ih => rw [foldl_cons, ih, hf, any_cons, ← Bool.or_assoc]

/-- The planner's own check, weaker than the validator of committed states. -/
theorem validate_eq_ok {s} : validate s = .ok u ↔
      (∀ m ∈ s.members, m.identity.id.length = memberIdSize ∧ m.address ≠ []) ∧
        (s.members.map fun m => m.identity.id).Nodup ∧ (s.members.map Member.address).Nodup ∧
        (s.members.flatMap Member.tokens).Nodup ∧
        (s.members = [] ∨ ∃ m ∈ s.members, isCommittedMemberState m.state) := by
  simp only [validate, bind_eq_ok, check_eq_ok, scanPlanMembers_eq_ok, fresh_empty]
  constructor
  · rintro ⟨_, ⟨hm, hi, ha, ht, rfl⟩, hc⟩
    rw [foldl_hasCommitted fun _ _ => rfl] at hc
    exact ⟨hm, hi, ha, ht, by simpa using hc⟩
  · rintro ⟨hm, hi, ha, ht, hc⟩
    refine ⟨_, ⟨hm, hi, ha, ht, rfl⟩, ?_⟩
    rw [foldl_hasCommitted fun _ _ => rfl]
    simpa using hc

/-- Valid members with an owner among them pass the planner's check. -/
theorem validate_of_validMembers {s} (h : ValidMembers s.members)
    (hc : ∃ m ∈ s.members, isCommittedMemberState m.state) : validate s = .ok () :=
  validate_eq_ok.mpr ⟨fun m hm => ⟨h.idSize m hm, (h.address m hm).1⟩, h.ids_nodup,
    h.addresses_nodup, h.tokens_nodup, .inr hc⟩

/-! ## Owners -/

theorem mem_tokenOwners {o} :
    o ∈ tokenOwners members ↔ ∃ m ∈ members, o.token ∈ m.tokens ∧ m.identity = o.identity := by
  simp only [tokenOwners, mem_flatMap, mem_map]
  constructor
  · rintro ⟨m, hm, _, ht, rfl⟩
    exact ⟨m, hm, ht, rfl⟩
  · rintro ⟨m, hm, ht, hi⟩
    exact ⟨m, hm, o.token, ht, by rw [hi]⟩

theorem mem_eligibleMembers : m ∈ eligibleMembers members includeJoining excluded activeOnly ↔
      m ∈ members ∧ isEligible includeJoining activeOnly m.state ∧ m.address ∉ excluded := by
  simp [eligibleMembers]

theorem buildOwners_eq_ok {ring} :
    buildOwners members includeJoining excluded activeOnly = .ok ring ↔
      ring.owners = sortBy TokenOwner.token
        (tokenOwners (eligibleMembers members includeJoining excluded activeOnly)) := by
  unfold buildOwners
  dsimp only
  constructor
  · intro h
    split at h
    · cases h
      rfl
    · cases h
  · intro h
    have hne := ring.nonempty
    cases ring
    simp_all

theorem buildOwners_eligible {ring}
    (h : buildOwners members includeJoining excluded activeOnly = .ok ring) :
    ∃ m ∈ eligibleMembers members includeJoining excluded activeOnly, m.tokens ≠ [] := by
  obtain ⟨_, ho⟩ := exists_mem_of_ne_nil _ ring.nonempty
  rw [buildOwners_eq_ok.mp h, mem_sortBy, mem_tokenOwners] at ho
  obtain ⟨m, hm, ht, -⟩ := ho
  exact ⟨m, hm, ne_nil_of_mem ht⟩

theorem exists_buildOwners_iff (members) (j) (excluded) (a) :
    (∃ ring, buildOwners members j excluded a = .ok ring) ↔
      ∃ m ∈ members, (isEligible j a m.state ∧ m.address ∉ excluded) ∧ m.tokens ≠ [] := by
  constructor
  · rintro ⟨_, h⟩
    obtain ⟨m, hm, ht⟩ := buildOwners_eligible h
    obtain ⟨hmem, he, hout⟩ := mem_eligibleMembers.mp hm
    exact ⟨m, hmem, ⟨he, hout⟩, ht⟩
  · rintro ⟨m, hmem, ⟨he, hout⟩, ht⟩
    obtain ⟨t, ht⟩ := exists_mem_of_ne_nil _ ht
    have ho : (⟨t, m.identity⟩ : TokenOwner) ∈ sortBy TokenOwner.token
        (tokenOwners (eligibleMembers members j excluded a)) :=
      mem_sortBy.mpr (mem_tokenOwners.mpr ⟨m, mem_eligibleMembers.mpr ⟨hmem, he, hout⟩, ht, rfl⟩)
    exact ⟨⟨_, ne_nil_of_mem ho⟩, buildOwners_eq_ok.mpr rfl⟩

/-! ## Placement of new members -/

theorem placed_of_selectTokens {placement'} {identity} {sel} (state)
    (h : placement.selectTokens identity.address n = .ok (placement', sel)) :
    (Member.mk identity state sel.tokens sel.overrides).Placed n := by
  obtain ⟨-, seeds, hlen, hd⟩ := TokenPlacement.selectTokens_derived h
  exact ⟨seeds, hlen, hd.seed_lt, hd.tokens, hd.overrides⟩

theorem allocateFrom_spec {allocated allocated'}
    (hn : (identities.map MemberIdentity.address).Nodup)
    (h : allocateFrom n identities placement allocated = .ok allocated') :
    (∀ i ∈ identities, ∃ a, allocated'.find? i.address = some a ∧
      (Member.mk i .active a.tokens a.tokenSeedOverrides).Placed n) ∧
      ∀ key ∉ identities.map MemberIdentity.address,
        allocated'.find? key = allocated.find? key := by
  induction identities generalizing placement allocated with
  | nil =>
    obtain rfl : allocated = allocated' := by simpa [allocateFrom] using h
    simp
  | cons _ _ ih =>
    obtain ⟨⟨_, sel⟩, hselect, hrest⟩ := bind_eq_ok.mp h
    obtain ⟨hi, hn⟩ := nodup_cons.mp hn
    obtain ⟨hplaced, hother⟩ := ih hn hrest
    refine ⟨forall_mem_cons.mpr
      ⟨⟨⟨sel.tokens, sel.overrides⟩, ?_, placed_of_selectTokens .active hselect⟩, hplaced⟩, ?_⟩
    · rw [hother _ hi, OrderedMap.find?_insert, if_pos rfl]
    · intro key hkey
      simp only [map_cons, mem_cons, not_or] at hkey
      rw [hother key hkey.2, OrderedMap.find?_insert, if_neg hkey.1]

/-- Tokens allocated to one identity. -/
def allocatedTokens (allocated : OrderedMap Bytes TokenAllocation) (identity : MemberIdentity) :
    List Token :=
  ((allocated.find? identity.address).getD {}).tokens

theorem allocateFrom_fresh {allocated allocated'}
    (hn : (identities.map MemberIdentity.address).Nodup)
    (h : allocateFrom n identities placement allocated = .ok allocated') :
    Fresh placement.occupied (identities.flatMap (allocatedTokens allocated')) := by
  induction identities generalizing placement allocated with
  | nil => simp
  | cons i _ ih =>
    obtain ⟨⟨_, sel⟩, hselect, hrest⟩ := bind_eq_ok.mp h
    obtain ⟨hi, hn⟩ := nodup_cons.mp hn
    obtain ⟨hoccupied, _, -, hd⟩ := TokenPlacement.selectTokens_derived hselect
    have hfirst : allocatedTokens allocated' i = sel.tokens := by
      rw [allocatedTokens, (allocateFrom_spec hn hrest).2 _ hi, OrderedMap.find?_insert, if_pos rfl]
      rfl
    have hlater := ih hn hrest
    rw [hoccupied, hd.occupied] at hlater
    rw [flatMap_cons, hfirst]
    exact fresh_append.mpr ⟨hd.fresh, hlater⟩

/-- A placed member per identity, in address order, and nothing else. -/
theorem buildInitialPlacement_spec {joining}
    (h : buildInitialPlacement current joining n = .ok plan) :
    (0 < n ∧ n ≤ maxHashRingTokensPerMember) ∧ joining ≠ [] ∧ ValidIdentities joining ∧
      ∃ placed : List Member,
        plan.next =
          { current with clusterHasInit := true, tokensPerMember := n, members := placed } ∧
        placed.map Member.identity = sortBy MemberIdentity.address joining ∧
        ∀ m ∈ placed, m.state = .active ∧ m.Placed n := by
  obtain ⟨⟨hempty, hne⟩, h⟩ := check_bind_eq_ok.mp h
  obtain ⟨_, halloc, h⟩ := bind_eq_ok.mp h
  obtain ⟨hrange, halloc⟩ := check_bind_eq_ok.mp halloc
  obtain ⟨_, hids, halloc⟩ := bind_eq_ok.mp halloc
  rw [validateIdentities_eq_ok] at hids
  have hsort : ((sortBy MemberIdentity.address joining).map MemberIdentity.address).Nodup :=
    ((sortBy_perm MemberIdentity.address joining).map _).nodup_iff.mpr hids.addresses_nodup
  obtain ⟨hplaced, -⟩ := allocateFrom_spec hsort halloc
  obtain rfl := pure_eq_ok.mp h
  refine ⟨hrange, hne, hids, _, by rw [hempty, nil_append], ?_, ?_⟩
  · simp [Function.comp_def]
  · intro m hm
    obtain ⟨i, hi, rfl⟩ := mem_map.mp hm
    obtain ⟨_, ha, hp⟩ := hplaced i hi
    simpa [ha] using hp

/-- Members that are found by address and already joining stay; the others are placed. -/
theorem placeJoining_spec {members'}
    (h : placeJoining n identities members placement = .ok members') :
    ∃ added, members' = members ++ added ∧
      (∀ m ∈ added, m.state = .joining ∧ m.Placed n ∧ m.identity ∈ identities) ∧
      Fresh placement.occupied (added.flatMap Member.tokens) ∧
      ∀ i ∈ identities, ∃ m ∈ members', m.identity = i ∧ m.state = .joining := by
  induction identities generalizing members placement with
  | nil =>
    obtain rfl : members = members' := by simpa [placeJoining] using h
    exact ⟨[], by simp⟩
  | cons i rest ih =>
    unfold placeJoining at h
    split at h
    · rename_i m hfound
      obtain ⟨⟨hi, hs⟩, h⟩ := check_bind_eq_ok.mp h
      obtain ⟨added, rfl, hadded, hfresh, hrest⟩ := ih h
      refine ⟨added, rfl, fun m' hm' => ?_, hfresh, forall_mem_cons.mpr ⟨?_, hrest⟩⟩
      · obtain ⟨hs', hp, hmem⟩ := hadded m' hm'
        exact ⟨hs', hp, mem_cons_of_mem _ hmem⟩
      · exact ⟨m, mem_append_left _ (findByAddress_some hfound).1, hi, hs⟩
    · obtain ⟨_, -, h⟩ := bind_eq_ok.mp h
      obtain ⟨⟨_, sel⟩, hselect, h⟩ := bind_eq_ok.mp h
      obtain ⟨added, rfl, hadded, hfresh, hrest⟩ := ih h
      refine ⟨⟨i, .joining, sel.tokens, sel.overrides⟩ :: added, by simp, fun m' hm' => ?_,
        ?_, forall_mem_cons.mpr ⟨?_, hrest⟩⟩
      · rcases mem_cons.mp hm' with rfl | hm'
        · exact ⟨rfl, placed_of_selectTokens .joining hselect, mem_cons_self⟩
        · obtain ⟨hs', hp, hmem⟩ := hadded m' hm'
          exact ⟨hs', hp, mem_cons_of_mem _ hmem⟩
      · obtain ⟨hoccupied, _, -, hd⟩ := TokenPlacement.selectTokens_derived hselect
        rw [hoccupied, hd.occupied] at hfresh
        exact fresh_append.mpr ⟨hd.fresh, hfresh⟩
      · exact ⟨⟨i, .joining, sel.tokens, sel.overrides⟩, by simp, rfl, rfl⟩

/-- Planning again for members that are all joining already places nobody. -/
theorem placeJoining_retained (placement)
    (h : ∀ i ∈ identities, ∃ m ∈ findByAddress members i.address,
      m.identity = i ∧ m.state = .joining) :
    placeJoining n identities members placement = .ok members := by
  induction identities with
  | nil => simp [placeJoining, pure, Except.pure]
  | cons _ _ ih =>
    obtain ⟨⟨_, hm, hi⟩, hrest⟩ := forall_mem_cons.mp h
    unfold placeJoining
    rw [Option.mem_def.mp hm]
    simp only
    rw [check_of hi, ok_bind, ih hrest]

/-! ## Plans -/

/-- The placement a scale-out plans with. -/
def scaleOutPlacement (current : TopologyState) (joining : List MemberIdentity) (n : Nat) :
    TokenPlacement :=
  let owners := collectPlacementOwners current.members
  TokenPlacement.new owners current.tokens
    (owners.length + countNewJoiners (sortBy MemberIdentity.address joining) current.members * n
      ≤ balancedPlacementMaxRingTokens)

theorem planScaleOut_eq_ok {joining} : planScaleOut current joining n = .ok plan ↔
      validate current = .ok () ∧ ValidIdentities joining ∧
        (joining ≠ [] ∧ 0 < n ∧ n ≤ maxHashRingTokensPerMember) ∧
        ∃ members, placeJoining n (sortBy MemberIdentity.address joining) current.members
            (scaleOutPlacement current joining n) = .ok members ∧
          ∃ fromOwners, buildOwners current.members false [] false = .ok fromOwners ∧
            ∃ toOwners, buildOwners members true [] false = .ok toOwners ∧
              ⟨{ current with tokensPerMember := n, members := members },
                diffOwners fromOwners toOwners⟩ = plan := by
  simp only [planScaleOut, bind_eq_ok, check_eq_ok, validateIdentities_eq_ok,
    pure_eq_ok, exists_const, scaleOutPlacement]
  constructor
  · rintro ⟨_, hv, h⟩
    exact ⟨hv, h⟩
  · rintro ⟨hv, h⟩
    exact ⟨(), hv, h⟩

theorem planScaleIn_eq_ok {leaving} : planScaleIn current leaving = .ok plan ↔
      validate current = .ok () ∧ ValidIdentities leaving ∧
        validateSelectedMembers current leaving = .ok () ∧ leaving ≠ [] ∧
        ∃ fromOwners, buildOwners current.members false [] false = .ok fromOwners ∧
          ∃ toOwners, buildOwners current.members false (leaving.map MemberIdentity.address) false =
              .ok toOwners ∧
            ⟨{ current with
                members :=
                  markMembers current.members (leaving.map MemberIdentity.address) .preLeaving },
              diffOwners fromOwners toOwners⟩ = plan := by
  simp only [planScaleIn, bind_eq_ok, check_eq_ok, validateIdentities_eq_ok,
    pure_eq_ok, exists_const]
  constructor
  · rintro ⟨_, hv, hids, _, hs, h⟩
    exact ⟨hv, hids, hs, h⟩
  · rintro ⟨hv, hids, hs, h⟩
    exact ⟨(), hv, hids, (), hs, h⟩

theorem planFailure_eq_ok {failed} : planFailure current failed = .ok plan ↔
      validate current = .ok () ∧ ValidIdentities failed ∧
        validateSelectedMembers current failed = .ok () ∧ failed ≠ [] ∧
        ∃ fromOwners, buildOwners current.members false [] false = .ok fromOwners ∧
          ∃ toOwners, buildOwners current.members false (failed.map MemberIdentity.address) true =
              .ok toOwners ∧
            ⟨{ current with
                members :=
                  markMembers current.members (failed.map MemberIdentity.address) .failed },
              (diffOwners fromOwners toOwners).filter fun change =>
                change.source.any fun source =>
                  source.address ∈ failed.map MemberIdentity.address⟩ = plan := by
  simp only [planFailure, bind_eq_ok, check_eq_ok, validateIdentities_eq_ok,
    pure_eq_ok, exists_const]
  constructor
  · rintro ⟨_, hv, hids, _, hs, h⟩
    exact ⟨hv, hids, hs, h⟩
  · rintro ⟨hv, hids, hs, h⟩
    exact ⟨(), hv, hids, (), hs, h⟩

end HashAlgorithm

end Datasystem.Cluster
