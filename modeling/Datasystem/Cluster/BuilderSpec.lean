import Datasystem.Cluster.TopologyEvolution

/-! What each function of the plan builder does to a topology. All but bootstrap
and the start of a scale-out restate the members they are given. -/

namespace Datasystem.Cluster.TopologyPlanBuilder

open Common HashRingToken Lib.Sorting Lib.Checked HashAlgorithm List Member

/-! ## Selection -/

variable {latest s next : TopologyState} {state : MemberState} {addresses : List Bytes}
  {selected : List MemberIdentity} {members : List Member} {m : Member} {plan : TopologyPlan}

theorem validateSelectedFrom_eq_ok {u} :
    validateSelectedFrom latest state addresses selected = .ok u ↔
      (∀ i ∈ selected, ∃ m ∈ findByIdentity latest.members i, m.state = state) ∧
        Fresh addresses (selected.map MemberIdentity.address) := by
  induction selected generalizing addresses with
  | nil => simp [validateSelectedFrom]
  | cons i rest ih =>
    simp only [validateSelectedFrom, bind_eq_ok, check_eq_ok, ih, List.map_cons,
      fresh_cons, List.forall_mem_cons, exists_const]
    tauto

theorem findByIdentity_some {identity}
    (h : findByIdentity members identity = some m) : m ∈ members ∧ m.identity = identity :=
  ⟨mem_of_find?_eq_some h, by simpa using find?_some h⟩

theorem findByIdentity_of_mem (hn : (members.map Member.address).Nodup)
    (hm : m ∈ members) : findByIdentity members m.identity = some m := by
  cases hf : findByIdentity members m.identity with
  | none =>
    have hnone := find?_eq_none.mp hf m hm
    simp at hnone
  | some =>
    obtain ⟨hm', hi⟩ := findByIdentity_some hf
    rw [eq_of_address_eq hn hm' hm (congrArg MemberIdentity.address hi)]

theorem validateSelected_spec {u} (h : validateSelected latest selected state = .ok u) :
    selected ≠ [] ∧ ∀ i ∈ selected, ∃ m ∈ latest.members, m.identity = i ∧ m.state = state := by
  obtain ⟨hne, h⟩ := check_bind_eq_ok.mp h
  refine ⟨hne, fun i hi => ?_⟩
  obtain ⟨m, hm, hs⟩ := (validateSelectedFrom_eq_ok.mp h).1 i hi
  obtain ⟨hmem, hid⟩ := findByIdentity_some hm
  exact ⟨m, hmem, hid, hs⟩

theorem mem_removeMembers :
    m ∈ removeMembers members addresses ↔ m ∈ members ∧ m.address ∉ addresses := by
  simp [removeMembers]

theorem removeMembers_sublist (members) (addresses) :
    (removeMembers members addresses).Sublist members :=
  filter_sublist

theorem removeMembers_eq_restate (members) (addresses) :
    removeMembers members addresses = restate (forget addresses) members := by
  rw [removeMembers, ← restate_filter]
  refine restate_congr fun m _ => ?_
  by_cases hm : m.address ∈ addresses <;> simp [forget, hm]

theorem mem_membersInState {i} :
    i ∈ membersInState s state ↔ ∃ m ∈ s.members, m.state = state ∧ m.identity = i := by
  simp [membersInState, and_assoc]

theorem address_mem_membersInState (h : (s.members.map Member.address).Nodup) (hm : m ∈ s.members) :
    m.address ∈ (membersInState s state).map MemberIdentity.address ↔ m.state = state := by
  rw [mem_map]
  constructor
  · rintro ⟨i, hi, ha⟩
    obtain ⟨m', hm', hs, rfl⟩ := mem_membersInState.mp hi
    rwa [eq_of_address_eq h hm hm' ha.symm]
  · exact fun hs => ⟨m.identity, mem_membersInState.mpr ⟨m, hm, hs, rfl⟩, rfl⟩

theorem validIdentities_membersInState (h : ValidMembers s.members) (state) :
    ValidIdentities (membersInState s state) where
  wellFormed i hi := by
    obtain ⟨m, hm, -, rfl⟩ := mem_membersInState.mp hi
    exact ⟨h.idSize m hm, h.address m hm⟩
  ids_nodup := by
    rw [membersInState, map_map]
    exact h.ids_nodup.sublist (filter_sublist.map _)
  addresses_nodup := by
    rw [membersInState, map_map]
    exact h.addresses_nodup.sublist (filter_sublist.map _)

theorem removeMembers_membersInState (h : (s.members.map Member.address).Nodup) (state) :
    removeMembers s.members ((membersInState s state).map MemberIdentity.address) =
      restate (discard state) s.members := by
  rw [removeMembers_eq_restate]
  refine restate_congr fun m hm => ?_
  simp only [forget, discard, address_mem_membersInState h hm]

/-! ## Bootstrap and scale-out -/

theorem buildBootstrap_spec {ready} (h : buildBootstrap latest ready = .ok next)
    (hcanonical : ∀ m ∈ removeMembers latest.members (ready.map MemberIdentity.address),
      CanonicalAddress m.address) :
    (∀ m ∈ latest.members, ¬isCommittedMemberState m.state) ∧ latest.activeBatch = none ∧
      ValidIdentities ready ∧
      (∀ i ∈ ready, ∃ m ∈ latest.members, m.identity = i ∧ m.state = .initial) ∧
      ∃ placed : List Member, placed ≠ [] ∧
        (∀ m ∈ placed, m.state = .active ∧ m.Placed defaultHashRingTokensPerMember ∧
          m.identity ∈ ready) ∧
        ValidMembers (placed ++ removeMembers latest.members (ready.map MemberIdentity.address)) ∧
        next =
          { clusterHasInit := true
            version := latest.version + 1
            members := placed ++ removeMembers latest.members (ready.map MemberIdentity.address)
            activeBatch := none
            tokensPerMember := defaultHashRingTokensPerMember } := by
  obtain ⟨⟨hnone, hstable⟩, h⟩ := check_bind_eq_ok.mp h
  obtain ⟨_, hselect, h⟩ := bind_eq_ok.mp h
  obtain ⟨hready, hselected⟩ := validateSelected_spec hselect
  obtain ⟨built, hbuilt, h⟩ := bind_eq_ok.mp h
  obtain ⟨-, -, hids, placed, hnext, hidentity, hplaced⟩ := buildInitialPlacement_spec hbuilt
  obtain ⟨_, hval, h⟩ := bind_eq_ok.mp h
  obtain ⟨hwell, hidsNodup, haddresses, htok, -⟩ := validate_eq_ok.mp hval
  have hmem : ∀ m ∈ placed, m.identity ∈ ready := fun m hm => by
    have hi := List.mem_map_of_mem (f := Member.identity) hm
    rwa [hidentity, mem_sortBy] at hi
  rw [hnext] at hwell hidsNodup haddresses htok
  refine ⟨hnone, hstable, hids, hselected, placed, ?_, ?_, ?_, ?_⟩
  · rintro rfl
    have hlen := congrArg List.length hidentity
    exact hready (List.eq_nil_of_length_eq_zero (by simpa using hlen.symm))
  · exact fun m hm => ⟨(hplaced m hm).1, (hplaced m hm).2, hmem m hm⟩
  · refine ⟨fun m hm => ?_, fun m hm => (hwell m hm).1, haddresses, hidsNodup, htok⟩
    exact (List.mem_append.mp hm).elim (fun hm => (hids.wellFormed _ (hmem m hm)).2) (hcanonical m)
  · rw [← pure_eq_ok.mp h, hnext]
    simp

/-- The start of a scale-out: the selected members come back with tokens, as joining ones. -/
theorem buildScaleOutStart_spec (h : buildScaleOutStart latest selected = .ok plan)
    (hcanonical : ∀ m ∈ removeMembers latest.members (selected.map MemberIdentity.address),
      CanonicalAddress m.address) :
    latest.clusterHasInit ∧ latest.activeBatch = none ∧ selected ≠ [] ∧ ValidIdentities selected ∧
      (∀ i ∈ selected, ∃ m ∈ latest.members, m.identity = i ∧ m.state = .initial) ∧
      ∃ joined : List Member, (∀ m ∈ joined, m.state = .joining ∧ m.Placed latest.tokensPerMember ∧
          m.identity ∈ selected) ∧
        (∀ i ∈ selected, ∃ m ∈ joined, m.identity = i) ∧
        (∃ m ∈ removeMembers latest.members (selected.map MemberIdentity.address),
          isCommittedMemberState m.state) ∧
        ValidMembers (removeMembers latest.members (selected.map MemberIdentity.address) ++
          joined) ∧
        plan.next = latest.advance
          (removeMembers latest.members (selected.map MemberIdentity.address) ++ joined)
          (some (latest.freshBatch .scaleOut)) ∧
        ∃ fromOwners, buildOwners
            (removeMembers latest.members (selected.map MemberIdentity.address)) false [] false =
              .ok fromOwners ∧
          ∃ toOwners, buildOwners plan.next.members true [] false = .ok toOwners ∧
            plan.ownerChanges = diffOwners fromOwners toOwners := by
  obtain ⟨⟨hinit, hstable⟩, h⟩ := check_bind_eq_ok.mp h
  obtain ⟨_, hselect, h⟩ := bind_eq_ok.mp h
  obtain ⟨hne, hselected⟩ := validateSelected_spec hselect
  obtain ⟨built, hbuilt, h⟩ := bind_eq_ok.mp h
  obtain ⟨_, hval, h⟩ := bind_eq_ok.mp h
  obtain rfl := pure_eq_ok.mp h
  obtain ⟨hwell, hidsNodup, haddresses, htok, -⟩ := validate_eq_ok.mp hval
  obtain ⟨-, hids, -, members, hplace, fromOwners, hfrom, toOwners, hto, rfl⟩ :=
    planScaleOut_eq_ok.mp hbuilt
  obtain ⟨joined, rfl, hjoined, -, hall⟩ := placeJoining_spec hplace
  have hmem : ∀ m ∈ joined, m.identity ∈ selected := fun m hm => mem_sortBy.mp (hjoined m hm).2.2
  obtain ⟨owner, howner, -⟩ := buildOwners_eligible hfrom
  obtain ⟨home, hcommitted, -⟩ := mem_eligibleMembers.mp howner
  refine ⟨hinit, hstable, hne, hids, hselected, joined, ?_, ?_, ?_, ?_, rfl, fromOwners, hfrom,
    toOwners, hto, rfl⟩
  · exact fun m hm => ⟨(hjoined m hm).1, (hjoined m hm).2.1, hmem m hm⟩
  · intro i hi
    obtain ⟨m, hm, hmi, -⟩ := hall i (mem_sortBy.mpr hi)
    rcases mem_append.mp hm with hm | hm
    · have hout := (mem_removeMembers.mp hm).2
      exact absurd (mem_map_of_mem (f := MemberIdentity.address) (hmi ▸ hi)) hout
    · exact ⟨m, hm, hmi⟩
  · exact ⟨owner, home, by simpa [isEligible] using hcommitted⟩
  · refine ⟨fun m hm => ?_, fun m hm => (hwell m hm).1, haddresses, hidsNodup, htok⟩
    exact (mem_append.mp hm).elim (hcanonical m) fun hm => (hids.wellFormed _ (hmem m hm)).2

theorem joining_found (h : (s.members.map Member.address).Nodup) :
    ∀ i ∈ sortBy MemberIdentity.address (membersInState s .joining),
      ∃ m ∈ findByAddress s.members i.address, m.identity = i ∧ m.state = .joining := by
  intro i hi
  obtain ⟨m, hm, hs, rfl⟩ := mem_membersInState.mp (mem_sortBy.mp hi)
  exact ⟨m, findByAddress_of_mem h hm, rfl, hs⟩

theorem buildScaleOutReplan_spec {failedJoining}
    (h : buildScaleOutReplan latest failedJoining = .ok plan)
    (hn : (latest.members.map Member.address).Nodup) :
    (∃ b ∈ latest.activeBatch, b.type = .scaleOut) ∧
      (∀ i ∈ failedJoining, ∃ m ∈ latest.members, m.identity = i ∧ m.state = .joining) ∧
      plan.next = latest.advance
        (restate (forget (failedJoining.map MemberIdentity.address)) latest.members)
        (replannedBatch latest
          (restate (forget (failedJoining.map MemberIdentity.address)) latest.members)) := by
  obtain ⟨hbatch, h⟩ := check_bind_eq_ok.mp h
  obtain ⟨_, hselected, h⟩ := bind_eq_ok.mp h
  refine ⟨hbatch, (validateSelected_spec hselected).2, ?_⟩
  rw [← removeMembers_eq_restate]
  set retained := removeMembers latest.members (failedJoining.map MemberIdentity.address)
  have hnr : (retained.map Member.address).Nodup := hn.sublist ((removeMembers_sublist _ _).map _)
  have hiff : membersInState { latest with members := retained } .joining ≠ [] ↔
      ∃ m ∈ retained, m.state = .joining := by
    simp [membersInState]
  by_cases hj : ∃ m ∈ retained, m.state = .joining
  · rw [if_pos (hiff.mpr hj)] at h
    obtain ⟨built, hbuilt, hplan⟩ := bind_eq_ok.mp h
    obtain ⟨-, -, -, members, hplace, _, -, _, -, hnext⟩ := planScaleOut_eq_ok.mp hbuilt
    rw [placeJoining_retained _ (joining_found (s := { latest with members := retained }) hnr)]
      at hplace
    rw [← pure_eq_ok.mp hplan, ← hnext, ← Except.ok.inj hplace, replannedBatch, if_pos hj]
    rfl
  · rw [if_neg (mt hiff.mp hj)] at h
    rw [← pure_eq_ok.mp h, replannedBatch, if_neg hj]
    rfl

theorem buildScaleOutFinal_spec (h : buildScaleOutFinal latest = .ok next) :
    (∃ b ∈ latest.activeBatch, b.type = .scaleOut) ∧
      next = latest.advance (restate activate latest.members) none := by
  obtain ⟨hbatch, h⟩ := check_bind_eq_ok.mp h
  obtain ⟨_, -, h⟩ := bind_eq_ok.mp h
  refine ⟨hbatch, ?_⟩
  have hmembers : restate activate latest.members =
      latest.members.map fun m => if m.state = .joining then m.withState .active else m := by
    have hsome : activate = fun m => some (if m.state = .joining then .active else m.state) := rfl
    rw [hsome, restate_some]
    refine map_congr_left fun m _ => ?_
    split <;> rfl
  rw [hmembers, ← pure_eq_ok.mp h]
  rfl

/-! ## Scale-in -/

/-- The start of a scale-in on a state in which the selected members are about to leave. -/
theorem buildScaleInStart_spec (h : buildScaleInStart latest selected = .ok plan)
    (hn : (latest.members.map address).Nodup) :
    latest.clusterHasInit ∧ latest.activeBatch = none ∧ selected ≠ [] ∧
      (∀ i ∈ selected, ∃ m ∈ latest.members, m.identity = i ∧ m.state = .preLeaving) ∧
      plan.next = latest.advance
        (restate (leave (selected.map MemberIdentity.address)) latest.members)
        (some (latest.freshBatch .scaleIn)) ∧
      ∃ fromOwners, buildOwners latest.members false [] false = .ok fromOwners ∧
        ∃ toOwners, buildOwners latest.members false (selected.map MemberIdentity.address) false =
            .ok toOwners ∧
          plan.ownerChanges = diffOwners fromOwners toOwners := by
  obtain ⟨⟨hinit, hstable⟩, h⟩ := check_bind_eq_ok.mp h
  obtain ⟨_, hselect, h⟩ := bind_eq_ok.mp h
  obtain ⟨hne, hselected⟩ := validateSelected_spec hselect
  obtain ⟨built, hbuilt, h⟩ := bind_eq_ok.mp h
  obtain ⟨-, -, -, -, fromOwners, hfrom, toOwners, hto, rfl⟩ := planScaleIn_eq_ok.mp hbuilt
  obtain rfl := pure_eq_ok.mp h
  have hiff : ∀ m ∈ latest.members,
      m.address ∈ selected.map MemberIdentity.address ↔ m.identity ∈ selected := by
    intro m hm
    refine ⟨fun ha => ?_, fun hi => mem_map_of_mem hi⟩
    obtain ⟨i, hi, hia⟩ := mem_map.mp ha
    obtain ⟨m', hm', rfl, -⟩ := hselected i hi
    rwa [eq_of_address_eq hn hm hm' hia.symm]
  refine ⟨hinit, hstable, hne, hselected, ?_, fromOwners, hfrom, toOwners, hto, rfl⟩
  have hmembers : restate (leave (selected.map MemberIdentity.address)) latest.members =
      (markMembers latest.members (selected.map MemberIdentity.address) .preLeaving).map fun m =>
        if m.state = .preLeaving ∧ m.identity ∈ selected then m.withState .leaving else m := by
    have hsome : leave (selected.map MemberIdentity.address) = fun m =>
      some (if m.address ∈ selected.map MemberIdentity.address then .leaving else m.state) := rfl
    rw [hsome, restate_some, markMembers, map_map]
    refine map_congr_left fun m hm => ?_
    by_cases hmem : m.identity ∈ selected
    · simp only [Function.comp_apply, if_pos ((hiff m hm).mpr hmem)]
      rw [if_pos ⟨rfl, hmem⟩]
      rfl
    · simp only [Function.comp_apply, if_neg (mt (hiff m hm).mp hmem)]
      rw [if_neg fun h => hmem h.2]
      rfl
  rw [hmembers]
  rfl

theorem buildScaleInFinal_spec (h : buildScaleInFinal latest = .ok next)
    (hn : (latest.members.map Member.address).Nodup) :
    (∃ b ∈ latest.activeBatch, b.type = .scaleIn) ∧
      next = latest.advance (restate (discard .leaving) latest.members) none := by
  obtain ⟨hbatch, h⟩ := check_bind_eq_ok.mp h
  obtain ⟨_, -, h⟩ := bind_eq_ok.mp h
  refine ⟨hbatch, ?_⟩
  rw [← removeMembers_membersInState hn, ← pure_eq_ok.mp h]
  rfl

/-! ## Failure -/

theorem setStateOf_eq_self {identity} (h : ∀ m ∈ members, m.identity = identity → m.state = state) :
    setStateOf identity state members = members := by
  induction members with
  | nil => rfl
  | cons m rest ih =>
    obtain ⟨hm, hrest⟩ := forall_mem_cons.mp h
    unfold setStateOf
    split
    · rename_i hi
      rw [← hm hi]
      rfl
    · rw [ih hrest]

theorem preserveOrdinaryFacts_eq_self {latest} {failedAddresses}
    (h : ∀ m ∈ latest, (m.state = .joining ∨ m.state = .leaving) → m.address ∉ failedAddresses →
      ∀ m' ∈ members, m'.identity = m.identity → m'.state = m.state) :
    preserveOrdinaryFacts latest failedAddresses members = members := by
  unfold preserveOrdinaryFacts
  induction latest with
  | nil => rfl
  | cons m rest ih =>
    obtain ⟨hm, hrest⟩ := forall_mem_cons.mp h
    rw [foldl_cons]
    split
    · rename_i hc
      rw [setStateOf_eq_self (hm hc.1 hc.2)]
      exact ih hrest
    · exact ih hrest

/-- Marking the planning members is marking the members, since every failed one is marked. -/
theorem markMembers_planningMembers (h : ∀ m ∈ members, m.state = .failed → m.address ∈ addresses) :
    markMembers (planningMembers members) addresses .failed =
      markMembers members addresses .failed := by
  rw [markMembers, markMembers, planningMembers, map_map]
  refine map_congr_left fun m hm => ?_
  by_cases hf : m.state = .failed
  · have ha : (m.withState .active).address ∈ addresses := h m hm hf
    simp only [Function.comp_apply, if_pos hf, if_pos ha, if_pos (h m hm hf)]
    rfl
  · simp only [Function.comp_apply, if_neg hf]

/-- Whether a failure batch finds somebody to recover the data. -/
def Healthy (latest : TopologyState) (confirmed : List MemberIdentity) : Prop :=
  ∃ m ∈ latest.members, m.state = .active ∧ m.address ∉ confirmed.map MemberIdentity.address

theorem buildFailureStartOrReplan_spec
    {confirmed} (h : buildFailureStartOrReplan latest confirmed = .ok plan)
    (hn : (latest.members.map Member.address).Nodup) :
    latest.clusterHasInit ∧ (∀ m ∈ latest.members, m.state = .failed → m.identity ∈ confirmed) ∧
      plan.next = latest.advance
        (markMembers latest.members (confirmed.map MemberIdentity.address) .failed)
        (some (latest.freshBatch .failure)) ∧
      ((Healthy latest confirmed ∧
          ∃ built, planFailure { latest with members := planningMembers latest.members } confirmed =
            .ok built ∧ plan.ownerChanges = built.ownerChanges) ∨
        ¬Healthy latest confirmed ∧ plan.ownerChanges = []) := by
  obtain ⟨hinit, h⟩ := check_bind_eq_ok.mp h
  obtain ⟨_, hretained, h⟩ := bind_eq_ok.mp h
  have hretained := check_eq_ok.mp hretained
  refine ⟨hinit, hretained, ?_⟩
  have hfailed : ∀ m ∈ latest.members, m.state = .failed →
      m.address ∈ confirmed.map MemberIdentity.address := fun m hm hs =>
    mem_map_of_mem (hretained m hm hs)
  dsimp only at h
  split at h <;> rename_i hhealthy
  · obtain ⟨built, hbuilt, hplan⟩ := bind_eq_ok.mp h
    obtain ⟨-, -, -, -, _, -, _, -, hnext⟩ := planFailure_eq_ok.mp hbuilt
    have hmembers : built.next.members =
        markMembers latest.members (confirmed.map MemberIdentity.address) .failed := by
      rw [← hnext]
      exact markMembers_planningMembers hfailed
    have hpreserve : preserveOrdinaryFacts latest.members (confirmed.map MemberIdentity.address)
        built.next.members = built.next.members := by
      refine preserveOrdinaryFacts_eq_self fun m hm _ hout m' hm' hid => ?_
      rw [hmembers] at hm'
      obtain ⟨m₀, hm₀, rfl⟩ := List.mem_map.mp hm'
      have hm₀' : m₀.address = m.address := by
        split at hid <;> exact congrArg MemberIdentity.address hid
      obtain rfl := eq_of_address_eq hn hm₀ hm hm₀'
      rw [if_neg hout]
    refine ⟨?_, .inl ⟨hhealthy, built, hbuilt, ?_⟩⟩
    · rw [← pure_eq_ok.mp hplan, hpreserve, hmembers, ← hnext]
      rfl
    · rw [← pure_eq_ok.mp hplan]
      rfl
  · have hplan := pure_eq_ok.mp h
    refine ⟨?_, .inr ⟨hhealthy, ?_⟩⟩
    · rw [← hplan]
      rfl
    · rw [← hplan]
      rfl

theorem buildFailureFinal_spec (h : buildFailureFinal latest = .ok next)
    (hn : (latest.members.map Member.address).Nodup) :
    (∃ b ∈ latest.activeBatch, b.type = .failure) ∧ ∃ members batch,
        resumeAfterFailure (restate (discard .failed) latest.members) (latest.version + 1) =
          (members, batch) ∧
        next = latest.advance members batch := by
  obtain ⟨hbatch, h⟩ := check_bind_eq_ok.mp h
  obtain ⟨_, -, h⟩ := bind_eq_ok.mp h
  refine ⟨hbatch, _, _, Prod.eta _, ?_⟩
  rw [← removeMembers_membersInState hn, ← pure_eq_ok.mp h]
  rfl

theorem buildClusterShutdownFinal_spec
    (h : buildClusterShutdownFinal latest = .ok next) : next = latest.advance [] none := by
  obtain ⟨_, -, h⟩ := bind_eq_ok.mp h
  obtain ⟨_, -, h⟩ := bind_eq_ok.mp h
  rw [← pure_eq_ok.mp h]
  rfl

/-- Failing some members and forgetting others, in one restatement. -/
theorem removeMembers_markMembers (members) (failed gone) :
    removeMembers (markMembers members failed .failed) gone =
      restate (fail failed gone) members := by
  have hmark : markMembers members failed .failed =
      restate (fun m => some (if m.address ∈ failed then .failed else m.state)) members := by
    rw [restate_some, markMembers]
    refine map_congr_left fun m _ => ?_
    split <;> rfl
  rw [removeMembers_eq_restate, hmark, restate_restate]
  refine restate_congr fun m _ => ?_
  by_cases hg : m.address ∈ gone <;> simp [forget, fail, hg]

end Datasystem.Cluster.TopologyPlanBuilder
