import Datasystem.Cluster.BuilderSpec
import Datasystem.Cluster.TopologyController

/-! Every transition of the controller is a step of the topology's life. The
controller's collection and classification functions are inverted one by one and
put together in `Transition.evolution`. -/

namespace Datasystem.Cluster.TopologyController

open Common Lib.Sorting Lib.Checked HashAlgorithm TopologyPlanBuilder List MemberIdentity

/-! ## Classification -/

variable {latest : TopologyState} {c : FailureClassification}
  {memberships : List MembershipRecord} {source : MembershipSource}

variable (options : TopologyControllerOptions)

theorem confirmMissingMembersUnreachable_sound (evidence) (h : c.Sound latest) :
    (confirmMissingMembersUnreachable options latest evidence c).Sound latest := by
  unfold confirmMissingMembersUnreachable
  split
  · exact h
  · exact h
  · split
    · exact h
    · exact ⟨h.removeInitial, h.removeJoining, fun i hi =>
        h.confirmedFailure i (mem_filter.mp hi).1⟩

theorem applyWitnessFailureGate_sound (evidence) (h : c.Sound latest) :
    (applyWitnessFailureGate options evidence c).Sound latest := by
  unfold applyWitnessFailureGate
  split
  · exact ⟨h.removeInitial, h.removeJoining, fun i hi =>
      h.confirmedFailure i (mem_filter.mp hi).1⟩
  · exact h

theorem applySummaryFailure_sound (i) (h : c.Sound latest) :
    (applySummaryFailure latest c i).Sound latest := by
  unfold applySummaryFailure
  split
  · rename_i hstate
    obtain ⟨m, hm, hs⟩ := Option.map_eq_some_iff.mp hstate
    obtain ⟨hmem, ha⟩ := findByAddress_some hm
    refine ⟨h.removeInitial, fun j hj => ?_, h.confirmedFailure⟩
    rcases mem_append.mp hj with hj | hj
    · exact h.removeJoining j hj
    · obtain rfl := mem_singleton.mp hj
      exact ⟨m, hmem, ha, hs⟩
  · rename_i hstate
    obtain ⟨m, hm, hs⟩ := Option.map_eq_some_iff.mp hstate
    obtain ⟨hmem, ha⟩ := findByAddress_some hm
    refine ⟨h.removeInitial, h.removeJoining, fun j hj => ?_⟩
    rcases mem_append.mp hj with hj | hj
    · exact h.confirmedFailure j hj
    · obtain rfl := mem_singleton.mp hj
      exact ⟨m, hmem, ha, .inl (by simp [hs, isCommittedMemberState])⟩
  · exact h

theorem Classified.sound {options}
    (h : Classified options latest memberships c) : c.Sound latest := by
  obtain ⟨-, -, classifier, classifier', now, observed, evidence, hobserve, rfl⟩ := h
  have hgated := applyWitnessFailureGate_sound options evidence
    (confirmMissingMembersUnreachable_sound options evidence
      (TopologyFailureClassifier.observe_sound hobserve))
  exact List.foldlRecOn (motive := fun c : FailureClassification => c.Sound latest) _ _ hgated
    fun c hc i _ => applySummaryFailure_sound i hc

/-- Soundness by address pins down every member at a listed address. -/
theorem state_of_listed (p : MemberState → Prop)
    {identities : List MemberIdentity} (hn : (latest.members.map Member.address).Nodup)
    (h : ∀ i ∈ identities, ∃ m ∈ latest.members, m.address = i.address ∧ p m.state) :
    ∀ m ∈ latest.members, m.address ∈ identities.map address → p m.state := by
  intro m hm ha
  obtain ⟨i, hi, hia⟩ := mem_map.mp ha
  obtain ⟨m', hm', ha', hp⟩ := h i hi
  rwa [eq_of_address_eq hn hm hm' (hia.symm.trans ha'.symm)]

/-! ## Membership facts -/

theorem applyExitingMembershipFacts_spec (maxMembers : Nat) (exiting) (changed : Nat) {members}
    (hn : (members.map Member.address).Nodup) :
    ∃ moved : List Bytes, (∀ a ∈ moved, a ∈ members.map Member.address) ∧
      (applyExitingMembershipFacts maxMembers exiting changed members).1 =
        restate (retire moved) members := by
  induction members generalizing changed with
  | nil => exact ⟨[], by simp, rfl⟩
  | cons m rest ih =>
    obtain ⟨hm, hn⟩ := nodup_cons.mp hn
    unfold applyExitingMembershipFacts
    split
    · rename_i hc
      obtain ⟨moved, hsub, hrestate⟩ := ih (changed + 1) hn
      refine ⟨m.address :: moved, ?_, ?_⟩
      · simpa using fun a ha => .inr (by simpa using hsub a ha)
      · -- the address of `m` is not the address of another member
        have hrest : restate (retire (m.address :: moved)) rest = restate (retire moved) rest := by
          refine restate_congr fun m' hm' => ?_
          have hne : m'.address ≠ m.address := fun he =>
            hm (he ▸ mem_map_of_mem (f := Member.address) hm')
          simp only [retire, mem_cons, hne, false_or]
        simp only [hrestate, ← hrest]
        simp [restate, retire, hc.1]
    · obtain ⟨moved, hsub, hrestate⟩ := ih changed hn
      have hout : m.address ∉ moved := fun hmem => hm (hsub _ hmem)
      refine ⟨moved, fun a ha => mem_cons_of_mem _ (hsub a ha), ?_⟩
      simp only [hrestate]
      simp [restate, retire, hout, Member.withState]

theorem mem_ready {quarantine} {r} (h : r ∈ (collectMembershipFacts quarantine memberships).ready) :
    r ∈ memberships := by
  have hfold : ∀ r ∈ (memberships.foldl collectMembershipFact { quarantine := quarantine }).ready,
      r ∈ memberships := by
    refine List.foldlRecOn (motive := fun facts : MembershipFacts =>
      ∀ r ∈ facts.ready, r ∈ memberships) _ _ (by simp) fun facts hfacts record hrecord r hr => ?_
    have hadd : r ∈ facts.ready ++ [record] → r ∈ memberships := fun hr => by
      rcases mem_append.mp hr with hr | hr
      · exact hfacts r hr
      · exact mem_singleton.mp hr ▸ hrecord
    unfold collectMembershipFact at hr
    split at hr
    · exact hfacts r hr
    · split at hr
      · split at hr
        · split at hr
          · exact hfacts r hr
          · exact hadd hr
        · exact hadd hr
      · exact hfacts r hr
  exact hfold r (mem_sortBy.mp h)

theorem applyReadyMembershipFacts_spec {maxMembers changed changed' : Nat}
    {ready} {members members'} {known} {admitted} (hrecords : ∀ r ∈ ready, r ∈ source.records)
    (h : applyReadyMembershipFacts source.sha256 maxMembers ready members known changed =
      .ok (members', admitted, changed')) :
    ∃ added, members' = members ++ added ∧ admitted = added.map Member.identity ∧
      (∀ m ∈ added, m.state = .initial ∧ m.Blank ∧ m.address ≠ [] ∧
        isCanonicalEndpoint m.address ∧ Generated source m.identity) ∧
      Fresh known (added.map Member.address) := by
  induction ready generalizing members known changed admitted with
  | nil =>
    obtain ⟨rfl, rfl, -⟩ : members = members' ∧ [] = admitted ∧ changed = changed' := by
      simpa [applyReadyMembershipFacts] using h
    exact ⟨[], by simp⟩
  | cons r rest ih =>
    obtain ⟨hr, hrecords⟩ := forall_mem_cons.mp hrecords
    unfold applyReadyMembershipFacts at h
    split at h
    · exact ih hrecords h
    · rename_i hknown
      obtain ⟨_, hkey, h⟩ := bind_eq_ok.mp h
      obtain ⟨_, haddr, -⟩ := bind_eq_ok.mp hkey
      obtain ⟨hne, hcanonical⟩ := check_bind_eq_ok.mp haddr
      obtain ⟨id, hid, h⟩ := bind_eq_ok.mp h
      obtain ⟨⟨members₁, admitted₁, changed₁⟩, hrest, h⟩ := bind_eq_ok.mp h
      obtain ⟨rfl, rfl, rfl⟩ : members₁ = members' ∧ _ = admitted ∧ changed₁ = changed' := by
        simpa using h
      obtain ⟨added, rfl, rfl, hadded, hfresh⟩ := ih hrecords hrest
      refine ⟨⟨⟨id, r.address⟩, .initial, [], []⟩ :: added, by simp, rfl, ?_, ?_⟩
      · refine forall_mem_cons.mpr ⟨⟨rfl, ⟨rfl, rfl⟩, ?_, ?_, r, hr, rfl, hid⟩, hadded⟩
        · exact hne
        · exact check_eq_ok.mp hcanonical
      · exact fresh_cons.mpr ⟨fun hmem => hknown (.inl hmem), hfresh⟩

/-! ## Candidates of the next batch -/

theorem directJoining_spec {maxMembers : Nat} {materialize} {known} {ready} {joining joining'}
    (hrecords : ∀ r ∈ ready, r ∈ source.records)
    (h : directJoining source.sha256 maxMembers materialize known ready joining = .ok joining') :
    ∀ i ∈ joining', i ∈ joining ∨ i.id = [] ∨ Generated source i := by
  induction ready generalizing joining with
  | nil =>
    obtain rfl : joining = joining' := by simpa [directJoining] using h
    exact fun i hi => .inl hi
  | cons r _ ih =>
    obtain ⟨hr, hrecords⟩ := forall_mem_cons.mp hrecords
    unfold directJoining at h
    split at h
    · exact ih hrecords h
    · obtain ⟨id, hid, h⟩ := bind_eq_ok.mp h
      intro i hi
      rcases ih hrecords h i hi with hmem | hgenerated
      · rcases mem_append.mp hmem with hmem | hmem
        · exact .inl hmem
        · obtain rfl := mem_singleton.mp hmem
          unfold newMemberId at hid
          split at hid
          · exact .inr (.inr ⟨r, hr, rfl, hid⟩)
          · exact .inr (.inl (pure_eq_ok.mp hid).symm)
      · exact .inr hgenerated

/-- A joining candidate is an INITIAL member or comes from a record; only a candidate that
was never given an id has none. -/
theorem collectNextBatchCandidates_joining {options} {quarantine} {materialize} {candidates}
    (hrecords : ∀ r ∈ memberships, r ∈ source.records)
    (h : collectNextBatchCandidates source.sha256 options quarantine latest memberships
      materialize =
      .ok candidates) :
    ∀ i ∈ candidates.joining, (∃ m ∈ latest.members, m.identity = i) ∨ i.id = [] ∨
      Generated source i := by
  obtain ⟨joining, hjoining, h⟩ := bind_eq_ok.mp h
  rw [← pure_eq_ok.mp h]
  unfold addDirectJoining at hjoining
  intro i hi
  have hi := mem_sortBy.mp (mem_of_mem_take hi)
  have hinitial : ∀ {p : Member → Bool}, i ∈ (latest.members.filter p).map Member.identity →
      ∃ m ∈ latest.members, m.identity = i := fun hmem => by
    obtain ⟨m, hm, hmi⟩ := mem_map.mp hmem
    exact ⟨m, (mem_filter.mp hm).1, hmi⟩
  split at hjoining
  · exact (directJoining_spec (fun r hr => hrecords r (mem_ready hr)) hjoining i hi).imp_left
      hinitial
  · rw [← pure_eq_ok.mp hjoining] at hi
    exact .inl (hinitial hi)

/-! ## Batch starts -/

/-- Direct admission puts the new participants into the topology first. -/
theorem prepareBatchStartState_scaleOut (latest) (participants) : ∃ extra : List Member,
      prepareBatchStartState options latest participants .scaleOut =
        { latest with members := latest.members ++ extra } ∧
      ∀ m ∈ extra, m.identity ∈ participants ∧ m.address ∉ latest.addresses := by
  unfold prepareBatchStartState
  split
  · exact ⟨[], by simp⟩
  · refine ⟨_, rfl, fun m hm => ?_⟩
    obtain ⟨i, hi, rfl⟩ := mem_map.mp hm
    simpa using hi

/-- Direct admission lets active participants leave without a PRE_LEAVING commit. -/
theorem prepareBatchStartState_scaleIn (latest) (participants) :
    ∃ moved, (∀ a ∈ moved, a ∈ participants.map address) ∧
      prepareBatchStartState options latest participants .scaleIn =
        { latest with members := restate (retire moved) latest.members } := by
  have hretire : ∀ moved, restate (retire moved) latest.members = latest.members.map fun m =>
      if m.state = .active ∧ m.address ∈ moved then m.withState .preLeaving else m := by
    intro moved
    have hsome : retire moved = fun m =>
      some (if m.state = .active ∧ m.address ∈ moved then .preLeaving else m.state) := rfl
    rw [hsome, restate_some]
    refine map_congr_left fun m _ => ?_
    split <;> rfl
  unfold prepareBatchStartState
  split
  · exact ⟨[], by simp, by simp [hretire]⟩
  · exact ⟨_, fun _ ha => ha, by rw [hretire]⟩

section

variable {source : MembershipSource} {latest next : TopologyState}

variable {extra : List Member} {selected : List MemberIdentity} {plan : TopologyPlan}
  {maxMembers : Nat} {classification : FailureClassification}
  {options : TopologyControllerOptions}

variable (members : List Member)

/-- Participants that are added first and selected right away leave no trace. -/
theorem removeMembers_append_extra (h : ∀ m ∈ extra, m.identity ∈ selected) :
    removeMembers (members ++ extra) (selected.map MemberIdentity.address) =
      removeMembers members (selected.map MemberIdentity.address) := by
  have hnil : removeMembers extra (selected.map MemberIdentity.address) = [] :=
    filter_eq_nil_iff.mpr fun m hm => by
      simpa using ⟨m.identity, h m hm, rfl⟩
  simp only [removeMembers, filter_append] at hnil ⊢
  rw [hnil, append_nil]

theorem generated_of_candidate (hgenerated : ∀ m ∈ latest.members, Generated source m.identity)
    {i} (h : (∃ m ∈ latest.members, m.identity = i) ∨ i.id = [] ∨ Generated source i)
    (hsize : i.id.length = memberIdSize) : Generated source i := by
  rcases h with ⟨m, hm, rfl⟩ | hid | hgenerated
  · exact hgenerated m hm
  · simp [hid, memberIdSize] at hsize
  · exact hgenerated

theorem evolution_bootstrap (hv : ValidTopology latest)
    (hgenerated : ∀ m ∈ latest.members, Generated source m.identity) {ready}
    (hextra : ∀ m ∈ extra, m.identity ∈ ready)
    (hready : ∀ i ∈ ready, (∃ m ∈ latest.members, m.identity = i) ∨ i.id = [] ∨ Generated source i)
    (h : buildBootstrap { latest with members := latest.members ++ extra } ready = .ok next) :
    Evolution source latest next := by
  have hkept := removeMembers_append_extra latest.members hextra
  obtain ⟨hnone, hstable, hids, -, placed, hne, hplaced, hvalid, rfl⟩ := buildBootstrap_spec h
    (fun m hm => by
      rw [hkept] at hm
      exact hv.members.address m (mem_removeMembers.mp hm).1)
  have hstates := (batchStates_none (s := latest) hstable).mp hv.batchStates
  rw [hkept] at hvalid ⊢
  refine .bootstrap hne (fun m hm => ?_) (removeMembers_sublist _ _) (fun m hm => ?_) hvalid
  · obtain ⟨hs, hp, hmem⟩ := hplaced m hm
    exact ⟨hs, hp, generated_of_candidate hgenerated (hready _ hmem) (hids.wellFormed _ hmem).1⟩
  · -- neither committed nor in transition
    have hm := (mem_removeMembers.mp hm).1
    cases hs : m.state <;> simp_all [isCommittedMemberState, isTransitional]

theorem evolution_scaleOutStart (hv : ValidTopology latest)
    (hgenerated : ∀ m ∈ latest.members, Generated source m.identity)
    (hextra : ∀ m ∈ extra, m.identity ∈ selected ∧ m.address ∉ latest.addresses)
    (hselected : ∀ i ∈ selected,
      (∃ m ∈ latest.members, m.identity = i) ∨ i.id = [] ∨ Generated source i)
    (h : buildScaleOutStart { latest with members := latest.members ++ extra } selected =
      .ok plan) :
    Evolution source latest plan.next := by
  have hkept := removeMembers_append_extra latest.members fun m hm => (hextra m hm).1
  obtain ⟨-, hstable, hne, hids, hinitial, joined, hjoined, hall, howner, hvalid, hnext, -⟩ :=
    buildScaleOutStart_spec h fun m hm => by
      rw [hkept] at hm
      exact hv.members.address m (mem_removeMembers.mp hm).1
  rw [hkept] at howner hvalid hnext
  rw [hnext]
  refine .scaleOutStart hstable ?_ (fun m hm => ?_) (removeMembers_sublist _ _) ?_ howner hvalid
  · obtain ⟨i, hi⟩ := exists_mem_of_ne_nil _ hne
    obtain ⟨m, hm, -⟩ := hall i hi
    exact ne_nil_of_mem hm
  · obtain ⟨hs, hp, hmem⟩ := hjoined m hm
    exact ⟨hs, hp, generated_of_candidate hgenerated (hselected _ hmem) (hids.wellFormed _ hmem).1⟩
  · intro m hm hout
    have ha : m.address ∈ selected.map address :=
      not_not.mp fun ha => hout (mem_removeMembers.mpr ⟨hm, ha⟩)
    obtain ⟨i, hi, hia⟩ := mem_map.mp ha
    obtain ⟨m', hm', rfl, hs⟩ := hinitial i hi
    rcases mem_append.mp hm' with hm' | hm'
    · rwa [eq_of_address_eq hv.members.addresses_nodup hm hm' hia.symm]
    · refine absurd ?_ (hextra m' hm').2
      rw [Member.address, hia]
      exact mem_map_of_mem hm

theorem evolution_scaleInStart (hv : ValidTopology latest) {moved : List Bytes}
    (hmoved : ∀ a ∈ moved, a ∈ selected.map address)
    (h : buildScaleInStart { latest with members := restate (retire moved) latest.members }
      selected = .ok plan) :
    Evolution source latest plan.next := by
  have hn := hv.members.addresses_nodup
  have hnr := (hv.members.restate (retire moved)).addresses_nodup
  obtain ⟨-, hstable, hne, hselected, hnext, _, -, toOwners, hto, -⟩ := buildScaleInStart_spec h hnr
  -- whoever is selected was about to leave or was moved there just now
  have hstate : ∀ i ∈ selected, ∃ m ∈ latest.members, m.address = i.address ∧
      (m.state = .active ∨ m.state = .preLeaving) := by
    intro i hi
    obtain ⟨m', hm', rfl, hs⟩ := hselected i hi
    obtain ⟨m, hm, st, hst, rfl⟩ := mem_restate.mp hm'
    refine ⟨m, hm, rfl, ?_⟩
    rcases retire_eq_some hst with rfl | ⟨ha, -⟩
    · exact .inr hs
    · exact .inl ha
  have houts : ∀ m, m.address ∉ selected.map address → retire moved m = some m.state := by
    intro m ha
    rw [retire, if_neg fun hc => ha (hmoved _ hc.2)]
  have hmembers : restate (leave (selected.map address)) (restate (retire moved) latest.members) =
        restate (leave (selected.map address)) latest.members := by
    rw [restate_restate]
    refine restate_congr fun m _ => ?_
    by_cases ha : m.address ∈ selected.map address
    · rw [retire, Option.bind_some, leave, leave, Member.withState_address, if_pos ha, if_pos ha]
    · rw [houts m ha, Option.bind_some]
      rfl
  have hnext' : plan.next = latest.advance (restate (leave (selected.map address)) latest.members)
      (some (latest.freshBatch .scaleIn)) := by
    rw [hnext, ← hmembers]
    rfl
  rw [hnext']
  refine .scaleInStart hstable
    (state_of_listed (fun st => st = .active ∨ st = .preLeaving) hn hstate) ?_ ?_
  · obtain ⟨i, hi⟩ := exists_mem_of_ne_nil _ hne
    obtain ⟨m, hm, ha, -⟩ := hstate i hi
    exact ⟨m, hm, ha ▸ mem_map_of_mem hi⟩
  · obtain ⟨m', hm', -⟩ := buildOwners_eligible hto
    obtain ⟨hmem, hcommitted, hout⟩ := mem_eligibleMembers.mp hm'
    obtain ⟨m, hm, st, hst, rfl⟩ := mem_restate.mp hmem
    rw [houts m hout] at hst
    obtain rfl := Option.some.inj hst
    exact ⟨m, hm, by simpa [isEligible] using hcommitted, hout⟩

/-! ## Failures and cleanup -/

theorem mem_appendConfirmed {identities confirmed}
    {i} (h : i ∈ appendConfirmed maxMembers identities confirmed) :
    i ∈ confirmed ∨ i ∈ identities := by
  induction identities generalizing confirmed with
  | nil => exact .inl h
  | cons _ _ ih =>
    unfold appendConfirmed at h
    split at h
    · exact .inl h
    · split at h
      · exact (ih h).imp_right (mem_cons_of_mem _)
      · rcases ih h with hmem | hmem
        · rcases mem_append.mp hmem with hmem | hmem
          · exact .inl hmem
          · exact .inr (mem_singleton.mp hmem ▸ mem_cons_self)
        · exact .inr (mem_cons_of_mem _ hmem)

/-- What a failure plan marks and erases, as one step. -/
theorem evolution_failure (hv : ValidTopology latest) {confirmed : List MemberIdentity}
    {gone : List Bytes} (hconfirmed : ∀ i ∈ confirmed, ∃ m ∈ latest.members, m.address = i.address ∧
      (isCommittedMemberState m.state ∨ m.state = .failed)) (hne : confirmed ≠ [])
    (hgone : ∀ m ∈ latest.members, m.address ∈ gone → m.state = .initial ∨ m.state = .joining)
    (h : buildFailureStartOrReplan latest confirmed = .ok plan) :
    Evolution source latest
      { plan.next with members := removeMembers plan.next.members gone } := by
  have hn := hv.members.addresses_nodup
  obtain ⟨-, hretained, hnext, -⟩ := buildFailureStartOrReplan_spec h hn
  have hnext' : { plan.next with members := removeMembers plan.next.members gone } = latest.advance
        (restate (fail (confirmed.map address) gone) latest.members)
        (some (latest.freshBatch .failure)) := by
    rw [hnext, ← removeMembers_markMembers]
    rfl
  rw [hnext']
  refine .failure hgone
    (state_of_listed (fun st => isCommittedMemberState st ∨ st = .failed) hn hconfirmed) ?_ ?_
  · exact fun m hm hs => mem_map_of_mem (hretained m hm hs)
  · obtain ⟨i, hi⟩ := exists_mem_of_ne_nil _ hne
    obtain ⟨m, hm, ha, -⟩ := hconfirmed i hi
    exact ⟨m, hm, ha ▸ mem_map_of_mem hi⟩

theorem eraseMembers_eraseMembers (first second) :
    eraseMembers (eraseMembers members first) second = removeMembers members
        (first.map address ++ second.map address) := by
  simp only [eraseMembers, removeMembers, filter_filter]
  refine filter_congr fun m _ => ?_
  simp only [mem_append, not_or, Bool.decide_and, Bool.and_comm]

/-- Erased members are INITIAL or joining, whichever list names them. -/
theorem erased_state (hv : ValidTopology latest) {c : FailureClassification} (hc : c.Sound latest) :
    (∀ m ∈ latest.members, m.address ∈ c.removeInitial.map address → m.state = .initial) ∧
      ∀ m ∈ latest.members, m.address ∈ c.removeJoining.map address → m.state = .joining :=
  ⟨state_of_listed (· = .initial) hv.members.addresses_nodup hc.removeInitial,
    state_of_listed (· = .joining) hv.members.addresses_nodup hc.removeJoining⟩

theorem evolution_confirmedFailures (hv : ValidTopology latest) (hc : classification.Sound latest)
    (h : commitConfirmedFailures maxMembers latest classification = .ok (some next)) :
    Evolution source latest next := by
  obtain ⟨hinitial, hjoining⟩ := erased_state hv hc
  unfold commitConfirmedFailures at h
  dsimp only at h
  split at h
  · simp at h
  · rename_i hgrown
    obtain ⟨plan, hplan, h⟩ := bind_eq_ok.mp h
    obtain rfl := Option.some.inj (pure_eq_ok.mp h)
    rw [eraseMembers_eraseMembers]
    refine evolution_failure hv (fun i hi => ?_) ?_ ?_ hplan
    · rcases mem_appendConfirmed hi with hi | hi
      · obtain ⟨m, hm, hs, rfl⟩ := mem_membersInState.mp hi
        exact ⟨m, hm, rfl, .inr hs⟩
      · exact hc.confirmedFailure i hi
    · intro hnil
      have hfailed : membersInState latest .failed = [] := by
        refine eq_nil_iff_forall_not_mem.mpr fun i hi => ?_
        obtain ⟨m, hm, hs, rfl⟩ := mem_membersInState.mp hi
        have hretained := (buildFailureStartOrReplan_spec hplan
          hv.members.addresses_nodup).2.1 m hm hs
        simp [hnil] at hretained
      simp [hnil, hfailed] at hgrown
    · intro m hm hmem
      exact (mem_append.mp hmem).imp (hinitial m hm) (hjoining m hm)

theorem removeMembers_forget (first second) :
    removeMembers (restate (forget first) members) second =
      restate (forget (first ++ second)) members := by
  rw [removeMembers_eq_restate, restate_restate]
  refine restate_congr fun m _ => ?_
  by_cases hm : m.address ∈ first <;> by_cases hs : m.address ∈ second <;> simp [forget, hm, hs]

theorem evolution_replan (hv : ValidTopology latest) {failedJoining : List MemberIdentity} (gone)
    (hgone : ∀ m ∈ latest.members, m.address ∈ gone → m.state = .initial)
    (h : buildScaleOutReplan latest failedJoining = .ok plan) :
    Evolution source latest
      { plan.next with members := removeMembers plan.next.members gone } := by
  have hn := hv.members.addresses_nodup
  obtain ⟨hbatch, hjoining, hnext⟩ := buildScaleOutReplan_spec h hn
  set failed := failedJoining.map address
  have hiff : (∃ m ∈ restate (forget failed) latest.members, m.state = .joining) ↔
      ∃ m ∈ restate (forget (failed ++ gone)) latest.members, m.state = .joining := by
    simp only [mem_restate_forget, mem_append, not_or]
    constructor
    · rintro ⟨m, ⟨hm, hf⟩, hs⟩
      exact ⟨m, ⟨hm, hf, fun hg => by simp [hgone m hm hg] at hs⟩, hs⟩
    · rintro ⟨m, ⟨hm, hf, -⟩, hs⟩
      exact ⟨m, ⟨hm, hf⟩, hs⟩
  have hnext' : { plan.next with members := removeMembers plan.next.members gone } =
      latest.advance (restate (forget (failed ++ gone)) latest.members)
        (replannedBatch latest (restate (forget (failed ++ gone)) latest.members)) := by
    simp only [hnext, ← removeMembers_forget, replannedBatch, hiff]
    rfl
  rw [hnext']
  refine .scaleOutReplan hbatch fun m hm hmem => ?_
  refine (mem_append.mp hmem).symm.imp (hgone m hm) ?_
  refine state_of_listed (· = .joining) hn (fun i hi => ?_) m hm
  obtain ⟨m', hm', rfl, hs⟩ := hjoining i hi
  exact ⟨m', hm', rfl, hs⟩

theorem evolution_uncommittedCleanup (hv : ValidTopology latest) (hc : classification.Sound latest)
    (h : commitUncommittedCleanup latest classification = .ok (some next)) :
    Evolution source latest next := by
  obtain ⟨hinitial, hjoining⟩ := erased_state hv hc
  unfold commitUncommittedCleanup at h
  split at h
  · obtain ⟨plan, hplan, h⟩ := bind_eq_ok.mp h
    obtain rfl := Option.some.inj (pure_eq_ok.mp h)
    exact evolution_replan hv _ hinitial hplan
  · rename_i epoch hbatch _
    obtain ⟨plan, hplan, h⟩ := bind_eq_ok.mp h
    obtain rfl := Option.some.inj (pure_eq_ok.mp h)
    rw [eraseMembers_eraseMembers]
    refine evolution_failure hv (fun i hi => ?_) ?_ ?_ hplan
    · obtain ⟨m, hm, hs, rfl⟩ := mem_membersInState.mp hi
      exact ⟨m, hm, rfl, .inr hs⟩
    · obtain ⟨m, hm, hs⟩ := ((batchStates_some hbatch).mp hv.batchStates).2
      exact List.ne_nil_of_mem (mem_membersInState.mpr ⟨m, hm, hs, rfl⟩)
    · intro m hm hmem
      exact (List.mem_append.mp hmem).symm.imp (hinitial m hm) (hjoining m hm)
  · split at h
    · simp at h
    · obtain rfl := Option.some.inj (pure_eq_ok.mp h)
      have hnext : { latest with
          version := latest.version + 1
          members := eraseMembers latest.members classification.removeInitial } =
          latest.advance (restate (forget (classification.removeInitial.map
            MemberIdentity.address)) latest.members) latest.activeBatch := by
        rw [← removeMembers_eq_restate]
        rfl
      rw [hnext]
      exact .cleanup hinitial

theorem evolution_membershipFacts (hv : ValidTopology latest) {quarantine}
    {collect} {now : Int} {memberships} (hrecords : ∀ r ∈ memberships, r ∈ source.records)
    (h : commitMembershipFacts source.sha256 options quarantine collect now latest memberships =
      .ok (some next)) : Evolution source latest next := by
  unfold commitMembershipFacts at h
  split at h
  · simp at h
  · obtain ⟨⟨members, admitted, changed⟩, hadmit, h⟩ := bind_eq_ok.mp h
    have hnext : latest.advance members latest.activeBatch = next := by
      have hsome := pure_eq_ok.mp h
      split at hsome
      · cases hsome
      · exact Option.some.inj hsome
    obtain ⟨moved, -, hmoved⟩ := applyExitingMembershipFacts_spec options.maxMembersPerBatch
      (collectMembershipFacts quarantine memberships).exiting 0 hv.members.addresses_nodup
    unfold admitReady at hadmit
    rw [← hnext]
    split at hadmit
    · obtain ⟨added, rfl, -, hadded, hfresh⟩ :=
        applyReadyMembershipFacts_spec (fun r hr => hrecords r (mem_ready hr)) hadmit
      rw [hmoved]
      exact .admission moved hadded hfresh
    · obtain ⟨rfl, -⟩ := Prod.mk.inj (pure_eq_ok.mp hadmit)
      rw [hmoved, ← append_nil (restate (retire moved) latest.members)]
      exact .admission moved (by simp) (by simp)

/-- The members of a collective replacement are new ones only. -/
theorem evolution_collectiveReplacement {quarantine} {memberships}
    (hrecords : ∀ r ∈ memberships, r ∈ source.records)
    (h : bootstrapCollectiveReplacement source.sha256 options quarantine latest memberships =
      .ok next) :
    Evolution source latest next := by
  obtain ⟨⟨members, admitted, changed⟩, hready, h⟩ := bind_eq_ok.mp h
  obtain ⟨_, rfl, rfl, hadded, -⟩ :=
    applyReadyMembershipFacts_spec (fun r hr => hrecords r (mem_ready hr)) hready
  have hkept : removeMembers members ((members.map Member.identity).map address) = [] :=
    filter_eq_nil_iff.mpr fun m hm => by
      simpa using ⟨m, hm, rfl⟩
  obtain ⟨-, -, hids, -, placed, hne, hplaced, hvalid, rfl⟩ := buildBootstrap_spec h (fun m hm => by
      rw [hkept] at hm
      simp at hm)
  rw [hkept] at hvalid ⊢
  refine .bootstrap hne (fun m hm => ?_) (nil_sublist _) (by simp) hvalid
  obtain ⟨hs, hp, hmem⟩ := hplaced m hm
  obtain ⟨m', hm', hi⟩ := mem_map.mp hmem
  exact ⟨hs, hp, hi ▸ (hadded m' hm').2.2.2.2⟩

/-- A candidate on a valid topology is a step of the topology's life. Where the members' ids come
from matters only when new owners are placed. -/
theorem Transition.evolution_of_valid (hv : ValidTopology latest)
    (hgenerated : latest.activeBatch = none → ∀ m ∈ latest.members, Generated source m.identity)
    (h : Transition source options latest next) : Evolution source latest next := by
  have hn := hv.members.addresses_nodup
  cases h with
  | clusterShutdown _ h =>
    rw [buildClusterShutdownFinal_spec h]
    exact .shutdown
  | collectiveReplacement _ hrecords h => exact evolution_collectiveReplacement hrecords h
  | confirmedFailures hc h => exact evolution_confirmedFailures hv hc.sound h
  | uncommittedCleanup hc _ h => exact evolution_uncommittedCleanup hv hc.sound h
  | membershipFacts _ _ hrecords h => exact evolution_membershipFacts hv hrecords h
  | @batchFinal batch _ hbatch h =>
    unfold commitBatchFinal at h
    split at h
    · obtain ⟨hb, rfl⟩ := buildScaleOutFinal_spec h
      exact .scaleOutFinal hb
    · obtain ⟨hb, rfl⟩ := buildScaleInFinal_spec h hn
      exact .scaleInFinal hb
    · obtain ⟨hb, members, resumed, hresumed, rfl⟩ := buildFailureFinal_spec h hn
      exact .failureFinal hb hresumed
  | scaleOutExhaustion h =>
    obtain ⟨_, -, h⟩ := bind_eq_ok.mp h
    obtain ⟨plan, hplan, h⟩ := bind_eq_ok.mp h
    have hstep : Evolution source latest _ := evolution_replan hv [] (by simp) hplan
    have hsame : removeMembers plan.next.members [] = plan.next.members := by simp [removeMembers]
    rwa [hsame, pure_eq_ok.mp h] at hstep
  | @scaleOutStart _ _ _ candidates _ hstable hcollect hrecords _ h =>
    obtain ⟨extra, hprepare, hextra⟩ :=
      prepareBatchStartState_scaleOut options latest candidates.joining
    have hcandidates := collectNextBatchCandidates_joining hrecords hcollect
    unfold commitBatchStart at h
    rw [hprepare] at h
    split at h
    · exact evolution_bootstrap hv (hgenerated hstable) (fun m hm => (hextra m hm).1) hcandidates h
    · obtain ⟨plan, hplan, h⟩ := bind_eq_ok.mp h
      rw [← pure_eq_ok.mp h]
      exact evolution_scaleOutStart hv (hgenerated hstable) hextra hcandidates hplan
  | @scaleInStart _ _ _ candidates _ hstable hcollect _ h =>
    obtain ⟨moved, hmoved, hprepare⟩ :=
      prepareBatchStartState_scaleIn options latest candidates.leaving
    unfold commitBatchStart at h
    rw [hprepare] at h
    obtain ⟨plan, hplan, h⟩ := bind_eq_ok.mp h
    rw [← pure_eq_ok.mp h]
    exact evolution_scaleInStart hv hmoved hplan

/-- **Every candidate of the controller is a step of the topology's life.** -/
theorem Transition.evolution
    (hw : WellFormed source latest) (h : Transition source options latest next) :
    Evolution source latest next :=
  h.evolution_of_valid hw.validTopology fun _ => hw.populated.generated

end

end Datasystem.Cluster.TopologyController
