import Datasystem.Cluster.BuilderSpec
import Datasystem.Cluster.OwnerRings
import Datasystem.Cluster.TopologyTaskMaterializer

/-! The plans of the three kinds of batch: between which members ownership moves,
and when a batch can be planned again from a committed snapshot. -/

namespace Datasystem.Cluster

open Common HashRingToken Lib.Checked Lib.Sorting Lib.Spans HashAlgorithm TopologyPlanBuilder

/-! ## Ends of a change -/

/-- The change moves ownership from `source` to `target`. -/
structure Moves (members : List Member) (source target : Member) (c : TopologyOwnerChange) :
    Prop where
  source_mem : source ∈ members
  target_mem : target ∈ members
  source_eq : c.source = some source.identity
  target_eq : c.target = target.identity
  differ : source.identity ≠ target.identity
  ranges_ne_nil : c.ranges ≠ []
  ascending : Ascending c.ranges

section

variable {members : List Member} {F T : OwnerRing} {c : TopologyOwnerChange}
  {p q : Member → Bool}

theorem exists_moves (hF : RingOf p members F) (hT : RingOf q members T) (hc : c ∈ diffOwners F T) :
    ∃ source target, Moves members source target c ∧ p source ∧ q target ∧
      ∃ t, source.identity = ownerAt F t ∧ target.identity = ownerAt T t := by
  obtain ⟨i, hchange⟩ := isChange_of_mem hF.sound hT.sound hc
  obtain ⟨t, hi, ht⟩ := hchange.exists_token
  obtain ⟨source, hsource, hp, -, hs⟩ := hF.exists_owner t
  obtain ⟨target, htarget, hq, -, hto⟩ := hT.exists_owner t
  refine ⟨source, target, ?_, hp, hq, t, hs, hto⟩
  refine
    { source_mem := hsource
      target_mem := htarget
      source_eq := by rw [hchange.source_eq, hs, hi]
      target_eq := by rw [hto, ht]
      differ := ?_
      ranges_ne_nil := hchange.ranges_ne_nil
      ascending := hchange.ascending }
  rw [hs, hto, hi, ht]
  exact hchange.differ

/-- When members are added to a ring, ownership moves to them. -/
theorem exists_moves_gained (hn : (members.map Member.address).Nodup) (hF : RingOf p members F)
    (hT : RingOf q members T) (hpq : ∀ m ∈ members, p m → q m) (hc : c ∈ diffOwners F T) :
    ∃ source target, Moves members source target c ∧ p source ∧ q target ∧ ¬p target := by
  obtain ⟨source, target, hmoves, hp, hq, t, hs, ht⟩ := exists_moves hF hT hc
  have hne : ownerAt F t ≠ ownerAt T t := by
    rw [← hs, ← ht]
    exact hmoves.differ
  obtain ⟨m, hm, -, hnot, hi⟩ := hF.gained hT hpq hne
  obtain rfl : m = target := eq_of_address_eq hn hm hmoves.target_mem
    (congrArg MemberIdentity.address (hi.trans ht.symm))
  exact ⟨source, m, hmoves, hp, hq, hnot⟩

/-- When members are taken from a ring, ownership moves away from them. -/
theorem exists_moves_lost (hn : (members.map Member.address).Nodup) (hF : RingOf p members F)
    (hT : RingOf q members T) (hqp : ∀ m ∈ members, q m → p m) (hc : c ∈ diffOwners F T) :
    ∃ source target, Moves members source target c ∧ p source ∧ ¬q source ∧ q target := by
  obtain ⟨source, target, hmoves, hp, hq, t, hs, ht⟩ := exists_moves hF hT hc
  have hne : ownerAt T t ≠ ownerAt F t := by
    rw [← hs, ← ht]
    exact hmoves.differ.symm
  obtain ⟨m, hm, -, hnot, hi⟩ := hT.gained hF hqp hne
  obtain rfl : m = source := eq_of_address_eq hn hm hmoves.source_mem
    (congrArg MemberIdentity.address (hi.trans hs.symm))
  exact ⟨m, target, hmoves, hp, hnot, hq⟩

section

variable (hv : ValidMembers members) (hF : buildOwners members false [] false = .ok F)

include hv hF

/-- A joining member takes over from a committed one. -/
theorem scaleOut_moves (hT : buildOwners members true [] false = .ok T) (hc : c ∈ diffOwners F T) :
    ∃ source target, Moves members source target c ∧ isCommittedMemberState source.state ∧
      target.state = .joining := by
  obtain ⟨source, target, hmoves, hs, ht, hnot⟩ := exists_moves_gained hv.addresses_nodup
    (ringOf_buildOwners hv hF) (ringOf_buildOwners hv hT)
    (fun m _ hm => by cases hst : m.state <;> simp_all [isEligible]) hc
  refine ⟨source, target, hmoves, by simpa [isEligible] using hs, ?_⟩
  simp only [isEligible] at ht hnot
  cases hst : target.state <;> simp_all

/-- Somebody who stays takes over from a member that is excluded. -/
theorem scaleIn_moves {excluded}
    (hT : buildOwners members false excluded false = .ok T) (hc : c ∈ diffOwners F T) :
    ∃ source target, Moves members source target c ∧
      (isCommittedMemberState source.state ∧ source.address ∈ excluded) ∧
      isCommittedMemberState target.state ∧ target.address ∉ excluded := by
  obtain ⟨source, target, hmoves, hs, hnot, ht⟩ := exists_moves_lost hv.addresses_nodup
    (ringOf_buildOwners hv hF) (ringOf_buildOwners hv hT)
    (fun m _ hm => by simp_all) hc
  simp only [isEligible, Bool.false_eq_true, if_false, Bool.false_and, Bool.or_false,
    List.not_mem_nil, not_false_eq_true, decide_true, Bool.and_true] at hs
  exact ⟨source, target, hmoves, ⟨hs, by simpa [isEligible, hs] using hnot⟩,
    by simpa [isEligible] using ht⟩

/-- An active member recovers what a failed one owned. -/
theorem failure_moves {excluded} (hT : buildOwners members false excluded true = .ok T)
    (hc : c ∈ (diffOwners F T).filter fun c =>
      c.source.any fun source => source.address ∈ excluded) :
    ∃ source target, Moves members source target c ∧
      (isCommittedMemberState source.state ∧ source.address ∈ excluded) ∧
      target.state = .active ∧ target.address ∉ excluded := by
  obtain ⟨hc, hexcluded⟩ := List.mem_filter.mp hc
  obtain ⟨source, target, hmoves, hs, ht, -⟩ :=
    exists_moves (ringOf_buildOwners hv hF) (ringOf_buildOwners hv hT) hc
  rw [hmoves.source_eq] at hexcluded
  exact ⟨source, target, hmoves,
    ⟨by simpa [isEligible] using hs, by simpa using hexcluded⟩, by simpa [isEligible] using ht⟩

end

end

/-! ## Planning a batch again -/

namespace TopologyTaskMaterializer

theorem validateSelectedMembers_membersInState {s t}
    (h : (t.members.map Member.address).Nodup) {state}
    (hst : ∀ m ∈ s.members, m.state = state → ∃ m' ∈ t.members, m'.identity = m.identity ∧
      isCommittedMemberState m'.state) :
    validateSelectedMembers t (membersInState s state) = .ok () := by
  refine validateSelectedMembers_eq_ok.mpr fun i hi => ?_
  obtain ⟨m, hm, hs, rfl⟩ := mem_membersInState.mp hi
  obtain ⟨m', hm', hi', hc⟩ := hst m hm hs
  refine ⟨m', ?_, hi', hc⟩
  rw [← hi']
  exact findByAddress_of_mem h hm'

theorem membersInState_ne_nil {s} {b} (h : BatchStates s) (hb : s.activeBatch = some b) :
    membersInState s b.type.participant ≠ [] := by
  obtain ⟨-, m, hm, hs⟩ := (batchStates_some hb).mp h
  exact List.ne_nil_of_mem (mem_membersInState.mpr ⟨m, hm, hs, rfl⟩)

theorem exists_committed_of_buildOwners {members} {excluded}
    {ring} (h : buildOwners members false excluded false = .ok ring) :
    ∃ m ∈ members, isCommittedMemberState m.state := by
  obtain ⟨m, hm, -⟩ := buildOwners_eligible h
  obtain ⟨hmem, hs, -⟩ := mem_eligibleMembers.mp hm
  exact ⟨m, hmem, by simpa [isEligible] using hs⟩

theorem planningMembers_eq_restate (members) : planningMembers members =
      restate (fun m => some (if m.state = .failed then .active else m.state)) members := by
  rw [restate_some, planningMembers]
  refine List.map_congr_left fun m _ => ?_
  split <;> rfl

theorem validMembers_planningMembers {members} (h : ValidMembers members) :
    ValidMembers (planningMembers members) := by
  rw [planningMembers_eq_restate]
  exact h.restate _

section

variable {latest : TopologySnapshot} {e : Nat} {plan : TopologyPlan}

theorem placeJoining_retained_membersInState (latest : TopologySnapshot) :
    placeJoining latest.state.tokensPerMember
      (sortBy MemberIdentity.address (membersInState latest.state .joining)) latest.state.members
      (scaleOutPlacement latest.state (membersInState latest.state .joining)
        latest.state.tokensPerMember) = .ok latest.state.members := by
  refine placeJoining_retained _ fun i hi => ?_
  obtain ⟨m, hm, hs, rfl⟩ := mem_membersInState.mp (mem_sortBy.mp hi)
  exact ⟨m, findByAddress_of_mem latest.validTopology.members.addresses_nodup hm, rfl, hs⟩

theorem rebuildPlan_scaleOut (hb : latest.state.activeBatch = some ⟨.scaleOut, e⟩) :
    rebuildPlan latest = .ok plan ↔ ∃ F, buildOwners latest.state.members false [] false = .ok F ∧
        ∃ T, buildOwners latest.state.members true [] false = .ok T ∧
          plan = ⟨latest.state, diffOwners F T⟩ := by
  have hv := latest.validTopology
  have hids := validIdentities_membersInState hv.members .joining
  have hplace := placeJoining_retained_membersInState latest
  have hne := membersInState_ne_nil hv.batchStates hb
  unfold rebuildPlan
  simp only [hb, bind_eq_ok, check_eq_ok, pure_eq_ok, planScaleOut_eq_ok]
  constructor
  · rintro ⟨-, -, built, ⟨-, -, -, members, hmembers, F, hF, T, hT, rfl⟩, rfl⟩
    obtain rfl : latest.state.members = members := Except.ok.inj (hplace.symm.trans hmembers)
    exact ⟨F, hF, T, hT, rfl⟩
  · rintro ⟨F, hF, T, hT, rfl⟩
    exact ⟨(), hne, _, ⟨validate_of_validMembers hv.members (exists_committed_of_buildOwners hF),
      hids, ⟨hne, hv.tokensPerMember⟩, _, hplace, F, hF, T, hT, rfl⟩, rfl⟩

/-- The addresses of the members that a batch of this type removes. -/
def participantAddresses (s : TopologyState) (type : TopologyChangeType) : List Bytes :=
  (membersInState s type.participant).map MemberIdentity.address

theorem rebuildPlan_scaleIn (hb : latest.state.activeBatch = some ⟨.scaleIn, e⟩) :
    rebuildPlan latest = .ok plan ↔ ∃ F, buildOwners latest.state.members false [] false = .ok F ∧
        ∃ T, buildOwners latest.state.members false (participantAddresses latest.state .scaleIn)
            false = .ok T ∧ plan = ⟨latest.state, diffOwners F T⟩ := by
  have hv := latest.validTopology
  have hids := validIdentities_membersInState hv.members .leaving
  have hselected : validateSelectedMembers latest.state (membersInState latest.state .leaving) =
      .ok () :=
    validateSelectedMembers_membersInState hv.members.addresses_nodup fun m hm hs =>
      ⟨m, hm, rfl, by rw [hs]; rfl⟩
  have hne := membersInState_ne_nil hv.batchStates hb
  unfold rebuildPlan
  simp only [hb, bind_eq_ok, check_eq_ok, pure_eq_ok, planScaleIn_eq_ok]
  constructor
  · rintro ⟨-, -, built, ⟨-, -, -, -, F, hF, T, hT, rfl⟩, rfl⟩
    exact ⟨F, hF, T, hT, rfl⟩
  · rintro ⟨F, hF, T, hT, rfl⟩
    exact ⟨(), hne, _, ⟨validate_of_validMembers hv.members (exists_committed_of_buildOwners hF),
      hids, hselected, hne, F, hF, T, hT, rfl⟩, rfl⟩

theorem rebuildPlan_failure (hb : latest.state.activeBatch = some ⟨.failure, e⟩) :
    rebuildPlan latest = .ok plan ↔
      if ∃ m ∈ latest.state.members, m.state = .active then
        ∃ F, buildOwners (planningMembers latest.state.members) false [] false = .ok F ∧
          ∃ T, buildOwners (planningMembers latest.state.members) false
              (participantAddresses latest.state .failure) true = .ok T ∧
            plan = ⟨latest.state, (diffOwners F T).filter fun c =>
              c.source.any fun source =>
                source.address ∈ participantAddresses latest.state .failure⟩
      else plan = ⟨latest.state, []⟩ := by
  have hv := latest.validTopology
  have hids := validIdentities_membersInState hv.members .failed
  have hplanning := validMembers_planningMembers hv.members
  have hne := membersInState_ne_nil hv.batchStates hb
  unfold rebuildPlan
  simp only [hb, bind_eq_ok, check_eq_ok]
  split
  · simp only [bind_eq_ok, pure_eq_ok, planFailure_eq_ok]
    constructor
    · rintro ⟨-, -, built, ⟨-, -, -, -, F, hF, T, hT, rfl⟩, rfl⟩
      exact ⟨F, hF, T, hT, rfl⟩
    · rintro ⟨F, hF, T, hT, rfl⟩
      refine ⟨(), hne, _, ⟨validate_of_validMembers hplanning (exists_committed_of_buildOwners hF),
        hids, ?_, hne, F, hF, T, hT, rfl⟩, rfl⟩
      -- failed members count as active ones here
      exact validateSelectedMembers_membersInState hplanning.addresses_nodup fun m hm hs =>
        ⟨m.withState .active, List.mem_map.mpr ⟨m, hm, if_pos hs⟩, rfl, rfl⟩
  · simp only [pure_eq_ok]
    constructor
    · rintro ⟨-, -, rfl⟩
      rfl
    · rintro rfl
      exact ⟨(), hne, rfl⟩

theorem rebuildPlan_next {batch} (hb : latest.state.activeBatch = some batch)
    (h : rebuildPlan latest = .ok plan) : plan.next = latest.state := by
  obtain ⟨type, e⟩ := batch
  cases type with
  | scaleOut =>
    obtain ⟨F, -, T, -, rfl⟩ := (rebuildPlan_scaleOut hb).mp h
    rfl
  | scaleIn =>
    obtain ⟨F, -, T, -, rfl⟩ := (rebuildPlan_scaleIn hb).mp h
    rfl
  | failure =>
    have h := (rebuildPlan_failure hb).mp h
    split at h
    · obtain ⟨F, -, T, -, rfl⟩ := h
      rfl
    · rw [h]

/-! ## What a batch that is planned again moves -/

theorem address_mem_participantAddresses (latest : TopologySnapshot) (type : TopologyChangeType)
    {m} (hm : m ∈ latest.state.members) :
    m.address ∈ participantAddresses latest.state type ↔ m.state = type.participant :=
  address_mem_membersInState latest.validTopology.members.addresses_nodup hm

theorem exists_of_mem_planningMembers {members} {m} (h : m ∈ planningMembers members) :
    ∃ m' ∈ members, m'.identity = m.identity ∧ m'.tokens = m.tokens ∧
      m.state = if m'.state = .failed then .active else m'.state := by
  obtain ⟨m', hm', rfl⟩ := List.mem_map.mp h
  refine ⟨m', hm', ?_⟩
  split <;> exact ⟨rfl, rfl, rfl⟩

/-- The ends of every change are members in the states that the batch asks for. -/
theorem rebuildPlan_moves {batch} (hb : latest.state.activeBatch = some batch)
    (h : rebuildPlan latest = .ok plan) {c} (hc : c ∈ plan.ownerChanges) :
    ∃ source target, Moves latest.state.members source target c ∧
      validateChangeStates batch.type source target = .ok () := by
  have hv := latest.validTopology.members
  obtain ⟨type, e⟩ := batch
  cases type with
  | scaleOut =>
    obtain ⟨F, hF, T, hT, rfl⟩ := (rebuildPlan_scaleOut hb).mp h
    obtain ⟨source, target, hmoves, hs, ht⟩ := scaleOut_moves hv hF hT hc
    exact ⟨source, target, hmoves, check_of ⟨hs, ht⟩⟩
  | scaleIn =>
    obtain ⟨F, hF, T, hT, rfl⟩ := (rebuildPlan_scaleIn hb).mp h
    obtain ⟨source, target, hmoves, ⟨-, hs⟩, hcommitted, ht⟩ := scaleIn_moves hv hF hT hc
    rw [address_mem_participantAddresses latest _ hmoves.source_mem] at hs
    rw [address_mem_participantAddresses latest _ hmoves.target_mem] at ht
    refine ⟨source, target, hmoves, check_of ⟨hs, ?_⟩⟩
    cases hstate : target.state <;>
      simp_all [isCommittedMemberState, isAdmittedScaleInMigrationTargetState,
        TopologyChangeType.participant]
  | failure =>
    have h := (rebuildPlan_failure hb).mp h
    split at h
    · obtain ⟨F, hF, T, hT, rfl⟩ := h
      obtain ⟨source, target, hmoves, ⟨-, hs⟩, hactive, ht⟩ :=
        failure_moves (validMembers_planningMembers hv) hF hT hc
      obtain ⟨source', hsm, hsi, -, hss⟩ := exists_of_mem_planningMembers hmoves.source_mem
      obtain ⟨target', htm, hti, -, hts⟩ := exists_of_mem_planningMembers hmoves.target_mem
      rw [Member.address, ← hsi, address_mem_participantAddresses latest _ hsm] at hs
      rw [Member.address, ← hti, address_mem_participantAddresses latest _ htm] at ht
      have hts := hts.trans (if_neg ht)
      refine ⟨source', target', ?_, bind_eq_ok.mpr ⟨(), check_of hs, check_of (hts ▸ hactive)⟩⟩
      exact
        { source_mem := hsm
          target_mem := htm
          source_eq := by rw [hmoves.source_eq, hsi]
          target_eq := by rw [hmoves.target_eq, hti]
          differ := by rw [hsi, hti]; exact hmoves.differ
          ranges_ne_nil := hmoves.ranges_ne_nil
          ascending := hmoves.ascending }
    · rw [h] at hc
      cases hc

/-- Somebody is there to plan the batch with: an owner that goes on after it, where the batch
moves anything at all. -/
def Plannable (s : TopologyState) (type : TopologyChangeType) : Prop :=
  match type with
  | .scaleOut => ∃ m ∈ s.members, isCommittedMemberState m.state ∧ m.tokens ≠ []
  | .scaleIn =>
    ∃ m ∈ s.members, (isCommittedMemberState m.state ∧ m.state ≠ .leaving) ∧ m.tokens ≠ []
  | .failure =>
    (∃ m ∈ s.members, m.state = .active) → ∃ m ∈ s.members, m.state = .active ∧ m.tokens ≠ []

/-- A batch can be planned again exactly if somebody is there to plan it with. -/
theorem exists_rebuildPlan_iff {batch} (hb : latest.state.activeBatch = some batch) :
    (∃ plan, rebuildPlan latest = .ok plan) ↔ Plannable latest.state batch.type := by
  obtain ⟨type, e⟩ := batch
  cases type with
  | scaleOut =>
    simp only [rebuildPlan_scaleOut hb, Plannable]
    constructor
    · rintro ⟨_, F, hF, -⟩
      obtain ⟨m, hm, ⟨he, -⟩, ht⟩ := (exists_buildOwners_iff _ _ _ _).mp ⟨F, hF⟩
      exact ⟨m, hm, by simpa [isEligible] using he, ht⟩
    · rintro ⟨m, hm, hc, ht⟩
      obtain ⟨F, hF⟩ := (exists_buildOwners_iff _ false [] false).mpr
        ⟨m, hm, ⟨by simp [isEligible, hc], by simp⟩, ht⟩
      obtain ⟨T, hT⟩ := (exists_buildOwners_iff _ true [] false).mpr
        ⟨m, hm, ⟨by simp [isEligible, hc], by simp⟩, ht⟩
      exact ⟨_, F, hF, T, hT, rfl⟩
  | scaleIn =>
    simp only [rebuildPlan_scaleIn hb, Plannable]
    constructor
    · rintro ⟨_, _, -, T, hT, -⟩
      obtain ⟨m, hm, ⟨he, hout⟩, ht⟩ := (exists_buildOwners_iff _ _ _ _).mp ⟨T, hT⟩
      rw [address_mem_participantAddresses latest _ hm] at hout
      exact ⟨m, hm, ⟨by simpa [isEligible] using he, hout⟩, ht⟩
    · rintro ⟨m, hm, ⟨hc, hs⟩, ht⟩
      have hout := mt (address_mem_participantAddresses latest .scaleIn hm).mp hs
      obtain ⟨F, hF⟩ := (exists_buildOwners_iff _ false [] false).mpr
        ⟨m, hm, ⟨by simp [isEligible, hc], by simp⟩, ht⟩
      obtain ⟨T, hT⟩ := (exists_buildOwners_iff _ false _ false).mpr
        ⟨m, hm, ⟨by simp [isEligible, hc], hout⟩, ht⟩
      exact ⟨_, F, hF, T, hT, rfl⟩
  | failure =>
    simp only [rebuildPlan_failure hb, Plannable]
    split
    · rename_i hactive
      rw [forall_prop_of_true hactive]
      constructor
      · rintro ⟨_, _, -, T, hT, -⟩
        obtain ⟨m, hm, ⟨he, hout⟩, ht⟩ := (exists_buildOwners_iff _ _ _ _).mp ⟨T, hT⟩
        obtain ⟨m', hm', hi, htok, hs⟩ := exists_of_mem_planningMembers hm
        rw [Member.address, ← hi, address_mem_participantAddresses latest _ hm'] at hout
        have hs := hs.trans (if_neg hout)
        exact ⟨m', hm', by simpa [isEligible, hs] using he, htok ▸ ht⟩
      · rintro ⟨m, hm, hs, ht⟩
        have hplan : m ∈ planningMembers latest.state.members :=
          List.mem_map.mpr ⟨m, hm, if_neg (by simp [hs])⟩
        have hout : m.address ∉ participantAddresses latest.state .failure := by
          rw [address_mem_participantAddresses latest _ hm, hs]
          simp [TopologyChangeType.participant]
        obtain ⟨F, hF⟩ := (exists_buildOwners_iff _ false [] false).mpr
          ⟨m, hplan, ⟨by simp [isEligible, isCommittedMemberState, hs], by simp⟩, ht⟩
        obtain ⟨T, hT⟩ := (exists_buildOwners_iff _ false _ true).mpr
          ⟨m, hplan, ⟨by simp [isEligible, hs], hout⟩, ht⟩
        exact ⟨_, F, hF, T, hT, rfl⟩
    · rename_i hactive
      exact ⟨fun _ h => absurd h hactive, fun _ => ⟨_, rfl⟩⟩

end

end TopologyTaskMaterializer

end Datasystem.Cluster
