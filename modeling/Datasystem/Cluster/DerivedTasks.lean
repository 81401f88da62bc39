import Datasystem.Cluster.FailureRecovery
import Datasystem.Cluster.TaskIdentity

/-! Derived tasks depend on the batch, not on who derives them or when. The plan of
a batch is a function of its rings, and commits within the epoch keep the rings of
a scale-out or scale-in. -/

namespace Datasystem.Cluster

open Common HashRingToken Lib.Checked Lib.Spans HashAlgorithm TopologyPlanBuilder TopologyController
open TopologyTaskMaterializer

/-! ## Plans by their rings -/

section

variable {latest : TopologySnapshot} {batch : ActiveBatch} {plan : TopologyPlan}

theorem prospective_scaleIn_iff {m} (hm : m ∈ latest.state.members) :
    prospective .scaleIn m ↔ (isEligible false false m.state &&
      decide (m.address ∉ participantAddresses latest.state .scaleIn)) := by
  have hleaving := address_mem_participantAddresses latest .scaleIn hm
  simp only [prospective, isEligible, Bool.false_eq_true, if_false, Bool.false_and, Bool.or_false,
    Bool.and_eq_true, bne_iff_ne, decide_eq_true_eq, hleaving]
  rfl

/-- An ordinary batch is planned from its committed ring to its prospective ring. -/
theorem rebuildPlan_ordinary (hb : latest.state.activeBatch = some batch)
    (htype : batch.type ≠ .failure) :
    rebuildPlan latest = .ok plan ↔ ∃ F T, RingOf committed latest.state.members F ∧
      RingOf (prospective batch.type) latest.state.members T ∧
        plan = ⟨latest.state, diffOwners F T⟩ := by
  have hv := latest.validTopology.members
  have hF : ∀ F, buildOwners latest.state.members false [] false = .ok F ↔
      RingOf committed latest.state.members F := by
    intro F
    refine ⟨ringOf_committed hv, fun h => buildOwners_of_ringOf hv (h.congr fun o => ?_)⟩
    simp [OwnedIn, isEligible, committed]
  obtain ⟨type, e⟩ := batch
  cases type with
  | failure => exact absurd rfl htype
  | scaleOut =>
    have hT : ∀ T, buildOwners latest.state.members true [] false = .ok T ↔
        RingOf (prospective .scaleOut) latest.state.members T := by
      intro T
      refine ⟨ringOf_prospective_scaleOut hv, fun h => ?_⟩
      exact buildOwners_of_ringOf hv (h.congr fun o => by simp [OwnedIn, isEligible, prospective])
    simp only [rebuildPlan_scaleOut hb, hF, hT, exists_and_left]
  | scaleIn =>
    have howned : ∀ o, OwnedIn (prospective .scaleIn) latest.state.members o ↔
        OwnedIn (fun m => isEligible false false m.state &&
          decide (m.address ∉ participantAddresses latest.state .scaleIn))
          latest.state.members o := by
      intro o
      refine exists_congr fun m => and_congr_right fun hm => ?_
      rw [prospective_scaleIn_iff hm]
    have hT : ∀ T, buildOwners latest.state.members false
        (participantAddresses latest.state .scaleIn) false = .ok T ↔
          RingOf (prospective .scaleIn) latest.state.members T := by
      intro T
      constructor
      · intro h
        exact (ringOf_buildOwners hv h).congr fun o => (howned o).symm
      · intro h
        exact buildOwners_of_ringOf hv (h.congr howned)
    simp only [rebuildPlan_scaleIn hb, hF, hT, exists_and_left]

/-- The changes of a plan can be told by their ends, and all lists of ranges ascend. -/
theorem separate_of_rebuildPlan (hb : latest.state.activeBatch = some batch)
    (h : rebuildPlan latest = .ok plan) :
    Separate plan.ownerChanges ∧ ∀ c ∈ plan.ownerChanges, ShortEnds c := by
  have hv := latest.validTopology.members
  have hends : (plan.ownerChanges.map changeEnds).Nodup := by
    by_cases htype : batch.type = .failure
    · obtain ⟨type, e⟩ := batch
      obtain rfl : type = .failure := htype
      have hplanning := validMembers_planningMembers hv
      have h := (rebuildPlan_failure hb).mp h
      split at h
      · obtain ⟨F, hF, T, hT, rfl⟩ := h
        have hnodup := diffOwners_ends_nodup (ringOf_buildOwners hplanning hF).sound
          (ringOf_buildOwners hplanning hT).sound
        exact hnodup.sublist (List.filter_sublist.map _)
      · rw [h]
        exact .nil
    · obtain ⟨F, T, hF, hT, rfl⟩ := (rebuildPlan_ordinary hb htype).mp h
      exact diffOwners_ends_nodup hF.sound hT.sound
  refine ⟨⟨hends, fun c hc => ?_⟩, fun c hc => ?_⟩
  · obtain ⟨source, target, hmoves, -⟩ := rebuildPlan_moves hb h hc
    exact hmoves.ascending
  · obtain ⟨source, target, hmoves, -⟩ := rebuildPlan_moves hb h hc
    have hshort : ∀ m ∈ latest.state.members, m.identity.address.length < uint64Size := by
      intro m hm
      have hmax : maxMemberAddressBytes < uint64Size := by decide
      exact lt_of_le_of_lt (hv.address m hm).2.1 hmax
    rw [ShortEnds, changeEnds, hmoves.source_eq, hmoves.target_eq]
    exact ⟨hshort source hmoves.source_mem, hshort target hmoves.target_mem⟩

/-- The tasks that are derived split the changes of the plan, and their ids are distinct unless
digests collide. -/
theorem partition_of_rebuildExpected {sha256} {expected}
    (hb : latest.state.activeBatch = some batch)
    (h : rebuildExpected sha256 latest = .ok expected) :
    ∃ plan, rebuildPlan latest = .ok plan ∧ Partition plan.ownerChanges expected.tasks ∧
      (NoCollision sha256 expected.tasks → (expected.tasks.map TopologyTask.taskId).Nodup) := by
  obtain ⟨plan, hplan, rfl⟩ := (rebuildExpected_eq_ok hb).mp h
  obtain ⟨hsep, hshort⟩ := separate_of_rebuildPlan hb hplan
  exact ⟨plan, hplan, partition_derivedTasks sha256 batch hsep, taskIds_nodup hsep hshort⟩

theorem rebuildExpectedWith_tasks {sha256} {memberships} {restarts} {found}
    (h : rebuildExpectedWith sha256 latest memberships restarts = .ok found) :
    ∃ expected, rebuildExpected sha256 latest = .ok expected ∧ found.tasks = expected.tasks ∧
      found.notifiesByAddress = expected.notifiesByAddress := by
  obtain ⟨built, hbuilt, h⟩ := bind_eq_ok.mp h
  refine ⟨built, rebuildExpected_eq.trans hbuilt, ?_⟩
  cases restarts with
  | false =>
    obtain rfl := pure_eq_ok.mp h
    exact ⟨rfl, rfl⟩
  | true =>
    obtain ⟨_, -, h⟩ := bind_eq_ok.mp h
    obtain ⟨_, -, h⟩ := bind_eq_ok.mp h
    obtain rfl := pure_eq_ok.mp h
    exact ⟨rfl, rfl⟩

end

/-! ## Batches that are started -/

/-- The plans that start or replan an ordinary batch. -/
inductive BatchStart (latest : TopologyState) (plan : TopologyPlan) : Prop
  | scaleOut {selected : List MemberIdentity} (h : buildScaleOutStart latest selected = .ok plan)
  | scaleOutReplan {failedJoining : List MemberIdentity}
      (h : buildScaleOutReplan latest failedJoining = .ok plan)
      (hbatch : plan.next.activeBatch ≠ none)
  | scaleIn {selected : List MemberIdentity} (h : buildScaleInStart latest selected = .ok plan)

/-- What is left of a scale-out is planned on the members that are left. -/
theorem scaleOutReplan_rings {latest} {failedJoining} {plan} (hv : ValidMembers latest.members)
    (h : buildScaleOutReplan latest failedJoining = .ok plan)
    (hbatch : plan.next.activeBatch ≠ none) :
    ∃ F T, plan.ownerChanges = diffOwners F T ∧ RingOf committed plan.next.members F ∧
      RingOf (prospective .scaleOut) plan.next.members T := by
  obtain ⟨_, -, h⟩ := bind_eq_ok.mp h
  obtain ⟨_, -, h⟩ := bind_eq_ok.mp h
  dsimp only at h
  set retained := removeMembers latest.members (failedJoining.map MemberIdentity.address)
    with hretained
  have hvr : ValidMembers retained := by
    rw [hretained, removeMembers_eq_restate]
    exact hv.restate _
  split at h
  · obtain ⟨built, hbuilt, hplan⟩ := bind_eq_ok.mp h
    obtain ⟨-, -, -, members, hplace, F, hF, T, hT, hnext⟩ := planScaleOut_eq_ok.mp hbuilt
    rw [placeJoining_retained _ (joining_found (s := { latest with members := retained })
      hvr.addresses_nodup)] at hplace
    obtain rfl := Except.ok.inj hplace
    rw [← hnext] at hplan
    obtain rfl := pure_eq_ok.mp hplan
    exact ⟨F, T, rfl, ringOf_committed hvr hF, ringOf_prospective_scaleOut hvr hT⟩
  · obtain rfl := pure_eq_ok.mp h
    exact absurd rfl hbatch

theorem BatchStart.rings {latest} {plan} (hv : ValidTopology latest) (h : BatchStart latest plan) :
    ∃ F T batch, plan.next.activeBatch = some batch ∧ plan.ownerChanges = diffOwners F T ∧
      RingOf committed plan.next.members F ∧
        RingOf (prospective batch.type) plan.next.members T := by
  cases h with
  | scaleOut h =>
    obtain ⟨F, T, hchanges, hrings⟩ := scaleOutStart_rings hv.members h
    obtain ⟨b, hb, htype⟩ := hrings.batch
    exact ⟨F, T, b, hb, hchanges, hrings.kept, htype ▸ hrings.planned⟩
  | scaleOutReplan h hbatch =>
    obtain ⟨F, T, hchanges, hF, hT⟩ := scaleOutReplan_rings hv.members h hbatch
    obtain ⟨-, -, hnext⟩ := buildScaleOutReplan_spec h hv.members.addresses_nodup
    obtain ⟨b, hb⟩ := Option.ne_none_iff_exists'.mp hbatch
    have htype : b.type = .scaleOut := by
      rw [hnext] at hb
      simp only [TopologyState.advance, replannedBatch] at hb
      split at hb
      · obtain rfl := Option.some.inj hb
        rfl
      · cases hb
    exact ⟨F, T, b, hb, hchanges, hF, htype ▸ hT⟩
  | scaleIn h =>
    obtain ⟨F, T, hchanges, hrings⟩ := scaleInStart_rings hv h
    obtain ⟨b, hb, htype⟩ := hrings.batch
    exact ⟨F, T, b, hb, hchanges, hrings.kept, htype ▸ hrings.planned⟩

section

variable {sha256 : Sha256} {source : MembershipSource} {s s' : TopologySnapshot}
  {batch : ActiveBatch}

/-- Deriving again right after the start gives what the start plan gives. -/
theorem BatchStart.buildExpected {latest} {plan}
    (h : BatchStart latest plan) (hv : ValidTopology latest)
    (hcreate : TopologySnapshot.create plan.next = .ok s)
    (hb : s.state.activeBatch = some batch) (htype : batch.type ≠ .failure) :
    ∃ expected, buildExpected sha256 s { plan with next := s.state } = .ok expected ∧
      rebuildExpected sha256 s = .ok expected := by
  obtain ⟨F, T, b, hnext, hchange, hF, hT⟩ := h.rings hv
  obtain ⟨-, hstate⟩ := TopologySnapshot.create_eq_ok.mp hcreate
  obtain rfl : b = batch := by
    rw [← hstate] at hb
    exact Option.some.inj (hnext.symm.trans hb)
  have hF := hF.congr fun o => ownedIn_canonicalize.symm
  have hT := hT.congr fun o => ownedIn_canonicalize.symm
  rw [hstate] at hF hT
  have hplan : rebuildPlan s = .ok { plan with next := s.state } :=
    (rebuildPlan_ordinary hb htype).mpr ⟨F, T, hF, hT, by rw [hchange]⟩
  exact ⟨_, buildExpected_rebuildPlan sha256 hb hplan,
    (rebuildExpected_eq_ok hb).mpr ⟨_, hplan, rfl⟩⟩

/-- What is derived for an ordinary batch does not change within the epoch. -/
theorem Steady.rebuildExpected (h : Steady s.state s'.state) (hb : s.state.activeBatch = some batch)
    (htype : batch.type ≠ .failure) (expected) :
    rebuildExpected sha256 s = .ok expected ↔ rebuildExpected sha256 s' = .ok expected := by
  have hb' := h.batch.trans hb
  have hF : ∀ F, RingOf committed s.state.members F ↔ RingOf committed s'.state.members F := by
    intro F
    have howned := h.ownedIn (fun _ _ hk => hk.committed) fun _ => committed_not_initial
    exact ⟨fun hF => hF.congr howned, fun hF => hF.congr fun o => (howned o).symm⟩
  have hT : ∀ T, RingOf (prospective batch.type) s.state.members T ↔
      RingOf (prospective batch.type) s'.state.members T := by
    intro T
    have howned := h.ownedIn (fun _ _ hk => hk.prospective batch.type)
      fun _ => prospective_not_initial
    exact ⟨fun hT => hT.congr howned, fun hT => hT.congr fun o => (howned o).symm⟩
  rw [rebuildExpected_eq_ok hb, rebuildExpected_eq_ok hb']
  simp only [rebuildPlan_ordinary hb htype, rebuildPlan_ordinary hb' htype, hF, hT]
  constructor
  · rintro ⟨_, ⟨F, T, hF, hT, rfl⟩, hexpected⟩
    exact ⟨_, ⟨F, T, hF, hT, rfl⟩, hexpected⟩
  · rintro ⟨_, ⟨F, T, hF, hT, rfl⟩, hexpected⟩
    exact ⟨_, ⟨F, T, hF, hT, rfl⟩, hexpected⟩

end

/-- **The tasks of an ordinary batch are a function of the batch.** Within its epoch every
controller derives, whatever membership records it has read, the tasks and notifies that follow
from the plan the batch was started with. The tasks split the ranges of each owner change exactly,
and their ids are distinct unless digest prefixes collide. -/
theorem derived_tasks_of_batch (sha256 : Sha256) {source : MembershipSource}
    {s s' : TopologySnapshot} {batch : ActiveBatch} (hb : s.state.activeBatch = some batch)
    (htype : batch.type ≠ .failure) (h : Continues source s.state s'.state) :
    (∀ latest before plan, TopologySnapshot.create latest = .ok before → BatchStart latest plan →
      TopologySnapshot.create plan.next = .ok s →
        ∃ expected, buildExpected sha256 s { plan with next := s.state } = .ok expected ∧
          rebuildExpected sha256 s' = .ok expected) ∧
    (∀ expected, rebuildExpected sha256 s = .ok expected ↔
      rebuildExpected sha256 s' = .ok expected) ∧
    (∀ memberships restarts found, rebuildExpectedWith sha256 s' memberships restarts = .ok found →
        ∃ expected, rebuildExpected sha256 s' = .ok expected ∧ found.tasks = expected.tasks ∧
          found.notifiesByAddress = expected.notifiesByAddress) ∧
    (∀ expected, rebuildExpected sha256 s' = .ok expected →
      ∃ plan, rebuildPlan s' = .ok plan ∧ Partition plan.ownerChanges expected.tasks ∧
        (NoCollision sha256 expected.tasks → (expected.tasks.map TopologyTask.taskId).Nodup)) := by
  have hsteady := (h.steady s.validTopology).1
  have hsame : ∀ expected, rebuildExpected sha256 s = .ok expected ↔
      rebuildExpected sha256 s' = .ok expected := hsteady.rebuildExpected hb htype
  refine ⟨?_, hsame, fun _ _ _ => rebuildExpectedWith_tasks, fun expected hexpected => ?_⟩
  · intro latest before plan hbefore hstart hcreate
    have hv := (TopologySnapshot.create_eq_ok.mp hbefore).1
    obtain ⟨expected, hbuild, hrebuild⟩ := hstart.buildExpected hv hcreate hb htype
    exact ⟨expected, hbuild, (hsame expected).mp hrebuild⟩
  · exact partition_of_rebuildExpected (hsteady.batch.trans hb) hexpected

/-- A worker that only just reported. -/
def guestIdentity : MemberIdentity := ⟨List.replicate memberIdSize 8, ascii "10.0.0.103:31501"⟩

def withGuest (s : TopologyState) : TopologyState :=
  { s with members := s.members ++ [⟨guestIdentity, .initial, [], []⟩] }

def guestBefore : TopologySnapshot := snapshotOf (withGuest pairBefore.state) rfl

def guestLeaving : TopologySnapshot := snapshotOf (withGuest pairLeaving.state) rfl

/-- The worker that only just reported is gone again. -/
def pairCleaned : TopologySnapshot :=
  snapshotOf (pairTopology 6 (some ⟨.scaleIn, 5⟩) .active .leaving sampleTokens) rfl

def guestPlan : TopologyPlan := ⟨guestLeaving.state, pairPlan.ownerChanges⟩

/-- The scale-in of the right one of two workers, before and after a commit within its epoch. -/
theorem pair_derived_tasks : ∃ expected,
    buildExpected pairSha256 guestLeaving { guestPlan with next := guestLeaving.state } =
        .ok expected ∧ rebuildExpected pairSha256 pairCleaned = .ok expected := by
  have hbatch : guestLeaving.state.activeBatch = some ⟨.scaleIn, 5⟩ := rfl
  have hgone : Classified pairOptions guestLeaving.state
      [workerRecord leftAddress .ready, workerRecord rightAddress .exiting]
      ⟨[guestIdentity], [], [], []⟩ :=
    classified_of_observe ⟨30, .empty, none⟩ 0 rfl rfl ⟨_, rfl⟩ rfl
  have hcontinues : Continues pairSource guestLeaving.state pairCleaned.state :=
    .commit pairOptions .refl (.uncommittedCleanup hgone rfl rfl) ⟨_, rfl, _, rfl, rfl⟩
      (create_snapshotOf _)
  have hstart : buildScaleInStart guestBefore.state [rightIdentity] = .ok guestPlan := by
    decide +kernel
  have hbefore : TopologySnapshot.create guestBefore.state = .ok guestBefore := create_snapshotOf _
  have hstarted : TopologySnapshot.create guestPlan.next = .ok guestLeaving := create_snapshotOf _
  exact (derived_tasks_of_batch pairSha256 hbatch nofun hcontinues).1 _ _ _ hbefore
    (.scaleIn hstart) hstarted

/-! ## Failures -/

theorem restate_fail_participants (latest : TopologySnapshot) :
    restate (fail (participantAddresses latest.state .failure) []) latest.state.members =
      latest.state.members := by
  have hsame : ∀ m ∈ latest.state.members,
      fail (participantAddresses latest.state .failure) [] m = some m.state := by
    intro m hm
    have hiff := address_mem_participantAddresses latest .failure hm
    rw [fail, if_neg (by simp)]
    split
    · rename_i ha
      rw [hiff.mp ha]
      rfl
    · rfl
  rw [restate_congr hsame, restate_some]
  exact List.map_id'' (fun m => rfl) _

section

variable {latest : TopologySnapshot} {epoch : Nat} {plan : TopologyPlan}

/-- A failure is planned from the owners and the failed members to the ACTIVE ones. -/
theorem rebuildPlan_failure_rings (hb : latest.state.activeBatch = some ⟨.failure, epoch⟩) :
    rebuildPlan latest = .ok plan ↔
      if ∃ m ∈ latest.state.members, m.state = .active then
        ∃ F T, RingOf counted latest.state.members F ∧ RingOf recovering latest.state.members T ∧
          plan = ⟨latest.state, (diffOwners F T).filter fun c =>
            c.source.any fun source =>
              source.address ∈ participantAddresses latest.state .failure⟩
      else plan = ⟨latest.state, []⟩ := by
  have hv := latest.validTopology.members
  have hplanning := validMembers_planningMembers hv
  have hF : ∀ F, buildOwners (planningMembers latest.state.members) false [] false = .ok F ↔
      RingOf counted latest.state.members F := by
    intro F
    refine ⟨ringOf_counted hv, fun h => buildOwners_of_ringOf hplanning (h.congr fun o => ?_)⟩
    rw [← ownedIn_counted]
    simp [OwnedIn, isEligible, committed]
  have howned : ∀ o, OwnedIn (fun m => isEligible false true m.state &&
      m.address ∉ participantAddresses latest.state .failure)
        (planningMembers latest.state.members) o ↔
      OwnedIn recovering latest.state.members o := by
    intro o
    have hfailed : ∀ m ∈ latest.state.members, m.state = .failed →
        m.address ∈ participantAddresses latest.state .failure :=
      fun m hm hs => (address_mem_participantAddresses latest .failure hm).mpr hs
    have hnone : ∀ m ∈ latest.state.members, m.address ∈ ([] : List Bytes) →
        m.state = .initial ∨ m.state = .joining := by simp
    have hiff := ownedIn_recovering hfailed hnone o
    rwa [restate_fail_participants] at hiff
  have hT : ∀ T, buildOwners (planningMembers latest.state.members) false
      (participantAddresses latest.state .failure) true = .ok T ↔
        RingOf recovering latest.state.members T := by
    intro T
    constructor
    · intro h
      exact (ringOf_buildOwners hplanning h).congr howned
    · intro h
      exact buildOwners_of_ringOf hplanning (h.congr fun o => (howned o).symm)
  simp only [rebuildPlan_failure hb, hF, hT, exists_and_left]

/-- A change takes tokens that a failed member owned to the next ACTIVE one. -/
theorem ends_of_recovery (hb : latest.state.activeBatch = some ⟨.failure, epoch⟩)
    (h : rebuildPlan latest = .ok plan) {F} (hF : RingOf counted latest.state.members F)
    {c} (hc : c ∈ plan.ownerChanges) {t} (ht : Covers c.ranges t) :
    c.source = some (ownerAt F t) ∧
      (ownerAt F t).address ∈ participantAddresses latest.state .failure ∧
      ∃ T, RingOf recovering latest.state.members T ∧ c.target = ownerAt T t := by
  have h := (rebuildPlan_failure_rings hb).mp h
  split at h
  · obtain ⟨_, T, hF', hT, rfl⟩ := h
    obtain rfl := hF'.unique hF
    obtain ⟨hc, hfailed⟩ := List.mem_filter.mp hc
    obtain ⟨hsource, htarget⟩ := ends_of_covers hF.sound hT.sound hc ht
    rw [hsource] at hfailed
    exact ⟨hsource, by simpa using hfailed, T, hT, htarget⟩
  · rw [h] at hc
    cases hc

theorem exists_counted_ring (hb : latest.state.activeBatch = some ⟨.failure, epoch⟩)
    (h : rebuildPlan latest = .ok plan) (hactive : ∃ m ∈ latest.state.members, m.state = .active) :
    ∃ F, RingOf counted latest.state.members F := by
  have h := (rebuildPlan_failure_rings hb).mp h
  rw [if_pos hactive] at h
  obtain ⟨F, -, hF, -⟩ := h
  exact ⟨F, hF⟩

/-- What a failed member owned is recovered as long as somebody is ACTIVE. -/
theorem exists_recovery (hb : latest.state.activeBatch = some ⟨.failure, epoch⟩)
    (h : rebuildPlan latest = .ok plan) (hactive : ∃ m ∈ latest.state.members, m.state = .active)
    {F} (hF : RingOf counted latest.state.members F) {t}
    (hfailed : (ownerAt F t).address ∈ participantAddresses latest.state .failure) :
    ∃ c ∈ plan.ownerChanges, Covers c.ranges t ∧ c.source = some (ownerAt F t) ∧
      ∃ m ∈ latest.state.members, m.identity = c.target ∧ m.state = .active := by
  have h := (rebuildPlan_failure_rings hb).mp h
  rw [if_pos hactive] at h
  obtain ⟨_, T, hF', hT, rfl⟩ := h
  obtain rfl := hF.unique hF'
  obtain ⟨target, hmem, hrecovering, -, hi⟩ := hT.exists_owner t
  have hdiffers : ownerAt F t ≠ ownerAt T t := by
    intro heq
    rw [heq, ← hi] at hfailed
    have hstate := (address_mem_participantAddresses latest .failure hmem).mp hfailed
    rw [recovering, hstate] at hrecovering
    cases hrecovering
  obtain ⟨c, hc, hcovers⟩ := exists_change hF.sound hT.sound hdiffers
  obtain ⟨hsource, htarget⟩ := ends_of_covers hF.sound hT.sound hc hcovers
  refine ⟨c, List.mem_filter.mpr ⟨hc, ?_⟩, hcovers, hsource, target, hmem, hi.trans htarget.symm,
    eq_of_beq hrecovering⟩
  rw [hsource]
  simpa using hfailed

end

theorem Kept.counted {m m'} (h : Kept m m') : Cluster.counted m' = Cluster.counted m := by
  have hfailed : m'.state = .failed ↔ m.state = .failed := h.state_eq_iff (by decide)
  rw [Cluster.counted, Cluster.counted, h.committed, Bool.eq_iff_iff]
  simp only [Bool.or_eq_true, beq_iff_eq, hfailed]

theorem counted_not_initial {m} (h : counted m) : m.state ≠ .initial := by
  intro hs
  simp [counted, hs, isCommittedMemberState] at h

/-- Every ACTIVE member of `s` is one of `s'`. -/
def KeepsActive (s s' : TopologyState) : Prop :=
  ∀ m ∈ s.members, m.state = .active →
    ∃ m' ∈ s'.members, m'.identity = m.identity ∧ m'.state = .active

instance (s s' : TopologyState) : Decidable (KeepsActive s s') := by
  unfold KeepsActive
  infer_instance

section

variable {s s' : TopologySnapshot}

section

variable (h : Steady s.state s'.state)

include h

theorem Steady.counted_rings (F) :
    RingOf counted s.state.members F ↔ RingOf counted s'.state.members F := by
  have howned := h.ownedIn (fun _ _ hk => hk.counted) fun _ => counted_not_initial
  exact ⟨fun hF => hF.congr howned, fun hF => hF.congr fun o => (howned o).symm⟩

theorem Steady.active_backward {m'} (hm' : m' ∈ s'.state.members) (ha : m'.state = .active) :
    ∃ m ∈ s.state.members, Kept m m' ∧ m.state = .active := by
  obtain ⟨m, hm, hk⟩ := h.backward m' hm' (by simp [ha])
  refine ⟨m, hm, hk, ?_⟩
  rcases hk.state with heq | ⟨hactive, -⟩
  · exact heq ▸ ha
  · exact hactive

theorem Steady.active_forward {m m'} (hm : m ∈ s.state.members) (ha : m.state = .active)
    (hm' : m' ∈ s'.state.members) (hi : m'.identity = m.identity) : Kept m m' := by
  obtain ⟨k, hkm, hk⟩ := h.forward m hm (by simp [ha])
  obtain rfl := eq_of_address_eq s'.validTopology.members.addresses_nodup hkm hm'
    (congrArg MemberIdentity.address (hk.identity.trans hi.symm))
  exact hk

theorem Steady.recovering_subset {o} (ho : OwnedIn recovering s'.state.members o) :
    OwnedIn recovering s.state.members o := by
  obtain ⟨m', hm', hactive, ht, hi⟩ := ho
  obtain ⟨m, hm, hk, ha⟩ := h.active_backward hm' (eq_of_beq hactive)
  exact ⟨m, hm, by simp [recovering, ha], hk.tokens ▸ ht, hk.identity.symm.trans hi⟩

theorem Steady.recovering_of_active {o} (ho : OwnedIn recovering s.state.members o)
    {m'} (hm' : m' ∈ s'.state.members) (hi : m'.identity = o.identity)
    (ha : m'.state = .active) : OwnedIn recovering s'.state.members o := by
  obtain ⟨m, hm, hactive, ht, hmi⟩ := ho
  have hk := h.active_forward hm (eq_of_beq hactive) hm' (hi.trans hmi.symm)
  exact ⟨m', hm', by simp [recovering, ha], hk.tokens.symm ▸ ht, hi⟩

theorem Steady.recovering_rings (hkeeps : KeepsActive s.state s'.state) (T) :
    RingOf recovering s.state.members T ↔ RingOf recovering s'.state.members T := by
  have howned : ∀ o, OwnedIn recovering s.state.members o ↔
      OwnedIn recovering s'.state.members o := by
    intro o
    refine ⟨fun ho => ?_, h.recovering_subset⟩
    obtain ⟨m, hm, hactive, -, hmi⟩ := id ho
    obtain ⟨m', hm', hi, ha⟩ := hkeeps m hm (eq_of_beq hactive)
    exact h.recovering_of_active ho hm' (hi.trans hmi) ha
  exact ⟨fun hT => hT.congr howned, fun hT => hT.congr fun o => (howned o).symm⟩

theorem Steady.mem_participantAddresses {epoch : Nat}
    (hb : s.state.activeBatch = some ⟨.failure, epoch⟩) (a) :
    a ∈ participantAddresses s'.state .failure ↔ a ∈ participantAddresses s.state .failure := by
  have hsame := h.sameBatch.2 _ hb
  simp only [participantAddresses, List.mem_map]
  exact exists_congr fun i => and_congr_left fun _ => (hsame i).symm

theorem Steady.rebuildExpected_failure {sha256} {epoch : Nat}
    (hb : s.state.activeBatch = some ⟨.failure, epoch⟩) (hkeeps : KeepsActive s.state s'.state)
    (expected : ExpectedDerivedState) :
    TopologyTaskMaterializer.rebuildExpected sha256 s = .ok expected ↔
      TopologyTaskMaterializer.rebuildExpected sha256 s' = .ok expected := by
  have hb' := h.batch.trans hb
  have hactive : (∃ m ∈ s.state.members, m.state = .active) ↔
      ∃ m ∈ s'.state.members, m.state = .active := by
    constructor
    · intro hex
      obtain ⟨m, hm, ha⟩ := hex
      obtain ⟨m', hm', -, ha'⟩ := hkeeps m hm ha
      exact ⟨m', hm', ha'⟩
    · intro hex
      obtain ⟨m', hm', ha'⟩ := hex
      obtain ⟨m, hm, -, ha⟩ := h.active_backward hm' ha'
      exact ⟨m, hm, ha⟩
  rw [rebuildExpected_eq_ok hb, rebuildExpected_eq_ok hb']
  simp only [rebuildPlan_failure_rings hb, rebuildPlan_failure_rings hb', hactive, h.counted_rings,
    h.recovering_rings hkeeps, h.mem_participantAddresses hb]
  split
  · constructor
    · rintro ⟨_, ⟨F, T, hF, hT, rfl⟩, hexpected⟩
      exact ⟨_, ⟨F, T, hF, hT, rfl⟩, hexpected⟩
    · rintro ⟨_, ⟨F, T, hF, hT, rfl⟩, hexpected⟩
      exact ⟨_, ⟨F, T, hF, hT, rfl⟩, hexpected⟩
  · simp

section

variable {epoch : Nat} (hb : s.state.activeBatch = some ⟨.failure, epoch⟩)
  {plan plan' : TopologyPlan}
  (hplan : rebuildPlan s = .ok plan) (hplan' : rebuildPlan s' = .ok plan')
  (hactive : ∃ m ∈ s'.state.members, m.state = .active)

include hb hplan hplan' hactive

/-- What was recovered goes on to be recovered while somebody is ACTIVE, and by the same member
while that one is. -/
theorem Steady.recovers {c} (hc : c ∈ plan.ownerChanges) {t} (ht : Covers c.ranges t) :
    ∃ c' ∈ plan'.ownerChanges, Covers c'.ranges t ∧ c'.source = c.source ∧
      (∃ m ∈ s'.state.members, m.identity = c'.target ∧ m.state = .active) ∧
      ∀ m ∈ s'.state.members, m.identity = c.target → m.state = .active →
        c'.target = c.target := by
  have hb' := h.batch.trans hb
  obtain ⟨F, hF'⟩ := exists_counted_ring hb' hplan' hactive
  have hF := (h.counted_rings F).mpr hF'
  obtain ⟨hsource, hfailed, T, hT, htarget⟩ := ends_of_recovery hb hplan hF hc ht
  obtain ⟨c', hc', ht', hsource', hby⟩ := exists_recovery hb' hplan' hactive hF'
    ((h.mem_participantAddresses hb _).mpr hfailed)
  refine ⟨c', hc', ht', hsource'.trans hsource.symm, hby, fun m hm hi ha => ?_⟩
  obtain ⟨-, -, T', hT', htarget'⟩ := ends_of_recovery hb' hplan' hF' hc' ht'
  -- the target still counts, so it is still the next one
  have hmem : findOwner T t ∈ T'.owners := by
    have howned := (hT.mem_iff _).mp (findOwner_owns hT.sound t).1
    exact (hT'.mem_iff _).mpr (h.recovering_of_active howned hm (hi.trans htarget) ha)
  have hsub : ∀ o ∈ T'.owners, o ∈ T.owners := fun o ho =>
    (hT.mem_iff o).mpr (h.recovering_subset ((hT'.mem_iff o).mp ho))
  rw [htarget, htarget', ownerAt, ownerAt, findOwner_eq_of_subset hT.sound hT'.sound hsub hmem]

/-- Nothing is recovered that was not before. -/
theorem Steady.recovered {c'} (hc' : c' ∈ plan'.ownerChanges) {t} (ht : Covers c'.ranges t) :
    ∃ c ∈ plan.ownerChanges, Covers c.ranges t ∧ c.source = c'.source := by
  have hb' := h.batch.trans hb
  obtain ⟨F, hF'⟩ := exists_counted_ring hb' hplan' hactive
  obtain ⟨hsource', hfailed, -⟩ := ends_of_recovery hb' hplan' hF' hc' ht
  obtain ⟨m', hm', ha'⟩ := hactive
  obtain ⟨m, hm, -, ha⟩ := h.active_backward hm' ha'
  obtain ⟨c, hc, hcovers, hsource, -⟩ := exists_recovery hb hplan ⟨m, hm, ha⟩
    ((h.counted_rings F).mpr hF') ((h.mem_participantAddresses hb _).mp hfailed)
  exact ⟨c, hc, hcovers, hsource.trans hsource'.symm⟩

end

end

end

/-- The three workers of which one failed, and one that only just reported. -/
def quartetFailed : TopologySnapshot := snapshotOf (withGuest trioFailed.state) rfl

def trioCleaned : TopologySnapshot := snapshotOf (trioTopology 6 (some ⟨.failure, 5⟩) .failed) rfl

theorem continues_cleanup : Continues pairSource quartetFailed.state trioCleaned.state := by
  have hclassified : Classified pairOptions quartetFailed.state
      [workerRecord leftAddress .ready, workerRecord thirdIdentity.address .exiting]
      ⟨[guestIdentity], [], [], []⟩ :=
    classified_of_observe ⟨30, .empty, none⟩ 0 rfl rfl ⟨_, rfl⟩ rfl
  exact .commit pairOptions .refl (.uncommittedCleanup hclassified rfl rfl) ⟨_, rfl, _, rfl, rfl⟩
    (create_snapshotOf _)

/-- The left worker fails, and the right one recovers. -/
theorem commit_leftFailure {w}
    (hw : WellFormed pairSource (pairTopology 3 none .active .active w)) :
    Commit pairSource (pairTopology 3 none .active .active w)
      (pairTopology 4 (some ⟨.failure, 4⟩) .failed .active w) := by
  have hclassified : Classified pairOptions (pairTopology 3 none .active .active w)
      [workerRecord rightAddress .ready] ⟨[], [], [leftIdentity], [leftIdentity]⟩ :=
    classified_of_observe ⟨30, .insert .empty leftAddress 0, none⟩ 30 rfl rfl ⟨_, rfl⟩ rfl
  have hmem : (⟨rightIdentity, .active, w.2.tokens, w.2.overrides⟩ : Member) ∈
      (pairTopology 3 none .active .active w).members := by simp [pairTopology]
  obtain ⟨hval, htok, F, hF⟩ := hw.exists_owners hmem rfl
  obtain ⟨T, hT⟩ := (exists_buildOwners_iff _ false [leftIdentity.address] true).mpr
    ⟨_, hmem, ⟨rfl, by simpa using leftAddress_lt.ne'⟩, htok⟩
  have hids : validateIdentities [leftIdentity] = .ok () := by decide
  have hplan := planFailure_eq_ok.mpr
    ⟨hval, validateIdentities_eq_ok.mp hids, rfl, by simp, F, hF, T, hT, rfl⟩
  have hstart : ∃ changes,
      buildFailureStartOrReplan (pairTopology 3 none .active .active w) [leftIdentity] =
        .ok ⟨pairTopology 4 (some ⟨.failure, 4⟩) .failed .active w, changes⟩ := by
    refine ⟨(diffOwners F T).filter fun c => c.source.any fun source =>
      source.address ∈ [leftIdentity].map MemberIdentity.address, ?_⟩
    show (planFailure (pairTopology 3 none .active .active w) [leftIdentity] >>= _) = _
    rw [hplan]
    rfl
  obtain ⟨changes, hstart⟩ := hstart
  refine commit_pair (.confirmedFailures hclassified ?_) (by decide)
  show (buildFailureStartOrReplan (pairTopology 3 none .active .active w) [leftIdentity] >>= _) = _
  rw [hstart]
  rfl

theorem commit_rightExit (w) :
    Commit pairSource (pairTopology 4 (some ⟨.failure, 4⟩) .failed .active w)
      (pairTopology 5 (some ⟨.failure, 4⟩) .failed .preLeaving w) := by
  have hcommit : commitMembershipFacts pairSource.sha256 pairOptions .empty none 0
      (pairTopology 4 (some ⟨.failure, 4⟩) .failed .active w)
      [workerRecord rightAddress .exiting] =
        .ok (some (pairTopology 5 (some ⟨.failure, 4⟩) .failed .preLeaving w)) := rfl
  refine commit_pair ?_ (by decide)
  exact .membershipFacts (classified_of_observe ⟨30, .empty, none⟩ 0 (c := {}) rfl rfl ⟨_, rfl⟩ rfl)
    ⟨rfl, rfl, rfl⟩ (by simp [pairSource]) hcommit

end Datasystem.Cluster
