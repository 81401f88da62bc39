import Datasystem.Cluster.Handover

/-! Where the data of failed members is recovered. Recovery goes to the next ACTIVE
member, whereas routing goes to the next member in any committed state: the two
agree exactly where the member that is routed to is ACTIVE. -/

namespace Datasystem.Cluster

open Common HashRingToken Lib.Checked Lib.Spans HashAlgorithm TopologyPlanBuilder TopologyController
open List MemberIdentity
open TopologyTaskMaterializer

/-! ## The rings of a failure -/

/-- Members whose tokens a failure plan starts from: owners, and those that failed before. -/
def counted (m : Member) : Bool := isCommittedMemberState m.state || m.state == .failed

/-- Members that a failure plan recovers to. -/
def recovering (m : Member) : Bool := m.state == .active

theorem ownedIn_counted (members) (o) :
    OwnedIn committed (planningMembers members) o ↔ OwnedIn counted members o := by
  rw [planningMembers_eq_restate]
  refine (ownedIn_restate (fun m _ => ?_) o).symm
  simp only [Option.some.injEq, exists_eq_left', counted, committed, Member.withState_state]
  cases m.state <;> decide

theorem ringOf_counted {members} (hv : ValidMembers members) {F}
    (h : buildOwners (planningMembers members) false [] false = .ok F) :
    RingOf counted members F :=
  (ringOf_committed (validMembers_planningMembers hv) h).congr (ownedIn_counted members)

theorem ownedIn_recovering {members} {failed gone}
    (hfailed : ∀ m ∈ members, m.state = .failed → m.address ∈ failed)
    (hgone : ∀ m ∈ members, m.address ∈ gone → m.state = .initial ∨ m.state = .joining) (o) :
    OwnedIn (fun m => isEligible false true m.state && m.address ∉ failed)
        (planningMembers members) o ↔
      OwnedIn recovering (restate (fail failed gone) members) o := by
  rw [planningMembers_eq_restate]
  have hmid : ∀ m ∈ members, (m.state == .active && decide (m.address ∉ failed)) ↔
      ∃ st, (some (if m.state = .failed then .active else m.state) : Option MemberState) =
        some st ∧ (isEligible false true (m.withState st).state &&
          decide ((m.withState st).address ∉ failed)) := by
    intro m hm
    simp only [Option.some.injEq, exists_eq_left', isEligible, Member.withState_state,
      Member.withState_address, if_true]
    by_cases hs : m.state = .failed
    · simp [hs, hfailed m hm hs]
    · simp only [if_neg hs, Bool.and_eq_true, decide_eq_true_iff]
      exact and_congr_right fun _ => decide_eq_true_iff.symm
  refine (ownedIn_restate hmid o).symm.trans (ownedIn_restate (fun m hm => ?_) o)
  simp only [fail, recovering]
  by_cases hg : m.address ∈ gone
  · rcases hgone m hm hg with hs | hs <;> simp [hg, hs]
  · by_cases hf : m.address ∈ failed <;> simp [hg, hf]

/-! ## Failure batches -/

/-- A failure batch from start to end: planned on a valid topology, committed without the members
that are erased along with it, followed by any commits that keep its epoch, and ended. -/
structure FailureBatch (source : MembershipSource) (before : TopologySnapshot)
    (confirmed : List MemberIdentity) (plan : TopologyPlan)
    (failed active after : TopologySnapshot) : Prop where
  start : buildFailureStartOrReplan before.state confirmed = .ok plan
  commit : ∃ gone : List Bytes,
    (∀ m ∈ before.state.members, m.address ∈ gone → m.state = .initial ∨ m.state = .joining) ∧
      TopologySnapshot.create
        { plan.next with members := removeMembers plan.next.members gone } = .ok failed
  continues : Continues source failed.state active.state
  final : ∃ next, buildFailureFinal active.state = .ok next ∧
    TopologySnapshot.create next = .ok after

/-- The rings of a failure: `F` is planned from, `T` recovers, and `C` is routed on. -/
structure FailureRings (before failed after : TopologySnapshot) (confirmed : List MemberIdentity)
    (F T C : OwnerRing) : Prop where
  listed : ∀ m ∈ before.state.members,
    m.address ∈ confirmed.map address ↔ m.identity ∈ confirmed
  spared : ∀ t, (ownerAt T t).address ∉ confirmed.map address
  old : RingOf counted before.state.members F
  recovery : RingOf recovering failed.state.members T
  routed : RingOf Cluster.committed failed.state.members C
  new : RingOf Cluster.committed after.state.members C

section

variable {source : MembershipSource} {before failed active after : TopologySnapshot}
  {confirmed : List MemberIdentity} {plan : TopologyPlan}

/-- Ending a failure keeps the ring, as somebody owns it. -/
theorem failureFinal_ring {s next} (hn : (s.members.map Member.address).Nodup)
    (h : buildFailureFinal s = .ok next) {ring}
    (hring : RingOf committed s.members ring) : RingOf committed next.members ring := by
  obtain ⟨-, members, _, hrestate, rfl⟩ := buildFailureFinal_spec h hn
  have hdiscard : RingOf committed (restate (discard .failed) s.members) ring := by
    refine hring.congr fun o => ownedIn_restate (fun m _ => ?_) o
    constructor
    · intro hc
      refine ⟨m.state, discard_eq_some.mpr ⟨fun hs => ?_, rfl⟩, hc⟩
      simp [committed, hs, isCommittedMemberState] at hc
    · intro hc
      obtain ⟨_, hst, hc⟩ := hc
      obtain ⟨-, rfl⟩ := discard_eq_some.mp hst
      exact hc
  obtain ⟨owner, howner, hcommitted, -⟩ := hdiscard.exists_owner 0
  have hmembers : members = restate (discard .failed) s.members := by
    have hfst := (congrArg Prod.fst hrestate).symm
    unfold resumeAfterFailure at hfst
    rw [if_neg fun hnone => hnone owner howner hcommitted] at hfst
    split at hfst
    · exact hfst
    · split at hfst <;> exact hfst
  show RingOf committed members ring
  rw [hmembers]
  exact hdiscard

theorem FailureBatch.rings (h : FailureBatch source before confirmed plan failed active after)
    (hne : plan.ownerChanges ≠ []) :
    ∃ F T C, FailureRings before failed after confirmed F T C ∧
      plan.ownerChanges = (diffOwners F T).filter fun c =>
        c.source.any fun source => source.address ∈ confirmed.map address := by
  have hv := before.validTopology.members
  obtain ⟨gone, hgone, hcommit⟩ := h.commit
  obtain ⟨_, hfinal, hafter⟩ := h.final
  obtain ⟨-, hretained, hnext, hplan⟩ := buildFailureStartOrReplan_spec h.start hv.addresses_nodup
  rcases hplan with ⟨-, built, hbuilt, hchanges⟩ | ⟨-, hnil⟩
  swap
  · exact absurd hnil hne
  obtain ⟨-, -, hselected, -, F, hF, T, hT, rfl⟩ := planFailure_eq_ok.mp hbuilt
  have hvalid := validMembers_planningMembers hv
  have hspares : ∀ t, (ownerAt T t).address ∉ confirmed.map address := by
    intro t
    obtain ⟨_, -, hm, -, hi⟩ := (ringOf_buildOwners hvalid hT).exists_owner t
    rw [← hi]
    exact of_decide_eq_true (Bool.and_eq_true_iff.mp hm).2
  obtain ⟨-, hfailed⟩ := TopologySnapshot.create_eq_ok.mp hcommit
  have hmembers : ∀ p o, OwnedIn p failed.state.members o ↔ OwnedIn p
      (restate (fail (confirmed.map address) gone) before.state.members) o := by
    intro p o
    rw [← hfailed, ownedIn_canonicalize, ← removeMembers_markMembers, hnext]
    rfl
  have hlisted : ∀ m ∈ before.state.members, m.state = .failed →
      m.address ∈ confirmed.map address :=
    fun m hm hs => mem_map_of_mem (hretained m hm hs)
  have hiff : ∀ m ∈ before.state.members,
      m.address ∈ confirmed.map address ↔ m.identity ∈ confirmed := by
    intro m hm
    refine ⟨fun ha => ?_, fun hi => mem_map_of_mem hi⟩
    obtain ⟨i, hi, hia⟩ := mem_map.mp ha
    obtain ⟨_, hfound, rfl, -⟩ := validateSelectedMembers_eq_ok.mp hselected i hi
    obtain ⟨_, hm₀, hi₀, -⟩ := exists_of_mem_planningMembers (findByAddress_some hfound).1
    rw [← hi₀] at hi hia
    rwa [← eq_of_address_eq hv.addresses_nodup hm₀ hm hia]
  have hT : RingOf recovering failed.state.members T :=
    (ringOf_buildOwners hvalid hT).congr fun o =>
      (ownedIn_recovering hlisted hgone o).trans (hmembers _ o).symm
  -- a member that recovers has tokens, so there is a ring to route on
  have hC : ∃ C, buildOwners failed.state.members false [] false = .ok C := by
    obtain ⟨m, hm, hactive, ht, -⟩ := hT.exists_owner 0
    refine (exists_buildOwners_iff _ false [] false).mpr ⟨m, hm, ⟨?_, by simp⟩, ne_nil_of_mem ht⟩
    rw [eq_of_beq hactive]
    rfl
  obtain ⟨C, hC⟩ := hC
  have hC := ringOf_committed failed.validTopology.members hC
  obtain ⟨hsteady, hactive⟩ := h.continues.steady failed.validTopology
  have hCa := hC.congr (hsteady.ownedIn (fun _ _ hk => hk.committed) fun _ => committed_not_initial)
  obtain ⟨-, hafter⟩ := TopologySnapshot.create_eq_ok.mp hafter
  refine ⟨F, T, C, ⟨hiff, hspares, ringOf_counted hv hF, hT, hC, ?_⟩, hchanges⟩
  rw [← hafter]
  exact (failureFinal_ring hactive.members.addresses_nodup hfinal hCa).congr
    fun o => ownedIn_canonicalize.symm

/-- Recovery and routing agree exactly where the member that is routed to is ACTIVE. -/
theorem recovery_eq_routed_iff {members} {T C}
    (hn : (members.map Member.address).Nodup) (hT : RingOf recovering members T)
    (hC : RingOf committed members C) {t} {routed} (hm : routed ∈ members)
    (hi : routed.identity = ownerAt C t) :
    ownerAt T t = routed.identity ↔ routed.state = .active := by
  have hsub : ∀ m ∈ members, recovering m → committed m := by
    intro m _ hactive
    simp only [recovering, beq_iff_eq] at hactive
    simp [committed, hactive, isCommittedMemberState]
  constructor
  · intro heq
    obtain ⟨_, htarget, hactive, -, hti⟩ := hT.exists_owner t
    obtain rfl := eq_of_address_eq hn htarget hm (congrArg address (hti.trans heq))
    exact eq_of_beq hactive
  · intro hactive
    by_contra hdiff
    obtain ⟨_, hm', -, hnot, hmi⟩ := hT.gained hC hsub (hi ▸ hdiff)
    obtain rfl := eq_of_address_eq hn hm' hm (congrArg address (hmi.trans hi.symm))
    exact hnot (by simp [recovering, hactive])

/-- An owner that did not fail before is the one that was routed to. -/
theorem locateOwner_of_counted {F} (hF : RingOf counted before.state.members F)
    {owner} {t} (howner : owner ∈ before.state.members)
    (hi : owner.identity = ownerAt F t) (hs : owner.state ≠ .failed) :
    ∃ m, locateOwner before t = .ok m ∧ m.identity = owner.identity := by
  have hv := before.validTopology.members
  have hn := hv.addresses_nodup
  obtain ⟨m, hm, hcounted, ht, hmi⟩ := hF.exists_owner t
  obtain rfl := eq_of_address_eq hn hm howner (congrArg address (hmi.trans hi.symm))
  have hcommitted : isCommittedMemberState m.state := by simpa [counted, hs] using hcounted
  obtain ⟨_, hC⟩ := (exists_buildOwners_iff before.state.members false [] false).mpr
    ⟨m, hm, ⟨by simp [isEligible, hcommitted], by simp⟩, ne_nil_of_mem ht⟩
  have hC := ringOf_committed hv hC
  obtain ⟨m', hloc, hi'⟩ := locateOwner_of_ring hC t
  refine ⟨m', hloc, hi'.trans ?_⟩
  by_contra hdiff
  rw [hmi] at hdiff
  obtain ⟨_, hm'', -, hnot, hi''⟩ :=
    hC.gained hF (fun m _ hc => Bool.or_eq_true_iff.mpr (.inl hc)) hdiff
  obtain rfl := eq_of_address_eq hn hm'' hm (congrArg address (hi''.trans hmi.symm))
  exact hnot hcommitted

theorem existsUnique_recovery_change {F T C}
    (h : FailureRings before failed after confirmed F T C) {t}
    (ht : (ownerAt F t).address ∈ confirmed.map address) :
    ∃! c, c ∈ (diffOwners F T).filter (fun c => c.source.any fun source =>
      source.address ∈ confirmed.map address) ∧ Covers c.ranges t := by
  have hdiff : ownerAt F t ≠ ownerAt T t := by
    intro heq
    exact h.spared t (heq ▸ ht)
  obtain ⟨c, ⟨hc, hcovers⟩, hunique⟩ :=
    (existsUnique_change_iff h.old.sound h.recovery.sound t).mpr hdiff
  refine ⟨c, ⟨mem_filter.mpr ⟨hc, ?_⟩, hcovers⟩, fun c' hc' => ?_⟩
  · rw [(ends_of_covers h.old.sound h.recovery.sound hc hcovers).1]
    simpa using ht
  · exact hunique c' ⟨(mem_filter.mp hc'.1).1, hc'.2⟩

/-- **Failed members are recovered by the next ACTIVE member.** The owner of a token that a failure
plan starts from is a committed member or one that failed before. If it is confirmed to have failed,
the token is in exactly one owner change, from this owner to the next ACTIVE member. Routing goes to
the next committed member, and stays there when the failure ends: it reaches the same member exactly
if that one is ACTIVE. -/
theorem failure_recovered_by_active
    (h : FailureBatch source before confirmed plan failed active after)
    (hne : plan.ownerChanges ≠ []) (t : Token) :
    ∃ owner, locateIndexedOwner (tokenIndex counted before.state.members) t = .ok owner ∧
      (owner.state ≠ .failed → ∃ m, locateOwner before t = .ok m ∧ m.identity = owner.identity) ∧
      (owner.identity ∉ confirmed → ∀ c ∈ plan.ownerChanges, ¬Covers c.ranges t) ∧
      (owner.identity ∈ confirmed → ∃ target routed,
        locateIndexedOwner (tokenIndex recovering failed.state.members) t = .ok target ∧
        locateOwner failed t = .ok routed ∧
        (∃ m, locateOwner after t = .ok m ∧ m.identity = routed.identity) ∧
        (∃! c, c ∈ plan.ownerChanges ∧ Covers c.ranges t) ∧
        (∀ c ∈ plan.ownerChanges, Covers c.ranges t →
          c.source = some owner.identity ∧ c.target = target.identity) ∧
        (target.identity = routed.identity ↔ routed.state = .active)) := by
  obtain ⟨F, T, _, hrings, hchanges⟩ := h.rings hne
  have hends : ∀ c ∈ plan.ownerChanges, Covers c.ranges t →
      c.source = some (ownerAt F t) ∧ c.target = ownerAt T t := by
    intro c hc hcovers
    rw [hchanges] at hc
    exact ends_of_covers hrings.old.sound hrings.recovery.sound (mem_filter.mp hc).1 hcovers
  obtain ⟨owner, hmem, hloc, hi⟩ := hrings.old.locateIndexedOwner t
  refine ⟨owner, hloc, locateOwner_of_counted hrings.old hmem hi, ?_, ?_⟩
  · intro hout c hc hcovers
    obtain ⟨hs, -⟩ := hends c hc hcovers
    rw [hchanges] at hc
    have hany := (mem_filter.mp hc).2
    rw [hs, ← hi] at hany
    exact hout ((hrings.listed owner hmem).mp (by simpa using hany))
  · intro hconfirmed
    obtain ⟨target, -, htarget, hti⟩ := hrings.recovery.locateIndexedOwner t
    obtain ⟨routed, hrouted, hlocate, hri⟩ := hrings.routed.locateIndexedOwner t
    refine ⟨target, routed, htarget, hlocate, ?_, ?_, ?_, ?_⟩
    · rw [hri]
      exact locateOwner_of_ring hrings.new t
    · rw [hchanges]
      refine existsUnique_recovery_change hrings ?_
      rw [← hi]
      exact (hrings.listed owner hmem).mpr hconfirmed
    · rw [hi, hti]
      exact hends
    · rw [hti]
      exact recovery_eq_routed_iff failed.validTopology.members.addresses_nodup hrings.recovery
        hrings.routed hrouted hri

end

/-! ## Three workers -/

def thirdIdentity : MemberIdentity := ⟨List.replicate memberIdSize 7, ascii "10.0.0.102:31501"⟩

/-- Three workers with one token each, the third of which asked to leave. -/
def trioTopology (version : Nat) (batch : Option ActiveBatch) (right : MemberState) :
    TopologyState :=
  { clusterHasInit := true
    version := version
    members :=
      [⟨leftIdentity, .active, [100], []⟩, ⟨rightIdentity, right, [200], []⟩,
        ⟨thirdIdentity, .preLeaving, [300], []⟩]
    activeBatch := batch }

def trioBefore : TopologySnapshot := snapshotOf (trioTopology 4 none .active) rfl

def trioFailed : TopologySnapshot :=
  snapshotOf (trioTopology 5 (some ⟨.failure, 5⟩) .failed) rfl

def trioAfter : TopologySnapshot :=
  snapshotOf
    { clusterHasInit := true
      version := 6
      members :=
        [⟨leftIdentity, .active, [100], []⟩, ⟨thirdIdentity, .preLeaving, [300], []⟩] } rfl

/-- The left worker recovers what the right one owned. -/
def trioPlan : TopologyPlan :=
  ⟨trioTopology 5 (some ⟨.failure, 5⟩) .failed,
    [⟨some rightIdentity, leftIdentity, [⟨101, 200⟩]⟩]⟩

/-- The right worker fails and nothing else happens until the failure ends. -/
theorem trio_failure : FailureBatch pairSource trioBefore [rightIdentity] trioPlan trioFailed
    trioFailed trioAfter where
  start := by decide +kernel
  commit := ⟨[], by simp, create_snapshotOf _⟩
  continues := .refl
  final := ⟨_, rfl, create_snapshotOf _⟩

theorem trio_recovered : ∃! c, c ∈ trioPlan.ownerChanges ∧ Covers c.ranges 150 := by
  obtain ⟨owner, howner, -, -, h⟩ := failure_recovered_by_active trio_failure (by decide) 150
  have hright : owner.identity = rightIdentity := by
    obtain rfl := Except.ok.inj howner
    decide +kernel
  obtain ⟨_, _, -, -, -, hunique, -⟩ := h (hright ▸ mem_singleton_self _)
  exact hunique

/-- The left worker recovers token 150, but the third one is routed to, now and afterwards. -/
theorem trio_recovery_not_routed :
    FailureBatch pairSource trioBefore [rightIdentity] trioPlan trioFailed trioFailed trioAfter ∧
      trioPlan.ownerChanges = [⟨some rightIdentity, leftIdentity, [⟨101, 200⟩]⟩] ∧
      (locateOwner trioBefore 150).map Member.identity = .ok rightIdentity ∧
      (locateOwner trioFailed 150).map Member.identity = .ok thirdIdentity ∧
      (locateOwner trioAfter 150).map Member.identity = .ok thirdIdentity ∧
      leftIdentity ≠ thirdIdentity :=
  ⟨trio_failure, rfl, by decide +kernel, by decide +kernel, by decide +kernel, by decide⟩

end Datasystem.Cluster
