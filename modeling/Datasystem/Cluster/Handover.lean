import Datasystem.Cluster.BatchDerivation

/-! How ownership passes from the owners before an ordinary batch to those after it.
The ring that a scale-out or scale-in plans from is the committed ring until the
batch ends, and the ring it plans to is the prospective ring meanwhile and the
committed one afterwards. -/

namespace Datasystem.Cluster

open Common HashRingToken Lib.Checked Lib.Spans HashAlgorithm TopologyPlanBuilder TopologyController
open TopologySnapshot MemberIdentity

/-! ## Who counts in a snapshot -/

/-- Members that own what their tokens say. -/
def committed (m : Member) : Bool := isCommittedMemberState m.state

/-- Members that will own what their tokens say once a batch of this type is over. -/
def prospective : TopologyChangeType → Member → Bool
  | .scaleOut, m => isCommittedMemberState m.state || m.state == .joining
  | .scaleIn, m => isCommittedMemberState m.state && m.state != .leaving
  | .failure, _ => false

variable {m : Member} {type : TopologyChangeType} {s latest : TopologyState} {ring : OwnerRing}
  {plan : TopologyPlan}

theorem committed_not_initial (h : committed m) : m.state ≠ .initial := by
  intro hs
  simp [committed, hs, isCommittedMemberState] at h

theorem prospective_not_initial (h : prospective type m) : m.state ≠ .initial := by
  intro hs
  cases type <;> simp [prospective, hs, isCommittedMemberState] at h

theorem Kept.prospective {m'} (h : Kept m m') (type : TopologyChangeType) :
    Cluster.prospective type m' = Cluster.prospective type m := by
  rcases h.state with heq | ⟨ha, hp⟩
  · cases type <;> simp only [Cluster.prospective, heq]
  · cases type <;> simp only [Cluster.prospective, ha, hp] <;> rfl

/-- Commits within a batch leave a ring as it is, unless INITIAL members count. -/
theorem Steady.ownedIn {s'} (h : Steady s s') {p} (hkept : ∀ m m', Kept m m' → p m' = p m)
    (hinitial : ∀ m, p m → m.state ≠ .initial) (o) :
    OwnedIn p s.members o ↔ OwnedIn p s'.members o := by
  constructor
  · intro howned
    obtain ⟨m, hm, hp, ht, hi⟩ := howned
    obtain ⟨m', hm', hk⟩ := h.forward m hm (hinitial m hp)
    exact ⟨m', hm', (hkept m m' hk).trans hp, hk.tokens.symm ▸ ht, hk.identity.trans hi⟩
  · intro howned
    obtain ⟨m', hm', hp, ht, hi⟩ := howned
    obtain ⟨m, hm, hk⟩ := h.backward m' hm' (hinitial m' hp)
    exact ⟨m, hm, (hkept m m' hk).symm.trans hp, hk.tokens ▸ ht, hk.identity.symm.trans hi⟩

theorem locateOwner_of_ring {snapshot} (h : RingOf committed snapshot.state.members ring) (t) :
    ∃ m, locateOwner snapshot t = .ok m ∧ m.identity = ownerAt ring t := by
  obtain ⟨m, -, hm, hi⟩ := h.locateIndexedOwner t
  exact ⟨m, hm, hi⟩

theorem locateProspectiveOwner_of_ring {snapshot} {batch}
    (hb : snapshot.state.activeBatch = some batch)
    (h : RingOf (prospective batch.type) snapshot.state.members ring) (t) :
    ∃ m, locateProspectiveOwner snapshot t = .ok m ∧ m.identity = ownerAt ring t := by
  have hindex : snapshot.prospectiveTokenOwners =
      tokenIndex (prospective batch.type) snapshot.state.members := by
    have hp : (fun m : Member => isProspective m.state snapshot.state.activeBatch) =
        prospective batch.type := by
      funext m
      rw [hb, isProspective]
      cases hs : batch.type <;> rfl
    rw [prospectiveTokenOwners, hp]
  obtain ⟨m, -, hm, hi⟩ := h.locateIndexedOwner t
  refine ⟨m, ?_, hi⟩
  -- the index has an entry, or nothing would have been found
  have hne : ¬snapshot.prospectiveTokenOwners.isEmpty := by
    rw [hindex, List.isEmpty_iff]
    intro hnil
    rw [hnil] at hm
    cases hm
  rw [locateProspectiveOwner, if_neg hne, hindex]
  exact hm

theorem ringOf_committed {members} (hv : ValidMembers members)
    (h : buildOwners members false [] false = .ok ring) : RingOf committed members ring :=
  (ringOf_buildOwners hv h).congr fun o => by simp [OwnedIn, isEligible, committed]

theorem ringOf_prospective_scaleOut {members} (hv : ValidMembers members)
    (h : buildOwners members true [] false = .ok ring) :
    RingOf (prospective .scaleOut) members ring :=
  (ringOf_buildOwners hv h).congr fun o => by simp [OwnedIn, isEligible, prospective]

/-- Rings of the started batch are rings of every snapshot of the batch. -/
theorem Steady.rings {s'} (h : Steady s s') {F T} (hF : RingOf committed s.members F)
    (hT : RingOf (prospective type) s.members T) :
    RingOf committed s'.members F ∧ RingOf (prospective type) s'.members T :=
  ⟨hF.congr (h.ownedIn (fun _ _ hk => hk.committed) fun _ => committed_not_initial),
    hT.congr (h.ownedIn (fun _ _ hk => hk.prospective type) fun _ => prospective_not_initial)⟩

/-- The rings that a batch of this type starts with: `F` routes before the batch and within it, and
`T` is what it plans to. -/
structure StartedRings (type : TopologyChangeType) (latest next : TopologyState)
    (F T : OwnerRing) : Prop where
  batch : ∃ b, next.activeBatch = some b ∧ b.type = type
  old : RingOf committed latest.members F
  kept : RingOf committed next.members F
  planned : RingOf (prospective type) next.members T

theorem scaleOutStart_rings {selected} (hv : ValidMembers latest.members)
    (h : buildScaleOutStart latest selected = .ok plan) :
    ∃ F T, plan.ownerChanges = diffOwners F T ∧ StartedRings .scaleOut latest plan.next F T := by
  obtain ⟨-, -, -, -, hinitial, joined, hjoined, -, -, hvn, hnext, F, hF, T, hT, hchanges⟩ :=
    buildScaleOutStart_spec h fun m hm => hv.address m (mem_removeMembers.mp hm).1
  set kept := removeMembers latest.members (selected.map address) with hkept
  have hmembers : plan.next.members = kept ++ joined := by rw [hnext]; rfl
  rw [← hmembers] at hvn
  have hring : RingOf committed kept F := by
    refine ringOf_committed ?_ hF
    rw [hkept, removeMembers_eq_restate]
    exact hv.restate _
  refine ⟨F, T, hchanges, ⟨_, by rw [hnext]; rfl, rfl⟩, hring.congr fun o => ?_,
    hring.congr fun o => ?_, ringOf_prospective_scaleOut hvn hT⟩
  · -- whoever was selected is INITIAL and owned nothing
    rw [hkept, removeMembers_eq_restate]
    refine (ownedIn_restate (fun m hm => ?_) o).symm
    constructor
    · intro hc
      refine ⟨m.state, if_neg fun ha => ?_, hc⟩
      obtain ⟨i, hi, hia⟩ := List.mem_map.mp ha
      obtain ⟨_, hm', rfl, hs⟩ := hinitial i hi
      rw [eq_of_address_eq hv.addresses_nodup hm' hm hia] at hs
      exact committed_not_initial hc hs
    · intro hc
      obtain ⟨_, hst, hc⟩ := hc
      obtain ⟨-, rfl⟩ := forget_eq_some.mp hst
      exact hc
  · -- whoever joins owns nothing yet
    have hnone : ∀ m ∈ joined, ¬committed m := fun m hm => by
      simp [committed, (hjoined m hm).1, isCommittedMemberState]
    simp only [hmembers, OwnedIn, List.mem_append]
    constructor
    · rintro ⟨m, hm, hrest⟩
      exact ⟨m, .inl hm, hrest⟩
    · rintro ⟨m, hm | hm, hc, hrest⟩
      · exact ⟨m, hm, hc, hrest⟩
      · exact absurd hc (hnone m hm)

theorem scaleOutFinal_ring {next} (h : buildScaleOutFinal latest = .ok next)
    (hring : RingOf (prospective .scaleOut) latest.members ring) :
    RingOf committed next.members ring := by
  obtain ⟨-, rfl⟩ := buildScaleOutFinal_spec h
  refine hring.congr fun o => ownedIn_restate (fun m _ => ?_) o
  simp only [activate, Option.some.injEq, exists_eq_left', prospective, committed,
    Member.withState_state]
  cases m.state <;> decide

theorem scaleInStart_rings {selected} (hv : ValidTopology latest)
    (h : buildScaleInStart latest selected = .ok plan) :
    ∃ F T, plan.ownerChanges = diffOwners F T ∧ StartedRings .scaleIn latest plan.next F T := by
  obtain ⟨-, hstable, -, hselected, hnext, F, hF, T, hT, hchanges⟩ :=
    buildScaleInStart_spec h hv.members.addresses_nodup
  have hring := ringOf_committed hv.members hF
  have hmembers : plan.next.members =
      restate (leave (selected.map address)) latest.members := by rw [hnext]; rfl
  have hstates := (batchStates_none hstable).mp hv.batchStates
  have hleaving : ∀ m ∈ latest.members, m.address ∈ selected.map address → m.state = .preLeaving :=
    state_of_listed (· = .preLeaving) hv.members.addresses_nodup fun i hi => by
      obtain ⟨m, hm, rfl, hs⟩ := hselected i hi
      exact ⟨m, hm, rfl, hs⟩
  refine ⟨F, T, hchanges, ⟨_, by rw [hnext]; rfl, rfl⟩, hring, ?_, ?_⟩
  · rw [hmembers]
    refine hring.congr fun o => ownedIn_restate (fun m hm => ?_) o
    simp only [leave, Option.some.injEq, exists_eq_left', committed, Member.withState_state]
    split
    · rw [hleaving m hm ‹_›]
      decide
    · rfl
  · rw [hmembers]
    refine (ringOf_buildOwners hv.members hT).congr fun o => ownedIn_restate (fun m hm => ?_) o
    have hstable : isTransitional m.state = false := by simpa using hstates m hm
    simp only [leave, Option.some.injEq, exists_eq_left', prospective, Member.withState_state]
    by_cases ha : m.address ∈ selected.map address
    · simp [ha]
    · simp only [ha, not_false_eq_true, decide_true, Bool.and_true, if_false]
      revert hstable
      cases m.state <;> decide

theorem scaleInFinal_ring {next} (hn : (latest.members.map Member.address).Nodup)
    (h : buildScaleInFinal latest = .ok next)
    (hring : RingOf (prospective .scaleIn) latest.members ring) :
    RingOf committed next.members ring := by
  obtain ⟨-, rfl⟩ := buildScaleInFinal_spec h hn
  refine hring.congr fun o => ownedIn_restate (fun m _ => ?_) o
  constructor
  · intro hp
    simp only [prospective, Bool.and_eq_true, bne_iff_ne] at hp
    exact ⟨m.state, discard_eq_some.mpr ⟨hp.2, rfl⟩, hp.1⟩
  · intro hc
    obtain ⟨_, hst, hc⟩ := hc
    obtain ⟨hne, rfl⟩ := discard_eq_some.mp hst
    exact Bool.and_eq_true_iff.mpr ⟨hc, bne_iff_ne.mpr hne⟩

/-! ## Ordinary batches -/

/-- An ordinary batch from start to end: planned on a valid topology, committed, followed by any
commits that keep its epoch, and ended. -/
inductive OrdinaryBatch (source : MembershipSource) : TopologyChangeType → TopologySnapshot →
    TopologyPlan → TopologySnapshot → TopologySnapshot → Prop
  | scaleOut {latest next : TopologyState} {selected : List MemberIdentity} {plan : TopologyPlan}
      {before started active after : TopologySnapshot}
      (hbefore : create latest = .ok before)
      (hstart : buildScaleOutStart latest selected = .ok plan)
      (hstarted : create plan.next = .ok started)
      (hactive : Continues source started.state active.state)
      (hfinal : buildScaleOutFinal active.state = .ok next)
      (hafter : create next = .ok after) :
      OrdinaryBatch source .scaleOut before plan active after
  | scaleIn {latest next : TopologyState} {selected : List MemberIdentity} {plan : TopologyPlan}
      {before started active after : TopologySnapshot}
      (hbefore : create latest = .ok before)
      (hstart : buildScaleInStart latest selected = .ok plan)
      (hstarted : create plan.next = .ok started)
      (hactive : Continues source started.state active.state)
      (hfinal : buildScaleInFinal active.state = .ok next)
      (hafter : create next = .ok after) :
      OrdinaryBatch source .scaleIn before plan active after

/-- The two rings of a plan and the snapshots in which they are the routing rings. -/
structure PlannedRings (type : TopologyChangeType) (before active after : TopologySnapshot)
    (F T : OwnerRing) : Prop where
  batch : ∃ b, active.state.activeBatch = some b ∧ b.type = type
  old : RingOf committed before.state.members F
  kept : RingOf committed active.state.members F
  planned : RingOf (prospective type) active.state.members T
  new : RingOf committed after.state.members T

theorem OrdinaryBatch.rings {source} {before active after}
    (h : OrdinaryBatch source type before plan active after) :
    ∃ F T, plan.ownerChanges = diffOwners F T ∧ PlannedRings type before active after F T := by
  -- both kinds of batch differ only in how they start and end
  have hrun : ∀ {latest next final : TopologyState} {started : TopologySnapshot} {F T : OwnerRing},
      create latest = .ok before → StartedRings type latest next F T →
      create next = .ok started → Continues source started.state active.state →
      (RingOf (prospective type) active.state.members T → RingOf committed final.members T) →
      create final = .ok after → PlannedRings type before active after F T := by
    intro latest next final started F T hbefore hrings hstarted hactive hfinal hafter
    obtain ⟨-, hbefore⟩ := create_eq_ok.mp hbefore
    obtain ⟨-, hstarted⟩ := create_eq_ok.mp hstarted
    obtain ⟨-, hafter⟩ := create_eq_ok.mp hafter
    have hsteady := (hactive.steady started.validTopology).1
    rw [← hstarted] at hsteady
    have hF := hrings.kept.congr fun o => ownedIn_canonicalize.symm
    have hT := hrings.planned.congr fun o => ownedIn_canonicalize.symm
    obtain ⟨hFa, hTa⟩ := hsteady.rings hF hT
    refine ⟨?_, ?_, hFa, hTa, ?_⟩
    · rw [hsteady.batch]
      exact hrings.batch
    · rw [← hbefore]
      exact hrings.old.congr fun o => ownedIn_canonicalize.symm
    · rw [← hafter]
      exact (hfinal hTa).congr fun o => ownedIn_canonicalize.symm
  cases h with
  | scaleOut hbefore hstart hstarted hactive hfinal hafter =>
    have hv := (create_eq_ok.mp hbefore).1
    obtain ⟨F, T, hchanges, hrings⟩ := scaleOutStart_rings hv.members hstart
    exact ⟨F, T, hchanges, hrun hbefore hrings hstarted hactive (scaleOutFinal_ring hfinal) hafter⟩
  | scaleIn hbefore hstart hstarted hactive hfinal hafter =>
    have hv := (create_eq_ok.mp hbefore).1
    obtain ⟨F, T, hchanges, hrings⟩ := scaleInStart_rings hv hstart
    exact ⟨F, T, hchanges, hrun hbefore hrings hstarted hactive
      (scaleInFinal_ring active.validTopology.members.addresses_nodup hfinal) hafter⟩

/-! ## Who takes over from whom -/

/-- The change goes from a member in a state `p` to one in a state `q`. -/
def Connects (members : List Member) (p q : MemberState → Prop) (c : TopologyOwnerChange) : Prop :=
  ∃ source target, Moves members source target c ∧ p source.state ∧ q target.state

/-- Whom a batch of this type moves ownership from and to. -/
def HandsOver (type : TopologyChangeType) (members : List Member)
    (changes : List TopologyOwnerChange) : Prop :=
  match type with
  | .scaleOut =>
    (∀ c ∈ changes, Connects members (fun st => isCommittedMemberState st) (· = .joining) c) ∧
      ∀ m ∈ members, m.state = .joining → m.tokens ≠ [] → ∃ c ∈ changes, c.target = m.identity
  | .scaleIn =>
    ∀ c ∈ changes, Connects members (· = .leaving)
      (fun st => isCommittedMemberState st ∧ st ≠ .leaving) c
  | .failure => False

theorem PlannedRings.handsOver {before active after} {F T}
    (h : PlannedRings type before active after F T) (htype : type ≠ .failure) :
    HandsOver type active.state.members (diffOwners F T) := by
  have hn := active.validTopology.members.addresses_nodup
  cases type with
  | failure => exact htype rfl
  | scaleIn =>
    intro c hc
    obtain ⟨source, target, hmoves, hs, hnot, ht⟩ := exists_moves_lost hn h.kept h.planned
      (fun m _ hm => (Bool.and_eq_true_iff.mp hm).1) hc
    refine ⟨source, target, hmoves, ?_, by simpa [prospective] using ht⟩
    simp only [committed] at hs
    simpa [prospective, hs] using hnot
  | scaleOut =>
    refine ⟨fun c hc => ?_, fun m hm hs hne => ?_⟩
    · obtain ⟨source, target, hmoves, hs, ht, hnot⟩ := exists_moves_gained hn h.kept h.planned
        (fun m _ hm => Bool.or_eq_true_iff.mpr (.inl hm)) hc
      refine ⟨source, target, hmoves, hs, ?_⟩
      simp only [committed, Bool.not_eq_true] at hnot
      simpa [prospective, hnot] using ht
    · -- a joining member takes its own tokens over
      obtain ⟨t, ht⟩ := List.exists_mem_of_ne_nil _ hne
      have htarget := h.planned.ownerAt_token hm (by simp [prospective, hs]) ht
      obtain ⟨_, howner, hcommitted, -, hi⟩ := h.kept.exists_owner t
      have hdiff : ownerAt F t ≠ ownerAt T t := by
        rw [← hi, htarget]
        intro he
        have heq := eq_of_address_eq hn howner hm (congrArg address he)
        simp [committed, heq, hs, isCommittedMemberState] at hcommitted
      obtain ⟨c, hc, hcovers⟩ := exists_change h.kept.sound h.planned.sound hdiff
      obtain ⟨_, hchange⟩ := isChange_of_mem h.kept.sound h.planned.sound hc
      exact ⟨c, hc, ((hchange.covers t).mp hcovers).2.symm.trans htarget⟩

/-- **Ordinary batches hand ownership over as planned.** A token is in exactly one owner change
precisely when its owner differs before and after the batch, and the change names these owners.
Until the batch ends the old owner is routed to and the new one is the prospective owner. -/
theorem ordinary_batch_handover {source : MembershipSource} {type : TopologyChangeType}
    {before active after : TopologySnapshot} {plan : TopologyPlan}
    (h : OrdinaryBatch source type before plan active after) :
    (∀ t, ∃ old new, locateOwner before t = .ok old ∧ locateOwner after t = .ok new ∧
      ((∃! c, c ∈ plan.ownerChanges ∧ Covers c.ranges t) ↔ old.identity ≠ new.identity) ∧
      (∀ c ∈ plan.ownerChanges, Covers c.ranges t →
        c.source = some old.identity ∧ c.target = new.identity) ∧
      (∃ m, locateOwner active t = .ok m ∧ m.identity = old.identity) ∧
      ∃ m, locateProspectiveOwner active t = .ok m ∧ m.identity = new.identity) ∧
    plan.ownerChanges.Nodup ∧ HandsOver type active.state.members plan.ownerChanges := by
  have htype : type ≠ .failure := by cases h <;> nofun
  obtain ⟨_, _, hchanges, hrings⟩ := h.rings
  have hF := hrings.kept.sound
  have hT := hrings.planned.sound
  rw [hchanges]
  refine ⟨fun t => ?_, diffOwners_nodup hF hT, hrings.handsOver htype⟩
  obtain ⟨old, hold, hio⟩ := locateOwner_of_ring hrings.old t
  obtain ⟨new, hnew, hin⟩ := locateOwner_of_ring hrings.new t
  obtain ⟨_, hb, hbt⟩ := hrings.batch
  refine ⟨old, new, hold, hnew, ?_, fun c hc hcovers => ?_, ?_, ?_⟩
  · rw [hio, hin]
    exact existsUnique_change_iff hF hT t
  · rw [hio, hin]
    exact ends_of_covers hF hT hc hcovers
  · rw [hio]
    exact locateOwner_of_ring hrings.kept t
  · rw [hin]
    exact locateProspectiveOwner_of_ring hb (hbt ▸ hrings.planned) t

/-- The tokens of two workers in a ring with one token each. -/
def sampleTokens : WorkerTokens × WorkerTokens := (⟨[100], []⟩, ⟨[200], []⟩)

/-- A state that the validator accepts as it is. -/
def snapshotOf (s : TopologyState) (h : validateAndCanonicalizeTopologyState s = .ok s) :
    TopologySnapshot := ⟨s, h⟩

theorem create_snapshotOf (h : validateAndCanonicalizeTopologyState s = .ok s) :
    create s = .ok (snapshotOf s h) :=
  create_eq_ok.mpr (validate_eq_ok_iff.mp h)

def pairJoining : TopologySnapshot :=
  snapshotOf (pairTopology 5 (some ⟨.scaleOut, 5⟩) .active .joining sampleTokens) rfl

def pairBefore : TopologySnapshot :=
  snapshotOf (pairTopology 4 none .active .preLeaving sampleTokens) rfl

def pairLeaving : TopologySnapshot :=
  snapshotOf (pairTopology 5 (some ⟨.scaleIn, 5⟩) .active .leaving sampleTokens) rfl

def pairAfter : TopologySnapshot :=
  snapshotOf
    { clusterHasInit := true
      version := 6
      members := [⟨leftIdentity, .active, [100], []⟩] } rfl

/-- The right worker owns the tokens from 101 to 200 and hands them to the left one. -/
def pairPlan : TopologyPlan :=
  ⟨pairLeaving.state, [⟨some rightIdentity, leftIdentity, [⟨101, 200⟩]⟩]⟩

theorem pair_start : buildScaleInStart pairBefore.state [rightIdentity] = .ok pairPlan := by
  decide +kernel

/-- The right one of two workers leaves. -/
theorem pair_handover :
    OrdinaryBatch pairSource .scaleIn pairBefore pairPlan pairLeaving pairAfter ∧
      HandsOver .scaleIn pairLeaving.state.members pairPlan.ownerChanges := by
  have hfinal : buildScaleInFinal pairLeaving.state = .ok pairAfter.state := rfl
  have hbatch : OrdinaryBatch pairSource .scaleIn pairBefore pairPlan pairLeaving pairAfter :=
    .scaleIn (create_snapshotOf _) pair_start (create_snapshotOf _) .refl hfinal
      (create_snapshotOf _)
  exact ⟨hbatch, (ordinary_batch_handover hbatch).2.2⟩

end Datasystem.Cluster
