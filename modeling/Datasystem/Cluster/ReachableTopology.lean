import Datasystem.Cluster.TransitionRefinement

/-! The states a topology key can hold: what controllers commit, one after the
other, on top of the empty topology. -/

namespace Datasystem.Cluster

open Common Lib Sorting TopologyController

/-- The topology a new cluster starts from. -/
def emptyTopology : TopologyState := { version := 1 }

/-- One commit: a controller in either mode proposes a candidate on top of the latest state,
and the store keeps it in address order. The only limits are those of the stored form: a
version is a signed 64-bit number and an address has at most 1024 bytes. -/
inductive Commit (source : MembershipSource) (latest : TopologyState) : TopologyState → Prop
  | mk (options : TopologyControllerOptions) {next : TopologyState}
      (htransition : Transition source options latest next) (hversion : next.version ≤ int64Max)
      (haddresses : ∀ m ∈ next.members, m.address.length ≤ maxMemberAddressBytes) :
      Commit source latest (canonicalize next)

def Reachable (source : MembershipSource) (s : TopologyState) : Prop :=
  Relation.ReflTransGen (Commit source) emptyTopology s

variable {source : MembershipSource} {s : TopologyState}

theorem WellFormed.canonicalize (h : WellFormed source s) : WellFormed source (canonicalize s) where
  version := h.version
  tokensPerMember := h.tokensPerMember
  epoch := h.epoch
  populated :=
    { valid := h.populated.valid.of_perm (sortBy_perm _ _).symm
      placed := fun m hm => h.populated.placed m (mem_canonicalize_members.mp hm)
      blank := fun m hm => h.populated.blank m (mem_canonicalize_members.mp hm)
      generated := fun m hm => h.populated.generated m (mem_canonicalize_members.mp hm) }
  batchStates := h.validTopology.canonicalize.batchStates
  separate := by simpa using h.separate
  owner := by simpa using h.owner

theorem wellFormed_emptyTopology (source) : WellFormed source emptyTopology where
  version := by simp [emptyTopology, int64Max]
  tokensPerMember := by decide
  epoch := by simp [emptyTopology]
  populated := .nil _ _
  batchStates := (batchStates_none rfl).mpr (by simp [emptyTopology])
  separate := by simp [emptyTopology]
  owner := by simp [emptyTopology]

theorem Commit.wellFormed {s'}
    (hc : Commit source s s') (h : WellFormed source s) : WellFormed source s' := by
  obtain ⟨_, htransition, hversion, haddresses⟩ := hc
  exact ((htransition.evolution h).wellFormed h hversion haddresses).canonicalize

theorem Reachable.wellFormed (h : Reachable source s) : WellFormed source s := by
  induction h with
  | refl => exact wellFormed_emptyTopology source
  | tail _ hc ih => exact hc.wellFormed ih

theorem Reachable.sorted
    (h : Reachable source s) : s.members.Pairwise fun a b => a.address < b.address := by
  cases h with
  | refl => simp [emptyTopology]
  | tail hr hc =>
    obtain ⟨_, htransition, hversion, haddresses⟩ := hc
    have hwr := Reachable.wellFormed hr
    have hw := (htransition.evolution hwr).wellFormed hwr hversion haddresses
    exact canonicalize_sorted hw.populated.valid

/-- The validator accepts a committed topology as it is. -/
theorem Reachable.accepted
    (h : Reachable source s) : validateAndCanonicalizeTopologyState s = .ok s :=
  validate_eq_ok_iff.mpr ⟨h.wellFormed.validTopology, canonicalize_of_sorted h.sorted⟩

/-- The snapshot a reader builds from a committed topology. -/
def Reachable.snapshot {source : MembershipSource} {s : TopologyState} (h : Reachable source s) :
    TopologySnapshot :=
  ⟨s, h.accepted⟩

/-- A candidate with its members in address order is committed as it is. -/
theorem Commit.of_sorted (options) {s'} (h : Transition source options s s')
    (hsorted : s'.members.Pairwise fun a b => a.address < b.address)
    (hversion : s'.version ≤ int64Max)
    (haddresses : ∀ m ∈ s'.members, m.address.length ≤ maxMemberAddressBytes) :
    Commit source s s' := by
  have hcommit := Commit.mk options h hversion haddresses
  rwa [canonicalize_of_sorted hsorted] at hcommit

/-- **Every committed topology is accepted by the validator as it is**: members are well formed
and distinct, their states agree with the batch, and the epoch is not ahead of the version. Nobody
joins while somebody leaves, and exactly the INITIAL members hold no tokens. -/
theorem reachable_topology_accepted {source : MembershipSource} {s : TopologyState}
    (h : Reachable source s) :
    validateAndCanonicalizeTopologyState s = .ok s ∧
      ¬((∃ m ∈ s.members, m.state = .joining) ∧ ∃ m ∈ s.members, m.state = .leaving) ∧
      ∀ m ∈ s.members, m.tokens.length = if m.state = .initial then 0 else s.tokensPerMember := by
  have hw := h.wellFormed
  refine ⟨h.accepted, ?_, ?_⟩
  · rintro ⟨hjoining, m, hm, hleaving⟩
    exact hw.separate hjoining m hm hleaving
  · intro m hm
    split
    · rename_i hs
      rw [(hw.populated.blank m hm hs).1, List.length_nil]
    · rename_i hs
      exact (hw.populated.placed m hm hs).length_tokens

/-! Commits made while a batch is active. A commit that keeps the epoch only adds
or drops INITIAL members and lets ACTIVE members ask to leave: whoever owns tokens
keeps them, and the participants of the batch stay as they are. -/

open HashRingToken Lib.Checked TopologyPlanBuilder TopologyState

/-- The batch of `s` goes on in `s'` under its epoch. -/
def SameEpoch (s s' : TopologyState) : Prop :=
  ∃ b ∈ s.activeBatch, ∃ b' ∈ s'.activeBatch, b'.epoch = b.epoch

/-- What a member keeps: `m'` is `m`, except that it may have asked to leave meanwhile. -/
structure Kept (m m' : Member) : Prop where
  identity : m'.identity = m.identity
  tokens : m'.tokens = m.tokens
  overrides : m'.tokenSeedOverrides = m.tokenSeedOverrides
  state : m'.state = m.state ∨ m.state = .active ∧ m'.state = .preLeaving

theorem Kept.refl (m) : Kept m m := ⟨rfl, rfl, rfl, .inl rfl⟩

variable {m m' : Member} {s s' : TopologyState} {source : MembershipSource}

theorem Kept.trans {m''} (h : Kept m m') (h' : Kept m' m'') : Kept m m'' where
  identity := h'.identity.trans h.identity
  tokens := h'.tokens.trans h.tokens
  overrides := h'.overrides.trans h.overrides
  state := by
    rcases h.state with heq | ⟨ha, hp⟩
    · rw [← heq]
      exact h'.state
    · rcases h'.state with heq' | ⟨ha', -⟩
      · exact .inr ⟨ha, heq'.trans hp⟩
      · rw [hp] at ha'
        cases ha'

theorem Kept.committed (h : Kept m m') :
    isCommittedMemberState m'.state = isCommittedMemberState m.state := by
  rcases h.state with heq | ⟨ha, hp⟩
  · rw [heq]
  · rw [ha, hp]
    rfl

theorem Kept.state_eq_iff (h : Kept m m') {st}
    (hst : st ≠ .active ∧ st ≠ .preLeaving) : m'.state = st ↔ m.state = st := by
  rcases h.state with heq | ⟨ha, hp⟩
  · rw [heq]
  · rw [ha, hp]
    exact ⟨fun h => absurd h.symm hst.2, fun h => absurd h.symm hst.1⟩

/-- `s'` comes from `s` by commits that leave the batch as it is. -/
structure Steady (s s' : TopologyState) : Prop where
  batch : s'.activeBatch = s.activeBatch
  tokensPerMember : s'.tokensPerMember = s.tokensPerMember
  clusterHasInit : s'.clusterHasInit = s.clusterHasInit
  forward : ∀ m ∈ s.members, m.state ≠ .initial → ∃ m' ∈ s'.members, Kept m m'
  backward : ∀ m' ∈ s'.members, m'.state ≠ .initial → ∃ m ∈ s.members, Kept m m'

theorem Steady.refl (s) : Steady s s :=
  ⟨rfl, rfl, rfl, fun m hm _ => ⟨m, hm, .refl m⟩, fun m hm _ => ⟨m, hm, .refl m⟩⟩

theorem Steady.trans {s''} (h : Steady s s') (h' : Steady s' s'') : Steady s s'' where
  batch := h'.batch.trans h.batch
  tokensPerMember := h'.tokensPerMember.trans h.tokensPerMember
  clusterHasInit := h'.clusterHasInit.trans h.clusterHasInit
  forward := by
    intro m hm hi
    obtain ⟨m', hm', hk⟩ := h.forward m hm hi
    have hi' : m'.state ≠ .initial := fun he => hi ((hk.state_eq_iff (by decide)).mp he)
    obtain ⟨m'', hm'', hk'⟩ := h'.forward m' hm' hi'
    exact ⟨m'', hm'', hk.trans hk'⟩
  backward := by
    intro m'' hm'' hi
    obtain ⟨m', hm', hk'⟩ := h'.backward m'' hm'' hi
    have hi' : m'.state ≠ .initial := fun he => hi ((hk'.state_eq_iff (by decide)).mpr he)
    obtain ⟨m, hm, hk⟩ := h.backward m' hm' hi'
    exact ⟨m, hm, hk.trans hk'⟩

theorem Steady.of_canonicalize (h : Steady s s') : Steady s (canonicalize s') where
  batch := h.batch
  tokensPerMember := h.tokensPerMember
  clusterHasInit := h.clusterHasInit
  forward := by simpa using h.forward
  backward := by simpa using h.backward

/-! ## Which steps are steady -/

theorem kept_retire {moved} {st} (h : retire moved m = some st) : Kept m (m.withState st) where
  identity := rfl
  tokens := rfl
  overrides := rfl
  state := by
    rcases retire_eq_some h with rfl | ⟨ha, hp⟩
    · exact .inl rfl
    · exact .inr ⟨ha, hp⟩

theorem steady_admission (s) (moved) {added} (hadded : ∀ m ∈ added, m.state = .initial) :
    Steady s (s.advance (restate (retire moved) s.members ++ added) s.activeBatch) where
  batch := rfl
  tokensPerMember := rfl
  clusterHasInit := rfl
  forward := by
    intro m hm _
    have hretire : retire moved m = some _ := rfl
    exact ⟨_, List.mem_append_left _ (mem_restate.mpr ⟨m, hm, _, hretire, rfl⟩),
      kept_retire hretire⟩
  backward := by
    intro m' hm' hi
    rcases List.mem_append.mp hm' with hm' | hm'
    · obtain ⟨m, hm, _, hst, rfl⟩ := mem_restate.mp hm'
      exact ⟨m, hm, kept_retire hst⟩
    · exact absurd (hadded m' hm') hi

theorem steady_cleanup (s) {gone} (hgone : ∀ m ∈ s.members, m.address ∈ gone → m.state = .initial) :
    Steady s (s.advance (restate (forget gone) s.members) s.activeBatch) where
  batch := rfl
  tokensPerMember := rfl
  clusterHasInit := rfl
  forward := by
    intro m hm hi
    exact ⟨m, mem_restate_forget.mpr ⟨hm, fun hg => hi (hgone m hm hg)⟩, .refl m⟩
  backward := by
    intro m hm _
    exact ⟨m, (mem_restate_forget.mp hm).1, .refl m⟩

/-- Every batch of the state was started by the commit at version `v`. -/
def FreshEpoch (v : Nat) (s : TopologyState) : Prop := ∀ b ∈ s.activeBatch, b.epoch = v

theorem Evolution.version (h : Evolution source s s') : s'.version = s.version + 1 := by
  cases h <;> rfl

/-- The same identities take part in the batch of both states. -/
def SameParticipants (type : TopologyChangeType) (s s' : TopologyState) : Prop :=
  ∀ i, i ∈ membersInState s type.participant ↔ i ∈ membersInState s' type.participant

/-- The batch of `s` goes on in `s'`. -/
def SameBatch (s s' : TopologyState) : Prop :=
  s'.activeBatch = s.activeBatch ∧ ∀ b ∈ s.activeBatch, SameParticipants b.type s s'

theorem Steady.sameBatch (h : Steady s s') : SameBatch s s' := by
  refine ⟨h.batch, fun b _ i => ?_⟩
  obtain ⟨hinitial, howner⟩ : b.type.participant ≠ .initial ∧
      b.type.participant ≠ .active ∧ b.type.participant ≠ .preLeaving := by
    cases b.type <;> decide
  simp only [mem_membersInState]
  constructor
  · rintro ⟨m, hm, hs, rfl⟩
    obtain ⟨m', hm', hk⟩ := h.forward m hm (hs ▸ hinitial)
    exact ⟨m', hm', (hk.state_eq_iff howner).mpr hs, hk.identity⟩
  · rintro ⟨m', hm', hs, rfl⟩
    obtain ⟨m, hm, hk⟩ := h.backward m' hm' (hs ▸ hinitial)
    exact ⟨m, hm, (hk.state_eq_iff howner).mp hs, hk.identity.symm⟩

/-- A batch resumed when a failure ends is a new one. -/
theorem resumeAfterFailure_epoch {members} {version : Nat} {b}
    (h : (resumeAfterFailure members version).2 = some b) : b.epoch = version := by
  unfold resumeAfterFailure at h
  split at h
  · cases h
  · split at h
    · obtain rfl := Option.some.inj h
      rfl
    · split at h
      · obtain rfl := Option.some.inj h
        rfl
      · cases h

/-- A step is steady, or all batches it leaves are new. -/
theorem Evolution.steady
    (h : Evolution source s s') : Steady s s' ∨ FreshEpoch (s.version + 1) s' := by
  cases h with
  | shutdown | scaleOutFinal | scaleInFinal =>
    exact .inr (by simp [FreshEpoch, advance])
  | bootstrap => exact .inr (by simp [FreshEpoch])
  | admission moved hadded => exact .inl (steady_admission s moved fun m hm => (hadded m hm).1)
  | cleanup hgone => exact .inl (steady_cleanup s hgone)
  | scaleOutStart | scaleInStart =>
    exact .inr (by simp [FreshEpoch, advance, freshBatch])
  | scaleOutReplan =>
    refine .inr fun b hb => ?_
    simp only [advance, replannedBatch, freshBatch] at hb
    split at hb
    · obtain rfl := Option.some.inj hb
      rfl
    · cases hb
  | failure => exact .inr (by simp [FreshEpoch, advance, freshBatch])
  | failureFinal _ hresumed =>
    refine .inr fun b hb => ?_
    have hbatch := congrArg Prod.snd hresumed
    exact resumeAfterFailure_epoch (hbatch.trans hb)

/-- On a valid topology the epoch tells: a candidate that keeps it is steady. -/
theorem TopologyController.Transition.steady {options}
    {next} (hv : ValidTopology s) (h : Transition source options s next)
    (hepoch : SameEpoch s next) : Steady s next := by
  obtain ⟨b, hb, b', hb', heq⟩ := hepoch
  have hactive : s.activeBatch = some b := hb
  have hevolution := h.evolution_of_valid hv fun hnone => by simp [hactive] at hnone
  rcases hevolution.steady with hsteady | hfresh
  · exact hsteady
  · have hold := (hv.epoch b hb).2
    have hnew := hfresh b' hb'
    omega

/-! ## Runs -/

/-- `s'` is committed on top of `s` by commits that all keep the epoch. -/
inductive Continues (source : MembershipSource) (s : TopologyState) : TopologyState → Prop
  | refl : Continues source s s
  | commit (options : TopologyControllerOptions) {s' next : TopologyState}
      {snapshot : TopologySnapshot} (h : Continues source s s')
      (htransition : Transition source options s' next) (hepoch : SameEpoch s' next)
      (hcreate : TopologySnapshot.create next = .ok snapshot) :
      Continues source s snapshot.state

theorem Continues.steady
    (h : Continues source s s') (hv : ValidTopology s) : Steady s s' ∧ ValidTopology s' := by
  induction h with
  | refl => exact ⟨.refl s, hv⟩
  | commit _ _ htransition hepoch hcreate ih =>
    obtain ⟨hsteady, hv'⟩ := ih
    obtain ⟨hnext, hstate⟩ := TopologySnapshot.create_eq_ok.mp hcreate
    have hstep := (htransition.steady hv' hepoch).of_canonicalize
    rw [← hstate]
    exact ⟨hsteady.trans hstep, hnext.canonicalize⟩

end Datasystem.Cluster
