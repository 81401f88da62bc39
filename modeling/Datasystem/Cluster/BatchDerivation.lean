import Datasystem.Cluster.ReachableTopology
import Datasystem.Cluster.TaskDerivation
import Datasystem.Cluster.TokenSupply

/-! Whether the tasks of a committed batch can be derived from the topology. A
scale-out and a failure always can. A scale-in needs a member that takes over, and
the final of a failure may resume a scale-in after the last such member is gone. -/

namespace Datasystem.Cluster

open Common HashRingToken Lib Checked Sorting HashAlgorithm TopologyPlanBuilder TopologyController
open TopologyState
open TopologyTaskMaterializer

/-! ## Members that take over -/

def CanTakeOver (m : Member) : Prop := m.state = .active ∨ m.state = .preLeaving

/-- Some member can take over what leaving members own. -/
def HasTaker (s : TopologyState) : Prop := ∃ m ∈ s.members, CanTakeOver m

/-- A scale-in batch has a member that takes over. -/
def ScaleInServed (s : TopologyState) : Prop :=
  (∃ b ∈ s.activeBatch, b.type = .scaleIn) → HasTaker s

/-- A scale-in that is resumed when a failure ends has a member that takes over. -/
def ResumesServed (s s' : TopologyState) : Prop :=
  (∃ b ∈ s.activeBatch, b.type = .failure) → ScaleInServed s'

theorem canTakeOver_iff {m} :
    CanTakeOver m ↔ isCommittedMemberState m.state ∧ m.state ≠ .leaving := by
  unfold CanTakeOver
  cases m.state <;> simp [isCommittedMemberState]

variable {s : TopologyState} {source : MembershipSource}

theorem ScaleInServed.of_other (h : ∀ b ∈ s.activeBatch, b.type ≠ .scaleIn) : ScaleInServed s := by
  rintro ⟨b, hb, ht⟩
  exact absurd ht (h b hb)

/-- Every step but the end of a failure keeps a member that takes over. -/
theorem Evolution.scaleInServed {s'}
    (h : Evolution source s s') (hw : WellFormed source s) (hs : ScaleInServed s)
    (hresumes : ResumesServed s s') : ScaleInServed s' := by
  cases h with
  | shutdown | scaleOutFinal | scaleInFinal => exact .of_other (by simp [advance])
  | bootstrap => exact .of_other (by simp)
  | admission =>
    intro hb
    obtain ⟨m, hm, htake⟩ := hs hb
    refine ⟨_, List.mem_append_left _ (mem_restate.mpr ⟨m, hm, _, rfl, rfl⟩), ?_⟩
    split
    · exact .inr rfl
    · exact htake
  | cleanup hgone =>
    intro hb
    obtain ⟨m, hm, htake⟩ := hs hb
    refine ⟨m, (mem_restate_forget).mpr ⟨hm, fun hout => ?_⟩, htake⟩
    have hinitial := hgone m hm hout
    simp [CanTakeOver, hinitial] at htake
  | scaleOutStart | failure =>
    exact .of_other (by simp [advance, freshBatch])
  | scaleOutReplan =>
    refine .of_other ?_
    simp only [advance, replannedBatch, freshBatch]
    split <;> simp
  | scaleInStart hstable _ _ hstay =>
    intro _
    obtain ⟨m, hm, hcommitted, hout⟩ := hstay
    have hstates := (batchStates_none hstable).mp hw.batchStates m hm
    refine ⟨m.withState m.state, mem_restate.mpr ⟨m, hm, m.state, by simp [leave, hout], rfl⟩, ?_⟩
    refine canTakeOver_iff.mpr ⟨hcommitted, fun hleaving => ?_⟩
    rw [Member.withState_state] at hleaving
    simp [hleaving, isTransitional] at hstates
  | failureFinal hbatch => exact hresumes hbatch

/-- A well-formed batch is derived exactly if a scale-in has a member that takes over. -/
theorem plannable_iff (hw : WellFormed source s) {batch} (hb : s.activeBatch = some batch) :
    Plannable s batch.type ↔ ScaleInServed s := by
  have hcommitted : ∀ m ∈ s.members, isCommittedMemberState m.state → m.tokens ≠ [] := by
    intro m hm hc
    refine hw.tokens_ne_nil hm fun hs => ?_
    simp [hs, isCommittedMemberState] at hc
  obtain ⟨type, e⟩ := batch
  cases type with
  | scaleOut =>
    obtain ⟨m, hm, hc⟩ := hw.owner ⟨_, hb, rfl⟩
    exact iff_of_true ⟨m, hm, hc, hcommitted m hm hc⟩ (.of_other (by simp [hb]))
  | scaleIn =>
    constructor
    · rintro ⟨m, hm, hc, -⟩ _
      exact ⟨m, hm, canTakeOver_iff.mpr hc⟩
    · intro h
      obtain ⟨m, hm, htake⟩ := h ⟨_, hb, rfl⟩
      have hc := canTakeOver_iff.mp htake
      exact ⟨m, hm, hc, hcommitted m hm hc.1⟩
  | failure =>
    refine iff_of_true ?_ (.of_other (by simp [hb]))
    rintro ⟨m, hm, hs⟩
    exact ⟨m, hm, hs, hw.tokens_ne_nil hm (by simp [hs])⟩

/-! ## Runs -/

/-- A commit that does not resume a scale-in nobody can take over from. -/
def ServedCommit (source : MembershipSource) (s s' : TopologyState) : Prop :=
  Commit source s s' ∧ ResumesServed s s'

theorem ScaleInServed.canonicalize_iff : ScaleInServed (canonicalize s) ↔ ScaleInServed s := by
  simp [ScaleInServed, HasTaker]

theorem ServedCommit.scaleInServed {s'}
    (h : ServedCommit source s s') (hw : WellFormed source s) (hs : ScaleInServed s) :
    ScaleInServed s' := by
  obtain ⟨⟨_, htransition, -, -⟩, hresumes⟩ := h
  refine ScaleInServed.canonicalize_iff.mpr
    ((htransition.evolution hw).scaleInServed hw hs fun hb => ?_)
  exact ScaleInServed.canonicalize_iff.mp (hresumes hb)

theorem reachable_of_served
    (h : Relation.ReflTransGen (ServedCommit source) emptyTopology s) : Reachable source s :=
  Relation.ReflTransGen.mono (fun _ _ hc => hc.1) _ _ h

theorem scaleInServed_of_run
    (h : Relation.ReflTransGen (ServedCommit source) emptyTopology s) : ScaleInServed s := by
  induction h with
  | refl => exact .of_other (by simp [emptyTopology])
  | tail hrun hc ih => exact hc.scaleInServed (reachable_of_served hrun).wellFormed ih

/-! ## Two workers -/

def leftAddress : Bytes := ascii "10.0.0.100:31501"

def rightAddress : Bytes := ascii "10.0.0.101:31501"

/-- What a worker that started at time 1 reports. -/
def workerRecord (address : Bytes) (state : MemberLifecycleState) : MembershipRecord :=
  ⟨address, state, 1, []⟩

/-- SHA-256 of the id seed of the left worker. -/
def leftDigest : Bytes :=
  [246, 37, 54, 220, 34, 184, 46, 35, 49, 51, 173, 124, 203, 107, 62, 142, 184, 237, 170, 126, 250,
    40, 21, 80, 225, 86, 162, 103, 242, 93, 166, 196]

/-- SHA-256 of the id seed of the right worker. -/
def rightDigest : Bytes :=
  [244, 140, 169, 22, 204, 87, 46, 238, 165, 1, 30, 244, 219, 131, 239, 110, 182, 151, 52, 20, 175,
    33, 89, 44, 44, 90, 255, 231, 13, 169, 230, 70]

def leftIdentity : MemberIdentity := ⟨leftDigest.take memberIdSize, leftAddress⟩

def rightIdentity : MemberIdentity := ⟨rightDigest.take memberIdSize, rightAddress⟩

/-- SHA-256 of what two workers hash: the seeds of their ids, of the tasks that move tokens 101 to
200 in epoch 5 as one of them leaves, joins or fails, and of the operation of the one that joins. -/
def pairDigests : List (Bytes × Bytes) :=
  [(memberIdSeed (workerRecord leftAddress .ready), leftDigest),
    (memberIdSeed (workerRecord rightAddress .ready), rightDigest),
    (taskIdSeed (.migrate
        ⟨[], .scaleIn, 5, rightAddress, leftAddress, [⟨rightAddress, ⟨101, 200⟩, false⟩]⟩),
      [178, 246, 75, 157, 102, 214, 52, 61, 227, 53, 142, 199, 223, 58, 63, 143, 125, 50, 19, 116,
        112, 224, 241, 198, 181, 115, 88, 196, 88, 3, 90, 3]),
    (taskIdSeed (.migrate
        ⟨[], .scaleOut, 5, leftAddress, rightAddress, [⟨leftAddress, ⟨101, 200⟩, false⟩]⟩),
      [136, 13, 185, 178, 240, 253, 138, 44, 172, 3, 200, 173, 164, 141, 77, 212, 19, 31, 59, 104,
        163, 204, 202, 129, 113, 183, 108, 255, 133, 180, 127, 60]),
    (taskIdSeed (.delete
        ⟨[], 5, leftAddress, rightAddress, [⟨rightAddress, ⟨101, 200⟩, false⟩]⟩),
      [250, 54, 121, 241, 33, 86, 205, 81, 34, 80, 154, 228, 11, 66, 85, 77, 173, 244, 181, 52,
        180, 94, 239, 134, 50, 34, 235, 35, 212, 250, 52, 199]),
    (businessOperationSeed .scaleOut ⟨[], .migrate, .scaleOut, 5, .scaleOut, leftIdentity,
        some leftIdentity, some rightIdentity, none, [⟨101, 200⟩]⟩,
      [163, 251, 96, 26, 86, 169, 64, 222, 134, 81, 42, 7, 226, 157, 32, 249, 236, 1, 211, 84,
        154, 89, 221, 12, 46, 173, 236, 29, 203, 37, 189, 226])]

def pairSha256 : Sha256 where
  digest seed :=
    (pairDigests.find? fun e => e.1 = seed).elim (List.replicate sha256DigestLength 0) Prod.snd
  length_digest seed := by
    have hlength : ∀ e ∈ pairDigests, e.2.length = sha256DigestLength := by decide
    cases hfind : pairDigests.find? fun e => e.1 = seed with
    | none => rfl
    | some e => exact hlength e (List.mem_of_find?_eq_some hfind)

/-- The records of two workers, the right one of which exits. -/
def pairSource : MembershipSource where
  sha256 := pairSha256
  records := {r | r = workerRecord leftAddress .ready ∨ r = workerRecord rightAddress .ready ∨
    r = workerRecord rightAddress .exiting}
  distinct := by
    have hleft : buildMemberId pairSha256 (workerRecord leftAddress .ready) =
        .ok leftIdentity.id := by decide +kernel
    have hright : buildMemberId pairSha256 (workerRecord rightAddress .ready) =
        .ok rightIdentity.id := by decide +kernel
    have hexiting : buildMemberId pairSha256 (workerRecord rightAddress .exiting) =
        .ok rightIdentity.id := by decide +kernel
    have hne : leftIdentity.id ≠ rightIdentity.id := by decide
    rintro _ (rfl | rfl | rfl) _ (rfl | rfl | rfl) id h h' <;>
      simp_all [workerRecord]

def pairOptions : TopologyControllerOptions := ⟨.selfManaged, 2⟩

/-- Both workers reported that they are ready. -/
def initialPair : TopologyState :=
  { version := 2
    members := [⟨leftIdentity, .initial, [], []⟩, ⟨rightIdentity, .initial, [], []⟩] }

/-- The tokens of one worker and the seeds that are not zero. -/
structure WorkerTokens where
  tokens : List Token
  overrides : List TokenSeedOverride

/-- The two workers in the given states, with whatever tokens they were placed on. -/
def pairTopology (version : Nat) (batch : Option ActiveBatch) (l r : MemberState)
    (w : WorkerTokens × WorkerTokens) : TopologyState :=
  { clusterHasInit := true
    version := version
    members :=
      [⟨leftIdentity, l, w.1.tokens, w.1.overrides⟩, ⟨rightIdentity, r, w.2.tokens, w.2.overrides⟩]
    activeBatch := batch }

theorem leftAddress_lt : leftIdentity.address < rightIdentity.address := by decide

theorem commit_pair {version : Nat} {batch} {l r} {w}
    (h : Transition pairSource pairOptions s (pairTopology version batch l r w))
    (hversion : version ≤ int64Max) : Commit pairSource s (pairTopology version batch l r w) := by
  have hlen : leftIdentity.address.length ≤ maxMemberAddressBytes ∧
      rightIdentity.address.length ≤ maxMemberAddressBytes := by decide
  refine .of_sorted pairOptions h ?_ hversion ?_
  · simpa [pairTopology] using leftAddress_lt
  · simpa [pairTopology] using hlen

/-- What a classifier observes counts when no evidence speaks against it. -/
theorem classified_of_observe (classifier) (now) {memberships} {c}
    (hexiting : allMembersExiting s memberships = false)
    (hmissing : isCollectiveCommittedMembershipMissing s memberships = false)
    (h : ∃ classifier', TopologyFailureClassifier.observe classifier s memberships now =
      .ok (classifier', c))
    (hconfirm : c = confirmFailures pairOptions s ⟨none, [], [], []⟩ c) :
    Classified pairOptions s memberships c := by
  obtain ⟨classifier', h⟩ := h
  exact ⟨Bool.eq_false_iff.mp hexiting, Bool.eq_false_iff.mp hmissing, _, classifier', now, c,
    ⟨none, [], [], []⟩, h, hconfirm⟩


theorem commit_initialPair : Commit pairSource emptyTopology initialPair := by
  have hcommit : commitMembershipFacts pairSource.sha256 pairOptions .empty none 0 emptyTopology
      [workerRecord leftAddress .ready, workerRecord rightAddress .ready] =
        .ok (some initialPair) := by decide +kernel
  refine .of_sorted pairOptions ?_ (by decide) (by decide) (by decide)
  exact .membershipFacts (classified_of_observe ⟨30, .empty, none⟩ 0 (c := {}) rfl rfl ⟨_, rfl⟩ rfl)
    ⟨rfl, rfl, rfl⟩ (by simp [pairSource]) hcommit

/-- Both workers become the first owners, on tokens that are found for them. -/
theorem exists_commit_pair :
    ∃ w, Commit pairSource initialPair (pairTopology 3 none .active .active w) := by
  have hw : WellFormed pairSource initialPair :=
    commit_initialPair.wellFormed (wellFormed_emptyTopology _)
  obtain ⟨placed, hidentity, hplaced, hbuild⟩ := exists_buildBootstrap hw.populated.valid rfl
    (by decide) (by decide) (by decide) (by decide)
  have hsort : sortBy MemberIdentity.address (initialPair.members.map Member.identity) =
      [leftIdentity, rightIdentity] := by decide
  obtain ⟨⟨_, _, tl, ol⟩, rest, rfl, rfl, hrest⟩ := List.map_eq_cons_iff.mp hidentity
  obtain ⟨⟨_, _, tr, or⟩, rest', rfl, rfl, hrest'⟩ := List.map_eq_cons_iff.mp hrest
  obtain rfl := List.map_eq_nil_iff.mp hrest'
  obtain ⟨⟨rfl, -⟩, ⟨rfl, -⟩, -⟩ := by simpa using hplaced
  have hcollect : collectNextBatchCandidates pairSource.sha256 pairOptions .empty initialPair
      [workerRecord leftAddress .ready, workerRecord rightAddress .ready] true =
        .ok ⟨[], [leftIdentity, rightIdentity]⟩ := rfl
  refine ⟨(⟨tl, ol⟩, ⟨tr, or⟩), commit_pair ?_ (by decide)⟩
  exact .scaleOutStart rfl hcollect (by simp [pairSource]) (by simp) hbuild

variable (w : WorkerTokens × WorkerTokens)

theorem commit_exit : Commit pairSource (pairTopology 3 none .active .active w)
      (pairTopology 4 none .active .preLeaving w) := by
  have hcommit : commitMembershipFacts pairSource.sha256 pairOptions .empty none 0
      (pairTopology 3 none .active .active w)
      [workerRecord leftAddress .ready, workerRecord rightAddress .exiting] =
        .ok (some (pairTopology 4 none .active .preLeaving w)) := rfl
  refine commit_pair ?_ (by decide)
  exact .membershipFacts (classified_of_observe ⟨30, .empty, none⟩ 0 (c := {}) rfl rfl ⟨_, rfl⟩ rfl)
    ⟨rfl, rfl, rfl⟩ (by simp [pairSource]) hcommit

/-- An owner of tokens is on the ring. -/
theorem WellFormed.exists_owners {source} {m : Member} (hw : WellFormed source s)
    (hmem : m ∈ s.members) (hcommitted : isCommittedMemberState m.state) :
    validate s = .ok () ∧ m.tokens ≠ [] ∧
      ∃ ring, buildOwners s.members false [] false = .ok ring := by
  have htok : m.tokens ≠ [] := hw.tokens_ne_nil hmem fun hinitial => by
    simp [hinitial, isCommittedMemberState] at hcommitted
  exact ⟨validate_of_validMembers hw.populated.valid ⟨m, hmem, hcommitted⟩, htok,
    (exists_buildOwners_iff _ false [] false).mpr
      ⟨m, hmem, ⟨by simp [isEligible, hcommitted], by simp⟩, htok⟩⟩

/-- The right worker leaves and the left one takes over. -/
theorem commit_scaleIn {w}
    (hw : WellFormed pairSource (pairTopology 4 none .active .preLeaving w)) :
    Commit pairSource (pairTopology 4 none .active .preLeaving w)
      (pairTopology 5 (some ⟨.scaleIn, 5⟩) .active .leaving w) := by
  have hcollect : collectNextBatchCandidates pairSource.sha256 pairOptions .empty
      (pairTopology 4 none .active .preLeaving w)
      [workerRecord leftAddress .ready, workerRecord rightAddress .exiting] true =
        .ok ⟨[rightIdentity], []⟩ := rfl
  have hmem : (⟨leftIdentity, .active, w.1.tokens, w.1.overrides⟩ : Member) ∈
      (pairTopology 4 none .active .preLeaving w).members := by simp [pairTopology]
  obtain ⟨hval, htok, F, hF⟩ := hw.exists_owners hmem rfl
  obtain ⟨T, hT⟩ := (exists_buildOwners_iff _ false [rightIdentity.address] false).mpr
    ⟨_, hmem, ⟨rfl, by simpa using leftAddress_lt.ne⟩, htok⟩
  have hids : validateIdentities [rightIdentity] = .ok () := by decide
  have hplan := planScaleIn_eq_ok.mpr
    ⟨hval, validateIdentities_eq_ok.mp hids, rfl, by simp, F, hF, T, hT, rfl⟩
  refine commit_pair (.scaleInStart rfl hcollect ⟨rfl, by simp⟩ ?_) (by decide)
  refine bind_eq_ok.mpr ⟨_, bind_eq_ok.mpr ⟨(), rfl, bind_eq_ok.mpr ⟨(), rfl, bind_eq_ok.mpr
    ⟨_, hplan, rfl⟩⟩⟩, rfl⟩

/-- The left worker fails before it has taken over. -/
theorem commit_failure : Commit pairSource (pairTopology 5 (some ⟨.scaleIn, 5⟩) .active .leaving w)
      (pairTopology 6 (some ⟨.failure, 6⟩) .failed .leaving w) := by
  have hclassified : Classified pairOptions (pairTopology 5 (some ⟨.scaleIn, 5⟩) .active .leaving w)
      [workerRecord rightAddress .exiting] ⟨[], [], [leftIdentity], [leftIdentity]⟩ :=
    classified_of_observe ⟨30, .insert .empty leftAddress 0, none⟩ 30 rfl rfl ⟨_, rfl⟩ rfl
  exact commit_pair (.confirmedFailures hclassified rfl) (by decide)

/-- Only the leaving worker is left when the failure ends, and its scale-in is resumed. -/
def resumedTopology (w : WorkerTokens) : TopologyState :=
  { clusterHasInit := true
    version := 7
    members := [⟨rightIdentity, .leaving, w.tokens, w.overrides⟩]
    activeBatch := some ⟨.scaleIn, 7⟩ }

theorem commit_failureFinal :
    Commit pairSource (pairTopology 6 (some ⟨.failure, 6⟩) .failed .leaving w)
      (resumedTopology w.2) := by
  have hfinal : buildFailureFinal (pairTopology 6 (some ⟨.failure, 6⟩) .failed .leaving w) =
      .ok (resumedTopology w.2) := rfl
  have hlength : rightIdentity.address.length ≤ maxMemberAddressBytes := by decide
  refine .of_sorted pairOptions (.batchFinal rfl hfinal) ?_ ?_ ?_
  · simp [resumedTopology]
  · simp [resumedTopology, int64Max]
  · simpa [resumedTopology] using hlength

theorem exists_run_scaleIn : ∃ w, Relation.ReflTransGen (ServedCommit pairSource) emptyTopology
      (pairTopology 5 (some ⟨.scaleIn, 5⟩) .active .leaving w) := by
  obtain ⟨w, hpair⟩ := exists_commit_pair
  -- no failure has happened so far, so nothing is resumed
  have hfirst : ServedCommit pairSource emptyTopology initialPair := ⟨commit_initialPair, nofun⟩
  have hsecond : ServedCommit pairSource initialPair (pairTopology 3 none .active .active w) :=
    ⟨hpair, nofun⟩
  have hthird : ServedCommit pairSource (pairTopology 3 none .active .active w)
      (pairTopology 4 none .active .preLeaving w) := ⟨commit_exit w, nofun⟩
  have hrun := ((Relation.ReflTransGen.single hfirst).tail hsecond).tail hthird
  refine ⟨w, hrun.tail ⟨commit_scaleIn (reachable_of_served hrun).wellFormed, nofun⟩⟩

/-- While the right worker leaves, both have their tokens and the topology is accepted. -/
theorem pair_topology_accepted : ∃ w, Reachable pairSource
      (pairTopology 5 (some ⟨.scaleIn, 5⟩) .active .leaving w) ∧
    validateAndCanonicalizeTopologyState (pairTopology 5 (some ⟨.scaleIn, 5⟩) .active .leaving w) =
      .ok (pairTopology 5 (some ⟨.scaleIn, 5⟩) .active .leaving w) ∧
    w.1.tokens.length = 32 ∧ w.2.tokens.length = 32 := by
  obtain ⟨w, hrun⟩ := exists_run_scaleIn
  obtain ⟨haccepted, -, htokens⟩ := reachable_topology_accepted (reachable_of_served hrun)
  refine ⟨w, reachable_of_served hrun, haccepted, ?_, ?_⟩
  · exact htokens ⟨leftIdentity, .active, w.1.tokens, w.1.overrides⟩ (by simp [pairTopology])
  · exact htokens ⟨rightIdentity, .leaving, w.2.tokens, w.2.overrides⟩ (by simp [pairTopology])

/-! ## Derivability -/

/-- **A batch can always be derived** in a run that never resumes a scale-in after the last member
that could take over is gone. -/
theorem served_batch_derivable {source : MembershipSource} {s : TopologyState}
    (h : Relation.ReflTransGen (ServedCommit source) emptyTopology s)
    {snapshot : TopologySnapshot} (hs : snapshot.state = s) {batch : ActiveBatch}
    (hb : s.activeBatch = some batch) :
    ∃ expected, rebuildExpected source.sha256 snapshot = .ok expected := by
  subst hs
  refine (exists_rebuildExpected_iff hb).mpr ?_
  exact (plannable_iff (reachable_of_served h).wellFormed hb).mpr (scaleInServed_of_run h)

theorem pair_scaleIn_derivable : ∃ (w : WorkerTokens × WorkerTokens) (snapshot : TopologySnapshot),
      snapshot.state = pairTopology 5 (some ⟨.scaleIn, 5⟩) .active .leaving w ∧
        ∃ expected, rebuildExpected pairSource.sha256 snapshot = .ok expected := by
  obtain ⟨w, hrun⟩ := exists_run_scaleIn
  exact ⟨w, (reachable_of_served hrun).snapshot, rfl, served_batch_derivable hrun rfl rfl⟩

/-- A reachable scale-in whose tasks cannot be derived: the failure that preempted it removed the
only member that could take over. -/
theorem resumed_scaleIn_not_derivable : ∃ (s : TopologyState) (h : Reachable pairSource s),
      s.activeBatch = some ⟨.scaleIn, 7⟩ ∧ rebuildExpected pairSource.sha256 h.snapshot =
          .error ⟨.kNotReady, "cluster topology has no committed token owner"⟩ := by
  obtain ⟨w, hrun⟩ := exists_run_scaleIn
  have hreach : Reachable pairSource (resumedTopology w.2) :=
    ((reachable_of_served hrun).tail (commit_failure w)).tail (commit_failureFinal w)
  have hmem : (⟨rightIdentity, .leaving, w.2.tokens, w.2.overrides⟩ : Member) ∈
      (resumedTopology w.2).members := by simp [resumedTopology]
  obtain ⟨hval, -, F, hF⟩ := hreach.wellFormed.exists_owners hmem rfl
  -- the only owner is excluded from the ring that takes over
  have hT : buildOwners (resumedTopology w.2).members false [rightIdentity.address] false =
      .error ⟨.kNotReady, "cluster topology has no committed token owner"⟩ := rfl
  have hplan : planScaleIn (resumedTopology w.2) [rightIdentity] =
      .error ⟨.kNotReady, "cluster topology has no committed token owner"⟩ := by
    have hids : validateIdentities [rightIdentity] = .ok () := by decide
    have hselected : validateSelectedMembers (resumedTopology w.2) [rightIdentity] = .ok () := rfl
    have hne : checkFailReturnStatus ([rightIdentity] ≠ []) .kInvalid
      "ScaleIn requires leaving members" = .ok () := rfl
    rw [planScaleIn, hval, ok_bind, hids, ok_bind, hselected, ok_bind, hne, ok_bind]
    simp only [List.map_cons, List.map_nil, hF, hT, ok_bind, error_bind]
  refine ⟨_, hreach, rfl, ?_⟩
  have hrebuild : rebuildPlan hreach.snapshot =
      .error ⟨.kNotReady, "cluster topology has no committed token owner"⟩ := by
    show (planScaleIn (resumedTopology w.2) [rightIdentity] >>= _) = _
    rw [hplan, error_bind]
  have hbatch : hreach.snapshot.state.activeBatch ≠ none := Option.some_ne_none _
  rw [rebuildExpected_eq, rebuildBatch, if_pos hbatch, hrebuild, error_bind]

end Datasystem.Cluster
