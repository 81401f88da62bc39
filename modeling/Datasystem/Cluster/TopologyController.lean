import Datasystem.Cluster.TopologyFailureClassifier
import Datasystem.Cluster.TopologyKeyHelper
import Datasystem.Cluster.TopologyPlanBuilder

/-! The topology candidates a controller proposes. Each `commit*` function builds
the state its source counterpart passes to `CommitAndReadBack`, or nothing when
there is nothing to commit. `Transition` collects them with the guards under
which the controller reaches each one; timers, task progress and probe results
are inputs that may take any value. -/

namespace Datasystem.Cluster

open Common Lib Sorting HashAlgorithm TopologyPlanBuilder MemberIdentity

inductive TopologyEventSourceMode
  | selfManaged
  | external
  | externalEtcd
deriving DecidableEq

structure TopologyControllerOptions where
  eventSourceMode : TopologyEventSourceMode
  maxMembersPerBatch : Nat

/-- Time stamps of READY records that must not be admitted again, by address. -/
abbrev Quarantine := OrderedMap Bytes Int

namespace TopologyController

/-! ## Membership facts -/

structure MembershipFacts where
  exiting : List Bytes := []
  ready : List MembershipRecord := []
  quarantine : Quarantine

def collectMembershipFact (facts : MembershipFacts) (record : MembershipRecord) : MembershipFacts :=
  if record.state = .exiting then { facts with exiting := record.address :: facts.exiting }
  else if record.state = .ready ∨ record.state = .restarting then
    match facts.quarantine.find? record.address with
    | some quarantined =>
      if record.timestamp ≤ quarantined then facts
      else
        { facts with
          quarantine := facts.quarantine.erase record.address
          ready := facts.ready ++ [record] }
    | none => { facts with ready := facts.ready ++ [record] }
  else facts

def collectMembershipFacts (quarantine : Quarantine) (memberships : List MembershipRecord) :
    MembershipFacts :=
  let facts := memberships.foldl collectMembershipFact { quarantine := quarantine }
  { facts with ready := sortBy MembershipRecord.address facts.ready }

/-- Members moved from ACTIVE to PRE_LEAVING, and how many were. -/
def applyExitingMembershipFacts (maxMembers : Nat) (exiting : List Bytes) (changed : Nat) :
    List Member → List Member × Nat
  | [] => ([], changed)
  | member :: rest =>
    if member.state = .active ∧ member.address ∈ exiting ∧ changed < maxMembers then
      let (rest, changed) := applyExitingMembershipFacts maxMembers exiting (changed + 1) rest
      (member.withState .preLeaving :: rest, changed)
    else
      let (rest, changed) := applyExitingMembershipFacts maxMembers exiting changed rest
      (member :: rest, changed)

/-- INITIAL members appended for ready records at new addresses. -/
def applyReadyMembershipFacts (sha256 : Sha256) (maxMembers : Nat) :
    List MembershipRecord → (members : List Member) → (known : List Bytes) → (changed : Nat) →
      Result (List Member × List MemberIdentity × Nat)
  | [], members, _, changed => pure (members, [], changed)
  | record :: rest, members, known, changed =>
    if record.address ∈ known ∨ maxMembers ≤ changed then
      applyReadyMembershipFacts sha256 maxMembers rest members known changed
    else do
      let _ ← TopologyKeyHelper.membershipKey record.address
      let memberId ← buildMemberId sha256 record
      let identity := mk memberId record.address
      let (members, admitted, changed) ←
        applyReadyMembershipFacts sha256 maxMembers rest (members ++ [⟨identity, .initial, [], []⟩])
          (record.address :: known) (changed + 1)
      pure (members, identity :: admitted, changed)

/-- `LimitMembers`: the first `limit` members in address order. -/
def limitMembers (members : List MemberIdentity) (limit : Nat) : List MemberIdentity :=
  (sortBy address members).take limit

variable (options : TopologyControllerOptions) (latest : TopologyState)
  (classification : FailureClassification)

/-- Direct admission builds members from records instead of committing INITIAL ones first. -/
def isDirectAdmission : Bool :=
  options.eventSourceMode == .external && latest.clusterHasInit

variable (sha256 : Sha256)

/-- The id of a new member; a caller that only counts candidates does not ask for it. -/
def newMemberId (materializeNewMemberIds : Bool) (record : MembershipRecord) : Result Bytes :=
  if materializeNewMemberIds then buildMemberId sha256 record else pure []

/-- Joining identities added straight from ready records. -/
def directJoining (sha256 : Sha256) (maxMembers : Nat) (materializeNewMemberIds : Bool)
    (known : List Bytes) : List MembershipRecord → List MemberIdentity →
      Result (List MemberIdentity)
  | [], joining => pure joining
  | record :: rest, joining =>
    if record.address ∈ known ∨ maxMembers ≤ joining.length then
      directJoining sha256 maxMembers materializeNewMemberIds known rest joining
    else do
      let memberId ← newMemberId sha256 materializeNewMemberIds record
      directJoining sha256 maxMembers materializeNewMemberIds known rest
        (joining ++ [⟨memberId, record.address⟩])

def addDirectJoining (options : TopologyControllerOptions) (materializeNewMemberIds : Bool)
    (latest : TopologyState) (ready : List MembershipRecord) (joining : List MemberIdentity) :
    Result (List MemberIdentity) :=
  if isDirectAdmission options latest then
    directJoining sha256 options.maxMembersPerBatch materializeNewMemberIds latest.addresses
      ready joining
  else pure joining

structure BatchCandidates where
  leaving : List MemberIdentity
  joining : List MemberIdentity

def collectNextBatchCandidates (options : TopologyControllerOptions) (quarantine : Quarantine)
    (latest : TopologyState) (memberships : List MembershipRecord)
    (materializeNewMemberIds : Bool) :
    Result BatchCandidates := do
  let facts := collectMembershipFacts quarantine memberships
  let readyAddresses := facts.ready.map MembershipRecord.address
  let leaving := (latest.members.filter fun m =>
    m.state = .preLeaving ∨
      (isDirectAdmission options latest ∧ m.state = .active ∧ m.address ∈ facts.exiting)).map
    Member.identity
  let joining := (latest.members.filter fun m =>
    m.state = .initial ∧ m.address ∈ readyAddresses).map Member.identity
  let joining ← addDirectJoining sha256 options materializeNewMemberIds latest facts.ready joining
  pure
    { leaving := limitMembers leaving options.maxMembersPerBatch
      joining := limitMembers joining options.maxMembersPerBatch }

structure BatchCollectState where
  deadline : Int
  awaitingAdmission : Bool

/-- Whether ready records may become INITIAL members now. During a batch of an initialized
cluster they never do; otherwise the collect window of the next scale-out decides. -/
def shouldApplyReadyScaleOutAdmission (options : TopologyControllerOptions)
    (quarantine : Quarantine) (collect : Option BatchCollectState) (now : Int)
    (latest : TopologyState) (ready : List MembershipRecord) : Bool :=
  if latest.activeBatch ≠ none then !latest.clusterHasInit
  else
    match collect with
    | none => true
    | some collect =>
      if ∀ record ∈ ready, record.address ∈ latest.addresses then false
      else
        let hasReadyInitial :=
          match collectNextBatchCandidates sha256 options quarantine latest ready false with
          | .ok candidates => !candidates.joining.isEmpty
          | .error _ => false
        if !collect.awaitingAdmission && !hasReadyInitial then true
        else if now < collect.deadline then true
        else !hasReadyInitial

/-! ## Commits -/

variable (maxMembers : Nat)

/-- Admit ready records when the collect window allows it. -/
def admitReady (admission : Bool) (ready : List MembershipRecord) (members : List Member)
    (known : List Bytes) (changed : Nat) :
    Result (List Member × List MemberIdentity × Nat) :=
  if admission then applyReadyMembershipFacts sha256 maxMembers ready members known changed
  else pure (members, [], changed)

def commitMembershipFacts (options : TopologyControllerOptions) (quarantine : Quarantine)
    (collect : Option BatchCollectState) (now : Int) (latest : TopologyState)
    (memberships : List MembershipRecord) :
    Result (Option TopologyState) := do
  if isDirectAdmission options latest then pure none
  else
    let facts := collectMembershipFacts quarantine memberships
    let (members, changed) :=
      applyExitingMembershipFacts options.maxMembersPerBatch facts.exiting 0 latest.members
    let admission :=
      shouldApplyReadyScaleOutAdmission sha256 options facts.quarantine collect now latest
        facts.ready
    let (members, _, changed) ← admitReady sha256 options.maxMembersPerBatch admission facts.ready
      members latest.addresses changed
    pure
      (if changed = 0 then none
        else some { latest with version := latest.version + 1, members := members })

variable (participants : List MemberIdentity)

def prepareBatchStartState (type : TopologyChangeType) :
    TopologyState :=
  if ¬isDirectAdmission options latest then latest
  else
    match type with
    | .scaleOut =>
      { latest with
        members := latest.members ++
          (participants.filter fun identity => identity.address ∉ latest.addresses).map
            fun identity => ⟨identity, .initial, [], []⟩ }
    | .scaleIn =>
      let selected := participants.map address
      { latest with
        members := latest.members.map fun m =>
          if m.state = .active ∧ m.address ∈ selected then m.withState .preLeaving else m }
    | .failure => latest

def commitBatchStart (type : TopologyChangeType) (bootstrap : Bool) :
    Result TopologyState := do
  let state := prepareBatchStartState options latest participants type
  if bootstrap then buildBootstrap state participants
  else
    match type with
    | .scaleOut => do
      let plan ← buildScaleOutStart state participants
      pure plan.next
    | .scaleIn => do
      let plan ← buildScaleInStart state participants
      pure plan.next
    | .failure => .error ⟨.kInvalid, "unsupported batch start type"⟩

def commitBatchFinal (batch : ActiveBatch) : Result TopologyState :=
  match batch.type with
  | .scaleOut => buildScaleOutFinal latest
  | .scaleIn => buildScaleInFinal latest
  | .failure => buildFailureFinal latest

def commitScaleOutExhaustion (failedJoining : List MemberIdentity) : Result TopologyState := do
  checkFailReturnStatus (failedJoining ≠ []) .kInvalid
    "expired ScaleOut has no incomplete joining generation"
  let plan ← buildScaleOutReplan latest failedJoining
  pure plan.next

/-- Joining members that are the target of an unfinished task. -/
def collectFailedJoining (incompleteTargets : List Bytes) : List MemberIdentity :=
  (latest.members.filter fun m => m.state = .joining ∧ m.address ∈ incompleteTargets).map
    Member.identity

def eraseMembers (members : List Member) (identities : List MemberIdentity) : List Member :=
  removeMembers members (identities.map address)

/-- New confirmed failures behind the retained ones, up to the batch limit. -/
def appendConfirmed (maxMembers : Nat) :
    List MemberIdentity → (confirmed : List MemberIdentity) → List MemberIdentity
  | [], confirmed => confirmed
  | identity :: rest, confirmed =>
    if maxMembers ≤ confirmed.length then confirmed
    else if identity.address ∈ confirmed.map address then
      appendConfirmed maxMembers rest confirmed
    else appendConfirmed maxMembers rest (confirmed ++ [identity])

def collectFailureCommitBatch (latest : TopologyState) (classification : FailureClassification) :
    List MemberIdentity :=
  appendConfirmed maxMembers classification.confirmedFailure (membersInState latest .failed)

def commitConfirmedFailures (latest : TopologyState) (classification : FailureClassification) :
    Result (Option TopologyState) := do
  let confirmed := collectFailureCommitBatch maxMembers latest classification
  if confirmed.length = (membersInState latest .failed).length then pure none
  else
    let plan ← buildFailureStartOrReplan latest confirmed
    let members := eraseMembers (eraseMembers plan.next.members classification.removeInitial)
      classification.removeJoining
    pure (some { plan.next with members := members })

def commitUncommittedCleanup : Result (Option TopologyState) := do
  match latest.activeBatch, decide (classification.removeJoining ≠ []) with
  | some ⟨.scaleOut, _⟩, true =>
    let plan ← buildScaleOutReplan latest classification.removeJoining
    pure (some { plan.next with
      members := eraseMembers plan.next.members classification.removeInitial })
  | some ⟨.failure, _⟩, true =>
    let plan ← buildFailureStartOrReplan latest (membersInState latest .failed)
    pure (some { plan.next with
      members := eraseMembers (eraseMembers plan.next.members classification.removeJoining)
        classification.removeInitial })
  | _, _ =>
    if classification.removeInitial = [] then pure none
    else
      pure (some { latest with
        version := latest.version + 1
        members := eraseMembers latest.members classification.removeInitial })

variable (memberships : List MembershipRecord)

def allMembersExiting : Bool :=
  latest.members ≠ [] &&
    latest.members.all fun m =>
      (memberships.find? fun r => r.address = m.address).any fun r => r.state = .exiting

def commitClusterShutdown : Result TopologyState :=
  buildClusterShutdownFinal
    { latest with
      activeBatch := none
      members := latest.members.map fun m => m.withState .preLeaving }

def isCollectiveCommittedMembershipMissing : Bool :=
  (latest.members.any fun m => isCommittedMemberState m.state) &&
    memberships.all fun r =>
      !(findByAddress latest.members r.address).any fun m => isCommittedMemberState m.state

/-- Replace a topology none of whose members came back by one built from ready records. -/
def bootstrapCollectiveReplacement (options : TopologyControllerOptions) (quarantine : Quarantine)
    (latest : TopologyState) (exactMemberships : List MembershipRecord) :
    Result TopologyState := do
  let facts := collectMembershipFacts quarantine exactMemberships
  let (members, admitted, _) ←
    applyReadyMembershipFacts sha256 options.maxMembersPerBatch facts.ready [] [] 0
  buildBootstrap { latest with members := members, activeBatch := none } admitted

/-! ## Failure confirmation -/

/-- What probes and witnesses reported in one round; every value is possible. -/
structure FailureEvidence where
  /-- Addresses found unreachable by the liveness probe, when that hook is set. -/
  directlyUnreachable : Option (List Bytes)
  /-- Targets a witness still sees or may still see. -/
  witnessBlocked : List MemberIdentity
  /-- Candidates from failure summaries. -/
  summaryCandidates : List MemberIdentity
  /-- Probed candidates that stayed unreachable. -/
  probeConfirmed : List MemberIdentity

variable (evidence : FailureEvidence)

def confirmMissingMembersUnreachable (classification : FailureClassification) :
    FailureClassification :=
  match evidence.directlyUnreachable, options.eventSourceMode with
  | none, _ => classification
  | _, .external => classification
  | some unreachable, _ =>
    if classification.confirmedMissing = [] then classification
    else
      { classification with
        confirmedFailure := classification.confirmedFailure.filter fun identity =>
          identity.address ∈ unreachable ||
            (findByAddress latest.members identity.address).any fun m => m.state = .failed }

def applyWitnessFailureGate (classification : FailureClassification) :
    FailureClassification :=
  if options.eventSourceMode = .external then
    { classification with
      confirmedFailure := classification.confirmedFailure.filter fun identity =>
        identity ∉ evidence.witnessBlocked }
  else classification

def twoWorkerClusterSize : Nat := 2

variable (candidates : List MemberIdentity)

/-- Summary candidates that may be probed: active members, and joining ones of a scale-out. -/
def summaryProbeCandidates : List MemberIdentity :=
  candidates.filter fun identity =>
    (findByAddress latest.members identity.address).any fun m =>
      m.state = .active ||
        (m.state = .joining && (latest.activeBatch.any fun b => b.type = .scaleOut) &&
          decide (identity.address ∉ classification.removeJoining.map address))

def summaryCandidatesToProbe : List MemberIdentity :=
  let isActive := fun identity : MemberIdentity =>
    (findByAddress latest.members identity.address).any fun m => m.state = .active
  let probeCandidates := summaryProbeCandidates latest classification candidates
  let activeCandidateCount := probeCandidates.countP isActive
  let ambiguousTwoWorkerCandidates :=
    (latest.members.countP fun m => m.state = .active) = twoWorkerClusterSize ∧
      activeCandidateCount ≠ 1
  probeCandidates.filter fun identity =>
    if isActive identity then
      ¬ambiguousTwoWorkerCandidates ∧
        identity.address ∉ classification.confirmedFailure.map address
    else identity.address ∉ classification.removeJoining.map address

def applySummaryFailure (identity : MemberIdentity) : FailureClassification :=
  match (findByAddress latest.members identity.address).map Member.state with
  | some .joining =>
    { classification with removeJoining := classification.removeJoining ++ [identity] }
  | some .active =>
    { classification with confirmedFailure := classification.confirmedFailure ++ [identity] }
  | _ => classification

/-- The classification `TryConfirmFailures` commits, from an observation and the evidence. -/
def confirmFailures (observed : FailureClassification) :
    FailureClassification :=
  let classification := applyWitnessFailureGate options evidence
    (confirmMissingMembersUnreachable options latest evidence observed)
  let toProbe := summaryCandidatesToProbe latest classification evidence.summaryCandidates
  (evidence.probeConfirmed.filter fun identity => identity ∈ toProbe).foldl
    (applySummaryFailure latest) classification

/-! ## Transitions -/

/-- `c` is a classification that a round of `TryConfirmFailures` on `latest` may arrive at. -/
def Classified (c : FailureClassification) : Prop :=
  ¬allMembersExiting latest memberships ∧
    ¬isCollectiveCommittedMembershipMissing latest memberships ∧
    ∃ (classifier classifier' : TopologyFailureClassifier) (now : Int)
      (observed : FailureClassification) (evidence : FailureEvidence),
      classifier.observe latest memberships now = .ok (classifier', observed) ∧
        c = confirmFailures options latest evidence observed

/-- One topology candidate a controller may propose on top of `latest`. -/
inductive Transition (source : MembershipSource) (options : TopologyControllerOptions)
    (latest : TopologyState) : TopologyState → Prop
  | clusterShutdown {memberships next} (hexiting : allMembersExiting latest memberships)
      (h : commitClusterShutdown latest = .ok next) : Transition source options latest next
  | collectiveReplacement {quarantine memberships exactMemberships next}
      (hmissing : isCollectiveCommittedMembershipMissing latest memberships)
      (hrecords : ∀ r ∈ exactMemberships, r ∈ source.records)
      (h : bootstrapCollectiveReplacement source.sha256 options quarantine latest exactMemberships =
        .ok next) : Transition source options latest next
  | confirmedFailures {memberships classification next}
      (hc : Classified options latest memberships classification)
      (h : commitConfirmedFailures options.maxMembersPerBatch latest classification =
        .ok (some next)) : Transition source options latest next
  | uncommittedCleanup {memberships classification next}
      (hc : Classified options latest memberships classification)
      (hnone : classification.confirmedFailure = [])
      (h : commitUncommittedCleanup latest classification = .ok (some next)) :
      Transition source options latest next
  | membershipFacts {quarantine collect now memberships classification next}
      (hc : Classified options latest memberships classification)
      (hnone : classification.confirmedFailure = [] ∧ classification.removeInitial = [] ∧
        classification.removeJoining = [])
      (hrecords : ∀ r ∈ memberships, r ∈ source.records)
      (h : commitMembershipFacts source.sha256 options quarantine collect now latest memberships =
        .ok (some next)) : Transition source options latest next
  | batchFinal {batch next} (hbatch : latest.activeBatch = some batch)
      (h : commitBatchFinal latest batch = .ok next) : Transition source options latest next
  | scaleOutExhaustion {incompleteTargets next}
      (h : commitScaleOutExhaustion latest (collectFailedJoining latest incompleteTargets) =
        .ok next) : Transition source options latest next
  | scaleOutStart {quarantine memberships materialize candidates next}
      (hstable : latest.activeBatch = none)
      (hcollect : collectNextBatchCandidates source.sha256 options quarantine latest memberships
        materialize = .ok candidates)
      (hrecords : ∀ r ∈ memberships, r ∈ source.records)
      (hjoining : candidates.joining ≠ [])
      (h : commitBatchStart options latest candidates.joining .scaleOut
        (latest.members.all fun m => !isCommittedMemberState m.state) = .ok next) :
      Transition source options latest next
  | scaleInStart {quarantine memberships materialize candidates next}
      (hstable : latest.activeBatch = none)
      (hcollect : collectNextBatchCandidates source.sha256 options quarantine latest memberships
        materialize = .ok candidates)
      (hleaving : candidates.joining = [] ∧ candidates.leaving ≠ [])
      (h : commitBatchStart options latest candidates.leaving .scaleIn false = .ok next) :
      Transition source options latest next

end TopologyController

end Datasystem.Cluster
