import Datasystem.Cluster.HashAlgorithm

/-! The state transitions the controller can build: bootstrap, the start, replan
and final of a batch, failure preemption and cluster shutdown. -/

namespace Datasystem.Cluster.TopologyPlanBuilder

open Common Lib.Sorting HashAlgorithm MemberIdentity

variable (latest : TopologyState) (members : List Member) (selected : List MemberIdentity)

/-- `std::find_if` by identity. -/
def findByIdentity (identity : MemberIdentity) : Option Member :=
  members.find? fun m => m.identity = identity

/-- The loop over the selected identities, with the addresses seen so far. -/
def validateSelectedFrom (latest : TopologyState) (state : MemberState) (addresses : List Bytes) :
    List MemberIdentity → Result Unit
  | [] => pure ()
  | identity :: rest => do
    checkFailReturnStatus
      (∃ m ∈ findByIdentity latest.members identity, m.state = state)
      .kInvalid "selected topology identity or state is stale"
    checkFailReturnStatus (identity.address ∉ addresses) .kInvalid
      "selected topology identity is duplicated"
    validateSelectedFrom latest state (identity.address :: addresses) rest

def validateSelected (state : MemberState) : Result Unit := do
  checkFailReturnStatus (selected ≠ []) .kInvalid "selected topology member set is empty"
  validateSelectedFrom latest state [] selected

/-- The next version, with a batch of this type whose epoch is that version. -/
def advanceEpoch (type : TopologyChangeType) (plan : TopologyPlan) : TopologyPlan :=
  { plan with
    next :=
      { plan.next with
        version := latest.version + 1
        activeBatch := some ⟨type, latest.version + 1⟩ } }

def membersInState (state : TopologyState) (selected : MemberState) : List MemberIdentity :=
  (state.members.filter fun m => m.state = selected).map Member.identity

def removeMembers (addresses : List Bytes) : List Member :=
  members.filter fun m => m.address ∉ addresses

def validateBatch (type : TopologyChangeType) : Result Unit :=
  checkFailReturnStatus (∃ b ∈ latest.activeBatch, b.type = type) .kInvalid
    "topology active batch type does not match finalization"

def buildBootstrap (ready : List MemberIdentity) : Result TopologyState := do
  checkFailReturnStatus
    ((∀ m ∈ latest.members, ¬isCommittedMemberState m.state) ∧ latest.activeBatch = none)
    .kInvalid "bootstrap requires a stable topology without a committed owner"
  validateSelected latest ready .initial
  let built ← buildInitialPlacement {} ready defaultHashRingTokensPerMember
  let next :=
    { built.next with
      members := built.next.members ++
        removeMembers latest.members (ready.map address)
      version := latest.version + 1
      clusterHasInit := latest.clusterHasInit || built.next.clusterHasInit }
  validate next
  pure next

def buildScaleOutStart : Result TopologyPlan := do
  checkFailReturnStatus (latest.clusterHasInit ∧ latest.activeBatch = none) .kInvalid
    "ScaleOut start requires a stable initialized topology"
  validateSelected latest selected .initial
  let current :=
    { latest with
      members := removeMembers latest.members (selected.map address) }
  let built ← planScaleOut current selected current.tokensPerMember
  let plan := advanceEpoch latest .scaleOut built
  validate plan.next
  pure plan

def buildScaleOutReplan (failedJoining : List MemberIdentity) : Result TopologyPlan := do
  validateBatch latest .scaleOut
  validateSelected latest failedJoining .joining
  let retained :=
    { latest with
      members := removeMembers latest.members (failedJoining.map address) }
  let joining := membersInState retained .joining
  if joining ≠ [] then
    let built ← planScaleOut retained joining retained.tokensPerMember
    pure (advanceEpoch latest .scaleOut built)
  else
    pure ⟨{ retained with version := latest.version + 1, activeBatch := none }, []⟩

def buildScaleInStart : Result TopologyPlan := do
  checkFailReturnStatus (latest.clusterHasInit ∧ latest.activeBatch = none) .kInvalid
    "ScaleIn start requires a stable initialized topology"
  validateSelected latest selected .preLeaving
  let built ← planScaleIn latest selected
  let members := built.next.members.map fun m =>
    if m.state = .preLeaving ∧ m.identity ∈ selected then m.withState .leaving else m
  pure (advanceEpoch latest .scaleIn { built with next := { built.next with members := members } })

/-- Failed members count as healthy owners while the failure is planned. -/
def planningMembers : List Member :=
  members.map fun m => if m.state = .failed then m.withState .active else m

/-- Set the state of the first member with this identity. -/
def setStateOf (identity : MemberIdentity) (state : MemberState) : List Member → List Member
  | [] => []
  | m :: rest =>
    if m.identity = identity then m.withState state :: rest
    else m :: setStateOf identity state rest

/-- Members that were joining or leaving and did not fail keep that state. -/
def preserveOrdinaryFacts (latest : List Member) (failedAddresses : List Bytes)
    (members : List Member) : List Member :=
  latest.foldl
    (fun members m =>
      if (m.state = .joining ∨ m.state = .leaving) ∧ m.address ∉ failedAddresses then
        setStateOf m.identity m.state members
      else members) members

def buildFailureStartOrReplan (confirmed : List MemberIdentity) : Result TopologyPlan := do
  checkFailReturnStatus latest.clusterHasInit .kInvalid "Failure requires an initialized topology"
  let planning := { latest with members := planningMembers latest.members }
  checkFailReturnStatus (∀ m ∈ latest.members, m.state = .failed → m.identity ∈ confirmed)
    .kInvalid "Failure replan cannot omit an existing failed member"
  let failedAddresses := confirmed.map address
  if ∃ m ∈ latest.members, m.state = .active ∧ m.address ∉ failedAddresses then
    let built ← planFailure planning confirmed
    let members := preserveOrdinaryFacts latest.members failedAddresses built.next.members
    pure (advanceEpoch latest .failure
      { built with next := { built.next with members := members } })
  else
    -- no healthy owner is left, so nothing can be recovered
    let members := markMembers latest.members failedAddresses .failed
    pure (advanceEpoch latest .failure ⟨{ latest with members := members }, []⟩)

def buildScaleOutFinal : Result TopologyState := do
  validateBatch latest .scaleOut
  checkFailReturnStatus (membersInState latest .joining ≠ []) .kInvalid
    "ScaleOut final requires joining members"
  let members := latest.members.map fun m =>
    if m.state = .joining then m.withState .active else m
  pure { latest with members := members, version := latest.version + 1, activeBatch := none }

def buildScaleInFinal : Result TopologyState := do
  validateBatch latest .scaleIn
  let leaving := membersInState latest .leaving
  checkFailReturnStatus (leaving ≠ []) .kInvalid "ScaleIn final requires leaving members"
  let members := removeMembers latest.members (leaving.map address)
  pure { latest with members := members, version := latest.version + 1, activeBatch := none }

/-- What is left of a failure batch once its failed members are gone: nothing at all, the
scale-out or scale-in it preempted, or a stable topology. -/
def resumeAfterFailure (version : Nat) : List Member × Option ActiveBatch :=
  if ∀ m ∈ members, ¬isCommittedMemberState m.state then ([], none)
  else if ∃ m ∈ members, m.state = .joining then (members, some ⟨.scaleOut, version⟩)
  else if ∃ m ∈ members, m.state = .leaving then (members, some ⟨.scaleIn, version⟩)
  else (members, none)

def buildFailureFinal : Result TopologyState := do
  validateBatch latest .failure
  let failed := membersInState latest .failed
  checkFailReturnStatus (failed ≠ []) .kInvalid "Failure final requires failed members"
  let members := removeMembers latest.members (failed.map address)
  let (members, activeBatch) := resumeAfterFailure members (latest.version + 1)
  pure
    { latest with members := members, version := latest.version + 1, activeBatch := activeBatch }

def buildClusterShutdownFinal : Result TopologyState := do
  checkFailReturnStatus (latest.members ≠ []) .kInvalid "cluster shutdown requires topology members"
  checkFailReturnStatus
    (∀ m ∈ latest.members, m.state = .preLeaving ∨ m.state = .leaving) .kInvalid
    "cluster shutdown requires every member to be exiting"
  pure { latest with version := latest.version + 1, members := [], activeBatch := none }

end Datasystem.Cluster.TopologyPlanBuilder
