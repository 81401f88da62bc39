import Datasystem.Cluster.TokenPlacement
import Datasystem.Cluster.ValidTopology
import Datasystem.Lib.TokenRing

/-! The hash placement algorithm: routing of a token to its owner, and the plans
that move ownership when members join, leave or fail. A plan lists, for each pair
of old and new owner, the token ranges that change hands. -/

namespace Datasystem.Cluster.HashAlgorithm

open Common HashRingToken Lib Sorting Spans TokenRing

/-! ## Input checks -/

/-- The loop over planning identities, with the ids and addresses seen so far. -/
def validateIdentitiesFrom (ids addresses : List Bytes) : List MemberIdentity → Result Unit
  | [] => pure ()
  | identity :: rest => do
    checkFailReturnStatus
      (identity.id.length = memberIdSize ∧ identity.address ≠ [] ∧
        identity.address.length ≤ maxMemberAddressBytes)
      .kInvalid "invalid planning member identity"
    checkFailReturnStatus (isCanonicalEndpoint identity.address) .kInvalid
      "non-canonical planning member address"
    checkFailReturnStatus (identity.id ∉ ids ∧ identity.address ∉ addresses) .kInvalid
      "duplicate planning member identity"
    validateIdentitiesFrom (identity.id :: ids) (identity.address :: addresses) rest

def validateIdentities (identities : List MemberIdentity) : Result Unit :=
  validateIdentitiesFrom [] [] identities

variable (current : TopologyState) (members : List Member)

/-- `std::find_if` by address. -/
def findByAddress (address : Bytes) : Option Member :=
  members.find? fun m => m.address = address

def validateSelectedMembers (current : TopologyState) : List MemberIdentity → Result Unit
  | [] => pure ()
  | identity :: rest => do
    checkFailReturnStatus
      (∃ m ∈ findByAddress current.members identity.address,
        m.identity = identity ∧ isCommittedMemberState m.state)
      .kInvalid "selected member identity/state is stale"
    validateSelectedMembers current rest

/-- What the member loop of `Validate` carries. -/
structure PlanScan where
  ids : List Bytes := []
  addresses : List Bytes := []
  tokens : List Token := []
  hasCommitted : Bool := false

def scanPlanMembers (scan : PlanScan) : List Member → Result PlanScan
  | [] => pure scan
  | member :: rest => do
    checkFailReturnStatus (member.identity.id.length = memberIdSize ∧ member.address ≠ [])
      .kInvalid "invalid topology member identity"
    checkFailReturnStatus (member.identity.id ∉ scan.ids ∧ member.address ∉ scan.addresses)
      .kInvalid "duplicate topology member identity"
    let tokens ← insertTokens "duplicate topology token" scan.tokens member.tokens
    scanPlanMembers
      { ids := member.identity.id :: scan.ids
        addresses := member.address :: scan.addresses
        tokens := tokens
        hasCommitted := scan.hasCommitted || isCommittedMemberState member.state } rest

def validate (state : TopologyState) : Result Unit := do
  let scan ← scanPlanMembers {} state.members
  checkFailReturnStatus (state.members = [] ∨ scan.hasCommitted) .kInvalid
    "non-empty topology has no committed member"

/-! ## Owners -/

structure TokenOwner where
  token : Token
  identity : MemberIdentity
deriving DecidableEq

/-- The owner list that `BuildOwners` returns on success, which is never empty. -/
structure OwnerRing where
  owners : List TokenOwner
  nonempty : owners ≠ []

/-- Whether a member's tokens count as owners. -/
def isEligible (includeJoining activeOnly : Bool) (state : MemberState) : Bool :=
  if activeOnly then state == .active
  else isCommittedMemberState state || (includeJoining && state == .joining)

/-- The members whose tokens count, without those at the excluded addresses. -/
def eligibleMembers (includeJoining : Bool) (excluded : List Bytes) (activeOnly : Bool) :
    List Member :=
  members.filter fun m => isEligible includeJoining activeOnly m.state && m.address ∉ excluded

def tokenOwners : List TokenOwner :=
  members.flatMap fun m => m.tokens.map fun t => ⟨t, m.identity⟩

def buildOwners (includeJoining : Bool) (excluded : List Bytes) (activeOnly : Bool) :
    Result OwnerRing :=
  let owners := sortBy TokenOwner.token
    (tokenOwners (eligibleMembers members includeJoining excluded activeOnly))
  if h : owners ≠ [] then .ok ⟨owners, h⟩
  else .error ⟨.kNotReady, "cluster topology has no committed token owner"⟩

def findOwner (ring : OwnerRing) (token : Token) : TokenOwner :=
  (ring.owners.find? fun o => token ≤ o.token).getD (ring.owners.head ring.nonempty)

def locateIndexedOwner (owners : List TokenIndexEntry) (token : Token) : Result Member :=
  match successor? Prod.fst owners token with
  | some entry => .ok entry.2
  | none => .error ⟨.kNotReady, "cluster topology has no token owner"⟩

def locateOwner (snapshot : TopologySnapshot) (token : Token) : Result Member :=
  locateIndexedOwner snapshot.committedTokenOwners token

def locateProspectiveOwner (snapshot : TopologySnapshot) (token : Token) : Result Member :=
  locateIndexedOwner
    (if snapshot.prospectiveTokenOwners.isEmpty then snapshot.committedTokenOwners
      else snapshot.prospectiveTokenOwners) token

/-! ## Ownership changes -/

def appendRange (ranges : List TokenRange) (range : TokenRange) : List TokenRange :=
  match ranges.getLast? with
  | some back =>
    if back.hi ≠ maxToken ∧ back.hi + 1 = range.lo then ranges.dropLast ++ [⟨back.lo, range.hi⟩]
    else ranges ++ [range]
  | none => ranges ++ [range]

variable (fromOwners toOwners : OwnerRing)

/-- Points at which the owner may change: right behind each token. -/
def boundaries : List Token :=
  let ends := (fromOwners.owners ++ toOwners.owners).filterMap fun o =>
    if o.token ≠ maxToken then some (o.token + 1) else none
  (sortBy id (0 :: ends)).dedup

/-- Record that `range` moves from `source` to `target`. -/
def recordChange (source target : MemberIdentity) (range : TokenRange)
    (old : Option TopologyOwnerChange) : TopologyOwnerChange :=
  { source := some source
    target := target
    ranges := appendRange (old.elim [] TopologyOwnerChange.ranges) range }

abbrev ChangeMap := OrderedMap (Lex (Bytes × Bytes)) TopologyOwnerChange

def diffRange (grouped : ChangeMap) (range : TokenRange) : ChangeMap :=
  let source := (findOwner fromOwners range.lo).identity
  let target := (findOwner toOwners range.lo).identity
  if source = target then grouped
  else grouped.alter (toLex (source.address, target.address)) (recordChange source target range)

def diffOwners : List TopologyOwnerChange :=
  ((cut (boundaries fromOwners toOwners)).foldl (diffRange fromOwners toOwners) .empty).values

/-! ## Plans -/

structure TokenAllocation where
  tokens : List Token := []
  tokenSeedOverrides : List TokenSeedOverride := []

def allocateFrom (tokensPerMember : Nat) :
    List MemberIdentity → TokenPlacement → OrderedMap Bytes TokenAllocation →
      Result (OrderedMap Bytes TokenAllocation)
  | [], _, allocated => pure allocated
  | identity :: rest, placement, allocated => do
    let (placement, sel) ← placement.selectTokens identity.address tokensPerMember
    allocateFrom tokensPerMember rest placement
      (allocated.insert identity.address ⟨sel.tokens, sel.overrides⟩)

def allocateTokens (members : List MemberIdentity) (tokensPerMember : Nat) :
    Result (OrderedMap Bytes TokenAllocation) := do
  checkFailReturnStatus (0 < tokensPerMember ∧ tokensPerMember ≤ maxHashRingTokensPerMember)
    .kInvalid "tokens per member is outside the supported range"
  validateIdentities members
  let ordered := sortBy MemberIdentity.address members
  let balanced := ordered.length * tokensPerMember ≤ balancedPlacementMaxRingTokens
  allocateFrom tokensPerMember ordered (TokenPlacement.new [] [] balanced) .empty

def buildInitialPlacement (joining : List MemberIdentity) (tokensPerMember : Nat) :
    Result TopologyPlan := do
  checkFailReturnStatus (current.members = [] ∧ joining ≠ []) .kInvalid
    "bootstrap requires an empty topology and members"
  let allocations ← allocateTokens joining tokensPerMember
  let ordered := sortBy MemberIdentity.address joining
  let members := ordered.map fun identity =>
    let allocation := (allocations.find? identity.address).getD {}
    Member.mk identity .active allocation.tokens allocation.tokenSeedOverrides
  pure
    { next :=
        { current with
          clusterHasInit := true
          tokensPerMember := tokensPerMember
          members := current.members ++ members }
      ownerChanges := [] }

/-- Ring owners with the dense member ordinal that share bookkeeping uses. -/
def collectPlacementOwners : List PlacementOwner :=
  members.zipIdx.flatMap fun (m, index) => m.tokens.map fun t => ⟨t, index⟩

def countNewJoiners (ordered : List MemberIdentity) (members : List Member) : Nat :=
  ordered.countP fun identity => members.all fun m => m.address ≠ identity.address

/-- Keep the members that are already joining and select tokens for the new ones. -/
def placeJoining (tokensPerMember : Nat) :
    List MemberIdentity → List Member → TokenPlacement → Result (List Member)
  | [], members, _ => pure members
  | identity :: rest, members, placement =>
    match findByAddress members identity.address with
    | some m => do
      checkFailReturnStatus (m.identity = identity ∧ m.state = .joining) .kInvalid
        "retained ScaleOut identity/state mismatch"
      placeJoining tokensPerMember rest members placement
    | none => do
      checkFailReturnStatus (∀ m ∈ members, m.identity.id ≠ identity.id) .kInvalid
        "new ScaleOut member id collides with current topology"
      let (placement, sel) ← placement.selectTokens identity.address tokensPerMember
      placeJoining tokensPerMember rest
        (members ++ [⟨identity, .joining, sel.tokens, sel.overrides⟩]) placement

def planScaleOut (joining : List MemberIdentity) (tokensPerMember : Nat) : Result TopologyPlan := do
  validate current
  validateIdentities joining
  checkFailReturnStatus
    (joining ≠ [] ∧ 0 < tokensPerMember ∧ tokensPerMember ≤ maxHashRingTokensPerMember)
    .kInvalid "ScaleOut requires joining members and tokens"
  let owners := collectPlacementOwners current.members
  let ordered := sortBy MemberIdentity.address joining
  -- retained members already carry tokens that are counted in `owners`
  let balanced := owners.length + countNewJoiners ordered current.members * tokensPerMember
    ≤ balancedPlacementMaxRingTokens
  let members ← placeJoining tokensPerMember ordered current.members
    (TokenPlacement.new owners current.tokens balanced)
  let fromOwners ← buildOwners current.members false [] false
  let toOwners ← buildOwners members true [] false
  pure
    { next := { current with tokensPerMember := tokensPerMember, members := members }
      ownerChanges := diffOwners fromOwners toOwners }

/-- Move the members with these addresses into `state`. -/
def markMembers (addresses : List Bytes) (state : MemberState) : List Member :=
  members.map fun m => if m.address ∈ addresses then m.withState state else m

def planScaleIn (leaving : List MemberIdentity) : Result TopologyPlan := do
  validate current
  validateIdentities leaving
  validateSelectedMembers current leaving
  checkFailReturnStatus (leaving ≠ []) .kInvalid "ScaleIn requires leaving members"
  let excluded := leaving.map MemberIdentity.address
  let fromOwners ← buildOwners current.members false [] false
  let toOwners ← buildOwners current.members false excluded false
  pure
    { next := { current with members := markMembers current.members excluded .preLeaving }
      ownerChanges := diffOwners fromOwners toOwners }

def planFailure (failed : List MemberIdentity) : Result TopologyPlan := do
  validate current
  validateIdentities failed
  validateSelectedMembers current failed
  checkFailReturnStatus (failed ≠ []) .kInvalid "Failure planning requires failed members"
  let excluded := failed.map MemberIdentity.address
  let fromOwners ← buildOwners current.members false [] false
  let toOwners ← buildOwners current.members false excluded true
  pure
    { next := { current with members := markMembers current.members excluded .failed }
      ownerChanges := (diffOwners fromOwners toOwners).filter fun change =>
        change.source.any fun source => source.address ∈ excluded }

end Datasystem.Cluster.HashAlgorithm
