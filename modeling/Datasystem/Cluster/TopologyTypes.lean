import Datasystem.Common.HashRingToken
import Datasystem.Lib.Spans
import Datasystem.Common.Hasher
import Datasystem.Common.Status

/-! Members, states and plans of the cluster topology. -/

namespace Datasystem.Cluster

open Common HashRingToken Lib.Spans

inductive MemberState
  | initial
  | joining
  | active
  | preLeaving
  | leaving
  | failed
deriving DecidableEq

inductive TopologyChangeType
  | scaleOut
  | scaleIn
  | failure
deriving DecidableEq

inductive TopologyTaskKind
  | migrate
  | deleteMember
deriving DecidableEq

/-- What a callback is for. `SCALE_IN_CLEANUP` is not the phase of any task. -/
inductive TopologyCallbackPhase
  | scaleOut
  | scaleIn
  | failure
deriving DecidableEq

def maxMemberAddressBytes : Nat := 1024

def maxTopologyTaskRanges : Nat := 4096

def defaultHashRingTokensPerMember : Nat := 32

/-- Length of a member id, the source's `MEMBER_ID_SIZE` and `UUID_SIZE`. -/
def memberIdSize : Nat := 16

/-- An admission check for a target that was already selected. -/
def isAdmittedScaleInMigrationTargetState (state : MemberState) : Bool :=
  state == .active || state == .preLeaving

def isCommittedMemberState (state : MemberState) : Bool :=
  state == .active || state == .preLeaving || state == .leaving

structure MemberIdentity where
  id : Bytes
  address : Bytes
deriving DecidableEq

/-- Tokens `from` to `end` of the source, both included. -/
abbrev TokenRange := Span (2 ^ 32)

structure TokenSeedOverride where
  tokenIndex : Nat
  tokenSeed : Nat
deriving DecidableEq

structure Member where
  identity : MemberIdentity
  state : MemberState
  tokens : List Token
  tokenSeedOverrides : List TokenSeedOverride
deriving DecidableEq

structure ActiveBatch where
  type : TopologyChangeType
  epoch : Nat
deriving DecidableEq

structure TopologyState where
  clusterHasInit : Bool := false
  version : Nat := 0
  members : List Member := []
  activeBatch : Option ActiveBatch := none
  tokensPerMember : Nat := defaultHashRingTokensPerMember
deriving DecidableEq

structure TopologyTaskRange where
  ownerAddress : Bytes
  range : TokenRange
  finished : Bool
deriving DecidableEq

structure TopologyMigrateTask where
  taskId : Bytes
  type : TopologyChangeType
  epoch : Nat
  executorAddress : Bytes
  targetAddress : Bytes
  sourceRanges : List TopologyTaskRange
deriving DecidableEq

structure TopologyDeleteTask where
  taskId : Bytes
  epoch : Nat
  executorAddress : Bytes
  failedAddress : Bytes
  recoveryRanges : List TopologyTaskRange
deriving DecidableEq

inductive TopologyTask
  | migrate (task : TopologyMigrateTask)
  | delete (task : TopologyDeleteTask)
deriving DecidableEq

/-- The part of a batch that one callback may act for. -/
structure TopologyExecutionFence where
  taskId : Bytes
  taskKind : TopologyTaskKind
  batchType : TopologyChangeType
  batchEpoch : Nat
  phase : TopologyCallbackPhase
  executor : MemberIdentity
  source : Option MemberIdentity
  target : Option MemberIdentity
  failed : Option MemberIdentity
  ranges : List TokenRange
deriving DecidableEq

structure TopologyOwnerChange where
  source : Option MemberIdentity
  target : MemberIdentity
  ranges : List TokenRange
deriving DecidableEq

structure TopologyPlan where
  next : TopologyState
  ownerChanges : List TopologyOwnerChange
deriving DecidableEq

/-- The state a batch of the given type moves its participants into. -/
def TopologyChangeType.participant : TopologyChangeType → MemberState
  | .scaleOut => .joining
  | .scaleIn => .leaving
  | .failure => .failed

namespace Member

abbrev address (m : Member) : Bytes := m.identity.address

variable (m : Member) (s : MemberState)

/-- `m` in another state, with everything else as before. -/
def withState (state : MemberState) : Member := { m with state := state }

@[simp] theorem withState_state : (m.withState s).state = s := rfl

@[simp] theorem withState_address : (m.withState s).address = m.address := rfl

@[simp] theorem withState_identity : (m.withState s).identity = m.identity := rfl

@[simp] theorem withState_tokens : (m.withState s).tokens = m.tokens := rfl

end Member

namespace TopologyTask

def taskId : TopologyTask → Bytes
  | .migrate task => task.taskId
  | .delete task => task.taskId

def taskKind : TopologyTask → TopologyTaskKind
  | .migrate _ => .migrate
  | .delete _ => .deleteMember

def epoch : TopologyTask → Nat
  | .migrate task => task.epoch
  | .delete task => task.epoch

def executorAddress : TopologyTask → Bytes
  | .migrate task => task.executorAddress
  | .delete task => task.executorAddress

/-- The ranges with their progress. -/
def taskRanges : TopologyTask → List TopologyTaskRange
  | .migrate task => task.sourceRanges
  | .delete task => task.recoveryRanges

/-- The ranges of tokens the task moves or recovers. -/
def ranges : TopologyTask → List TokenRange
  | .migrate task => task.sourceRanges.map TopologyTaskRange.range
  | .delete task => task.recoveryRanges.map TopologyTaskRange.range

def withTaskId (task : TopologyTask) (taskId : Bytes) : TopologyTask :=
  match task with
  | .migrate task => .migrate { task with taskId := taskId }
  | .delete task => .delete { task with taskId := taskId }

end TopologyTask

namespace TopologyState

def addresses (s : TopologyState) : List Bytes := s.members.map Member.address

/-- All tokens, member by member. -/
def tokens (s : TopologyState) : List Token := s.members.flatMap Member.tokens

end TopologyState

/-! Membership records and the member id derived from one. -/

inductive MemberLifecycleState
  | unknown
  | starting
  | restarting
  | recovering
  | ready
  | exiting
  | downgradeRestarting
  | failed
deriving DecidableEq

structure MembershipRecord where
  address : Bytes
  state : MemberLifecycleState
  timestamp : Int
  hostId : Bytes
deriving DecidableEq

/-- `std::to_string` of a signed number. -/
def signedDecimal (n : Int) : Bytes :=
  if n < 0 then ascii "-" ++ decimal n.natAbs else decimal n.natAbs

/-- The text that identifies one generation of a member. -/
def memberIdSeed (membership : MembershipRecord) : Bytes :=
  decimal membership.address.length ++ ascii ":" ++ membership.address ++ ascii ":" ++
    signedDecimal membership.timestamp ++ ascii ":" ++ membership.hostId

def buildMemberId (sha256 : Sha256) (membership : MembershipRecord) : Result Bytes := do
  let digest := sha256.digest (memberIdSeed membership)
  checkFailReturnStatus (memberIdSize ≤ digest.length) .kRuntimeError
    "membership generation digest is too short"
  pure (digest.take memberIdSize)

/-- Where member ids come from: the digest, and every membership record ever written. Ids of
records at different addresses differ. -/
structure MembershipSource where
  sha256 : Sha256
  records : Set MembershipRecord
  distinct : ∀ r ∈ records, ∀ r' ∈ records, ∀ id, buildMemberId sha256 r = .ok id →
    buildMemberId sha256 r' = .ok id → r.address = r'.address

end Datasystem.Cluster
