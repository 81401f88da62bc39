import Datasystem.Cluster.ValidTopology
import Datasystem.Lib.OrderedMap

/-! The snapshot that a process has published, and the tokens that have been handed over in the
scale-out that the snapshot shows. Each call runs under the publication lock. -/

namespace Datasystem.Cluster

open Common HashRingToken Lib Spans Checked

def sha256HexSize : Nat := 64

def isSha256Hex (digest : Bytes) : Bool :=
  digest.length = sha256HexSize ∧
    digest.all fun value => (48 ≤ value ∧ value ≤ 57) ∨ (97 ≤ value ∧ value ≤ 102)

/-- A snapshot with the evidence that it was read with. -/
structure EvidencedSnapshot where
  snapshot : TopologySnapshot
  authorityRevision : Int
  canonicalDigest : Bytes
  hostIds : OrderedMap Bytes Bytes
  hostIdsKnown : Bool
  coordinatorId : Bytes
  evidence : 0 ≤ authorityRevision ∧ isSha256Hex canonicalDigest

namespace EvidencedSnapshot

variable (s : EvidencedSnapshot)

def version : Nat := s.snapshot.state.version

def members : List Member := s.snapshot.state.members

def activeBatch : Option ActiveBatch := s.snapshot.state.activeBatch

def findMemberByAddress (address : Bytes) : Option Member :=
  s.members.find? fun m => m.address = address

/-- `TopologySnapshot::Create` with the evidence. -/
def create (state : TopologyState) (authorityRevision : Int) (canonicalDigest : Bytes)
    (hostIds : OrderedMap Bytes Bytes) (hostIdsKnown : Bool) (coordinatorId : Bytes) :
    Result EvidencedSnapshot :=
  if evidence : 0 ≤ authorityRevision ∧ isSha256Hex canonicalDigest then do
    let snapshot ← TopologySnapshot.create state
    pure ⟨snapshot, authorityRevision, canonicalDigest, hostIds, hostIdsKnown, coordinatorId,
      evidence⟩
  else .error ⟨.kInvalid, "invalid topology evidence"⟩

end EvidencedSnapshot

/-- The host id of a member that the previous snapshot had under the same identity. -/
def retainHostId (previous : EvidencedSnapshot) (hostIds : OrderedMap Bytes Bytes)
    (member : Member) : OrderedMap Bytes Bytes :=
  match previous.hostIds.find? member.address, previous.findMemberByAddress member.address with
  | some host, some oldMember =>
    if oldMember.identity.id = member.identity.id then hostIds.insert member.address host
    else hostIds
  | _, _ => hostIds

def retainedHostIds (previous candidate : EvidencedSnapshot) : OrderedMap Bytes Bytes :=
  candidate.members.foldl (retainHostId previous) .empty

def retainLastGoodHostIds (previous : Option EvidencedSnapshot) (candidate : EvidencedSnapshot) :
    Result EvidencedSnapshot :=
  match previous with
  | none => pure candidate
  | some previous =>
    if candidate.hostIdsKnown ∨ ¬ previous.hostIdsKnown then pure candidate
    else EvidencedSnapshot.create candidate.snapshot.state candidate.authorityRevision
      candidate.canonicalDigest
      (retainedHostIds previous candidate) previous.hostIdsKnown candidate.coordinatorId

/-- `MergeRanges`: the spans of one completion and of those before it. -/
def mergeRanges (ranges : List TokenRange) : List TokenRange := merge ranges

structure ScaleOutHandoffCompletion where
  batchEpoch : Nat
  ranges : List TokenRange

structure TopologySnapshotState where
  current : Option EvidencedSnapshot := none
  scaleOutHandoffCompletion : Option ScaleOutHandoffCompletion := none

inductive SnapshotUpdateOutcome
  | published
  | idempotent
  | versionGap
  | conflict
  | versionRollback
deriving DecidableEq

namespace TopologySnapshotState

variable (s : TopologySnapshotState) (snapshot : EvidencedSnapshot)

/-- The completion belongs to the scale-out of the snapshot. -/
def stillCurrent : Bool :=
  match snapshot.activeBatch, s.scaleOutHandoffCompletion with
  | some batch, some completion => batch.type = .scaleOut ∧ completion.batchEpoch = batch.epoch
  | _, _ => false

def resetScaleOutHandoffIfBatchChanged : TopologySnapshotState :=
  if s.stillCurrent snapshot then s else { s with scaleOutHandoffCompletion := none }

/-- Store the snapshot, with the host ids that are still good. -/
def store : Result TopologySnapshotState := do
  let retained ← retainLastGoodHostIds s.current snapshot
  pure { s.resetScaleOutHandoffIfBatchChanged retained with current := some retained }

/-- Whether an idempotent publication brings new evidence. -/
def bringsEvidence (current snapshot : EvidencedSnapshot) : Bool :=
  snapshot.coordinatorId ≠ current.coordinatorId ∨
    snapshot.authorityRevision ≠ current.authorityRevision ∨
    (snapshot.hostIdsKnown ∧
      (snapshot.hostIds.entries ≠ current.hostIds.entries ∨ ¬ current.hostIdsKnown))

/-- How a publication ended, what it reported, and the state it left. -/
structure PublishResult where
  status : Result Unit
  outcome : Option SnapshotUpdateOutcome
  state : TopologySnapshotState

/-- The end of a publication that stores its snapshot unless the host ids cannot be kept. -/
def finishPublish (stored : Result TopologySnapshotState) (outcome : SnapshotUpdateOutcome) :
    PublishResult :=
  match stored with
  | .error status => ⟨.error status, none, s⟩
  | .ok s' => ⟨.ok (), some outcome, s'⟩

def reject (outcome : SnapshotUpdateOutcome) : PublishResult :=
  ⟨.error ⟨.kInvalid, "cluster topology Snapshot version/digest rejected"⟩, some outcome, s⟩

def publish (s : TopologySnapshotState) : Option EvidencedSnapshot → PublishResult
  | none => ⟨.error ⟨.kInvalid, "cannot publish a null cluster topology Snapshot"⟩, none, s⟩
  | some snapshot =>
    match s.current with
    | none => s.finishPublish (s.store snapshot) .published
    | some current =>
      if snapshot.version = current.version + 1 then
        s.finishPublish (s.store snapshot) .published
      else if snapshot.version < current.version then s.reject .versionRollback
      else if current.version < snapshot.version then s.reject .versionGap
      else if snapshot.canonicalDigest = current.canonicalDigest then
        if bringsEvidence current snapshot then
          -- the batch is the one of the current snapshot, so the completion stays
          s.finishPublish ((retainLastGoodHostIds s.current snapshot).map fun retained =>
            { s with current := some retained }) .idempotent
        else ⟨.ok (), some .idempotent, s⟩
      else s.reject .conflict

def publishAfterFullRebuild : Option EvidencedSnapshot → Result TopologySnapshotState
  | none => .error ⟨.kInvalid, "cannot rebuild from a null Snapshot"⟩
  | some snapshot => do
    checkFailReturnStatus (s.current.all fun current => current.version < snapshot.version)
      .kInvalid
      "full rebuild must advance cluster topology version"
    s.store snapshot

def refreshHostIds (hostIds : OrderedMap Bytes Bytes) (coordinatorId : Bytes) :
    Result TopologySnapshotState :=
  match s.current with
  | none => pure s
  | some current =>
    if current.coordinatorId ≠ coordinatorId then pure s
    else if current.hostIdsKnown ∧ current.hostIds.entries = hostIds.entries then pure s
    else do
      let candidate ← EvidencedSnapshot.create current.snapshot.state current.authorityRevision
        current.canonicalDigest hostIds true coordinatorId
      pure { s with current := some candidate }

/-- The batch of the published snapshot. -/
def activeBatch (s : TopologySnapshotState) : Option ActiveBatch :=
  s.current.bind EvidencedSnapshot.activeBatch

variable (fence : TopologyExecutionFence)

/-- A completion counts for the scale-out that is published now. -/
def accepts : Bool :=
  fence.batchType = .scaleOut ∧ fence.phase = .scaleOut ∧ fence.ranges ≠ [] ∧
    s.activeBatch = some ⟨.scaleOut, fence.batchEpoch⟩

def recordScaleOutHandoffCompletion : TopologySnapshotState :=
  if s.accepts fence then
    let earlier := match s.scaleOutHandoffCompletion with
      | some previous => if previous.batchEpoch = fence.batchEpoch then previous.ranges else []
      | none => []
    { s with
      scaleOutHandoffCompletion := some ⟨fence.batchEpoch, mergeRanges (fence.ranges ++ earlier)⟩ }
  else s

/-- `IsScaleOutHandoffComplete`: `std::lower_bound` finds the first range that does not end below
the token. -/
def isScaleOutHandoffComplete (batchEpoch : Nat) (token : Token) : Bool :=
  match s.scaleOutHandoffCompletion with
  | none => false
  | some completed =>
    if batchEpoch = 0 ∨ completed.batchEpoch ≠ batchEpoch then false
    else (completed.ranges.find? fun range => ¬ range.hi < token).any fun range => range.lo ≤ token

def clear (_ : TopologySnapshotState) : TopologySnapshotState := {}

end TopologySnapshotState

end Datasystem.Cluster
