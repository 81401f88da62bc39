import Datasystem.Cluster.TopologyPlanBuilder
import Datasystem.Cluster.TopologyTaskCodec
import Datasystem.Lib.Chunks

/-! Deterministic derivation of the tasks and notifies of an active batch. Any
controller derives them again from the committed snapshot, by planning the batch
once more. -/

namespace Datasystem.Cluster

open Common Lib

/-- All tasks and notifies of one topology epoch. -/
structure ExpectedDerivedState where
  tasks : List TopologyTask := []
  notifiesByAddress : OrderedMap Bytes TopologyTaskNotify := .empty
  notifyRecipients : List Bytes := []
  canonicalRestartNotify : Option TopologyRepositoryCodec.TaskNotifyPb := none

namespace TopologySnapshot

def findMemberByAddress (snapshot : TopologySnapshot) (address : Bytes) : Result Member :=
  match HashAlgorithm.findByAddress snapshot.state.members address with
  | some m => .ok m
  | none => .error ⟨.kNotFound, "member address not found"⟩

end TopologySnapshot

namespace TopologyTaskMaterializer

open Common.HashRingToken Lib.Sorting Lib.Chunks HashAlgorithm TopologyPlanBuilder

/-! ## Task ids -/

def idHashChars : Nat := 32

def appendU64 (value : Nat) : Bytes := bigEndian 8 value

def appendU32 (value : Nat) : Bytes := bigEndian 4 value

def appendString (value : Bytes) : Bytes := appendU64 value.length ++ value

/-- Ranges are compared by their first and then by their last token. -/
def rangeKey (range : TokenRange) : Lex (Token × Token) := toLex (range.lo, range.hi)

def sortRanges (ranges : List TokenRange) : List TokenRange := sortBy rangeKey ranges

def appendRanges (ranges : List TokenRange) : Bytes :=
  appendU64 ranges.length ++
    (sortRanges ranges).flatMap fun range => appendU32 range.lo.val ++ appendU32 range.hi.val

variable (sha256 : Sha256) (type : TopologyChangeType) (latest : TopologySnapshot)

def digestPrefix (seed : Bytes) : Bytes :=
  (Hasher.getSha256Hex sha256 seed).take idHashChars

/-- The number of a change type in the task id seed. -/
def typeByte : TopologyChangeType → Byte
  | .scaleOut => 0
  | .scaleIn => 1
  | .failure => 2

def migrateKindByte : Byte := 0

def deleteMemberKindByte : Byte := 1

/-- Everything that identifies a task: kind, batch, both addresses and the ranges. -/
def taskIdSeed : TopologyTask → Bytes
  | .migrate task =>
    [migrateKindByte, typeByte task.type] ++ appendU64 task.epoch ++
      appendString task.executorAddress ++ appendString task.targetAddress ++
      appendRanges (task.sourceRanges.map TopologyTaskRange.range)
  | .delete task =>
    [deleteMemberKindByte, typeByte .failure] ++ appendU64 task.epoch ++
      appendString task.executorAddress ++ appendString task.failedAddress ++
      appendRanges (task.recoveryRanges.map TopologyTaskRange.range)

def taskIdHead : TopologyTask → Bytes
  | .migrate task => ascii "m-e" ++ decimal task.epoch ++ ascii "-"
  | .delete task => ascii "d-e" ++ decimal task.epoch ++ ascii "-"

def buildTaskId (task : TopologyTask) : Bytes :=
  taskIdHead task ++ digestPrefix sha256 (taskIdSeed task)

def appendIdentity : Option MemberIdentity → Bytes
  | none => [0]
  | some identity => 1 :: (appendString identity.id ++ appendString identity.address)

/-- The number of a phase in the seed of an operation id. -/
def phaseByte : TopologyCallbackPhase → Byte
  | .scaleOut => 0
  | .scaleIn => 1
  | .failure => 3

/-- What a callback does, whichever task and batch it is for. -/
def businessOperationSeed (phase : TopologyCallbackPhase)
    (fence : TopologyExecutionFence) : Bytes :=
  phaseByte phase :: (appendIdentity (if phase = .failure then none else fence.source) ++
    appendIdentity fence.target ++ appendIdentity fence.failed ++ appendRanges fence.ranges)

def buildBusinessOperationId (phase : TopologyCallbackPhase) (fence : TopologyExecutionFence) :
    Bytes :=
  ascii "op-" ++ digestPrefix sha256 (businessOperationSeed phase fence)

/-! ## Tasks of one owner change -/

/-- The member loop of `MatchesSnapshot`. -/
def matchesMembers : List Member → List Member → Bool
  | [], [] => true
  | left :: lefts, right :: rights =>
    left.identity = right.identity && left.state = right.state && matchesMembers lefts rights
  | _, _ => false

def matchesSnapshot (next : TopologyState) : Bool :=
  latest.state.version = next.version && latest.state.clusterHasInit = next.clusterHasInit &&
    latest.state.tokensPerMember = next.tokensPerMember &&
    latest.state.activeBatch = next.activeBatch && matchesMembers latest.state.members next.members

/-- The order check over sorted ranges, with the end of the range before. -/
def validateRanges (previousEnd : Option Token) : List TokenRange → Result Unit
  | [] => pure ()
  | range :: rest => do
    checkFailReturnStatus (range.lo ≤ range.hi) .kInvalid "invalid owner-change range"
    checkFailReturnStatus (∀ e ∈ previousEnd, e < range.lo) .kInvalid
      "overlapping owner-change ranges"
    validateRanges (some range.hi) rest

/-- The states that source and target of a change must be in. -/
def validateChangeStates (source target : Member) : Result Unit :=
  match type with
  | .scaleOut =>
    checkFailReturnStatus (isCommittedMemberState source.state ∧ target.state = .joining) .kInvalid
      "ScaleOut target is not joining"
  | .failure => do
    checkFailReturnStatus (source.state = .failed) .kInvalid
      "Failure owner change source is not failed"
    checkFailReturnStatus (target.state = .active) .kInvalid
      "Failure owner change target is not active"
  | .scaleIn =>
    checkFailReturnStatus
      (source.state = .leaving ∧ isAdmittedScaleInMigrationTargetState target.state) .kInvalid
      "ScaleIn owner change requires a leaving source and an admitted target"

def validateOwnerChange (type : TopologyChangeType) (change : TopologyOwnerChange) : Result Unit :=
  match change.source with
  | none => .error ⟨.kInvalid, "owner change lacks a source or ranges"⟩
  | some changeSource => do
    checkFailReturnStatus (change.ranges ≠ []) .kInvalid "owner change lacks a source or ranges"
    let source ← latest.findMemberByAddress changeSource.address
    let target ← latest.findMemberByAddress change.target.address
    checkFailReturnStatus (source.identity = changeSource ∧ target.identity = change.target)
      .kInvalid "owner change member generation is stale"
    validateChangeStates type source target
    validateRanges none (sortRanges change.ranges)

/-- A task over some ranges of a change. Failed members cannot send, so their ranges are
recovered by the target; otherwise the source sends them. -/
def changeTask (epoch : Nat) (source target : Bytes) (ranges : List TokenRange) : TopologyTask :=
  match type with
  | .failure => .delete ⟨[], epoch, target, source, (sortRanges ranges).map (⟨target, ·, false⟩)⟩
  | _ => .migrate ⟨[], type, epoch, source, target, (sortRanges ranges).map (⟨source, ·, false⟩)⟩

def appendTaskChunks (epoch : Nat) (change : TopologyOwnerChange) : List TopologyTask :=
  (chunks maxTopologyTaskRanges (sortRanges change.ranges)).map
    (changeTask type epoch (change.source.elim [] MemberIdentity.address) change.target.address)

/-! ## The whole batch -/

def collectTasks (latest : TopologySnapshot) (batch : ActiveBatch) :
    List TopologyOwnerChange → Result (List TopologyTask)
  | [] => pure []
  | change :: rest => do
    validateOwnerChange latest batch.type change
    let tasks ← collectTasks latest batch rest
    pure (appendTaskChunks batch.type batch.epoch change ++ tasks)

def assignTaskIds (sha256 : Sha256) : List TopologyTask → Result (List TopologyTask)
  | [] => pure []
  | task :: rest => do
    let taskId := buildTaskId sha256 task
    checkFailReturnStatus (idHashChars < taskId.length) .kRuntimeError "build task digest failed"
    let tasks ← assignTaskIds sha256 rest
    pure (task.withTaskId taskId :: tasks)

/-- Tell the executor of the task about it. -/
def addNotify (batch : ActiveBatch) (notifies : OrderedMap Bytes TopologyTaskNotify)
    (task : TopologyTask) : OrderedMap Bytes TopologyTaskNotify :=
  notifies.alter task.executorAddress fun old =>
    let notify := old.getD {}
    { notify with activeBatch := some batch, taskIds := notify.taskIds ++ [task.taskId] }

def buildExpected (plan : TopologyPlan) : Result ExpectedDerivedState :=
  match latest.state.activeBatch with
  | none => .error ⟨.kInvalid, "placement plan does not match latest active topology"⟩
  | some batch => do
    checkFailReturnStatus (matchesSnapshot latest plan.next) .kInvalid
      "placement plan does not match latest active topology"
    let collected ← collectTasks latest batch plan.ownerChanges
    let named ← assignTaskIds sha256 collected
    let tasks := sortBy TopologyTask.taskId named
    let notifies := tasks.foldl (addNotify batch) .empty
    pure { tasks := tasks, notifiesByAddress := notifies, notifyRecipients := notifies.keys }

/-- Plan the active batch again, on the members as they are now. -/
def rebuildPlan : Result TopologyPlan :=
  match latest.state.activeBatch with
  | none => .error ⟨.kInvalid, "derived state requires an active batch"⟩
  | some batch => do
    let current := latest.state
    let selected := membersInState current batch.type.participant
    checkFailReturnStatus (selected ≠ []) .kInvalid "active batch has no selected members"
    match batch.type with
    | .scaleOut => do
      let plan ← planScaleOut current selected current.tokensPerMember
      pure { plan with next := latest.state }
    | .scaleIn => do
      let plan ← planScaleIn current selected
      pure { plan with next := latest.state }
    | .failure =>
      if ∃ m ∈ latest.state.members, m.state = .active then do
        let plan ← planFailure { current with members := planningMembers current.members } selected
        pure { plan with next := latest.state }
      else pure ⟨latest.state, []⟩

/-- Derive the batch part: nothing without an active batch. -/
def rebuildBatch : Result ExpectedDerivedState :=
  if latest.state.activeBatch ≠ none then do
    let plan ← rebuildPlan latest
    buildExpected sha256 latest plan
  else pure {}

/-- Restart time stamps of the records, and every recorded address. -/
def collectRestarts (restarts : OrderedMap Bytes Int) :
    List MembershipRecord → Result (OrderedMap Bytes Int)
  | [] => pure restarts
  | record :: rest => do
    checkFailReturnStatus (record.address ≠ []) .kInvalid "restart membership address is empty"
    if record.state = .restarting then
      checkFailReturnStatus (0 < record.timestamp) .kInvalid
        "restart membership timestamp is invalid"
      collectRestarts (restarts.insert record.address record.timestamp) rest
    else collectRestarts restarts rest

/-- `RebuildExpected` with membership records. -/
def rebuildExpectedWith (memberships : List MembershipRecord) (includeRestartFacts : Bool) :
    Result ExpectedDerivedState := do
  let built ← rebuildBatch sha256 latest
  if includeRestartFacts then
    let restarts ← collectRestarts .empty memberships
    let recipients :=
      sortBy id (built.notifyRecipients ++ memberships.map MembershipRecord.address)
    let notify ← TopologyRepositoryCodec.encodeNotify { restartTimestampsByAddress := restarts }
    pure { built with notifyRecipients := recipients.dedup, canonicalRestartNotify := some notify }
  else pure built

def rebuildExpected : Result ExpectedDerivedState :=
  rebuildExpectedWith sha256 latest [] false

end TopologyTaskMaterializer

end Datasystem.Cluster
