import Datasystem.Cluster.TaskRepository
import Datasystem.Cluster.TopologyTaskMaterializer

/-! The executor of a worker: which callbacks it has admitted, which operations
wait for another attempt, and which ScaleIn operations still have metadata to
move. Each function below is one section that the source runs under its mutex. -/

namespace Datasystem.Cluster

open Common Lib TopologyTaskMaterializer TopologyRepository

/-- Times are in milliseconds. -/
structure TopologyTaskExecutorOptions where
  callbackThreads : Nat := 4
  callbackQueueCapacity : Nat := 1024
  ordinaryCallbackDeadline : Nat := 10000
  ordinaryMemberWindow : Nat := 180000
  ordinaryMaxAttempts : Nat := 8
  backoffInitial : Nat := 100
  backoffMaximum : Nat := 30000
  failureCallbackDeadline : Nat := 5000
  failureBatchWindow : Nat := 30000
  ordinaryDrain : Nat := 3000
  failureDrain : Nat := 1000

structure OperationState where
  task : TopologyTask
  attempts : Nat := 0
  nextAttempt : Nat := 0
  /-- The token of the callback in flight. -/
  cancellation : Option Nat := none
  /-- Empty while the operation is at no gate. -/
  scaleInMetadataGate : Bytes := []
  progressReady : Bool := false
  scaleInMetadataDone : Bool := false
  bestEffortFailure : Bool := false

structure TopologyTaskExecutor where
  started : Bool := false
  stopping : Bool := false
  inFlightOperations : Nat := 0
  currentEpoch : Nat := 0
  operations : OrderedMap Bytes OperationState := .empty
  scheduledOperations : Finset Bytes := ∅
  ordinaryDeadlineByMember : OrderedMap Bytes Nat := .empty
  failureDeadlineByEpoch : OrderedMap Nat Nat := .empty
  scaleInMetadataPendingByGate : OrderedMap Bytes (Finset Bytes) := .empty
  /-- Tokens handed out so far; the next token has this number. -/
  tokens : Nat := 0
  cancelledTokens : Finset Nat := ∅

/-! ## Fences -/

namespace TopologyTask

def phase : TopologyTask → TopologyCallbackPhase
  | .delete _ => .failure
  | .migrate task => if task.type = .scaleOut then .scaleOut else .scaleIn

end TopologyTask

namespace TopologyTaskExecutor

def maxCallbackThreads : Nat := 16

def maxCallbackQueueCapacity : Nat := 1024

def maxBackoffShift : Nat := 20

def operationIdPrefixSize : Nat := 3

variable (options : TopologyTaskExecutorOptions) (x : TopologyTaskExecutor)
  (fence : TopologyExecutionFence)

def validOptions : Bool :=
  0 < options.callbackThreads && options.callbackThreads ≤ maxCallbackThreads &&
    0 < options.callbackQueueCapacity &&
    options.callbackQueueCapacity ≤ maxCallbackQueueCapacity &&
    0 < options.ordinaryMaxAttempts && 0 < options.backoffInitial &&
    options.backoffInitial ≤ options.backoffMaximum &&
    options.failureDrain < options.failureCallbackDeadline &&
    options.failureCallbackDeadline < options.failureBatchWindow &&
    options.ordinaryDrain < options.ordinaryCallbackDeadline &&
    options.ordinaryCallbackDeadline < options.ordinaryMemberWindow &&
    0 < options.failureDrain && 0 < options.ordinaryDrain

/-- The states that executor and target of a migrate task must be in. -/
def validateMigrateParticipants (type : TopologyChangeType) (phase : TopologyCallbackPhase)
    (executor target : Member) : Result Unit :=
  if type = .scaleOut then
    checkFailReturnStatus
      (phase = .scaleOut ∧ isCommittedMemberState executor.state ∧ target.state = .joining)
      .kInvalid "invalid ScaleOut task participants"
  else
    checkFailReturnStatus
      (phase = .scaleIn ∧ executor.state = .leaving ∧
        isAdmittedScaleInMigrationTargetState target.state)
      .kInvalid "invalid ScaleIn task participants"

variable (operation : Bytes) (phase : TopologyCallbackPhase) (task : TopologyTask)
  (fence : TopologyExecutionFence) (sha256 : Sha256) (localAddress : Bytes)

def buildExecutionFence (task : TopologyTask)
    (phase : TopologyCallbackPhase) (snapshot : TopologySnapshot) :
    Result TopologyExecutionFence :=
  match snapshot.state.activeBatch with
  | none => .error ⟨.kInvalid, "task has no active topology batch"⟩
  | some batch => do
    checkFailReturnStatus (task.unfinishedRanges ≠ []) .kNotReady
      "topology task scope is already finished"
    checkFailReturnStatus (buildTaskId sha256 task = task.taskId ∧ task.epoch = batch.epoch)
      .kInvalid "topology task identity or epoch is stale"
    let executor ← snapshot.findMemberByAddress task.executorAddress
    checkFailReturnStatus (task.executorAddress = localAddress) .kInvalid
      "topology task executor is not local"
    let built : TopologyExecutionFence :=
      { taskId := task.taskId, taskKind := task.taskKind, batchType := batch.type
        batchEpoch := task.epoch, phase := phase, executor := executor.identity
        source := none, target := none, failed := none, ranges := task.unfinishedRanges }
    match task with
    | .migrate migrate => do
      let target ← snapshot.findMemberByAddress migrate.targetAddress
      checkFailReturnStatus (migrate.type = batch.type) .kInvalid "migrate task type is stale"
      validateMigrateParticipants migrate.type phase executor target
      pure { built with source := some executor.identity, target := some target.identity }
    | .delete remove => do
      let failed ← snapshot.findMemberByAddress remove.failedAddress
      checkFailReturnStatus
        (phase = .failure ∧ batch.type = .failure ∧ executor.state = .active ∧
          failed.state = .failed)
        .kInvalid "invalid Failure task participants"
      pure { built with failed := some failed.identity }

/-- `BuildExecutionFence` on the published snapshot. -/
def buildLocalFence (task : TopologyTask)
    (snapshot : Option TopologySnapshot) : Result TopologyExecutionFence :=
  match snapshot with
  | none => .error ⟨.kNotReady, "cluster topology Snapshot is not ready"⟩
  | some snapshot => buildExecutionFence sha256 localAddress task task.phase snapshot

/-- The comparison of `ValidateFence`, on the task and the topology that it read. -/
def validateFence (fence : TopologyExecutionFence)
    (task : TopologyTask) (candidate : TopologySnapshot) : Result Unit := do
  let observed ← buildExecutionFence sha256 localAddress task fence.phase candidate
  checkFailReturnStatus (fence = observed) .kInvalid "topology execution fence is stale"

/-- `BuildPhaseAction`: which participants a callback of a phase has. -/
def buildPhaseAction : Result Unit :=
  checkFailReturnStatus
    ((fence.phase ≠ .failure ∧ fence.source.isSome ∧ fence.target.isSome ∧ fence.failed.isNone) ∨
      (fence.phase = .failure ∧ fence.source.isNone ∧ fence.target.isNone ∧ fence.failed.isSome))
    .kInvalid "illegal topology callback participant matrix"

/-- The range loop of `BuildKeyFilter`, with the end of the range before. -/
def checkFilterRanges (previousEnd : Option HashRingToken.Token) : List TokenRange → Result Unit
  | [] => pure ()
  | range :: rest => do
    checkFailReturnStatus (range.lo ≤ range.hi) .kInvalid "invalid topology callback range"
    checkFailReturnStatus (previousEnd.all (· < range.lo)) .kInvalid
      "overlapping topology callback ranges"
    checkFilterRanges (some range.hi) rest

def buildKeyFilter : Result Unit := do
  checkFailReturnStatus (fence.ranges ≠ []) .kInvalid "empty topology callback scope"
  checkFilterRanges none (sortRanges fence.ranges)

/-- The operation a callback of a fence is booked under. -/
def operationOf (fence : TopologyExecutionFence) : Bytes :=
  buildBusinessOperationId sha256 fence.phase fence

/-- `ScaleInMetadataGateKey` of an epoch and a source. -/
def scaleInMetadataGateKey (epoch : Nat) (sourceId : Bytes) : Bytes :=
  decimal epoch ++ ascii ":" ++ sourceId

/-- `ScaleInMetadataGateKey` of a fence. -/
def scaleInMetadataGate : Result Bytes :=
  match fence.source with
  | none => .error ⟨.kInvalid, "invalid ScaleIn metadata gate fence"⟩
  | some source => do
    checkFailReturnStatus (fence.phase = .scaleIn) .kInvalid "invalid ScaleIn metadata gate fence"
    pure (scaleInMetadataGateKey fence.batchEpoch source.id)

/-- The longest delay before another attempt. -/
def retryCap (attempt : Nat) (options : TopologyTaskExecutorOptions) : Nat :=
  let multiplier := 2 ^ min (attempt - 1) maxBackoffShift
  if options.backoffMaximum / multiplier < options.backoffInitial then options.backoffMaximum
  else options.backoffInitial * multiplier

/-- `RetryDelay`: `draw` is what the random generator gives. -/
def retryDelay (attempt : Nat) (options : TopologyTaskExecutorOptions) (draw : Nat) : Nat :=
  draw % (retryCap attempt options + 1)

def isOrdinaryRetryable (status : Status) : Bool :=
  status.code = .kTryAgain || status.code = .kNotReady || isRetryableRpcError status

/-! ## Entries of one operation -/

def modifyOperation (f : OperationState → OperationState) : TopologyTaskExecutor :=
  { x with operations := x.operations.modify operation f }

/-- A callback of the operation is in flight. -/
def ownsToken : Bool :=
  (x.operations.find? operation).any fun state => state.cancellation.isSome

def releaseInFlight : TopologyTaskExecutor :=
  if x.ownsToken operation then
    { x with
      operations := x.operations.modify operation ({ · with cancellation := none })
      inFlightOperations := x.inFlightOperations - 1 }
  else x

def scheduleOperation (nextAttempt : Nat) : TopologyTaskExecutor :=
  { x with
    scheduledOperations := insert operation x.scheduledOperations
    operations := x.operations.modify operation ({ · with nextAttempt := nextAttempt }) }

def clearOperationSchedule : TopologyTaskExecutor :=
  { x with
    scheduledOperations := x.scheduledOperations.erase operation
    operations := x.operations.modify operation ({ · with nextAttempt := 0 }) }

/-- Take an operation off a gate. A gate that nothing waits for is removed. -/
def leaveGate (gate operation : Bytes) : TopologyTaskExecutor :=
  match x.scaleInMetadataPendingByGate.find? gate with
  | none => x
  | some waiting =>
    { x with
      scaleInMetadataPendingByGate :=
        if waiting.erase operation = ∅ then x.scaleInMetadataPendingByGate.erase gate
        else x.scaleInMetadataPendingByGate.insert gate (waiting.erase operation) }

/-- The entries of an operation outside the operation table. -/
def forgetOperation (state : OperationState) : TopologyTaskExecutor :=
  let left := if state.scaleInMetadataGate = [] then x
    else x.leaveGate state.scaleInMetadataGate operation
  let released := left.releaseInFlight operation
  { released with scheduledOperations := released.scheduledOperations.erase operation }

def eraseOperation : TopologyTaskExecutor :=
  match x.operations.find? operation with
  | none => x
  | some state =>
    let forgotten := x.forgetOperation operation state
    { forgotten with operations := forgotten.operations.erase operation }

/-- `ScheduleRetryLocked`: nothing when the operation is gone or has no attempt left. -/
def scheduleRetry (operation : Bytes) (now draw : Nat) (x : TopologyTaskExecutor) :
    Option TopologyTaskExecutor :=
  match x.operations.find? operation with
  | none => none
  | some state =>
    if phase ≠ .failure ∧ options.ordinaryMaxAttempts ≤ state.attempts then none
    else some (x.scheduleOperation operation (now + retryDelay state.attempts options draw))

/-- How every failed callback ends: another attempt is scheduled or the operation is erased. -/
def retryOrErase (retryable : Bool) (phase : TopologyCallbackPhase) (operation : Bytes)
    (now draw : Nat) (x : TopologyTaskExecutor) : TopologyTaskExecutor :=
  if retryable then
    (x.scheduleRetry options phase operation now draw).getD (x.eraseOperation operation)
  else x.eraseOperation operation

/-! ## Admission -/

/-- `ValidateCallbackWindowLocked`: the first callback of a member or a failed epoch opens the
window, the later ones must come before its end. -/
def validateCallbackWindow (now : Nat) (x : TopologyTaskExecutor) :
    TopologyTaskExecutor × Result Unit :=
  if fence.phase = .failure then
    let deadline := (x.failureDeadlineByEpoch.find? fence.batchEpoch).getD
      (now + options.failureBatchWindow)
    ({ x with
        failureDeadlineByEpoch := x.failureDeadlineByEpoch.insert fence.batchEpoch deadline },
      checkFailReturnStatus (now < deadline) .kRpcDeadlineExceeded
        "Failure topology callback window exhausted")
  else
    let deadline := (x.ordinaryDeadlineByMember.find? fence.executor.id).getD
      (now + options.ordinaryMemberWindow)
    ({ x with
        ordinaryDeadlineByMember := x.ordinaryDeadlineByMember.insert fence.executor.id deadline },
      checkFailReturnStatus (now < deadline) .kRpcDeadlineExceeded
        "ordinary topology callback window exhausted")

/-- The gate an admission is for; empty unless the callback is for ScaleIn. -/
def admissionGate : Result Bytes :=
  if fence.phase = .scaleIn then scaleInMetadataGate fence else .ok []

/-- The entry of an admitted task, new or kept from an earlier admission. -/
def bookOperation (gate : Bytes) (x : TopologyTaskExecutor) : TopologyTaskExecutor :=
  { x with
    operations := x.operations.alter operation fun old =>
      let state := old.getD { task := task }
      { state with
        task := task
        scaleInMetadataGate := if gate = [] then state.scaleInMetadataGate else gate } }

/-- An admission outside its window counts as an attempt. -/
def exhaustWindow (operation : Bytes) (now draw : Nat)
    (x : TopologyTaskExecutor) : TopologyTaskExecutor :=
  let counted := x.modifyOperation operation fun state =>
    { state with attempts := state.attempts + 1 }
  (counted.scheduleRetry options phase operation now draw).getD
    (counted.clearOperationSchedule operation)

/-- Hand a token to the operation. Metadata callbacks wait at their gate until they are done. -/
def grantToken (operation gate : Bytes) (allowDataDrain : Bool)
    (x : TopologyTaskExecutor) : TopologyTaskExecutor :=
  { x with
    operations := x.operations.modify operation fun state =>
      { state with
        cancellation := some x.tokens
        nextAttempt := 0
        attempts := state.attempts + 1 }
    scheduledOperations := x.scheduledOperations.erase operation
    inFlightOperations := x.inFlightOperations + 1
    tokens := x.tokens + 1
    scaleInMetadataPendingByGate :=
      if phase = .scaleIn ∧ ¬allowDataDrain then
        x.scaleInMetadataPendingByGate.alter gate fun old => insert operation (old.getD ∅)
      else x.scaleInMetadataPendingByGate }

/-- The part of `AdmitCallbackLocked` after the window was checked. -/
def admitInWindow (operation gate : Bytes) (allowDataDrain : Bool)
    (now : Nat) (x : TopologyTaskExecutor) :
    TopologyTaskExecutor × Result (Option Nat) :=
  if (x.operations.find? operation).any fun state =>
      state.progressReady || (!allowDataDrain && state.scaleInMetadataDone) then
    (x.scheduleOperation operation now, .ok none)
  else if x.inFlightOperations < options.callbackThreads + options.callbackQueueCapacity then
    (x.grantToken phase operation gate allowDataDrain, .ok (some x.tokens))
  else (x, .error ⟨.kTryAgain, "topology callback queue is full"⟩)

/-- `AdmitCallbackLocked` of an operation that has no callback in flight. -/
def admitBooked (operation gate : Bytes)
    (allowDataDrain : Bool) (now draw : Nat) (x : TopologyTaskExecutor) :
    TopologyTaskExecutor × Result (Option Nat) :=
  match (x.bookOperation operation task gate).validateCallbackWindow options fence now with
  | (opened, .error _) => (opened.exhaustWindow options fence.phase operation now draw, .ok none)
  | (opened, .ok _) => opened.admitInWindow options fence.phase operation gate allowDataDrain now

/-- `AdmitCallbackLocked`: the token of the admitted callback, or none if nothing is to be run. -/
def admitCallback (operation : Bytes)
    (allowDataDrain : Bool) (now draw : Nat) (x : TopologyTaskExecutor) :
    TopologyTaskExecutor × Result (Option Nat) :=
  if ¬x.started ∨ x.stopping then
    (x, .error ⟨.kNotReady, "topology task Executor is stopping"⟩)
  else if x.ownsToken operation then (x, .ok none)
  else
    match admissionGate fence with
    | .error e => (x, .error e)
    | .ok gate => x.admitBooked options task fence operation gate allowDataDrain now draw

/-- `SubmitCallback`. `enqueue` is what the pool makes of the work item. -/
def submitCallback (operation : Bytes)
    (allowDataDrain : Bool) (now draw : Nat) (enqueue : Except String Unit)
    (x : TopologyTaskExecutor) :
    TopologyTaskExecutor × Result (Option Nat) :=
  if operation.length ≤ operationIdPrefixSize then
    (x, .error ⟨.kRuntimeError, "build topology callback operation digest failed"⟩)
  else
    match x.admitCallback options task fence operation allowDataDrain now draw, enqueue with
    | (admitted, .ok (some _)), .error error =>
      ((admitted.releaseInFlight operation).retryOrErase options true fence.phase
        operation now draw,
        .error ⟨.kRuntimeError, "enqueue topology callback failed: " ++ error⟩)
    | admission, _ => admission

/-! ## Callback bodies -/

def resolveCallbackDeadline (now : Nat) (x : TopologyTaskExecutor) : Result Nat :=
  if fence.phase = .failure then
    match x.failureDeadlineByEpoch.find? fence.batchEpoch with
    | none => .error ⟨.kInvalid, "missing Failure callback budget ledger"⟩
    | some deadline => .ok (min (now + options.failureCallbackDeadline) deadline)
  else
    match x.ordinaryDeadlineByMember.find? fence.executor.id with
    | none => .error ⟨.kInvalid, "missing ordinary callback budget ledger"⟩
    | some deadline => .ok (min (now + options.ordinaryCallbackDeadline) deadline)

def isScaleInDataDrainReady : Bool :=
  (x.operations.find? operation).any OperationState.scaleInMetadataDone

/-- `FinishCallbackBody` of a callback whose completion could not be submitted. -/
def finishCallbackBody (operation : Bytes) (callback : Result Unit)
    (now draw : Nat) (x : TopologyTaskExecutor) :
    TopologyTaskExecutor :=
  let released := x.releaseInFlight operation
  let marked := if phase = .failure then
      released.modifyOperation operation fun state =>
        { state with
          progressReady := true
          bestEffortFailure := state.bestEffortFailure || !callback.isOk }
    else released
  let retryable := match callback with
    | .ok _ => true
    | .error status => phase = .failure || isOrdinaryRetryable status
  marked.retryOrErase options (!x.stopping && retryable) phase operation now draw

/-- The locked part of `SubmitCleanupApply`: the callback is still in flight. -/
def submitCleanupApply (enqueue : Except String Unit) (x : TopologyTaskExecutor) : Result Unit := do
  checkFailReturnStatus (x.started ∧ ¬x.stopping) .kNotReady
    "topology cleanup Executor is stopping"
  checkFailReturnStatus (x.ownsToken operation) .kInvalid
    "topology cleanup operation is no longer in flight"
  match enqueue with
  | .ok _ => pure ()
  | .error error => .error ⟨.kTryAgain, "enqueue topology cleanup effect failed: " ++ error⟩

/-! ## Completions -/

/-- `DiscardIfStopping`: none when the completion is to be handled. -/
def discardIfStopping (x : TopologyTaskExecutor) : Option TopologyTaskExecutor :=
  if x.started ∧ ¬x.stopping then none else some (x.eraseOperation operation)

/-- The first section of `CompleteProgress`: none when the operation is gone. -/
def beginProgress (operation : Bytes) (status : Result Unit)
    (x : TopologyTaskExecutor) : Option TopologyTaskExecutor :=
  match x.operations.find? operation with
  | none => none
  | some _ => some <| x.modifyOperation operation fun state =>
      { state with
        progressReady := true
        bestEffortFailure := state.bestEffortFailure || (phase = .failure && !status.isOk) }

def completeFailure (operation : Bytes) (status : Status)
    (progressFailure : Bool) (now draw : Nat) (x : TopologyTaskExecutor) : TopologyTaskExecutor :=
  (x.releaseInFlight operation).retryOrErase options
    (progressFailure || (phase ≠ .failure && isOrdinaryRetryable status)) phase operation now draw

/-- Every operation of a gate that moved its metadata is due now. -/
def scheduleScaleInDataDrainReady (gate : Bytes) (now : Nat) (x : TopologyTaskExecutor) :
    TopologyTaskExecutor :=
  let ready := fun state : OperationState =>
    state.scaleInMetadataGate = gate ∧ state.scaleInMetadataDone
  { x with
    scheduledOperations := x.scheduledOperations ∪
      ((x.operations.entries.filter fun e => ready e.2).map Prod.fst).toFinset
    operations := x.operations.mapValues fun state =>
      if ready state then { state with nextAttempt := now } else state }

/-- Nothing waits at the gate. -/
def isScaleInMetadataGateReady (gate : Bytes) (x : TopologyTaskExecutor) : Bool :=
  match x.scaleInMetadataPendingByGate.find? gate with
  | none => true
  | some waiting => waiting = ∅

/-- The operation once its metadata is durably marked, before the gate is looked at. -/
def passMetadata (gate operation : Bytes) (x : TopologyTaskExecutor) : TopologyTaskExecutor :=
  ((x.releaseInFlight operation).modifyOperation operation fun state =>
    { state with scaleInMetadataGate := gate, scaleInMetadataDone := true }).leaveGate
      gate operation

/-- The last section of `CompleteScaleInMetadata`. -/
def finishMetadata (gate operation : Bytes) (now : Nat) (x : TopologyTaskExecutor) :
    TopologyTaskExecutor :=
  match x.operations.find? operation with
  | none => x
  | some _ =>
    let passed := x.passMetadata gate operation
    if passed.isScaleInMetadataGateReady gate then
      (passed.scheduleOperation operation now).scheduleScaleInDataDrainReady gate now
    else passed.scheduleOperation operation (now + options.backoffInitial)

/-! ## Ticks -/

/-- The scheduled operations whose time has come and that have no callback in flight. -/
def dueOperations (now : Nat) (x : TopologyTaskExecutor) : List (Bytes × TopologyTask) :=
  (x.operations.entries.filter fun e =>
    e.1 ∈ x.scheduledOperations ∧ e.2.nextAttempt ≤ now ∧ e.2.cancellation = none).map
    fun e => (e.1, e.2.task)

def isScaleInMetadataGateReadyForOperation (x : TopologyTaskExecutor) : Result Bool :=
  match x.operations.find? operation with
  | none => .error ⟨.kInvalid, "ScaleIn metadata gate is missing"⟩
  | some state => do
    checkFailReturnStatus (state.scaleInMetadataGate ≠ []) .kInvalid
      "ScaleIn metadata gate is missing"
    pure (x.isScaleInMetadataGateReady state.scaleInMetadataGate)

def preserveDueOperation (status : Status) (now : Nat) (x : TopologyTaskExecutor) :
    TopologyTaskExecutor :=
  if x.stopping ∨ x.operations.find? operation = none then x
  else if status.code = .kInvalid ∨ status.code = .kNotFound then x.eraseOperation operation
  else (x.modifyOperation operation ({ · with task := task })).scheduleOperation operation
    (now + options.backoffInitial)

/-! ## Epochs, start and stop -/

def cancelOperations : TopologyTaskExecutor :=
  { x with
    cancelledTokens := x.cancelledTokens ∪
      (x.operations.values.filterMap OperationState.cancellation).toFinset }

def clearTables : TopologyTaskExecutor :=
  { x with
    operations := .empty
    scheduledOperations := ∅
    ordinaryDeadlineByMember := .empty
    failureDeadlineByEpoch := .empty
    scaleInMetadataPendingByGate := .empty }

/-- `RefreshNotifyEpochLocked`: the tables of an older epoch are cleared once nothing of it is
in flight any more. -/
def refreshNotifyEpoch (epoch : Nat) (x : TopologyTaskExecutor) :
    TopologyTaskExecutor × Result Unit :=
  if x.currentEpoch ≠ 0 ∧ x.currentEpoch ≠ epoch then
    if x.inFlightOperations = 0 then
      ({ x.cancelOperations.clearTables with currentEpoch := epoch }, .ok ())
    else
      (x.cancelOperations, .error ⟨.kTryAgain, "old topology callback epoch is still draining"⟩)
  else ({ x with currentEpoch := epoch }, .ok ())

def start (x : TopologyTaskExecutor) : Result TopologyTaskExecutor := do
  checkFailReturnStatus (¬x.started ∧ localAddress ≠ [] ∧ validOptions options) .kInvalid
    "invalid or already started topology task Executor"
  pure { x with started := true, stopping := false }

/-- `Stop` up to the join of the pool. -/
def beginStop : TopologyTaskExecutor :=
  { x.cancelOperations with stopping := true }

/-- `Stop` after the join of the pool. -/
def finishStop : TopologyTaskExecutor :=
  { x.clearTables with inFlightOperations := 0, started := false }

end TopologyTaskExecutor

end Datasystem.Cluster
