import Datasystem.Cluster.TopologyTaskExecutor

/-! A worker that runs its executor. The Run loop handles notifies and ticks one
after another; admitted callbacks run in a pool; their completions are handled by
threads of their own. Between two sections under the mutex, and around every call
to the backend, any other thread and the rest of the cluster may step.

An admitted callback is followed as one flight, from its admission until its
completion was handled. The token that the admission created names the flight. -/

namespace Datasystem.Cluster

open Common Lib TopologyTaskExecutor TopologyRepository

/-- What does not change while a worker runs. -/
structure WorkerSetup where
  sha256 : Sha256
  localAddress : Bytes
  options : TopologyTaskExecutorOptions
  /-- The id of the member at an address, in the batch of an epoch. -/
  memberId : Nat → Bytes → Bytes

/-- What clock, backend, pools and callbacks answer in one step. -/
structure Answers where
  now : Nat := 0
  draw : Nat := 0
  /-- The failure of a backend call. -/
  failure : Option Status := none
  /-- A failed call was carried out nevertheless. -/
  reached : Bool := false
  callback : Result Unit := .ok ()
  /-- The callback prepared a cleanup. -/
  cleanup : Bool := true
  authorize : Result Unit := .ok ()
  enqueue : Except String Unit := .ok ()
  submit : Result Unit := .ok ()

/-- Where `ValidateFence` stands. -/
inductive FenceCheck
  | readTask
  | readTopology (task : TopologyTask)

/-- The task and the topology that a fence was found to match. -/
structure FenceEvidence where
  task : TopologyTask
  topology : TopologySnapshot

/-- Where `CompleteScaleInMetadata` stands. -/
inductive MetadataStage
  | enter
  | mark
  | readBack (rc : Status)
  | finish

/-- Where `CompleteProgress` stands. -/
inductive ProgressStage
  | enter
  | mark
  | readBack (rc : Status)
  | finish
  | fail (status : Status)
  | stale

/-- A completion without its fence and operation, which are those of the flight. -/
structure CallbackCompletion where
  deadline : Nat := 0
  status : Result Unit
  preparedCleanup : Bool := false

/-- What a flight does next. -/
inductive FlightStage
  -- in the callback pool
  | validate (check : FenceCheck)
  | prepare
  | invoke (deadline : Nat)
  | running (dataDrain : Bool) (deadline : Nat)
  | applyCleanup (deadline : Nat)
  | submit (completion : CallbackCompletion)
  -- in the queue of the dispatcher
  | queued (completion : CallbackCompletion)
  -- in `HandleCompletion`
  | revalidate (completion : CallbackCompletion) (check : FenceCheck)
  | drainReady (completion : CallbackCompletion) (evidence : FenceEvidence)
  | metadata (stage : MetadataStage)
  | authorize (completion : CallbackCompletion) (check : FenceCheck)
  | authorizeCleanup (completion : CallbackCompletion)
  | submitCleanup (completion : CallbackCompletion)
  | progress (status : Result Unit) (evidence : Option FenceEvidence) (stage : ProgressStage)
  | fail (status : Status) (progressFailure : Bool)
  | stale

structure Flight where
  fence : TopologyExecutionFence
  operation : Bytes
  /-- `SubmitCallback` was called for the data drain. -/
  allowDataDrain : Bool
  stage : FlightStage

/-- What the Run loop does next. -/
inductive RunStage
  | idle
  -- `SubmitNotifiedTasks`
  | reading (batch : ActiveBatch) (rest : List Bytes)
  | submitting (batch : ActiveBatch) (task : TopologyTask) (rest : List Bytes)
  -- `HandleTick`
  | due (rest : List (Bytes × TopologyTask))
  | gate (operation : Bytes) (task : TopologyTask) (fence : TopologyExecutionFence)
      (rest : List (Bytes × TopologyTask))
  | resubmit (operation : Bytes) (task : TopologyTask) (fence : TopologyExecutionFence)
      (allowDataDrain : Bool) (rest : List (Bytes × TopologyTask))
  | preserve (operation : Bytes) (task : TopologyTask) (status : Status)
      (rest : List (Bytes × TopologyTask))
  | progress (operation : Bytes) (fence : TopologyExecutionFence) (evidence : FenceEvidence)
      (stage : ProgressStage) (rest : List (Bytes × TopologyTask))

/-- A call of `OnScaleInDataDrain`, with what was known and marked when it started. -/
structure DataDrain where
  fence : TopologyExecutionFence
  notified : List TopologyTaskNotify
  marked : List ScaleInMetadataDoneRecord

/-- A call of `MarkTaskScopeFinished`. -/
structure ProgressMark where
  fence : TopologyExecutionFence
  /-- The flight whose completion made the call. A tick has none. -/
  completion : Option Nat
  started : Bool
  /-- The epoch the executor works for. -/
  currentEpoch : Nat
  /-- The batch of the last notify that the worker was handed. -/
  notifiedBatch : Option ActiveBatch
  /-- What was stored for the task before the call. -/
  stored : Option (Stored TaskPb)
  /-- The task was written. -/
  written : Bool

structure ExecutorSystem where
  executor : TopologyTaskExecutor := {}
  /-- The published snapshot. -/
  snapshot : Option TopologySnapshot := none
  run : RunStage := .idle
  flights : OrderedMap Nat Flight := .empty
  /-- The committed topology. -/
  authority : Option TopologySnapshot := none
  tasks : TopologyTaskKind → TaskTable := fun _ => .empty
  markers : MarkerTable := .empty
  /-- The notifies handed to the executor for the batch of its snapshot, latest first. -/
  notified : List TopologyTaskNotify := []
  /-- What was ever durably marked. -/
  marked : List ScaleInMetadataDoneRecord := []
  drains : List DataDrain := []
  progress : List ProgressMark := []

namespace ExecutorSystem

/-! ## Calls to the backend -/

/-- A compare-and-swap that may fail, with or without having been carried out. -/
def callCas {ν ρ : Type} (answers : Answers) (table : OrderedMap Bytes ν) (key : Bytes)
    (process : Option ν → Result (Option ν × ρ)) : OrderedMap Bytes ν × Result ρ :=
  match answers.failure with
  | none => cas table key process
  | some status => (if answers.reached then (cas table key process).1 else table, .error status)

/-- A read that may fail. -/
def callRead {α : Type} (answers : Answers) (value : Result α) : Result α :=
  match answers.failure with
  | none => value
  | some status => .error status

variable (w : WorkerSetup) (s : ExecutorSystem) (fence : TopologyExecutionFence) (answers : Answers)

/-- The committed topology. `ReadIfChanged` keeps a snapshot that has its revision. -/
def readTopology : Result TopologySnapshot :=
  match s.authority with
  | none => .error ⟨.kNotFound, "The key does not exist in coordinator."⟩
  | some snapshot => .ok snapshot

def readTaskOf : Result TopologyTask :=
  readTask (s.tasks fence.taskKind) fence.taskKind fence.taskId fence.batchType fence.batchEpoch

/-- The topology read of `ValidateFence` and the comparison behind it. -/
def checkTopology (task : TopologyTask) (answers : Answers) : Result FenceEvidence := do
  let topology ← callRead answers s.readTopology
  validateFence w.sha256 w.localAddress fence task topology
  pure ⟨task, topology⟩

/-- One read of `ValidateFence`: the next read, or how it ends. -/
def stepCheck (check : FenceCheck) (answers : Answers) : FenceCheck ⊕ Result FenceEvidence :=
  match check with
  | .readTask =>
    match callRead answers (s.readTaskOf fence) with
    | .error status => .inr (.error status)
    | .ok task => .inl (.readTopology task)
  | .readTopology task => .inr (s.checkTopology w fence task answers)

/-! ## Progress -/

/-- The swap of `MarkTaskScopeFinished` on the table of its kind. -/
def markTask : TaskTable × Result TaskProgressOutcome :=
  callCas answers (s.tasks fence.taskKind) fence.taskId (markTaskProcess fence)

/-- The stage after `MarkTaskScopeFinished` returned. -/
def afterMark (outcome : TaskProgressOutcome) : ProgressStage :=
  if outcome = .updated ∨ outcome = .alreadyFinished then .finish else .stale

variable (operation : Bytes) (completion : Option Nat)

/-- The record of a call of `MarkTaskScopeFinished`. -/
def progressMark (answers : Answers) : ProgressMark where
  fence := fence
  completion := completion
  started := s.executor.started
  currentEpoch := s.executor.currentEpoch
  notifiedBatch := s.notified.head?.bind TopologyTaskNotify.activeBatch
  stored := (s.tasks fence.taskKind).find? fence.taskId
  written := (s.markTask fence answers).1 ≠ s.tasks fence.taskKind

/-- One step of `CompleteProgress`, of a completion or of a tick. -/
def stepProgress (status : Result Unit) (stage : ProgressStage) (answers : Answers) :
    ExecutorSystem × Option ProgressStage :=
  match stage with
  | .enter =>
    match s.executor.beginProgress fence.phase operation status with
    | none => (s, none)
    | some executor => ({ s with executor := executor }, some .mark)
  | .mark =>
    let answer := s.markTask fence answers
    ({ s with
        tasks := Function.update s.tasks fence.taskKind answer.1
        progress := s.progressMark fence completion answers :: s.progress },
      match answer.2 with
      | .ok outcome => some (afterMark outcome)
      | .error rc => some (.readBack rc))
  | .readBack rc =>
    match markTaskReadBack fence rc (callRead answers (s.readTaskOf fence)) with
    | .ok outcome => (s, some (afterMark outcome))
    | .error status => (s, some (.fail status))
  | .finish => ({ s with executor := s.executor.eraseOperation operation }, none)
  | .fail rc =>
    ({ s with
        executor := s.executor.completeFailure w.options fence.phase operation rc true answers.now
          answers.draw },
      none)
  | .stale => ({ s with executor := s.executor.eraseOperation operation }, none)

/-! ## Callback bodies -/

variable (token : Nat)

/-- What `RunCallback` checks between the validation of the fence and the callback. -/
def prepareCallback (answers : Answers) : Result Nat := do
  buildPhaseAction fence
  buildKeyFilter fence
  let deadline ← s.executor.resolveCallbackDeadline w.options fence answers.now
  checkFailReturnStatus (token ∉ s.executor.cancelledTokens) .kNotReady
    "topology callback cancelled"
  pure deadline

/-- The status of `InvokeCallback`: a data drain has to prepare its cleanup. -/
def invokeStatus (dataDrain : Bool) (answers : Answers) : Result Unit := do
  answers.callback
  checkFailReturnStatus (dataDrain → answers.cleanup) .kInvalid "missing prepared topology cleanup"

/-- What a callback that has returned leaves for its completion. -/
def callbackCompletion (dataDrain : Bool) (deadline : Nat) (answers : Answers) :
    CallbackCompletion where
  deadline := deadline
  status :=
    if deadline ≤ answers.now ∧ token ∉ s.executor.cancelledTokens then
      .error ⟨.kRpcDeadlineExceeded, "topology callback exceeded its deadline"⟩
    else invokeStatus dataDrain answers
  preparedCleanup := dataDrain && answers.cleanup

/-- `ExecuteCleanupApply`. -/
def cleanupStatus (token deadline : Nat) (answers : Answers) : Result Unit :=
  do
  checkFailReturnStatus (token ∉ s.executor.cancelledTokens) .kNotReady "topology cleanup cancelled"
  checkFailReturnStatus (answers.now < deadline) .kRpcDeadlineExceeded
    "topology cleanup deadline exceeded"
  answers.callback

variable (f : Flight)

/-- The callback starts: ScaleIn metadata or data, as the operation stands. -/
def invokeCallback (deadline : Nat) : ExecutorSystem × Option FlightStage :=
  let dataDrain := f.fence.phase = .scaleIn && s.executor.isScaleInDataDrainReady f.operation
  ({ s with
      drains := if dataDrain then ⟨f.fence, s.notified, s.marked⟩ :: s.drains else s.drains },
    some (.running dataDrain deadline))

variable (completion : CallbackCompletion)

/-- Hand the completion to the dispatcher, or give up the callback. -/
def submitCompletion (answers : Answers) : ExecutorSystem × Option FlightStage :=
  match answers.submit with
  | .ok _ => (s, some (.queued completion))
  | .error _ =>
    ({ s with
        executor := s.executor.finishCallbackBody w.options f.fence.phase f.operation
          completion.status answers.now answers.draw },
      none)

/-! ## Completions -/

/-- How `HandleCompletion` goes on with the status that counts. -/
def settleStatus (status : Result Unit) (evidence : Option FenceEvidence) : FlightStage :=
  match status with
  | .ok _ => .progress (.ok ()) evidence .enter
  | .error rc =>
    if fence.phase = .failure then .progress (.error rc) evidence .enter else .fail rc false

/-- `HandleCompletion` up to its first call to the backend. -/
def handleCompletion (answers : Answers) : ExecutorSystem × Option FlightStage :=
  if f.operation ≠ operationOf w.sha256 f.fence then
    ({ s with executor := s.executor.eraseOperation (operationOf w.sha256 f.fence) }, none)
  else
    match s.executor.discardIfStopping f.operation with
    | some executor => ({ s with executor := executor }, none)
    | none =>
      if completion.status.isOk ∧ completion.preparedCleanup then
        if completion.deadline ≤ answers.now then
          (s, some (settleStatus f.fence (.error ⟨.kRpcDeadlineExceeded,
            "topology cleanup authorization exceeded callback deadline"⟩) none))
        else (s, some (.authorize completion .readTask))
      else (s, some (.revalidate completion .readTask))

/-- The fence is still valid. ScaleIn callbacks may have moved metadata only. -/
def afterRevalidation (evidence : FenceEvidence) :
    FlightStage :=
  if f.fence.phase = .scaleIn ∧ completion.status.isOk ∧ ¬completion.preparedCleanup then
    .drainReady completion evidence
  else settleStatus f.fence completion.status (some evidence)

variable (source : MemberIdentity)

/-- The record of a metadata callback of a source. -/
def metadataRecord : ScaleInMetadataDoneRecord :=
  ⟨f.fence.batchEpoch, source.id, f.fence.taskId, f.operation⟩

/-- `CompleteFailure` of a marker that could not be written. -/
def metadataFailure (status : Status) : FlightStage :=
  .fail status (isCoordinatorCasConflict status)

variable (record : ScaleInMetadataDoneRecord)

/-- The swap of `MarkScaleInMetadataDone`. -/
def markMetadata (key : Bytes) (answers : Answers) :
    ExecutorSystem × Option FlightStage :=
  let answer := callCas answers s.markers key (markMetadataProcess record)
  match answer.2 with
  | .ok _ =>
    ({ s with markers := answer.1, marked := record :: s.marked }, some (.metadata .finish))
  | .error rc =>
    ({ s with markers := answer.1 },
      some (if rc.code = .kTryAgain then metadataFailure rc else .metadata (.readBack rc)))

/-- The read behind a marker whose swap failed. -/
def readBackMetadata (key : Bytes) (rc : Status) (answers : Answers) :
    ExecutorSystem × Option FlightStage :=
  let stored := match s.markers.find? key with
    | none => .error ⟨.kNotFound, "The key does not exist in coordinator."⟩
    | some value => .ok value
  match resolveExactWrite record.businessOperationId rc (callRead answers stored) with
  | .ok _ => ({ s with marked := record :: s.marked }, some (.metadata .finish))
  | .error status => (s, some (metadataFailure status))

/-- One step of `CompleteScaleInMetadata` for a source. -/
def stepMetadata (stage : MetadataStage) (answers : Answers) :
    ExecutorSystem × Option FlightStage :=
  match stage, prepareMark (metadataRecord f source) with
  | .enter, _ =>
    (s, if s.executor.operations.find? f.operation = none then none else some (.metadata .mark))
  | .mark, .error status => (s, some (metadataFailure status))
  | .mark, .ok key => s.markMetadata (metadataRecord f source) key answers
  | .readBack _, .error status => (s, some (metadataFailure status))
  | .readBack rc, .ok key => s.readBackMetadata (metadataRecord f source) key rc answers
  | .finish, _ =>
    match scaleInMetadataGate f.fence with
    | .error _ => (s, none)
    | .ok gate =>
      ({ s with
          executor := s.executor.finishMetadata w.options gate f.operation answers.now }, none)

/-- One step of a flight: the system without it, and what the flight does next. -/
def stepFlight (f : Flight) (answers : Answers) : ExecutorSystem × Option FlightStage :=
  match f.stage with
  | .validate check =>
    match s.stepCheck w f.fence check answers with
    | .inl next => (s, some (.validate next))
    | .inr (.error status) => (s, some (.submit { status := .error status }))
    | .inr (.ok _) => (s, some .prepare)
  | .prepare =>
    match s.prepareCallback w f.fence token answers with
    | .error status => (s, some (.submit { status := .error status }))
    | .ok deadline => (s, some (.invoke deadline))
  | .invoke deadline => s.invokeCallback f deadline
  | .running dataDrain deadline =>
    (s, some (.submit (s.callbackCompletion token dataDrain deadline answers)))
  | .applyCleanup deadline =>
    (s, some (.submit
      { deadline := deadline, status := s.cleanupStatus token deadline answers }))
  | .submit completion => s.submitCompletion w f completion answers
  | .queued completion => s.handleCompletion w f completion answers
  | .revalidate completion check =>
    match s.stepCheck w f.fence check answers with
    | .inl next => (s, some (.revalidate completion next))
    | .inr (.error _) => (s, some .stale)
    | .inr (.ok evidence) => (s, some (afterRevalidation f completion evidence))
  | .drainReady completion evidence =>
    (s, some (if s.executor.isScaleInDataDrainReady f.operation then
      settleStatus f.fence completion.status (some evidence) else .metadata .enter))
  | .metadata stage =>
    match f.fence.source with
    | none => (s, none)
    | some source => s.stepMetadata w f source stage answers
  | .authorize completion check =>
    match s.stepCheck w f.fence check answers with
    | .inl next => (s, some (.authorize completion next))
    | .inr (.error status) => (s, some (settleStatus f.fence (.error status) none))
    | .inr (.ok _) => (s, some (.authorizeCleanup completion))
  | .authorizeCleanup completion =>
    match answers.authorize with
    | .error status => (s, some (settleStatus f.fence (.error status) none))
    | .ok _ => (s, some (.submitCleanup completion))
  | .submitCleanup completion =>
    match s.executor.submitCleanupApply f.operation answers.enqueue with
    | .error status => (s, some (settleStatus f.fence (.error status) none))
    | .ok _ => (s, some (.applyCleanup completion.deadline))
  | .progress status evidence stage =>
    let next := s.stepProgress w f.fence f.operation (some token) status stage answers
    (next.1, next.2.map (.progress status evidence))
  | .fail status progressFailure =>
    ({ s with
        executor := s.executor.completeFailure w.options f.fence.phase f.operation status
          progressFailure answers.now answers.draw },
      none)
  | .stale => ({ s with executor := s.executor.eraseOperation f.operation }, none)

/-- The flight goes on, or it is over. -/
def settleFlight (f : Flight) (next : Option FlightStage) : ExecutorSystem :=
  { s with
    flights := match next with
      | some stage => s.flights.insert token { f with stage := stage }
      | none => s.flights.erase token }

/-! ## The Run loop -/

/-- `SubmitCallback` and the flight of an admitted callback. -/
def launch (task : TopologyTask)
    (fence : TopologyExecutionFence) (allowDataDrain : Bool) (answers : Answers) :
    ExecutorSystem × Result Unit :=
  let operation := operationOf w.sha256 fence
  match s.executor.submitCallback w.options task fence operation allowDataDrain answers.now
      answers.draw answers.enqueue with
  | (executor, .error status) => ({ s with executor := executor }, .error status)
  | (executor, .ok none) => ({ s with executor := executor }, .ok ())
  | (executor, .ok (some token)) =>
    ({ s with
        executor := executor
        flights := s.flights.insert token ⟨fence, operation, allowDataDrain, .validate .readTask⟩ },
      .ok ())

variable (notify : TopologyTaskNotify)

/-- The part of `HandleNotify` before the tasks are submitted, for the batch of the snapshot. -/
def acceptNotify (batch : ActiveBatch) : ExecutorSystem :=
  match s.executor.refreshNotifyEpoch batch.epoch with
  | (executor, .error _) =>
    { s with executor := executor, notified := notify :: s.notified }
  | (executor, .ok _) =>
    { s with
      executor := executor
      notified := notify :: s.notified
      run := .reading batch notify.taskIds }

/-- `HandleNotify`. A notify without a batch, or of another batch than that of the snapshot, only
tells about restarts. -/
def handleNotify : ExecutorSystem :=
  match notify.activeBatch, s.snapshot with
  | some batch, some snapshot =>
    if snapshot.state.activeBatch ≠ some batch then s
    else if batch.type = .scaleIn ∧
      (snapshot.findMemberByAddress w.localAddress).isOk = false then s
    else s.acceptNotify notify batch
  | _, _ => s

/-- The due operation that `HandleTick` looks at next. -/
def inspectDue (task : TopologyTask) (rest : List (Bytes × TopologyTask)) : RunStage :=
  match s.executor.operations.find? operation, s.snapshot,
      buildLocalFence w.sha256 w.localAddress task s.snapshot with
  | none, _, _ => .due rest
  | some _, _, .error status => .preserve operation task status rest
  | some _, none, .ok _ => .due rest
  | some state, some snapshot, .ok fence =>
    if state.progressReady then .progress operation fence ⟨task, snapshot⟩ .enter rest
    else if state.scaleInMetadataDone then .gate operation task fence rest
    else .resubmit operation task fence false rest

/-- What the gate lets `HandleTick` do with an operation that moved its metadata. -/
def inspectGate (task : TopologyTask) (fence : TopologyExecutionFence)
    (rest : List (Bytes × TopologyTask)) : RunStage :=
  match s.executor.isScaleInMetadataGateReadyForOperation operation with
  | .error status => .preserve operation task status rest
  | .ok true => .resubmit operation task fence true rest
  | .ok false =>
    .preserve operation task ⟨.kNotReady, "ScaleIn metadata gate is waiting"⟩ rest

/-- The kind of the tasks of a batch. -/
def taskKindOf (type : TopologyChangeType) : TopologyTaskKind :=
  if type = .failure then .deleteMember else .migrate

/-- One step of the Run loop inside a handler. -/
def stepRun (answers : Answers) : ExecutorSystem :=
  match s.run with
  | .idle => s
  | .reading _ [] => { s with run := .idle }
  | .reading batch (taskId :: rest) =>
    match callRead answers (readTask (s.tasks (taskKindOf batch.type)) (taskKindOf batch.type)
        taskId batch.type batch.epoch) with
    | .error _ => { s with run := .reading batch rest }
    | .ok task => { s with run := .submitting batch task rest }
  | .submitting batch task rest =>
    match buildLocalFence w.sha256 w.localAddress task s.snapshot with
    | .error _ => { s with run := .reading batch rest }
    | .ok fence => { (s.launch w task fence false answers).1 with run := .reading batch rest }
  | .due [] => { s with run := .idle }
  | .due ((operation, task) :: rest) => { s with run := s.inspectDue w operation task rest }
  | .gate operation task fence rest =>
    { s with run := s.inspectGate operation task fence rest }
  | .resubmit operation task fence allowDataDrain rest =>
    match s.launch w task fence allowDataDrain answers with
    | (s', .error status) => { s' with run := .preserve operation task status rest }
    | (s', .ok _) => { s' with run := .due rest }
  | .preserve operation task status rest =>
    { s with
      executor := s.executor.preserveDueOperation w.options operation task status answers.now
      run := .due rest }
  | .progress operation fence evidence stage rest =>
    match s.stepProgress w fence operation none (.ok ()) stage answers with
    | (s', some next) => { s' with run := .progress operation fence evidence next rest }
    | (s', none) => { s' with run := .due rest }

end ExecutorSystem

/-! ## The system -/

open ExecutorSystem

/-- The stages in the callback pool, which `Stop` joins. -/
def FlightStage.inPool : FlightStage → Bool
  | .validate _ | .prepare | .invoke _ | .running _ _ | .applyCleanup _ | .submit _ => true
  | _ => false

def FlightStage.isQueued : FlightStage → Bool
  | .queued _ => true
  | _ => false

/-- While a batch is active its members keep their ids. Members that wait to join take no part. -/
def KeepsMemberIds (memberId : Nat → Bytes → Bytes) (snapshot : TopologySnapshot) : Prop :=
  ∀ batch ∈ snapshot.state.activeBatch, ∀ m ∈ snapshot.state.members, m.state ≠ .initial →
    m.identity.id = memberId batch.epoch m.address

instance (memberId : Nat → Bytes → Bytes) (snapshot : TopologySnapshot) :
    Decidable (KeepsMemberIds memberId snapshot) :=
  inferInstanceAs (Decidable (∀ batch ∈ snapshot.state.activeBatch,
    ∀ m ∈ snapshot.state.members, m.state ≠ .initial →
      m.identity.id = memberId batch.epoch m.address))

inductive ExecutorAction
  -- the rest of the cluster
  | commit (topology : TopologySnapshot)
  | putTask (kind : TopologyTaskKind) (taskId : Bytes) (value : Stored TaskPb)
  | removeTask (kind : TopologyTaskKind) (taskId : Bytes)
  | putMarker (key : Bytes) (value : Stored Bytes)
  | removeMarker (key : Bytes)
  /-- Another process of the worker marked a task before. -/
  | markedBefore (record : ScaleInMetadataDoneRecord)
  -- the life of the worker
  | start
  | stop
  | joined
  -- the Run loop
  | publish (snapshot : TopologySnapshot)
  | notify (notify : TopologyTaskNotify)
  | tick (now : Nat)
  | run (answers : Answers)
  -- pools
  | fly (token : Nat) (answers : Answers)

namespace ExecutorSystem

def startExecutor (w : WorkerSetup) (s : ExecutorSystem) : Option ExecutorSystem :=
  -- the progress pool was joined and the queue is cleared
  if s.run matches .idle && s.flights.values.all fun f => f.stage.isQueued then
    match s.executor.start w.options w.localAddress with
    | .ok executor => some { s with executor := executor, flights := .empty }
    | .error _ => none
  else none

def step (w : WorkerSetup) (s : ExecutorSystem) : ExecutorAction → Option ExecutorSystem
  | .commit topology => some { s with authority := some topology }
  | .putTask kind taskId value =>
    some { s with tasks := Function.update s.tasks kind ((s.tasks kind).insert taskId value) }
  | .removeTask kind taskId =>
    some { s with tasks := Function.update s.tasks kind ((s.tasks kind).erase taskId) }
  | .putMarker key value => some { s with markers := s.markers.insert key value }
  | .removeMarker key => some { s with markers := s.markers.erase key }
  | .markedBefore record => some { s with marked := record :: s.marked }
  | .start => s.startExecutor w
  | .stop => if s.executor.started then some { s with executor := s.executor.beginStop } else none
  | .joined =>
    if s.executor.started ∧ s.executor.stopping ∧
        s.flights.values.all (fun f => !f.stage.inPool) then
      some { s with executor := s.executor.finishStop }
    else none
  | .publish snapshot =>
    if s.run matches .idle ∧ KeepsMemberIds w.memberId snapshot then
      some { s with snapshot := some snapshot }
    else none
  | .notify notify => if s.run matches .idle then some (s.handleNotify w notify) else none
  | .tick now =>
    if s.run matches .idle ∧ s.executor.started ∧ ¬s.executor.stopping then
      some { s with run := .due (s.executor.dueOperations now) }
    else none
  | .run answers => some (s.stepRun w answers)
  | .fly token answers =>
    match s.flights.find? token with
    | none => none
    | some f =>
      let next := s.stepFlight w token f answers
      some (next.1.settleFlight token f next.2)

end ExecutorSystem

end Datasystem.Cluster
