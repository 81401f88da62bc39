import Datasystem.Cluster.TopologyKeyHelper
import Datasystem.Cluster.TopologyRepositoryCodec

/-! The stored form of tasks and notifies. -/

namespace Datasystem.Cluster

/-- What an executor is told: the batch, its tasks, and restarts it has to react to. -/
structure TopologyTaskNotify where
  activeBatch : Option ActiveBatch := none
  taskIds : List Common.Bytes := []
  restartTimestampsByAddress : Lib.OrderedMap Common.Bytes Int := .empty
deriving DecidableEq

namespace TopologyRepositoryCodec

open Common Protobuf Lib Checked List

def maxNotifyTaskRefs : Nat := 4096

def maxNotifyValueBytes : Nat := 4 * 1024 * 1024

def maxRestartNotifyEntries : Nat := 10000

/-! ## Messages -/

structure TokenRangePb where
  ownerAddress : Bytes
  fromToken : Nat
  endToken : Nat
  finished : Bool
deriving DecidableEq

structure MigrateTaskPb where
  targetAddress : Bytes
  sourceRanges : List TokenRangePb
deriving DecidableEq

structure DeleteNodeTaskPb where
  failedAddress : Bytes
  recoveryRanges : List TokenRangePb
deriving DecidableEq

structure TaskNotifyPb where
  activeBatch : Option ChangeBatchPb
  taskIds : List Bytes
  restartTimestampsByAddress : OrderedMap Bytes Int
deriving DecidableEq

def TokenRangePb.byteSize (r : TokenRangePb) : Nat :=
  stringField r.ownerAddress + uintField r.fromToken + uintField r.endToken + boolField r.finished

def MigrateTaskPb.byteSize (pb : MigrateTaskPb) : Nat :=
  stringField pb.targetAddress + repeatedField (pb.sourceRanges.map TokenRangePb.byteSize)

def DeleteNodeTaskPb.byteSize (pb : DeleteNodeTaskPb) : Nat :=
  stringField pb.failedAddress + repeatedField (pb.recoveryRanges.map TokenRangePb.byteSize)

/-- Time stamps are `int64` values, and only positive ones are written. -/
def TaskNotifyPb.byteSize (pb : TaskNotifyPb) : Nat :=
  (pb.activeBatch.elim 0 fun b => lengthDelimited b.byteSize) +
    repeatedField (pb.taskIds.map List.length) +
    repeatedField (pb.restartTimestampsByAddress.entries.map fun (address, timestamp) =>
      lengthDelimited address.length + (1 + varintSize timestamp.toNat))

/-! ## Checks -/

variable (taskId : Bytes)

def validateTaskId : Result Unit := do
  let _ ← TopologyKeyHelper.taskKey taskId

def validateTaskContext (kind : String) (epoch : Nat) : Result Unit := do
  validateTaskId taskId
  let expected := ascii kind ++ ascii "-e" ++ decimal epoch ++ ascii "-"
  checkFailReturnStatus (expected.isPrefixOf taskId) .kInvalid "task id context mismatch"

def validateMemberAddress (address : Bytes) : Result Unit := do
  let _ ← TopologyKeyHelper.notifyKey address

/-- Each range ends before the next one begins. -/
def rangesApart : List TopologyTaskRange → Bool
  | a :: b :: rest => a.range.hi < b.range.lo && rangesApart (b :: rest)
  | _ => true

def isCanonicalRanges (ranges : List TopologyTaskRange) (executor : Bytes) : Bool :=
  !ranges.isEmpty && ranges.length ≤ maxTopologyTaskRanges && !executor.isEmpty &&
    (ranges.all fun r => r.ownerAddress == executor && r.range.lo ≤ r.range.hi) &&
      rangesApart ranges

/-! ## Tasks -/

def encodeRanges (ranges : List TopologyTaskRange) : List TokenRangePb :=
  ranges.map fun r => ⟨r.ownerAddress, r.range.lo.val, r.range.hi.val, r.finished⟩

def encodeMigrateTask (task : TopologyMigrateTask) : Result MigrateTaskPb := do
  validateTaskContext task.taskId "m" task.epoch
  validateMemberAddress task.targetAddress
  validateMemberAddress task.executorAddress
  checkFailReturnStatus (0 < task.epoch ∧ isCanonicalRanges task.sourceRanges task.executorAddress)
    .kInvalid "invalid migrate task"
  let pb : MigrateTaskPb := ⟨task.targetAddress, encodeRanges task.sourceRanges⟩
  serializeCanonical pb.byteSize
  pure pb

def encodeDeleteTask (task : TopologyDeleteTask) : Result DeleteNodeTaskPb := do
  validateTaskContext task.taskId "d" task.epoch
  validateMemberAddress task.failedAddress
  validateMemberAddress task.executorAddress
  checkFailReturnStatus
    (0 < task.epoch ∧ isCanonicalRanges task.recoveryRanges task.executorAddress)
    .kInvalid "invalid delete task"
  let pb : DeleteNodeTaskPb := ⟨task.failedAddress, encodeRanges task.recoveryRanges⟩
  serializeCanonical pb.byteSize
  pure pb

/-- The ranges of a stored task and the executor, which owns them all. -/
def decodeRanges (input : List TokenRangePb) : Result (List TopologyTaskRange × Bytes) := do
  checkFailReturnStatus (input ≠ [] ∧ input.length ≤ maxTopologyTaskRanges) .kInvalid
    "invalid task range count"
  let decoded : List TopologyTaskRange := input.map fun r =>
    ⟨r.ownerAddress, ⟨Fin.ofNat _ r.fromToken, Fin.ofNat _ r.endToken⟩, r.finished⟩
  match decoded with
  | [] => .error ⟨.kInvalid, "task has no ranges"⟩
  | first :: _ => do
    checkFailReturnStatus (isCanonicalRanges decoded first.ownerAddress) .kInvalid
      "invalid task ranges"
    pure (decoded, first.ownerAddress)

def decodeMigrateTask (type : TopologyChangeType) (epoch : Nat) (pb : MigrateTaskPb) :
    Result TopologyMigrateTask := do
  validateTaskContext taskId "m" epoch
  checkFailReturnStatus (0 < epoch ∧ pb.byteSize ≤ maxValueBytes) .kInvalid "invalid task context"
  checkFailReturnStatus (pb.targetAddress ≠ []) .kInvalid "invalid migrate task value"
  validateMemberAddress pb.targetAddress
  let (sourceRanges, executor) ← decodeRanges pb.sourceRanges
  pure ⟨taskId, type, epoch, executor, pb.targetAddress, sourceRanges⟩

def decodeDeleteTask (epoch : Nat) (pb : DeleteNodeTaskPb) : Result TopologyDeleteTask := do
  validateTaskContext taskId "d" epoch
  checkFailReturnStatus (0 < epoch ∧ pb.byteSize ≤ maxValueBytes) .kInvalid "invalid task context"
  checkFailReturnStatus (pb.failedAddress ≠ []) .kInvalid "invalid delete task value"
  validateMemberAddress pb.failedAddress
  let (recoveryRanges, executor) ← decodeRanges pb.recoveryRanges
  pure ⟨taskId, epoch, executor, pb.failedAddress, recoveryRanges⟩

/-! ## Notifies -/

def validateRestartEntries : List (Bytes × Int) → Result Unit
  | [] => pure ()
  | (address, timestamp) :: rest => do
    validateMemberAddress address
    checkFailReturnStatus (0 < timestamp) .kInvalid "restart notify timestamp must be positive"
    validateRestartEntries rest

def validateRestartFacts (restartTimestamps : OrderedMap Bytes Int) : Result Unit := do
  checkFailReturnStatus (restartTimestamps.entries.length ≤ maxRestartNotifyEntries) .kInvalid
    "restart notify count exceeds limit"
  validateRestartEntries restartTimestamps.entries

def encodeActiveBatch (activeBatch : ActiveBatch) : Result ChangeBatchPb := do
  checkFailReturnStatus (0 < activeBatch.epoch) .kInvalid "notify batch epoch must be positive"
  pure ⟨toPbType activeBatch.type, activeBatch.epoch⟩

def encodeNotifyBatch : Option ActiveBatch → Result (Option ChangeBatchPb)
  | none => pure none
  | some activeBatch => do
    let pb ← encodeActiveBatch activeBatch
    pure (some pb)

/-- The prefix of the ids of the tasks of a batch. -/
def taskIdPrefix (type : TopologyChangeType) : Bytes :=
  if type = .failure then ascii "d-e" else ascii "m-e"

def encodeTaskIds (activeBatch : Option ActiveBatch) : List Bytes → Result (List Bytes)
  | [] => pure []
  | taskId :: rest => do
    validateTaskId taskId
    checkFailReturnStatus
      (∃ batch ∈ activeBatch, (taskIdPrefix batch.type).isPrefixOf taskId) .kInvalid
      "notify task kind mismatch"
    let ids ← encodeTaskIds activeBatch rest
    pure (taskId :: ids)

def encodeNotify (notify : TopologyTaskNotify) : Result TaskNotifyPb := do
  checkFailReturnStatus
    (notify.taskIds.Pairwise (· ≤ ·) ∧ notify.taskIds.IsChain (· ≠ ·) ∧
      notify.taskIds.length ≤ maxNotifyTaskRefs)
    .kInvalid "invalid notify task ids"
  checkFailReturnStatus (notify.activeBatch ≠ none ∨ notify.taskIds = []) .kInvalid
    "notify tasks require an active batch"
  validateRestartFacts notify.restartTimestampsByAddress
  let activeBatch ← encodeNotifyBatch notify.activeBatch
  let taskIds ← encodeTaskIds notify.activeBatch notify.taskIds
  let pb : TaskNotifyPb := ⟨activeBatch, taskIds, notify.restartTimestampsByAddress⟩
  serializeCanonical pb.byteSize
  checkFailReturnStatus (pb.byteSize ≤ maxNotifyValueBytes) .kInvalid "notify value exceeds limit"
  pure pb

/-- `DecodeActiveBatch` of a notify that has a batch. -/
def decodeNotifyBatch : Option ChangeBatchPb → Result (Option ActiveBatch)
  | none => pure none
  | some pb => do
    checkFailReturnStatus (0 < pb.epoch) .kInvalid "notify batch epoch must be positive"
    let type ← fromPbType pb.type
    pure (some ⟨type, pb.epoch⟩)

/-! ## Notifies as bytes -/

/-- Fields in the order of their numbers, and map entries in the order of their keys. -/
def TaskNotifyPb.serialize (pb : TaskNotifyPb) : Bytes :=
  (pb.activeBatch.elim [] fun b =>
    writeDelimited 10 (writeUint 8 b.type ++ writeUint 16 b.epoch)) ++
    pb.taskIds.flatMap (writeDelimited 18) ++
    pb.restartTimestampsByAddress.entries.flatMap fun (address, timestamp) =>
      writeDelimited 26 (writeDelimited 10 address ++ 16 :: writeVarint 9 timestamp.toNat)

theorem TaskNotifyPb.length_serialize (pb : TaskNotifyPb) : pb.serialize.length = pb.byteSize := by
  unfold serialize byteSize repeatedField
  cases pb.activeBatch <;>
    simp [length_flatMap, Function.comp_def, ChangeBatchPb.byteSize, varintSize, length_writeVarint,
      Nat.add_assoc, Nat.add_comm, Nat.add_left_comm]

/-- `EncodeNotify` with its bytes. -/
def writeNotify (notify : TopologyTaskNotify) : Result Bytes := do
  let pb ← encodeNotify notify
  pure pb.serialize

def composeNotify (taskNotify : TopologyTaskNotify) (canonicalRestartNotify : Bytes) :
    Result Bytes := do
  checkFailReturnStatus (taskNotify.restartTimestampsByAddress.entries = []) .kInvalid
    "task notify contains duplicate restart facts"
  let encoded ← writeNotify taskNotify
  checkFailReturnStatus (canonicalRestartNotify.length ≤ maxNotifyValueBytes - encoded.length)
    .kInvalid "notify value exceeds limit"
  pure (encoded ++ canonicalRestartNotify)

/-- A stored notify is read back only in its canonical form. Protobuf parses its bytes. -/
def decodeNotify (parse : Bytes → Option TaskNotifyPb) (value : Bytes) :
    Result TopologyTaskNotify := do
  checkFailReturnStatus (value.length ≤ maxNotifyValueBytes) .kInvalid "notify value exceeds limit"
  match parse value with
  | none => .error ⟨.kInvalid, "invalid notify value"⟩
  | some pb =>
    let activeBatch ← decodeNotifyBatch pb.activeBatch
    let decoded : TopologyTaskNotify := ⟨activeBatch, pb.taskIds, pb.restartTimestampsByAddress⟩
    let canonical ← writeNotify decoded
    checkFailReturnStatus (canonical = value) .kInvalid "notify value is not canonical"
    pure decoded

variable {task notify : TopologyTaskNotify} {restarts : OrderedMap Bytes Int}
  {pb taskPb restartPb : TaskNotifyPb}

theorem encodeTaskIds_eq_ok {batch} {ids written : List Bytes}
    (h : encodeTaskIds batch ids = .ok written) : written = ids := by
  induction ids generalizing written with
  | nil => exact (pure_eq_ok.mp h).symm
  | cons id rest ih =>
    obtain ⟨_, -, h⟩ := bind_eq_ok.mp h
    obtain ⟨-, h⟩ := check_bind_eq_ok.mp h
    obtain ⟨tail, htail, h⟩ := bind_eq_ok.mp h
    rw [← pure_eq_ok.mp h, ih htail]

theorem decodeNotifyBatch_of_encode {batch} {written}
    (h : encodeNotifyBatch batch = .ok written) : decodeNotifyBatch written = .ok batch := by
  cases batch with
  | none =>
    obtain rfl := pure_eq_ok.mp h
    rfl
  | some batch =>
    obtain ⟨_, h, hsome⟩ := bind_eq_ok.mp h
    obtain ⟨hpos, h⟩ := check_bind_eq_ok.mp h
    obtain rfl := pure_eq_ok.mp h
    obtain rfl := pure_eq_ok.mp hsome
    rw [decodeNotifyBatch, check_of hpos, ok_bind]
    obtain ⟨_ | _ | _, _⟩ := batch <;> rfl

/-- What a notify is encoded to, and what is checked on the way. The batch and the ids do not depend
on the restarts, and the restarts not on them. -/
theorem encodeNotify_eq_ok : encodeNotify notify = .ok pb ↔
    ((notify.taskIds.Pairwise (· ≤ ·) ∧ notify.taskIds.IsChain (· ≠ ·) ∧
        notify.taskIds.length ≤ maxNotifyTaskRefs) ∧
      (notify.activeBatch ≠ none ∨ notify.taskIds = []) ∧
      encodeNotifyBatch notify.activeBatch = .ok pb.activeBatch ∧
      encodeTaskIds notify.activeBatch notify.taskIds = .ok pb.taskIds) ∧
    validateRestartFacts notify.restartTimestampsByAddress = .ok () ∧
    pb.restartTimestampsByAddress = notify.restartTimestampsByAddress ∧
    pb.byteSize ≤ maxNotifyValueBytes := by
  have hlimit : maxNotifyValueBytes ≤ maxValueBytes := by decide
  unfold encodeNotify serializeCanonical
  constructor
  · intro h
    obtain ⟨hids, h⟩ := check_bind_eq_ok.mp h
    obtain ⟨hbatch, h⟩ := check_bind_eq_ok.mp h
    obtain ⟨_, hfacts, h⟩ := bind_eq_ok.mp h
    obtain ⟨_, hactive, h⟩ := bind_eq_ok.mp h
    obtain ⟨_, htaskIds, h⟩ := bind_eq_ok.mp h
    obtain ⟨-, h⟩ := check_bind_eq_ok.mp h
    obtain ⟨hsize, h⟩ := check_bind_eq_ok.mp h
    obtain rfl := pure_eq_ok.mp h
    exact ⟨⟨hids, hbatch, hactive, htaskIds⟩, hfacts, rfl, hsize⟩
  · rintro ⟨⟨hids, hbatch, hactive, htaskIds⟩, hfacts, heq, hsize⟩
    rw [check_of hids, ok_bind, check_of hbatch, ok_bind, hfacts, ok_bind, hactive, ok_bind,
      htaskIds, ok_bind, ← heq]
    dsimp only
    rw [check_of (hsize.trans hlimit), ok_bind, check_of hsize]
    rfl

theorem writeNotify_eq_ok {value} : writeNotify notify = .ok value ↔
    ∃ pb, encodeNotify notify = .ok pb ∧ pb.serialize = value := by
  rw [writeNotify, bind_eq_ok]
  simp

/-- The parts are checked apart, so only the size of the whole is left to check. -/
theorem encodeNotify_merged (htask : encodeNotify task = .ok taskPb)
    (hrestart : encodeNotify { restartTimestampsByAddress := restarts } = .ok restartPb) :
    encodeNotify { task with restartTimestampsByAddress := restarts } = .ok pb ↔
      pb = ⟨taskPb.activeBatch, taskPb.taskIds, restarts⟩ ∧ pb.byteSize ≤ maxNotifyValueBytes := by
  obtain ⟨hparts, -⟩ := encodeNotify_eq_ok.mp htask
  obtain ⟨-, hfacts, -⟩ := encodeNotify_eq_ok.mp hrestart
  rw [encodeNotify_eq_ok]
  constructor
  · rintro ⟨⟨-, -, hactive, hids⟩, -, heq, hsize⟩
    obtain ⟨_, _, _⟩ := pb
    cases hactive.symm.trans hparts.2.2.1
    cases hids.symm.trans hparts.2.2.2
    cases heq
    exact ⟨rfl, hsize⟩
  · rintro ⟨rfl, hsize⟩
    exact ⟨hparts, hfacts, rfl, hsize⟩

theorem serialize_merged (hno : task.restartTimestampsByAddress.entries = [])
    (htask : encodeNotify task = .ok taskPb)
    (hrestart : encodeNotify { restartTimestampsByAddress := restarts } = .ok restartPb) :
    (⟨taskPb.activeBatch, taskPb.taskIds, restarts⟩ : TaskNotifyPb).serialize =
      taskPb.serialize ++ restartPb.serialize := by
  obtain ⟨-, -, hempty, -⟩ := encodeNotify_eq_ok.mp htask
  obtain ⟨⟨-, -, hnone, hnil⟩, -, heq, -⟩ := encodeNotify_eq_ok.mp hrestart
  obtain ⟨_, _, _⟩ := restartPb
  cases hnone
  cases hnil
  cases heq
  simp [TaskNotifyPb.serialize, hempty, hno]

/-- The notify that is put together from a task part and the bytes of the restarts is the one that
is encoded as a whole, byte for byte, and only what is encoded is read. -/
theorem composed_notify_canonical (parse : Bytes → Option TaskNotifyPb)
    (task : TopologyTaskNotify) (restarts : OrderedMap Bytes Int) (restartBytes : Bytes)
    (hno : task.restartTimestampsByAddress.entries = [])
    (htask : ∃ value, writeNotify task = .ok value)
    (hrestart : writeNotify { restartTimestampsByAddress := restarts } = .ok restartBytes)
    (hparse : ∀ pb, encodeNotify { task with restartTimestampsByAddress := restarts } = .ok pb →
      parse pb.serialize = some pb) :
    (∀ value, composeNotify task restartBytes = .ok value ↔
      writeNotify { task with restartTimestampsByAddress := restarts } = .ok value) ∧
    (∀ value, composeNotify task restartBytes = .ok value →
      decodeNotify parse value = .ok { task with restartTimestampsByAddress := restarts }) ∧
    ∀ value notify, decodeNotify parse value = .ok notify → writeNotify notify = .ok value := by
  obtain ⟨_, htask⟩ := htask
  obtain ⟨taskPb, htaskPb, rfl⟩ := writeNotify_eq_ok.mp htask
  obtain ⟨restartPb, hrestartPb, rfl⟩ := writeNotify_eq_ok.mp hrestart
  have hserialize := serialize_merged hno htaskPb hrestartPb
  have hsmall := (encodeNotify_eq_ok.mp htaskPb).2.2.2
  have hiff : ∀ value, composeNotify task restartPb.serialize = .ok value ↔
      writeNotify { task with restartTimestampsByAddress := restarts } = .ok value := by
    intro value
    rw [composeNotify, check_of hno, ok_bind, htask, ok_bind, check_bind_eq_ok, pure_eq_ok,
      writeNotify_eq_ok, ← hserialize]
    simp only [encodeNotify_merged htaskPb hrestartPb, ← TaskNotifyPb.length_serialize]
    rw [← TaskNotifyPb.length_serialize] at hsmall
    constructor
    · rintro ⟨hroom, rfl⟩
      refine ⟨_, ⟨rfl, ?_⟩, rfl⟩
      rw [hserialize, length_append]
      omega
    · rintro ⟨_, ⟨rfl, hsize⟩, rfl⟩
      rw [hserialize, length_append] at hsize
      exact ⟨by omega, rfl⟩
  refine ⟨hiff, fun value hcompose => ?_, fun value notify hread => ?_⟩
  · have hwrite := (hiff value).mp hcompose
    obtain ⟨pb, hpb, rfl⟩ := writeNotify_eq_ok.mp hwrite
    obtain ⟨⟨-, -, hactive, hids⟩, -, heq, hsize⟩ := encodeNotify_eq_ok.mp hpb
    rw [← TaskNotifyPb.length_serialize] at hsize
    rw [decodeNotify, check_of hsize, ok_bind, hparse pb hpb]
    dsimp only
    rw [decodeNotifyBatch_of_encode hactive, ok_bind, heq, encodeTaskIds_eq_ok hids,
      hwrite, ok_bind,
      check_of rfl, ok_bind]
    rfl
  · obtain ⟨-, hread⟩ := check_bind_eq_ok.mp hread
    split at hread
    · cases hread
    · obtain ⟨_, -, hread⟩ := bind_eq_ok.mp hread
      obtain ⟨_, hwrite, hread⟩ := bind_eq_ok.mp hread
      obtain ⟨hsame, hread⟩ := check_bind_eq_ok.mp hread
      rw [← pure_eq_ok.mp hread, hwrite, hsame]

theorem composed_restart_canonical :
    let merged := ⟨some ⟨.scaleOut, 1⟩, [], OrderedMap.empty.insert (ascii "1.1.1.1:80") 5⟩
    decodeNotify (fun _ => (encodeNotify merged).toOption)
      ([10, 2, 16, 1, 26, 14, 10, 10] ++ ascii "1.1.1.1:80" ++ [16, 5]) = .ok merged := by
  intro merged
  have h := composed_notify_canonical (fun _ => (encodeNotify merged).toOption)
    ⟨some ⟨.scaleOut, 1⟩, [], .empty⟩ (OrderedMap.empty.insert (ascii "1.1.1.1:80") 5)
    ([26, 14, 10, 10] ++ ascii "1.1.1.1:80" ++ [16, 5]) rfl ⟨[10, 2, 16, 1], by decide +kernel⟩
    (by decide +kernel) fun pb hpb => by rw [hpb]; rfl
  exact h.2.1 _ (by decide +kernel)

end TopologyRepositoryCodec

end Datasystem.Cluster
